import Mathlib.Data.List.Basic
import Mathlib.Tactic.Common

/-!
# Expressions of Jinja

The grammar is that of the parser, which reads from left to right and decides by the next tokens.
A goal is what the parser is about to read, and `Reads` relates the tokens before it has read it
to those after it.

Main results:

- Theorem `Balanced.append`: balanced tokens one after the other.
- Theorem `Balanced.unique`: the bracket that closes what was opened before is determined.
-/

namespace PhloTransform.Library.Jinja

variable {level : Level}
variable {s : Sign} {passed : Passed} {kind : ArgumentKind}

/-! ## Tokens -/

inductive Sign where
  | lparen | rparen | lbracket | rbracket | lbrace | rbrace
  | comma | assign | dot | colon | pipe | semicolon
  | add | sub | mul | div | floordiv | mod | pow | tilde
  | eq | ne | lt | le | gt | ge
deriving Repr, DecidableEq

inductive Token where
  | name (text : List Char)
  | integer (text : List Char)
  | float (text : List Char)
  | string (quote : Char) (body : List Char)
  | sign (s : Sign)
deriving Repr, DecidableEq

namespace Sign

def text : Sign → List Char
  | lparen => ['('] | rparen => [')'] | lbracket => ['['] | rbracket => [']']
  | lbrace => ['{'] | rbrace => ['}']
  | comma => [','] | assign => ['='] | dot => ['.'] | colon => [':'] | pipe => ['|']
  | semicolon => [';']
  | add => ['+'] | sub => ['-'] | mul => ['*'] | div => ['/'] | floordiv => ['/', '/']
  | mod => ['%'] | pow => ['*', '*'] | tilde => ['~']
  | eq => ['=', '='] | ne => ['!', '='] | lt => ['<'] | le => ['<', '='] | gt => ['>']
  | ge => ['>', '=']

def isOpening : Sign → Bool
  | lparen | lbracket | lbrace => true
  | _ => false

def isClosing : Sign → Bool
  | rparen | rbracket | rbrace => true
  | _ => false

end Sign

namespace Token

def text : Token → List Char
  | name text | integer text | float text => text
  | string quote body => quote :: (body ++ [quote])
  | sign s => s.text

def word (text : String) : Token :=
  .name text.toList

def isString : Token → Bool
  | string _ _ => true
  | _ => false

end Token

/-! ## Operators -/

/-- The levels of binary operators, the loosest first. -/
inductive Level where
  | or | and | compare | math1 | concat | math2 | pow
deriving Repr, DecidableEq

/-- The tokens of the operators of a level. -/
def Level.operators : Level → List (List Token)
  | or => [[.word "or"]]
  | and => [[.word "and"]]
  | compare =>
    [[.sign .eq], [.sign .ne], [.sign .lt], [.sign .le], [.sign .gt], [.sign .ge], [.word "in"],
      [.word "not", .word "in"]]
  | math1 => [[.sign .add], [.sign .sub]]
  | concat => [[.sign .tilde]]
  | math2 => [[.sign .mul], [.sign .div], [.sign .floordiv], [.sign .mod]]
  | pow => [[.sign .pow]]

/-! ## Arguments of a call -/

/-- The arguments that were read so far. -/
structure Passed where
  keyword : Bool
  star : Bool
  doubleStar : Bool
deriving Repr, DecidableEq

def Passed.nothing : Passed :=
  ⟨false, false, false⟩

inductive ArgumentKind where
  | positional
  | keyword (name : List Char)
  | star
  | doubleStar
deriving Repr, DecidableEq

def Passed.add (passed : Passed) : ArgumentKind → Passed
  | .positional => passed
  | .keyword _ => { passed with keyword := true }
  | .star => { passed with star := true }
  | .doubleStar => { passed with doubleStar := true }

/-- The tokens in front of the expression of an argument. -/
def ArgumentKind.head : ArgumentKind → List Token
  | positional => []
  | keyword name => [.name name, .sign .assign]
  | star => [.sign .mul]
  | doubleStar => [.sign .pow]

/-- An argument starts: its kind, and the tokens of its expression. -/
inductive Opens (passed : Passed) : List Token → ArgumentKind → List Token → Prop where
  | star {tokens : List Token} (hstar : passed.star = false) (hdouble : passed.doubleStar = false) :
      Opens passed (.sign .mul :: tokens) .star tokens
  | doubleStar {tokens : List Token} (hdouble : passed.doubleStar = false) :
      Opens passed (.sign .pow :: tokens) .doubleStar tokens
  | keyword {name : List Char} {tokens : List Token} (hdouble : passed.doubleStar = false) :
      Opens passed (.name name :: .sign .assign :: tokens) (.keyword name) tokens
  | positional {tokens : List Token} (hpassed : passed = .nothing)
      (hstar : tokens.head? ≠ some (.sign .mul) ∧ tokens.head? ≠ some (.sign .pow))
      (hkeyword : ∀ name rest, tokens ≠ .name name :: .sign .assign :: rest) :
      Opens passed tokens .positional tokens

/-! ## Reading -/

/-- What is about to be read. -/
inductive Goal where
  | condition
  | conditions
  | chain (level : Level)
  | links (level : Level)
  | negation
  | unary (filtered : Bool)
  | primary
  | strings
  | trailers
  | filters (filtered : Bool)
  /-- What follows the name of a filter or a test, up to its arguments. -/
  | dots
  | test
  | testName
  | slice
  | stop
  | stride
  | items (close : Sign)
  | entries
  | subscripts
  | moreSubscripts
  | arguments (passed : Passed)
deriving Repr, DecidableEq

/-- What a level's operators stand between. -/
def Level.operand : Level → Goal
  | or => .chain .and
  | and => .negation
  | compare => .chain .math1
  | math1 => .chain .concat
  | concat => .chain .math2
  | math2 => .chain .pow
  | pow => .unary true

/-- The tokens that start the argument of a test without parentheses. -/
def Token.opensTestArgument : Token → Bool
  | name text => text ∉ ["else".toList, "or".toList, "and".toList, "is".toList]
  | integer _ | float _ | string _ _ => true
  | sign s => s = .lbracket || s = .lbrace

def Token.continuesTest (token : Token) : Bool :=
  token.opensTestArgument || token = .word "is" || token = .sign .lparen

/-- The tokens before and after something is read. -/
inductive Reads : Goal → List Token → List Token → Prop where
  | condition {t u rest} (hfirst : Reads (.chain .or) t u) (hmore : Reads .conditions u rest) :
      Reads .condition t rest
  | conditionsEnd {t} (h : t.head? ≠ some (.word "if")) : Reads .conditions t t
  | conditionsIf {t u rest} (htest : Reads (.chain .or) t u)
      (helse : u.head? ≠ some (.word "else")) (hmore : Reads .conditions u rest) :
      Reads .conditions (.word "if" :: t) rest
  | conditionsElse {t u v rest} (htest : Reads (.chain .or) t (.word "else" :: u))
      (helse : Reads .condition u v) (hmore : Reads .conditions v rest) :
      Reads .conditions (.word "if" :: t) rest
  | chain {level t u rest} (hfirst : Reads level.operand t u)
      (hmore : Reads (.links level) u rest) : Reads (.chain level) t rest
  | linksEnd {level t} (h : ∀ operator ∈ level.operators, ¬operator <+: t) :
      Reads (.links level) t t
  | link {level t u rest operator} (h : operator ∈ level.operators)
      (hoperand : Reads level.operand t u) (hmore : Reads (.links level) u rest) :
      Reads (.links level) (operator ++ t) rest
  | not {t rest} (h : Reads .negation t rest) : Reads .negation (.word "not" :: t) rest
  | negation {t rest} (hnot : t.head? ≠ some (.word "not")) (h : Reads (.chain .compare) t rest) :
      Reads .negation t rest
  | signed {filtered s t u v rest} (hsign : s = .add ∨ s = .sub)
      (hoperand : Reads (.unary false) t u) (htrailers : Reads .trailers u v)
      (hfilters : Reads (.filters filtered) v rest) : Reads (.unary filtered) (.sign s :: t) rest
  | unary {filtered t u v rest} (hprimary : Reads .primary t u) (htrailers : Reads .trailers u v)
      (hfilters : Reads (.filters filtered) v rest) : Reads (.unary filtered) t rest
  | name {text rest} : Reads .primary (.name text :: rest) rest
  | integer {text rest} : Reads .primary (.integer text :: rest) rest
  | float {text rest} : Reads .primary (.float text :: rest) rest
  | string {quote body t rest} (h : Reads .strings t rest) :
      Reads .primary (.string quote body :: t) rest
  | tuple {t rest} (h : Reads (.items .rparen) t rest) : Reads .primary (.sign .lparen :: t) rest
  | list {t rest} (h : Reads (.items .rbracket) t rest) :
      Reads .primary (.sign .lbracket :: t) rest
  | dictionary {t rest} (h : Reads .entries t rest) : Reads .primary (.sign .lbrace :: t) rest
  | stringsEnd {t} (h : ∀ token ∈ t.head?, token.isString = false) : Reads .strings t t
  | strings {quote body t rest} (h : Reads .strings t rest) :
      Reads .strings (.string quote body :: t) rest
  | getattr {token t rest}
      (htoken : (∃ text, token = .name text) ∨ ∃ text, token = .integer text)
      (h : Reads .trailers t rest) : Reads .trailers (.sign .dot :: token :: t) rest
  | subscript {t u rest} (hinside : Reads .subscripts t u) (h : Reads .trailers u rest) :
      Reads .trailers (.sign .lbracket :: t) rest
  | call {t u rest} (hinside : Reads (.arguments .nothing) t u) (h : Reads .trailers u rest) :
      Reads .trailers (.sign .lparen :: t) rest
  | trailersEnd {t} (h : ∀ s ∈ [Sign.dot, .lbracket, .lparen], t.head? ≠ some (.sign s)) :
      Reads .trailers t t
  | unfiltered {t} : Reads (.filters false) t t
  | filter {text t u rest} (hdots : Reads .dots t u) (hcall : u.head? ≠ some (.sign .lparen))
      (h : Reads (.filters true) u rest) :
      Reads (.filters true) (.sign .pipe :: .name text :: t) rest
  | filterCall {text t u v rest} (hdots : Reads .dots t (.sign .lparen :: u))
      (hinside : Reads (.arguments .nothing) u v) (h : Reads (.filters true) v rest) :
      Reads (.filters true) (.sign .pipe :: .name text :: t) rest
  | tested {t u rest} (htest : Reads .test t u) (h : Reads (.filters true) u rest) :
      Reads (.filters true) (.word "is" :: t) rest
  | filteredCall {t u rest} (hinside : Reads (.arguments .nothing) t u)
      (h : Reads (.filters true) u rest) : Reads (.filters true) (.sign .lparen :: t) rest
  | filtersEnd {t}
      (h : ∀ token ∈ [.sign .pipe, .word "is", .sign .lparen], t.head? ≠ some token) :
      Reads (.filters true) t t
  | dotsEnd {t} (h : t.head? ≠ some (.sign .dot)) : Reads .dots t t
  | dots {text t rest} (h : Reads .dots t rest) : Reads .dots (.sign .dot :: .name text :: t) rest
  | testNot {t rest} (h : Reads .testName t rest) : Reads .test (.word "not" :: t) rest
  | test {t rest} (hnot : t.head? ≠ some (.word "not")) (h : Reads .testName t rest) :
      Reads .test t rest
  | testCall {text t u rest} (hdots : Reads .dots t (.sign .lparen :: u))
      (hinside : Reads (.arguments .nothing) u rest) : Reads .testName (.name text :: t) rest
  | testArgument {text token t u v rest} (hdots : Reads .dots t (token :: u))
      (hopens : token.opensTestArgument = true) (hargument : Reads .primary (token :: u) v)
      (htrailers : Reads .trailers v rest) : Reads .testName (.name text :: t) rest
  | testEnd {text t rest} (hdots : Reads .dots t rest)
      (h : ∀ token ∈ rest.head?, token.continuesTest = false) :
      Reads .testName (.name text :: t) rest
  | index {t rest} (h : Reads .condition t rest) (hcolon : rest.head? ≠ some (.sign .colon)) :
      Reads .slice t rest
  | range {t u rest} (hstart : Reads .condition t (.sign .colon :: u)) (h : Reads .stop u rest) :
      Reads .slice t rest
  | openRange {t rest} (h : Reads .stop t rest) : Reads .slice (.sign .colon :: t) rest
  | stopEnd {t} (h : t.head? = some (.sign .rbracket) ∨ t.head? = some (.sign .comma)) :
      Reads .stop t t
  | openStop {t rest} (h : Reads .stride t rest) : Reads .stop (.sign .colon :: t) rest
  | stop {t rest} (h : Reads .condition t rest) (hcolon : rest.head? ≠ some (.sign .colon)) :
      Reads .stop t rest
  | stopStride {t u rest} (hstop : Reads .condition t (.sign .colon :: u))
      (h : Reads .stride u rest) : Reads .stop t rest
  | strideEnd {t} (h : t.head? = some (.sign .rbracket) ∨ t.head? = some (.sign .comma)) :
      Reads .stride t t
  | stride {t rest} (h : Reads .condition t rest) : Reads .stride t rest
  | itemsEnd {close rest} (hclose : close.isClosing = true) :
      Reads (.items close) (.sign close :: rest) rest
  | lastItem {close t rest} (hclose : close.isClosing = true)
      (h : Reads .condition t (.sign close :: rest)) : Reads (.items close) t rest
  | item {close t u rest} (hitem : Reads .condition t (.sign .comma :: u))
      (h : Reads (.items close) u rest) : Reads (.items close) t rest
  | entriesEnd {rest} : Reads .entries (.sign .rbrace :: rest) rest
  | lastEntry {t u rest} (hkey : Reads .condition t (.sign .colon :: u))
      (h : Reads .condition u (.sign .rbrace :: rest)) : Reads .entries t rest
  | entry {t u v rest} (hkey : Reads .condition t (.sign .colon :: u))
      (hvalue : Reads .condition u (.sign .comma :: v)) (h : Reads .entries v rest) :
      Reads .entries t rest
  | subscriptsEnd {rest} : Reads .subscripts (.sign .rbracket :: rest) rest
  | subscripts {t rest} (h : Reads .moreSubscripts t rest) : Reads .subscripts t rest
  | lastSubscript {t rest} (h : Reads .slice t (.sign .rbracket :: rest)) :
      Reads .moreSubscripts t rest
  | moreSubscripts {t u rest} (hslice : Reads .slice t (.sign .comma :: u))
      (h : Reads .moreSubscripts u rest) : Reads .moreSubscripts t rest
  | argumentsEnd {passed rest} : Reads (.arguments passed) (.sign .rparen :: rest) rest
  | lastArgument {passed kind t u rest} (hopens : Opens passed t kind u)
      (h : Reads .condition u (.sign .rparen :: rest)) : Reads (.arguments passed) t rest
  | argument {passed kind t u v rest} (hopens : Opens passed t kind u)
      (hargument : Reads .condition u (.sign .comma :: v))
      (h : Reads (.arguments (passed.add kind)) v rest) : Reads (.arguments passed) t rest

/-! ## Balanced tokens -/

namespace Token

/-- Neither a bracket nor a comma nor an assignment. -/
def isPlain : Token → Bool
  | sign s => !s.isOpening && !s.isClosing && s ≠ .comma && s ≠ .assign
  | _ => true

def isBracket : Token → Bool
  | sign s => s.isOpening || s.isClosing
  | _ => false

/-- The tokens that an expression starts with. -/
def canStart : Token → Bool
  | sign s => s.isOpening || s = .add || s = .sub
  | _ => true

end Token

theorem Token.isBracket_of_isPlain {token : Token} (h : token.isPlain = true) :
    token.isBracket = false := by
  cases token with
  | sign s =>
    revert h
    cases s <;> decide
  | name _ | integer _ | float _ | string _ _ => rfl

theorem Token.isBracket_of_isOpening (h : s.isOpening = true) : (sign s).isBracket = true := by
  rw [isBracket, h, Bool.true_or]

theorem Token.isBracket_of_isClosing (h : s.isClosing = true) : (sign s).isBracket = true := by
  rw [isBracket, h, Bool.or_true]

theorem Sign.isClosing_of_isOpening (h : s.isOpening = true) : ¬s.isClosing = true := by
  revert h
  cases s <;> decide

/-- Balanced brackets; commas and assignments outside of them only where they are `free`. -/
inductive Balanced : Bool → List Token → Prop where
  | nil {free} : Balanced free []
  | plain {free token rest} (h : token.isPlain = true) (hrest : Balanced free rest) :
      Balanced free (token :: rest)
  | free {token rest} (h : token = .sign .comma ∨ token = .sign .assign)
      (hrest : Balanced true rest) : Balanced true (token :: rest)
  | group {free opening closing inside rest} (hopening : opening.isOpening = true)
      (hclosing : closing.isClosing = true) (hinside : Balanced true inside)
      (hrest : Balanced free rest) :
      Balanced free (.sign opening :: (inside ++ .sign closing :: rest))

namespace Balanced

variable {free : Bool} {a b : List Token}

theorem append (ha : Balanced free a) (hb : Balanced free b) : Balanced free (a ++ b) := by
  induction ha with
  | nil => exact hb
  | plain h _ ih => exact .plain h (ih hb)
  | free h _ ih => exact .free h (ih hb)
  | group hopening hclosing hinside _ _ ih =>
    rw [List.cons_append, List.append_assoc, List.cons_append]
    exact .group hopening hclosing hinside (ih hb)

theorem toFree (h : Balanced free a) : Balanced true a := by
  induction h with
  | nil => exact .nil
  | plain h _ ih => exact .plain h ih
  | free h _ ih => exact .free h ih
  | group hopening hclosing hinside _ _ ih => exact .group hopening hclosing hinside ih

theorem of_plain (h : ∀ token ∈ a, token.isPlain = true) : Balanced free a := by
  induction a with
  | nil => exact .nil
  | cons token a ih =>
    rw [List.forall_mem_cons] at h
    exact .plain h.1 (ih h.2)

/-- Balanced tokens start with no bracket, or with a group. -/
theorem cons_cases {token : Token} (h : Balanced free (token :: a)) :
    (token.isBracket = false ∧ Balanced free a) ∨
      ∃ opening inside closing rest, token = .sign opening ∧ opening.isOpening = true ∧
        closing.isClosing = true ∧ a = inside ++ .sign closing :: rest ∧ Balanced true inside ∧
        Balanced free rest := by
  cases h with
  | plain h hrest => exact Or.inl ⟨Token.isBracket_of_isPlain h, hrest⟩
  | free h hrest =>
    rcases h with rfl | rfl
    · exact Or.inl ⟨rfl, hrest⟩
    · exact Or.inl ⟨rfl, hrest⟩
  | group hopening hclosing hinside hrest =>
    exact Or.inr ⟨_, _, _, _, rfl, hopening, hclosing, rfl, hinside, hrest⟩

theorem plain_or_opening {token : Token} (h : Balanced false (token :: a)) :
    (token.isPlain = true ∧ Balanced false a) ∨
      ∃ opening : Sign, token = .sign opening ∧ opening.isOpening = true := by
  cases h with
  | plain h hrest => exact Or.inl ⟨h, hrest⟩
  | group hopening _ _ _ => exact Or.inr ⟨_, rfl, hopening⟩

theorem ne_closing {token : Token} {s : Sign} (h : Balanced free (token :: a))
    (hs : s.isClosing = true) : token ≠ .sign s := by
  rintro rfl
  rcases h.cons_cases with ⟨hbracket, -⟩ | ⟨opening, -, -, -, heq, hopening, -⟩
  · rw [Token.isBracket_of_isClosing hs] at hbracket
    cases hbracket
  · cases heq
    exact absurd hs (Sign.isClosing_of_isOpening hopening)

/-- The first bracket that closes none of the tokens before it. -/
theorem unique {free' : Bool} {s s' : Sign} {rest rest' : List Token} (ha : Balanced free a)
    (hb : Balanced free' b) (hs : s.isClosing = true) (hs' : s'.isClosing = true)
    (h : a ++ .sign s :: rest = b ++ .sign s' :: rest') : a = b ∧ s = s' ∧ rest = rest' := by
  -- without a bracket in front, both go on behind the same token
  have hcons : ∀ {token : Token} {a b : List Token} {free free' : Bool} {s s' : Sign}
      {rest rest' : List Token}, token.isBracket = false →
      (∀ {b}, Balanced free' b → s'.isClosing = true →
        a ++ .sign s :: rest = b ++ .sign s' :: rest' → a = b ∧ s = s' ∧ rest = rest') →
      Balanced free (token :: a) → Balanced free' b → s'.isClosing = true →
      token :: a ++ .sign s :: rest = b ++ .sign s' :: rest' →
      token :: a = b ∧ s = s' ∧ rest = rest' := by
    intro token a b free free' s s' rest rest' hbracket ih ha hb hs' h
    cases b with
    | nil => exact absurd (List.cons.inj h).1 (ha.ne_closing hs')
    | cons token' b =>
      obtain ⟨rfl, htail⟩ := List.cons.inj h
      rcases hb.cons_cases with ⟨-, hb⟩ | ⟨opening, -, -, -, rfl, hopening, -⟩
      · obtain ⟨rfl, heq⟩ := ih hb hs' htail
        exact ⟨rfl, heq⟩
      · rw [Token.isBracket_of_isOpening hopening] at hbracket
        cases hbracket
  induction ha generalizing b free' s s' rest rest' with
  | nil =>
    cases b with
    | nil =>
      obtain ⟨heq, htail⟩ := List.cons.inj h
      cases heq
      exact ⟨rfl, rfl, htail⟩
    | cons token b => exact absurd (List.cons.inj h).1.symm (hb.ne_closing hs)
  | plain hplain hrest ih =>
    exact hcons (Token.isBracket_of_isPlain hplain) (fun hb hs' h => ih hb hs hs' h)
      (.plain hplain hrest) hb hs' h
  | free hfree hrest ih =>
    refine hcons ?_ (fun hb hs' h => ih hb hs hs' h) (.free hfree hrest) hb hs' h
    rcases hfree with rfl | rfl
    · rfl
    · rfl
  | @group free opening closing inside more hopening hclosing hinside hrest ihinside ih =>
    cases b with
    | nil =>
      exact absurd (List.cons.inj h).1
        ((group hopening hclosing hinside hrest).ne_closing hs')
    | cons token b =>
      obtain rfl := (List.cons.inj h).1
      have htail : (inside ++ .sign closing :: more) ++ .sign s :: rest =
          b ++ .sign s' :: rest' := (List.cons.inj h).2
      rcases hb.cons_cases with ⟨hbracket, -⟩ |
        ⟨opening', inside', closing', more', heq, -, hclosing', rfl, hinside', hrest'⟩
      · rw [Token.isBracket_of_isOpening hopening] at hbracket
        cases hbracket
      · cases heq
        rw [List.append_assoc, List.append_assoc, List.cons_append, List.cons_append] at htail
        obtain ⟨rfl, rfl, hmore⟩ := ihinside hinside' hclosing hclosing' htail
        obtain ⟨rfl, heq⟩ := ih hrest' hs hs' hmore
        exact ⟨rfl, heq⟩

end Balanced

/-- The tokens of something that is not empty. -/
structure Operand (used : List Token) : Prop where
  starts : ∃ token rest, used = token :: rest ∧ token.canStart = true
  balanced : Balanced false used

/-- What is inside of brackets, and the closing one. -/
def Inside (used : List Token) : Prop :=
  ∃ inside closing, used = inside ++ [.sign closing] ∧ closing.isClosing = true ∧
    Balanced true inside

variable {a b : List Token}

theorem Operand.append (ha : Operand a) (hb : Balanced false b) : Operand (a ++ b) where
  starts := by
    obtain ⟨token, rest, rfl, hstart⟩ := ha.starts
    exact ⟨token, rest ++ b, rfl, hstart⟩
  balanced := ha.balanced.append hb

theorem Operand.cons {token : Token} (hplain : token.isPlain = true)
    (hstart : token.canStart = true) (ha : Balanced false a) : Operand (token :: a) :=
  ⟨⟨token, a, rfl, hstart⟩, .plain hplain ha⟩

theorem Inside.enclosed {opening : Sign} (hopening : opening.isOpening = true) (ha : Inside a)
    (hb : Balanced false b) : Balanced false (.sign opening :: (a ++ b)) := by
  obtain ⟨inside, closing, rfl, hclosing, hinside⟩ := ha
  rw [List.append_assoc, List.singleton_append]
  exact .group hopening hclosing hinside hb

theorem Inside.prepend (ha : Balanced true a) (hb : Inside b) : Inside (a ++ b) := by
  obtain ⟨inside, closing, rfl, hclosing, hinside⟩ := hb
  exact ⟨a ++ inside, closing, (List.append_assoc _ _ _).symm, hclosing, ha.append hinside⟩

/-- The tokens in front of `rest` are of a kind. -/
def Spent (kind : List Token → Prop) (t rest : List Token) : Prop :=
  ∃ used, t = used ++ rest ∧ kind used

namespace Spent

variable {t u rest : List Token} {token : Token}
variable {opening : Sign}

theorem nil : Spent (Balanced false) t t :=
  ⟨[], rfl, .nil⟩

theorem balanced (h : Spent Operand t rest) : Spent (Balanced false) t rest := by
  obtain ⟨used, heq, hused⟩ := h
  exact ⟨used, heq, hused.balanced⟩

theorem append (ha : Spent (Balanced false) t u) (hb : Spent (Balanced false) u rest) :
    Spent (Balanced false) t rest := by
  obtain ⟨b, rfl, hb⟩ := hb
  obtain ⟨a, rfl, ha⟩ := ha
  exact ⟨a ++ b, (List.append_assoc _ _ _).symm, ha.append hb⟩

theorem operand (ha : Spent Operand t u) (hb : Spent (Balanced false) u rest) :
    Spent Operand t rest := by
  obtain ⟨b, rfl, hb⟩ := hb
  obtain ⟨a, rfl, ha⟩ := ha
  exact ⟨a ++ b, (List.append_assoc _ _ _).symm, ha.append hb⟩

theorem plain (htoken : token.isPlain = true) (h : Spent (Balanced false) t rest) :
    Spent (Balanced false) (token :: t) rest := by
  obtain ⟨a, rfl, ha⟩ := h
  exact ⟨token :: a, rfl, .plain htoken ha⟩

theorem start (htoken : token.isPlain = true) (hstart : token.canStart = true)
    (h : Spent (Balanced false) t rest) : Spent Operand (token :: t) rest := by
  obtain ⟨a, rfl, ha⟩ := h
  exact ⟨token :: a, rfl, .cons htoken hstart ha⟩

theorem group (hopening : opening.isOpening = true) (hinside : Spent Inside t u)
    (h : Spent (Balanced false) u rest) : Spent (Balanced false) (.sign opening :: t) rest := by
  obtain ⟨b, rfl, hb⟩ := h
  obtain ⟨a, rfl, ha⟩ := hinside
  exact ⟨.sign opening :: (a ++ b), by simp, ha.enclosed hopening hb⟩

theorem bracketed (hopening : opening.isOpening = true) (h : Spent Inside t rest) :
    Spent Operand (.sign opening :: t) rest := by
  obtain ⟨a, rfl, ha⟩ := h
  refine ⟨.sign opening :: a, rfl, ⟨_, a, rfl, ?_⟩, ?_⟩
  · rw [Token.canStart, hopening]
    rfl
  · simpa using ha.enclosed hopening Balanced.nil

theorem close {closing : Sign} (hclosing : closing.isClosing = true)
    (h : Spent (Balanced false) t (.sign closing :: rest)) : Spent Inside t rest := by
  obtain ⟨a, rfl, ha⟩ := h
  exact ⟨a ++ [.sign closing], by simp, a, closing, rfl, hclosing, ha.toFree⟩

theorem item (htoken : Balanced true [token]) (h : Spent (Balanced false) t (token :: u))
    (hmore : Spent Inside u rest) : Spent Inside t rest := by
  obtain ⟨b, rfl, hb⟩ := hmore
  obtain ⟨a, rfl, ha⟩ := h
  exact ⟨a ++ token :: b, by simp, .prepend ha.toFree (.prepend htoken hb)⟩

end Spent

/-! ## What is read -/

/-- What the tokens that a goal reads are like. -/
def Goal.Spends : Goal → List Token → Prop
  | condition | chain _ | negation | unary _ | primary => Operand
  | items _ | entries | subscripts | moreSubscripts | arguments _ => Inside
  | conditions | links _ | strings | trailers | filters _ | dots | test | testName | slice | stop
  | stride => Balanced false

theorem Level.spends_operand (h : level.operand.Spends a) : Operand a := by
  cases level <;> exact h

theorem Level.balanced_operator {operator : List Token} (h : operator ∈ level.operators) :
    Balanced false operator := by
  have hplain : ∀ level : Level, ∀ operator ∈ level.operators, ∀ token ∈ operator,
      token.isPlain = true := by
    intro level
    cases level <;> decide
  exact .of_plain (hplain level operator h)

theorem Opens.eq_append (h : Opens passed a kind b) : a = kind.head ++ b := by
  cases h <;> rfl

theorem ArgumentKind.balanced_head (kind : ArgumentKind) : Balanced true kind.head := by
  cases kind with
  | positional => exact .nil
  | keyword name => exact .plain rfl (.free (.inr rfl) .nil)
  | star => exact .plain rfl .nil
  | doubleStar => exact .plain rfl .nil

theorem Opens.spent {rest : List Token} (h : Opens passed a kind b) (hb : Spent Inside b rest) :
    Spent Inside a rest := by
  obtain ⟨used, rfl, hused⟩ := hb
  exact ⟨kind.head ++ used, by rw [h.eq_append, List.append_assoc],
    .prepend kind.balanced_head hused⟩

theorem Level.spent_operand {t rest : List Token} (h : Spent level.operand.Spends t rest) :
    Spent Operand t rest := by
  obtain ⟨used, heq, hused⟩ := h
  exact ⟨used, heq, level.spends_operand hused⟩

/-- What is read is balanced, and has no comma and no assignment outside of brackets. -/
theorem Reads.spends {goal : Goal} {t rest : List Token} (h : Reads goal t rest) :
    Spent goal.Spends t rest := by
  induction h with
  | conditionsEnd | linksEnd | stringsEnd | trailersEnd | unfiltered | filtersEnd | dotsEnd
  | stopEnd | strideEnd => exact .nil
  | negation _ _ ih | test _ _ ih | subscripts _ ih => exact ih
  | index _ _ ih | stop _ _ ih | stride _ ih => exact Spent.balanced ih
  | name | integer | float => exact .start rfl rfl .nil
  | condition _ _ ih ihmore => exact Spent.operand ih ihmore
  | conditionsIf _ _ _ ih ihmore => exact .plain rfl (ih.balanced.append ihmore)
  | conditionsElse _ _ _ ih ihelse ihmore =>
    exact .plain rfl (ih.balanced.append (.plain rfl (ihelse.balanced.append ihmore)))
  | chain _ _ ih ihmore => exact (Level.spent_operand ih).operand ihmore
  | link hmem _ _ ih ihmore =>
    refine Spent.append ⟨_, rfl, Level.balanced_operator hmem⟩ ?_
    exact (Level.spent_operand ih).balanced.append ihmore
  | not _ ih => exact .start rfl rfl ih.balanced
  | signed hsign _ _ _ ih ihtrailers ihfilters =>
    have hused := ih.balanced.append (Spent.append ihtrailers ihfilters)
    rcases hsign with rfl | rfl
    · exact .start rfl rfl hused
    · exact .start rfl rfl hused
  | unary _ _ _ ih ihtrailers ihfilters => exact ih.operand (Spent.append ihtrailers ihfilters)
  | string _ ih => exact .start rfl rfl ih
  | tuple _ ih | list _ ih | dictionary _ ih => exact .bracketed rfl ih
  | strings _ ih | testNot _ ih | openRange _ ih | openStop _ ih => exact .plain rfl ih
  | testEnd _ _ ih => exact .plain rfl ih
  | getattr htoken _ ih =>
    refine .plain rfl (.plain ?_ ih)
    rcases htoken with ⟨text, rfl⟩ | ⟨text, rfl⟩ <;> rfl
  | subscript _ _ ihinside ih | call _ _ ihinside ih | filteredCall _ _ ihinside ih =>
    exact .group rfl ihinside ih
  | filter _ _ _ ihdots ih => exact .plain rfl (.plain rfl (Spent.append ihdots ih))
  | filterCall _ _ _ ihdots ihinside ih =>
    exact .plain rfl (.plain rfl (Spent.append ihdots (.group rfl ihinside ih)))
  | tested _ _ ihtest ih => exact .plain rfl (Spent.append ihtest ih)
  | dots _ ih => exact .plain rfl (.plain rfl ih)
  | testCall _ _ ihdots ihinside =>
    exact .plain rfl (Spent.append ihdots (.group rfl ihinside .nil))
  | testArgument _ _ _ _ ihdots ihargument ihtrailers =>
    exact .plain rfl (Spent.append ihdots (ihargument.balanced.append ihtrailers))
  | range _ _ ihstart ih => exact ihstart.balanced.append (.plain rfl ih)
  | stopStride _ _ ihstop ih => exact ihstop.balanced.append (.plain rfl ih)
  | itemsEnd hclose => exact .close hclose .nil
  | lastItem hclose _ ih => exact .close hclose ih.balanced
  | item _ _ ihitem ih => exact .item (.free (.inl rfl) .nil) ihitem.balanced ih
  | entriesEnd | subscriptsEnd | argumentsEnd => exact .close rfl .nil
  | lastEntry _ _ ihkey ih =>
    exact .item (.plain rfl .nil) ihkey.balanced (.close rfl ih.balanced)
  | entry _ _ _ ihkey ihvalue ih =>
    exact .item (.plain rfl .nil) ihkey.balanced
      (.item (.free (.inl rfl) .nil) ihvalue.balanced ih)
  | lastSubscript _ ih => exact .close rfl ih
  | moreSubscripts _ _ ihslice ih => exact .item (.free (.inl rfl) .nil) ihslice ih
  | lastArgument hopens _ ih => exact hopens.spent (.close rfl ih.balanced)
  | argument hopens _ _ ihargument ih =>
    exact hopens.spent (.item (.free (.inl rfl) .nil) ihargument.balanced ih)

end PhloTransform.Library.Jinja
