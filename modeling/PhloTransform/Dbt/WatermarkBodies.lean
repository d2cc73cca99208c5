import Mathlib.Data.List.TakeWhile
import PhloTransform.Dbt.Incremental
import PhloTransform.Library.NestedText

/-!
# Watermark filters

The body of an `is_incremental()` block is dropped for a window directive when it has a `max(`
with a name in it.  The directive means the same when the body is one comparison of a column
with its greatest value in the target.

Main results:

- Theorem `afterMax_text`: the first `max(` of a text by the tokens of the text.
- Theorem `IsFilter.pairs`: in a watermark filter, only the column is in a `max(`.
-/

namespace PhloTransform.Dbt.Watermarks

variable {R : Token → Token → List Token → Prop} {a token : Token} {tokens front after : List Token}
  {column letters rest : List Char} {c : Char} {body : List Segment} {parts : List Item}
variable {P : List Token → Prop}

/-! ## Tokens -/

/-- A character of the body, or `{{ this }}`. -/
inductive Item where
  | char (c : Char)
  | this
deriving DecidableEq

/-- The body when `this` is its only expression. -/
def items : List Segment → Option (List Item)
  | [] => some []
  | .text part :: rest => (items rest).map fun after => part.toList.map .char ++ after
  | .expr inner :: rest =>
    if Core.trim inner.toList = "this".toList then (items rest).map fun after => .this :: after
    else none
  | .stmt _ :: _ | .comment _ :: _ => none

inductive Token where
  | word (letters : List Char)
  | space (c : Char)
  | dot
  | opening
  | closing
  | greater
  | equal
  | this
  | other (c : Char)
deriving DecidableEq

def isWordChar (c : Char) : Bool := c.isAlphanum || c == '_'

/-- The characters that `watermark_column` takes for the column. -/
def isNameChar (c : Char) : Bool := c.isAlphanum || c == '_' || c == '.'

/-- A character of a word goes in front of the rest of the word. -/
def glue (c : Char) : List Token → List Token
  | .word letters :: tokens => .word (c :: letters) :: tokens
  | tokens => .word [c] :: tokens

def punctuation (c : Char) : Token :=
  if Core.isWhitespace c then .space c
  else if c = '.' then .dot
  else if c = '(' then .opening
  else if c = ')' then .closing
  else if c = '>' then .greater
  else if c = '=' then .equal
  else .other c

def lex : List Item → List Token
  | [] => []
  | .this :: rest => .this :: lex rest
  | .char c :: rest => if isWordChar c then glue c (lex rest) else punctuation c :: lex rest

def spell : Token → List Char
  | .word letters => letters
  | .space c | .other c => [c]
  | .dot => ['.']
  | .opening => ['(']
  | .closing => [')']
  | .greater => ['>']
  | .equal => ['=']
  | .this => []

def text (tokens : List Token) : List Char := tokens.flatMap spell

def significant (tokens : List Token) : List Token :=
  tokens.filter fun
    | .space _ => false
    | _ => true

def lower (letters : List Char) : List Char := letters.map Char.toLower

/-! ## Watermark filters -/

def valueWords : List String :=
  ["null", "true", "false", "current_catalog", "current_date", "current_path", "current_role",
    "current_schema", "current_time", "current_timestamp", "current_user", "localtime",
    "localtimestamp"]

/-- A word, in lower case, that may name a column. -/
def isColumnName (name : List Char) : Bool :=
  (match name with
    | [] => false
    | c :: _ => !c.isDigit) &&
    !(valueWords.map String.toList).contains name

/-- In any number of parentheses. -/
inductive Wrapped (P : List Token → Prop) : List Token → Prop
  | bare {tokens : List Token} : P tokens → Wrapped P tokens
  | paren {tokens : List Token} : Wrapped P tokens →
      Wrapped P (.opening :: (tokens ++ [.closing]))

/-- A column, with or without qualifiers. -/
inductive IsColumn (column : List Char) : List Token → Prop
  | name {letters : List Char} : lower letters = column → isColumnName column = true →
      IsColumn column [.word letters]
  | ofWord {letters : List Char} {tokens : List Token} : IsColumn column tokens →
      IsColumn column (.word letters :: .dot :: tokens)
  | ofThis {tokens : List Token} : IsColumn column tokens →
      IsColumn column (.this :: .dot :: tokens)

/-- `max(column)`. -/
def IsGreatest (column : List Char) (tokens : List Token) : Prop :=
  ∃ call argument, tokens = .word call :: .opening :: (argument ++ [.closing]) ∧
    lower call = "max".toList ∧ Wrapped (IsColumn column) argument

/-- `select max(column) from {{ this }}`. -/
def IsSubquery (column : List Char) (tokens : List Token) : Prop :=
  ∃ select greatest from' target,
    tokens = [.word select] ++ (greatest ++ ([.word from'] ++ target)) ∧
      lower select = "select".toList ∧ Wrapped (IsGreatest column) greatest ∧
      lower from' = "from".toList ∧ Wrapped (· = [.this]) target

/-- `column > (select max(column) from {{ this }})`, or `>=`. -/
def IsComparison (column : List Char) (tokens : List Token) : Prop :=
  ∃ left operator subquery,
    tokens = left ++ (operator ++ .opening :: (subquery ++ [.closing])) ∧
      Wrapped (IsColumn column) left ∧
      (operator = [.greater] ∨ operator = [.greater, .equal]) ∧
      Wrapped (IsSubquery column) subquery

/-- A comparison, with or without `where` or `and` in front of it. -/
def IsFilter (column : List Char) (tokens : List Token) : Prop :=
  ∃ keyword comparison, tokens = keyword ++ comparison ∧
    (keyword = [] ∨ ∃ word, keyword = [.word word] ∧
      (lower word = "where".toList ∨ lower word = "and".toList)) ∧
    Wrapped (IsComparison column) comparison

/-! ## Sound blocks -/

/-- No issue is recorded for the block only if its body is a watermark filter and the window is
on its column. -/
def SoundBlock (lowered : Lowered) (body : List Segment) : Prop :=
  (handleIncrementalBlock lowered { body, hasElse := false }).issues = lowered.issues →
    ∃ parts column window, items body = some parts ∧
      IsFilter column (significant (lex parts)) ∧
      (handleIncrementalBlock lowered { body, hasElse := false }).windowColumn = some window ∧
      lower window.toList = column

/-- The body has no other Jinja than `this`, and a name right after its first `max(`. -/
def Recognised (body : List Segment) : Prop :=
  ∃ chars rest c, bodyText body = some chars ∧ afterMax chars = some (c :: rest) ∧
    isNameChar c = true

def endsMax (letters : List Char) : Bool := "max".toList.isSuffixOf (lower letters)

/-- The tokens after the first `max(`. -/
def callArgs : List Token → Option (List Token)
  | [] => none
  | .word letters :: tokens =>
    match tokens with
    | .opening :: rest => if endsMax letters then some rest else callArgs tokens
    | _ => callArgs tokens
  | _ :: tokens => callArgs tokens

/-- The part of a name up to the first white space in it. -/
def nameHead (tokens : List Token) : List Token :=
  tokens.takeWhile fun
    | .word _ | .dot | .this => true
    | _ => false

/-- The name in the first `max(` ends with the column before any white space in it. -/
def Unbroken (column : List Char) (tokens : List Token) : Prop :=
  ∃ arguments letters, callArgs tokens = some arguments ∧
    (nameHead arguments).getLast? = some (.word letters) ∧ lower letters = column

/-! ## Neighbours -/

/-- What holds of every two neighbours and of the tokens after them. -/
def Pairs (R : Token → Token → List Token → Prop) (tokens : List Token) : Prop :=
  ∀ before a b after, tokens = before ++ a :: b :: after → R a b after

theorem Pairs.nil : Pairs R [] := by
  intro before a b after h
  simp at h

theorem pairs_cons :
    Pairs R (a :: tokens) ↔ (∀ b after, tokens = b :: after → R a b after) ∧ Pairs R tokens := by
  constructor
  · intro h
    refine ⟨fun b after heq => h [] a b after (by rw [heq]; rfl), ?_⟩
    exact fun before c b after heq => h (a :: before) c b after (by rw [heq]; rfl)
  · rintro ⟨hhead, htail⟩ before c b after heq
    cases before with
    | nil =>
      cases heq
      exact hhead b after rfl
    | cons d before =>
      cases heq
      exact htail before c b after rfl

theorem Pairs.singleton (a : Token) : Pairs R [a] :=
  pairs_cons.2 ⟨fun _ _ h => (by cases h), .nil⟩

/-- Neighbours in what is put together are neighbours in a part, or where the parts meet. -/
theorem Pairs.append {back : List Token} (hfront : Pairs R front) (hback : Pairs R back)
    (hmeet : ∀ a b after, front.getLast? = some a → back = b :: after → R a b after)
    (hmono : ∀ a b after more, R a b after → R a b (after ++ more)) : Pairs R (front ++ back) := by
  induction front with
  | nil => exact hback
  | cons a front ih =>
    obtain ⟨hhead, htail⟩ := pairs_cons.1 hfront
    refine pairs_cons.2 ⟨?_, ?_⟩
    · intro b after heq
      cases front with
      | nil => exact hmeet a b after rfl heq
      | cons c front =>
        cases heq
        exact hmono a _ _ back (hhead _ _ rfl)
    · cases front with
      | nil => exact hback
      | cons c front =>
        exact ih htail fun d b after hlast heq =>
          hmeet d b after (by rw [List.getLast?_cons_cons]; exact hlast) heq

/-- In a watermark filter, only the column is in a `max(`, and `this` is the target or a
qualifier. -/
def Calls (column : List Char) (a b : Token) (after : List Token) : Prop :=
  (∀ letters, a = .word letters → b = .opening → endsMax letters = true →
    ∃ argument rest, after = argument ++ .closing :: rest ∧ Wrapped (IsColumn column) argument) ∧
  (a = .this → b = .dot ∨ b = .closing)

theorem Calls.mono (a b : Token) (after more : List Token) (h : Calls column a b after) :
    Calls column a b (after ++ more) := by
  refine ⟨fun letters ha hb hmax => ?_, h.2⟩
  obtain ⟨argument, rest, rfl, hargument⟩ := h.1 letters ha hb hmax
  exact ⟨argument, rest ++ more, by simp, hargument⟩

theorem Calls.of_ne {b : Token} (ha : a ≠ .this) (hb : b ≠ .opening) : Calls column a b after :=
  ⟨fun _ _ hopen => absurd hopen hb, fun hthis => absurd hthis ha⟩

theorem Calls.of_closing : Calls column a .closing after :=
  ⟨fun _ _ hopen => (by cases hopen), fun _ => .inr rfl⟩

theorem Calls.of_not_word {b : Token} (ha : a ≠ .this)
    (hword : ∀ letters, a = .word letters → endsMax letters = false) : Calls column a b after :=
  ⟨fun letters hletters _ hmax => by simp [hword letters hletters] at hmax,
    fun hthis => absurd hthis ha⟩

theorem Wrapped.pairs {column : List Char} {P : List Token → Prop}
    (hP : ∀ tokens, P tokens → Pairs (Calls column) tokens) {tokens : List Token}
    (h : Wrapped P tokens) : Pairs (Calls column) tokens := by
  induction h with
  | bare hbare => exact hP _ hbare
  | paren _ ih =>
    refine pairs_cons.2 ⟨fun b after _ => .of_not_word (by simp) (by simp), ?_⟩
    refine ih.append (.singleton _) (fun a b after _ heq => ?_) Calls.mono
    cases heq
    exact .of_closing

theorem IsColumn.pairs (h : IsColumn column tokens) : Pairs (Calls column) tokens := by
  induction h with
  | name => exact .singleton _
  | ofWord _ ih =>
    refine pairs_cons.2 ⟨fun b after heq => ?_, pairs_cons.2 ⟨fun b after _ => ?_, ih⟩⟩
    · cases heq
      exact .of_ne (by simp) (by simp)
    · exact .of_not_word (by simp) (by simp)
  | ofThis _ ih =>
    refine pairs_cons.2 ⟨fun b after heq => ?_, pairs_cons.2 ⟨fun b after _ => ?_, ih⟩⟩
    · cases heq
      exact ⟨fun _ _ hopen => (by cases hopen), fun _ => .inl rfl⟩
    · exact .of_not_word (by simp) (by simp)

theorem IsGreatest.pairs {column : List Char} {tokens : List Token}
    (h : IsGreatest column tokens) : Pairs (Calls column) tokens := by
  obtain ⟨call, argument, rfl, -, hargument⟩ := h
  refine pairs_cons.2 ⟨fun b after heq => ?_, ?_⟩
  · cases heq
    exact ⟨fun _ _ _ _ => ⟨argument, [], rfl, hargument⟩, fun hthis => by cases hthis⟩
  · exact (Wrapped.paren hargument).pairs fun _ => IsColumn.pairs

theorem Wrapped.getLast?_eq (h : Wrapped P tokens) :
    P tokens ∨ tokens.getLast? = some .closing := by
  cases h with
  | bare hbare => exact .inl hbare
  | paren => exact .inr (by rw [← List.cons_append, List.getLast?_concat])

theorem IsGreatest.getLast?_eq (h : IsGreatest column tokens) :
    tokens.getLast? = some .closing := by
  obtain ⟨call, argument, rfl, -, -⟩ := h
  rw [← List.cons_append, ← List.cons_append, List.getLast?_concat]

theorem endsMax_eq_false {keyword : String} (h : lower letters = keyword.toList)
    (hkeyword : "max".toList.isSuffixOf keyword.toList = false) : endsMax letters = false := by
  rw [endsMax, h, hkeyword]

theorem IsSubquery.pairs {column : List Char} {tokens : List Token}
    (h : IsSubquery column tokens) : Pairs (Calls column) tokens := by
  obtain ⟨select, greatest, from', target, rfl, hselect, hgreatest, hfrom, htarget⟩ := h
  have hselect := endsMax_eq_false hselect (by decide)
  have hfrom := endsMax_eq_false hfrom (by decide)
  have htail : Pairs (Calls column) ([.word from'] ++ target) := by
    refine (Pairs.singleton _).append ?_ (fun a b after hlast _ => ?_) Calls.mono
    · exact htarget.pairs fun _ heq => heq ▸ .singleton _
    · cases hlast
      exact .of_not_word (by simp) (by simp [hfrom])
  refine (Pairs.singleton _).append ?_ (fun a b after hlast _ => ?_) Calls.mono
  · refine (hgreatest.pairs fun _ => IsGreatest.pairs).append htail
      (fun a b after hlast heq => ?_) Calls.mono
    cases heq
    have hclosing : greatest.getLast? = some .closing :=
      hgreatest.getLast?_eq.elim IsGreatest.getLast?_eq id
    cases hclosing.symm.trans hlast
    exact .of_ne (by simp) (by simp)
  · cases hlast
    exact .of_not_word (by simp) (by simp [hselect])

theorem IsColumn.getLast?_eq (h : IsColumn column tokens) :
    ∃ letters, tokens.getLast? = some (.word letters) := by
  induction h with
  | @name letters => exact ⟨letters, rfl⟩
  | ofWord h ih | ofThis h ih =>
    obtain ⟨letters, hletters⟩ := ih
    refine ⟨letters, ?_⟩
    rw [List.getLast?_cons_cons]
    cases h <;> simpa using hletters

theorem IsComparison.pairs {column : List Char} {tokens : List Token}
    (h : IsComparison column tokens) : Pairs (Calls column) tokens := by
  obtain ⟨left, operator, subquery, rfl, hleft, hoperator, hsubquery⟩ := h
  have hright : Pairs (Calls column) (.opening :: (subquery ++ [.closing])) :=
    (Wrapped.paren hsubquery).pairs fun _ => IsSubquery.pairs
  have htail : Pairs (Calls column) (operator ++ .opening :: (subquery ++ [.closing])) := by
    refine Pairs.append ?_ hright (fun a b after hlast _ => ?_) Calls.mono
    · rcases hoperator with rfl | rfl
      · exact .singleton _
      · exact pairs_cons.2 ⟨fun b after _ => .of_not_word (by simp) (by simp), .singleton _⟩
    · rcases hoperator with rfl | rfl <;> cases hlast <;>
        exact .of_not_word (by simp) (by simp)
  refine (hleft.pairs fun _ => IsColumn.pairs).append htail (fun a b after hlast heq => ?_)
    Calls.mono
  have hne : a ≠ .this := by
    rintro rfl
    rcases hleft.getLast?_eq with hcolumn | hclosing
    · obtain ⟨letters, hletters⟩ := hcolumn.getLast?_eq
      cases hletters.symm.trans hlast
    · cases hclosing.symm.trans hlast
  rcases hoperator with rfl | rfl <;> cases heq <;> exact .of_ne hne (by simp)

/-- In a watermark filter, only the column is in a `max(`. -/
theorem IsFilter.pairs {column : List Char} {tokens : List Token} (h : IsFilter column tokens) :
    Pairs (Calls column) tokens := by
  obtain ⟨keyword, comparison, rfl, hkeyword, hcomparison⟩ := h
  have hpairs : Pairs (Calls column) comparison :=
    hcomparison.pairs fun _ => IsComparison.pairs
  rcases hkeyword with rfl | ⟨word, rfl, hword⟩
  · exact hpairs
  · have hmax : endsMax word = false :=
      hword.elim (fun h => endsMax_eq_false h (by decide)) fun h => endsMax_eq_false h (by decide)
    refine (Pairs.singleton _).append hpairs (fun a b after hlast _ => ?_) Calls.mono
    cases hlast
    exact .of_not_word (by simp) (by simp [hmax])

/-! ## The tokens of a text -/

def isWord : Token → Bool
  | .word _ => true
  | _ => false

/-- A token as `lex` makes it. -/
def isProper : Token → Bool
  | .word letters => !letters.isEmpty && letters.all isWordChar
  | .space c | .other c => !isNameChar c && c != '('
  | _ => true

/-- Neighbours whose texts meet where the tokens do. -/
def Apart (a b : Token) (_ : List Token) : Prop :=
  ¬ (isWord a = true ∧ isWord b = true) ∧ (a = .this → isWord b = false ∧ b ≠ .opening)

theorem isNameChar_eq (c : Char) : isNameChar c = (isWordChar c || c == '.') := rfl

theorem isWhitespace_ne (h : Core.isWhitespace c = true) : c ≠ '.' ∧ c ≠ '(' := by
  constructor <;> rintro rfl <;> revert h <;> decide

theorem isProper_punctuation (h : isWordChar c = false) : isProper (punctuation c) = true := by
  unfold punctuation
  split
  · rename_i hspace
    have hne := isWhitespace_ne hspace
    simp [isProper, isNameChar_eq, h, hne.1, hne.2]
  · split
    · rfl
    · split
      · rfl
      · split
        · rfl
        · split
          · rfl
          · split
            · rfl
            · simp [isProper, isNameChar_eq, *]

theorem isProper_glue (h : isWordChar c = true) (htokens : ∀ token ∈ tokens, isProper token = true)
    : ∀ token ∈ glue c tokens, isProper token = true := by
  have hword : ∀ letters : List Char, letters.all isWordChar = true →
      isProper (.word (c :: letters)) = true := fun letters hletters => by
    rw [isProper, List.all_cons, h, hletters]
    rfl
  cases tokens with
  | nil => exact List.forall_mem_singleton.2 (hword [] rfl)
  | cons first rest =>
    cases first with
    | word letters =>
      have hfirst := htokens (.word letters) List.mem_cons_self
      simp only [isProper, Bool.and_eq_true] at hfirst
      exact List.forall_mem_cons.2 ⟨hword letters hfirst.2, (List.forall_mem_cons.1 htokens).2⟩
    | _ => exact List.forall_mem_cons.2 ⟨hword [] rfl, htokens⟩

theorem isProper_lex (parts : List Item) : ∀ token ∈ lex parts, isProper token = true := by
  induction parts with
  | nil => simp [lex]
  | cons part parts ih =>
    cases part with
    | this => exact List.forall_mem_cons.2 ⟨rfl, ih⟩
    | char c =>
      rw [lex]
      split
      · rename_i hc
        exact isProper_glue hc ih
      · rename_i hc
        exact List.forall_mem_cons.2
          ⟨isProper_punctuation (Bool.eq_false_iff.2 hc), ih⟩

def NoWords (a b : Token) (_ : List Token) : Prop :=
  ¬ (isWord a = true ∧ isWord b = true)

theorem isWord_punctuation (c : Char) : isWord (punctuation c) = false := by
  unfold punctuation
  repeat' split
  all_goals rfl

theorem noWords_glue (h : Pairs NoWords tokens) : Pairs NoWords (glue c tokens) := by
  cases tokens with
  | nil => exact .singleton _
  | cons first rest =>
    cases first with
    | word letters =>
      obtain ⟨hhead, hrest⟩ := pairs_cons.1 h
      exact pairs_cons.2 ⟨hhead, hrest⟩
    | _ =>
      refine pairs_cons.2 ⟨fun b after heq => ?_, h⟩
      cases heq
      simp [NoWords, isWord]

theorem noWords_lex (parts : List Item) : Pairs NoWords (lex parts) := by
  induction parts with
  | nil => exact .nil
  | cons part parts ih =>
    cases part with
    | this => exact pairs_cons.2 ⟨fun b after _ => by simp [NoWords, isWord], ih⟩
    | char c =>
      cases hc : isWordChar c with
      | true => simpa [lex, hc] using noWords_glue ih
      | false =>
        simp only [lex, hc, Bool.false_eq_true, if_false]
        exact pairs_cons.2 ⟨fun b after _ => by simp [NoWords, isWord_punctuation], ih⟩

def chars (parts : List Item) : List Char :=
  parts.filterMap fun
    | .char c => some c
    | .this => none

@[simp]
theorem text_cons (token : Token) (tokens : List Token) :
    text (token :: tokens) = spell token ++ text tokens :=
  List.flatMap_cons

theorem text_glue (c : Char) (tokens : List Token) : text (glue c tokens) = c :: text tokens := by
  cases tokens with
  | nil => rfl
  | cons first rest => cases first <;> rfl

theorem spell_punctuation (c : Char) : spell (punctuation c) = [c] := by
  unfold punctuation
  repeat' split
  all_goals first | rfl | (subst_vars; rfl)

theorem text_lex (parts : List Item) : text (lex parts) = chars parts := by
  induction parts with
  | nil => rfl
  | cons part parts ih =>
    cases part with
    | this => simpa [lex, spell, chars] using ih
    | char c =>
      have hchars : chars (.char c :: parts) = c :: chars parts := rfl
      cases hc : isWordChar c with
      | true => simp [lex, hc, text_glue, ih, hchars]
      | false => simp [lex, hc, spell_punctuation, ih, hchars]

theorem bodyText_eq (body : List Segment) : bodyText body = (items body).map chars := by
  induction body with
  | nil => rfl
  | cons segment body ih =>
    cases segment with
    | text part =>
      rw [bodyText, items, ih, Option.map_map, Option.map_map]
      congr 1
      funext after
      have hpart : chars (part.toList.map .char) = part.toList := by
        rw [chars, List.filterMap_map]
        exact List.filterMap_some
      have hsplit : chars (part.toList.map .char ++ after) =
          chars (part.toList.map .char) ++ chars after := List.filterMap_append
      rw [Function.comp_apply, Function.comp_apply, hsplit, hpart]
    | expr inner =>
      rw [bodyText, items]
      split
      · rw [ih, Option.map_map]
        rfl
      · rfl
    | stmt | comment => rfl

/-! ## The first `max(` -/

@[simp]
theorem isWordChar_toLower (c : Char) : isWordChar c.toLower = isWordChar c := by
  by_cases h : c.toLower = c
  · rw [h]
  · obtain ⟨hupper, hlower⟩ := Library.isLower_toLower h
    have hbefore : c.isAlpha = true := Bool.or_eq_true_iff.2 (.inl hupper)
    have hafter : c.toLower.isAlpha = true := Bool.or_eq_true_iff.2 (.inr hlower)
    simp [isWordChar, Char.isAlphanum, hbefore, hafter]

theorem eq_of_toLower_eq_opening {c : Char} (h : c.toLower = '(') : c = '(' := by
  by_cases hsame : c.toLower = c
  · exact hsame.symm.trans h
  · have hlower := (Library.isLower_toLower hsame).2
    rw [h] at hlower
    exact absurd hlower (by decide)

theorem max_toList : "max(".toList = ['m', 'a', 'x', '('] := by decide

theorem afterMax_cons_of_not_word (h : isWordChar c = false) :
    afterMax (c :: rest) = afterMax rest := by
  rw [afterMax, max_toList, if_neg]
  intro hmax
  have hc : 'm' = c.toLower := by
    simpa using (Bool.and_eq_true_iff.1 hmax).1
  rw [← isWordChar_toLower, ← hc] at h
  exact absurd h (by decide)

/-- A word has `max(` at its start only when it is `max` and a parenthesis follows. -/
theorem max_prefix_iff (hne : letters ≠ []) (h : ∀ c ∈ letters, isWordChar c = true)
    (hrest : ∀ c after, rest = c :: after → isWordChar c = false) :
    "max(".toList.isPrefixOf (lower (letters ++ rest)) = true ↔
      lower letters = "max".toList ∧ rest.head? = some '(' := by
  have hword : ∀ c ∈ lower letters, isWordChar c = true := by
    intro c hc
    obtain ⟨d, hd, rfl⟩ := List.mem_map.1 hc
    rw [isWordChar_toLower, h d hd]
  constructor
  · intro hprefix
    obtain ⟨tail, htail⟩ := List.isPrefixOf_iff_prefix.1 hprefix
    rw [lower, List.map_append] at htail
    have hrestWord : ∀ c after, lower rest = c :: after → isWordChar c = false := by
      intro c after heq
      cases rest with
      | nil => cases heq
      | cons d rest =>
        cases heq
        rw [isWordChar_toLower]
        exact hrest d rest rfl
    rw [max_toList] at htail
    -- The parenthesis is no character of the word, and the letters before it are no others.
    replace htail : 'm' :: 'a' :: 'x' :: '(' :: tail = lower letters ++ lower rest := htail
    generalize hlower : lower letters = small at htail hword ⊢
    match small, htail with
    | [], _ => exact absurd (List.map_eq_nil_iff.1 hlower) hne
    | [_], htail => exact absurd (hrestWord 'a' _ (List.cons.inj htail).2.symm) (by decide)
    | [_, _], htail =>
      have htail := (List.cons.inj (List.cons.inj htail).2).2
      exact absurd (hrestWord 'x' _ htail.symm) (by decide)
    | [a, b, c], htail =>
      obtain ⟨ha, hb, hc, hparen⟩ : 'm' = a ∧ 'a' = b ∧ 'x' = c ∧ '(' :: tail = lower rest := by
        simpa using htail
      refine ⟨by rw [← ha, ← hb, ← hc]; rfl, ?_⟩
      cases rest with
      | nil => cases hparen
      | cons d rest =>
        rw [List.head?_cons, eq_of_toLower_eq_opening (List.cons.inj hparen).1.symm]
    | _ :: _ :: _ :: d :: _, htail =>
      have hd : '(' = d :=
        (List.cons.inj (List.cons.inj (List.cons.inj (List.cons.inj htail).2).2).2).1
      have hdWord := hword d (by simp)
      rw [← hd] at hdWord
      exact absurd hdWord (by decide)
  · rintro ⟨hletters, hhead⟩
    cases rest with
    | nil => cases hhead
    | cons c rest =>
      cases hhead
      rw [lower, List.map_append, ← lower, hletters]
      rfl

theorem afterMax_word (h : ∀ c ∈ letters, isWordChar c = true)
    (hrest : ∀ c after, rest = c :: after → isWordChar c = false) :
    afterMax (letters ++ rest) =
      if endsMax letters = true ∧ rest.head? = some '(' then some rest.tail else afterMax rest := by
  induction letters with
  | nil =>
    have hmax : endsMax [] = false := by decide
    simp [hmax]
  | cons c letters ih =>
    have hends : endsMax (c :: letters) = true ↔
        lower (c :: letters) = "max".toList ∨ endsMax letters = true := by
      rw [endsMax, endsMax, List.isSuffixOf_iff_suffix, List.isSuffixOf_iff_suffix, lower,
        List.map_cons, List.suffix_cons_iff, eq_comm]
      rfl
    have hstep : afterMax (c :: letters ++ rest) =
        if "max(".toList.isPrefixOf (lower (c :: letters ++ rest)) = true then
          some ((letters ++ rest).drop 3) else afterMax (letters ++ rest) := rfl
    rw [hstep]
    by_cases hprefix : "max(".toList.isPrefixOf (lower (c :: letters ++ rest)) = true
    · obtain ⟨hletters, hhead⟩ := (max_prefix_iff (by simp) h hrest).1 hprefix
      have hlength : letters.length = 2 := by
        have := congrArg List.length hletters
        simpa [lower] using this
      rw [if_pos hprefix, if_pos ⟨hends.2 (.inl hletters), hhead⟩]
      congr 1
      rw [List.drop_append, hlength, List.drop_eq_nil_of_le (by omega)]
      exact List.drop_one
    · rw [if_neg hprefix, ih (fun d hd => h d (List.mem_cons_of_mem _ hd))]
      refine if_congr ?_ rfl rfl
      rw [hends]
      have hnot : ¬ (lower (c :: letters) = "max".toList ∧ rest.head? = some '(') :=
        fun hboth => hprefix ((max_prefix_iff (by simp) h hrest).2 hboth)
      tauto

theorem isWordChar_spell (h : isProper token = true) (hword : isWord token = false) :
    ∀ c ∈ spell token, isWordChar c = false := by
  cases token with
  | word => cases hword
  | space c | other c =>
    simp only [isProper, isNameChar_eq, Bool.and_eq_true, Bool.not_eq_true',
      Bool.or_eq_false_iff] at h
    simpa [spell] using h.1.1
  | _ => simp [spell] <;> decide

theorem afterMax_skip (h : ∀ c ∈ letters, isWordChar c = false) :
    afterMax (letters ++ rest) = afterMax rest := by
  induction letters with
  | nil => rfl
  | cons c letters ih =>
    rw [List.cons_append, afterMax_cons_of_not_word (h c (by simp))]
    exact ih fun d hd => h d (List.mem_cons_of_mem _ hd)

theorem ne_opening_of_mem_spell (h : isProper token = true) (hword : isWord token = false)
    (hopening : token ≠ .opening) : ∀ c ∈ spell token, c ≠ '(' := by
  cases token with
  | word => cases hword
  | opening => exact absurd rfl hopening
  | space c | other c =>
    rw [isProper, Bool.and_eq_true, bne_iff_ne] at h
    simpa [spell] using h.2
  | _ => simp [spell]

theorem text_eq_cons {after : List Char} (h : text (token :: tokens) = c :: after) :
    c ∈ spell token ∨ (spell token = [] ∧ text tokens = c :: after) := by
  rw [text_cons] at h
  cases hspell : spell token with
  | nil =>
    rw [hspell] at h
    exact .inr ⟨rfl, h⟩
  | cons d rest =>
    rw [hspell] at h
    exact .inl (by simp [(List.cons.inj h).1])

theorem eq_this_of_spell_eq_nil (h : isProper token = true) (hspell : spell token = []) :
    token = .this := by
  cases token with
  | word letters => simp_all [isProper, spell]
  | this => rfl
  | _ => simp [spell] at hspell

theorem text_after_this (h : ∀ token ∈ tokens, isProper token = true)
    (hapart : Pairs Apart (.this :: tokens)) {after : List Char} (htext : text tokens = c :: after)
    : isWordChar c = false ∧ c ≠ '(' := by
  induction tokens with
  | nil => cases htext
  | cons token tokens ih =>
    obtain ⟨hhead, hrest⟩ := List.forall_mem_cons.1 h
    obtain ⟨hfirst, hpairs⟩ := pairs_cons.1 hapart
    obtain ⟨hword, hopening⟩ := (hfirst token tokens rfl).2 rfl
    rcases text_eq_cons htext with hmem | ⟨hspell, hafter⟩
    · exact ⟨isWordChar_spell hhead hword c hmem,
        ne_opening_of_mem_spell hhead hword hopening c hmem⟩
    · rw [eq_this_of_spell_eq_nil hhead hspell] at hpairs
      exact ih hrest hpairs hafter

theorem text_after_word (h : ∀ token ∈ tokens, isProper token = true)
    (hapart : Pairs Apart (.word letters :: tokens)) {after : List Char}
    (htext : text tokens = c :: after) :
    isWordChar c = false ∧ (c = '(' → ∃ rest, tokens = .opening :: rest) := by
  cases tokens with
  | nil => cases htext
  | cons token tokens =>
    obtain ⟨hhead, hrest⟩ := List.forall_mem_cons.1 h
    obtain ⟨hfirst, hpairs⟩ := pairs_cons.1 hapart
    have hword : isWord token = false := by
      simpa [isWord] using (hfirst token tokens rfl).1
    rcases text_eq_cons htext with hmem | ⟨hspell, hafter⟩
    · refine ⟨isWordChar_spell hhead hword c hmem, fun hparen => ?_⟩
      by_contra hopening
      refine ne_opening_of_mem_spell hhead hword (fun heq => hopening ?_) c hmem hparen
      exact ⟨tokens, by rw [heq]⟩
    · rw [eq_this_of_spell_eq_nil hhead hspell] at hpairs
      obtain ⟨hc, hparen⟩ := text_after_this hrest hpairs hafter
      exact ⟨hc, fun heq => absurd heq hparen⟩

/-- The first `max(` of a text is the first `max(` of its tokens. -/
theorem afterMax_text (h : ∀ token ∈ tokens, isProper token = true) (hapart : Pairs Apart tokens) :
    afterMax (text tokens) = (callArgs tokens).map text := by
  induction tokens with
  | nil => rfl
  | cons token tokens ih =>
    obtain ⟨hhead, hrest⟩ := List.forall_mem_cons.1 h
    have ih := ih hrest (pairs_cons.1 hapart).2
    rw [text_cons]
    cases token with
    | word letters =>
      have hletters : ∀ c ∈ letters, isWordChar c = true := by
        simp only [isProper, Bool.and_eq_true] at hhead
        exact List.all_eq_true.1 hhead.2
      have hafter : ∀ c after, text tokens = c :: after → isWordChar c = false :=
        fun c after heq => (text_after_word hrest hapart heq).1
      rw [spell, afterMax_word hletters hafter, ih]
      by_cases hopening : ∃ rest, tokens = .opening :: rest
      · obtain ⟨rest, rfl⟩ := hopening
        by_cases hmax : endsMax letters = true <;> simp [callArgs, hmax, spell]
      · have hhead : ¬ (text tokens).head? = some '(' := by
          intro hparen
          obtain ⟨after, hcons⟩ := List.head?_eq_some_iff.1 hparen
          exact hopening ((text_after_word hrest hapart hcons).2 rfl)
        rw [if_neg fun hboth => hhead hboth.2, callArgs]
        exact fun rest heq => hopening ⟨rest, heq⟩
    | _ =>
      rw [afterMax_skip (isWordChar_spell hhead rfl), ih]
      rfl

/-! ## The column that is recorded -/

theorem takeWhile_text (h : ∀ token ∈ tokens, isProper token = true) :
    (text tokens).takeWhile isNameChar = text (nameHead tokens) := by
  induction tokens with
  | nil => rfl
  | cons token tokens ih =>
    obtain ⟨hhead, hrest⟩ := List.forall_mem_cons.1 h
    have ih := ih hrest
    rw [text_cons]
    cases token with
    | word letters =>
      have hletters : ∀ c ∈ letters, isNameChar c = true := by
        intro c hc
        simp only [isProper, Bool.and_eq_true] at hhead
        rw [isNameChar_eq, List.all_eq_true.1 hhead.2 c hc, Bool.true_or]
      rw [spell, List.takeWhile_append_of_pos hletters, ih]
      rfl
    | dot =>
      have hdot : isNameChar '.' = true := by decide
      rw [spell, List.singleton_append, List.takeWhile_cons_of_pos hdot, ih]
      rfl
    | this => exact ih
    | space c | other c =>
      have hc : isNameChar c = false := by
        simp only [isProper, Bool.and_eq_true, Bool.not_eq_true'] at hhead
        exact hhead.1
      rw [spell, List.singleton_append, List.takeWhile_cons_of_neg (by simp [hc])]
      rfl
    | _ => rfl

/-- What has been read of a name ends with a word, or there is nothing after its last dot. -/
def LastPart (front : List Token) : Prop :=
  ∃ last, ((text front).splitOn '.').getLast? = some last ∧
    (front.getLast? = some (.word last) ∨
      last = [] ∧ ∀ letters, front.getLast? ≠ some (.word letters))

theorem LastPart.nil : LastPart [] :=
  ⟨[], by rw [text, List.flatMap_nil, List.splitOn_nil]; rfl, .inr ⟨rfl, by simp⟩⟩

theorem LastPart.word {letters : List Char} (h : isProper (.word letters) = true) :
    LastPart [.word letters] := by
  refine ⟨letters, ?_, .inl rfl⟩
  have hdot : '.' ∉ letters := fun hmem => by
    simp only [isProper, Bool.and_eq_true] at h
    exact absurd (List.all_eq_true.1 h.2 '.' hmem) (by decide)
  rw [text_cons, spell, text, List.flatMap_nil, List.append_nil, List.splitOn_eq_singleton hdot]
  rfl

/-- A qualifier in front of what has been read of the rest of the name. -/
theorem LastPart.qualified {qualifier : Token} (hqualifier : LastPart [qualifier])
    (hrest : ∀ front', front' <+: tokens → LastPart front')
    (hfront : front <+: qualifier :: .dot :: tokens) : LastPart front := by
  rcases List.prefix_cons_iff.1 hfront with rfl | ⟨front, rfl, hdot⟩
  · exact .nil
  rcases List.prefix_cons_iff.1 hdot with rfl | ⟨front, rfl, hname⟩
  · exact hqualifier
  obtain ⟨last, hlast, hcases⟩ := hrest front hname
  refine ⟨last, ?_, ?_⟩
  · rw [text_cons, text_cons, spell, List.singleton_append, List.splitOn_append_cons_self,
      List.getLast?_append, hlast]
    rfl
  · cases front with
    | nil =>
      rcases hcases with hword | ⟨rfl, -⟩
      · cases hword
      · exact .inr ⟨rfl, by simp⟩
    | cons token front => simpa only [List.getLast?_cons_cons] using hcases

theorem IsColumn.lastPart (h : IsColumn column tokens)
    (hproper : ∀ token ∈ tokens, isProper token = true) (hfront : front <+: tokens) :
    LastPart front := by
  induction h generalizing front with
  | name =>
    rcases List.prefix_cons_iff.1 hfront with rfl | ⟨front, rfl, hnil⟩
    · exact .nil
    · rw [List.prefix_nil.1 hnil]
      exact .word (hproper _ (by simp))
  | ofWord h ih =>
    exact .qualified (.word (hproper _ (by simp)))
      (fun front' hfront' => ih (fun token htoken => hproper token (by simp [htoken])) hfront')
      hfront
  | ofThis h ih =>
    have hthis : LastPart [.this] := ⟨[], rfl, .inr ⟨rfl, by simp⟩⟩
    exact .qualified hthis
      (fun front' hfront' => ih (fun token htoken => hproper token (by simp [htoken])) hfront')
      hfront

theorem IsColumn.ne_nil (h : IsColumn column tokens) : column ≠ [] := by
  induction h with
  | name hlower hname =>
    rintro rfl
    exact absurd hname (by decide)
  | ofWord _ ih | ofThis _ ih => exact ih

/-! ## Blocks that are dropped -/

theorem callArgs_eq_some {arguments : List Token} (h : callArgs tokens = some arguments) :
    ∃ before letters, tokens = before ++ .word letters :: .opening :: arguments ∧
      endsMax letters = true := by
  induction tokens with
  | nil => cases h
  | cons token tokens ih =>
    have hlater : callArgs tokens = some arguments → ∃ before letters,
        token :: tokens = before ++ .word letters :: .opening :: arguments ∧
          endsMax letters = true := by
      intro h
      obtain ⟨before, letters, rfl, hmax⟩ := ih h
      exact ⟨token :: before, letters, rfl, hmax⟩
    cases token with
    | word letters =>
      rw [callArgs.eq_def] at h
      simp only at h
      split at h
      · split at h
        · rename_i rest hmax
          cases h
          exact ⟨[], letters, rfl, hmax⟩
        · exact hlater h
      · exact hlater h
    | _ => exact hlater h

theorem watermarkColumn_eq (hparts : items body = some parts) (hapart : Pairs Apart (lex parts)) :
    watermarkColumn body = (callArgs (lex parts)).bind fun arguments =>
      if text (nameHead arguments) = [] then none
      else ((text (nameHead arguments)).splitOn '.').getLast?.map String.ofList := by
  have hmax : afterMax (chars parts) = (callArgs (lex parts)).map text := by
    rw [← text_lex, afterMax_text (isProper_lex parts) hapart]
  have hbody : bodyText body = some (chars parts) := by rw [bodyText_eq, hparts]; rfl
  unfold watermarkColumn
  rw [hbody]
  simp only [Option.bind_eq_bind, Option.bind_some, hmax]
  cases hargs : callArgs (lex parts) with
  | none => rfl
  | some arguments =>
    have hproper : ∀ token ∈ arguments, isProper token = true := by
      obtain ⟨before, letters, hlex, -⟩ := callArgs_eq_some hargs
      exact fun token htoken => isProper_lex parts token (by simp [hlex, htoken])
    have htake := takeWhile_text hproper
    simp only [Option.map_some, Option.bind_some]
    rw [← htake]
    rfl

theorem recognised_iff : Recognised body ↔ watermarkColumn body ≠ none := by
  unfold Recognised watermarkColumn
  cases hbody : bodyText body with
  | none => simp
  | some chars =>
    cases hmax : afterMax chars with
    | none => simp [hmax]
    | some rest =>
      have hsplit : ∀ letters : List Char, (letters.splitOn '.').getLast? ≠ none :=
        fun letters => by simp [List.splitOn_ne_nil]
      cases rest with
      | nil => simp [hmax]
      | cons c rest =>
        have htake : (c :: rest).takeWhile (fun c => c.isAlphanum || c == '_' || c == '.') =
            (c :: rest).takeWhile isNameChar := rfl
        simp only [Option.bind_eq_bind, Option.bind_some, hmax, htake]
        cases hc : isNameChar c with
        | false =>
          rw [List.takeWhile_cons_of_neg (by simp [hc])]
          simp [hmax, hc]
        | true =>
          rw [List.takeWhile_cons_of_pos hc]
          simp [hmax, hc, hsplit]

theorem issues_eq_iff (lowered : Lowered) (body : List Segment) :
    (handleIncrementalBlock lowered { body, hasElse := false }).issues = lowered.issues ↔
      watermarkColumn body ≠ none := by
  unfold handleIncrementalBlock
  cases watermarkColumn body <;> simp

theorem windowColumn_eq {lowered : Lowered} {column : String}
    (h : watermarkColumn body = some column) :
    (handleIncrementalBlock lowered { body, hasElse := false }).windowColumn = some column := by
  simp [handleIncrementalBlock, h]

theorem IsFilter.apart (h : IsFilter column (significant (lex parts))) :
    Pairs Apart (lex parts) := by
  intro before a b after heq
  refine ⟨noWords_lex parts before a b after heq, ?_⟩
  rintro rfl
  have hnext : significant (b :: after) = b :: significant after → b = .dot ∨ b = .closing :=
    fun hkept => (h.pairs (significant before) .this b (significant after) (by
      rw [heq, ← hkept]
      simp [significant])).2 rfl
  cases b with
  | word letters | opening =>
    rcases hnext rfl with hdot | hclosing
    · cases hdot
    · cases hclosing
  | _ => exact ⟨rfl, by simp⟩

theorem nameHead_prefix (tokens : List Token) : nameHead tokens <+: significant tokens := by
  induction tokens with
  | nil => exact List.prefix_rfl
  | cons token tokens ih =>
    cases token with
    | word | dot | this => simpa [nameHead, significant] using ih
    | _ => exact List.nil_prefix

theorem mem_nameHead (h : token ∈ nameHead tokens) : token ≠ .closing ∧ token ≠ .opening := by
  have htoken := List.mem_takeWhile_imp h
  constructor <;> rintro rfl <;> cases htoken

/-- What is read of the name in the `max(` of a watermark filter is read of its column. -/
theorem IsFilter.nameHead_prefix {column : List Char} {parts : List Item}
    {arguments : List Token} (h : IsFilter column (significant (lex parts)))
    (hargs : callArgs (lex parts) = some arguments) (hne : nameHead arguments ≠ []) :
    ∃ name, IsColumn column name ∧ (∀ token ∈ name, isProper token = true) ∧
      nameHead arguments <+: name := by
  obtain ⟨before, letters, hlex, hmax⟩ := callArgs_eq_some hargs
  obtain ⟨argument, rest, hargument, hwrapped⟩ := (h.pairs (significant before) (.word letters)
    .opening (significant arguments) (by rw [hlex]; simp [significant])).1 letters rfl rfl hmax
  have hprefix := Watermarks.nameHead_prefix arguments
  rw [hargument] at hprefix
  cases hwrapped with
  | bare hcolumn =>
    refine ⟨argument, hcolumn, ?_, ?_⟩
    · intro token htoken
      have hmem : token ∈ significant arguments := by rw [hargument]; simp [htoken]
      exact isProper_lex parts token (by rw [hlex]; simp [(List.mem_filter.1 hmem).1])
    · rcases List.prefix_or_prefix_of_prefix hprefix
        (List.prefix_append (argument ++ [.closing]) rest |>.trans (by simp)) with hshort | hlong
      · rcases List.prefix_concat_iff.1 hshort with heq | hshort
        · have hmem : .closing ∈ nameHead arguments := by simp [heq]
          exact absurd rfl (mem_nameHead hmem).1
        · exact hshort
      · exact absurd rfl (mem_nameHead (hlong.subset (by simp))).1
  | paren hinner =>
    rcases List.prefix_cons_iff.1 hprefix with hnil | ⟨front, hfront, -⟩
    · exact absurd hnil hne
    · have hmem : .opening ∈ nameHead arguments := by simp [hfront]
      exact absurd rfl (mem_nameHead hmem).2

/-- The window is on the column of the filter when the column stands before any white space. -/
theorem IsFilter.window_iff (hparts : items body = some parts)
    (h : IsFilter column (significant (lex parts))) (hcolumn : watermarkColumn body ≠ none) :
    (∃ window, watermarkColumn body = some window ∧ lower window.toList = column) ↔
      Unbroken column (lex parts) := by
  rw [watermarkColumn_eq hparts h.apart] at hcolumn ⊢
  cases hargs : callArgs (lex parts) with
  | none => simp [hargs] at hcolumn
  | some arguments =>
    rw [hargs, Option.bind_some] at hcolumn
    rw [Option.bind_some]
    have htext : text (nameHead arguments) ≠ [] := fun hnil => by simp [hnil] at hcolumn
    obtain ⟨name, hname, hproper, hprefix⟩ :=
      h.nameHead_prefix hargs fun hnil => htext (by rw [hnil]; rfl)
    obtain ⟨last, hlast, hcases⟩ := hname.lastPart hproper hprefix
    rw [if_neg htext, hlast, Option.map_some]
    have hwindow : (∃ window, some (String.ofList last) = some window ∧
        lower window.toList = column) ↔ lower last = column := by simp
    rw [hwindow, Unbroken, hargs]
    constructor
    · intro hlower
      rcases hcases with hword | ⟨rfl, -⟩
      · exact ⟨arguments, last, rfl, hword, hlower⟩
      · exact absurd hlower.symm hname.ne_nil
    · rintro ⟨arguments', letters, hsame, hword, hlower⟩
      cases hsame
      rcases hcases with hlastWord | ⟨-, hnone⟩
      · cases hlastWord.symm.trans hword
        exact hlower
      · exact absurd hword (hnone letters)

/-- The blocks that are dropped soundly: those that are not recognised, and the watermark filters
with an unbroken name. -/
theorem soundBlock_iff (lowered : Lowered) (body : List Segment) :
    SoundBlock lowered body ↔
      (Recognised body → ∃ parts column, items body = some parts ∧
        IsFilter column (significant (lex parts)) ∧ Unbroken column (lex parts)) := by
  rw [SoundBlock, issues_eq_iff, recognised_iff]
  refine forall_congr' fun hcolumn => ?_
  obtain ⟨window, hwindow⟩ := Option.ne_none_iff_exists'.1 hcolumn
  constructor
  · rintro ⟨parts, column, window', hparts, hfilter, hrecorded, hlower⟩
    rw [windowColumn_eq hwindow] at hrecorded
    cases hrecorded
    exact ⟨parts, column, hparts, hfilter,
      (hfilter.window_iff hparts hcolumn).1 ⟨window, hwindow, hlower⟩⟩
  · rintro ⟨parts, column, hparts, hfilter, hunbroken⟩
    obtain ⟨window', hwindow', hlower⟩ := (hfilter.window_iff hparts hcolumn).2 hunbroken
    exact ⟨parts, column, window', hparts, hfilter, windowColumn_eq hwindow', hlower⟩

/-! ## The words of a watermark filter -/

def names (tokens : List Token) : List (List Char) :=
  tokens.filterMap fun
    | .word letters => some (lower letters)
    | _ => none

theorem names_append (front back : List Token) :
    names (front ++ back) = names front ++ names back :=
  List.filterMap_append

theorem Wrapped.names_eq {words : List (List Char)}
    (hP : ∀ tokens, P tokens → .dot ∉ tokens → names tokens = words) (h : Wrapped P tokens)
    (hdot : .dot ∉ tokens) : names tokens = words := by
  induction h with
  | bare hbare => exact hP _ hbare hdot
  | @paren tokens _ ih =>
    have hinner : .dot ∉ tokens := fun hmem => hdot (by simp [hmem])
    have hnames : names (.opening :: (tokens ++ [.closing])) = names (tokens ++ [.closing]) := rfl
    rw [hnames, names_append, ih hinner]
    exact List.append_nil _

theorem IsColumn.names_eq (h : IsColumn column tokens) (hdot : .dot ∉ tokens) :
    names tokens = [column] := by
  cases h with
  | name hlower => exact congrArg (fun word => [word]) hlower
  | ofWord | ofThis => simp at hdot

theorem IsGreatest.names_eq {column : List Char} {tokens : List Token}
    (h : IsGreatest column tokens) (hdot : .dot ∉ tokens) :
    names tokens = ["max".toList, column] := by
  obtain ⟨call, argument, rfl, hcall, hargument⟩ := h
  have hinner : .dot ∉ argument := fun hmem => hdot (by simp [hmem])
  have hnames : names (.word call :: .opening :: (argument ++ [.closing])) =
      lower call :: names (argument ++ [.closing]) := rfl
  rw [hnames, names_append, hargument.names_eq (fun _ => IsColumn.names_eq) hinner, hcall]
  rfl

theorem IsSubquery.names_eq {column : List Char} {tokens : List Token}
    (h : IsSubquery column tokens) (hdot : .dot ∉ tokens) :
    names tokens = ["select".toList, "max".toList, column, "from".toList] := by
  obtain ⟨select, greatest, from', target, rfl, hselect, hgreatest, hfrom, htarget⟩ := h
  have hinner : .dot ∉ greatest := fun hmem => hdot (by simp [hmem])
  have hthis : .dot ∉ target := fun hmem => hdot (by simp [hmem])
  have htarget : names target = [] := htarget.names_eq (fun _ heq _ => by rw [heq]; rfl) hthis
  have hword : ∀ letters, names [.word letters] = [lower letters] := fun _ => rfl
  rw [names_append, names_append, names_append, hword, hword, htarget, hselect, hfrom,
    hgreatest.names_eq (fun _ => IsGreatest.names_eq) hinner]
  rfl

theorem IsComparison.names_eq {column : List Char} {tokens : List Token}
    (h : IsComparison column tokens) (hdot : .dot ∉ tokens) :
    names tokens = [column, "select".toList, "max".toList, column, "from".toList] := by
  obtain ⟨left, operator, subquery, rfl, hleft, hoperator, hsubquery⟩ := h
  have hcolumn : .dot ∉ left := fun hmem => hdot (by simp [hmem])
  have hinner : .dot ∉ .opening :: (subquery ++ [.closing]) :=
    fun hmem => hdot (List.mem_append_right _ (List.mem_append_right _ hmem))
  have hnone : names operator = [] := by rcases hoperator with rfl | rfl <;> rfl
  rw [names_append, names_append, hnone, hleft.names_eq (fun _ => IsColumn.names_eq) hcolumn,
    (Wrapped.paren hsubquery).names_eq (fun _ => IsSubquery.names_eq) hinner]
  rfl

/-- A watermark filter without qualifiers has no other words than its keywords and its column. -/
theorem IsFilter.names_eq {column : List Char} {tokens : List Token}
    (h : IsFilter column tokens) (hdot : .dot ∉ tokens) :
    ∃ keyword : List (List Char), keyword.length ≤ 1 ∧
      names tokens = keyword ++ [column, "select".toList, "max".toList, column, "from".toList] := by
  obtain ⟨keyword, comparison, rfl, hkeyword, hcomparison⟩ := h
  have hword : (names keyword).length ≤ 1 := by
    rcases hkeyword with rfl | ⟨word, rfl, -⟩ <;> simp [names]
  have hdot : .dot ∉ comparison := fun hmem => hdot (by simp [hmem])
  exact ⟨names keyword, hword, by
    rw [names_append, hcomparison.names_eq (fun _ => IsComparison.names_eq) hdot]⟩

namespace Sample

def conjunct : List Segment :=
  [.text "where updated_at > (select max(updated_at) from ", .expr " this ",
    .text ") and status = 'done'"]

def greatest : List Token :=
  [.word "max".toList, .opening, .word "updated_at".toList, .closing]

def subquery : List Token :=
  [.word "SELECT".toList] ++ (greatest ++ ([.word "from".toList] ++ [.opening, .this, .closing]))

def plain : List Token :=
  [.word "Where".toList] ++ ([.word "t".toList, .dot, .word "Updated_At".toList] ++
    ([.greater, .equal] ++ .opening :: (subquery ++ [.closing])))

example : significant (lex ((items
    [.text "Where t.Updated_At >= (SELECT max(updated_at) from (", .expr " this ",
      .text "))"]).getD [])) = plain := by
  decide

example : IsFilter "updated_at".toList plain := by
  have hgreatest : IsGreatest "updated_at".toList greatest :=
    ⟨_, _, rfl, by decide, .bare (.name (by decide) (by decide))⟩
  have hthis : Wrapped (· = [.this]) [.this] := .bare rfl
  have hsubquery : IsSubquery "updated_at".toList subquery :=
    ⟨_, _, _, _, rfl, by decide, .bare hgreatest, by decide, .paren hthis⟩
  exact ⟨_, _, rfl, .inr ⟨_, rfl, .inl (by decide)⟩, .bare ⟨_, _, _, rfl,
    .bare (.ofWord (.name (by decide) (by decide))), .inr rfl, .bare hsubquery⟩⟩

theorem conjunct_not_sound : ¬ SoundBlock .start conjunct := by
  intro h
  obtain ⟨parts, column, window, hparts, hfilter, -⟩ := h (by decide)
  obtain rfl : (items conjunct).getD [] = parts := by rw [hparts]; rfl
  obtain ⟨keyword, hkeyword, hnames⟩ := hfilter.names_eq (by decide)
  have hnine : (names (significant (lex ((items conjunct).getD [])))).length = 9 := by decide
  rw [hnames, List.length_append] at hnine
  simp only [List.length_cons, List.length_nil] at hnine
  omega

end Sample

end PhloTransform.Dbt.Watermarks
