import PhloTransform.Library.FirstMark

/-!
# Text with Jinja constructs

A template is literal text with expressions, statements and comments between delimiters.  An
expression or a statement ends at the first closing delimiter outside of strings and brackets; a
comment ends at the first one.  Raw blocks are left out.

Main results:

- Definition `Lexes`: how a template is split.
- Theorem `eq_append_of_readBody`: a construct and what follows it make up the text.
-/

namespace PhloTransform.Library.Jinja

variable {letters : Letters} {construct : Construct} {text body after : List Char}

/-! ## Constructs -/

inductive Construct where
  | expression
  | statement
  | comment
deriving Repr, DecidableEq

namespace Construct

/-- What follows the brace of the opening delimiter. -/
def opening : Construct → Char
  | expression => '{'
  | statement => '%'
  | comment => '#'

/-- What precedes the brace of the closing delimiter. -/
def closing : Construct → Char
  | expression => '}'
  | statement => '%'
  | comment => '#'

def close (construct : Construct) : List Char :=
  [construct.closing, '}']

/-- The construct that a character opens after a brace. -/
def ofOpening (c : Char) : Option Construct :=
  if c = '{' then some expression
  else if c = '%' then some statement
  else if c = '#' then some comment
  else none

@[simp]
theorem ofOpening_opening (construct : Construct) :
    ofOpening construct.opening = some construct := by
  cases construct <;> rfl

theorem opening_of_ofOpening {c : Char} {construct : Construct}
    (h : ofOpening c = some construct) : c = construct.opening := by
  unfold ofOpening at h
  split_ifs at h with hexpression hstatement hcomment
  · cases h
    exact hexpression
  · cases h
    exact hstatement
  · cases h
    exact hcomment

theorem close_ne_nil (construct : Construct) : construct.close ≠ [] :=
  List.cons_ne_nil _ _

end Construct

/-! ## Inside an expression or a statement -/

/-- The characters of names, and white space. -/
structure Letters where
  isWord : Char → Bool
  isSpace : Char → Bool

/-- Where in the code of a construct a character stands. -/
inductive Mode where
  | code
  /-- After an exclamation mark, which only stands before an equals sign. -/
  | negated
  | string (quote : Char)
  | escaped (quote : Char)
deriving Repr, DecidableEq

/-- The mode, and the brackets that are to be closed, the innermost first. -/
structure CodeState where
  mode : Mode
  brackets : List Char
deriving Repr, DecidableEq

/-- The bracket that closes an opening one. -/
def closerOf (c : Char) : Option Char :=
  if c = '(' then some ')' else if c = '[' then some ']' else if c = '{' then some '}' else none

def isCloser (c : Char) : Bool :=
  c = ')' || c = ']' || c = '}'

/-- The characters of operators that are no brackets, the exclamation mark apart. -/
def isOperator (c : Char) : Bool :=
  "+-/*%~=><.:|,;".toList.contains c

namespace CodeState

def start : CodeState :=
  ⟨.code, []⟩

def isOuter (s : CodeState) : Bool :=
  decide (s = start)

/-- The state after one more character; code that is no Jinja is refused. -/
def step (letters : Letters) (s : CodeState) (c : Char) : Option CodeState :=
  match s.mode with
  | .string quote =>
    if c = '\\' then some { s with mode := .escaped quote }
    else if c = quote then some { s with mode := .code }
    else some s
  | .escaped quote => some { s with mode := .string quote }
  | .negated => if c = '=' then some { s with mode := .code } else none
  | .code =>
    if c = '\'' || c = '"' then some { s with mode := .string c }
    else if c = '!' then some { s with mode := .negated }
    else
      match closerOf c with
      | some closer => some { s with brackets := closer :: s.brackets }
      | none =>
        if isCloser c then
          match s.brackets with
          | top :: brackets => if top = c then some { s with brackets } else none
          | [] => none
        else if isOperator c || letters.isWord c || letters.isSpace c then some s
        else none

end CodeState

/-- Up to the closing delimiter, and what follows it. -/
def readBody (letters : Letters) (construct : Construct) :
    CodeState → List Char → Option (List Char × List Char)
  | _, [] => none
  | s, c :: rest =>
    if s.isOuter ∧ construct.close <+: c :: rest then some ([], rest.tail)
    else
      (s.step letters c).bind fun s =>
        (readBody letters construct s rest).map fun parts => (c :: parts.1, parts.2)

/-- The body of a construct, and what follows its closing delimiter. -/
def Construct.read (letters : Letters) (construct : Construct) (text : List Char) :
    Option (List Char × List Char) :=
  match construct with
  | .comment => cut construct.close text
  | _ => readBody letters construct .start text

/-- The body, the closing delimiter and what follows it make up the text. -/
theorem eq_append_of_readBody {s : CodeState}
    (h : readBody letters construct s text = some (body, after)) :
    text = body ++ (construct.close ++ after) := by
  induction text generalizing s body with
  | nil => cases h
  | cons c rest ih =>
    rw [readBody] at h
    split at h
    · next hend =>
        cases h
        obtain ⟨tail, htail⟩ := hend.2
        rw [Construct.close, List.cons_append, List.cons_append, List.nil_append,
          List.cons.injEq] at htail
        rw [← htail.1, ← htail.2]
        rfl
    · obtain ⟨s', -, h⟩ := Option.bind_eq_some_iff.1 h
      obtain ⟨⟨body', after'⟩, hread, heq⟩ := Option.map_eq_some_iff.1 h
      cases heq
      rw [ih hread]
      rfl

theorem eq_append_of_read (h : construct.read letters text = some (body, after)) :
    text = body ++ (construct.close ++ after) := by
  cases construct with
  | comment => exact eq_append_of_cut (Construct.close_ne_nil _) h
  | expression => exact eq_append_of_readBody h
  | statement => exact eq_append_of_readBody h

/-! ## Signs -/

def isSign (c : Char) : Bool :=
  c = '-' || c = '+'

/-- The body without a sign at the opening delimiter. -/
def dropOpeningSign : List Char → List Char
  | [] => []
  | c :: rest => if isSign c then rest else c :: rest

/-- The body without a sign at the closing delimiter. -/
def dropClosingSign (body : List Char) : List Char :=
  (dropOpeningSign body.reverse).reverse

/-- The body without the signs at its delimiters. -/
def content (body : List Char) : List Char :=
  dropClosingSign (dropOpeningSign body)

/-! ## Templates -/

/-- A piece of a template: literal text, or a construct with its body. -/
inductive Piece where
  | text (text : List Char)
  | construct (construct : Construct) (body : List Char)
deriving Repr, DecidableEq

def Piece.ofText (text : List Char) : List Piece :=
  if text = [] then [] else [.text text]

/-- A delimiter opens somewhere in the text. -/
def hasOpening : List Char → Bool
  | [] => false
  | c :: rest => (c = '{' && (rest.head?.bind Construct.ofOpening).isSome) || hasOpening rest

/-- A statement that starts a raw block. -/
def IsRaw (letters : Letters) (construct : Construct) (body : List Char) : Prop :=
  construct = .statement ∧ ∃ front back sign,
    dropOpeningSign body = front ++ "raw".toList ++ back ++ sign ∧
    (∀ c ∈ front ++ back, letters.isSpace c = true) ∧ (sign = [] ∨ sign = ['-'])

/-- The pieces of a template without raw blocks, all of whose constructs are closed. -/
inductive Lexes (letters : Letters) : List Char → List Piece → Prop where
  | text {text : List Char} (h : hasOpening text = false) : Lexes letters text (Piece.ofText text)
  | construct {text body rest after : List Char} {construct : Construct} {pieces : List Piece}
      (hopening : hasOpening (text ++ ['{']) = false)
      (hread : construct.read letters rest = some (body, after))
      (hraw : ¬IsRaw letters construct body) (hafter : Lexes letters after pieces) :
      Lexes letters (text ++ '{' :: construct.opening :: rest)
        (Piece.ofText text ++ .construct construct body :: pieces)

end PhloTransform.Library.Jinja
