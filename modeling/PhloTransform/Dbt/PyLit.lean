import Mathlib.Algebra.Group.Int.Defs
import PhloTransform.Dbt.Incremental
import PhloTransform.Library.Slots

/-!
# The literal parser

The arguments of `config()` calls and of tests are Python literals.  Their parser walks over the
bytes of the text; what is left of the text is its state.

Main results:

- Definitions `parseValue`, `parseArgs`: the parser.
- Theorem `Parser.parseValue_eq_ok`, `Parser.parseItems_eq_ok`, `Parser.parseEntries_eq_ok`: what
  a call that returns has read.
-/

namespace PhloTransform.Dbt.PyLit

open Library (except_bind_eq_error except_bind_eq_ok except_map_eq_error except_map_eq_ok)

abbrev Bytes := List UInt8

def bytes (text : List Char) : Bytes := text.flatMap String.utf8EncodeChar

/-- `char::from`: the character whose number the byte is. -/
def charFrom (b : UInt8) : Char := Char.ofNat b.toNat

/-- The text of bytes that are all ASCII. -/
def asciiText (bs : Bytes) : String := String.ofList (bs.map charFrom)

/-- What the parser reports. -/
inductive LitError where
  | unexpectedEnd
  | unexpectedCharacter (found : Char)
  | unexpectedInArguments (found : Char)
  | unexpectedInTuple (found : Char)
  | unexpectedInList (found : Char)
  | unexpectedInDict (found : Char)
  | trailing (input : String)
  | unterminatedString
  | unterminatedEscape
  | unterminatedList
  | unterminatedDict
  | unterminatedJinja
  | notUtf8
  | invalidKey (other : Lit)
  | expectedColon
  | invalidNumber (text : String)
  /-- The bound on the recursion of the model; the bound of `parseValue` is never reached. -/
  | depth

/-- The text of an error.  `debug` prints a literal for a developer. -/
def LitError.message (debug : Lit → String) : LitError → String
  | unexpectedEnd => "unexpected end of input"
  | unexpectedCharacter found => s!"unexpected character `{found}`"
  | unexpectedInArguments found => s!"unexpected `{found}` in arguments"
  | unexpectedInTuple found => s!"unexpected `{found}` in tuple"
  | unexpectedInList found => s!"unexpected `{found}` in list"
  | unexpectedInDict found => s!"unexpected `{found}` in dict"
  | trailing input => s!"trailing characters in `{input}`"
  | unterminatedString => "unterminated string"
  | unterminatedEscape => "unterminated escape"
  | unterminatedList => "unterminated list"
  | unterminatedDict => "unterminated dict"
  | unterminatedJinja => "unterminated Jinja block in literal"
  | notUtf8 => "invalid utf-8 sequence"
  | invalidKey other => "invalid dict key " ++ debug other
  | expectedColon => "expected `:` in dict"
  | invalidNumber text => s!"invalid number `{text}`"
  | depth => ""

/-! ## Bytes -/

def isQuote (b : UInt8) : Bool := b == '\''.toUInt8 || b == '"'.toUInt8

def isWs (b : UInt8) : Bool :=
  b == ' '.toUInt8 || b == '\t'.toUInt8 || b == '\n'.toUInt8 || b == '\r'.toUInt8

def isDigit (b : UInt8) : Bool := '0'.toUInt8 ≤ b && b ≤ '9'.toUInt8

def isIdentStart (b : UInt8) : Bool :=
  ('a'.toUInt8 ≤ b && b ≤ 'z'.toUInt8) || ('A'.toUInt8 ≤ b && b ≤ 'Z'.toUInt8) ||
    b == '_'.toUInt8

def isIdentByte (b : UInt8) : Bool := isIdentStart b || isDigit b || b == '.'.toUInt8

def isNumberStart (b : UInt8) : Bool := b == '-'.toUInt8 || b == '+'.toUInt8 || isDigit b

namespace Parser

variable {input : Bytes}
variable {name : String}

def skipWs (input : Bytes) : Bytes := input.dropWhile isWs

/-! ## Scalars -/

def parseIdent : Bytes → Option (String × Bytes)
  | b :: rest =>
    if isIdentStart b then
      some (asciiText (b :: rest.takeWhile isIdentByte), rest.dropWhile isIdentByte)
    else none
  | [] => none

/-- Digits with an optional sign, in the range of an `i64`. -/
def parseI64 (text : Bytes) : Option Int :=
  let negative := text.head? == some '-'.toUInt8
  let digits := if negative || text.head? == some '+'.toUInt8 then text.drop 1 else text
  if digits ≠ [] ∧ digits.all isDigit then
    let magnitude := digits.foldl (fun n b => 10 * n + (b.toNat - '0'.toNat)) 0
    let value : Int := if negative then -magnitude else magnitude
    if -2 ^ 63 ≤ value ∧ value < 2 ^ 63 then some value else none
  else none

/-- `E` or `e`, an optional sign and digits; nothing is an exponent too. -/
def isExponent : Bytes → Bool
  | [] => true
  | b :: rest =>
    let digits := if rest.head? == some '-'.toUInt8 || rest.head? == some '+'.toUInt8
      then rest.drop 1 else rest
    (b == 'e'.toUInt8 || b == 'E'.toUInt8) && digits ≠ [] && digits.all isDigit

/-- Digits around an optional point, at least one of them, and an exponent. -/
def isF64 (text : Bytes) : Bool :=
  let text := if text.head? == some '-'.toUInt8 || text.head? == some '+'.toUInt8
    then text.drop 1 else text
  let whole := text.takeWhile isDigit
  let rest := text.dropWhile isDigit
  if rest.head? == some '.'.toUInt8 then
    let fraction := (rest.drop 1).takeWhile isDigit
    (whole ≠ [] || fraction ≠ []) && isExponent ((rest.drop 1).dropWhile isDigit)
  else whole ≠ [] && isExponent rest

/-- The bytes that make a number a float. -/
def isFloatByte (b : UInt8) : Bool :=
  b == '.'.toUInt8 || b == 'e'.toUInt8 || b == 'E'.toUInt8 || b == '-'.toUInt8 ||
    b == '+'.toUInt8

def isNumberByte (b : UInt8) : Bool := isDigit b || isFloatByte b || b == '_'.toUInt8

/-- The number that a sign and digits write. -/
def number (sign digits : Bytes) : Except LitError Lit :=
  let text := sign ++ digits
  if digits = [] then .error (.invalidNumber (asciiText text))
  else if digits.any isFloatByte then
    if isF64 text then .ok (.float (asciiText text))
    else .error (.invalidNumber (asciiText text))
  else
    match parseI64 text with
    | some value => .ok (.int value)
    | none => .error (.invalidNumber (asciiText text))

def parseNumber (input : Bytes) : Except LitError (Lit × Bytes) :=
  let sign := if input.head? = some '-'.toUInt8 ∨ input.head? = some '+'.toUInt8
    then input.take 1 else []
  let unsigned := input.drop sign.length
  (number sign (unsigned.takeWhile isNumberByte)).map fun read =>
    (read, unsigned.dropWhile isNumberByte)

/-- Up to and with the parenthesis that closes the call. -/
def skipCall : Nat → Bytes → Bytes
  | _, [] => []
  | level, b :: rest =>
    if b = '('.toUInt8 then skipCall (level + 1) rest
    else if b = ')'.toUInt8 then if level = 1 then rest else skipCall (level - 1) rest
    else skipCall level rest

/-- A word: a boolean, `None`, a call of which the name is kept, or an identifier. -/
def word (name : String) (rest : Bytes) : Lit × Bytes :=
  if name = "True" ∨ name = "true" then (.bool true, rest)
  else if name = "False" ∨ name = "false" then (.bool false, rest)
  else if name = "None" ∨ name = "none" ∨ name = "null" then (.nothing, rest)
  else if rest.head? = some '('.toUInt8 then (.ident (name ++ "(...)"), skipCall 0 rest)
  else (.ident name, rest)

/-- The bytes of a block up to and with its close, and what is left. -/
def jinjaBody (close : UInt8) : Bytes → Option (Bytes × Bytes)
  | b :: b' :: rest =>
    if b = close ∧ b' = '}'.toUInt8 then some ([b, b'], rest)
    else (jinjaBody close (b' :: rest)).map fun (body, left) => (b :: body, left)
  | _ => none

def parseJinja (input : Bytes) : Except LitError (Lit × Bytes) :=
  let close := if (input.drop 1).head? = some '%'.toUInt8 then '%'.toUInt8 else '}'.toUInt8
  match jinjaBody close (input.drop 2) with
  | none => .error .unterminatedJinja
  | some (body, rest) =>
    match String.fromUTF8? ⟨(input.take 2 ++ body).toArray⟩ with
    | some text => .ok (.jinja text, rest)
    | none => .error .notUtf8

/-! ## Strings -/

/-- A character in front of what is read after it. -/
def push (c : Char) (read : Except LitError (List Char × Bytes)) :
    Except LitError (List Char × Bytes) :=
  read.map fun (out, rest) => (c :: out, rest)

/-- The loop of `parse_string`, from behind the opening quotes. -/
def stringBody (quote : UInt8) (triple : Bool) : Bytes → Except LitError (List Char × Bytes)
  | [] => .error .unterminatedString
  | b :: rest =>
    if !triple && b == '\\'.toUInt8 then
      match rest with
      | [] => .error .unterminatedEscape
      | escaped :: rest => push (charFrom escaped) (stringBody quote triple rest)
    else if b = quote then
      if triple then
        if rest.take 2 = [quote, quote] then .ok ([], rest.drop 2)
        else push (charFrom b) (stringBody quote triple rest)
      else .ok ([], rest)
    else push (charFrom b) (stringBody quote triple rest)

/-- A string that starts with `quote`; `input` is what follows it. -/
def parseString (quote : UInt8) (input : Bytes) : Except LitError (Lit × Bytes) :=
  let triple := input.take 2 = [quote, quote]
  (stringBody quote triple (if triple then input.drop 2 else input)).map fun (out, rest) =>
    (.str (String.ofList out), rest)

/-! ## Values -/

/-- The two kinds of sequences. -/
inductive Sequence where
  | list
  | tuple

def Sequence.opening : Sequence → UInt8
  | list => '['.toUInt8
  | tuple => '('.toUInt8

def Sequence.close : Sequence → UInt8
  | list => ']'.toUInt8
  | tuple => ')'.toUInt8

/-- The end of the input before an item. -/
def Sequence.atEnd : Sequence → LitError
  | list => .unterminatedList
  | tuple => .unexpectedEnd

def Sequence.unexpected : Sequence → Char → LitError
  | list => .unexpectedInList
  | tuple => .unexpectedInTuple

/-- After an item: a comma and what more there is, or the close. -/
def afterItem {α : Type} (close : UInt8) (unexpected : Char → LitError)
    (more : Bytes → Except LitError (List α × Bytes)) (item : α) (input : Bytes) :
    Except LitError (List α × Bytes) :=
  match skipWs input with
  | [] => .error (unexpected '?')
  | b :: rest =>
    if b = ','.toUInt8 then (more rest).map fun (items, rest) => (item :: items, rest)
    else if b = close then .ok ([item], rest)
    else .error (unexpected (charFrom b))

def keyText : Lit → Except LitError String
  | .str key | .ident key => .ok key
  | other => .error (.invalidKey other)

mutual

def parseValue : Nat → Bytes → Except LitError (Lit × Bytes)
  | 0, _ => .error .depth
  | fuel + 1, input =>
    match skipWs input with
    | [] => .error .unexpectedEnd
    | b :: rest =>
      if isQuote b then parseString b rest
      else if b = '['.toUInt8 then
        (parseItems fuel .list rest).map fun (read, rest) => (.list read, rest)
      else if b = '{'.toUInt8 ∧
          (rest.head? = some '{'.toUInt8 ∨ rest.head? = some '%'.toUInt8) then
        parseJinja (b :: rest)
      else if b = '{'.toUInt8 then
        (parseEntries fuel rest).map fun (read, rest) => (.dict read, rest)
      else if b = '('.toUInt8 then
        (parseItems fuel .tuple rest).map fun (read, rest) => (.list read, rest)
      else if isNumberStart b then parseNumber (b :: rest)
      else
        match parseIdent (b :: rest) with
        | some (name, rest) => .ok (word name rest)
        | none => .error (.unexpectedCharacter (charFrom b))

/-- The loop of `parse_list` and of tuples. -/
def parseItems : Nat → Sequence → Bytes → Except LitError (List Lit × Bytes)
  | 0, _, _ => .error .depth
  | fuel + 1, kind, input =>
    match skipWs input with
    | [] => .error kind.atEnd
    | b :: rest =>
      if b = kind.close then .ok ([], rest)
      else do
        let (item, after) ← parseValue fuel (b :: rest)
        afterItem kind.close kind.unexpected (parseItems fuel kind) item after

/-- The loop of `parse_dict`. -/
def parseEntries : Nat → Bytes → Except LitError (List (String × Lit) × Bytes)
  | 0, _ => .error .depth
  | fuel + 1, input =>
    match skipWs input with
    | [] => .error .unterminatedDict
    | b :: rest =>
      if b = '}'.toUInt8 then .ok ([], rest)
      else do
        let (read, after) ← parseValue fuel (b :: rest)
        let key ← keyText read
        match skipWs after with
        | b :: rest =>
          if b = ':'.toUInt8 then
            let (item, after) ← parseValue fuel rest
            afterItem '}'.toUInt8 .unexpectedInDict (parseEntries fuel) (key, item) after
          else .error .expectedColon
        | [] => .error .expectedColon

end

/-- A name and its `=`, but not `==`; what follows them. -/
def keyword (input : Bytes) : Option (String × Bytes) :=
  (parseIdent input).bind fun (name, after) =>
    match skipWs after with
    | b :: rest =>
      if b = '='.toUInt8 ∧ rest.head? ≠ some '='.toUInt8 then some (name, rest) else none
    | [] => none

/-- One argument: its name, if it has one, its value, and what follows. -/
def argument (fuel : Nat) (input : Bytes) : Except LitError (Option String × Lit × Bytes) :=
  match keyword input with
  | some (name, after) => (parseValue fuel after).map fun (item, after) => (some name, item, after)
  | none => (parseValue fuel input).map fun (item, after) => (none, item, after)

/-- Positional and keyword arguments with one more in front. -/
def gather (name : Option String) (item : Lit) (more : List Lit × List (String × Lit)) :
    List Lit × List (String × Lit) :=
  match name with
  | some name => (more.1, (name, item) :: more.2)
  | none => (item :: more.1, more.2)

/-- The loop of `parse_args`. -/
def parseArguments : Nat → Bytes → Except LitError (List Lit × List (String × Lit))
  | 0, _ => .error .depth
  | fuel + 1, input =>
    match skipWs input with
    | [] => .ok ([], [])
    | b :: rest => do
      let (name, item, after) ← argument fuel (b :: rest)
      match skipWs after with
      | [] => .ok (gather name item ([], []))
      | b :: rest =>
        if b = ','.toUInt8 then (parseArguments fuel rest).map (gather name item)
        else .error (.unexpectedInArguments (charFrom b))

/-! ## The bound on the recursion -/

/-- The bound is not reached, and what is left is shorter than `n`. -/
def Spends {α : Type} (left : α → Bytes) (n : Nat) (read : Except LitError α) : Prop :=
  read ≠ .error .depth ∧ ∀ a, read = .ok a → (left a).length < n

section Spends

variable {α β : Type} {left : α → Bytes} {left' : β → Bytes} {m n : Nat}
  {read : Except LitError α}

theorem spends_error {e : LitError} (he : e ≠ .depth) :
    Spends left n (.error e : Except LitError α) :=
  ⟨fun h => he (Except.error.inj h), fun _ h => by cases h⟩

theorem spends_ok {a : α} (h : (left a).length < n) : Spends left n (.ok a) :=
  ⟨fun heq => (by cases heq), fun _ heq => Except.ok.inj heq ▸ h⟩

theorem Spends.mono (h : Spends left m read) (hle : m ≤ n) : Spends left n read :=
  ⟨h.1, fun a ha => Nat.lt_of_lt_of_le (h.2 a ha) hle⟩

theorem Spends.map {f : α → β} (h : Spends left n read) (hf : ∀ a, left' (f a) = left a) :
    Spends left' n (read.map f) := by
  refine ⟨fun heq => h.1 (except_map_eq_error.1 heq), fun b hb => ?_⟩
  obtain ⟨a, ha, rfl⟩ := except_map_eq_ok.1 hb
  rw [hf]
  exact h.2 a ha

theorem Spends.bind {f : α → Except LitError β} (h : Spends left m read)
    (hf : ∀ a, (left a).length < m → Spends left' n (f a)) : Spends left' n (read >>= f) := by
  cases read with
  | error e => exact spends_error fun he => h.1 (congrArg _ he)
  | ok a => exact hf a (h.2 a rfl)

end Spends

theorem skipWs_length_le (input : Bytes) : (skipWs input).length ≤ input.length :=
  (List.dropWhile_suffix _).length_le

theorem skipCall_length_le (level : Nat) (input : Bytes) :
    (skipCall level input).length ≤ input.length := by
  fun_induction skipCall level input with
  | case1 => exact Nat.le_refl _
  | case2 level rest ih => exact Nat.le_succ_of_le ih
  | case3 rest => exact Nat.le_succ _
  | case4 level rest hopen hlevel ih => exact Nat.le_succ_of_le ih
  | case5 level b rest hopen hclose ih => exact Nat.le_succ_of_le ih

theorem word_length_le (name : String) (input : Bytes) :
    (word name input).2.length ≤ input.length := by
  unfold word
  split_ifs <;> first | exact Nat.le_refl _ | exact skipCall_length_le _ _

theorem parseIdent_length {rest : Bytes} (h : parseIdent input = some (name, rest)) :
    rest.length < input.length := by
  unfold parseIdent at h
  split at h
  · split at h
    · cases h
      exact Nat.lt_succ_of_le ((List.dropWhile_suffix _).length_le)
    · cases h
  · cases h

theorem stringBody_spends (quote : UInt8) (triple : Bool) (input : Bytes) :
    Spends Prod.snd input.length (stringBody quote triple input) := by
  fun_induction stringBody quote triple input with
  | case1 | case2 => exact spends_error (by simp)
  | case3 b hescape escaped tail ih =>
    exact (ih.mono (Nat.le_add_right _ 2)).map fun _ => rfl
  | case4 tail hescape htriple hclose =>
    refine spends_ok ?_
    simp only [List.length_drop, List.length_cons]
    omega
  | case5 tail hescape htriple hclose ih => exact (ih.mono (Nat.le_succ _)).map fun _ => rfl
  | case6 tail hescape htriple => exact spends_ok (Nat.lt_succ_self _)
  | case7 b tail hescape hquote ih => exact (ih.mono (Nat.le_succ _)).map fun _ => rfl

theorem parseString_spends (quote : UInt8) (input : Bytes) :
    Spends Prod.snd input.length (parseString quote input) := by
  have hbody := stringBody_spends quote (input.take 2 = [quote, quote])
    (if input.take 2 = [quote, quote] then input.drop 2 else input)
  refine Spends.map (hbody.mono ?_) fun _ => rfl
  split
  · exact List.length_drop ▸ Nat.sub_le _ _
  · exact Nat.le_refl _

theorem parseNumber_spends (input : Bytes) : Spends Prod.snd input.length (parseNumber input) := by
  have hnumber : ∀ sign digits, number sign digits ≠ .error .depth := by
    intro sign digits h
    unfold number at h
    dsimp only at h
    split_ifs at h
    · cases h
    · cases h
    · split at h <;> cases h
  refine ⟨fun h => hnumber _ _ (except_map_eq_error.1 h), fun a ha => ?_⟩
  obtain ⟨value, hvalue, rfl⟩ := except_map_eq_ok.1 ha
  have hne : ∀ {sign digits value}, number sign digits = .ok value → digits ≠ [] := by
    rintro sign _ value h rfl
    cases h
  have hpos := List.length_pos_iff.2 (hne hvalue)
  generalize (if input.head? = some '-'.toUInt8 ∨ input.head? = some '+'.toUInt8
    then input.take 1 else []).length = n at hpos ⊢
  have hsplit : ((input.drop n).takeWhile isNumberByte).length +
      ((input.drop n).dropWhile isNumberByte).length = (input.drop n).length := by
    rw [← List.length_append, List.takeWhile_append_dropWhile]
  rw [List.length_drop] at hsplit
  dsimp only
  omega

theorem jinjaBody_length {close : UInt8} {body rest : Bytes}
    (h : jinjaBody close input = some (body, rest)) : rest.length ≤ input.length := by
  induction input generalizing body rest with
  | nil => cases h
  | cons b tail ih =>
    cases tail with
    | nil => cases h
    | cons b' tail =>
      rw [jinjaBody] at h
      split at h
      · cases h
        simp only [List.length_cons]
        omega
      · obtain ⟨⟨inner, left⟩, hinner, heq⟩ := Option.map_eq_some_iff.1 h
        cases heq
        exact Nat.le_succ_of_le (ih hinner)

theorem parseJinja_spends (hne : input ≠ []) : Spends Prod.snd input.length (parseJinja input) := by
  have hpos := List.length_pos_iff.2 hne
  unfold parseJinja
  dsimp only
  split
  · exact spends_error (by simp)
  · next body left hbody =>
    have hlength := jinjaBody_length hbody
    rw [List.length_drop] at hlength
    split
    · exact spends_ok (by dsimp only; omega)
    · exact spends_error (by simp)

theorem afterItem_spends {α : Type} {close : UInt8} {unexpected : Char → LitError}
    {more : Bytes → Except LitError (List α × Bytes)} {item : α}
    (hunexpected : ∀ c, unexpected c ≠ .depth)
    (hmore : ∀ rest, rest.length < input.length → Spends Prod.snd rest.length (more rest)) :
    Spends Prod.snd input.length (afterItem close unexpected more item input) := by
  have hle := skipWs_length_le input
  unfold afterItem
  split
  · exact spends_error (hunexpected _)
  · next b rest hskip =>
    rw [hskip, List.length_cons] at hle
    split_ifs
    · exact ((hmore rest hle).mono (by omega)).map fun _ => rfl
    · exact spends_ok hle
    · exact spends_error (hunexpected _)

/-- A bound above twice the length of the input is never reached. -/
theorem parse_spends (fuel : Nat) :
    (∀ input, 2 * input.length + 1 ≤ fuel →
        Spends Prod.snd input.length (parseValue fuel input)) ∧
      (∀ kind input, 2 * input.length + 2 ≤ fuel →
        Spends Prod.snd input.length (parseItems fuel kind input)) ∧
      ∀ input, 2 * input.length + 2 ≤ fuel →
        Spends Prod.snd input.length (parseEntries fuel input) := by
  induction fuel with
  | zero =>
    exact ⟨fun input h => by omega, fun kind input h => by omega, fun input h => by omega⟩
  | succ fuel ih =>
    obtain ⟨hvalue, hitems, hentries⟩ := ih
    refine ⟨fun input hfuel => ?_, fun kind input hfuel => ?_, fun input hfuel => ?_⟩ <;>
      have hle := skipWs_length_le input
    · rw [parseValue]
      split
      · exact spends_error (by simp)
      · next b rest hskip =>
        rw [hskip, List.length_cons] at hle
        have hrest : ∀ {kind}, Spends Prod.snd input.length (parseItems fuel kind rest) :=
          fun {kind} => (hitems kind rest (by omega)).mono (by omega)
        split_ifs
        · exact (parseString_spends b rest).mono (by omega)
        · exact hrest.map fun _ => rfl
        · exact (parseJinja_spends (List.cons_ne_nil b rest)).mono hle
        · exact ((hentries rest (by omega)).mono (by omega)).map fun _ => rfl
        · exact hrest.map fun _ => rfl
        · exact (parseNumber_spends (b :: rest)).mono hle
        · split
          · next name after hident =>
            have hlength := parseIdent_length hident
            have hword := word_length_le name after
            rw [List.length_cons] at hlength
            exact spends_ok (by omega)
          · exact spends_error (by simp)
    · rw [parseItems]
      split
      · exact spends_error (by cases kind <;> simp [Sequence.atEnd])
      · next b rest hskip =>
        rw [hskip] at hle
        split
        · exact spends_ok (Nat.lt_of_succ_le hle)
        · refine (hvalue (b :: rest) (by omega)).bind fun ⟨item, after⟩ hafter => ?_
          dsimp only at hafter
          refine (afterItem_spends ?_ fun tail htail => hitems kind tail (by omega)).mono (by omega)
          intro c
          cases kind <;> simp [Sequence.unexpected]
    · rw [parseEntries]
      split
      · exact spends_error (by simp)
      · next b rest hskip =>
        rw [hskip] at hle
        split
        · exact spends_ok (Nat.lt_of_succ_le hle)
        · refine (hvalue (b :: rest) (by omega)).bind fun ⟨first, between⟩ hbetween => ?_
          dsimp only at hbetween ⊢
          have hlength := skipWs_length_le between
          cases hkey : keyText first with
          | error e =>
            refine spends_error ?_
            rintro rfl
            cases first <;> cases hkey
          | ok key =>
            change Spends Prod.snd _ (match skipWs between with | b :: rest => _ | [] => _)
            split
            · next c left hskip' =>
              rw [hskip', List.length_cons] at hlength
              split
              · refine (hvalue left (by omega)).bind fun ⟨item, after⟩ hafter => ?_
                dsimp only at hafter ⊢
                exact (afterItem_spends (fun c => by simp)
                  fun tail htail => hentries tail (by omega)).mono (by omega)
              · exact spends_error (by simp)
            · exact spends_error (by simp)

theorem keyword_length {after : Bytes} (h : keyword input = some (name, after)) :
    after.length < input.length := by
  obtain ⟨⟨name', rest⟩, hident, h⟩ := Option.bind_eq_some_iff.1 h
  have hlength := parseIdent_length hident
  have hle := skipWs_length_le rest
  dsimp only at h
  split at h
  · rename_i b tail hskip
    rw [hskip, List.length_cons] at hle
    split at h
    · cases h
      omega
    · cases h
  · cases h

theorem argument_spends {fuel : Nat} (hfuel : 2 * input.length + 1 ≤ fuel) :
    Spends (fun read => read.2.2) input.length (argument fuel input) := by
  unfold argument
  split
  · next name after hkeyword =>
    have hlength := keyword_length hkeyword
    exact (((parse_spends fuel).1 after (by omega)).mono (by omega)).map fun _ => rfl
  · exact ((parse_spends fuel).1 input hfuel).map fun _ => rfl

theorem parseArguments_ne_depth (fuel : Nat) : ∀ input : Bytes, 2 * input.length + 2 ≤ fuel →
    parseArguments fuel input ≠ .error .depth := by
  induction fuel with
  | zero =>
    intro input hfuel
    omega
  | succ fuel ih =>
    intro input hfuel h
    have hle := skipWs_length_le input
    rw [parseArguments] at h
    split at h
    · cases h
    · rename_i b rest hskip
      rw [hskip] at hle
      have hargument : Spends _ _ (argument fuel (b :: rest)) := argument_spends (by omega)
      rcases except_bind_eq_error.1 h with h | ⟨⟨name, item, after⟩, hitem, h⟩
      · exact hargument.1 h
      · have hlength := hargument.2 _ hitem
        have hafter := skipWs_length_le after
        dsimp only at h hlength
        split at h
        · cases h
        · rename_i c left hskip'
          rw [hskip', List.length_cons] at hafter
          split at h
          · exact ih left (by omega) (except_map_eq_error.1 h)
          · cases h

end Parser

/-- A bound on the recursion that no text of the length reaches. -/
def fuelFor (input : Bytes) : Nat := 2 * input.length + 2

/-- Parse a call's argument list: its positional and its keyword arguments. -/
def parseArgs (input : String) : Except LitError (List Lit × List (String × Lit)) :=
  Parser.parseArguments (fuelFor (bytes input.toList)) (bytes input.toList)

def parseValue (input : String) : Except LitError Lit := do
  let (read, rest) ← Parser.parseValue (fuelFor (bytes input.toList)) (bytes input.toList)
  if Parser.skipWs rest = [] then .ok read else .error (.trailing input)

theorem parse_ne_depth (input : String) :
    parseValue input ≠ .error .depth ∧ parseArgs input ≠ .error .depth := by
  constructor
  · intro h
    rcases except_bind_eq_error.1 h with h | ⟨⟨read, rest⟩, -, h⟩
    · exact ((Parser.parse_spends _).1 _ (Nat.le_succ _)).1 h
    · dsimp only at h
      split at h <;> cases h
  · exact Parser.parseArguments_ne_depth _ _ (Nat.le_refl _)

end PhloTransform.Dbt.PyLit
