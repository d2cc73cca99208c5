import Mathlib.Algebra.Order.Ring.Cast
import PhloTransform.Core.Identity
import PhloTransform.Library.Delimited
import PhloTransform.Library.NestedText
import PhloTransform.Library.Numerals

/-!
# Seed values as Trino literals

Trino cannot read a seed's file, so the adapter infers a type for every column of it and
inserts the cells as literals.  A column is of numbers when each of its cells is one for the
parser of the adapter's own language, which also knows infinities and values that are not
numbers, and takes a number of any size.

Main results:

- Theorem `inferCsvType_eq`: what the inferred type says about the cells.
- Theorem `column_survives_iff`: when every cell of a column keeps its value.
-/

namespace PhloTransform.Engine.SeedLiterals

open Library

variable {text : List Char}

/-! ## Inference and literals -/

/-- The types of seed columns. -/
inductive SeedType where
  | boolean
  | bigint
  | double
  | varchar
deriving Repr, DecidableEq

def SeedType.sql : SeedType → String
  | boolean => "boolean"
  | bigint => "bigint"
  | double => "double"
  | varchar => "varchar"

/-- `str::parse::<i64>`. -/
def parseI64 (text : List Char) : Option Int :=
  (integer text).filter fun n => -2 ^ 63 ≤ n ∧ n < 2 ^ 63

theorem lawfulBEq_chars : LawfulBEq (List Char) :=
  inferInstance

/-- `str::parse::<f64>` returns a value: a number of any size, an infinity or not a number. -/
def parsesF64 (text : List Char) : Bool :=
  haveI := lawfulBEq_chars
  asciiLower (signed text).2 ∈ ["inf".toList, "infinity".toList, "nan".toList] ∨
    (Numeral.parse (signed text).2).isSome

def isBoolean (text : List Char) : Bool :=
  asciiLower text == "true".toList || asciiLower text == "false".toList

/-- What the cells read so far have in common. -/
structure Inference where
  boolean : Bool
  integer : Bool
  number : Bool
  sawValue : Bool
deriving DecidableEq

def Inference.start : Inference :=
  ⟨true, true, true, false⟩

def Inference.see (i : Inference) (value : String) : Inference :=
  let value := Core.trim value.toList
  if value = [] then i
  else
    { boolean := i.boolean && isBoolean value
      integer := i.integer && (parseI64 value).isSome
      number := i.number && parsesF64 value
      sawValue := true }

def inferCsvType (values : List String) : SeedType :=
  let i := values.foldl Inference.see Inference.start
  if !i.sawValue then .varchar
  else if i.boolean then .boolean
  else if i.integer then .bigint
  else if i.number then .double
  else .varchar

/-- `'value'`, with the quotes in the value written twice. -/
def literal (value : List Char) : List Char :=
  delimited '\'' value

def csvLiteral (value : Option String) (dataType : SeedType) : List Char :=
  match value with
  | none => "NULL".toList
  | some value =>
    let trimmed := Core.trim value.toList
    if trimmed = [] then
      if value = "" ∨ dataType ≠ .varchar then "NULL".toList else literal value.toList
    else
      match dataType with
      | .bigint | .double => trimmed
      | .boolean => asciiLower trimmed
      | .varchar => literal value.toList

/-! ## The literals of Trino -/

/-- A literal as the server reads it. -/
inductive TrinoLiteral where
  | null
  | boolean (value : Bool)
  | number (negative : Bool) (digits : Numeral)
  | varchar (value : List Char)
deriving DecidableEq

/-- A text up to the quote that is not doubled, which must be the last character. -/
def readQuoted (text : List Char) : Option (List Char) :=
  (readDelimited '\'' text).bind fun read => if read.2 = [] then some read.1 else none

/-- A number with an optional sign, a quoted text, or a key word in any case. -/
def readLiteral (text : List Char) : Option TrinoLiteral :=
  match Numeral.parse (signed text).2 with
  | some digits => some (.number (signed text).1 digits)
  | none =>
    match text with
    | '\'' :: rest => (readQuoted rest).map .varchar
    | text =>
      if asciiLower text = "null".toList then some .null
      else if asciiLower text = "true".toList then some (.boolean true)
      else if asciiLower text = "false".toList then some (.boolean false)
      else none

/-- From here on a number is rounded to an infinite double. -/
def doubleLimit : ℚ :=
  2 ^ 1024 - 2 ^ 970

/-- The digits of a decimal, without leading zeros. -/
def precision (digits : Numeral) : Nat :=
  (digits.whole.dropWhile (· == '0') ++ digits.fraction.getD []).length

/-- A number is in the range of its own type: without point and exponent it is a `bigint`, with
an exponent a `double`, else a decimal of at most 38 digits. -/
def Fits (negative : Bool) (digits : Numeral) : Prop :=
  match digits.fraction, digits.exponent with
  | _, some _ => |digits.value| < doubleLimit
  | some _, none => precision digits ≤ 38
  | none, none =>
    -2 ^ 63 ≤ digits.signedValue negative ∧ digits.signedValue negative < 2 ^ 63

/-- A literal can be stored in a column. -/
def TrinoLiteral.InRange (dataType : SeedType) : TrinoLiteral → Prop
  | null => True
  | boolean _ => dataType = .boolean
  | varchar _ => dataType = .varchar
  | number negative digits =>
    Fits negative digits ∧
      (dataType = .double ∨
        dataType = .bigint ∧ digits.fraction = none ∧ digits.exponent = none)

/-- What a cell spells in a column of a type.  A cell is empty when it has no character, and in
a column that is not of texts when it has only blanks. -/
def Spells (dataType : SeedType) (cell : String) (value : TrinoLiteral) : Prop :=
  if cell = "" ∨ (dataType ≠ .varchar ∧ Core.trim cell.toList = []) then value = .null
  else
    match dataType with
    | .varchar => value = .varchar cell.toList
    | .boolean =>
      ∃ b : Bool, value = .boolean b ∧
        asciiLower (Core.trim cell.toList) = (if b then "true" else "false").toList
    | .bigint =>
      ∃ negative digits n, value = .number negative digits ∧
        integer (Core.trim cell.toList) = some n ∧ digits.signedValue negative = n
    | .double =>
      ∃ negative digits, value = .number negative digits ∧
        signedNumber (Core.trim cell.toList) = some (digits.signedValue negative)

/-- A cell is inserted as a literal that is in the range of the type and is what the cell
spells. -/
def Keeps (dataType : SeedType) (cell : String) : Prop :=
  ∃ value, readLiteral (csvLiteral (some cell) dataType) = some value ∧
    value.InRange dataType ∧ Spells dataType cell value

/-- Every cell of a column keeps its value in the inferred type, and a missing cell is null. -/
def Survives (cells : List String) : Prop :=
  (∀ cell ∈ cells, Keeps (inferCsvType cells) cell) ∧
    readLiteral (csvLiteral none (inferCsvType cells)) = some .null

/-- A number in the range of its own type. -/
def Plain (text : List Char) : Prop :=
  ∃ digits, Numeral.parse (signed text).2 = some digits ∧ Fits (signed text).1 digits

/-! ## The inferred type -/

/-- The texts of the cells that are not blank. -/
def spelled (cells : List String) : List (List Char) :=
  (cells.map fun cell => Core.trim cell.toList).filter (· ≠ [])

theorem mem_spelled {cells : List String} :
    text ∈ spelled cells ↔ ∃ cell ∈ cells, Core.trim cell.toList = text ∧ text ≠ [] := by
  simp only [spelled, List.mem_filter, List.mem_map, decide_eq_true_eq]
  constructor
  · rintro ⟨⟨cell, hcell, rfl⟩, hne⟩
    exact ⟨cell, hcell, rfl, hne⟩
  · rintro ⟨cell, hcell, rfl, hne⟩
    exact ⟨⟨cell, hcell, rfl⟩, hne⟩

theorem foldl_see (i : Inference) (cells : List String) :
    cells.foldl Inference.see i =
      { boolean := i.boolean && (spelled cells).all isBoolean
        integer := i.integer && (spelled cells).all fun text => (parseI64 text).isSome
        number := i.number && (spelled cells).all parsesF64
        sawValue := i.sawValue || !(spelled cells).isEmpty } := by
  induction cells generalizing i with
  | nil => simp [spelled]
  | cons cell cells ih =>
    rw [List.foldl_cons, ih]
    by_cases hblank : Core.trim cell.toList = []
    · have hspelled : spelled (cell :: cells) = spelled cells := by
        simp [spelled, hblank]
      rw [hspelled, Inference.see, if_pos hblank]
    · have hspelled : spelled (cell :: cells) = Core.trim cell.toList :: spelled cells := by
        simp [spelled, hblank]
      rw [hspelled, Inference.see, if_neg hblank]
      simp [Bool.and_assoc]

/-- The inferred type is the first that all the texts have. -/
theorem inferCsvType_eq (cells : List String) :
    inferCsvType cells =
      if spelled cells = [] then .varchar
      else if (spelled cells).all isBoolean then .boolean
      else if (spelled cells).all fun text => (parseI64 text).isSome then .bigint
      else if (spelled cells).all parsesF64 then .double else .varchar := by
  unfold inferCsvType
  rw [foldl_see]
  simp [Inference.start]

/-! ## Reading the literals back -/

theorem readLiteral_literal (value : List Char) :
    readLiteral (literal value) = some (.varchar value) := by
  have hquoted : readQuoted (doubled '\'' value ++ ['\'']) = some value := by
    rw [readQuoted, readDelimited_doubled value (by simp)]
    rfl
  have hparse : Numeral.parse ('\'' :: (doubled '\'' value ++ ['\''])) = none :=
    Numeral.parse_of_head (by decide) (by decide)
  simp [readLiteral, literal, delimited, signed, hparse, hquoted]

theorem readLiteral_null : readLiteral "NULL".toList = some .null := by
  decide +kernel

/-! ## The cells of one type -/

variable {cell : String} {dataType : SeedType}

theorem spells_null (h : cell = "" ∨ (dataType ≠ .varchar ∧ Core.trim cell.toList = [])) :
    Spells dataType cell .null := by
  unfold Spells
  rw [if_pos h]

theorem keeps_varchar (cell : String) : Keeps .varchar cell := by
  by_cases hempty : cell = ""
  · subst hempty
    exact ⟨.null, readLiteral_null, trivial, spells_null (Or.inl rfl)⟩
  · have hliteral : csvLiteral (some cell) .varchar = literal cell.toList := by
      simp [csvLiteral, hempty]
    refine ⟨.varchar cell.toList, ?_, rfl, ?_⟩
    · rw [hliteral, readLiteral_literal]
    · simp [Spells, hempty]

theorem keeps_of_blank (htype : dataType ≠ .varchar) (hblank : Core.trim cell.toList = []) :
    Keeps dataType cell := by
  refine ⟨.null, ?_, trivial, spells_null (Or.inr ⟨htype, hblank⟩)⟩
  have hliteral : csvLiteral (some cell) dataType = "NULL".toList := by
    simp [csvLiteral, hblank, htype]
  rw [hliteral, readLiteral_null]

theorem ne_empty_of_trim (h : Core.trim cell.toList ≠ []) : cell ≠ "" := by
  rintro rfl
  exact h rfl

theorem toLower_of_isDigit {c : Char} (h : c.isDigit = true) : c.toLower = c := by
  by_contra hne
  have hupper : c.val ≥ 'A'.val ∧ c.val ≤ 'Z'.val := of_decide_eq_true (isLower_toLower hne).1
  simp only [Char.isDigit, Bool.and_eq_true, decide_eq_true_eq, ge_iff_le,
    UInt32.le_iff_toNat_le] at h hupper
  have hA : 'A'.val.toNat = 65 := rfl
  have hnine : '9'.val.toNat = 57 := rfl
  omega

theorem signed_parse_of_isBoolean (h : isBoolean text = true) :
    signed text = (false, text) ∧ Numeral.parse text = none := by
  cases text with
  | nil => revert h; decide
  | cons c rest =>
    have hhead : c.toLower = 't' ∨ c.toLower = 'f' := by
      simp only [isBoolean, asciiLower, List.map_cons, Bool.or_eq_true, beq_iff_eq] at h
      rcases h with h | h
      · exact Or.inl (List.head_eq_of_cons_eq h)
      · exact Or.inr (List.head_eq_of_cons_eq h)
    have hne : ∀ d : Char, d.toLower ≠ 't' → d.toLower ≠ 'f' → c ≠ d := by
      rintro d ht hf rfl
      exact hhead.elim ht hf
    have hdigit : c.isDigit = false := by
      rw [Bool.eq_false_iff]
      intro hd
      rw [toLower_of_isDigit hd] at hhead
      rcases hhead with rfl | rfl
      · exact absurd hd (by decide)
      · exact absurd hd (by decide)
    refine ⟨?_, Numeral.parse_of_head hdigit (hne _ (by decide) (by decide))⟩
    have hminus := hne '-' (by decide) (by decide)
    have hplus := hne '+' (by decide) (by decide)
    unfold signed
    split
    · simp_all
    · simp_all
    · rfl

theorem parsesF64_of_isBoolean (h : isBoolean text = true) : parsesF64 text = false := by
  obtain ⟨hsigned, hparse⟩ := signed_parse_of_isBoolean h
  unfold parsesF64
  rw [hsigned, hparse]
  simp only [isBoolean, Bool.or_eq_true, beq_iff_eq] at h
  rcases h with h | h
  · rw [h]
    decide +kernel
  · rw [h]
    decide +kernel

theorem keeps_boolean (h : isBoolean (Core.trim cell.toList) = true) : Keeps .boolean cell := by
  have hne : Core.trim cell.toList ≠ [] := by
    intro hnil
    rw [hnil] at h
    revert h
    decide
  have hliteral : csvLiteral (some cell) .boolean = asciiLower (Core.trim cell.toList) := by
    simp [csvLiteral, hne]
  have hspells : ∀ b : Bool, asciiLower (Core.trim cell.toList) =
      (if b then "true" else "false").toList → Spells .boolean cell (.boolean b) := by
    intro b hb
    unfold Spells
    rw [if_neg (by simp [hne, ne_empty_of_trim hne])]
    exact ⟨b, rfl, hb⟩
  simp only [isBoolean, Bool.or_eq_true, beq_iff_eq] at h
  rcases h with h | h
  · refine ⟨.boolean true, ?_, rfl, hspells true h⟩
    rw [hliteral, h]
    decide +kernel
  · refine ⟨.boolean false, ?_, rfl, hspells false h⟩
    rw [hliteral, h]
    decide +kernel

theorem readLiteral_of_parse {digits : Numeral} (h : Numeral.parse (signed text).2 = some digits) :
    readLiteral text = some (.number (signed text).1 digits) := by
  unfold readLiteral
  rw [h]

/-- What the parser of integers accepts is a number in range. -/
theorem parseI64_eq_some {n : Int} (h : parseI64 text = some n) :
    integer text = some n ∧
      Numeral.parse (signed text).2 = some ⟨(signed text).2, none, none⟩ ∧
      Numeral.signedValue (signed text).1 ⟨(signed text).2, none, none⟩ = n ∧
      Fits (signed text).1 ⟨(signed text).2, none, none⟩ := by
  obtain ⟨hinteger, hrange⟩ := Option.filter_eq_some_iff.1 h
  obtain ⟨hparse, hvalue⟩ := Numeral.parse_of_integer hinteger
  refine ⟨hinteger, hparse, hvalue, ?_⟩
  obtain ⟨hlow, hhigh⟩ := of_decide_eq_true hrange
  unfold Fits
  simp only [hvalue]
  constructor
  · have hcast := (Int.cast_le (R := ℚ)).2 hlow
    push_cast at hcast
    exact hcast
  · have hcast := (Int.cast_lt (R := ℚ)).2 hhigh
    push_cast at hcast
    exact hcast

theorem plain_of_parseI64 (h : (parseI64 text).isSome) : Plain text := by
  obtain ⟨n, hn⟩ := Option.isSome_iff_exists.1 h
  obtain ⟨-, hparse, -, hfits⟩ := parseI64_eq_some hn
  exact ⟨_, hparse, hfits⟩

theorem keeps_bigint (h : (parseI64 (Core.trim cell.toList)).isSome) : Keeps .bigint cell := by
  obtain ⟨n, hn⟩ := Option.isSome_iff_exists.1 h
  obtain ⟨hinteger, hparse, hvalue, hfits⟩ := parseI64_eq_some hn
  have hne : Core.trim cell.toList ≠ [] := by
    intro hnil
    rw [hnil] at hn
    revert hn
    simp [parseI64, integer, wholeNumber, signed]
  refine ⟨.number _ _, ?_, ⟨hfits, Or.inr ⟨rfl, rfl, rfl⟩⟩, ?_⟩
  · have hliteral : csvLiteral (some cell) .bigint = Core.trim cell.toList := by
      simp [csvLiteral, hne]
    rw [hliteral]
    exact readLiteral_of_parse hparse
  · unfold Spells
    rw [if_neg (by simp [hne, ne_empty_of_trim hne])]
    exact ⟨_, _, n, rfl, hinteger, hvalue⟩

/-- A cell of a column of doubles keeps its value exactly when it is a number in range. -/
theorem keeps_double_iff (hne : Core.trim cell.toList ≠ []) :
    Keeps .double cell ↔ Plain (Core.trim cell.toList) := by
  have hliteral : csvLiteral (some cell) .double = Core.trim cell.toList := by
    simp [csvLiteral, hne]
  have hspells : ∀ value, Spells .double cell value ↔
      ∃ negative digits, value = .number negative digits ∧
        signedNumber (Core.trim cell.toList) = some (digits.signedValue negative) := by
    intro value
    unfold Spells
    rw [if_neg (by simp [hne, ne_empty_of_trim hne])]
  unfold Keeps
  rw [hliteral]
  constructor
  · rintro ⟨value, hread, hrange, hvalue⟩
    obtain ⟨negative, digits, rfl, hnumber⟩ := (hspells value).1 hvalue
    obtain ⟨parsed, hparse, -⟩ := Option.map_eq_some_iff.1 hnumber
    rw [readLiteral_of_parse hparse] at hread
    cases hread
    exact ⟨_, hparse, hrange.1⟩
  · rintro ⟨digits, hparse, hfits⟩
    refine ⟨.number _ _, readLiteral_of_parse hparse, ⟨hfits, Or.inl rfl⟩, (hspells _).2 ?_⟩
    refine ⟨_, _, rfl, ?_⟩
    unfold signedNumber
    rw [hparse, Option.map_some]

/-! ## The cells of a column -/

/-- A column keeps all of its values exactly when one of its cells is not a number for the
adapter's parser, or each of them is a number in range. -/
theorem column_survives_iff (cells : List String) :
    Survives cells ↔
      (∃ text ∈ spelled cells, parsesF64 text = false) ∨ ∀ text ∈ spelled cells, Plain text := by
  have hmissing : readLiteral (csvLiteral none (inferCsvType cells)) = some .null :=
    readLiteral_null
  unfold Survives
  rw [and_iff_left hmissing, inferCsvType_eq]
  have hcell : ∀ cell ∈ cells, Core.trim cell.toList ≠ [] →
      Core.trim cell.toList ∈ spelled cells :=
    fun cell hmem hne => mem_spelled.2 ⟨cell, hmem, rfl, hne⟩
  split
  case isTrue hnone =>
      refine iff_of_true (fun cell _ => keeps_varchar cell) (Or.inr ?_)
      rw [hnone]
      exact List.forall_mem_nil _
  case isFalse hsome =>
  split
  case isTrue hboolean =>
      rw [List.all_eq_true] at hboolean
      refine iff_of_true ?_ (Or.inl ?_)
      · intro cell hmem
        by_cases hblank : Core.trim cell.toList = []
        · exact keeps_of_blank (by decide) hblank
        · exact keeps_boolean (hboolean _ (hcell cell hmem hblank))
      · obtain ⟨text, htext⟩ := List.exists_mem_of_ne_nil _ hsome
        exact ⟨text, htext, parsesF64_of_isBoolean (hboolean text htext)⟩
  case isFalse =>
  split
  case isTrue hinteger =>
      rw [List.all_eq_true] at hinteger
      refine iff_of_true ?_ (Or.inr fun text htext => plain_of_parseI64 (hinteger text htext))
      intro cell hmem
      by_cases hblank : Core.trim cell.toList = []
      · exact keeps_of_blank (by decide) hblank
      · exact keeps_bigint (hinteger _ (hcell cell hmem hblank))
  case isFalse =>
  split
  case isTrue hnumber =>
      rw [List.all_eq_true] at hnumber
      constructor
      · intro hkeeps
        refine Or.inr fun text htext => ?_
        obtain ⟨cell, hmem, rfl, hne⟩ := mem_spelled.1 htext
        exact (keeps_double_iff hne).1 (hkeeps cell hmem)
      · rintro (⟨text, htext, hnot⟩ | hplain)
        · rw [hnumber text htext] at hnot
          cases hnot
        · intro cell hmem
          by_cases hblank : Core.trim cell.toList = []
          · exact keeps_of_blank (by decide) hblank
          · exact (keeps_double_iff hblank).2 (hplain _ (hcell cell hmem hblank))
  case isFalse hnumber =>
      refine iff_of_true (fun cell _ => keeps_varchar cell) (Or.inl ?_)
      rw [List.all_eq_true] at hnumber
      obtain ⟨text, hnot⟩ := not_forall.1 hnumber
      obtain ⟨htext, hnot⟩ := Classical.not_imp.1 hnot
      exact ⟨text, htext, Bool.eq_false_iff.2 hnot⟩

/-- The cells of one column that hold no number and a number. -/
def readings : List String :=
  ["1.5", "NaN"]

/-- A value that is not a number is inserted as a name. -/
theorem readings_lost :
    csvLiteral (some "NaN") (inferCsvType readings) = "NaN".toList ∧ ¬Survives readings := by
  have htype : inferCsvType readings = .double := by decide +kernel
  rw [htype]
  refine ⟨by decide +kernel, ?_⟩
  rintro ⟨hkeeps, -⟩
  obtain ⟨value, hread, -⟩ := hkeeps "NaN" (by decide)
  rw [htype] at hread
  revert hread
  have hnone : readLiteral (csvLiteral (some "NaN") .double) = none := by decide +kernel
  rw [hnone]
  rintro ⟨⟩

end PhloTransform.Engine.SeedLiterals
