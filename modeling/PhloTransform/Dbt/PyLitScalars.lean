import PhloTransform.Dbt.PyLitValues

/-!
# Numbers and words

What the literal parser reads as it stands: numbers with a sign or without, the words for
constants, and identifiers with dots.

Main results:

- Theorem `parseValue_number`: a number is read up to what follows it.
- Definitions `Scalar.integer`, `Scalar.decimal`, `Scalar.word`: numbers and words as scalars.
-/

namespace PhloTransform.Dbt.PyLit

open Library (IsAscii)
open PhloTransform.Dbt.PyLit.Parser (isNumberByte isFloatByte)

variable {c : Char} {rest : Bytes} {digits sign : List Char} {b : UInt8}
variable {text : List Char}

/-! ## Characters and bytes -/

theorem forall_isAscii {p : Char → Prop} (h : ∀ n < 128, p (Char.ofNat n)) (hc : IsAscii c) :
    p c := by
  rw [← Char.ofNat_toNat c]
  exact h c.toNat hc

theorem isAscii_of_isAlphanum (h : c.isAlphanum = true) : IsAscii c := by
  simp only [Char.isAlphanum, Core.isAlpha_eq, Char.isDigit, Bool.or_eq_true,
    Bool.and_eq_true, decide_eq_true_eq, ge_iff_le, UInt32.le_iff_toNat_le] at h
  simp only [IsAscii, Char.toNat]
  have hZ : 'Z'.val.toNat = 90 := rfl
  have hz : 'z'.val.toNat = 122 := rfl
  have h9 : '9'.val.toNat = 57 := rfl
  omega

theorem isAscii_of_isDigit (h : c.isDigit = true) : IsAscii c :=
  isAscii_of_isAlphanum (by rw [Char.isAlphanum, h, Bool.or_true])

theorem isDigit_toUInt8 (h : c.isDigit = true) : isDigit c.toUInt8 = true := by
  have hall : ∀ n < 128, (Char.ofNat n).isDigit = true → isDigit (Char.ofNat n).toUInt8 = true := by
    decide +kernel
  exact forall_isAscii (p := fun c => c.isDigit = true → isDigit c.toUInt8 = true) hall
    (isAscii_of_isDigit h) h

theorem digitValue_toUInt8 (h : c.isDigit = true) : c.toUInt8.toNat - '0'.toNat = digitValue c := by
  have hall : ∀ n < 128, (Char.ofNat n).isDigit = true →
      (Char.ofNat n).toUInt8.toNat - '0'.toNat = digitValue (Char.ofNat n) := by
    decide +kernel
  exact forall_isAscii
    (p := fun c => c.isDigit = true → c.toUInt8.toNat - '0'.toNat = digitValue c) hall
    (isAscii_of_isDigit h) h

theorem bytes_eq_map (h : ∀ c ∈ text, IsAscii c) : bytes text = text.map Char.toUInt8 := by
  induction text with
  | nil => rfl
  | cons c text ih =>
    rw [List.forall_mem_cons] at h
    rw [bytes_cons_of_isAscii h.1, ih h.2, List.map_cons]

/-! ## Numbers -/

def IsSignText (sign : List Char) : Prop :=
  sign = [] ∨ sign = ['-'] ∨ sign = ['+']

/-- The characters of a number behind its sign. -/
def isNumeralChar (c : Char) : Bool :=
  c.isDigit || ".eE-+".toList.contains c

/-- A number behind its sign. -/
structure IsNumeral (digits : List Char) : Prop where
  starts : ∃ c rest, digits = c :: rest ∧ c.isDigit = true
  chars : ∀ c ∈ digits, isNumeralChar c = true

theorem isNumberByte_toUInt8 (h : isNumeralChar c = true) :
    IsAscii c ∧ isNumberByte c.toUInt8 = true := by
  have hascii : IsAscii c := by
    rw [isNumeralChar, Bool.or_eq_true] at h
    rcases h with h | h
    · exact isAscii_of_isDigit h
    · have hsigns : ".eE-+".toList.all (fun c => decide (IsAscii c)) = true := by decide
      exact of_decide_eq_true (List.all_eq_true.1 hsigns c (List.contains_iff_mem.1 h))
  have hall : ∀ n < 128, isNumeralChar (Char.ofNat n) = true →
      isNumberByte (Char.ofNat n).toUInt8 = true := by
    decide +kernel
  exact ⟨hascii, forall_isAscii
    (p := fun c => isNumeralChar c = true → isNumberByte c.toUInt8 = true) hall hascii h⟩

theorem isNumberByte_of_delimited (h : Delimited rest) :
    rest.takeWhile isNumberByte = [] ∧ rest.dropWhile isNumberByte = rest := by
  cases rest with
  | nil => exact ⟨rfl, rfl⟩
  | cons b rest =>
    have hb : isNumberByte b = false := by
      rcases h b rfl with hws | rfl | rfl | rfl | rfl | rfl
      · simp only [isWs, Bool.or_eq_true, beq_iff_eq] at hws
        rcases hws with ((rfl | rfl) | rfl) | rfl <;> decide
      all_goals decide
    exact ⟨List.takeWhile_cons_of_neg (by simp [hb]), List.dropWhile_cons_of_neg (by simp [hb])⟩

theorem isNumberByte_of_mem_bytes (h : IsNumeral digits) :
    ∀ b ∈ bytes digits, isNumberByte b = true := by
  intro b hb
  obtain ⟨c, hc, hb⟩ := List.mem_flatMap.1 hb
  obtain ⟨hascii, hnumber⟩ := isNumberByte_toUInt8 (h.chars c hc)
  rw [Library.utf8EncodeChar_eq_singleton hascii, List.mem_singleton] at hb
  rwa [hb]

theorem bytes_numeral (h : IsNumeral digits) :
    ∃ b tail, bytes digits = b :: tail ∧ isDigit b = true := by
  obtain ⟨c, rest, rfl, hc⟩ := h.starts
  exact ⟨c.toUInt8, bytes rest, bytes_cons_of_isAscii (isAscii_of_isDigit hc) _, isDigit_toUInt8 hc⟩

theorem ne_of_isNumberStart (h : isNumberStart b = true) : isQuote b = false ∧
    b ≠ '['.toUInt8 ∧ b ≠ '{'.toUInt8 ∧ b ≠ '('.toUInt8 ∧ isWs b = false := by
  have hall : ∀ n < 256, isNumberStart (UInt8.ofNat n) = true → isQuote (UInt8.ofNat n) = false ∧
      UInt8.ofNat n ≠ '['.toUInt8 ∧ UInt8.ofNat n ≠ '{'.toUInt8 ∧ UInt8.ofNat n ≠ '('.toUInt8 ∧
        isWs (UInt8.ofNat n) = false := by
    decide +kernel
  have hb := hall b.toNat b.toNat_lt
  rw [UInt8.ofNat_toNat] at hb
  exact hb h

theorem parseValue_numberStart {fuel : Nat} (h : isNumberStart b = true) :
    Parser.parseValue (fuel + 1) (b :: rest) = Parser.parseNumber (b :: rest) := by
  obtain ⟨hquote, hbracket, hbrace, hparen, hws⟩ := ne_of_isNumberStart h
  rw [Parser.parseValue, skipWs_cons hws]
  dsimp only
  rw [if_neg (by simp [hquote]), if_neg hbracket, if_neg fun h => hbrace h.1, if_neg hbrace,
    if_neg hparen, if_pos h]

theorem digit_ne_sign (h : isDigit b = true) : b ≠ '-'.toUInt8 ∧ b ≠ '+'.toUInt8 := by
  constructor
  · rintro rfl
    exact absurd h (by decide)
  · rintro rfl
    exact absurd h (by decide)

theorem parseValue_number (hsign : IsSignText sign) (hdigits : IsNumeral digits) (fuel : Nat)
    (hrest : Delimited rest) :
    Parser.parseValue (fuel + 1) (bytes (sign ++ digits) ++ rest) =
      (Parser.number (bytes sign) (bytes digits)).map fun read => (read, rest) := by
  have hbytes := isNumberByte_of_mem_bytes hdigits
  obtain ⟨htake, hdrop⟩ := isNumberByte_of_delimited hrest
  have hnumber : (bytes digits ++ rest).takeWhile isNumberByte = bytes digits ∧
      (bytes digits ++ rest).dropWhile isNumberByte = rest := by
    rw [List.takeWhile_append_of_pos hbytes, List.dropWhile_append_of_pos hbytes, htake, hdrop,
      List.append_nil]
    exact ⟨rfl, rfl⟩
  obtain ⟨b, tail, hb, hdigit⟩ := bytes_numeral hdigits
  rw [bytes_append, List.append_assoc]
  rcases hsign with rfl | rfl | rfl
  · obtain ⟨hminus, hplus⟩ := digit_ne_sign hdigit
    have hstart : isNumberStart b = true := by rw [isNumberStart, hdigit, Bool.or_true]
    rw [bytes_nil, List.nil_append]
    have hparse : Parser.parseValue (fuel + 1) (bytes digits ++ rest) =
        Parser.parseNumber (bytes digits ++ rest) := by
      rw [hb, List.cons_append]
      exact parseValue_numberStart hstart
    have hhead : (bytes digits ++ rest).head? = some b := by rw [hb]; rfl
    rw [hparse, Parser.parseNumber, hhead, if_neg (by simp [hminus, hplus])]
    simp only [List.length_nil, List.drop_zero, hnumber]
  · change Parser.parseValue (fuel + 1) ('-'.toUInt8 :: (bytes digits ++ rest)) = _
    rw [parseValue_numberStart (by decide), Parser.parseNumber, List.head?_cons,
      if_pos (Or.inl rfl)]
    simp only [List.take_succ_cons, List.take_zero, List.length_singleton, List.drop_succ_cons,
      List.drop_zero, hnumber]
    rfl
  · change Parser.parseValue (fuel + 1) ('+'.toUInt8 :: (bytes digits ++ rest)) = _
    rw [parseValue_numberStart (by decide), Parser.parseNumber, List.head?_cons,
      if_pos (Or.inr rfl)]
    simp only [List.take_succ_cons, List.take_zero, List.length_singleton, List.drop_succ_cons,
      List.drop_zero, hnumber]
    rfl

def signed (sign : List Char) (magnitude : Nat) : Int :=
  if sign = ['-'] then -(magnitude : Int) else magnitude

/-- The integer that a sign and digits write. -/
def integerValue (sign digits : List Char) : Int :=
  signed sign (numeral 10 digits)

/-- Digits with an optional sign, in the range of an `i64`. -/
structure IsInteger (sign digits : List Char) : Prop where
  sign_ok : IsSignText sign
  ne_nil : digits ≠ []
  isDigit : ∀ c ∈ digits, c.isDigit = true
  range : -2 ^ 63 ≤ integerValue sign digits ∧ integerValue sign digits < 2 ^ 63

/-- A number that is no integer, as the grammar of `f64` has it. -/
structure IsDecimal (sign digits : List Char) : Prop where
  sign_ok : IsSignText sign
  numeral : IsNumeral digits
  notInteger : ∃ c ∈ digits, c.isDigit = false
  isF64 : Parser.isF64 (bytes (sign ++ digits)) = true

theorem IsInteger.isNumeral (h : IsInteger sign digits) : IsNumeral digits where
  starts := by
    obtain ⟨c, rest, rfl⟩ := List.exists_cons_of_ne_nil h.ne_nil
    exact ⟨c, rest, rfl, h.isDigit c List.mem_cons_self⟩
  chars := by
    intro c hc
    rw [isNumeralChar, h.isDigit c hc, Bool.true_or]

theorem foldl_bytes (h : ∀ c ∈ digits, c.isDigit = true) (n : Nat) :
    (bytes digits).foldl (fun n b => 10 * n + (b.toNat - '0'.toNat)) n =
      digits.foldl (fun n c => 10 * n + digitValue c) n := by
  rw [bytes_eq_map fun c hc => isAscii_of_isDigit (h c hc), List.foldl_map]
  induction digits generalizing n with
  | nil => rfl
  | cons c digits ih =>
    rw [List.forall_mem_cons] at h
    rw [List.foldl_cons, List.foldl_cons, digitValue_toUInt8 h.1]
    exact ih h.2 _

theorem isFloatByte_of_isDigit (h : isDigit b = true) : isFloatByte b = false := by
  have hall : ∀ n < 256, isDigit (UInt8.ofNat n) = true → isFloatByte (UInt8.ofNat n) = false := by
    decide +kernel
  have hb := hall b.toNat b.toNat_lt
  rw [UInt8.ofNat_toNat] at hb
  exact hb h

theorem bytes_ne_nil (h : text ≠ []) : bytes text ≠ [] := by
  obtain ⟨c, rest, rfl⟩ := List.exists_cons_of_ne_nil h
  rw [bytes_cons]
  exact List.append_ne_nil_of_left_ne_nil (Library.utf8EncodeChar_ne_nil c) _

theorem parseI64_eq {digits : Bytes} (hsign : IsSignText sign) (hne : digits ≠ [])
    (hdigits : digits.all isDigit = true)
    (hrange : -2 ^ 63 ≤ signed sign (digits.foldl (fun n b => 10 * n + (b.toNat - '0'.toNat)) 0) ∧
      signed sign (digits.foldl (fun n b => 10 * n + (b.toNat - '0'.toNat)) 0) < 2 ^ 63) :
    Parser.parseI64 (bytes sign ++ digits) =
      some (signed sign (digits.foldl (fun n b => 10 * n + (b.toNat - '0'.toNat)) 0)) := by
  obtain ⟨b, tail, rfl⟩ := List.exists_cons_of_ne_nil hne
  obtain ⟨hminus, hplus⟩ := digit_ne_sign (List.all_eq_true.1 hdigits b List.mem_cons_self)
  rcases hsign with rfl | rfl | rfl
  · have hnegative : (some b == some '-'.toUInt8) = false := by simpa using hminus
    have hpositive : (some b == some '+'.toUInt8) = false := by simpa using hplus
    rw [bytes_nil, List.nil_append, Parser.parseI64, List.head?_cons, hnegative, hpositive]
    exact (if_pos ⟨hne, hdigits⟩).trans (if_pos hrange)
  · exact (if_pos ⟨hne, hdigits⟩).trans (if_pos hrange)
  · exact (if_pos ⟨hne, hdigits⟩).trans (if_pos hrange)

theorem number_integer (h : IsInteger sign digits) :
    Parser.number (bytes sign) (bytes digits) = .ok (.int (integerValue sign digits)) := by
  have hascii : ∀ c ∈ digits, IsAscii c := fun c hc => isAscii_of_isDigit (h.isDigit c hc)
  have hdigits : ∀ b ∈ bytes digits, isDigit b = true := by
    rw [bytes_eq_map hascii, List.forall_mem_map]
    exact fun c hc => isDigit_toUInt8 (h.isDigit c hc)
  have hne := bytes_ne_nil h.ne_nil
  have hfloat : (bytes digits).any isFloatByte = false :=
    List.any_eq_false.2 fun b hb => by simp [isFloatByte_of_isDigit (hdigits b hb)]
  have hall : (bytes digits).all isDigit = true := List.all_eq_true.2 hdigits
  have hmagnitude : signed sign ((bytes digits).foldl _ 0) = integerValue sign digits :=
    congrArg (signed sign) (foldl_bytes h.isDigit 0)
  have hnumber : Parser.parseI64 (bytes sign ++ bytes digits) =
      some (integerValue sign digits) := by
    rw [← hmagnitude]
    exact parseI64_eq h.sign_ok hne hall (hmagnitude ▸ h.range)
  rw [Parser.number, if_neg hne, hfloat, if_neg Bool.false_ne_true, hnumber]

theorem number_decimal (h : IsDecimal sign digits) :
    Parser.number (bytes sign) (bytes digits) = .ok (.float (String.ofList (sign ++ digits))) := by
  obtain ⟨c, hc, hdigit⟩ := h.notInteger
  have hchar := h.numeral.chars c hc
  have hfloat : (bytes digits).any isFloatByte = true := by
    rw [isNumeralChar, hdigit, Bool.false_or] at hchar
    have hsigns : ".eE-+".toList.all
        (fun c => decide (IsAscii c) && isFloatByte c.toUInt8) = true := by decide
    have hbyte := List.all_eq_true.1 hsigns c (List.contains_iff_mem.1 hchar)
    rw [Bool.and_eq_true, decide_eq_true_eq] at hbyte
    refine List.any_eq_true.2 ⟨c.toUInt8, List.mem_flatMap.2 ⟨c, hc, ?_⟩, hbyte.2⟩
    rw [Library.utf8EncodeChar_eq_singleton hbyte.1]
    exact List.mem_singleton_self _
  have hascii : ∀ c ∈ sign ++ digits, IsAscii c := by
    intro c hc
    rcases List.mem_append.1 hc with hc | hc
    · rcases h.sign_ok with rfl | rfl | rfl
      · cases hc
      · obtain rfl := List.mem_singleton.1 hc
        decide
      · obtain rfl := List.mem_singleton.1 hc
        decide
    · exact (isNumberByte_toUInt8 (h.numeral.chars c hc)).1
  have hne : digits ≠ [] := List.ne_nil_of_mem hc
  have hf64 := h.isF64
  rw [bytes_append] at hf64
  rw [Parser.number, if_neg (bytes_ne_nil hne), if_pos hfloat, if_pos hf64, ← bytes_append,
    asciiText, map_charFrom_bytes hascii]

/-! ## Scalars -/

def Scalar.ofNumber (sign digits : List Char) (value : Lit) (hsign : IsSignText sign)
    (hdigits : IsNumeral digits)
    (hvalue : Parser.number (bytes sign) (bytes digits) = .ok value) : Scalar where
  text := sign ++ digits
  value := value
  starts := by
    obtain ⟨b, tail, hb, hdigit⟩ := bytes_numeral hdigits
    rw [bytes_append]
    rcases hsign with rfl | rfl | rfl
    · exact ⟨b, tail, hb, Or.inl (by rw [isNumberStart, hdigit, Bool.or_true])⟩
    · exact ⟨_, _, rfl, Or.inl (by decide)⟩
    · exact ⟨_, _, rfl, Or.inl (by decide)⟩
  reads := by
    intro fuel rest hrest
    rw [parseValue_number hsign hdigits fuel hrest, hvalue]
    rfl

def Scalar.integer {sign digits : List Char} (h : IsInteger sign digits) : Scalar :=
  .ofNumber sign digits (.int (integerValue sign digits)) h.sign_ok h.isNumeral (number_integer h)

def Scalar.decimal {sign digits : List Char} (h : IsDecimal sign digits) : Scalar :=
  .ofNumber sign digits (.float (String.ofList (sign ++ digits))) h.sign_ok h.numeral
    (number_decimal h)

theorem Name.isAscii (name : Name) : ∀ c ∈ name.text, IsAscii c := by
  intro c hc
  rcases List.mem_cons.1 hc with rfl | hc
  · exact name.first_ok.1
  · exact (name.others_ok c hc).1

theorem Name.bytes_text (name : Name) :
    ∃ b tail, bytes name.text = b :: tail ∧ isIdentStart b = true ∧
      ∀ c ∈ tail, isIdentByte c = true := by
  refine ⟨name.first.toUInt8, bytes name.others, bytes_cons_of_isAscii name.first_ok.1 _,
    name.first_ok.2, ?_⟩
  intro b hb
  obtain ⟨c, hc, hb⟩ := List.mem_flatMap.1 hb
  obtain ⟨hascii, hident⟩ := name.others_ok c hc
  rw [Library.utf8EncodeChar_eq_singleton hascii, List.mem_singleton] at hb
  rwa [hb]

theorem ident_of_delimited (h : Delimited rest) :
    rest.takeWhile isIdentByte = [] ∧ rest.dropWhile isIdentByte = rest ∧
      rest.head? ≠ some '('.toUInt8 := by
  cases rest with
  | nil => exact ⟨rfl, rfl, by simp⟩
  | cons b rest =>
    have hb : isIdentByte b = false ∧ b ≠ '('.toUInt8 := by
      rcases h b rfl with hws | rfl | rfl | rfl | rfl | rfl
      · simp only [isWs, Bool.or_eq_true, beq_iff_eq] at hws
        rcases hws with ((rfl | rfl) | rfl) | rfl <;> decide
      all_goals decide
    refine ⟨List.takeWhile_cons_of_neg (by simp [hb.1]),
      List.dropWhile_cons_of_neg (by simp [hb.1]), ?_⟩
    rw [List.head?_cons, ne_eq, Option.some.injEq]
    exact hb.2

def wordValue (text : List Char) : Lit :=
  (Parser.word (String.ofList text) []).1

theorem word_eq {name : String} {rest : Bytes} (h : rest.head? ≠ some '('.toUInt8) :
    Parser.word name rest = ((Parser.word name []).1, rest) := by
  unfold Parser.word
  rw [if_neg h, List.head?_nil, if_neg (Option.some_ne_none _).symm]
  split_ifs <;> rfl

theorem parseValue_word (name : Name) (fuel : Nat) (hrest : Delimited rest) :
    Parser.parseValue (fuel + 1) (bytes name.text ++ rest) = .ok (wordValue name.text, rest) := by
  obtain ⟨b, tail, hb, hstart, htail⟩ := name.bytes_text
  obtain ⟨htake, hdrop, hparen⟩ := ident_of_delimited hrest
  obtain ⟨hquote, hbracket, hbrace, hopen, hnumber⟩ := ne_of_isIdentStart hstart
  have hws : isWs b = false := (show Opens b from
    .inr (.inr (.inr (.inr (.inr hstart))))).ne.1
  have hident : Parser.parseIdent (b :: (tail ++ rest)) = some (String.ofList name.text, rest) := by
    rw [Parser.parseIdent, if_pos hstart, List.takeWhile_append_of_pos htail,
      List.dropWhile_append_of_pos htail, htake, hdrop, List.append_nil, ← hb, asciiText,
      map_charFrom_bytes name.isAscii]
  rw [hb, List.cons_append, Parser.parseValue, skipWs_cons hws]
  dsimp only
  rw [if_neg (by simp [hquote]), if_neg hbracket, if_neg fun h => hbrace h.1, if_neg hbrace,
    if_neg hopen, if_neg (by simp [hnumber]), hident]
  exact congrArg Except.ok (word_eq hparen)

def Scalar.word (name : Name) : Scalar where
  text := name.text
  value := wordValue name.text
  starts := by
    obtain ⟨b, tail, hb, hstart, -⟩ := name.bytes_text
    exact ⟨b, tail, hb, Or.inr (Or.inl hstart)⟩
  reads := fun fuel _ hrest => parseValue_word name fuel hrest

end PhloTransform.Dbt.PyLit
