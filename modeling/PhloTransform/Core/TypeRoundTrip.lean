import Mathlib.Data.List.TakeWhile
import PhloTransform.Core.TypeText

/-!
# Types read back from their text

A printed type is one text between matching brackets, so the parser takes its arguments apart
where the printer joined them.  Two things are lost: a time with a time zone is printed in
words the parser does not know, and a field of a row whose text has a space loses what stands
before the space.

Main results:

- Theorem `DataType.enclosed_text`: the brackets of a printed type match.
- Theorem `DataType.heads_text`: a printed type has a word for each of its nested types.
-/

namespace PhloTransform.Core

open Library (Enclosed Inside asciiLower occurrences splitTop)

namespace DataType

/-! ## The printed text -/

theorem text_array (inner : DataType) :
    (array inner).text = "ARRAY(".toList ++ inner.text ++ [')'] :=
  rfl

theorem text_map (key value : DataType) :
    (map key value).text = "MAP(".toList ++ key.text ++ ", ".toList ++ value.text ++ [')'] :=
  rfl

theorem text_row (fields : FieldTypes) :
    (row fields).text = "ROW(".toList ++ fields.text ++ [')'] :=
  rfl

theorem text_fields (first second : DataType) (rest : FieldTypes) :
    (FieldTypes.cons first (.cons second rest)).text =
      first.text ++ ", ".toList ++ (FieldTypes.cons second rest).text :=
  rfl

theorem lower_array (inner : DataType) : asciiLower (array inner).text =
    "array".toList ++ '(' :: (asciiLower inner.text ++ [')']) := by
  have hopen : asciiLower "ARRAY(".toList = "array".toList ++ ['('] := by decide
  have hclose : asciiLower [')'] = [')'] := by decide
  rw [text_array, Library.asciiLower_append, Library.asciiLower_append, hopen, hclose,
    List.append_assoc, List.append_assoc]
  rfl

theorem lower_map (key value : DataType) : asciiLower (map key value).text =
    "map".toList ++ '(' :: (asciiLower key.text ++ ',' :: ' ' :: asciiLower value.text ++
      [')']) := by
  have hopen : asciiLower "MAP(".toList = "map".toList ++ ['('] := by decide
  have hcomma : asciiLower ", ".toList = [',', ' '] := by decide
  have hclose : asciiLower [')'] = [')'] := by decide
  rw [text_map, Library.asciiLower_append, Library.asciiLower_append, Library.asciiLower_append,
    Library.asciiLower_append, hopen, hcomma, hclose, List.append_assoc, List.append_assoc,
    List.append_assoc, List.append_assoc, List.append_assoc]
  rfl

theorem lower_row (fields : FieldTypes) : asciiLower (row fields).text =
    "row".toList ++ '(' :: (asciiLower fields.text ++ [')']) := by
  have hopen : asciiLower "ROW(".toList = "row".toList ++ ['('] := by decide
  have hclose : asciiLower [')'] = [')'] := by decide
  rw [text_row, Library.asciiLower_append, Library.asciiLower_append, hopen, hclose,
    List.append_assoc, List.append_assoc]
  rfl

theorem lower_fields (first second : DataType) (rest : FieldTypes) :
    asciiLower (FieldTypes.cons first (.cons second rest)).text =
      asciiLower first.text ++ ',' :: ' ' :: asciiLower (FieldTypes.cons second rest).text := by
  have hcomma : asciiLower ", ".toList = [',', ' '] := by decide
  rw [text_fields, Library.asciiLower_append, Library.asciiLower_append, hcomma,
    List.append_assoc]
  rfl

end DataType

mutual

theorem DataType.enclosed_text (type : DataType) : Enclosed (asciiLower type.text) := by
  match type with
  | .array inner =>
    rw [DataType.lower_array]
    apply (Enclosed.plain (by decide)).append
    exact .bracket rfl rfl rfl (DataType.enclosed_text inner).inside
  | .map key value =>
    rw [DataType.lower_map]
    apply (Enclosed.plain (by decide)).append
    apply Enclosed.bracket rfl rfl rfl
    have hcomma : Inside [',', ' '] :=
      Inside.comma.append (Enclosed.plain (by decide)).inside
    have hboth := (DataType.enclosed_text key).inside.append
      (hcomma.append (DataType.enclosed_text value).inside)
    simpa using hboth
  | .row fields =>
    rw [DataType.lower_row]
    apply (Enclosed.plain (by decide)).append
    exact .bracket rfl rfl rfl (FieldTypes.inside_text fields)
  | .boolean | .tinyInt | .smallInt | .integer | .bigInt | .real | .double | .decimal
  | .varchar | .varbinary | .date | .time | .timestamp | .timestampTz | .unknown =>
    exact Enclosed.plain (by decide)

theorem FieldTypes.inside_text (fields : FieldTypes) : Inside (asciiLower fields.text) := by
  match fields with
  | .nil => exact Inside.nil
  | .cons first .nil => exact (DataType.enclosed_text first).inside
  | .cons first (.cons second rest) =>
    rw [DataType.lower_fields]
    have hcomma : Inside [',', ' '] :=
      Inside.comma.append (Enclosed.plain (by decide)).inside
    have hboth := (DataType.enclosed_text first).inside.append
      (hcomma.append (FieldTypes.inside_text (.cons second rest)))
    simpa using hboth

end

/-! ## Words of a printed type -/

theorem separator_notMem {c : Char} (hc : c = '(' ∨ c = ')' ∨ c = ',' ∨ c = ' ') :
    ∀ word ∈ DataType.nestingWords, c ∉ word := by
  rcases hc with rfl | rfl | rfl | rfl
  · decide
  · decide
  · decide
  · decide

theorem occurrences_separated {c : Char} (hc : c = '(' ∨ c = ')' ∨ c = ',' ∨ c = ' ')
    (x y : List Char) :
    occurrences DataType.nestingWords (x ++ c :: y) =
      occurrences DataType.nestingWords x + occurrences DataType.nestingWords y :=
  Library.occurrences_append_cons x y (separator_notMem hc) (by decide)

theorem occurrences_bracket (keyword inner : List Char) :
    occurrences DataType.nestingWords (keyword ++ '(' :: (inner ++ [')'])) =
      occurrences DataType.nestingWords keyword + occurrences DataType.nestingWords inner := by
  rw [occurrences_separated (by simp), occurrences_separated (by simp)]
  rfl

theorem occurrences_pair (x y : List Char) :
    occurrences DataType.nestingWords (x ++ ',' :: ' ' :: y) =
      occurrences DataType.nestingWords x + occurrences DataType.nestingWords y := by
  have hspace := occurrences_separated (c := ' ') (by simp) [] y
  rw [List.nil_append] at hspace
  rw [occurrences_separated (by simp), hspace]
  simp [occurrences]

mutual

/-- A printed type has a word for each of its nested types. -/
theorem DataType.heads_text (type : DataType) : DataType.heads type.text = type.nestings := by
  match type with
  | .array inner =>
    have hinner := DataType.heads_text inner
    have hword : occurrences DataType.nestingWords "array".toList = 1 := by decide
    rw [DataType.heads] at hinner ⊢
    rw [DataType.lower_array, occurrences_bracket, hinner, hword, DataType.nestings]
    omega
  | .map key value =>
    have hkey := DataType.heads_text key
    have hvalue := DataType.heads_text value
    have hword : occurrences DataType.nestingWords "map".toList = 1 := by decide
    rw [DataType.heads] at hkey hvalue ⊢
    rw [DataType.lower_map, occurrences_bracket, occurrences_pair, hkey, hvalue, hword,
      DataType.nestings]
    omega
  | .row fields =>
    have hfields := FieldTypes.heads_text fields
    have hword : occurrences DataType.nestingWords "row".toList = 1 := by decide
    rw [DataType.heads] at hfields ⊢
    rw [DataType.lower_row, occurrences_bracket, hfields, hword, DataType.nestings]
    omega
  | .boolean | .tinyInt | .smallInt | .integer | .bigInt | .real | .double | .decimal
  | .varchar | .varbinary | .date | .time | .timestamp | .timestampTz | .unknown =>
    decide

theorem FieldTypes.heads_text (fields : FieldTypes) :
    DataType.heads fields.text = fields.nestings := by
  match fields with
  | .nil => rfl
  | .cons first .nil =>
    have hfirst := DataType.heads_text first
    rw [FieldTypes.nestings, FieldTypes.nestings, Nat.add_zero]
    exact hfirst
  | .cons first (.cons second rest) =>
    have hfirst := DataType.heads_text first
    have hrest := FieldTypes.heads_text (.cons second rest)
    rw [DataType.heads] at hfirst hrest ⊢
    rw [DataType.lower_fields, occurrences_pair, hfirst, hrest]
    rfl

end

namespace DataType

variable {keyword : List Char}

/-! ## Reading a printed type -/

theorem trim_eq_self_of_ends {value : List Char} (hhead : ∀ c ∈ value.head?, isWhitespace c = false)
    (hlast : ∀ c ∈ value.getLast?, isWhitespace c = false) : trim value = value := by
  have hkeep : ∀ l : List Char, (∀ c ∈ l.head?, isWhitespace c = false) →
      l.dropWhile isWhitespace = l := by
    intro l hl
    cases l with
    | nil => rfl
    | cons c l => rw [List.dropWhile_cons_of_neg (by simp [hl c (by simp)])]
  rw [trim, hkeep value hhead, hkeep value.reverse (by simpa using hlast), List.reverse_reverse]

theorem trim_bracket (hkeyword : keyword ∈ nestingWords) (inner : List Char) :
    trim (keyword ++ '(' :: (inner ++ [')'])) = keyword ++ '(' :: (inner ++ [')']) := by
  apply trim_eq_self_of_ends
  · intro c hc
    simp only [nestingWords, List.mem_cons, List.not_mem_nil, or_false] at hkeyword
    rcases hkeyword with rfl | rfl | rfl
    · obtain rfl : 'a' = c := Option.some.inj hc
      decide
    · obtain rfl : 'm' = c := Option.some.inj hc
      decide
    · obtain rfl : 'r' = c := Option.some.inj hc
      decide
  · intro c hc
    have hlast : (keyword ++ '(' :: (inner ++ [')'])).getLast? = some ')' := by
      rw [← List.cons_append, ← List.append_assoc, List.getLast?_append]
      rfl
    rw [hlast] at hc
    cases hc
    decide

theorem trim_text (type : DataType) : trim (asciiLower type.text) = asciiLower type.text := by
  match type with
  | .array inner =>
    rw [lower_array]
    exact trim_bracket (by simp [nestingWords]) _
  | .map key value =>
    rw [lower_map]
    exact trim_bracket (by simp [nestingWords]) _
  | .row fields =>
    rw [lower_row]
    exact trim_bracket (by simp [nestingWords]) _
  | .boolean | .tinyInt | .smallInt | .integer | .bigInt | .real | .double | .decimal
  | .varchar | .varbinary | .date | .time | .timestamp | .timestampTz | .unknown =>
    decide

theorem lower_text_ne_nil (type : DataType) : asciiLower type.text ≠ [] := by
  match type with
  | .array inner =>
    rw [lower_array]
    simp
  | .map key value =>
    rw [lower_map]
    simp
  | .row fields =>
    rw [lower_row]
    simp
  | .boolean | .tinyInt | .smallInt | .integer | .bigInt | .real | .double | .decimal
  | .varchar | .varbinary | .date | .time | .timestamp | .timestampTz | .unknown =>
    decide

theorem typeArguments_bracket (hkeyword : asciiLower keyword = keyword) (inner : List Char) :
    typeArguments (keyword ++ '(' :: (inner ++ [')'])) keyword =
      some (splitTop trim 0 [] (asciiLower inner)) := by
  have hopen : asciiLower ('(' :: (inner ++ [')'])) = '(' :: (asciiLower inner ++ [')']) := by
    rw [← List.singleton_append, Library.asciiLower_append, Library.asciiLower_append]
    rfl
  have hprefix : stripPrefix keyword (asciiLower (keyword ++ '(' :: (inner ++ [')']))) =
      some ('(' :: (asciiLower inner ++ [')'])) := by
    rw [Library.asciiLower_append, hkeyword, hopen, stripPrefix,
      if_pos (List.isPrefixOf_iff_prefix.2 (List.prefix_append _ _)), List.drop_left]
  have hblank : ('(' :: (asciiLower inner ++ [')'])).dropWhile isWhitespace =
      '(' :: (asciiLower inner ++ [')']) := List.dropWhile_cons_of_neg (by decide)
  have hsuffix : stripSuffix ')' (asciiLower inner ++ [')']) = some (asciiLower inner) := by
    rw [stripSuffix, if_pos (by simp), List.dropLast_concat]
  simp only [typeArguments, hprefix, hblank, hsuffix, Option.map_some]

theorem isWhitespace_toLower (c : Char) : isWhitespace c.toLower = isWhitespace c := by
  by_cases h : c.val ≥ 'A'.val ∧ c.val ≤ 'Z'.val
  · have hlow := UInt32.le_iff_toNat_le.1 h.1
    have hhigh := UInt32.le_iff_toNat_le.1 h.2
    have hA : 'A'.val.toNat = 65 := rfl
    have hZ : 'Z'.val.toNat = 90 := rfl
    rw [hA] at hlow
    rw [hZ] at hhigh
    have hval : c.toLower.val.toNat = c.val.toNat + 32 := by
      have hshift : ('a'.val - 'A'.val).toNat = 32 := rfl
      rw [Library.val_toLower h, UInt32.toNat_add, hshift]
      omega
    have hletter : ∀ d : Char, 65 ≤ d.val.toNat → d.val.toNat ≤ 122 → isWhitespace d = false := by
      intro d hd hd'
      change 65 ≤ d.toNat at hd
      change d.toNat ≤ 122 at hd'
      simp only [isWhitespace, Bool.or_eq_false_iff, Bool.and_eq_false_iff,
        decide_eq_false_iff_not, beq_eq_false_iff_ne]
      omega
    rw [hletter c (by omega) (by omega), hletter c.toLower (by omega) (by omega)]
  · rw [Library.toLower_of_not h]

theorem trim_asciiLower (value : List Char) :
    trim (asciiLower value) = asciiLower (trim value) := by
  have hdrop : ∀ x : List Char, (asciiLower x).dropWhile isWhitespace =
      asciiLower (x.dropWhile isWhitespace) := by
    intro x
    rw [asciiLower, List.dropWhile_map]
    congr 2
    funext c
    exact isWhitespace_toLower c
  have hreverse : ∀ x : List Char, (asciiLower x).reverse = asciiLower x.reverse := by
    intro x
    rw [asciiLower, asciiLower, List.map_reverse]
  rw [trim, hdrop, hreverse, hdrop, hreverse, trim]

theorem parse_asciiLower (value : List Char) : parse (asciiLower value) = parse value := by
  have harguments : ∀ keyword, typeArguments (asciiLower (trim value)) keyword =
      typeArguments (trim value) keyword := by
    intro keyword
    rw [typeArguments, Library.asciiLower_asciiLower, typeArguments]
  rw [parse_eq, parse_eq value, parseStep, parseStep, trim_asciiLower,
    Library.asciiLower_asciiLower, harguments, harguments, harguments]

theorem splitTop_text (type : DataType) (current : List Char)
    (hblank : trim (current ++ asciiLower type.text) = asciiLower type.text) :
    splitTop trim 0 current (asciiLower type.text) = [asciiLower type.text] := by
  have hne : trim (current ++ asciiLower type.text) ≠ [] := by
    rw [hblank]
    exact lower_text_ne_nil type
  rw [(enclosed_text type).splitTop_eq trim 0 current hne, hblank]

theorem trim_blank_text (type : DataType) :
    trim ([' '] ++ asciiLower type.text) = asciiLower type.text := by
  have hblank : ∀ x : List Char, trim ([' '] ++ x) = trim x := by
    intro x
    rw [trim, List.singleton_append, List.dropWhile_cons_of_pos (by decide), ← trim]
  rw [hblank, trim_text]

theorem splitTop_pair (first : DataType) (current rest : List Char)
    (hblank : trim (current ++ asciiLower first.text) = asciiLower first.text) :
    splitTop trim 0 current (asciiLower first.text ++ ',' :: ' ' :: rest) =
      asciiLower first.text :: splitTop trim 0 [' '] rest := by
  rw [(enclosed_text first).splitTop_comma, hblank]
  rfl

theorem splitTop_fields (fields : FieldTypes) (current : List Char)
    (hblank : ∀ type : DataType, trim (current ++ asciiLower type.text) = asciiLower type.text)
    (hempty : trim current = []) :
    splitTop trim 0 current (asciiLower fields.text) =
      fields.toList.map fun type => asciiLower type.text := by
  match fields with
  | .nil =>
    have hnil : asciiLower FieldTypes.nil.text = [] := rfl
    rw [hnil, splitTop, hempty]
    rfl
  | .cons first .nil => exact splitTop_text first current (hblank first)
  | .cons first (.cons second rest) =>
    rw [lower_fields, splitTop_pair first current _ (hblank first),
      splitTop_fields (.cons second rest) [' '] trim_blank_text (by decide)]
    rfl

theorem parse_array (inner : DataType) :
    parse (asciiLower (array inner).text) = array (parse (asciiLower inner.text)) := by
  rw [parse_eq, lower_array, parseStep, trim_bracket (by simp [nestingWords]),
    typeArguments_bracket (by decide), Library.asciiLower_asciiLower,
    splitTop_text inner [] (trim_text inner)]
  rfl

theorem parse_map (key value : DataType) :
    parse (asciiLower (map key value).text) =
      map (parse (asciiLower key.text)) (parse (asciiLower value.text)) := by
  have hlower : asciiLower (asciiLower key.text ++ ',' :: ' ' :: asciiLower value.text) =
      asciiLower key.text ++ ',' :: ' ' :: asciiLower value.text := by
    rw [Library.asciiLower_append, Library.asciiLower_asciiLower]
    congr 1
    have hcomma : asciiLower ([',', ' '] ++ asciiLower value.text) =
        asciiLower [',', ' '] ++ asciiLower value.text := by
      rw [Library.asciiLower_append, Library.asciiLower_asciiLower]
    exact hcomma
  rw [parse_eq, lower_map, parseStep, trim_bracket (by simp [nestingWords]),
    typeArguments_bracket (by decide), hlower, splitTop_pair key [] _ (trim_text key),
    splitTop_text value [' '] (trim_blank_text value)]
  rfl

theorem lower_lower_fields (fields : FieldTypes) :
    asciiLower (asciiLower fields.text) = asciiLower fields.text :=
  Library.asciiLower_asciiLower _

theorem parse_row (fields : FieldTypes) :
    parse (asciiLower (row fields).text) =
      row (.ofList (fields.toList.map fun type => parse (afterSpace (asciiLower type.text)))) := by
  rw [parse_eq, lower_row, parseStep, trim_bracket (by simp [nestingWords]),
    typeArguments_bracket (by decide), lower_lower_fields,
    splitTop_fields fields [] trim_text (by decide)]
  simp only [Option.getD_some, List.map_map]
  rfl

/-! ## Types that are read back -/

end DataType

mutual

def DataType.oneWord : DataType → Bool
  | .timestampTz => false
  | .array inner => inner.oneWord
  | .map _ _ => false
  | .row fields => fields.oneWord
  | _ => true

def FieldTypes.oneWord : FieldTypes → Bool
  | .nil => true
  | .cons first .nil => first.oneWord
  | .cons _ (.cons _ _) => false

end

mutual

/-- There is no time zone in the type, and every field of a row is printed without a space. -/
def DataType.readsBack : DataType → Bool
  | .timestampTz => false
  | .array inner => inner.readsBack
  | .map key value => key.readsBack && value.readsBack
  | .row fields => fields.readsBack
  | _ => true

def FieldTypes.readsBack : FieldTypes → Bool
  | .nil => true
  | .cons first rest => first.readsBack && first.oneWord && rest.readsBack

end

mutual

theorem DataType.space_mem_text_iff (type : DataType) :
    ' ' ∈ asciiLower type.text ↔ type.oneWord = false := by
  match type with
  | .array inner =>
    have hinner := DataType.space_mem_text_iff inner
    rw [DataType.lower_array, DataType.oneWord, ← hinner]
    simp
  | .map key value =>
    rw [DataType.lower_map, DataType.oneWord]
    simp
  | .row fields =>
    have hfields := FieldTypes.space_mem_text_iff fields
    rw [DataType.lower_row, DataType.oneWord, ← hfields]
    simp
  | .boolean | .tinyInt | .smallInt | .integer | .bigInt | .real | .double | .decimal
  | .varchar | .varbinary | .date | .time | .timestamp | .timestampTz | .unknown =>
    decide

theorem FieldTypes.space_mem_text_iff (fields : FieldTypes) :
    ' ' ∈ asciiLower fields.text ↔ fields.oneWord = false := by
  match fields with
  | .nil => decide
  | .cons first .nil =>
    have hfirst := DataType.space_mem_text_iff first
    exact hfirst
  | .cons first (.cons second rest) =>
    rw [DataType.lower_fields, FieldTypes.oneWord]
    simp

end

namespace DataType

theorem afterSpace_eq_self {field : List Char} (h : ' ' ∉ field) : afterSpace field = field := by
  have hall : field.dropWhile (fun c => c != ' ') = [] := by
    rw [List.dropWhile_eq_nil_iff]
    intro c hc
    rw [bne_iff_ne]
    rintro rfl
    exact h hc
  rw [afterSpace, hall]

/-- The first space of a nested type stands behind its keyword. -/
theorem afterSpace_bracket_isInfix {keyword rest : List Char} (hkeyword : ' ' ∉ keyword)
    (hrest : ' ' ∈ rest) : afterSpace (keyword ++ '(' :: rest) <:+: rest := by
  have hskip : (keyword ++ '(' :: rest).dropWhile (fun c => c != ' ') =
      rest.dropWhile (fun c => c != ' ') := by
    have hopen : ∀ c ∈ keyword ++ ['('], (c != ' ') = true := by
      intro c hc
      rw [bne_iff_ne]
      rintro rfl
      simp [hkeyword] at hc
    have happend : (keyword ++ ['('] ++ rest).dropWhile (fun c => c != ' ') =
        rest.dropWhile (fun c => c != ' ') := List.dropWhile_append_of_pos hopen
    rwa [List.append_assoc, List.singleton_append] at happend
  have hsuffix : rest.dropWhile (fun c => c != ' ') <:+ rest := List.dropWhile_suffix _
  rw [afterSpace, hskip]
  split
  · next c tail h =>
      rw [h] at hsuffix
      exact ((List.suffix_cons c tail).trans hsuffix).isInfix
  · next h =>
      rw [List.dropWhile_eq_nil_iff] at h
      exact absurd (h ' ' hrest) (by decide)

/-- Read from behind its first space, a nested type loses its outermost word. -/
theorem parse_afterSpace_ne_of_bracket {type : DataType} {keyword rest : List Char}
    (hkeyword : keyword ∈ nestingWords) (htext : asciiLower type.text = keyword ++ '(' :: rest)
    (hspace : ' ' ∈ rest) : parse (afterSpace (asciiLower type.text)) ≠ type := by
  have hword : ' ' ∉ keyword := separator_notMem (by simp) keyword hkeyword
  have hpiece : afterSpace (asciiLower type.text) <:+: rest := by
    rw [htext]
    exact afterSpace_bracket_isInfix hword hspace
  have hrest : rest <:+: asciiLower type.text := ⟨keyword ++ ['('], [], by simp [htext]⟩
  have hlost : heads (afterSpace (asciiLower type.text)) ≤ occurrences nestingWords rest := by
    rw [heads, asciiLower_eq_of_isInfix (hpiece.trans hrest)]
    exact Library.occurrences_le_of_isInfix hpiece
  have hall : occurrences nestingWords keyword + occurrences nestingWords rest =
      type.nestings := by
    rw [← heads_text, heads, htext, occurrences_separated (by simp)]
  have hone := one_le_occurrences hkeyword
  have hfew := nestings_parse_le (afterSpace (asciiLower type.text))
  intro hback
  rw [hback] at hfew
  omega

theorem parse_afterSpace_ne {type : DataType} (h : type.oneWord = false) :
    parse (afterSpace (asciiLower type.text)) ≠ type := by
  have hspace := (space_mem_text_iff type).2 h
  match type with
  | .array inner =>
    have htext := lower_array inner
    apply parse_afterSpace_ne_of_bracket (by simp [nestingWords]) htext
    simpa [htext] using hspace
  | .map key value =>
    have htext := lower_map key value
    apply parse_afterSpace_ne_of_bracket (by simp [nestingWords]) htext
    simp
  | .row fields =>
    have htext := lower_row fields
    apply parse_afterSpace_ne_of_bracket (by simp [nestingWords]) htext
    simpa [htext] using hspace
  | .timestampTz => decide +kernel
  | .boolean | .tinyInt | .smallInt | .integer | .bigInt | .real | .double | .decimal
  | .varchar | .varbinary | .date | .time | .timestamp | .unknown =>
    cases h

end DataType

mutual

theorem DataType.parse_text_iff (type : DataType) :
    DataType.parse (asciiLower type.text) = type ↔ type.readsBack = true := by
  match type with
  | .array inner =>
    have hinner := DataType.parse_text_iff inner
    rw [DataType.parse_array, DataType.readsBack, ← hinner]
    simp
  | .map key value =>
    have hkey := DataType.parse_text_iff key
    have hvalue := DataType.parse_text_iff value
    rw [DataType.parse_map, DataType.readsBack, Bool.and_eq_true, ← hkey, ← hvalue]
    simp
  | .row fields =>
    have hfields := FieldTypes.parse_text_iff fields
    rw [DataType.parse_row, DataType.readsBack, ← hfields]
    simp
  | .boolean | .tinyInt | .smallInt | .integer | .bigInt | .real | .double | .decimal
  | .varchar | .varbinary | .date | .time | .timestamp | .timestampTz | .unknown =>
    decide +kernel

/-- The fields of a row are read back when each is one word. -/
theorem FieldTypes.parse_text_iff (fields : FieldTypes) :
    FieldTypes.ofList (fields.toList.map fun type =>
      DataType.parse (DataType.afterSpace (asciiLower type.text))) = fields ↔
        fields.readsBack = true := by
  match fields with
  | .nil => decide
  | .cons first rest =>
    have hrest := FieldTypes.parse_text_iff rest
    rw [FieldTypes.readsBack, Bool.and_eq_true, ← hrest]
    simp only [FieldTypes.toList, List.map_cons, FieldTypes.ofList, FieldTypes.cons.injEq]
    apply and_congr_left
    intro _
    cases hword : first.oneWord with
    | true =>
      have hfirst := DataType.parse_text_iff first
      have hspace : ' ' ∉ asciiLower first.text := by
        rw [DataType.space_mem_text_iff, hword]
        simp
      rw [DataType.afterSpace_eq_self hspace, hfirst, Bool.and_true]
    | false =>
      have hne := DataType.parse_afterSpace_ne hword
      simp [hne]

end

namespace DataType

/-- A type is read back as printed when it has no time zone and no field of a row in it is
printed with a space: no map and no row of two or more fields stands inside a row. -/
theorem parseTrino_display_iff (type : DataType) :
    parseTrino type.display = type ↔ type.readsBack = true := by
  rw [parseTrino, display, String.toList_ofList, ← parse_asciiLower]
  exact parse_text_iff type

/-- A time with a precision and a time zone is read, and printed without the precision it is
not read any more. -/
theorem timestampTz_not_read_back :
    ∃ value : String, parseTrino (parseTrino value).display ≠ parseTrino value := by
  refine ⟨"timestamp(6) with time zone", ?_⟩
  decide +kernel

end DataType
end PhloTransform.Core
