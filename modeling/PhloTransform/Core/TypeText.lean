import PhloTransform.Core.Identity
import PhloTransform.Core.Schema
import PhloTransform.Library.NestedText

/-!
# The text of a type

A type is printed in capital letters, the fields of a row without their names.  The parser
reads any spelling: it takes the arguments of a nested type apart at the commas outside of
brackets, and of a row's field it skips what stands before the first space, which is the
field's name in a spelling that has names.

Main results:

- Theorem `DataType.parse_eq`: the parser without its fuel.
- Theorem `DataType.nestings_parse_le`: the parser builds no more nested types than the text
  has words for them.
-/

namespace PhloTransform.Core

open Library (asciiLower occurrences splitTop)

namespace FieldTypes

def toList : FieldTypes → List DataType
  | nil => []
  | cons first rest => first :: rest.toList

def ofList : List DataType → FieldTypes
  | [] => nil
  | first :: rest => cons first (ofList rest)

end FieldTypes

/-! ## Printing -/

mutual

/-- `Display for DataType`, as characters. -/
def DataType.text : DataType → List Char
  | .boolean => "BOOLEAN".toList
  | .tinyInt => "TINYINT".toList
  | .smallInt => "SMALLINT".toList
  | .integer => "INTEGER".toList
  | .bigInt => "BIGINT".toList
  | .real => "REAL".toList
  | .double => "DOUBLE".toList
  | .decimal => "DECIMAL".toList
  | .varchar => "VARCHAR".toList
  | .varbinary => "VARBINARY".toList
  | .date => "DATE".toList
  | .time => "TIME".toList
  | .timestamp => "TIMESTAMP".toList
  | .timestampTz => "TIMESTAMP WITH TIME ZONE".toList
  | .array inner => "ARRAY(".toList ++ inner.text ++ [')']
  | .map key value => "MAP(".toList ++ key.text ++ ", ".toList ++ value.text ++ [')']
  | .row fields => "ROW(".toList ++ fields.text ++ [')']
  | .unknown => "UNKNOWN".toList

/-- The types of the fields, joined by a comma and a space. -/
def FieldTypes.text : FieldTypes → List Char
  | .nil => []
  | .cons first .nil => first.text
  | .cons first (.cons second rest) =>
    first.text ++ ", ".toList ++ (FieldTypes.cons second rest).text

end

namespace DataType

variable {value : List Char}
variable {arguments : List (List Char)}

/-- `to_string`. -/
def display (type : DataType) : String :=
  String.ofList type.text

/-! ## Parsing -/

/-- `strip_prefix`. -/
def stripPrefix (start text : List Char) : Option (List Char) :=
  if start.isPrefixOf text then some (text.drop start.length) else none

/-- `strip_suffix` of one character. -/
def stripSuffix (last : Char) (text : List Char) : Option (List Char) :=
  if text.getLast? = some last then some text.dropLast else none

/-- The argument list of a parameterised type. -/
def typeArguments (value keyword : List Char) : Option (List (List Char)) :=
  match stripPrefix keyword (asciiLower value) with
  | none => none
  | some rest =>
    match rest.dropWhile isWhitespace with
    | '(' :: inner => (stripSuffix ')' inner).map (splitTop trim 0 [])
    | '<' :: inner => (stripSuffix '>' inner).map (splitTop trim 0 [])
    | _ => none

/-- What follows the first space, or all of a text without a space. -/
def afterSpace (field : List Char) : List Char :=
  match field.dropWhile fun c => c != ' ' with
  | _ :: rest => rest
  | [] => field

/-- The types without type arguments, by the text before any bracket. -/
def parseScalar (lower : List Char) : DataType :=
  match String.ofList (trim (lower.takeWhile fun c => c != '(' && c != '<')) with
  | "boolean" => .boolean
  | "tinyint" => .tinyInt
  | "smallint" => .smallInt
  | "integer" => .integer
  | "int" => .integer
  | "bigint" => .bigInt
  | "real" => .real
  | "double" => .double
  | "decimal" => .decimal
  | "numeric" => .decimal
  | "varchar" => .varchar
  | "char" => .varchar
  | "varbinary" => .varbinary
  | "date" => .date
  | "time" => .time
  | "timestamp" =>
    if "with time zone".toList <:+: lower then .timestampTz else .timestamp
  | _ => .unknown

/-- `DataType::parse_trino`, with the parser of the arguments given. -/
def parseStep (parseArgument : List Char → DataType) (value : List Char) : DataType :=
  let value := trim value
  let lower := asciiLower value
  if "array".toList.isPrefixOf lower then
    match (typeArguments value "array".toList).bind List.head? with
    | some inner => .array (parseArgument inner)
    | none => .array .unknown
  else if "map".toList.isPrefixOf lower then
    match typeArguments value "map".toList with
    | some [key, element] => .map (parseArgument key) (parseArgument element)
    | _ => .map .unknown .unknown
  else if "row".toList.isPrefixOf lower then
    .row (.ofList (((typeArguments value "row".toList).getD []).map fun field =>
      parseArgument (afterSpace field)))
  else parseScalar lower

/-- An argument is shorter than the text it is taken from. -/
def parseWithin : Nat → List Char → DataType
  | 0, _ => .unknown
  | fuel + 1, value => parseStep (parseWithin fuel) value

def parse (value : List Char) : DataType :=
  parseWithin (value.length + 1) value

/-- `DataType::parse_trino`. -/
def parseTrino (value : String) : DataType :=
  parse value.toList

example : parseTrino "row(id bigint, seen timestamp(6) with time zone)" =
    .row (.cons .bigInt (.cons .timestampTz .nil)) := by decide +kernel

/-! ## The arguments of a type -/

theorem trim_isInfix (value : List Char) : trim value <:+: value := by
  have hfront : value.dropWhile isWhitespace <:+ value := List.dropWhile_suffix _
  have hback : ((value.dropWhile isWhitespace).reverse.dropWhile isWhitespace).reverse <+:
      value.dropWhile isWhitespace := by
    have hsuffix := List.dropWhile_suffix (l := (value.dropWhile isWhitespace).reverse)
      isWhitespace
    rw [← List.reverse_prefix, List.reverse_reverse] at hsuffix
    exact hsuffix
  exact hback.isInfix.trans hfront.isInfix

theorem afterSpace_isInfix (field : List Char) : afterSpace field <:+: field := by
  unfold afterSpace
  split
  · next c rest h =>
      have hsuffix : c :: rest <:+ field := h ▸ List.dropWhile_suffix _
      exact ((List.suffix_cons c rest).trans hsuffix).isInfix
  · exact List.infix_rfl

/-- Where type arguments are found: between a bracket behind the keyword and the end. -/
theorem typeArguments_eq_some {keyword : List Char}
    (h : typeArguments value keyword = some arguments) :
    ∃ start inner last, asciiLower value = keyword ++ (start ++ inner ++ [last]) ∧
      start ≠ [] ∧ arguments = splitTop trim 0 [] inner := by
  unfold typeArguments at h
  cases hrest : stripPrefix keyword (asciiLower value) with
  | none => simp [hrest] at h
  | some rest =>
    have hvalue : asciiLower value = keyword ++ rest := by
      unfold stripPrefix at hrest
      split at hrest
      · next hpre =>
          obtain ⟨tail, htail⟩ := List.isPrefixOf_iff_prefix.1 hpre
          rw [← htail, List.drop_left] at hrest
          rw [← htail, Option.some.inj hrest]
      · cases hrest
    have hspaces : rest.takeWhile isWhitespace ++ rest.dropWhile isWhitespace = rest :=
      List.takeWhile_append_dropWhile
    have hsuffix : ∀ {last : Char} {inner found : List Char},
        stripSuffix last inner = some found → inner = found ++ [last] := by
      intro last inner found hfound
      unfold stripSuffix at hfound
      split at hfound
      · next hlast =>
          rw [← Option.some.inj hfound]
          exact (List.dropLast_append_getLast? last hlast).symm
      · cases hfound
    simp only [hrest] at h
    split at h
    · next inner hopen =>
        obtain ⟨found, hfound, rfl⟩ := Option.map_eq_some_iff.1 h
        refine ⟨rest.takeWhile isWhitespace ++ ['('], found, ')', ?_, by simp, rfl⟩
        rw [hopen, hsuffix hfound] at hspaces
        rw [hvalue]
        congr 1
        exact hspaces.symm.trans (by simp)
    · next inner hopen =>
        obtain ⟨found, hfound, rfl⟩ := Option.map_eq_some_iff.1 h
        refine ⟨rest.takeWhile isWhitespace ++ ['<'], found, '>', ?_, by simp, rfl⟩
        rw [hopen, hsuffix hfound] at hspaces
        rw [hvalue]
        congr 1
        exact hspaces.symm.trans (by simp)
    · cases h

theorem length_lt_of_mem_typeArguments {keyword argument : List Char}
    (h : typeArguments value keyword = some arguments) (hargument : argument ∈ arguments) :
    argument.length < value.length := by
  obtain ⟨start, inner, last, hvalue, -, rfl⟩ := typeArguments_eq_some h
  have hlength := congrArg List.length hvalue
  have hle := (Library.infix_of_mem_splitTop trim_isInfix hargument).length_le
  rw [List.nil_append] at hle
  simp only [Library.length_asciiLower, List.length_append, List.length_singleton] at hlength
  omega

/-! ## The parser without its fuel -/

theorem parseStep_congr {parseArgument parseArgument' : List Char → DataType}
    (h : ∀ x : List Char, x.length < value.length → parseArgument x = parseArgument' x) :
    parseStep parseArgument value = parseStep parseArgument' value := by
  have htrim : (trim value).length ≤ value.length := (trim_isInfix value).length_le
  have hargument : ∀ keyword arguments, typeArguments (trim value) keyword = some arguments →
      ∀ argument ∈ arguments, parseArgument argument = parseArgument' argument := by
    intro keyword arguments harguments argument hmem
    apply h
    exact (length_lt_of_mem_typeArguments harguments hmem).trans_le htrim
  unfold parseStep
  simp only
  split_ifs
  · cases harguments : typeArguments (trim value) "array".toList with
    | none => rfl
    | some arguments =>
      cases arguments with
      | nil => rfl
      | cons first rest =>
        have hfirst := hargument _ _ harguments first List.mem_cons_self
        simp [hfirst]
  · split
    · next key element harguments =>
        have hkey := hargument _ _ harguments key (by simp)
        have helement := hargument _ _ harguments element (by simp)
        rw [hkey, helement]
    · rfl
  · have hfields : ∀ field ∈ (typeArguments (trim value) "row".toList).getD [],
        parseArgument (afterSpace field) = parseArgument' (afterSpace field) := by
      intro field hfield
      apply h
      have hafter : (afterSpace field).length ≤ field.length := (afterSpace_isInfix field).length_le
      cases harguments : typeArguments (trim value) "row".toList with
      | none =>
        rw [harguments] at hfield
        cases hfield
      | some arguments =>
        rw [harguments] at hfield
        have hlt := length_lt_of_mem_typeArguments harguments hfield
        omega
    rw [List.map_congr_left hfields]
  · rfl

theorem parseWithin_eq {fuel fuel' : Nat} (h : value.length < fuel) (h' : value.length < fuel') :
    parseWithin fuel value = parseWithin fuel' value := by
  induction fuel generalizing fuel' value with
  | zero => cases h
  | succ fuel ih =>
    cases fuel' with
    | zero => cases h'
    | succ fuel' =>
      apply parseStep_congr
      intro x hx
      apply ih
      · omega
      · omega

theorem parse_eq (value : List Char) : parse value = parseStep parse value := by
  apply parseStep_congr
  intro x hx
  exact parseWithin_eq hx (Nat.lt_succ_self _)

/-! ## Nested types need words -/

def nestingWords : List (List Char) :=
  ["array".toList, "map".toList, "row".toList]

/-- The places of a text where a word of a nested type begins. -/
def heads (text : List Char) : Nat :=
  occurrences nestingWords (asciiLower text)

end DataType

mutual

/-- The number of nested types in a type. -/
def DataType.nestings : DataType → Nat
  | .array inner => inner.nestings + 1
  | .map key value => key.nestings + value.nestings + 1
  | .row fields => fields.nestings + 1
  | _ => 0

def FieldTypes.nestings : FieldTypes → Nat
  | .nil => 0
  | .cons first rest => first.nestings + rest.nestings

end

namespace FieldTypes

theorem nestings_ofList (types : List DataType) :
    (ofList types).nestings = (types.map DataType.nestings).sum := by
  induction types with
  | nil => rfl
  | cons first rest ih => rw [ofList, nestings, ih, List.map_cons, List.sum_cons]

end FieldTypes

namespace DataType

variable {x y keyword : List Char}

theorem heads_le_of_isInfix (h : x <:+: y) : heads x ≤ heads y := by
  apply Library.occurrences_le_of_isInfix
  obtain ⟨s, t, rfl⟩ := h
  exact ⟨asciiLower s, asciiLower t, by simp⟩

theorem asciiLower_eq_of_isInfix (h : x <:+: asciiLower y) : asciiLower x = x := by
  have hself : ∀ c ∈ x, c.toLower = c := by
    intro c hc
    obtain ⟨d, -, rfl⟩ := List.mem_map.1 (h.subset hc)
    exact Library.toLower_toLower d
  rw [asciiLower, List.map_congr_left hself, List.map_id']

theorem one_le_occurrences (h : keyword ∈ nestingWords) : 1 ≤ occurrences nestingWords keyword := by
  simp only [nestingWords, List.mem_cons, List.not_mem_nil, or_false] at h
  rcases h with rfl | rfl | rfl
  · decide
  · decide
  · decide

/-- The keyword of a nested type stands outside of its arguments. -/
theorem sum_heads_lt {value : List Char} {arguments : List (List Char)}
    (hkeyword : keyword ∈ nestingWords) (h : typeArguments value keyword = some arguments) :
    (arguments.map heads).sum < heads value := by
  obtain ⟨start, inner, last, hvalue, -, rfl⟩ := typeArguments_eq_some h
  have hinner : inner <:+: asciiLower value :=
    ⟨keyword ++ start, [last], by rw [hvalue]; simp⟩
  have hsmall : (splitTop trim 0 [] inner).map heads =
      (splitTop trim 0 [] inner).map (occurrences nestingWords) := by
    apply List.map_congr_left
    intro part hpart
    have hpiece := Library.infix_of_mem_splitTop trim_isInfix hpart
    rw [List.nil_append] at hpiece
    rw [heads, asciiLower_eq_of_isInfix (hpiece.trans hinner)]
  have hparts := Library.sum_occurrences_splitTop_le nestingWords trim_isInfix 0 [] inner
  rw [List.nil_append] at hparts
  have hword : 1 ≤ occurrences nestingWords keyword := one_le_occurrences hkeyword
  have hfront := Library.occurrences_add_le nestingWords keyword (start ++ inner ++ [last])
  have hback : occurrences nestingWords inner ≤
      occurrences nestingWords (start ++ inner ++ [last]) :=
    Library.occurrences_le_of_isInfix ⟨start, [last], rfl⟩
  rw [hsmall, heads, hvalue]
  omega

theorem nestings_parseScalar (lower : List Char) : (parseScalar lower).nestings = 0 := by
  unfold parseScalar
  split <;> try rfl
  split <;> rfl

/-- The parser builds no more nested types than the text has words for them. -/
theorem nestings_parse_le (value : List Char) : (parse value).nestings ≤ heads value := by
  induction hlength : value.length using Nat.strong_induction_on generalizing value with
  | _ n ih =>
    have htrim : heads (trim value) ≤ heads value := heads_le_of_isInfix (trim_isInfix value)
    have htrimLength : (trim value).length ≤ value.length := (trim_isInfix value).length_le
    have hargument : ∀ keyword arguments, typeArguments (trim value) keyword = some arguments →
        ∀ argument ∈ arguments, ∀ x, x <:+: argument → (parse x).nestings ≤ heads argument := by
      intro keyword arguments harguments argument hmem x hx
      have hlt := length_lt_of_mem_typeArguments harguments hmem
      have hle := hx.length_le
      exact (ih x.length (by omega) x rfl).trans (heads_le_of_isInfix hx)
    have hstart : ∀ keyword ∈ nestingWords,
        keyword.isPrefixOf (asciiLower (trim value)) = true → 1 ≤ heads (trim value) := by
      intro keyword hkeyword hpre
      exact (one_le_occurrences hkeyword).trans
        (Library.occurrences_le_of_isInfix (List.isPrefixOf_iff_prefix.1 hpre).isInfix)
    rw [parse_eq, parseStep]
    split_ifs with harray hmap hrow
    · have hone := hstart _ (by simp [nestingWords]) harray
      cases harguments : typeArguments (trim value) "array".toList with
      | none => simp [nestings]; omega
      | some arguments =>
        have hsum := sum_heads_lt (by simp [nestingWords]) harguments
        cases arguments with
        | nil => simp [nestings]; omega
        | cons first rest =>
          have hfirst := hargument _ _ harguments first List.mem_cons_self first
            List.infix_rfl
          rw [List.map_cons, List.sum_cons] at hsum
          simp only [Option.bind_some, List.head?_cons, nestings]
          omega
    · have hone := hstart _ (by simp [nestingWords]) hmap
      split
      · next key element harguments =>
          have hsum := sum_heads_lt (by simp [nestingWords]) harguments
          have hkey := hargument _ _ harguments key (by simp) key List.infix_rfl
          have helement := hargument _ _ harguments element (by simp) element List.infix_rfl
          simp only [List.map_cons, List.map_nil, List.sum_cons, List.sum_nil] at hsum
          rw [nestings]
          omega
      · simp only [nestings]
        omega
    · have hone := hstart _ (by simp [nestingWords]) hrow
      rw [nestings, FieldTypes.nestings_ofList, List.map_map]
      cases harguments : typeArguments (trim value) "row".toList with
      | none => simp; omega
      | some arguments =>
        have hsum := sum_heads_lt (by simp [nestingWords]) harguments
        have hfields : (arguments.map fun field => (parse (afterSpace field)).nestings).sum ≤
            (arguments.map heads).sum := by
          apply List.sum_le_sum
          intro field hfield
          exact hargument _ _ harguments field hfield _ (afterSpace_isInfix field)
        simp only [Option.getD_some]
        exact (Nat.succ_le_of_lt (hfields.trans_lt hsum)).trans htrim
    · rw [nestings_parseScalar]
      exact Nat.zero_le _

end DataType
end PhloTransform.Core
