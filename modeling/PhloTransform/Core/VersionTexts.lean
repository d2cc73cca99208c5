import PhloTransform.Core.Assertions
import PhloTransform.Library.DebugText

/-!
# Reading version texts back

The texts behind a version put names, types, strategies and states between marks.  The debug forms
of types and of strategies can always be read back; names can be read back while they hold none of
the marks around them.

Main results:

- Theorem `DataType.endsAt_debug`: types are read up to what is behind them.
- Theorem `debugStrategy_injective`: the debug form of a strategy tells its columns.
-/

namespace PhloTransform.Core

open Library (EndsAt Orderly PrefixCode cut_inj debugQuoted endsAt_of_free
  intercalate_cons_stop intercalate_stop_inj orderly_bare_append orderly_cut_inj
  orderly_debugQuoted_append prefixCode_debugQuoted)

/-! ## Types -/

def NoLetter (c : Char) : Prop :=
  c.isAlpha = false

instance (c : Char) : Decidable (NoLetter c) :=
  inferInstanceAs (Decidable (_ = _))

namespace DataType

variable {b : DataType}
variable {a : DataType}

/-- The first word of the debug form of a type. -/
def word : DataType → List Char
  | .boolean => "Boolean".toList
  | .tinyInt => "TinyInt".toList
  | .smallInt => "SmallInt".toList
  | .integer => "Integer".toList
  | .bigInt => "BigInt".toList
  | .real => "Real".toList
  | .double => "Double".toList
  | .decimal => "Decimal".toList
  | .varchar => "Varchar".toList
  | .varbinary => "Varbinary".toList
  | .date => "Date".toList
  | .time => "Time".toList
  | .timestamp => "Timestamp".toList
  | .timestampTz => "TimestampTz".toList
  | .array _ => "Array".toList
  | .map _ _ => "Map".toList
  | .row _ => "Row".toList
  | .unknown => "Unknown".toList

/-- What is behind the first word, up to a text behind the type. -/
def behind (text : List Char) : DataType → List Char
  | .array inner => '(' :: (inner.debug.toList ++ ')' :: text)
  | .map key value => '(' :: (key.debug.toList ++ ',' :: ' ' :: (value.debug.toList ++ ')' :: text))
  | .row fields => '(' :: '[' :: (fields.debug.toList ++ ']' :: ')' :: text)
  | _ => text

/-- The types by their first words. -/
inductive Shape where
  | scalar (type : DataType)
  | array
  | map
  | row

def shape : DataType → Shape
  | .array _ => .array
  | .map _ _ => .map
  | .row _ => .row
  | type => .scalar type

def ofWord (word : List Char) : Option Shape :=
  match String.ofList word with
  | "Boolean" => some (.scalar .boolean)
  | "TinyInt" => some (.scalar .tinyInt)
  | "SmallInt" => some (.scalar .smallInt)
  | "Integer" => some (.scalar .integer)
  | "BigInt" => some (.scalar .bigInt)
  | "Real" => some (.scalar .real)
  | "Double" => some (.scalar .double)
  | "Decimal" => some (.scalar .decimal)
  | "Varchar" => some (.scalar .varchar)
  | "Varbinary" => some (.scalar .varbinary)
  | "Date" => some (.scalar .date)
  | "Time" => some (.scalar .time)
  | "Timestamp" => some (.scalar .timestamp)
  | "TimestampTz" => some (.scalar .timestampTz)
  | "Array" => some .array
  | "Map" => some .map
  | "Row" => some .row
  | "Unknown" => some (.scalar .unknown)
  | _ => none

theorem ofWord_word (type : DataType) : ofWord type.word = some type.shape := by
  cases type <;> rfl

theorem toList_debug_append (type : DataType) (text : List Char) :
    type.debug.toList ++ text = type.word ++ type.behind text := by
  cases type with
  | array inner =>
    have hdebug : (array inner).debug = "Array(" ++ inner.debug ++ ")" := by rw [debug]
    rw [hdebug, String.toList_append, String.toList_append, List.append_assoc, List.append_assoc]
    rfl
  | map key value =>
    have hdebug : (map key value).debug = "Map(" ++ key.debug ++ ", " ++ value.debug ++ ")" := by
      rw [debug]
    rw [hdebug]
    simp only [String.toList_append, List.append_assoc]
    rfl
  | row fields =>
    have hdebug : (row fields).debug = "Row([" ++ fields.debug ++ "])" := by rw [debug]
    rw [hdebug, String.toList_append, String.toList_append, List.append_assoc, List.append_assoc]
    rfl
  | _ => rw [debug]; rfl

theorem all_isAlpha_word (type : DataType) : type.word.all Char.isAlpha = true := by
  cases type <;> rfl

theorem isAlpha_of_mem_word {type : DataType} : ∀ c ∈ type.word, ¬ NoLetter c := by
  intro c hc
  have halpha : c.isAlpha = true := List.all_eq_true.1 type.all_isAlpha_word c hc
  rw [NoLetter, halpha]
  decide

theorem behind_cons (type : DataType) {c : Char} (hc : NoLetter c) (text : List Char) :
    ∃ d rest, type.behind (c :: text) = d :: rest ∧ NoLetter d := by
  cases type with
  | array inner => exact ⟨_, _, rfl, by decide⟩
  | map key value => exact ⟨_, _, rfl, by decide⟩
  | row fields => exact ⟨_, _, rfl, by decide⟩
  | _ => exact ⟨c, text, rfl, hc⟩

/-- Types whose texts agree have the same shape, and what is behind their first words agrees. -/
theorem debug_append_inj {x y : Char} {s t : List Char} (hx : NoLetter x) (hy : NoLetter y)
    (h : a.debug.toList ++ x :: s = b.debug.toList ++ y :: t) :
    a.shape = b.shape ∧ a.behind (x :: s) = b.behind (y :: t) := by
  obtain ⟨c, rest, hbehind, hc⟩ := a.behind_cons hx s
  obtain ⟨d, rest', hbehind', hd⟩ := b.behind_cons hy t
  rw [toList_debug_append, toList_debug_append, hbehind, hbehind'] at h
  obtain ⟨hword, hrest⟩ := endsAt_of_free a.word b.word isAlpha_of_mem_word isAlpha_of_mem_word
    c d rest rest' hc hd h
  have hshape := ofWord_word a
  rw [hword, ofWord_word] at hshape
  exact ⟨(Option.some.inj hshape).symm, by rw [hbehind, hbehind', hrest]⟩

theorem eq_of_shape_scalar (h : b.shape = .scalar a) : b = a := by
  cases b <;> simp_all [shape]

theorem eq_of_shape_array (h : b.shape = .array) : ∃ inner, b = .array inner := by
  cases b <;> simp_all [shape]

theorem eq_of_shape_map (h : b.shape = .map) : ∃ key value, b = .map key value := by
  cases b <;> simp_all [shape]

theorem eq_of_shape_row (h : b.shape = .row) : ∃ fields, b = .row fields := by
  cases b <;> simp_all [shape]

theorem debug_cons (type : DataType) (text : List Char) :
    ∃ c rest, type.debug.toList ++ text = c :: rest ∧ ¬ NoLetter c := by
  rw [toList_debug_append]
  cases type <;> exact ⟨_, _, rfl, by decide⟩

end DataType

/-- The first of several field types, and what comes behind it. -/
theorem FieldTypes.debug_cons_append (first : DataType) (rest : FieldTypes) (text : List Char) :
    (FieldTypes.cons first rest).debug.toList ++ ']' :: text = first.debug.toList ++
      match rest with
      | .nil => ']' :: text
      | .cons second others =>
        ',' :: ' ' :: ((FieldTypes.cons second others).debug.toList ++ ']' :: text) := by
  cases rest <;> simp [FieldTypes.debug]

mutual

theorem DataType.debug_cut (a b : DataType) {x y : Char} {s t : List Char} (hx : NoLetter x)
    (hy : NoLetter y) (h : a.debug.toList ++ x :: s = b.debug.toList ++ y :: t) :
    a = b ∧ x :: s = y :: t := by
  obtain ⟨hshape, hbehind⟩ := DataType.debug_append_inj hx hy h
  match a with
  | .array inner =>
    obtain ⟨inner', rfl⟩ := DataType.eq_of_shape_array hshape.symm
    rw [DataType.behind, DataType.behind, List.cons_inj_right] at hbehind
    obtain ⟨rfl, hrest⟩ := DataType.debug_cut inner inner' (by decide) (by decide) hbehind
    exact ⟨rfl, List.tail_eq_of_cons_eq hrest⟩
  | .map key value =>
    obtain ⟨key', value', rfl⟩ := DataType.eq_of_shape_map hshape.symm
    rw [DataType.behind, DataType.behind, List.cons_inj_right] at hbehind
    obtain ⟨rfl, hvalue⟩ := DataType.debug_cut key key' (by decide) (by decide) hbehind
    rw [List.cons_inj_right, List.cons_inj_right] at hvalue
    obtain ⟨rfl, hrest⟩ := DataType.debug_cut value value' (by decide) (by decide) hvalue
    exact ⟨rfl, List.tail_eq_of_cons_eq hrest⟩
  | .row fields =>
    obtain ⟨fields', rfl⟩ := DataType.eq_of_shape_row hshape.symm
    rw [DataType.behind, DataType.behind, List.cons_inj_right, List.cons_inj_right] at hbehind
    obtain ⟨rfl, hrest⟩ := FieldTypes.debug_cut fields fields' hbehind
    exact ⟨rfl, List.tail_eq_of_cons_eq hrest⟩
  | .boolean | .tinyInt | .smallInt | .integer | .bigInt | .real | .double | .decimal
  | .varchar | .varbinary | .date | .time | .timestamp | .timestampTz | .unknown =>
    obtain rfl := DataType.eq_of_shape_scalar hshape.symm
    exact ⟨rfl, hbehind⟩

theorem FieldTypes.debug_cut (a b : FieldTypes) {s t : List Char}
    (h : a.debug.toList ++ ']' :: s = b.debug.toList ++ ']' :: t) : a = b ∧ s = t := by
  match a, b with
  | .nil, .nil => exact ⟨rfl, List.tail_eq_of_cons_eq h⟩
  | .nil, .cons first rest =>
    rw [FieldTypes.debug_cons_append] at h
    obtain ⟨c, text, htext, hc⟩ := first.debug_cons _
    rw [htext] at h
    exact absurd (List.head_eq_of_cons_eq h ▸ (by decide : NoLetter ']')) hc
  | .cons first rest, .nil =>
    rw [FieldTypes.debug_cons_append] at h
    obtain ⟨c, text, htext, hc⟩ := first.debug_cons _
    rw [htext] at h
    exact absurd (List.head_eq_of_cons_eq h ▸ (by decide : NoLetter ']')) hc
  | .cons first .nil, .cons first' .nil =>
    rw [FieldTypes.debug_cons_append, FieldTypes.debug_cons_append] at h
    obtain ⟨rfl, hrest⟩ := DataType.debug_cut first first' (by decide) (by decide) h
    exact ⟨rfl, List.tail_eq_of_cons_eq hrest⟩
  | .cons first .nil, .cons first' (.cons second rest) =>
    rw [FieldTypes.debug_cons_append, FieldTypes.debug_cons_append] at h
    obtain ⟨-, hrest⟩ := DataType.debug_cut first first' (by decide) (by decide) h
    exact absurd (List.head_eq_of_cons_eq hrest) (by decide)
  | .cons first (.cons second rest), .cons first' .nil =>
    rw [FieldTypes.debug_cons_append, FieldTypes.debug_cons_append] at h
    obtain ⟨-, hrest⟩ := DataType.debug_cut first first' (by decide) (by decide) h
    exact absurd (List.head_eq_of_cons_eq hrest) (by decide)
  | .cons first (.cons second rest), .cons first' (.cons second' rest') =>
    rw [FieldTypes.debug_cons_append, FieldTypes.debug_cons_append] at h
    obtain ⟨rfl, hrest⟩ := DataType.debug_cut first first' (by decide) (by decide) h
    rw [List.cons_inj_right, List.cons_inj_right] at hrest
    obtain ⟨hfields, hst⟩ := FieldTypes.debug_cut (.cons second rest) (.cons second' rest') hrest
    exact ⟨by rw [hfields], hst⟩

end

theorem DataType.endsAt_debug :
    EndsAt NoLetter (fun _ => True) fun type : DataType => type.debug.toList :=
  fun a b _ _ _ _ _ _ hx hy h => DataType.debug_cut a b hx hy h

/-! ## Options and numbers -/

/-- An optional value is read from its debug form when the value is read up to a bracket. -/
theorem prefixCode_debugOption {α : Type*} {debug : α → String}
    (h : EndsAt (· = ')') (fun _ => True) fun a => (debug a).toList) :
    PrefixCode fun a => (debugOption debug a).toList := by
  have hsome : ∀ a s, (debugOption debug (some a)).toList ++ s =
      'S' :: 'o' :: 'm' :: 'e' :: '(' :: ((debug a).toList ++ ')' :: s) := by
    intro a s
    rw [debugOption, String.toList_append, String.toList_append, List.append_assoc,
      List.append_assoc]
    rfl
  have hnone : ∀ s, (debugOption debug none).toList ++ s = 'N' :: 'o' :: 'n' :: 'e' :: s := by
    intro s
    rw [debugOption]
    rfl
  intro a b s t heq
  cases a with
  | none =>
    cases b with
    | none => exact ⟨rfl, List.append_cancel_left heq⟩
    | some b =>
      rw [hnone, hsome] at heq
      exact absurd (List.head_eq_of_cons_eq heq) (by decide)
  | some a =>
    cases b with
    | none =>
      rw [hnone, hsome] at heq
      exact absurd (List.head_eq_of_cons_eq heq) (by decide)
    | some b =>
      rw [hsome, hsome] at heq
      simp only [List.cons_inj_right] at heq
      obtain ⟨rfl, hst⟩ := h a b trivial trivial _ _ _ _ rfl rfl heq
      exact ⟨rfl, List.tail_eq_of_cons_eq hst⟩

theorem endsAt_toString_bool :
    EndsAt (· = ')') (fun _ => True) fun nullable : Bool => (toString nullable).toList := by
  have hbracket : ∀ b : Bool, ')' ∉ (toString b).toList := by decide
  have hfree : ∀ b : Bool, ∀ c ∈ (toString b).toList, ¬ c = ')' := by
    rintro b _ hc rfl
    exact hbracket b hc
  have hinj : ∀ a b : Bool, (toString a).toList = (toString b).toList → a = b := by decide
  intro a b _ _ x y s t hx hy h
  obtain ⟨htext, hrest⟩ := endsAt_of_free _ _ (hfree a) (hfree b) x y s t hx hy h
  exact ⟨hinj a b htext, hrest⟩

theorem isDigit_of_mem_toString {n : Nat} {c : Char} (h : c ∈ (toString n).toList) :
    c.isDigit = true := by
  rw [Nat.toString_eq_ofList_toDigits, String.toList_ofList] at h
  exact Nat.isDigit_of_mem_toDigits (by decide) (by decide) h

theorem endsAt_toString_nat :
    EndsAt (· = ')') (fun _ => True) fun n : Nat => (toString n).toList := by
  have hfree : ∀ n : Nat, ∀ c ∈ (toString n).toList, ¬ c = ')' := by
    rintro n _ hc rfl
    exact absurd (isDigit_of_mem_toString hc) (by decide)
  intro a b _ _ x y s t hx hy h
  obtain ⟨htext, hrest⟩ := endsAt_of_free _ _ (hfree a) (hfree b) x y s t hx hy h
  rw [Nat.toString_eq_ofList_toDigits, Nat.toString_eq_ofList_toDigits,
    String.toList_ofList, String.toList_ofList] at htext
  refine ⟨?_, hrest⟩
  rw [← Nat.ofDigitChars_ten_toDigits (n := a), htext, Nat.ofDigitChars_ten_toDigits]

/-! ## Strategies -/

section Strategies

variable (printable : Char → Bool)

/-- The debug form of a list of strings. -/
def debugList (columns : List String) : String :=
  "[" ++ String.intercalate ", " (columns.map fun column =>
    String.ofList (debugQuoted printable column)) ++ "]"

/-- The debug form of an incremental strategy. -/
def IncrementalStrategy.debug : IncrementalStrategy → String
  | .append => "Append"
  | .key columns => "Key \x7b columns: " ++ debugList printable columns ++ " \x7d"
  | .partition columns => "Partition \x7b columns: " ++ debugList printable columns ++ " \x7d"
  | .timeWindow column overlapSeconds =>
    "TimeWindow \x7b column: " ++ String.ofList (debugQuoted printable column) ++
      ", overlap_seconds: " ++ debugOption toString overlapSeconds ++ " \x7d"

/-- The debug form of the strategy of a model. -/
def debugStrategy (incremental : Option IncrementalStrategy) : String :=
  debugOption (IncrementalStrategy.debug printable) incremental

variable {printable}

theorem toList_debugList_append (columns : List String) (text : List Char) :
    (debugList printable columns).toList ++ text = '[' ::
      (List.intercalate [',', ' '] (columns.map (debugQuoted printable)) ++ ']' :: text) := by
  simp [debugList, String.toList_append, String.toList_intercalate, Function.comp_def]

theorem prefixCode_debugList : PrefixCode fun columns => (debugList printable columns).toList := by
  intro a b s t h
  simp only [toList_debugList_append, List.cons_inj_right] at h
  refine intercalate_stop_inj (p := fun _ => True) prefixCode_debugQuoted.endsAt (by decide) ?_
    (fun _ _ => trivial) (fun _ _ => trivial) h
  exact fun column _ => ⟨'"', _, rfl, by decide⟩

/-- The first letter of the debug form of a strategy. -/
def IncrementalStrategy.letter : IncrementalStrategy → Char
  | .append => 'A'
  | .key _ => 'K'
  | .partition _ => 'P'
  | .timeWindow _ _ => 'T'

namespace IncrementalStrategy

variable (columns : List String) (column : String) (overlapSeconds : Option Nat) (text : List Char)

theorem debug_key_append : ((key columns).debug printable).toList ++ text =
    "Key \x7b columns: ".toList ++
      ((debugList printable columns).toList ++ (" \x7d".toList ++ text)) := by
  have hdebug : (key columns).debug printable =
      "Key \x7b columns: " ++ debugList printable columns ++ " \x7d" := rfl
  rw [hdebug, String.toList_append, String.toList_append, List.append_assoc, List.append_assoc]

theorem debug_partition_append : ((partition columns).debug printable).toList ++ text =
    "Partition \x7b columns: ".toList ++
      ((debugList printable columns).toList ++ (" \x7d".toList ++ text)) := by
  have hdebug : (partition columns).debug printable =
      "Partition \x7b columns: " ++ debugList printable columns ++ " \x7d" := rfl
  rw [hdebug, String.toList_append, String.toList_append, List.append_assoc, List.append_assoc]

theorem debug_timeWindow_append :
    ((timeWindow column overlapSeconds).debug printable).toList ++ text =
      "TimeWindow \x7b column: ".toList ++ (debugQuoted printable column ++
        (", overlap_seconds: ".toList ++
          ((debugOption toString overlapSeconds).toList ++ (" \x7d".toList ++ text)))) := by
  have hdebug : (timeWindow column overlapSeconds).debug printable =
      "TimeWindow \x7b column: " ++ String.ofList (debugQuoted printable column) ++
        ", overlap_seconds: " ++ debugOption toString overlapSeconds ++ " \x7d" := rfl
  rw [hdebug]
  simp only [String.toList_append, String.toList_ofList, List.append_assoc]

theorem debug_cons (printable : Char → Bool) (strategy : IncrementalStrategy) :
    ∃ rest, (strategy.debug printable).toList ++ text = strategy.letter :: rest := by
  cases strategy with
  | append =>
    have hdebug : append.debug printable = "Append" := rfl
    rw [hdebug]
    exact ⟨_, rfl⟩
  | key columns => rw [debug_key_append]; exact ⟨_, rfl⟩
  | partition columns => rw [debug_partition_append]; exact ⟨_, rfl⟩
  | timeWindow column overlapSeconds => rw [debug_timeWindow_append]; exact ⟨_, rfl⟩

theorem prefixCode_debug :
    PrefixCode fun strategy : IncrementalStrategy => (strategy.debug printable).toList := by
  intro a b s t h
  have hletter : a.letter = b.letter := by
    obtain ⟨rest, ha⟩ := debug_cons s printable a
    obtain ⟨rest', hb⟩ := debug_cons t printable b
    exact List.head_eq_of_cons_eq (ha.symm.trans (h.trans hb))
  cases a <;> cases b
  case append.append => exact ⟨rfl, List.append_cancel_left h⟩
  case key.key columns columns' =>
      rw [debug_key_append, debug_key_append] at h
      obtain ⟨rfl, hrest⟩ := prefixCode_debugList _ _ _ _ (List.append_cancel_left h)
      exact ⟨rfl, List.append_cancel_left hrest⟩
  case partition.partition columns columns' =>
      rw [debug_partition_append, debug_partition_append] at h
      obtain ⟨rfl, hrest⟩ := prefixCode_debugList _ _ _ _ (List.append_cancel_left h)
      exact ⟨rfl, List.append_cancel_left hrest⟩
  case timeWindow.timeWindow column overlapSeconds column' overlapSeconds' =>
      rw [debug_timeWindow_append, debug_timeWindow_append] at h
      obtain ⟨rfl, hoverlap⟩ := prefixCode_debugQuoted _ _ _ _ (List.append_cancel_left h)
      obtain ⟨rfl, hrest⟩ := prefixCode_debugOption endsAt_toString_nat _ _ _ _
        (List.append_cancel_left hoverlap)
      exact ⟨rfl, List.append_cancel_left hrest⟩
  all_goals exact absurd hletter (by simp [letter])

end IncrementalStrategy

theorem debugStrategy_injective : Function.Injective (debugStrategy printable) := fun _ _ h =>
  (prefixCode_debugOption IncrementalStrategy.prefixCode_debug.endsAt).injective
    (congrArg String.toList h)

/-! ## Strategies outside of strings -/

theorem orderly_debugList_append (columns : List String) (text : List Char) :
    Orderly .outside ((debugList printable columns).toList ++ text) ↔ Orderly .outside text := by
  have hbracket : ∀ text, Orderly .outside (']' :: text) ↔ Orderly .outside text :=
    orderly_bare_append (by decide : Library.Bare [']'])
  have hcomma : ∀ text, Orderly .outside (',' :: ' ' :: text) ↔ Orderly .outside text :=
    orderly_bare_append (by decide : Library.Bare [',', ' '])
  have hcolumns : Orderly .outside
      (List.intercalate [',', ' '] (columns.map (debugQuoted printable)) ++ ']' :: text) ↔
        Orderly .outside (']' :: text) := by
    induction columns with
    | nil => rfl
    | cons column columns ih =>
      rw [intercalate_cons_stop, orderly_debugQuoted_append]
      split_ifs
      · rfl
      · exact (hcomma _).trans ih
  rw [toList_debugList_append, ← hbracket text, ← hcolumns]
  exact orderly_bare_append (by decide : Library.Bare ['[']) _

theorem orderly_debugOption_nat_append (n : Option Nat) (text : List Char) :
    Orderly .outside ((debugOption toString n).toList ++ text) ↔ Orderly .outside text := by
  refine orderly_bare_append ?_ text
  cases n with
  | none => exact (by decide : Library.Bare "None".toList)
  | some n =>
    intro c hc
    rw [debugOption, String.toList_append, String.toList_append, List.mem_append,
      List.mem_append] at hc
    rcases hc with (hc | hc) | hc
    · exact (by decide : Library.Bare "Some(".toList) c hc
    · have hdigit := isDigit_of_mem_toString hc
      refine ⟨?_, ?_, ?_⟩ <;> rintro rfl <;> exact absurd hdigit (by decide)
    · exact (by decide : Library.Bare ")".toList) c hc

theorem orderly_debug_append (strategy : IncrementalStrategy) (text : List Char) :
    Orderly .outside ((strategy.debug printable).toList ++ text) ↔ Orderly .outside text := by
  have hclosing := orderly_bare_append (by decide : Library.Bare " \x7d".toList) text
  cases strategy with
  | append => exact orderly_bare_append (by decide : Library.Bare "Append".toList) text
  | key columns =>
    rw [IncrementalStrategy.debug_key_append,
      orderly_bare_append (by decide : Library.Bare "Key \x7b columns: ".toList),
      orderly_debugList_append, hclosing]
  | partition columns =>
    rw [IncrementalStrategy.debug_partition_append,
      orderly_bare_append (by decide : Library.Bare "Partition \x7b columns: ".toList),
      orderly_debugList_append, hclosing]
  | timeWindow column overlapSeconds =>
    rw [IncrementalStrategy.debug_timeWindow_append,
      orderly_bare_append (by decide : Library.Bare "TimeWindow \x7b column: ".toList),
      orderly_debugQuoted_append,
      orderly_bare_append (by decide : Library.Bare ", overlap_seconds: ".toList),
      orderly_debugOption_nat_append, hclosing]

theorem orderly_debugStrategy (incremental : Option IncrementalStrategy) :
    Orderly .outside (debugStrategy printable incremental).toList := by
  cases incremental with
  | none =>
    have hnone := (orderly_bare_append (by decide : Library.Bare "None".toList) []).2 rfl
    rwa [List.append_nil] at hnone
  | some strategy =>
    rw [debugStrategy, debugOption, String.toList_append, String.toList_append, List.append_assoc,
      orderly_bare_append (by decide : Library.Bare "Some(".toList), orderly_debug_append]
    have hclosing := (orderly_bare_append (by decide : Library.Bare ")".toList) []).2 rfl
    rwa [List.append_nil] at hclosing

/-! ## The configuration -/

theorem Materialization.asStr_injective : Function.Injective Materialization.asStr := by
  intro a b
  cases a <;> cases b <;> decide

theorem semicolon_notMem_asStr (m : Materialization) : ';' ∉ m.asStr.toList := by
  cases m <;> decide

/-- The configuration tells the materialization, the schema and the strategy, whatever is in
them. -/
theorem semanticConfig_inj {model model' : CompiledModel}
    {incremental incremental' : Option IncrementalStrategy}
    (h : model.semanticConfig (debugStrategy printable incremental) =
      model'.semanticConfig (debugStrategy printable incremental')) :
    model.config.materialization = model'.config.materialization ∧
      model.config.schema.getD "" = model'.config.schema.getD "" ∧ incremental = incremental' := by
  have htext : ∀ (model : CompiledModel) (incremental : String),
      (model.semanticConfig incremental).toList = "materialization=".toList ++
        (model.config.materialization.asStr.toList ++ ';' :: ("schema=".toList ++
          ((model.config.schema.getD "").toList ++ ';' ::
            ("incremental=".toList ++ incremental.toList)))) := by
    have hschema : ∀ rest, ";schema=".toList ++ rest = ';' :: ("schema=".toList ++ rest) :=
      fun _ => rfl
    have hincremental : ∀ rest,
        ";incremental=".toList ++ rest = ';' :: ("incremental=".toList ++ rest) := fun _ => rfl
    intro model incremental
    have hdefinition : model.semanticConfig incremental =
        "materialization=" ++ model.config.materialization.asStr ++ ";schema=" ++
          model.config.schema.getD "" ++ ";incremental=" ++ incremental := rfl
    rw [hdefinition]
    simp only [String.toList_append, List.append_assoc, List.cons_append, hschema, hincremental]
  have hlist := congrArg String.toList h
  rw [htext, htext] at hlist
  obtain ⟨hmaterialization, hrest⟩ := cut_inj (semicolon_notMem_asStr _) (semicolon_notMem_asStr _)
    (List.append_cancel_left hlist)
  obtain ⟨hschema, hstrategy⟩ := orderly_cut_inj (by decide : Library.Bare "incremental=".toList)
    (orderly_debugStrategy incremental) (orderly_debugStrategy incremental')
    (List.append_cancel_left hrest)
  exact ⟨Materialization.asStr_injective (String.toList_injective hmaterialization),
    String.toList_injective hschema, debugStrategy_injective (String.toList_injective hstrategy)⟩

end Strategies

/-! ## Contracts -/

/-- The declared names hold no mark that would end them: no colon and no leading semicolon in the
name of a column, no equal sign and no leading semicolon in a new name, no comma and no semicolon
in an old one. -/
structure ModelContract.Plain (contract : ModelContract) : Prop where
  columns : ∀ column ∈ contract.columns,
    ':' ∉ column.name.toList ∧ column.name.toList.head? ≠ some ';'
  renames : ∀ rename ∈ contract.renames,
    ('=' ∉ rename.1.toList ∧ rename.1.toList.head? ≠ some ';') ∧
      ∀ c ∈ rename.2.toList, ¬ (c = ',' ∨ c = ';')

theorem ColumnContract.toList_text (column : ColumnContract) (text : List Char) :
    column.text.toList ++ text = column.name.toList ++ ':' ::
      ((debugOption DataType.debug column.dataType).toList ++ ':' ::
        ((debugOption toString column.nullable).toList ++ text)) := by
  have hdefinition : column.text = column.name ++ ":" ++
      debugOption DataType.debug column.dataType ++ ":" ++
        debugOption toString column.nullable := rfl
  have hcolon : ":".toList = [':'] := rfl
  rw [hdefinition]
  simp only [String.toList_append, List.append_assoc, hcolon, List.cons_append, List.nil_append]

/-- Columns with plain names are read up to what is behind them. -/
theorem ColumnContract.endsAt_text {marks : Char → Prop} :
    EndsAt marks (fun column : ColumnContract =>
        ':' ∉ column.name.toList ∧ column.name.toList.head? ≠ some ';')
      fun column => column.text.toList := by
  intro a b ha hb x y s t _ _ h
  rw [ColumnContract.toList_text, ColumnContract.toList_text] at h
  obtain ⟨hname, hrest⟩ := cut_inj ha.1 hb.1 h
  have htypes := prefixCode_debugOption (DataType.endsAt_debug.mono fun c hc => by
    rw [hc]
    decide)
  obtain ⟨htype, hnullable⟩ := htypes _ _ _ _ hrest
  obtain ⟨hnullable, hbehind⟩ := prefixCode_debugOption endsAt_toString_bool _ _ _ _
    (List.tail_eq_of_cons_eq hnullable)
  cases a
  cases b
  cases String.toList_injective hname
  cases htype
  cases hnullable
  exact ⟨rfl, hbehind⟩

theorem toList_equation (pair : String × String) (text : List Char) :
    (equation pair).toList ++ text = pair.1.toList ++ '=' :: (pair.2.toList ++ text) := by
  simp [equation]

/-- Renames with plain names are read up to what is behind them. -/
theorem endsAt_rename :
    EndsAt (fun c => c = ',' ∨ c = ';') (fun rename : String × String =>
        ('=' ∉ rename.1.toList ∧ rename.1.toList.head? ≠ some ';') ∧
          ∀ c ∈ rename.2.toList, ¬ (c = ',' ∨ c = ';')) fun rename => (equation rename).toList := by
  intro a b ha hb x y s t hx hy h
  rw [toList_equation, toList_equation] at h
  obtain ⟨hnew, hrest⟩ := cut_inj ha.1.1 hb.1.1 h
  obtain ⟨hold, hrest⟩ := endsAt_of_free _ _ ha.2 hb.2 x y s t hx hy hrest
  exact ⟨Prod.ext (String.toList_injective hnew) (String.toList_injective hold), hrest⟩

theorem append_cons_start {name text : List Char} {mark : Char} (hname : name.head? ≠ some ';')
    (hmark : mark ≠ ';') : ∃ c rest, name ++ mark :: text = c :: rest ∧ c ≠ ';' := by
  cases name with
  | nil => exact ⟨mark, text, rfl, hmark⟩
  | cons c name => exact ⟨c, _, rfl, fun hc => hname (by rw [hc]; rfl)⟩

theorem ModelContract.toList_text (contract : ModelContract) (text : List Char) :
    contract.text.toList ++ ';' :: text = "enforced=".toList ++
      ((toString contract.enforced).toList ++ ';' :: ("columns=".toList ++
        (List.intercalate [','] (contract.columns.map fun column => column.text.toList) ++ ';' ::
          ("renames=".toList ++
            (List.intercalate [','] (contract.renames.map fun rename => (equation rename).toList) ++
              ';' :: text))))) := by
  have hdefinition : contract.text = "enforced=" ++ toString contract.enforced ++ ";columns=" ++
      String.intercalate "," (contract.columns.map ColumnContract.text) ++ ";renames=" ++
      String.intercalate "," (contract.renames.map equation) := rfl
  have hcolumns : ∀ rest, ";columns=".toList ++ rest = ';' :: ("columns=".toList ++ rest) :=
    fun _ => rfl
  have hrenames : ∀ rest, ";renames=".toList ++ rest = ';' :: ("renames=".toList ++ rest) :=
    fun _ => rfl
  have hcomma : ",".toList = [','] := rfl
  rw [hdefinition]
  simp only [String.toList_append, String.toList_intercalate, List.append_assoc, List.cons_append,
    hcolumns, hrenames, hcomma, List.map_map, Function.comp_def]

/-- The text of a contract with plain names is read up to the semicolon behind it. -/
theorem ModelContract.text_inj {a b : ModelContract} (ha : a.Plain) (hb : b.Plain)
    {s t : List Char} (h : a.text.toList ++ ';' :: s = b.text.toList ++ ';' :: t) : a = b := by
  have hfree : ∀ enforced : Bool, ';' ∉ (toString enforced).toList := by decide
  have hinj : ∀ a b : Bool, (toString a).toList = (toString b).toList → a = b := by decide
  rw [ModelContract.toList_text, ModelContract.toList_text] at h
  obtain ⟨henforced, hrest⟩ := cut_inj (hfree _) (hfree _) (List.append_cancel_left h)
  obtain ⟨hcolumns, hrest⟩ := intercalate_stop_inj ColumnContract.endsAt_text (by decide)
    (fun column hcolumn => by
      have htext := column.toList_text []
      rw [List.append_nil] at htext
      rw [htext]
      exact append_cons_start hcolumn.2 (by decide))
    ha.columns hb.columns (List.append_cancel_left hrest)
  obtain ⟨hrenames, -⟩ := intercalate_stop_inj endsAt_rename (by decide)
    (fun rename hrename => by
      have htext := toList_equation rename []
      rw [List.append_nil] at htext
      rw [htext]
      exact append_cons_start hrename.1.2 (by decide))
    ha.renames hb.renames (List.append_cancel_left hrest)
  cases a
  cases b
  cases hinj _ _ henforced
  cases hcolumns
  cases hrenames
  rfl

theorem contractInput_inj {a b : Option ModelContract} {assertions assertions' : List Assertion}
    (ha : ∀ contract ∈ a, contract.Plain) (hb : ∀ contract ∈ b, contract.Plain)
    (h : contractInput a assertions = contractInput b assertions') : a = b := by
  have htext : ∀ (contract : Option ModelContract) (assertions : List Assertion),
      ∃ rest, (contractInput contract assertions).toList =
        ((contract.map ModelContract.text).getD "").toList ++ ';' :: rest := by
    intro contract assertions
    refine ⟨"assertions=".toList ++
      (String.intercalate "," (assertions.map Assertion.describe)).toList, ?_⟩
    rw [contractInput, String.toList_append, String.toList_append, List.append_assoc]
    rfl
  have hstart : ∀ (contract : ModelContract) (s t : List Char),
      contract.text.toList ++ ';' :: s ≠ ';' :: t := by
    intro contract s t heq
    rw [ModelContract.toList_text] at heq
    exact absurd (List.head_eq_of_cons_eq heq) (by decide)
  obtain ⟨s, hs⟩ := htext a assertions
  obtain ⟨t, ht⟩ := htext b assertions'
  have hlist : ((a.map ModelContract.text).getD "").toList ++ ';' :: s =
      ((b.map ModelContract.text).getD "").toList ++ ';' :: t := by
    rw [← hs, ← ht, h]
  cases a with
  | none =>
    cases b with
    | none => rfl
    | some b => exact absurd hlist.symm (hstart b t s)
  | some a =>
    cases b with
    | none => exact absurd hlist (hstart a s t)
    | some b => rw [ModelContract.text_inj (ha a rfl) (hb b rfl) hlist]

end PhloTransform.Core
