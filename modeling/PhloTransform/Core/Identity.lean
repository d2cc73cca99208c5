import Mathlib.Data.List.Basic
import Mathlib.Data.Prod.Lex
import Mathlib.Data.String.Basic
import Mathlib.Order.Lex
import Mathlib.Tactic.Common

/-!
# Logical identities

A model is named by a namespace and a non-empty path of identifier-like
segments, an external source by opaque name parts.  The validity of a model's
segments is carried by its identity, so a rendered name can always be parsed
back.

Main results:

- Theorem `ModelId.parse_logicalName`: parsing a rendered model name returns the
  identity it came from.
- Theorem `ModelId.logicalName_injective`: distinct models have distinct names.
-/

namespace PhloTransform.Core

variable {c : Char}
variable {segment : String} {value : List Char}

/-- A logical namespace, for example `assay`. -/
abbrev Namespace := String

/-- `c.is_ascii_alphanumeric() || c == '_' || c == '-'`. -/
def isSegmentChar (c : Char) : Bool :=
  c.isAlphanum || c == '_' || c == '-'

/-- The test of `validate_segment`. -/
def isSegment (segment : String) : Bool :=
  !segment.toList.isEmpty && segment.toList.all isSegmentChar

/-- Identity validation failures. -/
inductive IdentityError where
  | missingPath (value : String)
  | emptyPath
  | invalidSegment (segment : String)
deriving Repr, DecidableEq

def IdentityError.message : IdentityError → String
  | missingPath value =>
    "model identity `" ++ value ++ "` must have at least a namespace and a name"
  | emptyPath => "model identity is missing a name component"
  | invalidSegment segment => "`" ++ segment ++ "` is not a valid identifier segment"

/-- A logical model identity. -/
structure ModelId where
  ns : Namespace
  path : List String
  ns_valid : isSegment ns = true
  path_ne_nil : path ≠ []
  path_valid : ∀ segment ∈ path, isSegment segment = true
deriving DecidableEq

namespace ModelId

@[ext]
theorem ext {a b : ModelId} (hns : a.ns = b.ns) (hpath : a.path = b.path) : a = b := by
  cases a
  cases b
  simp_all

/-- Derived ordering: the namespace first, then the path. -/
def sortKey (id : ModelId) : Lex (String × List String) :=
  toLex (id.ns, id.path)

theorem sortKey_injective : Function.Injective sortKey := by
  intro a b h
  have hpair : (a.ns, a.path) = (b.ns, b.path) := toLex.injective h
  exact ext (congrArg Prod.fst hpair) (congrArg Prod.snd hpair)

instance : LinearOrder ModelId :=
  LinearOrder.lift' sortKey sortKey_injective

/-- Build an identity, validating every segment. -/
def new (ns : Namespace) (path : List String) : Except IdentityError ModelId :=
  if hns : isSegment ns = true then
    if hnil : path = [] then .error .emptyPath
    else
      if hpath : ∀ segment ∈ path, isSegment segment = true then
        .ok ⟨ns, path, hns, hnil, hpath⟩
      else .error (.invalidSegment
        ((path.find? fun segment => !isSegment segment).getD ""))
  else .error (.invalidSegment ns)

/-- The namespace-relative name, e.g. `staging.raw`. -/
def localName (id : ModelId) : String :=
  ".".intercalate id.path

/-- The full dotted name, e.g. `assay.staging.raw`. -/
def logicalName (id : ModelId) : String :=
  id.ns ++ "." ++ id.localName

end ModelId

/-! ## Parsing dotted names -/

/-- `char::is_whitespace`, the Unicode `White_Space` property. -/
def isWhitespace (c : Char) : Bool :=
  (9 ≤ c.toNat && c.toNat ≤ 13) || c.toNat == 0x20 || c.toNat == 0x85 ||
    c.toNat == 0xA0 || c.toNat == 0x1680 ||
    (0x2000 ≤ c.toNat && c.toNat ≤ 0x200A) || c.toNat == 0x2028 ||
    c.toNat == 0x2029 || c.toNat == 0x202F || c.toNat == 0x205F ||
    c.toNat == 0x3000

/-- `str::trim`. -/
def trim (value : List Char) : List Char :=
  ((value.dropWhile isWhitespace).reverse.dropWhile isWhitespace).reverse

/-- The text after `model://` with slashes turned into dots, or the value
itself. -/
def stripUri (value : List Char) : List Char :=
  if "model://".toList.isPrefixOf value then
    (value.drop "model://".toList.length).map fun c => if c = '/' then '.' else c
  else value

/-- `ModelId::parse`: a dotted logical name or a `model://` URI. -/
def ModelId.parse (value : String) : Except IdentityError ModelId :=
  let value := stripUri (trim value.toList)
  match (value.splitOn '.').map String.ofList with
  | ns :: segment :: path => ModelId.new ns (segment :: path)
  | _ => .error (.missingPath (String.ofList value))

/-! ## Rendering and parsing agree -/

theorem isSegmentChar_of_mem (h : isSegment segment = true) (hc : c ∈ segment.toList) :
    isSegmentChar c = true := by
  simp only [isSegment, Bool.and_eq_true, List.all_eq_true] at h
  exact h.2 c hc

theorem dot_notMem_of_isSegment (h : isSegment segment = true) : '.' ∉ segment.toList := by
  intro hdot
  exact absurd (isSegmentChar_of_mem h hdot) (by decide)

/-- Letters, digits, `_`, `-` and the separating dot. -/
def isNameChar (c : Char) : Bool :=
  isSegmentChar c || c == '.'

theorem isAlpha_eq (c : Char) :
    c.isAlpha = (decide (c.val ≥ 'A'.val ∧ c.val ≤ 'Z'.val) ||
      (decide (c.val ≥ 'a'.val) && decide (c.val ≤ 'z'.val))) :=
  rfl

theorem toNat_of_isNameChar (h : isNameChar c = true) :
    c = '_' ∨ c = '-' ∨ c = '.' ∨ (65 ≤ c.toNat ∧ c.toNat ≤ 90) ∨
      (97 ≤ c.toNat ∧ c.toNat ≤ 122) ∨ (48 ≤ c.toNat ∧ c.toNat ≤ 57) := by
  simp only [isNameChar, isSegmentChar, Char.isAlphanum, isAlpha_eq, Char.isDigit, Bool.or_eq_true,
    Bool.and_eq_true, decide_eq_true_eq, beq_iff_eq, UInt32.le_iff_toNat_le, ge_iff_le] at h
  change (((((65 ≤ c.toNat ∧ c.toNat ≤ 90) ∨ (97 ≤ c.toNat ∧ c.toNat ≤ 122)) ∨
    (48 ≤ c.toNat ∧ c.toNat ≤ 57)) ∨ c = '_') ∨ c = '-') ∨ c = '.' at h
  tauto

theorem isWhitespace_of_isNameChar (h : isNameChar c = true) : isWhitespace c = false := by
  rcases toNat_of_isNameChar h with rfl | rfl | rfl | h | h | h
  · decide
  · decide
  · decide
  all_goals
    simp only [isWhitespace, Bool.or_eq_false_iff, Bool.and_eq_false_iff,
      decide_eq_false_iff_not, beq_eq_false_iff_ne]
    omega

theorem ne_colon_of_isNameChar (h : isNameChar c = true) : c ≠ ':' := by
  rintro rfl
  exact absurd h (by decide)

theorem trim_eq_self (h : ∀ c ∈ value, isWhitespace c = false) : trim value = value := by
  have hkeep : ∀ l : List Char, (∀ c ∈ l, isWhitespace c = false) →
      l.dropWhile isWhitespace = l := by
    intro l hl
    cases l with
    | nil => rfl
    | cons c l => rw [List.dropWhile_cons_of_neg (by simp [hl c (by simp)])]
  rw [trim, hkeep value h, hkeep _ (by simpa using h), List.reverse_reverse]

theorem stripUri_eq_self (h : ∀ c ∈ value, c ≠ ':') : stripUri value = value := by
  refine if_neg ?_
  intro hpre
  obtain ⟨rest, rfl⟩ := List.isPrefixOf_iff_prefix.1 hpre
  exact h ':' (by simp) rfl

theorem mem_of_mem_intercalate {α : Type*} {c : α} {sep : List α}
    {ls : List (List α)} (h : c ∈ List.intercalate sep ls) : c ∈ sep ∨ ∃ l ∈ ls, c ∈ l := by
  induction ls with
  | nil => simp at h
  | cons l ls ih =>
    cases ls with
    | nil => exact Or.inr ⟨l, by simp, by simpa using h⟩
    | cons l' ls =>
      rw [List.intercalate_cons_cons, List.mem_append, List.mem_append] at h
      rcases h with (h | h) | h
      · exact Or.inr ⟨l, by simp, h⟩
      · exact Or.inl h
      · rcases ih h with h | ⟨k, hk, hc⟩
        · exact Or.inl h
        · exact Or.inr ⟨k, List.mem_cons_of_mem l hk, hc⟩

namespace ModelId

/-- The name's segments, the namespace first. -/
def segments (id : ModelId) : List String :=
  id.ns :: id.path

theorem isSegment_of_mem_segments (id : ModelId) {segment : String}
    (h : segment ∈ id.segments) : isSegment segment = true := by
  rcases List.mem_cons.1 h with rfl | h
  · exact id.ns_valid
  · exact id.path_valid segment h

theorem toList_logicalName (id : ModelId) :
    id.logicalName.toList = List.intercalate ['.'] (id.segments.map String.toList) := by
  obtain ⟨ns, path, _, hnil, _⟩ := id
  cases path with
  | nil => exact absurd rfl hnil
  | cons segment path =>
    simp [logicalName, localName, segments, String.toList_intercalate]

theorem isNameChar_of_mem_logicalName (id : ModelId) {c : Char}
    (hc : c ∈ id.logicalName.toList) : isNameChar c = true := by
  rw [toList_logicalName] at hc
  rcases mem_of_mem_intercalate hc with hdot | ⟨l, hl, hcl⟩
  · rw [List.mem_singleton.1 hdot]
    decide
  · obtain ⟨segment, hsegment, rfl⟩ := List.mem_map.1 hl
    have hvalid := id.isSegment_of_mem_segments hsegment
    simp [isNameChar, isSegmentChar_of_mem hvalid hcl]

/-- Rendering a model name and parsing it back is the identity. -/
theorem parse_logicalName (id : ModelId) : parse id.logicalName = .ok id := by
  have hws : ∀ c ∈ id.logicalName.toList, isWhitespace c = false := fun c hc =>
    isWhitespace_of_isNameChar (id.isNameChar_of_mem_logicalName hc)
  have hcolon : ∀ c ∈ id.logicalName.toList, c ≠ ':' := fun c hc =>
    ne_colon_of_isNameChar (id.isNameChar_of_mem_logicalName hc)
  have hsplit : (id.logicalName.toList.splitOn '.').map String.ofList =
      id.segments := by
    rw [toList_logicalName, List.splitOn_intercalate]
    · simp
    · intro l hl
      obtain ⟨segment, hsegment, rfl⟩ := List.mem_map.1 hl
      exact dot_notMem_of_isSegment (id.isSegment_of_mem_segments hsegment)
    · simp [segments]
  simp only [parse, trim_eq_self hws, stripUri_eq_self hcolon, hsplit]
  obtain ⟨ns, path, hns, hnil, hpath⟩ := id
  cases path with
  | nil => exact absurd rfl hnil
  | cons segment path =>
    simp only [segments, new, hns, dif_pos]
    rw [dif_neg (by simp), dif_pos hpath]

theorem logicalName_injective : Function.Injective logicalName := by
  intro a b h
  have hparse : Except.ok (ε := IdentityError) a = .ok b := by
    rw [← parse_logicalName, ← parse_logicalName, h]
  exact Except.ok.inj hparse

end ModelId

/-! ## External sources -/

/-- An external relation not produced by the workspace. -/
structure SourceId where
  parts : List String
  parts_ne_nil : parts ≠ []
deriving DecidableEq

/-- The dotted physical name, e.g. `external.raw_assay_results`. -/
def SourceId.logicalName (source : SourceId) : String :=
  ".".intercalate source.parts

end PhloTransform.Core
