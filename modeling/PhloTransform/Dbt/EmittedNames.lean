import PhloTransform.Core.Identity
import PhloTransform.Library.JoinedNames
import Mathlib.Data.List.Forall2

/-!
# The names of emitted files

A file of a dbt project is emitted under the segments of its directory and its stem.  Every
letter outside of the alphabet of a segment is replaced by `_`, so that names that differ in such
letters alone are merged.

Main results:

- Theorem `sanitizeSegment_eq_iff`: the names that are merged.
- Theorem `segmentsPath_eq_iff`: the lists of names that have one path.
-/

namespace PhloTransform.Dbt

open Core (isSegmentChar)
open Library

variable {segment : String}
variable {names names' : List String}

/-! ## Names of the source -/

/-- A letter of a segment, or what it is replaced by. -/
def sanitizeChar (c : Char) : Char :=
  if isSegmentChar c then c else '_'

/-- Sanitize a path segment into a valid Phlo identifier segment. -/
def sanitizeSegment (segment : String) : String :=
  let cleaned := String.ofList (segment.toList.map sanitizeChar)
  if cleaned = "" then "unnamed" else cleaned

/-- The `transforms/`-relative segments for a model file. -/
def emittedSegments (dir : List String) (stem : String) : List String :=
  dir.map sanitizeSegment ++ [sanitizeSegment stem]

/-- The Phlo logical name for emitted segments. -/
def logicalName (segments : List String) (projectName : String) : String :=
  match segments with
  | [] => sanitizeSegment projectName ++ "." ++ ""
  | [name] => sanitizeSegment projectName ++ "." ++ name
  | first :: second :: rest => ".".intercalate (first :: second :: rest)

/-- A path below a root: each segment behind a slash, and then the extension. -/
def segmentsPath (root : String) (segments : List String) (extension : String) : String :=
  segments.foldl (fun path segment => path ++ "/" ++ segment) root ++ extension

/-- The workspace-relative output path for emitted segments. -/
def emittedPath (segments : List String) : String :=
  segmentsPath "transforms" segments ".sql"

/-! ## Letters and names that are merged -/

/-- Two letters that are the same, or both the underscore or outside of the alphabet. -/
def SameLetter (a b : Char) : Prop :=
  a = b ∨ (a = '_' ∨ ¬isSegmentChar a) ∧ (b = '_' ∨ ¬isSegmentChar b)

/-- Names with the same letters, or one without letters and `unnamed`. -/
def SameName (a b : String) : Prop :=
  List.Forall₂ SameLetter a.toList b.toList ∨ (a = "" ∧ b = "unnamed") ∨
    (a = "unnamed" ∧ b = "")

/-- Lists of names that are the same one by one. -/
def SameNames (names names' : List String) : Prop :=
  List.Forall₂ SameName names names'

theorem sanitizeChar_eq_underscore {c : Char} :
    sanitizeChar c = '_' ↔ c = '_' ∨ ¬isSegmentChar c := by
  unfold sanitizeChar
  split
  · next h => simp [h]
  · next h => simp [h]

theorem isSegmentChar_sanitizeChar (c : Char) : isSegmentChar (sanitizeChar c) = true := by
  unfold sanitizeChar
  split
  · assumption
  · decide

theorem sanitizeChar_eq_iff {a b : Char} : sanitizeChar a = sanitizeChar b ↔ SameLetter a b := by
  constructor
  · intro h
    by_cases ha : a = '_' ∨ ¬isSegmentChar a
    · rw [sanitizeChar_eq_underscore.2 ha] at h
      exact .inr ⟨ha, sanitizeChar_eq_underscore.1 h.symm⟩
    · have hb : ¬(b = '_' ∨ ¬isSegmentChar b) := by
        rwa [← sanitizeChar_eq_underscore, ← h, sanitizeChar_eq_underscore]
      rw [not_or, not_not] at ha hb
      rw [sanitizeChar, if_pos ha.2, sanitizeChar, if_pos hb.2] at h
      exact .inl h
  · rintro (rfl | ⟨ha, hb⟩)
    · rfl
    · rw [sanitizeChar_eq_underscore.2 ha, sanitizeChar_eq_underscore.2 hb]

theorem eq_of_map_sanitizeChar {letters plain : List Char}
    (h : letters.map sanitizeChar = plain) (hplain : '_' ∉ plain) : letters = plain := by
  subst h
  refine (List.map_id letters).symm.trans (List.map_congr_left fun c hc => ?_)
  have hne : sanitizeChar c ≠ '_' :=
    fun heq => hplain (heq ▸ List.mem_map_of_mem hc)
  rw [ne_eq, sanitizeChar_eq_underscore, not_or, not_not] at hne
  rw [sanitizeChar, if_pos hne.2, id]

theorem sanitizeSegment_of_ne (h : segment ≠ "") :
    sanitizeSegment segment = String.ofList (segment.toList.map sanitizeChar) := by
  have hcleaned : String.ofList (segment.toList.map sanitizeChar) ≠ "" := by
    intro heq
    have hnil : segment.toList.map sanitizeChar = [] := by
      rw [← String.toList_ofList (l := segment.toList.map sanitizeChar), heq]
      rfl
    exact h (String.toList_inj.1 (List.map_eq_nil_iff.1 hnil))
  rw [sanitizeSegment, if_neg hcleaned]

theorem sanitizeSegment_empty : sanitizeSegment "" = "unnamed" :=
  rfl

theorem sanitizeSegment_of_isSegment (h : Core.isSegment segment = true) :
    sanitizeSegment segment = segment := by
  have hne : segment ≠ "" := by
    rintro rfl
    cases h
  have hletters : segment.toList.map sanitizeChar = segment.toList := by
    refine (List.map_congr_left fun c hc => ?_).trans (List.map_id _)
    rw [sanitizeChar, if_pos (Core.isSegmentChar_of_mem h hc), id]
  rw [sanitizeSegment_of_ne hne, hletters, String.ofList_toList]

/-- A name without underscores is written by itself alone, and `unnamed` by the empty name too. -/
theorem sanitizeSegment_eq_plain {plain : String} (hsegment : Core.isSegment plain = true)
    (hplain : '_' ∉ plain.toList) :
    sanitizeSegment segment = plain ↔ segment = plain ∨ segment = "" ∧ plain = "unnamed" := by
  by_cases hempty : segment = ""
  · subst hempty
    have hne : "" ≠ plain := by
      rintro rfl
      cases hsegment
    rw [sanitizeSegment_empty]
    simp [hne, eq_comm]
  · constructor
    · intro h
      rw [sanitizeSegment_of_ne hempty] at h
      have hletters : segment.toList.map sanitizeChar = plain.toList := by
        rw [← h, String.toList_ofList]
      exact .inl (String.toList_inj.1 (eq_of_map_sanitizeChar hletters hplain))
    · rintro (rfl | ⟨hnil, -⟩)
      · exact sanitizeSegment_of_isSegment hsegment
      · exact absurd hnil hempty

theorem sanitizeSegment_eq_iff {a b : String} :
    sanitizeSegment a = sanitizeSegment b ↔ SameName a b := by
  have hunnamed : ∀ c : String, sanitizeSegment c = "unnamed" ↔ c = "unnamed" ∨ c = "" := by
    intro c
    have hplain : sanitizeSegment c = "unnamed" ↔ c = "unnamed" ∨ c = "" ∧ "unnamed" = "unnamed" :=
      sanitizeSegment_eq_plain rfl (by decide)
    simpa using hplain
  have hletters : List.Forall₂ SameLetter a.toList b.toList ↔
      a.toList.map sanitizeChar = b.toList.map sanitizeChar := by
    rw [← List.forall₂_eq_eq_eq, List.forall₂_map_left_iff, List.forall₂_map_right_iff]
    simp only [sanitizeChar_eq_iff]
  by_cases ha : a = ""
  · subst ha
    rw [sanitizeSegment_empty, eq_comm, hunnamed, SameName, hletters]
    constructor
    · rintro (rfl | rfl)
      · exact .inr (.inl ⟨rfl, rfl⟩)
      · exact .inl rfl
    · rintro (hnil | ⟨-, hb⟩ | ⟨hname, -⟩)
      · exact .inr (String.toList_inj.1 (List.map_eq_nil_iff.1 hnil.symm))
      · exact .inl hb
      · exact absurd hname (by decide)
  · by_cases hb : b = ""
    · subst hb
      rw [sanitizeSegment_empty, hunnamed, SameName, hletters]
      simp [ha]
    · rw [sanitizeSegment_of_ne ha, sanitizeSegment_of_ne hb, String.ofList_inj, SameName, hletters]
      simp [ha, hb]

theorem map_sanitizeSegment_eq_iff :
    names.map sanitizeSegment = names'.map sanitizeSegment ↔ SameNames names names' := by
  rw [← List.forall₂_eq_eq_eq, List.forall₂_map_left_iff, List.forall₂_map_right_iff, SameNames]
  simp only [sanitizeSegment_eq_iff]

/-! ## Paths and identities that are shared -/

theorem isSegmentChar_of_mem_sanitizeSegment {c : Char} (h : c ∈ (sanitizeSegment segment).toList) :
    isSegmentChar c = true := by
  by_cases hempty : segment = ""
  · subst hempty
    rw [sanitizeSegment_empty] at h
    have hunnamed : Core.isSegment "unnamed" = true := rfl
    exact Core.isSegmentChar_of_mem hunnamed h
  · rw [sanitizeSegment_of_ne hempty, String.toList_ofList] at h
    obtain ⟨letter, -, rfl⟩ := List.mem_map.1 h
    exact isSegmentChar_sanitizeChar letter

theorem notMem_sanitized {sep : Char} (hsep : isSegmentChar sep = false) (names : List String) :
    ∀ part ∈ (names.map sanitizeSegment).map String.toList, sep ∉ part := by
  intro part hpart hmem
  obtain ⟨segment, hsegment, rfl⟩ := List.mem_map.1 hpart
  obtain ⟨name, -, rfl⟩ := List.mem_map.1 hsegment
  rw [isSegmentChar_of_mem_sanitizeSegment hmem] at hsep
  cases hsep

theorem toList_injective : Function.Injective String.toList := fun _ _ => String.toList_inj.1

theorem toList_segmentsPath (root extension : String) (segments : List String) :
    (segmentsPath root segments extension).toList =
      root.toList ++ spelled '/' (segments.map String.toList) ++ extension.toList := by
  unfold segmentsPath
  induction segments generalizing root with
  | nil => simp
  | cons segment segments ih =>
    rw [List.foldl_cons, ih]
    simp

theorem segmentsPath_eq_iff {root extension : String} :
    segmentsPath root (names.map sanitizeSegment) extension =
        segmentsPath root (names'.map sanitizeSegment) extension ↔ SameNames names names' := by
  rw [← map_sanitizeSegment_eq_iff, ← String.toList_inj, toList_segmentsPath,
    toList_segmentsPath, List.append_left_inj, List.append_right_inj,
    spelled_inj (notMem_sanitized rfl names) (notMem_sanitized rfl names')]
  exact (List.map_injective_iff.2 toList_injective).eq_iff

theorem emittedSegments_eq (dir : List String) (stem : String) :
    emittedSegments dir stem = (dir ++ [stem]).map sanitizeSegment := by
  rw [emittedSegments, List.map_append, List.map_cons, List.map_nil]

/-- The names of an identity: a model of no directory is in the namespace of the project. -/
def identityNames (projectName : String) (dir : List String) (stem : String) : List String :=
  if dir = [] then [projectName, stem] else dir ++ [stem]

theorem identityNames_ne_nil (projectName : String) (dir : List String) (stem : String) :
    identityNames projectName dir stem ≠ [] := by
  unfold identityNames
  split <;> simp

theorem logicalName_eq (projectName : String) (dir : List String) (stem : String) :
    logicalName (emittedSegments dir stem) projectName =
      ".".intercalate ((identityNames projectName dir stem).map sanitizeSegment) := by
  cases dir with
  | nil => rfl
  | cons first rest =>
    rw [emittedSegments_eq, identityNames, if_neg (List.cons_ne_nil first rest)]
    cases rest with
    | nil => rfl
    | cons second rest => rfl

theorem logicalName_eq_iff {projectName : String} {dir dir' : List String} {stem stem' : String} :
    logicalName (emittedSegments dir stem) projectName =
        logicalName (emittedSegments dir' stem') projectName ↔
      SameNames (identityNames projectName dir stem) (identityNames projectName dir' stem') := by
  have hne : ∀ (d : List String) (s : String),
      ((identityNames projectName d s).map sanitizeSegment).map String.toList ≠ [] := by
    intro d s
    simpa using identityNames_ne_nil projectName d s
  rw [logicalName_eq, logicalName_eq, ← map_sanitizeSegment_eq_iff, ← String.toList_inj,
    String.toList_intercalate, String.toList_intercalate]
  change List.intercalate ['.'] _ = List.intercalate ['.'] _ ↔ _
  rw [intercalate_inj (hne dir stem) (hne dir' stem') (notMem_sanitized rfl _)
    (notMem_sanitized rfl _)]
  exact (List.map_injective_iff.2 toList_injective).eq_iff

end PhloTransform.Dbt
