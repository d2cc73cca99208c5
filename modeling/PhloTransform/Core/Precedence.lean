import PhloTransform.Core.Resolve
import PhloTransform.Library.JoinedNames

/-!
# The precedence of resolution

Resolution is documented as a scan over levels: the exact name, the reading model's namespace,
its transform root, a dotted suffix, and last an external source.  A level knows an entry under
names of several parts.  The indexes know it under the dotted texts of these names, so that a
part with a dot in it can be taken for several parts.

Main results:

- Theorem `Resolver.lookup_new`: an index holds what a scan over the dotted texts finds.
- Theorem `Resolver.resolve_perm`: the order of the entries does not matter.
-/

namespace PhloTransform.Core

open Sql

/-! ## The levels -/

/-- The levels of precedence at which a name can match a model. -/
inductive Level where
  | exact
  | inNamespace
  | inRoot
  | suffix
deriving DecidableEq, Repr

/-- A name and what is left of it without its first parts. -/
def suffixes : List String → List (List String)
  | [] => []
  | part :: parts => (part :: parts) :: suffixes parts

namespace Level

def before : Level → List Level
  | exact => []
  | inNamespace => [exact]
  | inRoot => [exact, inNamespace]
  | suffix => [exact, inNamespace, inRoot]

/-- The names, part by part, under which the level knows an entry. -/
def names (current entry : RegistryEntry) : Level → List (List String)
  | exact => [entry.id.segments]
  | inNamespace => if entry.ns = current.ns then [entry.id.path] else []
  | inRoot =>
    match current.root, entry.root with
    | some here, some there => if there.id = here.id then [there.relativePath] else []
    | _, _ => []
  | suffix => suffixes entry.id.segments

/-- The candidates of the level in the indexes. -/
def lookup (resolver : Resolver) (current : RegistryEntry) (full : String) :
    Level → List ModelId
  | exact => resolver.byLogical full
  | inNamespace => resolver.byNamespace current.ns full
  | inRoot => resolver.inRoot current full
  | suffix => resolver.bySuffix full

end Level

/-- The entry has the name at the level, part by part. -/
def Matches (current : RegistryEntry) (name : RelationName) (level : Level)
    (entry : RegistryEntry) : Prop :=
  name.parts ∈ level.names current entry

/-- The entry has the name's dotted text at the level. -/
def Reads (current : RegistryEntry) (name : RelationName) (level : Level)
    (entry : RegistryEntry) : Prop :=
  name.asDotted ∈ (level.names current entry).map (".".intercalate ·)

instance (current : RegistryEntry) (name : RelationName) (level : Level) :
    DecidablePred (Matches current name level) := fun entry =>
  inferInstanceAs (Decidable (name.parts ∈ level.names current entry))

instance (current : RegistryEntry) (name : RelationName) (level : Level) :
    DecidablePred (Reads current name level) := fun entry =>
  inferInstanceAs (Decidable (name.asDotted ∈ (level.names current entry).map _))

/-- The entry has the name's dotted text for other parts. -/
def Misread (current : RegistryEntry) (name : RelationName) (level : Level)
    (entry : RegistryEntry) : Prop :=
  Reads current name level entry ∧ ¬ Matches current name level entry

theorem Matches.reads {current : RegistryEntry} {name : RelationName} {level : Level}
    {entry : RegistryEntry} (h : Matches current name level entry) :
    Reads current name level entry :=
  List.mem_map_of_mem h

/-! ## The scan -/

section Scan

variable (entries : List RegistryEntry) (current : RegistryEntry) (name : RelationName)

/-- The identity of an entry that matches at the level. -/
def Candidate (level : Level) (id : ModelId) : Prop :=
  ∃ entry ∈ entries, Matches current name level entry ∧ entry.id = id

/-- No entry matches at a level before this one. -/
def Reached (level : Level) : Prop :=
  ∀ earlier ∈ level.before, ∀ id, ¬ Candidate entries current name earlier id

/-- What the documented levels answer. -/
inductive Answers : Resolution → Prop where
  | model {level : Level} {id : ModelId} (reached : Reached entries current name level)
      (one : ∀ other, Candidate entries current name level other ↔ other = id) :
      Answers (.model id)
  | ambiguous {level : Level} {ids : List ModelId} (reached : Reached entries current name level)
      (distinct : ids.Nodup) (several : 2 ≤ ids.length)
      (all : ∀ other, other ∈ ids ↔ Candidate entries current name level other) :
      Answers (.ambiguous ids)
  | external {source : SourceId}
      (nothing : ∀ level id, ¬ Candidate entries current name level id)
      (parts : source.parts = name.parts) : Answers (.external source)

/-- Resolution is the scan: it gives the documented answer, the candidates at each level that
it comes to are those of the entries that match part by part, and the order of the entries does
not matter. -/
structure Faithful : Prop where
  answer : Answers entries current name ((Resolver.new entries).resolve current name)
  partByPart : ∀ level : Level,
    (∀ earlier ∈ level.before,
      earlier.lookup (Resolver.new entries) current name.asDotted = []) →
    level.lookup (Resolver.new entries) current name.asDotted =
      (entries.filter fun entry => Matches current name level entry).map (·.id)
  order : ∀ other : List RegistryEntry, other.Perm entries →
    (Resolver.new other).resolve current name = (Resolver.new entries).resolve current name

end Scan

/-! ## The indexes -/

theorem afterDots_append {part : List Char} (h : '.' ∉ part) (rest : List Char) :
    afterDots (part ++ rest) = afterDots rest := by
  induction part with
  | nil => rfl
  | cons c part ih =>
    rw [List.mem_cons, not_or] at h
    rw [List.cons_append, afterDots, if_neg (Ne.symm h.1), ih h.2]

/-- The dotted suffixes of a name whose parts have no dots. -/
theorem dottedSuffixes_intercalate {part : String} {parts : List String}
    (h : ∀ p ∈ part :: parts, '.' ∉ p.toList) :
    dottedSuffixes (".".intercalate (part :: parts)) =
      (suffixes (part :: parts)).map (".".intercalate ·) := by
  induction parts generalizing part with
  | nil =>
    have hnone := afterDots_append (h part List.mem_cons_self) []
    rw [List.append_nil] at hnone
    rw [dottedSuffixes, String.intercalate_singleton, hnone]
    rfl
  | cons next parts ih =>
    have hrest := ih fun p hp => h p (List.mem_cons_of_mem part hp)
    have hdot : ".".toList = ['.'] := rfl
    rw [suffixes, List.map_cons, ← hrest, dottedSuffixes, String.intercalate_cons_cons,
      String.toList_append, String.toList_append, List.append_assoc,
      afterDots_append (h part List.mem_cons_self), hdot, List.singleton_append, afterDots,
      if_pos rfl, dottedSuffixes, List.map_cons, String.ofList_toList]

theorem logicalName_eq (id : ModelId) : id.logicalName = ".".intercalate id.segments := by
  rw [← String.toList_inj, id.toList_logicalName, String.toList_intercalate]
  rfl

theorem dottedSuffixes_logicalName (id : ModelId) :
    dottedSuffixes id.logicalName = (suffixes id.segments).map (".".intercalate ·) := by
  rw [logicalName_eq]
  exact dottedSuffixes_intercalate fun segment hsegment =>
    dot_notMem_of_isSegment (id.isSegment_of_mem_segments hsegment)

theorem length_of_mem_afterDots {text suffix : List Char} (h : suffix ∈ afterDots text) :
    suffix.length < text.length := by
  induction text with
  | nil => exact absurd h List.not_mem_nil
  | cons c text ih =>
    have hlater : suffix ∈ afterDots text → suffix.length < (c :: text).length := fun h =>
      (ih h).trans (Nat.lt_succ_self _)
    rw [afterDots] at h
    split at h
    · rcases List.mem_cons.1 h with rfl | h
      · exact Nat.lt_succ_self _
      · exact hlater h
    · exact hlater h

theorem nodup_afterDots (text : List Char) : (afterDots text).Nodup := by
  induction text with
  | nil => exact List.nodup_nil
  | cons c text ih =>
    rw [afterDots]
    split
    · exact List.nodup_cons.2 ⟨fun h => (length_of_mem_afterDots h).false, ih⟩
    · exact ih

theorem nodup_dottedSuffixes (logical : String) : (dottedSuffixes logical).Nodup := by
  rw [dottedSuffixes, List.nodup_cons]
  refine ⟨fun h => ?_, (nodup_afterDots _).map fun _ _ => String.ofList_injective⟩
  obtain ⟨suffix, hsuffix, hlogical⟩ := List.mem_map.1 h
  have hlength := length_of_mem_afterDots hsuffix
  rw [← hlogical, String.toList_ofList] at hlength
  exact hlength.false

theorem flatMap_filter_eq {names : RegistryEntry → List String} (hnodup : ∀ e, (names e).Nodup)
    (entries : List RegistryEntry) (full : String) :
    (entries.flatMap fun e => ((names e).filter (· = full)).map fun _ => e.id) =
      (entries.filter fun e => full ∈ names e).map (·.id) := by
  induction entries with
  | nil => rfl
  | cons entry entries ih =>
    have hcount := (hnodup entry).count (a := full)
    rw [List.flatMap_cons, ih, List.filter_eq, List.map_replicate, hcount]
    by_cases hmem : full ∈ names entry
    · simp [hmem]
    · simp [hmem]

namespace Resolver

variable {candidates : List ModelId}

/-- An index holds what a scan over the dotted texts finds. -/
theorem lookup_new (entries : List RegistryEntry) (current : RegistryEntry) (name : RelationName)
    (level : Level) :
    level.lookup (new entries) current name.asDotted =
      (entries.filter fun entry => Reads current name level entry).map (·.id) := by
  cases level with
  | exact =>
    refine congrArg (List.map _) (List.filter_congr fun entry _ => ?_)
    simp [Reads, Level.names, logicalName_eq, eq_comm]
  | inNamespace =>
    refine congrArg (List.map _) (List.filter_congr fun entry _ => ?_)
    by_cases hns : entry.ns = current.ns <;>
      simp [Reads, Level.names, hns, ModelId.localName, eq_comm]
  | inRoot =>
    cases hroot : current.root with
    | none => simp [Level.lookup, inRoot, Reads, Level.names, hroot]
    | some here =>
      simp only [Level.lookup, inRoot, hroot]
      refine congrArg (List.map _) (List.filter_congr fun entry _ => ?_)
      cases hentry : entry.root with
      | none => simp [standsAt, Reads, Level.names, hroot, hentry]
      | some there =>
        by_cases hid : there.id = here.id
        · have htext : (".".intercalate there.relativePath == name.asDotted) =
              decide (name.asDotted = ".".intercalate there.relativePath) := by
            rw [Bool.beq_eq_decide_eq, decide_eq_decide, eq_comm]
          simp [standsAt, Reads, Level.names, hroot, hentry, hid, htext]
        · simp [standsAt, Reads, Level.names, hroot, hentry, hid]
  | suffix =>
    refine (flatMap_filter_eq (fun e => nodup_dottedSuffixes e.id.logicalName) entries _).trans ?_
    refine congrArg (List.map _) (List.filter_congr fun entry _ => ?_)
    simp [Reads, Level.names, dottedSuffixes_logicalName]

/-! ## Unique candidates -/

theorem mem_sorted_candidates {id : ModelId} :
    id ∈ candidates.dedup.insertionSort (· ≤ ·) ↔ id ∈ candidates := by
  rw [List.mem_insertionSort, List.mem_dedup]

theorem nodup_sorted_candidates (candidates : List ModelId) :
    (candidates.dedup.insertionSort (· ≤ ·)).Nodup :=
  (List.perm_insertionSort _ _).nodup_iff.2 (List.nodup_dedup _)

theorem unique_nil : unique [] = none :=
  rfl

theorem unique_cases (h : candidates ≠ []) :
    (∃ id, unique candidates = some (.model id) ∧ ∀ other, other ∈ candidates ↔ other = id) ∨
      ∃ ids, unique candidates = some (.ambiguous ids) ∧ ids.Nodup ∧ 2 ≤ ids.length ∧
        ∀ other, other ∈ ids ↔ other ∈ candidates := by
  have hmem (other : ModelId) : other ∈ candidates.dedup.insertionSort (· ≤ ·) ↔
      other ∈ candidates := mem_sorted_candidates
  have hnodup := nodup_sorted_candidates candidates
  unfold unique
  generalize candidates.dedup.insertionSort (· ≤ ·) = sorted at hmem hnodup
  match sorted with
  | [] =>
    obtain ⟨id, hid⟩ := List.exists_mem_of_ne_nil candidates h
    exact absurd ((hmem id).2 hid) List.not_mem_nil
  | [id] => exact .inl ⟨id, rfl, fun other => by rw [← hmem, List.mem_singleton]⟩
  | first :: second :: rest => exact .inr ⟨_, rfl, hnodup, by simp, hmem⟩

theorem unique_perm {others : List ModelId} (h : candidates.Perm others) :
    unique candidates = unique others := by
  have hperm : (candidates.dedup.insertionSort (· ≤ ·)).Perm (others.dedup.insertionSort (· ≤ ·)) :=
    (List.perm_insertionSort _ _).trans (h.dedup.trans (List.perm_insertionSort _ _).symm)
  have hsorted := hperm.eq_of_pairwise' (List.pairwise_insertionSort (· ≤ ·) candidates.dedup)
    (List.pairwise_insertionSort (· ≤ ·) others.dedup)
  rw [unique, unique, hsorted]

/-! ## Lookups in their order -/

variable {resolver : Resolver} {current : RegistryEntry} {name : RelationName}

theorem resolve_of_first {level : Level} {resolution : Resolution}
    (hbefore : ∀ earlier ∈ level.before,
      earlier.lookup resolver current name.asDotted = [])
    (h : unique (level.lookup resolver current name.asDotted) = some resolution) :
    resolver.resolve current name = resolution := by
  cases level with
  | exact =>
    rw [Level.lookup] at h
    simp only [resolve, h]
  | inNamespace =>
    simp only [Level.before, List.mem_singleton, forall_eq, Level.lookup] at hbefore h
    simp only [resolve, hbefore, unique_nil, h]
  | inRoot =>
    simp only [Level.before, List.mem_cons, List.not_mem_nil, or_false, forall_eq_or_imp,
      forall_eq, Level.lookup] at hbefore h
    simp only [resolve, hbefore, unique_nil, h]
  | suffix =>
    simp only [Level.before, List.mem_cons, List.not_mem_nil, or_false, forall_eq_or_imp,
      forall_eq, Level.lookup] at hbefore h
    simp only [resolve, resolveGlobal, hbefore, unique_nil, h]

theorem resolve_of_nothing
    (h : ∀ level : Level, level.lookup resolver current name.asDotted = []) :
    resolver.resolve current name =
      .external { parts := name.parts, parts_ne_nil := name.parts_ne_nil } := by
  have hexact := h .exact
  have hnamespace := h .inNamespace
  have hroot := h .inRoot
  have hsuffix := h .suffix
  simp only [Level.lookup] at hexact hnamespace hroot hsuffix
  simp only [resolve, resolveGlobal, hexact, hnamespace, hroot, hsuffix, unique_nil]

theorem resolve_perm {entries others : List RegistryEntry} (h : others.Perm entries)
    (current : RegistryEntry) (name : RelationName) :
    (new others).resolve current name = (new entries).resolve current name := by
  have hlookup (level : Level) :
      unique (level.lookup (new others) current name.asDotted) =
        unique (level.lookup (new entries) current name.asDotted) := by
    rw [lookup_new, lookup_new]
    exact unique_perm ((h.filter _).map _)
  have hexact := hlookup .exact
  have hnamespace := hlookup .inNamespace
  have hroot := hlookup .inRoot
  have hsuffix := hlookup .suffix
  simp only [Level.lookup] at hexact hnamespace hroot hsuffix
  simp only [resolve, resolveGlobal, hexact, hnamespace, hroot, hsuffix]

end Resolver

/-! ## Agreement with the scan -/

namespace Level

theorem forall_of_before {P : Level → Prop}
    (h : ∀ level : Level, (∀ earlier ∈ level.before, P earlier) → P level) (level : Level) :
    P level := by
  have hexact : P exact := h exact (by simp [before])
  have hnamespace : P inNamespace := h inNamespace (by simp [before, hexact])
  have hroot : P inRoot := h inRoot (by simp [before, hexact, hnamespace])
  have hsuffix : P suffix := h suffix (by simp [before, hexact, hnamespace, hroot])
  cases level <;> assumption

theorem before_trans {first earlier level : Level} (h : first ∈ earlier.before)
    (hlevel : earlier ∈ level.before) : first ∈ level.before := by
  cases level <;> cases earlier <;> cases first <;> simp_all [before]

end Level

open Resolver

variable {entries : List RegistryEntry} {current : RegistryEntry} {name : RelationName}
  {level : Level} {entry : RegistryEntry}

theorem Reached.of_before {earlier : Level} (h : Reached entries current name level)
    (hearlier : earlier ∈ level.before) : Reached entries current name earlier :=
  fun first hfirst => h first (Level.before_trans hfirst hearlier)

theorem lookup_eq_nil :
    level.lookup (new entries) current name.asDotted = [] ↔
      ∀ entry ∈ entries, ¬ Reads current name level entry := by
  rw [lookup_new, List.map_eq_nil_iff, List.filter_eq_nil_iff]
  simp

theorem reached_of_lookup
    (h : ∀ earlier ∈ level.before, earlier.lookup (new entries) current name.asDotted = []) :
    Reached entries current name level := by
  rintro earlier hearlier id ⟨entry, hentry, hmatches, -⟩
  exact lookup_eq_nil.1 (h earlier hearlier) entry hentry hmatches.reads

theorem lookup_eq (h : ∀ entry ∈ entries, ¬ Misread current name level entry) :
    level.lookup (new entries) current name.asDotted =
      (entries.filter fun entry => Matches current name level entry).map (·.id) := by
  rw [lookup_new]
  refine congrArg (List.map _) (List.filter_congr fun entry hentry => ?_)
  rw [decide_eq_decide]
  exact ⟨fun hreads => by_contra fun hne => h entry hentry ⟨hreads, hne⟩, Matches.reads⟩

theorem not_misread_of_lookup_eq
    (h : level.lookup (new entries) current name.asDotted =
      (entries.filter fun entry => Matches current name level entry).map (·.id)) :
    ∀ entry ∈ entries, ¬ Misread current name level entry := by
  rintro entry hentry ⟨hreads, hne⟩
  rw [lookup_new] at h
  have hlength := congrArg List.length h
  rw [List.length_map, List.length_map] at hlength
  have hsub : (entries.filter fun entry => Matches current name level entry).Sublist
      (entries.filter fun entry => Reads current name level entry) :=
    List.monotone_filter_right entries fun entry hmatches => by
      simpa using (of_decide_eq_true hmatches : Matches current name level entry).reads
  have hsame := hsub.eq_of_length hlength.symm
  have hmem : entry ∈ entries.filter fun entry => Reads current name level entry :=
    List.mem_filter.2 ⟨hentry, decide_eq_true hreads⟩
  rw [← hsame] at hmem
  exact hne (of_decide_eq_true (List.mem_filter.1 hmem).2)

theorem candidate_iff {id : ModelId} :
    Candidate entries current name level id ↔
      id ∈ (entries.filter fun entry => Matches current name level entry).map (·.id) := by
  simp only [Candidate, List.mem_map, List.mem_filter, decide_eq_true_eq, and_assoc]

/-- Where no entry is misread the answer is the documented one. -/
theorem answers_resolve
    (h : ∀ level, Reached entries current name level →
      ∀ entry ∈ entries, ¬ Misread current name level entry) :
    Answers entries current name ((new entries).resolve current name) := by
  by_cases hnothing : ∀ level : Level, level.lookup (new entries) current name.asDotted = []
  · rw [resolve_of_nothing hnothing]
    refine .external (fun level id hcandidate => ?_) rfl
    obtain ⟨entry, hentry, hmatches, -⟩ := hcandidate
    exact lookup_eq_nil.1 (hnothing level) entry hentry hmatches.reads
  · -- the first level at which the indexes have a candidate
    have hfirst : ∃ level : Level,
        (∀ earlier ∈ level.before, earlier.lookup (new entries) current name.asDotted = []) ∧
          level.lookup (new entries) current name.asDotted ≠ [] := by
      by_contra hnone
      refine hnothing (Level.forall_of_before fun level hbefore => ?_)
      by_contra hne
      exact hnone ⟨level, hbefore, hne⟩
    obtain ⟨level, hbefore, hne⟩ := hfirst
    have hreached := reached_of_lookup hbefore
    have hlookup := lookup_eq (h level hreached)
    rcases unique_cases hne with ⟨id, hunique, hone⟩ | ⟨ids, hunique, hdistinct, hseveral, hall⟩
    · rw [resolve_of_first hbefore hunique]
      refine .model hreached fun other => ?_
      rw [candidate_iff, ← hlookup]
      exact hone other
    · rw [resolve_of_first hbefore hunique]
      refine .ambiguous hreached hdistinct hseveral fun other => ?_
      rw [candidate_iff, ← hlookup]
      exact hall other

theorem faithful_of_not_misread
    (h : ∀ level, Reached entries current name level →
      ∀ entry ∈ entries, ¬ Misread current name level entry) : Faithful entries current name where
  answer := answers_resolve h
  partByPart level hbefore := lookup_eq (h level (reached_of_lookup hbefore))
  order _ hother := resolve_perm hother current name

theorem Faithful.not_misread (h : Faithful entries current name) (level : Level) :
    Reached entries current name level → ∀ entry ∈ entries, ¬ Misread current name level entry := by
  induction level using Level.forall_of_before with
  | h level ih =>
    intro hreached
    apply not_misread_of_lookup_eq
    apply h.partByPart
    intro earlier hearlier
    refine lookup_eq_nil.2 fun entry hentry hreads => ?_
    refine ih earlier hearlier (hreached.of_before hearlier) entry hentry ⟨hreads, ?_⟩
    exact fun hmatches => hreached earlier hearlier entry.id ⟨entry, hentry, hmatches, rfl⟩

/-- Resolution is the scan exactly when no entry has the name's dotted text for other parts at
a level before which nothing matches. -/
theorem resolve_faithful_iff (entries : List RegistryEntry) (current : RegistryEntry)
    (name : RelationName) :
    Faithful entries current name ↔
      ∀ level, Reached entries current name level →
        ∀ entry ∈ entries, ¬ Misread current name level entry :=
  ⟨Faithful.not_misread, faithful_of_not_misread⟩

/-! ## Names without dots in their parts -/

/-! ## A quoted name with a dot -/

namespace Sample

def rawEntry : RegistryEntry where
  id :=
    { ns := "assay"
      path := ["raw"]
      ns_valid := Eq.refl true
      path_ne_nil := by simp
      path_valid := by decide }
  ns := "assay"
  root := some { id := 0, relativePath := ["raw"] }

def quotedRaw : RelationName where
  parts := ["assay.raw"]
  parts_ne_nil := by simp
  part_ne_empty := by simp

/-- One quoted identifier resolves to a model whose name has two segments. -/
theorem quotedRaw_resolves_to_model :
    (Resolver.new [rawEntry]).resolve rawEntry quotedRaw = .model rawEntry.id ∧
      ¬ Faithful [rawEntry] rawEntry quotedRaw := by
  have hmodel : (Resolver.new [rawEntry]).resolve rawEntry quotedRaw = .model rawEntry.id := by
    decide +kernel
  refine ⟨hmodel, fun h => ?_⟩
  have hanswer := h.answer
  rw [hmodel] at hanswer
  cases hanswer with
  | @model level _ _ hone =>
    obtain ⟨entry, hentry, hmatches, -⟩ := (hone rawEntry.id).2 rfl
    rw [List.mem_singleton.1 hentry] at hmatches
    cases level with
    | exact => exact absurd hmatches (by decide)
    | inNamespace => exact absurd hmatches (by decide)
    | inRoot => exact absurd hmatches (by decide)
    | suffix => exact absurd hmatches (by decide)

end Sample

end PhloTransform.Core
