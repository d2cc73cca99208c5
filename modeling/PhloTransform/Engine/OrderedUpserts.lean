import PhloTransform.Engine.State
import PhloTransform.Library.Contest
import Mathlib.Data.List.Pairwise
import Mathlib.Data.Set.Basic

/-!
# Convergence of ordered upserts

Materialisations and seed loads are written by upserts that drop an older row.
Two timestamps are compared as instants when both parse and as text otherwise,
so the comparison is transitive unless a timestamp that does not parse stands, as
text, between two that parse and whose text and instants disagree.

Main results:

- Theorem `cmpRfc3339_trans_iff`: when the comparison is a preorder on a set of
  timestamps.
- Theorem `upserts_converge_iff`: when the upserts leave the same row in every
  order.
-/

namespace PhloTransform.Engine

open Library (Champion Table Transitive contend exists_champion foldl_contend_cycle
  foldl_contend_map)

variable [Rfc3339]
variable {a b : String}

/-! ## The comparison of three timestamps -/

theorem cmpRfc3339_of_left (ha : Rfc3339.parse a = none) (b : String) :
    cmpRfc3339 a b = compare a b := by
  simp [cmpRfc3339, ha]

theorem cmpRfc3339_of_right (a : String) (hb : Rfc3339.parse b = none) :
    cmpRfc3339 a b = compare a b := by
  cases ha : Rfc3339.parse a <;> simp [cmpRfc3339, ha, hb]

theorem notBefore_eq_false_iff : notBefore a b = false ↔ cmpRfc3339 a b = .lt := by
  simp [notBefore]

theorem cmpRfc3339_eq_gt_iff : cmpRfc3339 a b = .gt ↔ cmpRfc3339 b a = .lt := by
  rw [← cmpRfc3339_swap a b]
  cases cmpRfc3339 a b <;> simp

theorem cmpRfc3339_le_of_parse {x y : Int} (ha : Rfc3339.parse a = some x)
    (hb : Rfc3339.parse b = some y) : cmpRfc3339 a b ≠ .gt ↔ x ≤ y := by
  rw [cmpRfc3339_of_parse ha hb, ne_eq, compare_gt_iff_gt]
  exact not_lt

theorem cmpRfc3339_le_of_text (h : Rfc3339.parse a = none ∨ Rfc3339.parse b = none) :
    cmpRfc3339 a b ≠ .gt ↔ a ≤ b := by
  have hcmp : cmpRfc3339 a b = compare a b :=
    h.elim (fun ha => cmpRfc3339_of_left ha b) fun hb => cmpRfc3339_of_right a hb
  have hgt : compare a b = .gt ↔ b < a := compare_gt_iff_gt
  rw [hcmp, ne_eq, hgt]
  exact not_lt

/-- `c` does not parse and stands, as text, between two timestamps that parse, the
one that is less as text being the later instant. -/
def Crosses (a b c : String) : Prop :=
  ∃ x y, Rfc3339.parse a = some x ∧ Rfc3339.parse b = some y ∧ x < y ∧
    Rfc3339.parse c = none ∧ b < c ∧ c < a

/-- The same, where the two instants may also agree. -/
def CrossesWeakly (a b c : String) : Prop :=
  ∃ x y, Rfc3339.parse a = some x ∧ Rfc3339.parse b = some y ∧ x ≤ y ∧
    Rfc3339.parse c = none ∧ b < c ∧ c < a

theorem ne_of_parse {c : String} {x : Int} (ha : Rfc3339.parse a = some x)
    (hc : Rfc3339.parse c = none) : a ≠ c := by
  rintro rfl
  simp [ha] at hc

/-- Two steps of the comparison are one step, or a timestamp that does not parse
stands between the other two. -/
theorem cmpRfc3339_trans {c : String} (hab : cmpRfc3339 a b ≠ .gt) (hbc : cmpRfc3339 b c ≠ .gt) :
    cmpRfc3339 a c ≠ .gt ∨ CrossesWeakly a b c ∨ CrossesWeakly b c a ∨ CrossesWeakly c a b := by
  by_cases hac : cmpRfc3339 a c ≠ .gt
  · exact Or.inl hac
  right
  cases ha : Rfc3339.parse a with
  | none =>
    rw [cmpRfc3339_le_of_text (Or.inl ha)] at hab hac
    cases hb : Rfc3339.parse b with
    | none =>
      rw [cmpRfc3339_le_of_text (Or.inl hb)] at hbc
      exact absurd (hab.trans hbc) hac
    | some y =>
      cases hc : Rfc3339.parse c with
      | none =>
        rw [cmpRfc3339_le_of_text (Or.inr hc)] at hbc
        exact absurd (hab.trans hbc) hac
      | some z =>
        rw [cmpRfc3339_le_of_parse hb hc] at hbc
        exact Or.inr (Or.inl ⟨y, z, hb, hc, hbc, ha, not_le.1 hac,
          lt_of_le_of_ne hab (ne_of_parse hb ha).symm⟩)
  | some x =>
    cases hb : Rfc3339.parse b with
    | none =>
      rw [cmpRfc3339_le_of_text (Or.inr hb)] at hab
      rw [cmpRfc3339_le_of_text (Or.inl hb)] at hbc
      cases hc : Rfc3339.parse c with
      | none =>
        rw [cmpRfc3339_le_of_text (Or.inr hc)] at hac
        exact absurd (hab.trans hbc) hac
      | some z =>
        rw [cmpRfc3339_le_of_parse ha hc] at hac
        exact Or.inr (Or.inr ⟨z, x, hc, ha, (not_le.1 hac).le, hb,
          lt_of_le_of_ne hab (ne_of_parse ha hb),
          lt_of_le_of_ne hbc (ne_of_parse hc hb).symm⟩)
    | some y =>
      rw [cmpRfc3339_le_of_parse ha hb] at hab
      cases hc : Rfc3339.parse c with
      | none =>
        rw [cmpRfc3339_le_of_text (Or.inr hc)] at hbc hac
        exact Or.inl ⟨x, y, ha, hb, hab, hc,
          lt_of_le_of_ne hbc (ne_of_parse hb hc), not_le.1 hac⟩
      | some z =>
        rw [cmpRfc3339_le_of_parse hb hc] at hbc
        rw [cmpRfc3339_le_of_parse ha hc] at hac
        exact absurd (hab.trans hbc) hac

/-- The comparison is a preorder on a set of timestamps exactly when none of them
that does not parse stands between two that parse and disagree. -/
theorem cmpRfc3339_trans_iff (T : Set String) :
    (∀ a ∈ T, ∀ b ∈ T, ∀ c ∈ T, cmpRfc3339 a b ≠ .gt → cmpRfc3339 b c ≠ .gt →
        cmpRfc3339 a c ≠ .gt) ↔ ∀ a ∈ T, ∀ b ∈ T, ∀ c ∈ T, ¬ CrossesWeakly a b c := by
  constructor
  · rintro htrans a ha b hb c hc ⟨x, y, hx, hy, hxy, hnone, hbc, hca⟩
    have hab := (cmpRfc3339_le_of_parse hx hy).2 hxy
    have hbc := (cmpRfc3339_le_of_text (Or.inr hnone)).2 hbc.le
    have hac := htrans a ha b hb c hc hab hbc
    rw [cmpRfc3339_le_of_text (Or.inr hnone)] at hac
    exact absurd hca hac.not_gt
  · intro hnot a ha b hb c hc hab hbc
    rcases cmpRfc3339_trans hab hbc with hac | h | h | h
    · exact hac
    · exact absurd h (hnot a ha b hb c hc)
    · exact absurd h (hnot b hb c hc a ha)
    · exact absurd h (hnot c hc a ha b hb)

/-! ## The contest for one row -/

section Contest

variable {R : Type*} (stamp : R → String)
variable {rows : List R}
variable {r s c : R}

def replaces (old new : R) : Bool :=
  notBefore (stamp new) (stamp old)

/-- No two rows have the same instant or the same text. -/
def StampsApart (rows : List R) : Prop :=
  rows.Pairwise fun r s => cmpRfc3339 (stamp r) (stamp s) ≠ .eq

variable {stamp}

theorem StampsApart.ne_eq (h : StampsApart stamp rows) (hr : r ∈ rows) (hs : s ∈ rows) (hrs : r ≠ s)
    : cmpRfc3339 (stamp r) (stamp s) ≠ .eq := by
  have hsymm : Std.Symm fun r s : R => cmpRfc3339 (stamp r) (stamp s) ≠ .eq :=
    ⟨fun r s h heq => h (by rw [← cmpRfc3339_swap, heq]; rfl)⟩
  exact List.Pairwise.forall h hr hs hrs

theorem replaces_iff (h : StampsApart stamp rows) (hr : r ∈ rows) (hs : s ∈ rows) (hrs : r ≠ s) :
    replaces stamp r s = true ↔ cmpRfc3339 (stamp r) (stamp s) = .lt := by
  have hne := h.ne_eq hr hs hrs
  rw [replaces, ← Bool.not_eq_false, notBefore_eq_false_iff, ← cmpRfc3339_eq_gt_iff]
  cases hcmp : cmpRfc3339 (stamp r) (stamp s) with
  | eq => exact absurd hcmp hne
  | lt | gt => simp

theorem StampsApart.lt_iff (h : StampsApart stamp rows) (hr : r ∈ rows) (hs : s ∈ rows)
    (hrs : r ≠ s) :
    cmpRfc3339 (stamp r) (stamp s) = .lt ↔ cmpRfc3339 (stamp r) (stamp s) ≠ .gt := by
  have hne := h.ne_eq hr hs hrs
  cases hcmp : cmpRfc3339 (stamp r) (stamp s) with
  | eq => exact absurd hcmp hne
  | lt | gt => simp

/-- A weak crossing among rows that are apart is a crossing. -/
theorem StampsApart.crosses (h : StampsApart stamp rows) {a b : R} (ha : a ∈ rows) (hb : b ∈ rows)
    (hcross : CrossesWeakly (stamp a) (stamp b) (stamp c)) :
    Crosses (stamp a) (stamp b) (stamp c) := by
  obtain ⟨x, y, hx, hy, hxy, hnone, hbc, hca⟩ := hcross
  refine ⟨x, y, hx, hy, lt_of_le_of_ne hxy ?_, hnone, hbc, hca⟩
  rintro rfl
  have hab : a ≠ b := by
    rintro rfl
    exact absurd (hbc.trans hca) (lt_irrefl _)
  exact h.ne_eq ha hb hab (by rw [cmpRfc3339_of_parse hx hy]; simp)

/-- Rows that are apart and do not cross are a transitive contest. -/
theorem transitive_of_not_crosses (h : StampsApart stamp rows)
    (hnot : ∀ a ∈ rows, ∀ b ∈ rows, ∀ c ∈ rows, ¬ Crosses (stamp a) (stamp b) (stamp c)) :
    Transitive (replaces stamp) rows where
  decided := by
    intro r hr s hs hrs
    have hne := h.ne_eq hr hs hrs
    rw [Bool.eq_iff_iff, Bool.not_eq_true', ← Bool.not_eq_true,
      replaces_iff h hr hs hrs, replaces_iff h hs hr hrs.symm, ← cmpRfc3339_eq_gt_iff]
    cases hcmp : cmpRfc3339 (stamp r) (stamp s) with
    | eq => exact absurd hcmp hne
    | lt | gt => simp
  trans := by
    intro r hr s hs t ht hrs hst hrt hleft hright
    rw [replaces_iff h hr hs hrs, h.lt_iff hr hs hrs] at hleft
    rw [replaces_iff h hs ht hst, h.lt_iff hs ht hst] at hright
    rw [replaces_iff h hr ht hrt, h.lt_iff hr ht hrt]
    rcases cmpRfc3339_trans hleft hright with hle | hcross | hcross | hcross
    · exact hle
    · exact absurd (h.crosses hr hs hcross) (hnot r hr s hs t ht)
    · exact absurd (h.crosses hs ht hcross) (hnot s hs t ht r hr)
    · exact absurd (h.crosses ht hr hcross) (hnot t ht r hr s hs)

theorem exists_greatest (h : StampsApart stamp rows) (hne : rows ≠ [])
    (hnot : ∀ a ∈ rows, ∀ b ∈ rows, ∀ c ∈ rows, ¬ Crosses (stamp a) (stamp b) (stamp c)) :
    ∃ w ∈ rows, (∀ r ∈ rows, r ≠ w → cmpRfc3339 (stamp r) (stamp w) = .lt) ∧
      Champion (replaces stamp) rows w := by
  obtain ⟨w, hw⟩ := exists_champion (transitive_of_not_crosses h hnot) hne
  refine ⟨w, hw.mem, fun r hr hrw => ?_, hw⟩
  exact (replaces_iff h hr hw.mem hrw).1 (hw.beats r hr hrw).1

theorem Crosses.cycle {a b c : String} (h : Crosses a b c) :
    cmpRfc3339 a b = .lt ∧ cmpRfc3339 b c = .lt ∧ cmpRfc3339 c a = .lt := by
  obtain ⟨x, y, hx, hy, hxy, hnone, hbc, hca⟩ := h
  refine ⟨?_, ?_, ?_⟩
  · rw [cmpRfc3339_of_parse hx hy]
    exact compare_lt_iff_lt.2 hxy
  · rw [cmpRfc3339_of_right b hnone]
    exact compare_lt_iff_lt.2 hbc
  · rw [cmpRfc3339_of_left hnone]
    exact compare_lt_iff_lt.2 hca

/-- Three rows whose timestamps cross are apart and leave different rows in two of
their orders. -/
theorem apart_of_crosses {a b : R} (h : Crosses (stamp a) (stamp b) (stamp c)) :
    StampsApart stamp [a, b, c] ∧
      [a, b, c].foldl (contend (replaces stamp)) none = some c ∧
      [b, c, a].foldl (contend (replaces stamp)) none = some a := by
  obtain ⟨hab, hbc, hca⟩ := h.cycle
  have hac : cmpRfc3339 (stamp a) (stamp c) = .gt := cmpRfc3339_eq_gt_iff.2 hca
  refine ⟨by simp [StampsApart, hab, hbc, hac], foldl_contend_cycle ?_ ?_ ?_⟩
  · exact notBefore_of_lt hab
  · exact notBefore_of_lt hbc
  · exact notBefore_of_lt hca

end Contest

/-! ## Records of one key -/

def MaterializedRecord.stored (record : MaterializedRecord) : MaterializedRecord :=
  { record with environment := storedEnvironment record.environment }

def SeedRecord.stored (record : SeedRecord) : SeedRecord :=
  { record with environment := storedEnvironment record.environment }

namespace Store

variable {environment : Option String} {store : Store}

/-- Records of one model and environment are a contest for its row. -/
theorem materializedVersion_foldl {records : List MaterializedRecord} {modelId : String}
    (h : ∀ r ∈ records, r.modelId = modelId ∧
      environmentColumn r.environment = environmentColumn environment)
    (hnone : store.materializedVersion modelId environment = none) :
    (records.foldl recordMaterialized store).materializedVersion modelId environment =
      (records.foldl (contend (replaces MaterializedRecord.materializedAt)) none).map
        MaterializedRecord.stored := by
  have hversions : ∀ (records : List MaterializedRecord) (store : Store),
      (records.foldl recordMaterialized store).modelVersions =
        (records.map MaterializedRecord.stored).foldl
          (Table.upsertWhen MaterializedRecord.notOlder) store.modelVersions := by
    intro records
    induction records with
    | nil => exact fun _ => rfl
    | cons r records ih => exact fun store => ih _
  have hkeys : ∀ r ∈ records.map MaterializedRecord.stored,
      r.key = (modelId, environmentColumn environment) := by
    intro r hr
    obtain ⟨record, hrecord, rfl⟩ := List.mem_map.1 hr
    obtain ⟨hid, henv⟩ := h record hrecord
    simp [MaterializedRecord.key, MaterializedRecord.stored, hid, henv]
  rw [materializedVersion, hversions, Library.Table.get?_foldl_upsertWhen _ hkeys]
  simp only [materializedVersion] at hnone
  rw [hnone]
  exact foldl_contend_map _ (fun _ _ => rfl) records none

/-- Loads of one seed and environment are a contest for its row. -/
theorem seedLoad_foldl {records : List SeedRecord} {name : String}
    (h : ∀ r ∈ records, r.name = name ∧
      environmentColumn r.environment = environmentColumn environment)
    (hnone : store.seedLoad name environment = none) :
    (records.foldl recordSeed store).seedLoad name environment =
      (records.foldl (contend (replaces SeedRecord.loadedAt)) none).map SeedRecord.stored := by
  have hloads : ∀ (records : List SeedRecord) (store : Store),
      (records.foldl recordSeed store).seedLoads =
        (records.map SeedRecord.stored).foldl
          (Table.upsertWhen SeedRecord.notOlder) store.seedLoads := by
    intro records
    induction records with
    | nil => exact fun _ => rfl
    | cons r records ih => exact fun store => ih _
  have hkeys : ∀ r ∈ records.map SeedRecord.stored,
      r.key = (name, environmentColumn environment) := by
    intro r hr
    obtain ⟨record, hrecord, rfl⟩ := List.mem_map.1 hr
    obtain ⟨hname, henv⟩ := h record hrecord
    simp [SeedRecord.key, SeedRecord.stored, hname, henv]
  rw [seedLoad, hloads, Library.Table.get?_foldl_upsertWhen _ hkeys]
  simp only [seedLoad] at hnone
  rw [hnone]
  exact foldl_contend_map _ (fun _ _ => rfl) records none

end Store

/-- Whatever the order in which such records are written, the one with the greatest
timestamp is stored. -/
def MaterializedConverge (T : Set String) : Prop :=
  ∀ (records : List MaterializedRecord) (modelId : String) (environment : Option String),
    records ≠ [] →
    (∀ r ∈ records, r.modelId = modelId ∧
      environmentColumn r.environment = environmentColumn environment ∧
      r.materializedAt ∈ T) →
    StampsApart MaterializedRecord.materializedAt records →
    ∃ w ∈ records,
      (∀ r ∈ records, r ≠ w → cmpRfc3339 r.materializedAt w.materializedAt = .lt) ∧
      ∀ order : List MaterializedRecord, order.Perm records → ∀ store : Store,
        store.materializedVersion modelId environment = none →
        (order.foldl Store.recordMaterialized store).materializedVersion modelId
          environment = some w.stored

def SeedsConverge (T : Set String) : Prop :=
  ∀ (records : List SeedRecord) (name : String) (environment : Option String),
    records ≠ [] →
    (∀ r ∈ records, r.name = name ∧
      environmentColumn r.environment = environmentColumn environment ∧ r.loadedAt ∈ T) →
    StampsApart SeedRecord.loadedAt records →
    ∃ w ∈ records, (∀ r ∈ records, r ≠ w → cmpRfc3339 r.loadedAt w.loadedAt = .lt) ∧
      ∀ order : List SeedRecord, order.Perm records → ∀ store : Store,
        store.seedLoad name environment = none →
        (order.foldl Store.recordSeed store).seedLoad name environment = some w.stored

/-- No timestamp of the set that does not parse stands, as text, between two that
parse and whose text and instants disagree. -/
def Uncrossed (T : Set String) : Prop :=
  ∀ a ∈ T, ∀ b ∈ T, ∀ c ∈ T, ¬ Crosses a b c

theorem materializedConverge_iff (T : Set String) : MaterializedConverge T ↔ Uncrossed T := by
  constructor
  · intro hconverge a ha b hb c hc hcross
    let record (stamp : String) : MaterializedRecord :=
      { modelId := "", environment := none, version := default, target := ""
        incrementalStrategy := none, incrementalKey := none, adapter := none
        outputIdentity := none, runId := "", materializedAt := stamp }
    have hcross' : Crosses (record a).materializedAt (record b).materializedAt
        (record c).materializedAt := hcross
    obtain ⟨hapart, hlast, hfirst⟩ := apart_of_crosses hcross'
    have hkeys : ∀ r ∈ [record a, record b, record c], r.modelId = "" ∧
        environmentColumn r.environment = environmentColumn none ∧ r.materializedAt ∈ T := by
      simp [record, ha, hb, hc]
    obtain ⟨w, -, -, hstored⟩ := hconverge _ "" none (by simp) hkeys hapart
    have hrotated : [record b, record c, record a].Perm [record a, record b, record c] :=
      @List.perm_append_comm _ [record b, record c] [record a]
    have hfold : ∀ order : List MaterializedRecord,
        order.Perm [record a, record b, record c] →
        (order.foldl (contend (replaces MaterializedRecord.materializedAt)) none).map
          MaterializedRecord.stored = some w.stored := by
      intro order hperm
      rw [← hstored order hperm Store.empty rfl]
      refine (Store.materializedVersion_foldl (fun r hr => ?_) rfl).symm
      obtain ⟨hid, henv, -⟩ := hkeys r (hperm.mem_iff.1 hr)
      exact ⟨hid, henv⟩
    have hc' := hfold _ (List.Perm.refl _)
    have ha' := hfold _ hrotated
    rw [hlast] at hc'
    rw [hfirst] at ha'
    have hsame : c = a := congrArg MaterializedRecord.materializedAt
      (Option.some.inj (hc'.trans ha'.symm))
    obtain ⟨_, _, _, _, _, _, _, hca⟩ := hcross
    exact absurd (hsame ▸ hca) (lt_irrefl _)
  · intro hnot records modelId environment hne hkeys hapart
    obtain ⟨w, hw, hgreatest, hchampion⟩ := exists_greatest hapart hne
      fun a ha b hb c hc => hnot _ (hkeys a ha).2.2 _ (hkeys b hb).2.2 _ (hkeys c hc).2.2
    refine ⟨w, hw, hgreatest, fun order hperm store hnone => ?_⟩
    rw [Store.materializedVersion_foldl (fun r hr => ?_) hnone,
      (hchampion.of_perm hperm).foldl_contend]
    · rfl
    · obtain ⟨hid, henv, -⟩ := hkeys r (hperm.mem_iff.1 hr)
      exact ⟨hid, henv⟩

theorem seedsConverge_iff (T : Set String) : SeedsConverge T ↔ Uncrossed T := by
  constructor
  · intro hconverge a ha b hb c hc hcross
    let record (stamp : String) : SeedRecord :=
      { name := "", environment := none, contentHash := "", target := "", runId := ""
        loadedAt := stamp }
    have hcross' : Crosses (record a).loadedAt (record b).loadedAt (record c).loadedAt :=
      hcross
    obtain ⟨hapart, hlast, hfirst⟩ := apart_of_crosses hcross'
    have hkeys : ∀ r ∈ [record a, record b, record c], r.name = "" ∧
        environmentColumn r.environment = environmentColumn none ∧ r.loadedAt ∈ T := by
      simp [record, ha, hb, hc]
    obtain ⟨w, -, -, hstored⟩ := hconverge _ "" none (by simp) hkeys hapart
    have hrotated : [record b, record c, record a].Perm [record a, record b, record c] :=
      @List.perm_append_comm _ [record b, record c] [record a]
    have hfold : ∀ order : List SeedRecord, order.Perm [record a, record b, record c] →
        (order.foldl (contend (replaces SeedRecord.loadedAt)) none).map SeedRecord.stored =
          some w.stored := by
      intro order hperm
      rw [← hstored order hperm Store.empty rfl]
      refine (Store.seedLoad_foldl (fun r hr => ?_) rfl).symm
      obtain ⟨hname, henv, -⟩ := hkeys r (hperm.mem_iff.1 hr)
      exact ⟨hname, henv⟩
    have hc' := hfold _ (List.Perm.refl _)
    have ha' := hfold _ hrotated
    rw [hlast] at hc'
    rw [hfirst] at ha'
    have hsame : c = a := congrArg SeedRecord.loadedAt (Option.some.inj (hc'.trans ha'.symm))
    obtain ⟨_, _, _, _, _, _, _, hca⟩ := hcross
    exact absurd (hsame ▸ hca) (lt_irrefl _)
  · intro hnot records name environment hne hkeys hapart
    obtain ⟨w, hw, hgreatest, hchampion⟩ := exists_greatest hapart hne
      fun a ha b hb c hc => hnot _ (hkeys a ha).2.2 _ (hkeys b hb).2.2 _ (hkeys c hc).2.2
    refine ⟨w, hw, hgreatest, fun order hperm store hnone => ?_⟩
    rw [Store.seedLoad_foldl (fun r hr => ?_) hnone, (hchampion.of_perm hperm).foldl_contend]
    · rfl
    · obtain ⟨hname, henv, -⟩ := hkeys r (hperm.mem_iff.1 hr)
      exact ⟨hname, henv⟩

/-- The comparison is a preorder on a set of timestamps. -/
def Preordered (T : Set String) : Prop :=
  ∀ a ∈ T, ∀ b ∈ T, ∀ c ∈ T, cmpRfc3339 a b ≠ .gt → cmpRfc3339 b c ≠ .gt →
    cmpRfc3339 a c ≠ .gt

/-- Ordered upserts of timestamps from a set converge exactly when the set is not
crossed, and the comparison is a preorder on it exactly when it is not even weakly
crossed. -/
theorem upserts_converge_iff (T : Set String) :
    (MaterializedConverge T ↔ Uncrossed T) ∧ (SeedsConverge T ↔ Uncrossed T) ∧
      (Preordered T ↔ ∀ a ∈ T, ∀ b ∈ T, ∀ c ∈ T, ¬ CrossesWeakly a b c) :=
  ⟨materializedConverge_iff T, seedsConverge_iff T, cmpRfc3339_trans_iff T⟩

omit [Rfc3339] in
/-- Half past and 520 milliseconds past a second, and a corrupt fraction between
them: what is stored depends on the order of the writes. -/
theorem crossed_upserts_diverge :
    letI : Rfc3339 := fractionClock
    let record (stamp : String) : MaterializedRecord :=
      { modelId := "assay.raw", environment := none, version := default, target := "main.raw"
        incrementalStrategy := none, incrementalKey := none, adapter := some "duckdb"
        outputIdentity := none, runId := "run", materializedAt := stamp }
    let half := record "2026-01-01T00:00:00.5Z"
    let later := record "2026-01-01T00:00:00.52Z"
    let corrupt := record "2026-01-01T00:00:00.5X"
    StampsApart MaterializedRecord.materializedAt [half, later, corrupt] ∧
      (([half, later, corrupt].foldl Store.recordMaterialized Store.empty).materializedVersion
        "assay.raw" none).map MaterializedRecord.materializedAt =
          some "2026-01-01T00:00:00.5X" ∧
      (([later, corrupt, half].foldl Store.recordMaterialized Store.empty).materializedVersion
        "assay.raw" none).map MaterializedRecord.materializedAt =
          some "2026-01-01T00:00:00.5Z" := by
  refine ⟨?_, by decide +kernel, by decide +kernel⟩
  unfold StampsApart
  decide +kernel

end PhloTransform.Engine
