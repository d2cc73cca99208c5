import PhloTransform.Core.SeedDatasets
import PhloTransform.Engine.Plan
import PhloTransform.Engine.SourceStates

/-!
# Which sources are seeds

The lineage takes a source for a seed when its dotted name is the name of the seed or ends in
it after a dot.  The planner and the collection of source states take it for a seed when, under
the defaults, it names the relation that the seed loads into.

Main results:

- Theorem `SeededWorkspace.sameSeeds_iff`: when lineage and engine see the same seeds.
-/

namespace PhloTransform.Engine

open Core (CompiledLineage CompiledSeed LineageSeed Relation SourceId
  adapterDefaultSchema relationForSource seedForRelation seedMatches seedRelation)
open Core.LineageGraph (build kindOf_build sortedSeeds sourceKind)

/-! ## Seeds by name and by relation -/

/-- A workspace with its seeds, as the lineage and the engine see them. -/
structure SeededWorkspace where
  lineage : CompiledLineage
  seeds : List CompiledSeed
  path : String → String
  lineage_seeds : lineage.seeds = seeds.map fun seed => ⟨seed.name, path seed.name⟩
  names_nodup : (seeds.map CompiledSeed.name).Nodup
  defaultCatalog : Option String
  defaultSchema : Option String
  adapterName : String

/-- The seed that the planner and the source states see behind a source. -/
def seedOfSource (seeds : List CompiledSeed) (defaultCatalog defaultSchema : Option String)
    (adapterName : String) (source : SourceId) : Option CompiledSeed :=
  seedForRelation seeds (relationForSource source defaultCatalog defaultSchema)
    defaultCatalog defaultSchema adapterName

namespace SeededWorkspace

variable (w : SeededWorkspace)
variable {source : SourceId} {seed : CompiledSeed}

/-- The default schema, or that of the adapter. -/
def effectiveSchema : Option String :=
  w.defaultSchema.or (adapterDefaultSchema w.adapterName)

/-- The seed that the engine sees behind a source. -/
def engineSeed (source : SourceId) : Option CompiledSeed :=
  seedOfSource w.seeds w.defaultCatalog w.effectiveSchema w.adapterName source

/-- The seed whose dataset the lineage makes of a source. -/
def shownSeed (source : SourceId) : Option CompiledSeed :=
  ((sortedSeeds w.lineage.seeds).find? fun seed => seedMatches source seed).bind fun shown =>
    w.seeds.find? fun seed => decide (seed.name = shown.name)

/-- Lineage and engine take the same sources for seeds, and for the same ones. -/
def SameSeeds : Prop :=
  ∀ source ∈ w.lineage.sources,
    ((build w.lineage).kindOf (.dataset (.source source)) = some .seed ↔
      (w.engineSeed source).isSome = true) ∧
    ((w.engineSeed source).isSome = true → w.shownSeed source = w.engineSeed source)

/-- The dotted name of the source is the name of the seed, or ends in it after a dot. -/
def Named (source : SourceId) (seed : CompiledSeed) : Prop :=
  source.logicalName = seed.name ∨ '.' :: seed.name.toList <:+ source.logicalName.toList

/-- The source names the relation that the seed loads into. -/
def Backs (source : SourceId) (seed : CompiledSeed) : Prop :=
  (seedRelation seed w.defaultCatalog w.effectiveSchema w.adapterName).display =
    (relationForSource source w.defaultCatalog w.effectiveSchema).display

/-- No seed is named by the source or loads into its relation, or one seed is and does both:
the least one that is named, and the first one that loads there. -/
def SeedApplies (source : SourceId) : Prop :=
  (∀ seed ∈ w.seeds, ¬Named source seed ∧ ¬w.Backs source seed) ∨
    ∃ before seed after, w.seeds = before ++ seed :: after ∧
      Named source seed ∧ w.Backs source seed ∧
      (∀ other ∈ before, ¬w.Backs source other) ∧
      ∀ other ∈ w.seeds, Named source other → seed.name ≤ other.name

variable {w}

theorem seedMatches_iff {path : String} :
    seedMatches source ⟨seed.name, path⟩ = true ↔ Named source seed := by
  simp [seedMatches, Named]

theorem engineSeed_eq_some :
    w.engineSeed source = some seed ↔ w.Backs source seed ∧
      ∃ before after, w.seeds = before ++ seed :: after ∧
        ∀ other ∈ before, ¬w.Backs source other := by
  simp only [engineSeed, seedOfSource, seedForRelation, List.find?_eq_some_iff_append, Backs,
    decide_eq_true_eq, Bool.not_eq_true', decide_eq_false_iff_not]

theorem engineSeed_eq_none :
    w.engineSeed source = none ↔ ∀ seed ∈ w.seeds, ¬w.Backs source seed := by
  simp only [engineSeed, seedOfSource, seedForRelation, List.find?_eq_none, Backs,
    decide_eq_true_eq]

/-! ## The seed that is shown -/

theorem least_of_find?_sortedSeeds {p : LineageSeed → Bool} {seeds : List LineageSeed}
    {seed : LineageSeed} (h : (sortedSeeds seeds).find? p = some seed) :
    seed ∈ seeds ∧ p seed = true ∧ ∀ other ∈ seeds, p other = true → seed.name ≤ other.name := by
  obtain ⟨hp, before, after, heq, hbefore⟩ := List.find?_eq_some_iff_append.1 h
  have hperm : (sortedSeeds seeds).Perm seeds := List.perm_insertionSort _ _
  have hsorted : (sortedSeeds seeds).Pairwise fun a b => a.name ≤ b.name :=
    List.pairwise_insertionSort _ _
  rw [heq] at hperm hsorted
  refine ⟨hperm.subset (List.mem_append_right _ List.mem_cons_self), hp, fun other hother hpo => ?_⟩
  rcases List.mem_append.1 (hperm.symm.subset hother) with hmem | hmem
  · exact absurd hpo (by simpa using hbefore other hmem)
  · rcases List.mem_cons.1 hmem with rfl | hmem
    · exact le_refl _
    · exact (List.pairwise_cons.1 (List.pairwise_append.1 hsorted).2.1).1 other hmem

theorem find?_name_of_mem (h : seed ∈ w.seeds) :
    (w.seeds.find? fun other => decide (other.name = seed.name)) = some seed := by
  cases hfound : w.seeds.find? fun other => decide (other.name = seed.name) with
  | none => simpa using List.find?_eq_none.1 hfound seed h
  | some other =>
    have hname : other.name = seed.name := by simpa using List.find?_some hfound
    rw [List.inj_on_of_nodup_map w.names_nodup (List.mem_of_find?_eq_some hfound) h hname]

theorem shownSeed_eq_some :
    w.shownSeed source = some seed ↔ seed ∈ w.seeds ∧ Named source seed ∧
      ∀ other ∈ w.seeds, Named source other → seed.name ≤ other.name := by
  have hmem : ∀ shown, shown ∈ w.lineage.seeds ↔
      ∃ seed ∈ w.seeds, (⟨seed.name, w.path seed.name⟩ : LineageSeed) = shown := by
    simp [w.lineage_seeds]
  constructor
  · intro h
    obtain ⟨shown, hshown, hseed⟩ := Option.bind_eq_some_iff.1 h
    obtain ⟨hin, hmatches, hleast⟩ := least_of_find?_sortedSeeds hshown
    obtain ⟨origin, horigin, rfl⟩ := (hmem shown).1 hin
    rw [find?_name_of_mem horigin, Option.some_inj] at hseed
    subst hseed
    refine ⟨horigin, seedMatches_iff.1 hmatches, fun other hother hnamed => ?_⟩
    exact hleast _ ((hmem _).2 ⟨other, hother, rfl⟩) (seedMatches_iff.2 hnamed)
  · rintro ⟨hin, hnamed, hleast⟩
    cases hfound : (sortedSeeds w.lineage.seeds).find? fun seed => seedMatches source seed with
    | none =>
      have hsorted : (⟨seed.name, w.path seed.name⟩ : LineageSeed) ∈ sortedSeeds w.lineage.seeds :=
        (List.perm_insertionSort _ _).symm.subset ((hmem _).2 ⟨seed, hin, rfl⟩)
      exact absurd (seedMatches_iff.2 hnamed) (List.find?_eq_none.1 hfound _ hsorted)
    | some shown =>
      obtain ⟨hshown, hmatches, hfirst⟩ := least_of_find?_sortedSeeds hfound
      obtain ⟨origin, horigin, rfl⟩ := (hmem shown).1 hshown
      have hname : origin.name = seed.name :=
        le_antisymm
          (hfirst ⟨seed.name, w.path seed.name⟩ ((hmem _).2 ⟨seed, hin, rfl⟩)
            (seedMatches_iff.2 hnamed))
          (hleast origin horigin (seedMatches_iff.1 hmatches))
      rw [shownSeed, hfound, Option.bind_some]
      simp only [hname]
      exact find?_name_of_mem hin

theorem shownSeed_eq_none : w.shownSeed source = none ↔ ∀ seed ∈ w.seeds, ¬Named source seed := by
  constructor
  · intro h seed hseed hnamed
    cases hfound : (sortedSeeds w.lineage.seeds).find? fun seed => seedMatches source seed with
    | none =>
      have hsorted : (⟨seed.name, w.path seed.name⟩ : LineageSeed) ∈ sortedSeeds w.lineage.seeds :=
        (List.perm_insertionSort _ _).symm.subset
          (by rw [w.lineage_seeds]; exact List.mem_map.2 ⟨seed, hseed, rfl⟩)
      exact absurd (seedMatches_iff.2 hnamed) (List.find?_eq_none.1 hfound _ hsorted)
    | some shown =>
      obtain ⟨hshown, -, -⟩ := least_of_find?_sortedSeeds hfound
      rw [w.lineage_seeds] at hshown
      obtain ⟨origin, horigin, rfl⟩ := List.mem_map.1 hshown
      rw [shownSeed, hfound, Option.bind_some, find?_name_of_mem horigin] at h
      cases h
  · intro h
    cases hshown : w.shownSeed source with
    | none => rfl
    | some seed =>
      obtain ⟨hin, hnamed, -⟩ := shownSeed_eq_some.1 hshown
      exact absurd hnamed (h seed hin)

theorem kindOf_eq_seed_iff (h : source ∈ w.lineage.sources) :
    (build w.lineage).kindOf (.dataset (.source source)) = some .seed ↔
      (w.shownSeed source).isSome = true := by
  rw [kindOf_build h, Option.some_inj, sourceKind, shownSeed]
  cases hfound : (sortedSeeds w.lineage.seeds).find? fun seed => seedMatches source seed with
  | none => simp
  | some shown =>
    obtain ⟨hshown, -, -⟩ := least_of_find?_sortedSeeds hfound
    rw [w.lineage_seeds] at hshown
    obtain ⟨origin, horigin, rfl⟩ := List.mem_map.1 hshown
    simp [find?_name_of_mem horigin]

/-! ## When they agree -/

theorem shownSeed_eq_engineSeed_iff :
    w.shownSeed source = w.engineSeed source ↔ w.SeedApplies source := by
  constructor
  · intro h
    cases hengine : w.engineSeed source with
    | none =>
      rw [hengine] at h
      exact .inl fun seed hseed =>
        ⟨shownSeed_eq_none.1 h seed hseed, engineSeed_eq_none.1 hengine seed hseed⟩
    | some seed =>
      rw [hengine] at h
      obtain ⟨hin, hnamed, hleast⟩ := shownSeed_eq_some.1 h
      obtain ⟨hbacks, before, after, heq, hbefore⟩ := engineSeed_eq_some.1 hengine
      exact .inr ⟨before, seed, after, heq, hnamed, hbacks, hbefore, hleast⟩
  · rintro (hnone | ⟨before, seed, after, heq, hnamed, hbacks, hbefore, hleast⟩)
    · rw [shownSeed_eq_none.2 fun seed h => (hnone seed h).1,
        engineSeed_eq_none.2 fun seed h => (hnone seed h).2]
    · have hin : seed ∈ w.seeds := by
        rw [heq]
        exact List.mem_append_right _ List.mem_cons_self
      rw [shownSeed_eq_some.2 ⟨hin, hnamed, hleast⟩,
        engineSeed_eq_some.2 ⟨hbacks, before, after, heq, hbefore⟩]

/-- Lineage and engine see the same seeds exactly when, for each source, no seed is named or
loads into its relation, or the seed that is named first loads there first. -/
theorem sameSeeds_iff (w : SeededWorkspace) :
    w.SameSeeds ↔ ∀ source ∈ w.lineage.sources, w.SeedApplies source := by
  apply forall₂_congr
  intro source hsource
  rw [kindOf_eq_seed_iff hsource, ← shownSeed_eq_engineSeed_iff]
  constructor
  · rintro ⟨hkind, hsame⟩
    cases hengine : w.engineSeed source with
    | none =>
      rw [hengine] at hkind
      simpa using hkind
    | some seed => exact (hsame (by simp [hengine])).trans hengine
  · exact fun h => ⟨by rw [h], fun _ => h⟩

/-! ## Names without dots -/

/-! ## A table that shares a seed's name -/

namespace Sample

def crmOrders : SeededWorkspace where
  lineage :=
    { models :=
        [{ id := Core.Sample.rawModel.id, path := none, version := "v", materialization := .table
           workflow := none, target := { catalog := none, schema := "main", table := "raw" }
           dependencies := [.source { parts := ["crm", "orders"], parts_ne_nil := by decide }]
           columns := [] }]
      seeds := [{ name := "orders", path := "seeds/orders.csv" }]
      tests := [] }
  seeds := [{ name := "orders", schema := none, contentHash := "h" }]
  path := fun _ => "seeds/orders.csv"
  lineage_seeds := rfl
  names_nodup := by decide
  defaultCatalog := none
  defaultSchema := none
  adapterName := "duckdb"

end Sample

/-- The lineage shows the table as the seed; the engine loads the seed into another schema. -/
theorem crmOrders_differs : ¬Sample.crmOrders.SameSeeds := by
  intro h
  have hsource : (⟨["crm", "orders"], by decide⟩ : SourceId) ∈ Sample.crmOrders.lineage.sources := by
    decide
  have hkind := (h _ hsource).1
  rw [kindOf_eq_seed_iff hsource] at hkind
  revert hkind
  decide +kernel

end SeededWorkspace

end PhloTransform.Engine
