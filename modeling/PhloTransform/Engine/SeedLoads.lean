import PhloTransform.Engine.ExecutionRun
import PhloTransform.Engine.Runner

/-!
# What the seed loads of a run come to

Seeds are loaded one after another before the loop.  A load that fails under
fail-fast, or a cancellation, stops the loads behind it; otherwise every planned
seed has the result its own load decides.

Main results:

- Theorem `Execution.loadSeeds_results_of_open`: the results of loads that were
  not stopped.
-/

namespace PhloTransform.Engine

open Core (CompiledSeed Relation seedRelation)

namespace Execution

variable (x : Execution)
variable {s : SeedLoads}
variable {planned : PlannedSeed} {seed : CompiledSeed} {seeds : List PlannedSeed}
  {store : Option Store}

/-- The relation a compiled seed loads into. -/
def seedTarget (seed : CompiledSeed) : Relation :=
  seedRelation seed x.compilation.defaults.catalog x.defaultSchema x.adapterName

/-- The seed was loaded earlier in the run being resumed. -/
def loadedBefore (name : String) : Bool :=
  (x.prior.seeds name).any fun record => decide (record.status = .passed)

/-- The result of a planned seed whose load is not stopped. -/
def seedOutcome (opening : Opening) (planned : PlannedSeed) (seed : CompiledSeed) :
    SeedResult :=
  if planned.action = .build then
    { seed := planned.name
      target := (x.seedTarget seed).display
      status := if (opening.seeds planned.name).failed then .failed else .passed
      attempts := (opening.seeds planned.name).attempts
      failure :=
        if (opening.seeds planned.name).failed then
          (opening.seeds planned.name).failedAttempts.getLast?
        else none }
  else
    { seed := planned.name
      target := planned.target
      status := if x.loadedBefore planned.name then .cached else .skipped
      attempts := []
      failure := none }

variable [Rfc3339] {x} {opening : Opening}

def SeedLoads.stopped (s : SeedLoads) : Bool :=
  s.cancelled || s.failFast

theorem loadSeed_of_stopped (h : s.stopped = true) (planned : PlannedSeed) :
    (x.loadSeed opening s planned).stopped = true := by
  unfold loadSeed
  split
  · exact h
  · simp only [SeedLoads.stopped] at h
    simp only [h, if_true]
    exact h

theorem loadSeed_of_open (h : s.stopped = false)
    (hseed : x.compilation.seed planned.name = some seed) :
    (x.loadSeed opening s planned).results = s.results ++ [x.seedOutcome opening planned seed] := by
  have hname : seed.name = planned.name := by simpa using List.find?_some hseed
  simp only [SeedLoads.stopped] at h
  unfold loadSeed seedOutcome loadedBefore
  simp only [hseed, h, Bool.false_eq_true, if_false, hname]
  by_cases hbuild : planned.action = .build
  · simp only [hbuild, ne_eq, not_true, if_false, if_true, runSeed, SeedLoads.report]
    split <;> rfl
  · simp only [hbuild, ne_eq, not_false_iff, if_true, if_false]
    cases hprior : x.prior.seeds planned.name with
    | none => simp [SeedLoads.report]
    | some record =>
      by_cases hpassed : record.status = .passed <;> simp [hpassed, SeedLoads.report]

def SeedsCompiled (x : Execution) : Prop :=
  ∀ planned ∈ x.plan.seeds, (x.compilation.seed planned.name).isSome = true

theorem foldl_loadSeed_stopped (h : s.stopped = true) :
    (seeds.foldl (x.loadSeed opening) s).stopped = true := by
  induction seeds generalizing s with
  | nil => exact h
  | cons planned seeds ih => exact ih (loadSeed_of_stopped h planned)

theorem foldl_loadSeed_results
    (hcompiled : ∀ planned ∈ seeds, (x.compilation.seed planned.name).isSome = true)
    (h : (seeds.foldl (x.loadSeed opening) s).stopped = false) :
    (seeds.foldl (x.loadSeed opening) s).results = s.results ++
      seeds.filterMap fun planned =>
        (x.compilation.seed planned.name).map (x.seedOutcome opening planned) := by
  induction seeds generalizing s with
  | nil => simp
  | cons planned seeds ih =>
    have hopen : s.stopped = false := by
      cases hs : s.stopped with
      | false => rfl
      | true => rw [foldl_loadSeed_stopped hs] at h; cases h
    obtain ⟨seed, hseed⟩ := Option.isSome_iff_exists.1 (hcompiled planned (by simp))
    rw [List.foldl_cons, ih (fun other hother => hcompiled other (by simp [hother])) h,
      loadSeed_of_open hopen hseed, List.filterMap_cons, hseed]
    simp

/-- Loads that were not stopped give every planned seed its own result. -/
theorem loadSeeds_results_of_open (hcompiled : x.SeedsCompiled)
    (h : (x.loadSeeds opening store).stopped = false) :
    (x.loadSeeds opening store).results = x.plan.seeds.filterMap fun planned =>
      (x.compilation.seed planned.name).map (x.seedOutcome opening planned) := by
  simpa [loadSeeds] using foldl_loadSeed_results hcompiled h

/-! ## The seeds of a fresh plan -/

omit [Rfc3339] in
theorem mem_neededSeeds {p : Planning} (h : seed ∈ p.neededSeeds) : seed ∈ p.compilation.seeds := by
  rw [Planning.neededSeeds, List.mem_insertionSort] at h
  exact (List.mem_filter.1 h).1

variable {p : Planning} {exist : Relation → Bool}

/-- A planned seed is compiled and aims at the relation its load writes. -/
theorem Follows.exists_seed (h : x.Follows p exist) (hmem : planned ∈ x.plan.seeds) :
    ∃ seed ∈ p.neededSeeds, planned.name = seed.name ∧
      planned.target = (x.seedTarget seed).display ∧
      x.seedTarget seed = p.seedTarget seed ∧ x.compilation.seed planned.name = some seed := by
  obtain ⟨storedVersion, present, hseeds⟩ := h.seeds
  rw [hseeds] at hmem
  simp only [List.mem_map, exists_exists_and_eq_and] at hmem
  obtain ⟨seed, hseed, rfl⟩ := hmem
  have htarget : x.seedTarget seed = p.seedTarget seed := by
    simp only [seedTarget, Planning.seedTarget, defaultSchema, Planning.defaultSchema,
      h.compilation, h.adapterName]
  refine ⟨seed, hseed, by simp [Planning.plannedSeed], ?_, htarget, ?_⟩
  · simp [htarget, Planning.plannedSeed]
  · rw [overlaySeed_name, h.compilation]
    exact Core.Compilation.seed_of_mem (mem_neededSeeds hseed)

theorem Follows.seedsCompiled (h : x.Follows p exist) : x.SeedsCompiled := by
  intro planned hmem
  obtain ⟨seed, -, -, -, -, hseed⟩ := h.exists_seed hmem
  simp [hseed]

theorem Follows.seed_names_nodup (h : x.Follows p exist) :
    (x.plan.seeds.map PlannedSeed.name).Nodup := by
  obtain ⟨storedVersion, present, hseeds⟩ := h.seeds
  have hnames : x.plan.seeds.map PlannedSeed.name = p.neededSeeds.map CompiledSeed.name := by
    rw [hseeds, List.map_map, List.map_map]
    exact List.map_congr_left fun seed _ => by simp [Planning.plannedSeed]
  rw [hnames, Planning.neededSeeds]
  exact ((List.perm_insertionSort _ _).map _).nodup_iff.2
    (p.compilation.seeds_nodup.sublist (List.filter_sublist.map _))

/-- The results of loads that were not stopped, one for each planned seed. -/
theorem Follows.mem_loadSeeds_results (h : x.Follows p exist)
    (hopen : (x.loadSeeds opening store).stopped = false) {result : SeedResult} :
    result ∈ (x.loadSeeds opening store).results ↔ ∃ planned ∈ x.plan.seeds, ∃ seed,
      x.compilation.seed planned.name = some seed ∧
        x.seedOutcome opening planned seed = result := by
  rw [loadSeeds_results_of_open h.seedsCompiled hopen, List.mem_filterMap]
  simp only [Option.map_eq_some_iff]

omit [Rfc3339] in
theorem seedOutcome_seed (opening : Opening) (planned : PlannedSeed) (seed : CompiledSeed) :
    (x.seedOutcome opening planned seed).seed = planned.name := by
  unfold seedOutcome
  split <;> rfl

end Execution
end PhloTransform.Engine
