import Mathlib.Order.WithBot
import PhloTransform.Engine.State
import PhloTransform.Library.StepSystem

/-!
# Watermarks over many runs

Runs start, are killed, are resumed under their own id and finish in any order;
each successful build of a time-window model hands one observation to the
store.  Resuming keeps the start of a run, and a write is accepted by comparing
the starts of the writing and of the stored run.

Main results:

- Theorem `watermark_lastMax`: the stored watermark is the last observation made
  by the runs that started latest.
- Theorem `resumed_observation_discarded`: the observation of a resumed run is
  dropped when a later-started run has already written.
-/

namespace PhloTransform.Engine

open Library (StepSystem keepNewer LastMax)

/-- What reaches the store on behalf of runs; a kill writes nothing. -/
inductive WatermarkEvent where
  | start (run : RunRecord) (plan : StoredPlan)
  | resume (runId : String)
  | finish (runId : String) (status : ExecutionStatus) (finishedAt : String)
      (failedCount : Nat)
  | observe (modelId : String) (environment : Option String) (value runId now : String)

/-- The row an observation writes for one model and environment. -/
def WatermarkEvent.row? (modelId : String) (environment : Option String) :
    WatermarkEvent → Option WatermarkRow
  | observe modelId' environment' value runId now =>
    if (modelId', environmentColumn environment') =
        (modelId, environmentColumn environment) then
      some ⟨modelId, environmentColumn environment, value, runId, now⟩
    else none
  | _ => none

/-- The observations handed over for one model and environment, in call order. -/
def observations (modelId : String) (environment : Option String)
    (events : List WatermarkEvent) : List WatermarkRow :=
  events.filterMap (WatermarkEvent.row? modelId environment)

section

variable [Rfc3339]
variable {store store' : Store} {modelId runId : String} {environment : Option String}
  {event : WatermarkEvent}
variable {row : WatermarkRow} {events : List WatermarkEvent}

/-- The store under the events of its runs. -/
def watermarkSystem : StepSystem Store WatermarkEvent where
  step store
    | .start run plan => store.startRun run plan
    | .resume runId =>
      if (store.run runId).isSome then some (store.reopenRun runId) else none
    | .finish runId status finishedAt failedCount =>
      if (store.run runId).isSome then
        some (store.finishRun runId status finishedAt failedCount)
      else none
    | .observe modelId environment value runId now =>
      if (store.run runId).isSome then
        some (store.setWatermark modelId environment value runId now)
      else none

/-- When the run that wrote a row started. -/
def generation (store : Store) (row : WatermarkRow) : WithBot Int :=
  match (store.startedAt row.runId).bind Rfc3339.parse with
  | some instant => instant
  | none => ⊥

/-- Every recorded run started at a timestamp. -/
def TimedRuns (store : Store) : Prop :=
  ∀ runId start, store.startedAt runId = some start → IsTimestamp start

/-! ## One event -/

theorem step_observe {value now : String}
    (h : watermarkSystem.step store (.observe modelId environment value runId now) = some store') :
    (store.run runId).isSome = true ∧
      store' = store.setWatermark modelId environment value runId now := by
  simp only [watermarkSystem] at h
  split at h
  · next hrun => exact ⟨hrun, (Option.some.inj h).symm⟩
  · cases h

theorem startedAt_step (h : watermarkSystem.step store event = some store') {start : String}
    (hstart : store.startedAt runId = some start) : store'.startedAt runId = some start := by
  cases event with
  | start run plan =>
    rw [Store.startedAt_of_startRun h]
    by_cases hid : run.runId = runId
    · have hfree := (Store.startRun_eq_some h).1
      rw [hid] at hfree
      simp [Store.startedAt, hfree] at hstart
    · rw [if_neg hid, hstart]
  | resume runId' =>
    simp only [watermarkSystem] at h
    split at h
    · cases h
      rw [Store.startedAt_reopenRun, hstart]
    · cases h
  | finish runId' status finishedAt failedCount =>
    simp only [watermarkSystem] at h
    split at h
    · cases h
      rw [Store.startedAt_finishRun, hstart]
    · cases h
  | observe modelId environment value runId' now =>
    rw [(step_observe h).2, Store.startedAt_setWatermark, hstart]

/-- Every event but an observation for the key leaves its row alone. -/
theorem watermarkRow_step_of_row?_none (h : watermarkSystem.step store event = some store')
    (hrow : event.row? modelId environment = none) :
    store'.watermarkRow modelId environment = store.watermarkRow modelId environment := by
  cases event with
  | start run plan =>
    rw [Store.watermarkRow, (Store.startRun_eq_some h).2.1]
    rfl
  | resume runId =>
    simp only [watermarkSystem] at h
    split at h <;> cases h
    rfl
  | finish runId status finishedAt failedCount =>
    simp only [watermarkSystem] at h
    split at h <;> cases h
    rfl
  | observe modelId' environment' value runId now =>
    rw [(step_observe h).2]
    refine Store.watermarkRow_setWatermark_ne store value runId now ?_
    intro hkey
    simp [WatermarkEvent.row?, hkey] at hrow

theorem watermarkRow_step_of_row?_some (htimed : TimedRuns store)
    (h : watermarkSystem.step store event = some store')
    (hrow : event.row? modelId environment = some row) :
    (store.startedAt row.runId).isSome = true ∧
      (store.watermarkRow modelId environment = none →
        store'.watermarkRow modelId environment = some row) ∧
      ∀ old, store.watermarkRow modelId environment = some old →
        (store.startedAt old.runId).isSome = true →
        store'.watermarkRow modelId environment = some (keepNewer (generation store) old row) := by
  cases event with
  | start run plan => simp [WatermarkEvent.row?] at hrow
  | resume runId => simp [WatermarkEvent.row?] at hrow
  | finish runId status finishedAt failedCount =>
    simp [WatermarkEvent.row?] at hrow
  | observe modelId' environment' value runId now =>
    obtain ⟨hrun, rfl⟩ := step_observe h
    simp only [WatermarkEvent.row?] at hrow
    split at hrow
    · next hkey =>
        cases hrow
        have hstarted : (store.startedAt runId).isSome = true := by
          simpa [Store.startedAt] using hrun
        obtain ⟨rfl, hcolumn⟩ := Prod.mk.inj hkey
        have hsame : store.setWatermark modelId' environment' value runId now =
            store.setWatermark modelId' environment value runId now := by
          simp only [Store.setWatermark, hcolumn]
        rw [hsame, Store.watermarkRow_setWatermark_self]
        refine ⟨hstarted, ?_, ?_⟩
        · intro hnone
          rw [hnone]
        · intro old hold holdStarted
          rw [hold]
          obtain ⟨startNew, hnew⟩ := Option.isSome_iff_exists.1 hstarted
          obtain ⟨startOld, hold'⟩ := Option.isSome_iff_exists.1 holdStarted
          obtain ⟨x, hx⟩ := htimed _ _ hnew
          obtain ⟨y, hy⟩ := htimed _ _ hold'
          have haccept : store.acceptsWatermark old
              ⟨modelId', environmentColumn environment, value, runId, now⟩ = true ↔
              y ≤ x := by
            simp only [Store.acceptsWatermark, hnew, hold', Option.getD_some]
            exact notBefore_iff_of_parse hx hy
          by_cases hle : y ≤ x
          · simp [haccept.2 hle, keepNewer, generation, hnew, hold', hx, hy, hle]
          · have hreject : store.acceptsWatermark old
                ⟨modelId', environmentColumn environment, value, runId, now⟩ = false := by
              simpa using fun hacc => hle (haccept.1 hacc)
            simp [hreject, keepNewer, generation, hnew, hold', hx, hy, not_le.1 hle]
    · cases hrow

/-! ## Whole histories -/

/-- Observations so far come from recorded runs, and the stored row is the last
of them among the latest generation. -/
structure WatermarkInvariant (store : Store) (events : List WatermarkEvent)
    (modelId : String) (environment : Option String) : Prop where
  started : ∀ row ∈ observations modelId environment events,
    (store.startedAt row.runId).isSome = true
  empty : observations modelId environment events = [] →
    store.watermarkRow modelId environment = none
  lastMax : observations modelId environment events ≠ [] →
    ∃ row, store.watermarkRow modelId environment = some row ∧
      LastMax (generation store) (observations modelId environment events) row

theorem TimedRuns.of_step (h : watermarkSystem.step store event = some store')
    (htimed : TimedRuns store') : TimedRuns store :=
  fun runId start hstart => htimed runId start (startedAt_step h hstart)

theorem generation_step (h : watermarkSystem.step store event = some store')
    (hrow : (store.startedAt row.runId).isSome = true) :
    generation store' row = generation store row := by
  obtain ⟨start, hstart⟩ := Option.isSome_iff_exists.1 hrow
  simp [generation, hstart, startedAt_step h hstart]

theorem isSome_startedAt_step (h : watermarkSystem.step store event = some store')
    (hrun : (store.startedAt runId).isSome = true) : (store'.startedAt runId).isSome = true := by
  obtain ⟨start, hstart⟩ := Option.isSome_iff_exists.1 hrun
  simp [startedAt_step h hstart]

theorem watermarkInvariant_of_run (htimed : TimedRuns store)
    (hrun : watermarkSystem.run Store.empty events = some store) :
    WatermarkInvariant store events modelId environment := by
  induction events using List.reverseRecOn generalizing store with
  | nil =>
    cases hrun
    exact ⟨by simp [observations], fun _ => rfl, fun h => absurd rfl h⟩
  | append_singleton events event ih =>
    obtain ⟨mid, hmid, hlast⟩ := watermarkSystem.run_append_eq_some.1 hrun
    have hstep : watermarkSystem.step mid event = some store := by
      simpa [StepSystem.run] using hlast
    have htimedMid := htimed.of_step hstep
    have inv := ih htimedMid hmid
    cases hrow : event.row? modelId environment with
    | none =>
      have hobs : observations modelId environment (events ++ [event]) =
          observations modelId environment events := by
        simp [observations, hrow]
      have hkeep := watermarkRow_step_of_row?_none hstep hrow
      refine ⟨?_, ?_, ?_⟩
      · rw [hobs]
        exact fun row hmem => isSome_startedAt_step hstep (inv.started row hmem)
      · rw [hobs, hkeep]
        exact inv.empty
      · rw [hobs, hkeep]
        intro hne
        obtain ⟨row, hget, hmax⟩ := inv.lastMax hne
        exact ⟨row, hget, hmax.congr fun y hy =>
          generation_step hstep (inv.started y hy)⟩
    | some new =>
      have hobs : observations modelId environment (events ++ [event]) =
          observations modelId environment events ++ [new] := by
        simp [observations, hrow]
      obtain ⟨hnew, hfirst, hnext⟩ :=
        watermarkRow_step_of_row?_some htimedMid hstep hrow
      have hstarted : ∀ row ∈ observations modelId environment events ++ [new],
          (mid.startedAt row.runId).isSome = true := by
        intro row hmem
        rcases List.mem_append.1 hmem with hmem | hmem
        · exact inv.started row hmem
        · rwa [List.mem_singleton.1 hmem]
      refine ⟨?_, ?_, ?_⟩
      · rw [hobs]
        exact fun row hmem => isSome_startedAt_step hstep (hstarted row hmem)
      · rw [hobs]
        intro hnil
        simp at hnil
      · rw [hobs]
        intro _
        by_cases hempty : observations modelId environment events = []
        · refine ⟨new, hfirst (inv.empty hempty), ?_⟩
          rw [hempty]
          exact LastMax.singleton new
        · obtain ⟨old, hold, hmax⟩ := inv.lastMax hempty
          have holdMem : old ∈ observations modelId environment events := by
            obtain ⟨pre, post, hsplit, -, -⟩ := hmax
            simp [hsplit]
          refine ⟨_, hnext old hold (inv.started old holdMem), ?_⟩
          exact (hmax.keepNewer new).congr fun y hy =>
            generation_step hstep (hstarted y hy)

/-- Runs start at the reading of a clock that yields timestamps. -/
def TimedStarts (events : List WatermarkEvent) : Prop :=
  ∀ run plan, WatermarkEvent.start run plan ∈ events → IsTimestamp run.startedAt

theorem timedRuns_of_run (htimed : TimedStarts events)
    (hrun : watermarkSystem.run Store.empty events = some store) : TimedRuns store := by
  induction events using List.reverseRecOn generalizing store with
  | nil =>
    cases hrun
    intro runId start hstart
    simp [Store.startedAt, Store.run, Store.empty] at hstart
  | append_singleton events event ih =>
    obtain ⟨mid, hmid, hlast⟩ := watermarkSystem.run_append_eq_some.1 hrun
    have hstep : watermarkSystem.step mid event = some store := by
      simpa [StepSystem.run] using hlast
    have hbefore : TimedRuns mid :=
      ih (fun run plan hmem => htimed run plan (by simp [hmem])) hmid
    intro runId start hstart
    cases event with
    | start run plan =>
      rw [Store.startedAt_of_startRun hstep] at hstart
      by_cases hid : run.runId = runId
      · rw [if_pos hid] at hstart
        exact Option.some.inj hstart ▸ htimed run plan (by simp)
      · rw [if_neg hid] at hstart
        exact hbefore runId start hstart
    | resume runId' =>
      simp only [watermarkSystem] at hstep
      split at hstep <;> cases hstep
      rw [Store.startedAt_reopenRun] at hstart
      exact hbefore runId start hstart
    | finish runId' status finishedAt failedCount =>
      simp only [watermarkSystem] at hstep
      split at hstep <;> cases hstep
      rw [Store.startedAt_finishRun] at hstart
      exact hbefore runId start hstart
    | observe modelId environment value runId' now =>
      rw [(step_observe hstep).2, Store.startedAt_setWatermark] at hstart
      exact hbefore runId start hstart

/-- After every call the stored watermark is the value of the last call among
those made by the runs that started latest. -/
theorem watermark_lastMax {events : List WatermarkEvent} {store : Store}
    (hrun : watermarkSystem.run Store.empty events = some store)
    (htimed : TimedStarts events) {modelId : String} {environment : Option String}
    (hcalled : observations modelId environment events ≠ []) :
    ∃ row, LastMax (generation store) (observations modelId environment events) row ∧
      store.watermark modelId environment = some row.lastValue := by
  obtain ⟨row, hrow, hmax⟩ :=
    (watermarkInvariant_of_run (timedRuns_of_run htimed hrun) hrun).lastMax hcalled
  exact ⟨row, hmax, by simp [Store.watermark, hrow]⟩

end

/-! ## Two interleaved runs -/

/-- A run of the model below, as recorded when it starts. -/
def startingRun (runId startedAt : String) : RunRecord where
  runId := runId
  planId := "plan"
  environment := none
  referenceHash := none
  startedAt := startedAt
  finishedAt := none
  status := .running
  modelCount := 1
  failedCount := 0

def emptyPlan : StoredPlan where
  planId := "plan"
  environment := none
  models := []
  seeds := []
  tests := []

/-- The first run is killed, the second one runs to its end, and the first one
is resumed and observes the rows both have appended. -/
def interleavedRuns : List WatermarkEvent :=
  [.start (startingRun "run-1" "2026-01-01T00:00:00.000000000Z") emptyPlan,
   .start (startingRun "run-2" "2026-01-02T00:00:00.000000000Z") emptyPlan,
   .observe "assay.results" none "2026-01-10" "run-2" "2026-01-02T00:10:00.000000000Z",
   .finish "run-2" .passed "2026-01-02T00:11:00.000000000Z" 0,
   .resume "run-1",
   .observe "assay.results" none "2026-01-20" "run-1" "2026-01-03T00:00:00.000000000Z"]

/-- The values are handed over in increasing order, and the last one is lost. -/
theorem resumed_observation_discarded :
    (observations "assay.results" none interleavedRuns).map WatermarkRow.lastValue =
        ["2026-01-10", "2026-01-20"] ∧
      "2026-01-10" < "2026-01-20" ∧
      ((@watermarkSystem januaryClock).run Store.empty interleavedRuns).map
          (fun store => store.watermark "assay.results" none) = some (some "2026-01-10") := by
  decide

theorem watermark_lastMax_interleavedRuns :
    ∃ store, (@watermarkSystem januaryClock).run Store.empty interleavedRuns =
        some store ∧
      ∃ row, LastMax (@generation januaryClock store)
          (observations "assay.results" none interleavedRuns) row ∧
        store.watermark "assay.results" none = some row.lastValue := by
  have hsome : ((@watermarkSystem januaryClock).run Store.empty
      interleavedRuns).isSome = true := by decide
  obtain ⟨store, hstore⟩ := Option.isSome_iff_exists.1 hsome
  refine ⟨store, hstore, @watermark_lastMax januaryClock _ _ hstore ?_ _ _
    (by decide)⟩
  intro run plan hmem
  simp only [interleavedRuns, List.mem_cons, WatermarkEvent.start.injEq, reduceCtorEq,
    List.not_mem_nil, or_false] at hmem
  rcases hmem with ⟨rfl, -⟩ | ⟨rfl, -⟩
  · exact ⟨1767225600000000000, by decide⟩
  · exact ⟨1767312000000000000, by decide⟩

end PhloTransform.Engine
