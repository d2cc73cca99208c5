import PhloTransform.Engine.Evaluation

/-!
# Promotion audits the latest run

The run, test and blocked gates are evaluated over the candidate's latest recorded run and
over the rows of that run.  What an earlier run left, and a test that the latest run did not
run, is not looked at.

Main results:

- Theorem `passed_audits_latest_run`: what a promotion that passes its gates knows of the
  candidate's latest run.
- Theorem `narrower_run_hides_failure`: a later run of another model hides a failed one.
-/

namespace PhloTransform.Engine

open Core (Compilation)
open Library (Program Table)
open Nessie

/-! ## The runs of a candidate -/

/-- The statuses of everything a run recorded. -/
def RunRows.statuses (rows : RunRows) : List ExecutionStatus :=
  rows.models.map ModelRunRecord.status ++ rows.seeds.map SeedRunRecord.status ++
    rows.tests.map TestRunRecord.status

namespace Store

def runsOf (store : Store) (candidate : String) : List RunRecord :=
  (store.runs.rows.map StoredRun.record).filter fun run =>
    decide (environmentColumn run.environment = environmentColumn (some candidate))

variable [Rfc3339] {store : Store} {candidate : String} {run : RunRecord}

/-- The latest run is recorded, and none of the candidate started later. -/
theorem latestRun_spec (htimes : ∀ run ∈ store.runsOf candidate, IsTimestamp run.startedAt)
    (h : store.latestRun (some candidate) = some run) :
    run ∈ store.runsOf candidate ∧
      ∀ other ∈ store.runsOf candidate, instant other.startedAt ≤ instant run.startedAt := by
  have hhead : (recent RunRecord.startedAt (store.runsOf candidate)).head? = some run := h
  have hmem : run ∈ recent RunRecord.startedAt (store.runsOf candidate) :=
    List.mem_of_mem_head? hhead
  refine ⟨mem_recent.1 hmem, ?_⟩
  intro other hother
  have hsorted : (recent RunRecord.startedAt (store.runsOf candidate)).Pairwise
      fun a b => instant b.startedAt ≤ instant a.startedAt := by
    rw [recent, newestFirst_eq (by simpa using htimes)]
    exact List.pairwise_insertionSort _ _
  have hlisted : other ∈ recent RunRecord.startedAt (store.runsOf candidate) :=
    mem_recent.2 hother
  cases hlist : recent RunRecord.startedAt (store.runsOf candidate) with
  | nil =>
    rw [hlist] at hlisted
    cases hlisted
  | cons first rest =>
    rw [hlist] at hhead hsorted hlisted
    obtain rfl := Option.some.inj hhead
    rcases List.mem_cons.1 hlisted with heq | hrest
    · rw [heq]
    · exact (List.pairwise_cons.1 hsorted).1 other hrest

end Store

/-! ## What a promotion reads of the history -/

section Heads

variable [Rfc3339] {client : NessieClient References} {stateful : Bool}
  {candidate target : String} {w : World}
variable {s : World}

omit [Rfc3339] in
theorem readStore_eq_ok {α : Type} {read : Store → α} {a : α} (h : readStore read w = (.ok a, s)) :
    a = read w.store ∧ s.store = w.store := by
  obtain ⟨_, t, hcall, h⟩ := Program.bind_eq_ok.1 h
  have hstore : t.store = w.store :=
    (sameStore_of_reads World.reads_call.mapError).of_run hcall
  cases h
  exact ⟨by rw [← hstore], hstore⟩

theorem readLatestRun_eq_ok {run : Option RunRecord}
    (h : readLatestRun stateful candidate w = (.ok run, s)) :
    run = if stateful then w.store.latestRun (some candidate) else none := by
  cases stateful with
  | false =>
    cases h
    rfl
  | true =>
    rw [readLatestRun, if_pos rfl] at h
    exact (readStore_eq_ok h).1

omit [Rfc3339] in
theorem readRunRows_eq_ok {run : RunRecord} {rows : RunRows}
    (h : readRunRows true (some run) w = (.ok rows, s)) : rows = w.store.runRows run.runId := by
  obtain ⟨models, t, hmodels, h⟩ := Program.bind_eq_ok.1 h
  obtain ⟨seeds, t', hseeds, h⟩ := Program.bind_eq_ok.1 h
  obtain ⟨tests, t'', htests, h⟩ := Program.bind_eq_ok.1 h
  cases h
  obtain ⟨rfl, hstore⟩ := readStore_eq_ok hmodels
  obtain ⟨rfl, hstore'⟩ := readStore_eq_ok hseeds
  obtain ⟨rfl, -⟩ := readStore_eq_ok htests
  rw [hstore', hstore]

/-- The run and the rows that the heads hold are those of the store. -/
theorem readHeads_history {heads : PromotionHeads}
    (h : readHeads (World.nessieClient client) stateful candidate target w = (.ok heads, s)) :
    heads.run = (if stateful then w.store.latestRun (some candidate) else none) ∧
      ∀ run, heads.run = some run → heads.rows = w.store.runRows run.runId := by
  obtain ⟨candidateReference, t, hcandidate, h⟩ := Program.bind_eq_ok.1 h
  obtain ⟨targetReference, t', htarget, h⟩ := Program.bind_eq_ok.1 h
  obtain ⟨run, t'', hlatest, h⟩ := Program.bind_eq_ok.1 h
  obtain ⟨rows, u, hrows, h⟩ := Program.bind_eq_ok.1 h
  obtain ⟨setup, u', -, h⟩ := Program.bind_eq_ok.1 h
  cases h
  have hstore : t'.store = w.store :=
    ((sameStore_requireReference client _ _).of_run htarget).trans
      ((sameStore_requireReference client _ _).of_run hcandidate)
  have hrun := readLatestRun_eq_ok hlatest
  rw [hstore] at hrun
  refine ⟨hrun, ?_⟩
  rintro run rfl
  cases stateful with
  | false => cases hrun
  | true =>
    have hsame : t''.store = t'.store := by
      rw [readLatestRun, if_pos rfl] at hlatest
      exact (readStore_eq_ok hlatest).2
    rw [← hstore, ← hsame]
    exact readRunRows_eq_ok hrows

end Heads

/-! ## The latest run of a promotion -/

/-- Everything a run recorded has a final status, and the run counts the failures. -/
structure Ended (run : RunRecord) (rows : RunRows) : Prop where
  final : ∀ status ∈ rows.statuses, status.isTerminal = true
  counted : run.failedCount = rows.statuses.count .failed

/-- The latest run of a candidate, as a promotion of its head relies on it. -/
structure AuditedRun [Rfc3339] (store : Store) (candidate head : String) (run : RunRecord) :
    Prop where
  recorded : run ∈ store.runsOf candidate
  latest : ∀ other ∈ store.runsOf candidate, instant other.startedAt ≤ instant run.startedAt
  passed : run.status = .passed
  unfailed : run.failedCount = 0
  bound : run.referenceHash = some head
  tests : ∀ record ∈ (store.runRows run.runId).tests, record.status ≠ .failed
  open_work : ∀ status ∈ (store.runRows run.runId).statuses,
    status ≠ .blocked ∧ status ≠ .cancelled
  satisfied : Ended run (store.runRows run.runId) →
    ∀ status ∈ (store.runRows run.runId).statuses, status.isSatisfied = true

theorem isSatisfied_of_final {status : ExecutionStatus} (hfinal : status.isTerminal = true)
    (hfailed : status ≠ .failed) (hopen : status ≠ .blocked ∧ status ≠ .cancelled) :
    status.isSatisfied = true := by
  cases status with
  | passed | skipped | cached => rfl
  | failed => exact absurd rfl hfailed
  | blocked => exact absurd rfl hopen.1
  | cancelled => exact absurd rfl hopen.2
  | pending | ready | running => cases hfinal

/-- A promotion that passes its gates relies on the candidate's latest run: it is passed without
failures, bound to the commit promoted, and left nothing failed, blocked or cancelled. -/
theorem passed_audits_latest_run [Rfc3339] {client : NessieClient References}
    {contracts : ContractDiff} {stateful : Bool} {compilation : Compilation}
    {candidate target : String} {options : PromotionOptions} {w w' : World}
    {evaluation : PromotionEvaluation}
    (hrun : evaluatePromotion (World.nessieClient client) contracts stateful compilation candidate
      target options w = (.ok evaluation, w'))
    (htimes : ∀ run ∈ w.store.runsOf candidate, IsTimestamp run.startedAt)
    (hpass : evaluation.gates.passed = true) :
    ∃ run, w.store.latestRun (some candidate) = some run ∧
      AuditedRun w.store candidate evaluation.heads.candidate.hash run := by
  obtain ⟨heads, s, audited, hheads, -, rfl⟩ := evaluatePromotion_eq_ok hrun
  obtain ⟨hlatest, hrows⟩ := readHeads_history hheads
  obtain ⟨-, hgates⟩ := GateInput.evaluateGates_passed_iff.1 hpass
  obtain ⟨run, hfound, hpassed, hcount, hbound⟩ := GateInput.runGate_passed_iff.1 hgates.run
  have hrun' : heads.run = some run := hfound
  have hstored : w.store.latestRun (some candidate) = some run := by
    rw [hrun'] at hlatest
    cases stateful with
    | false => cases hlatest
    | true => exact hlatest.symm
  have hread : heads.rows = w.store.runRows run.runId := hrows run hrun'
  have htests : ∀ record ∈ (w.store.runRows run.runId).tests, record.status ≠ .failed :=
    hread ▸ (GateInput.testsGate_passed_iff.1 hgates.tests).2
  obtain ⟨-, hmodels, hseeds, htestRuns⟩ := GateInput.blockedGate_passed_iff.1 hgates.blocked
  have hopen : ∀ status ∈ (w.store.runRows run.runId).statuses,
      status ≠ .blocked ∧ status ≠ .cancelled := by
    have hheld : ∀ status ∈ heads.rows.statuses, GateInput.isHeldBack status = false := by
      intro status hstatus
      rcases List.mem_append.1 hstatus with hstatus | hstatus
      · rcases List.mem_append.1 hstatus with hstatus | hstatus
        · obtain ⟨record, hrecord, rfl⟩ := List.mem_map.1 hstatus
          exact hmodels record hrecord
        · obtain ⟨record, hrecord, rfl⟩ := List.mem_map.1 hstatus
          exact hseeds record hrecord
      · obtain ⟨record, hrecord, rfl⟩ := List.mem_map.1 hstatus
        exact htestRuns record hrecord
    intro status hstatus
    have hnot := of_decide_eq_false (hheld status (hread ▸ hstatus))
    exact not_or.1 hnot
  obtain ⟨hrecorded, hnewest⟩ := Store.latestRun_spec htimes hstored
  refine ⟨run, hstored, hrecorded, hnewest, hpassed, hcount, hbound _ rfl, htests, hopen, ?_⟩
  intro hended status hstatus
  have hnone : ExecutionStatus.failed ∉ (w.store.runRows run.runId).statuses := by
    rw [← List.count_eq_zero, ← hended.counted]
    exact hcount
  apply isSatisfied_of_final (hended.final status hstatus) _ (hopen status hstatus)
  rintro rfl
  exact hnone hstatus

/-! ## A narrower run -/

/-- The row is the outcome of its model in the latest run of the candidate that has one. -/
structure LatestOutcome [Rfc3339] (store : Store) (candidate : String) (row : ModelRunRecord) :
    Prop where
  recorded : row ∈ store.modelRuns.rows
  latest : ∃ run ∈ store.runsOf candidate, run.runId = row.runId ∧
    ∀ other ∈ store.runsOf candidate, ∀ row' ∈ store.modelRuns.rows,
      row'.runId = other.runId → row'.modelId = row.modelId →
        instant other.startedAt ≤ instant run.startedAt

/-- Every model that a run of the candidate built or tried to build is satisfied at last, and
its tests have passed since. -/
structure PublishesTested [Rfc3339] (store : Store) (compilation : Compilation)
    (candidate : String) : Prop where
  outcomes : ∀ model ∈ compilation.models, ∀ row, LatestOutcome store candidate row →
    row.modelId = model.id.logicalName → row.status.isSatisfied = true
  tests : ∀ model ∈ compilation.models, ∀ row, LatestOutcome store candidate row →
    row.modelId = model.id.logicalName → ∀ test ∈ compilation.tests, model.id ∈ test.targets →
      ∃ run ∈ store.runsOf candidate, ∃ result ∈ store.testRuns.rows,
        result.runId = run.runId ∧ result.testId = test.id ∧ result.status = .passed ∧
          instant row.finishedAt ≤ instant result.finishedAt

namespace Sample

def candidateRun (runId startedAt : String) (status : ExecutionStatus) (failedCount : Nat)
    (referenceHash : Option String) : StoredRun where
  record :=
    { runId, planId := "plan-" ++ runId, environment := some "ci/pr-1", referenceHash, startedAt
      finishedAt := some startedAt, status, modelCount := 1, failedCount }
  plan := none

def candidateRow (runId modelId startedAt : String) (status : ExecutionStatus) :
    ModelRunRecord where
  runId := runId
  modelId := modelId
  materialization := "table"
  action := "build"
  status := status
  startedAt := startedAt
  finishedAt := startedAt
  target := "main." ++ modelId
  desiredVersion := modelId
  attempts := []
  errorCategory := none

/-- The first table failed on the first of January; a run of the second one passed on the
second. -/
def narrowed : World :=
  let world := validated [branchDiffRecord rawAudit "evidence-1"]
  { world with
    store :=
      { world.store with
        runs := (Table.empty.put
          (candidateRun "run-0" "2026-01-01T00:00:00.000000000Z" .failed 1 none)).put
          (candidateRun "run-1" "2026-01-02T00:00:00.000000000Z" .passed 0 (some "bbb"))
        modelRuns := (Table.empty.put
          (candidateRow "run-0" "assay.raw" "2026-01-01T00:00:00.000000000Z" .failed)).put
          (candidateRow "run-1" "assay.mart" "2026-01-02T00:00:00.000000000Z" .skipped) } }

def promoteNarrowed : Except EngineError PromotionEvaluation × World :=
  @evaluatePromotion januaryClock (World.nessieClient InMemoryNessie.client) (fun _ _ => []) true
    Core.Sample.chain "ci/pr-1" "main" { requireDiff := false, allowBreakingSchema := false }
    narrowed

theorem promoteNarrowed_passed :
    ∃ evaluation, promoteNarrowed.1 = .ok evaluation ∧ evaluation.gates.passed = true := by
  have hpassed : promoteNarrowed.1.toOption.map
      (fun evaluation => evaluation.gates.passed) = some true := by
    decide +kernel
  rcases hrun : promoteNarrowed.1 with error | evaluation
  · rw [hrun] at hpassed
    cases hpassed
  · rw [hrun] at hpassed
    exact ⟨evaluation, rfl, Option.some.inj hpassed⟩

end Sample

/-- The gates pass on the later run of the second table, although the candidate's only run of
the first one failed. -/
theorem narrower_run_hides_failure :
    ∃ evaluation, Sample.promoteNarrowed.1 = .ok evaluation ∧ evaluation.gates.passed = true ∧
      ¬ @PublishesTested januaryClock Sample.narrowed.store Core.Sample.chain "ci/pr-1" := by
  obtain ⟨evaluation, hrun, hpassed⟩ := Sample.promoteNarrowed_passed
  refine ⟨evaluation, hrun, hpassed, fun h => ?_⟩
  let _ := januaryClock
  have hrow : Sample.candidateRow "run-0" "assay.raw" "2026-01-01T00:00:00.000000000Z" .failed ∈
      Sample.narrowed.store.modelRuns.rows := by
    decide +kernel
  have hlatest : LatestOutcome Sample.narrowed.store "ci/pr-1"
      (Sample.candidateRow "run-0" "assay.raw" "2026-01-01T00:00:00.000000000Z" .failed) := by
    refine ⟨hrow, (Sample.candidateRun "run-0" "2026-01-01T00:00:00.000000000Z" .failed 1
      none).record, by decide +kernel, rfl, ?_⟩
    decide +kernel
  have hsatisfied := h.outcomes Core.Sample.rawModel (by decide +kernel) _ hlatest
    (by decide +kernel)
  cases hsatisfied

/-- The run of the second table is what the promotion relies on. -/
theorem passed_audits_latest_run_narrowed :
    ∃ evaluation run, Sample.promoteNarrowed.1 = .ok evaluation ∧
      @AuditedRun januaryClock Sample.narrowed.store "ci/pr-1"
        evaluation.heads.candidate.hash run := by
  let _ := januaryClock
  obtain ⟨evaluation, hrun, hpassed⟩ := Sample.promoteNarrowed_passed
  have htimes : ∀ run ∈ Sample.narrowed.store.runsOf "ci/pr-1",
      IsTimestamp run.startedAt := by
    have hboth : Sample.narrowed.store.runsOf "ci/pr-1" =
        [(Sample.candidateRun "run-0" "2026-01-01T00:00:00.000000000Z" .failed 1 none).record,
          (Sample.candidateRun "run-1" "2026-01-02T00:00:00.000000000Z" .passed 0
            (some "bbb")).record] := by
      decide +kernel
    rw [hboth]
    intro run hmem
    rcases List.mem_cons.1 hmem with rfl | hmem
    · exact ⟨1767225600000000000, by decide +kernel⟩
    · rw [List.mem_singleton.1 hmem]
      exact ⟨1767312000000000000, by decide +kernel⟩
  have hwhole : Sample.promoteNarrowed = (.ok evaluation, Sample.promoteNarrowed.2) :=
    Prod.ext hrun rfl
  obtain ⟨run, -, haudited⟩ := passed_audits_latest_run hwhole htimes hpassed
  exact ⟨evaluation, run, hrun, haudited⟩

end PhloTransform.Engine
