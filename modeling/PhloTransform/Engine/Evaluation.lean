import PhloTransform.Engine.Audit
import PhloTransform.Engine.Promotion
import PhloTransform.Engine.Provisioning

/-!
# Evaluating a promotion

The evidence for a promotion is gathered from the references, the run history, the
recorded binding, the audited diff and the live contract comparison, and the gates
are evaluated over it.

Main results:

- Theorem `passed_only_audited_iff`: when the gates pass only with a fresh audit of the
  pair.
-/

namespace PhloTransform.Engine

open Core (Compilation CompiledModel Sha256)
open Library (Program Table)
open Nessie

/-! ## Calls of an evaluation -/

namespace World

/-- A call of a client, which other calls of the run may find failing. -/
def nessieCall {α : Type} (operation : Program References NessieError α) :
    Program World NessieError α := do
  call.mapError .transport
  operation.zoom World.references fun references w => { w with references := references }

/-- A client of the references as one of the world. -/
def nessieClient (client : NessieClient References) : NessieClient World where
  getReference name := nessieCall (client.getReference name)
  createBranch name source := nessieCall (client.createBranch name source)
  deleteBranch name := nessieCall (client.deleteBranch name)
  merge fromRef fromHash toRef expectedTargetHash :=
    nessieCall (client.merge fromRef fromHash toRef expectedTargetHash)
  canMerge fromRef toRef := nessieCall (client.canMerge fromRef toRef)
  assignReference name hash := nessieCall (client.assignReference name hash)

end World

/-- The rows of a run. -/
structure RunRows where
  models : List ModelRunRecord
  seeds : List SeedRunRecord
  tests : List TestRunRecord
deriving Repr, DecidableEq

def RunRows.none : RunRows where
  models := []
  seeds := []
  tests := []

namespace Store

/-- The rows of a run, each kind in the order of its names. -/
def runRows (store : Store) (runId : String) : RunRows where
  models := (store.modelRuns.rows.filter fun record =>
    decide (record.runId = runId)).insertionSort fun a b => a.modelId ≤ b.modelId
  seeds := (store.seedRuns.rows.filter fun record =>
    decide (record.runId = runId)).insertionSort fun a b => a.name ≤ b.name
  tests := (store.testRuns.rows.filter fun record =>
    decide (record.runId = runId)).insertionSort fun a b => a.testId ≤ b.testId

/-- `latest_run`: the run of the environment that was started last. -/
def latestRun [Rfc3339] (store : Store) (environment : Option String) : Option RunRecord :=
  (recent RunRecord.startedAt ((store.runs.rows.map StoredRun.record).filter fun run =>
    decide (environmentColumn run.environment = environmentColumn environment))).head?

end Store

/-- A read of the store whose failure refuses the promotion. -/
def readStore {α : Type} (read : Store → α) : Program World EngineError α := do
  World.call.mapError fun error => .promotion ("state store error: " ++ error)
  let w ← Program.get
  pure (read w.store)

section Reading

variable [Rfc3339]

/-- The candidate's latest run, when a store is configured. -/
def readLatestRun (stateful : Bool) (candidate : String) :
    Program World EngineError (Option RunRecord) :=
  if stateful then readStore fun store => store.latestRun (some candidate) else pure none

omit [Rfc3339] in
/-- The rows of the latest run; each kind is a read of its own. -/
def readRunRows (stateful : Bool) (run : Option RunRecord) :
    Program World EngineError RunRows :=
  match stateful, run with
  | true, some run => do
      let models ← readStore fun store => (store.runRows run.runId).models
      let seeds ← readStore fun store => (store.runRows run.runId).seeds
      let tests ← readStore fun store => (store.runRows run.runId).tests
      pure { models, seeds, tests }
  | _, _ => pure RunRows.none

/-! ## Contract breaks -/

/-- How a contract change bears on consumers. -/
inductive ContractSafety where
  | safe
  | review
  | breaking
deriving Repr, DecidableEq

/-- One entry in a contract diff. -/
structure ContractChange where
  column : String
  kind : String
  detail : String
  safety : ContractSafety
deriving Repr, DecidableEq

/-- `contract_diff` and `key_change`: what the model's contract and effective key
change against the record of the target environment. -/
abbrev ContractDiff : Type :=
  CompiledModel → Option MaterializedRecord → List ContractChange

omit [Rfc3339] in
/-- A breaking change as the gate reports it. -/
def describeChange (model : String) (change : ContractChange) : String :=
  (if change.column = "" then model else model ++ "." ++ change.column) ++ ": contract " ++
    change.detail

omit [Rfc3339] in
def modelBreaks (contracts : ContractDiff) (records : String → Option MaterializedRecord)
    (model : CompiledModel) : List String :=
  ((contracts model (records model.id.logicalName)).filter fun change =>
    decide (change.safety = .breaking)).map (describeChange model.id.logicalName)

/-- Breaking changes between the contracts recorded for the target and the
workspace's, computed live. -/
def contractBreakingChanges (contracts : ContractDiff) (stateful : Bool)
    (compilation : Compilation) (target : String) : Program World EngineError (List String) :=
  if stateful then do
    (scopeCalls target).mapError .state
    let w ← Program.get
    pure (compilation.models.flatMap
      (modelBreaks contracts (materializedForEnvironment w.store target)))
  else pure []

/-! ## The evaluation -/

omit [Rfc3339] in
/-- Gate-policy switches a caller passes through. -/
structure PromotionOptions where
  requireDiff : Bool
  allowBreakingSchema : Bool
deriving Repr, DecidableEq

omit [Rfc3339] in
/-- The candidate and the target as they are read, before anything is audited. -/
structure PromotionHeads where
  candidate : ReferenceInfo
  target : ReferenceInfo
  run : Option RunRecord
  rows : RunRows
  environment : Option EnvironmentSetup
  environmentEvidenceId : Option String
deriving Repr, DecidableEq

/-- The references, the run history and the binding of a promotion. -/
def readHeads (nessie : NessieClient World) (stateful : Bool) (candidate target : String) :
    Program World EngineError PromotionHeads := do
  let candidateReference ← requireReference nessie "candidate" candidate
  let targetReference ← requireReference nessie "target" target
  let run ← readLatestRun stateful candidate
  let rows ← readRunRows stateful run
  let (environment, environmentEvidenceId) ← readEnvironmentEvidence stateful candidate
  pure
    { candidate := candidateReference, target := targetReference, run, rows, environment
      environmentEvidenceId }

omit [Rfc3339] in
/-- The audit of a promotion's pair at the heads that were read. -/
def PromotionHeads.request (heads : PromotionHeads) (candidate target : String) :
    AuditRequest where
  candidate := candidate
  target := target
  candidateHash := some heads.candidate.hash
  baseHash := some heads.target.hash

omit [Rfc3339] in
/-- Everything a promotion decision is made from. -/
structure PromotionEvaluation where
  heads : PromotionHeads
  /-- What the diff artifact proves, with the live contract breaks. -/
  audit : AuditEvidence
  expectedTargetHash : Option String
  evidence : PromotionEvidenceIds
  gates : GateReport
deriving Repr, DecidableEq

namespace PromotionHeads

variable (heads : PromotionHeads) (candidate target : String) (options : PromotionOptions)
  (audit : AuditEvidence) (mergeCheck : Option MergeOutcome)

section

omit [Rfc3339]

/-- The commit the audit names, else the one the candidate was created from. -/
def expectedTargetHash : Option String :=
  audit.auditedBaseHash.or
    (((heads.environment.filter fun setup =>
      decide (setup.candidate.name = candidate ∧ setup.base.name = target)).bind
        EnvironmentSetup.createdFrom).map ReferenceInfo.hash)

def gateInput : GateInput where
  run := heads.run
  modelRuns := heads.rows.models
  seedRuns := heads.rows.seeds
  testRuns := heads.rows.tests
  requireDiff := options.requireDiff
  diffPassed := audit.diffPassed
  diffRejected := audit.diffRejected
  breakingSchemaChanges := audit.breakingSchemaChanges
  allowBreakingSchema := options.allowBreakingSchema
  expectedTargetHash := heads.expectedTargetHash candidate target audit
  actualTargetHash := some heads.target.hash
  actualCandidateHash := some heads.candidate.hash
  schemaAudited := audit.schemaAudited
  mergeCheck := mergeCheck

def evaluate : PromotionEvaluation where
  heads := heads
  audit := audit
  expectedTargetHash := heads.expectedTargetHash candidate target audit
  evidence :=
    { branchDiff := audit.diffEvidenceId, lineageDiff := none
      environment := heads.environmentEvidenceId }
  gates := evaluateGates (heads.gateInput candidate target options audit mergeCheck)

end

end PromotionHeads

omit [Rfc3339] in
/-- What the audited diff and the live contract breaks show, and the merge check. -/
structure Audited where
  audit : AuditEvidence
  mergeCheck : Option MergeOutcome
deriving Repr, DecidableEq

/-- The audit of the pair at the heads that were read. -/
def auditHeads (nessie : NessieClient World) (contracts : ContractDiff) (stateful : Bool)
    (compilation : Compilation) (candidate target : String) (heads : PromotionHeads) :
    Program World EngineError Audited := do
  let audit ← (heads.request candidate target).auditedDiff stateful
  let breaks ← contractBreakingChanges contracts stateful compilation target
  let mergeCheck ← (nessie.canMerge candidate target).attempt
  pure
    { audit := { audit with breakingSchemaChanges := audit.breakingSchemaChanges ++ breaks }
      mergeCheck := mergeCheck.toOption }

/-- Gather the evidence for a promotion and evaluate the gates over it. -/
def evaluatePromotion (nessie : NessieClient World) (contracts : ContractDiff) (stateful : Bool)
    (compilation : Compilation) (candidate target : String) (options : PromotionOptions) :
    Program World EngineError PromotionEvaluation := do
  let heads ← readHeads nessie stateful candidate target
  let audited ← auditHeads nessie contracts stateful compilation candidate target heads
  pure (heads.evaluate candidate target options audited.audit audited.mergeCheck)

omit [Rfc3339] in
/-- The promotion request this evaluation authorises. -/
def PromotionEvaluation.request (evaluation : PromotionEvaluation) (options : PromotionOptions)
    (actor : Option String) : PromotionRequest where
  candidateRef := evaluation.heads.candidate.name
  targetRef := evaluation.heads.target.name
  candidateHash := some evaluation.heads.candidate.hash
  expectedTargetHash := evaluation.expectedTargetHash.or (some evaluation.heads.target.hash)
  planId := evaluation.heads.run.map RunRecord.planId
  runId := evaluation.heads.run.map RunRecord.runId
  qualityGatesPassed := true
  diffPassed := evaluation.audit.diffPassed
  requireDiff := options.requireDiff
  breakingSchemaChanges := evaluation.audit.breakingSchemaChanges
  allowBreakingSchema := options.allowBreakingSchema
  dryRun := false
  actor := actor
  gates := evaluation.gates.results
  evidence := evaluation.evidence

end Reading

/-! ## Passing without an audit -/

section Passing

variable [Rfc3339]
variable {α : Type}

/-- The lookup at a state finds a report of exactly this pair that names the heads
read, lists the versions stored for both environments and every stored record, and
compared no relation with itself. -/
def FreshAudit (candidate target : String) (heads : PromotionHeads) (s : World) : Prop :=
  ∃ report evidenceId s', (branchDiffEvidence candidate target :
      Program World EngineError BranchDiffLookup) s = (.ok (.found report evidenceId), s') ∧
    report.candidateRef = candidate ∧ report.baseRef = target ∧
    (heads.request candidate target).Fresh report (recordsIn s.store candidate)
      (recordsIn s.store target)

/-- The gates pass only with a fresh audit. -/
def PassesOnlyAudited (candidate target : String) (evaluation : PromotionEvaluation) (s : World) :
    Prop :=
  evaluation.gates.passed = true → FreshAudit candidate target evaluation.heads s

/-- The waiver is on and something is breaking, no fresh audit is found, and every
other gate passes. -/
structure WaivedUnaudited (candidate target : String) (options : PromotionOptions)
    (heads : PromotionHeads) (audited : Audited) (s : World) : Prop where
  waived : options.allowBreakingSchema = true
  breaking : audited.audit.breakingSchemaChanges ≠ []
  unaudited : ¬ FreshAudit candidate target heads s
  others : (heads.gateInput candidate target options audited.audit
    audited.mergeCheck).OtherGates

variable {nessie : NessieClient World} {contracts : ContractDiff} {stateful : Bool}
  {compilation : Compilation} {candidate target : String} {options : PromotionOptions}

/-- An audit that stands is fresh; the live contract breaks do not bear on it. -/
theorem freshAudit_of_schemaAudited {heads : PromotionHeads} {audited : Audited} {s w' : World}
    (hrun : auditHeads nessie contracts stateful compilation candidate target heads s =
      (.ok audited, w')) (haudited : audited.audit.schemaAudited = true) :
    FreshAudit candidate target heads s := by
  obtain ⟨audit, t, haudit, hrun⟩ := Program.bind_eq_ok.1 hrun
  obtain ⟨breaks, t', -, hrun⟩ := Program.bind_eq_ok.1 hrun
  obtain ⟨mergeCheck, t'', -, hrun⟩ := Program.bind_eq_ok.1 hrun
  cases hrun
  obtain ⟨report, evidenceId, s', hfound, hcovered, hfresh⟩ :=
    AuditRequest.fresh_of_schemaAudited haudit haudited
  obtain ⟨hcandidate, hbase⟩ := of_decide_eq_true hcovered
  exact ⟨report, evidenceId, s', hfound, hcandidate, hbase, hfresh⟩

theorem evaluatePromotion_eq_ok {w w' : World} {evaluation : PromotionEvaluation}
    (h : evaluatePromotion nessie contracts stateful compilation candidate target options w =
      (.ok evaluation, w')) :
    ∃ heads s audited, readHeads nessie stateful candidate target w = (.ok heads, s) ∧
      auditHeads nessie contracts stateful compilation candidate target heads s =
        (.ok audited, w') ∧
      evaluation = heads.evaluate candidate target options audited.audit audited.mergeCheck := by
  obtain ⟨heads, s, hheads, h⟩ := Program.bind_eq_ok.1 h
  obtain ⟨audited, t, haudited, h⟩ := Program.bind_eq_ok.1 h
  cases h
  exact ⟨heads, s, audited, hheads, haudited, rfl⟩

/-! ### What reading the heads leaves alone -/

omit [Rfc3339] in
def SameStore (w w' : World) : Prop :=
  w'.store = w.store

instance : Std.Refl SameStore :=
  ⟨fun _ => rfl⟩

instance : IsTrans World SameStore :=
  ⟨fun _ _ _ h h' => h'.trans h⟩

section

omit [Rfc3339]

theorem sameStore_of_reads {ε : Type} {p : Program World ε α} (h : Program.Advances World.Reads p) :
    Program.Advances SameStore p :=
  fun w => (h w).store

theorem sameStore_nessieCall (operation : Program References NessieError α) :
    Program.Advances SameStore (World.nessieCall operation) :=
  (sameStore_of_reads World.reads_call.mapError).bind fun _ _ => rfl

theorem sameStore_requireReference (client : NessieClient References) (role name : String) :
    Program.Advances SameStore (requireReference (World.nessieClient client) role name) := by
  refine (sameStore_nessieCall (client.getReference name)).mapError.bind fun found => ?_
  cases found with
  | none => exact Program.Advances.fail _
  | some _ => exact Program.Advances.pure _

theorem sameStore_readStore (read : Store → α) : Program.Advances SameStore (readStore read) :=
  (sameStore_of_reads World.reads_call.mapError).bind fun _ =>
    Program.Advances.get.bind fun _ => Program.Advances.pure _

theorem sameStore_readRunRows (stateful : Bool) (run : Option RunRecord) :
    Program.Advances SameStore (readRunRows stateful run) := by
  cases stateful with
  | false => exact Program.Advances.pure _
  | true =>
    cases run with
    | none => exact Program.Advances.pure _
    | some _ =>
      exact (sameStore_readStore _).bind fun _ => (sameStore_readStore _).bind fun _ =>
        (sameStore_readStore _).bind fun _ => Program.Advances.pure _

end

theorem sameStore_readHeads (client : NessieClient References) (stateful : Bool)
    (candidate target : String) : Program.Advances SameStore
      (readHeads (World.nessieClient client) stateful candidate target) := by
  refine (sameStore_requireReference client _ _).bind fun candidateReference =>
    (sameStore_requireReference client _ _).bind fun targetReference => ?_
  have hrun : Program.Advances SameStore (readLatestRun stateful candidate) := by
    cases stateful with
    | false => exact Program.Advances.pure _
    | true =>
      rw [readLatestRun, if_pos rfl]
      exact sameStore_readStore _
  exact hrun.bind fun run => (sameStore_readRunRows stateful run).bind fun rows =>
    (sameStore_of_reads (World.reads_readEnvironmentEvidence stateful candidate)).bind fun _ =>
      Program.Advances.pure _

/-- An evaluation passes only with a fresh audit, unless breaking changes are waived
where none was found. -/
theorem passed_only_audited_iff {client : NessieClient References} {w w' : World}
    {evaluation : PromotionEvaluation}
    (hrun : evaluatePromotion (World.nessieClient client) contracts stateful compilation candidate
      target options w = (.ok evaluation, w')) :
    ∃ s audited,
      readHeads (World.nessieClient client) stateful candidate target w =
        (.ok evaluation.heads, s) ∧ s.store = w.store ∧
      auditHeads (World.nessieClient client) contracts stateful compilation candidate target
        evaluation.heads s = (.ok audited, w') ∧
      (PassesOnlyAudited candidate target evaluation s ↔
        ¬ WaivedUnaudited candidate target options evaluation.heads audited s) := by
  obtain ⟨heads, s, audited, hheads, haudited, rfl⟩ := evaluatePromotion_eq_ok hrun
  refine ⟨s, audited, hheads,
    (sameStore_readHeads client stateful candidate target).of_run hheads,
    haudited, ?_⟩
  have hpassed : (heads.evaluate candidate target options audited.audit
      audited.mergeCheck).gates.passed = true ↔
      ((audited.audit.breakingSchemaChanges = [] ∧ audited.audit.schemaAudited = true) ∨
        (audited.audit.breakingSchemaChanges ≠ [] ∧ options.allowBreakingSchema = true)) ∧
      (heads.gateInput candidate target options audited.audit audited.mergeCheck).OtherGates :=
    GateInput.evaluateGates_passed_iff.trans
      (and_congr_left fun _ => GateInput.schemaGate_passed_iff)
  constructor
  · intro h hwaived
    exact hwaived.unaudited
      (h (hpassed.2 ⟨Or.inr ⟨hwaived.breaking, hwaived.waived⟩, hwaived.others⟩))
  · intro h hpass
    by_contra hunaudited
    obtain ⟨⟨-, hschema⟩ | ⟨hbreaking, hwaived⟩, hothers⟩ := hpassed.1 hpass
    · exact hunaudited (freshAudit_of_schemaAudited haudited hschema)
    · exact h ⟨hwaived, hbreaking, hunaudited, hothers⟩

end Passing

/-! ## A waived contract break -/

namespace Sample

/-- `main` at `aaa` with the first table, and the candidate at `bbb`, created from there
and validated by a passed run. -/
def validated (evidence : List EvidenceRecord) : World where
  references := References.seed (References.seed Table.empty "main" "aaa") "ci/pr-1" "bbb"
  store :=
    { Store.empty with
      runs := Table.empty.put
        { record :=
            { runId := "run-1", planId := "plan-1", environment := some "ci/pr-1"
              referenceHash := some "bbb", startedAt := "2026-01-01T00:00:00.000000000Z"
              finishedAt := some "2026-01-01T00:00:00.000000000Z", status := .passed
              modelCount := 0, failedCount := 0 }
          plan := none }
      modelVersions := Table.empty.put
        { modelId := "assay.raw", environment := some "main"
          version := Core.Sample.rawModel.version, target := "main.raw"
          incrementalStrategy := none, incrementalKey := none, adapter := none
          outputIdentity := none, runId := "run-0"
          materializedAt := "2026-01-01T00:00:00.000000000Z" } }
  evidence :=
    environmentRecord
      { base := .branch "main" "aaa", candidate := .branch "ci/pr-1" "aaa"
        createdFrom := some (.branch "main" "aaa"), createdBranch := true
        catalog := "phlo_ci_pr_1", catalogStatus := .created, catalogOwnedByPhlo := some true }
      "evidence-0" "2026-01-01T00:00:00.000000000Z" :: evidence
  files := { environments := Table.empty, branchDiff := none, diff := false }
  faults := []
  supply := { evidenceId := fun _ => "", now := fun _ => "" }
  tick := 0

def contractDropped : ContractDiff := fun model record =>
  if model.id = Core.Sample.rawModel.id ∧ record.isSome = true then
    [{ column := "", kind := "contract_removed", detail := "contract dropped (1 columns)"
       safety := .breaking }]
  else []

def rawAudit : BranchDiffReport where
  candidateRef := "ci/pr-1"
  baseRef := "main"
  candidateHash := some "bbb"
  baseHash := some "aaa"
  datasets :=
    [{ dataset := "assay.raw", kind := .model, status := .removed, candidateVersion := none
       baseVersion := some "raw", candidateRelation := none, baseRelation := some "main.raw"
       upstream := [] }]
  schemaChanges := []
  rows := []
  diffs := []
  deep := true
  passed := true
  startedAt := "2026-01-01T00:00:00.000000000Z"
  finishedAt := "2026-01-01T00:00:00.000000000Z"

def evaluated (contracts : ContractDiff) (allowBreakingSchema : Bool)
    (evidence : List EvidenceRecord) : Except EngineError PromotionEvaluation × World :=
  @evaluatePromotion januaryClock (World.nessieClient InMemoryNessie.client) contracts true
    Core.Sample.chain "ci/pr-1" "main" { requireDiff := false, allowBreakingSchema }
    (validated evidence)

end Sample

/-- The contract break is waived and the gates pass without any report. -/
theorem waived_without_report :
    ∃ evaluation w' s, Sample.evaluated Sample.contractDropped true [] = (.ok evaluation, w') ∧
      @readHeads januaryClock (World.nessieClient InMemoryNessie.client) true "ci/pr-1" "main"
        (Sample.validated []) = (.ok evaluation.heads, s) ∧
      evaluation.gates.passed = true ∧
      ((@branchDiffEvidence januaryClock EngineError "ci/pr-1" "main") s).1.toOption =
        some .missing ∧ ¬ @PassesOnlyAudited januaryClock "ci/pr-1" "main" evaluation s := by
  let _ := januaryClock
  have hpassed : (Sample.evaluated Sample.contractDropped true []).1.toOption.map
      (fun evaluation => evaluation.gates.passed) = some true := by
    decide +kernel
  have hmissing : ((branchDiffEvidence "ci/pr-1" "main" : Program World EngineError _)
      (readHeads (World.nessieClient InMemoryNessie.client) true "ci/pr-1" "main"
        (Sample.validated [])).2).1.toOption = some .missing := by
    decide +kernel
  rcases hrun : Sample.evaluated Sample.contractDropped true [] with ⟨error | evaluation, w'⟩
  · rw [hrun] at hpassed
    cases hpassed
  obtain ⟨heads, s, audited, hheads, -, rfl⟩ := evaluatePromotion_eq_ok hrun
  rw [hheads] at hmissing
  rw [hrun] at hpassed
  have hpass : (heads.evaluate "ci/pr-1" "main"
      { requireDiff := false, allowBreakingSchema := true } audited.audit
      audited.mergeCheck).gates.passed = true := Option.some.inj hpassed
  refine ⟨_, w', s, rfl, hheads, hpass, hmissing, fun honly => ?_⟩
  obtain ⟨report, evidenceId, s', hfound, -⟩ := honly hpass
  rw [hfound] at hmissing
  cases hmissing

/-- Without the waiver, the gates pass on a fresh audit. -/
theorem passes_audited :
    ∃ evaluation s, (Sample.evaluated (fun _ _ => []) false
        [branchDiffRecord Sample.rawAudit "evidence-1"]).1 = .ok evaluation ∧
      evaluation.gates.passed = true ∧
      @FreshAudit januaryClock "ci/pr-1" "main" evaluation.heads s := by
  let _ := januaryClock
  have hpassed : (Sample.evaluated (fun _ _ => []) false
      [branchDiffRecord Sample.rawAudit "evidence-1"]).1.toOption.map
      (fun evaluation => evaluation.gates.passed) = some true := by
    decide +kernel
  rcases hrun : Sample.evaluated (fun _ _ => []) false
    [branchDiffRecord Sample.rawAudit "evidence-1"] with ⟨error | evaluation, w'⟩
  · rw [hrun] at hpassed
    cases hpassed
  rw [hrun] at hpassed
  obtain ⟨s, audited, -, -, -, honly⟩ := passed_only_audited_iff hrun
  exact ⟨evaluation, s, rfl, Option.some.inj hpassed,
    honly.2 (fun hwaived => nomatch hwaived.waived) (Option.some.inj hpassed)⟩

end PhloTransform.Engine
