import PhloTransform.Engine.State
import PhloTransform.Nessie.Client

/-!
# Promotion gates

A promotion is authorised by a fixed list of named gates, each passing or failing
with a human detail.

Main results:

- Theorem `evaluateGates_passed_iff`: what every gate asks of the gathered evidence.
-/

namespace PhloTransform.Engine

open Nessie (MergeOutcome)

/-- A single gate result. -/
structure GateResult where
  name : String
  passed : Bool
  detail : String
deriving Repr, DecidableEq

/-- The evaluated gate set. -/
structure GateReport where
  results : List GateResult
  passed : Bool
deriving Repr, DecidableEq

/-- The failed gates, for error messages. -/
def GateReport.failures (report : GateReport) : List GateResult :=
  report.results.filter fun result => !result.passed

/-- Everything gate evaluation needs, gathered by the caller. -/
structure GateInput where
  run : Option RunRecord
  modelRuns : List ModelRunRecord
  seedRuns : List SeedRunRecord
  testRuns : List TestRunRecord
  requireDiff : Bool
  diffPassed : Option Bool
  diffRejected : Option String
  breakingSchemaChanges : List String
  allowBreakingSchema : Bool
  expectedTargetHash : Option String
  actualTargetHash : Option String
  actualCandidateHash : Option String
  /-- Whether a fresh audited diff backed `breakingSchemaChanges`. -/
  schemaAudited : Bool
  mergeCheck : Option MergeOutcome
deriving Repr, DecidableEq

namespace GateInput

variable (input : GateInput)

/-- The candidate has a finished, fully successful run of the commit promoted. -/
def runGate : GateResult :=
  match input.run with
  | none =>
    { name := "run", passed := false, detail := "no recorded run for the candidate reference" }
  | some run =>
    if run.status = .passed ∧ run.failedCount = 0 then
      match input.actualCandidateHash, run.referenceHash with
      | none, _ =>
        { name := "run", passed := true, detail := "run " ++ run.runId ++ " passed" }
      | some actual, recorded =>
        if recorded = some actual then
          { name := "run", passed := true
            detail := "run " ++ run.runId ++ " passed candidate@" ++ actual }
        else
          { name := "run", passed := false
            detail := "candidate is now " ++ actual ++ "; last successful run " ++
              run.runId ++ " validated " ++ recorded.getD "an unrecorded commit" }
    else
      { name := "run", passed := false
        detail := "latest run " ++ run.runId ++ " " ++ run.status.label ++ " (" ++
          toString run.failedCount ++ " failed)" }

def failedTests : List TestRunRecord :=
  input.testRuns.filter fun record => decide (record.status = .failed)

/-- No test failed in the candidate run. -/
def testsGate : GateResult :=
  if input.run.isNone then
    { name := "tests", passed := false, detail := "no run to audit" }
  else if input.failedTests.isEmpty then
    { name := "tests", passed := true
      detail := toString input.testRuns.length ++ " tests passed" }
  else
    { name := "tests", passed := false
      detail := toString input.failedTests.length ++ " tests failed: " ++
        ", ".intercalate (input.failedTests.map TestRunRecord.testId) }

def isHeldBack (status : ExecutionStatus) : Bool :=
  decide (status = .blocked ∨ status = .cancelled)

/-- The models, seeds and tests that were blocked or cancelled. -/
def heldBack : List String :=
  ((input.modelRuns.filter fun record => isHeldBack record.status).map
      ModelRunRecord.modelId) ++
    ((input.seedRuns.filter fun record => isHeldBack record.status).map SeedRunRecord.name) ++
    ((input.testRuns.filter fun record => isHeldBack record.status).map TestRunRecord.testId)

def blockedGate : GateResult :=
  if input.run.isNone then
    { name := "blocked", passed := false, detail := "no run to audit" }
  else if input.heldBack.isEmpty then
    { name := "blocked", passed := true, detail := "no blocked or cancelled work" }
  else
    { name := "blocked", passed := false
      detail := toString input.heldBack.length ++ " blocked or cancelled: " ++
        ", ".intercalate input.heldBack }

/-- Breaking changes block unless waived.  The audit is asked for only where no
change is breaking. -/
def schemaGate : GateResult :=
  if !input.breakingSchemaChanges.isEmpty then
    if input.allowBreakingSchema then
      { name := "schema", passed := true
        detail := toString input.breakingSchemaChanges.length ++ " breaking changes waived" }
    else
      { name := "schema", passed := false
        detail := "breaking schema changes: " ++ ", ".intercalate input.breakingSchemaChanges }
  else if !input.schemaAudited then
    { name := "schema", passed := false
      detail :=
        match input.diffRejected with
        | some rejected => "schema audit unusable: " ++ rejected
        | none => "schema compatibility was not audited; run " ++
            "`diff --from <candidate> --to <target> --full`" }
  else
    { name := "schema", passed := true, detail := "no breaking schema changes" }

/-- Only evaluated when a diff is required. -/
def dataDiffGate : List GateResult :=
  if input.requireDiff then
    match input.diffRejected, input.diffPassed with
    | some rejected, _ => [{ name := "data_diff", passed := false, detail := rejected }]
    | none, some true =>
      [{ name := "data_diff", passed := true, detail := "data diff passed" }]
    | none, some false =>
      [{ name := "data_diff", passed := false, detail := "data diff failed policy" }]
    | none, none =>
      [{ name := "data_diff", passed := false
         detail := "a passing data diff is required before promotion" }]
  else []

/-- The target did not move since the candidate branched. -/
def baseGate : GateResult :=
  match input.expectedTargetHash, input.actualTargetHash with
  | some expected, some actual =>
    if expected ≠ actual then
      { name := "base", passed := false
        detail := "target advanced since planning (expected " ++ expected ++ ", found " ++
          actual ++ ")" }
    else
      { name := "base", passed := true
        detail := "target unchanged since the evidence base was recorded" }
  | _, _ =>
    { name := "base", passed := false
      detail := "candidate base provenance is unknown — recreate the candidate from the " ++
        "current target or audit it with `diff --from <candidate> --to <target> --full`" }

/-- The non-destructive merge check is clean. -/
def conflictsGate : GateResult :=
  match input.mergeCheck with
  | some check =>
    if check.isClean then
      { name := "conflicts", passed := true, detail := "candidate merges cleanly" }
    else
      { name := "conflicts", passed := false
        detail := "; ".intercalate
          (check.conflicts.map fun conflict => conflict.path ++ ": " ++ conflict.message) }
  | none =>
    { name := "conflicts", passed := false, detail := "merge check was not performed" }

end GateInput

/-- Evaluate every promotion gate against the gathered evidence, in a fixed order. -/
def evaluateGates (input : GateInput) : GateReport :=
  let results :=
    [input.runGate, input.testsGate, input.blockedGate, input.schemaGate] ++
      input.dataDiffGate ++ [input.baseGate, input.conflictsGate]
  { results, passed := results.all GateResult.passed }

namespace GateInput

variable {input : GateInput}

theorem schemaGate_passed_iff :
    input.schemaGate.passed = true ↔
      (input.breakingSchemaChanges = [] ∧ input.schemaAudited = true) ∨
        (input.breakingSchemaChanges ≠ [] ∧ input.allowBreakingSchema = true) := by
  unfold schemaGate
  cases input.breakingSchemaChanges with
  | nil => cases input.schemaAudited <;> simp
  | cons change rest => cases input.allowBreakingSchema <;> simp

/-- The run gate passes on a passed run without failures that is bound to the commit
promoted. -/
theorem runGate_passed_iff :
    input.runGate.passed = true ↔
      ∃ run, input.run = some run ∧ run.status = .passed ∧ run.failedCount = 0 ∧
        ∀ actual, input.actualCandidateHash = some actual → run.referenceHash = some actual := by
  unfold runGate
  cases input.run with
  | none => simp
  | some run =>
    by_cases hrun : run.status = .passed ∧ run.failedCount = 0
    · cases input.actualCandidateHash with
      | none => simp [hrun]
      | some actual =>
        by_cases hbound : run.referenceHash = some actual <;> simp [hrun, hbound]
    · have hopen : ¬(run.status = .passed ∧ run.failedCount = 0) := hrun
      simp only [if_neg hopen, Option.some.injEq, exists_eq_left', Bool.false_eq_true,
        false_iff]
      rintro ⟨hpassed, hcount, -⟩
      exact hopen ⟨hpassed, hcount⟩

theorem testsGate_passed_iff :
    input.testsGate.passed = true ↔
      input.run.isSome = true ∧ ∀ record ∈ input.testRuns, record.status ≠ .failed := by
  have hempty : input.failedTests.isEmpty = true ↔
      ∀ record ∈ input.testRuns, record.status ≠ .failed := by
    rw [List.isEmpty_iff, failedTests, List.filter_eq_nil_iff]
    refine forall₂_congr fun record _ => ?_
    rw [decide_eq_true_eq]
  unfold testsGate
  cases input.run with
  | none => simp
  | some run =>
    rw [← hempty]
    cases input.failedTests.isEmpty <;> simp

theorem blockedGate_passed_iff :
    input.blockedGate.passed = true ↔
      input.run.isSome = true ∧
        (∀ record ∈ input.modelRuns, isHeldBack record.status = false) ∧
        (∀ record ∈ input.seedRuns, isHeldBack record.status = false) ∧
        ∀ record ∈ input.testRuns, isHeldBack record.status = false := by
  have hempty : input.heldBack.isEmpty = true ↔
      (∀ record ∈ input.modelRuns, isHeldBack record.status = false) ∧
        (∀ record ∈ input.seedRuns, isHeldBack record.status = false) ∧
        ∀ record ∈ input.testRuns, isHeldBack record.status = false := by
    simp only [List.isEmpty_iff, heldBack, List.append_eq_nil_iff, List.map_eq_nil_iff,
      List.filter_eq_nil_iff, Bool.not_eq_true, and_assoc]
  unfold blockedGate
  cases input.run with
  | none => simp
  | some run =>
    rw [← hempty]
    cases input.heldBack.isEmpty <;> simp

/-- What the gates other than the schema gate ask. -/
structure OtherGates (input : GateInput) : Prop where
  run : input.runGate.passed = true
  tests : input.testsGate.passed = true
  blocked : input.blockedGate.passed = true
  dataDiff : input.dataDiffGate.all GateResult.passed = true
  base : input.baseGate.passed = true
  conflicts : input.conflictsGate.passed = true

theorem evaluateGates_passed_iff :
    (evaluateGates input).passed = true ↔ input.schemaGate.passed = true ∧ OtherGates input := by
  simp only [evaluateGates, List.all_append, List.all_cons, List.all_nil, Bool.and_true,
    Bool.and_eq_true]
  constructor
  · rintro ⟨⟨⟨hrun, htests, hblocked, hschema⟩, hdiff⟩, hbase, hconflicts⟩
    exact ⟨hschema, hrun, htests, hblocked, hdiff, hbase, hconflicts⟩
  · rintro ⟨hschema, h⟩
    exact ⟨⟨⟨h.run, h.tests, h.blocked, hschema⟩, h.dataDiff⟩, h.base, h.conflicts⟩

end GateInput
end PhloTransform.Engine
