import PhloTransform.Engine.Environment

/-!
# The branch-diff audit of a promotion

A promotion consults the freshest branch-diff report of its candidate and target.
The report counts as a schema audit only while the heads and the recorded versions
are still the ones it was made from.

Main results:

- Theorem `fresh_iff`: nothing about a report is stale exactly when it is fresh.
- Theorem `fresh_of_schemaAudited`: an audit that stands found a fresh report of its
  pair.
-/

namespace PhloTransform.Engine

open Core (Sha256)
open Library (Program Table)
open Nessie

/-- What the audited diff proves for a promotion. -/
structure AuditEvidence where
  /-- The audited diff's verdict, when an applicable artifact was inspected. -/
  diffPassed : Option Bool
  /-- Why the artifact cannot stand as evidence, when rejected. -/
  diffRejected : Option String
  breakingSchemaChanges : List String
  auditedBaseHash : Option String
  /-- A fresh, ref-and-commit-bound audit actually inspected this pair. -/
  schemaAudited : Bool
  diffEvidenceId : Option String
deriving Repr, DecidableEq

def AuditEvidence.none : AuditEvidence where
  diffPassed := Option.none
  diffRejected := Option.none
  breakingSchemaChanges := []
  auditedBaseHash := Option.none
  schemaAudited := false
  diffEvidenceId := Option.none

/-- Evidence that was found and cannot be used. -/
def AuditEvidence.rejected (reason : String) (evidenceId : Option String) : AuditEvidence :=
  { AuditEvidence.none with diffRejected := some reason, diffEvidenceId := evidenceId }

/-- What the freshest branch-diff evidence holds. -/
inductive BranchDiffLookup where
  | missing
  | found (report : BranchDiffReport) (evidenceId : Option String)
  | corrupt (reason : String)
deriving Repr, DecidableEq

/-! ## Finding the report -/

section Finding

variable [Rfc3339]

/-- The report a stored record speaks of. -/
def decodeReport (record : EvidenceRecord) : BranchDiffLookup :=
  match record.payload with
  | .branchDiff report => .found report (some record.evidenceId)
  | _ => .corrupt "undecodable branch-diff evidence"

/-- Import the report of the artifact file. -/
def importReport (file : Option BranchDiffReport) : Program World String (Option String) :=
  match file with
  | some report => do
      let (evidenceId, _) ← World.draw
      World.importEvidence (branchDiffRecord report evidenceId)
  | none => pure none

omit [Rfc3339] in
/-- The store's newest record auditing this exact pair. -/
def pairRecord (records : List EvidenceRecord) (target : String) : Option EvidenceRecord :=
  records.find? fun record => decide (record.targetRef = target)

/-- The file names this pair and outdates the store's record of it. -/
def fileFresher (file : Option BranchDiffReport) (record : Option EvidenceRecord)
    (candidate target : String) : Bool :=
  match file, record with
  | some report, some record =>
    decide (report.candidateRef = candidate ∧ report.baseRef = target) &&
      decide (cmpRfc3339 report.finishedAt record.createdAt = .gt)
  | some report, none => decide (report.candidateRef = candidate ∧ report.baseRef = target)
  | none, _ => false

/-- The file where it is fresher, else the store's record of the pair, else the
candidate's newest one, else the file. -/
def chooseReport (file : Option BranchDiffReport) (fileRecordId : Option String)
    (records : List EvidenceRecord) (candidate target : String) : Option BranchDiffLookup :=
  if fileFresher file (pairRecord records target) candidate target then
    some (file.elim .missing fun report => .found report fileRecordId)
  else
    match (pairRecord records target).or records.head? with
    | some record => some (decodeReport record)
    | none => file.map fun report => .found report fileRecordId

/-- The freshest branch-diff evidence for a promotion. -/
def branchDiffEvidence {ε : Type} (candidate target : String) :
    Program World ε BranchDiffLookup := do
  let file ← World.readFile ArtifactFiles.branchDiff
  match ← (World.evidenceFor .branchDiff candidate).attempt with
  | .error error => pure (.corrupt ("cannot read the evidence store: " ++ error))
  | .ok records =>
    match ← (importReport file).attempt with
    | .error error => pure (.corrupt ("state store error: " ++ error))
    | .ok fileRecordId =>
      match chooseReport file fileRecordId records candidate target with
      | some found => pure found
      | none =>
        match ← (World.latestEvidence .branchDiff).attempt with
        | .error error => pure (.corrupt ("cannot read the evidence store: " ++ error))
        | .ok latest => pure (latest.head?.elim .missing decodeReport)

end Finding

/-! ## Checking the report -/

/-- The records of one environment, with their keys. -/
structure EnvironmentRecords where
  models : String → Option MaterializedRecord
  modelNames : List String
  seeds : String → Option SeedRecord
  seedNames : List String

def EnvironmentRecords.none : EnvironmentRecords where
  models _ := Option.none
  modelNames := []
  seeds _ := Option.none
  seedNames := []

namespace EnvironmentRecords

variable (records : EnvironmentRecords)

/-- The version a record of the kind holds now. -/
def version (kind : DatasetKind) (name : String) : Option String :=
  match kind with
  | .model => (records.models name).map fun record => record.version.hash
  | .seed => (records.seeds name).map SeedRecord.contentHash

/-- The keys of the records, models first, each kind in text order. -/
def keys : List (String × DatasetKind) :=
  (sortedUnique records.modelNames).map (fun name => (name, DatasetKind.model)) ++
    (sortedUnique records.seedNames).map fun name => (name, DatasetKind.seed)

end EnvironmentRecords

section Checking

variable [Rfc3339]

/-- What a store holds for an environment. -/
def recordsIn (store : Store) (environment : String) : EnvironmentRecords where
  models := materializedForEnvironment store environment
  modelNames := materializedNames store environment
  seeds := seedsForEnvironment store environment
  seedNames := seedNames store environment

omit [Rfc3339] in
/-- The store calls of reading one scope. -/
def scopeCalls (environment : String) : Program World String Unit := do
  World.call
  if (foldedEnvironment (some environment)).isSome then World.call else pure ()

/-- Read the model and the seed records of an environment; the first failure counts. -/
def readRecords {ε : Type} (environment : String) :
    Program World ε (Except String EnvironmentRecords) := do
  let models ← (scopeCalls environment).attempt
  let seeds ← (scopeCalls environment).attempt
  let w ← Program.get
  match models, seeds with
  | .ok _, .ok _ => pure (.ok (recordsIn w.store environment))
  | .error error, _ => pure (.error error)
  | .ok _, .error error => pure (.error error)

end Checking

/-- A promotion's pair of references and the heads it reads them at. -/
structure AuditRequest where
  candidate : String
  target : String
  candidateHash : Option String
  baseHash : Option String
deriving Repr, DecidableEq

namespace AuditRequest

variable (request : AuditRequest)
variable {report : BranchDiffReport}
variable {candidate base : Except String EnvironmentRecords}

def rerun : String :=
  "rerun `diff --from " ++ request.candidate ++ " --to " ++ request.target ++ " --full`"

/-- The report does not name a head it has to name. -/
def unbound (label : String) (recorded expected : Option String) : List String :=
  match expected with
  | none => []
  | some expected =>
    match recorded with
    | some recorded =>
      if recorded = expected then []
      else ["branch diff audited " ++ label ++ "@" ++ recorded ++ ", not current " ++ label ++
        "@" ++ expected ++ "; " ++ request.rerun]
    | none => ["branch diff does not record the " ++ label ++ " commit it audited; " ++
        request.rerun]

def bindingReasons (report : BranchDiffReport) : List String :=
  request.unbound "candidate" report.candidateHash request.candidateHash ++
    request.unbound "base" report.baseHash request.baseHash

/-- A dataset whose recorded version is not the current one. -/
def versionReasons (candidate base : EnvironmentRecords) (dataset : DatasetDiff) : List String :=
  (if candidate.version dataset.kind dataset.dataset ≠ dataset.candidateVersion then
    ["branch diff is stale: `" ++ dataset.dataset ++ "` changed on the candidate since the diff"]
  else []) ++
  if base.version dataset.kind dataset.dataset ≠ dataset.baseVersion then
    ["branch diff is stale: `" ++ dataset.dataset ++ "` changed on `" ++ request.target ++
      "` since the diff"]
  else []

/-- The report lists the name as that kind. -/
def covers (report : BranchDiffReport) (key : String × DatasetKind) : Bool :=
  report.datasets.any fun dataset => decide (dataset.dataset = key.1 ∧ dataset.kind = key.2)

/-- Records that the report does not cover. -/
def uncovered (report : BranchDiffReport) (records : EnvironmentRecords) (side : String) :
    List String :=
  (records.keys.filter fun key => !covers report key).map fun key =>
    "branch diff is stale: `" ++ key.1 ++ "` materialised on " ++ side ++ " after the diff"

/-- A deep entry compared a relation with itself. -/
def selfCompared (report : BranchDiffReport) : Bool :=
  report.diffs.any fun diff => decide (diff.candidateRelation = diff.baseRelation)

/-- A side whose records cannot be read. -/
def unreadable (records : Except String EnvironmentRecords) : List String :=
  match records with
  | .ok _ => []
  | .error error => ["cannot confirm the diff is current: " ++ error]

def readable (records : Except String EnvironmentRecords) : EnvironmentRecords :=
  match records with
  | .ok records => records
  | .error _ => EnvironmentRecords.none

/-- Every reason why the report no longer applies, in the order it is found. -/
def staleReasons (report : BranchDiffReport) (candidate base : Except String EnvironmentRecords) :
    List String :=
  request.bindingReasons report ++ unreadable candidate ++ unreadable base ++
    report.datasets.flatMap (request.versionReasons (readable candidate) (readable base)) ++
    uncovered report (readable candidate) "the candidate" ++
    uncovered report (readable base) ("`" ++ request.target ++ "`") ++
    if selfCompared report then
      ["branch diff compared a relation to itself; rerun against distinct candidate and base " ++
        "relations"]
    else []

/-- The breaking entries that the report recorded. -/
def recordedBreaks (report : BranchDiffReport) : List String :=
  report.schemaChanges.flatMap fun diff =>
    (diff.changes.filter fun change =>
      decide (change.safety = "error" ∨ change.safety = "full_rebuild_required")).map
      fun change => diff.model ++ "." ++ change.column ++ ": " ++ change.detail

def shallow (report : BranchDiffReport) : Bool :=
  !report.deep && report.diffs.isEmpty

/-- The evidence of a report for this pair. -/
def audit (report : BranchDiffReport) (evidenceId : Option String)
    (candidate base : Except String EnvironmentRecords) : AuditEvidence where
  diffPassed := if shallow report then none else some report.passed
  diffRejected := (request.staleReasons report candidate base ++
    if shallow report then
      ["branch diff ran without `--full`; " ++ request.rerun ++ " for a value-level audit"]
    else []).head?
  breakingSchemaChanges := recordedBreaks report
  auditedBaseHash := report.baseHash
  schemaAudited := (request.staleReasons report candidate base).isEmpty
  diffEvidenceId := evidenceId

def covered (report : BranchDiffReport) : Bool :=
  decide (report.candidateRef = request.candidate ∧ report.baseRef = request.target)

/-- `audited_diff`. -/
def auditedDiff [Rfc3339] {ε : Type} (stateful : Bool) : Program World ε AuditEvidence := do
  if stateful then
    match ← branchDiffEvidence request.candidate request.target with
    | .corrupt reason => pure (.rejected (reason ++ "; " ++ request.rerun) none)
    | .found report evidenceId =>
      if request.covered report then do
        let candidate ← readRecords request.candidate
        let base ← readRecords request.target
        pure (request.audit report evidenceId candidate base)
      else
        pure (.rejected ("branch diff covers `" ++ report.candidateRef ++ "` -> `" ++
          report.baseRef ++ "`, not `" ++ request.candidate ++ "` -> `" ++ request.target ++ "`; " ++
          request.rerun) evidenceId)
    | .missing => do
        let diff ← World.readFile fun files => if files.diff then some () else none
        if diff.isSome then
          pure (.rejected ("a single-model diff cannot audit a branch; run `diff --from " ++
            request.candidate ++ " --to " ++ request.target ++ " --full`") none)
        else pure .none
  else pure .none

/-! ## Freshness -/

/-- The report names the present heads, lists the present versions and every present
record, and compared no relation with itself. -/
structure Fresh (report : BranchDiffReport) (candidate base : EnvironmentRecords) : Prop where
  candidateBound : ∀ hash, request.candidateHash = some hash → report.candidateHash = some hash
  baseBound : ∀ hash, request.baseHash = some hash → report.baseHash = some hash
  candidateVersions : ∀ dataset ∈ report.datasets,
    candidate.version dataset.kind dataset.dataset = dataset.candidateVersion
  baseVersions : ∀ dataset ∈ report.datasets,
    base.version dataset.kind dataset.dataset = dataset.baseVersion
  candidateCovered : ∀ key ∈ candidate.keys, covers report key = true
  baseCovered : ∀ key ∈ base.keys, covers report key = true
  distinct : selfCompared report = false

variable {request}

theorem unbound_eq_nil_iff {label : String} {recorded expected : Option String} :
    request.unbound label recorded expected = [] ↔
      ∀ hash, expected = some hash → recorded = some hash := by
  cases expected with
  | none => simp [unbound]
  | some expected =>
    cases recorded with
    | none => simp [unbound]
    | some recorded => by_cases h : recorded = expected <;> simp [unbound, h]

theorem versionReasons_eq_nil_iff {candidate base : EnvironmentRecords} {dataset : DatasetDiff} :
    request.versionReasons candidate base dataset = [] ↔
      candidate.version dataset.kind dataset.dataset = dataset.candidateVersion ∧
        base.version dataset.kind dataset.dataset = dataset.baseVersion := by
  by_cases hcandidate : candidate.version dataset.kind dataset.dataset = dataset.candidateVersion <;>
    by_cases hbase : base.version dataset.kind dataset.dataset = dataset.baseVersion <;>
    simp [versionReasons, hcandidate, hbase]

theorem uncovered_eq_nil_iff {records : EnvironmentRecords} {side : String} :
    uncovered report records side = [] ↔ ∀ key ∈ records.keys, covers report key = true := by
  simp [uncovered, List.filter_eq_nil_iff]

theorem unreadable_eq_nil_iff {records : Except String EnvironmentRecords} :
    unreadable records = [] ↔ ∃ found, records = .ok found := by
  cases records with
  | ok found => exact iff_of_true rfl ⟨found, rfl⟩
  | error error => exact iff_of_false (List.cons_ne_nil _ _) fun ⟨_, hfound⟩ => nomatch hfound

theorem staleReasons_eq_nil_iff :
    request.staleReasons report candidate base = [] ↔
      (unreadable candidate = [] ∧ unreadable base = []) ∧
        request.Fresh report (readable candidate) (readable base) := by
  have hself : (if selfCompared report = true then
      ["branch diff compared a relation to itself; rerun against distinct candidate and base " ++
        "relations"] else []) = [] ↔ selfCompared report = false := by
    cases selfCompared report with
    | true => exact iff_of_false (List.cons_ne_nil _ _) (by decide)
    | false => exact iff_of_true rfl rfl
  simp only [staleReasons, bindingReasons, List.append_eq_nil_iff, List.flatMap_eq_nil_iff,
    unbound_eq_nil_iff, versionReasons_eq_nil_iff, uncovered_eq_nil_iff, hself]
  constructor
  · rintro ⟨⟨⟨⟨⟨⟨hbound, hread⟩, hread'⟩, hversions⟩, hcovered⟩, hcovered'⟩, hdistinct⟩
    exact ⟨⟨hread, hread'⟩, hbound.1, hbound.2,
      fun dataset hdataset => (hversions dataset hdataset).1,
      fun dataset hdataset => (hversions dataset hdataset).2, hcovered, hcovered', hdistinct⟩
  · rintro ⟨⟨hread, hread'⟩, h⟩
    exact ⟨⟨⟨⟨⟨⟨⟨h.candidateBound, h.baseBound⟩, hread⟩, hread'⟩, fun dataset hdataset =>
      ⟨h.candidateVersions dataset hdataset, h.baseVersions dataset hdataset⟩⟩,
      h.candidateCovered⟩, h.baseCovered⟩, h.distinct⟩

/-- Nothing is stale exactly when both sides could be read and the report is fresh. -/
theorem fresh_iff :
    request.staleReasons report candidate base = [] ↔
      ∃ candidateRecords baseRecords, candidate = .ok candidateRecords ∧
        base = .ok baseRecords ∧ request.Fresh report candidateRecords baseRecords := by
  rw [staleReasons_eq_nil_iff, unreadable_eq_nil_iff, unreadable_eq_nil_iff]
  constructor
  · rintro ⟨⟨⟨candidateRecords, rfl⟩, baseRecords, rfl⟩, h⟩
    exact ⟨candidateRecords, baseRecords, rfl, rfl, h⟩
  · rintro ⟨candidateRecords, baseRecords, rfl, rfl, h⟩
    exact ⟨⟨⟨candidateRecords, rfl⟩, baseRecords, rfl⟩, h⟩

/-! ## What an audit reads -/

section Running

variable [Rfc3339]
variable {ε : Type} {w w' : World}
variable {evidence : AuditEvidence}

omit [Rfc3339] in
theorem reads_scopeCalls (environment : String) :
    Program.Advances World.Reads (scopeCalls environment) := by
  refine World.reads_call.bind fun _ => ?_
  split
  · exact World.reads_call
  · exact Program.Advances.pure _

theorem reads_readRecords (environment : String) : Program.Advances World.Reads
    (readRecords environment : Program World ε (Except String EnvironmentRecords)) := by
  refine (reads_scopeCalls environment).attempt.bind fun models =>
    (reads_scopeCalls environment).attempt.bind fun seeds => Program.Advances.get.bind fun w => ?_
  cases models with
  | error _ => exact Program.Advances.pure _
  | ok _ =>
    cases seeds with
    | error _ => exact Program.Advances.pure _
    | ok _ => exact Program.Advances.pure _

theorem readRecords_eq_ok {environment : String} {records : EnvironmentRecords}
    (h : (readRecords environment : Program World ε _) w = (.ok (.ok records), w')) :
    records = recordsIn w.store environment := by
  obtain ⟨models, s, hmodels, h⟩ := Program.bind_eq_ok.1 h
  obtain ⟨seeds, s', hseeds, h⟩ := Program.bind_eq_ok.1 h
  have hstore : s'.store = w.store :=
    (((reads_scopeCalls environment).attempt.of_run hmodels).trans
      ((reads_scopeCalls environment).attempt.of_run hseeds)).store
  rw [← hstore]
  cases models with
  | error _ => cases h
  | ok _ =>
    cases seeds with
    | error _ => cases h
    | ok _ =>
      cases h
      rfl

theorem reads_importReport {file : Option BranchDiffReport} (hfile : w.files.branchDiff = file) :
    World.Reads w (importReport file w).2 := by
  cases file with
  | none => exact World.Reads.refl w
  | some report =>
    refine Program.Advances.bind_at (World.reads_draw w) fun drawn s hdraw => ?_
    refine World.reads_importEvidence (Or.inr ⟨report, drawn.1, ?_, rfl⟩)
    rw [(World.reads_draw.of_run hdraw).files]
    exact hfile

theorem reads_branchDiffEvidence (candidate target : String) :
    Program.Advances World.Reads
      (branchDiffEvidence candidate target : Program World ε BranchDiffLookup) := by
  intro w
  rcases hfile : (World.readFile ArtifactFiles.branchDiff : Program World ε _) w with
    ⟨error | file, s⟩
  · rw [branchDiffEvidence, Program.bind_of_error hfile]
    exact (World.reads_readFile _).of_run hfile
  have hread : World.Reads w s := (World.reads_readFile _).of_run hfile
  rw [branchDiffEvidence, Program.bind_of_ok hfile]
  refine hread.trans ?_
  refine Program.Advances.bind_at ((World.reads_evidenceFor _ _).attempt s) fun found t ht => ?_
  cases found with
  | error _ => exact World.Reads.refl t
  | ok records =>
    have hrecords : World.Reads s t := (World.reads_evidenceFor _ _).attempt.of_run ht
    have himport : World.Reads t (importReport file t).2 := by
      cases file with
      | none => exact World.Reads.refl t
      | some report =>
        refine reads_importReport ?_
        rw [hrecords.files, hread.files]
        exact World.readFile_eq_some hfile
    refine Program.Advances.bind_at himport fun imported t' _ => ?_
    cases imported with
    | error _ => exact World.Reads.refl t'
    | ok fileRecordId =>
      dsimp only
      cases chooseReport file fileRecordId records candidate target with
      | some chosen => exact World.Reads.refl t'
      | none =>
        refine Program.Advances.bind_at ((World.reads_latestEvidence _).attempt t')
          fun latest v _ => ?_
        cases latest with
        | error _ => exact World.Reads.refl v
        | ok latest => exact World.Reads.refl v

/-- A report that the audit finds and that covers the pair decides it. -/
theorem auditedDiff_of_found {s : World} {report : BranchDiffReport} {evidenceId : Option String}
    (hfound : (branchDiffEvidence request.candidate request.target :
      Program World ε BranchDiffLookup) w = (.ok (.found report evidenceId), s))
    (hcovered : request.covered report = true)
    (hrun : (request.auditedDiff true : Program World ε AuditEvidence) w = (.ok evidence, w')) :
    ∃ candidate base t, (readRecords request.candidate : Program World ε _) s = (.ok candidate, t) ∧
      (readRecords request.target : Program World ε _) t = (.ok base, w') ∧
      evidence = request.audit report evidenceId candidate base := by
  rw [auditedDiff, if_pos rfl, Program.bind_of_ok hfound] at hrun
  dsimp only at hrun
  rw [if_pos hcovered] at hrun
  obtain ⟨candidate, t, hcandidate, hrun⟩ := Program.bind_eq_ok.1 hrun
  obtain ⟨base, v, hbase, hrun⟩ := Program.bind_eq_ok.1 hrun
  cases hrun
  exact ⟨candidate, base, t, hcandidate, hbase, rfl⟩

/-- An audit that stands found a report of the pair, fresh against the store. -/
theorem fresh_of_schemaAudited {stateful : Bool}
    (hrun : (request.auditedDiff stateful : Program World ε AuditEvidence) w = (.ok evidence, w'))
    (haudited : evidence.schemaAudited = true) :
    ∃ report evidenceId s, (branchDiffEvidence request.candidate request.target :
        Program World ε BranchDiffLookup) w = (.ok (.found report evidenceId), s) ∧
      request.covered report = true ∧
      request.Fresh report (recordsIn w.store request.candidate)
        (recordsIn w.store request.target) := by
  cases stateful with
  | false =>
    cases hrun
    cases haudited
  | true =>
    have hkept := hrun
    rw [auditedDiff, if_pos rfl] at hrun
    obtain ⟨found, s, hfound, hrun⟩ := Program.bind_eq_ok.1 hrun
    have hstore : s.store = w.store :=
      ((reads_branchDiffEvidence _ _).of_run hfound).store
    cases found with
    | corrupt reason =>
      cases hrun
      cases haudited
    | missing =>
      obtain ⟨diff, t, _, hrun⟩ := Program.bind_eq_ok.1 hrun
      split at hrun
      · cases hrun
        cases haudited
      · cases hrun
        cases haudited
    | found report evidenceId =>
      dsimp only at hrun
      split at hrun
      · next hcovered =>
          obtain ⟨candidate, base, t, hcandidate, hbase, rfl⟩ :=
            auditedDiff_of_found hfound hcovered hkept
          have hnil : request.staleReasons report candidate base = [] := by
            simpa [audit] using haudited
          obtain ⟨candidateRecords, baseRecords, rfl, rfl, hfresh⟩ := fresh_iff.1 hnil
          have hcandidateStore := readRecords_eq_ok hcandidate
          have hbaseStore := readRecords_eq_ok hbase
          rw [((reads_readRecords _).of_run hcandidate).store, hstore] at hbaseStore
          rw [hstore] at hcandidateStore
          rw [← hcandidateStore, ← hbaseStore]
          exact ⟨report, evidenceId, s, hfound, hcovered, hfresh⟩
      · cases hrun
        cases haudited

end Running

end AuditRequest

end PhloTransform.Engine
