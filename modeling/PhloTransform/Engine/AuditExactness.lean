import PhloTransform.Engine.Audit
import PhloTransform.Library.Slots

/-!
# How exact the audit is

The audit of a branch-diff report should stand while the heads and the recorded
versions are those the report was made from, and fall with the first of them that
changes.  The report lists a name once, as a model or as a seed, while the audit
looks for every record under its own kind.

Main results:

- Theorem `finds_of_persisted`: a report that was persisted is the one the audit
  finds, unless a later one of the pair is stored.
- Theorem `auditsExactly_iff`: the audit is exact when no name stands for both a model
  and a seed.
-/

namespace PhloTransform.Engine

open Core (Compilation CompiledModel CompiledSeed)
open Library (Program Table)
open Nessie (References)

/-! ## Calls that do not fail -/

namespace World

variable {w : World}
variable {α ε : Type}

/-- Where no call to come fails, none comes to fail. -/
def StaysCalm (w w' : World) : Prop :=
  w.faults = [] → w'.faults = []

instance : Std.Refl StaysCalm :=
  ⟨fun _ h => h⟩

instance : IsTrans World StaysCalm :=
  ⟨fun _ _ _ h h' hcalm => h' (h hcalm)⟩

theorem call_of_calm (h : w.faults = []) : call w = (.ok (), w) := by
  rw [call, h]

theorem calm_call : Program.Advances StaysCalm call := by
  intro w h
  rwa [call_of_calm h]

theorem calm_readFile (file : ArtifactFiles → Option α) :
    Program.Advances StaysCalm (readFile file : Program World ε (Option α)) := by
  refine Program.Advances.bind calm_call.attempt fun r => ?_
  cases r with
  | error _ => exact Program.Advances.pure _
  | ok _ => exact Program.Advances.get.bind fun _ => Program.Advances.pure _

theorem calm_recordEvidence (record : EvidenceRecord) :
    Program.Advances StaysCalm (recordEvidence record) :=
  calm_call.bind fun _ _ h => h

variable [Rfc3339]

theorem calm_evidenceFor (kind : EvidenceKind) (subject : String) :
    Program.Advances StaysCalm (evidenceFor kind subject) :=
  calm_call.bind fun _ => Program.Advances.get.bind fun _ => Program.Advances.pure _

theorem calm_latestEvidence (kind : EvidenceKind) :
    Program.Advances StaysCalm (latestEvidence kind) :=
  calm_call.bind fun _ => Program.Advances.get.bind fun _ => Program.Advances.pure _

theorem evidenceFor_of_calm (kind : EvidenceKind) (subject : String) (h : w.faults = []) :
    evidenceFor kind subject w = (.ok (evidenceOf w.evidence kind subject), w) := by
  rw [evidenceFor, Program.bind_of_ok (call_of_calm h)]
  rfl

omit [Rfc3339] in
theorem readFile_of_calm (file : ArtifactFiles → Option α) (h : w.faults = []) :
    (readFile file : Program World ε (Option α)) w = (.ok (file w.files), w) := by
  have hattempt : (Program.attempt call : Program World ε (Except String Unit)) w =
      (.ok (.ok ()), w) := by
    rw [Program.attempt_run, call_of_calm h]
  rw [readFile, Program.bind_of_ok hattempt]
  rfl

theorem importEvidence_of_calm (record : EvidenceRecord) (h : w.faults = []) :
    ∃ standing w', importEvidence record w = (.ok standing, w') := by
  have hrows : Program.mapError ("cannot read the evidence store: " ++ ·)
      (evidenceFor record.kind record.subject) w =
      (.ok (evidenceOf w.evidence record.kind record.subject), w) :=
    Program.mapError_eq_ok.2 (evidenceFor_of_calm _ _ h)
  rw [importEvidence, Program.bind_of_ok hrows]
  generalize List.find? _ (evidenceOf w.evidence record.kind record.subject) = standing
  cases standing with
  | some existing => exact ⟨_, _, rfl⟩
  | none =>
    have hrecord : recordEvidence record w =
        (.ok (), { w with evidence := w.evidence ++ [record] }) := by
      rw [recordEvidence, Program.bind_of_ok (call_of_calm h)]
      rfl
    exact ⟨_, _, Program.bind_of_ok (Program.mapError_eq_ok.2 hrecord)⟩

theorem calm_importEvidence (record : EvidenceRecord) :
    Program.Advances StaysCalm (importEvidence record) := by
  refine (calm_evidenceFor _ _).mapError.bind fun rows => ?_
  generalize List.find? _ rows = standing
  cases standing with
  | some _ => exact Program.Advances.pure _
  | none => exact (calm_recordEvidence _).mapError.bind fun _ => Program.Advances.pure _

end World

section Calm

variable [Rfc3339]

theorem calm_importReport (file : Option BranchDiffReport) :
    Program.Advances World.StaysCalm (importReport file) := by
  cases file with
  | none => exact Program.Advances.pure _
  | some _ => exact Program.Advances.bind (fun _ h => h) fun _ => World.calm_importEvidence _

theorem calm_branchDiffEvidence {ε : Type} (candidate target : String) :
    Program.Advances World.StaysCalm
      (branchDiffEvidence candidate target : Program World ε BranchDiffLookup) := by
  refine (World.calm_readFile _).bind fun file =>
    (World.calm_evidenceFor _ _).attempt.bind fun found => ?_
  cases found with
  | error _ => exact Program.Advances.pure _
  | ok records =>
    refine (calm_importReport file).attempt.bind fun imported => ?_
    cases imported with
    | error _ => exact Program.Advances.pure _
    | ok fileRecordId =>
      dsimp only
      cases chooseReport file fileRecordId records candidate target with
      | some chosen => exact Program.Advances.pure chosen
      | none =>
        refine (World.calm_latestEvidence _).attempt.bind fun latest => ?_
        cases latest with
        | error _ => exact Program.Advances.pure _
        | ok _ => exact Program.Advances.pure _

omit [Rfc3339] in
theorem scopeCalls_of_calm (environment : String) {w : World} (h : w.faults = []) :
    scopeCalls environment w = (.ok (), w) := by
  rw [scopeCalls, Program.bind_of_ok (World.call_of_calm h)]
  split
  · exact World.call_of_calm h
  · rfl

theorem readRecords_of_calm {ε : Type} {environment : String} {w w' : World}
    {records : Except String EnvironmentRecords} (h : w.faults = [])
    (hrun : (readRecords environment : Program World ε _) w = (.ok records, w')) :
    records = .ok (recordsIn w.store environment) ∧ w' = w := by
  have hattempt : (Program.attempt (scopeCalls environment) :
      Program World ε (Except String Unit)) w = (.ok (.ok ()), w) := by
    rw [Program.attempt_run, scopeCalls_of_calm environment h]
  rw [readRecords, Program.bind_of_ok hattempt, Program.bind_of_ok hattempt] at hrun
  obtain ⟨hrecords, hw⟩ := Prod.mk.inj hrun
  exact ⟨(Except.ok.inj hrecords).symm, hw.symm⟩

end Calm

/-! ## Persisting a report -/

/-- `persist_branch_diff`: the export file, then the record. -/
def persistBranchDiff (stateful : Bool) (report : BranchDiffReport) :
    Program World EngineError Unit := do
  (World.writeFiles fun files => { files with branchDiff := some report }).mapError .artifact
  if stateful then do
    let (evidenceId, _) ← World.draw
    (World.recordEvidence (branchDiffRecord report evidenceId)).mapError .state
  else pure ()

theorem persistBranchDiff_eq_ok {report : BranchDiffReport} {w w' : World}
    (h : persistBranchDiff true report w = (.ok (), w')) :
    w'.store = w.store ∧ w'.files.branchDiff = some report ∧
      ∃ evidenceId, w'.evidence = w.evidence ++ [branchDiffRecord report evidenceId] := by
  obtain ⟨_, s, hwrite, h⟩ := Program.bind_eq_ok.1 h
  obtain ⟨_, s₀, hcall, hmodify⟩ := Program.bind_eq_ok.1 (Program.mapError_eq_ok.1 hwrite)
  have hkept : World.Reads w s₀ := World.reads_call.of_run hcall
  have hkeptEvidence : s₀.evidence = w.evidence := by
    unfold World.call at hcall
    split at hcall <;> cases hcall <;> rfl
  cases hmodify
  rw [if_pos rfl] at h
  obtain ⟨_, t, hdraw, h⟩ := Program.bind_eq_ok.1 h
  cases hdraw
  obtain ⟨_, t₀, hcall', hmodify⟩ := Program.bind_eq_ok.1 (Program.mapError_eq_ok.1 h)
  cases hmodify
  unfold World.call at hcall'
  split at hcall'
  · cases hcall'
    exact ⟨hkept.store, rfl, _, by rw [← hkeptEvidence]⟩
  · cases hcall'
    exact ⟨hkept.store, rfl, _, by rw [← hkeptEvidence]⟩
  · cases hcall'

section Finding

variable [Rfc3339]

/-- The record speaks of the report's pair of references. -/
def OfPair (report : BranchDiffReport) (record : EvidenceRecord) : Prop :=
  record.kind = .branchDiff ∧ record.subject = report.candidateRef ∧
    record.targetRef = report.baseRef

instance (report : BranchDiffReport) (record : EvidenceRecord) :
    Decidable (OfPair report record) :=
  inferInstanceAs (Decidable (_ ∧ _ ∧ _))

theorem pairRecord_evidenceOf {evidence : List EvidenceRecord}
    (h : ∀ record ∈ evidence, IsTimestamp record.createdAt) (report : BranchDiffReport) :
    pairRecord (evidenceOf evidence .branchDiff report.candidateRef) report.baseRef =
      (recent EvidenceRecord.createdAt (evidence.filter fun record =>
        decide (OfPair report record))).head? := by
  rw [pairRecord, ← List.head?_filter, evidenceOf, filter_recent _ fun record hrecord =>
    h record (List.mem_filter.1 hrecord).1, List.filter_filter]
  congr 2
  refine List.filter_congr fun record _ => ?_
  rw [← Bool.decide_and, decide_eq_decide, OfPair]
  tauto

/-- An audit of the pair finds the report in the world. -/
def Finds (report : BranchDiffReport) (w : World) : Prop :=
  ∃ evidenceId w', (branchDiffEvidence report.candidateRef report.baseRef :
    Program World EngineError BranchDiffLookup) w = (.ok (.found report evidenceId), w')

/-- A report that was persisted is found where the records of the pair before it are
older. -/
theorem finds_of_persisted {report : BranchDiffReport} {w w' : World}
    (hpersist : persistBranchDiff true report w = (.ok (), w'))
    (hstamps : ∀ record ∈ w.evidence, IsTimestamp record.createdAt)
    (hstamp : IsTimestamp report.finishedAt)
    (holder : ∀ record ∈ w.evidence, OfPair report record →
      instant record.createdAt < instant report.finishedAt)
    {later : World} (hevidence : later.evidence = w'.evidence) (hfiles : later.files = w'.files)
    (hcalm : later.faults = []) : Finds report later := by
  obtain ⟨-, hfile, recordId, happended⟩ := persistBranchDiff_eq_ok hpersist
  rw [← hevidence] at happended
  rw [← hfiles] at hfile
  have hall : ∀ record ∈ later.evidence, IsTimestamp record.createdAt := by
    intro record hrecord
    rw [happended, List.mem_append, List.mem_singleton] at hrecord
    rcases hrecord with hrecord | rfl
    · exact hstamps record hrecord
    · exact hstamp
  have hpair : pairRecord (evidenceOf later.evidence .branchDiff report.candidateRef)
      report.baseRef = some (branchDiffRecord report recordId) := by
    rw [pairRecord_evidenceOf hall]
    refine head?_recent_of_newest (fun record hrecord => hall record (List.mem_filter.1 hrecord).1)
      ?_ fun record hrecord => ?_
    · refine List.mem_filter.2 ⟨?_, decide_eq_true ⟨rfl, rfl, rfl⟩⟩
      rw [happended]
      exact List.mem_append_right _ (List.mem_singleton_self _)
    · obtain ⟨hmem, hof⟩ := List.mem_filter.1 hrecord
      rw [happended, List.mem_append, List.mem_singleton] at hmem
      rcases hmem with hmem | heq
      · exact Or.inr (holder record hmem (of_decide_eq_true hof))
      · exact Or.inl heq
  obtain ⟨standing, s, himport⟩ : ∃ standing s, importReport (some report) later =
      (.ok standing, s) := World.importEvidence_of_calm _ (w := { later with tick := _ }) hcalm
  have hrecords : (Program.attempt (World.evidenceFor .branchDiff report.candidateRef) :
      Program World EngineError _) later =
      (.ok (.ok (evidenceOf later.evidence .branchDiff report.candidateRef)), later) := by
    rw [Program.attempt_run, World.evidenceFor_of_calm _ _ hcalm]
  have hattempt : (Program.attempt (importReport (some report)) : Program World EngineError _)
      later = (.ok (.ok standing), s) := by
    rw [Program.attempt_run, himport]
  refine ⟨some recordId, s, ?_⟩
  rw [branchDiffEvidence, Program.bind_of_ok (World.readFile_of_calm _ hcalm), hfile,
    Program.bind_of_ok hrecords]
  dsimp only
  rw [Program.bind_of_ok hattempt]
  dsimp only
  have hfresher : fileFresher (some report) (some (branchDiffRecord report recordId))
      report.candidateRef report.baseRef = false := by
    simp [fileFresher, branchDiffRecord, cmpRfc3339_self]
  rw [chooseReport, hpair, hfresher, if_neg Bool.false_ne_true]
  rfl

end Finding

/-! ## One list of names for two kinds of records -/

namespace EnvironmentRecords

variable {names : List String} {kind : String → DatasetKind}
variable {records : EnvironmentRecords}

/-- The version listed for a name: its model's, else its seed's. -/
def listed (records : EnvironmentRecords) (name : String) : Option String :=
  (records.version .model name).or (records.version .seed name)

/-- Every version stands for a name that is listed as its kind. -/
def ListedAs (records : EnvironmentRecords) (names : List String) (kind : String → DatasetKind) :
    Prop :=
  ∀ k name, (records.version k name).isSome = true → name ∈ names ∧ kind name = k

theorem ListedAs.version_eq_none (h : records.ListedAs names kind) {k : DatasetKind} {name : String}
    (hkind : kind name ≠ k) : records.version k name = Option.none := by
  by_contra hsome
  exact hkind (h k name (Option.isSome_iff_ne_none.2 hsome)).2

theorem ListedAs.listed_eq (h : records.ListedAs names kind) (name : String) :
    records.listed name = records.version (kind name) name := by
  unfold listed
  cases hkind : kind name with
  | model =>
    rw [h.version_eq_none (k := .seed) (by rw [hkind]; decide), Option.or_none]
  | seed =>
    rw [h.version_eq_none (k := .model) (by rw [hkind]; decide), Option.none_or]

/-- Listing each name once notices every change, as long as what was listed is listed
as what it is. -/
theorem version_eq_iff {before after : EnvironmentRecords} (hbefore : before.ListedAs names kind) :
    ((∀ name ∈ names, after.version (kind name) name = before.listed name) ∧
      after.ListedAs names kind) ↔ after.version = before.version := by
  constructor
  · rintro ⟨hversions, hafter⟩
    funext k name
    by_cases hkind : kind name = k
    · subst hkind
      by_cases hname : name ∈ names
      · rw [hversions name hname, hbefore.listed_eq]
      · have hnone : ∀ records : EnvironmentRecords, records.ListedAs names kind →
            records.version (kind name) name = Option.none := by
          intro records hlisted
          by_contra hsome
          exact hname (hlisted _ name (Option.isSome_iff_ne_none.2 hsome)).1
        rw [hnone after hafter, hnone before hbefore]
    · rw [hafter.version_eq_none hkind, hbefore.version_eq_none hkind]
  · intro heq
    refine ⟨fun name _ => ?_, fun k name hsome => ?_⟩
    · rw [heq, hbefore.listed_eq]
    · rw [heq] at hsome
      exact hbefore k name hsome

end EnvironmentRecords

section Keys

variable [Rfc3339]

theorem mem_keys_recordsIn (store : Store) (environment : String) (k : DatasetKind)
    (name : String) : (name, k) ∈ (recordsIn store environment).keys ↔
      ((recordsIn store environment).version k name).isSome = true := by
  cases k with
  | model =>
    simp [EnvironmentRecords.keys, EnvironmentRecords.version, recordsIn, mem_materializedNames]
  | seed => simp [EnvironmentRecords.keys, EnvironmentRecords.version, recordsIn, mem_seedNames]

end Keys

/-! ## The audit of a report -/

section Exactness

variable [Rfc3339]
variable {candidateHash baseHash : String} {evidence : AuditEvidence}

/-- The audit of the report's pair at two heads. -/
def auditOf (report : BranchDiffReport) (candidateHash baseHash : String) : AuditRequest where
  candidate := report.candidateRef
  target := report.baseRef
  candidateHash := some candidateHash
  baseHash := some baseHash

/-- The heads and every recorded version are those the report was made from. -/
structure StillApplies (report : BranchDiffReport) (before after : Store)
    (candidateHash baseHash : String) : Prop where
  candidateHead : report.candidateHash = some candidateHash
  baseHead : report.baseHash = some baseHash
  candidateVersions : (recordsIn after report.candidateRef).version =
    (recordsIn before report.candidateRef).version
  baseVersions : (recordsIn after report.baseRef).version =
    (recordsIn before report.baseRef).version

/-- An audit that finds the report made from a store stands exactly while it applies;
it may also fall because a call failed or a relation was compared with itself. -/
structure AuditsExactly (store : Store) (report : BranchDiffReport) : Prop where
  kept : ∀ {candidateHash baseHash : String} {w w' : World} {evidence : AuditEvidence},
    Finds report w → w.faults = [] →
    ((auditOf report candidateHash baseHash).auditedDiff true : Program World EngineError _) w =
      (.ok evidence, w') →
    StillApplies report store w.store candidateHash baseHash →
    AuditRequest.selfCompared report = false → evidence.schemaAudited = true
  noticed : ∀ {candidateHash baseHash : String} {w w' : World} {evidence : AuditEvidence},
    Finds report w →
    ((auditOf report candidateHash baseHash).auditedDiff true : Program World EngineError _) w =
      (.ok evidence, w') →
    evidence.schemaAudited = true → StillApplies report store w.store candidateHash baseHash

omit [Rfc3339] in
theorem covered_auditOf (report : BranchDiffReport) (candidateHash baseHash : String) :
    (auditOf report candidateHash baseHash).covered report = true := by
  simp [AuditRequest.covered, auditOf]

theorem readRecords_returns (environment : String) (w : World) : ∃ records w',
    (readRecords environment : Program World EngineError _) w = (.ok records, w') := by
  rw [readRecords, Program.bind_of_ok (Program.attempt_run _ _),
    Program.bind_of_ok (Program.attempt_run _ _), Program.bind_of_ok (Program.get_run _)]
  cases (scopeCalls environment w).1 with
  | error _ => exact ⟨_, _, rfl⟩
  | ok _ =>
    cases (scopeCalls environment (scopeCalls environment w).2).1 with
    | error _ => exact ⟨_, _, rfl⟩
    | ok _ => exact ⟨_, _, rfl⟩

theorem auditedDiff_of_finds {report : BranchDiffReport} {w : World} (hfinds : Finds report w)
    (candidateHash baseHash : String) : ∃ evidence w',
      ((auditOf report candidateHash baseHash).auditedDiff true : Program World EngineError _) w =
        (.ok evidence, w') := by
  obtain ⟨evidenceId, s, hfound⟩ := hfinds
  have hrequested : (branchDiffEvidence (auditOf report candidateHash baseHash).candidate
      (auditOf report candidateHash baseHash).target :
      Program World EngineError BranchDiffLookup) w = (.ok (.found report evidenceId), s) := hfound
  obtain ⟨candidate, t, hcandidate⟩ :=
    readRecords_returns (auditOf report candidateHash baseHash).candidate s
  obtain ⟨base, t', hbase⟩ :=
    readRecords_returns (auditOf report candidateHash baseHash).target t
  refine ⟨(auditOf report candidateHash baseHash).audit report evidenceId candidate base, t', ?_⟩
  rw [AuditRequest.auditedDiff, if_pos rfl, Program.bind_of_ok hrequested]
  dsimp only
  rw [if_pos (covered_auditOf report candidateHash baseHash), Program.bind_of_ok hcandidate,
    Program.bind_of_ok hbase]
  rfl

/-- Without failures, the audit stands when the report it finds is fresh. -/
theorem schemaAudited_iff_of_calm {report : BranchDiffReport} {w w' : World}
    (hfinds : Finds report w) (hcalm : w.faults = [])
    (hrun : ((auditOf report candidateHash baseHash).auditedDiff true :
      Program World EngineError _) w = (.ok evidence, w')) :
    evidence.schemaAudited = true ↔ (auditOf report candidateHash baseHash).Fresh report
      (recordsIn w.store report.candidateRef) (recordsIn w.store report.baseRef) := by
  obtain ⟨evidenceId, s, hfound⟩ := hfinds
  have hstore : s.store = w.store :=
    ((AuditRequest.reads_branchDiffEvidence _ _).of_run hfound).store
  have hstill : s.faults = [] := (calm_branchDiffEvidence _ _).of_run hfound hcalm
  have hrequested : (branchDiffEvidence (auditOf report candidateHash baseHash).candidate
      (auditOf report candidateHash baseHash).target :
      Program World EngineError BranchDiffLookup) w = (.ok (.found report evidenceId), s) := hfound
  obtain ⟨candidate, base, t, hcandidate, hbase, hevidence⟩ :=
    AuditRequest.auditedDiff_of_found hrequested (covered_auditOf report candidateHash baseHash)
      hrun
  obtain ⟨hcandidateRecords, hsame⟩ := readRecords_of_calm hstill hcandidate
  rw [hsame] at hbase
  obtain ⟨hbaseRecords, -⟩ := readRecords_of_calm hstill hbase
  have haudited : evidence.schemaAudited = true ↔
      (auditOf report candidateHash baseHash).staleReasons report candidate base = [] := by
    rw [hevidence, AuditRequest.audit, List.isEmpty_iff]
  rw [haudited, AuditRequest.fresh_iff, hcandidateRecords, hbaseRecords, hstore]
  constructor
  · rintro ⟨candidate, base, hcandidate, hbase, hfresh⟩
    rw [← Except.ok.inj hcandidate, ← Except.ok.inj hbase] at hfresh
    exact hfresh
  · exact fun hfresh => ⟨_, _, rfl, rfl, hfresh⟩

theorem fresh_of_finds {report : BranchDiffReport} {w w' : World} (hfinds : Finds report w)
    (hrun : ((auditOf report candidateHash baseHash).auditedDiff true :
      Program World EngineError _) w = (.ok evidence, w'))
    (haudited : evidence.schemaAudited = true) :
    (auditOf report candidateHash baseHash).Fresh report (recordsIn w.store report.candidateRef)
      (recordsIn w.store report.baseRef) := by
  obtain ⟨evidenceId, s, hfound⟩ := hfinds
  obtain ⟨other, otherId, s', hother, -, hfresh⟩ :=
    AuditRequest.fresh_of_schemaAudited hrun haudited
  cases hfound.symm.trans hother
  exact hfresh

namespace BranchComparison

variable {b : BranchComparison} {store : Store} {report : BranchDiffReport}
  {startedAt finishedAt : String}
variable {candidateHash baseHash : String} {after : Store}

theorem branchDiff_eq_ok (h : b.branchDiff startedAt finishedAt = .ok report) :
    report.candidateRef = b.request.candidateRef ∧ report.baseRef = b.request.baseRef ∧
      report.candidateHash = b.request.candidateHash ∧ report.baseHash = b.request.baseHash ∧
      report.datasets = b.datasets := by
  rw [branchDiff] at h
  cases hrows : b.rows with
  | error _ =>
    rw [hrows] at h
    cases h
  | ok _ =>
    cases hdiffs : b.diffs with
    | error _ =>
      rw [hrows, hdiffs] at h
      cases h
    | ok _ =>
      rw [hrows, hdiffs] at h
      cases h
      exact ⟨rfl, rfl, rfl, rfl, rfl⟩

theorem covers_iff (hdatasets : report.datasets = b.datasets) {name : String} {k : DatasetKind} :
    AuditRequest.covers report (name, k) = true ↔ name ∈ b.names ∧ b.kind name = k := by
  rw [AuditRequest.covers, hdatasets, datasets, List.any_map, List.any_eq_true]
  constructor
  · rintro ⟨other, hother, hmatch⟩
    obtain ⟨rfl, hkind⟩ := of_decide_eq_true hmatch
    exact ⟨hother, hkind⟩
  · rintro ⟨hname, hkind⟩
    exact ⟨name, hname, decide_eq_true ⟨rfl, hkind⟩⟩

theorem covered_keys_iff (hdatasets : report.datasets = b.datasets) (after : Store)
    (environment : String) :
    (∀ key ∈ (recordsIn after environment).keys, AuditRequest.covers report key = true) ↔
      (recordsIn after environment).ListedAs b.names b.kind := by
  constructor
  · intro h k name hsome
    exact (covers_iff hdatasets).1
      (h (name, k) ((mem_keys_recordsIn after environment k name).2 hsome))
  · rintro h ⟨name, k⟩ hkey
    exact (covers_iff hdatasets).2
      (h k name ((mem_keys_recordsIn after environment k name).1 hkey))

theorem candidateVersion_eq (hstate : b.state = some store) (name : String) :
    b.candidateVersion name = (recordsIn store b.request.candidateRef).listed name := by
  simp only [candidateVersion, candidateRecords, candidateSeeds, hstate]
  rfl

theorem baseVersion_eq (hstate : b.state = some store) (name : String) :
    b.baseVersion name = (recordsIn store b.request.baseRef).listed name := by
  simp only [baseVersion, baseRecords, baseSeeds, hstate]
  rfl

/-- The names are unmixed when both environments' records are listed as what they are. -/
theorem unmixed_iff_listedAs (hstate : b.state = some store) :
    b.Unmixed ↔ (recordsIn store b.request.candidateRef).ListedAs b.names b.kind ∧
      (recordsIn store b.request.baseRef).ListedAs b.names b.kind := by
  have hmodel : ∀ name, b.HasModelRecord name ↔
      ((recordsIn store b.request.candidateRef).version .model name).isSome = true ∨
        ((recordsIn store b.request.baseRef).version .model name).isSome = true := by
    intro name
    simp [HasModelRecord, candidateRecords, baseRecords, hstate, EnvironmentRecords.version,
      recordsIn]
  have hseed : ∀ name, b.HasSeedRecord name ↔
      ((recordsIn store b.request.candidateRef).version .seed name).isSome = true ∨
        ((recordsIn store b.request.baseRef).version .seed name).isSome = true := by
    intro name
    simp [HasSeedRecord, candidateSeeds, baseSeeds, hstate, EnvironmentRecords.version, recordsIn]
  rw [unmixed_iff]
  constructor
  · intro h
    refine ⟨fun k name hsome => ?_, fun k name hsome => ?_⟩
    · cases k with
      | model =>
        have hrecord := (hmodel name).2 (Or.inl hsome)
        exact ⟨b.mem_names_of_record (Or.inl hrecord), (h name).1 hrecord⟩
      | seed =>
        have hrecord := (hseed name).2 (Or.inl hsome)
        exact ⟨b.mem_names_of_record (Or.inr hrecord), (h name).2 hrecord⟩
    · cases k with
      | model =>
        have hrecord := (hmodel name).2 (Or.inr hsome)
        exact ⟨b.mem_names_of_record (Or.inl hrecord), (h name).1 hrecord⟩
      | seed =>
        have hrecord := (hseed name).2 (Or.inr hsome)
        exact ⟨b.mem_names_of_record (Or.inr hrecord), (h name).2 hrecord⟩
  · rintro ⟨hcandidate, hbase⟩ name
    refine ⟨fun hrecord => ?_, fun hrecord => ?_⟩
    · rcases (hmodel name).1 hrecord with hsome | hsome
      · exact (hcandidate _ _ hsome).2
      · exact (hbase _ _ hsome).2
    · rcases (hseed name).1 hrecord with hsome | hsome
      · exact (hcandidate _ _ hsome).2
      · exact (hbase _ _ hsome).2

/-- The report is fresh against a store when the store's versions are the listed ones,
every record is listed, the heads are named and no relation met itself. -/
theorem fresh_iff_listed (hstate : b.state = some store)
    (hreport : b.branchDiff startedAt finishedAt = .ok report) :
    (auditOf report candidateHash baseHash).Fresh report (recordsIn after report.candidateRef)
        (recordsIn after report.baseRef) ↔
      (report.candidateHash = some candidateHash ∧ report.baseHash = some baseHash) ∧
      ((∀ name ∈ b.names, (recordsIn after report.candidateRef).version (b.kind name) name =
          (recordsIn store report.candidateRef).listed name) ∧
        (recordsIn after report.candidateRef).ListedAs b.names b.kind) ∧
      ((∀ name ∈ b.names, (recordsIn after report.baseRef).version (b.kind name) name =
          (recordsIn store report.baseRef).listed name) ∧
        (recordsIn after report.baseRef).ListedAs b.names b.kind) ∧
      AuditRequest.selfCompared report = false := by
  obtain ⟨hcandidateRef, hbaseRef, -, -, hdatasets⟩ := branchDiff_eq_ok hreport
  have hversions : ∀ (versionOf : DatasetKind → String → Option String)
      (listed : String → Option String) (recorded : DatasetDiff → Option String),
      (∀ name, recorded (b.datasetDiff name) = listed name) →
      ((∀ dataset ∈ report.datasets, versionOf dataset.kind dataset.dataset = recorded dataset) ↔
        ∀ name ∈ b.names, versionOf (b.kind name) name = listed name) := by
    intro versionOf listed recorded hlisted
    rw [hdatasets, datasets, List.forall_mem_map]
    refine forall₂_congr fun name _ => ?_
    rw [hlisted]
    rfl
  have hcandidate := hversions (recordsIn after report.candidateRef).version _
    DatasetDiff.candidateVersion fun name => candidateVersion_eq hstate name
  have hbase := hversions (recordsIn after report.baseRef).version _ DatasetDiff.baseVersion
    fun name => baseVersion_eq hstate name
  rw [← hcandidateRef] at hcandidate
  rw [← hbaseRef] at hbase
  rw [← hcandidate, ← hbase, ← covered_keys_iff hdatasets, ← covered_keys_iff hdatasets]
  constructor
  · intro h
    exact ⟨⟨h.candidateBound _ rfl, h.baseBound _ rfl⟩, ⟨h.candidateVersions, h.candidateCovered⟩,
      ⟨h.baseVersions, h.baseCovered⟩, h.distinct⟩
  · rintro ⟨⟨hhead, hhead'⟩, ⟨hversion, hcovered⟩, ⟨hversion', hcovered'⟩, hdistinct⟩
    exact
      { candidateBound := fun hash hhash => hhead.trans hhash
        baseBound := fun hash hhash => hhead'.trans hhash
        candidateVersions := hversion
        baseVersions := hversion'
        candidateCovered := hcovered
        baseCovered := hcovered'
        distinct := hdistinct }

/-- Among unmixed names, a report is fresh exactly while it applies. -/
theorem fresh_iff_stillApplies (hstate : b.state = some store)
    (hreport : b.branchDiff startedAt finishedAt = .ok report) (hunmixed : b.Unmixed) :
    (auditOf report candidateHash baseHash).Fresh report (recordsIn after report.candidateRef)
        (recordsIn after report.baseRef) ↔
      StillApplies report store after candidateHash baseHash ∧
        AuditRequest.selfCompared report = false := by
  obtain ⟨hcandidateRef, hbaseRef, -⟩ := branchDiff_eq_ok hreport
  obtain ⟨hcandidate, hbase⟩ := (unmixed_iff_listedAs hstate).1 hunmixed
  rw [← hcandidateRef] at hcandidate
  rw [← hbaseRef] at hbase
  rw [fresh_iff_listed hstate hreport, EnvironmentRecords.version_eq_iff hcandidate,
    EnvironmentRecords.version_eq_iff hbase]
  constructor
  · rintro ⟨⟨hhead, hhead'⟩, hversion, hversion', hdistinct⟩
    exact ⟨⟨hhead, hhead', hversion, hversion'⟩, hdistinct⟩
  · rintro ⟨happlies, hdistinct⟩
    exact ⟨⟨happlies.candidateHead, happlies.baseHead⟩, happlies.candidateVersions,
      happlies.baseVersions, hdistinct⟩

omit [Rfc3339] in
/-- A world in which the report is the only evidence. -/
def onlyEvidence (store : Store) (report : BranchDiffReport) : World where
  references := References.seed Table.empty report.baseRef ""
  store := store
  evidence := [branchDiffRecord report ""]
  files := { environments := Table.empty, branchDiff := none, diff := false }
  faults := []
  supply := { evidenceId := fun _ => "", now := fun _ => "" }
  tick := 0

theorem finds_onlyEvidence (store : Store) (report : BranchDiffReport) :
    Finds report (onlyEvidence store report) := by
  have hcalm : (onlyEvidence store report).faults = [] := rfl
  have hrows : evidenceOf (onlyEvidence store report).evidence .branchDiff report.candidateRef =
      [branchDiffRecord report ""] := by
    simp [evidenceOf, onlyEvidence, branchDiffRecord, recent, newestFirst]
  have hrecords : (Program.attempt (World.evidenceFor .branchDiff report.candidateRef) :
      Program World EngineError _) (onlyEvidence store report) =
      (.ok (.ok [branchDiffRecord report ""]), onlyEvidence store report) := by
    rw [Program.attempt_run, World.evidenceFor_of_calm _ _ hcalm, hrows]
  have hpair : pairRecord [branchDiffRecord report ""] report.baseRef =
      some (branchDiffRecord report "") := by
    simp [pairRecord, branchDiffRecord]
  have hfile : (onlyEvidence store report).files.branchDiff = none := rfl
  have himport : (Program.attempt (importReport none) : Program World EngineError _)
      (onlyEvidence store report) = (.ok (.ok none), onlyEvidence store report) := rfl
  have hchosen : chooseReport none none [branchDiffRecord report ""] report.candidateRef
      report.baseRef = some (.found report (some "")) := by
    rw [chooseReport, hpair]
    rfl
  refine ⟨some "", onlyEvidence store report, ?_⟩
  rw [branchDiffEvidence, Program.bind_of_ok (World.readFile_of_calm _ hcalm),
    Program.bind_of_ok hrecords, hfile]
  dsimp only
  rw [Program.bind_of_ok himport]
  dsimp only
  rw [hchosen]
  rfl

/-- The audit is exact unless a name stands for both a model and a seed; a report that
compared a relation with itself is never accepted. -/
theorem auditsExactly_iff (hstate : b.state = some store)
    (hreport : b.branchDiff startedAt finishedAt = .ok report) {candidateHash baseHash : String}
    (hcandidateHash : b.request.candidateHash = some candidateHash)
    (hbaseHash : b.request.baseHash = some baseHash) :
    AuditsExactly store report ↔ AuditRequest.selfCompared report = true ∨ b.Unmixed := by
  obtain ⟨hcandidateRef, hbaseRef, hcandidateHead, hbaseHead, -⟩ := branchDiff_eq_ok hreport
  constructor
  · intro h
    by_cases hself : AuditRequest.selfCompared report = true
    · exact Or.inl hself
    rw [Bool.not_eq_true] at hself
    have hfinds := finds_onlyEvidence store report
    obtain ⟨evidence, w', hrun⟩ := auditedDiff_of_finds hfinds candidateHash baseHash
    have happlies : StillApplies report store store candidateHash baseHash :=
      ⟨hcandidateHead.trans hcandidateHash, hbaseHead.trans hbaseHash, rfl, rfl⟩
    have hfresh := (schemaAudited_iff_of_calm hfinds rfl hrun).1
      (h.kept hfinds rfl hrun happlies hself)
    obtain ⟨-, ⟨-, hcandidate⟩, ⟨-, hbase⟩, -⟩ := (fresh_iff_listed hstate hreport).1 hfresh
    rw [hcandidateRef] at hcandidate
    rw [hbaseRef] at hbase
    exact Or.inr ((unmixed_iff_listedAs hstate).2 ⟨hcandidate, hbase⟩)
  · rintro (hself | hunmixed)
    · exact
        { kept := fun _ _ _ _ hdistinct => absurd hself (by simp [hdistinct])
          noticed := fun hfinds hrun haudited =>
            absurd hself (by simp [(fresh_of_finds hfinds hrun haudited).distinct]) }
    · exact
        { kept := fun hfinds hcalm hrun happlies hdistinct =>
            (schemaAudited_iff_of_calm hfinds hcalm hrun).2
              ((fresh_iff_stillApplies hstate hreport hunmixed).2 ⟨happlies, hdistinct⟩)
          noticed := fun hfinds hrun haudited =>
            ((fresh_iff_stillApplies hstate hreport hunmixed).1
              (fresh_of_finds hfinds hrun haudited)).1 }

end BranchComparison

end Exactness

/-! ## A seed that became a model -/

namespace Sample

def candidateBuilt : Store :=
  { Store.empty with
    modelVersions := Table.empty.put
      { modelId := "assay.raw", environment := some "ci/pr-1"
        version := Core.Sample.rawModel.version
        target := "main.raw", incrementalStrategy := none, incrementalKey := none
        adapter := none, outputIdentity := none, runId := "run-1"
        materializedAt := "2026-01-01T00:00:00.000000000Z" } }

def seedBefore : Store :=
  { candidateBuilt with
    seedLoads := Table.empty.put
      { name := "assay.raw", environment := none, contentHash := "c0ffee"
        target := "main.raw", runId := "run-0"
        loadedAt := "2026-01-01T00:00:00.000000000Z" } }

def comparison (store : Store) : BranchComparison where
  view :=
    { relationExists := fun _ => true
      sourceState := fun _ => none
      schemaChanges := fun _ _ _ => []
      rowCount := fun _ => .ok 1
      isCompared := fun _ => false
      diff := fun _ => .error .adapter }
  state := some store
  compilation := Core.Sample.chain
  request :=
    { candidateRef := "ci/pr-1", baseRef := "main", candidateCatalog := none, baseCatalog := none
      deep := true, defaultSchema := none, candidateHash := some "bbb", baseHash := some "aaa" }

def compared (name : String) (table : String) (candidateVersion baseVersion : Option String)
    (status : DatasetStatus) (upstream : List String) : DatasetDiff where
  dataset := name
  kind := .model
  status := status
  candidateVersion := candidateVersion
  baseVersion := baseVersion
  candidateRelation := some table
  baseRelation := some table
  upstream := upstream

def comparisonReport (baseVersion : Option String) : BranchDiffReport where
  candidateRef := "ci/pr-1"
  baseRef := "main"
  candidateHash := some "bbb"
  baseHash := some "aaa"
  datasets :=
    [compared "assay.mart" "main.mart" none none .unchanged ["assay.raw"],
      compared "assay.raw" "main.raw" (some "raw") baseVersion .changed []]
  schemaChanges := []
  rows := [⟨"assay.mart", some 1, some 1, some 0⟩, ⟨"assay.raw", some 1, some 1, some 0⟩]
  diffs := []
  deep := true
  passed := true
  startedAt := "2026-01-01T00:00:00.000000000Z"
  finishedAt := "2026-01-02T00:00:00.000000000Z"

def seedBeforeWorld : World where
  references := References.seed Table.empty "main" "aaa"
  store := seedBefore
  evidence := []
  files := { environments := Table.empty, branchDiff := none, diff := false }
  faults := []
  supply := { evidenceId := fun n => "evidence-" ++ toString n, now := fun _ => "" }
  tick := 0

end Sample

/-- The report of a seed that became a model is refused although nothing changed. -/
theorem unchanged_report_refused :
    ∃ report w evidence w',
      @BranchComparison.branchDiff januaryClock (Sample.comparison Sample.seedBefore)
        "2026-01-01T00:00:00.000000000Z" "2026-01-02T00:00:00.000000000Z" = .ok report ∧
      persistBranchDiff true report Sample.seedBeforeWorld = (.ok (), w) ∧
      (@AuditRequest.auditedDiff (auditOf report "bbb" "aaa") januaryClock EngineError true) w =
        (.ok evidence, w') ∧
      w.store = Sample.seedBefore ∧ AuditRequest.selfCompared report = false ∧
      evidence.schemaAudited = false ∧ ¬ @AuditsExactly januaryClock Sample.seedBefore report := by
  let _ := januaryClock
  have hreport : ((Sample.comparison Sample.seedBefore).branchDiff
      "2026-01-01T00:00:00.000000000Z" "2026-01-02T00:00:00.000000000Z").toOption =
      some (Sample.comparisonReport (some "c0ffee")) := by
    decide +kernel
  obtain ⟨w, hpersist⟩ : ∃ w, persistBranchDiff true (Sample.comparisonReport (some "c0ffee"))
      Sample.seedBeforeWorld = (.ok (), w) := ⟨_, rfl⟩
  have hstore : w.store = Sample.seedBefore := (persistBranchDiff_eq_ok hpersist).1
  have hcalm : w.faults = [] := by
    cases hpersist
    rfl
  have hfinds : Finds (Sample.comparisonReport (some "c0ffee")) w :=
    finds_of_persisted hpersist (fun _ h => nomatch h) ⟨1767312000000000000, by decide⟩
      (fun _ h => nomatch h) rfl rfl hcalm
  obtain ⟨evidence, w', hrun⟩ := auditedDiff_of_finds hfinds "bbb" "aaa"
  have hrefused : evidence.schemaAudited = false := by
    have haudit : (@AuditRequest.auditedDiff (auditOf (Sample.comparisonReport (some "c0ffee"))
        "bbb" "aaa") januaryClock EngineError true (persistBranchDiff true
          (Sample.comparisonReport (some "c0ffee")) Sample.seedBeforeWorld).2).1.toOption.map
          AuditEvidence.schemaAudited = some false := by
      decide +kernel
    rw [hpersist, hrun] at haudit
    exact Option.some.inj haudit
  refine ⟨_, w, evidence, w', Library.eq_ok_of_toOption hreport, hpersist, hrun, hstore, rfl,
    hrefused, fun hexact => ?_⟩
  have haudited := hexact.kept hfinds hcalm hrun (hstore ▸ ⟨rfl, rfl, rfl, rfl⟩) rfl
  rw [hrefused] at haudited
  cases haudited

/-- Without the seed, the audit of the candidate's build is exact. -/
theorem auditsExactly_candidateBuilt :
    @BranchComparison.branchDiff januaryClock (Sample.comparison Sample.candidateBuilt)
        "2026-01-01T00:00:00.000000000Z" "2026-01-02T00:00:00.000000000Z" =
      .ok (Sample.comparisonReport none) ∧
    @AuditsExactly januaryClock Sample.candidateBuilt (Sample.comparisonReport none) := by
  let _ := januaryClock
  have hreport : (Sample.comparison Sample.candidateBuilt).branchDiff
      "2026-01-01T00:00:00.000000000Z" "2026-01-02T00:00:00.000000000Z" =
      .ok (Sample.comparisonReport none) :=
    Library.eq_ok_of_toOption (by decide +kernel)
  have hunmixed : (Sample.comparison Sample.candidateBuilt).Unmixed := by
    have hnoSeed : ∀ name, ¬ (Sample.comparison Sample.candidateBuilt).HasSeedRecord name := by
      intro name hrecord
      rcases hrecord with hsome | hsome
      · exact nomatch (mem_seedNames Sample.candidateBuilt "ci/pr-1" name).2 hsome
      · exact nomatch (mem_seedNames Sample.candidateBuilt "main" name).2 hsome
    exact fun name => ⟨fun h => hnoSeed name h.2, fun h => hnoSeed name h.1,
      fun h => nomatch (h.2.1 : false = true)⟩
  exact ⟨hreport, (BranchComparison.auditsExactly_iff rfl hreport rfl rfl).2 (Or.inr hunmixed)⟩

end PhloTransform.Engine
