import PhloTransform.Engine.AuditExactness
import PhloTransform.Engine.EvidenceChoice

/-!
# Audits that are repeated

An audit reads the evidence of a promotion and imports artifact files as it goes.  Repeating it
should find the same evidence and import nothing again.

Main results:

- Theorem `settles_iff`: when the second of two audits finds what the first one found.
-/

namespace PhloTransform.Engine

open Library (Program Table)
open Nessie (References)

/-! ## Runs of which every call answers -/

namespace World

variable {w : World}

section Store

variable [Rfc3339]

theorem latestEvidence_run (kind : EvidenceKind) (h : w.faults = []) :
    latestEvidence kind w = (.ok (latestOf w.evidence kind), w) := by
  rw [latestEvidence, Program.bind_of_ok (call_of_calm h)]
  rfl

omit [Rfc3339] in
theorem recordEvidence_run (record : EvidenceRecord) (h : w.faults = []) :
    recordEvidence record w = (.ok (), { w with evidence := w.evidence ++ [record] }) := by
  rw [recordEvidence, Program.bind_of_ok (call_of_calm h)]
  rfl

/-- An import names the record that stands for the artifact. -/
theorem importEvidence_run (record : EvidenceRecord) (h : w.faults = []) :
    importEvidence record w =
      (.ok (some ((standingRecord w.evidence record).getD record).evidenceId),
        { w with evidence := imported w.evidence record }) := by
  have hread : (evidenceFor record.kind record.subject).mapError
      ("cannot read the evidence store: " ++ ·) w =
        (.ok (evidenceOf w.evidence record.kind record.subject), w) :=
    Program.mapError_eq_ok.2 (evidenceFor_of_calm _ _ h)
  rw [importEvidence, Program.bind_of_ok hread]
  cases hstanding : standingRecord w.evidence record with
  | some existing =>
    rw [imported_of_some hstanding]
    rw [standingRecord] at hstanding
    simp only [hstanding]
    rfl
  | none =>
    rw [imported_of_none hstanding]
    rw [standingRecord] at hstanding
    simp only [hstanding]
    exact Program.bind_of_ok (Program.mapError_eq_ok.2 (recordEvidence_run record h))

end Store

/-- The world after an artifact was imported. -/
def afterImport [Rfc3339] (w : World) (record : EvidenceRecord) : World :=
  { w with evidence := imported w.evidence record, tick := w.tick + 1 }

end World

/-! ## Settling -/

/-- Read twice, the same is found again, and one record is imported at most. -/
structure Settles {ε α β : Type} (content : α → β) (p : Program World ε α) (w : World) : Prop where
  found : (p (p w).2).1.map content = (p w).1.map content
  imports : (p (p w).2).2.evidence.length ≤ w.evidence.length + 1

theorem Settles.of_unchanged {ε α β : Type} {content : α → β} {p : Program World ε α} {w : World}
    (h : (p w).2 = w) : Settles content p w := by
  constructor
  · rw [h]
  · rw [h, h]
    omega

/-- A reader that imports one artifact settles when both readings find the same. -/
theorem settles_iff_of_import [Rfc3339] {ε α β : Type} {content : α → β} {p : Program World ε α}
    {w : World} {a b : α} {record again : EvidenceRecord}
    (hfirst : p w = (.ok a, w.afterImport record))
    (hsecond : p (w.afterImport record) = (.ok b, (w.afterImport record).afterImport again))
    (hkind : again.kind = record.kind) (hsubject : again.subject = record.subject)
    (htarget : again.targetRef = record.targetRef) (hpayload : again.payload = record.payload) :
    Settles content p w ↔ content b = content a := by
  constructor
  · intro h
    have hfound := h.found
    rw [hfirst, hsecond] at hfound
    exact Except.ok.inj hfound
  · intro h
    constructor
    · rw [hfirst, hsecond]
      exact congrArg Except.ok h
    · rw [hfirst, hsecond]
      exact length_imported_imported hkind hsubject htarget hpayload

/-! ## The branch diff -/

/-- What was found, without the id of its record. -/
def BranchDiffLookup.withoutId : BranchDiffLookup → BranchDiffLookup
  | .found report _ => .found report none
  | other => other

def reportOf : EvidencePayload → BranchDiffLookup
  | .branchDiff report => .found report none
  | _ => .corrupt "undecodable branch-diff evidence"

/-- The file outranks the record of the pair. -/
def diffWins [Rfc3339] (report : BranchDiffReport) (candidate target : String)
    (pair : Option EvidenceRecord) : Bool :=
  fileFresher (some report) pair candidate target

def AuditEvidence.withoutId (evidence : AuditEvidence) : AuditEvidence :=
  { evidence with diffEvidenceId := Option.none }

section BranchDiff

variable [Rfc3339] {w : World} {report : BranchDiffReport} {candidate target : String}
variable {ε : Type}

omit [Rfc3339] in
theorem withoutId_decodeReport (record : EvidenceRecord) :
    (decodeReport record).withoutId = reportOf record.payload := by
  unfold decodeReport reportOf
  cases record.payload <;> rfl

/-- The import of the file's report displaces what the reader had chosen. -/
def DiffDisplaced (w : World) (candidate target : String) : Prop :=
  ∃ report, w.files.branchDiff = some report ∧
    Displaces reportOf (diffWins report candidate target) w.evidence
      (branchDiffRecord report (w.supply.evidenceId w.tick)) candidate target

theorem winsWhenNewer_diffWins (evidenceId : String) :
    WinsWhenNewer (diffWins report candidate target) (branchDiffRecord report evidenceId)
      candidate target where
  names pair h := by
    cases pair with
    | none => simpa [diffWins, fileFresher, branchDiffRecord] using h
    | some pair =>
      simp only [diffWins, fileFresher, Bool.and_eq_true, decide_eq_true_eq] at h
      exact h.1
  alone hsubject htarget := by
    simpa [diffWins, fileFresher, branchDiffRecord] using And.intro hsubject htarget
  newer pair h := by
    simp only [diffWins, fileFresher, Bool.and_eq_true, decide_eq_true_eq] at h
    exact h.2

/-- With a report in the file, a report is always chosen. -/
theorem chooseReport_of_report (report : BranchDiffReport) (candidate target : String)
    (fileRecordId : Option String) (records : List EvidenceRecord) :
    ∃ found, chooseReport (some report) fileRecordId records candidate target = some found ∧
      found.withoutId = chosen reportOf (diffWins report candidate target) (.branchDiff report)
        records target := by
  unfold chooseReport chosen
  rw [diffWins]
  cases fileFresher (some report) (pairRecord records target) candidate target with
  | true => exact ⟨_, rfl, rfl⟩
  | false =>
    cases (pairRecord records target).or records.head? with
    | some record => exact ⟨_, rfl, withoutId_decodeReport record⟩
    | none => exact ⟨_, rfl, rfl⟩

theorem branchDiffEvidence_of_report (candidate target : String) (h : w.faults = [])
    (hfile : w.files.branchDiff = some report) :
    ∃ found, (branchDiffEvidence candidate target : Program World ε BranchDiffLookup) w =
        (.ok found, w.afterImport (branchDiffRecord report (w.supply.evidenceId w.tick))) ∧
      found.withoutId = chosen reportOf (diffWins report candidate target) (.branchDiff report)
        (evidenceOf w.evidence .branchDiff candidate) target := by
  let record := branchDiffRecord report (w.supply.evidenceId w.tick)
  have himport : importReport (some report) w =
      (.ok (some ((standingRecord w.evidence record).getD record).evidenceId),
        w.afterImport record) :=
    World.importEvidence_run (w := { w with tick := w.tick + 1 }) record h
  obtain ⟨found, hchoice, hcontent⟩ := chooseReport_of_report report candidate target
    (some ((standingRecord w.evidence record).getD record).evidenceId)
    (evidenceOf w.evidence .branchDiff candidate)
  refine ⟨found, ?_, hcontent⟩
  rw [branchDiffEvidence, Program.bind_of_ok (World.readFile_of_calm _ h), hfile, Program.bind_run,
    Program.attempt_run, World.evidenceFor_of_calm _ _ h]
  dsimp only
  rw [Program.bind_run, Program.attempt_run, himport]
  dsimp only
  rw [hchoice]
  rfl

theorem branchDiffEvidence_of_none (candidate target : String) (h : w.faults = [])
    (hfile : w.files.branchDiff = none) :
    ∃ found, (branchDiffEvidence candidate target : Program World ε BranchDiffLookup) w =
      (.ok found, w) := by
  rw [branchDiffEvidence, Program.bind_of_ok (World.readFile_of_calm _ h), hfile, Program.bind_run,
    Program.attempt_run, World.evidenceFor_of_calm _ _ h]
  dsimp only
  rw [Program.bind_run, Program.attempt_run]
  have himport : importReport none w = (.ok none, w) := rfl
  rw [himport]
  dsimp only
  cases hchosen : chooseReport none none (evidenceOf w.evidence .branchDiff candidate) candidate
      target with
  | some found => exact ⟨found, rfl⟩
  | none =>
    dsimp only
    rw [Program.bind_run, Program.attempt_run, World.latestEvidence_run _ h]
    exact ⟨_, rfl⟩

/-- The reader of the branch diff settles unless the file displaces what it had chosen. -/
theorem settles_branchDiffEvidence_iff (h : w.faults = [])
    (hdated : Dated w.evidence .branchDiff candidate)
    (hfile : ∀ report, w.files.branchDiff = some report → IsTimestamp report.finishedAt) :
    Settles BranchDiffLookup.withoutId
        (branchDiffEvidence candidate target : Program World ε BranchDiffLookup) w ↔
      ¬DiffDisplaced w candidate target := by
  cases hreport : w.files.branchDiff with
  | none =>
    obtain ⟨found, hrun⟩ := branchDiffEvidence_of_none (ε := ε) candidate target h hreport
    refine iff_of_true (Settles.of_unchanged (by rw [hrun])) ?_
    rintro ⟨report, hsome, -⟩
    rw [hreport] at hsome
    cases hsome
  | some report =>
    obtain ⟨found, hrun, hfound⟩ := branchDiffEvidence_of_report (ε := ε) candidate target h
      hreport
    obtain ⟨again, hrun', hagain⟩ := branchDiffEvidence_of_report (ε := ε) candidate target
      (w := w.afterImport (branchDiffRecord report (w.supply.evidenceId w.tick))) h hreport
    rw [settles_iff_of_import hrun hrun' rfl rfl rfl rfl, hfound, hagain]
    refine (chosen_imported_iff (winsWhenNewer_diffWins _) hdated (hfile report hreport)).trans
      (not_congr ⟨fun hdisplaced => ⟨report, hreport, hdisplaced⟩, ?_⟩)
    rintro ⟨report', hreport', hdisplaced⟩
    rw [hreport] at hreport'
    cases hreport'
    exact hdisplaced

/-! ## The verdict of the branch diff -/

theorem readRecords_run (environment : String) (h : w.faults = []) :
    (readRecords environment : Program World ε (Except String EnvironmentRecords)) w =
      (.ok (.ok (recordsIn w.store environment)), w) := by
  rw [readRecords, Program.bind_run, Program.attempt_run, scopeCalls_of_calm environment h]
  dsimp only
  rw [Program.bind_run, Program.attempt_run, scopeCalls_of_calm environment h]
  rfl

namespace AuditRequest

variable (request : AuditRequest)

/-- The verdict on what was found, against a store and the files that answer. -/
def verdict (store : Store) (files : ArtifactFiles) : BranchDiffLookup → AuditEvidence
  | .corrupt reason => .rejected (reason ++ "; " ++ request.rerun) none
  | .found report evidenceId =>
    if request.covered report then
      request.audit report evidenceId (.ok (recordsIn store request.candidate))
        (.ok (recordsIn store request.target))
    else
      .rejected ("branch diff covers `" ++ report.candidateRef ++ "` -> `" ++
        report.baseRef ++ "`, not `" ++ request.candidate ++ "` -> `" ++ request.target ++
        "`; " ++ request.rerun) evidenceId
  | .missing =>
    if files.diff then
      .rejected ("a single-model diff cannot audit a branch; run `diff --from " ++
        request.candidate ++ " --to " ++ request.target ++ " --full`") none
    else .none

theorem verdict_withoutId {store : Store} {files : ArtifactFiles} {found again : BranchDiffLookup}
    (h : found.withoutId = again.withoutId) :
    (request.verdict store files found).withoutId =
      (request.verdict store files again).withoutId := by
  have hid : ∀ lookup : BranchDiffLookup, (request.verdict store files lookup.withoutId).withoutId =
      (request.verdict store files lookup).withoutId := by
    intro lookup
    cases lookup with
    | missing => rfl
    | corrupt reason => rfl
    | found report evidenceId =>
      simp only [BranchDiffLookup.withoutId, verdict]
      split <;> rfl
  rw [← hid found, h, hid again]

theorem auditedDiff_run {ε : Type} {w w' : World} {found : BranchDiffLookup} (h : w'.faults = [])
    (hfound : (branchDiffEvidence request.candidate request.target :
      Program World ε BranchDiffLookup) w = (.ok found, w')) :
    (request.auditedDiff true : Program World ε AuditEvidence) w =
      (.ok (request.verdict w'.store w'.files found), w') := by
  rw [auditedDiff, if_pos rfl, Program.bind_of_ok hfound]
  cases found with
  | corrupt reason => rfl
  | missing =>
    dsimp only
    rw [Program.bind_of_ok (World.readFile_of_calm _ h)]
    unfold verdict
    cases w'.files.diff <;> rfl
  | found report evidenceId =>
    dsimp only [verdict]
    split
    · rw [Program.bind_of_ok (readRecords_run _ h), Program.bind_of_ok (readRecords_run _ h)]
      rfl
    · rfl

/-- An audit settles where the reader of its evidence does. -/
theorem settles_auditedDiff {ε : Type} {w : World} (h : w.faults = [])
    (hsettles : Settles BranchDiffLookup.withoutId
      (branchDiffEvidence request.candidate request.target : Program World ε BranchDiffLookup) w) :
    Settles AuditEvidence.withoutId
      (request.auditedDiff true : Program World ε AuditEvidence) w := by
  cases hreport : w.files.branchDiff with
  | none =>
    obtain ⟨found, hrun⟩ := branchDiffEvidence_of_none (ε := ε) request.candidate request.target h
      hreport
    exact Settles.of_unchanged (by rw [request.auditedDiff_run h hrun])
  | some report =>
    obtain ⟨found, hrun, -⟩ := branchDiffEvidence_of_report (ε := ε) request.candidate
      request.target h hreport
    obtain ⟨again, hrun', -⟩ := branchDiffEvidence_of_report (ε := ε) request.candidate
      request.target
      (w := w.afterImport (branchDiffRecord report (w.supply.evidenceId w.tick))) h hreport
    have hsame := (settles_iff_of_import hrun hrun' rfl rfl rfl rfl).1 hsettles
    exact (settles_iff_of_import (request.auditedDiff_run h hrun)
      (request.auditedDiff_run h hrun') rfl rfl rfl rfl).2 (request.verdict_withoutId hsame)

end AuditRequest

end BranchDiff

/-! ## The lineage diff -/

def LineageCodec.artifactOf (codec : LineageCodec) :
    EvidencePayload → Except String LineageDiffArtifact
  | .other text =>
    match codec.fromValue text with
    | some artifact => .ok artifact
    | none => .error "undecodable lineage evidence"
  | _ => .error "undecodable lineage evidence"

/-- The file outranks the record of the pair. -/
def lineageWins [Rfc3339] (artifact : LineageDiffArtifact) (candidate target : String)
    (pair : Option EvidenceRecord) : Bool :=
  fileNewer (some (.ok artifact)) pair candidate target

section Lineage

variable [Rfc3339] {codec : LineageCodec} {file : Option (Except String LineageDiffArtifact)}
  {w : World} {artifact : LineageDiffArtifact} {candidate target : String}
variable {ε : Type}

omit [Rfc3339] in
theorem content_decodeLineage (record : EvidenceRecord) :
    LineageRequest.content (decodeLineage codec record) = codec.artifactOf record.payload := by
  unfold decodeLineage LineageCodec.artifactOf
  cases record.payload with
  | environment setup => rfl
  | branchDiff report => rfl
  | other text =>
    dsimp only
    cases codec.fromValue text <;> rfl

/-- The import of the file's diff displaces what the reader had chosen. -/
def LineageDisplaced (codec : LineageCodec) (file : Option (Except String LineageDiffArtifact))
    (w : World) (candidate target : String) : Prop :=
  ∃ artifact, file = some (.ok artifact) ∧ (lineageDiffSubject artifact).isSome = true ∧
    Displaces codec.artifactOf (lineageWins artifact candidate target) w.evidence
      (lineageDiffRecord codec artifact (w.supply.evidenceId w.tick) (w.supply.now w.tick))
      candidate target

theorem winsWhenNewer_lineageWins {evidenceId now : String}
    (hsubject : (lineageDiffSubject artifact).isSome = true) :
    WinsWhenNewer (lineageWins artifact candidate target)
      (lineageDiffRecord codec artifact evidenceId now) candidate target where
  names pair h := by
    cases pair with
    | none =>
      simp only [lineageWins, fileNewer, decide_eq_true_eq] at h
      simp [lineageDiffRecord, h.1, h.2]
    | some pair =>
      simp only [lineageWins, fileNewer, Bool.and_eq_true, decide_eq_true_eq] at h
      simp [lineageDiffRecord, h.1.1, h.1.2]
  alone hnamed htarget := by
    obtain ⟨subject, hsome⟩ := Option.isSome_iff_exists.1 hsubject
    have hcandidate : subject = candidate := by
      simpa [lineageDiffRecord, hsome] using hnamed
    have hpair : lineageDiffTarget artifact = target := htarget
    simp [lineageWins, fileNewer, hsome, hcandidate, hpair]
  newer pair h := by
    simp only [lineageWins, fileNewer, Bool.and_eq_true] at h
    cases hcreated : artifact.createdAt with
    | none => simp [hcreated] at h
    | some createdAt =>
      rw [hcreated] at h
      simpa [lineageDiffRecord, hcreated] using h.2

/-- The codec reads the file's diff back as it was. -/
def LineageCodec.Keeps (codec : LineageCodec)
    (file : Option (Except String LineageDiffArtifact)) : Prop :=
  ∀ artifact, file = some (.ok artifact) → codec.fromValue (codec.toValue artifact) = some artifact

theorem chooseLineage_of_artifact (candidate target : String)
    (hkeeps : codec.Keeps (some (.ok artifact)))
    (fileRecordId : Option String) (records : List EvidenceRecord) :
    ∃ found, chooseLineage codec (some (.ok artifact)) fileRecordId records candidate target =
        some found ∧
      LineageRequest.content found = chosen codec.artifactOf (lineageWins artifact candidate target)
        (.other (codec.toValue artifact)) records target := by
  have hfile : codec.artifactOf (.other (codec.toValue artifact)) = .ok artifact := by
    simp [LineageCodec.artifactOf, hkeeps artifact rfl]
  unfold chooseLineage chosen
  rw [lineageWins, hfile]
  cases fileNewer (some (.ok artifact)) (pairRecord records target) candidate target with
  | true => exact ⟨_, rfl, rfl⟩
  | false =>
    cases (pairRecord records target).or records.head? with
    | some record => exact ⟨_, rfl, content_decodeLineage record⟩
    | none => exact ⟨_, rfl, rfl⟩

theorem lineageDiffEvidence_of_artifact (candidate target : String) (h : w.faults = [])
    (hkeeps : codec.Keeps (some (.ok artifact)))
    (hsubject : (lineageDiffSubject artifact).isSome = true) :
    ∃ found, (lineageDiffEvidence codec (some (.ok artifact)) true candidate target :
        Program World ε (Option LineageLookup)) w = (.ok (some found), w.afterImport
          (lineageDiffRecord codec artifact (w.supply.evidenceId w.tick) (w.supply.now w.tick))) ∧
      LineageRequest.content found = chosen codec.artifactOf (lineageWins artifact candidate target)
        (.other (codec.toValue artifact)) (evidenceOf w.evidence .lineageDiff candidate)
        target := by
  let record :=
    lineageDiffRecord codec artifact (w.supply.evidenceId w.tick) (w.supply.now w.tick)
  have himport : importLineage codec (some (.ok artifact)) w =
      (.ok (some ((standingRecord w.evidence record).getD record).evidenceId),
        w.afterImport record) := by
    rw [importLineage, if_pos hsubject]
    exact World.importEvidence_run (w := { w with tick := w.tick + 1 }) record h
  obtain ⟨found, hchoice, hcontent⟩ := chooseLineage_of_artifact candidate target hkeeps
    (some ((standingRecord w.evidence record).getD record).evidenceId)
    (evidenceOf w.evidence .lineageDiff candidate)
  refine ⟨found, ?_, hcontent⟩
  rw [lineageDiffEvidence, if_pos rfl, Program.bind_run, Program.attempt_run,
    World.evidenceFor_of_calm _ _ h]
  dsimp only
  rw [Program.bind_run, Program.attempt_run, himport]
  dsimp only
  rw [hchoice]
  rfl

/-- Without a diff that names a subject, nothing is imported. -/
theorem lineageDiffEvidence_of_unnamed (codec : LineageCodec) (candidate target : String)
    (h : w.faults = [])
    (hfile : ∀ artifact, file = some (.ok artifact) → lineageDiffSubject artifact = none) :
    ∃ found, (lineageDiffEvidence codec file true candidate target :
      Program World ε (Option LineageLookup)) w = (.ok found, w) := by
  have himport : importLineage codec file w = (.ok none, w) := by
    unfold importLineage
    split
    · next artifact =>
        rw [hfile artifact rfl]
        rfl
    · rfl
  rw [lineageDiffEvidence, if_pos rfl, Program.bind_run, Program.attempt_run,
    World.evidenceFor_of_calm _ _ h]
  dsimp only
  rw [Program.bind_run, Program.attempt_run, himport]
  exact ⟨_, rfl⟩

/-- A lineage diff that names its subject, and what its import is dated by. -/
def Stamped (file : Option (Except String LineageDiffArtifact)) (w : World) : Prop :=
  ∀ artifact, file = some (.ok artifact) →
    IsTimestamp (artifact.createdAt.getD (w.supply.now w.tick))

/-- The reader of the lineage diff settles unless the file displaces what it had chosen. -/
theorem settles_lineageDiffEvidence_iff (h : w.faults = [])
    (hdated : Dated w.evidence .lineageDiff candidate) (hstamped : Stamped file w)
    (hkeeps : codec.Keeps file) :
    Settles (Option.map LineageRequest.content)
        (lineageDiffEvidence codec file true candidate target :
          Program World ε (Option LineageLookup)) w ↔
      ¬LineageDisplaced codec file w candidate target := by
  by_cases hnamed : ∃ artifact, file = some (.ok artifact) ∧
      (lineageDiffSubject artifact).isSome = true
  · obtain ⟨artifact, rfl, hsubject⟩ := hnamed
    obtain ⟨found, hrun, hfound⟩ := lineageDiffEvidence_of_artifact (ε := ε) candidate target h
      hkeeps hsubject
    obtain ⟨again, hrun', hagain⟩ := lineageDiffEvidence_of_artifact (ε := ε) candidate target
      (w := w.afterImport
        (lineageDiffRecord codec artifact (w.supply.evidenceId w.tick) (w.supply.now w.tick)))
      h hkeeps hsubject
    rw [settles_iff_of_import hrun hrun' rfl rfl rfl rfl, Option.map_some, Option.map_some,
      Option.some_inj, hfound, hagain]
    refine (chosen_imported_iff (winsWhenNewer_lineageWins hsubject) hdated
      (hstamped artifact rfl)).trans
        (not_congr ⟨fun hdisplaced => ⟨artifact, rfl, hsubject, hdisplaced⟩, ?_⟩)
    rintro ⟨artifact', hsame, -, hdisplaced⟩
    cases hsame
    exact hdisplaced
  · obtain ⟨found, hrun⟩ := lineageDiffEvidence_of_unnamed (ε := ε) codec candidate target h
      fun artifact hfile =>
        Option.not_isSome_iff_eq_none.1 fun hsubject => hnamed ⟨artifact, hfile, hsubject⟩
    refine iff_of_true (Settles.of_unchanged (by rw [hrun])) ?_
    rintro ⟨artifact, hfile, hsubject, -⟩
    exact hnamed ⟨artifact, hfile, hsubject⟩

theorem lineageDiffEvidence_ok (codec : LineageCodec)
    (file : Option (Except String LineageDiffArtifact)) (stateful : Bool)
    (candidate target : String) (w : World) :
    ∃ found w', (lineageDiffEvidence codec file stateful candidate target :
      Program World ε (Option LineageLookup)) w = (.ok found, w') := by
  cases stateful with
  | false => exact ⟨_, _, rfl⟩
  | true =>
    rw [lineageDiffEvidence, if_pos rfl, Program.bind_run, Program.attempt_run]
    dsimp only
    cases (World.evidenceFor .lineageDiff candidate w).1 with
    | error error => exact ⟨_, _, rfl⟩
    | ok records =>
      dsimp only
      rw [Program.bind_run, Program.attempt_run]
      dsimp only
      cases (importLineage codec file (World.evidenceFor .lineageDiff candidate w).2).1 with
      | error error => exact ⟨_, _, rfl⟩
      | ok fileRecordId => exact ⟨_, _, rfl⟩

/-- An audit of the lineage settles where the reader of its evidence does. -/
theorem settles_auditedLineage {request : LineageRequest} {git : GitState} {stateful : Bool}
    (hsettles : Settles (Option.map LineageRequest.content)
      (lineageDiffEvidence codec file stateful request.candidate request.target :
        Program World ε (Option LineageLookup)) w) :
    Settles (Option.map LineageEvidence.withoutId)
      (request.auditedLineage git codec file stateful :
        Program World ε (Option LineageEvidence)) w := by
  have hrun : ∀ v found v', (lineageDiffEvidence codec file stateful request.candidate
      request.target : Program World ε (Option LineageLookup)) v = (.ok found, v') →
        (request.auditedLineage git codec file stateful : Program World ε _) v =
          (.ok (found.map (request.verdict git)), v') := by
    intro v found v' hv
    rw [LineageRequest.auditedLineage, Program.bind_of_ok hv]
    rfl
  obtain ⟨found, w', hfirst⟩ := lineageDiffEvidence_ok (ε := ε) codec file stateful
    request.candidate request.target w
  obtain ⟨again, w'', hsecond⟩ := lineageDiffEvidence_ok (ε := ε) codec file stateful
    request.candidate request.target w'
  obtain ⟨hfound, himports⟩ := hsettles
  rw [hfirst, hsecond] at hfound himports
  constructor
  · rw [hrun w found w' hfirst, hrun w' again w'' hsecond]
    refine congrArg Except.ok ?_
    have hsame : again.map LineageRequest.content = found.map LineageRequest.content :=
      Except.ok.inj hfound
    cases again with
    | none =>
      cases found with
      | none => rfl
      | some found => cases hsame
    | some again =>
      cases found with
      | none => cases hsame
      | some found =>
        exact congrArg some (request.verdict_withoutId git (Option.some.inj hsame))
  · rw [hrun w found w' hfirst, hrun w' again w'' hsecond]
    exact himports

end Lineage

/-! ## The environment -/

section Environments

variable [Rfc3339] {w : World} {candidate : String}

omit [Rfc3339] in
theorem readEnvironmentFiles_run {ε : Type} (candidate : String) (h : w.faults = []) :
    ∃ found, (readEnvironmentFiles candidate : Program World ε (Option EnvironmentSetup)) w =
        (.ok found, w) ∧ ∀ setup, found = some setup → setup.candidate.name = candidate := by
  rw [readEnvironmentFiles, Program.bind_of_ok (World.readFile_of_calm _ h)]
  cases hown : (w.files.environmentAt (environmentArtifactName candidate)).filter
      (fun setup => setup.candidate.name = candidate) with
  | some setup =>
    refine ⟨some setup, rfl, fun setup' hsome => ?_⟩
    cases hsome
    simpa using (Option.filter_eq_some_iff.1 hown).2
  | none =>
    dsimp only
    rw [Program.bind_of_ok (World.readFile_of_calm _ h)]
    refine ⟨_, rfl, fun setup hsome => ?_⟩
    simpa using (Option.filter_eq_some_iff.1 hsome).2

/-- The binding of a file, imported into a store without one, is the store's. -/
theorem evidenceOf_imported_of_empty {evidence : List EvidenceRecord} (record : EvidenceRecord)
    (h : (evidenceOf evidence record.kind record.subject).head? = none) :
    evidenceOf (imported evidence record) record.kind record.subject = [record] := by
  have hnil := List.head?_eq_none_iff.1 h
  have hrows : recordsOf evidence record.kind record.subject = [] := by
    rw [List.eq_nil_iff_forall_not_mem]
    intro other hother
    have hmem : other ∈ evidenceOf evidence record.kind record.subject := mem_recent.2 hother
    rw [hnil] at hmem
    cases hmem
  have hstanding : standingRecord evidence record = none := by
    rw [standingRecord, hnil]
    rfl
  rw [imported_of_none hstanding, evidenceOf_eq_recent, recordsOf_append, hrows]
  rfl

/-- A binding the store holds is read, and nothing is imported. -/
theorem readEnvironmentEvidence_of_stored {record : EvidenceRecord} (h : w.faults = [])
    (hhead : (evidenceOf w.evidence .environment candidate).head? = some record) :
    readEnvironmentEvidence true candidate w =
      ((match decodeEnvironment record with
        | .error error => .error error
        | .ok setup =>
          if setup.candidate.name = candidate then .ok (some setup, some record.evidenceId)
          else .error (.state ("environment evidence recorded for `" ++ candidate ++
            "` decodes to a binding for `" ++ setup.candidate.name ++ "`"))), w) := by
  rw [readEnvironmentEvidence, if_pos rfl,
    Program.bind_of_ok (Program.mapError_eq_ok.2 (World.evidenceFor_of_calm _ _ h))]
  rw [hhead]
  dsimp only
  cases decodeEnvironment record with
  | error error => rfl
  | ok setup =>
    rw [Program.bind_of_ok (Program.ofExcept_run _ _)]
    dsimp only
    by_cases hname : setup.candidate.name = candidate
    · rw [if_pos hname, if_pos hname]
      rfl
    · rw [if_neg hname, if_neg hname]
      rfl

theorem readEnvironmentEvidence_of_files {found : Option EnvironmentSetup} (h : w.faults = [])
    (hhead : (evidenceOf w.evidence .environment candidate).head? = none)
    (hread : (readEnvironmentFiles candidate : Program World EngineError _) w = (.ok found, w)) :
    readEnvironmentEvidence true candidate w =
      match found with
      | none => (.ok (none, none), w)
      | some setup =>
        let record :=
          environmentRecord setup (w.supply.evidenceId w.tick) (w.supply.now w.tick)
        (.ok (some setup, some ((standingRecord w.evidence record).getD record).evidenceId),
          w.afterImport record) := by
  rw [readEnvironmentEvidence, if_pos rfl,
    Program.bind_of_ok (Program.mapError_eq_ok.2 (World.evidenceFor_of_calm _ _ h))]
  rw [hhead]
  dsimp only
  rw [Program.bind_of_ok hread]
  cases found with
  | none => rfl
  | some setup =>
    let record := environmentRecord setup (w.supply.evidenceId w.tick) (w.supply.now w.tick)
    have himport : importSetup true setup w =
        (.ok (some ((standingRecord w.evidence record).getD record).evidenceId),
          w.afterImport record) :=
      Program.mapError_eq_ok.2
        (World.importEvidence_run (w := { w with tick := w.tick + 1 }) record h)
    exact Program.bind_of_ok himport

theorem settles_readEnvironmentEvidence (stateful : Bool) (candidate : String)
    (h : w.faults = []) : Settles Prod.fst (readEnvironmentEvidence stateful candidate) w := by
  obtain ⟨found, hread, hnamed⟩ :=
    readEnvironmentFiles_run (ε := EngineError) candidate h
  cases stateful with
  | false =>
    refine Settles.of_unchanged ?_
    rw [readEnvironmentEvidence, if_neg Bool.false_ne_true, Program.bind_of_ok hread]
    rfl
  | true =>
    cases hhead : (evidenceOf w.evidence .environment candidate).head? with
    | some record =>
      exact Settles.of_unchanged (by rw [readEnvironmentEvidence_of_stored h hhead])
    | none =>
      have hfirst := readEnvironmentEvidence_of_files h hhead hread
      cases found with
      | none => exact Settles.of_unchanged (by rw [hfirst])
      | some setup =>
        have hname : setup.candidate.name = candidate := hnamed setup rfl
        let record :=
          environmentRecord setup (w.supply.evidenceId w.tick) (w.supply.now w.tick)
        have hstored : (evidenceOf (w.afterImport record).evidence .environment
            candidate).head? = some record := by
          subst hname
          exact congrArg List.head?
            (evidenceOf_imported_of_empty record hhead)
        have hsecond :
            readEnvironmentEvidence true candidate (w.afterImport record) =
              (.ok (some setup, some record.evidenceId), w.afterImport record) := by
          rw [readEnvironmentEvidence_of_stored (w := w.afterImport record) h hstored]
          change ((if setup.candidate.name = candidate then _ else _ :
            Except EngineError _), _) = _
          rw [if_pos hname]
        constructor
        · rw [hfirst]
          change (readEnvironmentEvidence true candidate (w.afterImport record)).1.map _ = _
          rw [hsecond]
          rfl
        · rw [hfirst]
          change (readEnvironmentEvidence true candidate
            (w.afterImport record)).2.evidence.length ≤ _
          rw [hsecond]
          change (imported w.evidence record).length ≤ _
          unfold imported
          split
          · omega
          · simp

end Environments

/-! ## The two audits -/

section Audits

variable [Rfc3339]

/-- The audit of the branch diff finds and says twice the same. -/
structure DiffSettles (request : AuditRequest) (stateful : Bool) (w : World) : Prop where
  selects : stateful = true → Settles BranchDiffLookup.withoutId
    (branchDiffEvidence request.candidate request.target :
      Program World EngineError BranchDiffLookup) w
  verdict : Settles AuditEvidence.withoutId
    (request.auditedDiff stateful : Program World EngineError AuditEvidence) w

/-- The audit of the lineage diff finds and says twice the same. -/
structure LineageSettles (request : LineageRequest) (git : GitState) (codec : LineageCodec)
    (file : Option (Except String LineageDiffArtifact)) (stateful : Bool) (w : World) : Prop where
  selects : Settles (Option.map LineageRequest.content)
    (lineageDiffEvidence codec file stateful request.candidate request.target :
      Program World EngineError (Option LineageLookup)) w
  verdict : Settles (Option.map LineageEvidence.withoutId)
    (request.auditedLineage git codec file stateful :
      Program World EngineError (Option LineageEvidence)) w

/-- The times of the stored evidence and of the files are timestamps. -/
structure Timed (w : World) (file : Option (Except String LineageDiffArtifact))
    (diffCandidate lineageCandidate : String) : Prop where
  diffs : Dated w.evidence .branchDiff diffCandidate
  report : ∀ report, w.files.branchDiff = some report → IsTimestamp report.finishedAt
  lineages : Dated w.evidence .lineageDiff lineageCandidate
  artifact : Stamped file w

variable {w : World} {request : AuditRequest} {lineage : LineageRequest} {git : GitState}
  {codec : LineageCodec} {file : Option (Except String LineageDiffArtifact)} {stateful : Bool}

theorem diffSettles_iff (h : w.faults = [])
    (hdated : Dated w.evidence .branchDiff request.candidate)
    (hreport : ∀ report, w.files.branchDiff = some report → IsTimestamp report.finishedAt) :
    DiffSettles request stateful w ↔
      (stateful = true → ¬DiffDisplaced w request.candidate request.target) := by
  constructor
  · intro hsettles hstateful
    exact (settles_branchDiffEvidence_iff h hdated hreport).1 (hsettles.selects hstateful)
  · intro hkept
    cases stateful with
    | false => exact ⟨fun hstateful => (nomatch hstateful), Settles.of_unchanged rfl⟩
    | true =>
      have hselects := (settles_branchDiffEvidence_iff (ε := EngineError) h hdated hreport).2
        (hkept rfl)
      exact ⟨fun _ => hselects, request.settles_auditedDiff h hselects⟩

theorem lineageSettles_iff (h : w.faults = [])
    (hdated : Dated w.evidence .lineageDiff lineage.candidate) (hstamped : Stamped file w)
    (hkeeps : codec.Keeps file) :
    LineageSettles lineage git codec file stateful w ↔
      (stateful = true → ¬LineageDisplaced codec file w lineage.candidate lineage.target) := by
  constructor
  · rintro hsettles rfl
    exact (settles_lineageDiffEvidence_iff h hdated hstamped hkeeps).1 hsettles.selects
  · intro hkept
    cases stateful with
    | false => exact ⟨Settles.of_unchanged rfl, Settles.of_unchanged rfl⟩
    | true =>
      have hselects := (settles_lineageDiffEvidence_iff (ε := EngineError) h hdated hstamped
        hkeeps).2 (hkept rfl)
      exact ⟨hselects, settles_auditedLineage hselects⟩

/-- Where the services answer, repeating an audit finds the same evidence and reaches the same
verdict, unless its own import displaced what it had chosen; an environment is always read
alike. -/
theorem settles_iff {candidate : String} (h : w.faults = [])
    (htimes : Timed w file request.candidate lineage.candidate) (hkeeps : codec.Keeps file) :
    (DiffSettles request stateful w ↔
        (stateful = true → ¬DiffDisplaced w request.candidate request.target)) ∧
      (LineageSettles lineage git codec file stateful w ↔
        (stateful = true → ¬LineageDisplaced codec file w lineage.candidate lineage.target)) ∧
      Settles Prod.fst (readEnvironmentEvidence stateful candidate) w :=
  ⟨diffSettles_iff h htimes.diffs htimes.report,
    lineageSettles_iff h htimes.lineages htimes.artifact hkeeps,
    settles_readEnvironmentEvidence stateful candidate h⟩

end Audits

/-! ## A diff without a time -/

namespace Sample

def pairLineage (lineageHash createdAt : Option String) : LineageDiffArtifact where
  baseKind := "ref"
  baseRef := "main"
  baseCommit := "c0"
  candidate := { gitRef := some "ci/pr-1", head := some "c1", dirty := false, lineageHash }
  environment := some
    { candidateRef := "ci/pr-1", candidateHash := "bbb", targetRef := "main", targetHash := "aaa" }
  createdAt
  diff :=
    { nodesAdded := [], nodesRemoved := [], nodesChanged := [], edgesAdded := []
      edgesRemoved := [], edgesChanged := [] }

def undatedLineage : LineageDiffArtifact :=
  pairLineage none none

def datedLineage : LineageDiffArtifact :=
  pairLineage (some "l1") (some "2026-01-01T00:00:00.000000000Z")

def lineageCodec : LineageCodec where
  toValue artifact :=
    if artifact = undatedLineage then "{}"
    else "\x7b\"lineage_hash\":\"l1\",\"created_at\":\"2026-01-01T00:00:00.000000000Z\"\x7d"
  fromValue text := if text = "{}" then some undatedLineage else some datedLineage

def lineageReview : LineageRequest where
  candidate := "ci/pr-1"
  target := "main"
  candidateHash := "bbb"
  targetHash := "aaa"
  currentLineageHash := some "l1"

def diffReview : AuditRequest where
  candidate := "ci/pr-1"
  target := "main"
  candidateHash := some "bbb"
  baseHash := some "aaa"

def unresolvedGit : GitState where
  comparisonBase _ := none
  resolveCommit _ := none

def reviewWorld : World where
  references := References.seed (References.seed Table.empty "main" "aaa") "ci/pr-1" "bbb"
  store := Store.empty
  evidence := [lineageDiffRecord lineageCodec datedLineage "evidence-0" ""]
  files := { environments := Table.empty, branchDiff := none, diff := false }
  faults := []
  supply :=
    { evidenceId := fun n => if n = 0 then "evidence-1" else "evidence-2"
      now := fun _ => "2026-01-02T00:00:00.000000000Z" }
  tick := 0

def review (artifact : LineageDiffArtifact) :
    Program World EngineError (Option LineageEvidence) :=
  @LineageRequest.auditedLineage lineageReview unresolvedGit januaryClock EngineError lineageCodec
    (some (.ok artifact)) true

end Sample

/-- The stored diff is current; the second audit finds the artifact without a time instead,
since the first one imported it with the time of the import. -/
theorem undatedLineage_outranks :
    ((Sample.review Sample.undatedLineage Sample.reviewWorld).1.map
        (Option.map LineageEvidence.status) = .ok (some "current")) ∧
      ((Sample.review Sample.undatedLineage
        (Sample.review Sample.undatedLineage Sample.reviewWorld).2).1.map
          (Option.map LineageEvidence.status) = .ok (some "stale")) ∧
      ¬@LineageSettles januaryClock Sample.lineageReview Sample.unresolvedGit Sample.lineageCodec
        (some (.ok Sample.undatedLineage)) true Sample.reviewWorld := by
  have hfirst : (Sample.review Sample.undatedLineage Sample.reviewWorld).1.map
      (Option.map LineageEvidence.status) = .ok (some "current") := by decide +kernel
  have hsecond : (Sample.review Sample.undatedLineage
      (Sample.review Sample.undatedLineage Sample.reviewWorld).2).1.map
        (Option.map LineageEvidence.status) = .ok (some "stale") := by decide +kernel
  have hstatus : ∀ r : Except EngineError (Option LineageEvidence),
      (r.map (Option.map LineageEvidence.withoutId)).map (Option.map LineageEvidence.status) =
        r.map (Option.map LineageEvidence.status) := by
    rintro (error | _ | evidence) <;> rfl
  refine ⟨hfirst, hsecond, fun hsettles => ?_⟩
  have hfound := congrArg (Except.map (Option.map LineageEvidence.status))
    (@LineageSettles.verdict januaryClock _ _ _ _ _ _ hsettles).found
  rw [hstatus, hstatus] at hfound
  exact absurd (hsecond.symm.trans (hfound.trans hfirst)) (by decide)

/-- An artifact that is the stored one is found by every audit. -/
theorem settles_dated :
    letI : Rfc3339 := januaryClock
    LineageSettles Sample.lineageReview Sample.unresolvedGit Sample.lineageCodec
        (some (.ok Sample.datedLineage)) true Sample.reviewWorld ∧
      DiffSettles Sample.diffReview true Sample.reviewWorld ∧
      Settles Prod.fst (readEnvironmentEvidence true "ci/pr-1") Sample.reviewWorld := by
  let _ : Rfc3339 := januaryClock
  have htimes : Timed Sample.reviewWorld (some (.ok Sample.datedLineage)) "ci/pr-1" "ci/pr-1" := by
    refine ⟨?_, ?_, ?_, ?_⟩
    · intro record hrecord
      have hnil : recordsOf Sample.reviewWorld.evidence .branchDiff "ci/pr-1" = [] := by decide
      rw [hnil] at hrecord
      cases hrecord
    · rintro report ⟨⟩
    · intro record hrecord
      have hone : recordsOf Sample.reviewWorld.evidence .lineageDiff "ci/pr-1" =
          Sample.reviewWorld.evidence := by decide +kernel
      rw [hone] at hrecord
      rw [List.mem_singleton.1 hrecord]
      exact ⟨1767225600000000000, by decide⟩
    · intro artifact hartifact
      cases hartifact
      exact ⟨1767225600000000000, by decide⟩
  have hkeeps : Sample.lineageCodec.Keeps (some (.ok Sample.datedLineage)) := by
    intro artifact hartifact
    cases hartifact
    decide
  have hsettles := @settles_iff januaryClock Sample.reviewWorld Sample.diffReview
    Sample.lineageReview Sample.unresolvedGit Sample.lineageCodec (some (.ok Sample.datedLineage))
    true "ci/pr-1" rfl htimes hkeeps
  refine ⟨hsettles.2.1.2 fun _ => ?_, hsettles.1.2 fun _ => ?_, hsettles.2.2⟩
  · rintro ⟨artifact, hartifact, -, -, hstanding, -⟩
    cases hartifact
    exact absurd hstanding (by decide +kernel)
  · rintro ⟨report, hreport, -⟩
    cases hreport

end PhloTransform.Engine
