import PhloTransform.Core.LineageDiff
import PhloTransform.Engine.Audit

/-!
# The lineage audit of a promotion

A promotion also consults the freshest lineage diff of its candidate and target.  The diff is
bound to the heads of two references, or to a Git state, and to the fingerprint of the
candidate's lineage.

Main results:

- Theorem `LineageRequest.verdict_withoutId`: the verdict depends on the diff that was found, not
  on the record it was found in.
-/

namespace PhloTransform.Engine

open Library (Program)

/-! ## The artifact -/

/-- The branch pair a lineage diff was produced for. -/
structure LineageEnvironment where
  candidateRef : String
  candidateHash : String
  targetRef : String
  targetHash : String
deriving Repr, DecidableEq

/-- The candidate side's Git identity when a lineage diff was produced. -/
structure CandidateProvenance where
  gitRef : Option String
  head : Option String
  dirty : Bool
  lineageHash : Option String
deriving Repr, DecidableEq

/-- `lineage_diff.json`. -/
structure LineageDiffArtifact where
  baseKind : String
  baseRef : String
  baseCommit : String
  candidate : CandidateProvenance
  environment : Option LineageEnvironment
  createdAt : Option String
  diff : Core.LineageDiff
deriving Repr, DecidableEq

/-- How artifacts are written as JSON and read back. -/
structure LineageCodec where
  toValue : LineageDiffArtifact → String
  fromValue : String → Option LineageDiffArtifact

def LineageDiffArtifact.changeCount (artifact : LineageDiffArtifact) : Nat :=
  artifact.diff.nodesAdded.length + artifact.diff.nodesRemoved.length +
    artifact.diff.nodesChanged.length + artifact.diff.edgesAdded.length +
    artifact.diff.edgesRemoved.length + artifact.diff.edgesChanged.length

/-- The candidate reference an artifact speaks for. -/
def lineageDiffSubject (artifact : LineageDiffArtifact) : Option String :=
  (artifact.environment.map LineageEnvironment.candidateRef).or artifact.candidate.gitRef

/-- The target reference an artifact speaks for. -/
def lineageDiffTarget (artifact : LineageDiffArtifact) : String :=
  (artifact.environment.map LineageEnvironment.targetRef).getD artifact.baseRef

/-- The evidence record of a lineage diff; one without a time is dated by its import. -/
def lineageDiffRecord (codec : LineageCodec) (artifact : LineageDiffArtifact)
    (evidenceId now : String) : EvidenceRecord where
  evidenceId := evidenceId
  kind := .lineageDiff
  subject := (lineageDiffSubject artifact).getD ""
  targetRef := lineageDiffTarget artifact
  candidateHash := (artifact.environment.map LineageEnvironment.candidateHash).or
    artifact.candidate.head
  targetHash := (artifact.environment.map LineageEnvironment.targetHash).or
    (some artifact.baseCommit)
  fingerprint := artifact.candidate.lineageHash
  payload := .other (codec.toValue artifact)
  runId := none
  createdAt := artifact.createdAt.getD now

/-! ## Finding the diff -/

/-- What the lineage evidence holds: a diff and the id of its record, or why there is none. -/
abbrev LineageLookup :=
  Except String (LineageDiffArtifact × Option String)

section Finding

variable [Rfc3339] (codec : LineageCodec)

omit [Rfc3339] in
def decodeLineage (record : EvidenceRecord) : LineageLookup :=
  match record.payload with
  | .other text =>
    match codec.fromValue text with
    | some artifact => .ok (artifact, some record.evidenceId)
    | none => .error "undecodable lineage evidence"
  | _ => .error "undecodable lineage evidence"

/-- Import the diff of the artifact file, when it has a subject. -/
def importLineage (file : Option (Except String LineageDiffArtifact)) :
    Program World String (Option String) :=
  match file with
  | some (.ok artifact) =>
    if (lineageDiffSubject artifact).isSome then do
      let (evidenceId, now) ← World.draw
      World.importEvidence (lineageDiffRecord codec artifact evidenceId now)
    else pure none
  | _ => pure none

/-- The file names this pair and carries a time that is newer than the store's record of it. -/
def fileNewer (file : Option (Except String LineageDiffArtifact)) (record : Option EvidenceRecord)
    (candidate target : String) : Bool :=
  match file, record with
  | some (.ok artifact), some record =>
    decide (lineageDiffSubject artifact = some candidate ∧ lineageDiffTarget artifact = target) &&
      match artifact.createdAt with
      | some createdAt => decide (cmpRfc3339 createdAt record.createdAt = .gt)
      | none => false
  | some (.ok artifact), none =>
    decide (lineageDiffSubject artifact = some candidate ∧ lineageDiffTarget artifact = target)
  | _, _ => false

omit [Rfc3339] in
/-- What the file holds, with the id of its record. -/
def lineageOfFile (file : Option (Except String LineageDiffArtifact))
    (fileRecordId : Option String) : Option LineageLookup :=
  file.map fun result => result.map fun artifact => (artifact, fileRecordId)

/-- The file where it is newer, else the store's record of the pair, else the candidate's newest
one, else the file. -/
def chooseLineage (file : Option (Except String LineageDiffArtifact))
    (fileRecordId : Option String) (records : List EvidenceRecord) (candidate target : String) :
    Option LineageLookup :=
  if fileNewer file (pairRecord records target) candidate target then
    lineageOfFile file fileRecordId
  else
    match (pairRecord records target).or records.head? with
    | some record => some (decodeLineage codec record)
    | none => lineageOfFile file fileRecordId

/-- `lineage_diff_evidence`, with the artifact file as it was read. -/
def lineageDiffEvidence {ε : Type} (file : Option (Except String LineageDiffArtifact))
    (stateful : Bool) (candidate target : String) : Program World ε (Option LineageLookup) := do
  if stateful then
    match ← (World.evidenceFor .lineageDiff candidate).attempt with
    | .error error => pure (some (.error ("cannot read the evidence store: " ++ error)))
    | .ok records =>
      match ← (importLineage codec file).attempt with
      | .error error => pure (some (.error ("state store error: " ++ error)))
      | .ok fileRecordId => pure (chooseLineage codec file fileRecordId records candidate target)
  else pure (lineageOfFile file none)

end Finding

/-! ## The verdict -/

/-- The lineage diff's standing as evidence for a promotion. -/
structure LineageEvidence where
  status : String
  reason : Option String
  base : String
  changes : Nat
  evidenceId : Option String
deriving Repr, DecidableEq

def LineageEvidence.withoutId (evidence : LineageEvidence) : LineageEvidence :=
  { evidence with evidenceId := none }

/-- The merge base of a reference and the checkout, as Git resolves it now. -/
structure ComparisonBase where
  commit : String
  head : Option String
  dirty : Bool
deriving Repr, DecidableEq

/-- The state of the Git repository. -/
structure GitState where
  comparisonBase : String → Option ComparisonBase
  resolveCommit : String → Option String

/-- A promotion's pair of references, their heads, and the candidate's lineage now. -/
structure LineageRequest where
  candidate : String
  target : String
  candidateHash : String
  targetHash : String
  currentLineageHash : Option String
deriving Repr, DecidableEq

namespace LineageRequest

variable (request : LineageRequest) (git : GitState)

def rerun : String :=
  "rerun `lineage --diff " ++ request.target ++ " --ref " ++ request.candidate ++ "`"

/-- The status and the reason of the identity checks. -/
def identity (artifact : LineageDiffArtifact) : String × Option String :=
  match artifact.environment with
  | some binding =>
    if binding.candidateRef ≠ request.candidate ∨ binding.targetRef ≠ request.target then
      ("stale", some ("lineage diff covers `" ++ binding.candidateRef ++ "` -> `" ++
        binding.targetRef ++ "`, not `" ++ request.candidate ++ "` -> `" ++ request.target ++
        "`; " ++ request.rerun))
    else if binding.candidateHash ≠ request.candidateHash then
      ("stale", some ("candidate `" ++ request.candidate ++ "` moved since the lineage diff; " ++
        request.rerun))
    else if binding.targetHash ≠ request.targetHash then
      ("stale", some ("target `" ++ request.target ++ "` moved since the lineage diff; " ++
        request.rerun))
    else ("current", none)
  | none =>
    if artifact.baseKind = "merge-base" then
      match git.comparisonBase artifact.baseRef with
      | some current =>
        if current.commit = artifact.baseCommit ∧ current.head = artifact.candidate.head ∧
            current.dirty = artifact.candidate.dirty then
          ("advisory", none)
        else
          ("stale", some ("the worktree or `" ++ artifact.baseRef ++
            "` moved since the lineage diff; " ++ request.rerun))
      | none =>
        ("stale", some ("base ref `" ++ artifact.baseRef ++ "` no longer resolves; " ++
          request.rerun))
    else
      match git.resolveCommit artifact.baseRef with
      | none =>
        ("stale", some ("base ref `" ++ artifact.baseRef ++ "` no longer resolves; " ++
          request.rerun))
      | some baseNow =>
        match artifact.candidate.gitRef, artifact.candidate.head with
        | some gitRef, head =>
          match git.resolveCommit gitRef, head with
          | none, _ =>
            ("stale", some ("candidate ref `" ++ gitRef ++ "` no longer resolves; " ++
              request.rerun))
          | some now, some recorded =>
            if now = recorded ∧ baseNow = artifact.baseCommit then ("advisory", none)
            else
              ("stale", some ("a diffed ref moved since the lineage diff; " ++
                request.rerun))
          | some _, none =>
            ("stale", some ("the artifact does not record a resolvable candidate ref; " ++
              request.rerun))
        | none, _ =>
          ("stale", some ("the artifact does not record a resolvable candidate ref; " ++
            request.rerun))

/-- The status and the reason after the check of the candidate's own lineage. -/
def standing (artifact : LineageDiffArtifact) : String × Option String :=
  if (request.identity git artifact).1 = "stale" then request.identity git artifact
  else
    match artifact.candidate.lineageHash, request.currentLineageHash with
    | some recorded, some now =>
      if recorded = now then request.identity git artifact
      else
        ("stale", some ("the candidate's lineage changed since the diff; " ++ request.rerun))
    | some _, none =>
      ("stale", some ("the candidate's lineage could not be fingerprinted; " ++ request.rerun))
    | none, _ =>
      ("stale", some ("the lineage artifact predates candidate fingerprinting; " ++
        request.rerun))

def verdict (found : LineageLookup) : LineageEvidence :=
  match found with
  | .error error =>
    { status := "stale", reason := some error, base := "unknown", changes := 0,
      evidenceId := none }
  | .ok (artifact, evidenceId) =>
    { status := (request.standing git artifact).1
      reason := (request.standing git artifact).2
      base := artifact.baseRef ++ " (" ++
        String.ofList (artifact.baseCommit.toList.take 12) ++ ")"
      changes := artifact.changeCount
      evidenceId := evidenceId }

/-- The diff that was found, without the id of its record. -/
def content (found : LineageLookup) : Except String LineageDiffArtifact :=
  found.map Prod.fst

/-- The verdict depends on the diff that was found alone. -/
theorem verdict_withoutId {found again : LineageLookup} (h : content found = content again) :
    (request.verdict git found).withoutId = (request.verdict git again).withoutId := by
  rcases found with error | ⟨artifact, evidenceId⟩
  · rcases again with error' | ⟨artifact', evidenceId'⟩
    · cases h
      rfl
    · cases h
  · rcases again with error' | ⟨artifact', evidenceId'⟩
    · cases h
    · cases h
      rfl

/-- `audited_lineage`, with the artifact file as it was read. -/
def auditedLineage [Rfc3339] {ε : Type} (codec : LineageCodec)
    (file : Option (Except String LineageDiffArtifact)) (stateful : Bool) :
    Program World ε (Option LineageEvidence) := do
  let found ← lineageDiffEvidence codec file stateful request.candidate request.target
  pure (found.map (request.verdict git))

end LineageRequest

end PhloTransform.Engine
