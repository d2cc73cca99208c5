import PhloTransform.Engine.BranchDiff
import PhloTransform.Nessie.Client
import PhloTransform.Library.Program
import PhloTransform.Library.StableSort

/-!
# Audit evidence

What a promotion relies on is kept in the state store as immutable records, and
exported to artifact files.  Reads are store-first; file evidence that the store
has not seen is imported.  Every call to the store or to the file system may fail.

Main results:

- Theorem `World.reads_importEvidence`: an import only appends a record that a file
  already held.
-/

namespace PhloTransform.Engine

open Library (Program Table)
open Nessie (ReferenceInfo References)

/-! ## Records -/

/-- What `ensure_catalog` established about the requested catalog. -/
inductive CatalogStatus where
  | created
  | unverified
  | unmanaged
deriving Repr, DecidableEq

/-- The provisioned environment. -/
structure EnvironmentSetup where
  base : ReferenceInfo
  candidate : ReferenceInfo
  /-- Immutable provenance: what the candidate branch was created from. -/
  createdFrom : Option ReferenceInfo
  createdBranch : Bool
  catalog : String
  catalogStatus : CatalogStatus
  /-- Whether phlo may drop the catalog; absent in records older than the flag. -/
  catalogOwnedByPhlo : Option Bool
deriving Repr, DecidableEq

/-- Whether phlo may drop the candidate's catalog during cleanup. -/
def EnvironmentSetup.ownsCatalog (setup : EnvironmentSetup) : Bool :=
  setup.catalogOwnedByPhlo.getD (decide (setup.catalogStatus = .created))

inductive EvidenceKind where
  | environment
  | branchDiff
  | lineageDiff
deriving Repr, DecidableEq

def EvidenceKind.asStr : EvidenceKind → String
  | environment => "environment"
  | branchDiff => "branch_diff"
  | lineageDiff => "lineage_diff"

/-- What a stored payload decodes to. -/
inductive EvidencePayload where
  | environment (setup : EnvironmentSetup)
  | branchDiff (report : BranchDiffReport)
  | other (text : String)
deriving Repr, DecidableEq

/-- One immutable audit-evidence record. -/
structure EvidenceRecord where
  evidenceId : String
  kind : EvidenceKind
  subject : String
  targetRef : String
  candidateHash : Option String
  targetHash : Option String
  fingerprint : Option String
  payload : EvidencePayload
  runId : Option String
  createdAt : String
deriving Repr, DecidableEq

/-- The evidence record of a provisioned environment. -/
def environmentRecord (setup : EnvironmentSetup) (evidenceId now : String) :
    EvidenceRecord where
  evidenceId := evidenceId
  kind := .environment
  subject := setup.candidate.name
  targetRef := (setup.createdFrom.map ReferenceInfo.name).getD ""
  candidateHash := some setup.candidate.hash
  targetHash := setup.createdFrom.map ReferenceInfo.hash
  fingerprint := none
  payload := .environment setup
  runId := none
  createdAt := now

/-- The evidence record of a branch diff; it is dated by the report's own finish. -/
def branchDiffRecord (report : BranchDiffReport) (evidenceId : String) : EvidenceRecord where
  evidenceId := evidenceId
  kind := .branchDiff
  subject := report.candidateRef
  targetRef := report.baseRef
  candidateHash := report.candidateHash
  targetHash := report.baseHash
  fingerprint := none
  payload := .branchDiff report
  runId := none
  createdAt := report.finishedAt

/-! ## The evidence table, newest first -/

section Newest

variable [Rfc3339]

/-- `newest_first`: a stable sort by instant. -/
def newestFirst {T : Type*} (timestamp : T → String) (rows : List T) : List T :=
  rows.insertionSort fun a b => cmpRfc3339 (timestamp b) (timestamp a) ≠ .gt

/-- `ORDER BY timestamp DESC, rowid DESC`, then newest first. -/
def recent {T : Type*} (timestamp : T → String) (rows : List T) : List T :=
  newestFirst timestamp (rows.reverse.insertionSort fun a b => timestamp b ≤ timestamp a)

@[simp]
theorem mem_recent {T : Type*} {timestamp : T → String} {rows : List T} {row : T} :
    row ∈ recent timestamp rows ↔ row ∈ rows := by
  simp [recent, newestFirst]

section Ordered

variable {T : Type*} {timestamp : T → String}
variable {rows : List T}

def instant (value : String) : Int :=
  (Rfc3339.parse value).getD 0

theorem notNewer_iff {a b : String} (ha : IsTimestamp a) (hb : IsTimestamp b) :
    cmpRfc3339 b a ≠ .gt ↔ instant b ≤ instant a := by
  obtain ⟨x, hx⟩ := ha
  obtain ⟨y, hy⟩ := hb
  rw [cmpRfc3339_of_parse hy hx, instant, instant, hx, hy, Option.getD_some, Option.getD_some,
    Ne, compare_gt_iff_gt]
  exact not_lt

theorem newestFirst_eq (h : ∀ row ∈ rows, IsTimestamp (timestamp row)) :
    newestFirst timestamp rows =
      rows.insertionSort fun a b => instant (timestamp b) ≤ instant (timestamp a) :=
  Library.insertionSort_congr fun a ha b hb => notNewer_iff (h a ha) (h b hb)

instance : Std.Total fun a b : T => instant (timestamp b) ≤ instant (timestamp a) :=
  ⟨fun a b => le_total (instant (timestamp b)) (instant (timestamp a))⟩

instance : IsTrans T fun a b => instant (timestamp b) ≤ instant (timestamp a) :=
  ⟨fun _ _ _ hab hbc => le_trans hbc hab⟩

omit [Rfc3339] in
instance total_timestamp : Std.Total fun a b : T => timestamp b ≤ timestamp a :=
  ⟨fun a b => le_total (timestamp b) (timestamp a)⟩

omit [Rfc3339] in
instance isTrans_timestamp : IsTrans T fun a b => timestamp b ≤ timestamp a :=
  ⟨fun _ _ _ hab hbc => le_trans hbc hab⟩

theorem filter_recent (p : T → Bool) (h : ∀ row ∈ rows, IsTimestamp (timestamp row)) :
    (recent timestamp rows).filter p = recent timestamp (rows.filter p) := by
  have hkept : ∀ row ∈ rows.filter p, IsTimestamp (timestamp row) :=
    fun row hrow => h row (List.mem_filter.1 hrow).1
  rw [recent, recent, newestFirst_eq (by simpa using h), newestFirst_eq (by simpa using hkept),
    Library.filter_insertionSort, Library.filter_insertionSort, List.filter_reverse]

/-- One more row is the newest one, or leaves it as it is. -/
theorem head?_recent_append {row : T} (h : ∀ other ∈ rows ++ [row], IsTimestamp (timestamp other)) :
    (recent timestamp (rows ++ [row])).head? = some row ∨
      (recent timestamp (rows ++ [row])).head? = (recent timestamp rows).head? := by
  have hold : ∀ other ∈ rows, IsTimestamp (timestamp other) :=
    fun other hother => h other (List.mem_append_left _ hother)
  rw [recent, recent, newestFirst_eq fun other hother => h other (by simpa [or_comm] using hother),
    newestFirst_eq (by simpa using hold),
    List.reverse_append, List.reverse_singleton, List.singleton_append, List.insertionSort_cons,
    List.orderedInsert_eq_take_drop]
  have hmiddle := Library.head?_insertionSort_middle
    (r := fun a b => instant (timestamp b) ≤ instant (timestamp a))
    ((rows.reverse.insertionSort fun a b => timestamp b ≤ timestamp a).takeWhile
      fun b => decide ¬ timestamp b ≤ timestamp row)
    ((rows.reverse.insertionSort fun a b => timestamp b ≤ timestamp a).dropWhile
      fun b => decide ¬ timestamp b ≤ timestamp row) row
  rwa [List.takeWhile_append_dropWhile] at hmiddle

/-- A row that is newer than every other one comes first. -/
theorem head?_recent_of_newest {row : T} (h : ∀ other ∈ rows, IsTimestamp (timestamp other))
    (hrow : row ∈ rows)
    (hnewest : ∀ other ∈ rows, other = row ∨ instant (timestamp other) < instant (timestamp row)) :
    (recent timestamp rows).head? = some row := by
  have hsorted : (recent timestamp rows).Pairwise
      fun a b => instant (timestamp b) ≤ instant (timestamp a) := by
    rw [recent, newestFirst_eq (by simpa using h)]
    exact List.pairwise_insertionSort _ _
  cases hlist : recent timestamp rows with
  | nil =>
    have hmem : row ∈ recent timestamp rows := mem_recent.2 hrow
    rw [hlist] at hmem
    cases hmem
  | cons first rest =>
    rw [hlist] at hsorted
    have hmem : row ∈ first :: rest := hlist ▸ mem_recent.2 hrow
    have hfirst : first ∈ rows := mem_recent.1 (hlist ▸ List.mem_cons_self)
    rw [List.head?_cons, Option.some_inj]
    rcases hnewest first hfirst with heq | hlt
    · exact heq
    · rcases List.mem_cons.1 hmem with heq | hrest
      · exact heq.symm
      · exact absurd (List.rel_of_pairwise_cons hsorted hrest) (not_le.2 hlt)

end Ordered

/-- Every record of a kind for a subject. -/
def evidenceOf (evidence : List EvidenceRecord) (kind : EvidenceKind) (subject : String) :
    List EvidenceRecord :=
  recent EvidenceRecord.createdAt
    (evidence.filter fun record => decide (record.kind = kind ∧ record.subject = subject))

/-- The newest record of a kind for each (subject, target) pair. -/
def latestOf (evidence : List EvidenceRecord) (kind : EvidenceKind) : List EvidenceRecord :=
  Library.firstByKey (fun record => (record.subject, record.targetRef)) []
    (recent EvidenceRecord.createdAt
      (evidence.filter fun record => decide (record.kind = kind)))

end Newest

/-! ## The world of a call -/

/-- The artifact files of a workspace that decode: the environments by file name in
the order the directory is listed, the branch diff, and whether a single-model diff
is there. -/
structure ArtifactFiles where
  environments : Table (Prod.fst : String × EnvironmentSetup → String)
  branchDiff : Option BranchDiffReport
  diff : Bool

namespace ArtifactFiles

variable (files : ArtifactFiles)

def environmentAt (name : String) : Option EnvironmentSetup :=
  (files.environments.get? name).map Prod.snd

def putEnvironment (name : String) (setup : EnvironmentSetup) : ArtifactFiles :=
  { files with environments := files.environments.put (name, setup) }

def removeEnvironment (name : String) : ArtifactFiles :=
  { files with environments := files.environments.erase name }

end ArtifactFiles

/-- The ids and times that the calls of a run draw. -/
structure Supply where
  evidenceId : Nat → String
  now : Nat → String

/-- The references, the store, the artifact files, and how the calls to come end: a
message is a failure without effect. -/
structure World where
  references : References
  store : Store
  evidence : List EvidenceRecord
  files : ArtifactFiles
  faults : List (Option String)
  supply : Supply
  tick : Nat

namespace World

variable {ε α : Type}

def call : Program World String Unit := fun w =>
  match w.faults with
  | [] => (.ok (), w)
  | none :: rest => (.ok (), { w with faults := rest })
  | some message :: rest => (.error message, { w with faults := rest })

/-- The id and the time of a new record. -/
def draw {ε : Type} : Program World ε (String × String) := fun w =>
  (.ok (w.supply.evidenceId w.tick, w.supply.now w.tick), { w with tick := w.tick + 1 })

/-- Read a file; one that cannot be read is as good as missing. -/
def readFile {α ε : Type} (file : ArtifactFiles → Option α) : Program World ε (Option α) := do
  match ← call.attempt with
  | .ok _ => do
      let w ← Program.get
      pure (file w.files)
  | .error _ => pure none

def writeFiles (write : ArtifactFiles → ArtifactFiles) : Program World String Unit := do
  call
  Program.modify fun w => { w with files := write w.files }

section Store

variable [Rfc3339]

def evidenceFor (kind : EvidenceKind) (subject : String) :
    Program World String (List EvidenceRecord) := do
  call
  let w ← Program.get
  pure (evidenceOf w.evidence kind subject)

def latestEvidence (kind : EvidenceKind) : Program World String (List EvidenceRecord) := do
  call
  let w ← Program.get
  pure (latestOf w.evidence kind)

omit [Rfc3339] in
def recordEvidence (record : EvidenceRecord) : Program World String Unit := do
  call
  Program.modify fun w => { w with evidence := w.evidence ++ [record] }

omit [Rfc3339] in
def removeEvidence (kind : EvidenceKind) (subject : String) : Program World String Unit := do
  call
  Program.modify fun w =>
    { w with evidence := w.evidence.filter fun record =>
        decide ¬ (record.kind = kind ∧ record.subject = subject) }

/-- `import_evidence`: append file evidence the store does not carry yet, and return
the id of the standing record. -/
def importEvidence (record : EvidenceRecord) : Program World String (Option String) := do
  let standing ← (evidenceFor record.kind record.subject).mapError
    ("cannot read the evidence store: " ++ ·)
  match standing.find? fun existing => decide (existing.targetRef = record.targetRef ∧
      (existing.createdAt = record.createdAt ∨ existing.payload = record.payload)) with
  | some existing => pure (some existing.evidenceId)
  | none => do
      (recordEvidence record).mapError fun error =>
        "cannot persist " ++ record.kind.asStr ++ " evidence for `" ++ record.subject ++
          "` to the state store: " ++ error
      pure (some record.evidenceId)

end Store

/-! ## What reading leaves behind -/

/-- The record of what an artifact file holds. -/
def Imported (files : ArtifactFiles) (record : EvidenceRecord) : Prop :=
  (∃ entry ∈ files.environments.rows, ∃ evidenceId now,
      record = environmentRecord entry.2 evidenceId now) ∨
    ∃ report evidenceId, files.branchDiff = some report ∧
      record = branchDiffRecord report evidenceId

/-- Nothing changed, except that records of the artifact files were appended. -/
structure Reads (w w' : World) : Prop where
  references : w'.references = w.references
  store : w'.store = w.store
  files : w'.files = w.files
  supply : w'.supply = w.supply
  keeps : w.evidence ⊆ w'.evidence
  imports : ∀ record ∈ w'.evidence, record ∈ w.evidence ∨ Imported w.files record

theorem Reads.refl (w : World) : Reads w w where
  references := rfl
  store := rfl
  files := rfl
  supply := rfl
  keeps := List.Subset.refl _
  imports _ hrecord := Or.inl hrecord

theorem Reads.trans {w w' w'' : World} (h : Reads w w') (h' : Reads w' w'') : Reads w w'' where
  references := h'.references.trans h.references
  store := h'.store.trans h.store
  files := h'.files.trans h.files
  supply := h'.supply.trans h.supply
  keeps := List.Subset.trans h.keeps h'.keeps
  imports record hrecord := by
    rcases h'.imports record hrecord with hrecord | himported
    · exact h.imports record hrecord
    · rw [h.files] at himported
      exact Or.inr himported

instance : Std.Refl Reads :=
  ⟨Reads.refl⟩

instance : IsTrans World Reads :=
  ⟨fun _ _ _ => Reads.trans⟩

theorem Reads.of_faults (w : World) (faults : List (Option String)) (tick : Nat) :
    Reads w { w with faults := faults, tick := tick } where
  references := rfl
  store := rfl
  files := rfl
  supply := rfl
  keeps := List.Subset.refl _
  imports _ hrecord := Or.inl hrecord

theorem reads_call : Program.Advances Reads call := by
  intro w
  unfold call
  split
  · exact Reads.refl w
  · exact Reads.of_faults w _ _
  · exact Reads.of_faults w _ _

theorem reads_draw : Program.Advances Reads (draw : Program World ε _) :=
  fun w => Reads.of_faults w _ _

theorem reads_readFile (file : ArtifactFiles → Option α) :
    Program.Advances Reads (readFile file : Program World ε (Option α)) := by
  refine Program.Advances.bind reads_call.attempt fun r => ?_
  cases r with
  | error _ => exact Program.Advances.pure _
  | ok _ => exact Program.Advances.get.bind fun w => Program.Advances.pure _

theorem readFile_eq_some {file : ArtifactFiles → Option α} {w w' : World} {a : α}
    (h : (readFile file : Program World ε (Option α)) w = (.ok (some a), w')) :
    file w.files = some a := by
  obtain ⟨r, s, hcall, h⟩ := Program.bind_eq_ok.1 h
  have hfiles : s.files = w.files := by
    have hs : s = (call w).2 := (congrArg Prod.snd hcall).symm
    rw [hs]
    exact (reads_call w).files
  cases r with
  | error _ => simp at h
  | ok _ =>
    obtain ⟨s', t, hget, hpure⟩ := Program.bind_eq_ok.1 h
    cases hget
    rw [← hfiles]
    simpa using congrArg Prod.fst hpure

section Store

variable [Rfc3339]
variable {record : EvidenceRecord}

theorem reads_evidenceFor (kind : EvidenceKind) (subject : String) :
    Program.Advances Reads (evidenceFor kind subject) :=
  reads_call.bind fun _ => Program.Advances.get.bind fun _ => Program.Advances.pure _

theorem reads_latestEvidence (kind : EvidenceKind) : Program.Advances Reads (latestEvidence kind) :=
  reads_call.bind fun _ => Program.Advances.get.bind fun _ => Program.Advances.pure _

omit [Rfc3339] in
theorem reads_recordEvidence {w : World} (himported : Imported w.files record) :
    Reads w (recordEvidence record w).2 := by
  refine Program.Advances.bind_at (reads_call w) fun _ s hs => ?_
  have hcall : Reads w s := reads_call.of_run hs
  rw [← hcall.files] at himported
  refine ⟨rfl, rfl, rfl, rfl, List.subset_append_left _ _, fun other hother => ?_⟩
  rcases List.mem_append.1 hother with hold | hnew
  · exact Or.inl hold
  · rw [List.mem_singleton] at hnew
    subst hnew
    exact Or.inr himported

theorem reads_importEvidence {w : World} (himported : Imported w.files record) :
    Reads w (importEvidence record w).2 := by
  refine Program.Advances.bind_at ((reads_evidenceFor _ _).mapError w) fun rows s hs => ?_
  have hrows : Reads w s := (reads_evidenceFor _ _).mapError.of_run hs
  generalize List.find? _ rows = standing
  cases standing with
  | some existing => exact Reads.refl s
  | none =>
    refine Program.Advances.bind_at ?_ fun _ s' _ => Reads.refl s'
    rw [Program.mapError_state]
    rw [← hrows.files] at himported
    exact reads_recordEvidence himported

end Store

end World

end PhloTransform.Engine
