import PhloTransform.Engine.Gates
import PhloTransform.Engine.StateBackends
import PhloTransform.Library.StampedHistory
import PhloTransform.Library.StepSystem

/-!
# Binding a run to a commit

A run of a candidate environment commits to the candidate branch with every write.  When
it has passed, the head of the branch is read and stored as the commit that the run
produced, and the run gate asks for that commit at promotion.  Other clients commit to the
branch at any time.

Main results:

- Theorem `CandidateBranch.ownCommits_iff`: a run whose gate passes at the head produced
  every commit since it started, exactly when no one else committed between its start and
  the reading of the head.
-/

namespace PhloTransform.Engine

open Library (StepSystem Stamps Table window WindowClosed)

/-- Who made a commit: a run, or `none` for any other client. -/
abbrev Author := Option String

/-- How far a run has come with its binding.  A run keeps the branch as it was when it
started, and `bind_run_reference` the branch as it was when the head was read. -/
inductive BindingStage where
  | absent
  | running (start : List Author)
  | stopped (start : List Author)
  | passed (start : List Author)
  | read (start seen : List Author)
  | bound (start seen : List Author)
deriving DecidableEq

/-- The branch of a candidate environment.  Every commit gives it a new head. -/
structure CandidateBranch where
  name : String
  hashes : Stamps String

/-- The commits since the branch was cut, the latest first, the runs and the store. -/
structure CandidateState where
  commits : List Author
  stage : String → BindingStage
  store : Store

/-- The steps of the runs and of other clients. -/
inductive CandidateEvent where
  | start (run : RunRecord) (plan : StoredPlan)
  | resume (runId : String)
  | commit (author : Author)
  | finish (runId : String) (status : ExecutionStatus) (finishedAt : String)
      (failedCount : Nat)
  | readHead (runId : String)
  | bind (runId : String)

namespace CandidateState

def initial : CandidateState where
  commits := []
  stage := fun _ => .absent
  store := .empty

def enter (s : CandidateState) (runId : String) (stage : BindingStage) : CandidateState :=
  { s with stage := Function.update s.stage runId stage }

end CandidateState

namespace CandidateEvent

def starts (runId : String) : CandidateEvent → Bool
  | start run _ => run.runId == runId
  | _ => false

/-- The event reads the head for the run. -/
def readsHead (runId : String) : CandidateEvent → Bool
  | readHead other => other == runId
  | _ => false

def author? : CandidateEvent → Option Author
  | commit author => some author
  | _ => none

end CandidateEvent

namespace CandidateBranch

variable (b : CandidateBranch)

/-- `get_reference`: the head of the branch. -/
def head (s : CandidateState) : String :=
  b.hashes.current s.commits

def step (s : CandidateState) : CandidateEvent → Option CandidateState
  | .start run plan =>
    match s.stage run.runId with
    | .absent =>
      (s.store.startRun { run with
        environment := some b.name, referenceHash := none, status := .running } plan).map
          fun store => { s with store }.enter run.runId (.running s.commits)
    | _ => none
  | .resume runId =>
    match s.stage runId with
    | .running start | .stopped start =>
      some ({ s with store := s.store.reopenRun runId }.enter runId (.running start))
    | _ => none
  | .commit author => some { s with commits := author :: s.commits }
  | .finish runId status finishedAt failedCount =>
    match s.stage runId with
    | .running start =>
      some ({ s with store := s.store.finishRun runId status finishedAt failedCount }.enter
        runId (if status = ExecutionStatus.passed then .passed start else .stopped start))
    | _ => none
  -- `bind_run_reference` asks for the head of a passed run, then stores it.
  | .readHead runId =>
    match s.stage runId with
    | .passed start => some (s.enter runId (.read start s.commits))
    | _ => none
  | .bind runId =>
    match s.stage runId with
    | .read start seen =>
      some ({ s with
        store := s.store.bindRunReferenceHash runId (b.hashes.current seen) }.enter
          runId (.bound start seen))
    | _ => none

/-- The runs and the other clients as a system. -/
def system : StepSystem CandidateState CandidateEvent where
  step := b.step

/-! ## What the gate vouches for -/

/-- The run gate passes for the run with the candidate at its head. -/
def GatePasses (s : CandidateState) (runId : String) : Prop :=
  ∃ stored, s.store.run runId = some stored ∧ ∀ input : GateInput,
    input.run = some stored.record → input.actualCandidateHash = some (b.head s) →
      input.runGate.passed = true

/-- The branch as it was when the run started. -/
def startOf (s : CandidateState) (runId : String) : Option (List Author) :=
  match s.stage runId with
  | .absent => none
  | .running start | .stopped start | .passed start => some start
  | .read start _ | .bound start _ => some start

/-- Every commit since the run started is its own. -/
def OwnCommits (s : CandidateState) (runId : String) : Prop :=
  ∃ start newer, startOf s runId = some start ∧ s.commits = newer ++ start ∧
    ∀ author ∈ newer, author = some runId

/-- The authors that committed from the start of the run until its head was read. -/
def commitsDuring (runId : String) (es : List CandidateEvent) : List Author :=
  (window (CandidateEvent.starts runId) (CandidateEvent.readsHead runId) es).filterMap
    CandidateEvent.author?

end CandidateBranch

/-! ## The stored commit of a run -/

namespace Store

/-- The commit that the store binds a run to. -/
def reference (store : Store) (runId : String) : Option String :=
  (store.run runId).bind fun stored => stored.record.referenceHash

theorem reference_startRun {store store' : Store} {run : RunRecord} {plan : StoredPlan}
    (h : store.startRun run plan = some store') (runId : String) :
    store'.reference runId =
      if run.runId = runId then run.referenceHash else store.reference runId := by
  unfold startRun at h
  split at h
  · cases h
  · cases h
    by_cases hid : run.runId = runId <;>
      simp [reference, Store.run, Table.get?_put, StoredRun.key, hid]

@[simp]
theorem reference_reopenRun (store : Store) (runId runId' : String) :
    (store.reopenRun runId).reference runId' = store.reference runId' := by
  simp only [reference, Store.run, reopenRun, Table.get?_modify]
  split
  · cases store.runs.get? runId' <;> rfl
  · rfl

@[simp]
theorem reference_finishRun (store : Store) (runId runId' : String) (status : ExecutionStatus)
    (finishedAt : String) (failedCount : Nat) :
    (store.finishRun runId status finishedAt failedCount).reference runId' =
      store.reference runId' := by
  simp only [reference, Store.run, finishRun, Table.get?_modify]
  split
  · cases store.runs.get? runId' <;> rfl
  · rfl

theorem reference_bindRunReferenceHash (store : Store) (runId runId' referenceHash : String) :
    (store.bindRunReferenceHash runId referenceHash).reference runId' =
      if runId = runId' then (store.run runId').map fun _ => referenceHash
      else store.reference runId' := by
  have hget : (store.bindRunReferenceHash runId referenceHash).run runId' =
      if runId = runId' then (store.run runId').map fun run =>
        { run with record := { run.record with referenceHash := some referenceHash } }
      else store.run runId' :=
    Table.get?_modify store.runs runId runId' _ (by intro run; rfl)
  unfold reference
  rw [hget]
  by_cases hid : runId = runId'
  · rw [if_pos hid, if_pos hid]
    cases store.run runId' <;> rfl
  · rw [if_neg hid, if_neg hid]

end Store

namespace CandidateBranch

variable {b : CandidateBranch} {es : List CandidateEvent} {e : CandidateEvent}
  {s s' : CandidateState} {runId : String} {start seen : List Author}

/-- The gate asks for a passed run that is bound to the head of the branch. -/
theorem gatePasses_iff : b.GatePasses s runId ↔
    ∃ stored, s.store.run runId = some stored ∧ stored.record.status = .passed ∧
      stored.record.failedCount = 0 ∧ stored.record.referenceHash = some (b.head s) := by
  constructor
  · rintro ⟨stored, hstored, hgate⟩
    have hpassed := hgate
      { run := some stored.record, modelRuns := [], seedRuns := [], testRuns := []
        requireDiff := false, diffPassed := none, diffRejected := none
        breakingSchemaChanges := [], allowBreakingSchema := false, expectedTargetHash := none
        actualTargetHash := none, actualCandidateHash := some (b.head s)
        schemaAudited := false, mergeCheck := none } rfl rfl
    obtain ⟨run, hrun, hstatus, hfailed, hbound⟩ := GateInput.runGate_passed_iff.1 hpassed
    obtain rfl := Option.some.inj hrun
    exact ⟨stored, hstored, hstatus, hfailed, hbound _ rfl⟩
  · rintro ⟨stored, hstored, hstatus, hfailed, hreference⟩
    refine ⟨stored, hstored, fun input hrun hactual => GateInput.runGate_passed_iff.2 ?_⟩
    refine ⟨stored.record, hrun, hstatus, hfailed, fun actual hhash => ?_⟩
    rw [hreference, ← hactual, hhash]

theorem reference_of_gatePasses (h : b.GatePasses s runId) :
    s.store.reference runId = some (b.head s) := by
  obtain ⟨stored, hstored, -, -, hreference⟩ := gatePasses_iff.1 h
  simp [Store.reference, hstored, hreference]

/-! ## What the branch holds of a run -/

/-- Nothing has happened for the run. -/
structure Unstarted (es : List CandidateEvent) (s : CandidateState) (runId : String) : Prop where
  unopened : ∀ e ∈ es, e.starts runId = false
  unread : ∀ e ∈ es, e.readsHead runId = false
  unbound : s.store.reference runId = none

/-- The run has started, and its head was not read: the branch has grown by what is
committed during the run. -/
structure OpenSince (es : List CandidateEvent) (s : CandidateState) (runId : String)
    (start : List Author) : Prop where
  opened : ∃ e ∈ es, e.starts runId = true
  unread : ∀ e ∈ es, e.readsHead runId = false
  commits : s.commits = (commitsDuring runId es).reverse ++ start
  unbound : s.store.reference runId = none

/-- The head was read when the branch had grown by that. -/
structure ReadSince (es : List CandidateEvent) (s : CandidateState) (runId : String)
    (start seen : List Author) : Prop where
  closed : WindowClosed (CandidateEvent.starts runId) (CandidateEvent.readsHead runId) es
  grown : ∃ newer, s.commits = newer ++ seen
  seen_eq : seen = (commitsDuring runId es).reverse ++ start

/-- What the branch and the store hold of a run, by its stage. -/
def Traced (b : CandidateBranch) (es : List CandidateEvent) (s : CandidateState)
    (runId : String) : BindingStage → Prop
  | .absent => Unstarted es s runId
  | .running start | .stopped start | .passed start => OpenSince es s runId start
  | .read start seen => ReadSince es s runId start seen ∧ s.store.reference runId = none
  | .bound start seen => ReadSince es s runId start seen ∧
      ∀ hash, s.store.reference runId = some hash → hash = b.hashes.current seen

theorem Unstarted.append (h : Unstarted es s runId) (hstarts : e.starts runId = false)
    (hreads : e.readsHead runId = false)
    (hunbound : s'.store.reference runId = s.store.reference runId) :
    Unstarted (es ++ [e]) s' runId where
  unopened := by simpa [hstarts, or_imp, forall_and] using h.unopened
  unread := by simpa [hreads, or_imp, forall_and] using h.unread
  unbound := hunbound.trans h.unbound

theorem OpenSince.append (h : OpenSince es s runId start) (hreads : e.readsHead runId = false)
    (hcommits : s'.commits = e.author?.toList ++ s.commits)
    (hunbound : s'.store.reference runId = s.store.reference runId) :
    OpenSince (es ++ [e]) s' runId start where
  opened := h.opened.imp fun _ he => ⟨List.mem_append_left _ he.1, he.2⟩
  unread := by simpa [hreads, or_imp, forall_and] using h.unread
  commits := by
    rw [hcommits, h.commits, commitsDuring, commitsDuring,
      Library.window_append_of_open h.opened h.unread, hreads]
    cases hauthor : e.author? <;> simp [hauthor]
  unbound := hunbound.trans h.unbound

theorem ReadSince.append (h : ReadSince es s runId start seen)
    (hcommits : s'.commits = e.author?.toList ++ s.commits) :
    ReadSince (es ++ [e]) s' runId start seen where
  closed := (h.closed.append [e]).1
  grown := by
    obtain ⟨newer, hnewer⟩ := h.grown
    exact ⟨e.author?.toList ++ newer, by rw [hcommits, hnewer, List.append_assoc]⟩
  seen_eq := by rw [commitsDuring, (h.closed.append [e]).2, ← commitsDuring, ← h.seen_eq]

theorem OpenSince.read (h : OpenSince es s runId start) (hreads : e.readsHead runId = true)
    (hcommits : s'.commits = s.commits) : ReadSince (es ++ [e]) s' runId start s.commits where
  closed := Library.windowClosed_append_of_open h.opened hreads
  grown := ⟨[], hcommits⟩
  seen_eq := by
    rw [commitsDuring, Library.window_append_of_open h.opened h.unread, hreads, if_pos rfl,
      List.append_nil, ← commitsDuring, ← h.commits]

theorem Traced.append {stage : BindingStage} (h : b.Traced es s runId stage)
    (hstarts : e.starts runId = false) (hreads : e.readsHead runId = false)
    (hcommits : s'.commits = e.author?.toList ++ s.commits)
    (hreference : s'.store.reference runId = s.store.reference runId) :
    b.Traced (es ++ [e]) s' runId stage := by
  cases stage with
  | absent => exact Unstarted.append h hstarts hreads hreference
  | running start => exact OpenSince.append h hreads hcommits hreference
  | stopped start => exact OpenSince.append h hreads hcommits hreference
  | passed start => exact OpenSince.append h hreads hcommits hreference
  | read start seen => exact ⟨h.1.append hcommits, hreference.trans h.2⟩
  | bound start seen =>
    refine ⟨h.1.append hcommits, fun hash hhash => h.2 hash ?_⟩
    rw [← hreference, hhash]

def AllTraced (b : CandidateBranch) (es : List CandidateEvent) (s : CandidateState) : Prop :=
  ∀ runId, b.Traced es s runId (s.stage runId)

theorem allTraced_initial (b : CandidateBranch) : b.AllTraced [] .initial := by
  intro runId
  exact ⟨by simp, by simp, rfl⟩

theorem AllTraced.update (h : b.AllTraced es s) {store : Store} {stage : BindingStage}
    (hself : b.Traced (es ++ [e]) ({ s with store }.enter runId stage) runId stage)
    (hother : ∀ other, other ≠ runId → e.starts other = false ∧ e.readsHead other = false ∧
      store.reference other = s.store.reference other)
    (hauthor : e.author? = none) :
    b.AllTraced (es ++ [e]) ({ s with store }.enter runId stage) := by
  intro other
  by_cases hrun : other = runId
  · subst hrun
    simpa [CandidateState.enter] using hself
  · obtain ⟨hstarts, hreads, hreference⟩ := hother other hrun
    have hstage : ({ s with store }.enter runId stage).stage other = s.stage other := by
      simp [CandidateState.enter, hrun]
    rw [hstage]
    exact (h other).append hstarts hreads (by rw [hauthor]; rfl) hreference

theorem AllTraced.step (h : b.AllTraced es s) (hstep : b.step s e = some s') :
    b.AllTraced (es ++ [e]) s' := by
  cases e with
  | start run plan =>
    simp only [CandidateBranch.step] at hstep
    split at hstep
    · next hstage =>
        obtain ⟨store, hstore, rfl⟩ := Option.map_eq_some_iff.1 hstep
        have hreference := Store.reference_startRun hstore
        have hrun := h run.runId
        rw [hstage] at hrun
        apply h.update
        · refine ⟨⟨.start run plan, by simp, by simp [CandidateEvent.starts]⟩, ?_, ?_, ?_⟩
          · simpa [CandidateEvent.readsHead, or_imp, forall_and] using hrun.unread
          · rw [commitsDuring, Library.window_append_of_unopened hrun.unopened
              (by simp [CandidateEvent.starts]) rfl]
            simp [CandidateState.enter, CandidateEvent.author?]
          · exact (hreference run.runId).trans (if_pos rfl)
        · intro other hother
          have hne : run.runId ≠ other := Ne.symm hother
          exact ⟨by simpa [CandidateEvent.starts] using hne, rfl,
            (hreference other).trans (if_neg hne)⟩
        · rfl
    · cases hstep
  | resume runId =>
    simp only [CandidateBranch.step] at hstep
    split at hstep
    · next start hstage =>
        cases hstep
        have hrun := h runId
        rw [hstage] at hrun
        apply h.update
        · exact OpenSince.append hrun rfl rfl (Store.reference_reopenRun _ _ _)
        · exact fun other _ => ⟨rfl, rfl, Store.reference_reopenRun _ _ _⟩
        · rfl
    · next start hstage =>
        cases hstep
        have hrun := h runId
        rw [hstage] at hrun
        apply h.update
        · exact OpenSince.append hrun rfl rfl (Store.reference_reopenRun _ _ _)
        · exact fun other _ => ⟨rfl, rfl, Store.reference_reopenRun _ _ _⟩
        · rfl
    · cases hstep
  | commit author =>
    cases hstep
    exact fun runId => (h runId).append rfl rfl rfl rfl
  | finish runId status finishedAt failedCount =>
    simp only [CandidateBranch.step] at hstep
    split at hstep
    · next start hstage =>
        cases hstep
        have hrun := h runId
        rw [hstage] at hrun
        apply h.update
        · split
          · exact OpenSince.append hrun rfl rfl (Store.reference_finishRun _ _ _ _ _ _)
          · exact OpenSince.append hrun rfl rfl (Store.reference_finishRun _ _ _ _ _ _)
        · exact fun other _ => ⟨rfl, rfl, Store.reference_finishRun _ _ _ _ _ _⟩
        · rfl
    · cases hstep
  | readHead runId =>
    simp only [CandidateBranch.step] at hstep
    split at hstep
    · next start hstage =>
        cases hstep
        have hrun := h runId
        rw [hstage] at hrun
        apply h.update
        · exact ⟨OpenSince.read hrun (by simp [CandidateEvent.readsHead]) rfl, hrun.unbound⟩
        · intro other hother
          exact ⟨rfl, by simpa [CandidateEvent.readsHead] using Ne.symm hother, rfl⟩
        · rfl
    · cases hstep
  | bind runId =>
    simp only [CandidateBranch.step] at hstep
    split at hstep
    · next start seen hstage =>
        cases hstep
        have hrun := h runId
        rw [hstage] at hrun
        have hreference := s.store.reference_bindRunReferenceHash runId
        apply h.update
        · refine ⟨hrun.1.append rfl, fun hash hhash => ?_⟩
          have hbound := (hreference runId _).symm.trans hhash
          rw [if_pos rfl] at hbound
          obtain ⟨-, -, rfl⟩ := Option.map_eq_some_iff.1 hbound
          rfl
        · intro other hother
          exact ⟨rfl, rfl, (hreference other _).trans (if_neg (Ne.symm hother))⟩
        · rfl
    · cases hstep

theorem allTraced_of_run (hrun : b.system.run .initial es = some s) : b.AllTraced es s := by
  have hevery : b.system.EachStep (fun _ _ => True) .initial es :=
    b.system.eachStep_of_forall (fun _ _ _ => trivial) _
  exact b.system.run_history (fun _ _ _ _ h _ hstep => h.step hstep) [] b.allTraced_initial
    hevery hrun

/-- A run whose gate passes was bound when the branch was as it is now. -/
theorem bound_of_gatePasses (h : b.AllTraced es s) (hgate : b.GatePasses s runId) :
    ∃ start, startOf s runId = some start ∧
      s.commits = (commitsDuring runId es).reverse ++ start := by
  have hreference := reference_of_gatePasses hgate
  have hrun := h runId
  unfold startOf
  cases hstage : s.stage runId with
  | absent =>
    rw [hstage] at hrun
    simp [hrun.unbound] at hreference
  | running start =>
    rw [hstage] at hrun
    simp [hrun.unbound] at hreference
  | stopped start =>
    rw [hstage] at hrun
    simp [hrun.unbound] at hreference
  | passed start =>
    rw [hstage] at hrun
    simp [hrun.unbound] at hreference
  | read start seen =>
    rw [hstage] at hrun
    simp [hrun.2] at hreference
  | bound start seen =>
    rw [hstage] at hrun
    obtain ⟨⟨-, ⟨newer, hnewer⟩, hseen⟩, hbound⟩ := hrun
    have hhead := hbound _ hreference
    rw [head, hnewer] at hhead
    obtain rfl := Stamps.eq_nil_of_current_eq hhead
    exact ⟨start, rfl, by rw [hnewer, List.nil_append, hseen]⟩

/-- A run whose gate passes at the head produced every commit since it started, exactly
when no one else committed between its start and the reading of the head. -/
theorem ownCommits_iff (b : CandidateBranch) {es : List CandidateEvent} {s : CandidateState}
    {runId : String} (hrun : b.system.run .initial es = some s)
    (hgate : b.GatePasses s runId) :
    OwnCommits s runId ↔ ∀ author ∈ commitsDuring runId es, author = some runId := by
  obtain ⟨start, hstart, hcommits⟩ := bound_of_gatePasses (allTraced_of_run hrun) hgate
  constructor
  · rintro ⟨other, newer, hother, hnewer, hown⟩ author hauthor
    rw [hstart] at hother
    obtain rfl := Option.some.inj hother
    apply hown
    rw [hcommits] at hnewer
    rw [← List.append_cancel_right hnewer]
    exact List.mem_reverse.2 hauthor
  · intro hown
    exact ⟨start, _, hstart, hcommits, fun author hauthor =>
      hown author (List.mem_reverse.1 hauthor)⟩

/-! ## Runs of one candidate -/

def pullRequest : CandidateBranch where
  name := "ci/pr-1"
  hashes := .tally

def nightly : RunRecord where
  runId := "nightly"
  planId := "plan"
  environment := none
  referenceHash := none
  startedAt := "2026-01-01T00:00:00.000000000Z"
  finishedAt := none
  status := .running
  modelCount := 1
  failedCount := 0

def nightlyPlan : StoredPlan where
  planId := "plan"
  environment := some "ci/pr-1"
  models := []
  seeds := []
  tests := []

/-- The run passes and is bound, alone on the branch but for these commits in between. -/
def nightlyRun (others : List Author) : List CandidateEvent :=
  [.start nightly nightlyPlan, .commit (some "nightly")] ++ others.map .commit ++
    [.finish "nightly" .passed "2026-01-02T00:00:00.000000000Z" 0, .readHead "nightly",
      .bind "nightly"]

theorem ownCommits_iff_nightly : ∃ s,
    pullRequest.system.run .initial (nightlyRun []) = some s ∧
      pullRequest.GatePasses s "nightly" ∧
      (OwnCommits s "nightly" ↔
        ∀ author ∈ commitsDuring "nightly" (nightlyRun []), author = some "nightly") := by
  refine ⟨_, rfl, ?_, pullRequest.ownCommits_iff rfl ?_⟩
  · exact gatePasses_iff.2 ⟨_, rfl, rfl, rfl, rfl⟩
  · exact gatePasses_iff.2 ⟨_, rfl, rfl, rfl, rfl⟩

/-- Another client commits before the head is read, and the gate passes for its commit. -/
theorem foreign_commit_bound : ∃ s,
    pullRequest.system.run .initial (nightlyRun [none]) = some s ∧
      pullRequest.GatePasses s "nightly" ∧ ¬OwnCommits s "nightly" := by
  refine ⟨_, rfl, gatePasses_iff.2 ⟨_, rfl, rfl, rfl, rfl⟩, ?_⟩
  rintro ⟨start, newer, hstart, hnewer, hown⟩
  obtain rfl := Option.some.inj hstart
  have hcommits : ([none, some "nightly"] : List Author) = newer ++ [] := hnewer
  rw [List.append_nil] at hcommits
  have hforeign := hown none (by simp [← hcommits])
  cases hforeign

end CandidateBranch
end PhloTransform.Engine
