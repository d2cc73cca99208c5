import PhloTransform.Engine.Execution
import PhloTransform.Library.StampedHistory

/-!
# Concurrent writers of one table

Several runs, in one environment or in several, build the same physical table.  A run
writes the table, asks the adapter for the identity of what is there, asks again at its
end, and records the version it built with the identity it was told first.  Each of these
is a step of its own, and the steps of the runs interleave in any order.

Main results:

- Theorem `Planning.reuse_rests_on`: a plan that does not build a model rests on a record
  of its version that the live table does not contradict.
- Theorem `SharedTable.cache_never_poisoned`: where each run asks for the identity while the table
  still holds its own version, every record names a write of its version and no plan takes
  the table of one version for another.
-/

namespace PhloTransform.Engine

open Core (CompiledModel Relation)
open Library (StepSystem Stamps Table)

/-! ## What reuse rests on -/

namespace Planning

variable [Rfc3339] {p : Planning} {store : Store} {exist : Relation → Bool}
  {model : CompiledModel}
variable {record : MaterializedRecord}

theorem mem_rows_of_materialized (hstore : p.store = some store) {modelId : String}
    (h : p.materialized modelId = some record) : record ∈ store.modelVersions.rows := by
  unfold materialized at h
  split at h
  · cases h
  · rw [hstore, Option.bind_some, materializedScope_apply] at h
    rcases mergeOne_cases h with ⟨hown, -⟩ | ⟨hfolded, -⟩
    · exact List.mem_of_find?_eq_some hown
    · obtain ⟨folded, -, hrecord⟩ := Option.bind_eq_some_iff.1 hfolded
      exact List.mem_of_find?_eq_some hrecord

theorem mem_byHash (hstore : p.store = some store) {versionHash : String}
    (h : record ∈ p.byHash exist versionHash) :
    record ∈ store.modelVersions.rows ∧ record.version.hash = versionHash := by
  simp only [byHash, hstore] at h
  split at h
  · simpa [Store.materializedByHash] using h
  · cases h

theorem liveOutput_of_wants (hok : p.compilation.isOk = true) (hmodel : model ∈ p.orderModels)
    (hwants : p.wantsOutput exist model = true) :
    p.liveOutput exist model.target.display = p.view.outputIdentity model.target := by
  rw [liveOutput_eq hok exist hmodel, if_pos hwants]

/-- A plan that does not build a model rests on a record of its version, which the live
table does not contradict. -/
theorem reuse_rests_on (hstore : p.store = some store) (hmodel : model ∈ p.orderModels)
    (h : (p.decideModel exist model).action = .skip ∨
      (p.decideModel exist model).action = .cached) :
    ∃ record ∈ store.modelVersions.rows, record.version.hash = model.version.hash ∧
      (record.outputIdentity.isSome = true →
        p.view.outputIdentity model.target = record.outputIdentity) ∧
      ((p.decideModel exist model).action = .cached → record.outputIdentity.isSome = true ∧
        (p.decideModel exist model).reuse = some (.fromRecord record)) := by
  have hopen : p.blocked = false := by
    cases hblocked : p.blocked with
    | true => simp [decideModel, hblocked] at h
    | false => rfl
  have hok : p.compilation.isOk = true := by simpa [blocked] using hopen
  simp only [decideModel, hopen, Bool.false_eq_true, if_false] at h ⊢
  rcases h with hskip | hcached
  · obtain ⟨-, -, record, hcurrent, -, -, hlive, hversion⟩ := Planner.decide_skip_iff.1 hskip
    refine ⟨record, mem_rows_of_materialized hstore hcurrent, hversion, fun hsome => ?_, ?_⟩
    · have hwants : p.wantsOutput exist model = true := by
        have hrecord : p.materialized model.id.logicalName = some record := hcurrent
        simp [wantsOutput, hrecord, hsome]
      rw [← liveOutput_of_wants hok hmodel hwants]
      exact hlive hsome
    · intro hcached
      rw [hskip] at hcached
      cases hcached
  · obtain ⟨hexists, record, hadoptable, hreuse, hsource⟩ := Planner.cached_of_decide hcached
    have hlive : p.wantsOutput exist model = true →
        p.view.outputIdentity model.target = record.outputIdentity := fun hwants => by
      rw [← liveOutput_of_wants hok hmodel hwants]
      exact hadoptable.live
    rcases hsource with ⟨hnone, hmem, henv, hslot⟩ | ⟨hcurrent, hversion, -⟩
    · obtain ⟨hrow, hversion⟩ := mem_byHash hstore hmem
      refine ⟨record, hrow, hversion, fun hsome => hlive ?_, fun _ => ⟨hadoptable.identity,
        hreuse⟩⟩
      have hnone : p.materialized model.id.logicalName = none := hnone
      have hexists : p.existsAt exist model.target.display = true := hexists
      simp only [wantsOutput, hnone, hexists, Bool.true_and, List.any_eq_true]
      refine ⟨record, hmem, ?_⟩
      simp [isCandidate, henv, hadoptable.adapter, hsome, hslot]
    · refine ⟨record, mem_rows_of_materialized hstore hcurrent, hversion,
        fun hsome => hlive ?_, fun _ => ⟨hadoptable.identity, hreuse⟩⟩
      have hrecord : p.materialized model.id.logicalName = some record := hcurrent
      simp [wantsOutput, hrecord, hsome]

end Planning

/-! ## Runs over one table -/

/-- A run, and the model of it that builds the table. -/
structure TableWriter where
  execution : Execution
  model : CompiledModel

/-- How far a run has come with the table. -/
inductive WriterStage where
  | idle
  | building
  | written
  /-- The result holds the identity read right after the build. -/
  | captured (identity : Option String)
  | confirmed (identity : Option String)
  | adopting (reuse : CacheSource)
  | verified (reuse : CacheSource)
  | finished
deriving DecidableEq

/-- Runs that build one table.  The adapter's identity of the table changes with every
write. -/
structure SharedTable (Run : Type) where
  target : Relation
  identities : Stamps String
  writer : Run → TableWriter

/-- The writes of the table, the latest first, and what the runs and the store hold. -/
structure TableState (Run : Type) where
  writes : List Run
  stage : Run → WriterStage
  store : Store

/-- The steps of the runs. -/
inductive TableEvent (Run : Type) where
  | build (run : Run)
  | planAdoption (run : Run) (planning : Planning) (exist : Relation → Bool)
  /-- A statement of the run takes effect, also one of an attempt that was given up. -/
  | write (run : Run)
  | succeed (run : Run)
  | capture (run : Run) (answered : Bool)
  | confirm (run : Run) (answered : Bool)
  | record (run : Run) (finishedAt : String)
  | verify (run : Run) (answered : Bool)
  | adopt (run : Run)

def TableState.initial (Run : Type) : TableState Run where
  writes := []
  stage := fun _ => .idle
  store := .empty

namespace SharedTable

variable {Run : Type} (t : SharedTable Run)

/-- The identity that the adapter reports for the table as it is. -/
def live (s : TableState Run) : Option String :=
  match s.writes with
  | [] => none
  | last :: older => some (t.identities.current (last :: older))

/-- A question for the identity of the table, which the adapter may leave unanswered. -/
def ask (s : TableState Run) (answered : Bool) : Option String :=
  if answered then t.live s else none

/-- A plan made over the store and the table as they are. -/
def planningAt (s : TableState Run) (p : Planning) : Planning :=
  { p with
    store := some s.store
    view := { p.view with
      outputIdentity := fun relation =>
        if relation = t.target then t.live s else p.view.outputIdentity relation } }

def advance [DecidableEq Run] (s : TableState Run) (run : Run) (stage : WriterStage) :
    TableState Run :=
  { s with stage := Function.update s.stage run stage }

def versionHash (run : Run) : String :=
  (t.writer run).model.version.hash

/-- The version whose write the table holds. -/
def lastVersion (s : TableState Run) : Option String :=
  s.writes.head?.map t.versionHash

section Steps

variable [DecidableEq Run] [Rfc3339]

/-- `record_materialized` at the end of a run, and at an adoption. -/
def recordOutput (s : TableState Run) (run : Run) (identity : Option String)
    (runId materializedAt : String) : TableState Run :=
  let record := (t.writer run).execution.materializedRecord (t.writer run).model identity runId
    materializedAt
  advance { s with store := s.store.recordMaterialized record } run .finished

def step (s : TableState Run) : TableEvent Run → Option (TableState Run)
  | .build run =>
    match s.stage run with
    | .idle => some (advance s run .building)
    | _ => none
  | .planAdoption run p exist =>
    match s.stage run with
    | .idle =>
      if (t.writer run).model ∈ (t.planningAt s p).orderModels ∧
          (t.writer run).model.target = t.target ∧
          ((t.planningAt s p).decideModel exist (t.writer run).model).action = .cached then
        ((t.planningAt s p).decideModel exist (t.writer run).model).reuse.map
          fun reuse => advance s run (.adopting reuse)
      else none
    | _ => none
  | .write run =>
    match s.stage run with
    | .idle => none
    | _ => some { s with writes := run :: s.writes }
  | .succeed run =>
    match s.stage run with
    | .building => some (advance s run .written)
    | _ => none
  | .capture run answered =>
    match s.stage run with
    | .written => some (advance s run (.captured (t.ask s answered)))
    | _ => none
  | .confirm run answered =>
    match s.stage run with
    | .captured identity =>
      if identity.isSome ∧ t.ask s answered ≠ identity then some (advance s run .finished)
      else some (advance s run (.confirmed identity))
    | _ => none
  | .record run finishedAt =>
    match s.stage run with
    | .confirmed identity => some (t.recordOutput s run identity
        (t.writer run).execution.runId finishedAt)
    | _ => none
  | .verify run answered =>
    match s.stage run with
    | .adopting reuse =>
      if t.ask s answered = some reuse.outputIdentity then
        some (advance s run (.verified reuse))
      else some (advance s run .building)
    | _ => none
  | .adopt run =>
    match s.stage run with
    | .verified reuse => some (t.recordOutput s run (some reuse.outputIdentity) reuse.runId
        reuse.materializedAt)
    | _ => none

def system : StepSystem (TableState Run) (TableEvent Run) where
  step := t.step

end Steps

/-! ## What is recorded -/

/-- A write of this version left this identity. -/
def Names (s : TableState Run) (versionHash identity : String) : Prop :=
  ∃ run, t.identities.Wrote s.writes identity run ∧ t.versionHash run = versionHash

/-- Every recorded identity was left by a write of the recorded version. -/
def PairsSound (s : TableState Run) : Prop :=
  ∀ record ∈ s.store.modelVersions.rows, ∀ identity, record.outputIdentity = some identity →
    t.Names s record.version.hash identity

/-- No plan takes the table that one version wrote for the output of another. -/
def DecisionsSound [Rfc3339] (s : TableState Run) : Prop :=
  ∀ p exist, ∀ model ∈ (t.planningAt s p).orderModels, model.target = t.target →
    ((t.planningAt s p).decideModel exist model).action = .skip ∨
        ((t.planningAt s p).decideModel exist model).action = .cached →
      t.lastVersion s = some model.version.hash

/-- When a run asks for the identity of what it wrote, it is answered, and the table still
holds the run's version. -/
def OwnAtCapture (s : TableState Run) : TableEvent Run → Prop
  | .capture run answered => answered = true ∧ t.lastVersion s = some (t.versionHash run)
  | _ => True

def StageSound (s : TableState Run) (run : Run) : WriterStage → Prop
  | .captured identity => ∃ live, identity = some live ∧ t.Names s (t.versionHash run) live
  | .confirmed identity => ∃ live, identity = some live ∧ t.Names s (t.versionHash run) live
  | .adopting reuse => t.Names s (t.versionHash run) reuse.outputIdentity
  | .verified reuse => t.Names s (t.versionHash run) reuse.outputIdentity
  | _ => True

/-- Every record and every run in progress names a write of its own version. -/
structure Sound (s : TableState Run) : Prop where
  rows : ∀ record ∈ s.store.modelVersions.rows, ∃ identity,
    record.outputIdentity = some identity ∧ t.Names s record.version.hash identity
  stages : ∀ run, t.StageSound s run (s.stage run)

/-! ## What the live table tells -/

variable {t} {s : TableState Run} {run : Run}

theorem Names.write {versionHash identity : String} (h : t.Names s versionHash identity)
    (run : Run) : t.Names { s with writes := run :: s.writes } versionHash identity := by
  obtain ⟨writer, hwrote, hversion⟩ := h
  exact ⟨writer, hwrote.append [run], hversion⟩

theorem exists_live {versionHash : String} (h : t.lastVersion s = some versionHash) :
    ∃ identity, t.live s = some identity ∧ t.Names s versionHash identity := by
  unfold lastVersion at h
  unfold live Names
  cases hwrites : s.writes with
  | nil => simp [hwrites] at h
  | cons last older =>
    rw [hwrites] at h
    exact ⟨_, rfl, last, Stamps.wrote_current last older, Option.some.inj h⟩

theorem lastVersion_of_live {versionHash identity : String} (hlive : t.live s = some identity)
    (h : t.Names s versionHash identity) : t.lastVersion s = some versionHash := by
  obtain ⟨writer, hwrote, hversion⟩ := h
  unfold live at hlive
  cases hwrites : s.writes with
  | nil => simp [hwrites] at hlive
  | cons last older =>
    rw [hwrites] at hlive hwrote
    obtain rfl := Option.some.inj hlive
    simp [lastVersion, hwrites, Stamps.head?_of_wrote_current hwrote, hversion]

/-! ## Every record names a write of its version -/

theorem sound_initial : t.Sound (.initial Run) where
  rows := by simp [TableState.initial, Store.empty, Library.Table.empty]
  stages := fun _ => trivial

theorem stageSound_congr {s' : TableState Run} (h : s'.writes = s.writes) {stage : WriterStage} :
    t.StageSound s' run stage ↔ t.StageSound s run stage := by
  cases stage <;> simp [StageSound, Names, h]

theorem Sound.advance [DecidableEq Run] (h : t.Sound s) {stage : WriterStage}
    (hstage : t.StageSound s run stage) : t.Sound (advance s run stage) where
  rows := h.rows
  stages := by
    intro other
    apply (stageSound_congr (s := s) rfl).2
    by_cases hother : other = run
    · subst hother
      simpa [SharedTable.advance] using hstage
    · simpa [SharedTable.advance, hother] using h.stages other

theorem StageSound.write {stage : WriterStage} (h : t.StageSound s run stage) (other : Run) :
    t.StageSound { s with writes := other :: s.writes } run stage := by
  cases stage with
  | captured identity => exact h.imp fun live hlive => ⟨hlive.1, hlive.2.write other⟩
  | confirmed identity => exact h.imp fun live hlive => ⟨hlive.1, hlive.2.write other⟩
  | adopting reuse => exact Names.write h other
  | verified reuse => exact Names.write h other
  | _ => trivial

theorem Sound.write (h : t.Sound s) (run : Run) :
    t.Sound { s with writes := run :: s.writes } where
  rows record hrecord :=
    (h.rows record hrecord).imp fun _ hidentity => ⟨hidentity.1, hidentity.2.write run⟩
  stages other := (h.stages other).write run

theorem outputIdentity_planningAt (p : Planning) :
    (t.planningAt s p).view.outputIdentity t.target = t.live s := by
  simp [planningAt]

theorem Sound.pairs (h : t.Sound s) : t.PairsSound s := by
  intro record hrecord identity hidentity
  obtain ⟨recorded, hrecorded, hnames⟩ := h.rows record hrecord
  rw [hidentity] at hrecorded
  exact Option.some.inj hrecorded ▸ hnames

section Steps

variable [Rfc3339]

theorem Sound.decisions (h : t.Sound s) : t.DecisionsSound s := by
  intro p exist model hmodel htarget hreuse
  obtain ⟨record, hrecord, hversion, hlive, -⟩ :=
    Planning.reuse_rests_on (p := t.planningAt s p) rfl hmodel hreuse
  obtain ⟨identity, hidentity, hnames⟩ := h.rows record hrecord
  have hview : t.live s = some identity := by
    rw [← outputIdentity_planningAt p, ← htarget, ← hidentity]
    exact hlive (by simp [hidentity])
  rw [← hversion]
  exact lastVersion_of_live hview hnames

/-- An adopted output was written in the version that adopts it. -/
theorem Sound.names_of_reuse (h : t.Sound s) {p : Planning} {exist : Relation → Bool}
    {model : CompiledModel} (hmodel : model ∈ (t.planningAt s p).orderModels)
    (hcached : ((t.planningAt s p).decideModel exist model).action = .cached) {reuse : CacheSource}
    (hreuse : ((t.planningAt s p).decideModel exist model).reuse = some reuse) :
    t.Names s model.version.hash reuse.outputIdentity := by
  obtain ⟨record, hrecord, hversion, -, hadopt⟩ :=
    Planning.reuse_rests_on (p := t.planningAt s p) rfl hmodel (Or.inr hcached)
  obtain ⟨-, hsource⟩ := hadopt hcached
  obtain ⟨identity, hidentity, hnames⟩ := h.rows record hrecord
  rw [hreuse] at hsource
  obtain rfl := Option.some.inj hsource
  rw [← hversion]
  simpa [CacheSource.fromRecord, hidentity] using hnames

variable [DecidableEq Run]

theorem Sound.recordOutput (h : t.Sound s) {identity : String}
    (hidentity : t.Names s (t.versionHash run) identity) (runId materializedAt : String) :
    t.Sound (t.recordOutput s run (some identity) runId materializedAt) := by
  have hstored : t.Sound { s with
      store := s.store.recordMaterialized ((t.writer run).execution.materializedRecord
        (t.writer run).model (some identity) runId materializedAt) } := by
    refine ⟨fun record hrecord => ?_, fun other => (stageSound_congr rfl).2 (h.stages other)⟩
    rcases Table.mem_of_mem_upsertWhen hrecord with rfl | hold
    · exact ⟨identity, rfl, hidentity⟩
    · exact h.rows record hold
  exact hstored.advance trivial

theorem Sound.step (h : t.Sound s) {e : TableEvent Run} {s' : TableState Run}
    (hown : t.OwnAtCapture s e) (hstep : t.step s e = some s') : t.Sound s' := by
  cases e with
  | build run =>
    simp only [SharedTable.step] at hstep
    split at hstep
    · cases hstep
      exact h.advance trivial
    · cases hstep
  | planAdoption run p exist =>
    simp only [SharedTable.step] at hstep
    split at hstep
    · split at hstep
      · next hplanned =>
          obtain ⟨reuse, hreuse, rfl⟩ := Option.map_eq_some_iff.1 hstep
          exact h.advance (h.names_of_reuse hplanned.1 hplanned.2.2 hreuse)
      · cases hstep
    · cases hstep
  | write run =>
    simp only [SharedTable.step] at hstep
    split at hstep
    · cases hstep
    · cases hstep
      exact h.write run
  | succeed run =>
    simp only [SharedTable.step] at hstep
    split at hstep
    · cases hstep
      exact h.advance trivial
    · cases hstep
  | capture run answered =>
    simp only [SharedTable.step] at hstep
    split at hstep
    · cases hstep
      obtain ⟨rfl, hlast⟩ := hown
      apply h.advance
      exact exists_live hlast
    · cases hstep
  | confirm run answered =>
    simp only [SharedTable.step] at hstep
    split at hstep
    · next identity hstage =>
        have hcaptured := h.stages run
        rw [hstage] at hcaptured
        split at hstep
        · cases hstep
          exact h.advance trivial
        · cases hstep
          exact h.advance hcaptured
    · cases hstep
  | record run finishedAt =>
    simp only [SharedTable.step] at hstep
    split at hstep
    · next identity hstage =>
        have hconfirmed := h.stages run
        rw [hstage] at hconfirmed
        obtain ⟨live, rfl, hnames⟩ := hconfirmed
        cases hstep
        exact h.recordOutput hnames _ _
    · cases hstep
  | verify run answered =>
    simp only [SharedTable.step] at hstep
    split at hstep
    · next reuse hstage =>
        have hadopting := h.stages run
        rw [hstage] at hadopting
        split at hstep
        · cases hstep
          exact h.advance hadopting
        · cases hstep
          exact h.advance trivial
    · cases hstep
  | adopt run =>
    simp only [SharedTable.step] at hstep
    split at hstep
    · next reuse hstage =>
        have hverified := h.stages run
        rw [hstage] at hverified
        cases hstep
        exact h.recordOutput hverified _ _
    · cases hstep

/-- Where each run asks for the identity while the table still holds its own version, every
record names a write of its version and no plan takes the table of one version for the
output of another. -/
theorem cache_never_poisoned (t : SharedTable Run) {es : List (TableEvent Run)}
    {s : TableState Run} (hrun : t.system.run (.initial Run) es = some s)
    (hown : t.system.EachStep t.OwnAtCapture (.initial Run) es) :
    t.PairsSound s ∧ t.DecisionsSound s := by
  have hsound : t.Sound s :=
    StepSystem.EachStep.invariant t.system (fun _ _ _ h hown hstep => h.step hown hstep)
      sound_initial hown hrun
  exact ⟨hsound.pairs, hsound.decisions⟩

end Steps

/-! ## Two runs over one table -/

/-- The table `raw`, compiled in some version. -/
def rawAt (hash : String) : CompiledModel :=
  { Core.Sample.rawModel with version := { (default : Core.ModelVersion) with hash := hash } }

def rawWorkspace (hash : String) : Core.Compilation where
  models := [rawAt hash]
  models_nodup := by simp
  tests := []
  seeds := []
  seeds_nodup := List.nodup_nil
  defaults := { catalog := none, schema := none }
  isOk := true
  targets_nodup := fun _ => by simp
  acyclic := fun _ => Core.not_cyclic_of_rank (fun _ => 0) (by
    intro model hmodel dependency hdependency
    obtain rfl := List.mem_singleton.1 hmodel
    exact absurd hdependency List.not_mem_nil)
  target_catalog := by
    intro model hmodel
    obtain rfl := List.mem_singleton.1 hmodel
    rfl
  target_table := by
    intro model hmodel
    obtain rfl := List.mem_singleton.1 hmodel
    change '.' ∉ "raw".toList
    decide

/-- A run that builds the table in an environment. -/
def rawWriter (hash : String) (environment : Option String) : TableWriter where
  model := rawAt hash
  execution :=
    { compilation := rawWorkspace hash
      plan :=
        { id := "", environment := environment, adapter := "trino", blocked := false
          seeds := [], models := [], models_nodup := by simp, tests := [] }
      options := { environment := environment, concurrency := 1, runTests := true
                   failFast := false }
      adapterName := "trino"
      runId := hash
      prior := .none
      resume := false
      compiled := by simp }

/-- Two workspaces whose runs build the table in environments of their own. -/
def sharedRaw : SharedTable Bool where
  target := Core.Sample.rawModel.target
  identities := .tally
  writer run := if run then rawWriter "new" (some "dev") else rawWriter "old" none

def oneAfterTheOther : List (TableEvent Bool) :=
  [.build false, .build true, .write false, .succeed false, .capture false true,
    .confirm false true, .record false "2026-01-01T00:00:00.000000000Z", .write true,
    .succeed true, .capture true true]

/-- The new version is written before the old one's run asks for its identity. -/
def writtenInBetween : List (TableEvent Bool) :=
  [.build false, .build true, .write false, .succeed false, .write true,
    .capture false true, .confirm false true, .record false "2026-01-01T00:00:00.000000000Z"]

instance (t : SharedTable Run) (s : TableState Run) :
    ∀ e : TableEvent Run, Decidable (t.OwnAtCapture s e)
  | .capture _ _ => inferInstanceAs (Decidable (_ ∧ _))
  | .build _ | .planAdoption .. | .write _ | .succeed _ | .confirm .. | .record .. | .verify ..
  | .adopt _ => .isTrue trivial

theorem cache_never_poisoned_oneAfterTheOther :
    ∃ s, (@system Bool sharedRaw _ januaryClock).run (.initial Bool) oneAfterTheOther = some s ∧
      sharedRaw.PairsSound s ∧ @DecisionsSound Bool sharedRaw januaryClock s := by
  let := januaryClock
  have hown : sharedRaw.system.EachStep sharedRaw.OwnAtCapture (.initial Bool)
      oneAfterTheOther := by
    decide +kernel
  exact ⟨_, rfl, sharedRaw.cache_never_poisoned rfl hown⟩

/-- The identity that is recorded for the old version is that of the new one's write. -/
theorem old_version_recorded_for_new_table :
    ∃ s, (@system Bool sharedRaw _ januaryClock).run (.initial Bool) writtenInBetween = some s ∧
      ¬sharedRaw.PairsSound s := by
  let := januaryClock
  refine ⟨_, rfl, fun h => ?_⟩
  have hnames := h _ (List.mem_singleton.2 rfl) _ rfl
  have hlast := lastVersion_of_live rfl hnames
  exact absurd hlast (by decide)

end SharedTable
end PhloTransform.Engine
