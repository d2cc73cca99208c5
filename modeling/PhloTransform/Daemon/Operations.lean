import PhloTransform.Library.Table

/-!
# The operation registry

The registry keeps every submitted operation under its id, the idempotency keys with
the operations they were submitted with, and the gate that lets one
warehouse-mutating operation run at a time.  Each transition of an operation is also
written to a journal, from which the registry is rebuilt when the daemon starts.

This module holds what one call does in memory and how the journal's records are
folded back; the modules that import it add the journal, the daemon's threads and its
restarts.

Main results:

- Theorem `recover_record`: after a recovery an operation is what its last journal
  line says, or `interrupted` where that line is not terminal.
- Theorem `recover_key`: an idempotency key names the operation of the last line that
  carries the key.
-/

namespace PhloTransform.Daemon

open Library

/-! ## Records -/

inductive OperationStatus where
  | queued
  | running
  | succeeded
  | failed
  | cancelled
deriving DecidableEq, Repr

def OperationStatus.terminal : OperationStatus → Bool
  | .succeeded | .failed | .cancelled => true
  | .queued | .running => false

structure OperationError where
  code : String
  message : String
deriving DecidableEq, Repr

/-- The kinds that the API accepts. -/
inductive Kind where
  | run
  | resume
  | retryFailed
  | test
  | promote
  | reload
deriving DecidableEq, Repr

def Kind.asStr : Kind → String
  | .run => "run"
  | .resume => "resume"
  | .retryFailed => "retry_failed"
  | .test => "test"
  | .promote => "promote"
  | .reload => "reload"

/-- Kinds that write to the warehouse or mutate branch state. -/
def mutating : List String :=
  ["run", "resume", "retry_failed", "promote"]

/-- JSON values, as far as the registry handles them. -/
class Json (Value : Type) where
  /-- What a field reads back as that was written with the value. -/
  reread : Value → Value
  /-- The same for an optional field: a `null` reads back as an absent field. -/
  rereadOption : Value → Option Value
  digest : String → Value → String

/-- `null` and the texts. -/
inductive Scalar where
  | null
  | text (s : String)
deriving DecidableEq, Repr

instance : Json Scalar where
  reread := id
  rereadOption
    | .null => none
    | .text s => some (.text s)
  digest kind echo := match echo with
    | .null => kind
    | .text s => kind ++ s

variable {Value : Type}

/-- The validated parameters of a submission. -/
structure Params (Value : Type) where
  kind : Kind
  echo : Value

/-- The canonical fingerprint of a request. -/
def requestHash [Json Value] (params : Params Value) : String :=
  Json.digest params.kind.asStr params.echo

structure OperationRecord (Value : Type) where
  id : String
  kind : String
  status : OperationStatus
  submittedAt : String
  startedAt : Option String
  finishedAt : Option String
  params : Value
  idempotencyKey : Option String
  requestHash : Option String
  result : Option Value
  error : Option OperationError
deriving DecidableEq

namespace OperationRecord

/-- The record that a submission queues. -/
def queue [Json Value] (params : Params Value) (key : Option String) (id now : String) :
    OperationRecord Value where
  id := id
  kind := params.kind.asStr
  status := .queued
  submittedAt := now
  startedAt := none
  finishedAt := none
  params := params.echo
  idempotencyKey := key
  requestHash := some (Daemon.requestHash params)
  result := none
  error := none

def start (record : OperationRecord Value) (now : String) : OperationRecord Value :=
  { record with status := .running, startedAt := some now }

/-- Result on success, error on failure, cancelled when the cancel flag was observed. -/
def finish (record : OperationRecord Value) (cancelled : Bool)
    (outcome : Except OperationError Value) (now : String) : OperationRecord Value :=
  match outcome with
  | .ok result =>
    { record with
      status := if cancelled then .cancelled else .succeeded
      result := some result
      finishedAt := some now }
  | .error error =>
    { record with
      status := if cancelled then .cancelled else .failed
      error := some (if cancelled then { error with code := "cancelled" } else error)
      finishedAt := some now }

/-- The error of an operation that was in flight when the daemon stopped. -/
def interruption : OperationError where
  code := "interrupted"
  message := "the daemon restarted while this operation was in flight"

def interrupt (record : OperationRecord Value) (now : String) : OperationRecord Value :=
  { record with
    status := .failed
    error := some interruption
    finishedAt := some now }

/-- The record that its journal line reads back as. -/
def journaled [Json Value] (record : OperationRecord Value) : OperationRecord Value :=
  { record with
    params := Json.reread record.params
    result := record.result.bind Json.rereadOption }

end OperationRecord

/-! ## The registry in memory -/

structure OperationEntry (Value : Type) where
  record : OperationRecord Value
  cancelled : Bool

def OperationEntry.id (entry : OperationEntry Value) : String :=
  entry.record.id

/-- An idempotency key and the operation submitted with it. -/
structure Reservation where
  key : String
  id : String
deriving DecidableEq, Repr

structure OperationStore (Value : Type) where
  ops : Table (@OperationEntry.id Value)
  idempotent : Table Reservation.key
  busy : Bool

/-- What a submission produced. -/
inductive SubmitOutcome (Value : Type) where
  | new (record : OperationRecord Value)
  | replayed (record : OperationRecord Value)
  | conflict (record : OperationRecord Value)
  | busy

namespace OperationStore

def new : OperationStore Value where
  ops := Table.empty
  idempotent := Table.empty
  busy := false

def get (store : OperationStore Value) (id : String) : Option (OperationRecord Value) :=
  (store.ops.get? id).map (·.record)

def isCancelled (store : OperationStore Value) (id : String) : Bool :=
  ((store.ops.get? id).map (·.cancelled)).getD false

/-- The operation that a key is reserved for. -/
def reserved (store : OperationStore Value) (key : String) : Option String :=
  (store.idempotent.get? key).map (·.id)

/-- The answer to a resubmission of a key, if the key is reserved. -/
def lookup (store : OperationStore Value) (key hash : String) :
    Option (SubmitOutcome Value) :=
  ((store.reserved key).bind store.get).map fun existing =>
    if existing.requestHash = none ∨ existing.requestHash = some hash then
      .replayed existing
    else
      .conflict existing

/-- Try to take the mutating-operation gate: `none` when the kind is not gated. -/
def acquire (store : OperationStore Value) (kind : String) :
    Option Bool × OperationStore Value :=
  if kind ∈ mutating then
    (some !store.busy, { store with busy := true })
  else
    (none, store)

def release (store : OperationStore Value) (kind : String) : OperationStore Value :=
  if kind ∈ mutating then { store with busy := false } else store

/-- Make a record visible, with a fresh cancel handle. -/
def insert (store : OperationStore Value) (record : OperationRecord Value) :
    OperationStore Value :=
  { store with ops := store.ops.put { record := record, cancelled := false } }

def reserve (store : OperationStore Value) (key id : String) : OperationStore Value :=
  { store with idempotent := store.idempotent.put { key := key, id := id } }

def replace (store : OperationStore Value) (entry : OperationEntry Value) :
    OperationStore Value :=
  { store with ops := store.ops.put entry }

def cancel (store : OperationStore Value) (id : String) : OperationStore Value :=
  match store.ops.get? id with
  | some entry =>
    if entry.record.status.terminal then store
    else store.replace { entry with cancelled := true }
  | none => store

/-- Start a queued operation; with the record to journal. -/
def markRunning (store : OperationStore Value) (id now : String) :
    Option (OperationRecord Value × OperationStore Value) :=
  (store.ops.get? id).bind fun entry =>
    if entry.record.status = .queued then
      let record := entry.record.start now
      some (record, store.replace { entry with record := record })
    else
      none

/-- Finish an operation; with the record to journal. -/
def finish (store : OperationStore Value) (id : String)
    (outcome : Except OperationError Value) (now : String) :
    Option (OperationRecord Value × OperationStore Value) :=
  (store.ops.get? id).map fun entry =>
    let record := entry.record.finish entry.cancelled outcome now
    (record, store.replace { entry with record := record })

end OperationStore

/-! ## Recovery -/

/-- The registry that the journal's lines are folded into, and the records that the
recovery appends to the journal. -/
structure Recovery (Value : Type) where
  store : OperationStore Value
  interrupted : List (OperationRecord Value)

/-- A line as it is restored: an operation in flight comes back as `interrupted`. -/
def OperationRecord.restore (record : OperationRecord Value) (now : String) :
    OperationRecord Value :=
  if record.status.terminal then record else record.interrupt now

/-- Fold one line in.  The clock is read once for each operation in flight. -/
def Recovery.line (now : Nat → String) (acc : Recovery Value) (line : OperationRecord Value) :
    Recovery Value :=
  let store := match line.idempotencyKey with
    | some key => acc.store.reserve key line.id
    | none => acc.store
  let record := line.restore (now acc.interrupted.length)
  { store := store.insert record
    interrupted :=
      if line.status.terminal then acc.interrupted else acc.interrupted ++ [record] }

/-- `OperationStore::open`, up to the appends of the interrupted records. -/
def recover (now : Nat → String) (lines : List (OperationRecord Value)) : Recovery Value :=
  lines.foldl (Recovery.line now) { store := .new, interrupted := [] }

/-! ## What the calls change -/

namespace OperationRecord

variable {record : OperationRecord Value} {now : String}
variable {cancelled : Bool} {outcome : Except OperationError Value}

@[simp]
theorem id_restore : (record.restore now).id = record.id := by
  unfold restore
  split <;> rfl

@[simp]
theorem idempotencyKey_restore : (record.restore now).idempotencyKey = record.idempotencyKey := by
  unfold restore
  split <;> rfl

@[simp]
theorem requestHash_restore : (record.restore now).requestHash = record.requestHash := by
  unfold restore
  split <;> rfl

theorem terminal_restore : (record.restore now).status.terminal = true := by
  unfold restore
  split
  · assumption
  · rfl

@[simp]
theorem id_finish : (record.finish cancelled outcome now).id = record.id := by
  cases outcome <;> rfl

theorem terminal_finish : (record.finish cancelled outcome now).status.terminal = true := by
  cases outcome <;> cases cancelled <;> rfl

end OperationRecord

namespace OperationStore

variable {store : OperationStore Value} {id key : String}
variable {store' : OperationStore Value}

theorem id_of_entry {entry : OperationEntry Value} (h : store.ops.get? id = some entry) :
    entry.record.id = id := by
  have hkey : entry.id = id := Table.key_of_get? h
  exact hkey

theorem id_of_get {record : OperationRecord Value} (h : store.get id = some record) :
    record.id = id := by
  obtain ⟨entry, hentry, rfl⟩ := Option.map_eq_some_iff.1 h
  exact id_of_entry hentry

@[simp]
theorem get_new : (new : OperationStore Value).get id = none :=
  rfl

@[simp]
theorem reserved_new : (new : OperationStore Value).reserved key = none :=
  rfl

theorem get_replace (entry : OperationEntry Value) :
    (store.replace entry).get id =
      if entry.record.id = id then some entry.record else store.get id := by
  by_cases h : entry.record.id = id
  · simp [get, replace, Table.get?_put, OperationEntry.id, h]
  · simp [get, replace, Table.get?_put, OperationEntry.id, h]

theorem get_insert (record : OperationRecord Value) :
    (store.insert record).get id = if record.id = id then some record else store.get id :=
  get_replace _

@[simp]
theorem reserved_replace (entry : OperationEntry Value) :
    (store.replace entry).reserved key = store.reserved key :=
  rfl

@[simp]
theorem reserved_insert (record : OperationRecord Value) :
    (store.insert record).reserved key = store.reserved key :=
  rfl

@[simp]
theorem get_reserve (k i : String) : (store.reserve k i).get id = store.get id :=
  rfl

theorem reserved_reserve (k i : String) :
    (store.reserve k i).reserved key = if k = key then some i else store.reserved key := by
  simp only [reserved, reserve, Table.get?_put]
  split <;> rfl

@[simp]
theorem get_release (kind : String) : (store.release kind).get id = store.get id := by
  unfold release
  split <;> rfl

@[simp]
theorem reserved_release (kind : String) :
    (store.release kind).reserved key = store.reserved key := by
  unfold release
  split <;> rfl

@[simp]
theorem get_acquire (kind : String) : (store.acquire kind).2.get id = store.get id := by
  unfold acquire
  split <;> rfl

@[simp]
theorem reserved_acquire (kind : String) :
    (store.acquire kind).2.reserved key = store.reserved key := by
  unfold acquire
  split <;> rfl

@[simp]
theorem get_cancel (i : String) : (store.cancel i).get id = store.get id := by
  unfold cancel
  split
  · next entry hentry =>
      split
      · rfl
      · rw [get_replace]
        have hid : entry.record.id = i := id_of_entry hentry
        by_cases h : entry.record.id = id
        · rw [if_pos h]
          simp [get, ← h, hid, hentry]
        · rw [if_neg h]
  · rfl

@[simp]
theorem reserved_cancel (i : String) : (store.cancel i).reserved key = store.reserved key := by
  unfold cancel
  split
  · split <;> rfl
  · rfl

theorem markRunning_eq_some {now : String} {record : OperationRecord Value}
    (h : store.markRunning id now = some (record, store')) :
    ∃ old, store.get id = some old ∧ old.status = .queued ∧ record = old.start now ∧
      (∀ i, store'.get i = if id = i then some record else store.get i) ∧
      (∀ k, store'.reserved k = store.reserved k) ∧ store'.busy = store.busy := by
  obtain ⟨entry, hentry, hstart⟩ := Option.bind_eq_some_iff.1 h
  by_cases hqueued : entry.record.status = .queued
  · rw [if_pos hqueued] at hstart
    simp only [Option.some.injEq, Prod.mk.injEq] at hstart
    obtain ⟨rfl, rfl⟩ := hstart
    have hid : entry.record.id = id := id_of_entry hentry
    refine ⟨entry.record, by simp [get, hentry], hqueued, rfl, fun i => ?_, fun _ => rfl, rfl⟩
    rw [get_replace]
    simp [OperationRecord.start, hid]
  · rw [if_neg hqueued] at hstart
    exact absurd hstart (by simp)

theorem finish_eq_some {now : String} {outcome : Except OperationError Value}
    {record : OperationRecord Value} (h : store.finish id outcome now = some (record, store')) :
    ∃ old, store.get id = some old ∧
      record = old.finish (store.isCancelled id) outcome now ∧
      (∀ i, store'.get i = if id = i then some record else store.get i) ∧
      (∀ k, store'.reserved k = store.reserved k) ∧ store'.busy = store.busy := by
  obtain ⟨entry, hentry, hfinish⟩ := Option.map_eq_some_iff.1 h
  simp only [Prod.mk.injEq] at hfinish
  obtain ⟨rfl, rfl⟩ := hfinish
  have hid : entry.record.id = id := id_of_entry hentry
  refine ⟨entry.record, by simp [get, hentry], by simp [isCancelled, hentry], fun i => ?_,
    fun _ => rfl, rfl⟩
  rw [get_replace]
  simp [hid]

end OperationStore

/-! ## What a recovery restores -/

def lastLine (lines : List (OperationRecord Value)) (id : String) :
    Option (OperationRecord Value) :=
  (lines.filter fun line => line.id = id).getLast?

/-- The last line that carries an idempotency key. -/
def lastKeyed (lines : List (OperationRecord Value)) (key : String) :
    Option (OperationRecord Value) :=
  (lines.filter fun line => line.idempotencyKey = some key).getLast?

section Lines

variable {lines more : List (OperationRecord Value)} {line : OperationRecord Value}
  {id key : String}

theorem mem_of_lastLine (h : lastLine lines id = some line) : line ∈ lines ∧ line.id = id := by
  simpa using List.mem_of_getLast? h

theorem mem_of_lastKeyed (h : lastKeyed lines key = some line) :
    line ∈ lines ∧ line.idempotencyKey = some key := by
  simpa using List.mem_of_getLast? h

theorem lastLine_eq_none : lastLine lines id = none ↔ ∀ line ∈ lines, line.id ≠ id := by
  simp [lastLine]

theorem lastKeyed_eq_none :
    lastKeyed lines key = none ↔ ∀ line ∈ lines, line.idempotencyKey ≠ some key := by
  simp [lastKeyed]

theorem lastLine_append :
    lastLine (lines ++ more) id = (lastLine more id).or (lastLine lines id) := by
  simp [lastLine, List.getLast?_append]

theorem lastLine_snoc :
    lastLine (lines ++ [line]) id = if line.id = id then some line else lastLine lines id := by
  rw [lastLine_append, lastLine]
  split
  · next h => simp [h]
  · next h => simp [h]

theorem lastKeyed_snoc :
    lastKeyed (lines ++ [line]) key =
      if line.idempotencyKey = some key then some line else lastKeyed lines key := by
  simp only [lastKeyed, List.filter_append, List.getLast?_append]
  split
  · next h => simp [h]
  · next h => simp [h]

end Lines

section Recover

variable {now : Nat → String}

theorem recover_snoc (lines : List (OperationRecord Value)) (line : OperationRecord Value) :
    recover now (lines ++ [line]) = (recover now lines).line now line := by
  simp [recover]

/-- After a recovery an operation is what its last journal line restores to. -/
theorem recover_record (now : Nat → String) (lines : List (OperationRecord Value)) (id : String) :
    ∃ stamp, (recover now lines).store.get id =
      (lastLine lines id).map fun line => line.restore stamp := by
  induction lines using List.reverseRecOn with
  | nil => exact ⟨now 0, rfl⟩
  | append_singleton lines line ih =>
    obtain ⟨stamp, hstamp⟩ := ih
    rw [recover_snoc, lastLine_snoc]
    have hget : ((recover now lines).line now line).store.get id =
        if line.id = id then some (line.restore (now (recover now lines).interrupted.length))
        else (recover now lines).store.get id := by
      simp only [Recovery.line, OperationStore.get_insert, OperationRecord.id_restore]
      split
      · rfl
      · split <;> rfl
    rw [hget]
    by_cases hid : line.id = id
    · exact ⟨_, by rw [if_pos hid, if_pos hid]; rfl⟩
    · exact ⟨stamp, by rw [if_neg hid, if_neg hid, hstamp]⟩

/-- After a recovery a key names the operation of the last line that carries it. -/
theorem recover_key (now : Nat → String) (lines : List (OperationRecord Value)) (key : String) :
    (recover now lines).store.reserved key = (lastKeyed lines key).map (·.id) := by
  induction lines using List.reverseRecOn with
  | nil => rfl
  | append_singleton lines line ih =>
    rw [recover_snoc, lastKeyed_snoc]
    simp only [Recovery.line, OperationStore.reserved_insert]
    cases hkey : line.idempotencyKey with
    | none => simpa using ih
    | some k =>
      simp only [OperationStore.reserved_reserve, Option.some.injEq]
      split
      · rfl
      · exact ih

theorem mem_interrupted {lines : List (OperationRecord Value)} {record : OperationRecord Value}
    (h : record ∈ (recover now lines).interrupted) :
    ∃ line ∈ lines, line.status.terminal = false ∧ ∃ stamp, record = line.interrupt stamp := by
  induction lines using List.reverseRecOn with
  | nil => exact absurd h (by simp [recover])
  | append_singleton lines line ih =>
    rw [recover_snoc] at h
    have hold : record ∈ (recover now lines).interrupted → ∃ l ∈ lines ++ [line],
        l.status.terminal = false ∧ ∃ stamp, record = l.interrupt stamp := by
      intro hmem
      obtain ⟨l, hl, hrest⟩ := ih hmem
      exact ⟨l, List.mem_append_left _ hl, hrest⟩
    cases hterminal : line.status.terminal with
    | true =>
      simp only [Recovery.line, hterminal, if_true] at h
      exact hold h
    | false =>
      simp only [Recovery.line, hterminal, Bool.false_eq_true, if_false, List.mem_append,
        List.mem_singleton] at h
      rcases h with h | rfl
      · exact hold h
      · refine ⟨line, by simp, hterminal, now (recover now lines).interrupted.length, ?_⟩
        simp [OperationRecord.restore, hterminal]

variable (now) in
theorem exists_interrupted {lines : List (OperationRecord Value)} {line : OperationRecord Value}
    (hline : line ∈ lines) (hflight : line.status.terminal = false) :
    ∃ record ∈ (recover now lines).interrupted, record.id = line.id := by
  induction lines using List.reverseRecOn with
  | nil => exact absurd hline (by simp)
  | append_singleton lines l ih =>
    rw [recover_snoc]
    rw [List.mem_append, List.mem_singleton] at hline
    rcases hline with hline | rfl
    · obtain ⟨record, hrecord, hid⟩ := ih hline
      refine ⟨record, ?_, hid⟩
      simp only [Recovery.line]
      split
      · exact hrecord
      · exact List.mem_append_left _ hrecord
    · refine ⟨line.restore (now (recover now lines).interrupted.length), ?_, by simp⟩
      simp [Recovery.line, hflight]

end Recover

end PhloTransform.Daemon
