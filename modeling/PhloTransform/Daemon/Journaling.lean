import PhloTransform.Daemon.Operations
import PhloTransform.Library.LineJournal
import PhloTransform.Library.StepSystem

/-!
# Concurrent submissions and crashes

The threads of a daemon share the registry and append to one journal file.  A submission
with a key holds the idempotency lock from the lookup to the reservation; appends take no
lock, and each of them is two writes.  The process may be killed between any two steps,
and inside the write of a record's text.

Every step here is one access of a thread to what the threads share: the lookup under the
lock, the gate, each of the two writes of an append, and the two insertions.  What the
clients are answered is kept in the state, as the history of the whole system.

Main results:

- Definition `Machine.step`: the accesses, kills and restarts.
- Definition `AtMostOnce`: what the clients are promised.
-/

namespace PhloTransform.Daemon

open Library

variable {Value : Type}

/-- Where a thread stands in the call it executes. -/
inductive Frame (Value : Type) where
  /-- `submit`, after the lookup; with a key it holds the idempotency lock. -/
  | admitted (params : Params Value) (key : Option String)
  | reserving (record : OperationRecord Value)
  | reserved (record : OperationRecord Value)
  | journaled (record : OperationRecord Value)
  /-- The record is visible and its key not reserved in memory. -/
  | visible (record : OperationRecord Value)
  | noting (record : OperationRecord Value)
  | noted (record : OperationRecord Value)

namespace Frame

def record : Frame Value → Option (OperationRecord Value)
  | .admitted .. => none
  | .reserving r | .reserved r | .journaled r | .visible r | .noting r | .noted r => some r

def submitted : Frame Value → Option (OperationRecord Value)
  | .reserving r | .reserved r | .journaled r | .visible r => some r
  | .admitted .. | .noting _ | .noted _ => none

def key : Frame Value → Option String
  | .admitted _ key => key
  | .reserving r | .reserved r | .journaled r | .visible r => r.idempotencyKey
  | .noting _ | .noted _ => none

/-- The record whose text the next write appends. -/
def text : Frame Value → Option (OperationRecord Value)
  | .reserving r | .noting r => some r
  | _ => none

end Frame

structure Call (Value : Type) where
  thread : Nat
  frame : Frame Value

/-- A running daemon. -/
structure Process (Value : Type) where
  store : OperationStore Value
  /-- The records that `OperationStore::open` has still to journal. -/
  recovery : List (OperationRecord Value)
  /-- The text of the first of them is written, its line end is not. -/
  recoveryOpen : Bool
  lock : Option Nat
  calls : Table (@Call.thread Value)

namespace Process

def frame (p : Process Value) (thread : Nat) : Option (Frame Value) :=
  (p.calls.get? thread).map (·.frame)

/-- A thread goes on to its next access. -/
def goto (p : Process Value) (thread : Nat) (frame : Frame Value) : Process Value :=
  { p with calls := p.calls.put { thread := thread, frame := frame } }

def done (p : Process Value) (thread : Nat) : Process Value :=
  { p with calls := p.calls.erase thread }

/-- A submission returns, and with a key it gives the lock back. -/
def leave (p : Process Value) (thread : Nat) (key : Option String) : Process Value :=
  { p.done thread with lock := if key.isSome then none else p.lock }

/-- Some thread, or the recovery, is about to write the text of a record. -/
def Writing (p : Process Value) : Prop :=
  (p.recovery.isEmpty = false ∧ p.recoveryOpen = false) ∨
    ∃ call ∈ p.calls.rows, call.frame.text.isSome = true

instance (p : Process Value) : Decidable p.Writing :=
  inferInstanceAs (Decidable (_ ∨ _))

end Process

/-- What a client was answered to a submission. -/
structure Answer (Value : Type) where
  key : Option String
  hash : String
  outcome : SubmitOutcome Value

def SubmitOutcome.operation : SubmitOutcome Value → Option (OperationRecord Value)
  | .new record | .replayed record | .conflict record => some record
  | .busy => none

structure Machine (Value : Type) where
  journal : LineJournal (OperationRecord Value)
  process : Option (Process Value)
  answers : List (Answer Value)

/-- Where a kill hits. -/
inductive Kill where
  | between
  | inText
  | inCharacter
deriving DecidableEq, Repr

inductive Access (Value : Type) where
  | start (now : Nat → String)
  | recoverText
  | recoverEnd
  | submit (thread : Nat) (params : Params Value) (key : Option String)
  | register (thread : Nat) (id now : String)
  | text (thread : Nat)
  | lineEnd (thread : Nat)
  | publish (thread : Nat)
  | reserve (thread : Nat)
  | markRunning (thread : Nat) (id now : String)
  | finish (thread : Nat) (id : String) (outcome : Except OperationError Value) (now : String)
  | cancel (id : String)
  | release (kind : String)
  | kill (hit : Kill)

namespace Machine

def fresh : Machine Value where
  journal := .empty
  process := none
  answers := []

/-- The daemon that serves requests: its recovery is over. -/
def serving (m : Machine Value) : Option (Process Value) :=
  m.process.filter fun p => p.recovery.isEmpty

def running (m : Machine Value) (p : Process Value) : Machine Value :=
  { m with process := some p }

def answer (m : Machine Value) (key : Option String) (hash : String)
    (outcome : SubmitOutcome Value) : Machine Value :=
  { m with answers := m.answers ++ [{ key := key, hash := hash, outcome := outcome }] }

def Unused (m : Machine Value) (p : Process Value) (id : String) : Prop :=
  (∀ line ∈ m.journal.lines, line.id ≠ id) ∧ (p.store.get id).isNone = true ∧
    ∀ call ∈ p.calls.rows, ∀ record ∈ call.frame.record, record.id ≠ id

instance (m : Machine Value) (p : Process Value) (id : String) : Decidable (m.Unused p id) :=
  inferInstanceAs (Decidable (_ ∧ _ ∧ _))

variable [Json Value]

def start (m : Machine Value) (now : Nat → String) : Machine Value :=
  let recovery := recover now (m.journal.read.getD [])
  m.running
    { store := recovery.store
      recovery := recovery.interrupted
      recoveryOpen := false
      lock := none
      calls := Table.empty }

/-- Begin a submission: with a key under the lock, and no further when the key is
reserved. -/
def submit (m : Machine Value) (p : Process Value) (thread : Nat) (params : Params Value) :
    Option String → Option (Machine Value)
  | none => some (m.running (p.goto thread (.admitted params none)))
  | some key =>
    if p.lock.isSome then none
    else
      match p.store.lookup key (requestHash params) with
      | some outcome => some (m.answer (some key) (requestHash params) outcome)
      | none =>
        some (m.running
          ({ p with lock := some thread }.goto thread (.admitted params (some key))))

/-- Pass the gate and build the record to journal. -/
def register (m : Machine Value) (p : Process Value) (thread : Nat) (params : Params Value)
    (key : Option String) (id now : String) : Machine Value :=
  match p.store.acquire params.kind.asStr with
  | (some false, _) =>
    (m.answer key (requestHash params) .busy).running (p.leave thread key)
  | (_, store) =>
    m.running ({ p with store := store }.goto thread (.reserving (.queue params key id now)))

/-- Answer a submission with its new operation. -/
def publish (m : Machine Value) (p : Process Value) (thread : Nat)
    (record : OperationRecord Value) : Machine Value :=
  (m.answer record.idempotencyKey (record.requestHash.getD "") (.new record)).running
    (p.leave thread record.idempotencyKey)

/-- Journal the transition that a thread has just made, if it made one. -/
def transition (m : Machine Value) (p : Process Value) (thread : Nat) :
    Option (OperationRecord Value × OperationStore Value) → Machine Value
  | some (record, store) => m.running ({ p with store := store }.goto thread (.noting record))
  | none => m

def hit (journal : LineJournal (OperationRecord Value)) :
    Kill → LineJournal (OperationRecord Value)
  | .between => journal
  | .inText => journal.tear
  | .inCharacter => journal.cut

def access (m : Machine Value) (p : Process Value) : Access Value → Option (Machine Value)
  | .submit thread params key =>
    match p.frame thread with
    | none => m.submit p thread params key
    | some _ => none
  | .register thread id now =>
    match p.frame thread with
    | some (.admitted params key) =>
      if m.Unused p id then some (m.register p thread params key id now) else none
    | _ => none
  | .text thread =>
    match p.frame thread with
    | some (.reserving record) =>
      some ({ m with journal := m.journal.write record.journaled }.running
        (p.goto thread (.reserved record)))
    | some (.noting record) =>
      some ({ m with journal := m.journal.write record.journaled }.running
        (p.goto thread (.noted record)))
    | _ => none
  | .lineEnd thread =>
    match p.frame thread with
    | some (.reserved record) =>
      some ({ m with journal := m.journal.endLine }.running
        (p.goto thread (.journaled record)))
    | some (.noted _) =>
      some ({ m with journal := m.journal.endLine }.running (p.done thread))
    | _ => none
  | .publish thread =>
    match p.frame thread with
    | some (.journaled record) =>
      let p := { p with store := p.store.insert record }
      if record.idempotencyKey.isSome then
        some (m.running (p.goto thread (.visible record)))
      else
        some (m.publish p thread record)
    | _ => none
  | .reserve thread =>
    match p.frame thread with
    | some (.visible record) =>
      record.idempotencyKey.map fun key =>
        m.publish { p with store := p.store.reserve key record.id } thread record
    | _ => none
  | .markRunning thread id now =>
    match p.frame thread with
    | none => some (m.transition p thread (p.store.markRunning id now))
    | some _ => none
  | .finish thread id outcome now =>
    match p.frame thread with
    | none => some (m.transition p thread (p.store.finish id outcome now))
    | some _ => none
  | .cancel id => some (m.running { p with store := p.store.cancel id })
  | .release kind => some (m.running { p with store := p.store.release kind })
  | .start _ | .recoverText | .recoverEnd | .kill _ => none

def recoverWrite (m : Machine Value) (p : Process Value) : Access Value → Option (Machine Value)
  | .recoverText =>
    match p.recovery, p.recoveryOpen with
    | record :: _, false =>
      some ({ m with journal := m.journal.write record.journaled }.running
        { p with recoveryOpen := true })
    | _, _ => none
  | .recoverEnd =>
    match p.recovery, p.recoveryOpen with
    | _ :: rest, true =>
      some ({ m with journal := m.journal.endLine }.running
        { p with recovery := rest, recoveryOpen := false })
    | _, _ => none
  | _ => none

def step (m : Machine Value) (a : Access Value) : Option (Machine Value) :=
  match m.process, a with
  | none, .start now => some (m.start now)
  | none, _ => none
  | some p, .kill hit =>
    if hit = .between ∨ p.Writing then
      some { m with journal := Machine.hit m.journal hit, process := none }
    else
      none
  | some p, a => if p.recovery.isEmpty then m.access p a else m.recoverWrite p a

end Machine

def threads [Json Value] : StepSystem (Machine Value) (Access Value) where
  step := Machine.step

/-! ## What the clients are promised -/

/-- A later submission of the key of an operation is answered with that operation, as a
replay of the same request or as a conflict. -/
def Repeats (earlier later : Answer Value) : Prop :=
  ∀ key record, earlier.key = some key → later.key = some key →
    earlier.outcome.operation = some record →
    ∃ existing, existing.id = record.id ∧
      later.outcome =
        if record.requestHash = some later.hash then .replayed existing else .conflict existing

def SubmitOutcome.isNew : SubmitOutcome Value → Bool
  | .new _ => true
  | .replayed _ | .conflict _ | .busy => false

/-- What the answers so far and the registry promise. -/
structure AtMostOnce (m : Machine Value) : Prop where
  once : m.answers.Pairwise fun earlier later => ∀ key, earlier.key = some key →
    later.key = some key → earlier.outcome.isNew = true → later.outcome.isNew = false
  repeated : m.answers.Pairwise Repeats
  kept : ∀ p, m.process = some p → ∀ answer ∈ m.answers, ∀ record,
    answer.outcome.operation = some record →
    ∃ existing, p.store.get record.id = some existing ∧
      existing.idempotencyKey = answer.key ∧ existing.requestHash = record.requestHash

end PhloTransform.Daemon
