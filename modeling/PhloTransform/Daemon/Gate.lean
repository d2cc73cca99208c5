import PhloTransform.Daemon.Operations
import PhloTransform.Library.StepSystem

/-!
# The gate of the mutating operations

The gate is a flag beside the records.  A submission takes it before it journals its
record, gives it back when the append fails, and leaves it to the task that the handler
spawns, which gives it back after it has recorded the operation's outcome.  A task that
panics in between records no outcome and gives nothing back.

A step here is one access of a request to what the requests share: the lookup under the
idempotency lock, the gate, the append, the two insertions, and the task's calls on the
registry.

Main results:

- Theorem `Service.Inv.moved`: two mutating operations are never past the gate together,
  whatever fails or panics.
- Theorem `gateKept_iff`: the runs in which the gate keeps all that it promises.
-/

namespace PhloTransform.Daemon

open Library

variable {Value : Type}

/-! ## Requests -/

/-- Where a request stands: in its submission, then in the task that the handler spawns. -/
inductive Stage (Value : Type) where
  /-- `submit`, after the lookup; with a key it holds the idempotency lock. -/
  | admitted (params : Params Value) (key : Option String)
  | reserving (record : OperationRecord Value)
  | unrecorded (record : OperationRecord Value)
  | journaled (record : OperationRecord Value)
  | visible (record : OperationRecord Value)
  | created (record : OperationRecord Value)
  | spawned (record : OperationRecord Value)
  | executing (record : OperationRecord Value)
  | finished (record : OperationRecord Value)

/-- What a request past the gate has. -/
structure Pass (Value : Type) where
  record : OperationRecord Value
  underway : Bool

def Pass.mutates (pass : Pass Value) : Prop :=
  pass.record.kind ∈ mutating

instance (pass : Pass Value) : Decidable pass.mutates :=
  inferInstanceAs (Decidable (_ ∈ _))

def Stage.pass : Stage Value → Option (Pass Value)
  | .admitted .. => none
  | .reserving r | .unrecorded r | .journaled r | .finished r =>
    some { record := r, underway := false }
  | .visible r | .created r | .spawned r | .executing r => some { record := r, underway := true }

structure Request (Value : Type) where
  number : Nat
  stage : Stage Value

/-- What stood when a submission was answered `Busy`. -/
structure Refusal (Value : Type) where
  store : OperationStore Value
  holders : List String

structure Service (Value : Type) where
  store : OperationStore Value
  lock : Option Nat
  requests : Table (@Request.number Value)
  refused : List (Refusal Value)

/-- The registry after a transition, if there was one. -/
def OperationStore.after (store : OperationStore Value)
    (transition : Option (OperationRecord Value × OperationStore Value)) : OperationStore Value :=
  (transition.map (·.2)).getD store

/-- The operation is known, mutates and did not end. -/
def OperationStore.Underway (store : OperationStore Value) (id : String) : Prop :=
  ∃ record, store.get id = some record ∧ record.kind ∈ mutating ∧
    record.status.terminal = false

/-! ## Steps -/

inductive Turn (Value : Type) where
  | submit (number : Nat) (params : Params Value) (key : Option String)
  | register (number : Nat) (id now : String)
  | append (number : Nat) (written : Bool)
  | reject (number : Nat)
  | publish (number : Nat)
  | reserve (number : Nat)
  | spawn (number : Nat)
  | markRunning (number : Nat) (now : String)
  | finish (number : Nat) (outcome : Except OperationError Value) (now : String)
  | panic (number : Nat)
  | release (number : Nat)
  | cancel (id : String)

namespace Service

def fresh : Service Value where
  store := .new
  lock := none
  requests := Table.empty
  refused := []

def stage (s : Service Value) (number : Nat) : Option (Stage Value) :=
  (s.requests.get? number).map (·.stage)

def pass (s : Service Value) (number : Nat) : Option (Pass Value) :=
  (s.stage number).bind Stage.pass

def goto (s : Service Value) (number : Nat) (stage : Stage Value) : Service Value :=
  { s with requests := s.requests.put { number := number, stage := stage } }

def done (s : Service Value) (number : Nat) : Service Value :=
  { s with requests := s.requests.erase number }

/-- A submission returns, and with a key it gives the lock back. -/
def unlock (s : Service Value) (key : Option String) : Service Value :=
  { s with lock := if key.isSome then none else s.lock }

/-- The mutating operations past the gate. -/
def holders (s : Service Value) : List (Pass Value) :=
  (s.requests.rows.filterMap fun request => request.stage.pass).filter fun pass => pass.mutates

def Unused (s : Service Value) (id : String) : Prop :=
  (s.store.get id).isNone = true ∧
    ∀ request ∈ s.requests.rows, ∀ pass ∈ request.stage.pass, pass.record.id ≠ id

instance (s : Service Value) (id : String) : Decidable (s.Unused id) :=
  inferInstanceAs (Decidable (_ ∧ _))

def refuse (s : Service Value) (number : Nat) (key : Option String) : Service Value :=
  { (s.done number).unlock key with
    refused := s.refused ++ [{ store := s.store, holders := s.holders.map (·.record.id) }] }

variable [Json Value]

def submit (s : Service Value) (number : Nat) (params : Params Value) :
    Option String → Option (Service Value)
  | none => some (s.goto number (.admitted params none))
  | some key =>
    if s.lock.isSome then none
    else
      match s.store.lookup key (requestHash params) with
      | some _ => some s
      | none => some ({ s with lock := some number }.goto number (.admitted params (some key)))

/-- Pass the gate and build the record to journal. -/
def register (s : Service Value) (number : Nat) (params : Params Value) (key : Option String)
    (id now : String) : Service Value :=
  match s.store.acquire params.kind.asStr with
  | (some false, _) => s.refuse number key
  | (_, store) => { s with store := store }.goto number (.reserving (.queue params key id now))

def step (s : Service Value) : Turn Value → Option (Service Value)
  | .submit number params key =>
    match s.stage number with
    | none => s.submit number params key
    | some _ => none
  | .register number id now =>
    match s.stage number with
    | some (.admitted params key) =>
      if s.Unused id then some (s.register number params key id now) else none
    | _ => none
  | .append number written =>
    match s.stage number with
    | some (.reserving record) =>
      some (s.goto number (if written then .journaled record else .unrecorded record))
    | _ => none
  | .reject number =>
    match s.stage number with
    | some (.unrecorded record) =>
      some (({ s with store := s.store.release record.kind }.done number).unlock
        record.idempotencyKey)
    | _ => none
  | .publish number =>
    match s.stage number with
    | some (.journaled record) =>
      some ({ s with store := s.store.insert record }.goto number
        (if record.idempotencyKey.isSome then .visible record else .created record))
    | _ => none
  | .reserve number =>
    match s.stage number with
    | some (.visible record) =>
      record.idempotencyKey.map fun key =>
        ({ s with store := s.store.reserve key record.id }.goto number
          (.created record)).unlock (some key)
    | _ => none
  | .spawn number =>
    match s.stage number with
    | some (.created record) => some (s.goto number (.spawned record))
    | _ => none
  | .markRunning number now =>
    match s.stage number with
    | some (.spawned record) =>
      let store := s.store.after (s.store.markRunning record.id now)
      some ({ s with store := store }.goto number (.executing record))
    | _ => none
  | .finish number outcome now =>
    match s.stage number with
    | some (.executing record) =>
      let store := s.store.after (s.store.finish record.id outcome now)
      some ({ s with store := store }.goto number (.finished record))
    | _ => none
  | .panic number =>
    match s.stage number with
    | some (.executing _) => some (s.done number)
    | _ => none
  | .release number =>
    match s.stage number with
    | some (.finished record) =>
      some ({ s with store := s.store.release record.kind }.done number)
    | _ => none
  | .cancel id => some { s with store := s.store.cancel id }

end Service

def requests [Json Value] : StepSystem (Service Value) (Turn Value) where
  step := Service.step

/-! ## What the gate promises -/

structure Service.GateKept (s : Service Value) : Prop where
  /-- From the gate on, `New` included, until the task has given it back. -/
  exclusive : ∀ n n' p p', s.pass n = some p → s.pass n' = some p' → p.mutates → p'.mutates →
    n = n'
  /-- A client that is refused is so for operations that did not end. -/
  honest : ∀ refusal ∈ s.refused, refusal.holders ≠ [] ∧
    ∀ id ∈ refusal.holders, refusal.store.Underway id
  released : s.store.busy = true → ∃ n p, s.pass n = some p ∧ p.mutates

/-- No executor of a mutating operation panics, and while such an operation is past the
gate, but not visible yet or with its outcome recorded, no other submission of the kind
comes to the gate. -/
def Orderly (s : Service Value) : Turn Value → Prop
  | .register number .. =>
    match s.stage number with
    | some (.admitted params _) =>
      params.kind.asStr ∈ mutating → ∀ pass ∈ s.holders, pass.underway = true
    | _ => True
  | .panic number => ∀ pass ∈ s.pass number, ¬pass.mutates
  | _ => True

instance (s : Service Value) : ∀ turn, Decidable (Orderly s turn)
  | .register number .. =>
    match h : s.stage number with
    | some (.admitted params _) =>
      decidable_of_iff
        (params.kind.asStr ∈ mutating → ∀ pass ∈ s.holders, pass.underway = true)
        (by simp [Orderly, h])
    | none | some (.reserving _) | some (.unrecorded _) | some (.journaled _)
    | some (.visible _) | some (.created _) | some (.spawned _) | some (.executing _)
    | some (.finished _) => .isTrue (by simp [Orderly, h])
  | .panic number => inferInstanceAs (Decidable (∀ pass ∈ s.pass number, ¬pass.mutates))
  | .submit .. | .append .. | .reject _ | .publish _ | .reserve _ | .spawn _ | .markRunning ..
  | .finish .. | .release _ | .cancel _ => .isTrue trivial

/-! ## What the registry's calls do to an operation's status -/

namespace OperationStore

variable {store store' : OperationStore Value} {id : String}
variable {now : String} {outcome : Except OperationError Value}

theorem underway_congr (h : store'.get id = store.get id) :
    store'.Underway id ↔ store.Underway id := by
  simp only [Underway, h]

theorem underway_insert {record : OperationRecord Value} (hqueued : record.status = .queued)
    (hmutates : record.kind ∈ mutating) : (store.insert record).Underway record.id := by
  refine ⟨record, ?_, hmutates, by rw [hqueued]; rfl⟩
  rw [get_insert, if_pos rfl]

@[simp]
theorem busy_cancel : (store.cancel id).busy = store.busy := by
  unfold cancel
  split
  · split <;> rfl
  · rfl

theorem busy_release {kind : String} :
    (store.release kind).busy = if kind ∈ mutating then false else store.busy := by
  unfold release
  split <;> rfl

@[simp]
theorem busy_markRunning : (store.after (store.markRunning id now)).busy = store.busy := by
  cases h : store.markRunning id now with
  | none => rfl
  | some done =>
    obtain ⟨-, -, -, -, -, -, hbusy⟩ := markRunning_eq_some h
    exact hbusy

@[simp]
theorem busy_finish : (store.after (store.finish id outcome now)).busy = store.busy := by
  cases h : store.finish id outcome now with
  | none => rfl
  | some done =>
    obtain ⟨-, -, -, -, -, hbusy⟩ := finish_eq_some h
    exact hbusy

theorem get_markRunning_ne {i : String} (h : i ≠ id) :
    (store.after (store.markRunning id now)).get i = store.get i := by
  cases hstart : store.markRunning id now with
  | none => rfl
  | some done =>
    obtain ⟨-, -, -, -, hget, -, -⟩ := markRunning_eq_some hstart
    exact (hget i).trans (if_neg h.symm)

theorem get_finish_ne {i : String} (h : i ≠ id) :
    (store.after (store.finish id outcome now)).get i = store.get i := by
  cases hfinish : store.finish id outcome now with
  | none => rfl
  | some done =>
    obtain ⟨-, -, -, hget, -, -⟩ := finish_eq_some hfinish
    exact (hget i).trans (if_neg h.symm)

theorem Underway.markRunning {now : String} (h : store.Underway id) :
    (store.after (store.markRunning id now)).Underway id := by
  cases hstart : store.markRunning id now with
  | none => exact h
  | some done =>
    obtain ⟨old, hold, -, hdone, hget, -, -⟩ := markRunning_eq_some hstart
    obtain ⟨record, hrecord, hkind, -⟩ := h
    rw [hold, Option.some.injEq] at hrecord
    subst hrecord
    exact ⟨done.1, (hget id).trans (if_pos rfl), by rw [hdone]; exact hkind, by rw [hdone]; rfl⟩

theorem not_underway_finish : ¬(store.after (store.finish id outcome now)).Underway id := by
  rintro ⟨record, hrecord, -, hstatus⟩
  cases hfinish : store.finish id outcome now with
  | none =>
    rw [hfinish] at hrecord
    obtain ⟨entry, hentry, -⟩ := Option.map_eq_some_iff.1 hrecord
    have hnone : store.ops.get? id = none := Option.map_eq_none_iff.1 hfinish
    exact absurd (hnone.symm.trans hentry) (by simp)
  | some done =>
    obtain ⟨old, -, hdone, hget, -, -⟩ := finish_eq_some hfinish
    rw [hfinish] at hrecord
    have hsame : done.1 = record :=
      Option.some.inj (((hget id).trans (if_pos rfl)).symm.trans hrecord)
    rw [← hsame, hdone, OperationRecord.terminal_finish] at hstatus
    exact absurd hstatus (by simp)

end OperationStore

/-! ## What a step moves -/

namespace Service

variable {s s' : Service Value} {number n n' : Nat} {p p' : Pass Value}
  {turn : Turn Value}
variable {key : Option String} {params : Params Value}
variable {was next : Stage Value}

@[simp]
theorem pass_goto {stage : Stage Value} :
    (s.goto number stage).pass n = if number = n then stage.pass else s.pass n := by
  simp only [pass, Service.stage, goto, Table.get?_put]
  split <;> rfl

@[simp]
theorem pass_done : (s.done number).pass n = if number = n then none else s.pass n := by
  simp only [pass, Service.stage, done, Table.get?_erase]
  split <;> rfl

@[simp]
theorem pass_unlock : (s.unlock key).pass n = s.pass n :=
  rfl

theorem pass_of_stage {stage : Stage Value} (h : s.stage number = some stage) :
    s.pass number = stage.pass := by
  simp [pass, h]

theorem pass_goto_of_eq (hstage : s.stage number = some was) (hpass : next.pass = was.pass)
    (n : Nat) : (s.goto number next).pass n = s.pass n := by
  rw [pass_goto]
  split
  · next h => rw [hpass, ← h, pass_of_stage hstage]
  · rfl

theorem mem_holders : p ∈ s.holders ↔ p.mutates ∧ ∃ n, s.pass n = some p := by
  simp only [holders, List.mem_filter, List.mem_filterMap, decide_eq_true_eq]
  constructor
  · rintro ⟨⟨request, hrequest, hpass⟩, hmutates⟩
    have hget := (Table.mem_rows_iff _ _).1 hrequest
    exact ⟨hmutates, request.number, by simp [pass, stage, hget, hpass]⟩
  · rintro ⟨hmutates, n, hpass⟩
    obtain ⟨stage, hstage, hpass⟩ := Option.bind_eq_some_iff.1 hpass
    obtain ⟨request, hget, rfl⟩ := Option.map_eq_some_iff.1 hstage
    have hnumber : request.number = n := Table.key_of_get? hget
    exact ⟨⟨request, (Table.mem_rows_iff _ _).2 (hnumber ▸ hget), hpass⟩, hmutates⟩

theorem Unused.ne {id : String} (h : s.Unused id) (hpass : s.pass n = some p) :
    p.record.id ≠ id := by
  obtain ⟨stage, hstage, hp⟩ := Option.bind_eq_some_iff.1 hpass
  obtain ⟨request, hget, rfl⟩ := Option.map_eq_some_iff.1 hstage
  have hnumber : request.number = n := Table.key_of_get? hget
  exact h.2 request ((Table.mem_rows_iff _ _).2 (hnumber ▸ hget)) p hp

/-- What a turn does to the gate, to the requests past it and to their operations. -/
inductive Moved (s : Service Value) : Turn Value → Service Value → Prop
  | quiet (turn : Turn Value) (s' : Service Value) (pass : ∀ n, s'.pass n = s.pass n)
      (get : ∀ id, s'.store.get id = s.store.get id) (busy : s'.store.busy = s.store.busy)
      (refused : s'.refused = s.refused) (calm : Orderly s turn) : Moved s turn s'
  | refused (number : Nat) (id now : String) (params : Params Value) (key : Option String)
      (s' : Service Value) (stage : s.stage number = some (.admitted params key))
      (gated : params.kind.asStr ∈ mutating) (held : s.store.busy = true)
      (pass : ∀ n, s'.pass n = s.pass n) (store : s'.store = s.store)
      (refused : s'.refused =
        s.refused ++ [{ store := s.store, holders := s.holders.map (·.record.id) }]) :
      Moved s (.register number id now) s'
  | entered (number : Nat) (id now : String) (params : Params Value) (key : Option String)
      (p : Pass Value) (s' : Service Value) (stage : s.stage number = some (.admitted params key))
      (unused : s.Unused id) (drawn : p.record.id = id) (queued : p.record.status = .queued)
      (kind : p.record.kind = params.kind.asStr) (hidden : p.underway = false)
      (pass : ∀ n, s'.pass n = if number = n then some p else s.pass n)
      (get : ∀ id, s'.store.get id = s.store.get id)
      (gate : if p.mutates then s.store.busy = false ∧ s'.store.busy = true
        else s'.store.busy = s.store.busy)
      (refused : s'.refused = s.refused) : Moved s (.register number id now) s'
  /-- The request goes on, and nothing changes but its own operation. -/
  | advanced (turn : Turn Value) (number : Nat) (p p' : Pass Value) (s' : Service Value)
      (was : s.pass number = some p) (record : p'.record = p.record)
      (pass : ∀ n, s'.pass n = if number = n then some p' else s.pass n)
      (get : ∀ id, id ≠ p.record.id → s'.store.get id = s.store.get id)
      (status : p.record.status = .queued → p.mutates →
        (p.underway = true ↔ s.store.Underway p.record.id) →
        (p'.underway = true ↔ s'.store.Underway p.record.id))
      (busy : s'.store.busy = s.store.busy) (refused : s'.refused = s.refused)
      (calm : Orderly s turn) : Moved s turn s'
  | left (turn : Turn Value) (number : Nat) (p : Pass Value) (s' : Service Value)
      (was : s.pass number = some p)
      (pass : ∀ n, s'.pass n = if number = n then none else s.pass n)
      (get : ∀ id, s'.store.get id = s.store.get id)
      (gate : s'.store.busy = if p.mutates then false else s.store.busy)
      (refused : s'.refused = s.refused) (calm : Orderly s turn) : Moved s turn s'
  | panicked (number : Nat) (p : Pass Value) (s' : Service Value) (was : s.pass number = some p)
      (pass : ∀ n, s'.pass n = if number = n then none else s.pass n)
      (store : s'.store = s.store) (refused : s'.refused = s.refused) :
      Moved s (.panic number) s'

theorem moved_same {record : OperationRecord Value} {b : Bool} (hstage : s.stage number = some was)
    (hwas : was.pass = some { record := record, underway := b })
    (hnext : next.pass = some { record := record, underway := b }) (hcalm : Orderly s turn) :
    Moved s turn (s.goto number next) :=
  .quiet turn _ (pass_goto_of_eq hstage (hnext.trans hwas.symm)) (fun _ => rfl) rfl rfl hcalm

/-! ## The invariant -/

/-- At most one mutating request is past the gate, the gate is taken then, and its
operation is under way in the registry from its insertion to its outcome. -/
structure Inv (s : Service Value) : Prop where
  queued : ∀ n p, s.pass n = some p → p.record.status = .queued
  apart : ∀ n n' p p', s.pass n = some p → s.pass n' = some p' → p.record.id = p'.record.id →
    n = n'
  status : ∀ n p, s.pass n = some p → p.mutates →
    (p.underway = true ↔ s.store.Underway p.record.id)
  taken : ∀ n p, s.pass n = some p → p.mutates → s.store.busy = true
  unique : ∀ n n' p p', s.pass n = some p → s.pass n' = some p' → p.mutates → p'.mutates → n = n'

theorem inv_fresh : (fresh : Service Value).Inv := by
  have hnone : ∀ n, (fresh : Service Value).pass n = none := fun _ => rfl
  constructor <;> simp [hnone]

/-- No request came past the gate, and no operation changed. -/
theorem Inv.shrink (hs : s.Inv) (hpass : ∀ n p, s'.pass n = some p → s.pass n = some p)
    (hget : ∀ id, s'.store.get id = s.store.get id)
    (htaken : ∀ n p, s'.pass n = some p → p.mutates → s'.store.busy = true) : s'.Inv where
  queued n p hp := hs.queued n p (hpass n p hp)
  apart n n' p p' hp hp' := hs.apart n n' p p' (hpass n p hp) (hpass n' p' hp')
  status n p hp hmutates := by
    rw [hs.status n p (hpass n p hp) hmutates]
    exact (OperationStore.underway_congr (hget _)).symm
  taken := htaken
  unique n n' p p' hp hp' := hs.unique n n' p p' (hpass n p hp) (hpass n' p' hp')

theorem Inv.enter (hs : s.Inv) {id : String} (hunused : s.Unused id) (hid : p.record.id = id)
    (hqueued : p.record.status = .queued) (hhidden : p.underway = false)
    (hpass : ∀ n, s'.pass n = if number = n then some p else s.pass n)
    (hget : ∀ id, s'.store.get id = s.store.get id)
    (hgate : if p.mutates then s.store.busy = false ∧ s'.store.busy = true
      else s'.store.busy = s.store.busy) : s'.Inv := by
  have hcases : ∀ n q, s'.pass n = some q → (number = n ∧ p = q) ∨ s.pass n = some q := by
    intro n q hq
    rw [hpass] at hq
    split at hq
    · next h => exact .inl ⟨h, Option.some.inj hq⟩
    · exact .inr hq
  -- the gate was free, so no other mutating request is past it
  have hfree : p.mutates → ∀ n q, s.pass n = some q → ¬q.mutates := by
    intro hmutates n q hq hq'
    rw [if_pos hmutates] at hgate
    rw [hs.taken n q hq hq'] at hgate
    exact absurd hgate.1 (by simp)
  constructor
  · intro n q hq
    rcases hcases n q hq with ⟨-, rfl⟩ | hold
    · exact hqueued
    · exact hs.queued n q hold
  · intro n n' q q' hq hq' hsame
    rcases hcases n q hq with ⟨rfl, rfl⟩ | hold
    · rcases hcases n' q' hq' with ⟨rfl, rfl⟩ | hold'
      · rfl
      · exact absurd (hsame.symm.trans hid) (hunused.ne hold')
    · rcases hcases n' q' hq' with ⟨rfl, rfl⟩ | hold'
      · exact absurd (hsame.trans hid) (hunused.ne hold)
      · exact hs.apart n n' q q' hold hold' hsame
  · intro n q hq hmutates
    rw [OperationStore.underway_congr (hget _)]
    rcases hcases n q hq with ⟨-, rfl⟩ | hold
    · have hnone : s.store.get p.record.id = none := by
        rw [hid]
        exact Option.isNone_iff_eq_none.1 hunused.1
      simp [hhidden, OperationStore.Underway, hnone]
    · exact hs.status n q hold hmutates
  · intro n q hq hmutates
    rcases hcases n q hq with ⟨-, rfl⟩ | hold
    · rw [if_pos hmutates] at hgate
      exact hgate.2
    · have htaken := hs.taken n q hold hmutates
      split at hgate
      · exact hgate.2
      · exact hgate.trans htaken
  · intro n n' q q' hq hq' hmutates hmutates'
    rcases hcases n q hq with ⟨rfl, rfl⟩ | hold
    · rcases hcases n' q' hq' with ⟨rfl, -⟩ | hold'
      · rfl
      · exact absurd hmutates' (hfree hmutates n' q' hold')
    · rcases hcases n' q' hq' with ⟨rfl, rfl⟩ | hold'
      · exact absurd hmutates (hfree hmutates' n q hold)
      · exact hs.unique n n' q q' hold hold' hmutates hmutates'

theorem Inv.advance (hs : s.Inv) (hwas : s.pass number = some p) (hrecord : p'.record = p.record)
    (hpass : ∀ n, s'.pass n = if number = n then some p' else s.pass n)
    (hget : ∀ id, id ≠ p.record.id → s'.store.get id = s.store.get id)
    (hstatus : p.record.status = .queued → p.mutates →
      (p.underway = true ↔ s.store.Underway p.record.id) →
      (p'.underway = true ↔ s'.store.Underway p.record.id))
    (hbusy : s'.store.busy = s.store.busy) : s'.Inv := by
  -- every pass has the record that it had
  have hcases : ∀ n q, s'.pass n = some q →
      ∃ q₀, s.pass n = some q₀ ∧ q.record = q₀.record ∧
        ((number = n ∧ q = p') ∨ (number ≠ n ∧ q = q₀)) := by
    intro n q hq
    rw [hpass] at hq
    split at hq
    · next h =>
        refine ⟨p, h ▸ hwas, ?_, .inl ⟨h, (Option.some.inj hq).symm⟩⟩
        rw [← Option.some.inj hq, hrecord]
    · next h => exact ⟨q, hq, rfl, .inr ⟨h, rfl⟩⟩
  have hmutates : ∀ q q₀ : Pass Value, q.record = q₀.record → q.mutates → q₀.mutates := by
    intro q q₀ hsame
    simp only [Pass.mutates, hsame]
    exact id
  constructor
  · intro n q hq
    obtain ⟨q₀, hold, hsame, -⟩ := hcases n q hq
    rw [hsame]
    exact hs.queued n q₀ hold
  · intro n n' q q' hq hq' hid
    obtain ⟨q₀, hold, hsame, -⟩ := hcases n q hq
    obtain ⟨q₁, hold', hsame', -⟩ := hcases n' q' hq'
    rw [hsame, hsame'] at hid
    exact hs.apart n n' q₀ q₁ hold hold' hid
  · intro n q hq hq'
    obtain ⟨q₀, hold, hsame, ⟨rfl, rfl⟩ | ⟨hne, rfl⟩⟩ := hcases n q hq
    · have hpm := hmutates q p hrecord hq'
      rw [hrecord]
      exact hstatus (hs.queued number p hwas) hpm (hs.status number p hwas hpm)
    · rw [hs.status n q hold hq']
      refine (OperationStore.underway_congr (hget _ fun hid => hne ?_)).symm
      exact hs.apart number n p q hwas hold hid.symm
  · intro n q hq hq'
    obtain ⟨q₀, hold, hsame, -⟩ := hcases n q hq
    rw [hbusy]
    exact hs.taken n q₀ hold (hmutates q q₀ hsame hq')
  · intro n n' q q' hq hq' hm hm'
    obtain ⟨q₀, hold, hsame, -⟩ := hcases n q hq
    obtain ⟨q₁, hold', hsame', -⟩ := hcases n' q' hq'
    exact hs.unique n n' q₀ q₁ hold hold' (hmutates q q₀ hsame hm) (hmutates q' q₁ hsame' hm')

theorem pass_of_removed (hpass : ∀ n, s'.pass n = if number = n then none else s.pass n)
    (h : s'.pass n = some p) : number ≠ n ∧ s.pass n = some p := by
  rw [hpass] at h
  split at h
  · exact absurd h (by simp)
  · next hne => exact ⟨hne, h⟩

/-- Whatever fails or panics, two mutating operations are never past the gate together. -/
theorem Inv.moved (hs : s.Inv) (h : Moved s turn s') : s'.Inv := by
  cases h with
  | quiet _ _ pass get busy =>
    exact hs.shrink (fun n p hp => pass n ▸ hp) get
      fun n p hp hmutates => busy.trans (hs.taken n p (pass n ▸ hp) hmutates)
  | refused _ _ _ _ _ _ _ _ held pass store =>
    exact hs.shrink (fun n p hp => pass n ▸ hp) (fun id => by rw [store])
      fun _ _ _ _ => by rw [store, held]
  | entered _ _ _ _ _ p _ _ unused drawn queued _ hidden pass get gate =>
    exact hs.enter unused drawn queued hidden pass get gate
  | advanced _ _ _ _ _ was record pass get status busy =>
    exact hs.advance was record pass get status busy
  | left _ number p _ was pass get gate =>
    refine hs.shrink (fun n q hq => (pass_of_removed pass hq).2) get fun n q hq hmutates => ?_
    obtain ⟨hne, hold⟩ := pass_of_removed pass hq
    rw [gate]
    split
    · next hp => exact absurd (hs.unique number n p q was hold hp hmutates) hne
    · exact hs.taken n q hold hmutates
  | panicked number p _ was pass store =>
    refine hs.shrink (fun n q hq => (pass_of_removed pass hq).2) (fun id => by rw [store])
      fun n q hq hmutates => ?_
    rw [store]
    exact hs.taken n q (pass_of_removed pass hq).2 hmutates

/-! ## Which turns keep the promises -/

theorem orderly_register_iff {id now : String}
    (hstage : s.stage number = some (.admitted params key)) :
    Orderly s (.register number id now) ↔
      (params.kind.asStr ∈ mutating → ∀ pass ∈ s.holders, pass.underway = true) := by
  simp [Orderly, hstage]

theorem orderly_panic_iff (hwas : s.pass number = some p) :
    Orderly s (.panic number) ↔ ¬p.mutates := by
  simp [Orderly, hwas]

theorem released_of_removed (hwas : s.pass number = some p) (hp : ¬p.mutates)
    (hpass : ∀ n, s'.pass n = if number = n then none else s.pass n)
    (hheld : ∃ n q, s.pass n = some q ∧ q.mutates) : ∃ n q, s'.pass n = some q ∧ q.mutates := by
  obtain ⟨n, q, hq, hmutates⟩ := hheld
  refine ⟨n, q, ?_, hmutates⟩
  rw [hpass, if_neg, hq]
  rintro rfl
  rw [hwas, Option.some.injEq] at hq
  exact hp (hq ▸ hmutates)

theorem released_of_moved
    (hreleased : s.store.busy = true → ∃ n p, s.pass n = some p ∧ p.mutates)
    (horderly : Orderly s turn) (h : Moved s turn s') (hbusy' : s'.store.busy = true) :
    ∃ n p, s'.pass n = some p ∧ p.mutates := by
  cases h with
  | quiet _ _ pass _ busy =>
    obtain ⟨n, q, hq, hmutates⟩ := hreleased (busy ▸ hbusy')
    exact ⟨n, q, (pass n).trans hq, hmutates⟩
  | refused _ _ _ _ _ _ _ _ held pass =>
    obtain ⟨n, q, hq, hmutates⟩ := hreleased held
    exact ⟨n, q, (pass n).trans hq, hmutates⟩
  | entered number _ _ _ _ p _ stage _ _ _ _ _ pass _ gate =>
    split at gate
    · next hmutates => exact ⟨number, p, (pass number).trans (if_pos rfl), hmutates⟩
    · obtain ⟨n, q, hq, hmutates⟩ := hreleased (gate ▸ hbusy')
      refine ⟨n, q, (pass n).trans ?_, hmutates⟩
      rw [if_neg, hq]
      rintro rfl
      rw [pass_of_stage stage] at hq
      exact absurd hq (by simp [Stage.pass])
  | advanced _ number p p' _ was record pass _ _ busy =>
    obtain ⟨n, q, hq, hmutates⟩ := hreleased (busy ▸ hbusy')
    by_cases hn : number = n
    · subst hn
      rw [was, Option.some.injEq] at hq
      subst hq
      refine ⟨number, p', (pass number).trans (if_pos rfl), ?_⟩
      simpa only [Pass.mutates, record] using hmutates
    · exact ⟨n, q, (pass n).trans ((if_neg hn).trans hq), hmutates⟩
  | left _ number p _ was pass _ gate =>
    split at gate
    · rw [gate] at hbusy'
      exact absurd hbusy' (by simp)
    · next hp => exact released_of_removed was hp pass (hreleased (gate ▸ hbusy'))
  | panicked number p _ was pass store =>
    have hp := (orderly_panic_iff was).1 horderly
    exact released_of_removed was hp pass (hreleased (by rwa [store] at hbusy'))

theorem honest_of_moved (hs : s.Inv) (hk : s.GateKept) (horderly : Orderly s turn)
    (h : Moved s turn s') :
    ∀ refusal ∈ s'.refused, refusal.holders ≠ [] ∧
      ∀ id ∈ refusal.holders, refusal.store.Underway id := by
  intro refusal hrefusal
  cases h with
  | quiet _ _ _ _ _ refused => exact hk.honest refusal (refused ▸ hrefusal)
  | entered _ _ _ _ _ _ _ _ _ _ _ _ _ _ _ _ refused => exact hk.honest refusal (refused ▸ hrefusal)
  | advanced _ _ _ _ _ _ _ _ _ _ _ refused => exact hk.honest refusal (refused ▸ hrefusal)
  | left _ _ _ _ _ _ _ _ refused => exact hk.honest refusal (refused ▸ hrefusal)
  | panicked _ _ _ _ _ _ refused => exact hk.honest refusal (refused ▸ hrefusal)
  | refused number id now params key _ stage gated held _ _ refused =>
    rw [refused, List.mem_append, List.mem_singleton] at hrefusal
    rcases hrefusal with hold | rfl
    · exact hk.honest refusal hold
    · obtain ⟨n, q, hq, hmutates⟩ := hk.released held
      have hmem : q ∈ s.holders := mem_holders.2 ⟨hmutates, n, hq⟩
      refine ⟨by simpa using List.ne_nil_of_mem hmem, fun id hid => ?_⟩
      obtain ⟨holder, hholder, rfl⟩ := List.mem_map.1 hid
      obtain ⟨hmutates', n', hpass'⟩ := mem_holders.1 hholder
      have hunder := (orderly_register_iff stage).1 horderly gated holder hholder
      exact (hs.status n' holder hpass' hmutates').1 hunder

theorem GateKept.moved (hs : s.Inv) (hk : s.GateKept) (horderly : Orderly s turn)
    (h : Moved s turn s') : s'.GateKept where
  exclusive := (hs.moved h).unique
  honest := honest_of_moved hs hk horderly h
  released := released_of_moved hk.released horderly h

theorem orderly_of_gateKept (hs : s.Inv) (h : Moved s turn s') (hk : s'.GateKept) :
    Orderly s turn := by
  cases h with
  | quiet _ _ _ _ _ _ calm => exact calm
  | advanced _ _ _ _ _ _ _ _ _ _ _ _ calm => exact calm
  | left _ _ _ _ _ _ _ _ _ calm => exact calm
  | entered number id now params key p _ stage _ _ _ kind _ _ _ gate =>
    rw [orderly_register_iff stage]
    intro hgated holder hholder
    obtain ⟨hmutates, n, hpass⟩ := mem_holders.1 hholder
    have hp : p.mutates := by
      rw [Pass.mutates, kind]
      exact hgated
    rw [if_pos hp, hs.taken n holder hpass hmutates] at gate
    exact absurd gate.1 (by simp)
  | refused number id now params key _ stage _ _ _ _ refused =>
    rw [orderly_register_iff stage]
    intro _ holder hholder
    obtain ⟨hmutates, n, hpass⟩ := mem_holders.1 hholder
    rw [hs.status n holder hpass hmutates]
    have hmem := hk.honest { store := s.store, holders := s.holders.map (·.record.id) }
      (by rw [refused]; simp)
    exact hmem.2 _ (List.mem_map_of_mem hholder)
  | panicked number p _ was pass store =>
    rw [orderly_panic_iff was]
    intro hp
    have hbusy : s'.store.busy = true := by
      rw [store]
      exact hs.taken number p was hp
    obtain ⟨n, q, hq, hmutates⟩ := hk.released hbusy
    obtain ⟨hne, hold⟩ := pass_of_removed pass hq
    exact hne (hs.unique number n p q was hold hp hmutates)

theorem gateKept_fresh : (fresh : Service Value).GateKept where
  exclusive := inv_fresh.unique
  honest := by simp [fresh]
  released := by simp [fresh, OperationStore.new]

/-- A gate that is taken while nobody is left to give it back. -/
structure Leaked (s : Service Value) : Prop where
  busy : s.store.busy = true
  nobody : ∀ n p, s.pass n = some p → ¬p.mutates

theorem Leaked.moved (hs : s.Leaked) (h : Moved s turn s') : s'.Leaked := by
  cases h with
  | quiet _ _ pass _ busy => exact ⟨busy.trans hs.busy, fun n p hp => hs.nobody n p (pass n ▸ hp)⟩
  | refused _ _ _ _ _ _ _ _ _ pass store =>
    exact ⟨by rw [store, hs.busy], fun n p hp => hs.nobody n p (pass n ▸ hp)⟩
  | entered number _ _ _ _ p _ _ _ _ _ _ _ pass _ gate =>
    split at gate
    · rw [hs.busy] at gate
      exact absurd gate.1 (by simp)
    · next hp =>
        refine ⟨gate.trans hs.busy, fun n q hq => ?_⟩
        rw [pass] at hq
        split at hq
        · rwa [← Option.some.inj hq]
        · exact hs.nobody n q hq
  | advanced _ number p p' _ was record pass _ _ busy =>
    refine ⟨busy.trans hs.busy, fun n q hq => ?_⟩
    rw [pass] at hq
    split at hq
    · rw [← Option.some.inj hq, Pass.mutates, record]
      exact hs.nobody number p was
    · exact hs.nobody n q hq
  | left _ number p _ was pass _ gate =>
    rw [if_neg (hs.nobody number p was)] at gate
    exact ⟨gate.trans hs.busy, fun n q hq => hs.nobody n q (pass_of_removed pass hq).2⟩
  | panicked _ _ _ _ pass store =>
    exact ⟨by rw [store, hs.busy], fun n q hq => hs.nobody n q (pass_of_removed pass hq).2⟩

/-! ## Every step is one of these -/

variable [Json Value]

theorem register_of_held {id now : String} (hmutates : params.kind.asStr ∈ mutating)
    (hbusy : s.store.busy = true) : s.register number params key id now = s.refuse number key := by
  simp [register, OperationStore.acquire, hmutates, hbusy]

theorem register_of_free {id now : String}
    (hfree : params.kind.asStr ∈ mutating → s.store.busy = false) :
    s.register number params key id now =
      { s with store := (s.store.acquire params.kind.asStr).2 }.goto number
        (.reserving (.queue params key id now)) := by
  by_cases hmutates : params.kind.asStr ∈ mutating
  · simp [register, OperationStore.acquire, hmutates, hfree hmutates]
  · simp [register, OperationStore.acquire, hmutates]

theorem moved_register {id now : String} (hstage : s.stage number = some (.admitted params key))
    (hunused : s.Unused id) :
    Moved s (.register number id now) (s.register number params key id now) := by
  by_cases hheld : params.kind.asStr ∈ mutating ∧ s.store.busy = true
  · rw [register_of_held hheld.1 hheld.2]
    refine .refused number id now params key _ hstage hheld.1 hheld.2 (fun n => ?_) rfl rfl
    show ((s.done number).unlock key).pass n = s.pass n
    rw [pass_unlock, pass_done]
    split
    · next h => rw [← h, pass_of_stage hstage, Stage.pass]
    · rfl
  · have hfree : params.kind.asStr ∈ mutating → s.store.busy = false := fun hmutates =>
      Bool.not_eq_true _ ▸ fun hbusy => hheld ⟨hmutates, hbusy⟩
    rw [register_of_free hfree]
    refine .entered number id now params key
      { record := .queue params key id now, underway := false } _ hstage hunused rfl rfl rfl rfl
      (fun n => pass_goto) (fun id => OperationStore.get_acquire _) ?_ rfl
    show if params.kind.asStr ∈ mutating then s.store.busy = false ∧
      (s.store.acquire params.kind.asStr).2.busy = true
      else (s.store.acquire params.kind.asStr).2.busy = s.store.busy
    split
    · next hmutates => exact ⟨hfree hmutates, by simp [OperationStore.acquire, hmutates]⟩
    · next hmutates => simp [OperationStore.acquire, hmutates]

theorem moved_of_step (h : s.step turn = some s') : Moved s turn s' := by
  cases turn with
  | submit number params key =>
    simp only [step] at h
    cases hstage : s.stage number with
    | some stage =>
      rw [hstage] at h
      exact absurd h (by simp)
    | none =>
      rw [hstage] at h
      have hnone : s.pass number = none := by simp [pass, hstage]
      have hadmit : ∀ n, (s.goto number (.admitted params key)).pass n = s.pass n := by
        intro n
        rw [pass_goto]
        split
        · next h => rw [← h, hnone, Stage.pass]
        · rfl
      cases key with
      | none =>
        simp only [submit, Option.some.injEq] at h
        subst h
        exact .quiet _ _ hadmit (fun _ => rfl) rfl rfl trivial
      | some key =>
        simp only [submit] at h
        split at h
        · exact absurd h (by simp)
        · split at h
          · rw [Option.some.injEq] at h
            subst h
            exact .quiet _ _ (fun _ => rfl) (fun _ => rfl) rfl rfl trivial
          · rw [Option.some.injEq] at h
            subst h
            exact .quiet _ _ hadmit (fun _ => rfl) rfl rfl trivial
  | register number id now =>
    simp only [step] at h
    split at h
    · next params key hstage =>
        split at h
        · next hunused =>
            rw [Option.some.injEq] at h
            subst h
            exact moved_register hstage hunused
        · exact absurd h (by simp)
    · exact absurd h (by simp)
  | append number written =>
    simp only [step] at h
    split at h
    · next record hstage =>
        rw [Option.some.injEq] at h
        subst h
        exact moved_same hstage rfl (by cases written <;> rfl) trivial
    · exact absurd h (by simp)
  | reject number =>
    simp only [step] at h
    split at h
    · next record hstage =>
        rw [Option.some.injEq] at h
        subst h
        refine .left _ number { record := record, underway := false } _ (pass_of_stage hstage)
          (fun n => ?_) (fun _ => OperationStore.get_release _) OperationStore.busy_release rfl
          trivial
        rw [pass_unlock, pass_done]
        rfl
    · exact absurd h (by simp)
  | publish number =>
    simp only [step] at h
    split at h
    · next record hstage =>
        rw [Option.some.injEq] at h
        subst h
        refine .advanced _ number { record := record, underway := false }
          { record := record, underway := true } _ (pass_of_stage hstage) rfl (fun n => ?_)
          (fun id hid => ?_) (fun hqueued hmutates _ => ?_) rfl rfl trivial
        · rw [pass_goto]
          cases record.idempotencyKey <;> rfl
        · show (s.store.insert record).get id = _
          rw [OperationStore.get_insert, if_neg fun h => hid h.symm]
        · simp only [true_iff]
          exact OperationStore.underway_insert hqueued hmutates
    · exact absurd h (by simp)
  | reserve number =>
    simp only [step] at h
    split at h
    · next record hstage =>
        obtain ⟨key, -, rfl⟩ := Option.map_eq_some_iff.1 h
        exact .quiet _ _ (pass_goto_of_eq hstage rfl) (fun _ => rfl) rfl rfl trivial
    · exact absurd h (by simp)
  | spawn number =>
    simp only [step] at h
    split at h
    · next record hstage =>
        rw [Option.some.injEq] at h
        subst h
        exact moved_same hstage rfl rfl trivial
    · exact absurd h (by simp)
  | markRunning number now =>
    simp only [step] at h
    split at h
    · next record hstage =>
        rw [Option.some.injEq] at h
        subst h
        refine .advanced _ number { record := record, underway := true }
          { record := record, underway := true } _ (pass_of_stage hstage) rfl (fun n => pass_goto)
          (fun id hid => OperationStore.get_markRunning_ne hid) (fun _ _ hstatus => ?_)
          OperationStore.busy_markRunning rfl trivial
        simp only [true_iff] at hstatus ⊢
        exact hstatus.markRunning
    · exact absurd h (by simp)
  | finish number outcome now =>
    simp only [step] at h
    split at h
    · next record hstage =>
        rw [Option.some.injEq] at h
        subst h
        refine .advanced _ number { record := record, underway := true }
          { record := record, underway := false } _ (pass_of_stage hstage) rfl
          (fun n => pass_goto) (fun id hid => OperationStore.get_finish_ne hid)
          (fun _ _ _ => ?_) OperationStore.busy_finish rfl trivial
        simp only [Bool.false_eq_true, false_iff]
        exact OperationStore.not_underway_finish
    · exact absurd h (by simp)
  | panic number =>
    simp only [step] at h
    split at h
    · next record hstage =>
        rw [Option.some.injEq] at h
        subst h
        exact .panicked number { record := record, underway := true } _ (pass_of_stage hstage)
          (fun n => pass_done) rfl rfl
    · exact absurd h (by simp)
  | release number =>
    simp only [step] at h
    split at h
    · next record hstage =>
        rw [Option.some.injEq] at h
        subst h
        exact .left _ number { record := record, underway := false } _ (pass_of_stage hstage)
          (fun n => pass_done) (fun _ => OperationStore.get_release _)
          OperationStore.busy_release rfl trivial
    · exact absurd h (by simp)
  | cancel id =>
    simp only [step, Option.some.injEq] at h
    subst h
    exact .quiet _ _ (fun _ => rfl) (fun _ => OperationStore.get_cancel _)
      OperationStore.busy_cancel rfl trivial

end Service

section Runs

open Service

variable [Json Value] {s t : Service Value} {es : List (Turn Value)}

theorem leaked_of_run (hs : s.Leaked) (hrun : requests.run s es = some t) : t.Leaked :=
  requests.run_invariant (P := Leaked) (fun _ _ _ h hstep => h.moved (moved_of_step hstep)) hs hrun

theorem inv_of_run (hrun : requests.run fresh es = some s) : s.Inv :=
  requests.run_invariant (P := Inv) (fun _ _ _ h hstep => h.moved (moved_of_step hstep)) inv_fresh
    hrun

theorem gateKept_of_run (horderly : requests.EachStep Orderly fresh es)
    (hrun : requests.run fresh es = some s) : s.GateKept := by
  have hboth := StepSystem.EachStep.invariant requests (P := fun s => s.Inv ∧ s.GateKept)
    (fun s e s' h he hstep =>
      have hmoved := moved_of_step hstep
      ⟨h.1.moved hmoved, h.2.moved h.1 he hmoved⟩)
    ⟨inv_fresh, gateKept_fresh⟩ horderly hrun
  exact hboth.2

/-- The promises stand in every state of a run exactly when all its turns are orderly. -/
theorem gateKept_iff (hrun : requests.run fresh es = some s) :
    (∀ before after m, es = before ++ after → requests.run fresh before = some m → m.GateKept) ↔
      requests.EachStep Orderly fresh es := by
  constructor
  · intro hkept
    induction es using List.reverseRecOn generalizing s with
    | nil => trivial
    | append_singleton es turn ih =>
      obtain ⟨m, hm, hturn⟩ := requests.run_append_eq_some.1 hrun
      have hbefore := ih hm fun before after m' heq =>
        hkept before (after ++ [turn]) m' (by rw [heq, List.append_assoc])
      obtain ⟨m', hstep, hm'⟩ := requests.run_cons_eq_some.1 hturn
      rw [requests.run_nil, Option.some.injEq] at hm'
      subst hm'
      have hlast := hkept (es ++ [turn]) [] m' (by simp) hrun
      have horderly := orderly_of_gateKept (inv_of_run hm) (moved_of_step hstep) hlast
      refine requests.eachStep_append.2 ⟨hbefore, fun m₁ hm₁ => ?_⟩
      rw [hm, Option.some.injEq] at hm₁
      subst hm₁
      exact ⟨horderly, fun _ _ => trivial⟩
  · rintro horderly before after m rfl hm
    exact gateKept_of_run (requests.eachStep_append.1 horderly).1 hm

end Runs

/-! ## Runs that break the promises -/

/-- A submission of a run, answered `New`. -/
def newRun (number : Nat) (id : String) : List (Turn Scalar) :=
  [.submit number { kind := .run, echo := .null } none, .register number id "1",
    .append number true, .publish number]

def taskRun (number : Nat) : List (Turn Scalar) :=
  [.spawn number, .markRunning number "2"]

def panickedRun : List (Turn Scalar) :=
  newRun 0 "a" ++ taskRun 0 ++ [.panic 0]

/-- The second submission comes between the first one's outcome and its release. -/
def overtakingRun : List (Turn Scalar) :=
  newRun 0 "a" ++ taskRun 0 ++ [.finish 0 (.ok .null) "3",
    .submit 1 { kind := .promote, echo := .null } none, .register 1 "b" "4"]

/-- The second submission comes while the first one is under way, the third after it. -/
def orderlyRun : List (Turn Scalar) :=
  newRun 0 "a" ++ taskRun 0 ++ [.submit 1 { kind := .promote, echo := .null } none,
    .register 1 "b" "3", .finish 0 (.ok .null) "4", .release 0] ++ newRun 2 "c"

theorem gateKept_orderlyRun :
    ∃ s, requests.run Service.fresh orderlyRun = some s ∧
      ∀ before after m, orderlyRun = before ++ after →
        requests.run Service.fresh before = some m → m.GateKept := by
  have hsome : (requests.run Service.fresh orderlyRun).isSome = true := by decide +kernel
  obtain ⟨s, hrun⟩ := Option.isSome_iff_exists.1 hsome
  exact ⟨s, hrun, (gateKept_iff hrun).2 (by decide +kernel)⟩

theorem not_underway_of_rows {store : OperationStore Value} {id : String}
    (h : ∀ entry ∈ store.ops.rows, entry.record.status.terminal = true) : ¬store.Underway id := by
  rintro ⟨record, hrecord, -, hstatus⟩
  obtain ⟨entry, hentry, rfl⟩ := Option.map_eq_some_iff.1 hrecord
  have hid : entry.id = id := Table.key_of_get? hentry
  rw [h entry ((Table.mem_rows_iff _ _).2 (hid ▸ hentry))] at hstatus
  exact absurd hstatus (by simp)

/-- After a panic the gate is never free again, and between an operation's outcome and
its release a submission is refused for an operation that ended. -/
theorem gate_broken :
    (∃ s, requests.run Service.fresh panickedRun = some s ∧
      ∀ es t, requests.run s es = some t →
        t.store.busy = true ∧ ∀ n p, t.pass n = some p → ¬p.mutates) ∧
    ∃ s, requests.run Service.fresh overtakingRun = some s ∧
      ∃ refusal ∈ s.refused, ∀ id, ¬refusal.store.Underway id := by
  constructor
  · have hsome : (requests.run Service.fresh panickedRun).isSome = true := by decide +kernel
    obtain ⟨s, hrun⟩ := Option.isSome_iff_exists.1 hsome
    have hleaked : ∀ s ∈ requests.run Service.fresh panickedRun,
        s.store.busy = true ∧ s.requests.rows.isEmpty = true := by decide +kernel
    obtain ⟨hbusy, hempty⟩ := hleaked s hrun
    have hnobody : s.Leaked := by
      refine ⟨hbusy, fun n p hp hmutates => ?_⟩
      have hmem := Service.mem_holders.2 ⟨hmutates, n, hp⟩
      simp [Service.holders, List.isEmpty_iff.1 hempty] at hmem
    refine ⟨s, hrun, fun es t ht => ?_⟩
    have hleak := leaked_of_run hnobody ht
    exact ⟨hleak.busy, hleak.nobody⟩
  · have hsome : (requests.run Service.fresh overtakingRun).isSome = true := by decide +kernel
    obtain ⟨s, hrun⟩ := Option.isSome_iff_exists.1 hsome
    have hrefused : ∀ s ∈ requests.run Service.fresh overtakingRun,
        ∃ refusal ∈ s.refused, ∀ entry ∈ refusal.store.ops.rows,
          entry.record.status.terminal = true := by decide +kernel
    obtain ⟨refusal, hmem, hrows⟩ := hrefused s hrun
    exact ⟨s, hrun, refusal, hmem, fun id => not_underway_of_rows hrows⟩

end PhloTransform.Daemon
