import PhloTransform.Daemon.Operations
import PhloTransform.Library.LineJournal
import PhloTransform.Library.StepSystem

/-!
# Operation history across restarts

Submissions, transitions and restarts of the daemon, one after the other, with a journal
that never fails.  A recovery folds every journal line in and then appends one
`interrupted` line for every line it found in flight, whether or not a later line of the
same operation is terminal.

An operation that finished therefore comes through the first restart as it was, while
the journal's last word on it becomes `interrupted`, and the second restart believes the
journal.

Main results:

- Theorem `Registry.Sound.step`: the journal knows the operations of the registry, and
  its lines in flight carry no outcome.
- Theorem `outcome_of_run`: an operation's outcome after any number of restarts.
-/

namespace PhloTransform.Daemon

open Library

variable {Value : Type}

/-- The part of a record that reports how the operation ended. -/
structure Outcome (Value : Type) where
  status : OperationStatus
  result : Option Value
  error : Option OperationError
deriving DecidableEq

def OperationRecord.outcome (record : OperationRecord Value) : Outcome Value where
  status := record.status
  result := record.result
  error := record.error

/-- How an operation ended that was in flight when the daemon stopped. -/
def Outcome.interrupted : Outcome Value where
  status := .failed
  result := none
  error := some OperationRecord.interruption

/-- The outcome as the journal gives it back. -/
def Outcome.journaled [Json Value] (outcome : Outcome Value) : Outcome Value :=
  { outcome with result := outcome.result.bind Json.rereadOption }

/-! ## The daemon's calls, one after the other -/

/-- The registry of a running daemon and its journal. -/
structure Registry (Value : Type) where
  store : OperationStore Value
  journal : LineJournal (OperationRecord Value)

namespace Registry

def fresh : Registry Value where
  store := .new
  journal := .empty

/-- `journal_append`: one record line. -/
def note [Json Value] (s : Registry Value) (record : OperationRecord Value) : Registry Value :=
  { s with journal := s.journal.append record.journaled }

/-- Queue an operation; `none` when the gate is held. -/
def register [Json Value] (s : Registry Value) (params : Params Value) (key : Option String)
    (id now : String) : Option (OperationRecord Value × Registry Value) :=
  match s.store.acquire params.kind.asStr with
  | (some false, _) => none
  | (_, store) =>
    let record := OperationRecord.queue params key id now
    let s := { s with store := store }.note record
    some (record, { s with store := s.store.insert record })

def submit [Json Value] (s : Registry Value) (params : Params Value) (key : Option String)
    (id now : String) : SubmitOutcome Value × Registry Value :=
  match key.bind fun key => s.store.lookup key (requestHash params) with
  | some answer => (answer, s)
  | none =>
    match s.register params key id now with
    | none => (.busy, s)
    | some (record, s) =>
      match key with
      | some key => (.new record, { s with store := s.store.reserve key record.id })
      | none => (.new record, s)

/-- Journal a transition, if there was one. -/
def transition [Json Value] (s : Registry Value) :
    Option (OperationRecord Value × OperationStore Value) → Registry Value
  | some (record, store) => { s with store := store }.note record
  | none => s

/-- `OperationStore::open` on the journal of the daemon that ran before. -/
def reopen [Json Value] (s : Registry Value) (now : Nat → String) : Registry Value :=
  let recovery := recover now (s.journal.read.getD [])
  { store := recovery.store
    journal := (recovery.interrupted.map (·.journaled)).foldl LineJournal.append s.journal }

def outcome? (s : Registry Value) (id : String) : Option (Outcome Value) :=
  (s.store.get id).map (·.outcome)

end Registry

inductive Event (Value : Type) where
  | submit (params : Params Value) (key : Option String) (id now : String)
  | markRunning (id now : String)
  | finish (id : String) (outcome : Except OperationError Value) (now : String)
  | cancel (id : String)
  | release (kind : String)
  | restart (now : Nat → String)

def Registry.step [Json Value] (s : Registry Value) : Event Value → Option (Registry Value)
  | .submit params key id now =>
    if s.store.get id = none then some (s.submit params key id now).2 else none
  | .markRunning id now => some (s.transition (s.store.markRunning id now))
  | .finish id outcome now => some (s.transition (s.store.finish id outcome now))
  | .cancel id => some { s with store := s.store.cancel id }
  | .release kind => some { s with store := s.store.release kind }
  | .restart now => some (s.reopen now)

def daemon [Json Value] : StepSystem (Registry Value) (Event Value) where
  step := Registry.step

def Event.isRestart : Event Value → Bool
  | .restart _ => true
  | _ => false

/-! ## What a call changes -/

namespace OperationRecord

variable [Json Value] {record : OperationRecord Value}

@[simp]
theorem id_journaled : record.journaled.id = record.id :=
  rfl

@[simp]
theorem status_journaled : record.journaled.status = record.status :=
  rfl

@[simp]
theorem error_journaled : record.journaled.error = record.error :=
  rfl

theorem result_journaled (h : record.result = none) : record.journaled.result = none := by
  simp [journaled, h]

end OperationRecord

namespace Registry

variable {s s' : Registry Value} {e : Event Value}
variable {params : Params Value} {key : Option String}

/-- The transition that a record reports. -/
inductive Noted (s : Registry Value) (e : Event Value) (record : OperationRecord Value) : Prop
  | queued (habsent : s.store.get record.id = none) (hstatus : record.status = .queued)
      (hresult : record.result = none) (herror : record.error = none)
  | started (old : OperationRecord Value) (now : String)
      (hold : s.store.get record.id = some old) (hqueued : old.status = .queued)
      (hrecord : record = old.start now)
  | finished (old : OperationRecord Value) (outcome : Except OperationError Value) (now : String)
      (hevent : e = .finish record.id outcome now) (hold : s.store.get record.id = some old)
      (hrecord : record = old.finish (s.store.isCancelled record.id) outcome now)

/-- What a call does to the operations and to the journal. -/
inductive Moved [Json Value] (s : Registry Value) (e : Event Value) (s' : Registry Value) : Prop
  | quiet (hget : ∀ i, s'.store.get i = s.store.get i) (hjournal : s'.journal = s.journal)
      (hevent : e.isRestart = false)
  | noted (record : OperationRecord Value) (hnoted : Noted s e record)
      (hget : ∀ i, s'.store.get i = if record.id = i then some record else s.store.get i)
      (hjournal : s'.journal = s.journal.append record.journaled)
      (hevent : e.isRestart = false)
  | restarted (now : Nat → String) (hs' : s' = s.reopen now) (hevent : e.isRestart = true)

variable [Json Value]

theorem register_eq_some {id now : String} {record : OperationRecord Value}
    (h : s.register params key id now = some (record, s')) :
    record = .queue params key id now ∧
      (∀ i, s'.store.get i = if record.id = i then some record else s.store.get i) ∧
      s'.journal = s.journal.append record.journaled := by
  unfold register at h
  split at h
  · exact absurd h (by simp)
  · next store _ hacquire =>
      simp only [Option.some.injEq, Prod.mk.injEq] at h
      obtain ⟨rfl, rfl⟩ := h
      refine ⟨rfl, fun i => ?_, rfl⟩
      have hstore : store.get i = s.store.get i := by
        calc
          store.get i = (s.store.acquire params.kind.asStr).2.get i := by rw [hacquire]
          _ = s.store.get i := OperationStore.get_acquire _
      rw [OperationStore.get_insert, ← hstore]
      rfl

theorem moved_submit {id now : String} (hfresh : s.store.get id = none) :
    Moved s (.submit params key id now) (s.submit params key id now).2 := by
  unfold submit
  split
  · exact .quiet (fun _ => rfl) rfl rfl
  · split
    · exact .quiet (fun _ => rfl) rfl rfl
    · next record s' hregister =>
        obtain ⟨hrecord, hget, hjournal⟩ := register_eq_some hregister
        have hnoted : Noted s (.submit params key id now) record :=
          .queued (by rw [hrecord]; exact hfresh) (by rw [hrecord]; rfl) (by rw [hrecord]; rfl)
            (by rw [hrecord]; rfl)
        split
        · exact .noted record hnoted hget hjournal rfl
        · exact .noted record hnoted hget hjournal rfl

theorem moved_of_step (h : s.step e = some s') : Moved s e s' := by
  cases e with
  | submit params key id now =>
    simp only [step] at h
    split at h
    · next hfresh =>
        rw [← Option.some.inj h]
        exact moved_submit hfresh
    · exact absurd h (by simp)
  | markRunning id now =>
    rw [← Option.some.inj h]
    cases hmark : s.store.markRunning id now with
    | none => exact .quiet (fun _ => rfl) rfl rfl
    | some marked =>
      obtain ⟨record, store⟩ := marked
      obtain ⟨old, hold, hqueued, hrecord, hget, -⟩ := OperationStore.markRunning_eq_some hmark
      have hid : record.id = id := by
        rw [hrecord]
        exact (OperationStore.id_of_get hold : old.id = id)
      exact .noted record (.started old now (hid ▸ hold) hqueued hrecord)
        (fun i => hid ▸ hget i) rfl rfl
  | finish id outcome now =>
    rw [← Option.some.inj h]
    cases hfinish : s.store.finish id outcome now with
    | none => exact .quiet (fun _ => rfl) rfl rfl
    | some finished =>
      obtain ⟨record, store⟩ := finished
      obtain ⟨old, hold, hrecord, hget, -⟩ := OperationStore.finish_eq_some hfinish
      have hid : record.id = id := by
        rw [hrecord, OperationRecord.id_finish]
        exact OperationStore.id_of_get hold
      subst hid
      exact .noted record (.finished old outcome now rfl hold hrecord) hget rfl rfl
  | cancel id =>
    rw [← Option.some.inj h]
    exact .quiet (fun _ => OperationStore.get_cancel id) rfl rfl
  | release kind =>
    rw [← Option.some.inj h]
    exact .quiet (fun _ => OperationStore.get_release kind) rfl rfl
  | restart now => exact .restarted now (Option.some.inj h).symm rfl

/-! ## What the journal knows -/

/-- Every operation has its lines in the journal, the one it was queued with among them,
and nothing in flight has an outcome. -/
structure Sound (s : Registry Value) : Prop where
  ended : s.journal.last = []
  readable : s.journal.readable = true
  known : ∀ line ∈ s.journal.lines, ∃ record, s.store.get line.id = some record
  queued : ∀ id record, s.store.get id = some record →
    ∃ line ∈ s.journal.lines, line.id = id ∧ line.status.terminal = false
  in_flight : ∀ line ∈ s.journal.lines, line.status.terminal = false →
    line.result = none ∧ line.error = none
  unfinished : ∀ id record, s.store.get id = some record → record.status.terminal = false →
    record.result = none ∧ record.error = none ∧
      ∃ line, lastLine s.journal.lines id = some line ∧ line.status.terminal = false

omit [Json Value] in
theorem sound_fresh : Sound (fresh : Registry Value) where
  ended := rfl
  readable := rfl
  known _ h := absurd h (by simp [fresh])
  queued _ _ h := absurd h (by simp [fresh])
  in_flight _ h := absurd h (by simp [fresh])
  unfinished _ _ h := absurd h (by simp [fresh])

namespace Sound

variable {record : OperationRecord Value}
variable {line : OperationRecord Value}

omit [Json Value] in
theorem of_eq (hs : Sound s) (hget : ∀ i, s'.store.get i = s.store.get i)
    (hjournal : s'.journal = s.journal) : Sound s' where
  ended := hjournal ▸ hs.ended
  readable := hjournal ▸ hs.readable
  known := by simpa only [hget, hjournal] using hs.known
  queued := by simpa only [hget, hjournal] using hs.queued
  in_flight := by simpa only [hjournal] using hs.in_flight
  unfinished := by simpa only [hget, hjournal] using hs.unfinished

omit [Json Value] in
theorem noted_in_flight (hs : Sound s) (hnoted : Noted s e record)
    (hflight : record.status.terminal = false) : record.result = none ∧ record.error = none := by
  cases hnoted with
  | queued habsent hstatus hresult herror => exact ⟨hresult, herror⟩
  | started old now hold hqueued hrecord =>
    obtain ⟨hresult, herror, -⟩ := hs.unfinished _ old hold (by rw [hqueued]; rfl)
    rw [hrecord]
    exact ⟨hresult, herror⟩
  | finished old outcome now hevent hold hrecord =>
    rw [hrecord, OperationRecord.terminal_finish] at hflight
    exact absurd hflight (by simp)

theorem noted_queued (hs : Sound s) (hnoted : Noted s e record) :
    ∃ line ∈ s.journal.lines ++ [record.journaled],
      line.id = record.id ∧ line.status.terminal = false := by
  have hold : ∀ old, s.store.get record.id = some old →
      ∃ line ∈ s.journal.lines ++ [record.journaled],
        line.id = record.id ∧ line.status.terminal = false := by
    intro old hget
    obtain ⟨line, hline, hrest⟩ := hs.queued _ old hget
    exact ⟨line, List.mem_append_left _ hline, hrest⟩
  cases hnoted with
  | queued habsent hstatus hresult herror =>
    exact ⟨record.journaled, by simp, rfl, by rw [OperationRecord.status_journaled, hstatus]; rfl⟩
  | started old now hget hqueued hrecord => exact hold old hget
  | finished old outcome now hevent hget hrecord => exact hold old hget

theorem note (hs : Sound s) (hnoted : Noted s e record)
    (hget : ∀ i, s'.store.get i = if record.id = i then some record else s.store.get i)
    (hjournal : s'.journal = s.journal.append record.journaled) : Sound s' := by
  have hlines : s'.journal.lines = s.journal.lines ++ [record.journaled] := by
    rw [hjournal, LineJournal.lines_append hs.ended]
  constructor
  · rw [hjournal]
    rfl
  · rw [hjournal]
    exact hs.readable
  · intro line hline
    rw [hlines, List.mem_append, List.mem_singleton] at hline
    rw [hget]
    rcases hline with hline | rfl
    · split
      · exact ⟨record, rfl⟩
      · exact hs.known line hline
    · exact ⟨record, if_pos rfl⟩
  · intro id found hfound
    rw [hget] at hfound
    rw [hlines]
    by_cases hid : record.id = id
    · exact hid ▸ hs.noted_queued hnoted
    · rw [if_neg hid] at hfound
      obtain ⟨line, hline, hrest⟩ := hs.queued id found hfound
      exact ⟨line, List.mem_append_left _ hline, hrest⟩
  · intro line hline hflight
    rw [hlines, List.mem_append, List.mem_singleton] at hline
    rcases hline with hline | rfl
    · exact hs.in_flight line hline hflight
    · obtain ⟨hresult, herror⟩ := hs.noted_in_flight hnoted hflight
      exact ⟨OperationRecord.result_journaled hresult, herror⟩
  · intro id found hfound hflight
    rw [hget] at hfound
    rw [hlines, lastLine_snoc, OperationRecord.id_journaled]
    by_cases hid : record.id = id
    · rw [if_pos hid, Option.some.injEq] at hfound
      subst hfound
      obtain ⟨hresult, herror⟩ := hs.noted_in_flight hnoted hflight
      exact ⟨hresult, herror, record.journaled, if_pos hid, hflight⟩
    · rw [if_neg hid] at hfound
      rw [if_neg hid]
      exact hs.unfinished id found hfound hflight

theorem lines_reopen (hs : Sound s) (now : Nat → String) :
    (s.reopen now).journal.lines =
      s.journal.lines ++ (recover now s.journal.lines).interrupted.map (·.journaled) := by
  simp only [reopen, LineJournal.read, hs.readable, if_true, Option.getD_some]
  exact LineJournal.lines_foldl_append hs.ended

theorem store_reopen (hs : Sound s) (now : Nat → String) :
    (s.reopen now).store = (recover now s.journal.lines).store := by
  simp only [Registry.reopen, LineJournal.read, hs.readable, if_true, Option.getD_some]

theorem appended (hs : Sound s) {now : Nat → String}
    (h : line ∈ (recover now s.journal.lines).interrupted.map (·.journaled)) :
    line.outcome = .interrupted ∧ ∃ old ∈ s.journal.lines, old.id = line.id := by
  obtain ⟨record, hrecord, rfl⟩ := List.mem_map.1 h
  obtain ⟨old, hold, hflight, stamp, rfl⟩ := mem_interrupted hrecord
  obtain ⟨hresult, -⟩ := hs.in_flight old hold hflight
  refine ⟨?_, old, hold, rfl⟩
  simp [OperationRecord.outcome, OperationRecord.journaled, OperationRecord.interrupt, hresult,
    Outcome.interrupted]

theorem last_of_reopen (hs : Sound s) {id : String} (hline : line ∈ s.journal.lines)
    (hid : line.id = id) (hflight : line.status.terminal = false) (now : Nat → String) :
    (lastLine (s.reopen now).journal.lines id).map (·.outcome) = some .interrupted := by
  obtain ⟨noted, hnoted, hnotedid⟩ := exists_interrupted now hline hflight
  rw [hs.lines_reopen, lastLine_append]
  cases happended : lastLine ((recover now s.journal.lines).interrupted.map (·.journaled)) id with
  | none =>
    have hne := lastLine_eq_none.1 happended noted.journaled (List.mem_map_of_mem hnoted)
    exact absurd (hnotedid.trans hid) hne
  | some found =>
    obtain ⟨hmem, -⟩ := mem_of_lastLine happended
    simp [(hs.appended hmem).1]

theorem reopen (hs : Sound s) (now : Nat → String) : Sound (s.reopen now) := by
  have hknown : ∀ line ∈ s.journal.lines,
      ∃ record, (s.reopen now).store.get line.id = some record := by
    intro line hline
    obtain ⟨stamp, hget⟩ := recover_record now s.journal.lines line.id
    rw [hs.store_reopen, hget]
    cases hlast : lastLine s.journal.lines line.id with
    | none => exact absurd rfl (lastLine_eq_none.1 hlast line hline)
    | some found => exact ⟨found.restore stamp, rfl⟩
  constructor
  · exact LineJournal.last_foldl_append hs.ended
  · exact LineJournal.readable_foldl_append.trans hs.readable
  · intro line hline
    rw [hs.lines_reopen, List.mem_append] at hline
    rcases hline with hline | hline
    · exact hknown line hline
    · obtain ⟨-, old, hold, hid⟩ := hs.appended hline
      exact hid ▸ hknown old hold
  · intro id record hrecord
    obtain ⟨stamp, hget⟩ := recover_record now s.journal.lines id
    rw [hs.store_reopen, hget] at hrecord
    obtain ⟨last, hlast, -⟩ := Option.map_eq_some_iff.1 hrecord
    obtain ⟨hmem, hid⟩ := mem_of_lastLine hlast
    obtain ⟨held, hheld⟩ := hs.known last hmem
    obtain ⟨line, hline, hrest⟩ := hs.queued _ held hheld
    rw [hs.lines_reopen]
    exact ⟨line, List.mem_append_left _ hline, hid ▸ hrest⟩
  · intro line hline hflight
    rw [hs.lines_reopen, List.mem_append] at hline
    rcases hline with hline | hline
    · exact hs.in_flight line hline hflight
    · have hstatus : line.status = .failed := congrArg Outcome.status (hs.appended hline).1
      rw [hstatus] at hflight
      exact absurd hflight (by decide)
  · intro id record hrecord hflight
    obtain ⟨stamp, hget⟩ := recover_record now s.journal.lines id
    rw [hs.store_reopen, hget] at hrecord
    obtain ⟨last, -, rfl⟩ := Option.map_eq_some_iff.1 hrecord
    rw [OperationRecord.terminal_restore] at hflight
    exact absurd hflight (by simp)

theorem step (hs : Sound s) (h : s.step e = some s') : Sound s' := by
  cases moved_of_step h with
  | quiet hget hjournal hevent => exact hs.of_eq hget hjournal
  | noted record hnoted hget hjournal hevent => exact hs.note hnoted hget hjournal
  | restarted now hs' hevent => exact hs' ▸ hs.reopen now

end Sound

/-! ## What becomes of an ended operation -/

omit [Json Value] in
theorem outcome?_eq_some {o : Outcome Value} {id : String} :
    s.outcome? id = some o ↔ ∃ record, s.store.get id = some record ∧ record.outcome = o :=
  Option.map_eq_some_iff

/-- Memory and the journal's last line report these outcomes of an ended operation. -/
structure Stands (s : Registry Value) (id : String) (held written : Outcome Value) : Prop where
  in_memory : s.outcome? id = some held
  in_journal : (lastLine s.journal.lines id).map (·.outcome) = some written
  held_terminal : held.status.terminal = true
  written_terminal : written.status.terminal = true

/-- The executor of an operation finishes it once. -/
def FinishesOnce (s : Registry Value) : Event Value → Prop
  | .finish id _ _ => ∀ record ∈ s.store.get id, record.status.terminal = false
  | _ => True

instance (s : Registry Value) (e : Event Value) : Decidable (FinishesOnce s e) :=
  match e with
  | .finish id _ _ =>
    inferInstanceAs (Decidable (∀ record ∈ s.store.get id, record.status.terminal = false))
  | .submit .. | .markRunning .. | .cancel .. | .release .. | .restart .. => .isTrue trivial

namespace Stands

variable {id : String} {held written : Outcome Value}

omit [Json Value] in
theorem exists_record (h : s.Stands id held written) :
    ∃ record, s.store.get id = some record ∧ record.outcome = held ∧
      record.status.terminal = true := by
  obtain ⟨record, hget, houtcome⟩ := outcome?_eq_some.1 h.in_memory
  refine ⟨record, hget, houtcome, ?_⟩
  have hstatus : record.status = held.status := congrArg Outcome.status houtcome
  rw [hstatus]
  exact h.held_terminal

omit [Json Value] in
theorem ne_of_noted (h : s.Stands id held written) (hfin : FinishesOnce s e)
    {record : OperationRecord Value} (hnoted : Noted s e record) : record.id ≠ id := by
  rintro rfl
  obtain ⟨old, hget, -, hterminal⟩ := h.exists_record
  cases hnoted with
  | queued habsent hstatus hresult herror => simp [hget] at habsent
  | started found now hold hqueued hrecord =>
    rw [hget, Option.some.injEq] at hold
    subst hold
    rw [hqueued] at hterminal
    exact absurd hterminal (by decide)
  | finished found outcome now hevent hold hrecord =>
    rw [hevent] at hfin
    rw [hfin old hget] at hterminal
    exact absurd hterminal (by simp)

theorem reopen (hs : Sound s) (h : s.Stands id held written) (now : Nat → String) :
    (s.reopen now).Stands id written .interrupted := by
  obtain ⟨last, hlast, hwritten⟩ := Option.map_eq_some_iff.1 h.in_journal
  have hterminal : last.status.terminal = true := by
    have hstatus : last.status = written.status := congrArg Outcome.status hwritten
    rw [hstatus]
    exact h.written_terminal
  constructor
  · obtain ⟨stamp, hget⟩ := recover_record now s.journal.lines id
    rw [outcome?, hs.store_reopen, hget, hlast]
    simp [OperationRecord.restore, hterminal, hwritten]
  · obtain ⟨record, hrecord, -⟩ := h.exists_record
    obtain ⟨line, hline, hid, hflight⟩ := hs.queued id record hrecord
    exact hs.last_of_reopen hline hid hflight now
  · exact h.written_terminal
  · rfl

theorem step (hs : Sound s) (h : s.Stands id held written) (hfin : FinishesOnce s e)
    (hstep : s.step e = some s') :
    s'.Stands id (if e.isRestart then written else held)
      (if e.isRestart then .interrupted else written) := by
  cases moved_of_step hstep with
  | quiet hget hjournal hevent =>
    rw [hevent]
    exact ⟨by simpa [outcome?, hget] using h.in_memory, by simpa [hjournal] using h.in_journal,
      h.held_terminal, h.written_terminal⟩
  | noted record hnoted hget hjournal hevent =>
    have hne := h.ne_of_noted hfin hnoted
    rw [hevent]
    refine ⟨by simpa [outcome?, hget, hne] using h.in_memory, ?_, h.held_terminal,
      h.written_terminal⟩
    rw [hjournal, LineJournal.lines_append hs.ended, lastLine_snoc,
      OperationRecord.id_journaled, if_neg hne]
    exact h.in_journal
  | restarted now hs' hevent =>
    rw [hevent, hs']
    exact h.reopen hs now

end Stands

/-- An operation that is in flight at a restart comes back as `interrupted`. -/
theorem Sound.interrupted_of_reopen (hs : Sound s) {id : String}
    {record : OperationRecord Value} (hget : s.store.get id = some record)
    (hflight : record.status.terminal = false) (now : Nat → String) :
    (s.reopen now).Stands id .interrupted .interrupted := by
  obtain ⟨-, -, line, hlast, hline⟩ := hs.unfinished id record hget hflight
  obtain ⟨hmem, hid⟩ := mem_of_lastLine hlast
  obtain ⟨hresult, -⟩ := hs.in_flight line hmem hline
  refine ⟨?_, hs.last_of_reopen hmem hid hline now, rfl, rfl⟩
  obtain ⟨stamp, hrecover⟩ := recover_record now s.journal.lines id
  rw [outcome?, hs.store_reopen, hrecover, hlast]
  simp [OperationRecord.restore, hline, OperationRecord.outcome, OperationRecord.interrupt,
    hresult, Outcome.interrupted]

/-- The outcome after a number of restarts. -/
def afterRestarts (held written : Outcome Value) : Nat → Outcome Value
  | 0 => held
  | 1 => written
  | _ + 2 => .interrupted

omit [Json Value] in
@[simp]
theorem afterRestarts_interrupted (n : Nat) :
    afterRestarts .interrupted .interrupted n = (.interrupted : Outcome Value) := by
  match n with
  | 0 => rfl
  | 1 => rfl
  | _ + 2 => rfl

omit [Json Value] in
theorem afterRestarts_succ (held written : Outcome Value) (n : Nat) :
    afterRestarts held written (n + 1) = afterRestarts written .interrupted n := by
  match n with
  | 0 => rfl
  | 1 => rfl
  | _ + 2 => rfl

end Registry

open Registry

section Runs

variable [Json Value] {s t : Registry Value} {es : List (Event Value)} {id : String}
  {held written : Outcome Value}
variable {old : OperationRecord Value} {now : String} {cancelled : Bool}
  {before after : List (Event Value)}
variable {between : List (Event Value)}

def restarts (es : List (Event Value)) : Nat :=
  es.countP Event.isRestart

theorem sound_of_run (hs : Sound s) (hrun : daemon.run s es = some t) : Sound t :=
  daemon.run_invariant (fun _ _ _ h hstep => h.step hstep) hs hrun

/-- The outcome that `get` reports of an ended operation, after any run. -/
theorem outcome_of_run (hs : Sound s) (h : s.Stands id held written)
    (hfin : daemon.EachStep FinishesOnce s es) (hrun : daemon.run s es = some t) :
    t.outcome? id = some (afterRestarts held written (restarts es)) := by
  induction es generalizing s held written with
  | nil =>
    rw [StepSystem.run_nil, Option.some.injEq] at hrun
    exact hrun ▸ h.in_memory
  | cons e es ih =>
    obtain ⟨m, hstep, hrest⟩ := daemon.run_cons_eq_some.1 hrun
    have hnext := ih (hs.step hstep) (h.step hs hfin.1 hstep) (hfin.2 m hstep) hrest
    cases hrestart : e.isRestart with
    | false => simpa [restarts, hrestart] using hnext
    | true =>
      rw [restarts, List.countP_cons_of_pos hrestart, afterRestarts_succ]
      simpa [restarts, hrestart] using hnext

/-- The operation has ended; its outcome is `interrupted` in memory and in the journal, or
it was finished since it was queued. -/
def Ended (es : List (Event Value)) (s : Registry Value) (id : String) : Prop :=
  s.Stands id .interrupted .interrupted ∨
    ∃ before outcome now after m old, es = before ++ .finish id outcome now :: after ∧
      daemon.run fresh before = some m ∧ m.store.get id = some old

theorem ended_of_run (hfin : daemon.EachStep FinishesOnce fresh es)
    (hrun : daemon.run fresh es = some t) :
    ∀ id record, t.store.get id = some record → record.status.terminal = true → Ended es t id := by
  have hhistory := daemon.run_history
    (P := fun es s => daemon.run fresh es = some s ∧ Sound s ∧
      ∀ id record, s.store.get id = some record → record.status.terminal = true → Ended es s id)
    (Q := FinishesOnce) ?_ [] ⟨rfl, sound_fresh, by simp [fresh]⟩ hfin hrun
  · simpa using hhistory.2.2
  · rintro past s e s' ⟨hpast, hs, hended⟩ hone hstep
    refine ⟨(daemon.run_append_eq_some).2 ⟨s, hpast, by simp [StepSystem.run, hstep]⟩,
      hs.step hstep, fun id record hget hterminal => ?_⟩
    have hkeep : ∀ old, s.store.get id = some old → old.status.terminal = true →
        Ended (past ++ [e]) s' id := by
      intro old hold holdterminal
      rcases hended id old hold holdterminal with hstands | hfinished
      · have hnext := hstands.step hs hone hstep
        simp only [ite_self] at hnext
        exact .inl hnext
      · obtain ⟨before, outcome, now, after, m, found, rfl, hrest⟩ := hfinished
        exact .inr ⟨before, outcome, now, after ++ [e], m, found, by simp, hrest⟩
    cases moved_of_step hstep with
    | quiet hget' hjournal hevent => exact hkeep record (hget' id ▸ hget) hterminal
    | noted noted hnoted hget' hjournal hevent =>
      rw [hget'] at hget
      by_cases hid : noted.id = id
      · subst hid
        rw [if_pos rfl, Option.some.injEq] at hget
        subst hget
        cases hnoted with
        | queued habsent hstatus hresult herror =>
          rw [hstatus] at hterminal
          exact absurd hterminal (by decide)
        | started old now hold hqueued hrecord =>
          rw [hrecord] at hterminal
          exact absurd hterminal (by simp [OperationRecord.start, OperationStatus.terminal])
        | finished old outcome now hfinish hold hrecord =>
          exact .inr ⟨past, outcome, now, [], s, old, by rw [hfinish], hpast, hold⟩
      · rw [if_neg hid] at hget
        exact hkeep record hget hterminal
    | restarted now hs' hevent =>
      subst hs'
      obtain ⟨stamp, hrecover⟩ := recover_record now s.journal.lines id
      rw [hs.store_reopen, hrecover] at hget
      obtain ⟨line, hline, -⟩ := Option.map_eq_some_iff.1 hget
      obtain ⟨hmem, hid⟩ := mem_of_lastLine hline
      obtain ⟨old, hold⟩ := hs.known line hmem
      rw [hid] at hold
      cases hflight : old.status.terminal with
      | true => exact hkeep old hold hflight
      | false => exact .inl (hs.interrupted_of_reopen hold hflight now)

omit [Json Value] in
theorem exists_restarts (es : List (Event Value)) {n : Nat} (hn : n ≤ restarts es) :
    ∃ some rest, es = some ++ rest ∧ restarts some = n := by
  induction es generalizing n with
  | nil =>
    have hzero : n = 0 := by simpa [restarts] using hn
    exact ⟨[], [], rfl, hzero.symm⟩
  | cons e es ih =>
    match n with
    | 0 => exact ⟨[], e :: es, rfl, rfl⟩
    | n + 1 =>
      cases hrestart : e.isRestart with
      | false =>
        obtain ⟨part, rest, rfl, hpart⟩ := ih (n := n + 1) (by
          simpa [restarts, hrestart] using hn)
        exact ⟨e :: part, rest, rfl, by simpa [restarts, hrestart] using hpart⟩
      | true =>
        obtain ⟨part, rest, rfl, hpart⟩ := ih (n := n) (by
          simpa [restarts, hrestart] using hn)
        exact ⟨e :: part, rest, rfl, by simpa [restarts, hrestart] using hpart⟩

/-! ## The runs in which the history is stable -/

theorem stands_of_finish {outcome : Except OperationError Value} (hs : Sound s)
    (hold : s.store.get id = some old) (hstep : s.step (.finish id outcome now) = some t) :
    t.Stands id (old.finish (s.store.isCancelled id) outcome now).outcome
      (old.finish (s.store.isCancelled id) outcome now).outcome.journaled := by
  rw [← Option.some.inj hstep]
  cases hfinish : s.store.finish id outcome now with
  | none =>
    have habsent := Option.map_eq_none_iff.1 hfinish
    simp [OperationStore.get, habsent] at hold
  | some finished =>
    obtain ⟨record, store⟩ := finished
    obtain ⟨found, hfound, rfl, hget, -⟩ := OperationStore.finish_eq_some hfinish
    rw [hold, Option.some.injEq] at hfound
    subst hfound
    have hid : old.id = id := OperationStore.id_of_get hold
    have hterminal :
        (old.finish (s.store.isCancelled id) outcome now).outcome.status.terminal = true :=
      OperationRecord.terminal_finish
    refine ⟨?_, ?_, hterminal, hterminal⟩
    · simp [outcome?, transition, note, hget]
    · simp only [transition, note]
      rw [LineJournal.lines_append hs.ended, lastLine_snoc, OperationRecord.id_journaled,
        OperationRecord.id_finish, if_pos hid]
      rfl

/-- The restarts that an operation survives which ended with an outcome: none, where the
result does not read back as it was written; one; or any number, where the outcome is that
of an interrupted operation. -/
def Survives (cancelled : Bool) (outcome : Except OperationError Value) (n : Nat) : Prop :=
  (n = 0 ∨ ∀ result, outcome = .ok result → Json.rereadOption result = some result) ∧
    (n ≤ 1 ∨ outcome = .error OperationRecord.interruption ∧ cancelled = false)

omit [Json Value] in
theorem finish_eq_interrupted {outcome : Except OperationError Value} (hresult : old.result = none)
    :
    Outcome.interrupted = (old.finish cancelled outcome now).outcome ↔
      outcome = .error OperationRecord.interruption ∧ cancelled = false := by
  cases outcome with
  | ok result =>
    cases cancelled <;> simp [OperationRecord.finish, OperationRecord.outcome,
      Outcome.interrupted]
  | error error =>
    cases cancelled <;> simp [OperationRecord.finish, OperationRecord.outcome,
      Outcome.interrupted, hresult, eq_comm]

theorem finish_journaled {outcome : Except OperationError Value} (hresult : old.result = none) :
    (old.finish cancelled outcome now).outcome.journaled =
        (old.finish cancelled outcome now).outcome ↔
      ∀ result, outcome = .ok result → Json.rereadOption result = some result := by
  cases outcome with
  | ok result => simp [OperationRecord.finish, OperationRecord.outcome, Outcome.journaled]
  | error error =>
    simp [OperationRecord.finish, OperationRecord.outcome, Outcome.journaled, hresult]

theorem survives_iff {outcome : Except OperationError Value} (now : String)
    (hresult : old.result = none) (n : Nat) :
    (∀ m ≤ n, afterRestarts (old.finish cancelled outcome now).outcome
      (old.finish cancelled outcome now).outcome.journaled m =
        (old.finish cancelled outcome now).outcome) ↔ Survives cancelled outcome n := by
  constructor
  · intro h
    constructor
    · rcases Nat.eq_zero_or_pos n with hzero | hpos
      · exact .inl hzero
      · exact .inr ((finish_journaled hresult).1 (h 1 hpos))
    · rcases Nat.lt_or_ge 1 n with hmany | hfew
      · exact .inr ((finish_eq_interrupted hresult).1 (h 2 hmany))
      · exact .inl hfew
  · rintro ⟨honce, htwice⟩ m hm
    match m with
    | 0 => rfl
    | 1 =>
      rcases honce with hzero | hreread
      · omega
      · exact (finish_journaled hresult).2 hreread
    | m + 2 =>
      rcases htwice with hfew | hinterrupted
      · omega
      · exact (finish_eq_interrupted hresult).2 hinterrupted

/-- What a run makes of an operation after it was finished. -/
theorem outcome_after_finish {outcome : Except OperationError Value}
    (hfin : daemon.EachStep FinishesOnce fresh (before ++ .finish id outcome now :: after))
    (hbefore : daemon.run fresh before = some s) (hold : s.store.get id = some old)
    (hrun : daemon.run fresh (before ++ .finish id outcome now :: after) = some t) :
    old.result = none ∧ t.outcome? id =
      some (afterRestarts (old.finish (s.store.isCancelled id) outcome now).outcome
        (old.finish (s.store.isCancelled id) outcome now).outcome.journaled (restarts after)) := by
  obtain ⟨hone, hlater⟩ := (daemon.eachStep_append.1 hfin).2 s hbefore
  obtain ⟨s₀, hs₀, hrest⟩ := daemon.run_append_eq_some.1 hrun
  rw [hbefore, Option.some.injEq] at hs₀
  subst hs₀
  obtain ⟨m, hstep, hafter⟩ := daemon.run_cons_eq_some.1 hrest
  have hs := sound_of_run sound_fresh hbefore
  obtain ⟨hresult, -, -⟩ := hs.unfinished id old hold (hone old hold)
  have hfinish : s.step (.finish id outcome now) = some m := hstep
  exact ⟨hresult, outcome_of_run (hs.step hfinish) (stands_of_finish hs hold hfinish)
    (hlater m hstep) hafter⟩

/-- What `get` reports of an ended operation never changes, and an operation that was in
flight at a restart has failed with `interrupted` from then on. -/
structure HistoryStable (es : List (Event Value)) : Prop where
  ended : ∀ before between after s t, es = before ++ between ++ after →
    daemon.run fresh before = some s → daemon.run s between = some t →
    ∀ id record, s.store.get id = some record → record.status.terminal = true →
      t.outcome? id = some record.outcome
  interrupted : ∀ before now between after s t,
    es = before ++ .restart now :: between ++ after →
    daemon.run fresh before = some s → daemon.run s (.restart now :: between) = some t →
    ∀ id record, s.store.get id = some record → record.status.terminal = false →
      t.outcome? id = some .interrupted

/-- Every operation that a run finishes survives the restarts that follow. -/
def FinishedSurvive (es : List (Event Value)) : Prop :=
  ∀ before id outcome now after s old, es = before ++ .finish id outcome now :: after →
    daemon.run fresh before = some s → s.store.get id = some old →
    Survives (s.store.isCancelled id) outcome (restarts after)

theorem HistoryStable.finishedSurvive (hfin : daemon.EachStep FinishesOnce fresh es)
    (hrun : daemon.run fresh es = some t) (hstable : HistoryStable es) : FinishedSurvive es := by
  rintro before id outcome now after s old rfl hbefore hold
  obtain ⟨hresult, -⟩ := outcome_after_finish hfin hbefore hold hrun
  refine (survives_iff now hresult (restarts after)).1 fun n hn => ?_
  obtain ⟨part, rest, rfl, hpart⟩ := exists_restarts after hn
  -- the states right after `finish`, and after as many restarts as asked for
  obtain ⟨u, hu, -⟩ := daemon.run_append_eq_some.1
    (show daemon.run fresh ((before ++ .finish id outcome now :: part) ++ rest) = some t by
      simpa using hrun)
  obtain ⟨m, hm, hmu⟩ := daemon.run_append_eq_some.1
    (show daemon.run fresh ((before ++ [.finish id outcome now]) ++ part) = some u by
      simpa using hu)
  have hfinu : daemon.EachStep FinishesOnce fresh (before ++ .finish id outcome now :: part) :=
    (daemon.eachStep_append.1 (by simpa using hfin :
      daemon.EachStep FinishesOnce fresh ((before ++ .finish id outcome now :: part) ++ rest))).1
  have hfinm : daemon.EachStep FinishesOnce fresh (before ++ [.finish id outcome now]) :=
    (daemon.eachStep_append.1 (by simpa using hfinu :
      daemon.EachStep FinishesOnce fresh ((before ++ [.finish id outcome now]) ++ part))).1
  obtain ⟨-, hatM⟩ := outcome_after_finish hfinm hbefore hold hm
  obtain ⟨-, hatU⟩ := outcome_after_finish hfinu hbefore hold hu
  obtain ⟨record, hrecord, houtcome⟩ := outcome?_eq_some.1 hatM
  have hterminal : record.status.terminal = true := by
    have hstatus : record.status = _ := congrArg Outcome.status houtcome
    rw [hstatus]
    exact OperationRecord.terminal_finish
  have hkept := hstable.ended _ part rest m u (by simp) hm hmu id record hrecord hterminal
  rw [hatU, hpart, houtcome] at hkept
  exact Option.some.inj hkept

theorem FinishedSurvive.ended (hfin : daemon.EachStep FinishesOnce fresh es)
    (hsurvive : FinishedSurvive es) (hes : es = before ++ between ++ after)
    (hbefore : daemon.run fresh before = some s) (hbetween : daemon.run s between = some t)
    {record : OperationRecord Value} (hrecord : s.store.get id = some record)
    (hterminal : record.status.terminal = true) : t.outcome? id = some record.outcome := by
  subst hes
  obtain ⟨hfirst, -⟩ := daemon.eachStep_append.1 hfin
  obtain ⟨hbeforefin, hbetweenfin⟩ := daemon.eachStep_append.1 hfirst
  have hboth : daemon.run fresh (before ++ between) = some t :=
    daemon.run_append_eq_some.2 ⟨s, hbefore, hbetween⟩
  have hreported : s.outcome? id = some record.outcome := by simp [outcome?, hrecord]
  rcases ended_of_run hbeforefin hbefore id record hrecord hterminal with hstands | hfinished
  · have hlast := outcome_of_run (sound_of_run sound_fresh hbefore) hstands
      (hbetweenfin s hbefore) hbetween
    rw [hlast, afterRestarts_interrupted, ← hstands.in_memory, hreported]
  · obtain ⟨past, outcome, now, next, m, old, rfl, hpast, hold⟩ := hfinished
    rw [List.append_assoc, List.cons_append] at hboth hfirst
    obtain ⟨hresult, hatS⟩ := outcome_after_finish hbeforefin hpast hold hbefore
    obtain ⟨-, hatT⟩ := outcome_after_finish hfirst hpast hold hboth
    have hall := (survives_iff now hresult _).2
      (hsurvive past id outcome now (next ++ between ++ after) m old (by simp) hpast hold)
    rw [hall _ (by simp [restarts])] at hatS
    rw [hall _ (by simp [restarts])] at hatT
    rw [hatT, ← hatS, hreported]

theorem interrupted_of_run (hfin : daemon.EachStep FinishesOnce fresh es) {now : Nat → String}
    (hes : es = before ++ .restart now :: between ++ after)
    (hbefore : daemon.run fresh before = some s)
    (hbetween : daemon.run s (.restart now :: between) = some t) {record : OperationRecord Value}
    (hrecord : s.store.get id = some record) (hflight : record.status.terminal = false) :
    t.outcome? id = some .interrupted := by
  subst hes
  obtain ⟨hfirst, -⟩ := daemon.eachStep_append.1 hfin
  obtain ⟨-, hbetweenfin⟩ := (daemon.eachStep_append.1 hfirst).2 s hbefore
  have hs := sound_of_run sound_fresh hbefore
  obtain ⟨m, hstep, hrest⟩ := daemon.run_cons_eq_some.1 hbetween
  have hrestart : s.step (.restart now) = some m := hstep
  have hm : s.reopen now = m := Option.some.inj hrestart
  have hstands := hs.interrupted_of_reopen hrecord hflight now
  rw [hm] at hstands
  rw [outcome_of_run (hs.step hrestart) hstands (hbetweenfin m hstep) hrest,
    afterRestarts_interrupted]

/-- The history of a run is stable if and only if every finished operation survives the
restarts that follow: with a result that reads back it survives one restart, and a second
one only as an interrupted operation. -/
theorem historyStable_iff (hfin : daemon.EachStep FinishesOnce fresh es)
    (hrun : daemon.run fresh es = some t) : HistoryStable es ↔ FinishedSurvive es := by
  constructor
  · exact fun hstable => hstable.finishedSurvive hfin hrun
  · intro hsurvive
    constructor
    · intro before between after s u hes hbefore hbetween id record hrecord hterminal
      exact hsurvive.ended hfin hes hbefore hbetween hrecord hterminal
    · intro before now between after s u hes hbefore hbetween id record hrecord hflight
      exact interrupted_of_run hfin hes hbefore hbetween hrecord hflight

end Runs

/-! ## A run with a restart, and with two -/

/-- A run is submitted, executed and finished, and the daemon restarts. -/
def restartedOnce : List (Event Scalar) :=
  [.submit { kind := .run, echo := .null } (some "k1") "op" "t0", .markRunning "op" "t1",
    .finish "op" (.ok (.text "passed")) "t2", .restart fun _ => "t3"]

def restartedTwice : List (Event Scalar) :=
  restartedOnce ++ [.restart fun _ => "t4"]

theorem historyStable_restartedOnce : HistoryStable restartedOnce ↔ FinishedSurvive restartedOnce :=
  historyStable_iff (by decide +kernel)
    (Option.some_get (by decide +kernel : (daemon.run fresh restartedOnce).isSome)).symm

/-- The operation succeeded, and after the second restart it is `interrupted`. -/
theorem succeeded_lost_on_second_restart :
    (daemon.run fresh restartedOnce).bind (·.outcome? "op") =
        some { status := .succeeded, result := some (.text "passed"), error := none } ∧
      (daemon.run fresh restartedTwice).bind (·.outcome? "op") = some .interrupted ∧
      ¬ HistoryStable restartedTwice := by
  refine ⟨by decide +kernel, by decide +kernel, fun hstable => ?_⟩
  have hsome : (daemon.run fresh restartedTwice).isSome := by decide +kernel
  obtain ⟨t, ht⟩ := Option.isSome_iff_exists.1 hsome
  obtain ⟨s, hs, hst⟩ := daemon.run_append_eq_some.1 (show daemon.run fresh
    (restartedOnce ++ [.restart fun _ => "t4"]) = some t from ht)
  have hfirst : s.outcome? "op" =
      some { status := .succeeded, result := some (.text "passed"), error := none } := by
    have hat : (daemon.run fresh restartedOnce).bind (·.outcome? "op") =
        some { status := .succeeded, result := some (.text "passed"), error := none } := by
      decide +kernel
    simpa [hs] using hat
  have hsecond : t.outcome? "op" = some .interrupted := by
    have hat : (daemon.run fresh restartedTwice).bind (·.outcome? "op") = some .interrupted := by
      decide +kernel
    simpa [ht] using hat
  obtain ⟨record, hrecord, houtcome⟩ := outcome?_eq_some.1 hfirst
  have hstatus : record.status = .succeeded := congrArg Outcome.status houtcome
  have hkept := hstable.ended restartedOnce [.restart fun _ => "t4"] [] s t (by
    simp [restartedTwice]) hs hst "op" record hrecord (by rw [hstatus]; rfl)
  rw [hsecond, houtcome] at hkept
  exact absurd (Option.some.inj hkept) (by decide)

end PhloTransform.Daemon
