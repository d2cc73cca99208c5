import PhloTransform.Daemon.Executors
import PhloTransform.Library.RaisedFlag
import PhloTransform.Library.Slots
import PhloTransform.Library.StepSystem

/-!
# The cancelled status

While an operation is executed, others may cancel it.  `finish` makes the final status from the
cancel flag as it stands then, whatever the executor has done; the flag may have been set after
the executor last looked at it.

Main results:

- Theorem `Following.of_run`: the flag, the looks that found it set and the order of events agree
  in every run.
- Theorem `cancelled_truthful_iff`: the status is true exactly if the executor looks at the flag
  after it was set, or it never is.
-/

namespace PhloTransform.Daemon

open Library

variable {Value : Type}

/-! ## An operation and its cancellation -/

/-- An operation that is being executed. -/
structure Operation (x : Executor Value) where
  store : OperationStore Value
  state : x.State
  begun : Bool
  /-- What the executor returned, once `finish` has been called. -/
  finished : Option (Except OperationError Value)
  /-- A look has found the flag set, and the executor has left out what it would have done. -/
  stopped : Bool
  marks : List Mark

/-- What happens to an operation. -/
inductive OperationTurn (x : Executor Value) where
  | cancel
  | markRunning (now : String)
  | act (e : x.Event)
  | finish (now : String)

namespace Operation

variable {x : Executor Value}

def start (x : Executor Value) (store : OperationStore Value) : Operation x where
  store := store
  state := x.start
  begun := false
  finished := none
  stopped := false
  marks := []

/-- One turn of the operation `id`. -/
def step (id : String) (s : Operation x) : OperationTurn x → Option (Operation x)
  | .cancel =>
    some { s with
      store := s.store.cancel id
      marks := if s.finished.isNone then s.marks ++ [.raise] else s.marks }
  | .markRunning now =>
    if s.begun then none
    else some { s with
      begun := true
      store := ((s.store.markRunning id now).map Prod.snd).getD s.store }
  | .act e =>
    if s.begun ∧ s.finished = none ∧ (x.outcome s.state).isNone then
      let set := x.looks s.state e && s.store.isCancelled id
      (x.step set s.state e).map fun state =>
        { s with
          state
          stopped := s.stopped || set
          marks := s.marks ++ [if x.looks s.state e then .look else .work] }
    else none
  | .finish now =>
    if s.begun ∧ s.finished = none then
      (x.outcome s.state).bind fun outcome =>
        (s.store.finish id outcome now).map fun (_, store) =>
          { s with store, finished := some outcome }
    else none

end Operation

/-- The operation `id` under its executor. -/
def operation (x : Executor Value) (id : String) :
    StepSystem (Operation x) (OperationTurn x) where
  step := Operation.step id

/-! ## The flag in a run -/

section Flag

variable {store : OperationStore Value} {id : String} {entry : OperationEntry Value}

theorem get?_cancel (hentry : store.ops.get? id = some entry)
    (hopen : entry.record.status.terminal = false) :
    (store.cancel id).ops.get? id = some { entry with cancelled := true } := by
  have hid : entry.record.id = id := OperationStore.id_of_entry hentry
  unfold OperationStore.cancel
  rw [hentry]
  dsimp only
  rw [if_neg (by simp [hopen])]
  exact (Table.get?_put ..).trans (if_pos hid)

theorem get?_markRunning (now : String) (hentry : store.ops.get? id = some entry)
    (hopen : entry.record.status.terminal = false) :
    ∃ entry', (((store.markRunning id now).map Prod.snd).getD store).ops.get? id = some entry' ∧
      entry'.record.status.terminal = false ∧ entry'.cancelled = entry.cancelled := by
  unfold OperationStore.markRunning
  rw [hentry, Option.bind_some]
  by_cases hqueued : entry.record.status = .queued
  · have hid : entry.record.id = id := OperationStore.id_of_entry hentry
    refine ⟨{ entry with record := entry.record.start now }, ?_, rfl, rfl⟩
    rw [if_pos hqueued, Option.map_some, Option.getD_some]
    exact (Table.get?_put ..).trans (if_pos hid)
  · refine ⟨entry, ?_, hopen, rfl⟩
    rw [if_neg hqueued, Option.map_none, Option.getD_none, hentry]

end Flag

/-- The flag and the looks that found it set, as the order of events has it. -/
structure Following (id : String) {x : Executor Value} (s : Operation x) : Prop where
  stopped_iff : s.stopped = true ↔ Noticed s.marks
  begun : s.finished ≠ none → s.begun = true
  underway : s.finished = none → ∃ entry, s.store.ops.get? id = some entry ∧
    entry.record.status.terminal = false ∧ (entry.cancelled = true ↔ .raise ∈ s.marks)
  ended : ∀ outcome, s.finished = some outcome → ∃ record now raised,
    s.store.get id = some (OperationRecord.finish record raised outcome now) ∧
      (raised = true ↔ .raise ∈ s.marks)

namespace Following

variable {id : String} {x : Executor Value} {s t : Operation x}

theorem start {store : OperationStore Value} {entry : OperationEntry Value}
    (hentry : store.ops.get? id = some entry) (hqueued : entry.record.status = .queued)
    (hclear : entry.cancelled = false) : Following id (Operation.start x store) where
  stopped_iff := by simp [Operation.start, not_noticed_nil]
  begun := fun h => absurd rfl h
  underway := fun _ => ⟨entry, hentry, by rw [hqueued]; rfl, by simp [Operation.start, hclear]⟩
  ended := fun _ h => by cases h

theorem cancel (h : Following id s) {u : Operation x}
    (hu : Operation.step id s .cancel = some u) : Following id u := by
  cases hu
  by_cases hfinished : s.finished = none
  · obtain ⟨entry, hentry, hopen, -⟩ := h.underway hfinished
    rw [hfinished, Option.isNone_none, if_pos rfl]
    refine ⟨?_, fun hne => absurd rfl hne, ?_, fun outcome houtcome => by cases houtcome⟩
    · exact h.stopped_iff.trans (noticed_concat (by simp)).symm
    · exact fun _ => ⟨_, get?_cancel hentry hopen, hopen, by simp⟩
  · obtain ⟨outcome, houtcome⟩ := Option.ne_none_iff_exists'.1 hfinished
    rw [houtcome, Option.isNone_some, if_neg (by simp)]
    refine ⟨h.stopped_iff, fun _ => h.begun hfinished, fun hnone => (by cases hnone), ?_⟩
    rintro outcome' ⟨⟩
    obtain ⟨record, now, raised, hget, hraised⟩ := h.ended outcome houtcome
    exact ⟨record, now, raised, by rw [OperationStore.get_cancel, hget], hraised⟩

theorem markRunning (h : Following id s) {now : String} {u : Operation x}
    (hu : Operation.step id s (.markRunning now) = some u) : Following id u := by
  by_cases hbegun : s.begun
  · simp [Operation.step, hbegun] at hu
  · have hfinished : s.finished = none := by
      by_contra hne
      exact hbegun (h.begun hne)
    simp only [Operation.step, hbegun, Bool.false_eq_true, if_false, Option.some.injEq] at hu
    subst hu
    obtain ⟨entry, hentry, hopen, hflag⟩ := h.underway hfinished
    obtain ⟨entry', hentry', hopen', hsame⟩ := get?_markRunning now hentry hopen
    refine ⟨h.stopped_iff, fun _ => rfl,
      fun _ => ⟨entry', hentry', hopen', by rw [hsame, hflag]⟩, ?_⟩
    intro outcome houtcome
    dsimp only at houtcome
    rw [hfinished] at houtcome
    cases houtcome

/-- A step of the executor: a look finds the flag as the order of events has it. -/
theorem act (h : Following id s) {e : x.Event} {u : Operation x}
    (hu : Operation.step id s (.act e) = some u) : Following id u := by
  simp only [Operation.step] at hu
  split at hu
  · rename_i hready
    obtain ⟨-, hfinished, -⟩ := hready
    obtain ⟨state, -, rfl⟩ := Option.map_eq_some_iff.1 hu
    obtain ⟨entry, hentry, hopen, hflag⟩ := h.underway hfinished
    have hcancelled : s.store.isCancelled id = entry.cancelled := by
      simp [OperationStore.isCancelled, hentry]
    refine ⟨?_, h.begun, fun _ => ⟨entry, hentry, hopen, ?_⟩, ?_⟩
    · cases hlooks : x.looks s.state e with
      | false => simpa using h.stopped_iff.trans (noticed_concat (by simp)).symm
      | true =>
        simp only [hcancelled, Bool.true_and, Bool.or_eq_true, if_true, noticed_concat_look]
        rw [hflag, h.stopped_iff]
        exact ⟨fun hor => hor.elim Noticed.raised (fun h => h), Or.inr⟩
    · rw [hflag]
      cases x.looks s.state e <;> simp
    · intro outcome houtcome
      dsimp only at houtcome
      rw [hfinished] at houtcome
      cases houtcome
  · cases hu

theorem finish (h : Following id s) {now : String} {u : Operation x}
    (hu : Operation.step id s (.finish now) = some u) : Following id u := by
  simp only [Operation.step] at hu
  split at hu
  · rename_i hready
    obtain ⟨hbegun, hfinished⟩ := hready
    obtain ⟨outcome, -, hu⟩ := Option.bind_eq_some_iff.1 hu
    obtain ⟨⟨record, store⟩, hstore, rfl⟩ := Option.map_eq_some_iff.1 hu
    obtain ⟨entry, hentry, hopen, hflag⟩ := h.underway hfinished
    obtain ⟨old, hold, hrecord, hget, -⟩ := OperationStore.finish_eq_some hstore
    refine ⟨h.stopped_iff, fun _ => hbegun, fun hnone => (by cases hnone), ?_⟩
    intro outcome' houtcome
    cases houtcome
    refine ⟨old, now, s.store.isCancelled id, ?_, ?_⟩
    · rw [hget, if_pos rfl, hrecord]
    · rw [← hflag]
      simp [OperationStore.isCancelled, hentry]
  · cases hu

theorem step {turn : OperationTurn x} (h : Following id s)
    (hstep : (operation x id).step s turn = some t) : Following id t := by
  cases turn with
  | cancel => exact h.cancel hstep
  | markRunning now => exact h.markRunning hstep
  | act e => exact h.act hstep
  | finish now => exact h.finish hstep

/-- In every run the flag and the looks are as the order of events has them. -/
theorem of_run {turns : List (OperationTurn x)} (h : Following id s)
    (hrun : (operation x id).run s turns = some t) : Following id t :=
  (operation x id).run_invariant (fun _ _ _ h hstep => h.step hstep) h hrun

end Following

/-! ## The final status -/

/-- The record of an operation says how the executor ended. -/
structure OperationRecord.Truthful (record : OperationRecord Value)
    (outcome : Except OperationError Value) (stopped : Bool) : Prop where
  cancelled : record.status = .cancelled ↔ stopped = true
  succeeded : stopped = false → ∀ value, outcome = .ok value →
    record.status = .succeeded ∧ record.result = some value
  failed : stopped = false → ∀ error, outcome = .error error →
    record.status = .failed ∧ record.error = some error

/-- The flag is never set, or the executor looks at it after it was. -/
def CancelNoticed (marks : List Mark) : Prop := .raise ∈ marks → Noticed marks

/-- `finish` tells the truth exactly if the flag it finds set stopped the executor. -/
theorem truthful_finish_iff (record : OperationRecord Value)
    (outcome : Except OperationError Value) (now : String) {raised stopped : Bool}
    (himp : stopped = true → raised = true) :
    (record.finish raised outcome now).Truthful outcome stopped ↔
      (raised = true → stopped = true) := by
  constructor
  · rintro h hraised
    have hstatus : (record.finish raised outcome now).status = .cancelled := by
      cases outcome <;> simp [OperationRecord.finish, hraised]
    exact h.cancelled.1 hstatus
  · intro h
    cases hraised : raised with
    | true =>
      have hstopped := h hraised
      refine ⟨?_, ?_, ?_⟩
      · simp only [hstopped, iff_true]
        cases outcome <;> simp [OperationRecord.finish]
      · simp [hstopped]
      · simp [hstopped]
    | false =>
      have hstopped : stopped = false := by
        cases stopped with
        | false => rfl
        | true => rw [himp rfl] at hraised; cases hraised
      refine ⟨?_, ?_, ?_⟩
      · cases outcome <;> simp [OperationRecord.finish, hstopped]
      · rintro - value rfl
        exact ⟨rfl, rfl⟩
      · rintro - error rfl
        exact ⟨rfl, rfl⟩

/-- The final record is truthful exactly if a cancellation is noticed. -/
theorem Following.truthful_iff {id : String} {x : Executor Value} {s : Operation x}
    (h : Following id s) {outcome : Except OperationError Value}
    (hfinished : s.finished = some outcome) :
    (∃ record, s.store.get id = some record ∧ record.Truthful outcome s.stopped) ↔
      CancelNoticed s.marks := by
  obtain ⟨record, now, raised, hget, hraised⟩ := h.ended outcome hfinished
  have himp : s.stopped = true → raised = true := fun hstopped =>
    hraised.2 (h.stopped_iff.1 hstopped).raised
  have hfinish := truthful_finish_iff record outcome now himp
  rw [CancelNoticed, ← hraised, ← h.stopped_iff, ← hfinish]
  constructor
  · rintro ⟨record', hrecord', htruthful⟩
    rw [hget] at hrecord'
    cases hrecord'
    exact htruthful
  · exact fun htruthful => ⟨_, hget, htruthful⟩

/-- For every submission and every interleaving of cancellations with its executor, the final
status is true exactly if the executor looks at the flag after the first cancellation, or there
is none before the end. -/
theorem cancelled_truthful_iff {submission : Submission} {id : String}
    {store : OperationStore Report} {entry : OperationEntry Report}
    (hentry : store.ops.get? id = some entry) (hqueued : entry.record.status = .queued)
    (hclear : entry.cancelled = false)
    {turns : List (OperationTurn (executor submission))} {s : Operation (executor submission)}
    (hrun : (operation (executor submission) id).run (Operation.start _ store) turns = some s)
    {outcome : Except OperationError Report} (hfinished : s.finished = some outcome) :
    (∃ record, s.store.get id = some record ∧ record.Truthful outcome s.stopped) ↔
      CancelNoticed s.marks :=
  ((Following.start hentry hqueued hclear).of_run hrun).truthful_iff hfinished

namespace Sample

def promotion : OperationRecord Report where
  id := "op"
  kind := "promote"
  status := .queued
  submittedAt := ""
  startedAt := none
  finishedAt := none
  params := .snapshot
  idempotencyKey := none
  requestHash := none
  result := none
  error := none

def submitted : OperationStore Report := OperationStore.new.insert promotion

abbrev plainPromotion : Submission := .promote false false

def answered : OperationTurn (executor plainPromotion) := .act (PromoteEvent.answered (.ok ()))

def evaluated : List (OperationTurn (executor plainPromotion)) :=
  [answered, answered, .act (PromoteEvent.evaluated true)]

def cancelledLate : List (OperationTurn (executor plainPromotion)) :=
  .markRunning "" :: evaluated ++
    [.act PromoteEvent.goOn, answered, .cancel, answered,
      .act (PromoteEvent.promoted true true), .finish ""]

def cancelledEarly : List (OperationTurn (executor plainPromotion)) :=
  .markRunning "" :: .cancel :: evaluated ++ [.act PromoteEvent.goOn, .finish ""]

def after (turns : List (OperationTurn (executor plainPromotion))) :
    Option (Operation (executor plainPromotion)) :=
  (operation (executor plainPromotion) "op").run (Operation.start _ submitted) turns

theorem get?_submitted :
    submitted.ops.get? "op" = some { record := promotion, cancelled := false } :=
  rfl

/-- A merged promotion is reported as cancelled. -/
theorem merged_reported_cancelled :
    ∃ s record, after cancelledLate = some s ∧
      s.finished = some (.ok (.promotion true true)) ∧ s.stopped = false ∧
      s.store.get "op" = some record ∧ record.status = .cancelled ∧
      ¬ record.Truthful (.ok (.promotion true true)) s.stopped := by
  have h : (after cancelledLate).map (fun s => (s.finished.bind Except.toOption, s.stopped,
      (s.store.get "op").map OperationRecord.status)) =
        some (some (.promotion true true), false, some .cancelled) := by
    decide +kernel
  obtain ⟨s, hs, hfields⟩ := Option.map_eq_some_iff.1 h
  simp only [Prod.mk.injEq] at hfields
  obtain ⟨hfinished, hstopped, hstatus⟩ := hfields
  obtain ⟨outcome, houtcome, hok⟩ := Option.bind_eq_some_iff.1 hfinished
  obtain ⟨record, hrecord, hcancelled⟩ := Option.map_eq_some_iff.1 hstatus
  refine ⟨s, record, hs, ?_, hstopped, hrecord, hcancelled, fun htruthful => ?_⟩
  · rw [houtcome, Library.eq_ok_of_toOption hok]
  · have htrue := htruthful.cancelled.1 hcancelled
    rw [hstopped] at htrue
    cases htrue

/-- A promotion that is cancelled before the merge is stopped, and reported as such. -/
theorem stopped_reported_cancelled :
    ∃ s outcome, after cancelledEarly = some s ∧ s.finished = some outcome ∧
      s.stopped = true ∧
      ∃ record, s.store.get "op" = some record ∧ record.Truthful outcome s.stopped := by
  have h : (after cancelledEarly).map (fun s => (s.finished.isSome, s.stopped, s.marks)) =
      some (true, true, [.raise, .work, .work, .work, .look]) := by
    decide +kernel
  obtain ⟨s, hs, hfields⟩ := Option.map_eq_some_iff.1 h
  simp only [Prod.mk.injEq] at hfields
  obtain ⟨hfinished, hstopped, hmarks⟩ := hfields
  obtain ⟨outcome, houtcome⟩ := Option.isSome_iff_exists.1 hfinished
  refine ⟨s, outcome, hs, houtcome, hstopped, ?_⟩
  refine (cancelled_truthful_iff get?_submitted rfl rfl hs houtcome).2 fun _ => ?_
  rw [hmarks]
  exact ⟨[], _, rfl, by simp⟩

end Sample

end PhloTransform.Daemon
