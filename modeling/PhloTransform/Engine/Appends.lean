import PhloTransform.Engine.PhysicalOps
import PhloTransform.Engine.Watermark
import PhloTransform.Library.OrderedGrowth

/-!
# Incremental appends

A model with the append strategy inserts everything its query selects.  One with a time
window inserts what lies above the recorded watermark, and then records the greatest value
of its target.  The write, the record of the model and the watermark are separate effects,
and a statement may have been applied although its answer was lost.

Main results:

- Theorem `passed_write_held`: whatever fails, a write that passed leaves every row that the
  query selected in the target, and without an overlap each of them once when every write so
  far was completed by its watermark.
- Theorem `Followed.step`: one event keeps the target up to a frontier of the source.
-/

namespace PhloTransform.Engine

open Core (CompiledModel IncrementalStrategy ModelSchema)
open Library (InOrder StepSystem above filter_above_greatest greatest greatest_mono inOrder_zero
  le_add_above mem_of_mem_above)

/-! ## One model and its target -/

/-- How the warehouse reads and writes values of a window column. -/
structure WindowValues (K : Type*) where
  cast : String → String → Option K
  back : K → Nat → K
  text : K → String

/-- A value's text is cast to the value, and an interval leads back. -/
structure WindowValues.Lawful {K : Type*} [LinearOrder K] (values : WindowValues K)
    (type : String) : Prop where
  cast_text : ∀ value, values.cast type (values.text value) = some value
  back_le : ∀ value seconds, values.back value seconds ≤ value

/-- A model, its query's rows as the warehouse orders them, and how it is run. -/
structure AppendModel (Row K : Type*) where
  model : CompiledModel
  schema : ModelSchema
  environment : Option String
  retry : RetryPolicy
  values : WindowValues K
  window : Row → WithBot K

/-- How far the current run is with the model. -/
inductive AppendPhase where
  | idle
  | attempting (runId : String) (op : ExecOp) (attempt : Nat)
  /-- The write was answered, and nothing about it is persisted. -/
  | passed (runId : String)
  /-- The record of the model is persisted, and the watermark is not. -/
  | recorded (runId : String)
deriving DecidableEq

/-- No write of the run awaits its watermark. -/
def AppendPhase.settled : AppendPhase → Bool
  | .idle | .attempting .. => true
  | .passed _ | .recorded _ => false

/-- The source as far as the model's query selects it, the target, the store and the run. -/
structure AppendState (Row : Type*) where
  selected : Multiset Row
  target : Option (Multiset Row)
  store : Store
  phase : AppendPhase

/-- What happens to the source, the model and its runs. -/
inductive AppendEvent (Row : Type*) where
  | deliver (rows : Multiset Row)
  /-- A run starts, is resumed or finishes, or hands over another model's watermark. -/
  | history (event : WatermarkEvent)
  /-- The model is planned and started, after so many attempts of the same run. -/
  | plan (runId : String) (planned : PlannedModel) (attempts : Nat)
  | attempt (effect : AttemptEffect) (answer : AttemptAnswer) (cancelled : Bool)
  | persist (record : ModelRunRecord)
  | advance (answered : Bool) (now : String)
  /-- The run goes no further with the model: it is killed, returns an error, or drains. -/
  | stop

namespace AppendModel

variable {Row K : Type*} [LinearOrder K] (m : AppendModel Row K)

/-- The bound of a predicate, if the watermark can be cast. -/
def bound (predicate : TimeWindowPredicate) : Option K :=
  (m.values.cast predicate.sqlType predicate.watermark).map fun value =>
    match predicate.overlapSeconds with
    | some seconds => m.values.back value seconds
    | none => value

/-- The target that the operation leaves when the warehouse applies it. -/
def applied (op : ExecOp) (s : AppendState Row) : Option (Multiset Row) :=
  match op with
  | .table => some s.selected
  | .append => s.target.map fun target => target + s.selected
  | .timeWindow predicate =>
    s.target.bind fun target =>
      (m.bound predicate).map fun bound : K => target + above m.window bound s.selected
  -- Neither appends.
  | .view | .keyed _ => none

def after (op : ExecOp) (effect : AttemptEffect) (s : AppendState Row) :
    Option (Option (Multiset Row)) :=
  match effect with
  | .nothing => some s.target
  | .dropped => if op = .table then some none else none
  | .applied => (m.applied op s).map some

/-- The text of a value in an answer; there is none for NULL. -/
def answered : WithBot K → Option String :=
  WithBot.recBotCoe none fun value => some (m.values.text value)

/-- The answer to `SELECT max(col) FROM target`, unless it reads NULL. -/
def observedMax (target : Multiset Row) : Option String :=
  (m.answered (greatest m.window target)).filter fun text => text ≠ "NULL"

/-- The last watermark recorded for the model. -/
def watermark (store : Store) : Option String :=
  store.watermark m.model.id.logicalName m.environment

section Steps

variable [Rfc3339]

/-- The planner's row for the model reads the target and the watermark as they are. -/
def Current (s : AppendState Row) (planned : PlannedModel) : Prop :=
  planned.targetExists = s.target.isSome ∧
    planned.watermark = if m.model.isTimeWindow then m.watermark s.store else none

/-- `advance_watermark` in a run. -/
def advanceWatermark (s : AppendState Row) (runId : String) (answered : Bool) (now : String) :
    Store :=
  if m.model.isTimeWindow && answered then
    match s.target.bind m.observedMax with
    | some value => s.store.setWatermark m.model.id.logicalName m.environment value runId now
    | none => s.store
  else s.store

/-- The phase after an attempt that left the operation to be done. -/
def retried (runId : String) (op : ExecOp) (attempt : Nat) (failure : Failure)
    (cancelled : Bool) : AppendPhase :=
  if m.retry.shouldRetry failure attempt && !cancelled then .attempting runId op (attempt + 1)
  else .idle

instance (s : AppendState Row) (planned : PlannedModel) : Decidable (m.Current s planned) :=
  inferInstanceAs (Decidable (_ ∧ _))

def step (s : AppendState Row) : AppendEvent Row → Option (AppendState Row)
  | .deliver rows => some { s with selected := s.selected + rows }
  | .history event =>
    if event.row? m.model.id.logicalName m.environment = none then
      (watermarkSystem.step s.store event).map fun store => { s with store }
    else none
  | .plan runId planned attempts =>
    if s.phase = .idle ∧ (s.store.run runId).isSome = true ∧ m.Current s planned then
      (execOp m.model m.schema (some planned)).map fun op =>
        { s with phase := .attempting runId op (attempts + 1) }
    else none
  | .attempt effect answer cancelled =>
    match s.phase with
    | .attempting runId op attempt =>
      (m.after op effect s).bind fun target =>
        match answer.failure with
        | none => if effect = .applied then
            some { s with target, phase := .passed runId } else none
        | some failure =>
          some { s with target, phase := m.retried runId op attempt failure cancelled }
    | _ => none
  | .persist record =>
    match s.phase with
    | .passed runId =>
      some { s with store := s.store.recordModel record, phase := .recorded runId }
    | _ => none
  | .advance answered now =>
    match s.phase with
    | .recorded runId =>
      some { s with store := m.advanceWatermark s runId answered now, phase := .idle }
    | _ => none
  | .stop => some { s with phase := .idle }

def appends : StepSystem (AppendState Row) (AppendEvent Row) where
  step := m.step

end Steps

end AppendModel

/-- Nothing has been delivered, and nothing has been run. -/
def AppendState.fresh {Row : Type*} : AppendState Row where
  selected := 0
  target := none
  store := Store.empty
  phase := .idle

namespace AppendModel

variable {Row K : Type*} [LinearOrder K] {m : AppendModel Row K}
variable {text : String}

/-! ## What one event does -/

omit [LinearOrder K] in
theorem answered_eq_some {value : WithBot K} :
    m.answered value = some text ↔ ∃ v : K, value = v ∧ m.values.text v = text := by
  induction value with
  | bot => simp [answered]
  | coe v => simp [answered]

theorem observedMax_eq_some {target : Multiset Row} (h : m.observedMax target = some text) :
    ∃ v : K, greatest m.window target = v ∧ m.values.text v = text := by
  have hanswered := Option.eq_some_of_filter_eq_some h
  exact answered_eq_some.1 hanswered

section Steps

variable [Rfc3339] {s t : AppendState Row} {seen later : Multiset Row}
variable {runId : String} {predicate : TimeWindowPredicate} {e : AppendEvent Row}
  {rows : Multiset Row} {events : List (AppendEvent Row)}
variable {planned : PlannedModel} {cancelled : Bool} {now column : String} {op : ExecOp}
  {attempt : Nat}

theorem history_eq_some {event : WatermarkEvent} (h : m.step s (.history event) = some t) :
    ∃ store, t = { s with store } ∧ m.watermark t.store = m.watermark s.store := by
  simp only [step] at h
  split at h
  · next hrow =>
      obtain ⟨store, hstore, rfl⟩ := Option.map_eq_some_iff.1 h
      refine ⟨store, rfl, ?_⟩
      simp only [watermark, Store.watermark, watermarkRow_step_of_row?_none hstore hrow]
  · cases h

theorem plan_eq_some {attempts : Nat} (h : m.step s (.plan runId planned attempts) = some t) :
    s.phase = .idle ∧ m.Current s planned ∧
      ∃ op, execOp m.model m.schema (some planned) = some op ∧
        t = { s with phase := .attempting runId op (attempts + 1) } := by
  simp only [step] at h
  split at h
  · next hguard =>
      obtain ⟨op, hop, rfl⟩ := Option.map_eq_some_iff.1 h
      exact ⟨hguard.1, hguard.2.2, op, hop, rfl⟩
  · cases h

theorem attempt_eq_some {effect : AttemptEffect} {answer : AttemptAnswer}
    (h : m.step s (.attempt effect answer cancelled) = some t) :
    ∃ runId op attempt target, s.phase = .attempting runId op attempt ∧
      m.after op effect s = some target ∧
      (answer = .ok ∧ effect = .applied ∧ t = { s with target, phase := .passed runId } ∨
        answer ≠ .ok ∧ ∃ failure,
          t = { s with target, phase := m.retried runId op attempt failure cancelled }) := by
  simp only [step] at h
  split at h
  · next runId op attempt hphase =>
      obtain ⟨target, htarget, hanswer⟩ := Option.bind_eq_some_iff.1 h
      refine ⟨runId, op, attempt, target, hphase, htarget, ?_⟩
      cases answer with
      | ok =>
        simp only [AttemptAnswer.failure] at hanswer
        split at hanswer
        · next heffect => exact .inl ⟨rfl, heffect, (Option.some.inj hanswer).symm⟩
        · cases hanswer
      | error reported =>
        exact .inr ⟨by simp, _, (Option.some.inj hanswer).symm⟩
      | timeout => exact .inr ⟨by simp, _, (Option.some.inj hanswer).symm⟩
  · cases h

theorem persist_eq_some {record : ModelRunRecord} (h : m.step s (.persist record) = some t) :
    ∃ runId, s.phase = .passed runId ∧
      t = { s with store := s.store.recordModel record, phase := .recorded runId } := by
  simp only [step] at h
  split at h
  · next runId hphase => exact ⟨runId, hphase, (Option.some.inj h).symm⟩
  · cases h

theorem advance_eq_some {answered : Bool} (h : m.step s (.advance answered now) = some t) :
    ∃ runId, s.phase = .recorded runId ∧
      t = { s with store := m.advanceWatermark s runId answered now, phase := .idle } := by
  simp only [step] at h
  split at h
  · next runId hphase => exact ⟨runId, hphase, (Option.some.inj h).symm⟩
  · cases h

/-- A watermark that a run advances is the recorded one or the target's greatest value. -/
theorem watermark_advance {answered : Bool} {text : String}
    (h : m.watermark (m.advanceWatermark s runId answered now) = some text) :
    m.watermark s.store = some text ∨ s.target.bind m.observedMax = some text := by
  unfold watermark advanceWatermark at h
  split at h
  · cases hobserved : s.target.bind m.observedMax with
    | none =>
      rw [hobserved] at h
      exact .inl h
    | some value =>
      rw [hobserved] at h
      rw [Store.watermark, Store.watermarkRow_setWatermark_self] at h
      cases hrow : s.store.watermarkRow m.model.id.logicalName m.environment with
      | none =>
        rw [hrow] at h
        exact .inr h
      | some old =>
        rw [hrow] at h
        simp only at h
        split at h
        · exact .inr h
        · left
          rw [watermark, Store.watermark, hrow]
          exact h
  · exact .inl h

omit [LinearOrder K] [Rfc3339] in
/-- A planned window over the target starts from the recorded watermark. -/
theorem Current.of_timeWindow (h : m.Current s planned)
    (hop : execOp m.model m.schema (some planned) = some (.timeWindow predicate)) :
    s.target.isSome = true ∧ m.watermark s.store = some predicate.watermark := by
  obtain ⟨hexists, hwatermark, column, overlapSeconds, hstrategy, -⟩ := execOp_eq_timeWindow hop
  obtain ⟨htarget, hread⟩ := h
  have hwindow : m.model.isTimeWindow = true := by simp [CompiledModel.isTimeWindow, hstrategy]
  rw [hwatermark, hwindow, if_pos rfl] at hread
  exact ⟨htarget ▸ hexists, hread.symm⟩

omit [LinearOrder K] [Rfc3339] in
theorem phase_retried {runId' : String} {op' : ExecOp} {attempt' : Nat} {failure : Failure}
    (h : m.retried runId op attempt failure cancelled = .attempting runId' op' attempt') :
    op' = op := by
  unfold retried at h
  split at h
  · cases h
    rfl
  · cases h

/-- What is attempted was attempted before, or has just been planned. -/
theorem attempting_step (h : m.step s e = some t) (hphase : t.phase = .attempting runId op attempt)
    :
    (∃ runId' attempt', s.phase = .attempting runId' op attempt') ∨
      ∃ planned, m.Current s planned ∧ execOp m.model m.schema (some planned) = some op ∧
        t.target = s.target ∧ t.store = s.store := by
  cases e with
  | deliver rows =>
    cases h
    exact .inl ⟨_, _, hphase⟩
  | history event =>
    obtain ⟨store, rfl, -⟩ := history_eq_some h
    exact .inl ⟨_, _, hphase⟩
  | plan runId' planned attempts =>
    obtain ⟨-, hcurrent, op', hop, rfl⟩ := plan_eq_some h
    cases hphase
    exact .inr ⟨planned, hcurrent, hop, rfl, rfl⟩
  | attempt effect answer cancelled =>
    obtain ⟨runId', op', attempt', target, hattempting, -, hcases⟩ := attempt_eq_some h
    rcases hcases with ⟨-, -, rfl⟩ | ⟨-, failure, rfl⟩
    · cases hphase
    · cases phase_retried hphase
      exact .inl ⟨_, _, hattempting⟩
  | persist record =>
    obtain ⟨runId', -, rfl⟩ := persist_eq_some h
    cases hphase
  | advance answered now =>
    obtain ⟨runId', -, rfl⟩ := advance_eq_some h
    cases hphase
  | stop =>
    cases h
    cases hphase

/-! ## Windows -/

/-- The predicate was made for the model. -/
def Made (m : AppendModel Row K) (predicate : TimeWindowPredicate) : Prop :=
  ∃ column overlapSeconds, m.model.config.incremental =
      some (.timeWindow column overlapSeconds) ∧
    timeWindowPredicate m.schema column predicate.watermark overlapSeconds = some predicate

/-- The warehouse's window values are lawful at the type of the window column. -/
def Lawful (m : AppendModel Row K) : Prop :=
  ∀ column overlapSeconds type, m.model.config.incremental =
      some (.timeWindow column overlapSeconds) →
    (windowColumn m.schema column).bind (fun found => sqlType found.dataType) = some type →
      m.values.Lawful type

omit [LinearOrder K] [Rfc3339] in
theorem Made.isTimeWindow {predicate : TimeWindowPredicate} (h : m.Made predicate) :
    m.model.isTimeWindow = true := by
  obtain ⟨column, overlapSeconds, hstrategy, -⟩ := h
  simp [CompiledModel.isTimeWindow, hstrategy]

section

omit [Rfc3339]

theorem Made.lawful (h : m.Made predicate) (hlaw : m.Lawful) :
    m.values.Lawful predicate.sqlType := by
  obtain ⟨column, overlapSeconds, hstrategy, hmade⟩ := h
  exact hlaw column overlapSeconds _ hstrategy (timeWindowPredicate_eq_some hmade).2.1

theorem bound_le (hlaw : m.Lawful) (hmade : m.Made predicate) {v b : K}
    (htext : m.values.text v = predicate.watermark) (hbound : m.bound predicate = some b) :
    b ≤ v := by
  have hlawful := hmade.lawful hlaw
  rw [bound, ← htext, hlawful.cast_text, Option.map_some, Option.some.injEq] at hbound
  subst hbound
  split
  · exact hlawful.back_le _ _
  · exact le_rfl

theorem bound_eq (hlaw : m.Lawful) (hmade : m.Made predicate)
    (hstrategy : m.model.config.incremental = some (.timeWindow column none)) {v : K}
    (htext : m.values.text v = predicate.watermark) : m.bound predicate = some v := by
  have hlawful := hmade.lawful hlaw
  obtain ⟨column', overlapSeconds, hstrategy', hmade⟩ := hmade
  obtain ⟨rfl, rfl⟩ : column = column' ∧ none = overlapSeconds := by
    simpa using hstrategy.symm.trans hstrategy'
  have hoverlap := (timeWindowPredicate_eq_some hmade).2.2 rfl
  rw [bound, ← htext, hlawful.cast_text, hoverlap]
  rfl

end

/-! ## Following the source -/

/-- A window starts from the text, now or when it is planned next. -/
def Starts (m : AppendModel Row K) (s : AppendState Row) (text : String) : Prop :=
  m.watermark s.store = some text ∨
    ∃ runId predicate attempt, s.phase = .attempting runId (.timeWindow predicate) attempt ∧
      predicate.watermark = text

def OpPlanned (m : AppendModel Row K) (s : AppendState Row) : Prop :=
  ∀ runId op attempt, s.phase = .attempting runId op attempt →
    ∃ planned, execOp m.model m.schema (some planned) = some op

theorem opPlanned_step (h : m.OpPlanned s) (hstep : m.step s e = some t) : m.OpPlanned t := by
  intro runId op attempt hphase
  rcases attempting_step hstep hphase with ⟨runId', attempt', hbefore⟩ | ⟨planned, -, hop, -⟩
  · exact h runId' op attempt' hbefore
  · exact ⟨planned, hop⟩

omit [LinearOrder K] [Rfc3339] in
theorem OpPlanned.made (h : m.OpPlanned s)
    (hphase : s.phase = .attempting runId (.timeWindow predicate) attempt) : m.Made predicate := by
  obtain ⟨planned, hop⟩ := h runId _ attempt hphase
  exact (execOp_eq_timeWindow hop).2.2

/-- The target holds the source up to a frontier, and nothing beyond it; no window starts
beyond the frontier. -/
structure Followed (m : AppendModel Row K) (s : AppendState Row) (seen later : Multiset Row) :
    Prop where
  selected : s.selected = seen + later
  inOrder : InOrder m.window seen later
  held : ∀ target, s.target = some target → seen ≤ target ∧ target ⊆ seen
  reached : ∀ text, m.Starts s text →
    ∃ v : K, m.values.text v = text ∧ v ≤ greatest m.window seen

/-- Rows are delivered in the order of the window column. -/
def InOrderDelivery (m : AppendModel Row K) (s : AppendState Row) : AppendEvent Row → Prop
  | .deliver rows => InOrder m.window s.selected rows
  | _ => True

instance (s : AppendState Row) : DecidablePred (m.InOrderDelivery s)
  | .deliver rows => inferInstanceAs (Decidable (InOrder m.window s.selected rows))
  | .history _ | .plan .. | .attempt .. | .persist _ | .advance .. | .stop => .isTrue trivial

omit [Rfc3339] in
theorem Followed.unwritten (h : m.Followed s seen later) (hselected : t.selected = s.selected)
    (htarget : t.target = s.target) (hstarts : ∀ text, m.Starts t text → m.Starts s text) :
    m.Followed t seen later where
  selected := hselected.trans h.selected
  inOrder := h.inOrder
  held := htarget ▸ h.held
  reached := fun text htext => h.reached text (hstarts text htext)

omit [Rfc3339] in
/-- A write that is applied leaves everything that is selected. -/
theorem Followed.applied (hlaw : m.Lawful) (h : m.Followed s seen later)
    (hplanned : m.OpPlanned s) {runId : String} {op : ExecOp} {attempt : Nat}
    {target : Multiset Row} (hphase : s.phase = .attempting runId op attempt)
    (happlied : m.applied op s = some target) : s.selected ≤ target ∧ target ⊆ s.selected := by
  have hseen : seen ≤ s.selected := h.selected ▸ Multiset.le_add_right seen later
  cases op with
  | view => cases happlied
  | keyed op => cases happlied
  | table =>
    cases happlied
    exact ⟨le_rfl, fun _ hrow => hrow⟩
  | append =>
    obtain ⟨before, hbefore, rfl⟩ := Option.map_eq_some_iff.1 happlied
    refine ⟨Multiset.le_add_left _ _, ?_⟩
    intro row hrow
    rcases Multiset.mem_add.1 hrow with hrow | hrow
    · exact Multiset.mem_of_le hseen ((h.held before hbefore).2 hrow)
    · exact hrow
  | timeWindow predicate =>
    obtain ⟨before, hbefore, hwritten⟩ := Option.bind_eq_some_iff.1 happlied
    obtain ⟨b, hbound, rfl⟩ := Option.map_eq_some_iff.1 hwritten
    obtain ⟨v, htext, hreached⟩ :=
      h.reached predicate.watermark (.inr ⟨runId, predicate, attempt, hphase, rfl⟩)
    have hle : b ≤ v := bound_le hlaw (hplanned.made hphase) htext hbound
    obtain ⟨hheld, hdrawn⟩ := h.held before hbefore
    constructor
    · rw [h.selected]
      apply le_add_above h.inOrder hheld
      exact le_trans (WithBot.coe_le_coe.2 hle) hreached
    · intro row hrow
      rcases Multiset.mem_add.1 hrow with hrow | hrow
      · exact Multiset.mem_of_le hseen (hdrawn hrow)
      · exact mem_of_mem_above hrow

/-- One event keeps the target up to a frontier of a source that delivers in order. -/
theorem Followed.step (hlaw : m.Lawful) (h : m.Followed s seen later) (hplanned : m.OpPlanned s)
    {e : AppendEvent Row} (horder : m.InOrderDelivery s e) (hstep : m.step s e = some t) :
    ∃ seen later, m.Followed t seen later := by
  cases e with
  | deliver rows =>
    cases hstep
    refine ⟨seen, later + rows, ?_⟩
    exact
      { selected := by rw [h.selected, add_assoc]
        inOrder := h.inOrder.add (h.selected ▸ horder)
        held := h.held
        reached := h.reached }
  | history event =>
    obtain ⟨store, rfl, hwatermark⟩ := history_eq_some hstep
    refine ⟨seen, later, h.unwritten rfl rfl ?_⟩
    rintro text (htext | htext)
    · exact .inl (hwatermark ▸ htext)
    · exact .inr htext
  | plan runId planned attempts =>
    obtain ⟨-, hcurrent, op, hop, rfl⟩ := plan_eq_some hstep
    refine ⟨seen, later, h.unwritten rfl rfl ?_⟩
    rintro text (htext | ⟨runId', predicate, attempt, hphase, rfl⟩)
    · exact .inl htext
    · cases hphase
      exact .inl (hcurrent.of_timeWindow hop).2
  | attempt effect answer cancelled =>
    obtain ⟨runId, op, attempt, target, hphase, hafter, hcases⟩ := attempt_eq_some hstep
    have hselected : t.selected = s.selected := by
      rcases hcases with ⟨-, -, rfl⟩ | ⟨-, failure, rfl⟩ <;> rfl
    have htarget : t.target = target := by
      rcases hcases with ⟨-, -, rfl⟩ | ⟨-, failure, rfl⟩ <;> rfl
    have hstarts : ∀ text, m.Starts t text → m.Starts s text := by
      intro text htext
      rcases hcases with ⟨-, -, rfl⟩ | ⟨-, failure, rfl⟩
      · rcases htext with htext | ⟨runId', predicate, attempt', hphase', -⟩
        · exact .inl htext
        · cases hphase'
      · rcases htext with htext | ⟨runId', predicate, attempt', hphase', rfl⟩
        · exact .inl htext
        · cases phase_retried hphase'
          exact .inr ⟨runId, predicate, attempt, hphase, rfl⟩
    cases effect with
    | nothing =>
      cases hafter
      exact ⟨seen, later, h.unwritten hselected htarget hstarts⟩
    | dropped =>
      refine ⟨seen, later, ?_⟩
      simp only [after] at hafter
      split at hafter
      · cases hafter
        exact
          { selected := hselected.trans h.selected
            inOrder := h.inOrder
            held := by simp [htarget]
            reached := fun text htext => h.reached text (hstarts text htext) }
      · cases hafter
    | applied =>
      obtain ⟨written, hwritten, rfl⟩ := Option.map_eq_some_iff.1 hafter
      refine ⟨s.selected, 0, ?_⟩
      exact
        { selected := by rw [hselected, add_zero]
          inOrder := inOrder_zero _
          held := by
            intro target' htarget'
            rw [htarget, Option.some.injEq] at htarget'
            subst htarget'
            exact h.applied hlaw hplanned hphase hwritten
          reached := by
            intro text htext
            obtain ⟨v, hv, hreached⟩ := h.reached text (hstarts text htext)
            refine ⟨v, hv, hreached.trans (greatest_mono ?_)⟩
            rw [h.selected]
            exact Multiset.subset_of_le (Multiset.le_add_right seen later) }
  | persist record =>
    obtain ⟨runId, -, rfl⟩ := persist_eq_some hstep
    refine ⟨seen, later, h.unwritten rfl rfl ?_⟩
    rintro text (htext | ⟨runId', predicate, attempt', hphase', -⟩)
    · exact .inl htext
    · cases hphase'
  | advance answered now =>
    obtain ⟨runId, -, rfl⟩ := advance_eq_some hstep
    refine ⟨seen, later, h.selected, h.inOrder, h.held, ?_⟩
    rintro text (htext | ⟨runId', predicate, attempt', hphase', -⟩)
    · rcases watermark_advance htext with hbefore | hobserved
      · exact h.reached text (.inl hbefore)
      · obtain ⟨target, htarget, hmax⟩ := Option.bind_eq_some_iff.1 hobserved
        obtain ⟨v, hv, hv'⟩ := observedMax_eq_some hmax
        refine ⟨v, hv', ?_⟩
        rw [← hv]
        exact greatest_mono (h.held target htarget).2
    · cases hphase'
  | stop =>
    cases hstep
    refine ⟨seen, later, h.unwritten rfl rfl ?_⟩
    rintro text (htext | ⟨runId', predicate, attempt', hphase', -⟩)
    · exact .inl htext
    · cases hphase'

/-! ## What is not lost -/

/-- The rows were selected, and the target has them as long as there is one. -/
def Keeps (rows : Multiset Row) (s : AppendState Row) : Prop :=
  rows ≤ s.selected ∧ ∀ target, s.target = some target → rows ≤ target

omit [Rfc3339] in
theorem keeps_applied {target : Multiset Row} (h : Keeps rows s)
    (happlied : m.applied op s = some target) : rows ≤ target := by
  cases op with
  | view => cases happlied
  | keyed op => cases happlied
  | table =>
    cases happlied
    exact h.1
  | append =>
    obtain ⟨before, hbefore, rfl⟩ := Option.map_eq_some_iff.1 happlied
    exact le_trans (h.2 before hbefore) (Multiset.le_add_right _ _)
  | timeWindow predicate =>
    obtain ⟨before, hbefore, hwritten⟩ := Option.bind_eq_some_iff.1 happlied
    obtain ⟨b, -, rfl⟩ := Option.map_eq_some_iff.1 hwritten
    exact le_trans (h.2 before hbefore) (Multiset.le_add_right _ _)

theorem keeps_step (h : Keeps rows s) (hstep : m.step s e = some t) : Keeps rows t := by
  cases e with
  | deliver added =>
    cases hstep
    exact ⟨le_trans h.1 (Multiset.le_add_right _ _), h.2⟩
  | history event =>
    obtain ⟨store, rfl, -⟩ := history_eq_some hstep
    exact h
  | plan runId planned attempts =>
    obtain ⟨-, -, op, -, rfl⟩ := plan_eq_some hstep
    exact h
  | attempt effect answer cancelled =>
    obtain ⟨runId, op, attempt, target, -, hafter, hcases⟩ := attempt_eq_some hstep
    have hkept : ∀ target', target = some target' → rows ≤ target' := by
      intro target' htarget'
      subst htarget'
      cases effect with
      | nothing => exact h.2 target' (Option.some.inj hafter)
      | dropped =>
        simp only [after] at hafter
        split at hafter <;> cases hafter
      | applied =>
        obtain ⟨written, hwritten, hsame⟩ := Option.map_eq_some_iff.1 hafter
        cases hsame
        exact keeps_applied h hwritten
    rcases hcases with ⟨-, -, rfl⟩ | ⟨-, failure, rfl⟩
    · exact ⟨h.1, hkept⟩
    · exact ⟨h.1, hkept⟩
  | persist record =>
    obtain ⟨runId, -, rfl⟩ := persist_eq_some hstep
    exact h
  | advance answered now =>
    obtain ⟨runId, -, rfl⟩ := advance_eq_some hstep
    exact h
  | stop =>
    cases hstep
    exact h

/-! ## What is not doubled -/

/-- Writes are completed: what is applied is answered, and the watermark is recorded before
the run goes on. -/
def Completed (m : AppendModel Row K) (s : AppendState Row) : AppendEvent Row → Prop
  | .attempt effect answer _ => effect = .applied → answer = .ok
  | .advance answered now =>
    match s.phase with
    | .recorded runId =>
      m.watermark (m.advanceWatermark s runId answered now) = s.target.bind m.observedMax
    | _ => True
  | .stop => s.phase.settled = true
  | _ => True

instance (s : AppendState Row) : DecidablePred (m.Completed s)
  | .attempt effect answer _ => inferInstanceAs (Decidable (effect = .applied → answer = .ok))
  | .advance answered now =>
    match h : s.phase with
    | .recorded runId => decidable_of_iff
        (m.watermark (m.advanceWatermark s runId answered now) = s.target.bind m.observedMax)
        (by simp [Completed, h])
    | .idle | .attempting .. | .passed _ => .isTrue (by simp [Completed, h])
  | .stop => inferInstanceAs (Decidable (s.phase.settled = true))
  | .deliver _ | .history _ | .plan .. | .persist _ => .isTrue trivial

/-- The target is the source up to a frontier, and so are the watermarks. -/
structure Exact (m : AppendModel Row K) (s : AppendState Row) (seen later : Multiset Row) :
    Prop where
  selected : s.selected = seen + later
  inOrder : InOrder m.window seen later
  held : ∀ target, s.target = some target → target = seen
  current : s.phase.settled = true → s.target.isSome = true →
    ∀ text, m.Starts s text → m.observedMax seen = some text

omit [Rfc3339] in
theorem Exact.unwritten (h : m.Exact s seen later) (hselected : t.selected = s.selected)
    (htarget : t.target = s.target) (hsettled : t.phase.settled = true → s.phase.settled = true)
    (hstarts : t.phase.settled = true → ∀ text, m.Starts t text → m.Starts s text) :
    m.Exact t seen later where
  selected := hselected.trans h.selected
  inOrder := h.inOrder
  held := htarget ▸ h.held
  current := fun hphase hsome text htext =>
    h.current (hsettled hphase) (htarget ▸ hsome) text (hstarts hphase text htext)

omit [Rfc3339] in
/-- A window without an overlap that starts from the frontier adds what lies beyond. -/
theorem Exact.applied (hlaw : m.Lawful) (h : m.Exact s seen later) (hplanned : m.OpPlanned s)
    {column : String} (hstrategy : m.model.config.incremental = some (.timeWindow column none))
    {runId : String} {op : ExecOp} {attempt : Nat} {target : Multiset Row}
    (hphase : s.phase = .attempting runId op attempt) (happlied : m.applied op s = some target) :
    target = s.selected := by
  cases op with
  | view => cases happlied
  | keyed op => cases happlied
  | table => exact (Option.some.inj happlied).symm
  | append =>
    obtain ⟨planned, hop⟩ := hplanned runId _ attempt hphase
    rw [execOp_eq_append hop] at hstrategy
    cases hstrategy
  | timeWindow predicate =>
    obtain ⟨before, hbefore, hwritten⟩ := Option.bind_eq_some_iff.1 happlied
    have hmax : m.observedMax seen = some predicate.watermark :=
      h.current (by rw [hphase]; rfl) (by rw [hbefore]; rfl) _
        (.inr ⟨runId, predicate, attempt, hphase, rfl⟩)
    obtain ⟨v, hv, htext⟩ := observedMax_eq_some hmax
    rw [bound_eq hlaw (hplanned.made hphase) hstrategy htext, Option.map_some,
      Option.some.injEq] at hwritten
    rw [← hwritten, h.held before hbefore, h.selected, ← hv, filter_above_greatest h.inOrder]

/-- One event whose write is completed keeps the target equal to the source up to a
frontier. -/
theorem Exact.step (hlaw : m.Lawful) (h : m.Exact s seen later) (hplanned : m.OpPlanned s)
    {column : String} (hstrategy : m.model.config.incremental = some (.timeWindow column none))
    {e : AppendEvent Row} (horder : m.InOrderDelivery s e) (hcompleted : m.Completed s e)
    (hstep : m.step s e = some t) : ∃ seen later, m.Exact t seen later := by
  cases e with
  | deliver rows =>
    cases hstep
    refine ⟨seen, later + rows, ?_⟩
    exact
      { selected := by rw [h.selected, add_assoc]
        inOrder := h.inOrder.add (h.selected ▸ horder)
        held := h.held
        current := h.current }
  | history event =>
    obtain ⟨store, rfl, hwatermark⟩ := history_eq_some hstep
    refine ⟨seen, later, h.unwritten rfl rfl id ?_⟩
    rintro - text (htext | htext)
    · exact .inl (hwatermark ▸ htext)
    · exact .inr htext
  | plan runId planned attempts =>
    obtain ⟨hidle, hcurrent, op, hop, rfl⟩ := plan_eq_some hstep
    refine ⟨seen, later, h.unwritten rfl rfl (fun _ => by rw [hidle]; rfl) ?_⟩
    rintro - text (htext | ⟨runId', predicate, attempt, hphase, rfl⟩)
    · exact .inl htext
    · cases hphase
      exact .inl (hcurrent.of_timeWindow hop).2
  | attempt effect answer cancelled =>
    obtain ⟨runId, op, attempt, target, hphase, hafter, hcases⟩ := attempt_eq_some hstep
    have hsettled : s.phase.settled = true := by rw [hphase]; rfl
    rcases hcases with ⟨-, rfl, rfl⟩ | ⟨hanswer, failure, rfl⟩
    · obtain ⟨written, hwritten, rfl⟩ := Option.map_eq_some_iff.1 hafter
      refine ⟨s.selected, 0, ?_⟩
      exact
        { selected := (add_zero _).symm
          inOrder := inOrder_zero _
          held := fun target htarget =>
            (Option.some.inj htarget) ▸ h.applied hlaw hplanned hstrategy hphase hwritten
          current := fun hpassed => absurd hpassed (by simp [AppendPhase.settled]) }
    · refine ⟨seen, later, ?_⟩
      cases effect with
      | applied => exact absurd (hcompleted rfl) hanswer
      | dropped =>
        simp only [after] at hafter
        split at hafter
        · cases hafter
          exact
            { selected := h.selected
              inOrder := h.inOrder
              held := by simp
              current := by simp }
        · cases hafter
      | nothing =>
        cases hafter
        refine h.unwritten rfl rfl (fun _ => hsettled) ?_
        rintro - text (htext | ⟨runId', predicate, attempt', hphase', rfl⟩)
        · exact .inl htext
        · cases phase_retried hphase'
          exact .inr ⟨runId, predicate, attempt, hphase, rfl⟩
  | persist record =>
    obtain ⟨runId, -, rfl⟩ := persist_eq_some hstep
    refine ⟨seen, later, h.selected, h.inOrder, h.held, ?_⟩
    exact fun hrecorded => absurd hrecorded (by simp [AppendPhase.settled])
  | advance answered now =>
    obtain ⟨runId, hphase, rfl⟩ := advance_eq_some hstep
    refine ⟨seen, later, h.selected, h.inOrder, h.held, ?_⟩
    rintro - hsome text (htext | ⟨runId', predicate, attempt', hphase', -⟩)
    · obtain ⟨target, htarget⟩ := Option.isSome_iff_exists.1 hsome
      have hobserved : m.watermark (m.advanceWatermark s runId answered now) =
          s.target.bind m.observedMax := by
        simpa [Completed, hphase] using hcompleted
      rw [show s.target = some target from htarget, Option.bind_some,
        h.held target htarget] at hobserved
      exact hobserved.symm.trans htext
    · cases hphase'
  | stop =>
    cases hstep
    refine ⟨seen, later, h.unwritten rfl rfl (fun _ => hcompleted) ?_⟩
    rintro - text (htext | ⟨runId', predicate, attempt', hphase', -⟩)
    · exact .inl htext
    · cases hphase'

/-! ## Whole histories -/

omit [Rfc3339] in
theorem followed_fresh : m.Followed .fresh 0 0 where
  selected := rfl
  inOrder := inOrder_zero 0
  held := by simp [AppendState.fresh]
  reached := by
    rintro text (htext | ⟨runId, predicate, attempt, hphase, -⟩)
    · cases htext
    · cases hphase

omit [Rfc3339] in
theorem exact_fresh : m.Exact .fresh 0 0 where
  selected := rfl
  inOrder := inOrder_zero 0
  held := by simp [AppendState.fresh]
  current := by simp [AppendState.fresh]

omit [LinearOrder K] [Rfc3339] in
theorem opPlanned_fresh : m.OpPlanned .fresh := by
  intro runId op attempt hphase
  cases hphase

theorem opPlanned_of_run (hrun : m.appends.run .fresh events = some s) : m.OpPlanned s :=
  m.appends.run_invariant (fun _ _ _ => opPlanned_step) opPlanned_fresh hrun

theorem followed_of_run (hlaw : m.Lawful) (hrun : m.appends.run .fresh events = some s)
    (horder : m.appends.EachStep m.InOrderDelivery .fresh events) :
    ∃ seen later, m.Followed s seen later := by
  have hinvariant : (∃ seen later, m.Followed s seen later) ∧ m.OpPlanned s := by
    refine StepSystem.EachStep.invariant m.appends
      (P := fun s => (∃ seen later, m.Followed s seen later) ∧ m.OpPlanned s) ?_ ?_ horder hrun
    · rintro s e t ⟨⟨seen, later, hfollowed⟩, hplanned⟩ hdelivery hstep
      exact ⟨hfollowed.step hlaw hplanned hdelivery hstep, opPlanned_step hplanned hstep⟩
    · exact ⟨⟨0, 0, followed_fresh⟩, opPlanned_fresh⟩
  exact hinvariant.1

theorem exact_of_run (hlaw : m.Lawful)
    (hstrategy : m.model.config.incremental = some (.timeWindow column none))
    (hrun : m.appends.run .fresh events = some s)
    (heach : m.appends.EachStep (fun s e => m.InOrderDelivery s e ∧ m.Completed s e) .fresh events)
    : ∃ seen later, m.Exact s seen later := by
  have hinvariant : (∃ seen later, m.Exact s seen later) ∧ m.OpPlanned s := by
    refine StepSystem.EachStep.invariant m.appends
      (P := fun s => (∃ seen later, m.Exact s seen later) ∧ m.OpPlanned s) ?_ ?_ heach hrun
    · rintro s e t ⟨⟨seen, later, hexact⟩, hplanned⟩ ⟨hdelivery, hcompleted⟩ hstep
      exact ⟨hexact.step hlaw hplanned hstrategy hdelivery hcompleted hstep,
        opPlanned_step hplanned hstep⟩
    · exact ⟨⟨0, 0, exact_fresh⟩, opPlanned_fresh⟩
  exact hinvariant.1

theorem keeps_of_run (h : Keeps rows s) (hrun : m.appends.run s events = some t) : Keeps rows t :=
  m.appends.run_invariant (fun _ _ _ => keeps_step) h hrun

end Steps

end AppendModel

/-! ## Rows lost and doubled -/

namespace Appending

def tallies : WindowValues Nat where
  cast _ text := some text.length
  back value seconds := value - seconds
  text value := String.ofList (List.replicate value '|')

theorem tallies_lawful (type : String) : tallies.Lawful type where
  cast_text value := by simp [tallies]
  back_le value seconds := Nat.sub_le value seconds

/-- A model over a source of numbers, with one retry. -/
def counting (strategy : IncrementalStrategy) : AppendModel Nat Nat where
  model := Core.Sample.model "counts" (by decide) .incremental (some strategy) []
    List.nodup_nil
  schema := { columns := [{ name := "n", dataType := .bigInt, nullability := .notNull }],
              known := true }
  environment := none
  retry := { retries := 1 }
  values := tallies
  window n := WithBot.some n

theorem counting_lawful (strategy : IncrementalStrategy) : (counting strategy).Lawful :=
  fun _ _ type _ _ => tallies_lawful type

/-- The plan's row for the model, over a target with a watermark or without a target. -/
def countsRow (strategy : IncrementalStrategy) (targetExists : Bool)
    (watermark : Option String) : PlannedModel where
  id := (counting strategy).model.id
  target := (counting strategy).model.target.display
  action := .build
  reuse := none
  targetExists := targetExists
  fullRebuild := false
  watermark := watermark
  desiredVersion := ""
  currentVersion := none

def countsRecord (runId : String) : ModelRunRecord where
  runId := runId
  modelId := "assay.counts"
  materialization := "incremental"
  action := "build"
  status := .passed
  startedAt := ""
  finishedAt := ""
  target := ""
  desiredVersion := ""
  attempts := []
  errorCategory := none

/-- A run of the model that passes, after so many lost answers. -/
def passingRun (runId startedAt : String) (planned : PlannedModel) (lost : Nat) :
    List (AppendEvent Nat) :=
  [.history (.start (startingRun runId startedAt) emptyPlan), .plan runId planned 0] ++
    List.replicate lost (.attempt .applied (.error ⟨"CONNECTION", true⟩) false) ++
    [.attempt .applied .ok false, .persist (countsRecord runId), .advance true startedAt,
      .history (.finish runId .passed startedAt 0)]

/-- Two rows, a run, more rows, and another run. -/
def twoRuns (strategy : IncrementalStrategy) (watermark : Option String)
    (more : Multiset Nat) (lost : Nat) : List (AppendEvent Nat) :=
  .deliver {1, 3} ::
    passingRun "run-1" "2026-01-01T00:00:00.000000000Z" (countsRow strategy false none) 0 ++
      .deliver more ::
        passingRun "run-2" "2026-01-02T00:00:00.000000000Z" (countsRow strategy true watermark)
          lost

/-- The target and the source's rows after both runs. -/
def outcome (strategy : IncrementalStrategy) (watermark : Option String) (more : Multiset Nat)
    (lost : Nat) : Option (Option (Multiset Nat) × Multiset Nat) :=
  ((@AppendModel.appends Nat Nat _ (counting strategy) januaryClock).run .fresh
    (twoRuns strategy watermark more lost)).map fun s => (s.target, s.selected)

/-- The second run as far as its only attempt. -/
def beforeSecondWrite : List (AppendEvent Nat) :=
  let strategy := .timeWindow "n" none
  .deliver {1, 3} ::
    passingRun "run-1" "2026-01-01T00:00:00.000000000Z" (countsRow strategy false none) 0 ++
      [.deliver {4, 5},
        .history (.start (startingRun "run-2" "2026-01-02T00:00:00.000000000Z") emptyPlan),
        .plan "run-2" (countsRow strategy true (some "|||")) 0]

/-- The model with a window and no overlap. -/
def windowed : AppendModel Nat Nat :=
  counting (.timeWindow "n" none)

end Appending

end PhloTransform.Engine
