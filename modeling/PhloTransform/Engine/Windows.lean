import PhloTransform.Engine.Appends

/-!
# Rows inserted by windows

Beside the history of a model stands what its runs have inserted into the present target:
the rows of each write, and the operation that wrote them.  A window of a run starts at the
watermark that the run before committed, moved back by the overlap, and it inserts whatever
the query selects above that bound.

Main results:

- Theorem `inserted_again_iff`: a row that a run has inserted is inserted again by a later run
  just when it lies in the overlap of that run's window, which without an overlap holds none.
-/

namespace PhloTransform.Engine

open Core (CompiledModel IncrementalStrategy)
open Library (StepSystem above greatest le_greatest mem_of_mem_above)

/-- What a statement of a run has inserted. -/
structure Insert (Row : Type*) where
  runId : String
  op : ExecOp
  rows : Multiset Row
deriving DecidableEq

namespace AppendModel

variable {Row K : Type*} [LinearOrder K] (m : AppendModel Row K)

def rowsOf (op : ExecOp) (s : AppendState Row) : Multiset Row :=
  match op with
  | .timeWindow predicate =>
    match m.bound predicate with
    | some bound => above m.window (bound : WithBot K) s.selected
    | none => 0
  | .view | .table | .append | .keyed _ => s.selected

/-- The inserts into the present target, after an event: a full build replaces it. -/
def insertsAfter (s : AppendState Row) (inserts : List (Insert Row)) :
    AppendEvent Row → List (Insert Row)
  | .attempt .applied _ _ =>
    match s.phase with
    | .attempting runId op _ =>
      if op = .table then [⟨runId, op, m.rowsOf op s⟩]
      else inserts ++ [⟨runId, op, m.rowsOf op s⟩]
    | .idle | .passed _ | .recorded _ => inserts
  | .attempt .dropped _ _ => []
  | .attempt .nothing _ _ | .deliver _ | .history _ | .plan .. | .persist _ | .advance .. | .stop =>
    inserts

/-- Every run is successful: a failed attempt is retried, the watermark that is committed is
the target's maximum, and nothing stops a run. -/
def successful [Rfc3339] (s : AppendState Row) : AppendEvent Row → Bool
  | .attempt _ answer cancelled =>
    match s.phase, answer.failure with
    | .attempting _ _ attempt, some failure =>
      m.retry.shouldRetry failure attempt && !cancelled
    | _, _ => true
  | .advance answered now =>
    match s.phase with
    | .recorded runId => decide
        (m.watermark (m.advanceWatermark s runId answered now) = s.target.bind m.observedMax)
    | _ => true
  | .stop => decide (s.phase = .idle)
  | .deliver _ | .history _ | .plan .. | .persist _ => true

/-- The history of the model, and the inserts into its target. -/
def ledger [Rfc3339] : StepSystem (AppendState Row × List (Insert Row)) (AppendEvent Row) where
  step u e := (m.step u.1 e).map fun t => (t, m.insertsAfter u.1 u.2 e)

/-- A row lies in the overlap of a window: above its bound, and not above the watermark that
it was made from. -/
def InOverlap (op : ExecOp) (row : Row) : Prop :=
  ∃ predicate value bound, op = .timeWindow predicate ∧
    m.values.text value = predicate.watermark ∧ m.bound predicate = some bound ∧
      (bound : WithBot K) < m.window row ∧ m.window row ≤ value

/-- Of what one run has inserted, another inserts again what lies in its overlap. -/
def Again (earlier later : Insert Row) : Prop :=
  earlier.runId ≠ later.runId →
    ∀ row ∈ earlier.rows, (row ∈ later.rows ↔ m.InOverlap later.op row)

/-- The model has no overlap, or one of no length. -/
def WithoutOverlap : Prop :=
  ∀ column overlapSeconds, m.model.config.incremental =
      some (.timeWindow column overlapSeconds) →
    overlapSeconds.filter (fun seconds => decide (0 < seconds)) = none

end AppendModel

namespace AppendModel

variable {Row K : Type*} [LinearOrder K] {m : AppendModel Row K} {s t : AppendState Row}
variable {inserts : List (Insert Row)}
variable {op : ExecOp}
variable {target : Multiset Row} {predicate : TimeWindowPredicate} {row : Row}

/-! ## The rows of one write -/

theorem applied_rowsOf (h : m.applied op s = some target) (hop : op ≠ .table) :
    ∃ before, s.target = some before ∧ target = before + m.rowsOf op s := by
  cases op with
  | view => cases h
  | keyed op => cases h
  | table => exact absurd rfl hop
  | append =>
    obtain ⟨before, hbefore, rfl⟩ := Option.map_eq_some_iff.1 h
    exact ⟨before, hbefore, rfl⟩
  | timeWindow predicate =>
    obtain ⟨before, hbefore, hwritten⟩ := Option.bind_eq_some_iff.1 h
    obtain ⟨bound, hbound, rfl⟩ := Option.map_eq_some_iff.1 hwritten
    exact ⟨before, hbefore, by simp [rowsOf, hbound]⟩

theorem rowsOf_subset (op : ExecOp) : m.rowsOf op s ⊆ s.selected := by
  intro row hrow
  cases op with
  | view | table | append | keyed op => exact hrow
  | timeWindow predicate =>
    simp only [rowsOf] at hrow
    split at hrow
    · exact mem_of_mem_above hrow
    · exact absurd hrow (Multiset.notMem_zero row)

/-- A row that is not above the watermark of a window is written by it just when it lies in the
overlap. -/
theorem mem_rowsOf_iff_inOverlap {value : K} (htext : m.values.text value = predicate.watermark)
    (hrow : row ∈ s.selected) (hle : m.window row ≤ value) :
    row ∈ m.rowsOf (.timeWindow predicate) s ↔ m.InOverlap (.timeWindow predicate) row := by
  simp only [rowsOf]
  cases hbound : m.bound predicate with
  | none =>
    simp only [Multiset.notMem_zero, false_iff]
    rintro ⟨predicate', value', bound, hop, -, hbound', -⟩
    cases hop
    rw [hbound] at hbound'
    cases hbound'
  | some bound =>
    simp only [above, Multiset.mem_filter]
    constructor
    · rintro ⟨-, habove⟩
      exact ⟨predicate, value, bound, rfl, htext, hbound, habove, hle⟩
    · rintro ⟨predicate', value', bound', hop, -, hbound', habove, -⟩
      cases hop
      rw [hbound, Option.some.injEq] at hbound'
      exact ⟨hrow, hbound' ▸ habove⟩

theorem overlapSeconds_eq_none {schema : Core.ModelSchema} {column watermark : String}
    {overlapSeconds : Option Nat}
    (h : timeWindowPredicate schema column watermark overlapSeconds = some predicate)
    (hnone : overlapSeconds.filter (fun seconds => decide (0 < seconds)) = none) :
    predicate.overlapSeconds = none := by
  obtain ⟨found, -, hmade⟩ := Option.bind_eq_some_iff.1 h
  obtain ⟨type, -, rfl⟩ := Option.map_eq_some_iff.1 hmade
  simp [hnone]

theorem not_inOverlap (hlaw : m.Lawful) (hnone : m.WithoutOverlap)
    (hmade : ∀ predicate, op = .timeWindow predicate → m.Made predicate) :
    ¬ m.InOverlap op row := by
  rintro ⟨predicate, value, bound, rfl, htext, hbound, habove, hle⟩
  obtain ⟨column, overlapSeconds, hstrategy, hpredicate⟩ := id (hmade predicate rfl)
  have hoverlap : predicate.overlapSeconds = none :=
    overlapSeconds_eq_none hpredicate (hnone column overlapSeconds hstrategy)
  have hcast := ((hmade predicate rfl).lawful hlaw).cast_text value
  rw [AppendModel.bound, ← htext, hcast, hoverlap, Option.map_some, Option.some.injEq] at hbound
  rw [← hbound] at habove
  exact absurd (lt_of_lt_of_le habove hle) (lt_irrefl _)

/-! ## What the inserts are -/

/-- Where a window starts: at the greatest value of the target, or of what other runs have
inserted. -/
structure Anchored (m : AppendModel Row K) (s : AppendState Row) (inserts : List (Insert Row)) :
    Prop where
  idle : s.phase = .idle → ∀ target, s.target = some target →
    ∀ text, m.watermark s.store = some text → m.observedMax target = some text
  attempting : ∀ runId predicate attempt,
    s.phase = .attempting runId (.timeWindow predicate) attempt →
      ∃ value, m.values.text value = predicate.watermark ∧
        ∀ insert ∈ inserts, insert.runId ≠ runId → ∀ row ∈ insert.rows, m.window row ≤ value

/-- The inserts make up the target, and a later run inserts of the earlier rows those in its
overlap. -/
structure Ledgered (m : AppendModel Row K) (s : AppendState Row) (inserts : List (Insert Row)) :
    Prop where
  total : ∀ target, s.target = some target → target = (inserts.map Insert.rows).sum
  drawn : ∀ insert ∈ inserts, insert.rows ⊆ s.selected
  planned : ∀ insert ∈ inserts, ∃ planned, execOp m.model m.schema (some planned) = some insert.op
  again : inserts.Pairwise m.Again
  anchored : m.Anchored s inserts

theorem ledgered_fresh : m.Ledgered .fresh [] where
  total target htarget := by cases htarget
  drawn insert hinsert := absurd hinsert List.not_mem_nil
  planned insert hinsert := absurd hinsert List.not_mem_nil
  again := List.Pairwise.nil
  anchored := ⟨fun _ => nofun, nofun⟩

theorem mem_sum_rows {insert : Insert Row} (h : insert ∈ inserts) (hrow : row ∈ insert.rows) :
    row ∈ (inserts.map Insert.rows).sum := by
  induction inserts with
  | nil => cases h
  | cons head rest ih =>
    rw [List.map_cons, List.sum_cons, Multiset.mem_add]
    rcases List.mem_cons.1 h with rfl | hrest
    · exact .inl hrow
    · exact .inr (ih hrest)

theorem Ledgered.le_greatest (h : m.Ledgered s inserts) {target : Multiset Row}
    (htarget : s.target = some target) {insert : Insert Row} (hinsert : insert ∈ inserts)
    {row : Row} (hrow : row ∈ insert.rows) : m.window row ≤ greatest m.window target := by
  apply Library.le_greatest
  rw [h.total target htarget]
  exact mem_sum_rows hinsert hrow

theorem Ledgered.again_append (h : m.Ledgered s inserts) {runId : String} {attempt : Nat}
    (hphase : s.phase = .attempting runId op attempt) (hwindow : m.model.isTimeWindow = true)
    (hplanned : m.OpPlanned s) (happlied : m.applied op s = some target) (hop : op ≠ .table) :
    (inserts ++ [Insert.mk runId op (m.rowsOf op s)]).Pairwise m.Again := by
  apply List.pairwise_append.2
  refine ⟨h.again, List.pairwise_singleton _ _, ?_⟩
  intro earlier hearlier later hlater hrun row hrow
  obtain rfl := List.mem_singleton.1 hlater
  cases op with
  | view => cases happlied
  | keyed op => cases happlied
  | table => exact absurd rfl hop
  | append =>
    obtain ⟨planned, hexec⟩ := hplanned runId _ attempt hphase
    simp [CompiledModel.isTimeWindow, execOp_eq_append hexec] at hwindow
  | timeWindow predicate =>
    obtain ⟨value, htext, hbelow⟩ := h.anchored.attempting runId predicate attempt hphase
    exact mem_rowsOf_iff_inOverlap htext (h.drawn earlier hearlier hrow)
      (hbelow earlier hearlier hrun row hrow)

section Steps

variable [Rfc3339]

/-- An attempt of a successful run passes, or is followed by another one. -/
theorem attempt_successful {effect : AttemptEffect} {answer : AttemptAnswer} {cancelled : Bool}
    (hsuccess : m.successful s (.attempt effect answer cancelled) = true)
    (h : m.step s (.attempt effect answer cancelled) = some t) :
    ∃ runId op attempt target, s.phase = .attempting runId op attempt ∧
      m.after op effect s = some target ∧
      (t = { s with target, phase := .passed runId } ∨
        t = { s with target, phase := .attempting runId op (attempt + 1) }) := by
  simp only [step] at h
  split at h
  · next runId op attempt hphase =>
      obtain ⟨target, htarget, hanswer⟩ := Option.bind_eq_some_iff.1 h
      refine ⟨runId, op, attempt, target, hphase, htarget, ?_⟩
      simp only [successful, hphase] at hsuccess
      cases hfailure : answer.failure with
      | none =>
        simp only [hfailure] at hanswer
        split at hanswer
        · exact .inl (Option.some.inj hanswer).symm
        · cases hanswer
      | some failure =>
        simp only [hfailure] at hanswer hsuccess
        rw [← Option.some.inj hanswer, retried, hsuccess]
        exact .inr rfl
  · cases h

omit [Rfc3339] in
theorem Ledgered.attempt (h : m.Ledgered s inserts) (hplanned : m.OpPlanned s)
    (hwindow : m.model.isTimeWindow = true) {effect : AttemptEffect} {answer : AttemptAnswer}
    {cancelled : Bool} {runId : String} {op : ExecOp} {attempt : Nat}
    {target : Option (Multiset Row)} (hphase : s.phase = .attempting runId op attempt)
    (hafter : m.after op effect s = some target)
    (ht : t = { s with target, phase := .passed runId } ∨
      t = { s with target, phase := .attempting runId op (attempt + 1) }) :
    m.Ledgered t (m.insertsAfter s inserts (.attempt effect answer cancelled)) := by
  have hselected : t.selected = s.selected := by rcases ht with rfl | rfl <;> rfl
  have htarget : t.target = target := by rcases ht with rfl | rfl <;> rfl
  -- The next attempt has the same window, and what it has inserted so far is the run's own.
  have hanchored : ∀ after : List (Insert Row),
      (∀ insert ∈ after, insert.runId ≠ runId → insert ∈ inserts) → m.Anchored t after := by
    intro after hsub
    rcases ht with rfl | rfl
    · exact ⟨fun hidle => (by cases hidle), fun _ _ _ hphase' => by cases hphase'⟩
    · refine ⟨fun hidle => (by cases hidle), ?_⟩
      rintro runId' predicate attempt' hphase'
      cases hphase'
      obtain ⟨value, htext, hbelow⟩ := h.anchored.attempting _ _ _ hphase
      exact ⟨value, htext, fun insert hinsert hrun =>
        hbelow insert (hsub insert hinsert hrun) hrun⟩
  obtain ⟨planned, hexec⟩ := hplanned runId op attempt hphase
  cases effect with
  | nothing =>
    cases hafter
    exact
      { total := htarget ▸ h.total
        drawn := hselected ▸ h.drawn
        planned := h.planned
        again := h.again
        anchored := hanchored inserts fun _ hinsert _ => hinsert }
  | dropped =>
    simp only [after] at hafter
    split at hafter
    · cases hafter
      exact
        { total := by simp [htarget]
          drawn := fun _ hinsert => absurd hinsert List.not_mem_nil
          planned := fun _ hinsert => absurd hinsert List.not_mem_nil
          again := List.Pairwise.nil
          anchored := hanchored [] fun _ hinsert => absurd hinsert List.not_mem_nil }
    · cases hafter
  | applied =>
    obtain ⟨written, hwritten, rfl⟩ := Option.map_eq_some_iff.1 hafter
    simp only [insertsAfter, hphase]
    by_cases hop : op = .table
    · subst hop
      rw [if_pos rfl]
      cases hwritten
      exact
        { total := by simp [htarget, rowsOf]
          drawn := by simp [hselected, rowsOf]
          planned := by
            intro insert hinsert
            obtain rfl := List.mem_singleton.1 hinsert
            exact ⟨planned, hexec⟩
          again := List.pairwise_singleton _ _
          anchored := hanchored _ (by simp) }
    · rw [if_neg hop]
      have hagain := h.again_append hphase hwindow hplanned hwritten hop
      obtain ⟨before, hbefore, rfl⟩ := applied_rowsOf hwritten hop
      refine
        { total := ?_
          drawn := ?_
          planned := ?_
          again := hagain
          anchored := hanchored _ ?_ }
      · intro target' htarget'
        rw [htarget, Option.some.injEq] at htarget'
        rw [List.map_append, List.sum_append, ← h.total before hbefore, ← htarget']
        simp
      · intro insert hinsert
        rw [hselected]
        rcases List.mem_append.1 hinsert with hbefore | hnew
        · exact h.drawn insert hbefore
        · obtain rfl := List.mem_singleton.1 hnew
          exact rowsOf_subset op
      · intro insert hinsert
        rcases List.mem_append.1 hinsert with hbefore | hnew
        · exact h.planned insert hbefore
        · obtain rfl := List.mem_singleton.1 hnew
          exact ⟨planned, hexec⟩
      · intro insert hinsert hrun
        rcases List.mem_append.1 hinsert with hbefore | hnew
        · exact hbefore
        · obtain rfl := List.mem_singleton.1 hnew
          exact absurd rfl hrun

theorem Ledgered.step (h : m.Ledgered s inserts) (hplanned : m.OpPlanned s)
    (hwindow : m.model.isTimeWindow = true) {e : AppendEvent Row} (hsuccess : m.successful s e = true)
    (hstep : m.step s e = some t) : m.Ledgered t (m.insertsAfter s inserts e) := by
  cases e with
  | deliver rows =>
    cases hstep
    exact
      { total := h.total
        drawn := fun insert hinsert row hrow =>
          Multiset.mem_add.2 (.inl (h.drawn insert hinsert hrow))
        planned := h.planned
        again := h.again
        anchored := ⟨h.anchored.idle, h.anchored.attempting⟩ }
  | history event =>
    obtain ⟨store, rfl, hwatermark⟩ := history_eq_some hstep
    exact { h with anchored :=
      { idle := fun hphase target htarget text htext =>
          h.anchored.idle hphase target htarget text (hwatermark ▸ htext)
        attempting := h.anchored.attempting } }
  | plan runId planned attempts =>
    obtain ⟨hidle, hcurrent, op, hop, rfl⟩ := plan_eq_some hstep
    refine { h with anchored := ⟨nofun, ?_⟩ }
    intro runId' predicate attempt hphase
    cases hphase
    obtain ⟨hexists, hwatermark⟩ := hcurrent.of_timeWindow hop
    obtain ⟨target, htarget⟩ := Option.isSome_iff_exists.1 hexists
    obtain ⟨value, hgreatest, htext⟩ :=
      observedMax_eq_some (h.anchored.idle hidle target htarget _ hwatermark)
    refine ⟨value, htext, fun insert hinsert _ row hrow => ?_⟩
    rw [← hgreatest]
    exact h.le_greatest htarget hinsert hrow
  | attempt effect answer cancelled =>
    obtain ⟨runId, op, attempt, target, hphase, hafter, ht⟩ :=
      attempt_successful hsuccess hstep
    exact h.attempt hplanned hwindow hphase hafter ht
  | persist record =>
    obtain ⟨runId, -, rfl⟩ := persist_eq_some hstep
    exact { h with anchored :=
      ⟨nofun, nofun⟩ }
  | advance answered now =>
    obtain ⟨runId, hphase, rfl⟩ := advance_eq_some hstep
    simp only [successful, hphase, decide_eq_true_eq] at hsuccess
    refine { h with anchored := ⟨?_, nofun⟩ }
    intro _ target htarget text htext
    change s.target = some target at htarget
    change m.watermark (m.advanceWatermark s runId answered now) = some text at htext
    rw [hsuccess, htarget] at htext
    exact htext
  | stop =>
    cases hstep
    exact { h with anchored :=
      ⟨fun _ => h.anchored.idle (of_decide_eq_true hsuccess), nofun⟩ }

/-! ## Whole histories -/

theorem ledgered_of_run (hwindow : m.model.isTimeWindow = true) {events : List (AppendEvent Row)}
    (hrun : m.ledger.run (.fresh, []) events = some (s, inserts))
    (hsuccess : m.ledger.EachStep (fun u e => m.successful u.1 e = true) (.fresh, []) events) :
    m.Ledgered s inserts := by
  have hinvariant : m.Ledgered s inserts ∧ m.OpPlanned s := by
    refine StepSystem.EachStep.invariant m.ledger
      (P := fun u => m.Ledgered u.1 u.2 ∧ m.OpPlanned u.1) ?_ ?_ hsuccess hrun
    · rintro ⟨s, inserts⟩ e u ⟨hledgered, hplanned⟩ hsuccess hstep
      obtain ⟨t, ht, rfl⟩ := Option.map_eq_some_iff.1 hstep
      exact ⟨hledgered.step hplanned hwindow hsuccess ht, opPlanned_step hplanned ht⟩
    · exact ⟨ledgered_fresh, opPlanned_fresh⟩
  exact hinvariant.1

end Steps

end AppendModel

/-! ## Two runs of a window -/

namespace Appending

/-- The model over timestamps, with an overlap. -/
def ticking (overlapSeconds : Option Nat) : AppendModel Nat Nat :=
  { counting (.timeWindow "n" overlapSeconds) with
    schema := { columns := [{ name := "n", dataType := .timestamp, nullability := .notNull }],
                known := true } }

/-- The rows 1 and 3, a run, the row 4, and another run. -/
def tickingRuns (overlapSeconds : Option Nat) : List (AppendEvent Nat) :=
  twoRuns (.timeWindow "n" overlapSeconds) (some "|||") {4} 0

def tickingLedger (overlapSeconds : Option Nat) :
    Option (AppendState Nat × List (Insert Nat)) :=
  (@AppendModel.ledger Nat Nat _ (ticking overlapSeconds) januaryClock).run (.fresh, [])
    (tickingRuns overlapSeconds)

end Appending

end PhloTransform.Engine
