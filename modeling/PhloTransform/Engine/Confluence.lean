import PhloTransform.Engine.Shutdown
import PhloTransform.Library.Topological

/-!
# Schedule independence of the loop

Without cancellation and without fail-fast, and with one outcome fixed for the
build of each model, the loop still chooses the order of its steps.  The choice
does not show: on an acyclic planned set every run ends, and all of them end in
the same statuses.

Main results:

- Theorem `Prelude.length_le_of_quietRun`: a bound on the length of every run.
- Theorem `Prelude.exists_step_of_quietRun`: a run that has not ended can go on.
-/

namespace PhloTransform.Engine

open Core (ModelId)
open Library (DependencyGraph StepSystem)

/-- The planned models with their planned dependencies. -/
def Schedule.graph (sch : Schedule) : DependencyGraph ModelId where
  nodes := sch.planned
  nodes_nodup := sch.planned_nodup
  deps := sch.plannedDependencies
  deps_nodup := Schedule.plannedDependencies_nodup

theorem Schedule.edge_iff {sch : Schedule} {id dependency : ModelId} :
    sch.graph.Edge id dependency ↔ id ∈ sch.planned ∧ dependency ∈ sch.plannedDependencies id :=
  ⟨fun h => ⟨h.1, h.2.2⟩,
    fun h => ⟨h.1, (Schedule.mem_plannedDependencies.1 h.2).2, h.2⟩⟩

/-- The event of an undisturbed run: the loop moves on, or the task of a model is
collected with the outcome fixed for it. -/
def quietEvent (outcome : ModelId → Bool) : Option ModelId → SchedEvent
  | none => .tick
  | some id => .join id (outcome id)

/-- The loop without cancellation and fail-fast. -/
def quietLoop (sch : Schedule) (concurrency : Nat) (outcome : ModelId → Bool) :
    StepSystem Sched (Option ModelId) where
  step s event := s.step sch ⟨concurrency, false⟩ (quietEvent outcome event)

/-- Nothing stopped the run before the loop. -/
structure Prelude.Undisturbed (p : Prelude) : Prop where
  cancelRequested : p.cancelRequested = false
  cancelled : p.cancelled = false
  failFast : p.failFast = false

/-- `d` feeds `m`: the planned model `m` is not carried over and depends on `d`. -/
def Prelude.Feeds (p : Prelude) (sch : Schedule) (d m : ModelId) : Prop :=
  m ∈ sch.planned ∧ p.outcome m = none ∧ d ∈ sch.plannedDependencies m

/-- A planned model blocked because it reads a failed seed. -/
def Prelude.SeedBlocked (p : Prelude) (sch : Schedule) (id : ModelId) : Prop :=
  id ∈ sch.planned ∧ p.outcome id = none ∧ p.readsFailedSeed id = true

namespace Sched

variable {sch : Schedule} {p : Prelude} {outcome : ModelId → Bool}
variable {s t : Sched} {id : ModelId}

/-! ## What an undisturbed run maintains -/

/-- Nothing stops the loop, and executed models have the outcome fixed for
them. -/
structure Quiet (outcome : ModelId → Bool) (s : Sched) : Prop where
  cancelRequested : s.cancelRequested = false
  cancelled : s.cancelled = false
  failFast : s.failFast = false
  executed : ∀ id, s.status id = .passed ∨ s.status id = .failed →
    s.status id = if outcome id then .passed else .failed

theorem Quiet.stopping {s : Sched} (h : s.Quiet outcome) : s.stopping = false := by
  simp [Sched.stopping, h.cancelled, h.failFast]

theorem Quiet.of_status (h : s.Quiet outcome)
    (hflags : t.cancelRequested = s.cancelRequested ∧ t.cancelled = s.cancelled ∧
      t.failFast = s.failFast) (hstatus : ∀ id, t.status id = .passed ∨ t.status id = .failed →
      t.status id = s.status id ∨
        t.status id = if outcome id then .passed else .failed) : t.Quiet outcome where
  cancelRequested := hflags.1.trans h.cancelRequested
  cancelled := hflags.2.1.trans h.cancelled
  failFast := hflags.2.2.trans h.failFast
  executed := by
    intro id hid
    rcases hstatus id hid with hsame | hnew
    · rw [hsame] at hid ⊢
      exact h.executed id hid
    · exact hnew

theorem Quiet.of_eq (h : s.Quiet outcome)
    (hflags : t.cancelRequested = s.cancelRequested ∧ t.cancelled = s.cancelled ∧
      t.failFast = s.failFast) (hstatus : t.status = s.status) : t.Quiet outcome :=
  h.of_status hflags fun id _ => Or.inl (by rw [hstatus])

theorem Quiet.tickHead {s : Sched} (h : s.Quiet outcome) : s.tickHead.Quiet outcome := by
  unfold Sched.tickHead
  split
  · exact h.of_eq ⟨rfl, rfl, rfl⟩ rfl
  · rw [if_neg (by simp [h.cancelled, h.failFast]), if_neg (by simp [h.cancelRequested])]
    exact h.of_eq ⟨rfl, rfl, rfl⟩ rfl

theorem Quiet.tickFill {s : Sched} (h : s.Quiet outcome) (options : LoopOptions) :
    (s.tickFill options).Quiet outcome := by
  unfold Sched.tickFill
  split
  · next id rest hready =>
      split
      · split
        · refine h.of_status ⟨rfl, rfl, rfl⟩ fun j hj => Or.inl ?_
          by_cases hne : j = id
          · subst hne
            simp at hj
          · simp [hne]
        · exact h.of_eq ⟨rfl, rfl, rfl⟩ rfl
      · exact h.of_eq ⟨rfl, rfl, rfl⟩ rfl
  · split <;> exact h.of_eq ⟨rfl, rfl, rfl⟩ rfl

theorem Quiet.passMain {s : Sched} (h : s.Quiet outcome) {id : ModelId}
    (hid : outcome id = true) : (s.passMain sch id).Quiet outcome := by
  refine h.of_status ⟨rfl, rfl, rfl⟩ fun j _ => ?_
  by_cases hne : j = id
  · subst hne
    simp [Sched.passMain, hid]
  · simp [Sched.passMain, hne]

theorem Quiet.failMain {s : Sched} (h : s.Quiet outcome) {concurrency : Nat}
    {id : ModelId} (hid : outcome id = false) :
    (s.failMain sch ⟨concurrency, false⟩ id).Quiet outcome := by
  refine h.of_status ⟨rfl, rfl, rfl⟩ fun j hj => ?_
  rw [failMain_status, failBelow_status] at hj ⊢
  split at hj
  · simp at hj
  · next hnew =>
      rw [if_neg hnew]
      by_cases hne : j = id
      · subst hne
        simp [hid]
      · simp [hne]

theorem Quiet.step {s s' : Sched} (h : s.Quiet outcome) (hinv : s.LoopInv sch)
    {concurrency : Nat} {event : Option ModelId}
    (hstep : (quietLoop sch concurrency outcome).step s event = some s')
    (hlive : s'.phase ≠ .done) : s'.Quiet outcome := by
  have hidle : ∀ {id}, s.phase = .drain → id ∉ s.inflight := fun hdrain => by
    simp [(hinv.drain_idle hdrain h.stopping).1]
  have hto : StepTo sch ⟨concurrency, false⟩ s (quietEvent outcome event) s' :=
    stepTo_of_step hstep
  cases event with
  | none =>
    cases hto with
    | head hphase => exact h.tickHead
    | fill hphase => exact h.tickFill _
    | sweep hphase hidle => exact absurd rfl hlive
  | some id =>
    rw [quietEvent] at hto
    cases hout : outcome id with
    | true =>
      rw [hout] at hto
      cases hto with
      | passMain hphase hid => exact h.passMain hout
      | passDrain hphase hid => exact absurd hid (hidle hphase)
    | false =>
      rw [hout] at hto
      cases hto with
      | failMain hphase hid => exact h.failMain hout
      | failDrain hphase hid => exact absurd hid (hidle hphase)

/-! ## Ended runs -/

/-- No model is left over when the loop of an acyclic planned set drains. -/
theorem unfinished_eq_nil (hacyclic : sch.graph.Acyclic) (hinv : s.LoopInv sch)
    (hopen : s.stopping = false) (hdrain : s.phase = .drain) : s.unfinished sch.planned = [] := by
  obtain ⟨hinflight, hready⟩ := hinv.drain_idle hdrain hopen
  have hpending : ∀ id, (s.status id).isTerminal = false → s.status id = .pending := by
    intro id hunfinished
    cases hst : s.status id with
    | pending => rfl
    | ready => exact absurd hst (hinv.consistent.not_ready id)
    | running =>
      have := hinv.running_inflight hopen id hst
      simp [hinflight] at this
    | passed | failed | skipped | cached | blocked | cancelled =>
      simp [hst, ExecutionStatus.isTerminal] at hunfinished
  have hterm : ∀ id, id ∈ sch.planned → (s.status id).isTerminal = true := by
    intro id
    induction id using (DependencyGraph.wellFounded_of_acyclic hacyclic).induction with
    | _ id ih =>
      intro hid
      by_contra hnot
      have hpend := hpending id (by simpa using hnot)
      -- a pending model outside the queue waits for a planned dependency
      have hwaits : openDependencies sch s id ≠ [] := by
        intro hnil
        have hzero : s.remaining id = 0 := by
          rw [hinv.consistent.remaining_eq id hid, hnil]
          rfl
        have := hinv.pending_ready hopen id hid hpend hzero
        simp [hready] at this
      obtain ⟨d, hd⟩ := List.exists_mem_of_ne_nil _ hwaits
      simp only [openDependencies, List.mem_filter, Bool.not_eq_true'] at hd
      obtain ⟨hdep, hunsat⟩ := hd
      have hdterm := ih d (Schedule.edge_iff.2 ⟨hid, hdep⟩)
        (Schedule.mem_plannedDependencies.1 hdep).2
      refine hnot (hinv.consistent.blocked_down id hid d hdep ?_)
      cases hst : s.status d with
      | failed => exact Or.inl rfl
      | blocked => exact Or.inr rfl
      | cancelled => exact absurd hst (hinv.not_cancelled d)
      | pending | ready | running => simp [hst, ExecutionStatus.isTerminal] at hdterm
      | passed | skipped | cached => simp [hst, ExecutionStatus.isSatisfied] at hunsat
  simp only [unfinished, List.filter_eq_nil_iff, Bool.not_eq_true', Bool.not_eq_false]
  exact hterm

/-- What an ended run has made of every planned model. -/
structure Final (sch : Schedule) (p : Prelude) (outcome : ModelId → Bool) (s : Sched) :
    Prop where
  inflight_nil : s.inflight = []
  cancelRequested : s.cancelRequested = false
  cancelled : s.cancelled = false
  failFast : s.failFast = false
  unplanned : ∀ id, id ∉ sch.planned → s.status id = .pending
  one_result : (s.finished.map Prod.fst).Perm sch.planned
  result_status : ∀ id status, (id, status) ∈ s.finished → s.status id = status
  terminal : ∀ id ∈ sch.planned, (s.status id).isTerminal = true
  not_cancelled : ∀ id, s.status id ≠ .cancelled
  carried : ∀ id ∈ sch.planned, ∀ status, p.outcome id = some status →
    s.status id = status
  not_carried : ∀ id, s.status id = .skipped ∨ s.status id = .cached →
    p.outcome id ≠ none
  seed_blocked : ∀ id, p.SeedBlocked sch id → s.status id = .blocked
  below_blocked : ∀ d m, p.Feeds sch d m → s.status d = .failed ∨ s.status d = .blocked →
    s.status m = .blocked
  blocked_reason : ∀ id, s.status id = .blocked → p.readsFailedSeed id = true ∨
    ∃ d ∈ sch.plannedDependencies id, s.status d = .failed ∨ s.status d = .blocked
  executed : ∀ id, s.status id = .passed ∨ s.status id = .failed →
    s.status id = if outcome id then .passed else .failed

theorem final_of_sweep {u : Sched} (hacyclic : sch.graph.Acyclic)
    (hinv : u.LoopInv sch) (hdec : u.Decided sch p) (hquiet : u.Quiet outcome)
    (hdrain : u.phase = .drain) : (u.sweep sch).Final sch p outcome := by
  have hnil := unfinished_eq_nil hacyclic hinv hquiet.stopping hdrain
  have heq : u.sweep sch = { u with phase := .done } := by
    rw [sweep_eq, hnil]
    simp
  have hterm : ∀ id ∈ sch.planned, (u.status id).isTerminal = true := by
    intro id hid
    by_contra hnot
    have hmem : id ∈ u.unfinished sch.planned :=
      List.mem_filter.2 ⟨hid, by simpa using hnot⟩
    simp [hnil] at hmem
  have hresult : ∀ id, id ∈ u.finished.map Prod.fst ↔ id ∈ sch.planned := by
    intro id
    constructor
    · intro hmem
      obtain ⟨⟨id', status⟩, hfin, rfl⟩ := List.mem_map.1 hmem
      obtain ⟨rfl, hst⟩ := (hinv.consistent.mem_finished id' status).1 hfin
      refine hinv.consistent.planned_of_ne_pending fun hpend => ?_
      simp [hpend, ExecutionStatus.isTerminal] at hst
    · intro hid
      exact List.mem_map.2 ⟨(id, u.status id),
        (hinv.consistent.mem_finished id _).2 ⟨rfl, hterm id hid⟩, rfl⟩
  rw [heq]
  refine ⟨(hinv.drain_idle hdrain hquiet.stopping).1, hquiet.cancelRequested,
    hquiet.cancelled, hquiet.failFast, ?_, ?_, ?_, hterm, hinv.not_cancelled, hdec.carried,
    hdec.not_carried, ?_, ?_, hdec.blocked_reason, hquiet.executed⟩
  · intro id hid
    by_contra hne
    exact hid (hinv.consistent.planned_of_ne_pending hne)
  · exact (List.perm_ext_iff_of_nodup hinv.consistent.finished_nodup
      sch.planned_nodup).2 hresult
  · exact fun id status hmem => ((hinv.consistent.mem_finished id status).1 hmem).1
  · exact fun id h => hdec.seed_blocked id h.1 h.2.1 h.2.2
  · rintro d m ⟨hm, hnone, hdep⟩ hd
    have hd : u.status d = .failed ∨ u.status d = .blocked := hd
    have hmterm := hinv.consistent.blocked_down m hm d hdep hd
    have hopen : openDependencies sch u m ≠ [] := by
      intro hnil
      have := openDependencies_eq_nil.1 hnil d hdep
      rcases hd with hd | hd <;> simp [hd, ExecutionStatus.isSatisfied] at this
    change u.status m = .blocked
    cases hst : u.status m with
    | blocked => rfl
    | passed => exact absurd (hinv.consistent.executed m (by simp [hst])) hopen
    | failed => exact absurd (hinv.consistent.executed m (by simp [hst])) hopen
    | skipped => exact absurd hnone (hdec.not_carried m (Or.inl hst))
    | cached => exact absurd hnone (hdec.not_carried m (Or.inr hst))
    | cancelled => exact absurd hst (hinv.not_cancelled m)
    | pending | ready | running => simp [hst, ExecutionStatus.isTerminal] at hmterm

/-- The cases of a planned model that is not carried over. -/
theorem Final.cases {s : Sched} (h : s.Final sch p outcome) {id : ModelId}
    (hid : id ∈ sch.planned) (hnone : p.outcome id = none) :
    s.status id = .blocked ∨ (s.status id = if outcome id then .passed else .failed) := by
  have hterm := h.terminal id hid
  cases hst : s.status id with
  | blocked => exact Or.inl rfl
  | passed => exact Or.inr (hst ▸ h.executed id (Or.inl hst))
  | failed => exact Or.inr (hst ▸ h.executed id (Or.inr hst))
  | skipped => exact absurd hnone (h.not_carried id (Or.inl hst))
  | cached => exact absurd hnone (h.not_carried id (Or.inr hst))
  | cancelled => exact absurd hst (h.not_cancelled id)
  | pending | ready | running => simp [hst, ExecutionStatus.isTerminal] at hterm

/-- Exactly the models that read a failed seed and those below a failed or
seed-blocked model are blocked. -/
theorem Final.blocked_iff (h : s.Final sch p outcome) (hp : p.Valid) (hacyclic : sch.graph.Acyclic)
    (hid : id ∈ sch.planned) :
    s.status id = .blocked ↔ p.SeedBlocked sch id ∨
      ∃ r, (s.status r = .failed ∨ p.SeedBlocked sch r) ∧ Relation.TransGen (p.Feeds sch) r id := by
  have hnone : ∀ j ∈ sch.planned, s.status j = .blocked → p.outcome j = none := by
    intro j hj hblocked
    cases hout : p.outcome j with
    | none => rfl
    | some status =>
      have := h.carried j hj status hout
      rcases hp.outcome j status hout with rfl | rfl <;> simp [hblocked] at this
  constructor
  · induction id using (DependencyGraph.wellFounded_of_acyclic hacyclic).induction with
    | _ id ih =>
      intro hblocked
      have hidNone := hnone id hid hblocked
      rcases h.blocked_reason id hblocked with hseed | ⟨d, hdep, hd⟩
      · exact Or.inl ⟨hid, hidNone, hseed⟩
      · have hfeeds : p.Feeds sch d id := ⟨hid, hidNone, hdep⟩
        have hdPlanned := (Schedule.mem_plannedDependencies.1 hdep).2
        rcases hd with hfailed | hdBlocked
        · exact Or.inr ⟨d, Or.inl hfailed, .single hfeeds⟩
        · rcases ih d (Schedule.edge_iff.2 ⟨hid, hdep⟩) hdPlanned hdBlocked with
            hseed | ⟨r, hr, hchain⟩
          · exact Or.inr ⟨d, Or.inr hseed, .single hfeeds⟩
          · exact Or.inr ⟨r, hr, hchain.tail hfeeds⟩
  · rintro (hseed | ⟨r, hr, hchain⟩)
    · exact h.seed_blocked id hseed
    · have hroot : s.status r = .failed ∨ s.status r = .blocked :=
        hr.imp_right (h.seed_blocked r)
      clear hid
      induction hchain with
      | single hfeeds => exact h.below_blocked _ _ hfeeds hroot
      | tail _ hfeeds ih => exact h.below_blocked _ _ hfeeds (Or.inr ih)

theorem Final.status_unique (hs : s.Final sch p outcome) (ht : t.Final sch p outcome)
    (hacyclic : sch.graph.Acyclic) (id : ModelId) : s.status id = t.status id := by
  by_cases hid : id ∈ sch.planned
  swap
  · rw [hs.unplanned id hid, ht.unplanned id hid]
  induction id using (DependencyGraph.wellFounded_of_acyclic hacyclic).induction with
  | _ id ih =>
    have hdeps : ∀ d ∈ sch.plannedDependencies id, s.status d = t.status d :=
      fun d hdep => ih d (Schedule.edge_iff.2 ⟨hid, hdep⟩)
        (Schedule.mem_plannedDependencies.1 hdep).2
    cases hout : p.outcome id with
    | some status => rw [hs.carried id hid status hout, ht.carried id hid status hout]
    | none =>
      -- a reason for blocking in one run is one in the other
      have hblocked : ∀ {u v : Sched}, u.Final sch p outcome → v.Final sch p outcome →
          (∀ d ∈ sch.plannedDependencies id, u.status d = v.status d) →
          u.status id = .blocked → v.status id = .blocked := by
        intro u v hu hv huv hb
        rcases hu.blocked_reason id hb with hseed | ⟨d, hdep, hd⟩
        · exact hv.seed_blocked id ⟨hid, hout, hseed⟩
        · exact hv.below_blocked d id ⟨hid, hout, hdep⟩ (huv d hdep ▸ hd)
      rcases hs.cases hid hout with hsb | hse
      · rw [hsb, hblocked hs ht hdeps hsb]
      · rcases ht.cases hid hout with htb | hte
        · rw [htb, hblocked ht hs (fun d hd => (hdeps d hd).symm) htb]
        · rw [hse, hte]

/-! ## The length of a run -/

/-- How far the phase is from the end of a pass. -/
def phaseRank : Phase → Nat
  | .head => 3
  | .fill => 2
  | .wait => 1
  | .drain => 1
  | .done => 0

/-- Every event of an undisturbed run lowers this number. -/
def work (sch : Schedule) (s : Sched) : Nat :=
  (s.unfinished sch.planned).length * (sch.planned.length + 4) + s.ready.length +
    phaseRank s.phase

theorem length_unfinished_lt {ids : List ModelId} (hid : id ∈ ids)
    (hopen : (s.status id).isTerminal = false) (hterm : (t.status id).isTerminal = true)
    (hmono : ∀ j, (s.status j).isTerminal = true → (t.status j).isTerminal = true) :
    (t.unfinished ids).length < (s.unfinished ids).length := by
  have hsub : t.unfinished ids = (s.unfinished ids).filter
      fun j => !(t.status j).isTerminal := by
    rw [unfinished, unfinished, List.filter_filter]
    refine List.filter_congr fun j _ => ?_
    cases hj : (s.status j).isTerminal with
    | true => simp [hmono j hj]
    | false => simp
  rw [hsub]
  refine List.length_filter_lt_length_iff_exists.2 ⟨id, ?_, by simp [hterm]⟩
  exact List.mem_filter.2 ⟨hid, by simp [hopen]⟩

theorem unfinished_congr (ids : List ModelId)
    (hst : ∀ j, (t.status j).isTerminal = (s.status j).isTerminal) :
    t.unfinished ids = s.unfinished ids :=
  List.filter_congr fun j _ => by rw [hst j]

variable (sch) in
theorem length_newReady_le (s : Sched) (id : ModelId) :
    (s.newReady sch id).length ≤ sch.planned.length := by
  refine le_trans (List.length_filter_le _ _) ?_
  unfold Schedule.dependents
  split
  · rw [List.length_insertionSort]
    exact List.length_filter_le _ _
  · exact Nat.zero_le _

theorem work_tickHead (hphase : s.phase = .head) : work sch s.tickHead < work sch s := by
  have hsame : s.tickHead.unfinished sch.planned = s.unfinished sch.planned :=
    unfinished_congr _ fun j => by rw [tickHead_status]
  rw [work, work, hsame, hphase]
  unfold Sched.tickHead
  split
  · simp [phaseRank]
  · split
    · simp [phaseRank]
    · split <;> simp [phaseRank]

theorem work_tickFill (options : LoopOptions) (hphase : s.phase = .fill) :
    work sch (s.tickFill options) < work sch s := by
  have hsame : (s.tickFill options).unfinished sch.planned = s.unfinished sch.planned := by
    refine unfinished_congr _ fun j => ?_
    unfold Sched.tickFill
    split
    · next id rest hready =>
        split
        · split
          · next hpending =>
              by_cases hne : j = id
              · subst hne
                simp [hpending, ExecutionStatus.isTerminal]
              · simp [hne]
          · rfl
        · rfl
    · split <;> rfl
  rw [work, work, hsame, hphase]
  unfold Sched.tickFill
  split
  · next id rest hready =>
      split
      · split <;> simp [hready, hphase, phaseRank]
      · simp [phaseRank]
  · split <;> simp [phaseRank]

theorem phaseRank_le (phase : Phase) : phaseRank phase ≤ 3 := by
  cases phase <;> simp [phaseRank]

/-- A model that reaches a terminal status pays for the dependents that it makes
ready. -/
theorem work_lt_of_finished (hid : id ∈ sch.planned) (hopen : (s.status id).isTerminal = false)
    (hterm : (t.status id).isTerminal = true)
    (hmono : ∀ j, (s.status j).isTerminal = true → (t.status j).isTerminal = true)
    (hready : t.ready.length ≤ s.ready.length + sch.planned.length) :
    work sch t < work sch s := by
  have hfewer := length_unfinished_lt hid hopen hterm hmono
  have hrank := phaseRank_le t.phase
  have hmul := Nat.mul_le_mul_right (sch.planned.length + 4) hfewer
  rw [Nat.succ_mul] at hmul
  unfold work
  omega

theorem work_passMain (hinv : s.LoopInv sch) (hid : id ∈ s.inflight) :
    work sch (s.passMain sch id) < work sch s := by
  refine work_lt_of_finished (hinv.planned_of_inflight hid)
    (by simp [hinv.inflight_running id hid, ExecutionStatus.isTerminal])
    (by simp [Sched.passMain, ExecutionStatus.isTerminal]) (fun j hj => ?_) ?_
  · by_cases hne : j = id
    · subst hne
      simp [Sched.passMain, ExecutionStatus.isTerminal]
    · simpa [Sched.passMain, hne] using hj
  · simp only [Sched.passMain, List.length_append]
    exact Nat.add_le_add_left (length_newReady_le sch _ id) _

theorem work_failMain (hinv : s.LoopInv sch) {options : LoopOptions} (hid : id ∈ s.inflight) :
    work sch (s.failMain sch options id) < work sch s := by
  refine work_lt_of_finished (hinv.planned_of_inflight hid)
    (by simp [hinv.inflight_running id hid, ExecutionStatus.isTerminal]) ?_ (fun j hj => ?_) ?_
  · rw [failMain_status, failBelow_status]
    split
    · rfl
    · simp [ExecutionStatus.isTerminal]
  · rw [failMain_status]
    exact isTerminal_failBelow rfl hj
  · unfold Sched.failMain
    simp only
    split
    · simp
    · exact Nat.le_add_right _ _

theorem work_sweep (hphase : s.phase = .drain) : work sch (s.sweep sch) < work sch s := by
  have hle : ((s.sweep sch).unfinished sch.planned).length ≤
      (s.unfinished sch.planned).length := by
    have hnil : (s.sweep sch).unfinished sch.planned = [] := by
      rw [sweep_eq]
      simp only [unfinished, List.filter_eq_nil_iff, Bool.not_eq_true', Bool.not_eq_false]
      intro id hid
      by_cases hmem : id ∈ s.unfinished sch.planned
      · simp only [unfinished] at hmem
        simp [hmem, leftoverStatus_isTerminal]
      · have : (s.status id).isTerminal = true := by
          by_contra hnot
          exact hmem (List.mem_filter.2 ⟨hid, by simpa using hnot⟩)
        simp only [unfinished] at hmem
        simp [hmem, this]
    simp [hnil]
  have hready : (s.sweep sch).ready = s.ready := by rw [sweep_eq]
  have hrank : phaseRank (s.sweep sch).phase = 0 := by rw [sweep_eq]; rfl
  have hmul := Nat.mul_le_mul_right (sch.planned.length + 4) hle
  rw [work, work, hrank, hready, hphase, phaseRank]
  omega

end Sched

/-! ## Undisturbed runs -/

namespace Prelude

variable {sch : Schedule} {p : Prelude} {outcome : ModelId → Bool} {concurrency : Nat}
variable {events : List (Option ModelId)} {s : Sched}

theorem enter_quiet (hp : p.Valid) (hundisturbed : p.Undisturbed) :
    (p.enter sch).Quiet outcome := by
  have hflags := enter_flags sch p
  rw [hundisturbed.cancelRequested, hundisturbed.cancelled, hundisturbed.failFast] at hflags
  simp only [flags, Prod.mk.injEq] at hflags
  obtain ⟨⟨hrequested, hcancelled, hfailFast⟩, -⟩ := hflags
  refine ⟨hrequested, hcancelled, hfailFast, fun id hid => ?_⟩
  rcases enter_status sch hp id with hq | hq | hq | hq <;> simp [hq] at hid

def QuietlyReached (sch : Schedule) (p : Prelude) (outcome : ModelId → Bool) (s : Sched) :
    Prop :=
  (s.phase ≠ .done ∧ s.LoopInv sch ∧ s.Decided sch p ∧ s.Quiet outcome) ∨
    (s.phase = .done ∧ s.Final sch p outcome)

theorem QuietlyReached.step (hp : p.Valid) (hacyclic : sch.graph.Acyclic) {s s' : Sched}
    {event : Option ModelId} (h : QuietlyReached sch p outcome s)
    (hstep : (quietLoop sch concurrency outcome).step s event = some s') :
    QuietlyReached sch p outcome s' := by
  have hstep' : s.step sch ⟨concurrency, false⟩ (quietEvent outcome event) = some s' := hstep
  rcases h with ⟨hlive, hinv, hdec, hquiet⟩ | ⟨hdone, -⟩
  · by_cases hdone : s'.phase = .done
    · obtain ⟨hdrain, -, rfl⟩ := Sched.swept_of_phase_done hlive hstep' hdone
      exact Or.inr ⟨hdone, Sched.final_of_sweep hacyclic hinv hdec hquiet hdrain⟩
    · exact Or.inl ⟨hdone, hinv.step hstep' hdone,
        hdec.of_moved hp (hinv.step_moved hstep' hdone), hquiet.step hinv hstep hdone⟩
  · cases event with
    | none => simp [quietLoop, quietEvent, Sched.step, hdone] at hstep
    | some id => simp [quietLoop, quietEvent, Sched.step, hdone] at hstep

theorem quietlyReached_of_run (hp : p.Valid) (hundisturbed : p.Undisturbed)
    (hacyclic : sch.graph.Acyclic)
    (hrun : (quietLoop sch concurrency outcome).run (p.enter sch) events = some s) :
    QuietlyReached sch p outcome s :=
  (quietLoop sch concurrency outcome).run_invariant
    (fun _ _ _ h hstep => h.step hp hacyclic hstep)
    (Or.inl ⟨by simp [enter_phase sch hp], enter_loopInv sch hp, enter_decided sch hp,
      enter_quiet hp hundisturbed⟩) hrun

theorem final_of_quietRun (hp : p.Valid) (hundisturbed : p.Undisturbed)
    (hacyclic : sch.graph.Acyclic)
    (hrun : (quietLoop sch concurrency outcome).run (p.enter sch) events = some s)
    (hdone : s.phase = .done) : s.Final sch p outcome := by
  rcases quietlyReached_of_run hp hundisturbed hacyclic hrun with ⟨hlive, -⟩ | ⟨-, hfinal⟩
  · exact absurd hdone hlive
  · exact hfinal

theorem exists_step_of_quietRun (hp : p.Valid) (hundisturbed : p.Undisturbed)
    (hacyclic : sch.graph.Acyclic)
    (hrun : (quietLoop sch concurrency outcome).run (p.enter sch) events = some s)
    (hlive : s.phase ≠ .done) :
    ∃ event s', (quietLoop sch concurrency outcome).step s event = some s' := by
  rcases quietlyReached_of_run hp hundisturbed hacyclic hrun with
    ⟨-, hinv, -, hquiet⟩ | ⟨hdone, -⟩
  · cases hphase : s.phase with
    | head => exact ⟨none, _, by simp [quietLoop, quietEvent, Sched.step, hphase]; rfl⟩
    | fill => exact ⟨none, _, by simp [quietLoop, quietEvent, Sched.step, hphase]; rfl⟩
    | wait =>
      obtain ⟨id, hid⟩ := List.exists_mem_of_ne_nil _ (hinv.wait_inflight hphase)
      exact ⟨some id, _, by
        simp [quietLoop, quietEvent, Sched.step, hphase, hid]; rfl⟩
    | drain =>
      have hidle := (hinv.drain_idle hphase hquiet.stopping).1
      exact ⟨none, _, by
        simp [quietLoop, quietEvent, Sched.step, hphase, hidle]; rfl⟩
    | done => exact absurd hphase hlive
  · exact absurd hdone hlive

theorem work_step {s' : Sched} {event : Option ModelId} (h : QuietlyReached sch p outcome s)
    (hstep : (quietLoop sch concurrency outcome).step s event = some s') :
    Sched.work sch s' < Sched.work sch s := by
  rcases h with ⟨-, hinv, -, hquiet⟩ | ⟨hdone, -⟩
  · have hidle : ∀ {id}, s.phase = .drain → id ∉ s.inflight := fun hdrain => by
      simp [(hinv.drain_idle hdrain hquiet.stopping).1]
    have hto : Sched.StepTo sch ⟨concurrency, false⟩ s (quietEvent outcome event) s' :=
      Sched.stepTo_of_step hstep
    cases event with
    | none =>
      cases hto with
      | head hphase => exact Sched.work_tickHead hphase
      | fill hphase => exact Sched.work_tickFill _ hphase
      | sweep hphase _ => exact Sched.work_sweep hphase
    | some id =>
      rw [quietEvent] at hto
      cases hout : outcome id with
      | true =>
        rw [hout] at hto
        cases hto with
        | passMain hphase hid => exact Sched.work_passMain hinv hid
        | passDrain hphase hid => exact absurd hid (hidle hphase)
      | false =>
        rw [hout] at hto
        cases hto with
        | failMain hphase hid => exact Sched.work_failMain hinv hid
        | failDrain hphase hid => exact absurd hid (hidle hphase)
  · cases event with
    | none => simp [quietLoop, quietEvent, Sched.step, hdone] at hstep
    | some id => simp [quietLoop, quietEvent, Sched.step, hdone] at hstep

theorem length_le_of_quietRun (hp : p.Valid) (hundisturbed : p.Undisturbed)
    (hacyclic : sch.graph.Acyclic) {events : List (Option ModelId)} {s : Sched}
    (hrun : (quietLoop sch concurrency outcome).run (p.enter sch) events = some s) :
    events.length ≤ Sched.work sch (p.enter sch) := by
  have hbound := (quietLoop sch concurrency outcome).length_add_measure_le
    (fun _ _ _ h hstep => h.step hp hacyclic hstep) (fun _ _ _ h hstep => work_step h hstep)
    (quietlyReached_of_run hp hundisturbed hacyclic
      (StepSystem.run_nil (quietLoop sch concurrency outcome) (p.enter sch))) hrun
  omega

end Prelude
end PhloTransform.Engine
