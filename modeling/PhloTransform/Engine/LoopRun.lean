import PhloTransform.Engine.LoopInvariant

/-!
# Runs of the scheduling loop

The loop is entered after models have been carried over and the readers of
failed seeds have been blocked.  From then on a model carried over keeps its
status and a blocked model has a reason, until the leftover models are swept.

Main results:

- Theorem `Prelude.enter_loopInv`: the loop invariant holds on entry.
- Theorem `Sched.sweep_eq`: what the sweep does to the leftover models.
-/

namespace PhloTransform.Engine

open Core (ModelId)
open Library (Marker StepSystem)

namespace Sched

variable {sch : Schedule} {options : LoopOptions}
variable {ids : List ModelId}

/-! ## Before the loop -/

/-- Before the loop no model is in flight and none has been executed. -/
structure EntryInv (sch : Schedule) (s : Sched) : Prop where
  consistent : s.Consistent sch
  inflight_nil : s.inflight = []
  phase_head : s.phase = .head
  quiet : ∀ id, s.status id = .pending ∨ s.status id = .skipped ∨
    s.status id = .cached ∨ s.status id = .blocked

/-- The statuses of models that are carried over. -/
def CarriesOver (outcome : ModelId → Option ExecutionStatus) : Prop :=
  ∀ id status, outcome id = some status → status = .skipped ∨ status = .cached

theorem initial_entryInv (cancelRequested cancelled failFast : Bool) :
    (Sched.initial sch cancelRequested cancelled failFast).EntryInv sch where
  consistent := by
    refine ⟨fun _ _ => rfl, ?_, ?_, ?_, ?_, List.nodup_nil, ?_⟩
    · intro id hid
      have hall : openDependencies sch
          (Sched.initial sch cancelRequested cancelled failFast) id =
          sch.plannedDependencies id :=
        List.filter_eq_self.2 fun _ _ => rfl
      simp only [Sched.initial, if_pos hid]
      exact (congrArg List.length hall).symm
    · intro id hid
      simp [Sched.initial] at hid
    · intro id _ d _ hbad
      simp [Sched.initial] at hbad
    · intro id
      simp [Sched.initial]
    · intro id status
      simp only [Sched.initial, List.not_mem_nil, false_iff, not_and]
      rintro rfl
      simp [ExecutionStatus.isTerminal]
  inflight_nil := rfl
  phase_head := rfl
  quiet := fun _ => Or.inl rfl

theorem settle_status (outcome : ModelId → Option ExecutionStatus) (s : Sched)
    (id j : ModelId) :
    (settle sch outcome s id).status j =
      if j = id ∧ s.status j = .pending then (outcome j).getD .pending else s.status j := by
  unfold settle
  by_cases hpending : s.status id = .pending
  · rw [if_pos hpending]
    cases hout : outcome id with
    | none =>
      by_cases hj : j = id
      · subst hj
        simp [hpending, hout]
      · simp [hj]
    | some status =>
      by_cases hj : j = id
      · subst hj
        simp [hpending, hout]
      · simp [hj]
  · rw [if_neg hpending]
    by_cases hj : j = id
    · subst hj
      simp [hpending]
    · simp [hj]

theorem EntryInv.settle {s : Sched} (h : s.EntryInv sch)
    {outcome : ModelId → Option ExecutionStatus} (hout : CarriesOver outcome)
    {id : ModelId} (hid : id ∈ sch.planned) : (Sched.settle sch outcome s id).EntryInv sch := by
  unfold Sched.settle
  split
  · next hpending =>
      split
      · next status hstatus =>
          have hcarry := hout id status hstatus
          refine ⟨h.consistent.satisfy hid ?_ ?_ ?_, h.inflight_nil, h.phase_head, ?_⟩
          · simp [hpending, ExecutionStatus.isTerminal]
          · rcases hcarry with rfl | rfl <;> rfl
          · rintro rfl
            simp at hcarry
          · intro j
            by_cases hj : j = id
            · subst hj
              rcases hcarry with rfl | rfl <;> simp
            · simpa [hj] using h.quiet j
      · exact h
  · exact h

theorem EntryInv.foldl_settle {outcome : ModelId → Option ExecutionStatus}
    (hout : CarriesOver outcome) (hids : ∀ id ∈ ids, id ∈ sch.planned) {s : Sched}
    (h : s.EntryInv sch) : (ids.foldl (Sched.settle sch outcome) s).EntryInv sch := by
  induction ids generalizing s with
  | nil => exact h
  | cons id ids ih =>
    exact ih (fun j hj => hids j (by simp [hj])) (h.settle hout (hids id (by simp)))

theorem foldl_settle_status (outcome : ModelId → Option ExecutionStatus)
    (ids : List ModelId) (s : Sched) (j : ModelId) :
    (ids.foldl (settle sch outcome) s).status j =
      if j ∈ ids ∧ s.status j = .pending then (outcome j).getD .pending else s.status j := by
  induction ids generalizing s with
  | nil => simp
  | cons id ids ih =>
    rw [List.foldl_cons, ih, settle_status]
    by_cases hpending : s.status j = .pending
    · by_cases hj : j = id
      · subst hj
        cases hout : outcome j with
        | none => simp [hpending]
        | some status => by_cases hst : status = .pending <;> simp [hpending, hst]
      · simp [hpending, hj]
    · simp [hpending]

theorem settleAll_status (outcome : ModelId → Option ExecutionStatus) (s : Sched)
    (j : ModelId) :
    (s.settleAll sch outcome).status j =
      if j ∈ sch.planned ∧ s.status j = .pending then (outcome j).getD .pending else s.status j :=
  foldl_settle_status outcome sch.planned s j

/-! ## Blocking the readers of failed seeds -/

/-- A planned model gained the status blocked, for a reason that still stands. -/
def SeedMoved (sch : Schedule) (readsFailedSeed : ModelId → Bool) (s s' : Sched)
    (id : ModelId) : Prop :=
  s'.status id = s.status id ∨
    s.status id = .pending ∧ s'.status id = .blocked ∧
      (readsFailedSeed id = true ∨
        ∃ d ∈ sch.plannedDependencies id, s'.status d = .blocked)

theorem SeedMoved.trans {readsFailedSeed : ModelId → Bool} {s t u : Sched} {id : ModelId}
    (h₁ : SeedMoved sch readsFailedSeed s t id)
    (h₂ : ∀ j, SeedMoved sch readsFailedSeed t u j) : SeedMoved sch readsFailedSeed s u id := by
  have hkeep : ∀ j, t.status j = .blocked → u.status j = .blocked := by
    intro j hj
    rcases h₂ j with hsame | ⟨hpending, -, -⟩
    · rw [hsame, hj]
    · rw [hj] at hpending
      cases hpending
  rcases h₁ with hsame | ⟨hpending, hblocked, hreason⟩
  · rcases h₂ id with hsame' | ⟨hpending', hblocked', hreason'⟩
    · exact Or.inl (hsame'.trans hsame)
    · exact Or.inr ⟨hsame ▸ hpending', hblocked', hreason'⟩
  · refine Or.inr ⟨hpending, hkeep id hblocked, hreason.imp_right ?_⟩
    rintro ⟨d, hdep, hd⟩
    exact ⟨d, hdep, hkeep d hd⟩

theorem EntryInv.blockSeedReader {s : Sched} (h : s.EntryInv sch)
    (readsFailedSeed : ModelId → Bool) {id : ModelId} (hid : id ∈ sch.planned) :
    (Sched.blockSeedReader sch readsFailedSeed s id).EntryInv sch ∧
      (∀ j, SeedMoved sch readsFailedSeed s
        (Sched.blockSeedReader sch readsFailedSeed s id) j) ∧
      (s.status id = .pending → readsFailedSeed id = true →
        (Sched.blockSeedReader sch readsFailedSeed s id).status id = .blocked) := by
  unfold Sched.blockSeedReader
  split
  · next hcond =>
      simp only [Bool.and_eq_true, decide_eq_true_eq] at hcond
      obtain ⟨hpending, hreads⟩ := hcond
      have hopen : (s.status id).isTerminal = false := by
        simp [hpending, ExecutionStatus.isTerminal]
      have hstatus := fun j => failBelow_status sch s id j .blocked
      have hpend := fun j (hj : j ∈ newlyBlocked sch s id .blocked) =>
        pending_of_mem_newlyBlocked h.consistent hopen rfl hj
      change (failBelow sch s id .blocked).EntryInv sch ∧
        (∀ j, SeedMoved sch readsFailedSeed s (failBelow sch s id .blocked) j) ∧ _
      refine ⟨⟨h.consistent.failBelow hid hopen (Or.inr rfl) (by simp), h.inflight_nil,
        h.phase_head, ?_⟩, ?_, ?_⟩
      · intro j
        rw [hstatus]
        split
        · simp
        · by_cases hj : j = id
          · subst hj
            simp
          · simpa [hj] using h.quiet j
      · intro j
        by_cases hnew : j ∈ newlyBlocked sch s id .blocked
        · refine Or.inr ⟨hpend j hnew, by rw [hstatus, if_pos hnew], Or.inr ?_⟩
          obtain ⟨-, d, hdep, hd⟩ := exists_dependency_of_mem_newlyBlocked hnew
          refine ⟨d, hdep, ?_⟩
          rw [hstatus]
          rcases hd with rfl | hd
          · simp
          · rw [if_pos hd]
        · by_cases hj : j = id
          · subst hj
            exact Or.inr ⟨hpending, by rw [hstatus, if_neg hnew, Function.update_self],
              Or.inl hreads⟩
          · exact Or.inl (by rw [hstatus, if_neg hnew, Function.update_of_ne hj])
      · intro _ _
        change (failBelow sch s id .blocked).status id = .blocked
        rw [hstatus]
        simp
  · next hcond =>
      refine ⟨h, fun _ => Or.inl rfl, fun hpending hreads => ?_⟩
      simp [hpending, hreads] at hcond

theorem EntryInv.blockSeedReaders {s : Sched} (h : s.EntryInv sch)
    (readsFailedSeed : ModelId → Bool) (hids : ∀ id ∈ ids, id ∈ sch.planned) :
    (ids.foldl (Sched.blockSeedReader sch readsFailedSeed) s).EntryInv sch ∧
      (∀ j, SeedMoved sch readsFailedSeed s
        (ids.foldl (Sched.blockSeedReader sch readsFailedSeed) s) j) ∧
      ∀ j ∈ ids, s.status j = .pending → readsFailedSeed j = true →
        (ids.foldl (Sched.blockSeedReader sch readsFailedSeed) s).status j = .blocked := by
  induction ids generalizing s with
  | nil => exact ⟨h, fun _ => Or.inl rfl, by simp⟩
  | cons id ids ih =>
    obtain ⟨hone, hmoved, hself⟩ :=
      h.blockSeedReader readsFailedSeed (hids id (by simp))
    obtain ⟨hall, hrest, hblocked⟩ := ih hone (fun j hj => hids j (by simp [hj]))
    refine ⟨hall, fun j => (hmoved j).trans hrest, ?_⟩
    intro j hj hpending hreads
    rw [List.foldl_cons]
    have hstays : ∀ j, (Sched.blockSeedReader sch readsFailedSeed s id).status j =
        .blocked → (ids.foldl (Sched.blockSeedReader sch readsFailedSeed)
          (Sched.blockSeedReader sch readsFailedSeed s id)).status j = .blocked := by
      intro j hb
      rcases hrest j with hsame | ⟨hp, -, -⟩
      · rw [hsame, hb]
      · simp [hb] at hp
    rcases hmoved j with hsame | ⟨-, hb, -⟩
    · rcases List.mem_cons.1 hj with rfl | hj
      · exact hstays j (hself hpending hreads)
      · exact hblocked j hj (hsame ▸ hpending) hreads
    · exact hstays j hb

theorem EntryInv.enqueueReady {s : Sched} (h : s.EntryInv sch) :
    (s.enqueueReady sch).LoopInv sch where
  consistent := h.consistent.of_eq rfl rfl rfl
  inflight_nodup := by
    simp [Sched.enqueueReady, h.inflight_nil]
  inflight_running := by
    simp [Sched.enqueueReady, h.inflight_nil]
  running_inflight := by
    intro _ id hid
    have hid : s.status id = .running := hid
    rcases h.quiet id with hq | hq | hq | hq <;> simp [hq] at hid
  ready_zero := by
    intro id hid
    simp only [Sched.enqueueReady, List.mem_filter, Bool.and_eq_true,
      decide_eq_true_eq] at hid
    exact ⟨hid.1, hid.2.1⟩
  pending_ready := by
    intro _ id hid hpending hzero
    simp only [Sched.enqueueReady, List.mem_filter, Bool.and_eq_true,
      decide_eq_true_eq]
    exact ⟨hid, hzero, hpending⟩
  wait_inflight := by
    simp [Sched.enqueueReady, h.phase_head]
  drain_idle := by
    simp [Sched.enqueueReady, h.phase_head]
  not_cancelled := by
    intro id hid
    have hid : s.status id = .cancelled := hid
    rcases h.quiet id with hq | hq | hq | hq <;> simp [hq] at hid

end Sched

/-! ## What was decided before the loop -/

namespace Prelude

/-- How a model is carried over, if it is. -/
def outcome (p : Prelude) (id : ModelId) : Option ExecutionStatus :=
  (p.reused id).or (p.settled id)

/-- Both passes carry models over as skipped or cached. -/
structure Valid (p : Prelude) : Prop where
  reused : Sched.CarriesOver p.reused
  settled : Sched.CarriesOver p.settled

theorem Valid.outcome {p : Prelude} (h : p.Valid) : Sched.CarriesOver p.outcome := by
  intro id status hout
  rcases hreused : p.reused id with _ | status'
  · exact h.settled id status (by simpa [Prelude.outcome, hreused] using hout)
  · exact h.reused id status (by simpa [Prelude.outcome, hreused] using hout)

end Prelude

namespace Sched

variable {sch : Schedule} {options : LoopOptions} {p : Prelude}
variable {s s' : Sched} {id : ModelId} {event : SchedEvent}

/-- Models carried over keep their status, nothing else takes such a status, the
readers of failed seeds are blocked, and every blocked model has a reason. -/
structure Decided (sch : Schedule) (p : Prelude) (s : Sched) : Prop where
  carried : ∀ id ∈ sch.planned, ∀ status, p.outcome id = some status →
    s.status id = status
  not_carried : ∀ id, s.status id = .skipped ∨ s.status id = .cached →
    p.outcome id ≠ none
  seed_blocked : ∀ id ∈ sch.planned, p.outcome id = none →
    p.readsFailedSeed id = true → s.status id = .blocked
  blocked_reason : ∀ id, s.status id = .blocked → p.readsFailedSeed id = true ∨
    ∃ d ∈ sch.plannedDependencies id, s.status d = .failed ∨ s.status d = .blocked

def Moved (sch : Schedule) (s s' : Sched) (id : ModelId) : Prop :=
  s'.status id = s.status id ∨
    (s.status id).isTerminal = false ∧
      (s'.status id = .running ∨ s'.status id = .passed ∨ s'.status id = .failed ∨
        s'.status id = .blocked ∧
          ∃ d ∈ sch.plannedDependencies id, s'.status d = .failed ∨ s'.status d = .blocked)

theorem Decided.of_moved (h : s.Decided sch p) (hp : p.Valid) (hmoved : ∀ id, Moved sch s s' id) :
    s'.Decided sch p := by
  have hkeep : ∀ id, (s.status id).isTerminal = true → s'.status id = s.status id := by
    intro id hterm
    rcases hmoved id with hsame | ⟨hopen, -⟩
    · exact hsame
    · simp [hterm] at hopen
  refine ⟨?_, ?_, ?_, ?_⟩
  · intro id hid status hout
    have hold := h.carried id hid status hout
    rw [hkeep id, hold]
    rcases hp.outcome id status hout with rfl | rfl <;> simp [hold, ExecutionStatus.isTerminal]
  · intro id hid
    refine h.not_carried id ?_
    rcases hmoved id with hsame | ⟨-, hnew⟩
    · rwa [hsame] at hid
    · rcases hnew with hnew | hnew | hnew | ⟨hnew, -⟩ <;> simp [hnew] at hid
  · intro id hid hout hreads
    have hold := h.seed_blocked id hid hout hreads
    rw [hkeep id (by simp [hold, ExecutionStatus.isTerminal]), hold]
  · intro id hid
    rcases hmoved id with hsame | ⟨-, hnew⟩
    · refine (h.blocked_reason id (hsame ▸ hid)).imp_right ?_
      rintro ⟨d, hdep, hd⟩
      refine ⟨d, hdep, ?_⟩
      rwa [hkeep d (by rcases hd with hd | hd <;> simp [hd, ExecutionStatus.isTerminal])]
    · rcases hnew with hnew | hnew | hnew | ⟨-, hreason⟩
      · simp [hnew] at hid
      · simp [hnew] at hid
      · simp [hnew] at hid
      · exact Or.inr hreason

theorem moved_update {status : ExecutionStatus} (hopen : (s.status id).isTerminal = false)
    (hstatus : s'.status = Function.update s.status id status)
    (hnew : status = .running ∨ status = .passed) (j : ModelId) : Moved sch s s' j := by
  by_cases hj : j = id
  · subst hj
    refine Or.inr ⟨hopen, ?_⟩
    rw [hstatus, Function.update_self]
    rcases hnew with rfl | rfl <;> simp
  · exact Or.inl (by rw [hstatus, Function.update_of_ne hj])

theorem moved_failBelow (hopen : (s.status id).isTerminal = false)
    (hstatus : s'.status = (failBelow sch s id .failed).status) (j : ModelId) :
    Moved sch s s' j := by
  have hst := fun j => failBelow_status sch s id j .failed
  by_cases hnew : j ∈ newlyBlocked sch s id .failed
  · refine Or.inr ⟨(open_of_mem_newlyBlocked rfl hnew).2, ?_⟩
    right; right; right
    obtain ⟨-, d, hdep, hd⟩ := exists_dependency_of_mem_newlyBlocked hnew
    refine ⟨by rw [hstatus, hst, if_pos hnew], d, hdep, ?_⟩
    rw [hstatus, hst]
    rcases hd with rfl | hd
    · by_cases hdnew : d ∈ newlyBlocked sch s d .failed <;> simp [hdnew]
    · simp [hd]
  · by_cases hj : j = id
    · subst hj
      refine Or.inr ⟨hopen, ?_⟩
      rw [hstatus, hst, if_neg hnew]
      simp
    · exact Or.inl (by rw [hstatus, hst, if_neg hnew, Function.update_of_ne hj])

theorem tickHead_status (s : Sched) : s.tickHead.status = s.status := by
  unfold Sched.tickHead
  split
  · rfl
  · split
    · rfl
    · split <;> rfl

theorem failMain_status (s : Sched) (id : ModelId) :
    (s.failMain sch options id).status = (failBelow sch s id .failed).status := by
  unfold Sched.failMain
  simp only
  split <;> rfl

theorem LoopInv.step_moved (h : s.LoopInv sch) (hstep : s.step sch options event = some s')
    (hdone : s'.phase ≠ .done) (j : ModelId) : Moved sch s s' j := by
  have hopen : ∀ {id}, id ∈ s.inflight → (s.status id).isTerminal = false := fun hid => by
    simp [h.inflight_running _ hid, ExecutionStatus.isTerminal]
  cases stepTo_of_step hstep with
  | head hphase => exact Or.inl (by rw [tickHead_status])
  | fill hphase =>
    unfold Sched.tickFill
    split
    · split
      · split
        · next hpending =>
            exact moved_update (by simp [hpending, ExecutionStatus.isTerminal]) rfl
              (Or.inl rfl) j
        · exact Or.inl rfl
      · exact Or.inl rfl
    · split <;> exact Or.inl rfl
  | sweep hphase hidle => exact absurd rfl hdone
  | requestCancel => exact Or.inl rfl
  | noticeCancel hphase hrequested => exact Or.inl rfl
  | passMain hphase hid => exact moved_update (hopen hid) rfl (Or.inr rfl) j
  | failMain hphase hid => exact moved_failBelow (hopen hid) (failMain_status s _) j
  | @passDrain id hphase hid =>
    refine moved_update (hopen hid) ?_ (Or.inr rfl) j
    simp [Sched.passDrain, h.inflight_running id hid, ExecutionStatus.isTerminal]
  | @failDrain id hphase hid =>
    refine moved_failBelow (hopen hid) ?_ j
    simp [Sched.failDrain, h.inflight_running id hid, ExecutionStatus.isTerminal,
      failBelow, Sched.blockBelow, Sched.finish]
  | abort hphase hid hstop => exact Or.inl rfl

theorem LoopInv.passed_of_step (h : s.LoopInv sch) (hstep : s.step sch options event = some s')
    (hdone : s'.phase ≠ .done) (hid : s'.status id = .passed) :
    s.status id = .passed ∨ event = .join id true := by
  have hfailBelow : ∀ failed,
      s'.status = (failBelow sch s failed .failed).status → s.status id = .passed := by
    intro failed hstatus
    rw [hstatus, failBelow_status] at hid
    split at hid
    · simp at hid
    · by_cases hne : id = failed
      · subst hne
        simp at hid
      · simpa [hne] using hid
  cases stepTo_of_step hstep with
  | head hphase => exact Or.inl (by rwa [tickHead_status] at hid)
  | fill hphase =>
    unfold Sched.tickFill at hid
    split at hid
    · next first rest hready =>
        split at hid
        · split at hid
          · by_cases hne : id = first
            · subst hne
              simp at hid
            · exact Or.inl (by simpa [hne] using hid)
          · exact Or.inl hid
        · exact Or.inl hid
    · split at hid <;> exact Or.inl hid
  | sweep hphase hidle => exact absurd rfl hdone
  | @passMain passed hphase hmem =>
    by_cases hne : id = passed
    · exact Or.inr (by rw [hne])
    · exact Or.inl (by simpa [Sched.passMain, hne] using hid)
  | failMain hphase hmem => exact Or.inl (hfailBelow _ (failMain_status s _))
  | @passDrain passed hphase hmem =>
    by_cases hne : id = passed
    · exact Or.inr (by rw [hne])
    · exact Or.inl (by
        simpa [Sched.passDrain, h.inflight_running passed hmem, ExecutionStatus.isTerminal,
          hne] using hid)
  | @failDrain failed hphase hmem =>
    refine Or.inl (hfailBelow failed ?_)
    simp [Sched.failDrain, h.inflight_running failed hmem, ExecutionStatus.isTerminal,
      failBelow, Sched.blockBelow, Sched.finish]
  | requestCancel | noticeCancel _ _ | abort _ _ _ => exact Or.inl hid

/-! ## The sweep -/

theorem leftoverStatus_isTerminal (s : Sched) : s.leftoverStatus.isTerminal = true := by
  unfold leftoverStatus
  split <;> rfl

theorem foldl_sweepOne {ids : List ModelId} (hnodup : ids.Nodup) (s : Sched) :
    ids.foldl sweepOne s =
      { s with
        status := fun j => if j ∈ s.unfinished ids then s.leftoverStatus else s.status j
        finished := s.finished ++
          (s.unfinished ids).map fun id => (id, s.leftoverStatus) } := by
  induction ids generalizing s with
  | nil => simp [unfinished]
  | cons id ids ih =>
    rw [List.nodup_cons] at hnodup
    rw [List.foldl_cons, ih hnodup.2, sweepOne]
    cases hterm : (s.status id).isTerminal with
    | true => simp [unfinished, hterm]
    | false =>
      have hrest : (s.finish id s.leftoverStatus).unfinished ids = s.unfinished ids := by
        refine List.filter_congr fun j hj => ?_
        have hne : j ≠ id := fun heq => hnodup.1 (heq ▸ hj)
        simp [finish, hne]
      have hcons : s.unfinished (id :: ids) = id :: s.unfinished ids := by
        simp [unfinished, hterm]
      have hleft : (s.finish id s.leftoverStatus).leftoverStatus = s.leftoverStatus :=
        rfl
      simp only [Bool.false_eq_true, if_false, hrest, hcons, hleft]
      simp only [finish, List.map_cons, List.append_assoc, List.singleton_append]
      congr 1
      funext j
      by_cases hj : j = id
      · subst hj
        simp
      · simp [hj]

/-- The sweep gives every unfinished planned model its final status. -/
theorem sweep_eq (s : Sched) :
    s.sweep sch =
      { s with
        phase := .done
        status := fun j =>
          if j ∈ s.unfinished sch.planned then s.leftoverStatus else s.status j
        finished := s.finished ++
          (s.unfinished sch.planned).map fun id => (id, s.leftoverStatus) } := by
  rw [sweep, foldl_sweepOne sch.planned_nodup]

/-- A task starts below the limit only, for a pending model at the front of the queue;
every other event keeps the tasks in flight or removes one. -/
theorem tasks_of_stepTo (hstep : StepTo sch options s event s') :
    (s'.started = s.started ∧
      (s'.inflight = s.inflight ∨ ∃ id, s'.inflight = s.inflight.erase id)) ∨
    ∃ id rest, s.phase = .fill ∧ event = .tick ∧ s.ready = id :: rest ∧
      s.status id = .pending ∧ s.inflight.length < max options.concurrency 1 ∧
      s' = { s with
        ready := rest
        status := Function.update s.status id .running
        inflight := s.inflight ++ [id]
        started := s.started ++ [id] } := by
  cases hstep with
  | head hphase =>
    refine Or.inl ?_
    unfold Sched.tickHead
    split
    · exact ⟨rfl, Or.inl rfl⟩
    · split
      · exact ⟨rfl, Or.inl rfl⟩
      · split <;> exact ⟨rfl, Or.inl rfl⟩
  | fill hphase =>
    unfold Sched.tickFill
    split
    · next id rest hready =>
      split
      · next hroom =>
        split
        · next hpending =>
          exact Or.inr ⟨id, rest, hphase, rfl, hready, hpending, hroom, rfl⟩
        · exact Or.inl ⟨rfl, Or.inl rfl⟩
      · exact Or.inl ⟨rfl, Or.inl rfl⟩
    · split <;> exact Or.inl ⟨rfl, Or.inl rfl⟩
  | sweep hphase hidle =>
    rw [sweep_eq]
    exact Or.inl ⟨rfl, Or.inl rfl⟩
  | requestCancel => exact Or.inl ⟨rfl, Or.inl rfl⟩
  | noticeCancel hphase hrequested => exact Or.inl ⟨rfl, Or.inl rfl⟩
  | passMain hphase hid => exact Or.inl ⟨rfl, Or.inr ⟨_, rfl⟩⟩
  | @failMain failed hphase hid =>
    unfold Sched.failMain
    simp only
    split <;> exact Or.inl ⟨rfl, Or.inr ⟨failed, rfl⟩⟩
  | @passDrain passed hphase hid =>
    unfold Sched.passDrain
    simp only
    split <;> exact Or.inl ⟨rfl, Or.inr ⟨passed, rfl⟩⟩
  | @failDrain failed hphase hid =>
    unfold Sched.failDrain
    simp only
    split <;> exact Or.inl ⟨rfl, Or.inr ⟨failed, rfl⟩⟩
  | abort hphase hid hstop => exact Or.inl ⟨rfl, Or.inr ⟨_, rfl⟩⟩

theorem swept_of_phase_done (hlive : s.phase ≠ .done) (hstep : s.step sch options event = some s')
    (hdone : s'.phase = .done) : s.phase = .drain ∧ s.inflight = [] ∧ s' = s.sweep sch := by
  cases stepTo_of_step hstep with
  | head hphase =>
    unfold Sched.tickHead at hdone
    split at hdone
    · simp at hdone
    · split at hdone
      · simp at hdone
      · split at hdone <;> simp at hdone
  | fill hphase =>
    unfold Sched.tickFill at hdone
    split at hdone
    · split at hdone
      · split at hdone <;> exact absurd hdone hlive
      · simp at hdone
    · split at hdone <;> simp at hdone
  | sweep hphase hidle => exact ⟨hphase, hidle, rfl⟩
  | requestCancel => exact absurd hdone hlive
  | noticeCancel hphase hrequested => simp at hdone
  | passMain hphase hid => simp [Sched.passMain, Sched.satisfy, Sched.finish] at hdone
  | failMain hphase hid =>
    simp only [Sched.failMain] at hdone
    split at hdone <;> simp [Sched.blockBelow, Sched.finish] at hdone
  | passDrain hphase hid =>
    simp only [Sched.passDrain] at hdone
    split at hdone <;> simp [Sched.satisfy, Sched.finish, hphase] at hdone
  | failDrain hphase hid =>
    simp only [Sched.failDrain] at hdone
    split at hdone <;> simp [Sched.blockBelow, Sched.finish, hphase] at hdone
  | abort hphase hid hstop => exact absurd hdone hlive

end Sched

/-! ## Whole runs -/

namespace Prelude

variable {sch : Schedule} {options : LoopOptions} {p : Prelude}
variable {id : ModelId}

variable (sch) in
theorem settled_entryInv (hp : p.Valid) :
    (((Sched.initial sch p.cancelRequested p.cancelled p.failFast).settleAll sch
      p.reused).settleAll sch p.settled).EntryInv sch :=
  Sched.EntryInv.foldl_settle hp.settled (fun _ h => h)
    (Sched.EntryInv.foldl_settle hp.reused (fun _ h => h)
      (Sched.initial_entryInv _ _ _))

variable (sch) in
theorem settled_status (hp : p.Valid) (id : ModelId) :
    (((Sched.initial sch p.cancelRequested p.cancelled p.failFast).settleAll sch
      p.reused).settleAll sch p.settled).status id =
      if id ∈ sch.planned then (p.outcome id).getD .pending else .pending := by
  rw [Sched.settleAll_status, Sched.settleAll_status]
  by_cases hid : id ∈ sch.planned
  · cases hreused : p.reused id with
    | none => simp [Sched.initial, hid, hreused, outcome]
    | some status =>
      have hne : status ≠ .pending := by
        rcases hp.reused id status hreused with rfl | rfl <;> simp
      simp [Sched.initial, hid, hreused, outcome, hne]
  · simp [Sched.initial, hid]

variable (sch) in
theorem enter_loopInv (hp : p.Valid) : (p.enter sch).LoopInv sch :=
  ((settled_entryInv sch hp).blockSeedReaders p.readsFailedSeed (fun _ h => h)).1.enqueueReady

variable (sch) in
theorem enter_phase (hp : p.Valid) : (p.enter sch).phase = .head :=
  ((settled_entryInv sch hp).blockSeedReaders p.readsFailedSeed (fun _ h => h)).1.phase_head

variable (sch) in
theorem enter_decided (hp : p.Valid) : (p.enter sch).Decided sch p := by
  obtain ⟨-, hmoved, hblocked⟩ := (settled_entryInv sch hp).blockSeedReaders
    p.readsFailedSeed (fun _ h => h)
  have hstatus := settled_status sch hp
  refine ⟨?_, ?_, ?_, ?_⟩
  · intro id hid status hout
    rcases hmoved id with hsame | ⟨hpending, -, -⟩
    · refine hsame.trans ?_
      rw [hstatus, if_pos hid, hout]
      rfl
    · rw [hstatus, if_pos hid, hout] at hpending
      rcases hp.outcome id status hout with rfl | rfl <;> simp at hpending
  · intro id hid hnone
    rcases hmoved id with hsame | ⟨-, hb, -⟩
    · have hpend : (p.enter sch).status id = .pending := by
        refine hsame.trans ?_
        rw [hstatus, hnone]
        split <;> rfl
      simp [hpend] at hid
    · have hb : (p.enter sch).status id = .blocked := hb
      simp [hb] at hid
  · intro id hid hnone hreads
    refine hblocked id hid ?_ hreads
    rw [hstatus, if_pos hid, hnone]
    rfl
  · intro id hid
    rcases hmoved id with hsame | ⟨-, -, hreason⟩
    · have hnot : (p.enter sch).status id ≠ .blocked := by
        intro hb
        have hb' := hsame.symm.trans hb
        rw [hstatus] at hb'
        cases hout : p.outcome id with
        | none => split at hb' <;> simp [hout] at hb'
        | some status =>
          rcases hp.outcome id status hout with rfl | rfl <;>
            (split at hb' <;> simp [hout] at hb')
      exact absurd hid hnot
    · exact hreason.imp_right fun ⟨d, hdep, hd⟩ => ⟨d, hdep, Or.inr hd⟩

/-- The states of a run: before the leftover models are swept both invariants
hold; afterwards the state is a swept one. -/
def Reached (sch : Schedule) (p : Prelude) (s : Sched) : Prop :=
  (s.phase ≠ .done ∧ s.LoopInv sch ∧ s.Decided sch p) ∨
    ∃ (u : Sched) (c : Bool), u.LoopInv sch ∧ u.Decided sch p ∧ u.phase = .drain ∧
      u.inflight = [] ∧ s = { u.sweep sch with cancelRequested := c }

theorem Reached.step (hp : p.Valid) {s s' : Sched} {event : SchedEvent}
    (h : Reached sch p s) (hstep : s.step sch options event = some s') : Reached sch p s' := by
  rcases h with ⟨hlive, hinv, hdec⟩ | ⟨u, c, hinv, hdec, hphase, hidle, rfl⟩
  · by_cases hdone : s'.phase = .done
    · obtain ⟨hdrain, hidle, rfl⟩ := Sched.swept_of_phase_done hlive hstep hdone
      exact Or.inr ⟨s, s.cancelRequested, hinv, hdec, hdrain, hidle, by
        rw [Sched.sweep_eq]⟩
    · exact Or.inl ⟨hdone, hinv.step hstep hdone,
        hdec.of_moved hp (hinv.step_moved hstep hdone)⟩
  · refine Or.inr ⟨u, ?_⟩
    cases Sched.stepTo_of_step hstep with
    | requestCancel => exact ⟨true, hinv, hdec, hphase, hidle, rfl⟩
    | head hp | fill hp | sweep hp | noticeCancel hp | passMain hp | failMain hp
    | passDrain hp | failDrain hp | abort hp => simp [Sched.sweep] at hp

theorem reached_of_run (hp : p.Valid) {events : List SchedEvent} {s : Sched}
    (hrun : (loopSystem sch options).run (p.enter sch) events = some s) : Reached sch p s :=
  (loopSystem sch options).run_invariant (P := Reached sch p)
    (fun _ _ _ h hstep => h.step hp hstep)
    (Or.inl ⟨by simp [enter_phase sch hp], enter_loopInv sch hp, enter_decided sch hp⟩) hrun

theorem Reached.status_eq_of_terminal {s s' : Sched} {event : SchedEvent} (h : Reached sch p s)
    (hstep : s.step sch options event = some s') (hterm : (s.status id).isTerminal = true) :
    s'.status id = s.status id := by
  rcases h with ⟨hlive, hinv, -⟩ | ⟨u, c, -, -, -, -, rfl⟩
  · by_cases hdone : s'.phase = .done
    · obtain ⟨-, -, rfl⟩ := Sched.swept_of_phase_done hlive hstep hdone
      rw [Sched.sweep_eq]
      have hnot : id ∉ s.unfinished sch.planned := by
        simp [Sched.unfinished, hterm]
      simp only [hnot, if_false]
    · rcases hinv.step_moved hstep hdone id with hsame | ⟨hopen, -⟩
      · exact hsame
      · simp [hterm] at hopen
  · cases Sched.stepTo_of_step hstep with
    | requestCancel => rfl
    | head hp | fill hp | sweep hp | noticeCancel hp | passMain hp | failMain hp
    | passDrain hp | failDrain hp | abort hp => simp [Sched.sweep] at hp

theorem Reached.pending_of_step {s s' : Sched} {event : SchedEvent} (h : Reached sch p s)
    (hstep : s.step sch options event = some s') (hid : s'.status id = .pending) :
    s.status id = .pending := by
  rcases h with ⟨hlive, hinv, -⟩ | ⟨u, c, -, -, -, -, rfl⟩
  · by_cases hdone : s'.phase = .done
    · obtain ⟨-, -, rfl⟩ := Sched.swept_of_phase_done hlive hstep hdone
      rw [Sched.sweep_eq] at hid
      simp only at hid
      split at hid
      · unfold Sched.leftoverStatus at hid
        split at hid <;> cases hid
      · exact hid
    · rcases hinv.step_moved hstep hdone id with hsame | ⟨-, hmoved⟩
      · exact hsame ▸ hid
      · simp [hid] at hmoved
  · cases Sched.stepTo_of_step hstep with
    | requestCancel => exact hid
    | head hp | fill hp | sweep hp | noticeCancel hp | passMain hp | failMain hp
    | passDrain hp | failDrain hp | abort hp => simp [Sched.sweep] at hp

theorem Reached.passed_of_step {s s' : Sched} {event : SchedEvent} (h : Reached sch p s)
    (hstep : s.step sch options event = some s') {id : ModelId}
    (hid : s'.status id = .passed) : s.status id = .passed ∨ event = .join id true := by
  rcases h with ⟨hlive, hinv, -⟩ | ⟨u, c, -, -, -, -, rfl⟩
  · by_cases hdone : s'.phase = .done
    · obtain ⟨-, -, rfl⟩ := Sched.swept_of_phase_done hlive hstep hdone
      rw [Sched.sweep_eq] at hid
      simp only at hid
      split at hid
      · unfold Sched.leftoverStatus at hid
        split at hid <;> simp at hid
      · exact Or.inl hid
    · exact hinv.passed_of_step hstep hdone hid
  · cases Sched.stepTo_of_step hstep with
    | requestCancel => exact Or.inl hid
    | head hp | fill hp | sweep hp | noticeCancel hp | passMain hp | failMain hp
    | passDrain hp | failDrain hp | abort hp => simp [Sched.sweep] at hp

theorem Reached.outcome_ne_none {s : Sched} (h : Reached sch p s)
    (hid : s.status id = .skipped ∨ s.status id = .cached) : p.outcome id ≠ none := by
  rcases h with ⟨-, -, hdec⟩ | ⟨u, c, -, hdec, -, -, rfl⟩
  · exact hdec.not_carried id hid
  · refine hdec.not_carried id ?_
    rw [Sched.sweep_eq] at hid
    simp only at hid
    split at hid
    · unfold Sched.leftoverStatus at hid
      split at hid <;> simp at hid
    · exact hid

end Prelude
end PhloTransform.Engine
