import PhloTransform.Engine.Gates
import PhloTransform.Engine.Plan

/-!
# Merging an audited candidate

A promotion reads the candidate and the target, checks that both are still where
the audit and the plan saw them, and merges.  The three calls are separate, so
other clients may move either reference between them.

Main results:

- Theorem `promote_pinned_iff`: when a promotion merges exactly what was audited, for
  any client that honours the pinned target.
- Theorem `promote_merges_audited_iff`: the same for the in-memory client and for the
  REST client.
-/

namespace PhloTransform.Engine

open Library (Program Table)
open Nessie

/-- The immutable evidence rows that authorised a promotion. -/
structure PromotionEvidenceIds where
  branchDiff : Option String
  lineageDiff : Option String
  environment : Option String
deriving Repr, DecidableEq

def PromotionEvidenceIds.none : PromotionEvidenceIds where
  branchDiff := Option.none
  lineageDiff := Option.none
  environment := Option.none

/-- The ids when at least one was captured. -/
def PromotionEvidenceIds.orNone (ids : PromotionEvidenceIds) : Option PromotionEvidenceIds :=
  if ids.branchDiff.isNone && ids.lineageDiff.isNone && ids.environment.isNone then Option.none
  else some ids

/-- A promotion request. -/
structure PromotionRequest where
  candidateRef : String
  targetRef : String
  candidateHash : Option String
  expectedTargetHash : Option String
  planId : Option String
  runId : Option String
  qualityGatesPassed : Bool
  diffPassed : Option Bool
  requireDiff : Bool
  breakingSchemaChanges : List String
  allowBreakingSchema : Bool
  dryRun : Bool
  actor : Option String
  gates : List GateResult
  evidence : PromotionEvidenceIds
deriving Repr, DecidableEq

/-- A reproducible promotion record. -/
structure PromotionRecord where
  promotionId : String
  candidateRef : String
  candidateHash : Option String
  targetRef : String
  targetHashBefore : String
  targetHashAfter : Option String
  planId : Option String
  runId : Option String
  dryRun : Bool
  merged : Bool
  conflicts : List Conflict
  gates : List GateResult
  evidence : Option PromotionEvidenceIds
  timestamp : String
  actor : Option String
deriving Repr, DecidableEq

namespace PromotionRequest

variable (request : PromotionRequest)

/-- Why the request is refused before any reference is read. -/
def refusal : Option EngineError :=
  if !request.qualityGatesPassed then
    some (.promotion "quality gates have not passed; refusing to promote")
  else if request.requireDiff && request.diffPassed != some true then
    some (.promotion "a passing data diff is required before promotion")
  else if !request.allowBreakingSchema && !request.breakingSchemaChanges.isEmpty then
    some (.promotion ("breaking schema changes block promotion: " ++
      ", ".intercalate request.breakingSchemaChanges))
  else none

/-- Why the references just read are not the ones the request speaks of. -/
def moved (candidate target : ReferenceInfo) : Option EngineError :=
  match request.candidateHash.filter fun expected => expected ≠ candidate.hash with
  | some expected =>
    some (.promotion ("candidate `" ++ request.candidateRef ++
      "` advanced since the audit (expected " ++ expected ++ ", found " ++ candidate.hash ++
      "); re-run the audit and gates"))
  | none =>
    match request.expectedTargetHash.filter fun expected => expected ≠ target.hash with
    | some expected =>
      some (.promotion ("target `" ++ request.targetRef ++
        "` advanced since planning (expected " ++ expected ++ ", found " ++ target.hash ++
        "); re-plan the candidate"))
    | none => none

/-- The record of the promotion, nothing merged yet. -/
def record (promotionId timestamp : String) (candidate target : ReferenceInfo) :
    PromotionRecord where
  promotionId := promotionId
  candidateRef := request.candidateRef
  candidateHash := request.candidateHash.or (some candidate.hash)
  targetRef := request.targetRef
  targetHashBefore := target.hash
  targetHashAfter := none
  planId := request.planId
  runId := request.runId
  dryRun := request.dryRun
  merged := false
  conflicts := []
  gates := request.gates
  evidence := request.evidence.orNone
  timestamp := timestamp
  actor := request.actor

/-- What the merge or the merge check makes of the record. -/
def settle (record : PromotionRecord) (outcome : MergeOutcome) :
    Except EngineError PromotionRecord :=
  if outcome.isClean then
    .ok { record with merged := !request.dryRun, targetHashAfter := outcome.hash }
  else
    .error (.promotion ("candidate cannot be promoted: " ++ "; ".intercalate
      (outcome.conflicts.map fun conflict => conflict.path ++ ": " ++ conflict.message)))

end PromotionRequest

def requireReference {σ : Type} (nessie : NessieClient σ) (role name : String) :
    Program σ EngineError ReferenceInfo := do
  match ← (nessie.getReference name).mapError fun error => .promotion error.message with
  | some reference => pure reference
  | none => Program.fail (.notFound (role ++ " reference `" ++ name ++ "` was not found"))

/-- Promote an audited candidate to the target reference. -/
def promote {σ : Type} (nessie : NessieClient σ) (promotionId timestamp : String)
    (request : PromotionRequest) : Program σ EngineError PromotionRecord :=
  match request.refusal with
  | some error => Program.fail error
  | none => do
      let candidate ← requireReference nessie "candidate" request.candidateRef
      let target ← requireReference nessie "target" request.targetRef
      match request.moved candidate target with
      | some error => Program.fail error
      | none => do
          let outcome ← (if request.dryRun then
              nessie.canMerge request.candidateRef request.targetRef
            else
              nessie.merge request.candidateRef (some candidate.hash) request.targetRef
                request.expectedTargetHash).mapError fun error => .promotion error.message
          Program.ofExcept (request.settle (request.record promotionId timestamp candidate target)
            outcome)

/-! ## Other clients between the calls -/

section Interleaving

variable {σ : Type}

/-- What the `n`-th call finds, as long as the calls before it changed nothing. -/
def foundAt (others : Nat → σ → σ) (s : σ) : Nat → σ
  | 0 => s
  | n + 1 => others n (foundAt others s n)

variable (client : NessieClient σ) (head : σ → String → Option String)
  (merged : σ → σ → String → String → String → Prop) (promotionId timestamp : String)
  (request : PromotionRequest) (c t : String) (others : Nat → σ → σ) (s : σ)

/-- The run of a promotion among other clients. -/
def promotionRun : Except EngineError PromotionRecord × σ × Nat :=
  promote (client.shared others) promotionId timestamp request (s, 0)

/-- A reference is not where the audit saw it when it is read or at the merge. -/
def Moved : Prop :=
  head (foundAt others s 1) request.candidateRef ≠ some c ∨
    head (foundAt others s 2) request.targetRef ≠ some t ∨
    head (foundAt others s 3) request.candidateRef ≠ some c ∨
    head (foundAt others s 3) request.targetRef ≠ some t

/-- A promotion that reports a merge merged the audited commit into the target where
the plan saw it, and one whose references moved fails and leaves the target alone. -/
structure MergesAudited : Prop where
  merged : ∀ record,
    (promotionRun client promotionId timestamp request others s).1 = .ok record →
    record.merged = true →
    head (foundAt others s 3) request.targetRef = some t ∧
      merged (foundAt others s 3)
        (promotionRun client promotionId timestamp request others s).2.1 request.targetRef t c
  refused : request.dryRun = false → Moved head request c t others s →
    (∃ error, (promotionRun client promotionId timestamp request others s).1 = .error error) ∧
      head (promotionRun client promotionId timestamp request others s).2.1 request.targetRef =
        head (foundAt others s
          (promotionRun client promotionId timestamp request others s).2.2) request.targetRef

/-- The merge call of the promotion, at the state it finds. -/
def mergeCall : Except NessieError MergeOutcome × σ :=
  client.merge request.candidateRef (some c) request.targetRef (some t) (foundAt others s 3)

/-- Both references are read where the audit saw them. -/
structure ReachesMerge : Prop where
  admitted : request.refusal = none
  wet : request.dryRun = false
  candidate : ∃ reference, (client.getReference request.candidateRef (foundAt others s 1)).1 =
    .ok (some reference) ∧ reference.hash = c
  target : ∃ reference, (client.getReference request.targetRef (foundAt others s 2)).1 =
    .ok (some reference) ∧ reference.hash = t

/-- The candidate moves after it was read, and the merge takes effect all the same. -/
structure MovedUnseen : Prop where
  reaches : ReachesMerge client request c t others s
  moved : head (foundAt others s 3) request.candidateRef ≠ some c
  effect : (∃ outcome, (mergeCall client request c t others s).1 = .ok outcome ∧
      outcome.isClean = true) ∨
    head (mergeCall client request c t others s).2 request.targetRef ≠
      head (foundAt others s 3) request.targetRef

variable {client head merged promotionId timestamp request c t others s}

variable (others s) in
theorem requireReference_run (hpins : client.Pins head merged) (role name : String) (n : Nat) :
    ∃ r, requireReference (client.shared others) role name (foundAt others s n, n) =
        (r, foundAt others s (n + 1), n + 1) ∧
      ∀ reference, r = .ok reference ↔
        (client.getReference name (foundAt others s (n + 1))).1 = .ok (some reference) := by
  have hstate : (client.getReference name (foundAt others s (n + 1))).2 =
      foundAt others s (n + 1) := hpins.getReference_state _ _
  have hcall : (client.shared others).getReference name (foundAt others s n, n) =
      ((client.getReference name (foundAt others s (n + 1))).1, foundAt others s (n + 1),
        n + 1) := Prod.ext rfl (Prod.ext hstate rfl)
  unfold requireReference
  rw [Program.bind_run, Program.mapError, hcall]
  rcases (client.getReference name (foundAt others s (n + 1))).1 with error | (_ | reference)
  · exact ⟨_, rfl, by simp⟩
  · exact ⟨_, rfl, by simp⟩
  · exact ⟨_, rfl, by simp⟩

theorem moved_eq_none {candidate target : ReferenceInfo} (hc : request.candidateHash = some c)
    (ht : request.expectedTargetHash = some t) :
    request.moved candidate target = none ↔ candidate.hash = c ∧ target.hash = t := by
  unfold PromotionRequest.moved
  by_cases hcandidate : c = candidate.hash
  · by_cases htarget : t = target.hash
    · simp [hc, ht, Option.filter_some, hcandidate, htarget]
    · simp [hc, ht, Option.filter_some, hcandidate, htarget, Ne.symm htarget]
  · simp [hc, Option.filter_some, hcandidate, Ne.symm hcandidate]

variable (promotionId timestamp) in
/-- A promotion that does not reach the merge fails without changing anything. -/
theorem promotionRun_of_not_reaches (hpins : client.Pins head merged)
    (hc : request.candidateHash = some c) (ht : request.expectedTargetHash = some t)
    (hwet : request.dryRun = false) (hnot : ¬ ReachesMerge client request c t others s) :
    (∃ error, (promotionRun client promotionId timestamp request others s).1 = .error error) ∧
      (promotionRun client promotionId timestamp request others s).2.1 =
        foundAt others s (promotionRun client promotionId timestamp request others s).2.2 := by
  unfold promotionRun promote
  cases hrefusal : request.refusal with
  | some error => exact ⟨⟨error, rfl⟩, rfl⟩
  | none =>
    dsimp only
    obtain ⟨first, hfirst, hcandidate⟩ :=
      requireReference_run others s hpins "candidate" request.candidateRef 0
    rcases first with error | candidate
    · rw [show (s, 0) = (foundAt others s 0, 0) from rfl, Program.bind_of_error hfirst]
      exact ⟨⟨error, rfl⟩, rfl⟩
    obtain ⟨second, hsecond, htarget⟩ :=
      requireReference_run others s hpins "target" request.targetRef 1
    rcases second with error | target
    · rw [show (s, 0) = (foundAt others s 0, 0) from rfl, Program.bind_of_ok hfirst,
        Program.bind_of_error hsecond]
      exact ⟨⟨error, rfl⟩, rfl⟩
    rw [show (s, 0) = (foundAt others s 0, 0) from rfl, Program.bind_of_ok hfirst,
      Program.bind_of_ok hsecond]
    cases hmoved : request.moved candidate target with
    | some error => exact ⟨⟨error, rfl⟩, rfl⟩
    | none =>
      obtain ⟨hcandidateHash, htargetHash⟩ := (moved_eq_none hc ht).1 hmoved
      exact absurd
        { admitted := hrefusal
          wet := hwet
          candidate := ⟨candidate, (hcandidate candidate).1 rfl, hcandidateHash⟩
          target := ⟨target, (htarget target).1 rfl, htargetHash⟩ } hnot

variable (promotionId timestamp) in
/-- A promotion that reaches the merge ends with what the merge answers. -/
theorem promotionRun_of_reaches (hpins : client.Pins head merged)
    (hc : request.candidateHash = some c) (ht : request.expectedTargetHash = some t)
    (h : ReachesMerge client request c t others s) :
    (promotionRun client promotionId timestamp request others s).2 =
        ((mergeCall client request c t others s).2, 3) ∧
      ((∃ outcome record, (mergeCall client request c t others s).1 = .ok outcome ∧
          outcome.isClean = true ∧ record.merged = true ∧
          (promotionRun client promotionId timestamp request others s).1 = .ok record) ∨
        (∀ outcome, (mergeCall client request c t others s).1 = .ok outcome →
          outcome.isClean = false) ∧
        ∃ error, (promotionRun client promotionId timestamp request others s).1 =
          .error error) := by
  obtain ⟨candidate, hcandidate, hcandidateHash⟩ := h.candidate
  obtain ⟨target, htarget, htargetHash⟩ := h.target
  obtain ⟨first, hfirst, hreadsCandidate⟩ :=
    requireReference_run others s hpins "candidate" request.candidateRef 0
  obtain ⟨second, hsecond, hreadsTarget⟩ :=
    requireReference_run others s hpins "target" request.targetRef 1
  rw [(hreadsCandidate candidate).2 hcandidate] at hfirst
  rw [(hreadsTarget target).2 htarget] at hsecond
  have hmoved : request.moved candidate target = none :=
    (moved_eq_none hc ht).2 ⟨hcandidateHash, htargetHash⟩
  have hcall : (client.shared others).merge request.candidateRef (some candidate.hash)
      request.targetRef request.expectedTargetHash (foundAt others s 2, 2) =
      ((mergeCall client request c t others s).1, (mergeCall client request c t others s).2,
        3) := by
    rw [hcandidateHash, ht]
    rfl
  unfold promotionRun promote
  simp only [h.admitted]
  rw [show (s, 0) = (foundAt others s 0, 0) from rfl, Program.bind_of_ok hfirst,
    Program.bind_of_ok hsecond]
  simp only [hmoved, h.wet, Bool.false_eq_true, if_false]
  rw [Program.bind_run, Program.mapError, hcall]
  rcases (mergeCall client request c t others s).1 with error | outcome
  · exact ⟨rfl, Or.inr ⟨(fun _ houtcome => by cases houtcome), _, rfl⟩⟩
  · simp only [Program.ofExcept_run, PromotionRequest.settle, h.wet, Bool.not_false, true_and]
    cases hclean : outcome.isClean with
    | true => exact Or.inl ⟨outcome, _, rfl, hclean, rfl, rfl⟩
    | false =>
      refine Or.inr ⟨fun other hother => ?_, _, rfl⟩
      cases hother
      exact hclean

/-- Only a request that is not a dry run is reported as merged. -/
theorem merged_eq {record : PromotionRecord}
    (h : (promotionRun client promotionId timestamp request others s).1 = .ok record) :
    record.merged = !request.dryRun := by
  have hrun : promotionRun client promotionId timestamp request others s =
      (.ok record, (promotionRun client promotionId timestamp request others s).2) :=
    Prod.ext h rfl
  rw [promotionRun, promote] at hrun
  cases hrefusal : request.refusal with
  | some error =>
    rw [hrefusal] at hrun
    cases congrArg Prod.fst hrun
  | none =>
    simp only [hrefusal] at hrun
    obtain ⟨candidate, s', _, hrun⟩ := Program.bind_eq_ok.1 hrun
    obtain ⟨target, s', _, hrun⟩ := Program.bind_eq_ok.1 hrun
    cases hmoved : request.moved candidate target with
    | some error =>
      rw [hmoved] at hrun
      cases congrArg Prod.fst hrun
    | none =>
      simp only [hmoved] at hrun
      obtain ⟨outcome, s', _, hrun⟩ := Program.bind_eq_ok.1 hrun
      have hsettle := congrArg Prod.fst hrun
      rw [Program.ofExcept_run, PromotionRequest.settle] at hsettle
      split at hsettle
      · cases hsettle
        rfl
      · cases hsettle

/-- A merge call without effect, or onto a target that is elsewhere, answers no clean
outcome and leaves the target's head. -/
theorem mergeCall_of_moved (hpins : client.Pins head merged)
    (hseen : ¬ MovedUnseen client head request c t others s)
    (hreaches : ReachesMerge client request c t others s)
    (hmoved : head (foundAt others s 3) request.candidateRef ≠ some c ∨
      head (foundAt others s 3) request.targetRef ≠ some t) :
    (∀ outcome, (mergeCall client request c t others s).1 = .ok outcome →
        outcome.isClean = false) ∧
      head (mergeCall client request c t others s).2 request.targetRef =
        head (foundAt others s 3) request.targetRef := by
  by_cases htarget : head (foundAt others s 3) request.targetRef = some t
  · have hcandidate : head (foundAt others s 3) request.candidateRef ≠ some c :=
      hmoved.resolve_right (not_not_intro htarget)
    constructor
    · intro outcome houtcome
      by_contra hclean
      exact hseen ⟨hreaches, hcandidate,
        Or.inl ⟨outcome, houtcome, eq_true_of_ne_false hclean⟩⟩
    · by_contra hmoves
      exact hseen ⟨hreaches, hcandidate, Or.inr hmoves⟩
  · constructor
    · intro outcome houtcome
      by_contra hclean
      obtain ⟨commit, hmerged, _⟩ :=
        hpins.merge_clean houtcome (eq_true_of_ne_false hclean)
      exact htarget (hpins.merged_onto hmerged)
    · by_contra hmoves
      exact htarget (hpins.merge_moves hmoves)

/-- A promotion merges exactly what was audited if and only if the candidate does not
move unseen, for any client that honours the pinned target. -/
theorem promote_pinned_iff (hpins : client.Pins head merged)
    (hc : request.candidateHash = some c) (ht : request.expectedTargetHash = some t) :
    MergesAudited client head merged promotionId timestamp request c t others s ↔
      ¬ MovedUnseen client head request c t others s := by
  constructor
  · rintro h ⟨hreaches, hmoved, heffect⟩
    obtain ⟨hstate, hend⟩ :=
      promotionRun_of_reaches promotionId timestamp hpins hc ht hreaches
    obtain ⟨⟨error, herror⟩, hhead⟩ := h.refused hreaches.wet (Or.inr (Or.inr (Or.inl hmoved)))
    rw [hstate] at hhead
    rcases heffect with ⟨outcome, houtcome, hclean⟩ | hmoves
    · rcases hend with ⟨_, record, _, _, _, hok⟩ | ⟨hdirty, _⟩
      · rw [hok] at herror
        cases herror
      · rw [hdirty outcome houtcome] at hclean
        cases hclean
    · exact hmoves hhead
  · intro hseen
    by_cases hreaches : ReachesMerge client request c t others s
    · obtain ⟨hstate, hend⟩ :=
        promotionRun_of_reaches promotionId timestamp hpins hc ht hreaches
      constructor
      · intro record hok _
        rw [hstate]
        rcases hend with ⟨outcome, _, houtcome, hclean, _⟩ | ⟨_, error, herror⟩
        · obtain ⟨commit, hmerged, hcommit⟩ := hpins.merge_clean houtcome hclean
          have hcandidate : head (foundAt others s 3) request.candidateRef = some c := by
            by_contra hmoved
            exact hseen ⟨hreaches, hmoved, Or.inl ⟨outcome, houtcome, hclean⟩⟩
          have heq : commit = c := by
            refine hcommit.elim id fun hhead => ?_
            rw [hcandidate, Option.some.injEq] at hhead
            exact hhead.symm
          subst heq
          exact ⟨hpins.merged_onto hmerged, hmerged⟩
        · rw [hok] at herror
          cases herror
      · intro _ hmoved
        rw [hstate]
        have hlate : head (foundAt others s 3) request.candidateRef ≠ some c ∨
            head (foundAt others s 3) request.targetRef ≠ some t := by
          obtain ⟨candidate, hcandidate, hcandidateHash⟩ := hreaches.candidate
          obtain ⟨target, htarget, htargetHash⟩ := hreaches.target
          rcases hmoved with hearly | hearly | hlate
          · exact absurd (hcandidateHash ▸ hpins.getReference_hash hcandidate) hearly
          · exact absurd (htargetHash ▸ hpins.getReference_hash htarget) hearly
          · exact hlate
        obtain ⟨hdirty, hhead⟩ := mergeCall_of_moved hpins hseen hreaches hlate
        refine ⟨?_, hhead⟩
        rcases hend with ⟨outcome, _, houtcome, hclean, _⟩ | ⟨_, herror⟩
        · rw [hdirty outcome houtcome] at hclean
          cases hclean
        · exact herror
    · constructor
      · intro record hok hmerged
        have hwet : request.dryRun = false := by
          simpa [hmerged] using merged_eq hok
        obtain ⟨⟨error, herror⟩, _⟩ :=
          promotionRun_of_not_reaches promotionId timestamp hpins hc ht hwet hreaches
        rw [hok] at herror
        cases herror
      · intro hwet _
        obtain ⟨herror, hstate⟩ :=
          promotionRun_of_not_reaches promotionId timestamp hpins hc ht hwet hreaches
        exact ⟨herror, congrArg (head · request.targetRef) hstate⟩

end Interleaving

/-! ## The two clients of the repository -/

/-- The in-memory client does not notice a candidate that moved to another commit, as
long as the target stays. -/
structure MergesMovedCandidate (request : PromotionRequest) (c t : String)
    (others : Nat → References → References) (s : References) : Prop where
  admitted : request.refusal = none
  wet : request.dryRun = false
  candidate_read : (foundAt others s 1).head request.candidateRef = some c
  target_read : (foundAt others s 2).head request.targetRef = some t
  target_stays : (foundAt others s 3).head request.targetRef = some t
  candidate_moves : ∃ commit, (foundAt others s 3).head request.candidateRef = some commit ∧
    commit ≠ c

theorem getReference_inMemory {name commit : String} {s : References} :
    (∃ reference, (InMemoryNessie.client.getReference name s).1 = .ok (some reference) ∧
        reference.hash = commit) ↔ s.head name = some commit := by
  simp [InMemoryNessie.client, InMemoryNessie.getReference, References.head]

theorem movedUnseen_inMemory_iff {request : PromotionRequest} {c t : String}
    {others : Nat → References → References} {s : References} :
    MovedUnseen InMemoryNessie.client References.head request c t others s ↔
      MergesMovedCandidate request c t others s := by
  have hmerge := InMemoryNessie.merge_eq request.candidateRef c request.targetRef t
    (foundAt others s 3)
  constructor
  · rintro ⟨hreaches, hmoved, heffect⟩
    rcases hmerge with ⟨source, target, hsource, htarget, hhash, _⟩ | ⟨_, hstate, hdirty⟩
    · have hhead : (foundAt others s 3).head request.candidateRef = some source.hash := by
        rw [References.head, hsource, Option.map_some]
      refine ⟨hreaches.admitted, hreaches.wet, getReference_inMemory.1 hreaches.candidate,
        getReference_inMemory.1 hreaches.target, ?_, source.hash, hhead, ?_⟩
      · rw [References.head, htarget, Option.map_some, hhash]
      · rw [hhead, ne_eq, Option.some.injEq] at hmoved
        exact hmoved
    · rcases heffect with ⟨outcome, houtcome, hclean⟩ | hmoves
      · rw [hdirty outcome houtcome] at hclean
        cases hclean
      · exact absurd (congrArg (References.head · request.targetRef) hstate) hmoves
  · intro h
    obtain ⟨commit, hcandidate, hne⟩ := h.candidate_moves
    refine ⟨⟨h.admitted, h.wet, getReference_inMemory.2 h.candidate_read,
      getReference_inMemory.2 h.target_read⟩, ?_, Or.inl ?_⟩
    · rw [hcandidate, ne_eq, Option.some.injEq]
      exact hne
    · rcases hmerge with ⟨source, target, _, _, _, heq⟩ | ⟨hrefused, _, _⟩
      · exact ⟨_, congrArg Prod.fst heq, MergeOutcome.isClean_clean _⟩
      · rcases hrefused with hgone | htarget
        · rw [References.head, hgone] at hcandidate
          cases hcandidate
        · exact absurd h.target_stays htarget

/-- With the audited commits given, a promotion merges exactly what was audited, unless
the candidate moves between the read and the merge: the in-memory client then merges
what it moved to, and a REST server that still applies the merge lets it pass. -/
theorem promote_merges_audited_iff (promotionId timestamp : String)
    (request : PromotionRequest) (c t : String) (hc : request.candidateHash = some c)
    (ht : request.expectedTargetHash = some t) :
    (∀ (others : Nat → References → References) (s : References),
        MergesAudited InMemoryNessie.client References.head InMemoryNessie.Merged promotionId
          timestamp request c t others s ↔ ¬ MergesMovedCandidate request c t others s) ∧
      ∀ (σ : Type) (server : NessieServer σ) (head : σ → String → Option String)
        (merged : σ → σ → String → String → String → Prop), server.Documented head merged →
        ∀ (others : Nat → σ → σ) (s : σ),
          MergesAudited (NessieRestClient.client server) head merged promotionId timestamp
            request c t others s ↔
          ¬ MovedUnseen (NessieRestClient.client server) head request c t others s :=
  ⟨fun _ _ => (promote_pinned_iff InMemoryNessie.pins hc ht).trans
      (not_congr movedUnseen_inMemory_iff),
    fun _ _ _ _ hdoc _ _ => promote_pinned_iff (NessieRestClient.pins hdoc) hc ht⟩

/-! ## A candidate that advances before the merge -/

/-- Promote `ci/pr-1`, audited at `bbb`, to `main` at `aaa`. -/
def promoteCandidate : PromotionRequest where
  candidateRef := "ci/pr-1"
  targetRef := "main"
  candidateHash := some "bbb"
  expectedTargetHash := some "aaa"
  planId := some "plan-1"
  runId := some "run-1"
  qualityGatesPassed := true
  diffPassed := none
  requireDiff := false
  breakingSchemaChanges := []
  allowBreakingSchema := false
  dryRun := false
  actor := none
  gates := []
  evidence := .none

def auditedReferences : References :=
  (References.seed Table.empty "main" "aaa").seed "ci/pr-1" "bbb"

/-- Another client commits to the candidate right before the merge. -/
def commitBeforeMerge (n : Nat) (references : References) : References :=
  if n = 2 then references.seed "ci/pr-1" "ccc" else references

/-- The unaudited commit is merged, and the record names the audited one. -/
theorem unaudited_commit_merged :
    (promotionRun InMemoryNessie.client "promotion" "now" promoteCandidate commitBeforeMerge
        auditedReferences).1.toOption.map
          (fun record => (record.merged, record.candidateHash, record.targetHashAfter)) =
        some (true, some "bbb", some "ccc") ∧
      (promotionRun InMemoryNessie.client "promotion" "now" promoteCandidate commitBeforeMerge
        auditedReferences).2.1.head "main" = some "ccc" ∧
      ¬ MergesAudited InMemoryNessie.client References.head InMemoryNessie.Merged "promotion"
        "now" promoteCandidate "bbb" "aaa" commitBeforeMerge auditedReferences := by
  refine ⟨by decide +kernel, by decide +kernel, fun h => ?_⟩
  obtain ⟨⟨error, herror⟩, _⟩ := h.refused rfl (Or.inr (Or.inr (Or.inl (by decide +kernel))))
  have hok : (promotionRun InMemoryNessie.client "promotion" "now" promoteCandidate
      commitBeforeMerge auditedReferences).1.toOption.isSome = true := by decide +kernel
  rw [herror] at hok
  cases hok

/-- A server that holds the references and merges as documented. -/
def referenceServer : NessieServer References where
  exchange := fun
    | .getTree name => fun references =>
      match references.get? name with
      | some reference =>
        (.ok { status := 200, payload := "", reference := some reference
               mergeResponse := none }, references)
      | none =>
        (.ok { status := 404, payload := "", reference := none, mergeResponse := none },
          references)
    | .mergeTree toRef expected _ commit isDryRun => fun references =>
      match references.get? toRef with
      | some target =>
        if target.hash = expected then
          (.ok { status := 200, payload := "", reference := none
                 mergeResponse := some { wasSuccessful := true
                                         resultantTargetHash := some commit
                                         details := [] } },
            if isDryRun then references else references.put { target with hash := commit })
        else
          (.ok { status := 409, payload := "", reference := none, mergeResponse := none },
            references)
      | none =>
        (.ok { status := 404, payload := "", reference := none, mergeResponse := none },
          references)
    | _ => fun references =>
      (.ok { status := 405, payload := "", reference := none, mergeResponse := none },
        references)

theorem referenceServer_documented :
    referenceServer.Documented References.head InMemoryNessie.Merged where
  getTree_state := by
    intro name s
    simp only [referenceServer]
    split <;> rfl
  getTree_head := by
    intro name s response reference hresponse hsuccess hreference
    simp only [referenceServer] at hresponse
    split at hresponse
    · next found hfound =>
        cases hresponse
        cases hreference
        rw [References.head, hfound, Option.map_some]
    · cases hresponse
      cases hreference
  mergeTree_successful := by
    intro fromRef fromHash toRef expected s response merge hresponse hmerge _ _
    simp only [referenceServer] at hresponse ⊢
    split at hresponse
    · next target htarget =>
        split at hresponse
        · next hhash =>
            exact ⟨target, htarget, hhash, by simp [hhash]⟩
        · cases hresponse
          cases hmerge
    · cases hresponse
      cases hmerge
  merged_onto := InMemoryNessie.pins.merged_onto
  mergeTree_moves := by
    intro fromRef fromHash toRef expected s hmoves
    simp only [referenceServer] at hmoves
    split at hmoves
    · next target htarget =>
        split at hmoves
        · next hhash => rw [References.head, htarget, Option.map_some, hhash]
        · exact absurd rfl hmoves
    · exact absurd rfl hmoves

/-- Without other clients both clients merge what was audited. -/
theorem promote_merges_audited_undisturbed :
    MergesAudited InMemoryNessie.client References.head InMemoryNessie.Merged "promotion" "now"
        promoteCandidate "bbb" "aaa" (fun _ references => references) auditedReferences ∧
      MergesAudited (NessieRestClient.client referenceServer) References.head
        InMemoryNessie.Merged "promotion" "now" promoteCandidate "bbb" "aaa"
        (fun _ references => references) auditedReferences := by
  have hiff := promote_merges_audited_iff "promotion" "now" promoteCandidate "bbb" "aaa" rfl rfl
  refine ⟨(hiff.1 _ _).2 fun h => ?_,
    (hiff.2 _ _ _ _ referenceServer_documented _ _).2 fun h => h.moved (by decide +kernel)⟩
  obtain ⟨commit, hcommit, hne⟩ := h.candidate_moves
  have hhead : (foundAt (fun _ references => references) auditedReferences 3).head
      promoteCandidate.candidateRef = some "bbb" := by decide +kernel
  rw [hhead, Option.some.injEq] at hcommit
  exact hne hcommit.symm

end PhloTransform.Engine
