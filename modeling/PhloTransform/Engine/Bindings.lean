import PhloTransform.Engine.Provisioning

/-!
# Live bindings

The newest environment record of a candidate is its live binding.  While the store
knows the candidate of every artifact file, reading bindings changes nothing, and
every live binding is among the claims a catalog is checked against.

Main results:

- Theorem `bindingOf_append_self`: one more record becomes the live binding of its
  candidate or leaves it as it is.
- Theorem `Consistent.read`: what reading a binding returns.
-/

namespace PhloTransform.Engine

open Core (Sha256)
open Library (Program Table)
open Nessie

def EvidencePayload.environment? : EvidencePayload → Option EnvironmentSetup
  | .environment setup => some setup
  | _ => none

section Bindings

variable [Rfc3339]
variable {evidence : List EvidenceRecord}

/-- The live binding of a candidate: what its newest environment record says. -/
def bindingOf (evidence : List EvidenceRecord) (candidate : String) :
    Option EnvironmentSetup :=
  (evidenceOf evidence .environment candidate).head?.bind fun record =>
    record.payload.environment?

/-! ## How the live binding changes -/

theorem bindingOf_append_other {record : EvidenceRecord} {candidate : String}
    (h : record.subject ≠ candidate) :
    bindingOf (evidence ++ [record]) candidate = bindingOf evidence candidate := by
  simp [bindingOf, evidenceOf, List.filter_append, h]

theorem bindingOf_append_self {setup : EnvironmentSetup} {evidenceId now : String}
    (hnow : IsTimestamp now)
    (hstamps : ∀ record ∈ evidence, record.kind = .environment → IsTimestamp record.createdAt) :
    bindingOf (evidence ++ [environmentRecord setup evidenceId now]) setup.candidate.name =
        some setup ∨
      bindingOf (evidence ++ [environmentRecord setup evidenceId now]) setup.candidate.name =
        bindingOf evidence setup.candidate.name := by
  have hfilter : (evidence ++ [environmentRecord setup evidenceId now]).filter (fun record =>
        decide (record.kind = .environment ∧ record.subject = setup.candidate.name)) =
      evidence.filter (fun record =>
        decide (record.kind = .environment ∧ record.subject = setup.candidate.name)) ++
        [environmentRecord setup evidenceId now] := by
    simp [List.filter_append, environmentRecord]
  have hall : ∀ record ∈ evidence.filter (fun record =>
        decide (record.kind = .environment ∧ record.subject = setup.candidate.name)) ++
        [environmentRecord setup evidenceId now], IsTimestamp record.createdAt := by
    intro record hrecord
    rcases List.mem_append.1 hrecord with hold | hnew
    · obtain ⟨hmem, hkind⟩ := List.mem_filter.1 hold
      exact hstamps record hmem (of_decide_eq_true hkind).1
    · rw [List.mem_singleton.1 hnew]
      exact hnow
  unfold bindingOf evidenceOf
  rw [hfilter]
  rcases head?_recent_append hall with hhead | hhead
  · rw [hhead]
    exact Or.inl rfl
  · rw [hhead]
    exact Or.inr rfl

theorem bindingOf_removed_self (evidence : List EvidenceRecord) (candidate : String) :
    bindingOf (evidence.filter fun record =>
      decide ¬ (record.kind = .environment ∧ record.subject = candidate)) candidate = none := by
  have hempty : evidenceOf (evidence.filter fun record =>
      decide ¬ (record.kind = .environment ∧ record.subject = candidate)) .environment candidate =
        [] := by
    refine List.eq_nil_iff_forall_not_mem.2 fun record hrecord => ?_
    obtain ⟨hmem, hkind⟩ := World.mem_evidenceOf.1 hrecord
    exact of_decide_eq_true (List.mem_filter.1 hmem).2 hkind
  rw [bindingOf, hempty]
  rfl

theorem bindingOf_removed_other (evidence : List EvidenceRecord) {candidate other : String}
    (h : other ≠ candidate) :
    bindingOf (evidence.filter fun record =>
        decide ¬ (record.kind = .environment ∧ record.subject = candidate)) other =
      bindingOf evidence other := by
  unfold bindingOf evidenceOf
  rw [List.filter_filter]
  congr 3
  refine List.filter_congr fun record _ => ?_
  by_cases hsubject : record.subject = other
  · simp [hsubject, h]
  · simp [hsubject]

end Bindings

/-! ## Calls that change nothing -/

/-- Nothing changed but what the calls to come are. -/
structure Same (w w' : World) : Prop extends World.OnlyReferences w w' where
  references : w'.references = w.references

theorem Same.refl (w : World) : Same w w :=
  ⟨World.OnlyReferences.refl w, rfl⟩

theorem Same.trans {w w' w'' : World} (h : Same w w') (h' : Same w' w'') : Same w w'' :=
  ⟨h.toOnlyReferences.trans h'.toOnlyReferences, h'.references.trans h.references⟩

instance : Std.Refl Same :=
  ⟨Same.refl⟩

instance : IsTrans World Same :=
  ⟨fun _ _ _ => Same.trans⟩

theorem same_call : Program.Advances Same World.call :=
  fun w => ⟨(World.call_leaves w).1, (World.call_leaves w).2⟩

theorem same_readFile {α ε : Type} (file : ArtifactFiles → Option α) :
    Program.Advances Same (World.readFile file : Program World ε (Option α)) := by
  refine Program.Advances.bind same_call.attempt fun r => ?_
  cases r with
  | error _ => exact Program.Advances.pure _
  | ok _ => exact Program.Advances.get.bind fun w => Program.Advances.pure _

theorem same_readEnvironmentFiles {ε : Type} (candidate : String) :
    Program.Advances Same
      (readEnvironmentFiles candidate : Program World ε (Option EnvironmentSetup)) := by
  refine (same_readFile _).bind fun own => ?_
  cases own.filter fun setup => setup.candidate.name = candidate with
  | some setup => exact Program.Advances.pure _
  | none => exact (same_readFile _).bind fun slot => Program.Advances.pure _

/-! ## Worlds whose store knows every binding -/

section Consistency

variable [Rfc3339]
variable {w' : World} {candidate : String} {setup : EnvironmentSetup}
  {setups : List EnvironmentSetup}
variable {ε : Type}

/-- Every environment record decodes to a dated binding for its subject with the
ownership flag, and the store knows the candidate of every artifact file, which is
named after it. -/
structure Consistent (w : World) : Prop where
  stamps : ∀ record ∈ w.evidence, record.kind = .environment → IsTimestamp record.createdAt
  decodes : ∀ record ∈ w.evidence, record.kind = .environment →
    ∃ setup, record.payload = .environment setup ∧ setup.candidate.name = record.subject ∧
      setup.catalogOwnedByPhlo.isSome = true
  known : ∀ setup, w.InFiles setup →
    ∃ record ∈ w.evidence, record.kind = .environment ∧ record.subject = setup.candidate.name
  named : ∀ entry ∈ w.files.environments.rows, entry.1 = "environment.json" ∨
    entry.1 = environmentArtifactName entry.2.candidate.name

theorem Consistent.of_eq {w : World} (h : Consistent w) (hevidence : w'.evidence = w.evidence)
    (hfiles : w'.files = w.files) : Consistent w' where
  stamps := hevidence ▸ h.stamps
  decodes := hevidence ▸ h.decodes
  known setup hsetup := by
    rw [World.InFiles, hfiles] at hsetup
    rw [hevidence]
    exact h.known setup hsetup
  named := hfiles ▸ h.named

theorem Consistent.empty {w : World} (hevidence : w.evidence = [])
    (hfiles : w.files.environments = Table.empty) : Consistent w where
  stamps := by simp [hevidence]
  decodes := by simp [hevidence]
  known := by simp [World.InFiles, hfiles, Table.empty]
  named := by simp [hfiles, Table.empty]

variable {w : World}

theorem Consistent.bindingOf_eq_some (h : Consistent w) :
    bindingOf w.evidence candidate = some setup ↔
      ∃ record, (evidenceOf w.evidence .environment candidate).head? = some record ∧
        record.payload = .environment setup := by
  unfold bindingOf
  cases hhead : (evidenceOf w.evidence .environment candidate).head? with
  | none => simp
  | some record =>
    obtain ⟨hmem, hkind, _⟩ := World.mem_evidenceOf.1 (List.mem_of_head? hhead)
    obtain ⟨found, hpayload, _⟩ := h.decodes record hmem hkind
    simp [hpayload, EvidencePayload.environment?]

/-- A live binding is one for its candidate, and carries the ownership flag. -/
theorem Consistent.of_binding (h : Consistent w)
    (hbinding : bindingOf w.evidence candidate = some setup) :
    setup.candidate.name = candidate ∧ setup.catalogOwnedByPhlo.isSome = true ∧
      ∃ record ∈ w.evidence, record.kind = .environment ∧ record.subject = candidate ∧
        record.payload = .environment setup := by
  obtain ⟨record, hhead, hpayload⟩ := h.bindingOf_eq_some.1 hbinding
  obtain ⟨hmem, hkind, hsubject⟩ := World.mem_evidenceOf.1 (List.mem_of_head? hhead)
  obtain ⟨found, hfound, hname, hflag⟩ := h.decodes record hmem hkind
  rw [hpayload] at hfound
  cases hfound
  exact ⟨hname.trans hsubject, hflag, record, hmem, hkind, hsubject, hpayload⟩

theorem Consistent.exists_binding (h : Consistent w) {record : EvidenceRecord}
    (hrecord : record ∈ w.evidence) (hkind : record.kind = .environment) :
    ∃ setup, bindingOf w.evidence record.subject = some setup := by
  have hmem : record ∈ evidenceOf w.evidence .environment record.subject :=
    World.mem_evidenceOf.2 ⟨hrecord, hkind, rfl⟩
  cases hhead : (evidenceOf w.evidence .environment record.subject).head? with
  | none =>
    rw [List.head?_eq_none_iff] at hhead
    rw [hhead] at hmem
    cases hmem
  | some newest =>
    obtain ⟨hnewest, hkind', _⟩ := World.mem_evidenceOf.1 (List.mem_of_head? hhead)
    obtain ⟨setup, hpayload, _⟩ := h.decodes newest hnewest hkind'
    exact ⟨setup, h.bindingOf_eq_some.2 ⟨newest, hhead, hpayload⟩⟩

/-! ## Reading -/

theorem Same.consistent {w : World} (hsame : Same w w') (h : Consistent w) : Consistent w' :=
  h.of_eq hsame.evidence hsame.files

theorem same_evidenceFor (kind : EvidenceKind) (subject : String) :
    Program.Advances Same (World.evidenceFor kind subject) :=
  same_call.bind fun _ => Program.Advances.get.bind fun _ => Program.Advances.pure _

theorem same_latestEvidence (kind : EvidenceKind) :
    Program.Advances Same (World.latestEvidence kind) :=
  same_call.bind fun _ => Program.Advances.get.bind fun _ => Program.Advances.pure _

/-! ## Reading bindings -/

/-- No artifact file speaks for a candidate that the store does not know. -/
theorem Consistent.no_file (h : Consistent w)
    (hnone : (evidenceOf w.evidence .environment candidate).head? = none) :
    (readEnvironmentFiles candidate : Program World ε (Option EnvironmentSetup)) w ≠
      (.ok (some setup), w') := by
  intro hrun
  obtain ⟨hfile, hname⟩ := World.readEnvironmentFiles_eq_some hrun
  obtain ⟨record, hrecord, hkind, hsubject⟩ := h.known setup hfile
  have hmem : record ∈ evidenceOf w.evidence .environment candidate :=
    World.mem_evidenceOf.2 ⟨hrecord, hkind, hsubject.trans hname⟩
  rw [List.head?_eq_none_iff] at hnone
  rw [hnone] at hmem
  cases hmem

theorem Consistent.same_read (h : Consistent w) (candidate : String) :
    Same w (readEnvironmentFor true candidate w).2 := by
  refine Program.Advances.bind_at ?_ fun found s _ => Same.refl s
  refine Program.Advances.bind_at ((same_evidenceFor _ _).mapError w) fun rows s hrows => ?_
  have hsame : Same w s := (same_evidenceFor _ _).mapError.of_run hrows
  obtain ⟨_, rfl⟩ := World.evidenceFor_eq_ok (Program.mapError_eq_ok.1 hrows)
  cases hhead : (evidenceOf w.evidence .environment candidate).head? with
  | some record =>
    refine Program.Advances.bind_at (Program.Advances.ofExcept _ s) fun setup s' _ => ?_
    by_cases hname : setup.candidate.name = candidate
    · rw [if_pos hname]
      exact Same.refl _
    · rw [if_neg hname]
      exact Same.refl _
  | none =>
    refine Program.Advances.bind_at (same_readEnvironmentFiles candidate s)
      fun found s' hfound => ?_
    cases found with
    | none => exact Same.refl _
    | some setup =>
      rw [← hsame.evidence] at hhead
      exact absurd hfound ((hsame.consistent h).no_file hhead)

theorem Consistent.read_eq (h : Consistent w) {found : Option EnvironmentSetup}
    (hrun : readEnvironmentFor true candidate w = (.ok found, w')) :
    found = bindingOf w.evidence candidate := by
  obtain ⟨⟨setup, standing⟩, s, hread, hpure⟩ := Program.bind_eq_ok.1 hrun
  cases hpure
  obtain ⟨rows, s', hrows, hread⟩ := Program.bind_eq_ok.1 hread
  have hsame : Same w s' := (same_evidenceFor _ _).mapError.of_run hrows
  obtain ⟨_, rfl⟩ := World.evidenceFor_eq_ok (Program.mapError_eq_ok.1 hrows)
  unfold bindingOf
  cases hhead : (evidenceOf w.evidence .environment candidate).head? with
  | some record =>
    simp only [hhead] at hread
    obtain ⟨decoded, s'', hdecode, hread⟩ := Program.bind_eq_ok.1 hread
    have hdecoded : record.payload.environment? = some decoded := by
      have hvalue : decodeEnvironment record = .ok decoded := congrArg Prod.fst hdecode
      unfold decodeEnvironment at hvalue
      cases hpayload : record.payload with
      | environment setup =>
        rw [hpayload] at hvalue
        exact congrArg some (Except.ok.inj hvalue)
      | branchDiff report =>
        rw [hpayload] at hvalue
        cases hvalue
      | other text =>
        rw [hpayload] at hvalue
        cases hvalue
    split at hread
    · cases hread
      exact hdecoded.symm
    · cases hread
  | none =>
    simp only [hhead] at hread
    obtain ⟨found, s'', hfound, hread⟩ := Program.bind_eq_ok.1 hread
    cases found with
    | none =>
      cases hread
      rfl
    | some file =>
      rw [← hsame.evidence] at hhead
      exact absurd hfound ((hsame.consistent h).no_file hhead)

omit [Rfc3339] in
theorem exists_readFile {α : Type} (file : ArtifactFiles → Option α) (w : World) :
    ∃ found s, (World.readFile file : Program World ε (Option α)) w = (.ok found, s) := by
  unfold World.readFile
  rw [Program.bind_run, Program.attempt_run]
  dsimp only
  cases (World.call w).1 with
  | ok _ => exact ⟨_, _, rfl⟩
  | error _ => exact ⟨_, _, rfl⟩

omit [Rfc3339] in
theorem readEnvironmentFiles_ne_error (w : World) {error : ε} :
    (readEnvironmentFiles candidate : Program World ε (Option EnvironmentSetup)) w ≠
      (.error error, w') := by
  intro hrun
  obtain ⟨own, s, hown⟩ := exists_readFile
    (fun files => files.environmentAt (environmentArtifactName candidate)) w (ε := ε)
  rw [readEnvironmentFiles, Program.bind_of_ok hown] at hrun
  cases hfilter : own.filter fun setup => setup.candidate.name = candidate with
  | some setup =>
    rw [hfilter] at hrun
    cases hrun
  | none =>
    rw [hfilter] at hrun
    obtain ⟨slot, s', hslot⟩ := exists_readFile
      (fun files => files.environmentAt "environment.json") s (ε := ε)
    dsimp only at hrun
    rw [Program.bind_of_ok hslot] at hrun
    cases hrun

theorem Consistent.read_ne_error (h : Consistent w) (hfaults : w.faults = []) {error : EngineError}
    : readEnvironmentFor true candidate w ≠ (.error error, w') := by
  intro hrun
  rcases Program.bind_eq_error.1 hrun with hread | ⟨_, _, _, hpure⟩
  swap
  · cases hpure
  have hrows : (World.evidenceFor .environment candidate).mapError (fun error =>
      EngineError.state ("cannot read the evidence store: " ++ error)) w =
        (.ok (evidenceOf w.evidence .environment candidate), w) := by
    simp [Program.mapError, World.evidenceFor, World.call, Program.bind_run, hfaults]
  rw [readEnvironmentEvidence, if_pos rfl, Program.bind_of_ok hrows] at hread
  cases hhead : (evidenceOf w.evidence .environment candidate).head? with
  | some record =>
    obtain ⟨hmem, hkind, hsubject⟩ := World.mem_evidenceOf.1 (List.mem_of_head? hhead)
    obtain ⟨setup, hpayload, hname, _⟩ := h.decodes record hmem hkind
    have hdecoded : (Program.ofExcept (decodeEnvironment record) :
        Program World EngineError EnvironmentSetup) w = (.ok setup, w) := by
      simp [decodeEnvironment, hpayload]
    simp only [hhead] at hread
    rw [Program.bind_of_ok hdecoded, if_pos (hname.trans hsubject)] at hread
    cases hread
  | none =>
    simp only [hhead] at hread
    rcases Program.bind_eq_error.1 hread with hfiles | ⟨found, s, hfound, hread⟩
    · exact absurd hfiles (readEnvironmentFiles_ne_error w)
    · cases found with
      | none => cases hread
      | some setup => exact h.no_file hhead hfound

/-! ## The claims on catalogs -/

omit [Rfc3339] in
/-- The stored bindings contain, for every candidate, the first one listed. -/
theorem mem_liveBindings {records : List EvidenceRecord} {known : List EnvironmentSetup}
    (hdecodes : ∀ record ∈ records, ∃ setup, record.payload = .environment setup ∧
      setup.candidate.name = record.subject) (hrun : liveBindings known records = .ok setups) :
    (∀ setup ∈ known, setup ∈ setups) ∧
      ∀ candidate record, records.find? (fun record => decide (record.subject = candidate)) =
          some record →
        (∀ setup ∈ known, setup.candidate.name ≠ candidate) →
        ∃ setup ∈ setups, record.payload = .environment setup := by
  induction records generalizing known with
  | nil =>
    cases hrun
    exact ⟨fun _ hsetup => hsetup, fun _ _ hfind => by cases hfind⟩
  | cons first rest ih =>
    obtain ⟨setup, hpayload, hname⟩ := hdecodes first (List.mem_cons_self ..)
    have hrest : ∀ record ∈ rest, ∃ setup, record.payload = .environment setup ∧
        setup.candidate.name = record.subject :=
      fun record hrecord => hdecodes record (List.mem_cons_of_mem _ hrecord)
    simp only [liveBindings, decodeEnvironment, hpayload] at hrun
    by_cases hknown : isKnown known setup = true
    · rw [if_pos hknown] at hrun
      obtain ⟨hkeep, hfirst⟩ := ih hrest hrun
      refine ⟨hkeep, fun candidate record hfind hnew => ?_⟩
      by_cases hsubject : first.subject = candidate
      · -- an earlier record already spoke for this candidate
        obtain ⟨seen, hseen, hsame⟩ : ∃ seen ∈ known,
            seen.candidate.name = setup.candidate.name := by
          simpa [isKnown] using hknown
        exact absurd (hsame.trans (hname.trans hsubject)) (hnew seen hseen)
      · rw [List.find?_cons_of_neg (by simpa using hsubject)] at hfind
        exact hfirst candidate record hfind hnew
    · rw [if_neg hknown] at hrun
      obtain ⟨hkeep, hfirst⟩ := ih hrest hrun
      refine ⟨fun other hother => hkeep other (List.mem_append_left _ hother),
        fun candidate record hfind hnew => ?_⟩
      by_cases hsubject : first.subject = candidate
      · rw [List.find?_cons_of_pos (by simpa using hsubject)] at hfind
        cases hfind
        exact ⟨setup, hkeep setup (by simp), hpayload⟩
      · rw [List.find?_cons_of_neg (by simpa using hsubject)] at hfind
        refine hfirst candidate record hfind fun other hother => ?_
        rcases List.mem_append.1 hother with hother | hother
        · exact hnew other hother
        · rw [List.mem_singleton.1 hother, hname]
          exact hsubject

/-- Of a candidate's records the newest is the first one listed. -/
theorem Consistent.find?_latestOf (h : Consistent w) (candidate : String) :
    (latestOf w.evidence .environment).find? (fun record => decide (record.subject = candidate)) =
      (evidenceOf w.evidence .environment candidate).head? := by
  have hstamps : ∀ record ∈ w.evidence.filter fun record => decide (record.kind = .environment),
      IsTimestamp record.createdAt := by
    intro record hrecord
    obtain ⟨hmem, hkind⟩ := List.mem_filter.1 hrecord
    exact h.stamps record hmem (of_decide_eq_true hkind)
  have hsplit : (w.evidence.filter fun record => decide (record.kind = .environment)).filter
        (fun record => decide (record.subject = candidate)) =
      w.evidence.filter fun record =>
        decide (record.kind = .environment ∧ record.subject = candidate) := by
    rw [List.filter_filter]
    exact List.filter_congr fun record _ => by simp [and_comm]
  have hkeys : ∀ a b : EvidenceRecord, (a.subject, a.targetRef) = (b.subject, b.targetRef) →
      decide (a.subject = candidate) = decide (b.subject = candidate) := by
    intro a b hab
    have hsubject : a.subject = b.subject := (Prod.ext_iff.1 hab).1
    rw [hsubject]
  rw [latestOf, Library.find?_firstByKey hkeys (by simp), ← List.head?_filter,
    filter_recent _ hstamps, hsplit, evidenceOf]

theorem Consistent.mem_stored (h : Consistent w)
    (hrun : liveBindings [] (latestOf w.evidence .environment) = .ok setups)
    (hbinding : bindingOf w.evidence candidate = some setup) : setup ∈ setups := by
  obtain ⟨record, hhead, hpayload⟩ := h.bindingOf_eq_some.1 hbinding
  have hdecodes : ∀ record ∈ latestOf w.evidence .environment,
      ∃ setup, record.payload = .environment setup ∧ setup.candidate.name = record.subject := by
    intro record hrecord
    have hmem := Library.mem_of_mem_firstByKey hrecord
    rw [mem_recent, List.mem_filter] at hmem
    obtain ⟨found, hfound, hname, _⟩ := h.decodes record hmem.1 (of_decide_eq_true hmem.2)
    exact ⟨found, hfound, hname⟩
  obtain ⟨found, hfound, hsame⟩ := (mem_liveBindings hdecodes hrun).2 candidate record
    ((h.find?_latestOf candidate).trans hhead) (by simp)
  rw [hpayload] at hsame
  cases hsame
  exact hfound

theorem same_scanFiles {entries : List (String × EnvironmentSetup)}
    (hknown : ∀ entry ∈ entries, isKnown setups entry.2 = true) (w : World) :
    Same w (scanFiles true setups entries w).2 ∧
      (scanFiles true setups entries w).1 = .ok setups := by
  induction entries generalizing w with
  | nil => exact ⟨Same.refl w, rfl⟩
  | cons entry rest ih =>
    have hrest := ih fun other hother => hknown other (List.mem_cons_of_mem _ hother)
    obtain ⟨found, s, hfound⟩ : ∃ found s, (World.readFile fun _ => some entry.2 :
        Program World EngineError (Option EnvironmentSetup)) w = (.ok found, s) :=
      exists_readFile _ w
    have hread : Same w s := (same_readFile _).of_run hfound
    have hnext : scanFiles true setups (entry :: rest) w = scanFiles true setups rest s := by
      rw [scanFiles, Program.bind_of_ok hfound]
      cases found with
      | none => rfl
      | some setup =>
        have hsetup : entry.2 = setup := by
          simpa using World.readFile_eq_some hfound
        subst hsetup
        have hskipped : admitFile true setups entry.2 = pure setups :=
          if_pos (hknown entry (List.mem_cons_self ..))
        dsimp only
        rw [hskipped]
        rfl
    rw [hnext]
    exact ⟨hread.trans (hrest s).1, (hrest s).2⟩

theorem Consistent.files_known (h : Consistent w)
    (hrun : liveBindings [] (latestOf w.evidence .environment) = .ok setups) :
    ∀ entry ∈ w.files.environments.rows, isKnown setups entry.2 = true := by
  intro entry hentry
  obtain ⟨record, hrecord, hkind, hsubject⟩ := h.known entry.2 ⟨entry, hentry, rfl⟩
  obtain ⟨setup, hbinding⟩ := h.exists_binding hrecord hkind
  have hname := (h.of_binding hbinding).1
  simp only [isKnown, List.any_eq_true, decide_eq_true_eq]
  exact ⟨setup, h.mem_stored hrun hbinding, hname.trans hsubject⟩

theorem same_storedBindings : Program.Advances Same (storedBindings true) :=
  (same_latestEvidence _).mapError.bind fun _ => Program.Advances.ofExcept _

theorem storedBindings_eq_ok {stored : List EnvironmentSetup} {s : World}
    (hrun : storedBindings true w = (.ok stored, s)) :
    liveBindings [] (latestOf w.evidence .environment) = .ok stored := by
  obtain ⟨records, s', hrecords, hstored⟩ := Program.bind_eq_ok.1 hrun
  obtain ⟨_, s'', hcall, hlatest⟩ := Program.bind_eq_ok.1 (Program.mapError_eq_ok.1 hrecords)
  have hevidence := (same_call.of_run hcall).evidence
  cases hlatest
  rw [← hevidence]
  exact congrArg Prod.fst hstored

theorem Consistent.same_claims (h : Consistent w) : Same w (environmentArtifacts true w).2 := by
  refine Program.Advances.bind_at (same_storedBindings w) fun stored s hrun => ?_
  have hlive := storedBindings_eq_ok hrun
  refine Program.Advances.bind_at (same_readFile _ s) fun found s' hfound => ?_
  cases found with
  | none => exact Same.refl s'
  | some entries =>
    have hrows : s.files.environments.rows = entries := by
      simpa using World.readFile_eq_some hfound
    rw [(same_storedBindings.of_run hrun).files] at hrows
    subst hrows
    exact (same_scanFiles (h.files_known hlive) s').1

theorem Consistent.claims (h : Consistent w) {claims : List EnvironmentSetup} {w' : World}
    (hrun : environmentArtifacts true w = (.ok claims, w')) {candidate : String}
    {setup : EnvironmentSetup} (hbinding : bindingOf w.evidence candidate = some setup) :
    setup ∈ claims := by
  obtain ⟨stored, s, hstored, hscan⟩ := Program.bind_eq_ok.1 hrun
  have hlive := storedBindings_eq_ok hstored
  obtain ⟨found, s', hfound, hscan⟩ := Program.bind_eq_ok.1 hscan
  cases found with
  | none =>
    cases hscan
    exact h.mem_stored hlive hbinding
  | some entries =>
    have hrows : s.files.environments.rows = entries := by
      simpa using World.readFile_eq_some hfound
    rw [(same_storedBindings.of_run hstored).files] at hrows
    subst hrows
    dsimp only at hscan
    have hsame := (same_scanFiles (h.files_known hlive) s').2
    rw [hscan] at hsame
    cases hsame
    exact h.mem_stored hlive hbinding

end Consistency

end PhloTransform.Engine
