import PhloTransform.Engine.Environment

/-!
# Provisioning that fails

A call that gives up must delete the branch it created and record nothing.  The
branch is rolled back wherever setting the candidate up fails, but not when the
evidence cannot be written afterwards.

Main results:

- Theorem `candidateSetup_settles`: setting a candidate up creates its branch or
  leaves the references alone.
- Theorem `candidateSetup_eq_error`: a candidate that cannot be set up leaves nothing
  behind.
-/

namespace PhloTransform.Engine

open Core (Sha256)
open Library (Program Table)
open Nessie

variable {base : ReferenceInfo} {w w' : World}
variable {candidate : ReferenceInfo} {created : Bool}

namespace World

variable {w w' : World} {name : String} {error : EngineError}
variable {ε α : Type}

/-! ## Reading bindings -/

/-- The setup is held by an artifact file. -/
def InFiles (w : World) (setup : EnvironmentSetup) : Prop :=
  ∃ entry ∈ w.files.environments.rows, entry.2 = setup

theorem imported_of_inFiles {setup : EnvironmentSetup} (h : w.InFiles setup)
    (evidenceId now : String) : Imported w.files (environmentRecord setup evidenceId now) := by
  obtain ⟨entry, hentry, rfl⟩ := h
  exact Or.inl ⟨entry, hentry, evidenceId, now, rfl⟩

theorem inFiles_of_environmentAt {setup : EnvironmentSetup}
    (h : w.files.environmentAt name = some setup) : w.InFiles setup := by
  obtain ⟨entry, hentry, rfl⟩ := Option.map_eq_some_iff.1 h
  exact ⟨entry, List.mem_of_find?_eq_some hentry, rfl⟩

theorem reads_readEnvironmentFiles (candidate : String) :
    Program.Advances Reads
      (readEnvironmentFiles candidate : Program World ε (Option EnvironmentSetup)) := by
  refine (reads_readFile _).bind fun own => ?_
  cases own.filter fun setup => setup.candidate.name = candidate with
  | some setup => exact Program.Advances.pure _
  | none => exact (reads_readFile _).bind fun slot => Program.Advances.pure _

theorem readEnvironmentFiles_eq_some {candidate : String} {setup : EnvironmentSetup}
    (h : (readEnvironmentFiles candidate : Program World ε (Option EnvironmentSetup)) w =
      (.ok (some setup), w')) : w.InFiles setup ∧ setup.candidate.name = candidate := by
  obtain ⟨own, s, hown, h⟩ := Program.bind_eq_ok.1 h
  cases hfilter : own.filter fun setup => setup.candidate.name = candidate with
  | some found =>
    rw [hfilter] at h
    cases h
    obtain ⟨hsome, hname⟩ := Option.filter_eq_some_iff.1 hfilter
    subst hsome
    exact ⟨inFiles_of_environmentAt (readFile_eq_some hown), by simpa using hname⟩
  | none =>
    rw [hfilter] at h
    obtain ⟨slot, s', hslot, hpure⟩ := Program.bind_eq_ok.1 h
    have hfound : slot.filter (fun setup => setup.candidate.name = candidate) = some setup := by
      simpa using congrArg Prod.fst hpure
    obtain ⟨hsome, hname⟩ := Option.filter_eq_some_iff.1 hfound
    subst hsome
    have hfiles : s.files = w.files := ((reads_readFile _).of_run hown).files
    have hat := readFile_eq_some hslot
    rw [hfiles] at hat
    exact ⟨inFiles_of_environmentAt hat, by simpa using hname⟩

section Reading

variable [Rfc3339]

theorem reads_importSetup (stateful : Bool) {setup : EnvironmentSetup} {w : World}
    (h : w.InFiles setup) : Reads w (importSetup stateful setup w).2 := by
  cases stateful with
  | false => exact Reads.refl w
  | true =>
    refine Program.Advances.bind_at (reads_draw w) fun drawn s hdraw => ?_
    rw [Program.mapError_state]
    refine reads_importEvidence (imported_of_inFiles ?_ drawn.1 drawn.2)
    rw [InFiles, (reads_draw.of_run hdraw).files]
    exact h

theorem reads_readEnvironmentEvidence (stateful : Bool) (candidate : String) :
    Program.Advances Reads (readEnvironmentEvidence stateful candidate) := by
  intro w
  cases stateful with
  | false =>
    exact ((reads_readEnvironmentFiles candidate).bind fun _ => Program.Advances.pure _) w
  | true =>
    refine Program.Advances.bind_at ((reads_evidenceFor _ _).mapError w) fun rows s _ => ?_
    cases rows.head? with
    | some record =>
      refine Program.Advances.bind_at (Program.Advances.ofExcept _ s) fun setup s' _ => ?_
      by_cases hname : setup.candidate.name = candidate
      · rw [if_pos hname]
        exact Reads.refl _
      · rw [if_neg hname]
        exact Reads.refl _
    | none =>
      refine Program.Advances.bind_at (reads_readEnvironmentFiles candidate s)
        fun found s' hfound => ?_
      cases found with
      | none => exact Reads.refl _
      | some setup =>
        refine Program.Advances.bind_at (reads_importSetup true ?_) fun _ s _ => Reads.refl s
        rw [InFiles, ((reads_readEnvironmentFiles candidate).of_run hfound).files]
        exact (readEnvironmentFiles_eq_some hfound).1

theorem reads_readEnvironmentFor (stateful : Bool) (candidate : String) :
    Program.Advances Reads (readEnvironmentFor stateful candidate) :=
  (reads_readEnvironmentEvidence stateful candidate).bind fun _ => Program.Advances.pure _

theorem reads_admitFile (stateful : Bool) (setups : List EnvironmentSetup)
    {setup : EnvironmentSetup} {w : World} (h : w.InFiles setup) :
    Reads w (admitFile stateful setups setup w).2 := by
  unfold admitFile
  split
  · exact Reads.refl w
  · exact Program.Advances.bind_at (reads_importSetup stateful h) fun _ s _ => Reads.refl s

theorem reads_scanFiles (stateful : Bool) {entries : List (String × EnvironmentSetup)}
    {setups : List EnvironmentSetup} {w : World}
    (hentries : ∀ entry ∈ entries, w.InFiles entry.2) :
    Reads w (scanFiles stateful setups entries w).2 := by
  induction entries generalizing setups w with
  | nil => exact Reads.refl w
  | cons entry rest ih =>
    refine Program.Advances.bind_at (reads_readFile _ w) fun found s hfound => ?_
    have hread : Reads w s := (reads_readFile _).of_run hfound
    have hkeep : ∀ {t : World}, Reads w t → ∀ other ∈ entry :: rest, t.InFiles other.2 := by
      intro t hreads other hother
      rw [InFiles, hreads.files]
      exact hentries other hother
    cases found with
    | none => exact ih fun other hother => hkeep hread other (List.mem_cons_of_mem _ hother)
    | some setup =>
      have hsetup : entry.2 = setup := by
        simpa using readFile_eq_some hfound
      subst hsetup
      have hadmit := reads_admitFile stateful setups
        (hkeep hread entry (List.mem_cons_self ..))
      refine Program.Advances.bind_at hadmit fun setups' s' hs' => ih fun other hother => ?_
      rw [hs'] at hadmit
      exact hkeep (hread.trans hadmit) other (List.mem_cons_of_mem _ hother)

theorem reads_environmentArtifacts (stateful : Bool) :
    Program.Advances Reads (environmentArtifacts stateful) := by
  have hstored : Program.Advances Reads (storedBindings stateful) := by
    cases stateful with
    | false => exact Program.Advances.pure _
    | true =>
      exact ((reads_latestEvidence _).mapError).bind fun _ => Program.Advances.ofExcept _
  refine hstored.bind fun stored w => ?_
  refine Program.Advances.bind_at (reads_readFile _ w) fun found s hfound => ?_
  cases found with
  | none => exact Reads.refl s
  | some entries =>
    refine reads_scanFiles stateful fun entry hentry => ?_
    have hrows : w.files.environments.rows = entries := by
      simpa using readFile_eq_some hfound
    rw [InFiles, ((reads_readFile _).of_run hfound).files, hrows]
    exact ⟨entry, hentry, rfl⟩

end Reading

/-! ## Branches -/

/-- Nothing changed but the references. -/
structure OnlyReferences (w w' : World) : Prop where
  store : w'.store = w.store
  files : w'.files = w.files
  evidence : w'.evidence = w.evidence
  supply : w'.supply = w.supply

theorem OnlyReferences.refl (w : World) : OnlyReferences w w :=
  ⟨rfl, rfl, rfl, rfl⟩

theorem OnlyReferences.trans {w w' w'' : World} (h : OnlyReferences w w')
    (h' : OnlyReferences w' w'') : OnlyReferences w w'' :=
  ⟨h'.store.trans h.store, h'.files.trans h.files, h'.evidence.trans h.evidence,
    h'.supply.trans h.supply⟩

theorem call_leaves (w : World) :
    OnlyReferences w (call w).2 ∧ (call w).2.references = w.references := by
  unfold call
  split
  · exact ⟨⟨rfl, rfl, rfl, rfl⟩, rfl⟩
  · exact ⟨⟨rfl, rfl, rfl, rfl⟩, rfl⟩
  · exact ⟨⟨rfl, rfl, rfl, rfl⟩, rfl⟩

theorem nessie_eq_ok {operation : Program References NessieError α} {a : α}
    (h : nessie operation w = (.ok a, w')) :
    OnlyReferences w w' ∧ operation w.references = (.ok a, w'.references) := by
  obtain ⟨_, s, hcall, hzoom⟩ := Program.bind_eq_ok.1 (Program.mapError_eq_ok.1 h)
  have hs : s = (call w).2 := (congrArg Prod.snd (Program.mapError_eq_ok.1 hcall)).symm
  obtain ⟨hleaves, hreferences⟩ := call_leaves w
  rw [← hs] at hleaves hreferences
  obtain ⟨hvalue, hstate⟩ := Prod.ext_iff.1 hzoom
  simp only [Program.zoom, hreferences] at hvalue hstate
  subst hstate
  exact ⟨hleaves.trans ⟨rfl, rfl, rfl, rfl⟩, Prod.ext hvalue rfl⟩

theorem nessie_eq_error {operation : Program References NessieError α}
    (h : nessie operation w = (.error error, w')) :
    OnlyReferences w w' ∧
      (w'.references = w.references ∨
        ∃ refusal, operation w.references = (.error refusal, w'.references)) := by
  obtain ⟨refusal, hrun, _⟩ := Program.mapError_eq_error.1 h
  obtain ⟨hleaves, hreferences⟩ := call_leaves w
  rcases Program.bind_eq_error.1 hrun with hcall | ⟨_, s, hcall, hzoom⟩
  · obtain ⟨_, hcall, _⟩ := Program.mapError_eq_error.1 hcall
    rw [hcall] at hleaves hreferences
    exact ⟨hleaves, Or.inl hreferences⟩
  · have hs : s = (call w).2 := (congrArg Prod.snd (Program.mapError_eq_ok.1 hcall)).symm
    rw [← hs] at hleaves hreferences
    obtain ⟨hvalue, hstate⟩ := Prod.ext_iff.1 hzoom
    simp only [Program.zoom, hreferences] at hvalue hstate
    subst hstate
    exact ⟨hleaves.trans ⟨rfl, rfl, rfl, rfl⟩, Or.inr ⟨refusal, Prod.ext hvalue rfl⟩⟩

theorem getReference_eq_ok {found : Option ReferenceInfo}
    (h : nessie (InMemoryNessie.getReference name) w = (.ok found, w')) :
    OnlyReferences w w' ∧ w'.references = w.references ∧ found = w.references.get? name := by
  obtain ⟨hleaves, hrun⟩ := nessie_eq_ok h
  obtain ⟨hvalue, hstate⟩ := Prod.ext_iff.1 hrun
  exact ⟨hleaves, hstate.symm, (Except.ok.inj hvalue).symm⟩

theorem getReference_eq_error (h : nessie (InMemoryNessie.getReference name) w = (.error error, w'))
    : OnlyReferences w w' ∧ w'.references = w.references := by
  obtain ⟨hleaves, hsame | ⟨refusal, hrun⟩⟩ := nessie_eq_error h
  · exact ⟨hleaves, hsame⟩
  · cases hrun

theorem createBranch_eq_ok {base created : ReferenceInfo}
    (h : nessie (InMemoryNessie.createBranch name base) w = (.ok created, w')) :
    OnlyReferences w w' ∧ w.references.get? name = none ∧ created.name = name ∧
      w'.references = w.references.put created := by
  obtain ⟨hleaves, hrun⟩ := nessie_eq_ok h
  unfold InMemoryNessie.createBranch at hrun
  cases hget : w.references.get? name with
  | some existing =>
    rw [hget] at hrun
    cases hrun
  | none =>
    rw [hget] at hrun
    obtain ⟨hcreated, hreferences⟩ := Prod.ext_iff.1 hrun
    cases hcreated
    exact ⟨hleaves, rfl, rfl, hreferences.symm⟩

theorem createBranch_eq_error {base : ReferenceInfo}
    (h : nessie (InMemoryNessie.createBranch name base) w = (.error error, w')) :
    OnlyReferences w w' ∧ w'.references = w.references := by
  obtain ⟨hleaves, hsame | ⟨refusal, hrun⟩⟩ := nessie_eq_error h
  · exact ⟨hleaves, hsame⟩
  · unfold InMemoryNessie.createBranch at hrun
    cases hget : w.references.get? name with
    | some existing =>
      rw [hget] at hrun
      exact ⟨hleaves, (congrArg Prod.snd hrun).symm⟩
    | none =>
      rw [hget] at hrun
      cases congrArg Prod.fst hrun

theorem rollback_created {created : ReferenceInfo} (habsent : w.references.get? created.name = none)
    (hreferences : w'.references = w.references.put created) :
    (rollback true created.name w').2.references = w.references := by
  simp only [rollback, if_true, Program.modify_run, InMemoryNessie.deleteBranch, hreferences,
    Table.get?_put_self, Table.erase_put habsent]

theorem rollback_leaves (createdBranch : Bool) (candidate : String) (w : World) :
    OnlyReferences w (rollback createdBranch candidate w).2 := by
  cases createdBranch with
  | false => exact OnlyReferences.refl w
  | true => exact ⟨rfl, rfl, rfl, rfl⟩

end World

/-- The references after the candidate's branch was looked up or created. -/
def BranchSettled (w w' : World) (candidate : ReferenceInfo) (created : Bool) : Prop :=
  (created = false ∧ w'.references = w.references) ∨
    created = true ∧ w.references.get? candidate.name = none ∧
      w'.references = w.references.put candidate

theorem candidateBranch_eq_ok {spec : EnvironmentSpec} (hbase : base.name = spec.baseRef)
    (h : candidateBranch spec base w = (.ok (candidate, created), w')) :
    World.OnlyReferences w w' ∧ candidate.name = spec.candidateRef ∧
      BranchSettled w w' candidate created := by
  unfold candidateBranch at h
  by_cases hself : spec.candidateRef = spec.baseRef
  · rw [if_pos hself] at h
    cases h
    exact ⟨World.OnlyReferences.refl w, hbase.trans hself.symm, Or.inl ⟨rfl, rfl⟩⟩
  · rw [if_neg hself] at h
    obtain ⟨found, s, hget, h⟩ := Program.bind_eq_ok.1 h
    obtain ⟨hleaves, hreferences, hfound⟩ := World.getReference_eq_ok hget
    cases found with
    | some existing =>
      cases h
      exact ⟨hleaves, Table.key_of_get? hfound.symm, Or.inl ⟨rfl, hreferences⟩⟩
    | none =>
      obtain ⟨made, s', hcreate, hpure⟩ := Program.bind_eq_ok.1 h
      cases hpure
      obtain ⟨hleaves', habsent, hname, hput⟩ := World.createBranch_eq_ok hcreate
      rw [hreferences] at habsent hput
      exact ⟨hleaves.trans hleaves', hname,
        Or.inr ⟨rfl, by rw [hname]; exact habsent, hput⟩⟩

theorem candidateBranch_eq_error {spec : EnvironmentSpec} {error : EngineError}
    (h : candidateBranch spec base w = (.error error, w')) :
    World.OnlyReferences w w' ∧ w'.references = w.references := by
  unfold candidateBranch at h
  by_cases hself : spec.candidateRef = spec.baseRef
  · rw [if_pos hself] at h
    cases h
  · rw [if_neg hself] at h
    rcases Program.bind_eq_error.1 h with hget | ⟨found, s, hget, h⟩
    · exact World.getReference_eq_error hget
    · obtain ⟨hleaves, hreferences, _⟩ := World.getReference_eq_ok hget
      cases found with
      | some existing => cases h
      | none =>
        rcases Program.bind_eq_error.1 h with hcreate | ⟨made, s', _, hpure⟩
        · obtain ⟨hleaves', hsame⟩ := World.createBranch_eq_error hcreate
          exact ⟨hleaves.trans hleaves', hsame.trans hreferences⟩
        · cases hpure

theorem requireBase_eq_ok {spec : EnvironmentSpec} (h : requireBase spec w = (.ok base, w')) :
    World.OnlyReferences w w' ∧ w'.references = w.references ∧
      w.references.get? spec.baseRef = some base := by
  obtain ⟨found, s, hget, h⟩ := Program.bind_eq_ok.1 h
  obtain ⟨hleaves, hreferences, hfound⟩ := World.getReference_eq_ok hget
  cases found with
  | some base' =>
    cases h
    exact ⟨hleaves, hreferences, hfound.symm⟩
  | none => cases h

theorem requireBase_eq_error {spec : EnvironmentSpec} {error : EngineError}
    (h : requireBase spec w = (.error error, w')) :
    World.OnlyReferences w w' ∧ w'.references = w.references := by
  rcases Program.bind_eq_error.1 h with hget | ⟨found, s, hget, h⟩
  · exact World.getReference_eq_error hget
  · obtain ⟨hleaves, hreferences, _⟩ := World.getReference_eq_ok hget
    cases found with
    | some base' => cases h
    | none =>
      cases h
      exact ⟨hleaves, hreferences⟩

/-- Giving up after the branch was settled leaves the references as they were. -/
theorem rollback_settled {spec : EnvironmentSpec} {s : World}
    (hname : candidate.name = spec.candidateRef) (h : BranchSettled w s candidate created) :
    (World.rollback created spec.candidateRef s).2.references = w.references := by
  rcases h with ⟨rfl, hsame⟩ | ⟨rfl, habsent, hput⟩
  · exact hsame
  · rw [← hname]
    exact World.rollback_created habsent hput

section Ensuring

variable [Sha256]

theorem ensureEnvironment_eq_ok {adapter : CatalogAdapter} {spec : EnvironmentSpec}
    {w w' : World} {setup : EnvironmentSetup}
    (h : ensureEnvironment adapter spec w = (.ok setup, w')) :
    World.OnlyReferences w w' ∧ setup.candidate.name = spec.candidateRef ∧
      BranchSettled w w' setup.candidate setup.createdBranch ∧
      w.references.get? spec.baseRef = some setup.base ∧
      (setup.createdFrom = if setup.createdBranch ∨ spec.candidateRef = spec.baseRef then
        some setup.base else none) ∧
      adapter.ensureCatalog (catalogRequest spec) = .ok setup.catalogStatus ∧
      setup.catalog = (catalogRequest spec).catalog := by
  obtain ⟨base, s, hbase, h⟩ := Program.bind_eq_ok.1 h
  obtain ⟨⟨candidate, created⟩, s', hbranch, h⟩ := Program.bind_eq_ok.1 h
  obtain ⟨hleaves, hreferences, hget⟩ := requireBase_eq_ok hbase
  have hbaseName : base.name = spec.baseRef := Table.key_of_get? hget
  obtain ⟨hleaves', hname, hsettled⟩ := candidateBranch_eq_ok hbaseName hbranch
  rw [BranchSettled, hreferences] at hsettled
  cases hstatus : adapter.ensureCatalog (catalogRequest spec) with
  | error message =>
    simp only [hstatus] at h
    obtain ⟨_, _, _, hfail⟩ := Program.bind_eq_ok.1 h
    cases hfail
  | ok status =>
    simp only [hstatus] at h
    split at h
    · obtain ⟨_, _, _, hfail⟩ := Program.bind_eq_ok.1 h
      cases hfail
    · cases h
      exact ⟨hleaves.trans hleaves', hname, hsettled, hget, by rw [hname, hbaseName], rfl, rfl⟩

theorem ensureEnvironment_eq_error {adapter : CatalogAdapter} {spec : EnvironmentSpec}
    {w w' : World} {error : EngineError}
    (h : ensureEnvironment adapter spec w = (.error error, w')) :
    World.OnlyReferences w w' ∧ w'.references = w.references := by
  rcases Program.bind_eq_error.1 h with hbase | ⟨base, s, hbase, h⟩
  · exact requireBase_eq_error hbase
  obtain ⟨hleaves, hreferences, hget⟩ := requireBase_eq_ok hbase
  rcases Program.bind_eq_error.1 h with hbranch | ⟨⟨candidate, created⟩, s', hbranch, h⟩
  · obtain ⟨hleaves', hsame⟩ := candidateBranch_eq_error hbranch
    exact ⟨hleaves.trans hleaves', hsame.trans hreferences⟩
  have hbaseName : base.name = spec.baseRef := Table.key_of_get? hget
  obtain ⟨hleaves', hname, hsettled⟩ := candidateBranch_eq_ok hbaseName hbranch
  have hrolled : ∀ {failure : EngineError},
      (do World.rollback created spec.candidateRef
          Program.fail failure : Program World EngineError EnvironmentSetup) s' =
        (.error error, w') →
      World.OnlyReferences w w' ∧ w'.references = w.references := by
    intro failure hrun
    have hrollback := World.rollback_leaves created spec.candidateRef s'
    have hrestored := rollback_settled hname hsettled
    have hend : w' = (World.rollback created spec.candidateRef s').2 := by
      cases created <;> exact (congrArg Prod.snd hrun).symm
    rw [← hend] at hrollback hrestored
    exact ⟨(hleaves.trans hleaves').trans hrollback, hrestored.trans hreferences⟩
  cases hstatus : adapter.ensureCatalog (catalogRequest spec) with
  | error message =>
    simp only [hstatus] at h
    exact hrolled h
  | ok status =>
    simp only [hstatus] at h
    split at h
    · exact hrolled h
    · cases h

end Ensuring

/-! ## What is recorded of a candidate -/

namespace World

variable {w w' : World}
variable {candidate subject : String} {kind : EvidenceKind} {rows evidence : List EvidenceRecord}
  {record : EvidenceRecord}

/-- The store or an artifact file holds the binding for the candidate. -/
def Recorded (w : World) (candidate : String) (setup : EnvironmentSetup) : Prop :=
  (∃ record ∈ w.evidence, record.kind = .environment ∧ record.subject = candidate ∧
      record.payload = .environment setup) ∨
    setup.candidate.name = candidate ∧ w.InFiles setup

theorem OnlyReferences.recorded (h : OnlyReferences w w') {setup : EnvironmentSetup} :
    w'.Recorded candidate setup ↔ w.Recorded candidate setup := by
  simp only [Recorded, InFiles, h.evidence, h.files]

theorem Reads.recorded (h : Reads w w') {setup : EnvironmentSetup}
    (hrecorded : w'.Recorded candidate setup) : w.Recorded candidate setup := by
  rcases hrecorded with ⟨record, hrecord, hkind, hsubject, hpayload⟩ | ⟨hname, hfile⟩
  · rcases h.imports record hrecord with hold | himported
    · exact Or.inl ⟨record, hold, hkind, hsubject, hpayload⟩
    · rcases himported with ⟨entry, hentry, _, _, rfl⟩ | ⟨_, _, _, rfl⟩
      · cases hpayload
        exact Or.inr ⟨hsubject, entry, hentry, rfl⟩
      · cases hkind
  · rw [InFiles, h.files] at hfile
    exact Or.inr ⟨hname, hfile⟩

/-- The binding is recorded, as far as anything is recorded at all. -/
structure Writes (setup : EnvironmentSetup) (w w' : World) : Prop where
  references : w'.references = w.references
  only : ∀ other, w'.Recorded setup.candidate.name other →
    w.Recorded setup.candidate.name other ∨ other = setup
  keeps : w.Recorded setup.candidate.name setup → w'.Recorded setup.candidate.name setup
  writes : w'.evidence ≠ w.evidence ∨ w'.files ≠ w.files →
    w'.Recorded setup.candidate.name setup

section Writes

variable {setup : EnvironmentSetup}

theorem OnlyReferences.writes {w w' : World} (h : OnlyReferences w w')
    (hreferences : w'.references = w.references) : Writes setup w w' where
  references := hreferences
  only _ hrecorded := Or.inl (h.recorded.1 hrecorded)
  keeps := h.recorded.2
  writes hchanged := by
    rcases hchanged with hevidence | hfiles
    · exact absurd h.evidence hevidence
    · exact absurd h.files hfiles

theorem Writes.refl (w : World) : Writes setup w w :=
  (OnlyReferences.refl w).writes rfl

theorem Writes.trans {w w' w'' : World} (h : Writes setup w w') (h' : Writes setup w' w'') :
    Writes setup w w'' where
  references := h'.references.trans h.references
  only other hrecorded := by
    rcases h'.only other hrecorded with hrecorded | heq
    · exact h.only other hrecorded
    · exact Or.inr heq
  keeps hrecorded := h'.keeps (h.keeps hrecorded)
  writes hchanged := by
    by_cases hsecond : w''.evidence ≠ w'.evidence ∨ w''.files ≠ w'.files
    · exact h'.writes hsecond
    · obtain ⟨hevidence, hfiles⟩ := not_or.1 hsecond
      rw [not_not.1 hevidence, not_not.1 hfiles] at hchanged
      exact h'.keeps (h.writes hchanged)

instance : Std.Refl (Writes setup) :=
  ⟨Writes.refl⟩

instance : IsTrans World (Writes setup) :=
  ⟨fun _ _ _ => Writes.trans⟩

theorem writes_call : Program.Advances (Writes setup) call :=
  fun w => (call_leaves w).1.writes (call_leaves w).2

theorem writes_recordEvidence (evidenceId now : String) :
    Program.Advances (Writes setup) (recordEvidence (environmentRecord setup evidenceId now)) := by
  refine writes_call.bind fun _ w => ?_
  have hnew : Recorded { w with
      evidence := w.evidence ++ [environmentRecord setup evidenceId now] }
      setup.candidate.name setup :=
    Or.inl ⟨environmentRecord setup evidenceId now, by simp, rfl, rfl, rfl⟩
  refine ⟨rfl, fun other hother => ?_, fun _ => hnew, fun _ => hnew⟩
  rcases hother with ⟨record, hrecord, hkind, hsubject, hpayload⟩ | hfile
  · rcases List.mem_append.1 hrecord with hold | hlast
    · exact Or.inl (Or.inl ⟨record, hold, hkind, hsubject, hpayload⟩)
    · rw [List.mem_singleton.1 hlast] at hpayload
      cases hpayload
      exact Or.inr rfl
  · exact Or.inl (Or.inr hfile)

theorem writes_putEnvironment (name : String) :
    Program.Advances (Writes setup) (writeFiles fun files => files.putEnvironment name setup) := by
  refine writes_call.bind fun _ w => ?_
  have hnew : Recorded { w with files := w.files.putEnvironment name setup }
      setup.candidate.name setup :=
    Or.inr ⟨rfl, (name, setup), Table.mem_put.2 (Or.inl rfl), rfl⟩
  refine ⟨rfl, fun other hother => ?_, fun _ => hnew, fun _ => hnew⟩
  rcases hother with hrecord | ⟨hname, entry, hentry, rfl⟩
  · exact Or.inl (Or.inl hrecord)
  · rcases Table.mem_put.1 hentry with rfl | ⟨hold, _⟩
    · exact Or.inr rfl
    · exact Or.inl (Or.inr ⟨hname, entry, hold, rfl⟩)

theorem writes_evidenceFor [Rfc3339] (kind : EvidenceKind) (subject : String) :
    Program.Advances (Writes setup) (evidenceFor kind subject) :=
  writes_call.bind fun _ => Program.Advances.get.bind fun _ => Program.Advances.pure _

/-- Writing the artifacts records the binding and nothing else. -/
theorem writes_writeEnvironmentArtifacts [Rfc3339] (stateful : Bool) :
    Program.Advances (Writes setup) (writeEnvironmentArtifacts stateful setup) := by
  have hfiles : Program.Advances (Writes setup) (do
      writeFiles fun files => files.putEnvironment "environment.json" setup
      writeFiles fun files =>
        files.putEnvironment (environmentArtifactName setup.candidate.name) setup) :=
    (writes_putEnvironment _).bind fun _ => writes_putEnvironment _
  cases stateful with
  | false => exact hfiles
  | true =>
    have hdraw : Program.Advances (Writes setup) (draw : Program World String _) := by
      intro w
      apply OnlyReferences.writes
      · exact ⟨rfl, rfl, rfl, rfl⟩
      · rfl
    refine hdraw.bind fun drawn => (writes_evidenceFor _ _).bind fun rows => ?_
    by_cases hunchanged : isUnchanged (environmentRecord setup drawn.1 drawn.2) rows = true
    · simp only [hunchanged, if_true]
      exact hfiles
    · simp only [hunchanged]
      exact (writes_recordEvidence _ _).bind fun _ => hfiles

end Writes

theorem writeFiles_eq_ok {write : ArtifactFiles → ArtifactFiles}
    (h : writeFiles write w = (.ok (), w')) :
    w'.files = write w.files ∧ w'.evidence = w.evidence := by
  obtain ⟨_, s, hcall, hmodify⟩ := Program.bind_eq_ok.1 h
  cases hmodify
  have hleaves := (call_leaves w).1
  rw [hcall] at hleaves
  exact ⟨congrArg write hleaves.files, hleaves.evidence⟩

theorem evidenceFor_eq_ok [Rfc3339] (h : evidenceFor kind subject w = (.ok rows, w')) :
    w'.evidence = w.evidence ∧ rows = evidenceOf w.evidence kind subject := by
  obtain ⟨_, s, hcall, h⟩ := Program.bind_eq_ok.1 h
  have hleaves := (call_leaves w).1
  rw [hcall] at hleaves
  cases h
  exact ⟨hleaves.evidence, by rw [← hleaves.evidence]⟩

theorem recordEvidence_eq_ok (h : recordEvidence record w = (.ok (), w')) :
    w'.evidence = w.evidence ++ [record] := by
  obtain ⟨_, s, hcall, h⟩ := Program.bind_eq_ok.1 h
  have hleaves := (call_leaves w).1
  rw [hcall] at hleaves
  cases h
  exact congrArg (· ++ [record]) hleaves.evidence

theorem mem_evidenceOf [Rfc3339] :
    record ∈ evidenceOf evidence kind subject ↔
      record ∈ evidence ∧ record.kind = kind ∧ record.subject = subject := by
  simp [evidenceOf]

/-- The binding written last for the candidate: in its own file, and in the store. -/
structure Bound (stateful : Bool) (setup : EnvironmentSetup) (w : World) : Prop where
  file : w.files.environmentAt (environmentArtifactName setup.candidate.name) = some setup
  stored : stateful = true → ∃ record ∈ w.evidence, record.kind = .environment ∧
    record.subject = setup.candidate.name ∧ record.payload = .environment setup

theorem mem_of_isUnchanged [Rfc3339] {setup : EnvironmentSetup} {evidenceId now : String}
    (hrows : rows = evidenceOf evidence .environment setup.candidate.name)
    (h : isUnchanged (environmentRecord setup evidenceId now) rows = true) :
    ∃ record ∈ evidence, record.kind = .environment ∧
      record.subject = setup.candidate.name ∧ record.payload = .environment setup := by
  cases hhead : rows.head? with
  | none => simp [isUnchanged, hhead] at h
  | some existing =>
    have hpayload : existing.payload = .environment setup := by
      simp only [isUnchanged, hhead, Option.any_some, decide_eq_true_eq] at h
      exact h.2
    have hmem : existing ∈ rows := List.mem_of_head? hhead
    rw [hrows, mem_evidenceOf] at hmem
    exact ⟨existing, hmem.1, hmem.2.1, hmem.2.2, hpayload⟩

theorem bound_of_writeEnvironmentArtifacts [Rfc3339] {stateful : Bool} {setup : EnvironmentSetup}
    (h : writeEnvironmentArtifacts stateful setup w = (.ok (), w')) : Bound stateful setup w' := by
  have hfiles : ∀ {v : World}, (do
      writeFiles fun files => files.putEnvironment "environment.json" setup
      writeFiles fun files =>
        files.putEnvironment (environmentArtifactName setup.candidate.name) setup :
        Program World String Unit) v = (.ok (), w') →
      w'.files.environmentAt (environmentArtifactName setup.candidate.name) = some setup ∧
        w'.evidence = v.evidence := by
    intro v hrun
    obtain ⟨_, s, hslot, hown⟩ := Program.bind_eq_ok.1 hrun
    obtain ⟨_, hslotEvidence⟩ := writeFiles_eq_ok hslot
    obtain ⟨hput, hownEvidence⟩ := writeFiles_eq_ok hown
    refine ⟨?_, hownEvidence.trans hslotEvidence⟩
    rw [hput]
    exact congrArg (Option.map Prod.snd) (Table.get?_put_self _ _)
  cases stateful with
  | false => exact ⟨(hfiles h).1, fun hfalse => nomatch hfalse⟩
  | true =>
    obtain ⟨⟨evidenceId, now⟩, s, hdraw, h⟩ := Program.bind_eq_ok.1 h
    obtain ⟨rows, s', hread, h⟩ := Program.bind_eq_ok.1 h
    have hrows := evidenceFor_eq_ok hread
    by_cases hunchanged : isUnchanged (environmentRecord setup evidenceId now) rows = true
    · simp only [hunchanged, if_true] at h
      obtain ⟨hfile, hevidence⟩ := hfiles h
      refine ⟨hfile, fun _ => ?_⟩
      rw [hevidence, hrows.1]
      exact mem_of_isUnchanged hrows.2 hunchanged
    · simp only [hunchanged] at h
      obtain ⟨_, s'', hrecord, h⟩ := Program.bind_eq_ok.1 h
      obtain ⟨hfile, hevidence⟩ := hfiles h
      refine ⟨hfile, fun _ => ⟨environmentRecord setup evidenceId now, ?_, rfl, rfl, rfl⟩⟩
      rw [hevidence, recordEvidence_eq_ok hrecord]
      simp

end World

section Ensuring

variable [Sha256] [Rfc3339] {stateful : Bool} {adapter : CatalogAdapter} {spec : EnvironmentSpec}
variable {w s : World}

theorem candidateSetup_eq_ok {setup : EnvironmentSetup}
    (h : candidateSetup stateful adapter spec w = (.ok setup, s)) :
    ∃ prior claims raw r t, readEnvironmentFor stateful spec.candidateRef w = (.ok prior, r) ∧
      environmentArtifacts stateful r = (.ok claims, t) ∧
      (∀ other ∈ claims, other.catalog = resolveCatalog spec prior →
        other.candidate.name = spec.candidateRef) ∧
      ensureEnvironment adapter (resolvedSpec spec prior) t = (.ok raw, s) ∧
      (raw.catalogStatus = .unverified → isRecorded spec prior raw = true) ∧
      setup = attributed prior raw := by
  obtain ⟨prior, r, hprior, h⟩ := Program.bind_eq_ok.1 h
  obtain ⟨claims, t, hclaims, h⟩ := Program.bind_eq_ok.1 h
  split at h
  · cases h
  · next hunclaimed =>
      obtain ⟨raw, s', hraw, h⟩ := Program.bind_eq_ok.1 h
      split at h
      · obtain ⟨_, _, _, hfail⟩ := Program.bind_eq_ok.1 h
        cases hfail
      · next hverified =>
          cases h
          refine ⟨prior, claims, raw, r, t, hprior, hclaims, ?_, hraw, ?_, rfl⟩
          · simpa using hunclaimed
          · simpa using hverified

/-- Setting a candidate up creates its branch or leaves the references alone. -/
theorem candidateSetup_settles {setup : EnvironmentSetup}
    (h : candidateSetup stateful adapter spec w = (.ok setup, s)) :
    ∃ t, World.Reads w t ∧ World.OnlyReferences t s ∧
      setup.candidate.name = spec.candidateRef ∧
      BranchSettled t s setup.candidate setup.createdBranch ∧
      (setup.createdBranch = true → ∃ base, w.references.get? spec.baseRef = some base ∧
        setup.createdFrom = some base) := by
  obtain ⟨prior, claims, raw, r, t, hprior, hclaims, _, hraw, _, rfl⟩ := candidateSetup_eq_ok h
  have hreads : World.Reads w t :=
    ((World.reads_readEnvironmentFor _ _).of_run hprior).trans
      ((World.reads_environmentArtifacts _).of_run hclaims)
  obtain ⟨hleaves, hname, hsettled, hget, hfrom, _⟩ := ensureEnvironment_eq_ok hraw
  refine ⟨t, hreads, hleaves, hname, hsettled, fun hcreated => ⟨raw.base, ?_, ?_⟩⟩
  · rw [← hreads.references]
    exact hget
  · have hcreated : raw.createdBranch = true := hcreated
    simp [attributed, hfrom, hcreated]

omit [Sha256] in
/-- The world once the recorded bindings have been read, or could not be. -/
def AfterReading (stateful : Bool) (spec : EnvironmentSpec) (w t : World) : Prop :=
  t = (readEnvironmentFor stateful spec.candidateRef w).2 ∨
    ∃ prior r, readEnvironmentFor stateful spec.candidateRef w = (.ok prior, r) ∧
      t = (environmentArtifacts stateful r).2

omit [Sha256] in
theorem AfterReading.reads {t : World} (h : AfterReading stateful spec w t) : World.Reads w t := by
  rcases h with rfl | ⟨prior, r, hprior, rfl⟩
  · exact World.reads_readEnvironmentFor _ _ w
  · exact ((World.reads_readEnvironmentFor _ _).of_run hprior).trans
      (World.reads_environmentArtifacts _ r)

/-- A candidate that cannot be set up leaves nothing behind. -/
theorem candidateSetup_eq_error {error : EngineError}
    (h : candidateSetup stateful adapter spec w = (.error error, s)) :
    ∃ t, AfterReading stateful spec w t ∧ World.OnlyReferences t s ∧
      s.references = t.references := by
  rcases Program.bind_eq_error.1 h with hprior | ⟨prior, r, hprior, h⟩
  · exact ⟨s, Or.inl (congrArg Prod.snd hprior).symm, World.OnlyReferences.refl s, rfl⟩
  rcases Program.bind_eq_error.1 h with hclaims | ⟨claims, t, hclaims, h⟩
  · exact ⟨s, Or.inr ⟨prior, r, hprior, (congrArg Prod.snd hclaims).symm⟩,
      World.OnlyReferences.refl s, rfl⟩
  have hread : AfterReading stateful spec w t :=
    Or.inr ⟨prior, r, hprior, (congrArg Prod.snd hclaims).symm⟩
  split at h
  · cases h
    exact ⟨_, hread, World.OnlyReferences.refl _, rfl⟩
  · rcases Program.bind_eq_error.1 h with hraw | ⟨raw, s', hraw, h⟩
    · obtain ⟨hleaves, hsame⟩ := ensureEnvironment_eq_error hraw
      exact ⟨t, hread, hleaves, hsame⟩
    · obtain ⟨hleaves, hname, hsettled, _⟩ := ensureEnvironment_eq_ok hraw
      split at h
      · have hend : s = (World.rollback raw.createdBranch spec.candidateRef s').2 := by
          generalize raw.createdBranch = created at h
          cases created <;> exact (congrArg Prod.snd h).symm
        subst hend
        exact ⟨t, hread, hleaves.trans (World.rollback_leaves _ _ _),
          rollback_settled hname hsettled⟩
      · cases h

end Ensuring

/-! ## What a failed call leaks -/

section Leaking

variable [Sha256] [Rfc3339] (stateful : Bool) (adapter : CatalogAdapter) (spec : EnvironmentSpec)
variable {w s w' : World} {message : String}

/-- A call that fails leaves the branches and the evidence of the candidate as they
were; one that creates the branch records what it was created from. -/
def LeaksNothing (w : World) : Prop :=
  match ensureCandidate stateful adapter spec w with
  | (.error _, w') => w'.references = w.references ∧
      ∀ setup, w'.Recorded spec.candidateRef setup → w.Recorded spec.candidateRef setup
  | (.ok setup, w') => setup.createdBranch = true →
      (∃ base, w.references.get? spec.baseRef = some base ∧ setup.createdFrom = some base) ∧
        setup.candidate.name = spec.candidateRef ∧ World.Bound stateful setup w'

/-- The artifacts cannot be written, although the branch was just created or an
earlier one of the writes took effect on a candidate without this binding. -/
def LeaksAtWrite (w : World) : Prop :=
  ∃ setup s message w', candidateSetup stateful adapter spec w = (.ok setup, s) ∧
    writeEnvironmentArtifacts stateful setup s = (.error message, w') ∧
    (setup.createdBranch = true ∨
      ¬ w.Recorded spec.candidateRef setup ∧ (w'.evidence ≠ s.evidence ∨ w'.files ≠ s.files))

variable {stateful adapter spec}

theorem ensureCandidate_of_write_error {setup : EnvironmentSetup}
    (hsetup : candidateSetup stateful adapter spec w = (.ok setup, s))
    (hwrite : writeEnvironmentArtifacts stateful setup s = (.error message, w')) :
    ensureCandidate stateful adapter spec w = (.error (.artifact message), w') := by
  unfold ensureCandidate
  rw [Program.bind_of_ok hsetup]
  exact Program.bind_of_error (Program.mapError_eq_error.2 ⟨message, hwrite, rfl⟩)

/-- A branch that was created before the artifacts failed is still there. -/
theorem branch_stays {setup : EnvironmentSetup}
    (hsetup : candidateSetup stateful adapter spec w = (.ok setup, s))
    (hwrite : writeEnvironmentArtifacts stateful setup s = (.error message, w')) :
    w'.references = w.references ↔ setup.createdBranch = false := by
  obtain ⟨t, hreads, _, _, hsettled, _⟩ := candidateSetup_settles hsetup
  have hwritten : w'.references = s.references :=
    ((World.writes_writeEnvironmentArtifacts stateful).of_run hwrite).references
  rw [hwritten]
  rcases hsettled with ⟨hkept, hsame⟩ | ⟨hcreated, habsent, hput⟩
  · exact iff_of_true (hsame.trans hreads.references) hkept
  · refine iff_of_false (fun heq => ?_) (by simp [hcreated])
    have hstays : w.references.get? setup.candidate.name = some setup.candidate := by
      rw [← heq, hput]
      exact Table.get?_put_self _ _
    rw [← hreads.references, habsent] at hstays
    cases hstays

/-- A write that failed halfway records a binding, if it was not recorded before. -/
theorem records_halfway {setup : EnvironmentSetup}
    (hsetup : candidateSetup stateful adapter spec w = (.ok setup, s))
    (hwrite : writeEnvironmentArtifacts stateful setup s = (.error message, w')) :
    (∀ other, w'.Recorded spec.candidateRef other → w.Recorded spec.candidateRef other) ↔
      (w.Recorded spec.candidateRef setup ∨ w'.evidence = s.evidence ∧ w'.files = s.files) := by
  obtain ⟨t, hreads, hleaves, hname, _, _⟩ := candidateSetup_settles hsetup
  have hwrites := (World.writes_writeEnvironmentArtifacts stateful).of_run hwrite
  have hbefore : ∀ {other}, s.Recorded spec.candidateRef other →
      w.Recorded spec.candidateRef other :=
    fun hother => hreads.recorded (hleaves.recorded.1 hother)
  rw [← hname] at hbefore ⊢
  constructor
  · intro hnothing
    by_cases hold : w.Recorded setup.candidate.name setup
    · exact Or.inl hold
    · have hunchanged : ¬ (w'.evidence ≠ s.evidence ∨ w'.files ≠ s.files) :=
        fun hchanged => hold (hnothing setup (hwrites.writes hchanged))
      obtain ⟨hevidence, hfiles⟩ := not_or.1 hunchanged
      exact Or.inr ⟨not_not.1 hevidence, not_not.1 hfiles⟩
  · rintro (hold | ⟨hevidence, hfiles⟩) other hother
    · rcases hwrites.only other hother with hother | rfl
      · exact hbefore hother
      · exact hold
    · refine hbefore ?_
      rw [World.Recorded, World.InFiles, ← hevidence, ← hfiles]
      exact hother

/-- A failed call leaks nothing, unless the artifacts cannot be written afterwards. -/
theorem leaks_nothing_iff (w : World) :
    LeaksNothing stateful adapter spec w ↔ ¬ LeaksAtWrite stateful adapter spec w := by
  by_cases hwrite : ∃ setup s message w', candidateSetup stateful adapter spec w = (.ok setup, s) ∧
      writeEnvironmentArtifacts stateful setup s = (.error message, w')
  · obtain ⟨setup, s, message, w', hsetup, hwrite⟩ := hwrite
    have hleaks : LeaksAtWrite stateful adapter spec w ↔ (setup.createdBranch = true ∨
        ¬ w.Recorded spec.candidateRef setup ∧
          (w'.evidence ≠ s.evidence ∨ w'.files ≠ s.files)) := by
      constructor
      · rintro ⟨setup', s', message', v, hsetup', hwrite', hleak⟩
        rw [hsetup] at hsetup'
        cases hsetup'
        rw [hwrite] at hwrite'
        cases hwrite'
        exact hleak
      · exact fun hleak => ⟨setup, s, message, w', hsetup, hwrite, hleak⟩
    rw [LeaksNothing, ensureCandidate_of_write_error hsetup hwrite, hleaks]
    dsimp only
    rw [branch_stays hsetup hwrite, records_halfway hsetup hwrite, not_or, not_and_or, not_not,
      not_or, not_not, not_not, Bool.not_eq_true]
  · refine iff_of_true ?_ fun ⟨setup, s, message, w', hsetup, hfailed, _⟩ =>
      hwrite ⟨setup, s, message, w', hsetup, hfailed⟩
    rcases hrun : ensureCandidate stateful adapter spec w with ⟨error | setup, w'⟩
    · rw [LeaksNothing, hrun]
      rcases ensureCandidate_eq_error hrun with hsetup | hfailed
      · obtain ⟨t, hread, hleaves, hsame⟩ := candidateSetup_eq_error hsetup
        exact ⟨hsame.trans hread.reads.references,
          fun other hother => hread.reads.recorded (hleaves.recorded.1 hother)⟩
      · obtain ⟨setup, s, message, hfailed⟩ := hfailed
        exact absurd ⟨setup, s, message, w', hfailed⟩ hwrite
    · rw [LeaksNothing, hrun]
      obtain ⟨s, hsetup, hwritten⟩ := ensureCandidate_eq_ok hrun
      obtain ⟨t, _, _, hname, _, hfrom⟩ := candidateSetup_settles hsetup
      exact fun hcreated => ⟨hfrom hcreated, hname,
        World.bound_of_writeEnvironmentArtifacts hwritten⟩

end Leaking

/-! ## Artifacts that cannot be written -/

/-- The digest of `ci/pr-1`. -/
@[reducible]
def pullRequestDigest : Sha256 where
  hex value :=
    if value = "ci/pr-1" then
      "ec50ab1c0ee480c864e15a107867c79067bfd477219727ef23cd4a73d618edda"
    else ""

/-- An adapter that creates the catalogs it is asked for. -/
def creatingAdapter : CatalogAdapter where
  name := "trino"
  supportsCatalogProvisioning := true
  ensureCatalog _ := .ok .created

def pullRequest : EnvironmentSpec where
  baseRef := "main"
  candidateRef := "ci/pr-1"
  nessieUri := some "http://nessie:19120"
  warehouse := none
  catalog := none

/-- `main` at `aaa`, nothing recorded, and the disk is full once the store has been
written. -/
def fullDisk : World where
  references := References.seed Table.empty "main" "aaa"
  store := .empty
  evidence := []
  files := { environments := Table.empty, branchDiff := none, diff := false }
  faults := List.replicate 10 none ++ [some "no space left on device"]
  supply :=
    { evidenceId := fun n => "evidence-" ++ toString n
      now := fun _ => "2026-01-01T00:00:00.000000000Z" }
  tick := 0

/-- The call fails, its branch stays and its binding is recorded. -/
theorem created_branch_leaked :
    (@ensureCandidate pullRequestDigest januaryClock true creatingAdapter pullRequest
        fullDisk).1.toOption = none ∧
      (@ensureCandidate pullRequestDigest januaryClock true creatingAdapter pullRequest
        fullDisk).2.references.head "ci/pr-1" = some "aaa" ∧
      (@ensureCandidate pullRequestDigest januaryClock true creatingAdapter pullRequest
        fullDisk).2.evidence.map EvidenceRecord.subject = ["ci/pr-1"] ∧
      ¬ @LeaksNothing pullRequestDigest januaryClock true creatingAdapter pullRequest fullDisk := by
  let _ := pullRequestDigest
  let _ := januaryClock
  have hfailed : (ensureCandidate true creatingAdapter pullRequest fullDisk).1.toOption = none := by
    decide +kernel
  have hstays : (ensureCandidate true creatingAdapter pullRequest fullDisk).2.references.head
      "ci/pr-1" = some "aaa" := by
    decide +kernel
  refine ⟨hfailed, hstays, by decide +kernel, fun hnothing => ?_⟩
  rcases hrun : ensureCandidate true creatingAdapter pullRequest fullDisk with ⟨error | setup, w'⟩
  · rw [LeaksNothing, hrun] at hnothing
    rw [hrun, hnothing.1] at hstays
    exact absurd hstays (by decide +kernel)
  · rw [hrun] at hfailed
    cases hfailed

end PhloTransform.Engine
