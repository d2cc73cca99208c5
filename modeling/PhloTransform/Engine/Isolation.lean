import PhloTransform.Engine.Bindings
import PhloTransform.Library.StepSystem

/-!
# Isolation of candidates

Candidates are ensured, resolved and forgotten in any order while other clients move
the references.  The live bindings stay apart, ownership is earned, and a preview
names the catalog that is ensured next.  A candidate that is ensured as its own base
is recorded as created from its present head.

Main results:

- Theorem `Consistent.ensure`: what ensuring a candidate records.
- Theorem `isolated_of_run`: the invariants of a session, in which no candidate is
  ensured as its own base after its provenance was recorded.
-/

namespace PhloTransform.Engine

open Core (Sha256)
open Library (Program Table StepSystem)
open Nessie

variable {files : ArtifactFiles} {entry : String × EnvironmentSetup}

/-! ## What ensuring a candidate records -/

section Ensuring

variable [Sha256] [Rfc3339] {adapter : CatalogAdapter} {spec : EnvironmentSpec} {w : World}
variable {setup : EnvironmentSetup} {w' : World}

omit [Rfc3339] in
/-- A generated catalog is what an unpinned spec resolves to, if records carry the
ownership flag. -/
theorem catalogRequest_resolvedSpec {prior : Option EnvironmentSetup}
    (hflag : ∀ setup, prior = some setup → setup.catalogOwnedByPhlo.isSome = true) :
    (catalogRequest (resolvedSpec spec prior)).catalog = resolveCatalog spec prior := by
  by_cases hpinned : catalogIsPinned spec prior = true
  · simp [catalogRequest, resolvedSpec, hpinned]
  · have hgenerated : (catalogRequest (resolvedSpec spec prior)).catalog =
        catalogName spec.candidateRef := by
      simp [catalogRequest, resolvedSpec, hpinned]
    rw [hgenerated]
    simp only [catalogIsPinned, Bool.or_eq_true, not_or, Bool.not_eq_true,
      Option.isSome_eq_false_iff, Option.isNone_iff_eq_none] at hpinned
    obtain ⟨hnone, hbinding⟩ := hpinned
    cases prior with
    | none => simp [resolveCatalog, hnone]
    | some setup =>
      simp only [Option.any_some, priorRecordsBinding] at hbinding
      cases hstatus : setup.catalogStatus with
      | created => simp [hstatus] at hbinding
      | unverified => simp [hstatus, hflag setup rfl] at hbinding
      | unmanaged =>
        have hcatalog : setup.catalog = catalogName spec.candidateRef := by
          simpa [hstatus] using hbinding
        simp [resolveCatalog, hnone, hcatalog]

/-- What a set-up candidate owes to the bindings recorded before. -/
structure Provisioned (adapter : CatalogAdapter) (spec : EnvironmentSpec) (w : World)
    (setup : EnvironmentSetup) : Prop where
  name : setup.candidate.name = spec.candidateRef
  flagged : setup.catalogOwnedByPhlo.isSome = true
  catalog : setup.catalog = resolveCatalog spec (bindingOf w.evidence spec.candidateRef)
  unclaimed : ∀ candidate other, bindingOf w.evidence candidate = some other →
    other.catalog = setup.catalog → candidate = spec.candidateRef
  owned : setup.ownsCatalog = true →
    (∃ request, adapter.ensureCatalog request = .ok .created ∧
      request.reference = some spec.candidateRef ∧ request.catalog = setup.catalog) ∨
    ∃ prior, bindingOf w.evidence spec.candidateRef = some prior ∧
      prior.catalog = setup.catalog ∧ prior.ownsCatalog = true
  provenance : ∀ base, setup.createdFrom = some base →
    w.references.get? spec.candidateRef = none ∨
    (spec.candidateRef = spec.baseRef ∧ w.references.get? spec.candidateRef = some base) ∨
    ∃ prior, bindingOf w.evidence spec.candidateRef = some prior ∧
      prior.createdFrom = some base

theorem Consistent.provisioned (h : Consistent w) {s : World}
    (hrun : candidateSetup true adapter spec w = (.ok setup, s)) :
    World.OnlyReferences w s ∧ Provisioned adapter spec w setup := by
  obtain ⟨prior, claims, raw, r, t, hprior, hclaims, hunclaimed, hraw, _, rfl⟩ :=
    candidateSetup_eq_ok hrun
  have hread : Same w r := by
    have hsame := h.same_read spec.candidateRef
    rwa [hprior] at hsame
  have hlisted : Same r t := by
    have hsame := (hread.consistent h).same_claims
    rwa [hclaims] at hsame
  have hsame : Same w t := hread.trans hlisted
  have hbinding := h.read_eq hprior
  obtain ⟨hleaves, hname, hsettled, hbase, hfrom, hstatus, hcatalog⟩ := ensureEnvironment_eq_ok hraw
  have hresolved : raw.catalog = resolveCatalog spec prior := by
    rw [hcatalog]
    refine catalogRequest_resolvedSpec fun found hfound => ?_
    rw [hbinding] at hfound
    exact (h.of_binding hfound).2.1
  refine ⟨hsame.toOnlyReferences.trans hleaves, hname, rfl, ?_, ?_, ?_, ?_⟩
  · rw [← hbinding]
    exact hresolved
  · intro candidate other hother hclash
    have hlive : bindingOf r.evidence candidate = some other := by
      rw [hread.evidence]
      exact hother
    rw [← (h.of_binding hother).1]
    exact hunclaimed other ((hread.consistent h).claims hclaims hlive) (hclash.trans hresolved)
  · intro howned
    simp only [attributed, EnvironmentSetup.ownsCatalog, Option.getD_some] at howned
    cases hreported : raw.catalogStatus with
    | created =>
      rw [hreported] at hstatus
      exact Or.inl ⟨_, hstatus, rfl, hcatalog.symm⟩
    | unverified =>
      rw [hreported] at howned
      cases hfound : prior with
      | none => simp [hfound] at howned
      | some found =>
        obtain ⟨hsamecatalog, hfoundowns⟩ : found.catalog = raw.catalog ∧
            found.ownsCatalog = true := by
          simpa [hfound, EnvironmentSetup.ownsCatalog] using howned
        exact Or.inr ⟨found, hbinding.symm.trans hfound, hsamecatalog, hfoundowns⟩
    | unmanaged =>
      rw [hreported] at howned
      cases howned
  · intro base hcreatedFrom
    have hreferences := hsame.references
    rcases hsettled with ⟨hkept, _⟩ | ⟨_, habsent, _⟩
    · by_cases hself : spec.candidateRef = spec.baseRef
      · refine Or.inr (Or.inl ⟨hself, ?_⟩)
        have hfrombase : raw.createdFrom = some raw.base :=
          hfrom.trans (if_pos (Or.inr hself))
        rw [attributed, hfrombase] at hcreatedFrom
        cases hcreatedFrom
        rw [← hreferences, hself]
        exact hbase
      · have hunknown : raw.createdFrom = none := by
          rw [hfrom, if_neg]
          rintro (hcreated | hsameName)
          · rw [hkept] at hcreated
            cases hcreated
          · exact hself hsameName
        simp only [attributed, hunknown, Option.none_or] at hcreatedFrom
        obtain ⟨found, hfound, hfoundFrom⟩ := Option.bind_eq_some_iff.1 hcreatedFrom
        exact Or.inr (Or.inr ⟨found, hbinding.symm.trans hfound, hfoundFrom⟩)
    · rw [hname, hreferences] at habsent
      exact Or.inl habsent

/-! ## What is written -/

omit [Sha256] in
/-- The binding was recorded, as far as the writes went. -/
structure Rebound (setup : EnvironmentSetup) (w w' : World) : Prop where
  evidence : w'.evidence = w.evidence ∨ ∃ evidenceId now, IsTimestamp now ∧
    w'.evidence = w.evidence ++ [environmentRecord setup evidenceId now]
  entries : ∀ entry ∈ w'.files.environments.rows, entry ∈ w.files.environments.rows ∨
    entry.2 = setup ∧
      (entry.1 = "environment.json" ∨ entry.1 = environmentArtifactName setup.candidate.name)
  known : w'.files = w.files ∨ ∃ record ∈ w'.evidence, record.kind = .environment ∧
    record.subject = setup.candidate.name

section Writing

variable {record : EvidenceRecord}

omit [Sha256]

/-- Only the artifact files changed, and only to hold the binding. -/
structure Filed (setup : EnvironmentSetup) (w w' : World) : Prop where
  evidence : w'.evidence = w.evidence
  entries : ∀ entry ∈ w'.files.environments.rows, entry ∈ w.files.environments.rows ∨
    entry.2 = setup ∧
      (entry.1 = "environment.json" ∨ entry.1 = environmentArtifactName setup.candidate.name)

omit [Rfc3339] in
theorem Filed.refl (setup : EnvironmentSetup) (w : World) : Filed setup w w :=
  ⟨rfl, fun _ hentry => Or.inl hentry⟩

omit [Rfc3339] in
theorem Filed.trans {setup : EnvironmentSetup} {w w' w'' : World} (h : Filed setup w w')
    (h' : Filed setup w' w'') : Filed setup w w'' := by
  refine ⟨h'.evidence.trans h.evidence, fun entry hentry => ?_⟩
  rcases h'.entries entry hentry with hold | hnew
  · exact h.entries entry hold
  · exact Or.inr hnew

instance (setup : EnvironmentSetup) : Std.Refl (Filed setup) :=
  ⟨Filed.refl setup⟩

instance (setup : EnvironmentSetup) : IsTrans World (Filed setup) :=
  ⟨fun _ _ _ => Filed.trans⟩

section

omit [Rfc3339]

theorem filed_putEnvironment {setup : EnvironmentSetup} {name : String}
    (hname : name = "environment.json" ∨ name = environmentArtifactName setup.candidate.name) :
    Program.Advances (Filed setup)
      (World.writeFiles fun files => files.putEnvironment name setup) := by
  have hcall : Program.Advances (Filed setup) World.call := by
    intro w
    obtain ⟨hleaves, _⟩ := World.call_leaves w
    refine ⟨hleaves.evidence, fun entry hentry => Or.inl ?_⟩
    rwa [hleaves.files] at hentry
  refine hcall.bind fun _ w => ⟨rfl, fun entry hentry => ?_⟩
  rcases Table.mem_put.1 hentry with rfl | ⟨hold, _⟩
  · exact Or.inr ⟨rfl, hname⟩
  · exact Or.inl hold

theorem filed_files (setup : EnvironmentSetup) : Program.Advances (Filed setup) (do
    World.writeFiles fun files => files.putEnvironment "environment.json" setup
    World.writeFiles fun files =>
      files.putEnvironment (environmentArtifactName setup.candidate.name) setup) :=
  (filed_putEnvironment (Or.inl rfl)).bind fun _ => filed_putEnvironment (Or.inr rfl)

theorem same_of_recordEvidence_error {w w' : World} {message : String}
    (h : World.recordEvidence record w = (.error message, w')) : Same w w' := by
  rcases Program.bind_eq_error.1 h with hcall | ⟨_, _, _, hmodify⟩
  · exact same_call.of_run hcall
  · cases hmodify

theorem files_of_recordEvidence {w w' : World} (h : World.recordEvidence record w = (.ok (), w')) :
    w'.files = w.files := by
  obtain ⟨_, s, hcall, hmodify⟩ := Program.bind_eq_ok.1 h
  cases hmodify
  exact (same_call.of_run hcall).files

end

/-- Whatever fails, the store is written before the files. -/
theorem rebound_of_write {setup : EnvironmentSetup} {w w' : World} {r : Except String Unit}
    (hnow : ∀ n, IsTimestamp (w.supply.now n))
    (hrun : writeEnvironmentArtifacts true setup w = (r, w')) : Rebound setup w w' := by
  have hdrawn : writeEnvironmentArtifacts true setup w = (do
      let rows ← World.evidenceFor .environment setup.candidate.name
      if isUnchanged (environmentRecord setup (w.supply.evidenceId w.tick)
          (w.supply.now w.tick)) rows then pure ()
      else World.recordEvidence (environmentRecord setup (w.supply.evidenceId w.tick)
          (w.supply.now w.tick))
      World.writeFiles fun files => files.putEnvironment "environment.json" setup
      World.writeFiles fun files =>
        files.putEnvironment (environmentArtifactName setup.candidate.name) setup :
        Program World String Unit) { w with tick := w.tick + 1 } := rfl
  rw [hdrawn] at hrun
  generalize hrecord : environmentRecord setup (w.supply.evidenceId w.tick)
    (w.supply.now w.tick) = record at hrun
  rcases hread : World.evidenceFor .environment setup.candidate.name
    { w with tick := w.tick + 1 } with ⟨message | rows, s⟩
  · rw [Program.bind_of_error hread] at hrun
    cases hrun
    have hsame := (same_evidenceFor _ _).of_run hread
    exact ⟨Or.inl hsame.evidence, fun entry hentry => Or.inl (by rwa [hsame.files] at hentry),
      Or.inl hsame.files⟩
  · rw [Program.bind_of_ok hread] at hrun
    have hsame := (same_evidenceFor _ _).of_run hread
    obtain ⟨_, hrows⟩ := World.evidenceFor_eq_ok hread
    have hfiled : ∀ {v : World}, v.files = w.files → Filed setup v w' →
        ∀ entry ∈ w'.files.environments.rows, entry ∈ w.files.environments.rows ∨
          entry.2 = setup ∧ (entry.1 = "environment.json" ∨
            entry.1 = environmentArtifactName setup.candidate.name) := by
      intro v hfiles h
      rw [← hfiles]
      exact h.entries
    by_cases hunchanged : isUnchanged record rows = true
    · simp only [hunchanged, if_true] at hrun
      have hwritten := (filed_files setup).of_run hrun
      have hevidence : w'.evidence = w.evidence := hwritten.evidence.trans hsame.evidence
      refine ⟨Or.inl hevidence, hfiled hsame.files hwritten, Or.inr ?_⟩
      rw [hevidence]
      rw [← hrecord] at hunchanged
      obtain ⟨existing, hmem, hkind, hsubject, _⟩ := World.mem_of_isUnchanged hrows hunchanged
      exact ⟨existing, hmem, hkind, hsubject⟩
    · simp only [hunchanged] at hrun
      rcases Program.run_bind_cases hrun with ⟨message, hfailed⟩ | ⟨_, v, hrecorded, hfiles⟩
      · have hleft := hsame.trans (same_of_recordEvidence_error hfailed)
        exact ⟨Or.inl hleft.evidence, fun entry hentry => Or.inl (by rwa [hleft.files] at hentry),
          Or.inl hleft.files⟩
      · have hwritten := (filed_files setup).of_run hfiles
        have hevidence : w'.evidence = w.evidence ++ [record] := by
          rw [hwritten.evidence, World.recordEvidence_eq_ok hrecorded, hsame.evidence]
        refine ⟨Or.inr ⟨_, _, hnow w.tick, hevidence.trans (by rw [hrecord])⟩,
          hfiled ((files_of_recordEvidence hrecorded).trans hsame.files) hwritten,
          Or.inr ⟨record, ?_, ?_, ?_⟩⟩
        · rw [hevidence]
          exact List.mem_append_right _ (List.mem_singleton_self record)
        · rw [← hrecord]
          rfl
        · rw [← hrecord]
          rfl

end Writing

/-- Ensuring a candidate records its binding or changes no evidence. -/
theorem Consistent.ensure (h : Consistent w) (hnow : ∀ n, IsTimestamp (w.supply.now n))
    {r : Except EngineError EnvironmentSetup} (hrun : ensureCandidate true adapter spec w = (r, w'))
    :
    (w'.evidence = w.evidence ∧ w'.files = w.files) ∨
      ∃ setup s, candidateSetup true adapter spec w = (.ok setup, s) ∧
        Provisioned adapter spec w setup ∧ Rebound setup w w' := by
  rcases Program.run_bind_cases hrun with ⟨error, hfailed⟩ | ⟨setup, s, hsetup, hrest⟩
  · obtain ⟨t, hread, hleaves, _⟩ := candidateSetup_eq_error hfailed
    have hsame : Same w t := by
      rcases hread with rfl | ⟨prior, v, hprior, rfl⟩
      · exact h.same_read _
      · have hfirst : Same w v := by
          have hread := h.same_read spec.candidateRef
          rwa [hprior] at hread
        exact hfirst.trans (hfirst.consistent h).same_claims
    exact Or.inl ⟨hleaves.evidence.trans hsame.evidence, hleaves.files.trans hsame.files⟩
  · obtain ⟨hleaves, hprovisioned⟩ := h.provisioned hsetup
    obtain ⟨outcome, hwrite⟩ : ∃ outcome,
        writeEnvironmentArtifacts true setup s = (outcome, w') := by
      rcases Program.run_bind_cases hrest with ⟨error, hfailed⟩ | ⟨_, v, hdone, hpure⟩
      · obtain ⟨message, hfailed, _⟩ := Program.mapError_eq_error.1 hfailed
        exact ⟨_, hfailed⟩
      · cases hpure
        exact ⟨_, Program.mapError_eq_ok.1 hdone⟩
    have hnow' : ∀ n, IsTimestamp (s.supply.now n) := by
      rw [hleaves.supply]
      exact hnow
    have hrebound := rebound_of_write hnow' hwrite
    refine Or.inr ⟨setup, s, hsetup, hprovisioned, ?_, ?_, ?_⟩
    · rw [← hleaves.evidence]
      exact hrebound.evidence
    · rw [← hleaves.files]
      exact hrebound.entries
    · rw [← hleaves.files]
      exact hrebound.known

omit [Sha256] in
/-- A candidate's other bindings, and other candidates' bindings, stay. -/
theorem Rebound.binding (h : Consistent w) (hrebound : Rebound setup w w') (candidate : String) :
    bindingOf w'.evidence candidate = bindingOf w.evidence candidate ∨
      candidate = setup.candidate.name ∧ bindingOf w'.evidence candidate = some setup := by
  rcases hrebound.evidence with hsame | ⟨evidenceId, now, hnow, happend⟩
  · rw [hsame]
    exact Or.inl rfl
  · rw [happend]
    by_cases hname : setup.candidate.name = candidate
    · subst hname
      rcases bindingOf_append_self hnow h.stamps with hnew | hold
      · exact Or.inr ⟨rfl, hnew⟩
      · exact Or.inl hold
    · exact Or.inl (bindingOf_append_other hname)

omit [Sha256] in
theorem Rebound.consistent (h : Consistent w) (hflag : setup.catalogOwnedByPhlo.isSome = true)
    (hrebound : Rebound setup w w') : Consistent w' := by
  have hrecords : ∀ record ∈ w'.evidence, record ∈ w.evidence ∨ ∃ evidenceId now,
      IsTimestamp now ∧ record = environmentRecord setup evidenceId now := by
    intro record hrecord
    rcases hrebound.evidence with hsame | ⟨evidenceId, now, hnow, happend⟩
    · rw [hsame] at hrecord
      exact Or.inl hrecord
    · rw [happend] at hrecord
      rcases List.mem_append.1 hrecord with hold | hnew
      · exact Or.inl hold
      · exact Or.inr ⟨evidenceId, now, hnow, List.mem_singleton.1 hnew⟩
  have hkeep : ∀ record ∈ w.evidence, record ∈ w'.evidence := by
    intro record hrecord
    rcases hrebound.evidence with hsame | ⟨_, _, _, happend⟩
    · rwa [hsame]
    · rw [happend]
      exact List.mem_append_left _ hrecord
  constructor
  · intro record hrecord hkind
    rcases hrecords record hrecord with hold | ⟨evidenceId, now, hnow, rfl⟩
    · exact h.stamps record hold hkind
    · exact hnow
  · intro record hrecord hkind
    rcases hrecords record hrecord with hold | ⟨evidenceId, now, hnow, rfl⟩
    · exact h.decodes record hold hkind
    · exact ⟨setup, rfl, rfl, hflag⟩
  · rintro other ⟨entry, hentry, rfl⟩
    rcases hrebound.entries entry hentry with hold | ⟨hsetup, _⟩
    · obtain ⟨record, hrecord, hkind, hsubject⟩ := h.known entry.2 ⟨entry, hold, rfl⟩
      exact ⟨record, hkeep record hrecord, hkind, hsubject⟩
    · rcases hrebound.known with hsame | ⟨record, hrecord, hkind, hsubject⟩
      · rw [hsame] at hentry
        obtain ⟨record, hrecord, hkind, hsubject⟩ := h.known entry.2 ⟨entry, hentry, rfl⟩
        exact ⟨record, hkeep record hrecord, hkind, hsubject⟩
      · exact ⟨record, hrecord, hkind, by rw [hsetup]; exact hsubject⟩
  · intro entry hentry
    rcases hrebound.entries entry hentry with hold | ⟨hsetup, hnamed⟩
    · exact h.named entry hold
    · rw [hsetup]
      exact hnamed

end Ensuring

/-! ## Forgetting a candidate -/

/-- The artifact files once a candidate's own are gone. -/
def filesWithout (files : ArtifactFiles) (candidate : String) : ArtifactFiles :=
  let files := files.removeEnvironment (environmentArtifactName candidate)
  if (files.environmentAt "environment.json").any fun setup =>
      decide (setup.candidate.name = candidate) then
    files.removeEnvironment "environment.json"
  else files

theorem removeEnvironmentArtifacts_run (candidate : String) {w : World} (hfaults : w.faults = []) :
    removeEnvironmentArtifacts true candidate w =
      (.ok (), { w with
        files := filesWithout w.files candidate
        evidence := w.evidence.filter fun record =>
          decide ¬ (record.kind = .environment ∧ record.subject = candidate) }) := by
  obtain ⟨references, store, evidence, files, faults, supply, tick⟩ := w
  subst hfaults
  unfold filesWithout
  by_cases hslot : (((files.removeEnvironment (environmentArtifactName candidate)).environmentAt
      "environment.json").any fun setup => decide (setup.candidate.name = candidate)) = true
  · simp [removeEnvironmentArtifacts, removeArtifactFile, World.writeFiles, World.readFile,
      World.call, World.removeEvidence, Program.mapError, Program.bind_run, hslot]
  · simp [removeEnvironmentArtifacts, removeArtifactFile, World.writeFiles, World.readFile,
      World.call, World.removeEvidence, Program.mapError, Program.bind_run, hslot]

theorem mem_rows_removeEnvironment {name : String} :
    entry ∈ (files.removeEnvironment name).environments.rows ↔
      entry ∈ files.environments.rows ∧ entry.1 ≠ name := by
  simp [ArtifactFiles.removeEnvironment, Table.erase]

theorem mem_filesWithout {candidate : String}
    (hnamed : entry ∈ files.environments.rows → entry.1 = "environment.json" ∨
      entry.1 = environmentArtifactName entry.2.candidate.name)
    (h : entry ∈ (filesWithout files candidate).environments.rows) :
    entry ∈ files.environments.rows ∧ entry.2.candidate.name ≠ candidate := by
  have hown : entry ∈ files.environments.rows ∧
      entry.1 ≠ environmentArtifactName candidate ∧
      (entry.1 = "environment.json" → entry.2.candidate.name ≠ candidate) := by
    unfold filesWithout at h
    dsimp only at h
    split at h
    · rw [mem_rows_removeEnvironment, mem_rows_removeEnvironment] at h
      exact ⟨h.1.1, h.1.2, fun hslot => absurd hslot h.2⟩
    · next hslot =>
        obtain ⟨hmem, hne⟩ := mem_rows_removeEnvironment.1 h
        refine ⟨hmem, hne, fun hname heq => hslot ?_⟩
        have hget : (files.removeEnvironment (environmentArtifactName candidate)).environments.get?
            "environment.json" = some entry := by
          rw [← hname]
          exact (Table.mem_rows_iff _ entry).1 h
        simp [ArtifactFiles.environmentAt, hget, heq]
  obtain ⟨hmem, hname, hslot⟩ := hown
  refine ⟨hmem, fun heq => ?_⟩
  rcases hnamed hmem with hname' | hname'
  · exact hslot hname' heq
  · exact hname (heq ▸ hname')

section Sessions

variable [Sha256] [Rfc3339]
variable {candidate : String} {w' : World} {s : Session} {call : Call}

omit [Sha256] in
theorem Consistent.remove {w : World} (h : Consistent w)
    (hevidence : w'.evidence = w.evidence.filter fun record =>
      decide ¬ (record.kind = .environment ∧ record.subject = candidate))
    (hfiles : w'.files = filesWithout w.files candidate) : Consistent w' := by
  have hrecords : ∀ record ∈ w'.evidence, record ∈ w.evidence := by
    intro record hrecord
    rw [hevidence] at hrecord
    exact (List.mem_filter.1 hrecord).1
  constructor
  · exact fun record hrecord => h.stamps record (hrecords record hrecord)
  · exact fun record hrecord => h.decodes record (hrecords record hrecord)
  · rintro setup ⟨entry, hentry, rfl⟩
    rw [hfiles] at hentry
    obtain ⟨hmem, hother⟩ := mem_filesWithout (h.named entry) hentry
    obtain ⟨record, hrecord, hkind, hsubject⟩ := h.known entry.2 ⟨entry, hmem, rfl⟩
    refine ⟨record, ?_, hkind, hsubject⟩
    rw [hevidence, List.mem_filter]
    refine ⟨hrecord, decide_eq_true fun hremoved => hother ?_⟩
    exact hsubject.symm.trans hremoved.2
  · intro entry hentry
    rw [hfiles] at hentry
    exact h.named entry (mem_filesWithout (h.named entry) hentry).1

/-! ## Sessions -/

omit [Sha256] in
/-- What a call meets: which service calls fail, and the ids and times it draws. -/
structure Surroundings where
  faults : List (Option String)
  supply : Supply
  stamps : ∀ n, IsTimestamp (supply.now n)

omit [Sha256] in
def Surroundings.enter (around : Surroundings) (w : World) : World :=
  { w with faults := around.faults, supply := around.supply }

/-- A call of the workspace's, or moves of the references by other clients. -/
inductive Call where
  | ensure (around : Surroundings) (adapter : CatalogAdapter) (spec : EnvironmentSpec)
  | resolve (around : Surroundings) (context : EnvironmentContext)
      (environment : Option String) (baseRef : String)
  | remove (candidate : String)
  | move (references : References)

def Call.run (call : Call) (w : World) : World :=
  match call with
  | .ensure around adapter spec => (ensureCandidate true adapter spec (around.enter w)).2
  | .resolve around context environment baseRef =>
    (context.resolve environment baseRef .readOnly (around.enter w)).2
  | .remove candidate => (removeEnvironmentArtifacts true candidate { w with faults := [] }).2
  | .move references => { w with references := references }

/-- The world and the calls so far, newest first, each with the world it found. -/
structure Session where
  now : World
  past : List (World × Call)

def session : StepSystem Session Call where
  step s call := some { now := call.run s.now, past := (s.now, call) :: s.past }

/-- The live binding of a candidate, as the code reads it. -/
def liveBinding (w : World) (candidate : String) : Option EnvironmentSetup :=
  match (readEnvironmentFor true candidate { w with faults := [] }).1 with
  | .ok binding => binding
  | .error _ => none

/-- The commit that a candidate is recorded as created from. -/
def recordedCommit (w : World) (candidate : String) : Option String :=
  (liveBinding w candidate).bind fun setup => setup.createdFrom.map ReferenceInfo.hash

/-- The commits recorded in the latest worlds, newest first, in which the branch exists. -/
def commitsWhile (candidate : String) : List World → List String
  | [] => []
  | w :: rest =>
    if (w.references.get? candidate).isSome then
      (recordedCommit w candidate).toList ++ commitsWhile candidate rest
    else []

/-- The commits that a candidate was recorded as created from since its branch last
came into existence. -/
def commitsSince (candidate : String) (s : Session) : List String :=
  commitsWhile candidate (s.now :: s.past.map Prod.fst)

/-- The call saw the adapter report that it created the catalog for the candidate. -/
def Call.SawCreated (w : World) (candidate catalog : String) : Call → Prop
  | .ensure around adapter spec => spec.candidateRef = candidate ∧
      (∃ setup s, candidateSetup true adapter spec (around.enter w) = (.ok setup, s)) ∧
      ∃ request, adapter.ensureCatalog request = .ok .created ∧
        request.reference = some candidate ∧ request.catalog = catalog
  | _ => False

/-- What holds between the bindings of a session. -/
structure Isolated (s : Session) : Prop where
  isolation : ∀ candidate other setup otherSetup,
    liveBinding s.now candidate = some setup → liveBinding s.now other = some otherSetup →
    setup.catalog = otherSetup.catalog → candidate = other
  /-- The recorded provenance does not change while the branch exists. -/
  provenance : ∀ candidate, ∀ commit ∈ commitsSince candidate s,
    ∀ other ∈ commitsSince candidate s, commit = other
  /-- A catalog is owned where the adapter reported its creation. -/
  ownership : ∀ candidate setup, liveBinding s.now candidate = some setup →
    setup.ownsCatalog = true → ∃ entry ∈ s.past, entry.2.SawCreated entry.1 candidate setup.catalog
  agreement : ∀ (around around' : Surroundings) (context : EnvironmentContext)
    (adapter : CatalogAdapter) (environment baseRef catalog : String)
    (target : EnvironmentTarget) (setup : EnvironmentSetup) (w w' : World),
    context.stateful = true →
    context.resolve (some environment) baseRef .readOnly (around.enter s.now) = (.ok target, w) →
    target.catalog = some catalog →
    ensureCandidate true adapter (context.spec environment baseRef) (around'.enter w) =
      (.ok setup, w') →
    setup.catalog = catalog

/-- A candidate that is ensured as its own base is still at every commit that it was
recorded as created from since its branch came into existence. -/
def Call.KeepsProvenance (s : Session) : Call → Prop
  | .ensure _ _ spec => spec.candidateRef = spec.baseRef →
      ∀ commit ∈ commitsSince spec.candidateRef s,
        s.now.references.head spec.candidateRef = some commit
  | _ => True

/-! ## Every session -/

omit [Sha256] in
theorem Consistent.liveBinding_eq {w : World} (h : Consistent w) (candidate : String) :
    liveBinding w candidate = bindingOf w.evidence candidate := by
  have hcalm : Consistent { w with faults := [] } := h.of_eq rfl rfl
  rcases hrun : readEnvironmentFor true candidate { w with faults := [] } with ⟨error | found, w'⟩
  · exact absurd hrun (hcalm.read_ne_error rfl)
  · rw [liveBinding, hrun]
    exact hcalm.read_eq hrun

/-- The invariant of sessions. -/
structure SessionInvariant (s : Session) : Prop where
  consistent : Consistent s.now
  isolation : ∀ candidate other setup otherSetup,
    bindingOf s.now.evidence candidate = some setup →
    bindingOf s.now.evidence other = some otherSetup →
    setup.catalog = otherSetup.catalog → candidate = other
  provenance : ∀ candidate, ∀ commit ∈ commitsSince candidate s,
    ∀ other ∈ commitsSince candidate s, commit = other
  ownership : ∀ candidate setup, bindingOf s.now.evidence candidate = some setup →
    setup.ownsCatalog = true → ∃ entry ∈ s.past, entry.2.SawCreated entry.1 candidate setup.catalog

section

omit [Sha256]

theorem commitsSince_push (s : Session) (w' : World) (call : Call) (candidate : String) :
    commitsSince candidate { now := w', past := (s.now, call) :: s.past } =
      if (w'.references.get? candidate).isSome then
        (recordedCommit w' candidate).toList ++ commitsSince candidate s
      else [] :=
  rfl

theorem mem_commitsSince {commit : String}
    (hexists : (s.now.references.get? candidate).isSome = true)
    (hcommit : recordedCommit s.now candidate = some commit) :
    commit ∈ commitsSince candidate s := by
  rw [commitsSince, commitsWhile, if_pos hexists, hcommit]
  exact List.mem_cons_self ..

theorem commitsSince_of_absent (habsent : ¬ (s.now.references.get? candidate).isSome = true) :
    commitsSince candidate s = [] :=
  if_neg habsent

theorem Consistent.recordedCommit_eq {w : World} (h : Consistent w) (candidate : String) :
    recordedCommit w candidate = (bindingOf w.evidence candidate).bind fun setup =>
      setup.createdFrom.map ReferenceInfo.hash := by
  rw [recordedCommit, h.liveBinding_eq]

end

/-- A step keeps the invariant when the bindings stay apart, are owned where they
should be, and a branch that was there keeps its provenance. -/
theorem SessionInvariant.push (h : SessionInvariant s) (hconsistent : Consistent w')
    (hisolation : ∀ candidate other setup otherSetup,
      bindingOf w'.evidence candidate = some setup →
      bindingOf w'.evidence other = some otherSetup →
      setup.catalog = otherSetup.catalog → candidate = other)
    (hcommit : ∀ candidate commit, recordedCommit w' candidate = some commit →
      (s.now.references.get? candidate).isSome = true →
      ∀ other ∈ commitsSince candidate s, commit = other)
    (hownership : ∀ candidate setup, bindingOf w'.evidence candidate = some setup →
      setup.ownsCatalog = true → call.SawCreated s.now candidate setup.catalog ∨
        ∃ entry ∈ s.past, entry.2.SawCreated entry.1 candidate setup.catalog) :
    SessionInvariant { now := w', past := (s.now, call) :: s.past } where
  consistent := hconsistent
  isolation := hisolation
  provenance := by
    intro candidate commit hmem other hother
    rw [commitsSince_push] at hmem hother
    by_cases hexists : (w'.references.get? candidate).isSome = true
    · rw [if_pos hexists, List.mem_append, Option.mem_toList] at hmem hother
      have hagree : ∀ {commit}, recordedCommit w' candidate = some commit →
          ∀ other ∈ commitsSince candidate s, commit = other := by
        intro commit hnew other hother
        by_cases hbefore : (s.now.references.get? candidate).isSome = true
        · exact hcommit candidate commit hnew hbefore other hother
        · rw [commitsSince_of_absent hbefore] at hother
          cases hother
      rcases hmem with hnew | hold <;> rcases hother with hnew' | hold'
      · rw [hnew] at hnew'
        exact Option.some.inj hnew'
      · exact hagree hnew other hold'
      · exact (hagree hnew' commit hold).symm
      · exact h.provenance candidate commit hold other hold'
    · rw [if_neg hexists] at hmem
      cases hmem
  ownership := by
    intro candidate setup hbinding howns
    rcases hownership candidate setup hbinding howns with hnow | ⟨entry, hentry, hsaw⟩
    · exact ⟨(s.now, call), List.mem_cons_self .., hnow⟩
    · exact ⟨entry, List.mem_cons_of_mem _ hentry, hsaw⟩

theorem SessionInvariant.push_of_fewer (h : SessionInvariant s) (hconsistent : Consistent w')
    (hfewer : ∀ candidate setup, bindingOf w'.evidence candidate = some setup →
      bindingOf s.now.evidence candidate = some setup) :
    SessionInvariant { now := w', past := (s.now, call) :: s.past } := by
  refine h.push hconsistent ?_ ?_ ?_
  · intro candidate other setup otherSetup hbinding hother
    exact h.isolation candidate other setup otherSetup (hfewer _ _ hbinding) (hfewer _ _ hother)
  · intro candidate commit hcommit hexists other hother
    rw [hconsistent.recordedCommit_eq] at hcommit
    obtain ⟨setup, hbinding, hfrom⟩ := Option.bind_eq_some_iff.1 hcommit
    have hrecorded : recordedCommit s.now candidate = some commit := by
      rw [h.consistent.recordedCommit_eq, hfewer candidate setup hbinding]
      exact hfrom
    exact h.provenance candidate commit (mem_commitsSince hexists hrecorded) other hother
  · intro candidate setup hbinding howns
    exact Or.inr (h.ownership candidate setup (hfewer _ _ hbinding) howns)

/-- Ensuring a candidate keeps the invariant, unless it rewrites its provenance. -/
theorem SessionInvariant.ensure {s : Session} (h : SessionInvariant s) {around : Surroundings}
    {adapter : CatalogAdapter} {spec : EnvironmentSpec}
    (hkeeps : Call.KeepsProvenance s (.ensure around adapter spec)) {w' : World}
    {r : Except EngineError EnvironmentSetup}
    (hrun : ensureCandidate true adapter spec (around.enter s.now) = (r, w')) :
    SessionInvariant { now := w', past := (s.now, .ensure around adapter spec) :: s.past } := by
  have henter : Consistent (around.enter s.now) := h.consistent.of_eq rfl rfl
  rcases henter.ensure around.stamps hrun with hsame | hrebinds
  · have hconsistent := henter.of_eq hsame.1 hsame.2
    refine h.push_of_fewer hconsistent fun candidate setup hbinding => ?_
    rw [hsame.1] at hbinding
    exact hbinding
  obtain ⟨setup, t, hsetup, hprovisioned, hrebound⟩ := hrebinds
  have hconsistent := hrebound.consistent henter hprovisioned.flagged
  have hbinding : ∀ candidate,
      bindingOf w'.evidence candidate = bindingOf s.now.evidence candidate ∨
        candidate = spec.candidateRef ∧ bindingOf w'.evidence candidate = some setup := by
    intro candidate
    rcases hrebound.binding henter candidate with hold | ⟨hname, hnew⟩
    · exact Or.inl hold
    · exact Or.inr ⟨hname.trans hprovisioned.name, hnew⟩
  refine h.push hconsistent ?_ ?_ ?_
  · intro candidate other found otherFound hfound hother hcatalog
    rcases hbinding candidate with hold | ⟨hname, hnew⟩ <;>
      rcases hbinding other with hold' | ⟨hname', hnew'⟩
    · rw [hold] at hfound
      rw [hold'] at hother
      exact h.isolation candidate other found otherFound hfound hother hcatalog
    · rw [hold] at hfound
      rw [hnew'] at hother
      cases hother
      rw [hname']
      exact hprovisioned.unclaimed candidate found hfound hcatalog
    · rw [hnew] at hfound
      rw [hold'] at hother
      cases hfound
      rw [hname]
      exact (hprovisioned.unclaimed other otherFound hother hcatalog.symm).symm
    · rw [hname, hname']
  · intro candidate commit hcommit hexists other hother
    rw [hconsistent.recordedCommit_eq] at hcommit
    have hrecorded : ∀ {prior base}, bindingOf s.now.evidence candidate = some prior →
        prior.createdFrom = some base → commit = base.hash → commit = other := by
      intro prior base hprior hfrom heq
      refine h.provenance candidate commit (mem_commitsSince hexists ?_) other hother
      rw [h.consistent.recordedCommit_eq, hprior, Option.bind_some, hfrom, heq]
      rfl
    rcases hbinding candidate with hold | ⟨hname, hnew⟩
    · rw [hold] at hcommit
      obtain ⟨prior, hprior, hfrom⟩ := Option.bind_eq_some_iff.1 hcommit
      obtain ⟨base, hbase, hhash⟩ := Option.map_eq_some_iff.1 hfrom
      exact hrecorded hprior hbase hhash.symm
    · rw [hnew, Option.bind_some] at hcommit
      obtain ⟨base, hbase, hhash⟩ := Option.map_eq_some_iff.1 hcommit
      rcases hprovisioned.provenance base hbase with habsent | ⟨hself, hhead⟩ | hprior
      · rw [hname] at hexists
        rw [show s.now.references.get? spec.candidateRef = none from habsent] at hexists
        cases hexists
      · subst hname
        have hcurrent := hkeeps hself other hother
        have hhead' : s.now.references.head spec.candidateRef = some base.hash :=
          congrArg (Option.map ReferenceInfo.hash) hhead
        rw [hhead', Option.some.injEq] at hcurrent
        exact hhash.symm.trans hcurrent
      · obtain ⟨prior, hprior, hfrom⟩ := hprior
        rw [← hname] at hprior
        exact hrecorded hprior hfrom hhash.symm
  · intro candidate found hfound howns
    rcases hbinding candidate with hold | ⟨hname, hnew⟩
    · rw [hold] at hfound
      exact Or.inr (h.ownership candidate found hfound howns)
    · rw [hnew] at hfound
      cases hfound
      rcases hprovisioned.owned howns with ⟨request, hcreated, hreference, hcatalog⟩ | hprior
      · refine Or.inl ⟨hname.symm, ⟨setup, t, hsetup⟩, request, hcreated, ?_, hcatalog⟩
        rw [hname]
        exact hreference
      · obtain ⟨prior, hprior, hcatalog, hpriorowns⟩ := hprior
        rw [← hname] at hprior
        rw [← hcatalog]
        exact Or.inr (h.ownership candidate prior hprior hpriorowns)

theorem Consistent.same_resolve {w : World} (h : Consistent w) (context : EnvironmentContext)
    (environment : Option String) (baseRef : String) :
    Same w (context.resolve environment baseRef .readOnly w).2 := by
  have hread : ∀ candidate, Same w (readEnvironmentFor context.stateful candidate w).2 := by
    intro candidate
    cases context.stateful with
    | true => exact h.same_read candidate
    | false =>
      have hfiles : Program.Advances Same (readEnvironmentEvidence false candidate) :=
        (same_readEnvironmentFiles candidate).bind fun _ => Program.Advances.pure _
      exact hfiles.bind (fun _ => Program.Advances.pure _) w
  unfold EnvironmentContext.resolve
  cases environment with
  | none => exact Same.refl w
  | some environment =>
    dsimp only
    split
    · exact Same.refl w
    · cases context.adapter with
      | none => exact Same.refl w
      | some adapter =>
        cases context.nessieUri with
        | none => exact Same.refl w
        | some uri =>
          refine Program.Advances.bind_at (hread environment) fun prior s _ => ?_
          split
          · exact Same.refl s
          · exact Same.refl s

theorem SessionInvariant.step (h : SessionInvariant s) (hkeeps : call.KeepsProvenance s) :
    SessionInvariant { now := call.run s.now, past := (s.now, call) :: s.past } := by
  cases call with
  | ensure around adapter spec => exact h.ensure hkeeps (Prod.ext rfl rfl)
  | resolve around context environment baseRef =>
    have henter : Consistent (around.enter s.now) := h.consistent.of_eq rfl rfl
    have hsame := henter.same_resolve context environment baseRef
    refine h.push_of_fewer (hsame.consistent henter) fun candidate setup hbinding => ?_
    have hevidence : ((Call.resolve around context environment baseRef).run s.now).evidence =
        s.now.evidence := hsame.evidence
    rw [hevidence] at hbinding
    exact hbinding
  | remove candidate =>
    have hrun := removeEnvironmentArtifacts_run candidate (w := { s.now with faults := [] }) rfl
    have hend : (Call.remove candidate).run s.now = _ := congrArg Prod.snd hrun
    rw [hend]
    refine h.push_of_fewer (h.consistent.remove rfl rfl) fun other setup hbinding => ?_
    by_cases hother : other = candidate
    · subst hother
      have hnone := bindingOf_removed_self s.now.evidence other
      rw [show bindingOf _ other = none from hnone] at hbinding
      cases hbinding
    · rw [← bindingOf_removed_other s.now.evidence hother]
      exact hbinding
  | move references =>
    exact h.push_of_fewer (h.consistent.of_eq rfl rfl) fun _ _ hbinding => hbinding

/-- A preview that names a catalog resolved it from the live binding. -/
theorem Consistent.resolve_eq_some {w : World} (h : Consistent w) {context : EnvironmentContext}
    {environment baseRef catalog : String} {target : EnvironmentTarget}
    (hstateful : context.stateful = true)
    (hrun : context.resolve (some environment) baseRef .readOnly w = (.ok target, w'))
    (hcatalog : target.catalog = some catalog) :
    catalog = resolveCatalog (context.spec environment baseRef)
      (bindingOf w.evidence environment) := by
  unfold EnvironmentContext.resolve at hrun
  dsimp only at hrun
  split at hrun
  · cases hrun
    cases hcatalog
  · cases hadapter : context.adapter with
    | none =>
      rw [hadapter] at hrun
      cases hrun
    | some adapter =>
      cases huri : context.nessieUri with
      | none =>
        rw [hadapter, huri] at hrun
        cases hrun
      | some uri =>
        rw [hadapter, huri] at hrun
        obtain ⟨prior, s, hprior, hrun⟩ := Program.bind_eq_ok.1 hrun
        rw [hstateful] at hprior
        have hbinding := h.read_eq hprior
        split at hrun
        · cases hrun
        · cases hrun
          rw [← hbinding]
          exact (Option.some.inj hcatalog).symm

/-- The invariant gives what is promised of the bindings. -/
theorem SessionInvariant.isolated (h : SessionInvariant s) : Isolated s where
  isolation := by
    intro candidate other setup otherSetup hbinding hother hcatalog
    rw [h.consistent.liveBinding_eq] at hbinding hother
    exact h.isolation candidate other setup otherSetup hbinding hother hcatalog
  provenance := h.provenance
  ownership := by
    intro candidate setup hbinding howns
    rw [h.consistent.liveBinding_eq] at hbinding
    exact h.ownership candidate setup hbinding howns
  agreement := by
    intro around around' context adapter environment baseRef catalog target setup w w' hstateful
      hresolve hcatalog hensure
    have henter : Consistent (around.enter s.now) := h.consistent.of_eq rfl rfl
    have hsame : Same (around.enter s.now) w := by
      have hresolved := henter.same_resolve context (some environment) baseRef
      rwa [hresolve] at hresolved
    have hnamed := henter.resolve_eq_some hstateful hresolve hcatalog
    have henter' : Consistent (around'.enter w) := (hsame.consistent henter).of_eq rfl rfl
    obtain ⟨t, hsetup, _⟩ := ensureCandidate_eq_ok hensure
    have hprovisioned := (henter'.provisioned hsetup).2.catalog
    have hevidence : (around'.enter w).evidence = (around.enter s.now).evidence := hsame.evidence
    rw [hevidence] at hprovisioned
    exact hprovisioned.trans hnamed.symm

/-- A session that starts without evidence, and in which no candidate is ensured as its
own base away from its recorded provenance, keeps its candidates isolated. -/
theorem isolated_of_run {w : World} (hevidence : w.evidence = [])
    (hfiles : w.files.environments = Table.empty) {calls : List Call} {s : Session}
    (hkeeps : session.EachStep (fun s call => call.KeepsProvenance s) { now := w, past := [] } calls)
    (hrun : session.run { now := w, past := [] } calls = some s) : Isolated s := by
  have hconsistent : Consistent w := Consistent.empty hevidence hfiles
  have hunbound : ∀ candidate, bindingOf w.evidence candidate = none := by
    intro candidate
    rw [hevidence]
    rfl
  have hstart : SessionInvariant { now := w, past := [] } := by
    refine ⟨hconsistent, ?_, ?_, ?_⟩
    · intro candidate other setup otherSetup hbinding
      rw [hunbound] at hbinding
      cases hbinding
    · intro candidate commit hmem
      have hnone : commitsSince candidate { now := w, past := [] } = [] := by
        have hcommit : recordedCommit w candidate = none := by
          rw [hconsistent.recordedCommit_eq, hunbound]
          rfl
        simp [commitsSince, commitsWhile, hcommit]
      rw [hnone] at hmem
      cases hmem
    · intro candidate setup hbinding
      rw [hunbound] at hbinding
      cases hbinding
  have hinvariant : ∀ (calls : List Call) (s : Session) (call : Call) (s' : Session),
      SessionInvariant s → call.KeepsProvenance s → session.step s call = some s' →
      SessionInvariant s' := by
    intro _ s call s' hs hcall hstep
    cases hstep
    exact hs.step hcall
  have hend : SessionInvariant s :=
    @StepSystem.run_history _ _ session (fun _ s => SessionInvariant s) _ hinvariant calls _ s []
      hstart hkeeps hrun
  exact hend.isolated

end Sessions

/-! ## A candidate that is its own base -/

namespace Sample

def newYear : @Surroundings januaryClock :=
  let _ := januaryClock
  { faults := []
    supply :=
      { evidenceId := fun n => "evidence-" ++ toString n
        now := fun _ => "2026-01-01T00:00:00.000000000Z" }
    stamps := fun _ => ⟨_, rfl⟩ }

def freshWorkspace : @Session januaryClock :=
  @Session.mk januaryClock { fullDisk with faults := [] } []

def cutAndAdvanced : List (@Call januaryClock) :=
  let _ := januaryClock
  [.ensure newYear creatingAdapter pullRequest,
    .move ((References.seed Table.empty "main" "aaa").seed "ci/pr-1" "bbb")]

def ensuredOnItself : List (@Call januaryClock) :=
  let _ := januaryClock
  cutAndAdvanced ++ [.ensure newYear creatingAdapter { pullRequest with baseRef := "ci/pr-1" }]

end Sample

/-- The branch exists throughout, and its recorded provenance moves from `aaa` to `bbb`. -/
theorem provenance_rewritten :
    ∃ s, (@session pullRequestDigest januaryClock).run Sample.freshWorkspace
        Sample.ensuredOnItself = some s ∧
      @commitsSince januaryClock "ci/pr-1" s = ["bbb", "aaa", "aaa"] ∧
      ¬ @Isolated pullRequestDigest januaryClock s := by
  let _ := pullRequestDigest
  let _ := januaryClock
  refine ⟨_, rfl, by decide +kernel, fun h => ?_⟩
  have hsame := h.provenance "ci/pr-1" "bbb" (by decide +kernel) "aaa" (by decide +kernel)
  exact absurd hsame (by decide)

theorem isolated_of_run_cutAndAdvanced :
    ∃ s, (@session pullRequestDigest januaryClock).run Sample.freshWorkspace
        Sample.cutAndAdvanced = some s ∧
      (@liveBinding januaryClock (@Session.now januaryClock s) "ci/pr-1").map EnvironmentSetup.catalog =
        some "phlo_ci_pr_1_ec50ab1c" ∧ @Isolated pullRequestDigest januaryClock s := by
  let _ := pullRequestDigest
  let _ := januaryClock
  have hkeeps : session.EachStep (fun s call => call.KeepsProvenance s) Sample.freshWorkspace
      Sample.cutAndAdvanced := by
    refine ⟨fun hself => ?_, fun s' _ => ⟨trivial, fun _ _ => trivial⟩⟩
    exact absurd hself (by decide)
  refine ⟨_, rfl, by decide +kernel, ?_⟩
  exact @isolated_of_run _ _ Sample.freshWorkspace.now rfl rfl _ _ hkeeps rfl

end PhloTransform.Engine
