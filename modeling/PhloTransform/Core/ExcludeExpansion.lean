import PhloTransform.Core.Selection

/-!
# Expanding exclude terms

An include term takes both of its closures from its base set.  An exclude term takes
the second closure from the set that the first has already expanded: with `+` on both
sides it removes every dependent of every dependency of a matched model, its siblings
among them.

Main results:

- Theorem `Compilation.expandsAlike_iff`: an exclude term removes what the same include
  term selects exactly when it carries one `+` at most or there are no such siblings.
-/

namespace PhloTransform.Core
namespace Compilation

variable {compilation : Compilation} {term : SelectorTerm} {changed : Option (List ModelId)}
  {base : List ModelId}

/-- Excluding a term removes what including it selects, and both are what the term stands
for. -/
def ExpandsAlike (compilation : Compilation) (term : SelectorTerm)
    (changed : Option (List ModelId)) (base : List ModelId) : Prop :=
  ∃ kept removed, compilation.resolveSelection (including term) changed = .ok kept ∧
    compilation.resolveSelection (excluding term) changed = .ok removed ∧
    ∀ id, (id ∈ removed.excludedIds ↔ id ∈ kept.ids) ∧
      (id ∈ kept.ids ↔ compilation.Expansion term base id)

/-- Every reader of a dependency of the base set, near or far, is itself a dependency or a
reader of the base set. -/
def NoSiblings (compilation : Compilation) (base : List ModelId) : Prop :=
  ∀ s ∈ base, ∀ dependency, compilation.Reaches true s dependency →
    ∀ id, compilation.Reaches false dependency id →
      ∃ t ∈ base, compilation.Reaches true t id ∨ compilation.Reaches false t id

theorem mem_excludeTerm_of_expansion {id : ModelId}
    (h : compilation.Expansion term base id) : id ∈ compilation.excludeTerm term base := by
  rw [mem_excludeTerm]
  rcases h with hmem | hup | ⟨hdown, s, hs, hreach⟩
  · exact Or.inl hmem
  · exact Or.inr (Or.inl hup)
  · exact Or.inr (Or.inr ⟨hdown, s, Or.inl hs, hreach⟩)

/-- What the exclude path collects beyond that are readers of dependencies. -/
theorem excludeTerm_eq_expansion_iff :
    (∀ id, id ∈ compilation.excludeTerm term base ↔ compilation.Expansion term base id) ↔
      (term.upstream = true → term.downstream = true → compilation.NoSiblings base) := by
  constructor
  · intro h hup hdown s hs dependency hdependency id hreach
    have hremoved : id ∈ compilation.excludeTerm term base :=
      mem_excludeTerm.2 (Or.inr (Or.inr
        ⟨hdown, dependency, Or.inr ⟨hup, s, hs, hdependency⟩, hreach⟩))
    rcases (h id).1 hremoved with hmem | ⟨-, t, ht, htid⟩ | ⟨-, t, ht, htid⟩
    · exact ⟨id, hmem, Or.inl (Reaches.refl true id)⟩
    · exact ⟨t, ht, Or.inl htid⟩
    · exact ⟨t, ht, Or.inr htid⟩
  · intro h id
    refine ⟨fun hid => ?_, mem_excludeTerm_of_expansion⟩
    rcases mem_excludeTerm.1 hid with hmem | hup | ⟨hdown, s, hs | ⟨hup, t, ht, hts⟩, hreach⟩
    · exact Or.inl hmem
    · exact Or.inr (Or.inl hup)
    · exact Or.inr (Or.inr ⟨hdown, s, hs, hreach⟩)
    · obtain ⟨t', ht', hup' | hdown'⟩ := h hup hdown t ht s hts id hreach
      · exact Or.inr (Or.inl ⟨hup, t', ht', hup'⟩)
      · exact Or.inr (Or.inr ⟨hdown, t', ht', hdown'⟩)

/-- An exclude term removes what the same include term selects exactly when it carries one
`+` at most or the base set has no siblings. -/
theorem expandsAlike_iff (hlisted : TransformGraph.DependenciesListed compilation.models)
    (hbase : compilation.baseMatch term changed = .ok base) :
    compilation.ExpandsAlike term changed base ↔
      (term.upstream = true → term.downstream = true → compilation.NoSiblings base) := by
  obtain ⟨kept, hkept, hmemKept⟩ := mem_ids_of_include hlisted hbase
  obtain ⟨removed, hremoved, hmemRemoved⟩ := mem_excludedIds_of_exclude hbase
  rw [← excludeTerm_eq_expansion_iff]
  constructor
  · rintro ⟨kept', removed', hkept', hremoved', halike⟩ id
    obtain rfl : kept = kept' := Except.ok.inj (hkept.symm.trans hkept')
    obtain rfl : removed = removed' := Except.ok.inj (hremoved.symm.trans hremoved')
    rw [← hmemRemoved, (halike id).1, hmemKept]
  · intro h
    refine ⟨kept, removed, hkept, hremoved, fun id => ⟨?_, hmemKept id⟩⟩
    rw [hmemRemoved, hmemKept, h]

end Compilation

namespace Sample

def forked : Compilation :=
  staged [.model rawModel.id] stageModel.dependencies_nodup (by decide)

def forkedReport : ModelId :=
  (reportModel [.model rawModel.id] stageModel.dependencies_nodup).id

def reportTerm (upstream downstream : Bool) : SelectorTerm where
  upstream := upstream
  downstream := downstream
  kind := .name "assay.report"
  text := (if upstream then "+" else "") ++ "assay.report" ++ if downstream then "+" else ""

end Sample

open Sample

/-- With one `+`, excluding the report removes what including it selects. -/
theorem Compilation.expandsAlike_iff_report :
    forked.ExpandsAlike (reportTerm true false) none [forkedReport] :=
  (Compilation.expandsAlike_iff (show TransformGraph.DependenciesListed forked.models by
    decide +kernel) (show forked.baseMatch (reportTerm true false) none = .ok [forkedReport] by
      decide +kernel)).2 fun _ hdown => absurd hdown (by decide)

/-- `--exclude +assay.report+` removes the stage, which `+assay.report+` does not select. -/
theorem exclude_removes_sibling :
    TransformGraph.DependenciesListed forked.models ∧
      forked.baseMatch (reportTerm true true) none = .ok [forkedReport] ∧
      ¬ forked.ExpandsAlike (reportTerm true true) none [forkedReport] := by
  refine ⟨by decide +kernel, by decide +kernel, ?_⟩
  rintro ⟨kept, removed, hkept, hremoved, halike⟩
  have hkeptIds : (forked.resolveSelection (Compilation.including (reportTerm true true))
      none).toOption.map Selection.ids = some [rawModel.id, forkedReport] := by decide +kernel
  have hremovedIds : (forked.resolveSelection (Compilation.excluding (reportTerm true true))
      none).toOption.map Selection.excludedIds =
        some [rawModel.id, forkedReport, stageModel.id] := by decide +kernel
  rw [hkept] at hkeptIds
  rw [hremoved] at hremovedIds
  have hkeptIds : kept.ids = [rawModel.id, forkedReport] := Option.some.inj hkeptIds
  have hremovedIds : removed.excludedIds = [rawModel.id, forkedReport, stageModel.id] :=
    Option.some.inj hremovedIds
  have hstage : stageModel.id ∈ kept.ids :=
    (halike stageModel.id).1.1 (hremovedIds ▸ by simp)
  rw [hkeptIds] at hstage
  exact absurd hstage (by decide)

end PhloTransform.Core
