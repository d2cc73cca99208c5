import Mathlib.Data.List.Destutter
import PhloTransform.Core.ModelVersions
import PhloTransform.Library.JsonText
import PhloTransform.Library.Lines

/-!
# What a version tells about the sources

A version is a digest of digests, and the version of a model holds the versions of the
models that it reads.  With a digest that keeps texts apart, the state of a source can be
seen in the version of every model that draws on the source.

Main results:

- Theorem `modelVersions_eq`: without a cycle, every version is derived from the final
  versions of the dependencies.
- Theorem `hash_eq_blank_iff`: a model has the version that it has without source states
  exactly when all the sources it draws on are in a blank state.
-/

namespace PhloTransform.Core

open Library (cut_inj length_unlines length_unlines_le toList_unlines unlines unlines_inj)

variable {pair : String × String}

/-! ## Texts behind a version -/

/-- No two texts have one digest, and a digest stands on one line. -/
structure CollisionFree [Sha256] : Prop where
  injective : Function.Injective Sha256.hex
  oneLine : ∀ text, '\n' ∉ (Sha256.hex text).toList

/-- A digest that quotes its text. -/
@[reducible]
def quotedDigest : Sha256 where
  hex text := String.ofList (Library.quoted text)

theorem collisionFree_quotedDigest : @CollisionFree quotedDigest := by
  let _ := quotedDigest
  constructor
  · intro a b h
    exact Library.prefixCode_quoted.injective (String.ofList_injective h)
  · intro text
    change '\n' ∉ (String.ofList (Library.quoted text)).toList
    rw [String.toList_ofList]
    exact Library.newline_notMem_quoted text

theorem sortDedup_perm (pairs : List (String × String)) :
    ∃ sorted : List (Lex (String × String)), sorted.Perm (pairs.map toLex) ∧
      sortDedup pairs = sorted.dedup.map ofLex := by
  refine ⟨(pairs.map toLex).insertionSort (· ≤ ·), List.perm_insertionSort _ _, ?_⟩
  rw [sortDedup, (List.pairwise_insertionSort (· ≤ ·) (pairs.map toLex)).destutter_eq_dedup]

@[simp]
theorem mem_sortDedup {pairs : List (String × String)} : pair ∈ sortDedup pairs ↔ pair ∈ pairs := by
  obtain ⟨sorted, hperm, hsort⟩ := sortDedup_perm pairs
  have hmem : toLex pair ∈ sorted.dedup ↔ pair ∈ pairs := by
    rw [List.mem_dedup, hperm.mem_iff, List.mem_map_of_injective toLex.injective]
  rw [hsort, ← hmem]
  exact List.mem_map_of_injective ofLex.injective

theorem nodup_sortDedup (pairs : List (String × String)) : (sortDedup pairs).Nodup := by
  obtain ⟨sorted, -, hsort⟩ := sortDedup_perm pairs
  rw [hsort]
  exact sorted.nodup_dedup.map ofLex.injective

theorem newline_notMem_equation (hname : '\n' ∉ pair.1.toList) (hvalue : '\n' ∉ pair.2.toList) :
    '\n' ∉ (equation pair).toList := by
  simp [equation, hname, hvalue]

theorem equation_inj {pair' : String × String} (h : '=' ∉ pair.1.toList) (h' : '=' ∉ pair'.1.toList)
    (heq : equation pair = equation pair') : pair = pair' := by
  have htext : pair.1.toList ++ '=' :: pair.2.toList = pair'.1.toList ++ '=' :: pair'.2.toList := by
    simpa [equation] using congrArg String.toList heq
  obtain ⟨hname, hvalue⟩ := cut_inj h h' htext
  exact Prod.ext (String.toList_injective hname) (String.toList_injective hvalue)

/-- Names without `=` and values on one line are read back from their lines. -/
theorem unlines_equation_inj {pairs pairs' : List (String × String)}
    (h : ∀ pair ∈ pairs, '=' ∉ pair.1.toList ∧ '\n' ∉ pair.2.toList)
    (h' : ∀ pair ∈ pairs', '=' ∉ pair.1.toList ∧ '\n' ∉ pair.2.toList)
    (heq : (unlines (pairs.map equation)).toList = (unlines (pairs'.map equation)).toList) :
    pairs = pairs' := by
  have htext : ∀ (pair : String × String) (rest : List Char),
      (equation pair).toList ++ ['\n'] ++ rest =
        pair.1.toList ++ '=' :: (pair.2.toList ++ '\n' :: rest) := by
    intro pair rest
    simp [equation]
  simp only [toList_unlines, List.flatMap_map] at heq
  induction pairs generalizing pairs' with
  | nil =>
    cases pairs' with
    | nil => rfl
    | cons pair' pairs' => simp at heq
  | cons pair pairs ih =>
    cases pairs' with
    | nil => simp at heq
    | cons pair' pairs' =>
      rw [List.forall_mem_cons] at h h'
      rw [List.flatMap_cons, List.flatMap_cons, htext, htext] at heq
      obtain ⟨hname, hrest⟩ := cut_inj h.1.1 h'.1.1 heq
      obtain ⟨hvalue, hrest⟩ := cut_inj h.1.2 h'.1.2 hrest
      rw [ih h.2 h'.2 hrest, Prod.ext (String.toList_injective hname)
        (String.toList_injective hvalue)]

theorem ModelId.equals_notMem_logicalName (id : ModelId) : '=' ∉ id.logicalName.toList :=
  fun hmem => absurd (id.isNameChar_of_mem_logicalName hmem) (by decide)

namespace CollisionFree

variable [Sha256] (hsha : CollisionFree)
include hsha

theorem hashLines_inj {lines lines' : List String} (h : ∀ line ∈ lines, '\n' ∉ line.toList)
    (h' : ∀ line ∈ lines', '\n' ∉ line.toList) (heq : hashLines lines = hashLines lines') :
    lines = lines' :=
  unlines_inj h h' (hsha.injective heq)

theorem newline_notMem_components (inputs : VersionInputs) :
    ∀ line ∈ [("sql", Sha256.hex inputs.canonicalSql), ("config", Sha256.hex inputs.config),
      ("contract", Sha256.hex inputs.contract),
      ("dependencies", hashLines ((sortDedup inputs.dependencies).map equation)),
      ("sources", hashLines ((sortDedup inputs.sources).map equation)),
      ("compiler", toString compilerSemanticsVersion),
      ("target", Sha256.hex inputs.target)].map equation, '\n' ∉ line.toList := by
  intro line hline
  obtain ⟨pair, hpair, rfl⟩ := List.mem_map.1 hline
  have hnames : ∀ name ∈ ["sql", "config", "contract", "dependencies", "sources", "compiler",
      "target"], '\n' ∉ name.toList := by
    decide
  apply newline_notMem_equation
  · exact hnames _ (List.mem_map_of_mem (f := Prod.fst) hpair)
  · simp only [List.mem_cons, List.not_mem_nil, or_false] at hpair
    rcases hpair with rfl | rfl | rfl | rfl | rfl | rfl | rfl
    case inr.inr.inr.inr.inr.inl =>
      change '\n' ∉ (toString compilerSemanticsVersion).toList
      decide
    all_goals exact hsha.oneLine _

theorem components_inj {inputs inputs' : VersionInputs}
    (h : (modelVersion inputs).hash = (modelVersion inputs').hash) :
    inputs.canonicalSql = inputs'.canonicalSql ∧ inputs.config = inputs'.config ∧
      inputs.contract = inputs'.contract ∧
      hashLines ((sortDedup inputs.dependencies).map equation) =
        hashLines ((sortDedup inputs'.dependencies).map equation) ∧
      hashLines ((sortDedup inputs.sources).map equation) =
        hashLines ((sortDedup inputs'.sources).map equation) ∧ inputs.target = inputs'.target := by
  have hlines := hsha.hashLines_inj (hsha.newline_notMem_components inputs)
    (hsha.newline_notMem_components inputs') h
  simp only [List.map_cons, List.map_nil, List.cons.injEq] at hlines
  obtain ⟨hsql, hconfig, hcontract, hdependencies, hsources, -, htarget, -⟩ := hlines
  have hvalue : ∀ {name value value' : String}, '=' ∉ name.toList →
      equation (name, value) = equation (name, value') → value = value' :=
    fun hname heq => congrArg Prod.snd (equation_inj hname hname heq)
  exact ⟨hsha.injective (hvalue (by decide) hsql), hsha.injective (hvalue (by decide) hconfig),
    hsha.injective (hvalue (by decide) hcontract), hvalue (by decide) hdependencies,
    hvalue (by decide) hsources, hsha.injective (hvalue (by decide) htarget)⟩

/-- Pairs of names without `=` and of values on one line are told by their digest. -/
theorem pairs_inj {pairs pairs' : List (String × String)}
    (h : ∀ pair ∈ pairs, '=' ∉ pair.1.toList ∧ '\n' ∉ pair.2.toList)
    (h' : ∀ pair ∈ pairs', '=' ∉ pair.1.toList ∧ '\n' ∉ pair.2.toList)
    (heq : hashLines ((sortDedup pairs).map equation) =
      hashLines ((sortDedup pairs').map equation)) (pair : String × String) :
    pair ∈ pairs ↔ pair ∈ pairs' := by
  have htext := congrArg String.toList (hsha.injective heq)
  have hsorted := unlines_equation_inj (fun pair hpair => h pair (mem_sortDedup.1 hpair))
    (fun pair hpair => h' pair (mem_sortDedup.1 hpair)) htext
  rw [← mem_sortDedup, hsorted, mem_sortDedup]

/-- Equal digests of dependencies give every dependency one hash. -/
theorem dependencies_inj {ids : List ModelId} {hash hash' : ModelId → String}
    (h : ∀ id, '\n' ∉ (hash id).toList) (h' : ∀ id, '\n' ∉ (hash' id).toList)
    (heq : hashLines ((sortDedup (ids.map fun id => (id.logicalName, hash id))).map equation) =
      hashLines ((sortDedup (ids.map fun id => (id.logicalName, hash' id))).map equation))
    {id : ModelId} (hid : id ∈ ids) : hash id = hash' id := by
  have hplain : ∀ hash : ModelId → String, (∀ id, '\n' ∉ (hash id).toList) →
      ∀ pair ∈ ids.map fun id => (id.logicalName, hash id),
        '=' ∉ pair.1.toList ∧ '\n' ∉ pair.2.toList := by
    rintro hash h _ hpair
    obtain ⟨id, -, rfl⟩ := List.mem_map.1 hpair
    exact ⟨id.equals_notMem_logicalName, h id⟩
  have hmem := (hsha.pairs_inj (hplain hash h) (hplain hash' h') heq (id.logicalName, hash id)).1
    (List.mem_map_of_mem hid)
  obtain ⟨other, -, hother⟩ := List.mem_map.1 hmem
  obtain rfl : other = id := ModelId.logicalName_injective (congrArg Prod.fst hother)
  exact (congrArg Prod.snd hother).symm

/-- Sources have the digest of blank sources only when they are blank: any state makes the
text longer. -/
theorem sources_blank {sources : List SourceId} {state : SourceId → String}
    (heq : hashLines ((sortDedup (sources.map fun source =>
        (source.logicalName, state source))).map equation) =
      hashLines ((sortDedup (sources.map fun source => (source.logicalName, ""))).map equation))
    {source : SourceId} (hsource : source ∈ sources) : state source = "" := by
  by_contra hstate
  have hlength := congrArg String.length (hsha.injective heq)
  have hshorter :
      (unlines (((sortDedup (sources.map fun source => (source.logicalName, state source))).map
        fun pair => (pair.1, "")).map equation)).length <
      (unlines ((sortDedup (sources.map fun source =>
        (source.logicalName, state source))).map equation)).length := by
    rw [length_unlines, length_unlines, List.map_map, List.map_map, List.map_map]
    apply List.sum_lt_sum
    · intro pair _
      simp [equation]
    · refine ⟨(source.logicalName, state source),
        mem_sortDedup.2 (List.mem_map_of_mem hsource), ?_⟩
      have hpos : 0 < (state source).length :=
        Nat.pos_of_ne_zero fun hzero => hstate (String.length_eq_zero_iff.1 hzero)
      simp [equation]
      omega
  have hsub : List.Subperm
      ((sortDedup (sources.map fun source => (source.logicalName, ""))).map equation)
      (((sortDedup (sources.map fun source => (source.logicalName, state source))).map
        fun pair => (pair.1, "")).map equation) := by
    suffices hsub : List.Subperm (sortDedup (sources.map fun source => (source.logicalName, "")))
        ((sortDedup (sources.map fun source => (source.logicalName, state source))).map
          fun pair => (pair.1, "")) by
      obtain ⟨middle, hperm, hsub⟩ := hsub
      exact ⟨middle.map equation, hperm.map _, hsub.map _⟩
    apply (nodup_sortDedup _).subperm
    intro pair hpair
    obtain ⟨other, hother, rfl⟩ := List.mem_map.1 (mem_sortDedup.1 hpair)
    exact List.mem_map.2 ⟨(other.logicalName, state other),
      mem_sortDedup.2 (List.mem_map_of_mem hother), rfl⟩
  have hle := length_unlines_le hsub
  change (unlines _).length = (unlines _).length at hlength
  omega

end CollisionFree

/-! ## Versions over an acyclic graph -/

namespace Compilation

section Versions

variable [Sha256] {lowered : ModelId → LoweredModel} {compilation : Compilation}
  {sourceState : SourceId → Option String}
variable {versions : ModelId → Option ModelVersion} {id : ModelId} {order : List ModelId}
variable {model : CompiledModel}

theorem versionStep_of_ne {other : ModelId} (h : other ≠ id) :
    compilation.versionStep lowered sourceState versions id other = versions other := by
  unfold versionStep
  cases compilation.model id with
  | none => rfl
  | some model => exact Function.update_of_ne h _ _

theorem foldl_versionStep_of_notMem (h : id ∉ order) :
    order.foldl (compilation.versionStep lowered sourceState) versions id = versions id := by
  induction order generalizing versions with
  | nil => rfl
  | cons first order ih =>
    rw [List.mem_cons, not_or] at h
    rw [List.foldl_cons, ih h.2, versionStep_of_ne h.1]

/-- Without a cycle, every version is derived from the final versions of the
dependencies. -/
theorem modelVersions_eq (horder : compilation.topologicalOrder = some order)
    (hmodel : model ∈ compilation.models) :
    compilation.modelVersions lowered sourceState model.id =
      some (modelVersion (versionInputs (lowered model.id) model sourceState
        (compilation.modelVersions lowered sourceState))) := by
  have hmem : model.id ∈ order :=
    Library.DependencyGraph.mem_topologicalOrder horder (List.mem_map_of_mem hmodel)
  have hnodup : order.Nodup := Library.DependencyGraph.topologicalOrder_nodup horder
  have hfirst := Library.DependencyGraph.topologicalOrder_dependencies_first horder
  obtain ⟨pre, post, rfl⟩ := List.append_of_mem hmem
  have hfound := compilation.model_of_mem hmodel
  have hdeps : ∀ dependency ∈ model.modelDependencies, dependency ∈ pre := by
    intro dependency hdependency
    refine hfirst pre model.id post rfl dependency ?_
    change dependency ∈ compilation.modelDependencies model.id
    rwa [Compilation.modelDependencies, hfound]
  obtain ⟨-, hnodup', hdisjoint⟩ := List.nodup_append.1 hnodup
  have hpost := (List.nodup_cons.1 hnodup').1
  have hversions : ∀ id, compilation.modelVersions lowered sourceState id =
      post.foldl (compilation.versionStep lowered sourceState)
        (compilation.versionStep lowered sourceState
          (pre.foldl (compilation.versionStep lowered sourceState) fun _ => none) model.id) id := by
    intro id
    rw [modelVersions, horder, Option.getD_some, List.foldl_append, List.foldl_cons]
  rw [hversions, foldl_versionStep_of_notMem hpost, versionStep, hfound]
  simp only [Function.update_self]
  congr 2
  apply versionInputs_congr
  · intro source _
    rfl
  · intro dependency hdependency
    have hne : dependency ≠ model.id := fun heq =>
      hdisjoint dependency (hdeps _ hdependency) model.id (List.mem_cons_self ..) heq
    have hnotMem : dependency ∉ post := fun hmem =>
      hdisjoint dependency (hdeps _ hdependency) dependency (List.mem_cons_of_mem _ hmem) rfl
    rw [hversions, foldl_versionStep_of_notMem hnotMem, versionStep_of_ne hne]

/-- The hash of the version of a model, empty for a model without one. -/
def versionHash (lowered : ModelId → LoweredModel) (compilation : Compilation)
    (sourceState : SourceId → Option String) (id : ModelId) : String :=
  ((compilation.modelVersions lowered sourceState id).map ModelVersion.hash).getD ""

theorem newline_notMem_versionStep (hsha : CollisionFree)
    (h : ∀ id version, versions id = some version → '\n' ∉ version.hash.toList) (first id : ModelId)
    (version : ModelVersion)
    (hversion : compilation.versionStep lowered sourceState versions first id = some version) :
    '\n' ∉ version.hash.toList := by
  by_cases hid : id = first
  · subst hid
    unfold versionStep at hversion
    cases hmodel : compilation.model id with
    | none =>
      rw [hmodel] at hversion
      exact h id version hversion
    | some model =>
      rw [hmodel] at hversion
      simp only [Function.update_self, Option.some.injEq] at hversion
      subst hversion
      exact hsha.oneLine _
  · rw [versionStep_of_ne hid] at hversion
    exact h id version hversion

theorem newline_notMem_foldl_versionStep (hsha : CollisionFree) (order : List ModelId)
    (h : ∀ id version, versions id = some version → '\n' ∉ version.hash.toList) :
    ∀ id version, order.foldl (compilation.versionStep lowered sourceState) versions id =
      some version → '\n' ∉ version.hash.toList := by
  induction order generalizing versions with
  | nil => exact h
  | cons first order ih => exact ih (newline_notMem_versionStep hsha h first)

theorem newline_notMem_versionHash (hsha : CollisionFree) (id : ModelId) :
    '\n' ∉ (compilation.versionHash lowered sourceState id).toList := by
  unfold versionHash
  cases hversion : compilation.modelVersions lowered sourceState id with
  | none => simp
  | some version =>
    exact newline_notMem_foldl_versionStep hsha _ (fun _ _ h => by cases h) id version hversion

/-- Equal hashes pass to the dependencies, and to the states of the sources. -/
theorem versionHash_inj (hsha : CollisionFree) (horder : compilation.topologicalOrder = some order)
    (hmodel : model ∈ compilation.models)
    (h : compilation.versionHash lowered sourceState model.id =
      compilation.versionHash lowered (fun _ => none) model.id) :
    (∀ id ∈ model.modelDependencies, compilation.versionHash lowered sourceState id =
        compilation.versionHash lowered (fun _ => none) id) ∧
      ∀ source ∈ model.sourceDependencies, (sourceState source).getD "" = "" := by
  have hhash : ∀ sourceState, compilation.versionHash lowered sourceState model.id =
      (modelVersion (versionInputs (lowered model.id) model sourceState
        (compilation.modelVersions lowered sourceState))).hash := by
    intro sourceState
    rw [versionHash, modelVersions_eq horder hmodel, Option.map_some, Option.getD_some]
  rw [hhash, hhash] at h
  obtain ⟨-, -, -, hdependencies, hsources, -⟩ := hsha.components_inj h
  constructor
  · intro id hid
    exact hsha.dependencies_inj (newline_notMem_versionHash hsha)
      (newline_notMem_versionHash hsha) hdependencies hid
  · intro source hsource
    exact hsha.sources_blank hsources hsource

theorem modelVersions_getD (sourceState : SourceId → Option String) :
    compilation.modelVersions lowered sourceState =
      compilation.modelVersions lowered fun source => some ((sourceState source).getD "") :=
  rfl

theorem modelVersions_of_blank
    (h : ∀ source, compilation.DrawsOn id source → (sourceState source).getD "" = "") :
    compilation.modelVersions lowered sourceState id =
      compilation.modelVersions lowered (fun _ => none) id := by
  rw [modelVersions_getD sourceState, modelVersions_getD fun _ => none]
  refine modelVersions_congr (fun source => (sourceState source).getD "" = "") ?_ id h
  intro source hblank
  rw [hblank, Option.getD_none]

/-- A model has the version that it has without source states exactly when all the sources
it draws on are in a blank state. -/
theorem hash_eq_blank_iff (hsha : CollisionFree)
    (horder : compilation.topologicalOrder = some order) :
    compilation.versionHash lowered sourceState id =
        compilation.versionHash lowered (fun _ => none) id ↔
      ∀ source, compilation.DrawsOn id source → (sourceState source).getD "" = "" := by
  constructor
  · rintro h source ⟨reader, hreads, hsource⟩
    have hreader : compilation.versionHash lowered sourceState reader =
        compilation.versionHash lowered (fun _ => none) reader := by
      clear hsource
      induction hreads with
      | refl => exact h
      | tail _ hedge ih =>
        obtain ⟨model, hmodel, rfl, hdependency⟩ := hedge
        exact (versionHash_inj hsha horder hmodel ih).1 _ hdependency
    unfold sourceDependencies at hsource
    split at hsource
    · next model hmodel =>
        obtain rfl := id_of_model hmodel
        exact (versionHash_inj hsha horder (mem_of_model hmodel) hreader).2 source hsource
    · cases hsource
  · intro h
    rw [versionHash, versionHash, modelVersions_of_blank h]

end Versions

end Compilation

end PhloTransform.Core
