import PhloTransform.Core.Graph
import PhloTransform.Library.Worklist

/-!
# Model selection

A selector term matches a base set of models, and each `+` expands it through the
model graph.  Include terms are united, filters intersect, and exclude terms
subtract last, with an expansion of their own.  The origins of a selected model are
kept as a log of the term texts that matched it or pulled it in.

Main results:

- Theorem `Compilation.mem_expand`: an expansion is what the seed reaches.
- Theorem `Compilation.mem_ids_of_include`: what a single include term selects.
-/

namespace PhloTransform.Core

/-! ## Terms -/

/-- What the body of a selector term matches. -/
inductive SelectorKind where
  /-- Model name, `model://` URI, `prefix.*` glob, or a unique suffix. -/
  | name (pattern : String)
  | tag (tag : String)
  | inNamespace (ns : String)
  | source (value : String)
  | changed
  | all
deriving Repr, DecidableEq

/-- One parsed selector term such as `+assay.results`. -/
structure SelectorTerm where
  upstream : Bool
  downstream : Bool
  kind : SelectorKind
  text : String
deriving Repr, DecidableEq

/-- The selector sets that a command resolves. -/
structure SelectorSet where
  include_ : List SelectorTerm := []
  exclude : List SelectorTerm := []
  filter : List SelectorTerm := []
  expandUpstream : Bool := false
  expandDownstream : Bool := false
deriving Repr, DecidableEq

/-- Resolution failures. -/
inductive SelectorError where
  | noMatches (term suggestions : String)
  | ambiguous (term candidates : String)
  | changedUnavailable
deriving Repr, DecidableEq

def SelectorError.message : SelectorError → String
  | noMatches term suggestions => "selector `" ++ term ++ "` matched no models" ++ suggestions
  | ambiguous term candidates => "selector `" ++ term ++ "` is ambiguous\n" ++ candidates
  | changedUnavailable =>
    "the `changed` selector needs recorded state; no change set was supplied"

/-- A model in a resolved selection, with the terms responsible for it. -/
structure SelectedModel where
  id : String
  matched : List String
  expanded : List String
deriving Repr, DecidableEq

/-- The model matched a term and was not only pulled in. -/
def SelectedModel.isDirect (model : SelectedModel) : Bool :=
  !model.matched.isEmpty

/-- The resolved selection: which models are in, and why. -/
structure Selection where
  members : List SelectedModel
  excluded : List String
  terms : List String
  excludeTerms : List String
deriving Repr, DecidableEq

namespace Selection

def ids (selection : Selection) : List ModelId :=
  selection.members.filterMap fun member => (ModelId.parse member.id).toOption

def get (selection : Selection) (id : ModelId) : Option SelectedModel :=
  selection.members.find? fun member => decide (member.id = id.logicalName)

/-- The models removed by exclude terms. -/
def excludedIds (selection : Selection) : List ModelId :=
  selection.excluded.filterMap fun name => (ModelId.parse name).toOption

end Selection

def ModelId.lastSegment (id : ModelId) : String :=
  id.path.getLast id.path_ne_nil

def ordered {α : Type*} [LinearOrder α] (items : List α) : List α :=
  items.dedup.insertionSort (· ≤ ·)

theorem mem_ordered {α : Type*} [LinearOrder α] {items : List α} {a : α} :
    a ∈ ordered items ↔ a ∈ items := by
  rw [ordered, List.mem_insertionSort, List.mem_dedup]

namespace Compilation

variable (compilation : Compilation)
variable {a b id : ModelId} {upstream : Bool} {selection : Selection} {set : SelectorSet}
variable {test : CompiledModel → Bool} {origins : Origins} {members : List SelectedModel}
  {member : SelectedModel}

/-! ## Matching -/

/-- The near misses offered for a name that matched nothing. -/
def suggestions (pattern : String) : List String :=
  let qualified := decide ('.' ∈ pattern.toList)
  let near := (compilation.models.filter fun model =>
    decide (pattern.toList <:+: model.id.logicalName.toList) ||
      decide (pattern.toList <:+ model.id.localName.toList) ||
      decide (model.id.lastSegment = pattern) ||
      (qualified &&
        decide (model.id.ns.toList = pattern.toList.takeWhile (· ≠ '.')))).map
    fun model => model.id.logicalName
  if near.isEmpty && !decide (".*".toList <:+ pattern.toList) &&
      compilation.models.any fun model =>
        decide ((pattern ++ ".").toList <+: model.id.logicalName.toList) then
    [pattern ++ ".*"]
  else near

/-- A "matched no models" error with near-miss suggestions. -/
def noMatch (term : SelectorTerm) : SelectorError :=
  let suggestions := match term.kind with
    | .name pattern =>
      ((compilation.suggestions pattern).dedup.insertionSort (· ≤ ·)).take 5
    | _ => []
  .noMatches term.text
    (if suggestions.isEmpty then ""
    else "\n  did you mean: " ++ ", ".intercalate suggestions)

/-- Name matching: exact name or URI first, then globs, then a unique suffix. -/
def matchName (pattern : String) (term : SelectorTerm) : Except SelectorError (List ModelId) :=
  let exact := match ModelId.parse pattern with
    | .ok id => if (compilation.model id).isSome then some id else none
    | .error _ => none
  match exact with
  | some id => .ok [id]
  | none =>
    if ".*".toList <:+ pattern.toList then
      let glob := String.ofList (pattern.toList.dropLast.dropLast)
      let found := (compilation.models.filter fun model =>
        decide (model.id.logicalName = glob) ||
          decide ((glob ++ ".").toList <+: model.id.logicalName.toList)).map CompiledModel.id
      if found.isEmpty then .error (compilation.noMatch term) else .ok found
    else
      let suffix := (compilation.models.filter fun model =>
        decide (model.id.localName = pattern) ||
          decide (model.id.lastSegment = pattern)).map CompiledModel.id
      match suffix with
      | [] => .error (compilation.noMatch term)
      | [id] => .ok [id]
      | _ => .error (.ambiguous term.text ("candidates:\n" ++
          "\n".intercalate (suffix.map fun id => "  " ++ id.logicalName) ++
          "\nqualify the model name"))

/-- A source selector matches the whole name, a dotted beginning of it, or any part. -/
def matchesSource (value : String) (source : SourceId) : Bool :=
  decide (source.logicalName = value) ||
    decide ((value ++ ".").toList <+: source.logicalName.toList) ||
    decide (value ∈ source.parts)

/-- The models whose configuration, name or reads satisfy a test. -/
def modelsWhere (test : CompiledModel → Bool) : List ModelId :=
  (compilation.models.filter test).map CompiledModel.id

/-- The set of models a term's body matches, before expansion. -/
def baseMatch (term : SelectorTerm) (changed : Option (List ModelId)) :
    Except SelectorError (List ModelId) :=
  let nonEmpty (found : List ModelId) : Except SelectorError (List ModelId) :=
    if found.isEmpty then .error (compilation.noMatch term) else .ok found
  match term.kind with
  | .all => nonEmpty (compilation.modelsWhere fun _ => true)
  | .changed =>
    match changed with
    | some changed => .ok ((ordered changed).filter fun id => (compilation.model id).isSome)
    | none => .error .changedUnavailable
  | .tag tag => nonEmpty (compilation.modelsWhere fun model => decide (tag ∈ model.config.tags))
  | .inNamespace ns => nonEmpty (compilation.modelsWhere fun model => decide (model.id.ns = ns))
  | .source value => nonEmpty (compilation.modelsWhere fun model =>
    model.sourceDependencies.any (matchesSource value))
  | .name pattern => compilation.matchName pattern term

/-! ## Expansion -/

/-- Models that directly depend on a model, sorted. -/
def dependents (id : ModelId) : List ModelId :=
  (compilation.modelsWhere fun model => decide (id ∈ model.modelDependencies)).insertionSort
    (· ≤ ·)

def neighbours (upstream : Bool) (id : ModelId) : List ModelId :=
  if upstream then compilation.modelDependencies id else compilation.dependents id

/-- The transitive closure of a seed in one direction; the seed is included. -/
def expand (seed : List ModelId) (upstream : Bool) : List ModelId :=
  let fuel := seed.dedup.length + (compilation.models.map CompiledModel.id).length +
    (compilation.models.flatMap CompiledModel.modelDependencies).length
  ordered (Library.closeFrom (compilation.neighbours upstream) fuel seed.dedup
    seed.dedup.reverse)

/-- What a term's own expansion pulls in, with the term as origin. -/
def expandTerm (term : SelectorTerm) (base : List ModelId) : List (ModelId × String) :=
  let pulled (upstream : Bool) := ((compilation.expand base upstream).filter fun id =>
    decide (id ∉ base)).map fun id => (id, term.text)
  (if term.upstream then pulled true else []) ++ if term.downstream then pulled false else []

def excludeTerm (term : SelectorTerm) (base : List ModelId) : List ModelId :=
  let removed := base
  let removed := if term.upstream then removed ++ compilation.expand removed true else removed
  if term.downstream then removed ++ compilation.expand removed false else removed

/-! ## Resolution -/

/-- The origins of the models: which terms matched them and which pulled them in. -/
structure Origins where
  matchedBy : List (ModelId × String)
  expandedBy : List (ModelId × String)

def Origins.retain (origins : Origins) (keep : ModelId → Bool) : Origins where
  matchedBy := origins.matchedBy.filter fun entry => keep entry.1
  expandedBy := origins.expandedBy.filter fun entry => keep entry.1

def textsOf (log : List (ModelId × String)) (id : ModelId) : List String :=
  (log.filter fun entry => decide (entry.1 = id)).map Prod.snd

def keysOf (log : List (ModelId × String)) : List ModelId :=
  ordered (log.map Prod.fst)

/-- The include terms; without one, every model matches. -/
def includeAll (set : SelectorSet) (changed : Option (List ModelId)) :
    Except SelectorError Origins :=
  set.include_.foldlM (fun origins term => do
    let base ← compilation.baseMatch term changed
    return {
      matchedBy := origins.matchedBy ++ base.map fun id => (id, term.text)
      expandedBy := origins.expandedBy ++ compilation.expandTerm term base })
    { matchedBy := if set.include_.isEmpty then
        compilation.models.map fun model => (model.id, "*") else []
      expandedBy := [] }

/-- The intersection of the filter terms, if there are any. -/
def filterSet (set : SelectorSet) (changed : Option (List ModelId)) :
    Except SelectorError (Option (List ModelId)) :=
  set.filter.foldlM (fun keep term => do
    let found ← compilation.baseMatch term changed
    return some (match keep with
      | none => found
      | some keep => keep.filter fun id => decide (id ∈ found))) none

/-- The flags `--upstream` and `--downstream` expand the matched models. -/
def expandFlag (upstream : Bool) (text : String) (origins : Origins) : Origins :=
  let seed := keysOf origins.matchedBy
  { origins with
    expandedBy := origins.expandedBy ++ ((compilation.expand seed upstream).filter fun id =>
      decide (id ∉ seed)).map fun id => (id, text) }

/-- The models that the exclude terms remove. -/
def excludeAll (set : SelectorSet) (changed : Option (List ModelId)) :
    Except SelectorError (List ModelId) :=
  set.exclude.foldlM (fun excluded term => do
    let base ← compilation.baseMatch term changed
    return excluded ++ compilation.excludeTerm term base) []

/-- The selected models: those that matched, then those only pulled in. -/
def membersOf (origins : Origins) : List SelectedModel :=
  let matched := keysOf origins.matchedBy
  (matched.map fun id =>
    { id := id.logicalName
      matched := textsOf origins.matchedBy id
      expanded := textsOf origins.expandedBy id }) ++
  (((keysOf origins.expandedBy).filter fun id => decide (id ∉ matched)).map fun id =>
    { id := id.logicalName
      matched := []
      expanded := textsOf origins.expandedBy id })

/-- Sort members topologically, falling back to name order on a cyclic graph.  No two
members share a name. -/
def orderedMembers (members : List SelectedModel) : List SelectedModel :=
  match compilation.topologicalOrder with
  | some order => order.filterMap fun id =>
    members.find? fun member => decide (member.id = id.logicalName)
  | none => members.insertionSort fun a b => a.id ≤ b.id

/-- Resolve a selector set against the compiled workspace.  The set of changed models is
needed by `changed` terms only. -/
def resolveSelection (set : SelectorSet) (changed : Option (List ModelId)) :
    Except SelectorError Selection := do
  let origins ← compilation.includeAll set changed
  let keep ← compilation.filterSet set changed
  let origins := match keep with
    | some keep => origins.retain fun id => decide (id ∈ keep)
    | none => origins
  let origins := if set.expandUpstream then
    compilation.expandFlag true "--upstream" origins else origins
  let origins := if set.expandDownstream then
    compilation.expandFlag false "--downstream" origins else origins
  let excluded ← compilation.excludeAll set changed
  -- Exclusions apply last: an excluded model stays out whatever pulled it in.
  let origins := origins.retain fun id => decide (id ∉ excluded)
  return {
    members := compilation.orderedMembers (membersOf origins)
    excluded := (ordered excluded).map ModelId.logicalName
    terms := set.include_.map SelectorTerm.text
    excludeTerms := set.exclude.map SelectorTerm.text }

/-! ## What an expansion contains -/

variable {compilation}

theorem mem_modelDependencies_iff :
    b ∈ compilation.modelDependencies a ↔ DependsOn compilation.models a b := by
  constructor
  · intro h
    unfold modelDependencies at h
    split at h
    · next model hmodel => exact ⟨model, mem_of_model hmodel, id_of_model hmodel, h⟩
    · cases h
  · rintro ⟨model, hmodel, rfl, hread⟩
    rw [modelDependencies, model_of_mem hmodel]
    exact hread

theorem mem_modelsWhere :
    id ∈ compilation.modelsWhere test ↔
      ∃ model ∈ compilation.models, test model = true ∧ model.id = id := by
  simp [modelsWhere, and_assoc]

theorem mem_dependents : b ∈ compilation.dependents a ↔ DependsOn compilation.models b a := by
  rw [dependents, List.mem_insertionSort, mem_modelsWhere]
  constructor
  · rintro ⟨model, hmodel, hread, rfl⟩
    exact ⟨model, hmodel, rfl, of_decide_eq_true hread⟩
  · rintro ⟨model, hmodel, rfl, hread⟩
    exact ⟨model, hmodel, decide_eq_true hread, rfl⟩

theorem dependents_nodup (id : ModelId) : (compilation.dependents id).Nodup := by
  rw [dependents, (List.perm_insertionSort _ _).nodup_iff, modelsWhere]
  exact compilation.models_nodup.sublist (List.filter_sublist.map _)

/-- One model reaches another along its reads, or along its readers. -/
def Reaches (compilation : Compilation) (upstream : Bool) (a b : ModelId) : Prop :=
  if upstream then Relation.ReflTransGen (DependsOn compilation.models) a b
  else Relation.ReflTransGen (DependsOn compilation.models) b a

theorem Reaches.refl (upstream : Bool) (a : ModelId) : compilation.Reaches upstream a a := by
  cases upstream <;> exact Relation.ReflTransGen.refl

theorem reaches_iff :
    compilation.Reaches upstream a b ↔
      Relation.ReflTransGen (Library.Next (compilation.neighbours upstream)) a b := by
  cases upstream with
  | true =>
    have hrel : Library.Next (compilation.neighbours true) = DependsOn compilation.models := by
      funext x y
      exact propext mem_modelDependencies_iff
    rw [hrel]
    rfl
  | false =>
    have hrel : Library.Next (compilation.neighbours false) =
        Function.swap (DependsOn compilation.models) := by
      funext x y
      exact propext mem_dependents
    rw [hrel, Relation.reflTransGen_swap]
    rfl

theorem mem_expand {seed : List ModelId} :
    id ∈ compilation.expand seed upstream ↔ ∃ s ∈ seed, compilation.Reaches upstream s id := by
  have hnext : ∀ a, (compilation.neighbours upstream a).Nodup := by
    intro a
    cases upstream with
    | true => exact compilation.modelDependencies_nodup a
    | false => exact dependents_nodup a
  have hwithin : ∀ a, ∀ b ∈ compilation.neighbours upstream a,
      b ∈ seed.dedup ++ (compilation.models.map CompiledModel.id ++
        compilation.models.flatMap CompiledModel.modelDependencies) := by
    intro a b hb
    refine List.mem_append_right _ (List.mem_append.2 ?_)
    cases upstream with
    | true =>
      obtain ⟨model, hmodel, -, hread⟩ := mem_modelDependencies_iff.1 hb
      exact Or.inr (List.mem_flatMap.2 ⟨model, hmodel, hread⟩)
    | false =>
      obtain ⟨model, hmodel, hid, -⟩ := mem_dependents.1 hb
      exact Or.inl (List.mem_map.2 ⟨model, hmodel, hid⟩)
  rw [expand, mem_ordered, Library.mem_closeFrom (List.nodup_dedup seed) hnext hwithin
    (fun _ ha => List.mem_append_left _ ha) (by simp [Nat.add_assoc])]
  simp only [List.mem_dedup, reaches_iff]

theorem mem_expandTerm {term : SelectorTerm} {base : List ModelId} {entry : ModelId × String} :
    entry ∈ compilation.expandTerm term base ↔
      entry.2 = term.text ∧ entry.1 ∉ base ∧
        ((term.upstream = true ∧ ∃ s ∈ base, compilation.Reaches true s entry.1) ∨
          term.downstream = true ∧ ∃ s ∈ base, compilation.Reaches false s entry.1) := by
  have hpulled : ∀ upstream, entry ∈ (((compilation.expand base upstream).filter fun id =>
      decide (id ∉ base)).map fun id => (id, term.text)) ↔
        entry.2 = term.text ∧ entry.1 ∉ base ∧
          ∃ s ∈ base, compilation.Reaches upstream s entry.1 := by
    intro upstream
    simp only [List.mem_map, List.mem_filter, mem_expand, decide_eq_true_eq]
    constructor
    · rintro ⟨id, ⟨hreach, hnot⟩, rfl⟩
      exact ⟨rfl, hnot, hreach⟩
    · rintro ⟨htext, hnot, hreach⟩
      exact ⟨entry.1, ⟨hreach, hnot⟩, Prod.ext rfl htext.symm⟩
  unfold expandTerm
  cases hup : term.upstream <;> cases hdown : term.downstream <;>
    simp only [if_true, if_false, Bool.false_eq_true, List.mem_append, List.not_mem_nil,
      hpulled, false_and, true_and, or_false, false_or, and_false]
  rw [← and_or_left, ← and_or_left]

/-- What an exclude term removes: its second closure starts from the first. -/
theorem mem_excludeTerm {term : SelectorTerm} {base : List ModelId} :
    id ∈ compilation.excludeTerm term base ↔
      id ∈ base ∨ (term.upstream = true ∧ ∃ s ∈ base, compilation.Reaches true s id) ∨
        term.downstream = true ∧ ∃ s, (s ∈ base ∨ term.upstream = true ∧
          ∃ t ∈ base, compilation.Reaches true t s) ∧ compilation.Reaches false s id := by
  unfold excludeTerm
  cases hup : term.upstream <;> cases hdown : term.downstream <;>
    simp [mem_expand]

/-! ## The models of a resolved selection -/

def Known (compilation : Compilation) (id : ModelId) : Prop :=
  ∃ model ∈ compilation.models, model.id = id

theorem known_of_reaches (hlisted : TransformGraph.DependenciesListed compilation.models)
    (ha : compilation.Known a) (h : compilation.Reaches upstream a b) : compilation.Known b := by
  cases upstream with
  | true =>
    have h : Relation.ReflTransGen (DependsOn compilation.models) a b := h
    induction h with
    | refl => exact ha
    | tail _ hedge _ =>
      obtain ⟨model, hmodel, -, hread⟩ := hedge
      exact hlisted model hmodel _ hread
  | false =>
    have h : Relation.ReflTransGen (DependsOn compilation.models) b a := h
    induction h using Relation.ReflTransGen.head_induction_on with
    | refl => exact ha
    | head hedge _ _ =>
      obtain ⟨model, hmodel, hid, -⟩ := hedge
      exact ⟨model, hmodel, hid⟩

theorem known_of_mem_modelsWhere (h : id ∈ compilation.modelsWhere test) :
    compilation.Known id := by
  obtain ⟨model, hmodel, -, hid⟩ := mem_modelsWhere.1 h
  exact ⟨model, hmodel, hid⟩

theorem known_of_matchName {pattern : String} {term : SelectorTerm} {found : List ModelId}
    (h : compilation.matchName pattern term = .ok found) :
    ∀ id ∈ found, compilation.Known id := by
  unfold matchName at h
  simp only at h
  split at h
  · next id hexact =>
      cases h
      intro other hother
      rw [List.mem_singleton.1 hother]
      split at hexact
      · next id' _ =>
          split at hexact
          · next hknown =>
              cases hexact
              obtain ⟨model, hmodel⟩ := Option.isSome_iff_exists.1 hknown
              exact ⟨model, mem_of_model hmodel, id_of_model hmodel⟩
          · cases hexact
      · cases hexact
  · split at h
    · split at h
      · cases h
      · cases h
        exact fun id hid => known_of_mem_modelsWhere hid
    · split at h
      · cases h
      · next id hsuffix =>
          cases h
          intro other hother
          have hwhere : other ∈ compilation.modelsWhere fun model =>
              decide (model.id.localName = pattern) ||
                decide (model.id.lastSegment = pattern) := by
            rw [modelsWhere, hsuffix]
            exact hother
          exact known_of_mem_modelsWhere hwhere
      · cases h

theorem known_of_baseMatch {term : SelectorTerm} {changed : Option (List ModelId)}
    {base : List ModelId} (h : compilation.baseMatch term changed = .ok base) :
    ∀ id ∈ base, compilation.Known id := by
  have hwhere : ∀ test, (if (compilation.modelsWhere test).isEmpty then
      Except.error (compilation.noMatch term) else .ok (compilation.modelsWhere test)) =
        Except.ok base → ∀ id ∈ base, compilation.Known id := by
    intro test htest
    split at htest
    · cases htest
    · cases htest
      exact fun id hid => known_of_mem_modelsWhere hid
  unfold baseMatch at h
  cases hkind : term.kind with
  | all => exact hwhere _ (by simpa only [hkind] using h)
  | tag tag => exact hwhere _ (by simpa only [hkind] using h)
  | inNamespace ns => exact hwhere _ (by simpa only [hkind] using h)
  | source value => exact hwhere _ (by simpa only [hkind] using h)
  | name pattern => exact known_of_matchName (by simpa only [hkind] using h)
  | changed =>
    cases hchanged : changed with
    | none => simp [hkind, hchanged] at h
    | some ids =>
      simp only [hkind, hchanged] at h
      cases h
      intro id hid
      obtain ⟨model, hmodel⟩ := Option.isSome_iff_exists.1 (List.mem_filter.1 hid).2
      exact ⟨model, mem_of_model hmodel, id_of_model hmodel⟩

theorem mem_keysOf {log : List (ModelId × String)} :
    id ∈ keysOf log ↔ ∃ entry ∈ log, entry.1 = id := by
  rw [keysOf, mem_ordered, List.mem_map]

def Origins.Has (origins : Origins) (id : ModelId) : Prop :=
  (∃ entry ∈ origins.matchedBy, entry.1 = id) ∨ ∃ entry ∈ origins.expandedBy, entry.1 = id

theorem exists_membersOf_iff {name : String} :
    (∃ member ∈ membersOf origins, member.id = name) ↔
      ∃ id, origins.Has id ∧ id.logicalName = name := by
  simp only [membersOf, List.mem_append, List.mem_map, List.mem_filter, mem_keysOf,
    decide_eq_true_eq, Origins.Has]
  constructor
  · rintro ⟨_, ⟨id, hid, rfl⟩ | ⟨id, ⟨hid, -⟩, rfl⟩, rfl⟩
    · exact ⟨id, Or.inl hid, rfl⟩
    · exact ⟨id, Or.inr hid, rfl⟩
  · rintro ⟨id, hid, rfl⟩
    by_cases hmatched : ∃ entry ∈ origins.matchedBy, entry.1 = id
    · exact ⟨_, Or.inl ⟨id, hmatched, rfl⟩, rfl⟩
    · exact ⟨_, Or.inr ⟨id, ⟨hid.resolve_left hmatched, hmatched⟩, rfl⟩, rfl⟩

theorem mem_of_mem_orderedMembers (h : member ∈ compilation.orderedMembers members) :
    member ∈ members := by
  unfold orderedMembers at h
  split at h
  · obtain ⟨id, -, hfind⟩ := List.mem_filterMap.1 h
    exact List.mem_of_find?_eq_some hfind
  · exact (List.mem_insertionSort _).1 h

theorem exists_orderedMembers (hknown : compilation.Known id)
    (h : ∃ member ∈ members, member.id = id.logicalName) :
    ∃ member ∈ compilation.orderedMembers members, member.id = id.logicalName := by
  obtain ⟨member, hmember, hid⟩ := h
  unfold orderedMembers
  split
  · next order horder =>
      have hmem : id ∈ order := by
        refine Library.DependencyGraph.mem_topologicalOrder horder ?_
        obtain ⟨model, hmodel, rfl⟩ := hknown
        exact List.mem_map_of_mem hmodel
      have hsome : (members.find? fun other =>
          decide (other.id = id.logicalName)).isSome = true := by
        rw [List.find?_isSome]
        exact ⟨member, hmember, decide_eq_true hid⟩
      obtain ⟨found, hfound⟩ := Option.isSome_iff_exists.1 hsome
      exact ⟨found, List.mem_filterMap.2 ⟨id, hmem, hfound⟩, by simpa using List.find?_some hfound⟩
  · exact ⟨member, (List.mem_insertionSort _).2 hmember, hid⟩

/-- The ids of ordered members are the models with an origin. -/
theorem mem_ids_orderedMembers
    (hmembers : selection.members = compilation.orderedMembers (membersOf origins))
    (hknown : ∀ id, origins.Has id → compilation.Known id) :
    id ∈ selection.ids ↔ origins.Has id := by
  simp only [Selection.ids, List.mem_filterMap, hmembers]
  constructor
  · rintro ⟨member, hmember, hparse⟩
    obtain ⟨id', hid', hname⟩ :=
      exists_membersOf_iff.1 ⟨member, mem_of_mem_orderedMembers hmember, rfl⟩
    rw [← hname, ModelId.parse_logicalName] at hparse
    cases hparse
    exact hid'
  · intro hid
    obtain ⟨member, hmember, hname⟩ := exists_orderedMembers (hknown id hid)
      (exists_membersOf_iff.2 ⟨id, hid, rfl⟩)
    refine ⟨member, hmember, ?_⟩
    rw [hname, ModelId.parse_logicalName]
    rfl

theorem mem_excludedIds {excluded : List ModelId}
    (h : selection.excluded = (ordered excluded).map ModelId.logicalName) :
    id ∈ selection.excludedIds ↔ id ∈ excluded := by
  simp only [Selection.excludedIds, List.mem_filterMap, h, List.mem_map, mem_ordered]
  constructor
  · rintro ⟨_, ⟨id', hid', rfl⟩, hparse⟩
    rw [ModelId.parse_logicalName] at hparse
    cases hparse
    exact hid'
  · exact fun hid => ⟨_, ⟨id, hid, rfl⟩, by rw [ModelId.parse_logicalName]; rfl⟩

theorem resolveSelection_eq_ok {changed : Option (List ModelId)}
    (h : compilation.resolveSelection set changed = .ok selection) :
    ∃ (origins : Origins) (excluded : List ModelId),
      selection.members = compilation.orderedMembers
        (membersOf (origins.retain fun id => decide (id ∉ excluded))) ∧
      selection.excluded = (ordered excluded).map ModelId.logicalName := by
  unfold resolveSelection at h
  cases hincluded : compilation.includeAll set changed with
  | error e => simp [hincluded, bind, Except.bind] at h
  | ok origins =>
    cases hkeep : compilation.filterSet set changed with
    | error e => simp [hincluded, hkeep, bind, Except.bind] at h
    | ok keep =>
      cases hexcluded : compilation.excludeAll set changed with
      | error e => simp [hincluded, hkeep, hexcluded, bind, Except.bind] at h
      | ok excluded =>
        simp only [hincluded, hkeep, hexcluded, bind, Except.bind, pure, Except.pure,
          Except.ok.injEq] at h
        subst h
        exact ⟨_, excluded, rfl, rfl⟩

/-- A member of a resolved selection is a model that no term excludes. -/
theorem exists_of_mem_members {changed : Option (List ModelId)}
    (h : compilation.resolveSelection set changed = .ok selection)
    (hmember : member ∈ selection.members) :
    ∃ id, member.id = id.logicalName ∧ id ∉ selection.excludedIds := by
  obtain ⟨origins, excluded, hmembers, hexcluded⟩ := resolveSelection_eq_ok h
  rw [hmembers] at hmember
  obtain ⟨id, hid, hname⟩ :=
    exists_membersOf_iff.1 ⟨member, mem_of_mem_orderedMembers hmember, rfl⟩
  refine ⟨id, hname.symm, ?_⟩
  rw [mem_excludedIds hexcluded]
  simp only [Origins.Has, Origins.retain, List.mem_filter, decide_eq_true_eq] at hid
  rcases hid with ⟨entry, ⟨-, hnot⟩, rfl⟩ | ⟨entry, ⟨-, hnot⟩, rfl⟩
  · exact hnot
  · exact hnot

theorem mem_ids_iff {changed : Option (List ModelId)}
    (h : compilation.resolveSelection set changed = .ok selection) :
    id ∈ selection.ids ↔ (selection.get id).isSome = true := by
  rw [Selection.get, List.find?_isSome, Selection.ids, List.mem_filterMap]
  constructor
  · rintro ⟨member, hmember, hparse⟩
    obtain ⟨id', hname, -⟩ := exists_of_mem_members h hmember
    rw [hname, ModelId.parse_logicalName] at hparse
    obtain rfl : id' = id := Option.some.inj hparse
    exact ⟨member, hmember, decide_eq_true hname⟩
  · rintro ⟨member, hmember, hname⟩
    refine ⟨member, hmember, ?_⟩
    rw [of_decide_eq_true hname, ModelId.parse_logicalName]
    rfl

theorem notMem_excludedIds_of_mem_ids {changed : Option (List ModelId)}
    (h : compilation.resolveSelection set changed = .ok selection) (hid : id ∈ selection.ids) :
    id ∉ selection.excludedIds := by
  rw [Selection.ids, List.mem_filterMap] at hid
  obtain ⟨member, hmember, hparse⟩ := hid
  obtain ⟨id', hname, hnot⟩ := exists_of_mem_members h hmember
  rw [hname, ModelId.parse_logicalName] at hparse
  obtain rfl : id' = id := Option.some.inj hparse
  exact hnot

/-! ## One term -/

def including (term : SelectorTerm) : SelectorSet where
  include_ := [term]

def excluding (term : SelectorTerm) : SelectorSet where
  exclude := [term]

section OneTerm

variable {term : SelectorTerm} {changed : Option (List ModelId)} {base : List ModelId}

/-- What a term stands for: its base set, with the closures that its `+` ask for, each
taken from the base set. -/
def Expansion (compilation : Compilation) (term : SelectorTerm) (base : List ModelId)
    (id : ModelId) : Prop :=
  id ∈ base ∨ (term.upstream = true ∧ ∃ s ∈ base, compilation.Reaches true s id) ∨
    term.downstream = true ∧ ∃ s ∈ base, compilation.Reaches false s id

theorem mem_ids_of_include (hlisted : TransformGraph.DependenciesListed compilation.models)
    (hbase : compilation.baseMatch term changed = .ok base) :
    ∃ selection, compilation.resolveSelection (including term) changed = .ok selection ∧
      ∀ id, id ∈ selection.ids ↔ compilation.Expansion term base id := by
  let origins : Origins := ⟨base.map fun id => (id, term.text), compilation.expandTerm term base⟩
  let selection : Selection :=
    { members := compilation.orderedMembers (membersOf (origins.retain fun _ => true))
      excluded := []
      terms := [term.text]
      excludeTerms := [] }
  have hok : compilation.resolveSelection (including term) changed = .ok selection := by
    simp only [resolveSelection, includeAll, filterSet, excludeAll, including, hbase,
      List.foldlM_cons, List.foldlM_nil]
    rfl
  have hhas : ∀ id, (origins.retain fun _ => true).Has id ↔
      compilation.Expansion term base id := by
    intro id
    simp only [Origins.Has, Origins.retain, List.filter_true, origins, List.mem_map,
      mem_expandTerm, Expansion]
    by_cases hid : id ∈ base
    · simp [hid]
    · constructor
      · rintro (⟨_, ⟨id', hid', rfl⟩, rfl⟩ | ⟨entry, ⟨-, -, hreach⟩, rfl⟩)
        · exact Or.inl hid'
        · exact Or.inr hreach
      · rintro (hmem | hreach)
        · exact absurd hmem hid
        · exact Or.inr ⟨(id, term.text), ⟨rfl, hid, hreach⟩, rfl⟩
  have hknown : ∀ id, (origins.retain fun _ => true).Has id → compilation.Known id := by
    intro id hid
    have hmatched := known_of_baseMatch hbase
    rcases (hhas id).1 hid with hmem | ⟨-, s, hs, hreach⟩ | ⟨-, s, hs, hreach⟩
    · exact hmatched id hmem
    · exact known_of_reaches hlisted (hmatched s hs) hreach
    · exact known_of_reaches hlisted (hmatched s hs) hreach
  exact ⟨selection, hok, fun id => (mem_ids_orderedMembers rfl hknown).trans (hhas id)⟩

/-- A single exclude term removes what its code collects. -/
theorem mem_excludedIds_of_exclude (hbase : compilation.baseMatch term changed = .ok base) :
    ∃ selection, compilation.resolveSelection (excluding term) changed = .ok selection ∧
      ∀ id, id ∈ selection.excludedIds ↔ id ∈ compilation.excludeTerm term base := by
  let excluded := compilation.excludeTerm term base
  let origins : Origins := ⟨compilation.models.map fun model => (model.id, "*"), []⟩
  let selection : Selection :=
    { members := compilation.orderedMembers
        (membersOf (origins.retain fun id => decide (id ∉ excluded)))
      excluded := (ordered excluded).map ModelId.logicalName
      terms := []
      excludeTerms := [term.text] }
  have hok : compilation.resolveSelection (excluding term) changed = .ok selection := by
    simp only [resolveSelection, includeAll, filterSet, excludeAll, excluding, hbase,
      List.foldlM_cons, List.foldlM_nil]
    rfl
  exact ⟨selection, hok, fun id => mem_excludedIds rfl⟩

end OneTerm

end Compilation
end PhloTransform.Core
