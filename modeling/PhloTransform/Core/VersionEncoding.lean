import PhloTransform.Core.VersionTexts
import PhloTransform.Library.JoinedNames

/-!
# What a version tells

A version is a digest over flat texts: what a model is compiled from is joined by plain marks, and
only the strategy is written in an escaped form.  With a digest that keeps texts apart, equal
versions tell the same text, configuration, dependencies and target.  Statements, contracts and
sources are told as far as they hold none of the marks around them.

Main results:

- Theorem `targetSlot_inj`: the target slot tells a schema, whatever is in it.
- Theorem `told_of_hash_eq`: what two models of one version have in common.
-/

namespace PhloTransform.Core

open Library (Closed intercalate_closed_inj)

/-! ## What is versioned -/

section Subjects

variable [Sha256]

/-- What the version inputs of a model are assembled from. -/
structure VersionSubject where
  statements : List String
  model : CompiledModel
  contract : Option ModelContract
  assertions : List Assertion
  sourceState : SourceId → Option String
  versions : ModelId → Option ModelVersion
  /-- A table name is a path of segments joined by underscores. -/
  table_plain : '.' ∉ model.target.table.toList
  /-- The versions of the dependencies were derived from inputs. -/
  versions_derived : ∀ id version, versions id = some version →
    ∃ inputs, version = modelVersion inputs

namespace VersionSubject

variable (subject : VersionSubject)

def canonicalSql : String :=
  ";\n".intercalate subject.statements

/-- `version_inputs`, where `printable` tells the characters that a debug form does not escape. -/
def inputs (printable : Char → Bool) : VersionInputs :=
  versionInputs
    (AnalysisInput.lowered
      { canonicalSql := subject.canonicalSql
        incremental := debugStrategy printable subject.model.config.incremental
        directives := []
        contract := subject.contract } subject.assertions)
    subject.model subject.sourceState subject.versions

/-- The dependencies with their versions. -/
def dependencyVersions : List (ModelId × String) :=
  subject.model.modelDependencies.map fun id =>
    (id, ((subject.versions id).map ModelVersion.hash).getD "")

def sourceStates : List (SourceId × String) :=
  subject.model.sourceDependencies.map fun source =>
    (source, (subject.sourceState source).getD "")

/-- The names of the sources have no dot and no equal sign in them, and their states stand on one
line. -/
def PlainSources : Prop :=
  ∀ pair ∈ subject.sourceStates,
    (∀ part ∈ pair.1.parts, '.' ∉ part.toList ∧ '=' ∉ part.toList) ∧ '\n' ∉ pair.2.toList

end VersionSubject

/-- What two models have in common that are versioned alike. -/
structure Told (a b : VersionSubject) : Prop where
  canonicalSql : a.canonicalSql = b.canonicalSql
  /-- Statements, where the texts close what they open and have no semicolon outside of it. -/
  statements : ∀ {σ : Type} (step : σ → Char → σ) (rest : σ),
    (∀ text ∈ a.statements, text.toList ≠ [] ∧ Closed step rest ';' text.toList) →
    (∀ text ∈ b.statements, text.toList ≠ [] ∧ Closed step rest ';' text.toList) →
    a.statements = b.statements
  materialization : a.model.config.materialization = b.model.config.materialization
  schema : a.model.config.schema.getD "" = b.model.config.schema.getD ""
  incremental : a.model.config.incremental = b.model.config.incremental
  contract : (∀ contract ∈ a.contract, contract.Plain) →
    (∀ contract ∈ b.contract, contract.Plain) → a.contract = b.contract
  dependencies : ∀ pair, pair ∈ a.dependencyVersions ↔ pair ∈ b.dependencyVersions
  sources : a.PlainSources → b.PlainSources →
    ∀ pair, pair ∈ a.sourceStates ↔ pair ∈ b.sourceStates
  target : a.model.target.schema = b.model.target.schema ∧
    a.model.target.table = b.model.target.table

end Subjects

/-! ## Components -/

/-- The target slot tells the schema and the table, whatever is in the schema. -/
theorem targetSlot_inj {a b : CompiledModel} (ha : '.' ∉ a.target.table.toList)
    (hb : '.' ∉ b.target.table.toList)
    (hmaterialization : a.config.materialization = b.config.materialization)
    (h : a.targetSlot = b.targetSlot) :
    a.target.schema = b.target.schema ∧ a.target.table = b.target.table := by
  have htext : ∀ model : CompiledModel, model.targetSlot.toList =
      (model.target.schema.toList ++ '.' :: model.target.table.toList) ++
        '|' :: model.config.materialization.asStr.toList := by
    intro model
    simp [CompiledModel.targetSlot]
  have hlist := congrArg String.toList h
  rw [htext, htext, hmaterialization] at hlist
  obtain ⟨hschema, htable⟩ := Relation.append_cons_inj ha hb (List.append_cancel_right hlist)
  exact ⟨String.toList_injective hschema, String.toList_injective htable⟩

/-- Sources without dots in their names are told by their dotted names. -/
theorem SourceId.logicalName_inj {a b : SourceId} (ha : ∀ part ∈ a.parts, '.' ∉ part.toList)
    (hb : ∀ part ∈ b.parts, '.' ∉ part.toList) (h : a.logicalName = b.logicalName) : a = b := by
  have htext : ∀ source : SourceId, source.logicalName.toList =
      List.intercalate ['.'] (source.parts.map String.toList) := by
    intro source
    rw [SourceId.logicalName, String.toList_intercalate]
    rfl
  have hplain : ∀ source : SourceId, (∀ part ∈ source.parts, '.' ∉ part.toList) →
      ∀ part ∈ source.parts.map String.toList, '.' ∉ part := by
    intro source hsource part hpart
    obtain ⟨name, hname, rfl⟩ := List.mem_map.1 hpart
    exact hsource name hname
  have hlist := congrArg String.toList h
  rw [htext, htext, Library.intercalate_inj (by simpa using a.parts_ne_nil)
    (by simpa using b.parts_ne_nil) (hplain a ha) (hplain b hb)] at hlist
  have hparts : a.parts = b.parts :=
    List.map_injective_iff.2 (fun _ _ => String.toList_injective) hlist
  cases a
  cases b
  cases hparts
  rfl

/-- Membership in a list of pairs is told by their renamed pairs, where the names are told. -/
theorem mem_of_renamed {α : Type*} {name : α → String} {l r : List (α × String)}
    (hname : ∀ a ∈ l, ∀ b ∈ r, name a.1 = name b.1 → a.1 = b.1)
    (h : ∀ pair, pair ∈ l.map (fun a => (name a.1, a.2)) →
      pair ∈ r.map fun b => (name b.1, b.2)) {pair : α × String} (hpair : pair ∈ l) : pair ∈ r := by
  obtain ⟨other, hother, heq⟩ := List.mem_map.1 (h _ (List.mem_map_of_mem hpair))
  have hfirst := hname pair hpair other hother (congrArg Prod.fst heq).symm
  rwa [Prod.ext hfirst (congrArg Prod.snd heq).symm]

section Versions

variable [Sha256] (hsha : CollisionFree) {a b : VersionSubject} {printable : Char → Bool}

namespace VersionSubject

include hsha in
theorem newline_notMem_dependencyVersions (subject : VersionSubject) :
    ∀ pair ∈ subject.dependencyVersions, '\n' ∉ pair.2.toList := by
  intro pair hpair
  obtain ⟨id, -, rfl⟩ := List.mem_map.1 hpair
  cases hversion : subject.versions id with
  | none => simp
  | some version =>
    obtain ⟨inputs, rfl⟩ := subject.versions_derived id version hversion
    exact hsha.oneLine _

theorem inputs_dependencies (subject : VersionSubject) :
    (subject.inputs printable).dependencies =
      subject.dependencyVersions.map fun pair => (pair.1.logicalName, pair.2) := by
  rw [dependencyVersions, List.map_map]
  rfl

theorem inputs_sources (subject : VersionSubject) :
    (subject.inputs printable).sources =
      subject.sourceStates.map fun pair => (pair.1.logicalName, pair.2) := by
  rw [sourceStates, List.map_map]
  rfl

include hsha in
/-- Equal digests of dependencies tell the dependencies and their versions. -/
theorem dependencies_told
    (h : hashLines ((sortDedup (a.inputs printable).dependencies).map equation) =
      hashLines ((sortDedup (b.inputs printable).dependencies).map equation))
    (pair : ModelId × String) : pair ∈ a.dependencyVersions ↔ pair ∈ b.dependencyVersions := by
  have hplain : ∀ subject : VersionSubject,
      ∀ pair ∈ subject.dependencyVersions.map fun pair => (pair.1.logicalName, pair.2),
        '=' ∉ pair.1.toList ∧ '\n' ∉ pair.2.toList := by
    intro subject _ hmem
    obtain ⟨pair, hpair, rfl⟩ := List.mem_map.1 hmem
    exact ⟨pair.1.equals_notMem_logicalName,
      subject.newline_notMem_dependencyVersions hsha pair hpair⟩
  rw [inputs_dependencies, inputs_dependencies] at h
  have hpairs := hsha.pairs_inj (hplain a) (hplain b) h
  exact ⟨mem_of_renamed (fun _ _ _ _ heq => ModelId.logicalName_injective heq)
      fun pair => (hpairs pair).1,
    mem_of_renamed (fun _ _ _ _ heq => ModelId.logicalName_injective heq)
      fun pair => (hpairs pair).2⟩

theorem PlainSources.name (h : a.PlainSources) {pair : SourceId × String}
    (hpair : pair ∈ a.sourceStates) : '=' ∉ pair.1.logicalName.toList := by
  rw [SourceId.logicalName, String.toList_intercalate]
  intro hmem
  rcases mem_of_mem_intercalate hmem with hdot | ⟨part, hpart, hequals⟩
  · exact absurd hdot (by decide)
  · obtain ⟨name, hname, rfl⟩ := List.mem_map.1 hpart
    exact ((h pair hpair).1 name hname).2 hequals

include hsha in
/-- Equal digests of sources tell plain sources and their states. -/
theorem sources_told (ha : a.PlainSources) (hb : b.PlainSources)
    (h : hashLines ((sortDedup (a.inputs printable).sources).map equation) =
      hashLines ((sortDedup (b.inputs printable).sources).map equation))
    (pair : SourceId × String) : pair ∈ a.sourceStates ↔ pair ∈ b.sourceStates := by
  have hplain : ∀ subject : VersionSubject, subject.PlainSources →
      ∀ pair ∈ subject.sourceStates.map fun pair => (pair.1.logicalName, pair.2),
        '=' ∉ pair.1.toList ∧ '\n' ∉ pair.2.toList := by
    intro subject hsubject _ hmem
    obtain ⟨pair, hpair, rfl⟩ := List.mem_map.1 hmem
    exact ⟨hsubject.name hpair, (hsubject pair hpair).2⟩
  have hname : ∀ {a b : VersionSubject}, a.PlainSources → b.PlainSources →
      ∀ x ∈ a.sourceStates, ∀ y ∈ b.sourceStates,
        x.1.logicalName = y.1.logicalName → x.1 = y.1 :=
    fun ha hb x hx y hy heq => SourceId.logicalName_inj
      (fun part hpart => ((ha x hx).1 part hpart).1)
      (fun part hpart => ((hb y hy).1 part hpart).1) heq
  rw [inputs_sources, inputs_sources] at h
  have hpairs := hsha.pairs_inj (hplain a ha) (hplain b hb) h
  exact ⟨mem_of_renamed (hname ha hb) fun pair => (hpairs pair).1,
    mem_of_renamed (hname hb ha) fun pair => (hpairs pair).2⟩

theorem statements_told {σ : Type} (step : σ → Char → σ) (rest : σ)
    (ha : ∀ text ∈ a.statements, text.toList ≠ [] ∧ Closed step rest ';' text.toList)
    (hb : ∀ text ∈ b.statements, text.toList ≠ [] ∧ Closed step rest ';' text.toList)
    (h : a.canonicalSql = b.canonicalSql) : a.statements = b.statements := by
  have hclosed : ∀ subject : VersionSubject,
      (∀ text ∈ subject.statements, text.toList ≠ [] ∧ Closed step rest ';' text.toList) →
        ∀ text ∈ subject.statements.map String.toList, text ≠ [] ∧ Closed step rest ';' text := by
    intro subject hsubject _ hmem
    obtain ⟨text, htext, rfl⟩ := List.mem_map.1 hmem
    exact hsubject text htext
  have htext : ∀ subject : VersionSubject, subject.canonicalSql.toList =
      List.intercalate [';', '\n'] (subject.statements.map String.toList) := by
    intro subject
    rw [canonicalSql, String.toList_intercalate]
    rfl
  have hlist := congrArg String.toList h
  rw [htext, htext] at hlist
  exact List.map_injective_iff.2 (fun _ _ => String.toList_injective)
    (intercalate_closed_inj (hclosed a ha) (hclosed b hb) hlist)

end VersionSubject

include hsha in
/-- What two models of one version have in common: the canonical text, the materialization, the
schema override up to a blank one, the strategy, the dependencies with their versions and the
target, whatever is in them; closed statements, contracts with plain names and plain sources. -/
theorem told_of_hash_eq
    (h : (modelVersion (a.inputs printable)).hash = (modelVersion (b.inputs printable)).hash) :
    Told a b := by
  obtain ⟨hsql, hconfig, hcontract, hdependencies, hsources, htarget⟩ := hsha.components_inj h
  obtain ⟨hmaterialization, hschema, hincremental⟩ := semanticConfig_inj hconfig
  exact {
    canonicalSql := hsql
    statements := fun step rest ha hb => VersionSubject.statements_told step rest ha hb hsql
    materialization := hmaterialization
    schema := hschema
    incremental := hincremental
    contract := fun ha hb => contractInput_inj ha hb hcontract
    dependencies := VersionSubject.dependencies_told hsha hdependencies
    sources := fun ha hb => VersionSubject.sources_told hsha ha hb hsources
    target := targetSlot_inj a.table_plain b.table_plain hmaterialization htarget }

end Versions

/-! ## Versions that collide -/

namespace Sample

def versioned [Sha256] (schema : Option String) (contract : Option ModelContract)
    (sources : List SourceId) (hsources : (sources.map Dependency.source).Nodup)
    (state : SourceId → String) : VersionSubject where
  statements := ["SELECT 1"]
  model :=
    { id := rawModel.id
      config := { materialization := .view, schema := schema, incremental := none }
      target := { catalog := none, schema := "main", table := "raw" }
      compiledSql := ""
      version := default
      dependencies := sources.map .source
      dependencies_nodup := hsources }
  contract := contract
  assertions := []
  sourceState source := some (state source)
  versions _ := none
  table_plain := (by decide : '.' ∉ "raw".toList)
  versions_derived _ _ h := by cases h

def hashOf [Sha256] (subject : VersionSubject) : String :=
  (modelVersion (subject.inputs fun _ => true)).hash

def noSources [Sha256] (schema : Option String) (contract : Option ModelContract) :
    VersionSubject :=
  versioned schema contract [] (by decide) fun _ => ""

def twoColumns : ModelContract :=
  ⟨false, [⟨"a", none, none⟩, ⟨"b", none, none⟩], []⟩

def colonColumn : ModelContract :=
  ⟨false, [⟨"a:None:None,b", none, none⟩], []⟩

def dotted : SourceId :=
  ⟨["raw.a"], by decide⟩

def undotted : SourceId :=
  ⟨["raw", "a"], by decide⟩

def first : SourceId :=
  ⟨["x"], by decide⟩

def second : SourceId :=
  ⟨["y"], by decide⟩

def oneSource [Sha256] (source : SourceId) (state : String) : VersionSubject :=
  versioned none none [source] (List.nodup_singleton _) fun _ => state

def twoSources [Sha256] : VersionSubject :=
  versioned none none [first, second] (by decide) fun source =>
    if source = first then "1" else "2"

theorem hashOf_congr [Sha256] {a b : VersionSubject}
    (h : { a.inputs fun _ => true with sources := [] } =
      { b.inputs fun _ => true with sources := [] })
    (hsources : Library.unlines ((sortDedup (a.inputs fun _ => true).sources).map equation) =
      Library.unlines ((sortDedup (b.inputs fun _ => true).sources).map equation)) :
    hashOf a = hashOf b := by
  have hlines : hashLines ((sortDedup (a.inputs fun _ => true).sources).map equation) =
      hashLines ((sortDedup (b.inputs fun _ => true).sources).map equation) :=
    congrArg Sha256.hex hsources
  rw [VersionInputs.mk.injEq] at h
  obtain ⟨hsql, hconfig, hcontract, hdependencies, -, htarget⟩ := h
  rw [hashOf, hashOf, modelVersion, modelVersion, hsql, hconfig, hcontract, hdependencies, hlines,
    htarget]

/-- An absent schema override is told like a blank one. -/
theorem told_blankSchema :
    letI := quotedDigest
    Told (noSources none none) (noSources (some "") none) := by
  let _ := quotedDigest
  have hhash : hashOf (noSources none none) = hashOf (noSources (some "") none) :=
    hashOf_congr (by decide +kernel) rfl
  exact told_of_hash_eq collisionFree_quotedDigest hhash

/-- Contracts, source names, source states and schema overrides of one version. -/
theorem versions_collide :
    letI := quotedDigest
    CollisionFree ∧
      (hashOf (noSources none (some twoColumns)) = hashOf (noSources none (some colonColumn)) ∧
        twoColumns ≠ colonColumn) ∧
      (hashOf (oneSource dotted "1") = hashOf (oneSource undotted "1") ∧
        (oneSource dotted "1").sourceStates ≠ (oneSource undotted "1").sourceStates) ∧
      (hashOf (oneSource first "1\ny=2") = hashOf twoSources ∧
        (oneSource first "1\ny=2").sourceStates ≠ twoSources.sourceStates) ∧
      hashOf (noSources none none) = hashOf (noSources (some "") none) := by
  let _ := quotedDigest
  refine ⟨collisionFree_quotedDigest, ⟨hashOf_congr ?_ rfl, by decide +kernel⟩,
    ⟨hashOf_congr ?_ ?_, by decide +kernel⟩, ⟨hashOf_congr ?_ ?_, by decide +kernel⟩,
    hashOf_congr ?_ rfl⟩
  all_goals decide +kernel

end Sample

end PhloTransform.Core
