import PhloTransform.Dbt.Translation

/-!
# Resources that are lost by the translation

No resource is lost when the emitted files have distinct paths, no two clean models share a path
or a logical identity, and models that are merged are reported.  Reported are the models whose
stems are the same, while paths and identities are made of sanitised names, so that files whose
names differ outside of the alphabet of a segment are written over each other.

Main results:

- Theorem `DbtProject.nodup_files_iff`: when the emitted files have distinct paths.
- Theorem `DbtProject.reported_iff`: the emitted models that are reported.
-/

namespace PhloTransform.Dbt

open Library

/-! ## Issues of a collision -/

theorem TestOutcome.code_output (outcome : TestOutcome) (logical : String)
    (column : Option String) :
    ∀ issue ∈ (outcome.output logical column).issues, issue.code = "DBT014" := by
  cases outcome with
  | issue message => simp [output, MigrationIssue.unsupportedTest]
  | file kind => simp [output]
  | notNull column => simp [output]
  | folded => simp [output, TestOutput.none]

theorem TestOutput.issues_gather {α : Type*} {P : MigrationIssue → Prop} {items : List α}
    {output : α → TestOutput} (h : ∀ item ∈ items, ∀ issue ∈ (output item).issues, P issue) :
    ∀ issue ∈ (TestOutput.gather items output).issues, P issue := by
  unfold gather
  refine List.foldlRecOn items _
    (motive := fun sofar : TestOutput => ∀ issue ∈ sofar.issues, P issue)
    (fun issue hissue => absurd hissue List.not_mem_nil)
    fun sofar hsofar item hitem issue hissue => ?_
  rw [append, List.mem_append] at hissue
  exact hissue.elim (hsofar issue) (h item hitem issue)

theorem TestContext.code_emitPropertyTests (ctx : TestContext) (entry : Yaml) (logical : String)
    (keyColumns : List String) :
    ∀ issue ∈ (ctx.emitPropertyTests entry logical keyColumns).issues, issue.code = "DBT014" := by
  intro issue hissue
  rw [emitPropertyTests, TestOutput.append, List.mem_append] at hissue
  rcases hissue with hissue | hissue
  · exact TestOutput.issues_gather
      (fun declared _ => TestOutcome.code_output _ _ _) issue hissue
  · exact TestOutput.issues_gather (fun test _ => TestOutcome.code_output _ _ _) issue hissue

namespace DbtProject

variable {r : Renderer} {p : DbtProject}
variable {root extension : String}

/-- An issue that is no collision of names. -/
def IsOther (issue : MigrationIssue) : Prop :=
  issue.code ≠ "DBT013"

theorem other_materializationIssues (materialized : String) :
    ∀ issue ∈ materializationIssues materialized, IsOther issue := by
  unfold materializationIssues
  split
  · simp
  · rw [List.forall_mem_singleton]
    exact (by decide : "DBT008" ≠ "DBT013")

theorem other_incrementalIssues (merged : MergedConfig) (lowered : Lowered) :
    ∀ issue ∈ incrementalIssues merged lowered, IsOther issue := by
  unfold incrementalIssues
  dsimp only
  split
  · rw [List.forall_mem_singleton]
    exact (by decide : "DBT006" ≠ "DBT013")
  · simp

theorem other_configIssues (model : DbtSqlFile) :
    ∀ issue ∈ p.configIssues r model, IsOther issue := by
  have hcode : "DBT007" ≠ "DBT013" := by decide
  unfold configIssues
  rw [List.forall_mem_append]
  constructor
  · rw [List.forall_mem_map]
    exact fun _ _ => hcode
  · split
    · simp
    · simp
    · split
      · simp
      · rw [List.forall_mem_singleton]
        exact hcode

theorem other_modelTests (model : DbtSqlFile) :
    ∀ issue ∈ (p.modelTests r model).issues, IsOther issue := by
  unfold modelTests
  split
  · simp [TestOutput.none]
  · intro issue hissue
    rw [IsOther, TestContext.code_emitPropertyTests _ _ _ _ issue hissue]
    decide

theorem other_versionIssues (entry : Yaml) : ∀ issue ∈ versionIssues entry, IsOther issue := by
  unfold versionIssues
  split
  · rw [List.forall_mem_singleton]
    exact (by decide : "DBT007" ≠ "DBT013")
  · simp

theorem modelIssues_eq (model : DbtSqlFile) :
    ∃ others, p.modelIssues r model = p.collisionIssues model ++ others ∧
      ∀ issue ∈ others, IsOther issue := by
  refine ⟨(r.lowerSql model).issues ++
    (materializationIssues (p.modelConfig r model).materialized ++
      (incrementalIssues (p.modelConfig r model) (r.lowerSql model).toLowered ++
        (p.configIssues r model ++ ((p.modelTests r model).issues ++
          (p.modelProperties model.stem).toList.flatMap versionIssues)))), ?_, ?_⟩
  · simp only [modelIssues, List.append_assoc]
  · simp only [List.forall_mem_append, List.forall_mem_flatMap]
    exact ⟨r.code_lowerSql model, other_materializationIssues _, other_incrementalIssues _ _,
      other_configIssues model, other_modelTests model, fun entry _ => other_versionIssues entry⟩

theorem nameCollision_mem_modelIssues {model : DbtSqlFile} :
    .nameCollision model.stem ∈ p.modelIssues r model ↔ model.stem ∈ p.collidedNames := by
  obtain ⟨others, heq, hothers⟩ := modelIssues_eq (r := r) (p := p) model
  have hnotMem : .nameCollision model.stem ∉ others := fun h => hothers _ h rfl
  rw [heq, List.mem_append, or_iff_left hnotMem, collisionIssues]
  split <;> simp [*]

/-! ## What is lost -/

section

variable (r p)

def identity (model : DbtSqlFile) : String :=
  logicalName (emittedSegments model.dir model.stem) p.name

/-- Two models are emitted under one path or with one identity. -/
structure Merged (a b : DbtSqlFile) : Prop where
  left : (p.translateModel r a).file.isSome
  right : (p.translateModel r b).file.isSome
  shared : (p.translateModel r a).file = (p.translateModel r b).file ∨ p.identity a = p.identity b

/-- The name of a model is reported as a collision. -/
def Reported (model : DbtSqlFile) : Prop :=
  .nameCollision model.stem ∈ (p.translateModel r model).outcome.issues

def IsClean (model : DbtSqlFile) : Prop :=
  (p.translateModel r model).outcome.classification = .clean

/-- No file is written over another one, and merged models are reported. -/
structure NothingLost : Prop where
  paths_distinct : (p.translate r).files.Nodup
  clean_apart : p.models.Pairwise fun a b => p.IsClean r a → p.IsClean r b →
    (p.translateModel r a).outcome.emittedPath ≠ (p.translateModel r b).outcome.emittedPath ∧
      p.identity a ≠ p.identity b
  merges_reported : p.models.Pairwise fun a b =>
    p.Merged r a b → p.Reported r a ∧ p.Reported r b

/-! ## Names that are apart -/

def emittedModels : List DbtSqlFile :=
  p.models.filter (p.isEmitted r)

def readableSeeds : List DbtSeed :=
  p.seeds.filter fun seed => seed.readError.isNone

/-- The names of a resource below its root. -/
def namesBelow (dir : List String) (name : String) : List String :=
  dir ++ [name]

/-- The names of a project are apart once they are sanitised. -/
structure NamesApart : Prop where
  models : (p.emittedModels r).Pairwise fun a b =>
    ¬SameNames (p.placement r a) (p.placement r b)
  identities : (p.emittedModels r).Pairwise fun a b =>
    SameNames (identityNames p.name a.dir a.stem) (identityNames p.name b.dir b.stem) →
      List.Duplicate a.stem (p.models.map DbtSqlFile.stem) ∧
        List.Duplicate b.stem (p.models.map DbtSqlFile.stem)
  seeds : p.readableSeeds.Pairwise fun a b =>
    ¬SameNames (namesBelow a.dir a.name) (namesBelow b.dir b.name)
  singularTests : p.singularTests.Pairwise fun a b =>
    ¬SameNames (namesBelow a.dir a.stem) (namesBelow b.dir b.stem)
  /-- Declared tests of one kind have relations and columns of different texts. -/
  declaredTests : (p.generatedTests r).Pairwise fun a b => a.kind = b.kind → a.label ≠ b.label
  /-- No singular test in the directory `generated` has the name of a declared one. -/
  generated : ∀ test ∈ p.singularTests, ∀ declared ∈ p.generatedTests r, ∀ dir,
    test.dir = "generated" :: dir →
      "/".intercalate ((namesBelow dir test.stem).map sanitizeSegment) ≠
        declared.label ++ "__" ++ declared.kind.text

end

/-! ## Paths of different resources -/

/-- The first two letters of a path, and the last two from behind. -/
def mark (path : String) : List Char × List Char :=
  (path.toList.take 2, path.toList.reverse.take 2)

theorem mark_between {front back : String} (middle : List Char) (hfront : 2 ≤ front.toList.length)
    (hback : 2 ≤ back.toList.length) {path : String}
    (h : path.toList = front.toList ++ middle ++ back.toList) :
    mark path = (front.toList.take 2, back.toList.reverse.take 2) := by
  rw [mark, h, List.append_assoc, List.take_append_of_le_length hfront, ← List.append_assoc,
    List.reverse_append, List.take_append_of_le_length (by simpa using hback)]

theorem mark_segmentsPath (segments : List String) (hroot : 2 ≤ root.toList.length)
    (hextension : 2 ≤ extension.toList.length) :
    mark (segmentsPath root segments extension) =
      (root.toList.take 2, extension.toList.reverse.take 2) :=
  mark_between _ hroot hextension (toList_segmentsPath root extension segments)

theorem mark_relPath (test : GeneratedTest) : mark test.relPath = (['t', 'e'], ['l', 'q']) :=
  mark_between _ (by decide) (by decide) test.toList_relPath

theorem mark_rootTomlPath (ns : String) : mark (rootTomlPath ns) = (['t', 'r'], ['l', 'm']) := by
  have hpath : (rootTomlPath ns).toList =
      "transforms/".toList ++ ns.toList ++ "/transform.toml".toList := by
    rw [rootTomlPath, String.toList_append, String.toList_append]
  exact mark_between ns.toList (by decide) (by decide) hpath

theorem mark_modelPath (model : DbtSqlFile) :
    mark (p.modelPath r model) = (['t', 'r'], ['l', 'q']) := by
  rw [modelPath_eq]
  exact mark_segmentsPath _ (by decide) (by decide)

theorem mark_singularTest (test : DbtSqlFile) :
    mark (translateSingularTest r test).2 = (['t', 'e'], ['l', 'q']) :=
  mark_segmentsPath _ (by decide) (by decide)

def seedPath (seed : DbtSeed) : String :=
  resourcePath "seeds" seed.dir seed.name ".csv"

theorem mark_seedPath (seed : DbtSeed) : mark (seedPath seed) = (['s', 'e'], ['v', 's']) :=
  mark_segmentsPath _ (by decide) (by decide)

theorem resourcePath_eq_iff {dir dir' : List String} {name name' : String} :
    resourcePath root dir name extension = resourcePath root dir' name' extension ↔
      SameNames (namesBelow dir name) (namesBelow dir' name') := by
  refine Iff.trans ?_ (segmentsPath_eq_iff : segmentsPath root _ extension = _ ↔ _)
  simp [resourcePath, namesBelow]

theorem toList_generated : "tests/generated/".toList =
    "tests".toList ++ '/' :: "generated".toList ++ ['/'] :=
  rfl

theorem toList_declared (declared : GeneratedTest) :
    declared.relPath.toList = "tests".toList ++ '/' :: ("generated".toList ++ '/' ::
      (declared.label ++ "__" ++ declared.kind.text).toList) ++ ".sql".toList := by
  rw [declared.toList_relPath, toList_generated, String.toList_append, String.toList_append,
    toList_between]
  simp only [List.append_assoc, List.cons_append, List.nil_append]

theorem slash_notMem_sanitizeSegment (name : String) : '/' ∉ (sanitizeSegment name).toList := by
  intro hmem
  cases isSegmentChar_of_mem_sanitizeSegment hmem

/-- A singular test has the path of a declared one in the directory `generated` alone. -/
theorem singularTest_eq_relPath_iff {test : DbtSqlFile} {declared : GeneratedTest} :
    (translateSingularTest r test).2 = declared.relPath ↔
      ∃ dir, test.dir = "generated" :: dir ∧
        "/".intercalate ((namesBelow dir test.stem).map sanitizeSegment) =
          declared.label ++ "__" ++ declared.kind.text := by
  have hpath : (translateSingularTest r test).2 = declared.relPath ↔
      spelled '/' (((namesBelow test.dir test.stem).map sanitizeSegment).map String.toList) =
        '/' :: ("generated".toList ++ '/' ::
          (declared.label ++ "__" ++ declared.kind.text).toList) := by
    rw [← String.toList_inj, toList_declared, translateSingularTest, resourcePath,
      toList_segmentsPath, List.append_left_inj, List.append_right_inj, namesBelow]
    simp only [List.map_append, List.map_cons, List.map_nil]
  rw [hpath]
  cases test.dir with
  | nil =>
    -- the name of a file has no slash
    have hstem : spelled '/' (((namesBelow [] test.stem).map sanitizeSegment).map String.toList) =
        '/' :: (sanitizeSegment test.stem).toList := List.append_nil _
    rw [hstem, List.cons_inj_right]
    constructor
    · intro h
      refine absurd ?_ (slash_notMem_sanitizeSegment test.stem)
      rw [h]
      exact List.mem_append_right _ List.mem_cons_self
    · rintro ⟨dir, hcons, -⟩
      cases hcons
  | cons first rest =>
    have hfirst : (sanitizeSegment first).toList = "generated".toList ↔ first = "generated" := by
      rw [String.toList_inj, sanitizeSegment_eq_plain rfl (by decide),
        or_iff_left (fun h => absurd h.2 (by decide))]
    have hrest : '/' ::
        ("/".intercalate ((namesBelow rest test.stem).map sanitizeSegment)).toList =
        spelled '/' (((namesBelow rest test.stem).map sanitizeSegment).map String.toList) := by
      rw [String.toList_intercalate]
      exact cons_intercalate '/' (by simp [namesBelow])
    rw [namesBelow, List.cons_append, List.map_cons, List.map_cons, spelled_cons, ← namesBelow,
      ← hrest, List.cons_append, List.cons_inj_right,
      append_cons_inj (slash_notMem_sanitizeSegment first) (by decide), hfirst, String.toList_inj]
    constructor
    · rintro ⟨rfl, h⟩
      exact ⟨rest, rfl, h⟩
    · rintro ⟨dir, hcons, h⟩
      cases hcons
      exact ⟨rfl, h⟩

/-! ## Distinct paths -/

theorem filterMap_file :
    (p.models.filterMap fun model => (p.translateModel r model).file) =
      (p.emittedModels r).map (p.modelPath r) := by
  rw [emittedModels, ← List.filterMap_eq_map, List.filterMap_filter]
  refine List.filterMap_congr fun model _ => ?_
  rw [translateModel_file]
  rfl

theorem filterMap_seed :
    (p.seeds.filterMap fun seed => (translateSeed seed).2) = p.readableSeeds.map seedPath := by
  rw [readableSeeds, ← List.filterMap_eq_map, List.filterMap_filter]
  refine List.filterMap_congr fun seed _ => ?_
  cases h : seed.readError <;> simp [translateSeed, seedPath, h]

theorem sortPaths_perm (files : List String) : (sortPaths files).Perm files :=
  List.mergeSort_perm files _

/-- The emitted files: configuration, models, seeds and tests. -/
theorem files_perm : (p.translate r).files.Perm
    ((p.emittedModels r).map (p.modelPath r) ++ (p.readableSeeds.map seedPath ++
      ((((p.rootTomls r).rows.filter fun toml => !toml.2.isEmpty).map fun toml =>
          rootTomlPath toml.1) ++
        ((if (p.phloToml r).isEmpty then [] else ["phlo.toml"]) ++
          ((p.singularTests.map fun test => (translateSingularTest r test).2) ++
            (p.generatedTests r).map GeneratedTest.relPath))))) := by
  refine (sortPaths_perm _).trans (((sortPaths_perm _).append_right _).trans ?_)
  rw [emittedFiles, filterMap_file, filterMap_seed, List.perm_iff_count]
  intro path
  simp only [List.count_append]
  omega

theorem nodup_files_iff : (p.translate r).files.Nodup ↔
    ((p.emittedModels r).map (p.modelPath r)).Nodup ∧ (p.readableSeeds.map seedPath).Nodup ∧
      (p.singularTests.map fun test => (translateSingularTest r test).2).Nodup ∧
      ((p.generatedTests r).map GeneratedTest.relPath).Nodup ∧
      ∀ test ∈ p.singularTests, ∀ declared ∈ p.generatedTests r,
        (translateSingularTest r test).2 ≠ declared.relPath := by
  have htomls : (((p.rootTomls r).rows.filter fun toml => !toml.2.isEmpty).map fun toml =>
      rootTomlPath toml.1).Nodup := by
    rw [List.Nodup, List.pairwise_map]
    refine List.Pairwise.filter _ ((List.pairwise_map.1 (p.rootTomls r).nodup_keys).imp ?_)
    intro a b hne heq
    refine hne (String.toList_inj.1 ?_)
    have hlist := congrArg String.toList heq
    rw [rootTomlPath, rootTomlPath, String.toList_append, String.toList_append,
      String.toList_append, String.toList_append, List.append_left_inj, List.append_right_inj]
      at hlist
    exact hlist
  have hphlo : (if (p.phloToml r).isEmpty then [] else ["phlo.toml"]).Nodup := by
    split <;> simp
  -- each list is told apart from those behind it by its mark
  have hmodels : ∀ path ∈ (p.emittedModels r).map (p.modelPath r),
      mark path = (['t', 'r'], ['l', 'q']) :=
    List.forall_mem_map.2 fun model _ => mark_modelPath model
  have hseeds : ∀ path ∈ p.readableSeeds.map seedPath, mark path = (['s', 'e'], ['v', 's']) :=
    List.forall_mem_map.2 fun seed _ => mark_seedPath seed
  have hsettings : ∀ path ∈ ((p.rootTomls r).rows.filter fun toml => !toml.2.isEmpty).map
      fun toml => rootTomlPath toml.1, mark path = (['t', 'r'], ['l', 'm']) :=
    List.forall_mem_map.2 fun toml _ => mark_rootTomlPath toml.1
  have hworkspace : ∀ path ∈ (if (p.phloToml r).isEmpty then [] else ["phlo.toml"]),
      mark path = (['p', 'h'], ['l', 'm']) := by
    split
    · simp
    · rw [List.forall_mem_singleton]
      decide
  have htests : ∀ path ∈ (p.singularTests.map fun test => (translateSingularTest r test).2) ++
      (p.generatedTests r).map GeneratedTest.relPath, mark path = (['t', 'e'], ['l', 'q']) := by
    rw [List.forall_mem_append, List.forall_mem_map, List.forall_mem_map]
    exact ⟨fun test _ => mark_singularTest test, fun test _ => mark_relPath test⟩
  have hother : ∀ {paths : List String} {x y : List Char × List Char},
      (∀ path ∈ paths, mark path = x) → x ≠ y → ∀ path ∈ paths, mark path ≠ y :=
    fun h hne path hpath heq => hne ((h path hpath).symm.trans heq)
  rw [files_perm.nodup_iff, nodup_append_iff_of_apart hmodels, nodup_append_iff_of_apart hseeds,
    nodup_append_iff_of_apart hsettings, nodup_append_iff_of_apart hworkspace, List.nodup_append]
  · simp only [htomls, hphlo, List.forall_mem_map, true_and]
  · exact hother htests (by decide)
  · rw [List.forall_mem_append]
    exact ⟨hother hworkspace (by decide), hother htests (by decide)⟩
  · rw [List.forall_mem_append, List.forall_mem_append]
    exact ⟨hother hsettings (by decide), hother hworkspace (by decide), hother htests (by decide)⟩
  · rw [List.forall_mem_append, List.forall_mem_append, List.forall_mem_append]
    exact ⟨hother hseeds (by decide), hother hsettings (by decide), hother hworkspace (by decide),
      hother htests (by decide)⟩

/-! ## When nothing is lost -/

/-- The emitted models that are reported are those whose stems come again. -/
theorem reported_iff {model : DbtSqlFile} (h : p.isEmitted r model = true) :
    p.Reported r model ↔ List.Duplicate model.stem (p.models.map DbtSqlFile.stem) := by
  rw [Reported, translateModel_of_isEmitted h, emittedModel, ← mem_collidedNames_iff]
  exact nameCollision_mem_modelIssues

theorem isSome_file {model : DbtSqlFile} :
    (p.translateModel r model).file.isSome ↔ p.isEmitted r model = true := by
  rw [translateModel_file]
  split <;> simp [*]

theorem file_of_isEmitted {model : DbtSqlFile} (h : p.isEmitted r model = true) :
    (p.translateModel r model).file = some (p.modelPath r model) := by
  rw [translateModel_file, if_pos h]

theorem emittedPath_of_isEmitted {model : DbtSqlFile} (h : p.isEmitted r model = true) :
    (p.translateModel r model).outcome.emittedPath = some (p.modelPath r model) := by
  rw [translateModel_of_isEmitted h, emittedModel]

theorem identity_eq_iff {a b : DbtSqlFile} : p.identity a = p.identity b ↔
    SameNames (identityNames p.name a.dir a.stem) (identityNames p.name b.dir b.stem) :=
  logicalName_eq_iff

/-- A clean model is emitted, and its stem does not come again. -/
theorem IsClean.emitted {model : DbtSqlFile} (h : p.IsClean r model) : p.isEmitted r model = true :=
  (clean_iff.1 h).1

theorem IsClean.not_duplicate {model : DbtSqlFile} (h : p.IsClean r model) :
    ¬List.Duplicate model.stem (p.models.map DbtSqlFile.stem) := by
  intro hduplicate
  have hmem := nameCollision_mem_modelIssues (r := r).2 (p.mem_collidedNames_iff.2 hduplicate)
  rw [(clean_iff.1 h).2] at hmem
  cases hmem

/-- No resource is lost exactly when the names of the project are apart. -/
theorem nothingLost_iff : p.NothingLost r ↔ p.NamesApart r := by
  have hmodels : ((p.emittedModels r).map (p.modelPath r)).Nodup ↔
      (p.emittedModels r).Pairwise fun a b => ¬SameNames (p.placement r a) (p.placement r b) := by
    rw [List.Nodup, List.pairwise_map]
    simp only [ne_eq, modelPath_eq, segmentsPath_eq_iff]
  constructor
  · intro h
    obtain ⟨hpaths, hseeds, hsingular, hdeclared, hbeside⟩ := nodup_files_iff.1 h.paths_distinct
    rw [List.Nodup, List.pairwise_map] at hseeds hsingular hdeclared
    refine ⟨hmodels.1 hpaths, ?_, ?_, ?_, ?_, ?_⟩
    · rw [emittedModels, List.pairwise_filter]
      refine h.merges_reported.imp fun hreported ha hb hsame => ?_
      obtain ⟨hleft, hright⟩ := hreported
        ⟨isSome_file.2 ha, isSome_file.2 hb, .inr (identity_eq_iff.2 hsame)⟩
      exact ⟨(reported_iff ha).1 hleft, (reported_iff hb).1 hright⟩
    · exact hseeds.imp fun hne hsame => hne (resourcePath_eq_iff.2 hsame)
    · exact hsingular.imp fun hne hsame => hne (resourcePath_eq_iff.2 hsame)
    · exact hdeclared.imp fun hne hkind hlabel =>
        hne (GeneratedTest.relPath_eq_iff.2 ⟨hkind, hlabel⟩)
    · intro test htest declared hmem dir hdir heq
      exact hbeside test htest declared hmem (singularTest_eq_relPath_iff.2 ⟨dir, hdir, heq⟩)
  · intro h
    have hapart : p.models.Pairwise fun a b => p.isEmitted r a = true → p.isEmitted r b = true →
        p.modelPath r a ≠ p.modelPath r b := by
      have hnodup := hmodels.2 h.models
      rwa [List.Nodup, List.pairwise_map, emittedModels, List.pairwise_filter] at hnodup
    have hidentities := h.identities
    rw [emittedModels, List.pairwise_filter] at hidentities
    refine ⟨nodup_files_iff.2 ⟨hmodels.2 h.models, ?_, ?_, ?_, ?_⟩, ?_, ?_⟩
    · rw [List.Nodup, List.pairwise_map]
      exact h.seeds.imp fun hne heq => hne (resourcePath_eq_iff.1 heq)
    · rw [List.Nodup, List.pairwise_map]
      exact h.singularTests.imp fun hne heq => hne (resourcePath_eq_iff.1 heq)
    · rw [List.Nodup, List.pairwise_map]
      refine h.declaredTests.imp fun hne heq => ?_
      obtain ⟨hkind, hlabel⟩ := GeneratedTest.relPath_eq_iff.1 heq
      exact hne hkind hlabel
    · intro test htest declared hmem heq
      obtain ⟨dir, hdir, hname⟩ := singularTest_eq_relPath_iff.1 heq
      exact h.generated test htest declared hmem dir hdir hname
    · refine hapart.imp₂ (fun a b hpath hidentity ha hb => ?_) hidentities
      rw [emittedPath_of_isEmitted ha.emitted, emittedPath_of_isEmitted hb.emitted]
      refine ⟨fun heq => hpath ha.emitted hb.emitted (Option.some.inj heq), fun heq => ?_⟩
      exact ha.not_duplicate (hidentity ha.emitted hb.emitted (identity_eq_iff.1 heq)).1
    · refine hapart.imp₂ (fun a b hpath hidentity hmerged => ?_) hidentities
      have ha := isSome_file.1 hmerged.left
      have hb := isSome_file.1 hmerged.right
      rw [reported_iff ha, reported_iff hb]
      rcases hmerged.shared with hfile | hsame
      · rw [file_of_isEmitted ha, file_of_isEmitted hb] at hfile
        exact absurd (Option.some.inj hfile) (hpath ha hb)
      · exact hidentity ha hb (identity_eq_iff.1 hsame)

namespace Sample

def renderer : Renderer where
  lowerSql _ :=
    { issues := [], windowColumn := none, incrementalReduced := false, config := [] }
  evalJinjaText _ := none
  debug _ := ""
  code_lowerSql := by simp

def model (stem : String) : DbtSqlFile where
  relPath := "models/staging/" ++ stem ++ ".sql"
  dir := ["staging"]
  stem := stem
  sql := "select 1"

def project : DbtProject where
  name := "shop"
  modelsTree := .null
  seedsTree := .null
  models := [model "a.b", model "a_b"]
  propertyFiles := []
  singularTests := []
  seeds := []
  packages := []
  profile := none

/-- The models `a.b` and `a_b` are clean, and one is written over the other. -/
theorem stems_merged :
    project.IsClean renderer (model "a.b") ∧ project.IsClean renderer (model "a_b") ∧
      (project.translateModel renderer (model "a.b")).outcome.emittedPath =
        some "transforms/staging/a_b.sql" ∧
      (project.translateModel renderer (model "a_b")).outcome.emittedPath =
        some "transforms/staging/a_b.sql" ∧ ¬project.NothingLost renderer := by
  have hclean : project.IsClean renderer (model "a.b") ∧
      project.IsClean renderer (model "a_b") := by
    unfold IsClean
    constructor <;> decide +kernel
  have hpath : (project.translateModel renderer (model "a.b")).outcome.emittedPath =
      some "transforms/staging/a_b.sql" := by
    decide +kernel
  have hpath' : (project.translateModel renderer (model "a_b")).outcome.emittedPath =
      some "transforms/staging/a_b.sql" := by
    decide +kernel
  refine ⟨hclean.1, hclean.2, hpath, hpath', fun h => ?_⟩
  have hpair := (List.pairwise_cons.1 h.clean_apart).1 (model "a_b") List.mem_cons_self
  exact (hpair hclean.1 hclean.2).1 (hpath.trans hpath'.symm)

end Sample

end DbtProject

end PhloTransform.Dbt
