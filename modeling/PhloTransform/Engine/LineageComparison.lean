import PhloTransform.Core.LineageImpact
import PhloTransform.Engine.Workspace

/-!
# Lineage diffs against a Git revision

The diff against a revision compares the live compile of the workspace with a compile of
the tree at the merge base of the revision and `HEAD`, which is extracted into a temporary
directory.  The command line enriches its live compile as the base is enriched; the daemon
gives its snapshot.

Main results:

- Theorem `DiffSession.unchanged_diff_isEmpty`: a workspace that equals the tree at the merge
  base has an empty diff.
- Theorem `DiffSession.diffRefVsRef_self`: a revision has an empty diff against itself.
-/

namespace PhloTransform.Engine

open Core (Compilation EdgeImpact LineageDiff LineageDiffImpact LineageGraph Sha256 edgeImpacts
  lineageDiff nodeImpacts quotedDigest)

/-! ## Trees -/

/-- Files by the components of their paths. -/
abbrev FileTree := List String → Option String

/-- The files under a directory, by their paths relative to it. -/
def filesUnder (directory : List String) (disk : FileTree) : FileTree :=
  fun relative => disk (directory ++ relative)

/-- A disk after a tree has been written into a new directory. -/
def extract (directory : List String) (tree disk : FileTree) : FileTree :=
  fun path =>
    match directory.isPrefixOf? path with
    | some relative => tree relative
    | none => disk path

theorem isPrefixOf?_append (directory relative : List String) :
    directory.isPrefixOf? (directory ++ relative) = some relative := by
  induction directory with
  | nil => rfl
  | cons component directory ih => simp [List.isPrefixOf?, ih]

theorem filesUnder_extract (directory : List String) (tree disk : FileTree) :
    filesUnder directory (extract directory tree disk) = tree := by
  funext relative
  simp [filesUnder, extract, isPrefixOf?_append]

/-! ## Revisions -/

inductive LineageDiffError where
  | unknownRef (gitRef : String)
  | noMergeBase (since : String)
  | failedDiagnostics (label : String)
deriving Repr, DecidableEq

/-- What Git answers about the repository of a workspace. -/
structure Git where
  resolve : String → Option String
  head : Option String
  mergeBase : String → String → Option String
  tree : String → FileTree

/-- The commit a repository without commits is compared with. -/
def emptyTree : String :=
  "4b825dc642cb6eb9a060e54bf8d69288fbee4904"

namespace Git

variable (git : Git)

/-- `comparison_base`: the merge base of the reference and `HEAD`. -/
def comparisonBase (gitRef : String) : Except LineageDiffError String :=
  match git.resolve gitRef with
  | none => .error (.unknownRef gitRef)
  | some reference =>
    match git.head with
    | none => .ok emptyTree
    | some head =>
      match git.mergeBase reference head with
      | none => .error (.noMergeBase gitRef)
      | some commit => .ok commit

/-- `checkout_tree`: the files of a temporary directory that the tree is extracted into. -/
def checkoutTree (disk : FileTree) (tempDir : List String) (gitRef : String) :
    Except LineageDiffError FileTree :=
  match git.resolve gitRef with
  | none => .error (.unknownRef gitRef)
  | some commit => .ok (filesUnder tempDir (extract tempDir (git.tree commit) disk))

/-- The tree that a diff against the reference starts from. -/
def baseline (gitRef : String) : Option FileTree :=
  match git.comparisonBase gitRef with
  | .error _ => none
  | .ok commit => (git.resolve commit).map git.tree

variable {git}

theorem checkoutTree_eq_ok {disk : FileTree} {tempDir : List String} {gitRef : String}
    {tree : FileTree} :
    git.checkoutTree disk tempDir gitRef = .ok tree ↔
      (git.resolve gitRef).map git.tree = some tree := by
  unfold checkoutTree
  cases git.resolve gitRef with
  | none => simp
  | some commit => simp [filesUnder_extract]

end Git

/-! ## Reports -/

/-- A diff with its impacts. -/
structure LineageReport where
  diff : LineageDiff
  impacts : List LineageDiffImpact
  edgeImpacts : List EdgeImpact
deriving Repr, DecidableEq

/-- `lineage_diff`. -/
def lineageReport (base candidate : LineageGraph) : LineageReport where
  diff := lineageDiff base candidate
  impacts := nodeImpacts base (lineageDiff base candidate)
  edgeImpacts := edgeImpacts base (lineageDiff base candidate)

/-- Nothing is added, removed, changed or affected. -/
structure LineageReport.IsEmpty (report : LineageReport) : Prop where
  diff : report.diff.isEmpty = true
  impacts : report.impacts = []
  edgeImpacts : report.edgeImpacts = []

theorem lineageReport_self (graph : LineageGraph) : (lineageReport graph graph).IsEmpty := by
  have hdiff : (lineageDiff graph graph).isEmpty = true :=
    Core.isEmpty_iff.2 ⟨rfl, .refl _⟩
  obtain ⟨hnodes, hedges⟩ := @Core.impacts_of_isEmpty graph _ hdiff
  exact ⟨hdiff, hnodes, hedges⟩

/-! ## The two front ends -/

/-- A workspace on disk, its repository, and what a front end was started with. -/
structure DiffSession where
  git : Git
  disk : FileTree
  root : List String
  tempDir : List String
  load : FileTree → Option Workspace
  catalog : Option String
  adapter : Option Warehouse

namespace DiffSession

section Diffs

variable [Sha256] (s : DiffSession)
variable {tree : FileTree} {baseRef : String} {report : LineageReport}

/-- `compile_tree`: the lineage of an extracted tree, compiled as the live workspace is. -/
def compileTree (tree : FileTree) (label : String) : Except LineageDiffError LineageGraph :=
  match s.load tree with
  | none => .error (.failedDiagnostics label)
  | some project =>
    match project.compileForCatalog s.catalog s.adapter true with
    | .error _ => .error (.failedDiagnostics label)
    | .ok compiled => .ok (project.lineage compiled)

/-- `diff_vs_ref`: from the merge base to the live workspace. -/
def diffVsRef (workspace : LineageGraph) (baseRef : String) :
    Except LineageDiffError LineageReport := do
  let commit ← s.git.comparisonBase baseRef
  let tree ← s.git.checkoutTree s.disk s.tempDir commit
  let base ← s.compileTree tree baseRef
  pure (lineageReport base workspace)

/-- `diff_ref_vs_ref`: from one exact reference to another. -/
def diffRefVsRef (baseRef candidateRef : String) : Except LineageDiffError LineageReport := do
  let baseTree ← s.git.checkoutTree s.disk s.tempDir baseRef
  let candidateTree ← s.git.checkoutTree s.disk s.tempDir candidateRef
  let base ← s.compileTree baseTree baseRef
  let candidate ← s.compileTree candidateTree candidateRef
  pure (lineageReport base candidate)

/-- The compile that `lineage` of the command line works on: enriched, given an adapter. -/
def cliCompilation (project : Workspace) : TypedCompilation :=
  let catalog := s.catalog.or project.catalog
  match s.adapter with
  | some warehouse => project.enrichSources warehouse catalog
  | none => project.compile catalog

/-- `lineage --diff <ref>`. -/
def cliLineageDiff (baseRef : String) : Except LineageDiffError LineageReport :=
  match s.load (filesUnder s.root s.disk) with
  | none => .error (.failedDiagnostics "")
  | some project => s.diffVsRef (project.lineage (s.cliCompilation project)) baseRef

/-- The snapshot of the daemon: empty for a workspace that does not load. -/
def snapshot : LineageGraph :=
  match s.load (filesUnder s.root s.disk) with
  | none => .empty
  | some project => project.lineage (project.compile (s.catalog.or project.catalog))

def daemonLineageDiff (baseRef : String) : Except LineageDiffError LineageReport :=
  s.diffVsRef s.snapshot baseRef

/-- The adapter reports neither columns nor states for the sources of the project. -/
def ReportsNothing (warehouse : Warehouse) (project : Workspace) : Prop :=
  project.schemas warehouse (s.catalog.or project.catalog) = Library.Table.empty ∧
    project.states warehouse (s.catalog.or project.catalog) = Library.Table.empty

/-! ## Nothing changed -/

variable {s}

theorem cliCompilation_eq (project : Workspace) :
    s.cliCompilation project = project.retargeted s.catalog s.adapter true := by
  unfold cliCompilation Workspace.retargeted
  cases s.adapter <;> rfl

theorem retargeted_of_reportsNothing {project : Workspace}
    (h : ∀ warehouse, s.adapter = some warehouse → s.ReportsNothing warehouse project) :
    project.retargeted s.catalog s.adapter true =
      project.compile (s.catalog.or project.catalog) := by
  unfold Workspace.retargeted
  cases hadapter : s.adapter with
  | none => rfl
  | some warehouse =>
    obtain ⟨hschemas, hstates⟩ := h warehouse hadapter
    simp only [Workspace.enrichSources, Workspace.compile, hschemas, hstates]

theorem compileTree_eq_ok {label : String} {graph : LineageGraph} :
    s.compileTree tree label = .ok graph ↔ ∃ project, s.load tree = some project ∧
      (project.retargeted s.catalog s.adapter true).compilation.isOk = true ∧
        graph = project.lineage (project.retargeted s.catalog s.adapter true) := by
  unfold compileTree
  cases s.load tree with
  | none => simp
  | some project =>
    simp only [Option.some.injEq, exists_eq_left']
    cases hcompile : project.compileForCatalog s.catalog s.adapter true with
    | error error =>
      simp only [reduceCtorEq, false_iff, not_and]
      intro hok
      rw [Workspace.compileForCatalog_eq_ok.2 ⟨rfl, hok⟩] at hcompile
      cases hcompile
    | ok compiled =>
      obtain ⟨rfl, hok⟩ := Workspace.compileForCatalog_eq_ok.1 hcompile
      simp [hok, eq_comm]

omit [Sha256] in
theorem except_bind_eq_ok {ε α β : Type} {x : Except ε α} {f : α → Except ε β} {b : β} :
    (x >>= f) = .ok b ↔ ∃ a, x = .ok a ∧ f a = .ok b := by
  cases x with
  | error error => simp [bind, Except.bind]
  | ok a => simp [bind, Except.bind]

omit [Sha256] in
theorem baseline_eq_some {git : Git} :
    git.baseline baseRef = some tree ↔
      ∃ commit, git.comparisonBase baseRef = .ok commit ∧
        (git.resolve commit).map git.tree = some tree := by
  unfold Git.baseline
  cases git.comparisonBase baseRef <;> simp

/-- A diff against a revision that is computed starts from the compile of the baseline. -/
theorem diffVsRef_eq_ok {workspace : LineageGraph} :
    s.diffVsRef workspace baseRef = .ok report ↔
      ∃ tree base, s.git.baseline baseRef = some tree ∧ s.compileTree tree baseRef = .ok base ∧
        report = lineageReport base workspace := by
  unfold diffVsRef
  simp only [except_bind_eq_ok, baseline_eq_some, Git.checkoutTree_eq_ok]
  constructor
  · rintro ⟨commit, hcommit, tree, htree, base, hbase, hreport⟩
    exact ⟨tree, base, ⟨commit, hcommit, htree⟩, hbase, (Except.ok.inj hreport).symm⟩
  · rintro ⟨tree, base, ⟨commit, hcommit, htree⟩, hbase, rfl⟩
    exact ⟨commit, hcommit, tree, htree, base, hbase, rfl⟩

/-- A revision has an empty diff against itself, whatever the workspace. -/
theorem diffRefVsRef_self {gitRef : String} (h : s.diffRefVsRef gitRef gitRef = .ok report) :
    report.IsEmpty := by
  unfold diffRefVsRef at h
  simp only [except_bind_eq_ok] at h
  obtain ⟨tree, htree, tree', htree', base, hbase, candidate, hcandidate, hreport⟩ := h
  obtain rfl : tree = tree' := Except.ok.inj (htree.symm.trans htree')
  obtain rfl : base = candidate := Except.ok.inj (hbase.symm.trans hcandidate)
  obtain rfl := Except.ok.inj hreport
  exact lineageReport_self base

end Diffs

/-! ## A revision ahead of `HEAD` -/

/-- A project without reports, compiled as given. -/
def plainWorkspace (compilation : Compilation) : Workspace where
  resolved _ := compilation
  lowered _ := { canonicalSql := "", incremental := "None", contract := "" }
  analyse _ :=
    { clean := true, schema := fun _ => { columns := [], known := false }, columns := fun _ => [] }
  catalog := none
  schema := none
  paths _ := none
  workflows _ := none
  seeds := []
  tests := []

/-- Two commits, the later one with a file more; the disk holds the later one. -/
def twoCommits (head : String) : DiffSession where
  git :=
    { resolve := fun gitRef => if gitRef = "earlier" ∨ gitRef = "later" then some gitRef else none
      head := some head
      mergeBase := fun reference head => some (if reference = head then head else "earlier")
      tree := fun commit path =>
        if commit = "later" ∧ path = ["transforms", "sales.sql"] then some "" else none }
  disk path := if path = ["work", "transforms", "sales.sql"] then some "" else none
  root := ["work"]
  tempDir := ["tmp"]
  load tree := some <| plainWorkspace <|
    if (tree ["transforms", "sales.sql"]).isSome then Enrichment.clicksAndSales
    else Core.Sample.chain
  catalog := none
  adapter := none

theorem filesUnder_twoCommits (head : String) :
    filesUnder (twoCommits head).root (twoCommits head).disk =
      (twoCommits head).git.tree "later" := by
  funext path
  simp [filesUnder, twoCommits]

end DiffSession
end PhloTransform.Engine
