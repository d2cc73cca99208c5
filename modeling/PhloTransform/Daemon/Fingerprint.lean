import PhloTransform.Core.Discovery

/-!
# The watcher's fingerprint

The watcher compares a fingerprint of the workspace with the one it last acted on.  The
fingerprint is folded from the modification times of SQL and TOML files; discovery also reads
the contents of CSV seeds.

Main results:

- Theorem `loadProject_insert`: files that discovery does not read do not change the project.
- Theorem `Edit.noticed_iff`: of the edits that change the project, the ones that change the
  fingerprint.
-/

namespace PhloTransform.Daemon.Watching

open Core.Discovery

variable {path : Path} {file : File} {between : List File}

/-! ## Fingerprints -/

/-- The walk of `workspace_fingerprint` comes to the file and finds it relevant. -/
def isWatched (path : Path) : Bool :=
  !path.any isIgnored && (extension path == some "sql" || extension path == some "toml")

/-- The nanoseconds since the epoch as a `u64`; a time before it is left out. -/
def stamp (modified : Int) : Option (BitVec 64) :=
  if 0 ≤ modified then some (BitVec.ofInt 64 modified) else none

/-- What a file adds to the fingerprint. -/
def fedBy (file : File) : Option (BitVec 64) :=
  if isWatched file.path then stamp file.modified else none

/-- The values that are folded; the filter also looks at the name of the root. -/
def fed (workspace : Workspace) : List (BitVec 64) :=
  if isIgnored workspace.name then [] else workspace.files.filterMap fedBy

def workspaceFingerprint (workspace : Workspace) : BitVec 64 :=
  (fed workspace).foldl (fun fingerprint value => (fingerprint ^^^ value).rotateLeft 7) 0

/-! ## Edits -/

/-- An edit, with the files that the directories list before and after the edited one. -/
inductive Edit where
  /-- The content changes, and the time of the file that holds it. -/
  | modify (pre post : List File) (file : File) (bytes : List UInt8) (modified : Int)
  | add (pre post : List File) (file : File)
  | delete (pre post : List File) (file : File)
  /-- The file is listed after those between its two places, or before them. -/
  | rename (pre between post : List File) (file : File) (path : Path) (later : Bool)

namespace Edit

/-- The file once it has been modified; a link keeps its own time. -/
def modified (file : File) (bytes : List UInt8) (time : Int) : File :=
  { file with bytes, modified := if file.linked then file.modified else time }

def filesBefore : Edit → List File
  | modify pre post file _ _ => pre ++ file :: post
  | add pre post _ => pre ++ post
  | delete pre post file => pre ++ file :: post
  | rename pre between post file _ true => pre ++ file :: (between ++ post)
  | rename pre between post file _ false => pre ++ (between ++ file :: post)

def filesAfter : Edit → List File
  | modify pre post file bytes time => pre ++ modified file bytes time :: post
  | add pre post file => pre ++ file :: post
  | delete pre post _ => pre ++ post
  | rename pre between post file path true => pre ++ (between ++ { file with path } :: post)
  | rename pre between post file path false => pre ++ { file with path } :: (between ++ post)

def before (edit : Edit) (root name : String) : Workspace :=
  { root, name, files := edit.filesBefore }

def after (edit : Edit) (root name : String) : Workspace :=
  { root, name, files := edit.filesAfter }

/-- The renamed file is watched under one of its paths only, or goes past a watched file of
another time. -/
def MoveNoticed (between : List File) (file : File) (path : Path) : Prop :=
  stamp file.modified ≠ none ∧
    (isWatched file.path ≠ isWatched path ∨
      isWatched file.path = true ∧ isWatched path = true ∧
        ∃ other ∈ between, fedBy other ≠ none ∧ fedBy other ≠ stamp file.modified)

/-- A file that is no seed changes, or its move is noticed, and its time counts. -/
def Noticed (edit : Edit) (name : String) : Prop :=
  isIgnored name = false ∧
    match edit with
    | modify _ _ file _ time =>
      isSeedPath file.path = false ∧ file.linked = false ∧ stamp time ≠ stamp file.modified
    | add _ _ file | delete _ _ file =>
      isSeedPath file.path = false ∧ stamp file.modified ≠ none
    | rename _ between _ file path _ => MoveNoticed between file path

end Edit

/-! ## What discovery reads is watched, but for seeds -/

theorem isIgnored_getLast {name ext : String} (hlast : path.getLast? = some name)
    (hext : extension path = some ext) : isIgnored name = false := by
  by_contra h
  have hname : name = ".git" ∨ name = "target" ∨ name = ".phlo" ∨ name = "node_modules" := by
    rw [Bool.not_eq_false] at h
    simpa only [isIgnored, Bool.or_eq_true, beq_iff_eq, or_assoc] using h
  have hnone : splitExtension name = none := by
    rcases hname with rfl | rfl | rfl | rfl <;> decide
  simp [extension, hlast, hnone] at hext

theorem any_isIgnored {ext : String} (hext : extension path = some ext)
    (hdirs : path.dropLast.any isIgnored = false) : path.any isIgnored = false := by
  rcases List.eq_nil_or_concat path with rfl | ⟨dirs, name, rfl⟩
  · rfl
  · rw [List.concat_eq_append] at hext hdirs ⊢
    rw [List.dropLast_concat] at hdirs
    rw [List.any_append, hdirs]
    simpa using isIgnored_getLast (by simp) hext

theorem isWatched_of_isSqlPath (h : isSqlPath path = true) : isWatched path = true := by
  simp only [isSqlPath, Bool.and_eq_true, beq_iff_eq, Bool.not_eq_true'] at h
  simp [isWatched, any_isIgnored h.1 h.2, h.1]

theorem extension_toml {name : String} (hlast : path.getLast? = some name)
    (hname : splitExtension name = some ("phlo", "toml") ∨
      splitExtension name = some ("transform", "toml")) : extension path = some "toml" := by
  rcases hname with hname | hname <;> simp [extension, hlast, hname]

theorem isWatched_of_isSettingsPath (h : isSettingsPath path = true) : isWatched path = true := by
  simp only [isSettingsPath, Bool.or_eq_true, Bool.and_eq_true, beq_iff_eq,
    Bool.not_eq_true'] at h
  rcases h with rfl | ⟨hlast, hdirs⟩
  · decide
  · have hext : extension path = some "toml" := extension_toml hlast (.inr (by decide))
    simp [isWatched, any_isIgnored hext hdirs, hext]

theorem not_isWatched_of_isSeedPath (h : isSeedPath path = true) : isWatched path = false := by
  simp only [isSeedPath, Bool.and_eq_true, beq_iff_eq] at h
  simp [isWatched, h.1]

/-- What discovery reads of a workspace. -/
def isRead (path : Path) : Bool :=
  isSqlPath path || isSettingsPath path || isSeedPath path

theorem isWatched_eq_of_isRead (h : isRead path = true) : isWatched path = !isSeedPath path := by
  by_cases hseed : isSeedPath path = true
  · simp [hseed, not_isWatched_of_isSeedPath hseed]
  · rw [isRead, Bool.or_eq_true, Bool.or_eq_true] at h
    have hwatched : isWatched path = true :=
      (h.resolve_right hseed).elim isWatched_of_isSqlPath isWatched_of_isSettingsPath
    simp [hseed, hwatched]

/-! ## Edits of files that are not read -/

theorem agree_insert {root name : String} {pre post : List File} (h : isRead file.path = false) :
    Agree { root, name, files := pre ++ post } { root, name, files := pre ++ file :: post } := by
  simp only [isRead, Bool.or_eq_false_iff] at h
  refine ⟨rfl, ?_, ?_, fun path hpath => ?_⟩
  · simp [Workspace.sqlWalk, h.1.1]
  · simp [Workspace.csvWalk, h.2]
  · have hne : (file.path == path) = false := by
      rw [beq_eq_false_iff_ne]
      rintro rfl
      simp [h.1.1, h.1.2, h.2] at hpath
    simp [Workspace.bytes?, List.find?_append, hne]

section

variable {Config Root Defaults Model : Type}
variable {frontend : Frontend Config Root Defaults Model}
variable {root name : String} {pre post : List File} {file : File}

theorem loadProject_insert (h : isRead file.path = false) :
    loadProject frontend { root, name, files := pre ++ file :: post } =
      loadProject frontend { root, name, files := pre ++ post } :=
  (loadProject_congr (agree_insert h)).symm

/-- An edit in one place that changes the project is of a file that is read. -/
theorem isRead_of_modify {bytes : List UInt8} {time : Int}
    (h : loadProject frontend ((Edit.modify pre post file bytes time).before root name) ≠
      loadProject frontend ((Edit.modify pre post file bytes time).after root name)) :
    isRead file.path = true := by
  by_contra hread
  rw [Bool.not_eq_true] at hread
  have hmodified : isRead (Edit.modified file bytes time).path = false := hread
  exact h ((loadProject_insert hread).trans (loadProject_insert hmodified).symm)

theorem isRead_of_add (h : loadProject frontend ((Edit.add pre post file).before root name) ≠
      loadProject frontend ((Edit.add pre post file).after root name)) :
    isRead file.path = true := by
  by_contra hread
  rw [Bool.not_eq_true] at hread
  exact h (loadProject_insert hread).symm

theorem isRead_of_delete (h : loadProject frontend ((Edit.delete pre post file).before root name) ≠
      loadProject frontend ((Edit.delete pre post file).after root name)) :
    isRead file.path = true := by
  by_contra hread
  rw [Bool.not_eq_true] at hread
  exact h (loadProject_insert hread)

end

/-! ## What is fed to the fingerprint -/

theorem filterMap_place (pre post : List File) (file : File) :
    (pre ++ file :: post).filterMap fedBy =
      pre.filterMap fedBy ++ ((fedBy file).toList ++ post.filterMap fedBy) := by
  rw [List.filterMap_append, List.filterMap_cons]
  cases fedBy file <;> rfl

theorem toList_eq_toList_iff {α : Type} {a b : Option α} : a.toList = b.toList ↔ a = b := by
  cases a <;> cases b <;> simp

theorem cons_eq_concat_iff {α : Type} {a : α} {between : List α} :
    a :: between = between ++ [a] ↔ ∀ b ∈ between, b = a := by
  induction between with
  | nil => simp
  | cons b between ih =>
    rw [List.cons_append, List.cons_eq_cons]
    constructor
    · rintro ⟨rfl, h⟩ c hc
      rcases List.mem_cons.1 hc with rfl | hc
      · rfl
      · exact ih.1 h c hc
    · intro h
      obtain rfl := h b List.mem_cons_self
      exact ⟨rfl, ih.2 fun c hc => h c (List.mem_cons_of_mem _ hc)⟩

theorem forall_fedBy_eq_iff {time : BitVec 64} :
    (∀ value ∈ between.filterMap fedBy, value = time) ↔
      ¬ ∃ other ∈ between, fedBy other ≠ none ∧ fedBy other ≠ some time := by
  constructor
  · rintro h ⟨other, hother, hsome, hne⟩
    obtain ⟨value, hvalue⟩ := Option.ne_none_iff_exists'.1 hsome
    exact hne (hvalue.trans
      (congrArg some (h value (List.mem_filterMap.2 ⟨other, hother, hvalue⟩))))
  · intro h value hvalue
    obtain ⟨other, hother, hfed⟩ := List.mem_filterMap.1 hvalue
    by_contra hne
    exact h ⟨other, hother, by simp [hfed], by simp [hfed, hne]⟩

theorem moved_eq_iff :
    (fedBy file).toList ++ between.filterMap fedBy =
        between.filterMap fedBy ++ (fedBy { file with path }).toList ↔
      ¬ Edit.MoveNoticed between file path := by
  unfold Edit.MoveNoticed
  cases hstamp : stamp file.modified with
  | none => simp [fedBy, hstamp]
  | some time =>
    cases hold : isWatched file.path <;> cases hnew : isWatched path
    · simp [fedBy, hold, hnew]
    · simp [fedBy, hold, hnew, hstamp]
    · simp [fedBy, hold, hnew, hstamp]
    · have hfile : (fedBy file).toList = [time] := by simp [fedBy, hold, hstamp]
      have hmoved : (fedBy { file with path }).toList = [time] := by simp [fedBy, hnew, hstamp]
      rw [hfile, hmoved, List.singleton_append, cons_eq_concat_iff, forall_fedBy_eq_iff]
      simp

theorem moved_ne_iff {pre post : List File} (file : File) (path : Path) :
    (pre ++ file :: (between ++ post)).filterMap fedBy ≠
        (pre ++ (between ++ { file with path } :: post)).filterMap fedBy ↔
      Edit.MoveNoticed between file path := by
  rw [filterMap_place, ← List.append_assoc pre, filterMap_place, List.filterMap_append,
    List.filterMap_append, List.append_assoc, Ne, List.append_cancel_left_eq, ← List.append_assoc,
    ← List.append_assoc, List.append_cancel_right_eq, moved_eq_iff, not_not]

theorem moveNoticed_back :
    Edit.MoveNoticed between { file with path } file.path ↔
      Edit.MoveNoticed between file path := by
  refine and_congr_right fun _ => or_congr ne_comm ?_
  exact ⟨fun ⟨hnew, hold, hpast⟩ => ⟨hold, hnew, hpast⟩,
    fun ⟨hold, hnew, hpast⟩ => ⟨hnew, hold, hpast⟩⟩

namespace Edit

variable {Config Root Defaults Model H : Type} {frontend : Frontend Config Root Defaults Model}

theorem fed_ne_iff {edit : Edit} {root name : String} :
    fed (edit.before root name) ≠ fed (edit.after root name) ↔
      isIgnored name = false ∧
        edit.filesBefore.filterMap fedBy ≠ edit.filesAfter.filterMap fedBy := by
  cases hname : isIgnored name <;> simp [fed, before, after, hname]

theorem modify_ne_iff {pre post : List File} {file : File} {bytes : List UInt8} {time : Int} :
    (pre ++ file :: post).filterMap fedBy ≠
        (pre ++ modified file bytes time :: post).filterMap fedBy ↔
      isWatched file.path = true ∧ file.linked = false ∧ stamp time ≠ stamp file.modified := by
  rw [filterMap_place, filterMap_place, Ne, List.append_cancel_left_eq,
    List.append_cancel_right_eq]
  cases hwatched : isWatched file.path <;> cases hlinked : file.linked
  · simp [fedBy, modified, hwatched]
  · simp [fedBy, modified, hwatched]
  · have htoList : (fedBy file).toList = (fedBy (modified file bytes time)).toList ↔
        stamp time = stamp file.modified := by
      rw [toList_eq_toList_iff]
      simp [fedBy, modified, hwatched, hlinked, eq_comm]
    simp [htoList]
  · simp [fedBy, modified, hwatched, hlinked]

theorem insert_ne_iff {pre post : List File} {file : File} :
    (pre ++ file :: post).filterMap fedBy ≠ (pre ++ post).filterMap fedBy ↔
      isWatched file.path = true ∧ stamp file.modified ≠ none := by
  rw [filterMap_place, List.filterMap_append, Ne, List.append_cancel_left_eq,
    List.append_left_eq_self]
  cases hwatched : isWatched file.path <;> cases hstamp : stamp file.modified <;>
    simp [fedBy, hwatched, hstamp]

/-- Of the edits that change the project, the ones that change the fingerprint. -/
theorem noticed_iff (fold : List (BitVec 64) → H) (hfold : Function.Injective fold)
    (root name : String) (edit : Edit)
    (h : loadProject frontend (edit.before root name) ≠
      loadProject frontend (edit.after root name)) :
    fold (fed (edit.before root name)) ≠ fold (fed (edit.after root name)) ↔ edit.Noticed name := by
  rw [hfold.ne_iff, fed_ne_iff]
  refine and_congr_right fun _ => ?_
  cases edit with
  | modify pre post file bytes time =>
    have hwatched := isWatched_eq_of_isRead (isRead_of_modify h)
    exact modify_ne_iff.trans (by simp [hwatched])
  | add pre post file =>
    have hwatched := isWatched_eq_of_isRead (isRead_of_add h)
    exact ne_comm.trans (insert_ne_iff.trans (by simp [hwatched]))
  | delete pre post file =>
    have hwatched := isWatched_eq_of_isRead (isRead_of_delete h)
    exact insert_ne_iff.trans (by simp [hwatched])
  | rename pre between post file path later =>
    cases later with
    | true => exact moved_ne_iff file path
    | false =>
      exact ne_comm.trans ((moved_ne_iff { file with path } file.path).trans
        moveNoticed_back)

end Edit

namespace Sample

variable {workspace : Workspace}

def frontend : Frontend Unit Unit Unit Empty where
  phloConfig text :=
    match text with
    | "[seeds]\nschema = \"raw\"\n" =>
      .ok { includes := [], excludes := [], defaultNamespace := none,
            seedsSchema := some "raw", seed := [], rest := () }
    | "[seeds]\nschema = \"base\"\n" =>
      .ok { includes := [], excludes := [], defaultNamespace := none,
            seedsSchema := some "base", seed := [], rest := () }
    | _ => .error "unexpected settings"
  noPhloConfig := ()
  rootConfig _ := .error "unexpected settings"
  noRootConfig := ()
  glob pattern := .ok fun path => pattern == "tests/**" && path.startsWith "tests/"
  globsetError _ := none
  defaults _ := ((), [])
  model _ _ _ _ := .error (.error projectInvalidModelId "unexpected model")
  modelId := Empty.elim
  digest
    | [105, 100, 10, 49, 10] =>
      "7cde7fb64fd82bd152710cf238e017b9ab46c0592483edc067ba4f6c75fac108"
    | [105, 100, 10, 50, 10] =>
      "4ece338a824893ad18a76a3173acce24b5e60addef0d55bf47ea13070ea88daa"
    | _ => ""
  seedColumns _ := ["id"]

def seed : File :=
  { path := ["seeds", "customers.csv"], modified := 1000, linked := false,
    bytes := "id\n1\n".toUTF8.data.toList }

def rawText : String := "[seeds]\nschema = \"raw\"\n"

def baseText : String := "[seeds]\nschema = \"base\"\n"

def settings : File :=
  { path := ["phlo.toml"], modified := 1000, linked := false,
    bytes := rawText.toUTF8.data.toList }

def seedEdit : Edit := .modify [settings] [] seed "id\n2\n".toUTF8.data.toList 2000

def settingsEdit : Edit :=
  .modify [] [seed] settings baseText.toUTF8.data.toList 2000

theorem buildGlobset_ok (patterns : List String) :
    ∃ globset, buildGlobset frontend patterns = .ok globset := by
  obtain ⟨globs, hglobs⟩ : ∃ globs, patterns.mapM (buildGlob frontend) = .ok globs := by
    induction patterns with
    | nil => exact ⟨[], rfl⟩
    | cons pattern patterns ih =>
      obtain ⟨globs, hglobs⟩ := ih
      exact ⟨_, by rw [List.mapM_cons, hglobs]; rfl⟩
  exact ⟨_, by rw [buildGlobset, hglobs]; rfl⟩

theorem loadProject_seeds {config : PhloConfig Unit}
    (h : readPhloConfig frontend workspace = .ok config) :
    (loadProject frontend workspace).map SemanticProject.seeds =
      .ok (loadSeeds frontend workspace config).1 := by
  obtain ⟨included, hincluded⟩ := buildGlobset_ok (combinedIncludes config)
  obtain ⟨excluded, hexcluded⟩ := buildGlobset_ok (combinedExcludes config)
  simp [loadProject, h, hincluded, hexcluded, bind, Except.bind, pure, Except.pure, Except.map,
    lowerProject]

theorem loadProject_ne {a b : Workspace} {config config' : PhloConfig Unit}
    (ha : readPhloConfig frontend a = .ok config) (hb : readPhloConfig frontend b = .ok config')
    (hseeds : (loadSeeds frontend a config).1 ≠ (loadSeeds frontend b config').1) :
    loadProject frontend a ≠ loadProject frontend b := by
  intro h
  have hmap := congrArg (Except.map SemanticProject.seeds) h
  rw [loadProject_seeds ha, loadProject_seeds hb] at hmap
  exact hseeds (Except.ok.inj hmap)

def rawSeeds : PhloConfig Unit := ⟨[], [], none, some "raw", [], ()⟩

def baseSeeds : PhloConfig Unit := ⟨[], [], none, some "base", [], ()⟩

theorem csvWalk_singleton (path : Path) (h : workspace.csvWalk = [path]) (config : PhloConfig Unit)
    : loadSeeds frontend workspace config = loadSeed frontend workspace config ([], []) path := by
  simp [loadSeeds, h, sortPaths]

theorem readPhloConfig_of_text (text : String) (config : PhloConfig Unit)
    (hfile : workspace.isFile ["phlo.toml"] = true)
    (htext : (workspace.readToString ["phlo.toml"]).toOption = some text)
    (hconfig : frontend.phloConfig text = .ok config) :
    readPhloConfig frontend workspace = .ok config := by
  simp [readPhloConfig, hfile, Library.eq_ok_of_toOption htext, hconfig]

theorem seedEdit_changes :
    loadProject frontend (seedEdit.before "/srv/shop" "shop") ≠
      loadProject frontend (seedEdit.after "/srv/shop" "shop") := by
  refine loadProject_ne (readPhloConfig_of_text rawText rawSeeds rfl (by decide) rfl)
    (readPhloConfig_of_text rawText rawSeeds rfl (by decide) rfl) ?_
  rw [csvWalk_singleton seed.path (by decide), csvWalk_singleton seed.path (by decide)]
  decide

/-- The watcher sees nothing of a seed that has been modified. -/
theorem seedEdit_unnoticed :
    (Edit.modified seed "id\n2\n".toUTF8.data.toList 2000).modified ≠ seed.modified ∧
      loadProject frontend (seedEdit.before "/srv/shop" "shop") ≠
        loadProject frontend (seedEdit.after "/srv/shop" "shop") ∧
      fed (seedEdit.before "/srv/shop" "shop") = fed (seedEdit.after "/srv/shop" "shop") ∧
      workspaceFingerprint (seedEdit.before "/srv/shop" "shop") =
        workspaceFingerprint (seedEdit.after "/srv/shop" "shop") :=
  ⟨by decide, seedEdit_changes, by decide, by decide⟩

theorem settingsEdit_changes :
    loadProject frontend (settingsEdit.before "/srv/shop" "shop") ≠
      loadProject frontend (settingsEdit.after "/srv/shop" "shop") := by
  refine loadProject_ne (readPhloConfig_of_text rawText rawSeeds rfl (by decide) rfl)
    (readPhloConfig_of_text baseText baseSeeds rfl (by decide) rfl) ?_
  rw [csvWalk_singleton seed.path (by decide), csvWalk_singleton seed.path (by decide)]
  decide

theorem settingsEdit_noticed :
    fed (settingsEdit.before "/srv/shop" "shop") ≠ fed (settingsEdit.after "/srv/shop" "shop") ↔
      settingsEdit.Noticed "shop" :=
  Edit.noticed_iff id Function.injective_id "/srv/shop" "shop" settingsEdit settingsEdit_changes

end Sample

end PhloTransform.Daemon.Watching
