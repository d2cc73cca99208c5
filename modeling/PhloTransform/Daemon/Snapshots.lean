import Mathlib.Logic.Function.Basic
import PhloTransform.Library.StepSystem

/-!
# The published snapshot

The daemon serves a compilation of the workspace.  A reload reads the files, compiles them and
installs the result; the watcher, reload operations and requests each reload on a thread of
their own, and only the installation is under a lock.  Files may be edited at any time, also
while a reload is reading.

Main results:

- Theorem `Service.Inv.step`: what an orderly turn preserves.
- Theorem `snapshot_forward_of_orderly`: a run of orderly turns never publishes a snapshot of
  older files, and settles on the files as they are.
-/

namespace PhloTransform.Daemon.Reloading

open Library (StepSystem)

variable {Path Content Compiled F : Type}

/-! ## Reloads -/

/-- A file or its absence, and how often it has been edited. -/
structure File (Content : Type) where
  version : Nat
  content : Option Content

/-- A file as it was, and as it is. -/
structure Upto (f g : File Content) : Prop where
  le : f.version ≤ g.version
  same : f.version = g.version → f = g

/-- Who reloads. -/
inductive Writer where
  | watcher
  | operation
  | request

/-- Where a reload stands. -/
inductive Stage (Path Content : Type) where
  | reading (got : Path → Option (File Content))
  | compiled (base : Path → File Content)
  | installed (base : Path → File Content)
  | done (base : Path → File Content)

namespace Stage

/-- The files that have been read, once all of them have. -/
def base? : Stage Path Content → Option (Path → File Content)
  | reading _ => none
  | compiled base | installed base | done base => some base

/-- The file as it was read, if it has been read. -/
def file? : Stage Path Content → Path → Option (File Content)
  | reading got, p => got p
  | compiled base, p | installed base, p | done base, p => some (base p)

def isInstalled : Stage Path Content → Bool
  | reading _ | compiled _ => false
  | installed _ | done _ => true

theorem file?_of_base? {stage : Stage Path Content} {base : Path → File Content}
    (h : stage.base? = some base) (p : Path) : stage.file? p = some (base p) := by
  cases stage <;> cases h <;> rfl

end Stage

structure Reload (Path Content : Type) where
  writer : Writer
  startedAt : Nat
  stage : Stage Path Content

/-- A compilation and the files it was made of. -/
structure Snapshot (Path Content Compiled : Type) where
  base : Path → File Content
  compilation : Compiled

/-- The snapshot was made of the same files or older ones. -/
def Snapshot.NotNewer (a b : Snapshot Path Content Compiled) : Prop :=
  ∀ p, (a.base p).version ≤ (b.base p).version

/-- What a workspace compiles to, and what the watcher compares. -/
structure Setup (Path Content Compiled F : Type) where
  compile : (Path → Option Content) → Compiled
  fingerprint : (Path → File Content) → F

/-- The daemon and its workspace. -/
structure Service (Path Content Compiled F : Type) where
  files : Path → File Content
  edits : Nat
  count : Nat
  reloads : Nat → Option (Reload Path Content)
  snapshot : Snapshot Path Content Compiled
  published : List (Snapshot Path Content Compiled)
  lastUpdate : String
  previous : F
  waiting : Option Nat

/-- What happens next. -/
inductive Turn (Path Content : Type) where
  | edit (p : Path) (content : Option Content)
  | submit (writer : Writer)
  | watch
  | read (n : Nat) (batch : Path → Bool)
  | compile (n : Nat)
  | install (n : Nat)
  | stamp (n : Nat) (now : String)

namespace Service

variable (setup : Setup Path Content Compiled F)

def contents (files : Path → File Content) (p : Path) : Option Content := (files p).content

/-- The daemon after it has been opened. -/
def opened (files : Path → Option Content) (now : String) : Service Path Content Compiled F :=
  let base := fun p => { version := 0, content := files p }
  let snapshot := { base, compilation := setup.compile files }
  { files := base
    edits := 0
    count := 0
    reloads := fun _ => none
    snapshot
    published := [snapshot]
    lastUpdate := now
    previous := setup.fingerprint base
    waiting := none }

def start (s : Service Path Content Compiled F) (writer : Writer) :
    Service Path Content Compiled F :=
  { s with
    count := s.count + 1
    reloads := Function.update s.reloads s.count
      (some { writer, startedAt := s.edits, stage := .reading fun _ => none }) }

def advance (s : Service Path Content Compiled F) (n : Nat) (reload : Reload Path Content)
    (stage : Stage Path Content) : Service Path Content Compiled F :=
  { s with reloads := Function.update s.reloads n (some { reload with stage }) }

/-- A snapshot replaces the one before it. -/
def publish (s : Service Path Content Compiled F) (snapshot : Snapshot Path Content Compiled) :
    Service Path Content Compiled F :=
  { s with snapshot, published := s.published ++ [snapshot] }

def step [DecidableEq Path] [DecidableEq F] (s : Service Path Content Compiled F) :
    Turn Path Content → Option (Service Path Content Compiled F)
  | .edit p content =>
    some { s with
      files := Function.update s.files p { version := (s.files p).version + 1, content }
      edits := s.edits + 1 }
  | .submit writer =>
    match writer with
    | .watcher => none
    | .operation | .request => some (s.start writer)
  | .watch =>
    match s.waiting with
    | some _ => none
    | none =>
      let current := setup.fingerprint s.files
      if current = s.previous then some s
      else some { s.start .watcher with previous := current, waiting := some s.count }
  | .read n batch =>
    match s.reloads n with
    | some reload =>
      match reload.stage with
      | .reading got =>
        some (s.advance n reload (.reading fun p =>
          if batch p && (got p).isNone then some (s.files p) else got p))
      | _ => none
    | none => none
  | .compile n =>
    match s.reloads n with
    | some reload =>
      match reload.stage with
      | .reading got => some (s.advance n reload (.compiled fun p => (got p).getD (s.files p)))
      | _ => none
    | none => none
  | .install n =>
    match s.reloads n with
    | some reload =>
      match reload.stage with
      | .compiled base =>
        some ((s.advance n reload (.installed base)).publish
          { base, compilation := setup.compile (contents base) })
      | _ => none
    | none => none
  | .stamp n now =>
    match s.reloads n with
    | some reload =>
      match reload.stage with
      | .installed base =>
        some { s.advance n reload (.done base) with
          lastUpdate := now
          waiting := if s.waiting = some n then none else s.waiting }
      | _ => none
    | none => none

/-- The reload began after the last edit. -/
def SinceLastEdit (s : Service Path Content Compiled F) (reload : Reload Path Content) : Prop :=
  reload.startedAt = s.edits

/-- No file is edited between being read by a reload and being read by one that began before it;
and a reload only installs after the ones that began after it when nothing has been edited since
it began. -/
def Orderly (s : Service Path Content Compiled F) : Turn Path Content → Prop
  | .edit p _ => ∀ m n a b, m < n → s.reloads m = some a → s.reloads n = some b →
      b.stage.file? p ≠ none → a.stage.file? p ≠ none
  | .install n => ∀ a, s.reloads n = some a → s.SinceLastEdit a ∨
      ∀ m b, n < m → s.reloads m = some b → b.stage.isInstalled = false
  | .submit _ | .watch | .read _ _ | .compile _ | .stamp _ _ => True

/-- No snapshot was replaced by one that was made of older files. -/
def Forward (s : Service Path Content Compiled F) : Prop :=
  s.published.Pairwise Snapshot.NotNewer

/-- Once reloads have begun after the last edit and all of them have installed what they
compiled, the snapshot is the compilation of the files. -/
def Settles (s : Service Path Content Compiled F) : Prop :=
  (∃ n reload, s.reloads n = some reload ∧ s.SinceLastEdit reload) →
    (∀ n reload, s.reloads n = some reload → s.SinceLastEdit reload →
      reload.stage.isInstalled = true) →
    s.snapshot.compilation = setup.compile (contents s.files)

end Service

/-- The daemon and whoever edits its workspace. -/
def daemon [DecidableEq Path] [DecidableEq F] (setup : Setup Path Content Compiled F) :
    StepSystem (Service Path Content Compiled F) (Turn Path Content) where
  step := Service.step setup

/-! ## What has been read -/

theorem Upto.refl (f : File Content) : Upto f f :=
  ⟨le_rfl, fun _ => rfl⟩

theorem Upto.edited [DecidableEq Path] {files : Path → File Content} {q : Path}
    {f : File Content} (h : Upto f (files q)) (p : Path) (content : Option Content) :
    Upto f (Function.update files p { version := (files p).version + 1, content } q) := by
  rw [Function.update_apply]
  split
  · rename_i hq
    subst hq
    exact ⟨h.le.trans (Nat.le_succ _), fun heq => absurd h.le (by simp [heq])⟩
  · exact h

namespace Service

variable {s : Service Path Content Compiled F} {old new : Stage Path Content}

/-- What reloads have read, in the order in which they began. -/
structure ReadInOrder (s : Service Path Content Compiled F) : Prop where
  fresh : ∀ n, s.count ≤ n → s.reloads n = none
  upto : ∀ n a p f, s.reloads n = some a → a.stage.file? p = some f → Upto f (s.files p)
  started : ∀ n a, s.reloads n = some a → a.startedAt ≤ s.edits
  current : ∀ n a p f, s.reloads n = some a → s.SinceLastEdit a → a.stage.file? p = some f →
    f = s.files p
  ordered : ∀ m n a b p f g, m < n → s.reloads m = some a → s.reloads n = some b →
    a.stage.file? p = some f → b.stage.file? p = some g → f.version ≤ g.version
  ahead : ∀ m n a b p g, m < n → s.reloads m = some a → s.reloads n = some b →
    a.stage.file? p = none → b.stage.file? p = some g → g = s.files p

/-- The stage reads more files, and keeps what has been read. -/
def Grows (s : Service Path Content Compiled F) (old new : Stage Path Content) : Prop :=
  ∀ p, new.file? p = old.file? p ∨
    (old.file? p = none ∧ new.file? p = some (s.files p))

theorem Grows.old_or_file (h : s.Grows old new) {p : Path} {f : File Content}
    (hf : new.file? p = some f) : old.file? p = some f ∨ (old.file? p = none ∧ f = s.files p) := by
  rcases h p with hold | ⟨hnone, hnew⟩
  · exact .inl (hold ▸ hf)
  · exact .inr ⟨hnone, Option.some.inj (hf.symm.trans hnew)⟩

theorem Grows.none_of_none (h : s.Grows old new) {p : Path} (hp : new.file? p = none) :
    old.file? p = none := by
  rcases h p with hold | ⟨hnone, _⟩
  · exact hold ▸ hp
  · exact hnone

theorem Grows.of_eq (h : ∀ p, new.file? p = old.file? p) : s.Grows old new :=
  fun p => .inl (h p)

@[simp]
theorem start_reloads (s : Service Path Content Compiled F) (writer : Writer) (n : Nat) :
    (s.start writer).reloads n = if n = s.count then
      some { writer, startedAt := s.edits, stage := .reading fun _ => none } else s.reloads n := by
  simp [start, Function.update_apply]

@[simp]
theorem advance_reloads (s : Service Path Content Compiled F) (n : Nat)
    (reload : Reload Path Content) (stage : Stage Path Content) (m : Nat) :
    (s.advance n reload stage).reloads m =
      if m = n then some { reload with stage } else s.reloads m := by
  simp [advance, Function.update_apply]

theorem before_advance {n : Nat} {reload : Reload Path Content} {stage : Stage Path Content}
    (hn : s.reloads n = some reload) (hg : s.Grows reload.stage stage) {m : Nat}
    {a : Reload Path Content} (ha : (s.advance n reload stage).reloads m = some a) :
    ∃ b, s.reloads m = some b ∧ b.startedAt = a.startedAt ∧ s.Grows b.stage a.stage ∧
      (m = n ∨ b = a) := by
  rw [advance_reloads] at ha
  split at ha
  · rename_i hm
    cases ha
    exact ⟨reload, hm ▸ hn, rfl, hg, .inl hm⟩
  · exact ⟨a, ha, rfl, .of_eq fun _ => rfl, .inr rfl⟩

namespace ReadInOrder

theorem advance {s : Service Path Content Compiled F} (h : s.ReadInOrder) {n : Nat}
    {reload : Reload Path Content} {stage : Stage Path Content}
    (hn : s.reloads n = some reload) (hg : s.Grows reload.stage stage) :
    (s.advance n reload stage).ReadInOrder where
  fresh := by
    intro m hm
    have hne : m ≠ n := fun heq => by
      rw [h.fresh n (heq ▸ hm)] at hn
      cases hn
    rw [advance_reloads, if_neg hne]
    exact h.fresh m hm
  upto := by
    intro m a p f ha hf
    obtain ⟨b, hb, -, hgrows, -⟩ := before_advance hn hg ha
    rcases hgrows.old_or_file hf with hold | ⟨-, rfl⟩
    · exact h.upto m b p f hb hold
    · exact Upto.refl _
  started := by
    intro m a ha
    obtain ⟨b, hb, hstart, -⟩ := before_advance hn hg ha
    exact hstart ▸ h.started m b hb
  current := by
    intro m a p f ha hlast hf
    obtain ⟨b, hb, hstart, hgrows, -⟩ := before_advance hn hg ha
    rcases hgrows.old_or_file hf with hold | ⟨-, heq⟩
    · exact h.current m b p f hb (hstart.trans hlast) hold
    · exact heq
  ordered := by
    intro m k a b p f g hmk ha hb hf hgf
    obtain ⟨a', ha', -, hga, hma⟩ := before_advance hn hg ha
    obtain ⟨b', hb', -, hgb, hkb⟩ := before_advance hn hg hb
    rcases hga.old_or_file hf with hfold | ⟨hfnone, hfeq⟩
    · rcases hgb.old_or_file hgf with hgold | ⟨-, hgeq⟩
      · exact h.ordered m k a' b' p f g hmk ha' hb' hfold hgold
      · exact hgeq ▸ (h.upto m a' p f ha' hfold).le
    · -- The earlier reload reads, so the later one does not: what it has read is still the file.
      rcases hgb.old_or_file hgf with hgold | ⟨-, hgeq⟩
      · have := h.ahead m k a' b' p g hmk ha' hb' hfnone hgold
        exact (hfeq.trans this.symm) ▸ le_rfl
      · exact (hfeq.trans hgeq.symm) ▸ le_rfl
  ahead := by
    intro m k a b p g hmk ha hb hf hgf
    obtain ⟨a', ha', -, hga, -⟩ := before_advance hn hg ha
    obtain ⟨b', hb', -, hgb, -⟩ := before_advance hn hg hb
    rcases hgb.old_or_file hgf with hgold | ⟨-, hgeq⟩
    · exact h.ahead m k a' b' p g hmk ha' hb' (hga.none_of_none hf) hgold
    · exact hgeq

theorem before_start {s : Service Path Content Compiled F} {writer : Writer} {m : Nat}
    {a : Reload Path Content} {p : Path} {f : File Content}
    (ha : (s.start writer).reloads m = some a) (hf : a.stage.file? p = some f) :
    s.reloads m = some a := by
  rw [start_reloads] at ha
  split at ha
  · cases ha
    cases hf
  · exact ha

theorem start {s : Service Path Content Compiled F} (h : s.ReadInOrder) (writer : Writer) :
    (s.start writer).ReadInOrder where
  fresh := by
    intro n hn
    have hlt : s.count < n := hn
    rw [start_reloads, if_neg hlt.ne']
    exact h.fresh n hlt.le
  upto := fun n a p f ha hf => h.upto n a p f (before_start ha hf) hf
  started := by
    intro n a ha
    rw [start_reloads] at ha
    split at ha
    · cases ha
      exact le_rfl
    · exact h.started n a ha
  current := fun n a p f ha hlast hf => h.current n a p f (before_start ha hf) hlast hf
  ordered := fun m n a b p f g hmn ha hb hf hg =>
    h.ordered m n a b p f g hmn (before_start ha hf) (before_start hb hg) hf hg
  ahead := by
    intro m n a b p g hmn ha hb hf hg
    have hb' := before_start hb hg
    have hlt : n < s.count := by
      by_contra hge
      rw [h.fresh n (not_lt.1 hge)] at hb'
      cases hb'
    rw [start_reloads, if_neg (hmn.trans hlt).ne] at ha
    exact h.ahead m n a b p g hmn ha hb' hf hg

theorem edit [DecidableEq Path] [DecidableEq F] {setup : Setup Path Content Compiled F}
    {s t : Service Path Content Compiled F} (h : s.ReadInOrder)
    {p : Path} {content : Option Content} (horderly : s.Orderly (.edit p content))
    (hstep : step setup s (.edit p content) = some t) : t.ReadInOrder := by
  cases hstep
  refine ⟨h.fresh, ?_, ?_, ?_, h.ordered, ?_⟩
  · intro n a q f ha hf
    exact (h.upto n a q f ha hf).edited p content
  · exact fun n a ha => (h.started n a ha).trans (Nat.le_succ _)
  · intro n a q f ha hlast hf
    -- No reload has begun since this edit.
    have hle := h.started n a ha
    have heq : a.startedAt = s.edits + 1 := hlast
    omega
  · intro m n a b q g hmn ha hb hf hg
    have hne : q ≠ p := by
      rintro rfl
      exact horderly m n a b hmn ha hb (by simp [hg]) hf
    simpa [hne] using h.ahead m n a b q g hmn ha hb hf hg

end ReadInOrder

/-! ## What has been published -/

variable (setup : Setup Path Content Compiled F)

/-- The snapshot is ahead of all that were installed. -/
structure PublishedInOrder (s : Service Path Content Compiled F) : Prop where
  upto : ∀ p, Upto (s.snapshot.base p) (s.files p)
  origin : (∀ p, (s.snapshot.base p).version = 0) ∨
    ∃ n a, s.reloads n = some a ∧ a.stage.isInstalled = true ∧
      a.stage.base? = some s.snapshot.base
  newest : ∀ n a base, s.reloads n = some a → a.stage.isInstalled = true →
    a.stage.base? = some base → ∀ p, (base p).version ≤ (s.snapshot.base p).version
  compiled : s.snapshot.compilation = setup.compile (contents s.snapshot.base)
  last : ∃ rest, s.published = rest ++ [s.snapshot]
  forward : s.Forward

/-- What holds while turns are orderly. -/
structure Inv (s : Service Path Content Compiled F) : Prop where
  reads : s.ReadInOrder
  publishes : s.PublishedInOrder setup

namespace PublishedInOrder

variable {setup}

theorem advance {s : Service Path Content Compiled F} (h : s.PublishedInOrder setup) {n : Nat}
    {reload : Reload Path Content} {stage : Stage Path Content} (hn : s.reloads n = some reload)
    (hinstalled : stage.isInstalled = true → reload.stage.isInstalled = true)
    (hkept : reload.stage.isInstalled = true →
      stage.isInstalled = true ∧ stage.base? = reload.stage.base?) :
    (s.advance n reload stage).PublishedInOrder setup where
  upto := h.upto
  origin := by
    refine h.origin.imp_right ?_
    rintro ⟨m, a, ha, hin, hbase⟩
    by_cases hmn : m = n
    · subst hmn
      cases hn.symm.trans ha
      exact ⟨m, { reload with stage }, by simp, (hkept hin).1, (hkept hin).2.trans hbase⟩
    · exact ⟨m, a, by simp [hmn, ha], hin, hbase⟩
  newest := by
    intro m a base ha hin hbase
    rw [advance_reloads] at ha
    split at ha
    · cases ha
      have hold := hinstalled hin
      exact h.newest n reload base hn hold ((hkept hold).2 ▸ hbase)
    · exact h.newest m a base ha hin hbase
  compiled := h.compiled
  last := h.last
  forward := h.forward

theorem start {s : Service Path Content Compiled F} (h : s.PublishedInOrder setup)
    (hreads : s.ReadInOrder) (writer : Writer) : (s.start writer).PublishedInOrder setup where
  upto := h.upto
  origin := by
    refine h.origin.imp_right ?_
    rintro ⟨m, a, ha, hin, hbase⟩
    have hne : m ≠ s.count := fun heq => by
      rw [hreads.fresh m heq.ge] at ha
      cases ha
    exact ⟨m, a, by simp [hne, ha], hin, hbase⟩
  newest := by
    intro m a base ha hin hbase
    rw [start_reloads] at ha
    split at ha
    · cases ha
      cases hin
    · exact h.newest m a base ha hin hbase
  compiled := h.compiled
  last := h.last
  forward := h.forward

theorem edit [DecidableEq Path] [DecidableEq F] {s t : Service Path Content Compiled F}
    (h : s.PublishedInOrder setup) {p : Path} {content : Option Content}
    (hstep : step setup s (.edit p content) = some t) : t.PublishedInOrder setup := by
  cases hstep
  exact { h with upto := fun q => (h.upto q).edited p content }

/-- A reload that installs in order is not older than the snapshot. -/
theorem notNewer {s : Service Path Content Compiled F} (h : s.PublishedInOrder setup)
    (hreads : s.ReadInOrder) {n : Nat} {reload : Reload Path Content}
    {base : Path → File Content} (horderly : s.Orderly (.install n))
    (hn : s.reloads n = some reload) (hstage : reload.stage = .compiled base) :
    s.snapshot.NotNewer { base, compilation := setup.compile (contents base) } := by
  intro p
  have hfile : reload.stage.file? p = some (base p) := by rw [hstage]; rfl
  rcases horderly reload hn with hlast | hlater
  · have hbase : base p = s.files p := hreads.current n reload p (base p) hn hlast hfile
    exact (h.upto p).le.trans (le_of_eq (congrArg File.version hbase.symm))
  · rcases h.origin with hzero | ⟨k, a, ha, hin, hbase⟩
    · exact (hzero p).symm ▸ Nat.zero_le _
    · have hk : k < n := by
        rcases Nat.lt_trichotomy k n with hlt | rfl | hgt
        · exact hlt
        · cases hn.symm.trans ha
          simp [hstage, Stage.isInstalled] at hin
        · simp [hlater k a hgt ha] at hin
      exact hreads.ordered k n a reload p _ _ hk ha hn (Stage.file?_of_base? hbase p) hfile

theorem install {s t : Service Path Content Compiled F}
    (h : s.PublishedInOrder setup) (hreads : s.ReadInOrder) {n : Nat}
    {reload : Reload Path Content} {base : Path → File Content}
    (horderly : s.Orderly (.install n)) (hn : s.reloads n = some reload)
    (hstage : reload.stage = .compiled base)
    (ht : t = (s.advance n reload (.installed base)).publish
      { base, compilation := setup.compile (contents base) }) :
    t.PublishedInOrder setup := by
  subst ht
  have hnewer := h.notNewer hreads horderly hn hstage
  have hfile : ∀ p, reload.stage.file? p = some (base p) := fun p => by rw [hstage]; rfl
  refine
    { upto := fun p => hreads.upto n reload p (base p) hn (hfile p)
      origin := .inr ⟨n, { reload with stage := .installed base }, by simp [publish], rfl, rfl⟩
      newest := ?_
      compiled := rfl
      last := ⟨s.published, rfl⟩
      forward := ?_ }
  · intro m a other ha hin hother p
    have ha' : (s.advance n reload (.installed base)).reloads m = some a := ha
    rw [advance_reloads] at ha'
    split at ha'
    · cases ha'
      cases hother
      exact le_rfl
    · exact (h.newest m a other ha' hin hother p).trans (hnewer p)
  · obtain ⟨rest, hrest⟩ := h.last
    refine List.pairwise_append.2 ⟨h.forward, List.pairwise_singleton _ _, ?_⟩
    intro old hold new hnew
    rw [List.mem_singleton] at hnew
    subst hnew
    replace hold : old ∈ s.published := hold
    have hforward := h.forward
    unfold Forward at hforward
    rw [hrest, List.pairwise_append] at hforward
    rw [hrest, List.mem_append, List.mem_singleton] at hold
    rcases hold with hold | rfl
    · exact fun p => (hforward.2.2 old hold _ (by simp) p).trans (hnewer p)
    · exact hnewer

end PublishedInOrder

variable {setup}

theorem Inv.opened (files : Path → Option Content) (now : String) :
    (Service.opened setup files now).Inv setup where
  reads := by
    refine ⟨fun _ _ => rfl, ?_, ?_, ?_, ?_, ?_⟩ <;> intros <;> contradiction
  publishes := by
    refine ⟨fun _ => Upto.refl _, .inl fun _ => rfl, ?_, rfl, ⟨[], rfl⟩,
      List.pairwise_singleton _ _⟩
    intros
    contradiction

/-- A reload that has installed nothing, and still has not. -/
theorem Inv.advance {s : Service Path Content Compiled F} (h : s.Inv setup) {n : Nat}
    {reload : Reload Path Content} {stage : Stage Path Content}
    (hn : s.reloads n = some reload) (hg : s.Grows reload.stage stage)
    (hinstalled : stage.isInstalled = true → reload.stage.isInstalled = true)
    (hkept : reload.stage.isInstalled = true →
      stage.isInstalled = true ∧ stage.base? = reload.stage.base?) :
    (s.advance n reload stage).Inv setup :=
  ⟨h.reads.advance hn hg, h.publishes.advance hn hinstalled hkept⟩

theorem Inv.watching (h : s.Inv setup) (now : String) (previous : F) (waiting : Option Nat) :
    Service.Inv setup { s with lastUpdate := now, previous, waiting } where
  reads := ⟨h.reads.fresh, h.reads.upto, h.reads.started, h.reads.current, h.reads.ordered,
    h.reads.ahead⟩
  publishes := ⟨h.publishes.upto, h.publishes.origin, h.publishes.newest, h.publishes.compiled,
    h.publishes.last, h.publishes.forward⟩

theorem Inv.start {s : Service Path Content Compiled F} (h : s.Inv setup) (writer : Writer) :
    (s.start writer).Inv setup :=
  ⟨h.reads.start writer, h.publishes.start h.reads writer⟩

theorem Inv.step [DecidableEq Path] [DecidableEq F] {s t : Service Path Content Compiled F}
    {turn : Turn Path Content} (h : s.Inv setup) (horderly : s.Orderly turn)
    (hstep : Service.step setup s turn = some t) : t.Inv setup := by
  cases turn with
  | edit p content =>
    exact ⟨h.reads.edit horderly hstep, h.publishes.edit hstep⟩
  | submit writer =>
    cases writer with
    | watcher => cases hstep
    | operation | request =>
      cases hstep
      exact h.start _
  | watch =>
    simp only [Service.step] at hstep
    split at hstep
    · cases hstep
    · split at hstep <;> cases hstep
      · exact h
      · exact (h.start .watcher).watching s.lastUpdate _ _
  | read n batch =>
    simp only [Service.step] at hstep
    split at hstep
    · rename_i reload hn
      split at hstep <;> cases hstep
      rename_i got hgot
      refine h.advance hn ?_ (fun hin => by cases hin) (fun hin => by rw [hgot] at hin; cases hin)
      intro p
      by_cases hp : batch p && (got p).isNone
      · refine .inr ⟨?_, by simp [Stage.file?, hp]⟩
        rw [Bool.and_eq_true, Option.isNone_iff_eq_none] at hp
        simp [hgot, Stage.file?, hp.2]
      · exact .inl (by simp [hgot, Stage.file?, hp])
    · cases hstep
  | compile n =>
    simp only [Service.step] at hstep
    split at hstep
    · rename_i reload hn
      split at hstep <;> cases hstep
      rename_i got hgot
      refine h.advance hn ?_ (fun hin => by cases hin) (fun hin => by rw [hgot] at hin; cases hin)
      intro p
      rw [hgot]
      by_cases hp : got p = none
      · exact .inr ⟨hp, by simp [Stage.file?, hp]⟩
      · obtain ⟨f, hf⟩ := Option.ne_none_iff_exists'.1 hp
        exact .inl (by simp [Stage.file?, hf])
    · cases hstep
  | install n =>
    simp only [Service.step] at hstep
    split at hstep
    · rename_i reload hn
      split at hstep <;> cases hstep
      rename_i base hbase
      have hreads : (s.advance n reload (.installed base)).ReadInOrder :=
        h.reads.advance hn (.of_eq fun p => by rw [hbase]; rfl)
      exact ⟨⟨hreads.fresh, hreads.upto, hreads.started, hreads.current, hreads.ordered,
        hreads.ahead⟩, h.publishes.install h.reads horderly hn hbase rfl⟩
    · cases hstep
  | stamp n now =>
    simp only [Service.step] at hstep
    split at hstep
    · rename_i reload hn
      split at hstep <;> cases hstep
      rename_i base hbase
      have hdone : (s.advance n reload (.done base)).Inv setup :=
        h.advance hn (.of_eq fun p => by rw [hbase]; rfl) (fun _ => by rw [hbase]; rfl)
          (fun _ => ⟨rfl, by rw [hbase]; rfl⟩)
      exact hdone.watching now s.previous _
    · cases hstep

/-- The snapshot is the compilation of the files, once it is ahead of a reload that read them. -/
theorem Inv.settles (h : s.Inv setup) : s.Settles setup := by
  rintro ⟨n, a, ha, hlast⟩ hall
  have hin := hall n a ha hlast
  have hbase : s.snapshot.base = s.files := by
    funext p
    obtain ⟨base, hb⟩ : ∃ base, a.stage.base? = some base := by
      cases hstage : a.stage <;> simp_all [Stage.isInstalled, Stage.base?]
    have hread : base p = s.files p :=
      h.reads.current n a p (base p) ha hlast (Stage.file?_of_base? hb p)
    have hahead := h.publishes.newest n a base ha hin hb p
    have hupto := h.publishes.upto p
    exact hupto.same (le_antisymm hupto.le (hread ▸ hahead))
  rw [h.publishes.compiled, hbase]

end Service

/-! ## Runs -/

/-- A run of orderly turns never publishes a snapshot of older files, and settles on the files as
they are. -/
theorem snapshot_forward_of_orderly [DecidableEq Path] [DecidableEq F]
    (setup : Setup Path Content Compiled F) (files : Path → Option Content) (now : String)
    (turns : List (Turn Path Content)) (t : Service Path Content Compiled F)
    (horderly : (daemon setup).EachStep Service.Orderly (Service.opened setup files now) turns)
    (hrun : (daemon setup).run (Service.opened setup files now) turns = some t) :
    t.Forward ∧ t.Settles setup := by
  have hinv : t.Inv setup :=
    StepSystem.EachStep.invariant (daemon setup) (P := Service.Inv setup)
      (fun _ _ _ h hq hstep => h.step hq hstep) (.opened files now) horderly hrun
  exact ⟨hinv.publishes.forward, hinv.settles⟩

namespace Sample

def setup : Setup Unit Nat (Option Nat) Nat where
  compile := fun contents => contents ()
  fingerprint := fun files => (files ()).version

def opened : Service Unit Nat (Option Nat) Nat := Service.opened setup (fun _ => some 1) "9:00"

def inOrder : List (Turn Unit Nat) :=
  [.edit () (some 2), .watch, .read 0 fun _ => true, .compile 0, .edit () (some 3),
    .submit .request, .install 0, .compile 1, .stamp 0 "9:01", .install 1, .stamp 1 "9:02"]

def outOfOrder : List (Turn Unit Nat) :=
  [.edit () (some 2), .watch, .compile 0, .edit () (some 3), .submit .request, .compile 1,
    .install 1, .stamp 1 "9:01", .install 0, .stamp 0 "9:02"]

theorem run_inOrder : ∃ t, (daemon setup).run opened inOrder = some t :=
  ⟨_, rfl⟩

theorem orderly_inOrder : (daemon setup).EachStep Service.Orderly opened inOrder := by
  simp [StepSystem.EachStep, daemon, inOrder, opened, setup, Service.opened, Service.step,
    Service.start, Service.advance, Service.publish, Service.Orderly, Service.SinceLastEdit,
    Function.update_apply]
  -- The first reload has read the file when it is edited, and no later one has installed when
  -- it installs.
  refine ⟨by omega, ?_⟩
  intro m b hm hb
  split at hb
  · cases hb
    rfl
  · simp [hm.ne'] at hb

theorem snapshot_forward_inOrder :
    ∃ t, (daemon setup).run opened inOrder = some t ∧ t.Forward ∧ t.Settles setup :=
  run_inOrder.imp fun t ht =>
    ⟨ht, snapshot_forward_of_orderly setup (fun _ => some 1) "9:00" inOrder t orderly_inOrder ht⟩

theorem snapshot_backward :
    ∃ t, (daemon setup).run opened outOfOrder = some t ∧ ¬ t.Forward ∧ ¬ t.Settles setup := by
  refine ⟨_, rfl, ?_, ?_⟩
  · intro h
    -- The second snapshot is of the file after both edits, the third of the file between them.
    have hback := (List.pairwise_iff_getElem.1 h) 1 2 (by decide) (by decide) (by decide) ()
    revert hback
    decide
  · intro h
    have hstale := h ⟨1, _, rfl, rfl⟩ ?_
    · revert hstale
      decide
    · intro n reload hn _
      match n with
      | 0 | 1 =>
        cases hn
        rfl
      | n + 2 => cases hn

end Sample

end PhloTransform.Daemon.Reloading
