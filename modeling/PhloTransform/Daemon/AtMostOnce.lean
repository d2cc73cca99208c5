import PhloTransform.Daemon.Journaling

/-!
# At most one execution for each idempotency key

An append begins its line where the file ends.  When the last line is not ended, because
another thread's line end or a killed one's is missing, the record shares the line and is
lost, and so is a whole record that stands there already.  A lost transition costs
history; a lost reservation costs the key: the next restart does not know it, and the
next submission of it is a new operation.

As long as no reservation shares its line, every key is answered with one operation.

Main results:

- Theorem `Machine.Inv.keep`: accesses that lose no record and reserve no key.
- Theorem `Machine.Inv.step`: the invariant of the keys, the lock and the journal.
-/

namespace PhloTransform.Daemon

open Library

variable {Value : Type}

/-! ## Records of one operation -/

/-- The records report the same operation and reservation. -/
structure Alike (r r' : OperationRecord Value) : Prop where
  id : r.id = r'.id
  key : r.idempotencyKey = r'.idempotencyKey
  hash : r.requestHash = r'.requestHash

namespace Alike

variable {r r' r'' : OperationRecord Value}

theorem refl (r : OperationRecord Value) : Alike r r :=
  ⟨rfl, rfl, rfl⟩

theorem symm (h : Alike r r') : Alike r' r :=
  ⟨h.id.symm, h.key.symm, h.hash.symm⟩

theorem trans (h : Alike r r') (h' : Alike r' r'') : Alike r r'' :=
  ⟨h.id.trans h'.id, h.key.trans h'.key, h.hash.trans h'.hash⟩

theorem journaled [Json Value] (r : OperationRecord Value) : Alike r r.journaled :=
  ⟨rfl, rfl, rfl⟩

theorem start (r : OperationRecord Value) (now : String) : Alike r (r.start now) :=
  ⟨rfl, rfl, rfl⟩

theorem finish (r : OperationRecord Value) (cancelled : Bool)
    (outcome : Except OperationError Value) (now : String) :
    Alike r (r.finish cancelled outcome now) := by
  cases outcome <;> exact ⟨rfl, rfl, rfl⟩

theorem interrupt (r : OperationRecord Value) (now : String) : Alike r (r.interrupt now) :=
  ⟨rfl, rfl, rfl⟩

theorem restore (r : OperationRecord Value) (now : String) : Alike r (r.restore now) :=
  ⟨by simp, by simp, by simp⟩

end Alike

/-- Records that tell operations and reservations apart. -/
structure Coherent (known : OperationRecord Value → Prop) : Prop where
  same : ∀ r r', known r → known r' → r.id = r'.id → Alike r r'
  unique : ∀ r r' key, known r → known r' → r.idempotencyKey = some key →
    r'.idempotencyKey = some key → r.id = r'.id
  hashed : ∀ r, known r → r.requestHash ≠ none

theorem Coherent.of_covered {known known' : OperationRecord Value → Prop} (h : Coherent known)
    (hcovered : ∀ r, known' r → ∃ r₀, known r₀ ∧ Alike r₀ r) : Coherent known' := by
  constructor
  · intro r r' hr hr' hid
    obtain ⟨r₀, hr₀, hlike⟩ := hcovered r hr
    obtain ⟨r₁, hr₁, hlike'⟩ := hcovered r' hr'
    have hsame := h.same r₀ r₁ hr₀ hr₁ (hlike.id.trans (hid.trans hlike'.id.symm))
    exact hlike.symm.trans (hsame.trans hlike')
  · intro r r' key hr hr' hkey hkey'
    obtain ⟨r₀, hr₀, hlike⟩ := hcovered r hr
    obtain ⟨r₁, hr₁, hlike'⟩ := hcovered r' hr'
    have hunique := h.unique r₀ r₁ key hr₀ hr₁ (hlike.key.trans hkey) (hlike'.key.trans hkey')
    exact hlike.id.symm.trans (hunique.trans hlike'.id)
  · intro r hr
    obtain ⟨r₀, hr₀, hlike⟩ := hcovered r hr
    rw [← hlike.hash]
    exact h.hashed r₀ hr₀

theorem Coherent.extend {known : OperationRecord Value → Prop} {new : OperationRecord Value}
    (h : Coherent known) (hid : ∀ r, known r → r.id ≠ new.id)
    (hkey : ∀ r key, known r → new.idempotencyKey = some key → r.idempotencyKey ≠ some key)
    (hhash : new.requestHash ≠ none) : Coherent fun r => known r ∨ r = new := by
  constructor
  · rintro r r' (hr | rfl) (hr' | rfl) heq
    · exact h.same r r' hr hr' heq
    · exact absurd heq (hid r hr)
    · exact absurd heq.symm (hid r' hr')
    · exact Alike.refl r'
  · rintro r r' key (hr | rfl) (hr' | rfl) hk hk'
    · exact h.unique r r' key hr hr' hk hk'
    · exact absurd hk (hkey r key hr hk')
    · exact absurd hk' (hkey r' key hr' hk)
    · rfl
  · rintro r (hr | rfl)
    · exact h.hashed r hr
    · exact hhash

/-! ## Reservations in the journal -/

/-- The operation's reservation has a line of its own. -/
def Backed (journal : LineJournal (OperationRecord Value)) (r : OperationRecord Value) : Prop :=
  ∃ line ∈ journal.lines, line.status = .queued ∧ Alike line r

theorem Backed.alike {journal : LineJournal (OperationRecord Value)}
    {r r' : OperationRecord Value} (h : Backed journal r) (hlike : Alike r r') :
    Backed journal r' := by
  obtain ⟨line, hline, hqueued, hr⟩ := h
  exact ⟨line, hline, hqueued, hr.trans hlike⟩

/-- A piece of a line that holds a reservation. -/
def reserves : Piece (OperationRecord Value) → Bool
  | .whole record => record.status = .queued
  | .torn => false

/-- No reservation stands in the line that the next write goes on in. -/
def NoneOpen (journal : LineJournal (OperationRecord Value)) : Prop :=
  ∀ piece ∈ journal.last, reserves piece = false

/-- The text of the record may be written: the file reads back, and no reservation comes
to share a line. -/
def Room (journal : LineJournal (OperationRecord Value)) (record : OperationRecord Value) :
    Prop :=
  journal.readable = true ∧
    (journal.last.isEmpty = true ∨ record.status ≠ .queued ∧ NoneOpen journal)

instance (journal : LineJournal (OperationRecord Value)) : Decidable (NoneOpen journal) :=
  inferInstanceAs (Decidable (∀ piece ∈ journal.last, reserves piece = false))

instance (journal : LineJournal (OperationRecord Value)) (record : OperationRecord Value) :
    Decidable (Room journal record) :=
  inferInstanceAs (Decidable (_ ∧ (_ ∨ _ ∧ _)))

/-- No reservation shares its line, and no record is lost to an unreadable file. -/
def Apart (m : Machine Value) : Access Value → Prop
  | .text thread =>
    ∀ p ∈ m.process, ∀ frame ∈ p.frame thread, ∀ record ∈ frame.text, Room m.journal record
  | .recoverText => ∀ p ∈ m.process, ∀ record ∈ p.recovery.head?, Room m.journal record
  | .kill .inText => NoneOpen m.journal
  | .kill .inCharacter => m.journal.lines.isEmpty = true
  | _ => True

instance (m : Machine Value) (a : Access Value) : Decidable (Apart m a) :=
  match a with
  | .text thread =>
    inferInstanceAs (Decidable (∀ p ∈ m.process, ∀ frame ∈ p.frame thread,
      ∀ record ∈ frame.text, Room m.journal record))
  | .recoverText =>
    inferInstanceAs (Decidable (∀ p ∈ m.process, ∀ record ∈ p.recovery.head?,
      Room m.journal record))
  | .kill .inText => inferInstanceAs (Decidable (NoneOpen m.journal))
  | .kill .inCharacter => inferInstanceAs (Decidable (m.journal.lines.isEmpty = true))
  | .kill .between | .start .. | .recoverEnd | .submit .. | .register .. | .lineEnd .. |
    .publish .. | .reserve .. | .markRunning .. | .finish .. | .cancel .. | .release .. =>
      .isTrue trivial

section Journal

variable {journal : LineJournal (OperationRecord Value)} {r line : OperationRecord Value}

theorem notMem_last_of_noneOpen (h : NoneOpen journal) (hqueued : line.status = .queued) :
    Piece.whole line ∉ journal.last := by
  intro hmem
  have hreserves := h _ hmem
  simp [reserves, hqueued] at hreserves

theorem notMem_last_of_room (h : Room journal r) (hqueued : line.status = .queued) :
    Piece.whole line ∉ journal.last := by
  rcases h.2 with hempty | ⟨-, hopen⟩
  · rw [List.isEmpty_iff.1 hempty]
    exact List.not_mem_nil
  · exact notMem_last_of_noneOpen hopen hqueued

theorem Backed.write {record : OperationRecord Value} (h : Backed journal r)
    (hroom : Room journal record) (written : OperationRecord Value) :
    Backed (journal.write written) r := by
  obtain ⟨line, hline, hqueued, hlike⟩ := h
  exact ⟨line, LineJournal.mem_lines_write hline (notMem_last_of_room hroom hqueued), hqueued,
    hlike⟩

theorem Backed.tear (h : Backed journal r) (hopen : NoneOpen journal) : Backed journal.tear r := by
  obtain ⟨line, hline, hqueued, hlike⟩ := h
  exact ⟨line, LineJournal.mem_lines_tear hline (notMem_last_of_noneOpen hopen hqueued), hqueued,
    hlike⟩

theorem backed_write [Json Value] (hroom : Room journal r) (hqueued : r.status = .queued) :
    Backed (journal.write r.journaled) r := by
  rcases hroom.2 with hempty | ⟨hne, -⟩
  · refine ⟨r.journaled, ?_, hqueued, (Alike.journaled r).symm⟩
    rw [LineJournal.lines_write (List.isEmpty_iff.1 hempty)]
    simp
  · exact absurd hqueued hne

end Journal

/-! ## The invariant -/

/-- A record that the process holds. -/
inductive Process.Holds (p : Process Value) (r : OperationRecord Value) : Prop
  | op (h : p.store.get r.id = some r)
  | recovery (h : r ∈ p.recovery)
  | call (thread : Nat) (frame : Frame Value) (hframe : p.frame thread = some frame)
      (hrecord : frame.record = some r)

/-- A record in the journal or in the process. -/
def Machine.Known (m : Machine Value) (r : OperationRecord Value) : Prop :=
  r ∈ m.journal.lines ∨ ∃ p, m.process = some p ∧ p.Holds r

/-- A submission is on its way that was not answered yet. -/
def Process.Flies (p : Process Value) (r : OperationRecord Value) : Prop :=
  ∃ thread frame, p.frame thread = some frame ∧ frame.submitted = some r

/-- What a thread relies on at its next access. -/
def Frame.Sound (store : OperationStore Value)
    (journal : LineJournal (OperationRecord Value)) : Frame Value → Prop
  | .admitted .. => True
  | .reserving r => r.status = .queued
  | .reserved r | .journaled r | .noting r | .noted r => Backed journal r
  | .visible r => Backed journal r ∧ ∃ record, store.get r.id = some record

/-- The keys, the lock and the operations of a running daemon. -/
structure Process.Inv (p : Process Value) (m : Machine Value) : Prop where
  ops : ∀ id r, p.store.get id = some r → Backed m.journal r
  recovery : ∀ r ∈ p.recovery, Backed m.journal r
  frames : ∀ thread frame, p.frame thread = some frame → frame.Sound p.store m.journal
  lock : ∀ thread frame key, p.frame thread = some frame → frame.key = some key →
    p.lock = some thread ∧ p.store.reserved key = none
  bound : ∀ r key, m.Known r → r.idempotencyKey = some key →
    p.store.reserved key = some r.id ∨ ∃ r₀, p.Flies r₀ ∧ r₀.id = r.id
  held : ∀ key id, p.store.reserved key = some id →
    ∃ r, p.store.get id = some r ∧ r.idempotencyKey = some key
  told : ∀ answer ∈ m.answers, ∀ r, answer.outcome.operation = some r →
    (∃ record, p.store.get r.id = some record) ∧
      ∀ key, answer.key = some key → p.store.reserved key = some r.id

/-- The operation that an answer names has its reservation in the journal. -/
structure Answer.Sound (answer : Answer Value)
    (journal : LineJournal (OperationRecord Value)) (r : OperationRecord Value) : Prop where
  key : answer.key = r.idempotencyKey
  hashed : r.requestHash ≠ none
  backed : Backed journal r

structure Machine.Inv (m : Machine Value) : Prop where
  coherent : Coherent m.Known
  readable : m.journal.lines ≠ [] → m.journal.readable = true
  lines : ∀ line ∈ m.journal.lines, Backed m.journal line
  told : ∀ answer ∈ m.answers, ∀ r, answer.outcome.operation = some r → answer.Sound m.journal r
  repeated : m.answers.Pairwise Repeats
  process : ∀ p, m.process = some p → p.Inv m

/-! ## What one access moves -/

namespace Process

variable {p p' : Process Value} {thread t : Nat} {frame : Frame Value}

@[simp]
theorem frame_goto :
    (p.goto thread frame).frame t = if thread = t then some frame else p.frame t := by
  simp only [Process.frame, goto, Table.get?_put]
  split <;> rfl

@[simp]
theorem frame_done : (p.done thread).frame t = if thread = t then none else p.frame t := by
  simp only [Process.frame, done, Table.get?_erase]
  split <;> rfl

@[simp]
theorem frame_leave {key : Option String} :
    (p.leave thread key).frame t = if thread = t then none else p.frame t :=
  frame_done

@[simp]
theorem store_leave {key : Option String} : (p.leave thread key).store = p.store :=
  rfl

/-- One thread goes on, and the operations keep what they had. -/
structure Moves (p p' : Process Value) (thread : Nat) (next : Option (Frame Value)) : Prop where
  frame : ∀ t, p'.frame t = if thread = t then next else p.frame t
  recovery : ∀ r ∈ p'.recovery, r ∈ p.recovery
  reserved : ∀ key, p'.store.reserved key = p.store.reserved key
  ops : ∀ id r', p'.store.get id = some r' → ∃ r, Alike r r' ∧
    (p.store.get id = some r ∨ p.frame thread = some (.journaled r))
  present : ∀ id r, p.store.get id = some r → ∃ r', p'.store.get id = some r' ∧ Alike r r'
  lock : ∀ t frame key, thread ≠ t → p.frame t = some frame → frame.key = some key →
    p'.lock = p.lock

end Process

theorem Frame.Sound.mono {store store' : OperationStore Value}
    {journal journal' : LineJournal (OperationRecord Value)} {frame : Frame Value}
    (h : frame.Sound store journal) (hbacked : ∀ r, Backed journal r → Backed journal' r)
    (hpresent : ∀ id r, store.get id = some r → ∃ r', store'.get id = some r' ∧ Alike r r') :
    frame.Sound store' journal' := by
  cases frame with
  | admitted params key => trivial
  | reserving r => exact h
  | reserved r => exact hbacked r h
  | journaled r => exact hbacked r h
  | visible r =>
    obtain ⟨hr, record, hrecord⟩ := h
    obtain ⟨record', hrecord', -⟩ := hpresent _ record hrecord
    exact ⟨hbacked r hr, record', hrecord'⟩
  | noting r => exact hbacked r h
  | noted r => exact hbacked r h

namespace Machine

variable {m m' : Machine Value} {p p' : Process Value} {thread : Nat}
  {next : Option (Frame Value)}
variable {id key : String} {params : Params Value} {record : OperationRecord Value}

theorem holds_of_get {r : OperationRecord Value} (h : p.store.get id = some r) : p.Holds r := by
  refine .op ?_
  rw [OperationStore.id_of_get h]
  exact h

/-- What an access that reserves no key makes of journal and process. -/
structure Moves (m m' : Machine Value) (p p' : Process Value) (thread : Nat)
    (next : Option (Frame Value)) : Prop where
  process : m'.process = some p'
  answers : m'.answers = m.answers
  moves : p.Moves p' thread next
  backed : ∀ r, Backed m.journal r → Backed m'.journal r
  lines : ∀ line ∈ m'.journal.lines, line ∈ m.journal.lines ∨
    (∃ r, p.Holds r ∧ Alike r line) ∧ Backed m'.journal line
  readable : m'.journal.lines ≠ [] → m'.journal.readable = true
  sound : ∀ frame, next = some frame → frame.Sound p'.store m'.journal
  lock : ∀ frame key, next = some frame → frame.key = some key →
    p'.lock = some thread ∧ p'.store.reserved key = none
  flight : ∀ frame r, p.frame thread = some frame → frame.submitted = some r →
    r.idempotencyKey ≠ none → ∃ frame', next = some frame' ∧ frame'.submitted = some r

/-- Every record known after the access was known before, or is the new record of the
thread. -/
theorem Moves.known (h : m.Moves m' p p' thread next) (hp : m.process = some p)
    {r : OperationRecord Value} (hr : m'.Known r) :
    (∃ r₀, m.Known r₀ ∧ Alike r₀ r) ∨ ∃ frame, next = some frame ∧ frame.record = some r := by
  rcases hr with hline | ⟨q, hq, hholds⟩
  · rcases h.lines r hline with hold | ⟨⟨r₀, hr₀, hlike⟩, -⟩
    · exact .inl ⟨r, .inl hold, Alike.refl r⟩
    · exact .inl ⟨r₀, .inr ⟨p, hp, hr₀⟩, hlike⟩
  · rw [h.process, Option.some.injEq] at hq
    subst hq
    cases hholds with
    | op hget =>
      obtain ⟨r₀, hlike, hfrom⟩ := h.moves.ops _ r hget
      refine .inl ⟨r₀, .inr ⟨p, hp, ?_⟩, hlike⟩
      rcases hfrom with hop | hframe
      · exact holds_of_get hop
      · exact .call thread _ hframe rfl
    | recovery hmem =>
      exact .inl ⟨r, .inr ⟨p, hp, .recovery (h.moves.recovery r hmem)⟩, Alike.refl r⟩
    | call t frame hframe hrecord =>
      rw [h.moves.frame] at hframe
      by_cases ht : thread = t
      · rw [if_pos ht] at hframe
        exact .inr ⟨frame, hframe, hrecord⟩
      · rw [if_neg ht] at hframe
        exact .inl ⟨r, .inr ⟨p, hp, .call t frame hframe hrecord⟩, Alike.refl r⟩

theorem Moves.flies (h : m.Moves m' p p' thread next) {r : OperationRecord Value}
    (hr : p.Flies r) (hkey : r.idempotencyKey ≠ none) : p'.Flies r := by
  obtain ⟨t, frame, hframe, hsubmitted⟩ := hr
  by_cases ht : thread = t
  · subst ht
    obtain ⟨frame', hnext, hsubmitted'⟩ := h.flight frame r hframe hsubmitted hkey
    exact ⟨thread, frame', by rw [h.moves.frame, if_pos rfl, hnext], hsubmitted'⟩
  · exact ⟨t, frame, by rw [h.moves.frame, if_neg ht, hframe], hsubmitted⟩

/-- The invariant of an access that loses no record and reserves no key. -/
theorem Inv.keep (hm : m.Inv) (hp : m.process = some p) (h : m.Moves m' p p' thread next)
    (hcoherent : Coherent m'.Known)
    (hrecord : ∀ frame r, next = some frame → frame.record = some r →
      (∃ r₀, m.Known r₀ ∧ Alike r₀ r) ∨ frame.submitted = some r) : m'.Inv := by
  have hpinv := hm.process p hp
  have htold : ∀ answer ∈ m'.answers, ∀ r, answer.outcome.operation = some r →
      answer.Sound m'.journal r := by
    intro answer hanswer r hr
    rw [h.answers] at hanswer
    have hsound := hm.told answer hanswer r hr
    exact ⟨hsound.key, hsound.hashed, h.backed r hsound.backed⟩
  refine ⟨hcoherent, h.readable, ?_, htold, ?_, ?_⟩
  · intro line hline
    rcases h.lines line hline with hold | ⟨-, hbacked⟩
    · exact h.backed line (hm.lines line hold)
    · exact hbacked
  · rw [h.answers]
    exact hm.repeated
  · intro q hq
    rw [h.process, Option.some.injEq] at hq
    subst hq
    constructor
    · intro id r' hget
      obtain ⟨r, hlike, hfrom⟩ := h.moves.ops id r' hget
      rcases hfrom with hop | hframe
      · exact (h.backed r (hpinv.ops id r hop)).alike hlike
      · exact (h.backed r (hpinv.frames thread _ hframe)).alike hlike
    · intro r hr
      exact h.backed r (hpinv.recovery r (h.moves.recovery r hr))
    · intro t frame hframe
      rw [h.moves.frame] at hframe
      by_cases ht : thread = t
      · rw [if_pos ht] at hframe
        exact h.sound frame hframe
      · rw [if_neg ht] at hframe
        exact (hpinv.frames t frame hframe).mono h.backed h.moves.present
    · intro t frame key hframe hkey
      rw [h.moves.frame] at hframe
      by_cases ht : thread = t
      · rw [if_pos ht] at hframe
        exact ht ▸ h.lock frame key hframe hkey
      · rw [if_neg ht] at hframe
        rw [h.moves.lock t frame key ht hframe hkey, h.moves.reserved]
        exact hpinv.lock t frame key hframe hkey
    · intro r key hr hkey
      have hcovered : (∃ r₀, m.Known r₀ ∧ Alike r₀ r) ∨ p'.Flies r := by
        rcases h.known hp hr with hold | ⟨frame, hnext, hframe⟩
        · exact .inl hold
        · rcases hrecord frame r hnext hframe with hold | hsubmitted
          · exact .inl hold
          · exact .inr ⟨thread, frame, by rw [h.moves.frame, if_pos rfl, hnext], hsubmitted⟩
      rcases hcovered with ⟨r₀, hr₀, hlike⟩ | hflies
      · rw [h.moves.reserved, ← hlike.id]
        refine (hpinv.bound r₀ key hr₀ (hlike.key.trans hkey)).imp id ?_
        rintro ⟨r₁, hflies, hid⟩
        have hknown : m.Known r₁ := by
          obtain ⟨t, frame, hframe, hsubmitted⟩ := hflies
          refine .inr ⟨p, hp, .call t frame hframe ?_⟩
          cases frame <;> simp_all [Frame.submitted, Frame.record]
        have hkey₁ : r₁.idempotencyKey = some key :=
          ((hm.coherent.same r₁ r₀ hknown hr₀ hid).key).trans (hlike.key.trans hkey)
        exact ⟨r₁, h.flies hflies (by rw [hkey₁]; simp), hid⟩
      · exact .inr ⟨r, hflies, rfl⟩
    · intro key id hreserved
      rw [h.moves.reserved] at hreserved
      obtain ⟨r, hget, hkey⟩ := hpinv.held key id hreserved
      obtain ⟨r', hget', hlike⟩ := h.moves.present id r hget
      exact ⟨r', hget', hlike.key.symm.trans hkey⟩
    · intro answer hanswer r hr
      rw [h.answers] at hanswer
      obtain ⟨⟨record, hget⟩, hreserved⟩ := hpinv.told answer hanswer r hr
      obtain ⟨record', hget', -⟩ := h.moves.present _ record hget
      refine ⟨⟨record', hget'⟩, fun key hkey => ?_⟩
      rw [h.moves.reserved]
      exact hreserved key hkey

theorem Inv.keep_covered (hm : m.Inv) (hp : m.process = some p) (h : m.Moves m' p p' thread next)
    (hrecord : ∀ frame r, next = some frame → frame.record = some r →
      ∃ r₀, m.Known r₀ ∧ Alike r₀ r) : m'.Inv := by
  refine hm.keep hp h (hm.coherent.of_covered fun r hr => ?_)
    fun frame r hnext hframe => .inl (hrecord frame r hnext hframe)
  rcases h.known hp hr with hold | ⟨frame, hnext, hframe⟩
  · exact hold
  · exact hrecord frame r hnext hframe

/-! ## Accesses that leave the journal's records -/

/-- What an access relies on and leaves, when the journal keeps its lines. -/
theorem moves_of_lines (hm : m.Inv) (hprocess : m'.process = some p')
    (hanswers : m'.answers = m.answers) (hlines : m'.journal.lines = m.journal.lines)
    (hreadable : m'.journal.readable = m.journal.readable) (hmoves : p.Moves p' thread next)
    (hsound : ∀ frame, next = some frame → frame.Sound p'.store m'.journal)
    (hlock : ∀ frame key, next = some frame → frame.key = some key →
      p'.lock = some thread ∧ p'.store.reserved key = none)
    (hflight : ∀ frame r, p.frame thread = some frame → frame.submitted = some r →
      r.idempotencyKey ≠ none → ∃ frame', next = some frame' ∧ frame'.submitted = some r) :
    m.Moves m' p p' thread next where
  process := hprocess
  answers := hanswers
  moves := hmoves
  backed r h := by simpa only [Backed, hlines] using h
  lines line h := .inl (hlines ▸ h)
  readable h := by
    rw [hreadable]
    exact hm.readable (hlines ▸ h)
  sound := hsound
  lock := hlock
  flight := hflight

theorem moves_goto {lock : Option Nat}
    {store : OperationStore Value} (hget : ∀ id, store.get id = p.store.get id)
    (hreserved : ∀ key, store.reserved key = p.store.reserved key) (frame : Frame Value)
    (hlock : ∀ t frame key, thread ≠ t → p.frame t = some frame → frame.key = some key →
      lock = p.lock) :
    p.Moves ({ p with lock := lock, store := store }.goto thread frame) thread (some frame) where
  frame _ := Process.frame_goto
  recovery _ h := h
  reserved key := hreserved key
  ops id r h := ⟨r, Alike.refl r, .inl (hget id ▸ h)⟩
  present id r h := ⟨r, (hget id).trans h, Alike.refl r⟩
  lock := hlock

theorem Inv.submit_unkeyed (hm : m.Inv) (hp : m.process = some p) (params : Params Value)
    (hidle : p.frame thread = none) : (m.running (p.goto thread (.admitted params none))).Inv := by
  have hmoves : p.Moves (p.goto thread (.admitted params none)) thread
      (some (.admitted params none)) :=
    moves_goto (fun _ => rfl) (fun _ => rfl) _ fun _ _ _ _ _ _ => rfl
  refine hm.keep_covered hp (moves_of_lines hm rfl rfl rfl rfl hmoves ?_ ?_ ?_) ?_
  · rintro frame ⟨⟩
    trivial
  · rintro frame key ⟨⟩ hkey
    exact absurd hkey (by simp [Frame.key])
  · intro frame r hframe
    rw [hidle] at hframe
    exact absurd hframe (by simp)
  · rintro frame r ⟨⟩ hrecord
    exact absurd hrecord (by simp [Frame.record])

theorem Inv.submit_free (hm : m.Inv) (hp : m.process = some p) (params : Params Value)
    {hash : String} (hidle : p.frame thread = none) (hlock : p.lock = none)
    (hlookup : p.store.lookup key hash = none) :
    (m.running ({ p with lock := some thread }.goto thread (.admitted params (some key)))).Inv := by
  have hpinv := hm.process p hp
  have hmoves : p.Moves ({ p with lock := some thread }.goto thread (.admitted params (some key)))
      thread (some (.admitted params (some key))) := by
    refine moves_goto (fun _ => rfl) (fun _ => rfl) _ fun t frame k _ hframe hkey => ?_
    -- nobody else holds the lock
    have hheld := (hpinv.lock t frame k hframe hkey).1
    rw [hlock] at hheld
    exact absurd hheld (by simp)
  refine hm.keep_covered hp (moves_of_lines hm rfl rfl rfl rfl hmoves ?_ ?_ ?_) ?_
  · rintro frame ⟨⟩
    trivial
  · rintro frame k ⟨⟩ hkey
    simp only [Frame.key, Option.some.injEq] at hkey
    subst hkey
    refine ⟨rfl, ?_⟩
    cases hreserved : p.store.reserved key with
    | none => exact hreserved
    | some id =>
      obtain ⟨r, hget, -⟩ := hpinv.held key id hreserved
      simp [OperationStore.lookup, hreserved, hget] at hlookup
  · intro frame r hframe
    rw [hidle] at hframe
    exact absurd hframe (by simp)
  · rintro frame r ⟨⟩ hrecord
    exact absurd hrecord (by simp [Frame.record])

theorem Inv.leave (hm : m.Inv) (hp : m.process = some p) {frame : Frame Value}
    (hframe : p.frame thread = some frame)
    (hflight : ∀ r, frame.submitted = some r → r.idempotencyKey = none) :
    (m.running (p.leave thread frame.key)).Inv := by
  have hpinv := hm.process p hp
  have hmoves : p.Moves (p.leave thread frame.key) thread none := by
    refine ⟨fun _ => Process.frame_leave, fun _ h => h, fun _ => rfl,
      fun id r h => ⟨r, Alike.refl r, .inl h⟩, fun id r h => ⟨r, h, Alike.refl r⟩, ?_⟩
    intro t other k hne hother hk
    cases hkey : frame.key with
    | none => rfl
    | some key =>
      have hmine := (hpinv.lock thread frame key hframe hkey).1
      rw [(hpinv.lock t other k hother hk).1, Option.some.injEq] at hmine
      exact absurd hmine.symm hne
  refine hm.keep_covered hp (moves_of_lines hm rfl rfl rfl rfl hmoves ?_ ?_ ?_) ?_
  · intro _ h
    exact absurd h (by simp)
  · intro _ _ h
    exact absurd h (by simp)
  · intro found r hfound hsubmitted hkey
    rw [hframe, Option.some.injEq] at hfound
    exact absurd (hflight r (hfound ▸ hsubmitted)) hkey
  · intro _ _ h
    exact absurd h (by simp)

theorem Inv.answer (hm : m.Inv) {key : Option String} {hash : String}
    {outcome : SubmitOutcome Value}
    (hsound : ∀ r, outcome.operation = some r →
      Answer.Sound { key := key, hash := hash, outcome := outcome } m.journal r)
    (htold : ∀ p, m.process = some p → ∀ r, outcome.operation = some r →
      (∃ record, p.store.get r.id = some record) ∧
        ∀ k, key = some k → p.store.reserved k = some r.id)
    (hrepeats : ∀ earlier ∈ m.answers,
      Repeats earlier { key := key, hash := hash, outcome := outcome }) :
    (m.answer key hash outcome).Inv := by
  refine ⟨hm.coherent, hm.readable, hm.lines, ?_, ?_, fun p hp => ?_⟩
  · intro answer hanswer r hr
    rcases List.mem_append.1 hanswer with hold | hnew
    · exact hm.told answer hold r hr
    · rw [List.mem_singleton] at hnew
      subst hnew
      exact hsound r hr
  · rw [Machine.answer, List.pairwise_append]
    refine ⟨hm.repeated, List.pairwise_singleton .., fun earlier hearlier later hlater => ?_⟩
    rw [List.mem_singleton] at hlater
    exact hlater ▸ hrepeats earlier hearlier
  · have hpinv := hm.process p hp
    refine ⟨hpinv.ops, hpinv.recovery, hpinv.frames, hpinv.lock, hpinv.bound, hpinv.held, ?_⟩
    intro answer hanswer r hr
    rcases List.mem_append.1 hanswer with hold | hnew
    · exact hpinv.told answer hold r hr
    · rw [List.mem_singleton] at hnew
      subst hnew
      exact htold p hp r hr

theorem Inv.repeats_of_free (hm : m.Inv) (hp : m.process = some p) {later : Answer Value}
    (hfree : ∀ key, later.key = some key → p.store.reserved key = none) :
    ∀ earlier ∈ m.answers, Repeats earlier later := by
  intro earlier hearlier key record hkey hlater hrecord
  have hreserved := ((hm.process p hp).told earlier hearlier record hrecord).2 key hkey
  rw [hfree key hlater] at hreserved
  exact absurd hreserved (by simp)

theorem Inv.lookup (hm : m.Inv) (hp : m.process = some p) {key hash : String}
    {outcome : SubmitOutcome Value} (hlookup : p.store.lookup key hash = some outcome) :
    (m.answer (some key) hash outcome).Inv := by
  have hpinv := hm.process p hp
  obtain ⟨existing, hbind, houtcome⟩ := Option.map_eq_some_iff.1 hlookup
  obtain ⟨id, hreserved, hget⟩ := Option.bind_eq_some_iff.1 hbind
  have hid : existing.id = id := OperationStore.id_of_get hget
  have hknown : m.Known existing := .inr ⟨p, hp, holds_of_get hget⟩
  have hhash := hm.coherent.hashed existing hknown
  have hkey : existing.idempotencyKey = some key := by
    obtain ⟨r, hr, hkey⟩ := hpinv.held key id hreserved
    rw [hget, Option.some.injEq] at hr
    exact hr ▸ hkey
  have hoperation : outcome.operation = some existing := by
    rw [← houtcome]
    split <;> rfl
  refine hm.answer (fun r hr => ?_) (fun q hq r hr => ?_) ?_
  · rw [hoperation, Option.some.injEq] at hr
    subst hr
    exact ⟨hkey.symm, hhash, hpinv.ops id existing hget⟩
  · rw [hp, Option.some.injEq] at hq
    rw [hoperation, Option.some.injEq] at hr
    subst hq hr
    refine ⟨⟨existing, by rw [hid]; exact hget⟩, fun k hk => ?_⟩
    rw [← Option.some.inj hk, hid]
    exact hreserved
  · intro earlier hearlier k record hearlierkey hk hrecord
    have hk' : k = key := (Option.some.inj hk).symm
    subst hk'
    have hsame := (hpinv.told earlier hearlier record hrecord).2 k hearlierkey
    rw [hreserved, Option.some.injEq] at hsame
    obtain ⟨line, hline, -, hlike⟩ := (hm.told earlier hearlier record hrecord).backed
    have hline' := hm.coherent.same line existing (.inl hline) hknown
      (hlike.id.trans (hsame.symm.trans hid.symm))
    have hrecordhash : record.requestHash = existing.requestHash :=
      hlike.hash.symm.trans hline'.hash
    refine ⟨existing, hid.trans hsame, ?_⟩
    rw [hrecordhash, ← houtcome]
    simp [hhash]

/-- The gate is taken, or the client is told that another operation holds it. -/
theorem Inv.register_busy (hm : m.Inv) (hp : m.process = some p) {key : Option String}
    (hframe : p.frame thread = some (.admitted params key)) (hash : String) :
    ((m.answer key hash .busy).running (p.leave thread key)).Inv := by
  have hleft : (m.running (p.leave thread key)).Inv :=
    hm.leave hp hframe fun r hr => absurd hr (by simp [Frame.submitted])
  show ((m.running (p.leave thread key)).answer key hash .busy).Inv
  refine hleft.answer ?_ ?_ ?_
  · exact fun r hr => absurd hr (by simp [SubmitOutcome.operation])
  · exact fun _ _ r hr => absurd hr (by simp [SubmitOutcome.operation])
  · refine hleft.repeats_of_free rfl fun k hk => ?_
    exact ((hm.process p hp).lock thread _ k hframe hk).2

theorem flies_known (hp : m.process = some p) {r : OperationRecord Value} (h : p.Flies r) :
    m.Known r := by
  obtain ⟨t, frame, hframe, hsubmitted⟩ := h
  refine .inr ⟨p, hp, .call t frame hframe ?_⟩
  cases frame <;> simp_all [Frame.submitted, Frame.record]

theorem id_ne_of_unused (hp : m.process = some p) (hserving : p.recovery.isEmpty = true)
    (hunused : m.Unused p id) {r : OperationRecord Value} (hr : m.Known r) : r.id ≠ id := by
  obtain ⟨hlines, hops, hcalls⟩ := hunused
  rcases hr with hline | ⟨q, hq, hholds⟩
  · exact hlines r hline
  · rw [hp, Option.some.injEq] at hq
    subst hq
    rintro rfl
    cases hholds with
    | op hget =>
      rw [hget] at hops
      exact absurd hops (by simp)
    | recovery hmem =>
      rw [List.isEmpty_iff.1 hserving] at hmem
      exact absurd hmem List.not_mem_nil
    | call t frame hframe hrecord =>
      obtain ⟨call, hcall, rfl⟩ := Option.map_eq_some_iff.1 hframe
      have hthread : call.thread = t := Table.key_of_get? hcall
      have hrow : call ∈ p.calls.rows := (Table.mem_rows_iff _ _).2 (hthread ▸ hcall)
      exact hcalls call hrow r hrecord rfl

/-- A key under the lock of a submission that has no record yet is nobody's. -/
theorem Inv.key_free (hm : m.Inv) (hp : m.process = some p)
    (hframe : p.frame thread = some (.admitted params (some key))) {r : OperationRecord Value}
    (hr : m.Known r) : r.idempotencyKey ≠ some key := by
  intro hkey
  have hpinv := hm.process p hp
  obtain ⟨hlock, hfree⟩ := hpinv.lock thread _ key hframe rfl
  rcases hpinv.bound r key hr hkey with hreserved | ⟨r₀, hflies, hid⟩
  · rw [hfree] at hreserved
    exact absurd hreserved (by simp)
  · have hkey₀ : r₀.idempotencyKey = some key :=
      ((hm.coherent.same r₀ r (flies_known hp hflies) hr hid).key).trans hkey
    obtain ⟨t, frame, hother, hsubmitted⟩ := hflies
    have hframekey : frame.key = some key := by
      cases frame <;> simp_all [Frame.submitted, Frame.key]
    have hthread := (hpinv.lock t frame key hother hframekey).1
    rw [hlock, Option.some.injEq] at hthread
    subst hthread
    rw [hframe, Option.some.injEq] at hother
    subst hother
    exact absurd hsubmitted (by simp [Frame.submitted])

variable [Json Value]

theorem Inv.register_new (hm : m.Inv) (hp : m.process = some p)
    (hserving : p.recovery.isEmpty = true) {key : Option String} {now : String}
    (hframe : p.frame thread = some (.admitted params key)) (hunused : m.Unused p id) :
    (m.running ({ p with store := (p.store.acquire params.kind.asStr).2 }.goto thread
      (.reserving (.queue params key id now)))).Inv := by
  have hpinv := hm.process p hp
  have hmoves : p.Moves ({ p with store := (p.store.acquire params.kind.asStr).2 }.goto thread
      (.reserving (.queue params key id now))) thread
      (some (.reserving (.queue params key id now))) :=
    moves_goto (fun _ => OperationStore.get_acquire _) (fun _ => OperationStore.reserved_acquire _)
      _ fun _ _ _ _ _ _ => rfl
  have hstep : m.Moves (m.running _) p _ thread _ :=
    moves_of_lines hm rfl rfl rfl rfl hmoves ?_ ?_ ?_
  · refine hm.keep hp hstep ?_ ?_
    · have hextended := hm.coherent.extend (fun r hr => id_ne_of_unused hp hserving hunused hr)
        (fun r k hr hk => hm.key_free hp (by rw [hframe, show key = some k from hk]) hr)
        (by simp [OperationRecord.queue] : (OperationRecord.queue params key id now).requestHash ≠ _)
      refine hextended.of_covered fun r hr => ?_
      rcases hstep.known hp hr with ⟨r₀, hold, hlike⟩ | ⟨frame, hnext, hrecord⟩
      · exact ⟨r₀, .inl hold, hlike⟩
      · rw [← Option.some.inj hnext] at hrecord
        exact ⟨r, .inr (Option.some.inj hrecord).symm, Alike.refl r⟩
    · rintro frame r ⟨⟩ hrecord
      exact .inr hrecord
  · rintro frame ⟨⟩
    rfl
  · rintro frame k ⟨⟩ hk
    obtain ⟨hlock, hfree⟩ := hpinv.lock thread _ k hframe hk
    exact ⟨hlock, (OperationStore.reserved_acquire _).trans hfree⟩
  · intro frame r hother hsubmitted
    rw [hframe, Option.some.injEq] at hother
    exact absurd hsubmitted (by simp [← hother, Frame.submitted])

/-! ## Accesses that write -/

omit [Json Value] in
/-- The two ends of an append, of a thread or of the recovery. -/
theorem Inv.end_line (hm : m.Inv) (hp : m.process = some p) (hmoves : p.Moves p' thread next)
    (hsound : ∀ frame, next = some frame → frame.Sound p'.store m.journal)
    (hlock : ∀ frame key, next = some frame → frame.key = some key →
      p'.lock = some thread ∧ p'.store.reserved key = none)
    (hflight : ∀ frame r, p.frame thread = some frame → frame.submitted = some r →
      r.idempotencyKey ≠ none → ∃ frame', next = some frame' ∧ frame'.submitted = some r)
    (hrecord : ∀ frame r, next = some frame → frame.record = some r → m.Known r) :
    ({ m with journal := m.journal.endLine }.running p').Inv := by
  have hstep : m.Moves ({ m with journal := m.journal.endLine }.running p') p p' thread next := by
    refine moves_of_lines hm rfl rfl LineJournal.lines_endLine rfl hmoves ?_ hlock hflight
    intro frame hnext
    refine (hsound frame hnext).mono (fun r h => ?_) fun id r h => ⟨r, h, Alike.refl r⟩
    simpa only [Backed, Machine.running, LineJournal.lines_endLine] using h
  exact hm.keep_covered hp hstep fun frame r hnext hr =>
    ⟨r, hrecord frame r hnext hr, Alike.refl r⟩

/-- The text of a record is written where there is room for it. -/
theorem Inv.write (hm : m.Inv) (hp : m.process = some p) {record : OperationRecord Value}
    (hroom : Room m.journal record) (hheld : p.Holds record)
    (hbacked : Backed (m.journal.write record.journaled) record)
    (hmoves : p.Moves p' thread next)
    (hsound : ∀ frame, next = some frame →
      frame.Sound p'.store (m.journal.write record.journaled))
    (hlock : ∀ frame key, next = some frame → frame.key = some key →
      p'.lock = some thread ∧ p'.store.reserved key = none)
    (hflight : ∀ frame r, p.frame thread = some frame → frame.submitted = some r →
      r.idempotencyKey ≠ none → ∃ frame', next = some frame' ∧ frame'.submitted = some r)
    (hrecord : ∀ frame r, next = some frame → frame.record = some r → m.Known r) :
    ({ m with journal := m.journal.write record.journaled }.running p').Inv := by
  have hstep : m.Moves ({ m with journal := m.journal.write record.journaled }.running p') p p'
      thread next := by
    refine ⟨rfl, rfl, hmoves, fun r h => h.write hroom _, fun line hline => ?_, fun _ => hroom.1,
      hsound, hlock, hflight⟩
    rcases LineJournal.mem_lines_of_write hline with hold | rfl
    · exact .inl hold
    · exact .inr ⟨⟨record, hheld, Alike.journaled record⟩,
        hbacked.alike (Alike.journaled record)⟩
  exact hm.keep_covered hp hstep fun frame r hnext hr =>
    ⟨r, hrecord frame r hnext hr, Alike.refl r⟩

omit [Json Value] in
theorem moves_same {frame : Frame Value} : p.Moves (p.goto thread frame) thread (some frame) where
  frame _ := Process.frame_goto
  recovery _ h := h
  reserved _ := rfl
  ops _ r h := ⟨r, Alike.refl r, .inl h⟩
  present _ r h := ⟨r, h, Alike.refl r⟩
  lock _ _ _ _ _ _ := rfl

omit [Json Value] in
theorem known_of_frame (hp : m.process = some p) {frame : Frame Value}
    (hframe : p.frame thread = some frame) (hrecord : frame.record = some record) :
    m.Known record :=
  .inr ⟨p, hp, .call thread frame hframe hrecord⟩

theorem Inv.text_reserving (hm : m.Inv) (hp : m.process = some p)
    (hframe : p.frame thread = some (.reserving record)) (hroom : Room m.journal record) :
    ({ m with journal := m.journal.write record.journaled }.running
      (p.goto thread (.reserved record))).Inv := by
  have hpinv := hm.process p hp
  have hbacked := backed_write hroom (hpinv.frames thread _ hframe)
  refine hm.write hp hroom (.call thread _ hframe rfl) hbacked moves_same ?_ ?_ ?_ ?_
  · rintro frame ⟨⟩
    exact hbacked
  · rintro frame key ⟨⟩ hkey
    exact hpinv.lock thread _ key hframe hkey
  · intro frame r hother hsubmitted hkey
    rw [hframe, Option.some.injEq] at hother
    subst hother
    exact ⟨_, rfl, hsubmitted⟩
  · rintro frame r ⟨⟩ hr
    exact known_of_frame hp hframe hr

theorem Inv.text_noting (hm : m.Inv) (hp : m.process = some p)
    (hframe : p.frame thread = some (.noting record)) (hroom : Room m.journal record) :
    ({ m with journal := m.journal.write record.journaled }.running
      (p.goto thread (.noted record))).Inv := by
  have hpinv := hm.process p hp
  have hbacked : Backed (m.journal.write record.journaled) record :=
    Backed.write (hpinv.frames thread _ hframe) hroom _
  refine hm.write hp hroom (.call thread _ hframe rfl) hbacked moves_same ?_ ?_ ?_ ?_
  · rintro frame ⟨⟩
    exact hbacked
  · rintro frame key ⟨⟩ hkey
    exact absurd hkey (by simp [Frame.key])
  · intro frame r hother hsubmitted
    rw [hframe, Option.some.injEq] at hother
    exact absurd hsubmitted (by simp [← hother, Frame.submitted])
  · rintro frame r ⟨⟩ hr
    exact known_of_frame hp hframe hr

section

omit [Json Value]

theorem Inv.end_reserved (hm : m.Inv) (hp : m.process = some p)
    (hframe : p.frame thread = some (.reserved record)) :
    ({ m with journal := m.journal.endLine }.running
      (p.goto thread (.journaled record))).Inv := by
  have hpinv := hm.process p hp
  have hbacked : Backed m.journal record := hpinv.frames thread _ hframe
  refine hm.end_line hp moves_same ?_ ?_ ?_ ?_
  · rintro frame ⟨⟩
    exact hbacked
  · rintro frame key ⟨⟩ hkey
    exact hpinv.lock thread _ key hframe hkey
  · intro frame r hother hsubmitted hkey
    rw [hframe, Option.some.injEq] at hother
    subst hother
    exact ⟨_, rfl, hsubmitted⟩
  · rintro frame r ⟨⟩ hr
    exact known_of_frame hp hframe hr

theorem Inv.end_noted (hm : m.Inv) (hp : m.process = some p)
    (hframe : p.frame thread = some (.noted record)) :
    ({ m with journal := m.journal.endLine }.running (p.done thread)).Inv := by
  have hmoves : p.Moves (p.done thread) thread none :=
    ⟨fun _ => Process.frame_done, fun _ h => h, fun _ => rfl,
      fun id r h => ⟨r, Alike.refl r, .inl h⟩, fun id r h => ⟨r, h, Alike.refl r⟩,
      fun _ _ _ _ _ _ => rfl⟩
  refine hm.end_line hp hmoves ?_ ?_ ?_ ?_
  · exact fun _ h => absurd h (by simp)
  · exact fun _ _ h => absurd h (by simp)
  · intro frame r hother hsubmitted
    rw [hframe, Option.some.injEq] at hother
    exact absurd hsubmitted (by simp [← hother, Frame.submitted])
  · exact fun _ _ h => absurd h (by simp)

theorem moves_recovery (thread : Nat) {rest : List (OperationRecord Value)} {isOpen : Bool}
    (hrest : ∀ r ∈ rest, r ∈ p.recovery) :
    p.Moves { p with recovery := rest, recoveryOpen := isOpen } thread (p.frame thread) where
  frame t := by
    split
    · next ht => exact ht ▸ rfl
    · rfl
  recovery := hrest
  reserved _ := rfl
  ops _ r h := ⟨r, Alike.refl r, .inl h⟩
  present _ r h := ⟨r, h, Alike.refl r⟩
  lock _ _ _ _ _ _ := rfl

end

theorem Inv.recoverWrite (hm : m.Inv) (hp : m.process = some p) {a : Access Value}
    (hroom : ∀ record ∈ p.recovery.head?, a = .recoverText → Room m.journal record)
    (hstep : m.recoverWrite p a = some m') : m'.Inv := by
  have hpinv := hm.process p hp
  unfold Machine.recoverWrite at hstep
  split at hstep
  · split at hstep
    · next record rest hrecovery hclosed =>
        rw [← Option.some.inj hstep]
        have hmem : record ∈ p.recovery := by
          rw [hrecovery]
          exact List.mem_cons_self
        have hroom' := hroom record (by rw [hrecovery]; rfl) rfl
        have hbacked : Backed (m.journal.write record.journaled) record :=
          (hpinv.recovery record hmem).write hroom' _
        refine hm.write hp hroom' (.recovery hmem) hbacked
          (moves_recovery 0 fun _ h => h) ?_ ?_ ?_ ?_
        · intro frame hframe
          exact (hpinv.frames 0 frame hframe).mono (fun r h => h.write hroom' _)
            fun id r h => ⟨r, h, Alike.refl r⟩
        · exact fun frame key hframe hkey => hpinv.lock 0 frame key hframe hkey
        · exact fun frame r hframe hsubmitted _ => ⟨frame, hframe, hsubmitted⟩
        · exact fun frame r hframe hr => known_of_frame hp hframe hr
    · exact absurd hstep (by simp)
  · split at hstep
    · next record rest hrecovery hopen =>
        rw [← Option.some.inj hstep]
        refine hm.end_line hp (moves_recovery 0 fun r h => ?_) ?_ ?_ ?_ ?_
        · rw [hrecovery]
          exact List.mem_cons_of_mem _ h
        · exact fun frame hframe => hpinv.frames 0 frame hframe
        · exact fun frame key hframe hkey => hpinv.lock 0 frame key hframe hkey
        · exact fun frame r hframe hsubmitted _ => ⟨frame, hframe, hsubmitted⟩
        · exact fun frame r hframe hr => known_of_frame hp hframe hr
    · exact absurd hstep (by simp)
  · exact absurd hstep (by simp)

/-! ## Accesses that make records visible -/

section

omit [Json Value]

/-- The operations with a record that was journaled by its thread. -/
theorem Inv.moves_insert (hm : m.Inv) (hp : m.process = some p)
    (hframe : p.frame thread = some (.journaled record))
    (hnext : ∀ t, p'.frame t = if thread = t then next else p.frame t)
    (hp' : (p'.store, p'.recovery) = (p.store.insert record, p.recovery))
    (hlock : ∀ t frame key, thread ≠ t → p.frame t = some frame → frame.key = some key →
      p'.lock = p.lock) : p.Moves p' thread next := by
  obtain ⟨hstore, hrecovery⟩ := Prod.mk.injEq .. ▸ hp'
  refine ⟨hnext, fun r h => hrecovery ▸ h, fun key => by rw [hstore]; rfl, ?_, ?_, hlock⟩
  · intro id r' hget
    rw [hstore, OperationStore.get_insert] at hget
    split at hget
    · exact ⟨record, Option.some.inj hget ▸ Alike.refl record, .inr hframe⟩
    · exact ⟨r', Alike.refl r', .inl hget⟩
  · intro id r hget
    rw [hstore, OperationStore.get_insert]
    split
    · next hid =>
        refine ⟨record, rfl, hm.coherent.same r record (.inr ⟨p, hp, holds_of_get hget⟩)
          (known_of_frame hp hframe rfl) ?_⟩
        rw [hid]
        exact OperationStore.id_of_get hget
    · exact ⟨r, hget, Alike.refl r⟩

theorem Inv.publish_keyed (hm : m.Inv) (hp : m.process = some p)
    (hframe : p.frame thread = some (.journaled record)) :
    (m.running ({ p with store := p.store.insert record }.goto thread (.visible record))).Inv := by
  have hpinv := hm.process p hp
  have hbacked : Backed m.journal record := hpinv.frames thread _ hframe
  refine hm.keep_covered hp (moves_of_lines hm rfl rfl rfl rfl
    (hm.moves_insert hp hframe (fun _ => Process.frame_goto) rfl fun _ _ _ _ _ _ => rfl)
    ?_ ?_ ?_) ?_
  · rintro frame ⟨⟩
    exact ⟨hbacked, record, by simp [Process.goto, OperationStore.get_insert]⟩
  · rintro frame key ⟨⟩ hkey
    exact hpinv.lock thread _ key hframe hkey
  · intro frame r hother hsubmitted hkey
    rw [hframe, Option.some.injEq] at hother
    subst hother
    exact ⟨_, rfl, hsubmitted⟩
  · rintro frame r ⟨⟩ hr
    exact ⟨r, known_of_frame hp hframe hr, Alike.refl r⟩

theorem Inv.publish_unkeyed (hm : m.Inv) (hp : m.process = some p)
    (hframe : p.frame thread = some (.journaled record)) (hkey : record.idempotencyKey = none) :
    (m.publish { p with store := p.store.insert record } thread record).Inv := by
  have hpinv := hm.process p hp
  have hbacked : Backed m.journal record := hpinv.frames thread _ hframe
  have hknown := known_of_frame hp hframe rfl
  have hleft :
      (m.running ({ p with store := p.store.insert record }.leave thread none)).Inv := by
    refine hm.keep_covered hp (moves_of_lines hm rfl rfl rfl rfl
      (hm.moves_insert hp hframe (fun _ => Process.frame_leave) rfl fun _ _ _ _ _ _ => rfl)
      ?_ ?_ ?_) ?_
    · exact fun _ h => absurd h (by simp)
    · exact fun _ _ h => absurd h (by simp)
    · intro frame r hother hsubmitted hrkey
      rw [hframe, Option.some.injEq] at hother
      subst hother
      rw [← Option.some.inj hsubmitted] at hrkey
      exact absurd hkey hrkey
    · exact fun _ _ h => absurd h (by simp)
  simp only [publish, hkey]
  refine hleft.answer (fun r hr => ?_) (fun q hq r hr => ?_) ?_
  · rw [← Option.some.inj hr]
    exact ⟨hkey.symm, hm.coherent.hashed record hknown, hbacked⟩
  · rw [← Option.some.inj hr, ← Option.some.inj hq]
    exact ⟨⟨record, by simp [OperationStore.get_insert]⟩,
      fun k hk => absurd hk (by simp)⟩
  · exact fun earlier _ k _ _ hk => absurd hk (by simp)

/-- The thread that holds the lock reserves its key and gives the lock back. -/
theorem Inv.reserve_key (hm : m.Inv) (hp : m.process = some p)
    (hframe : p.frame thread = some (.visible record)) (hkey : record.idempotencyKey = some key) :
    (m.running ({ p with store := p.store.reserve key record.id }.leave thread (some key))).Inv := by
  have hpinv := hm.process p hp
  have hknown := known_of_frame hp hframe rfl
  obtain ⟨hlock, hfree⟩ := hpinv.lock thread _ key hframe hkey
  obtain ⟨-, held, hheld⟩ := hpinv.frames thread _ hframe
  have hcovered : ∀ r, (m.running
      ({ p with store := p.store.reserve key record.id }.leave thread (some key))).Known r →
        m.Known r := by
    rintro r (hline | ⟨q, hq, hholds⟩)
    · exact .inl hline
    · rw [← Option.some.inj hq] at hholds
      cases hholds with
      | op hget => exact .inr ⟨p, hp, .op hget⟩
      | recovery hmem => exact .inr ⟨p, hp, .recovery hmem⟩
      | call t frame hother hrecord =>
        rw [Process.frame_leave] at hother
        split at hother
        · exact absurd hother (by simp)
        · exact .inr ⟨p, hp, .call t frame hother hrecord⟩
  refine ⟨hm.coherent.of_covered fun r hr => ⟨r, hcovered r hr, Alike.refl r⟩, hm.readable,
    hm.lines, hm.told, hm.repeated, fun q hq => ?_⟩
  rw [← Option.some.inj hq]
  refine ⟨hpinv.ops, hpinv.recovery, fun t frame hother => ?_, fun t frame k hother hk => ?_,
    fun r k hr hk => ?_, fun k id hreserved => ?_, fun answer hanswer r hr => ?_⟩
  · rw [Process.frame_leave] at hother
    split at hother
    · exact absurd hother (by simp)
    · exact hpinv.frames t frame hother
  · -- nobody else holds the lock
    rw [Process.frame_leave] at hother
    split at hother
    · exact absurd hother (by simp)
    · next hne =>
        have hheldby := (hpinv.lock t frame k hother hk).1
        rw [hlock, Option.some.injEq] at hheldby
        exact absurd hheldby hne
  · simp only [Process.store_leave, OperationStore.reserved_reserve]
    by_cases hsame : key = k
    · subst hsame
      rw [if_pos rfl]
      exact .inl (congrArg some (hm.coherent.unique record r key hknown (hcovered r hr) hkey hk))
    · rw [if_neg hsame]
      refine (hpinv.bound r k (hcovered r hr) hk).imp id ?_
      rintro ⟨r₀, ⟨t, frame, hother, hsubmitted⟩, hid⟩
      refine ⟨r₀, ⟨t, frame, ?_, hsubmitted⟩, hid⟩
      rw [Process.frame_leave, if_neg ?_]
      · exact hother
      · rintro rfl
        rw [hframe, Option.some.injEq] at hother
        subst hother
        rw [← Option.some.inj hsubmitted] at hid
        have hrkey := (hm.coherent.same record r hknown (hcovered r hr) hid).key
        rw [hkey, hk, Option.some.injEq] at hrkey
        exact hsame hrkey
  · simp only [Process.store_leave, OperationStore.reserved_reserve] at hreserved
    by_cases hsame : key = k
    · rw [if_pos hsame, Option.some.injEq] at hreserved
      refine ⟨held, hreserved ▸ hheld, ?_⟩
      have hlike := hm.coherent.same held record (.inr ⟨p, hp, holds_of_get hheld⟩) hknown
        (OperationStore.id_of_get hheld)
      rw [hlike.key, hkey, hsame]
    · rw [if_neg hsame] at hreserved
      exact hpinv.held k id hreserved
  · obtain ⟨hpresent, hreserved⟩ := hpinv.told answer hanswer r hr
    refine ⟨hpresent, fun k hk => ?_⟩
    have hold := hreserved k hk
    simp only [Process.store_leave, OperationStore.reserved_reserve]
    rw [if_neg ?_]
    · exact hold
    · rintro rfl
      rw [hfree] at hold
      exact absurd hold (by simp)

theorem Inv.reserve (hm : m.Inv) (hp : m.process = some p)
    {record : OperationRecord Value} {key : String}
    (hframe : p.frame thread = some (.visible record)) (hkey : record.idempotencyKey = some key) :
    (m.publish { p with store := p.store.reserve key record.id } thread record).Inv := by
  have hpinv := hm.process p hp
  obtain ⟨hbacked, held, hheld⟩ := hpinv.frames thread _ hframe
  have hreserved := hm.reserve_key hp hframe hkey
  simp only [publish, hkey]
  refine hreserved.answer (fun r hr => ?_) (fun q hq r hr => ?_) ?_
  · rw [← Option.some.inj hr]
    exact ⟨hkey.symm, hm.coherent.hashed record (known_of_frame hp hframe rfl), hbacked⟩
  · rw [← Option.some.inj hr, ← Option.some.inj hq]
    refine ⟨⟨held, hheld⟩, fun k hk => ?_⟩
    simp only [Process.store_leave, OperationStore.reserved_reserve]
    rw [if_pos (Option.some.inj hk)]
  · refine hm.repeats_of_free hp fun k hk => ?_
    rw [← Option.some.inj hk]
    exact (hpinv.lock thread _ key hframe hkey).2

/-- A thread makes a transition and goes on to journal it. -/
theorem Inv.transition (hm : m.Inv) (hp : m.process = some p) {old : OperationRecord Value}
    {store : OperationStore Value} (hidle : p.frame thread = none)
    (hold : p.store.get id = some old) (hlike : Alike old record)
    (hget : ∀ i, store.get i = if id = i then some record else p.store.get i)
    (hreserved : ∀ key, store.reserved key = p.store.reserved key) :
    (m.running ({ p with store := store }.goto thread (.noting record))).Inv := by
  have hpinv := hm.process p hp
  have hmoves : p.Moves ({ p with store := store }.goto thread (.noting record)) thread
      (some (.noting record)) := by
    refine ⟨fun _ => Process.frame_goto, fun _ h => h, hreserved, fun i r' h => ?_,
      fun i r h => ?_, fun _ _ _ _ _ _ => rfl⟩
    · have hr' := (hget i).symm.trans h
      split at hr'
      · next hid =>
          rw [Option.some.injEq] at hr'
          exact ⟨old, hr' ▸ hlike, .inl (hid ▸ hold)⟩
      · exact ⟨r', Alike.refl r', .inl hr'⟩
    · by_cases hid : id = i
      · subst hid
        rw [hold, Option.some.injEq] at h
        exact ⟨record, (hget id).trans (if_pos rfl), h ▸ hlike⟩
      · exact ⟨r, (hget i).trans ((if_neg hid).trans h), Alike.refl r⟩
  refine hm.keep_covered hp (moves_of_lines hm rfl rfl rfl rfl hmoves ?_ ?_ ?_) ?_
  · rintro frame ⟨⟩
    exact (hpinv.ops id old hold).alike hlike
  · rintro frame key ⟨⟩ hkey
    exact absurd hkey (by simp [Frame.key])
  · intro frame r hframe
    rw [hidle] at hframe
    exact absurd hframe (by simp)
  · rintro frame r ⟨⟩ hr
    rw [← Option.some.inj hr]
    exact ⟨old, .inr ⟨p, hp, holds_of_get hold⟩, hlike⟩

theorem Inv.store (hm : m.Inv) (hp : m.process = some p) {store : OperationStore Value}
    (hget : ∀ i, store.get i = p.store.get i)
    (hreserved : ∀ key, store.reserved key = p.store.reserved key) :
    (m.running { p with store := store }).Inv := by
  have hpinv := hm.process p hp
  have hmoves : p.Moves { p with store := store } 0 (p.frame 0) := by
    refine ⟨fun t => ?_, fun _ h => h, hreserved,
      fun i r h => ⟨r, Alike.refl r, .inl ((hget i).symm.trans h)⟩,
      fun i r h => ⟨r, (hget i).trans h, Alike.refl r⟩, fun _ _ _ _ _ _ => rfl⟩
    split
    · next ht => exact ht ▸ rfl
    · rfl
  refine hm.keep_covered hp (moves_of_lines hm rfl rfl rfl rfl hmoves ?_ ?_ ?_) ?_
  · exact fun frame hframe => (hpinv.frames 0 frame hframe).mono (fun _ h => h)
      fun i r h => ⟨r, (hget i).trans h, Alike.refl r⟩
  · intro frame key hframe hkey
    obtain ⟨hlock, hfree⟩ := hpinv.lock 0 frame key hframe hkey
    exact ⟨hlock, (hreserved key).trans hfree⟩
  · exact fun frame r hframe hsubmitted _ => ⟨frame, hframe, hsubmitted⟩
  · exact fun frame r hframe hr => ⟨r, known_of_frame hp hframe hr, Alike.refl r⟩

end

/-! ## Kills and restarts -/

section

omit [Json Value]

theorem Inv.read_lines (hm : m.Inv) : m.journal.read.getD [] = m.journal.lines := by
  unfold LineJournal.read
  split
  · rfl
  · next hunreadable =>
      by_contra hne
      exact hunreadable (hm.readable (Ne.symm hne))

/-- A recovery finds every operation and every key that the journal backs. -/
theorem Inv.start (hm : m.Inv) (hp : m.process = none) (now : Nat → String) :
    (m.start now).Inv := by
  have hknown : ∀ r, m.Known r → r ∈ m.journal.lines := by
    rintro r (hline | ⟨p, hp', -⟩)
    · exact hline
    · rw [hp] at hp'
      exact absurd hp' (by simp)
  have hget : ∀ id r, (recover now m.journal.lines).store.get id = some r →
      ∃ line ∈ m.journal.lines, Alike line r := by
    intro id r hr
    obtain ⟨stamp, hrecover⟩ := recover_record now m.journal.lines id
    rw [hrecover] at hr
    obtain ⟨line, hline, rfl⟩ := Option.map_eq_some_iff.1 hr
    exact ⟨line, (mem_of_lastLine hline).1, Alike.restore line stamp⟩
  have hinterrupted : ∀ r ∈ (recover now m.journal.lines).interrupted,
      ∃ line ∈ m.journal.lines, Alike line r := by
    intro r hr
    obtain ⟨line, hline, -, stamp, rfl⟩ := mem_interrupted hr
    exact ⟨line, hline, Alike.interrupt line stamp⟩
  have hpresent : ∀ line ∈ m.journal.lines,
      ∃ r, (recover now m.journal.lines).store.get line.id = some r := by
    intro line hline
    obtain ⟨stamp, hrecover⟩ := recover_record now m.journal.lines line.id
    cases hlast : lastLine m.journal.lines line.id with
    | none => exact absurd rfl (lastLine_eq_none.1 hlast line hline)
    | some found => exact ⟨found.restore stamp, by rw [hrecover, hlast]; rfl⟩
  have hreserved : ∀ line ∈ m.journal.lines, ∀ key, line.idempotencyKey = some key →
      (recover now m.journal.lines).store.reserved key = some line.id := by
    intro line hline key hkey
    rw [recover_key]
    cases hlast : lastKeyed m.journal.lines key with
    | none => exact absurd hkey (lastKeyed_eq_none.1 hlast line hline)
    | some found =>
      obtain ⟨hfound, hfoundkey⟩ := mem_of_lastKeyed hlast
      exact congrArg some
        (hm.coherent.unique found line key (.inl hfound) (.inl hline) hfoundkey hkey)
  have hcovered : ∀ r, (m.start now).Known r → ∃ r₀, m.Known r₀ ∧ Alike r₀ r := by
    rintro r (hline | ⟨p, hp', hholds⟩)
    · exact ⟨r, .inl hline, Alike.refl r⟩
    · rw [← Option.some.inj hp', hm.read_lines] at hholds
      cases hholds with
      | op hr =>
        obtain ⟨line, hline, hlike⟩ := hget _ r hr
        exact ⟨line, .inl hline, hlike⟩
      | recovery hr =>
        obtain ⟨line, hline, hlike⟩ := hinterrupted r hr
        exact ⟨line, .inl hline, hlike⟩
      | call t frame hframe hrecord => exact absurd hframe (by simp [Process.frame])
  refine ⟨hm.coherent.of_covered hcovered, hm.readable, hm.lines, hm.told, hm.repeated,
    fun p hp' => ?_⟩
  rw [← Option.some.inj hp', hm.read_lines]
  constructor
  · intro id r hr
    obtain ⟨line, hline, hlike⟩ := hget id r hr
    exact (hm.lines line hline).alike hlike
  · intro r hr
    obtain ⟨line, hline, hlike⟩ := hinterrupted r hr
    exact (hm.lines line hline).alike hlike
  · exact fun t frame hframe => absurd hframe (by simp [Process.frame])
  · exact fun t frame key hframe => absurd hframe (by simp [Process.frame])
  · intro r key hr hkey
    obtain ⟨r₀, hr₀, hlike⟩ := hcovered r hr
    exact .inl (hlike.id ▸ hreserved r₀ (hknown r₀ hr₀) key (hlike.key.trans hkey))
  · intro key id hid
    rw [recover_key] at hid
    obtain ⟨found, hfound, rfl⟩ := Option.map_eq_some_iff.1 hid
    obtain ⟨hmem, hkey⟩ := mem_of_lastKeyed hfound
    obtain ⟨r, hr⟩ := hpresent found hmem
    obtain ⟨line, hline, hlike⟩ := hget _ r hr
    have hsame := hm.coherent.same line found (.inl hline) (.inl hmem)
      (hlike.id.trans (OperationStore.id_of_get hr))
    exact ⟨r, hr, hlike.key.symm.trans (hsame.key.trans hkey)⟩
  · intro answer hanswer r hr
    have hsound := hm.told answer hanswer r hr
    obtain ⟨line, hline, -, hlike⟩ := hsound.backed
    refine ⟨hlike.id ▸ hpresent line hline, fun key hkey => ?_⟩
    rw [← hlike.id]
    exact hreserved line hline key (hlike.key.trans (hsound.key ▸ hkey))

/-- What is left of the journal still backs every operation. -/
theorem Inv.kill (hm : m.Inv) {hit : Kill} (hapart : Apart m (.kill hit)) :
    ({ m with journal := Machine.hit m.journal hit, process := none } : Machine Value).Inv := by
  have hbacked : ∀ r, Backed m.journal r → Backed (Machine.hit m.journal hit) r := by
    intro r hr
    cases hit with
    | between => exact hr
    | inText => exact hr.tear hapart
    | inCharacter =>
      obtain ⟨line, hline, -⟩ := hr
      rw [List.isEmpty_iff.1 hapart] at hline
      exact absurd hline List.not_mem_nil
  have hlines : ∀ line ∈ (Machine.hit m.journal hit).lines, line ∈ m.journal.lines := by
    intro line hline
    cases hit with
    | between => exact hline
    | inText => exact LineJournal.mem_lines_of_tear hline
    | inCharacter => exact LineJournal.mem_lines_of_tear hline
  refine ⟨hm.coherent.of_covered ?_, ?_, fun line hline => ?_, fun answer hanswer r hr => ?_,
    hm.repeated, fun p hp => absurd hp (by simp)⟩
  · rintro r (hline | ⟨p, hp, -⟩)
    · exact ⟨r, .inl (hlines r hline), Alike.refl r⟩
    · exact absurd hp (by simp)
  · intro hne
    obtain ⟨line, hline⟩ := List.exists_mem_of_ne_nil _ hne
    have hold := hlines line hline
    cases hit with
    | between => exact hm.readable (List.ne_nil_of_mem hold)
    | inText => exact hm.readable (List.ne_nil_of_mem hold)
    | inCharacter =>
      rw [List.isEmpty_iff.1 hapart] at hold
      exact absurd hold List.not_mem_nil
  · exact hbacked line (hm.lines line (hlines line hline))
  · have hsound := hm.told answer hanswer r hr
    exact ⟨hsound.key, hsound.hashed, hbacked r hsound.backed⟩

end

/-! ## Every run -/

theorem Inv.submit (hm : m.Inv) (hp : m.process = some p) (hidle : p.frame thread = none)
    {params : Params Value} {key : Option String}
    (hstep : m.submit p thread params key = some m') : m'.Inv := by
  cases key with
  | none =>
    rw [← Option.some.inj hstep]
    exact hm.submit_unkeyed hp params hidle
  | some key =>
    simp only [Machine.submit] at hstep
    split at hstep
    · exact absurd hstep (by simp)
    · next hlock =>
        split at hstep
        · next outcome hlookup =>
            rw [← Option.some.inj hstep]
            exact hm.lookup hp hlookup
        · next hlookup =>
            rw [← Option.some.inj hstep]
            exact hm.submit_free hp params hidle (by simpa using hlock) hlookup

theorem Inv.register (hm : m.Inv) (hp : m.process = some p)
    (hserving : p.recovery.isEmpty = true) {params : Params Value} {key : Option String}
    {id now : String} (hframe : p.frame thread = some (.admitted params key))
    (hunused : m.Unused p id) : (m.register p thread params key id now).Inv := by
  unfold Machine.register
  split
  · exact hm.register_busy hp hframe _
  · next store _ hacquire =>
      have hstore : store = (p.store.acquire params.kind.asStr).2 := by rw [hacquire]
      rw [hstore]
      exact hm.register_new hp hserving hframe hunused

theorem Inv.access (hm : m.Inv) (hp : m.process = some p)
    (hserving : p.recovery.isEmpty = true) {a : Access Value} (hapart : Apart m a)
    (hstep : m.access p a = some m') : m'.Inv := by
  cases a with
  | submit thread params key =>
    simp only [Machine.access] at hstep
    split at hstep
    · next hidle => exact hm.submit hp hidle hstep
    · exact absurd hstep (by simp)
  | register thread id now =>
    simp only [Machine.access] at hstep
    split at hstep
    · next params key hframe =>
        split at hstep
        · next hunused =>
            rw [← Option.some.inj hstep]
            exact hm.register hp hserving hframe hunused
        · exact absurd hstep (by simp)
    · exact absurd hstep (by simp)
  | text thread =>
    simp only [Machine.access] at hstep
    split at hstep
    · next record hframe =>
        rw [← Option.some.inj hstep]
        exact hm.text_reserving hp hframe (hapart p hp _ hframe record rfl)
    · next record hframe =>
        rw [← Option.some.inj hstep]
        exact hm.text_noting hp hframe (hapart p hp _ hframe record rfl)
    · exact absurd hstep (by simp)
  | lineEnd thread =>
    simp only [Machine.access] at hstep
    split at hstep
    · next record hframe =>
        rw [← Option.some.inj hstep]
        exact hm.end_reserved hp hframe
    · next record hframe =>
        rw [← Option.some.inj hstep]
        exact hm.end_noted hp hframe
    · exact absurd hstep (by simp)
  | publish thread =>
    simp only [Machine.access] at hstep
    split at hstep
    · next record hframe =>
        split at hstep
        · rw [← Option.some.inj hstep]
          exact hm.publish_keyed hp hframe
        · next hkey =>
            rw [← Option.some.inj hstep]
            exact hm.publish_unkeyed hp hframe (by simpa using hkey)
    · exact absurd hstep (by simp)
  | reserve thread =>
    simp only [Machine.access] at hstep
    split at hstep
    · next record hframe =>
        obtain ⟨key, hkey, rfl⟩ := Option.map_eq_some_iff.1 hstep
        exact hm.reserve hp hframe hkey
    · exact absurd hstep (by simp)
  | markRunning thread id now =>
    simp only [Machine.access] at hstep
    split at hstep
    · next hidle =>
        rw [← Option.some.inj hstep]
        cases hmark : p.store.markRunning id now with
        | none => exact hm
        | some marked =>
          obtain ⟨record, store⟩ := marked
          obtain ⟨old, hold, -, rfl, hget, hreserved, -⟩ :=
            OperationStore.markRunning_eq_some hmark
          exact hm.transition hp hidle hold (Alike.start old now) hget hreserved
    · exact absurd hstep (by simp)
  | finish thread id outcome now =>
    simp only [Machine.access] at hstep
    split at hstep
    · next hidle =>
        rw [← Option.some.inj hstep]
        cases hfinish : p.store.finish id outcome now with
        | none => exact hm
        | some finished =>
          obtain ⟨record, store⟩ := finished
          obtain ⟨old, hold, rfl, hget, hreserved, -⟩ :=
            OperationStore.finish_eq_some hfinish
          exact hm.transition hp hidle hold (Alike.finish old _ outcome now) hget hreserved
    · exact absurd hstep (by simp)
  | cancel id =>
    rw [← Option.some.inj hstep]
    exact hm.store hp (fun _ => OperationStore.get_cancel id)
      fun _ => OperationStore.reserved_cancel id
  | release kind =>
    rw [← Option.some.inj hstep]
    exact hm.store hp (fun _ => OperationStore.get_release kind)
      fun _ => OperationStore.reserved_release kind
  | start now => exact absurd hstep (by simp [Machine.access])
  | recoverText => exact absurd hstep (by simp [Machine.access])
  | recoverEnd => exact absurd hstep (by simp [Machine.access])
  | kill hit => exact absurd hstep (by simp [Machine.access])

theorem Inv.step (hm : m.Inv) {a : Access Value} (hapart : Apart m a)
    (hstep : m.step a = some m') : m'.Inv := by
  unfold Machine.step at hstep
  split at hstep
  · next hp =>
      rw [← Option.some.inj hstep]
      exact hm.start hp _
  · exact absurd hstep (by simp)
  · split at hstep
    · rw [← Option.some.inj hstep]
      exact hm.kill hapart
    · exact absurd hstep (by simp)
  · next p hp _ =>
      split at hstep
      · next hserving => exact hm.access hp hserving hapart hstep
      · refine hm.recoverWrite hp (fun record hrecord ha => ?_) hstep
        subst ha
        exact hapart p hp record hrecord

omit [Json Value] in
theorem inv_fresh : (fresh : Machine Value).Inv := by
  have hknown : ∀ r, ¬ (fresh : Machine Value).Known r := by
    rintro r (hline | ⟨p, hp, -⟩)
    · exact absurd hline (by simp [fresh])
    · exact absurd hp (by simp [fresh])
  exact ⟨⟨fun r _ h => absurd h (hknown r), fun r _ _ h => absurd h (hknown r),
      fun r h => absurd h (hknown r)⟩, fun h => absurd rfl h,
    fun line hline => absurd hline (by simp [fresh]),
    fun answer hanswer => absurd hanswer (by simp [fresh]), List.Pairwise.nil,
    fun p hp => absurd hp (by simp [fresh])⟩

omit [Json Value] in
theorem Inv.atMostOnce (hm : m.Inv) : AtMostOnce m := by
  refine ⟨hm.repeated.imp ?_, hm.repeated, fun p hp answer hanswer record hrecord => ?_⟩
  · intro earlier later hrepeats key hearlier hlater hnew
    cases houtcome : earlier.outcome with
    | new record =>
      obtain ⟨existing, -, hlast⟩ :=
        hrepeats key record hearlier hlater (by rw [houtcome]; rfl)
      rw [hlast]
      split <;> rfl
    | replayed record => simp [houtcome, SubmitOutcome.isNew] at hnew
    | conflict record => simp [houtcome, SubmitOutcome.isNew] at hnew
    | busy => simp [houtcome, SubmitOutcome.isNew] at hnew
  · obtain ⟨⟨existing, hget⟩, -⟩ := (hm.process p hp).told answer hanswer record hrecord
    have hsound := hm.told answer hanswer record hrecord
    obtain ⟨line, hline, -, hlike⟩ := hsound.backed
    have hsame := hm.coherent.same existing line (.inr ⟨p, hp, holds_of_get hget⟩) (.inl hline)
      ((OperationStore.id_of_get hget).trans hlike.id.symm)
    have hexisting := hsame.trans hlike
    exact ⟨existing, hget, hexisting.key.trans hsound.key.symm, hexisting.hash⟩

end Machine

/-- In every run in which no reservation shares its line, every key is answered with one
operation, and no operation that a client was told of is lost. -/
theorem atMostOnce_of_run [Json Value] {as : List (Access Value)} {m : Machine Value}
    (hapart : threads.EachStep Apart Machine.fresh as)
    (hrun : threads.run Machine.fresh as = some m) : AtMostOnce m := by
  have hinv : m.Inv := StepSystem.EachStep.invariant threads (P := Machine.Inv)
    (Q := Apart) (fun _ _ _ h hone hstep => Machine.Inv.step h hone hstep) Machine.inv_fresh
    hapart hrun
  exact hinv.atMostOnce

/-! ## A key that survives a crash, and one that does not -/

/-- Submit a run under a key and answer the client. -/
def submitRun (key id : String) : List (Access Scalar) :=
  [.submit 0 { kind := .run, echo := .null } (some key), .register 0 id "t", .text 0,
    .lineEnd 0, .publish 0, .reserve 0]

def restarted : List (Access Scalar) :=
  [.kill .between, .start fun _ => "t"]

/-- The client repeats its submission before and after a crash. -/
def repeatedRun : List (Access Scalar) :=
  .start (fun _ => "t") :: submitRun "k1" "op1" ++
    .submit 0 { kind := .run, echo := .null } (some "k1") :: restarted ++
    [.recoverText, .recoverEnd, .submit 0 { kind := .reload, echo := .null } (some "k1")]

theorem atMostOnce_repeatedRun :
    ∃ m, threads.run Machine.fresh repeatedRun = some m ∧ m.answers.length = 3 ∧ AtMostOnce m := by
  have hsome : ((threads.run Machine.fresh repeatedRun).map (·.answers.length)) = some 3 := by
    decide +kernel
  obtain ⟨m, hrun, hlength⟩ := Option.map_eq_some_iff.1 hsome
  exact ⟨m, hrun, hlength, atMostOnce_of_run (by decide +kernel) hrun⟩

/-- A submission is killed inside its first write, and the next one goes on in that line. -/
def tornRun : List (Access Scalar) :=
  [.start fun _ => "t", .submit 0 { kind := .reload, echo := .null } (some "k0"),
    .register 0 "op0" "t", .kill .inText, .start fun _ => "t"] ++
  submitRun "k1" "op1" ++ restarted ++ submitRun "k1" "op2"

/-- The same key is answered with two new operations. -/
theorem executed_twice_after_torn_line :
    ∃ m, threads.run Machine.fresh tornRun = some m ∧
      (m.answers.map fun answer => (answer.key, answer.outcome.isNew)) =
        [(some "k1", true), (some "k1", true)] ∧ ¬ AtMostOnce m := by
  have hsome : ((threads.run Machine.fresh tornRun).map fun m =>
      m.answers.map fun answer => (answer.key, answer.outcome.isNew)) =
        some [(some "k1", true), (some "k1", true)] := by
    decide +kernel
  obtain ⟨m, hrun, hanswers⟩ := Option.map_eq_some_iff.1 hsome
  refine ⟨m, hrun, hanswers, fun hpromised => ?_⟩
  obtain ⟨first, rest, hm, hfirst, hrest⟩ := List.map_eq_cons_iff.1 hanswers
  obtain ⟨second, more, rfl, hsecond, -⟩ := List.map_eq_cons_iff.1 hrest
  rw [Prod.mk.injEq] at hfirst hsecond
  have honce := hpromised.once
  rw [hm, List.pairwise_cons] at honce
  have hnot := honce.1 second (by simp) "k1" hfirst.1 hsecond.1 hfirst.2
  rw [hsecond.2] at hnot
  exact absurd hnot (by simp)

end PhloTransform.Daemon
