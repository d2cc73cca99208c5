import Mathlib.Data.List.Basic
import Mathlib.Tactic.Common

/-!
# Append-only files of lines

A journal keeps one record a line.  A writer appends the text of a record and the
line end in two writes; a process that is killed inside the first one leaves the
beginning of a record, and nothing keeps the next writer from going on in the same
line.  A line reads back as a record only when it holds exactly one whole record.  A
write that is cut inside a character leaves a file that does not read back as text.

Main results:

- Theorem `LineJournal.lines_append`: an append to a journal whose last line is ended
  adds one record.
- Theorem `LineJournal.mem_lines_write`: a record keeps its line across a write, unless
  the write goes on in that line.
-/

namespace PhloTransform.Library

/-- What a write leaves in a line: a whole record, or the beginning of one. -/
inductive Piece (Record : Type*) where
  | whole (r : Record)
  | torn
deriving DecidableEq, Repr

/-- A file of lines, each a list of pieces. -/
structure LineJournal (Record : Type*) where
  ended : List (List (Piece Record))
  last : List (Piece Record)
  readable : Bool
deriving DecidableEq, Repr

namespace LineJournal

variable {Record : Type*}
variable {rs : List Record}

def empty : LineJournal Record where
  ended := []
  last := []
  readable := true

/-- A line that holds exactly one whole record reads back as it. -/
def parse : List (Piece Record) → Option Record
  | [.whole r] => some r
  | _ => none

/-- The records that the lines read back as. -/
def lines (f : LineJournal Record) : List Record :=
  (f.ended ++ [f.last]).filterMap parse

def read (f : LineJournal Record) : Option (List Record) :=
  if f.readable then some f.lines else none

def write (f : LineJournal Record) (r : Record) : LineJournal Record :=
  { f with last := f.last ++ [.whole r] }

def endLine (f : LineJournal Record) : LineJournal Record :=
  { f with ended := f.ended ++ [f.last], last := [] }

/-- The process is killed inside the text of a record. -/
def tear (f : LineJournal Record) : LineJournal Record :=
  { f with last := f.last ++ [.torn] }

/-- The process is killed inside a character. -/
def cut (f : LineJournal Record) : LineJournal Record :=
  { f.tear with readable := false }

def append (f : LineJournal Record) (r : Record) : LineJournal Record :=
  (f.write r).endLine

variable {f : LineJournal Record} {q r : Record}

theorem parse_eq_some {line : List (Piece Record)} : parse line = some r ↔ line = [.whole r] := by
  constructor
  · intro h
    match line with
    | [.whole q] => simpa [parse] using h
    | [] => simp [parse] at h
    | [.torn] => simp [parse] at h
    | _ :: _ :: _ => simp [parse] at h
  · rintro rfl
    rfl

theorem mem_lines : r ∈ f.lines ↔ [Piece.whole r] ∈ f.ended ∨ f.last = [Piece.whole r] := by
  rw [lines, List.mem_filterMap]
  constructor
  · rintro ⟨line, hline, hparse⟩
    rw [parse_eq_some.1 hparse, List.mem_append, List.mem_singleton] at hline
    exact hline.imp id Eq.symm
  · intro h
    refine ⟨[.whole r], ?_, rfl⟩
    rw [List.mem_append, List.mem_singleton]
    exact h.imp id Eq.symm

@[simp]
theorem lines_empty : (empty : LineJournal Record).lines = [] :=
  rfl

@[simp]
theorem lines_endLine : f.endLine.lines = f.lines := by
  rw [lines, lines, endLine, List.filterMap_append]
  exact List.append_nil _

@[simp]
theorem last_endLine : f.endLine.last = [] :=
  rfl

@[simp]
theorem readable_endLine : f.endLine.readable = f.readable :=
  rfl

@[simp]
theorem last_write : (f.write r).last = f.last ++ [.whole r] :=
  rfl

@[simp]
theorem readable_write : (f.write r).readable = f.readable :=
  rfl

@[simp]
theorem last_tear : f.tear.last = f.last ++ [.torn] :=
  rfl

@[simp]
theorem readable_tear : f.tear.readable = f.readable :=
  rfl

@[simp]
theorem last_append : (f.append r).last = [] :=
  rfl

@[simp]
theorem readable_append : (f.append r).readable = f.readable :=
  rfl

/-! ## What a write adds and what it destroys -/

theorem lines_write (hlast : f.last = []) : (f.write r).lines = f.lines ++ [r] := by
  simp [lines, write, hlast, parse]

/-- An append to a journal whose last line is ended adds one record. -/
theorem lines_append (hlast : f.last = []) : (f.append r).lines = f.lines ++ [r] := by
  rw [append, lines_endLine, lines_write hlast]

theorem lines_foldl_append (hlast : f.last = []) : (rs.foldl append f).lines = f.lines ++ rs := by
  induction rs generalizing f with
  | nil => simp
  | cons r rs ih =>
    rw [List.foldl_cons, ih last_append, lines_append hlast]
    simp

theorem last_foldl_append (hlast : f.last = []) : (rs.foldl append f).last = [] := by
  induction rs generalizing f with
  | nil => exact hlast
  | cons r rs ih => exact ih last_append

theorem readable_foldl_append : (rs.foldl append f).readable = f.readable := by
  induction rs generalizing f with
  | nil => rfl
  | cons r rs ih => exact ih

/-- A record keeps its line across a write, unless the write goes on in that line. -/
theorem mem_lines_write (hq : q ∈ f.lines) (hlast : Piece.whole q ∉ f.last) :
    q ∈ (f.write r).lines := by
  rcases mem_lines.1 hq with hended | hopen
  · exact mem_lines.2 (.inl hended)
  · exact absurd (hopen ▸ List.mem_singleton.2 rfl) hlast

theorem mem_lines_tear (hq : q ∈ f.lines) (hlast : Piece.whole q ∉ f.last) : q ∈ f.tear.lines := by
  rcases mem_lines.1 hq with hended | hopen
  · exact mem_lines.2 (.inl hended)
  · exact absurd (hopen ▸ List.mem_singleton.2 rfl) hlast

theorem mem_lines_of_write (hq : q ∈ (f.write r).lines) : q ∈ f.lines ∨ q = r := by
  rcases mem_lines.1 hq with hended | hopen
  · exact .inl (mem_lines.2 (.inl hended))
  · rw [last_write] at hopen
    obtain ⟨-, hqr⟩ := List.append_inj' (show f.last ++ _ = [] ++ _ from hopen) rfl
    rw [List.singleton_inj, Piece.whole.injEq] at hqr
    exact .inr hqr.symm

theorem mem_lines_of_tear (hq : q ∈ f.tear.lines) : q ∈ f.lines := by
  rcases mem_lines.1 hq with hended | hopen
  · exact mem_lines.2 (.inl hended)
  · rw [last_tear] at hopen
    obtain ⟨-, hqr⟩ := List.append_inj' (show f.last ++ _ = [] ++ _ from hopen) rfl
    simp at hqr

end LineJournal

end PhloTransform.Library
