import Mathlib.Data.List.Basic
import Mathlib.Tactic.Common

/-!
# The lines of a text

A text is read as lines that end at a newline, or at a carriage return and a newline; the last
one may lack its end.

Main results:

- Theorem `textLines_flatMap`: texts that were written one after the other are read one by one.
-/

namespace PhloTransform.Library

/-- A line without the carriage return before its newline. -/
def dropReturn (line : List Char) : List Char :=
  if line.getLast? = some '\r' then line.dropLast else line

/-- The lines of a text of which `line` has been read. -/
def linesFrom (line : List Char) : List Char → List (List Char)
  | [] => if line = [] then [] else [line]
  | c :: rest =>
    if c = '\n' then dropReturn line :: linesFrom [] rest
    else linesFrom (line ++ [c]) rest

/-- `str::lines`. -/
def textLines (text : List Char) : List (List Char) :=
  linesFrom [] text

variable {line : List Char}

theorem linesFrom_newline (before text rest : List Char) :
    linesFrom before (text ++ '\n' :: rest) =
      linesFrom before (text ++ ['\n']) ++ textLines rest := by
  induction text generalizing before with
  | nil =>
    simp only [List.nil_append, linesFrom, if_pos]
    rfl
  | cons c text ih =>
    rw [List.cons_append, List.cons_append, linesFrom, linesFrom]
    split
    · rw [ih, List.cons_append]
    · rw [ih]

theorem textLines_newline (text rest : List Char) :
    textLines (text ++ '\n' :: rest) = textLines (text ++ ['\n']) ++ textLines rest :=
  linesFrom_newline [] text rest

/-- Texts that were written one after the other are read one by one. -/
theorem textLines_flatMap (texts : List (List Char)) (rest : List Char) :
    textLines (texts.flatMap (fun text => text ++ ['\n']) ++ rest) =
      texts.flatMap (fun text => textLines (text ++ ['\n'])) ++ textLines rest := by
  induction texts with
  | nil => rfl
  | cons text texts ih =>
    rw [List.flatMap_cons, List.flatMap_cons, List.append_assoc, List.append_assoc,
      List.singleton_append, textLines_newline, ih, List.append_assoc]

theorem linesFrom_single (h : '\n' ∉ line) (before : List Char) :
    linesFrom before (line ++ ['\n']) = [dropReturn (before ++ line)] := by
  induction line generalizing before with
  | nil =>
    rw [List.nil_append, linesFrom, if_pos rfl, List.append_nil]
    rfl
  | cons c line ih =>
    rw [List.mem_cons, not_or] at h
    rw [List.cons_append, linesFrom, if_neg (Ne.symm h.1), ih h.2, List.append_assoc]
    rfl

theorem textLines_single (h : '\n' ∉ line) (hlast : line.getLast? ≠ some '\r') :
    textLines (line ++ ['\n']) = [line] := by
  rw [textLines, linesFrom_single h, List.nil_append, dropReturn, if_neg hlast]

theorem mem_of_mem_dropReturn {c : Char} (h : c ∈ dropReturn line) : c ∈ line := by
  unfold dropReturn at h
  split at h
  · exact (List.dropLast_prefix line).subset h
  · exact h

theorem notMem_of_mem_linesFrom {text before : List Char} (hbefore : '\n' ∉ before)
    (h : line ∈ linesFrom before text) : '\n' ∉ line := by
  induction text generalizing before with
  | nil =>
    rw [linesFrom] at h
    split at h
    · cases h
    · rwa [List.mem_singleton.1 h]
  | cons c text ih =>
    rw [linesFrom] at h
    split at h
    · rcases List.mem_cons.1 h with rfl | h
      · exact fun hc => hbefore (mem_of_mem_dropReturn hc)
      · exact ih List.not_mem_nil h
    · next hc =>
        refine ih (fun hmem => ?_) h
        rcases List.mem_append.1 hmem with hold | hnew
        · exact hbefore hold
        · exact hc (List.mem_singleton.1 hnew).symm

theorem notMem_of_mem_textLines {text : List Char} (h : line ∈ textLines text) : '\n' ∉ line :=
  notMem_of_mem_linesFrom List.not_mem_nil h

end PhloTransform.Library
