import PhloTransform.Core.Trimming
import PhloTransform.Library.JinjaText

/-!
# The scanner for Jinja delimiters

The text of a dbt file is split into literal SQL and Jinja constructs.  A construct ends at the
first closing delimiter after it opened; one that never ends is left as text.

Main results:

- Theorem `flatMap_raw_scan`: the segments make up the text.
-/

namespace PhloTransform.Dbt.JinjaScan

open Library (cut length_lt_of_cut)
open Library.Jinja (Construct dropOpeningSign dropClosingSign)
open Core (trimStart trimEnd)

/-! ## Segments -/

/-- One piece of a dbt SQL file. -/
inductive Segment where
  | text (text : List Char)
  /-- `\x7b\x7b expr \x7d\x7d`, with the expression without its markers. -/
  | expr (raw inner : List Char)
  | stmt (raw inner : List Char)
  | comment (raw : List Char)
deriving Repr, DecidableEq

/-- The text as it appeared in the source. -/
def Segment.raw : Segment → List Char
  | .text part => part
  | .expr raw _ => raw
  | .stmt raw _ => raw
  | .comment raw => raw

/-! ## Markers -/

/-- `strip_markers`: trimmed before each sign is looked for. -/
def stripMarkers (inner : List Char) : List Char :=
  let inner := trimStart inner
  let inner := trimEnd (dropOpeningSign inner)
  Core.trim (dropClosingSign inner)

/-! ## Scanning -/

/-- `find_close`: what lies before the next closing delimiter, and what follows it. -/
def findClose (close text : List Char) : Option (List Char × List Char) :=
  cut close text

/-- The construct that the text opens with, and what follows its delimiter. -/
def opened : List Char → Option (Construct × List Char)
  | '{' :: c :: rest => (Construct.ofOpening c).map fun construct => (construct, rest)
  | _ => none

/-- The text of a construct as it appeared in the source. -/
def rawOf (construct : Construct) (body : List Char) : List Char :=
  '{' :: construct.opening :: (body ++ construct.close)

def segmentOf (construct : Construct) (body : List Char) : Segment :=
  match construct with
  | .expression => .expr (rawOf construct body) (stripMarkers body)
  | .statement => .stmt (rawOf construct body) (stripMarkers body)
  | .comment => .comment (rawOf construct body)

/-- The text between two constructs, if there is any. -/
def literal (text : List Char) : List Segment :=
  if text = [] then [] else [.text text]

theorem eq_of_opened {text inside : List Char} {construct : Construct}
    (h : opened text = some (construct, inside)) : text = '{' :: construct.opening :: inside := by
  unfold opened at h
  split at h
  · next c rest =>
      obtain ⟨construct', hopening, heq⟩ := Option.map_eq_some_iff.1 h
      cases heq
      rw [Construct.opening_of_ofOpening hopening]
  · cases h

/-- The loop of `scan`; `before` is the text since the last construct. -/
def scanFrom (before : List Char) (text : List Char) : List Segment :=
  match text with
  | [] => literal before
  | c :: rest =>
    match _hopened : opened (c :: rest) with
    | none => scanFrom (before ++ [c]) rest
    | some (construct, inside) =>
      match _hclose : findClose construct.close inside with
      | none => literal (before ++ c :: rest)
      | some (body, after) =>
        literal before ++ segmentOf construct body :: scanFrom [] after
termination_by text.length
decreasing_by
  · simp
  · have hinside := congrArg List.length (eq_of_opened _hopened)
    have hafter := length_lt_of_cut construct.close_ne_nil _hclose
    simp only [List.length_cons] at hinside ⊢
    omega

/-- Split dbt SQL into literal and Jinja segments, in order. -/
def scan (sql : List Char) : List Segment :=
  scanFrom [] sql

/-! ## Steps of the loop -/

variable {before rest inside body after : List Char} {c : Char} {construct : Construct}

theorem scanFrom_nil (before : List Char) : scanFrom before [] = literal before := by
  rw [scanFrom]

theorem scanFrom_of_closed (h : opened (c :: rest) = none) :
    scanFrom before (c :: rest) = scanFrom (before ++ [c]) rest := by
  rw [scanFrom]
  split
  · rfl
  · next heq => rw [h] at heq; cases heq

theorem scanFrom_of_unclosed (h : opened (c :: rest) = some (construct, inside))
    (hclose : findClose construct.close inside = none) :
    scanFrom before (c :: rest) = literal (before ++ c :: rest) := by
  rw [scanFrom]
  split
  · next heq => rw [h] at heq; cases heq
  · next construct' inside' heq =>
      rw [h] at heq
      cases heq
      split
      · rfl
      · next hsome => rw [hclose] at hsome; cases hsome

/-- A construct is a segment of its own, behind the text before it. -/
theorem scanFrom_of_construct (h : opened (c :: rest) = some (construct, inside))
    (hclose : findClose construct.close inside = some (body, after)) :
    scanFrom before (c :: rest) =
      literal before ++ segmentOf construct body :: scanFrom [] after := by
  rw [scanFrom]
  split
  · next heq => rw [h] at heq; cases heq
  · next construct' inside' heq =>
      rw [h] at heq
      cases heq
      split
      · next hnone => rw [hclose] at hnone; cases hnone
      · next body' after' hsome =>
          rw [hclose] at hsome
          cases hsome
          rfl

/-! ## The segments make up the text -/

@[simp]
theorem flatMap_raw_literal (text : List Char) : (literal text).flatMap Segment.raw = text := by
  unfold literal
  split
  · next h => rw [h]; rfl
  · simp [Segment.raw]

theorem raw_segmentOf (construct : Construct) (body : List Char) :
    (segmentOf construct body).raw = rawOf construct body := by
  cases construct <;> rfl

theorem flatMap_raw_scanFrom (before text : List Char) :
    (scanFrom before text).flatMap Segment.raw = before ++ text := by
  induction before, text using scanFrom.induct with
  | case1 before =>
    rw [scanFrom_nil, flatMap_raw_literal, List.append_nil]
  | case2 before c rest hopened ih =>
    rw [scanFrom_of_closed hopened, ih, List.append_assoc]
    rfl
  | case3 before c rest construct inside hopened hclose =>
    rw [scanFrom_of_unclosed hopened hclose, flatMap_raw_literal]
  | case4 before c rest construct inside hopened body after hclose ih =>
    rw [scanFrom_of_construct hopened hclose, List.flatMap_append, List.flatMap_cons,
      flatMap_raw_literal, raw_segmentOf, ih, eq_of_opened hopened,
      Library.eq_append_of_cut construct.close_ne_nil hclose]
    simp [rawOf]

theorem flatMap_raw_scan (sql : List Char) : (scan sql).flatMap Segment.raw = sql :=
  flatMap_raw_scanFrom [] sql

end PhloTransform.Dbt.JinjaScan
