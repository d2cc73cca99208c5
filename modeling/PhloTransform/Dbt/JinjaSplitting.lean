import PhloTransform.Dbt.JinjaMarkers

/-!
# Splitting text as Jinja does

Jinja ends an expression or a statement at a closing delimiter outside of strings and brackets,
and takes a sign for a marker where it is attached to a delimiter.  The scanner ends it at the
first closing delimiter, and takes every sign at an end for a marker.

Main results:

- Theorem `splitsAsJinja_iff`: the texts that the scanner splits as Jinja does.
-/

namespace PhloTransform.Dbt

variable {construct : Construct} {body body' after after' : List Char}
namespace JinjaScan

open Library (cut cut_append_iff exists_cut_append eq_append_of_cut)
open Library.Jinja (Construct Letters Lexes Piece content eq_append_of_read hasOpening)
open Core (trim)

/-! ## Where nothing opens -/

section Openings

variable {before text rest : List Char} {c : Char}

theorem opened_eq_none (h : (c = '{' && (rest.head?.bind Construct.ofOpening).isSome) = false) :
    opened (c :: rest) = none := by
  unfold opened
  split
  · next d tail heq =>
      cases heq
      cases hopening : Construct.ofOpening d with
      | none => rfl
      | some construct => simp [hopening] at h
  · rfl

theorem scanFrom_of_text (h : hasOpening text = false) :
    scanFrom before text = literal (before ++ text) := by
  induction text generalizing before with
  | nil => rw [scanFrom_nil, List.append_nil]
  | cons c text ih =>
    rw [hasOpening, Bool.or_eq_false_iff] at h
    rw [scanFrom_of_closed (opened_eq_none h.1), ih h.2, List.append_assoc]
    rfl

theorem scanFrom_append (h : hasOpening (text ++ ['{']) = false) :
    scanFrom before (text ++ '{' :: rest) = scanFrom (before ++ text) ('{' :: rest) := by
  induction text generalizing before with
  | nil => rw [List.nil_append, List.append_nil]
  | cons c text ih =>
    rw [List.cons_append, hasOpening, Bool.or_eq_false_iff] at h
    have hhead : (text ++ '{' :: rest).head? = (text ++ ['{']).head? := by
      cases text <;> rfl
    rw [List.cons_append, scanFrom_of_closed (opened_eq_none (by rw [hhead]; exact h.1)),
      ih h.2, List.append_assoc]
    rfl

theorem opened_construct (construct : Construct) (rest : List Char) :
    opened ('{' :: construct.opening :: rest) = some (construct, rest) := by
  rw [opened, Construct.ofOpening_opening]
  rfl

end Openings

/-! ## The segments of a template -/

/-- The segment that a piece of a template stands for. -/
def Segment.ofPiece : Piece → Segment
  | .text part => .text part
  | .construct .expression body => .expr (rawOf .expression body) (trim (content body))
  | .construct .statement body => .stmt (rawOf .statement body) (trim (content body))
  | .construct .comment body => .comment (rawOf .comment body)

/-- An expression or a statement that holds no closing delimiter before its own, and no sign at an
end that is not attached. -/
structure PlainBody (construct : Construct) (body : List Char) : Prop where
  closing : ¬construct.close <:+: body ++ [construct.closing]
  signs : SignsAttached body

/-- A piece that is no expression or statement, or has a plain body. -/
def Plain : Piece → Prop
  | .text _ => True
  | .construct .comment _ => True
  | .construct construct body => PlainBody construct body

theorem map_ofPiece_ofText (text : List Char) :
    (Piece.ofText text).map Segment.ofPiece = literal text := by
  unfold Piece.ofText literal
  split <;> rfl

theorem rawOf_inj : rawOf construct body = rawOf construct body' ↔ body = body' := by
  simp [rawOf]

theorem raw_ofPiece (construct : Construct) (body : List Char) :
    (Segment.ofPiece (.construct construct body)).raw = rawOf construct body := by
  cases construct <;> rfl

theorem plain_of_mem_ofText {text : List Char} : ∀ piece ∈ Piece.ofText text, Plain piece := by
  intro piece hpiece
  unfold Piece.ofText at hpiece
  split at hpiece
  · cases hpiece
  · rw [List.mem_singleton.1 hpiece]
    trivial

theorem findClose_iff
    (h : findClose construct.close (body ++ (construct.close ++ after)) = some (body', after')) :
    body' = body ∧ after' = after ↔ ¬construct.close <:+: body ++ [construct.closing] := by
  have hcut : cut construct.close (body ++ (construct.close ++ after)) = some (body, after) ↔ _ :=
    cut_append_iff construct.close_ne_nil
  rw [findClose] at h
  rw [h, Option.some_inj, Prod.mk.injEq] at hcut
  exact hcut

theorem findClose_of_same
    (h : findClose construct.close (body ++ (construct.close ++ after)) = some (body, after')) :
    after' = after := by
  have heq := eq_append_of_cut construct.close_ne_nil h
  exact (List.append_cancel_left (List.append_cancel_left heq)).symm

/-- The segment that is found is the one of the construct exactly when its body is plain. -/
theorem segmentOf_eq_iff (hcomment : construct ≠ .comment)
    (h : findClose construct.close (body ++ (construct.close ++ after)) = some (body', after')) :
    segmentOf construct body' = Segment.ofPiece (.construct construct body) ↔
      PlainBody construct body := by
  have hclose := findClose_iff h
  have hbody : segmentOf construct body' = Segment.ofPiece (.construct construct body) ↔
      body' = body ∧ stripMarkers body' = trim (content body) := by
    cases construct with
    | comment => exact absurd rfl hcomment
    | expression => simp [segmentOf, Segment.ofPiece, rawOf_inj]
    | statement => simp [segmentOf, Segment.ofPiece, rawOf_inj]
  rw [hbody]
  constructor
  · rintro ⟨rfl, hsigns⟩
    exact ⟨hclose.1 ⟨rfl, findClose_of_same h⟩, (stripMarkers_eq_iff body').1 hsigns⟩
  · rintro ⟨hplain, hsigns⟩
    obtain ⟨rfl, -⟩ := hclose.2 hplain
    exact ⟨rfl, (stripMarkers_eq_iff body').2 hsigns⟩

/-! ## Agreement -/

variable {letters : Letters}

/-- The scanner yields the segments of the pieces exactly when these are plain. -/
theorem scan_eq_iff {text : List Char} {pieces : List Piece} (h : Lexes letters text pieces) :
    scan text = pieces.map Segment.ofPiece ↔ ∀ piece ∈ pieces, Plain piece := by
  induction h with
  | @text text h =>
    refine iff_of_true ?_ fun piece hpiece => ?_
    · rw [scan, scanFrom_of_text h, List.nil_append, map_ofPiece_ofText]
    · exact plain_of_mem_ofText piece hpiece
  | @construct text body rest after construct pieces hopening hread hraw hafter ih =>
    have hrest := eq_append_of_read hread
    obtain ⟨body', after', hfound⟩ :
        ∃ body' after', findClose construct.close rest = some (body', after') := by
      rw [hrest]
      exact exists_cut_append construct.close_ne_nil body after
    have hhead : segmentOf construct body' = Segment.ofPiece (.construct construct body) ↔
        Plain (.construct construct body) := by
      rw [hrest] at hfound
      cases construct with
      | comment =>
        rw [Construct.read, hrest] at hread
        rw [findClose, hread] at hfound
        cases hfound
        exact iff_of_true rfl trivial
      | expression => exact segmentOf_eq_iff (by decide) hfound
      | statement => exact segmentOf_eq_iff (by decide) hfound
    have htail : segmentOf construct body' = Segment.ofPiece (.construct construct body) →
        after' = after := by
      intro heq
      have hraw := congrArg Segment.raw heq
      rw [raw_segmentOf, raw_ofPiece, rawOf_inj] at hraw
      rw [hrest, hraw] at hfound
      exact findClose_of_same hfound
    have hall : (∀ piece ∈ Piece.ofText text ++ .construct construct body :: pieces,
        Plain piece) ↔ Plain (.construct construct body) ∧ ∀ piece ∈ pieces, Plain piece := by
      simp only [List.forall_mem_append, List.forall_mem_cons]
      exact and_iff_right (plain_of_mem_ofText)
    rw [hall, scan, scanFrom_append hopening, List.nil_append,
      scanFrom_of_construct (opened_construct construct rest) hfound, List.map_append,
      List.map_cons, map_ofPiece_ofText, List.append_right_inj, List.cons.injEq, hhead]
    refine and_congr_right fun hplain => ?_
    rw [htail (hhead.2 hplain)]
    exact ih

/-- The segments make up the text, and are those that Jinja splits it into. -/
structure SplitsAsJinja (letters : Letters) (text : List Char) : Prop where
  raws : (scan text).flatMap Segment.raw = text
  segments : ∀ pieces, Lexes letters text pieces → scan text = pieces.map Segment.ofPiece

/-- The texts that the scanner splits as Jinja does: no expression or statement holds a closing
delimiter before its own, and no sign at an end of one is detached from the delimiter. -/
theorem splitsAsJinja_iff (letters : Letters) (text : List Char) :
    SplitsAsJinja letters text ↔
      ∀ pieces, Lexes letters text pieces → ∀ piece ∈ pieces, Plain piece := by
  constructor
  · intro h pieces hpieces
    exact (scan_eq_iff hpieces).1 (h.segments pieces hpieces)
  · intro h
    exact ⟨flatMap_raw_scan text, fun pieces hpieces => (scan_eq_iff hpieces).2 (h pieces hpieces)⟩

/-! ## Nested braces, quoted delimiters and minus signs -/

def asciiLetters : Letters where
  isWord c := c.isAlphanum || c = '_'
  isSpace := Core.isWhitespace

theorem lexes_expression {letters : Letters} (text body : List Char)
    (h : Construct.expression.read letters text = some (body, [])) :
    Lexes letters ("\x7b\x7b".toList ++ text) [.construct .expression body] := by
  have hopening : hasOpening ([] ++ ['{']) = false := by decide
  exact Lexes.construct hopening h (fun hraw => nomatch hraw.1) (Lexes.text rfl)

/-- The braces of a dictionary and the quotes of a string hide a closing delimiter from Jinja, and
the minus sign of a number is part of it. -/
theorem braces_quotes_signs_misread :
    ¬SplitsAsJinja asciiLetters
        ("\x7b\x7b".toList ++ " config(meta=\x7b'a': \x7b'b': 1\x7d\x7d) \x7d\x7d".toList) ∧
      ¬SplitsAsJinja asciiLetters
        ("\x7b\x7b".toList ++ " ref('a\x7d\x7db') \x7d\x7d".toList) ∧
      ¬SplitsAsJinja asciiLetters ("\x7b\x7b".toList ++ " -1 \x7d\x7d".toList) := by
  refine ⟨fun h => ?_, fun h => ?_, fun h => ?_⟩
  · have hlexes : Lexes asciiLetters _ _ := lexes_expression
      (" config(meta=\x7b'a': \x7b'b': 1\x7d\x7d) \x7d\x7d".toList)
      (" config(meta=\x7b'a': \x7b'b': 1\x7d\x7d) ".toList) (by decide +kernel)
    have hplain := (scan_eq_iff hlexes).1 (h.segments _ hlexes) _ List.mem_cons_self
    exact hplain.closing (by decide +kernel)
  · have hlexes : Lexes asciiLetters _ _ := lexes_expression
      (" ref('a\x7d\x7db') \x7d\x7d".toList)
      (" ref('a\x7d\x7db') ".toList) (by decide +kernel)
    have hplain := (scan_eq_iff hlexes).1 (h.segments _ hlexes) _ List.mem_cons_self
    exact hplain.closing (by decide +kernel)
  · have hlexes : Lexes asciiLetters _ _ := lexes_expression
      (" -1 \x7d\x7d".toList) (" -1 ".toList) (by decide +kernel)
    have hplain := (scan_eq_iff hlexes).1 (h.segments _ hlexes) _ List.mem_cons_self
    exact absurd (hplain.signs.opening (by decide +kernel)) (by decide +kernel)

end JinjaScan
end PhloTransform.Dbt
