import Mathlib.Algebra.GroupWithZero.Nat
import Mathlib.Algebra.Order.BigOperators.Group.List
import Mathlib.Algebra.Order.Group.Nat
import Mathlib.Data.List.Basic
import Mathlib.Data.List.Infix
import Mathlib.Tactic.Common

/-!
# Texts with brackets

Splitting a text at the commas outside of all brackets, and counting the places where a
word of a given list begins.  A split passes over a text whose brackets match, and the
parts it makes hold no more words than the text.

Main results:

- Theorem `Enclosed.bracket`: a text in brackets is passed over.
- Theorem `sum_occurrences_splitTop_le`: splitting makes no new words.
-/

namespace PhloTransform.Library

variable {text : List Char}
variable {c : Char} {x y : List Char}

/-! ## Small letters -/

theorem toLower_of_not (h : ¬ (c.val ≥ 'A'.val ∧ c.val ≤ 'Z'.val)) : c.toLower = c :=
  dif_neg h

theorem val_toLower (h : c.val ≥ 'A'.val ∧ c.val ≤ 'Z'.val) :
    c.toLower.val = c.val + ('a'.val - 'A'.val) :=
  congrArg Char.val (dif_pos h)

theorem toLower_toLower (c : Char) : c.toLower.toLower = c.toLower := by
  by_cases h : c.val ≥ 'A'.val ∧ c.val ≤ 'Z'.val
  · have hval := val_toLower h
    -- The small letters stand after the capital ones.
    have hnot : ¬ (c.toLower.val ≥ 'A'.val ∧ c.toLower.val ≤ 'Z'.val) := by
      rw [hval]
      intro hcapital
      have hlow := UInt32.le_iff_toNat_le.1 h.1
      have hhigh := UInt32.le_iff_toNat_le.1 h.2
      have hsum := UInt32.le_iff_toNat_le.1 hcapital.2
      have hA : 'A'.val.toNat = 65 := rfl
      have hZ : 'Z'.val.toNat = 90 := rfl
      have hshift : ('a'.val - 'A'.val).toNat = 32 := rfl
      rw [UInt32.toNat_add] at hsum
      omega
    exact toLower_of_not hnot
  · rw [toLower_of_not h, toLower_of_not h]

/-- A character that becomes another one is a capital letter and becomes a small one. -/
theorem isLower_toLower (h : c.toLower ≠ c) : c.isUpper = true ∧ c.toLower.isLower = true := by
  have hrange : c.val ≥ 'A'.val ∧ c.val ≤ 'Z'.val := by
    by_contra hnot
    exact h (toLower_of_not hnot)
  have hval := val_toLower hrange
  have hlow := UInt32.le_iff_toNat_le.1 hrange.1
  have hhigh := UInt32.le_iff_toNat_le.1 hrange.2
  have hA : 'A'.val.toNat = 65 := rfl
  have hZ : 'Z'.val.toNat = 90 := rfl
  have ha : 'a'.val.toNat = 97 := rfl
  have hz : 'z'.val.toNat = 122 := rfl
  have hshift : ('a'.val - 'A'.val).toNat = 32 := rfl
  have hsum : c.toLower.val.toNat = c.val.toNat + 32 := by
    rw [hval, UInt32.toNat_add]
    omega
  refine ⟨?_, ?_⟩
  · exact decide_eq_true hrange
  · change (decide (c.toLower.val ≥ 'a'.val) && decide (c.toLower.val ≤ 'z'.val)) = true
    simp only [ge_iff_le, Bool.and_eq_true, decide_eq_true_eq, UInt32.le_iff_toNat_le]
    omega

def asciiLower (text : List Char) : List Char :=
  text.map Char.toLower

@[simp]
theorem asciiLower_append (x y : List Char) : asciiLower (x ++ y) = asciiLower x ++ asciiLower y :=
  List.map_append

@[simp]
theorem asciiLower_asciiLower (x : List Char) : asciiLower (asciiLower x) = asciiLower x := by
  rw [asciiLower, asciiLower, List.map_map]
  apply List.map_congr_left
  intro c _
  exact toLower_toLower c

@[simp]
theorem length_asciiLower (x : List Char) : (asciiLower x).length = x.length :=
  List.length_map _

/-! ## Splitting at commas outside of brackets -/

def isOpening (c : Char) : Bool :=
  c == '(' || c == '<' || c == '['

def isClosing (c : Char) : Bool :=
  c == ')' || c == '>' || c == ']'

/-- Split at the commas outside of brackets; every part is cleaned, and a last part that
cleaning leaves empty is dropped. -/
def splitTop (clean : List Char → List Char) (depth : Nat) (current : List Char) :
    List Char → List (List Char)
  | [] => if (clean current).isEmpty then [] else [clean current]
  | c :: rest =>
    if isOpening c then splitTop clean (depth + 1) (current ++ [c]) rest
    else if isClosing c then splitTop clean (depth - 1) (current ++ [c]) rest
    else if c = ',' ∧ depth = 0 then clean current :: splitTop clean 0 [] rest
    else splitTop clean depth (current ++ [c]) rest

/-- A split passes over the text inside of brackets. -/
def Inside (text : List Char) : Prop :=
  ∀ clean depth current rest, splitTop clean (depth + 1) current (text ++ rest) =
    splitTop clean (depth + 1) (current ++ text) rest

/-- A split passes over the text everywhere. -/
def Enclosed (text : List Char) : Prop :=
  ∀ clean depth current rest, splitTop clean depth current (text ++ rest) =
    splitTop clean depth (current ++ text) rest

theorem Enclosed.inside (h : Enclosed text) : Inside text :=
  fun clean depth current rest => h clean (depth + 1) current rest

theorem Inside.nil : Inside [] := by
  intro clean depth current rest
  rw [List.nil_append, List.append_nil]

theorem Inside.append (hx : Inside x) (hy : Inside y) : Inside (x ++ y) := by
  intro clean depth current rest
  rw [List.append_assoc, hx, hy, List.append_assoc]

theorem Inside.comma : Inside [','] := by
  intro clean depth current rest
  rw [List.singleton_append, splitTop]
  simp [isOpening, isClosing]

theorem Enclosed.append (hx : Enclosed x) (hy : Enclosed y) : Enclosed (x ++ y) := by
  intro clean depth current rest
  rw [List.append_assoc, hx, hy, List.append_assoc]

/-- Characters other than brackets and commas. -/
def isPlain (c : Char) : Bool :=
  !isOpening c && !isClosing c && c != ','

theorem Enclosed.plain (h : text.all isPlain = true) : Enclosed text := by
  induction text with
  | nil =>
    intro clean depth current rest
    rw [List.nil_append, List.append_nil]
  | cons c text ih =>
    intro clean depth current rest
    rw [List.all_cons, Bool.and_eq_true] at h
    have hc := h.1
    simp only [isPlain, Bool.and_eq_true, Bool.not_eq_true', bne_iff_ne] at hc
    rw [List.cons_append, splitTop, hc.1.1, hc.1.2]
    simp only [Bool.false_eq_true, if_false, hc.2, false_and]
    rw [ih h.2, List.append_assoc, List.singleton_append]

theorem Enclosed.bracket {opening closing : Char} (hopening : isOpening opening = true)
    (hclosing : isClosing closing = true) (hnot : isOpening closing = false) (h : Inside text) :
    Enclosed (opening :: (text ++ [closing])) := by
  intro clean depth current rest
  rw [List.cons_append, splitTop, if_pos hopening, List.append_assoc, h, List.singleton_append,
    splitTop, hnot, if_neg Bool.false_ne_true, if_pos hclosing, Nat.add_sub_cancel]
  simp

theorem Enclosed.splitTop_eq (h : Enclosed text) (clean : List Char → List Char) (depth : Nat)
    (current : List Char) (hne : clean (current ++ text) ≠ []) :
    splitTop clean depth current text = [clean (current ++ text)] := by
  have hpass := h clean depth current []
  rw [List.append_nil] at hpass
  rw [hpass, splitTop, if_neg]
  simpa using hne

theorem Enclosed.splitTop_comma (h : Enclosed text) (clean : List Char → List Char)
    (current rest : List Char) :
    splitTop clean 0 current (text ++ ',' :: rest) =
      clean (current ++ text) :: splitTop clean 0 [] rest := by
  rw [h, splitTop]
  simp [isOpening, isClosing]

theorem infix_of_mem_splitTop {clean : List Char → List Char} (hclean : ∀ x, clean x <:+: x)
    {depth : Nat} {current part : List Char} (h : part ∈ splitTop clean depth current text) :
    part <:+: current ++ text := by
  induction text generalizing depth current with
  | nil =>
    rw [splitTop] at h
    split at h
    · cases h
    · rw [List.mem_singleton.1 h, List.append_nil]
      exact hclean current
  | cons c text ih =>
    have hmove : current ++ c :: text = current ++ [c] ++ text := by simp
    rw [splitTop] at h
    rw [hmove]
    split_ifs at h
    · exact ih h
    · exact ih h
    · rcases List.mem_cons.1 h with rfl | h
      · have hprefix : current <:+: current ++ [c] ++ text :=
          ((List.prefix_append current [c]).trans (List.prefix_append _ text)).isInfix
        exact (hclean current).trans hprefix
      · have hsuffix : text <:+: current ++ [c] ++ text := (List.suffix_append _ text).isInfix
        exact (ih h).trans hsuffix
    · exact ih h

/-! ## Counting words -/

def startsWord (words : List (List Char)) (text : List Char) : Bool :=
  words.any fun word => word.isPrefixOf text

/-- The number of places where a word begins. -/
def occurrences (words : List (List Char)) : List Char → Nat
  | [] => 0
  | c :: rest => (if startsWord words (c :: rest) then 1 else 0) + occurrences words rest

section Words

variable {words : List (List Char)}

theorem startsWord_append {x : List Char} (y : List Char) (h : startsWord words x = true) :
    startsWord words (x ++ y) = true := by
  rw [startsWord, List.any_eq_true] at h ⊢
  obtain ⟨word, hword, hpre⟩ := h
  rw [List.isPrefixOf_iff_prefix] at hpre
  exact ⟨word, hword, List.isPrefixOf_iff_prefix.2 (hpre.trans (List.prefix_append x y))⟩

theorem occurrences_add_le (words : List (List Char)) (x y : List Char) :
    occurrences words x + occurrences words y ≤ occurrences words (x ++ y) := by
  induction x with
  | nil => simp [occurrences]
  | cons c x ih =>
    rw [List.cons_append, occurrences, occurrences]
    by_cases h : startsWord words (c :: x) = true
    · have happend : startsWord words (c :: (x ++ y)) = true := startsWord_append y h
      rw [if_pos h, if_pos happend]
      omega
    · rw [if_neg h]
      omega

theorem occurrences_le_of_isInfix {x y : List Char} (h : x <:+: y) :
    occurrences words x ≤ occurrences words y := by
  obtain ⟨s, t, rfl⟩ := h
  have hleft := occurrences_add_le words (s ++ x) t
  have hright := occurrences_add_le words s x
  omega

theorem startsWord_append_cons (x : List Char) {c : Char} (y : List Char)
    (hc : ∀ word ∈ words, c ∉ word) : startsWord words (x ++ c :: y) = startsWord words x := by
  rw [Bool.eq_iff_iff]
  constructor
  · intro h
    rw [startsWord, List.any_eq_true] at h ⊢
    obtain ⟨word, hword, hpre⟩ := h
    refine ⟨word, hword, List.isPrefixOf_iff_prefix.2 ?_⟩
    rw [List.isPrefixOf_iff_prefix] at hpre
    rcases List.prefix_or_prefix_of_prefix hpre (List.prefix_append x (c :: y)) with hx | hx
    · exact hx
    · obtain ⟨tail, rfl⟩ := hx
      rw [List.prefix_append_right_inj] at hpre
      cases tail with
      | nil => simp
      | cons d tail =>
        rw [List.cons_prefix_cons] at hpre
        exact absurd (by simp [hpre.1]) (hc _ hword)
  · exact startsWord_append _

theorem occurrences_append_cons {c : Char} (x y : List Char)
    (hc : ∀ word ∈ words, c ∉ word) (hnil : [] ∉ words) :
    occurrences words (x ++ c :: y) = occurrences words x + occurrences words y := by
  induction x with
  | nil =>
    have hstart : startsWord words (c :: y) = false := by
      have hempty := startsWord_append_cons [] y hc
      rw [List.nil_append] at hempty
      rw [hempty, startsWord, List.any_eq_false]
      intro word hword hpre
      rw [List.isPrefixOf_iff_prefix, List.prefix_nil] at hpre
      exact hnil (hpre ▸ hword)
    have hcount : occurrences words (c :: y) = 0 + occurrences words y := by
      rw [occurrences, hstart, if_neg Bool.false_ne_true]
    simpa [occurrences] using hcount
  | cons d x ih =>
    have hstart : startsWord words (d :: (x ++ c :: y)) = startsWord words (d :: x) :=
      startsWord_append_cons (d :: x) y hc
    rw [List.cons_append, occurrences, hstart, ih, occurrences, Nat.add_assoc]

theorem sum_occurrences_splitTop_le (words : List (List Char)) {clean : List Char → List Char}
    (hclean : ∀ x, clean x <:+: x) (depth : Nat) (current text : List Char) :
    ((splitTop clean depth current text).map (occurrences words)).sum ≤
      occurrences words (current ++ text) := by
  induction text generalizing depth current with
  | nil =>
    rw [splitTop, List.append_nil]
    split
    · simp
    · simpa using occurrences_le_of_isInfix (hclean current)
  | cons c text ih =>
    have hmove : current ++ c :: text = current ++ [c] ++ text := by simp
    rw [splitTop]
    split_ifs
    · rw [hmove]
      exact ih _ _
    · rw [hmove]
      exact ih _ _
    · rw [List.map_cons, List.sum_cons]
      have hpart : occurrences words (clean current) ≤ occurrences words current :=
        occurrences_le_of_isInfix (hclean current)
      have hrest := ih 0 []
      have hsplit := occurrences_add_le words (current ++ [c]) text
      have hcurrent := occurrences_add_le words current [c]
      rw [List.nil_append] at hrest
      rw [hmove]
      omega
    · rw [hmove]
      exact ih _ _

end Words

end PhloTransform.Library
