import PhloTransform.Library.SeparatedText
import Mathlib.Data.Nat.Digits.Defs

/-!
# Debug text

The debug form of a string is the string between quotation marks, with a backslash in front of what
must be escaped.  Which characters can be printed as they are is a parameter.  A quotation mark is
never written bare inside, so that a text and the same text begun inside a string cannot both be
read to the end.

Main results:

- Theorem `prefixCode_debugQuoted`: debug forms of strings are read off the front of any text.
- Theorem `not_orderly_inside`: a text that is read from outside is not read from inside a string.
-/

namespace PhloTransform.Library

variable {mark : List Char}
variable {text bare s t : List Char}

/-! ## Hexadecimal numbers -/

theorem hexDigits_injective : Function.Injective (Nat.toDigits 16) := by
  have hdigit : ∀ m < 16, ∀ n < 16, m.digitChar = n.digitChar → m = n := by decide
  intro m
  induction m using Nat.strong_induction_on with
  | _ m ih =>
    intro n h
    rw [Nat.toDigits_eq_if (n := m) (by decide), Nat.toDigits_eq_if (n := n) (by decide)] at h
    split_ifs at h with hm hn hn
    · exact hdigit m hm n hn (List.cons.inj h).1
    · have hlength := congrArg List.length h
      have hpos : 0 < (Nat.toDigits 16 (n / 16)).length := Nat.length_toDigits_pos
      simp at hlength
    · have hlength := congrArg List.length h
      have hpos : 0 < (Nat.toDigits 16 (m / 16)).length := Nat.length_toDigits_pos
      simp at hlength
    · obtain ⟨hfront, hlast⟩ := List.append_inj' h rfl
      have hquotient := ih (m / 16) (by omega) hfront
      have hremainder := hdigit (m % 16) (Nat.mod_lt _ (by decide)) (n % 16)
        (Nat.mod_lt _ (by decide)) (List.cons.inj hlast).1
      omega

theorem mem_hexDigits {n : Nat} {c : Char} (h : c ∈ Nat.toDigits 16 n) :
    c ∈ "0123456789abcdef".toList := by
  have hdigit : ∀ m < 16, m.digitChar ∈ "0123456789abcdef".toList := by decide
  induction n using Nat.strong_induction_on with
  | _ n ih =>
    rw [Nat.toDigits_eq_if (by decide)] at h
    split_ifs at h with hn
    · rw [List.mem_singleton.1 h]
      exact hdigit n hn
    · rcases List.mem_append.1 h with hfront | hlast
      · exact ih (n / 16) (by omega) hfront
      · rw [List.mem_singleton.1 hlast]
        exact hdigit _ (Nat.mod_lt _ (by decide))

/-! ## Strings -/

section Strings

variable (printable : Char → Bool)
variable {letter c : Char}

/-- The letter that stands for a character behind a backslash. -/
def escapeLetter (c : Char) : Option Char :=
  if c = '\x00' then some '0'
  else if c = '\t' then some 't'
  else if c = '\x0d' then some 'r'
  else if c = '\n' then some 'n'
  else if c = '\\' then some '\\'
  else if c = '"' then some '"'
  else none

/-- `escape_debug`: a character inside the debug form of a string. -/
def debugEscape (c : Char) : List Char :=
  match escapeLetter c with
  | some letter => ['\\', letter]
  | none =>
    if printable c then [c]
    else '\\' :: 'u' :: '\x7b' :: (Nat.toDigits 16 c.toNat ++ ['\x7d'])

def debugQuoted (s : String) : List Char :=
  '"' :: (s.toList.flatMap (debugEscape printable) ++ ['"'])

variable {printable}

theorem escapeLetter_inj {a b : Char} (ha : escapeLetter a = some letter)
    (hb : escapeLetter b = some letter) : a = b := by
  unfold escapeLetter at ha hb
  split_ifs at ha hb <;>
    first | (subst_vars; rfl) | exact absurd (ha.trans hb.symm) (by decide)

theorem escapeLetter_ne_u (h : escapeLetter c = some letter) : letter ≠ 'u' := by
  unfold escapeLetter at h
  split_ifs at h <;> cases h <;> decide

theorem ne_of_escapeLetter (h : escapeLetter c = none) : c ≠ '\\' ∧ c ≠ '"' := by
  constructor <;> rintro rfl <;> exact absurd h (by decide)

theorem prefixCode_debugEscape : PrefixCode (debugEscape printable) := by
  intro a b s t h
  unfold debugEscape at h
  cases ha : escapeLetter a with
  | some letter =>
    cases hb : escapeLetter b with
    | some other =>
      simp only [ha, hb, List.cons_append, List.nil_append, List.cons.injEq, true_and] at h
      obtain ⟨rfl, hst⟩ := h
      exact ⟨escapeLetter_inj ha hb, hst⟩
    | none =>
      simp only [ha, hb] at h
      split_ifs at h
      · exact absurd (List.head_eq_of_cons_eq h).symm (ne_of_escapeLetter hb).1
      · simp only [List.cons_append, List.cons.injEq, true_and] at h
        exact absurd h.1 (escapeLetter_ne_u ha)
  | none =>
    cases hb : escapeLetter b with
    | some other =>
      simp only [ha, hb] at h
      split_ifs at h
      · exact absurd (List.head_eq_of_cons_eq h) (ne_of_escapeLetter ha).1
      · simp only [List.cons_append, List.cons.injEq, true_and] at h
        exact absurd h.1.symm (escapeLetter_ne_u hb)
    | none =>
      simp only [ha, hb] at h
      split_ifs at h
      · simpa using h
      · exact absurd (List.head_eq_of_cons_eq h) (ne_of_escapeLetter ha).1
      · exact absurd (List.head_eq_of_cons_eq h).symm (ne_of_escapeLetter hb).1
      · simp only [List.cons_append, List.append_assoc, List.nil_append, List.cons.injEq,
          true_and] at h
        have hclosing : ∀ n : Nat, '\x7d' ∉ Nat.toDigits 16 n := fun n hmem =>
          absurd (mem_hexDigits hmem) (by decide)
        obtain ⟨hdigits, hst⟩ := cut_inj (hclosing _) (hclosing _) h
        exact ⟨Char.toNat_inj.1 (hexDigits_injective hdigits), hst⟩

theorem debugEscape_start (c : Char) : ∃ d rest, debugEscape printable c = d :: rest ∧ d ≠ '"' := by
  unfold debugEscape
  split
  · exact ⟨_, _, rfl, by decide⟩
  · next h =>
      split_ifs
      · exact ⟨c, [], rfl, (ne_of_escapeLetter h).2⟩
      · exact ⟨_, _, rfl, by decide⟩

/-- Debug forms of strings are read off the front of any text. -/
theorem prefixCode_debugQuoted : PrefixCode (debugQuoted printable) :=
  ((prefixCode_run prefixCode_debugEscape debugEscape_start).comp
    fun _ _ => String.toList_injective).prepend ['"']

end Strings

/-! ## Inside and outside of strings -/

/-- Where a reader of debug text is. -/
inductive QuoteState where
  | outside
  | inside
  | escaped
deriving Repr, DecidableEq

/-- A text that is read to its end outside of strings, and that has neither a semicolon nor a
backslash there. -/
def Orderly : QuoteState → List Char → Prop
  | state, [] => state = .outside
  | .outside, c :: text =>
    c ≠ ';' ∧ c ≠ '\\' ∧ Orderly (if c = '"' then .inside else .outside) text
  | .inside, c :: text =>
    Orderly (if c = '"' then .outside else if c = '\\' then .escaped else .inside) text
  | .escaped, _ :: text => Orderly .inside text

/-- A text that is read from outside is not read from inside a string: every quotation mark opens a
string for one reader and closes it for the other, and neither has a backslash where the other one
is outside. -/
theorem not_orderly_inside (h : Orderly .outside text) : ¬ Orderly .inside text := by
  suffices hboth : ¬ (Orderly .outside text ∧ Orderly .inside text) from fun h' => hboth ⟨h, h'⟩
  clear h
  induction text with
  | nil => simp [Orderly]
  | cons c text ih =>
    rintro ⟨hout, hin⟩
    simp only [Orderly] at hout hin
    obtain ⟨-, hslash, hout⟩ := hout
    rw [if_neg hslash] at hin
    split_ifs at hout hin
    · exact ih ⟨hin, hout⟩
    · exact ih ⟨hout, hin⟩

/-- A text without quotation marks, backslashes and semicolons. -/
def Bare (text : List Char) : Prop :=
  ∀ c ∈ text, c ≠ '"' ∧ c ≠ '\\' ∧ c ≠ ';'

instance (text : List Char) : Decidable (Bare text) :=
  List.decidableBAll _ text

theorem orderly_bare_append (h : Bare bare) (text : List Char) :
    Orderly .outside (bare ++ text) ↔ Orderly .outside text := by
  induction bare with
  | nil => rfl
  | cons c bare ih =>
    rw [Bare, List.forall_mem_cons] at h
    obtain ⟨⟨hquote, hslash, hsemicolon⟩, hbare⟩ := h
    rw [List.cons_append, Orderly, if_neg hquote, ih hbare]
    simp [hslash, hsemicolon]

theorem orderly_inside_bare_append (h : ∀ c ∈ bare, c ≠ '"' ∧ c ≠ '\\') (text : List Char) :
    Orderly .inside (bare ++ text) ↔ Orderly .inside text := by
  induction bare with
  | nil => rfl
  | cons c bare ih =>
    rw [List.forall_mem_cons] at h
    obtain ⟨⟨hquote, hslash⟩, hbare⟩ := h
    rw [List.cons_append, Orderly, if_neg hquote, if_neg hslash, ih hbare]

theorem orderly_debugEscape_append {printable : Char → Bool} (c : Char) (text : List Char) :
    Orderly .inside (debugEscape printable c ++ text) ↔ Orderly .inside text := by
  unfold debugEscape
  split
  · simp [Orderly]
  · next h =>
      obtain ⟨hslash, hquote⟩ := ne_of_escapeLetter h
      split_ifs
      · exact orderly_inside_bare_append (by simp [hslash, hquote]) text
      · have hdigits : ∀ d ∈ '\x7b' :: (Nat.toDigits 16 c.toNat ++ ['\x7d']),
            d ≠ '"' ∧ d ≠ '\\' := by
          intro d hd
          simp only [List.mem_cons, List.mem_append, List.not_mem_nil, or_false] at hd
          rcases hd with rfl | hd | rfl
          · decide
          · constructor <;> rintro rfl <;> exact absurd (mem_hexDigits hd) (by decide)
          · decide
        rw [← orderly_inside_bare_append hdigits text]
        simp [Orderly]

theorem orderly_debugQuoted_append {printable : Char → Bool} (s : String) (text : List Char) :
    Orderly .outside (debugQuoted printable s ++ text) ↔ Orderly .outside text := by
  have hchars : ∀ chars : List Char,
      Orderly .inside (chars.flatMap (debugEscape printable) ++ '"' :: text) ↔
        Orderly .outside text := by
    intro chars
    induction chars with
    | nil => simp [Orderly]
    | cons c chars ih =>
      rw [List.flatMap_cons, List.append_assoc, orderly_debugEscape_append, ih]
  rw [← hchars s.toList]
  simp [debugQuoted, Orderly]

/-- What is behind a mark that starts with a semicolon is read from inside a string. -/
theorem orderly_inside_of_mark (hmark : ∀ c ∈ mark, c ≠ '"' ∧ c ≠ '\\') {state : QuoteState}
    {before : List Char} (h : Orderly state (before ++ ';' :: (mark ++ text))) :
    Orderly .inside text := by
  induction before generalizing state with
  | nil =>
    rw [List.nil_append] at h
    cases state with
    | outside => exact absurd rfl h.1
    | inside =>
      rw [Orderly, if_neg (by decide), if_neg (by decide)] at h
      exact (orderly_inside_bare_append hmark text).1 h
    | escaped =>
      rw [Orderly] at h
      exact (orderly_inside_bare_append hmark text).1 h
  | cons c before ih =>
    rw [List.cons_append] at h
    cases state with
    | outside => exact ih h.2.2
    | inside => exact ih h
    | escaped => exact ih h

/-- No orderly text is behind a mark inside of a longer one. -/
theorem mark_append_ne (hmark : Bare mark) {middle : List Char} (hs : Orderly .outside s)
    (ht : Orderly .outside t) : mark ++ s ≠ middle ++ ';' :: (mark ++ t) := by
  have hplain : ∀ c ∈ mark, c ≠ '"' ∧ c ≠ '\\' := fun c hc => ⟨(hmark c hc).1, (hmark c hc).2.1⟩
  have hinside : ∀ before, s ≠ before ++ ';' :: (mark ++ t) := fun before heq =>
    not_orderly_inside ht (orderly_inside_of_mark hplain (heq ▸ hs))
  intro h
  rcases List.append_eq_append_iff.1 h with ⟨before, -, hs'⟩ | ⟨overlap, hmark', hrest⟩
  · exact hinside before hs'
  · cases overlap with
    | nil => exact hinside [] hrest.symm
    | cons c overlap =>
      -- the marks would overlap at a semicolon
      rw [List.cons_append] at hrest
      refine (hmark c ?_).2.2 (List.head_eq_of_cons_eq hrest).symm
      rw [hmark']
      exact List.mem_append_right _ List.mem_cons_self

/-- An orderly text is read back from behind a mark that starts with a semicolon, whatever is in
front of the mark. -/
theorem orderly_cut_inj (hmark : Bare mark) {x y : List Char} (hs : Orderly .outside s)
    (ht : Orderly .outside t) (h : x ++ ';' :: (mark ++ s) = y ++ ';' :: (mark ++ t)) :
    x = y ∧ s = t := by
  rcases List.append_eq_append_iff.1 h with ⟨middle, hy, hrest⟩ | ⟨middle, hx, hrest⟩
  · cases middle with
    | nil =>
      rw [List.nil_append, List.cons_inj_right] at hrest
      exact ⟨by simpa using hy.symm, List.append_cancel_left hrest⟩
    | cons c middle =>
      rw [List.cons_append] at hrest
      exact absurd (List.tail_eq_of_cons_eq hrest) (mark_append_ne hmark hs ht)
  · cases middle with
    | nil =>
      rw [List.nil_append, List.cons_inj_right] at hrest
      exact ⟨by simpa using hx, (List.append_cancel_left hrest).symm⟩
    | cons c middle =>
      rw [List.cons_append] at hrest
      exact absurd (List.tail_eq_of_cons_eq hrest) (mark_append_ne hmark ht hs)

end PhloTransform.Library
