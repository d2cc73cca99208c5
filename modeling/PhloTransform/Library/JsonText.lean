import Mathlib.Data.List.Basic
import Mathlib.Tactic.Common

/-!
# JSON text

Flat JSON documents: lists of objects whose values are strings or truth values.  Their text
is put together from codes that can be read off the front of any text, so no two documents
have one text.

Main results:

- Theorem `PrefixCode.sequence`: lists of codes between separators, up to a terminator.
- Theorem `prefixCode_quoted`: quoted and escaped strings.
-/

namespace PhloTransform.Library

/-- What follows a code does not change how the code is read. -/
def PrefixCode {α : Type*} (code : α → List Char) : Prop :=
  ∀ a b s t, code a ++ s = code b ++ t → a = b ∧ s = t

namespace PrefixCode

variable {α β : Type*} {code : α → List Char} {code' : β → List Char}

theorem injective (h : PrefixCode code) : Function.Injective code := fun a b hab =>
  (h a b [] [] (by rw [hab])).1

theorem of_reader (read : List Char → Option (α × List Char))
    (h : ∀ a s, read (code a ++ s) = some (a, s)) : PrefixCode code := by
  intro a b s t heq
  have hread : some (a, s) = some (b, t) := by rw [← h, ← h, heq]
  simpa using hread

theorem comp (h : PrefixCode code) {f : β → α} (hf : Function.Injective f) :
    PrefixCode fun b => code (f b) := by
  intro a b s t heq
  obtain ⟨hab, hst⟩ := h _ _ _ _ heq
  exact ⟨hf hab, hst⟩

theorem pair (h : PrefixCode code) (h' : PrefixCode code') :
    PrefixCode fun p : α × β => code p.1 ++ code' p.2 := by
  rintro ⟨a, b⟩ ⟨a', b'⟩ s t heq
  simp only [List.append_assoc] at heq
  obtain ⟨rfl, hrest⟩ := h _ _ _ _ heq
  obtain ⟨rfl, hst⟩ := h' _ _ _ _ hrest
  exact ⟨rfl, hst⟩

theorem prepend (h : PrefixCode code) (opening : List Char) :
    PrefixCode fun a => opening ++ code a := by
  intro a b s t heq
  simp only [List.append_assoc] at heq
  exact h _ _ _ _ (List.append_cancel_left heq)

end PrefixCode

/-! ## Sequences -/

section Sequences

variable {α : Type*} (code : α → List Char) (separator stop : Char)

/-- The further elements of a sequence, each behind a separator. -/
def further : List α → List Char
  | [] => [stop]
  | a :: l => separator :: (code a ++ further l)

def sequence : List α → List Char
  | [] => [stop]
  | a :: l => code a ++ further code separator stop l

variable {code separator stop}

theorem prefixCode_further (h : PrefixCode code) (hne : separator ≠ stop) :
    PrefixCode (further code separator stop) := by
  intro l r s t heq
  induction l generalizing r with
  | nil =>
    cases r with
    | nil => simpa [further] using heq
    | cons b r =>
      simp only [further, List.cons_append, List.cons.injEq] at heq
      exact absurd heq.1.symm hne
  | cons a l ih =>
    cases r with
    | nil =>
      simp only [further, List.cons_append, List.cons.injEq] at heq
      exact absurd heq.1 hne
    | cons b r =>
      simp only [further, List.cons_append, List.cons.injEq, List.append_assoc] at heq
      obtain ⟨rfl, hrest⟩ := h _ _ _ _ heq.2
      obtain ⟨rfl, hst⟩ := ih r hrest
      exact ⟨rfl, hst⟩

/-- Lists of codes between separators, up to a terminator that no code begins with. -/
theorem PrefixCode.sequence (h : PrefixCode code) (hne : separator ≠ stop)
    (hstart : ∀ a, ∃ c rest, code a = c :: rest ∧ c ≠ stop) :
    PrefixCode (sequence code separator stop) := by
  intro l r s t heq
  cases l with
  | nil =>
    cases r with
    | nil => simpa [Library.sequence] using heq
    | cons b r =>
      obtain ⟨c, rest, hcode, hc⟩ := hstart b
      simp only [Library.sequence, hcode, List.cons_append, List.cons.injEq] at heq
      exact absurd heq.1.symm hc
  | cons a l =>
    cases r with
    | nil =>
      obtain ⟨c, rest, hcode, hc⟩ := hstart a
      simp only [Library.sequence, hcode, List.cons_append, List.cons.injEq] at heq
      exact absurd heq.1 hc
    | cons b r =>
      simp only [Library.sequence, List.append_assoc] at heq
      obtain ⟨rfl, hrest⟩ := h _ _ _ _ heq
      obtain ⟨rfl, hst⟩ := prefixCode_further h hne _ _ _ _ hrest
      exact ⟨rfl, hst⟩

/-- Codes one after the other, up to a terminator that no code begins with. -/
theorem prefixCode_run (h : PrefixCode code)
    (hstart : ∀ a, ∃ c rest, code a = c :: rest ∧ c ≠ stop) :
    PrefixCode fun l : List α => l.flatMap code ++ [stop] := by
  intro l r s t heq
  induction l generalizing r with
  | nil =>
    cases r with
    | nil => simpa using heq
    | cons b r =>
      obtain ⟨c, rest, hcode, hc⟩ := hstart b
      simp only [List.flatMap_nil, List.nil_append, List.flatMap_cons, hcode,
        List.cons_append, List.cons.injEq] at heq
      exact absurd heq.1.symm hc
  | cons a l ih =>
    cases r with
    | nil =>
      obtain ⟨c, rest, hcode, hc⟩ := hstart a
      simp only [List.flatMap_nil, List.nil_append, List.flatMap_cons, hcode,
        List.cons_append, List.cons.injEq] at heq
      exact absurd heq.1 hc
    | cons b r =>
      simp only [List.flatMap_cons, List.append_assoc] at heq
      obtain ⟨rfl, hrest⟩ := h _ _ _ _ heq
      obtain ⟨rfl, hst⟩ := ih r (by simpa using hrest)
      exact ⟨rfl, hst⟩

end Sequences

/-! ## Strings -/

def hexDigit (n : Nat) : Char :=
  if n < 10 then Char.ofNat ('0'.toNat + n) else Char.ofNat ('a'.toNat + (n - 10))

def escape (c : Char) : List Char :=
  if c = '"' then ['\\', '"']
  else if c = '\\' then ['\\', '\\']
  else if c = '\x08' then ['\\', 'b']
  else if c = '\t' then ['\\', 't']
  else if c = '\n' then ['\\', 'n']
  else if c = '\x0c' then ['\\', 'f']
  else if c = '\x0d' then ['\\', 'r']
  else if c.toNat < 32 then
    ['\\', 'u', '0', '0', hexDigit (c.toNat / 16), hexDigit (c.toNat % 16)]
  else [c]

def hexValue (c : Char) : Nat :=
  if c.toNat < 97 then c.toNat - 48 else c.toNat - 87

/-- Read one character of a JSON string. -/
def readEscape : List Char → Option (Char × List Char)
  | '\\' :: '"' :: s => some ('"', s)
  | '\\' :: '\\' :: s => some ('\\', s)
  | '\\' :: 'b' :: s => some ('\x08', s)
  | '\\' :: 't' :: s => some ('\t', s)
  | '\\' :: 'n' :: s => some ('\n', s)
  | '\\' :: 'f' :: s => some ('\x0c', s)
  | '\\' :: 'r' :: s => some ('\x0d', s)
  | '\\' :: 'u' :: '0' :: '0' :: high :: low :: s =>
    some (Char.ofNat (16 * hexValue high + hexValue low), s)
  | c :: s => some (c, s)
  | [] => none

theorem hexValue_hexDigit : ∀ n < 16, hexValue (hexDigit n) = n := by
  decide

theorem readEscape_escape (c : Char) (s : List Char) :
    readEscape (escape c ++ s) = some (c, s) := by
  unfold escape
  split_ifs with hquote hslash h8 htab hline hpage hreturn hcontrol
  · subst hquote
    rfl
  · subst hslash
    rfl
  · subst h8
    rfl
  · subst htab
    rfl
  · subst hline
    rfl
  · subst hpage
    rfl
  · subst hreturn
    rfl
  · have hvalue : 16 * hexValue (hexDigit (c.toNat / 16)) + hexValue (hexDigit (c.toNat % 16)) =
        c.toNat := by
      rw [hexValue_hexDigit _ (by omega), hexValue_hexDigit _ (by omega)]
      omega
    have hread : readEscape (['\\', 'u', '0', '0', hexDigit (c.toNat / 16),
        hexDigit (c.toNat % 16)] ++ s) =
          some (Char.ofNat (16 * hexValue (hexDigit (c.toNat / 16)) +
            hexValue (hexDigit (c.toNat % 16))), s) := rfl
    rw [hread, hvalue, Char.ofNat_toNat]
  · simp [readEscape, hslash]

theorem prefixCode_escape : PrefixCode escape :=
  .of_reader readEscape readEscape_escape

theorem escape_start (c : Char) : ∃ d rest, escape c = d :: rest ∧ d ≠ '"' := by
  unfold escape
  split_ifs with hquote
  · exact ⟨_, _, rfl, by decide⟩
  · exact ⟨_, _, rfl, by decide⟩
  · exact ⟨_, _, rfl, by decide⟩
  · exact ⟨_, _, rfl, by decide⟩
  · exact ⟨_, _, rfl, by decide⟩
  · exact ⟨_, _, rfl, by decide⟩
  · exact ⟨_, _, rfl, by decide⟩
  · exact ⟨_, _, rfl, by decide⟩
  · exact ⟨c, [], rfl, hquote⟩

def quoted (s : String) : List Char :=
  '"' :: (s.toList.flatMap escape ++ ['"'])

theorem prefixCode_quoted : PrefixCode quoted :=
  ((prefixCode_run prefixCode_escape escape_start).comp
    fun _ _ => String.toList_injective).prepend ['"']

theorem newline_notMem_escape (c : Char) : '\n' ∉ escape c := by
  have hdigit : ∀ n < 16, '\n' ≠ hexDigit n := by decide
  unfold escape
  split_ifs with _ _ _ _ hline _ _ hcontrol
  · decide
  · decide
  · decide
  · decide
  · decide
  · decide
  · decide
  · have hhigh := hdigit (c.toNat / 16) (by omega)
    have hlow := hdigit (c.toNat % 16) (by omega)
    simp [hhigh, hlow]
  · have hne : '\n' ≠ c := fun heq => hline heq.symm
    simp [hne]

theorem newline_notMem_quoted (s : String) : '\n' ∉ quoted s := by
  simp [quoted, newline_notMem_escape]

/-! ## Flat documents -/

/-- A value that is no collection. -/
inductive Scalar where
  | string (s : String)
  | bool (b : Bool)
deriving Repr, DecidableEq

def Scalar.text : Scalar → List Char
  | string s => quoted s
  | bool true => ['t', 'r', 'u', 'e']
  | bool false => ['f', 'a', 'l', 's', 'e']

theorem prefixCode_scalar : PrefixCode Scalar.text := by
  intro a b s t heq
  cases a with
  | string v =>
    cases b with
    | string w =>
      obtain ⟨rfl, hst⟩ := prefixCode_quoted _ _ _ _ heq
      exact ⟨rfl, hst⟩
    | bool w => cases w <;> simp [Scalar.text, quoted] at heq
  | bool v =>
    cases b with
    | string w => cases v <;> simp [Scalar.text, quoted] at heq
    | bool w => cases v <;> cases w <;> simp_all [Scalar.text]

/-- `"name":value`. -/
def member (p : String × Scalar) : List Char :=
  quoted p.1 ++ ([':'] ++ p.2.text)

def object (members : List (String × Scalar)) : List Char :=
  '{' :: sequence member ',' '}' members

def objects (l : List (List (String × Scalar))) : List Char :=
  '[' :: sequence object ',' ']' l

theorem prefixCode_object : PrefixCode object :=
  ((prefixCode_quoted.pair (prefixCode_scalar.prepend [':'])).sequence (by decide)
    fun p => ⟨'"', _, rfl, by decide⟩).prepend ['{']

theorem prefixCode_objects : PrefixCode objects :=
  (prefixCode_object.sequence (by decide) fun _ => ⟨'{', _, rfl, by decide⟩).prepend ['[']

end PhloTransform.Library
