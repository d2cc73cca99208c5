import Mathlib.Algebra.BigOperators.Group.List.Basic
import PhloTransform.Dbt.PyLit
import PhloTransform.Library.Utf8

/-!
# String literals

A Python string literal writes a text between quotes, with escapes for the quotes, the backslash
and control characters.  The literal parser reads back what is ASCII and, between single quotes,
escapes that stand for the character behind the backslash.

Main results:

- Theorem `Literal.parseString_iff`: a literal is read back exactly if it is made of such pieces.
-/

namespace PhloTransform.Dbt.PyLit

open Library (IsAscii)

variable {c d : Char}
variable {s : List Char}

/-! ## Literals -/

def letterEscapes : List (Char × Char) :=
  [('a', '\x07'), ('b', '\x08'), ('f', '\x0c'), ('n', '\n'), ('r', '\r'), ('t', '\t'),
    ('v', '\x0b')]

def digitValue (c : Char) : Nat :=
  if c.isDigit then c.toNat - '0'.toNat
  else if 'a' ≤ c ∧ c ≤ 'f' then c.toNat - 'a'.toNat + 10
  else c.toNat - 'A'.toNat + 10

def isHexDigit (c : Char) : Bool := c.isDigit || ('a' ≤ c && c ≤ 'f') || ('A' ≤ c && c ≤ 'F')

def isOctalDigit (c : Char) : Bool := '0' ≤ c && c ≤ '7'

def numeral (base : Nat) (digits : List Char) : Nat :=
  digits.foldl (fun n c => base * n + digitValue c) 0

/-- What stands behind the backslash of a control character: a letter, or the number of the
character as `\xhh`, `\uhhhh`, `\Uhhhhhhhh` or in one to three octal digits. -/
inductive Denotes : List Char → Char → Prop where
  | letter {l c : Char} (h : (l, c) ∈ letterEscapes) : Denotes [l] c
  | hex {form : Char} {digits : List Char} {c : Char} (hc : c.toNat < 32 ∨ c.toNat = 127)
      (hform : (form, digits.length) ∈ [('x', 2), ('u', 4), ('U', 8)])
      (hdigits : digits.all isHexDigit) (hvalue : numeral 16 digits = c.toNat) :
      Denotes (form :: digits) c
  | octal {digits : List Char} {c : Char} (hc : c.toNat < 32 ∨ c.toNat = 127)
      (hne : digits ≠ []) (hlength : digits.length ≤ 3) (hdigits : digits.all isOctalDigit)
      (hvalue : numeral 8 digits = c.toNat) : Denotes digits c

/-- A control character and its escape. -/
structure ControlEscape where
  text : List Char
  value : Char
  denotes : Denotes text value

/-- A character that an escape stands for itself. -/
def IsSelfEscape (c : Char) : Prop := c = '\'' ∨ c = '"' ∨ c = '\\'

/-- A piece of a string literal. -/
inductive Piece where
  | plain (c : Char)
  | self (c : Char) (h : IsSelfEscape c)
  | control (escape : ControlEscape)

namespace Piece

def source : Piece → List Char
  | plain c => [c]
  | self c _ => ['\\', c]
  | control escape => '\\' :: escape.text

def value : Piece → Char
  | plain c => c
  | self c _ => c
  | control escape => escape.value

/-- The piece is an octal escape that another digit would continue. -/
def IsShortOctal : Piece → Prop
  | control escape => escape.text.all isOctalDigit ∧ escape.text.length < 3
  | plain _ | self _ _ => False

/-- The bytes of the piece, less the backslash of an escape, are the character that is meant. -/
def Faithful (triple : Bool) : Piece → Prop
  | plain c => IsAscii c
  | self _ _ => triple = false
  | control _ => False

/-- The next piece does not continue an octal escape. -/
def Separate (p q : Piece) : Prop := p.IsShortOctal → ∀ c, q = plain c → isOctalDigit c = false

end Piece

/-- The quotes of a literal. -/
inductive Quote where
  | single
  | double

def Quote.char : Quote → Char
  | single => '\''
  | double => '"'

/-- No plain quote starts a closing triple quote before the end. -/
def NoEarlyClose (q : Char) : List Piece → Prop
  | [] => True
  | piece :: pieces =>
    (piece = .plain q →
        (pieces ++ List.replicate 3 (Piece.plain q)).take 2 ≠
          List.replicate 2 (Piece.plain q)) ∧
      NoEarlyClose q pieces

/-- A string literal.  A plain carriage return is read as a line break by the languages. -/
structure Literal where
  quote : Quote
  triple : Bool
  pieces : List Piece
  plain_ne : ∀ c, Piece.plain c ∈ pieces → c ≠ '\\' ∧ c ≠ '\r'
  separate : pieces.IsChain Piece.Separate
  closes : if triple then NoEarlyClose quote.char pieces else Piece.plain quote.char ∉ pieces

namespace Literal

variable (lit : Literal)

def quotes : List Char := List.replicate (if lit.triple then 3 else 1) lit.quote.char

def text : List Char := lit.quotes ++ lit.pieces.flatMap Piece.source ++ lit.quotes

/-- The string that the literal stands for. -/
def value : String := String.ofList (lit.pieces.map Piece.value)

/-- All of the literal is ASCII, and its escapes stand for the character behind the backslash,
which a triple-quoted literal has none of. -/
def AsWritten : Prop := ∀ piece ∈ lit.pieces, piece.Faithful lit.triple

end Literal

/-! ## What the parser reads -/

/-- The characters that the parser reads for a piece. -/
def Piece.read (triple : Bool) : Piece → List Char
  | .plain c => (String.utf8EncodeChar c).map charFrom
  | .self c _ => if triple then ['\\', c] else [c]
  | .control escape => if triple then '\\' :: escape.text else escape.text

/-- No quote, no backslash and nothing beyond ASCII. -/
def IsSafe (c : Char) : Prop := IsAscii c ∧ ¬ IsSelfEscape c

theorem isSafe_of_isHexDigit (h : isHexDigit c = true) : IsSafe c := by
  constructor
  · simp only [isHexDigit, Char.isDigit, Bool.or_eq_true, Bool.and_eq_true, decide_eq_true_eq,
      ge_iff_le, Char.le_def, UInt32.le_iff_toNat_le] at h
    simp only [IsAscii, Char.toNat]
    have h9 : '9'.val.toNat = 57 := rfl
    have hf : 'f'.val.toNat = 102 := rfl
    have hF : 'F'.val.toNat = 70 := rfl
    omega
  · rintro (rfl | rfl | rfl)
    · exact absurd h (by decide)
    · exact absurd h (by decide)
    · exact absurd h (by decide)

theorem isHexDigit_of_isOctalDigit (h : isOctalDigit c = true) : isHexDigit c = true := by
  simp only [isOctalDigit, Bool.and_eq_true, decide_eq_true_eq, Char.le_def,
    UInt32.le_iff_toNat_le] at h
  simp only [isHexDigit, Char.isDigit, Bool.or_eq_true, Bool.and_eq_true, decide_eq_true_eq,
    ge_iff_le, UInt32.le_iff_toNat_le]
  have h0 : '0'.val.toNat = 48 := rfl
  have h7 : '7'.val.toNat = 55 := rfl
  have h9 : '9'.val.toNat = 57 := rfl
  omega

namespace Denotes

variable {text : List Char} {value : Char}

theorem isSafe (h : Denotes text value) : ∀ c ∈ text, IsSafe c := by
  intro c hc
  cases h with
  | letter hl =>
    rename_i l
    obtain rfl := List.mem_singleton.1 hc
    simp only [letterEscapes, List.mem_cons, Prod.mk.injEq, List.not_mem_nil, or_false] at hl
    rcases hl with ⟨rfl, -⟩ | ⟨rfl, -⟩ | ⟨rfl, -⟩ | ⟨rfl, -⟩ | ⟨rfl, -⟩ | ⟨rfl, -⟩ | ⟨rfl, -⟩ <;>
      exact ⟨by decide, by rintro (h | h | h) <;> cases h⟩
  | hex hcontrol hform hdigits hvalue =>
    rename_i form digits
    rcases List.mem_cons.1 hc with rfl | hc
    · simp only [List.mem_cons, Prod.mk.injEq, List.not_mem_nil, or_false] at hform
      rcases hform with ⟨rfl, -⟩ | ⟨rfl, -⟩ | ⟨rfl, -⟩ <;>
        exact ⟨by decide, by rintro (h | h | h) <;> cases h⟩
    · exact isSafe_of_isHexDigit (List.all_eq_true.1 hdigits c hc)
  | octal hcontrol hne hlength hdigits hvalue =>
    exact isSafe_of_isHexDigit (isHexDigit_of_isOctalDigit (List.all_eq_true.1 hdigits c hc))

theorem ne_nil (h : Denotes text value) : text ≠ [] := by
  cases h with
  | letter hl => simp
  | hex hcontrol hform hdigits hvalue => simp
  | octal hcontrol hne hlength hdigits hvalue => exact hne

/-- The character behind the backslash is never the one that is meant. -/
theorem ne_singleton (h : Denotes text value) : text ≠ [value] := by
  intro heq
  cases h with
  | letter hl =>
    cases heq
    simp only [letterEscapes, List.mem_cons, Prod.mk.injEq, List.not_mem_nil, or_false] at hl
    rcases hl with ⟨rfl, h⟩ | ⟨rfl, h⟩ | ⟨rfl, h⟩ | ⟨rfl, h⟩ | ⟨rfl, h⟩ | ⟨rfl, h⟩ | ⟨rfl, h⟩ <;>
      exact absurd h (by decide)
  | hex hcontrol hform hdigits hvalue =>
    cases heq
    simp at hform
  | octal hcontrol hne hlength hdigits hvalue =>
    subst heq
    have hdigit : isOctalDigit value = true := List.all_eq_true.1 hdigits value (by simp)
    simp only [isOctalDigit, Bool.and_eq_true, decide_eq_true_eq, Char.le_def,
      UInt32.le_iff_toNat_le] at hdigit
    have h0 : '0'.val.toNat = 48 := rfl
    have h7 : '7'.val.toNat = 55 := rfl
    simp only [Char.toNat] at hcontrol
    omega

end Denotes

/-! ## Bytes of pieces -/

@[simp] theorem bytes_append (s t : List Char) : bytes (s ++ t) = bytes s ++ bytes t :=
  List.flatMap_append

@[simp] theorem bytes_nil : bytes [] = [] := rfl

theorem bytes_cons (c : Char) (s : List Char) :
    bytes (c :: s) = String.utf8EncodeChar c ++ bytes s := rfl

theorem bytes_cons_of_isAscii (h : IsAscii c) (s : List Char) :
    bytes (c :: s) = c.toUInt8 :: bytes s := by
  rw [bytes_cons, Library.utf8EncodeChar_eq_singleton h]
  rfl

theorem charFrom_toUInt8 (h : IsAscii c) : charFrom c.toUInt8 = c := by
  have hlt : c.toNat < 256 := Nat.lt_trans h (by decide)
  rw [charFrom, Char.toUInt8, UInt32.toNat_toUInt8]
  change Char.ofNat (c.toNat % 2 ^ 8) = c
  rw [Nat.mod_eq_of_lt hlt, Char.ofNat_toNat]

theorem toUInt8_inj (hc : IsAscii c) (hd : IsAscii d) (h : c.toUInt8 = d.toUInt8) : c = d := by
  rw [← charFrom_toUInt8 hc, h, charFrom_toUInt8 hd]

theorem Quote.isAscii (q : Quote) : IsAscii q.char := by
  cases q <;> decide

theorem ne_of_mem_utf8EncodeChar (hd : IsAscii d) (hne : c ≠ d) {b : UInt8}
    (hb : b ∈ String.utf8EncodeChar c) : b ≠ d.toUInt8 := by
  by_cases hc : IsAscii c
  · rw [Library.utf8EncodeChar_eq_singleton hc, List.mem_singleton] at hb
    rintro rfl
    exact hne (toUInt8_inj hc hd hb.symm)
  · have hle := Library.le_toNat_of_mem_utf8EncodeChar hc hb
    rintro rfl
    rw [Char.toUInt8, UInt32.toNat_toUInt8] at hle
    have hlt : c.toNat < 128 → False := hc
    have hmod : d.val.toNat % 2 ^ 8 ≤ d.val.toNat := Nat.mod_le _ _
    have hd' : d.val.toNat < 128 := hd
    omega

theorem map_charFrom_bytes (h : ∀ c ∈ s, IsAscii c) : (bytes s).map charFrom = s := by
  induction s with
  | nil => rfl
  | cons c s ih =>
    have hc := h c List.mem_cons_self
    rw [bytes_cons_of_isAscii hc, List.map_cons, charFrom_toUInt8 hc,
      ih fun d hd => h d (List.mem_cons_of_mem _ hd)]

theorem ne_of_mem_bytes (hd : IsAscii d) (h : d ∉ s) {b : UInt8} (hb : b ∈ bytes s) :
    b ≠ d.toUInt8 := by
  obtain ⟨c, hc, hb⟩ := List.mem_flatMap.1 hb
  exact ne_of_mem_utf8EncodeChar hd (fun heq => h (heq ▸ hc)) hb

/-! ## The loop over a literal -/

section Loop

open PhloTransform.Dbt.PyLit.Parser

variable {q : Quote} {rest : Bytes}
variable {pieces : List Piece}
variable {quote : UInt8} {triple : Bool} {front : Bytes}

/-- Characters in front of what is read after them. -/
def prepend (front : List Char) (read : Except LitError (List Char × Bytes)) :
    Except LitError (List Char × Bytes) :=
  read.map fun (out, rest) => (front ++ out, rest)

theorem push_prepend (c : Char) (front : List Char) (read : Except LitError (List Char × Bytes)) :
    push c (prepend front read) = prepend (c :: front) read := by
  cases read with
  | error e => rfl
  | ok pair => rfl

theorem stringBody_plain {b : UInt8} (hquote : b ≠ quote)
    (hescape : triple = false → b ≠ '\\'.toUInt8) :
    stringBody quote triple (b :: rest) = push (charFrom b) (stringBody quote triple rest) := by
  have hb : ¬ (!triple && b == '\\'.toUInt8) = true := by
    simpa using hescape
  rw [stringBody.eq_def]
  dsimp only
  rw [if_neg hb, if_neg hquote]

theorem stringBody_close (hquote : quote ≠ '\\'.toUInt8) :
    stringBody quote false (quote :: rest) = .ok ([], rest) := by
  have hb : ¬ (!false && quote == '\\'.toUInt8) = true := by
    simpa using hquote
  rw [stringBody.eq_def]
  dsimp only
  rw [if_neg hb, if_pos rfl]
  rfl

theorem stringBody_triple (quote : UInt8) :
    stringBody quote true (quote :: rest) =
      if rest.take 2 = [quote, quote] then .ok ([], rest.drop 2)
      else push (charFrom quote) (stringBody quote true rest) := by
  rw [stringBody.eq_def]
  dsimp only
  rw [if_neg (by simp), if_pos rfl, if_pos rfl]

/-- Bytes that are neither the quote nor, outside of triple quotes, a backslash are kept. -/
theorem stringBody_append (hquote : ∀ b ∈ front, b ≠ quote)
    (hescape : triple = false → ∀ b ∈ front, b ≠ '\\'.toUInt8) :
    stringBody quote triple (front ++ rest) =
      prepend (front.map charFrom) (stringBody quote triple rest) := by
  induction front with
  | nil =>
    cases h : stringBody quote triple rest with
    | error e => simp [prepend, Except.map, h]
    | ok pair => simp [prepend, Except.map, h]
  | cons b front ih =>
    rw [List.cons_append, stringBody_plain (hquote b List.mem_cons_self)
        (fun h => hescape h b List.mem_cons_self),
      ih (fun b hb => hquote b (List.mem_cons_of_mem _ hb))
        (fun h b hb => hescape h b (List.mem_cons_of_mem _ hb)), push_prepend, List.map_cons]

theorem quote_ne_backslash (q : Quote) : q.char.toUInt8 ≠ '\\'.toUInt8 := by
  cases q <;> decide

theorem stringBody_escape (quote : UInt8) (b : UInt8) :
    stringBody quote false ('\\'.toUInt8 :: b :: rest) =
      push (charFrom b) (stringBody quote false rest) := by
  rw [stringBody, if_pos (by decide)]

theorem isSelfEscape_quote (q : Quote) : IsSelfEscape q.char := by
  cases q
  · exact .inl rfl
  · exact .inr (.inl rfl)

theorem isAscii_of_isSelfEscape {c : Char} (h : IsSelfEscape c) : IsAscii c := by
  rcases h with rfl | rfl | rfl <;> decide

theorem not_mem_of_isSafe {s : List Char} (h : ∀ c ∈ s, IsSafe c) {d : Char}
    (hd : IsSelfEscape d) : d ∉ s := fun hmem => (h d hmem).2 hd

/-- Between single quotes the parser reads each piece to the closing quote. -/
theorem stringBody_single (hplain : ∀ c, Piece.plain c ∈ pieces → c ≠ '\\')
    (hquote : Piece.plain q.char ∉ pieces) :
    stringBody q.char.toUInt8 false
        (bytes (pieces.flatMap Piece.source) ++ q.char.toUInt8 :: rest) =
      .ok (pieces.flatMap (Piece.read false), rest) := by
  induction pieces with
  | nil =>
    simp only [List.flatMap_nil, bytes_nil, List.nil_append]
    exact stringBody_close (quote_ne_backslash q)
  | cons piece pieces ih =>
    have ih := ih (fun c hc => hplain c (List.mem_cons_of_mem _ hc))
      (fun hc => hquote (List.mem_cons_of_mem _ hc))
    rw [List.flatMap_cons, bytes_append, List.append_assoc, List.flatMap_cons]
    cases piece with
    | plain c =>
      have hne : c ≠ q.char := by
        rintro rfl
        exact hquote List.mem_cons_self
      have hbytes : bytes (Piece.source (.plain c)) = String.utf8EncodeChar c :=
        List.append_nil _
      rw [hbytes, stringBody_append
        (fun b hb => ne_of_mem_utf8EncodeChar q.isAscii hne hb)
        (fun _ b hb => ne_of_mem_utf8EncodeChar (by decide) (hplain c List.mem_cons_self) hb), ih]
      rfl
    | self c hc =>
      have hascii := isAscii_of_isSelfEscape hc
      rw [Piece.source, bytes_cons_of_isAscii (by decide), bytes_cons_of_isAscii hascii, bytes_nil,
        List.cons_append, List.cons_append, List.nil_append, stringBody_escape, ih,
        charFrom_toUInt8 hascii]
      rfl
    | control escape =>
      have hsafe := escape.denotes.isSafe
      obtain ⟨c, tail, htext⟩ := List.exists_cons_of_ne_nil escape.denotes.ne_nil
      rw [htext] at hsafe
      have hc := hsafe c List.mem_cons_self
      have htail : ∀ d ∈ tail, IsSafe d := fun d hd => hsafe d (List.mem_cons_of_mem _ hd)
      rw [Piece.source, htext, bytes_cons_of_isAscii (by decide), bytes_cons_of_isAscii hc.1,
        List.cons_append, List.cons_append, stringBody_escape,
        stringBody_append (fun b hb => ne_of_mem_bytes q.isAscii
          (not_mem_of_isSafe htail (isSelfEscape_quote q)) hb)
          (fun _ b hb => ne_of_mem_bytes (by decide)
            (not_mem_of_isSafe htail (.inr (.inr rfl))) hb), ih, push_prepend,
        map_charFrom_bytes fun d hd => (htail d hd).1, charFrom_toUInt8 hc.1]
      simp [prepend, Except.map, Piece.read, htext]

theorem charFrom_injective : Function.Injective charFrom := by
  intro a b h
  have hvalid (n : UInt8) : (charFrom n).toNat = n.toNat := by
    have hlt := n.toNat_lt
    have h : n.toNat.isValidChar := Or.inl (by omega)
    rw [charFrom, Char.ofNat, dif_pos h]
    rfl
  apply UInt8.toNat_inj.1
  rw [← hvalid a, ← hvalid b, h]

theorem count_map_charFrom (h : ∀ b ∈ front, b ≠ q.char.toUInt8) :
    (front.map charFrom).count q.char = 0 := by
  rw [List.count_eq_zero]
  intro hmem
  obtain ⟨b, hb, heq⟩ := List.mem_map.1 hmem
  rw [← charFrom_toUInt8 q.isAscii] at heq
  exact h b hb (charFrom_injective heq)

/-- A piece that starts with the quote is the plain quote. -/
theorem Piece.exists_bytes_source (piece : Piece) :
    ∃ b tail, bytes piece.source = b :: tail ∧
      (b = q.char.toUInt8 → piece = .plain q.char ∧ tail = []) := by
  cases piece with
  | plain c =>
    obtain ⟨b, tail, htext⟩ := List.exists_cons_of_ne_nil (Library.utf8EncodeChar_ne_nil c)
    refine ⟨b, tail, ?_, ?_⟩
    · rw [Piece.source, bytes_cons, bytes_nil, List.append_nil, htext]
    · intro hb
      have hc : c = q.char := by
        by_contra hne
        exact ne_of_mem_utf8EncodeChar q.isAscii hne (htext ▸ List.mem_cons_self) hb
      subst hc
      rw [Library.utf8EncodeChar_eq_singleton q.isAscii] at htext
      exact ⟨rfl, (List.cons.inj htext).2.symm⟩
  | self c hc =>
    exact ⟨'\\'.toUInt8, bytes [c], bytes_cons_of_isAscii (by decide) _,
      fun h => absurd h.symm (quote_ne_backslash q)⟩
  | control escape =>
    exact ⟨'\\'.toUInt8, bytes escape.text, bytes_cons_of_isAscii (by decide) _,
      fun h => absurd h.symm (quote_ne_backslash q)⟩

/-- A plain quote that does not close the literal is not followed by two quotes. -/
theorem take_two_ne (h : (pieces ++ List.replicate 3 (Piece.plain q.char)).take 2 ≠
      List.replicate 2 (Piece.plain q.char)) :
    (bytes (pieces.flatMap Piece.source) ++
      (List.replicate 3 q.char.toUInt8 ++ rest)).take 2 ≠ [q.char.toUInt8, q.char.toUInt8] := by
  intro htake
  apply h
  cases pieces with
  | nil => rfl
  | cons first pieces =>
    obtain ⟨b, tail, hfirst, hb⟩ := first.exists_bytes_source (q := q)
    rw [List.flatMap_cons, bytes_append, hfirst, List.cons_append, List.cons_append,
      List.take_succ_cons, List.cons.injEq] at htake
    obtain ⟨rfl, rfl⟩ := hb htake.1
    cases pieces with
    | nil => rfl
    | cons second pieces =>
      obtain ⟨b, tail, hsecond, hb⟩ := second.exists_bytes_source (q := q)
      have htake := htake.2
      rw [List.nil_append, List.flatMap_cons, bytes_append, hsecond, List.cons_append,
        List.cons_append, List.take_succ_cons, List.cons.injEq] at htake
      obtain ⟨rfl, -⟩ := hb htake.1
      rfl

/-- Between triple quotes the parser reads each piece to the closing quotes, or stops at the
quote of an escape; it has then read too few quotes. -/
theorem stringBody_pieces (hclose : NoEarlyClose q.char pieces) (rest : Bytes) :
    ∃ out left,
      stringBody q.char.toUInt8 true (bytes (pieces.flatMap Piece.source) ++
        (List.replicate 3 q.char.toUInt8 ++ rest)) = .ok (out, left) ∧
      (out = pieces.flatMap (Piece.read true) ∧ left = rest ∨
        (∃ piece ∈ pieces, ¬ piece.Faithful true) ∧
          out.count q.char < (pieces.map Piece.value).count q.char) := by
  induction pieces with
  | nil =>
    refine ⟨[], rest, ?_, .inl ⟨rfl, rfl⟩⟩
    exact (stringBody_triple _).trans (if_pos rfl)
  | cons piece pieces ih =>
    obtain ⟨hpiece, hclose⟩ := hclose
    obtain ⟨out, left, hread, h⟩ := ih hclose
    -- Bytes without a quote are kept, and what follows decides.
    have hkeep : ∀ front : Bytes, (∀ b ∈ front, b ≠ q.char.toUInt8) → bytes piece.source = front →
        front.map charFrom = piece.read true →
        ∃ out left,
          stringBody q.char.toUInt8 true (bytes ((piece :: pieces).flatMap Piece.source) ++
            (List.replicate 3 q.char.toUInt8 ++ rest)) = .ok (out, left) ∧
          (out = (piece :: pieces).flatMap (Piece.read true) ∧ left = rest ∨
            (∃ p ∈ piece :: pieces, ¬ p.Faithful true) ∧
              out.count q.char < ((piece :: pieces).map Piece.value).count q.char) := by
      intro front hfront hbytes hmap
      refine ⟨piece.read true ++ out, left, ?_, ?_⟩
      · rw [List.flatMap_cons, bytes_append, List.append_assoc, hbytes,
          stringBody_append hfront (by simp), hread, hmap]
        rfl
      · rcases h with ⟨hout, hleft⟩ | ⟨⟨p, hp, hfaithful⟩, hcount⟩
        · exact .inl ⟨by rw [List.flatMap_cons, hout], hleft⟩
        · refine .inr ⟨⟨p, List.mem_cons_of_mem _ hp, hfaithful⟩, ?_⟩
          rw [List.count_append, ← hmap, count_map_charFrom hfront, List.map_cons, Nat.zero_add]
          exact Nat.lt_of_lt_of_le hcount List.count_le_count_cons
    cases piece with
    | plain c =>
      have hbytes : bytes (Piece.source (.plain c)) = String.utf8EncodeChar c :=
        List.append_nil _
      by_cases hc : c = q.char
      · subst hc
        refine ⟨q.char :: out, left, ?_, ?_⟩
        · rw [List.flatMap_cons, bytes_append, List.append_assoc, hbytes,
            Library.utf8EncodeChar_eq_singleton q.isAscii, List.cons_append, List.nil_append,
            stringBody_triple, if_neg (take_two_ne (hpiece rfl)), hread,
            charFrom_toUInt8 q.isAscii]
          rfl
        · rcases h with ⟨hout, hleft⟩ | ⟨⟨p, hp, hfaithful⟩, hcount⟩
          · refine .inl ⟨?_, hleft⟩
            rw [List.flatMap_cons, hout, Piece.read,
              Library.utf8EncodeChar_eq_singleton q.isAscii, List.map_singleton,
              charFrom_toUInt8 q.isAscii]
            rfl
          · refine .inr ⟨⟨p, List.mem_cons_of_mem _ hp, hfaithful⟩, ?_⟩
            rw [List.map_cons, Piece.value, List.count_cons_self, List.count_cons_self]
            exact Nat.succ_lt_succ hcount
      · exact hkeep _ (fun b hb => ne_of_mem_utf8EncodeChar q.isAscii hc hb) hbytes rfl
    | self c hc =>
      have hascii := isAscii_of_isSelfEscape hc
      have hbytes : bytes (Piece.source (.self c hc)) = ['\\'.toUInt8, c.toUInt8] := by
        rw [Piece.source, bytes_cons_of_isAscii (by decide), bytes_cons_of_isAscii hascii,
          bytes_nil]
      by_cases hquote : c = q.char
      · subst hquote
        have hstep (tail : Bytes) : stringBody q.char.toUInt8 true
            (['\\'.toUInt8, q.char.toUInt8] ++ tail) =
              push '\\' (if tail.take 2 = [q.char.toUInt8, q.char.toUInt8]
                then .ok ([], tail.drop 2)
                else push q.char (stringBody q.char.toUInt8 true tail)) := by
          rw [List.cons_append, stringBody_plain (quote_ne_backslash q).symm (by simp),
            List.cons_append, List.nil_append, stringBody_triple, charFrom_toUInt8 q.isAscii]
          rfl
        rw [List.flatMap_cons, bytes_append, List.append_assoc, hbytes, hstep]
        split
        · -- The quote of the escape closes the string for the parser.
          refine ⟨['\\'], _, rfl, .inr ⟨⟨_, List.mem_cons_self, by simp [Piece.Faithful]⟩, ?_⟩⟩
          rw [List.map_cons, Piece.value, List.count_cons_self, List.count_singleton, if_neg]
          · exact Nat.succ_pos _
          · cases q <;> decide
        · refine ⟨'\\' :: q.char :: out, left, by rw [hread]; rfl, ?_⟩
          rcases h with ⟨hout, hleft⟩ | ⟨⟨p, hp, hfaithful⟩, hcount⟩
          · exact .inl ⟨by rw [List.flatMap_cons, hout]; rfl, hleft⟩
          · refine .inr ⟨⟨p, List.mem_cons_of_mem _ hp, hfaithful⟩, ?_⟩
            rw [List.map_cons, Piece.value, List.count_cons_self, List.count_cons_of_ne,
              List.count_cons_self]
            · exact Nat.succ_lt_succ hcount
            · cases q <;> decide
      · refine hkeep _ ?_ hbytes ?_
        · intro b hb
          simp only [List.mem_cons, List.not_mem_nil, or_false] at hb
          rcases hb with rfl | rfl
          · exact (quote_ne_backslash q).symm
          · exact fun heq => hquote (toUInt8_inj hascii q.isAscii heq)
        · rw [List.map_cons, List.map_cons, charFrom_toUInt8 hascii]
          rfl
    | control escape =>
      have hsafe := escape.denotes.isSafe
      refine hkeep ('\\'.toUInt8 :: bytes escape.text) ?_
        (bytes_cons_of_isAscii (by decide) _) ?_
      · intro b hb
        rcases List.mem_cons.1 hb with rfl | hb
        · exact (quote_ne_backslash q).symm
        · exact ne_of_mem_bytes q.isAscii (not_mem_of_isSafe hsafe (isSelfEscape_quote q)) hb
      · rw [List.map_cons, map_charFrom_bytes fun c hc => (hsafe c hc).1]
        rfl

end Loop

/-! ## Literals that are read back -/

namespace Piece

theorem one_le_length_read (triple : Bool) (piece : Piece) : 1 ≤ (piece.read triple).length := by
  cases piece with
  | plain c =>
    rw [read, List.length_map]
    exact List.length_pos_iff.2 (Library.utf8EncodeChar_ne_nil c)
  | self c hc => cases triple <;> simp [read]
  | control escape =>
    have hpos := List.length_pos_iff.2 escape.denotes.ne_nil
    cases triple
    · exact hpos
    · exact Nat.succ_pos _

theorem read_eq_iff (triple : Bool) (piece : Piece) :
    piece.read triple = [piece.value] ↔ piece.Faithful triple := by
  cases piece with
  | plain c =>
    constructor
    · intro h
      by_contra hc
      have hlength := congrArg List.length h
      rw [read, List.length_map, List.length_singleton] at hlength
      have hle := Library.two_le_length_utf8EncodeChar hc
      omega
    · intro hc
      rw [read, Library.utf8EncodeChar_eq_singleton hc, List.map_singleton, charFrom_toUInt8 hc,
        value]
  | self c hc => cases triple <;> simp [read, value, Faithful]
  | control escape =>
    have hne := escape.denotes.ne_singleton
    cases triple
    · simpa [read, value, Faithful] using hne
    · simp [read, value, Faithful, escape.denotes.ne_nil]

/-- Pieces are read as the string they write exactly if all of them are faithful. -/
theorem flatMap_read_eq_iff {triple : Bool} {pieces : List Piece} :
    pieces.flatMap (read triple) = pieces.map value ↔ ∀ piece ∈ pieces, piece.Faithful triple := by
  induction pieces with
  | nil => simp
  | cons piece pieces ih =>
    have hlength : pieces.length ≤ (pieces.flatMap (read triple)).length := by
      rw [List.length_flatMap]
      have hsum := List.length_le_sum_of_one_le (pieces.map fun p => (p.read triple).length) (by
        simpa using fun p hp => one_le_length_read triple p)
      rwa [List.length_map] at hsum
    rw [List.flatMap_cons, List.map_cons, List.forall_mem_cons, ← ih, ← read_eq_iff]
    constructor
    · intro h
      have hfirst : (piece.read triple).length = 1 := by
        have htotal := congrArg List.length h
        rw [List.length_append, List.length_cons, List.length_map] at htotal
        have hpos := one_le_length_read triple piece
        omega
      obtain ⟨c, hc⟩ := List.length_eq_one_iff.1 hfirst
      rw [hc, List.cons_append, List.nil_append, List.cons.injEq] at h
      exact ⟨by rw [hc, h.1], h.2⟩
    · rintro ⟨hfirst, hrest⟩
      rw [hfirst, hrest]
      rfl

end Piece

namespace Literal

variable (lit : Literal) {rest left : Bytes}

def mark : UInt8 := lit.quote.char.toUInt8

/-- What follows the first quote of the literal. -/
def body : List Char :=
  List.replicate (if lit.triple then 2 else 0) lit.quote.char ++ lit.pieces.flatMap Piece.source ++
    lit.quotes

theorem bytes_text : bytes lit.text = lit.mark :: bytes lit.body := by
  have hascii := lit.quote.isAscii
  rw [text, body, quotes, mark]
  cases lit.triple with
  | false => exact bytes_cons_of_isAscii hascii _
  | true => exact bytes_cons_of_isAscii hascii _

theorem bytes_replicate (n : Nat) :
    bytes (List.replicate n lit.quote.char) = List.replicate n lit.mark := by
  induction n with
  | zero => rfl
  | succ n ih =>
    rw [List.replicate_succ, bytes_cons_of_isAscii lit.quote.isAscii, ih]
    rfl

/-- The literal is not continued by another quote. -/
def Ends (rest : Bytes) : Prop := rest.head? ≠ some lit.mark

theorem parseString_single (hsingle : lit.triple = false) (hends : lit.Ends rest) :
    Parser.parseString lit.mark (bytes lit.body ++ rest) =
      .ok (.str (String.ofList (lit.pieces.flatMap (Piece.read false))), rest) := by
  have hclose := lit.closes
  rw [hsingle, if_neg (by simp)] at hclose
  have hbody : bytes lit.body ++ rest =
      bytes (lit.pieces.flatMap Piece.source) ++ lit.mark :: rest := by
    simp [body, quotes, hsingle, bytes_cons_of_isAscii lit.quote.isAscii, mark]
  have htriple : ¬ (bytes lit.body ++ rest).take 2 = [lit.mark, lit.mark] := by
    rw [hbody]
    cases hpieces : lit.pieces with
    | nil =>
      cases rest with
      | nil => simp
      | cons b rest => simpa [Ends] using hends
    | cons piece pieces =>
      obtain ⟨b, tail, hfirst, hb⟩ := piece.exists_bytes_source (q := lit.quote)
      rw [List.flatMap_cons, bytes_append, hfirst, List.cons_append, List.cons_append,
        List.take_succ_cons]
      intro h
      obtain ⟨rfl, -⟩ := hb (List.cons.inj h).1
      exact hclose (hpieces ▸ List.mem_cons_self)
  unfold Parser.parseString
  dsimp only
  rw [if_neg (by simpa using htriple), decide_eq_false htriple, hbody, mark,
    stringBody_single (fun c hc => (lit.plain_ne c hc).1) hclose]
  rfl

/-- Between triple quotes a literal is read to its end, or the string is another. -/
theorem parseString_triple (htriple : lit.triple = true) (rest : Bytes) :
    ∃ out left, Parser.parseString lit.mark (bytes lit.body ++ rest) =
        .ok (.str (String.ofList out), left) ∧
      (out = lit.pieces.flatMap (Piece.read true) ∧ left = rest ∨
        ¬ lit.AsWritten ∧ out ≠ lit.pieces.map Piece.value) := by
  have hclose := lit.closes
  rw [htriple, if_pos rfl] at hclose
  have hbody : bytes lit.body ++ rest = lit.mark :: lit.mark ::
      (bytes (lit.pieces.flatMap Piece.source) ++ (List.replicate 3 lit.mark ++ rest)) := by
    rw [body, quotes, htriple, if_pos rfl, if_pos rfl, bytes_append, bytes_append,
      bytes_replicate, bytes_replicate, List.append_assoc, List.append_assoc]
    rfl
  obtain ⟨out, left, hread, h⟩ := stringBody_pieces hclose rest
  refine ⟨out, left, ?_, ?_⟩
  · unfold Parser.parseString
    dsimp only
    rw [hbody, if_pos (by simp), decide_eq_true (by simp)]
    change Except.map _ (Parser.stringBody lit.mark true (bytes _ ++ (List.replicate 3 lit.mark ++
      rest))) = _
    rw [mark, hread]
    rfl
  · rcases h with h | ⟨⟨piece, hpiece, hfaithful⟩, hcount⟩
    · exact .inl h
    · refine .inr ⟨fun h => hfaithful (htriple ▸ h piece hpiece), ?_⟩
      rintro rfl
      exact Nat.lt_irrefl _ hcount

/-- A literal is read back, up to its closing quote, exactly if it is as written. -/
theorem parseString_iff (hends : lit.Ends rest) :
    Parser.parseString lit.mark (bytes lit.body ++ rest) = .ok (.str lit.value, left) ↔
      lit.AsWritten ∧ left = rest := by
  have hwritten : lit.pieces.flatMap (Piece.read lit.triple) = lit.pieces.map Piece.value ↔
      lit.AsWritten := Piece.flatMap_read_eq_iff
  have hread : ∀ (out : List Char) (after : Bytes),
      (Except.ok (Lit.str (String.ofList out), after) : Except LitError (Lit × Bytes)) =
          .ok (.str lit.value, left) ↔ out = lit.pieces.map Piece.value ∧ left = after := by
    intro out after
    simp only [Except.ok.injEq, Prod.mk.injEq, Lit.str.injEq, value,
      String.ofList_inj, eq_comm]
  cases htriple : lit.triple with
  | false =>
    rw [lit.parseString_single htriple hends, hread, ← hwritten, htriple]
  | true =>
    obtain ⟨out, after, hstring, hout⟩ := lit.parseString_triple htriple rest
    rw [hstring, hread, ← hwritten, htriple]
    rcases hout with ⟨rfl, rfl⟩ | ⟨hnot, hne⟩
    · rfl
    · rw [← hwritten, htriple] at hnot
      exact iff_of_false (fun h => hne h.1) fun h => hnot h.1

end Literal

end PhloTransform.Dbt.PyLit
