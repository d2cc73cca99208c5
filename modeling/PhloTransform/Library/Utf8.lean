import Mathlib.Data.Char

/-!
# ASCII in UTF-8

A character below 128 is one byte, and every other character is two bytes or more, all of them
128 or above.  A scanner that looks for an ASCII byte never stops inside a character.

Main results:

- Theorem `utf8EncodeChar_eq_singleton`: the byte of an ASCII character.
- Theorem `le_toNat_of_mem_utf8EncodeChar`, `two_le_length_utf8EncodeChar`: the bytes of the
  others.
-/

namespace PhloTransform.Library

variable {c : Char}

/-- The character is an ASCII character. -/
def IsAscii (c : Char) : Prop := c.toNat < 128

instance (c : Char) : Decidable (IsAscii c) := inferInstanceAs (Decidable (c.toNat < 128))

theorem utf8EncodeChar_eq_singleton (h : IsAscii c) : String.utf8EncodeChar c = [c.toUInt8] := by
  have hle : c.val.toNat ≤ 127 := Nat.le_of_lt_succ h
  unfold String.utf8EncodeChar
  rw [if_pos hle]
  rfl

/-- No byte of a character beyond ASCII is an ASCII byte. -/
theorem le_toNat_of_mem_utf8EncodeChar (h : ¬ IsAscii c) {b : UInt8}
    (hb : b ∈ String.utf8EncodeChar c) : 128 ≤ b.toNat := by
  have hlt : ¬ c.val.toNat ≤ 127 := fun hle => h (Nat.lt_succ_of_le hle)
  unfold String.utf8EncodeChar at hb
  rw [if_neg hlt] at hb
  split at hb
  · simp only [List.mem_cons, List.not_mem_nil, or_false] at hb
    rcases hb with rfl | rfl <;> simp only [UInt8.toNat_ofNat'] <;> omega
  · split at hb
    · simp only [List.mem_cons, List.not_mem_nil, or_false] at hb
      rcases hb with rfl | rfl | rfl <;> simp only [UInt8.toNat_ofNat'] <;> omega
    · simp only [List.mem_cons, List.not_mem_nil, or_false] at hb
      rcases hb with rfl | rfl | rfl | rfl <;> simp only [UInt8.toNat_ofNat'] <;> omega

theorem two_le_length_utf8EncodeChar (h : ¬ IsAscii c) : 2 ≤ (String.utf8EncodeChar c).length := by
  have hlt : ¬ c.val.toNat ≤ 127 := fun hle => h (Nat.lt_succ_of_le hle)
  unfold String.utf8EncodeChar
  rw [if_neg hlt]
  split
  · simp
  · split <;> simp

theorem utf8EncodeChar_ne_nil (c : Char) : String.utf8EncodeChar c ≠ [] := by
  intro h
  have hlength := congrArg List.length h
  rw [String.length_utf8EncodeChar] at hlength
  exact absurd hlength (Nat.pos_iff_ne_zero.1 c.utf8Size_pos)

end PhloTransform.Library
