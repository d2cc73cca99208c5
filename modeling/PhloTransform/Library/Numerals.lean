import Mathlib.Algebra.Field.Rat
import Mathlib.Algebra.Order.Ring.Rat
import Mathlib.Data.List.TakeWhile
import Mathlib.Tactic.Common

/-!
# Numbers as text

A number is written with digits, perhaps a point, and perhaps an exponent of ten; a sign may
stand before it.

Main results:

- Theorem `parse_of_wholeNumber`: a run of digits is the number without point and exponent.
- Theorem `parse_of_integer`: an integer is the number that the same text writes.
-/

namespace PhloTransform.Library

def digitsValue (digits : List Char) : Nat :=
  digits.foldl (fun n c => 10 * n + (c.toNat - '0'.toNat)) 0

/-- An optional sign, and the text after it. -/
def signed : List Char → Bool × List Char
  | '-' :: rest => (true, rest)
  | '+' :: rest => (false, rest)
  | text => (false, text)

/-- At least one digit, and nothing else. -/
def wholeNumber (text : List Char) : Option Nat :=
  if text ≠ [] ∧ text.all Char.isDigit then some (digitsValue text) else none

/-- A whole number, perhaps with a sign. -/
def integer (text : List Char) : Option Int :=
  (wholeNumber (signed text).2).map fun (n : Nat) => if (signed text).1 then -(n : Int) else n

/-- A number without sign: the digits before the point, those after it, and the exponent. -/
structure Numeral where
  whole : List Char
  fraction : Option (List Char)
  exponent : Option Int
deriving DecidableEq

namespace Numeral

variable {text : List Char}

def value (n : Numeral) : ℚ :=
  digitsValue (n.whole ++ n.fraction.getD []) *
    10 ^ (n.exponent.getD 0 - (n.fraction.getD []).length)

def signedValue (negative : Bool) (n : Numeral) : ℚ :=
  if negative then -n.value else n.value

/-- What may follow the digits: nothing, or the letter `e` and an integer. -/
def closed (whole : List Char) (fraction : Option (List Char)) : List Char → Option Numeral
  | [] => some ⟨whole, fraction, none⟩
  | c :: rest =>
    if c = 'e' ∨ c = 'E' then (integer rest).map fun x => ⟨whole, fraction, some x⟩ else none

/-- Digits, perhaps a point before, among or after them, and perhaps an exponent. -/
def parse (text : List Char) : Option Numeral :=
  let whole := text.takeWhile Char.isDigit
  match text.dropWhile Char.isDigit with
  | '.' :: rest =>
    let fraction := rest.takeWhile Char.isDigit
    if whole = [] ∧ fraction = [] then none
    else closed whole (some fraction) (rest.dropWhile Char.isDigit)
  | rest => if whole = [] then none else closed whole none rest

/-- A run of digits is a number without a point and without an exponent. -/
theorem parse_of_wholeNumber {k : Nat} (h : wholeNumber text = some k) :
    parse text = some ⟨text, none, none⟩ ∧ (Numeral.mk text none none).value = k := by
  unfold wholeNumber at h
  split at h
  case isFalse => cases h
  case isTrue hdigits =>
      cases h
      have hall := List.all_eq_true.1 hdigits.2
      have htake : text.takeWhile Char.isDigit = text := List.takeWhile_eq_self_iff.2 hall
      have hdrop : text.dropWhile Char.isDigit = [] := List.dropWhile_eq_nil_iff.2 hall
      refine ⟨?_, by simp [value]⟩
      unfold parse
      rw [htake, hdrop]
      exact if_neg hdigits.1

theorem parse_of_integer {z : Int} (h : integer text = some z) :
    parse (signed text).2 = some ⟨(signed text).2, none, none⟩ ∧
      signedValue (signed text).1 ⟨(signed text).2, none, none⟩ = z := by
  obtain ⟨k, hk, rfl⟩ := Option.map_eq_some_iff.1 h
  obtain ⟨hparse, hvalue⟩ := parse_of_wholeNumber hk
  refine ⟨hparse, ?_⟩
  unfold signedValue
  rw [hvalue]
  split
  · rw [Int.cast_neg, Int.cast_natCast]
  · rw [Int.cast_natCast]

theorem parse_of_head {c : Char} (hdigit : c.isDigit = false) (hpoint : c ≠ '.') :
    parse (c :: text) = none := by
  unfold parse
  rw [List.takeWhile_cons_of_neg (by simp [hdigit]), List.dropWhile_cons_of_neg (by simp [hdigit])]
  split
  case h_1 heq =>
      injection heq with hhead
      exact absurd hhead hpoint
  case h_2 => exact if_pos rfl

end Numeral

/-- The number a text writes, with its sign. -/
def signedNumber (text : List Char) : Option ℚ :=
  (Numeral.parse (signed text).2).map (Numeral.signedValue (signed text).1)

end PhloTransform.Library
