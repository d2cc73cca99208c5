import Mathlib.Order.Compare
import Mathlib.Order.Defs.LinearOrder
import Mathlib.Data.String.Basic
import Mathlib.Tactic.Common

/-!
# Ordering timestamps

State rows carry RFC 3339 timestamps as text.  They are compared as instants
when both sides parse and as text otherwise.  The parser is a parameter.

Main results:

- Theorem `cmpRfc3339_swap`: the two directions of a comparison agree.
- Theorem `cmpRfc3339_of_parse`: timestamps that parse are ordered by instant.
-/

namespace PhloTransform.Engine

/-- `OffsetDateTime::parse(_, &Rfc3339)`: the instant a timestamp denotes, in
nanoseconds. -/
class Rfc3339 where
  parse : String → Option Int

section Comparison

variable [Rfc3339]
variable {a b : String}

/-- Order two timestamps chronologically, unparsable ones as text. -/
def cmpRfc3339 (a b : String) : Ordering :=
  match Rfc3339.parse a, Rfc3339.parse b with
  | some a, some b => compare a b
  | _, _ => compare a b

def IsTimestamp (value : String) : Prop :=
  ∃ instant, Rfc3339.parse value = some instant

/-- `cmp_rfc3339(a, b) >= 0`: the guard of every ordered upsert. -/
def notBefore (a b : String) : Bool :=
  cmpRfc3339 a b != .lt

theorem cmpRfc3339_of_parse {x y : Int} (ha : Rfc3339.parse a = some x)
    (hb : Rfc3339.parse b = some y) : cmpRfc3339 a b = compare x y := by
  simp [cmpRfc3339, ha, hb]

theorem cmpRfc3339_self (a : String) : cmpRfc3339 a a = .eq := by
  unfold cmpRfc3339
  split <;> simp_all

theorem cmpRfc3339_swap (a b : String) : (cmpRfc3339 a b).swap = cmpRfc3339 b a := by
  cases ha : Rfc3339.parse a <;> cases hb : Rfc3339.parse b <;>
    simp [cmpRfc3339, ha, hb, ← Std.OrientedOrd.eq_swap]

theorem notBefore_of_lt (h : cmpRfc3339 a b = .lt) : notBefore b a = true := by
  rw [notBefore, ← cmpRfc3339_swap, h]
  rfl

theorem notBefore_iff_of_parse {x y : Int} (ha : Rfc3339.parse a = some x)
    (hb : Rfc3339.parse b = some y) : notBefore a b = true ↔ y ≤ x := by
  rw [notBefore, cmpRfc3339_of_parse ha hb]
  simp [compare_lt_iff_lt]

end Comparison

/-- The parser on the first two midnights of 2026. -/
@[reducible]
def januaryClock : Rfc3339 where
  parse value :=
    if value = "2026-01-01T00:00:00.000000000Z" then some 1767225600000000000
    else if value = "2026-01-02T00:00:00.000000000Z" then some 1767312000000000000
    else none

/-- The parser on two instants of one second, written with fractions of different
width. -/
@[reducible]
def fractionClock : Rfc3339 where
  parse value :=
    if value = "2026-01-01T00:00:00.5Z" then some 1767225600500000000
    else if value = "2026-01-01T00:00:00.52Z" then some 1767225600520000000
    else none

end PhloTransform.Engine
