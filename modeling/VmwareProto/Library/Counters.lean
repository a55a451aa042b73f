import Mathlib.Algebra.Group.Int.Defs
import Mathlib.Algebra.Group.Nat.Defs
import Mathlib.Tactic.Common
/-!
# Counters

A counter that is an `int` can count up to `INT_MAX`. One step further is an
overflow of a signed integer, which has no meaning in C: `none`.
-/

namespace VmwareProto

namespace Counter

/-- `INT_MAX`. -/
def intMax : ℤ := 2 ^ 31 - 1

/-- `n++` on an `int`. -/
def incr (n : ℤ) : Option ℤ := if n < intMax then some (n + 1) else none

variable {n m : ℤ} {k : ℕ}

theorem incr_of_lt (h : n < intMax) : incr n = some (n + 1) := if_pos h

theorem incr_eq_none (h : intMax ≤ n) : incr n = none := if_neg (by omega)

theorem incr_eq_some_iff : incr n = some m ↔ n < intMax ∧ n + 1 = m := by
  simp [incr]

/-- A number of things that an `int` can count, and one more of them. -/
theorem incr_natCast (h : k + 1 < 2 ^ 31) : incr k = some (k + 1 : ℕ) := by
  rw [incr_of_lt (by rw [intMax]; omega)]
  rfl

end Counter

end VmwareProto
