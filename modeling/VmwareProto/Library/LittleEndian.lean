import Mathlib.Algebra.Group.Nat.Defs
import Mathlib.Data.Nat.Notation
import Mathlib.Tactic.Common
/-!
# Little-endian words

Words of any number of bytes, least significant byte first, as an x86-64
structure lies in memory and therefore on the wire.
-/

namespace VmwareProto

abbrev Byte := BitVec 8

/-- The `n` low bytes of a number. -/
def leBytes : ℕ → ℕ → List Byte
  | 0, _ => []
  | n + 1, x => BitVec.ofNat 8 x :: leBytes n (x / 256)

/-- The number a byte string denotes. -/
def leValue : List Byte → ℕ
  | [] => 0
  | b :: bs => b.toNat + 256 * leValue bs

@[simp] theorem length_leBytes (n x : ℕ) : (leBytes n x).length = n := by
  induction n generalizing x with
  | zero => rfl
  | succ n ih => simp [leBytes, ih]

/-- **Round trip.** -/
theorem leValue_leBytes (n x : ℕ) : leValue (leBytes n x) = x % 256 ^ n := by
  induction n generalizing x with
  | zero => simp [leBytes, leValue, Nat.mod_one]
  | succ n ih =>
      have h : x % 256 ^ (n + 1) = x % 256 + 256 * (x / 256 % 256 ^ n) := by
        rw [Nat.pow_succ', Nat.mod_mul]
      rw [leBytes, leValue, ih, BitVec.toNat_ofNat, h]

theorem leBytes_take {k n : ℕ} (h : k ≤ n) (x : ℕ) : (leBytes n x).take k = leBytes k x := by
  induction k generalizing n x with
  | zero => rfl
  | succ k ih =>
      obtain ⟨n, rfl⟩ : ∃ n', n = n' + 1 := ⟨n - 1, by omega⟩
      rw [leBytes, leBytes, List.take_succ_cons, ih (by omega)]

theorem leBytes_drop (k n x : ℕ) : (leBytes (k + n) x).drop k = leBytes n (x / 256 ^ k) := by
  induction k generalizing x with
  | zero => simp
  | succ k ih =>
      rw [Nat.add_right_comm, leBytes, List.drop_succ_cons, ih, Nat.div_div_eq_div_mul, Nat.pow_succ']

theorem leValue_append (bs cs : List Byte) :
    leValue (bs ++ cs) = leValue bs + 256 ^ bs.length * leValue cs := by
  induction bs with
  | nil => simp [leValue]
  | cons b bs ih =>
      have h : 256 ^ (bs.length + 1) * leValue cs = 256 * (256 ^ bs.length * leValue cs) := by
        rw [Nat.pow_succ', Nat.mul_assoc]
      rw [List.cons_append, leValue, leValue, ih, List.length_cons, h]
      omega

/-- A word of `8 * n` bits survives its bytes. -/
theorem ofNat_leValue_leBytes {w n : ℕ} (h : 2 ^ w = 256 ^ n) (x : BitVec w) :
    BitVec.ofNat w (leValue (leBytes n x.toNat)) = x := by
  rw [leValue_leBytes, ← h, Nat.mod_eq_of_lt x.isLt]
  simp

end VmwareProto
