import Mathlib.Data.List.Basic
import Mathlib.Data.Nat.ModEq
import Mathlib.Data.Nat.Notation
import Mathlib.Tactic.Common
/-!
# Queues in a row of slots

A list cut into slots of `n` entries each, of which some, from `off` on and
around the end, hold a queue: what is pushed goes to the slot behind the
last, and what is popped comes from the first.
-/

namespace VmwareProto

namespace Slots

variable {α : Type*} {n cap off count i j : ℕ} {buf x : List α}

/-- The slot with the index `i`. -/
def slot (n : ℕ) (buf : List α) (i : ℕ) : List α := (buf.drop (i * n)).take n

/-- The slot with the index `i` is written. -/
def write (n : ℕ) (buf : List α) (i : ℕ) (x : List α) : List α :=
  buf.take (i * n) ++ x ++ buf.drop (i * n + n)

/-- The queue. -/
def contents (n cap : ℕ) (buf : List α) (off count : ℕ) : List (List α) :=
  (List.range count).map fun j => slot n buf ((off + j) % cap)

@[simp] theorem contents_zero : contents n cap buf off 0 = [] := rfl

@[simp] theorem length_contents : (contents n cap buf off count).length = count := by
  simp [contents]

/-- A slot is within the list. -/
theorem slot_le (hb : buf.length = cap * n) (hi : i < cap) : i * n + n ≤ buf.length := by
  rw [hb, ← Nat.succ_mul]
  exact Nat.mul_le_mul_right n hi

theorem length_slot (hb : buf.length = cap * n) (hi : i < cap) : (slot n buf i).length = n := by
  have hle := slot_le hb hi
  simp only [slot, List.length_take, List.length_drop]
  omega

theorem length_write (hb : buf.length = cap * n) (hi : i < cap) (hx : x.length = n) :
    (write n buf i x).length = cap * n := by
  have hle := slot_le hb hi
  simp only [write, List.length_append, List.length_take, List.length_drop, hx]
  omega

/-- What is written is there. -/
theorem slot_write (hb : buf.length = cap * n) (hi : i < cap) (hx : x.length = n) :
    slot n (write n buf i x) i = x := by
  have hle := slot_le hb hi
  have hlen : (buf.take (i * n)).length = i * n := by
    rw [List.length_take]
    omega
  rw [slot, write, List.append_assoc, List.drop_left' hlen, List.take_left' hx]

/-- **The other slots are left alone.** -/
theorem slot_write_of_ne (hb : buf.length = cap * n) (hi : i < cap) (hx : x.length = n)
    (hij : j ≠ i) :
    slot n (write n buf i x) j = slot n buf j := by
  have hle := slot_le hb hi
  have hlen : (buf.take (i * n)).length = i * n := by
    rw [List.length_take]
    omega
  rcases Nat.lt_or_gt_of_ne hij with h | h
  · have hji : j * n + n ≤ i * n := by
      rw [← Nat.succ_mul]
      exact Nat.mul_le_mul_right n h
    rw [slot, slot, write, List.append_assoc, List.drop_append_of_le_length (by omega),
      List.take_append_of_le_length (by rw [List.length_drop]; omega), List.drop_take,
      List.take_take,
      Nat.min_eq_left (by omega)]
  · have hij : i * n + n ≤ j * n := by
      rw [← Nat.succ_mul]
      exact Nat.mul_le_mul_right n h
    have hlen' : (buf.take (i * n) ++ x).length = i * n + n := by rw [List.length_append, hlen, hx]
    rw [slot, slot, write, List.drop_append, List.drop_eq_nil_of_le (by omega), hlen',
      List.drop_drop,
      List.nil_append, show i * n + n + (j * n - (i * n + n)) = j * n by omega]

/-- **Push.** -/
theorem contents_push (hb : buf.length = cap * n) (hlt : count < cap) (hx : x.length = n) :
    contents n cap (write n buf ((off + count) % cap) x) off (count + 1) =
      contents n cap buf off count ++ [x] := by
  have hi : (off + count) % cap < cap := Nat.mod_lt _ (by omega)
  rw [contents, List.range_succ, List.map_append, List.map_singleton, slot_write hb hi hx]
  congr 1
  refine List.map_congr_left fun j hj => slot_write_of_ne hb hi hx fun e => ?_
  rw [List.mem_range] at hj
  -- fewer than `cap` slots apart
  have hmod : j % cap = count % cap := Nat.ModEq.add_left_cancel' off e
  rw [Nat.mod_eq_of_lt (by omega), Nat.mod_eq_of_lt hlt] at hmod
  omega

/-- **Pop.** -/
theorem contents_pop (hoff : off < cap) :
    contents n cap buf off (count + 1) =
      slot n buf off :: contents n cap buf (if off + 1 = cap then 0 else off + 1) count := by
  rw [contents, List.range_succ_eq_map, List.map_cons, List.map_map, Nat.add_zero,
    Nat.mod_eq_of_lt hoff]
  congr 1
  refine List.map_congr_left fun j _ => ?_
  show slot n buf ((off + (j + 1)) % cap) = _
  split
  · rename_i h
    rw [show off + (j + 1) = cap + j by omega, Nat.add_mod_left, Nat.zero_add]
  · rw [show off + (j + 1) = off + 1 + j by omega]

end Slots

end VmwareProto
