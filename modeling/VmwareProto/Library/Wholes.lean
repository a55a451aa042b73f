import Mathlib.Data.List.Basic
import Mathlib.Tactic.Common
/-!
# Streams of messages that tell their own length

The first elements of a message say how long it is. `wholes` cuts off a
stream the messages that are whole; a row of whole messages is found again,
and a part of one is not taken for one.
-/

namespace VmwareProto

/-- How messages over `α` tell their length: the first `head` elements do. A
head that is none gives a length that is less. -/
structure Format (α : Type*) where
  head : ℕ
  head_pos : 0 < head
  size : List α → ℕ
  size_append : ∀ bs cs, head ≤ bs.length → size (bs ++ cs) = size bs

namespace Format

variable {α : Type*} (F : Format α) {w p ext : List α} {ws : List (List α)}

/-- A whole message. -/
structure IsWhole (w : List α) : Prop where
  head_le : F.head ≤ F.size w
  length : w.length = F.size w

/-- The whole messages a stream begins with, at most `n`. -/
def wholesUpTo : ℕ → List α → List (List α)
  | 0, _ => []
  | n + 1, bs =>
      if F.head ≤ F.size bs ∧ F.size bs ≤ bs.length then
        bs.take (F.size bs) :: wholesUpTo n (bs.drop (F.size bs))
      else []

/-- The whole messages a stream begins with. -/
def wholes (bs : List α) : List (List α) := F.wholesUpTo bs.length bs

variable {F}

theorem IsWhole.head_le_length (h : F.IsWhole w) : F.head ≤ w.length := by
  rw [h.length]
  exact h.head_le

/-- A whole message is the first, whatever follows it. -/
theorem wholesUpTo_append (h : F.IsWhole w) (n : ℕ) (rest : List α) :
    F.wholesUpTo (n + 1) (w ++ rest) = w :: F.wholesUpTo n rest := by
  have hsize : F.size (w ++ rest) = w.length := by
    rw [F.size_append w rest h.head_le_length, h.length]
  rw [wholesUpTo, hsize, if_pos ⟨h.head_le_length, by simp⟩, List.take_left, List.drop_left]

/-- A bound beyond the stream's length cuts nothing off. -/
theorem wholesUpTo_of_le (n : ℕ) (bs : List α) (h : bs.length ≤ n) :
    F.wholesUpTo n bs = F.wholes bs := by
  induction n using Nat.strongRecOn generalizing bs with
  | ind n ih =>
      have hpos := F.head_pos
      cases n with
      | zero =>
          obtain rfl := List.length_eq_zero_iff.1 (Nat.le_zero.1 h)
          rfl
      | succ n =>
          cases bs with
          | nil =>
              rw [wholes, List.length_nil, wholesUpTo, wholesUpTo]
              refine if_neg fun e => ?_
              rw [List.length_nil] at e
              omega
          | cons b bs =>
              rw [wholes, List.length_cons, wholesUpTo, wholesUpTo]
              rw [List.length_cons] at h
              split
              · have hlen : ((b :: bs).drop (F.size (b :: bs))).length ≤ bs.length := by
                  rw [List.length_drop, List.length_cons]
                  omega
                rw [ih n (Nat.lt_succ_self n) _ (by omega), ih bs.length (by omega) _ hlen]
              · rfl

theorem wholes_append (h : F.IsWhole w) (rest : List α) :
    F.wholes (w ++ rest) = w :: F.wholes rest := by
  have hsize := h.head_le_length
  have hpos := F.head_pos
  obtain ⟨n, hn⟩ : ∃ n, (w ++ rest).length = n + 1 :=
    ⟨(w ++ rest).length - 1, by rw [List.length_append]; omega⟩
  rw [wholes, hn, wholesUpTo_append h, wholesUpTo_of_le]
  rw [List.length_append] at hn
  omega

/-- Where there is a first whole message, the stream begins with it. -/
theorem of_wholes_cons {bs : List α} (h : F.wholes bs = w :: ws) :
    F.IsWhole w ∧ ∃ rest, bs = w ++ rest ∧ F.wholes rest = ws := by
  have hpos := F.head_pos
  have hne : bs ≠ [] := by
    rintro rfl
    cases h
  obtain ⟨n, hn⟩ : ∃ n, bs.length = n + 1 :=
    Nat.exists_eq_succ_of_ne_zero fun e => hne (List.length_eq_zero_iff.1 e)
  have hfull := h
  rw [wholes, hn, wholesUpTo] at h
  split at h
  · rename_i hsize
    obtain ⟨rfl, -⟩ := List.cons.inj h
    have hw : F.IsWhole (bs.take (F.size bs)) := by
      have heq : F.size (bs.take (F.size bs)) = F.size bs := by
        conv_rhs => rw [← List.take_append_drop (F.size bs) bs]
        rw [F.size_append]
        rw [List.length_take]
        omega
      exact ⟨by rw [heq]; exact hsize.1, by rw [heq, List.length_take]; omega⟩
    refine ⟨hw, bs.drop (F.size bs), (List.take_append_drop _ _).symm, ?_⟩
    have happ := wholes_append hw (bs.drop (F.size bs))
    rw [List.take_append_drop, hfull] at happ
    exact (List.cons.inj happ).2.symm
  · cases h

/-- **The whole messages of a row of messages** are these, and those of what
follows it. -/
theorem wholes_flatten (h : ∀ w ∈ ws, F.IsWhole w) (rest : List α) :
    F.wholes (ws.flatten ++ rest) = ws ++ F.wholes rest := by
  induction ws with
  | nil => rfl
  | cons w ws ih =>
      rw [List.flatten_cons, List.append_assoc, wholes_append (h w (by simp)),
        ih fun w' hw => h w' (List.mem_cons_of_mem _ hw)]
      rfl

/-- A part of a message is not whole. -/
theorem wholes_partial (h : F.IsWhole (p ++ ext)) (hne : ext ≠ []) : F.wholes p = [] := by
  have hlen := h.length
  have hpos := List.length_pos_iff.2 hne
  rw [List.length_append] at hlen
  cases hp : p.length with
  | zero => rw [wholes, hp, wholesUpTo]
  | succ n =>
      rw [wholes, hp, wholesUpTo]
      refine if_neg fun e => ?_
      rw [F.size_append p ext (by omega)] at hlen
      omega

end Format

end VmwareProto
