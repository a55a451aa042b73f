import VmwareProto.Libtask.Task
import Mathlib.Data.List.Basic
import Mathlib.Data.List.Nodup
/-!
# The array of all tasks

`alltask` has no order: a task that is freed leaves its place to the last
one. `Proper` is what makes that right, every task once and at its slot.
-/

namespace VmwareProto

namespace Libtask

namespace AllTask

/-- **Every task is there once**, at its `alltaskslot`. -/
structure Proper (A : AllTask) : Prop where
  nodup : A.tasks.Nodup
  slot : ∀ (i : ℕ) (t : TaskId), A.tasks[i]? = some t → A.slot t = i

variable {A : AllTask} {t u : TaskId}

theorem mem_iff : t ∈ A ↔ t ∈ A.tasks := Iff.rfl

theorem mem_push : u ∈ A.push t ↔ u ∈ A ∨ u = t := by
  simp [mem_iff, push]

theorem Proper.push (h : A.Proper) (ht : t ∉ A) : (A.push t).Proper := by
  refine ⟨?_, fun i u hu => ?_⟩
  · rw [AllTask.push, ← List.concat_eq_append]
    exact h.nodup.concat ht
  · simp only [AllTask.push, List.getElem?_append] at hu ⊢
    split at hu
    · have hne : u ≠ t := fun e => ht (e ▸ List.mem_of_getElem? hu)
      rw [Function.update_of_ne hne]
      exact h.slot i u hu
    · rename_i hi
      obtain ⟨hj, rfl⟩ := List.getElem?_eq_some_iff.1 hu
      simp only [List.length_singleton] at hj
      simp only [List.getElem_singleton, Function.update_self]
      omega

/-- A task, those before it and those behind. -/
theorem Proper.split (h : A.Proper) (ht : t ∈ A) :
    ∃ xs ys, A.tasks = xs ++ t :: ys ∧ A.slot t = xs.length := by
  obtain ⟨xs, ys, hxy⟩ := List.append_of_mem ht
  exact ⟨xs, ys, hxy, h.slot _ _ (by simp [hxy])⟩

/-- What the array is without a task. -/
theorem remove_eq {xs ys : List TaskId} (hxy : A.tasks = xs ++ t :: ys)
    (hslot : A.slot t = xs.length) :
    (A.remove t).tasks = xs ++ (ys.getLast?.toList ++ ys.dropLast) ∧
    (A.remove t).slot = Function.update A.slot (ys.getLast?.getD t) xs.length := by
  rcases List.eq_nil_or_concat ys with rfl | ⟨zs, u, rfl⟩
  · simp [remove, hxy, hslot]
  · have hlast : (xs ++ t :: (zs ++ [u])).getLast? = some u := by
      rw [← List.cons_append, ← List.append_assoc]
      exact List.getLast?_concat
    rw [List.concat_eq_append] at hxy ⊢
    simp only [remove, hxy, hlast, hslot, List.getLast?_concat, List.dropLast_concat,
      Option.toList_some, Option.getD_some, and_true]
    rw [List.set_append_right _ _ (Nat.le_refl _), Nat.sub_self, List.set_cons_zero,
      ← List.cons_append, ← List.append_assoc, List.dropLast_concat]
    rfl

/-- **A task is taken out** of the array, and the others keep a slot. -/
theorem Proper.remove (h : A.Proper) (ht : t ∈ A) :
    (A.remove t).Proper ∧ (A.remove t).tasks.Perm (A.tasks.erase t) := by
  obtain ⟨xs, ys, hxy, hslot⟩ := h.split ht
  obtain ⟨htasks, hslots⟩ := remove_eq hxy hslot
  have hnd := h.nodup
  rw [hxy, List.nodup_middle, List.nodup_cons, List.mem_append, not_or] at hnd
  have herase : A.tasks.erase t = xs ++ ys := by
    rw [hxy, List.erase_append_right _ hnd.1.1, List.erase_cons_head]
  have hperm : (A.remove t).tasks.Perm (xs ++ ys) := by
    rw [htasks]
    refine List.Perm.append_left xs ?_
    rcases List.eq_nil_or_concat ys with rfl | ⟨zs, u, rfl⟩
    · simp
    · simpa using (List.perm_append_singleton u zs).symm
  refine ⟨⟨hperm.nodup_iff.2 hnd.2, fun i v hv => ?_⟩, herase ▸ hperm⟩
  rw [htasks] at hv
  rw [hslots]
  rcases List.eq_nil_or_concat ys with rfl | ⟨zs, u, rfl⟩
  · have hmem : v ∈ xs := by simpa using List.mem_of_getElem? hv
    have hne : v ≠ t := fun e => hnd.1.1 (e ▸ hmem)
    simp only [List.getLast?_nil, Option.getD_none, Function.update_of_ne hne]
    refine h.slot i v ?_
    simp only [List.getLast?_nil, Option.toList_none, List.dropLast_nil, List.append_nil] at hv
    rw [hxy, List.getElem?_append_left (List.getElem?_eq_some_iff.1 hv).1]
    exact hv
  · rw [List.concat_eq_append] at hv hnd hxy hperm ⊢
    simp only [List.getLast?_concat, Option.toList_some, List.dropLast_concat,
      Option.getD_some] at hv ⊢
    by_cases hvu : v = u
    · -- the task that moved
      subst hvu
      rw [Function.update_self]
      have hnd' : (xs ++ v :: zs).Nodup := by
        have := hperm.nodup_iff.2 hnd.2
        rw [htasks] at this
        simpa using this
      obtain ⟨hi, hiv⟩ := List.getElem?_eq_some_iff.1 hv
      have hx : xs.length < (xs ++ v :: zs).length := by simp
      have heq : (xs ++ v :: zs)[xs.length] = (xs ++ v :: zs)[i] := by
        rw [show (xs ++ v :: zs)[i] = v from hiv]
        simp
      exact hnd'.getElem_inj_iff.1 heq
    · rw [Function.update_of_ne hvu]
      refine h.slot i v ?_
      rw [hxy]
      rcases Nat.lt_trichotomy i xs.length with hlt | rfl | hgt
      · rw [List.getElem?_append_left hlt] at hv ⊢
        exact hv
      · exact absurd (by simpa using hv) (Ne.symm hvu)
      · rw [List.getElem?_append_right (Nat.le_of_lt hgt)] at hv ⊢
        obtain ⟨k, hk⟩ : ∃ k, i - xs.length = k + 1 := ⟨i - xs.length - 1, by omega⟩
        simp only [hk, List.singleton_append, List.getElem?_cons_succ] at hv ⊢
        rw [List.getElem?_append_left (List.getElem?_eq_some_iff.1 hv).1]
        exact hv

end AllTask

end Libtask

end VmwareProto
