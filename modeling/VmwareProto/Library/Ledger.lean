import Mathlib.Data.List.Nodup
import Mathlib.Data.List.Perm.Subperm
import Mathlib.Tactic.Common
/-!
# What comes in goes out once

Things come in, are held for a while, each under a key of its own, and go
out. `Ledger` says that none of them is lost and none goes out twice: what
came in is, up to order, what went out and what is held. One lemma for each
way a step can change what is held.
-/

namespace VmwareProto

variable {κ β : Type*} [DecidableEq κ] {held held' : κ → Prop} {val val' : κ → β}
  {came went : List β} {k k' : κ} {v : β}

omit [DecidableEq κ] in
/-- What came in went out, or is held under one of finitely many keys. -/
def Ledger (held : κ → Prop) (val : κ → β) (came went : List β) : Prop :=
  ∃ ks : List κ, ks.Nodup ∧ (∀ k, k ∈ ks ↔ held k) ∧ came.Perm (went ++ ks.map val)

namespace Ledger

omit [DecidableEq κ] in
theorem initial (h : ∀ k, ¬held k) : Ledger held val [] [] :=
  ⟨[], List.nodup_nil, fun k => iff_of_false List.not_mem_nil (h k), List.Perm.nil⟩

omit [DecidableEq κ] in
/-- Nothing of it changes. -/
theorem congr (h : Ledger held val came went) (hh : ∀ k, held' k ↔ held k)
    (hv : ∀ k, held k → val' k = val k) : Ledger held' val' came went := by
  obtain ⟨ks, hnd, hks, hp⟩ := h
  have hmap : ks.map val' = ks.map val := List.map_congr_left fun k hk => hv k ((hks k).1 hk)
  exact ⟨ks, hnd, fun k => (hks k).trans (hh k).symm, by rwa [hmap]⟩

omit [DecidableEq κ] in
/-- In what order things went out does not matter. -/
theorem perm_went {went' : List β} (h : Ledger held val came went) (hw : went.Perm went') :
    Ledger held val came went' := by
  obtain ⟨ks, hnd, hks, hp⟩ := h
  exact ⟨ks, hnd, hks, hp.trans (hw.append_right (ks.map val))⟩

omit [DecidableEq κ] in
/-- **Something comes in**, under a key that nothing is held under. -/
theorem enter (h : Ledger held val came went) (hk : ¬held k) (hh : ∀ j, held' j ↔ j = k ∨ held j)
    (hv : ∀ j, held j → val' j = val j) (hkv : val' k = v) : Ledger held' val' (came ++ [v]) went := by
  obtain ⟨ks, hnd, hks, hp⟩ := h
  have hmap : ks.map val' = ks.map val := List.map_congr_left fun k hk => hv k ((hks k).1 hk)
  refine ⟨k :: ks, List.nodup_cons.2 ⟨fun hm => hk ((hks k).1 hm), hnd⟩, fun j => ?_, ?_⟩
  · rw [List.mem_cons, hks, hh]
  · rw [List.map_cons, hkv, hmap]
    calc (came ++ [v]).Perm (v :: came) := List.perm_append_singleton v came
      _ |>.Perm (v :: (went ++ ks.map val)) := hp.cons v
      _ |>.Perm (went ++ v :: ks.map val) := List.perm_middle.symm

/-- **Something goes out.** -/
theorem leave (h : Ledger held val came went) (hk : held k) (hh : ∀ j, held' j ↔ j ≠ k ∧ held j)
    (hv : ∀ j, j ≠ k → held j → val' j = val j) (hkv : val k = v) :
    Ledger held' val' came (went ++ [v]) := by
  obtain ⟨ks, hnd, hks, hp⟩ := h
  have hmem : k ∈ ks := (hks k).2 hk
  have hmap : (ks.erase k).map val' = (ks.erase k).map val := List.map_congr_left fun j hj => by
    obtain ⟨hne, hj⟩ := (hnd.mem_erase_iff).1 hj
    exact hv j hne ((hks j).1 hj)
  refine ⟨ks.erase k, hnd.erase k, fun j => ?_, ?_⟩
  · rw [hnd.mem_erase_iff, hks, hh]
  · rw [hmap, List.append_assoc]
    have hperm : (ks.map val).Perm (v :: (ks.erase k).map val) := by
      rw [← hkv, ← List.map_cons]
      exact (List.perm_cons_erase hmem).map val
    exact hp.trans (hperm.append_left went)

/-- **Something changes its key.** -/
theorem rekey (h : Ledger held val came went) (hk : held k) (hk' : ¬held k')
    (hh : ∀ j, held' j ↔ j = k' ∨ j ≠ k ∧ held j) (hv : ∀ j, j ≠ k → held j → val' j = val j)
    (hkv : val' k' = val k) : Ledger held' val' came went := by
  obtain ⟨ks, hnd, hks, hp⟩ := h
  have hmem : k ∈ ks := (hks k).2 hk
  have hmap : (ks.erase k).map val' = (ks.erase k).map val := List.map_congr_left fun j hj => by
    obtain ⟨hne, hj⟩ := (hnd.mem_erase_iff).1 hj
    exact hv j hne ((hks j).1 hj)
  have hnot : k' ∉ ks.erase k := fun hm => hk' ((hks k').1 (List.mem_of_mem_erase hm))
  refine ⟨k' :: ks.erase k, List.nodup_cons.2 ⟨hnot, hnd.erase k⟩, fun j => ?_, ?_⟩
  · rw [List.mem_cons, hnd.mem_erase_iff, hks, hh]
  · rw [List.map_cons, hmap, hkv, ← List.map_cons]
    exact hp.trans (((List.perm_cons_erase hmem).map val).append_left went)

omit [DecidableEq κ] in
/-- Nothing went out that did not come in. -/
theorem subset (h : Ledger held val came went) : went ⊆ came := by
  obtain ⟨ks, -, -, hp⟩ := h
  exact fun v hv => hp.symm.subset (List.mem_append_left _ hv)

omit [DecidableEq κ] in
/-- Or more often. -/
theorem nodup (h : Ledger held val came went) (hc : came.Nodup) : went.Nodup := by
  obtain ⟨ks, -, -, hp⟩ := h
  exact (hp.nodup_iff.1 hc).of_append_left

omit [DecidableEq κ] in
/-- Once nothing is held, everything went out. -/
theorem perm (h : Ledger held val came went) (hh : ∀ k, ¬held k) : came.Perm went := by
  obtain ⟨ks, -, hks, hp⟩ := h
  obtain rfl : ks = [] := List.eq_nil_iff_forall_not_mem.2 fun k hk => hh k ((hks k).1 hk)
  simpa using hp

omit [DecidableEq κ] in
/-- Of any kind at least as many came in as went out. -/
theorem countP_le (h : Ledger held val came went) (p : β → Bool) : went.countP p ≤ came.countP p := by
  obtain ⟨ks, -, -, hp⟩ := h
  rw [hp.countP_eq, List.countP_append]
  omega

omit [DecidableEq κ] in
/-- More, if one is held. -/
theorem countP_lt (h : Ledger held val came went) {p : β → Bool} (hk : held k) (hpk : p (val k) = true) :
    went.countP p < came.countP p := by
  obtain ⟨ks, -, hks, hp⟩ := h
  have hpos : 0 < (ks.map val).countP p :=
    List.countP_pos_iff.2 ⟨val k, List.mem_map_of_mem ((hks k).2 hk), hpk⟩
  rw [hp.countP_eq, List.countP_append]
  omega

omit [DecidableEq κ] in
/-- As many, if none is. -/
theorem countP_eq (h : Ledger held val came went) {p : β → Bool}
    (hno : ∀ k, held k → p (val k) = false) : came.countP p = went.countP p := by
  obtain ⟨ks, -, hks, hp⟩ := h
  have hz : (ks.map val).countP p = 0 := List.countP_eq_zero.2 fun v hv => by
    obtain ⟨k, hk, rfl⟩ := List.mem_map.1 hv
    simp [hno k ((hks k).1 hk)]
  rw [hp.countP_eq, List.countP_append, hz, Nat.add_zero]

omit [DecidableEq κ] in
/-- What is held came in. -/
theorem mem_came (h : Ledger held val came went) (hk : held k) : val k ∈ came := by
  obtain ⟨ks, -, hks, hp⟩ := h
  exact hp.symm.subset (List.mem_append_right _ (List.mem_map_of_mem ((hks k).2 hk)))

end Ledger

end VmwareProto
