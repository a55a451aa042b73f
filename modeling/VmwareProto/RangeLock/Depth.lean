import VmwareProto.RangeLock.Runs
/-!
# How deep the search goes

`__rb_search` calls itself once for every node of a path down. The tree of
every run is balanced (`treeSystem_inductive`), so such a path is short, and
so many nested calls are enough.
-/

namespace VmwareProto

namespace RangeLock

open VmwareProto.Tree Ctx

/-- The nodes of a path down from a pointer, as far as one likes. -/
inductive Path (m : Mem) : Ptr → List Addr → Prop
  | nil {p : Ptr} : Path m p []
  | cons {a : Addr} {n : RbNode} {d : Dir} {as : List Addr} :
      m.heap a = some n → Path m (n.child d) as → Path m (some a) (a :: as)

variable {m : Mem} {t : Shape} {p q : Ptr} {s e : ℕ}

theorem Rep.path_le {as : List Addr} (ht : Rep m.heap t q) (h : Path m t.rootId as) :
    as.length ≤ t.height := by
  induction t generalizing q as with
  | nil => cases h with
    | nil => simp
  | node a c x l r ihl ihr =>
      obtain ⟨ha, hl, hr⟩ := ht
      cases h with
      | nil => simp
      | @cons _ n d as hn hp =>
          obtain rfl := Option.some.inj (ha.symm.trans hn)
          rw [List.length_cons, height]
          cases d with
          | left =>
              have := ihl hl hp
              omega
          | right =>
              have := ihr hr hp
              omega

/-- More fuel changes nothing. -/
theorem rbSearchFrom_mono {f f' : ℕ} {r : Ptr} (h : rbSearchFrom m f p s e = some r)
    (hf : f ≤ f') : rbSearchFrom m f' p s e = some r := by
  induction f generalizing f' p with
  | zero => cases h
  | succ f ih =>
      obtain ⟨f', rfl⟩ : ∃ k, f' = k + 1 := ⟨f' - 1, by omega⟩
      cases p with
      | none => exact h
      | some a =>
          obtain ⟨n, hn, h⟩ := Option.bind_eq_some_iff.1 h
          simp only [rbSearchFrom, hn, Option.bind_eq_bind, Option.bind_some]
          split at h
          · rename_i hover
            rw [if_pos hover]
            exact h
          · rename_i hover
            rw [if_neg hover]
            split at h
            · rename_i hlt
              rw [if_pos hlt]
              exact ih h (by omega)
            · rename_i hlt
              rw [if_neg hlt]
              split at h
              · rename_i hgt
                rw [if_pos hgt]
                exact ih h (by omega)
              · cases h

/-- **The tree stays balanced.** After any run of insertions and deletions
a path down from the root has at most `2 * log2 (count + 1)` nodes, the
logarithm rounded down, and `rb_search` returns what `__rb_search` returns
within so many calls nested on nodes and one on `NULL`. -/
theorem path_le_log (h : treeSystem.Reachable m) :
    (∀ as, Path m m.root as → as.length ≤ 2 * Nat.log 2 (m.count + 1)) ∧
    ∀ s e, ∃ r, rbSearch m s e = some r ∧
      rbSearchFrom m (2 * Nat.log 2 (m.count + 1) + 1) m.root (min s e) (max s e) = some r := by
  obtain ⟨t, hv⟩ := treeSystem_inductive.reachable h
  obtain ⟨n, hbal⟩ := hv.balanced
  have hheight := hbal.height_le_log
  rw [← hv.count] at hheight
  refine ⟨fun as has => ?_, fun s e => ?_⟩
  · rw [hv.models.root] at has
    exact (hv.models.rep.path_le has).trans hheight
  · have hse : min s e ≤ max s e := min_le_max
    obtain ⟨r, hrun, -⟩ := rbSearchFrom_spec hse hv.models.rep hv.ordered
      (Nat.add_le_add_right hheight 1)
    obtain ⟨r', hrun', -⟩ := rbSearchFrom_spec hse hv.models.rep hv.ordered (le_refl (t.height + 1))
    have hsize := t.height_le_size
    rw [← hv.count] at hsize
    have hall := rbSearchFrom_mono hrun' (Nat.add_le_add_right hsize 1)
    obtain rfl : r' = r := Option.some.inj
      ((rbSearchFrom_mono hrun' (Nat.add_le_add_right hheight 1)).symm.trans hrun)
    refine ⟨r', ?_, by rw [hv.models.root]; exact hrun⟩
    rw [rbSearch, sortBounds_eq, hv.models.root]
    split
    · rename_i hnil
      rw [hnil] at hall
      exact hall
    · exact hall

/-- Six nodes, after a deletion: four nodes deep at most. -/
theorem path_le_log_six : ∃ m, treeSystem.Reachable m ∧ m.count = 6 ∧
    (∀ as, Path m m.root as → as.length ≤ 4) ∧
    ∃ r, rbSearch m 43 37 = some r ∧ rbSearchFrom m 5 m.root 37 43 = some r := by
  obtain ⟨m, hr, hp⟩ := reachable_of_ready (sevenIntervals ++ [.delete 1])
    (fun m => m.count == 6) (by decide +kernel)
  have hcount : m.count = 6 := by simpa using hp
  have h := path_le_log hr
  rw [hcount] at h
  have hlog : Nat.log 2 (6 + 1) = 2 := by decide
  rw [hlog] at h
  exact ⟨m, hr, hcount, h.1, h.2 43 37⟩

end RangeLock

end VmwareProto
