import VmwareProto.RangeLock.Rep
/-!
# Order and search

A stored range is a closed interval. `Ordered` is the search-tree order on
intervals: everything left of a node ends before its start, everything
right starts after its end; it is a property of the in-order content alone
(`ordered_iff`). Under it the search is exact: it finds a stored interval
that meets the one asked for if and only if there is one.
-/

namespace VmwareProto

namespace RangeLock

open VmwareProto.Tree Ctx

/-- The closed interval two bounds span, in either order. -/
def span (s e : ℕ) : Set ℕ := Set.Icc (min s e) (max s e)

/-- The interval a node stores. -/
def NodeData.range (x : NodeData) : Set ℕ := Set.Icc x.start x.stop

/-- A node overlaps the interval `[s, e]`. -/
def Meets (x : NodeData) (s e : ℕ) : Prop := x.start ≤ e ∧ s ≤ x.stop

instance (x : NodeData) (s e : ℕ) : Decidable (Meets x s e) := inferInstanceAs (Decidable (_ ∧ _))

theorem sortBounds_eq (s e : ℕ) : sortBounds s e = (min s e, max s e) := by
  unfold sortBounds
  split
  · rename_i h; rw [min_eq_right (by omega), max_eq_left (by omega)]
  · rename_i h; rw [min_eq_left (by omega), max_eq_right (by omega)]

/-- **`check_overlap` is closed-interval intersection**, bounds in any
order. -/
theorem checkOverlap_iff (s1 e1 s2 e2 : ℕ) :
    checkOverlap s1 e1 s2 e2 = true ↔ min s1 e1 ≤ max s2 e2 ∧ min s2 e2 ≤ max s1 e1 := by
  simp only [checkOverlap, sortBounds_eq]
  split
  · simp only [true_iff]; omega
  · split
    · simp only [true_iff]; omega
    · simp only [Bool.false_eq_true, false_iff]; omega

theorem checkOverlap_span (s1 e1 s2 e2 : ℕ) :
    checkOverlap s1 e1 s2 e2 = true ↔ (span s1 e1 ∩ span s2 e2).Nonempty := by
  rw [checkOverlap_iff, span, span, Set.Icc_inter_Icc, Set.nonempty_Icc]
  have h1 : min s1 e1 ≤ max s1 e1 := min_le_max
  have h2 : min s2 e2 ≤ max s2 e2 := min_le_max
  omega

theorem checkOverlap_sorted {s1 e1 s2 e2 : ℕ} (h1 : s1 ≤ e1) (h2 : s2 ≤ e2) :
    checkOverlap s1 e1 s2 e2 = true ↔ s1 ≤ e2 ∧ s2 ≤ e1 := by
  rw [checkOverlap_iff, min_eq_left h1, max_eq_right h1, min_eq_left h2, max_eq_right h2]

/-! ## The order -/

/-- The search-tree order on disjoint closed intervals. -/
def Ordered : Shape → Prop
  | .nil => True
  | .node _ _ x l r =>
      x.start ≤ x.stop ∧ (∀ y ∈ l.toList, y.2.stop < x.start) ∧
        (∀ y ∈ r.toList, x.stop < y.2.start) ∧ Ordered l ∧ Ordered r

/-- The same of a list in ascending order. -/
structure Ascending (xs : List (Addr × NodeData)) : Prop where
  proper : ∀ y ∈ xs, y.2.start ≤ y.2.stop
  apart : xs.Pairwise fun y z => y.2.stop < z.2.start

/-- **Order is a property of the content.** -/
theorem ordered_iff (t : Shape) : Ordered t ↔ Ascending t.toList := by
  induction t with
  | nil => exact ⟨fun _ => ⟨by simp, by simp⟩, fun _ => trivial⟩
  | node b c x l r ihl ihr =>
      simp only [Ordered, ihl, ihr, toList_node]
      constructor
      · rintro ⟨hx, hl, hr, ⟨pl, al⟩, ⟨pr, ar⟩⟩
        refine ⟨?_, List.pairwise_append.2 ⟨al, List.pairwise_cons.2 ⟨hr, ar⟩, ?_⟩⟩
        · simp only [List.mem_append, List.mem_cons]
          rintro y (hy | rfl | hy)
          · exact pl y hy
          · exact hx
          · exact pr y hy
        · intro y hy z hz
          have h1 := hl y hy
          rcases List.mem_cons.1 hz with rfl | hz
          · exact h1
          · have h2 := hr z hz
            omega
      · rintro ⟨p, a⟩
        rw [List.pairwise_append, List.pairwise_cons] at a
        refine ⟨p (b, x) (by simp), fun y hy => a.2.2 y hy (b, x) (by simp), a.2.1.1,
          ⟨fun y hy => p y (by simp [hy]), a.1⟩, ⟨fun y hy => p y (by simp [hy]), a.2.1.2⟩⟩

theorem Ascending.sublist {xs ys : List (Addr × NodeData)} (h : Ascending ys)
    (hs : xs.Sublist ys) : Ascending xs :=
  ⟨fun y hy => h.proper y (hs.subset hy), h.apart.sublist hs⟩

/-- Inserting an interval into the gap it fits. -/
theorem Ascending.insert {xs ys : List (Addr × NodeData)} {y : Addr × NodeData}
    (h : Ascending (xs ++ ys)) (hy : y.2.start ≤ y.2.stop)
    (hx : ∀ z ∈ xs, z.2.stop < y.2.start) (hys : ∀ z ∈ ys, y.2.stop < z.2.start) :
    Ascending (xs ++ y :: ys) := by
  obtain ⟨p, a⟩ := h
  rw [List.pairwise_append] at a
  refine ⟨?_, List.pairwise_append.2 ⟨a.1, List.pairwise_cons.2 ⟨hys, a.2.1⟩, ?_⟩⟩
  · simp only [List.mem_append, List.mem_cons]
    rintro z (hz | rfl | hz)
    · exact p z (by simp [hz])
    · exact hy
    · exact p z (by simp [hz])
  · intro z hz w hw
    rcases List.mem_cons.1 hw with rfl | hw
    · exact hx z hz
    · exact a.2.2 z hz w hw

/-! ## What a valid tree is -/

/-- **The representation invariant** of `struct rb_root`: a tree in memory
with its parent links, ordered, balanced under a black root, and counted. -/
structure Valid (m : Mem) (t : Shape) : Prop where
  models : Models m t
  ordered : Ordered t
  balanced : ∃ n, Bal t .black n
  count : m.count = t.size

/-- Below a node of an ordered tree, a range that misses it goes to one
side. -/
theorem miss_side {x : NodeData} {s e : ℕ} (h : ¬ Meets x s e) : (e < x.start) ∨ (x.stop < s) := by
  simp only [Meets] at h; omega

/-- **The search is exact**, on any subtree with enough fuel. -/
theorem rbSearchFrom_spec {m : Mem} {t : Shape} {q : Ptr} {s e : ℕ} (hse : s ≤ e) :
    ∀ {fuel : ℕ}, Rep m.heap t q → Ordered t → t.height + 1 ≤ fuel →
    ∃ r, rbSearchFrom m fuel t.rootId s e = some r ∧
      (∀ a, r = some a → ∃ x, (a, x) ∈ t.toList ∧ Meets x s e) ∧
      (r = none → ∀ y ∈ t.toList, ¬ Meets y.2 s e) := by
  induction t generalizing q with
  | nil =>
      intro fuel _ _ hf
      obtain ⟨fuel, rfl⟩ : ∃ f, fuel = f + 1 := ⟨fuel - 1, by omega⟩
      exact ⟨none, rfl, by simp, by simp⟩
  | node a c x l r ihl ihr =>
      intro fuel hrep hord hf
      obtain ⟨fuel, rfl⟩ : ∃ f, fuel = f + 1 := ⟨fuel - 1, by omega⟩
      obtain ⟨ha, hl, hr⟩ := hrep
      obtain ⟨hx, hlx, hrx, hol, hor⟩ := hord
      rw [height] at hf
      simp only [rootId_node, rbSearchFrom, ha, Option.bind_eq_bind, Option.bind_some]
      by_cases hm : Meets x s e
      · rw [if_pos ((checkOverlap_sorted hx hse).2 hm)]
        refine ⟨_, rfl, ?_, by simp⟩
        rintro b hb
        exact ⟨x, by simp [Option.some.inj hb], hm⟩
      · rw [if_neg (mt (checkOverlap_sorted hx hse).1 hm)]
        rcases miss_side hm with hlt | hgt
        · rw [if_pos hlt]
          obtain ⟨r', hrun, hsome, hnone⟩ := ihl hl hol (by omega : l.height + 1 ≤ fuel)
          refine ⟨r', hrun, fun b hb => ?_, fun h y hy => ?_⟩
          · obtain ⟨y, hy, hym⟩ := hsome b hb
            exact ⟨y, by simp [hy], hym⟩
          · rw [toList_node, List.mem_append, List.mem_cons] at hy
            rcases hy with hy | rfl | hy
            · exact hnone h y hy
            · exact hm
            · have := hrx y hy
              simp only [Meets]; omega
        · rw [if_neg (by omega), if_pos hgt]
          obtain ⟨r', hrun, hsome, hnone⟩ := ihr hr hor (by omega : r.height + 1 ≤ fuel)
          refine ⟨r', hrun, fun b hb => ?_, fun h y hy => ?_⟩
          · obtain ⟨y, hy, hym⟩ := hsome b hb
            exact ⟨y, by simp [hy], hym⟩
          · rw [toList_node, List.mem_append, List.mem_cons] at hy
            rcases hy with hy | rfl | hy
            · have := hlx y hy
              simp only [Meets]; omega
            · exact hm
            · exact hnone h y hy

/-- `rb_search` on an ordered tree that `count` does not undercount. -/
theorem rbSearch_of_ordered {m : Mem} {t : Shape} (hm : Models m t) (ho : Ordered t)
    (hc : t.size ≤ m.count) (s e : ℕ) :
    ∃ r, rbSearch m s e = some r ∧
      (∀ a, r = some a → ∃ x, (a, x) ∈ t.toList ∧ Meets x (min s e) (max s e)) ∧
      (r = none → ∀ y ∈ t.toList, ¬ Meets y.2 (min s e) (max s e)) := by
  have hheight := t.height_le_size
  obtain ⟨r, hrun, h⟩ := rbSearchFrom_spec (min_le_max : min s e ≤ max s e) hm.rep ho
    (show t.height + 1 ≤ m.count + 1 by omega)
  refine ⟨r, ?_, h⟩
  rw [rbSearch, sortBounds_eq, hm.root]
  split
  · rename_i hnil
    rw [hnil] at hrun
    exact hrun
  · exact hrun

/-- **`rb_search`** returns a stored interval that meets the one asked
for, and `NULL` only if none does. -/
theorem rbSearch_spec {m : Mem} {t : Shape} (hv : Valid m t) (s e : ℕ) :
    ∃ r, rbSearch m s e = some r ∧
      (∀ a, r = some a → ∃ x, (a, x) ∈ t.toList ∧ Meets x (min s e) (max s e)) ∧
      (r = none → ∀ y ∈ t.toList, ¬ Meets y.2 (min s e) (max s e)) :=
  rbSearch_of_ordered hv.models hv.ordered hv.count.ge s e

end RangeLock

end VmwareProto
