import VmwareProto.RangeLock.Lock
import VmwareProto.RangeLock.Runs
/-!
# Entries and data

What the range lock needs of the tree: the ranges it stores with their
nodes (`entries`), and the fields the lock reads and writes of a node,
whether the node is in the tree or not (`Mem.data`). Each tree operation
is one lemma on these two views.
-/

namespace VmwareProto

namespace RangeLock

open VmwareProto.Tree Ctx

/-- The fields the lock reads of a node. -/
def Mem.data (m : Mem) (a : Addr) : Option NodeData := (m.heap a).map (·.data)

/-- The ranges a tree stores, with their nodes. -/
def entries (t : Shape) : List Range := t.toList.map fun y => ⟨y.2.start, y.2.stop, y.1⟩

variable {m : Mem} {t : Shape} {a b : Addr} {x : NodeData}

theorem ids_eq_entries (t : Shape) : t.ids = (entries t).map Range.node := by
  simp [entries, Tree.ids]

theorem mem_ids_iff_entries : a ∈ t.ids ↔ ∃ r ∈ entries t, r.node = a := by
  rw [ids_eq_entries, List.mem_map]

/-! ## The tree operations on entries and data -/

theorem data_of_mem (hm : Models m t) (hx : (a, x) ∈ t.toList) : m.data a = some x := by
  obtain ⟨K, c, x', l, r, rfl⟩ := exists_fill_of_mem (List.mem_map.2 ⟨_, hx, rfl⟩ : a ∈ t.ids)
  have hx' : (a, x') ∈ (fill K (.node a c x' l r)).toList := by simp [toList_fill]
  obtain rfl : x' = x := congrArg Prod.snd (List.inj_on_of_nodup_map hm.nodup hx' hx rfl)
  simp [Mem.data, (rep_fill.1 hm.rep).1.1]

theorem mem_of_data (hm : Models m t) (ha : a ∈ t.ids) (hx : m.data a = some x) :
    (a, x) ∈ t.toList := by
  obtain ⟨y, hy⟩ := mem_toList_of_mem_ids ha
  rw [data_of_mem hm hy] at hx
  exact Option.some.inj hx ▸ hy

/-- Two trees that agree on a node's data, in two memories, agree on it
there too. -/
theorem data_eq_of_mem {m' : Mem} {t' : Shape} (hm : Models m t) (hm' : Models m' t')
    (h : ∀ x, (b, x) ∈ t.toList → (b, x) ∈ t'.toList) (hb : b ∈ t.ids) : m'.data b = m.data b := by
  obtain ⟨x, hx⟩ := mem_toList_of_mem_ids hb
  rw [data_of_mem hm hx, data_of_mem hm' (h x hx)]

/-- **An insertion where nothing overlaps** adds one entry. -/
theorem rbInsert_data (hv : Valid m t) {s e : ℕ} (ha : m.heap a = none)
    (hmiss : ∀ y ∈ t.toList, ¬ Meets y.2 (min s e) (max s e)) :
    ∃ m' t', rbInsert m s e (some a) = some (m', some a) ∧ Valid m' t' ∧
      (entries t').Perm (⟨min s e, max s e, a⟩ :: entries t) ∧
      m'.data a = some ⟨min s e, max s e, 0, []⟩ ∧ ∀ b, b ≠ a → m'.data b = m.data b := by
  rcases rbInsert_spec hv s e (fun b (hb : some a = some b) => Option.some.inj hb ▸ ha) with
    ⟨c, y, hy, hmeet, -⟩ | ⟨-, ⟨h, -⟩ | ⟨c, m', t', xs, ys, hc, hrun, hv', ht, ht', hframe⟩⟩
  · exact absurd hmeet (hmiss _ hy)
  · cases h
  · obtain rfl : a = c := Option.some.inj hc
    refine ⟨m', t', hrun, hv', ?_, data_of_mem hv'.models (by simp [ht']), fun b hb => ?_⟩
    · simp [entries, ht, ht', List.perm_middle]
    · by_cases hbt : b ∈ t.ids
      · refine data_eq_of_mem hv.models hv'.models (fun y hy => ?_) hbt
        rw [ht, List.mem_append] at hy
        rw [ht', List.mem_append, List.mem_cons]
        tauto
      · rw [Mem.data, Mem.data, hframe b hbt hb]

/-- **A deletion** removes one entry and touches no data. -/
theorem rbDelete_data (hv : Valid m t) {r : Range} (hr : r ∈ entries t) :
    ∃ m' t', rbDelete m (some r.node) = some m' ∧ Valid m' t' ∧
      (entries t).Perm (r :: entries t') ∧ r.node ∉ t'.ids ∧ ∀ b, m'.data b = m.data b := by
  obtain ⟨⟨z, x⟩, hz, rfl⟩ := List.mem_map.1 hr
  obtain ⟨m', t', xs, ys, hrun, hv', ht, ht', hframe⟩ := rbDelete_spec hv hz
  refine ⟨m', t', hrun, hv', ?_, ?_, fun b => ?_⟩
  · simp [entries, ht, ht', List.perm_middle]
  · have hnd := hv.models.nodup
    rw [Tree.ids, ht] at hnd
    rw [Tree.ids, ht']
    simp only [List.map_append, List.map_cons, List.nodup_middle, List.nodup_cons] at hnd ⊢
    exact hnd.1
  · by_cases hbt : b ∈ t'.ids
    · refine (data_eq_of_mem hv'.models hv.models (fun y hy => ?_) hbt).symm
      rw [ht', List.mem_append] at hy
      rw [ht, List.mem_append, List.mem_cons]
      tauto
    · rw [Mem.data, Mem.data, hframe b hbt]

/-- Replacing the data of one node of a tree. -/
theorem setData_tree {f : NodeData → NodeData} {K : ShapeCtx} {c : Color} {l r : Shape}
    (hv : Valid m (fill K (.node a c x l r))) (hstart : (f x).start = x.start)
    (hstop : (f x).stop = x.stop) :
    Valid (m.put a ⟨parentId K, l.rootId, r.rootId, c, f x⟩)
      (fill K (.node a c (f x) l r)) := by
  have hids : (fill K (.node a c (f x) l r)).ids = (fill K (.node a c x l r)).ids := by
    simp [Tree.ids, toList_fill]
  have hlist : ∀ y : NodeData, (fill K (.node a c y l r)).toList =
      (before K ++ l.toList) ++ (a, y) :: (r.toList ++ after K) := fun y => by
    simp [toList_fill]
  obtain ⟨⟨-, hl, hr⟩, hc⟩ := rep_fill.1 hv.models.rep
  have hnd := nodup_fill.1 hv.models.nodup
  rw [ids_node] at hnd
  have hput : ∀ b, b ≠ a → (m.put a ⟨parentId K, l.rootId, r.rootId, c, f x⟩).heap b =
      m.heap b := fun b hb => Mem.heap_put_of_ne hb
  refine ⟨⟨?_, rep_fill.2 ⟨⟨Mem.heap_put_self, ?_, ?_⟩, ?_⟩, ?_⟩, ?_, ?_, ?_⟩
  · rw [Mem.put_root, hv.models.root]
    exact rootId_fill_congr rfl
  · exact hl.frame fun b hb => hput b (by grind)
  · exact hr.frame fun b hb => hput b (by grind)
  · exact hc.frame fun b hb => hput b (by grind)
  · rw [hids]; exact hv.models.nodup
  · have hord := (ordered_iff _).1 hv.ordered
    rw [ordered_iff]
    rw [hlist] at hord ⊢
    refine Ascending.insert (hord.sublist (by simp)) ?_ (fun z hz => ?_) fun z hz => ?_
    · have := hord.proper (a, x) (by simp)
      simp only [hstart, hstop]; exact this
    · have := (List.pairwise_append.1 hord.apart).2.2 z hz (a, x) (by simp)
      simp only [hstart]; exact this
    · have := (List.pairwise_cons.1 (List.pairwise_append.1 hord.apart).2.1).1 z hz
      simp only [hstop]; exact this
  · obtain ⟨n, hn⟩ := hv.balanced
    obtain ⟨c', k, hnode, hcb⟩ := exists_cbal hn
    refine hcb.fill (t := .node a c (f x) l r) ?_
    cases hnode with
    | red hl hr => exact .red hl hr
    | black hl hr => exact .black hl hr
  · rw [Mem.put_count, hv.count, size, size, hlist, hlist]
    simp

/-- **Writing a node's data**, in the tree or out of it. -/
theorem setData_spec (hv : Valid m t) {f : NodeData → NodeData} (hx : m.data a = some x)
    (hstart : (f x).start = x.start) (hstop : (f x).stop = x.stop) :
    ∃ m' t', m.modify (some a) (·.setData f) = some m' ∧ Valid m' t' ∧ entries t' = entries t ∧
      m'.data a = some (f x) ∧ ∀ b, b ≠ a → m'.data b = m.data b := by
  obtain ⟨n, hn, rfl⟩ := Option.map_eq_some_iff.1 hx
  have hdata : (m.put a (n.setData f)).data a = some (f n.data) := by
    simp [Mem.data, RbNode.setData]
  have hrest : ∀ b, b ≠ a → (m.put a (n.setData f)).data b = m.data b := fun b hb => by
    simp [Mem.data, Mem.heap_put_of_ne hb]
  by_cases ha : a ∈ t.ids
  · obtain ⟨K, c, x', l, r, rfl⟩ := exists_fill_of_mem ha
    obtain rfl : n = ⟨parentId K, l.rootId, r.rootId, c, x'⟩ := by
      have := (rep_fill.1 hv.models.rep).1.1
      rw [hn] at this
      exact Option.some.inj this
    refine ⟨_, _, Mem.modify_some hn, setData_tree hv hstart hstop, ?_, hdata, hrest⟩
    simp [entries, toList_fill, show (f x').start = x'.start from hstart,
      show (f x').stop = x'.stop from hstop]
  · refine ⟨_, t, Mem.modify_some hn, hv.of_frame rfl rfl fun b hb => ?_, rfl, hdata, hrest⟩
    exact Mem.heap_put_of_ne fun e => ha (e ▸ hb)

/-- **`free_node` of a node outside the tree.** -/
theorem free_data (hv : Valid m t) (ha : a ∉ t.ids) :
    Valid (m.free a) t ∧ (m.free a).data a = none ∧ ∀ b, b ≠ a → (m.free a).data b = m.data b :=
  ⟨hv.free ha, by simp [Mem.data, Mem.free], fun b hb => by
    simp [Mem.data, Mem.heap_free_of_ne hb]⟩

end RangeLock

end VmwareProto
