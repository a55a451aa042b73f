import VmwareProto.RangeLock.DeleteFixup
/-!
# Deletion

`rb_delete` cuts one node out of the pointer structure and hands the fixup
a hole. With at most one child the node is spliced out (`unlink_spec`);
with two, its successor is detached and put in its place
(`detachSuccessor_spec`, `installSuccessor_spec`), keeping its own address
and data and taking over the deleted node's colour. Either way the tree
that is left is the old one without the node, and the node's own memory
is not written.
-/

namespace VmwareProto

namespace RangeLock

open VmwareProto.Tree Ctx

variable {m : Mem} {K : ShapeCtx} {t u X zl R : Shape} {n : ℕ} {d : Dir} {z y : Addr}
  {c cz cy : Color} {zx yx : NodeData} {q : Ptr}

/-- **`rb_transplant`**: the subtree `u` takes the place of the one rooted
at `v`. -/
theorem rbTransplant_spec {v : Addr} {n : RbNode} (hroot : m.root = (fill K t).rootId)
    (ht : t.rootId = some v) (hv : m.heap v = some n) (hpar : n.parent = parentId K)
    (hc : CRep m.heap K (some v)) (hu : Rep m.heap u q) (hnd : u.ids.Nodup)
    (hctx : (Ctx.ids K).Nodup) (hvc : v ∉ Ctx.ids K) (hdisj : ∀ a ∈ u.ids, a ∉ Ctx.ids K) :
    ∃ m', rbTransplant m (some v) u.rootId = some m' ∧ m'.root = (fill K u).rootId ∧
      m'.count = m.count ∧ CRep m'.heap K u.rootId ∧ Rep m'.heap u (parentId K) ∧
      ∀ a, some a ≠ parentId K → some a ≠ u.rootId → m'.heap a = m.heap a := by
  obtain ⟨m₁, hrun₁, hroot₁, hcount₁, hc₁, h₁⟩ := replaceChild_spec hroot ht hc hvc hctx u
  have hu₁ : Rep m₁.heap u q := hu.frame fun a ha => h₁ a (parentId_ne (hdisj a ha))
  obtain ⟨m₂, hrun₂, hroot₂, hcount₂, hu₂, h₂⟩ := adopt_spec hu₁ hnd (parentId K)
  have hv₁ : m₁.heap v = some n := by rw [h₁ v (parentId_ne hvc)]; exact hv
  refine ⟨m₂, ?_, hroot₂.trans hroot₁, hcount₂.trans hcount₁, ?_, hu₂, fun a ha hau => ?_⟩
  · simp only [rbTransplant, Mem.load_some, hv, hpar, hrun₁, hv₁, hrun₂, Option.bind_eq_bind,
      Option.bind_some]
  · exact hc₁.frame fun a ha => h₂ a fun h => hdisj a (mem_ids_of_rootId h.symm) ha
  · rw [h₂ a hau, h₁ a ha]

/-! ## At most one child -/

/-- **Splicing out** a node without a child on side `d`. -/
theorem unlink_spec (hm : Models m (fill K (nodeAt d z c zx .nil X))) :
    ∃ m', rbTransplant m (some z) X.rootId = some m' ∧ Models m' (fill K X) ∧
      m'.count = m.count ∧ ∀ a ∉ (fill K X).ids, m'.heap a = m.heap a := by
  have hnd := hm.nodup_nodeAt
  obtain ⟨hrep, hcrep⟩ := rep_fill.1 hm.rep
  obtain ⟨hz, -, hX⟩ := rep_nodeAt.1 hrep
  simp only [ids_nil, List.nil_append, List.cons_append, List.nodup_cons, List.mem_append,
    not_or, List.nodup_append] at hnd
  obtain ⟨⟨hzX, hzc⟩, hXnd, hcnd, hdisj⟩ := hnd
  have hdisj' : ∀ a ∈ X.ids, a ∉ Ctx.ids K := fun a ha hb => hdisj a ha a hb rfl
  rw [rootId_nodeAt] at hcrep
  obtain ⟨m', hrun, hroot, hcount, hc', hX', hframe⟩ :=
    rbTransplant_spec (t := nodeAt d z c zx .nil X) hm.root (by simp) hz (cell_parent ..) hcrep hX
      hXnd hcnd hzc hdisj'
  refine ⟨m', hrun, ⟨hroot, rep_fill.2 ⟨hX', hc'⟩, nodup_fill.2 ?_⟩, hcount, fun a ha => ?_⟩
  · exact List.nodup_append.2 ⟨hXnd, hcnd, hdisj⟩
  · rw [mem_ids_fill, not_or] at ha
    exact hframe a (parentId_ne ha.2) fun h => ha.1 (mem_ids_of_rootId h.symm)

/-! ## Two children -/

theorem before_of_left {lp : ShapeCtx} (h : ∀ f ∈ lp, f.dir = .left) : before lp = [] := by
  induction lp with
  | nil => rfl
  | cons f fs ih =>
      simp only [before, h f (by simp)]
      exact ih fun g hg => h g (by simp [hg])

/-- **`rb_minimum`** finds the first node, under a path of left turns. -/
theorem rbMinimumLoop_spec : ∀ {t : Shape} {q : Ptr} {fuel : ℕ}, t ≠ .nil → Rep m.heap t q →
    t.size ≤ fuel → ∃ lp y cy yx yr, t = fill lp (.node y cy yx .nil yr) ∧
      (∀ f ∈ lp, f.dir = .left) ∧ rbMinimumLoop m fuel t.rootId = some (some y) := by
  intro t
  induction t with
  | nil => intro _ _ h; exact absurd rfl h
  | node a c x l r ihl _ =>
      intro q fuel _ hrep hf
      rw [size_node] at hf
      obtain ⟨fuel, rfl⟩ : ∃ f, fuel = f + 1 := ⟨fuel - 1, by omega⟩
      obtain ⟨ha, hl, hr⟩ := hrep
      cases l with
      | nil =>
          refine ⟨[], a, c, x, r, rfl, by simp, ?_⟩
          simp [rbMinimumLoop, ha]
      | node b cb xb lb rb =>
          obtain ⟨lp, y, cy, yx, yr, heq, hlp, hrun⟩ :=
            ihl (by simp) hl (show _ ≤ fuel by omega)
          refine ⟨lp ++ [⟨.left, a, c, x, r⟩], y, cy, yx, yr, ?_, ?_, ?_⟩
          · rw [fill_append, ← heq]; rfl
          · simp only [List.mem_append, List.mem_singleton]
            rintro f (hf | rfl)
            · exact hlp f hf
            · rfl
          · simpa [rbMinimumLoop, ha] using hrun

/-- The state in which the successor `y`, already in charge of the right
subtree `R`, is about to take the place of `z`. -/
structure Splicing (m : Mem) (K : ShapeCtx) (z y : Addr) (cz cy : Color) (zx yx : NodeData)
    (zl R : Shape) : Prop where
  root : m.root = (fill K (.node z cz zx zl R)).rootId
  heap_z : ∃ rz, m.heap z = some ⟨parentId K, zl.rootId, rz, cz, zx⟩
  heap_y : ∃ py, m.heap y = some ⟨py, none, R.rootId, cy, yx⟩
  rep_right : Rep m.heap R (some y)
  rep_left : Rep m.heap zl (some z)
  crep : CRep m.heap K (some z)
  nodup : (z :: y :: (zl.ids ++ R.ids) ++ Ctx.ids K).Nodup

/-- **The successor installed.** -/
theorem installSuccessor_spec (h : Splicing m K z y cz cy zx yx zl R) (hzl : zl ≠ .nil) :
    ∃ m', installSuccessor m (some z) (some y) = some m' ∧
      Models m' (fill K (.node y cz yx zl R)) ∧ m'.count = m.count ∧
      ∀ a ∉ (fill K (.node y cz yx zl R)).ids, m'.heap a = m.heap a := by
  obtain ⟨rz, hz⟩ := h.heap_z
  obtain ⟨py, hy⟩ := h.heap_y
  have hnd := h.nodup
  have hzy : z ≠ y := by grind
  have hz' : z ∉ zl.ids ∧ z ∉ R.ids ∧ z ∉ Ctx.ids K := by grind
  have hy' : y ∉ zl.ids ∧ y ∉ R.ids ∧ y ∉ Ctx.ids K := by grind
  have hlnd : zl.ids.Nodup := by grind
  have hldisj : ∀ a ∈ zl.ids, a ∉ R.ids ∧ a ∉ Ctx.ids K := by grind
  have hRdisj : ∀ a ∈ R.ids, a ∉ Ctx.ids K := by grind
  have hund : (Tree.node y cy yx .nil R : Shape).ids.Nodup := by
    simp only [ids_node, ids_nil, List.nil_append]; grind
  obtain ⟨m₁, hrun₁, hroot₁, hcount₁, hc₁, hu₁, h₁⟩ :=
    rbTransplant_spec (u := .node y cy yx .nil R) (q := py) h.root rfl hz rfl h.crep
      ⟨hy, trivial, h.rep_right⟩ hund (by grind) hz'.2.2 (by
        simp only [ids_node, ids_nil, List.nil_append, List.mem_cons]
        rintro a (rfl | ha)
        · exact hy'.2.2
        · exact hRdisj a ha)
  obtain ⟨hy₁, -, hR₁⟩ := hu₁
  rw [rootId_node] at hc₁ h₁
  have hz₁ : m₁.heap z = some ⟨parentId K, zl.rootId, rz, cz, zx⟩ := by
    rw [h₁ z (parentId_ne hz'.2.2) (by simpa using hzy)]; exact hz
  -- the left subtree changes hands
  set m₂ := m₁.put y ⟨parentId K, zl.rootId, R.rootId, cy, yx⟩ with hm₂
  have h₂ : ∀ a, a ≠ y → m₂.heap a = m₁.heap a := fun a ha => Mem.heap_put_of_ne ha
  have hl₂ : Rep m₂.heap zl (some z) := h.rep_left.frame fun a ha => by
    have hay : a ≠ y := fun e => hy'.1 (e ▸ ha)
    rw [h₂ a hay, h₁ a (parentId_ne (hldisj a ha).2) (by simpa using hay)]
  obtain ⟨m₃, hrun₃, hroot₃, hcount₃, hl₃, h₃⟩ := adopt_spec hl₂ hlnd (some y)
  have hrun₃' : m₂.modify zl.rootId (·.setParent (some y)) = some m₃ := by
    cases zl with
    | nil => exact absurd rfl hzl
    | node a c x l r => exact hrun₃
  have hl₃' : ∀ a, a ∉ zl.ids → m₃.heap a = m₂.heap a := fun a ha =>
    h₃ a fun e => ha (mem_ids_of_rootId e.symm)
  have hy₃ : m₃.heap y = some ⟨parentId K, zl.rootId, R.rootId, cy, yx⟩ := by
    rw [hl₃' y hy'.1, hm₂, Mem.heap_put_self]
  set m₄ := m₃.put y ⟨parentId K, zl.rootId, R.rootId, cz, yx⟩ with hm₄
  have h₄ : ∀ a, a ≠ y → m₄.heap a = m₃.heap a := fun a ha => Mem.heap_put_of_ne ha
  have hfar : ∀ a, a ≠ y → a ∉ zl.ids → m₄.heap a = m₁.heap a := fun a hay hal => by
    rw [h₄ a hay, hl₃' a hal, h₂ a hay]
  refine ⟨m₄, ?_, ⟨?_, rep_fill.2 ⟨⟨Mem.heap_put_self, ?_, ?_⟩, ?_⟩, nodup_fill.2 ?_⟩, ?_, ?_⟩
  · simp only [rootId_node] at hrun₁
    simp only [installSuccessor, hrun₁, Mem.load_some, hz₁, Mem.modify_some hy₁, RbNode.setChild, ← hm₂, hrun₃', Mem.modify_some hy₃, RbNode.setColor, ← hm₄, Option.bind_eq_bind,
      Option.bind_some]
  · rw [hm₄, Mem.put_root, hroot₃, hm₂, Mem.put_root, hroot₁]
    exact rootId_fill_congr (by simp)
  · exact hl₃.frame fun a ha => h₄ a fun e => hy'.1 (e ▸ ha)
  · exact hR₁.frame fun a ha =>
      hfar a (fun e => hy'.2.1 (e ▸ ha)) fun hl => (hldisj a hl).1 ha
  · exact hc₁.frame fun a ha =>
      hfar a (fun e => hy'.2.2 (e ▸ ha)) fun hl => (hldisj a hl).2 ha
  · simp only [ids_node]; grind
  · rw [hm₄, Mem.put_count, hcount₃, hm₂, Mem.put_count, hcount₁]
  · intro a ha
    simp only [mem_ids_fill, ids_node, List.mem_append, List.mem_cons, not_or] at ha
    rw [hfar a ha.1.2.1 ha.1.1, h₁ a (parentId_ne ha.2) (by simpa using ha.1.2.1)]

theorem ids_append : ∀ (fs gs : ShapeCtx), Ctx.ids (fs ++ gs) = Ctx.ids fs ++ Ctx.ids gs
  | [], _ => rfl
  | f :: fs, gs => by simp [Ctx.ids, ids_append fs gs]

/-- **The successor detached**, from under at least one left turn. -/
theorem detachSuccessor_spec {f : Frame Addr NodeData} {lp : ShapeCtx} {yr : Shape}
    (hm : Models m (fill K (.node z cz zx zl (fill (f :: lp) (.node y cy yx .nil yr))))) :
    ∃ m', detachSuccessor m (some z) (some y) = some m' ∧
      Splicing m' K z y cz cy zx yx zl (fill (f :: lp) yr) ∧ m'.count = m.count ∧
      ∀ a, a ∉ (fill (f :: lp) yr).ids → a ≠ y → m'.heap a = m.heap a := by
  -- the same tree seen from the successor, and without it
  have hfill : ∀ t : Shape, fill (f :: lp ++ ⟨.right, z, cz, zx, zl⟩ :: K) t =
      fill K (.node z cz zx zl (fill (f :: lp) t)) := fun t => by rw [fill_append]; rfl
  rw [← hfill] at hm
  obtain ⟨hrep, hcrep⟩ := rep_fill.1 hm.rep
  obtain ⟨hy, -, hyr⟩ := hrep
  have hnd := nodup_fill.1 hm.nodup
  rw [ids_append, ids_node, ids_nil, List.nil_append] at hnd
  simp only [Ctx.ids, List.cons_append] at hnd
  have hRperm := ids_fill_perm (f :: lp) yr
  set R := fill (f :: lp) yr with hR
  have hRmem : ∀ a, a ∈ R.ids ↔ a ∈ yr.ids ∨ a ∈ Ctx.ids (f :: lp) := fun a => by
    rw [hRperm.mem_iff, List.mem_append]
  simp only [Ctx.ids, List.mem_cons, List.mem_append] at hRmem
  have hRnd : R.ids.Nodup := by
    rw [hRperm.nodup_iff]; simp only [Ctx.ids]; grind
  have hyL : y ∉ Ctx.ids (f :: lp ++ ⟨.right, z, cz, zx, zl⟩ :: K) := by
    rw [ids_append]; simp only [Ctx.ids, List.cons_append]; grind
  obtain ⟨m₁, hrun₁, hroot₁, hcount₁, hc₁, hyr₁, h₁⟩ :=
    rbTransplant_spec (u := yr) hm.root rfl hy rfl hcrep hyr (by grind) (by
      rw [ids_append]; simp only [Ctx.ids, List.cons_append]; grind) hyL (by
      rw [ids_append]; simp only [Ctx.ids, List.cons_append]; grind)
  have hrep₁ : Rep m₁.heap (fill K (.node z cz zx zl R)) none := by
    rw [hR, ← hfill]; exact rep_fill.2 ⟨hyr₁, hc₁⟩
  obtain ⟨⟨hz₁, hzl₁, hR₁⟩, hctx₁⟩ := rep_fill.1 hrep₁
  have hyyr : some y ≠ yr.rootId := fun e => by
    have := mem_ids_of_rootId e.symm; grind
  have hy₁ := (h₁ y (parentId_ne hyL) hyyr).trans hy
  have hzy : z ≠ y := by grind
  have hyR : y ∉ R.ids := by grind
  have hzR : z ∉ R.ids := by grind
  obtain ⟨r, hr⟩ : ∃ r, R.rootId = some r := by
    have : R.ids ≠ [] := fun h => by
      have := (hRmem f.id).2 (.inr (.inl rfl)); rw [h] at this; simp at this
    cases hcase : R with
    | nil => rw [hcase] at this; simp at this
    | node a c x l r => exact ⟨a, rfl⟩
  set m₂ := m₁.put y ⟨some f.id, none, R.rootId, cy, yx⟩ with hm₂
  have h₂ : ∀ a, a ≠ y → m₂.heap a = m₁.heap a := fun a ha => Mem.heap_put_of_ne ha
  have hR₂ : Rep m₂.heap R (some z) := hR₁.frame fun a ha => h₂ a fun e => hyR (e ▸ ha)
  obtain ⟨m₃, hrun₃, hroot₃, hcount₃, hR₃, h₃⟩ := adopt_spec hR₂ hRnd (some y)
  have h₃' : ∀ a, a ∉ R.ids → m₃.heap a = m₂.heap a := fun a ha =>
    h₃ a fun e => ha (mem_ids_of_rootId e.symm)
  have hall : ∀ a, a ≠ y → a ∉ R.ids → m₃.heap a = m₁.heap a := fun a hay haR => by
    rw [h₃' a haR, h₂ a hay]
  refine ⟨m₃, ?_, ⟨?_, ⟨R.rootId, ?_⟩, ⟨some f.id, ?_⟩, hR₃, ?_, ?_, ?_⟩, ?_, ?_⟩
  · have hrun₃' : m₂.modify R.rootId (·.setParent (some y)) = some m₃ := by
      rw [hr] at hrun₃ ⊢; exact hrun₃
    simp only [detachSuccessor, Mem.load_some, hy, hrun₁, hz₁, Mem.modify_some hy₁,
      RbNode.setChild, List.cons_append, parentId_cons, rootId_nil, ← hm₂, hrun₃',
      Option.bind_eq_bind, Option.bind_some]
  · rw [hroot₃, hm₂, Mem.put_root, hroot₁, hR, ← hfill]
  · rw [hall z hzy hzR]; exact hz₁
  · rw [h₃' y hyR, hm₂, Mem.heap_put_self]
  · exact hzl₁.frame fun a ha => hall a (by grind) (by grind)
  · exact hctx₁.frame fun a ha => hall a (by grind) (by grind)
  · refine (List.Perm.nodup_iff ?_).1 hnd
    rw [List.perm_iff_count]
    intro a
    have := hRperm.count_eq a
    simp only [Ctx.ids, List.cons_append, List.count_cons, List.count_append] at this ⊢
    omega
  · rw [hcount₃, hm₂, Mem.put_count, hcount₁]
  · intro a haR hay
    rw [hall a hay haR]
    refine h₁ a (fun e => ?_) fun e => haR ((hRmem a).2 (.inl (mem_ids_of_rootId e.symm)))
    have : a = f.id := by simpa using e
    exact haR ((hRmem a).2 (.inr (.inl this)))

/-- The successor that is `z`'s own right child needs no detaching: its
right subtree is told a parent it already has. -/
theorem directSuccessor_spec {yr : Shape}
    (hm : Models m (fill K (.node z cz zx zl (.node y cy yx .nil yr)))) :
    ∃ m', adopt m yr.rootId (some y) = some m' ∧ Splicing m' K z y cz cy zx yx zl yr ∧
      m'.count = m.count ∧ ∀ a, a ∉ yr.ids → m'.heap a = m.heap a := by
  obtain ⟨⟨hz, hzl, hy, -, hyr⟩, hcrep⟩ := rep_fill.1 hm.rep
  have hnd := nodup_fill.1 hm.nodup
  simp only [ids_node, ids_nil, List.nil_append] at hnd
  obtain ⟨m', hrun, hroot, hcount, hyr', hframe⟩ := adopt_spec hyr (by grind) (some y)
  have hout : ∀ a, a ∉ yr.ids → m'.heap a = m.heap a := fun a ha =>
    hframe a fun e => ha (mem_ids_of_rootId e.symm)
  refine ⟨m', hrun, ⟨?_, ⟨some y, ?_⟩, ⟨some z, ?_⟩, hyr', ?_, ?_, ?_⟩, hcount, hout⟩
  · rw [hroot, hm.root]
    exact rootId_fill_congr rfl
  · rw [hout z (by grind)]; exact hz
  · rw [hout y (by grind)]; exact hy
  · exact hzl.frame fun a ha => hout a (by grind)
  · exact hcrep.frame fun a ha => hout a (by grind)
  · refine (List.Perm.nodup_iff ?_).1 hnd
    rw [List.perm_iff_count]
    intro a
    simp only [List.cons_append, List.count_cons, List.count_append]
    omega

theorem Models.parentIs_child {e : Dir} (hm : Models m (fill K (nodeAt e z c zx X u))) :
    parentIs m u.rootId (some z) = some true := by
  obtain ⟨-, -, hu⟩ := rep_nodeAt.1 (rep_fill.1 hm.rep).1
  cases u with
  | nil => rfl
  | node a c x l r => simp [parentIs, hu.1]

/-- **The two-child case**: the first node `y` of the right subtree takes
the place of `z`, and `x` is what hung below `y`. -/
theorem deleteSplice_spec {zr : Shape} (hm : Models m (fill K (.node z cz zx zl zr)))
    (hzl : zl ≠ .nil) (hzr : zr ≠ .nil) (hcount : zr.size ≤ m.count) :
    ∃ m' lp y cy yx yr, zr = fill lp (.node y cy yx .nil yr) ∧ (∀ f ∈ lp, f.dir = .left) ∧
      deleteSplice m (some z) =
        some (m', yr.rootId, parentId (lp ++ ⟨.right, y, cz, yx, zl⟩ :: K), cy) ∧
      Models m' (fill (lp ++ ⟨.right, y, cz, yx, zl⟩ :: K) yr) ∧ m'.count = m.count ∧
      ∀ a ∉ (fill (lp ++ ⟨.right, y, cz, yx, zl⟩ :: K) yr).ids, m'.heap a = m.heap a := by
  obtain ⟨⟨hz, -, hrep⟩, -⟩ := rep_fill.1 hm.rep
  obtain ⟨lp, y, cy, yx, yr, rfl, hlp, hmin⟩ :=
    rbMinimumLoop_spec hzr hrep (show zr.size ≤ m.count + 1 by omega)
  have hroot : m.root ≠ none := fun e => by
    have := (fill_eq_nil (K := K) (t := .node z cz zx zl (fill lp (.node y cy yx .nil yr)))
      (by rw [hm.root] at e; generalize fill K _ = t at e; cases t <;> simp_all)).2
    cases this
  have hl : zl.rootId ≠ none := by cases zl <;> simp_all
  have hr : (fill lp (.node y cy yx .nil yr)).rootId ≠ none := by
    generalize fill lp _ = t at hzr; cases t <;> simp_all
  have hmin' : rbMinimum m (fill lp (.node y cy yx .nil yr)).rootId = some (some y) := by
    rw [rbMinimum, if_neg (by tauto), hmin]
  have hfill : ∀ t, fill (lp ++ ⟨.right, y, cz, yx, zl⟩ :: K) t =
      fill K (.node y cz yx zl (fill lp t)) := fun t => by rw [fill_append]; rfl
  have hy := hrep
  cases lp with
  | nil =>
      obtain ⟨m₁, hrun₁, hsp, hcount₁, h₁⟩ := directSuccessor_spec hm
      obtain ⟨m₂, hrun₂, hm₂, hcount₂, h₂⟩ := installSuccessor_spec hsp hzl
      refine ⟨m₂, [], y, cy, yx, yr, rfl, hlp, ?_, hm₂, hcount₂.trans hcount₁, fun a ha => ?_⟩
      · have hpar := Models.parentIs_child (e := .left) (u := yr) (X := .nil) (z := y)
          (c := cy) (K := ⟨.right, z, cz, zx, zl⟩ :: K) hm
        simp only [fill_nil] at hy hmin' hr
        simp only [rootId_node] at hmin' hr
        simp [deleteSplice, hz, hl, hmin', hy.1, hpar, hrun₁, hrun₂, guard]
      · have ha' := ha
        simp only [List.nil_append, fill_cons, nodeAt, mem_ids_fill, ids_node, List.mem_append,
          List.mem_cons, not_or] at ha'
        rw [h₂ a ha, h₁ a ha'.1.2.2]
  | cons f lp =>
      obtain ⟨m₁, hrun₁, hsp, hcount₁, h₁⟩ := detachSuccessor_spec hm
      obtain ⟨m₂, hrun₂, hm₂, hcount₂, h₂⟩ := installSuccessor_spec hsp hzl
      rw [← hfill] at hm₂ h₂
      refine ⟨m₂, f :: lp, y, cy, yx, yr, rfl, hlp, ?_, hm₂, hcount₂.trans hcount₁, fun a ha => ?_⟩
      · have hyn : m.heap y = some ⟨some f.id, none, yr.rootId, cy, yx⟩ := by
          have hm' : Models m (fill (f :: lp ++ ⟨.right, z, cz, zx, zl⟩ :: K)
              (.node y cy yx .nil yr)) := by
            rw [fill_append]; exact hm
          exact (rep_fill.1 hm'.rep).1.1
        have hfz : f.id ≠ z := by
          have hnd := hm.nodup_nodeAt (d := .right)
          intro e
          have hf : f.id ∈ (fill (f :: lp) (.node y cy yx .nil yr)).ids :=
            mem_ids_fill.2 (.inr (by simp [Ctx.ids]))
          grind
        simp [deleteSplice, hz, hl, hr, hmin', hyn, hfz, hrun₁, hrun₂, guard]
      · have ha' := ha
        rw [hfill] at ha'
        simp only [mem_ids_fill, ids_node, List.mem_append, List.mem_cons,
          not_or] at ha'
        rw [h₂ a ha, h₁ a (by rw [mem_ids_fill, not_or]; exact ha'.1.2.2) ha'.1.2.1]

/-! ## The whole deletion -/

/-- A context's balance does not depend on what its nodes are called. -/
theorem CBal.relabel {lp : ShapeCtx} (h : CBal (lp ++ ⟨d, z, cz, zx, zl⟩ :: K) c n) :
    CBal (lp ++ ⟨d, y, cz, yx, zl⟩ :: K) c n := by
  induction lp generalizing c n with
  | nil =>
      cases h with
      | red hs hf => exact .red hs hf
      | black hs hf => exact .black hs hf
  | cons f lp ih =>
      cases h with
      | red hs hf => exact .red hs (ih hf)
      | black hs hf => exact .black hs (ih hf)

/-- **What is left to do** once a node of colour `c` with at most one
child `X` is gone: nothing if it was red, the fixup if it was black. -/
theorem afterUnlink_spec (hm : Models m (fill K X)) (hb : Bal (nodeAt d z c zx .nil X) c n)
    (hc : CBal K c n) (hcount : K.length + 1 ≤ m.count) :
    ∃ m' t' k, (if c = .black then rbDeleteFixup m X.rootId (parentId K) else some m) = some m' ∧
      Evolves m m' (fill K X) t' ∧ Bal t' .black k := by
  cases c with
  | red =>
      obtain ⟨-, -, hX⟩ := bal_nodeAt_red.1 hb
      obtain ⟨k, hk⟩ := hc.of_red.fill hX
      exact ⟨m, _, k, by simp, hm.evolves_refl, hk⟩
  | black =>
      obtain ⟨-, c₁, c₂, j, rfl, -, hX⟩ := bal_nodeAt_black.1 hb
      rw [if_pos rfl]
      exact rbDeleteFixup_spec hm hX hc hcount

/-- A node with at most one child is spliced out and the tree rebalanced. -/
theorem deleteUnlink_spec (hm : Models m (fill K (nodeAt d z c zx .nil X)))
    (hb : ∃ n, Bal (fill K (nodeAt d z c zx .nil X)) .black n)
    (hcount : m.count = (fill K (nodeAt d z c zx .nil X)).size) :
    ∃ m₁ m' t' k, rbTransplant m (some z) X.rootId = some m₁ ∧
      (if c = .black then rbDeleteFixup m₁ X.rootId (parentId K) else some m₁) = some m' ∧
      Models m' t' ∧ t'.toList = (fill K X).toList ∧ Bal t' .black k ∧ m'.count = m.count ∧
      ∀ a ∉ t'.ids, m'.heap a = m.heap a := by
  obtain ⟨m₁, hrun₁, hm₁, hcount₁, h₁⟩ := unlink_spec hm
  obtain ⟨n, hb⟩ := hb
  obtain ⟨c', k, hnode, hc⟩ := exists_cbal hb
  have hc' : c' = c := by
    cases c with
    | red => exact (bal_nodeAt_red.1 hnode).1
    | black => exact (bal_nodeAt_black.1 hnode).1
  subst hc'
  have hlen := length_le_size K (nodeAt d z c' zx .nil X)
  have hpos : 0 < (nodeAt d z c' zx (.nil : Shape) X).size := by
    cases d <;> simp [nodeAt]
  obtain ⟨m', t', k', hrun', hev, hbal⟩ := afterUnlink_spec hm₁ hnode hc (by omega)
  refine ⟨m₁, m', t', k', hrun₁, hrun', hev.models, hev.content, hbal, hev.count.trans hcount₁,
    fun a ha => ?_⟩
  rw [ids_eq_of_content hev.content] at ha
  rw [hev.frame a ha, h₁ a ha]

/-- **`rb_delete`** removes exactly the node it is given. Every other node
keeps its address and data; the node itself is not written. -/
theorem rbDelete_spec {x : NodeData} (hv : Valid m t) (hz : (z, x) ∈ t.toList) :
    ∃ m' t' xs ys, rbDelete m (some z) = some m' ∧ Valid m' t' ∧
      t.toList = xs ++ (z, x) :: ys ∧ t'.toList = xs ++ ys ∧
      ∀ a ∉ t'.ids, m'.heap a = m.heap a := by
  have hmem : z ∈ t.ids := List.mem_map.2 ⟨_, hz, rfl⟩
  obtain ⟨K, c, x', l, r, rfl⟩ := exists_fill_of_mem hmem
  have hm := hv.models
  have hzh : m.heap z = some ⟨parentId K, l.rootId, r.rootId, c, x'⟩ := (rep_fill.1 hm.rep).1.1
  have hroot : m.root ≠ none := fun e => by
    have := (fill_eq_nil (K := K) (t := .node z c x' l r)
      (by rw [hm.root] at e; generalize fill K _ = t at e; cases t <;> simp_all)).2
    cases this
  -- the node asked for is the one found
  have hlist : (fill K (.node z c x' l r)).toList =
      (before K ++ l.toList) ++ (z, x') :: (r.toList ++ after K) := by
    simp [toList_fill]
  have hx : x' = x := by
    have hz' : (z, x') ∈ (fill K (.node z c x' l r)).toList := by simp [hlist]
    exact congrArg Prod.snd (List.inj_on_of_nodup_map hm.nodup hz' hz rfl)
  subst hx
  -- whichever way the node goes, this is what has to be shown of the result
  have finish : ∀ m' t' k, Models m' t' → t'.toList =
      (before K ++ l.toList) ++ (r.toList ++ after K) → Bal t' .black k →
      m'.count = m.count → Valid { m' with count := m'.count - 1 } t' := by
    intro m' t' k hm' hcont hb' hcount'
    refine ⟨⟨hm'.root, hm'.rep, hm'.nodup⟩, ?_, ⟨k, hb'⟩, ?_⟩
    · rw [ordered_iff, hcont]
      refine ((ordered_iff _).1 hv.ordered).sublist ?_
      rw [hlist]
      exact List.Sublist.append_left (List.sublist_cons_self _ _) _
    · rw [show m'.count = m.count from hcount', hv.count, size, size, hlist, hcont]
      simp only [List.length_append, List.length_cons]
      omega
  by_cases hl : l = .nil
  · subst hl
    obtain ⟨m₁, m', t', k, hrun₁, hrun, hm', hcont, hb', hcount', hframe⟩ :=
      deleteUnlink_spec (d := .left) hm hv.balanced hv.count
    have hcont' : t'.toList = (before K ++ [] ++ (r.toList ++ after K)) := by
      rw [hcont, toList_fill]; simp
    refine ⟨_, t', _, _, ?_, finish m' t' k hm' (by simpa using hcont') hb' hcount', hlist,
      by simpa using hcont', hframe⟩
    simp only [rbDelete, hroot, reduceCtorEq, or_self, if_false, Mem.load_some, hzh,
      Option.bind_eq_bind, Option.bind_some, rootId_nil, if_true, hrun₁]
    by_cases hcb : c = .black <;>
      simp only [hcb, if_true, if_false, Option.some.injEq] at hrun ⊢ <;>
      simp only [hrun, Option.bind_some]
  · have hl' : l.rootId ≠ none := by cases l <;> simp_all
    by_cases hr : r = .nil
    · subst hr
      obtain ⟨m₁, m', t', k, hrun₁, hrun, hm', hcont, hb', hcount', hframe⟩ :=
        deleteUnlink_spec (d := .right) hm hv.balanced hv.count
      have hcont' : t'.toList = (before K ++ l.toList ++ ([] ++ after K)) := by
        rw [hcont, toList_fill]; simp
      refine ⟨_, t', _, _, ?_, finish m' t' k hm' (by simpa using hcont') hb' hcount', hlist,
        by simpa using hcont', hframe⟩
      simp only [rbDelete, hroot, reduceCtorEq, or_self, if_false, Mem.load_some, hzh,
        Option.bind_eq_bind, Option.bind_some, rootId_nil, if_neg hl', if_true, hrun₁]
      by_cases hcb : c = .black <;>
        simp only [hcb, if_true, if_false, Option.some.injEq] at hrun ⊢ <;>
        simp only [hrun, Option.bind_some]
    · have hr' : r.rootId ≠ none := by cases r <;> simp_all
      have hsize := length_le_size K (.node z c x' l r)
      rw [size_node] at hsize
      obtain ⟨m₁, lp, y, cy, yx, yr, rfl, hlp, hrun₁, hm₁, hcount₁, h₁⟩ :=
        deleteSplice_spec hm hl hr (by rw [hv.count]; omega)
      -- the balance, seen from the successor
      have hfill : fill K (.node z c x' l (fill lp (.node y cy yx .nil yr))) =
          fill (lp ++ ⟨.right, z, c, x', l⟩ :: K) (.node y cy yx .nil yr) := by
        rw [fill_append]; rfl
      obtain ⟨n, hb⟩ := hv.balanced
      rw [hfill] at hb
      obtain ⟨c', k, hnode, hc⟩ := exists_cbal hb
      have hc' : c' = cy := by cases hnode <;> rfl
      subst hc'
      have hlen := length_le_size (lp ++ ⟨.right, z, c, x', l⟩ :: K) (.node y c' yx .nil yr)
      rw [← hfill, ← hv.count, size_node] at hlen
      simp only [List.length_append, List.length_cons] at hlen
      obtain ⟨m', t', k', hrun', hev, hbal⟩ := afterUnlink_spec (d := .left) hm₁ hnode
        (CBal.relabel hc) (by simp only [List.length_append, List.length_cons]; omega)
      have hcont : t'.toList = before K ++ l.toList ++
          ((fill lp (.node y c' yx .nil yr)).toList ++ after K) := by
        rw [hev.content, fill_append, fill_cons]
        simp [toList_fill, nodeAt, before_of_left hlp]
      refine ⟨_, t', _, _, ?_, finish m' t' k' hev.models hcont hbal (hev.count.trans hcount₁),
        hlist, hcont, fun a ha => ?_⟩
      · simp only [rbDelete, hroot, reduceCtorEq, or_self, if_false, Mem.load_some, hzh,
          Option.bind_eq_bind, Option.bind_some, if_neg hl', if_neg hr', hrun₁]
        by_cases hcb : c' = .black <;>
          simp only [hcb, if_true, if_false, Option.some.injEq] at hrun' ⊢ <;>
          simp only [hrun', Option.bind_some]
      · rw [ids_eq_of_content hev.content] at ha
        rw [show m'.heap a = m₁.heap a from hev.frame a ha, h₁ a ha]

end RangeLock

end VmwareProto
