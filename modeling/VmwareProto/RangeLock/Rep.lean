import VmwareProto.Library.Balance
import VmwareProto.RangeLock.Model
import Mathlib
/-!
# Trees in memory

`Rep h t q`: the nodes of `t` lie in the heap `h` with their links, colours
and data, the root's parent pointer being `q`. `CRep h K p` is the same of
a context whose hole is filled by the pointer `p`; `rep_fill` splits a
tree's representation at any of its subtrees. `Models m t` adds the root
pointer and the distinctness of the nodes. Each pointer operation then
has one lemma saying what it does to a represented tree.
-/

namespace VmwareProto

namespace RangeLock

open VmwareProto.Tree Ctx

abbrev Shape := Tree Addr NodeData

abbrev ShapeCtx := Ctx Addr NodeData

/-- A node written by side. -/
def cell (q : Ptr) (d : Dir) (c : Color) (x : NodeData) (near far : Ptr) : RbNode :=
  match d with
  | .left => ⟨q, near, far, c, x⟩
  | .right => ⟨q, far, near, c, x⟩

section Cell

variable {q q' near far p : Ptr} {d : Dir} {c c' : Color} {x : NodeData}

@[simp] theorem cell_child : (cell q d c x near far).child d = near := by cases d <;> rfl
@[simp] theorem cell_child_flip : (cell q d c x near far).child d.flip = far := by cases d <;> rfl
@[simp] theorem cell_parent : (cell q d c x near far).parent = q := by cases d <;> rfl
@[simp] theorem cell_color : (cell q d c x near far).color = c := by cases d <;> rfl
@[simp] theorem cell_data : (cell q d c x near far).data = x := by cases d <;> rfl

@[simp] theorem setChild_cell : (cell q d c x near far).setChild d p = cell q d c x p far := by
  cases d <;> rfl

@[simp] theorem setChild_flip_cell :
    (cell q d c x near far).setChild d.flip p = cell q d c x near p := by
  cases d <;> rfl

@[simp] theorem setParent_cell : (cell q d c x near far).setParent q' = cell q' d c x near far := by
  cases d <;> rfl

@[simp] theorem setColor_cell : (cell q d c x near far).setColor c' = cell q d c' x near far := by
  cases d <;> rfl

@[simp] theorem setData_cell (f : NodeData → NodeData) :
    (cell q d c x near far).setData f = cell q d c (f x) near far := by
  cases d <;> rfl

theorem cell_flip : cell q d.flip c x near far = cell q d c x far near := by cases d <;> rfl

end Cell

/-! ## Reading and writing -/

namespace Mem

variable {m : Mem} {a b : Addr} {n : RbNode} {f : RbNode → RbNode}

@[simp] theorem load_some : m.load (some a) = m.heap a := rfl

theorem modify_some (h : m.heap a = some n) : m.modify (some a) f = some (m.put a (f n)) := by
  simp [modify, h]

@[simp] theorem put_root : (m.put a n).root = m.root := rfl
@[simp] theorem put_count : (m.put a n).count = m.count := rfl

@[simp] theorem heap_put_self : (m.put a n).heap a = some n := by simp [put]

theorem heap_put_of_ne (h : b ≠ a) : (m.put a n).heap b = m.heap b := by
  simp [put, Function.update_of_ne h]

/-- `isRed` of a node that is there. -/
theorem isRed_some (h : m.heap a = some n) : m.isRed (some a) = some (decide (n.color = .red)) := by
  simp [isRed, h]

@[simp] theorem isRed_none : m.isRed none = some false := rfl

end Mem

/-! ## Representation -/

/-- The tree `t` lies in the heap, under the parent pointer `q`. -/
def Rep (h : Addr → Option RbNode) : Shape → Ptr → Prop
  | .nil, _ => True
  | .node a c x l r, q =>
      h a = some ⟨q, l.rootId, r.rootId, c, x⟩ ∧ Rep h l (some a) ∧ Rep h r (some a)

/-- The context lies in the heap, its hole filled by the pointer `p`. -/
def CRep (h : Addr → Option RbNode) : ShapeCtx → Ptr → Prop
  | [], _ => True
  | f :: fs, p =>
      h f.id = some (cell (parentId fs) f.dir f.color f.val p f.sib.rootId) ∧
        Rep h f.sib (some f.id) ∧ CRep h fs (some f.id)

variable {h h' : Addr → Option RbNode} {t u : Shape} {q q' p : Ptr} {K : ShapeCtx}

@[simp] theorem rep_nil : Rep h .nil q := trivial

theorem rep_nodeAt {d : Dir} {a : Addr} {c : Color} {x : NodeData} :
    Rep h (nodeAt d a c x t u) q ↔
      h a = some (cell q d c x t.rootId u.rootId) ∧ Rep h t (some a) ∧ Rep h u (some a) := by
  cases d
  · exact Iff.rfl
  · simp only [nodeAt, Rep, cell]
    tauto

/-- **A tree's representation reads only its own nodes.** -/
theorem Rep.frame (ht : Rep h t q) (heq : ∀ a ∈ t.ids, h' a = h a) : Rep h' t q := by
  induction t generalizing q with
  | nil => trivial
  | node a c x l r ihl ihr =>
      obtain ⟨ha, hl, hr⟩ := ht
      refine ⟨by rw [heq a (by simp)]; exact ha, ihl hl fun b hb => heq b (by simp [hb]),
        ihr hr fun b hb => heq b (by simp [hb])⟩

theorem CRep.frame (hc : CRep h K p) (heq : ∀ a ∈ Ctx.ids K, h' a = h a) :
    CRep h' K p := by
  induction K generalizing p with
  | nil => trivial
  | cons f fs ih =>
      obtain ⟨hf, hs, hrest⟩ := hc
      refine ⟨by rw [heq f.id (by simp [Ctx.ids])]; exact hf,
        hs.frame fun b hb => heq b (by simp [Ctx.ids, hb]),
        ih hrest fun b hb => heq b (by simp [Ctx.ids, hb])⟩

/-- A represented tree is allocated. -/
theorem Rep.isSome (ht : Rep h t q) {a : Addr} (ha : a ∈ t.ids) : (h a).isSome := by
  induction t generalizing q with
  | nil => simp at ha
  | node b c x l r ihl ihr =>
      obtain ⟨hb, hl, hr⟩ := ht
      rw [ids_node, List.mem_append, List.mem_cons] at ha
      rcases ha with ha | rfl | ha
      · exact ihl hl ha
      · simp [hb]
      · exact ihr hr ha

/-- **Splitting at a hole.** -/
theorem rep_fill : Rep h (fill K t) none ↔ Rep h t (parentId K) ∧ CRep h K t.rootId := by
  induction K generalizing t with
  | nil => simp [CRep]
  | cons f fs ih =>
      rw [fill_cons, ih, rep_nodeAt]
      simp only [rootId_nodeAt, CRep, parentId_cons]
      tauto

/-- A memory holds a tree: its nodes and links, the root pointer, and no
node twice. -/
structure Models (m : Mem) (t : Shape) : Prop where
  root : m.root = t.rootId
  rep : Rep m.heap t none
  nodup : t.ids.Nodup

/-- **What a rebalancing step may do**: turn the tree `t` in `m` into
`t'` in `m'` with the same content, leaving `count` and every other node
alone. -/
structure Evolves (m m' : Mem) (t t' : Shape) : Prop where
  models : Models m' t'
  content : t'.toList = t.toList
  count : m'.count = m.count
  frame : ∀ a ∉ t.ids, m'.heap a = m.heap a

theorem ids_eq_of_content {t t' : Shape} (h : t'.toList = t.toList) : t'.ids = t.ids := by
  rw [Tree.ids, Tree.ids, h]

theorem Models.evolves_refl {m : Mem} (hm : Models m t) : Evolves m m t t :=
  ⟨hm, rfl, rfl, fun _ _ => rfl⟩

theorem Evolves.trans {m₁ m₂ m₃ : Mem} {t₁ t₂ t₃ : Shape} (h₁ : Evolves m₁ m₂ t₁ t₂)
    (h₂ : Evolves m₂ m₃ t₂ t₃) : Evolves m₁ m₃ t₁ t₃ where
  models := h₂.models
  content := h₂.content.trans h₁.content
  count := h₂.count.trans h₁.count
  frame a ha := by
    rw [h₂.frame a (by rwa [ids_eq_of_content h₁.content]), h₁.frame a ha]

/-- What a hole's occupant and its surroundings have apart. -/
theorem Models.disjoint {m : Mem} (hm : Models m (fill K t)) :
    t.ids.Nodup ∧ (Ctx.ids K).Nodup ∧ ∀ a ∈ t.ids, a ∉ Ctx.ids K := by
  have hnd := nodup_fill.1 hm.nodup
  rw [List.nodup_append] at hnd
  exact ⟨hnd.1, hnd.2.1, fun a ha hb => hnd.2.2 a ha a hb rfl⟩

/-! ## The shared pointer steps -/

/-- The child pointer an ancestor has towards its hole. -/
theorem setChild_towards {m : Mem} {f : Frame Addr NodeData} {fs : ShapeCtx} {v : Addr} {w : Ptr}
    (hf : m.heap f.id = some (cell (parentId fs) f.dir f.color f.val (some v) f.sib.rootId))
    (hv : f.sib.rootId ≠ some v) :
    replaceChild m (some f.id) (some v) w =
      some (m.put f.id (cell (parentId fs) f.dir f.color f.val w f.sib.rootId)) := by
  obtain ⟨d, a, c, x, sib⟩ := f
  cases d with
  | left => simp [replaceChild, Mem.modify_some hf, hf, cell, RbNode.setChild]
  | right =>
      have hne : ¬ (cell (parentId fs) .right c x (some v) sib.rootId).left = some v := hv
      simp only [replaceChild, Mem.load_some, hf, Option.bind_eq_bind, Option.bind_some, if_neg hne,
        Mem.modify_some hf]
      rfl

theorem parentId_ne {a : Addr} (ha : a ∉ Ctx.ids K) : some a ≠ parentId K := by
  cases K with
  | nil => simp
  | cons f fs =>
      rintro h
      exact ha (by simp [Ctx.ids, Option.some.inj h])

/-- **Hanging another subtree into the hole**: the one write goes to the
root pointer or to the nearest ancestor. -/
theorem replaceChild_spec {m : Mem} {v : Addr} (hroot : m.root = (fill K t).rootId)
    (ht : t.rootId = some v) (hc : CRep m.heap K (some v)) (hv : v ∉ Ctx.ids K)
    (hnd : (Ctx.ids K).Nodup) (u : Shape) :
    ∃ m', replaceChild m (parentId K) (some v) u.rootId = some m' ∧
      m'.root = (fill K u).rootId ∧ m'.count = m.count ∧ CRep m'.heap K u.rootId ∧
      ∀ a, some a ≠ parentId K → m'.heap a = m.heap a := by
  cases K with
  | nil =>
      have hroot' : m.root = some v := by rw [hroot, ← ht]; rfl
      exact ⟨{ m with root := u.rootId }, by simp [replaceChild, hroot'], rfl, rfl, trivial,
        fun _ _ => rfl⟩
  | cons f fs =>
      obtain ⟨hf, hs, hrest⟩ := hc
      have hsib : f.sib.rootId ≠ some v := fun h =>
        hv (by simp [Ctx.ids, mem_ids_of_rootId h])
      have hnot : f.id ∉ f.sib.ids ++ Ctx.ids fs := (List.nodup_cons.1 hnd).1
      rw [List.mem_append, not_or] at hnot
      refine ⟨_, setChild_towards hf hsib, ?_, rfl, ⟨Mem.heap_put_self, ?_, ?_⟩, ?_⟩
      · rw [Mem.put_root, hroot]; exact rootId_fill_cons f fs t u
      · exact hs.frame fun b hb => Mem.heap_put_of_ne fun he => hnot.1 (he ▸ hb)
      · exact hrest.frame fun b hb => Mem.heap_put_of_ne fun he => hnot.2 (he ▸ hb)
      · exact fun a ha => Mem.heap_put_of_ne fun he => ha (by rw [he]; rfl)

/-- **A subtree changes parents** by one write to its root. -/
theorem adopt_spec {m : Mem} (ht : Rep m.heap t q) (hnd : t.ids.Nodup) (p : Ptr) :
    ∃ m', adopt m t.rootId p = some m' ∧ m'.root = m.root ∧ m'.count = m.count ∧
      Rep m'.heap t p ∧ ∀ a, some a ≠ t.rootId → m'.heap a = m.heap a := by
  cases t with
  | nil => exact ⟨m, rfl, rfl, rfl, trivial, fun _ _ => rfl⟩
  | node a c x l r =>
      obtain ⟨ha, hl, hr⟩ := ht
      have hnot : a ∉ l.ids ∧ a ∉ r.ids := by
        rw [ids_node, List.nodup_middle, List.nodup_cons, List.mem_append, not_or] at hnd
        exact hnd.1
      refine ⟨_, Mem.modify_some ha, rfl, rfl, ⟨Mem.heap_put_self, ?_, ?_⟩, ?_⟩
      · exact hl.frame fun b hb => Mem.heap_put_of_ne fun he => hnot.1 (he ▸ hb)
      · exact hr.frame fun b hb => Mem.heap_put_of_ne fun he => hnot.2 (he ▸ hb)
      · exact fun b hb => Mem.heap_put_of_ne fun he => hb (by rw [he]; rfl)

/-- An update that stays inside a hole and keeps its content. -/
theorem Models.evolves {m m' : Mem} (hm : Models m (fill K t)) (content : u.toList = t.toList)
    (rep : Rep m'.heap u (parentId K)) (crep : CRep m'.heap K u.rootId)
    (root : m'.root = (fill K u).rootId) (count : m'.count = m.count)
    (frame : ∀ a ∉ (fill K t).ids, m'.heap a = m.heap a) :
    Evolves m m' (fill K t) (fill K u) where
  models := ⟨root, rep_fill.2 ⟨rep, crep⟩, by rw [ids_fill_congr K content]; exact hm.nodup⟩
  content := toList_fill_congr K content
  count := count
  frame := frame

/-- A node in a hole, its subtrees and its surroundings have no node in
common. -/
theorem Models.nodup_nodeAt {m : Mem} {d : Dir} {a : Addr} {c : Color} {x : NodeData}
    (hm : Models m (fill K (nodeAt d a c x t u))) :
    (a :: (t.ids ++ u.ids) ++ Ctx.ids K).Nodup :=
  (((ids_nodeAt_perm d a c x t u).append_right _).nodup_iff).1 (nodup_fill.1 hm.nodup)

theorem mem_ids_nodeAt {d : Dir} {a b : Addr} {c : Color} {x : NodeData} :
    b ∈ (nodeAt d a c x t u).ids ↔ b = a ∨ b ∈ t.ids ∨ b ∈ u.ids := by
  rw [(ids_nodeAt_perm d a c x t u).mem_iff, List.mem_cons, List.mem_append]

/-- A represented node in a hole, read. -/
theorem Models.heap_nodeAt {m : Mem} {d : Dir} {a : Addr} {c : Color} {x : NodeData}
    (hm : Models m (fill K (nodeAt d a c x t u))) :
    m.heap a = some (cell (parentId K) d c x t.rootId u.rootId) :=
  (rep_nodeAt.1 (rep_fill.1 hm.rep).1).1

theorem rootId_fill_congr (ht : t.rootId = u.rootId) :
    (fill K t).rootId = (fill K u).rootId := by
  cases K with
  | nil => exact ht
  | cons f fs => exact rootId_fill_cons f fs t u

/-- **Recolouring** the root of a subtree. -/
theorem setColor_spec {m : Mem} {d : Dir} {a : Addr} {c : Color} {x : NodeData}
    (hm : Models m (fill K (nodeAt d a c x t u))) (c' : Color) :
    ∃ m', m.modify (some a) (·.setColor c') = some m' ∧
      Evolves m m' (fill K (nodeAt d a c x t u)) (fill K (nodeAt d a c' x t u)) := by
  have hnd := hm.nodup_nodeAt
  obtain ⟨hrep, hcrep⟩ := rep_fill.1 hm.rep
  obtain ⟨ha, ht, hu⟩ := rep_nodeAt.1 hrep
  simp only [List.cons_append, List.nodup_cons, List.mem_append, not_or] at hnd
  refine ⟨_, Mem.modify_some ha, hm.evolves (by cases d <;> rfl) (rep_nodeAt.2 ⟨?_, ?_, ?_⟩) ?_ ?_ rfl
    ?_⟩
  · rw [Mem.heap_put_self, setColor_cell]
  · exact ht.frame fun b hb => Mem.heap_put_of_ne fun he => hnd.1.1.1 (he ▸ hb)
  · exact hu.frame fun b hb => Mem.heap_put_of_ne fun he => hnd.1.1.2 (he ▸ hb)
  · rw [rootId_nodeAt] at hcrep ⊢
    exact hcrep.frame fun b hb => Mem.heap_put_of_ne fun he => hnd.1.2 (he ▸ hb)
  · rw [Mem.put_root, hm.root]
    exact rootId_fill_congr (by simp)
  · intro b hb
    refine Mem.heap_put_of_ne fun he => hb ?_
    rw [he]
    exact mem_ids_fill.2 (.inl (mem_ids_nodeAt.2 (.inl rfl)))

/-- Recolouring the nearest ancestor of a hole. -/
theorem setColor_parent {m : Mem} {fs : ShapeCtx} {d : Dir} {p : Addr} {c : Color} {x : NodeData}
    (hm : Models m (fill (⟨d, p, c, x, u⟩ :: fs) t)) (c' : Color) :
    ∃ m', m.modify (some p) (·.setColor c') = some m' ∧
      Evolves m m' (fill (⟨d, p, c, x, u⟩ :: fs) t) (fill (⟨d, p, c', x, u⟩ :: fs) t) :=
  setColor_spec (K := fs) (d := d) hm c'

/-- Recolouring the root of a hole's sibling. -/
theorem setColor_sibling {m : Mem} {fs : ShapeCtx} {d e : Dir} {p w : Addr} {c cw : Color}
    {x wx : NodeData} {A B : Shape}
    (hm : Models m (fill (⟨d, p, c, x, nodeAt e w cw wx A B⟩ :: fs) t)) (c' : Color) :
    ∃ m', m.modify (some w) (·.setColor c') = some m' ∧
      Evolves m m' (fill (⟨d, p, c, x, nodeAt e w cw wx A B⟩ :: fs) t)
        (fill (⟨d, p, c, x, nodeAt e w c' wx A B⟩ :: fs) t) := by
  have h := setColor_spec (K := ⟨d.flip, p, c, x, t⟩ :: fs) (t := A) (u := B) (d := e) (a := w)
    (c := cw) (x := wx) (by rw [fill_sibling]; exact hm) c'
  rwa [fill_sibling, fill_sibling] at h

/-- **A rotation** exchanges a node `a` with its far child `b`. -/
theorem rotate_spec {m : Mem} {d : Dir} {a b : Addr} {ca cb : Color} {x y : NodeData}
    {A B C : Shape}
    (hm : Models m (fill K (nodeAt d a ca x A (nodeAt d b cb y B C)))) :
    ∃ m', rotate d m (some a) = some m' ∧
      Evolves m m' (fill K (nodeAt d a ca x A (nodeAt d b cb y B C)))
        (fill K (nodeAt d b cb y (nodeAt d a ca x A B) C)) := by
  have hnd := hm.nodup_nodeAt
  obtain ⟨hrep, hcrep⟩ := rep_fill.1 hm.rep
  obtain ⟨ha, hA, hr⟩ := rep_nodeAt.1 hrep
  obtain ⟨hb, hB, hC⟩ := rep_nodeAt.1 hr
  rw [rootId_nodeAt] at ha hcrep
  have hperm : (a :: (A.ids ++ (nodeAt d b cb y B C).ids) ++ Ctx.ids K).Perm
      (a :: (A.ids ++ (b :: (B.ids ++ C.ids))) ++ Ctx.ids K) :=
    (((ids_nodeAt_perm d b cb y B C).append_left A.ids).cons a).append_right _
  rw [hperm.nodup_iff] at hnd
  have hab : a ≠ b := by grind
  have haA : a ∉ A.ids ∧ a ∉ B.ids ∧ a ∉ C.ids ∧ a ∉ Ctx.ids K := by grind
  have hbA : b ∉ A.ids ∧ b ∉ B.ids ∧ b ∉ C.ids ∧ b ∉ Ctx.ids K := by grind
  have hBnd : B.ids.Nodup := by grind
  have hBo : ∀ e ∈ B.ids, e ∉ A.ids ∧ e ∉ C.ids ∧ e ∉ Ctx.ids K := by grind
  have hctx : (Ctx.ids K).Nodup := by grind
  -- the two link writes, before the parent is told
  have hb₁ : (m.put a (cell (parentId K) d ca x A.rootId B.rootId)).heap b =
      some (cell (some a) d cb y B.rootId C.rootId) := by
    rw [Mem.heap_put_of_ne hab.symm]; exact hb
  set m₂ := (m.put a (cell (parentId K) d ca x A.rootId B.rootId)).put b
    (cell (some a) d cb y (some a) C.rootId) with hm₂
  have h₂ : ∀ e, e ≠ a → e ≠ b → m₂.heap e = m.heap e := fun e hea heb => by
    rw [hm₂, Mem.heap_put_of_ne heb, Mem.heap_put_of_ne hea]
  have hcrep₂ : CRep m₂.heap K (some a) :=
    hcrep.frame fun e he => h₂ e (fun h => haA.2.2.2 (h ▸ he)) fun h => hbA.2.2.2 (h ▸ he)
  obtain ⟨m₃, hrun₃, hroot₃, hcount₃, hcrep₃, h₃⟩ :=
    replaceChild_spec (u := nodeAt d b cb y (nodeAt d a ca x A B) C) (m := m₂) (v := a)
      (t := nodeAt d a ca x A (nodeAt d b cb y B C)) hm.root (by simp) hcrep₂ haA.2.2.2 hctx
  rw [rootId_nodeAt] at hrun₃ hcrep₃
  have ha₃ : m₃.heap a = some (cell (parentId K) d ca x A.rootId B.rootId) := by
    rw [h₃ a (parentId_ne haA.2.2.2), hm₂, Mem.heap_put_of_ne hab, Mem.heap_put_self]
  have hb₃ : m₃.heap b = some (cell (some a) d cb y (some a) C.rootId) := by
    rw [h₃ b (parentId_ne hbA.2.2.2), hm₂, Mem.heap_put_self]
  -- the two parent writes, and the inner subtree's
  have hb₄ : (m₃.put a (cell (some b) d ca x A.rootId B.rootId)).heap b =
      some (cell (some a) d cb y (some a) C.rootId) := by
    rw [Mem.heap_put_of_ne hab.symm]; exact hb₃
  set m₅ := (m₃.put a (cell (some b) d ca x A.rootId B.rootId)).put b
    (cell (parentId K) d cb y (some a) C.rootId) with hm₅
  have h₅ : ∀ e, e ≠ a → e ≠ b → some e ≠ parentId K → m₅.heap e = m.heap e :=
    fun e hea heb hep => by
      rw [hm₅, Mem.heap_put_of_ne heb, Mem.heap_put_of_ne hea, h₃ e hep, h₂ e hea heb]
  have ha₅ : m₅.heap a = some (cell (some b) d ca x A.rootId B.rootId) := by
    rw [hm₅, Mem.heap_put_of_ne hab, Mem.heap_put_self]
  have hB₅ : Rep m₅.heap B (some b) := hB.frame fun e he =>
    h₅ e (fun h => haA.2.1 (h ▸ he)) (fun h => hbA.2.1 (h ▸ he)) (parentId_ne (hBo e he).2.2)
  obtain ⟨m₆, hrun₆, hroot₆, hcount₆, hB₆, h₆⟩ := adopt_spec hB₅ hBnd (some a)
  have hBr : ∀ e, e ∉ B.ids → m₆.heap e = m₅.heap e := fun e he =>
    h₆ e fun h => he (mem_ids_of_rootId h.symm)
  refine ⟨m₆, ?_, hm.evolves ?_ (rep_nodeAt.2 ⟨?_, rep_nodeAt.2 ⟨?_, ?_, hB₆⟩, ?_⟩) ?_ ?_ ?_ ?_⟩
  · simp only [rotate, Mem.load_some, ha, hb, Option.bind_eq_bind, Option.bind_some,
      cell_child_flip, cell_parent, guard, if_true, Option.pure_def,
      Mem.modify_some ha, setChild_flip_cell, cell_child, Mem.modify_some hb₁, setChild_cell,
      hrun₃, Mem.modify_some ha₃, setParent_cell, Mem.modify_some hb₄, ha₅, hrun₆, ← hm₂, ← hm₅]
  · cases d <;> simp [nodeAt]
  · rw [hBr b hbA.2.1, hm₅, Mem.heap_put_self, rootId_nodeAt]
  · rw [hBr a haA.2.1, ha₅]
  · exact hA.frame fun e he => by
      rw [hBr e (by grind), h₅ e (by grind) (by grind) (parentId_ne (by grind))]
  · exact hC.frame fun e he => by
      rw [hBr e (by grind), h₅ e (by grind) (by grind) (parentId_ne (by grind))]
  · rw [rootId_nodeAt]
    refine hcrep₃.frame fun e he => ?_
    rw [hBr e (by grind), hm₅, Mem.heap_put_of_ne (by grind), Mem.heap_put_of_ne (by grind)]
  · rw [hroot₆, hm₅]; exact hroot₃
  · rw [hcount₆, hm₅]; exact hcount₃
  · intro e he
    have he' : e ≠ a ∧ e ≠ b ∧ e ∉ B.ids ∧ e ∉ Ctx.ids K := by
      simp only [mem_ids_fill, mem_ids_nodeAt, not_or] at he
      grind
    rw [hBr e he'.2.2.1, h₅ e he'.1 he'.2.1 (parentId_ne he'.2.2.2)]

end RangeLock

end VmwareProto
