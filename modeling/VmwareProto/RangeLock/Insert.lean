import VmwareProto.RangeLock.Search
/-!
# Insertion keeps the tree balanced

The fixup loop climbs from a red node `z` whose subtree is balanced and
whose surroundings are balanced for a *black* occupant: the only thing
wrong is a red parent. Recolouring moves the situation two levels up, a
rotation ends it. The measure is the number of ancestors.
-/

namespace VmwareProto

namespace RangeLock

open VmwareProto.Tree Ctx

variable {m : Mem} {K : ShapeCtx} {t : Shape} {n : ℕ}

/-! ## Reading around a node -/

/-- An ancestor, read. -/
theorem Models.heap_frame {f : Frame Addr NodeData}
    (hm : Models m (fill (f :: K) t)) :
    m.heap f.id = some (cell (parentId K) f.dir f.color f.val t.rootId f.sib.rootId) :=
  Models.heap_nodeAt (show Models m (fill K (nodeAt f.dir f.id f.color f.val t f.sib)) from hm)

/-- An occupant and the sibling of its parent's hole have different roots. -/
theorem Models.sibling_ne {f : Frame Addr NodeData} {a : Addr}
    (hm : Models m (fill (f :: K) t)) (ha : t.rootId = some a) : f.sib.rootId ≠ some a := by
  intro hs
  have hnd := Models.nodup_nodeAt (K := K) (u := f.sib) hm
  have h₁ := mem_ids_of_rootId ha
  have h₂ := mem_ids_of_rootId hs
  grind

/-- The side the code finds a child on. -/
theorem side_eq {q far : Ptr} {d : Dir} {c : Color} {x : NodeData} {a : Addr}
    (hne : far ≠ some a) :
    (if (cell q d c x (some a) far).left = some a then Dir.left else Dir.right) = d := by
  cases d with
  | left => simp [cell]
  | right => simp [cell, hne]

theorem Models.isRed_nodeAt {d : Dir} {a : Addr} {c : Color} {x : NodeData} {u : Shape}
    (hm : Models m (fill K (nodeAt d a c x t u))) :
    m.isRed (some a) = some (decide (c = .red)) := by
  rw [Mem.isRed_some hm.heap_nodeAt, cell_color]

/-- `isRed` of a balanced subtree's root tells its colour. -/
theorem Models.isRed_of_bal {c : Color} (hm : Models m (fill K t)) (hb : Bal t c n) :
    m.isRed t.rootId = some (decide (c = .red)) := by
  rcases hb.cases_nodeAt .left with ⟨rfl, rfl, -⟩ | ⟨_, _, _, _, rfl, rfl, -⟩ |
    ⟨_, _, _, _, _, _, _, rfl, rfl, -⟩
  · rfl
  · rw [rootId_nodeAt]; exact hm.isRed_nodeAt
  · rw [rootId_nodeAt]; exact hm.isRed_nodeAt

section Grandparent

variable {f g : Frame Addr NodeData} {gs : ShapeCtx} {d : Dir} {a : Addr} {c : Color}
  {x : NodeData} {u : Shape}

theorem Models.grandParent_eq (hm : Models m (fill (f :: g :: gs) (nodeAt d a c x t u))) :
    grandParent m (some a) = some (some g.id) := by
  have ha := hm.heap_nodeAt
  have hf := hm.heap_frame
  simp [grandParent, ha, hf]

theorem Models.uncle_eq (hm : Models m (fill (f :: g :: gs) (nodeAt d a c x t u))) :
    uncle m (some a) = some g.sib.rootId := by
  have ha := hm.heap_nodeAt
  have hg := Models.heap_frame (f := g) (K := gs) hm
  have hne := Models.sibling_ne (f := g) (K := gs) (a := f.id) hm (rootId_plug f _)
  rw [rootId_plug] at hg
  simp only [uncle, hm.grandParent_eq, Option.bind_eq_bind, Option.bind_some, Mem.load_some, ha, hg,
    cell_parent, parentId_cons]
  obtain ⟨dir, id, col, val, sib⟩ := g
  cases dir with
  | left => simp [cell]
  | right => simp [cell, hne]

end Grandparent

/-! ## Blackening the root -/

/-- The last write of both fixups. -/
theorem blackenRoot_spec {t : Shape} (hm : Models m t) (hne : t ≠ .nil) (hs : Short t n) :
    ∃ m' t' k, m.modify m.root (·.setColor .black) = some m' ∧ Evolves m m' t t' ∧
      Bal t' .black k := by
  have key : ∀ {a c x l r k}, t = .node a c x l r → Bal (.node a .black x l r) .black k →
      ∃ m' t' k, m.modify m.root (·.setColor .black) = some m' ∧ Evolves m m' t t' ∧
        Bal t' .black k := by
    rintro a c x l r k rfl hb
    obtain ⟨m', hrun, hev⟩ := setColor_spec (K := []) (d := .left) hm .black
    exact ⟨m', _, k, by rw [hm.root]; exact hrun, hev, hb⟩
  rcases hs with hb | ⟨_, _, _, _, _, _, rfl, hl, hr⟩
  · cases hb with
    | nil => exact absurd rfl hne
    | black hl hr => exact key rfl (.black hl hr)
  · exact key rfl (.black hl hr)

/-! ## The loop -/

/-- `z` and its parent on the same side: one rotation about the
grandparent. -/
theorem insertRotateOuter_spec {d : Dir} {a p g : Addr} {x px gx : NodeData}
    {A B ps gsib : Shape} {gs : ShapeCtx}
    (hm : Models m (fill (⟨d, p, .red, px, ps⟩ :: ⟨d, g, .black, gx, gsib⟩ :: gs)
      (nodeAt d a .red x A B))) :
    ∃ m', insertRotateOuter d m (some a) = some m' ∧
      Evolves m m' (fill (⟨d, p, .red, px, ps⟩ :: ⟨d, g, .black, gx, gsib⟩ :: gs)
        (nodeAt d a .red x A B))
        (fill (⟨d, p, .black, px, nodeAt d g .red gx ps gsib⟩ :: gs)
          (nodeAt d a .red x A B)) := by
  obtain ⟨m₁, hrun₁, hev₁⟩ := setColor_spec (d := d) (K := ⟨d, g, .black, gx, gsib⟩ :: gs) hm .black
  obtain ⟨m₂, hrun₂, hev₂⟩ := setColor_spec (d := d) (K := gs) hev₁.models .red
  have hm₂ : Models m₂ (fill gs (nodeAt d.flip g .red gx gsib
      (nodeAt d.flip p .black px ps (nodeAt d a .red x A B)))) := by
    rw [nodeAt_flip, nodeAt_flip]; exact hev₂.models
  obtain ⟨m₃, hrun₃, hev₃⟩ := rotate_spec hm₂
  simp only [nodeAt_flip] at hev₃
  refine ⟨m₃, ?_, hev₁.trans (hev₂.trans hev₃)⟩
  simp only [insertRotateOuter, hm.grandParent_eq, Mem.load_some, hm.heap_nodeAt,
    Option.bind_eq_bind, Option.bind_some, cell_parent, parentId_cons, hrun₁, hrun₂, hrun₃]

/-- **The rotating case**: the uncle is black, and one or two rotations
leave a black node on top, over two red ones; the new `z` is the one of
them on side `d`. -/
theorem insertRotate_spec {d e : Dir} {a p g : Addr} {x px gx : NodeData}
    {A B ps gsib : Shape} {gs : ShapeCtx}
    (hm : Models m (fill (⟨e, p, .red, px, ps⟩ :: ⟨d, g, .black, gx, gsib⟩ :: gs)
      (nodeAt d a .red x A B)))
    (hA : Bal A .black n) (hB : Bal B .black n) (hps : Bal ps .black n)
    (hgs : Bal gsib .black n) :
    ∃ m' b y top A' B' C' D' ty ty', insertRotate d m (some a) (some p) = some (m', some b) ∧
      Evolves m m' (fill (⟨e, p, .red, px, ps⟩ :: ⟨d, g, .black, gx, gsib⟩ :: gs)
        (nodeAt d a .red x A B))
        (fill (⟨d, top, .black, ty, nodeAt d g .red ty' C' D'⟩ :: gs) (nodeAt d b .red y A' B')) ∧
      Bal A' .black n ∧ Bal B' .black n ∧ Bal C' .black n ∧ Bal D' .black n := by
  have hp := hm.heap_frame
  have hsib := hm.sibling_ne (a := a) (rootId_nodeAt ..)
  rw [rootId_nodeAt] at hp
  by_cases he : e = d
  · subst he
    obtain ⟨m', hrun, hev⟩ := insertRotateOuter_spec hm
    refine ⟨m', a, x, p, A, B, ps, gsib, px, gx, ?_, hev, hA, hB, hps, hgs⟩
    simp only [insertRotate, Mem.load_some, hp, Option.bind_eq_bind, Option.bind_some,
      cell_child_flip, if_neg hsib, hrun]
  · obtain rfl : e = d.flip := by cases e <;> cases d <;> simp_all
    have hm₀ : Models m (fill (⟨d, g, .black, gx, gsib⟩ :: gs)
        (nodeAt d p .red px ps (nodeAt d a .red x A B))) := by
      rw [← nodeAt_flip d p]; exact hm
    obtain ⟨m₁, hrun₁, hev₁⟩ := rotate_spec hm₀
    obtain ⟨m', hrun, hev⟩ := insertRotateOuter_spec hev₁.models
    refine ⟨m', p, px, a, ps, A, B, gsib, x, gx, ?_, ?_, hps, hA, hB, hgs⟩
    · simp only [insertRotate, Mem.load_some, hp, Option.bind_eq_bind, Option.bind_some,
        cell_child, if_true, hrun₁, Option.map_some, hrun]
    · have := hev₁.trans hev
      rwa [← nodeAt_flip d p] at this

/-- The loop stops at a parent that is not red. -/
theorem rbInsertFixupLoop_exit {fuel : ℕ} {z p : Ptr} {b : Bool} (hp : m.isRed p = some false)
    (hz : m.isRed z = some b) : rbInsertFixupLoop (fuel + 1) m z p = some m := by
  simp [rbInsertFixupLoop, hp, hz]

/-- A red uncle: the recolouring moves the red node two levels up. -/
theorem insertRecolor_spec {d e d' : Dir} {a p g w : Addr} {x px gx wx : NodeData}
    {A B ps U V : Shape} {gs : ShapeCtx}
    (hm : Models m (fill (⟨e, p, .red, px, ps⟩ ::
      ⟨d, g, .black, gx, nodeAt d' w .red wx U V⟩ :: gs) (nodeAt d a .red x A B))) :
    ∃ m₁ m₂ m₃, m.modify (some p) (·.setColor .black) = some m₁ ∧
      m₁.modify (some w) (·.setColor .black) = some m₂ ∧
      m₂.modify (some g) (·.setColor .red) = some m₃ ∧
      Evolves m m₃ (fill (⟨e, p, .red, px, ps⟩ ::
        ⟨d, g, .black, gx, nodeAt d' w .red wx U V⟩ :: gs) (nodeAt d a .red x A B))
        (fill gs (nodeAt d g .red gx (nodeAt e p .black px (nodeAt d a .red x A B) ps)
          (nodeAt d' w .black wx U V))) := by
  obtain ⟨m₁, hrun₁, hev₁⟩ :=
    setColor_spec (d := e) (K := ⟨d, g, .black, gx, nodeAt d' w .red wx U V⟩ :: gs) hm .black
  have hm₁ : Models m₁ (fill (⟨d.flip, g, .black, gx,
      nodeAt e p .black px (nodeAt d a .red x A B) ps⟩ :: gs) (nodeAt d' w .red wx U V)) := by
    rw [fill_sibling]; exact hev₁.models
  obtain ⟨m₂, hrun₂, hev₂⟩ := setColor_spec hm₁ .black
  rw [fill_sibling, fill_sibling] at hev₂
  obtain ⟨m₃, hrun₃, hev₃⟩ := setColor_spec (d := d) (K := gs) hev₂.models .red
  exact ⟨m₁, m₂, m₃, hrun₁, hrun₂, hrun₃, hev₁.trans (hev₂.trans hev₃)⟩

/-- **The loop of `rb_insert_fixup`** returns with a balanced tree, black
at the root or one blackening away from it. -/
theorem rbInsertFixupLoop_spec : ∀ {fuel : ℕ} {m : Mem} {K : ShapeCtx} {n : ℕ} {d : Dir}
    {a : Addr} {x : NodeData} {A B : Shape}, K.length + 2 ≤ fuel →
    Models m (fill K (nodeAt d a .red x A B)) → CBal K .black n → Bal A .black n →
    Bal B .black n →
    ∃ m' T k, rbInsertFixupLoop fuel m (some a) (parentId K) = some m' ∧
      Evolves m m' (fill K (nodeAt d a .red x A B)) T ∧ Short T k := by
  intro fuel
  induction fuel with
  | zero => intro _ _ _ _ _ _ _ _ hf; omega
  | succ fuel ih =>
      intro m K n d a x A B hf hm hc hA hB
      have hbal : Bal (nodeAt d a .red x A B) .red n := bal_nodeAt_red.2 ⟨rfl, hA, hB⟩
      have hz := hm.isRed_nodeAt
      cases hc with
      | root => exact ⟨m, _, n, rbInsertFixupLoop_exit rfl hz, hm.evolves_refl, hbal.short⟩
      | @black d' p px ps fs _ c' _ hps hfs =>
          obtain ⟨k, hk⟩ := (CBal.black (c := .red) (d := d') (x := px) hps hfs).fill hbal
          have hp := Models.isRed_nodeAt (d := d') (K := fs) hm
          exact ⟨m, _, k, rbInsertFixupLoop_exit hp hz, hm.evolves_refl, hk.short⟩
      | @red e p px ps fs _ hps hfs =>
          have hp := Models.isRed_nodeAt (d := e) (K := fs) hm
          cases hfs with
          | @black d' g gx gsib gs _ cg _ hgs hrest =>
              -- read the same tree with `z`'s children ordered by its grandparent's side
              obtain ⟨A', B', hA', hB', hAB⟩ : ∃ A' B', Bal A' .black n ∧ Bal B' .black n ∧
                  nodeAt d a .red x A B = nodeAt d' a .red x A' B' := by
                by_cases h : d = d'
                · exact ⟨A, B, hA, hB, by rw [h]⟩
                · obtain rfl : d = d'.flip := by cases d <;> cases d' <;> simp_all
                  exact ⟨B, A, hB, hA, nodeAt_flip ..⟩
              rw [hAB] at hm ⊢
              have hg := Models.heap_frame (f := ⟨d', g, .black, gx, gsib⟩) (K := gs) hm
              have hne : gsib.rootId ≠ some p :=
                Models.sibling_ne (f := ⟨d', g, .black, gx, gsib⟩) (K := gs) hm (rootId_plug ..)
              have hsib : Models m (fill (⟨d'.flip, g, .black, gx,
                  plug ⟨e, p, .red, px, ps⟩ (nodeAt d' a .red x A' B')⟩ :: gs) gsib) := by
                rw [fill_sibling]; exact hm
              have hu := hsib.isRed_of_bal hgs
              rw [rootId_plug] at hg
              cases cg with
              | red =>
                  rcases hgs.cases_nodeAt .left with ⟨-, h, -⟩ | ⟨w, wx, U, V, rfl, -, hU, hV⟩ |
                    ⟨_, _, _, _, _, _, _, -, h, -⟩
                  · cases h
                  · obtain ⟨m₁, m₂, m₃, h₁, h₂, h₃, hev⟩ := insertRecolor_spec hm
                    obtain ⟨m', T, k, hrun, hev', hT⟩ := ih (d := d') (K := gs) (n := n + 1)
                      (by simp only [List.length_cons] at hf; omega) hev.models hrest
                      (bal_nodeAt_black.2 ⟨rfl, _, _, _, rfl, bal_nodeAt_red.2 ⟨rfl, hA', hB'⟩, hps⟩)
                      (bal_nodeAt_black.2 ⟨rfl, _, _, _, rfl, hU, hV⟩)
                    refine ⟨m', T, k, ?_, hev.trans hev', hT⟩
                    rw [rootId_nodeAt] at hu
                    simp only [rbInsertFixupLoop, parentId_cons, hp, hz, hm.uncle_eq,
                      hm.grandParent_eq, Mem.load_some, hg, hu, rootId_nodeAt, h₁, h₂, h₃,
                      hev.models.heap_nodeAt, cell_parent, Option.bind_eq_bind, Option.bind_some,
                      decide_true, and_self, if_true, hrun]
                  · cases h
              | black =>
                  obtain ⟨m', b, y, top, A'', B'', C'', D'', ty, ty', hrun, hev, hA'', hB'', hC'',
                    hD''⟩ := insertRotate_spec hm hA' hB' hps hgs
                  have htop := Models.isRed_nodeAt (d := d') (K := gs) hev.models
                  obtain ⟨k, hk⟩ := (CBal.black (c := .red) (d := d') (x := ty)
                    (bal_nodeAt_red.2 ⟨rfl, hC'', hD''⟩) hrest).fill
                    (bal_nodeAt_red (d := d') (a := b) (x := y).2 ⟨rfl, hA'', hB''⟩)
                  refine ⟨m', _, k, ?_, hev, hk.short⟩
                  obtain ⟨fuel, rfl⟩ : ∃ f, fuel = f + 1 :=
                    ⟨fuel - 1, by simp only [List.length_cons] at hf; omega⟩
                  change rbInsertFixupLoop _ m (some a) (some p) = _
                  rw [rbInsertFixupLoop]
                  simp only [hp, hz, hm.uncle_eq, hm.grandParent_eq, Mem.load_some,
                    hg, hu, Option.bind_eq_bind, Option.bind_some, decide_true, and_self, if_true,
                    side_eq hne, hrun, hev.models.heap_nodeAt, cell_parent, reduceCtorEq,
                    decide_false, Bool.false_eq_true, if_false]
                  exact rbInsertFixupLoop_exit htop hev.models.isRed_nodeAt

/-- `rb_insert_fixup` on a freshly linked red leaf. -/
theorem rbInsertFixup_spec {d : Dir} {a : Addr} {x : NodeData}
    (hm : Models m (fill K (nodeAt d a .red x .nil .nil))) (hc : CBal K .black 0)
    (hcount : K.length + 1 ≤ m.count) :
    ∃ m' T k, rbInsertFixup m (some a) = some m' ∧
      Evolves m m' (fill K (nodeAt d a .red x .nil .nil)) T ∧ Bal T .black k := by
  obtain ⟨m₁, T₁, k₁, hrun₁, hev₁, hT₁⟩ :=
    rbInsertFixupLoop_spec (show K.length + 2 ≤ m.count + 1 by omega) hm hc .nil .nil
  have hne : T₁ ≠ .nil := by
    rintro rfl
    have := congrArg List.length hev₁.content
    rw [toList_fill] at this
    cases d <;> simp [nodeAt] at this
  obtain ⟨m₂, T₂, k₂, hrun₂, hev₂, hT₂⟩ := blackenRoot_spec hev₁.models hne hT₁
  refine ⟨m₂, T₂, k₂, ?_, hev₁.trans hev₂, hT₂⟩
  simp only [rbInsertFixup, Mem.load_some, hm.heap_nodeAt, cell_parent, Option.bind_eq_bind,
    Option.bind_some, hrun₁, hrun₂]

/-! ## The descent -/

/-- What the descent reports about a tree: an overlapping node, or the
hole the range fits in. -/
inductive DescentOk (t : Shape) (s e : ℕ) : Descent → Prop
  | found {a : Addr} {x : NodeData} : (a, x) ∈ t.toList → Meets x s e → DescentOk t s e (.found a)
  | below {K : ShapeCtx} : t = fill K .nil → (∀ y ∈ before K, y.2.stop < s) →
      (∀ y ∈ after K, e < y.2.start) → DescentOk t s e (.below (parentId K))

/-- **The descent of `rb_insert`** from a subtree the range belongs in. -/
theorem rbInsertDescend_spec {s e : ℕ} (hse : s ≤ e) : ∀ {fuel : ℕ} {K : ShapeCtx},
    Rep m.heap t (parentId K) → Ordered t → t.size + 1 ≤ fuel →
    (∀ y ∈ before K, y.2.stop < s) → (∀ y ∈ after K, e < y.2.start) →
    ∃ r, rbInsertDescend m fuel t.rootId (parentId K) s e = some r ∧
      DescentOk (fill K t) s e r := by
  induction t with
  | nil =>
      intro fuel K _ _ hf hb ha
      obtain ⟨fuel, rfl⟩ : ∃ f, fuel = f + 1 := ⟨fuel - 1, by omega⟩
      exact ⟨_, rfl, .below rfl hb ha⟩
  | node a c x l r ihl ihr =>
      intro fuel K hrep hord hf hbef haft
      obtain ⟨fuel, rfl⟩ : ∃ f, fuel = f + 1 := ⟨fuel - 1, by omega⟩
      obtain ⟨ha, hl, hr⟩ := hrep
      obtain ⟨hx, hlx, hrx, hol, hor⟩ := hord
      rw [size_node] at hf
      simp only [rootId_node, rbInsertDescend, ha, Option.bind_eq_bind, Option.bind_some]
      by_cases hm : Meets x s e
      · rw [if_pos ((checkOverlap_sorted hx hse).2 hm)]
        refine ⟨_, rfl, .found (x := x) ?_ hm⟩
        rw [toList_fill]
        simp
      · rw [if_neg (mt (checkOverlap_sorted hx hse).1 hm)]
        rcases miss_side hm with hlt | hgt
        · rw [if_pos (by omega), guard, if_pos (by omega)]
          refine ihl (show Rep m.heap _ (parentId (⟨.left, a, c, x, r⟩ :: K)) from hl) hol (by omega) hbef ?_
          simp only [after, List.cons_append, List.mem_cons, List.mem_append]
          rintro y (rfl | hy | hy)
          · exact hlt
          · have := hrx y hy; omega
          · exact haft y hy
        · rw [if_neg (by omega), if_pos hgt]
          refine ihr (show Rep m.heap _ (parentId (⟨.right, a, c, x, l⟩ :: K)) from hr) hor (by omega) ?_ haft
          simp only [before, List.mem_append, List.mem_singleton]
          rintro y (hy | hy | rfl)
          · exact hbef y hy
          · have := hlx y hy; omega
          · exact hgt

/-! ## `rb_insert` -/

/-- The new leaf. -/
abbrev leaf (a : Addr) (s e : ℕ) : Shape := .node a .red ⟨s, e, 0, []⟩ .nil .nil

/-- **Linking the new leaf** into the hole the descent found. -/
theorem linkNew_spec {a : Addr} {s e : ℕ} (hm : Models m (fill K .nil))
    (hord : Ordered (fill K .nil)) (ha : m.heap a = none) (hse : s ≤ e)
    (hbef : ∀ y ∈ before K, y.2.stop < s) (haft : ∀ y ∈ after K, e < y.2.start) :
    ∃ m', linkNew (m.put a (newNode s e (parentId K))) (parentId K) s a = some m' ∧
      Models m' (fill K (leaf a s e)) ∧ m'.count = m.count ∧
      ∀ b, b ∉ (fill K .nil).ids → b ≠ a → m'.heap b = m.heap b := by
  obtain ⟨-, hcrep⟩ := rep_fill.1 hm.rep
  have hnew : a ∉ (fill K .nil).ids := fun h => by
    have := hm.rep.isSome h
    rw [ha] at this; simp at this
  have hnd : (fill K (leaf a s e)).ids.Nodup := by
    have h₁ := nodup_fill.1 hm.nodup
    rw [mem_ids_fill] at hnew
    rw [nodup_fill]
    simpa using ⟨fun h => hnew (.inr h), h₁⟩
  set m₁ := m.put a (newNode s e (parentId K)) with hm₁
  cases K with
  | nil =>
      refine ⟨{ m₁ with root := some a }, rfl, ⟨rfl, ?_, hnd⟩, rfl, fun b _ hb => ?_⟩
      · exact ⟨Mem.heap_put_self, trivial, trivial⟩
      · exact Mem.heap_put_of_ne hb
  | cons f fs =>
      obtain ⟨hf, hs, hrest⟩ := hcrep
      have hfa : f.id ≠ a := by
        rintro rfl
        rw [ha] at hf; simp at hf
      have hdisj := (nodup_fill.1 hm.nodup)
      simp only [ids_nil, List.nil_append, Ctx.ids, List.nodup_cons, List.mem_append,
        not_or] at hdisj
      have hin : ∀ b, b ∈ f.sib.ids ∨ b ∈ Ctx.ids fs → b ≠ a ∧ b ≠ f.id := by
        intro b hb
        refine ⟨fun h => hnew (mem_ids_fill.2 (.inr ?_)), fun h => ?_⟩
        · rw [← h]; simp [Ctx.ids, hb]
        · rw [h] at hb
          exact hb.elim hdisj.1.1 hdisj.1.2
      have hf₁ : m₁.heap f.id = some (cell (parentId fs) f.dir f.color f.val none f.sib.rootId) := by
        rw [hm₁, Mem.heap_put_of_ne hfa]; exact hf
      -- the code's comparison picks the side the hole is on
      have hval : f.val.start ≤ f.val.stop := by
        refine ((ordered_iff _).1 hord).proper (f.id, f.val) ?_
        rw [toList_fill]
        obtain ⟨d, id, c, x, sib⟩ := f
        cases d <;> simp [before, after]
      have hlink : linkNew m₁ (parentId (f :: fs)) s a =
          some (m₁.put f.id (cell (parentId fs) f.dir f.color f.val (some a) f.sib.rootId)) := by
        obtain ⟨d, id, c, x, sib⟩ := f
        cases d with
        | left =>
            have : e < x.start := haft (id, x) (by simp [after])
            simp only [linkNew, parentId_cons, Mem.load_some, hf₁, Option.bind_eq_bind,
              Option.bind_some, cell_data, if_pos (by omega : s < x.start), Mem.modify_some hf₁,
              setChild_cell]
        | right =>
            have h₁ : x.stop < s := hbef (id, x) (by simp [before])
            have hval' : x.start ≤ x.stop := hval
            simp only [linkNew, parentId_cons, Mem.load_some, hf₁, Option.bind_eq_bind,
              Option.bind_some, cell_data, if_neg (by omega : ¬ s < x.start), if_pos h₁,
              Mem.modify_some hf₁, setChild_cell]
      refine ⟨_, hlink, ⟨?_, rep_fill.2 ⟨?_, ?_, ?_, ?_⟩, hnd⟩, rfl, fun b hb hba => ?_⟩
      · rw [Mem.put_root, hm₁, Mem.put_root, hm.root]
        exact rootId_fill_cons f fs _ _
      · exact ⟨by rw [Mem.heap_put_of_ne hfa.symm, hm₁, Mem.heap_put_self]; rfl, trivial, trivial⟩
      · exact Mem.heap_put_self
      · exact hs.frame fun b hb => by
          rw [Mem.heap_put_of_ne (hin b (.inl hb)).2, hm₁, Mem.heap_put_of_ne (hin b (.inl hb)).1]
      · exact hrest.frame fun b hb => by
          rw [Mem.heap_put_of_ne (hin b (.inr hb)).2, hm₁, Mem.heap_put_of_ne (hin b (.inr hb)).1]
      · have hbf : b ≠ f.id := by
          rintro rfl
          exact hb (mem_ids_fill.2 (.inr (by simp [Ctx.ids])))
        rw [Mem.heap_put_of_ne hbf, hm₁, Mem.heap_put_of_ne hba]

theorem length_le_size : ∀ (K : ShapeCtx) (t : Shape), K.length + t.size ≤ (fill K t).size
  | [], t => by simp
  | f :: fs, t => by
      have h := length_le_size fs (plug f t)
      have h' : (plug f t).size = t.size + f.sib.size + 1 := by
        obtain ⟨d, id, c, x, sib⟩ := f
        cases d <;> simp [plug, nodeAt]; omega
      rw [List.length_cons]
      change _ ≤ (fill fs (plug f t)).size
      omega

/-- **A new range goes in** where the descent left off: the tree gains one
node with the given bounds and is valid again. -/
theorem rbInsertBelow_spec {a : Addr} {s e : ℕ} (hv : Valid m (fill K .nil))
    (ha : m.heap a = none) (hse : s ≤ e) (hbef : ∀ y ∈ before K, y.2.stop < s)
    (haft : ∀ y ∈ after K, e < y.2.start) :
    ∃ m' t', rbInsertBelow m (parentId K) s e a = some m' ∧ Valid m' t' ∧
      t'.toList = before K ++ (a, ⟨s, e, 0, []⟩) :: after K ∧
      ∀ b, b ∉ (fill K .nil).ids → b ≠ a → m'.heap b = m.heap b := by
  obtain ⟨m₁, hrun₁, hm₁, hcount₁, hframe₁⟩ := linkNew_spec hv.models hv.ordered ha hse hbef haft
  obtain ⟨n, hn⟩ := hv.balanced
  obtain ⟨c, k, hk, hc⟩ := exists_cbal hn
  obtain ⟨rfl, rfl⟩ : c = .black ∧ k = 0 := by cases hk; exact ⟨rfl, rfl⟩
  have hsize : m.count = (fill K .nil).size := hv.count
  have hlen := length_le_size K .nil
  set m₂ : Mem := { m₁ with count := m₁.count + 1 } with hm₂
  have hmod₂ : Models m₂ (fill K (nodeAt .left a .red ⟨s, e, 0, []⟩ .nil .nil)) :=
    ⟨hm₁.root, hm₁.rep, hm₁.nodup⟩
  obtain ⟨m₃, t, k, hrun₃, hev, hbal⟩ := rbInsertFixup_spec hmod₂ hc (by
    simp only [hm₂]; omega)
  have hcontent : t.toList = before K ++ (a, ⟨s, e, 0, []⟩) :: after K := by
    rw [hev.content, toList_fill]; simp [nodeAt]
  have hold : Ascending (before K ++ after K) := by
    have := (ordered_iff _).1 hv.ordered
    rw [toList_fill] at this
    simpa using this
  refine ⟨m₃, t, ?_, ⟨hev.models, ?_, ⟨k, hbal⟩, ?_⟩, hcontent, fun b hb hba => ?_⟩
  · simp only [rbInsertBelow, hrun₁, Option.bind_eq_bind, Option.bind_some]
    exact hrun₃
  · rw [ordered_iff, hcontent]
    exact hold.insert hse hbef haft
  · rw [hev.count, hm₂, hcount₁, hsize, Tree.size, Tree.size, hcontent, toList_fill]
    simp; omega
  · rw [hev.frame b, ← hframe₁ b hb hba]
    rw [mem_ids_fill] at hb ⊢
    simp only [nodeAt, ids_node, ids_nil, List.nil_append, List.mem_singleton, not_or] at hb ⊢
    exact ⟨hba, hb.2⟩

/-- **`rb_insert`**: an overlapping node is returned and nothing changes;
otherwise one node is added, or, where `malloc` fails, nothing. -/
theorem rbInsert_spec (hv : Valid m t) (s e : ℕ) {alloc : Ptr}
    (halloc : ∀ a, alloc = some a → m.heap a = none) :
    (∃ a x, (a, x) ∈ t.toList ∧ Meets x (min s e) (max s e) ∧
      rbInsert m s e alloc = some (m, some a)) ∨
    ((∀ y ∈ t.toList, ¬ Meets y.2 (min s e) (max s e)) ∧
      ((alloc = none ∧ rbInsert m s e alloc = some (m, none)) ∨
        ∃ a m' t' xs ys, alloc = some a ∧ rbInsert m s e alloc = some (m', some a) ∧
          Valid m' t' ∧ t.toList = xs ++ ys ∧
          t'.toList = xs ++ (a, ⟨min s e, max s e, 0, []⟩) :: ys ∧
          ∀ b, b ∉ t.ids → b ≠ a → m'.heap b = m.heap b)) := by
  have hse : min s e ≤ max s e := min_le_max
  obtain ⟨r, hrun, hr⟩ := rbInsertDescend_spec hse
    (show Rep m.heap t (parentId []) from hv.models.rep) hv.ordered
    (show t.size + 1 ≤ m.count + 1 by rw [hv.count]) (by simp [before]) (by simp [after])
  rw [← hv.models.root, parentId_nil] at hrun
  cases hr with
  | @found a x hmem hmeet =>
      refine .inl ⟨a, x, hmem, hmeet, ?_⟩
      simp [rbInsert, sortBounds_eq, hrun, guard]
  | @below K ht hbef haft =>
      rw [fill_nil] at ht
      subst ht
      refine .inr ⟨fun y hy => ?_, ?_⟩
      · rw [toList_fill] at hy
        simp only [toList_nil, List.append_nil, List.mem_append] at hy
        have hp := ((ordered_iff _).1 hv.ordered).proper y (by rw [toList_fill]; simpa using hy)
        simp only [Meets]
        rcases hy with hy | hy
        · have := hbef y hy; omega
        · have := haft y hy; omega
      · cases alloc with
        | none => exact .inl ⟨rfl, by simp [rbInsert, sortBounds_eq, hrun, guard]⟩
        | some a =>
            obtain ⟨m', t', hrun', hv', hcontent, hframe⟩ :=
              rbInsertBelow_spec hv (halloc a rfl) hse hbef haft
            refine .inr ⟨a, m', t', _, _, rfl, ?_, hv', ?_, hcontent, hframe⟩
            · simp [rbInsert, sortBounds_eq, hrun, guard, hrun']
            · rw [toList_fill]; simp

end RangeLock

end VmwareProto
