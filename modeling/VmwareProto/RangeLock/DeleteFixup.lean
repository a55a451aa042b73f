import VmwareProto.RangeLock.Insert
/-!
# The delete fixup

`x` is the root of a subtree one black node short (`Short`), in a context
balanced for a black occupant. One iteration either moves the shortage to
the parent (`deleteBlackSibling_spec`, first case) or ends it by at most
two rotations (second case); a red sibling is first rotated away
(`deleteRedSibling_spec`). `x` may be `NULL`; its parent is then what the
code tracks separately, and in every case it is `parentId` of the context.
-/

namespace VmwareProto

namespace RangeLock

open VmwareProto.Tree Ctx

variable {m : Mem} {K fs : ShapeCtx} {t X N F : Shape} {n : ℕ} {d : Dir} {p w : Addr}
  {c : Color} {px wx : NodeData}

/-! ## Reading -/

/-- The root of a filled context is not the hole's. -/
theorem Models.root_ne {f : Frame Addr NodeData} (hm : Models m (fill (f :: fs) X)) :
    m.root ≠ X.rootId := by
  have hmem : ∀ (gs : ShapeCtx) (g : Frame Addr NodeData) (t : Shape),
      ∃ a, (fill (g :: gs) t).rootId = some a ∧ a ∈ Ctx.ids (g :: gs) := by
    intro gs
    induction gs with
    | nil => intro g t; exact ⟨g.id, rootId_plug g t, by simp [Ctx.ids]⟩
    | cons g' gs ih =>
        intro g t
        obtain ⟨a, ha, hmem⟩ := ih g' (plug g t)
        refine ⟨a, ha, ?_⟩
        simp only [Ctx.ids, List.mem_cons, List.mem_append] at hmem ⊢
        tauto
  obtain ⟨a, ha, hmem⟩ := hmem fs f X
  rw [hm.root, ha]
  intro h
  exact hm.disjoint.2.2 a (mem_ids_of_rootId h.symm) hmem

/-- The side the code finds `x` on, `NULL` included: the sibling is there. -/
theorem x_side_eq {q x far : Ptr} (hne : far ≠ x) :
    (if x = (cell q d c px x far).left then Dir.left else Dir.right) = d := by
  cases d with
  | left => simp [cell]
  | right => simp [cell, Ne.symm hne]

/-- A hole's occupant and its sibling, when that is a node. -/
theorem Models.occupant_ne (hm : Models m (fill (⟨d, p, c, px, F⟩ :: fs) X)) (hF : F ≠ .nil) :
    F.rootId ≠ X.rootId := by
  intro h
  cases X with
  | nil => cases F <;> simp_all
  | node a c' x l r => exact hm.sibling_ne rfl h

/-- The occupant's parent is the context's head. -/
theorem Models.parentIs_eq (hm : Models m (fill K X)) :
    parentIs m X.rootId (parentId K) = some true := by
  cases X with
  | nil => rfl
  | node a c x l r =>
      have := Models.heap_nodeAt (d := .left) hm
      simp [parentIs, this]

/-- The two colour tests of a sibling do not depend on the side. -/
theorem isRed_children {q near far : Ptr} {x : NodeData} {b b' : Bool} (hn : m.isRed near = some b)
    (hf : m.isRed far = some b') :
    ∃ l r, m.isRed (cell q d c x near far).left = some l ∧
      m.isRed (cell q d c x near far).right = some r ∧
      ((l = false ∧ r = false) ↔ (b = false ∧ b' = false)) := by
  cases d with
  | left => exact ⟨b, b', hn, hf, Iff.rfl⟩
  | right => exact ⟨b', b, hf, hn, and_comm⟩

section Sibling

variable {W : Shape}

theorem Models.sibling (hm : Models m (fill (⟨d, p, c, px, W⟩ :: fs) X)) :
    Models m (fill (⟨d.flip, p, c, px, X⟩ :: fs) W) := by
  rw [fill_sibling]; exact hm

theorem Models.heap_sibling {cw : Color}
    (hm : Models m (fill (⟨d, p, c, px, nodeAt d w cw wx N F⟩ :: fs) X)) :
    m.heap w = some (cell (some p) d cw wx N.rootId F.rootId) :=
  hm.sibling.heap_nodeAt

end Sibling

/-! ## The final rotation -/

/-- **Outer nephew red**: one rotation about the parent ends the fixup. -/
theorem deleteOuterRed_spec {e : Dir} {f : Addr} {fx : NodeData} {F₁ F₂ : Shape}
    (hm : Models m (fill (⟨d, p, c, px,
      nodeAt d w .black wx N (nodeAt e f .red fx F₁ F₂)⟩ :: fs) X)) :
    ∃ m', deleteOuterRed d m (some p) (some w) = some m' ∧
      Evolves m m' (fill (⟨d, p, c, px,
          nodeAt d w .black wx N (nodeAt e f .red fx F₁ F₂)⟩ :: fs) X)
        (fill fs (nodeAt d w c wx (nodeAt d p .black px X N) (nodeAt e f .black fx F₁ F₂))) := by
  have hp := hm.heap_frame
  obtain ⟨m₁, hrun₁, hev₁⟩ := setColor_sibling hm c
  obtain ⟨m₂, hrun₂, hev₂⟩ := setColor_parent hev₁.models .black
  have hw := hev₂.models.heap_sibling
  have hm₂ : Models m₂ (fill (⟨d, w, c, wx, nodeAt e f .red fx F₁ F₂⟩ ::
      ⟨d.flip, p, .black, px, X⟩ :: fs) N) := hev₂.models.sibling
  obtain ⟨m₃, hrun₃, hev₃⟩ := setColor_sibling hm₂ .black
  have hev₃' : Evolves m₂ m₃
      (fill (⟨d, p, .black, px, nodeAt d w c wx N (nodeAt e f .red fx F₁ F₂)⟩ :: fs) X)
      (fill (⟨d, p, .black, px, nodeAt d w c wx N (nodeAt e f .black fx F₁ F₂)⟩ :: fs) X) := by
    rw [← fill_sibling d, ← fill_sibling d]; exact hev₃
  have hall := hev₁.trans (hev₂.trans hev₃')
  obtain ⟨m₄, hrun₄, hev₄⟩ := rotate_spec (K := fs) (d := d) hall.models
  refine ⟨m₄, ?_, hall.trans hev₄⟩
  simp only [deleteOuterRed, Mem.load_some, hp, cell_color, hrun₁, hrun₂, hw, cell_child_flip,
    rootId_nodeAt, hrun₃, hrun₄, Option.bind_eq_bind, Option.bind_some]

/-- **Inner nephew red, outer black**: a rotation about the sibling makes
the outer nephew red. -/
theorem deleteInnerRed_spec {a : Addr} {ax : NodeData} {N₁ N₂ : Shape}
    (hm : Models m (fill (⟨d, p, c, px,
      nodeAt d w .black wx (nodeAt d a .red ax N₁ N₂) F⟩ :: fs) X)) :
    ∃ m', deleteInnerRed d m (some p) (some w) = some (m', some a) ∧
      Evolves m m' (fill (⟨d, p, c, px,
          nodeAt d w .black wx (nodeAt d a .red ax N₁ N₂) F⟩ :: fs) X)
        (fill (⟨d, p, c, px, nodeAt d a .black ax N₁ (nodeAt d w .red wx N₂ F)⟩ :: fs) X) := by
  have hw := hm.heap_sibling
  have hm₀ : Models m (fill (⟨d, w, .black, wx, F⟩ :: ⟨d.flip, p, c, px, X⟩ :: fs)
      (nodeAt d a .red ax N₁ N₂)) := hm.sibling
  obtain ⟨m₁, hrun₁, hev₁⟩ := setColor_spec hm₀ .black
  obtain ⟨m₂, hrun₂, hev₂⟩ := setColor_parent hev₁.models .red
  have hm₂ : Models m₂ (fill (⟨d.flip, p, c, px, X⟩ :: fs)
      (nodeAt d.flip w .red wx F (nodeAt d.flip a .black ax N₂ N₁))) := by
    rw [nodeAt_flip, nodeAt_flip]; exact hev₂.models
  obtain ⟨m₃, hrun₃, hev₃⟩ := rotate_spec hm₂
  simp only [nodeAt_flip] at hev₃
  have hall : Evolves m m₃
      (fill (⟨d, p, c, px, nodeAt d w .black wx (nodeAt d a .red ax N₁ N₂) F⟩ :: fs) X)
      (fill (⟨d, p, c, px, nodeAt d a .black ax N₁ (nodeAt d w .red wx N₂ F)⟩ :: fs) X) := by
    rw [← fill_sibling d, ← fill_sibling d]; exact hev₁.trans (hev₂.trans hev₃)
  have hp := hall.models.heap_frame
  refine ⟨m₃, ?_, hall⟩
  simp only [deleteInnerRed, Mem.load_some, hw, cell_child, rootId_nodeAt, hrun₁, hrun₂, hrun₃, hp,
    cell_child_flip, guard, ne_eq, reduceCtorEq, not_false_eq_true, if_true, Option.pure_def,
    Option.bind_eq_bind, Option.bind_some]

/-- **Red sibling**: one rotation about the parent leaves a black one. -/
theorem deleteRedSibling_spec
    (hm : Models m (fill (⟨d, p, c, px, nodeAt d w .red wx N F⟩ :: fs) X)) (hN : N ≠ .nil) :
    ∃ m', deleteRedSibling d m X.rootId (some p) (some w) = some (m', N.rootId) ∧
      Evolves m m' (fill (⟨d, p, c, px, nodeAt d w .red wx N F⟩ :: fs) X)
        (fill (⟨d, p, .red, px, N⟩ :: ⟨d, w, .black, wx, F⟩ :: fs) X) := by
  obtain ⟨m₁, hrun₁, hev₁⟩ := setColor_sibling hm .black
  obtain ⟨m₂, hrun₂, hev₂⟩ := setColor_parent hev₁.models .red
  obtain ⟨m₃, hrun₃, hev₃⟩ := rotate_spec (K := fs) (d := d) hev₂.models
  have hall : Evolves m m₃ _ (fill (⟨d, p, .red, px, N⟩ :: ⟨d, w, .black, wx, F⟩ :: fs) X) :=
    hev₁.trans (hev₂.trans hev₃)
  have hpar₂ : parentIs m₂ X.rootId (some p) = some true := hev₂.models.parentIs_eq
  have hpar₃ : parentIs m₃ X.rootId (some p) = some true := hall.models.parentIs_eq
  have hp := hall.models.heap_frame
  have hNr : N.rootId ≠ none := by cases N <;> simp_all
  refine ⟨m₃, ?_, hall⟩
  simp only [deleteRedSibling, hrun₁, hrun₂, hpar₂, ite_self, guard, if_true, hrun₃, hpar₃,
    Mem.load_some, hp, cell_child_flip, ne_eq, hNr, not_false_eq_true, Option.pure_def,
    Option.bind_eq_bind, Option.bind_some]

/-! ## One iteration -/

/-- What an iteration leaves: the shortage higher up (at most `k`
ancestors away from the root), a red node that blackening repairs, or no
shortage. -/
inductive FixupStep (t : Shape) (k : ℕ) : Mem → Ptr → Mem → Prop
  | up {m m' : Mem} {gs : ShapeCtx} {T : Shape} {n : ℕ} : Evolves m m' t (fill gs T) → T ≠ .nil →
      Bal T .black n → CBal gs .black (n + 1) → gs.length ≤ k → FixupStep t k m T.rootId m'
  | red {m m' : Mem} {gs : ShapeCtx} {d : Dir} {a : Addr} {x : NodeData} {A B : Shape} {n : ℕ} :
      Evolves m m' t (fill gs (nodeAt d a .red x A B)) → Short (nodeAt d a .red x A B) n →
      CBal gs .black (n + 1) → FixupStep t k m (some a) m'
  | done {m m' : Mem} {T : Shape} {n : ℕ} : Evolves m m' t T → Bal T .black n →
      FixupStep t k m T.rootId m'

theorem nodeAt_ne_nil {A B : Shape} {a : Addr} {x : NodeData} : nodeAt d a c x A B ≠ .nil := by
  cases d <;> simp [nodeAt]

/-- Where both nephews are black the shortage moves to the parent, and a
red parent is about to be blackened. -/
theorem FixupStep.of_recolor {m m' : Mem} {k : ℕ} (hk : c = .black → fs.length ≤ k)
    (hev : Evolves m m' (fill (⟨d, p, c, px, nodeAt d w .black wx N F⟩ :: fs) X)
      (fill (⟨d, p, c, px, nodeAt d w .red wx N F⟩ :: fs) X))
    (hX : Bal X .black n) (hN : Bal N .black n) (hF : Bal F .black n)
    (hc : CBal (⟨d, p, c, px, nodeAt d w .black wx N F⟩ :: fs) .black (n + 1)) :
    FixupStep (fill (⟨d, p, c, px, nodeAt d w .black wx N F⟩ :: fs) X) k m (some p) m' := by
  have hw : Bal (nodeAt d w .red wx N F) .red n := bal_nodeAt_red.2 ⟨rfl, hN, hF⟩
  cases hc with
  | red _ hfs => exact .red (d := d) hev (short_nodeAt_red hX hw) hfs.of_red
  | black _ hfs =>
      have hp : Bal (nodeAt d p .black px X (nodeAt d w .red wx N F)) .black (n + 1) :=
        bal_nodeAt_black.2 ⟨rfl, _, _, _, rfl, hX, hw⟩
      have hev' : Evolves m m' (fill (⟨d, p, .black, px, nodeAt d w .black wx N F⟩ :: fs) X)
          (fill fs (nodeAt d p .black px X (nodeAt d w .red wx N F))) := hev
      have := FixupStep.up hev' nodeAt_ne_nil hp hfs (hk rfl)
      rwa [rootId_nodeAt] at this

theorem FixupStep.of_evolves {m₀ m m' : Mem} {t₀ t : Shape} {k : ℕ} {x : Ptr}
    (h : FixupStep t k m x m') (hev : Evolves m₀ m t₀ t) : FixupStep t₀ k m₀ x m' := by
  cases h with
  | up h₁ h₂ h₃ h₄ h₅ => exact .up (hev.trans h₁) h₂ h₃ h₄ h₅
  | red h₁ h₂ h₃ => exact .red (hev.trans h₁) h₂ h₃
  | done h₁ h₂ => exact .done (hev.trans h₁) h₂

/-- The final rotation ends the shortage. -/
theorem FixupStep.of_rotation {m m' : Mem} {k : ℕ} {e : Dir} {f : Addr} {fx : NodeData} {W N F₁ F₂ : Shape}
    {cn : Color}
    (hev : Evolves m m' (fill (⟨d, p, c, px, W⟩ :: fs) X)
      (fill fs (nodeAt d w c wx (nodeAt d p .black px X N) (nodeAt e f .black fx F₁ F₂))))
    (hX : Bal X .black n) (hN : Bal N cn n) (hF₁ : Bal F₁ .black n) (hF₂ : Bal F₂ .black n)
    (hc : CBal (⟨d, p, c, px, W⟩ :: fs) .black (n + 1)) :
    FixupStep (fill (⟨d, p, c, px, W⟩ :: fs) X) k m m'.root m' := by
  have hp : Bal (nodeAt d p .black px X N) .black (n + 1) :=
    bal_nodeAt_black.2 ⟨rfl, _, _, _, rfl, hX, hN⟩
  have hf : Bal (nodeAt e f .black fx F₁ F₂) .black (n + 1) :=
    bal_nodeAt_black.2 ⟨rfl, _, _, _, rfl, hF₁, hF₂⟩
  rw [hev.models.root]
  cases hc with
  | red _ hfs =>
      obtain ⟨k, hk⟩ := hfs.fill (bal_nodeAt_red (d := d) (a := w) (x := wx).2 ⟨rfl, hp, hf⟩)
      exact .done hev hk
  | black _ hfs =>
      obtain ⟨k, hk⟩ := hfs.fill
        (bal_nodeAt_black (d := d) (a := w) (x := wx).2 ⟨rfl, _, _, _, rfl, hp, hf⟩)
      exact .done hev hk

/-- **Black sibling.** -/
theorem deleteBlackSibling_spec {cn cf : Color} {k : ℕ} (hk : c = .black → fs.length ≤ k)
    (hm : Models m (fill (⟨d, p, c, px, nodeAt d w .black wx N F⟩ :: fs) X))
    (hX : Bal X .black n) (hN : Bal N cn n) (hF : Bal F cf n)
    (hc : CBal (⟨d, p, c, px, nodeAt d w .black wx N F⟩ :: fs) .black (n + 1)) :
    ∃ m' x', deleteBlackSibling d m X.rootId (some p) (some w) = some (m', x') ∧
      FixupStep (fill (⟨d, p, c, px, nodeAt d w .black wx N F⟩ :: fs) X) k m x' m' := by
  have hw := hm.heap_sibling
  have hmN : Models m (fill (⟨d, w, .black, wx, F⟩ :: ⟨d.flip, p, c, px, X⟩ :: fs) N) := hm.sibling
  have hNred := hmN.isRed_of_bal hN
  have hFred := hmN.sibling.isRed_of_bal hF
  obtain ⟨l, r, hl, hr, hlr⟩ := isRed_children (q := some p) (d := d) (c := .black) (x := wx)
    hNred hFred
  have hpar : parentIs m X.rootId (some p) = some true := hm.parentIs_eq
  by_cases hboth : l = false ∧ r = false
  · obtain ⟨m', hrun, hev⟩ := setColor_sibling hm .red
    obtain ⟨hn, hf⟩ := hlr.1 hboth
    obtain rfl : cn = .black := by cases cn <;> simp_all
    obtain rfl : cf = .black := by cases cf <;> simp_all
    refine ⟨m', some p, ?_, .of_recolor hk hev hX hN hF hc⟩
    simp only [deleteBlackSibling, Mem.load_some, hw, hl, hr, Option.bind_eq_bind,
      Option.bind_some, if_pos hboth, hrun]
  · cases cf with
    | red =>
        rcases hF.cases_nodeAt .left with ⟨-, h, -⟩ | ⟨f, fx, F₁, F₂, rfl, -, hF₁, hF₂⟩ |
          ⟨_, _, _, _, _, _, _, -, h, -⟩
        · cases h
        · obtain ⟨m', hrun, hev⟩ := deleteOuterRed_spec hm
          refine ⟨m', m'.root, ?_, .of_rotation hev hX hN hF₁ hF₂ hc⟩
          simp only [deleteBlackSibling, Mem.load_some, hw, hl, hr, Option.bind_eq_bind,
            Option.bind_some, if_neg hboth, hpar, guard, if_true, Option.pure_def, cell_child_flip,
            hFred, decide_true, hrun]
        · cases h
    | black =>
        obtain rfl : cn = .red := by cases cn <;> simp_all
        rcases hN.cases_nodeAt d with ⟨-, h, -⟩ | ⟨a, ax, N₁, N₂, rfl, -, hN₁, hN₂⟩ |
          ⟨_, _, _, _, _, _, _, -, h, -⟩
        · cases h
        · obtain ⟨m₁, hrun₁, hev₁⟩ := deleteInnerRed_spec hm
          obtain ⟨m', hrun, hev⟩ := deleteOuterRed_spec hev₁.models
          refine ⟨m', m'.root, ?_, .of_rotation (hev₁.trans hev) hX hN₁ hN₂ hF hc⟩
          simp only [deleteBlackSibling, Mem.load_some, hw, hl, hr, Option.bind_eq_bind,
            Option.bind_some, if_neg hboth, hpar, guard, if_true, Option.pure_def, cell_child_flip,
            hFred, reduceCtorEq, decide_false, Bool.false_eq_true, if_false, hrun₁, hrun]
        · cases h

/-- **One iteration** of `rb_delete_fixup`, with `x` on side `d`. -/
theorem deleteFixupSide_spec {W : Shape}
    (hm : Models m (fill (⟨d, p, c, px, W⟩ :: fs) X)) (hX : Bal X .black n)
    (hc : CBal (⟨d, p, c, px, W⟩ :: fs) .black (n + 1)) :
    ∃ m' x', deleteFixupSide d m X.rootId (some p) = some (m', x') ∧
      FixupStep (fill (⟨d, p, c, px, W⟩ :: fs) X) fs.length m x' m' := by
  obtain ⟨cw, hW⟩ : ∃ cw, Bal W cw (n + 1) := by
    cases hc with
    | red hs _ => exact ⟨_, hs⟩
    | black hs _ => exact ⟨_, hs⟩
  have hp := hm.heap_frame
  have hWred := hm.sibling.isRed_of_bal hW
  have hWne : W.rootId ≠ none := by
    have := hW.ne_nil
    cases W <;> simp_all
  rcases hW.cases_nodeAt d with ⟨rfl, -, -⟩ | ⟨w, wx, N, F, rfl, rfl, hN, hF⟩ |
    ⟨w, wx, N, F, c₁, c₂, k, rfl, rfl, hk, hN, hF⟩
  · simp at hWne
  · cases hc with
    | red hs _ => cases d <;> cases hs
    | black _ hfs =>
        obtain ⟨m₁, hrun₁, hev₁⟩ := deleteRedSibling_spec hm hN.ne_nil
        rcases hN.cases_nodeAt d with ⟨-, -, h⟩ | ⟨_, _, _, _, -, h, -⟩ |
          ⟨v, vx, N', F', c₁, c₂, k, rfl, -, hk, hN', hF'⟩
        · omega
        · cases h
        · obtain rfl : k = n := by omega
          have hc' : CBal (⟨d, p, .red, px, nodeAt d v .black vx N' F'⟩ ::
              ⟨d, w, .black, wx, F⟩ :: fs) .black (k + 1) := .red hN (.black hF hfs)
          obtain ⟨m', x', hrun, hstep⟩ :=
            deleteBlackSibling_spec (k := fs.length) (by simp) hev₁.models hX hN' hF' hc'
          refine ⟨m', x', ?_, hstep.of_evolves hev₁⟩
          simp only [rootId_nodeAt] at hrun₁ hWred
          simp only [deleteFixupSide, Mem.load_some, hp, cell_child_flip, rootId_nodeAt, guard,
            ne_eq, reduceCtorEq, not_false_eq_true, if_true, Option.pure_def, Option.bind_eq_bind,
            Option.bind_some, hWred, decide_true, hrun₁, hrun]
  · obtain rfl : k = n := by omega
    obtain ⟨m', x', hrun, hstep⟩ :=
      deleteBlackSibling_spec (k := fs.length) (fun _ => le_rfl) hm hX hN hF hc
    refine ⟨m', x', ?_, hstep⟩
    rw [rootId_nodeAt] at hWred
    simp only [deleteFixupSide, Mem.load_some, hp, cell_child_flip, rootId_nodeAt, guard,
      ne_eq, reduceCtorEq, not_false_eq_true, if_true, Option.pure_def, Option.bind_eq_bind,
      Option.bind_some, hWred, decide_false, Bool.false_eq_true, if_false, hrun]

/-! ## The loop -/

/-- Where the loop stops: at the root, or at a red node. -/
inductive FixupEnd : ShapeCtx → Shape → Prop
  | root {T : Shape} {n : ℕ} : Short T n → FixupEnd [] T
  | red {gs : ShapeCtx} {d : Dir} {a : Addr} {x : NodeData} {A B : Shape} {n : ℕ} :
      Short (nodeAt d a .red x A B) n → CBal gs .black (n + 1) →
      FixupEnd gs (nodeAt d a .red x A B)

/-- The loop stops at a red `x`. -/
theorem rbDeleteFixupLoop_red {fuel : ℕ} {x parent : Ptr} (hx : m.isRed x = some true) :
    rbDeleteFixupLoop (fuel + 1) m x parent = some (m, x) := by
  simp [rbDeleteFixupLoop, hx]

/-- The loop stops at the root. -/
theorem rbDeleteFixupLoop_root {fuel : ℕ} {parent : Ptr} {b : Bool}
    (hx : m.isRed m.root = some b) :
    rbDeleteFixupLoop (fuel + 1) m m.root parent = some (m, m.root) := by
  simp [rbDeleteFixupLoop, hx]

/-- The parent the loop works with, `x` being `NULL` or not. -/
theorem trackedParent_eq {f : Frame Addr NodeData} {parent : Ptr}
    (hm : Models m (fill (f :: fs) X)) (hpar : X = .nil → parent = some f.id) :
    trackedParent m X.rootId parent = some (some f.id) := by
  cases X with
  | nil => simp [trackedParent, hpar rfl]
  | node a c x l r =>
      have := Models.heap_nodeAt (d := .left) (K := f :: fs) hm
      simp [trackedParent, this]

/-- **The loop of `rb_delete_fixup`** stops, at the root or at a red node,
with nothing else left to repair. -/
theorem rbDeleteFixupLoop_spec : ∀ {fuel : ℕ} {m : Mem} {K : ShapeCtx} {X : Shape} {n : ℕ}
    {c : Color} {parent : Ptr}, K.length + 2 ≤ fuel → Models m (fill K X) → Bal X c n →
    CBal K .black (n + 1) → (X = .nil → parent = parentId K) →
    ∃ m' gs T, rbDeleteFixupLoop fuel m X.rootId parent = some (m', T.rootId) ∧
      Evolves m m' (fill K X) (fill gs T) ∧ FixupEnd gs T := by
  intro fuel
  induction fuel with
  | zero => intro _ _ _ _ _ _ hf; omega
  | succ fuel ih =>
      intro m K X n c parent hf hm hX hc hpar
      have hred := hm.isRed_of_bal hX
      cases c with
      | red =>
          rcases hX.cases_nodeAt .left with ⟨-, h, -⟩ | ⟨a, x, A, B, rfl, -, hA, hB⟩ |
            ⟨_, _, _, _, _, _, _, -, h, -⟩
          · cases h
          · exact ⟨m, K, _, rbDeleteFixupLoop_red hred, hm.evolves_refl, .red hX.short hc⟩
          · cases h
      | black =>
          cases K with
          | nil =>
              refine ⟨m, [], X, ?_, hm.evolves_refl, .root hX.short⟩
              have hroot : m.root = X.rootId := hm.root
              rw [← hroot] at hred ⊢
              exact rbDeleteFixupLoop_root hred
          | cons f fs =>
              obtain ⟨d, p, c, px, W⟩ := f
              have hW : W ≠ .nil := by
                cases hc with
                | red hs _ => exact hs.ne_nil
                | black hs _ => exact hs.ne_nil
              have hp := hm.heap_frame
              obtain ⟨m₁, x₁, hrun₁, hstep⟩ := deleteFixupSide_spec hm hX hc
              have hunfold : rbDeleteFixupLoop (fuel + 1) m X.rootId parent =
                  rbDeleteFixupLoop fuel m₁ x₁ (some p) := by
                rw [rbDeleteFixupLoop]
                simp only [hred, Option.bind_eq_bind, Option.bind_some, ne_eq, hm.root_ne,
                  not_false_eq_true, reduceCtorEq, decide_false, and_self, if_true]
                simp only [trackedParent_eq hm hpar, Option.bind_some, Mem.load_some, hp,
                  x_side_eq (hm.occupant_ne hW), hrun₁]
              rw [hunfold]
              simp only [List.length_cons] at hf
              cases hstep with
              | up hev hne hT hgs hlen =>
                  obtain ⟨m', gs', T', hrun', hev', hend⟩ :=
                    ih (by omega) hev.models hT hgs fun h => absurd h hne
                  exact ⟨m', gs', T', hrun', hev.trans hev', hend⟩
              | @red _ gs e a x A B k hev hs hgs =>
                  obtain ⟨fuel, rfl⟩ : ∃ f, fuel = f + 1 := ⟨fuel - 1, by omega⟩
                  refine ⟨m₁, gs, _, ?_, hev, .red hs hgs⟩
                  rw [rootId_nodeAt]
                  exact rbDeleteFixupLoop_red hev.models.isRed_nodeAt
              | @done _ T k hev hT =>
                  obtain ⟨fuel, rfl⟩ : ∃ f, fuel = f + 1 := ⟨fuel - 1, by omega⟩
                  refine ⟨m₁, [], T, ?_, hev, .root hT.short⟩
                  have hm₁ : Models m₁ (fill [] T) := hev.models
                  have hred₁ := hm₁.isRed_of_bal hT
                  rw [← hev.models.root] at hred₁ ⊢
                  exact rbDeleteFixupLoop_root hred₁

theorem FixupEnd.ne_nil {gs : ShapeCtx} {T : Shape} (h : FixupEnd gs T) (hne : fill gs T ≠ .nil) :
    T ≠ .nil := by
  cases h with
  | root _ => exact hne
  | red _ _ => exact nodeAt_ne_nil

/-- The last writes of `rb_delete_fixup` leave a balanced tree. -/
theorem FixupEnd.blacken {gs : ShapeCtx} {T : Shape} (h : FixupEnd gs T) (hm : Models m (fill gs T))
    (hT : T ≠ .nil) :
    ∃ m' t' k, m.modify T.rootId (·.setColor .black) = some m' ∧ Evolves m m' (fill gs T) t' ∧
      t' ≠ .nil ∧ Bal t' .black k := by
  cases h with
  | @root _ n hs =>
      obtain ⟨m', t', k, hrun, hev, hb⟩ := blackenRoot_spec hm hT hs
      have hroot : m.root = T.rootId := hm.root
      refine ⟨m', t', k, by rw [← hroot]; exact hrun, hev, ?_, hb⟩
      rintro rfl
      have := hev.content
      cases T <;> simp_all
  | @red _ d a x A B n hs hgs =>
      obtain ⟨m', hrun, hev⟩ := setColor_spec hm .black
      have hb : Bal (nodeAt d a .black x A B) .black (n + 1) := by
        rcases hs with hb | ⟨_, _, _, _, c₁, c₂, heq, hl, hr⟩
        · cases d <;> cases hb
        · cases d with
          | left =>
              injection heq with _ _ _ h₁ h₂
              subst h₁ h₂
              exact .black hl hr
          | right =>
              injection heq with _ _ _ h₁ h₂
              subst h₁ h₂
              exact .black hl hr
      obtain ⟨k, hk⟩ := hgs.fill hb
      rw [rootId_nodeAt]
      exact ⟨m', _, k, hrun, hev, fun h => nodeAt_ne_nil (fill_eq_nil h).2, hk⟩

/-- **`rb_delete_fixup`** on a subtree one black node short. -/
theorem rbDeleteFixup_spec {c : Color} (hm : Models m (fill K X)) (hX : Bal X c n)
    (hc : CBal K .black (n + 1)) (hcount : K.length + 1 ≤ m.count) :
    ∃ m' t' k, rbDeleteFixup m X.rootId (parentId K) = some m' ∧
      Evolves m m' (fill K X) t' ∧ Bal t' .black k := by
  by_cases hnil : fill K X = .nil
  · obtain ⟨rfl, rfl⟩ := fill_eq_nil hnil
    exact ⟨m, .nil, 0, by simp [rbDeleteFixup], hm.evolves_refl, .nil⟩
  have hroot : m.root ≠ none := by
    rw [hm.root]
    generalize fill K X = t at hnil
    cases t <;> simp_all
  have hnull : ¬ (X.rootId = none ∧ parentId K = none) := by
    rintro ⟨h₁, h₂⟩
    cases K with
    | nil => exact hroot (by rw [hm.root]; exact h₁)
    | cons f fs => simp at h₂
  obtain ⟨m₁, gs, T, hrun₁, hev₁, hend⟩ :=
    rbDeleteFixupLoop_spec (show K.length + 2 ≤ m.count + 1 by omega) hm hX hc
      fun _ : X = .nil => (rfl : parentId K = parentId K)
  have hT : T ≠ .nil := hend.ne_nil fun h => by
    have hids := ids_eq_of_content hev₁.content
    rw [h] at hids
    generalize fill K X = t at hids hnil
    cases t <;> simp_all
  obtain ⟨m₂, t₂, k₂, hrun₂, hev₂, hne₂, hb₂⟩ := hend.blacken hev₁.models hT
  obtain ⟨m₃, t₃, k₃, hrun₃, hev₃, hb₃⟩ := blackenRoot_spec hev₂.models hne₂ hb₂.short
  refine ⟨m₃, t₃, k₃, ?_, hev₁.trans (hev₂.trans hev₃), hb₃⟩
  obtain ⟨a, ha⟩ : ∃ a, T.rootId = some a := by cases T <;> simp_all
  rw [ha] at hrun₁ hrun₂
  simp only [rbDeleteFixup, if_neg hroot, if_neg hnull, hrun₁, Option.bind_eq_bind,
    Option.bind_some, hrun₂, hrun₃]

end RangeLock

end VmwareProto
