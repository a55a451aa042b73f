import Mathlib.Data.List.Nodup
import Mathlib.Data.List.Perm.Basic
import Mathlib.Tactic.Common
/-!
# Labelled trees and their contexts

Binary trees whose nodes carry an identity, a colour and a value, and the
contexts that stand above a subtree: one frame per ancestor, nearest
first. Side is a parameter (`nodeAt`), so one lemma covers a statement
and its mirror image. The file knows nothing of memory; what it supplies
is the algebra of `fill`: in-order content, identities, and how both
split around a hole.
-/

namespace VmwareProto

/-- The two colours of a red-black node. -/
inductive Color
  | black
  | red
  deriving DecidableEq, Repr

/-- A side of a node. -/
inductive Dir
  | left
  | right
  deriving DecidableEq, Repr

/-- The other side. -/
def Dir.flip : Dir → Dir
  | .left => .right
  | .right => .left

@[simp] theorem Dir.flip_left : Dir.left.flip = .right := rfl
@[simp] theorem Dir.flip_right : Dir.right.flip = .left := rfl
@[simp] theorem Dir.flip_flip (d : Dir) : d.flip.flip = d := by cases d <;> rfl

/-- A binary tree with identified, coloured nodes. -/
inductive Tree (ι α : Type*)
  | nil
  | node (id : ι) (c : Color) (x : α) (l r : Tree ι α)

namespace Tree

variable {ι α : Type*}

/-- The node with `near` on side `d` and `far` on the other. -/
def nodeAt (d : Dir) (id : ι) (c : Color) (x : α) (near far : Tree ι α) : Tree ι α :=
  match d with
  | .left => node id c x near far
  | .right => node id c x far near

/-- The identity at the root, if there is a root. -/
def rootId : Tree ι α → Option ι
  | nil => none
  | node id _ _ _ _ => some id

/-- The in-order content. -/
def toList : Tree ι α → List (ι × α)
  | nil => []
  | node id _ x l r => l.toList ++ (id, x) :: r.toList

/-- The identities, in order. -/
def ids (t : Tree ι α) : List ι := t.toList.map Prod.fst

@[simp] theorem toList_nil : (nil : Tree ι α).toList = [] := rfl

@[simp] theorem toList_node (id : ι) (c : Color) (x : α) (l r : Tree ι α) :
    (node id c x l r).toList = l.toList ++ (id, x) :: r.toList := rfl

@[simp] theorem ids_nil : (nil : Tree ι α).ids = [] := rfl

@[simp] theorem ids_node (id : ι) (c : Color) (x : α) (l r : Tree ι α) :
    (node id c x l r).ids = l.ids ++ id :: r.ids := by
  simp [ids]

@[simp] theorem rootId_nil : (nil : Tree ι α).rootId = none := rfl

@[simp] theorem rootId_node (id : ι) (c : Color) (x : α) (l r : Tree ι α) :
    (node id c x l r).rootId = some id := rfl

@[simp] theorem rootId_nodeAt (d : Dir) (id : ι) (c : Color) (x : α) (t u : Tree ι α) :
    (nodeAt d id c x t u).rootId = some id := by
  cases d <;> rfl

theorem nodeAt_flip (d : Dir) (id : ι) (c : Color) (x : α) (t u : Tree ι α) :
    nodeAt d.flip id c x t u = nodeAt d id c x u t := by
  cases d <;> rfl

/-- The root is one of the identities. -/
theorem mem_ids_of_rootId {t : Tree ι α} {a : ι} (h : t.rootId = some a) : a ∈ t.ids := by
  cases t with
  | nil => simp at h
  | node id c x l r =>
      have : id = a := by simpa using h
      simp [this]

/-- Every tree with a root is a node, read from either side. -/
theorem exists_nodeAt (d : Dir) {t : Tree ι α} (h : t ≠ nil) :
    ∃ id c x near far, t = nodeAt d id c x near far := by
  cases t with
  | nil => exact absurd rfl h
  | node id c x l r =>
      cases d with
      | left => exact ⟨id, c, x, l, r, rfl⟩
      | right => exact ⟨id, c, x, r, l, rfl⟩

/-- The identities of a node, up to order. -/
theorem ids_nodeAt_perm (d : Dir) (id : ι) (c : Color) (x : α) (t u : Tree ι α) :
    (nodeAt d id c x t u).ids.Perm (id :: (t.ids ++ u.ids)) := by
  cases d with
  | left => simp [nodeAt, List.perm_middle]
  | right =>
      have h : (u.ids ++ id :: t.ids).Perm (id :: (u.ids ++ t.ids)) := List.perm_middle
      simpa [nodeAt] using h.trans (List.Perm.cons id List.perm_append_comm)

/-- A rotation keeps the in-order content. -/
theorem toList_rotate (d : Dir) (a b : ι) (ca cb ca' cb' : Color) (x y : α) (A B C : Tree ι α) :
    (nodeAt d b cb' y (nodeAt d a ca' x A B) C).toList =
      (nodeAt d a ca x A (nodeAt d.flip b cb y C B)).toList := by
  cases d <;> simp [nodeAt]

end Tree

/-! ## Contexts -/

/-- One ancestor of a hole: the side the hole is on, the ancestor's own
node, and the subtree on its other side. -/
structure Frame (ι α : Type*) where
  dir : Dir
  id : ι
  color : Color
  val : α
  sib : Tree ι α

/-- The ancestors of a hole, nearest first. -/
abbrev Ctx (ι α : Type*) := List (Frame ι α)

namespace Ctx

open VmwareProto.Tree

variable {ι α : Type*}

/-- A frame closed over a subtree. -/
def plug (f : Frame ι α) (t : Tree ι α) : Tree ι α :=
  nodeAt f.dir f.id f.color f.val t f.sib

/-- A context closed over a subtree. -/
def fill : Ctx ι α → Tree ι α → Tree ι α
  | [], t => t
  | f :: fs, t => fill fs (plug f t)

/-- The identity of the nearest ancestor. -/
def parentId : Ctx ι α → Option ι
  | [] => none
  | f :: _ => some f.id

/-- The identities in a context. -/
def ids : Ctx ι α → List ι
  | [] => []
  | f :: fs => f.id :: (f.sib.ids ++ ids fs)

/-- The in-order content left of the hole. -/
def before : Ctx ι α → List (ι × α)
  | [] => []
  | f :: fs =>
      match f.dir with
      | .left => before fs
      | .right => before fs ++ (f.sib.toList ++ [(f.id, f.val)])

/-- The in-order content right of the hole. -/
def after : Ctx ι α → List (ι × α)
  | [] => []
  | f :: fs =>
      match f.dir with
      | .left => (f.id, f.val) :: f.sib.toList ++ after fs
      | .right => after fs

@[simp] theorem fill_nil (t : Tree ι α) : fill [] t = t := rfl

theorem fill_cons (f : Frame ι α) (fs : Ctx ι α) (t : Tree ι α) :
    fill (f :: fs) t = fill fs (nodeAt f.dir f.id f.color f.val t f.sib) := rfl

@[simp] theorem rootId_plug (f : Frame ι α) (t : Tree ι α) : (plug f t).rootId = some f.id :=
  rootId_nodeAt ..

@[simp] theorem parentId_nil : parentId ([] : Ctx ι α) = none := rfl

@[simp] theorem parentId_cons (f : Frame ι α) (fs : Ctx ι α) :
    parentId (f :: fs) = some f.id := rfl

/-- Moving between the two children of an ancestor. -/
theorem fill_sibling (d : Dir) (id : ι) (c : Color) (x : α) (fs : Ctx ι α) (t u : Tree ι α) :
    fill (⟨d.flip, id, c, x, u⟩ :: fs) t = fill (⟨d, id, c, x, t⟩ :: fs) u := by
  rw [fill_cons, fill_cons, nodeAt_flip]

/-- **The content of a filled context** is the hole's content between
what lies left and right of it. -/
theorem toList_fill (K : Ctx ι α) (t : Tree ι α) :
    (fill K t).toList = before K ++ t.toList ++ after K := by
  induction K generalizing t with
  | nil => simp [fill, before, after]
  | cons f fs ih =>
      obtain ⟨d, id, c, x, sib⟩ := f
      rw [fill_cons, ih]
      cases d <;> simp [nodeAt, before, after, List.append_assoc]

/-- Two holes of equal content fill to equal content. -/
theorem toList_fill_congr (K : Ctx ι α) {t u : Tree ι α} (h : t.toList = u.toList) :
    (fill K t).toList = (fill K u).toList := by
  rw [toList_fill, toList_fill, h]

theorem ids_fill_congr (K : Ctx ι α) {t u : Tree ι α} (h : t.toList = u.toList) :
    (fill K t).ids = (fill K u).ids := by
  rw [Tree.ids, Tree.ids, toList_fill_congr K h]

/-- The identities split around the hole. -/
theorem ids_fill_perm (K : Ctx ι α) (t : Tree ι α) :
    (fill K t).ids.Perm (t.ids ++ ids K) := by
  induction K generalizing t with
  | nil => simp [fill, ids]
  | cons f fs ih =>
      refine (ih _).trans ?_
      have h := (ids_nodeAt_perm f.dir f.id f.color f.val t f.sib).append_right (ids fs)
      refine h.trans ?_
      have h2 : (f.id :: (t.ids ++ f.sib.ids) ++ ids fs).Perm
          (t.ids ++ f.id :: (f.sib.ids ++ ids fs)) := by
        have h : (t.ids ++ f.id :: (f.sib.ids ++ ids fs)).Perm (f.id :: (t.ids ++ (f.sib.ids ++ ids fs))) :=
          List.perm_middle
        have := h.symm
        simpa [List.append_assoc] using this
      exact h2

theorem mem_ids_fill {K : Ctx ι α} {t : Tree ι α} {a : ι} :
    a ∈ (fill K t).ids ↔ a ∈ t.ids ∨ a ∈ ids K := by
  rw [(ids_fill_perm K t).mem_iff, List.mem_append]

theorem nodup_fill {K : Ctx ι α} {t : Tree ι α} :
    (fill K t).ids.Nodup ↔ (t.ids ++ ids K).Nodup :=
  (ids_fill_perm K t).nodup_iff

/-- A filled context is empty only if nothing was there. -/
theorem fill_eq_nil {K : Ctx ι α} {t : Tree ι α} (h : fill K t = Tree.nil) :
    K = [] ∧ t = Tree.nil := by
  have hl : (fill K t).toList = [] := by rw [h]; rfl
  rw [toList_fill] at hl
  cases K with
  | nil => exact ⟨rfl, h⟩
  | cons f fs =>
      exfalso
      have hlen : (fill fs (plug f t)).ids = [] := by
        change (fill (f :: fs) t).ids = []
        rw [h]; rfl
      have : f.id ∈ (fill fs (plug f t)).ids := by
        refine mem_ids_fill.2 (Or.inl ?_)
        exact (ids_nodeAt_perm f.dir f.id f.color f.val t f.sib).mem_iff.2 (by simp)
      rw [hlen] at this
      simp at this

/-- The root of a filled context is the hole's when nothing is above it,
and the context's own otherwise. -/
theorem rootId_fill_cons (f : Frame ι α) (fs : Ctx ι α) (t u : Tree ι α) :
    (fill (f :: fs) t).rootId = (fill (f :: fs) u).rootId := by
  induction fs generalizing f t u with
  | nil => simp [fill, plug]
  | cons g gs ih => exact ih g _ _

theorem fill_append (K fs : Ctx ι α) (t : Tree ι α) :
    fill (K ++ fs) t = fill fs (fill K t) := by
  induction K generalizing t with
  | nil => rfl
  | cons f K ih => exact ih _

/-- Every identity of a tree sits at the top of some subtree. -/
theorem exists_fill_of_mem {t : Tree ι α} {a : ι} (h : a ∈ t.ids) :
    ∃ K c x l r, t = fill K (Tree.node a c x l r) := by
  induction t with
  | nil => simp at h
  | node b c x l r ihl ihr =>
      rw [Tree.ids_node, List.mem_append, List.mem_cons] at h
      rcases h with h | rfl | h
      · obtain ⟨K, c', x', l', r', rfl⟩ := ihl h
        refine ⟨K ++ [⟨.left, b, c, x, r⟩], c', x', l', r', ?_⟩
        rw [fill_append]; rfl
      · exact ⟨[], c, x, l, r, rfl⟩
      · obtain ⟨K, c', x', l', r', rfl⟩ := ihr h
        refine ⟨K ++ [⟨.right, b, c, x, l⟩], c', x', l', r', ?_⟩
        rw [fill_append]; rfl

end Ctx

end VmwareProto
