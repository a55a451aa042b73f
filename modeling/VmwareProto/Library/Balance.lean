import VmwareProto.Library.Tree
import Mathlib.Algebra.Group.Nat.Defs
import Mathlib.Data.Nat.Log
/-!
# Red-black balance

`Bal t c n`: no red node has a red child, every path to a leaf meets `n`
black nodes, and the root has colour `c`. `CBal K c n` is the same of a
tree with a hole: filled with a `Bal _ c n` it is balanced under a black
root (`CBal.fill`). The two ways an update leaves a tree in between have
a name here too: `Short n` is a subtree one black node short of what its
context asks for, and recolouring its root repairs it when the root is
red.
-/

namespace VmwareProto

namespace Tree

variable {ι α : Type*}

/-- The red-black invariant of a subtree: root colour and black height. -/
inductive Bal : Tree ι α → Color → ℕ → Prop
  | nil : Bal nil .black 0
  | red {id : ι} {x : α} {l r : Tree ι α} {n : ℕ} :
      Bal l .black n → Bal r .black n → Bal (node id .red x l r) .red n
  | black {id : ι} {x : α} {l r : Tree ι α} {c₁ c₂ : Color} {n : ℕ} :
      Bal l c₁ n → Bal r c₂ n → Bal (node id .black x l r) .black (n + 1)

variable {d : Dir} {a : ι} {c : Color} {x : α} {t u : Tree ι α} {n : ℕ}

theorem bal_nodeAt_red :
    Bal (nodeAt d a .red x t u) c n ↔ c = .red ∧ Bal t .black n ∧ Bal u .black n := by
  cases d <;> constructor
  · rintro (_ | ⟨hl, hr⟩); exact ⟨rfl, hl, hr⟩
  · rintro ⟨rfl, hl, hr⟩; exact .red hl hr
  · rintro (_ | ⟨hl, hr⟩); exact ⟨rfl, hr, hl⟩
  · rintro ⟨rfl, hl, hr⟩; exact .red hr hl

theorem bal_nodeAt_black :
    Bal (nodeAt d a .black x t u) c n ↔
      c = .black ∧ ∃ c₁ c₂ m, n = m + 1 ∧ Bal t c₁ m ∧ Bal u c₂ m := by
  cases d <;> constructor
  · rintro (_ | _ | ⟨hl, hr⟩); exact ⟨rfl, _, _, _, rfl, hl, hr⟩
  · rintro ⟨rfl, _, _, _, rfl, hl, hr⟩; exact .black hl hr
  · rintro (_ | _ | ⟨hl, hr⟩); exact ⟨rfl, _, _, _, rfl, hr, hl⟩
  · rintro ⟨rfl, _, _, _, rfl, hl, hr⟩; exact .black hr hl

/-- Where the black height is positive there is a node. -/
theorem Bal.ne_nil (h : Bal t c (n + 1)) : t ≠ Tree.nil := by
  rintro rfl; cases h

/-- A balanced tree read as a node on a chosen side: a red root stands
over two black subtrees, a black root one level above two of any colour. -/
theorem Bal.cases_nodeAt (d : Dir) (h : Bal t c n) :
    (t = Tree.nil ∧ c = .black ∧ n = 0) ∨
    (∃ id x near far, t = nodeAt d id .red x near far ∧ c = .red ∧
      Bal near .black n ∧ Bal far .black n) ∨
    (∃ id x near far c₁ c₂ m, t = nodeAt d id .black x near far ∧ c = .black ∧ n = m + 1 ∧
      Bal near c₁ m ∧ Bal far c₂ m) := by
  cases h with
  | nil => exact .inl ⟨rfl, rfl, rfl⟩
  | red hl hr =>
      refine .inr (.inl ?_)
      cases d with
      | left => exact ⟨_, _, _, _, rfl, rfl, hl, hr⟩
      | right => exact ⟨_, _, _, _, rfl, rfl, hr, hl⟩
  | black hl hr =>
      refine .inr (.inr ?_)
      cases d with
      | left => exact ⟨_, _, _, _, _, _, _, rfl, rfl, rfl, hl, hr⟩
      | right => exact ⟨_, _, _, _, _, _, _, rfl, rfl, rfl, hr, hl⟩

/-- A subtree one black node short: balanced with a black root, or under
a red root whose children may be of any colour. -/
def Short (t : Tree ι α) (n : ℕ) : Prop :=
  Bal t .black n ∨ ∃ id x l r c₁ c₂, t = node id .red x l r ∧ Bal l c₁ n ∧ Bal r c₂ n

theorem Bal.short (h : Bal t c n) : Short t n := by
  cases c with
  | black => exact .inl h
  | red =>
      cases h with
      | red hl hr => exact .inr ⟨_, _, _, _, _, _, rfl, hl, hr⟩

/-- A red root over balanced subtrees of any colour is short. -/
theorem short_nodeAt_red {c₁ c₂ : Color} (ht : Bal t c₁ n) (hu : Bal u c₂ n) :
    Short (nodeAt d a .red x t u) n := by
  cases d with
  | left => exact .inr ⟨_, _, _, _, _, _, rfl, ht, hu⟩
  | right => exact .inr ⟨_, _, _, _, _, _, rfl, hu, ht⟩

/-- The number of nodes. -/
def size (t : Tree ι α) : ℕ := t.toList.length

@[simp] theorem size_nil : (nil : Tree ι α).size = 0 := rfl

@[simp] theorem size_node (id : ι) (l r : Tree ι α) :
    (node id c x l r).size = l.size + r.size + 1 := by
  simp [size]; omega

theorem length_ids (t : Tree ι α) : t.ids.length = t.size := by
  simp [ids, size]

/-! ## Height -/

/-- The number of nodes on the longest path down. -/
def height : Tree ι α → ℕ
  | nil => 0
  | node _ _ _ l r => max l.height r.height + 1

theorem height_le_size (t : Tree ι α) : t.height ≤ t.size := by
  induction t with
  | nil => rfl
  | node id c x l r ihl ihr =>
      rw [height, size_node]
      omega

/-- At most every other node of a path is red. -/
theorem Bal.height_le (h : Bal t c n) : t.height ≤ 2 * n + if c = .red then 1 else 0 := by
  induction h with
  | nil => simp [height]
  | red _ _ ihl ihr =>
      simp only [height, reduceCtorEq, if_false, if_true] at ihl ihr ⊢
      omega
  | @black _ _ l r c₁ c₂ n _ _ ihl ihr =>
      have hle : ∀ c' : Color, (if c' = Color.red then 1 else 0) ≤ 1 := fun c' => by split <;> omega
      have h₁ := hle c₁
      have h₂ := hle c₂
      simp only [height, reduceCtorEq, if_false]
      omega

/-- Where every path meets `n` black nodes there are at least `2 ^ n - 1`
nodes. -/
theorem Bal.two_pow_le (h : Bal t c n) : 2 ^ n ≤ t.size + 1 := by
  induction h with
  | nil => simp
  | red _ _ ihl ihr =>
      rw [size_node]
      omega
  | black _ _ ihl ihr =>
      rw [size_node, Nat.pow_succ]
      omega

/-- **A red-black tree is balanced.** -/
theorem Bal.height_le_log (h : Bal t .black n) : t.height ≤ 2 * Nat.log 2 (t.size + 1) := by
  have hheight := h.height_le
  have hlog : n ≤ Nat.log 2 (t.size + 1) := Nat.le_log_of_pow_le (by decide) h.two_pow_le
  simp only [reduceCtorEq, if_false] at hheight
  omega

end Tree

namespace Ctx

open VmwareProto.Tree

variable {ι α : Type*}

/-- The red-black invariant of a tree with a hole for a subtree of colour
`c` and black height `n`. The root may not be red. -/
inductive CBal : Ctx ι α → Color → ℕ → Prop
  | root {n : ℕ} : CBal [] .black n
  | red {d : Dir} {id : ι} {x : α} {sib : Tree ι α} {fs : Ctx ι α} {n : ℕ} :
      Bal sib .black n → CBal fs .red n → CBal (⟨d, id, .red, x, sib⟩ :: fs) .black n
  | black {d : Dir} {id : ι} {x : α} {sib : Tree ι α} {fs : Ctx ι α} {c c' : Color} {n : ℕ} :
      Bal sib c' n → CBal fs .black (n + 1) → CBal (⟨d, id, .black, x, sib⟩ :: fs) c n

variable {K : Ctx ι α} {t : Tree ι α} {c : Color} {n : ℕ}

/-- **The defining property**: a balanced subtree fills the hole to a
balanced tree with a black root. -/
theorem CBal.fill (h : CBal K c n) (ht : Bal t c n) : ∃ m, Bal (Ctx.fill K t) .black m := by
  induction h generalizing t with
  | root => exact ⟨_, ht⟩
  | @red d id x sib fs n hs _ ih =>
      exact ih (t := nodeAt d id .red x t sib) (bal_nodeAt_red.2 ⟨rfl, ht, hs⟩)
  | @black d id x sib fs c c' n hs _ ih =>
      exact ih (t := nodeAt d id .black x t sib)
        (bal_nodeAt_black.2 ⟨rfl, _, _, _, rfl, ht, hs⟩)

/-- A hole for a red subtree takes a black one. -/
theorem CBal.of_red (h : CBal K .red n) : CBal K .black n := by
  cases h with
  | black hs hf => exact .black hs hf

/-- A balanced tree splits around any of its subtrees. -/
theorem exists_cbal : ∀ {K : Ctx ι α} {t : Tree ι α} {m : ℕ},
    Bal (Ctx.fill K t) .black m → ∃ c n, Bal t c n ∧ CBal K c n
  | [], _, _, h => ⟨_, _, h, .root⟩
  | ⟨d, id, .red, x, sib⟩ :: fs, t, m, h => by
      obtain ⟨c, n, hn, hf⟩ := exists_cbal (K := fs) (t := nodeAt d id .red x t sib) h
      obtain ⟨rfl, ht, hs⟩ := bal_nodeAt_red.1 hn
      exact ⟨_, _, ht, .red hs hf⟩
  | ⟨d, id, .black, x, sib⟩ :: fs, t, m, h => by
      obtain ⟨c, n, hn, hf⟩ := exists_cbal (K := fs) (t := nodeAt d id .black x t sib) h
      obtain ⟨rfl, c₁, c₂, k, rfl, ht, hs⟩ := bal_nodeAt_black.1 hn
      exact ⟨_, _, ht, .black hs hf⟩

end Ctx

end VmwareProto
