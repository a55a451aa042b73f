import VmwareProto.Library.System
import VmwareProto.RangeLock.Delete
/-!
# Runs of insertions and deletions

Any sequence of `rb_insert` and `rb_delete` on nodes then in the tree,
from the empty tree. A node that was taken out may be freed at any later
time, so `malloc` may hand its address out again.
-/

namespace VmwareProto

namespace RangeLock

open VmwareProto.Tree Ctx

/-- The nodes reachable from `root->node` through child pointers. -/
inductive InTree (m : Mem) : Addr → Prop
  | root {a : Addr} : m.root = some a → InTree m a
  | child {a b : Addr} {n : RbNode} {d : Dir} :
      InTree m a → m.heap a = some n → n.child d = some b → InTree m b

variable {m : Mem} {t : Shape} {a : Addr}

theorem Rep.inTree {q : Ptr} (ht : Rep m.heap t q) (hroot : ∀ b, t.rootId = some b → InTree m b) :
    ∀ b ∈ t.ids, InTree m b := by
  induction t generalizing q with
  | nil => simp
  | node c col x l r ihl ihr =>
      obtain ⟨hc, hl, hr⟩ := ht
      have hin := hroot c rfl
      intro b hb
      rw [ids_node, List.mem_append, List.mem_cons] at hb
      rcases hb with hb | rfl | hb
      · exact ihl hl (fun e he => .child (d := .left) hin hc he) b hb
      · exact hin
      · exact ihr hr (fun e he => .child (d := .right) hin hc he) b hb

/-- **The nodes in the tree** are those of the tree it represents. -/
theorem Models.inTree_iff (hm : Models m t) : InTree m a ↔ a ∈ t.ids := by
  refine ⟨fun h => ?_, hm.rep.inTree (fun b hb => .root (by rw [hm.root, hb])) a⟩
  induction h with
  | root h => exact mem_ids_of_rootId (by rw [← hm.root, h])
  | @child a b n d _ hn hb ih =>
      obtain ⟨K, c, x, l, r, rfl⟩ := exists_fill_of_mem ih
      rw [(rep_fill.1 hm.rep).1.1] at hn
      refine mem_ids_fill.2 (.inl ?_)
      rw [ids_node, List.mem_append, List.mem_cons]
      rw [← Option.some.inj hn] at hb
      cases d with
      | left => exact .inl (mem_ids_of_rootId hb)
      | right => exact .inr (.inr (mem_ids_of_rootId hb))

/-- What a caller of the tree does. -/
inductive TreeOp
  /-- `rb_insert(root, s, e)`, with `malloc`'s answer -/
  | insert (s e : ℕ) (alloc : Ptr)
  /-- `rb_delete(root, z)` -/
  | delete (z : Addr)
  /-- `free_node(z)` -/
  | free (z : Addr)

def TreeOp.exec (m : Mem) : TreeOp → Option Mem
  | .insert s e alloc => (rbInsert m s e alloc).map Prod.fst
  | .delete z => rbDelete m (some z)
  | .free z => some (m.free z)

/-- `malloc` hands out memory not in use, only nodes in the tree are
deleted, and only nodes outside it are freed. -/
def TreeOp.Enabled (m : Mem) : TreeOp → Prop
  | .insert _ _ alloc => ∀ a, alloc = some a → m.heap a = none
  | .delete z => InTree m z
  | .free z => ¬ InTree m z

def treeSystem : System Mem TreeOp where
  init m := m = Mem.empty
  enabled := TreeOp.Enabled
  exec := TreeOp.exec

theorem valid_empty : Valid Mem.empty (.nil : Shape) where
  models := ⟨rfl, rep_nil, List.nodup_nil⟩
  ordered := trivial
  balanced := ⟨0, .nil⟩
  count := rfl

/-- Memory outside the tree is free to change. -/
theorem Valid.of_frame {m' : Mem} (hv : Valid m t) (hroot : m'.root = m.root)
    (hcount : m'.count = m.count) (hframe : ∀ a ∈ t.ids, m'.heap a = m.heap a) : Valid m' t where
  models := ⟨hroot.trans hv.models.root, hv.models.rep.frame hframe, hv.models.nodup⟩
  ordered := hv.ordered
  balanced := hv.balanced
  count := hcount.trans hv.count

theorem Mem.heap_free_of_ne {b : Addr} (h : b ≠ a) : (m.free a).heap b = m.heap b := by
  simp [Mem.free, Function.update_of_ne h]

theorem Valid.free (hv : Valid m t) (ha : a ∉ t.ids) : Valid (m.free a) t :=
  hv.of_frame rfl rfl fun _ hb => Mem.heap_free_of_ne fun e => ha (e ▸ hb)

theorem mem_toList_of_mem_ids (h : a ∈ t.ids) : ∃ x, (a, x) ∈ t.toList := by
  obtain ⟨⟨b, x⟩, hb, rfl⟩ := List.mem_map.1 h
  exact ⟨x, hb⟩

theorem treeSystem_inductive : treeSystem.Inductive fun m => ∃ t, Valid m t where
  init m hm := ⟨.nil, by rw [show m = Mem.empty from hm]; exact valid_empty⟩
  step m op := by
    rintro ⟨t, hv⟩ he
    cases op with
    | insert s e alloc =>
        rcases rbInsert_spec hv s e he with ⟨a, x, -, -, hrun⟩ | ⟨-, ⟨rfl, hrun⟩ | hnew⟩
        · exact ⟨m, by simp [treeSystem, TreeOp.exec, hrun], t, hv⟩
        · exact ⟨m, by simp [treeSystem, TreeOp.exec, hrun], t, hv⟩
        · obtain ⟨a, m', t', xs, ys, rfl, hrun, hv', -⟩ := hnew
          exact ⟨m', by simp [treeSystem, TreeOp.exec, hrun], t', hv'⟩
    | delete z =>
        obtain ⟨x, hx⟩ := mem_toList_of_mem_ids (hv.models.inTree_iff.1 he)
        obtain ⟨m', t', xs, ys, hrun, hv', -⟩ := rbDelete_spec hv hx
        exact ⟨m', hrun, t', hv'⟩
    | free z =>
        exact ⟨m.free z, rfl, t, hv.free (mt hv.models.inTree_iff.2 he)⟩

/-- **The red-black invariant of every run**: ordered and disjoint, a black
root, no red node over a red one, equal black heights, parent links right,
nodes counted; and the next operation, whatever it is, meets no failing
assertion and no NULL dereference. -/
theorem rbTree_valid (h : treeSystem.Reachable m) :
    (∃ t, Valid m t) ∧ ∀ op, treeSystem.enabled m op → ∃ m', treeSystem.exec m op = some m' :=
  ⟨treeSystem_inductive.reachable h, fun _ he => treeSystem_inductive.no_fault h he⟩

/-! ## Computing runs -/

/-- The nodes below a pointer, down to `k` links. -/
def Mem.below (m : Mem) : ℕ → Ptr → List Addr
  | 0, _ => []
  | _ + 1, none => []
  | k + 1, some a => (m.heap a).elim [] fun n => m.below k n.left ++ a :: m.below k n.right

theorem Rep.below_eq {q : Ptr} {k : ℕ} (ht : Rep m.heap t q) (hk : t.height ≤ k) :
    m.below k t.rootId = t.ids := by
  induction t generalizing q k with
  | nil => cases k <;> rfl
  | node b c x l r ihl ihr =>
      obtain ⟨hb, hl, hr⟩ := ht
      rw [height] at hk
      obtain ⟨k, rfl⟩ : ∃ i, k = i + 1 := ⟨k - 1, by omega⟩
      have hleft := ihl hl (k := k) (by omega)
      have hright := ihr hr (k := k) (by omega)
      rw [rootId, Mem.below, hb, ids_node, ← hleft, ← hright]
      rfl

theorem Valid.inTree_iff_below (hv : Valid m t) : InTree m a ↔ a ∈ m.below m.count m.root := by
  rw [hv.models.inTree_iff, hv.models.root, hv.models.rep.below_eq (hv.count ▸ t.height_le_size)]

/-- The conditions of a step as they can be checked. -/
def TreeOp.Ready (m : Mem) : TreeOp → Prop
  | .insert _ _ alloc => ∀ a ∈ alloc, m.heap a = none
  | .delete z => z ∈ m.below m.count m.root
  | .free z => z ∉ m.below m.count m.root

instance (m : Mem) : (op : TreeOp) → Decidable (op.Ready m)
  | .insert _ _ alloc => inferInstanceAs (Decidable (∀ a ∈ alloc, _))
  | .delete _ => inferInstanceAs (Decidable (_ ∈ _))
  | .free _ => inferInstanceAs (Decidable (¬_))

theorem Valid.ready_iff (hv : Valid m t) (op : TreeOp) : op.Ready m ↔ treeSystem.enabled m op := by
  cases op with
  | insert s e alloc => exact Iff.rfl
  | delete z => exact hv.inTree_iff_below.symm
  | free z => exact not_congr hv.inTree_iff_below.symm

/-- A run that was computed. -/
theorem reachable_of_ready (ops : List TreeOp) (p : Mem → Bool)
    (h : ((treeSystem.enabledBy fun m op => op.Ready m).run Mem.empty ops).any p = true) :
    ∃ m, treeSystem.Reachable m ∧ p m = true := by
  obtain ⟨m, hm, hp⟩ := System.Steps.of_run_any h
  have hE : ∀ m op, treeSystem.Reachable m → op.Ready m → treeSystem.enabled m op :=
    fun m op hr he => by
      obtain ⟨t, hv⟩ := treeSystem_inductive.reachable hr
      exact (hv.ready_iff op).1 he
  exact ⟨m, (hm.of_enabledBy hE (.init rfl)).reachable (.init rfl), hp⟩

/-- Seven intervals, from below: node `a` has `[10 a, 10 a + 5]`. -/
def sevenIntervals : List TreeOp :=
  (List.range 7).map fun a => .insert (10 * a) (10 * a + 5) (some a)

/-- Rotations have made node 1 the root, and it is taken out from above both
its subtrees. -/
theorem rbTree_valid_seven : ∃ m n m', treeSystem.Reachable m ∧ m.count = 7 ∧
    m.root = some 1 ∧ m.heap 1 = some n ∧ n.left = some 0 ∧ n.right = some 3 ∧
    treeSystem.exec m (.delete 1) = some m' ∧ m'.root = some 2 ∧ (∃ t, Valid m' t) ∧
    ∀ op, treeSystem.enabled m' op → ∃ m'', treeSystem.exec m' op = some m'' := by
  obtain ⟨m, hr, hp⟩ := reachable_of_ready sevenIntervals (fun m =>
    m.count == 7 && m.root == some 1 &&
      (m.heap 1).any (fun n => n.left == some 0 && n.right == some 3) &&
      (rbDelete m (some 1)).all fun m' => m'.root == some 2) (by decide +kernel)
  simp only [Bool.and_eq_true, beq_iff_eq, Option.any_eq_true, Option.all_eq_true] at hp
  obtain ⟨⟨⟨hcount, hroot⟩, n, hn, hl, hright⟩, hdel⟩ := hp
  have hen : treeSystem.enabled m (.delete 1) := .root hroot
  obtain ⟨m', hm'⟩ := (rbTree_valid hr).2 _ hen
  exact ⟨m, n, m', hr, hcount, hroot, hn, hl, hright, hm', hdel m' hm',
    rbTree_valid (hr.step hen hm')⟩

end RangeLock

end VmwareProto
