import VmwareProto.Library.Tree
import Mathlib.Logic.Function.Basic
import Mathlib.Data.Int.Notation
/-!
# The range lock's tree, as the code has it

`range_lock.c` keeps the held ranges in a red-black tree of `malloc`ed
nodes with parent links. Memory is a partial map from addresses to nodes:
a node that was never allocated, or was freed, reads as `none`, and so
does a failed `assert` or a NULL dereference, so `some` is exactly "the
call returns". Loops run on fuel, one more than `root->count`; that it is
always enough is part of what is proved.

The bounds are 64-bit words the code only compares, so they are naturals
here. `rotate_left`/`rotate_right` and the mirrored branches of the two
fixups are one definition each, over the side.
-/

namespace VmwareProto

namespace RangeLock

abbrev Addr := ℕ

/-- A C pointer; `none` is `NULL`. -/
abbrev Ptr := Option Addr

abbrev TaskId := ℕ

/-- The fields of `struct rb_node` the tree code does not link through. -/
structure NodeData where
  start : ℕ
  stop : ℕ
  refcount : ℤ
  /-- the tasks in `rendez.waiting`, head first -/
  rendez : List TaskId
  deriving DecidableEq, Repr

/-- `struct rb_node`; `stop` is the field `end`. -/
structure RbNode where
  parent : Ptr
  left : Ptr
  right : Ptr
  color : Color
  data : NodeData
  deriving DecidableEq, Repr

namespace RbNode

/-- The child on side `d`. -/
def child (n : RbNode) : Dir → Ptr
  | .left => n.left
  | .right => n.right

def setChild (d : Dir) (p : Ptr) (n : RbNode) : RbNode :=
  match d with
  | .left => { n with left := p }
  | .right => { n with right := p }

def setParent (p : Ptr) (n : RbNode) : RbNode := { n with parent := p }

def setColor (c : Color) (n : RbNode) : RbNode := { n with color := c }

def setData (f : NodeData → NodeData) (n : RbNode) : RbNode := { n with data := f n.data }

end RbNode

/-- The heap of nodes and `struct rb_root`: `root` is `root->node`. -/
structure Mem where
  heap : Addr → Option RbNode
  root : Ptr
  count : ℕ

namespace Mem

/-- The zeroed `struct rb_root`. -/
def empty : Mem := ⟨fun _ => none, none, 0⟩

/-- Read through a pointer. -/
def load (m : Mem) (p : Ptr) : Option RbNode := p.bind m.heap

/-- Store a node. -/
def put (m : Mem) (a : Addr) (n : RbNode) : Mem :=
  { m with heap := Function.update m.heap a (some n) }

/-- Write through a pointer. -/
def modify (m : Mem) (p : Ptr) (f : RbNode → RbNode) : Option Mem :=
  match p with
  | none => none
  | some a => (m.heap a).map fun n => m.put a (f n)

/-- `free_node`. -/
def free (m : Mem) (a : Addr) : Mem := { m with heap := Function.update m.heap a none }

/-- `n != NULL && n->color == RED`. -/
def isRed (m : Mem) (p : Ptr) : Option Bool :=
  match p with
  | none => some false
  | some a => (m.heap a).map fun n => decide (n.color = .red)

end Mem

/-! ## Intervals -/

/-- `SWAP` when the bounds come in the wrong order. -/
def sortBounds (s e : ℕ) : ℕ × ℕ := if s > e then (e, s) else (s, e)

/-- `check_overlap`. -/
def checkOverlap (s1 e1 s2 e2 : ℕ) : Bool :=
  let (s1, e1) := sortBounds s1 e1
  let (s2, e2) := sortBounds s2 e2
  if (s1 ≥ s2 ∧ s1 ≤ e2) ∨ (e1 ≥ s2 ∧ e1 ≤ e2) then true
  else if (s2 ≥ s1 ∧ s2 ≤ e1) ∨ (e2 ≥ s1 ∧ e2 ≤ e1) then true
  else false

/-! ## Links -/

/-- `grand_parent`. -/
def grandParent (m : Mem) (n : Ptr) : Option Ptr :=
  match n with
  | none => some none
  | some _ => do
      let nn ← m.load n
      match nn.parent with
      | none => some none
      | some _ => do
          let pn ← m.load nn.parent
          some pn.parent

/-- `uncle`. -/
def uncle (m : Mem) (n : Ptr) : Option Ptr := do
  let gp ← grandParent m n
  match gp with
  | none => some none
  | some _ => do
      let gn ← m.load gp
      let nn ← m.load n
      if gn.left = nn.parent then some gn.right else some gn.left

/-- Hang `v` where `u` hangs below `np`: the step `rotate_left`,
`rotate_right` and `rb_transplant` share. -/
def replaceChild (m : Mem) (np u v : Ptr) : Option Mem :=
  match np with
  | none => do
      guard (m.root = u)
      some { m with root := v }
  | some _ => do
      let pn ← m.load np
      if pn.left = u then m.modify np (·.setChild .left v)
      else m.modify np (·.setChild .right v)

/-- `if (c != NULL) c->parent = p`. -/
def adopt (m : Mem) (c p : Ptr) : Option Mem :=
  match c with
  | none => some m
  | some _ => m.modify c (·.setParent p)

/-- `rotate_left` for side `left`, `rotate_right` for side `right`. -/
def rotate (d : Dir) (m : Mem) (node : Ptr) : Option Mem := do
  let n ← m.load node
  let nr := n.child d.flip
  let np := n.parent
  let r ← m.load nr
  guard (r.parent = node)
  let m ← m.modify node (·.setChild d.flip (r.child d))
  let m ← m.modify nr (·.setChild d node)
  let m ← replaceChild m np node nr
  let m ← m.modify node (·.setParent nr)
  let m ← m.modify nr (·.setParent np)
  let n ← m.load node
  adopt m (n.child d.flip) node

def rotateLeft (m : Mem) (node : Ptr) : Option Mem := rotate .left m node

def rotateRight (m : Mem) (node : Ptr) : Option Mem := rotate .right m node

/-- `rb_transplant`. -/
def rbTransplant (m : Mem) (u v : Ptr) : Option Mem := do
  let un ← m.load u
  let m ← replaceChild m un.parent u v
  let un ← m.load u
  adopt m v un.parent

/-- The loop of `rb_minimum`. -/
def rbMinimumLoop (m : Mem) : ℕ → Ptr → Option Ptr
  | 0, _ => none
  | fuel + 1, n => do
      let nn ← m.load n
      match nn.left with
      | none => some n
      | some _ => rbMinimumLoop m fuel nn.left

/-- `rb_minimum`. -/
def rbMinimum (m : Mem) (node : Ptr) : Option Ptr :=
  if m.root = none ∨ node = none then some none
  else rbMinimumLoop m (m.count + 1) node

/-! ## Search -/

/-- `__rb_search`. -/
def rbSearchFrom (m : Mem) : ℕ → Ptr → ℕ → ℕ → Option Ptr
  | 0, _, _, _ => none
  | _ + 1, none, _, _ => some none
  | fuel + 1, some a, s, e => do
      let n ← m.heap a
      if checkOverlap n.data.start n.data.stop s e then some (some a)
      else if n.data.start > e then rbSearchFrom m fuel n.left s e
      else if n.data.stop < s then rbSearchFrom m fuel n.right s e
      else none

/-- `rb_search`. -/
def rbSearch (m : Mem) (s e : ℕ) : Option Ptr :=
  if m.root = none then some none
  else
    let (s, e) := sortBounds s e
    rbSearchFrom m (m.count + 1) m.root s e

/-! ## Insertion -/

/-- The end of the rotating branch of `rb_insert_fixup`: `z` is an outer
grandchild, its parent takes the grandparent's place. -/
def insertRotateOuter (d : Dir) (m : Mem) (z : Ptr) : Option Mem := do
  let g ← grandParent m z
  let zn ← m.load z
  let m ← m.modify zn.parent (·.setColor .black)
  let m ← m.modify g (·.setColor .red)
  rotate d.flip m g

/-- The rotating branch of `rb_insert_fixup`, for a parent `p` on side `d`
of its own parent. Returns the new `z`. -/
def insertRotate (d : Dir) (m : Mem) (z p : Ptr) : Option (Mem × Ptr) := do
  let pn ← m.load p
  let (m, z) ← if pn.child d.flip = z then (rotate d m p).map (·, p) else some (m, z)
  let m ← insertRotateOuter d m z
  some (m, z)

/-- The loop of `rb_insert_fixup`. -/
def rbInsertFixupLoop : ℕ → Mem → Ptr → Ptr → Option Mem
  | 0, _, _, _ => none
  | fuel + 1, m, z, p => do
      let pRed ← m.isRed p
      let zRed ← m.isRed z
      if pRed = true ∧ zRed = true then do
        let u ← uncle m z
        let g ← grandParent m z
        let gn ← m.load g
        let uRed ← m.isRed u
        if uRed = true then do
          let m ← m.modify p (·.setColor .black)
          let m ← m.modify u (·.setColor .black)
          let m ← m.modify g (·.setColor .red)
          let zn ← m.load g
          rbInsertFixupLoop fuel m g zn.parent
        else do
          let (m, z) ← insertRotate (if gn.left = p then .left else .right) m z p
          let zn ← m.load z
          rbInsertFixupLoop fuel m z zn.parent
      else some m

/-- `rb_insert_fixup`, as called by `rb_insert` with both arguments
non-NULL. -/
def rbInsertFixup (m : Mem) (node : Ptr) : Option Mem := do
  let nn ← m.load node
  let m ← rbInsertFixupLoop (m.count + 1) m node nn.parent
  m.modify m.root (·.setColor .black)

/-- Where the descent of `rb_insert` ends: at a node that overlaps, or
below a parent `t` (`none` for an empty tree). -/
inductive Descent
  | found (n : Addr)
  | below (t : Ptr)

/-- The loop of `rb_insert`. -/
def rbInsertDescend (m : Mem) : ℕ → Ptr → Ptr → ℕ → ℕ → Option Descent
  | 0, _, _, _, _ => none
  | _ + 1, none, t, _, _ => some (.below t)
  | fuel + 1, some a, _, s, e => do
      let n ← m.heap a
      if checkOverlap n.data.start n.data.stop s e then some (.found a)
      else if n.data.start > s then do
        guard (n.data.stop > e)
        rbInsertDescend m fuel n.left (some a) s e
      else if n.data.stop < s then rbInsertDescend m fuel n.right (some a) s e
      else none

/-- What `new_node` leaves in memory: `refcount` is the one field it does
not write, and `range_lock` sets it before anything reads it. -/
def newNode (s e : ℕ) (parent : Ptr) : RbNode :=
  ⟨parent, none, none, .red, ⟨s, e, 0, []⟩⟩

/-- The link from the parent `t` to the new node `a`. -/
def linkNew (m : Mem) (t : Ptr) (s : ℕ) (a : Addr) : Option Mem :=
  match t with
  | none => some { m with root := some a }
  | some _ => do
      let tn ← m.load t
      if s < tn.data.start then m.modify t (·.setChild .left (some a))
      else if tn.data.stop < s then m.modify t (·.setChild .right (some a))
      else none

/-- The second half of `rb_insert`, below the parent `t`. -/
def rbInsertBelow (m : Mem) (t : Ptr) (s e : ℕ) (a : Addr) : Option Mem := do
  let m ← linkNew (m.put a (newNode s e t)) t s a
  rbInsertFixup { m with count := m.count + 1 } (some a)

/-- `rb_insert`. The last argument is `malloc`'s answer. -/
def rbInsert (m : Mem) (s e : ℕ) (alloc : Ptr) : Option (Mem × Ptr) := do
  let (s, e) := sortBounds s e
  guard (s ≤ e)
  let r ← rbInsertDescend m (m.count + 1) m.root none s e
  match r with
  | .found n => some (m, some n)
  | .below t =>
      match alloc with
      | none => some (m, none)
      | some a => do
          let m ← rbInsertBelow m t s e a
          some (m, some a)

/-! ## Deletion -/

/-- `x == NULL || x->parent == parent`, as asserted. -/
def parentIs (m : Mem) (x parent : Ptr) : Option Bool :=
  match x with
  | none => some true
  | some a => (m.heap a).map fun n => decide (n.parent = parent)

/-- A red sibling `w`: recolour and rotate, so that the sibling is black.
The `left` branch asserts `x->parent == parent` around the rotation, the
`right` branch does not. Returns the new `w`. -/
def deleteRedSibling (d : Dir) (m : Mem) (x parent w : Ptr) : Option (Mem × Ptr) := do
  let m ← m.modify w (·.setColor .black)
  let m ← m.modify parent (·.setColor .red)
  let ok ← if d = .left then parentIs m x parent else some true
  guard (ok = true)
  let m ← rotate d m parent
  let ok ← if d = .left then parentIs m x parent else some true
  guard (ok = true)
  let pn ← m.load parent
  guard (pn.child d.flip ≠ none)
  some (m, pn.child d.flip)

/-- A black sibling `w` whose outer child is black: rotate its red inner
child up. Returns the new `w`. -/
def deleteInnerRed (d : Dir) (m : Mem) (parent w : Ptr) : Option (Mem × Ptr) := do
  let wn ← m.load w
  let m ← m.modify (wn.child d) (·.setColor .black)
  let m ← m.modify w (·.setColor .red)
  let m ← rotate d.flip m w
  let pn ← m.load parent
  guard (pn.child d.flip ≠ none)
  some (m, pn.child d.flip)

/-- A black sibling `w` whose outer child is red: the final rotation. -/
def deleteOuterRed (d : Dir) (m : Mem) (parent w : Ptr) : Option Mem := do
  let pn ← m.load parent
  let m ← m.modify w (·.setColor pn.color)
  let m ← m.modify parent (·.setColor .black)
  let wn ← m.load w
  let m ← m.modify (wn.child d.flip) (·.setColor .black)
  rotate d m parent

/-- One iteration of `rb_delete_fixup` once the sibling `w` is black.
Returns the new `x`. -/
def deleteBlackSibling (d : Dir) (m : Mem) (x parent w : Ptr) : Option (Mem × Ptr) := do
  let wn ← m.load w
  let lRed ← m.isRed wn.left
  let rRed ← m.isRed wn.right
  if lRed = false ∧ rRed = false then do
    let m ← m.modify w (·.setColor .red)
    some (m, parent)
  else do
    let ok ← parentIs m x parent
    guard (ok = true)
    let farRed ← m.isRed (wn.child d.flip)
    let (m, w) ← if farRed = true then some (m, w) else deleteInnerRed d m parent w
    let m ← deleteOuterRed d m parent w
    some (m, m.root)

/-- One iteration of `rb_delete_fixup` with `x` on side `d` of `parent`.
Returns the new `x`. -/
def deleteFixupSide (d : Dir) (m : Mem) (x parent : Ptr) : Option (Mem × Ptr) := do
  let pn ← m.load parent
  let w := pn.child d.flip
  guard (w ≠ none)
  let wRed ← m.isRed w
  let (m, w) ← if wRed = true then deleteRedSibling d m x parent w else some (m, w)
  deleteBlackSibling d m x parent w

/-- `if (x != NULL) parent = x->parent`. -/
def trackedParent (m : Mem) (x parent : Ptr) : Option Ptr :=
  match x with
  | none => some parent
  | some a => (m.heap a).map (·.parent)

/-- The loop of `rb_delete_fixup`. -/
def rbDeleteFixupLoop : ℕ → Mem → Ptr → Ptr → Option (Mem × Ptr)
  | 0, _, _, _ => none
  | fuel + 1, m, x, parent => do
      let xRed ← m.isRed x
      if m.root ≠ x ∧ xRed = false then do
        let parent ← trackedParent m x parent
        let pn ← m.load parent
        let (m, x) ← deleteFixupSide (if x = pn.left then .left else .right) m x parent
        rbDeleteFixupLoop fuel m x parent
      else some (m, x)

/-- `rb_delete_fixup`. -/
def rbDeleteFixup (m : Mem) (node parent : Ptr) : Option Mem :=
  if m.root = none then some m
  else if node = none ∧ parent = none then some m
  else do
    let (m, x) ← rbDeleteFixupLoop (m.count + 1) m node parent
    let m ←
      match x with
      | none => some m
      | some _ => m.modify x (·.setColor .black)
    m.modify m.root (·.setColor .black)

/-- The successor `y` of `z` when it is not `z`'s own right child: `y`'s
right subtree takes its place, and `y` takes over `z`'s right subtree. -/
def detachSuccessor (m : Mem) (z y : Ptr) : Option Mem := do
  let yn ← m.load y
  let m ← rbTransplant m y yn.right
  let zn ← m.load z
  let m ← m.modify y (·.setChild .right zn.right)
  m.modify zn.right (·.setParent y)

/-- The successor `y` takes the place, the left subtree and the colour
of `z`. -/
def installSuccessor (m : Mem) (z y : Ptr) : Option Mem := do
  let m ← rbTransplant m z y
  let zn ← m.load z
  let m ← m.modify y (·.setChild .left zn.left)
  let m ← m.modify zn.left (·.setParent y)
  m.modify y (·.setColor zn.color)

/-- The two-child branch of `rb_delete`. Returns `x`, `p` and the colour
`y` had. -/
def deleteSplice (m : Mem) (z : Ptr) : Option (Mem × Ptr × Ptr × Color) := do
  let zn ← m.load z
  guard (zn.left ≠ none ∧ zn.right ≠ none)
  let y ← rbMinimum m zn.right
  let yn ← m.load y
  guard (yn.left = none)
  if yn.parent = z then do
    guard (zn.right = y)
    let ok ← parentIs m yn.right y
    guard (ok = true)
    let m ← adopt m yn.right y
    let m ← installSuccessor m z y
    some (m, yn.right, y, yn.color)
  else do
    let m ← detachSuccessor m z y
    let m ← installSuccessor m z y
    some (m, yn.right, yn.parent, yn.color)

/-- `rb_delete`. -/
def rbDelete (m : Mem) (node : Ptr) : Option Mem :=
  if m.root = none ∨ node = none then some m
  else do
    let zn ← m.load node
    let (m, x, p, yColor) ←
      if zn.left = none then do
        let m ← rbTransplant m node zn.right
        some (m, zn.right, zn.parent, zn.color)
      else if zn.right = none then do
        let m ← rbTransplant m node zn.left
        some (m, zn.left, zn.parent, zn.color)
      else deleteSplice m node
    let m ← if yColor = .black then rbDeleteFixup m x p else some m
    some { m with count := m.count - 1 }

end RangeLock

end VmwareProto
