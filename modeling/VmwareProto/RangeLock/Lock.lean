import VmwareProto.Library.System
import VmwareProto.RangeLock.Model
/-!
# Cooperative tasks in the range lock

`range_lock` and `range_unlock` as the code has them, cut at the one place
where control changes hands: `tasksleep` on a node's rendez. From its call,
or from its wakeup, to the next sleep or its return, a task runs alone, so
each such stretch is one step. A woken task resumes at any later time; the
run queue's order is not used.
-/

namespace VmwareProto

namespace RangeLock

/-- `struct range`. -/
structure Range where
  start : ℕ
  stop : ℕ
  node : Addr
  deriving DecidableEq, Repr

/-- A task inside `range_lock(rl, s, e)`: asleep on the rendez of `node`,
or woken from it and not yet running. -/
structure Waiter where
  task : TaskId
  s : ℕ
  e : ℕ
  node : Addr
  woken : Bool
  deriving DecidableEq, Repr

/-- The lock, the tasks suspended in it, and the ranges it returned that
were not unlocked yet, each with its holder. -/
structure LockState where
  mem : Mem
  waiters : List Waiter
  held : List (TaskId × Range)

/-- How the body of `range_lock`'s loop ends: asleep, or with the range. -/
inductive LockOutcome
  | asleep (n : Addr)
  | locked (r : Range)
  deriving DecidableEq, Repr

namespace NodeData

/-- `n->refcount++`, and `addtask(&n->rendez.waiting, t)`. -/
def enqueue (t : TaskId) (x : NodeData) : NodeData :=
  { x with refcount := x.refcount + 1, rendez := x.rendez ++ [t] }

/-- `n->refcount--`. -/
def release (x : NodeData) : NodeData := { x with refcount := x.refcount - 1 }

/-- `n->refcount = 1`. -/
def claim (x : NodeData) : NodeData := { x with refcount := 1 }

/-- `taskwakeupall(&n->rendez)`. -/
def wakeAll (x : NodeData) : NodeData := { x with rendez := [] }

@[simp] theorem start_claim (x : NodeData) : x.claim.start = x.start := rfl
@[simp] theorem stop_claim (x : NodeData) : x.claim.stop = x.stop := rfl

end NodeData

/-- `range_lock` from the top of its loop to its next sleep or its return.
`alloc` is the node `malloc` hands out. -/
def rangeLockLoop (m : Mem) (t : TaskId) (s e : ℕ) (alloc : Addr) : Option (Mem × LockOutcome) := do
  let n ← rbSearch m s e
  match n with
  | some a => do
      let m ← m.modify (some a) (·.setData (·.enqueue t))
      some (m, .asleep a)
  | none => do
      let (m, n) ← rbInsert m s e (some alloc)
      let m ← m.modify n (·.setData (·.claim))
      let a ← n
      let nn ← m.load n
      some (m, .locked ⟨nn.data.start, nn.data.stop, a⟩)

/-- `if (n->refcount == 0) free_node(n)`. Returns whether it was freed. -/
def freeIfUnused (m : Mem) (n : Addr) : Option (Mem × Bool) := do
  let nn ← m.load (some n)
  if nn.data.refcount = 0 then some (m.free n, true) else some (m, false)

/-- `range_lock` after its `tasksleep`, up to the end of the loop's body. -/
def rangeLockWoken (m : Mem) (n : Addr) : Option Mem := do
  let m ← m.modify (some n) (·.setData (·.release))
  let (m, _) ← freeIfUnused m n
  some m

/-- `range_unlock`. Returns the tasks it wakes. -/
def rangeUnlock (m : Mem) (r : Range) : Option (Mem × List TaskId) := do
  let m ← rbDelete m (some r.node)
  let m ← m.modify (some r.node) (·.setData (·.release))
  let (m, freed) ← freeIfUnused m r.node
  if freed = true then some (m, [])
  else do
    let nn ← m.load (some r.node)
    let m ← m.modify (some r.node) (·.setData (·.wakeAll))
    some (m, nn.data.rendez)

/-- What one stretch of a task's execution does. -/
inductive LockAction
  /-- task `t` calls `range_lock(rl, s, e)` -/
  | lock (t : TaskId) (s e : ℕ) (alloc : Addr)
  /-- task `t` runs on after its sleep -/
  | resume (t : TaskId) (alloc : Addr)
  /-- task `t` calls `range_unlock(rl, r)` -/
  | unlock (t : TaskId) (r : Range)

namespace LockState

/-- The zeroed `struct range_lock`, no task in it. -/
def initial : LockState := ⟨Mem.empty, [], []⟩

/-- Task `t` enters, or stays in, the lock; or leaves it with a range. -/
def settle (σ : LockState) (t : TaskId) (s e : ℕ) : Mem × LockOutcome → LockState
  | (m, .asleep n) => { σ with mem := m, waiters := ⟨t, s, e, n, false⟩ :: σ.waiters }
  | (m, .locked r) => { σ with mem := m, held := (t, r) :: σ.held }

/-- `taskready` on each of the tasks. -/
def wake (ts : List TaskId) (ws : List Waiter) : List Waiter :=
  ws.map fun w => if w.task ∈ ts then { w with woken := true } else w

/-- The suspended call of task `t`. -/
def find (σ : LockState) (t : TaskId) : Option Waiter := σ.waiters.find? (·.task == t)

end LockState

def LockAction.exec (σ : LockState) : LockAction → Option LockState
  | .lock t s e alloc => do
      let r ← rangeLockLoop σ.mem t s e alloc
      some (σ.settle t s e r)
  | .resume t alloc => do
      let w ← σ.find t
      let m ← rangeLockWoken σ.mem w.node
      let r ← rangeLockLoop m t w.s w.e alloc
      some ({ σ with waiters := σ.waiters.filter (·.task != t) }.settle t w.s w.e r)
  | .unlock t r => do
      let (m, ts) ← rangeUnlock σ.mem r
      some ⟨m, LockState.wake ts σ.waiters, σ.held.erase (t, r)⟩

/-- A task calls only when it is not suspended in the lock, resumes only
when woken, and unlocks only what it holds; `malloc` hands out memory not
in use at the time. -/
def LockAction.Enabled (σ : LockState) : LockAction → Prop
  | .lock t _ _ alloc => (∀ w ∈ σ.waiters, w.task ≠ t) ∧ σ.mem.heap alloc = none
  | .resume t alloc => ∃ w ∈ σ.waiters, w.task = t ∧ w.woken = true ∧
      ∀ m, rangeLockWoken σ.mem w.node = some m → m.heap alloc = none
  | .unlock t r => (∀ w ∈ σ.waiters, w.task ≠ t) ∧ (t, r) ∈ σ.held

/-- Any number of tasks on one range lock, from the zeroed lock. -/
def lockSystem : System LockState LockAction where
  init σ := σ = LockState.initial
  enabled := LockAction.Enabled
  exec := LockAction.exec

end RangeLock

end VmwareProto
