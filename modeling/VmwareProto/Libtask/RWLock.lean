import VmwareProto.Libtask.QLock
import VmwareProto.Library.Admissions
import VmwareProto.Library.Cooperative
import Mathlib.Data.Int.Notation
/-!
# `RWLock`

libtask's reader-writer lock, and the tasks of a thread that use any number
of them. A reader waits while another task writes or waits to write; the
last reader to leave has the first of the waiting writers in, and a writer
that leaves has all waiting readers in, or the first writer if there are
none. Who came, waited, was let in and left is written down for each lock.
-/

namespace VmwareProto

namespace Libtask

open Admission

structure RWLock where
  /-- an `int` (`RWTasks.Action.Countable`) -/
  readers : ℤ
  writer : Option TaskId
  rwaiting : List TaskId
  wwaiting : List TaskId
  deriving DecidableEq, Repr

inductive Mode
  | reader
  | writer
  deriving DecidableEq, Repr

namespace RWLock

variable (l : RWLock)

/-- What a call that may have to wait comes to. -/
inductive Outcome
  /-- it returns 1 -/
  | locked
  /-- it returns 0 -/
  | refused
  /-- it is in `taskswitch` -/
  | waits
  deriving DecidableEq, Repr

/-- `_rlock` of task `t`, up to its return or to `taskswitch`. -/
def rlock (t : TaskId) (block : Bool) : RWLock × Outcome :=
  if l.writer = none ∧ l.wwaiting.head? = none then ({ l with readers := l.readers + 1 }, .locked)
  else if block = false then (l, .refused)
  else ({ l with rwaiting := l.rwaiting ++ [t] }, .waits)

/-- `_wlock` -/
def wlock (t : TaskId) (block : Bool) : RWLock × Outcome :=
  if l.writer = none ∧ l.readers = 0 then ({ l with writer := some t }, .locked)
  else if block = false then (l, .refused)
  else ({ l with wwaiting := l.wwaiting ++ [t] }, .waits)

/-- If there are no readers, the head of `wwaiting` is the writer from now
on, and ready. -/
def handover : RWLock × Option TaskId :=
  if l.readers = 0 then
    match l.wwaiting with
    | [] => (l, none)
    | t :: ts => ({ l with wwaiting := ts, writer := some t }, some t)
  else (l, none)

/-- `runlock`, and whom it makes ready. -/
def runlock : RWLock × Option TaskId := handover { l with readers := l.readers - 1 }

/-- The loop of `wunlock` over `rwaiting`. -/
def letReadersIn (l : RWLock) : List TaskId → RWLock
  | [] => { l with rwaiting := [] }
  | _ :: ts => letReadersIn { l with rwaiting := ts, readers := l.readers + 1 } ts

/-- `wunlock`, and the readers and the writer it makes ready; `none` is an
`abort`. -/
def wunlock : Option (RWLock × List TaskId × Option TaskId) :=
  if l.writer = none then none
  else if l.readers ≠ 0 then none
  else
    let (l', t) := handover (letReadersIn { l with writer := none } l.rwaiting)
    some (l', l.rwaiting, t)

end RWLock

/-! ## Tasks -/

abbrev RWLockId := ℕ

namespace RWTasks

open Cooperative

/-- The tasks of a thread and its locks, with what has happened at each. A
task sleeps in the `taskswitch` of `_rlock` or of `_wlock`. -/
structure State where
  locks : RWLockId → RWLock
  tasks : Threads TaskId (RWLockId × Mode)
  log : RWLockId → List (Event TaskId Mode)

inductive Action
  /-- `taskcreate`, `taskexit`, `taskyield` and the scheduler -/
  | turn (a : Turn TaskId)
  /-- `rlock`, `wlock`, and with `block = false` `canrlock`, `canwlock` -/
  | lock (l : RWLockId) (m : Mode) (block : Bool)
  /-- `runlock`, `wunlock` -/
  | unlock (l : RWLockId) (m : Mode)
  /-- a task that waited for a lock returns -/
  | awake

/-- A lock is now this one, and something has happened to it. -/
def State.setLock (σ : State) (l : RWLockId) (L : RWLock) (es : List (Event TaskId Mode)) :
    State :=
  { σ with
    locks := Function.update σ.locks l L
    log := Function.update σ.log l (σ.log l ++ es) }

namespace Action

/-- The functions that may wait. -/
def call (L : RWLock) (t : TaskId) : Mode → Bool → RWLock × RWLock.Outcome
  | .reader, block => L.rlock t block
  | .writer, block => L.wlock t block

/-- Those that unlock, and the readers and the writer that they let in. -/
def leave (L : RWLock) : Mode → Option (RWLock × List TaskId × Option TaskId)
  | .reader => some (L.runlock.1, [], L.runlock.2)
  | .writer => L.wunlock

def exec (σ : State) : Action → Option State
  | turn a => do
      let T ← a.exec σ.tasks
      some { σ with tasks := T }
  | lock l m block => do
      let t ← σ.tasks.running
      match call (σ.locks l) t m block with
      | (L, .locked) => some (σ.setLock l L [.enters t m])
      | (L, .refused) => some (σ.setLock l L [])
      | (L, .waits) =>
          some { σ.setLock l L [.waits t m] with tasks := σ.tasks.suspend t (l, m) }
  | unlock l m => do
      let t ← σ.tasks.running
      let (L, rs, w) ← leave (σ.locks l) m
      let es := rs.map (fun u => .granted u .reader) ++ w.toList.map fun u => .granted u .writer
      some { σ.setLock l L (.leaves t m :: es) with tasks := σ.tasks.ready (rs ++ w.toList) }
  | awake => do
      let t ← σ.tasks.running
      some { σ with tasks := σ.tasks.resume t }

/-- Who can do what. A task unlocks what it has locked. -/
def Enabled (σ : State) : Action → Prop
  | turn a => a.Enabled σ.tasks
  | lock _ _ _ => σ.tasks.At .top
  | unlock l m => ∃ t ∈ σ.tasks.running, σ.tasks.pc t = .top ∧ t ∈ inside m (σ.log l)
  | awake => ∃ t ∈ σ.tasks.running, σ.tasks.pc t ≠ .top

instance (σ : State) : (a : Action) → Decidable (a.Enabled σ)
  | turn a => inferInstanceAs (Decidable (a.Enabled σ.tasks))
  | lock _ _ _ => inferInstanceAs (Decidable (σ.tasks.At .top))
  | unlock l m => inferInstanceAs
      (Decidable (∃ t ∈ σ.tasks.running, σ.tasks.pc t = .top ∧ t ∈ inside m (σ.log l)))
  | awake => inferInstanceAs (Decidable (∃ t ∈ σ.tasks.running, σ.tasks.pc t ≠ .top))

end Action

/-- A thread whose first task is `t`, and all of whose locks are new. -/
def State.Initial (σ : State) : Prop :=
  ∃ t, σ.tasks = .start t ∧ (∀ l, σ.locks l = ⟨0, none, [], []⟩) ∧ ∀ l, σ.log l = []

end RWTasks

end Libtask

end VmwareProto
