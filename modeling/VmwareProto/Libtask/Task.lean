import VmwareProto.Library.Queues
import VmwareProto.Libtask.QLock
import Mathlib.Data.Int.Notation
/-!
# Tasks

`task.c` and `rendez.c`: the tasks of one thread, the lists they are linked
in and the scheduler; `none` is a failed assertion. A task's flags `ready`
and `cached` and its name are read by `taskinfo` only and are left out. No
lock is tied to a `Rendez` (`r->l` is nil).
-/

namespace VmwareProto

namespace Libtask

/-- `Tasklist`: where tasks are linked by their `next` and `prev`. -/
inductive Tasklist
  | taskrunqueue
  | taskscache
  | rendez (r : ℕ)
  deriving DecidableEq, Repr

/-- `alltask[0..nalltask)`, and `alltaskslot` of every task. -/
structure AllTask where
  tasks : List TaskId
  slot : TaskId → ℕ

namespace AllTask

variable (A : AllTask)

instance : Membership TaskId AllTask := ⟨fun A t => t ∈ A.tasks⟩

instance (t : TaskId) : Decidable (t ∈ A) := inferInstanceAs (Decidable (t ∈ A.tasks))

/-- `t->alltaskslot = nalltask; alltask[nalltask++] = t` -/
def push (t : TaskId) : AllTask where
  tasks := A.tasks ++ [t]
  slot := Function.update A.slot t A.tasks.length

/-- `taskfree` of `t`: the last entry, `u`, goes to its place. -/
def remove (t : TaskId) : AllTask :=
  match A.tasks.getLast? with
  | none => A
  | some u =>
      { tasks := (A.tasks.set (A.slot t) u).dropLast
        slot := Function.update A.slot u (A.slot t) }

end AllTask

/-- The tasks of a thread. -/
structure Tasks where
  lists : Queues Tasklist TaskId
  alltask : AllTask
  taskrunning : Option TaskId
  taskcount : ℤ
  taskcachecount : ℕ
  tasknswitch : ℕ
  system : TaskId → Bool
  stksize : TaskId → ℕ

/-- `CACHE_STACK_SIZE` -/
def cacheStackSize : ℕ := 32 * 1024

/-- `TASKS_CACHE_MAX` -/
def tasksCacheMax : ℕ := 32

namespace Tasks

variable (T : Tasks)

/-- `taskready` -/
def taskready (t : TaskId) : Tasks := { T with lists := T.lists.add .taskrunqueue t }

/-- `taskswitch`: the scheduler is in control. -/
def taskswitch : Tasks := { T with taskrunning := none }

/-- `_task_init` -/
def taskInit (t : TaskId) : Tasks :=
  { T with lists := T.lists.clear t, system := Function.update T.system t false }

/-- `taskalloc` and the entry in `alltask`; `malloc` returned `t`. -/
def taskalloc (stack : ℕ) (t : TaskId) : Tasks :=
  { T.taskInit t with
    alltask := T.alltask.push t, taskcount := T.taskcount + 1
    stksize := Function.update T.stksize t stack }

/-- `taskcreate`, and the new task: a task from the cache for a stack of the
cached size, and for another one only while the cache is empty. -/
def taskcreate (stack : ℕ) (malloc : TaskId) : Option (Tasks × TaskId) :=
  match if stack = cacheStackSize then T.lists.head .taskscache else none with
  | none =>
      if T.taskcachecount = 0 then some ((T.taskalloc stack malloc).taskready malloc, malloc)
      else none
  | some t =>
      if 0 < T.taskcachecount then
        let T : Tasks :=
          { T with lists := T.lists.del .taskscache t, taskcachecount := T.taskcachecount - 1 }
        some ((T.taskInit t).taskready t, t)
      else none

/-- `tasksystem` -/
def tasksystem (t : TaskId) : Tasks :=
  if T.system t = true then T
  else { T with system := Function.update T.system t true, taskcount := T.taskcount - 1 }

/-- `taskyield` of task `t`, up to its `taskswitch`. -/
def taskyield (t : TaskId) : Tasks := (T.taskready t).taskswitch

/-- `taskfree` -/
def taskfree (t : TaskId) : Tasks :=
  { T with
    taskcount := if T.system t = true then T.taskcount else T.taskcount - 1
    alltask := T.alltask.remove t }

/-- What the scheduler does with a task that exits, where the cache holds
`max` tasks. -/
def taskretireWith (max : ℕ) (t : TaskId) : Tasks :=
  if T.stksize t ≠ cacheStackSize ∨ max ≤ T.taskcachecount then T.taskfree t
  else
    let T : Tasks := { T with taskcount := if T.system t = true then T.taskcount + 1 else T.taskcount }
    { T.taskInit t with
      lists := (T.lists.clear t).add .taskscache t, taskcachecount := T.taskcachecount + 1 }

/-- What the scheduler does with a task that exits. -/
def taskretire (t : TaskId) : Tasks := T.taskretireWith tasksCacheMax t

/-- `taskexit` of task `t`, and the scheduler that sees it exit. -/
def taskexit (t : TaskId) : Tasks := T.taskswitch.taskretire t

/-- The loop of `taskcachefree`. -/
def taskcachefreeLoop : ℕ → Tasks → Option Tasks
  | 0, _ => none
  | fuel + 1, T =>
      match T.lists.head .taskscache with
      | none => some T
      | some t =>
          taskcachefreeLoop fuel ({ T with lists := T.lists.del .taskscache t }.taskfree t)

/-- `taskcachefree` -/
def taskcachefree : Option Tasks :=
  (taskcachefreeLoop (T.alltask.tasks.length + 1) T).map fun T => { T with taskcachecount := 0 }

/-- `tasksleep` of task `t`, up to its `taskswitch`. -/
def tasksleep (r : ℕ) (t : TaskId) : Tasks :=
  { T with lists := T.lists.add (.rendez r) t }.taskswitch

/-- One turn of the loop of `_taskwakeup`, and whether it woke a task. -/
def taskwakeup (r : ℕ) : Tasks × Bool :=
  match T.lists.head (.rendez r) with
  | none => (T, false)
  | some t => ({ T with lists := T.lists.del (.rendez r) t }.taskready t, true)

/-- What a turn of the scheduler comes to: a task runs, the thread ends, or
it ends because no task is runnable. -/
inductive Turn
  | run (T : Tasks)
  | exit
  | stalled

/-- One turn of `taskscheduler`, up to its `contextswitch`. -/
def taskscheduler : Option Turn :=
  if T.taskcount = 0 then some .exit
  else
    match T.lists.head .taskrunqueue with
    | none => do
        let T ← T.taskcachefree
        some (if T.taskcount = 0 then .exit else .stalled)
    | some t =>
        some (.run { T with
          lists := T.lists.del .taskrunqueue t, taskrunning := some t
          tasknswitch := T.tasknswitch + 1 })

/-- No task. -/
def empty : Tasks where
  lists := ⟨fun _ => none, fun _ => none, fun _ => none, fun _ => none⟩
  alltask := ⟨[], fun _ => 0⟩
  taskrunning := none
  taskcount := 0
  taskcachecount := 0
  tasknswitch := 0
  system _ := false
  stksize _ := 0

end Tasks

end Libtask

end VmwareProto
