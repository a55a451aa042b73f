import VmwareProto.Library.System
import VmwareProto.Libtask.Task
/-!
# Threads

A thread of tasks that come and go: created with a stack of any size, made
system tasks, put to sleep and woken, ended. A task sleeps on a `Rendez`, or
it is recorded elsewhere until somebody makes it ready. `live` is what the
code does not write down, the tasks that were created and have not exited;
`View` is what a thread is for its tasks, whatever becomes of the memory of
those that exited.
-/

namespace VmwareProto

namespace Libtask

/-- A thread, its live tasks, and those that wait outside all lists. -/
structure Thread where
  tasks : Tasks
  live : List TaskId
  waiting : List TaskId

/-- Steps of task `x`, and of the scheduler. -/
inductive ThreadAction
  /-- the new task lies at `t` -/
  | taskcreate (x : TaskId) (stack : ℕ) (t : TaskId)
  | tasksystem (x : TaskId)
  | taskexit (x : TaskId)
  | taskyield (x : TaskId)
  | tasksleep (x : TaskId) (r : ℕ)
  | taskwakeup (x : TaskId) (r : ℕ)
  /-- `x` waits, recorded elsewhere -/
  | taskswitch (x : TaskId)
  /-- `t`, that waits, is made ready -/
  | taskready (x t : TaskId)
  | taskcachefree (x : TaskId)
  | taskscheduler
  deriving DecidableEq

namespace Thread

/-- How many live tasks are no system tasks. -/
def foreground (σ : Thread) : ℕ := σ.live.countP fun t => !σ.tasks.system t

/-- The thread before its first task, and `libtask_start` with a stack of
`stack` bytes for it. -/
def start : Option (ℕ × TaskId) → Thread
  | none => ⟨Tasks.empty, [], []⟩
  | some (stack, t) => ⟨(Tasks.empty.taskalloc stack t).taskready t, [t], []⟩

end Thread

namespace ThreadAction

variable (max : ℕ) (σ : Thread)

/-- A step, where the cache holds `max` tasks. -/
def exec : ThreadAction → Option Thread
  | taskcreate _ stack malloc => do
      let (T, t) ← σ.tasks.taskcreate stack malloc
      some { σ with tasks := T, live := σ.live ++ [t] }
  | tasksystem x => some { σ with tasks := σ.tasks.tasksystem x }
  | taskexit x =>
      some { σ with tasks := σ.tasks.taskswitch.taskretireWith max x, live := σ.live.erase x }
  | taskyield x => some { σ with tasks := σ.tasks.taskyield x }
  | tasksleep x r => some { σ with tasks := σ.tasks.tasksleep r x }
  | taskwakeup _ r => some { σ with tasks := (σ.tasks.taskwakeup r).1 }
  | taskswitch x => some { σ with tasks := σ.tasks.taskswitch, waiting := σ.waiting ++ [x] }
  | taskready _ t => some { σ with tasks := σ.tasks.taskready t, waiting := σ.waiting.erase t }
  | taskcachefree _ => do
      let T ← σ.tasks.taskcachefree
      some { σ with tasks := T }
  | taskscheduler =>
      match σ.tasks.taskscheduler with
      | some (.run T) => some { σ with tasks := T }
      | _ => none

/-- A task that runs takes a step; `taskcreate` gets a task of the cache, or
memory that is not in use. -/
def Enabled : ThreadAction → Prop
  | taskcreate x stack t =>
      σ.tasks.taskrunning = some x ∧
      (if stack = cacheStackSize ∧ σ.tasks.lists.head .taskscache ≠ none then
        σ.tasks.lists.head .taskscache = some t
      else t ∉ σ.tasks.alltask)
  | tasksystem x => σ.tasks.taskrunning = some x
  | taskexit x => σ.tasks.taskrunning = some x
  | taskyield x => σ.tasks.taskrunning = some x
  | tasksleep x _ => σ.tasks.taskrunning = some x
  | taskwakeup x _ => σ.tasks.taskrunning = some x
  | taskswitch x => σ.tasks.taskrunning = some x
  | taskready x t => σ.tasks.taskrunning = some x ∧ t ∈ σ.waiting
  | taskcachefree x => σ.tasks.taskrunning = some x
  | taskscheduler =>
      σ.tasks.taskrunning = none ∧ σ.tasks.taskcount ≠ 0 ∧ σ.tasks.lists.head .taskrunqueue ≠ none

instance : (act : ThreadAction) → Decidable (act.Enabled σ) := fun act => by
  unfold Enabled
  cases act <;> infer_instance

end ThreadAction

/-- A thread whose cache holds `max` tasks. -/
def threadSystem (max : ℕ) : System Thread ThreadAction where
  init σ := ∃ first, σ = Thread.start first
  enabled σ act := act.Enabled σ
  exec σ act := act.exec max σ

instance (max : ℕ) (σ : Thread) (act : ThreadAction) : Decidable ((threadSystem max).enabled σ act) :=
  inferInstanceAs (Decidable (act.Enabled σ))

/-! ## What the tasks see of it -/

/-- The live tasks of a thread, where they wait, and which are system
tasks. -/
structure View where
  live : List TaskId
  waiting : List TaskId
  running : Option TaskId
  queue : Tasklist → List TaskId
  system : TaskId → Bool

/-- A task comes to the end of the run queue. -/
def View.ready (v : View) (t : TaskId) : View :=
  { v with queue := Function.update v.queue .taskrunqueue (v.queue .taskrunqueue ++ [t]) }

/-- What a step does for the tasks. -/
def ThreadAction.view : ThreadAction → View → View
  | taskcreate _ _ t, v => { v with live := v.live ++ [t] }.ready t
  | tasksystem x, v => { v with system := Function.update v.system x true }
  | taskexit x, v =>
      { v with
        live := v.live.erase x, running := none, system := Function.update v.system x false }
  | taskyield x, v => { v with running := none }.ready x
  | tasksleep x r, v =>
      { v with
        running := none
        queue := Function.update v.queue (.rendez r) (v.queue (.rendez r) ++ [x]) }
  | taskwakeup _ r, v =>
      match v.queue (.rendez r) with
      | [] => v
      | t :: ts => { v with queue := Function.update v.queue (.rendez r) ts }.ready t
  | taskswitch x, v => { v with running := none, waiting := v.waiting ++ [x] }
  | taskready _ t, v => { v with waiting := v.waiting.erase t }.ready t
  | taskcachefree _, v => v
  | taskscheduler, v =>
      match v.queue .taskrunqueue with
      | [] => v
      | t :: ts =>
          { v with running := some t, queue := Function.update v.queue .taskrunqueue ts }

/-- The view of a thread whose lists are `ls`. -/
def Thread.view (σ : Thread) (ls : Tasklist → List TaskId) : View where
  live := σ.live
  waiting := σ.waiting
  running := σ.tasks.taskrunning
  queue := Function.update ls .taskscache []
  system t := decide (t ∈ σ.live) && σ.tasks.system t

end Libtask

end VmwareProto
