import VmwareProto.Libtask.Taskio
/-!
# Programs of tasks

What tasks do, in any order, and what the scheduler and the kernel do under
them. `taskfifo_accept` and `taskfifo_connect` are two opens and two
registrations (`fifoSetup`).
-/

namespace VmwareProto

namespace Libtask

/-- Steps of task `x`, of the scheduler and of the kernel. -/
inductive TaskAction
  | taskcreate (x : TaskId) (stack : ℕ) (malloc : TaskId)
  | taskyield (x : TaskId)
  | taskexit (x : TaskId)
  | tasksystem (x : TaskId)
  | tasksleep (x : TaskId) (r : ℕ)
  | taskwakeup (x : TaskId) (r : ℕ)
  | taskwakeupall (x : TaskId) (r : ℕ)
  /-- the next turn of the loop of `_taskwakeup` -/
  | wakenext (x : TaskId)
  /-- `task_netread`, `task_netwrite` or `tasknet_accept` -/
  | netrw (x : TaskId) (op : Op) (fd : Fd) (n : ℕ)
  /-- its `read`, `write` or `accept` -/
  | issue (x : TaskId) (o : Outcome)
  /-- `accept` has a connection, which gets the number `fd` -/
  | accepted (x : TaskId) (fd : Fd) (m : Mask)
  /-- the task is recorded and waits -/
  | suspend (x : TaskId)
  | aiorw (x : TaskId)
  /-- `task_aiorw` returns -/
  | aioret (x : TaskId)
  | openFile (x : TaskId) (k : Kind) (fd : Fd) (m : Mask)
  | close (x : TaskId) (fd : Fd)
  | register (x : TaskId) (r : Registration) (fd : Fd)
  | deregister (x : TaskId) (fd : Fd)
  /-- the last of `task_fd_deregister`, after its `taskyield` -/
  | epollDel (x : TaskId)
  /-- `aiotask` comes to its loop -/
  | start (x : TaskId)
  /-- its `taskyield` -/
  | poll (x : TaskId)
  /-- its `taskyield` returns -/
  | yielded (x : TaskId)
  /-- `epoll_wait` returns -/
  | epollWait (x : TaskId) (rs : List Report)
  /-- the next event -/
  | dispatch (x : TaskId)
  /-- the next completion -/
  | reap (x : TaskId)
  | taskscheduler
  /-- the readiness of a file changes -/
  | change (f : File) (m more : Mask)
  /-- a request is done -/
  | complete (t : TaskId)
  deriving DecidableEq

namespace TaskAction

variable (σ : Taskio)

def exec : TaskAction → Option Taskio
  | taskcreate _ stack malloc => do
      let (T, t) ← σ.tasks.taskcreate stack malloc
      some { σ with tasks := T, pc := Function.update σ.pc t .top }
  | taskyield x => some { σ with tasks := σ.tasks.taskyield x }
  | taskexit x => some { σ with tasks := σ.tasks.taskexit x }
  | tasksystem x => some { σ with tasks := σ.tasks.tasksystem x }
  | tasksleep x r => some { σ with tasks := σ.tasks.tasksleep r x }
  | taskwakeup _ r => some { σ with tasks := (σ.tasks.taskwakeup r).1 }
  | taskwakeupall x r => some { σ with pc := Function.update σ.pc x (.wakeall r) }
  | wakenext x =>
      match σ.pc x with
      | .wakeall r =>
          let (T, woke) := σ.tasks.taskwakeup r
          some { σ with tasks := T, pc := if woke = true then σ.pc else Function.update σ.pc x .top }
      | _ => none
  | netrw x op fd n =>
      match σ.contexts.lookup fd with
      | none => some σ
      | some c =>
          if op = .accept ∧ (σ.contexts.ctx c).tasktype ≠ .socket then none
          else if (σ.contexts.ctx c).fd ≠ fd then none
          else some { σ with pc := Function.update σ.pc x (.netrw op fd c n) }
  | issue x o =>
      match σ.pc x with
      | .netrw op fd c n =>
          match o with
          | .moved k left =>
              some { σ with
                files := (σ.files.table fd).elim σ.files fun f => σ.files.drain f op.side left
                pc := Function.update σ.pc x (if k < n then .netrw op fd c (n - k) else .top) }
          | .again => some { σ with pc := Function.update σ.pc x (.again op fd c n) }
          | _ => some { σ with pc := Function.update σ.pc x .top }
      | _ => none
  | accepted x fd m =>
      let τ := { σ with files := σ.files.openFile .socket fd m, pc := Function.update σ.pc x .top }
      if fd < taskioMaxFdValue ∧ σ.contexts.tcarray fd = none then some (τ.register .sock fd)
      else some { τ with files := τ.files.close fd }
  | suspend x =>
      match σ.pc x with
      | .again op fd c n =>
          if ((σ.contexts.ctx c).waiter op.side).isSome = true then none
          else some { σ with
            tasks := σ.tasks.taskswitch, contexts := σ.contexts.record c op.side (some x)
            pc := Function.update σ.pc x (.netrw op fd c n) }
      | _ => none
  | aiorw x =>
      some { σ with
        tasks := σ.tasks.taskswitch, submitted := σ.submitted ++ [x]
        pc := Function.update σ.pc x .aiorw }
  | aioret x => some { σ with pc := Function.update σ.pc x .top }
  | openFile _ k fd m => some { σ with files := σ.files.openFile k fd m }
  | close _ fd => some { σ with files := σ.files.close fd }
  | register _ r fd => some (σ.register r fd)
  | deregister x fd => some (σ.deregister x fd)
  | epollDel x =>
      match σ.pc x with
      | .deregister fd =>
          some { σ with files := σ.files.epollDel fd, pc := Function.update σ.pc x .top }
      | _ => none
  | start x =>
      some { σ with tasks := σ.tasks.tasksystem x, pc := Function.update σ.pc x .poll }
  | poll x =>
      some { σ with
        tasks := σ.tasks.taskyield x, pc := Function.update σ.pc x (.yielded σ.tasks.tasknswitch) }
  | yielded x =>
      match σ.pc x with
      | .yielded n =>
          some { σ with
            pc := Function.update σ.pc x (if 0 < (σ.tasks.tasknswitch : ℤ) - n - 1 then .poll else .wait) }
      | _ => none
  | epollWait x rs =>
      some { σ with
        files := Taskio.reported σ.files rs
        pc := Function.update σ.pc x (.dispatch (rs.map σ.event)) }
  | dispatch x =>
      match σ.pc x with
      | .dispatch [] => some { σ with pc := Function.update σ.pc x .poll }
      | .dispatch (e :: es) => σ.dispatch x es e
      | _ => none
  | reap x =>
      match σ.pc x, σ.completed with
      | .reap 0 es, _ => some { σ with pc := Function.update σ.pc x (.dispatch es) }
      | .reap (n + 1) es, t :: ts =>
          some { σ with
            tasks := σ.tasks.taskready t, completed := ts, pc := Function.update σ.pc x (.reap n es) }
      | _, _ => none
  | taskscheduler =>
      match σ.tasks.taskscheduler with
      | some (.run T) => some { σ with tasks := T }
      | _ => none
  | change f m more => some { σ with files := σ.files.change f m more }
  | complete t =>
      some { σ with
        submitted := σ.submitted.erase t, completed := σ.completed ++ [t], eventfd := σ.eventfd + 1 }

/-- Task `x` runs and is at `pc`. -/
def At (x : TaskId) (pc : Pc) : Prop := σ.tasks.taskrunning = some x ∧ σ.pc x = pc

instance (x : TaskId) (pc : Pc) : Decidable (At σ x pc) := inferInstanceAs (Decidable (_ ∧ _))

/-- Task `x` runs and is where `p` holds. -/
def AtSome (x : TaskId) (p : Pc → Bool) : Prop := σ.tasks.taskrunning = some x ∧ p (σ.pc x) = true

instance (x : TaskId) (p : Pc → Bool) : Decidable (AtSome σ x p) := inferInstanceAs (Decidable (_ ∧ _))

/-- A FIFO's readiness is lost by the program's own calls only: its peer
fills and empties it. -/
def Changes (f : File) (m : Mask) : Prop :=
  f < σ.files.nfiles ∧
  (σ.files.kind f = .fifoIn ∨ σ.files.kind f = .fifoOut →
    ∀ s ∈ [Side.reader, Side.writer], (σ.files.ready f).has s = true → m.has s = true)

instance (f : File) (m : Mask) : Decidable (Changes σ f m) := inferInstanceAs (Decidable (_ ∧ _))

/-- A task does what it is at. `malloc` returns memory that is not in use,
and an open the lowest free number. -/
def Enabled : TaskAction → Prop
  | taskcreate x _ t => At σ x .top ∧ t ∉ σ.tasks.alltask
  | taskyield x => At σ x .top
  | taskexit x => At σ x .top
  | tasksystem x => At σ x .top
  | tasksleep x _ => At σ x .top
  | taskwakeup x _ => At σ x .top
  | taskwakeupall x _ => At σ x .top
  | wakenext x => AtSome σ x fun pc => (pc matches .wakeall _)
  | netrw x _ _ _ => At σ x .top
  | issue x o =>
      AtSome σ x fun pc =>
        match pc with
        | .netrw op fd _ n => σ.files.answers op fd n o
        | _ => false
  | accepted x fd _ =>
      AtSome σ x (fun pc =>
        match pc with
        | .netrw .accept fd _ _ => σ.files.connects fd
        | _ => false) ∧ σ.files.Lowest fd
  | suspend x => AtSome σ x fun pc => (pc matches .again _ _ _ _)
  | aiorw x => At σ x .top
  | aioret x => At σ x .aiorw
  | openFile x k fd _ => At σ x .top ∧ k ≠ .system ∧ σ.files.Lowest fd
  | close x fd => At σ x .top ∧ (σ.files.table fd).any (fun f => σ.files.kind f ≠ .system) = true
  | register x _ _ => At σ x .top
  | deregister x _ => At σ x .top
  | epollDel x => AtSome σ x fun pc => (pc matches .deregister _)
  | start x => At σ x .start
  | poll x => At σ x .poll
  | yielded x => AtSome σ x fun pc => (pc matches .yielded _)
  | epollWait x rs => At σ x .wait ∧ σ.MayReport rs
  | dispatch x => AtSome σ x fun pc => (pc matches .dispatch _)
  | reap x => AtSome σ x fun pc => (pc matches .reap _ _)
  | taskscheduler =>
      σ.tasks.taskrunning = none ∧ σ.tasks.taskcount ≠ 0 ∧ σ.tasks.lists.head .taskrunqueue ≠ none
  | change f m _ => Changes σ f m
  | complete t => t ∈ σ.submitted

instance : (act : TaskAction) → Decidable (act.Enabled σ)
  | taskcreate _ _ _ => inferInstanceAs (Decidable ((_ ∧ _) ∧ _))
  | taskyield _ => inferInstanceAs (Decidable (_ ∧ _))
  | taskexit _ => inferInstanceAs (Decidable (_ ∧ _))
  | tasksystem _ => inferInstanceAs (Decidable (_ ∧ _))
  | tasksleep _ _ => inferInstanceAs (Decidable (_ ∧ _))
  | taskwakeup _ _ => inferInstanceAs (Decidable (_ ∧ _))
  | taskwakeupall _ _ => inferInstanceAs (Decidable (_ ∧ _))
  | wakenext _ => inferInstanceAs (Decidable (_ ∧ _))
  | netrw _ _ _ _ => inferInstanceAs (Decidable (_ ∧ _))
  | issue _ _ => inferInstanceAs (Decidable (_ ∧ _))
  | accepted _ _ _ => inferInstanceAs (Decidable ((_ ∧ _) ∧ _))
  | suspend _ => inferInstanceAs (Decidable (_ ∧ _))
  | aiorw _ => inferInstanceAs (Decidable (_ ∧ _))
  | aioret _ => inferInstanceAs (Decidable (_ ∧ _))
  | openFile _ _ _ _ => inferInstanceAs (Decidable ((_ ∧ _) ∧ _ ∧ _))
  | close _ _ => inferInstanceAs (Decidable ((_ ∧ _) ∧ _))
  | register _ _ _ => inferInstanceAs (Decidable (_ ∧ _))
  | deregister _ _ => inferInstanceAs (Decidable (_ ∧ _))
  | epollDel _ => inferInstanceAs (Decidable (_ ∧ _))
  | start _ => inferInstanceAs (Decidable (_ ∧ _))
  | poll _ => inferInstanceAs (Decidable (_ ∧ _))
  | yielded _ => inferInstanceAs (Decidable (_ ∧ _))
  | epollWait _ _ => inferInstanceAs (Decidable ((_ ∧ _) ∧ _))
  | dispatch _ => inferInstanceAs (Decidable (_ ∧ _))
  | reap _ => inferInstanceAs (Decidable (_ ∧ _))
  | taskscheduler => inferInstanceAs (Decidable (_ ∧ _ ∧ _))
  | change _ _ _ => inferInstanceAs (Decidable (_ ∧ _))
  | complete _ => inferInstanceAs (Decidable (_ ∈ _))

end TaskAction

/-- The main task, 0, has called `taskio_init` and `taskio_start`; `aiotask`
is task 1. The first `k` numbers are taken. -/
def Taskio.start (k : ℕ) : Taskio where
  tasks := { Tasks.empty with
    lists := (Tasks.empty.lists.add .taskrunqueue 1), alltask := ⟨[0, 1], id⟩
    taskrunning := some 0, taskcount := 2, tasknswitch := 1
    stksize := fun t => if t = 1 then cacheStackSize else 256 * 1024 }
  pc t := if t = 1 then .start else .top
  files :=
    { table := fun fd => if fd < k then some fd else none
      nfiles := k
      kind := fun _ => .system
      ready := fun _ => .empty
      interest := fun _ => none
      queued := fun _ => .empty }
  contexts :=
    { tcarray := fun _ => none
      ctx := fun _ => ⟨.socket, 0, fun _ => none⟩
      nctx := 0
      live := fun _ => false
      reg := fun _ => .sock
      file := fun _ => none }
  submitted := []
  completed := []
  eventfd := 0

/-- A thread with any program. -/
def taskio : System Taskio TaskAction where
  init σ := ∃ k, σ = Taskio.start k
  enabled σ act := act.Enabled σ
  exec σ act := act.exec σ

instance (σ : Taskio) (act : TaskAction) : Decidable (taskio.enabled σ act) :=
  inferInstanceAs (Decidable (act.Enabled σ))

/-- `taskfifo_accept` of task `x`, whose FIFOs get the numbers `i` and `o`;
`taskfifo_connect` opens the other one first. -/
def fifoSetup (x : TaskId) (connect : Bool) (i o : Fd) : List TaskAction :=
  let input := [.openFile x .fifoIn i .empty, .register x (.fifo true) i]
  let output := [.openFile x .fifoOut o ⟨false, true, false, false⟩, .register x (.fifo false) o]
  if connect = true then output ++ input else input ++ output

end Libtask

end VmwareProto
