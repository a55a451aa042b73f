import VmwareProto.Libtask.Program
/-!
# Requests

`task_aiorw` and `libaio_done` with what they hand to each other: the
request, the `LibaioState` on the stack of the task that waits, and what the
kernel reports in it. Between them are the kernel, which is done with
requests in any order and counts them on the event descriptor after that, and
one queue of completions. What is read or written, and where, is left out. The
rest of the thread is as before (`erase`).
-/

namespace VmwareProto

namespace Libtask

/-- `TASKIO_NIOEVENT` -/
def taskioNioevent : ℕ := 128

/-- `TASKIO_IOERR` -/
def taskioIoerr : ℤ := 1007

/-- `struct iocb`, as the number it has in the order of submission. The `LibaioState` to
which `data` points lies on the stack of a task. -/
structure Request where
  id : ℕ
  data : TaskId
  nbytes : BitVec 64
  deriving DecidableEq

/-- `struct io_event` -/
structure IoEvent where
  obj : Request
  res : BitVec 64
  res2 : BitVec 64
  deriving DecidableEq

/-- Its `data` -/
def IoEvent.data (e : IoEvent) : TaskId := e.obj.data

structure LibaioState where
  waiter : Option TaskId
  res : BitVec 32
  res2 : BitVec 32
  deriving DecidableEq

/-- What `libaio_done` stores. -/
def LibaioState.store (ls : LibaioState) (e : IoEvent) : LibaioState :=
  { ls with res := e.res.setWidth 32, res2 := e.res2.setWidth 32 }

/-- `task_aiorw_ret`: both words are signed, and become 64 bits wide. -/
def taskAiorwRet (ls : LibaioState) : BitVec 64 :=
  (ls.res2.signExtend 64) <<< 32 ||| ls.res.signExtend 64

/-- What `task_aiorw` returns, and `*ret`. -/
def taskAiorwAnswer (ls : LibaioState) (nbytes : BitVec 64) : BitVec 64 × ℤ :=
  (taskAiorwRet ls, if taskAiorwRet ls = nbytes then 0 else taskioIoerr)

/-- A thread and its requests: those the kernel works on, and its queue of
completions. Of `task_aiorw` one keeps in mind what each task last asked for
and was answered, and of `libaio_done` what each call of `io_getevents`
reaped. -/
structure Aio where
  tasks : Tasks
  pc : TaskId → Pc
  files : Files
  contexts : Contexts
  /-- the counter of `taskio_eventfd` -/
  eventfd : ℕ
  inflight : List Request
  queue : List IoEvent
  ls : TaskId → LibaioState
  submits : ℕ
  request : TaskId → Request
  answer : TaskId → Option (BitVec 64 × ℤ)
  batches : List (List IoEvent)

namespace Aio

variable (σ : Aio)

/-- The thread, with tasks for requests. -/
def erase : Taskio where
  tasks := σ.tasks
  pc := σ.pc
  files := σ.files
  contexts := σ.contexts
  submitted := σ.inflight.map Request.data
  completed := σ.queue.map IoEvent.data
  eventfd := σ.eventfd

/-- The requests, in a thread that is `τ`. -/
def lift (τ : Taskio) : Aio :=
  { σ with tasks := τ.tasks, pc := τ.pc, files := τ.files, contexts := τ.contexts, eventfd := τ.eventfd }

/-- The completions that have been reaped. -/
def reaped : List IoEvent := σ.batches.flatten

/-- The requests that have not been reaped. -/
def pending : List Request := σ.inflight ++ σ.queue.map IoEvent.obj

/-! ## `libaio_done` -/

/-- A completion is handed to its task. -/
def signal (e : IoEvent) : Option Aio :=
  match (σ.ls e.data).waiter with
  | none => none
  | some t =>
      some { σ with
        ls := Function.update σ.ls e.data ((σ.ls e.data).store e), tasks := σ.tasks.taskready t }

/-- The loop over the array of completions. -/
def signals : List IoEvent → Aio → Option Aio
  | [], σ => some σ
  | e :: ea, σ => do
      let τ ← σ.signal e
      signals ea τ

/-- The loop of `libaio_done`, with `events` completions to go. `io_getevents`
waits for as many as it is asked for. -/
def reapLoop : ℕ → ℕ → Aio → Option Aio
  | 0, _, _ => none
  | fuel + 1, events, σ =>
      if events = 0 then some σ
      else
        let nio := min events taskioNioevent
        if σ.queue.length < nio then none
        else do
          let ea := σ.queue.take nio
          let τ ← signals ea { σ with queue := σ.queue.drop nio, batches := σ.batches ++ [ea] }
          reapLoop fuel (events - nio) τ

/-- `libaio_done` -/
def libaioDone : Option Aio :=
  if σ.eventfd = 0 then none
  else reapLoop (σ.eventfd + 1) σ.eventfd { σ with eventfd := 0 }

end Aio

/-! ## Steps -/

inductive AioAction
  /-- a step that is none of the following -/
  | task (act : TaskAction)
  /-- `task_aiorw` of task `x`, up to its `taskswitch` -/
  | aiorw (x : TaskId) (nbytes : BitVec 64)
  /-- `task_aiorw` returns -/
  | aioret (x : TaskId)
  /-- an event of libaio -/
  | libaioDone (x : TaskId)
  /-- the kernel is done with a request -/
  | complete (r : Request) (res : BitVec 32)
  /-- and counts it -/
  | count
  deriving DecidableEq

/-- The next event is one of libaio. -/
def Pc.libaio : Pc → Bool
  | dispatch (.libaio :: _) => true
  | _ => false

/-- A step that deals with no request. -/
def TaskAction.Other (σ : Taskio) : TaskAction → Prop
  | aiorw _ => False
  | aioret _ => False
  | complete _ => False
  | reap _ => False
  | dispatch x => (σ.pc x).libaio = false
  | _ => True

instance (σ : Taskio) : (act : TaskAction) → Decidable (act.Other σ) := fun act => by
  unfold TaskAction.Other
  cases act <;> infer_instance

namespace AioAction

variable (σ : Aio)

def exec : AioAction → Option Aio
  | task act => (act.exec σ.erase).map σ.lift
  | aiorw x nbytes =>
      let r : Request := ⟨σ.submits, x, nbytes⟩
      some { σ with
        ls := Function.update σ.ls x ⟨some x, 0, 0⟩, inflight := σ.inflight ++ [r]
        submits := σ.submits + 1, request := Function.update σ.request x r
        answer := Function.update σ.answer x none
        tasks := σ.tasks.taskswitch, pc := Function.update σ.pc x .aiorw }
  | aioret x =>
      some { σ with
        answer := Function.update σ.answer x (some (taskAiorwAnswer (σ.ls x) (σ.request x).nbytes))
        pc := Function.update σ.pc x .top }
  | libaioDone x =>
      match σ.pc x with
      | .dispatch (.libaio :: es) => do
          let τ ← σ.libaioDone
          some { τ with pc := Function.update τ.pc x (.dispatch es) }
      | _ => none
  | complete r res =>
      some { σ with
        inflight := σ.inflight.erase r, queue := σ.queue ++ [⟨r, res.signExtend 64, 0⟩] }
  | count => some { σ with eventfd := σ.eventfd + 1 }

/-- The kernel completes what was submitted, and counts what it has
completed. -/
def Enabled : AioAction → Prop
  | task act => act.Enabled σ.erase ∧ act.Other σ.erase
  | aiorw x _ => TaskAction.At σ.erase x .top
  | aioret x => TaskAction.At σ.erase x .aiorw
  | libaioDone x => TaskAction.AtSome σ.erase x Pc.libaio
  | complete r _ => r ∈ σ.inflight
  | count => σ.eventfd < σ.queue.length

instance : (act : AioAction) → Decidable (act.Enabled σ) := fun act => by
  unfold Enabled
  cases act <;> infer_instance

end AioAction

/-- The thread as it starts, without a request. -/
def Aio.start (k : ℕ) : Aio where
  tasks := (Taskio.start k).tasks
  pc := (Taskio.start k).pc
  files := (Taskio.start k).files
  contexts := (Taskio.start k).contexts
  eventfd := 0
  inflight := []
  queue := []
  ls := fun _ => ⟨none, 0, 0⟩
  submits := 0
  request := fun _ => ⟨0, 0, 0⟩
  answer := fun _ => none
  batches := []

/-- A thread with any program, and its requests. -/
def libaio : System Aio AioAction where
  init σ := ∃ k, σ = Aio.start k
  enabled σ act := act.Enabled σ
  exec σ act := act.exec σ

instance (σ : Aio) (act : AioAction) : Decidable (libaio.enabled σ act) :=
  inferInstanceAs (Decidable (act.Enabled σ))

end Libtask

end VmwareProto
