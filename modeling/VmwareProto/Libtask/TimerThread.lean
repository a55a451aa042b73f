import VmwareProto.Libtask.Registration
import VmwareProto.Library.System
import Mathlib.Algebra.Group.Int.Defs
import Mathlib.Algebra.Group.Nat.Defs
/-!
# A thread with a timer

`timer.c` for one timer, which any number of tasks use: `timer_set`,
`timer_unset`, `timer_wait` and `timer_deinit`, and `_timer_func`, the task
that `timer_set` creates, with the part of `task_netrw` that it goes through.
The kernel lets the timer expire at any time. The tasks run in the order of
the run queue; `aiotask` looks for events when no other task is in it. What a
task does besides, in its own code or in the callback of the timer, is one
step of any kind. Of the last `timer_set` that succeeded one keeps in mind
what it asked for, and what has happened since.
-/

namespace VmwareProto

namespace Libtask

/-- What a timer descriptor is set to do. -/
inductive Setting
  | disarmed
  | once
  | periodic
  deriving DecidableEq

namespace Timespec

/-- The kernel takes no other. -/
def Valid (ts : Timespec) : Prop := 0 ≤ ts.tvSec ∧ 0 ≤ ts.tvNsec ∧ ts.tvNsec < 10 ^ 9

instance (ts : Timespec) : Decidable ts.Valid := inferInstanceAs (Decidable (_ ∧ _ ∧ _))

/-- `it_value`, and `it_interval` unless `repeat` is 0. -/
def setting (ts : Timespec) (repeats : ℤ) : Setting :=
  if ts.tvSec = 0 ∧ ts.tvNsec = 0 then .disarmed else if repeats = 0 then .once else .periodic

end Timespec

/-- Whose code a task runs: its own, or the callback. -/
inductive Code
  | task
  | callback
  deriving DecidableEq

/-- Where a task stands. -/
inductive TimerPc
  | code (c : Code)
  /-- in the `tasksleep` of `timer_wait` -/
  | wait (c : Code)
  /-- in the `taskyield` of `timer_deinit` -/
  | deinit (c : Code)
  /-- before `_timer_func` -/
  | start
  /-- before the `read` of `task_netrw`, which has found the context -/
  | read (fd : ℤ) (p : Ctx)
  /-- `aiotask`, before it looks for events -/
  | poll
  /-- `aiotask`, with its events -/
  | events
  deriving DecidableEq

namespace TimerPc

/-- A task that runs code of the program. -/
def isCode : TimerPc → Bool
  | code _ => true
  | _ => false

/-- A task that returns to the callback. -/
def isCallback : TimerPc → Bool
  | code .callback => true
  | wait .callback => true
  | deinit .callback => true
  | _ => false

/-- A task that is a `_timer_func`. -/
def isFunc : TimerPc → Bool
  | start => true
  | read _ _ => true
  | pc => pc.isCallback

end TimerPc

/-- What becomes of the timer. The `timer_deinit` of task `x` waits for
others to run. -/
inductive Life
  | raw
  | ready
  | deinit (x : TaskId)
  deriving DecidableEq

/-- What `read` answers on a descriptor that is no timer: 8 bytes, `EAGAIN`,
0 or an error. -/
inductive OtherRead
  | data
  | again
  | closed
  | failed (e : Errno)
  deriving DecidableEq

structure TimerThread where
  t : TaskTimer
  life : Life
  registry : Registry
  /-- descriptors that are timers, with the expirations not read yet -/
  timerfds : ℤ → Option (Setting × ℕ)
  pc : TaskId → TimerPc
  running : Option TaskId
  runq : List TaskId
  /-- tasks that wait for something else -/
  asleep : List TaskId
  /-- `t->rendez` -/
  rendez : List TaskId
  /-- the arguments of the last `timer_set` -/
  goal : Option (Timespec × ℤ)
  /-- callbacks that have started since -/
  calls : ℕ
  /-- reads of expirations since -/
  consumed : ℕ
  /-- expirations since -/
  expired : ℕ

namespace TimerThread

variable (σ : TimerThread)

/-! ## Tasks -/

/-- A task comes to another point. -/
def goto (x : TaskId) (pc : TimerPc) : TimerThread := { σ with pc := Function.update σ.pc x pc }

/-- `taskcreate`; `malloc` returned `t`. -/
def taskcreate (t : TaskId) (pc : TimerPc) : TimerThread :=
  { σ.goto t pc with runq := σ.runq ++ [t] }

/-- `taskexit` -/
def taskexit (x : TaskId) : TimerThread := { σ.goto x (.code .task) with running := none }

/-- `taskwakeupall` of `t->rendez` -/
def taskwakeupall : TimerThread := { σ with runq := σ.runq ++ σ.rendez, rendez := [] }

/-! ## The timer -/

/-- What `timer_set` and `timer_mod` leave of a `timerfd_settime` that
succeeds. -/
def armed (ts : Timespec) (repeats : ℤ) : TimerThread :=
  { σ with
    timerfds := Function.update σ.timerfds σ.t.timerfd (some (ts.setting repeats, 0))
    t := { σ.t with ts := ts, repeats := repeats }
    goal := some (ts, repeats), calls := 0, consumed := 0, expired := 0 }

/-- `timerfd_settime`, and the fields that `timer_set` and `timer_mod` store
if it succeeds. -/
def settime (ts : Timespec) (repeats : ℤ) : Option TimerThread :=
  match σ.timerfds σ.t.timerfd with
  | none => none
  | some _ => if ts.Valid then some (σ.armed ts repeats) else none

/-- `timer_mod` -/
def timerMod (ts : Timespec) (repeats : ℤ) : Option (ℤ × TimerThread) :=
  if σ.t.timerSet = 0 then none
  else if σ.t.init ≠ 1 then none
  else
    match σ.settime ts repeats with
    | none => some (-1, σ)
    | some τ => some (0, τ)

/-- `timer_set` -/
def timerSet (ts : Timespec) (repeats : ℤ) (malloc : TaskId) : Option (ℤ × TimerThread) :=
  if σ.t.closed ≠ 0 then none
  else if σ.t.init ≠ 1 then none
  else if σ.t.timerSet ≠ 0 then σ.timerMod ts repeats
  else
    match σ.settime ts repeats with
    | none => some (-1, σ)
    | some τ => some (0, { τ with t.timerSet := 1 }.taskcreate malloc .start)

/-- What `timer_unset` leaves of a timer that was set. -/
def disarmed : TimerThread :=
  { σ with
    timerfds := Function.update σ.timerfds σ.t.timerfd (some (.disarmed, 0))
    t := { σ.t with timerSet := 0 } }

/-- `timer_unset` -/
def timerUnset : Option TimerThread :=
  if σ.t.init ≠ 1 then none
  else if σ.t.closed ≠ 0 then none
  else if σ.t.timerSet = 0 then some σ
  else
    match σ.timerfds σ.t.timerfd with
    | none => none
    | some _ => some σ.disarmed

/-- `timer_wait` of task `x`, up to the `taskswitch` of its `tasksleep`. -/
def timerWait (x : TaskId) (c : Code) (ts : Timespec) (malloc : TaskId) : Option TimerThread := do
  let (rc, τ) ← σ.timerSet ts 0 malloc
  if rc < 0 then some τ
  else some { τ.goto x (.wait c) with rendez := τ.rendez ++ [x], running := none }

/-- The end of `timer_deinit`. -/
def deinitDone : TimerThread := { σ with t.timerfd := -1, life := .raw }

/-- `timer_deinit` of task `x`, up to the `taskswitch` of the `taskyield` in
`task_fd_deregister`, which is made if a task was waiting. -/
def timerDeinit (x : TaskId) (c : Code) : Option TimerThread :=
  let τ := { σ with t := { σ.t with closed := 1, init := 0 }, goal := none }
  if 0 < σ.t.timerfd then do
    let (_, T) ← (σ.registry.close σ.t.timerfd).taskFdDeregister σ.t.timerfd
    let τ := { τ with timerfds := Function.update σ.timerfds σ.t.timerfd none }
    if T.readied = [] then some { τ with registry := T }.deinitDone
    else
      some { τ.goto x (.deinit c) with
        registry := { T with readied := [] }, runq := σ.runq ++ T.readied ++ [x], running := none
        life := .deinit x }
  else some τ.deinitDone

/-! ## `_timer_func` -/

/-- The call of `task_netread`, up to its `read`. No error of `ctxt_lookup`
is one of the two that are looked for. -/
def netread (x : TaskId) : Option TimerThread :=
  match σ.registry.ctxtLookup σ.t.timerfd with
  | .error _ => none
  | .ok p =>
      match σ.registry.heap p with
      | some (.socket _ fd _ _) =>
          if fd = σ.t.timerfd then some (σ.goto x (.read σ.t.timerfd p)) else none
      | _ => none

/-- `t->repeat--`, if it is positive. -/
def countdown : TimerThread :=
  { σ with t.repeats := if 0 < σ.t.repeats then σ.t.repeats - 1 else σ.t.repeats }

/-- `_timer_func` after the callback -/
def afterCallback (x : TaskId) : Option TimerThread :=
  if σ.countdown.t.repeats = 0 then σ.countdown.timerUnset.map fun τ => τ.taskexit x
  else σ.countdown.netread x

/-- `_timer_func` after a `read` of 8 bytes, up to the callback. -/
def serve (x : TaskId) : Option TimerThread :=
  let τ := { σ.taskwakeupall with consumed := σ.consumed + 1 }
  if σ.t.cbfn = none then τ.afterCallback x
  else some { τ.goto x (.code .callback) with calls := σ.calls + 1 }

/-- A `read` that answered `EAGAIN`: the task is recorded in the context. -/
def again (x : TaskId) (p : Ctx) : Option TimerThread :=
  match σ.registry.heap p with
  | some (.socket tasktype fd none writer) =>
      some { σ with
        registry := σ.registry.calloc p (.socket tasktype fd (some x) writer), running := none }
  | _ => none

/-- A `read` after which the descriptor is taken to be closed. -/
def closed (x : TaskId) : Option TimerThread :=
  if σ.t.closed = 1 then some (σ.taskexit x) else none

/-- The `read` of `task_netrw`, and what follows. `o` is the answer of a
descriptor that is open and no timer. -/
def read (x : TaskId) (fd : ℤ) (p : Ctx) (o : OtherRead) : Option TimerThread :=
  match σ.registry.fds fd with
  | none => σ.closed x
  | some _ =>
      match σ.timerfds fd with
      | some (_, 0) => σ.again x p
      | some (s, _ + 1) =>
          { σ with timerfds := Function.update σ.timerfds fd (some (s, 0)) }.serve x
      | none =>
          match o with
          | .data => σ.serve x
          | .again => σ.again x p
          | .closed => σ.closed x
          | .failed e => if e.1 = ebadf then σ.closed x else none

/-! ## Events -/

/-- `sockio_done` for the context of the timer, which `fifoio_done` calls. -/
def event (p : Ctx) : Option TimerThread :=
  match σ.registry.heap p with
  | some (.socket tasktype fd (some r) writer) =>
      some { σ with
        registry := σ.registry.calloc p (.socket tasktype fd none writer), runq := σ.runq ++ [r] }
  | some (.socket _ _ none (some _)) => some σ
  | _ => none

/-! ## Places -/

/-- The task that is recorded in the context of the timer. -/
def reader : Option TaskId :=
  if σ.life = .ready then
    match (σ.registry.tcarray σ.t.timerfd).bind σ.registry.heap with
    | some (.socket _ _ r _) => r
    | _ => none
  else none

/-- The tasks there are. -/
def places : List TaskId :=
  σ.running.toList ++ σ.runq ++ σ.asleep ++ σ.rendez ++ σ.reader.toList

end TimerThread

/-! ## Steps -/

inductive TimerAction
  | timerInit (x : TaskId) (cbfn : Option ℕ) (data : ℕ) (a : TimerAnswers)
  | timerSet (x : TaskId) (ts : Timespec) (repeats : ℤ) (malloc : TaskId)
  | timerUnset (x : TaskId)
  | timerWait (x : TaskId) (ts : Timespec) (malloc : TaskId)
  | timerDeinit (x : TaskId)
  /-- `tasksleep` or `taskyield` return -/
  | resume (x : TaskId)
  /-- `_timer_func` starts -/
  | start (x : TaskId)
  | read (x : TaskId) (o : OtherRead)
  /-- the callback returns -/
  | ret (x : TaskId)
  | taskyield (x : TaskId)
  /-- a task waits for something else -/
  | sleep (x : TaskId)
  /-- and is made ready -/
  | ready (x t : TaskId)
  | taskcreate (x malloc : TaskId)
  | taskexit (x : TaskId)
  /-- another descriptor, and the memory of another context -/
  | other (x : TaskId) (fd : ℤ) (entry : Option Ctx) (i : Option (Option Interest)) (p : Ctx)
      (c : Option TaskContext)
  /-- the memory of a timer that is not initialised -/
  | scribble (t : TaskTimer)
  | taskscheduler
  /-- a timer expires -/
  | expire (fd : ℤ)
  | epollWait (x : TaskId)
  /-- an event of the timer -/
  | event (x : TaskId)
  /-- `aiotask` is done with its events -/
  | polled (x : TaskId)

namespace TimerAction

variable (σ : TimerThread)

def exec : TimerAction → Option TimerThread
  | timerInit _ cbfn data a => do
      let (rc, t, T) ← σ.registry.timerInit σ.t cbfn data a
      let τ := { σ with t := t, registry := T, rendez := [], goal := none }
      if rc = 0 then
        some { τ with
          timerfds := Function.update σ.timerfds t.timerfd (some (.disarmed, 0)), life := .ready }
      else some τ
  | timerSet _ ts repeats malloc => (σ.timerSet ts repeats malloc).map Prod.snd
  | timerUnset _ => σ.timerUnset.map fun τ => { τ with goal := none }
  | timerWait x ts malloc =>
      match σ.pc x with
      | .code c => σ.timerWait x c ts malloc
      | _ => none
  | timerDeinit x =>
      match σ.pc x with
      | .code c => σ.timerDeinit x c
      | _ => none
  | resume x =>
      match σ.pc x with
      | .wait c => some (σ.goto x (.code c))
      | .deinit c => some (σ.goto x (.code c)).deinitDone
      | _ => none
  | start x => σ.netread x
  | read x o =>
      match σ.pc x with
      | .read fd p => σ.read x fd p o
      | _ => none
  | ret x => σ.afterCallback x
  | taskyield x => some { σ with runq := σ.runq ++ [x], running := none }
  | sleep x => some { σ with asleep := σ.asleep ++ [x], running := none }
  | ready _ t => some { σ with asleep := σ.asleep.erase t, runq := σ.runq ++ [t] }
  | taskcreate _ malloc => some (σ.taskcreate malloc (.code .task))
  | taskexit x => some (σ.taskexit x)
  | other _ fd entry i p c =>
      some { σ with
        registry := { σ.registry with
          tcarray := Function.update σ.registry.tcarray fd entry
          fds := Function.update σ.registry.fds fd i, heap := Function.update σ.registry.heap p c } }
  | scribble t => some { σ with t := t }
  | taskscheduler =>
      match σ.runq with
      | [] => none
      | t :: q => some { σ with running := some t, runq := q }
  | expire fd =>
      match σ.timerfds fd with
      | some (s, n) =>
          some { σ with
            timerfds := Function.update σ.timerfds fd
              (some (if s = .once then .disarmed else s, n + 1))
            expired := if fd = σ.t.timerfd then σ.expired + 1 else σ.expired }
      | none => none
  | epollWait x => some (σ.goto x .events)
  | event _ =>
      match σ.registry.fds σ.t.timerfd with
      | some (some i) => σ.event i.ctx
      | _ => none
  | polled x => some (σ.goto x .poll)

/-- Task `x` runs and is where `p` holds. -/
def AtSome (x : TaskId) (p : TimerPc → Bool) : Prop := σ.running = some x ∧ p (σ.pc x) = true

instance (x : TaskId) (p : TimerPc → Bool) : Decidable (AtSome σ x p) := inferInstanceAs (Decidable (_ ∧ _))

/-- Memory that is not in use. -/
def Fresh (t : TaskId) : Prop := t ∉ σ.places

instance (t : TaskId) : Decidable (Fresh σ t) := inferInstanceAs (Decidable (¬_))

/-- The kernel opens a number that is not open. -/
def Opened (a : TimerAnswers) : Prop :=
  match a.timerfdCreate with
  | .ok fd => σ.registry.Opens fd
  | .error _ => True

instance (a : TimerAnswers) : Decidable (Opened σ a) := by
  unfold Opened
  split
  · exact inferInstanceAs (Decidable (_ ∧ _))
  · exact instDecidableTrue

instance (k : RegAnswers) : Decidable (σ.registry.Allocates k) :=
  inferInstanceAs (Decidable (∀ p ∈ k.calloc, σ.registry.heap p = none))

/-- What is asked of the calls: `timer_init` and `timer_deinit` come in
turns, and the others between them. Other descriptors and contexts are those
of no timer. -/
def Enabled : TimerAction → Prop
  | timerInit x _ _ a =>
      AtSome σ x TimerPc.isCode ∧ σ.life = .raw ∧ σ.registry.Allocates a.register ∧ Opened σ a
  | timerSet x _ _ malloc => AtSome σ x TimerPc.isCode ∧ σ.life = .ready ∧ Fresh σ malloc
  | timerUnset x => AtSome σ x TimerPc.isCode ∧ σ.life = .ready
  | timerWait x _ malloc => AtSome σ x TimerPc.isCode ∧ σ.life = .ready ∧ Fresh σ malloc
  | timerDeinit x => AtSome σ x TimerPc.isCode ∧ σ.life = .ready
  | resume x => AtSome σ x fun pc => (pc matches .wait _ | .deinit _)
  | start x => AtSome σ x fun pc => (pc matches .start)
  | read x _ => AtSome σ x fun pc => (pc matches .read _ _)
  | ret x => AtSome σ x fun pc => (pc matches .code .callback)
  | taskyield x => AtSome σ x fun pc => pc.isCode || (pc matches .poll)
  | sleep x => AtSome σ x TimerPc.isCode
  | ready x t => AtSome σ x (fun pc => pc.isCode || (pc matches .events)) ∧ t ∈ σ.asleep
  | taskcreate x malloc => AtSome σ x TimerPc.isCode ∧ Fresh σ malloc
  | taskexit x => AtSome σ x fun pc => (pc matches .code .task)
  | other x fd _ _ p _ =>
      AtSome σ x TimerPc.isCode ∧ σ.timerfds fd = none ∧
      ¬(σ.life = .ready ∧ σ.registry.tcarray σ.t.timerfd = some p)
  | scribble _ => σ.life = .raw
  | taskscheduler => σ.running = none ∧ σ.runq ≠ []
  | expire fd =>
      match σ.timerfds fd with
      | some (s, _) => s ≠ .disarmed
      | none => False
  | epollWait x => AtSome σ x (fun pc => (pc matches .poll)) ∧ σ.runq = []
  | event x =>
      AtSome σ x (fun pc => (pc matches .events)) ∧ σ.life = .ready ∧
      (σ.registry.fds σ.t.timerfd).any Option.isSome = true ∧
      (σ.timerfds σ.t.timerfd).any (fun s => decide (0 < s.2)) = true
  | polled x => AtSome σ x fun pc => (pc matches .events)

instance : (act : TimerAction) → Decidable (act.Enabled σ) := fun act => by
  cases act with
  | expire fd =>
      unfold Enabled
      dsimp only
      split <;> infer_instance
  | _ =>
      unfold Enabled
      infer_instance

end TimerAction

/-- The thread as it starts: task 0 runs, and task 1 is `aiotask`. Anything
may be in the memory of the timer. -/
def TimerThread.start (t : TaskTimer) : TimerThread where
  t := t
  life := .raw
  registry := ⟨fun _ => none, fun _ => none, fun _ => none, []⟩
  timerfds := fun _ => none
  pc := fun x => if x = 1 then .poll else .code .task
  running := some 0
  runq := [1]
  asleep := []
  rendez := []
  goal := none
  calls := 0
  consumed := 0
  expired := 0

/-- A thread with any program, and a timer. -/
def timers : System TimerThread TimerAction where
  init σ := ∃ t, σ = TimerThread.start t
  enabled σ act := act.Enabled σ
  exec σ act := act.exec σ

instance (σ : TimerThread) (act : TimerAction) : Decidable (timers.enabled σ act) :=
  inferInstanceAs (Decidable (act.Enabled σ))

end Libtask

end VmwareProto
