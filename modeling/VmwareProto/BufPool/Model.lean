import VmwareProto.Library.Counters
import VmwareProto.Library.Rings
import VmwareProto.Library.System
import VmwareProto.Libtask.QLock
/-!
# `bufpool_t`

The pool of fixed-size buffers and the tasks that use it. A free buffer's
first two words are its links in the free list; while a buffer is held
they are its holder's to write. Every function is cut at `TASKSLEEP`, the
one place where another task can run. `none` is a failed assertion, a null
pointer followed, or an overflow of the free list's length, an `int`.
-/

namespace VmwareProto

namespace BufPool

open Libtask

/-- The address of a buffer. -/
abbrev Addr := ℕ

/-- What a link can lead to besides a buffer: nothing, or the free list's
head. -/
inductive Head
  | null
  | freelist
  deriving DecidableEq, Repr

/-- What a link holds. -/
abbrev Ptr := Node Head Addr

/-- The null pointer. -/
def null : Ptr := .head .null

/-- `&bp->freelist.q_dll`. -/
def freelist : Ptr := .head .freelist

/-- `BUFPOOL_STATE`, from `bufpool_init` on. -/
inductive PoolState
  | initialized
  | deiniting
  | deinted
  deriving DecidableEq, Repr

/-- `bufpool_t`, with the memory of the buffers. -/
structure Pool where
  /-- `freelist.q_dll` and the first two words of every buffer -/
  links : Links Ptr
  /-- `freelist.q_len`, an `int` -/
  qlen : ℤ
  issued : ℕ
  owned : ℕ
  bufsize : ℕ
  nbufs : ℕ
  nmax : ℕ
  state : PoolState
  rendez : List TaskId
  /-- where `bufpool_deinit` blocks -/
  deinit : List TaskId
  /-- memory that was allocated and not freed -/
  live : Addr → Bool

/-- `sizeof(dll_t)`. -/
def dllSize : ℕ := 16

namespace Pool

variable (p : Pool) (a : Addr)

/-! ## The free list -/

/-- `DLL_INIT` and `queue_add`: the buffer goes to the front. -/
def queueAdd : Option Pool := do
  let n ← Counter.incr p.qlen
  some { p with links := (p.links.init (.elem a)).add freelist (.elem a), qlen := n }

/-- `queue_rem`: the last of the list, or -1. -/
def queueRem : Option (Pool × Option Addr) :=
  if p.links.isEmpty freelist = true then some (p, none)
  else
    match p.links.prev freelist with
    | .head _ => none
    | .elem a =>
        if p.qlen - 1 < 0 then none
        else some ({ p with links := p.links.rem (.elem a), qlen := p.qlen - 1 }, some a)

/-- `queue_deinit`. -/
def queueDeinit : Option Pool :=
  if p.qlen ≠ 0 then none
  else if p.links.isEmpty freelist = false then none
  else some { p with links := (p.links.setNext freelist null).setPrev freelist null, qlen := 0 }

/-! ## `bufpool_init` -/

/-- The loop of `bufpool_init`, with `k` rounds left. `malloc` answers the
request made when `owned` buffers are there. -/
def fill (malloc : ℕ → Option Addr) : ℕ → Pool → Option Pool
  | 0, p => some p
  | k + 1, p =>
      match malloc p.owned with
      | none => some p
      | some a => do
          let p ← p.queueAdd a
          fill malloc k { p with owned := p.owned + 1, live := Function.update p.live a true }

/-- The pool before the loop. -/
def empty (bufsize nbufs nmax : ℕ) : Pool where
  links := (⟨fun _ => null, fun _ => null⟩ : Links Ptr).init freelist
  qlen := 0
  issued := 0
  owned := 0
  bufsize := max bufsize dllSize
  nbufs := nbufs
  nmax := nmax
  state := .initialized
  rendez := []
  deinit := []
  live _ := false

/-- `bufpool_init`; it returns the pool's `owned`. -/
def bufpoolInit (bufsize nbufs nmax : ℕ) (malloc : ℕ → Option Addr) : Option Pool :=
  if 0 < nbufs ∧ nbufs ≤ nmax then fill malloc nbufs (empty bufsize nbufs nmax) else none

/-! ## `bufpool_get` -/

/-- How a stretch of `bufpool_get` ends. -/
inductive GetOutcome
  | got (a : Addr)
  /-- -1 -/
  | failed
  | asleep
  deriving DecidableEq, Repr

/-- `TASKSLEEP(&bp->rendez)` by task `t`, or -1 in its place. -/
def sleepUnless (t : TaskId) (noblock : Bool) : Pool × GetOutcome :=
  if noblock = true then (p, .failed) else ({ p with rendez := p.rendez ++ [t] }, .asleep)

/-- `bufpool_get` from the top of its loop to its return or its sleep.
`calloc` is the answer, should it ask for memory. -/
def getLoop (t : TaskId) (noblock : Bool) (calloc : Option Addr) : Option (Pool × GetOutcome) := do
  let (p, e) ← p.queueRem
  match e with
  | some a => some ({ p with issued := p.issued + 1 }, .got a)
  | none =>
      if p.owned < p.nmax then
        match calloc with
        | none => some (p.sleepUnless t noblock)
        | some a =>
            some ({ p with
              live := Function.update p.live a true
              owned := p.owned + 1, issued := p.issued + 1 }, .got a)
      else some (p.sleepUnless t noblock)

/-- `bufpool_get`, up to its return or its first sleep. -/
def bufpoolGet (t : TaskId) (noblock : Bool) (calloc : Option Addr) : Option (Pool × GetOutcome) :=
  if p.state ≠ .initialized then none else p.getLoop t noblock calloc

/-- Write the first two words of a buffer. -/
def scribble (next prev : Ptr) : Pool :=
  { p with links := (p.links.setNext (.elem a) next).setPrev (.elem a) prev }

/-- The `memset` of `bufpool_get_zero`, when it was that function that
called `bufpool_get`. -/
def zero (zeroed : Bool) : Pool × GetOutcome → Pool × GetOutcome
  | (p, .got a) => (if zeroed = true then p.scribble a null null else p, .got a)
  | r => r

/-! ## `bufpool_put` -/

/-- `TASKWAKEUP(&bp->rendez)`: the first sleeper, if there is one. -/
def wakeRendez : Pool × Option TaskId := ({ p with rendez := p.rendez.tail }, p.rendez.head?)

/-- `TASKWAKEUP(&bp->deinit)`. -/
def wakeDeinit : Pool × Option TaskId := ({ p with deinit := p.deinit.tail }, p.deinit.head?)

/-- `bufpool_put`, up to the wakeups: the buffer is queued, or freed. -/
def giveBack : Option Pool :=
  let p := { p with issued := p.issued - 1 }
  if p.owned ≤ p.nbufs then p.queueAdd a
  else if p.owned - 1 < p.nbufs then none
  else some { p with live := Function.update p.live a false, owned := p.owned - 1 }

/-- `bufpool_put`. Returns the two tasks it wakes. -/
def bufpoolPut : Option (Pool × Option TaskId × Option TaskId) := do
  let p ← p.giveBack a
  let (p, getter) := p.wakeRendez
  if p.issued = 0 ∧ p.state = .deiniting then
    let (p, waiter) := p.wakeDeinit
    some (p, getter, waiter)
  else some (p, getter, none)

/-! ## `bufpool_deinit` -/

/-- The loop that frees the free list; `none` also when it is not over
after `k` rounds. -/
def drain : ℕ → Pool → Option Pool
  | 0, _ => none
  | k + 1, p => do
      let (p, e) ← p.queueRem
      match e with
      | none => some p
      | some a =>
          drain k { p with live := Function.update p.live a false, owned := p.owned - 1 }

/-- `bufpool_deinit` from the end of its wait on. -/
def finish : Option Pool :=
  if p.issued ≠ 0 then none
  else do
    let p ← drain (p.qlen.toNat + 1) p
    let p ← p.queueDeinit
    some { p with state := .deinted }

/-- `bufpool_deinit`, up to its return or its sleep. Returns whether it
sleeps. -/
def bufpoolDeinit (t : TaskId) : Option (Pool × Bool) :=
  if p.state ≠ .initialized then none
  else
    let p := { p with state := .deiniting }
    if p.issued ≠ 0 then some ({ p with deinit := p.deinit ++ [t] }, true)
    else p.finish.map fun p => (p, false)

end Pool

/-! ## Tasks -/

/-- A task suspended in `bufpool_get`, or in `bufpool_get_zero`: asleep, or
woken and not run yet. -/
structure Getter where
  task : TaskId
  zeroed : Bool
  woken : Bool
  deriving DecidableEq, Repr

/-- A pool, the tasks suspended in it and the buffers it handed out. -/
structure State where
  pool : Pool
  getters : List Getter
  /-- the task in `bufpool_deinit`, and whether it was woken -/
  deiniter : Option (TaskId × Bool)
  held : List Addr

/-- What one stretch of a task's execution does. -/
inductive Action
  /-- task `t` calls `bufpool_get`, or `bufpool_get_zero` -/
  | get (t : TaskId) (zeroed noblock : Bool) (calloc : Option Addr)
  /-- task `t` runs on after its sleep in `bufpool_get` -/
  | resume (t : TaskId) (calloc : Option Addr)
  /-- somebody calls `bufpool_put` -/
  | put (a : Addr)
  /-- the holder of `a` writes to it -/
  | write (a : Addr) (next prev : Ptr)
  /-- task `t` calls `bufpool_deinit` -/
  | deinit (t : TaskId)
  /-- the task in `bufpool_deinit` runs on -/
  | resumeDeinit
  deriving DecidableEq

namespace State

variable (σ : State)

/-- Task `t` leaves `bufpool_get` with or without a buffer, or stays in it. -/
def settle (t : TaskId) (zeroed : Bool) : Pool × Pool.GetOutcome → State
  | (p, .got a) => { σ with pool := p, held := a :: σ.held }
  | (p, .failed) => { σ with pool := p }
  | (p, .asleep) => { σ with pool := p, getters := σ.getters ++ [⟨t, zeroed, false⟩] }

/-- `taskready` on a getter, if there is one. -/
def wake (getter : Option TaskId) (gs : List Getter) : List Getter :=
  gs.map fun g => if some g.task = getter then { g with woken := true } else g

/-- The suspended call of task `t`. -/
def find (t : TaskId) : Option Getter := σ.getters.find? (·.task == t)

end State

namespace Action

def exec (σ : State) : Action → Option State
  | get t zeroed noblock calloc => do
      let r ← σ.pool.bufpoolGet t noblock calloc
      some (σ.settle t zeroed (Pool.zero zeroed r))
  | resume t calloc => do
      let g ← σ.find t
      let r ← σ.pool.getLoop t false calloc
      some ({ σ with getters := σ.getters.filter (·.task != t) }.settle t g.zeroed
        (Pool.zero g.zeroed r))
  | put a => do
      let (p, getter, waiter) ← σ.pool.bufpoolPut a
      some {
        pool := p
        getters := State.wake getter σ.getters
        deiniter := σ.deiniter.map fun d => if some d.1 = waiter then (d.1, true) else d
        held := σ.held.erase a }
  | write a next prev => some { σ with pool := σ.pool.scribble a next prev }
  | deinit t => do
      let (p, asleep) ← σ.pool.bufpoolDeinit t
      some { σ with pool := p, deiniter := if asleep = true then some (t, false) else none }
  | resumeDeinit => do
      let p ← σ.pool.finish
      some { σ with pool := p, deiniter := none }

/-- The task is not suspended in the pool. -/
def Running (σ : State) (t : TaskId) : Prop :=
  (∀ g ∈ σ.getters, g.task ≠ t) ∧ ∀ d ∈ σ.deiniter, d.1 ≠ t

/-- `calloc` returns memory that is not in use, or nothing. -/
def Fresh (σ : State) (calloc : Option Addr) : Prop := ∀ a ∈ calloc, σ.pool.live a = false

/-- A task calls only when it is not suspended, resumes only when woken;
buffers are put and written to only while they are held; nobody calls
`bufpool_get` or a second `bufpool_deinit` once the pool is being
deinitialised. -/
def Enabled (σ : State) : Action → Prop
  | get t _ _ calloc => σ.pool.state = .initialized ∧ Running σ t ∧ Fresh σ calloc
  | resume t calloc => (∃ g ∈ σ.getters, g.task = t ∧ g.woken = true) ∧ Fresh σ calloc
  | put a => a ∈ σ.held
  | write a _ _ => a ∈ σ.held
  | deinit t => σ.pool.state = .initialized ∧ Running σ t
  | resumeDeinit => ∃ d ∈ σ.deiniter, d.2 = true

instance (σ : State) (t : TaskId) : Decidable (Running σ t) :=
  inferInstanceAs (Decidable (_ ∧ _))

instance (σ : State) (calloc : Option Addr) : Decidable (Fresh σ calloc) :=
  inferInstanceAs (Decidable (∀ a ∈ calloc, _))

instance (σ : State) : (act : Action) → Decidable (act.Enabled σ)
  | get _ _ _ _ => inferInstanceAs (Decidable (_ ∧ _ ∧ _))
  | resume _ _ => inferInstanceAs (Decidable (_ ∧ _))
  | put _ => inferInstanceAs (Decidable (_ ∈ _))
  | write _ _ _ => inferInstanceAs (Decidable (_ ∈ _))
  | deinit _ => inferInstanceAs (Decidable (_ ∧ _))
  | resumeDeinit => inferInstanceAs (Decidable (∃ d ∈ _, _))

end Action

/-- What `bufpool_init` leaves when it gets all `nbufs` buffers from a
`malloc` that hands out distinct ones. -/
def Initialised (bufsize nbufs nmax : ℕ) (p : Pool) : Prop :=
  ∃ malloc : ℕ → Option Addr, (∀ i j a, malloc i = some a → malloc j = some a → i = j) ∧
    Pool.bufpoolInit bufsize nbufs nmax malloc = some p ∧ p.owned = nbufs

/-- Any number of tasks on one pool. -/
def poolSystem (bufsize nbufs nmax : ℕ) : System State Action where
  init σ := ∃ p, Initialised bufsize nbufs nmax p ∧ σ = ⟨p, [], none, []⟩
  enabled σ act := act.Enabled σ
  exec σ act := act.exec σ

instance (bufsize nbufs nmax : ℕ) (σ : State) (act : Action) :
    Decidable ((poolSystem bufsize nbufs nmax).enabled σ act) :=
  inferInstanceAs (Decidable (act.Enabled σ))

/-- A pool of one buffer that may grow to two. -/
def smallPool : State := ⟨(Pool.fill some 1 (Pool.empty 16 1 2)).get rfl, [], none, []⟩

theorem smallPool_init : (poolSystem 16 1 2).init smallPool :=
  ⟨_, ⟨some, by simp, rfl, rfl⟩, rfl⟩

end BufPool

end VmwareProto
