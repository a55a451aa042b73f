import VmwareProto.Vmk.Pool
/-!
# The thread pool

`new_work` takes a buffer from the pool's own buffer pool, `schedule_work`
links it to the work list by the words the free list uses, and a worker
takes it out, calls it and puts it back. A call is cut where it takes or
gives back a lock and where it wakes or waits. The wakeups are sent with no
lock held, so they come in steps of their own. Three logs say what was
scheduled, taken off the list and called, in this order.
-/

namespace VmwareProto

namespace Vmk

/-- `work_fn` and `data` of a work item. -/
abbrev Job := ℕ

/-- `pool_state_t`, from `thread_pool_init` on. -/
inductive TpState
  | initialized
  | shutting
  deriving DecidableEq, Repr

/-- `thread_pool_t`; the work list's head lies with the links of the
buffers. -/
structure ThreadPool where
  pool : Pool
  workPend : ℤ
  active : ℤ
  state : TpState
  /-- `work_fn` and `data` of every buffer -/
  job : Addr → Job

namespace ThreadPool

variable (tp : ThreadPool) (a : Addr)

/-- `DLL_INIT` of the `list` of a new work item. -/
def initWork : ThreadPool := { tp with pool := { tp.pool with links := tp.pool.links.init (.elem a) } }

/-- What `schedule_work` does with the lock. -/
def enqueue : ThreadPool :=
  { tp with
    pool := { tp.pool with links := tp.pool.links.revAdd (.head .work) (.elem a) }
    workPend := tp.workPend + 1 }

/-- What a worker does with the lock when it finds work. -/
def dequeue : Option (ThreadPool × Addr) :=
  match tp.pool.links.next (.head .work) with
  | .head _ => none
  | .elem a =>
      some ({ tp with
        pool := { tp.pool with links := tp.pool.links.rem (.elem a) }
        workPend := tp.workPend - 1 }, a)

end ThreadPool

/-! ## Worlds -/

/-- Where a world is that schedules work. -/
inductive UserPc
  | idle
  /-- in `vmk_WorldWait` of `bufpool_get` -/
  | waiting
  /-- it has a work item, which it fills in -/
  | filling (a : Addr)
  /-- the item is on the list, the wakeup is to come -/
  | waking
  deriving DecidableEq, Repr

/-- The work item in its hands. -/
def UserPc.buf : UserPc → Option Addr
  | filling a => some a
  | _ => none

/-- Where a worker is. -/
inductive WorkerPc
  /-- at the top of its loop -/
  | top
  /-- in `vmk_WorldWait` -/
  | asleep
  /-- it has an item and has not called it -/
  | taken (a : Addr)
  /-- in `work_fn` -/
  | running (a : Addr)
  | exited
  deriving DecidableEq, Repr

/-- The work item in its hands. -/
def WorkerPc.buf : WorkerPc → Option Addr
  | taken a => some a
  | running a => some a
  | _ => none

/-- Where `thread_pool_deinit` is. -/
inductive DeinitPc
  | before
  /-- the state is `TP_SHUTTING`, the wakeup is to come -/
  | waking
  | joining
  /-- past its assertions -/
  | passed
  deriving DecidableEq, Repr

/-- Who may have a work buffer, outside the lists. -/
inductive Holder
  | user (x : World)
  | worker (i : ℕ)
  deriving DecidableEq, Repr

/-- A thread pool and its worlds. -/
structure Works where
  tp : ThreadPool
  user : World → UserPc
  worker : ℕ → WorkerPc
  deinit : DeinitPc
  scheduled : List Job
  taken : List Job
  called : List Job

/-- What worlds do. -/
inductive WorkAction
  /-- `new_work`, up to its return or its wait -/
  | newWork (x : World) (malloc : Option Addr)
  /-- the wait in `bufpool_get` ends -/
  | recheck (x : World) (malloc : Option Addr)
  /-- who has a work buffer writes to it -/
  | write (y : Holder) (next prev : Node Head Addr) (job : Job)
  /-- `work_fn` and `data` are set and `schedule_work` is called, up to
  where it gives the lock back -/
  | schedule (x : World) (job : Job)
  /-- its wakeup -/
  | wake (x : World)
  /-- a worker takes the lock -/
  | work (i : ℕ)
  /-- a worker calls `work_fn` -/
  | call (i : ℕ)
  /-- `work_fn` is back; the worker puts the buffer -/
  | finish (i : ℕ)
  /-- a sleep ends with no wakeup -/
  | stir (i : ℕ)
  /-- `thread_pool_deinit`, up to where it gives the lock back -/
  | deinit
  /-- its wakeup -/
  | deinitWake
  /-- every worker has been joined; the assertions -/
  | deinitJoin
  deriving DecidableEq

namespace Works

variable (σ : Works)

/-- The buffer that a world has. -/
def holds : Holder → Option Addr
  | .user x => (σ.user x).buf
  | .worker i => (σ.worker i).buf

/-- `vmk_WorldWakeup`: every sleeping worker is at the top of its loop. -/
def wakeAll : Works :=
  { σ with worker := fun i => if σ.worker i = .asleep then .top else σ.worker i }

/-- World `x` leaves `bufpool_get` with a buffer, or stays in it. -/
def settle (x : World) : Pool × Pool.GetOutcome → Option Works
  | (p, .got a) =>
      some { σ with
        tp := { σ.tp with pool := p }.initWork a, user := Function.update σ.user x (.filling a) }
  | (_, .failed) => none
  | (p, .waits) =>
      some { σ with tp := { σ.tp with pool := p }, user := Function.update σ.user x .waiting }

/-- `_worker_thread` from the top of its loop to where it gives the lock
back. -/
def lockStep (i : ℕ) : Option Works :=
  if σ.tp.pool.links.isEmpty (.head .work) = true then
    if σ.tp.state = .shutting then
      some { σ with
        tp := { σ.tp with active := σ.tp.active - 1 }
        worker := Function.update σ.worker i .exited }
    else some { σ with worker := Function.update σ.worker i .asleep }
  else do
    let (tp, a) ← σ.tp.dequeue
    some { σ with
      tp := tp, worker := Function.update σ.worker i (.taken a)
      taken := σ.taken ++ [σ.tp.job a] }

end Works

namespace WorkAction

variable (σ : Works)

def exec : WorkAction → Option Works
  | newWork x malloc =>
      if σ.tp.state ≠ .initialized then some σ
      else do
        let e ← σ.tp.pool.bufpoolGet false false malloc
        σ.settle x e
  | recheck x malloc => do
      let e ← σ.tp.pool.recheck false malloc
      σ.settle x e
  | write y next prev job => do
      let a ← σ.holds y
      some { σ with
        tp := { σ.tp with
          pool := σ.tp.pool.scribble a next prev, job := Function.update σ.tp.job a job } }
  | schedule x job => do
      let a ← σ.holds (.user x)
      if σ.tp.state ≠ .initialized then none
      else some { σ with
        tp := { σ.tp with job := Function.update σ.tp.job a job }.enqueue a
        user := Function.update σ.user x .waking, scheduled := σ.scheduled ++ [job] }
  | wake x => some { σ.wakeAll with user := Function.update σ.user x .idle }
  | work i => σ.lockStep i
  | call i => do
      let a ← σ.holds (.worker i)
      some { σ with
        worker := Function.update σ.worker i (.running a), called := σ.called ++ [σ.tp.job a] }
  | finish i => do
      let a ← σ.holds (.worker i)
      let p ← σ.tp.pool.bufpoolPut a
      some { σ with
        tp := { σ.tp with pool := p }, worker := Function.update σ.worker i .top }
  | stir i => some { σ with worker := Function.update σ.worker i .top }
  | deinit =>
      if σ.tp.state ≠ .initialized then some σ
      else some { σ with tp := { σ.tp with state := .shutting }, deinit := .waking }
  | deinitWake => some { σ.wakeAll with deinit := .joining }
  | deinitJoin =>
      if σ.tp.active = 0 ∧ σ.tp.pool.links.isEmpty (.head .work) = true then
        some { σ with deinit := .passed }
      else none

/-- Each world does what it is at. `thread_pool_deinit` is called once, when
no call of `new_work` or `schedule_work` has its item still to link, and
none is made after it. -/
def Enabled (n : ℕ) : WorkAction → Prop
  | newWork x malloc =>
      σ.user x = .idle ∧ σ.deinit = .before ∧ ∀ a ∈ malloc, σ.tp.pool.live a = false
  | recheck x malloc => σ.user x = .waiting ∧ ∀ a ∈ malloc, σ.tp.pool.live a = false
  | write (.user x) _ _ _ => ∃ a, σ.user x = .filling a
  | write (.worker i) _ _ _ => ∃ a, σ.worker i = .running a
  | schedule x _ => ∃ a, σ.user x = .filling a
  | wake x => σ.user x = .waking
  | work i => i < n ∧ σ.worker i = .top
  | call i => ∃ a, σ.worker i = .taken a
  | finish i => ∃ a, σ.worker i = .running a
  | stir i => σ.worker i = .asleep
  | deinit => σ.deinit = .before ∧ ∀ x, σ.user x = .idle ∨ σ.user x = .waking
  | deinitWake => σ.deinit = .waking
  | deinitJoin => σ.deinit = .joining ∧ ∀ i < n, σ.worker i = .exited

end WorkAction

/-- What `thread_pool_init` leaves. -/
def Works.start (p : Pool) (n : ℕ) (job : Addr → Job) : Works where
  tp := ⟨p, 0, n, .initialized, job⟩
  user _ := .idle
  worker _ := .top
  deinit := .before
  scheduled := []
  taken := []
  called := []

/-- A thread pool of `n` workers, initialised for `nwork` items, and any
number of worlds that schedule work. -/
def threadPool (n nwork : ℕ) : System Works WorkAction where
  init σ := ∃ p job, Initialised nwork 0 (nwork * 4) p ∧ σ = Works.start p n job
  enabled σ act := act.Enabled σ n
  exec σ act := act.exec σ

end Vmk

end VmwareProto
