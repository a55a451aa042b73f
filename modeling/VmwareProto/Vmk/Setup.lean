import VmwareProto.Vmk.Accounts
import VmwareProto.Vmk.ThreadPool
import Mathlib.Data.Nat.Find
/-!
# Setting up a thread pool

`thread_pool_init` creates its workers one by one, and they run at once. It
sets the state, the number of active workers and the number of threads when
the last is there, and the clean-up reads exactly these: after a failure it
joins nobody and frees all there is. With no worker created yet that is
right, but for the work list, which is not initialised before the array of
threads is there.
-/

namespace VmwareProto

namespace Vmk

/-! ## `bufpool_deinit` -/

namespace Pool

variable (p : Pool)

/-- The null pointer. -/
def null : Node Head Addr := .elem 0

/-- `queue_deinit`. -/
def queueDeinit : Option Pool :=
  if p.qlen ≠ 0 then none
  else if p.links.isEmpty (.head .freelist) = false then none
  else some { p with
    links := (p.links.setNext (.head .freelist) null).setPrev (.head .freelist) null, qlen := 0 }

/-- The loop that frees the free list; `none` also when it is not over
after `k` rounds. -/
def drain : ℕ → Pool → Option Pool
  | 0, _ => none
  | k + 1, p => do
      let (p, e) ← p.queueRem
      match e with
      | none => some p
      | some a => drain k { p with live := Function.update p.live a false, owned := p.owned - 1 }

/-- `bufpool_deinit` from the test of its waiting loop on: whether it waits
again. -/
def deinitLoop : Option (Pool × Bool) :=
  if p.issued ≠ 0 then some (p, true)
  else do
    let p ← drain (p.qlen.toNat + 1) p
    let p ← p.queueDeinit
    some ({ p with state := .deinted }, false)

/-- `bufpool_deinit`, up to its return or its first wait. -/
def bufpoolDeinit : Option (Pool × Bool) :=
  if p.state ≠ .initialized then some (p, false) else deinitLoop { p with state := .deiniting }

end Pool

/-! ## What the calls answer -/

/-- The answers of `vmk_HeapDetermineMaxSize`, `vmk_NameInitialize` and
`vmk_HeapCreate`. -/
structure HeapAnswers where
  sized : Bool
  named : Bool
  created : Bool
  deriving DecidableEq, Repr

/-- `vmware_heap_create`. -/
def HeapAnswers.vmwareHeapCreate (A : HeapAnswers) : Option ℤ :=
  if A.sized = false then some (-1)
  else if A.named = false then none
  else if A.created = false then some (-1)
  else some 0

/-- What the calls of `bufpool_init` answer: `vmware_name`, those of
`vmware_heap_create`, `pthread_mutex_init` and `malloc`, which does not hand
out memory in use again. -/
structure PoolAnswers where
  named : Bool
  heap : HeapAnswers
  lock : Bool
  malloc : ℕ → Option Addr
  malloc_inj : ∀ i j a, malloc i = some a → malloc j = some a → i = j

/-- What the calls of `thread_pool_init` answer: `vmware_name`, those of
`vmware_heap_create` and `bufpool_init`, `pthread_mutex_init`, `calloc`, and
for every worker `vmk_StringFormat` and `pthread_create`. -/
structure TpAnswers where
  named : Bool
  heap : HeapAnswers
  pool : PoolAnswers
  lock : Bool
  threads : Bool
  format : ℕ → Bool
  create : ℕ → Bool

/-- What `bufpool_init` returns, an `int`. -/
def poolRet (p : Pool) : ℤ := (BitVec.ofNat 32 p.owned).toInt

/-- `bufpool_init`, with what it returns; its pool is `none` while its bytes
are zero. -/
def PoolAnswers.bufpoolInit (A : PoolAnswers) (nbufs nmax : BitVec 64) : Option (ℤ × Option Pool) :=
  if 0 < nbufs.toNat ∧ nbufs.toNat ≤ nmax.toNat then
    if A.named = false then none
    else do
      let rc ← A.heap.vmwareHeapCreate
      if rc < 0 then some (-1, none)
      else if A.lock = false then none
      else do
        let p ← Pool.bufpoolInitReserve nbufs.toNat 0 nmax.toNat A.malloc
        some (poolRet p, some p)
  else none

/-! ## The pool and its worlds -/

/-- `thread_pool_t`. Whether `threads` and `work_lock` are set and `DLL_INIT`
was made of `work_list`, whose pointers are null before that; the links are
with the buffers. `state` is `none` for `TP_UNINITIALIZED`. -/
structure TpMem where
  threads : Bool
  workLock : Bool
  workList : Bool
  active : ℤ
  workPend : ℤ
  state : Option TpState
  pool : Option Pool
  nthreads : ℤ

/-- `memset`. -/
def TpMem.zero : TpMem := ⟨false, false, false, 0, 0, none, none, 0⟩

/-- What was allocated for the pool and is not freed: the array of threads,
the lock, the work pool and the heap. -/
structure TpLive where
  threads : Bool
  workLock : Bool
  pool : Bool
  heap : Bool
  deriving DecidableEq, Repr

/-- Where the world is that called `thread_pool_init`. -/
inductive SetupPc
  | start
  /-- about to create worker `i` -/
  | creating (i : ℕ)
  /-- in `_thread_pool_deinit`, about to take the lock -/
  | shutting
  /-- the state is `TP_SHUTTING`, the wakeup is to come -/
  | waking
  /-- about to join worker `i` -/
  | joining (i : ℕ)
  /-- at `assert(tp->active == 0)` -/
  | checkActive
  /-- at `assert(DLL_ISEMPTY(&tp->work_list))` -/
  | checkList
  | destroyLock
  | deinitPool
  /-- in the `vmk_WorldWait` of `bufpool_deinit` -/
  | waitPool
  | destroyHeap
  | returned (rc : ℤ)
  deriving DecidableEq, Repr

/-- A pool being set up; workers that were not created are `none`. -/
structure TpSetup where
  mem : TpMem
  live : TpLive
  pc : SetupPc
  worker : ℕ → Option WorkerPc

namespace TpMem

variable (m : TpMem)

/-- `DLL_ISEMPTY(&tp->work_list)`. -/
def workEmpty : Bool := m.workList && m.pool.any fun p => p.links.isEmpty (.head .work)

/-- `DLL_INIT(&tp->work_list)`. -/
def initList : TpMem :=
  { m with
    workList := true
    pool := m.pool.map fun p => { p with links := p.links.init (.head .work) } }

/-- What a worker does with the lock when it finds work. -/
def dequeue : Option (TpMem × Addr) := do
  let p ← m.pool
  match p.links.next (.head .work) with
  | .head _ => none
  | .elem a =>
      some ({ m with
        pool := some { p with links := p.links.rem (.elem a) }, workPend := m.workPend - 1 }, a)

/-- Where `_thread_pool_deinit` starts. -/
def deinitPc : SetupPc := if m.threads = true then .shutting else .checkActive

end TpMem

/-! ## `thread_pool_init` -/

/-- `nwork_max`, an `int`, as it is given to `bufpool_init`. -/
def nworkMax (nwork : BitVec 32) : BitVec 64 := (nwork * 4).signExtend 64

/-- `thread_pool_init` is called. -/
def TpSetup.start (m : TpMem) : TpSetup := ⟨m, ⟨false, false, false, false⟩, .start, fun _ => none⟩

namespace TpAnswers

variable (A : TpAnswers) (nthreads nwork : BitVec 32)

/-- `thread_pool_init` up to its loop. No other world knows of the pool. -/
def prepare : Option TpSetup :=
  if A.named = false then none
  else do
    let rc ← A.heap.vmwareHeapCreate
    if rc < 0 then some { TpSetup.start .zero with pc := .returned (-1) }
    else do
      let (rc, pool) ← A.pool.bufpoolInit (nwork.signExtend 64) (nworkMax nwork)
      let m := { TpMem.zero with pool := pool }
      if rc < 0 then some ⟨m, ⟨false, false, pool.isSome, true⟩, m.deinitPc, fun _ => none⟩
      else if A.lock = false then
        some ⟨m, ⟨false, false, true, true⟩, m.deinitPc, fun _ => none⟩
      else
        let m := { m with workLock := true }
        if A.threads = false then
          some ⟨m, ⟨false, true, true, true⟩, m.deinitPc, fun _ => none⟩
        else
          some ⟨{ m with threads := true }.initList, ⟨true, true, true, true⟩, .creating 0,
            fun _ => none⟩

/-- `goto error` for worker `i`. -/
def Refuses (i : ℕ) : Prop := A.format i = false ∨ A.create i = false

instance (i : ℕ) : Decidable (A.Refuses i) := inferInstanceAs (Decidable (_ ∨ _))

/-- Its loop, from worker `i` on, up to the next worker, and what follows the
loop. -/
def createNext (σ : TpSetup) (i : ℕ) : TpSetup :=
  if (i : ℤ) < nthreads.toInt then
    if A.Refuses i then { σ with pc := σ.mem.deinitPc }
    else { σ with worker := Function.update σ.worker i (some .top), pc := .creating (i + 1) }
  else { σ with
    mem := { σ.mem with
      state := some .initialized, active := nthreads.toInt, nthreads := nthreads.toInt }
    pc := .returned 0 }

end TpAnswers

/-! ## `_thread_pool_deinit` -/

namespace TpSetup

variable (σ : TpSetup)

/-- With the lock taken, the state is set. -/
def shut : Option TpSetup :=
  if σ.live.workLock = false then none
  else some { σ with mem := { σ.mem with state := some .shutting }, pc := .waking }

/-- `vmk_WorldWakeup`: every sleeping worker is at the top of its loop. -/
def wakeAll : TpSetup :=
  { σ with
    worker := fun i => if σ.worker i = some .asleep then some .top else σ.worker i
    pc := .joining 0 }

/-- Worker `i` was joined; or there is none, and the array is freed. -/
def joined (i : ℕ) : TpSetup :=
  if (i : ℤ) < σ.mem.nthreads then { σ with pc := .joining (i + 1) }
  else { σ with live := { σ.live with threads := false }, pc := .checkActive }

/-- `bufpool_deinit` returned, or waits. -/
def poolDone (r : Pool × Bool) : TpSetup :=
  { σ with
    mem := { σ.mem with pool := some r.1 }
    live := { σ.live with pool := σ.live.pool && decide (r.1.state ≠ .deinted) }
    pc := if r.2 = true then .waitPool else .destroyHeap }

/-- The world that called `thread_pool_init` runs on, up to where another
world can see a difference. -/
def setupStep (A : TpAnswers) (nthreads nwork : BitVec 32) : Option TpSetup :=
  match σ.pc with
  | .start => A.prepare nwork
  | .creating i => some (A.createNext nthreads σ i)
  | .shutting => σ.shut
  | .waking => some σ.wakeAll
  | .joining i => some (σ.joined i)
  | .checkActive => if σ.mem.active = 0 then some { σ with pc := .checkList } else none
  | .checkList => if σ.mem.workEmpty = true then some { σ with pc := .destroyLock } else none
  | .destroyLock => some { σ with live := { σ.live with workLock := false }, pc := .deinitPool }
  | .deinitPool => do
      let p ← σ.mem.pool
      let r ← p.bufpoolDeinit
      some (σ.poolDone r)
  | .waitPool => do
      let p ← σ.mem.pool
      let r ← p.deinitLoop
      some (σ.poolDone r)
  | .destroyHeap =>
      some { σ with mem := .zero, live := { σ.live with heap := false }, pc := .returned (-1) }
  | .returned _ => none

/-! ## `_worker_thread` -/

/-- A worker from the top of its loop to where it gives the lock back. -/
def lockStep (i : ℕ) : Option TpSetup :=
  if σ.live.workLock = false then none
  else if σ.mem.workEmpty = true then
    if σ.mem.state = some .shutting then
      some { σ with
        mem := { σ.mem with active := σ.mem.active - 1 }
        worker := Function.update σ.worker i (some .exited) }
    else some { σ with worker := Function.update σ.worker i (some .asleep) }
  else do
    let (m, a) ← σ.mem.dequeue
    some { σ with mem := m, worker := Function.update σ.worker i (some (.taken a)) }

/-- `work_fn` is back; the worker puts the buffer. -/
def putWork (i : ℕ) (a : Addr) : Option TpSetup :=
  if σ.live.pool = false then none
  else do
    let p ← σ.mem.pool
    let p ← p.bufpoolPut a
    some { σ with
      mem := { σ.mem with pool := some p }, worker := Function.update σ.worker i (some .top) }

end TpSetup

/-- What the worlds do. -/
inductive SetupAction
  /-- the world that called `thread_pool_init` runs on -/
  | setup
  /-- a worker takes the lock -/
  | work (i : ℕ)
  /-- a sleep ends with no wakeup -/
  | stir (i : ℕ)
  /-- a worker calls `work_fn` -/
  | call (i : ℕ)
  /-- `work_fn` is back -/
  | finish (i : ℕ)
  deriving DecidableEq

namespace SetupAction

variable (σ : TpSetup)

def exec (A : TpAnswers) (nthreads nwork : BitVec 32) : SetupAction → Option TpSetup
  | setup => σ.setupStep A nthreads nwork
  | work i => σ.lockStep i
  | stir i => some { σ with worker := Function.update σ.worker i (some .top) }
  | call i => do
      let pc ← σ.worker i
      let a ← pc.buf
      some { σ with worker := Function.update σ.worker i (some (.running a)) }
  | finish i => do
      let pc ← σ.worker i
      let a ← pc.buf
      σ.putWork i a

/-- Each world does what it is at, and `pthread_join` is back when the worker
has left. -/
def Enabled : SetupAction → Prop
  | setup =>
      (∀ rc, σ.pc ≠ .returned rc) ∧
        ∀ i, σ.pc = .joining i → (i : ℤ) < σ.mem.nthreads → σ.worker i = some .exited
  | work i => σ.worker i = some .top
  | stir i => σ.worker i = some .asleep
  | call i => ∃ a, σ.worker i = some (.taken a)
  | finish i => ∃ a, σ.worker i = some (.running a)

end SetupAction

/-- A call of `thread_pool_init` and the workers it creates, when its calls
answer `A`. -/
def tpSetup (A : TpAnswers) (nthreads nwork : BitVec 32) : System TpSetup SetupAction where
  init σ := ∃ m, σ = .start m
  enabled σ act := act.Enabled σ
  exec σ act := act.exec σ A nthreads nwork

/-! ## A clean failure -/

/-- A step of `thread_pool_init` fails. -/
def TpAnswers.Fails (A : TpAnswers) (nthreads : BitVec 32) : Prop :=
  A.named = false ∨ A.heap.vmwareHeapCreate ≠ some 0 ∨
    (A.pool.named = false ∨ A.pool.heap.vmwareHeapCreate ≠ some 0 ∨ A.pool.lock = false) ∨
    A.lock = false ∨ A.threads = false ∨
    ∃ i : ℕ, (i : ℤ) < nthreads.toInt ∧ A.Refuses i

/-- **The set-up fails cleanly**: whatever the workers do, no assertion of
`thread_pool_init` fails, it can always go on to its return, it returns -1,
and nothing is freed before every worker has left. -/
structure SetupClean (A : TpAnswers) (nthreads nwork : BitVec 32) : Prop where
  sound : ∀ σ, (tpSetup A nthreads nwork).Reachable σ → SetupAction.setup.Enabled σ →
    ∃ σ', σ.setupStep A nthreads nwork = some σ'
  returns : ∀ σ, (tpSetup A nthreads nwork).Reachable σ →
    ∃ as σ', System.Steps (tpSetup A nthreads nwork) σ as σ' ∧ σ'.pc = .returned (-1)
  result : ∀ σ rc, (tpSetup A nthreads nwork).Reachable σ → σ.pc = .returned rc → rc = -1
  ordered : ∀ σ i pc, (tpSetup A nthreads nwork).Reachable σ → σ.worker i = some pc →
    pc ≠ .exited → σ.live = ⟨true, true, true, true⟩

/-- The answers with which `bufpool_init` gets to its end: four times the
number of work items is no less, as an `int`. -/
structure PoolAnswers.Granted (P : PoolAnswers) (nwork : BitVec 32) : Prop where
  nmax : nwork.toNat ≤ (nworkMax nwork).toNat
  named : P.named = true
  heap : P.heap.vmwareHeapCreate = some 0
  lock : P.lock = true

/-- The answers with which `thread_pool_init` gets to its loop. -/
structure TpAnswers.ToLoop (A : TpAnswers) (nwork : BitVec 32) : Prop where
  named : A.named = true
  heap : A.heap.vmwareHeapCreate = some 0
  pool : A.pool.Granted nwork
  lock : A.lock = true
  threads : A.threads = true

/-- What fails is the heap, or the creation of the first worker. -/
def TpAnswers.Harmless (A : TpAnswers) (nwork : BitVec 32) : Prop :=
  A.named = true ∧ A.heap.vmwareHeapCreate = some (-1) ∨ A.ToLoop nwork ∧ A.Refuses 0

variable {p : Pool} {free : List Addr} {A : TpAnswers} {nthreads nwork : BitVec 32} {σ σ' : TpSetup}
  {m : TpMem} {live : TpLive} {i k : ℕ}

/-! ## The work pool -/

/-- The loop of `bufpool_deinit` empties the free list. -/
theorem drain_rings (hr : p.links.Rings (onlyFree free)) (hq : p.qlen = free.length)
    (hk : free.length < k) :
    ∃ q, Pool.drain k p = some q ∧ q.links.Rings (onlyFree []) ∧ q.qlen = 0 := by
  induction free using List.reverseRecOn generalizing p k with
  | nil =>
      obtain ⟨k, rfl⟩ := Nat.exists_eq_succ_of_ne_zero (Nat.ne_zero_of_lt hk)
      have hrem : p.queueRem = some (p, none) := if_pos ((hr.isEmpty_head_iff .freelist).2 rfl)
      exact ⟨p, by simp [Pool.drain, hrem], hr, hq⟩
  | append_singleton xs b ih =>
      obtain ⟨k, rfl⟩ := Nat.exists_eq_succ_of_ne_zero (Nat.ne_zero_of_lt hk)
      have hne : ¬p.links.isEmpty (.head .freelist) = true := fun e => by
        have hnil : xs ++ [b] = [] := (hr.isEmpty_head_iff .freelist).1 e
        simp at hnil
      have hprev : p.links.prev (.head .freelist) = .elem b := hr.prev_head (h := .freelist) rfl
      rw [List.length_append, List.length_singleton] at hq hk
      have hrem : p.queueRem =
          some ({ p with links := p.links.rem (.elem b), qlen := p.qlen - 1 }, some b) := by
        rw [Pool.queueRem, if_neg hne, hprev]
        exact if_neg (by omega)
      have hmem : b ∈ onlyFree (xs ++ [b]) .freelist := by simp [onlyFree]
      have hnd : (xs ++ [b]).Nodup := hr.nodup .freelist
      have hrings := hr.rem hmem
      rw [update_onlyFree] at hrings
      have herase : (onlyFree (xs ++ [b]) .freelist).erase b = xs := by
        have hnot : b ∉ xs := fun hb => (List.nodup_append.1 hnd).2.2 b hb b (by simp) rfl
        rw [onlyFree, List.erase_append_right _ hnot, List.erase_cons_head, List.append_nil]
      rw [herase] at hrings
      obtain ⟨q, hd, hq'⟩ := ih (p := { p with
          links := p.links.rem (.elem b), qlen := p.qlen - 1
          live := Function.update p.live b false, owned := p.owned - 1 })
        hrings (by simp only; omega) (by omega : xs.length < k)
      exact ⟨q, by simpa [Pool.drain, hrem] using hd, hq'⟩

/-- A pool nobody has a buffer of is deinitialised at once. -/
theorem Owns.bufpoolDeinit (h : Owns p (onlyFree free) []) :
    ∃ q, p.bufpoolDeinit = some (q, false) ∧ q.state = .deinted := by
  have hk : free.length < p.qlen.toNat + 1 := by
    rw [h.qlen, Int.toNat_natCast]
    exact Nat.lt_succ_self _
  obtain ⟨q, hd, hr, hq⟩ := drain_rings (p := { p with state := .deiniting }) h.rings h.qlen hk
  have hempty : q.links.isEmpty (.head .freelist) = true := (hr.isEmpty_head_iff .freelist).2 rfl
  have hissued : ¬p.issued ≠ 0 := not_not.2 h.issued
  refine ⟨{ q with
    links := (q.links.setNext (.head .freelist) Pool.null).setPrev (.head .freelist) Pool.null
    qlen := 0, state := .deinted }, ?_, rfl⟩
  rw [Pool.bufpoolDeinit, if_neg (not_not.2 h.state), Pool.deinitLoop, if_neg hissued]
  simp [hd, Pool.queueDeinit, hq, hempty]

/-- `DLL_INIT` of a work list with nothing in it. -/
theorem Owns.initWork (h : Owns p (onlyFree free) []) :
    Owns { p with links := p.links.init (.head .work) } (onlyFree free) [] := by
  have hring : p.links.Ring (.head .work) [] := h.rings.ring .work
  have hself : p.links.init (.head .work) = p.links := by
    have hnext : p.links.next (.head .work) = .head .work := hring.chain.1
    have hprev : p.links.prev (.head .work) = .head .work := hring.chain.2
    have hn : p.links.setNext (.head .work) (.head .work) = p.links := by
      conv_lhs => arg 3; rw [← hnext]
      rw [Links.setNext, Function.update_eq_self]
    have hp : p.links.setPrev (.head .work) (.head .work) = p.links := by
      conv_lhs => arg 3; rw [← hprev]
      rw [Links.setPrev, Function.update_eq_self]
    rw [Links.init, hn, hp]
  rw [hself]
  exact h

/-! ## Up to the loop -/

/-- All that `vmware_heap_create` can return. -/
theorem HeapAnswers.vmwareHeapCreate_cases (H : HeapAnswers) :
    H.vmwareHeapCreate = none ∨ H.vmwareHeapCreate = some (-1) ∨ H.vmwareHeapCreate = some 0 := by
  unfold vmwareHeapCreate
  split_ifs <;> simp

/-- A positive `int` as a `size_t`. -/
theorem signExtend_pos (hw : 0 < nwork.toInt) :
    (nwork.signExtend 64).toNat = nwork.toNat ∧ 0 < nwork.toNat ∧ nwork.toNat < 2 ^ 31 := by
  have hlt : 2 * nwork.toNat < 2 ^ 32 := by
    by_contra hge
    rw [BitVec.toInt_eq_toNat_cond, if_neg hge] at hw
    have := nwork.isLt
    omega
  rw [BitVec.toInt_eq_toNat_cond, if_pos hlt] at hw
  have hmsb : nwork.msb = false := by
    rw [BitVec.msb_eq_false_iff_two_mul_lt]
    exact hlt
  refine ⟨?_, by omega, by omega⟩
  rw [BitVec.signExtend_eq_setWidth_of_msb_false hmsb, BitVec.toNat_setWidth]
  exact Nat.mod_eq_of_lt (by omega)

/-- What `bufpool_init` returns for as many buffers as an `int` can count. -/
theorem poolRet_nonneg (h : p.owned < 2 ^ 31) : ¬poolRet p < 0 := by
  rw [poolRet, BitVec.toInt_eq_toNat_cond, BitVec.toNat_ofNat, Nat.mod_eq_of_lt (by omega),
    if_pos (by omega)]
  omega

/-- **All that `bufpool_init` does** for `nwork` work items: a pool, however
many buffers it got; -1 and nothing; or an assertion fails. -/
theorem PoolAnswers.bufpoolInit_cases (P : PoolAnswers) (hw : 0 < nwork.toInt) :
    (P.Granted nwork ∧ ∃ p free, Owns p (onlyFree free) [] ∧ ¬poolRet p < 0 ∧
      P.bufpoolInit (nwork.signExtend 64) (nworkMax nwork) = some (poolRet p, some p)) ∨
    (¬P.Granted nwork ∧
      (P.bufpoolInit (nwork.signExtend 64) (nworkMax nwork) = some (-1, none) ∨
        P.bufpoolInit (nwork.signExtend 64) (nworkMax nwork) = none)) := by
  obtain ⟨hsign, hpos, hsmall⟩ := signExtend_pos hw
  unfold bufpoolInit
  rw [hsign]
  by_cases hle : nwork.toNat ≤ (nworkMax nwork).toNat
  · rw [if_pos ⟨hpos, hle⟩]
    cases hn : P.named with
    | false => exact .inr ⟨fun g => by simp [g.named] at hn, .inr rfl⟩
    | true =>
        rcases P.heap.vmwareHeapCreate_cases with hh | hh | hh
        · refine .inr ⟨fun g => by simp [g.heap] at hh, .inr ?_⟩
          simp [hh]
        · refine .inr ⟨fun g => by simp [g.heap] at hh, .inl ?_⟩
          simp [hh]
        · cases hl : P.lock with
          | false => exact .inr ⟨fun g => by simp [g.lock] at hl, .inr (by simp [hh])⟩
          | true =>
              have hinit : Pool.bufpoolInitReserve nwork.toNat 0
                  (nworkMax nwork).toNat P.malloc = some _ := if_pos ⟨hpos, hle⟩
              obtain ⟨⟨free, ho, hown, hlen⟩, -⟩ := owns_bufpoolInitReserve P.malloc_inj hinit
              refine .inl ⟨⟨hle, hn, hh, hl⟩, _, free, ho, poolRet_nonneg (by omega), ?_⟩
              simp [hh, hinit]
  · rw [if_neg fun h => hle h.2]
    exact .inr ⟨fun g => hle g.nmax, .inr rfl⟩

/-- What the first worker finds. -/
structure TpMem.Ready (m : TpMem) (p : Pool) (free : List Addr) : Prop where
  threads : m.threads = true
  workList : m.workList = true
  active : m.active = 0
  nthreads : m.nthreads = 0
  pool : m.pool = some p
  owns : Owns p (onlyFree free) []

/-- **All that `thread_pool_init` does up to its loop**: it gets there; it
returns -1 with no heap; it goes to the clean-up with no work list; or an
assertion fails. -/
theorem TpAnswers.prepare_cases (A : TpAnswers) (hw : 0 < nwork.toInt) :
    (A.ToLoop nwork ∧ ∃ m p free, TpMem.Ready m p free ∧
      A.prepare nwork = some ⟨m, ⟨true, true, true, true⟩, .creating 0, fun _ => none⟩) ∨
    (A.named = true ∧ A.heap.vmwareHeapCreate = some (-1) ∧
      A.prepare nwork = some { TpSetup.start .zero with pc := .returned (-1) }) ∨
    ((A.named = true → A.heap.vmwareHeapCreate ≠ some (-1)) ∧ ¬A.ToLoop nwork ∧
      (A.prepare nwork = none ∨ ∃ m live, m.workList = false ∧ m.active = 0 ∧
        A.prepare nwork = some ⟨m, live, .checkActive, fun _ => none⟩)) := by
  unfold prepare
  cases hn : A.named with
  | false =>
      exact .inr (.inr ⟨fun e => by simp at e, fun g => by simp [g.named] at hn, .inl rfl⟩)
  | true =>
      rcases A.heap.vmwareHeapCreate_cases with hh | hh | hh
      · refine .inr (.inr ⟨fun _ => by simp [hh], fun g => by simp [g.heap] at hh, .inl ?_⟩)
        simp [hh]
      · refine .inr (.inl ⟨rfl, hh, ?_⟩)
        simp [hh]
      · rcases A.pool.bufpoolInit_cases hw with ⟨hg, p, free, ho, hret, hp⟩ | ⟨hg, hp | hp⟩
        · cases hl : A.lock with
          | false =>
              refine .inr (.inr ⟨fun _ => by simp [hh], fun g => by simp [g.lock] at hl, .inr ?_⟩)
              refine ⟨{ TpMem.zero with pool := some p }, ⟨false, false, true, true⟩, rfl, rfl, ?_⟩
              simp [hh, hp, hret, TpMem.deinitPc, TpMem.zero]
          | true =>
              cases ht : A.threads with
              | false =>
                  refine .inr (.inr ⟨fun _ => by simp [hh], fun g => by simp [g.threads] at ht, .inr ?_⟩)
                  refine ⟨{ TpMem.zero with pool := some p, workLock := true },
                    ⟨false, true, true, true⟩, rfl, rfl, ?_⟩
                  simp [hh, hp, hret, TpMem.deinitPc, TpMem.zero]
              | true =>
                  refine .inl ⟨⟨hn, hh, hg, hl, ht⟩,
                    { TpMem.zero with pool := some p, workLock := true, threads := true }.initList,
                    _, free, ⟨rfl, rfl, rfl, rfl, rfl, ho.initWork⟩, ?_⟩
                  simp [hh, hp, hret]
        · refine .inr (.inr ⟨fun _ => by simp [hh], fun g => hg g.pool, .inr ?_⟩)
          refine ⟨.zero, ⟨false, false, false, true⟩, rfl, rfl, ?_⟩
          simp [hh, hp, TpMem.deinitPc, TpMem.zero]
        · refine .inr (.inr ⟨fun _ => by simp [hh], fun g => hg g.pool, .inl ?_⟩)
          simp [hh, hp]

/-! ## Alone -/

/-- How many steps the clean-up is from its return. -/
def SetupPc.left : SetupPc → ℕ
  | .start => 10
  | .creating _ => 9
  | .shutting => 8
  | .waking => 7
  | .joining _ => 6
  | .checkActive => 5
  | .checkList => 4
  | .destroyLock => 3
  | .deinitPool => 2
  | .waitPool => 2
  | .destroyHeap => 1
  | .returned _ => 0

/-- The first worker is, or was, not created: what the world that called
`thread_pool_init` has where it is. -/
def SetupPc.Finds (A : TpAnswers) (m : TpMem) (live : TpLive) : SetupPc → Prop
  | .start => True
  | .creating i => i = 0 ∧ A.Refuses 0 ∧ live.workLock = true ∧ ∃ p free, m.Ready p free
  | .shutting => live.workLock = true ∧ ∃ p free, m.Ready p free
  | .joining i => i = 0 ∧ ∃ p free, m.Ready p free
  | .waitPool => False
  | .destroyHeap => True
  | .returned rc => rc = -1
  | _ => ∃ p free, m.Ready p free

/-- Without a worker. -/
structure Alone (A : TpAnswers) (σ : TpSetup) : Prop where
  worker : ∀ i, σ.worker i = none
  finds : σ.pc.Finds A σ.mem σ.live

theorem TpMem.Ready.workEmpty (h : m.Ready p free) : m.workEmpty = true := by
  have hempty : p.links.isEmpty (.head .work) = true := (h.owns.rings.isEmpty_head_iff .work).2 rfl
  rw [TpMem.workEmpty, h.workList, h.pool, Option.any_some, hempty]
  rfl

/-- **Alone, the set-up goes on to its return.** -/
theorem Alone.step (hA : A.Harmless nwork) (hn : 0 < nthreads.toInt) (hw : 0 < nwork.toInt)
    (h : Alone A σ) (hpc : ∀ rc, σ.pc ≠ .returned rc) :
    ∃ σ', σ.setupStep A nthreads nwork = some σ' ∧ Alone A σ' ∧ σ'.pc.left < σ.pc.left := by
  obtain ⟨m, live, pc, worker⟩ := σ
  obtain ⟨hnone, hf⟩ := h
  cases pc with
  | start =>
      rcases A.prepare_cases hw with ⟨hto, m', p, free, hm, hx⟩ | ⟨-, -, hx⟩ | ⟨hh, hl, -⟩
      · refine ⟨_, hx, ⟨fun _ => rfl, rfl, ?_, rfl, p, free, hm⟩, Nat.lt_succ_self 9⟩
        rcases hA with ⟨-, hr⟩ | ⟨-, hr⟩
        · rw [hto.heap] at hr
          cases hr
        · exact hr
      · exact ⟨_, hx, ⟨fun _ => rfl, rfl⟩, Nat.succ_pos 9⟩
      · rcases hA with ⟨hnm, hr⟩ | ⟨hto, -⟩
        · exact absurd hr (hh hnm)
        · exact absurd hto hl
  | creating i =>
      obtain ⟨rfl, hr, hlock, p, free, hm⟩ := hf
      have hx : A.createNext nthreads ⟨m, live, .creating 0, worker⟩ 0 =
          ⟨m, live, .shutting, worker⟩ := by
        rw [TpAnswers.createNext, if_pos (by simpa using hn), if_pos hr, TpMem.deinitPc,
          if_pos hm.threads]
      exact ⟨_, congrArg some hx, ⟨hnone, hlock, p, free, hm⟩, Nat.lt_succ_self 8⟩
  | shutting =>
      obtain ⟨hlock, p, free, hm⟩ := hf
      have hx : live.workLock ≠ false := fun e => by
        rw [show live.workLock = true from hlock] at e
        cases e
      refine ⟨_, if_neg hx, ⟨hnone, p, free, ?_⟩, Nat.lt_succ_self 7⟩
      exact ⟨hm.threads, hm.workList, hm.active, hm.nthreads, hm.pool, hm.owns⟩
  | waking =>
      obtain ⟨p, free, hm⟩ := hf
      refine ⟨_, rfl, ⟨fun i => ?_, rfl, p, free, hm⟩, Nat.lt_succ_self 6⟩
      have hi : worker i = none := hnone i
      simp only [TpSetup.wakeAll, hi, reduceCtorEq, if_false]
  | joining i =>
      obtain ⟨rfl, p, free, hm⟩ := hf
      have hno : ¬((0 : ℕ) : ℤ) < m.nthreads := by
        rw [show m.nthreads = 0 from hm.nthreads]
        exact Int.lt_irrefl 0
      have hx : TpSetup.joined ⟨m, live, .joining 0, worker⟩ 0 =
          ⟨m, { live with threads := false }, .checkActive, worker⟩ := if_neg hno
      exact ⟨_, congrArg some hx, ⟨hnone, p, free, hm⟩, Nat.lt_succ_self 5⟩
  | checkActive =>
      obtain ⟨p, free, hm⟩ := hf
      exact ⟨_, if_pos hm.active, ⟨hnone, p, free, hm⟩, Nat.lt_succ_self 4⟩
  | checkList =>
      obtain ⟨p, free, hm⟩ := hf
      exact ⟨_, if_pos hm.workEmpty, ⟨hnone, p, free, hm⟩, Nat.lt_succ_self 3⟩
  | destroyLock =>
      obtain ⟨p, free, hm⟩ := hf
      exact ⟨_, rfl, ⟨hnone, p, free, hm⟩, Nat.lt_succ_self 2⟩
  | deinitPool =>
      obtain ⟨p, free, hm⟩ := hf
      obtain ⟨q, hq, -⟩ := hm.owns.bufpoolDeinit
      refine ⟨TpSetup.poolDone ⟨m, live, .deinitPool, worker⟩ (q, false), ?_, ⟨hnone, trivial⟩,
        Nat.lt_succ_self 1⟩
      have hp : m.pool = some p := hm.pool
      simp only [TpSetup.setupStep, hp, hq, Option.bind_eq_bind, Option.bind_some]
  | waitPool => exact hf.elim
  | destroyHeap => exact ⟨_, rfl, ⟨hnone, rfl⟩, Nat.lt_succ_self 0⟩
  | returned rc => exact absurd rfl (hpc rc)

/-- Nobody else does anything. -/
theorem Alone.setup {act : SetupAction} (h : Alone A σ) (he : act.Enabled σ) :
    act = .setup ∧ ∀ rc, σ.pc ≠ .returned rc := by
  have hno : ∀ i pc, σ.worker i ≠ some pc := fun i pc e => by
    rw [h.worker i] at e
    cases e
  cases act with
  | setup => exact ⟨rfl, he.1⟩
  | work i => exact absurd he (hno i _)
  | stir i => exact absurd he (hno i _)
  | call i =>
      obtain ⟨a, ha⟩ := he
      exact absurd ha (hno i _)
  | finish i =>
      obtain ⟨a, ha⟩ := he
      exact absurd ha (hno i _)

/-- Alone, it is never in the way of itself. -/
theorem Alone.enabled (h : Alone A σ) (hpc : ∀ rc, σ.pc ≠ .returned rc) :
    SetupAction.setup.Enabled σ := by
  refine ⟨hpc, fun i e hi => ?_⟩
  have hf := h.finds
  rw [e] at hf
  obtain ⟨rfl, p, free, hm⟩ := hf
  rw [hm.nthreads] at hi
  exact absurd hi (Int.lt_irrefl 0)

theorem Alone.reachable (hA : A.Harmless nwork) (hn : 0 < nthreads.toInt) (hw : 0 < nwork.toInt)
    (hr : (tpSetup A nthreads nwork).Reachable σ) : Alone A σ := by
  refine hr.invariant ?_ fun σ act σ' hI he hx => ?_
  · rintro _ ⟨m, rfl⟩
    exact ⟨fun _ => rfl, trivial⟩
  · obtain ⟨rfl, hpc⟩ := hI.setup he
    obtain ⟨σ'', hx', hI', -⟩ := hI.step hA hn hw hpc
    rw [show (tpSetup A nthreads nwork).exec σ .setup = some σ'' from hx'] at hx
    exact Option.some.inj hx ▸ hI'

/-- It returns -1. -/
theorem Alone.returns (hA : A.Harmless nwork) (hn : 0 < nthreads.toInt) (hw : 0 < nwork.toInt)
    (h : Alone A σ) :
    ∃ as σ', System.Steps (tpSetup A nthreads nwork) σ as σ' ∧ σ'.pc = .returned (-1) := by
  induction hk : σ.pc.left using Nat.strongRecOn generalizing σ with
  | ind k ih =>
      by_cases hpc : ∀ rc, σ.pc ≠ .returned rc
      · obtain ⟨σ₁, hx, h₁, hlt⟩ := h.step hA hn hw hpc
        obtain ⟨as, σ₂, hs, hret⟩ := ih _ (hk ▸ hlt) h₁ rfl
        exact ⟨.setup :: as, σ₂, .cons (h.enabled hpc) hx hs, hret⟩
      · rw [not_forall] at hpc
        obtain ⟨rc, hrc⟩ := hpc
        rw [not_not] at hrc
        have hf := h.finds
        rw [hrc] at hf
        exact ⟨[], σ, .nil, by rw [hrc, show rc = -1 from hf]⟩

/-- **A harmless failure is a clean one.** -/
theorem Alone.clean (hA : A.Harmless nwork) (hn : 0 < nthreads.toInt) (hw : 0 < nwork.toInt) :
    SetupClean A nthreads nwork where
  sound σ hr he := by
    obtain ⟨σ', hx, -⟩ := (Alone.reachable hA hn hw hr).step hA hn hw he.1
    exact ⟨σ', hx⟩
  returns σ hr := (Alone.reachable hA hn hw hr).returns hA hn hw
  result σ rc hr hrc := by
    have hf := (Alone.reachable hA hn hw hr).finds
    rw [hrc] at hf
    exact hf
  ordered σ i pc hr hi _ := by
    rw [(Alone.reachable hA hn hw hr).worker i] at hi
    cases hi

/-! ## With workers -/

/-- The world that called `thread_pool_init` is on its way and waits for
nobody. -/
theorem reachable_setup (hr : (tpSetup A nthreads nwork).Reachable σ)
    (hpc : ∀ rc, σ.pc ≠ .returned rc) (hj : ∀ i, σ.pc = .joining i → ¬(i : ℤ) < σ.mem.nthreads)
    (hx : σ.setupStep A nthreads nwork = some σ') : (tpSetup A nthreads nwork).Reachable σ' := by
  have he : SetupAction.setup.Enabled σ := ⟨hpc, fun i e hi => absurd hi (hj i e)⟩
  exact hr.step (a := .setup) he hx

/-- The assertion that the list of work is empty fails on a list that was not
initialised. -/
theorem no_work_list (hr : (tpSetup A nthreads nwork).Reachable σ) (hpc : σ.pc = .checkActive)
    (hactive : σ.mem.active = 0) (hlist : σ.mem.workList = false) :
    ¬SetupClean A nthreads nwork := by
  intro h
  have hx : σ.setupStep A nthreads nwork = some { σ with pc := .checkList } := by
    rw [TpSetup.setupStep, hpc]
    exact if_pos hactive
  have hr' := reachable_setup hr (fun rc e => by rw [hpc] at e; cases e)
    (fun i e => by rw [hpc] at e; cases e) hx
  obtain ⟨σ', hx'⟩ := h.sound _ hr' ⟨fun rc e => (by cases e), fun i e => (by cases e)⟩
  have hempty : σ.mem.workEmpty = false := by rw [TpMem.workEmpty, hlist, Bool.false_and]
  rw [TpSetup.setupStep] at hx'
  simp only [hempty] at hx'
  cases hx'

/-- While no worker is refused, they are created one by one. -/
theorem reachable_creating (hr : (tpSetup A nthreads nwork).Reachable ⟨m, live, .creating 0, fun _ => none⟩)
    (hk : (k : ℤ) ≤ nthreads.toInt) (hA : ∀ i < k, ¬A.Refuses i) :
    ∃ worker, (tpSetup A nthreads nwork).Reachable ⟨m, live, .creating k, worker⟩ ∧
      (0 < k → worker 0 = some .top) := by
  induction k with
  | zero => exact ⟨_, hr, fun h => absurd h (Nat.lt_irrefl 0)⟩
  | succ k ih =>
      obtain ⟨worker, hrk, htop⟩ := ih (by omega) fun i hi => hA i (Nat.lt_succ_of_lt hi)
      have hx : A.createNext nthreads ⟨m, live, .creating k, worker⟩ k =
          ⟨m, live, .creating (k + 1), Function.update worker k (some .top)⟩ := by
        rw [TpAnswers.createNext, if_pos (by omega), if_neg (hA k (Nat.lt_succ_self k))]
      refine ⟨_, reachable_setup hrk (fun rc e => by cases e) (fun i e => by cases e)
        (congrArg some hx), fun _ => ?_⟩
      rcases Nat.eq_zero_or_pos k with rfl | hpos
      · exact Function.update_self ..
      · rw [Function.update_of_ne (Nat.ne_of_lt hpos)]
        exact htop hpos

/-- **With a worker there, the clean-up frees the array under it**: it joins
as many as `nthreads` says, and that is none before the loop is over. -/
theorem not_clean_of_worker {worker : ℕ → Option WorkerPc}
    (hr : (tpSetup A nthreads nwork).Reachable ⟨m, live, .creating k, worker⟩)
    (hm : m.Ready p free) (hlock : live.workLock = true) (htop : worker 0 = some .top)
    (hk : (k : ℤ) < nthreads.toInt) (hA : A.Refuses k) : ¬SetupClean A nthreads nwork := by
  intro h
  have hx₁ : A.createNext nthreads ⟨m, live, .creating k, worker⟩ k = ⟨m, live, .shutting, worker⟩ := by
    rw [TpAnswers.createNext, if_pos hk, if_pos hA, TpMem.deinitPc, if_pos hm.threads]
  have hr₁ := reachable_setup hr (fun rc e => by cases e) (fun i e => by cases e) (congrArg some hx₁)
  have hx₂ : TpSetup.setupStep ⟨m, live, .shutting, worker⟩ A nthreads nwork =
      some ⟨{ m with state := some .shutting }, live, .waking, worker⟩ := by
    rw [TpSetup.setupStep, TpSetup.shut, hlock]
    rfl
  have hr₂ := reachable_setup hr₁ (fun rc e => by cases e) (fun i e => by cases e) hx₂
  have hr₃ := reachable_setup hr₂ (fun rc e => by cases e) (fun i e => by cases e) rfl
  have hno : ∀ i : ℕ, ¬(i : ℤ) < m.nthreads := fun i hi => by
    rw [hm.nthreads] at hi
    omega
  have hr₄ := reachable_setup hr₃ (fun rc e => by cases e) (fun i _ => hno i)
    (congrArg some (if_neg (hno 0)))
  have hlive := h.ordered _ 0 .top hr₄ (by simp [TpSetup.wakeAll, htop]) (by decide)
  cases congrArg TpLive.threads hlive

/-- **Any other failure is not.** -/
theorem harmless_of_clean (hn : 0 < nthreads.toInt) (hw : 0 < nwork.toInt)
    (h : SetupClean A nthreads nwork) : A.Harmless nwork := by
  have hstart : (tpSetup A nthreads nwork).Reachable (.start .zero) := .init ⟨_, rfl⟩
  rcases A.prepare_cases hw with ⟨hto, m, p, free, hm, hx⟩ | ⟨hnm, hh, -⟩ | ⟨-, -, hx | ⟨m, live, hl, ha, hx⟩⟩
  · have hloop := reachable_setup hstart (fun rc e => by cases e) (fun i e => by cases e) hx
    by_cases hex : ∃ i : ℕ, (i : ℤ) < nthreads.toInt ∧ A.Refuses i
    · -- the first of the workers that are refused
      classical
      obtain ⟨hlt, href⟩ := Nat.find_spec hex
      obtain ⟨worker, hr, htop⟩ := reachable_creating hloop (k := Nat.find hex) (Int.le_of_lt hlt)
        fun i hi hri => Nat.find_min hex hi ⟨by omega, hri⟩
      rcases Nat.eq_zero_or_pos (Nat.find hex) with hz | hpos
      · exact .inr ⟨hto, hz ▸ href⟩
      · exact absurd h (not_clean_of_worker hr hm rfl (htop hpos) hlt href)
    · -- all are created, and it returns 0
      obtain ⟨worker, hr, -⟩ := reachable_creating hloop (k := nthreads.toInt.toNat) (by omega)
        fun i hi hri => hex ⟨i, by omega, hri⟩
      have hlast : ¬((nthreads.toInt.toNat : ℕ) : ℤ) < nthreads.toInt := by omega
      have hr' := reachable_setup hr (fun rc e => by cases e) (fun i e => by cases e)
        (congrArg some (if_neg hlast))
      cases h.result _ 0 hr' rfl
  · exact .inl ⟨hnm, hh⟩
  · obtain ⟨σ', hx'⟩ := h.sound _ hstart ⟨fun rc e => (by cases e), fun i e => (by cases e)⟩
    rw [show TpSetup.setupStep (.start .zero) A nthreads nwork = none from hx] at hx'
    cases hx'
  · have hr := reachable_setup hstart (fun rc e => by cases e) (fun i e => by cases e) hx
    exact absurd h (no_work_list hr rfl ha hl)

/-- Everything is granted but the workers from `k` on. -/
def createsOnly (k : ℕ) : TpAnswers where
  named := true
  heap := ⟨true, true, true⟩
  pool := ⟨true, ⟨true, true, true⟩, true, some, fun i j a hi hj => by
    rw [Option.some.inj hi, Option.some.inj hj]⟩
  lock := true
  threads := true
  format _ := true
  create i := decide (i < k)

theorem createsOnly_toLoop (k : ℕ) : (createsOnly k).ToLoop 128 :=
  ⟨rfl, rfl, ⟨by decide, rfl, rfl, rfl⟩, rfl, rfl⟩

end Vmk

end VmwareProto
