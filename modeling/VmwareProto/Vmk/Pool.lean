import VmwareProto.Library.Rings
import VmwareProto.Library.System
import Mathlib.Algebra.Group.Int.Defs
import Mathlib.Algebra.Group.Nat.Defs
import Mathlib.Data.Int.Notation
/-!
# The buffer pool of the VMkernel

`bufpool_t` of the VMkernel side has two kinds of getters: the normal ones
leave `reserve` buffers of the `nmax` to the others. They wait in an inner
loop that tests the counters anew. Every function takes the pool's lock at
its start and gives it back at its end, or as it waits, so it is cut there
only. `none` is a failed assertion.
-/

namespace VmwareProto

namespace Vmk

/-- The address of a buffer. -/
abbrev Addr := ℕ

/-- A world. -/
abbrev World := ℕ

/-- The lists a buffer's two link words can be in: the pool's own, and the
one a thread pool puts its work items in. -/
inductive Head
  | freelist
  | work
  deriving DecidableEq, Repr

/-- The list heads and the first two words of every buffer. -/
abbrev Memory := Links (Node Head Addr)

/-- A value converted to `size_t`. -/
def sizeT (z : ℤ) : ℕ := (z % 2 ^ 64).toNat

/-- `BUFPOOL_STATE`, from `bufpool_init_reserve` on. -/
inductive PoolState
  | initialized
  | deiniting
  | deinted
  deriving DecidableEq, Repr

/-- `bufpool_t`, with the memory of the buffers. -/
structure Pool where
  links : Memory
  /-- `freelist.q_len`, an `int`, at most `nbufs` (`Owns.qlen_le`) -/
  qlen : ℤ
  issued : ℕ
  owned : ℕ
  nbufs : ℕ
  nmax : ℕ
  reserve : ℤ
  state : PoolState
  /-- memory that was allocated and not freed -/
  live : Addr → Bool

namespace Pool

variable (p : Pool) (a : Addr)

/-! ## The free list -/

/-- `DLL_INIT` and `queue_add`: the buffer goes to the front. -/
def queueAdd : Pool :=
  { p with
    links := (p.links.init (.elem a)).add (.head .freelist) (.elem a)
    qlen := p.qlen + 1 }

/-- `queue_rem`: the last of the list, or -1. -/
def queueRem : Option (Pool × Option Addr) :=
  if p.links.isEmpty (.head .freelist) = true then some (p, none)
  else
    match p.links.prev (.head .freelist) with
    | .head _ => none
    | .elem a =>
        if p.qlen - 1 < 0 then none
        else some ({ p with links := p.links.rem (.elem a), qlen := p.qlen - 1 }, some a)

/-! ## `bufpool_init_reserve` -/

/-- Its loop, with `k` rounds left. `malloc` answers the request made when
`owned` buffers are there. -/
def fill (malloc : ℕ → Option Addr) : ℕ → Pool → Pool
  | 0, p => p
  | k + 1, p =>
      match malloc p.owned with
      | none => p
      | some a =>
          fill malloc k
            { p.queueAdd a with owned := p.owned + 1, live := Function.update p.live a true }

/-- The pool before the loop. -/
def empty (nbufs : ℕ) (reserve : ℤ) (nmax : ℕ) : Pool where
  links := (⟨id, id⟩ : Memory).init (.head .freelist)
  qlen := 0
  issued := 0
  owned := 0
  nbufs := nbufs
  nmax := nmax
  reserve := reserve
  state := .initialized
  live _ := false

/-- `bufpool_init_reserve`; it returns the pool's `owned`. -/
def bufpoolInitReserve (nbufs : ℕ) (reserve : ℤ) (nmax : ℕ) (malloc : ℕ → Option Addr) :
    Option Pool :=
  if 0 < nbufs ∧ nbufs ≤ nmax then some (fill malloc nbufs (empty nbufs reserve nmax)) else none

/-! ## `_bufpool_get` -/

/-- How a stretch of `_bufpool_get` ends. -/
inductive GetOutcome
  | got (a : Addr)
  /-- -1 -/
  | failed
  /-- in `vmk_WorldWait` -/
  | waits
  deriving DecidableEq, Repr

/-- `owned + reserve < nmax`. -/
def BelowReserve : Prop := sizeT (p.owned + p.reserve) < p.nmax

/-- The test before `malloc`, for a getter of kind `r` (`alloc_reserve`). -/
def MayGrow (r : Bool) : Prop :=
  p.BelowReserve ∨ r = true ∧ p.reserve ≠ 0 ∧ p.owned < p.nmax

/-- The test that ends the inner loop. -/
def MayRetry (r : Bool) : Prop := r = true ∧ p.owned < p.nmax ∨ p.BelowReserve

instance : Decidable p.BelowReserve := inferInstanceAs (Decidable (_ < _))
instance (r : Bool) : Decidable (p.MayGrow r) := inferInstanceAs (Decidable (_ ∨ _))
instance (r : Bool) : Decidable (p.MayRetry r) := inferInstanceAs (Decidable (_ ∨ _))

/-- Without a buffer it returns -1 or waits. -/
def giveUp (noblock : Bool) : Pool × GetOutcome := (p, if noblock = true then .failed else .waits)

/-- `_bufpool_get` from the top of its loop to its return or its wait.
`malloc` is the answer, should it ask for memory. -/
def getLoop (r noblock : Bool) (malloc : Option Addr) : Option (Pool × GetOutcome) :=
  if p.state ≠ .initialized then none
  else do
    let (p, e) ← p.queueRem
    match e with
    | some a => some ({ p with issued := p.issued + 1 }, .got a)
    | none =>
        if p.MayGrow r then
          match malloc with
          | none => some (p.giveUp noblock)
          | some a =>
              some ({ p with
                live := Function.update p.live a true
                owned := p.owned + 1, issued := p.issued + 1 }, .got a)
        else some (p.giveUp noblock)

/-- `_bufpool_get`, up to its return or its first wait. -/
def bufpoolGet (r noblock : Bool) (malloc : Option Addr) : Option (Pool × GetOutcome) :=
  if r = true ∧ p.reserve = 0 then none else p.getLoop r noblock malloc

/-- A getter that waited has the lock again: it tests the counters, and
goes back to the top or waits on. -/
def recheck (r : Bool) (malloc : Option Addr) : Option (Pool × GetOutcome) :=
  if p.MayRetry r then p.getLoop r false malloc else some (p, .waits)

/-! ## `bufpool_put` -/

/-- `bufpool_put`: the buffer is queued, or freed. -/
def bufpoolPut : Option Pool :=
  let p := { p with issued := p.issued - 1 }
  if p.owned ≤ p.nbufs then some (p.queueAdd a)
  else if p.owned - 1 < p.nbufs then none
  else some { p with live := Function.update p.live a false, owned := p.owned - 1 }

/-- Write the first two words of a buffer. -/
def scribble (next prev : Node Head Addr) : Pool :=
  { p with links := (p.links.setNext (.elem a) next).setPrev (.elem a) prev }

end Pool

/-! ## Worlds -/

/-- A buffer in use, and whether a reserve get obtained it. -/
structure Held where
  buf : Addr
  reserved : Bool
  deriving DecidableEq, Repr

/-- A pool, the worlds that wait in it, each with the kind of its get, and
the buffers in use. -/
structure PoolUsers where
  pool : Pool
  waiting : World → Option Bool
  held : List Held

/-- What worlds do. -/
inductive PoolAction
  /-- `bufpool_get`, or `bufpool_get_reserve` -/
  | get (x : World) (r noblock : Bool) (malloc : Option Addr)
  /-- the wait of `x` ends, with a wakeup or without -/
  | recheck (x : World) (malloc : Option Addr)
  | put (h : Held)
  /-- the holder of a buffer writes to it -/
  | write (h : Held) (next prev : Node Head Addr)
  deriving DecidableEq

namespace PoolUsers

variable (σ : PoolUsers)

/-- World `x` leaves `_bufpool_get` with or without a buffer, or stays in it. -/
def settle (x : World) (r : Bool) : Pool × Pool.GetOutcome → PoolUsers
  | (p, .got a) => ⟨p, Function.update σ.waiting x none, ⟨a, r⟩ :: σ.held⟩
  | (p, .failed) => { σ with pool := p, waiting := Function.update σ.waiting x none }
  | (p, .waits) => { σ with pool := p, waiting := Function.update σ.waiting x (some r) }

end PoolUsers

namespace PoolAction

variable (σ : PoolUsers)

def exec : PoolAction → Option PoolUsers
  | get x r noblock malloc => (σ.pool.bufpoolGet r noblock malloc).map (σ.settle x r)
  | recheck x malloc => do
      let r ← σ.waiting x
      let e ← σ.pool.recheck r malloc
      some (σ.settle x r e)
  | put h => do
      let p ← σ.pool.bufpoolPut h.buf
      some { σ with pool := p, held := σ.held.erase h }
  | write h next prev => some { σ with pool := σ.pool.scribble h.buf next prev }

/-- `malloc` returns memory that is not in use, or nothing. -/
def Fresh (malloc : Option Addr) : Prop := ∀ a ∈ malloc, σ.pool.live a = false

instance (malloc : Option Addr) : Decidable (Fresh σ malloc) :=
  inferInstanceAs (Decidable (∀ a ∈ malloc, _))

/-- A world calls when it does not wait; buffers are put and written to
while they are held. -/
def Enabled : PoolAction → Prop
  | get x _ _ malloc => σ.waiting x = none ∧ Fresh σ malloc
  | recheck x malloc => σ.waiting x ≠ none ∧ Fresh σ malloc
  | put h => h ∈ σ.held
  | write h _ _ => h ∈ σ.held

instance : (act : PoolAction) → Decidable (act.Enabled σ)
  | get _ _ _ _ => inferInstanceAs (Decidable (_ ∧ _))
  | recheck _ _ => inferInstanceAs (Decidable (_ ∧ _))
  | put _ => inferInstanceAs (Decidable (_ ∈ _))
  | write _ _ _ => inferInstanceAs (Decidable (_ ∈ _))

end PoolAction

/-- `vmware_heap_create` got a heap with room for `nmax` buffers, each of
them at least a `dll_t`. -/
def HeapFits (nmax : ℕ) : Prop := 16 * nmax ≤ 2 ^ 64

/-- What `bufpool_init_reserve` leaves, in a heap that fits and with a
`malloc` that hands out distinct buffers, all it asks for or some. -/
def Initialised (nbufs : ℕ) (reserve : ℤ) (nmax : ℕ) (p : Pool) : Prop :=
  HeapFits nmax ∧ ∃ malloc : ℕ → Option Addr,
    (∀ i j a, malloc i = some a → malloc j = some a → i = j) ∧
    Pool.bufpoolInitReserve nbufs reserve nmax malloc = some p

/-- Any number of worlds on one pool. -/
def reservePool (nbufs : ℕ) (reserve : ℤ) (nmax : ℕ) : System PoolUsers PoolAction where
  init σ := ∃ p, Initialised nbufs reserve nmax p ∧ σ = ⟨p, fun _ => none, []⟩
  enabled σ act := act.Enabled σ
  exec σ act := act.exec σ

/-- The same, with all the allocations of `bufpool_init_reserve` succeeding. -/
def fullPool (nbufs : ℕ) (reserve : ℤ) (nmax : ℕ) : System PoolUsers PoolAction where
  init σ := ∃ p, Initialised nbufs reserve nmax p ∧ p.owned = nbufs ∧ σ = ⟨p, fun _ => none, []⟩
  enabled σ act := act.Enabled σ
  exec σ act := act.exec σ

instance (nbufs : ℕ) (reserve : ℤ) (nmax : ℕ) (σ : PoolUsers) (act : PoolAction) :
    Decidable ((reservePool nbufs reserve nmax).enabled σ act) :=
  inferInstanceAs (Decidable (act.Enabled σ))

instance (nbufs : ℕ) (reserve : ℤ) (nmax : ℕ) (σ : PoolUsers) (act : PoolAction) :
    Decidable ((fullPool nbufs reserve nmax).enabled σ act) :=
  inferInstanceAs (Decidable (act.Enabled σ))

end Vmk

end VmwareProto
