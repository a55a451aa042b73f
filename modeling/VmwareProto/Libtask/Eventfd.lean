import VmwareProto.Libtask.Delivered
import VmwareProto.Libtask.Registration
/-!
# Event descriptors

`eventio_done`, and the loop of `aiotask` over its array, in which the other
handlers come before it and after it. An event of a registered descriptor
should be served from the descriptor's own counter (`Served`); the code reads
the counter of `taskio_eventfd`, which is that of `libaio_done`. Between two
events of an array no task runs. The contexts of sockets and FIFOs are those
of the thread.
-/

namespace VmwareProto

namespace Libtask

/-- A thread with registered event descriptors. -/
structure Eventfds where
  aio : Aio
  registry : Registry
  taskioEventfd : ℤ
  /-- the counters of the other event descriptors -/
  counter : ℤ → ℕ
  /-- the function and the argument of a task -/
  start : TaskId → Option (ℕ × ℕ)

/-- An event of `aiotask`'s array: of libaio, a socket or a FIFO, or of the
context of an event descriptor. What `malloc` returns to `taskcreate` comes
with the latter. -/
inductive Entry
  | io (e : Event)
  | event (p : Ctx) (malloc : ℕ → TaskId)

/-- What `taskio_init` leaves, with `fd` for libaio. -/
def Registry.initialised (fd : ℤ) (q : Ctx) : Registry where
  tcarray := Function.update (fun _ => none) fd (some q)
  heap := Function.update (fun _ => none) q (some (.libaio fd))
  fds := Function.update (fun _ => none) fd (some (some ⟨q, ⟨true, false, false, false⟩, false⟩))
  readied := []

namespace Eventfds

variable (σ : Eventfds)

/-- The counter of an event descriptor. -/
def value (fd : ℤ) : ℕ := if fd = σ.taskioEventfd then σ.aio.eventfd else σ.counter fd

/-- Its counter is 0. -/
def drain (fd : ℤ) : Eventfds :=
  if fd = σ.taskioEventfd then { σ with aio.eventfd := 0 }
  else { σ with counter := Function.update σ.counter fd 0 }

/-- `read` of an event descriptor; `none` is `EAGAIN`. -/
def readEventfd (fd : ℤ) : Option (ℕ × Eventfds) :=
  if σ.value fd = 0 then none else some (σ.value fd, σ.drain fd)

/-- `taskcreate` with a function and its argument. -/
def taskcreate (task arg : ℕ) (malloc : TaskId) : Option (Eventfds × TaskId) := do
  let (T, t) ← σ.aio.tasks.taskcreate cacheStackSize malloc
  some ({ σ with
    aio := { σ.aio with tasks := T, pc := Function.update σ.aio.pc t .top }
    start := Function.update σ.start t (some (task, arg)) }, t)

/-- The loop of `eventio_done`, with `n` tasks to go. Its `k` is an `int`,
and must not overflow. -/
def createLoop (task arg : ℕ) (malloc : ℕ → TaskId) : ℕ → ℕ → Eventfds → Option Eventfds
  | 0, _, σ => some σ
  | n + 1, k, σ => do
      let (τ, _) ← σ.taskcreate task arg (malloc k)
      if k + 1 = 2 ^ 31 then none else createLoop task arg malloc n (k + 1) τ

/-- `eventio_done`, where it reads `fd`. -/
def eventioDoneFrom (fd : ℤ) (p : Ctx) (malloc : ℕ → TaskId) : Option Eventfds :=
  match σ.registry.heap p with
  | some (.event _ task arg) => do
      let (nio, τ) ← σ.readEventfd fd
      τ.createLoop task arg malloc nio 0
  | _ => none

/-- `eventio_done` -/
def eventioDone (p : Ctx) (malloc : ℕ → TaskId) : Option Eventfds :=
  σ.eventioDoneFrom σ.taskioEventfd p malloc

/-- One event of `aiotask`'s array. -/
def dispatch : Entry → Option Eventfds
  | .io .libaio => σ.aio.libaioDone.map fun α => { σ with aio := α }
  | .io (.ctx c m) => (σ.aio.erase.ioDone c m).map fun τ => { σ with aio := σ.aio.lift τ }
  | .event p malloc => σ.eventioDone p malloc

/-- The loop of `aiotask` over its array. -/
def dispatchLoop : List Entry → Eventfds → Option Eventfds
  | [], σ => some σ
  | e :: ev, σ => do
      let τ ← σ.dispatch e
      dispatchLoop ev τ

/-! ## What is asked -/

/-- `p` is the context of `fd`, as `task_eventfd_register` has left it. -/
def Registered (p : Ctx) (fd : ℤ) (task arg : ℕ) : Prop :=
  σ.registry.tcarray fd = some p ∧ σ.registry.heap p = some (.event fd task arg)

/-- `taskio_init` has entered `taskio_eventfd`. -/
def Initialised : Prop :=
  ∃ q, σ.registry.tcarray σ.taskioEventfd = some q ∧ σ.registry.heap q = some (.libaio σ.taskioEventfd)

/-- A thread after `taskio_init`, with libaio's event descriptor 4 and a
registration of descriptor 7, whose counter is 1. -/
def seven (α : Aio) : Eventfds where
  aio := α
  registry := ((Registry.initialised 4 0).openFd 7).entered (.event 7 1 2)
    (some ⟨1, ⟨true, false, false, false⟩, false⟩) 7 1
  taskioEventfd := 4
  counter := Function.update (fun _ => 0) 7 1
  start := fun _ => none

variable {σ} {σ' τ : Eventfds} {p : Ctx} {fd r : ℤ} {task arg n k : ℕ} {malloc : ℕ → TaskId}
  {ev ev' ev'' : List Entry} {ts : List TaskId}

/-- Tasks are created one after the other, with one function and argument. -/
inductive Creates (task arg : ℕ) : Eventfds → List TaskId → Eventfds → Prop
  | nil {σ : Eventfds} : Creates task arg σ [] σ
  | cons {σ τ σ' : Eventfds} {malloc t : TaskId} {ts : List TaskId} :
      σ.taskcreate task arg malloc = some (τ, t) → Creates task arg τ ts σ' →
      Creates task arg σ (t :: ts) σ'

/-- **An event of `fd` is served from its counter**: it is consumed, and
that many tasks are created; the completions that libaio has counted, and
those that are reaped next, are the same. -/
structure Served (fd : ℤ) (task arg : ℕ) (σ σ' : Eventfds) : Prop where
  consumed : σ'.value fd = 0
  others : ∀ fd', fd' ≠ fd → σ'.value fd' = σ.value fd'
  reaps : σ'.aio.queue.take σ'.aio.eventfd = σ.aio.queue.take σ.aio.eventfd
  created : ∃ ts, ts.length = σ.value fd ∧ Creates task arg (σ.drain fd) ts σ'

/-! ## The loop -/

/-- What the creation of tasks leaves alone. -/
structure SameCounters (σ σ' : Eventfds) : Prop where
  value : σ'.value = σ.value
  queue : σ'.aio.queue = σ.aio.queue
  taskioEventfd : σ'.taskioEventfd = σ.taskioEventfd
  registry : σ'.registry = σ.registry

theorem SameCounters.trans {σ₁ σ₂ : Eventfds} (h : SameCounters σ σ₁) (h' : SameCounters σ₁ σ₂) :
    SameCounters σ σ₂ :=
  ⟨h'.value.trans h.value, h'.queue.trans h.queue, h'.taskioEventfd.trans h.taskioEventfd,
    h'.registry.trans h.registry⟩

theorem SameCounters.eventfd (h : SameCounters σ σ') : σ'.aio.eventfd = σ.aio.eventfd := by
  have hv := congrFun h.value σ.taskioEventfd
  unfold Eventfds.value at hv
  rwa [if_pos h.taskioEventfd.symm, if_pos rfl] at hv

theorem sameCounters_taskcreate {malloc t : TaskId} (h : σ.taskcreate task arg malloc = some (τ, t)) :
    SameCounters σ τ := by
  obtain ⟨⟨T, u⟩, -, hτ⟩ := Option.bind_eq_some_iff.1 h
  cases hτ
  exact ⟨rfl, rfl, rfl, rfl⟩

theorem Creates.same (h : Creates task arg σ ts σ') : SameCounters σ σ' := by
  induction h with
  | nil => exact ⟨rfl, rfl, rfl, rfl⟩
  | cons hc _ ih => exact (sameCounters_taskcreate hc).trans ih

/-- **The loop** creates as many tasks as it is to. -/
theorem creates_of_createLoop (h : createLoop task arg malloc n k σ = some σ') :
    ∃ ts, ts.length = n ∧ Creates task arg σ ts σ' := by
  induction n generalizing σ k with
  | zero =>
      cases h
      exact ⟨[], rfl, .nil⟩
  | succ n ih =>
      obtain ⟨⟨τ, t⟩, hc, h⟩ := Option.bind_eq_some_iff.1 h
      dsimp only at h
      split at h
      · cases h
      · obtain ⟨ts, hlen, hts⟩ := ih h
        exact ⟨t :: ts, by rw [List.length_cons, hlen], .cons hc hts⟩

/-! ## The counter that is read -/

theorem value_drain (fd : ℤ) : (σ.drain fd).value = Function.update σ.value fd 0 := by
  funext fd'
  by_cases hr : fd = σ.taskioEventfd
  · by_cases h : fd' = fd
    · simp [drain, value, h, hr]
    · rw [Function.update_of_ne h]
      rw [hr] at h
      simp [drain, value, hr, h]
  · by_cases h : fd' = fd
    · simp [drain, value, h, hr]
    · rw [Function.update_of_ne h]
      simp [drain, value, hr, h]

/-- A descriptor that is not libaio's is drained without it. -/
theorem aio_drain (h : fd ≠ σ.taskioEventfd) : (σ.drain fd).aio = σ.aio := by
  unfold drain
  rw [if_neg h]

theorem registry_drain (fd : ℤ) : (σ.drain fd).registry = σ.registry := by
  unfold drain
  split <;> rfl

/-- **What `eventio_done` does**, whichever counter it reads: the counter was
not 0, is consumed, and that many tasks are created. -/
theorem eventioDoneFrom_eq (hp : σ.registry.heap p = some (.event fd task arg))
    (h : σ.eventioDoneFrom r p malloc = some σ') :
    0 < σ.value r ∧ ∃ ts, ts.length = σ.value r ∧ Creates task arg (σ.drain r) ts σ' := by
  unfold eventioDoneFrom at h
  rw [hp] at h
  obtain ⟨⟨nio, τ⟩, hread, h⟩ := Option.bind_eq_some_iff.1 h
  unfold readEventfd at hread
  split at hread
  · cases hread
  · cases hread
    exact ⟨by omega, creates_of_createLoop h⟩

/-- **An event is served from the descriptor's own counter just if that is
the counter that is read.** -/
theorem served_iff (hp : σ.registry.heap p = some (.event fd task arg)) (hfd : fd ≠ σ.taskioEventfd)
    (h : σ.eventioDoneFrom r p malloc = some σ') : Served fd task arg σ σ' ↔ r = fd := by
  obtain ⟨hpos, ts, hlen, hts⟩ := eventioDoneFrom_eq hp h
  have hv : σ'.value = Function.update σ.value r 0 := hts.same.value.trans (value_drain r)
  constructor
  · intro hs
    by_contra hne
    have hr := hs.others r hne
    rw [hv, Function.update_self] at hr
    omega
  · rintro rfl
    have haio := aio_drain hfd
    exact ⟨by rw [hv, Function.update_self],
      fun fd' hne => by rw [hv, Function.update_of_ne hne],
      by rw [hts.same.eventfd, hts.same.queue, haio], ts, hlen, hts⟩

/-! ## A batch -/

theorem registry_eventioDoneFrom (h : σ.eventioDoneFrom r p malloc = some σ') :
    σ'.registry = σ.registry ∧ σ'.taskioEventfd = σ.taskioEventfd := by
  unfold eventioDoneFrom at h
  split at h
  · obtain ⟨⟨nio, τ⟩, hread, h⟩ := Option.bind_eq_some_iff.1 h
    unfold readEventfd at hread
    split at hread
    · cases hread
    · cases hread
      obtain ⟨ts, -, hts⟩ := creates_of_createLoop h
      refine ⟨hts.same.registry.trans (registry_drain r), hts.same.taskioEventfd.trans ?_⟩
      unfold drain
      split <;> rfl
  · cases h

/-- No event changes a registration. -/
theorem registry_dispatch {e : Entry} (h : σ.dispatch e = some σ') :
    σ'.registry = σ.registry ∧ σ'.taskioEventfd = σ.taskioEventfd := by
  cases e with
  | io e =>
      cases e with
      | libaio =>
          obtain ⟨α, -, hσ'⟩ := Option.map_eq_some_iff.1 h
          exact hσ' ▸ ⟨rfl, rfl⟩
      | ctx c m =>
          obtain ⟨τ, -, hσ'⟩ := Option.map_eq_some_iff.1 h
          exact hσ' ▸ ⟨rfl, rfl⟩
  | event p malloc => exact registry_eventioDoneFrom h

/-- Nor does the loop. -/
theorem registry_dispatchLoop (h : dispatchLoop ev σ = some σ') :
    σ'.registry = σ.registry ∧ σ'.taskioEventfd = σ.taskioEventfd := by
  induction ev generalizing σ with
  | nil =>
      cases h
      exact ⟨rfl, rfl⟩
  | cons e ev ih =>
      obtain ⟨τ, he, h⟩ := Option.bind_eq_some_iff.1 h
      obtain ⟨hreg, hfd⟩ := registry_dispatch he
      exact ⟨(ih h).1.trans hreg, (ih h).2.trans hfd⟩

/-- A registered descriptor is not that of libaio. -/
theorem Registered.ne (hp : σ.Registered p fd task arg) (hi : σ.Initialised) : fd ≠ σ.taskioEventfd := by
  rintro rfl
  obtain ⟨q, hq, hlib⟩ := hi
  obtain rfl : q = p := Option.some.inj (hq.symm.trans hp.1)
  rw [hp.2] at hlib
  cases hlib

/-- After a successful `task_eventfd_register` the descriptor is
registered. -/
theorem registered_of_register {a : RegAnswers} {T : Registry} (hk : σ.registry.Allocates a)
    (h : σ.registry.taskEventfdRegister fd task arg a = some (0, T)) :
    ∃ p, { σ with registry := T }.Registered p fd task arg := by
  rcases Registry.taskEventfdRegister_cases fd task arg hk with ⟨p, -, -, heq⟩ | ⟨-, res, hpos, heq⟩
  · rw [heq] at h
    cases h
    exact ⟨p, by simp [Registry.entered], by simp [Registry.entered, Registry.calloc]⟩
  · rw [heq, Option.some.injEq, Prod.mk.injEq] at h
    omega

/-! ## No event is served -/

/-- **No event of a registered descriptor is served from its own counter**:
not in any batch, whatever was handled before it, and with whatever values.
`eventio_done` fails its assertion where libaio has counted no completion;
elsewhere it takes that count, and leaves the descriptor's as it was. -/
theorem event_not_served (hi : σ.Initialised) (hp : σ.Registered p fd task arg)
    (hev : dispatchLoop ev σ = some τ) :
    (¬∃ σ', τ.dispatch (.event p malloc) = some σ' ∧ Served fd task arg τ σ') ∧
    ∀ σ', τ.dispatch (.event p malloc) = some σ' →
      0 < τ.aio.eventfd ∧ σ'.aio.eventfd = 0 ∧ σ'.aio.queue = τ.aio.queue ∧
      σ'.value fd = τ.value fd ∧
      ∃ ts, ts.length = τ.aio.eventfd ∧ Creates task arg (τ.drain τ.taskioEventfd) ts σ' := by
  obtain ⟨hreg, htask⟩ := registry_dispatchLoop hev
  have hheap : τ.registry.heap p = some (.event fd task arg) := hreg ▸ hp.2
  have hne : fd ≠ τ.taskioEventfd := htask ▸ hp.ne hi
  refine ⟨?_, fun σ' h => ?_⟩
  · rintro ⟨σ', h, hs⟩
    exact hne ((served_iff hheap hne h).1 hs).symm
  · obtain ⟨hpos, ts, hlen, hts⟩ := eventioDoneFrom_eq hheap h
    have hval : τ.value τ.taskioEventfd = τ.aio.eventfd := if_pos rfl
    have hv : σ'.value = Function.update τ.value τ.taskioEventfd 0 :=
      hts.same.value.trans (value_drain _)
    have hdrain : (τ.drain τ.taskioEventfd).aio = { τ.aio with eventfd := 0 } := by
      unfold drain
      rw [if_pos rfl]
    rw [hval] at hpos hlen
    refine ⟨hpos, ?_, ?_, ?_, ts, hlen, hts⟩
    · rw [hts.same.eventfd, hdrain]
    · rw [hts.same.queue, hdrain]
    · rw [hv, Function.update_of_ne hne]

theorem event_not_served_seven : ¬∃ σ',
    (seven (.start 0)).dispatch (.event 1 fun k => k + 9) = some σ' ∧ Served 7 1 2 (seven (.start 0)) σ' :=
  have hev : dispatchLoop [] (seven (.start 0)) = some (seven (.start 0)) := rfl
  (event_not_served ⟨0, rfl, rfl⟩ ⟨rfl, rfl⟩ hev).1

/-- A completion has been counted, and a descriptor that is registered has
the value 1, when `aiotask` waits for events. The event of the descriptor
takes the count of libaio and leaves its own; the event of libaio behind it
fails. -/
theorem event_takes_completion : ∃ (α : Aio) (T : Registry) (σ' : Eventfds),
    libaio.Reachable α ∧ α.tasks.taskrunning = some 1 ∧ α.pc 1 = .wait ∧ α.queue.length = 1 ∧
    ((Registry.initialised 4 0).openFd 7).taskEventfdRegister 7 1 2 ⟨some 1, none⟩ = some (0, T) ∧
    (seven α).registry = T ∧ (seven α).value 4 = 1 ∧ (seven α).value 7 = 1 ∧
    (seven α).dispatch (.event 1 fun k => k + 9) = some σ' ∧ σ'.value 4 = 0 ∧ σ'.value 7 = 1 ∧
    σ'.aio.queue.length = 1 ∧ σ'.dispatch (.io .libaio) = none ∧ ¬Served 7 1 2 (seven α) σ' := by
  have h : ((libaio.run (.start 0) [.aiorw 0 4096, .task .taskscheduler, .task (.start 1),
      .task (.poll 1), .task .taskscheduler, .task (.yielded 1), .complete ⟨0, 0, 4096⟩ 4096,
      .count]).any fun α => decide (α.tasks.taskrunning = some 1 ∧ α.pc 1 = .wait ∧
        α.queue.length = 1 ∧ α.eventfd = 1 ∧
        (α.tasks.taskcreate cacheStackSize 9).isSome = true)) = true := by
    decide +kernel
  obtain ⟨α, hα, hp⟩ := System.Steps.of_run_any h
  obtain ⟨hx, hpc, hq, hn, hc⟩ := of_decide_eq_true hp
  obtain ⟨⟨T, t⟩, hT⟩ := Option.isSome_iff_exists.1 hc
  have hd : (seven α).dispatch (.event 1 fun k => k + 9) =
      some { seven α with
        aio := { α with tasks := T, pc := Function.update α.pc t .top, eventfd := 0 }
        start := Function.update (fun _ => none) t (some (1, 2)) } := by
    simp [dispatch, eventioDone, eventioDoneFrom, seven, Registry.entered, Registry.calloc,
      readEventfd, value, drain, createLoop, taskcreate, hn, hT]
  refine ⟨α, _, _, hα.reachable (.init ⟨0, rfl⟩), hx, hpc, hq, rfl, rfl, ?_, rfl, hd, rfl, rfl, hq, rfl,
    fun hs => ?_⟩
  · exact hn
  · exact Nat.one_ne_zero hs.consumed

/-- The event of libaio that is next, where none has been counted in between,
fails its assertion: the completions it was for are not reaped. -/
theorem libaio_after_event (hp : σ.registry.heap p = some (.event fd task arg)) :
    dispatchLoop (.event p malloc :: .io .libaio :: ev) σ = none := by
  refine Option.eq_none_iff_forall_not_mem.2 fun σ' h => ?_
  obtain ⟨τ, he, h⟩ := Option.bind_eq_some_iff.1 h
  obtain ⟨τ', hl, -⟩ := Option.bind_eq_some_iff.1 h
  obtain ⟨α, hα, -⟩ := Option.map_eq_some_iff.1 hl
  obtain ⟨-, ts, -, hts⟩ := eventioDoneFrom_eq hp he
  have hz : τ.aio.eventfd = 0 := by
    rw [hts.same.eventfd]
    unfold drain
    rw [if_pos rfl]
  rw [Aio.libaioDone, if_pos hz] at hα
  cases hα

end Eventfds

end Libtask

end VmwareProto
