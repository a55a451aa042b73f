import VmwareProto.BufPool.Model
import Mathlib.Data.List.Induction
/-!
# The accounts of a pool

`Owns p free held` accounts for every buffer of a pool: it is on the free
list or with one holder, and the counters agree. Beyond `nbufs` the pool
keeps nothing on its free list, since such a buffer is freed as it comes
back; that is why an idle pool owns exactly `nbufs`, and why a pool that got
its first `nbufs` buffers counted has no more to count later.
-/

namespace VmwareProto

namespace BufPool

open Libtask

/-- **The accounts of a pool**: `free` on its free list, `held` with its
users. -/
structure Owns (p : Pool) (free held : List Addr) : Prop where
  ring : p.links.Ring freelist (free.map .elem)
  qlen : p.qlen = free.length
  nodup : held.Nodup
  apart : ∀ a ∈ free, a ∉ held
  issued : p.issued = held.length
  owned : p.owned = p.issued + free.length
  nbufs_le : p.nbufs ≤ p.owned
  le_nmax : p.owned ≤ p.nmax
  surplus : p.nbufs < p.owned → free = []
  countable : p.nbufs < 2 ^ 31
  live : ∀ a, a ∈ free ∨ a ∈ held → p.live a = true

variable {p p' : Pool} {free held xs : List Addr} {a : Addr} {t : TaskId} {noblock : Bool}
  {calloc : Option Addr}

theorem elem_notMem (ha : a ∉ free) : (Node.elem a : Ptr) ∉ freelist :: free.map .elem := by
  simpa [freelist] using ha

theorem Owns.free_nodup (h : Owns p free held) : free.Nodup :=
  List.Nodup.of_map _ (List.nodup_cons.1 h.ring.nodup).2

/-- An idle pool has its `nbufs` buffers, all free. -/
theorem Owns.idle (h : Owns p free []) : p.owned = p.nbufs ∧ free.length = p.nbufs := by
  have hi : p.issued = 0 := h.issued
  have ho := h.owned
  have hl := h.nbufs_le
  have hs : ¬ p.nbufs < p.owned := fun hlt => by
    rw [h.surplus hlt, List.length_nil] at ho
    omega
  omega

/-- The accounts are kept in the free list, the counters and the memory. -/
theorem Owns.congr (h : Owns p free held) (hl : p'.links = p.links) (hq : p'.qlen = p.qlen)
    (hi : p'.issued = p.issued) (ho : p'.owned = p.owned) (hb : p'.nbufs = p.nbufs)
    (hm : p'.nmax = p.nmax) (hv : p'.live = p.live) : Owns p' free held := by
  obtain ⟨h₁, h₂, h₃, h₄, h₅, h₆, h₇, h₈, h₉, h₁₀, h₁₁⟩ := h
  rw [← hl] at h₁
  rw [← hq] at h₂
  rw [← hi] at h₅ h₆
  rw [← ho] at h₆ h₇ h₈ h₉
  rw [← hb] at h₇ h₉ h₁₀
  rw [← hm] at h₈
  rw [← hv] at h₁₁
  exact ⟨h₁, h₂, h₃, h₄, h₅, h₆, h₇, h₈, h₉, h₁₀, h₁₁⟩

/-! ## The free list -/

/-- `queue_rem` on an empty list. -/
theorem queueRem_nil (hr : p.links.Ring freelist []) : p.queueRem = some (p, none) := by
  rw [Pool.queueRem, if_pos (hr.isEmpty_iff.2 rfl)]

/-- `queue_rem` takes the last. -/
theorem queueRem_append (hr : p.links.Ring freelist ((xs ++ [a]).map .elem))
    (hq : p.qlen = (xs ++ [a]).length) :
    p.queueRem = some ({ p with links := p.links.rem (.elem a), qlen := p.qlen - 1 }, some a) := by
  have hne : ¬ p.links.isEmpty freelist = true := fun e => by
    have := hr.isEmpty_iff.1 e
    simp at this
  rw [List.map_append] at hr
  have hprev : p.links.prev freelist = .elem a := hr.prev_head
  have hlen : ¬ p.qlen - 1 < 0 := by simp only [List.length_append, List.length_singleton] at hq; omega
  rw [Pool.queueRem, if_neg hne, hprev]
  exact if_neg hlen

theorem ring_rem (hr : p.links.Ring freelist ((xs ++ [a]).map .elem)) :
    (p.links.rem (.elem a)).Ring freelist (xs.map .elem) := by
  rw [List.map_append] at hr
  simpa using hr.rem.1

/-! ## One function at a time -/

/-- `bufpool_get` from the free list. -/
def Pool.pop (p : Pool) (a : Addr) : Pool :=
  { p with links := p.links.rem (.elem a), qlen := p.qlen - 1, issued := p.issued + 1 }

/-- `bufpool_get` from `calloc`. -/
def Pool.grow (p : Pool) (a : Addr) : Pool :=
  { p with live := Function.update p.live a true, owned := p.owned + 1, issued := p.issued + 1 }

/-- **All that `bufpool_get` can do** from the top of its loop: it takes
the last free buffer; with none free, a new one; with neither, it sleeps or
gives up. -/
theorem Owns.getLoop (h : Owns p free held) (t : TaskId) (noblock : Bool) (calloc : Option Addr) :
    (∃ xs a, free = xs ++ [a] ∧ p.getLoop t noblock calloc = some (p.pop a, .got a)) ∨
    (∃ a, free = [] ∧ p.owned < p.nmax ∧ calloc = some a ∧
      p.getLoop t noblock calloc = some (p.grow a, .got a)) ∨
    (free = [] ∧ (p.owned < p.nmax → calloc = none) ∧
      p.getLoop t noblock calloc = some (p.sleepUnless t noblock)) := by
  have hr := h.ring
  rcases List.eq_nil_or_concat free with rfl | ⟨xs, a, rfl⟩
  · have hrem := queueRem_nil hr
    by_cases hlt : p.owned < p.nmax
    · rcases calloc with _ | a
      · exact .inr (.inr ⟨rfl, fun _ => rfl, by simp [Pool.getLoop, hrem]⟩)
      · exact .inr (.inl ⟨a, rfl, hlt, rfl, by simp [Pool.getLoop, hrem, hlt, Pool.grow]⟩)
    · exact .inr (.inr ⟨rfl, fun hl => absurd hl hlt, by simp [Pool.getLoop, hrem, hlt]⟩)
  · rw [List.concat_eq_append] at h hr ⊢
    have hrem := queueRem_append hr h.qlen
    exact .inl ⟨xs, a, rfl, by simp [Pool.getLoop, hrem, Pool.pop]⟩

theorem Owns.pop (h : Owns p (xs ++ [a]) held) : Owns (p.pop a) xs (a :: held) := by
  have hnd := h.free_nodup
  rw [List.nodup_append] at hnd
  have hlen := h.qlen
  have ho := h.owned
  have hi := h.issued
  simp only [List.length_append, List.length_singleton] at hlen ho
  refine ⟨ring_rem h.ring, ?_, ?_, ?_, ?_, ?_, h.nbufs_le, h.le_nmax, fun hlt => ?_, h.countable,
    ?_⟩
  · simp only [Pool.pop]; omega
  · exact List.nodup_cons.2 ⟨h.apart a (by simp), h.nodup⟩
  · intro b hb
    rw [List.mem_cons, not_or]
    exact ⟨hnd.2.2 b hb a (by simp), h.apart b (by simp [hb])⟩
  · simp only [Pool.pop, List.length_cons]; omega
  · simp only [Pool.pop]; omega
  · have := h.surplus hlt
    simp at this
  · intro b hb
    refine h.live b ?_
    simp only [List.mem_cons, List.mem_append] at hb ⊢
    tauto

theorem Owns.grow (h : Owns p [] held) (hlt : p.owned < p.nmax) (ha : p.live a = false) :
    Owns (p.grow a) [] (a :: held) := by
  have hnot : a ∉ held := fun hm => by
    rw [h.live a (.inr hm)] at ha
    cases ha
  have ho := h.owned
  have hi := h.issued
  have hb := h.nbufs_le
  refine ⟨h.ring, h.qlen, List.nodup_cons.2 ⟨hnot, h.nodup⟩, by simp, ?_, ?_, ?_, ?_,
    fun _ => rfl, h.countable, fun b hb => ?_⟩
  · simp only [Pool.grow, List.length_cons]; omega
  · simp only [Pool.grow, List.length_nil] at ho ⊢; omega
  · simp only [Pool.grow]; omega
  · simp only [Pool.grow]; omega
  · simp only [Pool.grow, Function.update_apply]
    split
    · rfl
    · refine h.live b ?_
      simpa [‹b ≠ a›] using hb

/-- A held buffer is its holder's to write. -/
theorem Owns.scribble (h : Owns p free held) (ha : a ∈ held) (next prev : Ptr) :
    Owns (p.scribble a next prev) free held := by
  have hne : ∀ y ∈ freelist :: free.map Node.elem, y ≠ .elem a := fun y hy e =>
    elem_notMem (fun hm => h.apart a hm ha) (e ▸ hy)
  have hring : (p.scribble a next prev).links.Ring freelist (free.map .elem) := by
    refine h.ring.frame (fun y hy => ?_) fun y hy => ?_ <;>
      simp [Pool.scribble, Links.setNext, Links.setPrev, Function.update_of_ne (hne y hy)]
  exact ⟨hring, h.qlen, h.nodup, h.apart, h.issued, h.owned, h.nbufs_le, h.le_nmax, h.surplus,
    h.countable, h.live⟩

/-- `bufpool_put` to the free list. -/
def Pool.requeue (p : Pool) (a : Addr) : Pool :=
  { p with
    links := (p.links.init (.elem a)).add freelist (.elem a), qlen := p.qlen + 1
    issued := p.issued - 1 }

/-- `bufpool_put` by `free`. -/
def Pool.discard (p : Pool) (a : Addr) : Pool :=
  { p with
    issued := p.issued - 1, live := Function.update p.live a false, owned := p.owned - 1 }

/-- **All that `bufpool_put` can do** up to its wakeups. There is room on the
free list while a buffer is out. -/
theorem Owns.giveBack_cases (h : Owns p free held) (ha : a ∈ held) :
    (p.owned ≤ p.nbufs ∧ p.giveBack a = some (p.requeue a)) ∨
    (p.nbufs < p.owned ∧ p.giveBack a = some (p.discard a)) := by
  rcases Nat.lt_or_ge p.nbufs p.owned with hlt | hle
  · refine .inr ⟨hlt, ?_⟩
    simp only [Pool.giveBack]
    rw [if_neg (by omega), if_neg (by omega), Pool.discard]
  · have hroom : p.qlen < Counter.intMax := by
      have hpos := List.length_pos_of_mem ha
      have hi := h.issued
      have ho := h.owned
      have hc := h.countable
      rw [h.qlen, Counter.intMax]
      omega
    refine .inl ⟨hle, ?_⟩
    simp only [Pool.giveBack]
    rw [if_pos hle, Pool.queueAdd, Counter.incr_of_lt hroom]
    rfl

theorem Owns.requeue (h : Owns p free held) (ha : a ∈ held) (hle : p.owned ≤ p.nbufs) :
    Owns (p.requeue a) (a :: free) (held.erase a) := by
  have hnot : (Node.elem a : Ptr) ∉ freelist :: free.map .elem :=
    elem_notMem fun hm => h.apart a hm ha
  have hlen := List.length_erase_of_mem ha
  have hpos := List.length_pos_of_mem ha
  have ho := h.owned
  have hi := h.issued
  have hq := h.qlen
  refine ⟨(h.ring.init_of_notMem hnot).add hnot, ?_, h.nodup.erase a, fun b hb => ?_, ?_, ?_,
    h.nbufs_le, h.le_nmax, fun hlt => absurd hlt (Nat.not_lt.2 hle), h.countable,
    fun b hb => h.live b ?_⟩
  · simp only [Pool.requeue, List.length_cons]; omega
  · rcases List.mem_cons.1 hb with rfl | hb
    · exact h.nodup.not_mem_erase
    · exact fun hm => h.apart b hb (List.mem_of_mem_erase hm)
  · simp only [Pool.requeue]; omega
  · simp only [Pool.requeue, List.length_cons]; omega
  · rcases hb with hb | hb
    · rcases List.mem_cons.1 hb with rfl | hb
      exacts [.inr ha, .inl hb]
    · exact .inr (List.mem_of_mem_erase hb)

theorem Owns.discard (h : Owns p free held) (ha : a ∈ held) (hlt : p.nbufs < p.owned) :
    Owns (p.discard a) [] (held.erase a) := by
  obtain rfl := h.surplus hlt
  have hlen := List.length_erase_of_mem ha
  have hpos := List.length_pos_of_mem ha
  have ho := h.owned
  have hi := h.issued
  have hm := h.le_nmax
  refine ⟨h.ring, h.qlen, h.nodup.erase a, by simp, ?_, ?_, ?_, ?_, fun _ => rfl, h.countable,
    fun b hb => ?_⟩
  · simp only [Pool.discard]; omega
  · simp only [Pool.discard, List.length_nil] at ho ⊢; omega
  · simp only [Pool.discard]; omega
  · simp only [Pool.discard]; omega
  · have hb : b ∈ held.erase a := by simpa using hb
    have hne : b ≠ a := fun e => h.nodup.not_mem_erase (e ▸ hb)
    simp only [Pool.discard, Function.update_of_ne hne]
    exact h.live b (.inr (List.mem_of_mem_erase hb))

/-! ## The start -/

/-- The pool inside the loop of `bufpool_init`, with the buffers it has so
far. -/
structure Filling (malloc : ℕ → Option Addr) (bufsize nbufs nmax : ℕ) (p : Pool)
    (free : List Addr) : Prop where
  ring : p.links.Ring freelist (free.map .elem)
  owned : p.owned = free.length
  origin : ∀ a ∈ free, ∃ i < p.owned, malloc i = some a
  live : ∀ a ∈ free, p.live a = true
  rest : { p with links := ⟨id, id⟩, live := fun _ => false, owned := 0, qlen := 0 } =
    { Pool.empty bufsize nbufs nmax with links := ⟨id, id⟩, live := fun _ => false }
  qlen : p.qlen = free.length
  countable : free.length < 2 ^ 31

variable {malloc : ℕ → Option Addr} {bufsize nbufs nmax : ℕ}

/-- `queue_add` counts one more, or ends in an overflow. -/
theorem queueAdd_eq_some_iff {q : Pool} : p.queueAdd a = some q ↔ p.qlen < Counter.intMax ∧
    q = { p with links := (p.links.init (.elem a)).add freelist (.elem a), qlen := p.qlen + 1 } := by
  unfold Pool.queueAdd Counter.incr
  by_cases hlt : p.qlen < Counter.intMax
  · simp [hlt, eq_comm]
  · simp [hlt]

/-- One round of the loop. -/
theorem Filling.step {q : Pool} (hinj : ∀ i j a, malloc i = some a → malloc j = some a → i = j)
    (h : Filling malloc bufsize nbufs nmax p free) (ha : malloc p.owned = some a)
    (hq : p.queueAdd a = some q) :
    Filling malloc bufsize nbufs nmax
      { q with owned := q.owned + 1, live := Function.update q.live a true } (a :: free) := by
  obtain ⟨hroom, rfl⟩ := queueAdd_eq_some_iff.1 hq
  have hnew : a ∉ free := fun hm => by
    obtain ⟨i, hi, hai⟩ := h.origin a hm
    have := hinj i p.owned a hai ha
    omega
  have hnot := elem_notMem hnew
  have hlen := h.qlen
  have ho := h.owned
  rw [Counter.intMax] at hroom
  refine ⟨(h.ring.init_of_notMem hnot).add hnot, by simp [ho], fun b hb => ?_, fun b hb => ?_,
    h.rest, by simp only [List.length_cons]; omega, by simp only [List.length_cons]; omega⟩
  · rcases List.mem_cons.1 hb with rfl | hb
    · exact ⟨p.owned, Nat.lt_succ_self _, ha⟩
    · obtain ⟨i, hi, hai⟩ := h.origin b hb
      exact ⟨i, Nat.lt_succ_of_lt hi, hai⟩
  · rcases List.mem_cons.1 hb with rfl | hb
    · exact Function.update_self ..
    · have hne : b ≠ a := fun e => hnew (e ▸ hb)
      exact (Function.update_of_ne hne true p.live).trans (h.live b hb)

/-- The loop, from any round on. -/
theorem Filling.fill (hinj : ∀ i j a, malloc i = some a → malloc j = some a → i = j) (k : ℕ)
    (h : Filling malloc bufsize nbufs nmax p free) (hp : Pool.fill malloc k p = some p') :
    ∃ free', Filling malloc bufsize nbufs nmax p' free' := by
  induction k generalizing p free with
  | zero =>
      obtain rfl := Option.some.inj hp
      exact ⟨free, h⟩
  | succ k ih =>
      rw [Pool.fill] at hp
      split at hp
      · obtain rfl := Option.some.inj hp
        exact ⟨free, h⟩
      · rename_i a ha
        obtain ⟨q, hq, hp⟩ := Option.bind_eq_some_iff.1 hp
        exact ih (h.step hinj ha hq) hp

/-- The start of the loop. -/
theorem Filling.start :
    Filling malloc bufsize nbufs nmax (Pool.empty bufsize nbufs nmax) [] :=
  ⟨Links.ring_init, rfl, by simp, by simp, rfl, rfl, by decide⟩

/-- **A new pool** that got all its buffers. -/
theorem Initialised.owns (h : Initialised bufsize nbufs nmax p) :
    (∃ free, Owns p free []) ∧ p.state = .initialized ∧ p.rendez = [] ∧ p.deinit = [] ∧
      p.nbufs = nbufs ∧ p.nmax = nmax := by
  obtain ⟨malloc, hinj, hp, ho⟩ := h
  rw [Pool.bufpoolInit] at hp
  split at hp
  · rename_i hle
    obtain ⟨free, hf⟩ := Filling.start.fill hinj nbufs hp
    have hrest := hf.rest
    simp only [Pool.empty, Pool.mk.injEq] at hrest
    obtain ⟨-, -, hi, -, -, hb, hm, hs, hz, hd, -⟩ := hrest
    have hlen := hf.owned
    have hcount := hf.countable
    refine ⟨⟨free, hf.ring, hf.qlen, by simp, by simp, hi, by omega, by omega, by omega, by omega,
      by omega, fun a ha => hf.live a (by simpa using ha)⟩, hs, hz, hd, hb, hm⟩
  · cases hp

/-! ## The system -/

/-- What a stretch of `bufpool_get` or `bufpool_put` leaves alone: all but
the free list, the counters and the memory. -/
structure Pool.Rest (p p' : Pool) : Prop where
  rendez : p'.rendez = p.rendez
  deinit : p'.deinit = p.deinit
  state : p'.state = p.state
  nbufs : p'.nbufs = p.nbufs
  nmax : p'.nmax = p.nmax

variable {σ σ' : State} {act : Action} {zeroed : Bool}

/-- The `memset` is on the buffer just obtained. -/
theorem Owns.zero (h : Owns p free (a :: held)) (zeroed : Bool) :
    ∃ p', Pool.zero zeroed (p, .got a) = (p', .got a) ∧ Owns p' free (a :: held) ∧ p.Rest p' ∧
      p'.owned = p.owned := by
  refine ⟨if zeroed = true then p.scribble a null null else p, rfl, ?_⟩
  split
  · exact ⟨h.scribble (by simp) null null, ⟨rfl, rfl, rfl, rfl, rfl⟩, rfl⟩
  · exact ⟨h, ⟨rfl, rfl, rfl, rfl, rfl⟩, rfl⟩

/-- **A stretch of `bufpool_get`, by the task's and the pool's new state**:
with a buffer, of which the pool has one less to give; asleep; or back
without one. -/
theorem settle_cases (h : Owns σ.pool free σ.held) (hf : Action.Fresh σ calloc) (t : TaskId)
    (noblock zeroed : Bool) :
    ∃ r, σ.pool.getLoop t noblock calloc = some r ∧
    ((∃ a p', σ.settle t zeroed (Pool.zero zeroed r) =
        { σ with pool := p', held := a :: σ.held } ∧
        Owns p' free.dropLast (a :: σ.held) ∧ σ.pool.Rest p' ∧
        free.dropLast.length + (p'.nmax - p'.owned) + 1 =
          free.length + (σ.pool.nmax - σ.pool.owned)) ∨
    (free = [] ∧ (σ.pool.owned < σ.pool.nmax → calloc = none) ∧
      (noblock = false ∧ σ.settle t zeroed (Pool.zero zeroed r) =
        { σ with pool := { σ.pool with rendez := σ.pool.rendez ++ [t] },
                 getters := σ.getters ++ [⟨t, zeroed, false⟩] } ∨
       noblock = true ∧ σ.settle t zeroed (Pool.zero zeroed r) = σ))) := by
  rcases h.getLoop t noblock calloc with
    ⟨xs, a, rfl, hg⟩ | ⟨a, rfl, hlt, rfl, hg⟩ | ⟨rfl, hc, hg⟩
  · obtain ⟨p', hz, hp, hr, ho⟩ := h.pop.zero zeroed
    refine ⟨_, hg, .inl ⟨a, p', by rw [hz]; rfl, ?_, ⟨hr.1, hr.2, hr.3, hr.4, hr.5⟩, ?_⟩⟩
    · rwa [List.dropLast_concat]
    · rw [hr.nmax, ho]
      simp only [Pool.pop, List.dropLast_concat, List.length_append, List.length_singleton]
      omega
  · obtain ⟨p', hz, hp, hr, ho⟩ := (h.grow hlt (hf a rfl)).zero zeroed
    refine ⟨_, hg, .inl ⟨a, p', by rw [hz]; rfl, hp, ⟨hr.1, hr.2, hr.3, hr.4, hr.5⟩, ?_⟩⟩
    rw [hr.nmax, ho]
    simp only [Pool.grow, List.dropLast_nil, List.length_nil]
    omega
  · refine ⟨_, hg, .inr ⟨rfl, hc, ?_⟩⟩
    cases noblock with
    | false => exact .inl ⟨rfl, rfl⟩
    | true => exact .inr ⟨rfl, rfl⟩

/-- **A buffer comes back**, before anyone is woken: the pool has one more
to give. -/
theorem Owns.giveBack (h : Owns p free held) (ha : a ∈ held) :
    ∃ p' free', p.giveBack a = some p' ∧ Owns p' free' (held.erase a) ∧ p.Rest p' ∧
      free'.length ≤ free.length + 1 ∧
      free'.length + (p'.nmax - p'.owned) = free.length + (p.nmax - p.owned) + 1 := by
  have hm := h.le_nmax
  rcases h.giveBack_cases ha with ⟨hle, hg⟩ | ⟨hlt, hg⟩
  · refine ⟨_, _, hg, h.requeue ha hle, ⟨rfl, rfl, rfl, rfl, rfl⟩, by simp, ?_⟩
    simp only [Pool.requeue, List.length_cons]
    omega
  · refine ⟨_, _, hg, h.discard ha hlt, ⟨rfl, rfl, rfl, rfl, rfl⟩, by simp, ?_⟩
    have := h.surplus hlt
    simp only [Pool.discard, this, List.length_nil]
    omega

/-- The last buffer is back and `bufpool_deinit` has been called. -/
def Pool.Last (p : Pool) : Prop := p.issued = 0 ∧ p.state = .deiniting

instance (p : Pool) : Decidable p.Last := inferInstanceAs (Decidable (_ ∧ _))

/-- The two wakeups of `bufpool_put`. -/
def Pool.wakeUp (p : Pool) : Pool :=
  { p with rendez := p.rendez.tail, deinit := if p.Last then p.deinit.tail else p.deinit }

/-- **`bufpool_put`** is a buffer back and the two wakeups. -/
theorem bufpoolPut_eq {q : Pool} (hg : p.giveBack a = some q) :
    p.bufpoolPut a =
      some (q.wakeUp, q.rendez.head?, if q.Last then q.deinit.head? else none) := by
  by_cases hl : q.Last
  · have hl' : q.issued = 0 ∧ q.state = .deiniting := hl
    simp [Pool.bufpoolPut, hg, Pool.wakeUp, Pool.wakeRendez, Pool.wakeDeinit, hl, hl']
  · have hl' : ¬ (q.issued = 0 ∧ q.state = .deiniting) := hl
    simp [Pool.bufpoolPut, hg, Pool.wakeUp, Pool.wakeRendez, hl, hl']

theorem Owns.wakeUp (h : Owns p free held) : Owns p.wakeUp free held :=
  h.congr rfl rfl rfl rfl rfl rfl rfl

/-! ## The end -/

/-- The loop of `bufpool_deinit` empties the free list, given one round more
than it is long. -/
theorem drain_spec (hr : p.links.Ring freelist (free.map .elem)) (hq : p.qlen = free.length)
    {k : ℕ} (hk : free.length < k) :
    ∃ q, Pool.drain k p = some q ∧ q.links.Ring freelist [] ∧ q.qlen = 0 := by
  induction free using List.reverseRecOn generalizing p k with
  | nil =>
      obtain ⟨k, rfl⟩ := Nat.exists_eq_succ_of_ne_zero (Nat.ne_zero_of_lt hk)
      exact ⟨p, by simp [Pool.drain, queueRem_nil hr], hr, hq⟩
  | append_singleton xs a ih =>
      obtain ⟨k, rfl⟩ := Nat.exists_eq_succ_of_ne_zero (Nat.ne_zero_of_lt hk)
      have hrem := queueRem_append hr hq
      simp only [List.length_append, List.length_singleton] at hq hk
      obtain ⟨q, hd, hq'⟩ := ih (p := { p with
          links := p.links.rem (.elem a), qlen := p.qlen - 1
          live := Function.update p.live a false, owned := p.owned - 1 })
        (ring_rem hr) (by simp only; omega) (by omega : xs.length < k)
      exact ⟨q, by simpa [Pool.drain, hrem] using hd, hq'⟩

/-- The zeroed pool. -/
structure Gone (p : Pool) : Prop where
  state : p.state = .deinted
  next : p.links.next freelist = null
  prev : p.links.prev freelist = null

/-- **`bufpool_deinit` past its wait**: with a buffer still out its
assertion fails; with none it frees the pool. -/
theorem Owns.finish (h : Owns p free held) :
    (held ≠ [] ∧ p.finish = none) ∨ (held = [] ∧ ∃ q, p.finish = some q ∧ Gone q) := by
  have hi := h.issued
  rcases held with _ | ⟨a, held⟩
  · have hk : free.length < p.qlen.toNat + 1 := by rw [h.qlen, Int.toNat_natCast]; omega
    obtain ⟨q, hd, hr, hq⟩ := drain_spec h.ring h.qlen hk
    have hempty : q.links.isEmpty freelist = true := hr.isEmpty_iff.2 rfl
    refine .inr ⟨rfl, { q with
      links := (q.links.setNext freelist null).setPrev freelist null
      qlen := 0, state := .deinted }, ?_, ⟨rfl, ?_, ?_⟩⟩
    · simp [Pool.finish, hi, hd, Pool.queueDeinit, hq, hempty]
    · simp [Links.setNext, Links.setPrev]
    · simp [Links.setNext, Links.setPrev]
  · refine .inl ⟨by simp, ?_⟩
    rw [Pool.finish, if_pos (by rw [hi]; simp)]

theorem finish_state (h : p.finish = some p') : p'.state = .deinted := by
  rw [Pool.finish] at h
  split at h
  · cases h
  · obtain ⟨q, -, h⟩ := Option.bind_eq_some_iff.1 h
    obtain ⟨q', -, h⟩ := Option.bind_eq_some_iff.1 h
    rw [← Option.some.inj h]

/-- `bufpool_deinit` sleeps exactly when a buffer is out. -/
theorem Owns.bufpoolDeinit (h : Owns p free held) (hs : p.state = .initialized) (t : TaskId) :
    (held ≠ [] ∧ p.bufpoolDeinit t =
      some ({ p with state := .deiniting, deinit := p.deinit ++ [t] }, true)) ∨
    (held = [] ∧ ∃ q, p.bufpoolDeinit t = some (q, false) ∧ Gone q) := by
  have hi := h.issued
  have h' : Owns { p with state := .deiniting } free held :=
    h.congr rfl rfl rfl rfl rfl rfl rfl
  rcases h'.finish with ⟨hne, -⟩ | ⟨rfl, q, hq, hgone⟩
  · have hne' : p.issued ≠ 0 := by rw [hi]; exact fun e => hne (List.length_eq_zero_iff.1 e)
    exact .inl ⟨hne, by simp [Pool.bufpoolDeinit, hs, hne']⟩
  · have hz : p.issued = 0 := hi
    exact .inr ⟨rfl, q, by simpa [Pool.bufpoolDeinit, hs, hz] using hq, hgone⟩

/-- A zeroed pool cannot be walked. -/
theorem Gone.getLoop (h : Gone p) : p.getLoop t noblock calloc = none := by
  have hne : ¬ p.links.isEmpty freelist = true := by
    simp only [Links.isEmpty, h.next, beq_iff_eq]
    exact fun e => by cases Node.head.inj e
  have hrem : p.queueRem = none := by
    rw [Pool.queueRem, if_neg hne, h.prev]
    rfl
  rw [Pool.getLoop, hrem]
  rfl

end BufPool

end VmwareProto
