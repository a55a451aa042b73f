import VmwareProto.BufPool.Accounts
/-!
# A pool that did not get its buffers

`bufpool_init` says how many buffers it got. With fewer than it was asked
for it is a pool all the same, and `bufpool_deinit` frees what is there. It
gets to say so unless it gets more than an `int` can count.
-/

namespace VmwareProto

namespace BufPool

open Libtask

variable {p q : Pool} {free : List Addr} {malloc : ℕ → Option Addr} {bufsize nbufs nmax : ℕ}

/-- `bufpool_init` got all it was asked for. -/
def Granted (malloc : ℕ → Option Addr) (nbufs : ℕ) : Prop := ∀ i < nbufs, (malloc i).isSome = true

/-- The memory of a pool nobody has a buffer of: its free list. -/
structure Partial (p : Pool) (free : List Addr) : Prop where
  ring : p.links.Ring freelist (free.map .elem)
  qlen : p.qlen = free.length
  live : ∀ a, p.live a = true → a ∈ free
  issued : p.issued = 0
  state : p.state = .initialized

/-- What the loop leaves. -/
theorem Filling.mem_of_live (hinj : ∀ i j a, malloc i = some a → malloc j = some a → i = j) (k : ℕ)
    (h : Filling malloc bufsize nbufs nmax p free) (hl : ∀ a, p.live a = true → a ∈ free)
    (hp : Pool.fill malloc k p = some q) :
    ∃ free', Filling malloc bufsize nbufs nmax q free' ∧ ∀ a, q.live a = true → a ∈ free' := by
  induction k generalizing p free with
  | zero =>
      obtain rfl := Option.some.inj hp
      exact ⟨free, h, hl⟩
  | succ k ih =>
      rw [Pool.fill] at hp
      split at hp
      · obtain rfl := Option.some.inj hp
        exact ⟨free, h, hl⟩
      · rename_i b hb
        obtain ⟨p₁, hadd, hp⟩ := Option.bind_eq_some_iff.1 hp
        refine ih (h.step hinj hb hadd) (fun a ha => ?_) hp
        obtain ⟨-, rfl⟩ := queueAdd_eq_some_iff.1 hadd
        by_cases hab : a = b
        · exact hab ▸ List.mem_cons_self
        · have ha' : Function.update p.live b true a = true := ha
          rw [Function.update_of_ne hab] at ha'
          exact List.mem_cons_of_mem b (hl a ha')

/-- The loop goes to its end exactly when every request is met. -/
theorem owned_fill (k : ℕ) (hp : Pool.fill malloc k p = some q) :
    q.owned ≤ p.owned + k ∧
      (q.owned = p.owned + k ↔ ∀ i, p.owned ≤ i → i < p.owned + k → (malloc i).isSome = true) := by
  induction k generalizing p with
  | zero =>
      obtain rfl := Option.some.inj hp
      exact ⟨Nat.le_refl _, iff_of_true rfl fun i hi hlt => absurd hlt (Nat.not_lt.2 hi)⟩
  | succ k ih =>
      rw [Pool.fill] at hp
      cases hm : malloc p.owned with
      | none =>
          rw [hm] at hp
          obtain rfl := Option.some.inj hp
          refine ⟨Nat.le_add_right _ _, iff_of_false (fun e => by omega) fun h => ?_⟩
          have := h p.owned (Nat.le_refl _) (by omega)
          rw [hm] at this
          cases this
      | some a =>
          rw [hm] at hp
          obtain ⟨p₁, hadd, hp⟩ := Option.bind_eq_some_iff.1 hp
          obtain ⟨-, rfl⟩ := queueAdd_eq_some_iff.1 hadd
          obtain ⟨hle, hiff⟩ := ih hp
          simp only at hle hiff
          refine ⟨by omega, ?_⟩
          have hadd : p.owned + (k + 1) = p.owned + 1 + k := by omega
          rw [hadd, hiff]
          constructor
          · intro h i hi hlt
            rcases Nat.eq_or_lt_of_le hi with rfl | hi
            · rw [hm]
              rfl
            · exact h i hi hlt
          · exact fun h i hi hlt => h i (by omega) hlt

/-- It is not cut short while an `int` can count what it gets. -/
theorem exists_fill (k : ℕ) (hk : p.qlen + k ≤ Counter.intMax) :
    ∃ q, Pool.fill malloc k p = some q := by
  induction k generalizing p with
  | zero => exact ⟨p, rfl⟩
  | succ k ih =>
      rw [Pool.fill]
      split
      · exact ⟨p, rfl⟩
      · have hroom : p.qlen < Counter.intMax := by omega
        rw [queueAdd_eq_some_iff.2 ⟨hroom, rfl⟩]
        exact ih (by simp only; omega)

/-- **What `bufpool_init` leaves**, whatever it got. -/
theorem partial_of_bufpoolInit (hinj : ∀ i j a, malloc i = some a → malloc j = some a → i = j)
    (hp : Pool.bufpoolInit bufsize nbufs nmax malloc = some p) :
    (∃ free, Partial p free) ∧ p.owned ≤ nbufs ∧ p.owned < 2 ^ 31 ∧
      (p.owned = nbufs ↔ Granted malloc nbufs) := by
  rw [Pool.bufpoolInit] at hp
  split at hp
  · obtain ⟨free, hf, hl⟩ := Filling.start.mem_of_live hinj nbufs (fun a ha => by cases ha) hp
    obtain ⟨howned, hiff⟩ := owned_fill nbufs hp
    have hzero : (Pool.empty bufsize nbufs nmax).owned = 0 := rfl
    rw [hzero, Nat.zero_add] at howned hiff
    have hrest := hf.rest
    simp only [Pool.empty, Pool.mk.injEq] at hrest
    refine ⟨⟨free, hf.ring, hf.qlen, hl, hrest.2.2.1, hrest.2.2.2.2.2.2.2.1⟩, howned,
      hf.owned ▸ hf.countable, ?_⟩
    rw [hiff]
    exact ⟨fun h i hi => h i (Nat.zero_le i) hi, fun h i _ hi => h i hi⟩
  · cases hp

/-- It returns if an `int` can count the buffers it is asked for. -/
theorem exists_bufpoolInit (bufsize : ℕ) (malloc : ℕ → Option Addr) (hpos : 0 < nbufs)
    (hle : nbufs ≤ nmax) (hsmall : nbufs < 2 ^ 31) :
    ∃ p, Pool.bufpoolInit bufsize nbufs nmax malloc = some p := by
  rw [Pool.bufpoolInit, if_pos ⟨hpos, hle⟩]
  have hzero : (Pool.empty bufsize nbufs nmax).qlen = 0 := rfl
  exact exists_fill nbufs (by rw [hzero, Counter.intMax]; omega)

/-- A `malloc` that puts the buffer `i` at the address `i`. -/
theorem some_distinct (i j a : Addr) (hi : some i = some a) (hj : some j = some a) : i = j :=
  Option.some.inj (hi.trans hj.symm)

/-- There is a pool that got all its buffers. -/
theorem exists_initialised (hpos : 0 < nbufs) (hle : nbufs ≤ nmax) (hsmall : nbufs < 2 ^ 31) :
    ∃ p, Initialised bufsize nbufs nmax p := by
  obtain ⟨p, hp⟩ := exists_bufpoolInit bufsize some hpos hle hsmall
  obtain ⟨-, -, -, howned⟩ := partial_of_bufpoolInit some_distinct hp
  exact ⟨p, some, some_distinct, hp, howned.2 fun _ _ => rfl⟩

/-- The loop of `bufpool_deinit` frees all there is. -/
theorem drain_frees (hr : p.links.Ring freelist (free.map .elem)) (hq : p.qlen = free.length)
    (hl : ∀ a, p.live a = true → a ∈ free) {k : ℕ} (hk : free.length < k) :
    ∃ q, Pool.drain k p = some q ∧ q.links.Ring freelist [] ∧ q.qlen = 0 ∧
      ∀ a, q.live a = false := by
  induction free using List.reverseRecOn generalizing p k with
  | nil =>
      obtain ⟨k, rfl⟩ := Nat.exists_eq_succ_of_ne_zero (Nat.ne_zero_of_lt hk)
      refine ⟨p, by simp [Pool.drain, queueRem_nil hr], hr, hq, fun a => ?_⟩
      rw [Bool.eq_false_iff]
      exact fun ha => List.not_mem_nil (hl a ha)
  | append_singleton xs b ih =>
      obtain ⟨k, rfl⟩ := Nat.exists_eq_succ_of_ne_zero (Nat.ne_zero_of_lt hk)
      have hrem := queueRem_append hr hq
      simp only [List.length_append, List.length_singleton] at hq hk
      have hl' : ∀ a, Function.update p.live b false a = true → a ∈ xs := by
        intro a ha
        by_cases hab : a = b
        · rw [hab, Function.update_self] at ha
          cases ha
        · rw [Function.update_of_ne hab] at ha
          exact (List.mem_append.1 (hl a ha)).resolve_right fun h => hab (List.mem_singleton.1 h)
      obtain ⟨q, hd, hq'⟩ := ih (p := { p with
          links := p.links.rem (.elem b), qlen := p.qlen - 1
          live := Function.update p.live b false, owned := p.owned - 1 })
        (ring_rem hr) (by simp only; omega) hl' (by omega : xs.length < k)
      exact ⟨q, by simpa [Pool.drain, hrem] using hd, hq'⟩

/-- **`bufpool_deinit` of such a pool** does not wait, and leaves nothing. -/
theorem Partial.bufpoolDeinit (h : Partial p free) (t : TaskId) :
    ∃ q, p.bufpoolDeinit t = some (q, false) ∧ ∀ a, q.live a = false := by
  have hk : free.length < p.qlen.toNat + 1 := by
    rw [h.qlen, Int.toNat_natCast]
    omega
  obtain ⟨q, hd, hr, hq, hfreed⟩ := drain_frees (p := { p with state := .deiniting }) h.ring h.qlen
    h.live hk
  have hempty : q.links.isEmpty freelist = true := hr.isEmpty_iff.2 rfl
  obtain ⟨r, hfin, hlive⟩ : ∃ r, Pool.finish { p with state := .deiniting } = some r ∧
      r.live = q.live := by
    refine ⟨{ q with
      links := (q.links.setNext freelist null).setPrev freelist null
      qlen := 0, state := .deinted }, ?_, rfl⟩
    rw [Pool.finish, if_neg (not_not.2 h.issued)]
    simp [hd, Pool.queueDeinit, hq, hempty]
  refine ⟨r, ?_, hlive ▸ hfreed⟩
  rw [Pool.bufpoolDeinit, if_neg (not_not.2 h.state)]
  simp only
  rw [if_neg (not_not.2 h.issued), hfin, Option.map_some]

end BufPool

end VmwareProto
