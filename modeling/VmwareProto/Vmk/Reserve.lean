import VmwareProto.Vmk.Accounts
import Mathlib.Tactic.NormNum
/-!
# The reserve of a VMkernel pool

`Kept` is what holds of a pool and its users whatever the numbers it was
initialised with. Normal getters come to hold `nbufs` buffers, or as many as
leave `reserve` of `nmax`; where the reserve and `nbufs` fit in `nmax`
together, they leave the reserve alone. A buffer does not remember who
obtained it, and the counters do not tell the two kinds apart: what saves
the reserve is that buffers lie on the free list only while the pool owns
`nbufs` at most, and that beyond `nbufs` a normal get tests `owned` itself.
-/

namespace VmwareProto

namespace Vmk

variable {nbufs nmax : ℕ} {reserve : ℤ} {σ σ' : PoolUsers} {act : PoolAction} {x : World}
  {r noblock : Bool} {malloc : Option Addr}

/-- The buffers in use lose the one that is put. -/
theorem map_erase_held {l : List Held} (hnd : (l.map Held.buf).Nodup) {b : Held} (hb : b ∈ l) :
    (l.map Held.buf).erase b.buf = (l.erase b).map Held.buf := by
  induction l with
  | nil => cases hb
  | cons c l ih =>
      obtain ⟨hc, hnd⟩ := List.nodup_cons.1 hnd
      by_cases hcb : c = b
      · subst hcb
        simp
      · have hbl := (List.mem_cons.1 hb).resolve_left (Ne.symm hcb)
        have hne : c.buf ≠ b.buf := fun e => hc (e ▸ List.mem_map_of_mem hbl)
        rw [List.map_cons, List.erase_cons_tail (by simpa using hne),
          List.erase_cons_tail (by simpa using hcb), List.map_cons, ih hnd hbl]

namespace PoolUsers

/-- Buffers that normal gets obtained. -/
def normal (σ : PoolUsers) : ℕ := σ.held.countP fun h => !h.reserved

/-- Buffers that reserve gets obtained. -/
def reserved (σ : PoolUsers) : ℕ := σ.held.countP fun h => h.reserved

theorem normal_add_reserved (σ : PoolUsers) : σ.normal + σ.reserved = σ.held.length := by
  have := List.length_eq_countP_add_countP (fun h : Held => h.reserved) (l := σ.held)
  simp only [normal, reserved]
  simp only [Bool.not_eq_true, Bool.decide_eq_false] at this
  omega

end PoolUsers

/-- **What holds of every pool and its users.** -/
structure Kept (nbufs : ℕ) (reserve : ℤ) (nmax : ℕ) (σ : PoolUsers) (free : List Addr) : Prop where
  owns : Owns σ.pool (onlyFree free) (σ.held.map Held.buf)
  nbufs : σ.pool.nbufs = nbufs
  reserve : σ.pool.reserve = reserve
  nmax : σ.pool.nmax = nmax

/-- **All that a stretch of `_bufpool_get` can do.** -/
inductive Stretch (σ : PoolUsers) (r noblock : Bool) (malloc : Option Addr) :
    Pool × Pool.GetOutcome → Prop
  /-- a free buffer; the pool owns `nbufs` at most -/
  | free {p : Pool} {a : Addr} : a ∉ σ.held.map Held.buf → p.owned = σ.pool.owned →
      σ.pool.owned ≤ σ.pool.nbufs → σ.held.length < σ.pool.owned →
      Stretch σ r noblock malloc (p, .got a)
  /-- a new buffer -/
  | grown {p : Pool} {a : Addr} : a ∉ σ.held.map Held.buf → p.owned = σ.pool.owned + 1 →
      σ.pool.MayGrow r → σ.held.length = σ.pool.owned → Stretch σ r noblock malloc (p, .got a)
  | none : σ.held.length = σ.pool.owned → (σ.pool.MayGrow r → malloc = none) →
      Stretch σ r noblock malloc (σ.pool.giveUp noblock)

namespace Kept

variable {free : List Addr}

theorem length (h : Kept nbufs reserve nmax σ free) :
    σ.held.length + free.length = σ.pool.owned := by
  have ho := h.owns.owned
  have hi := h.owns.issued
  rw [List.length_map] at hi
  have hfree : onlyFree free .freelist = free := rfl
  rw [hfree] at ho
  omega

/-- Whatever `_bufpool_get` does from the top of its loop, the accounts hold. -/
theorem getLoop (h : Kept nbufs reserve nmax σ free) (hm : PoolAction.Fresh σ malloc) (x : World)
    (r noblock : Bool) :
    ∃ e free', σ.pool.getLoop r noblock malloc = some e ∧
      Kept nbufs reserve nmax (σ.settle x r e) free' ∧ Stretch σ r noblock malloc e := by
  have hlen := h.length
  have hfree : onlyFree free .freelist = free := rfl
  rcases h.owns.getLoop r noblock malloc with
    ⟨xs, a, hxs, hg⟩ | ⟨a, hnil, hgrow, rfl, hg⟩ | ⟨hnil, hnone, hg⟩
  · have hp := h.owns.pop hxs
    rw [update_onlyFree] at hp
    have hnot := h.owns.apart a (by simp [hxs])
    refine ⟨_, _, hg, ⟨hp, h.nbufs, h.reserve, h.nmax⟩, .free hnot rfl ?_ ?_⟩
    · by_contra hlt
      rw [h.owns.surplus (by omega)] at hxs
      simp at hxs
    · rw [hfree] at hxs
      rw [hxs, List.length_append, List.length_singleton] at hlen
      omega
  · rw [hfree] at hnil
    subst hnil
    exact ⟨_, _, hg, ⟨h.owns.grow rfl (hm a rfl), h.nbufs, h.reserve, h.nmax⟩,
      .grown (h.owns.fresh (hm a rfl)).1 rfl hgrow (by simpa using hlen)⟩
  · rw [hfree] at hnil
    subst hnil
    refine ⟨_, [], hg, ?_, .none (by simpa using hlen) hnone⟩
    cases noblock <;> exact ⟨h.owns, h.nbufs, h.reserve, h.nmax⟩

/-- `bufpool_put` of a buffer in use. -/
theorem put (h : Kept nbufs reserve nmax σ free) {b : Held} (hb : b ∈ σ.held) :
    ∃ σ' free', (PoolAction.put b).exec σ = some σ' ∧ Kept nbufs reserve nmax σ' free' ∧
      σ'.waiting = σ.waiting ∧ σ'.held = σ.held.erase b ∧
      (σ'.pool.owned = σ.pool.owned ∨
        σ.pool.nbufs < σ.pool.owned ∧ σ'.pool.owned = σ.pool.owned - 1) := by
  have hbuf : b.buf ∈ σ.held.map Held.buf := List.mem_map_of_mem hb
  have herase := map_erase_held h.owns.nodup hb
  rcases bufpoolPut_cases σ.pool b.buf with ⟨hle, hput⟩ | ⟨hlt, hput⟩
  · have hq := h.owns.requeue hbuf List.not_mem_nil hle
    rw [update_onlyFree, herase] at hq
    refine ⟨⟨σ.pool.requeue b.buf, σ.waiting, σ.held.erase b⟩, _, ?_,
      ⟨hq, h.nbufs, h.reserve, h.nmax⟩, rfl, rfl, .inl rfl⟩
    simp [PoolAction.exec, hput]
  · have hq := h.owns.discard hbuf List.not_mem_nil hlt
    rw [herase] at hq
    refine ⟨⟨σ.pool.discard b.buf, σ.waiting, σ.held.erase b⟩, _, ?_,
      ⟨hq, h.nbufs, h.reserve, h.nmax⟩, rfl, rfl, .inr ⟨hlt, rfl⟩⟩
    simp [PoolAction.exec, hput]

/-- The holder of a buffer writes to it. -/
theorem write (h : Kept nbufs reserve nmax σ free) {b : Held} (hb : b ∈ σ.held)
    (next prev : Node Head Addr) :
    Kept nbufs reserve nmax { σ with pool := σ.pool.scribble b.buf next prev } free :=
  ⟨h.owns.scribble (h.owns.unlisted (List.mem_map_of_mem hb) List.not_mem_nil) next prev, h.nbufs,
    h.reserve, h.nmax⟩

end Kept

/-! ## The reserve -/

theorem sizeT_eq {z : ℤ} (h₀ : 0 ≤ z) (h : z < 2 ^ 64) : (sizeT z : ℤ) = z := by
  unfold sizeT
  omega

/-- A pool and how far its normal getters reach. -/
structure Reserving (nbufs : ℕ) (reserve : ℤ) (nmax : ℕ) (σ : PoolUsers) : Prop where
  kept : ∃ free, Kept nbufs reserve nmax σ free
  le_owned : nbufs ≤ σ.pool.owned
  owned_le : σ.pool.owned ≤ nmax
  normal : σ.normal ≤ nbufs ∨ (σ.normal : ℤ) + reserve ≤ nmax

namespace Reserving

/-- A buffer comes back. -/
theorem put (h : Reserving nbufs reserve nmax σ) {b : Held} (hb : b ∈ σ.held) :
    ∃ σ', (PoolAction.put b).exec σ = some σ' ∧ Reserving nbufs reserve nmax σ' ∧
      σ'.held = σ.held.erase b := by
  obtain ⟨free, hk⟩ := h.kept
  obtain ⟨σ', free', hput, hk', -, hheld, ho⟩ := hk.put hb
  have hbufs := hk.nbufs
  have hle := h.le_owned
  have hmax := h.owned_le
  have hnorm := h.normal
  have hsub : σ'.normal ≤ σ.normal := by
    unfold PoolUsers.normal
    rw [hheld]
    exact List.erase_sublist.countP_le
  exact ⟨σ', hput, ⟨⟨free', hk'⟩, by omega, by omega, by omega⟩, hheld⟩

/-- A reserve getter waits only while all of `nmax` buffers are in use: the
heap has memory for a pool that owns less. -/
theorem full (h : Reserving nbufs reserve nmax σ) (hr : 0 < reserve) (hg : nbufs < nmax)
    {e : Pool × Pool.GetOutcome}
    (hs : Stretch σ true false malloc e ∨ ¬σ.pool.MayRetry true ∧ e = (σ.pool, .waits))
    (he : ∀ a, e.2 ≠ .got a) (hm : malloc = none → σ.pool.nmax ≤ σ.pool.owned) :
    σ.held.length = nmax := by
  obtain ⟨free, hk⟩ := h.kept
  have hres := hk.reserve
  have hmax := hk.nmax
  have hle := h.owned_le
  have hlen := hk.length
  rcases hs with hs | ⟨hretry, -⟩
  · cases hs with
    | @free p a _ _ _ _ => exact absurd rfl (he a)
    | @grown p a _ _ _ _ => exact absurd rfl (he a)
    | none hall hnone =>
        by_contra hne
        have hgrow : σ.pool.MayGrow true := .inr ⟨rfl, by omega, by omega⟩
        have := hm (hnone hgrow)
        omega
  · have howned : ¬σ.pool.owned < σ.pool.nmax := fun hlt => hretry (.inl ⟨rfl, hlt⟩)
    have hfree : free = [] := hk.owns.surplus (by rw [hk.nbufs]; omega)
    rw [hfree, List.length_nil] at hlen
    omega

section

variable (hr : 0 < reserve) (hsum : (nmax : ℤ) + reserve < 2 ^ 64)
include hr hsum

/-- The sum of the test does not wrap. -/
theorem below_iff (h : Reserving nbufs reserve nmax σ) :
    σ.pool.BelowReserve ↔ (σ.pool.owned : ℤ) + reserve < nmax := by
  obtain ⟨free, hk⟩ := h.kept
  have ho := h.owned_le
  have hsize := sizeT_eq (z := σ.pool.owned + reserve) (by omega) (by omega)
  unfold Pool.BelowReserve
  rw [hk.reserve, hk.nmax]
  omega

/-- A stretch of `_bufpool_get`, by what it found. -/
theorem stretch (h : Reserving nbufs reserve nmax σ) {e : Pool × Pool.GetOutcome}
    (hs : Stretch σ r noblock malloc e) (hk : ∃ free, Kept nbufs reserve nmax (σ.settle x r e) free) :
    Reserving nbufs reserve nmax (σ.settle x r e) := by
  have hbelow := h.below_iff hr hsum
  obtain ⟨free, h₀⟩ := h.kept
  have hlen := σ.normal_add_reserved
  have hle := h.le_owned
  have hmax := h.owned_le
  have hnorm := h.normal
  have hb := h₀.nbufs
  have hm := h₀.nmax
  have hnext : ∀ (p : Pool) (a : Addr),
      (σ.settle x r (p, .got a)).normal = σ.normal + if r = true then 0 else 1 := by
    intro p a
    cases r <;> simp [PoolUsers.settle, PoolUsers.normal]
  cases hs with
  | @free p a hnot ho hkept hlt =>
      refine ⟨hk, by simp only [PoolUsers.settle]; omega, by simp only [PoolUsers.settle]; omega, ?_⟩
      rw [hnext]
      split <;> omega
  | @grown p a hnot ho hgrow hall =>
      have hlow : σ.pool.owned < nmax ∧ (r = false → (σ.pool.owned : ℤ) + reserve < nmax) := by
        rcases hgrow with hlow | ⟨rfl, -, hlow⟩
        · have := hbelow.1 hlow
          exact ⟨by omega, fun _ => this⟩
        · exact ⟨by omega, fun e => by cases e⟩
      refine ⟨hk, by simp only [PoolUsers.settle]; omega, by simp only [PoolUsers.settle]; omega, ?_⟩
      rw [hnext]
      cases r with
      | false =>
          have := hlow.2 rfl
          rw [if_neg Bool.false_ne_true]
          omega
      | true =>
          rw [if_pos rfl]
          omega
  | none _ _ => cases noblock <;> exact ⟨hk, hle, hmax, hnorm⟩

/-- A get, up to its return or its wait. -/
theorem getLoop (h : Reserving nbufs reserve nmax σ) (hm : PoolAction.Fresh σ malloc) (x : World)
    (r noblock : Bool) :
    ∃ e, σ.pool.bufpoolGet r noblock malloc = some e ∧ σ.pool.getLoop r noblock malloc = some e ∧
      Reserving nbufs reserve nmax (σ.settle x r e) ∧ Stretch σ r noblock malloc e := by
  obtain ⟨free, hk⟩ := h.kept
  have hne : ¬(r = true ∧ σ.pool.reserve = 0) := by
    rw [hk.reserve]
    omega
  obtain ⟨e, free', hget, hk', hs⟩ := hk.getLoop hm x r noblock
  exact ⟨e, by rw [Pool.bufpoolGet, if_neg hne, hget], hget, h.stretch hr hsum hs ⟨free', hk'⟩, hs⟩

/-- A wait ends, and it gets a buffer or waits on. -/
theorem recheck (h : Reserving nbufs reserve nmax σ) (hm : PoolAction.Fresh σ malloc) (x : World)
    (r : Bool) :
    ∃ e, σ.pool.recheck r malloc = some e ∧ Reserving nbufs reserve nmax (σ.settle x r e) ∧
      (Stretch σ r false malloc e ∨ ¬σ.pool.MayRetry r ∧ e = (σ.pool, .waits)) := by
  by_cases hretry : σ.pool.MayRetry r
  · obtain ⟨e, -, hget, hr', hs⟩ := h.getLoop hr hsum hm x r false
    exact ⟨e, by rw [Pool.recheck, if_pos hretry, hget], hr', .inl hs⟩
  · obtain ⟨free, hk⟩ := h.kept
    exact ⟨(σ.pool, .waits), by rw [Pool.recheck, if_neg hretry],
      ⟨⟨free, hk.owns, hk.nbufs, hk.reserve, hk.nmax⟩, h.le_owned, h.owned_le, h.normal⟩,
      .inr ⟨hretry, rfl⟩⟩

/-- **Every step keeps the reserve**, and none fails. -/
theorem step (h : Reserving nbufs reserve nmax σ) (he : act.Enabled σ) :
    ∃ σ', act.exec σ = some σ' ∧ Reserving nbufs reserve nmax σ' := by
  obtain ⟨free, hk⟩ := h.kept
  cases act with
  | get x r noblock malloc =>
      obtain ⟨e, hget, -, hr', -⟩ := h.getLoop hr hsum he.2 x r noblock
      exact ⟨σ.settle x r e, by simp [PoolAction.exec, hget], hr'⟩
  | recheck x malloc =>
      obtain ⟨r, hx⟩ := Option.ne_none_iff_exists'.1 he.1
      obtain ⟨e, hget, hr', -⟩ := h.recheck hr hsum he.2 x r
      exact ⟨σ.settle x r e, by simp [PoolAction.exec, hx, hget], hr'⟩
  | put b =>
      obtain ⟨σ', hput, hr', -⟩ := h.put he
      exact ⟨σ', hput, hr'⟩
  | write b next prev =>
      exact ⟨_, rfl, ⟨free, hk.write he next prev⟩, h.le_owned, h.owned_le, h.normal⟩

end

/-- **While less than `reserve` buffers of the reserve are in use a reserve
get has a buffer at once**: with none on the free list the pool owns less
than `nmax`. The heap refuses memory only to a pool that owns `nmax`. -/
theorem get (h : Reserving nbufs reserve nmax σ) (hr : 0 < reserve) (hg : nbufs + reserve ≤ nmax)
    (hlt : (σ.reserved : ℤ) < reserve) (noblock : Bool)
    (hmalloc : malloc = none → nmax ≤ σ.pool.owned) :
    ∃ p a, σ.pool.bufpoolGet true noblock malloc = some (p, .got a) := by
  obtain ⟨free, hk⟩ := h.kept
  have hne : ¬(true = true ∧ σ.pool.reserve = 0) := by
    rw [hk.reserve]
    omega
  rw [Pool.bufpoolGet, if_neg hne]
  rcases hk.owns.getLoop true noblock malloc with
    ⟨xs, a, -, hget⟩ | ⟨a, -, -, -, hget⟩ | ⟨hnil, hnone, -⟩
  · exact ⟨_, a, hget⟩
  · exact ⟨_, a, hget⟩
  · have hlen := hk.length
    have hfree : free = [] := hnil
    rw [hfree, List.length_nil, ← σ.normal_add_reserved] at hlen
    have hnorm := h.normal
    have hres := hk.reserve
    have hm := hk.nmax
    have hgrow : σ.pool.MayGrow true := .inr ⟨rfl, by omega, by omega⟩
    have := hmalloc (hnone hgrow)
    omega

/-- The reserve is kept in every run. -/
theorem inductive_full (hr : 0 < reserve) (hg : nbufs + reserve ≤ nmax) (hf : HeapFits nmax) :
    (fullPool nbufs reserve nmax).Inductive (Reserving nbufs reserve nmax) where
  init := by
    rintro σ ⟨p, hp, ho, rfl⟩
    obtain ⟨⟨free, hown, -, -⟩, hb, hres, hm, hle⟩ := hp.owns
    refine ⟨⟨free, hown, hb, hres, hm⟩, by simp only; omega, by simp only; omega, ?_⟩
    simp only [PoolUsers.normal, List.countP_nil]
    omega
  step _ _ h he := h.step hr (by unfold HeapFits at hf; omega) he

end Reserving

/-- A run of `fullPool` is in a heap that fits. -/
theorem heapFits_of_fullPool (h : (fullPool nbufs reserve nmax).Reachable σ) : HeapFits nmax := by
  induction h with
  | init hi =>
      obtain ⟨p, hp, -, -⟩ := hi
      exact hp.1
  | step _ _ _ ih => exact ih

end Vmk

end VmwareProto
