import VmwareProto.Vmk.Pool
import Mathlib.Data.List.Induction
/-!
# The accounts of a VMkernel pool

`Owns p lists held` accounts for every buffer: it is on the free list or in
use, and the counters agree. A buffer in use may be in the list of work
items. As with the pool of the other side, beyond `nbufs` nothing is kept on
the free list: whatever is there, `owned` is at most `nbufs`.
-/

namespace VmwareProto

namespace Vmk

/-- **The accounts of a pool**: `lists .freelist` is its free list, `held`
is in use. -/
structure Owns (p : Pool) (lists : Head → List Addr) (held : List Addr) : Prop where
  rings : p.links.Rings lists
  qlen : p.qlen = (lists .freelist).length
  nodup : held.Nodup
  apart : ∀ a ∈ lists .freelist, a ∉ held
  work : ∀ a ∈ lists .work, a ∈ held
  issued : p.issued = held.length
  owned : p.owned = p.issued + (lists .freelist).length
  surplus : p.nbufs < p.owned → lists .freelist = []
  live : ∀ a, a ∈ lists .freelist ∨ a ∈ held → p.live a = true
  state : p.state = .initialized

variable {p p' : Pool} {lists : Head → List Addr} {held xs : List Addr} {a : Addr}
  {r noblock : Bool} {malloc : Option Addr}

namespace Owns

/-- What the accounts do not depend on. -/
theorem congr (h : Owns p lists held) (hl : p'.links = p.links) (hq : p'.qlen = p.qlen)
    (hi : p'.issued = p.issued) (ho : p'.owned = p.owned) (hb : p'.nbufs = p.nbufs)
    (hv : p'.live = p.live) (hs : p'.state = p.state) : Owns p' lists held :=
  ⟨by rw [hl]; exact h.rings, hq.trans h.qlen, h.nodup, h.apart, h.work, hi.trans h.issued,
    by rw [ho, hi]; exact h.owned, by rw [hb, ho]; exact h.surplus, by rw [hv]; exact h.live,
    hs.trans h.state⟩

/-- **`q_len` is at most `nbufs`**, an `int` of those that set a pool up. -/
theorem qlen_le (h : Owns p lists held) : p.qlen ≤ p.nbufs := by
  have ho := h.owned
  have hq := h.qlen
  rcases Nat.lt_or_ge p.nbufs p.owned with hlt | hle
  · rw [hq, h.surplus hlt]
    exact Int.natCast_nonneg _
  · omega

/-- Links that change only the work items. -/
theorem relink {links : Memory} {lists' : Head → List Addr} (h : Owns p lists held)
    (hr : links.Rings lists') (hf : lists' .freelist = lists .freelist)
    (hw : ∀ a ∈ lists' .work, a ∈ held) : Owns { p with links := links } lists' held :=
  ⟨hr, by rw [hf]; exact h.qlen, h.nodup, by rw [hf]; exact h.apart, hw, h.issued,
    by rw [hf]; exact h.owned, by rw [hf]; exact h.surplus, by rw [hf]; exact h.live, h.state⟩

/-- Memory that is not in use is in no list. -/
theorem fresh (h : Owns p lists held) (ha : p.live a = false) :
    a ∉ held ∧ ∀ g, a ∉ lists g := by
  have hheld : a ∉ held := fun hm => by
    rw [h.live a (.inr hm)] at ha
    cases ha
  refine ⟨hheld, fun g hg => ?_⟩
  cases g with
  | freelist =>
      rw [h.live a (.inl hg)] at ha
      cases ha
  | work => exact hheld (h.work a hg)

/-- What is held and no work item is in no list. -/
theorem unlisted (h : Owns p lists held) (ha : a ∈ held) (hw : a ∉ lists .work) :
    ∀ g, a ∉ lists g := by
  intro g hg
  cases g with
  | freelist => exact h.apart a hg ha
  | work => exact hw hg

end Owns

/-! ## `_bufpool_get` -/

/-- `_bufpool_get` from the free list. -/
def Pool.pop (p : Pool) (a : Addr) : Pool :=
  { p with links := p.links.rem (.elem a), qlen := p.qlen - 1, issued := p.issued + 1 }

/-- `_bufpool_get` from `malloc`. -/
def Pool.grow (p : Pool) (a : Addr) : Pool :=
  { p with live := Function.update p.live a true, owned := p.owned + 1, issued := p.issued + 1 }

/-- **All that `_bufpool_get` can do** from the top of its loop: it takes
the last free buffer; with none free and the counters allowing it, a new
one; else it gives up. -/
theorem Owns.getLoop (h : Owns p lists held) (r noblock : Bool) (malloc : Option Addr) :
    (∃ xs a, lists .freelist = xs ++ [a] ∧
      p.getLoop r noblock malloc = some (p.pop a, .got a)) ∨
    (∃ a, lists .freelist = [] ∧ p.MayGrow r ∧ malloc = some a ∧
      p.getLoop r noblock malloc = some (p.grow a, .got a)) ∨
    (lists .freelist = [] ∧ (p.MayGrow r → malloc = none) ∧
      p.getLoop r noblock malloc = some (p.giveUp noblock)) := by
  have hstate : ¬p.state ≠ .initialized := not_not.2 h.state
  rcases List.eq_nil_or_concat (lists .freelist) with hnil | ⟨xs, a, hxs⟩
  · have hrem : p.queueRem = some (p, none) := by
      rw [Pool.queueRem, if_pos ((h.rings.isEmpty_head_iff .freelist).2 hnil)]
    by_cases hgrow : p.MayGrow r
    · cases malloc with
      | none => exact .inr (.inr ⟨hnil, fun _ => rfl, by simp [Pool.getLoop, hstate, hrem]⟩)
      | some a =>
          refine .inr (.inl ⟨a, hnil, hgrow, rfl, ?_⟩)
          simp [Pool.getLoop, hstate, hrem, hgrow, Pool.grow]
    · refine .inr (.inr ⟨hnil, fun hg => absurd hg hgrow, ?_⟩)
      simp [Pool.getLoop, hstate, hrem, hgrow]
  · rw [List.concat_eq_append] at hxs
    have hne : ¬p.links.isEmpty (.head .freelist) = true := fun e => by
      rw [(h.rings.isEmpty_head_iff .freelist).1 e] at hxs
      simp at hxs
    have hlen : ¬p.qlen - 1 < 0 := by
      have := h.qlen
      rw [hxs, List.length_append, List.length_singleton] at this
      omega
    have hrem : p.queueRem =
        some ({ p with links := p.links.rem (.elem a), qlen := p.qlen - 1 }, some a) := by
      rw [Pool.queueRem, if_neg hne, h.rings.prev_head hxs]
      exact if_neg hlen
    exact .inl ⟨xs, a, hxs, by simp [Pool.getLoop, hstate, hrem, Pool.pop]⟩

theorem Owns.pop (h : Owns p lists held) (hxs : lists .freelist = xs ++ [a]) :
    Owns (p.pop a) (Function.update lists .freelist ((lists .freelist).erase a)) (a :: held) := by
  have ha : a ∈ lists .freelist := by simp [hxs]
  have hlen := List.length_erase_of_mem ha
  have hpos := List.length_pos_of_mem ha
  have hq := h.qlen
  have hi := h.issued
  have ho := h.owned
  have hnd := h.rings.nodup .freelist
  refine ⟨h.rings.rem ha, ?_, List.nodup_cons.2 ⟨h.apart a ha, h.nodup⟩, fun b hb => ?_, fun b hb => ?_,
    ?_, ?_, fun hlt => ?_, fun b hb => h.live b ?_, h.state⟩
  · rw [Function.update_self]
    simp only [Pool.pop]
    omega
  · rw [Function.update_self, hnd.mem_erase_iff] at hb
    rw [List.mem_cons, not_or]
    exact ⟨hb.1, h.apart b hb.2⟩
  · rw [Function.update_of_ne (by simp)] at hb
    exact List.mem_cons_of_mem _ (h.work b hb)
  · simp only [Pool.pop, List.length_cons]
    omega
  · rw [Function.update_self]
    simp only [Pool.pop]
    omega
  · rw [h.surplus hlt] at ha
    cases ha
  · rcases hb with hb | hb
    · rw [Function.update_self] at hb
      exact .inl (List.mem_of_mem_erase hb)
    · rcases List.mem_cons.1 hb with rfl | hb
      · exact .inl ha
      · exact .inr hb

theorem Owns.grow (h : Owns p lists held) (hnil : lists .freelist = []) (ha : p.live a = false) :
    Owns (p.grow a) lists (a :: held) := by
  have hi := h.issued
  have ho := h.owned
  refine ⟨h.rings, h.qlen, List.nodup_cons.2 ⟨(h.fresh ha).1, h.nodup⟩, by simp [hnil],
    fun b hb => List.mem_cons_of_mem _ (h.work b hb), ?_, ?_, fun _ => hnil, fun b hb => ?_, h.state⟩
  · simp only [Pool.grow, List.length_cons]
    omega
  · simp only [Pool.grow]
    omega
  · simp only [Pool.grow, Function.update_apply]
    split
    · rfl
    · refine h.live b ?_
      simpa [‹b ≠ a›] using hb

/-! ## `bufpool_put` -/

/-- A held buffer is its holder's to write. -/
theorem Owns.scribble (h : Owns p lists held) (ha : ∀ g, a ∉ lists g) (next prev : Node Head Addr) :
    Owns (p.scribble a next prev) lists held := by
  refine ⟨h.rings.frame (fun g => ?_) fun g b hb => ?_, h.qlen, h.nodup, h.apart, h.work, h.issued,
    h.owned, h.surplus, h.live, h.state⟩
  · simp [Pool.scribble, Links.setNext, Links.setPrev]
  · have hba : b ≠ a := fun e => ha g (e ▸ hb)
    simp [Pool.scribble, Links.setNext, Links.setPrev, hba]

/-- `bufpool_put` to the free list. -/
def Pool.requeue (p : Pool) (a : Addr) : Pool := { p with issued := p.issued - 1 }.queueAdd a

/-- `bufpool_put` by `free`. -/
def Pool.discard (p : Pool) (a : Addr) : Pool :=
  { p with
    issued := p.issued - 1, live := Function.update p.live a false, owned := p.owned - 1 }

/-- **All that `bufpool_put` can do.** -/
theorem bufpoolPut_cases (p : Pool) (a : Addr) :
    (p.owned ≤ p.nbufs ∧ p.bufpoolPut a = some (p.requeue a)) ∨
    (p.nbufs < p.owned ∧ p.bufpoolPut a = some (p.discard a)) := by
  rcases Nat.lt_or_ge p.nbufs p.owned with hlt | hle
  · refine .inr ⟨hlt, ?_⟩
    simp only [Pool.bufpoolPut]
    rw [if_neg (by omega), if_neg (by omega), Pool.discard]
  · exact .inl ⟨hle, if_pos hle⟩

theorem Owns.requeue (h : Owns p lists held) (ha : a ∈ held) (hw : a ∉ lists .work)
    (hle : p.owned ≤ p.nbufs) :
    Owns (p.requeue a) (Function.update lists .freelist (a :: lists .freelist)) (held.erase a) := by
  have hnot := h.unlisted ha hw
  have hlen := List.length_erase_of_mem ha
  have hpos := List.length_pos_of_mem ha
  have hq := h.qlen
  have hi := h.issued
  have ho := h.owned
  refine ⟨(h.rings.init hnot).add hnot .freelist, ?_, h.nodup.erase a, fun b hb => ?_, fun b hb => ?_,
    ?_, ?_, fun hlt => absurd hlt (Nat.not_lt.2 hle), fun b hb => h.live b ?_, h.state⟩
  · rw [Function.update_self]
    simp only [Pool.requeue, Pool.queueAdd, List.length_cons]
    omega
  · rw [Function.update_self] at hb
    rcases List.mem_cons.1 hb with rfl | hb
    · exact h.nodup.not_mem_erase
    · exact fun hm => h.apart b hb (List.mem_of_mem_erase hm)
  · rw [Function.update_of_ne (by simp)] at hb
    have hba : b ≠ a := fun e => hw (e ▸ hb)
    exact (List.mem_erase_of_ne hba).2 (h.work b hb)
  · simp only [Pool.requeue, Pool.queueAdd]
    omega
  · rw [Function.update_self]
    simp only [Pool.requeue, Pool.queueAdd, List.length_cons]
    omega
  · rcases hb with hb | hb
    · rw [Function.update_self] at hb
      rcases List.mem_cons.1 hb with rfl | hb
      · exact .inr ha
      · exact .inl hb
    · exact .inr (List.mem_of_mem_erase hb)

theorem Owns.discard (h : Owns p lists held) (ha : a ∈ held) (hw : a ∉ lists .work)
    (hlt : p.nbufs < p.owned) : Owns (p.discard a) lists (held.erase a) := by
  have hnil := h.surplus hlt
  have hlen := List.length_erase_of_mem ha
  have hpos := List.length_pos_of_mem ha
  have hi := h.issued
  have ho := h.owned
  refine ⟨h.rings, h.qlen, h.nodup.erase a, by simp [hnil], fun b hb => ?_, ?_, ?_, fun _ => hnil,
    fun b hb => ?_, h.state⟩
  · have hba : b ≠ a := fun e => hw (e ▸ hb)
    exact (List.mem_erase_of_ne hba).2 (h.work b hb)
  · simp only [Pool.discard]
    omega
  · simp only [Pool.discard]
    omega
  · have hb : b ∈ held.erase a := by simpa [hnil] using hb
    have hba : b ≠ a := fun e => h.nodup.not_mem_erase (e ▸ hb)
    simp only [Pool.discard, Function.update_of_ne hba]
    exact h.live b (.inr (List.mem_of_mem_erase hb))

/-- **A buffer comes back.** -/
theorem Owns.put (h : Owns p lists held) (ha : a ∈ held) (hw : a ∉ lists .work) :
    ∃ p' lists', p.bufpoolPut a = some p' ∧ Owns p' lists' (held.erase a) ∧
      lists' .work = lists .work ∧ p'.nbufs = p.nbufs ∧ p'.nmax = p.nmax ∧ p'.reserve = p.reserve ∧
      (p'.owned = p.owned ∨ p.nbufs < p.owned ∧ p'.owned = p.owned - 1) := by
  rcases bufpoolPut_cases p a with ⟨hle, hput⟩ | ⟨hlt, hput⟩
  · exact ⟨_, _, hput, h.requeue ha hw hle, Function.update_of_ne (by simp) .., rfl, rfl, rfl, .inl rfl⟩
  · exact ⟨_, _, hput, h.discard ha hw hlt, rfl, rfl, rfl, rfl, .inr ⟨hlt, rfl⟩⟩

/-! ## The start -/

/-- Lists of which only the free list has buffers. -/
def onlyFree (free : List Addr) : Head → List Addr
  | .freelist => free
  | .work => []

theorem update_onlyFree (free free' : List Addr) :
    Function.update (onlyFree free) .freelist free' = onlyFree free' := by
  funext g
  cases g with
  | freelist => exact Function.update_self ..
  | work => exact Function.update_of_ne (by simp) ..

theorem notMem_onlyFree {free : List Addr} (ha : a ∉ free) : ∀ g, a ∉ onlyFree free g := by
  intro g
  cases g with
  | freelist => exact ha
  | work => exact List.not_mem_nil

/-- The pool inside the loop of `bufpool_init_reserve`, with the buffers it
has so far. -/
structure Filling (malloc : ℕ → Option Addr) (nbufs : ℕ) (reserve : ℤ) (nmax : ℕ) (p : Pool)
    (free : List Addr) : Prop where
  rings : p.links.Rings (onlyFree free)
  qlen : p.qlen = free.length
  owned : p.owned = free.length
  origin : ∀ a ∈ free, ∃ i < p.owned, malloc i = some a
  live : ∀ a ∈ free, p.live a = true
  rest : { p with links := ⟨id, id⟩, live := fun _ => false, owned := 0, qlen := 0 } =
    { Pool.empty nbufs reserve nmax with links := ⟨id, id⟩, live := fun _ => false }

variable {malloc : ℕ → Option Addr} {nbufs nmax : ℕ} {reserve : ℤ} {free : List Addr}

/-- One round of the loop. -/
theorem Filling.step (hinj : ∀ i j a, malloc i = some a → malloc j = some a → i = j)
    (h : Filling malloc nbufs reserve nmax p free) (ha : malloc p.owned = some a) :
    Filling malloc nbufs reserve nmax
      { p.queueAdd a with owned := p.owned + 1, live := Function.update p.live a true }
      (a :: free) := by
  have hnew : a ∉ free := fun hm => by
    obtain ⟨i, hi, hai⟩ := h.origin a hm
    have := hinj i p.owned a hai ha
    omega
  have hnot := notMem_onlyFree hnew
  have hrings := (h.rings.init hnot).add hnot .freelist
  rw [update_onlyFree] at hrings
  have hq := h.qlen
  have ho := h.owned
  refine ⟨hrings, ?_, by simp [ho], fun b hb => ?_, fun b hb => ?_, h.rest⟩
  · simp only [Pool.queueAdd, List.length_cons]
    omega
  · rcases List.mem_cons.1 hb with rfl | hb
    · exact ⟨p.owned, Nat.lt_succ_self _, ha⟩
    · obtain ⟨i, hi, hai⟩ := h.origin b hb
      exact ⟨i, Nat.lt_succ_of_lt hi, hai⟩
  · rcases List.mem_cons.1 hb with rfl | hb
    · exact Function.update_self ..
    · have hne : b ≠ a := fun e => hnew (e ▸ hb)
      exact (Function.update_of_ne hne true p.live).trans (h.live b hb)

/-- The loop, from any round on. -/
theorem Filling.fill (hinj : ∀ i j a, malloc i = some a → malloc j = some a → i = j) (k : ℕ)
    (h : Filling malloc nbufs reserve nmax p free) :
    ∃ free', Filling malloc nbufs reserve nmax (Pool.fill malloc k p) free' ∧
      free'.length ≤ free.length + k := by
  induction k generalizing p free with
  | zero => exact ⟨free, h, Nat.le_refl _⟩
  | succ k ih =>
      rw [Pool.fill]
      split
      · exact ⟨free, h, by omega⟩
      · rename_i a ha
        obtain ⟨free', hf, hlen⟩ := ih (h.step hinj ha)
        refine ⟨free', hf, ?_⟩
        rw [List.length_cons] at hlen
        omega

/-- What the loop leaves is a pool: its buffers are all on the free list, as
many as it asked for or less. -/
theorem owns_bufpoolInitReserve (hinj : ∀ i j a, malloc i = some a → malloc j = some a → i = j)
    (hp : Pool.bufpoolInitReserve nbufs reserve nmax malloc = some p) :
    (∃ free, Owns p (onlyFree free) [] ∧ p.owned = free.length ∧ free.length ≤ nbufs) ∧
      p.nbufs = nbufs ∧ p.reserve = reserve ∧ p.nmax = nmax ∧ nbufs ≤ nmax := by
  rw [Pool.bufpoolInitReserve] at hp
  split at hp
  · rename_i hle
    obtain rfl := Option.some.inj hp
    have h₀ : Filling malloc nbufs reserve nmax (Pool.empty nbufs reserve nmax) [] := by
      have hself : onlyFree [] = fun _ => [] := by
        funext g
        cases g <;> rfl
      have hlinks : (Pool.empty nbufs reserve nmax).links = ⟨id, id⟩ := by
        simp only [Pool.empty, Links.init, Links.setNext, Links.setPrev]
        congr 1 <;> exact Function.update_eq_self ..
      refine ⟨?_, rfl, rfl, by simp, by simp, rfl⟩
      rw [hself, hlinks]
      exact Links.rings_self
    obtain ⟨free, hf, hlen⟩ := h₀.fill hinj nbufs
    generalize Pool.fill malloc nbufs (Pool.empty nbufs reserve nmax) = p at hf
    have hrest := hf.rest
    simp only [Pool.empty, Pool.mk.injEq] at hrest
    obtain ⟨-, -, hi, -, hb, hm, hr, hs, -⟩ := hrest
    have ho := hf.owned
    simp only [List.length_nil, Nat.zero_add] at hlen
    refine ⟨⟨free, ⟨hf.rings, hf.qlen, .nil, by simp, by simp [onlyFree], hi, ?_, fun hlt => ?_,
      fun a ha => hf.live a (ha.resolve_right List.not_mem_nil), hs⟩, ho, hlen⟩, hb, hr, hm, hle.2⟩
    · rw [hi, ho, Nat.zero_add]
      rfl
    · omega
  · cases hp

/-- **A new pool**, in a heap that fits. -/
theorem Initialised.owns (h : Initialised nbufs reserve nmax p) :
    (∃ free, Owns p (onlyFree free) [] ∧ p.owned = free.length ∧ free.length ≤ nbufs) ∧
      p.nbufs = nbufs ∧ p.reserve = reserve ∧ p.nmax = nmax ∧ nbufs ≤ nmax := by
  obtain ⟨-, malloc, hinj, hp⟩ := h
  exact owns_bufpoolInitReserve hinj hp

/-- A `malloc` that succeeds `k` times. -/
def firstBufs (k i : ℕ) : Option Addr := if i < k then some i else none

/-- A pool nobody has used, of whose `nbufs` requests the first `k` were
granted. -/
def startPool (nbufs : ℕ) (reserve : ℤ) (nmax k : ℕ) : PoolUsers where
  pool := Pool.fill (firstBufs k) nbufs (Pool.empty nbufs reserve nmax)
  waiting _ := none
  held := []

theorem startPool_initialised (hf : HeapFits nmax) (hn : 0 < nbufs) (hle : nbufs ≤ nmax) (k : ℕ) :
    Initialised nbufs reserve nmax (startPool nbufs reserve nmax k).pool := by
  refine ⟨hf, firstBufs k, fun i j a hi hj => ?_, if_pos ⟨hn, hle⟩⟩
  unfold firstBufs at hi hj
  split at hi <;> split at hj <;> simp_all

end Vmk

end VmwareProto
