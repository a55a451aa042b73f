import VmwareProto.Vmk.Reserve
/-!
# Waiting getters of a VMkernel pool

`_bufpool_get` states its condition twice. The top of the loop looks at the
free list first; the inner loop, which a waiting getter stays in, tests the
counters alone. A getter that waits while a buffer comes back to the free
list leaves the inner loop only if the pool may still grow. It may, as long
as the free list is in use, exactly when every `owned` from 1 to `nbufs` is
below the reserve.
-/

namespace VmwareProto

namespace Vmk

variable {nbufs nmax : ℕ} {reserve : ℤ} {σ σ' : PoolUsers} {x : World} {r : Bool}
  {malloc : Option Addr} {free : List Addr}

/-- The two conditions agree: whenever a get that does not block would
return a buffer, a getter of its kind that waits returns one when it
rechecks, from the same answer of `malloc`. -/
def RecheckAgrees (nbufs : ℕ) (reserve : ℤ) (nmax : ℕ) : Prop :=
  ∀ σ, (reservePool nbufs reserve nmax).Reachable σ → ∀ x r malloc p a,
    σ.waiting x = some r → σ.pool.bufpoolGet r true malloc = some (p, .got a) →
    ∃ p' a', σ.pool.recheck r malloc = some (p', .got a')

/-- The free list may be in use with any `owned` from 1 to `nbufs`: then the
pool may grow all the same. -/
def GrowsWhileFree (nbufs : ℕ) (reserve : ℤ) (nmax : ℕ) : Prop :=
  ∀ k : ℕ, 1 ≤ k → k ≤ nbufs → sizeT (k + reserve) < nmax

/-- The accounts hold in every run. -/
theorem kept_of_reachable (h : (reservePool nbufs reserve nmax).Reachable σ) :
    ∃ free, Kept nbufs reserve nmax σ free := by
  refine System.Reachable.invariant (I := fun σ => ∃ free, Kept nbufs reserve nmax σ free)
    (fun σ hi => ?_) (fun σ act σ' hI he hx => ?_) h
  · obtain ⟨p, hp, rfl⟩ := hi
    obtain ⟨⟨free, hown, -, -⟩, hb, hres, hm, -⟩ := hp.owns
    exact ⟨free, hown, hb, hres, hm⟩
  · obtain ⟨free, hk⟩ := hI
    cases act with
    | get x r noblock malloc =>
        obtain ⟨e, free', hget, hk', -⟩ := hk.getLoop he.2 x r noblock
        obtain ⟨e', hget', rfl⟩ := Option.map_eq_some_iff.1 hx
        rw [Pool.bufpoolGet] at hget'
        split at hget'
        · cases hget'
        · rw [hget] at hget'
          obtain rfl := Option.some.inj hget'
          exact ⟨free', hk'⟩
    | recheck x malloc =>
        obtain ⟨r, -, hx⟩ := Option.bind_eq_some_iff.1 hx
        obtain ⟨e, hget, hx⟩ := Option.bind_eq_some_iff.1 hx
        obtain rfl := Option.some.inj hx
        rw [Pool.recheck] at hget
        split at hget
        · obtain ⟨e', free', hget', hk', -⟩ := hk.getLoop he.2 x r false
          rw [hget'] at hget
          obtain rfl := Option.some.inj hget
          exact ⟨free', hk'⟩
        · obtain rfl := Option.some.inj hget
          exact ⟨free, hk.owns, hk.nbufs, hk.reserve, hk.nmax⟩
    | put b =>
        obtain ⟨σ'', free', hput, hk', -⟩ := hk.put he
        have hx : (PoolAction.put b).exec σ = some σ' := hx
        rw [hput] at hx
        obtain rfl := Option.some.inj hx
        exact ⟨free', hk'⟩
    | write b next prev =>
        obtain rfl := Option.some.inj hx
        exact ⟨free, hk.write he next prev⟩

/-- A pool that may grow with its free list in use agrees with itself. -/
theorem recheckAgrees_of_grows (hg : GrowsWhileFree nbufs reserve nmax) :
    RecheckAgrees nbufs reserve nmax := by
  intro σ hσ x r malloc p a _ hget
  obtain ⟨free, hk⟩ := kept_of_reachable hσ
  rw [Pool.bufpoolGet] at hget
  split at hget
  · cases hget
  · rcases hk.owns.getLoop r false malloc with
      ⟨xs, b, hxs, hloop⟩ | ⟨b, -, hgrow, -, hloop⟩ | ⟨hnil, hnone, -⟩
    · -- with a free buffer `owned` is one of the `k`
      have hpos : 0 < σ.pool.owned := by
        have ho := hk.owns.owned
        rw [hxs, List.length_append, List.length_singleton] at ho
        omega
      have hle : σ.pool.owned ≤ nbufs := by
        by_contra hlt
        rw [hk.owns.surplus (by rw [hk.nbufs]; omega)] at hxs
        simp at hxs
      have hbelow : σ.pool.BelowReserve := by
        rw [Pool.BelowReserve, hk.reserve, hk.nmax]
        exact hg _ hpos hle
      exact ⟨_, b, by rw [Pool.recheck, if_pos (.inr hbelow), hloop]⟩
    · have hretry : σ.pool.MayRetry r := by
        rcases hgrow with hbelow | ⟨hr, -, hlt⟩
        exacts [.inr hbelow, .inl ⟨hr, hlt⟩]
      exact ⟨_, b, by rw [Pool.recheck, if_pos hretry, hloop]⟩
    · rcases hk.owns.getLoop r true malloc with
        ⟨xs, b, hxs, -⟩ | ⟨b, -, hgrow, hm, -⟩ | ⟨-, -, hloop⟩
      · rw [hnil] at hxs
        simp at hxs
      · rw [hnone hgrow] at hm
        cases hm
      · rw [hloop] at hget
        cases hget

/-! ## The getter left behind -/

/-- One world takes every free buffer. -/
theorem drain (hσ : (reservePool nbufs reserve nmax).Reachable σ)
    (hk : Kept nbufs reserve nmax σ free) (hw : σ.waiting = fun _ => none) :
    ∃ σ', (reservePool nbufs reserve nmax).Reachable σ' ∧ Kept nbufs reserve nmax σ' [] ∧
      σ'.waiting = (fun _ => none) ∧ σ'.pool.owned = σ.pool.owned := by
  induction hn : free.length generalizing σ free with
  | zero =>
      obtain rfl := List.length_eq_zero_iff.1 hn
      exact ⟨σ, hσ, hk, hw, rfl⟩
  | succ n ih =>
      rcases hk.owns.getLoop false false none with
        ⟨xs, a, hxs, hloop⟩ | ⟨a, -, -, hm, -⟩ | ⟨hnil, -, -⟩
      · have hex : (PoolAction.get 0 false false none).exec σ =
            some (σ.settle 0 false (σ.pool.pop a, .got a)) := by
          simp [PoolAction.exec, Pool.bufpoolGet, hloop]
        have hp := hk.owns.pop hxs
        rw [update_onlyFree] at hp
        have hlen : (free.erase a).length = n := by
          have ha : a ∈ free := by
            have hxs : free = xs ++ [a] := hxs
            simp [hxs]
          rw [List.length_erase_of_mem ha, hn, Nat.add_sub_cancel]
        have he : (PoolAction.get 0 false false none).Enabled σ := ⟨by rw [hw], by simp [PoolAction.Fresh]⟩
        obtain ⟨σ', hσ', hk', hw', ho'⟩ := ih (σ := σ.settle 0 false (σ.pool.pop a, .got a))
          (hσ.step (a := .get 0 false false none) he hex) ⟨hp, hk.nbufs, hk.reserve, hk.nmax⟩
          (by simp only [PoolUsers.settle, hw]; exact Function.update_eq_self ..) hlen
        exact ⟨σ', hσ', hk', hw', ho'⟩
      · cases hm
      · have hnil : free = [] := hnil
        rw [hnil] at hn
        cases hn

theorem fill_owned (k n : ℕ) (p : Pool) (h : p.owned ≤ k) :
    (Pool.fill (firstBufs k) n p).owned = min k (p.owned + n) := by
  induction n generalizing p with
  | zero =>
      rw [Pool.fill]
      omega
  | succ n ih =>
      rw [Pool.fill]
      rcases Nat.lt_or_ge p.owned k with hlt | hge
      · rw [firstBufs, if_pos hlt]
        have hlt' : p.owned + 1 ≤ k := hlt
        refine (ih _ hlt').trans ?_
        simp only
        omega
      · rw [firstBufs, if_neg (by omega)]
        simp only
        omega

/-- All the buffers out, a getter comes to wait and a buffer is put back. -/
theorem wait_behind (hσ : (reservePool nbufs reserve nmax).Reachable σ)
    (hk : Kept nbufs reserve nmax σ []) (hw : σ.waiting = fun _ => none) (hpos : 0 < σ.pool.owned)
    (hle : σ.pool.owned ≤ nbufs) :
    ∃ σ' free, (reservePool nbufs reserve nmax).Reachable σ' ∧ Kept nbufs reserve nmax σ' free ∧
      free ≠ [] ∧ σ'.waiting 1 = some false ∧ σ'.pool.owned = σ.pool.owned := by
  rcases hk.owns.getLoop false false none with
    ⟨xs, a, hxs, -⟩ | ⟨a, -, -, hmalloc, -⟩ | ⟨-, -, hloop⟩
  · have hxs : [] = xs ++ [a] := hxs
    simp at hxs
  · cases hmalloc
  · have he : (reservePool nbufs reserve nmax).enabled σ (.get 1 false false none) :=
      ⟨by rw [hw], by simp [PoolAction.Fresh]⟩
    have hex : (reservePool nbufs reserve nmax).exec σ (.get 1 false false none) =
        some (σ.settle 1 false (σ.pool.giveUp false)) := by
      simp [reservePool, PoolAction.exec, Pool.bufpoolGet, hloop]
    have hσ₂ := hσ.step he hex
    have hk₂ : Kept nbufs reserve nmax (σ.settle 1 false (σ.pool.giveUp false)) [] :=
      ⟨hk.owns, hk.nbufs, hk.reserve, hk.nmax⟩
    have hw₂ : (σ.settle 1 false (σ.pool.giveUp false)).waiting 1 = some false := by
      simp [PoolUsers.settle, Pool.giveUp]
    have ho₂ : (σ.settle 1 false (σ.pool.giveUp false)).pool.owned = σ.pool.owned := rfl
    generalize σ.settle 1 false (σ.pool.giveUp false) = σ₂ at hσ₂ hk₂ hw₂ ho₂
    have hlen := hk₂.length
    rw [List.length_nil, Nat.add_zero] at hlen
    obtain ⟨b, held, hheld⟩ : ∃ b held, σ₂.held = b :: held :=
      List.exists_cons_of_ne_nil fun e => by
        rw [e, List.length_nil] at hlen
        omega
    have hmem : b ∈ σ₂.held := by simp [hheld]
    obtain ⟨σ₃, free, hput, hk₃, hw₃, hheld₃, ho₃⟩ := hk₂.put hmem
    have he₃ : (reservePool nbufs reserve nmax).enabled σ₂ (.put b) := hmem
    have hb₂ := hk₂.nbufs
    refine ⟨σ₃, free, hσ₂.step he₃ hput, hk₃, ?_, by rw [hw₃, hw₂], by omega⟩
    have hlen₃ := hk₃.length
    rw [hheld₃, List.length_erase_of_mem hmem] at hlen₃
    rintro rfl
    rw [List.length_nil] at hlen₃
    omega

/-- With all its buffers out, a getter waiting and one buffer put back, the
pool would serve a new getter and leaves the waiting one where it is. -/
theorem not_recheckAgrees (hf : HeapFits nmax) (hn : 0 < nbufs) (hle : nbufs ≤ nmax) {k : ℕ}
    (hk₁ : 1 ≤ k) (hkn : k ≤ nbufs) (hbad : ¬sizeT (k + reserve) < nmax) :
    ¬RecheckAgrees nbufs reserve nmax := by
  intro hagree
  have hinit : Initialised nbufs reserve nmax (startPool nbufs reserve nmax k).pool :=
    startPool_initialised hf hn hle k
  obtain ⟨⟨free, hown, -, -⟩, hb, hres, hm, -⟩ := hinit.owns
  have howned : (startPool nbufs reserve nmax k).pool.owned = k := by
    refine (fill_owned k nbufs (Pool.empty nbufs reserve nmax) (Nat.zero_le k)).trans ?_
    simp only [Pool.empty]
    omega
  obtain ⟨σ₁, hσ₁, hk₁', hw₁, ho₁⟩ := drain (.init ⟨_, hinit, rfl⟩) ⟨hown, hb, hres, hm⟩ rfl
  rw [howned] at ho₁
  obtain ⟨σ, free', hσ, hk, hfree, hw, ho⟩ :=
    wait_behind hσ₁ hk₁' hw₁ (by omega) (by omega)
  have hnew : ∃ p a, σ.pool.bufpoolGet false true none = some (p, .got a) := by
    rw [Pool.bufpoolGet, if_neg fun e => Bool.false_ne_true e.1]
    rcases hk.owns.getLoop false true none with
      ⟨xs, a, -, hloop⟩ | ⟨a, -, -, -, hloop⟩ | ⟨hnil, -, -⟩
    · exact ⟨_, a, hloop⟩
    · exact ⟨_, a, hloop⟩
    · exact absurd hnil hfree
  obtain ⟨p, a, hnew⟩ := hnew
  obtain ⟨p', a', hre⟩ := hagree σ hσ 1 false none p a hw hnew
  have hstay : ¬σ.pool.MayRetry false := by
    rw [Pool.MayRetry, Pool.BelowReserve, hk.reserve, hk.nmax, ho, ho₁]
    simpa using hbad
  rw [Pool.recheck, if_neg hstay] at hre
  cases hre

/-- **A waiting getter agrees with a new one exactly when the pool may grow
whatever it owns while its free list is in use.** -/
theorem recheck_agrees_iff (hf : HeapFits nmax) (hn : 0 < nbufs) (hle : nbufs ≤ nmax) :
    RecheckAgrees nbufs reserve nmax ↔ GrowsWhileFree nbufs reserve nmax := by
  refine ⟨fun h => ?_, recheckAgrees_of_grows⟩
  intro k hk₁ hkn
  by_contra hbad
  exact not_recheckAgrees hf hn hle hk₁ hkn hbad h

/-- For a reserve that is not negative the last `k` decides. -/
theorem growsWhileFree_iff (hr : 0 ≤ reserve) (hr' : reserve < 2 ^ 31) (hf : HeapFits nmax)
    (hn : 0 < nbufs) (hle : nbufs ≤ nmax) :
    GrowsWhileFree nbufs reserve nmax ↔ nbufs + reserve < nmax := by
  unfold HeapFits at hf
  have hsize : ∀ k : ℕ, k ≤ nbufs → (sizeT (k + reserve) : ℤ) = k + reserve := fun k hk =>
    sizeT_eq (by omega) (by omega)
  refine ⟨fun h => ?_, fun h k _ hk => ?_⟩
  · have := h nbufs hn (Nat.le_refl _)
    have := hsize nbufs (Nat.le_refl _)
    omega
  · have := hsize k hk
    omega

/-- A pool of up to four buffers that begins with two agrees with itself. -/
theorem recheck_agrees_iff_grows : RecheckAgrees 2 1 4 :=
  (recheck_agrees_iff (by norm_num [HeapFits]) (by decide) (by decide)).2
    ((growsWhileFree_iff (by decide) (by decide) (by norm_num [HeapFits]) (by decide)
      (by decide)).2 (by decide))

/-- A pool of one buffer: world 0 has it, world 1 waits for it, world 0 puts
it back. A new get would have it; world 1 waits on. -/
theorem recheck_left_behind : ¬RecheckAgrees 1 0 1 := by
  intro hagree
  have hstart : (reservePool 1 0 1).init (startPool 1 0 1 1) :=
    ⟨_, startPool_initialised (by norm_num [HeapFits]) (by decide) (by decide) 1, rfl⟩
  have h : ((reservePool 1 0 1).run (startPool 1 0 1 1)
      [.get 0 false false none, .get 1 false false none, .put ⟨0, false⟩]).any
      (fun σ : PoolUsers => decide (σ.waiting 1 = some false ∧
        (σ.pool.bufpoolGet false true none).map Prod.snd = some (.got 0) ∧
        (σ.pool.recheck false none).map Prod.snd = some .waits)) = true := by decide +kernel
  obtain ⟨σ, hσ, hp⟩ := System.Steps.of_run_any h
  obtain ⟨hw, hget, hre⟩ := of_decide_eq_true hp
  obtain ⟨⟨p, _⟩, hget, rfl⟩ := Option.map_eq_some_iff.1 hget
  obtain ⟨p', a, hgot⟩ := hagree σ (hσ.reachable (.init hstart)) 1 false none p 0 hw hget
  rw [hgot] at hre
  cases hre

end Vmk

end VmwareProto
