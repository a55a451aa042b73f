import VmwareProto.BufPool.Ownership
/-!
# No lost wakeup

A put wakes one getter, and a buffer may be gone by the time that getter
looks again. What holds at every point is a count: while a getter sleeps,
the pool has at most as many buffers to give as there are getters on their
way to look.
-/

namespace VmwareProto

namespace BufPool

open Libtask

namespace State

/-- The getters asleep on `bp->rendez`. -/
def asleep (σ : State) : List Getter := σ.getters.filter fun g => !g.woken

/-- The getters that were woken and have not looked again. -/
def woken (σ : State) : List Getter := σ.getters.filter fun g => g.woken

end State

/-- The getters asleep are the queue of `bp->rendez`. -/
structure Queued (σ : State) : Prop where
  queue : σ.pool.rendez = σ.asleep.map (·.task)
  nodup : (σ.getters.map (·.task)).Nodup

/-- No more to give than getters on their way, while one sleeps. -/
def Covered (n : ℕ) (σ : State) : Prop := σ.asleep ≠ [] → n ≤ σ.woken.length

variable {bufsize nbufs nmax n m : ℕ} {σ σ' : State} {p' : Pool} {free held : List Addr} {a : Addr}
  {t : TaskId} {zeroed noblock : Bool} {calloc : Option Addr} {act : Action}
  {g : Getter} {gs rest : List Getter} {d : Option (TaskId × Bool)}

/-! ## Getters -/

@[simp] theorem wake_none : State.wake none gs = gs := by simp [State.wake]

theorem wake_of_notMem (h : t ∉ gs.map (·.task)) : State.wake (some t) gs = gs := by
  have hid : ∀ x ∈ gs, (if some x.task = some t then { x with woken := true } else x) = x :=
    fun x hx => if_neg fun e => h (List.mem_map.2 ⟨x, hx, Option.some.inj e⟩)
  exact (List.map_congr_left hid).trans (List.map_id' gs)

theorem map_task_wake (o : Option TaskId) : (State.wake o gs).map (·.task) = gs.map (·.task) := by
  rw [State.wake, List.map_map]
  refine List.map_congr_left fun x _ => ?_
  simp only [Function.comp]
  split <;> rfl

/-- **Waking the first sleeper** moves it from one list to the other. -/
theorem filter_wake (hn : (gs.map (·.task)).Nodup) (h : gs.filter (fun g => !g.woken) = g :: rest) :
    (State.wake (some g.task) gs).filter (fun g => !g.woken) = rest ∧
      ((State.wake (some g.task) gs).filter fun g => g.woken).length =
        (gs.filter fun g => g.woken).length + 1 := by
  induction gs with
  | nil => cases h
  | cons x xs ih =>
      rw [List.map_cons, List.nodup_cons] at hn
      by_cases hx : x.woken = true
      · -- the sleeper is further back, and is another task
        rw [List.filter_cons_of_neg (by simp [hx])] at h
        have hg : g ∈ xs := List.mem_of_mem_filter (h ▸ List.mem_cons_self)
        have hne : ¬ some x.task = some g.task := fun e =>
          hn.1 (Option.some.inj e ▸ List.mem_map_of_mem hg)
        obtain ⟨h₁, h₂⟩ := ih hn.2 h
        have hw : State.wake (some g.task) (x :: xs) = x :: State.wake (some g.task) xs := by
          rw [State.wake, List.map_cons, if_neg hne, State.wake]
        rw [hw, List.filter_cons_of_neg (by simp [hx]), List.filter_cons_of_pos (by simp [hx]),
          List.filter_cons_of_pos (by simp [hx])]
        exact ⟨h₁, by simp [h₂]⟩
      · rw [List.filter_cons_of_pos (by simp [hx])] at h
        obtain ⟨rfl, rfl⟩ := List.cons.inj h
        have hw : State.wake (some x.task) (x :: xs) = { x with woken := true } :: xs := by
          have := wake_of_notMem hn.1
          rw [State.wake] at this ⊢
          rw [List.map_cons, if_pos rfl, this]
        rw [hw]
        simp [hx]

/-- A getter that runs on was not asleep. -/
theorem filter_asleep_resume (hn : (gs.map (·.task)).Nodup) (hg : g ∈ gs) (hw : g.woken = true) :
    (gs.filter (·.task != g.task)).filter (fun g => !g.woken) = gs.filter fun g => !g.woken := by
  rw [List.filter_filter]
  refine List.filter_congr fun x hx => ?_
  by_cases hxg : x = g
  · simp [hxg, hw]
  · have hne : x.task ≠ g.task := fun e => hxg (List.inj_on_of_nodup_map hn hx hg e)
    simp [hne]

/-- And is one of those woken. -/
theorem length_woken_resume (hn : (gs.map (·.task)).Nodup) (hg : g ∈ gs) (hw : g.woken = true) :
    ((gs.filter (·.task != g.task)).filter fun g => g.woken).length + 1 =
      (gs.filter fun g => g.woken).length := by
  have hmem : g ∈ gs.filter fun g => g.woken := List.mem_filter.2 ⟨hg, hw⟩
  have herase : (gs.filter (·.task != g.task)).filter (fun g => g.woken) =
      (gs.filter fun g => g.woken).erase g := by
    rw [List.Nodup.erase_eq_filter ((List.Nodup.of_map _ hn).filter _), List.filter_comm]
    refine List.filter_congr fun x hx => ?_
    have hx := List.mem_of_mem_filter hx
    by_cases hxg : x = g
    · subst hxg
      rw [bne_self_eq_false, bne_self_eq_false]
    · have hne : x.task ≠ g.task := fun e => hxg (List.inj_on_of_nodup_map hn hx hg e)
      exact (bne_iff_ne.2 hne).trans (bne_iff_ne.2 hxg).symm
  have hpos := List.length_pos_of_mem hmem
  rw [herase, List.length_erase_of_mem hmem]
  omega

/-! ## One step -/

/-- A buffer goes to a task that did not sleep. -/
theorem Covered.take (h : Covered n σ) (hm : m ≤ n) : Covered m { σ with pool := p', held := held } :=
  fun hne => Nat.le_trans hm (h hne)

/-- A task goes to sleep because there is nothing to give. -/
theorem covered_zero : Covered 0 σ := fun _ => Nat.zero_le _

/-- `TASKWAKEUP(&bp->rendez)`: one more to give, one more on its way. -/
theorem Queued.wake (h : Queued σ) (hz : p'.rendez = σ.pool.rendez.tail) :
    Queued ⟨p', State.wake σ.pool.rendez.head? σ.getters, d, held⟩ ∧
      (Covered n σ → m ≤ n + 1 →
        Covered m ⟨p', State.wake σ.pool.rendez.head? σ.getters, d, held⟩) := by
  have hn := h.nodup
  have hq := h.queue
  cases hs : σ.asleep with
  | nil =>
      rw [hs, List.map_nil] at hq
      have hw : State.wake σ.pool.rendez.head? σ.getters = σ.getters := by simp [hq]
      have hs' : (⟨p', σ.getters, d, held⟩ : State).asleep = [] := hs
      rw [hw]
      exact ⟨⟨by rw [hz, hq, hs']; rfl, hn⟩, fun _ _ hne => absurd hs' hne⟩
  | cons g rest =>
      obtain ⟨h₁, h₂⟩ := filter_wake hn hs
      have hhead : σ.pool.rendez.head? = some g.task := by rw [hq, hs]; rfl
      rw [hhead]
      refine ⟨⟨?_, by rw [map_task_wake]; exact hn⟩, fun hc hm _ => ?_⟩
      · rw [hz, hq, hs]
        exact (congrArg _ h₁).symm
      · have hle : n ≤ σ.woken.length := hc (by rw [hs]; simp)
        simp only [State.woken] at hle ⊢
        omega

/-- How many buffers the pool can give; `grows` when it counts on those it
has yet to allocate. -/
def Pool.room (grows : Bool) (p : Pool) : ℕ :=
  p.qlen.toNat + if grows = true then p.nmax - p.owned else 0

/-- No allocation fails, if the pool counts on it. -/
def Allocates (grows : Bool) : Action → Prop
  | .get _ _ _ calloc => grows = true → calloc ≠ none
  | .resume _ calloc => grows = true → calloc ≠ none
  | _ => True

variable {grows : Bool}

theorem Owns.room_eq {p : Pool} (h : Owns p free held) (grows : Bool) :
    p.room grows = free.length + if grows = true then p.nmax - p.owned else 0 := by
  rw [Pool.room, h.qlen, Int.toNat_natCast]

/-- A stretch of `bufpool_get`, by a task that is in no queue: a new caller,
or one that was on its way to look and is not counted any more. -/
theorem Queued.settle (h : Queued σ) (hS : Sound nbufs nmax σ) (hs : σ.pool.state ≠ .deinted)
    (hf : Action.Fresh σ calloc) (hal : grows = true → calloc ≠ none)
    (ht : ∀ g ∈ σ.getters, g.task ≠ t) (hb : noblock = true → Covered (σ.pool.room grows) σ)
    (hc : Covered (σ.pool.room grows - 1) σ) {r : Pool × Pool.GetOutcome}
    (hr : σ.pool.getLoop t noblock calloc = some r) :
    Queued (σ.settle t zeroed (Pool.zero zeroed r)) ∧
      Covered ((σ.settle t zeroed (Pool.zero zeroed r)).pool.room grows)
        (σ.settle t zeroed (Pool.zero zeroed r)) := by
  obtain ⟨free, ho⟩ := hS.owns hs
  have hroom := ho.room_eq grows
  obtain ⟨r', hr', hcases⟩ := settle_cases ho hf t noblock zeroed
  obtain rfl : r' = r := Option.some.inj (hr'.symm.trans hr)
  rcases hcases with ⟨a, p', he, ho', hrest, hless⟩ | ⟨rfl, hfull, ⟨-, he⟩ | ⟨hnb, he⟩⟩
  · rw [he]
    refine ⟨⟨hrest.rendez.trans h.queue, h.nodup⟩, hc.take ?_⟩
    have hroom' := ho'.room_eq grows
    have hlen : free.dropLast.length = free.length - 1 := List.length_dropLast
    rw [hroom, hroom']
    by_cases hg : grows = true
    · rw [if_pos hg, if_pos hg]
      omega
    · rw [if_neg hg, if_neg hg]
      omega
  · have hzero : σ.pool.room grows = 0 := by
      rw [hroom]
      split
      · rename_i hg
        have hge : ¬ σ.pool.owned < σ.pool.nmax := fun hlt => hal hg (hfull hlt)
        simp only [List.length_nil]
        omega
      · rfl
    have hroom' : Pool.room grows { σ.pool with rendez := σ.pool.rendez ++ [t] } = 0 := hzero
    rw [he]
    refine ⟨⟨?_, ?_⟩, by rw [hroom']; exact covered_zero⟩
    · simp only [State.asleep, List.filter_append, List.map_append, h.queue]
      rfl
    · rw [List.map_append, List.nodup_append]
      refine ⟨h.nodup, by simp, fun x hx y hy => ?_⟩
      obtain ⟨g, hg, rfl⟩ := List.mem_map.1 hx
      obtain rfl : y = t := by simpa using hy
      exact ht g hg
  · rw [he]
    exact ⟨h, hb hnb⟩

/-- **The step lemma**, for both counts. -/
theorem Queued.step (h : Queued σ) (hS : Sound nbufs nmax σ) (hc : Covered (σ.pool.room grows) σ)
    (hal : Allocates grows act) (he : act.Enabled σ) (hx : act.exec σ = some σ')
    (hs : σ'.pool.state ≠ .deinted) :
    Queued σ' ∧ Covered (σ'.pool.room grows) σ' := by
  have hc₁ : Covered (σ.pool.room grows - 1) σ := fun hne => Nat.le_trans (Nat.sub_le _ _) (hc hne)
  cases act with
  | get t zeroed noblock calloc =>
      obtain ⟨hst, ⟨ht, -⟩, hf⟩ := he
      obtain ⟨r, hr, hx⟩ := Option.bind_eq_some_iff.1 hx
      obtain rfl := Option.some.inj hx
      rw [Pool.bufpoolGet, if_neg (by simp [hst])] at hr
      exact h.settle hS (by rw [hst]; decide) hf hal ht (fun _ => hc) hc₁ hr
  | resume t calloc =>
      have hst := hS.ne_of_exec he hx
      obtain ⟨⟨g, hg, rfl, hw⟩, hf⟩ := he
      obtain ⟨g', hg', hx⟩ := Option.bind_eq_some_iff.1 hx
      obtain ⟨r, hr, hx⟩ := Option.bind_eq_some_iff.1 hx
      obtain rfl := Option.some.inj hx
      -- the task is counted among those on their way no longer
      have hasleep := filter_asleep_resume h.nodup hg hw
      have hwoken := length_woken_resume h.nodup hg hw
      have h₀ : Queued { σ with getters := σ.getters.filter (·.task != g.task) } :=
        ⟨h.queue.trans (congrArg _ hasleep.symm), h.nodup.sublist (List.filter_sublist.map _)⟩
      refine h₀.settle ⟨hS.owns, hS.gone, hS.size, hS.waits⟩ hst hf hal
        (fun x hx => ?_) (by simp) (fun hne => ?_) hr
      · simpa using (List.mem_filter.1 hx).2
      · have hle := hc (by rwa [State.asleep, hasleep] at hne)
        simp only [State.woken] at hle ⊢
        omega
  | put a =>
      have hst := hS.in_use he
      obtain ⟨free, ho⟩ := hS.owns hst
      obtain ⟨q, free', hg, ho', hrest, hlen, hmore⟩ := ho.giveBack he
      rw [Action.exec, bufpoolPut_eq hg] at hx
      obtain rfl := Option.some.inj hx
      have hroom := ho.room_eq grows
      have hroom' := ho'.wakeUp.room_eq grows
      have hz : q.wakeUp.rendez = σ.pool.rendez.tail := by rw [← hrest.rendez]; rfl
      have howned : q.wakeUp.owned = q.owned ∧ q.wakeUp.nmax = q.nmax := ⟨rfl, rfl⟩
      have hle : q.wakeUp.room grows ≤ σ.pool.room grows + 1 := by
        rw [hroom, hroom']
        by_cases hg : grows = true
        · rw [if_pos hg, if_pos hg]
          omega
        · rw [if_neg hg, if_neg hg]
          omega
      rw [hrest.rendez]
      exact (h.wake hz).imp_right fun hcov => hcov hc hle
  | write a next prev =>
      obtain rfl := Option.some.inj hx
      exact ⟨⟨h.queue, h.nodup⟩, hc⟩
  | deinit t =>
      obtain ⟨free, ho⟩ := hS.owns (by rw [he.1]; decide)
      rcases ho.bufpoolDeinit he.1 t with ⟨-, hp⟩ | ⟨-, q, hp, hgone⟩
      · rw [Action.exec, hp] at hx
        obtain rfl := Option.some.inj hx
        exact ⟨⟨h.queue, h.nodup⟩, hc⟩
      · rw [Action.exec, hp] at hx
        obtain rfl := Option.some.inj hx
        exact absurd hgone.state hs
  | resumeDeinit =>
      obtain ⟨q, hq, hx⟩ := Option.bind_eq_some_iff.1 hx
      obtain rfl := Option.some.inj hx
      exact absurd (finish_state hq) hs

/-- What a run keeps while the pool is in use. -/
theorem queued_reachable
    (hr : ((poolSystem bufsize nbufs nmax).only fun _ => Allocates grows).Reachable σ) :
    σ.pool.state ≠ .deinted → Queued σ ∧ Covered (σ.pool.room grows) σ := by
  refine (hr.invariant (I := fun σ => Sound nbufs nmax σ ∧
    (σ.pool.state ≠ .deinted → Queued σ ∧ Covered (σ.pool.room grows) σ)) ?_ ?_).2
  · rintro _ ⟨p, hp, rfl⟩
    obtain ⟨-, -, hz, -⟩ := hp.owns
    exact ⟨sound_reachable (.init ⟨p, hp, rfl⟩), fun _ => ⟨⟨hz, by simp⟩, fun hne => absurd rfl hne⟩⟩
  · rintro σ act σ' ⟨hS, h⟩ ⟨he, hal⟩ hx
    refine ⟨hS.step he hx, fun hs => ?_⟩
    obtain ⟨hq, hc⟩ := h (hS.ne_of_exec he hx)
    exact hq.step hS hc hal he hx hs

/-- **No wakeup is lost.** While a getter sleeps, there are at most as many
free buffers as getters that were woken and have not looked again; with
allocations that never fail, also when the buffers the pool may still
allocate are counted in. So when nobody is on the way to look, a getter
sleeps only on an empty free list, and then, with allocations that never
fail, only while all `nmax` buffers are held. -/
theorem no_lost_wakeup (hr : (poolSystem bufsize nbufs nmax).Reachable σ)
    (hs : σ.pool.state = .initialized) :
    ∃ free : List Addr, σ.pool.links.Ring freelist (free.map .elem) ∧
      σ.pool.rendez = σ.asleep.map (·.task) ∧
      (σ.asleep ≠ [] → free.length ≤ σ.woken.length) ∧
      (σ.asleep ≠ [] → σ.woken = [] → free = []) ∧
      (((poolSystem bufsize nbufs nmax).only fun _ => Allocates true).Reachable σ →
        σ.asleep ≠ [] →
          free.length + (nmax - σ.pool.owned) ≤ σ.woken.length ∧
          (σ.woken = [] → free = [] ∧ σ.held.length = nmax)) := by
  have hne : σ.pool.state ≠ .deinted := by rw [hs]; decide
  have hS := sound_reachable hr
  obtain ⟨free, ho⟩ := hS.owns hne
  obtain ⟨-, hm⟩ := hS.size hne
  have hr₀ : ((poolSystem bufsize nbufs nmax).only fun _ => Allocates false).Reachable σ :=
    hr.to_only fun _ act _ => by cases act <;> simp [Allocates]
  obtain ⟨hq, hc⟩ := queued_reachable hr₀ hne
  have hroom := ho.room_eq false
  refine ⟨free, ho.ring, hq.queue, fun ha => ?_, fun ha hw => ?_, fun hr₁ ha => ?_⟩
  · have := hc ha
    rwa [hroom] at this
  · have := hc ha
    rw [hroom, hw] at this
    exact List.length_eq_zero_iff.1 (Nat.le_zero.1 this)
  · have hle := (queued_reachable hr₁ hne).2 ha
    rw [ho.room_eq true, if_pos rfl, hm] at hle
    refine ⟨hle, fun hw => ?_⟩
    rw [hw, List.length_nil] at hle
    have hown := ho.owned
    have hiss := ho.issued
    have hmax := ho.le_nmax
    exact ⟨List.length_eq_zero_iff.1 (by omega), by omega⟩

/-- Both buffers are held, and a third getter sleeps. -/
theorem no_lost_wakeup_full : ∃ (σ : State) (free : List Addr),
    (poolSystem 16 1 2).Reachable σ ∧ σ.asleep = [⟨2, false, false⟩] ∧ σ.woken = [] ∧
    σ.pool.links.Ring freelist (free.map .elem) ∧ free = [] ∧ σ.held.length = 2 := by
  have h : ((poolSystem 16 1 2).run smallPool
      [.get 1 true false (some 9), .get 1 false false (some 7), .get 2 false false (some 9)]).any
      (fun σ : State => decide (σ.asleep = [⟨2, false, false⟩] ∧ σ.woken = [] ∧
        σ.pool.state = .initialized)) = true := by decide +kernel
  obtain ⟨σ, hσ, hp⟩ := System.Steps.of_run_any h
  obtain ⟨ha, hw, hs⟩ := of_decide_eq_true hp
  have hr := hσ.reachable (.init smallPool_init)
  have hall : ∀ (s : State), ∀ act ∈ [Action.get 1 true false (some 9),
      .get 1 false false (some 7), .get 2 false false (some 9)], Allocates true act := by
    simp [Allocates]
  have hr₁ := (hσ.only (P := fun _ => Allocates true) hall).reachable (.init smallPool_init)
  obtain ⟨free, hring, -, -, -, hgrow⟩ := no_lost_wakeup hr hs
  obtain ⟨-, hfull⟩ := hgrow hr₁ (by rw [ha]; simp)
  exact ⟨σ, free, hr, ha, hw, hring, hfull hw⟩

end BufPool

end VmwareProto
