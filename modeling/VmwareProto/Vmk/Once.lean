import VmwareProto.Vmk.Works
import Mathlib.Tactic.NormNum
/-!
# A thread pool from start to end

What `Working` says of every run of a thread pool. An item is scheduled,
taken and called, each once and the first two in the same order; and
`thread_pool_deinit` passes its assertions with nothing left to call.
-/

namespace VmwareProto

namespace Vmk

variable {n nwork : ℕ} {p : Pool} {σ : Works}

theorem Working.start {job : Addr → Job} (hp : Initialised nwork 0 (nwork * 4) p) :
    ∃ lists held, Working n (Works.start p n job) lists held := by
  obtain ⟨⟨free, hown, -, -⟩, -⟩ := hp.owns
  have hnone : ∀ y, (Works.start p n job).holds y = none := fun y => by cases y <;> rfl
  have hall : present n (Works.start p n job).worker = Finset.range n :=
    Finset.filter_true_of_mem fun _ _ => by simp [Works.start]
  refine ⟨onlyFree free, [], ⟨hown, fun y a h => ?_, fun y z a h => ?_, by simp⟩,
    ⟨rfl, rfl, .initial fun a => ?_⟩, ?_⟩
  · rw [hnone] at h
    cases h
  · rw [hnone] at h
    cases h
  · rintro ⟨i, hi⟩
    cases hi
  · exact {
      sleep := fun i hi => by cases hi
      stirred := fun i hi => by cases hi
      state := iff_of_true rfl rfl
      quiet := fun _ _ => .inl rfl
      exited := fun i hi => by cases hi
      active := by rw [hall, Finset.card_range]; rfl
      few := fun _ _ => rfl
      joined := fun e => by cases e }

theorem working_inductive (hn : 0 < n) :
    (threadPool n nwork).Inductive fun σ => ∃ lists held, Working n σ lists held where
  init := by
    rintro σ ⟨p, job, hp, rfl⟩
    exact Working.start hp
  step := by
    rintro σ act ⟨lists, held, h⟩ he
    exact h.step hn he

/-- Once `thread_pool_deinit` is past its assertions nobody has a buffer. -/
theorem Working.passed {lists : Head → List Addr} {held : List Addr} (h : Working n σ lists held)
    (hn : 0 < n) (hp : σ.deinit = .passed) : (∀ y, σ.holds y = none) ∧ lists .work = [] := by
  refine ⟨fun y => ?_, (h.shutdown.exited 0 (h.shutdown.joined hp 0 hn)).1⟩
  cases y with
  | user x =>
      have hx := h.shutdown.quiet (by simp [hp]) x
      rcases hx with hx | hx <;> simp [Works.holds, hx, UserPc.buf]
  | worker i =>
      rcases Nat.lt_or_ge i n with hi | hi
      · simp [Works.holds, h.shutdown.joined hp i hi, WorkerPc.buf]
      · simp [Works.holds, h.shutdown.few i hi, WorkerPc.buf]

/-- **Every work item is called once.** In every state of every run what was
scheduled is what was taken off the list and then what is on it; up to order
it is what was called, what a worker is about to call and what is on the
list. A free buffer is neither on the list nor with anyone; a worker sleeps
at a list that is not empty only while a wakeup is to come; no assertion
fails; and past those of `thread_pool_deinit` every item was called, no
worker is left and every buffer is free. -/
theorem every_item_once (hn : 0 < n) (h : (threadPool n nwork).Reachable σ) :
    ∃ ws free inHand : List Addr,
      σ.tp.pool.links.Ring (.head .work) (ws.map .elem) ∧
      σ.tp.pool.links.Ring (.head .freelist) (free.map .elem) ∧
      σ.tp.workPend = ws.length ∧
      σ.scheduled = σ.taken ++ ws.map σ.tp.job ∧
      inHand.Nodup ∧ (∀ a, a ∈ inHand ↔ ∃ i, σ.worker i = .taken a) ∧
      σ.scheduled.Perm (σ.called ++ inHand.map σ.tp.job ++ ws.map σ.tp.job) ∧
      (∀ a ∈ free, a ∉ ws ∧ ∀ y, σ.holds y ≠ some a) ∧
      (∀ i, σ.worker i = .asleep → ws ≠ [] → ∃ x, σ.user x = .waking) ∧
      (∀ act : WorkAction, act.Enabled σ n → ∃ σ', act.exec σ = some σ') ∧
      (σ.deinit = .passed → σ.scheduled.Perm σ.called ∧ ws = [] ∧ σ.tp.active = 0 ∧
        σ.tp.pool.issued = 0 ∧ σ.tp.pool.owned = free.length) := by
  obtain ⟨lists, held, hinv⟩ := (working_inductive hn).reachable h
  have hown := hinv.places.owns
  obtain ⟨ks, hnd, hks, hperm⟩ := hinv.logged.ledger
  have hall : σ.scheduled.Perm (σ.called ++ ks.map σ.tp.job ++ (lists .work).map σ.tp.job) := by
    rw [hinv.logged.fifo]
    exact hperm.append_right _
  refine ⟨lists .work, lists .freelist, ks, hown.rings.ring .work, hown.rings.ring .freelist,
    hinv.logged.pend, hinv.logged.fifo, hnd, hks, hall, fun a ha => ⟨fun hw => ?_, fun y hy => ?_⟩,
    hinv.shutdown.sleep, fun act he => ?_, fun hp => ?_⟩
  · exact hown.apart a ha (hown.work a hw)
  · exact hown.apart a ha (hinv.places.mine y a hy).1
  · obtain ⟨σ', hx, -⟩ := hinv.step hn he
    exact ⟨σ', hx⟩
  · obtain ⟨hnone, hws⟩ := hinv.passed hn hp
    have hks' : ks = [] := List.eq_nil_iff_forall_not_mem.2 fun a ha => by
      obtain ⟨i, hi⟩ := (hks a).1 ha
      have := hnone (.worker i)
      rw [Works.holds, hi] at this
      cases this
    have hheld : held = [] := List.eq_nil_iff_forall_not_mem.2 fun a ha => by
      rcases hinv.places.cover a ha with hw | ⟨y, hy⟩
      · rw [hws] at hw
        cases hw
      · rw [hnone] at hy
        cases hy
    have hempty : present n σ.worker = ∅ := by
      refine Finset.eq_empty_of_forall_notMem fun i hi => ?_
      simp only [present, Finset.mem_filter, Finset.mem_range] at hi
      exact hi.2 (hinv.shutdown.joined hp i hi.1)
    have hissued := hown.issued
    have howned := hown.owned
    rw [hheld, List.length_nil] at hissued
    rw [hissued, Nat.zero_add] at howned
    refine ⟨by simpa [hks', hws] using hall, hws, ?_, hissued, howned⟩
    rw [hinv.shutdown.active, hempty]
    rfl

/-- One item, from `new_work` to the end of `thread_pool_deinit`. -/
theorem every_item_once_drained : ∃ σ, (threadPool 1 1).Reachable σ ∧ σ.deinit = .passed ∧
    σ.scheduled = [7] ∧ σ.scheduled.Perm σ.called ∧ σ.tp.active = 0 ∧ σ.tp.pool.issued = 0 := by
  have hp : Initialised 1 0 (1 * 4) (startPool 1 0 4 1).pool :=
    startPool_initialised (by norm_num [HeapFits]) (by decide) (by decide) 1
  have h := System.Reachable.init
    (show (threadPool 1 1).init (Works.start (startPool 1 0 4 1).pool 1 fun _ => 0) from
      ⟨_, _, hp, rfl⟩)
  have h := h.step (a := WorkAction.newWork 0 none) ⟨rfl, rfl, by simp⟩ rfl
  have h := h.step (a := WorkAction.schedule 0 7) ⟨0, rfl⟩ rfl
  have h := h.step (a := WorkAction.work 0) ⟨by decide, rfl⟩ rfl
  have h := h.step (a := WorkAction.call 0) ⟨0, rfl⟩ rfl
  have h := h.step (a := WorkAction.finish 0) ⟨0, rfl⟩ rfl
  have h := h.step (a := WorkAction.deinit) ⟨rfl, fun x => by cases x; exacts [.inr rfl, .inl rfl]⟩ rfl
  have h := h.step (a := WorkAction.deinitWake) rfl rfl
  -- the states so far are forgotten but for what the last steps read
  obtain ⟨σ, h, htop, hd, hs, he, ha, hsched⟩ : ∃ σ, (threadPool 1 1).Reachable σ ∧
      σ.worker 0 = .top ∧ σ.deinit = .joining ∧ σ.tp.state = .shutting ∧
      σ.tp.pool.links.isEmpty (.head .work) = true ∧ σ.tp.active = 1 ∧ σ.scheduled = [7] :=
    ⟨_, h, rfl, rfl, rfl, rfl, rfl, rfl⟩
  have hleave : (WorkAction.work 0).exec σ = some { σ with
      tp := { σ.tp with active := σ.tp.active - 1 }
      worker := Function.update σ.worker 0 .exited } := (if_pos he).trans (if_pos hs)
  have h := h.step (a := WorkAction.work 0) ⟨by decide, htop⟩ hleave
  have hgone : ∀ i < 1, Function.update σ.worker 0 .exited i = .exited := fun i hi => by
    obtain rfl := Nat.lt_one_iff.1 hi
    exact Function.update_self ..
  have h := h.step (a := WorkAction.deinitJoin) ⟨hd, hgone⟩ (if_pos ⟨by simp [ha], he⟩)
  obtain ⟨ws, free, inHand, -, -, -, -, -, -, -, -, -, -, hend⟩ := every_item_once (by decide) h
  obtain ⟨hperm, -, hactive, hissued, -⟩ := hend rfl
  exact ⟨_, h, rfl, hsched, hperm, hactive, hissued⟩

end Vmk

end VmwareProto
