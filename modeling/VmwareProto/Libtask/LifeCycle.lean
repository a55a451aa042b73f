import VmwareProto.Libtask.Tame
/-!
# The life of a timer

Each call keeps a timer in order, and returns. So in a run of proper calls no
two tasks wait at one timer, none of its tasks outlives it, and no assertion
of `timer.c` or `task_netrw` fails.
-/

namespace VmwareProto

namespace Libtask

namespace TimerThread

variable {σ σ' τ : TimerThread} {x f g d t malloc : TaskId} {p q : Ctx} {r : Option TaskId} {c : Code}
  {pc pc' : TimerPc} {fd : ℤ} {act : TimerAction} {ts : Timespec} {repeats : ℤ}

/-! ## What the calls come to -/

/-- `timerfd_settime` fails on a time that is none. -/
theorem Ready.settime_eq (h : σ.Ready) (ts : Timespec) (repeats : ℤ) :
    σ.settime ts repeats = if ts.Valid then some (σ.armed ts repeats) else none := by
  obtain ⟨p, r, he, -⟩ := h.entered
  obtain ⟨s, hs⟩ := Option.isSome_iff_exists.1 he.timer
  rw [settime, hs]

/-- **`timer_set`** fails and does nothing, or sets the timer; one that was
not set gets a `_timer_func`. -/
theorem Ready.timerSet_cases (h : σ.Ready) (ts : Timespec) (repeats : ℤ) (malloc : TaskId) :
    ¬ts.Valid ∧ σ.timerSet ts repeats malloc = some (-1, σ) ∨
    ts.Valid ∧ σ.t.timerSet ≠ 0 ∧ σ.timerSet ts repeats malloc = some (0, σ.armed ts repeats) ∨
    ts.Valid ∧ σ.t.timerSet = 0 ∧ σ.timerSet ts repeats malloc =
      some (0, { σ.armed ts repeats with t.timerSet := 1 }.taskcreate malloc .start) := by
  by_cases hset : σ.t.timerSet = 0
  · by_cases hv : ts.Valid
    · refine .inr (.inr ⟨hv, hset, ?_⟩)
      simp [timerSet, h.closed, h.init, hset, h.settime_eq, hv]
    · refine .inl ⟨hv, ?_⟩
      simp [timerSet, h.closed, h.init, hset, h.settime_eq, hv]
  · by_cases hv : ts.Valid
    · refine .inr (.inl ⟨hv, hset, ?_⟩)
      simp [timerSet, timerMod, h.closed, h.init, hset, h.settime_eq, hv]
    · refine .inl ⟨hv, ?_⟩
      simp [timerSet, timerMod, h.closed, h.init, hset, h.settime_eq, hv]

/-- **`timer_unset`** -/
theorem Ready.timerUnset_eq (h : σ.Ready) :
    σ.timerUnset = some (if σ.t.timerSet = 0 then σ else σ.disarmed) := by
  obtain ⟨p, r, he, -⟩ := h.entered
  obtain ⟨s, hs⟩ := Option.isSome_iff_exists.1 he.timer
  by_cases hset : σ.t.timerSet = 0 <;> simp [timerUnset, h.closed, h.init, hs, hset]

/-- **`task_netread`** finds the context. -/
theorem Ready.netread_eq (h : σ.Ready) (x : TaskId) :
    ∃ p, σ.registry.tcarray σ.t.timerfd = some p ∧
      σ.netread x = some (σ.goto x (.read σ.t.timerfd p)) := by
  obtain ⟨p, r, he, -⟩ := h.entered
  have hl : σ.registry.ctxtLookup σ.t.timerfd = .ok p :=
    Registry.lookup_eq_ok_iff.2 ⟨he.range, he.tcarray⟩
  exact ⟨p, he.tcarray, by simp [netread, hl, he.heap]⟩

theorem sameTimer_armed (h : σ.Ready) : SameTimer σ (σ.armed ts repeats) := by
  obtain ⟨p, r, he, -⟩ := h.entered
  refine ⟨rfl, rfl, rfl, rfl, rfl, ?_⟩
  simp [armed, he.timer]

theorem sameTimer_disarmed (h : σ.Ready) : SameTimer σ σ.disarmed := by
  obtain ⟨p, r, he, -⟩ := h.entered
  refine ⟨rfl, rfl, rfl, rfl, rfl, ?_⟩
  simp [disarmed, he.timer]

namespace Tame

theorem armed (h : Tame σ) (hl : σ.life = .ready) : Tame (σ.armed ts repeats) :=
  h.retime (sameTimer_armed (h.ready hl)) rfl rfl rfl rfl rfl

/-- `timer_set` -/
theorem timerSet (h : Tame σ) (hl : σ.life = .ready) (ts : Timespec) (repeats : ℤ)
    (hm : malloc ∉ σ.places) (hp : ts.Valid → σ.t.timerSet = 0 → σ.NoFunc) :
    ∃ rc τ, σ.timerSet ts repeats malloc = some (rc, τ) ∧ Tame τ ∧ τ.running = σ.running ∧
      ∀ y ∈ σ.places, τ.pc y = σ.pc y := by
  rcases (h.ready hl).timerSet_cases ts repeats malloc with
    ⟨-, heq⟩ | ⟨-, -, heq⟩ | ⟨hv, hset, heq⟩
  · exact ⟨-1, σ, heq, h, rfl, fun _ _ => rfl⟩
  · exact ⟨0, _, heq, h.armed hl, rfl, fun _ _ => rfl⟩
  · have hne : ∀ y ∈ σ.places, y ≠ malloc := fun y hy e => hm (e ▸ hy)
    refine ⟨0, _, heq, ?_, rfl, fun y hy => Function.update_of_ne (hne y hy) ..⟩
    have hs : SameTimer σ { σ.armed ts repeats with t.timerSet := 1 } :=
      ⟨rfl, rfl, rfl, rfl, rfl, (sameTimer_armed (h.ready hl)).timerfds⟩
    have hτ : Tame { σ.armed ts repeats with t.timerSet := 1 } := h.retime hs rfl rfl rfl rfl rfl
    have hplaces : ({ σ.armed ts repeats with t.timerSet := 1 } : TimerThread).places = σ.places := by
      rw [places, places, reader_congr hs.timerfd hs.life hs.registry]
      rfl
    refine hτ.create (hplaces ▸ hm) (.inr ⟨rfl, hl, ?_⟩)
    rw [NoFunc, hplaces]
    exact hp hv hset

/-- `timer_unset` -/
theorem timerUnset (h : Tame σ) (hl : σ.life = .ready) :
    ∃ τ, σ.timerUnset = some τ ∧ Tame τ ∧ SameTimer σ τ ∧ τ.pc = σ.pc ∧ τ.running = σ.running := by
  refine ⟨_, (h.ready hl).timerUnset_eq, ?_⟩
  split
  · exact ⟨h, ⟨rfl, rfl, rfl, rfl, rfl, rfl⟩, rfl, rfl⟩
  · have hs := sameTimer_disarmed (h.ready hl)
    exact ⟨h.retime hs rfl rfl rfl rfl rfl, hs, rfl, rfl⟩

/-- `task_netread` -/
theorem netread (h : Tame σ) (hx : σ.running = some x) (hl : σ.life = .ready)
    (hf : (σ.pc x).isFunc = true) : ∃ τ, σ.netread x = some τ ∧ Tame τ := by
  obtain ⟨p, htc, heq⟩ := (h.ready hl).netread_eq x
  refine ⟨_, heq, h.goto hx hl hf (by simp) fun fd q hq => ?_⟩
  cases hq
  exact ⟨rfl, htc⟩

theorem countdown (h : Tame σ) : Tame σ.countdown :=
  h.retime ⟨rfl, rfl, rfl, rfl, rfl, rfl⟩ rfl rfl rfl rfl rfl

/-- `_timer_func` after the callback -/
theorem afterCallback (h : Tame σ) (hx : σ.running = some x) (hl : σ.life = .ready)
    (hf : (σ.pc x).isFunc = true) (hd : ∀ c, σ.pc x ≠ .deinit c) :
    ∃ τ, σ.afterCallback x = some τ ∧ Tame τ := by
  unfold TimerThread.afterCallback
  split
  · obtain ⟨τ, hτ, ht, -, hpc, hrun⟩ := h.countdown.timerUnset hl
    rw [hτ]
    refine ⟨_, rfl, ht.exit (hrun.trans hx) fun c => ?_⟩
    rw [hpc]
    exact hd c
  · exact h.countdown.netread hx hl hf

/-- `_timer_func` after a `read` -/
theorem serve (h : Tame σ) (hx : σ.running = some x) (hl : σ.life = .ready)
    (hf : (σ.pc x).isFunc = true) (hd : ∀ c, σ.pc x ≠ .deinit c) :
    ∃ τ, σ.serve x = some τ ∧ Tame τ := by
  have hw : Tame { σ.taskwakeupall with consumed := σ.consumed + 1 } :=
    h.taskwakeupall.retime ⟨rfl, rfl, rfl, rfl, rfl, rfl⟩ rfl rfl rfl rfl rfl
  unfold TimerThread.serve
  split
  · exact hw.afterCallback hx hl hf hd
  · have hgo : Tame (TimerThread.goto { σ.taskwakeupall with consumed := σ.consumed + 1 } x
        (.code .callback)) := hw.goto hx hl hf (by simp) (by simp)
    exact ⟨_, rfl, hgo.retime ⟨rfl, rfl, rfl, rfl, rfl, rfl⟩ rfl rfl rfl rfl rfl⟩

end Tame

/-- **The `read` of `_timer_func`**: it finds no expiration and waits, finds
some, or finds the descriptor closed. -/
theorem Tame.read_cases (h : Tame σ) (hx : σ.running = some x) (hpc : σ.pc x = .read fd p)
    (o : OtherRead) :
    (∃ d, σ.life = .deinit d) ∧ σ.read x fd p o = some (σ.taskexit x) ∨
    σ.life = .ready ∧ fd = σ.t.timerfd ∧ σ.Entered p none ∧
      ((∃ s, σ.timerfds fd = some (s, 0) ∧ σ.read x fd p o = some { σ with
          registry := σ.registry.calloc p (.socket .fifo fd (some x) none), running := none }) ∨
        ∃ s n, σ.timerfds fd = some (s, n + 1) ∧ σ.read x fd p o =
          { σ with timerfds := Function.update σ.timerfds fd (some (s, 0)) }.serve x) := by
  have hf : (σ.pc x).isFunc = true := by rw [hpc]; rfl
  rcases h.life_of_func hf with hl | ⟨d, hl⟩
  · obtain ⟨q, r, he, hr, hread⟩ := (h.ready hl).entered
    obtain ⟨rfl, rfl⟩ := hread x fd p hpc
    have hnone : r = none := by
      cases r with
      | none => rfl
      | some g =>
          -- the one that is recorded is the one that runs
          have hg := hr g rfl
          exact absurd (h.one g x (by rw [hg]; rfl) hf) (h.reader_ne hx (he.reader hl))
    subst hnone
    obtain ⟨i, hi, -⟩ := he.fds
    obtain ⟨⟨s, n⟩, hs⟩ := Option.isSome_iff_exists.1 he.timer
    refine .inr ⟨hl, rfl, he, ?_⟩
    cases n with
    | zero =>
        refine .inl ⟨s, hs, ?_⟩
        simp [TimerThread.read, hi, hs, TimerThread.again, he.heap]
    | succ n =>
        refine .inr ⟨s, n, hs, ?_⟩
        simp [TimerThread.read, hi, hs]
  · obtain ⟨⟨q, hq⟩, hfds⟩ := (h.closing hl).reads x hf
    rw [hpc] at hq
    cases hq
    exact .inl ⟨⟨d, hl⟩, by simp [TimerThread.read, hfds, TimerThread.closed, (h.closing hl).closed]⟩

/-! ## Steps -/

namespace Tame

theorem queue_running (hx : σ.running = some x) : σ.queue = x :: σ.runq := by
  rw [queue, hx]
  rfl

/-- A task that runs waits for nothing. -/
theorem notMem_asleep (h : Tame σ) (hx : σ.running = some x) : x ∉ σ.asleep ++ σ.rendez := by
  intro hm
  have hnd := h.nodup
  rw [places, hx] at hnd
  simp only [Option.toList_some, List.cons_append, List.nodup_cons, List.mem_append] at hnd hm
  tauto

/-- The task that runs goes to the end of the queue, to sleep, or on. -/
theorem leave (h : Tame σ) (hx : σ.running = some x) (hpl : (σ.pc x).plain = true)
    (hpc : pc.plain = true) (hf : pc.isFunc = (σ.pc x).isFunc) (now : Option TaskId)
    (run sleep wait : List TaskId) (hp : (now.toList ++ run ++ sleep ++ wait).Perm [x]) (hrun : now = none ∨ now = some x) :
    Tame { σ.goto x pc with
      running := now, runq := σ.runq ++ run, asleep := σ.asleep ++ sleep, rendez := σ.rendez ++ wait } := by
  generalize hσ' : ({ σ.goto x pc with
      running := now, runq := σ.runq ++ run, asleep := σ.asleep ++ sleep
      rendez := σ.rendez ++ wait } : TimerThread) = σ'
  have hs : SameTimer σ σ' := by
    subst hσ'
    exact ⟨rfl, rfl, rfl, rfl, rfl, rfl⟩
  have hpc' : σ'.pc = Function.update σ.pc x pc := by
    subst hσ'
    rfl
  refine h.moves hs ?_ (fun y => ?_) ⟨run, ?_⟩ fun f hf' => ?_
  · rw [places, places, reader_congr hs.timerfd hs.life hs.registry, hx]
    subst hσ'
    refine List.perm_iff_count.2 fun a => ?_
    have ha := hp.count_eq a
    simp only [List.count_append, Option.toList_some] at ha ⊢
    omega
  · rw [hpc']
    exact recoded_update hpl hpc hf y
  · rcases hrun with rfl | rfl
    · refine .inr ⟨x, σ.runq, queue_running hx, ?_, hpl⟩
      subst hσ'
      rfl
    · refine .inl ?_
      subst hσ'
      simp [queue, hx]
  · have hmem : f ∈ σ.asleep ++ σ.rendez ∨ f = x := by
      have hf' : f ∈ σ'.asleep ++ σ'.rendez := hf'
      subst hσ'
      have hsub : f ∈ sleep ++ wait → f = x := by
        intro hm
        refine List.mem_singleton.1 (hp.mem_iff.1 ?_)
        simp only [List.mem_append] at hm ⊢
        tauto
      simp only [List.mem_append] at hf' hsub ⊢
      tauto
    by_cases hfx : f = x
    · rw [hpc', hfx, Function.update_self]
      exact hpc
    · rw [hpc', Function.update_of_ne hfx]
      exact h.asleep f (hmem.resolve_right hfx)

theorem goes (h : Tame σ) (hx : σ.running = some x) (hpl : (σ.pc x).plain = true)
    (hpc : pc.plain = true) (hf : pc.isFunc = (σ.pc x).isFunc) : Tame (σ.goto x pc) := by
  simpa [TimerThread.goto, hx] using h.leave hx hpl hpc hf (some x) [] [] [] (List.Perm.refl _) (.inr rfl)

theorem yields (h : Tame σ) (hx : σ.running = some x) (hpl : (σ.pc x).plain = true) :
    Tame { σ with runq := σ.runq ++ [x], running := none } := by
  simpa [TimerThread.goto] using h.leave hx hpl hpl rfl none [x] [] [] (List.Perm.refl _) (.inl rfl)

theorem sleeps (h : Tame σ) (hx : σ.running = some x) (hpl : (σ.pc x).plain = true) :
    Tame { σ with asleep := σ.asleep ++ [x], running := none } := by
  simpa [TimerThread.goto] using h.leave hx hpl hpl rfl none [] [x] [] (List.Perm.refl _) (.inl rfl)

/-- `timer_wait` -/
theorem timerWait (h : Tame σ) (hx : σ.running = some x) (hl : σ.life = .ready)
    (hpc : σ.pc x = .code c) (ts : Timespec) (hm : malloc ∉ σ.places)
    (hp : ts.Valid → σ.t.timerSet = 0 → σ.NoFunc) :
    ∃ τ, σ.timerWait x c ts malloc = some τ ∧ Tame τ := by
  obtain ⟨rc, τ, heq, hτ, hrun, hpcs⟩ := h.timerSet hl ts 0 hm hp
  have hpcx : τ.pc x = .code c := (hpcs x (running_mem hx)).trans hpc
  simp only [TimerThread.timerWait, heq, Option.bind_eq_bind, Option.bind_some]
  split
  · exact ⟨_, rfl, hτ⟩
  · refine ⟨_, rfl, ?_⟩
    have hf : (TimerPc.wait c).isFunc = (τ.pc x).isFunc := by
      rw [hpcx]
      cases c <;> rfl
    simpa [TimerThread.goto] using
      hτ.leave (hrun.trans hx) (by rw [hpcx]; rfl) rfl hf none [] [] [x] (List.Perm.refl _) (.inl rfl)

/-- A task is made ready. -/
theorem wakes (h : Tame σ) (ht : t ∈ σ.asleep) :
    Tame { σ with asleep := σ.asleep.erase t, runq := σ.runq ++ [t] } := by
  refine h.moves ⟨rfl, rfl, rfl, rfl, rfl, rfl⟩ ?_ (fun _ => .inl rfl)
    ⟨[t], .inl (by simp [queue])⟩ fun f hf => h.asleep f ?_
  · have hr : ({ σ with asleep := σ.asleep.erase t, runq := σ.runq ++ [t] } : TimerThread).reader =
        σ.reader := reader_congr rfl rfl rfl
    rw [places, places, hr]
    refine List.perm_iff_count.2 fun a => ?_
    have ha := (List.perm_cons_erase ht).count_eq a
    simp only [List.count_append, List.count_cons, List.count_nil] at ha ⊢
    omega
  · rw [List.mem_append] at hf ⊢
    exact hf.imp_left List.mem_of_mem_erase

/-- A turn of the scheduler -/
theorem turn {q : List TaskId} (h : Tame σ) (hx : σ.running = none) (hq : σ.runq = t :: q) :
    Tame { σ with running := some t, runq := q } := by
  have hqueue : ({ σ with running := some t, runq := q } : TimerThread).queue = σ.queue := by
    rw [queue, queue, hx, hq]
    rfl
  refine h.moves ⟨rfl, rfl, rfl, rfl, rfl, rfl⟩ ?_ (fun _ => .inl rfl)
    ⟨[], .inl (by rw [hqueue, List.append_nil])⟩ h.asleep
  rw [places_eq, places_eq, hqueue]
  exact List.Perm.refl _

/-- Where there is no `_timer_func`, a timer comes to life or stays as it
is. -/
theorem revive (h : Tame σ) (hl : ∀ f, (σ.pc f).isFunc = false) (hd : ∀ x c, σ.pc x ≠ .deinit c)
    (hpc : σ'.pc = σ.pc) (hq : σ'.queue = σ.queue) (ha : σ'.asleep = σ.asleep)
    (hr : σ'.rendez.Sublist σ.rendez) (hreader : σ'.reader = none) (hready : σ'.registry.readied = [])
    (hlife : σ'.life = .raw ∨ σ'.life = .ready ∧ σ'.Ready) : Tame σ' := by
  have hsub : σ'.places.Sublist σ.places := by
    rw [places_eq, places_eq, hq, ha, hreader]
    exact List.Sublist.append ((List.Sublist.refl _).append hr) (List.nil_sublist _)
  have hno : ∀ f, (σ'.pc f).isFunc = true → False := by
    intro f hf
    rw [hpc, hl f] at hf
    cases hf
  refine ⟨h.nodup.sublist hsub, fun f hf => (hno f hf).elim, fun f _ hf => (hno f hf).elim,
    fun f hf => ?_, hready, fun x c hx => absurd (hpc ▸ hx) (hd x c), ?_⟩
  · rw [hpc]
    refine h.asleep f ?_
    rw [ha, List.mem_append] at hf
    rw [List.mem_append]
    exact hf.imp_right fun hm => hr.subset hm
  · rcases hlife with hl' | ⟨hl', hR⟩
    · rw [hl']
      intro f
      rw [hpc]
      exact hl f
    · rw [hl']
      exact hR

/-- `timer_init` -/
theorem timerInit {cbfn : Option ℕ} {data : ℕ} {a : TimerAnswers} (h : Tame σ) (hl : σ.life = .raw)
    (hk : σ.registry.Allocates a.register) (hp : σ.Proper (.timerInit x cbfn data a)) :
    ∃ τ, (TimerAction.timerInit x cbfn data a).exec σ = some τ ∧ Tame τ := by
  have hd : ∀ y c, σ.pc y ≠ .deinit c := fun y c hy => by
    have := h.deiniter y c hy
    rw [hl] at this
    cases this
  obtain ⟨hinit, hreg⟩ := hp
  cases ha : a.timerfdCreate with
  | error e =>
      refine ⟨{ σ with t := TaskTimer.zero σ.t.rendez, rendez := [], goal := none }, ?_, ?_⟩
      · simp [TimerAction.exec, Registry.timerInit, hinit, ha]
      · exact h.revive (h.raw hl) hd rfl rfl rfl (List.nil_sublist _)
          (reader_of_ne (by simp [hl])) h.readied (.inl hl)
  | ok fd =>
      rw [Registers, ha] at hreg
      rcases Registry.taskFdRegister_cases (σ := σ.registry.openFd fd) (.fifo true) fd hk with
        ⟨p, hvac, hcal, heq⟩ | ⟨hnot, -⟩
      · generalize hτ : ({ σ with
            t := { TaskTimer.zero σ.t.rendez with timerfd := fd, cbfn := cbfn, data := data, init := 1 }
            registry := (σ.registry.openFd fd).entered ((Registration.fifo true).context fd)
              (Registry.asked (.fifo true) p) fd p
            timerfds := Function.update σ.timerfds fd (some (.disarmed, 0))
            life := .ready, rendez := [], goal := none } : TimerThread) = τ
        have hent : τ.Entered p none := by
          subst hτ
          refine ⟨⟨hvac.1.1, hvac.1.2.1⟩, Function.update_self .., Function.update_self .., ?_, ?_⟩
          · exact ⟨⟨p, (Registration.fifo true).events, false⟩, Function.update_self .., rfl⟩
          · simp
        have hlife : τ.life = .ready := by
          subst hτ
          rfl
        have hreader := hent.reader hlife
        refine ⟨τ, ?_, ?_⟩
        · subst hτ
          simp [TimerAction.exec, Registry.timerInit, hinit, ha, Registry.taskFifofdRegister, heq]
        · subst hτ
          refine h.revive (h.raw hl) hd rfl rfl rfl (List.nil_sublist _) hreader h.readied
            (.inr ⟨rfl, rfl, rfl, p, none, hent, (by simp), fun f fd q hf => ?_⟩)
          have hno := h.raw hl f
          rw [show σ.pc f = _ from hf] at hno
          cases hno
      · exact absurd hreg hnot

end Tame

/-- `task_fd_deregister` of the closed descriptor finds who waits. -/
theorem Entered.deregister (he : σ.Entered p r) :
    ∃ T, (σ.registry.close σ.t.timerfd).taskFdDeregister σ.t.timerfd = some (-1, T) ∧
      T.readied = σ.registry.readied ++ r.toList ∧ T.fds σ.t.timerfd = none := by
  have hfds : (σ.registry.close σ.t.timerfd).fds σ.t.timerfd = none := Function.update_self ..
  have hl : (σ.registry.close σ.t.timerfd).ctxtLookup σ.t.timerfd = .ok p :=
    Registry.lookup_eq_ok_iff.2 ⟨he.range, he.tcarray⟩
  have hheap : (σ.registry.close σ.t.timerfd).heap p = some (.socket .fifo σ.t.timerfd r none) := he.heap
  have htc : (σ.registry.close σ.t.timerfd).tcarray σ.t.timerfd ≠ none := by
    rw [show (σ.registry.close σ.t.timerfd).tcarray σ.t.timerfd = _ from he.tcarray]
    simp
  obtain ⟨h0, hmax⟩ := he.range
  rw [Registry.taskFdDeregister, hfds, hl]
  simp only [hheap, Option.isSome_none, Bool.false_eq_true, if_false, Option.toList_none,
    List.append_nil, Registry.ctxtDelete, if_neg (show ¬σ.t.timerfd < 0 by omega),
    if_neg (show ¬(taskioMaxFdValue : ℤ) ≤ σ.t.timerfd by omega), if_neg htc]
  exact ⟨_, rfl, rfl, hfds⟩

/-- `timer_deinit` of task `x` -/
theorem Tame.timerDeinit (h : Tame σ) (hx : σ.running = some x) (hl : σ.life = .ready)
    (hpc : σ.pc x = .code c) (hp : σ.Proper (.timerDeinit x)) :
    ∃ τ, σ.timerDeinit x c = some τ ∧ Tame τ := by
  obtain ⟨p, r, he, hr, hread⟩ := (h.ready hl).entered
  have hreader := he.reader hl
  have hd : ∀ y c, σ.pc y ≠ .deinit c := fun y c hy => by
    have := h.deiniter y c hy
    rw [hl] at this
    cases this
  have hfunc : ∀ f, (σ.pc f).isFunc = true → r = some f ∧ 0 < σ.t.timerfd := by
    intro f hf
    obtain ⟨hrf, hpos⟩ := hp f (h.funcs f hf) hf
    exact ⟨hreader ▸ hrf, hpos⟩
  have hnone : r = none → ∀ f, (σ.pc f).isFunc = false := by
    rintro rfl f
    by_contra hf
    rw [Bool.not_eq_false] at hf
    cases (hfunc f hf).1
  unfold TimerThread.timerDeinit
  by_cases hpos : 0 < σ.t.timerfd
  · obtain ⟨T, hT, hready, hfds⟩ := he.deregister
    rw [h.readied, List.nil_append] at hready
    simp only [if_pos hpos, hT, Option.bind_eq_bind, Option.bind_some]
    cases r with
    | none =>
        refine ⟨_, if_pos hready, ?_⟩
        exact h.revive (hnone rfl) hd rfl rfl rfl (List.Sublist.refl _) (reader_of_ne (by simp [TimerThread.deinitDone])) hready (.inl rfl)
    | some f =>
        have hready' : T.readied = [f] := hready
        refine ⟨_, if_neg (by simp [hready']), ?_⟩
        rw [hready']
        have hpcf : σ.pc f = .read σ.t.timerfd p := hr f rfl
        have hfx : f ≠ x := h.reader_ne hx hreader
        have hc : c = .task := by
          cases c with
          | task => rfl
          | callback => exact absurd (h.one x f (by rw [hpc]; rfl) (by rw [hpcf]; rfl)).symm hfx
        subst hc
        generalize hτ : ({ TimerThread.goto
            { σ with
              t := { σ.t with closed := 1, init := 0 }, goal := none
              timerfds := Function.update σ.timerfds σ.t.timerfd none } x (.deinit .task) with
            registry := { T with readied := [] }, runq := σ.runq ++ [f] ++ [x], running := none
            life := .deinit x } : TimerThread) = τ
        have hpcx : τ.pc = Function.update σ.pc x (.deinit .task) := by
          subst hτ
          rfl
        have hfunc' : ∀ g, (τ.pc g).isFunc = true → g = f := by
          intro g hg
          by_cases hgx : g = x
          · rw [hgx, hpcx, Function.update_self] at hg
            cases hg
          · rw [hpcx, Function.update_of_ne hgx] at hg
            exact (Option.some.inj (hfunc g hg).1).symm
        have hlife : τ.life = .deinit x := by
          subst hτ
          rfl
        have hplaces : τ.places.Perm σ.places := by
          rw [places, places, hreader, hx, reader_of_ne (by simp [hlife])]
          subst hτ
          refine List.perm_iff_count.2 fun a => ?_
          simp [TimerThread.goto, List.count_append, List.count_cons]
          omega
        refine ⟨hplaces.nodup_iff.2 h.nodup, fun g hg => ?_, fun g g' hg hg' => ?_, fun g hg => ?_, ?_,
          fun y c hy => ?_, ?_⟩
        · rw [hfunc' g hg]
          exact hplaces.mem_iff.2 (h.funcs f (by rw [hpcf]; rfl))
        · rw [hfunc' g hg, hfunc' g' hg']
        · have hg' : g ∈ σ.asleep ++ σ.rendez := by
            subst hτ
            exact hg
          have hgx : g ≠ x := by
            rintro rfl
            exact h.notMem_asleep hx hg'
          rw [hpcx, Function.update_of_ne hgx]
          exact h.asleep g hg'
        · subst hτ
          rfl
        · by_cases hyx : y = x
          · rw [hyx, hlife]
          · rw [hpcx, Function.update_of_ne hyx] at hy
            exact absurd hy (hd y c)
        · rw [hlife]
          refine ⟨?_, by rw [hpcx, Function.update_self], ⟨σ.runq ++ [f], [], ?_, fun g hg => ?_⟩,
            fun g hg => ⟨⟨p, ?_⟩, ?_⟩⟩
          · subst hτ
            rfl
          · subst hτ
            rfl
          · rw [hfunc' g hg]
            simp
          · rw [hfunc' g hg, hpcx, Function.update_of_ne hfx, hpcf]
            subst hτ
            rfl
          · subst hτ
            exact hfds
  · have hno : ∀ f, (σ.pc f).isFunc = false := by
      intro f
      by_contra hf
      rw [Bool.not_eq_false] at hf
      exact hpos (hfunc f hf).2
    refine ⟨_, if_neg hpos, ?_⟩
    exact h.revive hno hd rfl rfl rfl (List.Sublist.refl _) (reader_of_ne (by simp [TimerThread.deinitDone])) h.readied (.inl rfl)

namespace Tame

/-- `timer_deinit` goes on: the `_timer_func` has run. -/
theorem deinitDone (h : Tame σ) (hx : σ.running = some x) (hpc : σ.pc x = .deinit c) :
    Tame (σ.goto x (.code c)).deinitDone := by
  have hc := h.closing (h.deiniter x c hpc)
  have hdx : c = .task := by
    have := hc.pc
    rw [hpc] at this
    cases this
    rfl
  subst hdx
  obtain ⟨q, q', hqq, hbefore⟩ := hc.before
  have hnd : σ.queue.Nodup := by
    have := h.nodup
    rw [places_eq, List.append_assoc, List.append_assoc] at this
    exact this.of_append_left
  have hnil : q = [] := by
    cases q with
    | nil => rfl
    | cons y q =>
        have hxy := queue_running hx
        rw [hqq, List.cons_append, List.cons.injEq] at hxy
        rw [hqq, hxy.1] at hnd
        simp at hnd
  subst hnil
  have hno : ∀ f, (σ.pc f).isFunc = false := by
    intro f
    by_contra hf
    rw [Bool.not_eq_false] at hf
    cases hbefore f hf
  have hself : (σ.goto x (.code .task)).deinitDone.pc x = .code .task := Function.update_self ..
  have hother : ∀ f, f ≠ x → (σ.goto x (.code .task)).deinitDone.pc f = σ.pc f :=
    fun f hf => Function.update_of_ne hf ..
  have hno' : ∀ f, ((σ.goto x (.code .task)).deinitDone.pc f).isFunc = false := by
    intro f
    by_cases hf : f = x
    · rw [hf, hself]
      rfl
    · rw [hother f hf]
      exact hno f
  have hreader : (σ.goto x (.code .task)).deinitDone.reader = none := reader_of_ne (by simp [TimerThread.deinitDone])
  have hplaces : (σ.goto x (.code .task)).deinitDone.places = σ.places := by
    rw [places, places, hreader, reader_of_ne (by simp [h.deiniter x .task hpc])]
    rfl
  refine ⟨hplaces ▸ h.nodup, fun f hf => ?_, fun f g hf hg => ?_, fun f hf => ?_, h.readied,
    fun y c hy => ?_, hno'⟩
  · rw [hno' f] at hf
    cases hf
  · rw [hno' f] at hf
    cases hf
  · have hfx : f ≠ x := by
      rintro rfl
      exact h.notMem_asleep hx hf
    rw [hother f hfx]
    exact h.asleep f hf
  · have hyx : y ≠ x := by
      rintro rfl
      rw [hself] at hy
      cases hy
    have hlife := h.deiniter y c (by rw [← hother y hyx, hy])
    rw [h.deiniter x .task hpc] at hlife
    exact absurd (Life.deinit.inj hlife).symm hyx

/-- An event wakes the `_timer_func` that waits. -/
theorem event (h : Tame σ) (hl : σ.life = .ready) (he : σ.Entered p r) (hx : σ.event p = some σ') :
    ∃ f, r = some f ∧ σ' = { σ with
      registry := σ.registry.calloc p (.socket .fifo σ.t.timerfd none none), runq := σ.runq ++ [f] } ∧
      Tame σ' := by
  unfold TimerThread.event at hx
  rw [he.heap] at hx
  cases r with
  | none => cases hx
  | some f =>
      cases hx
      refine ⟨f, rfl, rfl, ?_⟩
      generalize hσ' : ({ σ with
          registry := σ.registry.calloc p (.socket .fifo σ.t.timerfd none none)
          runq := σ.runq ++ [f] } : TimerThread) = σ'
      have hpc : σ'.pc = σ.pc := by
        subst hσ'
        rfl
      have hlife : σ'.life = .ready := by
        subst hσ'
        exact hl
      have he' : σ'.Entered p none := by
        subst hσ'
        exact ⟨he.range, he.tcarray, Function.update_self .., he.fds, he.timer⟩
      have hplaces : σ'.places.Perm σ.places := by
        rw [places, places, he'.reader hlife, he.reader hl]
        subst hσ'
        refine List.perm_iff_count.2 fun a => ?_
        simp [List.count_append, List.count_cons]
        omega
      refine ⟨hplaces.nodup_iff.2 h.nodup, fun g hg => hplaces.mem_iff.2 (h.funcs g (hpc ▸ hg)),
        fun g g' hg hg' => h.one g g' (hpc ▸ hg) (hpc ▸ hg'), fun g hg => ?_, ?_, fun y c hy => ?_, ?_⟩
      · rw [hpc]
        subst hσ'
        exact h.asleep g hg
      · subst hσ'
        exact h.readied
      · rw [hlife, ← hl]
        exact h.deiniter y c (hpc ▸ hy)
      · rw [hlife]
        obtain ⟨q, r, hq, -, hread⟩ := (h.ready hl).entered
        obtain rfl : q = p := Option.some.inj (hq.tcarray.symm.trans he.tcarray)
        subst hσ'
        exact ⟨(h.ready hl).init, (h.ready hl).closed, q, none, he', (by simp), hread⟩

/-- What is done to other descriptors. -/
theorem other {entry : Option Ctx} {i : Option (Option Interest)} {k : Option TaskContext} (h : Tame σ)
    (hfd : σ.timerfds fd = none) (hp : ¬(σ.life = .ready ∧ σ.registry.tcarray σ.t.timerfd = some p))
    (hi : i ≠ none → ∀ f ∈ σ.places, (σ.pc f).reads fd = false) :
    Tame { σ with
      registry := { σ.registry with
        tcarray := Function.update σ.registry.tcarray fd entry
        fds := Function.update σ.registry.fds fd i, heap := Function.update σ.registry.heap p k } } := by
  generalize hσ' : ({ σ with
      registry := { σ.registry with
        tcarray := Function.update σ.registry.tcarray fd entry
        fds := Function.update σ.registry.fds fd i
        heap := Function.update σ.registry.heap p k } } : TimerThread) = σ'
  have hlife : σ'.life = σ.life := by
    subst hσ'
    rfl
  have hent : σ.life = .ready → ∀ q r, σ.Entered q r → σ'.Entered q r := by
    intro hl q r he
    have hne : σ.t.timerfd ≠ fd := by
      rintro rfl
      exact absurd he.timer (by simp [hfd])
    have hqp : q ≠ p := by
      rintro rfl
      exact hp ⟨hl, he.tcarray⟩
    subst hσ'
    refine ⟨he.range, ?_, ?_, ?_, he.timer⟩
    · exact (Function.update_of_ne hne ..).trans he.tcarray
    · exact (Function.update_of_ne hqp ..).trans he.heap
    · dsimp only
      rw [Function.update_of_ne hne]
      exact he.fds
  have hreader : σ'.reader = σ.reader := by
    by_cases hl : σ.life = .ready
    · obtain ⟨q, r, he, -⟩ := (h.ready hl).entered
      rw [(hent hl q r he).reader (hlife.trans hl), he.reader hl]
    · rw [reader_of_ne hl, reader_of_ne (by rw [hlife]; exact hl)]
  have hplaces : σ'.places = σ.places := by
    rw [places, places, hreader]
    subst hσ'
    rfl
  refine ⟨hplaces ▸ h.nodup, ?_, ?_, ?_, ?_, ?_, ?_⟩
  · rw [hplaces]
    subst hσ'
    exact h.funcs
  · subst hσ'
    exact h.one
  · subst hσ'
    exact h.asleep
  · subst hσ'
    exact h.readied
  · subst hσ'
    exact h.deiniter
  · rw [hlife]
    cases hl : σ.life with
    | raw =>
        subst hσ'
        exact h.raw hl
    | ready =>
        obtain ⟨q, r, he, hr, hread⟩ := (h.ready hl).entered
        have he' := hent hl q r he
        subst hσ'
        exact ⟨(h.ready hl).init, (h.ready hl).closed, q, r, he', hr, hread⟩
    | deinit d =>
        have hc := h.closing hl
        subst hσ'
        refine ⟨hc.closed, hc.pc, hc.before, fun f hf => ⟨(hc.reads f hf).1, ?_⟩⟩
        obtain ⟨⟨q, hq⟩, hnone⟩ := hc.reads f hf
        dsimp only
        by_cases hne : σ.t.timerfd = fd
        · subst hne
          rw [Function.update_self]
          by_contra hopen
          have hread := hi hopen f (h.funcs f hf)
          rw [hq] at hread
          simp [TimerPc.reads] at hread
        · rw [Function.update_of_ne hne]
          exact hnone

/-- **Every proper call keeps the timer in order**, and none fails an
assertion. -/
theorem step (h : Tame σ) (he : act.Enabled σ) (hp : σ.Proper act) (hev : ∀ x, act ≠ .event x) :
    ∃ σ', act.exec σ = some σ' ∧ Tame σ' := by
  cases act with
  | timerInit x cbfn data a => exact h.timerInit he.2.1 he.2.2.1 hp
  | timerSet x ts repeats malloc =>
      obtain ⟨rc, τ, heq, hτ, -⟩ := h.timerSet he.2.1 ts repeats he.2.2 hp
      exact ⟨τ, by rw [TimerAction.exec, heq]; rfl, hτ⟩
  | timerUnset x =>
      obtain ⟨τ, heq, hτ, -⟩ := h.timerUnset he.2
      exact ⟨{ τ with goal := none }, by rw [TimerAction.exec, heq]; rfl,
        hτ.retime ⟨rfl, rfl, rfl, rfl, rfl, rfl⟩ rfl rfl rfl rfl rfl⟩
  | timerWait x ts malloc =>
      obtain ⟨c, hc⟩ := code_of_isCode he.1.2
      obtain ⟨τ, heq, hτ⟩ := h.timerWait he.1.1 he.2.1 hc ts he.2.2 hp
      exact ⟨τ, by simp only [TimerAction.exec, hc, heq], hτ⟩
  | timerDeinit x =>
      obtain ⟨c, hc⟩ := code_of_isCode he.1.2
      obtain ⟨τ, heq, hτ⟩ := h.timerDeinit he.1.1 he.2 hc hp
      exact ⟨τ, by simp only [TimerAction.exec, hc, heq], hτ⟩
  | resume x =>
      obtain ⟨hx, hpc⟩ := he
      cases hc : σ.pc x with
      | wait c =>
          refine ⟨σ.goto x (.code c), by simp only [TimerAction.exec, hc], ?_⟩
          refine h.goes hx (by rw [hc]; rfl) rfl ?_
          rw [hc]
          cases c <;> rfl
      | deinit c => exact ⟨_, by simp only [TimerAction.exec, hc], h.deinitDone hx hc⟩
      | _ =>
          rw [hc] at hpc
          cases hpc
  | start x =>
      obtain ⟨hx, hpc⟩ := he
      have hpc : σ.pc x = .start := by
        revert hpc
        cases σ.pc x <;> simp
      have hf : (σ.pc x).isFunc = true := by rw [hpc]; rfl
      exact h.netread hx (h.ready_of_func hf (by simp [hpc])) hf
  | read x o =>
      obtain ⟨hx, hpc⟩ := he
      cases hc : σ.pc x with
      | read fd p =>
          simp only [TimerAction.exec, hc]
          rcases h.read_cases hx hc o with ⟨-, heq⟩ | ⟨hl, rfl, hent, ⟨s, -, heq⟩ | ⟨s, n, hs, heq⟩⟩
          · exact ⟨_, heq, h.exit hx (by simp [hc])⟩
          · exact ⟨_, heq, h.suspend hx hl hc hent⟩
          · have hdrained : Tame { σ with
                timerfds := Function.update σ.timerfds σ.t.timerfd (some (s, 0)) } :=
              h.retime ⟨rfl, rfl, rfl, rfl, rfl, by simp [hs]⟩ rfl rfl rfl rfl rfl
            obtain ⟨τ, hτ, ht⟩ := hdrained.serve hx hl (by rw [hc]; rfl) (by simp [hc])
            exact ⟨τ, heq.trans hτ, ht⟩
      | _ =>
          rw [hc] at hpc
          cases hpc
  | ret x =>
      obtain ⟨hx, hpc⟩ := he
      have hpc : σ.pc x = .code .callback := by
        revert hpc
        cases hc : σ.pc x with
        | code c => cases c <;> simp
        | _ => simp
      have hf : (σ.pc x).isFunc = true := by rw [hpc]; rfl
      exact h.afterCallback hx (h.ready_of_func hf (by simp [hpc])) hf (by simp [hpc])
  | taskyield x =>
      refine ⟨_, rfl, h.yields he.1 ?_⟩
      have hpc := he.2
      revert hpc
      cases σ.pc x <;> simp [TimerPc.isCode, TimerPc.plain]
  | sleep x =>
      obtain ⟨c, hc⟩ := code_of_isCode he.2
      exact ⟨_, rfl, h.sleeps he.1 (by rw [hc]; rfl)⟩
  | ready x t => exact ⟨_, rfl, h.wakes he.2⟩
  | taskcreate x malloc => exact ⟨_, rfl, h.create he.2 (.inl rfl)⟩
  | taskexit x =>
      refine ⟨_, rfl, h.exit he.1 fun c hc => ?_⟩
      have hpc := he.2
      rw [hc] at hpc
      cases hpc
  | other x fd entry i p k => exact ⟨_, rfl, h.other he.2.1 he.2.2 hp⟩
  | scribble t =>
      have hl : σ.life = .raw := he
      have hd : ∀ y c, σ.pc y ≠ .deinit c := fun y c hy => by
        have := h.deiniter y c hy
        rw [hl] at this
        cases this
      exact ⟨_, rfl, h.revive (h.raw hl) hd rfl rfl rfl (List.Sublist.refl _)
        (reader_of_ne (by simp [hl])) h.readied (.inl hl)⟩
  | taskscheduler =>
      obtain ⟨hx, hq⟩ := he
      cases hrun : σ.runq with
      | nil => exact absurd hrun hq
      | cons t q => exact ⟨_, by simp only [TimerAction.exec, hrun], h.turn hx hrun⟩
  | expire fd =>
      cases hs : σ.timerfds fd with
      | none => simp [TimerAction.Enabled, hs] at he
      | some s =>
          refine ⟨_, by simp only [TimerAction.exec, hs]; rfl, ?_⟩
          refine h.retime ⟨rfl, rfl, rfl, rfl, rfl, ?_⟩ rfl rfl rfl rfl rfl
          by_cases hfd : σ.t.timerfd = fd
          · simp [hfd, hs]
          · dsimp only
            rw [Function.update_of_ne hfd]
  | epollWait x =>
      have hpc : σ.pc x = .poll := by
        have hpc := he.1.2
        revert hpc
        cases σ.pc x <;> simp
      exact ⟨_, rfl, h.goes he.1.1 (by rw [hpc]; rfl) rfl (by rw [hpc]; rfl)⟩
  | event x => exact absurd rfl (hev x)
  | polled x =>
      have hpc : σ.pc x = .events := by
        have hpc := he.2
        revert hpc
        cases σ.pc x <;> simp
      exact ⟨_, rfl, h.goes he.1 (by rw [hpc]; rfl) rfl (by rw [hpc]; rfl)⟩

/-- An event keeps it in order too. -/
theorem step' (h : Tame σ) (he : act.Enabled σ) (hp : σ.Proper act) (hx : act.exec σ = some σ') :
    Tame σ' := by
  by_cases hev : ∀ x, act ≠ .event x
  · obtain ⟨τ, hτ, ht⟩ := h.step he hp hev
    rw [hx] at hτ
    exact Option.some.inj hτ ▸ ht
  · simp only [not_forall, not_not] at hev
    obtain ⟨x, rfl⟩ := hev
    have hl : σ.life = .ready := he.2.1
    obtain ⟨p, r, hent, -⟩ := (h.ready hl).entered
    obtain ⟨i, hi, rfl⟩ := hent.fds
    simp only [TimerAction.exec, hi] at hx
    obtain ⟨f, -, -, ht⟩ := h.event hl hent hx
    exact ht

theorem start (t : TaskTimer) : Tame (.start t) := by
  have hno : ∀ f, ((TimerThread.start t).pc f).isFunc = false ∧
      ∀ c, (TimerThread.start t).pc f ≠ .deinit c := by
    intro f
    simp only [TimerThread.start]
    split <;> exact ⟨rfl, (by simp)⟩
  refine ⟨by simp [TimerThread.start, places, reader], fun f hf => ?_, fun f _ hf => ?_,
    by simp [TimerThread.start], rfl, fun x c hx => ?_, fun f => (hno f).1⟩
  · rw [(hno f).1] at hf
    cases hf
  · rw [(hno f).1] at hf
    cases hf
  · exact absurd hx ((hno x).2 c)

theorem reachable (h : (timers.only Proper).Reachable σ) : Tame σ := by
  refine System.Reachable.invariant (S := timers.only Proper) ?_ ?_ h
  · rintro _ ⟨t, rfl⟩
    exact start t
  · intro σ act σ' hI he hx
    exact hI.step' he.1 he.2 hx

end Tame

end TimerThread

open TimerThread in
/-- **The life of a timer.** In a run of proper calls at most one task is a
`_timer_func`, none is once `timer_deinit` has returned, and no call of
`timer.c` or `task_netrw` fails an assertion. -/
theorem timer_life_cycle (h : (timers.only Proper).Reachable σ) :
    (∀ f ∈ σ.places, ∀ g ∈ σ.places,
      (σ.pc f).isFunc = true → (σ.pc g).isFunc = true → f = g) ∧
    (σ.life = .raw → σ.NoFunc) ∧
    ∀ act, (timers.only Proper).enabled σ act → (∀ x, act ≠ .event x) →
      ∃ σ', act.exec σ = some σ' := by
  have h := Tame.reachable h
  refine ⟨fun f _ g _ => h.one f g, fun hl f _ => h.raw hl f, fun act he hev => ?_⟩
  obtain ⟨σ', hx, -⟩ := h.step he.1 he.2 hev
  exact ⟨σ', hx⟩

/-- A timer is set, and deinitialised while its `_timer_func` waits. -/
theorem timer_life_cycle_deinit : ∃ σ : TimerThread, σ.life = .raw ∧ σ.t.closed = 1 ∧ σ.NoFunc := by
  have h : (((timers.only TimerThread.Proper).run (.start (.zero 0)) [
      .timerInit 0 (some 9) 0 ⟨.ok 3, ⟨some 0, none⟩⟩, .timerSet 0 ⟨1, 0⟩ (-1) 2, .taskyield 0,
      .taskscheduler, .taskyield 1, .taskscheduler, .start 2, .read 2 .again, .taskscheduler,
      .timerDeinit 0, .taskscheduler, .taskyield 1, .taskscheduler, .read 2 .again, .taskscheduler,
      .resume 0]).any fun σ => decide (σ.life = .raw ∧ σ.t.closed = 1)) = true := by
    decide +kernel
  obtain ⟨σ, hσ, hp⟩ := System.Steps.of_run_any h
  obtain ⟨hl, hc⟩ := of_decide_eq_true hp
  exact ⟨σ, hl, hc, (timer_life_cycle (hσ.reachable (.init ⟨_, rfl⟩))).2.1 hl⟩

/-- A timer that is unset and set again has two tasks at its descriptor, and
the second fails the assertion of `task_netrw`. A timer that is deinitialised
before its task has started leaves it behind: it reads the timer, and fails
an assertion. -/
theorem timer_func_left :
    (∃ σ : TimerThread, timers.Reachable σ ∧ σ.life = .ready ∧ σ.reader = some 2 ∧
      σ.pc 3 = .read σ.t.timerfd 0 ∧ (TimerAction.read 3 .again).Enabled σ ∧
      (TimerAction.read 3 .again).exec σ = none) ∧
    ∃ σ : TimerThread, timers.Reachable σ ∧ σ.life = .raw ∧ σ.t.closed = 1 ∧ ¬σ.NoFunc ∧
      (TimerAction.start 2).Enabled σ ∧ (TimerAction.start 2).exec σ = none := by
  constructor
  · have h : ((timers.run (.start (.zero 0)) [
        .timerInit 0 (some 9) 0 ⟨.ok 3, ⟨some 0, none⟩⟩, .timerSet 0 ⟨1, 0⟩ (-1) 2, .taskyield 0,
        .taskscheduler, .taskyield 1, .taskscheduler, .start 2, .read 2 .again, .taskscheduler,
        .timerUnset 0, .timerSet 0 ⟨1, 0⟩ (-1) 3, .taskyield 0, .taskscheduler, .taskyield 1,
        .taskscheduler, .start 3]).any fun σ => decide (σ.life = .ready ∧ σ.reader = some 2 ∧
          σ.pc 3 = .read σ.t.timerfd 0 ∧ (TimerAction.read 3 .again).Enabled σ ∧
          ((TimerAction.read 3 .again).exec σ).isNone = true)) = true := by
      decide +kernel
    obtain ⟨σ, hσ, hp⟩ := System.Steps.of_run_any h
    obtain ⟨hl, hr, hpc, he, hx⟩ := of_decide_eq_true hp
    exact ⟨σ, hσ.reachable (.init ⟨_, rfl⟩), hl, hr, hpc, he, Option.isNone_iff_eq_none.1 hx⟩
  · have h : ((timers.run (.start (.zero 0)) [
        .timerInit 0 (some 9) 0 ⟨.ok 3, ⟨some 0, none⟩⟩, .timerSet 0 ⟨1, 0⟩ (-1) 2, .timerDeinit 0,
        .taskyield 0, .taskscheduler, .taskyield 1, .taskscheduler]).any fun σ => decide (
          σ.life = .raw ∧ σ.t.closed = 1 ∧ ¬σ.NoFunc ∧ (TimerAction.start 2).Enabled σ ∧
          ((TimerAction.start 2).exec σ).isNone = true)) = true := by
      decide +kernel
    obtain ⟨σ, hσ, hp⟩ := System.Steps.of_run_any h
    obtain ⟨hl, hc, hno, he, hx⟩ := of_decide_eq_true hp
    exact ⟨σ, hσ.reachable (.init ⟨_, rfl⟩), hl, hc, hno, he, Option.isNone_iff_eq_none.1 hx⟩

end Libtask

end VmwareProto
