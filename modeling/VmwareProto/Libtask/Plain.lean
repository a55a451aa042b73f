import VmwareProto.Libtask.Cache
/-!
# The cache and the plain scheduler

A thread whose cache holds no task frees those that exit. What its tasks see
is what the tasks of a thread with a cache see, as long as the cache does not
get in the way: a stack of another size is asked for while something is
cached, or no task but system tasks is live and the scheduler finds both a
cached task, which it counts, and one to run.
-/

namespace VmwareProto

namespace Libtask

/-- What a turn of the scheduler comes to, for the tasks. -/
inductive Dispatch
  | run (t : Option TaskId)
  | exit
  | stalled
  deriving DecidableEq

def Tasks.Turn.dispatch : Tasks.Turn → Dispatch
  | run T => .run T.taskrunning
  | exit => .exit
  | stalled => .stalled

/-- The next turn of the scheduler. -/
def Thread.dispatch (σ : Thread) : Option Dispatch := σ.tasks.taskscheduler.map Tasks.Turn.dispatch

/-- The tasks of two threads see the same. -/
structure Thread.Alike (σ τ : Thread) : Prop where
  live : σ.live = τ.live
  waiting : σ.waiting = τ.waiting
  running : σ.tasks.taskrunning = τ.tasks.taskrunning
  lists : ∀ l, l ≠ .taskscache → ∀ xs, σ.tasks.lists.Holds l xs ↔ τ.tasks.lists.Holds l xs
  system : ∀ t ∈ σ.live, σ.tasks.system t = τ.tasks.system t

/-- **The cache does not get in the way of a step.** -/
def ThreadAction.Unaffected (σ : Thread) : ThreadAction → Prop
  | taskcreate _ stack _ => stack = cacheStackSize ∨ σ.tasks.taskcachecount = 0
  | taskscheduler =>
      σ.tasks.taskcount = σ.tasks.taskcachecount → σ.tasks.taskcachecount = 0 ∨
        σ.tasks.lists.head .taskrunqueue = none
  | _ => True

instance (σ : Thread) : (act : ThreadAction) → Decidable (act.Unaffected σ)
  | .taskcreate _ _ _ => inferInstanceAs (Decidable (_ ∨ _))
  | .taskscheduler => inferInstanceAs (Decidable (_ → _ ∨ _))
  | .tasksystem _ | .taskexit _ | .taskyield _ | .tasksleep _ _ | .taskwakeup _ _ | .taskswitch _
  | .taskready _ _ | .taskcachefree _ => instDecidableTrue

/-- Two threads, one of them without a cache, with the same view. -/
def Thread.Plainly (max : ℕ) (σ τ : Thread) : Prop :=
  ∃ ls place ls' place', Accounts max σ ls place ∧ Accounts 0 τ ls' place' ∧ σ.view ls = τ.view ls'

variable {σ τ σ' : Thread} {ls ls' : Tasklist → List TaskId} {place place' : TaskId → Option Place}
  {t u x : TaskId} {l : Tasklist} {max : ℕ} {act : ThreadAction}

/-! ## The view of a thread -/

namespace Enrolled

theorem queue_of_view (hv : σ.view ls = τ.view ls') (hl : l ≠ .taskscache) : ls l = ls' l := by
  have h := congrFun (congrArg View.queue hv) l
  rwa [view_queue hl, view_queue hl] at h

theorem system_of_view (hv : σ.view ls = τ.view ls') (ht : t ∈ σ.live) :
    σ.tasks.system t = τ.tasks.system t := by
  have hlive : σ.live = τ.live := congrArg View.live hv
  have h := congrFun (congrArg View.system hv) t
  simpa [Thread.view, ht, ← hlive] using h

theorem alike (h : Enrolled σ ls place) (h' : Enrolled τ ls' place') (hv : σ.view ls = τ.view ls') :
    σ.Alike τ := by
  refine ⟨congrArg View.live hv, congrArg View.waiting hv, congrArg View.running hv,
    fun l hl xs => ?_, fun t => system_of_view hv⟩
  have hq := queue_of_view hv hl
  constructor
  · intro hx
    rw [hx.unique (h.placed.lists.holds l), hq]
    exact h'.placed.lists.holds l
  · intro hx
    rw [hx.unique (h'.placed.lists.holds l), ← hq]
    exact h.placed.lists.holds l

theorem foreground_of_view (hv : σ.view ls = τ.view ls') : σ.foreground = τ.foreground := by
  have hlive : σ.live = τ.live := congrArg View.live hv
  rw [Thread.foreground, Thread.foreground, ← hlive]
  refine List.countP_congr fun t ht => ?_
  rw [system_of_view hv ht]

end Enrolled

/-! ## A turn of the scheduler -/

namespace Accounts

/-- **What a turn comes to**: the thread ends when nothing is counted, or
nothing is to run and only cached tasks are counted. -/
theorem dispatch_eq (h : Accounts max σ ls place) :
    σ.dispatch = some (if σ.tasks.taskcount = 0 then .exit else
      match ls .taskrunqueue with
      | [] => if σ.foreground = 0 then .exit else .stalled
      | t :: _ => .run (some t)) := by
  have hhead : σ.tasks.lists.head .taskrunqueue = (ls .taskrunqueue).head? :=
    h.placed.lists.head_eq _
  unfold Thread.dispatch Tasks.taskscheduler
  by_cases hcount : σ.tasks.taskcount = 0
  · simp [hcount, Tasks.Turn.dispatch]
  · rw [if_neg hcount, if_neg hcount]
    cases hq : ls .taskrunqueue with
    | nil =>
        obtain ⟨T, place', hT, h', -, -, hsys⟩ := h.toEnrolled.taskcachefree
        have hforeground : T.taskcount = σ.foreground := by
          have := h'.count
          rw [Function.update_self] at this
          simpa [Thread.foreground, hsys] using this
        simp only [hhead, hq, List.head?_nil, hT, Option.bind_eq_bind, Option.bind_some,
          Option.map_some, hforeground, Int.natCast_eq_zero]
        split <;> rfl
    | cons t ts => simp [hhead, hq, Tasks.Turn.dispatch]

/-- Without a cache, a turn ends the thread when no task but system tasks is
live. -/
theorem dispatch_plain (h : Accounts 0 τ ls place) :
    τ.dispatch = some (if τ.foreground = 0 then .exit else
      match ls .taskrunqueue with
      | [] => .stalled
      | t :: _ => .run (some t)) := by
  have hcache : (ls .taskscache).length = 0 := Nat.le_zero.1 h.cachemax
  have hcount : τ.tasks.taskcount = τ.foreground := by rw [h.count, hcache]; simp
  rw [h.dispatch_eq]
  by_cases hf : τ.foreground = 0
  · simp [hcount, hf]
  · simp only [hcount, Int.natCast_eq_zero, hf, if_false]

theorem exit_plain (h : Accounts 0 τ ls place) : τ.dispatch = some .exit ↔ τ.foreground = 0 := by
  rw [h.dispatch_plain]
  by_cases hf : τ.foreground = 0
  · simp [hf]
  · simp only [hf, if_false, iff_false]
    split <;> simp

/-- A turn is affected if only cached tasks are counted, and one is to run. -/
theorem dispatch_iff (h : Accounts max σ ls place) (h' : Accounts 0 τ ls' place')
    (hv : σ.view ls = τ.view ls') :
    σ.dispatch = τ.dispatch ↔ ThreadAction.Unaffected σ .taskscheduler := by
  have hhead : σ.tasks.lists.head .taskrunqueue = (ls .taskrunqueue).head? :=
    h.placed.lists.head_eq _
  rw [h.dispatch_eq, h'.dispatch_plain, ← Enrolled.queue_of_view hv (l := .taskrunqueue) (by simp),
    ← Enrolled.foreground_of_view hv, ThreadAction.Unaffected, hhead, h.cachecount, h.count]
  by_cases hf : σ.foreground = 0
  · by_cases hc : (ls .taskscache).length = 0
    · simp [hf, hc]
    · rw [if_neg (by omega), if_pos hf]
      cases ls .taskrunqueue with
      | nil => simp [hf]
      | cons t ts => simpa [hf] using hc
  · rw [if_neg (by omega), if_neg hf]
    cases ls .taskrunqueue with
    | nil => simp [hf]
    | cons t ts => simp; omega

end Accounts

/-! ## Runs -/

theorem plainly_start (first : Option (ℕ × TaskId)) (max : ℕ) :
    (Thread.start first).Plainly max (Thread.start first) := by
  obtain ⟨ls, place, h⟩ := accounts_start first max
  obtain ⟨ls', place', h'⟩ := accounts_start first 0
  have hls : ls = ls' := funext fun l =>
    (h.placed.lists.holds l).unique (h'.placed.lists.holds l)
  exact ⟨ls, place, ls', place', h, h', by rw [hls]⟩

/-- What is possible with a cache is possible without. -/
theorem Thread.Plainly.enabled (h : σ.Plainly max τ) (he : act.Enabled σ)
    (hu : act.Unaffected σ) : act.Enabled τ := by
  obtain ⟨ls, place, ls', place', h, h', hv⟩ := h
  have hrunning : σ.tasks.taskrunning = τ.tasks.taskrunning := congrArg View.running hv
  cases act with
  | taskcreate x stack t =>
      have hcache : ls' .taskscache = [] := List.length_eq_zero_iff.1 (Nat.le_zero.1 h'.cachemax)
      have hhead : τ.tasks.lists.head .taskscache = none := by
        have := h'.placed.lists.head_eq .taskscache
        rwa [hcache] at this
      have hlive : σ.live = τ.live := congrArg View.live hv
      have hnot : t ∉ σ.live := fun hm => by
        have he := he.2
        split at he
        · rename_i hcond
          obtain ⟨ts, hts⟩ := h.placed.lists.of_head he
          exact h.notMem_cache hm (by simp [hts])
        · exact he ((h.all t).2 ((h.live t).1 hm).1)
      refine ⟨hrunning.symm.trans he.1, ?_⟩
      rw [if_neg fun hcond => hcond.2 hhead]
      rw [h'.all]
      intro hne
      refine hnot (hlive ▸ (h'.live t).2 ⟨hne, fun hc => ?_⟩)
      have := h'.linked.2 hc
      rw [hcache] at this
      cases this
  | taskready x t =>
      have hwaiting : σ.waiting = τ.waiting := congrArg View.waiting hv
      exact ⟨hrunning.symm.trans he.1, hwaiting ▸ he.2⟩
  | taskscheduler =>
      obtain ⟨hnone, hne, hhead⟩ := he
      have hq : ls .taskrunqueue = ls' .taskrunqueue := Enrolled.queue_of_view hv (by simp)
      refine ⟨hrunning.symm.trans hnone, ?_, ?_⟩
      · intro hzero
        have hcount := h.count
        have hcount' := h'.count
        have hf := Enrolled.foreground_of_view hv
        have hcc := h.cachecount
        have := hu (by omega)
        rcases this with hc | hc
        · omega
        · exact hhead hc
      · have h₁ : σ.tasks.lists.head .taskrunqueue = (ls .taskrunqueue).head? :=
          h.placed.lists.head_eq _
        have h₂ : τ.tasks.lists.head .taskrunqueue = (ls' .taskrunqueue).head? :=
          h'.placed.lists.head_eq _
        rw [h₂, ← hq, ← h₁]
        exact hhead
  | tasksystem x => exact hrunning.symm.trans he
  | taskexit x => exact hrunning.symm.trans he
  | taskyield x => exact hrunning.symm.trans he
  | tasksleep x r => exact hrunning.symm.trans he
  | taskwakeup x r => exact hrunning.symm.trans he
  | taskswitch x => exact hrunning.symm.trans he
  | taskcachefree x => exact hrunning.symm.trans he

/-- Nor does a step without a cache fail. -/
theorem Accounts.exec_plain (h : Accounts 0 τ ls place) (he : act.Enabled τ) :
    ∃ τ', act.exec 0 τ = some τ' := by
  have hcache : (ls .taskscache).length = 0 := Nat.le_zero.1 h.cachemax
  cases act with
  | taskcreate x stack t =>
      have hcreate : (τ.tasks.taskcreate stack t).isSome = true :=
        (h.taskcreate_isSome_iff t).2 (.inr (by rw [h.cachecount, hcache]))
      obtain ⟨⟨T, u⟩, hT⟩ := Option.isSome_iff_exists.1 hcreate
      exact ⟨_, by simp only [ThreadAction.exec, hT]; rfl⟩
  | taskcachefree x =>
      obtain ⟨T, place', hT, -⟩ := h.toEnrolled.taskcachefree
      exact ⟨_, by simp only [ThreadAction.exec, hT]; rfl⟩
  | taskscheduler =>
      obtain ⟨-, hne, hhead⟩ := he
      obtain ⟨t, ht⟩ := Option.ne_none_iff_exists'.1 hhead
      exact ⟨_, by simp only [ThreadAction.exec, Tasks.taskscheduler, if_neg hne, ht]; rfl⟩
  | tasksystem x => exact ⟨_, rfl⟩
  | taskexit x => exact ⟨_, rfl⟩
  | taskyield x => exact ⟨_, rfl⟩
  | tasksleep x r => exact ⟨_, rfl⟩
  | taskwakeup x r => exact ⟨_, rfl⟩
  | taskswitch x => exact ⟨_, rfl⟩
  | taskready x t => exact ⟨_, rfl⟩

/-- **One step, with and without a cache.** -/
theorem Thread.Plainly.step (h : σ.Plainly max τ) (he : act.Enabled σ) (hu : act.Unaffected σ)
    (hx : act.exec max σ = some σ') :
    ∃ τ', act.Enabled τ ∧ act.exec 0 τ = some τ' ∧ σ'.Plainly max τ' := by
  have he' := h.enabled he hu
  obtain ⟨ls, place, ls', place', h, h', hv⟩ := h
  obtain ⟨τ', hx'⟩ := h'.exec_plain he'
  obtain ⟨ls₁, place₁, h₁, hv₁⟩ := h.step he hx
  obtain ⟨ls₂, place₂, h₂, hv₂⟩ := h'.step he' hx'
  exact ⟨τ', he', hx', ls₁, place₁, ls₂, place₂, h₁, h₂, by rw [hv₁, hv₂, hv]⟩

/-- **With and without a cache.** A run in which the cache does not get in
the way is a run of the thread that frees what exits, and its tasks see the
same at every moment. There `taskcreate` meets its assertion, and a turn
comes to the same, an end when no task but system tasks is live, exactly if
the cache does not get in the way of that step either. -/
theorem cached_eq_plain {σ₀ : Thread} {as : List ThreadAction}
    (hinit : (threadSystem tasksCacheMax).init σ₀)
    (hrun : ((threadSystem tasksCacheMax).only fun σ act => act.Unaffected σ).Steps σ₀ as σ) :
    ∃ τ, (threadSystem 0).Steps σ₀ as τ ∧ σ.Alike τ ∧
      (∀ x stack t, (ThreadAction.taskcreate x stack t).Enabled σ →
        ((σ.tasks.taskcreate stack t).isSome = true ↔
          (ThreadAction.taskcreate x stack t).Unaffected σ)) ∧
      (σ.tasks.taskrunning = none →
        (σ.dispatch = τ.dispatch ∧ (σ.dispatch = some .exit ↔ σ.foreground = 0) ↔
          ThreadAction.taskscheduler.Unaffected σ)) := by
  obtain ⟨first, rfl⟩ := hinit
  obtain ⟨τ, hτ, ls, place, ls', place', h, h', hv⟩ :=
    hrun.simulate (R := Thread.Plainly tasksCacheMax) (T := threadSystem 0)
      (plainly_start first tasksCacheMax)
      fun _ _ _ _ hR he hx => hR.step he.1 he.2 hx
  refine ⟨τ, hτ, h.toEnrolled.alike h'.toEnrolled hv,
    fun x stack t _ => h.taskcreate_isSome_iff t, fun _ => ?_⟩
  rw [h.dispatch_iff h' hv]
  refine and_iff_left_of_imp fun hu => ?_
  rw [(h.dispatch_iff h' hv).2 hu, h'.exit_plain, Enrolled.foreground_of_view hv]

/-- A task of the cached size runs, exits and is created again. -/
theorem cached_eq_plain_reused : ∃ σ τ : Thread, σ.tasks.taskcachecount = 1 ∧ σ.Alike τ ∧
    σ.dispatch = τ.dispatch := by
  have h : ((((threadSystem tasksCacheMax).only fun σ act => act.Unaffected σ).run
      (.start (some (256 * 1024, 0)))
      [.taskscheduler, .taskcreate 0 cacheStackSize 1, .taskyield 0, .taskscheduler,
        .taskexit 1]).any fun σ => decide (σ.tasks.taskcachecount = 1 ∧
          σ.tasks.taskrunning = none ∧ ThreadAction.taskscheduler.Unaffected σ)) = true := by
    decide +kernel
  obtain ⟨σ, hσ, hp⟩ := System.Steps.of_run_any h
  obtain ⟨hcount, hnone, hu⟩ := of_decide_eq_true hp
  obtain ⟨τ, -, halike, -, hturn⟩ := cached_eq_plain ⟨_, rfl⟩ hσ
  exact ⟨σ, τ, hcount, halike, ((hturn hnone).2 hu).1⟩

/-- **Where it does.** A stack of another size while a task is cached makes
`taskcreate` fail its assertion; and a thread whose one live task is a system
task goes on with it, for a task that is cached. -/
theorem cache_unlike_plain :
    (∃ σ, (threadSystem tasksCacheMax).Reachable σ ∧
      (ThreadAction.taskcreate 0 (64 * 1024) 2).Enabled σ ∧
      σ.tasks.taskcreate (64 * 1024) 2 = none) ∧
    ∃ σ, (threadSystem tasksCacheMax).Reachable σ ∧ σ.tasks.taskrunning = none ∧
      σ.foreground = 0 ∧ σ.dispatch = some (.run (some 1)) := by
  constructor
  · have h : (((threadSystem tasksCacheMax).run (.start (some (256 * 1024, 0)))
        [.taskscheduler, .taskcreate 0 cacheStackSize 1, .taskyield 0, .taskscheduler, .taskexit 1,
          .taskscheduler]).any fun σ =>
          decide ((ThreadAction.taskcreate 0 (64 * 1024) 2).Enabled σ ∧
            (σ.tasks.taskcreate (64 * 1024) 2).isNone = true)) = true := by
      decide +kernel
    obtain ⟨σ, hσ, hp⟩ := System.Steps.of_run_any h
    obtain ⟨he, hT⟩ := of_decide_eq_true hp
    exact ⟨σ, hσ.reachable (.init ⟨_, rfl⟩), he, Option.isNone_iff_eq_none.1 hT⟩
  · have h : (((threadSystem tasksCacheMax).run (.start (some (256 * 1024, 0)))
        [.taskscheduler, .taskcreate 0 cacheStackSize 1, .taskcreate 0 cacheStackSize 2, .taskyield 0,
          .taskscheduler, .tasksystem 1, .taskyield 1, .taskscheduler, .taskexit 2,
          .taskscheduler, .taskexit 0]).any fun σ =>
          decide (σ.tasks.taskrunning = none ∧ σ.foreground = 0 ∧
            σ.dispatch = some (.run (some 1)))) = true := by
      decide +kernel
    obtain ⟨σ, hσ, hp⟩ := System.Steps.of_run_any h
    exact ⟨σ, hσ.reachable (.init ⟨_, rfl⟩), of_decide_eq_true hp⟩

end Libtask

end VmwareProto
