import VmwareProto.Libtask.Places
import VmwareProto.Libtask.Thread
/-!
# The cache of tasks

A task that exits keeps its memory in `taskscache` if its stack has the one
size that is cached. It stays in `alltask` and counts in `taskcount`, as if
it were a task that is no system task; so `taskcount` is the number of those
that are live, and of what the cache holds. `Accounts` says so of every
state, and gives what each step does for the tasks.
-/

namespace VmwareProto

namespace Libtask

/-- Where the tasks of a thread are; those that wait are somewhere once. -/
def Thread.spots (σ : Thread) : Spots :=
  ⟨σ.tasks.lists, σ.tasks.taskrunning, fun _ _ => none, σ.waiting, []⟩

/-- **The lists, the array and `taskcount`.** -/
structure Enrolled (σ : Thread) (ls : Tasklist → List TaskId) (place : TaskId → Option Place) :
    Prop where
  placed : Placed σ.spots ls place
  proper : σ.tasks.alltask.Proper
  all : ∀ t, t ∈ σ.tasks.alltask ↔ place t ≠ none
  nodup : σ.live.Nodup
  live : ∀ t, t ∈ σ.live ↔ place t ≠ none ∧ place t ≠ some (.linked .taskscache)
  cached : ∀ t ∈ ls .taskscache, σ.tasks.stksize t = cacheStackSize ∧ σ.tasks.system t = false
  count : σ.tasks.taskcount = σ.foreground + (ls .taskscache).length

/-- **The accounts**, where the cache holds `max` tasks. -/
structure Accounts (max : ℕ) (σ : Thread) (ls : Tasklist → List TaskId)
    (place : TaskId → Option Place) : Prop extends Enrolled σ ls place where
  cachecount : σ.tasks.taskcachecount = (ls .taskscache).length
  cachemax : (ls .taskscache).length ≤ max

variable {σ σ' : Thread} {T : Tasks} {ls ls' : Tasklist → List TaskId}
  {place place' : TaskId → Option Place} {t u x : TaskId} {p q : Place} {l : Tasklist}
  {ts live waiting : List TaskId} {stack r max : ℕ} {act : ThreadAction}

/-! ## Counting -/

/-- One task's share of a count. -/
theorem countP_of_mem (hx : x ∈ live) (f : TaskId → Bool) :
    live.countP f = (live.erase x).countP f + if f x = true then 1 else 0 := by
  rw [(List.perm_cons_erase hx).countP_eq, List.countP_cons]

theorem countP_update (hx : x ∉ live) (f : TaskId → Bool) (b : Bool) :
    (live.countP fun t => !Function.update f x b t) = live.countP fun t => !f t := by
  refine List.countP_congr fun t ht => ?_
  have hne : t ≠ x := fun e => hx (e ▸ ht)
  rw [Function.update_of_ne hne]

/-! ## One task moves -/

namespace Enrolled

theorem linked (h : Enrolled σ ls place) : t ∈ ls l ↔ place t = some (.linked l) :=
  h.placed.at_iff t (.linked l)

theorem running (h : Enrolled σ ls place) (hx : σ.tasks.taskrunning = some x) :
    place x = some .running := (h.placed.at_iff x .running).1 hx

/-- A live task is not cached. -/
theorem notMem_cache (h : Enrolled σ ls place) (ht : t ∈ σ.live) : t ∉ ls .taskscache :=
  fun hc => ((h.live t).1 ht).2 (h.linked.1 hc)

theorem mem_live (h : Enrolled σ ls place) (ht : place t = some p) (hp : p ≠ .linked .taskscache) :
    t ∈ σ.live :=
  (h.live t).2 ⟨by rw [ht]; exact Option.some_ne_none _, by rw [ht]; exact fun e => hp (Option.some.inj e)⟩

/-- **A live task moves** from one place to another. -/
theorem moved (h : Enrolled σ ls place) (ht : place t = some p) (hp : p ≠ .linked .taskscache)
    (hq : q ≠ .linked .taskscache)
    (hplaced : Placed ⟨T.lists, T.taskrunning, fun _ _ => none, waiting, []⟩ ls'
      (Function.update (Function.update place t none) t (some q)))
    (hcache : ls' .taskscache = ls .taskscache) (hall : T.alltask = σ.tasks.alltask)
    (hsys : T.system = σ.tasks.system) (hstk : T.stksize = σ.tasks.stksize)
    (hcount : T.taskcount = σ.tasks.taskcount) :
    Enrolled ⟨T, σ.live, waiting⟩ ls'
      (Function.update (Function.update place t none) t (some q)) := by
  rw [Function.update_idem] at hplaced ⊢
  have hplace : ∀ u, Function.update place t (some q) u ≠ none ↔ place u ≠ none := fun u => by
    by_cases hu : u = t
    · subst hu
      simp [ht]
    · simp [hu]
  refine ⟨hplaced, by rw [hall]; exact h.proper, fun u => ?_, h.nodup, fun u => ?_, fun u hu => ?_, ?_⟩
  · rw [hall, hplace, h.all]
  · rw [hplace, h.live]
    by_cases hu : u = t
    · subst hu
      simp [ht, hp, hq]
    · simp [hu]
  · rw [hcache] at hu
    rw [hsys, hstk]
    exact h.cached u hu
  · simp only [hcount, h.count, hcache, Thread.foreground, hsys]

/-- The running task goes to the end of a list. -/
theorem enqueued (h : Enrolled σ ls place) (hx : σ.tasks.taskrunning = some x)
    (hl : l ≠ .taskscache) :
    Enrolled ⟨{ σ.tasks with lists := σ.tasks.lists.add l x, taskrunning := none }, σ.live, σ.waiting⟩
      (Function.update ls l (ls l ++ [x]))
      (Function.update (Function.update place x none) x (some (.linked l))) := by
  obtain ⟨ht, hp⟩ := h.placed.stop hx
  refine h.moved ht (by simp) (by simpa using hl) (hp.link (Function.update_self ..) l) ?_
    rfl rfl rfl rfl
  rw [Function.update_of_ne (Ne.symm hl)]

/-- The first task of one list goes to the end of the run queue. -/
theorem requeued (h : Enrolled σ ls place) (hr : ls (.rendez r) = t :: ts) :
    Enrolled ⟨{ σ.tasks with
        lists := (σ.tasks.lists.del (.rendez r) t).add .taskrunqueue t }, σ.live, σ.waiting⟩
      (Function.update (Function.update ls (.rendez r) ts) .taskrunqueue (ls .taskrunqueue ++ [t]))
      (Function.update (Function.update place t none) t (some (.linked .taskrunqueue))) := by
  obtain ⟨ht, hp⟩ := h.placed.unlink hr
  have hp := hp.link (Function.update_self ..) .taskrunqueue
  rw [Function.update_of_ne (by simp)] at hp
  exact h.moved ht (by simp) (by simp) hp (by simp) rfl rfl rfl rfl

/-- The first task of the run queue runs. -/
theorem scheduled (h : Enrolled σ ls place) (hnone : σ.tasks.taskrunning = none)
    (hr : ls .taskrunqueue = t :: ts) {n : ℕ} :
    Enrolled ⟨{ σ.tasks with
        lists := σ.tasks.lists.del .taskrunqueue t, taskrunning := some t, tasknswitch := n },
        σ.live, σ.waiting⟩
      (Function.update ls .taskrunqueue ts)
      (Function.update (Function.update place t none) t (some .running)) := by
  obtain ⟨ht, hp⟩ := h.placed.unlink hr
  exact h.moved ht (by simp) (by simp) (hp.run (Function.update_self ..) hnone) (by simp)
    rfl rfl rfl rfl

/-- The running task waits. -/
theorem waits (h : Enrolled σ ls place) (hx : σ.tasks.taskrunning = some x) :
    Enrolled ⟨σ.tasks.taskswitch, σ.live, σ.waiting ++ [x]⟩ ls
      (Function.update (Function.update place x none) x (some .libaio)) := by
  obtain ⟨ht, hp⟩ := h.placed.stop hx
  exact h.moved ht (by simp) (by simp) (hp.submit (Function.update_self ..)) rfl rfl rfl rfl rfl

/-- A task that waits is made ready. -/
theorem readied (h : Enrolled σ ls place) (ht : t ∈ σ.waiting) :
    Enrolled ⟨σ.tasks.taskready t, σ.live, σ.waiting.erase t⟩
      (Function.update ls .taskrunqueue (ls .taskrunqueue ++ [t]))
      (Function.update (Function.update place t none) t (some (.linked .taskrunqueue))) := by
  obtain ⟨hp, hplaced⟩ := (h.placed.complete ht).reap rfl
  exact h.moved hp (by simp) (by simp) (hplaced.link (Function.update_self ..) .taskrunqueue)
    (by simp) rfl rfl rfl rfl

/-! ## Tasks that come and go -/

/-- A task in memory that was not in use. -/
theorem alloc (h : Enrolled σ ls place) (hnew : t ∉ σ.tasks.alltask) (stack : ℕ) :
    Enrolled ⟨(σ.tasks.taskalloc stack t).taskready t, σ.live ++ [t], σ.waiting⟩
      (Function.update ls .taskrunqueue (ls .taskrunqueue ++ [t]))
      (Function.update place t (some (.linked .taskrunqueue))) := by
  have ht : place t = none := not_not.1 fun hne => hnew ((h.all t).2 hne)
  have hlive : t ∉ σ.live := fun hm => ((h.live t).1 hm).1 ht
  refine ⟨(h.placed.clear ht).link ht .taskrunqueue, h.proper.push hnew, fun u => ?_, ?_, fun u => ?_,
    fun u hu => ?_, ?_⟩
  · rw [show ((σ.tasks.taskalloc stack t).taskready t).alltask = σ.tasks.alltask.push t from rfl,
      AllTask.mem_push, h.all]
    by_cases hu : u = t
    · subst hu
      simp
    · simp [hu]
  · rw [← List.concat_eq_append]
    exact h.nodup.concat hlive
  · rw [List.mem_append, List.mem_singleton, h.live]
    by_cases hu : u = t
    · subst hu
      simp
    · simp [hu]
  · rw [Function.update_of_ne (by simp)] at hu
    have hne : u ≠ t := fun e => h.placed.unlinked ht .taskscache (e ▸ hu)
    simpa [Tasks.taskready, Tasks.taskalloc, Tasks.taskInit, hne] using h.cached u hu
  · rw [Function.update_of_ne (by simp)]
    simp only [Tasks.taskready, Tasks.taskalloc, Tasks.taskInit, Thread.foreground, h.count,
      List.countP_append, countP_update hlive, List.countP_singleton, Function.update_self]
    push_cast
    simp
    omega

/-- A task of the cache is used again. -/
theorem reuse (h : Enrolled σ ls place) (hc : ls .taskscache = t :: ts) {n : ℕ} :
    Enrolled ⟨(({ σ.tasks with
        lists := σ.tasks.lists.del .taskscache t, taskcachecount := n } : Tasks).taskInit t).taskready t,
        σ.live ++ [t], σ.waiting⟩
      (Function.update (Function.update ls .taskscache ts) .taskrunqueue (ls .taskrunqueue ++ [t]))
      (Function.update (Function.update place t none) t (some (.linked .taskrunqueue))) := by
  obtain ⟨ht, hp⟩ := h.placed.unlink hc
  have hnone : Function.update place t none t = none := Function.update_self ..
  have hp := (hp.clear hnone).link hnone .taskrunqueue
  rw [Function.update_of_ne (by simp)] at hp
  have hlive : t ∉ σ.live := fun hm => ((h.live t).1 hm).2 ht
  have hcached : Function.update (Function.update ls .taskscache ts) .taskrunqueue
      (ls .taskrunqueue ++ [t]) .taskscache = ts := by simp
  refine ⟨hp, h.proper, fun u => ?_, ?_, fun u => ?_, fun u hu => ?_, ?_⟩
  · rw [Function.update_idem, show ((({ σ.tasks with
        lists := σ.tasks.lists.del .taskscache t, taskcachecount := n } : Tasks).taskInit t).taskready
        t).alltask = σ.tasks.alltask from rfl, h.all]
    by_cases hu : u = t
    · subst hu
      simp [ht]
    · simp [hu]
  · rw [← List.concat_eq_append]
    exact h.nodup.concat hlive
  · rw [Function.update_idem, List.mem_append, List.mem_singleton, h.live]
    by_cases hu : u = t
    · subst hu
      simp
    · simp [hu]
  · rw [hcached] at hu
    have hmem : u ∈ ls .taskscache := by
      rw [hc]
      exact List.mem_cons_of_mem _ hu
    have hne : u ≠ t := fun e => by
      have := h.placed.lists.nodup .taskscache
      rw [hc, List.nodup_cons] at this
      exact this.1 (e ▸ hu)
    simpa [Tasks.taskready, Tasks.taskInit, hne] using h.cached u hmem
  · rw [hcached]
    simp only [Tasks.taskready, Tasks.taskInit, Thread.foreground, h.count, hc, List.length_cons,
      List.countP_append, countP_update hlive, List.countP_singleton, Function.update_self]
    push_cast
    simp
    omega

/-- `tasksystem` -/
theorem tasksystem (h : Enrolled σ ls place) (hx : σ.tasks.taskrunning = some x) :
    Enrolled ⟨σ.tasks.tasksystem x, σ.live, σ.waiting⟩ ls place := by
  unfold Tasks.tasksystem
  split
  · exact h
  · rename_i hsys
    have hmem := h.mem_live (h.running hx) (by simp)
    refine ⟨h.placed, h.proper, h.all, h.nodup, h.live, fun u hu => ?_, ?_⟩
    · have hne : u ≠ x := fun e => h.notMem_cache hmem (e ▸ hu)
      simpa [hne] using h.cached u hu
    · have hnot : x ∉ σ.live.erase x := fun hm => (h.nodup.mem_erase_iff.1 hm).1 rfl
      simp only [Thread.foreground, h.count]
      rw [countP_of_mem hmem fun t => !σ.tasks.system t,
        countP_of_mem hmem fun t => !Function.update σ.tasks.system x true t,
        countP_update hnot]
      simp [hsys]
      omega

/-- The running task exits, and is freed. -/
theorem free (h : Enrolled σ ls place) (hx : σ.tasks.taskrunning = some x) :
    Enrolled ⟨σ.tasks.taskswitch.taskfree x, σ.live.erase x, σ.waiting⟩ ls
      (Function.update place x none) := by
  obtain ⟨ht, hp⟩ := h.placed.stop hx
  have hmem := h.mem_live ht (by simp)
  obtain ⟨hproper, hperm⟩ := h.proper.remove ((h.all x).2 (by rw [ht]; exact Option.some_ne_none _))
  refine ⟨hp, hproper, fun u => ?_, h.nodup.erase x, fun u => ?_, h.cached, ?_⟩
  · rw [show (σ.tasks.taskswitch.taskfree x).alltask = σ.tasks.alltask.remove x from rfl,
      AllTask.mem_iff, hperm.mem_iff, h.proper.nodup.mem_erase_iff, ← AllTask.mem_iff, h.all]
    by_cases hu : u = x
    · subst hu
      simp
    · simp [hu]
  · rw [h.nodup.mem_erase_iff, h.live]
    by_cases hu : u = x
    · subst hu
      simp
    · simp [hu]
  · simp only [Tasks.taskswitch, Tasks.taskfree, Thread.foreground, h.count,
      countP_of_mem hmem fun t => !σ.tasks.system t]
    split
    · rename_i hsys
      simp [hsys]
    · rename_i hsys
      simp [hsys]
      omega

/-- The running task exits, and is cached. -/
theorem cache (h : Enrolled σ ls place) (hx : σ.tasks.taskrunning = some x)
    (hstk : σ.tasks.stksize x = cacheStackSize) {n : ℕ} :
    Enrolled ⟨{ σ.tasks with
        taskrunning := none
        taskcount := if σ.tasks.system x = true then σ.tasks.taskcount + 1 else σ.tasks.taskcount
        system := Function.update σ.tasks.system x false
        lists := (σ.tasks.lists.clear x).add .taskscache x, taskcachecount := n },
        σ.live.erase x, σ.waiting⟩
      (Function.update ls .taskscache (ls .taskscache ++ [x]))
      (Function.update (Function.update place x none) x (some (.linked .taskscache))) := by
  obtain ⟨ht, hp⟩ := h.placed.stop hx
  have hmem := h.mem_live ht (by simp)
  have hnone : Function.update place x none x = none := Function.update_self ..
  have hnot : x ∉ σ.live.erase x := fun hm => (h.nodup.mem_erase_iff.1 hm).1 rfl
  refine ⟨(hp.clear hnone).link hnone .taskscache, h.proper, fun u => ?_, h.nodup.erase x, fun u => ?_,
    fun u hu => ?_, ?_⟩
  · rw [Function.update_idem, h.all]
    by_cases hu : u = x
    · subst hu
      simp [ht]
    · simp [hu]
  · rw [Function.update_idem, h.nodup.mem_erase_iff, h.live]
    by_cases hu : u = x
    · subst hu
      simp
    · simp [hu]
  · rw [Function.update_self, List.mem_append, List.mem_singleton] at hu
    rcases hu with hu | rfl
    · have hne : u ≠ x := fun e => h.notMem_cache hmem (e ▸ hu)
      simpa [hne] using h.cached u hu
    · simpa using hstk
  · simp only [Thread.foreground, h.count, Function.update_self, List.length_append,
      countP_update hnot, countP_of_mem hmem fun t => !σ.tasks.system t,
      List.length_singleton]
    cases σ.tasks.system x with
    | true => simp; omega
    | false => simp; omega

/-- The first task of the cache is freed. -/
theorem flush (h : Enrolled σ ls place) (hc : ls .taskscache = t :: ts) :
    Enrolled ⟨({ σ.tasks with lists := σ.tasks.lists.del .taskscache t } : Tasks).taskfree t,
      σ.live, σ.waiting⟩ (Function.update ls .taskscache ts) (Function.update place t none) := by
  obtain ⟨ht, hp⟩ := h.placed.unlink hc
  have hmem : t ∈ ls .taskscache := by simp [hc]
  obtain ⟨hproper, hperm⟩ := h.proper.remove ((h.all t).2 (by rw [ht]; exact Option.some_ne_none _))
  refine ⟨hp, hproper, fun u => ?_, h.nodup, fun u => ?_, fun u hu => ?_, ?_⟩
  · rw [show (({ σ.tasks with lists := σ.tasks.lists.del .taskscache t } : Tasks).taskfree t).alltask =
      σ.tasks.alltask.remove t from rfl,
      AllTask.mem_iff, hperm.mem_iff, h.proper.nodup.mem_erase_iff, ← AllTask.mem_iff, h.all]
    by_cases hu : u = t
    · subst hu
      simp
    · simp [hu]
  · rw [h.live]
    by_cases hu : u = t
    · subst hu
      simp [ht]
    · simp [hu]
  · rw [Function.update_self] at hu
    exact h.cached u (by rw [hc]; exact List.mem_cons_of_mem _ hu)
  · have hsys := (h.cached t hmem).2
    simp only [Tasks.taskfree, Thread.foreground, h.count, hc, hsys, Function.update_self,
      List.length_cons, Bool.false_eq_true, if_false]
    push_cast
    omega

/-- The loop of `taskcachefree`. -/
theorem flushes {fuel : ℕ} (h : Enrolled σ ls place) (hf : (ls .taskscache).length < fuel) :
    ∃ T place', Tasks.taskcachefreeLoop fuel σ.tasks = some T ∧
      Enrolled ⟨T, σ.live, σ.waiting⟩ (Function.update ls .taskscache []) place' ∧
      T.taskrunning = σ.tasks.taskrunning ∧ T.system = σ.tasks.system := by
  induction fuel generalizing σ ls place with
  | zero => omega
  | succ fuel ih =>
      have hhead := h.placed.lists.head_eq .taskscache
      cases hc : ls .taskscache with
      | nil =>
          refine ⟨σ.tasks, place, ?_, ?_, rfl, rfl⟩
          · rw [hc] at hhead
            simp only [Tasks.taskcachefreeLoop]
            rw [show σ.tasks.lists.head .taskscache = none from hhead]
          · rw [← hc, Function.update_eq_self]
            exact h
      | cons t ts =>
          rw [hc, List.length_cons] at hf
          obtain ⟨T, place', hrun, hT, hx, hsys⟩ := ih (h.flush hc) (by simp; omega)
          refine ⟨T, place', ?_, by simpa using hT, hx, hsys⟩
          rw [hc] at hhead
          simp only [Tasks.taskcachefreeLoop]
          rw [show σ.tasks.lists.head .taskscache = some t from hhead]
          exact hrun

/-- The cache is a part of `alltask`. -/
theorem cache_le (h : Enrolled σ ls place) :
    (ls .taskscache).length ≤ σ.tasks.alltask.tasks.length := by
  refine List.Nodup.length_le_of_subset (h.placed.lists.nodup .taskscache) fun t ht => ?_
  rw [← AllTask.mem_iff, h.all, h.linked.1 ht]
  exact Option.some_ne_none _

/-- `taskcachefree` -/
theorem taskcachefree (h : Enrolled σ ls place) :
    ∃ T place', σ.tasks.taskcachefree = some T ∧
      Enrolled ⟨T, σ.live, σ.waiting⟩ (Function.update ls .taskscache []) place' ∧
      T.taskcachecount = 0 ∧ T.taskrunning = σ.tasks.taskrunning ∧ T.system = σ.tasks.system := by
  obtain ⟨T, place', hrun, hT, hx, hsys⟩ := h.flushes (Nat.lt_succ_of_le h.cache_le)
  refine ⟨{ T with taskcachecount := 0 }, place', ?_, ?_, rfl, hx, hsys⟩
  · rw [Tasks.taskcachefree, hrun]
    rfl
  · exact ⟨hT.placed, hT.proper, hT.all, hT.nodup, hT.live, hT.cached, hT.count⟩

end Enrolled

/-! ## Steps -/

/-- A list other than the cache is seen. -/
theorem view_queue (hl : l ≠ .taskscache) : (σ.view ls).queue l = ls l :=
  Function.update_of_ne hl ..

theorem update_cache (hl : l ≠ .taskscache) (xs : List TaskId) :
    Function.update (Function.update ls l xs) .taskscache [] =
      Function.update (Function.update ls .taskscache []) l xs :=
  Function.update_comm hl ..

/-- A new task is no system task. -/
theorem system_created (hu : u ∉ live) (f : TaskId → Bool) :
    (fun v => decide (v ∈ live ++ [u]) && Function.update f u false v) =
      fun v => decide (v ∈ live) && f v := by
  funext v
  by_cases hv : v = u
  · subst hv
    simp [hu]
  · simp [hv]

/-- Nor is one that has exited. -/
theorem system_exited (hnd : live.Nodup) {f g : TaskId → Bool} (hg : ∀ v, v ≠ x → g v = f v) :
    (fun v => decide (v ∈ live.erase x) && g v) =
      Function.update (fun v => decide (v ∈ live) && f v) x false := by
  funext v
  by_cases hv : v = x
  · subst hv
    simp [hnd.mem_erase_iff]
  · simp [hnd.mem_erase_iff, hv, hg v hv]

namespace Accounts

/-- A step that leaves the cache alone. -/
theorem of_enrolled (h : Accounts max σ ls place) (h' : Enrolled σ' ls' place')
    (hcache : ls' .taskscache = ls .taskscache)
    (hcount : σ'.tasks.taskcachecount = σ.tasks.taskcachecount) : Accounts max σ' ls' place' :=
  ⟨h', by rw [hcount, hcache, h.cachecount], by rw [hcache]; exact h.cachemax⟩

/-- The assertion of `taskcreate`. -/
theorem taskcreate_isSome_iff (h : Accounts max σ ls place) (t : TaskId) :
    (σ.tasks.taskcreate stack t).isSome = true ↔
      stack = cacheStackSize ∨ σ.tasks.taskcachecount = 0 := by
  have hhead : σ.tasks.lists.head .taskscache = (ls .taskscache).head? := h.placed.lists.head_eq _
  unfold Tasks.taskcreate
  by_cases hs : stack = cacheStackSize
  · simp only [hs, if_true, hhead, h.cachecount, true_or, iff_true]
    cases ls .taskscache with
    | nil => rfl
    | cons t ts => simp
  · simp only [hs, if_false, false_or]
    split <;> simp [*]

/-- `taskcreate` -/
theorem taskcreate (h : Accounts max σ ls place) {m : TaskId}
    (hm : (stack = cacheStackSize → σ.tasks.lists.head .taskscache = none) → m ∉ σ.tasks.alltask)
    (hT : σ.tasks.taskcreate stack m = some (T, t)) :
    t ∉ σ.live ∧ (t = m ∨ σ.tasks.lists.head .taskscache = some t ∧ stack = cacheStackSize) ∧
    ∃ ls' place', Accounts max ⟨T, σ.live ++ [t], σ.waiting⟩ ls' place' ∧
      (⟨T, σ.live ++ [t], σ.waiting⟩ : Thread).view ls' =
        (ThreadAction.taskcreate x stack t).view (σ.view ls) := by
  have hrun : Tasklist.taskrunqueue ≠ .taskscache := by simp
  unfold Tasks.taskcreate at hT
  split at hT
  · rename_i hnone
    split at hT
    · cases hT
      have hm := hm fun hs => by rwa [if_pos hs] at hnone
      have ht : place t = none := not_not.1 fun hne => hm ((h.all t).2 hne)
      have hlive : t ∉ σ.live := fun hmem => ((h.live t).1 hmem).1 ht
      refine ⟨hlive, .inl rfl, _, _, h.of_enrolled (h.toEnrolled.alloc hm stack) ?_ rfl, ?_⟩
      · rw [Function.update_of_ne hrun.symm]
      · simp only [Thread.view, ThreadAction.view, View.ready, View.mk.injEq, update_cache hrun,
          Function.update_of_ne hrun, true_and]
        exact ⟨rfl, system_created hlive σ.tasks.system⟩
    · cases hT
  · rename_i u hu
    split at hT
    · split at hu
      · rename_i hs
        cases hT
        obtain ⟨ts, hts⟩ := h.placed.lists.of_head hu
        have hmem : t ∈ ls .taskscache := by simp [hts]
        have hlive : t ∉ σ.live := fun hmem' => h.notMem_cache hmem' hmem
        have h' := h.toEnrolled.reuse hts (n := σ.tasks.taskcachecount - 1)
        have hcount := h.cachecount
        have hmax := h.cachemax
        rw [hts, List.length_cons] at hcount hmax
        refine ⟨hlive, .inr ⟨hu, hs⟩, _, _, ⟨h', ?_, ?_⟩, ?_⟩
        · simp only [Tasks.taskready, Tasks.taskInit, Function.update_of_ne hrun.symm,
            Function.update_self]
          omega
        · simp only [Function.update_of_ne hrun.symm, Function.update_self]
          omega
        · simp only [Thread.view, ThreadAction.view, View.ready, View.mk.injEq, update_cache hrun,
            Function.update_idem, Function.update_of_ne hrun, true_and]
          exact ⟨rfl, system_created hlive σ.tasks.system⟩
      · cases hu
    · cases hT

/-- `taskexit` -/
theorem taskexit (h : Accounts max σ ls place) (hx : σ.tasks.taskrunning = some x) :
    ∃ ls' place', Accounts max ⟨σ.tasks.taskswitch.taskretireWith max x, σ.live.erase x, σ.waiting⟩
        ls' place' ∧
      (⟨σ.tasks.taskswitch.taskretireWith max x, σ.live.erase x, σ.waiting⟩ : Thread).view ls' =
        (ThreadAction.taskexit x).view (σ.view ls) := by
  unfold Tasks.taskretireWith
  split
  · refine ⟨ls, _, h.of_enrolled (h.toEnrolled.free hx) rfl rfl, ?_⟩
    simp only [Thread.view, ThreadAction.view, View.mk.injEq, true_and]
    exact ⟨rfl, system_exited h.nodup fun _ _ => rfl⟩
  · rename_i hkeep
    rw [not_or, not_not, Nat.not_le] at hkeep
    have h' := h.toEnrolled.cache hx hkeep.1 (n := σ.tasks.taskcachecount + 1)
    have hcount := h.cachecount
    refine ⟨_, _, ⟨h', ?_, ?_⟩, ?_⟩
    · simp only [Function.update_self, List.length_append, List.length_singleton]
      exact congrArg (· + 1) hcount
    · simp only [Function.update_self, List.length_append, List.length_singleton]
      have : σ.tasks.taskcachecount < max := hkeep.2
      omega
    · simp only [Thread.view, ThreadAction.view, Function.update_idem, View.mk.injEq, true_and]
      exact ⟨rfl, system_exited h.nodup fun v hv => Function.update_of_ne hv ..⟩

theorem step (h : Accounts max σ ls place) (he : act.Enabled σ) (hx : act.exec max σ = some σ') :
    ∃ ls' place', Accounts max σ' ls' place' ∧ σ'.view ls' = act.view (σ.view ls) := by
  have hrun : Tasklist.taskrunqueue ≠ .taskscache := by simp
  cases act with
  | taskcreate x stack m =>
      obtain ⟨⟨T, t⟩, hT, hσ'⟩ := Option.bind_eq_some_iff.1 hx
      cases hσ'
      have hm : (stack = cacheStackSize → σ.tasks.lists.head .taskscache = none) →
          m ∉ σ.tasks.alltask := fun hnone => by
        have := he.2
        rwa [if_neg fun hs => hs.2 (hnone hs.1)] at this
      obtain ⟨-, hcases, h'⟩ := h.taskcreate (x := x) hm hT
      obtain rfl : t = m := by
        rcases hcases with rfl | ⟨hhead, hs⟩
        · rfl
        · have := he.2
          rw [hhead, if_pos ⟨hs, Option.some_ne_none _⟩] at this
          exact Option.some.inj this
      exact h'
  | tasksystem x =>
      cases hx
      have hmem := h.mem_live (h.running he) (by simp)
      refine ⟨ls, place, h.of_enrolled (h.toEnrolled.tasksystem he) rfl ?_, ?_⟩
      · unfold Tasks.tasksystem
        split <;> rfl
      · simp only [Thread.view, ThreadAction.view, View.mk.injEq, true_and]
        refine ⟨?_, funext fun v => ?_⟩
        · unfold Tasks.tasksystem
          split <;> rfl
        · unfold Tasks.tasksystem
          by_cases hv : v = x
          · subst hv
            split <;> simp [*]
          · split <;> simp [hv]
  | taskexit x =>
      cases hx
      exact h.taskexit he
  | taskyield x =>
      cases hx
      refine ⟨_, _, h.of_enrolled (h.toEnrolled.enqueued he hrun) (by simp) rfl, ?_⟩
      simp only [Thread.view, ThreadAction.view, View.ready, update_cache hrun, Tasks.taskyield,
        Tasks.taskready, Tasks.taskswitch, Function.update_of_ne hrun]
  | tasksleep x r =>
      cases hx
      have hr : Tasklist.rendez r ≠ .taskscache := by simp
      refine ⟨_, _, h.of_enrolled (h.toEnrolled.enqueued he hr) (by simp) rfl, ?_⟩
      simp only [Thread.view, ThreadAction.view, update_cache hr, Tasks.tasksleep,
        Tasks.taskswitch, Function.update_of_ne hr]
  | taskwakeup x r =>
      cases hx
      have hr : Tasklist.rendez r ≠ .taskscache := by simp
      have hhead := h.placed.lists.head_eq (.rendez r)
      simp only [ThreadAction.view, view_queue hr]
      cases hls : ls (.rendez r) with
      | nil =>
          rw [hls] at hhead
          refine ⟨ls, place, ?_⟩
          simp only [Tasks.taskwakeup, show σ.tasks.lists.head (.rendez r) = none from hhead]
          exact ⟨h, trivial⟩
      | cons t ts =>
          rw [hls] at hhead
          have h' := h.toEnrolled.requeued hls
          simp only [Tasks.taskwakeup, show σ.tasks.lists.head (.rendez r) = some t from hhead]
          refine ⟨_, _, h.of_enrolled h' (by simp) rfl, ?_⟩
          simp only [Thread.view, View.ready, update_cache hrun, update_cache hr, Tasks.taskready,
            Function.update_of_ne hrun, Function.update_of_ne (show Tasklist.taskrunqueue ≠ .rendez r by simp)]
  | taskswitch x =>
      cases hx
      exact ⟨ls, _, h.of_enrolled (h.toEnrolled.waits he) rfl rfl, rfl⟩
  | taskready x t =>
      cases hx
      refine ⟨_, _, h.of_enrolled (h.toEnrolled.readied he.2) (by simp) rfl, ?_⟩
      simp only [Thread.view, ThreadAction.view, View.ready, update_cache hrun, Tasks.taskready,
        Function.update_of_ne hrun]
  | taskcachefree x =>
      obtain ⟨T, hT, hσ'⟩ := Option.bind_eq_some_iff.1 hx
      cases hσ'
      obtain ⟨T', place', hT', h', hcount, hx, hsys⟩ := h.toEnrolled.taskcachefree
      obtain rfl := Option.some.inj (hT.symm.trans hT')
      refine ⟨_, place', ⟨h', ?_, ?_⟩, ?_⟩
      · rw [Function.update_self]
        exact hcount
      · rw [Function.update_self]
        exact Nat.zero_le _
      · simp only [Thread.view, ThreadAction.view, Function.update_idem, hx, hsys]
  | taskscheduler =>
      obtain ⟨hnone, hne, hhead⟩ := he
      obtain ⟨t, ht⟩ := Option.ne_none_iff_exists'.1 hhead
      obtain ⟨ts, hts⟩ := h.placed.lists.of_head ht
      simp only [ThreadAction.exec, Tasks.taskscheduler, if_neg hne, ht] at hx
      cases hx
      refine ⟨_, _, h.of_enrolled (h.toEnrolled.scheduled hnone hts) (by simp) rfl, ?_⟩
      simp only [ThreadAction.view, view_queue hrun, hts]
      simp only [Thread.view, update_cache hrun]

end Accounts

theorem accounts_start (first : Option (ℕ × TaskId)) (max : ℕ) :
    ∃ ls place, Accounts max (Thread.start first) ls place := by
  have hempty : Accounts max ⟨Tasks.empty, [], []⟩ (fun _ => []) fun _ => none := by
    refine ⟨⟨⟨⟨fun l => ⟨rfl, rfl, trivial⟩, fun l => List.nodup_nil, nofun⟩, List.nodup_nil,
      fun t p => ?_⟩, ⟨List.nodup_nil, nofun⟩, fun t => ?_, List.nodup_nil, fun t => ?_, nofun, rfl⟩,
      rfl, Nat.zero_le _⟩
    · cases p <;> simp [Spots.At, Thread.spots, Tasks.empty]
    · simp [AllTask.mem_iff, Tasks.empty]
    · simp
  cases first with
  | none => exact ⟨_, _, hempty⟩
  | some p =>
      have h' := hempty.toEnrolled.alloc (t := p.2) (by simp [AllTask.mem_iff, Tasks.empty]) p.1
      exact ⟨_, _, hempty.of_enrolled h' (by simp) rfl⟩

theorem accounts_reachable (h : (threadSystem max).Reachable σ) :
    ∃ ls place, Accounts max σ ls place := by
  refine h.invariant (I := fun σ => ∃ ls place, Accounts max σ ls place) ?_ ?_
  · rintro _ ⟨first, rfl⟩
    exact accounts_start first max
  · rintro σ act σ' ⟨ls, place, h⟩ he hx
    obtain ⟨ls', place', h', -⟩ := h.step he hx
    exact ⟨ls', place', h'⟩

/-- A task runs, is in the run queue or on a `Rendez`, or waits elsewhere. -/
def Thread.Occupied (σ : Thread) (t : TaskId) : Prop :=
  σ.tasks.taskrunning = some t ∨ t ∈ σ.waiting ∨
    ∃ l xs, l ≠ .taskscache ∧ σ.tasks.lists.Holds l xs ∧ t ∈ xs

theorem Enrolled.occupied (h : Enrolled σ ls place) (ht : σ.Occupied t) : t ∈ σ.live := by
  rcases ht with hx | hw | ⟨l, xs, hl, hxs, ht⟩
  · exact h.mem_live (h.running hx) (by simp)
  · exact h.mem_live ((h.placed.at_iff t .libaio).1 (List.mem_append_left _ hw)) (by simp)
  · obtain rfl := hxs.unique (h.placed.lists.holds l)
    exact h.mem_live (h.linked.1 ht) (by simpa using hl)

/-- **The accounts of the cache.** In every state of every run, between two
tasks and while one runs: `taskcachecount` is the length of `taskscache` and
at most `TASKS_CACHE_MAX`; what it holds has a stack of the cached size;
`taskcount` is the number of live tasks that are no system tasks, and of
cached ones; `alltask` holds each live and each cached task once, at its
`alltaskslot`; and the memory of a new task is that of no live one, running,
queued or asleep. -/
theorem cache_accounts (h : (threadSystem tasksCacheMax).Reachable σ) :
    ∃ cache, σ.tasks.lists.Holds .taskscache cache ∧
      σ.tasks.taskcachecount = cache.length ∧ cache.length ≤ tasksCacheMax ∧
      (∀ t ∈ cache, σ.tasks.stksize t = cacheStackSize) ∧
      σ.tasks.taskcount = σ.foreground + cache.length ∧
      σ.tasks.alltask.tasks.Nodup ∧ (∀ t, t ∈ σ.tasks.alltask ↔ t ∈ σ.live ∨ t ∈ cache) ∧
      (∀ t ∈ cache, t ∉ σ.live) ∧
      (∀ (i : ℕ) (t : TaskId), σ.tasks.alltask.tasks[i]? = some t → σ.tasks.alltask.slot t = i) ∧
      (∀ t, σ.Occupied t → t ∈ σ.live) ∧
      ∀ stack malloc T t, malloc ∉ σ.tasks.alltask →
        σ.tasks.taskcreate stack malloc = some (T, t) → t ∉ σ.live := by
  obtain ⟨ls, place, h⟩ := accounts_reachable h
  refine ⟨ls .taskscache, h.placed.lists.holds _, h.cachecount, h.cachemax,
    fun t ht => (h.cached t ht).1, h.count, h.proper.nodup, fun t => ?_,
    fun t ht hlive => h.notMem_cache hlive ht, h.proper.slot, fun t ht => h.toEnrolled.occupied ht,
    fun stack malloc T t hm hT => (h.taskcreate (x := 0) (fun _ => hm) hT).1⟩
  rw [h.all, h.live, h.linked]
  by_cases ht : place t = some (.linked .taskscache)
  · simp [ht]
  · simp [ht]

/-- A task that ran and exited is in the cache. -/
theorem cache_accounts_cached : ∃ σ : Thread, σ.tasks.taskcachecount = 1 ∧
    σ.tasks.taskcount = σ.foreground + 1 ∧ ∃ cache, σ.tasks.lists.Holds .taskscache cache := by
  have h : (((threadSystem tasksCacheMax).run (.start (some (256 * 1024, 0)))
      [.taskscheduler, .taskcreate 0 cacheStackSize 1, .taskyield 0, .taskscheduler,
        .taskexit 1]).any fun σ => decide (σ.tasks.taskcachecount = 1)) = true := by
    decide +kernel
  obtain ⟨σ, hσ, hp⟩ := System.Steps.of_run_any h
  have hp : σ.tasks.taskcachecount = 1 := of_decide_eq_true hp
  obtain ⟨cache, hc, hn, -, -, hcount, -⟩ := cache_accounts (hσ.reachable (.init ⟨_, rfl⟩))
  exact ⟨σ, hp, by rw [hcount, ← hn, hp]; rfl, cache, hc⟩

end Libtask

end VmwareProto
