import VmwareProto.Libtask.AllTask
import VmwareProto.Libtask.Program
/-!
# Where tasks are

A task is somewhere once: it runs, is linked in a list, is recorded in a
context or waits for libaio. `Placed` says so of a function that tells
where; each operation on the run queue, on a context or on a request moves
one task.
-/

namespace VmwareProto

namespace Libtask

/-- Where a task can be. -/
inductive Place
  | running
  | linked (l : Tasklist)
  | recorded (c : Ctx) (s : Side)
  | libaio
  deriving DecidableEq

/-- What holds tasks. -/
structure Spots where
  lists : Queues Tasklist TaskId
  running : Option TaskId
  waiter : Ctx → Side → Option TaskId
  submitted : List TaskId
  completed : List TaskId

def Taskio.spots (σ : Taskio) : Spots :=
  ⟨σ.tasks.lists, σ.tasks.taskrunning, fun c => (σ.contexts.ctx c).waiter, σ.submitted, σ.completed⟩

/-- Task `t` is at a place, where the lists are `ls`. -/
def Spots.At (S : Spots) (ls : Tasklist → List TaskId) (t : TaskId) : Place → Prop
  | .running => S.running = some t
  | .linked l => t ∈ ls l
  | .recorded c s => S.waiter c s = some t
  | .libaio => t ∈ S.submitted ++ S.completed

/-- **Tasks are where `place` says**, and nowhere else. -/
structure Placed (S : Spots) (ls : Tasklist → List TaskId) (place : TaskId → Option Place) : Prop where
  lists : S.lists.All ls
  libaio : (S.submitted ++ S.completed).Nodup
  at_iff : ∀ t p, S.At ls t p ↔ place t = some p

variable {S S' : Spots} {ls ls' : Tasklist → List TaskId} {place : TaskId → Option Place}
  {t u : TaskId} {p q : Place} {l : Tasklist} {c : Ctx} {s : Side} {ts : List TaskId}

namespace Placed

/-- Nobody is anywhere. -/
theorem empty : Placed ⟨Tasks.empty.lists, none, fun _ _ => none, [], []⟩ (fun _ => [])
    fun _ => none := by
  refine ⟨⟨fun l => ⟨rfl, rfl, trivial⟩, fun l => List.nodup_nil, nofun⟩, List.nodup_nil,
    fun t p => ?_⟩
  cases p <;> simp [Spots.At]

theorem nowhere (h : Placed S ls place) (ht : place t = none) (p : Place) : ¬S.At ls t p := fun hp => by
  rw [h.at_iff, ht] at hp
  cases hp

theorem unlinked (h : Placed S ls place) (ht : place t = none) (l : Tasklist) : t ∉ ls l :=
  h.nowhere ht (.linked l)

/-- A task comes to a place. -/
theorem enter (h : Placed S ls place) (ht : place t = none) (hl : S'.lists.All ls')
    (ha : (S'.submitted ++ S'.completed).Nodup)
    (hat : ∀ u p, S'.At ls' u p ↔ S.At ls u p ∨ u = t ∧ p = q) :
    Placed S' ls' (Function.update place t (some q)) := by
  refine ⟨hl, ha, fun u p => ?_⟩
  rw [hat]
  by_cases hu : u = t
  · subst hu
    have := h.nowhere ht p
    rw [Function.update_self, Option.some.injEq]
    constructor
    · rintro (hp | ⟨-, hp⟩)
      · exact absurd hp this
      · exact hp.symm
    · intro hp
      exact .inr ⟨rfl, hp.symm⟩
  · rw [Function.update_of_ne hu, h.at_iff]
    simp [hu]

/-- A task leaves its place. -/
theorem leave (h : Placed S ls place) (ht : place t = some q) (hl : S'.lists.All ls')
    (ha : (S'.submitted ++ S'.completed).Nodup)
    (hat : ∀ u p, S'.At ls' u p ↔ S.At ls u p ∧ (u = t → p ≠ q)) :
    Placed S' ls' (Function.update place t none) := by
  refine ⟨hl, ha, fun u p => ?_⟩
  rw [hat]
  by_cases hu : u = t
  · subst hu
    rw [Function.update_self]
    constructor
    · rintro ⟨hp, hne⟩
      rw [h.at_iff, ht] at hp
      exact absurd (Option.some.inj hp).symm (hne rfl)
    · intro hp
      cases hp
  · rw [Function.update_of_ne hu, h.at_iff]
    simp [hu]

/-! ## Lists -/

/-- A task is linked at the end of a list. -/
theorem link (h : Placed S ls place) (ht : place t = none) (l : Tasklist) :
    Placed { S with lists := S.lists.add l t } (Function.update ls l (ls l ++ [t]))
      (Function.update place t (some (.linked l))) := by
  refine h.enter ht (h.lists.add (h.unlinked ht)) h.libaio fun u p => ?_
  cases p with
  | linked k =>
      by_cases hk : k = l
      · subst hk
        simp [Spots.At]
      · simp [Spots.At, hk]
  | _ => simp [Spots.At]

/-- The first task of a list is unlinked. -/
theorem unlink (h : Placed S ls place) (hl : ls l = t :: ts) :
    place t = some (.linked l) ∧
    Placed { S with lists := S.lists.del l t } (Function.update ls l ts)
      (Function.update place t none) := by
  have ht : place t = some (.linked l) :=
    (h.at_iff t (.linked l)).1 (by simp [Spots.At, hl])
  have hnd := h.lists.nodup l
  rw [hl, List.nodup_cons] at hnd
  refine ⟨ht, h.leave ht (h.lists.del hl) h.libaio fun u p => ?_⟩
  cases p with
  | linked k =>
      by_cases hk : k = l
      · subst hk
        simp only [Spots.At, Function.update_self, hl, List.mem_cons]
        constructor
        · intro hu
          exact ⟨.inr hu, fun e => absurd (e ▸ hu) hnd.1⟩
        · rintro ⟨hu | hu, hne⟩
          · exact absurd rfl (hne hu)
          · exact hu
      · simp [Spots.At, hk]
  | _ => simp [Spots.At]

/-- The links of a task that is in no list are cleared. -/
theorem clear (h : Placed S ls place) (ht : place t = none) :
    Placed { S with lists := S.lists.clear t } ls place :=
  ⟨h.lists.clear (h.unlinked ht), h.libaio, fun u p => by
    rw [← h.at_iff]
    cases p <;> rfl⟩

/-! ## The scheduler -/

/-- A task runs. -/
theorem run (h : Placed S ls place) (ht : place t = none) (hr : S.running = none) :
    Placed { S with running := some t } ls (Function.update place t (some .running)) := by
  refine h.enter ht h.lists h.libaio fun u p => ?_
  cases p with
  | running => simp [Spots.At, hr, eq_comm]
  | _ => simp [Spots.At]

/-- The running task is taken off. -/
theorem stop (h : Placed S ls place) (hr : S.running = some t) :
    place t = some .running ∧
    Placed { S with running := none } ls (Function.update place t none) := by
  have ht := (h.at_iff t .running).1 hr
  refine ⟨ht, h.leave ht h.lists h.libaio fun u p => ?_⟩
  cases p with
  | running => simp [Spots.At, hr, eq_comm]
  | _ => simp [Spots.At]

/-! ## Contexts and requests -/

/-- A task is recorded in a context. -/
theorem record (h : Placed S ls place) (ht : place t = none) (hc : S.waiter c s = none) :
    Placed { S with
      waiter := Function.update S.waiter c (Function.update (S.waiter c) s (some t)) } ls
      (Function.update place t (some (.recorded c s))) := by
  refine h.enter ht h.lists h.libaio fun u p => ?_
  cases p with
  | recorded d r =>
      by_cases hd : d = c
      · subst hd
        by_cases hr : r = s
        · subst hr
          simp [Spots.At, hc, eq_comm]
        · simp [Spots.At, hr]
      · simp [Spots.At, hd]
  | _ => simp [Spots.At]

/-- A recorded task is recorded no more. -/
theorem unrecord (h : Placed S ls place) (hc : S.waiter c s = some t) :
    place t = some (.recorded c s) ∧
    Placed { S with waiter := Function.update S.waiter c (Function.update (S.waiter c) s none) } ls
      (Function.update place t none) := by
  have ht := (h.at_iff t (.recorded c s)).1 hc
  refine ⟨ht, h.leave ht h.lists h.libaio fun u p => ?_⟩
  cases p with
  | recorded d r =>
      by_cases hd : d = c
      · subst hd
        by_cases hr : r = s
        · subst hr
          simp [Spots.At, hc, eq_comm]
        · simp [Spots.At, hr]
      · simp [Spots.At, hd]
  | _ => simp [Spots.At]

/-- A request is submitted. -/
theorem submit (h : Placed S ls place) (ht : place t = none) :
    Placed { S with submitted := S.submitted ++ [t] } ls (Function.update place t (some .libaio)) := by
  have hnot := h.nowhere ht .libaio
  have hperm : (S.submitted ++ [t] ++ S.completed).Perm (t :: (S.submitted ++ S.completed)) := by
    rw [List.append_assoc, List.singleton_append]
    exact List.perm_middle
  refine h.enter ht h.lists (hperm.nodup_iff.2 (List.nodup_cons.2 ⟨hnot, h.libaio⟩)) fun u p => ?_
  cases p with
  | libaio =>
      simp only [Spots.At]
      rw [hperm.mem_iff, List.mem_cons]
      simp [or_comm]
  | _ => simp [Spots.At]

/-- A request is done, and waits to be reaped. -/
theorem complete (h : Placed S ls place) (ht : t ∈ S.submitted) :
    Placed { S with submitted := S.submitted.erase t, completed := S.completed ++ [t] } ls place := by
  have hperm : (S.submitted.erase t ++ (S.completed ++ [t])).Perm (S.submitted ++ S.completed) := by
    rw [← List.append_assoc]
    refine (List.perm_append_singleton t _).trans ?_
    rw [← List.cons_append]
    exact (List.perm_cons_erase ht).symm.append_right _
  refine ⟨h.lists, hperm.nodup_iff.2 h.libaio, fun u p => ?_⟩
  cases p with
  | libaio => exact (hperm.mem_iff).trans (h.at_iff u .libaio)
  | running => exact h.at_iff u .running
  | linked l => exact h.at_iff u (.linked l)
  | recorded c s => exact h.at_iff u (.recorded c s)

/-- The first completion is reaped. -/
theorem reap (h : Placed S ls place) (hc : S.completed = t :: ts) :
    place t = some .libaio ∧
    Placed { S with completed := ts } ls (Function.update place t none) := by
  have hmem : t ∈ S.submitted ++ S.completed := by simp [hc]
  have ht := (h.at_iff t .libaio).1 hmem
  have hnd := h.libaio
  rw [hc] at hnd
  have hperm := @List.perm_middle _ t S.submitted ts
  have hnd' := List.nodup_cons.1 (hperm.nodup_iff.1 hnd)
  refine ⟨ht, h.leave ht h.lists hnd'.2 fun u p => ?_⟩
  cases p with
  | libaio =>
      simp only [Spots.At, hc]
      rw [hperm.mem_iff, List.mem_cons]
      constructor
      · intro hu
        exact ⟨.inr hu, fun e => absurd (e ▸ hu) hnd'.1⟩
      · rintro ⟨hu | hu, hne⟩
        · exact absurd rfl (hne hu)
        · exact hu
  | _ => simp [Spots.At]

end Placed

/-! ## All tasks -/

/-- **Every task is in one place**, once. -/
def Tidy (S : Spots) (all : AllTask) : Prop :=
  ∃ ls place, Placed S ls place ∧ all.Proper ∧ ∀ t, t ∈ all ↔ place t ≠ none

namespace Tidy

variable {all : AllTask} {x : TaskId} {r : ℕ}

/-- The running task is recorded nowhere. -/
theorem recorded_ne (h : Tidy S all) (hx : S.running = some x) (hc : S.waiter c s = some t) : t ≠ x := by
  obtain ⟨ls, place, hp, -, -⟩ := h
  rintro rfl
  have h₁ := (hp.at_iff t .running).1 hx
  rw [(hp.at_iff t (.recorded c s)).1 hc] at h₁
  cases h₁

/-- A task that moves is a task. -/
theorem moved (hall : ∀ u, u ∈ all ↔ place u ≠ none) (ht : place t = some p) (u : TaskId) :
    u ∈ all ↔ Function.update (Function.update place t none) t (some q) u ≠ none := by
  rw [Function.update_idem, hall]
  by_cases hu : u = t
  · subst hu
    simp [ht]
  · simp [hu]

theorem taskyield (h : Tidy S all) (hx : S.running = some x) :
    Tidy { S with lists := S.lists.add .taskrunqueue x, running := none } all := by
  obtain ⟨ls, place, hp, hnd, hall⟩ := h
  obtain ⟨ht, hp⟩ := hp.stop hx
  exact ⟨_, _, hp.link (Function.update_self ..) .taskrunqueue, hnd, moved hall ht⟩

theorem tasksleep (h : Tidy S all) (hx : S.running = some x) :
    Tidy { S with lists := S.lists.add (.rendez r) x, running := none } all := by
  obtain ⟨ls, place, hp, hnd, hall⟩ := h
  obtain ⟨ht, hp⟩ := hp.stop hx
  exact ⟨_, _, hp.link (Function.update_self ..) (.rendez r), hnd, moved hall ht⟩

theorem taskwakeup (h : Tidy S all) (hr : S.lists.head (.rendez r) = some t) :
    Tidy { S with lists := (S.lists.del (.rendez r) t).add .taskrunqueue t } all := by
  obtain ⟨ls, place, hp, hnd, hall⟩ := h
  obtain ⟨ts, hts⟩ := hp.lists.of_head hr
  obtain ⟨ht, hp⟩ := hp.unlink hts
  exact ⟨_, _, hp.link (Function.update_self ..) .taskrunqueue, hnd, moved hall ht⟩

/-- The scheduler takes the first task of the run queue. -/
theorem taskscheduler (h : Tidy S all) (hnone : S.running = none)
    (hr : S.lists.head .taskrunqueue = some t) :
    Tidy { S with lists := S.lists.del .taskrunqueue t, running := some t } all := by
  obtain ⟨ls, place, hp, hnd, hall⟩ := h
  obtain ⟨ts, hts⟩ := hp.lists.of_head hr
  obtain ⟨ht, hp⟩ := hp.unlink hts
  exact ⟨_, _, hp.run (Function.update_self ..) hnone, hnd, moved hall ht⟩

/-- A task that was recorded is ready. -/
theorem wake (h : Tidy S all) (hc : S.waiter c s = some t) :
    Tidy { S with
      lists := S.lists.add .taskrunqueue t
      waiter := Function.update S.waiter c (Function.update (S.waiter c) s none) } all := by
  obtain ⟨ls, place, hp, hnd, hall⟩ := h
  obtain ⟨ht, hp⟩ := hp.unrecord hc
  exact ⟨_, _, hp.link (Function.update_self ..) .taskrunqueue, hnd, moved hall ht⟩

/-- The running task is recorded in a context. -/
theorem suspend (h : Tidy S all) (hx : S.running = some x) (hc : S.waiter c s = none) :
    Tidy { S with
      running := none
      waiter := Function.update S.waiter c (Function.update (S.waiter c) s (some x)) } all := by
  obtain ⟨ls, place, hp, hnd, hall⟩ := h
  obtain ⟨ht, hp⟩ := hp.stop hx
  exact ⟨_, _, hp.record (Function.update_self ..) hc, hnd, moved hall ht⟩

theorem aiorw (h : Tidy S all) (hx : S.running = some x) :
    Tidy { S with running := none, submitted := S.submitted ++ [x] } all := by
  obtain ⟨ls, place, hp, hnd, hall⟩ := h
  obtain ⟨ht, hp⟩ := hp.stop hx
  exact ⟨_, _, hp.submit (Function.update_self ..), hnd, moved hall ht⟩

theorem complete (h : Tidy S all) (ht : t ∈ S.submitted) :
    Tidy { S with submitted := S.submitted.erase t, completed := S.completed ++ [t] } all := by
  obtain ⟨ls, place, hp, hnd, hall⟩ := h
  exact ⟨ls, place, hp.complete ht, hnd, hall⟩

theorem reap (h : Tidy S all) (hc : S.completed = t :: ts) :
    Tidy { S with lists := S.lists.add .taskrunqueue t, completed := ts } all := by
  obtain ⟨ls, place, hp, hnd, hall⟩ := h
  obtain ⟨ht, hp⟩ := hp.reap hc
  exact ⟨_, _, hp.link (Function.update_self ..) .taskrunqueue, hnd, moved hall ht⟩

/-- A new task, in memory that was not in use. -/
theorem taskalloc (h : Tidy S all) (hnew : t ∉ all) :
    Tidy { S with lists := (S.lists.clear t).add .taskrunqueue t } (all.push t) := by
  obtain ⟨ls, place, hp, hnd, hall⟩ := h
  have ht : place t = none := not_not.1 fun hne => hnew ((hall t).2 hne)
  refine ⟨_, _, (hp.clear ht).link ht .taskrunqueue, hnd.push hnew, fun u => ?_⟩
  rw [AllTask.mem_push, hall]
  by_cases hu : u = t
  · subst hu
    simp
  · simp [hu]

/-- A task of the cache is used again. -/
theorem tasklive (h : Tidy S all) (hc : S.lists.head .taskscache = some t) :
    Tidy { S with lists := ((S.lists.del .taskscache t).clear t).add .taskrunqueue t } all := by
  obtain ⟨ls, place, hp, hnd, hall⟩ := h
  obtain ⟨ts, hts⟩ := hp.lists.of_head hc
  obtain ⟨ht, hp⟩ := hp.unlink hts
  have hnone : Function.update place t none t = none := Function.update_self ..
  exact ⟨_, _, (hp.clear hnone).link hnone .taskrunqueue, hnd, moved hall ht⟩

/-- The running task exits and is freed. -/
theorem taskfree (h : Tidy S all) (hx : S.running = some x) :
    Tidy { S with running := none } (all.remove x) := by
  obtain ⟨ls, place, hp, hnd, hall⟩ := h
  obtain ⟨ht, hp⟩ := hp.stop hx
  obtain ⟨hproper, hperm⟩ := hnd.remove ((hall x).2 (by rw [ht]; exact Option.some_ne_none _))
  refine ⟨_, _, hp, hproper, fun u => ?_⟩
  rw [AllTask.mem_iff, hperm.mem_iff, hnd.nodup.mem_erase_iff, ← AllTask.mem_iff, hall]
  by_cases hu : u = x
  · subst hu
    simp
  · simp [hu]

/-- The running task exits and is cached. -/
theorem taskcache (h : Tidy S all) (hx : S.running = some x) :
    Tidy { S with lists := (S.lists.clear x).add .taskscache x, running := none } all := by
  obtain ⟨ls, place, hp, hnd, hall⟩ := h
  obtain ⟨ht, hp⟩ := hp.stop hx
  have hnone : Function.update place x none x = none := Function.update_self ..
  exact ⟨_, _, (hp.clear hnone).link hnone .taskscache, hnd, moved hall ht⟩

end Tidy

end Libtask

end VmwareProto
