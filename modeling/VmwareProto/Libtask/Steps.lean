import VmwareProto.Libtask.Sound
/-!
# What a step does

`Works` and `Polls` say it once of every step: what it does to descriptors,
contexts and calls, and with which guard. `Works` is for the steps of tasks
and of the scheduler, `Polls` for those of `aiotask` on its events and for
those of the kernel.
-/

namespace VmwareProto

namespace Libtask

variable {σ σ' : Taskio} {x t : TaskId} {T : Tasks} {act : TaskAction}

/-! ## Tasks -/

theorem Tasks.taskwakeup_alltask (r : ℕ) : (T.taskwakeup r).1.alltask = T.alltask := by
  unfold Tasks.taskwakeup
  split <;> rfl

theorem Tasks.taskscheduler_alltask {T' : Tasks} (h : T.taskscheduler = some (.run T')) :
    T'.alltask = T.alltask := by
  unfold Tasks.taskscheduler at h
  split at h
  · cases h
  · split at h
    · obtain ⟨U, -, hU⟩ := Option.bind_eq_some_iff.1 h
      split at hU <;> cases hU
    · cases h
      rfl

theorem Tasks.tasksystem_alltask : (T.tasksystem x).alltask = T.alltask := by
  unfold Tasks.tasksystem
  split <;> rfl

/-- The running task is one of the tasks. -/
theorem Sound.running_mem (h : Sound σ) (hx : σ.tasks.taskrunning = some x) :
    x ∈ σ.tasks.alltask := by
  obtain ⟨ls, place, hp, -, hall⟩ := h.tidy
  refine (hall x).2 ?_
  rw [(hp.at_iff x .running).1 hx]
  exact Option.some_ne_none _

/-- Who exits is a task no more, and nobody becomes one. -/
theorem Sound.mem_of_exit (h : Sound σ) (hx : σ.tasks.taskrunning = some x)
    (ht : t ∈ (σ.tasks.taskexit x).alltask) : t ∈ σ.tasks.alltask := by
  have hmem := h.running_mem hx
  obtain ⟨-, -, -, hproper, -⟩ := h.tidy
  unfold Tasks.taskexit Tasks.taskretire Tasks.taskretireWith at ht
  split at ht
  · have hperm := (hproper.remove hmem).2
    exact List.mem_of_mem_erase (hperm.mem_iff.1 ht)
  · exact ht

/-! ## Points -/

/-- Neither in a call, nor at events, nor in `task_fd_deregister`. -/
def Pc.idle : Pc → Bool
  | netrw _ _ _ _ | again _ _ _ _ | dispatch _ | reap _ _ | deregister _ => false
  | _ => true

theorem Pc.idle_call {pc : Pc} (h : pc.idle = true) : pc.call = none := by
  cases pc <;> first | rfl | cases h

theorem Pc.idle_events {pc : Pc} (h : pc.idle = true) : pc.events = [] := by
  cases pc <;> first | rfl | cases h

theorem Pc.idle_update {pc : Pc} (h : pc.idle = true) (x t : TaskId) :
    Function.update σ.pc x pc t = σ.pc t ∨ (Function.update σ.pc x pc t).idle = true := by
  by_cases ht : t = x
  · subst ht
    rw [Function.update_self]
    exact .inr h
  · exact .inl (Function.update_of_ne ht ..)

/-! ## Steps -/

/-- Not a step of `aiotask` on its events, nor one of the kernel. -/
def TaskAction.Elsewhere : TaskAction → Prop
  | epollWait _ _ | dispatch _ | reap _ | change _ _ _ | complete _ => False
  | _ => True

/-- A step outside of `aiotask`'s events, by what it does to descriptors,
contexts and calls. -/
inductive Works (σ : Taskio) : TaskAction → Taskio → Prop
  /-- nothing -/
  | aside (act : TaskAction) (σ' : Taskio) : σ'.files = σ.files → σ'.contexts = σ.contexts →
      (∀ t ∈ σ'.tasks.alltask, t ∈ σ.tasks.alltask ∨ (σ'.pc t).idle = true) →
      (∀ t, σ'.pc t = σ.pc t ∨ (σ'.pc t).idle = true) → Works σ act σ'
  | netrw (x : TaskId) (op : Op) (fd : Fd) (c : Ctx) (n : ℕ) : TaskAction.At σ x .top →
      σ.contexts.tcarray fd = some c →
      Works σ (.netrw x op fd n) { σ with pc := Function.update σ.pc x (.netrw op fd c n) }
  | moved (x : TaskId) (op : Op) (fd : Fd) (c : Ctx) (n k : ℕ) (left : Bool) :
      TaskAction.At σ x (.netrw op fd c n) → σ.files.answers op fd n (.moved k left) = true →
      Works σ (.issue x (.moved k left)) { σ with
        files := (σ.files.table fd).elim σ.files fun f => σ.files.drain f op.side left
        pc := Function.update σ.pc x (if k < n then .netrw op fd c (n - k) else .top) }
  | again (x : TaskId) (op : Op) (fd : Fd) (c : Ctx) (n : ℕ) :
      TaskAction.At σ x (.netrw op fd c n) → σ.files.answers op fd n .again = true →
      Works σ (.issue x .again) { σ with pc := Function.update σ.pc x (.again op fd c n) }
  | suspend (x : TaskId) (op : Op) (fd : Fd) (c : Ctx) (n : ℕ) :
      TaskAction.At σ x (.again op fd c n) → (σ.contexts.ctx c).waiter op.side = none →
      Works σ (.suspend x) { σ with
        tasks := σ.tasks.taskswitch, contexts := σ.contexts.record c op.side (some x)
        pc := Function.update σ.pc x (.netrw op fd c n) }
  | openFile (x : TaskId) (k : Kind) (fd : Fd) (m : Mask) : σ.files.Lowest fd →
      Works σ (.openFile x k fd m) { σ with files := σ.files.openFile k fd m }
  /-- the new descriptor is registered -/
  | accepted (x : TaskId) (fd : Fd) (m : Mask) : σ.tasks.taskrunning = some x → σ.files.Lowest fd →
      Works σ (.accepted x fd m) (Taskio.register { σ with
        files := σ.files.openFile .socket fd m, pc := Function.update σ.pc x .top } .sock fd)
  /-- there is a context under its number, and it is closed -/
  | rejected (x : TaskId) (fd : Fd) (m : Mask) : σ.tasks.taskrunning = some x → σ.files.Lowest fd →
      Works σ (.accepted x fd m) { σ with
        files := (σ.files.openFile .socket fd m).close fd, pc := Function.update σ.pc x .top }
  | close (x : TaskId) (fd : Fd) : Works σ (.close x fd) { σ with files := σ.files.close fd }
  | register (x : TaskId) (r : Registration) (fd : Fd) : σ.tasks.taskrunning = some x →
      Works σ (.register x r fd) (σ.register r fd)
  | deregister (x : TaskId) (fd : Fd) : TaskAction.At σ x .top →
      Works σ (.deregister x fd) (σ.deregister x fd)
  | epollDel (x : TaskId) (fd : Fd) : TaskAction.At σ x (.deregister fd) →
      Works σ (.epollDel x) { σ with
        files := σ.files.epollDel fd, pc := Function.update σ.pc x .top }

theorem Sound.works (h : Sound σ) (he : act.Enabled σ) (hx : act.exec σ = some σ')
    (ho : act.Elsewhere) : Works σ act σ' := by
  cases act with
  | taskyield x | tasksleep x r =>
      cases hx
      exact .aside _ _ rfl rfl (fun _ => .inl) fun _ => .inl rfl
  | taskexit x =>
      cases hx
      exact .aside _ _ rfl rfl (fun t ht => .inl (h.mem_of_exit he.1 ht)) fun _ => .inl rfl
  | tasksystem x =>
      cases hx
      refine .aside _ _ rfl rfl (fun t ht => .inl ?_) fun _ => .inl rfl
      rwa [Tasks.tasksystem_alltask] at ht
  | taskwakeup x r =>
      cases hx
      refine .aside _ _ rfl rfl (fun t ht => .inl ?_) fun _ => .inl rfl
      rwa [Tasks.taskwakeup_alltask] at ht
  | taskwakeupall x r | aiorw x | aioret x | poll x =>
      cases hx
      exact .aside _ _ rfl rfl (fun _ => .inl) (Pc.idle_update rfl x)
  | start x =>
      cases hx
      refine .aside _ _ rfl rfl (fun t ht => .inl ?_) (Pc.idle_update rfl x)
      rwa [Tasks.tasksystem_alltask] at ht
  | taskcreate x stack malloc =>
      obtain ⟨⟨T, u⟩, hT, hx⟩ := Option.bind_eq_some_iff.1 hx
      cases hx
      refine .aside _ _ rfl rfl (fun t ht => ?_) (Pc.idle_update rfl u)
      have ht : t ∈ T.alltask := ht
      by_cases hu : t = u
      · subst hu
        exact .inr (by simp [Pc.idle])
      · left
        rcases (Tasks.taskcreate_eq hT).1 with ⟨rfl, -, hall⟩ | ⟨-, -, hall⟩
        · rw [hall, AllTask.mem_push] at ht
          exact ht.resolve_right hu
        · rwa [hall] at ht
  | wakenext x =>
      simp only [TaskAction.exec] at hx
      split at hx
      · rename_i r _
        cases hx
        refine .aside _ _ rfl rfl (fun t ht => .inl ?_) ?_
        · rwa [Tasks.taskwakeup_alltask] at ht
        · split
          · exact fun _ => .inl rfl
          · exact Pc.idle_update rfl x
      · cases hx
  | netrw x op fd n =>
      simp only [TaskAction.exec] at hx
      split at hx
      · cases hx
        exact .aside _ _ rfl rfl (fun _ => .inl) fun _ => .inl rfl
      · rename_i c hlook
        split at hx
        · cases hx
        · split at hx
          · cases hx
          · cases hx
            exact .netrw x op fd c n he (Contexts.lookup_eq hlook)
  | issue x o =>
      obtain ⟨hrun, hans⟩ := he
      simp only [TaskAction.exec] at hx
      split at hx
      · rename_i op fd c n hpc
        rw [hpc] at hans
        split at hx
        · rename_i k left
          cases hx
          exact .moved x op fd c n k left ⟨hrun, hpc⟩ hans
        · cases hx
          exact .again x op fd c n ⟨hrun, hpc⟩ hans
        · cases hx
          exact .aside _ _ rfl rfl (fun _ => .inl) (Pc.idle_update rfl x)
      · cases hx
  | accepted x fd m =>
      obtain ⟨⟨hrun, -⟩, hlow⟩ := he
      simp only [TaskAction.exec] at hx
      split at hx
      · cases hx
        exact .accepted x fd m hrun hlow
      · cases hx
        exact .rejected x fd m hrun hlow
  | suspend x =>
      obtain ⟨hrun, -⟩ := he
      simp only [TaskAction.exec] at hx
      split at hx
      · rename_i op fd c n hpc
        split at hx
        · cases hx
        · rename_i hnone
          cases hx
          exact .suspend x op fd c n ⟨hrun, hpc⟩ (Option.not_isSome_iff_eq_none.1 hnone)
      · cases hx
  | openFile x k fd m =>
      cases hx
      exact .openFile x k fd m he.2.2
  | close x fd =>
      cases hx
      exact .close x fd
  | register x r fd =>
      cases hx
      exact .register x r fd he.1
  | deregister x fd =>
      cases hx
      exact .deregister x fd he
  | epollDel x =>
      obtain ⟨hrun, -⟩ := he
      simp only [TaskAction.exec] at hx
      split at hx
      · rename_i fd hpc
        cases hx
        exact .epollDel x fd ⟨hrun, hpc⟩
      · cases hx
  | yielded x =>
      simp only [TaskAction.exec] at hx
      split at hx
      · cases hx
        exact .aside _ _ rfl rfl (fun _ => .inl) (Pc.idle_update (by split <;> rfl) x)
      · cases hx
  | taskscheduler =>
      simp only [TaskAction.exec] at hx
      split at hx
      · rename_i T hT
        cases hx
        refine .aside _ _ rfl rfl (fun t ht => .inl ?_) fun _ => .inl rfl
        rwa [Tasks.taskscheduler_alltask hT] at ht
      · cases hx
  | epollWait x rs | dispatch x | reap x | change f m more | complete t => exact ho.elim

/-- The steps of `aiotask` on its events, and of the kernel. -/
inductive Polls (σ : Taskio) : TaskAction → Taskio → Prop
  | change (f : File) (m more : Mask) :
      Polls σ (.change f m more) { σ with files := σ.files.change f m more }
  | complete (t : TaskId) :
      Polls σ (.complete t) { σ with
        submitted := σ.submitted.erase t, completed := σ.completed ++ [t], eventfd := σ.eventfd + 1 }
  | epollWait (x : TaskId) (rs : List Report) :
      TaskAction.At σ x .wait → σ.MayReport rs →
      Polls σ (.epollWait x rs) { σ with
        files := Taskio.reported σ.files rs
        pc := Function.update σ.pc x (.dispatch (rs.map σ.event)) }
  /-- what is no event of a context -/
  | other (x : TaskId) (act : TaskAction) (σ' : Taskio) (pc : Pc) :
      σ.tasks.taskrunning = some x → σ'.tasks.alltask = σ.tasks.alltask → σ'.files = σ.files →
      σ'.contexts = σ.contexts → σ'.pc = Function.update σ.pc x pc → pc.call = none →
      (σ.pc x).events = .libaio :: pc.events ∨ (σ.pc x).events = pc.events → Polls σ act σ'
  | event (x : TaskId) (c : Ctx) (m : Mask) (es : List Event) (τ : Taskio) :
      σ.tasks.taskrunning = some x → σ.pc x = .dispatch (.ctx c m :: es) → σ.ioDone c m = some τ →
      Polls σ (.dispatch x) { τ with pc := Function.update τ.pc x (.dispatch es) }

theorem TaskAction.polls (he : act.Enabled σ) (hx : act.exec σ = some σ') (ho : ¬act.Elsewhere) :
    Polls σ act σ' := by
  cases act with
  | change f m more =>
      cases hx
      exact .change f m more
  | complete t =>
      cases hx
      exact .complete t
  | epollWait x rs =>
      cases hx
      exact .epollWait x rs he.1 he.2
  | dispatch x =>
      obtain ⟨hrun, -⟩ := he
      simp only [TaskAction.exec] at hx
      split at hx
      · rename_i hpc
        cases hx
        exact .other x _ _ _ hrun rfl rfl rfl rfl rfl (.inr (by rw [hpc]; rfl))
      · rename_i e es hpc
        cases e with
        | libaio =>
            simp only [Taskio.dispatch] at hx
            split at hx
            · cases hx
            · cases hx
              exact .other x _ _ _ hrun rfl rfl rfl rfl rfl (.inl (by rw [hpc]; rfl))
        | ctx c m =>
            obtain ⟨τ, hτ, hx⟩ := Option.bind_eq_some_iff.1 hx
            cases hx
            exact .event x c m es τ hrun hpc hτ
      · cases hx
  | reap x =>
      obtain ⟨hrun, -⟩ := he
      simp only [TaskAction.exec] at hx
      split at hx
      · rename_i hpc
        cases hx
        exact .other x _ _ _ hrun rfl rfl rfl rfl rfl (.inr (by rw [hpc]; rfl))
      · rename_i hpc _
        cases hx
        exact .other x _ _ _ hrun rfl rfl rfl rfl rfl (.inr (by rw [hpc]; rfl))
      · cases hx
  | _ => exact absurd trivial ho

end Libtask

end VmwareProto
