import VmwareProto.Libtask.Places
import VmwareProto.Libtask.Watched
/-!
# What every run keeps

Tasks are in one place each, epoll knows registered descriptors only, and a
recorded task waits in a call of its own (`Sound`). All this holds of every
program, also of one that uses a descriptor after it was closed.
-/

namespace VmwareProto

namespace Libtask

/-- The call of `task_netrw` or `tasknet_accept` that a task is in. -/
def Pc.call : Pc → Option (Op × Fd × Ctx)
  | netrw op fd c _ => some (op, fd, c)
  | again op fd c _ => some (op, fd, c)
  | _ => none

/-- A task that has control, and keeps it in its next step. -/
def Pc.busy : Pc → Bool
  | again _ _ _ _ => true
  | wakeall _ => true
  | wait => true
  | dispatch _ => true
  | reap _ _ => true
  | _ => false

/-- The events that `aiotask` has still to look at. -/
def Pc.events : Pc → List Event
  | dispatch es => es
  | reap _ es => es
  | _ => []

theorem Pc.busy_of_events {pc : Pc} {e : Event} (he : e ∈ pc.events) : pc.busy = true := by
  cases pc with
  | dispatch es => rfl
  | reap n es => rfl
  | _ => cases he

/-- An event of a context is one of a registered descriptor. -/
def Contexts.Known (C : Contexts) : Event → Prop
  | .ctx c _ => ∃ fd, C.tcarray fd = some c
  | .libaio => True

/-- **What every run keeps.** -/
structure Sound (σ : Taskio) : Prop where
  tidy : Tidy σ.spots σ.tasks.alltask
  watched : Watched σ.files σ.contexts
  busy : ∀ t, (σ.pc t).busy = true → σ.tasks.taskrunning = some t
  call : ∀ t op fd c, (σ.pc t).call = some (op, fd, c) →
    c < σ.contexts.nctx ∧ (σ.contexts.ctx c).fd = fd
  recorded : ∀ c s t, (σ.contexts.ctx c).waiter s = some t →
    ∃ op fd n, σ.pc t = .netrw op fd c n ∧ op.side = s
  events : ∀ t, ∀ e ∈ (σ.pc t).events, σ.contexts.Known e

variable {σ σ' : Taskio} {x t : TaskId} {pc : Pc} {F : Files} {C : Contexts} {T : Tasks} {c : Ctx}
  {s : Side} {fd : Fd} {m : Mask} {es : List Event} {e : Event} {act : TaskAction}

/-! ## Calls of `task.c` -/

theorem Tasks.taskcreate_eq {stack : ℕ} {malloc : TaskId} {T' : Tasks}
    (h : T.taskcreate stack malloc = some (T', t)) :
    (t = malloc ∧ T'.lists = (T.lists.clear t).add .taskrunqueue t ∧
      T'.alltask = T.alltask.push t ∨
     T.lists.head .taskscache = some t ∧
      T'.lists = ((T.lists.del .taskscache t).clear t).add .taskrunqueue t ∧
      T'.alltask = T.alltask) ∧ T'.taskrunning = T.taskrunning := by
  unfold Tasks.taskcreate at h
  split at h
  · split at h
    · cases h
      exact ⟨.inl ⟨rfl, rfl, rfl⟩, rfl⟩
    · cases h
  · rename_i u hu
    split at h
    · cases h
      split at hu
      · exact ⟨.inr ⟨hu, rfl, rfl⟩, rfl⟩
      · cases hu
    · cases h

namespace Sound

/-- The running task is recorded nowhere. -/
theorem recorded_ne (h : Sound σ) (hx : σ.tasks.taskrunning = some x)
    (hc : (σ.contexts.ctx c).waiter s = some t) : t ≠ x :=
  h.tidy.recorded_ne (S := σ.spots) hx hc

/-- Nobody but the running task is busy. -/
theorem not_busy (h : Sound σ) (hx : σ.tasks.taskrunning = some x) (ht : t ≠ x) :
    (σ.pc t).busy = false := by
  by_contra hb
  rw [Bool.not_eq_false] at hb
  exact ht (Option.some.inj ((h.busy t hb).symm.trans hx))

theorem no_events (h : Sound σ) (hx : σ.tasks.taskrunning = some x) (ht : t ≠ x)
    (he : e ∈ (σ.pc t).events) : False := by
  have := h.not_busy hx ht
  rw [Pc.busy_of_events he] at this
  cases this

/-! ## One step of a task -/

/-- A step of the running task, which comes to `pc`. -/
theorem moves (h : Sound σ) (hx : σ.tasks.taskrunning = some x)
    (hpc : σ'.pc = Function.update σ.pc x pc) (htidy : Tidy σ'.spots σ'.tasks.alltask)
    (hw : Watched σ'.files σ'.contexts) (hb : pc.busy = true → σ'.tasks.taskrunning = some x)
    (hn : σ.contexts.nctx ≤ σ'.contexts.nctx)
    (hfd : ∀ c < σ.contexts.nctx, (σ'.contexts.ctx c).fd = (σ.contexts.ctx c).fd)
    (hrec : ∀ c s t, (σ'.contexts.ctx c).waiter s = some t →
      (σ.contexts.ctx c).waiter s = some t ∨
        t = x ∧ ∃ op fd n, pc = .netrw op fd c n ∧ op.side = s)
    (hcall : ∀ op fd c, pc.call = some (op, fd, c) →
      c < σ'.contexts.nctx ∧ (σ'.contexts.ctx c).fd = fd)
    (hev : ∀ e ∈ pc.events, σ'.contexts.Known e) : Sound σ' := by
  refine ⟨htidy, hw, fun t ht => ?_, fun t op fd c ht => ?_, fun c s t ht => ?_, fun t e he => ?_⟩
  · by_cases hxt : t = x
    · subst hxt
      rw [hpc, Function.update_self] at ht
      exact hb ht
    · rw [hpc, Function.update_of_ne hxt, h.not_busy hx hxt] at ht
      cases ht
  · by_cases hxt : t = x
    · subst hxt
      rw [hpc, Function.update_self] at ht
      exact hcall op fd c ht
    · rw [hpc, Function.update_of_ne hxt] at ht
      obtain ⟨hlt, hcfd⟩ := h.call t op fd c ht
      exact ⟨Nat.lt_of_lt_of_le hlt hn, (hfd c hlt).trans hcfd⟩
  · rcases hrec c s t ht with ht | ⟨rfl, hpcx⟩
    · rw [hpc, Function.update_of_ne (h.recorded_ne hx ht)]
      exact h.recorded c s t ht
    · rw [hpc, Function.update_self]
      exact hpcx
  · by_cases hxt : t = x
    · subst hxt
      rw [hpc, Function.update_self] at he
      exact hev e he
    · rw [hpc, Function.update_of_ne hxt] at he
      exact (h.no_events hx hxt he).elim

/-- A step that leaves descriptors and contexts alone. -/
theorem tasks (h : Sound σ) (hx : σ.tasks.taskrunning = some x)
    (htidy : Tidy σ'.spots σ'.tasks.alltask) (hpc : σ'.pc = Function.update σ.pc x pc)
    (hf : σ'.files = σ.files) (hc : σ'.contexts = σ.contexts)
    (hb : pc.busy = true → σ'.tasks.taskrunning = some x)
    (hcall : ∀ op fd c, pc.call = some (op, fd, c) →
      c < σ.contexts.nctx ∧ (σ.contexts.ctx c).fd = fd)
    (hev : ∀ e ∈ pc.events, σ.contexts.Known e) : Sound σ' :=
  h.moves hx hpc htidy (by rw [hf, hc]; exact h.watched) hb (Nat.le_of_eq (by rw [hc]))
    (by simp [hc]) (fun c s t ht => .inl (by rw [hc] at ht; exact ht)) (by rw [hc]; exact hcall)
    (by rw [hc]; exact hev)

/-- A step within an operation, or its end. -/
theorem goes (h : Sound σ) (hx : σ.tasks.taskrunning = some x)
    (hcall : ∀ op fd c, pc.call = some (op, fd, c) →
      c < σ.contexts.nctx ∧ (σ.contexts.ctx c).fd = fd)
    (hev : ∀ e ∈ pc.events, σ.contexts.Known e) :
    Sound { σ with pc := Function.update σ.pc x pc } := by
  have hpc : { σ with pc := Function.update σ.pc x pc }.pc = Function.update σ.pc x pc := rfl
  exact h.tasks hx h.tidy hpc rfl rfl (fun _ => hx) hcall hev

/-- A step that leaves the task where it is. -/
theorem stays (h : Sound σ) (hx : σ.tasks.taskrunning = some x)
    (htidy : Tidy σ'.spots σ'.tasks.alltask) (hpc : σ'.pc = σ.pc)
    (hf : σ'.files = σ.files) (hc : σ'.contexts = σ.contexts)
    (hb : (σ.pc x).busy = true → σ'.tasks.taskrunning = some x) : Sound σ' := by
  have hpc' : σ'.pc = Function.update σ.pc x (σ.pc x) := by rw [hpc, Function.update_eq_self]
  exact h.tasks hx htidy hpc' hf hc hb (fun op fd c => h.call x op fd c) (h.events x)

/-- Only what is open changes. -/
theorem withFiles (h : Sound σ) (hw : Watched F σ.contexts) : Sound { σ with files := F } :=
  ⟨h.tidy, hw, h.busy, h.call, h.recorded, h.events⟩

/-! ## Contexts -/

theorem wake_none (ht : (σ.contexts.ctx c).waiter s = none) : σ.wake c s = σ := by
  rw [Taskio.wake, ht]

theorem wake_some (ht : (σ.contexts.ctx c).waiter s = some t) :
    σ.wake c s =
      { σ with tasks := σ.tasks.taskready t, contexts := σ.contexts.record c s none } := by
  rw [Taskio.wake, ht]

/-- A recorded task is made ready. -/
theorem wake (h : Sound σ) (hc : c < σ.contexts.nctx) : Sound (σ.wake c s) := by
  cases ht : (σ.contexts.ctx c).waiter s with
  | none =>
      rw [wake_none ht]
      exact h
  | some t =>
      rw [wake_some ht]
      refine ⟨?_, h.watched.record hc, h.busy, fun u op fd d hu => ?_, fun d r u hu => ?_, h.events⟩
      · simp only [Taskio.spots, Contexts.record_waiter]
        exact h.tidy.wake ht
      · rw [Contexts.record_fd]
        exact h.call u op fd d hu
      · by_cases hds : d = c ∧ r = s
        · obtain ⟨rfl, rfl⟩ := hds
          rw [Contexts.record_waiter_self] at hu
          cases hu
        · rw [Contexts.record_waiter_of_ne hds] at hu
          exact h.recorded d r u hu

theorem wake_pc : (σ.wake c s).pc = σ.pc := by
  unfold Taskio.wake
  split <;> rfl

theorem wake_running : (σ.wake c s).tasks.taskrunning = σ.tasks.taskrunning := by
  unfold Taskio.wake
  split <;> rfl

theorem wake_files : (σ.wake c s).files = σ.files := by
  unfold Taskio.wake
  split <;> rfl

theorem wake_tcarray : (σ.wake c s).contexts.tcarray = σ.contexts.tcarray := by
  unfold Taskio.wake
  split <;> rfl

theorem wake_nctx : (σ.wake c s).contexts.nctx = σ.contexts.nctx := by
  unfold Taskio.wake
  split <;> rfl

/-- `sockio_done` -/
theorem sockioDone (h : Sound σ) (hc : c < σ.contexts.nctx) (hx : σ.sockioDone c m = some σ') :
    Sound σ' ∧ σ'.pc = σ.pc ∧ σ'.tasks.taskrunning = σ.tasks.taskrunning ∧
      σ'.contexts.tcarray = σ.contexts.tcarray ∧ σ'.files = σ.files := by
  unfold Taskio.sockioDone at hx
  split at hx
  · cases hx
  · have hc' : c < (σ.wake c .reader).contexts.nctx := by
      rw [wake_nctx]
      exact hc
    cases hx
    split <;> split
    · exact ⟨(h.wake hc).wake hc', by rw [wake_pc, wake_pc], by rw [wake_running, wake_running],
        by rw [wake_tcarray, wake_tcarray], by rw [wake_files, wake_files]⟩
    · exact ⟨h.wake hc, wake_pc, wake_running, wake_tcarray, wake_files⟩
    · exact ⟨h.wake hc, wake_pc, wake_running, wake_tcarray, wake_files⟩
    · exact ⟨h, rfl, rfl, rfl, rfl⟩

/-- `sockio_done` or `fifoio_done` -/
theorem ioDone (h : Sound σ) (hc : c < σ.contexts.nctx) (hx : σ.ioDone c m = some σ') :
    Sound σ' ∧ σ'.pc = σ.pc ∧ σ'.tasks.taskrunning = σ.tasks.taskrunning ∧
      σ'.contexts.tcarray = σ.contexts.tcarray ∧ σ'.files = σ.files := by
  unfold Taskio.ioDone at hx
  split at hx
  · exact h.sockioDone hc hx
  · unfold Taskio.fifoioDone at hx
    split at hx
    · cases hx
      exact ⟨h, rfl, rfl, rfl, rfl⟩
    · exact h.sockioDone hc hx

/-- `task_fd_register` -/
theorem register (h : Sound σ) (hx : σ.tasks.taskrunning = some x) (r : Registration) (fd : Fd) :
    Sound (σ.register r fd) := by
  unfold Taskio.register
  split
  · rename_i hfd
    have hw := h.watched.insert hfd.2 r (σ.files.table fd)
    have hself : (σ.contexts.insert r fd (σ.files.table fd)).tcarray fd = some σ.contexts.nctx :=
      Function.update_self ..
    have hfds : ∀ c < σ.contexts.nctx,
        ((σ.contexts.insert r fd (σ.files.table fd)).ctx c).fd = (σ.contexts.ctx c).fd :=
      fun c hc => by simp [Contexts.insert, Nat.ne_of_lt hc]
    have hwait : ∀ c, ((σ.contexts.insert r fd (σ.files.table fd)).ctx c).waiter =
        (σ.contexts.ctx c).waiter := fun c => by
      by_cases hc : c = σ.contexts.nctx
      · subst hc
        funext s
        simp only [Contexts.insert, Function.update_self]
        exact (h.watched.unused _ s (Nat.le_refl _)).symm
      · simp [Contexts.insert, hc]
    -- whatever the call comes to, it records and forgets nobody
    have key : ∀ F C, Watched F C → C.nctx = σ.contexts.nctx + 1 →
        (∀ c, C.ctx c = (σ.contexts.insert r fd (σ.files.table fd)).ctx c) →
        (∀ e ∈ (σ.pc x).events, C.Known e) → Sound { σ with files := F, contexts := C } := by
      intro F C hw hn hctx hev
      have hpc : { σ with files := F, contexts := C }.pc = Function.update σ.pc x (σ.pc x) := by
        rw [Function.update_eq_self]
      have hspots : { σ with files := F, contexts := C }.spots = σ.spots := by
        simp only [Taskio.spots, hctx, hwait]
      refine h.moves hx hpc (by rw [hspots]; exact h.tidy) hw (fun _ => hx) (by simp [hn])
        (fun c hc => by simp only [hctx]; exact hfds c hc)
        (fun c s t ht => .inl (by simp only [hctx, hwait] at ht; exact ht))
        (fun op fd' c hcall => ?_) hev
      obtain ⟨hlt, hcfd⟩ := h.call x op fd' c hcall
      exact ⟨by simp only [hn]; exact Nat.lt_succ_of_lt hlt,
        by simp only [hctx]; exact (hfds c hlt).trans hcfd⟩
    have hknown : ∀ e ∈ (σ.pc x).events, (σ.contexts.insert r fd (σ.files.table fd)).Known e :=
      fun e he => by
        have := h.events x e he
        cases e with
        | libaio => trivial
        | ctx c m =>
            obtain ⟨fd', hc⟩ := this
            have hne : fd' ≠ fd := fun e => by
              rw [e, hfd.2] at hc
              cases hc
            exact ⟨fd', by simpa [Contexts.insert, hne] using hc⟩
    dsimp only
    split
    · exact key σ.files _ hw rfl (fun _ => rfl) hknown
    · split
      · rename_i F hadd
        refine key F _ (hw.epollAdd hself ?_ ?_) rfl (fun _ => rfl) hknown
        · simp [Contexts.insert]
        · simpa [Contexts.insert] using hadd
      · rename_i hadd
        -- nothing is open under the number, or its entry would be known
        have hfree : σ.files.table fd = none := by
          unfold Files.epollAdd at hadd
          split at hadd
          · assumption
          · rename_i f hf
            split at hadd
            · rename_i hsome
              obtain ⟨i, hi⟩ := Option.isSome_iff_exists.1 hsome
              obtain ⟨-, -, fd', harr, htab⟩ := h.watched.interest f i hi
              rw [h.watched.inj fd' fd f htab hf, hfd.2] at harr
              cases harr
            · cases hadd
        refine key σ.files _ (hw.delete hself hfree) rfl (fun _ => rfl) fun e he => ?_
        have := h.events x e he
        cases e with
        | libaio => trivial
        | ctx c m =>
            obtain ⟨fd', hc⟩ := this
            have hne : fd' ≠ fd := fun e => by
              rw [e, hfd.2] at hc
              cases hc
            exact ⟨fd', by simpa [Contexts.delete, Contexts.insert, hne] using hc⟩
  · exact h

/-- `task_fd_deregister` -/
theorem deregister (h : Sound σ) (hx : σ.tasks.taskrunning = some x) (htop : σ.pc x = .top)
    (fd : Fd) : Sound (σ.deregister x fd) := by
  unfold Taskio.deregister
  split
  · exact h
  · rename_i hfree
    have hfree : σ.files.table fd = none := by simpa using hfree
    split
    · exact h.withFiles h.watched.epollDel
    · rename_i c hlook
      have hc := Contexts.lookup_eq hlook
      have hlt := (h.watched.array fd c hc).1
      have h₁ := h.wake (s := .reader) hlt
      have h₂ := h₁.wake (s := .writer) (by rw [wake_nctx]; exact hlt)
      have harr : ((σ.wake c .reader).wake c .writer).contexts.tcarray fd = some c := by
        rw [wake_tcarray, wake_tcarray, hc]
      have hfiles : ((σ.wake c .reader).wake c .writer).files = σ.files := by
        rw [wake_files, wake_files]
      have hrun : ((σ.wake c .reader).wake c .writer).tasks.taskrunning = some x := by
        rw [wake_running, wake_running, hx]
      have hpc : ((σ.wake c .reader).wake c .writer).pc x = .top := by
        rw [wake_pc, wake_pc, htop]
      have hw := h₂.watched.delete harr (by rw [hfiles]; exact hfree)
      dsimp only
      split
      · refine h₂.moves hrun rfl (h₂.tidy.taskyield hrun) hw (fun hb => by cases hb) (Nat.le_refl _)
          (fun _ _ => rfl) (fun _ _ _ ht => .inl ht) (fun _ _ _ hcall => by cases hcall)
          fun e he => by cases he
      · have hpc' : ((σ.wake c .reader).wake c .writer).pc =
            Function.update ((σ.wake c .reader).wake c .writer).pc x .top := by
          rw [← hpc, Function.update_eq_self]
        exact h₂.moves hrun hpc' h₂.tidy hw.epollDel (fun hb => by cases hb) (Nat.le_refl _)
          (fun _ _ => rfl) (fun _ _ _ ht => .inl ht) (fun _ _ _ hcall => by cases hcall)
          fun e he => by cases he

/-- `taskcreate` -/
theorem taskcreate (h : Sound σ) {stack : ℕ} {malloc : TaskId} (hnew : malloc ∉ σ.tasks.alltask)
    (hT : σ.tasks.taskcreate stack malloc = some (T, t)) :
    Sound { σ with tasks := T, pc := Function.update σ.pc t .top } := by
  obtain ⟨hcases, hrun⟩ := Tasks.taskcreate_eq hT
  have htidy : Tidy { σ.spots with lists := T.lists, running := T.taskrunning } T.alltask := by
    rw [hrun]
    rcases hcases with ⟨rfl, hl, hall⟩ | ⟨hhead, hl, hall⟩
    · rw [hl, hall]
      exact h.tidy.taskalloc hnew
    · rw [hl, hall]
      exact h.tidy.tasklive hhead
  -- nobody knows the new task, which is neither running nor recorded
  have htidy₀ : Tidy σ.spots σ.tasks.alltask := h.tidy
  have hold : ∀ c s u, (σ.contexts.ctx c).waiter s = some u → u ≠ t := fun c s u hu e => by
    subst e
    obtain ⟨ls, place, hp, -, hall⟩ := htidy₀
    have hrec := (hp.at_iff u (.recorded c s)).1 hu
    rcases hcases with ⟨rfl, -, -⟩ | ⟨hhead, -, -⟩
    · exact hnew ((hall u).2 (by rw [hrec]; exact Option.some_ne_none _))
    · obtain ⟨ts, hts⟩ := hp.lists.of_head hhead
      have := (hp.unlink hts).1
      rw [hrec] at this
      cases this
  have hpcs : ∀ u, Function.update σ.pc t .top u = .top ∨ Function.update σ.pc t .top u = σ.pc u :=
    fun u => by
      by_cases hu : u = t
      · subst hu
        exact .inl (Function.update_self ..)
      · exact .inr (Function.update_of_ne hu ..)
  refine ⟨htidy, h.watched, fun u hu => ?_, fun u op fd c hu => ?_, fun c s u hu => ?_,
    fun u e he => ?_⟩
  · rcases hpcs u with he | he
    · simp only [he] at hu
      cases hu
    · simp only [he] at hu
      exact hrun.trans (h.busy u hu)
  · rcases hpcs u with he | he
    · simp only [he] at hu
      cases hu
    · simp only [he] at hu
      exact h.call u op fd c hu
  · simp only [Function.update_of_ne (hold c s u hu)]
    exact h.recorded c s u hu
  · rcases hpcs u with hpc | hpc
    · simp only [hpc] at he
      cases he
    · simp only [hpc] at he
      exact h.events u e he

/-- `taskexit` -/
theorem taskexit (h : Sound σ) (hx : σ.tasks.taskrunning = some x) (htop : σ.pc x = .top) :
    Sound { σ with tasks := σ.tasks.taskexit x } := by
  refine h.stays hx ?_ rfl rfl rfl fun hb => by rw [htop] at hb; cases hb
  unfold Tasks.taskexit Tasks.taskretire Tasks.taskretireWith
  split
  · exact h.tidy.taskfree hx
  · exact h.tidy.taskcache hx

/-- One turn of the loop of `_taskwakeup`. -/
theorem taskwakeup (h : Sound σ) (hx : σ.tasks.taskrunning = some x) (r : ℕ) :
    Sound { σ with tasks := (σ.tasks.taskwakeup r).1 } := by
  unfold Tasks.taskwakeup
  split
  · exact h
  · rename_i t ht
    exact h.stays hx (h.tidy.taskwakeup ht) rfl rfl rfl fun _ => hx

/-- The scheduler. -/
theorem taskscheduler (h : Sound σ) (hnone : σ.tasks.taskrunning = none)
    (hT : σ.tasks.taskscheduler = some (.run T)) : Sound { σ with tasks := T } := by
  unfold Tasks.taskscheduler at hT
  split at hT
  · cases hT
  · split at hT
    · obtain ⟨U, -, hU⟩ := Option.bind_eq_some_iff.1 hT
      split at hU <;> cases hU
    · rename_i t ht
      cases hT
      refine ⟨h.tidy.taskscheduler hnone ht, h.watched, fun u hu => ?_, h.call, h.recorded, h.events⟩
      rw [h.busy u hu] at hnone
      cases hnone

/-- An event that `epoll_wait` may report is of a registered descriptor. -/
theorem known (h : Sound σ) {r : Report} (hr : σ.reports r = true) : σ.contexts.Known (σ.event r) := by
  cases r with
  | eventfd => trivial
  | file f m =>
      have hr : σ.files.reports f m = true := hr
      unfold Files.reports at hr
      cases hi : σ.files.interest f with
      | none =>
          rw [hi] at hr
          cases hr
      | some i =>
          obtain ⟨-, -, fd, hfd, -⟩ := h.watched.interest f i hi
          refine ⟨fd, ?_⟩
          rw [Files.context, hi]
          exact hfd

/-- `tasksystem` -/
theorem tasksystem (h : Sound σ) (hx : σ.tasks.taskrunning = some x) :
    Sound { σ with tasks := σ.tasks.tasksystem x } := by
  unfold Tasks.tasksystem
  split
  · exact h
  · exact h.stays hx h.tidy rfl rfl rfl fun _ => hx

theorem tasksystem_running (hx : T.taskrunning = some x) :
    (T.tasksystem x).taskrunning = some x := by
  unfold Tasks.tasksystem
  split <;> exact hx

/-- One event of `aiotask`. -/
theorem dispatch (h : Sound σ) (hx : σ.tasks.taskrunning = some x) (hpc : σ.pc x = .dispatch (e :: es))
    (hd : σ.dispatch x es e = some σ') : Sound σ' := by
  have hev : ∀ e' ∈ e :: es, σ.contexts.Known e' := fun e' he' => h.events x e' (by rw [hpc]; exact he')
  cases e with
  | libaio =>
      simp only [Taskio.dispatch] at hd
      split at hd
      · cases hd
      · cases hd
        refine h.tasks hx h.tidy rfl rfl rfl (fun _ => hx) (fun _ _ _ hc => by cases hc) fun e he => ?_
        exact hev e (List.mem_cons_of_mem _ he)
  | ctx c m =>
      obtain ⟨fd, hfd⟩ := hev _ List.mem_cons_self
      have hlt := (h.watched.array fd c hfd).1
      simp only [Taskio.dispatch, Option.bind_eq_bind, Option.bind_eq_some_iff] at hd
      obtain ⟨τ, hτ, hd⟩ := hd
      cases hd
      obtain ⟨h₁, -, hrun, harr, -⟩ := h.ioDone hlt hτ
      refine h₁.goes (hrun.trans hx) (fun _ _ _ hc => by cases hc) fun e he => ?_
      have := hev e (List.mem_cons_of_mem _ he)
      cases e with
      | libaio => trivial
      | ctx d m' =>
          obtain ⟨fd', hfd'⟩ := this
          exact ⟨fd', by rw [harr]; exact hfd'⟩

/-- **The thread as it starts.** -/
theorem start (k : ℕ) : Sound (Taskio.start k) := by
  refine ⟨⟨_, _, (Placed.empty.link rfl .taskrunqueue).run (t := 0) (by simp) rfl, ⟨?_, ?_⟩, ?_⟩,
    .start k, fun t ht => ?_, fun t op fd c ht => ?_, nofun, fun t e he => ?_⟩
  · simp [Taskio.start]
  · intro i t h
    rcases i with _ | _ | i
    · simpa [Taskio.start] using h.symm
    · simpa [Taskio.start] using h.symm
    · simp [Taskio.start] at h
  · intro t
    simp only [Taskio.start, AllTask.mem_iff, List.mem_cons, List.not_mem_nil, or_false]
    by_cases h0 : t = 0
    · simp [h0]
    · by_cases h1 : t = 1
      · simp [h1]
      · simp [h0, h1]
  · simp only [Taskio.start] at ht
    split at ht <;> cases ht
  · simp only [Taskio.start] at ht
    split at ht <;> cases ht
  · simp only [Taskio.start] at he
    split at he <;> cases he

/-- **Every step keeps it.** -/
theorem step (h : Sound σ) (he : act.Enabled σ) (hσ' : act.exec σ = some σ') : Sound σ' := by
  cases act with
  | taskcreate x all malloc =>
      obtain ⟨-, hnew⟩ := he
      simp only [TaskAction.exec, Option.bind_eq_bind, Option.bind_eq_some_iff] at hσ'
      obtain ⟨⟨T, t⟩, hT, hσ'⟩ := hσ'
      cases hσ'
      exact h.taskcreate hnew hT
  | taskyield x =>
      cases hσ'
      exact h.stays he.1 (h.tidy.taskyield he.1) rfl rfl rfl fun hb => by rw [he.2] at hb; cases hb
  | taskexit x =>
      cases hσ'
      exact h.taskexit he.1 he.2
  | tasksystem x =>
      cases hσ'
      exact h.tasksystem he.1
  | tasksleep x r =>
      cases hσ'
      exact h.stays he.1 (h.tidy.tasksleep he.1) rfl rfl rfl fun hb => by rw [he.2] at hb; cases hb
  | taskwakeup x r =>
      cases hσ'
      exact h.taskwakeup he.1 r
  | taskwakeupall x r =>
      cases hσ'
      exact h.goes he.1 (fun _ _ _ hc => by cases hc) fun _ hev => by cases hev
  | wakenext x =>
      simp only [TaskAction.exec] at hσ'
      split at hσ'
      · rename_i r hpc
        cases hσ'
        have h₁ := h.taskwakeup he.1 r
        split
        · exact h₁
        · refine h₁.goes (he.1 ▸ ?_) (fun _ _ _ hc => by cases hc) fun _ hev => by cases hev
          unfold Tasks.taskwakeup
          split <;> rfl
      · cases hσ'
  | netrw x op fd n =>
      simp only [TaskAction.exec] at hσ'
      split at hσ'
      · cases hσ'
        exact h
      · rename_i c hlook
        have hlt := (h.watched.array fd c (Contexts.lookup_eq hlook)).1
        split at hσ'
        · cases hσ'
        · split at hσ'
          · cases hσ'
          · rename_i hfd
            cases hσ'
            refine h.goes he.1 (fun op' fd' c' hc => ?_) fun _ hev => by cases hev
            cases hc
            exact ⟨hlt, not_not.1 hfd⟩
  | issue x o =>
      simp only [TaskAction.exec] at hσ'
      split at hσ'
      · rename_i op fd c n hpc
        have hcall := h.call x op fd c (by rw [hpc]; rfl)
        split at hσ'
        · rename_i k left
          cases hσ'
          have hw : Watched ((σ.files.table fd).elim σ.files fun f => σ.files.drain f op.side left)
              σ.contexts := by
            cases σ.files.table fd with
            | none => exact h.watched
            | some f => exact h.watched.drain
          refine (h.withFiles hw).goes he.1 (fun op' fd' c' hc => ?_) fun _ hev => ?_
          · split at hc
            · cases hc
              exact hcall
            · cases hc
          · split at hev <;> cases hev
        · cases hσ'
          refine h.goes he.1 (fun op' fd' c' hc => ?_) fun _ hev => by cases hev
          cases hc
          exact hcall
        · cases hσ'
          exact h.goes he.1 (fun _ _ _ hc => by cases hc) fun _ hev => by cases hev
      · cases hσ'
  | accepted x fd m =>
      obtain ⟨hx, hlow⟩ := he
      have h₁ : Sound { σ with
          files := σ.files.openFile .socket fd m, pc := Function.update σ.pc x .top } :=
        (h.withFiles (h.watched.openFile hlow.1)).goes hx.1 (fun _ _ _ hc => by cases hc)
          fun _ hev => by cases hev
      simp only [TaskAction.exec] at hσ'
      split at hσ'
      · cases hσ'
        exact h₁.register hx.1 .sock fd
      · cases hσ'
        exact h₁.withFiles h₁.watched.close
  | suspend x =>
      simp only [TaskAction.exec] at hσ'
      split at hσ'
      · rename_i op fd c n hpc
        obtain ⟨hlt, hfd⟩ := h.call x op fd c (by rw [hpc]; rfl)
        split at hσ'
        · cases hσ'
        · rename_i hfree
          cases hσ'
          refine h.moves he.1 rfl ?_ (h.watched.record hlt) (fun hb => by cases hb) (Nat.le_refl _)
            (fun d _ => Contexts.record_fd) (fun d r t ht => ?_) (fun op' fd' c' hc => ?_)
            fun _ hev => by cases hev
          · simp only [Taskio.spots, Contexts.record_waiter]
            exact h.tidy.suspend he.1 (Option.not_isSome_iff_eq_none.1 hfree)
          · by_cases hds : d = c ∧ r = op.side
            · obtain ⟨rfl, rfl⟩ := hds
              rw [Contexts.record_waiter_self] at ht
              exact .inr ⟨(Option.some.inj ht).symm, op, fd, n, rfl, rfl⟩
            · rw [Contexts.record_waiter_of_ne hds] at ht
              exact .inl ht
          · cases hc
            exact ⟨hlt, by rw [Contexts.record_fd]; exact hfd⟩
      · cases hσ'
  | aiorw x =>
      cases hσ'
      exact h.tasks he.1 (h.tidy.aiorw he.1) rfl rfl rfl (fun hb => by cases hb)
        (fun _ _ _ hc => by cases hc) fun _ hev => by cases hev
  | aioret x =>
      cases hσ'
      exact h.goes he.1 (fun _ _ _ hc => by cases hc) fun _ hev => by cases hev
  | openFile x k fd m =>
      cases hσ'
      exact h.withFiles (h.watched.openFile he.2.2.1)
  | close x fd =>
      cases hσ'
      exact h.withFiles h.watched.close
  | register x r fd =>
      cases hσ'
      exact h.register he.1 r fd
  | deregister x fd =>
      cases hσ'
      exact h.deregister he.1 he.2 fd
  | epollDel x =>
      simp only [TaskAction.exec] at hσ'
      split at hσ'
      · cases hσ'
        exact (h.withFiles h.watched.epollDel).goes he.1 (fun _ _ _ hc => by cases hc)
          fun _ hev => by cases hev
      · cases hσ'
  | start x =>
      cases hσ'
      exact (h.tasksystem he.1).goes (tasksystem_running he.1) (fun _ _ _ hc => by cases hc)
        fun _ hev => by cases hev
  | poll x =>
      cases hσ'
      exact h.tasks he.1 (h.tidy.taskyield he.1) rfl rfl rfl (fun hb => by cases hb)
        (fun _ _ _ hc => by cases hc) fun _ hev => by cases hev
  | yielded x =>
      simp only [TaskAction.exec] at hσ'
      split at hσ'
      · cases hσ'
        refine h.goes he.1 (fun _ _ _ hc => ?_) fun _ hev => ?_
        · split at hc <;> cases hc
        · split at hev <;> cases hev
      · cases hσ'
  | epollWait x rs =>
      obtain ⟨⟨hx, -⟩, -, -, hrs, -, -⟩ := he
      cases hσ'
      refine (h.withFiles (h.watched.reported rs)).goes hx (fun _ _ _ hc => by cases hc) fun e hev => ?_
      obtain ⟨r, hr, rfl⟩ := List.mem_map.1 hev
      exact h.known (hrs r hr)
  | dispatch x =>
      simp only [TaskAction.exec] at hσ'
      split at hσ'
      · cases hσ'
        exact h.goes he.1 (fun _ _ _ hc => by cases hc) fun _ hev => by cases hev
      · rename_i e es hpc
        exact h.dispatch he.1 hpc hσ'
      · cases hσ'
  | reap x =>
      simp only [TaskAction.exec] at hσ'
      split at hσ'
      · rename_i es hpc
        cases hσ'
        exact h.goes he.1 (fun _ _ _ hc => by cases hc) fun e hev => h.events x e (by rw [hpc]; exact hev)
      · rename_i n es t ts hpc hcomp
        cases hσ'
        exact h.tasks he.1 (h.tidy.reap hcomp) rfl rfl rfl (fun _ => he.1)
          (fun _ _ _ hc => by cases hc) fun e hev => h.events x e (by rw [hpc]; exact hev)
      · cases hσ'
  | taskscheduler =>
      simp only [TaskAction.exec] at hσ'
      split at hσ'
      · rename_i T hT
        cases hσ'
        exact h.taskscheduler he.1 hT
      · cases hσ'
  | change f m more =>
      cases hσ'
      exact h.withFiles h.watched.change
  | complete t =>
      cases hσ'
      exact ⟨h.tidy.complete he, h.watched, h.busy, h.call, h.recorded, h.events⟩

end Sound

end Libtask

end VmwareProto
