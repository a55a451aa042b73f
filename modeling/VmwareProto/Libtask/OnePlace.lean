import VmwareProto.Libtask.Steps
/-!
# A task is in one place

`task_netrw` keeps the number and the context it has looked up while it
waits, and `task_fd_deregister` frees the context and wakes the task. As
long as no open takes a number on which a call is suspended, the woken call
finds the number closed and returns, so nobody is recorded in a context
that is not registered (`Current`).
-/

namespace VmwareProto

namespace Libtask

/-- The number of the call that a task is in. -/
def Pc.fd (pc : Pc) : Option Fd := pc.call.map fun q => q.2.1

/-- No open takes a number on which a call is suspended. -/
def NoReuse (σ : Taskio) : TaskAction → Prop
  | .openFile _ _ fd _ => ∀ t ∈ σ.tasks.alltask, (σ.pc t).fd ≠ some fd
  | .accepted _ fd _ => ∀ t ∈ σ.tasks.alltask, (σ.pc t).fd ≠ some fd
  | _ => True

instance (σ : Taskio) : (act : TaskAction) → Decidable (NoReuse σ act)
  | .openFile _ _ fd _ | .accepted _ fd _ =>
      inferInstanceAs (Decidable (∀ t ∈ σ.tasks.alltask.tasks, (σ.pc t).fd ≠ some fd))
  | .taskcreate _ _ _ | .taskyield _ | .taskexit _ | .tasksystem _ | .tasksleep _ _ | .taskwakeup _ _
  | .taskwakeupall _ _ | .wakenext _ | .netrw _ _ _ _ | .issue _ _ | .suspend _ | .aiorw _ | .aioret _
  | .close _ _ | .register _ _ _ | .deregister _ _ | .epollDel _ | .start _ | .poll _ | .yielded _
  | .epollWait _ _ | .dispatch _ | .reap _ | .taskscheduler | .change _ _ _ | .complete _ =>
      instDecidableTrue

/-- Context `c` is registered under `fd`, or nothing is open under it. -/
def Taskio.Current (σ : Taskio) (fd : Fd) (c : Ctx) : Prop :=
  σ.contexts.tcarray fd = some c ∨ σ.files.table fd = none

/-- **A call has a registered context, or a number that is closed.** -/
structure Current (σ : Taskio) : Prop where
  call : ∀ t ∈ σ.tasks.alltask, ∀ op fd c, (σ.pc t).call = some (op, fd, c) → σ.Current fd c
  again : ∀ t op fd c n, σ.pc t = .again op fd c n → σ.contexts.tcarray fd = some c
  recorded : ∀ c s t, (σ.contexts.ctx c).waiter s = some t → ∃ fd, σ.contexts.tcarray fd = some c

variable {σ σ' : Taskio} {x t : TaskId} {pc : Pc} {F : Files} {T : Tasks} {c d : Ctx}
  {s r : Side} {fd : Fd} {m : Mask} {es : List Event} {e : Event} {act : TaskAction}

/-! ## What the steps leave of a context -/

theorem Taskio.wake_waiter (h : ((σ.wake c s).contexts.ctx d).waiter r = some t) :
    (σ.contexts.ctx d).waiter r = some t ∧ ¬(d = c ∧ r = s) := by
  cases hw : (σ.contexts.ctx c).waiter s with
  | none =>
      rw [Sound.wake_none hw] at h
      refine ⟨h, fun e => ?_⟩
      rw [e.1, e.2, hw] at h
      cases h
  | some u =>
      rw [Sound.wake_some hw] at h
      by_cases hds : d = c ∧ r = s
      · obtain ⟨rfl, rfl⟩ := hds
        rw [Contexts.record_waiter_self] at h
        cases h
      · rw [Contexts.record_waiter_of_ne hds] at h
        exact ⟨h, hds⟩

theorem Taskio.wake_alltask (c : Ctx) (s : Side) :
    (σ.wake c s).tasks.alltask = σ.tasks.alltask := by
  unfold Taskio.wake
  split <;> rfl

/-- What is kept by waking on the sides that an event is for is kept by its
dispatch. -/
theorem Taskio.ioDone_rec {P : Taskio → Prop} (hd : σ.ioDone c m = some σ') (h : P σ)
    (hw : ∀ τ s, m.wakes s = true → P τ → P (τ.wake c s)) : P σ' := by
  have hsock : σ.sockioDone c m = some σ' → P σ' := fun hd => by
    unfold Taskio.sockioDone at hd
    split at hd
    · cases hd
    · cases hd
      have hr : P (if m.wakes .reader = true then σ.wake c .reader else σ) := by
        split
        · exact hw σ .reader ‹_› h
        · exact h
      split
      · exact hw _ .writer ‹_› hr
      · exact hr
  unfold Taskio.ioDone at hd
  split at hd
  · exact hsock hd
  · unfold Taskio.fifoioDone at hd
    split at hd
    · cases hd
      exact h
    · exact hsock hd

theorem Taskio.ioDone_waiter (hd : σ.ioDone c m = some σ')
    (h : (σ'.contexts.ctx d).waiter r = some t) : (σ.contexts.ctx d).waiter r = some t :=
  Taskio.ioDone_rec
    (P := fun τ => (τ.contexts.ctx d).waiter r = some t → (σ.contexts.ctx d).waiter r = some t)
    hd id (fun _ _ _ ih h => ih (Taskio.wake_waiter h).1) h

/-- What `task_fd_deregister` leaves. -/
theorem Taskio.deregister_eq (x : TaskId) (fd : Fd) :
    ((σ.deregister x fd).contexts = σ.contexts ∧ (σ.deregister x fd).pc = σ.pc ∨
      σ.files.table fd = none ∧ ∃ c, σ.contexts.tcarray fd = some c ∧
        (σ.deregister x fd).contexts.tcarray = Function.update σ.contexts.tcarray fd none ∧
        (∀ d r t, ((σ.deregister x fd).contexts.ctx d).waiter r = some t →
          (σ.contexts.ctx d).waiter r = some t ∧ d ≠ c) ∧
        ((σ.deregister x fd).pc = σ.pc ∨
          (σ.deregister x fd).pc = Function.update σ.pc x (.deregister fd))) ∧
    (σ.deregister x fd).files.table = σ.files.table ∧
    (σ.deregister x fd).tasks.alltask = σ.tasks.alltask := by
  have hdel : ∀ F : Files, (F.epollDel fd).table = F.table := fun F => by
    unfold Files.epollDel
    split <;> rfl
  unfold Taskio.deregister
  split
  · exact ⟨.inl ⟨rfl, rfl⟩, rfl, rfl⟩
  · rename_i hfree
    have hfree : σ.files.table fd = none := by simpa using hfree
    split
    · exact ⟨.inl ⟨rfl, rfl⟩, hdel _, rfl⟩
    · rename_i c hlook
      have hwaiter : ∀ d r t, (((σ.wake c .reader).wake c .writer).contexts.ctx d).waiter r = some t →
          (σ.contexts.ctx d).waiter r = some t ∧ d ≠ c := fun d r t h => by
        obtain ⟨h, hnw⟩ := Taskio.wake_waiter h
        obtain ⟨h, hnr⟩ := Taskio.wake_waiter h
        refine ⟨h, fun e => ?_⟩
        cases r with
        | reader => exact hnr ⟨e, rfl⟩
        | writer => exact hnw ⟨e, rfl⟩
      have harr : (((σ.wake c .reader).wake c .writer).contexts.delete fd c).tcarray =
          Function.update σ.contexts.tcarray fd none := by
        simp only [Contexts.delete, Sound.wake_tcarray]
      have hpc : ((σ.wake c .reader).wake c .writer).pc = σ.pc := by
        rw [Sound.wake_pc, Sound.wake_pc]
      have htab : ((σ.wake c .reader).wake c .writer).files.table = σ.files.table := by
        rw [Sound.wake_files, Sound.wake_files]
      have hall : ((σ.wake c .reader).wake c .writer).tasks.alltask = σ.tasks.alltask := by
        rw [Taskio.wake_alltask, Taskio.wake_alltask]
      dsimp only
      split
      · refine ⟨.inr ⟨hfree, c, Contexts.lookup_eq hlook, harr, hwaiter, .inr ?_⟩, htab, hall⟩
        simp only [hpc]
      · refine ⟨.inr ⟨hfree, c, Contexts.lookup_eq hlook, harr, hwaiter, .inl hpc⟩, ?_, hall⟩
        simp only [hdel]
        exact htab

/-- What `task_fd_register` leaves. -/
theorem Taskio.register_eq (r : Registration) (fd : Fd) :
    (σ.register r fd).pc = σ.pc ∧ (σ.register r fd).tasks = σ.tasks ∧
    (σ.register r fd).files.table = σ.files.table ∧
    (∀ c, c < σ.contexts.nctx →
      ((σ.register r fd).contexts.ctx c).waiter = (σ.contexts.ctx c).waiter) ∧
    (∀ fd' c, σ.contexts.tcarray fd' = some c → (σ.register r fd).contexts.tcarray fd' = some c) := by
  have hctx : ∀ c, c < σ.contexts.nctx →
      ((σ.contexts.insert r fd (σ.files.table fd)).ctx c).waiter = (σ.contexts.ctx c).waiter :=
    fun c hc => by simp [Contexts.insert, Nat.ne_of_lt hc]
  unfold Taskio.register
  split
  · rename_i hfd
    have hne : ∀ fd' c, σ.contexts.tcarray fd' = some c → fd' ≠ fd := fun fd' c hc e => by
      rw [e, hfd.2] at hc
      cases hc
    dsimp only
    split
    · refine ⟨rfl, rfl, rfl, hctx, fun fd' c hc => ?_⟩
      simpa [Contexts.insert, hne fd' c hc] using hc
    · split
      · rename_i F hadd
        have htab : F.table = σ.files.table := by
          unfold Files.epollAdd at hadd
          split at hadd
          · cases hadd
          · split at hadd
            · cases hadd
            · cases hadd
              rfl
        refine ⟨rfl, rfl, htab, hctx, fun fd' c hc => ?_⟩
        simpa [Contexts.insert, hne fd' c hc] using hc
      · refine ⟨rfl, rfl, rfl, hctx, fun fd' c hc => ?_⟩
        simpa [Contexts.delete, Contexts.insert, hne fd' c hc] using hc
  · exact ⟨rfl, rfl, rfl, fun _ _ => rfl, fun _ _ => id⟩

/-! ## What is kept -/

theorem Files.epollDel_table (fd : Fd) : (F.epollDel fd).table = F.table := by
  unfold Files.epollDel
  split <;> rfl

theorem Taskio.reported_table (rs : List Report) : (Taskio.reported F rs).table = F.table := by
  induction rs generalizing F with
  | nil => rfl
  | cons r rs ih =>
      cases r with
      | file f m => exact ih
      | eventfd => exact ih

theorem Taskio.ioDone_alltask (hd : σ.ioDone c m = some σ') :
    σ'.tasks.alltask = σ.tasks.alltask := by
  refine Taskio.ioDone_rec (P := fun τ => τ.tasks.alltask = σ.tasks.alltask) hd rfl fun τ s _ h => ?_
  rw [Taskio.wake_alltask, h]

/-- A point at which a task may be. -/
structure Pc.Settled (σ : Taskio) (pc : Pc) : Prop where
  call : ∀ op fd c, pc.call = some (op, fd, c) → σ.Current fd c
  again : ∀ op fd c n, pc = .again op fd c n → σ.contexts.tcarray fd = some c

/-- A task that is in no call. -/
theorem Pc.Settled.aside (h : pc.call = none) : pc.Settled σ := by
  refine ⟨fun op fd c hc => ?_, fun op fd c n ha => ?_⟩
  · rw [h] at hc
    cases hc
  · rw [ha] at h
    cases h

theorem Pc.Settled.update (h : pc.Settled σ) (x t : TaskId) :
    Function.update σ.pc x pc t = σ.pc t ∨ (Function.update σ.pc x pc t).Settled σ := by
  by_cases ht : t = x
  · subst ht
    rw [Function.update_self]
    exact .inr h
  · exact .inl (Function.update_of_ne ht ..)

namespace Current

/-- Numbers and registrations are left alone. -/
theorem keeps (h : Current σ) (htab : σ'.files.table = σ.files.table)
    (harr : σ'.contexts.tcarray = σ.contexts.tcarray)
    (hrec : ∀ c s t, (σ'.contexts.ctx c).waiter s = some t →
      (σ.contexts.ctx c).waiter s = some t ∨ ∃ fd, σ.contexts.tcarray fd = some c)
    (hall : ∀ t ∈ σ'.tasks.alltask, t ∈ σ.tasks.alltask ∨ (σ'.pc t).call = none)
    (hpc : ∀ t, σ'.pc t = σ.pc t ∨ (σ'.pc t).Settled σ) : Current σ' := by
  have hcur : ∀ fd c, σ.Current fd c → σ'.Current fd c := fun fd c hc => by
    unfold Taskio.Current
    rw [harr, htab]
    exact hc
  refine ⟨fun t ht op fd c hc => ?_, fun t op fd c n ha => ?_, fun c s t ht => ?_⟩
  · rcases hall t ht with ht | hnone
    · rcases hpc t with he | hset
      · exact hcur fd c (h.call t ht op fd c (he ▸ hc))
      · exact hcur fd c (hset.call op fd c hc)
    · rw [hc] at hnone
      cases hnone
  · rw [harr]
    rcases hpc t with he | hset
    · exact h.again t op fd c n (he ▸ ha)
    · exact hset.again op fd c n ha
  · rw [harr]
    rcases hrec c s t ht with ht | hfd
    · exact h.recorded c s t ht
    · exact hfd

/-- The running task goes on, or its tasks do. -/
theorem tasks (h : Current σ) (hall : T.alltask = σ.tasks.alltask)
    (hpc : ∀ t, Function.update σ.pc x pc t = σ.pc t ∨ (Function.update σ.pc x pc t).Settled σ) :
    Current { σ with tasks := T, pc := Function.update σ.pc x pc } :=
  h.keeps rfl rfl (fun _ _ _ => .inl) (fun t ht => .inl (by rw [← hall]; exact ht)) hpc

/-- It stays where it is. -/
theorem stays (h : Current σ) (hall : ∀ t ∈ T.alltask, t ∈ σ.tasks.alltask) :
    Current { σ with tasks := T } :=
  h.keeps rfl rfl (fun _ _ _ => .inl) (fun t ht => .inl (hall t ht)) fun _ => .inl rfl

/-- It comes to another point. -/
theorem goes (h : Current σ) (hpc : pc.Settled σ) :
    Current { σ with pc := Function.update σ.pc x pc } :=
  h.tasks rfl (hpc.update x)

/-- Of what is open only readiness changes. -/
theorem withFiles (h : Current σ) (htab : F.table = σ.files.table) :
    Current { σ with files := F } :=
  h.keeps htab rfl (fun _ _ _ => .inl) (fun _ => .inl) fun _ => .inl rfl

/-- The numbers on which calls are suspended are not taken. -/
theorem table (h : Current σ)
    (htab : ∀ t ∈ σ.tasks.alltask, ∀ fd, (σ.pc t).fd = some fd →
      F.table fd = σ.files.table fd ∨ F.table fd = none) : Current { σ with files := F } := by
  refine ⟨fun t ht op fd c hc => ?_, h.again, h.recorded⟩
  have hfd : (σ.pc t).fd = some fd := by
    simp only [Pc.fd] at hc ⊢
    rw [hc]
    rfl
  rcases h.call t ht op fd c hc with hc | hnone
  · exact .inl hc
  · rcases htab t ht fd hfd with he | he
    · exact .inr (he.trans hnone)
    · exact .inr he

theorem openFile (h : Current σ) {k : Kind} (hfree : ∀ t ∈ σ.tasks.alltask, (σ.pc t).fd ≠ some fd) :
    Current { σ with files := σ.files.openFile k fd m } := by
  refine h.table fun t ht fd' hfd => .inl (Function.update_of_ne ?_ ..)
  rintro rfl
  exact hfree t ht hfd

theorem close (h : Current σ) (fd : Fd) : Current { σ with files := σ.files.close fd } := by
  refine h.table fun t _ fd' _ => ?_
  unfold Files.close
  split
  · exact .inl rfl
  · by_cases he : fd' = fd
    · subst he
      exact .inr (Function.update_self ..)
    · exact .inl (Function.update_of_ne he ..)

/-- `task_fd_register` -/
theorem register (h : Current σ) (hs : Sound σ) (hx : σ.tasks.taskrunning = some x)
    (r : Registration) (fd : Fd) : Current (σ.register r fd) := by
  obtain ⟨hpc, htasks, htab, hwait, harr⟩ := Taskio.register_eq (σ := σ) r fd
  refine ⟨fun t ht op fd' c hc => ?_, fun t op fd' c n ha => ?_, fun c s t ht => ?_⟩
  · rw [htasks] at ht
    rw [hpc] at hc
    unfold Taskio.Current
    rw [htab]
    exact (h.call t ht op fd' c hc).imp_left (harr fd' c)
  · rw [hpc] at ha
    exact harr fd' c (h.again t op fd' c n ha)
  · -- a recorded task is in a call, whose context is an old one
    obtain ⟨op, fd', n, hcall, -⟩ := (hs.register hx r fd).recorded c s t ht
    rw [hpc] at hcall
    obtain ⟨hlt, -⟩ := hs.call t op fd' c (by rw [hcall]; rfl)
    rw [hwait c hlt] at ht
    obtain ⟨fd', hc⟩ := h.recorded c s t ht
    exact ⟨fd', harr fd' c hc⟩

/-- `task_fd_deregister` -/
theorem deregister (h : Current σ) (hs : Sound σ) (hx : σ.tasks.taskrunning = some x)
    (htop : σ.pc x = .top) (fd : Fd) : Current (σ.deregister x fd) := by
  obtain ⟨hcases, htab, hall⟩ := Taskio.deregister_eq (σ := σ) x fd
  rcases hcases with ⟨hctx, hpc⟩ | ⟨hfree, c, hc, harr, hwait, hpc⟩
  · exact h.keeps htab (by rw [hctx]) (fun c s t ht => .inl (by rw [hctx] at ht; exact ht))
      (fun t ht => .inl (hall ▸ ht)) fun t => .inl (by rw [hpc])
  · have hpcs : ∀ t, (σ.deregister x fd).pc t = σ.pc t ∨
        (σ.deregister x fd).pc t = .deregister fd := fun t => by
      rcases hpc with hpc | hpc
      · exact .inl (by rw [hpc])
      · rw [hpc]
        by_cases ht : t = x
        · subst ht
          exact .inr (Function.update_self ..)
        · exact .inl (Function.update_of_ne ht ..)
    refine ⟨fun t ht op fd' d hd => ?_, fun t op fd' d n ha => ?_, fun d s t ht => ?_⟩
    · unfold Taskio.Current
      rw [harr, htab]
      by_cases he : fd' = fd
      · exact .inr (he ▸ hfree)
      · rw [Function.update_of_ne he]
        rcases hpcs t with hpc | hpc
        · rw [hpc] at hd
          exact h.call t (hall ▸ ht) op fd' d hd
        · rw [hpc] at hd
          cases hd
    · -- the running task keeps control between `EAGAIN` and its suspension
      rcases hpcs t with hpc | hpc
      · rw [hpc] at ha
        have hrun := hs.busy t (by rw [ha]; rfl)
        rw [hx] at hrun
        cases hrun
        rw [htop] at ha
        cases ha
      · rw [hpc] at ha
        cases ha
    · obtain ⟨ht, hne⟩ := hwait d s t ht
      obtain ⟨fd', hd⟩ := h.recorded d s t ht
      refine ⟨fd', ?_⟩
      rw [harr, Function.update_of_ne fun e => hne ?_]
      · exact hd
      · rw [e, hc] at hd
        exact (Option.some.inj hd).symm

/-- **Every step keeps it**, but for an open that takes the number of a
suspended call. -/
theorem step (h : Current σ) (hs : Sound σ) (he : act.Enabled σ) (hno : NoReuse σ act)
    (hσ' : act.exec σ = some σ') : Current σ' := by
  by_cases ho : act.Elsewhere
  · cases hs.works he hσ' ho with
    | aside act σ' hf hc hall hpc =>
        refine h.keeps (by rw [hf]) (by rw [hc]) (fun c s t ht => .inl (by rw [hc] at ht; exact ht))
          (fun t ht => (hall t ht).imp_right Pc.idle_call) fun t => (hpc t).imp_right fun hi => ?_
        exact .aside (Pc.idle_call hi)
    | netrw x op fd c n hat harr =>
        refine h.goes ⟨fun op' fd' c' hc => ?_, fun _ _ _ _ ha => by cases ha⟩
        cases hc
        exact .inl harr
    | moved x op fd c n k left hat hans =>
        have hcur := h.call x (hs.running_mem hat.1) op fd c (by rw [hat.2]; rfl)
        have htab : ((σ.files.table fd).elim σ.files fun f => σ.files.drain f op.side left).table =
            σ.files.table := by
          cases σ.files.table fd <;> rfl
        refine (h.withFiles htab).goes ⟨fun op' fd' c' hc => ?_, fun op' fd' c' n' ha => ?_⟩
        · split at hc
          · cases hc
            unfold Taskio.Current
            rw [htab]
            exact hcur
          · cases hc
        · split at ha <;> cases ha
    | again x op fd c n hat hans =>
        -- `EAGAIN` is the answer of an open descriptor
        have hcur := h.call x (hs.running_mem hat.1) op fd c (by rw [hat.2]; rfl)
        have harr : σ.contexts.tcarray fd = some c := hcur.resolve_right fun hnone => by
          simp [Files.answers, hnone] at hans
        refine h.goes ⟨fun op' fd' c' hc => ?_, fun op' fd' c' n' ha => ?_⟩
        · cases hc
          exact .inl harr
        · cases ha
          exact harr
    | suspend x op fd c n hat hnone =>
        have harr := h.again x op fd c n hat.2
        refine h.keeps rfl rfl (fun d r t ht => ?_) (fun _ => .inl)
          (Pc.Settled.update ⟨fun op' fd' c' hc => ?_, fun _ _ _ _ ha => by cases ha⟩ x)
        · by_cases hds : d = c ∧ r = op.side
          · exact .inr ⟨fd, hds.1 ▸ harr⟩
          · rw [Contexts.record_waiter_of_ne hds] at ht
            exact .inl ht
        · cases hc
          exact .inl harr
    | openFile x k fd m hlow => exact h.openFile hno
    | accepted x fd m hrun hlow =>
        refine ((h.openFile hno).goes (.aside rfl)).register ?_ hrun .sock fd
        exact (hs.withFiles (hs.watched.openFile (m := m) (k := .socket) hlow.1)).goes hrun
          (fun _ _ _ hc => by cases hc) fun _ hev => by cases hev
    | rejected x fd m hrun hlow => exact ((h.openFile hno).close fd).goes (.aside rfl)
    | close x fd => exact h.close fd
    | register x r fd hrun => exact h.register hs hrun r fd
    | deregister x fd hat => exact h.deregister hs hat.1 hat.2 fd
    | epollDel x fd hat => exact (h.withFiles (Files.epollDel_table _)).goes (.aside rfl)
  · cases TaskAction.polls he hσ' ho with
    | change f m more => exact h.withFiles rfl
    | complete t => exact h.keeps rfl rfl (fun _ _ _ => .inl) (fun _ => .inl) fun _ => .inl rfl
    | epollWait x rs hat hrs => exact (h.withFiles (Taskio.reported_table rs)).goes (.aside rfl)
    | other x act σ' pc hrun hall hf hc hpc hcall hev =>
        refine h.keeps (by rw [hf]) (by rw [hc]) (fun c s t ht => .inl (by rw [hc] at ht; exact ht))
          (fun t ht => .inl (hall ▸ ht)) fun t => ?_
        rw [hpc]
        exact Pc.Settled.update (.aside hcall) x t
    | event x c m es τ hrun hpc hτ =>
        obtain ⟨fd, hfd⟩ := hs.events x (.ctx c m) (by rw [hpc]; exact List.mem_cons_self)
        obtain ⟨-, hpcτ, -, harr, hfiles⟩ := hs.ioDone (hs.watched.array fd c hfd).1 hτ
        have h₁ : Current τ := h.keeps (by rw [hfiles]) harr
          (fun d r t ht => .inl (Taskio.ioDone_waiter hτ ht))
          (fun t ht => .inl (Taskio.ioDone_alltask hτ ▸ ht)) fun t => .inl (by rw [hpcτ])
        exact h₁.goes (.aside rfl)

theorem start (k : ℕ) : Current (Taskio.start k) := by
  refine ⟨fun t _ op fd c hc => ?_, fun t op fd c n ha => ?_, nofun⟩
  · simp only [Taskio.start] at hc
    split at hc <;> cases hc
  · simp only [Taskio.start] at ha
    split at ha <;> cases ha

theorem reachable (h : (taskio.only NoReuse).Reachable σ) : Sound σ ∧ Current σ := by
  refine h.invariant (I := fun σ => Sound σ ∧ Current σ) ?_ fun σ act σ' hI he hx => ?_
  · rintro _ ⟨k, rfl⟩
    exact ⟨.start k, .start k⟩
  · obtain ⟨he, hno⟩ := he
    exact ⟨hI.1.step he hx, hI.2.step hI.1 he hno hx⟩

end Current

/-- **A task is in one place**: it runs, is linked in one list, is recorded in
one registered context, or waits for one request; and the lists are well
formed. -/
theorem one_place (h : (taskio.only NoReuse).Reachable σ) :
    ∃ ls, σ.tasks.lists.All ls ∧ (σ.submitted ++ σ.completed).Nodup ∧
      σ.tasks.alltask.tasks.Nodup ∧
      (∀ t ∈ σ.tasks.alltask, ∃! p, σ.spots.At ls t p) ∧
      (∀ t p, σ.spots.At ls t p → t ∈ σ.tasks.alltask) ∧
      ∀ t c s, σ.spots.At ls t (.recorded c s) →
        ∃ fd, σ.contexts.tcarray fd = some c ∧ (σ.contexts.ctx c).fd = fd := by
  obtain ⟨hs, hcur⟩ := Current.reachable h
  obtain ⟨ls, place, hp, hproper, hall⟩ := hs.tidy
  refine ⟨ls, hp.lists, hp.libaio, hproper.nodup, fun t ht => ?_, fun t p hat => ?_, fun t c s hat => ?_⟩
  · obtain ⟨p, hpt⟩ := Option.ne_none_iff_exists'.1 ((hall t).1 ht)
    refine ⟨p, (hp.at_iff t p).2 hpt, fun q hq => ?_⟩
    have hq := (hp.at_iff t q).1 hq
    rw [hpt] at hq
    exact (Option.some.inj hq).symm
  · rw [hall, (hp.at_iff t p).1 hat]
    exact Option.some_ne_none _
  · obtain ⟨fd, hfd⟩ := hcur.recorded c s t hat
    exact ⟨fd, hfd, (hs.watched.array fd c hfd).2.2.1⟩

/-- A task that waits for a socket. -/
theorem one_place_reader : ∃ (σ : Taskio) (ls : Tasklist → List TaskId), σ.contexts.tcarray 3 = some 0 ∧
    (∃! p, σ.spots.At ls 0 p) ∧ σ.spots.At ls 0 (.recorded 0 .reader) := by
  have h : (((taskio.only NoReuse).run (.start 3) [.openFile 0 .socket 3 ⟨false, true, false, false⟩,
      .register 0 .sock 3, .netrw 0 .read 3 8, .issue 0 .again, .suspend 0]).any fun σ =>
        decide (σ.contexts.tcarray 3 = some 0 ∧ 0 ∈ σ.tasks.alltask ∧
          (σ.contexts.ctx 0).waiter .reader = some 0)) = true := by
    decide +kernel
  obtain ⟨σ, hσ, hp⟩ := System.Steps.of_run_any h
  obtain ⟨harr, hmem, hrec⟩ := of_decide_eq_true hp
  obtain ⟨ls, -, -, -, hone, -⟩ := one_place (hσ.reachable (.init ⟨3, rfl⟩))
  exact ⟨σ, ls, harr, hone 0 hmem, hrec⟩

/-! ## Transfers -/

/-- What a call does next concerns the registration it has looked up, or
fails. -/
def Uncrossed (σ : Taskio) : TaskAction → Prop
  | .issue x o => ∀ op fd c n, σ.pc x = .netrw op fd c n →
      σ.contexts.tcarray fd = some c ∨ o = .failed
  | .accepted x _ _ => ∀ op fd c n, σ.pc x = .netrw op fd c n → σ.contexts.tcarray fd = some c
  | .suspend x => ∀ op fd c n, σ.pc x = .again op fd c n →
      σ.contexts.tcarray fd = some c ∧ σ.contexts.live c = true
  | _ => True

/-- **No transfer crosses into another registration** as long as no open takes
the number of a suspended call: what it reads, writes or accepts and where it
is recorded is of the registration it has looked up, and where that is gone,
the call fails. -/
theorem transfers_uncrossed (h : (taskio.only NoReuse).Reachable σ) (he : act.Enabled σ) :
    Uncrossed σ act := by
  obtain ⟨hs, hcur⟩ := Current.reachable h
  cases act with
  | issue x o =>
      intro op fd c n hpc
      have hans := he.2
      rw [hpc] at hans
      rcases hcur.call x (hs.running_mem he.1) op fd c (by rw [hpc]; rfl) with hc | hnone
      · exact .inl hc
      · exact .inr (by simpa [Files.answers, hnone] using hans)
  | accepted x fd' m =>
      intro op fd c n hpc
      have hconn := he.1.2
      rw [hpc] at hconn
      refine (hcur.call x (hs.running_mem he.1.1) op fd c (by rw [hpc]; rfl)).resolve_right fun hnone => ?_
      cases op with
      | accept => simp [Files.connects, hnone] at hconn
      | read => cases hconn
      | write => cases hconn
  | suspend x =>
      intro op fd c n hpc
      have hc := hcur.again x op fd c n hpc
      exact ⟨hc, (hs.watched.array fd c hc).2.1⟩
  | _ => trivial

/-- A task waits for a socket that is closed and deregistered, and is ready. -/
def closedUnderReader : List TaskAction :=
  [.taskcreate 0 cacheStackSize 2, .taskcreate 0 cacheStackSize 3,
    .openFile 0 .socket 3 ⟨false, true, false, false⟩, .register 0 .sock 3, .taskyield 0,
    .taskscheduler, .start 1, .poll 1,
    .taskscheduler, .netrw 2 .read 3 8, .issue 2 .again, .suspend 2,
    .taskscheduler, .taskyield 3,
    .taskscheduler, .close 0 3, .deregister 0 3,
    .taskscheduler, .yielded 1, .poll 1, .taskscheduler]

/-- The reader goes on after nobody took the number. -/
theorem transfers_uncrossed_closed : ∃ σ, taskio.enabled σ (.issue 2 .failed) ∧
    σ.pc 2 = .netrw .read 3 0 8 ∧ Uncrossed σ (.issue 2 .failed) := by
  have h : (((taskio.only NoReuse).run (.start 3)
      (closedUnderReader ++ [.taskyield 3, .taskscheduler])).any fun σ =>
        decide (taskio.enabled σ (.issue 2 .failed) ∧ σ.pc 2 = .netrw .read 3 0 8)) = true := by
    decide +kernel
  obtain ⟨σ, hσ, hp⟩ := System.Steps.of_run_any h
  obtain ⟨he, hpc⟩ := of_decide_eq_true hp
  exact ⟨σ, he, hpc, transfers_uncrossed (hσ.reachable (.init ⟨3, rfl⟩)) he⟩

/-- **A transfer crosses into another registration**: before the reader goes
on, another task opens and registers a socket under the number, and the
reader gets what is for that. -/
theorem transfer_crosses : ¬∀ σ act, taskio.Reachable σ → taskio.enabled σ act → Uncrossed σ act := by
  intro hall
  have h : ((taskio.run (.start 3) (closedUnderReader ++
      [.openFile 3 .socket 3 ⟨true, true, false, false⟩, .register 3 .sock 3,
        .taskyield 3, .taskscheduler])).any fun σ =>
          decide (taskio.enabled σ (.issue 2 (.moved 8 false)) ∧ σ.pc 2 = .netrw .read 3 0 8 ∧
            σ.contexts.tcarray 3 = some 1)) = true := by
    decide +kernel
  obtain ⟨σ, hσ, hp⟩ := System.Steps.of_run_any h
  obtain ⟨he, hpc, harr⟩ := of_decide_eq_true hp
  rcases hall σ _ (hσ.reachable (.init ⟨3, rfl⟩)) he .read 3 0 8 hpc with hc | hc
  · rw [harr] at hc
    cases hc
  · cases hc

end Libtask

end VmwareProto
