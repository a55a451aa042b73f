import VmwareProto.Libtask.Dispatch
/-!
# Descriptors that stay open

A descriptor that is registered with epoll stays open and watched
(`Attended`), as long as none of its kind is closed or loses its entry to a
`task_fd_deregister` that was begun for an earlier descriptor of its number.
A socket is watched in both directions by one edge-triggered entry. A task
that waits for it has seen `EAGAIN`, and from then on a direction that
becomes ready is an edge, which epoll keeps until `epoll_wait` reports it
and `aiotask` keeps until its dispatch: where a task waits for a direction
that is ready, the edge is queued or fetched (`Heard`).
-/

namespace VmwareProto

namespace Libtask

variable {σ σ' τ : Taskio} {x t : TaskId} {c d : Ctx} {s r : Side} {m n more : Mask} {f g : File}
  {F F' : Files} {fd : Fd} {es : List Event} {act : TaskAction} {pc : Pc} {i : Interest}
  {q : Registration}

/-! ## Masks -/

namespace Mask

@[simp] theorem inter_has : (m.inter n).has s = (m.has s && n.has s) := by cases s <;> rfl
@[simp] theorem union_has : (m.union n).has s = (m.has s || n.has s) := by cases s <;> rfl
@[simp] theorem diff_has : (m.diff n).has s = (m.has s && !n.has s) := by cases s <;> rfl
@[simp] theorem empty_has : empty.has s = false := by cases s <;> rfl

/-- An error and a hang-up are no direction. -/
@[simp] theorem has_err_hup : { m with err := true, hup := true }.has s = m.has s := by cases s <;> rfl

theorem wakes_of_has (h : m.has s = true) : m.wakes s = true := by simp [wakes, h]

/-- A call changes the direction it is for. -/
theorem set_has {b : Bool} : (m.set s b).has r = if r = s then b else m.has r := by
  cases s <;> cases r <;> rfl

end Mask

theorem Registration.sock_events_has : Registration.sock.events.has s = true := by cases s <;> rfl

/-- A step within a call. -/
theorem Pc.call_update (h : pc.call = (σ.pc x).call) (t : TaskId) :
    (Function.update σ.pc x pc t).call = (σ.pc t).call := by
  by_cases ht : t = x
  · rw [ht, Function.update_self, h]
  · rw [Function.update_of_ne ht]

/-! ## Edges -/

/-- A direction is not ready, or its edge is queued. -/
def Files.Pending (F : Files) (f : File) (s : Side) : Prop :=
  (F.ready f).has s = false ∨ (F.queued f).has s = true

/-- An event for a direction is fetched, and not dispatched yet. -/
def Taskio.HasFetched (σ : Taskio) (c : Ctx) (s : Side) : Prop :=
  ∃ x m, .ctx c m ∈ (σ.pc x).events ∧ m.wakes s = true

/-- **A direction that is ready is heard of.** -/
def Taskio.Heard (σ : Taskio) (c : Ctx) (f : File) (s : Side) : Prop :=
  σ.files.Pending f s ∨ σ.HasFetched c s

/-- A task waits in a context, or is about to. -/
def Taskio.Listens (σ : Taskio) (c : Ctx) (s : Side) : Prop :=
  (∃ t, (σ.contexts.ctx c).waiter s = some t) ∨
    ∃ t op fd n, σ.pc t = .again op fd c n ∧ op.side = s

/-- **What is registered as `q` is open and watched**, and who waits for a
socket hears of it. -/
structure Attended (q : Registration) (σ : Taskio) : Prop where
  watch : ∀ fd c, σ.contexts.tcarray fd = some c → σ.contexts.reg c = q →
    ∃ f, σ.files.table fd = some f ∧
      σ.files.interest f = some ⟨c, q.events, q.edge⟩
  call : ∀ t op fd c, (σ.pc t).call = some (op, fd, c) → σ.contexts.reg c = q →
    σ.contexts.tcarray fd = some c
  heard : q = .sock → ∀ c s fd f, σ.Listens c s → σ.contexts.reg c = q → σ.contexts.tcarray fd = some c →
    σ.files.table fd = some f → σ.Heard c f s

/-- Nothing is registered as `q` under the number. -/
def Contexts.Without (C : Contexts) (q : Registration) (fd : Fd) : Prop := ∀ c ∈ C.tcarray fd, C.reg c ≠ q

instance (C : Contexts) (q : Registration) (fd : Fd) : Decidable (C.Without q fd) :=
  inferInstanceAs (Decidable (∀ c ∈ C.tcarray fd, C.reg c ≠ q))

/-- The number for which a task is in `task_fd_deregister`. -/
def Pc.deregistering : Pc → Option Fd
  | deregister fd => some fd
  | _ => none

/-- Nothing that is registered as `q` is closed, or taken out of epoll. -/
def StaysOpen (q : Registration) (σ : Taskio) : TaskAction → Prop
  | .close _ fd => σ.contexts.Without q fd
  | .epollDel x => ∀ fd ∈ (σ.pc x).deregistering, σ.contexts.Without q fd
  | _ => True

instance (q : Registration) (σ : Taskio) : (act : TaskAction) → Decidable (StaysOpen q σ act)
  | .close _ fd => inferInstanceAs (Decidable (σ.contexts.Without q fd))
  | .epollDel x => inferInstanceAs (Decidable (∀ fd ∈ (σ.pc x).deregistering, σ.contexts.Without q fd))
  | .taskcreate _ _ _ | .taskyield _ | .taskexit _ | .tasksystem _ | .tasksleep _ _ | .taskwakeup _ _
  | .taskwakeupall _ _ | .wakenext _ | .netrw _ _ _ _ | .issue _ _ | .accepted _ _ _ | .suspend _
  | .aiorw _ | .aioret _ | .openFile _ _ _ _ | .register _ _ _ | .deregister _ _
  | .start _ | .poll _ | .yielded _ | .epollWait _ _ | .dispatch _ | .reap _ | .taskscheduler
  | .change _ _ _ | .complete _ => instDecidableTrue

/-! ## What the kernel does -/

namespace Files

/-- A change that is none but is an edge. -/
theorem Pending.change (h : F.Pending f s) (hi : F.interest f = some ⟨c, Registration.sock.events, true⟩) :
    (F.change g m more).Pending f s := by
  by_cases hg : f = g
  · subst hg
    unfold Pending Files.change
    simp only [hi, Function.update_self, Mask.union_has, Mask.inter_has, Mask.diff_has,
      Mask.has_err_hup, Registration.sock_events_has, Bool.and_true]
    rcases h with h | h
    · rw [h]
      cases m.has s with
      | false => exact .inl rfl
      | true => exact .inr (by simp)
    · exact .inr (by simp [h])
  · have hq : (F.change g m more).queued f = F.queued f := by
      unfold Files.change
      cases F.interest g with
      | none => rfl
      | some i =>
          obtain ⟨d, events, edge⟩ := i
          cases edge with
          | true => exact Function.update_of_ne hg ..
          | false => rfl
    unfold Pending
    rw [hq, show (F.change g m more).ready f = F.ready f from Function.update_of_ne hg ..]
    exact h

/-- A call takes what there is: the direction was ready, so its edge is
queued. -/
theorem Pending.drain {left : Bool} (h : F.Pending f s) (hr : (F.ready g).has r = true) :
    (F.drain g r left).Pending f s := by
  rcases h with h | h
  · refine .inl ?_
    show (Function.update F.ready g ((F.ready g).set r left) f).has s = false
    by_cases hg : f = g
    · subst hg
      rw [Function.update_self, Mask.set_has, if_neg, h]
      rintro rfl
      rw [h] at hr
      cases hr
    · rw [Function.update_of_ne hg]
      exact h
  · exact .inr h

end Files

/-- What is taken is from a direction that is ready. -/
theorem Files.ready_of_moved {op : Op} {k n : ℕ} {left : Bool} (hf : F.table fd = some f)
    (h : F.answers op fd n (.moved k left) = true) : (F.ready f).has op.side = true := by
  by_contra hready
  simp only [Bool.not_eq_true] at hready
  simp [Files.answers, hf, hready] at h

theorem Files.not_ready_of_again {op : Op} {n : ℕ} (hf : F.table fd = some f)
    (h : F.answers op fd n .again = true) : (F.ready f).has op.side = false := by
  by_contra hready
  simp only [Bool.not_eq_false] at hready
  simp [Files.answers, hf, hready] at h

namespace Taskio

theorem reported_ready (rs : List Report) : (reported F rs).ready = F.ready := by
  induction rs generalizing F with
  | nil => rfl
  | cons r rs ih =>
      cases r with
      | file f m => exact ih
      | eventfd => exact ih

theorem reported_interest (rs : List Report) : (reported F rs).interest = F.interest := by
  induction rs generalizing F with
  | nil => rfl
  | cons r rs ih =>
      cases r with
      | file f m => exact ih
      | eventfd => exact ih

/-- The edges of what is not reported stay. -/
theorem reported_queued {rs : List Report} (h : ∀ m, .file f m ∉ rs) :
    (reported F rs).queued f = F.queued f := by
  induction rs generalizing F with
  | nil => rfl
  | cons r rs ih =>
      have hrs : ∀ m, .file f m ∉ rs := fun m hm => h m (List.mem_cons_of_mem _ hm)
      cases r with
      | file g m =>
          have hne : f ≠ g := fun e => h m (e ▸ List.mem_cons_self)
          exact (ih hrs).trans (Function.update_of_ne hne ..)
      | eventfd => exact ih hrs

end Taskio

/-- An edge that is queued for a direction that is ready is in the report. -/
theorem Files.has_of_reports (hr : F.reports f m = true)
    (hi : F.interest f = some ⟨c, Registration.sock.events, true⟩) (hready : (F.ready f).has s = true)
    (hq : (F.queued f).has s = true) : m.has s = true := by
  unfold Files.reports at hr
  rw [hi] at hr
  simp only [if_true, Bool.and_eq_true, decide_eq_true_eq, Files.reportable] at hr
  have h := congrArg (fun n : Mask => n.has s) (of_decide_eq_true hr.2)
  simpa [hq, hready, Registration.sock_events_has] using h

/-! ## Steps of other tasks -/

namespace Watched

variable {C : Contexts} {fd' : Fd} {k : Kind}

/-- A file that is open stays as it is when another one is opened. -/
theorem openFile_keeps (h : Watched F C) (hfree : F.table fd = none) (hf : F.table fd' = some f) :
    (F.openFile k fd m).table fd' = some f ∧ (F.openFile k fd m).interest f = F.interest f ∧
      ∀ s, F.Pending f s → (F.openFile k fd m).Pending f s := by
  have hfd : fd' ≠ fd := fun e => by
    rw [e, hfree] at hf
    cases hf
  have hne : f ≠ F.nfiles := Nat.ne_of_lt (h.lt fd' f hf)
  refine ⟨(Function.update_of_ne hfd ..).trans hf, Function.update_of_ne hne .., fun s hp => ?_⟩
  unfold Files.Pending
  rw [show (F.openFile k fd m).ready f = F.ready f from Function.update_of_ne hne ..,
    show (F.openFile k fd m).queued f = F.queued f from Function.update_of_ne hne ..]
  exact hp

theorem forget_keeps (hne : f ≠ g) :
    (F.forget g).interest f = F.interest f ∧ ∀ s, F.Pending f s → (F.forget g).Pending f s := by
  refine ⟨Function.update_of_ne hne .., fun s hp => ?_⟩
  unfold Files.Pending
  rw [show (F.forget g).queued f = F.queued f from Function.update_of_ne hne ..]
  exact hp

/-- And when the one under another number is closed. -/
theorem close_keeps (h : Watched F C) (hfd : fd' ≠ fd) (hf : F.table fd' = some f) :
    (F.close fd).table fd' = some f ∧ (F.close fd).interest f = F.interest f ∧
      ∀ s, F.Pending f s → (F.close fd).Pending f s := by
  unfold Files.close
  split
  · exact ⟨hf, rfl, fun _ => id⟩
  · rename_i g hg
    have hne : f ≠ g := fun e => hfd (h.inj fd' fd f hf (e ▸ hg))
    obtain ⟨hi, hp⟩ := forget_keeps (F := F) hne
    exact ⟨(Function.update_of_ne hfd ..).trans hf, hi, hp⟩

theorem epollDel_keeps (h : Watched F C) (hfd : fd' ≠ fd) (hf : F.table fd' = some f) :
    (F.epollDel fd).interest f = F.interest f ∧
      ∀ s, F.Pending f s → (F.epollDel fd).Pending f s := by
  unfold Files.epollDel
  split
  · exact ⟨rfl, fun _ => id⟩
  · rename_i g hg
    exact forget_keeps fun e => hfd (h.inj fd' fd f hf (e ▸ hg))

end Watched

/-- Nobody is recorded anew, or sees `EAGAIN`. -/
theorem Taskio.Listens.mono (h : σ'.Listens c s)
    (hw : ∀ t, (σ'.contexts.ctx c).waiter s = some t → (σ.contexts.ctx c).waiter s = some t)
    (hpc : ∀ t, σ'.pc t = σ.pc t ∨ ∀ op fd d n, σ'.pc t ≠ .again op fd d n) : σ.Listens c s := by
  rcases h with ⟨t, ht⟩ | ⟨t, op, fd, n, ht, hs⟩
  · exact .inl ⟨t, hw t ht⟩
  · rcases hpc t with he | hne
    · exact .inr ⟨t, op, fd, n, he ▸ ht, hs⟩
    · exact absurd ht (hne op fd c n)

theorem Taskio.wake_reg (c : Ctx) (s : Side) : (σ.wake c s).contexts.reg = σ.contexts.reg := by
  unfold Taskio.wake
  split <;> rfl

/-- `EPOLL_CTL_DEL` in `task_fd_deregister` is of a closed number, if there
was no `taskyield` before. -/
theorem Taskio.deregister_files (x : TaskId) (fd : Fd) : (σ.deregister x fd).files = σ.files := by
  have hdel : ∀ F : Files, F.table fd = none → F.epollDel fd = F := fun F hF => by
    rw [Files.epollDel, hF]
  unfold Taskio.deregister
  split
  · rfl
  · rename_i hopen
    have hfree : σ.files.table fd = none := by simpa using hopen
    split
    · exact hdel _ hfree
    · have hw : ∀ c, ((σ.wake c .reader).wake c .writer).files = σ.files := fun c => by
        rw [Sound.wake_files, Sound.wake_files]
      dsimp only
      split
      · exact hw _
      · rw [hw]
        exact hdel _ hfree

theorem Taskio.deregister_reg (x : TaskId) (fd : Fd) :
    (σ.deregister x fd).contexts.reg = σ.contexts.reg := by
  have hw : ∀ c, ((σ.wake c .reader).wake c .writer).contexts.reg = σ.contexts.reg := fun c => by
    rw [Taskio.wake_reg, Taskio.wake_reg]
  unfold Taskio.deregister
  split
  · rfl
  · split
    · rfl
    · dsimp only
      split
      · exact hw _
      · exact hw _

namespace Attended

/-- What keeps descriptors attended while no event is fetched. -/
theorem keeps (h : Attended q σ) (hreg : σ'.contexts.reg = σ.contexts.reg)
    (harr : ∀ fd c, σ.contexts.reg c = q →
      (σ'.contexts.tcarray fd = some c ↔ σ.contexts.tcarray fd = some c))
    (hfile : ∀ fd c f, σ.contexts.reg c = q → σ.contexts.tcarray fd = some c →
      σ.files.table fd = some f → σ'.files.table fd = some f ∧
        σ'.files.interest f = σ.files.interest f ∧ ∀ s, σ.files.Pending f s → σ'.files.Pending f s)
    (hcall : ∀ t op fd c, (σ'.pc t).call = some (op, fd, c) →
      (σ.pc t).call = some (op, fd, c) ∨ σ.contexts.tcarray fd = some c)
    (hnil : ∀ t, (σ.pc t).events = [])
    (hlis : ∀ c s, σ.contexts.reg c = q → σ'.Listens c s → σ.Listens c s ∨
      ∀ fd f, σ.contexts.tcarray fd = some c → σ.files.table fd = some f → σ'.files.Pending f s) :
    Attended q σ' where
  watch fd c hc hr := by
    rw [hreg] at hr
    rw [harr fd c hr] at hc
    obtain ⟨f, hf, hi⟩ := h.watch fd c hc hr
    obtain ⟨hf', hi', -⟩ := hfile fd c f hr hc hf
    exact ⟨f, hf', hi'.trans hi⟩
  call t op fd c hc hr := by
    rw [hreg] at hr
    rw [harr fd c hr]
    rcases hcall t op fd c hc with hc | hc
    · exact h.call t op fd c hc hr
    · exact hc
  heard hsock c s fd f hl hr hc hf := by
    rw [hreg] at hr
    rw [harr fd c hr] at hc
    obtain ⟨g, hg, -⟩ := h.watch fd c hc hr
    obtain ⟨hg', -, hp⟩ := hfile fd c g hr hc hg
    obtain rfl := Option.some.inj (hg'.symm.trans hf)
    rcases hlis c s hr hl with hl | hl
    · rcases h.heard hsock c s fd g hl hr hc hg with hpend | ⟨x, m, hev, -⟩
      · exact .inl (hp s hpend)
      · rw [hnil x] at hev
        cases hev
    · exact .inl (hl fd g hc hg)

/-- The running task comes to a point that is not after `EAGAIN`. -/
theorem goes (h : Attended q σ) (hnil : ∀ t, (σ.pc t).events = [])
    (hctx : σ'.contexts = σ.contexts) (hpc : σ'.pc = Function.update σ.pc x pc)
    (hfile : ∀ fd c f, σ.contexts.reg c = q → σ.contexts.tcarray fd = some c →
      σ.files.table fd = some f → σ'.files.table fd = some f ∧
        σ'.files.interest f = σ.files.interest f ∧ ∀ s, σ.files.Pending f s → σ'.files.Pending f s)
    (hcall : ∀ op fd c, pc.call = some (op, fd, c) → (σ.pc x).call = some (op, fd, c) ∨
      σ.contexts.tcarray fd = some c)
    (hne : ∀ op fd c n, pc ≠ .again op fd c n) : Attended q σ' := by
  have hpcs : ∀ t, σ'.pc t = σ.pc t ∨ t = x ∧ σ'.pc t = pc := fun t => by
    rw [hpc]
    by_cases ht : t = x
    · exact .inr ⟨ht, by rw [ht, Function.update_self]⟩
    · exact .inl (Function.update_of_ne ht ..)
  refine h.keeps (by rw [hctx]) (fun fd c _ => by rw [hctx]) hfile (fun t op fd c hc => ?_) hnil
    fun c s _ hl => .inl ?_
  · rcases hpcs t with he | ⟨rfl, he⟩
    · exact .inl (he ▸ hc)
    · exact hcall op fd c (he ▸ hc)
  · refine hl.mono (fun t ht => by rw [hctx] at ht; exact ht) fun t => (hpcs t).imp_right ?_
    rintro ⟨-, he⟩ op fd d n ha
    exact hne op fd d n (he.symm.trans ha)

/-- `task_fd_register` -/
theorem register (h : Attended q σ) (hq : q.regEpoll = true) (hs : Sound σ)
    (hnil : ∀ t, (σ.pc t).events = []) (r : Registration) (fd : Fd) : Attended q (σ.register r fd) := by
  unfold Taskio.register
  split
  · rename_i hfd
    -- the old contexts stay, and the new one, if any, is watched if it is to be
    have key : ∀ (F : Files) (C : Contexts), (∀ c < σ.contexts.nctx, C.reg c = σ.contexts.reg c ∧
          (C.ctx c).waiter = (σ.contexts.ctx c).waiter) →
        (C.ctx σ.contexts.nctx).waiter = (fun _ => none) →
        (∀ fd', fd' ≠ fd → C.tcarray fd' = σ.contexts.tcarray fd') →
        (∀ fd' c f, σ.contexts.tcarray fd' = some c → σ.contexts.reg c = q →
          σ.files.table fd' = some f → F.table fd' = some f ∧ F.interest f = σ.files.interest f ∧
            ∀ s, σ.files.Pending f s → F.Pending f s) →
        (∀ c, C.tcarray fd = some c → c = σ.contexts.nctx ∧ (C.reg c = q →
          ∃ f, F.table fd = some f ∧ F.interest f = some ⟨c, q.events, q.edge⟩)) →
        Attended q { σ with files := F, contexts := C } := by
      intro F C hctx hnew harr hfile hown
      have hold : ∀ {fd' c}, C.tcarray fd' = some c → c ≠ σ.contexts.nctx →
          σ.contexts.tcarray fd' = some c := fun {fd' c} hc hne => by
        by_cases he : fd' = fd
        · subst he
          exact absurd (hown c hc).1 hne
        · rwa [harr fd' he] at hc
      have hlt : ∀ {fd' c}, σ.contexts.tcarray fd' = some c → c < σ.contexts.nctx :=
        fun {fd' c} hc => (hs.watched.array fd' c hc).1
      refine ⟨fun fd' c hc hr => ?_, fun t op fd' c hc hr => ?_, fun hsock c s fd' f hl hr hc hf => ?_⟩
      · by_cases he : fd' = fd
        · subst he
          exact (hown c hc).2 hr
        · have hc : σ.contexts.tcarray fd' = some c := (harr fd' he).symm.trans hc
          have hr : σ.contexts.reg c = q := (hctx c (hlt hc)).1.symm.trans hr
          obtain ⟨f, hf, hi⟩ := h.watch fd' c hc hr
          obtain ⟨hf', hi', -⟩ := hfile fd' c f hc hr hf
          exact ⟨f, hf', hi'.trans hi⟩
      · have hr : σ.contexts.reg c = q := (hctx c (hs.call t op fd' c hc).1).1.symm.trans hr
        have hc := h.call t op fd' c hc hr
        have hne : fd' ≠ fd := fun e => by
          rw [e, hfd.2] at hc
          cases hc
        exact (harr fd' hne).trans hc
      · have hcn : c ≠ σ.contexts.nctx := fun e => by
          subst e
          rcases hl with ⟨t, ht⟩ | ⟨t, op, fd', n, ht, -⟩
          · have ht : (C.ctx σ.contexts.nctx).waiter s = some t := ht
            rw [hnew] at ht
            cases ht
          · have ht : σ.pc t = .again op fd' σ.contexts.nctx n := ht
            exact Nat.lt_irrefl _ (hs.call t op fd' _ (by rw [ht]; rfl)).1
        have hc := hold hc hcn
        have hr : σ.contexts.reg c = q := (hctx c (hlt hc)).1.symm.trans hr
        have hl : σ.Listens c s := hl.mono (fun t ht => by
          rw [← (hctx c (hlt hc)).2]
          exact ht) fun _ => .inl rfl
        obtain ⟨g, hg, -⟩ := h.watch fd' c hc hr
        obtain ⟨hg', -, hp⟩ := hfile fd' c g hc hr hg
        obtain rfl := Option.some.inj (hg'.symm.trans hf)
        rcases h.heard hsock c s fd' g hl hr hc hg with hpend | ⟨x, m, hev, -⟩
        · exact .inl (hp s hpend)
        · rw [hnil x] at hev
          cases hev
    have hins : ∀ c < σ.contexts.nctx,
        (σ.contexts.insert r fd (σ.files.table fd)).reg c = σ.contexts.reg c ∧
          ((σ.contexts.insert r fd (σ.files.table fd)).ctx c).waiter = (σ.contexts.ctx c).waiter :=
      fun c hc => by simp [Contexts.insert, Nat.ne_of_lt hc]
    have hself : (σ.contexts.insert r fd (σ.files.table fd)).reg σ.contexts.nctx = r :=
      Function.update_self ..
    have hnew : ((σ.contexts.insert r fd (σ.files.table fd)).ctx σ.contexts.nctx).waiter =
        fun _ => none := by simp [Contexts.insert]
    have harr : ∀ fd', fd' ≠ fd →
        (σ.contexts.insert r fd (σ.files.table fd)).tcarray fd' = σ.contexts.tcarray fd' :=
      fun fd' hne => Function.update_of_ne hne ..
    have hown : ∀ c, (σ.contexts.insert r fd (σ.files.table fd)).tcarray fd = some c →
        c = σ.contexts.nctx := fun c hc => by
      rw [show (σ.contexts.insert r fd (σ.files.table fd)).tcarray fd = some σ.contexts.nctx from
        Function.update_self ..] at hc
      exact (Option.some.inj hc).symm
    dsimp only
    split
    · rename_i hno
      refine key σ.files _ hins hnew harr (fun _ _ _ _ _ hf => ⟨hf, rfl, fun _ => id⟩) fun c hc => ?_
      refine ⟨hown c hc, fun hr => ?_⟩
      rw [hown c hc, hself] at hr
      rw [hr, hq] at hno
      cases hno
    · split
      · rename_i F hadd
        unfold Files.epollAdd at hadd
        split at hadd
        · cases hadd
        · rename_i f hf
          split at hadd
          · cases hadd
          · rename_i hnone
            cases hadd
            refine key _ _ hins hnew harr (fun fd' c g hc hr hg => ?_) fun c hc => ?_
            · obtain ⟨g', hg', hi⟩ := h.watch fd' c hc hr
              obtain rfl := Option.some.inj (hg.symm.trans hg')
              have hne : g ≠ f := fun e => hnone (by rw [← e, hi]; rfl)
              refine ⟨hg, Function.update_of_ne hne .., fun s hp => ?_⟩
              unfold Files.Pending
              dsimp only
              rw [Function.update_of_ne hne]
              exact hp
            · refine ⟨hown c hc, fun hr => ⟨f, hf, ?_⟩⟩
              rw [hown c hc, hself] at hr
              rw [hown c hc, hr]
              exact Function.update_self ..
      · refine key σ.files _ hins hnew (fun fd' hne => ?_) (fun _ _ _ _ _ hf => ⟨hf, rfl, fun _ => id⟩)
          fun c hc => ?_
        · exact (Function.update_of_ne hne ..).trans (harr fd' hne)
        · rw [show ((σ.contexts.insert r fd (σ.files.table fd)).delete fd σ.contexts.nctx).tcarray fd =
            none from Function.update_self ..] at hc
          cases hc
  · exact h

/-- `task_fd_deregister` finds nothing of the kind under a closed number. -/
theorem deregister (h : Attended q σ) (hnil : ∀ t, (σ.pc t).events = []) (x : TaskId) (fd : Fd) :
    Attended q (σ.deregister x fd) := by
  have hfiles : (σ.deregister x fd).files = σ.files := Taskio.deregister_files x fd
  have hreg : (σ.deregister x fd).contexts.reg = σ.contexts.reg := Taskio.deregister_reg x fd
  obtain ⟨hcases, -, -⟩ := Taskio.deregister_eq (σ := σ) x fd
  have hfile : ∀ fd' c f, σ.contexts.reg c = q → σ.contexts.tcarray fd' = some c →
      σ.files.table fd' = some f → (σ.deregister x fd).files.table fd' = some f ∧
        (σ.deregister x fd).files.interest f = σ.files.interest f ∧
        ∀ s, σ.files.Pending f s → (σ.deregister x fd).files.Pending f s := fun fd' c f _ _ hf => by
    rw [hfiles]
    exact ⟨hf, rfl, fun _ => id⟩
  rcases hcases with ⟨hctx, hpc⟩ | ⟨hfree, c, hc, harr, hwait, hpc⟩
  · refine h.keeps hreg (fun _ _ _ => by rw [hctx]) hfile (fun t op fd' d hd => .inl (by rw [hpc] at hd; exact hd))
      hnil fun d s _ hl => .inl (hl.mono (fun t ht => by rw [hctx] at ht; exact ht) fun t => .inl (by rw [hpc]))
  · have hpcs : ∀ t, (σ.deregister x fd).pc t = σ.pc t ∨
        (σ.deregister x fd).pc t = .deregister fd := fun t => by
      rcases hpc with hpc | hpc
      · exact .inl (by rw [hpc])
      · rw [hpc]
        by_cases ht : t = x
        · exact .inr (by rw [ht, Function.update_self])
        · exact .inl (Function.update_of_ne ht ..)
    refine h.keeps hreg (fun fd' d hd => ?_) hfile (fun t op fd' d hd => ?_) hnil fun d s _ hl => .inl ?_
    · rw [harr]
      by_cases he : fd' = fd
      · -- a descriptor under the number would be open
        subst he
        rw [Function.update_self]
        refine ⟨fun hn => (by cases hn), fun hn => ?_⟩
        obtain ⟨f, hf, -⟩ := h.watch fd' d hn hd
        rw [hfree] at hf
        cases hf
      · rw [Function.update_of_ne he]
    · rcases hpcs t with he | he
      · exact .inl (he ▸ hd)
      · rw [he] at hd
        cases hd
    · refine hl.mono (fun t ht => (hwait d s t ht).1) fun t => (hpcs t).imp_right ?_
      rintro he op fd' d n ha
      rw [he] at ha
      cases ha

/-- A step of any other task, or of `aiotask` elsewhere. -/
theorem works (h : Attended q σ) (hq : q.regEpoll = true) (hs : Sound σ)
    (hnil : ∀ t, (σ.pc t).events = []) (hk : StaysOpen q σ act) (hw : Works σ act σ') : Attended q σ' := by
  have hsame : ∀ fd c f, σ.contexts.reg c = q → σ.contexts.tcarray fd = some c →
      σ.files.table fd = some f → σ.files.table fd = some f ∧
        σ.files.interest f = σ.files.interest f ∧ ∀ s, σ.files.Pending f s → σ.files.Pending f s :=
    fun _ _ _ _ _ hf => ⟨hf, rfl, fun _ => id⟩
  have hopen : ∀ {x pc k fd m}, σ.files.Lowest fd → (∀ op fd' c n, pc ≠ .again op fd' c n) →
      pc.call = none → Attended q { σ with
        files := σ.files.openFile k fd m, pc := Function.update σ.pc x pc } :=
    fun {x pc k fd m} hlow hne hcall => by
      refine h.goes hnil rfl rfl (fun fd' c f _ _ hf => hs.watched.openFile_keeps hlow.1 hf)
        (fun op fd' c hc => ?_) hne
      rw [hcall] at hc
      cases hc
  cases hw with
  | aside act σ' hf hc hall hpc =>
      refine h.keeps (by rw [hc]) (fun _ _ _ => by rw [hc]) (by rw [hf]; exact hsame)
        (fun t op fd c hcall => ?_) hnil fun c s _ hl => .inl ?_
      · rcases hpc t with he | hi
        · exact .inl (he ▸ hcall)
        · rw [Pc.idle_call hi] at hcall
          cases hcall
      · refine hl.mono (fun t ht => by rw [hc] at ht; exact ht) fun t => (hpc t).imp_right ?_
        rintro hi op fd d n ha
        rw [ha] at hi
        cases hi
  | netrw x op fd c n hat harr =>
      refine h.goes hnil rfl rfl hsame (fun op' fd' c' hcall => .inr ?_) fun _ _ _ _ ha => by cases ha
      cases hcall
      exact harr
  | moved x op fd c n k left hat hans =>
      refine h.goes hnil rfl rfl (fun fd' c' f hr hc hf => ?_) (fun op' fd' c' hcall => .inl ?_)
        fun op' fd' c' n' ha => ?_
      · cases ht : σ.files.table fd with
        | none => exact ⟨hf, rfl, fun _ => id⟩
        | some g =>
            exact ⟨hf, rfl, fun s hp => hp.drain (Files.ready_of_moved ht hans)⟩
      · split at hcall
        · rw [hat.2]
          exact hcall
        · cases hcall
      · split at ha <;> cases ha
  | again x op fd c n hat hans =>
      refine h.keeps rfl (fun _ _ _ => Iff.rfl) hsame (fun t op' fd' c' hcall => .inl ?_) hnil
        fun d s hr hl => ?_
      · exact (Pc.call_update (by rw [hat.2]; rfl) t).symm.trans hcall
      · rcases hl with hl | ⟨t, op', fd', n', ha, hside⟩
        · exact .inl (.inl hl)
        · by_cases ht : t = x
          · -- the task has seen that the direction is not ready
            subst ht
            have ha := (Function.update_self t (Pc.again op fd c n) σ.pc).symm.trans ha
            cases ha
            refine .inr fun fd' f hd hf => .inl ?_
            have hcur := h.call t op fd c (by rw [hat.2]; rfl) hr
            obtain rfl := hs.watched.array_inj hd hcur
            rw [← hside]
            exact Files.not_ready_of_again hf hans
          · have ha := (Function.update_of_ne ht _ σ.pc).symm.trans ha
            exact .inl (.inr ⟨t, op', fd', n', ha, hside⟩)
  | suspend x op fd c n hat hnone =>
      refine h.keeps rfl (fun _ _ _ => Iff.rfl) hsame (fun t op' fd' c' hcall => .inl ?_) hnil
        fun d s _ hl => .inl ?_
      · exact (Pc.call_update (by rw [hat.2]; rfl) t).symm.trans hcall
      · rcases hl with ⟨t, ht⟩ | ⟨t, op', fd', n', ha, hside⟩
        · by_cases hds : d = c ∧ s = op.side
          · obtain ⟨rfl, rfl⟩ := hds
            exact .inr ⟨x, op, fd, n, hat.2, rfl⟩
          · rw [Contexts.record_waiter_of_ne hds] at ht
            exact .inl ⟨t, ht⟩
        · by_cases ht : t = x
          · subst ht
            simp at ha
          · have ha := (Function.update_of_ne ht _ σ.pc).symm.trans ha
            exact .inr ⟨t, op', fd', n', ha, hside⟩
  | openFile x k fd m hlow =>
      exact h.keeps rfl (fun _ _ _ => Iff.rfl)
        (fun fd' c f _ _ hf => hs.watched.openFile_keeps hlow.1 hf) (fun _ _ _ _ => .inl) hnil
        fun _ _ _ => .inl
  | accepted x fd m hrun hlow =>
      have hs₁ : Sound { σ with
          files := σ.files.openFile .socket fd m, pc := Function.update σ.pc x .top } :=
        (hs.withFiles (hs.watched.openFile hlow.1)).goes hrun (fun _ _ _ hc => by cases hc)
          fun _ hev => by cases hev
      refine (hopen hlow (fun _ _ _ _ ha => by cases ha) rfl).register hq hs₁ (fun t => ?_) .sock fd
      by_cases ht : t = x
      · simp [ht, Pc.events]
      · simpa [ht] using hnil t
  | rejected x fd m hrun hlow =>
      refine h.goes hnil rfl rfl (fun fd' c f hr hc hf => ?_) (fun _ _ _ hc => by cases hc)
        fun _ _ _ _ ha => by cases ha
      have hne : fd' ≠ fd := fun e => by
        rw [e, hlow.1] at hf
        cases hf
      obtain ⟨hf₁, hi₁, hp₁⟩ := hs.watched.openFile_keeps (k := .socket) (m := m) hlow.1 hf
      obtain ⟨hf₂, hi₂, hp₂⟩ :=
        (hs.watched.openFile (k := .socket) (m := m) hlow.1).close_keeps hne hf₁
      exact ⟨hf₂, hi₂.trans hi₁, fun s hp => hp₂ s (hp₁ s hp)⟩
  | close x fd =>
      refine h.keeps rfl (fun _ _ _ => Iff.rfl) (fun fd' c f hr hc hf => ?_) (fun _ _ _ _ => .inl) hnil
        fun _ _ _ => .inl
      exact hs.watched.close_keeps (fun e => hk c (e ▸ hc) hr) hf
  | register x r fd hrun => exact h.register hq hs hnil r fd
  | deregister x fd hat => exact h.deregister hnil x fd
  | epollDel x fd hat =>
      have hk : ∀ fd ∈ (σ.pc x).deregistering, σ.contexts.Without q fd := hk
      rw [hat.2] at hk
      refine h.goes hnil rfl rfl (fun fd' c f hr hc hf => ?_) (fun _ _ _ hc => by cases hc)
        fun _ _ _ _ ha => by cases ha
      refine ⟨?_, hs.watched.epollDel_keeps (fun e => hk fd rfl c (e ▸ hc) hr) hf⟩
      rw [Files.epollDel_table]
      exact hf

end Attended

/-! ## `aiotask` and the kernel -/

theorem Taskio.ioDone_reg (hd : σ.ioDone c m = some σ') : σ'.contexts.reg = σ.contexts.reg :=
  Taskio.ioDone_rec (P := fun τ => τ.contexts.reg = σ.contexts.reg) hd rfl fun τ s _ h => by
    rw [Taskio.wake_reg, h]

namespace Attended

/-- `epoll_wait` reports the edges it takes. -/
theorem epollWait (h : Attended q σ) (hs : Sound σ) {rs : List Report} (hat : TaskAction.At σ x .wait)
    (hrs : σ.MayReport rs) :
    Attended q { σ with
      files := Taskio.reported σ.files rs
      pc := Function.update σ.pc x (.dispatch (rs.map σ.event)) } := by
  refine ⟨fun fd c hc hr => ?_, fun t op fd c hc hr => ?_, fun hsock c s fd f hl hr hc hf => ?_⟩
  · rw [Taskio.reported_table, Taskio.reported_interest]
    exact h.watch fd c hc hr
  · by_cases ht : t = x
    · subst ht
      simp only [Function.update_self] at hc
      cases hc
    · simp only [Function.update_of_ne ht] at hc
      exact h.call t op fd c hc hr
  · have hf : σ.files.table fd = some f := by
      rw [← hf]
      exact (congrFun (Taskio.reported_table rs) fd).symm
    obtain ⟨g, hg, hi⟩ := h.watch fd c hc hr
    obtain rfl := Option.some.inj (hf.symm.trans hg)
    rw [hsock] at hi
    have hl : σ.Listens c s := hl.mono (fun _ => id) fun t => by
      by_cases ht : t = x
      · right
        subst ht
        simp
      · exact .inl (Function.update_of_ne ht ..)
    have hpend : σ.files.Pending f s := by
      rcases h.heard hsock c s fd f hl hr hc hf with hp | ⟨y, m, hev, -⟩
      · exact hp
      · by_cases hy : y = x
        · rw [hy, hat.2] at hev
          cases hev
        · exact (hs.no_events hat.1 hy hev).elim
    have hready : (Taskio.reported σ.files rs).ready f = σ.files.ready f := by
      rw [Taskio.reported_ready]
    by_cases hd : (σ.files.ready f).has s = false
    · exact .inl (.inl (by rw [hready]; exact hd))
    · have hq := hpend.resolve_left hd
      by_cases hmem : ∃ m, .file f m ∈ rs
      · obtain ⟨m, hm⟩ := hmem
        have hm' : m.has s = true :=
          Files.has_of_reports (hrs.2.2.1 _ hm) hi (by simpa using hd) hq
        refine .inr ⟨x, m, ?_, Mask.wakes_of_has hm'⟩
        have hev : σ.event (.file f m) = .ctx c m := by
          simp only [Taskio.event, Files.context, hi, Option.elim_some]
        simp only [Function.update_self, Pc.events]
        exact List.mem_map.2 ⟨_, hm, hev⟩
      · refine .inl (.inr ?_)
        have hsame : (Taskio.reported σ.files rs).queued f = σ.files.queued f :=
          Taskio.reported_queued fun m hm => hmem ⟨m, hm⟩
        simpa only [hsame] using hq

/-- The dispatch of an event leaves nobody behind whom it is for. -/
theorem event (h : Attended q σ) (hs : Sound σ) (hrun : σ.tasks.taskrunning = some x)
    (hpc : σ.pc x = .dispatch (.ctx c m :: es)) (hτ : σ.ioDone c m = some τ) :
    Attended q { τ with pc := Function.update τ.pc x (.dispatch es) } := by
  obtain ⟨fd₀, hfd₀⟩ := hs.events x (.ctx c m) (by rw [hpc]; exact List.mem_cons_self)
  obtain ⟨-, hpcτ, -, harr, hfiles⟩ := hs.ioDone (hs.watched.array fd₀ c hfd₀).1 hτ
  have hreg := Taskio.ioDone_reg hτ
  have hpcs : ∀ t, t ≠ x → Function.update τ.pc x (.dispatch es) t = σ.pc t := fun t ht => by
    rw [Function.update_of_ne ht, hpcτ]
  refine ⟨fun fd d hd hr => ?_, fun t op fd d hd hr => ?_, fun hsock d s fd f hl hr hd hf => ?_⟩
  · simp only [harr, hreg, hfiles] at hd hr ⊢
    exact h.watch fd d hd hr
  · simp only [hreg] at hr
    simp only [harr]
    by_cases ht : t = x
    · subst ht
      simp only [Function.update_self] at hd
      cases hd
    · simp only [hpcs t ht] at hd
      exact h.call t op fd d hd hr
  · simp only [harr, hreg, hfiles] at hd hr hf
    -- who waits yet waited before, and not for the event
    have hwait : ∃ t, (τ.contexts.ctx d).waiter s = some t := by
      rcases hl with hl | ⟨t, op, fd', n, ha, -⟩
      · exact hl
      · by_cases ht : t = x
        · subst ht
          simp only [Function.update_self] at ha
          cases ha
        · simp only [hpcs t ht] at ha
          have hbusy := hs.not_busy hrun ht
          rw [ha] at hbusy
          cases hbusy
    obtain ⟨t, ht⟩ := hwait
    rcases h.heard hsock d s fd f (.inl ⟨t, Taskio.ioDone_waiter hτ ht⟩) hr hd hf with hp | ⟨y, m', hev, hm'⟩
    · exact .inl (by simpa only [hfiles] using hp)
    · have hy : y = x := by
        by_contra hy
        exact hs.no_events hrun hy hev
      rw [hy, hpc] at hev
      rcases List.mem_cons.1 hev with he | he
      · cases he
        rw [Taskio.ioDone_none hτ hm'] at ht
        cases ht
      · exact .inr ⟨x, m', by simpa only [Function.update_self, Pc.events] using he, hm'⟩

/-- A step of `aiotask` on its events, or of the kernel. -/
theorem polls (h : Attended q σ) (hs : Sound σ) (hw : Polls σ act σ') : Attended q σ' := by
  cases hw with
  | change f m more =>
      refine ⟨h.watch, h.call, fun hsock c s fd g hl hr hc hg => ?_⟩
      obtain ⟨g', hg', hi⟩ := h.watch fd c hc hr
      obtain rfl := Option.some.inj (hg.symm.trans hg')
      rw [hsock] at hi
      rcases h.heard hsock c s fd g hl hr hc hg with hp | hfetched
      · exact .inl (hp.change hi)
      · exact .inr hfetched
  | complete t => exact ⟨h.watch, h.call, h.heard⟩
  | epollWait x rs hat hrs => exact h.epollWait hs hat hrs
  | other x act σ' pc hrun hall hf hc hpc hcall hev =>
      have hpcs : ∀ t, t ≠ x → σ'.pc t = σ.pc t := fun t ht => by
        rw [hpc]
        exact Function.update_of_ne ht ..
      have hself : σ'.pc x = pc := by rw [hpc, Function.update_self]
      refine ⟨by rw [hf, hc]; exact h.watch, fun t op fd d hd hr => ?_,
        fun hsock c s fd f hl hr hd ht => ?_⟩
      · rw [hc] at hr ⊢
        by_cases ht : t = x
        · rw [ht, hself, hcall] at hd
          cases hd
        · rw [hpcs t ht] at hd
          exact h.call t op fd d hd hr
      · rw [hc] at hr hd
        rw [hf] at ht
        have hl : σ.Listens c s := hl.mono (fun u hu => by rw [hc] at hu; exact hu) fun t => by
          by_cases ht : t = x
          · right
            rintro op fd d n ha
            rw [ht, hself] at ha
            rw [ha] at hcall
            cases hcall
          · exact .inl (hpcs t ht)
        rcases h.heard hsock c s fd f hl hr hd ht with hp | ⟨y, m, hmem, hm⟩
        · exact .inl (by rw [hf]; exact hp)
        · have hy : y = x := by
            by_contra hy
            exact hs.no_events hrun hy hmem
          refine .inr ⟨x, m, ?_, hm⟩
          rw [hself]
          rw [hy] at hmem
          rcases hev with hev | hev
          · rw [hev] at hmem
            exact (List.mem_cons.1 hmem).resolve_left fun e => by cases e
          · rwa [hev] at hmem
  | event x c m es τ hrun hpc hτ => exact h.event hs hrun hpc hτ

/-- **Every step keeps it**, but for the close of what is registered so. -/
theorem step (h : Attended q σ) (hq : q.regEpoll = true) (hs : Sound σ) (he : act.Enabled σ)
    (hk : StaysOpen q σ act) (hx : act.exec σ = some σ') : Attended q σ' := by
  by_cases ho : act.Elsewhere
  · exact h.works hq hs (hs.events_nil he ho) hk (hs.works he hx ho)
  · exact h.polls hs (TaskAction.polls he hx ho)

theorem start (k : ℕ) : Attended q (Taskio.start k) := by
  refine ⟨fun _ _ hc => (by cases hc), fun t op fd c hc => ?_, fun _ _ _ _ _ _ _ hc => (by cases hc)⟩
  simp only [Taskio.start] at hc
  split at hc <;> cases hc

theorem reachable (hq : q.regEpoll = true) (h : (taskio.only (StaysOpen q)).Reachable σ) :
    Sound σ ∧ Fetched σ ∧ Attended q σ := by
  have key : Sound σ ∧ Attended q σ := by
    refine h.invariant (I := fun σ => Sound σ ∧ Attended q σ) ?_ fun σ act σ' hI he hx => ?_
    · rintro _ ⟨k, rfl⟩
      exact ⟨.start k, .start k⟩
    · exact ⟨hI.1.step he.1 hx, hI.2.step hq hI.1 he.1 he.2 hx⟩
  exact ⟨key.1, (Fetched.reachable h.of_only).2, key.2⟩

end Attended

end Libtask

end VmwareProto
