import VmwareProto.Libtask.Attended
/-!
# Wakeups

No wakeup is lost on a socket: an edge that a waiting task needs is queued or
fetched, and its dispatch makes the task ready. The input FIFO of a
connection is reported while it can be read, so its reader is woken too. The
output FIFO is registered without epoll: `task_fifofd_register` hands its
`input` on as `reg_epoll`. No event is ever of its context, and a writer that
found it full waits for good.
-/

namespace VmwareProto

namespace Libtask

variable {σ σ' : Taskio} {x t : TaskId} {c d : Ctx} {s : Side} {m : Mask} {f : File} {fd : Fd}
  {es : List Event} {act : TaskAction} {input : Bool} {rs : List Report}

/-! ## Sockets -/

/-- The dispatch of the next event of task `x` makes `t` ready, which was
not ready; `t` is recorded no more, and no other event of the context is
fetched. -/
def Taskio.MakesReady (σ : Taskio) (x : TaskId) (c : Ctx) (s : Side) (t : TaskId) (es : List Event) :
    Prop :=
  ∃ σ' ls ls', (TaskAction.dispatch x).exec σ = some σ' ∧ σ.tasks.lists.All ls ∧
    σ'.tasks.lists.All ls' ∧ t ∉ ls .taskrunqueue ∧ (ls' .taskrunqueue).count t = 1 ∧
    (σ'.contexts.ctx c).waiter s = none ∧ ∀ m, .ctx c m ∉ es

theorem makesReady (hs : Sound σ) (hf : Fetched σ) (hw : (σ.contexts.ctx c).waiter s = some t)
    (hpc : σ.pc x = .dispatch (.ctx c m :: es)) (hm : m.wakes s = true) :
    σ.MakesReady x c s t es := by
  obtain ⟨ls, place, hp, -, -⟩ := hs.tidy
  have haw : σ.Awaits c m := .inl (Contexts.waited_iff.2 ⟨s, t, hw⟩)
  obtain ⟨τ, hτ⟩ := Option.isSome_iff_exists.1 (Taskio.ioDone_isSome_iff.2 haw)
  obtain ⟨ts, hwoken⟩ := Taskio.ioDone_woken hτ hp
  obtain ⟨place', hp'⟩ := hwoken.placed
  have hnone := Taskio.ioDone_none hτ hm
  refine ⟨{ τ with pc := Function.update τ.pc x (.dispatch es) }, ls, _, ?_, hp.lists, hp'.lists,
    fun hrun => ?_, ?_, hnone, fun m' hmem => ?_⟩
  · simp [TaskAction.exec, hpc, Taskio.dispatch, hτ]
  · -- who is recorded is in no list
    have hrec : place t = some (.recorded c s) := (hp.at_iff t (.recorded c s)).1 hw
    have hlink : place t = some (.linked .taskrunqueue) := (hp.at_iff t (.linked .taskrunqueue)).1 hrun
    rw [hrec] at hlink
    cases hlink
  · refine List.count_eq_one_of_mem (hp'.lists.nodup .taskrunqueue) ?_
    rw [Function.update_self]
    refine List.mem_append_right _ ?_
    rcases hwoken.waiter c s with he | ⟨-, -, hts⟩
    · rw [hnone, hw] at he
      cases he
    · exact hts t hw
  · have hnd := hf x
    rw [hpc] at hnd
    exact (List.nodup_cons.1 hnd).1 (List.mem_filterMap.2 ⟨_, hmem, rfl⟩)

/-- **No wakeup is lost on a socket.** Where a task waits for a direction of
a registered socket, the direction is not ready, or an edge for it is queued,
or an event for it is fetched; and the dispatch of such an event makes the
task ready, once. -/
theorem sock_no_lost_wakeup (h : (taskio.only (StaysOpen .sock)).Reachable σ)
    (hr : σ.contexts.reg c = .sock) (hw : (σ.contexts.ctx c).waiter s = some t) :
    ∃ f, σ.files.table (σ.contexts.ctx c).fd = some f ∧ σ.Heard c f s ∧
      ∀ x m es, σ.pc x = .dispatch (.ctx c m :: es) → m.wakes s = true → σ.MakesReady x c s t es := by
  obtain ⟨hs, hf, ha⟩ := Attended.reachable rfl h
  obtain ⟨op, fd, n, hpc, -⟩ := hs.recorded c s t hw
  have hcall : (σ.pc t).call = some (op, fd, c) := by rw [hpc]; rfl
  have hc := ha.call t op fd c hcall hr
  obtain ⟨f, hfile, -⟩ := ha.watch fd c hc hr
  rw [(hs.call t op fd c hcall).2]
  exact ⟨f, hfile, ha.heard rfl c s fd f (.inl ⟨t, hw⟩) hr hc hfile,
    fun x m es hpc hm => makesReady hs hf hw hpc hm⟩

/-- A reader whose socket gets something to read, which is fetched. -/
theorem sock_no_lost_wakeup_reader : ∃ σ : Taskio, (σ.files.ready 3).has .reader = true ∧
    (σ.contexts.ctx 0).waiter .reader = some 0 ∧
    σ.MakesReady 1 0 .reader 0 [] := by
  have h : (((taskio.only (StaysOpen .sock)).run (.start 3) [.openFile 0 .socket 3 ⟨false, true, false, false⟩,
      .register 0 .sock 3, .netrw 0 .read 3 8, .issue 0 .again, .suspend 0, .taskscheduler, .start 1,
      .poll 1, .taskscheduler, .yielded 1, .change 3 ⟨true, true, false, false⟩ .empty,
      .epollWait 1 [.file 3 ⟨true, true, false, false⟩]]).any fun σ =>
        decide (σ.contexts.reg 0 = .sock ∧ (σ.contexts.ctx 0).waiter .reader = some 0 ∧
          (σ.files.ready 3).has .reader = true ∧
          σ.pc 1 = .dispatch [.ctx 0 ⟨true, true, false, false⟩])) = true := by
    decide +kernel
  obtain ⟨σ, hσ, hp⟩ := System.Steps.of_run_any h
  obtain ⟨hr, hw, hready, hpc⟩ := of_decide_eq_true hp
  obtain ⟨f, -, -, hdis⟩ := sock_no_lost_wakeup (hσ.reachable (.init ⟨3, rfl⟩)) hr hw
  exact ⟨σ, hready, hw, hdis 1 _ [] hpc rfl⟩

/-! ## Events that are pending -/

/-- Until the next `epoll_wait`, an event that is pending was pending before,
and who is recorded in its context is so still. -/
theorem pending_step (hs : Sound σ) (hf : Fetched σ) (he : act.Enabled σ) (hx : act.exec σ = some σ')
    (hno : ∀ y rs, act ≠ .epollWait y rs) (hmem : .ctx c m ∈ (σ'.pc x).events) :
    .ctx c m ∈ (σ.pc x).events ∧ (σ'.contexts.ctx c).waiter = (σ.contexts.ctx c).waiter := by
  by_cases ho : act.Elsewhere
  · rw [hs.events_nil_after he hx ho] at hmem
    cases hmem
  · cases TaskAction.polls he hx ho with
    | change f m' more => exact ⟨hmem, rfl⟩
    | complete t => exact ⟨hmem, rfl⟩
    | epollWait y rs hat hrs => exact absurd rfl (hno y rs)
    | other y act σ' pc hrun hall hfiles hc hpc hcall hev =>
        refine ⟨?_, by rw [hc]⟩
        rw [hpc] at hmem
        by_cases hxy : x = y
        · rw [hxy, Function.update_self] at hmem
          rw [hxy]
          rcases hev with hev | hev
          · rw [hev]
            exact List.mem_cons_of_mem _ hmem
          · rwa [hev]
        · rwa [Function.update_of_ne hxy] at hmem
    | event y d m' es τ hrun hpc hτ =>
        obtain ⟨fd, hfd⟩ := hs.events y (.ctx d m') (by rw [hpc]; exact List.mem_cons_self)
        obtain ⟨-, hpcτ, -⟩ := hs.ioDone (hs.watched.array fd d hfd).1 hτ
        simp only [hpcτ] at hmem
        by_cases hxy : x = y
        · subst hxy
          rw [Function.update_self] at hmem
          have hnd := hf x
          rw [hpc] at hnd
          have hne : c ≠ d := fun e => by
            subst e
            exact (List.nodup_cons.1 hnd).1 (List.mem_filterMap.2 ⟨_, hmem, rfl⟩)
          obtain ⟨ls, place, hp, -, -⟩ := hs.tidy
          obtain ⟨ts, hwoken⟩ := Taskio.ioDone_woken hτ hp
          refine ⟨?_, hwoken.waiter_of_ne hne⟩
          rw [hpc]
          exact List.mem_cons_of_mem _ hmem
        · rw [Function.update_of_ne hxy] at hmem
          exact (hs.no_events hrun hxy hmem).elim

theorem pending_run {as : List TaskAction} (h : taskio.Reachable σ) (hrun : taskio.Steps σ as σ')
    (hno : ∀ act ∈ as, ∀ y rs, act ≠ .epollWait y rs) (hmem : .ctx c m ∈ (σ'.pc x).events) :
    .ctx c m ∈ (σ.pc x).events ∧ (σ'.contexts.ctx c).waiter = (σ.contexts.ctx c).waiter := by
  induction hrun with
  | nil => exact ⟨hmem, rfl⟩
  | cons he hx hrest ih =>
      obtain ⟨hmem, hw⟩ := ih (h.step he hx) (fun act ha => hno act (List.mem_cons_of_mem _ ha)) hmem
      obtain ⟨hs, hf⟩ := Fetched.reachable h
      obtain ⟨hmem, hw'⟩ := pending_step hs hf he hx (hno _ List.mem_cons_self) hmem
      exact ⟨hmem, hw.trans hw'⟩

/-! ## FIFOs -/

/-- The direction of one end of a connection. -/
def fifoSide (input : Bool) : Side := if input = true then .reader else .writer

/-- **The next `epoll_wait` wakes `t`**: it returns, and whatever it returns
has an event whose dispatch makes `t` ready. -/
def Taskio.NextWakes (σ : Taskio) (x : TaskId) (c : Ctx) (s : Side) (t : TaskId) : Prop :=
  (∃ rs, σ.MayReport rs) ∧ ∀ rs, σ.MayReport rs → ∃ m, .ctx c m ∈ rs.map σ.event ∧ m.wakes s = true ∧
    ∀ as σ' es, taskio.Steps σ (.epollWait x rs :: as) σ' →
      (∀ act ∈ as, ∀ y rs, act ≠ .epollWait y rs) → σ'.pc x = .dispatch (.ctx c m :: es) →
      σ'.MakesReady x c s t es

/-- Every entry of epoll is for a descriptor that was registered with it. -/
def Entered (σ : Taskio) : Prop :=
  ∀ f i, σ.files.interest f = some i → (σ.contexts.reg i.ctx).regEpoll = true

namespace Entered

theorem mono (h : Entered σ) (hi : ∀ f i, σ'.files.interest f = some i → σ.files.interest f = some i)
    (hr : σ'.contexts.reg = σ.contexts.reg) : Entered σ' := fun f i hf => by
  rw [hr]
  exact h f i (hi f i hf)

theorem register (h : Entered σ) (hw : Watched σ.files σ.contexts) (r : Registration) (fd : Fd) :
    Entered (σ.register r fd) := by
  unfold Taskio.register
  split
  · have hold : ∀ f i, σ.files.interest f = some i →
        ((σ.contexts.insert r fd (σ.files.table fd)).reg i.ctx).regEpoll = true := fun f i hi => by
      obtain ⟨-, -, fd', harr, -⟩ := hw.interest f i hi
      have hne : i.ctx ≠ σ.contexts.nctx := Nat.ne_of_lt (hw.array fd' _ harr).1
      rw [show (σ.contexts.insert r fd (σ.files.table fd)).reg i.ctx = σ.contexts.reg i.ctx from
        Function.update_of_ne hne ..]
      exact h f i hi
    dsimp only
    split
    · exact hold
    · rename_i hreg
      split
      · rename_i F hadd
        unfold Files.epollAdd at hadd
        split at hadd
        · cases hadd
        · rename_i f hf
          split at hadd
          · cases hadd
          · cases hadd
            intro g i hi
            by_cases hg : g = f
            · subst hg
              simp only [Function.update_self, Option.some.injEq] at hi
              subst hi
              rw [show (σ.contexts.insert r fd (σ.files.table fd)).reg σ.contexts.nctx = r from
                Function.update_self ..]
              simpa using hreg
            · simp only [Function.update_of_ne hg] at hi
              exact hold g i hi
      · exact hold
  · exact h

theorem close_interest {F : Files} {i : Interest} (hi : (F.close fd).interest f = some i) :
    F.interest f = some i := by
  unfold Files.close at hi
  split at hi
  · exact hi
  · exact (Watched.forget_interest hi).2

theorem epollDel_interest {F : Files} {i : Interest} (hi : (F.epollDel fd).interest f = some i) :
    F.interest f = some i := by
  unfold Files.epollDel at hi
  split at hi
  · exact hi
  · exact (Watched.forget_interest hi).2

theorem openFile_interest {F : Files} {i : Interest} {k : Kind}
    (hi : (F.openFile k fd m).interest f = some i) : F.interest f = some i := by
  by_cases hf : f = F.nfiles
  · subst hf
    simp [Files.openFile] at hi
  · simpa [Files.openFile, hf] using hi

/-- **Every step keeps it.** -/
theorem step (h : Entered σ) (hs : Sound σ) (he : act.Enabled σ) (hx : act.exec σ = some σ') :
    Entered σ' := by
  by_cases ho : act.Elsewhere
  · cases hs.works he hx ho with
    | aside act σ' hf hc hall hpc => exact h.mono (by rw [hf]; exact fun _ _ => id) (by rw [hc])
    | netrw x op fd c n hat harr => exact h
    | moved x op fd c n k left hat hans =>
        refine h.mono (fun f i hi => ?_) rfl
        cases hfd : σ.files.table fd with
        | none =>
            simp only [hfd] at hi
            exact hi
        | some g =>
            simp only [hfd] at hi
            exact hi
    | again x op fd c n hat hans => exact h
    | suspend x op fd c n hat hnone => exact h
    | openFile x k fd m hlow => exact h.mono (fun _ _ => openFile_interest) rfl
    | accepted x fd m hrun hlow =>
        have h₁ : Entered { σ with
            files := σ.files.openFile .socket fd m, pc := Function.update σ.pc x .top } :=
          h.mono (fun _ _ => openFile_interest) rfl
        exact h₁.register (hs.watched.openFile hlow.1) .sock fd
    | rejected x fd m hrun hlow =>
        exact h.mono (fun _ _ hi => openFile_interest (close_interest hi)) rfl
    | close x fd => exact h.mono (fun _ _ => close_interest) rfl
    | register x r fd hrun => exact h.register hs.watched r fd
    | deregister x fd hat =>
        exact h.mono (fun f i hi => by rwa [Taskio.deregister_files] at hi) (Taskio.deregister_reg x fd)
    | epollDel x fd hat => exact h.mono (fun _ _ => epollDel_interest) rfl
  · cases TaskAction.polls he hx ho with
    | change f m more => exact h
    | complete t => exact h
    | epollWait x rs hat hrs =>
        refine h.mono (fun f i hi => ?_) rfl
        rwa [Taskio.reported_interest] at hi
    | other x act σ' pc hrun hall hf hc hpc hcall hev =>
        exact h.mono (by rw [hf]; exact fun _ _ => id) (by rw [hc])
    | event x c m es τ hrun hpc hτ =>
        obtain ⟨fd, hfd⟩ := hs.events x (.ctx c m) (by rw [hpc]; exact List.mem_cons_self)
        obtain ⟨-, -, -, -, hfiles⟩ := hs.ioDone (hs.watched.array fd c hfd).1 hτ
        have hreg := Taskio.ioDone_reg hτ
        exact h.mono (fun f i hi => by rwa [← hfiles]) hreg

theorem reachable (h : taskio.Reachable σ) : Entered σ := by
  have key : Sound σ ∧ Entered σ := by
    refine h.invariant (I := fun σ => Sound σ ∧ Entered σ) ?_ fun σ act σ' hI he hx => ?_
    · rintro _ ⟨k, rfl⟩
      exact ⟨.start k, fun _ _ hi => by cases hi⟩
    · exact ⟨hI.1.step he hx, hI.2.step hI.1 he hx⟩
  exact key.2

end Entered

/-- What `epoll_wait` reports has an entry. -/
theorem interest_of_reports {F : Files} (hr : F.reports f m = true) : ∃ i, F.interest f = some i := by
  unfold Files.reports at hr
  cases hi : F.interest f with
  | none =>
      rw [hi] at hr
      cases hr
  | some i => exact ⟨i, rfl⟩

/-- **No event is of a context that was registered without epoll.** -/
theorem not_mem_event (h : taskio.Reachable σ) (hr : (σ.contexts.reg c).regEpoll = false)
    (hrs : σ.MayReport rs) : .ctx c m ∉ rs.map σ.event := by
  intro hmem
  obtain ⟨r, hrmem, he⟩ := List.mem_map.1 hmem
  cases r with
  | eventfd => cases he
  | file f m' =>
      obtain ⟨i, hi⟩ := interest_of_reports (hrs.2.2.1 _ hrmem)
      simp only [Taskio.event, Files.context, hi, Option.elim_some, Event.ctx.injEq] at he
      have hreg := Entered.reachable h f i hi
      rw [he.1, hr] at hreg
      cases hreg

/-- Nobody who waits there is woken by an `epoll_wait`. -/
theorem not_nextWakes (h : taskio.Reachable σ) (hr : (σ.contexts.reg c).regEpoll = false) :
    ¬σ.NextWakes x c s t := by
  rintro ⟨⟨rs, hrs⟩, hall⟩
  obtain ⟨m, hmem, -⟩ := hall rs hrs
  exact not_mem_event h hr hrs hmem

/-- `epoll_wait` returns while a level is ready. -/
theorem exists_mayReport (hf : f < σ.files.nfiles) (hdue : σ.files.due f = true) :
    ∃ rs, σ.MayReport rs := by
  let mask : File → Mask := fun f => (σ.files.interest f).elim .empty (σ.files.reportable f)
  let files := (List.range σ.files.nfiles).filter fun f => σ.files.due f
  have hmem : ∀ g, g ∈ files ↔ g < σ.files.nfiles ∧ σ.files.due g = true := fun g => by
    simp [files]
  have hreports : ∀ g ∈ files, σ.files.reports g (mask g) = true := fun g hg => by
    have hd := ((hmem g).1 hg).2
    unfold Files.due at hd
    unfold Files.reports
    cases hi : σ.files.interest g with
    | none =>
        rw [hi] at hd
        cases hd
    | some i =>
        rw [hi] at hd
        simp only [Bool.and_eq_true, Bool.not_eq_true', decide_eq_true_eq] at hd
        simp only [hd.1, Bool.false_eq_true, if_false, mask, hi, Option.elim_some]
        simpa using hd.2
  refine ⟨files.map (fun g => .file g (mask g)) ++ if 0 < σ.eventfd then [.eventfd] else [], ?_, ?_, ?_,
    ?_, ?_⟩
  · have hin := (hmem f).2 ⟨hf, hdue⟩
    intro hnil
    rw [List.append_eq_nil_iff, List.map_eq_nil_iff] at hnil
    rw [hnil.1] at hin
    cases hin
  · have hsrc : (files.map (fun g => Report.file g (mask g))).map Report.source = files.map some := by
      rw [List.map_map]
      rfl
    rw [List.map_append, hsrc, List.nodup_append]
    refine ⟨(List.nodup_range.filter _).map (fun _ _ e => Option.some.inj e), by split <;> simp [Report.source], ?_⟩
    intro a ha b hb
    obtain ⟨g, -, rfl⟩ := List.mem_map.1 ha
    split at hb
    · simp only [List.map_cons, Report.source, List.map_nil, List.mem_singleton] at hb
      rw [hb]
      exact Option.some_ne_none g
    · cases hb
  · intro r hr
    rcases List.mem_append.1 hr with hr | hr
    · obtain ⟨g, hg, rfl⟩ := List.mem_map.1 hr
      exact hreports g hg
    · split at hr
      · rename_i hpos
        rw [List.mem_singleton.1 hr]
        simpa [Taskio.reports] using hpos
      · cases hr
  · intro g hg hd
    refine List.mem_map.2 ⟨.file g (mask g), List.mem_append_left _ ?_, rfl⟩
    exact List.mem_map.2 ⟨g, (hmem g).2 ⟨hg, hd⟩, rfl⟩
  · intro hpos
    rw [if_pos hpos]
    exact List.mem_append_right _ (List.mem_singleton.2 rfl)

/-- **The reader of an input FIFO is woken** by the next `epoll_wait`. -/
theorem nextWakes_input (h : (taskio.only (StaysOpen (.fifo true))).Reachable σ)
    (hr : σ.contexts.reg c = .fifo true) (hw : (σ.contexts.ctx c).waiter .reader = some t)
    (hf : σ.files.table (σ.contexts.ctx c).fd = some f) (hready : (σ.files.ready f).has .reader = true) :
    σ.NextWakes x c .reader t := by
  obtain ⟨hs, -, ha⟩ := Attended.reachable rfl h
  obtain ⟨op, fd, n, hpc, -⟩ := hs.recorded c .reader t hw
  have hcall : (σ.pc t).call = some (op, fd, c) := by rw [hpc]; rfl
  have hc := ha.call t op fd c hcall hr
  obtain ⟨g, hg, hi⟩ := ha.watch fd c hc hr
  rw [(hs.call t op fd c hcall).2] at hf
  obtain rfl := Option.some.inj (hf.symm.trans hg)
  have hhas : (σ.files.reportable f ⟨c, Registration.events (.fifo true), Registration.edge (.fifo true)⟩).has
      .reader = true := by
    rw [Files.reportable, Mask.inter_has, hready]
    rfl
  have hne : σ.files.reportable f ⟨c, Registration.events (.fifo true), Registration.edge (.fifo true)⟩ ≠
      .empty := fun he => by
    rw [he, Mask.empty_has] at hhas
    cases hhas
  have hdue : σ.files.due f = true := by
    unfold Files.due
    rw [hi]
    simp only [Registration.edge, Bool.not_false, Bool.true_and]
    exact decide_eq_true hne
  have hlt := hs.watched.lt fd f hf
  refine ⟨exists_mayReport hlt hdue, fun rs hrs => ?_⟩
  -- what is ready is among the reports, with all that is ready of it
  obtain ⟨r, hrmem, hsrc⟩ := List.mem_map.1 (hrs.2.2.2.1 f hlt hdue)
  cases r with
  | eventfd => cases hsrc
  | file g m =>
      obtain rfl := Option.some.inj hsrc
      have hrep : σ.files.reports g m = true := hrs.2.2.1 _ hrmem
      unfold Files.reports at hrep
      rw [hi] at hrep
      simp only [Registration.edge, Bool.false_eq_true, if_false, Bool.and_eq_true,
        decide_eq_true_eq] at hrep
      have hm : m.wakes .reader = true := Mask.wakes_of_has (by rw [of_decide_eq_true hrep.2]; exact hhas)
      have hev : σ.event (.file g m) = .ctx c m := by
        simp only [Taskio.event, Files.context, hi, Option.elim_some]
      refine ⟨m, List.mem_map.2 ⟨_, hrmem, hev⟩, hm, fun as σ' es hsteps hno hpc' => ?_⟩
      cases hsteps with
      | cons he hx hrest =>
          have hreach := h.of_only.step he hx
          obtain ⟨-, hwait⟩ := pending_run (x := x) (c := c) (m := m) hreach hrest hno (by
            rw [hpc']
            exact List.mem_cons_self)
          obtain ⟨hs', hf'⟩ := Fetched.reachable (hrest.reachable hreach)
          cases hx
          refine makesReady hs' hf' ?_ hpc' hm
          rw [hwait]
          exact hw

/-- **Whom the next `epoll_wait` wakes**: of the tasks that wait at an end of
a connection that is ready, those at the input. -/
theorem fifo_nextWakes_iff (h : (taskio.only (StaysOpen (.fifo true))).Reachable σ)
    (hr : σ.contexts.reg c = .fifo input) (hw : (σ.contexts.ctx c).waiter (fifoSide input) = some t)
    (hf : σ.files.table (σ.contexts.ctx c).fd = some f)
    (hready : (σ.files.ready f).has (fifoSide input) = true) :
    σ.NextWakes x c (fifoSide input) t ↔ input = true := by
  cases input with
  | true => exact ⟨fun _ => rfl, fun _ => nextWakes_input h hr hw hf hready⟩
  | false =>
      refine ⟨fun hn => ?_, fun e => by cases e⟩
      exact absurd hn (not_nextWakes h.of_only (by rw [hr]; rfl))

/-- A reader that found the input FIFO empty, when the peer has written. -/
theorem fifo_nextWakes_input : ∃ σ : Taskio, σ.contexts.reg 0 = .fifo true ∧
    TaskAction.At σ 1 .wait ∧ σ.NextWakes 1 0 .reader 0 := by
  have h : (((taskio.only (StaysOpen (.fifo true))).run (.start 3) (fifoSetup 0 false 3 4 ++
      [.netrw 0 .read 3 8, .issue 0 .again, .suspend 0, .taskscheduler, .start 1, .poll 1,
      .taskscheduler, .yielded 1, .change 3 ⟨true, false, false, false⟩ .empty])).any fun σ =>
        decide (σ.contexts.reg 0 = .fifo true ∧ TaskAction.At σ 1 .wait ∧
          (σ.contexts.ctx 0).waiter .reader = some 0 ∧
          σ.files.table (σ.contexts.ctx 0).fd = some 3 ∧
          (σ.files.ready 3).has .reader = true)) = true := by
    decide +kernel
  obtain ⟨σ, hσ, hp⟩ := System.Steps.of_run_any h
  obtain ⟨hr, hat, hw, hf, hready⟩ := of_decide_eq_true hp
  exact ⟨σ, hr, hat, (fifo_nextWakes_iff (hσ.reachable (.init ⟨3, rfl⟩)) hr hw hf hready).2 rfl⟩

/-- **A writer that found the output FIFO full is not woken**, when the peer
has read: the FIFO can be written, and no `epoll_wait` says so. -/
theorem fifo_writer_lost : ¬∀ (σ : Taskio) (x t : TaskId) (c : Ctx) (f : File) (input : Bool),
    (taskio.only (StaysOpen (.fifo input))).Reachable σ → TaskAction.At σ x .wait →
    σ.contexts.reg c = .fifo input → (σ.contexts.ctx c).waiter (fifoSide input) = some t →
    σ.files.table (σ.contexts.ctx c).fd = some f → (σ.files.ready f).has (fifoSide input) = true →
    σ.NextWakes x c (fifoSide input) t := by
  intro hall
  have h : (((taskio.only (StaysOpen (.fifo false))).run (.start 3) (fifoSetup 0 false 3 4 ++
      [.netrw 0 .write 4 8, .issue 0 (.moved 4 false), .issue 0 .again, .suspend 0, .taskscheduler,
      .start 1, .poll 1, .taskscheduler, .yielded 1,
      .change 4 ⟨false, true, false, false⟩ .empty])).any fun σ =>
        decide (TaskAction.At σ 1 .wait ∧ σ.contexts.reg 1 = .fifo false ∧
          (σ.contexts.ctx 1).waiter .writer = some 0 ∧
          σ.files.table (σ.contexts.ctx 1).fd = some 4 ∧
          (σ.files.ready 4).has .writer = true)) = true := by
    decide +kernel
  obtain ⟨σ, hσ, hp⟩ := System.Steps.of_run_any h
  obtain ⟨hat, hr, hw, hf, hready⟩ := of_decide_eq_true hp
  have hreach := hσ.reachable (.init ⟨3, rfl⟩)
  exact not_nextWakes hreach.of_only (by rw [hr]; rfl) (hall σ 1 0 1 4 false hreach hat hr hw hf hready)

end Libtask

end VmwareProto
