import VmwareProto.Libtask.OnePlace
/-!
# Events and their dispatch

An event makes those tasks ready that are recorded in its context on the
sides it is for (`Woken`), and the assertion of `sockio_done` asks that
somebody is recorded. From the return of `epoll_wait` to the last of its
events no other task runs, and no two of the events are of one context, so
all assertions hold that hold as `epoll_wait` returns.
-/

namespace VmwareProto

namespace Libtask

variable {σ σ' τ : Taskio} {x t : TaskId} {c d : Ctx} {s r : Side} {m : Mask} {es : List Event}
  {act : TaskAction} {ls : Tasklist → List TaskId} {ts : List TaskId} {place : TaskId → Option Place}

/-! ## One event -/

/-- The tasks `ts` that an event of context `c` makes ready. -/
structure Woken (σ τ : Taskio) (c : Ctx) (m : Mask) (ls : Tasklist → List TaskId)
    (ts : List TaskId) : Prop where
  placed : ∃ place,
    Placed τ.spots (Function.update ls .taskrunqueue (ls .taskrunqueue ++ ts)) place
  only : ∀ t ∈ ts, ∃ s, m.wakes s = true ∧ (σ.contexts.ctx c).waiter s = some t
  waiter : ∀ d r, (τ.contexts.ctx d).waiter r = (σ.contexts.ctx d).waiter r ∨
    d = c ∧ (τ.contexts.ctx d).waiter r = none ∧ ∀ t ∈ (σ.contexts.ctx c).waiter r, t ∈ ts

theorem Taskio.wake_placed (hp : Placed σ.spots ls place) : ∃ place', Placed (σ.wake c s).spots
    (Function.update ls .taskrunqueue
      (ls .taskrunqueue ++ ((σ.contexts.ctx c).waiter s).toList)) place' := by
  cases hw : (σ.contexts.ctx c).waiter s with
  | none =>
      rw [Sound.wake_none hw, Option.toList_none, List.append_nil, Function.update_eq_self]
      exact ⟨place, hp⟩
  | some t =>
      obtain ⟨-, hp⟩ := hp.unrecord hw
      rw [Sound.wake_some hw, Taskio.spots, Contexts.record_waiter]
      exact ⟨_, hp.link (Function.update_self ..) .taskrunqueue⟩

theorem Woken.refl (hp : Placed σ.spots ls place) : Woken σ σ c m ls [] := by
  refine ⟨⟨place, ?_⟩, by simp, fun _ _ => .inl rfl⟩
  rw [List.append_nil, Function.update_eq_self]
  exact hp

/-- One more side is woken. -/
theorem Woken.wake (h : Woken σ τ c m ls ts) (hs : m.wakes s = true) :
    ∃ ts', Woken σ (τ.wake c s) c m ls ts' := by
  obtain ⟨place, hp⟩ := h.placed
  obtain ⟨place', hp'⟩ := Taskio.wake_placed (c := c) (s := s) hp
  rw [Function.update_self, Function.update_idem, List.append_assoc] at hp'
  have hold : ∀ t, (τ.contexts.ctx c).waiter s = some t → (σ.contexts.ctx c).waiter s = some t :=
    fun t ht => by
      rcases h.waiter c s with he | ⟨-, hnone, -⟩
      · exact he ▸ ht
      · rw [hnone] at ht
        cases ht
  refine ⟨_, ⟨⟨place', hp'⟩, fun t ht => ?_, fun d r => ?_⟩⟩
  · rcases List.mem_append.1 ht with ht | ht
    · exact h.only t ht
    · exact ⟨s, hs, hold t (Option.mem_toList.1 ht)⟩
  · cases hw : (τ.contexts.ctx c).waiter s with
    | none =>
        rw [Sound.wake_none hw, Option.toList_none, List.append_nil]
        exact h.waiter d r
    | some u =>
        rw [Sound.wake_some hw]
        by_cases hds : d = c ∧ r = s
        · obtain ⟨rfl, rfl⟩ := hds
          refine .inr ⟨rfl, Contexts.record_waiter_self, fun t ht => ?_⟩
          rw [hold u hw] at ht
          cases ht
          simp
        · simp only [Contexts.record_waiter_of_ne hds]
          rcases h.waiter d r with he | ⟨hd, hnone, hts⟩
          · exact .inl he
          · exact .inr ⟨hd, hnone, fun t ht => List.mem_append_left _ (hts t ht)⟩

/-- **What a dispatch does.** -/
theorem Taskio.ioDone_woken (hd : σ.ioDone c m = some σ') (hp : Placed σ.spots ls place) :
    ∃ ts, Woken σ σ' c m ls ts :=
  Taskio.ioDone_rec (P := fun τ => ∃ ts, Woken σ τ c m ls ts) hd ⟨[], .refl hp⟩
    fun _ _ hs h => h.elim fun _ h => h.wake hs

/-- Nobody is left whom the event is for. -/
theorem Taskio.ioDone_none (hd : σ.ioDone c m = some σ') (hs : m.wakes s = true) :
    (σ'.contexts.ctx c).waiter s = none := by
  have hself : ∀ τ : Taskio, ((τ.wake c s).contexts.ctx c).waiter s = none := fun τ => by
    cases hw : ((τ.wake c s).contexts.ctx c).waiter s with
    | none => rfl
    | some t => exact absurd ⟨rfl, rfl⟩ (Taskio.wake_waiter hw).2
  have hother : ∀ (τ : Taskio) r, (τ.contexts.ctx c).waiter s = none →
      ((τ.wake c r).contexts.ctx c).waiter s = none := fun τ r hnone => by
    cases hw : ((τ.wake c r).contexts.ctx c).waiter s with
    | none => rfl
    | some t =>
        rw [(Taskio.wake_waiter hw).1] at hnone
        cases hnone
  have hsock : σ.sockioDone c m = some σ' → (σ'.contexts.ctx c).waiter s = none := fun hd => by
    unfold Taskio.sockioDone at hd
    split at hd
    · cases hd
    · cases hd
      cases s with
      | reader =>
          rw [if_pos hs]
          split
          · exact hother _ .writer (hself σ)
          · exact hself σ
      | writer =>
          rw [if_pos hs]
          exact hself _
  unfold Taskio.ioDone at hd
  split at hd
  · exact hsock hd
  · unfold Taskio.fifoioDone at hd
    split at hd
    · rename_i hhup
      cases hd
      cases hw : (σ.contexts.ctx c).waiter s with
      | none => rfl
      | some t =>
          have := Contexts.waited_iff.2 ⟨s, t, hw⟩
          rw [hhup.2] at this
          cases this
    · exact hsock hd

/-- Somebody is recorded in a context, or its event is the hang-up of a FIFO. -/
def Taskio.Awaits (σ : Taskio) (c : Ctx) (m : Mask) : Prop :=
  σ.contexts.waited c = true ∨ (σ.contexts.ctx c).tasktype = .fifo ∧ m.hup = true

instance (c : Ctx) (m : Mask) : Decidable (σ.Awaits c m) := inferInstanceAs (Decidable (_ ∨ _ ∧ _))

/-- **No assertion fails** just if the event is awaited. -/
theorem Taskio.ioDone_isSome_iff : (σ.ioDone c m).isSome = true ↔ σ.Awaits c m := by
  have hsock : (σ.sockioDone c m).isSome = true ↔ σ.contexts.waited c = true := by
    unfold Taskio.sockioDone
    by_cases hw : σ.contexts.waited c = true
    · simp [hw]
    · simp [hw]
  unfold Taskio.ioDone Taskio.Awaits
  cases ht : (σ.contexts.ctx c).tasktype with
  | socket => simp [hsock]
  | fifo =>
      simp only [Taskio.fifoioDone]
      split
      · rename_i hhup
        simp [hhup.1]
      · rename_i hnot
        rw [hsock]
        constructor
        · exact .inl
        · rintro (hw | ⟨-, hhup⟩)
          · exact hw
          · by_contra hw
            exact hnot ⟨hhup, by simpa using hw⟩

theorem Taskio.ioDone_tasktype (hd : σ.ioDone c m = some σ') :
    (σ'.contexts.ctx d).tasktype = (σ.contexts.ctx d).tasktype := by
  refine Taskio.ioDone_rec
    (P := fun τ => (τ.contexts.ctx d).tasktype = (σ.contexts.ctx d).tasktype) hd rfl fun τ s _ h => ?_
  rw [← h]
  unfold Taskio.wake
  split
  · rfl
  · exact Contexts.record_tasktype

/-- The other contexts stay as they are. -/
theorem Woken.waiter_of_ne (h : Woken σ τ c m ls ts) (hd : d ≠ c) :
    (τ.contexts.ctx d).waiter = (σ.contexts.ctx d).waiter :=
  funext fun r => (h.waiter d r).resolve_right fun ⟨he, _⟩ => hd he

/-! ## An array of events -/

/-- The context of an event. -/
def Event.context : Event → Option Ctx
  | ctx c _ => some c
  | libaio => none

/-- The contexts of the events a task has still to look at. -/
def Pc.contexts (pc : Pc) : List Ctx := pc.events.filterMap Event.context

/-- A task that is no `aiotask` at its events has control, or the scheduler. -/
theorem TaskAction.elsewhere (he : act.Enabled σ) (ho : act.Elsewhere) :
    σ.tasks.taskrunning = none ∨ ∃ x, σ.tasks.taskrunning = some x ∧ (σ.pc x).events = [] := by
  have hat : ∀ {x pc}, At σ x pc → pc.events = [] →
      σ.tasks.taskrunning = none ∨ ∃ x, σ.tasks.taskrunning = some x ∧ (σ.pc x).events = [] :=
    fun h hpc => .inr ⟨_, h.1, by rw [h.2]; exact hpc⟩
  cases act with
  | taskyield x | taskexit x | tasksystem x | tasksleep x r | taskwakeup x r | taskwakeupall x r
  | netrw x op fd n | aiorw x | aioret x | register x r fd | deregister x fd | start x | poll x =>
      exact hat he rfl
  | taskcreate x stack t | openFile x k fd m | close x fd => exact hat he.1 rfl
  | wakenext x | issue x o | suspend x | epollDel x | yielded x =>
      obtain ⟨hx, hp⟩ := he
      refine .inr ⟨x, hx, ?_⟩
      cases hpc : σ.pc x <;> first | rfl | (rw [hpc] at hp; cases hp)
  | accepted x fd m =>
      obtain ⟨⟨hx, hp⟩, -⟩ := he
      refine .inr ⟨x, hx, ?_⟩
      cases hpc : σ.pc x <;> first | rfl | (rw [hpc] at hp; cases hp)
  | taskscheduler => exact .inl he.1
  | epollWait x rs | dispatch x | reap x | change f m more | complete t => exact ho.elim

/-- No event has been fetched then. -/
theorem Sound.events_nil (h : Sound σ) (he : act.Enabled σ) (ho : act.Elsewhere) (t : TaskId) :
    (σ.pc t).events = [] := by
  rw [List.eq_nil_iff_forall_not_mem]
  intro e hev
  have hrun := h.busy t (Pc.busy_of_events hev)
  rcases TaskAction.elsewhere he ho with hnone | ⟨x, hx, hnil⟩
  · rw [hnone] at hrun
    cases hrun
  · rw [hx] at hrun
    cases hrun
    rw [hnil] at hev
    cases hev

/-- **While other tasks run, no event is pending.** -/
theorem Sound.events_nil_after (h : Sound σ) (he : act.Enabled σ) (hx : act.exec σ = some σ')
    (ho : act.Elsewhere) (t : TaskId) : (σ'.pc t).events = [] := by
  have hnil := h.events_nil he ho t
  have hup : ∀ {x pc}, pc.events = [] → (Function.update σ.pc x pc t).events = [] := fun {x pc} hpc => by
    by_cases ht : t = x
    · subst ht
      rw [Function.update_self]
      exact hpc
    · rw [Function.update_of_ne ht]
      exact hnil
  cases h.works he hx ho with
  | aside act σ' hf hc hall hpc =>
      rcases hpc t with he | hi
      · rw [he]
        exact hnil
      · exact Pc.idle_events hi
  | netrw x op fd c n hat harr => exact hup rfl
  | moved x op fd c n k left hat hans => exact hup (by split <;> rfl)
  | again x op fd c n hat hans => exact hup rfl
  | suspend x op fd c n hat hnone => exact hup rfl
  | openFile x k fd m hlow => exact hnil
  | accepted x fd m hrun hlow =>
      rw [(Taskio.register_eq ..).1]
      exact hup rfl
  | rejected x fd m hrun hlow => exact hup rfl
  | close x fd => exact hnil
  | register x r fd hrun =>
      rw [(Taskio.register_eq ..).1]
      exact hnil
  | deregister x fd hat =>
      rcases (Taskio.deregister_eq (σ := σ) x fd).1 with ⟨-, hpc⟩ | ⟨-, c, -, -, -, hpc | hpc⟩
      · rw [hpc]
        exact hnil
      · rw [hpc]
        exact hnil
      · rw [hpc]
        exact hup rfl
  | epollDel x fd hat => exact hup rfl

/-- The kernel reports no two files of one context. -/
theorem Watched.nodup_contexts (h : Watched σ.files σ.contexts) {rs : List Report}
    (hrs : ∀ r ∈ rs, σ.reports r = true) (hnd : (rs.map Report.source).Nodup) :
    ((rs.map σ.event).filterMap Event.context).Nodup := by
  have hinterest : ∀ f m, .file f m ∈ rs → ∃ i, σ.files.interest f = some i :=
    fun f m hr => by
      have hrep : σ.files.reports f m = true := hrs _ hr
      unfold Files.reports at hrep
      cases hi : σ.files.interest f with
      | none =>
          rw [hi] at hrep
          cases hrep
      | some i => exact ⟨i, rfl⟩
  rw [List.filterMap_map, List.Nodup, List.pairwise_filterMap]
  refine (List.pairwise_map.1 hnd).imp_of_mem fun {r r'} hr hr' hne c hc c' hc' he => hne ?_
  subst he
  cases r with
  | eventfd => cases hc
  | file f m =>
      cases r' with
      | eventfd => cases hc'
      | file f' m' =>
          obtain ⟨i, hi⟩ := hinterest f m hr
          obtain ⟨i', hi'⟩ := hinterest f' m' hr'
          simp only [Function.comp, Taskio.event, Event.context, Files.context, hi, hi',
            Option.elim_some, Option.some.injEq] at hc hc'
          rw [Report.source, Report.source, h.interest_inj hi hi' (hc.trans hc'.symm)]

/-- The events of the running task change. -/
theorem Sound.events_update (h : Sound σ) (hx : σ.tasks.taskrunning = some x) {P : List Event → Prop}
    (hnil : P []) {q : Pc} (hpc : P q.events) (t : TaskId) :
    P (Function.update σ.pc x q t).events := by
  by_cases ht : t = x
  · subst ht
    rw [Function.update_self]
    exact hpc
  · rw [Function.update_of_ne ht]
    have hev : (σ.pc t).events = [] :=
      List.eq_nil_iff_forall_not_mem.2 fun e he => h.no_events hx ht he
    rw [hev]
    exact hnil

/-- **No two pending events are of one context.** -/
def Fetched (σ : Taskio) : Prop := ∀ t, ((σ.pc t).events.filterMap Event.context).Nodup

theorem Fetched.step (h : Fetched σ) (hs : Sound σ) (he : act.Enabled σ) (hx : act.exec σ = some σ') :
    Fetched σ' := by
  by_cases ho : act.Elsewhere
  · intro t
    rw [hs.events_nil_after he hx ho]
    exact List.nodup_nil
  have hup : ∀ {x pc}, σ.tasks.taskrunning = some x → (pc.events.filterMap Event.context).Nodup →
      ∀ t, ((Function.update σ.pc x pc t).events.filterMap Event.context).Nodup :=
    fun hrun hnd => hs.events_update (P := fun es => (es.filterMap Event.context).Nodup) hrun
      List.nodup_nil hnd
  cases TaskAction.polls he hx ho with
  | change f m more => exact h
  | complete t => exact h
  | epollWait x rs hat hrs => exact hup hat.1 (hs.watched.nodup_contexts hrs.2.2.1 hrs.2.1)
  | other x act σ' pc hrun hall hf hc hpc hcall hev =>
      unfold Fetched
      rw [hpc]
      refine hup hrun ?_
      have := h x
      rcases hev with hev | hev
      · rw [hev] at this
        exact this
      · rwa [hev] at this
  | event x c m es τ hrun hpc hτ =>
      obtain ⟨fd, hfd⟩ := hs.events x (.ctx c m) (by rw [hpc]; exact List.mem_cons_self)
      obtain ⟨-, hpcτ, -⟩ := hs.ioDone (hs.watched.array fd c hfd).1 hτ
      have := h x
      rw [hpc] at this
      simp only [Fetched, hpcτ]
      exact hup hrun (List.nodup_cons.1 this).2

theorem Fetched.reachable (h : taskio.Reachable σ) : Sound σ ∧ Fetched σ := by
  refine h.invariant (I := fun σ => Sound σ ∧ Fetched σ) ?_ fun σ act σ' hI he hx => ?_
  · rintro _ ⟨k, rfl⟩
    refine ⟨.start k, fun t => ?_⟩
    simp only [Taskio.start]
    split <;> exact List.nodup_nil
  · exact ⟨hI.1.step he hx, hI.2.step hI.1 he hx⟩

/-! ## Runs in which every event is awaited -/

/-- An event of a context is awaited. -/
def Event.Awaited (σ : Taskio) : Event → Prop
  | ctx c m => σ.Awaits c m
  | libaio => True

instance : (e : Event) → Decidable (e.Awaited σ)
  | .ctx c m => inferInstanceAs (Decidable (σ.Awaits c m))
  | .libaio => instDecidableTrue

/-- Every event that `epoll_wait` returns is awaited. -/
def Awaited (σ : Taskio) : TaskAction → Prop
  | .epollWait _ rs => ∀ r ∈ rs, (σ.event r).Awaited σ
  | _ => True

instance : (act : TaskAction) → Decidable (Awaited σ act)
  | .epollWait _ rs => inferInstanceAs (Decidable (∀ r ∈ rs, (σ.event r).Awaited σ))
  | .taskcreate _ _ _ | .taskyield _ | .taskexit _ | .tasksystem _ | .tasksleep _ _ | .taskwakeup _ _
  | .taskwakeupall _ _ | .wakenext _ | .netrw _ _ _ _ | .issue _ _ | .accepted _ _ _ | .suspend _
  | .aiorw _ | .aioret _ | .openFile _ _ _ _ | .close _ _ | .register _ _ _ | .deregister _ _
  | .epollDel _ | .start _ | .poll _ | .yielded _ | .dispatch _ | .reap _ | .taskscheduler
  | .change _ _ _ | .complete _ => instDecidableTrue

/-- **The events to come are awaited.** -/
def Expected (σ : Taskio) : Prop := ∀ t, ∀ e ∈ (σ.pc t).events, e.Awaited σ

theorem Expected.step (h : Expected σ) (hs : Sound σ) (hf : Fetched σ) (he : act.Enabled σ)
    (ha : Awaited σ act) (hx : act.exec σ = some σ') : Expected σ' := by
  by_cases ho : act.Elsewhere
  · intro t e hev
    rw [hs.events_nil_after he hx ho] at hev
    cases hev
  have hup : ∀ {x pc}, σ.tasks.taskrunning = some x → (∀ e ∈ pc.events, e.Awaited σ) →
      ∀ t, ∀ e ∈ (Function.update σ.pc x pc t).events, e.Awaited σ :=
    fun hrun hev => hs.events_update (P := fun es => ∀ e ∈ es, e.Awaited σ) hrun
      (fun e he => by cases he) hev
  cases TaskAction.polls he hx ho with
  | change f m more => exact h
  | complete t => exact h
  | epollWait x rs hat hrs =>
      refine hup hat.1 fun e hev => ?_
      obtain ⟨r, hr, rfl⟩ := List.mem_map.1 hev
      exact ha r hr
  | other x act σ' pc hrun hall hf hc hpc hcall hev =>
      have hkeep : ∀ e : Event, e.Awaited σ → e.Awaited σ' := fun e he => by
        cases e with
        | libaio => trivial
        | ctx c m =>
            have he : σ.Awaits c m := he
            have hgoal : σ'.Awaits c m := by
              unfold Taskio.Awaits
              rw [hc]
              exact he
            exact hgoal
      intro t e he
      rw [hpc] at he
      refine hkeep e (hup hrun (fun e he => h x e ?_) t e he)
      rcases hev with hev | hev
      · rw [hev]
        exact List.mem_cons_of_mem _ he
      · rwa [hev]
  | event x c m es τ hrun hpc hτ =>
      obtain ⟨fd, hfd⟩ := hs.events x (.ctx c m) (by rw [hpc]; exact List.mem_cons_self)
      obtain ⟨-, hpcτ, -⟩ := hs.ioDone (hs.watched.array fd c hfd).1 hτ
      obtain ⟨ls, place, hp, -, -⟩ := hs.tidy
      obtain ⟨ts, hwoken⟩ := Taskio.ioDone_woken hτ hp
      have hnd := hf x
      rw [hpc] at hnd
      -- the event was the only one of its context
      have hkeep : ∀ e ∈ es, e.Awaited σ → e.Awaited τ := fun e hmem he => by
        cases e with
        | libaio => trivial
        | ctx d m' =>
            have hne : d ≠ c := fun e => by
              subst e
              exact (List.nodup_cons.1 hnd).1 (List.mem_filterMap.2 ⟨_, hmem, rfl⟩)
            have he : σ.Awaits d m' := he
            have hgoal : τ.Awaits d m' := by
              unfold Taskio.Awaits Contexts.waited
              rw [hwoken.waiter_of_ne hne, Taskio.ioDone_tasktype hτ]
              exact he
            exact hgoal
      intro t e hmem
      simp only [hpcτ] at hmem
      have hboth := hs.events_update (P := fun evs => ∀ e ∈ evs, e ∈ es) hrun
        (fun e he => by cases he) (q := .dispatch es) (fun e he => he) t e hmem
      exact hkeep e hboth (h x e (by rw [hpc]; exact List.mem_cons_of_mem _ hboth))

theorem Expected.reachable (h : (taskio.only Awaited).Reachable σ) : Sound σ ∧ Expected σ := by
  have key : Sound σ ∧ Fetched σ ∧ Expected σ := by
    refine h.invariant (I := fun σ => Sound σ ∧ Fetched σ ∧ Expected σ) ?_
      fun σ act σ' hI he hx => ?_
    · rintro _ ⟨k, rfl⟩
      obtain ⟨hs, hf⟩ := Fetched.reachable (.init (S := taskio) ⟨k, rfl⟩)
      refine ⟨hs, hf, fun t e hev => ?_⟩
      simp only [Taskio.start] at hev
      split at hev <;> cases hev
    · obtain ⟨hs, hf, hexp⟩ := hI
      exact ⟨hs.step he.1 hx, hf.step hs he.1 hx, hexp.step hs hf he.1 he.2 hx⟩
  exact ⟨key.1, key.2.2⟩

/-- **The dispatch of an event is safe** in a run in which every event that
`epoll_wait` returns is awaited: no assertion fails, and only those tasks are
made ready that wait for the descriptor in a direction the event is for. -/
theorem dispatch_safe (h : (taskio.only Awaited).Reachable σ)
    (hpc : σ.pc x = .dispatch (.ctx c m :: es)) :
    ∃ σ' ls ts, (TaskAction.dispatch x).exec σ = some σ' ∧ σ.tasks.lists.All ls ∧
      σ'.tasks.lists.All (Function.update ls .taskrunqueue (ls .taskrunqueue ++ ts)) ∧
      ∀ t ∈ ts, ∃ op fd n, σ.pc t = .netrw op fd c n ∧ (σ.contexts.ctx c).fd = fd ∧
        (σ.contexts.ctx c).waiter op.side = some t ∧ m.wakes op.side = true := by
  obtain ⟨hs, hexp⟩ := Expected.reachable h
  have haw : σ.Awaits c m := hexp x (.ctx c m) (by rw [hpc]; exact List.mem_cons_self)
  obtain ⟨τ, hτ⟩ := Option.isSome_iff_exists.1 (Taskio.ioDone_isSome_iff.2 haw)
  obtain ⟨ls, place, hp, -, -⟩ := hs.tidy
  obtain ⟨ts, hwoken⟩ := Taskio.ioDone_woken hτ hp
  obtain ⟨place', hp'⟩ := hwoken.placed
  refine ⟨{ τ with pc := Function.update τ.pc x (.dispatch es) }, ls, ts, ?_, hp.lists, hp'.lists,
    fun t ht => ?_⟩
  · simp [TaskAction.exec, hpc, Taskio.dispatch, hτ]
  · obtain ⟨s, hm, hw⟩ := hwoken.only t ht
    obtain ⟨op, fd, n, hcall, rfl⟩ := hs.recorded c s t hw
    exact ⟨op, fd, n, hcall, (hs.call t op fd c (by rw [hcall]; rfl)).2, hw, hm⟩

/-- A reader gets what it waits for. -/
theorem dispatch_safe_reader : ∃ σ σ', (TaskAction.dispatch 1).exec σ = some σ' ∧
    σ.pc 1 = .dispatch [.ctx 0 ⟨true, true, false, false⟩] := by
  have h : (((taskio.only Awaited).run (.start 3) [.openFile 0 .socket 3 ⟨false, true, false, false⟩,
      .register 0 .sock 3, .netrw 0 .read 3 8, .issue 0 .again, .suspend 0, .taskscheduler, .start 1,
      .poll 1, .taskscheduler, .yielded 1, .change 3 ⟨true, true, false, false⟩ .empty,
      .epollWait 1 [.file 3 ⟨true, true, false, false⟩]]).any fun σ =>
        decide (σ.pc 1 = .dispatch [.ctx 0 ⟨true, true, false, false⟩])) = true := by
    decide +kernel
  obtain ⟨σ, hσ, hp⟩ := System.Steps.of_run_any h
  have hpc := of_decide_eq_true hp
  obtain ⟨σ', -, -, hex, -⟩ := dispatch_safe (hσ.reachable (.init ⟨3, rfl⟩)) hpc
  exact ⟨σ, σ', hex, hpc⟩

/-- **The assertion of `sockio_done` can fail**: a socket is registered, and
its task sleeps elsewhere when the event comes that it can be written. -/
theorem dispatch_aborts : ¬∀ σ x c m es, taskio.Reachable σ →
    σ.pc x = .dispatch (.ctx c m :: es) → ∃ σ', (TaskAction.dispatch x).exec σ = some σ' := by
  intro hall
  have h : ((taskio.run (.start 3) [.openFile 0 .socket 3 ⟨false, true, false, false⟩,
      .register 0 .sock 3, .tasksleep 0 0, .taskscheduler, .start 1, .poll 1, .taskscheduler,
      .yielded 1, .epollWait 1 [.file 3 ⟨false, true, false, false⟩]]).any fun σ =>
        decide (σ.pc 1 = .dispatch [.ctx 0 ⟨false, true, false, false⟩] ∧
          ((TaskAction.dispatch 1).exec σ).isSome = false)) = true := by
    decide +kernel
  obtain ⟨σ, hσ, hp⟩ := System.Steps.of_run_any h
  obtain ⟨hpc, hnone⟩ := of_decide_eq_true hp
  obtain ⟨σ', hex⟩ := hall σ 1 0 _ [] (hσ.reachable (.init ⟨3, rfl⟩)) hpc
  rw [hex] at hnone
  cases hnone

end Libtask

end VmwareProto
