import VmwareProto.Libtask.RWOrder
import VmwareProto.Library.System
import Mathlib.Algebra.Group.Int.Defs
import Mathlib.Algebra.Group.Nat.Defs
/-!
# Tasks and their reader-writer locks

Any number of tasks of a thread and of `RWLock`s, each task locking what it
wants and unlocking what it has locked. Who sleeps is in the queue it sleeps
for and in no other; who was let in is inside, also before it has run again.
-/

namespace VmwareProto

namespace Libtask

/-- Who waits for an `RWLock` in a mode. -/
def RWLock.queue (L : RWLock) : Mode → List TaskId
  | .reader => L.rwaiting
  | .writer => L.wwaiting

namespace RWTasks

open Admission Cooperative

/-- A thread and its locks. -/
def rwSystem : System State Action where
  init := State.Initial
  enabled := Action.Enabled
  exec := Action.exec

variable {σ : State} {act : Action} {L : RWLock} {l l' : RWLockId} {m : Mode} {t u : TaskId}
  {es : List (Event TaskId Mode)} {T : Threads TaskId (RWLockId × Mode)}

/-- **The invariant.** -/
structure State.Ok (σ : State) : Prop where
  tasks : σ.tasks.Ok
  kept : ∀ l, (σ.locks l).Kept (σ.log l)
  orderly : ∀ l, (σ.locks l).Orderly (σ.log l)
  queued : ∀ l m t, t ∈ (σ.locks l).queue m ↔ σ.tasks.Asleep t (l, m)
  let_in : ∀ l m t, σ.tasks.Woken t (l, m) → t ∈ inside m (σ.log l)

theorem mem_queues : t ∈ L.rwaiting ++ L.wwaiting ↔ ∃ m, t ∈ L.queue m := by
  rw [List.mem_append]
  refine ⟨fun h => h.elim (⟨.reader, ·⟩) (⟨.writer, ·⟩), ?_⟩
  rintro ⟨m, hm⟩
  cases m with
  | reader => exact .inl hm
  | writer => exact .inr hm

theorem ok_initial (h : σ.Initial) : σ.Ok := by
  obtain ⟨t, htasks, hlocks, hlog⟩ := h
  refine ⟨by rw [htasks]; exact Threads.ok_start t, fun l => ?_, fun l => ?_, fun l m u => ?_,
    fun l m u hu => ?_⟩
  · rw [hlocks, hlog]
    exact .new
  · rw [hlocks, hlog]
    exact .new
  · refine iff_of_false ?_ fun hu => Threads.start_pc_ne t (l, m) u (htasks ▸ hu.1)
    rw [hlocks]
    cases m <;> exact List.not_mem_nil
  · exact absurd (htasks ▸ hu.1) (Threads.start_pc_ne t (l, m) u)

section

variable (h : σ.Ok)
include h

/-- **One lock has changed**, and the tasks. -/
theorem State.Ok.set (hk : L.Kept (σ.log l ++ es)) (ho : L.Orderly (σ.log l ++ es)) (hT : T.Ok)
    (hq : ∀ m u, u ∈ L.queue m ↔ T.Asleep u (l, m))
    (hother : ∀ l', l' ≠ l → ∀ m u, T.Asleep u (l', m) ↔ σ.tasks.Asleep u (l', m))
    (hin : ∀ l' m u, T.Woken u (l', m) → σ.tasks.Woken u (l', m) ∧ (∀ m', .leaves u m' ∉ es) ∨
      l' = l ∧ u ∈ inside m (σ.log l ++ es)) :
    State.Ok { σ.setLock l L es with tasks := T } := by
  have hlock : ∀ l', l' ≠ l → (σ.setLock l L es).locks l' = σ.locks l' ∧
      (σ.setLock l L es).log l' = σ.log l' := fun l' hl =>
    ⟨Function.update_of_ne hl .., Function.update_of_ne hl ..⟩
  have hself : (σ.setLock l L es).locks l = L ∧ (σ.setLock l L es).log l = σ.log l ++ es :=
    ⟨Function.update_self .., Function.update_self ..⟩
  refine ⟨hT, fun l' => ?_, fun l' => ?_, fun l' m u => ?_, fun l' m u hu => ?_⟩ <;>
    by_cases hl : l' = l
  · rw [hl, hself.1, hself.2]
    exact hk
  · rw [(hlock l' hl).1, (hlock l' hl).2]
    exact h.kept l'
  · rw [hl, hself.1, hself.2]
    exact ho
  · rw [(hlock l' hl).1, (hlock l' hl).2]
    exact h.orderly l'
  · rw [hl, hself.1]
    exact hq m u
  · rw [(hlock l' hl).1]
    exact (h.queued l' m u).trans (hother l' hl m u).symm
  · rw [hl, hself.2]
    rcases hin l' m u hu with ⟨hw, he⟩ | ⟨-, hi⟩
    · exact mem_inside_append (.inl (h.let_in l m u (hl ▸ hw))) he
    · exact hi
  · rw [(hlock l' hl).2]
    rcases hin l' m u hu with ⟨hw, -⟩ | ⟨e, -⟩
    · exact h.let_in l' m u hw
    · exact absurd e hl

/-- **A step of the tasks alone.** -/
theorem State.Ok.turn (hT : T.Ok) (hal : Threads.Alike σ.tasks T) :
    State.Ok { σ with tasks := T } :=
  ⟨hT, h.kept, h.orderly, fun l m u => (h.queued l m u).trans (hal.asleep u _).symm,
    fun l m u hu => h.let_in l m u ((hal.woken u _).1 hu)⟩

/-- A task between two calls is in no queue. -/
theorem State.Ok.notMem_queues (ht : σ.tasks.pc t = .top) :
    t ∉ (σ.locks l).rwaiting ++ (σ.locks l).wwaiting := by
  rw [mem_queues]
  rintro ⟨m, hm⟩
  have := ((h.queued l m t).1 hm).1
  rw [ht] at this
  cases this

/-- A lock is taken at once. -/
theorem State.Ok.enters (hk : L.Kept (σ.log l ++ [.enters t m]))
    (hnone : ∀ m, (σ.locks l).queue m = []) (hL : ∀ m, L.queue m = []) :
    (σ.setLock l L [.enters t m]).Ok := by
  refine h.set (T := σ.tasks) hk (.of_nobody (hL .reader) (hL .writer)) h.tasks (fun m u => ?_)
    (fun _ _ _ _ => Iff.rfl) fun l' m u hu => .inl ⟨hu, by simp⟩
  rw [← h.queued, hL, hnone]

/-- A task goes to sleep for a lock. -/
theorem State.Ok.waits (hrun : σ.tasks.running = some t) (ht : σ.tasks.pc t = .top)
    (hk : L.Kept (σ.log l ++ [.waits t m])) (ho : L.Orderly (σ.log l ++ [.waits t m]))
    (hL : ∀ m', L.queue m' = (σ.locks l).queue m' ++ if m' = m then [t] else []) :
    State.Ok { σ.setLock l L [.waits t m] with tasks := σ.tasks.suspend t (l, m) } := by
  obtain ⟨hT, ha, hw⟩ := h.tasks.suspend hrun ht (l, m)
  refine h.set hk ho hT (fun m' u => ?_) (fun l' hl m' u => ?_) fun l' m' u hu =>
    .inl ⟨(hw u _).1 hu, by simp⟩
  · rw [ha, hL, List.mem_append, h.queued]
    split <;> simp [*]
  · rw [ha]
    simp [hl]

end

theorem setLock_self (σ : State) (l : RWLockId) : σ.setLock l (σ.locks l) [] = σ := by
  simp [State.setLock]

/-! ## Calls -/

section

variable (h : σ.Ok) (hrun : σ.tasks.running = some t) (ht : σ.tasks.pc t = .top)
include h hrun ht

/-- `_rlock` -/
theorem State.Ok.rlock (l : RWLockId) (block : Bool) :
    ∃ σ', (Action.lock l .reader block).exec σ = some σ' ∧ σ'.Ok := by
  have hk := h.kept l
  have hcall : Action.call (σ.locks l) t .reader block = (σ.locks l).rlock t block := rfl
  simp only [Action.exec, hrun, Option.bind_eq_bind, Option.bind_some, hcall, RWLock.rlock]
  by_cases hfree : (σ.locks l).writer = none ∧ (σ.locks l).wwaiting.head? = none
  · have hq := List.head?_eq_none_iff.1 hfree.2
    have hnone : ∀ m, (σ.locks l).queue m = [] := fun m => by
      cases m with
      | reader => exact hk.held hfree.1 hq
      | writer => exact hq
    rw [if_pos hfree]
    exact ⟨_, rfl, h.enters (hk.reads hfree.1 hq) hnone hnone⟩
  · rw [if_neg hfree]
    cases block with
    | false => exact ⟨σ, by simp only [if_pos, setLock_self], h⟩
    | true =>
        rw [List.head?_eq_none_iff] at hfree
        refine ⟨_, rfl, h.waits hrun ht (hk.waits_reader hfree)
          ((h.orderly l).waits_reader (h.notMem_queues ht)) fun m' => ?_⟩
        cases m' <;> simp [RWLock.queue]

/-- `_wlock` -/
theorem State.Ok.wlock (l : RWLockId) (block : Bool) :
    ∃ σ', (Action.lock l .writer block).exec σ = some σ' ∧ σ'.Ok := by
  have hk := h.kept l
  have hcall : Action.call (σ.locks l) t .writer block = (σ.locks l).wlock t block := rfl
  simp only [Action.exec, hrun, Option.bind_eq_bind, Option.bind_some, hcall, RWLock.wlock]
  by_cases hfree : (σ.locks l).writer = none ∧ (σ.locks l).readers = 0
  · have hq := hk.free hfree.1 hfree.2
    have hnone : ∀ m, (σ.locks l).queue m = [] := fun m => by
      cases m with
      | reader => exact hk.held hfree.1 hq
      | writer => exact hq
    rw [if_pos hfree]
    exact ⟨_, rfl, h.enters (hk.writes hfree.1 hfree.2) hnone hnone⟩
  · rw [if_neg hfree]
    cases block with
    | false => exact ⟨σ, by simp only [if_pos, setLock_self], h⟩
    | true =>
        refine ⟨_, rfl, h.waits hrun ht (hk.waits_writer hfree)
          ((h.orderly l).waits_writer hk (h.notMem_queues ht)) fun m' => ?_⟩
        cases m' <;> simp [RWLock.queue]

omit h hrun ht in
/-- What a lock does that is unlocked. -/
theorem leave_spec {log : List (Event TaskId Mode)} (hk : L.Kept log) (ho : L.Orderly log)
    (hin : t ∈ inside m log) : ∃ L' rs w es, Action.leave L m = some (L', rs, w) ∧
      es = .leaves t m :: (rs.map (fun u => .granted u .reader) ++
        w.toList.map fun u => .granted u .writer) ∧
      L.rwaiting = rs ++ L'.rwaiting ∧ L.wwaiting = w.toList ++ L'.wwaiting ∧
        L'.Kept (log ++ es) ∧ L'.Orderly (log ++ es) := by
  cases m with
  | reader =>
      obtain ⟨es, hes, hk', ho'⟩ := hk.runlock ho hin
      obtain ⟨hw, hr⟩ := RWLock.handover_waiting { L with readers := L.readers - 1 }
      exact ⟨_, [], _, es, rfl, hes, hr.symm, hw, hk', ho'⟩
  | writer =>
      obtain ⟨L', w, es, hx, hes, hr, hw, hk', ho'⟩ := hk.wunlock ho hin
      exact ⟨L', _, w, es, hx, hes, by rw [hr, List.append_nil], hw, hk', ho'⟩

/-- **`runlock` and `wunlock`.** -/
theorem State.Ok.unlock (hin : t ∈ inside m (σ.log l)) :
    ∃ σ', (Action.unlock l m).exec σ = some σ' ∧ σ'.Ok := by
  obtain ⟨L, rs, w, es, hx, hes, hrs, hw, hk, ho⟩ := leave_spec (h.kept l) (h.orderly l) hin
  refine ⟨{ σ.setLock l L es with tasks := σ.tasks.ready (rs ++ w.toList) }, ?_, ?_⟩
  · simp only [Action.exec, hrun, Option.bind_eq_bind, Option.bind_some, hx, hes]
  have hnd := (h.orderly l).nodup
  rw [hrs, hw] at hnd
  -- who is let in
  have hmem : ∀ u ∈ rs ++ w.toList, ∃ m, u ∈ (σ.locks l).queue m ∧ .granted u m ∈ es := by
    intro u hu
    rcases List.mem_append.1 hu with hu | hu
    · have hq : u ∈ (σ.locks l).rwaiting := by
        rw [hrs]
        exact List.mem_append_left _ hu
      exact ⟨.reader, hq, by simp [hes, hu]⟩
    · have hq : u ∈ (σ.locks l).wwaiting := by
        rw [hw]
        exact List.mem_append_left _ hu
      rw [Option.mem_toList] at hu
      exact ⟨.writer, hq, by simp [hes, hu]⟩
  have hleaves : ∀ {u m'}, u ≠ t → .leaves u m' ∉ es := fun hut hm => by
    simp [hes, hut] at hm
  obtain ⟨hT, ha, hwo⟩ := h.tasks.ready (rs ++ w.toList) (by grind) fun u hu => by
    obtain ⟨m, hm, -⟩ := hmem u hu
    exact ⟨_, (h.queued l m u).1 hm⟩
  refine h.set hk ho hT (fun m' u => ?_) (fun l' hl m' u => ?_) fun l' m' u hu => ?_
  · rw [ha, ← h.queued]
    cases m' with
    | reader =>
        simp only [RWLock.queue, hrs]
        grind
    | writer =>
        simp only [RWLock.queue, hw]
        grind
  · rw [ha]
    refine and_iff_left_of_imp fun hu hm => ?_
    obtain ⟨m, hq, -⟩ := hmem u hm
    have := ((h.queued l m u).1 hq).1.symm.trans hu.1
    rw [Pc.waits.injEq, Prod.mk.injEq] at this
    exact hl this.1.symm
  · rcases (hwo u _).1 hu with hu | ⟨hu, hm⟩
    · refine .inl ⟨hu, fun m' => hleaves ?_⟩
      rintro rfl
      exact absurd (ht.symm.trans hu.1) (by simp)
    · obtain ⟨m, hq, hg⟩ := hmem u hm
      have := ((h.queued l m u).1 hq).1.symm.trans hu.1
      rw [Pc.waits.injEq, Prod.mk.injEq] at this
      obtain ⟨rfl, rfl⟩ := this
      exact .inr ⟨rfl, mem_inside_append (.inr hg) fun m' => hleaves fun e => hu.2.2 (e ▸ hrun)⟩

end

/-! ## Runs -/

/-- **The step lemma**: no step aborts, and each keeps the invariant. -/
theorem State.Ok.step (h : σ.Ok) (he : act.Enabled σ) : ∃ σ', act.exec σ = some σ' ∧ σ'.Ok := by
  cases act with
  | turn a =>
      obtain ⟨T, hx, hT, hal⟩ := h.tasks.turn he
      exact ⟨_, by simp only [Action.exec, hx, Option.bind_eq_bind, Option.bind_some],
        h.turn hT hal⟩
  | lock l m block =>
      obtain ⟨t, hrun, ht⟩ := he.exists_running
      cases m with
      | reader => exact h.rlock hrun ht l block
      | writer => exact h.wlock hrun ht l block
  | unlock l m =>
      obtain ⟨t, hrun, ht, hin⟩ := he
      exact h.unlock hrun ht hin
  | awake =>
      obtain ⟨t, hrun, ht⟩ := he
      have hrun : σ.tasks.running = some t := hrun
      obtain ⟨hT, ha, hw⟩ := h.tasks.resume hrun
      refine ⟨{ σ with tasks := σ.tasks.resume t }, ?_, hT, h.kept, h.orderly,
        fun l m u => (h.queued l m u).trans (ha u _).symm, fun l m u hu => ?_⟩
      · simp only [Action.exec, hrun, Option.bind_eq_bind, Option.bind_some]
      · exact h.let_in l m u ((hw u _).1 hu).1

/-- **The run lemma.** -/
theorem rw_inductive : rwSystem.Inductive State.Ok where
  init _ h := ok_initial h
  step _ _ h he := h.step he

/-! ## What `readers` counts -/

/-- As many are let in to read as an `int` can count: one more by a call of
`_rlock`, those that wait by `wunlock`. -/
def Action.Countable (σ : State) : Action → Prop
  | lock l .reader _ => (inside .reader (σ.log l)).length + 1 < 2 ^ 31
  | unlock l .writer => (waiting .reader (σ.log l)).length < 2 ^ 31
  | _ => True

instance (σ : State) : (a : Action) → Decidable (a.Countable σ)
  | .lock l .reader _ =>
      inferInstanceAs (Decidable ((inside .reader (σ.log l)).length + 1 < 2 ^ 31))
  | .unlock l .writer =>
      inferInstanceAs (Decidable ((waiting .reader (σ.log l)).length < 2 ^ 31))
  | .lock _ .writer _ => .isTrue trivial
  | .unlock _ .reader => .isTrue trivial
  | .turn _ => .isTrue trivial
  | .awake => .isTrue trivial

/-- A call changes one lock. -/
theorem locks_of_lock {σ' : State} {block : Bool} (hx : (Action.lock l m block).exec σ = some σ') :
    ∃ t, σ'.locks = Function.update σ.locks l (Action.call (σ.locks l) t m block).1 := by
  obtain ⟨t, -, hx⟩ := Option.bind_eq_some_iff.1 hx
  refine ⟨t, ?_⟩
  split at hx <;> rename_i hL <;> obtain rfl := Option.some.inj hx <;> rw [hL] <;> rfl

theorem locks_of_unlock {σ' : State} (hx : (Action.unlock l m).exec σ = some σ') :
    ∃ L rs w, Action.leave (σ.locks l) m = some (L, rs, w) ∧
      σ'.locks = Function.update σ.locks l L := by
  obtain ⟨t, -, hx⟩ := Option.bind_eq_some_iff.1 hx
  obtain ⟨⟨L, rs, w⟩, hL, hx⟩ := Option.bind_eq_some_iff.1 hx
  obtain rfl := Option.some.inj hx
  exact ⟨L, rs, w, hL, rfl⟩

/-- What is true of a lock that has changed and was of all is true of all. -/
theorem readers_lt_update (hb : ∀ l, (σ.locks l).readers < 2 ^ 31) (hL : L.readers < 2 ^ 31)
    (l' : RWLockId) : (Function.update σ.locks l L l').readers < 2 ^ 31 := by
  by_cases hl : l' = l
  · rw [hl, Function.update_self]
    exact hL
  · rw [Function.update_of_ne hl]
    exact hb l'

/-- **A step that can be counted** leaves an `int` in `readers`. -/
theorem State.Ok.readers_lt {σ' : State} (h : σ.Ok) (he : act.Enabled σ) (hn : act.Countable σ)
    (hx : act.exec σ = some σ') (hb : ∀ l, (σ.locks l).readers < 2 ^ 31) (l : RWLockId) :
    (σ'.locks l).readers < 2 ^ 31 := by
  cases act with
  | turn a =>
      obtain ⟨T, -, hx⟩ := Option.bind_eq_some_iff.1 hx
      obtain rfl := Option.some.inj hx
      exact hb l
  | lock l' m block =>
      obtain ⟨t, hlocks⟩ := locks_of_lock hx
      rw [hlocks]
      refine readers_lt_update hb ?_ l
      cases m with
      | reader =>
          have hr := (h.kept l').readers
          have hone : (inside .reader (σ.log l')).length + 1 < 2 ^ 31 := hn
          simp only [Action.call, RWLock.rlock]
          split_ifs <;> simp only <;> omega
      | writer =>
          have hr := hb l'
          simp only [Action.call, RWLock.wlock]
          split_ifs <;> exact hr
  | unlock l' m =>
      obtain ⟨L, rs, w, hL, hlocks⟩ := locks_of_unlock hx
      rw [hlocks]
      refine readers_lt_update hb ?_ l
      cases m with
      | reader =>
          obtain ⟨rfl, -⟩ := Prod.mk.inj (Option.some.inj hL)
          have hr := hb l'
          rw [RWLock.runlock, RWLock.handover_readers]
          simp only
          omega
      | writer =>
          -- nobody reads while it writes, so those that wait are all that are let in
          obtain ⟨t, -, -, hin⟩ := he
          obtain ⟨hw, hz⟩ := (h.kept l').mem_writer hin
          have hall : (waiting .reader (σ.log l')).length < 2 ^ 31 := hn
          rw [(h.kept l').rwaiting] at hall
          rw [Action.leave, RWLock.wunlock_eq hw hz] at hL
          obtain ⟨rfl, -⟩ := Prod.mk.inj (Option.some.inj hL)
          rw [RWLock.handover_readers]
          simp only
          omega
  | awake =>
      obtain ⟨t, -, hx⟩ := Option.bind_eq_some_iff.1 hx
      obtain rfl := Option.some.inj hx
      exact hb l

/-- **The run lemma**, for runs that can be counted. -/
theorem countable_reachable (hr : (rwSystem.only fun σ act => act.Countable σ).Reachable σ) :
    σ.Ok ∧ ∀ l, (σ.locks l).readers < 2 ^ 31 := by
  refine hr.invariant (I := fun σ => σ.Ok ∧ ∀ l, (σ.locks l).readers < 2 ^ 31) ?_ ?_
  · intro σ h
    obtain ⟨-, -, hlocks, -⟩ := id h
    exact ⟨ok_initial h, fun l => by rw [hlocks]; decide⟩
  · rintro σ act σ' ⟨h, hb⟩ ⟨he, hn⟩ hx
    obtain ⟨σ'', hx', h'⟩ := h.step he
    obtain rfl := Option.some.inj (hx.symm.trans hx')
    exact ⟨h', h.readers_lt he hn hx hb⟩

/-! ## A run -/

/-- A thread with one task. -/
def thread : State where
  locks _ := ⟨0, none, [], []⟩
  tasks := .start 0
  log _ := []

/-- The first task reads; the second wants to write and waits, and so does
the third, that wants to read. -/
def crowd : List Action :=
  [.turn (.create 1), .turn (.create 2), .lock 0 .reader true, .turn .yield, .turn .schedule,
    .lock 0 .writer true, .turn .schedule, .lock 0 .reader true, .turn .schedule]

instance (σ : State) (a : Action) : Decidable (rwSystem.enabled σ a) :=
  inferInstanceAs (Decidable (a.Enabled σ))

theorem thread_initial : thread.Initial := ⟨0, rfl, fun _ => rfl, fun _ => rfl⟩

/-- The first task has left, and a writer is let in before a reader. -/
theorem exists_crowd : ∃ σ, (rwSystem.only fun σ act => act.Countable σ).Reachable σ ∧
    σ.tasks.Woken 1 (0, .writer) ∧ σ.tasks.Asleep 2 (0, .reader) := by
  have h : ((rwSystem.only fun σ act => act.Countable σ).run thread
      (crowd ++ [.unlock 0 .reader])).any (fun σ =>
      σ.tasks.Woken 1 (0, .writer) ∧ σ.tasks.Asleep 2 (0, .reader)) = true := by decide +kernel
  obtain ⟨σ, hs, hp⟩ := System.Steps.of_run_any h
  exact ⟨σ, hs.reachable (.init thread_initial), of_decide_eq_true hp⟩

/-- Nobody has left. -/
theorem exists_waiting : ∃ σ, rwSystem.Reachable σ ∧ σ.tasks.Asleep 1 (0, .writer) ∧
    σ.tasks.Asleep 2 (0, .reader) := by
  have h : (rwSystem.run thread crowd).any (fun σ =>
      σ.tasks.Asleep 1 (0, .writer) ∧ σ.tasks.Asleep 2 (0, .reader)) = true := by decide
  obtain ⟨σ, hs, hp⟩ := System.Steps.of_run_any h
  exact ⟨σ, hs.reachable (.init thread_initial), of_decide_eq_true hp⟩

/-! ## Results -/

/-- **A writer is alone**: in every run in which `readers`, an `int`, can
count the readers, no step aborts, `readers` counts those that are inside,
`writer` is the only one that is, and never both; and who returns from `rlock`
or `wlock` after a sleep is inside. -/
theorem rwlock_exclusion (hr : (rwSystem.only fun σ act => act.Countable σ).Reachable σ) :
    (∀ act : Action, act.Enabled σ → ∃ σ', act.exec σ = some σ') ∧
    ∀ l, (σ.locks l).readers = (inside .reader (σ.log l)).length ∧
      (σ.locks l).readers < 2 ^ 31 ∧
      inside .writer (σ.log l) = (σ.locks l).writer.toList ∧
      (inside .writer (σ.log l) = [] ∨ inside .reader (σ.log l) = []) ∧
        ∀ m t, σ.tasks.Woken t (l, m) → t ∈ inside m (σ.log l) := by
  obtain ⟨h, hb⟩ := countable_reachable hr
  refine ⟨fun act he => (h.step he).imp fun _ => And.left, fun l => ?_⟩
  have hk := h.kept l
  refine ⟨hk.readers, hb l, hk.writer, ?_, h.let_in l⟩
  rw [hk.writer, Option.toList_eq_nil_iff, or_iff_not_imp_left]
  intro hw
  have := hk.readers
  rw [hk.alone hw] at this
  exact List.eq_nil_of_length_eq_zero (by omega)

/-- A writer was let in. -/
theorem rwlock_exclusion_crowd : ∃ σ, rwSystem.Reachable σ ∧ 1 ∈ inside Mode.writer (σ.log 0) ∧
    inside Mode.reader (σ.log 0) = [] := by
  obtain ⟨σ, hr, hw, -⟩ := exists_crowd
  obtain ⟨-, -, -, halone, hin⟩ := (rwlock_exclusion hr).2 0
  have h1 := hin .writer 1 hw
  exact ⟨σ, hr.of_only, h1, halone.resolve_left (List.ne_nil_of_mem h1)⟩

/-- **Nobody waits in vain**: the queues of a lock hold those that sleep for
it, each of them once; there is somebody inside while anybody waits, and a
writer, inside or waiting, while a reader does. -/
theorem rwlock_waits (hr : rwSystem.Reachable σ) (l : RWLockId) :
    (∀ m, ((σ.locks l).queue m).Nodup ∧
      ∀ t, t ∈ (σ.locks l).queue m ↔ σ.tasks.Asleep t (l, m)) ∧
    (∀ t m, σ.tasks.Asleep t (l, m) →
      inside .writer (σ.log l) ≠ [] ∨ inside .reader (σ.log l) ≠ []) ∧
    ∀ t, σ.tasks.Asleep t (l, .reader) →
      inside .writer (σ.log l) ≠ [] ∨ ∃ u, σ.tasks.Asleep u (l, .writer) := by
  have h := rw_inductive.reachable hr
  have hk := h.kept l
  have hnd := List.nodup_append.1 (h.orderly l).nodup
  have hwriter : inside .writer (σ.log l) = [] ↔ (σ.locks l).writer = none := by
    rw [hk.writer, Option.toList_eq_nil_iff]
  have hreader : ∀ t, σ.tasks.Asleep t (l, .reader) →
      (σ.locks l).writer ≠ none ∨ (σ.locks l).wwaiting ≠ [] := fun t ht => by
    by_contra hno
    rw [not_or, not_not, not_not] at hno
    have hm := (h.queued l .reader t).2 ht
    rw [RWLock.queue, hk.held hno.1 hno.2] at hm
    cases hm
  refine ⟨fun m => ⟨?_, h.queued l m⟩, fun t m ht => ?_, fun t ht => ?_⟩
  · cases m with
    | reader => exact hnd.1
    | writer => exact hnd.2.1
  · by_contra hno
    rw [not_or, not_not, not_not, hwriter] at hno
    have hz : (σ.locks l).readers = 0 := by rw [hk.readers, hno.2]; rfl
    have hq := hk.free hno.1 hz
    cases m with
    | reader => exact (hreader t ht).elim (fun e => e hno.1) fun e => e hq
    | writer =>
        have hm := (h.queued l .writer t).2 ht
        rw [RWLock.queue, hq] at hm
        cases hm
  · rw [Ne, hwriter]
    refine (hreader t ht).imp_right fun hne => ?_
    obtain ⟨u, hu⟩ := List.exists_mem_of_ne_nil _ hne
    exact ⟨u, (h.queued l .writer u).1 hu⟩

/-- Two tasks wait. -/
theorem rwlock_waits_crowd : ∃ σ, rwSystem.Reachable σ ∧ σ.tasks.Asleep 1 (0, .writer) ∧
    (inside Mode.writer (σ.log 0) ≠ [] ∨ inside Mode.reader (σ.log 0) ≠ []) := by
  obtain ⟨σ, hr, hw, -⟩ := exists_waiting
  exact ⟨σ, hr, hw, (rwlock_waits hr 0).2.1 1 .writer hw⟩

/-- **How far one is overtaken**: since a reader began to wait, nobody has
been let in but one writer. Since a writer did, the writers before it in the
queue have been, in their order, and as often as these, and once more, any
reader; and nobody at once. -/
theorem rwlock_overtaking (hr : rwSystem.Reachable σ) (l : RWLockId) :
    (∀ t, σ.tasks.Asleep t (l, .reader) → ∃ pre post, Since t .reader (σ.log l) pre post ∧
      (admitted post = [] ∨ ∃ w, admitted post = [(w, .writer)])) ∧
    ∀ t, σ.tasks.Asleep t (l, .writer) → ∃ pre post, Since t .writer (σ.log l) pre post ∧
      (∀ u m, .enters u m ∉ post) ∧
      (∃ k, (σ.locks l).wwaiting[k]? = some t ∧
        admittedIn .writer post ++ (σ.locks l).wwaiting.take k = waiting .writer pre) ∧
      ∀ u, (admittedIn .reader post).count u ≤ (admittedIn .writer post).length + 1 := by
  have h := rw_inductive.reachable hr
  have ho := h.orderly l
  refine ⟨fun t ht => ?_, fun t ht => ?_⟩
  · obtain ⟨pre, post, hs, hp⟩ := ho.reader t ((h.queued l .reader t).2 ht)
    exact ⟨pre, post, hs, hp.imp_right fun e => e.imp fun _ => And.right⟩
  · obtain ⟨k, hk⟩ := List.mem_iff_getElem?.1 ((h.queued l .writer t).2 ht)
    obtain ⟨pre, post, hs, he, htake, hc⟩ := ho.writer k t hk
    exact ⟨pre, post, hs, he, ⟨k, hk, htake⟩, fun u => Nat.le_of_add_right_le (hc u)⟩

/-- A reader waits that a writer has overtaken. -/
theorem rwlock_overtaking_crowd : ∃ σ, rwSystem.Reachable σ ∧ σ.tasks.Asleep 2 (0, .reader) ∧
    ∃ pre post, Since 2 Mode.reader (σ.log 0) pre post ∧
      (admitted post = [] ∨ ∃ w, admitted post = [(w, .writer)]) := by
  obtain ⟨σ, hr, -, ht⟩ := exists_crowd
  exact ⟨σ, hr.of_only, ht, (rwlock_overtaking hr.of_only 0).1 2 ht⟩

end RWTasks

end Libtask

end VmwareProto
