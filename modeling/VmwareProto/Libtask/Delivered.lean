import VmwareProto.Libtask.Libaio
import VmwareProto.Libtask.OnePlace
import Mathlib.Data.BitVec
/-!
# Completions are delivered

Every request is in flight, completed or reaped, once; a task in
`task_aiorw` waits for its own, and the `LibaioState` of a request is that
of the task that submitted it until it has returned (`Served`). So
`libaio_done` reaps as many completions as it has read off the counter,
hands each to its task, and no task goes on before.
-/

namespace VmwareProto

namespace Libtask

/-- **Every request is its task's**, until the task has it back. -/
structure Served (σ : Aio) : Prop where
  sound : Sound σ.erase
  pending : ∀ r ∈ σ.pending,
    σ.pc r.data = .aiorw ∧ σ.request r.data = r ∧ (σ.ls r.data).waiter = some r.data
  results : ∀ e ∈ σ.queue ++ σ.reaped, ∃ res : BitVec 32, e.res = res.signExtend 64 ∧ e.res2 = 0
  own : ∀ t, σ.pc t = .aiorw → (σ.request t).data = t ∧
    (σ.request t ∈ σ.pending ∨ ∃ e ∈ σ.reaped, e.obj = σ.request t ∧
      ∃ ls : LibaioState, σ.ls t = ls.store e)
  ids : ((σ.pending ++ σ.reaped.map IoEvent.obj).map Request.id).Perm (List.range σ.submits)
  counted : σ.eventfd ≤ σ.queue.length
  batches : ∀ b ∈ σ.batches, b.length ≤ taskioNioevent

variable {σ σ' : Aio} {τ τ' : Taskio} {x t : TaskId} {e : IoEvent} {r : Request} {ea : List IoEvent}
  {act : TaskAction} {pc : Pc} {n fuel : ℕ}

/-! ## Results -/

theorem setWidth_signExtend (res : BitVec 32) : (res.signExtend 64).setWidth 32 = res := by
  ext i hi
  simp [hi, BitVec.getLsbD_signExtend]
  omega

/-- **A result passes through both words.** -/
theorem taskAiorwRet_store (ls : LibaioState) (res : BitVec 32) :
    taskAiorwRet (ls.store ⟨r, res.signExtend 64, 0⟩) = res.signExtend 64 := by
  simp [taskAiorwRet, LibaioState.store, setWidth_signExtend]

/-- A count is that of the bytes asked for if it is the same number. -/
theorem taskAiorwAnswer_eq_zero_iff {ls : LibaioState} {res : BitVec 32} {nbytes : BitVec 64}
    (hls : taskAiorwRet ls = res.signExtend 64) (hn : nbytes.toNat < 2 ^ 31) :
    (taskAiorwAnswer ls nbytes).2 = 0 ↔ res.toInt = nbytes.toNat := by
  have hres : (res.signExtend 64).toInt = res.toInt := BitVec.toInt_signExtend_of_le (by decide)
  have hnat : nbytes.toInt = nbytes.toNat := BitVec.toInt_eq_toNat_of_lt (by omega)
  have heq : res.signExtend 64 = nbytes ↔ res.toInt = nbytes.toNat := by
    rw [← BitVec.toInt_inj, hres, hnat]
  simp only [taskAiorwAnswer, hls]
  by_cases h : res.signExtend 64 = nbytes
  · simp [h, heq.1 h]
  · simp [h, mt heq.2 h, taskioIoerr]

/-! ## Steps that deal with no request -/

/-- The requests are left alone. -/
structure SameRequests (τ τ' : Taskio) : Prop where
  submitted : τ'.submitted = τ.submitted
  completed : τ'.completed = τ.completed
  eventfd : τ'.eventfd = τ.eventfd

/-- And at most one task, that waits for none, comes to another point. -/
structure Unconcerned (τ τ' : Taskio) : Prop extends SameRequests τ τ' where
  pc : τ'.pc = τ.pc ∨ ∃ u pc, τ'.pc = Function.update τ.pc u pc ∧ pc ≠ .aiorw ∧
    u ∉ τ.submitted ++ τ.completed

namespace SameRequests

theorem refl (τ : Taskio) : SameRequests τ τ := ⟨rfl, rfl, rfl⟩

theorem trans {τ₁ τ₂ : Taskio} (h : SameRequests τ τ₁) (h' : SameRequests τ₁ τ₂) :
    SameRequests τ τ₂ :=
  ⟨h'.submitted.trans h.submitted, h'.completed.trans h.completed, h'.eventfd.trans h.eventfd⟩

theorem wake (c : Ctx) (s : Side) : SameRequests τ (τ.wake c s) := by
  unfold Taskio.wake
  split <;> exact ⟨rfl, rfl, rfl⟩

theorem register (r : Registration) (fd : Fd) : SameRequests τ (τ.register r fd) := by
  unfold Taskio.register
  dsimp only
  split
  · split
    · exact ⟨rfl, rfl, rfl⟩
    · split <;> exact ⟨rfl, rfl, rfl⟩
  · exact ⟨rfl, rfl, rfl⟩

theorem deregister (x : TaskId) (fd : Fd) : SameRequests τ (τ.deregister x fd) := by
  unfold Taskio.deregister
  split
  · exact ⟨rfl, rfl, rfl⟩
  · split
    · exact ⟨rfl, rfl, rfl⟩
    · rename_i c _
      have h := (wake (τ := τ) c .reader).trans (wake c .writer)
      dsimp only
      split <;> exact ⟨h.submitted, h.completed, h.eventfd⟩

theorem sockioDone {c : Ctx} {m : Mask} (h : τ.sockioDone c m = some τ') :
    SameRequests τ τ' ∧ τ'.pc = τ.pc := by
  unfold Taskio.sockioDone at h
  split at h
  · cases h
  · cases h
    have h₁ : SameRequests τ (if m.wakes .reader = true then τ.wake c .reader else τ) ∧
        (if m.wakes .reader = true then τ.wake c .reader else τ).pc = τ.pc := by
      split
      · exact ⟨wake c .reader, Sound.wake_pc⟩
      · exact ⟨refl τ, rfl⟩
    split
    · exact ⟨h₁.1.trans (wake c .writer), Sound.wake_pc.trans h₁.2⟩
    · exact h₁

theorem ioDone {c : Ctx} {m : Mask} (h : τ.ioDone c m = some τ') :
    SameRequests τ τ' ∧ τ'.pc = τ.pc := by
  unfold Taskio.ioDone at h
  split at h
  · exact sockioDone h
  · unfold Taskio.fifoioDone at h
    split at h
    · cases h
      exact ⟨refl _, rfl⟩
    · exact sockioDone h

end SameRequests

/-- A task that runs waits for no request. -/
theorem Sound.notMem_libaio (h : Sound τ) (hx : τ.tasks.taskrunning = some x) :
    x ∉ τ.submitted ++ τ.completed := fun hm => by
  obtain ⟨ls, place, hp, -, -⟩ := h.tidy
  have hrun := (hp.at_iff x .running).1 hx
  rw [(hp.at_iff x .libaio).1 hm] at hrun
  cases hrun

/-- Nor does one that is created. -/
theorem Sound.notMem_created (h : Sound τ) {stack : ℕ} {malloc : TaskId} {T : Tasks}
    (hnew : malloc ∉ τ.tasks.alltask) (hT : τ.tasks.taskcreate stack malloc = some (T, t)) :
    t ∉ τ.submitted ++ τ.completed := fun hm => by
  obtain ⟨ls, place, hp, -, hall⟩ := h.tidy
  have hlib := (hp.at_iff t .libaio).1 hm
  rcases (Tasks.taskcreate_eq hT).1 with ⟨rfl, -⟩ | ⟨hc, -⟩
  · exact hnew ((hall t).2 (by simp [hlib]))
  · obtain ⟨ts, hts⟩ := hp.lists.of_head hc
    have hcache := (hp.at_iff t (.linked .taskscache)).1 (by simp [Spots.At, hts])
    rw [hlib] at hcache
    cases hcache

namespace Unconcerned

/-- A task stays where it is. -/
theorem stays (h : SameRequests τ τ') (hpc : τ'.pc = τ.pc) : Unconcerned τ τ' := ⟨h, .inl hpc⟩

/-- The task that runs goes on. -/
theorem goes (hs : Sound τ) (hx : τ.tasks.taskrunning = some x) (h : SameRequests τ τ')
    (hpc : τ'.pc = Function.update τ.pc x pc) (hne : pc ≠ .aiorw) : Unconcerned τ τ' :=
  ⟨h, .inr ⟨x, pc, hpc, hne, hs.notMem_libaio hx⟩⟩

end Unconcerned

/-- **Steps that deal with no request.** -/
theorem Sound.unconcerned (h : Sound τ) (he : act.Enabled τ) (ho : act.Other τ)
    (hx : act.exec τ = some τ') : Unconcerned τ τ' := by
  cases act with
  | taskcreate x stack malloc =>
      obtain ⟨⟨T, t⟩, hT, hτ'⟩ := Option.bind_eq_some_iff.1 hx
      cases hτ'
      exact ⟨⟨rfl, rfl, rfl⟩, .inr ⟨t, .top, rfl, (by simp), h.notMem_created he.2 hT⟩⟩
  | taskyield x => cases hx; exact .stays ⟨rfl, rfl, rfl⟩ rfl
  | taskexit x => cases hx; exact .stays ⟨rfl, rfl, rfl⟩ rfl
  | tasksystem x => cases hx; exact .stays ⟨rfl, rfl, rfl⟩ rfl
  | tasksleep x r => cases hx; exact .stays ⟨rfl, rfl, rfl⟩ rfl
  | taskwakeup x r => cases hx; exact .stays ⟨rfl, rfl, rfl⟩ rfl
  | taskwakeupall x r => cases hx; exact .goes h he.1 ⟨rfl, rfl, rfl⟩ rfl (by simp)
  | wakenext x =>
      simp only [TaskAction.exec] at hx
      split at hx
      · cases hx
        split
        · exact .stays ⟨rfl, rfl, rfl⟩ rfl
        · exact .goes h he.1 ⟨rfl, rfl, rfl⟩ rfl (by simp)
      · cases hx
  | netrw x op fd n =>
      simp only [TaskAction.exec] at hx
      split at hx
      · cases hx
        exact .stays (.refl τ) rfl
      · split at hx
        · cases hx
        · split at hx
          · cases hx
          · cases hx
            exact .goes h he.1 ⟨rfl, rfl, rfl⟩ rfl (by simp)
  | issue x o =>
      simp only [TaskAction.exec] at hx
      split at hx
      · split at hx
        · cases hx
          exact .goes h he.1 ⟨rfl, rfl, rfl⟩ rfl (by split <;> simp)
        · cases hx
          exact .goes h he.1 ⟨rfl, rfl, rfl⟩ rfl (by simp)
        · cases hx
          exact .goes h he.1 ⟨rfl, rfl, rfl⟩ rfl (by simp)
      · cases hx
  | accepted x fd m =>
      simp only [TaskAction.exec] at hx
      split at hx
      · cases hx
        have hreg := SameRequests.register (τ := { τ with
          files := τ.files.openFile .socket fd m, pc := Function.update τ.pc x .top }) .sock fd
        exact .goes h he.1.1 ⟨hreg.submitted, hreg.completed, hreg.eventfd⟩
          (Taskio.register_eq .sock fd).1 (by simp)
      · cases hx
        exact .goes h he.1.1 ⟨rfl, rfl, rfl⟩ rfl (by simp)
  | suspend x =>
      simp only [TaskAction.exec] at hx
      split at hx
      · split at hx
        · cases hx
        · cases hx
          exact .goes h he.1 ⟨rfl, rfl, rfl⟩ rfl (by simp)
      · cases hx
  | aiorw x => exact ho.elim
  | aioret x => exact ho.elim
  | openFile x k fd m => cases hx; exact .stays ⟨rfl, rfl, rfl⟩ rfl
  | close x fd => cases hx; exact .stays ⟨rfl, rfl, rfl⟩ rfl
  | register x r fd => cases hx; exact .stays (.register r fd) (Taskio.register_eq r fd).1
  | deregister x fd =>
      cases hx
      rcases (Taskio.deregister_eq x fd).1 with ⟨-, hpc⟩ | ⟨-, c, -, -, -, hpc | hpc⟩
      · exact .stays (.deregister x fd) hpc
      · exact .stays (.deregister x fd) hpc
      · exact .goes h he.1 (.deregister x fd) hpc (by simp)
  | epollDel x =>
      simp only [TaskAction.exec] at hx
      split at hx
      · cases hx
        exact .goes h he.1 ⟨rfl, rfl, rfl⟩ rfl (by simp)
      · cases hx
  | start x => cases hx; exact .goes h he.1 ⟨rfl, rfl, rfl⟩ rfl (by simp)
  | poll x => cases hx; exact .goes h he.1 ⟨rfl, rfl, rfl⟩ rfl (by simp)
  | yielded x =>
      simp only [TaskAction.exec] at hx
      split at hx
      · cases hx
        exact .goes h he.1 ⟨rfl, rfl, rfl⟩ rfl (by split <;> simp)
      · cases hx
  | epollWait x rs => cases hx; exact .goes h he.1.1 ⟨rfl, rfl, rfl⟩ rfl (by simp)
  | dispatch x =>
      simp only [TaskAction.exec] at hx
      split at hx
      · cases hx
        exact .goes h he.1 ⟨rfl, rfl, rfl⟩ rfl (by simp)
      · rename_i e es hpc
        cases e with
        | libaio =>
            have ho : (τ.pc x).libaio = false := ho
            rw [hpc] at ho
            cases ho
        | ctx c m =>
            obtain ⟨τ₁, hdone, hτ'⟩ := Option.bind_eq_some_iff.1 hx
            cases hτ'
            obtain ⟨hsame, hpc'⟩ := SameRequests.ioDone hdone
            have hgo : Function.update τ₁.pc x (.dispatch es) = Function.update τ.pc x (.dispatch es) := by
              rw [hpc']
            exact .goes h he.1 ⟨hsame.submitted, hsame.completed, hsame.eventfd⟩ hgo (by simp)
      · cases hx
  | reap x => exact ho.elim
  | taskscheduler =>
      simp only [TaskAction.exec] at hx
      split at hx
      · cases hx
        exact .stays ⟨rfl, rfl, rfl⟩ rfl
      · cases hx
  | change f m more => cases hx; exact .stays ⟨rfl, rfl, rfl⟩ rfl
  | complete t => exact ho.elim

/-! ## `libaio_done` -/

/-- Completions are handed to their tasks, one after the other. -/
def Aio.handed (ea : List IoEvent) (σ : Aio) : Aio :=
  { σ with
    ls := ea.foldl (fun ls e => Function.update ls e.data ((ls e.data).store e)) σ.ls
    tasks := (ea.map IoEvent.data).foldl Tasks.taskready σ.tasks }

theorem Aio.handed_waiter (ea : List IoEvent) (σ : Aio) (t : TaskId) :
    ((σ.handed ea).ls t).waiter = (σ.ls t).waiter := by
  induction ea generalizing σ with
  | nil => rfl
  | cons e ea ih =>
      refine (ih { σ with ls := Function.update σ.ls e.data ((σ.ls e.data).store e) }).trans ?_
      by_cases ht : t = e.data
      · simp [ht, LibaioState.store]
      · simp [ht]

/-- The loop over the array. -/
theorem Aio.signals_eq (h : ∀ e ∈ ea, (σ.ls e.data).waiter = some e.data) :
    Aio.signals ea σ = some (σ.handed ea) := by
  induction ea generalizing σ with
  | nil => rfl
  | cons e ea ih =>
      have hw := h e List.mem_cons_self
      rw [signals, signal, hw]
      refine ih fun e' he' => ?_
      by_cases hd : e'.data = e.data
      · simp [hd, LibaioState.store, hw]
      · simpa [hd] using h e' (List.mem_cons_of_mem _ he')

/-- **The loop of `libaio_done`** comes to an end when as many completions are
reaped, in pieces that the array holds. -/
theorem Aio.reapLoop_eq (h : ∀ e ∈ σ.queue, (σ.ls e.data).waiter = some e.data) (hf : n < fuel)
    (hn : n ≤ σ.queue.length) :
    ∃ bs : List (List IoEvent), bs.flatten = σ.queue.take n ∧ (∀ b ∈ bs, b.length ≤ taskioNioevent) ∧
      Aio.reapLoop fuel n σ = some { σ.handed (σ.queue.take n) with
        queue := σ.queue.drop n, batches := σ.batches ++ bs } := by
  induction fuel generalizing σ n with
  | zero => omega
  | succ fuel ih =>
      by_cases h0 : n = 0
      · subst h0
        exact ⟨[], by simp, by simp, by simp [reapLoop, handed]⟩
      · have hpos : 0 < min n taskioNioevent := Nat.lt_min.2 ⟨by omega, by decide⟩
        have hle : min n taskioNioevent ≤ n := Nat.min_le_left ..
        generalize hk : min n taskioNioevent = k at hpos hle
        have hmax : k ≤ taskioNioevent := hk ▸ Nat.min_le_right ..
        -- one piece
        have hsig := signals_eq (σ := { σ with
          queue := σ.queue.drop k, batches := σ.batches ++ [σ.queue.take k] })
          fun e (he : e ∈ σ.queue.take k) => h e (List.mem_of_mem_take he)
        obtain ⟨bs, hbs, hlen, hloop⟩ := ih (n := n - k) (σ := Aio.handed (σ.queue.take k) { σ with
          queue := σ.queue.drop k, batches := σ.batches ++ [σ.queue.take k] })
          (fun e he => (handed_waiter _ _ e.data).trans (h e (List.mem_of_mem_drop he)))
          (by omega) (by simp [handed]; omega)
        have htake : σ.queue.take k ++ (σ.queue.drop k).take (n - k) = σ.queue.take n := by
          rw [← List.take_add]
          congr 1
          omega
        refine ⟨σ.queue.take k :: bs, ?_, ?_, ?_⟩
        · rw [List.flatten_cons, hbs]
          exact htake
        · rintro b hb
          rcases List.mem_cons.1 hb with rfl | hb
          · rw [List.length_take]
            omega
          · exact hlen b hb
        · rw [reapLoop, if_neg h0]
          simp only [hk]
          rw [if_neg (by omega), hsig]
          simp only [Option.bind_eq_bind, Option.bind_some, hloop]
          rw [← htake]
          simp [handed, List.foldl_append, show k + (n - k) = n by omega]

/-- What is stored, of completions with different tasks. -/
theorem Aio.handed_ls (hnd : (ea.map IoEvent.data).Nodup) :
    (∀ e ∈ ea, (σ.handed ea).ls e.data = (σ.ls e.data).store e) ∧
    ∀ t, t ∉ ea.map IoEvent.data → (σ.handed ea).ls t = σ.ls t := by
  induction ea generalizing σ with
  | nil => exact ⟨nofun, fun _ _ => rfl⟩
  | cons e ea ih =>
      rw [List.map_cons, List.nodup_cons] at hnd
      obtain ⟨hmem, hother⟩ :=
        ih (σ := { σ with ls := Function.update σ.ls e.data ((σ.ls e.data).store e) }) hnd.2
      refine ⟨fun e' he' => ?_, fun t ht => ?_⟩
      · rcases List.mem_cons.1 he' with rfl | he'
        · exact (hother _ hnd.1).trans (Function.update_self ..)
        · have hne : e'.data ≠ e.data := fun h => hnd.1 (h ▸ List.mem_map_of_mem he')
          refine (hmem e' he').trans ?_
          simp [hne]
      · rw [List.map_cons, List.mem_cons, not_or] at ht
        exact (hother t ht.2).trans (Function.update_of_ne ht.1 ..)

/-- Tasks are made ready one after the other. -/
theorem Tasks.foldl_taskready (ts : List TaskId) (T : Tasks) :
    ts.foldl Tasks.taskready T =
      { T with lists := ts.foldl (fun Q t => Q.add .taskrunqueue t) T.lists } := by
  induction ts generalizing T with
  | nil => rfl
  | cons t ts ih => exact ih (T.taskready t)

namespace Tidy

variable {S : Spots} {all : AllTask}

/-- Completions are reaped. -/
theorem reaps {ts us : List TaskId} (h : Tidy S all) (hc : S.completed = ts ++ us) :
    Tidy { S with
      lists := ts.foldl (fun Q t => Q.add .taskrunqueue t) S.lists, completed := us } all := by
  induction ts generalizing S with
  | nil =>
      obtain rfl : us = S.completed := hc.symm
      exact h
  | cons t ts ih => exact ih (S := { S with
      lists := S.lists.add .taskrunqueue t, completed := ts ++ us }) (h.reap hc) rfl

/-- The order of requests does not matter. -/
theorem permute {submitted completed : List TaskId} (h : Tidy S all)
    (hp : (submitted ++ completed).Perm (S.submitted ++ S.completed)) :
    Tidy { S with submitted := submitted, completed := completed } all := by
  obtain ⟨ls, place, hplaced, hproper, hall⟩ := h
  refine ⟨ls, place, ⟨hplaced.lists, hp.nodup_iff.2 hplaced.libaio, fun t p => ?_⟩, hproper, hall⟩
  rw [← hplaced.at_iff]
  cases p with
  | libaio => exact hp.mem_iff
  | running => rfl
  | linked l => rfl
  | recorded c s => rfl

end Tidy

/-- Completions are reaped, and the next event is looked at. -/
theorem Sound.reaps {es : List Event} {ea eb : List IoEvent} {ls : TaskId → LibaioState}
    {bs : List (List IoEvent)} (h : Sound σ.erase) (hx : σ.tasks.taskrunning = some x)
    (hpc : σ.pc x = .dispatch (.libaio :: es)) (hq : σ.queue = ea ++ eb) :
    Sound ({ σ with
      tasks := (ea.map IoEvent.data).foldl Tasks.taskready σ.tasks, queue := eb, eventfd := 0
      pc := Function.update σ.pc x (.dispatch es), ls := ls, batches := bs } : Aio).erase := by
  have hsplit : σ.erase.spots.completed = ea.map IoEvent.data ++ eb.map IoEvent.data := by
    simp [Aio.erase, Taskio.spots, hq]
  have htidy := h.tidy.reaps hsplit
  refine h.tasks hx ?_ rfl rfl rfl (fun _ => ?_) (fun _ _ _ hc => by cases hc) fun e he => ?_
  · simpa [Aio.erase, Taskio.spots, Tasks.foldl_taskready] using htidy
  · simpa [Aio.erase, Tasks.foldl_taskready] using hx
  · refine h.events x e ?_
    rw [show σ.erase.pc x = _ from hpc]
    exact List.mem_cons_of_mem _ he

/-- The tasks that wait for a request. -/
theorem Aio.data_eq (σ : Aio) :
    σ.erase.submitted ++ σ.erase.completed = σ.pending.map Request.data := by
  rw [pending, List.map_append, List.map_map]
  rfl

/-! ## Steps -/

namespace Served

/-- The tasks of requests, each of one. -/
theorem nodup_data (h : Served σ) : (σ.pending.map Request.data).Nodup := by
  obtain ⟨ls, place, hp, -, -⟩ := h.sound.tidy
  exact σ.data_eq ▸ hp.libaio

/-- A task that runs waits for no request. -/
theorem notMem_pending (h : Served σ) (hx : σ.tasks.taskrunning = some x) :
    x ∉ σ.pending.map Request.data :=
  σ.data_eq ▸ h.sound.notMem_libaio hx

/-- Nor do two completions have one task. -/
theorem nodup_take (h : Served σ) (n : ℕ) : ((σ.queue.take n).map IoEvent.data).Nodup := by
  have hnd := h.nodup_data
  rw [Aio.pending, List.map_append, List.map_map] at hnd
  exact (List.nodup_append.1 hnd).2.1.sublist ((List.take_sublist ..).map _)

theorem waiter_queue (h : Served σ) (he : e ∈ σ.queue) : (σ.ls e.data).waiter = some e.data :=
  (h.pending e.obj (List.mem_append_right _ (List.mem_map_of_mem he))).2.2

/-- **What `libaio_done` does.** -/
theorem libaioDone (h : Served σ) (hn : σ.eventfd ≠ 0) :
    ∃ bs : List (List IoEvent), bs.flatten = σ.queue.take σ.eventfd ∧
      (∀ b ∈ bs, b.length ≤ taskioNioevent) ∧
      σ.libaioDone = some { σ.handed (σ.queue.take σ.eventfd) with
        eventfd := 0, queue := σ.queue.drop σ.eventfd, batches := σ.batches ++ bs } := by
  obtain ⟨bs, hbs, hlen, hloop⟩ := Aio.reapLoop_eq (σ := { σ with eventfd := 0 })
    (fun e he => h.waiter_queue he) (Nat.lt_succ_self σ.eventfd) h.counted
  exact ⟨bs, hbs, hlen, by rw [Aio.libaioDone, if_neg hn, hloop]; rfl⟩

/-- A step that deals with no request. -/
theorem task (h : Served σ) (he : (AioAction.task act).Enabled σ)
    (hx : (AioAction.task act).exec σ = some σ') : Served σ' := by
  obtain ⟨τ', hτ', rfl⟩ := Option.map_eq_some_iff.1 hx
  have hu := h.sound.unconcerned he.1 he.2 hτ'
  have hpc : ∀ t, τ'.pc t = σ.pc t ∨ τ'.pc t ≠ .aiorw ∧ t ∉ σ.pending.map Request.data := fun t => by
    rcases hu.pc with heq | ⟨u, pc, heq, hne, hnot⟩
    · exact .inl (by rw [heq]; rfl)
    · by_cases ht : t = u
      · subst ht
        exact .inr ⟨by rw [heq, Function.update_self]; exact hne, σ.data_eq ▸ hnot⟩
      · exact .inl (by rw [heq, Function.update_of_ne ht]; rfl)
  have herase : (σ.lift τ').erase = τ' := by
    cases τ' with
    | mk tasks pc files contexts submitted completed eventfd =>
        simp only [Aio.erase, Aio.lift, Taskio.mk.injEq, true_and, and_true]
        exact ⟨hu.submitted.symm, hu.completed.symm⟩
  refine ⟨by rw [herase]; exact h.sound.step he.1 hτ', fun r hr => ?_, h.results, fun t ht => ?_, h.ids,
    by rw [show (σ.lift τ').eventfd = σ.eventfd from hu.eventfd]; exact h.counted, h.batches⟩
  · obtain ⟨hpcr, hreq, hw⟩ := h.pending r hr
    refine ⟨?_, hreq, hw⟩
    rcases hpc r.data with heq | ⟨-, hnot⟩
    · exact heq.trans hpcr
    · exact absurd (List.mem_map_of_mem hr) hnot
  · rcases hpc t with heq | ⟨hne, -⟩
    · exact h.own t (heq.symm.trans ht)
    · exact absurd ht hne

/-- `task_aiorw` -/
theorem aiorw {nbytes : BitVec 64} (h : Served σ) (he : (AioAction.aiorw x nbytes).Enabled σ)
    (hx : (AioAction.aiorw x nbytes).exec σ = some σ') : Served σ' := by
  cases hx
  have hpcx : σ.pc x = .top := he.2
  have hnot := h.notMem_pending he.1
  have he' : (TaskAction.aiorw x).Enabled σ.erase := he
  have hsound := h.sound.step he' rfl
  have hmem : ∀ r, r ∈ (σ.inflight ++ [⟨σ.submits, x, nbytes⟩]) ++ σ.queue.map IoEvent.obj ↔
      r ∈ σ.pending ∨ r = ⟨σ.submits, x, nbytes⟩ := fun r => by
    simp [Aio.pending, or_comm, or_left_comm]
  refine ⟨?_, fun r hr => ?_, h.results, fun t ht => ?_, ?_, h.counted, h.batches⟩
  · simpa [Aio.erase] using hsound
  · rcases (hmem r).1 hr with hr | rfl
    · have hne : r.data ≠ x := fun e => hnot (e ▸ List.mem_map_of_mem hr)
      obtain ⟨hpcr, hreq, hw⟩ := h.pending r hr
      simp [hne, hpcr, hreq, hw]
    · simp
  · by_cases hne : t = x
    · subst hne
      dsimp only
      rw [Function.update_self]
      exact ⟨rfl, .inl ((hmem _).2 (.inr rfl))⟩
    · simp only [Function.update_of_ne hne] at ht ⊢
      obtain ⟨hdata, hr | hr⟩ := h.own t ht
      · exact ⟨hdata, .inl ((hmem _).2 (.inl hr))⟩
      · exact ⟨hdata, .inr hr⟩
  · rw [List.range_succ]
    refine List.Perm.trans ?_ (h.ids.append_right [σ.submits])
    simp only [Aio.pending, Aio.reaped, List.map_append, List.append_assoc, List.map_cons, List.map_nil]
    refine List.Perm.append_left _ ?_
    rw [← List.append_assoc, ← List.append_assoc, List.append_assoc [_]]
    exact List.perm_append_comm

/-- `task_aiorw` returns. -/
theorem aioret (h : Served σ) (he : (AioAction.aioret x).Enabled σ)
    (hx : (AioAction.aioret x).exec σ = some σ') : Served σ' := by
  cases hx
  have hnot := h.notMem_pending he.1
  have he' : (TaskAction.aioret x).Enabled σ.erase := he
  refine ⟨h.sound.step he' rfl, fun r hr => ?_, h.results, fun t ht => ?_, h.ids,
    h.counted, h.batches⟩
  · have hne : r.data ≠ x := fun e => hnot (e ▸ List.mem_map_of_mem hr)
    obtain ⟨hpcr, hreq, hw⟩ := h.pending r hr
    exact ⟨(Function.update_of_ne hne ..).trans hpcr, hreq, hw⟩
  · by_cases hne : t = x
    · subst hne
      simp at ht
    · simp only [Function.update_of_ne hne] at ht
      exact h.own t ht

/-- The kernel is done with a request. -/
theorem complete {res : BitVec 32} (h : Served σ) (he : r ∈ σ.inflight)
    (hx : (AioAction.complete r res).exec σ = some σ') : Served σ' := by
  cases hx
  have hperm : (σ.inflight.erase r ++
      List.map IoEvent.obj (σ.queue ++ [⟨r, res.signExtend 64, 0⟩])).Perm σ.pending := by
    simp only [Aio.pending, List.map_append, List.map_cons, List.map_nil]
    rw [← List.append_assoc]
    refine (List.perm_append_singleton r _).trans ?_
    rw [← List.cons_append]
    exact (List.perm_cons_erase he).symm.append_right _
  refine ⟨⟨?_, h.sound.watched, h.sound.busy, h.sound.call, h.sound.recorded, h.sound.events⟩,
    fun r' hr' => h.pending r' (hperm.mem_iff.1 hr'), fun e he => ?_, fun t ht => ?_,
    ((hperm.append_right _).map _).trans h.ids, ?_, h.batches⟩
  · refine h.sound.tidy.permute ?_
    have := hperm.map Request.data
    rw [← σ.data_eq, List.map_append, List.map_map] at this
    exact this
  · rw [List.mem_append, List.mem_append, List.mem_singleton] at he
    rcases he with (he | rfl) | he
    · exact h.results e (List.mem_append_left _ he)
    · exact ⟨res, rfl, rfl⟩
    · exact h.results e (List.mem_append_right _ he)
  · obtain ⟨hdata, hr | hr⟩ := h.own t ht
    · exact ⟨hdata, .inl (hperm.mem_iff.2 hr)⟩
    · exact ⟨hdata, .inr hr⟩
  · have := h.counted
    simp
    omega

/-- An event of libaio. -/
theorem done (h : Served σ) (hrun : σ.tasks.taskrunning = some x)
    (hx : (AioAction.libaioDone x).exec σ = some σ') : Served σ' := by
  simp only [AioAction.exec] at hx
  split at hx
  · rename_i es hpc
    obtain ⟨τ, hτ, hσ'⟩ := Option.bind_eq_some_iff.1 hx
    cases hσ'
    have hne : σ.eventfd ≠ 0 := fun h0 => by
      rw [Aio.libaioDone, if_pos h0] at hτ
      cases hτ
    obtain ⟨bs, hbs, hlen, heq⟩ := h.libaioDone hne
    cases hτ.symm.trans heq
    have hnot := h.notMem_pending hrun
    have hsplit := List.take_append_drop σ.eventfd σ.queue
    have hpending : ∀ r, r ∈ σ.pending ↔ r ∈ σ.inflight ++ (σ.queue.drop σ.eventfd).map IoEvent.obj ∨
        r ∈ (σ.queue.take σ.eventfd).map IoEvent.obj := fun r => by
      conv_lhs => rw [Aio.pending, ← hsplit]
      simp only [List.map_append, List.mem_append, or_assoc, or_comm]
    obtain ⟨hin, hout⟩ := Aio.handed_ls (σ := σ) (h.nodup_take σ.eventfd)
    have hxpc : ∀ t, t ≠ x → Function.update σ.pc x (.dispatch es) t = σ.pc t :=
      fun t ht => Function.update_of_ne ht ..
    refine ⟨?_, fun r hr => ?_, fun e he => ?_, fun t ht => ?_, ?_, Nat.zero_le _, fun b hb => ?_⟩
    · exact h.sound.reaps hrun hpc hsplit.symm
    · have hr := (hpending r).2 (.inl hr)
      have hne : r.data ≠ x := fun e => hnot (e ▸ List.mem_map_of_mem hr)
      obtain ⟨hpcr, hreq, hw⟩ := h.pending r hr
      exact ⟨(hxpc _ hne).trans hpcr, hreq, (Aio.handed_waiter ..).trans hw⟩
    · have he : e ∈ σ.queue.drop σ.eventfd ++ (σ.batches ++ bs).flatten := he
      rw [List.flatten_append, hbs, List.mem_append, List.mem_append] at he
      refine h.results e (List.mem_append.2 ?_)
      rcases he with he | he | he
      · exact .inl (List.mem_of_mem_drop he)
      · exact .inr he
      · exact .inl (List.mem_of_mem_take he)
    · have hne : t ≠ x := fun e => by
        subst e
        simp at ht
      have ht : σ.pc t = .aiorw := (hxpc t hne).symm.trans ht
      obtain ⟨hdata, hr⟩ := h.own t ht
      refine ⟨hdata, ?_⟩
      have hreaped : ∀ e, e ∈ σ.reaped ∨ e ∈ σ.queue.take σ.eventfd → e ∈ (σ.batches ++ bs).flatten :=
        fun e he => by rw [List.flatten_append, hbs, List.mem_append]; exact he
      by_cases hm : t ∈ (σ.queue.take σ.eventfd).map IoEvent.data
      · -- its completion is one of those reaped
        obtain ⟨e, he, rfl⟩ := List.mem_map.1 hm
        have hobj := h.pending e.obj (List.mem_append_right _ (List.mem_map_of_mem (List.mem_of_mem_take he)))
        exact .inr ⟨e, hreaped e (.inr he), hobj.2.1.symm, σ.ls e.data, hin e he⟩
      · rcases hr with hr | ⟨e, he, hobj, ls, hls⟩
        · rcases (hpending _).1 hr with hr | hr
          · exact .inl hr
          · obtain ⟨e, he, hobj⟩ := List.mem_map.1 hr
            refine absurd (List.mem_map.2 ⟨e, he, ?_⟩) hm
            rw [IoEvent.data, hobj, hdata]
        · exact .inr ⟨e, hreaped e (.inl he), hobj, ls, (hout t hm).trans hls⟩
    · refine List.Perm.trans (List.Perm.map _ ?_) h.ids
      simp only [Aio.pending, Aio.reaped, List.flatten_append, hbs, List.map_append]
      conv_rhs => rw [← hsplit, List.map_append]
      simp only [List.append_assoc]
      refine List.Perm.append_left _ ?_
      rw [← List.append_assoc, ← List.append_assoc]
      refine List.perm_append_comm.trans ?_
      rw [← List.append_assoc, List.append_assoc]
    · rcases List.mem_append.1 hb with hb | hb
      · exact h.batches b hb
      · exact hlen b hb
  · cases hx

/-- **Every step keeps it.** -/
theorem step {act : AioAction} (h : Served σ) (he : act.Enabled σ) (hx : act.exec σ = some σ') :
    Served σ' := by
  cases act with
  | task act => exact h.task he hx
  | aiorw x nbytes => exact h.aiorw he hx
  | aioret x => exact h.aioret he hx
  | libaioDone x => exact h.done he.1 hx
  | complete r res => exact h.complete he hx
  | count =>
      cases hx
      exact ⟨⟨h.sound.tidy, h.sound.watched, h.sound.busy, h.sound.call, h.sound.recorded,
        h.sound.events⟩, h.pending, h.results, h.own, h.ids, he, h.batches⟩

theorem start (k : ℕ) : Served (Aio.start k) := by
  refine ⟨Sound.start k, nofun, nofun, fun t ht => ?_, List.Perm.refl _, Nat.zero_le _, nofun⟩
  simp only [Aio.start, Taskio.start] at ht
  split at ht <;> cases ht

theorem reachable (h : libaio.Reachable σ) : Served σ := by
  refine h.invariant ?_ fun _ _ _ hI he hx => hI.step he hx
  rintro _ ⟨k, rfl⟩
  exact start k

end Served

/-- **Completions are delivered**, each to its own task. No request is lost
or reaped twice. `libaio_done`, where it has read a count, reaps that many of
the completions in the order of the queue, in pieces that its array holds,
stores the result of each with the task that submitted the request, and makes
these tasks ready, once each. A task goes on in `task_aiorw` when its own
request has been reaped, and returns 0 just if the count of bytes is that it
asked for. -/
theorem completions_delivered (h : libaio.Reachable σ) :
    ((σ.pending ++ σ.reaped.map IoEvent.obj).map Request.id).Perm (List.range σ.submits) ∧
    (∀ x es, σ.tasks.taskrunning = some x → σ.pc x = .dispatch (.libaio :: es) → 0 < σ.eventfd →
      ∃ (bs : List (List IoEvent)) (σ' : Aio), (AioAction.libaioDone x).exec σ = some σ' ∧
        bs.flatten = σ.queue.take σ.eventfd ∧ bs.flatten.length = σ.eventfd ∧
        (∀ b ∈ bs, b.length ≤ taskioNioevent) ∧ σ'.batches = σ.batches ++ bs ∧
        σ'.queue = σ.queue.drop σ.eventfd ∧ σ'.eventfd = 0 ∧
        (bs.flatten.map IoEvent.data).Nodup ∧
        σ'.tasks = (bs.flatten.map IoEvent.data).foldl Tasks.taskready σ.tasks ∧
        (∀ e ∈ bs.flatten, e.obj = σ.request e.data ∧ σ'.ls e.data = (σ.ls e.data).store e) ∧
        ∀ t, t ∉ bs.flatten.map IoEvent.data → σ'.ls t = σ.ls t) ∧
    ∀ t, σ.tasks.taskrunning = some t → σ.pc t = .aiorw →
      (σ.request t).data = t ∧ ∃ res : BitVec 32, ⟨σ.request t, res.signExtend 64, 0⟩ ∈ σ.reaped ∧
        ((σ.request t).nbytes.toNat < 2 ^ 31 →
          ∃ (σ' : Aio) (rc : ℤ), (AioAction.aioret t).exec σ = some σ' ∧
            σ'.answer t = some (res.signExtend 64, rc) ∧
            (rc = 0 ↔ res.toInt = (σ.request t).nbytes.toNat)) := by
  have h := Served.reachable h
  refine ⟨h.ids, fun x es hx hpc hn => ?_, fun t hx hpc => ?_⟩
  · obtain ⟨bs, hbs, hlen, heq⟩ := h.libaioDone (by omega)
    have hnd := h.nodup_take σ.eventfd
    obtain ⟨hin, hout⟩ := Aio.handed_ls (σ := σ) hnd
    rw [← hbs] at hnd hin hout
    refine ⟨bs, _, by simp only [AioAction.exec, hpc, heq]; rfl, hbs, ?_, hlen, rfl, rfl, rfl, hnd,
      by rw [hbs]; rfl, fun e he => ⟨?_, by rw [← hin e he, hbs]⟩,
      fun t ht => by rw [← hout t ht, hbs]⟩
    · rw [hbs, List.length_take]
      have := h.counted
      omega
    · rw [hbs] at he
      exact (h.pending e.obj (List.mem_append_right _ (List.mem_map_of_mem (List.mem_of_mem_take he)))).2.1.symm
  · obtain ⟨hdata, hr | ⟨e, he, hobj, ls, hls⟩⟩ := h.own t hpc
    · exact absurd (hdata ▸ List.mem_map_of_mem hr) (h.notMem_pending hx)
    · obtain ⟨res, hres, hres2⟩ := h.results e (List.mem_append_right _ he)
      have he' : e = ⟨σ.request t, res.signExtend 64, 0⟩ := by
        cases e
        simp_all
      subst he'
      have hret := taskAiorwRet_store (r := σ.request t) ls res
      rw [← hls] at hret
      refine ⟨hdata, res, he, fun hn => ⟨_, _, rfl, ?_, taskAiorwAnswer_eq_zero_iff hret hn⟩⟩
      simp [taskAiorwAnswer, hret]

/-- A task whose request is done. -/
theorem completions_delivered_one : ∃ (σ σ' : Aio) (rc : ℤ), (AioAction.aioret 0).exec σ = some σ' ∧
    σ'.answer 0 = some (4096, rc) ∧ rc = 0 := by
  have h : ((libaio.run (.start 0) [.aiorw 0 4096, .task .taskscheduler, .task (.start 1),
      .task (.poll 1), .task .taskscheduler, .task (.yielded 1), .complete ⟨0, 0, 4096⟩ 4096, .count,
      .task (.epollWait 1 [.eventfd]), .libaioDone 1, .task (.dispatch 1), .task (.poll 1),
      .task .taskscheduler]).any fun σ => decide (σ.tasks.taskrunning = some 0 ∧ σ.pc 0 = .aiorw ∧
        σ.request 0 = ⟨0, 0, 4096⟩ ∧ σ.reaped = [⟨⟨0, 0, 4096⟩, 4096, 0⟩])) = true := by
    decide +kernel
  obtain ⟨σ, hσ, hp⟩ := System.Steps.of_run_any h
  obtain ⟨hx, hpc, hreq, hreaped⟩ := of_decide_eq_true hp
  obtain ⟨-, -, hret⟩ := completions_delivered (hσ.reachable (.init ⟨0, rfl⟩))
  obtain ⟨-, res, hmem, hans⟩ := hret 0 hx hpc
  rw [hreaped, hreq, List.mem_singleton, IoEvent.mk.injEq] at hmem
  obtain ⟨σ', rc, hex, hans, hrc⟩ := hans (by rw [hreq]; decide)
  have hres : res = 4096 := by
    have := congrArg (BitVec.setWidth 32) hmem.2.1
    rwa [setWidth_signExtend] at this
  refine ⟨σ, σ', rc, hex, by rw [hans, hmem.2.1], hrc.2 ?_⟩
  rw [hres, hreq]
  decide

end Libtask

end VmwareProto
