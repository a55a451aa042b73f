import Mathlib.Data.List.Nodup
import Mathlib.Data.Nat.Notation
import Mathlib.Logic.Function.Basic
import Mathlib.Tactic.Common
/-!
# Cooperative tasks

The tasks of a thread, of which one runs until it ends, yields or goes to
sleep somewhere; others are made ready while it does. What a step of the
tasks alone does to those that sleep, and to those that were woken and have
not run yet, is nothing; each of `suspend`, `ready` and `resume` has its
lemma.
-/

namespace VmwareProto

namespace Cooperative

variable {α W : Type*}

/-- Where a task is. -/
inductive Pc (W : Type*)
  /-- there is no such task -/
  | nowhere
  /-- between two calls -/
  | top
  /-- it has gone to sleep, and not returned from where -/
  | waits (w : W)
  deriving DecidableEq, Repr

structure Threads (α W : Type*) where
  running : Option α
  runqueue : List α
  pc : α → Pc W

namespace Threads

/-- The running task is at `pc`. -/
def At (T : Threads α W) (pc : Pc W) : Prop := ∃ t ∈ T.running, T.pc t = pc

instance [DecidableEq W] (T : Threads α W) (pc : Pc W) : Decidable (T.At pc) :=
  inferInstanceAs (Decidable (∃ t ∈ T.running, _))

/-- The first task. -/
def start [DecidableEq α] (t : α) : Threads α W where
  running := some t
  runqueue := []
  pc := Function.update (fun _ => .nowhere) t .top

variable (T : Threads α W)

/-- The running task goes to sleep at `w`. -/
def suspend [DecidableEq α] (t : α) (w : W) : Threads α W :=
  { T with running := none, pc := Function.update T.pc t (.waits w) }

def ready (ts : List α) : Threads α W := { T with runqueue := T.runqueue ++ ts }

/-- The running task returns from where it slept. -/
def resume [DecidableEq α] (t : α) : Threads α W := { T with pc := Function.update T.pc t .top }

/-- Task `t` sleeps at `w`. -/
def Asleep (t : α) (w : W) : Prop :=
  T.pc t = .waits w ∧ t ∉ T.runqueue ∧ T.running ≠ some t

/-- Task `t` was woken from its sleep at `w`, and is still there. -/
def Woken (t : α) (w : W) : Prop :=
  T.pc t = .waits w ∧ (t ∈ T.runqueue ∨ T.running = some t)

instance [DecidableEq α] [DecidableEq W] (t : α) (w : W) : Decidable (T.Asleep t w) :=
  inferInstanceAs (Decidable (_ ∧ _ ∧ _))

instance [DecidableEq α] [DecidableEq W] (t : α) (w : W) : Decidable (T.Woken t w) :=
  inferInstanceAs (Decidable (_ ∧ _))

end Threads

/-- What the tasks do by themselves. -/
inductive Turn (α : Type*)
  | create (t : α)
  | exit
  | yield
  /-- the first of the run queue runs -/
  | schedule

namespace Turn

variable [DecidableEq α]

def exec (T : Threads α W) : Turn α → Option (Threads α W)
  | create t => some { T with
      runqueue := T.runqueue ++ [t], pc := Function.update T.pc t .top }
  | exit => T.running.map fun t =>
      { T with running := none, pc := Function.update T.pc t .nowhere }
  | yield => T.running.map fun t => { T with running := none, runqueue := T.runqueue ++ [t] }
  | schedule =>
      match T.runqueue with
      | [] => none
      | t :: ts => some { T with running := some t, runqueue := ts }

def Enabled (T : Threads α W) : Turn α → Prop
  | create t => T.At .top ∧ T.pc t = .nowhere
  | exit | yield => T.At .top
  | schedule => T.running = none ∧ T.runqueue ≠ []

instance [DecidableEq W] (T : Threads α W) : (a : Turn α) → Decidable (a.Enabled T)
  | create t => inferInstanceAs (Decidable (T.At .top ∧ T.pc t = .nowhere))
  | exit => inferInstanceAs (Decidable (T.At .top))
  | yield => inferInstanceAs (Decidable (T.At .top))
  | schedule => inferInstanceAs (Decidable (T.running = none ∧ T.runqueue ≠ []))

end Turn

namespace Threads

variable {T T' : Threads α W} {t u : α} {w : W} {a : Turn α}

/-- **The run queue**: each task is once where it is. -/
structure Ok (T : Threads α W) : Prop where
  nodup : T.runqueue.Nodup
  running : ∀ t, T.running = some t → t ∉ T.runqueue
  exist : ∀ t, t ∈ T.runqueue ∨ T.running = some t → T.pc t ≠ .nowhere
  runnable : ∀ t, T.pc t = .top → t ∈ T.runqueue ∨ T.running = some t

/-- **The same tasks sleep**, and the same ones have been woken. -/
structure Alike (T T' : Threads α W) : Prop where
  asleep : ∀ t w, T'.Asleep t w ↔ T.Asleep t w
  woken : ∀ t w, T'.Woken t w ↔ T.Woken t w

theorem Asleep.not_woken (h : T.Asleep t w) : ¬T.Woken t w := fun hw =>
  hw.2.elim h.2.1 h.2.2

/-- Who waits somewhere sleeps, or was woken. -/
theorem asleep_or_woken (h : T.pc t = .waits w) : T.Asleep t w ∨ T.Woken t w := by
  by_cases hr : t ∈ T.runqueue ∨ T.running = some t
  · exact .inr ⟨h, hr⟩
  · rw [not_or] at hr
    exact .inl ⟨h, hr⟩

@[simp] theorem ready_nil : T.ready [] = T := by
  rw [ready, List.append_nil]

theorem At.exists_running {pc : Pc W} (h : T.At pc) : ∃ t, T.running = some t ∧ T.pc t = pc := h

/-- Where a task that is in no sleep is changes. -/
theorem alike_of_pc (hpc : ∀ u w, T'.pc u = .waits w ↔ T.pc u = .waits w)
    (hrun : ∀ u w, T.pc u = .waits w →
      (u ∈ T'.runqueue ∨ T'.running = some u ↔ u ∈ T.runqueue ∨ T.running = some u)) :
    Alike T T' := by
  refine ⟨fun u w => ?_, fun u w => ?_⟩
  · rw [Asleep, Asleep, hpc, ← not_or, ← not_or]
    exact and_congr_right fun hu => not_congr (hrun u w hu)
  · rw [Woken, Woken, hpc]
    exact and_congr_right fun hu => hrun u w hu

variable [DecidableEq α]

theorem pc_start (t u : α) : (start t : Threads α W).pc u = if u = t then .top else .nowhere := by
  simp only [start, Function.update_apply]

theorem ok_start (t : α) : (start t : Threads α W).Ok := by
  refine ⟨List.nodup_nil, fun u _ => List.not_mem_nil, fun u hu => ?_, fun u hu => ?_⟩
  · obtain rfl := Option.some.inj (hu.resolve_left List.not_mem_nil)
    rw [pc_start, if_pos rfl]
    simp
  · rw [pc_start] at hu
    split at hu
    · rename_i e
      exact .inr (by rw [e, start])
    · cases hu

theorem start_pc_ne (t : α) (w : W) (u : α) : (start t).pc u ≠ .waits w := by
  rw [pc_start]
  split <;> simp

section

variable (h : T.Ok)
include h

theorem Ok.create (ht : T.pc t = .nowhere) :
    ∃ T', (Turn.create t).exec T = some T' ∧ T'.Ok ∧ Alike T T' := by
  have hnot : t ∉ T.runqueue := fun e => h.exist t (.inl e) ht
  have hrun : T.running ≠ some t := fun e => h.exist t (.inr e) ht
  refine ⟨_, rfl, ⟨?_, fun u hu => ?_, fun u hu => ?_, fun u hu => ?_⟩,
    alike_of_pc (fun u w => ?_) fun u w hu => ?_⟩
  · simpa [List.nodup_append] using ⟨h.nodup, fun a ha e => hnot (e ▸ ha)⟩
  · rw [List.mem_append, List.mem_singleton]
    rintro (hm | rfl)
    · exact h.running u hu hm
    · exact hrun hu
  · simp only [Function.update_apply]
    split
    · simp
    · rename_i hut
      refine h.exist u (hu.imp_left fun hm => ?_)
      rw [List.mem_append, List.mem_singleton] at hm
      exact hm.resolve_right hut
  · simp only [Function.update_apply] at hu
    split at hu
    · rename_i e
      exact .inl (by simp [e])
    · exact (h.runnable u hu).imp_left fun hm => List.mem_append_left _ hm
  · simp only [Function.update_apply]
    split
    · rename_i e
      rw [e, ht]
      simp
    · exact Iff.rfl
  · have hut : u ≠ t := by
      rintro rfl
      rw [ht] at hu
      cases hu
    rw [List.mem_append, List.mem_singleton, or_iff_left hut]

variable (hrun : T.running = some t)
include hrun

/-- The running task leaves the others as they are. -/
theorem Ok.stops (pc : Pc W) (hpc : pc ≠ .top) :
    ({ T with running := none, pc := Function.update T.pc t pc } : Threads α W).Ok := by
  have hnot := h.running t hrun
  refine ⟨h.nodup, fun u hu => absurd hu (Option.some_ne_none u).symm, fun u hu => ?_,
    fun u hu => ?_⟩
  · have hm := hu.resolve_right (Option.some_ne_none u).symm
    have hut : u ≠ t := ne_of_mem_of_not_mem hm hnot
    simp only [Function.update_of_ne hut]
    exact h.exist u (.inl hm)
  · simp only [Function.update_apply] at hu
    split at hu
    · exact absurd hu hpc
    · rename_i hut
      refine (h.runnable u hu).imp_right fun e => ?_
      rw [hrun] at e
      exact absurd (Option.some.inj e).symm hut

theorem Ok.exit (ht : T.pc t = .top) : ∃ T', Turn.exit.exec T = some T' ∧ T'.Ok ∧ Alike T T' := by
  refine ⟨_, by rw [Turn.exec, hrun]; rfl, h.stops hrun .nowhere (by simp),
    alike_of_pc (fun u w => ?_) fun u w hu => ?_⟩
  · simp only [Function.update_apply]
    split
    · rename_i e
      rw [e, ht]
      simp
    · exact Iff.rfl
  · have hut : t ≠ u := by
      rintro rfl
      rw [ht] at hu
      cases hu
    simp [hrun, hut]

theorem Ok.yield : ∃ T', Turn.yield.exec T = some T' ∧ T'.Ok ∧ Alike T T' := by
  have hnot := h.running t hrun
  have hiff : ∀ u, u ∈ T.runqueue ++ [t] ∨ none = some u ↔ u ∈ T.runqueue ∨ T.running = some u :=
    fun u => by simp [hrun, eq_comm]
  have hx : Turn.yield.exec T =
      some { T with running := none, runqueue := T.runqueue ++ [t] } := by rw [Turn.exec, hrun]; rfl
  refine ⟨_, hx, ⟨?_, fun u hu => absurd hu (Option.some_ne_none u).symm,
    fun u hu => h.exist u ((hiff u).1 hu), fun u hu => (hiff u).2 (h.runnable u hu)⟩,
    alike_of_pc (fun u w => Iff.rfl) fun u w _ => hiff u⟩
  simpa [List.nodup_append] using ⟨h.nodup, fun a ha e => hnot (e ▸ ha)⟩

/-- **The running task goes to sleep.** -/
theorem Ok.suspend (ht : T.pc t = .top) (w : W) : (T.suspend t w).Ok ∧
    (∀ u v, (T.suspend t w).Asleep u v ↔ T.Asleep u v ∨ u = t ∧ v = w) ∧
      ∀ u v, (T.suspend t w).Woken u v ↔ T.Woken u v := by
  have hnot := h.running t hrun
  refine ⟨h.stops hrun (.waits w) (by simp), fun u v => ?_, fun u v => ?_⟩
  · by_cases hut : u = t
    · simp [Asleep, Threads.suspend, hut, hnot, ht, eq_comm]
    · simp [Asleep, Threads.suspend, hut, hrun, Ne.symm hut]
  · by_cases hut : u = t
    · simp [Woken, Threads.suspend, hut, hnot, ht]
    · simp [Woken, Threads.suspend, hut, hrun, Ne.symm hut]

/-- **A task that was woken returns.** -/
theorem Ok.resume : (T.resume t).Ok ∧ (∀ u v, (T.resume t).Asleep u v ↔ T.Asleep u v) ∧
    ∀ u v, (T.resume t).Woken u v ↔ T.Woken u v ∧ u ≠ t := by
  refine ⟨⟨h.nodup, h.running, fun u hu => ?_, fun u hu => ?_⟩, fun u v => ?_, fun u v => ?_⟩
  · simp only [Threads.resume, Function.update_apply]
    split
    · simp
    · exact h.exist u hu
  · by_cases hut : u = t
    · exact .inr (by rw [hut]; exact hrun)
    · simp only [Threads.resume, Function.update_of_ne hut] at hu
      exact h.runnable u hu
  · by_cases hut : u = t
    · simp [Asleep, Threads.resume, hut, hrun]
    · simp [Asleep, Threads.resume, hut]
  · by_cases hut : u = t
    · simp [Woken, Threads.resume, hut]
    · simp [Woken, Threads.resume, hut]

omit hrun

theorem Ok.schedule (hrun : T.running = none) (hq : T.runqueue ≠ []) :
    ∃ T', Turn.schedule.exec T = some T' ∧ T'.Ok ∧ Alike T T' := by
  obtain ⟨t, ts, hq⟩ := List.exists_cons_of_ne_nil hq
  have hnd := h.nodup
  rw [hq, List.nodup_cons] at hnd
  have hiff : ∀ u, u ∈ ts ∨ some t = some u ↔ u ∈ T.runqueue ∨ T.running = some u := fun u => by
    simp [hq, hrun, or_comm, eq_comm]
  have hx : Turn.schedule.exec T = some { T with running := some t, runqueue := ts } := by
    simp only [Turn.exec, hq]
  refine ⟨_, hx, ⟨hnd.2, fun u hu => ?_, fun u hu => h.exist u ((hiff u).1 hu),
    fun u hu => (hiff u).2 (h.runnable u hu)⟩,
    alike_of_pc (fun u w => Iff.rfl) fun u w _ => hiff u⟩
  obtain rfl := Option.some.inj hu
  exact hnd.1

/-- **Sleeping tasks are made ready.** -/
theorem Ok.ready (ts : List α) (hts : ts.Nodup) (hs : ∀ u ∈ ts, ∃ w, T.Asleep u w) : (T.ready ts).Ok ∧
    (∀ u v, (T.ready ts).Asleep u v ↔ T.Asleep u v ∧ u ∉ ts) ∧
      ∀ u v, (T.ready ts).Woken u v ↔ T.Woken u v ∨ T.Asleep u v ∧ u ∈ ts := by
  refine ⟨⟨?_, fun u hu => ?_, fun u hu => ?_, fun u hu => ?_⟩, fun u v => ?_, fun u v => ?_⟩
  · refine List.nodup_append.2 ⟨h.nodup, hts, fun a ha b hb => ?_⟩
    rintro rfl
    obtain ⟨w, hw⟩ := hs a hb
    exact hw.2.1 ha
  · rw [Threads.ready, List.mem_append]
    rintro (hm | hm)
    · exact h.running u hu hm
    · obtain ⟨w, hw⟩ := hs u hm
      exact hw.2.2 hu
  · rw [Threads.ready, List.mem_append] at hu
    rcases hu with (hm | hm) | hm
    · exact h.exist u (.inl hm)
    · obtain ⟨w, hw⟩ := hs u hm
      show T.pc u ≠ _
      rw [hw.1]
      simp
    · exact h.exist u (.inr hm)
  · exact (h.runnable u hu).imp_left fun hm => List.mem_append_left _ hm
  · simp only [Asleep, Threads.ready, List.mem_append, not_or]
    tauto
  · simp only [Woken, Asleep, Threads.ready, List.mem_append]
    tauto

/-- **A step of the tasks alone.** -/
theorem Ok.turn (he : a.Enabled T) : ∃ T', a.exec T = some T' ∧ T'.Ok ∧ Alike T T' := by
  cases a with
  | create t => exact h.create he.2
  | exit =>
      obtain ⟨t, hrun, ht⟩ := he.exists_running
      exact h.exit hrun ht
  | yield =>
      obtain ⟨t, hrun, -⟩ := he.exists_running
      exact h.yield hrun
  | schedule => exact h.schedule he.1 he.2

end

end Threads

end Cooperative

end VmwareProto
