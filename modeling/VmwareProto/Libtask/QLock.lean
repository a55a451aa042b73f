import Mathlib.Data.List.Nodup
import Mathlib.Data.Nat.Notation
import Mathlib.Logic.Function.Basic
import Mathlib.Tactic.Common
/-!
# `QLock`

libtask's queueing lock. `qunlock` hands the lock to the first waiter, who
owns it from then on and runs later; it checks that the lock is owned, not
by whom. `Serves` is what the lock and its tasks' program points keep as
long as only the owner unlocks.
-/

namespace VmwareProto

namespace Libtask

abbrev TaskId := ℕ

/-- `QLock`. -/
structure QLock where
  owner : Option TaskId
  waiting : List TaskId
  deriving DecidableEq, Repr

namespace QLock

/-- `qlock`, up to its return or to `taskswitch`. -/
def qlock (l : QLock) (t : TaskId) : QLock :=
  match l.owner with
  | none => { l with owner := some t }
  | some _ => { l with waiting := l.waiting ++ [t] }

/-- `qunlock`; `none` is its `abort` on a free lock. -/
def qunlock (l : QLock) : Option QLock :=
  match l.owner with
  | none => none
  | some _ => some ⟨l.waiting.head?, l.waiting.tail⟩

/-- Where a task stands with respect to the lock: a task is `waiting` from
its call of `qlock` until it runs again, also when it owns the lock by
then. -/
inductive Phase
  | out
  | waiting
  | holding
  deriving DecidableEq, Repr

/-- **The lock serves its tasks**: one owner, who alone is past `qlock`,
and everybody else in the queue once. -/
structure Serves (l : QLock) (ph : TaskId → Phase) : Prop where
  free : l.owner = none → l.waiting = []
  nodup : l.waiting.Nodup
  queued : ∀ t ∈ l.waiting, ph t = .waiting ∧ l.owner ≠ some t
  owner : ∀ t, l.owner = some t → ph t ≠ .out
  waits : ∀ t, ph t = .waiting → t ∈ l.waiting ∨ l.owner = some t
  holds : ∀ t, ph t = .holding → l.owner = some t

variable {l l' : QLock} {ph : TaskId → Phase} {t : TaskId}

/-- The lock is taken at once. -/
theorem Serves.qlock_free (h : l.Serves ph) (ho : l.owner = none) :
    (l.qlock t).Serves (Function.update ph t .holding) := by
  have hw := h.free ho
  simp only [qlock, ho]
  refine ⟨by simp, h.nodup, by simp [hw], fun s hs => ?_, fun s hs => ?_, fun s hs => ?_⟩
  · obtain rfl : t = s := by simpa using hs
    simp
  · by_cases hst : s = t
    · simp [hst]
    · rw [Function.update_of_ne hst] at hs
      rcases h.waits s hs with hm | hm
      · exact .inl hm
      · rw [ho] at hm; cases hm
  · by_cases hst : s = t
    · simp [hst]
    · rw [Function.update_of_ne hst] at hs
      have := h.holds s hs
      rw [ho] at this; cases this

/-- The task queues up. -/
theorem Serves.qlock_busy (h : l.Serves ph) (ht : ph t = .out) {o : TaskId} (ho : l.owner = some o) :
    (l.qlock t).Serves (Function.update ph t .waiting) := by
  have hto : o ≠ t := fun e => h.owner o ho (e ▸ ht)
  have htw : t ∉ l.waiting := fun hm => by have := (h.queued t hm).1; rw [ht] at this; cases this
  simp only [qlock, ho]
  refine ⟨by simp, ?_, fun s hs => ?_, fun s hs => ?_, fun s hs => ?_, fun s hs => ?_⟩
  · exact List.nodup_append.2 ⟨h.nodup, by simp, fun a ha b hb => by
      obtain rfl : b = t := by simpa using hb
      exact fun e => htw (e ▸ ha)⟩
  · rcases List.mem_append.1 hs with hs | hs
    · have hst : s ≠ t := fun e => htw (e ▸ hs)
      rw [Function.update_of_ne hst]
      exact ⟨(h.queued s hs).1, by rw [← ho]; exact (h.queued s hs).2⟩
    · obtain rfl : s = t := by simpa using hs
      exact ⟨by simp, by simpa using hto⟩
  · obtain rfl : o = s := by simpa using hs
    rw [Function.update_of_ne hto]
    exact h.owner o ho
  · by_cases hst : s = t
    · simp [hst]
    · rw [Function.update_of_ne hst] at hs
      rcases h.waits s hs with hm | hm
      · exact .inl (List.mem_append_left _ hm)
      · exact .inr (by rw [← ho]; exact hm)
  · have hst : s ≠ t := by rintro rfl; simp at hs
    rw [Function.update_of_ne hst] at hs
    rw [← ho]; exact h.holds s hs

/-- A waiter that was handed the lock runs again. -/
theorem Serves.resume (h : l.Serves ph) (ho : l.owner = some t) :
    l.Serves (Function.update ph t .holding) := by
  refine ⟨h.free, h.nodup, fun s hs => ?_, fun s hs => ?_, fun s hs => ?_, fun s hs => ?_⟩
  · have hst : s ≠ t := fun e => (h.queued s hs).2 (e ▸ ho)
    rw [Function.update_of_ne hst]
    exact h.queued s hs
  · obtain rfl : t = s := by simpa [ho] using hs
    simp
  · by_cases hst : s = t
    · simp [hst, ho]
    · rw [Function.update_of_ne hst] at hs
      exact h.waits s hs
  · by_cases hst : s = t
    · rw [hst, ho]
    · rw [Function.update_of_ne hst] at hs
      exact h.holds s hs

/-- **The owner unlocks**: the lock goes to the first in the queue. -/
theorem Serves.qunlock (h : l.Serves ph) (ht : ph t = .holding) (hu : l.qunlock = some l') :
    l'.Serves (Function.update ph t .out) := by
  have ho := h.holds t ht
  simp only [QLock.qunlock, ho, Option.some.injEq] at hu
  subst hu
  have hout : ∀ s, ph s = .holding → s = t := fun s hs => by
    have := h.holds s hs
    rw [ho] at this
    exact (Option.some.inj this).symm
  have hne : ∀ s ∈ l.waiting, s ≠ t := fun s hs e => (h.queued s hs).2 (e ▸ ho)
  refine ⟨fun hh => ?_, h.nodup.tail, fun s hs => ?_, fun s hs => ?_, fun s hs => ?_, fun s hs => ?_⟩
  · simp only [List.head?_eq_none_iff] at hh
    simp [hh]
  · have hm := List.mem_of_mem_tail hs
    rw [Function.update_of_ne (hne s hm)]
    refine ⟨(h.queued s hm).1, fun e => ?_⟩
    obtain ⟨ws, hws⟩ := List.head?_eq_some_iff.1 e
    have hnd := h.nodup
    rw [hws, List.nodup_cons] at hnd
    rw [hws] at hs
    exact hnd.1 hs
  · have hm : s ∈ l.waiting := List.mem_of_mem_head? hs
    rw [Function.update_of_ne (hne s hm), (h.queued s hm).1]
    simp
  · have hst : s ≠ t := by rintro rfl; simp at hs
    rw [Function.update_of_ne hst] at hs
    rcases h.waits s hs with hm | hm
    · cases hw : l.waiting with
      | nil => rw [hw] at hm; cases hm
      | cons w ws =>
          rw [hw] at hm
          rcases List.mem_cons.1 hm with rfl | hm
          · exact .inr rfl
          · exact .inl hm
    · rw [ho] at hm
      exact absurd (Option.some.inj hm).symm hst
  · have hst : s ≠ t := by rintro rfl; simp at hs
    rw [Function.update_of_ne hst] at hs
    exact absurd (hout s hs) hst

/-- Only the owner is past `qlock`, so its `qunlock` does not abort. -/
theorem Serves.qunlock_isSome (h : l.Serves ph) (ht : ph t = .holding) :
    ∃ l', l.qunlock = some l' := by
  rw [QLock.qunlock, h.holds t ht]
  exact ⟨_, rfl⟩

end QLock

end Libtask

end VmwareProto
