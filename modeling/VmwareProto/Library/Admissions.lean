import Mathlib.Data.List.Nodup
import Mathlib.Data.Nat.Notation
import Mathlib.Tactic.Common
/-!
# Who is let in

The log of a place that parties enter in one of several modes: at once, or
after they have waited. From the log alone: who is inside, who waits and in
which order, and who has been let in since a party began to wait, which is
how far it has been overtaken.
-/

namespace VmwareProto

namespace Admission

variable {α ι : Type*}

inductive Event (α ι : Type*)
  | enters (t : α) (m : ι)
  | waits (t : α) (m : ι)
  /-- a party that waited is let in -/
  | granted (t : α) (m : ι)
  | leaves (t : α) (m : ι)
  deriving DecidableEq, Repr

section

variable [DecidableEq α] [DecidableEq ι] (m : ι)

/-- Who is inside in a mode, after an event. -/
def Event.inside (ts : List α) : Event α ι → List α
  | enters t m' | granted t m' => if m' = m then ts ++ [t] else ts
  | leaves t m' => if m' = m then ts.erase t else ts
  | waits _ _ => ts

/-- Who waits for a mode, after an event. -/
def Event.queue (ts : List α) : Event α ι → List α
  | waits t m' => if m' = m then ts ++ [t] else ts
  | granted t m' => if m' = m then ts.erase t else ts
  | enters _ _ | leaves _ _ => ts

/-- Who is inside, the first to enter first. -/
def inside (log : List (Event α ι)) : List α := log.foldl (Event.inside m) []

/-- Who waits, the first to come first. -/
def waiting (log : List (Event α ι)) : List α := log.foldl (Event.queue m) []

end

/-- Who was let in, and how. -/
def Event.admits : Event α ι → Option (α × ι)
  | enters t m | granted t m => some (t, m)
  | waits _ _ | leaves _ _ => none

def admitted (log : List (Event α ι)) : List (α × ι) := log.filterMap Event.admits

/-- Who was let in in a mode. -/
def admittedIn [DecidableEq ι] (m : ι) (log : List (Event α ι)) : List α :=
  ((admitted log).filter fun x => x.2 = m).map Prod.fst

/-- **Since `t` began to wait**, in mode `m`: `post` has happened, and
`pre` before. -/
def Since (t : α) (m : ι) (log pre post : List (Event α ι)) : Prop :=
  log = pre ++ .waits t m :: post ∧ ∀ m', .waits t m' ∉ post

variable {t u : α} {m : ι} {log pre post es : List (Event α ι)}

/-! ## Going on -/

section

variable [DecidableEq α] [DecidableEq ι]

theorem inside_append (es : List (Event α ι)) :
    inside m (log ++ es) = es.foldl (Event.inside m) (inside m log) := by
  rw [inside, List.foldl_append, inside]

theorem waiting_append (es : List (Event α ι)) :
    waiting m (log ++ es) = es.foldl (Event.queue m) (waiting m log) := by
  rw [waiting, List.foldl_append, waiting]

/-- Who was inside or has been let in is inside until it leaves. -/
theorem mem_inside_append (hu : u ∈ inside m log ∨ .granted u m ∈ es)
    (he : ∀ m', .leaves u m' ∉ es) : u ∈ inside m (log ++ es) := by
  rw [inside_append]
  generalize inside m log = ts at hu ⊢
  induction es generalizing ts with
  | nil => exact hu.resolve_right List.not_mem_nil
  | cons e es ih =>
      refine ih (fun m' hm => he m' (List.mem_cons_of_mem _ hm)) _ ?_
      rw [List.mem_cons] at hu
      rcases hu with hu | rfl | hu
      · refine .inl ?_
        cases e with
        | enters t m' | granted t m' =>
            rw [Event.inside]
            split
            · exact List.mem_append_left _ hu
            · exact hu
        | waits => exact hu
        | leaves t m' =>
            have hut : u ≠ t := fun e => he m' (by rw [e]; exact List.mem_cons_self)
            rw [Event.inside]
            split
            · exact (List.mem_erase_of_ne hut).2 hu
            · exact hu
      · exact .inl (by rw [Event.inside, if_pos rfl]; simp)
      · exact .inr hu

/-- Those who are let in are inside. -/
theorem foldl_inside_granted (ts us : List α) :
    (us.map fun u => Event.granted u m).foldl (Event.inside m) ts = ts ++ us := by
  induction us generalizing ts with
  | nil => simp
  | cons u us ih => rw [List.map_cons, List.foldl_cons, ih, Event.inside, if_pos rfl,
      List.append_assoc, List.singleton_append]

theorem foldl_inside_granted_of_ne {m' : ι} (h : m' ≠ m) (ts us : List α) :
    (us.map fun u => Event.granted u m').foldl (Event.inside m) ts = ts := by
  induction us with
  | nil => rfl
  | cons u us ih => rw [List.map_cons, List.foldl_cons, Event.inside, if_neg h, ih]

/-- Those who are let in in their order leave the queue to the others. -/
theorem foldl_queue_granted (ts us : List α) :
    (us.map fun u => Event.granted u m).foldl (Event.queue m) (us ++ ts) = ts := by
  induction us with
  | nil => rfl
  | cons u us ih =>
      rw [List.map_cons, List.foldl_cons, Event.queue, if_pos rfl, List.cons_append,
        List.erase_cons_head, ih]

theorem foldl_queue_granted_of_ne {m' : ι} (h : m' ≠ m) (ts us : List α) :
    (us.map fun u => Event.granted u m').foldl (Event.queue m) ts = ts := by
  induction us with
  | nil => rfl
  | cons u us ih => rw [List.map_cons, List.foldl_cons, Event.queue, if_neg h, ih]

end

theorem admitted_append (log es : List (Event α ι)) :
    admitted (log ++ es) = admitted log ++ admitted es := List.filterMap_append

theorem admitted_granted (us : List α) :
    admitted (us.map fun u => Event.granted u m) = us.map fun u => (u, m) := by
  rw [admitted, List.filterMap_map]
  exact congrFun List.filterMap_eq_map' us

theorem admittedIn_append [DecidableEq ι] (log es : List (Event α ι)) :
    admittedIn m (log ++ es) = admittedIn m log ++ admittedIn m es := by
  rw [admittedIn, admitted_append, List.filter_append, List.map_append, admittedIn, admittedIn]

/-- A party begins to wait. -/
theorem since_waits (t : α) (m : ι) (log : List (Event α ι)) :
    Since t m (log ++ [.waits t m]) log [] := ⟨rfl, fun _ => List.not_mem_nil⟩

/-- **It goes on to wait.** -/
theorem Since.append (h : Since t m log pre post) (he : ∀ m', .waits t m' ∉ es) :
    Since t m (log ++ es) pre (post ++ es) := by
  refine ⟨?_, fun m' hm => ?_⟩
  · rw [h.1, List.append_assoc, List.cons_append]
  · rcases List.mem_append.1 hm with hm | hm
    · exact h.2 m' hm
    · exact he m' hm

end Admission

end VmwareProto
