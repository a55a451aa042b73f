import Mathlib.Data.List.Nodup
import Mathlib.Tactic.Common
/-!
# Linearizable histories

An object is given by what an operation makes of a state and what it
returns. A history is what is seen of a run from outside: operations are
called and return. `Linearizes` says that the object, taking the
operations one after the other in some order, accounts for the history: the
order has every operation that returned, with the result it returned, and
those that returned before others were called come first. One rule for
each thing that can happen: an operation is called, takes effect, returns.
-/

namespace VmwareProto

namespace Linear

open scoped List

/-- What is seen of a run from outside. Operations are told apart by
numbers. -/
inductive Event (O R : Type*)
  | call (i : ℕ) (o : O)
  | ret (i : ℕ) (r : R)
  deriving DecidableEq, Repr

/-- An operation with its result. -/
structure Entry (O R : Type*) where
  id : ℕ
  op : O
  res : R
  deriving DecidableEq, Repr

variable {O R S : Type*} {apply : S → O → S × R} {s t : S} {h : List (Event O R)}
  {es : List (Entry O R)} {e : Entry O R} {i : ℕ} {o : O} {r : R}

/-- Which operation is called. -/
def Event.called : Event O R → Option ℕ
  | .call i _ => some i
  | .ret _ _ => none

/-- Which operation returns. -/
def Event.returned : Event O R → Option ℕ
  | .call _ _ => none
  | .ret i _ => some i

/-- Every operation is called once, and returns at most once, after that. -/
structure WellFormed (h : List (Event O R)) : Prop where
  calls : (h.filterMap Event.called).Nodup
  rets : (h.filterMap Event.returned).Nodup
  after : ∀ i r, .ret i r ∈ h → ∃ o, [.call i o, .ret i r] <+ h

/-- The object takes the operations one after the other. -/
def Runs (apply : S → O → S × R) : S → List (Entry O R) → S → Prop
  | s, [], t => t = s
  | s, e :: es, t => e.res = (apply s e.op).2 ∧ Runs apply (apply s e.op).1 es t

/-- **The order `es` accounts for the history**, and takes the object from
`s` to `t`. What is in it was called, and may not have returned yet. -/
structure Linearizes (apply : S → O → S × R) (s : S) (h : List (Event O R)) (es : List (Entry O R))
    (t : S) : Prop where
  nodup : (es.map Entry.id).Nodup
  called : ∀ e ∈ es, .call e.id e.op ∈ h
  returned : ∀ i r, .ret i r ∈ h → ∃ e ∈ es, e.id = i ∧ e.res = r
  ordered : ∀ e ∈ es, ∀ e' ∈ es, [.ret e.id e.res, .call e'.id e'.op] <+ h → [e, e'] <+ es
  runs : Runs apply s es t

/-- Two in a row, of which the second may be the last. -/
theorem pair_concat {α : Type*} {l : List α} {a b c : α} (hs : [a, b] <+ l ++ [c]) :
    [a, b] <+ l ∨ a ∈ l ∧ b = c := by
  obtain ⟨l₁, l₂, he, h₁, h₂⟩ := List.sublist_append_iff.1 hs
  rcases l₁ with _ | ⟨x, _ | ⟨y, _ | ⟨z, l₁⟩⟩⟩
  · rw [List.nil_append] at he
    have hlen := h₂.length_le
    rw [← he] at hlen
    exact absurd hlen (by simp)
  · obtain ⟨rfl, rfl⟩ := List.cons.inj he
    exact .inr ⟨h₁.subset (by simp), List.mem_singleton.1 (h₂.subset (by simp))⟩
  · simp only [List.cons_append, List.nil_append, List.cons.injEq] at he
    obtain ⟨rfl, rfl, -⟩ := he
    exact .inl h₁
  · simp at he

/-! ## Histories -/

theorem mem_called {h : List (Event O R)} : i ∈ h.filterMap Event.called ↔ ∃ o, .call i o ∈ h := by
  rw [List.mem_filterMap]
  constructor
  · rintro ⟨x, hx, hi⟩
    cases x with
    | call j o => exact ⟨o, Option.some.inj hi ▸ hx⟩
    | ret j r => cases hi
  · rintro ⟨o, ho⟩
    exact ⟨_, ho, rfl⟩

theorem mem_returned {h : List (Event O R)} : i ∈ h.filterMap Event.returned ↔ ∃ r, .ret i r ∈ h := by
  rw [List.mem_filterMap]
  constructor
  · rintro ⟨x, hx, hi⟩
    cases x with
    | call j o => cases hi
    | ret j r => exact ⟨r, Option.some.inj hi ▸ hx⟩
  · rintro ⟨r, hr⟩
    exact ⟨_, hr, rfl⟩

namespace WellFormed

theorem nil : WellFormed ([] : List (Event O R)) := ⟨.nil, .nil, fun _ _ hr => absurd hr (by simp)⟩

/-- A new operation is called. -/
theorem call (hw : WellFormed h) (hi : ∀ o, .call i o ∉ h) (o : O) : WellFormed (h ++ [.call i o]) where
  calls := by
    rw [List.filterMap_append]
    refine hw.calls.append (by simp [Event.called]) ?_
    simp only [Event.called, List.filterMap_cons, List.filterMap_nil, List.disjoint_singleton]
    exact fun hm => (mem_called.1 hm).elim hi
  rets := by
    rw [List.filterMap_append, show [Event.call i o].filterMap Event.returned = [] from rfl,
      List.append_nil]
    exact hw.rets
  after j r hr := by
    rw [List.mem_append, List.mem_singleton] at hr
    rcases hr with hr | hr
    · obtain ⟨o', ho'⟩ := hw.after j r hr
      exact ⟨o', ho'.trans (List.sublist_append_left ..)⟩
    · cases hr

/-- An operation that was called and has not returned returns. -/
theorem ret (hw : WellFormed h) (hc : .call i o ∈ h) (hi : ∀ r, .ret i r ∉ h) (r : R) :
    WellFormed (h ++ [.ret i r]) where
  calls := by
    rw [List.filterMap_append, show [Event.ret i r].filterMap Event.called = [] from rfl,
      List.append_nil]
    exact hw.calls
  rets := by
    rw [List.filterMap_append]
    refine hw.rets.append (by simp [Event.returned]) ?_
    simp only [Event.returned, List.filterMap_cons, List.filterMap_nil, List.disjoint_singleton]
    exact fun hm => (mem_returned.1 hm).elim hi
  after j r' hr := by
    rw [List.mem_append, List.mem_singleton] at hr
    rcases hr with hr | hr
    · obtain ⟨o', ho'⟩ := hw.after j r' hr
      exact ⟨o', ho'.trans (List.sublist_append_left ..)⟩
    · obtain ⟨rfl, rfl⟩ := Event.ret.inj hr
      exact ⟨o, (List.singleton_sublist.2 hc).append (List.Sublist.refl [Event.ret j r'])⟩

end WellFormed

/-! ## The object -/

/-- One more operation. -/
theorem Runs.concat (hr : Runs apply s es t) (he : e.res = (apply t e.op).2) :
    Runs apply s (es ++ [e]) (apply t e.op).1 := by
  induction es generalizing s with
  | nil =>
      obtain rfl : t = s := hr
      exact ⟨he, rfl⟩
  | cons x es ih => exact ⟨hr.1, ih hr.2⟩

/-! ## The three rules -/

namespace Linearizes

theorem nil (apply : S → O → S × R) (s : S) : Linearizes apply s [] [] s where
  nodup := .nil
  called _ he := absurd he (by simp)
  returned _ _ hr := absurd hr (by simp)
  ordered _ he := absurd he (by simp)
  runs := rfl

/-- **A new operation is called**: the order stays. -/
theorem call (hl : Linearizes apply s h es t) (hi : ∀ o, .call i o ∉ h) (o : O) :
    Linearizes apply s (h ++ [.call i o]) es t where
  nodup := hl.nodup
  called e he := List.mem_append_left _ (hl.called e he)
  returned j r hr := by
    rw [List.mem_append, List.mem_singleton] at hr
    rcases hr with hr | hr
    · exact hl.returned j r hr
    · cases hr
  ordered e he e' he' hs := by
    rcases pair_concat hs with hs | ⟨-, heq⟩
    · exact hl.ordered e he e' he' hs
    · obtain ⟨hid, -⟩ := Event.call.inj heq
      exact absurd (hid ▸ hl.called e' he') (hi e'.op)
  runs := hl.runs

/-- **An operation that was called takes effect**: it is the next. -/
theorem effect (hl : Linearizes apply s h es t) (hc : .call e.id e.op ∈ h)
    (hn : ∀ e' ∈ es, e'.id ≠ e.id) (he : e.res = (apply t e.op).2) :
    Linearizes apply s h (es ++ [e]) (apply t e.op).1 where
  nodup := by
    rw [List.map_append]
    refine hl.nodup.append (by simp) ?_
    simp only [List.map_cons, List.map_nil, List.disjoint_singleton, List.mem_map, not_exists, not_and]
    exact hn
  called e' he' := by
    rw [List.mem_append, List.mem_singleton] at he'
    rcases he' with he' | rfl
    · exact hl.called e' he'
    · exact hc
  returned j r hr := by
    obtain ⟨e', he', hid⟩ := hl.returned j r hr
    exact ⟨e', List.mem_append_left _ he', hid⟩
  ordered e₁ he₁ e₂ he₂ hs := by
    rw [List.mem_append, List.mem_singleton] at he₁ he₂
    -- what has returned had taken effect
    have hold : e₁ ∈ es := by
      obtain ⟨e', he', hid, -⟩ := hl.returned _ _ (hs.subset List.mem_cons_self)
      rcases he₁ with he₁ | rfl
      · exact he₁
      · exact absurd hid (hn e' he')
    rcases he₂ with he₂ | rfl
    · exact (hl.ordered e₁ hold e₂ he₂ hs).trans (List.sublist_append_left ..)
    · exact (List.singleton_sublist.2 hold).append (List.Sublist.refl [e₂])
  runs := hl.runs.concat he

/-- **An operation returns** with the result it took effect with. -/
theorem ret (hl : Linearizes apply s h es t) (he : e ∈ es) :
    Linearizes apply s (h ++ [.ret e.id e.res]) es t where
  nodup := hl.nodup
  called e' he' := List.mem_append_left _ (hl.called e' he')
  returned j r hr := by
    rw [List.mem_append, List.mem_singleton] at hr
    rcases hr with hr | hr
    · exact hl.returned j r hr
    · obtain ⟨rfl, rfl⟩ := Event.ret.inj hr
      exact ⟨e, he, rfl, rfl⟩
  ordered e₁ he₁ e₂ he₂ hs := by
    rcases pair_concat hs with hs | ⟨-, heq⟩
    · exact hl.ordered e₁ he₁ e₂ he₂ hs
    · cases heq
  runs := hl.runs

end Linearizes

end Linear

end VmwareProto
