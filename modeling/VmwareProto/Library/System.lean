import Mathlib.Data.List.Basic
import Mathlib.Tactic.Common
/-!
# Systems that may fault

A system is a step function on states whose actions carry every choice
made outside it: which task runs, what the allocator answers, how many
bytes a write takes. `exec` is partial, and `none` is a fault: an
assertion that fails or a pointer that leads nowhere. A property of every
run is an invariant of `Reachable`; `Inductive` is what it takes, and it
gives the absence of faults along the way. `only` cuts a system down to
the steps that meet a condition, which is how a property that holds of
some runs is stated of exactly those.
-/

namespace VmwareProto

/-- States, the actions possible in a state, and what they do. -/
structure System (σ α : Type*) where
  init : σ → Prop
  enabled : σ → α → Prop
  exec : σ → α → Option σ

namespace System

variable {σ τ α : Type*} {S : System σ α} {I : σ → Prop} {s s' : σ} {a : α}

/-- The states of all runs, of any length and in any order of steps. -/
inductive Reachable (S : System σ α) : σ → Prop
  | init {s : σ} : S.init s → Reachable S s
  | step {s s' : σ} {a : α} :
      Reachable S s → S.enabled s a → S.exec s a = some s' → Reachable S s'

/-- Several steps in a row, by their actions. -/
inductive Steps (S : System σ α) : σ → List α → σ → Prop
  | nil {s : σ} : Steps S s [] s
  | cons {s t u : σ} {a : α} {as : List α} :
      S.enabled s a → S.exec s a = some t → Steps S t as u → Steps S s (a :: as) u

theorem Steps.reachable {as : List α} (h : Steps S s as s') (hs : Reachable S s) :
    Reachable S s' := by
  induction h with
  | nil => exact hs
  | cons he hx _ ih => exact ih (hs.step he hx)

theorem Steps.append {as bs : List α} {t u : σ} (h : Steps S s as t) (h' : Steps S t bs u) :
    Steps S s (as ++ bs) u := by
  induction h with
  | nil => exact h'
  | cons he hx _ ih => exact .cons he hx (ih h')

/-- Actions computed one after the other, each of them possible. -/
def run (S : System σ α) [∀ s a, Decidable (S.enabled s a)] : σ → List α → Option σ
  | s, [] => some s
  | s, a :: as => if S.enabled s a then (S.exec s a).bind fun t => run S t as else none

theorem Steps.of_run [∀ s a, Decidable (S.enabled s a)] {as : List α}
    (h : S.run s as = some s') : Steps S s as s' := by
  induction as generalizing s with
  | nil => obtain rfl := Option.some.inj h; exact .nil
  | cons a as ih =>
      rw [run] at h
      split at h
      · rename_i he
        obtain ⟨t, hx, h⟩ := Option.bind_eq_some_iff.1 h
        exact .cons he hx (ih h)
      · cases h

/-- A run that was computed, with what was found at its end. -/
theorem Steps.of_run_any [∀ s a, Decidable (S.enabled s a)] {as : List α} {p : σ → Bool}
    (h : (S.run s as).any p = true) : ∃ t, Steps S s as t ∧ p t = true := by
  cases hr : S.run s as with
  | none => rw [hr] at h; cases h
  | some t => rw [hr] at h; exact ⟨t, .of_run hr, h⟩

/-- What holds at the start and is kept by the steps that return holds of
every run, faults or not. -/
theorem Reachable.invariant (hi : ∀ s, S.init s → I s)
    (hstep : ∀ s a s', I s → S.enabled s a → S.exec s a = some s' → I s')
    (hr : Reachable S s) : I s := by
  induction hr with
  | init hs => exact hi _ hs
  | step _ he hx ih => exact hstep _ _ _ ih he hx

/-- An invariant: it holds at the start, and every step possible where it
holds runs to the end and keeps it. -/
structure Inductive (S : System σ α) (I : σ → Prop) : Prop where
  init : ∀ s, S.init s → I s
  step : ∀ s a, I s → S.enabled s a → ∃ s', S.exec s a = some s' ∧ I s'

/-- **The invariant rule.** -/
theorem Inductive.reachable (h : Inductive S I) (hr : Reachable S s) : I s := by
  refine hr.invariant h.init fun s a s' hI he hx => ?_
  obtain ⟨s'', hx', hI'⟩ := h.step s a hI he
  rw [hx] at hx'
  exact Option.some.inj hx' ▸ hI'

/-- **No fault**: where an invariant holds, every possible step returns. -/
theorem Inductive.no_fault (h : Inductive S I) (hr : Reachable S s) (he : S.enabled s a) :
    ∃ s', S.exec s a = some s' := by
  obtain ⟨s', hx, -⟩ := h.step _ _ (h.reachable hr) he
  exact ⟨s', hx⟩

/-- The system whose steps all meet a condition on the state they start
in and the action taken. -/
def only (S : System σ α) (P : σ → α → Prop) : System σ α where
  init := S.init
  enabled s a := S.enabled s a ∧ P s a
  exec := S.exec

instance {P : σ → α → Prop} [∀ s a, Decidable (S.enabled s a)] [∀ s a, Decidable (P s a)] (s : σ)
    (a : α) : Decidable ((S.only P).enabled s a) := inferInstanceAs (Decidable (_ ∧ _))

theorem Steps.only {P : σ → α → Prop} {as : List α} (h : Steps S s as s')
    (hP : ∀ s, ∀ a ∈ as, P s a) : Steps (S.only P) s as s' := by
  induction h with
  | nil => exact .nil
  | cons he hx _ ih =>
      exact .cons ⟨he, hP _ _ (by simp)⟩ hx (ih fun s a ha => hP s a (List.mem_cons_of_mem _ ha))

/-- A run that meets one condition meets what follows from it. -/
theorem Steps.mono {P Q : σ → α → Prop} {as : List α} (h : Steps (S.only P) s as s')
    (hPQ : ∀ s, ∀ a ∈ as, P s a → Q s a) : Steps (S.only Q) s as s' := by
  induction h with
  | nil => exact .nil
  | cons he hx _ ih =>
      refine .cons ⟨he.1, hPQ _ _ List.mem_cons_self he.2⟩ hx (ih fun s a ha => ?_)
      exact hPQ s a (List.mem_cons_of_mem _ ha)

/-- A condition that every step meets cuts nothing off. -/
theorem Reachable.to_only {P : σ → α → Prop} (h : Reachable S s)
    (hP : ∀ s a, S.enabled s a → P s a) : Reachable (S.only P) s := by
  induction h with
  | init hs => exact .init hs
  | step _ he hx ih => exact ih.step ⟨he, hP _ _ he⟩ hx

/-- A run that meets one condition meets what follows from it. -/
theorem Reachable.mono {P Q : σ → α → Prop} (h : Reachable (S.only P) s)
    (hPQ : ∀ s a, P s a → Q s a) : Reachable (S.only Q) s := by
  induction h with
  | init hs => exact .init hs
  | step _ he hx ih => exact ih.step ⟨he.1, hPQ _ _ he.2⟩ hx

theorem Reachable.of_only {P : σ → α → Prop} (h : Reachable (S.only P) s) : Reachable S s := by
  induction h with
  | init hs => exact .init hs
  | step _ he hx ih => exact ih.step he.1 hx

/-- The same steps under other conditions, which may be easier to check. -/
def enabledBy (S : System σ α) (E : σ → α → Prop) : System σ α := { S with enabled := E }

instance {E : σ → α → Prop} [∀ s a, Decidable (E s a)] (s : σ) (a : α) :
    Decidable ((S.enabledBy E).enabled s a) := inferInstanceAs (Decidable (E s a))

/-- Conditions that make the steps possible where a run can come. -/
theorem Steps.of_enabledBy {E : σ → α → Prop} {as : List α} (h : Steps (S.enabledBy E) s as s')
    (hE : ∀ s a, Reachable S s → E s a → S.enabled s a) (hs : Reachable S s) : Steps S s as s' := by
  induction h with
  | nil => exact .nil
  | cons he hx _ ih =>
      have he' := hE _ _ hs he
      exact .cons he' hx (ih (hs.step he' hx))

/-! ## Two systems -/

variable {T : System τ α} {R : σ → τ → Prop} {t : τ}

/-- **Forward simulation.** What every step of a system keeps with the same
step of another one, every run does. -/
theorem Steps.simulate {as : List α} (h : Steps S s as s') (hR : R s t)
    (hstep : ∀ s t a s', R s t → S.enabled s a → S.exec s a = some s' →
      ∃ t', T.enabled t a ∧ T.exec t a = some t' ∧ R s' t') :
    ∃ t', Steps T t as t' ∧ R s' t' := by
  induction h generalizing t with
  | nil => exact ⟨t, .nil, hR⟩
  | cons he hx _ ih =>
      obtain ⟨t₁, he', hx', hR⟩ := hstep _ _ _ _ hR he hx
      obtain ⟨t', hsteps, hR⟩ := ih hR
      exact ⟨t', .cons he' hx' hsteps, hR⟩

end System

end VmwareProto
