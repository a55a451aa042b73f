import Mathlib.Tactic.Common
/-!
# Who holds what

Things that are out, and the places that can hold one each. `Tracks` says
that everything that is out is held in one place, and nothing else is held:
what a place holds can be used and given back, once. One lemma for each way
a step can change what is held.
-/

namespace VmwareProto

variable {κ α : Type*} {holds holds' : κ → Option α} {out out' : α → Prop} {j k : κ} {x y : α}

/-- Everything that is out is held in one place, and nothing else is. -/
structure Tracks (holds : κ → Option α) (out : α → Prop) : Prop where
  out_iff : ∀ x, out x ↔ ∃ k, holds k = some x
  inj : ∀ j k x, holds j = some x → holds k = some x → j = k

namespace Tracks

/-- What is held is out. -/
theorem out_of (h : Tracks holds out) (hk : holds k = some x) : out x := (h.out_iff x).2 ⟨k, hk⟩

/-- Two places hold different things. -/
theorem ne_of_ne (h : Tracks holds out) (hj : holds j = some x) (hk : holds k = some y)
    (hne : j ≠ k) : x ≠ y := by
  rintro rfl
  exact hne (h.inj j k x hj hk)

theorem initial (hh : ∀ k, holds k = none) (ho : ∀ x, ¬out x) : Tracks holds out where
  out_iff x := iff_of_false (ho x) fun ⟨k, hk⟩ => by rw [hh] at hk; cases hk
  inj j k x hj := by rw [hh] at hj; cases hj

/-- Nothing of it changes. -/
theorem congr (h : Tracks holds out) (hh : ∀ k, holds' k = holds k) (ho : ∀ x, out' x ↔ out x) :
    Tracks holds' out' where
  out_iff x := by
    rw [ho, h.out_iff]
    simp only [hh]
  inj j k x hj hk := h.inj j k x (by rw [← hh, hj]) (by rw [← hh, hk])

/-- **Some places are cleared**, and what they held is given back. -/
theorem clear {P : κ → Prop} (h : Tracks holds out) (hP : ∀ i, P i → holds' i = none)
    (hN : ∀ i, ¬P i → holds' i = holds i) (ho : ∀ y, out' y ↔ out y ∧ ∀ i, P i → holds i ≠ some y) :
    Tracks holds' out' := by
  have hback : ∀ i y, holds' i = some y → ¬P i ∧ holds i = some y := fun i y hi => by
    by_cases hPi : P i
    · rw [hP i hPi] at hi
      cases hi
    · exact ⟨hPi, by rw [← hN i hPi, hi]⟩
  refine ⟨fun y => ?_, fun i j y hi hj => h.inj i j y (hback i y hi).2 (hback j y hj).2⟩
  rw [ho, h.out_iff]
  constructor
  · rintro ⟨⟨i, hi⟩, hne⟩
    exact ⟨i, by rw [hN i fun hPi => hne i hPi hi, hi]⟩
  · rintro ⟨i, hi⟩
    obtain ⟨hPi, hi⟩ := hback i y hi
    refine ⟨⟨i, hi⟩, fun j hj hy => hPi ?_⟩
    rw [h.inj i j y hi hy]
    exact hj

variable [DecidableEq κ]

/-- **Something is given back.** -/
theorem drop (h : Tracks holds out) (hk : holds k = some x)
    (hh : ∀ i, holds' i = if i = k then none else holds i) (ho : ∀ y, out' y ↔ y ≠ x ∧ out y) :
    Tracks holds' out' := by
  refine h.clear (P := fun i => i = k) (fun i hi => by rw [hh, if_pos hi])
    (fun i hi => by rw [hh, if_neg hi]) fun y => ?_
  rw [ho, and_comm]
  refine and_congr_right fun _ => ⟨?_, fun hne => ?_⟩
  · rintro hne i rfl hy
    exact hne (Option.some.inj (hy.symm.trans hk))
  · rintro rfl
    exact hne k rfl hk

/-- **Something is taken**, by a place that holds nothing. -/
theorem take (h : Tracks holds out) (hx : ¬out x) (hk : holds k = none)
    (hh : ∀ i, holds' i = if i = k then some x else holds i) (ho : ∀ y, out' y ↔ y = x ∨ out y) :
    Tracks holds' out' where
  out_iff y := by
    rw [ho, h.out_iff]
    constructor
    · rintro (rfl | ⟨i, hi⟩)
      · exact ⟨k, by rw [hh, if_pos rfl]⟩
      · have hik : i ≠ k := by
          rintro rfl
          rw [hk] at hi
          cases hi
        exact ⟨i, by rw [hh, if_neg hik, hi]⟩
    · rintro ⟨i, hi⟩
      rw [hh] at hi
      split at hi
      · exact .inl (Option.some.inj hi).symm
      · exact .inr ⟨i, hi⟩
  inj i j y hi hj := by
    have hout : ∀ i, holds i = some x → False := fun i hi => hx (h.out_of hi)
    rw [hh] at hi hj
    split at hi <;> split at hj
    · rename_i hik hjk
      rw [hik, hjk]
    · obtain rfl := Option.some.inj hi
      exact (hout j hj).elim
    · obtain rfl := Option.some.inj hj
      exact (hout i hi).elim
    · exact h.inj i j y hi hj

/-- **Something changes hands.** -/
theorem hand (h : Tracks holds out) (hk : holds k = some x) (hj : holds j = none)
    (hh : ∀ i, holds' i = if i = j then some x else if i = k then none else holds i)
    (ho : ∀ y, out' y ↔ out y) : Tracks holds' out' := by
  have hjk : j ≠ k := by
    rintro rfl
    rw [hk] at hj
    cases hj
  have hout := h.out_of hk
  have hdrop : Tracks (fun i => if i = k then none else holds i) fun y => y ≠ x ∧ out y :=
    h.drop hk (fun _ => rfl) fun _ => Iff.rfl
  refine hdrop.take (x := x) (k := j) (fun hx => hx.1 rfl) ?_ hh fun y => ?_
  · simp only [if_neg hjk, hj]
  · rw [ho]
    by_cases hy : y = x
    · exact iff_of_true (hy ▸ hout) (.inl hy)
    · simp [hy]

omit [DecidableEq κ] in
/-- Where one place holds something, that is all there is out. -/
theorem out_iff_eq (h : Tracks holds out) (hk : holds k = some x) (hj : ∀ j, j ≠ k → holds j = none) :
    out y ↔ y = x := by
  rw [h.out_iff]
  constructor
  · rintro ⟨j, hjy⟩
    by_cases hjk : j = k
    · rw [hjk, hk] at hjy
      exact (Option.some.inj hjy).symm
    · rw [hj j hjk] at hjy
      cases hjy
  · rintro rfl
    exact ⟨k, hk⟩

omit [DecidableEq κ] in
/-- Where nothing is held, nothing is out. -/
theorem not_out (h : Tracks holds out) (hh : ∀ k, holds k = none) : ¬out x := fun hx => by
  obtain ⟨k, hk⟩ := (h.out_iff x).1 hx
  rw [hh] at hk
  cases hk

end Tracks

end VmwareProto
