import Mathlib.Data.List.Basic
import Mathlib.Logic.Relation
import VmwareProto.Library.Holders
import VmwareProto.Library.Linearizable
/-!
# An object at the other end of a connection

Callers send requests to an object and wait for the answers; each request
has a tag, and the answer with this tag is its own. Requests and answers
arrive in the order in which they were sent, but any number of workers serve
the requests, and each answers when it likes. A tag is with one request or
answer at a time, on its way or with a worker: so an operation takes effect
once, between its call and its return, and the histories are linearizable.
-/

namespace VmwareProto

namespace Remote

open Linear

variable {T W S O R D : Type*}

/-- Where a caller stands, in the operation with a number. -/
inductive Caller (S O R : Type*)
  | idle
  /-- the request is not sent yet -/
  | asks (i : ℕ) (o : O)
  | awaits (i : ℕ) (o : O) (s : S)
  | answered (i : ℕ) (o : O) (r : R)

/-- The callers, the object with its workers, and what was sent either way. -/
structure State (T W S O R D : Type*) where
  object : D
  history : List (Event O R)
  caller : T → Caller S O R
  requests : List (S × O)
  /-- how many of them have arrived -/
  served : ℕ
  /-- a request to serve, or an answer to send -/
  worker : W → Option (S × (O ⊕ R))
  answers : List (S × R)
  heard : ℕ

/-- Nothing has happened yet. -/
def State.start (d : D) : State T W S O R D where
  object := d
  history := []
  caller _ := .idle
  requests := []
  served := 0
  worker _ := none
  answers := []
  heard := 0

/-- What can happen. -/
inductive Step [DecidableEq T] [DecidableEq W] (apply : D → O → D × R) (V : State T W S O R D) :
    State T W S O R D → Prop
  | call (n : T) (i : ℕ) (o : O) : V.caller n = .idle → (∀ o, .call i o ∉ V.history) →
      Step apply V { V with
        history := V.history ++ [.call i o], caller := Function.update V.caller n (.asks i o) }
  /-- with a tag that nobody waits for -/
  | send (n : T) (i : ℕ) (o : O) (s : S) : V.caller n = .asks i o →
      (∀ t j o, V.caller t ≠ .awaits j o s) →
      Step apply V { V with
        requests := V.requests ++ [(s, o)], caller := Function.update V.caller n (.awaits i o s) }
  | accept (w : W) (s : S) (o : O) : V.requests[V.served]? = some (s, o) → V.worker w = none →
      Step apply V { V with
        served := V.served + 1, worker := Function.update V.worker w (some (s, .inl o)) }
  | serve (w : W) (s : S) (o : O) : V.worker w = some (s, .inl o) →
      Step apply V { V with
        object := (apply V.object o).1
        worker := Function.update V.worker w (some (s, .inr (apply V.object o).2)) }
  | reply (w : W) (s : S) (r : R) : V.worker w = some (s, .inr r) →
      Step apply V { V with
        answers := V.answers ++ [(s, r)], worker := Function.update V.worker w none }
  | hear (n : T) (i : ℕ) (o : O) (s : S) (r : R) : V.answers[V.heard]? = some (s, r) →
      V.caller n = .awaits i o s →
      Step apply V { V with
        heard := V.heard + 1, caller := Function.update V.caller n (.answered i o r) }
  | ret (n : T) (i : ℕ) (o : O) (r : R) : V.caller n = .answered i o r →
      Step apply V { V with
        history := V.history ++ [.ret i r], caller := Function.update V.caller n .idle }

/-! ## The invariant -/

/-- Where a tag can be. -/
inductive Place (W : Type*)
  | request (k : ℕ)
  | worker (w : W)
  | answer (k : ℕ)
  deriving DecidableEq

/-- The request or answer in a place. -/
def State.carried (V : State T W S O R D) : Place W → Option (S × (O ⊕ R))
  | .request k => if V.served ≤ k then V.requests[k]?.map (Prod.map id .inl) else none
  | .worker w => V.worker w
  | .answer k => if V.heard ≤ k then V.answers[k]?.map (Prod.map id .inr) else none

/-- The operation of a caller. -/
def Caller.op : Caller S O R → Option (ℕ × O)
  | idle => none
  | asks i o => some (i, o)
  | awaits i o _ => some (i, o)
  | answered i o _ => some (i, o)

/-- What an operation's request or answer says of the order `es`. -/
def Fits (es : List (Entry O R)) (i : ℕ) (o : O) : O ⊕ R → Prop
  | .inl o' => o' = o ∧ ∀ e ∈ es, e.id ≠ i
  | .inr r => ⟨i, o, r⟩ ∈ es

/-- The order `es` accounts for what was seen, and knows of what is under
way. -/
structure Inv (apply : D → O → D × R) (d : D) (V : State T W S O R D) (es : List (Entry O R)) :
    Prop where
  wellFormed : WellFormed V.history
  linear : Linearizes apply d V.history es V.object
  served_le : V.served ≤ V.requests.length
  heard_le : V.heard ≤ V.answers.length
  tracks : Tracks (fun p => (V.carried p).map Prod.fst) fun s => ∃ n i o, V.caller n = .awaits i o s
  carried : ∀ p s x, V.carried p = some (s, x) → ∃ n i o, V.caller n = .awaits i o s ∧ Fits es i o x
  asks : ∀ n i o, V.caller n = .asks i o → ∀ e ∈ es, e.id ≠ i
  answered : ∀ n i o r, V.caller n = .answered i o r → ⟨i, o, r⟩ ∈ es
  called : ∀ n i o, (V.caller n).op = some (i, o) →
    .call i o ∈ V.history ∧ ∀ r, .ret i r ∉ V.history
  numbers : ∀ n t i o o', (V.caller n).op = some (i, o) → (V.caller t).op = some (i, o') → n = t
  tags : ∀ n t i j o o' s, V.caller n = .awaits i o s → V.caller t = .awaits j o' s → n = t

variable {apply : D → O → D × R} {d : D} {V V' : State T W S O R D} {es : List (Entry O R)}
  {n t : T} {w : W} {i j : ℕ} {o o' : O} {s : S} {r : R} {c : Caller S O R}

theorem inv_start (d : D) : Inv apply d (.start d : State T W S O R D) [] where
  wellFormed := .nil
  linear := .nil apply d
  served_le := Nat.le_refl 0
  heard_le := Nat.le_refl 0
  tracks := .initial (fun p => by cases p <;> simp [State.carried, State.start])
    fun s ⟨n, i, o, h⟩ => by cases h
  carried p s x h := by cases p <;> simp [State.carried, State.start] at h
  asks _ _ _ h := by cases h
  answered _ _ _ _ h := by cases h
  called _ _ _ h := by cases h
  numbers _ _ _ _ _ h := by cases h
  tags _ _ _ _ _ _ _ h := by cases h

/-! ## The steps -/

/-- An operation that has not taken effect is not another that does. -/
theorem Fits.concat {x : O ⊕ R} {e : Entry O R} (h : Fits es i o x) (hne : e.id ≠ i) :
    Fits (es ++ [e]) i o x := by
  cases x with
  | inl o' =>
      refine ⟨h.1, fun e' he' => ?_⟩
      rw [List.mem_append, List.mem_singleton] at he'
      rcases he' with he' | rfl
      · exact h.2 e' he'
      · exact hne
  | inr r => exact List.mem_append_left _ h

/-- Nobody else waits for the tag that a caller waits for. -/
theorem Inv.of_tag (h : Inv apply d V es) (hn : V.caller n = .awaits i o s)
    (ht : V.caller t = .awaits j o' s) : t = n ∧ j = i ∧ o' = o := by
  obtain rfl := h.tags t n j i o' o s ht hn
  obtain ⟨rfl, rfl, -⟩ := Caller.awaits.inj (ht.symm.trans hn)
  exact ⟨rfl, rfl, rfl⟩

/-- What is carried with a tag is in one place. -/
theorem Inv.place (h : Inv apply d V es) {p q : Place W} {x y : O ⊕ R}
    (hp : V.carried p = some (s, x)) (hq : V.carried q = some (s, y)) : p = q :=
  h.tracks.inj p q s (by rw [hp]; rfl) (by rw [hq]; rfl)

/-- What comes last. -/
theorem getElem?_concat {α : Type*} {l : List α} {x : α} {k : ℕ} :
    (l ++ [x])[k]? = if k = l.length then some x else l[k]? := by
  rcases Nat.lt_trichotomy k l.length with hlt | rfl | hgt
  · rw [if_neg (Nat.ne_of_lt hlt), List.getElem?_append_left hlt]
  · rw [if_pos rfl, List.getElem?_concat_length]
  · rw [if_neg (Nat.ne_of_gt hgt), List.getElem?_eq_none (by simp; omega),
      List.getElem?_eq_none (by omega)]

section

variable [DecidableEq T]

/-- Who waits, where a caller that does not wait goes to another such place. -/
theorem update_awaits (hn : ∀ i o s, V.caller n ≠ .awaits i o s) (hc : ∀ i o s, c ≠ .awaits i o s) :
    Function.update V.caller n c t = .awaits i o s ↔ V.caller t = .awaits i o s := by
  rw [Function.update_apply]
  split
  · rename_i htn
    rw [htn]
    exact iff_of_false (hc i o s) (hn i o s)
  · exact Iff.rfl

/-- What the callers are at, where one of them goes on with its operation or
has none any more. -/
theorem update_op {x : ℕ × O} (hc : c.op = none ∨ c.op = (V.caller n).op)
    (h : (Function.update V.caller n c t).op = some x) : (V.caller t).op = some x := by
  rw [Function.update_apply] at h
  split at h
  · rename_i htn
    rcases hc with hc | hc
    · rw [hc] at h
      cases h
    · rw [htn, ← hc, h]
  · exact h

theorem Inv.call (h : Inv apply d V es) (hn : V.caller n = .idle)
    (hi : ∀ o, .call i o ∉ V.history) (o : O) : Inv apply d { V with
      history := V.history ++ [.call i o]
      caller := Function.update V.caller n (.asks i o) } es := by
  have hw : ∀ {t j o' s}, Function.update V.caller n (.asks i o) t = .awaits j o' s ↔
      V.caller t = .awaits j o' s :=
    update_awaits (by simp [hn]) (by simp)
  -- the numbers of the others are not new
  have hold : ∀ {t j o'}, (V.caller t).op = some (j, o') → j ≠ i := fun ho => by
    rintro rfl
    exact hi _ (h.called _ _ _ ho).1
  have hcases : ∀ {t j o'}, (Function.update V.caller n (.asks i o) t).op = some (j, o') →
      t = n ∧ j = i ∧ o' = o ∨ t ≠ n ∧ (V.caller t).op = some (j, o') := fun {t j o'} ho => by
    rw [Function.update_apply] at ho
    split at ho
    · rename_i htn
      obtain ⟨rfl, rfl⟩ := Prod.mk.inj (Option.some.inj ho)
      exact .inl ⟨htn, rfl, rfl⟩
    · rename_i htn
      exact .inr ⟨htn, ho⟩
  refine ⟨h.wellFormed.call hi o, h.linear.call hi o, h.served_le, h.heard_le, ?_,
    fun p s x hx => ?_, fun t j o' ht => ?_, fun t j o' r ht => ?_, fun t j o' ho => ?_,
    fun t t' j o₁ o₂ h₁ h₂ => ?_,
    fun t t' j j' o₁ o₂ s h₁ h₂ => h.tags t t' j j' o₁ o₂ s (hw.1 h₁) (hw.1 h₂)⟩
  · exact h.tracks.congr (fun p => by cases p <;> rfl) fun s => by simp only [hw]
  · obtain ⟨t, j, o', ht, hf⟩ := h.carried p s x (by rw [← hx]; cases p <;> rfl)
    exact ⟨t, j, o', hw.2 ht, hf⟩
  · simp only [Function.update_apply] at ht
    split at ht
    · obtain ⟨rfl, rfl⟩ := Caller.asks.inj ht
      rintro e he rfl
      exact hi e.op (h.linear.called e he)
    · exact h.asks t j o' ht
  · simp only [Function.update_apply] at ht
    split at ht
    · cases ht
    · exact h.answered t j o' r ht
  · rcases hcases ho with ⟨-, rfl, rfl⟩ | ⟨-, ho⟩
    · refine ⟨by simp, fun r hr => ?_⟩
      rw [List.mem_append, List.mem_singleton] at hr
      rcases hr with hr | hr
      · obtain ⟨o'', hsub⟩ := h.wellFormed.after _ _ hr
        exact hi o'' (hsub.subset (by simp))
      · cases hr
    · obtain ⟨hc, hr⟩ := h.called t j o' ho
      refine ⟨List.mem_append_left _ hc, fun r hr' => ?_⟩
      rw [List.mem_append, List.mem_singleton] at hr'
      rcases hr' with hr' | hr'
      · exact hr r hr'
      · cases hr'
  · rcases hcases h₁ with ⟨ht, hj, -⟩ | ⟨-, h₁⟩ <;> rcases hcases h₂ with ⟨ht', hj', -⟩ | ⟨-, h₂⟩
    · rw [ht, ht']
    · exact absurd hj (hold h₂)
    · exact absurd hj' (hold h₁)
    · exact h.numbers t t' j o₁ o₂ h₁ h₂

theorem Inv.ret (h : Inv apply d V es) (hn : V.caller n = .answered i o r) : Inv apply d { V with
    history := V.history ++ [.ret i r], caller := Function.update V.caller n .idle } es := by
  have hw : ∀ {t j o' s}, Function.update V.caller n .idle t = .awaits j o' s ↔
      V.caller t = .awaits j o' s :=
    update_awaits (by simp [hn]) (by simp)
  have hop : ∀ {t x}, (Function.update V.caller n .idle t).op = some x → (V.caller t).op = some x :=
    fun ht => update_op (.inl rfl) ht
  have hi : (V.caller n).op = some (i, o) := by rw [hn]; rfl
  obtain ⟨hcall, hret⟩ := h.called n i o hi
  refine ⟨h.wellFormed.ret hcall hret r, h.linear.ret (h.answered n i o r hn), h.served_le,
    h.heard_le, ?_, fun p s x hx => ?_, fun t j o' ht => ?_, fun t j o' r ht => ?_,
    fun t j o' ho => ?_,
    fun t t' j o₁ o₂ h₁ h₂ => h.numbers t t' j o₁ o₂ (hop h₁) (hop h₂),
    fun t t' j j' o₁ o₂ s h₁ h₂ => h.tags t t' j j' o₁ o₂ s (hw.1 h₁) (hw.1 h₂)⟩
  · exact h.tracks.congr (fun p => by cases p <;> rfl) fun s => by simp only [hw]
  · obtain ⟨t, j, o', ht, hf⟩ := h.carried p s x (by rw [← hx]; cases p <;> rfl)
    exact ⟨t, j, o', hw.2 ht, hf⟩
  · simp only [Function.update_apply] at ht
    split at ht
    · cases ht
    · exact h.asks t j o' ht
  · simp only [Function.update_apply] at ht
    split at ht
    · cases ht
    · exact h.answered t j o' r ht
  · obtain ⟨hc, hr⟩ := h.called t j o' (hop ho)
    refine ⟨List.mem_append_left _ hc, fun r' hr' => ?_⟩
    rw [List.mem_append, List.mem_singleton] at hr'
    rcases hr' with hr' | hr'
    · exact hr r' hr'
    · -- it is another's number that has returned
      obtain ⟨rfl, -⟩ := Event.ret.inj hr'
      obtain rfl := h.numbers t n _ o' o (hop ho) hi
      simp only [Function.update_self] at ho
      cases ho

variable [DecidableEq W]

/-- **A request is sent**, with a tag that nobody waits for. -/
theorem Inv.send (h : Inv apply d V es) (hn : V.caller n = .asks i o)
    (hs : ∀ t j o, V.caller t ≠ .awaits j o s) : Inv apply d { V with
      requests := V.requests ++ [(s, o)]
      caller := Function.update V.caller n (.awaits i o s) } es := by
  have hle := h.served_le
  have hop : ∀ {t x}, (Function.update V.caller n (.awaits i o s) t).op = some x →
      (V.caller t).op = some x := fun ht => update_op (.inr (by rw [hn]; rfl)) ht
  have hw : ∀ {t j o' s'}, Function.update V.caller n (.awaits i o s) t = .awaits j o' s' ↔
      t = n ∧ j = i ∧ o' = o ∧ s' = s ∨ V.caller t = .awaits j o' s' := fun {t j o' s'} => by
    rw [Function.update_apply]
    split
    · rename_i htn
      rw [htn, hn]
      simp [eq_comm]
    · rename_i htn
      simp [htn]
  have hcarried : ∀ p, State.carried { V with
      requests := V.requests ++ [(s, o)], caller := Function.update V.caller n (.awaits i o s) } p =
      if p = .request V.requests.length then some (s, .inl o) else V.carried p := fun p => by
    cases p with
    | request k =>
        simp only [State.carried, Place.request.injEq, getElem?_concat]
        by_cases hk : k = V.requests.length
        · rw [if_pos hk, if_pos hk, if_pos (by omega)]
          rfl
        · rw [if_neg hk, if_neg hk]
    | worker w => simp [State.carried]
    | answer k => simp [State.carried]
  have hempty : V.carried (.request V.requests.length) = none := by
    rw [State.carried, List.getElem?_eq_none (Nat.le_refl _)]
    split <;> rfl
  refine ⟨h.wellFormed, h.linear, by simpa using Nat.le_succ_of_le hle, h.heard_le, ?_,
    fun p s' x hx => ?_, fun t j o' ht => ?_, fun t j o' r ht => ?_,
    fun t j o' ho => h.called t j o' (hop ho),
    fun t t' j o₁ o₂ h₁ h₂ => h.numbers t t' j o₁ o₂ (hop h₁) (hop h₂),
    fun t t' j j' o₁ o₂ s' h₁ h₂ => ?_⟩
  · refine h.tracks.take (x := s) (k := Place.request V.requests.length) ?_ (by rw [hempty]; rfl)
      (fun p => ?_) fun s' => ?_
    · rintro ⟨t, j, o', ht⟩
      exact hs t j o' ht
    · rw [hcarried]
      split <;> rfl
    · simp only [hw]
      constructor
      · rintro ⟨t, j, o', ⟨-, -, -, hs'⟩ | ht⟩
        · exact .inl hs'
        · exact .inr ⟨t, j, o', ht⟩
      · rintro (rfl | ⟨t, j, o', ht⟩)
        · exact ⟨n, i, o, .inl ⟨rfl, rfl, rfl, rfl⟩⟩
        · exact ⟨t, j, o', .inr ht⟩
  · rw [hcarried] at hx
    split at hx
    · obtain ⟨rfl, rfl⟩ := Prod.mk.inj (Option.some.inj hx)
      exact ⟨n, i, o, hw.2 (.inl ⟨rfl, rfl, rfl, rfl⟩), rfl, h.asks n i o hn⟩
    · obtain ⟨t, j, o', ht, hf⟩ := h.carried p s' x hx
      exact ⟨t, j, o', hw.2 (.inr ht), hf⟩
  · simp only [Function.update_apply] at ht
    split at ht
    · cases ht
    · exact h.asks t j o' ht
  · simp only [Function.update_apply] at ht
    split at ht
    · cases ht
    · exact h.answered t j o' r ht
  · rcases hw.1 h₁ with ⟨ht, -, -, hs₁⟩ | h₁ <;> rcases hw.1 h₂ with ⟨ht', -, -, hs₂⟩ | h₂
    · rw [ht, ht']
    · exact absurd (hs₁ ▸ h₂) (hs t' j' o₂)
    · exact absurd (hs₂ ▸ h₁) (hs t j o₁)
    · exact h.tags t t' j j' o₁ o₂ s' h₁ h₂

/-- **The answer arrives**, and is its caller's. -/
theorem Inv.hear (h : Inv apply d V es) (hx : V.answers[V.heard]? = some (s, r))
    (hn : V.caller n = .awaits i o s) : Inv apply d { V with
      heard := V.heard + 1, caller := Function.update V.caller n (.answered i o r) } es := by
  have hop : ∀ {t x}, (Function.update V.caller n (.answered i o r) t).op = some x →
      (V.caller t).op = some x := fun ht => update_op (.inr (by rw [hn]; rfl)) ht
  have hw : ∀ {t j o' s'}, Function.update V.caller n (.answered i o r) t = .awaits j o' s' ↔
      t ≠ n ∧ V.caller t = .awaits j o' s' := fun {t j o' s'} => by
    rw [Function.update_apply]
    split
    · rename_i htn
      simp [htn]
    · rename_i htn
      simp [htn]
  have hat : V.carried (.answer V.heard) = some (s, .inr r) := by
    rw [State.carried, if_pos (Nat.le_refl _), hx]
    rfl
  have hcarried : ∀ p, State.carried { V with
      heard := V.heard + 1, caller := Function.update V.caller n (.answered i o r) } p =
      if p = .answer V.heard then none else V.carried p := fun p => by
    cases p with
    | request k => simp [State.carried]
    | worker w => simp [State.carried]
    | answer k =>
        simp only [State.carried, Place.answer.injEq]
        by_cases hk : k = V.heard
        · rw [if_pos hk, if_neg (by omega)]
        · rw [if_neg hk]
          by_cases hle : V.heard ≤ k
          · rw [if_pos hle, if_pos (by omega)]
          · rw [if_neg hle, if_neg (by omega)]
  have hne : ∀ {t j o' s'}, V.caller t = .awaits j o' s' → (t ≠ n ↔ s' ≠ s) := by
    intro t j o' s' ht
    refine not_congr ⟨fun e => ?_, fun e => ?_⟩
    · rw [e, hn] at ht
      exact (Caller.awaits.inj ht).2.2.symm
    · exact (h.of_tag hn (e ▸ ht)).1
  -- the answer is the operation's
  have hans : ⟨i, o, r⟩ ∈ es := by
    obtain ⟨t, j, o', ht, hf⟩ := h.carried _ _ _ hat
    obtain ⟨rfl, rfl, rfl⟩ := h.of_tag hn ht
    exact hf
  refine ⟨h.wellFormed, h.linear, h.served_le, ?_, ?_, fun p s' x hp => ?_, fun t j o' ht => ?_,
    fun t j o' r' ht => ?_, fun t j o' ho => h.called t j o' (hop ho),
    fun t t' j o₁ o₂ h₁ h₂ => h.numbers t t' j o₁ o₂ (hop h₁) (hop h₂),
    fun t t' j j' o₁ o₂ s' h₁ h₂ => h.tags t t' j j' o₁ o₂ s' (hw.1 h₁).2 (hw.1 h₂).2⟩
  · exact (List.getElem?_eq_some_iff.1 hx).1
  · refine h.tracks.drop (x := s) (k := Place.answer V.heard) (by rw [hat]; rfl) (fun p => ?_)
      fun s' => ?_
    · rw [hcarried]
      split <;> rfl
    · simp only [hw]
      constructor
      · rintro ⟨t, j, o', htn, ht⟩
        exact ⟨(hne ht).1 htn, t, j, o', ht⟩
      · rintro ⟨hs', t, j, o', ht⟩
        exact ⟨t, j, o', (hne ht).2 hs', ht⟩
  · rw [hcarried] at hp
    split at hp
    · cases hp
    · rename_i hpne
      obtain ⟨t, j, o', ht, hf⟩ := h.carried p s' x hp
      refine ⟨t, j, o', hw.2 ⟨(hne ht).2 ?_, ht⟩, hf⟩
      rintro rfl
      exact hpne (h.place hp hat)
  · simp only [Function.update_apply] at ht
    split at ht
    · cases ht
    · exact h.asks t j o' ht
  · simp only [Function.update_apply] at ht
    split at ht
    · obtain ⟨rfl, rfl, rfl⟩ := Caller.answered.inj ht
      exact hans
    · exact h.answered t j o' r' ht

end

/-! ## The workers -/

section

variable [DecidableEq W]

/-- A request arrives, and is a worker's. -/
theorem Inv.accept (h : Inv apply d V es) (hx : V.requests[V.served]? = some (s, o))
    (hw : V.worker w = none) : Inv apply d { V with
      served := V.served + 1, worker := Function.update V.worker w (some (s, .inl o)) } es := by
  have hat : V.carried (.request V.served) = some (s, .inl o) := by
    rw [State.carried, if_pos (Nat.le_refl _), hx]
    rfl
  have hcarried : ∀ p, State.carried { V with
      served := V.served + 1, worker := Function.update V.worker w (some (s, .inl o)) } p =
      if p = .worker w then some (s, .inl o) else if p = .request V.served then none
      else V.carried p := fun p => by
    cases p with
    | request k =>
        simp only [State.carried, Place.request.injEq, reduceCtorEq, if_false]
        by_cases hk : k = V.served
        · rw [if_pos hk, if_neg (by omega)]
        · rw [if_neg hk]
          by_cases hle : V.served ≤ k
          · rw [if_pos hle, if_pos (by omega)]
          · rw [if_neg hle, if_neg (by omega)]
    | worker v => simp [State.carried, Function.update_apply]
    | answer k => simp [State.carried]
  refine ⟨h.wellFormed, h.linear, (List.getElem?_eq_some_iff.1 hx).1, h.heard_le, ?_,
    fun p s' x hp => ?_, h.asks, h.answered, h.called, h.numbers, h.tags⟩
  · refine h.tracks.hand (x := s) (k := Place.request V.served) (j := Place.worker w)
      (by rw [hat]; rfl) (by rw [State.carried, hw]; rfl) (fun p => ?_) fun _ => Iff.rfl
    rw [hcarried]
    split
    · rfl
    · split <;> rfl
  · rw [hcarried] at hp
    split at hp
    · obtain ⟨rfl, rfl⟩ := Prod.mk.inj (Option.some.inj hp)
      exact h.carried _ _ _ hat
    · split at hp
      · cases hp
      · exact h.carried p s' x hp

/-- **An operation takes effect.** -/
theorem Inv.serve (h : Inv apply d V es) (hw : V.worker w = some (s, .inl o)) :
    ∃ es', Inv apply d { V with
      object := (apply V.object o).1
      worker := Function.update V.worker w (some (s, .inr (apply V.object o).2)) } es' := by
  have hat : V.carried (.worker w) = some (s, .inl o) := hw
  obtain ⟨n, i, o', hn, rfl, hnew⟩ := h.carried _ _ _ hat
  obtain ⟨e, he⟩ : ∃ e : Entry O R, e = ⟨i, o, (apply V.object o).2⟩ := ⟨_, rfl⟩
  have hcall : .call e.id e.op ∈ V.history := by
    rw [he]
    exact (h.called n i o (by rw [hn]; rfl)).1
  have hcarried : ∀ p, State.carried { V with
      object := (apply V.object o).1
      worker := Function.update V.worker w (some (s, .inr (apply V.object o).2)) } p =
      if p = .worker w then some (s, .inr (apply V.object o).2) else V.carried p := fun p => by
    cases p with
    | request k => simp [State.carried]
    | worker v => simp [State.carried, Function.update_apply]
    | answer k => simp [State.carried]
  have heff := h.linear.effect (e := e) hcall (by rw [he]; exact hnew) (by rw [he])
  rw [he] at heff
  refine ⟨es ++ [e], h.wellFormed, ?_, h.served_le, h.heard_le, ?_, fun p s' x hp => ?_,
    fun t j o' ht => ?_, fun t j o' r ht => List.mem_append_left _ (h.answered t j o' r ht),
    h.called, h.numbers, h.tags⟩
  · rw [he]
    exact heff
  · refine h.tracks.congr (fun p => ?_) fun _ => Iff.rfl
    rw [hcarried]
    split
    · rename_i hp
      rw [hp, hat]
      rfl
    · rfl
  · rw [hcarried] at hp
    split at hp
    · obtain ⟨rfl, rfl⟩ := Prod.mk.inj (Option.some.inj hp)
      exact ⟨n, i, o, hn, by rw [he]; exact List.mem_append_right _ (List.mem_singleton.2 rfl)⟩
    · rename_i hpne
      obtain ⟨t, j, o', ht, hf⟩ := h.carried p s' x hp
      refine ⟨t, j, o', ht, hf.concat ?_⟩
      -- another's request or answer
      rw [he]
      rintro rfl
      obtain rfl := h.numbers t n i o' o (by rw [ht]; rfl) (by rw [hn]; rfl)
      obtain ⟨-, -, rfl⟩ := Caller.awaits.inj (ht.symm.trans hn)
      exact hpne (h.place hp hat)
  · intro e' he'
    rw [List.mem_append, List.mem_singleton] at he'
    rcases he' with he' | rfl
    · exact h.asks t j o' ht e' he'
    · rw [he]
      rintro rfl
      obtain rfl := h.numbers t n i o' o (by rw [ht]; rfl) (by rw [hn]; rfl)
      rw [hn] at ht
      cases ht

/-- A worker sends its answer. -/
theorem Inv.reply (h : Inv apply d V es) (hw : V.worker w = some (s, .inr r)) :
    Inv apply d { V with
      answers := V.answers ++ [(s, r)], worker := Function.update V.worker w none } es := by
  have hle := h.heard_le
  have hat : V.carried (.worker w) = some (s, .inr r) := hw
  have hcarried : ∀ p, State.carried { V with
      answers := V.answers ++ [(s, r)], worker := Function.update V.worker w none } p =
      if p = .answer V.answers.length then some (s, .inr r) else if p = .worker w then none
      else V.carried p := fun p => by
    cases p with
    | request k => simp [State.carried]
    | worker v => simp [State.carried, Function.update_apply]
    | answer k =>
        simp only [State.carried, Place.answer.injEq, getElem?_concat, reduceCtorEq, if_false]
        by_cases hk : k = V.answers.length
        · rw [if_pos hk, if_pos hk, if_pos (by omega)]
          rfl
        · rw [if_neg hk, if_neg hk]
  have hempty : V.carried (.answer V.answers.length) = none := by
    rw [State.carried, List.getElem?_eq_none (Nat.le_refl _)]
    split <;> rfl
  refine ⟨h.wellFormed, h.linear, h.served_le, by simpa using Nat.le_succ_of_le hle, ?_,
    fun p s' x hp => ?_, h.asks, h.answered, h.called, h.numbers, h.tags⟩
  · refine h.tracks.hand (x := s) (k := Place.worker w) (j := Place.answer V.answers.length)
      (by rw [hat]; rfl) (by rw [hempty]; rfl) (fun p => ?_) fun _ => Iff.rfl
    rw [hcarried]
    split
    · rfl
    · split <;> rfl
  · rw [hcarried] at hp
    split at hp
    · obtain ⟨rfl, rfl⟩ := Prod.mk.inj (Option.some.inj hp)
      exact h.carried _ _ _ hat
    · split at hp
      · cases hp
      · exact h.carried p s' x hp

end

/-! ## Runs -/

section

variable [DecidableEq T] [DecidableEq W]

/-- **The step lemma.** -/
theorem Inv.step (h : Inv apply d V es) (hs : Step apply V V') : ∃ es', Inv apply d V' es' := by
  cases hs with
  | call n i o hn hi => exact ⟨es, h.call hn hi o⟩
  | send n i o s hn hs => exact ⟨es, h.send hn hs⟩
  | accept w s o hx hw => exact ⟨es, h.accept hx hw⟩
  | serve w s o hw => exact h.serve hw
  | reply w s r hw => exact ⟨es, h.reply hw⟩
  | hear n i o s r hx hn => exact ⟨es, h.hear hx hn⟩
  | ret n i o r hn => exact ⟨es, h.ret hn⟩

/-- **The run lemma.** -/
theorem inv_of_steps (h : Relation.ReflTransGen (Step apply) (.start d) V) :
    ∃ es, Inv apply d V es := by
  induction h with
  | refl => exact ⟨[], inv_start d⟩
  | tail _ hs ih =>
      obtain ⟨es, h⟩ := ih
      exact h.step hs

end

end Remote

end VmwareProto
