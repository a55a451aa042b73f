import Mathlib.Data.List.Nodup
import Mathlib.Logic.Function.Basic
import Mathlib.Tactic.Common
/-!
# Intrusive queues

Doubly linked lists that end in nil, each with a pointer to its first and
to its last element. The links lie inside the elements, one pair for all
lists, so an element is in one list at a time. `Holds i xs` says that the
list `i` is `xs` in both directions; `All` that every list is what a
function says and that no two of them share an element.
-/

namespace VmwareProto

/-- The ends of every list and the links of every element. -/
structure Queues (ι α : Type*) where
  head : ι → Option α
  tail : ι → Option α
  next : α → Option α
  prev : α → Option α

namespace Queues

variable {ι α : Type*}

/-! ## Lists -/

/-- The links along `xs`, with `p` before it and nil behind. -/
def Segment (Q : Queues ι α) : Option α → List α → Prop
  | _, [] => True
  | p, x :: xs => Q.prev x = p ∧ Q.next x = xs.head? ∧ Segment Q (some x) xs

/-- The list `i` is `xs`. -/
structure Holds (Q : Queues ι α) (i : ι) (xs : List α) : Prop where
  head : Q.head i = xs.head?
  tail : Q.tail i = xs.getLast?
  segment : Q.Segment none xs

variable {Q Q' : Queues ι α} {i j : ι} {p : Option α} {x y : α} {xs ys : List α}

/-- A segment reads the links of its elements. -/
theorem Segment.frame (hs : Q.Segment p xs) (hn : ∀ y ∈ xs, Q'.next y = Q.next y)
    (hp : ∀ y ∈ xs, Q'.prev y = Q.prev y) : Q'.Segment p xs := by
  induction xs generalizing p with
  | nil => trivial
  | cons x xs ih =>
      obtain ⟨h₁, h₂, h₃⟩ := hs
      refine ⟨by rw [hp x List.mem_cons_self, h₁], by rw [hn x List.mem_cons_self, h₂],
        ih h₃ (fun y hy => hn y ?_) fun y hy => hp y ?_⟩
      · exact List.mem_cons_of_mem _ hy
      · exact List.mem_cons_of_mem _ hy

/-- **A list reads its own ends and links.** -/
theorem Holds.frame (h : Q.Holds i xs) (hh : Q'.head i = Q.head i) (ht : Q'.tail i = Q.tail i)
    (hn : ∀ y ∈ xs, Q'.next y = Q.next y) (hp : ∀ y ∈ xs, Q'.prev y = Q.prev y) : Q'.Holds i xs :=
  ⟨hh.trans h.head, ht.trans h.tail, h.segment.frame hn hp⟩

theorem Segment.unique {q : Option α} (hs : Q.Segment p xs) (hs' : Q.Segment q ys)
    (h : xs.head? = ys.head?) : xs = ys := by
  induction xs generalizing p q ys with
  | nil =>
      cases ys with
      | nil => rfl
      | cons y ys => cases h
  | cons x xs ih =>
      cases ys with
      | nil => cases h
      | cons y ys =>
          obtain rfl := Option.some.inj h
          obtain ⟨-, hn, hs⟩ := hs
          obtain ⟨-, hn', hs'⟩ := hs'
          rw [ih hs hs' (hn.symm.trans hn')]

/-- A list is one list. -/
theorem Holds.unique (h : Q.Holds i xs) (h' : Q.Holds i ys) : xs = ys :=
  h.segment.unique h'.segment (h.head.symm.trans h'.head)

/-- A segment grows at its end, by an element that links to nil. -/
theorem Segment.concat (hs : Q.Segment p xs) (hnd : xs.Nodup)
    (hlast : ∀ y, xs.getLast? = some y → Q'.next y = some x)
    (hn : ∀ y ∈ xs, xs.getLast? ≠ some y → Q'.next y = Q.next y)
    (hp : ∀ y ∈ xs, Q'.prev y = Q.prev y) (hx : Q'.next x = none)
    (hxp : Q'.prev x = xs.getLast?.or p) : Q'.Segment p (xs ++ [x]) := by
  induction xs generalizing p with
  | nil => exact ⟨by simpa using hxp, hx, trivial⟩
  | cons y xs ih =>
      obtain ⟨h₁, h₂, h₃⟩ := hs
      obtain ⟨hnot, hnd⟩ := List.nodup_cons.1 hnd
      have hy := List.mem_cons_self (a := y) (l := xs)
      cases xs with
      | nil => exact ⟨by rw [hp y hy, h₁], hlast y rfl, by simpa using hxp, hx, trivial⟩
      | cons z xs =>
          have hcons : (y :: z :: xs).getLast? = (z :: xs).getLast? := List.getLast?_cons_cons
          rw [hcons] at hlast hn hxp
          refine ⟨by rw [hp y hy, h₁], ?_, ih h₃ hnd hlast
            (fun w hw => hn w (List.mem_cons_of_mem _ hw))
            (fun w hw => hp w (List.mem_cons_of_mem _ hw)) ?_⟩
          · rw [hn y hy fun e => hnot (List.mem_of_getLast? e), h₂]
            rfl
          · rw [hxp, List.getLast?_cons]
            rfl

/-! ## The two operations -/

variable [DecidableEq ι] [DecidableEq α]

/-- `x` goes to the end of the list `i`. -/
def add (Q : Queues ι α) (i : ι) (x : α) : Queues ι α :=
  match Q.tail i with
  | some y =>
      { head := Q.head
        tail := Function.update Q.tail i (some x)
        next := Function.update (Function.update Q.next y (some x)) x none
        prev := Function.update Q.prev x (some y) }
  | none =>
      { head := Function.update Q.head i (some x)
        tail := Function.update Q.tail i (some x)
        next := Function.update Q.next x none
        prev := Function.update Q.prev x none }

/-- `x` leaves the list `i`; its own links stay as they are. -/
def del (Q : Queues ι α) (i : ι) (x : α) : Queues ι α :=
  let Q' : Queues ι α :=
    match Q.prev x with
    | some y => { Q with next := Function.update Q.next y (Q.next x) }
    | none => { Q with head := Function.update Q.head i (Q.next x) }
  match Q'.next x with
  | some z => { Q' with prev := Function.update Q'.prev z (Q'.prev x) }
  | none => { Q' with tail := Function.update Q'.tail i (Q'.prev x) }

/-- The links of `x` are cleared. -/
def clear (Q : Queues ι α) (x : α) : Queues ι α :=
  { Q with next := Function.update Q.next x none, prev := Function.update Q.prev x none }

/-- An element in no list comes to the end of one. -/
theorem Holds.add (h : Q.Holds i xs) (hnd : xs.Nodup) (hx : x ∉ xs) :
    (Q.add i x).Holds i (xs ++ [x]) := by
  unfold Queues.add
  cases ht : Q.tail i with
  | none =>
      have hxs : xs = [] := by
        rw [h.tail, List.getLast?_eq_none_iff] at ht
        exact ht
      subst hxs
      exact ⟨by simp, by simp, by simp, by simp, trivial⟩
  | some y =>
      have hlast : xs.getLast? = some y := h.tail.symm.trans ht
      have hy := List.mem_of_getLast? hlast
      have hxy : x ≠ y := fun e => hx (e ▸ hy)
      refine ⟨?_, by simp, h.segment.concat hnd (fun z hz => ?_) (fun z hz hne => ?_)
        (fun z hz => ?_) (by simp) (by simp [hlast])⟩
      · rw [List.head?_append_of_ne_nil _ (List.ne_nil_of_mem hy)]
        exact h.head
      · obtain rfl := Option.some.inj (hlast.symm.trans hz)
        simp [hxy.symm]
      · have hzx : z ≠ x := fun e => hx (e ▸ hz)
        have hzy : z ≠ y := fun e => hne (by rw [hlast, e])
        simp [hzx, hzy]
      · have hzx : z ≠ x := fun e => hx (e ▸ hz)
        simp [hzx]

/-- The other lists stay. -/
theorem Holds.add_other (h : Q.Holds j ys) (hi : Q.Holds i xs) (hij : j ≠ i) (hx : x ∉ ys)
    (hd : ∀ y ∈ xs, y ∉ ys) : (Q.add i x).Holds j ys := by
  unfold Queues.add
  cases ht : Q.tail i with
  | none =>
      refine h.frame (by simp [hij]) (by simp [hij]) (fun z hz => ?_) fun z hz => ?_
      · have hzx : z ≠ x := fun e => hx (e ▸ hz)
        simp [hzx]
      · have hzx : z ≠ x := fun e => hx (e ▸ hz)
        simp [hzx]
  | some y =>
      have hy : y ∈ xs := List.mem_of_getLast? (hi.tail.symm.trans ht)
      refine h.frame rfl (by simp [hij]) (fun z hz => ?_) fun z hz => ?_
      · have hzx : z ≠ x := fun e => hx (e ▸ hz)
        have hzy : z ≠ y := fun e => hd y hy (e ▸ hz)
        simp [hzx, hzy]
      · have hzx : z ≠ x := fun e => hx (e ▸ hz)
        simp [hzx]

/-- The first element leaves. -/
theorem Holds.del (h : Q.Holds i (x :: xs)) (hnd : (x :: xs).Nodup) : (Q.del i x).Holds i xs := by
  obtain ⟨h₁, h₂, h₃⟩ := h.segment
  unfold Queues.del
  simp only [h₁, h₂]
  cases xs with
  | nil => exact ⟨by simp, by simp, trivial⟩
  | cons z xs =>
      obtain ⟨-, hz, hs⟩ := h₃
      have hnot := (List.nodup_cons.1 (List.nodup_cons.1 hnd).2).1
      refine ⟨by simp, ?_, by simp, hz, hs.frame (fun _ _ => rfl) fun y hy => ?_⟩
      · simpa [List.getLast?_cons_cons] using h.tail
      · have hyz : y ≠ z := fun e => hnot (e ▸ hy)
        simp [hyz]

/-- The other lists stay. -/
theorem Holds.del_other (h : Q.Holds j ys) (hi : Q.Holds i (x :: xs)) (hij : j ≠ i)
    (hd : ∀ y ∈ xs, y ∉ ys) : (Q.del i x).Holds j ys := by
  obtain ⟨h₁, h₂, -⟩ := hi.segment
  unfold Queues.del
  simp only [h₁, h₂]
  cases xs with
  | nil => exact h.frame (by simp [hij]) (by simp [hij]) (fun _ _ => rfl) fun _ _ => rfl
  | cons z xs =>
      refine h.frame (by simp [hij]) rfl (fun _ _ => rfl) fun y hy => ?_
      have hyz : y ≠ z := fun e => hd z List.mem_cons_self (e ▸ hy)
      simp [hyz]

/-! ## All lists at once -/

/-- **Every list is what `ls` says**, and an element is in one list once. -/
structure All (Q : Queues ι α) (ls : ι → List α) : Prop where
  holds : ∀ i, Q.Holds i (ls i)
  nodup : ∀ i, (ls i).Nodup
  apart : ∀ i j x, x ∈ ls i → x ∈ ls j → i = j

namespace All

variable {ls : ι → List α}

/-- An element in no list comes to the end of one. -/
theorem add (h : Q.All ls) (hx : ∀ j, x ∉ ls j) :
    (Q.add i x).All (Function.update ls i (ls i ++ [x])) := by
  refine ⟨fun j => ?_, fun j => ?_, fun j k y hj hk => ?_⟩
  · by_cases hj : j = i
    · subst hj
      rw [Function.update_self]
      exact (h.holds j).add (h.nodup j) (hx j)
    · rw [Function.update_of_ne hj]
      exact (h.holds j).add_other (h.holds i) hj (hx j) fun y hy hy' => hj (h.apart j i y hy' hy)
  · by_cases hj : j = i
    · subst hj
      rw [Function.update_self]
      rw [← List.concat_eq_append]
      exact (h.nodup j).concat (hx j)
    · rw [Function.update_of_ne hj]
      exact h.nodup j
  · have hmem : ∀ k, y ∈ Function.update ls i (ls i ++ [x]) k → y ∈ ls k ∨ y = x ∧ k = i :=
      fun k hk => by
        by_cases hki : k = i
        · subst hki
          rw [Function.update_self, List.mem_append, List.mem_singleton] at hk
          exact hk.imp id fun e => ⟨e, rfl⟩
        · rw [Function.update_of_ne hki] at hk
          exact .inl hk
    rcases hmem j hj with hj | ⟨hyx, hji⟩ <;> rcases hmem k hk with hk | ⟨hyx', hki⟩
    · exact h.apart j k y hj hk
    · exact absurd (hyx' ▸ hj) (hx j)
    · exact absurd (hyx ▸ hk) (hx k)
    · rw [hji, hki]

/-- The first element of a list leaves it. -/
theorem del (h : Q.All ls) (hi : ls i = x :: xs) : (Q.del i x).All (Function.update ls i xs) := by
  have hhold := h.holds i
  have hnd := h.nodup i
  rw [hi] at hhold hnd
  have hsub : ∀ k y, y ∈ Function.update ls i xs k → y ∈ ls k := fun k y hy => by
    by_cases hki : k = i
    · subst hki
      rw [Function.update_self] at hy
      rw [hi]
      exact List.mem_cons_of_mem _ hy
    · rw [Function.update_of_ne hki] at hy
      exact hy
  refine ⟨fun j => ?_, fun j => ?_, fun j k y hj hk => h.apart j k y (hsub j y hj) (hsub k y hk)⟩
  · by_cases hj : j = i
    · subst hj
      rw [Function.update_self]
      exact hhold.del hnd
    · rw [Function.update_of_ne hj]
      refine (h.holds j).del_other hhold hj fun y hy hy' => hj (h.apart j i y hy' ?_)
      rw [hi]
      exact List.mem_cons_of_mem _ hy
  · by_cases hj : j = i
    · subst hj
      rw [Function.update_self]
      exact (List.nodup_cons.1 hnd).2
    · rw [Function.update_of_ne hj]
      exact h.nodup j

omit [DecidableEq ι] in
/-- An element in no list has its links cleared. -/
theorem clear (h : Q.All ls) (hx : ∀ j, x ∉ ls j) : (Q.clear x).All ls := by
  refine ⟨fun j => (h.holds j).frame rfl rfl (fun y hy => ?_) fun y hy => ?_, h.nodup, h.apart⟩
  · have hyx : y ≠ x := fun e => hx j (e ▸ hy)
    simp [Queues.clear, hyx]
  · have hyx : y ≠ x := fun e => hx j (e ▸ hy)
    simp [Queues.clear, hyx]

omit [DecidableEq ι] [DecidableEq α] in
theorem head_eq (h : Q.All ls) (i : ι) : Q.head i = (ls i).head? := (h.holds i).head

omit [DecidableEq ι] [DecidableEq α] in
theorem of_head (h : Q.All ls) (hx : Q.head i = some x) : ∃ xs, ls i = x :: xs := by
  rw [h.head_eq] at hx
  exact List.head?_eq_some_iff.1 hx

end All

end Queues

end VmwareProto
