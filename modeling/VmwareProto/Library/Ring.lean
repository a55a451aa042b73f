import Mathlib.Data.List.Nodup
import Mathlib.Logic.Function.Basic
import Mathlib.Logic.Function.Iterate
import Mathlib.Tactic.Common
/-!
# Intrusive rings

Circular doubly linked lists whose links lie inside the elements: a node
not in any list is a ring of its own. `Ring L h xs` says that following
`next` from the head `h` meets exactly `xs` and comes back, and `prev` the
same in reverse. The three list operations each have one lemma on the ring
they work on and one on every ring they do not touch.
-/

namespace VmwareProto

/-- The two links of every node. -/
structure Links (ι : Type*) where
  next : ι → ι
  prev : ι → ι

namespace Links

variable {ι : Type*}

/-! ## Rings -/

/-- The links from `a` through `xs` to `b`, in both directions. -/
def Chain (L : Links ι) : ι → List ι → ι → Prop
  | a, [], b => L.next a = b ∧ L.prev b = a
  | a, x :: xs, b => L.next a = x ∧ L.prev x = a ∧ Chain L x xs b

/-- The links in the other direction. -/
def flip (L : Links ι) : Links ι := ⟨L.prev, L.next⟩

/-- The list `xs` under the head `h`. -/
structure Ring (L : Links ι) (h : ι) (xs : List ι) : Prop where
  chain : L.Chain h xs h
  nodup : (h :: xs).Nodup

variable {L L' : Links ι} {a b h n x : ι} {xs ys : List ι}

/-- A chain reads the `next` links of all but its end and the `prev` links
of all but its start. -/
theorem Chain.frame (hc : L.Chain a xs b) (hn : ∀ y ∈ a :: xs, L'.next y = L.next y)
    (hp : ∀ y, y ∈ xs ∨ y = b → L'.prev y = L.prev y) : L'.Chain a xs b := by
  induction xs generalizing a with
  | nil => exact ⟨by rw [hn a (by simp)]; exact hc.1, by rw [hp b (.inr rfl)]; exact hc.2⟩
  | cons x xs ih =>
      obtain ⟨h₁, h₂, h₃⟩ := hc
      refine ⟨by rw [hn a (by simp)]; exact h₁, by rw [hp x (by simp)]; exact h₂,
        ih h₃ (fun y hy => hn y (List.mem_cons_of_mem _ hy)) fun y hy => hp y ?_⟩
      rcases hy with hy | hy
      · exact .inl (List.mem_cons_of_mem _ hy)
      · exact .inr hy

theorem chain_append : L.Chain a (xs ++ x :: ys) b ↔ L.Chain a xs x ∧ L.Chain x ys b := by
  induction xs generalizing a with
  | nil => simp [Chain, and_assoc]
  | cons y xs ih => simp [Chain, ih, and_assoc]

/-- A chain's end is reached by its `next` links. -/
theorem Chain.iterate (hc : L.Chain a xs b) : L.next^[xs.length + 1] a = b := by
  induction xs generalizing a with
  | nil => exact hc.1
  | cons x xs ih =>
      obtain ⟨h₁, -, h₃⟩ := hc
      rw [List.length_cons, Function.iterate_succ_apply, h₁]
      exact ih h₃

/-- **A ring reads only its own links.** -/
theorem Ring.frame (hr : L.Ring h xs) (hn : ∀ y ∈ h :: xs, L'.next y = L.next y)
    (hp : ∀ y ∈ h :: xs, L'.prev y = L.prev y) : L'.Ring h xs :=
  ⟨hr.chain.frame hn fun y hy => hp y (by rcases hy with hy | rfl <;> simp [*]), hr.nodup⟩

theorem Chain.next_mem (hc : L.Chain a xs b) : L.next a ∈ xs ++ [b] := by
  cases xs with
  | nil => simp [hc.1]
  | cons x xs => simp [hc.1]

theorem Chain.prev_mem (hc : L.Chain a xs b) : L.prev b ∈ a :: xs := by
  induction xs generalizing a with
  | nil => simp [hc.2]
  | cons x xs ih => exact List.mem_cons_of_mem _ (ih hc.2.2)

/-- The head is behind its own first node. -/
theorem Ring.prev_next (hr : L.Ring h xs) : L.prev (L.next h) = h := by
  cases xs with
  | nil => rw [hr.chain.1]; exact hr.chain.2
  | cons x xs => rw [hr.chain.1]; exact hr.chain.2.1

theorem Ring.next_mem (hr : L.Ring h xs) (ha : a ∈ h :: xs) : L.next a ∈ h :: xs := by
  rcases List.mem_cons.1 ha with rfl | ha
  · have := hr.chain.next_mem
    simpa [or_comm] using this
  · obtain ⟨ys, zs, rfl⟩ := List.append_of_mem ha
    have := (chain_append.1 hr.chain).2.next_mem
    simp only [List.mem_append, List.mem_cons] at this ⊢
    tauto

/-- The nodes of a ring are those one comes to from its head. -/
theorem Ring.iterate_iff (hr : L.Ring h xs) : (∃ n, L.next^[n] h = x) ↔ x ∈ h :: xs := by
  constructor
  · rintro ⟨n, rfl⟩
    induction n with
    | zero => exact List.mem_cons_self
    | succ n ih =>
        rw [Function.iterate_succ_apply']
        exact hr.next_mem ih
  · intro hx
    rcases List.mem_cons.1 hx with rfl | hx
    · exact ⟨0, rfl⟩
    · obtain ⟨ys, zs, rfl⟩ := List.append_of_mem hx
      exact ⟨ys.length + 1, (chain_append.1 hr.chain).1.iterate⟩

theorem Ring.prev_mem (hr : L.Ring h xs) (ha : a ∈ h :: xs) : L.prev a ∈ h :: xs := by
  rcases List.mem_cons.1 ha with rfl | ha
  · exact hr.chain.prev_mem
  · obtain ⟨ys, zs, rfl⟩ := List.append_of_mem ha
    have := (chain_append.1 hr.chain).1.prev_mem
    simp only [List.mem_append, List.mem_cons] at this ⊢
    tauto

/-- The neighbours of an element of a list are other nodes. -/
theorem Ring.neighbours (hr : L.Ring h (xs ++ a :: ys)) :
    L.prev a ∈ h :: xs ∧ L.next a ∈ ys ++ [h] ∧ L.prev a ≠ a ∧ L.next a ≠ a := by
  obtain ⟨h₁, h₂⟩ := chain_append.1 hr.chain
  have hnd := hr.nodup
  have hp := h₁.prev_mem
  have hn := h₂.next_mem
  rw [List.nodup_cons, List.mem_append, List.nodup_middle, List.nodup_cons, List.mem_append] at hnd
  refine ⟨hp, hn, fun e => ?_, fun e => ?_⟩
  · rw [e] at hp
    grind
  · rw [e] at hn
    grind

/-- The last element, as the head's `prev`. -/
theorem Ring.prev_head (hr : L.Ring h (xs ++ [a])) : L.prev h = a := (chain_append.1 hr.chain).2.2

/-! ## The operations -/

variable [DecidableEq ι]

/-- Write one `next` link. -/
def setNext (L : Links ι) (a b : ι) : Links ι := { L with next := Function.update L.next a b }

/-- Write one `prev` link. -/
def setPrev (L : Links ι) (a b : ι) : Links ι := { L with prev := Function.update L.prev a b }

/-- A node linked to itself. -/
def init (L : Links ι) (a : ι) : Links ι := (L.setNext a a).setPrev a a

/-- Unlink a node and link it to itself. -/
def rem (L : Links ι) (a : ι) : Links ι :=
  let L := L.setPrev (L.next a) (L.prev a)
  let L := L.setNext (L.prev a) (L.next a)
  L.init a

/-- Insert `n` right after `h`. -/
def add (L : Links ι) (h n : ι) : Links ι :=
  let L := L.setNext n (L.next h)
  let L := L.setPrev n h
  let L := L.setPrev (L.next h) n
  L.setNext h n

/-- Insert `n` right before `h`. -/
def revAdd (L : Links ι) (h n : ι) : Links ι :=
  let L := L.setPrev n (L.prev h)
  let L := L.setNext n h
  let L := L.setPrev h n
  L.setNext (L.prev n) n

/-- A head with nothing in its list, or a node in no list. -/
def isEmpty (L : Links ι) (a : ι) : Bool := L.next a == a

/-- **Empty as the code tests it**: a head whose `next` is itself has
nothing in its list. -/
theorem Ring.isEmpty_iff (hr : L.Ring h xs) : L.isEmpty h = true ↔ xs = [] := by
  rw [isEmpty, beq_iff_eq]
  cases xs with
  | nil => exact iff_of_true hr.chain.1 rfl
  | cons x xs =>
      have hne : x ≠ h := fun e => (List.nodup_cons.1 hr.nodup).1 (by simp [e])
      rw [hr.chain.1]
      exact iff_of_false hne (by simp)

/-- An element of a list is not linked to itself. -/
theorem Ring.isEmpty_of_mem (hr : L.Ring h xs) (ha : a ∈ xs) :
    L.isEmpty a = false := by
  obtain ⟨ys, zs, rfl⟩ := List.append_of_mem ha
  have hnd := hr.nodup
  have hnext := (chain_append.1 hr.chain).2.next_mem
  rw [isEmpty, beq_eq_false_iff_ne]
  intro e
  rw [e] at hnext
  rw [List.nodup_cons, List.mem_append, List.nodup_middle, List.nodup_cons, List.mem_append] at hnd
  simp only [List.mem_append, List.mem_cons] at hnext hnd
  tauto

theorem ring_init : (L.init a).Ring a [] :=
  ⟨⟨by simp [init, setNext, setPrev], by simp [init, setNext, setPrev]⟩, by simp⟩

theorem init_next_of_ne (hb : b ≠ a) : (L.init a).next b = L.next b := by
  simp [init, setNext, setPrev, hb]

theorem init_prev_of_ne (hb : b ≠ a) : (L.init a).prev b = L.prev b := by
  simp [init, setNext, setPrev, hb]

theorem Ring.init_of_notMem (hr : L.Ring h xs) (ha : a ∉ h :: xs) : (L.init a).Ring h xs :=
  hr.frame (fun _ hy => init_next_of_ne fun e => ha (e ▸ hy))
    fun _ hy => init_prev_of_ne fun e => ha (e ▸ hy)

theorem add_next (L : Links ι) (h n y : ι) :
    (L.add h n).next y = if y = h then n else if y = n then L.next h else L.next y := by
  simp [add, setNext, setPrev, Function.update_apply]

theorem add_prev (L : Links ι) (hn : n ≠ h) (y : ι) :
    (L.add h n).prev y = if y = L.next h then n else if y = n then h else L.prev y := by
  simp [add, setNext, setPrev, Function.update_apply, hn.symm]

/-- **Insertion** puts the node first. -/
theorem Ring.add (hr : L.Ring h xs) (hn : n ∉ h :: xs) : (L.add h n).Ring h (n :: xs) := by
  rw [List.mem_cons, not_or] at hn
  obtain ⟨hnh, hnx⟩ := hn
  have hnd := hr.nodup
  refine ⟨⟨by simp [add_next], ?_, ?_⟩, ?_⟩
  · rw [add_prev L hnh, if_neg, if_pos rfl]
    intro e
    have := hr.next_mem (a := h) (by simp)
    rw [← e] at this
    simp [hnh, hnx] at this
  · cases xs with
    | nil => exact ⟨by simp [add_next, hnh, hr.chain.1], by simp [add_prev L hnh, hr.chain.1]⟩
    | cons x xs =>
        obtain ⟨h₁, h₂, h₃⟩ := hr.chain
        rw [List.nodup_cons, List.nodup_cons] at hnd
        refine ⟨by simp [add_next, hnh, h₁], by simp [add_prev L hnh, h₁],
          h₃.frame (fun y hy => ?_) fun y hy => ?_⟩
        · rw [add_next, if_neg, if_neg]
          · rintro rfl; exact hnx hy
          · rintro rfl; exact hnd.1 hy
        · rw [add_prev L hnh, h₁, if_neg, if_neg]
          · rintro rfl
            rcases hy with hy | hy
            · exact hnx (List.mem_cons_of_mem _ hy)
            · exact hnh hy
          · rintro rfl
            rcases hy with hy | rfl
            · exact hnd.2.1 hy
            · exact hnd.1 (by simp)
  · rw [List.nodup_cons] at hnd ⊢
    rw [List.nodup_cons, List.mem_cons]
    exact ⟨by rintro (e | e); exacts [hnh e.symm, hnd.1 e], hnx, hnd.2⟩

/-- Insertion into another ring. -/
theorem Ring.add_of_disjoint {g : ι} {zs : List ι} (hr : L.Ring h xs) (hg : L.Ring g zs)
    (hn : n ∉ h :: xs) (hng : n ≠ g) (hd : ∀ y ∈ h :: xs, y ∉ g :: zs) : (L.add g n).Ring h xs := by
  refine hr.frame (fun y hy => ?_) fun y hy => ?_
  · rw [add_next, if_neg, if_neg]
    · rintro rfl; exact hn hy
    · rintro rfl; exact hd _ hy (by simp)
  · rw [add_prev L hng, if_neg, if_neg]
    · rintro rfl; exact hn hy
    · rintro rfl; exact hd _ hy (hg.next_mem (by simp))

theorem rem_next (L : Links ι) (hn : L.next a ≠ a) (y : ι) :
    (L.rem a).next y = if y = a then a else if y = L.prev a then L.next a else L.next y := by
  simp [rem, init, setNext, setPrev, Function.update_apply, hn.symm]

theorem rem_prev (L : Links ι) (a y : ι) :
    (L.rem a).prev y = if y = a then a else if y = L.next a then L.prev a else L.prev y := by
  simp [rem, init, setNext, setPrev, Function.update_apply]

/-- Initialising a node twice is initialising it once. -/
theorem init_init (L : Links ι) (a : ι) : (L.init a).init a = L.init a := by
  simp [init, setNext, setPrev]

/-- **Taken out and put back**, the only node of a ring leaves no trace. -/
theorem Ring.add_rem (hr : L.Ring h [a]) : ((L.rem a).init a).add h a = L := by
  obtain ⟨h₁, h₂, h₃, h₄⟩ := hr.chain
  have hne : h ≠ a := fun e => (List.nodup_cons.1 hr.nodup).1 (by simp [e])
  have hself : L.next a ≠ a := by
    rw [h₃]
    exact hne
  have hhead : ((L.rem a).init a).next h = h := by
    rw [init_next_of_ne hne, rem_next L hself, if_neg hne, if_pos h₂.symm, h₃]
  have hnext : (((L.rem a).init a).add h a).next = L.next := by
    ext y
    rw [add_next]
    split
    · rename_i hy
      rw [hy, h₁]
    · rename_i hyh
      split
      · rename_i hya
        rw [hhead, hya, h₃]
      · rename_i hya
        rw [init_next_of_ne hya, rem_next L hself, if_neg hya, h₂, if_neg hyh]
  have hprev : (((L.rem a).init a).add h a).prev = L.prev := by
    ext y
    rw [add_prev _ hne.symm, hhead]
    split
    · rename_i hy
      rw [hy, h₄]
    · rename_i hyh
      split
      · rename_i hya
        rw [hya, h₂]
      · rename_i hya
        rw [init_prev_of_ne hya, rem_prev, if_neg hya, h₃, if_neg hyh]
  calc ((L.rem a).init a).add h a
      = ⟨(((L.rem a).init a).add h a).next, (((L.rem a).init a).add h a).prev⟩ := rfl
    _ = L := by rw [hnext, hprev]

/-- Unlinking a node that is in no list changes nothing. -/
theorem rem_of_ring_nil (hr : L.Ring a []) : L.rem a = L := by
  obtain ⟨h₁, h₂⟩ := hr.chain
  obtain ⟨nx, pv⟩ := L
  simp only [rem, init, setNext, setPrev, mk.injEq] at h₁ h₂ ⊢
  constructor <;> ext y <;> by_cases hy : y = a <;> simp [h₁, h₂, hy]

/-- A chain through a node, with the node taken out. -/
theorem Chain.rem {b c : ι} {zs : List ι} (h₁ : L.Chain b zs a) (h₂ : L.Chain a ys c)
    (hpa : L.prev a ≠ a) (hna : L.next a ≠ a) (hb : b ∉ ys) (ha : a ∉ b :: zs) (hay : a ∉ c :: ys)
    (hnd : (b :: zs).Nodup) (hyc : (c :: ys).Nodup) (hd : ∀ y ∈ zs, y ∉ c :: ys) :
    (L.rem a).Chain b (zs ++ ys) c := by
  induction zs generalizing b with
  | nil =>
      have hab : L.prev a = b := h₁.2
      cases ys with
      | nil =>
          obtain ⟨e₁, -⟩ := h₂
          refine ⟨?_, ?_⟩
          · rw [rem_next L hna, if_neg (fun e => hpa (hab.trans e)), if_pos hab.symm, e₁]
          · rw [rem_prev, if_neg (fun e => hna (e₁.trans e)), if_pos e₁.symm, hab]
      | cons y ys =>
          obtain ⟨e₁, -, e₃⟩ := h₂
          refine ⟨?_, ?_, e₃.frame (fun z hz => ?_) fun z hz => ?_⟩
          · rw [rem_next L hna, if_neg (fun e => hpa (hab.trans e)), if_pos hab.symm, e₁]
          · rw [rem_prev, if_neg (fun e => hna (e₁.trans e)), if_pos e₁.symm, hab]
          · rw [rem_next L hna, if_neg (by rintro rfl; grind), if_neg (by rintro rfl; grind)]
          · rw [rem_prev, if_neg (by rintro rfl; grind), if_neg (by rintro rfl; grind)]
  | cons z zs ih =>
      obtain ⟨e₁, e₂, e₃⟩ := h₁
      have hpz : L.prev a ∈ z :: zs := e₃.prev_mem
      have hny : L.next a ∈ ys ++ [c] := h₂.next_mem
      have hbp : b ≠ L.prev a := fun e => (List.nodup_cons.1 hnd).1 (e ▸ hpz)
      have hzn : z ≠ L.next a := fun e => hd z (by simp) (by
        rw [← e] at hny
        simpa [or_comm] using hny)
      refine ⟨?_, ?_, ih e₃ (by grind) (by grind) hnd.of_cons (by grind)⟩
      · rw [rem_next L hna, if_neg (by grind), if_neg hbp, e₁]
      · rw [rem_prev, if_neg (by grind), if_neg hzn, e₂]

/-- **Removal** takes exactly the node out. -/
theorem Ring.rem (hr : L.Ring h (xs ++ a :: ys)) :
    (L.rem a).Ring h (xs ++ ys) ∧ (L.rem a).Ring a [] := by
  obtain ⟨hp, hn, hpa, hna⟩ := hr.neighbours
  have hnd := hr.nodup
  rw [List.nodup_cons, List.mem_append, List.nodup_middle, List.nodup_cons, List.mem_append] at hnd
  obtain ⟨h₁, h₂⟩ := chain_append.1 hr.chain
  refine ⟨⟨h₁.rem h₂ hpa hna ?_ ?_ ?_ ?_ ?_ ?_, ?_⟩,
    ⟨⟨by simp [rem_next L hna], by simp [rem_prev]⟩, by simp⟩⟩ <;> grind

/-- Removal from another ring. -/
theorem Ring.rem_of_disjoint {g : ι} {zs : List ι} (hr : L.Ring h xs) (hg : L.Ring g zs)
    (ha : a ∈ zs) (hd : ∀ y ∈ h :: xs, y ∉ g :: zs) : (L.rem a).Ring h xs := by
  obtain ⟨us, vs, rfl⟩ := List.append_of_mem ha
  obtain ⟨hp, hn, hpa, hna⟩ := hg.neighbours
  have hmem : a ∈ g :: (us ++ a :: vs) := by simp
  refine hr.frame (fun y hy => ?_) fun y hy => ?_
  · rw [rem_next L hna, if_neg, if_neg]
    · rintro rfl; exact hd _ hy (hg.prev_mem hmem)
    · rintro rfl; exact hd _ hy hmem
  · rw [rem_prev, if_neg, if_neg]
    · rintro rfl; exact hd _ hy (hg.next_mem hmem)
    · rintro rfl; exact hd _ hy hmem

/-! ## The other direction -/

omit [DecidableEq ι] in
theorem Chain.flip (hc : L.Chain a xs b) : L.flip.Chain b xs.reverse a := by
  induction xs generalizing a with
  | nil => exact hc.symm
  | cons x xs ih =>
      obtain ⟨h₁, h₂, h₃⟩ := hc
      rw [List.reverse_cons]
      exact chain_append.2 ⟨ih h₃, h₂, h₁⟩

omit [DecidableEq ι] in
/-- Read from its end a ring is the ring of the other direction. -/
theorem Ring.flip (hr : L.Ring h xs) : L.flip.Ring h xs.reverse :=
  ⟨hr.chain.flip, by simpa using hr.nodup⟩

/-- Insertion before the head is insertion after it, in the other direction. -/
theorem revAdd_eq (L : Links ι) (hn : n ≠ h) : L.revAdd h n = (L.flip.add h n).flip := by
  simp [revAdd, add, flip, setNext, setPrev, hn, hn.symm]

/-- **Insertion before the head** puts the node last. -/
theorem Ring.revAdd (hr : L.Ring h xs) (hn : n ∉ h :: xs) :
    (L.revAdd h n).Ring h (xs ++ [n]) := by
  have hnh : n ≠ h := fun e => hn (by simp [e])
  rw [revAdd_eq L hnh]
  simpa using (hr.flip.add (by simpa using hn)).flip

end Links

end VmwareProto
