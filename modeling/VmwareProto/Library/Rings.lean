import VmwareProto.Library.Ring
/-!
# Families of rings

Several list heads `H` over one set of elements `A` whose links are shared:
an element is in at most one list at a time. This is the shape of a hash
table whose entries, once taken out, go to a free list through the same
two links.
-/

namespace VmwareProto

/-- A list head or an element. -/
inductive Node (H A : Type*)
  | head (h : H)
  | elem (a : A)
  deriving DecidableEq

namespace Links

variable {H A : Type*} [DecidableEq H] [DecidableEq A]

/-- Every head's ring, and no element in two of them. -/
structure Rings (L : Links (Node H A)) (lists : H → List A) : Prop where
  ring : ∀ h, L.Ring (.head h) ((lists h).map .elem)
  apart : ∀ h g a, a ∈ lists h → a ∈ lists g → h = g

variable {L : Links (Node H A)} {lists : H → List A} {h : H} {a b : A}

omit [DecidableEq H] [DecidableEq A] in
theorem Rings.nodup (hR : L.Rings lists) (h : H) : (lists h).Nodup :=
  List.Nodup.of_map _ (List.nodup_cons.1 (hR.ring h).nodup).2

omit [DecidableEq H] [DecidableEq A] in
theorem elem_notMem (ha : a ∉ lists h) :
    Node.elem a ∉ Node.head h :: (lists h).map (Node.elem (H := H)) := by
  simpa using ha

omit [DecidableEq H] [DecidableEq A] in
/-- Two rings of a family have no node in common. -/
theorem Rings.disjoint (hR : L.Rings lists) {g : H} (hne : h ≠ g) :
    ∀ y ∈ Node.head h :: (lists h).map .elem, y ∉ Node.head g :: (lists g).map .elem := by
  intro y hy hy'
  simp only [List.mem_cons, List.mem_map] at hy hy'
  rcases hy with rfl | ⟨a, ha, rfl⟩
  · rcases hy' with e | ⟨b, -, e⟩
    · exact hne (Node.head.inj e)
    · cases e
  · rcases hy' with e | ⟨b, hb, e⟩
    · cases e
    · obtain rfl := Node.elem.inj e
      exact hne (hR.apart _ _ _ ha hb)

/-- Following the `next` links from the head `h`, one comes to `x`. -/
def Reaches (L : Links (Node H A)) (h : H) (x : Node H A) : Prop := ∃ n, L.next^[n] (.head h) = x

omit [DecidableEq H] [DecidableEq A] in
theorem Rings.reaches_elem_iff (hR : L.Rings lists) : L.Reaches h (.elem a) ↔ a ∈ lists h := by
  rw [Reaches, (hR.ring h).iterate_iff]
  simp

omit [DecidableEq H] [DecidableEq A] in
/-- From two heads one never comes to the same node. -/
theorem Rings.reaches_unique (hR : L.Rings lists) {g : H} {x : Node H A} (hx : L.Reaches h x)
    (hx' : L.Reaches g x) : h = g := by
  by_contra hne
  exact hR.disjoint hne x ((hR.ring h).iterate_iff.1 hx) ((hR.ring g).iterate_iff.1 hx')

/-- **Adding** an element that is in no list. -/
theorem Rings.add (hR : L.Rings lists) (ha : ∀ g, a ∉ lists g) (h : H) :
    (L.add (.head h) (.elem a)).Rings (Function.update lists h (a :: lists h)) where
  ring g := by
    by_cases hg : g = h
    · subst hg
      rw [Function.update_self, List.map_cons]
      exact (hR.ring g).add (elem_notMem (ha g))
    · rw [Function.update_of_ne hg]
      exact (hR.ring g).add_of_disjoint (hR.ring h) (elem_notMem (ha g)) (by simp)
        (hR.disjoint hg)
  apart g₁ g₂ b hb₁ hb₂ := by
    have hmem : ∀ g, b ∈ Function.update lists h (a :: lists h) g → g = h ∧ b = a ∨ b ∈ lists g :=
      fun g hb => by
        by_cases hg : g = h
        · subst hg
          rw [Function.update_self, List.mem_cons] at hb
          exact hb.imp_left fun e => ⟨rfl, e⟩
        · rw [Function.update_of_ne hg] at hb
          exact .inr hb
    rcases hmem _ hb₁ with ⟨rfl, rfl⟩ | hb₁ <;> rcases hmem _ hb₂ with ⟨hg, hb⟩ | hb₂
    · exact hg.symm
    · exact absurd hb₂ (ha g₂)
    · exact absurd (hb ▸ hb₁) (ha g₁)
    · exact hR.apart _ _ _ hb₁ hb₂

omit [DecidableEq H] [DecidableEq A] in
/-- Every list, read from its end. -/
theorem Rings.flip (hR : L.Rings lists) : L.flip.Rings fun g => (lists g).reverse where
  ring g := by
    rw [List.map_reverse]
    exact (hR.ring g).flip
  apart g₁ g₂ b hb₁ hb₂ := hR.apart g₁ g₂ b (List.mem_reverse.1 hb₁) (List.mem_reverse.1 hb₂)

/-- **Adding** at the end of a list. -/
theorem Rings.revAdd (hR : L.Rings lists) (ha : ∀ g, a ∉ lists g) (h : H) :
    (L.revAdd (.head h) (.elem a)).Rings (Function.update lists h (lists h ++ [a])) := by
  rw [Links.revAdd_eq L (by simp)]
  have hadd := (hR.flip.add (fun g hg => ha g (List.mem_reverse.1 hg)) h).flip
  refine (congrArg (Rings _) (funext fun g => ?_)).mp hadd
  by_cases hg : g = h
  · subst hg
    simp
  · simp [Function.update_of_ne hg]

/-- **Removing** an element from its list. -/
theorem Rings.rem (hR : L.Rings lists) (ha : a ∈ lists h) :
    (L.rem (.elem a)).Rings (Function.update lists h ((lists h).erase a)) := by
  obtain ⟨xs, ys, hlist⟩ := List.append_of_mem ha
  have hnd := hR.nodup h
  have hnot : a ∉ xs := by
    rw [hlist, List.nodup_append] at hnd
    exact fun hm => hnd.2.2 a hm a (by simp) rfl
  have herase : (lists h).erase a = xs ++ ys := by
    rw [hlist, List.erase_append_right _ hnot, List.erase_cons_head]
  refine ⟨fun g => ?_, fun g₁ g₂ b hb₁ hb₂ => ?_⟩
  · by_cases hg : g = h
    · subst hg
      rw [Function.update_self, herase, List.map_append]
      have := hR.ring g
      rw [hlist, List.map_append, List.map_cons] at this
      exact this.rem.1
    · rw [Function.update_of_ne hg]
      exact (hR.ring g).rem_of_disjoint (hR.ring h) (List.mem_map_of_mem ha) (hR.disjoint hg)
  · have hsub : ∀ g, b ∈ Function.update lists h ((lists h).erase a) g → b ∈ lists g := fun g hb => by
      rw [Function.update_apply] at hb
      split at hb
      · rename_i e; rw [e]; exact List.mem_of_mem_erase hb
      · exact hb
    exact hR.apart _ _ _ (hsub _ hb₁) (hsub _ hb₂)

/-- Initialising an element that is in no list. -/
theorem Rings.init (hR : L.Rings lists) (ha : ∀ g, a ∉ lists g) :
    (L.init (.elem a)).Rings lists where
  ring g := (hR.ring g).init_of_notMem (elem_notMem (ha g))
  apart := hR.apart

omit [DecidableEq H] [DecidableEq A] in
/-- Links that change only at elements that are in no list. -/
theorem Rings.frame {L' : Links (Node H A)} (hR : L.Rings lists)
    (hn : ∀ h, L'.next (.head h) = L.next (.head h) ∧ L'.prev (.head h) = L.prev (.head h))
    (he : ∀ h, ∀ b ∈ lists h, L'.next (.elem b) = L.next (.elem b) ∧
      L'.prev (.elem b) = L.prev (.elem b)) : L'.Rings lists where
  ring h := by
    refine (hR.ring h).frame (fun y hy => ?_) fun y hy => ?_
    · rcases List.mem_cons.1 hy with rfl | hy
      · exact (hn h).1
      · obtain ⟨b, hb, rfl⟩ := List.mem_map.1 hy
        exact (he h b hb).1
    · rcases List.mem_cons.1 hy with rfl | hy
      · exact (hn h).2
      · obtain ⟨b, hb, rfl⟩ := List.mem_map.1 hy
        exact (he h b hb).2
  apart := hR.apart

/-- A self-linked element is in no list. -/
theorem Rings.notMem_of_isEmpty (hR : L.Rings lists) (ha : L.isEmpty (.elem a) = true) (h : H) :
    a ∉ lists h := fun hm => by
  rw [(hR.ring h).isEmpty_of_mem (List.mem_map_of_mem hm)] at ha
  cases ha

theorem Rings.isEmpty_head_iff (hR : L.Rings lists) (h : H) :
    L.isEmpty (.head h) = true ↔ lists h = [] := by
  rw [(hR.ring h).isEmpty_iff, List.map_eq_nil_iff]

omit [DecidableEq H] [DecidableEq A] in
/-- What the head's `prev` shows of a list that is not empty. -/
theorem Rings.prev_head (hR : L.Rings lists) {xs : List A} (hl : lists h = xs ++ [a]) :
    L.prev (.head h) = .elem a := by
  have := hR.ring h
  rw [hl, List.map_append] at this
  exact this.prev_head

omit [DecidableEq H] [DecidableEq A] in
/-- And the head's `next`. -/
theorem Rings.next_head (hR : L.Rings lists) {xs : List A} (hl : lists h = a :: xs) :
    L.next (.head h) = .elem a := by
  have := hR.ring h
  rw [hl, List.map_cons] at this
  exact this.chain.1

omit [DecidableEq H] [DecidableEq A] in
/-- Nothing is linked to anything. -/
theorem rings_self : (⟨id, id⟩ : Links (Node H A)).Rings fun _ => [] where
  ring _ := ⟨⟨rfl, rfl⟩, by simp⟩
  apart := by simp

/-! ## Elements filed under labels -/

/-- The rings of a family in which each element says itself where it is. -/
structure Filed (L : Links (Node H A)) (lists : H → List A) (label : A → Option H) : Prop where
  rings : L.Rings lists
  mem : ∀ h a, a ∈ lists h ↔ label a = some h

variable {label : A → Option H}

omit [DecidableEq H] [DecidableEq A] in
theorem Filed.notMem (hF : L.Filed lists label) (ha : label a = none) (g : H) : a ∉ lists g := by
  rw [hF.mem, ha]
  simp

omit [DecidableEq H] [DecidableEq A] in
theorem Filed.congr {label' : A → Option H} (hF : L.Filed lists label)
    (hl : ∀ a, label' a = label a) : L.Filed lists label' :=
  ⟨hF.rings, fun h a => by rw [hl, hF.mem]⟩

/-- Filing an element that is in no list. -/
theorem Filed.add (hF : L.Filed lists label) (ha : label a = none) (h : H) :
    (L.add (.head h) (.elem a)).Filed (Function.update lists h (a :: lists h))
      (Function.update label a (some h)) := by
  refine ⟨hF.rings.add (hF.notMem ha) h, fun g b => ?_⟩
  by_cases hb : b = a
  · subst hb
    by_cases hg : g = h
    · subst hg
      simp
    · simp [hg, hF.mem, ha, Ne.symm hg]
  · by_cases hg : g = h
    · subst hg
      simp [hb, hF.mem]
    · simp [hg, hb, hF.mem]

/-- Taking one out. -/
theorem Filed.rem (hF : L.Filed lists label) (ha : label a = some h) :
    (L.rem (.elem a)).Filed (Function.update lists h ((lists h).erase a))
      (Function.update label a none) := by
  have hmem := (hF.mem h a).2 ha
  refine ⟨hF.rings.rem hmem, fun g b => ?_⟩
  by_cases hg : g = h
  · subst hg
    rw [Function.update_self, (hF.rings.nodup g).mem_erase_iff]
    by_cases hb : b = a
    · simp [hb]
    · simp [hb, hF.mem]
  · rw [Function.update_of_ne hg, hF.mem]
    by_cases hb : b = a
    · subst hb
      simp [ha, Ne.symm hg]
    · simp [hb]

/-- Initialising the links of an element that is in no list. -/
theorem Filed.init (hF : L.Filed lists label) (ha : label a = none) :
    (L.init (.elem a)).Filed lists label :=
  ⟨hF.rings.init (hF.notMem ha), hF.mem⟩

/-- Elements filed one after the other under one head. -/
theorem Filed.foldl (as : List A) (hF : L.Filed lists label) (hnd : as.Nodup)
    (ha : ∀ a ∈ as, label a = none) (h : H) :
    (as.foldl (fun L a => (L.init (.elem a)).add (.head h) (.elem a)) L).Filed
      (Function.update lists h (as.reverse ++ lists h))
      (fun a => if a ∈ as then some h else label a) := by
  induction as generalizing L lists label with
  | nil => simpa using hF
  | cons a as ih =>
      rw [List.nodup_cons] at hnd
      have hadd := (hF.init (ha a (by simp))).add (ha a (by simp)) h
      have hrest : ∀ b ∈ as, Function.update label a (some h) b = none := fun b hb => by
        have hba : b ≠ a := fun e => hnd.1 (e ▸ hb)
        rw [Function.update_of_ne hba]
        exact ha b (by simp [hb])
      have := ih hadd hnd.2 hrest
      rw [List.foldl_cons]
      simp only [Function.update_self, Function.update_idem] at this
      refine ⟨by simpa using this.rings, fun g b => ?_⟩
      have hm := this.mem g b
      simp only [List.reverse_cons, List.append_assoc, List.singleton_append]
      rw [hm]
      by_cases hb : b = a
      · subst hb
        simp [hnd.1]
      · simp [hb]

/-! ## Walking a list -/

/-- Follow `next` from a node to the head, looking for an element. Elements
that cannot be read are `none`, and so is a head that is not the list's
own, or running out of fuel. -/
def find (L : Links (Node H A)) (h : H) (p : A → Option Bool) : ℕ → Node H A → Option (Option A)
  | 0, _ => none
  | fuel + 1, t =>
      match t with
      | .head g => if g = h then some none else none
      | .elem a =>
          match p a with
          | none => none
          | some true => some (some a)
          | some false => find L h p fuel (L.next t)

omit [DecidableEq A] in
/-- **The walk finds the first match**, in a ring and with fuel for one
step more than it is long. -/
theorem Rings.find_eq (hR : L.Rings lists) {p : A → Option Bool} {q : A → Bool}
    (hp : ∀ a ∈ lists h, p a = some (q a)) {fuel : ℕ} (hf : (lists h).length < fuel) :
    L.find h p fuel (L.next (.head h)) = some ((lists h).find? q) := by
  have key : ∀ (xs : List A) (t : Node H A) (fuel : ℕ), L.Chain t (xs.map .elem) (.head h) →
      (∀ a ∈ xs, p a = some (q a)) → xs.length < fuel →
      L.find h p fuel (L.next t) = some (xs.find? q) := by
    intro xs
    induction xs with
    | nil =>
        rintro t (_ | fuel) hc - hf
        · exact absurd hf (by simp)
        · simp [find, hc.1]
    | cons x xs ih =>
        rintro t (_ | fuel) hc hq hf
        · exact absurd hf (by simp)
        · obtain ⟨h₁, -, h₃⟩ := hc
          rw [h₁, find]
          have hrest := ih _ _ h₃ (fun a ha => hq a (List.mem_cons_of_mem _ ha))
            (by simpa using hf : xs.length < fuel)
          cases hx : q x <;> simp [hq x, hx, hrest]
  exact key _ _ _ (hR.ring h).chain hp hf

end Links

end VmwareProto
