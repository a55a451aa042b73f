import VmwareProto.Library.Ring
import Mathlib.Data.List.Cycle
/-!
# Links as a set of cycles

Links in which every node is in a ring are a set of disjoint cycles, with no
node that would be the head of one. Each list operation is one on that set:
it takes the cycles of its two nodes out and puts others in. Cycles that are
there and have all the nodes are all the cycles, so of an operation there is
only to show which cycles are there afterwards.
-/

namespace VmwareProto

namespace Links

variable {ι : Type*} {L : Links ι} {a b h n : ι} {xs ys zs : List ι} {c d : Cycle ι}
  {S : Set (Cycle ι)}

/-- `b` comes behind `a`, in both directions. -/
def Joined (L : Links ι) (a b : ι) : Prop := L.next a = b ∧ L.prev b = a

/-- The circular lists of `L`. -/
def cycles (L : Links ι) : Set (Cycle ι) := {c | c ≠ Cycle.nil ∧ c.Nodup ∧ c.Chain L.Joined}

/-- **The nodes form disjoint circular lists**: each is in one. -/
def WellFormed (L : Links ι) : Prop := ∀ a, ∃ c ∈ L.cycles, a ∈ c

/-- A node that is a list of its own. -/
def Unlinked (L : Links ι) (a : ι) : Prop := L.Ring a []

/-! ## Cycles and rings -/

theorem chain_iff_isChain : L.Chain a xs b ↔ List.IsChain L.Joined (a :: (xs ++ [b])) := by
  induction xs generalizing a with
  | nil => simp [Chain, Joined]
  | cons x xs ih => simp [Chain, Joined, ih, and_assoc]

/-- A ring is a cycle, looked at from its head. -/
theorem coe_mem_cycles : ((h :: xs : List ι) : Cycle ι) ∈ L.cycles ↔ L.Ring h xs := by
  have hne : ((h :: xs : List ι) : Cycle ι) ≠ Cycle.nil := by simp
  constructor
  · rintro ⟨-, hnd, hc⟩
    exact ⟨chain_iff_isChain.2 ((Cycle.chain_coe_cons _ _ _).1 hc), Cycle.nodup_coe_iff.1 hnd⟩
  · intro hr
    refine ⟨hne, Cycle.nodup_coe_iff.2 hr.nodup, ?_⟩
    exact (Cycle.chain_coe_cons _ _ _).2 (chain_iff_isChain.1 hr.chain)

/-- A cycle can be looked at from each of its nodes. -/
theorem exists_eq_coe (ha : a ∈ c) : ∃ xs : List ι, c = ((a :: xs : List ι) : Cycle ι) := by
  obtain ⟨l, rfl⟩ := Quot.exists_rep c
  obtain ⟨xs, ys, hl⟩ := List.append_of_mem (Cycle.mem_coe_iff.1 ha)
  refine ⟨ys ++ xs, Cycle.coe_eq_coe.2 ?_⟩
  rw [hl]
  exact List.isRotated_append

theorem exists_mem_of_mem_cycles (hc : c ∈ L.cycles) : ∃ a, a ∈ c := by
  obtain ⟨l, rfl⟩ := Quot.exists_rep c
  cases l with
  | nil => exact absurd rfl hc.1
  | cons a xs => exact ⟨a, Cycle.mem_coe_iff.2 List.mem_cons_self⟩

theorem WellFormed.ring (hL : L.WellFormed) (a : ι) : ∃ xs, L.Ring a xs := by
  obtain ⟨c, hc, ha⟩ := hL a
  obtain ⟨xs, rfl⟩ := exists_eq_coe ha
  exact ⟨xs, coe_mem_cycles.1 hc⟩

/-- A chain is determined by where it starts and where it ends. -/
theorem Chain.unique (hx : L.Chain a xs b) (hy : L.Chain a ys b) (hbx : b ∉ xs) (hby : b ∉ ys) :
    xs = ys := by
  induction xs generalizing a ys with
  | nil =>
      cases ys with
      | nil => rfl
      | cons y ys => exact absurd (hx.1.symm.trans hy.1) fun e => hby (e ▸ List.mem_cons_self)
  | cons x xs ih =>
      cases ys with
      | nil => exact absurd (hy.1.symm.trans hx.1) fun e => hbx (e ▸ List.mem_cons_self)
      | cons y ys =>
          obtain rfl : x = y := hx.1.symm.trans hy.1
          rw [ih hx.2.2 hy.2.2 (fun hb => hbx (List.mem_cons_of_mem _ hb)) fun hb =>
            hby (List.mem_cons_of_mem _ hb)]

theorem Ring.unique (hx : L.Ring h xs) (hy : L.Ring h ys) : xs = ys :=
  hx.chain.unique hy.chain (List.nodup_cons.1 hx.nodup).1 (List.nodup_cons.1 hy.nodup).1

/-- **Two cycles have no node in common.** -/
theorem eq_of_mem_cycles (hc : c ∈ L.cycles) (hd : d ∈ L.cycles) (hac : a ∈ c) (had : a ∈ d) :
    c = d := by
  obtain ⟨xs, rfl⟩ := exists_eq_coe hac
  obtain ⟨ys, rfl⟩ := exists_eq_coe had
  rw [(coe_mem_cycles.1 hc).unique (coe_mem_cycles.1 hd)]

/-- **Cycles that have all the nodes are all the cycles.** -/
theorem cycles_eq_of_cover (hS : S ⊆ L.cycles) (hall : ∀ a, ∃ c ∈ S, a ∈ c) :
    L.cycles = S ∧ L.WellFormed := by
  refine ⟨Set.Subset.antisymm (fun c hc => ?_) hS, fun a => ?_⟩
  · obtain ⟨a, ha⟩ := exists_mem_of_mem_cycles hc
    obtain ⟨d, hd, had⟩ := hall a
    rwa [eq_of_mem_cycles hc (hS hd) ha had]
  · obtain ⟨c, hc, ha⟩ := hall a
    exact ⟨c, hS hc, ha⟩

/-! ## What an operation does to the set -/

/-- `n`, a list of its own, goes right behind `h`. -/
def insertAfter (C : Set (Cycle ι)) (h n : ι) : Set (Cycle ι) :=
  {c | c ∈ C ∧ h ∉ c ∧ n ∉ c} ∪
    {c | ∃ xs : List ι, ((h :: xs : List ι) : Cycle ι) ∈ C ∧ c = (h :: n :: xs : List ι)}

/-- `n`, a list of its own, goes right before `h`. -/
def insertBefore (C : Set (Cycle ι)) (h n : ι) : Set (Cycle ι) :=
  {c | c ∈ C ∧ h ∉ c ∧ n ∉ c} ∪
    {c | ∃ xs : List ι, ((h :: xs : List ι) : Cycle ι) ∈ C ∧ c = (n :: h :: xs : List ι)}

/-- `a` becomes a list of its own. -/
def remove (C : Set (Cycle ι)) (a : ι) : Set (Cycle ι) :=
  {c | c ∈ C ∧ a ∉ c} ∪ {c | c = ([a] : List ι)} ∪
    {c | ∃ xs : List ι, xs ≠ [] ∧ ((a :: xs : List ι) : Cycle ι) ∈ C ∧ c = (xs : List ι)}

/-- `n`, a list of its own, takes the place of `h`, which becomes one. -/
def replace (C : Set (Cycle ι)) (h n : ι) : Set (Cycle ι) :=
  {c | c ∈ C ∧ h ∉ c ∧ n ∉ c} ∪ {c | c = ([h] : List ι)} ∪
    {c | ∃ xs : List ι, ((h :: xs : List ι) : Cycle ι) ∈ C ∧ c = (n :: xs : List ι)}

/-- A ring has nothing of a cycle that lacks one of its nodes. -/
theorem Ring.disjoint (hr : L.Ring h xs) (ha : a ∈ h :: xs)
    (hc : ((b :: ys : List ι) : Cycle ι) ∈ L.cycles) (hac : a ∉ ((b :: ys : List ι) : Cycle ι)) :
    ∀ y ∈ b :: ys, y ∉ h :: xs := by
  intro y hy hy'
  have he := eq_of_mem_cycles hc (coe_mem_cycles.2 hr) (Cycle.mem_coe_iff.2 hy)
    (Cycle.mem_coe_iff.2 hy')
  rw [he] at hac
  exact hac (Cycle.mem_coe_iff.2 ha)

theorem Unlinked.eq_of_mem (hn : L.Unlinked n) (hc : c ∈ L.cycles) (hnc : n ∈ c) :
    c = ([n] : List ι) :=
  eq_of_mem_cycles hc (coe_mem_cycles.2 hn) hnc (Cycle.mem_coe_iff.2 List.mem_cons_self)

theorem Unlinked.notMem (hn : L.Unlinked n) (hr : L.Ring h xs) (hne : n ≠ h) : n ∉ h :: xs := by
  intro hmem
  have he := hn.eq_of_mem (coe_mem_cycles.2 hr) (Cycle.mem_coe_iff.2 hmem)
  have hh : h ∈ (([n] : List ι) : Cycle ι) := by
    rw [← he]
    exact Cycle.mem_coe_iff.2 List.mem_cons_self
  exact hne (List.mem_singleton.1 (Cycle.mem_coe_iff.1 hh)).symm

/-- A node is in the cycle of `h`, or it is the unlinked `n`, or neither is with it. -/
theorem WellFormed.mem_cases (hL : L.WellFormed) (hn : L.Unlinked n) (h a : ι) :
    (∃ c ∈ L.cycles, h ∉ c ∧ n ∉ c ∧ a ∈ c) ∨ a = n ∨
      ∃ xs : List ι, ((h :: xs : List ι) : Cycle ι) ∈ L.cycles ∧ a ∈ h :: xs := by
  obtain ⟨c, hc, ha⟩ := hL a
  by_cases hh : h ∈ c
  · obtain ⟨xs, rfl⟩ := exists_eq_coe hh
    exact .inr (.inr ⟨xs, hc, Cycle.mem_coe_iff.1 ha⟩)
  · by_cases hnc : n ∈ c
    · rw [hn.eq_of_mem hc hnc, Cycle.mem_coe_iff, List.mem_singleton] at ha
      exact .inr (.inl ha)
    · exact .inl ⟨c, hc, hh, hnc, ha⟩

/-- **`n` joins the list of `h`**, which `joined` says what it makes of: all
other lists stay, and the nodes are all there. -/
theorem WellFormed.cycles_beside (hL : L.WellFormed) (hn : L.Unlinked n) {L' : Links ι}
    {joined : List ι → List ι} (hother : ∀ c ∈ L.cycles, h ∉ c → n ∉ c → c ∈ L'.cycles)
    (hjoined : ∀ xs, L.Ring h xs → (joined xs : Cycle ι) ∈ L'.cycles)
    (hmem : ∀ xs a, a = n ∨ a ∈ h :: xs → a ∈ joined xs) :
    L'.cycles = {c | c ∈ L.cycles ∧ h ∉ c ∧ n ∉ c} ∪
      {c | ∃ xs : List ι, ((h :: xs : List ι) : Cycle ι) ∈ L.cycles ∧ c = joined xs} ∧
    L'.WellFormed := by
  refine cycles_eq_of_cover (fun c hc => ?_) fun a => ?_
  · rcases hc with ⟨hc, hh, hnc⟩ | ⟨xs, hxs, rfl⟩
    · exact hother c hc hh hnc
    · exact hjoined xs (coe_mem_cycles.1 hxs)
  · rcases hL.mem_cases hn h a with ⟨c, hc, hh, hnc, ha⟩ | ha | ⟨xs, hxs, ha⟩
    · exact ⟨c, .inl ⟨hc, hh, hnc⟩, ha⟩
    · obtain ⟨xs, hr⟩ := hL.ring h
      exact ⟨_, .inr ⟨xs, coe_mem_cycles.2 hr, rfl⟩, Cycle.mem_coe_iff.2 (hmem xs a (.inl ha))⟩
    · exact ⟨_, .inr ⟨xs, hxs, rfl⟩, Cycle.mem_coe_iff.2 (hmem xs a (.inr ha))⟩

/-- Nothing is linked to anything. -/
theorem wellFormed_self : (⟨id, id⟩ : Links ι).WellFormed := fun a => by
  have hr : (⟨id, id⟩ : Links ι).Ring a [] := ⟨⟨rfl, rfl⟩, List.nodup_singleton a⟩
  exact ⟨_, coe_mem_cycles.2 hr, Cycle.mem_coe_iff.2 List.mem_cons_self⟩

variable [DecidableEq ι]

/-- A node that is linked to itself is a list of its own. -/
theorem WellFormed.unlinked (hL : L.WellFormed) (ha : L.isEmpty a = true) : L.Unlinked a := by
  obtain ⟨xs, hr⟩ := hL.ring a
  obtain rfl := hr.isEmpty_iff.1 ha
  exact hr

/-- Insert `n` after `h` and take `h` out. -/
def move (L : Links ι) (h n : ι) : Links ι := (L.add h n).rem h

/-- **Insertion after a node.** -/
theorem cycles_add (hL : L.WellFormed) (hn : L.Unlinked n) (hne : n ≠ h) :
    (L.add h n).cycles = insertAfter L.cycles h n ∧ (L.add h n).WellFormed := by
  obtain ⟨xs, hr⟩ := hL.ring h
  refine hL.cycles_beside hn (fun c hc hh hnc => ?_) (fun ys hys => ?_) fun ys a ha => ?_
  · obtain ⟨b, hb⟩ := exists_mem_of_mem_cycles hc
    obtain ⟨ys, rfl⟩ := exists_eq_coe hb
    exact coe_mem_cycles.2 ((coe_mem_cycles.1 hc).add_of_disjoint hr
      (fun hmem => hnc (Cycle.mem_coe_iff.2 hmem)) hne (hr.disjoint List.mem_cons_self hc hh))
  · exact coe_mem_cycles.2 (hys.add (hn.notMem hys hne))
  · rcases ha with rfl | ha
    · exact List.mem_cons_of_mem _ List.mem_cons_self
    · rcases List.mem_cons.1 ha with rfl | ha
      · exact List.mem_cons_self
      · exact List.mem_cons_of_mem _ (List.mem_cons_of_mem _ ha)

/-- A node that is a list of its own is after itself already. -/
theorem add_self (hn : L.Unlinked n) : L.add n n = L := by
  obtain ⟨h₁, h₂⟩ := hn.chain
  obtain ⟨nx, pv⟩ := L
  simp only [add, setNext, setPrev, mk.injEq] at h₁ h₂ ⊢
  constructor <;> ext y <;> by_cases hy : y = n <;> simp [h₁, h₂, hy]

/-- Insertion before a node of another ring. -/
theorem Ring.revAdd_of_disjoint {g : ι} (hr : L.Ring h xs) (hg : L.Ring g zs) (hn : n ∉ h :: xs)
    (hng : n ≠ g) (hd : ∀ y ∈ h :: xs, y ∉ g :: zs) : (L.revAdd g n).Ring h xs := by
  rw [revAdd_eq L hng]
  have hflip := hr.flip.add_of_disjoint hg.flip (by simpa using hn) hng (by simpa using hd)
  simpa using hflip.flip

/-- **Insertion before a node.** -/
theorem cycles_revAdd (hL : L.WellFormed) (hn : L.Unlinked n) (hne : n ≠ h) :
    (L.revAdd h n).cycles = insertBefore L.cycles h n ∧ (L.revAdd h n).WellFormed := by
  obtain ⟨xs, hr⟩ := hL.ring h
  refine hL.cycles_beside hn (fun c hc hh hnc => ?_) (fun ys hys => ?_) fun ys a ha => ?_
  · obtain ⟨b, hb⟩ := exists_mem_of_mem_cycles hc
    obtain ⟨ys, rfl⟩ := exists_eq_coe hb
    exact coe_mem_cycles.2 ((coe_mem_cycles.1 hc).revAdd_of_disjoint hr
      (fun hmem => hnc (Cycle.mem_coe_iff.2 hmem)) hne (hr.disjoint List.mem_cons_self hc hh))
  · rw [Cycle.coe_cons_eq_coe_append]
    exact coe_mem_cycles.2 (hys.revAdd (hn.notMem hys hne))
  · rcases ha with rfl | ha
    · exact List.mem_cons_self
    · exact List.mem_cons_of_mem _ ha

/-- And before itself. -/
theorem revAdd_self (hn : L.Unlinked n) : L.revAdd n n = L := by
  obtain ⟨h₁, h₂⟩ := hn.chain
  obtain ⟨nx, pv⟩ := L
  simp only [revAdd, setNext, setPrev, mk.injEq] at h₁ h₂ ⊢
  constructor <;> ext y <;> by_cases hy : y = n <;> simp [h₁, h₂, hy]

/-- **Removal**, of any node. -/
theorem cycles_rem (hL : L.WellFormed) (a : ι) :
    (L.rem a).cycles = remove L.cycles a ∧ (L.rem a).WellFormed := by
  refine cycles_eq_of_cover (fun c hc => ?_) fun b => ?_
  · obtain ⟨xs, hr⟩ := hL.ring a
    cases xs with
    | nil =>
        rw [rem_of_ring_nil hr]
        rcases hc with (⟨hc, -⟩ | rfl) | ⟨ys, hne, hys, -⟩
        · exact hc
        · exact coe_mem_cycles.2 hr
        · exact absurd ((coe_mem_cycles.1 hys).unique hr) hne
    | cons x xs =>
        -- the ring of `a`, from the node behind it
        have hx : L.Ring x (xs ++ [a]) := by
          rw [← coe_mem_cycles, Cycle.coe_cons_eq_coe_append] at hr
          exact coe_mem_cycles.1 hr
        obtain ⟨hrest, hself⟩ := hx.rem
        rw [List.append_nil] at hrest
        rcases hc with (⟨hc, hac⟩ | rfl) | ⟨ys, -, hys, rfl⟩
        · obtain ⟨b, hb⟩ := exists_mem_of_mem_cycles hc
          obtain ⟨ys, rfl⟩ := exists_eq_coe hb
          exact coe_mem_cycles.2 ((coe_mem_cycles.1 hc).rem_of_disjoint hx (by simp)
            (hx.disjoint (by simp) hc hac))
        · exact coe_mem_cycles.2 hself
        · rw [(coe_mem_cycles.1 hys).unique hr]
          exact coe_mem_cycles.2 hrest
  · obtain ⟨c, hc, hb⟩ := hL b
    by_cases ha : a ∈ c
    · obtain ⟨xs, rfl⟩ := exists_eq_coe ha
      rcases List.mem_cons.1 (Cycle.mem_coe_iff.1 hb) with rfl | hb
      · exact ⟨_, .inl (.inr rfl), by simp⟩
      · exact ⟨_, .inr ⟨xs, List.ne_nil_of_mem hb, hc, rfl⟩, Cycle.mem_coe_iff.2 hb⟩
    · exact ⟨c, .inl (.inl ⟨hc, ha⟩), hb⟩

/-- **Replacement.** -/
theorem cycles_move (hL : L.WellFormed) (hn : L.Unlinked n) (h : ι) :
    (L.move h n).cycles = replace L.cycles h n ∧ (L.move h n).WellFormed := by
  refine cycles_eq_of_cover (fun c hc => ?_) fun a => ?_
  · by_cases hne : n = h
    · subst hne
      rw [move, add_self hn, rem_of_ring_nil hn]
      rcases hc with (⟨hc, -, -⟩ | rfl) | ⟨ys, hys, rfl⟩
      · exact hc
      · exact coe_mem_cycles.2 hn
      · exact hys
    · obtain ⟨hadd, hL'⟩ := cycles_add hL hn hne
      rw [move, (cycles_rem hL' h).1, hadd]
      rcases hc with (⟨hc, hh, hnc⟩ | rfl) | ⟨ys, hys, rfl⟩
      · exact .inl (.inl ⟨.inl ⟨hc, hh, hnc⟩, hh⟩)
      · exact .inl (.inr rfl)
      · exact .inr ⟨n :: ys, by simp, .inr ⟨ys, hys, rfl⟩, rfl⟩
  · obtain ⟨xs, hr⟩ := hL.ring h
    rcases hL.mem_cases hn h a with ⟨c, hc, hh, hnc, ha⟩ | rfl | ⟨ys, hys, ha⟩
    · exact ⟨c, .inl (.inl ⟨hc, hh, hnc⟩), ha⟩
    · exact ⟨_, .inr ⟨xs, coe_mem_cycles.2 hr, rfl⟩, by simp⟩
    · rcases List.mem_cons.1 ha with rfl | ha
      · exact ⟨_, .inl (.inr rfl), by simp⟩
      · exact ⟨_, .inr ⟨ys, hys, rfl⟩, Cycle.mem_coe_iff.2 (List.mem_cons_of_mem _ ha)⟩

end Links

end VmwareProto
