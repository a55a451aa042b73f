import VmwareProto.RangeLock.Waiting
/-!
# The tree as a set of intervals

What the tree is for: a set of disjoint closed intervals, each with the
address of the node that stores it. `Stored` is that set as it is found in
memory. An insertion adds one element or none, a deletion takes one away,
and what a node holds goes with its address: fixups and transplants move
links only. A search finds an element exactly if there is one to find.
-/

namespace VmwareProto

namespace RangeLock

open VmwareProto.Tree Ctx

/-- The nodes in the tree, by address, with the fields that are not links. -/
def Stored (m : Mem) : Set (Addr × NodeData) := {y | InTree m y.1 ∧ m.data y.1 = some y.2}

/-- A stored interval and the one two bounds span share a point. -/
def Touches (y : Addr × NodeData) (s e : ℕ) : Prop := (y.2.range ∩ span s e).Nonempty

variable {m : Mem} {t : Shape} {a : Addr} {x : NodeData} {y : Addr × NodeData} {s e : ℕ}

theorem Models.mem_stored (hm : Models m t) : y ∈ Stored m ↔ y ∈ t.toList := by
  constructor
  · rintro ⟨hin, hdata⟩
    exact mem_of_data hm (hm.inTree_iff.1 hin) hdata
  · intro hy
    exact ⟨hm.inTree_iff.2 (List.mem_map.2 ⟨y, hy, rfl⟩), data_of_mem hm hy⟩

/-- A proper interval meets a span if and only if the two share a point. -/
theorem meets_iff_touches (hy : y.2.start ≤ y.2.stop) :
    Meets y.2 (min s e) (max s e) ↔ Touches y s e := by
  rw [Touches, NodeData.range, span, Set.Icc_inter_Icc, Set.nonempty_Icc, Meets]
  omega

theorem Ordered.touches_iff (ho : Ordered t) (hy : y ∈ t.toList) :
    Meets y.2 (min s e) (max s e) ↔ Touches y s e :=
  meets_iff_touches (((ordered_iff t).1 ho).proper y hy)

/-! ## Insertion and deletion -/

/-- **`rb_insert` and `rb_delete` on the set.** In a valid tree an
insertion that touches a stored interval returns one it touches and
changes nothing; another one adds its sorted bounds on the node `malloc`
returns, or changes nothing where there is none; a deletion takes away the
node it is given. What the other nodes store stays with their addresses. -/
theorem tree_refines_intervals (hv : Valid m t) :
    (Stored m).Pairwise (fun y z => Disjoint y.2.range z.2.range) ∧
    (∀ s e alloc, (∀ a, alloc = some a → m.heap a = none) →
      ((∃ y ∈ Stored m, Touches y s e) →
        ∃ y ∈ Stored m, Touches y s e ∧ rbInsert m s e alloc = some (m, some y.1)) ∧
      ((∀ y ∈ Stored m, ¬ Touches y s e) →
        (alloc = none → rbInsert m s e alloc = some (m, none)) ∧
        ∀ a, alloc = some a → ∃ m' x, rbInsert m s e alloc = some (m', some a) ∧
          x.start = min s e ∧ x.stop = max s e ∧ x.rendez = [] ∧ ¬ InTree m a ∧
          Stored m' = insert (a, x) (Stored m) ∧ ∃ t', Valid m' t')) ∧
    ∀ y ∈ Stored m, ∃ m', rbDelete m (some y.1) = some m' ∧ Stored m' = Stored m \ {y} ∧
      m'.data y.1 = some y.2 ∧ ∃ t', Valid m' t' := by
  have hmem : ∀ y, y ∈ Stored m ↔ y ∈ t.toList := fun y => hv.models.mem_stored
  refine ⟨?_, fun s e alloc halloc => ?_, fun y hy => ?_⟩
  · intro y hy z hz hne
    have hd : t.toList.Pairwise fun y z => Disjoint y.2.range z.2.range :=
      ((ordered_iff t).1 hv.ordered).apart.imp fun {y z} h =>
        Set.disjoint_left.2 fun p hp hp' => absurd (hp'.1.trans hp.2) (by omega)
    have : Std.Symm fun y z : Addr × NodeData => Disjoint y.2.range z.2.range := ⟨fun _ _ h => h.symm⟩
    exact hd.forall ((hmem y).1 hy) ((hmem z).1 hz) hne
  · rcases rbInsert_spec hv s e halloc with ⟨a, x, hx, hmeet, hrun⟩ | ⟨hmiss, hrest⟩
    · have htouch := (hv.ordered.touches_iff hx).1 hmeet
      exact ⟨fun _ => ⟨(a, x), (hmem _).2 hx, htouch, hrun⟩,
        fun h => absurd htouch (h _ ((hmem _).2 hx))⟩
    · refine ⟨fun ⟨y, hy, htouch⟩ => ?_, fun _ => ⟨?_, ?_⟩⟩
      · have hy' := (hmem y).1 hy
        exact absurd ((hv.ordered.touches_iff hy').2 htouch) (hmiss y hy')
      · rintro rfl
        rcases hrest with ⟨-, hrun⟩ | ⟨a, _, _, _, _, ha, -⟩
        · exact hrun
        · cases ha
      · rintro a rfl
        rcases hrest with ⟨h, -⟩ | ⟨b, m', t', xs, ys, hb, hrun, hv', ht, ht', -⟩
        · cases h
        · obtain rfl : a = b := Option.some.inj hb
          refine ⟨m', ⟨min s e, max s e, 0, []⟩, hrun, rfl, rfl, rfl, fun hin => ?_, Set.ext fun z => ?_, t', hv'⟩
          · have := hv.models.rep.isSome (hv.models.inTree_iff.1 hin)
            rw [halloc a rfl] at this
            cases this
          · rw [hv'.models.mem_stored, Set.mem_insert_iff, hmem, ht, ht']
            simp only [List.mem_append, List.mem_cons]
            tauto
  · obtain ⟨m', t', xs, ys, hrun, hv', ht, ht', hframe⟩ := rbDelete_spec hv ((hmem y).1 hy)
    have hnd : (xs ++ y :: ys).Nodup := by
      rw [← ht]
      exact hv.models.nodup.of_map
    have hids := hv.models.nodup
    rw [Tree.ids, ht, List.map_append, List.map_cons, List.nodup_middle, List.nodup_cons] at hids
    refine ⟨m', hrun, Set.ext fun z => ?_, ?_, t', hv'⟩
    · rw [hv'.models.mem_stored, Set.mem_sdiff, hmem, ht, ht', Set.mem_singleton_iff]
      rw [List.nodup_middle, List.nodup_cons, List.mem_append] at hnd
      simp only [List.mem_append, List.mem_cons]
      constructor
      · intro hz
        exact ⟨by tauto, fun e => hnd.1 (e ▸ hz)⟩
      · tauto
    · have hout : y.1 ∉ t'.ids := by
        rw [Tree.ids, ht', List.map_append]
        exact hids.1
      rw [← hy.2, Mem.data, Mem.data, hframe _ hout]

/-- What is stored can be listed. -/
theorem Valid.mem_stored_iff (hv : Valid m t) :
    y ∈ Stored m ↔ y.1 ∈ m.below m.count m.root ∧ m.data y.1 = some y.2 :=
  and_congr_left' hv.inTree_iff_below

/-- Every stored interval is proper, and `P` holds of it. -/
def AllStored (m : Mem) (P : Addr → NodeData → Prop) : Prop :=
  ∀ a ∈ m.below m.count m.root, ∀ x ∈ m.data a, x.start ≤ x.stop ∧ P a x

instance (m : Mem) (P : Addr → NodeData → Prop) [∀ a x, Decidable (P a x)] :
    Decidable (AllStored m P) := inferInstanceAs (Decidable (∀ a ∈ _, ∀ x ∈ _, _ ∧ P a x))

theorem AllStored.of_mem {P : Addr → NodeData → Prop} (h : AllStored m P) (hv : Valid m t)
    (hy : y ∈ Stored m) : y.2.start ≤ y.2.stop ∧ P y.1 y.2 :=
  h _ (hv.mem_stored_iff.1 hy).1 _ (hv.mem_stored_iff.1 hy).2

/-- In the tree of seven, `[12, 8]` finds node 1, `[95, 91]` goes in, and
node 1 goes out from above two subtrees. -/
theorem tree_refines_intervals_seven : ∃ m x m₁ m₂, treeSystem.Reachable m ∧ m.count = 7 ∧
    (1, x) ∈ Stored m ∧ (∃ n ∈ m.heap 1, n.left ≠ none ∧ n.right ≠ none) ∧
    rbInsert m 12 8 none = some (m, some 1) ∧
    rbInsert m 95 91 (some 9) = some (m₁, some 9) ∧
    (∃ z, z.start = 91 ∧ z.stop = 95 ∧ Stored m₁ = insert (9, z) (Stored m)) ∧
    rbDelete m (some 1) = some m₂ ∧ Stored m₂ = Stored m \ {(1, x)} := by
  obtain ⟨m, hr, hp⟩ := reachable_of_ready sevenIntervals (fun m =>
    decide (m.count = 7 ∧ (∃ n ∈ m.heap 1, n.left ≠ none ∧ n.right ≠ none) ∧
      (∃ x ∈ m.data 1, Meets x 8 12) ∧ 1 ∈ m.below m.count m.root ∧ m.heap 9 = none ∧
      AllStored m (fun a x => Meets x 8 12 → a = 1) ∧ AllStored m fun _ x => ¬ Meets x 91 95))
    (by decide +kernel)
  obtain ⟨hcount, hn, ⟨x, hx, hmeet⟩, hin, hfree, hone, hnone⟩ := of_decide_eq_true hp
  obtain ⟨t, hv⟩ := treeSystem_inductive.reachable hr
  have hx : (1, x) ∈ Stored m := hv.mem_stored_iff.2 ⟨hin, hx⟩
  obtain ⟨-, hins, hdel⟩ := tree_refines_intervals hv
  have htouch : Touches (1, x) 12 8 := (meets_iff_touches (hone.of_mem hv hx).1).1 hmeet
  obtain ⟨y, hy, hty, hfound⟩ := (hins 12 8 none fun _ h => by cases h).1 ⟨_, hx, htouch⟩
  have hy1 : y.1 = 1 :=
    (hone.of_mem hv hy).2 ((meets_iff_touches (hone.of_mem hv hy).1).2 hty)
  obtain ⟨m₁, z, hrun, hstart, hstop, -, -, hst, -⟩ :=
    ((hins 95 91 (some 9) fun a h => Option.some.inj h ▸ hfree).2 fun y hy htouch =>
      (hnone.of_mem hv hy).2 ((meets_iff_touches (hnone.of_mem hv hy).1).2 htouch)).2 9 rfl
  obtain ⟨m₂, hrun₂, hst₂, -⟩ := hdel (1, x) hx
  rw [hy1] at hfound
  exact ⟨m, x, m₁, m₂, hr, hcount, hx, hn, hfound, hrun, ⟨z, hstart, hstop, hst⟩, hrun₂, hst₂⟩

/-! ## Search -/

/-- What `rb_search` needs of a tree: its links, its order, and `count`. -/
structure SearchTree (m : Mem) (t : Shape) : Prop where
  models : Models m t
  ordered : Ordered t
  count : m.count = t.size

/-- **The search is exact.** `check_overlap` is closed-interval
intersection, bounds in any order; `rb_search` runs to its end on every
ordered tree, returns a stored interval that shares a point with the one
asked for, and `NULL` if and only if there is none; and `range_lock` of
what overlaps nothing that is held does not sleep. -/
theorem search_exact :
    (∀ s₁ e₁ s₂ e₂, checkOverlap s₁ e₁ s₂ e₂ = true ↔ (span s₁ e₁ ∩ span s₂ e₂).Nonempty) ∧
    (∀ m t, SearchTree m t → ∀ s e, ∃ r, rbSearch m s e = some r ∧
      (r = none ↔ ∀ y ∈ Stored m, ¬ Touches y s e) ∧
      ∀ a, r = some a → ∃ x, (a, x) ∈ Stored m ∧ Touches (a, x) s e) ∧
    ∀ σ, lockSystem.Reachable σ → ∀ k s e a, lockSystem.enabled σ (.lock k s e a) →
      (∀ p ∈ σ.held, Disjoint (Set.Icc p.2.start p.2.stop) (span s e)) →
      ∃ m, rangeLockLoop σ.mem k s e a = some (m, .locked ⟨min s e, max s e, a⟩) := by
  refine ⟨checkOverlap_span, fun m t ht s e => ?_, fun σ hr k s e a he hfree => ?_⟩
  · obtain ⟨r, hrun, hsome, hnone⟩ := rbSearch_of_ordered ht.models ht.ordered ht.count.ge s e
    have hfound : ∀ a, r = some a → ∃ x, (a, x) ∈ Stored m ∧ Touches (a, x) s e := fun a ha => by
      obtain ⟨x, hx, hmeet⟩ := hsome a ha
      exact ⟨x, ht.models.mem_stored.2 hx, (ht.ordered.touches_iff hx).1 hmeet⟩
    refine ⟨r, hrun, ⟨fun h y hy htouch => ?_, fun h => ?_⟩, hfound⟩
    · have hy := ht.models.mem_stored.1 hy
      exact hnone h y hy ((ht.ordered.touches_iff hy).2 htouch)
    · cases r with
      | none => rfl
      | some a =>
          obtain ⟨x, hx, htouch⟩ := hfound a rfl
          exact absurd htouch (h _ hx)
  · obtain ⟨t, hinv⟩ := lockSystem_inductive.reachable hr
    obtain ⟨⟨m, o⟩, t', hrun, hinv', hlocked⟩ := rangeLockLoop_spec hinv he.1 s e he.2
    cases o with
    | locked g => exact ⟨m, by rw [hrun, hlocked m g rfl]⟩
    | asleep n =>
        -- the task would sleep on a node that is held and overlaps
        obtain ⟨p, hp, -, hover⟩ := hinv'.asleep_held (w := ⟨k, s, e, n, false⟩)
          List.mem_cons_self rfl
        exact absurd (hfree p hp) hover

/-- In the tree of seven, `[43, 37]` finds node 4 and `[48, 46]` nothing; and
beside `[5, 10]`, which task 1 holds, task 2 locks `[11, 20]` at once. -/
theorem search_exact_seven : (∃ m, treeSystem.Reachable m ∧ m.count = 7 ∧
      rbSearch m 43 37 = some (some 4) ∧ rbSearch m 48 46 = some none) ∧
    ∃ σ m, lockSystem.Reachable σ ∧ σ.held = [(1, ⟨5, 10, 0⟩)] ∧
      rangeLockLoop σ.mem 2 20 11 1 = some (m, .locked ⟨11, 20, 1⟩) := by
  constructor
  · obtain ⟨m, hr, hp⟩ := reachable_of_ready sevenIntervals (fun m =>
      decide (m.count = 7 ∧ (∃ x ∈ m.data 4, Meets x 37 43) ∧
        4 ∈ m.below m.count m.root ∧ AllStored m (fun a x => Meets x 37 43 → a = 4) ∧
        AllStored m fun _ x => ¬ Meets x 46 48)) (by decide +kernel)
    obtain ⟨hcount, ⟨x, hx, hmeet⟩, hin, hone, hnone⟩ := of_decide_eq_true hp
    obtain ⟨t, hv⟩ := treeSystem_inductive.reachable hr
    have hx : (4, x) ∈ Stored m := hv.mem_stored_iff.2 ⟨hin, hx⟩
    have htree : SearchTree m t := ⟨hv.models, hv.ordered, hv.count⟩
    obtain ⟨r, hrun, hnil, hsome⟩ := search_exact.2.1 m t htree 43 37
    obtain ⟨r', hrun', hnil', -⟩ := search_exact.2.1 m t htree 48 46
    refine ⟨m, hr, hcount, ?_, ?_⟩
    · cases r with
      | none => exact absurd ((meets_iff_touches (hone.of_mem hv hx).1).1 hmeet) (hnil.1 rfl _ hx)
      | some a =>
          obtain ⟨y, hy, hty⟩ := hsome a rfl
          have hy' := hone.of_mem hv hy
          have ha : a = 4 := hy'.2 ((meets_iff_touches hy'.1).2 hty)
          rw [hrun, ha]
    · rw [hrun', hnil'.2 fun y hy htouch => (hnone.of_mem hv hy).2
        ((meets_iff_touches (hnone.of_mem hv hy).1).2 htouch)]
  · have hsteps : ∃ σ, lockSystem.Steps LockState.initial [.lock 1 10 5 0] σ ∧
        σ.held = [(1, ⟨5, 10, 0⟩)] ∧ σ.waiters = [] ∧ σ.mem.heap 1 = none :=
      ⟨_, .cons ⟨fun _ h => absurd h List.not_mem_nil, rfl⟩ rfl .nil, rfl, rfl, rfl⟩
    obtain ⟨σ, hrun, hheld, hwait, hfree⟩ := hsteps
    have hr := hrun.reachable (.init rfl)
    have he : lockSystem.enabled σ (.lock 2 20 11 1) :=
      ⟨fun w hw => absurd (hwait ▸ hw) List.not_mem_nil, hfree⟩
    obtain ⟨m, hm⟩ := search_exact.2.2 σ hr 2 20 11 1 he fun p hp => by
      rw [hheld] at hp
      obtain rfl := List.mem_singleton.1 hp
      exact Set.disjoint_left.2 fun x hx hx' => absurd (hx.2.trans_lt (by decide)) (not_lt.2 hx'.1)
    exact ⟨σ, m, hr, hheld, hm⟩

end RangeLock

end VmwareProto
