import VmwareProto.Common.Hash
/-!
# `hash_cleanup`

The loop takes the entries out of every bucket, from its end, and hands each
to a callback that may free it. Memory that was freed is not read again:
the neighbour to go on with is looked up before the call, and what stays
behind in the ring no longer leads to the entry.
-/

namespace VmwareProto

namespace Common

variable {H A : Type*} [DecidableEq H] [DecidableEq A] {w : ℕ}

/-- What a callback does with its entry: free it or not, and what its links
hold afterwards. -/
structure Effect (H A : Type*) where
  frees : Bool
  next : Node H A
  prev : Node H A

/-- A table being cleaned up. -/
structure Cleanup (H A : Type*) where
  table : HashTable H A
  freed : A → Bool
  /-- the calls so far: the entry, and whether it was unlinked by then -/
  calls : List (A × Bool)

namespace Cleanup

variable (σ : Cleanup H A) (cb : Option (ℕ → A → Effect H A)) (a : A)

/-- The links of a node can be read and written. -/
def Valid : Node H A → Prop
  | .head _ => True
  | .elem a => σ.freed a = false

instance : (y : Node H A) → Decidable (σ.Valid y)
  | .head _ => inferInstanceAs (Decidable True)
  | .elem a => inferInstanceAs (Decidable (σ.freed a = false))

/-- `hash_rem`, on memory of which some is freed. -/
def hashRem : Option (Cleanup H A) :=
  if σ.Valid (.elem a) ∧ σ.Valid (σ.table.links.next (.elem a)) ∧
      σ.Valid (σ.table.links.prev (.elem a)) then
    (σ.table.hashRem a).map fun T => { σ with table := T }
  else none

/-- `cb(e)`, a callback that touches no other entry; it may do something else
each time. -/
def callback : Cleanup H A :=
  match cb with
  | none => σ
  | some f => {
      table := { σ.table with
        links := (σ.table.links.setNext (.elem a) (f σ.calls.length a).next).setPrev (.elem a)
          (f σ.calls.length a).prev }
      freed := Function.update σ.freed a (f σ.calls.length a).frees
      calls := σ.calls ++ [(a, σ.table.links.isEmpty (.elem a))] }

/-- The loop over the bucket of head `h`, from the node `t`. -/
def bucket (h : H) : ℕ → Node H A → Cleanup H A → Option (Cleanup H A)
  | 0, _, _ => none
  | fuel + 1, t, σ =>
      match t with
      | .head g => if g = h then some σ else none
      | .elem a =>
          if σ.Valid (.elem a) then
            (σ.hashRem a).bind fun τ =>
              bucket h fuel (σ.table.links.prev (.elem a)) (τ.callback cb a)
          else none

/-- The loop over the buckets from `i` on, `k` of them; each has at most
`count` entries. -/
def buckets : ℕ → ℕ → Cleanup H A → Option (Cleanup H A)
  | _, 0, σ => some σ
  | i, k + 1, σ =>
      (bucket cb (σ.table.buckets i) (σ.table.count.toNat + 1)
        (σ.table.links.prev (.head (σ.table.buckets i))) σ).bind (buckets (i + 1) k)

/-- `hash_cleanup`. -/
def hashCleanup : Option (Cleanup H A) :=
  (buckets cb 0 σ.table.noBuckets σ).bind fun τ => if τ.table.count = 0 then some τ else none

/-! ## The entries left -/

variable {σ : Cleanup H A} {f : ℕ → A → Effect H A} {ρ : Requests H A w} {s zs : List A} {a : A}
  {h : H} {fuel i k : ℕ}

/-- The entries `s` of the table are left, and none of them is freed. -/
structure Left (ρ : Requests H A w) (s : List A) (σ : Cleanup H A) : Prop where
  rings : σ.table.links.Rings (ρ.lists s)
  nodup : s.Nodup
  count : σ.table.count = s.length
  valid : ∀ a ∈ s, σ.freed a = false
  buckets : σ.table.buckets = ρ.table.buckets
  noBuckets : σ.table.noBuckets = ρ.table.noBuckets

omit [DecidableEq A] in
/-- Every node of a bucket can be read. -/
theorem Left.valid_of_mem (h : Left ρ s σ) {g : H} {y : Node H A}
    (hy : y ∈ Node.head g :: (ρ.lists s g).map .elem) : σ.Valid y := by
  rcases List.mem_cons.1 hy with rfl | hy
  · trivial
  · obtain ⟨b, hb, rfl⟩ := List.mem_map.1 hy
    exact h.valid b (Represents.mem_lists.1 hb).1

/-- **The last entry of a bucket** is taken out and handed to the callback. -/
theorem Left.last (hL : Left ρ s σ) (hl : ρ.lists s h = zs.reverse ++ [a]) :
    σ.Valid (.elem a) ∧ ∃ τ, σ.hashRem a = some τ ∧ Left ρ (s.erase a) (τ.callback (some f) a) ∧
      (τ.callback (some f) a).table.links.prev (.head h) = σ.table.links.prev (.elem a) ∧
      (τ.callback (some f) a).calls = σ.calls ++ [(a, true)] := by
  have hmem : a ∈ ρ.lists s h := by rw [hl]; simp
  have ha : a ∈ s := (Represents.mem_lists.1 hmem).1
  have hne : a ∉ s.erase a := fun hm => (hL.nodup.mem_erase_iff.1 hm).1 rfl
  have hring := hL.rings.ring h
  have hnode : Node.elem a ∈ Node.head h :: (ρ.lists s h).map (Node.elem (H := H)) := by
    simpa using hmem
  have hnext : σ.table.links.next (.elem a) = .head h := by
    rw [hl, List.map_append] at hring
    exact (Links.chain_append.1 hring.chain).2.1
  obtain ⟨hrem, hrings, hcount⟩ :=
    Represents.hashRem_of_mem hL.rings hL.nodup hL.count ha
  have hvalid : σ.Valid (.elem a) := hL.valid_of_mem hnode
  refine ⟨hvalid, { σ with table := { σ.table with
      links := σ.table.links.rem (.elem a), count := σ.table.count - 1 } }, ?_, ?_, ?_, ?_⟩
  · rw [Cleanup.hashRem, if_pos, hrem]
    · rfl
    · exact ⟨hvalid, hL.valid_of_mem (hring.next_mem hnode), hL.valid_of_mem (hring.prev_mem hnode)⟩
  · refine ⟨Represents.rings_overwrite hrings (Represents.notMem_lists hne) _ _, hL.nodup.erase a,
      hcount, fun b hb => ?_, hL.buckets, hL.noBuckets⟩
    have hba : b ≠ a := fun e => hne (e ▸ hb)
    exact (Function.update_of_ne hba _ _).trans (hL.valid b (List.mem_of_mem_erase hb))
  · have hhead : Node.head h ≠ Node.elem a := fun e => by cases e
    refine (Represents.overwrite_of_ne hhead _ _).2.trans ?_
    rw [Links.rem_prev, if_neg hhead, if_pos hnext.symm]
  · have hself : (σ.table.links.rem (.elem a)).isEmpty (.elem a) = true := by
      obtain ⟨xs, ys, hxs⟩ := List.append_of_mem hmem
      rw [hxs, List.map_append, List.map_cons] at hring
      exact hring.rem.2.isEmpty_iff.2 rfl
    rw [callback, hself]

/-- What is left of a bucket without its last entry. -/
theorem lists_erase (hnd : s.Nodup) (hl : ρ.lists s h = zs.reverse ++ [a]) :
    ρ.lists (s.erase a) h = zs.reverse := by
  have hnd' : (ρ.lists s h).Nodup := hnd.filter _
  rw [hl] at hnd'
  have hnot : a ∉ zs.reverse := fun hm => (List.nodup_append.1 hnd').2.2 a hm a (by simp) rfl
  rw [Requests.lists, hnd.erase_eq_filter, List.filter_comm]
  show (ρ.lists s h).filter (· != a) = _
  rw [hl, List.filter_append]
  have hself : [a].filter (· != a) = [] := by simp
  have hrest : zs.reverse.filter (· != a) = zs.reverse :=
    List.filter_eq_self.2 fun b hb => by
      have hne : b ≠ a := fun e => hnot (e ▸ hb)
      simpa using hne
  rw [hself, hrest, List.append_nil]

/-- The entries of the other buckets. -/
def others (ρ : Requests H A w) (s : List A) (h : H) : List A :=
  s.filter fun a => decide (ρ.table.buckets (ρ.bucket a) ≠ h)

/-- **One bucket** is emptied, from its end. -/
theorem bucket_spec (f : ℕ → A → Effect H A) (hL : Left ρ s σ) (hl : ρ.lists s h = zs.reverse)
    (hf : zs.length < fuel) :
    ∃ τ, bucket (some f) h fuel (σ.table.links.prev (.head h)) σ = some τ ∧ Left ρ (others ρ s h) τ ∧
      τ.calls = σ.calls ++ zs.map fun a => (a, true) := by
  induction zs generalizing s σ fuel with
  | nil =>
      obtain ⟨fuel, rfl⟩ := Nat.exists_eq_add_one_of_ne_zero (Nat.ne_of_gt hf)
      have hring := hL.rings.ring h
      rw [hl] at hring
      have hprev : σ.table.links.prev (.head h) = .head h := hring.chain.2
      have hsame : others ρ s h = s := List.filter_eq_self.2 fun b hb => by
        have hnot : b ∉ ρ.lists s h := by rw [hl]; simp
        simpa [Represents.mem_lists, hb] using hnot
      refine ⟨σ, ?_, by rw [hsame]; exact hL, by simp⟩
      rw [hprev, bucket]
      exact if_pos rfl
  | cons a zs ih =>
      obtain ⟨fuel, rfl⟩ := Nat.exists_eq_add_one_of_ne_zero (Nat.ne_of_gt (Nat.zero_lt_of_lt hf))
      rw [List.reverse_cons] at hl
      obtain ⟨hv, τ, hrem, hL', hprev, hcalls⟩ := hL.last (f := f) hl
      have hhead : σ.table.links.prev (.head h) = .elem a := hL.rings.prev_head hl
      obtain ⟨τ', hb, hL'', hcalls'⟩ := ih hL' (lists_erase hL.nodup hl) (by simpa using hf)
      have hothers : others ρ (s.erase a) h = others ρ s h := by
        have ha : a ∈ ρ.lists s h := by rw [hl]; simp
        rw [others, hL.nodup.erase_eq_filter, List.filter_filter]
        refine List.filter_congr fun b _ => ?_
        by_cases hba : b = a
        · simp [hba, (Represents.mem_lists.1 ha).2]
        · simp [hba]
      refine ⟨τ', ?_, by rw [← hothers]; exact hL'', ?_⟩
      · rw [hhead, bucket, if_pos hv, hrem, Option.bind_some, ← hprev]
        exact hb
      · rw [hcalls', hcalls, List.append_assoc]
        rfl

/-- The entries of the buckets from `i` on. -/
def onward (ρ : Requests H A w) (s : List A) (i : ℕ) : List A :=
  s.filter fun a => decide (i ≤ ρ.bucket a)

omit [DecidableEq A] in
theorem others_onward : others ρ (onward ρ s i) (ρ.table.buckets i) = onward ρ s (i + 1) := by
  rw [others, onward, onward, List.filter_filter]
  refine List.filter_congr fun a _ => ?_
  rw [Bool.eq_iff_iff, Bool.and_eq_true, decide_eq_true_iff, decide_eq_true_iff, decide_eq_true_iff,
    ne_eq, ρ.table.buckets.injective.eq_iff]
  omega

omit [DecidableEq A] in
theorem lists_onward : ρ.lists (onward ρ s i) (ρ.table.buckets i) = ρ.lists s (ρ.table.buckets i) := by
  rw [Requests.lists, onward, Requests.lists, List.filter_filter]
  refine List.filter_congr fun a _ => ?_
  rw [Bool.eq_iff_iff, Bool.and_eq_true, decide_eq_true_iff, decide_eq_true_iff,
    ρ.table.buckets.injective.eq_iff]
  omega

/-- **The buckets** are emptied one after the other. -/
theorem buckets_spec (f : ℕ → A → Effect H A) (hL : Left ρ (onward ρ s i) σ) :
    ∃ τ, buckets (some f) i k σ = some τ ∧ Left ρ (onward ρ s (i + k)) τ ∧
      τ.calls = σ.calls ++ (List.range' i k).flatMap fun j =>
        (ρ.lists s (ρ.table.buckets j)).reverse.map fun a => (a, true) := by
  induction k generalizing i σ with
  | zero => exact ⟨σ, rfl, hL, by simp⟩
  | succ k ih =>
      have hlen : (ρ.lists s (ρ.table.buckets i)).reverse.length < σ.table.count.toNat + 1 := by
        have := List.length_filter_le
          (fun a => decide (ρ.table.buckets (ρ.bucket a) = ρ.table.buckets i)) (onward ρ s i)
        rw [List.length_reverse, ← lists_onward, hL.count, Requests.lists]
        omega
      have hl : ρ.lists (onward ρ s i) (ρ.table.buckets i) =
          (ρ.lists s (ρ.table.buckets i)).reverse.reverse := by
        rw [List.reverse_reverse, lists_onward]
      obtain ⟨τ, hb, hL', hcalls⟩ := bucket_spec f hL hl hlen
      rw [others_onward] at hL'
      obtain ⟨τ', hb', hL'', hcalls'⟩ := ih hL'
      refine ⟨τ', ?_, ?_, ?_⟩
      · rw [buckets, hL.buckets, hb, Option.bind_some]
        exact hb'
      · rw [← Nat.add_assoc, Nat.add_right_comm]
        exact hL''
      · rw [hcalls', hcalls, List.append_assoc, List.range'_succ, List.flatMap_cons]

end Cleanup

variable {ρ σ₀ : Requests H A w} {acts : List (HashAction H A w)}

/-- The linked entries of bucket `i`, in the order they were added. -/
def inBucket (ρ : Requests H A w) (s : List A) (i : ℕ) : List A :=
  (s.filter fun a => decide (getBucket ρ.table.noBuckets (ρ.seqid a) = i)).reverse

omit [DecidableEq H] [DecidableEq A] in
/-- What the buckets hold together is what is linked. -/
theorem perm_inBucket {s : List A} (hnd : s.Nodup) :
    ((List.range ρ.table.noBuckets).flatMap (inBucket ρ s)).Perm s := by
  have hmem : ∀ i a, a ∈ inBucket ρ s i ↔ a ∈ s ∧ getBucket ρ.table.noBuckets (ρ.seqid a) = i := by
    intro i a
    simp [inBucket]
  refine (List.perm_ext_iff_of_nodup ?_ hnd).2 fun a => ?_
  · rw [List.nodup_flatMap]
    refine ⟨fun i _ => List.nodup_reverse.2 (hnd.filter _), ?_⟩
    refine (List.nodup_range (n := ρ.table.noBuckets)).imp_of_mem fun {i j} _ _ hij a hi hj => ?_
    exact hij (((hmem i a).1 hi).2.symm.trans ((hmem j a).1 hj).2)
  · rw [List.mem_flatMap]
    constructor
    · rintro ⟨i, -, ha⟩
      exact ((hmem i a).1 ha).1
    · intro ha
      exact ⟨_, List.mem_range.2 (getBucket_lt ρ.table (ρ.seqid a)), (hmem _ a).2 ⟨ha, rfl⟩⟩

/-- **`hash_cleanup` visits every entry once.** Whatever the table has been
through and whatever the callback does with the entries it is given, the
loop ends and reads no entry that was freed; the callback gets every linked
entry once, unlinked, bucket by bucket and in the order they were added; and
the table is left empty. -/
theorem cleanup_visits (h₀ : (hashSystem H A w).init σ₀)
    (hs : (hashSystem H A w).Steps σ₀ acts ρ) (f : ℕ → A → Effect H A) :
    ∃ τ, (Cleanup.mk ρ.table (fun _ => false) []).hashCleanup (some f) = some τ ∧
      τ.calls = ((List.range ρ.table.noBuckets).flatMap (inBucket ρ (linkedAfter acts))).map
        (fun a => (a, true)) ∧
      (τ.calls.map Prod.fst).Perm (linkedAfter acts) ∧
      τ.table.count = 0 ∧
      ∀ i, τ.table.links.isEmpty (.head (ρ.table.buckets i)) = true := by
  have hR : Represents ρ (linkedAfter acts) := (represents_nil h₀).steps hs
  have hall : Cleanup.onward ρ (linkedAfter acts) 0 = linkedAfter acts :=
    List.filter_eq_self.2 fun a _ => by simp
  have hnone : Cleanup.onward ρ (linkedAfter acts) (0 + ρ.table.noBuckets) = [] := by
    rw [Nat.zero_add]
    refine List.filter_eq_nil_iff.2 fun a _ => ?_
    have hlt : ρ.bucket a < ρ.table.noBuckets := getBucket_lt ρ.table (ρ.seqid a)
    simpa using hlt
  have hL : Cleanup.Left ρ (Cleanup.onward ρ (linkedAfter acts) 0)
      ⟨ρ.table, fun _ => false, []⟩ := by
    rw [hall]
    exact ⟨hR.rings, hR.nodup, hR.count, fun _ _ => rfl, rfl, rfl⟩
  obtain ⟨τ, hb, hL', hcalls⟩ := Cleanup.buckets_spec (k := ρ.table.noBuckets) f hL
  rw [hnone] at hL'
  have hcount : τ.table.count = 0 := hL'.count
  have hcalls' : τ.calls =
      ((List.range ρ.table.noBuckets).flatMap (inBucket ρ (linkedAfter acts))).map
        (fun a => (a, true)) := by
    rw [hcalls, List.nil_append, ← List.range_eq_range', List.map_flatMap]
    refine congrArg (List.flatMap · _) (funext fun i => ?_)
    rw [inBucket, Requests.lists]
    simp only [ρ.table.buckets.injective.eq_iff]
    rfl
  refine ⟨τ, ?_, hcalls', ?_, hcount, fun i => ?_⟩
  · rw [Cleanup.hashCleanup, hb, Option.bind_some, if_pos hcount]
  · rw [hcalls', List.map_map]
    have hid : (Prod.fst ∘ fun a : A => (a, true)) = id := rfl
    rw [hid, List.map_id]
    exact perm_inBucket hR.nodup
  · exact (hL'.rings.isEmpty_head_iff _).2 rfl

/-- A callback that frees the two entries of a table. -/
theorem cleanup_visits_two :
    ∃ ρ τ, (hashSystem ℕ ℕ 32).Steps emptyTable [.init 7 3, .init 8 3, .add 7, .add 8] ρ ∧
      (Cleanup.mk ρ.table (fun _ => false) []).hashCleanup
        (some fun _ a => ⟨true, .elem a, .head 0⟩) = some τ ∧
      τ.calls = [(7, true), (8, true)] := by
  have hs : (hashSystem ℕ ℕ 32).Steps emptyTable [.init 7 3, .init 8 3, .add 7, .add 8] _ :=
    .cons (fun h => by cases h) rfl (.cons (fun h => by cases h) rfl
      (.cons ⟨rfl, rfl⟩ rfl (.cons ⟨rfl, rfl⟩ rfl .nil)))
  obtain ⟨τ, hτ, hcalls, -⟩ :=
    cleanup_visits emptyTable_init hs fun _ a => ⟨true, .elem a, .head 0⟩
  exact ⟨_, τ, hs, hτ, hcalls⟩

end Common

end VmwareProto
