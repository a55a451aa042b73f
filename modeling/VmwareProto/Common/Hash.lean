import VmwareProto.Library.Rings
import VmwareProto.Library.System
import Mathlib.Data.Int.Notation
import Mathlib.Logic.Embedding.Basic
/-!
# The hash of pending requests

`hash.c` and the functions of `rpc.c` that choose a bucket and compare. The
two copies differ in the width of a sequence id; the bucket is computed from
its low 32 bits on both sides. An entry carries its links itself and is
taken to be linked unless they point to itself. Run after run the table is a
list of the linked entries, the most recent first: a bucket holds those that
belong to it, in that order, and a lookup finds the first of them all.
-/

namespace VmwareProto

namespace Common

/-- `hash_table_t`, and the links of its buckets and entries. -/
structure HashTable (H A : Type*) where
  /-- where the heads of the buckets lie -/
  buckets : ℕ ↪ H
  noBuckets : ℕ
  /-- as `hash_init` asserts -/
  noBuckets_pos : 0 < noBuckets
  links : Links (Node H A)
  count : ℤ

/-- `get_bucket`, in a table of `n` buckets. -/
def getBucket {w : ℕ} (n : ℕ) (id : BitVec w) : ℕ := (id.setWidth 32).toNat % n

/-- `seqid_cmp`. -/
def seqidCmp {w : ℕ} (id id' : BitVec w) : Bool := id - id' == 0

variable {H A : Type*} [DecidableEq H] [DecidableEq A] {w : ℕ}

namespace HashTable

variable (T : HashTable H A) (a : A) (bucket : ℕ)

/-- `hash_add`. -/
def hashAdd : Option (HashTable H A) :=
  if bucket < T.noBuckets then
    some { T with
      links := T.links.add (.head (T.buckets bucket)) (.elem a), count := T.count + 1 }
  else none

/-- `hash_lookup`, for the entries that `cmp` accepts; the walk is cut off
beyond `count` entries. -/
def hashLookup (cmp : A → Bool) : Option (Option A) :=
  if bucket < T.noBuckets then
    T.links.find (T.buckets bucket) (fun a => some (cmp a)) (T.count.toNat + 1)
      (T.links.next (.head (T.buckets bucket)))
  else none

/-- `hash_rem`. -/
def hashRem : Option (HashTable H A) :=
  let T :=
    if T.links.isEmpty (.elem a) = true then T
    else { T with links := T.links.rem (.elem a), count := T.count - 1 }
  if T.count < 0 then none else some T

end HashTable

/-! ## Runs -/

/-- A table and the messages with its entries. -/
structure Requests (H A : Type*) (w : ℕ) where
  table : HashTable H A
  seqid : A → BitVec w
  /-- `hash_entry_init` was called on the entry, and its memory is still an entry -/
  ready : A → Bool

/-- What is done with a table. -/
inductive HashAction (H A : Type*) (w : ℕ)
  /-- a message gets its sequence id and its entry is initialised -/
  | init (a : A) (id : BitVec w)
  /-- the memory of an entry is something else from now on -/
  | reuse (a : A) (next prev : Node H A)
  | add (a : A)
  | rem (a : A)
  | lookup (id : BitVec w)

namespace HashAction

variable (σ : Requests H A w)

def exec : HashAction H A w → Option (Requests H A w)
  | init a id => some {
      table := { σ.table with links := σ.table.links.init (.elem a) }
      seqid := Function.update σ.seqid a id
      ready := Function.update σ.ready a true }
  | reuse a next prev => some { σ with
      table := { σ.table with
        links := (σ.table.links.setNext (.elem a) next).setPrev (.elem a) prev }
      ready := Function.update σ.ready a false }
  | add a => (σ.table.hashAdd a (getBucket σ.table.noBuckets (σ.seqid a))).map fun T =>
      { σ with table := T }
  | rem a => (σ.table.hashRem a).map fun T => { σ with table := T }
  | lookup id =>
      (σ.table.hashLookup (getBucket σ.table.noBuckets id) fun a => seqidCmp (σ.seqid a) id).map
        fun _ => σ

/-- An entry that is linked is nothing else's memory, and only an
initialised entry is added, when it is unlinked, or removed. -/
def Enabled : HashAction H A w → Prop
  | init a _ | reuse a _ _ => σ.ready a = true → σ.table.links.isEmpty (.elem a) = true
  | add a => σ.ready a = true ∧ σ.table.links.isEmpty (.elem a) = true
  | rem a => σ.ready a = true
  | lookup _ => True

/-- The entries that are linked, the most recent first. -/
def linked (s : List A) : HashAction H A w → List A
  | add a => a :: s
  | rem a => s.erase a
  | _ => s

end HashAction

/-- A table after `hash_init`: its heads are linked to themselves. -/
def hashSystem (H A : Type*) [DecidableEq H] [DecidableEq A] (w : ℕ) :
    System (Requests H A w) (HashAction H A w) where
  init σ := σ.table.count = 0 ∧ (∀ a, σ.ready a = false) ∧ ∀ h, σ.table.links.Ring (.head h) []
  enabled := HashAction.Enabled
  exec := HashAction.exec

/-- The entries linked after some actions. -/
def linkedAfter (acts : List (HashAction H A w)) : List A := acts.foldl HashAction.linked []

/-! ## The table as a list -/

variable {σ σ' : Requests H A w} {s : List A} {a b : A} {i : ℕ} {id : BitVec w}
  {act : HashAction H A w}

/-- The bucket of an entry. -/
def Requests.bucket (σ : Requests H A w) (a : A) : ℕ := getBucket σ.table.noBuckets (σ.seqid a)

/-- What the table holds when the entries `s` are linked. -/
def Requests.lists (σ : Requests H A w) (s : List A) (h : H) : List A :=
  s.filter fun a => decide (σ.table.buckets (σ.bucket a) = h)

/-- **The table is a list of entries**, the most recent first. -/
structure Represents (σ : Requests H A w) (s : List A) : Prop where
  rings : σ.table.links.Rings (σ.lists s)
  nodup : s.Nodup
  count : σ.table.count = s.length
  ready : ∀ a ∈ s, σ.ready a = true
  /-- an entry that is not linked is linked to itself -/
  self : ∀ a, σ.ready a = true → a ∉ s → σ.table.links.Ring (.elem a) []

omit [DecidableEq H] [DecidableEq A] in
theorem getBucket_lt (T : HashTable H A) (id : BitVec w) :
    getBucket T.noBuckets id < T.noBuckets := Nat.mod_lt _ T.noBuckets_pos

theorem seqidCmp_iff {id id' : BitVec w} : seqidCmp id id' = true ↔ id = id' := by
  rw [seqidCmp, beq_iff_eq]
  constructor
  · intro h
    calc id = id - id' + id' := (BitVec.sub_add_cancel id id').symm
      _ = id' := by rw [h]; exact BitVec.zero_add id'
  · rintro rfl
    exact BitVec.sub_self id

namespace Represents

omit [DecidableEq A] in
/-- An entry is in the list of its bucket. -/
theorem mem_lists {h : H} : a ∈ σ.lists s h ↔ a ∈ s ∧ σ.table.buckets (σ.bucket a) = h := by
  simp [Requests.lists]

omit [DecidableEq A] in
theorem notMem_lists (ha : a ∉ s) (h : H) : a ∉ σ.lists s h := fun hm => ha (mem_lists.1 hm).1

/-- **Linked as the code tests it.** -/
theorem isEmpty_iff (h : Represents σ s) (hr : σ.ready a = true) :
    σ.table.links.isEmpty (.elem a) = true ↔ a ∉ s := by
  constructor
  · intro he ha
    exact h.rings.notMem_of_isEmpty he _ (mem_lists.2 ⟨ha, rfl⟩)
  · intro ha
    exact (h.self a hr ha).isEmpty_iff.2 rfl

/-- Memory that may be something else is no linked entry. -/
theorem notMem (h : Represents σ s)
    (he : σ.ready a = true → σ.table.links.isEmpty (.elem a) = true) : a ∉ s := fun ha =>
  (h.isEmpty_iff (h.ready a ha)).1 (he (h.ready a ha)) ha

omit [DecidableEq A] in
/-- The lists depend on the linked entries' sequence ids alone. -/
theorem lists_congr (hn : σ'.table.noBuckets = σ.table.noBuckets)
    (hb : σ'.table.buckets = σ.table.buckets) (hid : ∀ b ∈ s, σ'.seqid b = σ.seqid b) :
    σ'.lists s = σ.lists s := by
  funext h
  refine List.filter_congr fun b hbs => ?_
  rw [Bool.eq_iff_iff, decide_eq_true_iff, decide_eq_true_iff, Requests.bucket, Requests.bucket, hn,
    hb, hid b hbs]

theorem init_step (h : Represents σ s) (ha : a ∉ s) :
    ∃ σ', (HashAction.init a id).exec σ = some σ' ∧ Represents σ' s := by
  have hne : ∀ b ∈ s, b ≠ a := fun b hb e => ha (e ▸ hb)
  have hrings := h.rings.init (notMem_lists ha)
  have hlists : Requests.lists ⟨{ σ.table with links := σ.table.links.init (.elem a) },
      Function.update σ.seqid a id, Function.update σ.ready a true⟩ s = σ.lists s :=
    lists_congr rfl rfl fun b hb => Function.update_of_ne (hne b hb) _ _
  rw [← hlists] at hrings
  refine ⟨_, rfl, hrings, h.nodup, h.count, fun b hb => ?_, fun b hr hb => ?_⟩
  · simp only [Function.update_of_ne (hne b hb), h.ready b hb]
  · by_cases hba : b = a
    · rw [hba]
      exact Links.ring_init
    · simp only [Function.update_of_ne hba] at hr
      exact (h.self b hr hb).init_of_notMem (by simp [Ne.symm hba])

theorem overwrite_of_ne {L : Links (Node H A)} {x y : Node H A} (hy : y ≠ x)
    (next prev : Node H A) :
    ((L.setNext x next).setPrev x prev).next y = L.next y ∧
      ((L.setNext x next).setPrev x prev).prev y = L.prev y := by
  simp [Links.setNext, Links.setPrev, hy]

/-- What the links of an entry of no list hold does not matter. -/
theorem rings_overwrite {L : Links (Node H A)} {lists : H → List A} (hR : L.Rings lists)
    (ha : ∀ g, a ∉ lists g) (next prev : Node H A) :
    ((L.setNext (.elem a) next).setPrev (.elem a) prev).Rings lists :=
  hR.frame (fun _ => overwrite_of_ne (by simp) next prev) fun g b hb =>
    overwrite_of_ne (by simpa using fun e : b = a => ha g (e ▸ hb)) next prev

theorem reuse_step (h : Represents σ s) (ha : a ∉ s) (next prev : Node H A) :
    ∃ σ', (HashAction.reuse a next prev).exec σ = some σ' ∧ Represents σ' s := by
  refine ⟨_, rfl, rings_overwrite h.rings (notMem_lists ha) next prev, h.nodup, h.count,
    fun b hb => ?_, fun b hr hb => ?_⟩
  · have hne : b ≠ a := fun e => ha (e ▸ hb)
    simp only [Function.update_of_ne hne, h.ready b hb]
  · by_cases hba : b = a
    · rw [hba] at hr
      simp at hr
    · simp only [Function.update_of_ne hba] at hr
      have hne : Node.elem (H := H) b ≠ .elem a := fun e => hba (Node.elem.inj e)
      refine (h.self b hr hb).frame (fun y hy => ?_) fun y hy => ?_
      · rw [List.mem_singleton.1 hy]
        exact (overwrite_of_ne hne next prev).1
      · rw [List.mem_singleton.1 hy]
        exact (overwrite_of_ne hne next prev).2

/-- **Adding an entry** puts it first. -/
theorem add_step (h : Represents σ s) (hr : σ.ready a = true) (ha : a ∉ s) :
    ∃ σ', (HashAction.add a).exec σ = some σ' ∧ Represents σ' (a :: s) := by
  have hlists : Function.update (σ.lists s) (σ.table.buckets (σ.bucket a))
      (a :: σ.lists s (σ.table.buckets (σ.bucket a))) = σ.lists (a :: s) := by
    funext g
    by_cases hg : g = σ.table.buckets (σ.bucket a)
    · rw [hg, Function.update_self]
      exact (List.filter_cons_of_pos (by simp)).symm
    · rw [Function.update_of_ne hg]
      exact (List.filter_cons_of_neg (by simpa using fun e => hg e.symm)).symm
  have hrings := h.rings.add (notMem_lists ha) (σ.table.buckets (σ.bucket a))
  rw [hlists] at hrings
  refine ⟨_, by rw [HashAction.exec, HashTable.hashAdd, if_pos (getBucket_lt _ _)]; rfl, hrings,
    List.nodup_cons.2 ⟨ha, h.nodup⟩, ?_, fun b hb => ?_, fun b hr' hb => ?_⟩
  · simp only [h.count, List.length_cons]
    rfl
  · rcases List.mem_cons.1 hb with rfl | hb
    · exact hr
    · exact h.ready b hb
  · rw [List.mem_cons, not_or] at hb
    refine (h.self b hr' hb.2).add_of_disjoint (h.rings.ring _) (by simpa using Ne.symm hb.1)
      (by simp) fun y hy => ?_
    rw [List.mem_singleton.1 hy]
    exact Links.elem_notMem (notMem_lists hb.2 _)

/-- **What `hash_rem` does** to an entry that is linked. -/
theorem hashRem_of_mem {T : HashTable H A} (hR : T.links.Rings (σ.lists s)) (hnd : s.Nodup)
    (hcount : T.count = s.length) (ha : a ∈ s) :
    T.hashRem a = some { T with links := T.links.rem (.elem a), count := T.count - 1 } ∧
      (T.links.rem (.elem a)).Rings (σ.lists (s.erase a)) ∧
      T.count - 1 = (s.erase a).length := by
  have hmem : a ∈ σ.lists s (σ.table.buckets (σ.bucket a)) := mem_lists.2 ⟨ha, rfl⟩
  have hlink : T.links.isEmpty (.elem a) = false :=
    (hR.ring _).isEmpty_of_mem (List.mem_map_of_mem hmem)
  have hpos := List.length_pos_of_mem ha
  have hlists : Function.update (σ.lists s) (σ.table.buckets (σ.bucket a))
      ((σ.lists s (σ.table.buckets (σ.bucket a))).erase a) = σ.lists (s.erase a) := by
    funext g
    have herase : σ.lists (s.erase a) g = (σ.lists s g).filter (· != a) := by
      rw [Requests.lists, hnd.erase_eq_filter, List.filter_comm]
      rfl
    by_cases hg : g = σ.table.buckets (σ.bucket a)
    · rw [hg, Function.update_self, ← hg, herase]
      exact (hnd.filter _).erase_eq_filter a
    · rw [Function.update_of_ne hg, herase]
      refine (List.filter_eq_self.2 fun b hb => ?_).symm
      have hne : b ≠ a := fun e => hg (e ▸ (mem_lists.1 hb).2.symm)
      simpa using hne
  refine ⟨?_, ?_, ?_⟩
  · rw [HashTable.hashRem]
    simp only [hlink, Bool.false_eq_true, if_false]
    exact if_neg (by omega)
  · rw [← hlists]
    exact hR.rem hmem
  · rw [hcount, List.length_erase_of_mem ha]
    omega

/-- **Removing an entry** that is linked takes it out. -/
theorem rem_step (h : Represents σ s) (ha : a ∈ s) :
    ∃ σ', (HashAction.rem a).exec σ = some σ' ∧ Represents σ' (s.erase a) := by
  obtain ⟨hrem, hrings, hcount⟩ := hashRem_of_mem h.rings h.nodup h.count ha
  refine ⟨{ σ with table := { σ.table with
      links := σ.table.links.rem (.elem a), count := σ.table.count - 1 } },
    by rw [HashAction.exec, hrem]; rfl, hrings, h.nodup.erase a, hcount,
    fun b hb => h.ready b (List.mem_of_mem_erase hb), fun b hr hb => ?_⟩
  have hmem : a ∈ σ.lists s (σ.table.buckets (σ.bucket a)) := mem_lists.2 ⟨ha, rfl⟩
  have hring := h.rings.ring (σ.table.buckets (σ.bucket a))
  by_cases hba : b = a
  · obtain ⟨xs, ys, hxs⟩ := List.append_of_mem hmem
    rw [hxs, List.map_append, List.map_cons] at hring
    rw [hba]
    exact hring.rem.2
  · have hbs : b ∉ s := fun hm => hb ((List.mem_erase_of_ne hba).2 hm)
    refine (h.self b hr hbs).rem_of_disjoint hring (List.mem_map_of_mem hmem) fun y hy => ?_
    rw [List.mem_singleton.1 hy]
    exact Links.elem_notMem (notMem_lists hbs _)

/-- Removing an entry that is not linked changes nothing. -/
theorem hashRem_of_notMem (h : Represents σ s) (hr : σ.ready a = true) (ha : a ∉ s) :
    σ.table.hashRem a = some σ.table := by
  rw [HashTable.hashRem, if_pos ((h.isEmpty_iff hr).2 ha)]
  exact if_neg (by rw [h.count]; omega)

omit [DecidableEq A] in
/-- **A lookup** finds the most recent entry with the sequence id. -/
theorem hashLookup_eq (h : Represents σ s) (id : BitVec w) :
    (σ.table.hashLookup (getBucket σ.table.noBuckets id) fun a => seqidCmp (σ.seqid a) id) =
      some (s.find? fun a => decide (σ.seqid a = id)) := by
  have hlen : (σ.lists s (σ.table.buckets (getBucket σ.table.noBuckets id))).length <
      σ.table.count.toNat + 1 := by
    have := List.length_filter_le
      (fun a => decide (σ.table.buckets (σ.bucket a) =
        σ.table.buckets (getBucket σ.table.noBuckets id))) s
    rw [h.count, Requests.lists]
    omega
  rw [HashTable.hashLookup, if_pos (getBucket_lt _ _),
    h.rings.find_eq (q := fun a => seqidCmp (σ.seqid a) id) (fun _ _ => rfl) hlen]
  rw [Requests.lists, List.find?_filter]
  congr 2
  funext a
  rw [Bool.eq_iff_iff]
  simp only [decide_eq_true_eq, seqidCmp_iff]
  constructor
  · exact fun h => h.2
  · rintro rfl
    exact ⟨rfl, rfl⟩

/-- **One action.** -/
theorem step (h : Represents σ s) (he : act.Enabled σ) :
    ∃ σ', act.exec σ = some σ' ∧ Represents σ' (act.linked s) := by
  cases act with
  | init a id => exact h.init_step (h.notMem he)
  | reuse a next prev => exact h.reuse_step (h.notMem he) next prev
  | add a => exact h.add_step he.1 ((h.isEmpty_iff he.1).1 he.2)
  | rem a =>
      by_cases ha : a ∈ s
      · exact h.rem_step ha
      · refine ⟨σ, ?_, ?_⟩
        · rw [HashAction.exec, h.hashRem_of_notMem he ha]
          rfl
        · rw [HashAction.linked, List.erase_of_not_mem ha]
          exact h
  | lookup id =>
      refine ⟨σ, ?_, h⟩
      rw [HashAction.exec, h.hashLookup_eq]
      rfl

/-- **A run.** -/
theorem steps {acts : List (HashAction H A w)} (h : Represents σ s)
    (hs : (hashSystem H A w).Steps σ acts σ') : Represents σ' (acts.foldl HashAction.linked s) := by
  induction hs generalizing s with
  | nil => exact h
  | cons he hx _ ih =>
      obtain ⟨σ₁, hx', h'⟩ := h.step he
      obtain rfl := Option.some.inj (hx.symm.trans hx')
      exact ih h'

end Represents

/-- A new table is empty. -/
theorem represents_nil (h : (hashSystem H A w).init σ) : Represents σ [] := by
  obtain ⟨hcount, hready, hring⟩ := h
  exact ⟨⟨hring, by simp [Requests.lists]⟩, List.nodup_nil, hcount, by simp,
    fun a hr => by rw [hready a] at hr; cases hr⟩

/-- **The table is a faithful map.** After any actions it holds the entries
added and not removed since, each in the bucket of its sequence id and in no
other; a lookup finds the most recent one with the id and changes nothing;
removing an entry that is not linked changes nothing; and no action fails. -/
theorem hash_is_map {acts : List (HashAction H A w)} {σ₀ : Requests H A w}
    (h₀ : (hashSystem H A w).init σ₀) (hs : (hashSystem H A w).Steps σ₀ acts σ) :
    (linkedAfter acts).Nodup ∧ σ.table.count = (linkedAfter acts).length ∧
    (∀ a, σ.ready a = true →
      (σ.table.links.isEmpty (.elem a) = true ↔ a ∉ linkedAfter acts)) ∧
    (∀ i a, σ.table.links.Reaches (σ.table.buckets i) (.elem a) ↔
      a ∈ linkedAfter acts ∧ getBucket σ.table.noBuckets (σ.seqid a) = i) ∧
    (∀ id : BitVec w,
      (σ.table.hashLookup (getBucket σ.table.noBuckets id) fun a => seqidCmp (σ.seqid a) id) =
          some ((linkedAfter acts).find? fun a => decide (σ.seqid a = id)) ∧
        (HashAction.lookup id).exec σ = some σ) ∧
    (∀ a, σ.ready a = true → a ∉ linkedAfter acts → σ.table.hashRem a = some σ.table) ∧
    ∀ act : HashAction H A w, act.Enabled σ → ∃ σ', act.exec σ = some σ' := by
  have h : Represents σ (linkedAfter acts) := (represents_nil h₀).steps hs
  refine ⟨h.nodup, h.count, fun a => h.isEmpty_iff, fun i a => ?_, fun id => ?_,
    fun a => h.hashRem_of_notMem, fun act he => ?_⟩
  · rw [h.rings.reaches_elem_iff, Represents.mem_lists]
    exact and_congr_right fun _ => σ.table.buckets.injective.eq_iff
  · refine ⟨h.hashLookup_eq id, ?_⟩
    rw [HashAction.exec, h.hashLookup_eq]
    rfl
  · obtain ⟨σ', hx, -⟩ := h.step he
    exact ⟨σ', hx⟩

/-- An empty table of two buckets. -/
def emptyTable : Requests ℕ ℕ 32 :=
  ⟨⟨.refl ℕ, 2, by decide, ⟨fun x => x, fun x => x⟩, 0⟩, fun _ => 0, fun _ => false⟩

theorem emptyTable_init : (hashSystem ℕ ℕ 32).init emptyTable :=
  ⟨rfl, fun _ => rfl, fun _ => ⟨⟨rfl, rfl⟩, by simp⟩⟩

/-- Of two entries with one sequence id the later one is found. -/
theorem hash_is_map_two :
    ∃ σ, (hashSystem ℕ ℕ 32).Steps emptyTable [.init 7 3, .init 8 3, .add 7, .add 8] σ ∧
      (σ.table.hashLookup (getBucket 2 (3 : BitVec 32)) fun a => seqidCmp (σ.seqid a) 3) =
        some (some 8) := by
  have hs : (hashSystem ℕ ℕ 32).Steps emptyTable [.init 7 3, .init 8 3, .add 7, .add 8] _ :=
    .cons (fun h => by cases h) rfl (.cons (fun h => by cases h) rfl
      (.cons ⟨rfl, rfl⟩ rfl (.cons ⟨rfl, rfl⟩ rfl .nil)))
  exact ⟨_, hs, ((hash_is_map emptyTable_init hs).2.2.2.2.1 3).1⟩

end Common

end VmwareProto
