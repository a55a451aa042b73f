import VmwareProto.Common.Hash
import VmwareProto.Rpc.Channel
import VmwareProto.Mpp.Channel
/-!
# The hashes of the channels

Both endpoints keep their pending requests in a `hash_table_t` whose heads
lie beside that of the free list. `Keeper` is what the two kinds of channel
have in common; that what they do to the hash is what `hash.c` does is
proved of it, once, and either channel is one.
-/

namespace VmwareProto

namespace Common

/-- A kind of channel that keeps its messages in a hash. -/
structure Keeper (C A : Type*) [DecidableEq A] (w : ℕ) where
  noBuckets : ℕ
  noBuckets_pos : 0 < noBuckets
  links : C → Links (Node (Option ℕ) A)
  count : C → ℤ
  withHash : C → Links (Node (Option ℕ) A) → ℤ → C
  links_withHash : ∀ c L k, links (withHash c L k) = L
  count_withHash : ∀ c L k, count (withHash c L k) = k
  /-- the sequence id of a message -/
  seqid : C → A → Option (BitVec w)
  cmp : C → A → BitVec w → Option Bool
  cmp_eq : ∀ c a s, cmp c a s = (seqid c a).map fun id => seqidCmp id s

namespace Keeper

variable {C A : Type*} [DecidableEq A] {w : ℕ} (K : Keeper C A w) (c : C) (a : A) (bucket : ℕ)

/-- `rcp->hash`. -/
def hash : HashTable (Option ℕ) A := ⟨.some, K.noBuckets, K.noBuckets_pos, K.links c, K.count c⟩

def hashAdd : C :=
  K.withHash c ((K.links c).add (.head (some bucket)) (.elem a)) (K.count c + 1)

def hashRem : Option C :=
  let c :=
    if (K.links c).isEmpty (.elem a) = true then c
    else K.withHash c ((K.links c).rem (.elem a)) (K.count c - 1)
  if K.count c < 0 then none else some c

def hashLookup (s : BitVec w) : Option (Option A) :=
  (K.links c).find (some bucket) (fun a => K.cmp c a s) ((K.count c).toNat + 1)
    ((K.links c).next (.head (some bucket)))

theorem hash_withHash (L : Links (Node (Option ℕ) A)) (k : ℤ) :
    K.hash (K.withHash c L k) = { K.hash c with links := L, count := k } := by
  rw [hash, K.links_withHash, K.count_withHash]
  rfl

variable {bucket}

/-- **What a channel adds is in the hash.** -/
theorem hash_hashAdd (hb : bucket < K.noBuckets) :
    (K.hash c).hashAdd a bucket = some (K.hash (K.hashAdd c a bucket)) := by
  rw [hashAdd, hash_withHash]
  exact if_pos hb

/-- **What it removes is not.** -/
theorem hash_hashRem : (K.hash c).hashRem a = (K.hashRem c a).map K.hash := by
  unfold HashTable.hashRem hashRem
  have hlinks : (K.hash c).links = K.links c := rfl
  have hcount : (K.hash c).count = K.count c := rfl
  rw [hlinks, hcount]
  by_cases he : (K.links c).isEmpty (.elem a) = true
  · simp only [he, if_true, hcount]
    split <;> rfl
  · simp only [he, Bool.false_eq_true, if_false, K.count_withHash]
    split
    · rfl
    · rw [Option.map_some, hash_withHash]

/-- **It finds what is there**: as far as the bucket holds messages, the walk
of the channel is that of `hash_lookup`. -/
theorem hash_hashLookup {lists : Option ℕ → List A} {id : A → BitVec w} (hb : bucket < K.noBuckets)
    (hR : (K.links c).Rings lists)
    (hlen : (lists (some bucket)).length < (K.count c).toNat + 1)
    (hid : ∀ a ∈ lists (some bucket), K.seqid c a = some (id a)) (s : BitVec w) :
    (K.hash c).hashLookup bucket (fun a => seqidCmp (id a) s) = K.hashLookup c bucket s := by
  have hcmp : ∀ a ∈ lists (some bucket), K.cmp c a s = some (seqidCmp (id a) s) := fun a ha => by
    rw [K.cmp_eq, hid a ha, Option.map_some]
  rw [hashLookup, hR.find_eq hcmp hlen]
  exact (if_pos hb).trans (hR.find_eq (fun _ _ => rfl) hlen)

end Keeper

end Common

open Common

/-! ## The two channels -/

namespace Rpc

/-- iosplitter's channel. -/
def keeper (cfg : Cfg) : Keeper Channel Addr 32 where
  noBuckets := cfg.hashsz
  noBuckets_pos := cfg.hashsz_pos
  links := Channel.links
  count := Channel.count
  withHash c L k := { c with links := L, count := k }
  links_withHash _ _ _ := rfl
  count_withHash _ _ _ := rfl
  seqid c a := (c.msgs a).map fun m : Msg => m.hdr.seqid
  cmp := Channel.seqidCmp
  cmp_eq c a s := (Option.map_map (seqidCmp · s) (fun m : Msg => m.hdr.seqid) (c.msgs a)).symm

/-- **iosplitter's channel keeps its requests as `hash.c` does.** -/
theorem keeper_eq (cfg : Cfg) (c : Channel) (a : Addr) (s : BitVec 32) :
    getBucket (keeper cfg).noBuckets s = cfg.getBucket s ∧
      (keeper cfg).hashAdd c a (cfg.getBucket s) = c.hashAdd a (cfg.getBucket s) ∧
      (keeper cfg).hashRem c a = c.hashRem a ∧
      (keeper cfg).hashLookup c (cfg.getBucket s) s = c.hashLookup s (cfg.getBucket s) := by
  refine ⟨?_, rfl, rfl, rfl⟩
  rw [getBucket, BitVec.setWidth_eq]
  rfl

end Rpc

namespace Mpp

/-- The plugin's channel. -/
def keeper (cfg : Cfg) : Keeper Channel Addr 64 where
  noBuckets := cfg.hashsz
  noBuckets_pos := cfg.hashsz_pos
  links := Channel.links
  count := Channel.count
  withHash c L k := { c with links := L, count := k }
  links_withHash _ _ _ := rfl
  count_withHash _ _ _ := rfl
  seqid c a := (c.msgs a).map fun m : Msg => m.frame.hdr.seqid
  cmp := Channel.seqidCmp
  cmp_eq c a s :=
    (Option.map_map (seqidCmp · s) (fun m : Msg => m.frame.hdr.seqid) (c.msgs a)).symm

/-- **The plugin's channel keeps its commands as `hash.c` does**, by the low
32 bits of their sequence ids. -/
theorem keeper_eq (cfg : Cfg) (c : Channel) (a : Addr) (s : BitVec 64) :
    getBucket (keeper cfg).noBuckets s = cfg.getBucket s ∧
      (keeper cfg).hashAdd c a (cfg.getBucket s) = c.hashAdd a (cfg.getBucket s) ∧
      (keeper cfg).hashRem c a = c.hashRem a ∧
      (keeper cfg).hashLookup c (cfg.getBucket s) s = c.hashLookup s (cfg.getBucket s) := by
  refine ⟨?_, rfl, rfl, rfl⟩
  rw [getBucket, BitVec.toNat_setWidth]
  rfl

end Mpp

end VmwareProto
