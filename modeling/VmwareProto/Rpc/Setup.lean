import VmwareProto.BufPool.Setup
import VmwareProto.Rpc.Channel
/-!
# Setting up a channel

`rpc_chan_init` leaves by `rpc_chan_deinit` when memory runs out, and that
deinitialises both pools and the hash, whether they were initialised or not.
The assertions of `bufpool_deinit` and `hash_deinit` know the difference, so
only the last allocation, that of the buckets, may fail.
-/

namespace VmwareProto

namespace Rpc

open Libtask

/-- `RPC_ENOMEM`. -/
def eNomem : ℤ := 2002

/-- A handler, by its address, or the one for channels without. -/
inductive Handler
  | user (f : ℕ)
  | default
  deriving DecidableEq, Repr

/-- `hash_table_t`; the buckets are null if there was no memory for them. -/
structure HashMem where
  noBuckets : ℤ
  count : ℤ
  buckets : Option Addr
  deriving DecidableEq, Repr

/-- `rpc_chan_t`. A pool is `none` while its bytes are zero, and so is a null
pointer. -/
structure ChanMem where
  infd : ℤ
  outfd : ℤ
  enabled : Bool
  seqid : BitVec 32
  hash : HashMem
  msgpool : Option BufPool.Pool
  datapool : Option BufPool.Pool
  handler : Option Handler
  usrcntxt : ℕ

/-- `BZERO`. -/
def ChanMem.zero : ChanMem := ⟨0, 0, false, 0, ⟨0, 0, none⟩, none, none, none, 0⟩

/-- What was allocated for a channel and not freed. -/
structure Allocated where
  msgs : Addr → Bool
  data : Addr → Bool
  buckets : Bool

/-- Nothing. -/
def Allocated.nothing : Allocated := ⟨fun _ => false, fun _ => false, false⟩

/-! ## `rpc_chan_deinit` -/

/-- `bufpool_deinit` of a channel's pool, as far as it does not sleep. A
zeroed pool is not `INITIALIZED`. -/
def poolDeinit (t : TaskId) (pool : Option BufPool.Pool) : Option BufPool.Pool := do
  let p ← pool
  let (p, asleep) ← p.bufpoolDeinit t
  if asleep = true then none else some p

/-- `hash_deinit`. -/
def HashMem.deinit (h : HashMem) : Option HashMem :=
  if 0 < h.noBuckets ∧ h.count = 0 then some { h with buckets := none } else none

/-- `rpc_chan_deinit`, by task `t`. -/
def rpcChanDeinit (t : TaskId) (c : ChanMem) : Option (ChanMem × Allocated) := do
  let p ← poolDeinit t c.msgpool
  let q ← poolDeinit t c.datapool
  let h ← c.hash.deinit
  some (.zero, ⟨p.live, q.live, h.buckets.isSome⟩)

/-! ## `rpc_chan_init` -/

/-- What `rpc_chan_init` is given. -/
structure InitArgs where
  infd : ℤ
  outfd : ℤ
  nway : BitVec 64
  msgsz : BitVec 64
  datasz : BitVec 64
  hashsz : BitVec 64
  handler : Option ℕ
  usrcntxt : ℕ

/-- What the allocator answers to the requests for message buffers, data
buffers and buckets; memory in use is not handed out again. -/
structure Answers where
  msg : ℕ → Option Addr
  data : ℕ → Option Addr
  buckets : Option Addr
  msg_inj : ∀ i j a, msg i = some a → msg j = some a → i = j
  data_inj : ∀ i j a, data i = some a → data j = some a → i = j

namespace InitArgs

variable (P : InitArgs)

def msgnbufs : BitVec 64 := P.nway + 1

def msgnmax : BitVec 64 := P.msgnbufs * 3

def datanbufs : BitVec 64 := 2 * P.nway + 2

def datanmax : BitVec 64 := P.datanbufs * 3

/-- `hash_init` takes the number of buckets as an `int`. -/
def noBuckets : ℤ := (P.hashsz.setWidth 32).toInt

end InitArgs

/-- What `bufpool_init` returns, an `int`, as it is compared with a `size_t`. -/
def bufpoolRet (p : BufPool.Pool) : BitVec 64 := (BitVec.ofNat 32 p.owned).signExtend 64

/-- `hash_init`, with what it returns. -/
def hashInit (noBuckets : ℤ) (buckets : Option Addr) : Option (HashMem × ℤ) :=
  if 0 < noBuckets then some (⟨noBuckets, 0, buckets⟩, if buckets = none then -1 else 0) else none

/-- `errout`. -/
def initErrout (t : TaskId) (res : ℤ) (c : ChanMem) : Option (ℤ × ChanMem × Allocated) :=
  (rpcChanDeinit t c).map fun r => (res, r)

/-- `rpc_chan_init`, by task `t`: what it returns, the channel, and what is
allocated for it. -/
def rpcChanInit (t : TaskId) (P : InitArgs) (A : Answers) : Option (ℤ × ChanMem × Allocated) :=
  if hdrSize ≤ P.msgsz.toNat ∧ P.msgsz.toNat ≤ 65535 then do
    let handler := P.handler.elim .default .user
    let c := { ChanMem.zero with handler := some handler, usrcntxt := P.usrcntxt }
    let p ← BufPool.Pool.bufpoolInit (P.msgsz.toNat + hdrOffset) P.msgnbufs.toNat P.msgnmax.toNat A.msg
    let c := { c with msgpool := some p }
    if bufpoolRet p ≠ P.msgnbufs then initErrout t eNomem c
    else do
      let q ← BufPool.Pool.bufpoolInit P.datasz.toNat P.datanbufs.toNat P.datanmax.toNat A.data
      let c := { c with datapool := some q }
      if bufpoolRet q ≠ P.datanbufs then initErrout t eNomem c
      else do
        let (h, res) ← hashInit P.noBuckets A.buckets
        let c := { c with infd := P.infd, outfd := P.outfd, enabled := true, seqid := 1, hash := h }
        if res < 0 then initErrout t res c else some (0, c, ⟨p.live, q.live, A.buckets.isSome⟩)
  else none

/-- The assertions on the parameters: of `rpc_chan_init`, of `bufpool_init`
for each pool, and of `hash_init`. -/
structure InitArgs.Accepted (P : InitArgs) : Prop where
  msgsz_ge : hdrSize ≤ P.msgsz.toNat
  msgsz_le : P.msgsz.toNat ≤ 65535
  msg_pos : 0 < P.msgnbufs.toNat
  msg_le : P.msgnbufs.toNat ≤ P.msgnmax.toNat
  data_pos : 0 < P.datanbufs.toNat
  data_le : P.datanbufs.toNat ≤ P.datanmax.toNat
  buckets_pos : 0 < P.noBuckets

/-- An allocation fails. -/
def Answers.Fails (A : Answers) (P : InitArgs) : Prop :=
  ¬BufPool.Granted A.msg P.msgnbufs.toNat ∨ ¬BufPool.Granted A.data P.datanbufs.toNat ∨
    A.buckets = none

/-- **The set-up fails cleanly**: no assertion fails, the result is not zero,
nothing is left allocated and the channel is zeroed. -/
def FailsCleanly (t : TaskId) (P : InitArgs) (A : Answers) : Prop :=
  ∃ res, rpcChanInit t P A = some (res, .zero, .nothing) ∧ res ≠ 0

/-- Both pools get their buffers, and as many as an `int` can count, so that
the set-up gets to the buckets. -/
def Answers.ReachBuckets (A : Answers) (P : InitArgs) : Prop :=
  (BufPool.Granted A.msg P.msgnbufs.toNat ∧ P.msgnbufs.toNat < 2 ^ 31) ∧
    BufPool.Granted A.data P.datanbufs.toNat ∧ P.datanbufs.toNat < 2 ^ 31

variable {t : TaskId} {P : InitArgs} {A : Answers} {p q : BufPool.Pool} {free : List BufPool.Addr}
  {n : BitVec 64} {malloc : ℕ → Option Addr} {res : ℤ} {c : ChanMem}

/-! ## The parts -/

/-- `bufpool_init` of a number of buffers its assertion accepts: it reports
them all if it gets them and an `int` can count them. -/
theorem bufpoolRet_eq_iff (hle : n.toNat ≤ (n * 3).toNat) (hown : p.owned ≤ n.toNat) :
    bufpoolRet p = n ↔ p.owned = n.toNat ∧ n.toNat < 2 ^ 31 := by
  have hn := n.isLt
  have hret : (bufpoolRet p).toInt = (BitVec.ofNat 32 p.owned).toInt :=
    BitVec.toInt_signExtend_of_le (by decide)
  have h3 : (3 : BitVec 64).toNat = 3 := rfl
  rw [BitVec.toNat_mul, h3] at hle
  -- three times as many do not wrap to more when an `int` would be negative
  have hsmall : n.toNat < 2 ^ 64 - 2 ^ 31 := by
    by_contra hbig
    have hmod : n.toNat * 3 % 2 ^ 64 = n.toNat * 3 - 2 * 2 ^ 64 := by omega
    omega
  clear hle
  rw [← BitVec.toInt_inj, hret, BitVec.toInt_eq_toNat_cond, BitVec.toInt_eq_toNat_cond,
    BitVec.toNat_ofNat]
  split_ifs <;> omega

/-- `bufpool_init` returns where an `int` can count what it is asked for. -/
theorem bufpoolInit_ne_none {bufsize nbufs nmax : ℕ} (hpos : 0 < nbufs) (hle : nbufs ≤ nmax)
    (hsmall : nbufs < 2 ^ 31) : BufPool.Pool.bufpoolInit bufsize nbufs nmax malloc ≠ none := by
  obtain ⟨p, hp⟩ := BufPool.exists_bufpoolInit bufsize malloc hpos hle hsmall
  rw [hp]
  exact Option.some_ne_none p

/-- A pool as `bufpool_init` leaves it is deinitialised. -/
theorem poolDeinit_partial (h : BufPool.Partial p free) :
    ∃ q, poolDeinit t (some p) = some q ∧ ∀ a, q.live a = false := by
  obtain ⟨q, hq, hlive⟩ := h.bufpoolDeinit t
  exact ⟨q, by simp [poolDeinit, hq], hlive⟩

/-- A pool that was not set up is not. -/
theorem poolDeinit_none : poolDeinit t none = none := rfl

/-! ## Where the set-up ends -/

/-- `rpc_chan_deinit` when the set-up got to the buckets. -/
theorem rpcChanDeinit_all {free' : List BufPool.Addr} (hp : BufPool.Partial p free)
    (hq : BufPool.Partial q free') (hm : c.msgpool = some p) (hd : c.datapool = some q)
    (hn : 0 < c.hash.noBuckets) (hz : c.hash.count = 0) :
    rpcChanDeinit t c = some (.zero, .nothing) := by
  obtain ⟨p', hp', hplive⟩ := poolDeinit_partial (t := t) hp
  obtain ⟨q', hq', hqlive⟩ := poolDeinit_partial (t := t) hq
  have hh : c.hash.deinit = some { c.hash with buckets := none } := if_pos ⟨hn, hz⟩
  simp only [rpcChanDeinit, hm, hd, hp', hq', hh, Option.bind_eq_bind, Option.bind_some]
  rw [funext hplive, funext hqlive]
  rfl

/-- With one pool, or none, it is an assertion that fails. -/
theorem rpcChanDeinit_eq_none (h : c.datapool = none ∨ c.hash.noBuckets = 0) :
    rpcChanDeinit t c = none := by
  unfold rpcChanDeinit
  cases poolDeinit t c.msgpool with
  | none => rfl
  | some p =>
      rw [Option.bind_eq_bind, Option.bind_some]
      rcases h with h | h
      · rw [h, poolDeinit_none]
        rfl
      · cases poolDeinit t c.datapool with
        | none => rfl
        | some q =>
            have hh : c.hash.deinit = none := if_neg (by omega)
            rw [hh]
            rfl

/-- **Out of memory, the set-up fails cleanly exactly when it got to the
buckets.** Before that, the clean-up fails on what was not yet set up. -/
theorem setup_fails_cleanly_iff (hacc : P.Accepted) (hfail : A.Fails P) :
    FailsCleanly t P A ↔ A.ReachBuckets P := by
  have hsz : hdrSize ≤ P.msgsz.toNat ∧ P.msgsz.toNat ≤ 65535 := ⟨hacc.msgsz_ge, hacc.msgsz_le⟩
  unfold FailsCleanly rpcChanInit
  rw [if_pos hsz]
  rcases hp : BufPool.Pool.bufpoolInit (P.msgsz.toNat + hdrOffset) P.msgnbufs.toNat
      P.msgnmax.toNat A.msg with _ | p
  · refine iff_of_false ?_ fun h => bufpoolInit_ne_none hacc.msg_pos hacc.msg_le h.1.2 hp
    rintro ⟨res, hx, -⟩
    cases hx
  obtain ⟨⟨free, hpart⟩, hown, -, hgrant⟩ := BufPool.partial_of_bufpoolInit A.msg_inj hp
  have hret := bufpoolRet_eq_iff hacc.msg_le hown
  rw [hgrant] at hret
  simp only [Option.bind_eq_bind, Option.bind_some]
  by_cases hm : bufpoolRet p = P.msgnbufs
  swap
  · refine iff_of_false ?_ fun h => hm (hret.2 h.1)
    rintro ⟨res, hx, -⟩
    rw [if_pos hm, initErrout, rpcChanDeinit_eq_none (.inl rfl)] at hx
    cases hx
  rw [if_neg (not_not.2 hm)]
  rcases hq : BufPool.Pool.bufpoolInit P.datasz.toNat P.datanbufs.toNat P.datanmax.toNat
      A.data with _ | q
  · refine iff_of_false ?_ fun h => bufpoolInit_ne_none hacc.data_pos hacc.data_le h.2.2 hq
    rintro ⟨res, hx, -⟩
    cases hx
  obtain ⟨⟨free', hpart'⟩, hown', -, hgrant'⟩ := BufPool.partial_of_bufpoolInit A.data_inj hq
  have hret' := bufpoolRet_eq_iff hacc.data_le hown'
  rw [hgrant'] at hret'
  simp only [Option.bind_some]
  by_cases hd : bufpoolRet q = P.datanbufs
  · -- the buckets are the allocation that fails
    have hb : A.buckets = none := by
      rcases hfail with h | h | h
      · exact absurd (hret.1 hm).1 h
      · exact absurd (hret'.1 hd).1 h
      · exact h
    have hh : hashInit P.noBuckets A.buckets = some (⟨P.noBuckets, 0, none⟩, -1) := by
      rw [hb]
      exact if_pos hacc.buckets_pos
    refine iff_of_true ⟨-1, ?_, by decide⟩ ⟨hret.1 hm, hret'.1 hd⟩
    rw [if_neg (not_not.2 hd), hh, Option.bind_some]
    simp only
    rw [if_pos (by decide), initErrout, rpcChanDeinit_all hpart hpart' rfl rfl hacc.buckets_pos rfl,
      Option.map_some]
  · refine iff_of_false ?_ fun h => hd (hret'.2 h.2)
    rintro ⟨res, hx, -⟩
    rw [if_pos hd, initErrout, rpcChanDeinit_eq_none (.inr rfl)] at hx
    cases hx

/-- One message at a time, three buckets. -/
def oneWay : InitArgs := ⟨3, 4, 1, 32, 64, 3, none, 0⟩

theorem oneWay_accepted : oneWay.Accepted :=
  ⟨by decide, by decide, by decide, by decide, by decide, by decide, by decide⟩

/-- Memory for the first `k` buffers of each pool, and none for buckets. -/
def firstOnly (k : ℕ) : Answers where
  msg i := if i < k then some i else none
  data i := if i < k then some i else none
  buckets := none
  msg_inj i j a hi hj := by
    simp only [Option.ite_none_right_eq_some, Option.some.injEq] at hi hj
    exact hi.2.trans hj.2.symm
  data_inj i j a hi hj := by
    simp only [Option.ite_none_right_eq_some, Option.some.injEq] at hi hj
    exact hi.2.trans hj.2.symm

/-- The buckets fail. -/
theorem setup_fails_cleanly_buckets : FailsCleanly 0 oneWay (firstOnly 4) := by
  refine (setup_fails_cleanly_iff oneWay_accepted (.inr (.inr rfl))).2
    ⟨⟨fun i hi => ?_, by decide⟩, fun i hi => ?_, by decide⟩
  · have hi' : i < 2 := hi
    simp only [firstOnly, if_pos (show i < 4 by omega), Option.isSome_some]
  · have hi' : i < 4 := hi
    simp only [firstOnly, if_pos hi', Option.isSome_some]

/-- **The first message buffer fails**, and with it the assertion of
`bufpool_deinit`. -/
theorem setup_fails_early : ¬∀ (t : TaskId) (P : InitArgs) (A : Answers), P.Accepted → A.Fails P →
    FailsCleanly t P A := by
  intro h
  have hnot : ¬BufPool.Granted (firstOnly 0).msg oneWay.msgnbufs.toNat := fun hg => by
    have := hg 0 (by decide)
    cases this
  obtain ⟨res, hx, -⟩ := h 0 oneWay (firstOnly 0) oneWay_accepted (.inl hnot)
  have hnone : rpcChanInit 0 oneWay (firstOnly 0) = none := rfl
  rw [hnone] at hx
  cases hx

end Rpc

end VmwareProto
