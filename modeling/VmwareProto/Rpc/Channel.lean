import VmwareProto.Library.Rings
import VmwareProto.Libtask.QLock
import VmwareProto.Rpc.Receive
import Mathlib.Data.Int.Notation
/-!
# `rpc_chan_t`

The channel of the libtask RPC and the functions that work on it alone:
the hash of pending requests, the pool of message buffers, and what gets,
puts and closes. A message's hash entry and a free buffer's list node are
the same two words of memory, so one `Links` holds the buckets and the free
list. `none` is an assertion that fails or a pointer that leads nowhere.
-/

namespace VmwareProto

namespace Rpc

open Libtask

/-- The address of a message buffer. -/
abbrev Addr := ℕ

/-- `RPC_EDISABLED`. -/
def eDisabled : ℕ := 2001

/-- What a message buffer outside the pool is being used for. The code
keeps no such record; the rules of the API are stated with it. -/
inductive Use
  /-- from `rpc_msg_get`, with its caller -/
  | fresh
  /-- inside the `rpc_request` of task `n` -/
  | request (n : TaskId)
  /-- inside the `rpc_response` of task `n` -/
  | response (n : TaskId)
  /-- back from `rpc_request`, with what it returned -/
  | returned (res : ℕ)
  /-- being filled by `_rpc_receive` -/
  | reading
  /-- given to a handler task -/
  | handed
  /-- in `resp` of the request `a` -/
  | attached (a : Addr)
  deriving DecidableEq, Repr

/-- `rpc_msg_t`. -/
structure Msg where
  hdr : MsgHdr
  /-- what the buffer holds behind the bare header -/
  body : List Byte
  /-- the data buffer -/
  payload : Option (List Byte)
  resp : Option Addr
  rendez : List TaskId
  use : Use
  deriving DecidableEq, Repr

namespace Msg

/-- A zeroed buffer in which `stored` was stored from `&msgp->hdr` on, as far as it has room: what
is stored behind it is a fault of the step that stores it. -/
def ofBytes (cfg : RecvCfg) (stored : List Byte) : Msg where
  hdr := MsgHdr.decode stored
  body := stored.drop hdrSize ++ List.replicate (cfg.msgsz - max hdrSize stored.length) 0
  payload := none
  resp := none
  rendez := []
  use := .reading

/-- The `msglen` bytes from `&msgp->hdr` on. -/
def hdrBytes (m : Msg) : List Byte := (m.hdr.encode ++ m.body).take m.hdr.len

/-- The first `payloadlen` bytes of the data buffer. -/
def payloadBytes (m : Msg) : List Byte := (m.payload.getD []).take m.hdr.plen

/-- The message on the wire. -/
def wire (m : Msg) : List Byte := m.hdrBytes ++ m.payloadBytes

/-- The assertions of `rpc_request` and `rpc_response` on their argument. -/
def Asserts (m : Msg) : Prop :=
  hdrSize ≤ m.hdr.len ∧ (m.payload = none → m.hdr.plen = 0) ∧ m.resp = none

instance (m : Msg) : Decidable m.Asserts := inferInstanceAs (Decidable (_ ∧ _ ∧ _))

/-- The lengths in the header lie within the buffers. -/
def InBuffers (m : Msg) : Prop :=
  m.hdr.len ≤ hdrSize + m.body.length ∧ m.hdr.plen ≤ (m.payload.getD []).length

/-- Only the bytes to be sent are counted. -/
instance (m : Msg) : Decidable m.InBuffers :=
  decidable_of_iff (m.hdr.len ≤ hdrSize + m.body.length ∧ m.payloadBytes.length = m.hdr.plen)
    (and_congr_right' (by rw [payloadBytes, List.length_take]; omega))

end Msg

/-- What `rpc_chan_init` is given. -/
structure Cfg extends RecvCfg where
  nway : ℕ
  hashsz : ℕ
  /-- as `hash_init` asserts -/
  hashsz_pos : 0 < hashsz

namespace Cfg

def nbufs (cfg : Cfg) : ℕ := cfg.nway + 1

def nmax (cfg : Cfg) : ℕ := cfg.nbufs * 3

/-- `get_bucket`. -/
def getBucket (cfg : Cfg) (id : BitVec 32) : ℕ := id.toNat % cfg.hashsz

end Cfg

/-- `BUFPOOL_STATE` of the message pool, up to the end of the channel. -/
inductive PoolState
  | initialized
  | deiniting
  | gone
  deriving DecidableEq, Repr

/-- `rpc_chan_t`, with the message buffers. -/
structure Channel where
  enabled : Bool
  /-- the descriptors are those the channel was given -/
  isOpen : Bool
  seqid : BitVec 32
  /-- bucket `i` is the list of `head (some i)`, the free list that of `head none` -/
  links : Links (Node (Option ℕ) Addr)
  /-- `hash.count` -/
  count : ℤ
  /-- `msgpool.freelist.q_len`, an `int`, at most `nbufs` (`qlen_le_reachable`) -/
  qlen : ℤ
  owned : ℕ
  issued : ℕ
  state : PoolState
  /-- memory the pool allocated and did not free -/
  live : Addr → Bool
  fdlock : QLock
  /-- the buffers that are issued -/
  msgs : Addr → Option Msg

namespace Channel

variable (cfg : Cfg) (c : Channel) (a : Addr)

/-- Write a message. -/
def setMsg (m : Msg) : Channel := { c with msgs := Function.update c.msgs a (some m) }

/-! ## The hash -/

/-- `hash_add`. -/
def hashAdd (bucket : ℕ) : Channel :=
  { c with links := c.links.add (.head (some bucket)) (.elem a), count := c.count + 1 }

/-- `hash_rem`. -/
def hashRem : Option Channel :=
  let c :=
    if c.links.isEmpty (.elem a) = true then c
    else { c with links := c.links.rem (.elem a), count := c.count - 1 }
  if c.count < 0 then none else some c

/-- `seqid_cmp` against a message with sequence id `s`. -/
def seqidCmp (s : BitVec 32) : Option Bool := (c.msgs a).map fun m => m.hdr.seqid - s == 0

/-- `hash_lookup`; the walk is cut off beyond `count` entries. -/
def hashLookup (s : BitVec 32) (bucket : ℕ) : Option (Option Addr) :=
  c.links.find (some bucket) (fun a => c.seqidCmp a s) (c.count.toNat + 1)
    (c.links.next (.head (some bucket)))

/-! ## The message pool -/

/-- `bufpool_get` would find a buffer. -/
def CanGet : Prop := c.links.isEmpty (.head none) = false ∨ c.owned < cfg.nmax

/-- `bufpool_get_zero(&rcp->msgpool, ..)`: the last of the free list, or the
fresh memory `alloc`. -/
def poolGet (alloc : Addr) : Option (Channel × Addr) :=
  if c.state ≠ .initialized then none
  else if c.links.isEmpty (.head none) = false then
    match c.links.prev (.head none) with
    | .head _ => none
    | .elem a =>
        if c.qlen - 1 < 0 then none
        else some ({ c with
          links := c.links.rem (.elem a), qlen := c.qlen - 1, issued := c.issued + 1 }, a)
  else if c.owned < cfg.nmax then
    some ({ c with
      live := Function.update c.live alloc true
      owned := c.owned + 1, issued := c.issued + 1 }, alloc)
  else none

/-- `bufpool_put(&rcp->msgpool, ..)`. -/
def poolPut : Option Channel :=
  let c := { c with issued := c.issued - 1, msgs := Function.update c.msgs a none }
  if c.owned ≤ cfg.nbufs then
    some { c with
      links := (c.links.init (.elem a)).add (.head none) (.elem a), qlen := c.qlen + 1 }
  else if c.owned - 1 < cfg.nbufs then none
  else some { c with live := Function.update c.live a false, owned := c.owned - 1 }

/-! ## Messages -/

/-- `rpc_msg_get`: with the message's type and lengths, and its data
buffer. Returns the message. -/
def msgGet (alloc : Addr) (msgtype msglen payloadlen : ℕ) (payload : Option (List Byte)) :
    Option (Channel × Addr) := do
  if msglen < hdrSize ∨ payload = none ∧ payloadlen ≠ 0 then none
  else
    let (c, a) ← c.poolGet cfg alloc
    let m : Msg :=
      { Msg.ofBytes cfg.toRecvCfg [] with
        hdr := {
          seqid := c.seqid
          type := BitVec.ofNat 16 (msgtype <<< 4)
          msglen := BitVec.ofNat 16 msglen
          payloadlen := BitVec.ofNat 16 payloadlen
          status := 0 }
        payload := payload
        use := .fresh }
    some ({ c with links := c.links.init (.elem a), seqid := c.seqid + 1 }.setMsg a m, a)

/-- `rpc_msg_put`. -/
def msgPut : Option Channel := do
  let m ← c.msgs a
  match m.resp with
  | none => c.poolPut cfg a
  | some b => do
      let r ← c.msgs b
      if r.resp ≠ none then none
      else
        let c ← c.poolPut cfg b
        c.poolPut cfg a

/-- `rpc_chan_close`. -/
def close : Channel := { c with enabled := false, isOpen := false }

/-- `rpc_chan_init` with the buffers `bufpool_init` allocates. -/
def initial (bufs : List Addr) : Channel where
  enabled := true
  isOpen := true
  seqid := 1
  links := bufs.foldl (fun L b => (L.init (.elem b)).add (.head none) (.elem b)) ⟨id, id⟩
  count := 0
  qlen := bufs.length
  owned := bufs.length
  issued := 0
  state := .initialized
  live a := decide (a ∈ bufs)
  fdlock := ⟨none, []⟩
  msgs _ := none

end Channel

end Rpc

end VmwareProto
