import VmwareProto.Library.Rings
import VmwareProto.Mpp.Complete
import VmwareProto.Mpp.Wire
/-!
# `rpc_chan_t` of the VMkernel endpoint

The channel's memory and the functions that work on it alone: the hash of
pending requests, the pool of message buffers, and what gets, puts and
closes. As on the other side a message's hash entry and a free buffer's list
node are the same memory, so one `Links` holds the buckets and the free
list. `none` is an assertion that fails or a pointer that leads nowhere.
-/

namespace VmwareProto

namespace Mpp

/-- The address of a message buffer. -/
abbrev Addr := ℕ

/-- An `ExampleCommand`, by its address. -/
abbrev CmdId := ℕ

/-- Those who work on a channel: the worlds that send, the workers of its
thread pool, and its receive thread. -/
inductive Actor
  | world (n : ℕ)
  | worker (n : ℕ)
  | receiver
  deriving DecidableEq, Repr

/-- What a message buffer outside the pool is being used for. The code keeps
no such record. -/
inductive Use
  /-- in nobody's hands but those of `x` -/
  | held (x : Actor)
  /-- being sent by `x`, as a request -/
  | sending (x : Actor)
  /-- sent, and its sender gone -/
  | pending
  /-- in a work item -/
  | queued
  /-- in `resp` of the request `a` -/
  | attached (a : Addr)
  /-- left behind by a `rpc_response` on a disabled channel -/
  | returned
  deriving DecidableEq, Repr

/-- `rpc_msg_t`; `exCmd` is its `opaque`. -/
structure Msg where
  frame : Frame
  resp : Option Addr
  exCmd : CmdId
  use : Use
  deriving DecidableEq, Repr

/-- The message as it was stored, within its buffer: zeroed beyond what arrived. -/
def Frame.ofStored (cfg : RecvCfg) (stored : List Byte) (payload : Option (List Byte)) : Frame where
  hdr := MsgHdr.decode stored
  pad := ⟨BitVec.ofNat 32 (leValue ((stored.drop 12).take 4)),
    BitVec.ofNat 48 (leValue ((stored.drop 26).take 6))⟩
  body := stored.drop hdrSize ++ List.replicate (cfg.msgsz - max hdrSize stored.length) 0
  payload := payload

/-- What `rpc_chan_init` is given, the socket, and the plugin's
`resp_handler`: what it makes of the command of a request and its response,
if no assertion of its stops it. -/
structure Cfg extends RecvCfg where
  nway : ℕ
  reserve : ℕ
  hashsz : ℕ
  /-- as `_bufpool_get` asserts of a pool that is asked for its reserve -/
  reserve_pos : 0 < reserve
  /-- as `bufpool_init_reserve` asserts -/
  nbufs_le : nway + reserve ≤ nway * 3
  /-- as `hash_init` asserts -/
  hashsz_pos : 0 < hashsz
  sock : Socket
  handler : ScsiCommand → Request → Option ScsiCommand

namespace Cfg

def nbufs (cfg : Cfg) : ℕ := cfg.nway + cfg.reserve

def nmax (cfg : Cfg) : ℕ := cfg.nway * 3

/-- `get_bucket`, whose argument has 32 bits. -/
def getBucket (cfg : Cfg) (id : BitVec 64) : ℕ := id.toNat % 2 ^ 32 % cfg.hashsz

end Cfg

/-- `rpc_chan_t`, with the message buffers. -/
structure Channel where
  enabled : Bool
  /-- how often `socket_close` was called on the socket -/
  closes : ℕ
  seqid : BitVec 64
  /-- bucket `i` is the list of `head (some i)`, the free list that of `head none` -/
  links : Links (Node (Option ℕ) Addr)
  /-- `hash.count` -/
  count : ℤ
  /-- `msgpool.freelist.q_len`, an `int`, at most `nbufs` (`qlen_le_reachable`) -/
  qlen : ℤ
  owned : ℕ
  issued : ℤ
  /-- memory the pool allocated and did not free -/
  live : Addr → Bool
  /-- who holds `rcp->lock` -/
  lock : Option Actor
  /-- the buffers that are issued -/
  msgs : Addr → Option Msg

namespace Channel

variable (cfg : Cfg) (c : Channel) (a : Addr)

/-- Write a message. -/
def setMsg (m : Msg) : Channel := { c with msgs := Function.update c.msgs a (some m) }

/-! ## The hash -/

/-- `hash_add`. -/
def hashAdd (bucket : ℕ) : Channel :=
  { c with links := c.links.add (.head (some bucket)) (.elem a), count := c.count + 1 }

/-- `hash_rem`. -/
def hashRem : Option Channel :=
  let c :=
    if c.links.isEmpty (.elem a) = true then c
    else { c with links := c.links.rem (.elem a), count := c.count - 1 }
  if c.count < 0 then none else some c

/-- `seqid_cmp` against a message with sequence id `s`. -/
def seqidCmp (s : BitVec 64) : Option Bool := (c.msgs a).map fun m => m.frame.hdr.seqid - s == 0

/-- `hash_lookup`; the walk is cut off beyond `count` entries. -/
def hashLookup (s : BitVec 64) (bucket : ℕ) : Option (Option Addr) :=
  c.links.find (some bucket) (fun a => c.seqidCmp a s) (c.count.toNat + 1)
    (c.links.next (.head (some bucket)))

/-! ## The message pool -/

/-- `_bufpool_get` would find a buffer; `r` is `alloc_reserve`. -/
def CanGet (r : Bool) : Prop :=
  c.links.isEmpty (.head none) = false ∨ c.owned + cfg.reserve < cfg.nmax ∨
    r = true ∧ c.owned < cfg.nmax

instance (r : Bool) : Decidable (c.CanGet cfg r) := inferInstanceAs (Decidable (_ ∨ _ ∨ _))

/-- `_bufpool_get(&rcp->msgpool, ..)`: the last of the free list, or the
fresh memory `alloc`. -/
def poolGet (r : Bool) (alloc : Addr) : Option (Channel × Addr) :=
  if c.links.isEmpty (.head none) = false then
    match c.links.prev (.head none) with
    | .head _ => none
    | .elem a =>
        if c.qlen - 1 < 0 then none
        else some ({ c with
          links := c.links.rem (.elem a), qlen := c.qlen - 1, issued := c.issued + 1 }, a)
  else if c.owned + cfg.reserve < cfg.nmax ∨ r = true ∧ c.owned < cfg.nmax then
    some ({ c with
      live := Function.update c.live alloc true
      owned := c.owned + 1, issued := c.issued + 1 }, alloc)
  else none

/-- `bufpool_put(&rcp->msgpool, ..)`. -/
def poolPut : Option Channel :=
  let c := { c with issued := c.issued - 1, msgs := Function.update c.msgs a none }
  if c.owned ≤ cfg.nbufs then
    some { c with
      links := (c.links.init (.elem a)).add (.head none) (.elem a), qlen := c.qlen + 1 }
  else if c.owned - 1 < cfg.nbufs then none
  else some { c with live := Function.update c.live a false, owned := c.owned - 1 }

/-! ## Messages -/

/-- `rpc_msg_get` for `x`. What the caller does not set is what the memory
holds: the padding and the client's part of the header. -/
def msgGet (x : Actor) (alloc : Addr) (msgtype msglen : ℕ) (pad : HdrPad) (body : List Byte) :
    Option (Channel × Addr) := do
  let (c, a) ← c.poolGet cfg false alloc
  let m : Msg := {
    frame := {
      hdr := {
        seqid := c.seqid
        type := BitVec.ofNat 16 (msgtype <<< 4)
        msglen := BitVec.ofNat 16 msglen
        payloadlen := 0
        status := 0 }
      pad := pad
      body := body
      payload := none }
    resp := none
    exCmd := 0
    use := .held x }
  some ({ c with links := c.links.init (.elem a), seqid := c.seqid + 1 }.setMsg a m, a)

/-- The first half of `rpc_msg_put`, of a message that has a response. -/
def putResp : Option Channel := do
  let m ← c.msgs a
  let b ← m.resp
  let r ← c.msgs b
  if r.resp ≠ none then none
  else
    let c ← c.poolPut cfg b
    some (c.setMsg a { m with resp := none })

/-- The channel after `rpc_chan_init`, with the buffers that
`bufpool_init_reserve` allocates. -/
def initial (bufs : List Addr) : Channel where
  enabled := true
  closes := 0
  seqid := 1
  links := bufs.foldl (fun L b => (L.init (.elem b)).add (.head none) (.elem b)) ⟨id, id⟩
  count := 0
  qlen := bufs.length
  owned := bufs.length
  issued := 0
  live a := decide (a ∈ bufs)
  lock := none
  msgs _ := none

end Channel

end Mpp

end VmwareProto
