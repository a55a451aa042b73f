import VmwareProto.Vmk.Pool
/-!
# A channel's buffers

The datapath of a VMkernel channel as far as it uses buffers: worlds in
`read_cmd` and `write_cmd`, the receive thread, the workers of the thread
pool, and a peer that answers a request at most once. The transport does not
fail, so `_rpc_recv` does not come to its error path and the channel stays
enabled. World 0 is the receive thread, the next ones are workers.

The hash table is one list, newest first: two messages with the same number
are in the same bucket. A call is cut where it waits, at each lock it takes
and at each wakeup it sends. A wait in `new_work` is a pause before the step
that links the message to the work list.
-/

namespace VmwareProto

namespace Vmk

/-- How far `rpc_msg_put` is with a message. -/
inductive Stage
  | payload
  | message
  /-- the message is back, the wakeup of `bufpool_put` is to come -/
  | wake
  deriving DecidableEq, Repr

/-- What a world is at. -/
inductive Pc
  | idle
  /-- waits in `rpc_msg_get` -/
  | getMsg
  /-- it has a message without payload -/
  | filling (m : Addr)
  /-- waits in `rpc_payload_get` -/
  | getPload (m : Addr)
  /-- the payload is set -/
  | ready (m : Addr)
  /-- at the top of `_rpc_recv` -/
  | recvTop
  /-- waits for a message buffer -/
  | recvGet
  /-- reads the header -/
  | recvHdr (m : Addr)
  /-- the header tells of a payload -/
  | recvPload (m : Addr)
  /-- waits in `rpc_payload_get` -/
  | recvWait (m : Addr)
  /-- the message is read, the work item is to be scheduled -/
  | recvDone (m : Addr)
  /-- a worker without work -/
  | workTop
  /-- in `_rpc_recv_handler` -/
  | handling (m : Addr)
  /-- in `rpc_msg_put`, with the messages it has still to put -/
  | putting (s : Stage) (ms : List Held)
  deriving DecidableEq, Repr

/-- A channel, its worlds and its peer. -/
structure Datapath where
  msgs : PoolUsers
  ploads : PoolUsers
  /-- `msgp->payload` -/
  payload : Addr → Option Addr
  /-- `msgp->hdr.seqid` -/
  seqid : Addr → ℕ
  /-- `rcp->seqid` -/
  nextSeq : ℕ
  hash : List Addr
  /-- requests the peer has not answered -/
  outstanding : List ℕ
  /-- responses on their way, and whether they have a payload -/
  answers : List (ℕ × Bool)
  /-- the work list of the thread pool -/
  work : List Addr
  pc : World → Pc
  /-- in `vmk_WorldWait` for a message buffer, and not woken -/
  asleep : World → Bool

namespace Datapath

variable (σ : Datapath)

/-- World `x` leaves `rpc_msg_get` or the first call of `_rpc_recv`, with a
message whose fields are set, or stays in it. -/
def settleMsg (x : World) (r : Bool) (e : Pool × Pool.GetOutcome) : Datapath :=
  let σ := { σ with msgs := σ.msgs.settle x r e }
  match e.2 with
  | .got a =>
      if r = true then
        { σ with
          payload := Function.update σ.payload a none, seqid := Function.update σ.seqid a 0
          pc := Function.update σ.pc x (.recvHdr a) }
      else
        { σ with
          payload := Function.update σ.payload a none
          seqid := Function.update σ.seqid a (σ.nextSeq % 2 ^ 64), nextSeq := σ.nextSeq + 1
          pc := Function.update σ.pc x (.filling a) }
  | _ =>
      { σ with
        pc := Function.update σ.pc x (if r = true then .recvGet else .getMsg)
        asleep := Function.update σ.asleep x true }

/-- World `x` leaves `rpc_payload_get` and sets the payload of `m`, or stays
in it. -/
def settlePload (x : World) (m : Addr) (waits done : Pc) (e : Pool × Pool.GetOutcome) : Datapath :=
  let σ := { σ with ploads := σ.ploads.settle x true e }
  match e.2 with
  | .got a =>
      { σ with
        payload := Function.update σ.payload m (some a), pc := Function.update σ.pc x done }
  | _ => { σ with pc := Function.update σ.pc x waits }

/-- Where a world comes back to from `rpc_msg_put`. -/
def home (x : World) : Pc := if x = 0 then .recvTop else if x ≤ 8 then .workTop else .idle

/-- `rpc_payload_put`, if the message has a payload. -/
def payloadPut (m : Addr) : Option PoolUsers :=
  match σ.payload m with
  | none => some σ.ploads
  | some a => (PoolAction.put ⟨a, true⟩).exec σ.ploads

/-- `rpc_msg_put`, up to the next lock it gives back or wakeup it sends. A
payload pointer is cleared only in the message itself, which is the last. -/
def putStep (x : World) : Stage → List Held → Option Datapath
  | _, [] => none
  | .payload, h :: ms => do
      let u ← σ.payloadPut h.buf
      some { σ with
        ploads := u
        payload := if ms = [] then Function.update σ.payload h.buf none else σ.payload
        pc := Function.update σ.pc x (.putting .message (h :: ms)) }
  | .message, h :: ms => do
      let u ← (PoolAction.put h).exec σ.msgs
      some { σ with msgs := u, pc := Function.update σ.pc x (.putting .wake (h :: ms)) }
  | .wake, _ :: ms =>
      some { σ with
        asleep := fun _ => false
        pc := Function.update σ.pc x (if ms = [] then home x else .putting .payload ms) }

end Datapath

/-- What worlds and the peer do. -/
inductive DataAction
  /-- `rpc_msg_get` of `read_cmd` or `write_cmd` -/
  | cmd (x : World) (malloc : Option Addr)
  /-- the first call of `_rpc_recv` -/
  | recvGet (malloc : Option Addr)
  /-- a wait for a message buffer ends, with a wakeup or without -/
  | msgAgain (x : World) (malloc : Option Addr)
  /-- `rpc_payload_get` -/
  | payload (x : World) (malloc : Option Addr)
  /-- a wait for a payload buffer ends -/
  | ploadAgain (x : World) (malloc : Option Addr)
  /-- `rpc_async_request` -/
  | request (x : World)
  /-- the error path of `write_cmd` -/
  | abandon (x : World)
  /-- the peer answers a request -/
  | answer (q : ℕ) (payload : Bool)
  /-- `_rpc_recv` has a header -/
  | recvHdr
  /-- `new_work` and `schedule_work` -/
  | schedule
  /-- a worker takes a message off the work list -/
  | take (x : World)
  /-- `_rpc_response`, and the response handler up to its `rpc_msg_put` -/
  | handle (x : World)
  /-- the next of `rpc_msg_put` -/
  | put (x : World)
  deriving DecidableEq

namespace DataAction

variable (σ : Datapath)

def exec : DataAction → Option Datapath
  | cmd x malloc => do
      let e ← σ.msgs.pool.bufpoolGet false false malloc
      some (σ.settleMsg x false e)
  | recvGet malloc => do
      let e ← σ.msgs.pool.bufpoolGet true false malloc
      some (σ.settleMsg 0 true e)
  | msgAgain x malloc =>
      match σ.pc x with
      | .getMsg => do
          let e ← σ.msgs.pool.recheck false malloc
          some (σ.settleMsg x false e)
      | .recvGet => do
          let e ← σ.msgs.pool.recheck true malloc
          some (σ.settleMsg x true e)
      | _ => none
  | payload x malloc => do
      let e ← σ.ploads.pool.bufpoolGet true false malloc
      match σ.pc x with
      | .filling m => some (σ.settlePload x m (.getPload m) (.ready m) e)
      | .recvPload m => some (σ.settlePload x m (.recvWait m) (.recvDone m) e)
      | _ => none
  | ploadAgain x malloc => do
      let e ← σ.ploads.pool.recheck true malloc
      match σ.pc x with
      | .getPload m => some (σ.settlePload x m (.getPload m) (.ready m) e)
      | .recvWait m => some (σ.settlePload x m (.recvWait m) (.recvDone m) e)
      | _ => none
  | request x =>
      match σ.pc x with
      | .filling m =>
          some { σ with
            hash := m :: σ.hash, outstanding := σ.outstanding ++ [σ.seqid m]
            pc := Function.update σ.pc x .idle }
      | .ready m =>
          some { σ with
            hash := m :: σ.hash, outstanding := σ.outstanding ++ [σ.seqid m]
            pc := Function.update σ.pc x .idle }
      | _ => none
  | abandon x =>
      match σ.pc x with
      | .ready m =>
          some { σ with pc := Function.update σ.pc x (.putting .payload [⟨m, false⟩]) }
      | _ => none
  | answer q b =>
      some { σ with outstanding := σ.outstanding.erase q, answers := σ.answers ++ [(q, b)] }
  | recvHdr =>
      match σ.pc 0, σ.answers with
      | .recvHdr m, (q, b) :: answers =>
          some { σ with
            answers := answers, seqid := Function.update σ.seqid m q
            pc := Function.update σ.pc 0 (if b = true then .recvPload m else .recvDone m) }
      | _, _ => none
  | schedule =>
      match σ.pc 0 with
      | .recvDone m =>
          some { σ with work := σ.work ++ [m], pc := Function.update σ.pc 0 .recvTop }
      | _ => none
  | take x =>
      match σ.work with
      | [] => none
      | m :: work => some { σ with work := work, pc := Function.update σ.pc x (.handling m) }
  | handle x =>
      match σ.pc x with
      | .handling m => do
          let req ← σ.hash.find? fun r => σ.seqid r = σ.seqid m
          some { σ with
            hash := σ.hash.erase req
            pc := Function.update σ.pc x (.putting .payload [⟨m, true⟩, ⟨req, false⟩]) }
      | _ => none
  | put x =>
      match σ.pc x with
      | .putting s ms => σ.putStep x s ms
      | _ => none

/-- `malloc` returns memory that is not in use, and something unless the
pool has all the buffers its heap is for. -/
def Serves (u : PoolUsers) (malloc : Option Addr) : Prop :=
  PoolAction.Fresh u malloc ∧ (malloc = none → u.pool.nmax ≤ u.pool.owned)

instance (u : PoolUsers) (malloc : Option Addr) : Decidable (Serves u malloc) :=
  inferInstanceAs (Decidable (_ ∧ _))

/-- A world does what it is at; the peer answers what it was asked, once. -/
def Enabled : DataAction → Prop
  | cmd x malloc => σ.pc x = .idle ∧ Serves σ.msgs malloc
  | recvGet malloc => σ.pc 0 = .recvTop ∧ Serves σ.msgs malloc
  | msgAgain x malloc => (σ.pc x = .getMsg ∨ σ.pc x = .recvGet) ∧ Serves σ.msgs malloc
  | payload x malloc => (σ.pc x matches .filling _ | .recvPload _) ∧ Serves σ.ploads malloc
  | ploadAgain x malloc => (σ.pc x matches .getPload _ | .recvWait _) ∧ Serves σ.ploads malloc
  | request x => (σ.pc x matches .filling _ | .ready _)
  | abandon x => (σ.pc x matches .ready _)
  | answer q _ => q ∈ σ.outstanding
  | recvHdr => (σ.pc 0 matches .recvHdr _) ∧ σ.answers ≠ []
  | schedule => (σ.pc 0 matches .recvDone _)
  | take x => σ.pc x = .workTop ∧ σ.work ≠ []
  | handle x => (σ.pc x matches .handling _)
  | put x => (σ.pc x matches .putting _ _)

instance : (act : DataAction) → Decidable (act.Enabled σ)
  | cmd _ _ => inferInstanceAs (Decidable (_ ∧ _))
  | recvGet _ => inferInstanceAs (Decidable (_ ∧ _))
  | msgAgain _ _ => inferInstanceAs (Decidable (_ ∧ _))
  | payload _ _ => inferInstanceAs (Decidable (_ ∧ _))
  | ploadAgain _ _ => inferInstanceAs (Decidable (_ ∧ _))
  | request _ => instDecidableEqBool _ _
  | abandon _ => instDecidableEqBool _ _
  | answer _ _ => inferInstanceAs (Decidable (_ ∈ _))
  | recvHdr => inferInstanceAs (Decidable (_ ∧ _))
  | schedule => instDecidableEqBool _ _
  | take _ => inferInstanceAs (Decidable (_ ∧ _))
  | handle _ => instDecidableEqBool _ _
  | put _ => instDecidableEqBool _ _

end DataAction

/-- What `rpc_chan_init` leaves, with `msgs` and `ploads` its two pools. -/
def Datapath.start (msgs ploads : Pool) (payload : Addr → Option Addr) (seqid : Addr → ℕ) :
    Datapath where
  msgs := ⟨msgs, fun _ => none, []⟩
  ploads := ⟨ploads, fun _ => none, []⟩
  payload := payload
  seqid := seqid
  nextSeq := 1
  hash := []
  outstanding := []
  answers := []
  work := []
  pc := Datapath.home
  asleep _ := false

/-- The sizes of a channel's two pools, as `bufpool_init_reserve` is given
them. -/
structure Geometry where
  nmsg : ℕ
  nmsgMax : ℕ
  ndata : ℕ
  ndataMax : ℕ
  reserve : ℤ
  deriving DecidableEq, Repr

/-- How `rpc_chan_init` computes them: sums of `size_t`, kept in `int`s, and
`size_t` again for `bufpool_init_reserve`. -/
def chanGeometry (nway : BitVec 64) (reserve : BitVec 32) : Geometry :=
  let nmsg : BitVec 32 := (nway + reserve.signExtend 64).setWidth 32
  let nmsgMax : BitVec 32 := (nway * 3).setWidth 32
  let ndata : BitVec 32 := (2 * nway + reserve.signExtend 64).setWidth 32
  let ndataMax : BitVec 32 := ndata * 3
  { nmsg := (nmsg.signExtend 64).toNat
    nmsgMax := (nmsgMax.signExtend 64).toNat
    ndata := (ndata.signExtend 64).toNat
    ndataMax := (ndataMax.signExtend 64).toNat
    reserve := reserve.toInt }

/-- A channel from `rpc_chan_init` on, all of whose allocations succeed. -/
def datapath (nway : BitVec 64) (reserve : BitVec 32) : System Datapath DataAction where
  init σ := ∃ msgs ploads payload seqid G, G = chanGeometry nway reserve ∧
    Initialised G.nmsg G.reserve G.nmsgMax msgs ∧ msgs.owned = G.nmsg ∧
    Initialised G.ndata G.reserve G.ndataMax ploads ∧ ploads.owned = G.ndata ∧
    σ = Datapath.start msgs ploads payload seqid
  enabled σ act := act.Enabled σ
  exec σ act := act.exec σ

instance (nway : BitVec 64) (reserve : BitVec 32) (σ : Datapath) (act : DataAction) :
    Decidable ((datapath nway reserve).enabled σ act) := inferInstanceAs (Decidable (act.Enabled σ))

end Vmk

end VmwareProto
