import VmwareProto.Library.System
import VmwareProto.Mpp.Channel
/-!
# Worlds on a channel

`rpc_async_request`, `rpc_response`, `rpc_chan_close`, the receive thread
and the workers with the plugin's handlers, each cut at its accesses to what
it shares with others: the flag `enabled`, the lock, the socket, the hash
under the lock, the pool under its own, and the work list.
-/

namespace VmwareProto

namespace Mpp

/-- Which of the two functions sends. -/
inductive Kind
  | request
  | response
  deriving DecidableEq, Repr

/-- The two `socket_write` calls. -/
inductive Part
  | header
  | payload
  deriving DecidableEq, Repr

/-- Where `rpc_chan_close` stands: at its test, at the store, at
`socket_close`, or returned. -/
inductive Closing
  | test
  | clear
  | close
  | out
  deriving DecidableEq, Repr

/-- Where an actor stands. -/
inductive Pc
  | idle
  /-- a world with a message of its own, before it calls the sender -/
  | got (k : Kind) (a : Addr)
  /-- past the test of `enabled`, before `RPC_CHAN_LOCK` -/
  | checked (k : Kind) (a : Addr)
  /-- in `socket_write`, with `rest` to write -/
  | send (k : Kind) (a : Addr) (part : Part) (rest : List Byte)
  /-- everything is written, before `RPC_CHAN_UNLOCK` -/
  | unlock (k : Kind) (a : Addr)
  /-- at the error label, in `rpc_chan_close` -/
  | failing (k : Kind) (a : Addr) (s : Closing)
  /-- in the `rpc_msg_put` that follows -/
  | put (k : Kind) (a : Addr)
  /-- a worker in `_rpc_recv_handler` -/
  | item (b : Addr)
  /-- past the lookup of `_rpc_response`, with the request and its response -/
  | found (a b : Addr)
  /-- in the `rpc_msg_put` of `resp_handler`, with what it made of the command -/
  | finish (a : Addr) (c : CmdId) (r : ScsiCommand)
  /-- before `cmd->done(cmd)` -/
  | done (c : CmdId) (r : ScsiCommand)
  /-- in the `rpc_msg_put` of `req_handler` -/
  | dropped (b : Addr)
  /-- in the `rpc_chan_close` that follows -/
  | closing (s : Closing)
  /-- the receive thread, in `_rpc_recv` with its buffer -/
  | reading (b : Addr)
  /-- the receive thread has returned -/
  | left
  deriving DecidableEq, Repr

namespace Pc

/-- The messages in an actor's hands. -/
def held : Pc → List Addr
  | .got _ a | .checked _ a | .send _ a _ _ | .unlock _ a | .failing _ a _ | .put _ a => [a]
  | .item b | .dropped b | .reading b => [b]
  | .found a b => [a, b]
  | .finish a _ _ => [a]
  | .idle | .done _ _ | .closing _ | .left => []

/-- The actor holds the lock. -/
def locked : Pc → Bool
  | .send _ _ _ _ | .unlock _ _ | .failing _ _ _ => true
  | _ => false

/-- The request an actor is sending. -/
def sends : Pc → Option Addr
  | .send .request a _ _ | .unlock .request a => some a
  | _ => none

/-- Where the actor stands in `rpc_chan_close`. -/
def closer : Pc → Option Closing
  | .failing _ _ s | .closing s => some s
  | _ => none

/-- Past a `socket_write` that left `rest` of one part. -/
def sending (k : Kind) (a : Addr) (f : Frame) : Part → List Byte → Pc
  | .header, [] => if f.payloadBytes = [] then .unlock k a else .send k a .payload f.payloadBytes
  | .payload, [] => .unlock k a
  | part, rest => .send k a part rest

end Pc

/-- A channel, those who work on it, and its socket. -/
structure State where
  chan : Channel
  pc : Actor → Pc
  /-- `tp.work_list`, by the messages of its items -/
  queue : List Addr
  cmds : CmdId → ScsiCommand
  /-- arrived and not yet read -/
  inq : List Byte
  /-- written to the socket -/
  sent : List Byte
  /-- the messages whose senders obtained the lock, in that order -/
  log : List Frame
  /-- everything that arrived -/
  arrived : List Byte
  /-- the messages the receive thread took, in order -/
  taken : List (List Byte)
  /-- the requests and responses that `_rpc_response` brought together, and
  those that `resp_handler` was called with -/
  matched : List (Frame × Frame)
  handed : List (Frame × Frame)
  /-- the commands that were issued, those whose issue returned `VMK_OK`,
  those for which it returned `VMK_FAILURE`, and those for which `done` was
  called -/
  issued : List CmdId
  accepted : List CmdId
  rejected : List CmdId
  completed : List CmdId

/-- The assertions of `rpc_async_request` and `rpc_response` on their
argument. -/
def Msg.Asserts (m : Msg) : Prop :=
  (m.frame.payload = none ↔ m.frame.hdr.plen = 0) ∧ m.resp = none

instance (m : Msg) : Decidable m.Asserts := inferInstanceAs (Decidable (_ ∧ _))

/-- `RPC_SETREQ` or `RPC_SETRESP`. -/
def Kind.set : Kind → MsgHdr → MsgHdr
  | .request => MsgHdr.setReq
  | .response => MsgHdr.setResp

namespace State

variable (cfg : Cfg) (σ : State) (x : Actor)

/-- Move one actor. -/
def setPc (p : Pc) : State := { σ with pc := Function.update σ.pc x p }

/-! ## Sending -/

/-- `rpc_msg_get`; the caller sets `opaque`. -/
def get (k : Kind) (alloc : Addr) (msgtype msglen : ℕ) (pad : HdrPad) (body : List Byte)
    (e : CmdId) : Option State := do
  let (c, a) ← σ.chan.msgGet cfg x alloc msgtype msglen pad body
  let m ← c.msgs a
  some ({ σ with
    chan := c.setMsg a { m with exCmd := e }
    issued := σ.issued ++ if k = Kind.request then [e] else [] }.setPc x (.got k a))

/-- The caller fills its message in. -/
def edit (f : Frame) : Option State :=
  match σ.pc x with
  | .got _ a => do
      let m ← σ.chan.msgs a
      some { σ with chan := σ.chan.setMsg a { m with frame := f } }
  | _ => none

/-- `write_cmd` could not copy its data, and puts its message. -/
def abandon : Option State :=
  match σ.pc x with
  | .got .request a => some (σ.setPc x (.put .request a))
  | _ => none

/-- `rpc_async_request` and `rpc_response` up to `RPC_CHAN_LOCK`. -/
def check : Option State :=
  match σ.pc x with
  | .got k a => do
      let m ← σ.chan.msgs a
      if ¬m.Asserts then none
      else if σ.chan.enabled = true then
        let f := { m.frame with hdr := k.set m.frame.hdr }
        some ({ σ with chan := σ.chan.setMsg a { m with frame := f } }.setPc x (.checked k a))
      else
        match k with
        | .request => some (σ.setPc x (.put k a))
        | .response =>
            some ({ σ with chan := σ.chan.setMsg a { m with use := .returned } }.setPc x .idle)
  | _ => none

/-- `RPC_CHAN_LOCK`, and for a request `hash_add`. -/
def lock : Option State :=
  match σ.pc x with
  | .checked k a => do
      let m ← σ.chan.msgs a
      let c := { σ.chan with lock := some x }
      let c := match k with
        | .request =>
            (c.setMsg a { m with use := .sending x }).hashAdd a (cfg.getBucket m.frame.hdr.seqid)
        | .response => c
      some ({ σ with chan := c, log := σ.log ++ [m.frame] }.setPc x
        (.sending k a m.frame .header m.frame.hdrBytes))
  | _ => none

/-- One `write` of `socket_write`: `j` bytes, or a failure. -/
def write (j : Option ℕ) : Option State :=
  match σ.pc x with
  | .send k a part rest => do
      let m ← σ.chan.msgs a
      match j with
      | some j =>
          some ({ σ with sent := σ.sent ++ rest.take j }.setPc x
            (.sending k a m.frame part (rest.drop j)))
      | none =>
          some ({ σ with chan := σ.chan.setMsg a { m with use := .held x } }.setPc x
            (.failing k a .test))
  | _ => none

/-- `RPC_CHAN_UNLOCK` after everything was written. -/
def unlock : Option State :=
  match σ.pc x with
  | .unlock k a => do
      let m ← σ.chan.msgs a
      let c := { σ.chan with lock := none }
      match k with
      | .request =>
          some ({ σ with
            chan := c.setMsg a { m with use := .pending }
            accepted := σ.accepted ++ [m.exCmd] }.setPc x .idle)
      | .response => some ({ σ with chan := c }.setPc x (.put k a))
  | _ => none

/-- A step of `rpc_chan_close`. -/
def closeStep : Closing → Channel × Closing
  | .test => (σ.chan, if σ.chan.enabled = true then .clear else .out)
  | .clear => ({ σ.chan with enabled := false }, .close)
  | .close => ({ σ.chan with closes := σ.chan.closes + 1 }, .out)
  | .out => (σ.chan, .out)

/-- `rpc_chan_close`, at the error label or in `req_handler`, and the
return from it. -/
def close : Option State :=
  match σ.pc x with
  | .failing k a .out => some ({ σ with chan := { σ.chan with lock := none } }.setPc x (.put k a))
  | .failing k a s => some ({ σ with chan := (σ.closeStep s).1 }.setPc x (.failing k a (σ.closeStep s).2))
  | .closing .out => some (σ.setPc x .idle)
  | .closing s => some ({ σ with chan := (σ.closeStep s).1 }.setPc x (.closing (σ.closeStep s).2))
  | _ => none

/-- `rpc_msg_put(rcp, a)`: first the response, if there is one, then the
message, after which the caller goes on at `p`. -/
def msgPut (a : Addr) (p : Pc) : Option State := do
  let m ← σ.chan.msgs a
  if m.resp ≠ none then
    let c ← σ.chan.putResp cfg a
    some { σ with chan := c }
  else
    let c ← σ.chan.poolPut cfg a
    some ({ σ with chan := c }.setPc x p)

/-- The puts of a sender, of `resp_handler` and of `req_handler`. -/
def put : Option State :=
  match σ.pc x with
  | .put k a => do
      let m ← σ.chan.msgs a
      let σ' ← σ.msgPut cfg x a .idle
      some (if k = .request ∧ m.resp = none then
        { σ' with rejected := σ'.rejected ++ [m.exCmd] } else σ')
  | .finish a e r => σ.msgPut cfg x a (.done e r)
  | .dropped b => σ.msgPut cfg x b (.closing .test)
  | _ => none

/-! ## The workers -/

/-- `_worker_thread` takes the first item. -/
def take : Option State :=
  match σ.queue with
  | [] => none
  | b :: q => do
      let m ← σ.chan.msgs b
      some ({ σ with
        chan := σ.chan.setMsg b { m with use := .held x }
        queue := q }.setPc x (.item b))

/-- `_rpc_response` up to its `RPC_CHAN_UNLOCK`. An orphan response is a
failed assertion. -/
def rpcResponse (b : Addr) (r : Frame) : Option State := do
  let e ← σ.chan.hashLookup r.hdr.seqid (cfg.getBucket r.hdr.seqid)
  match e with
  | none => none
  | some a => do
      let c ← σ.chan.hashRem a
      let m ← c.msgs a
      some ({ σ with
        chan := c.setMsg a { m with use := .held x }
        matched := σ.matched ++ [(m.frame, r)] }.setPc x (.found a b))

/-- `_rpc_recv_handler`, with `cb_mpp_req_handler`, which takes no requests. -/
def dispatch : Option State :=
  match σ.pc x with
  | .item b => do
      let m ← σ.chan.msgs b
      if m.frame.hdr.isConnClosed = true then some (σ.setPc x (.dropped b))
      else if m.frame.hdr.isReq = true then none
      else σ.rpcResponse cfg x b m.frame
  | _ => none

/-- A request and its response as `resp_handler` reads them. -/
def requestOf (m r : Msg) : Request :=
  ⟨m.frame.hdr, m.frame.offset.toNat, m.frame.len.toNat, ⟨r.frame.hdr, r.frame.payload⟩⟩

/-- `msgp->resp = resp`, and `resp_handler` up to its `rpc_msg_put`. -/
def handle : Option State :=
  match σ.pc x with
  | .found a b => do
      let m ← σ.chan.msgs a
      let r ← σ.chan.msgs b
      let s ← cfg.handler (σ.cmds m.exCmd) (requestOf m r)
      let c := (σ.chan.setMsg a { m with resp := some b }).setMsg b { r with use := .attached a }
      some ({ σ with chan := c, handed := σ.handed ++ [(m.frame, r.frame)] }.setPc x
        (.finish a m.exCmd s))
  | _ => none

/-- `cmd->done(cmd)`. -/
def finish : Option State :=
  match σ.pc x with
  | .done e s =>
      some ({ σ with
        cmds := Function.update σ.cmds e s
        completed := σ.completed ++ [e] }.setPc x .idle)
  | _ => none

/-! ## Receiving -/

/-- `_rpc_recv` gets its buffer, zeroed. -/
def recvStart (alloc : Addr) : Option State := do
  let (c, b) ← σ.chan.poolGet cfg true alloc
  let m : Msg := ⟨.ofStored cfg.toRecvCfg [] none, none, 0, .held x⟩
  some ({ σ with chan := c.setMsg b m }.setPc x (.reading b))

/-- `schedule_work` for the message in `b`. -/
def schedule (b : Addr) (f : Frame) (p : Pc) : Option State := do
  let m ← σ.chan.msgs b
  some ({ σ with
    chan := σ.chan.setMsg b { m with frame := f, use := .queued }
    queue := σ.queue ++ [b] }.setPc x p)

/-- `_rpc_recv` returns 0, with what has arrived. Behind the message buffer lies memory of others: a
byte of the header that is stored there is a fault. -/
def recv : Option State :=
  match σ.pc x with
  | .reading b =>
      let r := rpcRecv cfg.toRecvCfg cfg.sock σ.inq
      match r.result with
      | .message =>
          if cfg.msgsz < r.stored.length then none
          else State.schedule { σ with
            inq := σ.inq.drop r.taken
            taken := σ.taken ++ [σ.inq.take r.taken] } x b
              (.ofStored cfg.toRecvCfg r.stored r.payload) .idle
      | _ => none
  | _ => none

/-- `_rpc_recv` returns -1, after `j` more bytes, with the same fault. -/
def recvEnd (j : ℕ) : Option State :=
  match σ.pc x with
  | .reading b =>
      let r := rpcRecv cfg.toRecvCfg cfg.sock (σ.inq.take j)
      match r.result with
      | .closed =>
          let f := Frame.ofStored cfg.toRecvCfg r.stored none
          if cfg.msgsz < r.stored.length then none
          else σ.schedule x b { f with hdr := f.hdr.setConnClosed } .left
      | _ => none
  | _ => none

end State

/-! ## The system -/

/-- The steps. -/
inductive Action
  | get (n : ℕ) (k : Kind) (alloc : Addr) (msgtype msglen : ℕ) (pad : HdrPad) (body : List Byte)
      (e : CmdId)
  | edit (n : ℕ) (f : Frame)
  | abandon (n : ℕ)
  | check (n : ℕ)
  | lock (n : ℕ)
  | write (n : ℕ) (j : Option ℕ)
  | unlock (n : ℕ)
  | close (x : Actor)
  | put (x : Actor)
  | take (n : ℕ)
  | dispatch (n : ℕ)
  | handle (n : ℕ)
  | finish (n : ℕ)
  | recvStart (alloc : Addr)
  | recv
  | recvEnd (j : ℕ)
  /-- the peer sends -/
  | arrive (bs : List Byte)
  deriving DecidableEq, Repr

namespace Action

variable (cfg : Cfg) (σ : State)

def exec : Action → Option State
  | get n k alloc msgtype msglen pad body e => σ.get cfg (.world n) k alloc msgtype msglen pad body e
  | edit n f => σ.edit (.world n) f
  | abandon n => σ.abandon (.world n)
  | check n => σ.check (.world n)
  | lock n => σ.lock cfg (.world n)
  | write n j => σ.write (.world n) j
  | unlock n => σ.unlock (.world n)
  | close x => σ.close x
  | put x => σ.put cfg x
  | take n => σ.take (.worker n)
  | dispatch n => σ.dispatch cfg (.worker n)
  | handle n => σ.handle cfg (.worker n)
  | finish n => σ.finish (.worker n)
  | recvStart alloc => σ.recvStart cfg .receiver alloc
  | recv => σ.recv cfg .receiver
  | recvEnd j => σ.recvEnd cfg .receiver j
  | arrive bs => some { σ with inq := σ.inq ++ bs, arrived := σ.arrived ++ bs }

/-- A header that `_rpc_recv` or `rpc_payload_get` rejects by an assertion. -/
def Rejected (bs : List Byte) : Prop :=
  hdrSize ≤ bs.length ∧ (cfg.msgBuf < (MsgHdr.decode bs).len ∨
    (MsgHdr.decode bs).len ≤ bs.length ∧ payloadMax < (MsgHdr.decode bs).plen)

instance (bs : List Byte) : Decidable (Rejected cfg bs) := inferInstanceAs (Decidable (_ ∧ (_ ∨ _ ∧ _)))

/-- When a step can be taken: its actor has got there, the lock or the
buffer it waits for is to be had, `malloc` hands out memory that is not in
use, and what a closed socket takes is nothing. A worker that finds a
response waits for the lock. -/
def allowed : Action → Bool
  | get n _ alloc _ _ _ _ _ =>
      σ.pc (.world n) = .idle ∧ σ.chan.live alloc = false ∧ σ.chan.CanGet cfg false
  | edit n _ => match σ.pc (.world n) with
      | .got _ _ => true
      | _ => false
  | abandon n => match σ.pc (.world n) with
      | .got .request _ => true
      | _ => false
  | check n => match σ.pc (.world n) with
      | .got _ _ => true
      | _ => false
  | lock n => match σ.pc (.world n) with
      | .checked _ _ => σ.chan.lock = none
      | _ => false
  | write n j => match σ.pc (.world n) with
      | .send _ _ _ rest => match j with
          | some j => σ.chan.closes = 0 ∧ 0 < j ∧ j ≤ rest.length
          | none => true
      | _ => false
  | unlock n => match σ.pc (.world n) with
      | .unlock _ _ => true
      | _ => false
  | close x => match σ.pc x with
      | .failing _ _ _ | .closing _ => true
      | _ => false
  | put x => match σ.pc x with
      | .put _ _ | .finish _ _ _ | .dropped _ => true
      | _ => false
  | take n => σ.pc (.worker n) = .idle ∧ σ.queue ≠ []
  | dispatch n => match σ.pc (.worker n) with
      | .item b => match σ.chan.msgs b with
          | some m => m.frame.hdr.isConnClosed = true ∨ m.frame.hdr.isReq = true ∨ σ.chan.lock = none
          | none => true
      | _ => false
  | handle n => match σ.pc (.worker n) with
      | .found _ _ => true
      | _ => false
  | finish n => match σ.pc (.worker n) with
      | .done _ _ => true
      | _ => false
  | recvStart alloc =>
      σ.pc .receiver = .idle ∧ σ.chan.live alloc = false ∧ σ.chan.CanGet cfg true
  | recv => match σ.pc .receiver with
      | .reading _ =>
          (rpcRecv cfg.toRecvCfg cfg.sock σ.inq).result = .message ∨ Rejected cfg σ.inq
      | _ => false
  | recvEnd j => match σ.pc .receiver with
      | .reading _ =>
          j ≤ σ.inq.length ∧ (rpcRecv cfg.toRecvCfg cfg.sock (σ.inq.take j)).result ≠ .message
      | _ => false
  | arrive _ => true

end Action

/-- The channel after `rpc_chan_init`, before anybody has run. -/
def State.initial (bufs : List Addr) (cmds : CmdId → ScsiCommand) : State :=
  ⟨.initial bufs, fun _ => .idle, [], cmds, [], [], [], [], [], [], [], [], [], [], []⟩

/-- One channel, any number of worlds and workers, and a peer that may send
anything. -/
def channelSystem (cfg : Cfg) : System State Action where
  init σ := ∃ bufs cmds, bufs.Nodup ∧ bufs.length = cfg.nbufs ∧ σ = .initial bufs cmds
  enabled σ act := act.allowed cfg σ = true
  exec σ act := act.exec cfg σ

instance (cfg : Cfg) (σ : State) (act : Action) : Decidable ((channelSystem cfg).enabled σ act) :=
  inferInstanceAs (Decidable (_ = true))

/-- A small channel: two message buffers, one of them in reserve. -/
def smallCfg : Cfg where
  toRecvCfg := mppCfg
  nway := 1
  reserve := 1
  hashsz := 4
  reserve_pos := Nat.one_pos
  nbufs_le := Nat.le_succ 2
  hashsz_pos := Nat.succ_pos 3
  sock := .eager
  handler := cbMppRespHandler ⟨List.length, fun _ p _ => some p⟩

/-- A command that asks for the bytes it has room for. -/
def newCommand (sg : List Byte) : ScsiCommand := ⟨.other 1, .other 1, .other 1, 0, sg, false⟩

/-- A new small channel. -/
def smallChannel : State := .initial [0, 1] fun _ => newCommand []

theorem smallChannel_init : (channelSystem smallCfg).init smallChannel :=
  ⟨[0, 1], _, by decide, rfl, rfl⟩

end Mpp

end VmwareProto
