import VmwareProto.Library.System
import VmwareProto.Rpc.Channel
/-!
# Tasks on a channel

`rpc_request`, `rpc_response` and `rpc_recv_task`, each cut where control
can change hands: at a read or a write of a descriptor, in `qlock`, in
`tasksleep`, inside `rpc_chan_close`. Everything from one such place to
the next is one step, so what happens without a switch is never taken
apart; a task that could have run on may be overtaken here, which only
adds runs.
-/

namespace VmwareProto

namespace Rpc

open Libtask

/-- Which of the two functions sends. -/
inductive Kind
  | request
  | response
  deriving DecidableEq, Repr

/-- What a message is used for while task `n` sends it. -/
def Kind.use (n : TaskId) : Kind → Use
  | .request => .request n
  | .response => .response n

/-- The two `task_netwrite` calls. -/
inductive Part
  | header
  | payload
  deriving DecidableEq, Repr

/-- Where a task stands that is not the receiver. -/
inductive Pc
  /-- in none of the functions -/
  | idle
  /-- in `qlock` -/
  | lockWait (k : Kind) (a : Addr)
  /-- in `task_netwrite`, with `rest` to write -/
  | send (k : Kind) (a : Addr) (part : Part) (rest : List Byte)
  /-- in `rpc_chan_close`, before `RPC_CHAN_UNLOCK` -/
  | unlock (k : Kind) (a : Addr) (res : ℕ)
  /-- in `tasksleep` on the message's rendez -/
  | asleep (a : Addr)
  /-- woken from it, and not run yet -/
  | woken (a : Addr)
  /-- in `tasksleep` on `msgpool.deinit` -/
  | draining
  deriving DecidableEq, Repr

namespace Pc

/-- The call a task is in. -/
def call : Pc → Option (Kind × Addr)
  | .lockWait k a => some (k, a)
  | .send k a _ _ => some (k, a)
  | .unlock k a _ => some (k, a)
  | .asleep a => some (.request, a)
  | .woken a => some (.request, a)
  | _ => none

/-- Where that is with respect to `fdlock`. -/
def phase : Pc → QLock.Phase
  | .lockWait _ _ => .waiting
  | .send _ _ _ _ => .holding
  | .unlock _ _ _ => .holding
  | _ => .out

end Pc

/-- `rpc_recv_task`: between two messages, in `_rpc_receive` with a message
buffer, or out of its loop. -/
inductive RecvTask
  | idle
  | receiving (a : Addr) (r : Recv)
  | left
  deriving DecidableEq, Repr

/-- A channel, its tasks and its descriptors. -/
structure State where
  chan : Channel
  pc : TaskId → Pc
  recv : RecvTask
  /-- arrived and not yet read -/
  inq : List Byte
  /-- written to `outfd` -/
  sent : List Byte
  /-- the messages whose senders obtained `fdlock`, in that order -/
  log : List (List Byte)
  /-- what the peer sent, one piece at a time -/
  arrived : List (List Byte)
  /-- how often `rpc_msg_get` was called -/
  gets : ℕ

/-- What `write(2)` answers. -/
inductive WriteResult
  | sent (j : ℕ)
  | again
  | zero
  | error (e : ℕ)
  deriving DecidableEq, Repr

/-- `TASKIO_ECONN`. -/
def eConn : ℕ := 1008

namespace Channel

/-- `RPC_CHAN_UNLOCK`. -/
def unlock (c : Channel) : Option Channel :=
  c.fdlock.qunlock.map fun l => { c with fdlock := l }

/-- `hash_deinit`, at the end of `rpc_chan_deinit`. -/
def finish (c : Channel) : Option Channel :=
  if c.issued ≠ 0 then none
  else if c.count ≠ 0 then none
  else some { c with state := .gone }

end Channel

namespace State

variable (cfg : Cfg) (σ : State) (n : TaskId) (a : Addr)

/-- Move one task. -/
def setPc (p : Pc) : State := { σ with pc := Function.update σ.pc n p }

/-! ## Sending -/

/-- Past `RPC_CHAN_LOCK`, at the first write. -/
def startSend (k : Kind) (m : Msg) : State :=
  { σ with log := σ.log ++ [m.wire] }.setPc n (.send k a .header m.hdrBytes)

/-- `RPC_CHAN_LOCK`. -/
def lock (k : Kind) (m : Msg) : State :=
  let σ' := { σ with chan := { σ.chan with fdlock := σ.chan.fdlock.qlock n } }
  match σ.chan.fdlock.owner with
  | none => σ'.startSend n a k m
  | some _ => σ'.setPc n (.lockWait k a)

/-- `rpc_request`, up to `RPC_CHAN_LOCK`. -/
def request : Option State := do
  let m ← σ.chan.msgs a
  if ¬ m.Asserts then none
  else if σ.chan.enabled = false then
    some { σ with chan := σ.chan.setMsg a { m with use := .returned eDisabled } }
  else
    let m := { m with hdr := m.hdr.setReq, use := .request n }
    let c := (σ.chan.setMsg a m).hashAdd a (cfg.getBucket m.hdr.seqid)
    some ({ σ with chan := c }.lock n a .request m)

/-- `rpc_response`, up to `RPC_CHAN_LOCK`; on a disabled channel, all of it. -/
def response : Option State := do
  let m ← σ.chan.msgs a
  if ¬ m.Asserts then none
  else if σ.chan.enabled = false then do
    let c ← σ.chan.unlock
    let c ← c.msgPut cfg a
    some { σ with chan := c }
  else
    let m := { m with hdr := m.hdr.setResp, use := .response n }
    some ({ σ with chan := σ.chan.setMsg a m }.lock n a .response m)

/-- `qlock` returns to a task that had to wait, or aborts. -/
def resume : Option State :=
  match σ.pc n with
  | .lockWait k a => do
      let m ← σ.chan.msgs a
      if σ.chan.fdlock.owner ≠ some n then none else some (σ.startSend n a k m)
  | _ => none

/-- Everything is written: `RPC_CHAN_UNLOCK`, and then to sleep, or to put
the message. -/
def complete (k : Kind) : Option State := do
  let c ← σ.chan.unlock
  match k with
  | .request => do
      let m ← c.msgs a
      some ({ σ with chan := c.setMsg a { m with rendez := m.rendez ++ [n] } }.setPc n (.asleep a))
  | .response => do
      let c ← c.msgPut cfg a
      some ({ σ with chan := c }.setPc n .idle)

/-- What a task has left to write when `rest` is left of one part. -/
def left (m : Msg) : Part → List Byte → Option (Part × List Byte)
  | .header, [] => m.payload.map fun _ => (.payload, m.payloadBytes)
  | .payload, [] => none
  | part, b :: bs => some (part, b :: bs)

/-- The error label: the channel is closed. -/
def fail (k : Kind) (res : ℕ) : State :=
  { σ with chan := σ.chan.close }.setPc n (.unlock k a res)

/-- One `write`, and what follows it. -/
def write (r : WriteResult) : Option State :=
  match σ.pc n with
  | .send k a part rest =>
      match r with
      | .again => some σ
      | .zero => some (σ.fail n a k eConn)
      | .error e => some (σ.fail n a k e)
      | .sent j => do
          let m ← σ.chan.msgs a
          let σ := { σ with sent := σ.sent ++ rest.take j }
          match left m part (rest.drop j) with
          | some (part, rest) => some (σ.setPc n (.send k a part rest))
          | none => σ.complete cfg n a k
  | _ => none

/-- `rpc_chan_close` returns; the rest of the error path. -/
def unlock : Option State :=
  match σ.pc n with
  | .unlock k a res => do
      let c ← σ.chan.unlock
      match k with
      | .request => do
          let m ← c.msgs a
          some ({ σ with chan := c.setMsg a { m with use := .returned res } }.setPc n .idle)
      | .response => do
          let c ← c.msgPut cfg a
          some ({ σ with chan := c }.setPc n .idle)
  | _ => none

/-- The sleeping `rpc_request` runs on. -/
def wake : Option State :=
  match σ.pc n with
  | .woken a => do
      let m ← σ.chan.msgs a
      if m.resp = none then none
      else some ({ σ with chan := σ.chan.setMsg a { m with use := .returned 0 } }.setPc n .idle)
  | _ => none

/-! ## Receiving -/

/-- `TASKWAKEUP(&msgp->rendez)`: the first sleeper, if there is one, is
made ready. -/
def wakeup : Option State := do
  let m ← σ.chan.msgs a
  match m.rendez with
  | [] => some σ
  | t :: ts =>
      some ({ σ with chan := σ.chan.setMsg a { m with rendez := ts } }.setPc t (.woken a))

/-- `_rpc_response`: the message in `b`, with header `h`, goes to the
pending request with its sequence id. An orphan response is a failed
assertion. -/
def rpcResponse (b : Addr) (h : MsgHdr) : Option State := do
  let e ← σ.chan.hashLookup h.seqid (cfg.getBucket h.seqid)
  match e with
  | none => none
  | some a => do
      let c ← σ.chan.hashRem a
      let m ← c.msgs a
      let r ← c.msgs b
      let c := (c.setMsg a { m with resp := some b }).setMsg b { r with use := .attached a }
      { σ with chan := c, recv := .idle }.wakeup a

/-- Out of the loop: the channel is disabled and the handler gets the
message. -/
def leave (b : Addr) (m : Msg) : State :=
  { σ with
    chan := { σ.chan.setMsg b { m with use := .handed } with enabled := false }
    recv := .left }

/-- The loop's body from `_rpc_receive`'s return on, with the message `m`
it returned in `b`. -/
def dispatch (b : Addr) (m : Msg) : Option State :=
  if m.hdr.isConnClosed = true then some (σ.leave b m)
  else if m.hdr.isReq = true then
    some { σ with chan := σ.chan.setMsg b { m with use := .handed }, recv := .idle }
  else { σ with chan := σ.chan.setMsg b m }.rpcResponse cfg b m.hdr

/-- `_rpc_receive` returns. -/
def deliver (b : Addr) (r : Recv) : Option State :=
  let m := Msg.ofBytes cfg.toRecvCfg r.stored
  match r.pc with
  | .done _ => σ.dispatch cfg b { m with payload := r.payload }
  | .errout => σ.dispatch cfg b { m with hdr := m.hdr.setConnClosed }
  | _ => none

/-- `_rpc_receive` goes on, or has returned. -/
def settle (b : Addr) (r : Recv) : Option State :=
  if r.finished = true then σ.deliver cfg b r else some { σ with recv := .receiving b r }

/-- `_rpc_receive` is called, and gets its buffer. -/
def recvStart (alloc : Addr) : Option State := do
  let (c, b) ← σ.chan.poolGet cfg alloc
  { σ with chan := c.setMsg b (.ofBytes cfg.toRecvCfg []) }.settle cfg b (.start c.enabled)

/-- A read of `_rpc_receive` takes the next `k` bytes. Behind the message buffer lies memory of
others: a byte of the header that is stored there is a fault. -/
def recvTake (k : ℕ) : Option State :=
  match σ.recv with
  | .receiving b r => do
      let r ← r.read cfg.toRecvCfg (.bytes (σ.inq.take k))
      if cfg.msgsz < r.stored.length then none
      else settle cfg { σ with inq := σ.inq.drop k } b r
  | _ => none

/-- A read of `_rpc_receive` ends in another way. -/
def recvOther (res : ReadResult) : Option State :=
  match σ.recv with
  | .receiving b r => do
      let r ← r.read cfg.toRecvCfg res
      σ.settle cfg b r
  | _ => none

/-- `_rpc_receive` gets its data buffer. -/
def recvData : Option State :=
  match σ.recv with
  | .receiving b r => do
      let r ← r.getData
      σ.settle cfg b r
  | _ => none

/-! ## Ending -/

/-- `rpc_chan_deinit`, up to the end of `bufpool_deinit`'s wait. -/
def deinit : Option State :=
  if σ.chan.state ≠ .initialized then none
  else
    let c := { σ.chan with state := .deiniting }
    if c.issued ≠ 0 then some ({ σ with chan := c }.setPc n .draining)
    else do
      let c ← c.finish
      some { σ with chan := c }

/-- `rpc_chan_deinit`, woken by the put of the last buffer. -/
def drained : Option State := do
  let c ← σ.chan.finish
  some ({ σ with chan := c }.setPc n .idle)

end State

/-! ## The system -/

/-- The steps. -/
inductive Action
  | msgGet (alloc : Addr) (msgtype msglen payloadlen : ℕ) (payload : Option (List Byte))
  /-- a message's owner fills it in -/
  | edit (a : Addr) (msglen payloadlen status : BitVec 16) (body : List Byte)
      (payload : Option (List Byte))
  | msgPut (a : Addr)
  | request (n : TaskId) (a : Addr)
  | response (n : TaskId) (a : Addr)
  | resume (n : TaskId)
  | write (n : TaskId) (r : WriteResult)
  | unlock (n : TaskId)
  | wake (n : TaskId)
  | close
  | deinit (n : TaskId)
  | drained (n : TaskId)
  | recvStart (alloc : Addr)
  | recvTake (k : ℕ)
  | recvOther (r : ReadResult)
  | recvData
  /-- the peer sends -/
  | arrive (bs : List Byte)
  deriving DecidableEq, Repr

namespace Action

def exec (cfg : Cfg) (σ : State) : Action → Option State
  | msgGet alloc msgtype msglen payloadlen payload => do
      let (c, _) ← σ.chan.msgGet cfg alloc msgtype msglen payloadlen payload
      some { σ with chan := c, gets := σ.gets + 1 }
  | edit a msglen payloadlen status body payload => do
      let m ← σ.chan.msgs a
      let h := { m.hdr with msglen := msglen, payloadlen := payloadlen, status := status }
      some { σ with chan := σ.chan.setMsg a { m with hdr := h, body := body, payload := payload } }
  | msgPut a => do
      let c ← σ.chan.msgPut cfg a
      some { σ with chan := c }
  | request n a => σ.request cfg n a
  | response n a => σ.response cfg n a
  | resume n => σ.resume n
  | write n r => σ.write cfg n r
  | unlock n => σ.unlock cfg n
  | wake n => σ.wake n
  | close => some { σ with chan := σ.chan.close }
  | deinit n => σ.deinit n
  | drained n => σ.drained n
  | recvStart alloc => σ.recvStart cfg alloc
  | recvTake k => σ.recvTake cfg k
  | recvOther r => σ.recvOther cfg r
  | recvData => σ.recvData cfg
  | arrive bs => some { σ with inq := σ.inq ++ bs, arrived := σ.arrived ++ [bs] }

/-- The uses in which a message is its caller's to change and to put. -/
def Owned (σ : State) (a : Addr) (P : Use → Prop) : Prop := ∃ m, σ.chan.msgs a = some m ∧ P m.use

/-- The rules of the API, and what the surroundings can do. A message is
filled in by the task that got it or the handler it was given to, sent once,
and put when nobody is using it; `malloc` hands out memory that is not in
use; reads and writes succeed only on open descriptors. -/
def Allowed (cfg : Cfg) (σ : State) : Action → Prop
  | msgGet alloc _ _ _ _ => σ.chan.live alloc = false ∧ σ.chan.CanGet cfg
  | edit a _ _ _ _ _ => Owned σ a fun u => u = .fresh ∨ u = .handed
  | msgPut a => Owned σ a fun u => u = .fresh ∨ u = .handed ∨ ∃ res, u = .returned res
  | request n a => σ.pc n = .idle ∧ ∃ m, σ.chan.msgs a = some m ∧ m.use = .fresh ∧ m.InBuffers
  | response n a => σ.pc n = .idle ∧ ∃ m, σ.chan.msgs a = some m ∧ m.use = .handed ∧
      m.hdr.isConnClosed = false ∧ m.InBuffers
  | resume n => ∃ k a, σ.pc n = .lockWait k a ∧ n ∉ σ.chan.fdlock.waiting
  | write n r => ∃ k a part rest, σ.pc n = .send k a part rest ∧
      match r with
      | .sent j => σ.chan.isOpen = true ∧ 0 < j ∧ j ≤ rest.length
      | .error e => e ≠ 0
      | _ => True
  | unlock n => ∃ k a res, σ.pc n = .unlock k a res
  | wake n => ∃ a, σ.pc n = .woken a
  | close => True
  | deinit n => σ.pc n = .idle
  | drained n => σ.pc n = .draining ∧ σ.chan.issued = 0
  | recvStart alloc => σ.recv = .idle ∧ σ.chan.live alloc = false ∧ σ.chan.CanGet cfg
  | recvTake k => ∃ b r, σ.recv = .receiving b r ∧ σ.chan.isOpen = true ∧
      0 < k ∧ k ≤ r.wanted ∧ k ≤ σ.inq.length
  | recvOther res => ∃ b r, σ.recv = .receiving b r ∧ r.Reading ∧ ∀ bs, res ≠ .bytes bs
  | recvData => ∃ b r, σ.recv = .receiving b r ∧ ∃ h, r.pc = .databuf h
  | arrive _ => True

end Action

/-- The channel after `rpc_chan_init`, its receiver not yet run. -/
def State.initial (bufs : List Addr) : State :=
  ⟨.initial bufs, fun _ => .idle, .idle, [], [], [], [], 0⟩

/-- One channel, any number of tasks, and a peer that may send anything. -/
def channelSystem (cfg : Cfg) : System State Action where
  init σ := ∃ bufs : List Addr, bufs.Nodup ∧ bufs.length = cfg.nbufs ∧ σ = .initial bufs
  enabled σ act := σ.chan.state ≠ .gone ∧ act.Allowed cfg σ
  exec σ act := act.exec cfg σ

/-! ## Computing runs -/

namespace Action

variable (cfg : Cfg) (σ : State)

instance {α : Type*} (o : Option α) (P : α → Prop) [DecidablePred P] :
    Decidable (∃ m, o = some m ∧ P m) :=
  match o with
  | none => isFalse nofun
  | some m => decidable_of_iff (P m) (by simp)

instance (c : Channel) : Decidable (c.CanGet cfg) := inferInstanceAs (Decidable (_ ∨ _))

instance (u : Use) : Decidable (∃ res, u = .returned res) :=
  match u with
  | .returned res => isTrue ⟨res, rfl⟩
  | .fresh | .request _ | .response _ | .reading | .handed | .attached _ => isFalse nofun

instance (a : Addr) (P : Use → Prop) [DecidablePred P] : Decidable (Owned σ a P) :=
  inferInstanceAs (Decidable (∃ m : Msg, σ.chan.msgs a = some m ∧ P m.use))

instance (p : Pc) (P : Prop) [Decidable P] : Decidable (∃ k a, p = .lockWait k a ∧ P) :=
  match p with
  | .lockWait _ _ => decidable_of_iff P (by simp)
  | .idle | .send _ _ _ _ | .unlock _ _ _ | .asleep _ | .woken _ | .draining =>
      isFalse fun ⟨_, _, e, _⟩ => nomatch e

instance (p : Pc) (P : List Byte → Prop) [DecidablePred P] :
    Decidable (∃ k a part rest, p = .send k a part rest ∧ P rest) :=
  match p with
  | .send _ _ _ rest => decidable_of_iff (P rest) (by simp)
  | .idle | .lockWait _ _ | .unlock _ _ _ | .asleep _ | .woken _ | .draining =>
      isFalse fun ⟨_, _, _, _, e, _⟩ => nomatch e

instance (p : Pc) : Decidable (∃ k a res, p = .unlock k a res) :=
  match p with
  | .unlock k a res => isTrue ⟨k, a, res, rfl⟩
  | .idle | .lockWait _ _ | .send _ _ _ _ | .asleep _ | .woken _ | .draining => isFalse nofun

instance (p : Pc) : Decidable (∃ a, p = .woken a) :=
  match p with
  | .woken a => isTrue ⟨a, rfl⟩
  | .idle | .lockWait _ _ | .send _ _ _ _ | .unlock _ _ _ | .asleep _ | .draining => isFalse nofun

instance (q : RecvTask) (P : Recv → Prop) [DecidablePred P] :
    Decidable (∃ b r, q = .receiving b r ∧ P r) :=
  match q with
  | .receiving _ r => decidable_of_iff (P r) (by simp)
  | .idle | .left => isFalse fun ⟨_, _, e, _⟩ => nomatch e

instance (p : RecvPc) : Decidable (∃ h, p = .databuf h) :=
  match p with
  | .databuf h => isTrue ⟨h, rfl⟩
  | .header | .body _ | .payload _ | .done _ | .errout => isFalse nofun

instance (r : ReadResult) : Decidable (∀ bs, r ≠ .bytes bs) :=
  match r with
  | .bytes bs => isFalse fun h => h bs rfl
  | .again | .closed | .error => isTrue fun _ => ReadResult.noConfusion

instance : (r : WriteResult) → (rest : List Byte) → Decidable (match r with
    | .sent j => σ.chan.isOpen = true ∧ 0 < j ∧ j ≤ rest.length
    | .error e => e ≠ 0
    | _ => True)
  | .sent _, _ => inferInstanceAs (Decidable (_ ∧ _ ∧ _))
  | .error _, _ => inferInstanceAs (Decidable (_ ≠ _))
  | .again, _ => .isTrue trivial
  | .zero, _ => .isTrue trivial

instance : (act : Action) → Decidable (act.Allowed cfg σ)
  | .msgGet _ _ _ _ _ => inferInstanceAs (Decidable (_ ∧ _))
  | .edit a _ _ _ _ _ => inferInstanceAs (Decidable (Owned σ a fun u => u = .fresh ∨ u = .handed))
  | .msgPut a => inferInstanceAs
      (Decidable (Owned σ a fun u => u = .fresh ∨ u = .handed ∨ ∃ res, u = .returned res))
  | .request n a => inferInstanceAs (Decidable (σ.pc n = .idle ∧
      ∃ m : Msg, σ.chan.msgs a = some m ∧ m.use = .fresh ∧ m.InBuffers))
  | .response n a => inferInstanceAs (Decidable (σ.pc n = .idle ∧
      ∃ m : Msg, σ.chan.msgs a = some m ∧ m.use = .handed ∧ m.hdr.isConnClosed = false ∧ m.InBuffers))
  | .resume n => inferInstanceAs (Decidable (∃ k a, σ.pc n = .lockWait k a ∧ _))
  | .write n r => inferInstanceAs (Decidable (∃ k a part rest, σ.pc n = .send k a part rest ∧
      match r with
      | .sent j => σ.chan.isOpen = true ∧ 0 < j ∧ j ≤ rest.length
      | .error e => e ≠ 0
      | _ => True))
  | .unlock n => inferInstanceAs (Decidable (∃ k a res, σ.pc n = .unlock k a res))
  | .wake n => inferInstanceAs (Decidable (∃ a, σ.pc n = .woken a))
  | .close => .isTrue trivial
  | .deinit n => inferInstanceAs (Decidable (σ.pc n = .idle))
  | .drained n => inferInstanceAs (Decidable (σ.pc n = .draining ∧ _))
  | .recvStart _ => inferInstanceAs (Decidable (_ ∧ _ ∧ _))
  | .recvTake k => inferInstanceAs (Decidable (∃ b r, σ.recv = .receiving b r ∧
      σ.chan.isOpen = true ∧ 0 < k ∧ k ≤ r.wanted ∧ k ≤ σ.inq.length))
  | .recvOther res => inferInstanceAs (Decidable (∃ b r, σ.recv = .receiving b r ∧
      r.Reading ∧ ∀ bs, res ≠ .bytes bs))
  | .recvData => inferInstanceAs (Decidable (∃ b r, σ.recv = .receiving b r ∧ ∃ h, r.pc = .databuf h))
  | .arrive _ => .isTrue trivial

end Action

instance (cfg : Cfg) (σ : State) (act : Action) : Decidable ((channelSystem cfg).enabled σ act) :=
  inferInstanceAs (Decidable (σ.chan.state ≠ .gone ∧ act.Allowed cfg σ))

/-- A small channel: two message buffers, four buckets. -/
def smallCfg : Cfg := ⟨⟨32, 64, by decide⟩, 1, 4, by decide⟩

/-- A new small channel. -/
def smallChannel : State := .initial [0, 1]

theorem smallChannel_init : (channelSystem smallCfg).init smallChannel :=
  ⟨[0, 1], by decide, rfl, rfl⟩

end Rpc

end VmwareProto
