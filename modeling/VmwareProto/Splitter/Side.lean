import VmwareProto.BufPool.Model
import VmwareProto.Rpc.Tasks
import VmwareProto.Splitter.Commands
/-!
# One end of a connection

A channel with its pool of data buffers and iosplitter's tasks: on the
client those that op `send_open`, `do_write` and `do_read`, on either end
the handlers. What a payload holds is in the channel's messages; here it is
said which data buffer it lies in. A task that has to wait for a buffer
asks again, so a get that waits changes nothing. Errors of the connection
are left out, and with them what follows a receive that fails. `none` is a
failed assertion.
-/

namespace VmwareProto

namespace Splitter

open Rpc
open Libtask (TaskId)

/-- The address of a data buffer. -/
abbrev DataAddr := BufPool.Addr

/-- What a client task calls. -/
inductive ClientOp
  | sendOpen
  | doWrite (len offset : BitVec 64) (fill : Byte)
  | doRead (len offset : BitVec 64)
  deriving DecidableEq, Repr

namespace ClientOp

/-- A length that the header can carry. -/
def Valid : ClientOp → Prop
  | sendOpen => True
  | doWrite len _ _ => 0 < len.toNat ∧ len.toNat ≤ 65535
  | doRead len _ => 0 < len.toNat ∧ len.toNat ≤ 65535

instance : (op : ClientOp) → Decidable op.Valid
  | sendOpen => .isTrue trivial
  | doWrite _ _ _ => inferInstanceAs (Decidable (_ ∧ _))
  | doRead _ _ => inferInstanceAs (Decidable (_ ∧ _))

def msgtype : ClientOp → ℕ
  | sendOpen => openMsg
  | doWrite _ _ _ => writeMsg
  | doRead _ _ => readMsg

/-- `sizeof(*w)`: an `open_cmd_t` is its header. -/
def msglen : ClientOp → ℕ
  | sendOpen => hdrSize
  | doWrite _ _ _ => cmdSize
  | doRead _ _ => cmdSize

def payloadlen : ClientOp → ℕ
  | doWrite len _ _ => len.toNat
  | _ => 0

/-- What the data buffer holds, zeroed or filled. -/
def payload : ClientOp → Option (List Byte)
  | doWrite _ _ fill => some (List.replicate payloadSz fill)
  | _ => none

/-- `do_write` starts with `rpc_databuf_get`. -/
def needsData : ClientOp → Bool
  | doWrite _ _ _ => true
  | _ => false

/-- `w->offset = offset; w->len = len`. -/
def fill (m : Msg) : ClientOp → Msg
  | sendOpen => m
  | doWrite len offset _ => fillCmd m offset len
  | doRead len offset => fillCmd m offset len

/-- `assert(res_r->hdr.payloadlen == len)`. -/
def Accepts (h : MsgHdr) : ClientOp → Prop
  | doRead len _ => h.plen = len.toNat
  | _ => True

instance (h : MsgHdr) : (op : ClientOp) → Decidable (op.Accepts h)
  | sendOpen => .isTrue trivial
  | doWrite _ _ _ => .isTrue trivial
  | doRead _ _ => inferInstanceAs (Decidable (_ = _))

end ClientOp

/-- Where a task stands. -/
inductive Task
  /-- in no call; a handler task that has not been created, or is over -/
  | idle
  /-- in `rpc_databuf_get` -/
  | getData (op : ClientOp)
  /-- in `rpc_msg_get`, with the data buffer it is to have -/
  | getMsg (op : ClientOp) (d : Option DataAddr)
  /-- with its message -/
  | fill (op : ClientOp) (a : Addr)
  | filled (op : ClientOp) (a : Addr)
  /-- in `rpc_request`, or just returned from it -/
  | calling (op : ClientOp) (a : Addr)
  /-- a handler, with its message -/
  | handle (a : Addr)
  /-- a handler that has its answer -/
  | respond (a : Addr)
  /-- in `rpc_response` -/
  | responding (a : Addr)
  deriving DecidableEq, Repr

namespace Task

/-- The message a task has. -/
def msg : Task → Option Addr
  | fill _ a => some a
  | filled _ a => some a
  | calling _ a => some a
  | handle a => some a
  | respond a => some a
  | responding a => some a
  | _ => none

/-- The data buffer a task has, outside any message. -/
def data : Task → Option DataAddr
  | getMsg _ d => d
  | _ => none

end Task

/-- Which program. -/
inductive Role
  | client
  | server
  deriving DecidableEq, Repr

/-- `RPC_ENOSYS`. -/
def eNosys : ℕ := 2003

/-- `rpc_default_handler`, up to its `rpc_response`. -/
def rpcDefaultHandler (m : CmdMsg) : CmdMsg :=
  { m with hdr := { m.hdr with status := BitVec.ofNat 16 eNosys }, payload := none }

/-- What the channel was given as handler, for a request. -/
def Role.handler (dev : Device) (m : CmdMsg) : Role → Option CmdMsg
  | client => some (rpcDefaultHandler m)
  | server => rpcMsgHandler dev m

/-- A channel, its data buffers and its tasks. -/
structure Side where
  rpc : Rpc.State
  /-- `rcp->datapool` -/
  data : BufPool.State
  /-- `msgp->payload`, of messages that have one -/
  payloadAt : Addr → DataAddr
  /-- `buf` in `_rpc_receive`, once it has one -/
  buf : DataAddr
  task : TaskId → Task

namespace Side

variable (cfg : Cfg) (σ : Side)

/-- Move one task. -/
def setTask (n : TaskId) (t : Task) : Side := { σ with task := Function.update σ.task n t }

/-- `msgp->payload`. -/
def payload (a : Addr) : Option DataAddr :=
  (σ.rpc.chan.msgs a).bind fun m => m.payload.map fun _ => σ.payloadAt a

/-- The data buffers that `rpc_msg_put` puts: the response's and the
message's own. -/
def payloads (a : Addr) : List DataAddr :=
  (((σ.rpc.chan.msgs a).bind (·.resp)).bind σ.payload).toList ++ (σ.payload a).toList

/-- A step of the channel. -/
def rpcDo (act : Rpc.Action) : Option Side := (act.exec cfg σ.rpc).map fun r => { σ with rpc := r }

/-- `rpc_databuf_get`, and what follows when it returns. -/
def databufGet (calloc : Option DataAddr) (k : Side → DataAddr → Option Side) : Option Side := do
  let (p, o) ← σ.data.pool.bufpoolGet 0 false calloc
  match o with
  | .got d => k { σ with data := σ.data.settle 0 true (BufPool.Pool.zero true (p, .got d)) } d
  | _ => some σ

/-- `rpc_databuf_put` of some buffers. -/
def databufPut : List DataAddr → Side → Option Side
  | [], σ => some σ
  | d :: ds, σ => do
      let data ← (BufPool.Action.put d).exec σ.data
      databufPut ds { σ with data := data }

/-- The message that `rpc_response` puts, its last byte written. -/
def completes (n : TaskId) : WriteResult → Option Addr
  | .sent j =>
      match σ.rpc.pc n with
      | .send .response a part rest =>
          (σ.rpc.chan.msgs a).bind fun m =>
            if (State.left m part (rest.drop j)).isNone = true then some a else none
      | _ => none
  | _ => none

/-- `_rpc_receive` has returned with the message in `b`, or goes on.
`TASKCREATE` makes the handler's task `n`. -/
def received (b : Addr) (n : TaskId) : Side :=
  match σ.rpc.recv with
  | .receiving _ _ => σ
  | _ =>
      let σ := { σ with payloadAt := Function.update σ.payloadAt b σ.buf }
      match σ.rpc.chan.msgs b with
      | none => σ
      | some m =>
          if m.hdr.isConnClosed = true ∨ m.hdr.isReq = true then σ.setTask n (.handle b) else σ

/-- The handler's answer `r` is written over its message. -/
def answer (n : TaskId) (a : Addr) (m : Msg) (r : CmdMsg) : Option Side := do
  let σ ← σ.rpcDo cfg (.edit a r.hdr.msglen r.hdr.payloadlen r.hdr.status m.body r.payload)
  some (σ.setTask n (.respond a))

end Side

/-- What one stretch of a task's execution does. -/
inductive SideAction
  /-- task `n` calls `op` -/
  | start (n : TaskId) (op : ClientOp)
  | getData (n : TaskId) (calloc : Option DataAddr)
  | getMsg (n : TaskId) (alloc : Addr)
  | fill (n : TaskId)
  | request (n : TaskId)
  /-- task `n` reads the response, puts its message and returns -/
  | finish (n : TaskId)
  /-- in `rpc_request` and `rpc_response` -/
  | resume (n : TaskId)
  | write (n : TaskId) (r : WriteResult)
  | wake (n : TaskId)
  /-- the handler's task runs, up to `rpc_response` -/
  | handle (n : TaskId) (dev : Device) (calloc : Option DataAddr)
  | respond (n : TaskId)
  | recvStart (alloc : Addr)
  /-- a read of `k` bytes; should it complete a request, task `n` is created -/
  | recvTake (k : ℕ) (n : TaskId)
  | recvAgain
  | recvData (calloc : Option DataAddr)
  | arrive (bs : List Byte)

namespace SideAction

def exec (cfg : Cfg) (role : Role) (σ : Side) : SideAction → Option Side
  | start n op => some (σ.setTask n (if op.needsData = true then .getData op else .getMsg op none))
  | getData n calloc =>
      match σ.task n with
      | .getData op => σ.databufGet calloc fun σ d => some (σ.setTask n (.getMsg op (some d)))
      | _ => none
  | getMsg n alloc =>
      match σ.task n with
      | .getMsg op d => do
          let (c, a) ← σ.rpc.chan.msgGet cfg alloc op.msgtype op.msglen op.payloadlen op.payload
          some { σ with
            rpc := { σ.rpc with chan := c, gets := σ.rpc.gets + 1 }
            payloadAt := d.elim σ.payloadAt (Function.update σ.payloadAt a)
            task := Function.update σ.task n (.fill op a) }
      | _ => none
  | fill n =>
      match σ.task n with
      | .fill op a => do
          let m ← σ.rpc.chan.msgs a
          let σ ← σ.rpcDo cfg
            (.edit a m.hdr.msglen m.hdr.payloadlen m.hdr.status (op.fill m).body m.payload)
          some (σ.setTask n (.filled op a))
      | _ => none
  | request n =>
      match σ.task n with
      | .filled op a => do
          let σ ← σ.rpcDo cfg (.request n a)
          some (σ.setTask n (.calling op a))
      | _ => none
  | finish n =>
      match σ.task n with
      | .calling op a => do
          let m ← σ.rpc.chan.msgs a
          let b ← m.resp
          let r ← σ.rpc.chan.msgs b
          if ¬op.Accepts r.hdr then none
          else do
            let τ ← Side.databufPut (σ.payloads a) σ
            let τ ← τ.rpcDo cfg (.msgPut a)
            some (τ.setTask n .idle)
      | _ => none
  | resume n => σ.rpcDo cfg (.resume n)
  | write n r =>
      match σ.completes n r with
      | none => σ.rpcDo cfg (.write n r)
      | some a => do
          let τ ← σ.rpcDo cfg (.write n r)
          let τ ← Side.databufPut (σ.payloads a) τ
          some (τ.setTask n .idle)
  | wake n => σ.rpcDo cfg (.wake n)
  | handle n dev calloc =>
      match σ.task n with
      | .handle a => do
          let m ← σ.rpc.chan.msgs a
          let r ← role.handler dev (cmd m)
          match σ.payload a, r.payload with
          | none, some _ =>
              σ.databufGet calloc fun σ d =>
                { σ with payloadAt := Function.update σ.payloadAt a d }.answer cfg n a m r
          | some d, none => do
              let σ ← Side.databufPut [d] σ
              σ.answer cfg n a m r
          | _, _ => σ.answer cfg n a m r
      | _ => none
  | respond n =>
      match σ.task n with
      | .respond a => do
          let σ ← σ.rpcDo cfg (.response n a)
          some (σ.setTask n (.responding a))
      | _ => none
  | recvStart alloc => σ.rpcDo cfg (.recvStart alloc)
  | recvTake k n =>
      match σ.rpc.recv with
      | .receiving b _ => (σ.rpcDo cfg (.recvTake k)).map fun σ => σ.received b n
      | _ => none
  | recvAgain => σ.rpcDo cfg (.recvOther .again)
  | recvData calloc =>
      σ.databufGet calloc fun σ d => { σ with buf := d }.rpcDo cfg .recvData
  | arrive bs => σ.rpcDo cfg (.arrive bs)

/-- What arrives in a step. -/
def arrives : SideAction → List (List Byte)
  | arrive bs => [bs]
  | _ => []

/-- Who can do what: a client's tasks op; the others go on from where they
are; a handler's task is a new one; `malloc` returns memory that is not in
use; reads and writes move something or nothing, and do not fail. -/
def Enabled (cfg : Cfg) (role : Role) (σ : Side) : SideAction → Prop
  | start n op => role = .client ∧ σ.task n = .idle ∧ op.Valid
  | getData n calloc => (∃ op, σ.task n = .getData op) ∧ BufPool.Action.Fresh σ.data calloc
  | getMsg n alloc => (∃ op d, σ.task n = .getMsg op d) ∧ σ.rpc.chan.live alloc = false ∧
      σ.rpc.chan.CanGet cfg
  | fill n => ∃ op a, σ.task n = .fill op a
  | request n => ∃ op a, σ.task n = .filled op a
  | finish n => (∃ op a, σ.task n = .calling op a) ∧ σ.rpc.pc n = .idle
  | resume n => (Rpc.Action.resume n).Allowed cfg σ.rpc
  | write n r => (Rpc.Action.write n r).Allowed cfg σ.rpc ∧ (r = .again ∨ ∃ j, r = .sent j)
  | wake n => (Rpc.Action.wake n).Allowed cfg σ.rpc
  | handle n _ calloc =>
      (∃ a, σ.task n = .handle a ∧ ∀ m ∈ σ.rpc.chan.msgs a, m.hdr.isConnClosed = false) ∧
        BufPool.Action.Fresh σ.data calloc
  | respond n => ∃ a, σ.task n = .respond a
  | recvStart alloc => (Rpc.Action.recvStart alloc).Allowed cfg σ.rpc
  | recvTake k n => (Rpc.Action.recvTake k).Allowed cfg σ.rpc ∧ σ.task n = .idle ∧ σ.rpc.pc n = .idle
  | recvAgain => (Rpc.Action.recvOther .again).Allowed cfg σ.rpc
  | recvData calloc => Rpc.Action.recvData.Allowed cfg σ.rpc ∧ BufPool.Action.Fresh σ.data calloc
  | arrive _ => True

end SideAction

/-! ## Computing runs -/

namespace Task

instance (t : Task) : Decidable (∃ op, t = .getData op) :=
  match t with
  | .getData op => isTrue ⟨op, rfl⟩
  | .idle | .getMsg _ _ | .fill _ _ | .filled _ _ | .calling _ _ | .handle _ | .respond _
  | .responding _ => isFalse nofun

instance (t : Task) : Decidable (∃ op d, t = .getMsg op d) :=
  match t with
  | .getMsg op d => isTrue ⟨op, d, rfl⟩
  | .idle | .getData _ | .fill _ _ | .filled _ _ | .calling _ _ | .handle _ | .respond _
  | .responding _ => isFalse nofun

instance (t : Task) : Decidable (∃ op a, t = .fill op a) :=
  match t with
  | .fill op a => isTrue ⟨op, a, rfl⟩
  | .idle | .getData _ | .getMsg _ _ | .filled _ _ | .calling _ _ | .handle _ | .respond _
  | .responding _ => isFalse nofun

instance (t : Task) : Decidable (∃ op a, t = .filled op a) :=
  match t with
  | .filled op a => isTrue ⟨op, a, rfl⟩
  | .idle | .getData _ | .getMsg _ _ | .fill _ _ | .calling _ _ | .handle _ | .respond _
  | .responding _ => isFalse nofun

instance (t : Task) : Decidable (∃ op a, t = .calling op a) :=
  match t with
  | .calling op a => isTrue ⟨op, a, rfl⟩
  | .idle | .getData _ | .getMsg _ _ | .fill _ _ | .filled _ _ | .handle _ | .respond _
  | .responding _ => isFalse nofun

instance (t : Task) (P : Addr → Prop) [DecidablePred P] : Decidable (∃ a, t = .handle a ∧ P a) :=
  match t with
  | .handle a => decidable_of_iff (P a) (by simp)
  | .idle | .getData _ | .getMsg _ _ | .fill _ _ | .filled _ _ | .calling _ _ | .respond _
  | .responding _ => isFalse fun ⟨_, e, _⟩ => nomatch e

instance (t : Task) : Decidable (∃ a, t = .respond a) :=
  match t with
  | .respond a => isTrue ⟨a, rfl⟩
  | .idle | .getData _ | .getMsg _ _ | .fill _ _ | .filled _ _ | .calling _ _ | .handle _
  | .responding _ => isFalse nofun

end Task

instance (r : WriteResult) : Decidable (r = .again ∨ ∃ j, r = .sent j) :=
  match r with
  | .again => isTrue (.inl rfl)
  | .sent j => isTrue (.inr ⟨j, rfl⟩)
  | .zero | .error _ => isFalse (by simp)

instance (cfg : Cfg) (role : Role) (σ : Side) : (act : SideAction) →
    Decidable (act.Enabled cfg role σ)
  | .start _ _ => inferInstanceAs (Decidable (_ ∧ _ ∧ _))
  | .getData n _ => inferInstanceAs (Decidable ((∃ op, σ.task n = .getData op) ∧ _))
  | .getMsg n _ => inferInstanceAs (Decidable ((∃ op d, σ.task n = .getMsg op d) ∧ _ ∧ _))
  | .fill n => inferInstanceAs (Decidable (∃ op a, σ.task n = .fill op a))
  | .request n => inferInstanceAs (Decidable (∃ op a, σ.task n = .filled op a))
  | .finish n => inferInstanceAs (Decidable ((∃ op a, σ.task n = .calling op a) ∧ _))
  | .resume n => inferInstanceAs (Decidable ((Rpc.Action.resume n).Allowed cfg σ.rpc))
  | .write n r => inferInstanceAs
      (Decidable ((Rpc.Action.write n r).Allowed cfg σ.rpc ∧ (r = .again ∨ ∃ j, r = .sent j)))
  | .wake n => inferInstanceAs (Decidable ((Rpc.Action.wake n).Allowed cfg σ.rpc))
  | .handle n _ _ => inferInstanceAs (Decidable ((∃ a, σ.task n = .handle a ∧
      ∀ m ∈ σ.rpc.chan.msgs a, m.hdr.isConnClosed = false) ∧ _))
  | .respond n => inferInstanceAs (Decidable (∃ a, σ.task n = .respond a))
  | .recvStart alloc => inferInstanceAs (Decidable ((Rpc.Action.recvStart alloc).Allowed cfg σ.rpc))
  | .recvTake k _ => inferInstanceAs
      (Decidable ((Rpc.Action.recvTake k).Allowed cfg σ.rpc ∧ _ ∧ _))
  | .recvAgain => inferInstanceAs (Decidable ((Rpc.Action.recvOther .again).Allowed cfg σ.rpc))
  | .recvData _ => inferInstanceAs (Decidable (Rpc.Action.recvData.Allowed cfg σ.rpc ∧ _))
  | .arrive _ => .isTrue trivial

/-! ## Set-up -/

/-- `rpc_chan_init`'s numbers of data buffers. -/
def datanbufs (cfg : Cfg) : ℕ := 2 * cfg.nway + 2

def datanmax (cfg : Cfg) : ℕ := datanbufs cfg * 3

/-- After `rpc_chan_init`; no task has been created yet. -/
def Side.Initial (cfg : Cfg) (σ : Side) : Prop :=
  (∃ bufs : List Addr, bufs.Nodup ∧ bufs.length = cfg.nbufs ∧ σ.rpc = .initial bufs) ∧
    (∃ p, BufPool.Initialised cfg.datasz (datanbufs cfg) (datanmax cfg) p ∧
      σ.data = ⟨p, [], none, []⟩) ∧ ∀ n, σ.task n = .idle

/-! ## What a step does -/

variable {cfg : Cfg} {role : Role} {σ σ' : Side} {n : TaskId} {calloc : Option DataAddr}
  {k : Side → DataAddr → Option Side} {act : Rpc.Action} {ds : List DataAddr} {a : Addr} {m : Msg}
  {r : CmdMsg}

namespace Side

theorem rpcDo_cases (h : σ.rpcDo cfg act = some σ') :
    ∃ ρ, act.exec cfg σ.rpc = some ρ ∧ σ' = { σ with rpc := ρ } := by
  obtain ⟨ρ, hρ, rfl⟩ := Option.map_eq_some_iff.1 h
  exact ⟨ρ, hρ, rfl⟩

/-- `rpc_databuf_get` waits, or returns a buffer. -/
theorem databufGet_cases (h : σ.databufGet calloc k = some σ') :
    σ' = σ ∨ ∃ p d data, σ.data.pool.bufpoolGet 0 false calloc = some (p, .got d) ∧
      (BufPool.Action.get 0 true false calloc).exec σ.data = some data ∧
      data = σ.data.settle 0 true (BufPool.Pool.zero true (p, .got d)) ∧
      k { σ with data := data } d = some σ' := by
  simp only [databufGet, Option.bind_eq_bind, Option.bind_eq_some_iff] at h
  obtain ⟨⟨p, o⟩, hget, h⟩ := h
  cases o with
  | got d =>
      refine .inr ⟨p, d, _, hget, ?_, rfl, h⟩
      simp only [BufPool.Action.exec, hget, Option.bind_eq_bind, Option.bind_some]
  | failed => exact .inl (Option.some.inj h).symm
  | asleep => exact .inl (Option.some.inj h).symm

theorem answer_cases (h : σ.answer cfg n a m r = some σ') : ∃ ρ,
    (Rpc.Action.edit a r.hdr.msglen r.hdr.payloadlen r.hdr.status m.body r.payload).exec cfg σ.rpc =
      some ρ ∧ σ' = { σ with rpc := ρ }.setTask n (.respond a) := by
  simp only [answer, Option.bind_eq_bind, Option.bind_eq_some_iff] at h
  obtain ⟨τ, hτ, h⟩ := h
  obtain ⟨ρ, hρ, rfl⟩ := rpcDo_cases hτ
  exact ⟨ρ, hρ, (Option.some.inj h).symm⟩

theorem databufPut_cases (h : databufPut ds σ = some σ') : σ' = { σ with data := σ'.data } := by
  induction ds generalizing σ with
  | nil =>
      obtain rfl := Option.some.inj h
      rfl
  | cons d ds ih =>
      simp only [databufPut, Option.bind_eq_bind, Option.bind_eq_some_iff] at h
      obtain ⟨data, -, h⟩ := h
      have e := ih h
      exact e

/-- What follows a receive leaves the channel alone. -/
theorem received_rpc (σ : Side) (b : Addr) (n : TaskId) : (σ.received b n).rpc = σ.rpc := by
  simp only [received]
  split
  · rfl
  · split
    · rfl
    · split <;> rfl

end Side

/-- A buffer is obtained. -/
structure Got (σ : Side) (calloc : Option DataAddr) (d : DataAddr) (data : BufPool.State) : Prop where
  exec : (BufPool.Action.get 0 true false calloc).exec σ.data = some data
  eq : ∃ p, σ.data.pool.bufpoolGet 0 false calloc = some (p, .got d) ∧
    data = σ.data.settle 0 true (BufPool.Pool.zero true (p, .got d))

/-- What a handler does with the payload of the message in `a`, whose answer
has the payload `p`: gets one, or puts it, or neither. -/
inductive Swaps (σ : Side) (a : Addr) (p : Option (List Byte)) (calloc : Option DataAddr) :
    BufPool.State → (Addr → DataAddr) → Prop
  | gets {d : DataAddr} {data : BufPool.State} : σ.payload a = none → p.isSome = true →
      Got σ calloc d data → Swaps σ a p calloc data (Function.update σ.payloadAt a d)
  | puts {d : DataAddr} {data : BufPool.State} : σ.payload a = some d → p = none →
      Side.databufPut [d] σ = some { σ with data := data } → Swaps σ a p calloc data σ.payloadAt
  | keeps : (σ.payload a).isSome = p.isSome → Swaps σ a p calloc σ.data σ.payloadAt

/-- What gets a data buffer, and may have to wait for it. -/
def SideAction.Waits (σ : Side) : SideAction → Prop
  | getData _ _ | recvData _ => True
  | handle n _ _ => ∃ a, σ.task n = .handle a ∧ σ.payload a = none
  | _ => False

/-- **What a step comes to.** -/
inductive Did (cfg : Cfg) (role : Role) (σ : Side) : SideAction → Side → Prop
  | start (n : TaskId) (op : ClientOp) : Did cfg role σ (.start n op)
      (σ.setTask n (if op.needsData = true then .getData op else .getMsg op none))
  | waits {act : SideAction} : act.Waits σ → Did cfg role σ act σ
  | getData {n : TaskId} {calloc : Option DataAddr} {op : ClientOp} {d : DataAddr}
      {data : BufPool.State} : σ.task n = .getData op → Got σ calloc d data →
      Did cfg role σ (.getData n calloc) ({ σ with data := data }.setTask n (.getMsg op (some d)))
  | getMsg {n : TaskId} {alloc a : Addr} {op : ClientOp} {o : Option DataAddr} {c : Channel} :
      σ.task n = .getMsg op o →
      σ.rpc.chan.msgGet cfg alloc op.msgtype op.msglen op.payloadlen op.payload = some (c, a) →
      Did cfg role σ (.getMsg n alloc) { σ with
        rpc := { σ.rpc with chan := c, gets := σ.rpc.gets + 1 }
        payloadAt := o.elim σ.payloadAt (Function.update σ.payloadAt a)
        task := Function.update σ.task n (.fill op a) }
  | fill {n : TaskId} {a : Addr} {op : ClientOp} {m : Msg} {ρ : Rpc.State} :
      σ.task n = .fill op a → σ.rpc.chan.msgs a = some m →
      (Rpc.Action.edit a m.hdr.msglen m.hdr.payloadlen m.hdr.status (op.fill m).body m.payload).exec
        cfg σ.rpc = some ρ →
      Did cfg role σ (.fill n) ({ σ with rpc := ρ }.setTask n (.filled op a))
  | request {n : TaskId} {a : Addr} {op : ClientOp} {ρ : Rpc.State} : σ.task n = .filled op a →
      (Rpc.Action.request n a).exec cfg σ.rpc = some ρ →
      Did cfg role σ (.request n) ({ σ with rpc := ρ }.setTask n (.calling op a))
  | finish {n : TaskId} {a : Addr} {op : ClientOp} {m : Msg} {τ : Side} {ρ : Rpc.State} :
      σ.task n = .calling op a → σ.rpc.chan.msgs a = some m →
      Side.databufPut (σ.payloads a) σ = some τ → (Rpc.Action.msgPut a).exec cfg τ.rpc = some ρ →
      Did cfg role σ (.finish n) ({ τ with rpc := ρ }.setTask n .idle)
  | resume {n : TaskId} {ρ : Rpc.State} : (Rpc.Action.resume n).exec cfg σ.rpc = some ρ →
      Did cfg role σ (.resume n) { σ with rpc := ρ }
  | write {n : TaskId} {r : WriteResult} {ρ : Rpc.State} : σ.completes n r = none →
      (Rpc.Action.write n r).exec cfg σ.rpc = some ρ →
      Did cfg role σ (.write n r) { σ with rpc := ρ }
  | responded {n : TaskId} {r : WriteResult} {a : Addr} {τ : Side} {ρ : Rpc.State} :
      σ.completes n r = some a → (Rpc.Action.write n r).exec cfg σ.rpc = some ρ →
      Side.databufPut (σ.payloads a) { σ with rpc := ρ } = some τ →
      Did cfg role σ (.write n r) (τ.setTask n .idle)
  | wake {n : TaskId} {ρ : Rpc.State} : (Rpc.Action.wake n).exec cfg σ.rpc = some ρ →
      Did cfg role σ (.wake n) { σ with rpc := ρ }
  | handle {n : TaskId} {dev : Device} {calloc : Option DataAddr} {a : Addr} {m : Msg} {r : CmdMsg}
      {data : BufPool.State} {ptr : Addr → DataAddr} {ρ : Rpc.State} :
      σ.task n = .handle a → σ.rpc.chan.msgs a = some m → role.handler dev (cmd m) = some r →
      Swaps σ a r.payload calloc data ptr →
      (Rpc.Action.edit a r.hdr.msglen r.hdr.payloadlen r.hdr.status m.body r.payload).exec
        cfg σ.rpc = some ρ →
      Did cfg role σ (.handle n dev calloc) { σ with
        rpc := ρ, data := data, payloadAt := ptr, task := Function.update σ.task n (.respond a) }
  | respond {n : TaskId} {a : Addr} {ρ : Rpc.State} : σ.task n = .respond a →
      (Rpc.Action.response n a).exec cfg σ.rpc = some ρ →
      Did cfg role σ (.respond n) ({ σ with rpc := ρ }.setTask n (.responding a))
  | recvStart {alloc : Addr} {ρ : Rpc.State} : (Rpc.Action.recvStart alloc).exec cfg σ.rpc = some ρ →
      Did cfg role σ (.recvStart alloc) { σ with rpc := ρ }
  | recvTake {k : ℕ} {n : TaskId} {b : Addr} {q : Recv} {ρ : Rpc.State} :
      σ.rpc.recv = .receiving b q → (Rpc.Action.recvTake k).exec cfg σ.rpc = some ρ →
      Did cfg role σ (.recvTake k n) ({ σ with rpc := ρ }.received b n)
  | recvAgain {ρ : Rpc.State} : (Rpc.Action.recvOther .again).exec cfg σ.rpc = some ρ →
      Did cfg role σ .recvAgain { σ with rpc := ρ }
  | recvData {calloc : Option DataAddr} {d : DataAddr} {data : BufPool.State} {ρ : Rpc.State} :
      Got σ calloc d data → Rpc.Action.recvData.exec cfg σ.rpc = some ρ →
      Did cfg role σ (.recvData calloc) { σ with rpc := ρ, data := data, buf := d }
  | arrive {bs : List Byte} {ρ : Rpc.State} : (Rpc.Action.arrive bs).exec cfg σ.rpc = some ρ →
      Did cfg role σ (.arrive bs) { σ with rpc := ρ }

/-- A handler's run. -/
theorem did_handle {dev : Device}
    (hx : SideAction.exec cfg role σ (.handle n dev calloc) = some σ') :
    Did cfg role σ (.handle n dev calloc) σ' := by
  simp only [SideAction.exec] at hx
  split at hx
  swap
  · cases hx
  rename_i a ht
  simp only [Option.bind_eq_bind, Option.bind_eq_some_iff] at hx
  obtain ⟨m, hm, r, hr, hx⟩ := hx
  split at hx
  · rename_i x hnone hpay
    rcases Side.databufGet_cases hx with rfl | ⟨p, d, data, hget, hdo, hdata, hx⟩
    · exact .waits ⟨a, ht, hnone⟩
    · obtain ⟨ρ, hρ, rfl⟩ := Side.answer_cases hx
      exact .handle ht hm hr (.gets hnone (by rw [hpay]; rfl) ⟨hdo, p, hget, hdata⟩) hρ
  · rename_i d hd hpay
    obtain ⟨τ, hput, hx⟩ := Option.bind_eq_some_iff.1 hx
    have hτ := Side.databufPut_cases hput
    rw [hτ] at hput hx
    obtain ⟨ρ, hρ, rfl⟩ := Side.answer_cases hx
    exact .handle ht hm hr (.puts hd hpay hput) hρ
  · rename_i hget hput
    obtain ⟨ρ, hρ, rfl⟩ := Side.answer_cases hx
    refine .handle ht hm hr (.keeps ?_) hρ
    cases hp : σ.payload a with
    | none =>
        cases hrp : r.payload with
        | none => rfl
        | some y => exact (hget y hp hrp).elim
    | some d =>
        cases hrp : r.payload with
        | none => exact (hput d hp hrp).elim
        | some y => rfl

/-- **Every step.** -/
theorem did {act : SideAction} (hx : act.exec cfg role σ = some σ') : Did cfg role σ act σ' := by
  cases act with
  | start n op =>
      obtain rfl := Option.some.inj hx
      exact .start n op
  | getData n calloc =>
      simp only [SideAction.exec] at hx
      split at hx
      swap
      · cases hx
      rename_i op ht
      rcases Side.databufGet_cases hx with rfl | ⟨p, d, data, hget, hdo, hdata, hx⟩
      · exact .waits trivial
      · obtain rfl := Option.some.inj hx
        exact .getData ht ⟨hdo, p, hget, hdata⟩
  | getMsg n alloc =>
      simp only [SideAction.exec] at hx
      split at hx
      swap
      · cases hx
      rename_i op d ht
      simp only [Option.bind_eq_bind, Option.bind_eq_some_iff] at hx
      obtain ⟨⟨c, a⟩, hget, hx⟩ := hx
      obtain rfl := Option.some.inj hx
      exact .getMsg ht hget
  | fill n =>
      simp only [SideAction.exec] at hx
      split at hx
      swap
      · cases hx
      rename_i op a ht
      simp only [Option.bind_eq_bind, Option.bind_eq_some_iff] at hx
      obtain ⟨m, hm, τ, hτ, hx⟩ := hx
      obtain rfl := Option.some.inj hx
      obtain ⟨ρ, hρ, rfl⟩ := Side.rpcDo_cases hτ
      exact .fill ht hm hρ
  | request n =>
      simp only [SideAction.exec] at hx
      split at hx
      swap
      · cases hx
      rename_i op a ht
      simp only [Option.bind_eq_bind, Option.bind_eq_some_iff] at hx
      obtain ⟨τ, hτ, hx⟩ := hx
      obtain rfl := Option.some.inj hx
      obtain ⟨ρ, hρ, rfl⟩ := Side.rpcDo_cases hτ
      exact .request ht hρ
  | finish n =>
      simp only [SideAction.exec] at hx
      split at hx
      swap
      · cases hx
      rename_i op a ht
      simp only [Option.bind_eq_bind, Option.bind_eq_some_iff] at hx
      obtain ⟨m, hm, b, -, r, -, hx⟩ := hx
      split at hx
      · cases hx
      simp only [Option.bind_eq_some_iff] at hx
      obtain ⟨τ, hput, τ', hτ, hx⟩ := hx
      obtain rfl := Option.some.inj hx
      obtain ⟨ρ, hρ, rfl⟩ := Side.rpcDo_cases hτ
      exact .finish ht hm hput hρ
  | resume n =>
      obtain ⟨ρ, hρ, rfl⟩ := Side.rpcDo_cases hx
      exact .resume hρ
  | write n r =>
      simp only [SideAction.exec] at hx
      split at hx
      · rename_i hc
        obtain ⟨ρ, hρ, rfl⟩ := Side.rpcDo_cases hx
        exact .write hc hρ
      · rename_i a hc
        simp only [Option.bind_eq_bind, Option.bind_eq_some_iff] at hx
        obtain ⟨τ, hτ, τ', hput, hx⟩ := hx
        obtain rfl := Option.some.inj hx
        obtain ⟨ρ, hρ, rfl⟩ := Side.rpcDo_cases hτ
        exact .responded hc hρ hput
  | wake n =>
      obtain ⟨ρ, hρ, rfl⟩ := Side.rpcDo_cases hx
      exact .wake hρ
  | handle n dev calloc => exact did_handle hx
  | respond n =>
      simp only [SideAction.exec] at hx
      split at hx
      swap
      · cases hx
      rename_i a ht
      simp only [Option.bind_eq_bind, Option.bind_eq_some_iff] at hx
      obtain ⟨τ, hτ, hx⟩ := hx
      obtain rfl := Option.some.inj hx
      obtain ⟨ρ, hρ, rfl⟩ := Side.rpcDo_cases hτ
      exact .respond ht hρ
  | recvStart alloc =>
      obtain ⟨ρ, hρ, rfl⟩ := Side.rpcDo_cases hx
      exact .recvStart hρ
  | recvTake k n =>
      simp only [SideAction.exec] at hx
      split at hx
      swap
      · cases hx
      rename_i b q hq
      obtain ⟨τ, hτ, rfl⟩ := Option.map_eq_some_iff.1 hx
      obtain ⟨ρ, hρ, rfl⟩ := Side.rpcDo_cases hτ
      exact .recvTake hq hρ
  | recvAgain =>
      obtain ⟨ρ, hρ, rfl⟩ := Side.rpcDo_cases hx
      exact .recvAgain hρ
  | recvData calloc =>
      simp only [SideAction.exec] at hx
      rcases Side.databufGet_cases hx with rfl | ⟨p, d, data, hget, hdo, hdata, hx⟩
      · exact .waits trivial
      · obtain ⟨ρ, hρ, rfl⟩ := Side.rpcDo_cases hx
        exact .recvData ⟨hdo, p, hget, hdata⟩ hρ
  | arrive bs =>
      obtain ⟨ρ, hρ, rfl⟩ := Side.rpcDo_cases hx
      exact .arrive hρ

/-- The task that a step is about, or may create. -/
def SideAction.about : SideAction → Option TaskId
  | start n _ | getData n _ | getMsg n _ | fill n | request n | finish n | resume n | write n _
  | wake n | handle n _ _ | respond n | recvTake _ n => some n
  | recvStart _ | recvAgain | recvData _ | arrive _ => none

/-- **The other tasks** are where they were. -/
theorem Did.task_of_ne {act : SideAction} {t : TaskId} (hd : Did cfg role σ act σ')
    (ht : act.about ≠ some t) : σ'.task t = σ.task t := by
  have hne : ∀ {n s}, some n ≠ some t → Function.update σ.task n s t = σ.task t :=
    fun h => Function.update_of_ne (fun e => h (congrArg some e.symm)) ..
  cases hd with
  | waits _ | resume _ | write _ _ | wake _ | recvStart _ | recvAgain _ | recvData _ _ | arrive _ =>
      rfl
  | start n op => exact hne ht
  | getData _ _ => exact hne ht
  | getMsg _ _ => exact hne ht
  | fill _ _ _ => exact hne ht
  | request _ _ => exact hne ht
  | respond _ _ => exact hne ht
  | handle _ _ _ _ _ => exact hne ht
  | finish _ _ hput _ =>
      rw [Side.databufPut_cases hput]
      exact hne ht
  | responded _ _ hput =>
      rw [Side.databufPut_cases hput]
      exact hne ht
  | recvTake _ _ =>
      simp only [Side.received]
      split
      · rfl
      · split
        · rfl
        · split
          · exact hne ht
          · rfl

end Splitter

end VmwareProto
