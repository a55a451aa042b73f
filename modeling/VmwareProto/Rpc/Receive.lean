import VmwareProto.Library.System
import VmwareProto.Rpc.Wire
/-!
# Receiving one message

`_rpc_receive`, one read at a time. The three `task_netread` calls each
store what arrives behind what they stored before, so the whole of the
message buffer from `&msgp->hdr` on is one growing string (`stored`), and
the data buffer is another (`payload`). A read returns any non-empty part
of what was asked for, or `EAGAIN`, or the end of the connection, or an
error. `none` is the failed assertion on a header that claims to be
shorter than itself.
-/

namespace VmwareProto

namespace Rpc

/-- `offsetof(rpc_msg_t, hdr)`: what lies before the header in memory. -/
def hdrOffset : ℕ := 72

/-- `sizeof(dll_t)`, the smallest buffer a pool hands out. -/
def dllSize : ℕ := 16

/-- The sizes a channel was initialised with: the user's maximum for a
header on the wire, and the size of a data buffer. -/
structure RecvCfg where
  msgsz : ℕ
  datasz : ℕ
  /-- as `rpc_chan_init` asserts -/
  hdr_le : hdrSize ≤ msgsz

namespace RecvCfg

/-- `bufpool_bufsize(&rcp->msgpool)`. -/
def msgBuf (cfg : RecvCfg) : ℕ := max (cfg.msgsz + hdrOffset) dllSize

/-- `bufpool_bufsize(&rcp->datapool)`. -/
def dataBuf (cfg : RecvCfg) : ℕ := max cfg.datasz dllSize

theorem msgBuf_eq (cfg : RecvCfg) : cfg.msgBuf = cfg.msgsz + hdrOffset := by
  simp only [msgBuf, hdrOffset, dllSize]; omega

end RecvCfg

/-- What `read(2)` answers. -/
inductive ReadResult
  | bytes (bs : List Byte)
  | again
  | closed
  | error
  deriving DecidableEq, Repr

/-- Where `_rpc_receive` stands: in one of its reads, waiting for a data
buffer, or returned. -/
inductive RecvPc
  | header
  | body (h : MsgHdr)
  | databuf (h : MsgHdr)
  | payload (h : MsgHdr)
  | done (h : MsgHdr)
  | errout
  deriving DecidableEq, Repr

/-- One call of `_rpc_receive`. -/
structure Recv where
  pc : RecvPc
  /-- the bytes stored from `&msgp->hdr` on -/
  stored : List Byte
  /-- the bytes stored in the data buffer, once there is one -/
  payload : Option (List Byte)
  deriving DecidableEq, Repr

namespace Recv

/-- The call up to its first read. -/
def start (enabled : Bool) : Recv := ⟨if enabled then .header else .errout, [], none⟩

/-- How many bytes the pending read asks for. -/
def wanted (r : Recv) : ℕ :=
  match r.pc with
  | .header => hdrSize - r.stored.length
  | .body h => h.len - r.stored.length
  | .payload h => h.plen - (r.payload.getD []).length
  | _ => 0

/-- From the complete header on to the payload, if any. -/
def afterBody (cfg : RecvCfg) (h : MsgHdr) (r : Recv) : Recv :=
  if h.plen > 0 then
    if h.plen > cfg.dataBuf then { r with pc := .errout } else { r with pc := .databuf h }
  else { r with pc := .done h }

/-- From the bare header on to the rest of it. -/
def afterHeader (cfg : RecvCfg) (r : Recv) : Option Recv :=
  let h := MsgHdr.decode r.stored
  if h.len > cfg.msgBuf then some { r with pc := .errout }
  else if h.len < hdrSize then none
  else if h.len - hdrSize > 0 then some { r with pc := .body h }
  else some (afterBody cfg h r)

/-- One `read` and what follows it. -/
def read (cfg : RecvCfg) (r : Recv) : ReadResult → Option Recv
  | .again => some r
  | .closed => some { r with pc := .errout }
  | .error => some { r with pc := .errout }
  | .bytes bs =>
      match r.pc with
      | .header =>
          let r := { r with stored := r.stored ++ bs }
          if r.stored.length < hdrSize then some r else afterHeader cfg r
      | .body h =>
          let r := { r with stored := r.stored ++ bs }
          if r.stored.length < h.len then some r else some (afterBody cfg h r)
      | .payload h =>
          let p := r.payload.getD [] ++ bs
          some ⟨if p.length < h.plen then .payload h else .done h, r.stored, some p⟩
      | _ => none

/-- `rpc_databuf_get` returns. -/
def getData (r : Recv) : Option Recv :=
  match r.pc with
  | .databuf h => some ⟨.payload h, r.stored, some []⟩
  | _ => none

/-- The call has returned. -/
def finished (r : Recv) : Bool :=
  match r.pc with
  | .done _ => true
  | .errout => true
  | _ => false

/-- The call is inside a read. -/
def Reading (r : Recv) : Prop := 0 < r.wanted

instance (r : Recv) : Decidable r.Reading := inferInstanceAs (Decidable (0 < r.wanted))

end Recv

/-! ## A call on a byte stream -/

/-- A call and the bytes that have yet to arrive. -/
structure RecvOn where
  recv : Recv
  rest : List Byte

/-- What happens to the call: a read takes the next `k` bytes or ends
otherwise; a data buffer is obtained. -/
inductive RecvAction
  | take (k : ℕ)
  | other (r : ReadResult)
  | databuf

def RecvAction.exec (cfg : RecvCfg) (σ : RecvOn) : RecvAction → Option RecvOn
  | .take k => (σ.recv.read cfg (.bytes (σ.rest.take k))).map fun r => ⟨r, σ.rest.drop k⟩
  | .other r => (σ.recv.read cfg r).map fun r => ⟨r, σ.rest⟩
  | .databuf => σ.recv.getData.map fun r => ⟨r, σ.rest⟩

def RecvAction.Enabled (σ : RecvOn) : RecvAction → Prop
  | .take k => 0 < k ∧ k ≤ σ.recv.wanted ∧ k ≤ σ.rest.length
  | .other r => σ.recv.Reading ∧ ∀ bs, r ≠ .bytes bs
  | .databuf => ∃ h, σ.recv.pc = .databuf h

/-- `_rpc_receive` on an enabled channel whose peer sends `bs`. -/
def receiveSystem (cfg : RecvCfg) (bs : List Byte) : System RecvOn RecvAction where
  init σ := σ = ⟨.start true, bs⟩
  enabled := RecvAction.Enabled
  exec := RecvAction.exec cfg

end Rpc

end VmwareProto
