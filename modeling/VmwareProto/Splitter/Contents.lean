import VmwareProto.Rpc.Matching
import VmwareProto.Splitter.OwnedSteps
/-!
# What the messages hold

The client's messages are commands that the server's handler serves, with
lengths that the header can carry; what it answers them with can be
delivered too; and both come off the wire as they were put on it.
-/

namespace VmwareProto

namespace Splitter

open Rpc
open Libtask (TaskId)

variable {cfg : Cfg} {c c' : Channel} {op : ClientOp} {m m' : Msg} {dev : Device} {r : CmdMsg}
  {a alloc : Addr} {offset len : BitVec 64}

/-- A command that can be delivered; a read asks for no more than the header
of its answer can announce. -/
structure Servable (m : Msg) : Prop extends Deliverable ioCfg m where
  read : getMsgType m.hdr = readMsg →
    ∃ offset len, IsCmd m offset len ∧ 0 < len.toNat ∧ len.toNat ≤ 65535

/-- The message that `op` gets from `rpc_msg_get`. -/
structure GotFor (op : ClientOp) (m : Msg) : Prop where
  type : m.hdr.type = BitVec.ofNat 16 (op.msgtype <<< 4)
  msglen : m.hdr.len = op.msglen
  payloadlen : m.hdr.plen = op.payloadlen
  payload : m.payload = op.payload
  body : m.body.length = 20

/-! ## The flags of a header -/

theorem getMsgType_setReq (h : MsgHdr) : getMsgType h.setReq = getMsgType h := by
  have hone : (1 : ℕ) >>> 4 = 0 := by decide
  simp only [getMsgType, MsgHdr.setReq, BitVec.toNat_or, Nat.shiftRight_or_distrib]
  exact (congrArg _ hone).trans (Nat.or_zero _)

theorem isConnClosed_setReq (h : MsgHdr) : h.setReq.isConnClosed = h.isConnClosed := by
  have hone : (2 : BitVec 16) &&& 1 = 0#16 := by decide
  simp only [MsgHdr.isConnClosed, MsgHdr.setReq]
  rw [BitVec.and_comm, BitVec.and_or_distrib_left, hone, BitVec.or_zero, BitVec.and_comm]

theorem isConnClosed_setResp (h : MsgHdr) : h.setResp.isConnClosed = h.isConnClosed := by
  have hone : ~~~(1 : BitVec 16) &&& 2 = 2 := by decide
  simp only [MsgHdr.isConnClosed, MsgHdr.setResp]
  rw [BitVec.and_assoc, hone]

/-- What the flags do not concern. -/
theorem Deliverable.congr {rcfg : RecvCfg} (h : Deliverable rcfg m) (hl : m'.hdr.len = m.hdr.len)
    (hp : m'.hdr.plen = m.hdr.plen) (hc : m'.hdr.isConnClosed = m.hdr.isConnClosed)
    (hb : m'.body = m.body) (hpay : m'.payload = m.payload) : Deliverable rcfg m' where
  inBuffers := by
    rw [Msg.InBuffers, hl, hp, hb, hpay]
    exact h.inBuffers
  sendable := ⟨by rw [hl]; exact h.sendable.len_ge, by rw [hl]; exact h.sendable.len_le,
    by rw [hp]; exact h.sendable.plen_le, by rw [hpay, hp]; exact h.sendable.payload_iff⟩
  stays_open := hc.trans h.stays_open

theorem Deliverable.framed (h : Deliverable ioCfg m) : m.Framed ioCfg :=
  (h.sendable.carries h.inBuffers : m.Carries ioCfg True).toFramed

theorem Servable.congr (h : Servable m) (hl : m'.hdr.len = m.hdr.len) (hp : m'.hdr.plen = m.hdr.plen)
    (hc : m'.hdr.isConnClosed = m.hdr.isConnClosed) (ht : getMsgType m'.hdr = getMsgType m.hdr)
    (hb : m'.body = m.body) (hpay : m'.payload = m.payload) : Servable m' where
  toDeliverable := h.toDeliverable.congr hl hp hc hb hpay
  read e := by
    obtain ⟨offset, len, hcmd, hlen⟩ := h.read (ht.symm.trans e)
    exact ⟨offset, len, hcmd.of_body hl hb, hlen⟩

/-! ## The client's commands -/

/-- A length that the header can carry. -/
theorem ClientOp.Valid.payloadlen_lt (h : op.Valid) : op.payloadlen < 65536 := by
  cases op with
  | sendOpen => decide
  | doWrite len offset fill =>
      have hle : len.toNat ≤ 65535 := h.2
      exact Nat.lt_succ_of_le hle
  | doRead len offset => exact Nat.zero_lt_succ _

theorem gotFor_of_msgGet (hcfg : cfg.toRecvCfg = ioCfg) (hv : op.Valid)
    (hget : c.msgGet cfg alloc op.msgtype op.msglen op.payloadlen op.payload = some (c', a)) :
    ∃ m, c'.msgs a = some m ∧ GotFor op m := by
  obtain ⟨m, hm, hbody, hp, ht, hl, hpl, -⟩ := msgGet_message hget
  refine ⟨m, hm, ht, ?_, ?_, hp, ?_⟩
  · rw [MsgHdr.len, hl]
    cases op <;> rfl
  · rw [MsgHdr.plen, hpl, BitVec.toNat_ofNat]
    exact Nat.mod_eq_of_lt hv.payloadlen_lt
  · rw [hbody, hcfg]
    rfl

/-- **What the client sends** can be delivered and served. -/
theorem GotFor.servable (h : GotFor op m) (hv : op.Valid) : Servable (op.fill m) := by
  obtain ⟨ht, hl, hpl, hpay, hb⟩ := h
  have hsz : 65536 ≤ payloadSz := by decide
  have hlt := hv.payloadlen_lt
  cases op with
  | sendOpen =>
      refine ⟨⟨⟨?_, ?_⟩, ⟨?_, ?_, ?_, ?_⟩, ?_⟩, fun e => ?_⟩
      · rw [ClientOp.fill, hl, hb]
        decide
      · rw [ClientOp.fill, hpl]
        exact Nat.zero_le _
      · rw [ClientOp.fill, hl]
        exact le_rfl
      · rw [ClientOp.fill, hl]
        decide
      · rw [ClientOp.fill, hpl]
        exact Nat.zero_le _
      · rw [ClientOp.fill, hpl, hpay]
        exact iff_of_true rfl rfl
      · rw [ClientOp.fill, MsgHdr.isConnClosed, ht]
        decide
      · rw [ClientOp.fill, getMsgType, ht] at e
        exact absurd e (by decide)
  | doWrite len offset fill =>
      obtain ⟨hpos, hle⟩ := hv
      have ht : m.hdr.type = BitVec.ofNat 16 (writeMsg <<< 4) := ht
      have hcmd := isCmd_fillCmd offset len hl hb
      have hpl' : (fillCmd m offset len).hdr.plen = len.toNat := hpl
      have hpay' : (fillCmd m offset len).payload = some (List.replicate payloadSz fill) := hpay
      refine ⟨⟨⟨?_, ?_⟩, ⟨?_, ?_, ?_, ?_⟩, ?_⟩, fun e => ?_⟩
      · rw [ClientOp.fill, hcmd.msglen, hcmd.body]
        decide
      · rw [ClientOp.fill, hpl', hpay', Option.getD_some, List.length_replicate]
        omega
      · rw [ClientOp.fill, hcmd.msglen]
        decide
      · rw [ClientOp.fill, hcmd.msglen]
        exact le_rfl
      · rw [ClientOp.fill, hpl']
        exact hle.trans (by decide)
      · rw [ClientOp.fill, hpl', hpay']
        exact iff_of_false (by simp) (by omega)
      · show (m.hdr.type &&& 2 != 0) = false
        rw [ht]
        decide
      · have e : m.hdr.type.toNat >>> 4 = readMsg := e
        rw [ht] at e
        exact absurd e (by decide)
  | doRead len offset =>
      have ht : m.hdr.type = BitVec.ofNat 16 (readMsg <<< 4) := ht
      have hcmd := isCmd_fillCmd offset len hl hb
      have hpl' : (fillCmd m offset len).hdr.plen = 0 := hpl
      have hpay' : (fillCmd m offset len).payload = none := hpay
      refine ⟨⟨⟨?_, ?_⟩, ⟨?_, ?_, ?_, ?_⟩, ?_⟩, fun _ => ⟨offset, len, hcmd, hv⟩⟩
      · rw [ClientOp.fill, hcmd.msglen, hcmd.body]
        decide
      · rw [ClientOp.fill, hpl']
        exact Nat.zero_le _
      · rw [ClientOp.fill, hcmd.msglen]
        decide
      · rw [ClientOp.fill, hcmd.msglen]
        exact le_rfl
      · rw [ClientOp.fill, hpl']
        exact Nat.zero_le _
      · rw [ClientOp.fill, hpl', hpay']
        exact iff_of_true rfl rfl
      · show (m.hdr.type &&& 2 != 0) = false
        rw [ht]
        decide

/-! ## The server's answers -/

/-- The message with the handler's answer written over it. -/
def answered (m : Msg) (r : CmdMsg) : Msg :=
  { m with
    hdr := { m.hdr with
      msglen := r.hdr.msglen, payloadlen := r.hdr.payloadlen, status := r.hdr.status }
    payload := r.payload }

/-- **What the server answers** can be delivered. -/
theorem Servable.answered (h : Servable m) (hr : rpcMsgHandler dev (cmd m) = some r) :
    Deliverable ioCfg (answered m r) := by
  rw [rpcMsgHandler] at hr
  split at hr
  · -- the request itself
    simp only [guard, Option.bind_eq_bind] at hr
    split at hr
    · obtain rfl := Option.some.inj hr
      exact h.toDeliverable.congr rfl rfl rfl rfl rfl
    · cases hr
  split at hr
  · rename_i ht
    obtain ⟨offset, len, hcmd, hpos, hle⟩ := h.read ht
    obtain ⟨-, hdata⟩ := handleRead_status hr
    have hlen : (cmd m).len = len := hcmd.len
    simp only [handleRead, guard, ssdRead, Option.bind_eq_bind] at hr
    split at hr
    swap
    · cases hr
    simp only [Option.pure_def, Option.bind_some] at hr
    split at hr
    · rename_i hne
      exact absurd hdata.symm hne
    obtain rfl := Option.some.inj hr
    rw [hlen] at hdata
    have hpl : (len.setWidth 16).toNat = len.toNat := by
      rw [BitVec.toNat_setWidth]
      exact Nat.mod_eq_of_lt (by omega)
    have hpl' : ((cmd m).len.setWidth 16).toNat = len.toNat := by rw [hlen, hpl]
    refine ⟨⟨h.inBuffers.1, ?_⟩, ⟨h.sendable.len_ge, h.sendable.len_le, ?_, ?_⟩, h.stays_open⟩
    · simp only [Splitter.answered, MsgHdr.plen, Option.getD_some, List.length_append,
        List.length_replicate, hlen, hdata]
      omega
    · simp only [Splitter.answered, MsgHdr.plen, hpl']
      exact hle.trans (by decide)
    · simp only [Splitter.answered, MsgHdr.plen, hpl']
      exact iff_of_false (by simp) (by omega)
  split at hr
  · simp only [handleWrite, guard, Option.bind_eq_bind] at hr
    split at hr
    swap
    · cases hr
    obtain rfl := Option.some.inj hr
    refine ⟨⟨h.inBuffers.1, Nat.zero_le _⟩, ⟨h.sendable.len_ge, h.sendable.len_le, Nat.zero_le _, ?_⟩,
      h.stays_open⟩
    exact iff_of_true rfl rfl
  · cases hr

/-! ## Over the wire -/

/-- What is received of a message. -/
structure Alike (m m' : Msg) : Prop where
  hdr : m'.hdr = m.hdr
  body : m'.body.length = 20
  payload : m'.payload = if m.hdr.plen = 0 then none else some m.payloadBytes
  same : m.hdr.len = cmdSize → m.body.length = 20 → m'.body = m.body

theorem alike_ofWhole (hm : m.Framed ioCfg) : Alike m (Msg.ofWhole ioCfg m.wire) := by
  have hdec : MsgHdr.decode m.wire = m.hdr := by
    have := hm.decode_wire []
    rwa [List.append_nil] at this
  have hlen := hm.length_hdrBytes
  have htake : m.wire.take m.hdr.len = m.hdrBytes := by
    rw [Msg.wire, ← hlen]
    exact List.take_left
  have hdrop : m.wire.drop m.hdr.len = m.payloadBytes := by
    rw [Msg.wire, ← hlen]
    exact List.drop_left
  have hge := hm.len_ge
  have hle : m.hdr.len ≤ cmdSize := hm.len_le
  refine ⟨?_, ?_, ?_, fun hc hb => ?_⟩
  · rw [Msg.hdr_ofWhole ioCfg hm.isMessage, hdec]
  · simp only [Msg.ofWhole, hdec, htake, Msg.ofBytes, List.length_append, List.length_drop,
      List.length_replicate, hlen]
    simp only [hdrSize, cmdSize, ioCfg] at hge hle ⊢
    omega
  · simp only [Msg.ofWhole, hdec, hdrop]
  · simp only [Msg.ofWhole, hdec, htake, ofBytes_hdrBytes hc hb]

/-- **What can be delivered can be delivered again.** -/
theorem Alike.deliverable (h : Alike m m') (hd : Deliverable ioCfg m) : Deliverable ioCfg m' where
  inBuffers := by
    have hle : m.hdr.len ≤ cmdSize := hd.sendable.len_le
    refine ⟨by rw [h.hdr, h.body]; exact hle, ?_⟩
    rw [h.hdr, h.payload, ← hd.framed.length_payloadBytes]
    split
    · rename_i hz
      rw [hz]
      exact Nat.zero_le _
    · exact le_rfl
  sendable := by
    refine ⟨by rw [h.hdr]; exact hd.sendable.len_ge, by rw [h.hdr]; exact hd.sendable.len_le,
      by rw [h.hdr]; exact hd.sendable.plen_le, ?_⟩
    rw [h.hdr, h.payload]
    split
    · rename_i hz
      exact iff_of_true rfl hz
    · rename_i hz
      exact iff_of_false (by simp) hz
  stays_open := by rw [h.hdr]; exact hd.stays_open

/-- **A command arrives** as one that can be served. -/
theorem Alike.servable (h : Alike m m') (hs : Servable m) : Servable m' where
  toDeliverable := h.deliverable hs.toDeliverable
  read e := by
    rw [h.hdr] at e
    obtain ⟨offset, len, hcmd, hlen⟩ := hs.read e
    exact ⟨offset, len, hcmd.of_body (by rw [h.hdr]) (h.same hcmd.msglen hcmd.body), hlen⟩

end Splitter

end VmwareProto
