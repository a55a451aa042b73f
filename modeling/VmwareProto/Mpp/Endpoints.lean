import VmwareProto.Mpp.Bounds
import VmwareProto.Mpp.Complete
import VmwareProto.Mpp.Wire
import VmwareProto.Splitter.Commands
/-!
# The VMkernel endpoint against iosplitter

The two programs each have an `rpc_msghdr_t` of their own: 32 bytes with a
64-bit sequence id on one side, 12 bytes with a 32-bit one on the other.
Where the VMkernel has the high half of its sequence id, iosplitter has the
message's type and length, so each of the two misreads every message of the
other.
-/

namespace VmwareProto

namespace Mpp

namespace Frame

/-- What `rpc_async_request` sends for a `read_cmd_t` or `write_cmd_t`. -/
structure IsCmd (f : Frame) : Prop where
  framed : f.Framed mppCfg
  isReq : f.hdr.isReq = true
  msglen : f.hdr.len = cmdSize

/-- iosplitter's `_rpc_receive` has returned the request with the header
`h`, and has left the stream behind it. -/
structure SameRequest (f : Frame) (rest : List Byte) (σ : Rpc.RecvOn) (h : Rpc.MsgHdr) : Prop where
  returned : σ.recv.pc = .done h
  seqid : h.seqid.toNat = f.hdr.seqid.toNat
  isReq : h.isReq = f.hdr.isReq
  type : Splitter.getMsgType h = getMsgType f.hdr
  msglen : h.len = f.hdr.len
  payload : σ.recv.payload = f.received.payload
  offset : (Splitter.cmd (.ofBytes Splitter.ioCfg σ.recv.stored)).offset = f.offset
  len : (Splitter.cmd (.ofBytes Splitter.ioCfg σ.recv.stored)).len = f.len
  rest : σ.rest = rest

/-- Some run of `_rpc_receive` on the request makes of it what it was. -/
def Understood (f : Frame) (rest : List Byte) : Prop :=
  ∃ σ h, (Rpc.receiveSystem Splitter.ioCfg (f.wire ++ rest)).Reachable σ ∧ f.SameRequest rest σ h

end Frame

/-- `_rpc_recv` has returned iosplitter's response `m` and has taken its
bytes. -/
structure SameResponse (m : Rpc.Msg) (r : Received) : Prop where
  returned : r.result = .message
  seqid : (MsgHdr.decode r.stored).seqid.toNat = m.hdr.seqid.toNat
  isReq : (MsgHdr.decode r.stored).isReq = m.hdr.isReq
  type : getMsgType (MsgHdr.decode r.stored) = Splitter.getMsgType m.hdr
  msglen : (MsgHdr.decode r.stored).len = m.hdr.len
  payload : r.payload = m.received.payload
  taken : r.stored.length + (r.payload.getD []).length = m.wire.length

variable {f : Frame} {m : Rpc.Msg} {rest bs : List Byte} {cfg : RecvCfg} {S : Socket}

/-- **A request's type, where iosplitter reads it**, is the third quarter
of its sequence id. -/
theorem type_of_seqid (hf : f.Framed cfg) :
    (Rpc.MsgHdr.decode (f.wire ++ rest)).type =
      BitVec.ofNat 16 (f.hdr.seqid.toNat / 256 ^ 4 % 256 ^ 2) := by
  have h : ((f.wire ++ rest).drop 4).take 2 = leBytes 2 (f.hdr.seqid.toNat / 256 ^ 4) := by
    have hd := leBytes_drop 4 4 f.hdr.seqid.toNat
    have ht := leBytes_take (show 2 ≤ 4 by decide) (f.hdr.seqid.toNat / 256 ^ 4)
    simp only [Frame.wire, hf.hdrBytes_eq, MsgHdr.encode, List.append_assoc]
    rw [List.drop_append_of_le_length (by simp), hd, List.take_append_of_le_length (by simp), ht]
  rw [Rpc.MsgHdr.decode, h, leValue_leBytes]

/-- A message whose sequence id fits into 32 bits is no request to
iosplitter, and one whose sequence id does not is another's. -/
theorem not_understood (hf : f.IsCmd) : ¬f.Understood rest := by
  rintro ⟨σ, h, hr, hs⟩
  have hok := Rpc.receive_ok hr
  have hdone := hok.recv
  simp only [Rpc.Recv.Ok, hs.returned] at hdone
  have heq : h = Rpc.MsgHdr.decode (f.wire ++ rest) := by
    rw [hdone.1.eq, ← hok.split, Rpc.Recv.taken, List.append_assoc,
      Rpc.MsgHdr.decode_append hdone.1.size]
  have hlt : f.hdr.seqid.toNat < 256 ^ 4 := by
    rw [← hs.seqid]
    exact h.seqid.isLt
  have htype : h.type = 0 := by
    rw [heq, type_of_seqid hf.framed, Nat.div_eq_of_lt hlt]
    rfl
  have hreq := hs.isReq
  rw [hf.isReq, Rpc.MsgHdr.isReq, htype] at hreq
  exact absurd hreq (by decide)

/-- A call that returns a message has read its bare header off the front of
the stream. -/
theorem decode_stored_of_message (h : (rpcRecv cfg S bs).result = .message) :
    MsgHdr.decode (rpcRecv cfg S bs).stored = MsgHdr.decode bs := by
  have hst : S.socketRead hdrSize bs = bs.take hdrSize := Socket.socketRead_small (by decide)
  simp only [rpcRecv, hst] at h ⊢
  split at h
  · cases h
  · rename_i h₁
    rw [if_neg h₁]
    split at h
    · cases h
    · rename_i h₂
      rw [if_neg h₂]
      split at h
      · cases h
      · rename_i h₃
        have hsize : hdrSize ≤ (bs.take hdrSize).length := (not_ne_iff.1 h₁).ge
        rw [if_neg h₃, stored_recvPayload, MsgHdr.decode_append hsize, MsgHdr.decode_take]

/-- **A response's sequence id, where the VMkernel reads it**, has the
length of its header in its highest quarter. -/
theorem seqid_of_msglen (hm : m.Asserts) :
    (MsgHdr.decode (m.wire ++ rest)).seqid.toNat =
      m.hdr.seqid.toNat + 256 ^ 4 * m.hdr.type.toNat + 256 ^ 6 * m.hdr.len := by
  have hlen : Rpc.hdrSize ≤ m.hdr.len := hm.1
  have h : (m.wire ++ rest).take 8 =
      leBytes 4 m.hdr.seqid.toNat ++ leBytes 2 m.hdr.type.toNat ++ leBytes 2 m.hdr.msglen.toNat := by
    have h8 : (m.hdr.encode ++ m.body).take m.hdr.len =
        leBytes 4 m.hdr.seqid.toNat ++ leBytes 2 m.hdr.type.toNat ++ leBytes 2 m.hdr.msglen.toNat ++
        (leBytes 2 m.hdr.payloadlen.toNat ++ leBytes 2 m.hdr.status.toNat ++
          m.body.take (m.hdr.len - Rpc.hdrSize)) := by
      rw [List.take_append, m.hdr.length_encode,
        List.take_of_length_le (by rw [m.hdr.length_encode]; omega)]
      simp only [Rpc.MsgHdr.encode, List.append_assoc]
    rw [Rpc.Msg.wire, Rpc.Msg.hdrBytes, h8, List.append_assoc, List.append_assoc,
      List.take_append_of_le_length (by simp), List.take_of_length_le (by simp)]
  have hs := m.hdr.seqid.isLt
  have ht := m.hdr.type.isLt
  have hl := m.hdr.msglen.isLt
  rw [MsgHdr.decode, h]
  simp only [leValue_append, leValue_leBytes, length_leBytes, List.length_append,
    BitVec.toNat_ofNat, Rpc.MsgHdr.len]
  omega

/-- **No response is recognised.** -/
theorem not_sameResponse (hm : m.Asserts) :
    ¬SameResponse m (rpcRecv cfg S (m.wire ++ rest)) := by
  intro h
  have hs := h.seqid
  have hlen : Rpc.hdrSize ≤ m.hdr.len := hm.1
  have hlt := m.hdr.seqid.isLt
  rw [decode_stored_of_message h.returned, seqid_of_msglen hm] at hs
  simp only [Rpc.hdrSize] at hlen
  omega

/-- **The two endpoints never understand each other**: there is no request
that iosplitter receives as the VMkernel sent it, and no response that the
VMkernel receives as iosplitter sent it. -/
theorem endpoints_disagree (cfg : RecvCfg) (S : Socket) :
    (∀ f : Frame, f.IsCmd → ∀ rest, ¬f.Understood rest) ∧
    ∀ m : Rpc.Msg, m.Asserts → m.hdr.isReq = false →
      ∀ rest, ¬SameResponse m (rpcRecv cfg S (m.wire ++ rest)) :=
  ⟨fun _ hf _ => not_understood hf, fun _ hm _ _ => not_sameResponse hm⟩

/-- The first request of a channel: a read of 4096 bytes at 8192. -/
def firstRead : Frame :=
  ⟨⟨1, 0x211, 48, 0, 0⟩, ⟨0, 0⟩, leBytes 8 8192 ++ leBytes 8 4096, none⟩

theorem firstRead_isCmd : firstRead.IsCmd :=
  ⟨⟨by decide, by decide, by decide, by decide, by decide, by decide⟩, by decide, by decide⟩

/-- iosplitter's answer to a write. -/
def firstAnswer : Rpc.Msg :=
  ⟨⟨1, 0x220, 32, 0, 0⟩, List.replicate 20 0, none, none, [], .response 0⟩

theorem endpoints_disagree_first :
    ¬firstRead.Understood [] ∧ ¬SameResponse firstAnswer (rpcRecv mppCfg .eager firstAnswer.wire) := by
  obtain ⟨h₁, h₂⟩ := endpoints_disagree mppCfg .eager
  refine ⟨h₁ firstRead firstRead_isCmd [], ?_⟩
  have := h₂ firstAnswer (by decide) (by decide) []
  rwa [List.append_nil] at this

/-- To iosplitter the first request has a header of no bytes. -/
theorem firstRead_misread :
    ¬((∀ f : Frame, f.IsCmd → ∀ rest, f.Understood rest) ∧
      ∀ (S : Socket) (m : Rpc.Msg), m.Asserts → m.hdr.isReq = false →
        ∀ rest, SameResponse m (rpcRecv mppCfg S (m.wire ++ rest))) :=
  fun h => not_understood firstRead_isCmd (h.1 firstRead firstRead_isCmd [])

end Mpp

end VmwareProto
