import VmwareProto.Mpp.Receive
import VmwareProto.Rpc.Bounds
/-!
# Where the two endpoints store what they receive

The VMkernel endpoint has the same check on the same two sizes, as an
assertion, and on top of it takes the length of the rest of the header in
unsigned arithmetic, so that a header which claims less than itself asks
for almost 2^64 bytes. Payloads are safe on both sides.
-/

namespace VmwareProto

namespace Mpp

variable {cfg : RecvCfg} {S : Socket} {bs : List Byte}

theorem RecvCfg.msgBuf_eq (cfg : RecvCfg) : cfg.msgBuf = cfg.msgsz + hdrOffset := by
  simp only [RecvCfg.msgBuf, hdrOffset]; omega

theorem stored_recvPayload (h : MsgHdr) (st cs : List Byte) :
    (recvPayload S h st cs).stored = st := by
  unfold recvPayload
  split <;> try split
  all_goals rfl

theorem payload_recvPayload {h : MsgHdr} {st cs p : List Byte}
    (hp : (recvPayload S h st cs).payload = some p) : p.length ≤ payloadMax := by
  unfold recvPayload at hp
  split at hp
  · split at hp
    · cases hp
    · rename_i hle
      obtain rfl := Option.some.inj hp
      rw [Socket.socketRead_small (by simp only [payloadMax] at hle; omega), List.length_take]
      omega
  · cases hp

/-- **The payload fits its buffer**, always. -/
theorem rpcRecv_payload_le {p : List Byte} (hp : (rpcRecv cfg S bs).payload = some p) :
    p.length ≤ payloadMax := by
  simp only [rpcRecv] at hp
  split at hp
  · cases hp
  · split at hp
    · cases hp
    · split at hp
      · cases hp
      · exact payload_recvPayload hp

/-- What may arrive without being stored beyond the message buffer: too
few bytes to get there; a header within `msgsz` or one the assertion
rejects, if it is not shorter than itself; and a shorter one only on a
socket that refuses the length that results. -/
def Fits (cfg : RecvCfg) (S : Socket) (bs : List Byte) : Prop :=
  bs.length ≤ cfg.msgsz ∨
    (hdrSize ≤ (MsgHdr.decode bs).len ∧
      ((MsgHdr.decode bs).len ≤ cfg.msgsz ∨ cfg.msgBuf < (MsgHdr.decode bs).len)) ∨
    ((MsgHdr.decode bs).len < hdrSize ∧ S.unsigned = false)

/-- The header bytes a call stores, once the bare header is complete and
accepted. -/
theorem stored_rpcRecv (h32 : hdrSize ≤ bs.length) (hacc : (MsgHdr.decode bs).len ≤ cfg.msgBuf) :
    (rpcRecv cfg S bs).stored =
      bs.take hdrSize ++ S.socketRead (bodySize (MsgHdr.decode bs)) (bs.drop hdrSize) := by
  have hst : S.socketRead hdrSize bs = bs.take hdrSize := Socket.socketRead_small (by decide)
  simp only [rpcRecv, hst, MsgHdr.decode_take]
  rw [if_neg (by simp only [List.length_take]; omega), if_neg (by omega)]
  split
  · rfl
  · exact stored_recvPayload _ _ _

/-- **The message buffer is respected exactly when** what arrives fits. -/
theorem rpcRecv_in_bounds_iff :
    hdrOffset + (rpcRecv cfg S bs).stored.length ≤ cfg.msgBuf ↔ Fits cfg S bs := by
  have hcfg := cfg.hdr_le
  have hmax := cfg.le_max
  have hst : S.socketRead hdrSize bs = bs.take hdrSize := Socket.socketRead_small (by decide)
  have hlen := (MsgHdr.decode bs).msglen.isLt
  rw [cfg.msgBuf_eq]
  by_cases h32 : bs.length < hdrSize
  · -- the bare header does not arrive
    have : (rpcRecv cfg S bs).stored = bs.take hdrSize := by
      simp only [rpcRecv, hst]
      rw [if_pos (by simp only [List.length_take]; omega)]
    rw [this, List.length_take, Fits]
    omega
  · by_cases hacc : cfg.msgBuf < (MsgHdr.decode bs).len
    · have : (rpcRecv cfg S bs).stored = bs.take hdrSize := by
        simp only [rpcRecv, hst, MsgHdr.decode_take]
        rw [if_neg (by simp only [List.length_take]; omega), if_pos hacc]
      rw [this, List.length_take, Fits]
      rw [cfg.msgBuf_eq] at hacc ⊢
      omega
    · rw [stored_rpcRecv (by omega) (by omega), List.length_append, List.length_take, Fits]
      rw [cfg.msgBuf_eq] at hacc ⊢
      by_cases hge : hdrSize ≤ (MsgHdr.decode bs).len
      · have hr : bodySize (MsgHdr.decode bs) = (MsgHdr.decode bs).len - hdrSize := by
          simp only [bodySize, hdrSize, MsgHdr.len] at hge ⊢
          omega
        rw [hr, Socket.socketRead_small (by simp only [MsgHdr.len]; omega), List.length_take,
          List.length_drop]
        omega
      · have hr : bodySize (MsgHdr.decode bs) = 2 ^ 64 - (hdrSize - (MsgHdr.decode bs).len) := by
          simp only [bodySize, hdrSize] at hge ⊢
          omega
        rw [hr]
        cases hu : S.unsigned with
        | false =>
            rw [Socket.socketRead_refused (by omega) (by simp only [hdrSize]; omega) hu]
            simp only [List.length_nil, and_true]
            omega
        | true =>
            have hup := Socket.readLoop_length_le (S := S) ((bs.drop hdrSize).length + 1)
              (2 ^ 64 - (hdrSize - (MsgHdr.decode bs).len)) (bs.drop hdrSize)
            have hlow := Socket.readLoop_wrapped (S := S) hu ((bs.drop hdrSize).length + 1)
              (hdrSize - (MsgHdr.decode bs).len) (bs.drop hdrSize) (by omega) (by omega)
            simp only [Socket.socketRead, Bool.true_eq_false, and_false, or_false]
            simp only [hdrSize, List.length_drop] at hup hlow hge h32 hcfg ⊢
            omega

/-- **Both endpoints**, for every channel and every byte string a peer
sends: the header bytes stay inside the message buffer exactly when what
arrives fits, and the payload bytes always stay inside the data buffer. -/
theorem received_in_bounds_iff (rcfg : Rpc.RecvCfg) (cfg : RecvCfg) (S : Socket)
    (bs : List Byte) :
    ((∀ σ, (Rpc.receiveSystem rcfg bs).Reachable σ →
        Rpc.hdrOffset + σ.recv.stored.length ≤ rcfg.msgBuf) ↔ Rpc.Fits rcfg bs) ∧
    (∀ σ, (Rpc.receiveSystem rcfg bs).Reachable σ →
        ∀ p, σ.recv.payload = some p → p.length ≤ rcfg.dataBuf) ∧
    (hdrOffset + (rpcRecv cfg S bs).stored.length ≤ cfg.msgBuf ↔ Fits cfg S bs) ∧
    ∀ p, (rpcRecv cfg S bs).payload = some p → p.length ≤ payloadMax :=
  ⟨Rpc.receive_in_bounds_iff, fun _ hr _ hp => (Rpc.receive_ok hr).recv.payload_le hp,
    rpcRecv_in_bounds_iff, fun _ hp => rpcRecv_payload_le hp⟩

/-- The channel iosplitter opens takes headers of 32 bytes. One that
claims 40, and is sent in full, is stored beyond the end of the buffer. -/
theorem received_overrun : ¬ ∀ σ,
    (Rpc.receiveSystem ⟨32, 1024 * 1024, by decide⟩
      ((⟨7, 0x211, 40, 0, 0⟩ : Rpc.MsgHdr).encode ++ List.replicate 28 0)).Reachable σ →
    Rpc.hdrOffset + σ.recv.stored.length ≤ Rpc.RecvCfg.msgBuf ⟨32, 1024 * 1024, by decide⟩ := by
  intro h
  have hfit : ¬ Rpc.Fits ⟨32, 1024 * 1024, by decide⟩
      ((⟨7, 0x211, 40, 0, 0⟩ : Rpc.MsgHdr).encode ++ List.replicate 28 0) := by
    rw [Rpc.Fits, Rpc.MsgHdr.decode_encode]
    decide
  obtain ⟨σ, hr, hlt⟩ := Rpc.overrun_of_not_fits hfit
  have := h σ hr
  omega

end Mpp

end VmwareProto
