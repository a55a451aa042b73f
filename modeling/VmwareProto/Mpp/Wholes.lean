import VmwareProto.Library.Wholes
import VmwareProto.Mpp.Framing
/-!
# Whole messages

What of a byte stream are whole messages, and what `_rpc_recv` makes of a
stream at whose boundaries there are headers of responses: the first
message if it is whole, and nothing if it is not.
-/

namespace VmwareProto

namespace Mpp

variable {cfg : Cfg} {rcfg : RecvCfg} {S : Socket} {σ : State} {f : Frame} {fs : List Frame}
  {bs cs w p rest : List Byte} {ws : List (List Byte)}

/-- A message's length by its header; one that does not cover itself is none. -/
def wireSize (bs : List Byte) : ℕ :=
  if hdrSize ≤ (MsgHdr.decode bs).len then (MsgHdr.decode bs).len + (MsgHdr.decode bs).plen else 0

/-- How messages tell their length. -/
def rpcFormat : Format Byte :=
  ⟨hdrSize, by decide, wireSize, fun _ _ h => by simp only [wireSize, MsgHdr.decode_append h]⟩

theorem isWhole_iff : rpcFormat.IsWhole w ↔ hdrSize ≤ (MsgHdr.decode w).len ∧
    w.length = (MsgHdr.decode w).len + (MsgHdr.decode w).plen := by
  have hpos : 0 < hdrSize := by decide
  constructor
  · rintro ⟨hle, hlen⟩
    simp only [rpcFormat, wireSize] at hle hlen
    split at hle
    · rename_i h
      rw [if_pos h] at hlen
      exact ⟨h, hlen⟩
    · omega
  · rintro ⟨h, hlen⟩
    have hsize : rpcFormat.size w = (MsgHdr.decode w).len + (MsgHdr.decode w).plen := if_pos h
    exact ⟨by rw [hsize]; exact Nat.le_add_right_of_le h, by rw [hsize, hlen]⟩

theorem Frame.Framed.decode_wire (hf : f.Framed rcfg) (rest : List Byte) :
    MsgHdr.decode (f.wire ++ rest) = f.hdr := by
  rw [Frame.wire, hf.hdrBytes_eq, List.append_assoc, List.append_assoc, MsgHdr.decode_encode]

/-- A message that may be sent is whole on the wire. -/
theorem Frame.Framed.isWhole (hf : f.Framed rcfg) : rpcFormat.IsWhole f.wire := by
  have hdec := hf.decode_wire []
  rw [List.append_nil] at hdec
  rw [isWhole_iff, hdec]
  exact ⟨hf.len_ge, hf.length_wire⟩

/-- The headers that can be read off a stream: those of its whole messages,
and that of the message it breaks off in. -/
def headers (bs : List Byte) : List MsgHdr :=
  (rpcFormat.wholes bs).map MsgHdr.decode ++
    let p := bs.drop (rpcFormat.wholes bs).flatten.length
    if hdrSize ≤ p.length then [MsgHdr.decode p] else []

/-- The stream behind its first messages. -/
theorem headers_flatten (h : ∀ w ∈ ws, rpcFormat.IsWhole w) (rest : List Byte) :
    headers (ws.flatten ++ rest) = ws.map MsgHdr.decode ++ headers rest := by
  simp only [headers, Format.wholes_flatten h, List.map_append, List.append_assoc,
    List.flatten_append, List.length_append]
  congr 2
  rw [← List.drop_drop, List.drop_left]

/-- A header whose message a channel of these sizes can take. -/
structure MsgHdr.Fits (rcfg : RecvCfg) (h : MsgHdr) : Prop where
  len_ge : hdrSize ≤ h.len
  len_le : h.len ≤ rcfg.msgsz
  plen_le : h.plen ≤ payloadMax

instance (h : MsgHdr) : Decidable (h.Fits rcfg) :=
  decidable_of_iff (hdrSize ≤ h.len ∧ h.len ≤ rcfg.msgsz ∧ h.plen ≤ payloadMax)
    ⟨fun h => ⟨h.1, h.2.1, h.2.2⟩, fun h => ⟨h.1, h.2, h.3⟩⟩

/-- **The call once a header is in.** -/
theorem rpcRecv_of_fits (hlen : hdrSize ≤ bs.length) (hh : (MsgHdr.decode bs).Fits rcfg) :
    rpcRecv rcfg S bs =
      if bs.length < (MsgHdr.decode bs).len then ⟨bs, none, .closed⟩
      else recvPayload S (MsgHdr.decode bs) (bs.take (MsgHdr.decode bs).len)
        (bs.drop (MsgHdr.decode bs).len) := by
  have hge := hh.len_ge
  have hle := hh.len_le
  have hlt := (MsgHdr.decode bs).msglen.isLt
  have hst : S.socketRead hdrSize bs = bs.take hdrSize := Socket.socketRead_small (by decide)
  have hsize : (bs.take hdrSize).length = hdrSize := by
    rw [List.length_take]
    omega
  have hbuf : (MsgHdr.decode bs).len ≤ rcfg.msgBuf := by
    simp only [RecvCfg.msgBuf]
    omega
  have hbody : S.socketRead ((MsgHdr.decode bs).len - hdrSize) (bs.drop hdrSize) =
      (bs.drop hdrSize).take ((MsgHdr.decode bs).len - hdrSize) :=
    Socket.socketRead_small (by simp only [MsgHdr.len] at hge ⊢; omega)
  have hsum : hdrSize + ((MsgHdr.decode bs).len - hdrSize) = (MsgHdr.decode bs).len := by omega
  have hfront : bs.take hdrSize ++ (bs.drop hdrSize).take ((MsgHdr.decode bs).len - hdrSize) =
      bs.take (MsgHdr.decode bs).len := by rw [← List.take_add, hsum]
  simp only [rpcRecv, hst, hsize, ne_eq, not_true_eq_false, if_false, MsgHdr.decode_take,
    bodySize_of_le hge, hbody, hfront, hsum]
  rw [if_neg (by omega)]
  by_cases hcut : bs.length < (MsgHdr.decode bs).len
  · rw [if_pos hcut, if_pos (by simp only [List.length_take, List.length_drop]; omega),
      List.take_of_length_le (by omega)]
  · rw [if_neg hcut, if_neg (by simp only [List.length_take, List.length_drop]; omega)]

/-- What `_rpc_recv` makes of a whole message. -/
def receivedWire (w : List Byte) : Received where
  stored := w.take (MsgHdr.decode w).len
  payload := if (MsgHdr.decode w).plen = 0 then none else some (w.drop (MsgHdr.decode w).len)
  result := .message

/-- **The first message of a stream**, if it is whole. -/
theorem rpcRecv_whole (hw : rpcFormat.IsWhole w) (hh : (MsgHdr.decode w).Fits rcfg) :
    rpcRecv rcfg S (w ++ rest) = receivedWire w := by
  obtain ⟨hge, hlen⟩ := isWhole_iff.1 hw
  have hdec : MsgHdr.decode (w ++ rest) = MsgHdr.decode w := MsgHdr.decode_append (by omega)
  have hplen := hh.plen_le
  have htake : (w ++ rest).take (MsgHdr.decode w).len = w.take (MsgHdr.decode w).len :=
    List.take_append_of_le_length (by omega)
  have hdrop : (w ++ rest).drop (MsgHdr.decode w).len = w.drop (MsgHdr.decode w).len ++ rest :=
    List.drop_append_of_le_length (by omega)
  rw [rpcRecv_of_fits (by rw [List.length_append]; omega) (by rwa [hdec]), hdec,
    if_neg (by rw [List.length_append]; omega), htake, hdrop, recvPayload, receivedWire]
  by_cases hz : (MsgHdr.decode w).plen = 0
  · rw [if_neg (by simp [hz]), if_pos hz]
  · have hback : (w.drop (MsgHdr.decode w).len).length = (MsgHdr.decode w).plen := by
      rw [List.length_drop]
      omega
    have hread : S.socketRead (MsgHdr.decode w).plen (w.drop (MsgHdr.decode w).len ++ rest) =
        w.drop (MsgHdr.decode w).len := by
      rw [Socket.socketRead_small (by simp only [payloadMax] at hplen; omega), ← hback, List.take_left]
    rw [if_pos hz, if_neg (by omega), if_neg hz]
    simp only [hread, hback]
    rw [if_neg (by omega)]

theorem taken_receivedWire (hw : rpcFormat.IsWhole w) : (receivedWire w).taken = w.length := by
  obtain ⟨-, hlen⟩ := isWhole_iff.1 hw
  simp only [Received.taken, receivedWire, List.length_take]
  split
  · simp only [Option.getD_none, List.length_nil]
    omega
  · simp only [Option.getD_some, List.length_drop]
    omega

/-- **A stream that breaks off in its first message** has none. -/
theorem rpcRecv_part (hnone : rpcFormat.wholes bs = [])
    (hh : hdrSize ≤ bs.length → (MsgHdr.decode bs).Fits rcfg) :
    (rpcRecv rcfg S bs).result ≠ .message := by
  have hst : S.socketRead hdrSize bs = bs.take hdrSize := Socket.socketRead_small (by decide)
  by_cases hlen : hdrSize ≤ bs.length
  · have hfit := hh hlen
    have hge := hfit.len_ge
    have hple := hfit.plen_le
    -- otherwise its first bytes were a whole message
    have hshort : bs.length < (MsgHdr.decode bs).len + (MsgHdr.decode bs).plen := by
      by_contra hle
      have hdec : MsgHdr.decode (bs.take ((MsgHdr.decode bs).len + (MsgHdr.decode bs).plen)) =
          MsgHdr.decode bs := by
        conv_rhs => rw [← List.take_append_drop ((MsgHdr.decode bs).len + (MsgHdr.decode bs).plen) bs]
        rw [MsgHdr.decode_append]
        rw [List.length_take]
        omega
      have hw : rpcFormat.IsWhole (bs.take ((MsgHdr.decode bs).len + (MsgHdr.decode bs).plen)) := by
        rw [isWhole_iff, hdec, List.length_take]
        omega
      have := Format.wholes_append hw (bs.drop ((MsgHdr.decode bs).len + (MsgHdr.decode bs).plen))
      rw [List.take_append_drop, hnone] at this
      cases this
    rw [rpcRecv_of_fits hlen hfit]
    split
    · simp
    · rw [recvPayload, if_pos (by omega), if_neg (by omega)]
      have hread : S.socketRead (MsgHdr.decode bs).plen (bs.drop (MsgHdr.decode bs).len) =
          (bs.drop (MsgHdr.decode bs).len).take (MsgHdr.decode bs).plen :=
        Socket.socketRead_small (by simp only [payloadMax] at hple; omega)
      simp only [hread]
      rw [if_pos (by simp only [List.length_take, List.length_drop]; omega)]
      simp
  · rw [rpcRecv, hst]
    simp only
    rw [if_pos (by rw [List.length_take]; omega)]
    simp

end Mpp

end VmwareProto
