import VmwareProto.Mpp.Receive
/-!
# The wire format of the VMkernel RPC

`rpc_msghdr_t` of the VMkernel endpoint as an x86-64 compiler lays it out:
thirty-two bytes, ten of which are padding that goes on the wire with the
rest. A `Frame` is what of an `rpc_msg_t` is sent; `_rpc_recv` on its bytes,
and on a part of them, is what the other results rest on.
-/

namespace VmwareProto

namespace Mpp

/-- The bytes of `rpc_msghdr_t` that belong to no field: what the memory
held between `msglen` and `payloadlen`, and behind `status`. -/
structure HdrPad where
  mid : BitVec 32
  tail : BitVec 48
  deriving DecidableEq, Repr

namespace MsgHdr

/-- `RPC_ISREQ`. -/
def isReq (h : MsgHdr) : Bool := h.type &&& 1 != 0

/-- `RPC_SETREQ`. -/
def setReq (h : MsgHdr) : MsgHdr := { h with type := h.type ||| 1 }

/-- `RPC_SETRESP`. -/
def setResp (h : MsgHdr) : MsgHdr := { h with type := h.type &&& ~~~1 }

/-- `RPC_IS_CONNCLOSED`. -/
def isConnClosed (h : MsgHdr) : Bool := h.type &&& 2 != 0

/-- `RPC_SET_CONNCLOSED`. -/
def setConnClosed (h : MsgHdr) : MsgHdr := { h with type := h.type ||| 2 }

@[simp] theorem isReq_setReq (h : MsgHdr) : h.setReq.isReq = true := by
  simp only [isReq, setReq, bne_iff_ne]
  intro e
  have := congrArg (·.getLsbD 0) e
  simp at this

@[simp] theorem isReq_setResp (h : MsgHdr) : h.setResp.isReq = false := by
  simp only [isReq, setResp, bne_eq_false_iff_eq]
  rw [BitVec.and_assoc]
  exact BitVec.and_zero

@[simp] theorem len_setReq (h : MsgHdr) : h.setReq.len = h.len := rfl
@[simp] theorem plen_setReq (h : MsgHdr) : h.setReq.plen = h.plen := rfl
@[simp] theorem seqid_setReq (h : MsgHdr) : h.setReq.seqid = h.seqid := rfl

/-- The bytes of the structure. -/
def encode (h : MsgHdr) (p : HdrPad) : List Byte :=
  leBytes 8 h.seqid.toNat ++ leBytes 2 h.type.toNat ++ leBytes 2 h.msglen.toNat ++
    leBytes 4 p.mid.toNat ++ leBytes 8 h.payloadlen.toNat ++ leBytes 2 h.status.toNat ++
    leBytes 6 p.tail.toNat

@[simp] theorem length_encode (h : MsgHdr) (p : HdrPad) : (h.encode p).length = hdrSize := by
  simp [encode, hdrSize]

/-- **The header survives the wire**, whatever lies in its padding and
whatever follows it. -/
theorem decode_encode (h : MsgHdr) (p : HdrPad) (rest : List Byte) :
    decode (h.encode p ++ rest) = h := by
  obtain ⟨s, t, m, pl, st⟩ := h
  simp only [encode, decode, mk.injEq]
  refine ⟨?_, ?_, ?_, ?_, ?_⟩
  · simpa [leBytes] using ofNat_leValue_leBytes (n := 8) (by decide) s
  · simpa [leBytes] using ofNat_leValue_leBytes (n := 2) (by decide) t
  · simpa [leBytes] using ofNat_leValue_leBytes (n := 2) (by decide) m
  · simpa [leBytes] using ofNat_leValue_leBytes (n := 8) (by decide) pl
  · simpa [leBytes] using ofNat_leValue_leBytes (n := 2) (by decide) st

theorem decode_append {bs cs : List Byte} (h : hdrSize ≤ bs.length) :
    decode (bs ++ cs) = decode bs := by
  rw [← decode_take (bs ++ cs), List.take_append_of_le_length h, decode_take]

end MsgHdr

/-- `sizeof(read_cmd_t)` of the VMkernel endpoint, which is also
`sizeof(rpc_maxmsg_t)`. -/
def cmdSize : ℕ := 48

/-- The sizes the plugin gives to `rpc_chan_init`. -/
def mppCfg : RecvCfg := ⟨cmdSize, by decide, by decide⟩

/-- A socket that returns all there is. -/
def Socket.eager : Socket := ⟨id, fun _ h => h, fun _ => Nat.le_refl _, false⟩

/-- How many bytes a call took. -/
def Received.taken (r : Received) : ℕ := r.stored.length + (r.payload.getD []).length

/-- What of an `rpc_msg_t` can be sent: its memory from `hdr` on, and its
payload buffer. -/
structure Frame where
  hdr : MsgHdr
  pad : HdrPad
  /-- what the buffer holds behind the bare header -/
  body : List Byte
  payload : Option (List Byte)
  deriving DecidableEq, Repr

namespace Frame

/-- The `msglen` bytes from `&msgp->hdr` on. -/
def hdrBytes (f : Frame) : List Byte := (f.hdr.encode f.pad ++ f.body).take f.hdr.len

/-- The client's part of the header. -/
def clientBytes (f : Frame) : List Byte := f.body.take (f.hdr.len - hdrSize)

/-- The first `payloadlen` bytes of the payload buffer. -/
def payloadBytes (f : Frame) : List Byte := (f.payload.getD []).take f.hdr.plen

/-- The message on the wire. -/
def wire (f : Frame) : List Byte := f.hdrBytes ++ f.payloadBytes

/-- `offset` of a `read_cmd_t` or `write_cmd_t`. -/
def offset (f : Frame) : BitVec 64 := BitVec.ofNat 64 (leValue (f.body.take 8))

/-- `len` of a `read_cmd_t` or `write_cmd_t`. -/
def len (f : Frame) : BitVec 64 := BitVec.ofNat 64 (leValue ((f.body.drop 8).take 8))

/-- A message that its callers may send: the header lies within the message
buffer and covers itself, there is a payload exactly when its length is not
zero, and it lies within a payload buffer. -/
structure Framed (cfg : RecvCfg) (f : Frame) : Prop where
  len_ge : hdrSize ≤ f.hdr.len
  len_le : f.hdr.len ≤ cfg.msgsz
  body : f.hdr.len ≤ hdrSize + f.body.length
  payload : f.payload = none ↔ f.hdr.plen = 0
  plen_le : f.hdr.plen ≤ payloadMax
  inBuffer : f.hdr.plen ≤ (f.payload.getD []).length

variable {cfg : RecvCfg} {f : Frame}

theorem Framed.length_hdrBytes (hf : f.Framed cfg) : f.hdrBytes.length = f.hdr.len := by
  have := hf.body
  simp only [hdrBytes, List.length_take, List.length_append, MsgHdr.length_encode]
  omega

theorem Framed.length_payloadBytes (hf : f.Framed cfg) : f.payloadBytes.length = f.hdr.plen := by
  have := hf.inBuffer
  simp only [payloadBytes, List.length_take]
  omega

theorem Framed.length_wire (hf : f.Framed cfg) : f.wire.length = f.hdr.len + f.hdr.plen := by
  rw [wire, List.length_append, hf.length_hdrBytes, hf.length_payloadBytes]

theorem Framed.length_clientBytes (hf : f.Framed cfg) :
    f.clientBytes.length = f.hdr.len - hdrSize := by
  have := hf.body
  rw [clientBytes, List.length_take]
  omega

theorem Framed.hdrBytes_eq (hf : f.Framed cfg) :
    f.hdrBytes = f.hdr.encode f.pad ++ f.clientBytes := by
  have hsz := f.hdr.length_encode f.pad
  have hle := hf.len_ge
  rw [hdrBytes, List.take_append, hsz, List.take_of_length_le (by omega), clientBytes]

/-- What `_rpc_recv` makes of a message. -/
def received (f : Frame) : Received :=
  ⟨f.hdrBytes, if f.hdr.plen = 0 then none else some f.payloadBytes, .message⟩

end Frame

/-- What `_rpc_recv` makes of the first `k` bytes of a message when no more
come. Once a payload buffer was obtained there is no way out but the
assertion of `bufpool_put`. -/
def Frame.cut (f : Frame) (k : ℕ) : Received :=
  if k < f.hdr.len then ⟨f.hdrBytes.take k, none, .closed⟩
  else ⟨f.hdrBytes, some (f.payloadBytes.take (k - f.hdr.len)), .fault⟩

variable {cfg : RecvCfg} {S : Socket} {f : Frame} {rest : List Byte}

theorem Frame.Framed.le_msgBuf (hf : f.Framed cfg) : f.hdr.len ≤ cfg.msgBuf := by
  have := hf.len_le
  simp only [RecvCfg.msgBuf]
  omega

/-- The rest of an accepted header is what it says. -/
theorem bodySize_of_le {h : MsgHdr} (hle : hdrSize ≤ h.len) : bodySize h = h.len - hdrSize := by
  have := h.msglen.isLt
  simp only [bodySize, hdrSize, MsgHdr.len] at hle ⊢
  omega

/-- **The call once the bare header of a message is in**, on what arrives
behind it. -/
theorem rpcRecv_of_header (hf : f.Framed cfg) (bs : List Byte) :
    rpcRecv cfg S (f.hdr.encode f.pad ++ bs) =
      if bs.length < f.hdr.len - hdrSize then ⟨f.hdr.encode f.pad ++ bs, none, .closed⟩
      else recvPayload S f.hdr (f.hdr.encode f.pad ++ bs.take (f.hdr.len - hdrSize))
        (bs.drop (f.hdr.len - hdrSize)) := by
  have hsz := f.hdr.length_encode f.pad
  have h₁ : S.socketRead hdrSize (f.hdr.encode f.pad ++ bs) = f.hdr.encode f.pad := by
    rw [Socket.socketRead_small (by decide), ← hsz, List.take_left]
  have hdec : MsgHdr.decode (f.hdr.encode f.pad) = f.hdr := by
    rw [← List.append_nil (f.hdr.encode f.pad), MsgHdr.decode_encode]
  have hlen := f.hdr.msglen.isLt
  have hbuf := hf.le_msgBuf
  have hbody : S.socketRead (f.hdr.len - hdrSize) bs = bs.take (f.hdr.len - hdrSize) :=
    Socket.socketRead_small (by simp only [MsgHdr.len]; omega)
  have hdrop : (f.hdr.encode f.pad ++ bs).drop hdrSize = bs := by rw [← hsz, List.drop_left]
  simp only [rpcRecv, h₁, hdec, hsz, ne_eq, not_true_eq_false, if_false, bodySize_of_le hf.len_ge,
    hdrop, hbody]
  rw [if_neg (by omega)]
  split
  · rename_i hlt
    rw [List.length_take] at hlt
    rw [if_pos (by omega), List.take_of_length_le (by omega)]
  · rename_i hge
    rw [List.length_take] at hge
    rw [if_neg (by omega), ← List.drop_drop, hdrop]

/-- **A whole message is received as it was sent**, and what follows it is
left there. -/
theorem rpcRecv_wire (hf : f.Framed cfg) : rpcRecv cfg S (f.wire ++ rest) = f.received := by
  have hplen := hf.length_payloadBytes
  have hcl := hf.length_clientBytes
  have hle := hf.len_ge
  have hmax := hf.plen_le
  rw [Frame.wire, hf.hdrBytes_eq, List.append_assoc, List.append_assoc, rpcRecv_of_header hf,
    if_neg (by rw [List.length_append]; omega), ← hcl, List.take_left, List.drop_left,
    ← hf.hdrBytes_eq, Frame.received]
  unfold recvPayload
  split
  · rename_i hne
    have hread : S.socketRead f.hdr.plen (f.payloadBytes ++ rest) = f.payloadBytes := by
      rw [Socket.socketRead_small (by simp only [payloadMax] at hmax; omega), ← hplen, List.take_left]
    simp only [hread, hplen]
    rw [if_neg (by omega), if_neg (by simp)]
  · rename_i h0
    rw [if_pos (by omega)]

/-- **A message that is cut off.** -/
theorem rpcRecv_cut (hf : f.Framed cfg) {k : ℕ} (hk : k < f.wire.length) :
    rpcRecv cfg S (f.wire.take k) = f.cut k := by
  have hlen := hf.length_hdrBytes
  have hplen := hf.length_payloadBytes
  have hcl := hf.length_clientBytes
  have hle := hf.len_ge
  have hmax := hf.plen_le
  have hsz := f.hdr.length_encode f.pad
  rw [hf.length_wire] at hk
  rw [Frame.cut, Frame.wire]
  by_cases hhdr : k < hdrSize
  · -- the bare header is not complete
    rw [if_pos (by omega), List.take_append_of_le_length (by omega), rpcRecv,
      Socket.socketRead_small (by decide), List.take_take]
    simp only [Nat.min_eq_right (Nat.le_of_lt hhdr)]
    rw [if_pos (by rw [List.length_take]; omega)]
  · have htake : (f.hdrBytes ++ f.payloadBytes).take k =
        f.hdr.encode f.pad ++ (f.clientBytes ++ f.payloadBytes).take (k - hdrSize) := by
      rw [hf.hdrBytes_eq, List.append_assoc, List.take_append, hsz, List.take_of_length_le (by omega)]
    rw [htake, rpcRecv_of_header hf]
    by_cases hcli : k < f.hdr.len
    · -- the client part is not
      rw [if_pos (by simp only [List.length_take, List.length_append]; omega), if_pos hcli,
        List.take_append_of_le_length (by omega), hf.hdrBytes_eq, List.take_append, hsz,
        List.take_of_length_le (by omega : (f.hdr.encode f.pad).length ≤ k)]
    · -- the payload is not
      have hcount : k - hdrSize - (f.hdr.len - hdrSize) = k - f.hdr.len := by omega
      have hfront : ((f.clientBytes ++ f.payloadBytes).take (k - hdrSize)).take
          (f.hdr.len - hdrSize) = f.clientBytes := by
        rw [List.take_take, Nat.min_eq_left (by omega), ← hcl, List.take_left]
      have hback : ((f.clientBytes ++ f.payloadBytes).take (k - hdrSize)).drop
          (f.hdr.len - hdrSize) = f.payloadBytes.take (k - f.hdr.len) := by
        rw [List.drop_take, hcount, ← hcl, List.drop_left]
      have hread : S.socketRead f.hdr.plen (f.payloadBytes.take (k - f.hdr.len)) =
          f.payloadBytes.take (k - f.hdr.len) := by
        rw [Socket.socketRead_small (by simp only [payloadMax] at hmax; omega), List.take_take,
          Nat.min_eq_right (by omega)]
      rw [if_neg (by simp only [List.length_take, List.length_append]; omega), if_neg hcli, hfront,
        hback, ← hf.hdrBytes_eq, recvPayload, if_pos (by omega), if_neg (by omega)]
      simp only [hread, List.length_take]
      rw [if_pos (by omega)]

end Mpp

end VmwareProto
