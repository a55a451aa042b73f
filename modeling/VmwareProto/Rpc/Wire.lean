import VmwareProto.Library.LittleEndian
/-!
# The wire format of the libtask RPC

`rpc_msghdr_t` as it lies in memory and on the wire: twelve bytes, then
the client's own part of the header up to `msglen`, then `payloadlen`
bytes of payload. `wholes` cuts off a byte stream the messages that are
whole.
-/

namespace VmwareProto

namespace Rpc

/-- `rpc_msghdr_t`. -/
structure MsgHdr where
  seqid : BitVec 32
  type : BitVec 16
  msglen : BitVec 16
  payloadlen : BitVec 16
  status : BitVec 16
  deriving DecidableEq, Repr

/-- `sizeof(rpc_msghdr_t)`. -/
def hdrSize : ℕ := 12

namespace MsgHdr

/-- The number of bytes of header the message claims. -/
def len (h : MsgHdr) : ℕ := h.msglen.toNat

/-- The number of bytes of payload the message claims. -/
def plen (h : MsgHdr) : ℕ := h.payloadlen.toNat

/-- `RPC_ISREQ`. -/
def isReq (h : MsgHdr) : Bool := h.type &&& 1 != 0

/-- `RPC_SETREQ`. -/
def setReq (h : MsgHdr) : MsgHdr := { h with type := h.type ||| 1 }

/-- `RPC_SETRESP`. -/
def setResp (h : MsgHdr) : MsgHdr := { h with type := h.type &&& ~~~1 }

/-- `RPC_IS_CONNCLOSED`. -/
def isConnClosed (h : MsgHdr) : Bool := h.type &&& 2 != 0

/-- `RPC_SET_CONNCLOSED`. -/
def setConnClosed (h : MsgHdr) : MsgHdr := { h with type := h.type ||| 2 }

/-- The bytes of the structure. -/
def encode (h : MsgHdr) : List Byte :=
  leBytes 4 h.seqid.toNat ++ leBytes 2 h.type.toNat ++ leBytes 2 h.msglen.toNat ++
    leBytes 2 h.payloadlen.toNat ++ leBytes 2 h.status.toNat

/-- The structure over a buffer's first bytes; a zeroed buffer beyond what
was stored. -/
def decode (bs : List Byte) : MsgHdr where
  seqid := BitVec.ofNat 32 (leValue (bs.take 4))
  type := BitVec.ofNat 16 (leValue ((bs.drop 4).take 2))
  msglen := BitVec.ofNat 16 (leValue ((bs.drop 6).take 2))
  payloadlen := BitVec.ofNat 16 (leValue ((bs.drop 8).take 2))
  status := BitVec.ofNat 16 (leValue ((bs.drop 10).take 2))

@[simp] theorem length_encode (h : MsgHdr) : h.encode.length = hdrSize := by
  simp [encode, hdrSize]

/-- **The header survives the wire**, whatever follows it. -/
theorem decode_encode (h : MsgHdr) (rest : List Byte) : decode (h.encode ++ rest) = h := by
  obtain ⟨s, t, m, p, st⟩ := h
  simp only [encode, decode, mk.injEq]
  refine ⟨?_, ?_, ?_, ?_, ?_⟩
  · simpa [leBytes] using ofNat_leValue_leBytes (n := 4) (by decide) s
  · simpa [leBytes] using ofNat_leValue_leBytes (n := 2) (by decide) t
  · simpa [leBytes] using ofNat_leValue_leBytes (n := 2) (by decide) m
  · simpa [leBytes] using ofNat_leValue_leBytes (n := 2) (by decide) p
  · simpa [leBytes] using ofNat_leValue_leBytes (n := 2) (by decide) st

/-- The header is read from the first twelve bytes alone. -/
theorem decode_take {bs : List Byte} {n : ℕ} (hn : hdrSize ≤ n) :
    decode (bs.take n) = decode bs := by
  simp only [hdrSize] at hn
  have h4 : min 4 n = 4 := by omega
  simp only [decode, List.take_take, List.drop_take, h4]
  congr 1 <;> congr 3 <;> omega

theorem decode_append {bs cs : List Byte} (h : hdrSize ≤ bs.length) :
    decode (bs ++ cs) = decode bs := by
  have ht : decode ((bs ++ cs).take bs.length) = decode (bs ++ cs) := decode_take h
  rw [← ht, List.take_left]

@[simp] theorem isReq_setReq (h : MsgHdr) : h.setReq.isReq = true := by
  simp only [isReq, setReq, bne_iff_ne]
  intro e
  have := congrArg (·.getLsbD 0) e
  simp at this

@[simp] theorem isReq_setResp (h : MsgHdr) : h.setResp.isReq = false := by
  simp only [isReq, setResp, bne_eq_false_iff_eq]
  rw [BitVec.and_assoc]
  exact BitVec.and_zero

@[simp] theorem isConnClosed_setConnClosed (h : MsgHdr) : h.setConnClosed.isConnClosed = true := by
  simp only [isConnClosed, setConnClosed, bne_iff_ne]
  intro e
  have := congrArg (·.getLsbD 1) e
  simp at this

@[simp] theorem len_setReq (h : MsgHdr) : h.setReq.len = h.len := rfl
@[simp] theorem plen_setReq (h : MsgHdr) : h.setReq.plen = h.plen := rfl
@[simp] theorem seqid_setReq (h : MsgHdr) : h.setReq.seqid = h.seqid := rfl
@[simp] theorem len_setResp (h : MsgHdr) : h.setResp.len = h.len := rfl
@[simp] theorem plen_setResp (h : MsgHdr) : h.setResp.plen = h.plen := rfl
@[simp] theorem seqid_setResp (h : MsgHdr) : h.setResp.seqid = h.seqid := rfl

end MsgHdr

/-! ## The whole messages of a stream -/

/-- The bytes of one message, by its own lengths. -/
structure IsMessage (w : List Byte) : Prop where
  le_len : hdrSize ≤ (MsgHdr.decode w).len
  length : w.length = (MsgHdr.decode w).len + (MsgHdr.decode w).plen

/-- The whole messages a stream begins with, at most `n`; a header that
claims less than itself ends them. -/
def wholesUpTo : ℕ → List Byte → List (List Byte)
  | 0, _ => []
  | n + 1, bs =>
      let h := MsgHdr.decode bs
      if hdrSize ≤ h.len ∧ h.len + h.plen ≤ bs.length then
        bs.take (h.len + h.plen) :: wholesUpTo n (bs.drop (h.len + h.plen))
      else []

/-- The whole messages a stream begins with. -/
def wholes (bs : List Byte) : List (List Byte) := wholesUpTo bs.length bs

/-- A response with sequence id `s`. -/
def isResponse (s : BitVec 32) (w : List Byte) : Bool :=
  !(MsgHdr.decode w).isReq && (MsgHdr.decode w).seqid == s

/-- A request with sequence id `s`. -/
def isRequest (s : BitVec 32) (w : List Byte) : Bool :=
  (MsgHdr.decode w).isReq && (MsgHdr.decode w).seqid == s

variable {w p : List Byte} {ws : List (List Byte)}

theorem IsMessage.size (h : IsMessage w) : hdrSize ≤ w.length := by
  have := h.le_len
  have := h.length
  omega

/-- A whole message is the first, whatever follows it. -/
theorem wholesUpTo_append (h : IsMessage w) (n : ℕ) (rest : List Byte) :
    wholesUpTo (n + 1) (w ++ rest) = w :: wholesUpTo n rest := by
  have hlen := h.length
  simp only [wholesUpTo, MsgHdr.decode_append h.size]
  rw [if_pos ⟨h.le_len, by rw [List.length_append]; omega⟩, ← hlen, List.take_left, List.drop_left]

/-- A bound beyond the stream's length cuts nothing off. -/
theorem wholesUpTo_of_le (n : ℕ) (bs : List Byte) (h : bs.length ≤ n) :
    wholesUpTo n bs = wholes bs := by
  induction n using Nat.strongRecOn generalizing bs with
  | ind n ih =>
      cases n with
      | zero =>
          obtain rfl := List.length_eq_zero_iff.1 (Nat.le_zero.1 h)
          rfl
      | succ n =>
          cases bs with
          | nil =>
              rw [wholes, List.length_nil, wholesUpTo, wholesUpTo]
              have hpos : 0 < hdrSize := by decide
              refine if_neg fun e => ?_
              rw [List.length_nil] at e
              omega
          | cons b bs =>
              rw [wholes, List.length_cons, wholesUpTo, wholesUpTo]
              split
              · rename_i e
                have hpos : 0 < hdrSize := by decide
                have hlen : ((b :: bs).drop ((MsgHdr.decode (b :: bs)).len +
                    (MsgHdr.decode (b :: bs)).plen)).length ≤ bs.length := by
                  rw [List.length_drop, List.length_cons]
                  omega
                rw [List.length_cons] at h
                rw [ih n (Nat.lt_succ_self n) _ (by omega), ih bs.length (by omega) _ hlen]
              · rfl

theorem wholes_append (h : IsMessage w) (rest : List Byte) :
    wholes (w ++ rest) = w :: wholes rest := by
  have hsize := h.size
  have hpos : 0 < hdrSize := by decide
  obtain ⟨n, hn⟩ : ∃ n, (w ++ rest).length = n + 1 :=
    ⟨(w ++ rest).length - 1, by rw [List.length_append]; omega⟩
  rw [wholes, hn, wholesUpTo_append h, wholesUpTo_of_le]
  rw [List.length_append] at hn
  omega

/-- **The whole messages of a row of messages** are these, and those of what
follows it. -/
theorem wholes_flatten (h : ∀ w ∈ ws, IsMessage w) (rest : List Byte) :
    wholes (ws.flatten ++ rest) = ws ++ wholes rest := by
  induction ws with
  | nil => rfl
  | cons w ws ih =>
      rw [List.flatten_cons, List.append_assoc, wholes_append (h w (by simp)),
        ih fun w' hw => h w' (List.mem_cons_of_mem _ hw)]
      rfl

/-- A part of a message is not whole. -/
theorem wholes_partial {ext : List Byte} (h : IsMessage (p ++ ext)) (hne : ext ≠ []) :
    wholes p = [] := by
  have hlen := h.length
  have hpos := List.length_pos_iff.2 hne
  rw [List.length_append] at hlen
  cases hp : p.length with
  | zero => rw [wholes, hp, wholesUpTo]
  | succ n =>
      rw [wholes, hp, wholesUpTo]
      refine if_neg fun e => ?_
      have hdec : MsgHdr.decode (p ++ ext) = MsgHdr.decode p :=
        MsgHdr.decode_append (by omega)
      rw [hdec] at hlen
      omega

end Rpc

end VmwareProto
