import VmwareProto.Library.LittleEndian
import Mathlib.Data.Int.Notation
import Mathlib.Tactic.Common
/-!
# Receiving one message on the VMkernel side

`_rpc_recv` with blocking reads. `socket_read` repeats
`vmk_SocketRecvFrom` until it has what it was asked for or nothing more
comes; the call takes an `int` length, so the `size_t` count passes
through a truncation. The bytes that arrive before the connection ends or
fails are the argument. Two things are the socket layer's: how much of the
available data one call returns, and whether a negative length is refused
or taken for the unsigned number it came from.
-/

namespace VmwareProto

namespace Mpp

/-- `rpc_msghdr_t` of the VMkernel endpoint. -/
structure MsgHdr where
  seqid : BitVec 64
  type : BitVec 16
  msglen : BitVec 16
  payloadlen : BitVec 64
  status : BitVec 16
  deriving DecidableEq, Repr

/-- `sizeof(rpc_msghdr_t)`, with the compiler's padding. -/
def hdrSize : ℕ := 32

/-- `offsetof(rpc_msg_t, hdr)`. -/
def hdrOffset : ℕ := 56

/-- `PAYLOADMAX`, the size of a payload buffer. -/
def payloadMax : ℕ := 1024 * 1024

namespace MsgHdr

def len (h : MsgHdr) : ℕ := h.msglen.toNat

def plen (h : MsgHdr) : ℕ := h.payloadlen.toNat

/-- The structure over a buffer's first bytes. -/
def decode (bs : List Byte) : MsgHdr where
  seqid := BitVec.ofNat 64 (leValue (bs.take 8))
  type := BitVec.ofNat 16 (leValue ((bs.drop 8).take 2))
  msglen := BitVec.ofNat 16 (leValue ((bs.drop 10).take 2))
  payloadlen := BitVec.ofNat 64 (leValue ((bs.drop 16).take 8))
  status := BitVec.ofNat 16 (leValue ((bs.drop 24).take 2))

/-- The header is read from its first 32 bytes alone. -/
theorem decode_take (bs : List Byte) : decode (bs.take hdrSize) = decode bs := by
  simp only [decode, hdrSize, List.take_take, List.drop_take]
  rfl

end MsgHdr

/-- The sizes a channel was initialised with. -/
structure RecvCfg where
  msgsz : ℕ
  /-- callers pass the size of a structure that starts with the header -/
  hdr_le : hdrSize ≤ msgsz
  /-- a length on the wire has 16 bits -/
  le_max : msgsz < 2 ^ 16

/-- `bufpool_bufsize(&rcp->msgpool)`. -/
def RecvCfg.msgBuf (cfg : RecvCfg) : ℕ := max (cfg.msgsz + hdrOffset) 16

/-- A stream socket as `vmk_SocketRecvFrom` shows it. -/
structure Socket where
  /-- how much of `n` bytes one call returns -/
  give : ℕ → ℕ
  give_pos : ∀ n, 0 < n → 0 < give n
  give_le : ∀ n, give n ≤ n
  /-- whether a negative length counts as a large one -/
  unsigned : Bool

namespace Socket

/-- `vmk_SocketRecvFrom` for `len` bytes with `avail` to come; 0 for an
error or the end. -/
def recvFrom (S : Socket) (len : ℤ) (avail : ℕ) : ℕ :=
  if 0 < len then S.give (min len.toNat avail)
  else if len < 0 ∧ S.unsigned = true then S.give avail
  else 0

/-- The loop of `socket_read`. Returns the bytes it stores. -/
def readLoop (S : Socket) : ℕ → ℕ → List Byte → List Byte
  | 0, _, _ => []
  | fuel + 1, count, bs =>
      if count = 0 then []
      else
        let rc := S.recvFrom (BitVec.ofNat 32 count).toInt bs.length
        if rc = 0 then [] else bs.take rc ++ readLoop S fuel (count - rc) (bs.drop rc)

/-- `socket_read`. -/
def socketRead (S : Socket) (count : ℕ) (bs : List Byte) : List Byte :=
  S.readLoop (bs.length + 1) count bs

end Socket

/-- How `_rpc_recv` ends: a message, a closed connection, or a failed
assertion (on the error path it puts the payload into a NULL pool). -/
inductive RecvEnd
  | message
  | closed
  | fault
  deriving DecidableEq, Repr

/-- What one call leaves: the bytes stored from `&rm->hdr` on, those in
the payload buffer if it took one, and how it ended. -/
structure Received where
  stored : List Byte
  payload : Option (List Byte)
  result : RecvEnd
  deriving DecidableEq, Repr

/-- `r = rm->hdr.msglen - sizeof(rm->hdr)`, a `size_t`. -/
def bodySize (h : MsgHdr) : ℕ := (h.len + 2 ^ 64 - hdrSize) % 2 ^ 64

/-- The payload part of `_rpc_recv`. -/
def recvPayload (S : Socket) (h : MsgHdr) (stored bs : List Byte) : Received :=
  if h.plen ≠ 0 then
    if payloadMax < h.plen then ⟨stored, none, .fault⟩
    else
      let p := S.socketRead h.plen bs
      ⟨stored, some p, if p.length ≠ h.plen then .fault else .message⟩
  else ⟨stored, none, .message⟩

/-- `_rpc_recv`. -/
def rpcRecv (cfg : RecvCfg) (S : Socket) (bs : List Byte) : Received :=
  let st := S.socketRead hdrSize bs
  if st.length ≠ hdrSize then ⟨st, none, .closed⟩
  else
    let h := MsgHdr.decode st
    if cfg.msgBuf < h.len then ⟨st, none, .fault⟩
    else
      let r := bodySize h
      let body := S.socketRead r (bs.drop hdrSize)
      if body.length ≠ r then ⟨st ++ body, none, .closed⟩
      else recvPayload S h (st ++ body) (bs.drop (hdrSize + r))

/-! ## What `socket_read` stores -/

namespace Socket

variable {S : Socket} {bs : List Byte}

/-- **A count that fits an `int`** gets exactly that many bytes, or all
there are. -/
theorem readLoop_small : ∀ {fuel count : ℕ} {bs : List Byte}, count < 2 ^ 31 → bs.length < fuel →
    S.readLoop fuel count bs = bs.take count
  | 0, _, _, _, h => absurd h (by omega)
  | fuel + 1, count, bs, hc, hf => by
      unfold readLoop
      split
      · rename_i h0; simp [h0]
      · rename_i h0
        have hint : (BitVec.ofNat 32 count).toInt = count := by
          rw [BitVec.toInt_eq_toNat_of_lt]
          · simp only [BitVec.toNat_ofNat]; omega
          · simp only [BitVec.toNat_ofNat]; omega
        have hrc : S.recvFrom (BitVec.ofNat 32 count).toInt bs.length = S.give (min count bs.length) := by
          rw [recvFrom, hint, if_pos (by omega)]
          simp
        simp only [hrc]
        have hle := S.give_le (min count bs.length)
        split
        · rename_i hz
          have : min count bs.length = 0 := by
            by_contra hne
            have := S.give_pos _ (Nat.pos_of_ne_zero hne)
            omega
          have : bs = [] := List.length_eq_zero_iff.1 (by omega)
          simp [this]
        · rename_i hz
          rw [readLoop_small (by omega) (by rw [List.length_drop]; omega)]
          have := (List.take_append_drop (S.give (min count bs.length)) (bs.take count)).symm
          rw [List.take_take, List.drop_take] at this
          rw [this]
          congr 2
          omega

theorem socketRead_small {count : ℕ} (hc : count < 2 ^ 31) : S.socketRead count bs = bs.take count :=
  readLoop_small hc (by omega)

/-- The truncation of a count just below 2^64 is negative. -/
theorem toInt_wrapped {j : ℕ} (h0 : 0 < j) (hj : j < 2 ^ 31) :
    (BitVec.ofNat 32 (2 ^ 64 - j)).toInt < 0 := by
  rw [BitVec.toInt_eq_toNat_bmod, BitVec.toNat_ofNat, Int.bmod_def]
  have : (2 ^ 64 - j) % 2 ^ 32 = 2 ^ 32 - j := by omega
  rw [this]
  split <;> omega

/-- A count just below 2^64 on a socket that refuses negative lengths. -/
theorem socketRead_refused {j : ℕ} (h0 : 0 < j) (hj : j < 2 ^ 31) (hS : S.unsigned = false) :
    S.socketRead (2 ^ 64 - j) bs = [] := by
  have hneg := toInt_wrapped h0 hj
  rw [socketRead, readLoop, if_neg (by omega)]
  simp only
  rw [if_pos]
  rw [recvFrom, if_neg (by omega), if_neg (by simp [hS])]

/-- Never more is stored than arrives. -/
theorem readLoop_length_le : ∀ (fuel count : ℕ) (bs : List Byte),
    (S.readLoop fuel count bs).length ≤ bs.length
  | 0, _, _ => by simp [readLoop]
  | fuel + 1, count, bs => by
      unfold readLoop
      split
      · simp
      · simp only
        split
        · simp
        · have := readLoop_length_le fuel (count - S.recvFrom (BitVec.ofNat 32 count).toInt bs.length)
            (bs.drop (S.recvFrom (BitVec.ofNat 32 count).toInt bs.length))
          simp only [List.length_append, List.length_take, List.length_drop] at this ⊢
          omega

/-- The same on a socket that takes them for large ones: everything that
arrives is stored, at least up to the 2^31 bytes after which the
truncation changes sign. -/
theorem readLoop_wrapped (hS : S.unsigned = true) : ∀ (fuel j : ℕ) (bs : List Byte), 0 < j →
    bs.length < fuel → min bs.length (2 ^ 31 - j) ≤ (S.readLoop fuel (2 ^ 64 - j) bs).length
  | 0, _, _, _, h => absurd h (by omega)
  | fuel + 1, j, bs, h0, hf => by
      by_cases hj : 2 ^ 31 ≤ j
      · omega
      have hneg := toInt_wrapped h0 (by omega)
      have hrc : S.recvFrom (BitVec.ofNat 32 (2 ^ 64 - j)).toInt bs.length = S.give bs.length := by
        rw [recvFrom, if_neg (by omega), if_pos ⟨hneg, hS⟩]
      rw [readLoop, if_neg (by omega)]
      simp only [hrc]
      have hle := S.give_le bs.length
      split
      · rename_i hz
        have : bs.length = 0 := by
          by_contra hne
          have := S.give_pos _ (Nat.pos_of_ne_zero hne)
          omega
        omega
      · rename_i hz
        have hcount : 2 ^ 64 - j - S.give bs.length = 2 ^ 64 - (j + S.give bs.length) := by omega
        have ih := readLoop_wrapped hS fuel (j + S.give bs.length)
          (bs.drop (S.give bs.length)) (by omega) (by rw [List.length_drop]; omega)
        rw [hcount, List.length_append, List.length_take]
        rw [List.length_drop] at ih
        omega

end Socket

end Mpp

end VmwareProto
