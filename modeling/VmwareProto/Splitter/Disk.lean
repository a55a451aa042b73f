import VmwareProto.Splitter.Answers
import VmwareProto.Library.Linearizable
/-!
# The handler and a device that is an array of bytes

Operations as the client calls them, what they mean for an array of bytes,
and the handler's calls of `pread` and `pwrite` on such an array. A call
moves as many of the bytes it is asked for as the device likes, but some;
what the handler makes of the array and answers does not depend on it.
-/

namespace VmwareProto

namespace Splitter

open Rpc

/-! ## The array -/

/-- The contents of a device. -/
abbrev Disk := BitVec 64 → Byte

namespace Disk

/-- The `n` bytes from `off` on. -/
def bytes (d : Disk) (off : BitVec 64) (n : ℕ) : List Byte :=
  (List.range n).map fun i => d (off + BitVec.ofNat 64 i)

/-- The contents once `bs` are stored from `off` on. -/
def store (d : Disk) (off : BitVec 64) (bs : List Byte) : Disk :=
  fun x => bs.getD (x - off).toNat (d x)

variable {d : Disk} {off : BitVec 64} {bs cs : List Byte}

@[simp] theorem length_bytes (n : ℕ) : (d.bytes off n).length = n := by simp [bytes]

@[simp] theorem store_nil : d.store off [] = d := rfl

theorem bytes_add (m n : ℕ) :
    d.bytes off (m + n) = d.bytes off m ++ d.bytes (off + BitVec.ofNat 64 m) n := by
  unfold bytes
  rw [List.range_add, List.map_append, List.map_map]
  congr 1
  refine List.map_congr_left fun i _ => ?_
  show d (off + BitVec.ofNat 64 (m + i)) = _
  rw [BitVec.ofNat_add, BitVec.add_assoc]

/-- **Stored in two parts** is stored at once. -/
theorem store_append (hlen : bs.length + cs.length < 2 ^ 64) :
    (d.store off bs).store (off + BitVec.ofNat 64 bs.length) cs = d.store off (bs ++ cs) := by
  funext x
  unfold store
  have hx := (x - off).isLt
  have hsub : x - (off + BitVec.ofNat 64 bs.length) = (x - off) - BitVec.ofNat 64 bs.length :=
    (BitVec.sub_sub ..).symm
  have hnat : (BitVec.ofNat 64 bs.length).toNat = bs.length := by
    rw [BitVec.toNat_ofNat]
    exact Nat.mod_eq_of_lt (by omega)
  have hto : ((x - off) - BitVec.ofNat 64 bs.length).toNat =
      (2 ^ 64 - bs.length + (x - off).toNat) % 2 ^ 64 := by
    rw [BitVec.toNat_sub, hnat]
  rw [hsub, hto]
  rcases Nat.lt_or_ge (x - off).toNat bs.length with hlt | hge
  · -- before the second part
    have hmod : (2 ^ 64 - bs.length + (x - off).toNat) % 2 ^ 64 =
        2 ^ 64 - bs.length + (x - off).toNat := Nat.mod_eq_of_lt (by omega)
    rw [hmod, List.getD_eq_default _ _ (by omega), List.getD_append _ _ _ _ hlt]
  · have hmod : (2 ^ 64 - bs.length + (x - off).toNat) % 2 ^ 64 = (x - off).toNat - bs.length := by
      omega
    rw [hmod, List.getD_append_right _ _ _ _ hge, List.getD_eq_default bs _ hge]

end Disk

/-! ## Operations -/

/-- What a client task calls: `do_write`, with the contents of its data
buffer, or `do_read`. -/
inductive Op
  | write (len offset : BitVec 64) (b : List Byte)
  | read (len offset : BitVec 64)
  deriving DecidableEq, Repr

namespace Op

def len : Op → BitVec 64
  | write len _ _ => len
  | read len _ => len

def offset : Op → BitVec 64
  | write _ offset _ => offset
  | read _ offset => offset

def msgtype : Op → ℕ
  | write _ _ _ => writeMsg
  | read _ _ => readMsg

/-- The data buffer passed to `rpc_msg_get`. -/
def payload : Op → Option (List Byte)
  | write _ _ b => some b
  | read _ _ => none

/-- The length passed with it. -/
def payloadlen : Op → ℕ
  | write len _ _ => len.toNat
  | read _ _ => 0

/-- The length fits the header, and the data buffer holds as much. -/
def Valid (o : Op) : Prop :=
  0 < o.len.toNat ∧ o.len.toNat ≤ 65535 ∧ o.payloadlen ≤ (o.payload.getD []).length

instance (o : Op) : Decidable o.Valid := inferInstanceAs (Decidable (_ ∧ _ ∧ _))

end Op

/-- What an operation returns: its return code, and the payload of the
response. -/
structure Result where
  rc : ℤ
  data : List Byte
  deriving DecidableEq, Repr

/-- What an operation means for an array of bytes. -/
def Disk.apply (d : Disk) : Op → Disk × Result
  | .write len offset b => (d.store offset (b.take len.toNat), ⟨0, []⟩)
  | .read len offset => (d, ⟨0, d.bytes offset len.toNat⟩)

/-! ## The handler's calls -/

namespace Handling

/-- One `pread` or `pwrite` that moves `k` bytes, or as many as it is asked
for. -/
def transfer (h : Handling) (d : Disk) (k : ℕ) : Option (Handling × Disk) :=
  match h.loop with
  | none => none
  | some l =>
      if getMsgType h.msg.hdr = readMsg then
        (h.call (.moved (d.bytes l.off (min k l.count)))).map fun h => (h, d)
      else
        let bs := ((h.msg.payload.getD []).drop l.bc).take (min k l.count)
        (h.call (.moved bs)).map fun h => (h, d.store l.off bs)

/-- One after the other. -/
def transfers : Handling → Disk → List ℕ → Option (Handling × Disk)
  | h, d, [] => some (h, d)
  | h, d, k :: ks => (h.transfer d k).bind fun x => transfers x.1 x.2 ks

end Handling

/-- `rpc_msg_handler`, with calls that move `parts`. -/
def serve (errno : ℕ) (m : CmdMsg) (d : Disk) (parts : List ℕ) : Option (Handling × Disk) :=
  (Handling.begin errno m).bind fun h => h.transfers d parts

variable {m : CmdMsg} {d d₀ d' : Disk} {h h₀ : Handling} {l : Loop} {errno k : ℕ} {parts : List ℕ}

/-- The bytes a transfer moves: what the device holds, or what the client
sent. -/
def source (m : CmdMsg) (d₀ : Disk) : List Byte :=
  if getMsgType m.hdr = readMsg then d₀.bytes m.offset m.len.toNat else m.payload.getD []

/-- What the device holds when it has moved `n` bytes. -/
def effect (m : CmdMsg) (d₀ : Disk) (n : ℕ) : Disk :=
  if getMsgType m.hdr = readMsg then d₀ else d₀.store m.offset ((source m d₀).take n)

/-- **Where a transfer stands.** -/
structure Moved (m : CmdMsg) (d₀ : Disk) (l : Loop) (d : Disk) : Prop where
  going : l.stopped = false
  bc : l.bc + l.count = m.len.toNat
  off : l.off = m.offset + BitVec.ofNat 64 l.bc
  data : l.data = (source m d₀).take l.bc
  disk : d = effect m d₀ l.bc

/-- The bytes the next call moves. -/
def nextPart (m : CmdMsg) (d : Disk) (l : Loop) (k : ℕ) : List Byte :=
  if getMsgType m.hdr = readMsg then d.bytes l.off (min k l.count)
  else ((m.payload.getD []).drop l.bc).take (min k l.count)

/-- They are the next of the source. -/
theorem Moved.nextPart_eq (hM : Moved m d₀ l d) :
    nextPart m d l k = ((source m d₀).drop l.bc).take (min k l.count) := by
  have hbc := hM.bc
  unfold nextPart source
  split
  · rename_i ht
    have hlen : m.len.toNat = l.bc + (min k l.count + (l.count - min k l.count)) := by omega
    have hd : d = d₀ := by rw [hM.disk, effect, if_pos ht]
    rw [hlen, Disk.bytes_add, List.drop_left' (Disk.length_bytes _), Disk.bytes_add, hd, ← hM.off,
      List.take_left' (Disk.length_bytes _)]
  · rfl

/-- **One call** that moves something. -/
theorem Moved.call (hM : Moved m d₀ l d) (hsrc : m.len.toNat ≤ (source m d₀).length) (hk : 0 < k)
    (hl : l.Running) :
    Moved m d₀ (l.call (.moved (nextPart m d l k)))
      (if getMsgType m.hdr = readMsg then d else d.store l.off (nextPart m d l k)) := by
  have hbc := hM.bc
  have hcount := hl.1
  have hlt := m.len.isLt
  have heq := hM.nextPart_eq (k := k)
  have hlen : (nextPart m d l k).length = min k l.count := by
    rw [heq, List.length_take, List.length_drop]
    omega
  have htake : (nextPart m d l k).take l.count = nextPart m d l k :=
    List.take_of_length_le (by omega)
  have hne : nextPart m d l k ≠ [] := by
    rw [← List.length_pos_iff]
    omega
  have hcall : l.call (.moved (nextPart m d l k)) =
      { l with
        data := l.data ++ nextPart m d l k
        count := l.count - min k l.count
        off := l.off + BitVec.ofNat 64 (min k l.count) } := by
    simp only [Loop.call, htake, if_neg hne, hlen]
  have hbc' : (l.call (.moved (nextPart m d l k))).bc = l.bc + min k l.count := by
    rw [hcall, Loop.bc, List.length_append, hlen]
    rfl
  have hdata : l.data ++ nextPart m d l k = (source m d₀).take (l.bc + min k l.count) := by
    rw [hM.data, heq, List.take_add]
  refine ⟨by rw [hcall]; exact hM.going, ?_, ?_, ?_, ?_⟩
  · rw [hbc', hcall]
    simp only
    omega
  · rw [hbc', hcall, BitVec.ofNat_add, ← BitVec.add_assoc, ← hM.off]
  · rw [hbc', hcall]
    exact hdata
  · rw [hbc', effect]
    split
    · rename_i ht
      rw [hM.disk, effect, if_pos ht]
    · rename_i ht
      have hfirst : ((source m d₀).take l.bc).length = l.bc := by
        rw [List.length_take]
        omega
      have hoff : l.off = m.offset + BitVec.ofNat 64 ((source m d₀).take l.bc).length := by
        rw [hfirst, hM.off]
      have hsum : ((source m d₀).take l.bc).length + (nextPart m d l k).length < 2 ^ 64 := by
        rw [hfirst, hlen]
        omega
      rw [hoff]
      generalize nextPart m d l k = bs at heq hsum
      rw [hM.disk, effect, if_neg ht, Disk.store_append hsum, heq, ← List.take_add]

/-- A call of the device, as the handler makes it. -/
theorem transfer_of_running (hmsg : h₀.msg.hdr.type = m.hdr.type)
    (hpay : getMsgType m.hdr ≠ readMsg → h₀.msg.payload = m.payload) :
    Handling.transfer { h₀ with loop := some l } d k =
      (h₀.settle (l.call (.moved (nextPart m d l k)))).map fun h =>
        (h, if getMsgType m.hdr = readMsg then d else d.store l.off (nextPart m d l k)) := by
  have ht : getMsgType h₀.msg.hdr = getMsgType m.hdr := by rw [getMsgType, getMsgType, hmsg]
  unfold Handling.transfer nextPart
  by_cases hr : getMsgType m.hdr = readMsg
  · simp only [ht, hr, if_true]
    rfl
  · simp only [ht, hr, if_false, hpay hr]
    rfl

/-- **A transfer that is over** has moved everything, however it was cut
up. -/
theorem transfers_done (hmsg : h₀.msg.hdr.type = m.hdr.type)
    (hpay : getMsgType m.hdr ≠ readMsg → h₀.msg.payload = m.payload)
    (hsrc : m.len.toNat ≤ (source m d₀).length) (hM : Moved m d₀ l d) (hparts : ∀ k ∈ parts, 0 < k)
    (hx : ((h₀.settle l).bind fun h => h.transfers d parts) = some (h, d')) (hl : h.loop = none) :
    ∃ l', h₀.finish l' = some h ∧ l'.bc = m.len.toNat ∧ Moved m d₀ l' d' := by
  induction parts generalizing l d with
  | nil =>
      obtain ⟨h', hs, hh⟩ := Option.bind_eq_some_iff.1 hx
      obtain ⟨rfl, rfl⟩ := Prod.mk.inj (Option.some.inj hh)
      obtain ⟨hrun, hf⟩ := Handling.settle_loop_eq_none hs hl
      have hcount : l.count = 0 := by
        by_contra hc
        exact hrun ⟨hc, hM.going⟩
      have hbc := hM.bc
      exact ⟨l, hf, by omega, hM⟩
  | cons k ks ih =>
      by_cases hrun : l.Running
      · rw [Handling.settle_of_running hrun, Option.bind_some, Handling.transfers,
          transfer_of_running hmsg hpay, Option.bind_map] at hx
        exact ih (hM.call hsrc (hparts k (by simp)) hrun)
          (fun k hk => hparts k (List.mem_cons_of_mem _ hk)) hx
      · -- there is nothing left to call
        obtain ⟨h', hs, hh⟩ := Option.bind_eq_some_iff.1 hx
        rw [Handling.settle_of_not_running hrun] at hs
        rw [Handling.transfers, Handling.transfer, Handling.finish_loop hs] at hh
        cases hh

theorem moved_start (m : CmdMsg) (d : Disk) (errno : ℕ) :
    Moved m d (.start m.len.toNat m.offset errno) d := by
  refine ⟨rfl, by simp [Loop.bc, Loop.start], by simp [Loop.bc, Loop.start], rfl, ?_⟩
  unfold effect
  split <;> simp [Loop.bc, Loop.start]

/-- The answer to a read that moved everything. -/
def readReply (m : CmdMsg) (data : List Byte) : CmdMsg :=
  { m with
    hdr := { m.hdr with payloadlen := m.len.setWidth 16, status := 0 }.setResp
    payload := some (data ++ List.replicate (payloadSz - data.length) 0) }

/-- The answer to a write that moved everything. -/
def writeReply (m : CmdMsg) : CmdMsg :=
  { m with hdr := { m.hdr with status := 0, payloadlen := 0 }.setResp, payload := none }

/-- **A served read**: the device's bytes, and the device as it was. -/
theorem serve_read (hcc : m.hdr.isConnClosed = false) (ht : getMsgType m.hdr = readMsg)
    (hlen : hdrSize ≤ m.hdr.len) (hparts : ∀ k ∈ parts, 0 < k)
    (hx : serve errno m d parts = some (h, d')) (hl : h.loop = none) :
    h.msg = readReply m (d.bytes m.offset m.len.toNat) ∧ d' = d := by
  unfold serve at hx
  rw [begin_read errno hcc ht] at hx
  split at hx
  · have hsrc : source m d = d.bytes m.offset m.len.toNat := if_pos ht
    obtain ⟨l', hf, hbc, hM⟩ := transfers_done (m := m)
      (show (readAnswer m).msg.hdr.type = m.hdr.type from rfl)
      (fun hn => absurd ht hn) (by rw [hsrc, Disk.length_bytes]) (moved_start m d errno) hparts hx hl
    have hdata : l'.data = d.bytes m.offset m.len.toNat := by
      rw [hM.data, hsrc, hbc, List.take_of_length_le (Disk.length_bytes _).le]
    rw [Handling.finish_read (h := readAnswer m) ht] at hf
    rw [if_pos (show l'.bc = (readAnswer m).msg.len.toNat from hbc)] at hf
    obtain ⟨close, -, hr⟩ := Handling.respond_eq (h := (readAnswer m).doneRead l') hlen
      fun e => absurd e (Option.some_ne_none _)
    obtain rfl := Option.some.inj (hf.symm.trans hr)
    refine ⟨?_, by rw [hM.disk, effect, if_pos ht]⟩
    simp only [readReply, Handling.doneRead, readAnswer, hdata, hbc, Disk.length_bytes]
  · cases hx

/-- **A served write**: the device has the client's bytes. -/
theorem serve_write (hcc : m.hdr.isConnClosed = false) (ht : getMsgType m.hdr = writeMsg)
    (hlen : hdrSize ≤ m.hdr.len) (hpay : m.len.toNat ≤ (m.payload.getD []).length)
    (hparts : ∀ k ∈ parts, 0 < k) (hx : serve errno m d parts = some (h, d')) (hl : h.loop = none) :
    h.msg = writeReply m ∧ d' = d.store m.offset ((m.payload.getD []).take m.len.toNat) := by
  have hnr : getMsgType m.hdr ≠ readMsg := by
    rw [ht]
    decide
  unfold serve at hx
  rw [begin_write errno hcc ht] at hx
  split at hx
  · have hsrc : source m d = m.payload.getD [] := if_neg hnr
    obtain ⟨l', hf, hbc, hM⟩ := transfers_done (m := m)
      (show (⟨m, none, []⟩ : Handling).msg.hdr.type = m.hdr.type from rfl) (fun _ => rfl)
      (by rw [hsrc]; exact hpay) (moved_start m d errno) hparts hx hl
    have hst : toStatus (Handling.ssdResult m l') = 0 := (Handling.toStatus_ssdResult m l').2 hbc
    rw [Handling.finish_write (h := ⟨m, none, []⟩) hnr] at hf
    obtain ⟨close, -, hr⟩ := Handling.respond_eq (h := Handling.doneWrite ⟨m, none, []⟩ l') hlen
      fun _ => rfl
    obtain rfl := Option.some.inj (hf.symm.trans hr)
    refine ⟨?_, by rw [hM.disk, effect, if_neg hnr, hsrc, hbc]⟩
    simp only [writeReply, Handling.doneWrite, hst]
  · cases hx

end Splitter

end VmwareProto
