import VmwareProto.Rpc.Wire
import Mathlib
/-!
# The storage side's message handler

`rpc_msg_handler` of iosplitter for a request: it runs the command on the
device and passes the same message, turned into the answer, to
`rpc_response`. The device enters through what `safe_pread` and
`safe_pwrite` return. `none` is a failed assertion.
-/

namespace VmwareProto

namespace Splitter

open Rpc

/-- A message with the client part of its header: `read_cmd_t`,
`write_cmd_t` or `open_cmd_t`, which has no use for the last two. -/
structure CmdMsg where
  hdr : MsgHdr
  offset : BitVec 64
  len : BitVec 64
  payload : Option (List Byte)
  deriving DecidableEq, Repr

/-- `RPC_READ_MSG`. -/
def readMsg : ℕ := 33

/-- `RPC_WRITE_MSG`. -/
def writeMsg : ℕ := 34

/-- `RPC_OPEN_MSG`. -/
def openMsg : ℕ := 35

/-- `PAYLOADSZ`, the size of a data buffer. -/
def payloadSz : ℕ := 1024 * 1024

/-- `RPC_GETMSGTYPE`. -/
def getMsgType (h : MsgHdr) : ℕ := h.type.toNat >>> 4

/-- The device as the handler uses it: the bytes `safe_pread` delivers,
and how many `safe_pwrite` takes. -/
structure Device where
  pread : (offset len : ℕ) → List Byte
  pwrite : (offset len : ℕ) → List Byte → ℕ

/-- `ssd_write`. -/
def ssdWrite (dev : Device) (m : CmdMsg) : ℤ :=
  if m.len.toNat ≠ dev.pwrite m.offset.toNat m.len.toNat (m.payload.getD []) then -1 else 0

/-- `ssd_read`, and the bytes it leaves at the front of the payload. -/
def ssdRead (dev : Device) (m : CmdMsg) : ℤ × List Byte :=
  let data := dev.pread m.offset.toNat m.len.toNat
  (if m.len.toNat ≠ data.length then -1 else 0, data)

/-- An `int` stored in the 16-bit status. -/
def toStatus (rc : ℤ) : BitVec 16 := BitVec.ofInt 16 rc

/-- The `RPC_READ_MSG` case. -/
def handleRead (dev : Device) (m : CmdMsg) : Option CmdMsg := do
  guard (m.payload = none ∧ m.hdr.payloadlen = 0)
  let (rc, data) := ssdRead dev m
  let hdr := { m.hdr with payloadlen := m.len.setWidth 16, status := toStatus rc }
  guard (hdr.status = 0)
  some { m with hdr := hdr, payload := some (data ++ List.replicate (payloadSz - data.length) 0) }

/-- The `RPC_WRITE_MSG` case. -/
def handleWrite (dev : Device) (m : CmdMsg) : Option CmdMsg := do
  guard (m.payload ≠ none ∧ m.hdr.plen = m.len.toNat)
  some { m with hdr := { m.hdr with payloadlen := 0, status := toStatus (ssdWrite dev m) },
                payload := none }

/-- `rpc_msg_handler` on a request: the message it passes to
`rpc_response`. -/
def rpcMsgHandler (dev : Device) (m : CmdMsg) : Option CmdMsg :=
  if getMsgType m.hdr = openMsg then do
    guard (m.payload = none ∧ m.hdr.payloadlen = 0)
    some m
  else if getMsgType m.hdr = readMsg then handleRead dev m
  else if getMsgType m.hdr = writeMsg then handleWrite dev m
  else none

/-- **The status reports the device**: of an answered write it is 0 exactly
when the device took all `len` bytes. -/
theorem handleWrite_status {dev : Device} {m r : CmdMsg} (h : handleWrite dev m = some r) :
    r.hdr.status = 0 ↔
      dev.pwrite m.offset.toNat m.len.toNat (m.payload.getD []) = m.len.toNat := by
  simp only [handleWrite, guard] at h
  split at h
  · have hr : r.hdr.status = toStatus (ssdWrite dev m) := by
      rw [← show _ = r from by simpa using h]
    rw [hr, toStatus, ssdWrite]
    split
    · rename_i hne
      exact iff_of_false (by decide) fun e => hne e.symm
    · rename_i he
      exact iff_of_true (by decide) (not_ne_iff.1 he).symm
  · cases h

/-- An answered read was transferred in full. -/
theorem handleRead_status {dev : Device} {m r : CmdMsg} (h : handleRead dev m = some r) :
    r.hdr.status = 0 ∧ (dev.pread m.offset.toNat m.len.toNat).length = m.len.toNat := by
  have hok : toStatus 0 = 0 := by decide
  simp only [handleRead, guard, ssdRead] at h
  split at h
  · split at h
    · simp [toStatus] at h
    · rename_i he
      rw [hok] at h
      rw [← show _ = r from by simpa using h]
      exact ⟨rfl, (not_ne_iff.1 he).symm⟩
  · cases h

end Splitter

end VmwareProto
