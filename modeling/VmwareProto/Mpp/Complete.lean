import VmwareProto.Mpp.Receive
import VmwareProto.Splitter.Handler
/-!
# Completing a SCSI command

What the VMkernel plugin does with a response: `_rpc_response` hangs it on
the pending request and `cb_mpp_resp_handler` completes the command. The
two scatter-gather calls are the VMkernel's. `none` is a failed assertion,
which takes the host down before anything is completed.
-/

namespace VmwareProto

namespace Mpp

/-- A component of `vmk_ScsiCmdStatus`. -/
inductive StatusCode
  | good
  | other (code : ℕ)
  deriving DecidableEq, Repr

/-- `vmk_ScsiCommand`; `done` says that `cmd->done(cmd)` was called. -/
structure ScsiCommand where
  device : StatusCode
  host : StatusCode
  plugin : StatusCode
  bytesXferred : ℕ
  sgArray : List Byte
  done : Bool
  deriving DecidableEq, Repr

/-- A received message. -/
structure Resp where
  hdr : MsgHdr
  payload : Option (List Byte)
  deriving DecidableEq, Repr

/-- A pending `read_cmd_t` or `write_cmd_t`, with the response
`_rpc_response` found for it. -/
structure Request where
  hdr : MsgHdr
  offset : ℕ
  len : ℕ
  resp : Resp
  deriving DecidableEq, Repr

/-- `vmk_SgGetDataLen` and `vmk_SgCopyTo`, which fails or returns the
scatter-gather array with the bytes in it. -/
structure SgOps where
  getDataLen : List Byte → ℕ
  copyTo : List Byte → List Byte → ℕ → Option (List Byte)

/-- `RPC_READ_MSG`. -/
def readMsg : ℕ := 33

/-- `RPC_WRITE_MSG`. -/
def writeMsg : ℕ := 34

/-- `RPC_GETMSGTYPE`. -/
def getMsgType (h : MsgHdr) : ℕ := h.type.toNat >>> 4

/-- `set_cmd_complete`. -/
def setCmdComplete (cmd : ScsiCommand) (len : ℕ) : ScsiCommand :=
  { cmd with device := .good, host := .good, plugin := .good, bytesXferred := len }

/-- The copy in `resp_read_cmd`. -/
def copyPayload (sg : SgOps) (cmd : ScsiCommand) (m : Request) : Option ScsiCommand :=
  if m.resp.hdr.plen ≠ 0 then do
    let p ← m.resp.payload
    let data ← sg.copyTo cmd.sgArray p m.len
    some { cmd with sgArray := data }
  else some cmd

/-- `resp_read_cmd`. -/
def respReadCmd (sg : SgOps) (cmd : ScsiCommand) (m : Request) : Option ScsiCommand := do
  guard (m.hdr.status = 0)
  guard (sg.getDataLen cmd.sgArray = m.resp.hdr.plen)
  guard (m.len = m.resp.hdr.plen)
  let cmd ← copyPayload sg cmd m
  some { setCmdComplete cmd m.len with done := true }

/-- `resp_write_cmd`. -/
def respWriteCmd (cmd : ScsiCommand) (m : Request) : Option ScsiCommand := do
  guard (m.resp.hdr.plen = 0)
  guard (m.resp.payload = none)
  some { setCmdComplete cmd m.len with done := true }

/-- `cb_mpp_resp_handler`. -/
def cbMppRespHandler (sg : SgOps) (cmd : ScsiCommand) (m : Request) : Option ScsiCommand :=
  if getMsgType m.hdr = readMsg then respReadCmd sg cmd m
  else if getMsgType m.hdr = writeMsg then respWriteCmd cmd m
  else none

/-- The command is completed, as if all its bytes had been transferred. -/
structure CompletedGood (cmd : ScsiCommand) (len : ℕ) : Prop where
  done : cmd.done = true
  device : cmd.device = .good
  host : cmd.host = .good
  plugin : cmd.plugin = .good
  bytes : cmd.bytesXferred = len

/-- A response none of the handler's assertions stops. The only status
among them is the request's own. -/
def PassesAsserts (sg : SgOps) (cmd : ScsiCommand) (m : Request) : Prop :=
  (getMsgType m.hdr = readMsg ∧ m.hdr.status = 0 ∧ sg.getDataLen cmd.sgArray = m.resp.hdr.plen ∧
    m.len = m.resp.hdr.plen ∧ (m.resp.hdr.plen ≠ 0 → ∃ p data, m.resp.payload = some p ∧
      sg.copyTo cmd.sgArray p m.len = some data)) ∨
  (getMsgType m.hdr = writeMsg ∧ m.resp.hdr.plen = 0 ∧ m.resp.payload = none)

variable {sg : SgOps} {cmd cmd' : ScsiCommand} {m : Request}

theorem copyPayload_isSome : (∃ c, copyPayload sg cmd m = some c) ↔
    (m.resp.hdr.plen ≠ 0 → ∃ p data, m.resp.payload = some p ∧
      sg.copyTo cmd.sgArray p m.len = some data) := by
  unfold copyPayload
  split
  · rename_i h0
    simp [h0, Option.bind_eq_some_iff]
  · rename_i h0
    simp [h0]

/-- **When the handler completes a command**: always with the all-good
status, and whenever no assertion stops it. -/
theorem cbMppRespHandler_iff : (∃ c, cbMppRespHandler sg cmd m = some c) ↔
    PassesAsserts sg cmd m := by
  have hne : readMsg ≠ writeMsg := by decide
  unfold cbMppRespHandler
  split
  · rename_i hr
    simp only [PassesAsserts, hr, hne, true_and, false_and, or_false, ← copyPayload_isSome,
      respReadCmd, guard]
    by_cases h₁ : m.hdr.status = 0 <;> by_cases h₂ : sg.getDataLen cmd.sgArray = m.resp.hdr.plen <;>
      by_cases h₃ : m.len = m.resp.hdr.plen <;> simp [h₁, h₂, h₃, Option.bind_eq_some_iff]
  · rename_i hr
    split
    · rename_i hw
      simp only [PassesAsserts, hw, hne.symm, true_and, false_and, false_or, respWriteCmd, guard]
      by_cases h₁ : m.resp.hdr.plen = 0 <;> by_cases h₂ : m.resp.payload = none <;> simp [h₁, h₂]
    · rename_i hw
      simp [PassesAsserts, hr, hw]

theorem completedGood (h : cbMppRespHandler sg cmd m = some cmd') : CompletedGood cmd' m.len := by
  simp only [cbMppRespHandler, respReadCmd, respWriteCmd, guard, Option.bind_eq_bind] at h
  split at h
  · simp only [Option.bind_eq_some_iff] at h
    obtain ⟨-, -, -, -, -, -, c, -, h⟩ := h
    rw [← Option.some.inj h]
    exact ⟨rfl, rfl, rfl, rfl, rfl⟩
  · split at h
    · simp only [Option.bind_eq_some_iff] at h
      obtain ⟨-, -, -, -, h⟩ := h
      rw [← Option.some.inj h]
      exact ⟨rfl, rfl, rfl, rfl, rfl⟩
    · cases h

/-- **A command is completed as good only on status 0 exactly when** the
status is 0 or an assertion stops the response for another reason. -/
theorem completed_only_on_success_iff (sg : SgOps) (cmd : ScsiCommand) (m : Request) :
    (∀ cmd', cbMppRespHandler sg cmd m = some cmd' → CompletedGood cmd' m.len →
      m.resp.hdr.status = 0) ↔ m.resp.hdr.status = 0 ∨ ¬ PassesAsserts sg cmd m := by
  constructor
  · intro h
    by_cases hp : PassesAsserts sg cmd m
    · obtain ⟨c, hc⟩ := cbMppRespHandler_iff.2 hp
      exact .inl (h c hc (completedGood hc))
    · exact .inr hp
  · rintro (h | h) c hc -
    · exact h
    · exact absurd (cbMppRespHandler_iff.1 ⟨c, hc⟩) h

/-- A device that takes nothing: the storage side answers the write of
4096 bytes with status 65535, and a response with that status and shape
completes the command as if all 4096 bytes were on the device. -/
theorem failed_write_completed :
    let dev : Splitter.Device := ⟨fun _ _ => [], fun _ _ _ => 0⟩
    let w : Splitter.CmdMsg := ⟨⟨7, 0x221, 32, 4096, 0⟩, 0, 4096, some []⟩
    let cmd : ScsiCommand := ⟨.other 1, .other 1, .other 1, 0, [], false⟩
    ∃ r, Splitter.rpcMsgHandler dev w = some r ∧ r.hdr.status = 65535 ∧ r.hdr.plen = 0 ∧
      r.payload = none ∧
      ¬ ∀ cmd', cbMppRespHandler ⟨List.length, fun _ p _ => some p⟩ cmd
          ⟨⟨7, 0x221, 48, 4096, 0⟩, 0, 4096, ⟨⟨7, 0x220, 48, 0, r.hdr.status⟩, r.payload⟩⟩ =
            some cmd' →
        CompletedGood cmd' 4096 → r.hdr.status = 0 := by
  refine ⟨_, rfl, rfl, rfl, rfl, fun h => ?_⟩
  have := h _ rfl ⟨rfl, rfl, rfl, rfl, rfl⟩
  exact absurd this (by decide)

end Mpp

end VmwareProto
