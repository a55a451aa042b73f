import VmwareProto.Splitter.Disk
import VmwareProto.Splitter.Session
/-!
# A remote block store

A client and a server on one connection, with the device behind the server
and what is seen of the client's operations from outside. The handler makes
its calls of the device in one stretch, between the messages; how much each
of them moves is not determined.
-/

namespace VmwareProto

namespace Splitter

open Rpc
open Libtask (TaskId)

/-- The operation on the device. -/
def ClientOp.toOp : ClientOp → Option Op
  | sendOpen => none
  | doWrite len offset fill => some (.write len offset (List.replicate payloadSz fill))
  | doRead len offset => some (.read len offset)

/-- What a client's task is about. -/
def Task.op : Task → Option ClientOp
  | getData op | getMsg op _ | fill op _ | filled op _ | calling op _ => some op
  | _ => none

/-- What the client returns, and the payload of the response. -/
def result (r : Msg) : Result := ⟨if r.hdr.status = 0 then 0 else -1, r.payloadBytes⟩

/-- `rpc_response` marks the answer as one. -/
def asResponse (m : CmdMsg) : CmdMsg := { m with hdr := m.hdr.setResp }

/-- The calls of a handler moved `parts`, and came to what `dev` says. -/
structure Ran (dev : Device) (errno : ℕ) (parts : List ℕ) (m : CmdMsg) (d : Disk) (h : Handling)
    (d' : Disk) : Prop where
  served : serve errno m d parts = some (h, d')
  moved : ∀ k ∈ parts, 0 < k
  ended : h.loop = none
  answers : (rpcMsgHandler dev m).map asResponse = some h.msg

/-- A session, the device, and the history; `number` is the number of the
operation that a client's task is at. -/
structure Store where
  session : Session
  disk : Disk
  history : List (Linear.Event Op Result)
  number : TaskId → ℕ

inductive StoreAction
  /-- a client's task calls `op` -/
  | call (n : TaskId) (i : ℕ) (op : ClientOp)
  /-- and returns -/
  | ret (n : TaskId)
  /-- a handler's run, with calls of the device that move `parts` -/
  | serve (n : TaskId) (dev : Device) (errno : ℕ) (parts : List ℕ) (calloc : Option DataAddr)
  | other (x : SessionAction)

namespace StoreAction

/-- What neither calls an operation, nor returns, nor uses the device. -/
def Plain : SideAction → Prop
  | .start _ _ | .finish _ | .handle _ _ _ => False
  | _ => True

variable (T : Store)

def Enabled : StoreAction → Prop
  | call n i op => sessionSystem.enabled T.session ⟨.client, .start n op⟩ ∧
      (op.toOp).isSome = true ∧ ∀ o, .call i o ∉ T.history
  | ret n => sessionSystem.enabled T.session ⟨.client, .finish n⟩
  | serve n dev errno parts calloc =>
      sessionSystem.enabled T.session ⟨.server, .handle n dev calloc⟩ ∧
        ∀ a m, (T.session .server).task n = .handle a →
          (T.session .server).rpc.chan.msgs a = some m →
            ∃ h d, Ran dev errno parts (cmd m) T.disk h d
  | other x => sessionSystem.enabled T.session x ∧ Plain x.act

def exec : StoreAction → Option Store
  | call n i op => do
      let o ← op.toOp
      let S ← sessionSystem.exec T.session ⟨.client, .start n op⟩
      some ⟨S, T.disk, T.history ++ [.call i o], Function.update T.number n i⟩
  | ret n => do
      let a ← ((T.session .client).task n).msg
      let m ← (T.session .client).rpc.chan.msgs a
      let b ← m.resp
      let r ← (T.session .client).rpc.chan.msgs b
      let S ← sessionSystem.exec T.session ⟨.client, .finish n⟩
      some ⟨S, T.disk, T.history ++ [.ret (T.number n) (result r)], T.number⟩
  | serve n dev errno parts calloc => do
      let a ← ((T.session .server).task n).msg
      let m ← (T.session .server).rpc.chan.msgs a
      let (_, d) ← Splitter.serve errno (cmd m) T.disk parts
      let S ← sessionSystem.exec T.session ⟨.server, .handle n dev calloc⟩
      -- while it waits for a data buffer, the handler has not used the device
      some ⟨S, if (S .server).task n = .handle a then T.disk else d, T.history, T.number⟩
  | other x => do
      let S ← sessionSystem.exec T.session x
      some ⟨S, T.disk, T.history, T.number⟩

end StoreAction

/-- A store whose device holds `d` at first. -/
def storeSystem (d : Disk) : System Store StoreAction where
  init T := sessionSystem.init T.session ∧ T.disk = d ∧ T.history = []
  enabled := StoreAction.Enabled
  exec := StoreAction.exec

/-! ## What requests and responses say -/

variable {cfg : Cfg} {op : ClientOp} {o : Op} {m m' : Msg} {dev : Device} {r : CmdMsg} {d d' : Disk}
  {errno : ℕ} {parts : List ℕ} {h : Handling}

/-- A message that asks for an operation. -/
structure Asks (o : Op) (m : Msg) : Prop where
  valid : o.Valid
  type : getMsgType m.hdr = o.msgtype
  cmd : IsCmd m o.offset o.len
  plen : m.hdr.plen = o.payloadlen
  data : m.payloadBytes = (o.payload.getD []).take o.payloadlen

theorem Asks.congr (h : Asks o m) (hl : m'.hdr.len = m.hdr.len) (hp : m'.hdr.plen = m.hdr.plen)
    (ht : getMsgType m'.hdr = getMsgType m.hdr) (hb : m'.body = m.body)
    (hpay : m'.payloadBytes = m.payloadBytes) : Asks o m' :=
  ⟨h.valid, ht.trans h.type, h.cmd.of_body hl hb, hp.trans h.plen, hpay.trans h.data⟩

/-- **What the client asks for.** -/
theorem GotFor.asks (hg : GotFor op m) (hv : op.Valid) (ho : op.toOp = some o) :
    Asks o (op.fill m) := by
  obtain ⟨ht, hl, hpl, hpay, hb⟩ := hg
  have hsz : 65535 ≤ payloadSz := by decide
  cases op with
  | sendOpen => cases ho
  | doWrite len offset fill =>
      obtain rfl := Option.some.inj ho
      obtain ⟨hpos, hle⟩ := hv
      have ht : m.hdr.type = BitVec.ofNat 16 (writeMsg <<< 4) := ht
      refine ⟨⟨hpos, hle, ?_⟩, ?_, isCmd_fillCmd offset len hl hb, hpl, ?_⟩
      · simp only [Op.payloadlen, Op.payload, Option.getD_some, List.length_replicate]
        exact hle.trans hsz
      · show m.hdr.type.toNat >>> 4 = writeMsg
        rw [ht]
        decide
      · have hbytes : m.payloadBytes = (m.payload.getD []).take m.hdr.plen := rfl
        show m.payloadBytes = _
        rw [hbytes, hpay, hpl]
        rfl
  | doRead len offset =>
      obtain rfl := Option.some.inj ho
      have ht : m.hdr.type = BitVec.ofNat 16 (readMsg <<< 4) := ht
      refine ⟨⟨hv.1, hv.2, Nat.zero_le _⟩, ?_, isCmd_fillCmd offset len hl hb, hpl, ?_⟩
      · show m.hdr.type.toNat >>> 4 = readMsg
        rw [ht]
        decide
      · have hbytes : m.payloadBytes = (m.payload.getD []).take m.hdr.plen := rfl
        show m.payloadBytes = _
        rw [hbytes, hpl]
        rfl

/-! ## Over the wire -/

/-- The payload arrives. -/
theorem Alike.payloadBytes (h : Alike m m') (hm : m.Framed ioCfg) :
    m'.payloadBytes = m.payloadBytes := by
  have hlen := hm.length_payloadBytes
  rw [Msg.payloadBytes, h.hdr, h.payload]
  split
  · rename_i hz
    rw [hz, List.length_eq_zero_iff] at hlen
    rw [hz, hlen]
    rfl
  · rw [Option.getD_some, ← hlen, List.take_length]

theorem Alike.asks (h : Alike m m') (hm : m.Framed ioCfg) (ha : Asks o m) : Asks o m' :=
  ha.congr (by rw [h.hdr]) (by rw [h.hdr]) (by rw [h.hdr]) (h.same ha.cmd.msglen ha.cmd.body)
    (h.payloadBytes hm)

theorem Alike.result (h : Alike m m') (hm : m.Framed ioCfg) : result m' = result m := by
  rw [Splitter.result, h.hdr, h.payloadBytes hm]
  rfl

/-! ## At the server -/

/-- **An operation that is served** has its effect on the device, and its
result in the answer. -/
theorem Ran.apply (hr : Ran dev errno parts (cmd m) d h d') (hs : Deliverable ioCfg m)
    (ha : Asks o m) (hx : rpcMsgHandler dev (cmd m) = some r) :
    d' = (d.apply o).1 ∧ result (answered m r) = (d.apply o).2 := by
  obtain ⟨hserve, hparts, hended, hanswers⟩ := hr
  rw [hx, Option.map_some, Option.some.injEq] at hanswers
  have hlen := hs.sendable.len_ge
  have hcc : (cmd m).hdr.isConnClosed = false := hs.stays_open
  have hclen : (cmd m).len = o.len := ha.cmd.len
  have hcoff : (cmd m).offset = o.offset := ha.cmd.offset
  have hmsg : r.hdr.setResp = h.msg.hdr ∧ r.payload = h.msg.payload := by
    rw [← hanswers]
    exact ⟨rfl, rfl⟩
  have hstatus : r.hdr.status = h.msg.hdr.status := by rw [← hmsg.1]; rfl
  have hplen : r.hdr.payloadlen = h.msg.hdr.payloadlen := by rw [← hmsg.1]; rfl
  cases o with
  | write len offset b =>
      have ht : getMsgType (cmd m).hdr = writeMsg := ha.type
      have hpl : m.hdr.plen = len.toNat := ha.plen
      have hbytes := hs.framed.length_payloadBytes
      have hdata : (m.payload.getD []).take len.toNat = b.take len.toNat := by
        rw [← hpl]
        exact ha.data.trans (by rw [hpl]; rfl)
      have hpay : (cmd m).len.toNat ≤ ((cmd m).payload.getD []).length := by
        rw [hclen]
        show len.toNat ≤ (m.payload.getD []).length
        rw [← hpl]
        exact hs.inBuffers.2
      obtain ⟨hm, rfl⟩ := serve_write hcc ht hlen hpay hparts hserve hended
      refine ⟨?_, ?_⟩
      · rw [hclen, hcoff]
        show d.store offset ((m.payload.getD []).take len.toNat) = d.store offset (b.take len.toNat)
        rw [hdata]
      · simp only [Splitter.result, answered, Msg.payloadBytes, MsgHdr.plen, hstatus, hplen, hmsg.2,
          hm, writeReply]
        rfl
  | read len offset =>
      have ht : getMsgType (cmd m).hdr = readMsg := ha.type
      have hle : len.toNat ≤ 65535 := ha.valid.2.1
      obtain ⟨hm, rfl⟩ := serve_read hcc ht hlen hparts hserve hended
      refine ⟨rfl, ?_⟩
      have hw : (len.setWidth 16).toNat = len.toNat := by
        rw [BitVec.toNat_setWidth]
        exact Nat.mod_eq_of_lt (by omega)
      have hst : r.hdr.status = 0 := by rw [hstatus, hm]; rfl
      have hpl : r.hdr.payloadlen.toNat = len.toNat := by
        rw [hplen, hm]
        show ((cmd m).len.setWidth 16).toNat = _
        rw [hclen]
        exact hw
      have hpay : r.payload = some (d'.bytes offset len.toNat ++
          List.replicate (payloadSz - (d'.bytes offset len.toNat).length) 0) := by
        rw [hmsg.2, hm, hclen, hcoff]
        rfl
      have hresult : result (answered m r) =
          ⟨if r.hdr.status = 0 then 0 else -1,
            (r.payload.getD []).take r.hdr.payloadlen.toNat⟩ := rfl
      rw [hresult, hst, hpl, hpay, Option.getD_some, List.take_left' (Disk.length_bytes _)]
      rfl

/-- What the device does for a message is what the array would do. -/
structure Device.Follows (dev : Device) (m : CmdMsg) (d : Disk) : Prop where
  read : getMsgType m.hdr = readMsg →
    dev.pread m.offset.toNat m.len.toNat = d.bytes m.offset m.len.toNat
  write : getMsgType m.hdr = writeMsg →
    dev.pwrite m.offset.toNat m.len.toNat (m.payload.getD []) = m.len.toNat

/-- **A handler has run** when its calls have come to an end. -/
theorem ran_of_follows (hs : Servable m)
    (ht : getMsgType (cmd m).hdr = readMsg ∨ getMsgType (cmd m).hdr = writeMsg)
    (hd : dev.Follows (cmd m) d)
    (hparts : ∀ k ∈ parts, 0 < k) (hserve : serve errno (cmd m) d parts = some (h, d'))
    (hl : h.loop = none) : Ran dev errno parts (cmd m) d h d' := by
  have hlen := hs.sendable.len_ge
  have hcc : (cmd m).hdr.isConnClosed = false := hs.stays_open
  have hok : toStatus 0 = 0 := by decide
  refine ⟨hserve, hparts, hl, ?_⟩
  rcases ht with ht | ht
  · have ho : getMsgType (cmd m).hdr ≠ openMsg := by
      rw [ht]
      decide
    have hguard : (cmd m).payload = none ∧ (cmd m).hdr.payloadlen = 0 := by
      by_contra hno
      rw [serve, begin_read errno hcc ht, if_neg hno] at hserve
      cases hserve
    obtain ⟨hm, -⟩ := serve_read hcc ht hlen hparts hserve hl
    rw [hm, rpcMsgHandler, if_neg ho, if_pos ht]
    have hread : ssdRead dev (cmd m) = (0, d.bytes (cmd m).offset (cmd m).len.toNat) := by
      rw [ssdRead, hd.read ht, Disk.length_bytes, if_neg (not_not.2 rfl)]
    rw [handleRead, guard, if_pos hguard, hread]
    simp only [hok, guard, if_true]
    rfl
  · have ho : getMsgType (cmd m).hdr ≠ openMsg := by
      rw [ht]
      decide
    have hr : getMsgType (cmd m).hdr ≠ readMsg := by
      rw [ht]
      decide
    have hguard : (cmd m).payload ≠ none ∧ (cmd m).hdr.plen = (cmd m).len.toNat := by
      by_contra hno
      rw [serve, begin_write errno hcc ht, if_neg hno] at hserve
      cases hserve
    have hpay : (cmd m).len.toNat ≤ ((cmd m).payload.getD []).length := by
      rw [← hguard.2]
      exact hs.inBuffers.2
    obtain ⟨hm, -⟩ := serve_write hcc ht hlen hpay hparts hserve hl
    rw [hm, rpcMsgHandler, if_neg ho, if_neg hr, if_pos ht]
    have hst : ssdWrite dev (cmd m) = 0 := if_neg (not_not.2 (hd.write ht).symm)
    rw [handleWrite, guard, if_pos hguard, hst, hok]
    rfl

end Splitter

end VmwareProto
