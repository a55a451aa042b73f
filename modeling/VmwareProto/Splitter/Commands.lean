import VmwareProto.Rpc.Delivery
import VmwareProto.Splitter.Handler
/-!
# Reads and writes from end to end

`do_write` and `do_read` build their requests on the client's channel, the
server's receiver hands them to `rpc_msg_handler`, and the answer goes back
the same way. The length of a transfer is 64 bits wide in the command and
in the API, and 16 in the header that says how many bytes follow.
-/

namespace VmwareProto

namespace Splitter

open Rpc

/-- `sizeof(read_cmd_t)`, which is also `MAXMSGSZ`. -/
def cmdSize : ℕ := 32

/-- The sizes both ends give to `rpc_chan_init`. -/
def ioCfg : RecvCfg := ⟨cmdSize, payloadSz, by decide⟩

/-- A message as a `read_cmd_t` or `write_cmd_t`: `offset` lies at byte 16
of the header and `len` at byte 24. -/
def cmd (m : Msg) : CmdMsg where
  hdr := m.hdr
  offset := BitVec.ofNat 64 (leValue ((m.body.drop 4).take 8))
  len := BitVec.ofNat 64 (leValue ((m.body.drop 12).take 8))
  payload := m.payload

/-- `w->offset = offset; w->len = len`. -/
def fillCmd (m : Msg) (offset len : BitVec 64) : Msg :=
  { m with body := m.body.take 4 ++ leBytes 8 offset.toNat ++ leBytes 8 len.toNat ++ m.body.drop 20 }

/-- `do_write` up to its `rpc_request`, with the data buffer `b`. Returns
the message. -/
def doWriteMsg (cfg : Cfg) (c : Channel) (alloc : Addr) (len offset : BitVec 64) (b : List Byte) :
    Option Msg := do
  let (c, a) ← c.msgGet cfg alloc writeMsg cmdSize len.toNat (some b)
  let m ← c.msgs a
  some (fillCmd m offset len)

/-- `do_read` up to its `rpc_request`. -/
def doReadMsg (cfg : Cfg) (c : Channel) (alloc : Addr) (len offset : BitVec 64) : Option Msg := do
  let (c, a) ← c.msgGet cfg alloc readMsg cmdSize 0 none
  let m ← c.msgs a
  some (fillCmd m offset len)

/-- What `rpc_request` sends. -/
def request (m : Msg) : Msg := { m with hdr := m.hdr.setReq }

/-- What `rpc_response` sends, for the answer `r` to the message `m`. -/
def answer (m : Msg) (r : CmdMsg) : Msg := { m with hdr := r.hdr.setResp, payload := r.payload }

/-- A message on a stream, and what `_rpc_receive` may make of it when the
transport makes no error. -/
def Arrives (bs : List Byte) (m : Msg) : Prop :=
  ∃ σ, ((receiveSystem ioCfg bs).only NoError).Reachable σ ∧ σ.recv.finished = true ∧
    m = { Msg.ofBytes ioCfg σ.recv.stored with payload := σ.recv.payload }

variable {cfg : Cfg} {c c' : Channel} {a alloc : Addr} {len offset : BitVec 64} {b : List Byte}
  {m q : Msg} {dev : Device} {r : CmdMsg} {rest : List Byte}

/-! ## What is sent -/

/-- The message `rpc_msg_get` returns. -/
theorem msgGet_message {msgtype msglen payloadlen : ℕ} {payload : Option (List Byte)}
    (h : c.msgGet cfg alloc msgtype msglen payloadlen payload = some (c', a)) :
    ∃ m, c'.msgs a = some m ∧ m.body = List.replicate (cfg.msgsz - hdrSize) 0 ∧
      m.payload = payload ∧ m.hdr.type = BitVec.ofNat 16 (msgtype <<< 4) ∧
      m.hdr.msglen = BitVec.ofNat 16 msglen ∧ m.hdr.payloadlen = BitVec.ofNat 16 payloadlen ∧
      m.hdr.status = 0 := by
  unfold Channel.msgGet at h
  split at h
  · cases h
  · simp only [Option.bind_eq_bind, Option.bind_eq_some_iff] at h
    obtain ⟨⟨c₁, a₁⟩, -, h⟩ := h
    obtain ⟨rfl, rfl⟩ := Prod.mk.inj (Option.some.inj h)
    exact ⟨_, Function.update_self .., by simp [Msg.ofBytes], rfl, rfl, rfl, rfl, rfl⟩

/-- A command in a message: its length, and the room for its fields. -/
structure IsCmd (m : Msg) (offset len : BitVec 64) : Prop where
  msglen : m.hdr.len = cmdSize
  body : m.body.length = 20
  offset : (cmd m).offset = offset
  len : (cmd m).len = len

theorem isCmd_fillCmd (offset len : BitVec 64) (hlen : m.hdr.len = cmdSize) (hb : m.body.length = 20) :
    IsCmd (fillCmd m offset len) offset len := by
  have h₄ : (m.body.take 4).length = 4 := by simp [hb]
  have h₈ : ∀ x : BitVec 64, BitVec.ofNat 64 (leValue (leBytes 8 x.toNat)) = x :=
    fun x => ofNat_leValue_leBytes (by norm_num) x
  refine ⟨hlen, by simp [fillCmd, hb], ?_, ?_⟩
  · rw [← h₈ offset]
    simp only [cmd, fillCmd, List.append_assoc]
    rw [List.drop_append_of_le_length (by rw [h₄]), List.drop_of_length_le (by rw [h₄]),
      List.nil_append, List.take_append_of_le_length (by simp), List.take_of_length_le (by simp), h₈]
  · have h₁₂ : (m.body.take 4 ++ leBytes 8 offset.toNat).length = 12 := by simp [hb]
    rw [← h₈ len]
    simp only [cmd, fillCmd]
    rw [List.append_assoc (m.body.take 4 ++ _), ← h₁₂, List.drop_left,
      List.take_append_of_le_length (by simp), List.take_of_length_le (by simp), h₈]

/-- A command is in the body. -/
theorem IsCmd.of_body {m m' : Msg} (h : IsCmd m offset len) (hlen : m'.hdr.len = m.hdr.len)
    (hb : m'.body = m.body) : IsCmd m' offset len := by
  refine ⟨hlen.trans h.msglen, by rw [hb, h.body], ?_, ?_⟩
  · rw [← h.offset, cmd, cmd, hb]
  · rw [← h.len, cmd, cmd, hb]

theorem IsCmd.request (h : IsCmd m offset len) : IsCmd (request m) offset len := h.of_body rfl rfl

/-! ## What arrives -/

/-- The copy of a message that the other end hands on. -/
def copy (m : Msg) : Msg :=
  ⟨m.hdr, m.body, m.received.payload, none, [], .reading⟩

theorem IsCmd.copy (h : IsCmd m offset len) : IsCmd (copy m) offset len := h.of_body rfl rfl

theorem ofBytes_hdrBytes (hlen : m.hdr.len = cmdSize) (hb : m.body.length = 20) :
    Msg.ofBytes ioCfg m.hdrBytes = ⟨m.hdr, m.body, none, none, [], .reading⟩ := by
  have hbytes : m.hdrBytes = m.hdr.encode ++ m.body := by
    rw [Msg.hdrBytes, hlen]
    exact List.take_of_length_le (by simp [hb, hdrSize, cmdSize])
  have hlength : m.hdrBytes.length = 32 := by simp [hbytes, hb, hdrSize]
  have hdrop : m.hdrBytes.drop hdrSize = m.body := by
    rw [hbytes, ← m.hdr.length_encode, List.drop_left]
  rw [Msg.ofBytes, hdrop, hlength, hbytes, MsgHdr.decode_encode]
  simp [ioCfg, cmdSize, hdrSize]

/-- **What arrives is the copy.** -/
theorem arrives_iff (hm : m.Framed ioCfg) (hlen : m.hdr.len = cmdSize) (hb : m.body.length = 20) :
    Arrives (m.wire ++ rest) q ↔ q = copy m := by
  have hcopy : copy m =
      { Msg.ofBytes ioCfg m.received.stored with payload := m.received.payload } := by
    rw [show m.received.stored = m.hdrBytes from rfl, ofBytes_hdrBytes hlen hb, copy]
  constructor
  · rintro ⟨σ, hr, hf, rfl⟩
    rw [(delivery hm hr).1 hf, hcopy]
  · rintro rfl
    have h₀ : ((receiveSystem ioCfg (m.wire ++ rest)).only NoError).Reachable
        ⟨.start true, m.wire ++ rest⟩ := .init rfl
    obtain ⟨as, has⟩ := (delivery hm h₀).2
    exact ⟨_, has.reachable h₀, rfl, hcopy⟩

/-- The message sent arrives as one that announces `n` bytes of payload and
has them. -/
def Survives (m : Msg) (rest : List Byte) (n : ℕ) : Prop :=
  (∃ q, Arrives (m.wire ++ rest) q) ∧ ∀ q, Arrives (m.wire ++ rest) q →
    q.hdr.plen = n ∧ ∃ p, q.payload = some p ∧ p.length = n

/-- **The 16 bits of the header decide.** -/
theorem survives_iff (hm : m.Framed ioCfg) (hlen : m.hdr.len = cmdSize) (hb : m.body.length = 20)
    {n : ℕ} (hn : 0 < n) (hp : m.hdr.plen = n % 65536) :
    Survives m rest n ↔ n < 65536 := by
  constructor
  · intro h
    have hq := (h.2 (copy m) ((arrives_iff hm hlen hb).2 rfl)).1
    have : m.hdr.plen = n := hq
    omega
  · intro h
    refine ⟨⟨copy m, (arrives_iff hm hlen hb).2 rfl⟩, fun q hq => ?_⟩
    obtain rfl := (arrives_iff hm hlen hb).1 hq
    have hn' : m.hdr.plen = n := by omega
    refine ⟨hn', m.payloadBytes, ?_, by rw [hm.length_payloadBytes, hn']⟩
    rw [copy, Msg.received, if_neg (by omega)]

/-! ## Both ways -/

/-- A `do_write` of `len` bytes reaches the handler with that length. -/
def WriteSurvives (cfg : Cfg) (c : Channel) (alloc : Addr) (len offset : BitVec 64) (b : List Byte) :
    Prop :=
  ∃ m, doWriteMsg cfg c alloc len offset b = some m ∧
    ∀ rest, Survives (request m) rest len.toNat

/-- A `do_read` of `len` bytes reaches the handler, which answers it, and
the answer comes back with that length. -/
def ReadSurvives (cfg : Cfg) (c : Channel) (alloc : Addr) (len offset : BitVec 64) (dev : Device) :
    Prop :=
  ∃ m, doReadMsg cfg c alloc len offset = some m ∧
    ∀ rest, (∃ q, Arrives ((request m).wire ++ rest) q) ∧
      ∀ q, Arrives ((request m).wire ++ rest) q →
        ∃ r, rpcMsgHandler dev (cmd q) = some r ∧ ∀ rest, Survives (answer q r) rest len.toNat

theorem dataBuf_ioCfg : ioCfg.dataBuf = payloadSz := by decide

/-- The message of a `do_write` or `do_read`: a command with the type, the
payload and the length it was got with. -/
theorem msgGet_fillCmd {msgtype n : ℕ} {p : Option (List Byte)} (offset len : BitVec 64)
    (hcfg : cfg.toRecvCfg = ioCfg)
    (h : c.msgGet cfg alloc msgtype cmdSize n p = some (c', a)) :
    ∃ m, c'.msgs a = some m ∧ IsCmd (fillCmd m offset len) offset len ∧
      m.payload = p ∧ m.hdr.type = BitVec.ofNat 16 (msgtype <<< 4) ∧ m.hdr.plen = n % 65536 := by
  obtain ⟨m, hm, hbody, hp, ht, hl, hpl, -⟩ := msgGet_message h
  refine ⟨m, hm, isCmd_fillCmd _ _ ?_ ?_, hp, ht, ?_⟩
  · rw [MsgHdr.len, hl]
    rfl
  · rw [hbody, hcfg]
    rfl
  · rw [MsgHdr.plen, hpl, BitVec.toNat_ofNat]

/-- A command whose payload lies in a data buffer may be sent. -/
theorem IsCmd.framed (h : IsCmd m offset len) (hp : m.hdr.plen ≤ (m.payload.getD []).length)
    (hbuf : m.hdr.plen ≤ payloadSz) : m.Framed ioCfg where
  len_ge := by rw [h.msglen]; decide
  len_le := by rw [h.msglen]; decide
  plen_le := by rwa [dataBuf_ioCfg]
  inBuffers := ⟨by rw [h.msglen, h.body]; decide, hp⟩

/-- A pool that has a buffer gives `rpc_msg_get` one. -/
theorem msgGet_isSome (msgtype n : ℕ) (p : Option (List Byte))
    (hpool : (c.poolGet cfg alloc).isSome) (hp : p = none → n = 0) :
    ∃ c' a, c.msgGet cfg alloc msgtype cmdSize n p = some (c', a) := by
  obtain ⟨⟨c₁, a⟩, h₁⟩ := Option.isSome_iff_exists.1 hpool
  have hassert : ¬(cmdSize < hdrSize ∨ p = none ∧ n ≠ 0) := by
    rintro (h | ⟨h, hn⟩)
    · exact absurd h (by decide)
    · exact hn (hp h)
  simp only [Channel.msgGet, if_neg hassert, h₁]
  exact ⟨_, a, rfl⟩

/-- **A write's length survives exactly when it fits the header.** -/
theorem writeSurvives_iff (hcfg : cfg.toRecvCfg = ioCfg) (hpool : (c.poolGet cfg alloc).isSome)
    (hb : b.length = payloadSz) (h₁ : 1 ≤ len.toNat) :
    WriteSurvives cfg c alloc len offset b ↔ len.toNat < 65536 := by
  obtain ⟨c', a, hget⟩ := msgGet_isSome writeMsg len.toNat (some b) hpool (by simp)
  obtain ⟨m, hm, hcmd, hp, -, hpl⟩ := msgGet_fillCmd offset len hcfg hget
  have hmsg : doWriteMsg cfg c alloc len offset b = some (fillCmd m offset len) := by
    simp only [doWriteMsg, hget, Option.bind_eq_bind, Option.bind_some, hm]
  have hreq : IsCmd (request (fillCmd m offset len)) offset len :=
    ⟨hcmd.msglen, hcmd.body, hcmd.offset, hcmd.len⟩
  have hplen : (request (fillCmd m offset len)).hdr.plen = len.toNat % 65536 := hpl
  have hsz : 65536 ≤ payloadSz := by decide
  have hpay : (request (fillCmd m offset len)).payload = some b := hp
  have hfr : (request (fillCmd m offset len)).Framed ioCfg := by
    refine hreq.framed ?_ ?_
    · rw [hplen, hpay, Option.getD_some, hb]
      omega
    · omega
  have hiff : ∀ rest, Survives (request (fillCmd m offset len)) rest len.toNat ↔ len.toNat < 65536 :=
    fun rest => survives_iff hfr hreq.msglen hreq.body h₁ hplen
  constructor
  · rintro ⟨m', hm', h⟩
    obtain rfl := Option.some.inj (hmsg.symm.trans hm')
    exact (hiff []).1 (h [])
  · exact fun h => ⟨_, hmsg, fun rest => (hiff rest).2 h⟩

/-- What the handler makes of a read that the device serves in full. -/
theorem rpcMsgHandler_read {x : CmdMsg} (dev : Device) (ht : getMsgType x.hdr = readMsg) (hp : x.payload = none)
    (hpl : x.hdr.payloadlen = 0)
    (hdev : (dev.pread x.offset.toNat x.len.toNat).length = x.len.toNat) :
    ∃ r, rpcMsgHandler dev x = some r ∧ r.hdr.msglen = x.hdr.msglen ∧
      r.hdr.plen = x.len.toNat % 65536 ∧ ∃ p, r.payload = some p ∧
        p.length = x.len.toNat + (payloadSz - x.len.toNat) := by
  have ho : getMsgType x.hdr ≠ openMsg := by
    rw [ht]
    decide
  have hst : toStatus 0 = 0 := by decide
  let data := dev.pread x.offset.toNat x.len.toNat
  let p := data ++ List.replicate (payloadSz - data.length) 0
  refine ⟨{ x with
    hdr := { x.hdr with payloadlen := x.len.setWidth 16, status := 0 }, payload := some p },
    ?_, rfl, ?_, p, rfl, ?_⟩
  · rw [rpcMsgHandler, if_neg ho, if_pos ht, handleRead, ssdRead]
    simp only [hp, hpl, guard, and_self, if_true, hdev, ne_eq, not_true_eq_false, if_false, hst]
    simp only [p, data, hdev]
    rfl
  · simp [MsgHdr.plen]
  · simp [p, data, hdev]

/-- **So does a read's.** -/
theorem readSurvives_iff (hcfg : cfg.toRecvCfg = ioCfg) (hpool : (c.poolGet cfg alloc).isSome)
    (hdev : (dev.pread offset.toNat len.toNat).length = len.toNat)
    (h₁ : 1 ≤ len.toNat) (h₂ : len.toNat ≤ payloadSz) :
    ReadSurvives cfg c alloc len offset dev ↔ len.toNat < 65536 := by
  obtain ⟨c', a, hget⟩ := msgGet_isSome readMsg 0 none hpool (by simp)
  obtain ⟨m, hm, hcmd, hp, ht, hpl⟩ := msgGet_fillCmd offset len hcfg hget
  have hmsg : doReadMsg cfg c alloc len offset = some (fillCmd m offset len) := by
    simp only [doReadMsg, hget, Option.bind_eq_bind, Option.bind_some, hm]
  set m' := request (fillCmd m offset len) with hm'
  have hreq : IsCmd m' offset len := ⟨hcmd.msglen, hcmd.body, hcmd.offset, hcmd.len⟩
  have hplen : m'.hdr.plen = 0 := by
    rw [hm', request, MsgHdr.plen_setReq]
    exact hpl
  have hfr : m'.Framed ioCfg := hreq.framed (by omega) (by omega)
  -- what the handler is given
  have hq : ∀ {rest q}, Arrives (m'.wire ++ rest) q ↔ q = copy m' :=
    arrives_iff hfr hreq.msglen hreq.body
  have htype : getMsgType (cmd (copy m')).hdr = readMsg := by
    have : m'.hdr.type = BitVec.ofNat 16 (readMsg <<< 4) ||| 1 := by rw [← ht]; rfl
    rw [getMsgType, show (cmd (copy m')).hdr = m'.hdr from rfl, this]
    decide
  have hnone : (cmd (copy m')).payload = none := by
    show (copy m').payload = none
    rw [copy, Msg.received, if_pos hplen]
  have hzero : (cmd (copy m')).hdr.payloadlen = 0 := BitVec.eq_of_toNat_eq hplen
  have hoff : (cmd (copy m')).offset = offset := hreq.offset
  have hlen : (cmd (copy m')).len = len := hreq.len
  obtain ⟨r, hr, hrl, hrp, p, hpay, hplength⟩ := rpcMsgHandler_read dev htype hnone hzero
    (by rw [hoff, hlen]; exact hdev)
  rw [hlen] at hrp hplength
  -- what it answers
  have hans : IsCmd (answer (copy m') r) offset len :=
    ⟨by rw [← hreq.msglen]; exact congrArg BitVec.toNat hrl, hreq.body, hoff, hlen⟩
  have hanspl : (answer (copy m') r).hdr.plen = len.toNat % 65536 := hrp
  have hansfr : (answer (copy m') r).Framed ioCfg := by
    refine hans.framed ?_ ?_
    · rw [hanspl, answer, hpay, Option.getD_some, hplength]
      omega
    · omega
  have hiff : ∀ rest, Survives (answer (copy m') r) rest len.toNat ↔ len.toNat < 65536 :=
    fun rest => survives_iff hansfr hans.msglen hans.body h₁ hanspl
  constructor
  · rintro ⟨m'', hm'', h⟩
    obtain rfl := Option.some.inj (hmsg.symm.trans hm'')
    obtain ⟨r', hr', hs⟩ := (h []).2 _ (hq.2 rfl)
    obtain rfl := Option.some.inj (hr.symm.trans hr')
    exact (hiff []).1 (hs [])
  · refine fun h => ⟨_, hmsg, fun rest => ⟨⟨_, hq.2 rfl⟩, fun q hq' => ?_⟩⟩
    obtain rfl := hq.1 hq'
    exact ⟨r, hr, fun rest => (hiff rest).2 h⟩

/-- **The length of a transfer survives the wire, in both directions, as
long as it is less than 65536**, though the buffers take a whole megabyte:
from there on the 16 bits of the header hold another length. -/
theorem length_survives_iff (hcfg : cfg.toRecvCfg = ioCfg) (hpool : (c.poolGet cfg alloc).isSome)
    (hb : b.length = payloadSz) (hdev : (dev.pread offset.toNat len.toNat).length = len.toNat)
    (h₁ : 1 ≤ len.toNat) (h₂ : len.toNat ≤ payloadSz) :
    (WriteSurvives cfg c alloc len offset b ↔ len.toNat < 65536) ∧
      (ReadSurvives cfg c alloc len offset dev ↔ len.toNat < 65536) :=
  ⟨writeSurvives_iff hcfg hpool hb h₁, readSurvives_iff hcfg hpool hdev h₁ h₂⟩

/-- The channel both ends set up, on a pool that has allocated nothing. -/
def ioChanCfg : Cfg := { ioCfg with nway := 128, hashsz := 256, hashsz_pos := by decide }

theorem length_survives_iff_block : (8192 : ℕ) < 65536 ∧
    (WriteSurvives ioChanCfg (.initial []) 7 8192 4096 (List.replicate payloadSz 0) ↔
      (8192 : BitVec 64).toNat < 65536) :=
  ⟨by decide, (@length_survives_iff ioChanCfg (.initial []) 7 8192 4096 (List.replicate payloadSz 0)
    ⟨fun _ n => List.replicate n 0, fun _ n _ => n⟩ rfl (by decide) (List.length_replicate ..)
    (List.length_replicate ..) (by decide) (by decide)).1⟩

/-- Of 65537 bytes either side announces one. -/
theorem length_lost :
    ¬WriteSurvives ioChanCfg (.initial []) 7 65537 4096 (List.replicate payloadSz 0) ∧
    ¬ReadSurvives ioChanCfg (.initial []) 7 65537 4096
      ⟨fun _ n => List.replicate n 0, fun _ n _ => n⟩ := by
  constructor
  · rw [writeSurvives_iff rfl (by decide) (List.length_replicate ..) (by decide)]
    decide
  · rw [readSurvives_iff rfl (by decide) (List.length_replicate ..) (by decide) (by decide)]
    decide

end Splitter

end VmwareProto
