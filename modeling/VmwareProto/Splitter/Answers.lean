import VmwareProto.Splitter.Commands
import VmwareProto.Splitter.Transfer
/-!
# The handler, one device call at a time

`rpc_msg_handler` on a message of an enabled channel whose transport makes
no error, with the buffers it gets and puts and the answers it sends as
events. It runs to its next `pread` or `pwrite` or to its end; `none` is a
failed assertion.
-/

namespace VmwareProto

namespace Splitter

open Rpc

/-- What a handler does to its channel. -/
inductive Event
  | databufGet
  | databufPut
  | msgPut
  /-- `rpc_response` sends the message -/
  | response (m : CmdMsg)
  | chanClose
  | chanDeinit
  deriving DecidableEq, Repr

/-- The answers among the events. -/
def responses (es : List Event) : List CmdMsg :=
  es.filterMap fun
    | .response m => some m
    | _ => none

/-- A handler and its message; `loop` is the transfer under way, and `none`
once the handler has returned. -/
structure Handling where
  msg : CmdMsg
  loop : Option Loop
  events : List Event
  deriving DecidableEq, Repr

/-- A part of the data buffer. -/
structure Access where
  start : ℕ
  size : ℕ
  deriving DecidableEq, Repr

namespace Handling

/-- `rpc_msg_put` of an incoming message. -/
def msgPut (m : CmdMsg) : List Event := if m.payload = none then [.msgPut] else [.databufPut, .msgPut]

/-- `rpc_response`. A payload of no bytes cannot be written: `write` returns
0, which counts as a closed connection. -/
def respond (h : Handling) : Option Handling :=
  if h.msg.hdr.len < hdrSize ∨ h.msg.payload = none ∧ h.msg.hdr.plen ≠ 0 then none
  else
    let m := { h.msg with hdr := h.msg.hdr.setResp }
    let close := if m.payload ≠ none ∧ m.hdr.plen = 0 then [.chanClose] else []
    some ⟨m, none, h.events ++ .response m :: (close ++ msgPut m)⟩

/-- What `ssd_read` and `ssd_write` make of what the loop returns. -/
def ssdResult (m : CmdMsg) (l : Loop) : ℤ := if m.len.toNat ≠ l.bc then -1 else 0

/-- From the end of the loop on. -/
def finish (h : Handling) (l : Loop) : Option Handling :=
  let status := toStatus (ssdResult h.msg l)
  if getMsgType h.msg.hdr = readMsg then
    let p := l.data ++ List.replicate (payloadSz - l.bc) 0
    let m := { h.msg with hdr := { h.msg.hdr with status := status }, payload := some p }
    if status = 0 then respond { h with msg := m } else none
  else
    let m := { h.msg with hdr := { h.msg.hdr with status := status, payloadlen := 0 }, payload := none }
    respond { h with msg := m, events := h.events ++ [.databufPut] }

/-- To the next call, if there is one. -/
def settle (h : Handling) (l : Loop) : Option Handling :=
  if l.Running then some { h with loop := some l } else h.finish l

/-- The handler up to its first call. -/
def begin (errno : ℕ) (m : CmdMsg) : Option Handling :=
  if m.hdr.isConnClosed = true then some ⟨m, none, msgPut m ++ [.chanClose, .chanDeinit]⟩
  else if getMsgType m.hdr = openMsg then
    if m.payload = none ∧ m.hdr.payloadlen = 0 then respond ⟨m, none, []⟩ else none
  else if getMsgType m.hdr = readMsg then
    if m.payload = none ∧ m.hdr.payloadlen = 0 then
      settle ⟨{ m with
        hdr := { m.hdr with payloadlen := m.len.setWidth 16 }
        payload := some (List.replicate payloadSz 0) }, none, [.databufGet]⟩
        (.start m.len.toNat m.offset errno)
    else none
  else if getMsgType m.hdr = writeMsg then
    if m.payload ≠ none ∧ m.hdr.plen = m.len.toNat then
      settle ⟨m, none, []⟩ (.start m.len.toNat m.offset errno)
    else none
  else none

/-- One call of the device. -/
def call (h : Handling) (r : CallResult) : Option Handling :=
  match h.loop with
  | none => none
  | some l => h.settle (l.call r)

/-- Where in the data buffer the call stores what it read, or finds what it
may write. -/
def access (h : Handling) (l : Loop) (r : CallResult) : Access :=
  if getMsgType h.msg.hdr = readMsg then
    ⟨l.bc, match r with
      | .moved bs => (bs.take l.count).length
      | .error _ => 0⟩
  else ⟨l.bc, l.count⟩

/-- The handler after `n` calls, or after its last one. -/
def after (errno : ℕ) (m : CmdMsg) (calls : ℕ → CallResult) : ℕ → Option Handling
  | 0 => begin errno m
  | n + 1 => (after errno m calls n).bind fun h => if h.loop = none then some h else h.call (calls n)

end Handling

/-- A message as `_rpc_receive` returns it, from whatever stream. -/
def Received (m : CmdMsg) : Prop :=
  ∃ bs σ h, (receiveSystem ioCfg bs).Reachable σ ∧ σ.recv.pc = .done h ∧
    m = cmd { Msg.ofBytes ioCfg σ.recv.stored with payload := σ.recv.payload }

variable {m : CmdMsg} {h h₀ h' : Handling} {l : Loop} {errno n : ℕ} {calls : ℕ → CallResult}

/-! ## What a received message is like -/

theorem Received.spec (hm : Received m) : hdrSize ≤ m.hdr.len ∧ m.hdr.plen ≤ payloadSz ∧
    (m.payload = none ↔ m.hdr.plen = 0) := by
  obtain ⟨bs, σ, h, hr, hd, rfl⟩ := hm
  have hok := (receive_ok hr).recv
  obtain ⟨⟨pc, st, p⟩, rest⟩ := σ
  simp only at hd
  subst hd
  obtain ⟨hh, hst, hle, hp⟩ := hok
  have hdr : (cmd { Msg.ofBytes ioCfg st with payload := p }).hdr = h := hh.eq.symm
  rw [hdr]
  have hlen := hh.size
  simp only at hst hp hlen
  refine ⟨by omega, ?_, ?_⟩
  · rw [← dataBuf_ioCfg]
    exact hle
  · rcases hp with ⟨hz, rfl⟩ | ⟨q, rfl, hpos, hq⟩
    · exact iff_of_true rfl hz
    · exact iff_of_false (fun e => nomatch e) (by omega)

/-! ## What the handler does -/

namespace Handling

theorem respond_eq (hlen : hdrSize ≤ h.msg.hdr.len) (hp : h.msg.payload = none → h.msg.hdr.plen = 0) :
    ∃ close, (close = [] ∨ close = [.chanClose]) ∧
      h.respond = some ⟨{ h.msg with hdr := h.msg.hdr.setResp }, none,
        h.events ++ .response { h.msg with hdr := h.msg.hdr.setResp } ::
          (close ++ msgPut { h.msg with hdr := h.msg.hdr.setResp })⟩ := by
  have hassert : ¬(h.msg.hdr.len < hdrSize ∨ h.msg.payload = none ∧ h.msg.hdr.plen ≠ 0) := by
    rintro (hl | ⟨hn, hz⟩)
    · omega
    · exact hz (hp hn)
  rw [respond, if_neg hassert]
  refine ⟨_, ?_, rfl⟩
  split
  · exact .inr rfl
  · exact .inl rfl

theorem respond_loop (hr : h.respond = some h') : h'.loop = none := by
  unfold respond at hr
  split at hr
  · cases hr
  · rw [← Option.some.inj hr]

/-- The answer to a read: in the message itself, with the data buffer. -/
def doneRead (h : Handling) (l : Loop) : Handling :=
  { h with msg := { h.msg with
    hdr := { h.msg.hdr with status := 0 }
    payload := some (l.data ++ List.replicate (payloadSz - l.bc) 0) } }

/-- The answer to a write. -/
def doneWrite (h : Handling) (l : Loop) : Handling :=
  { h with
    msg := { h.msg with
      hdr := { h.msg.hdr with status := toStatus (ssdResult h.msg l), payloadlen := 0 }
      payload := none }
    events := h.events ++ [.databufPut] }

theorem toStatus_ssdResult (m : CmdMsg) (l : Loop) :
    toStatus (ssdResult m l) = 0 ↔ l.bc = m.len.toNat := by
  unfold ssdResult
  split
  · rename_i hne
    exact iff_of_false (by decide) fun e => hne e.symm
  · rename_i he
    exact iff_of_true (by decide) (not_ne_iff.1 he).symm

theorem finish_read (ht : getMsgType h.msg.hdr = readMsg) :
    h.finish l = if l.bc = h.msg.len.toNat then (h.doneRead l).respond else none := by
  simp only [finish, if_pos ht, toStatus_ssdResult]
  by_cases hbc : l.bc = h.msg.len.toNat
  · rw [if_pos hbc, if_pos hbc, (toStatus_ssdResult ..).2 hbc]
    rfl
  · rw [if_neg hbc, if_neg hbc]

theorem finish_write (ht : getMsgType h.msg.hdr ≠ readMsg) :
    h.finish l = (h.doneWrite l).respond := by
  rw [finish, if_neg ht]
  rfl

theorem finish_loop (hf : h.finish l = some h') : h'.loop = none := by
  by_cases ht : getMsgType h.msg.hdr = readMsg
  · rw [finish_read ht] at hf
    split at hf
    · exact respond_loop hf
    · cases hf
  · rw [finish_write ht] at hf
    exact respond_loop hf

theorem settle_of_running (hl : l.Running) : h.settle l = some { h with loop := some l } := if_pos hl

theorem settle_of_not_running (hl : ¬l.Running) : h.settle l = h.finish l := if_neg hl

/-- **The handler is where its loop is.** -/
theorem after_eq_settle {m : CmdMsg} (calls : ℕ → CallResult) (hb : begin errno m = h₀.settle l) (n : ℕ) :
    after errno m calls n = h₀.settle (l.after calls n) := by
  induction n with
  | zero => exact hb
  | succ n ih =>
      rw [after, ih, Loop.after]
      by_cases hrun : (l.after calls n).Running
      · rw [if_pos hrun, settle_of_running hrun, Option.bind_some, if_neg (Option.some_ne_none _)]
        rfl
      · rw [if_neg hrun, settle_of_not_running hrun]
        cases hf : h₀.finish (l.after calls n) with
        | none => rfl
        | some h' => rw [Option.bind_some, if_pos (finish_loop hf)]

theorem after_of_returned {m : CmdMsg} (calls : ℕ → CallResult) (hb : begin errno m = some h) (hl : h.loop = none) (n : ℕ) :
    after errno m calls n = some h := by
  induction n with
  | zero => exact hb
  | succ n ih => rw [after, ih, Option.bind_some, if_pos hl]

theorem after_eq_none {m : CmdMsg} (hb : begin errno m = none) (n : ℕ) :
    after errno m calls n = none := by
  induction n with
  | zero => exact hb
  | succ n ih => rw [after, ih, Option.bind_none]

/-- A transfer whose loop has been left has returned, and one that has
returned has left it. -/
theorem settle_loop_eq_none (hs : h.settle l = some h') (hl : h'.loop = none) :
    ¬l.Running ∧ h.finish l = some h' := by
  by_cases hrun : l.Running
  · rw [settle_of_running hrun] at hs
    rw [← Option.some.inj hs] at hl
    cases hl
  · exact ⟨hrun, by rw [← settle_of_not_running hrun, hs]⟩

end Handling

/-! ## What the three commands begin with -/

/-- The message in which a read's answer is made up. -/
def readAnswer (m : CmdMsg) : Handling :=
  ⟨{ m with
    hdr := { m.hdr with payloadlen := m.len.setWidth 16 }
    payload := some (List.replicate payloadSz 0) }, none, [.databufGet]⟩

theorem begin_read (errno : ℕ) (hcc : m.hdr.isConnClosed = false) (ht : getMsgType m.hdr = readMsg) :
    Handling.begin errno m = if m.payload = none ∧ m.hdr.payloadlen = 0 then
      (readAnswer m).settle (.start m.len.toNat m.offset errno) else none := by
  have ho : getMsgType m.hdr ≠ openMsg := by
    rw [ht]
    decide
  rw [Handling.begin, if_neg (by simp [hcc]), if_neg ho, if_pos ht, readAnswer]

theorem begin_write (errno : ℕ) (hcc : m.hdr.isConnClosed = false) (ht : getMsgType m.hdr = writeMsg) :
    Handling.begin errno m = if m.payload ≠ none ∧ m.hdr.plen = m.len.toNat then
      Handling.settle ⟨m, none, []⟩ (.start m.len.toNat m.offset errno) else none := by
  have ho : getMsgType m.hdr ≠ openMsg := by
    rw [ht]
    decide
  have hr : getMsgType m.hdr ≠ readMsg := by
    rw [ht]
    decide
  rw [Handling.begin, if_neg (by simp [hcc]), if_neg ho, if_neg hr, if_pos ht]

theorem begin_open (errno : ℕ) (hcc : m.hdr.isConnClosed = false) (ht : getMsgType m.hdr = openMsg) :
    Handling.begin errno m = if m.payload = none ∧ m.hdr.payloadlen = 0 then
      Handling.respond ⟨m, none, []⟩ else none := by
  rw [Handling.begin, if_neg (by simp [hcc]), if_pos ht]

theorem begin_unknown (hcc : m.hdr.isConnClosed = false) (ho : getMsgType m.hdr ≠ openMsg)
    (hr : getMsgType m.hdr ≠ readMsg) (hw : getMsgType m.hdr ≠ writeMsg) :
    Handling.begin errno m = none := by
  rw [Handling.begin, if_neg (by simp [hcc]), if_neg ho, if_neg hr, if_neg hw]

theorem Received.payloadlen_iff (hm : Received m) :
    (m.payload = none ∧ m.hdr.payloadlen = 0) ↔ m.payload = none := by
  refine ⟨And.left, fun hp => ⟨hp, BitVec.eq_of_toNat_eq ?_⟩⟩
  exact hm.spec.2.2.1 hp

/-- What a client sends arrives. -/
theorem received_copy {m : Msg} (hm : m.Framed ioCfg) (hlen : m.hdr.len = cmdSize)
    (hb : m.body.length = 20) : Received (cmd (copy m)) := by
  have h₀ : ((receiveSystem ioCfg (m.wire ++ [])).only NoError).Reachable
      ⟨.start true, m.wire ++ []⟩ := .init rfl
  obtain ⟨as, has⟩ := (delivery hm h₀).2
  refine ⟨_, _, m.hdr, (has.reachable h₀).of_only, rfl, ?_⟩
  rw [show m.received.stored = m.hdrBytes from rfl, ofBytes_hdrBytes hlen hb]
  rfl

/-- A client's read of `len` bytes. -/
def readRequest (len : BitVec 64) : Msg :=
  request (fillCmd ⟨⟨7, BitVec.ofNat 16 (readMsg <<< 4), 32, 0, 0⟩, List.replicate 20 0, none, none,
    [], .fresh⟩ 4096 len)

theorem isCmd_readRequest (len : BitVec 64) : IsCmd (readRequest len) 4096 len :=
  (isCmd_fillCmd 4096 len rfl rfl).request

theorem received_readRequest (len : BitVec 64) : Received (cmd (copy (readRequest len))) := by
  have hcmd := isCmd_readRequest len
  have hpl : (readRequest len).hdr.plen = 0 := rfl
  exact received_copy (hcmd.framed (by omega) (by omega)) hcmd.msglen hcmd.body

theorem len_readRequest (len : BitVec 64) : (cmd (copy (readRequest len))).len = len :=
  (isCmd_readRequest len).copy.len

/-! ## The data buffer -/

/-- Every call of the device stays within the data buffer, whatever the
device answers. -/
def AccessesInside (m : CmdMsg) : Prop :=
  ∀ errno calls n h l, Handling.after errno m calls n = some h → h.loop = some l →
    (h.access l (calls n)).start + (h.access l (calls n)).size ≤ payloadSz

/-- A call is for what is left of `len`. -/
theorem access_le {len : ℕ} (hl : Loop.Going errno calls len n l) (r : CallResult) :
    (h.access l r).start + (h.access l r).size ≤ len := by
  have hbc := hl.bc
  have hcount := hl.count
  have hlt := hl.lt
  unfold Handling.access
  split
  · cases r with
    | moved bs =>
        have := List.length_take_le l.count bs
        simp only
        omega
    | error e =>
        simp only
        omega
  · simp only
    omega

/-- Where a handler under way stands. -/
theorem going_of_after {len : ℕ} {off : BitVec 64}
    (hb : Handling.begin errno m = h₀.settle (.start len off errno))
    (ha : Handling.after errno m calls n = some h) (hl : h.loop = some l) :
    Loop.Going errno calls len n l := by
  rw [Handling.after_eq_settle _ hb] at ha
  by_cases hrun : ((Loop.start len off errno).after calls n).Running
  · rw [Handling.settle_of_running hrun] at ha
    obtain rfl := Option.some.inj ha
    obtain rfl := Option.some.inj hl
    rcases Loop.after_cases len off errno calls n with h₁ | h₁
    · exact h₁
    · exact absurd hrun h₁.not_running
  · rw [Handling.settle_of_not_running hrun] at ha
    rw [Handling.finish_loop ha] at hl
    cases hl

/-- A read that asks for more than the data buffer holds gets it stored
beyond the end. -/
theorem not_accessesInside (hm : Received m) (hcc : m.hdr.isConnClosed = false)
    (ht : getMsgType m.hdr = readMsg) (hp : m.payload = none) (hlt : payloadSz < m.len.toNat) :
    ¬AccessesInside m := by
  intro hin
  -- a device that gives one byte a call
  have htot : ∀ n, total (fun _ => .moved [0]) n = n := fun n => by
    induction n with
    | zero => rfl
    | succ n ih => rw [total, ih]; rfl
  have hgo := @Loop.going_after (fun _ => .moved [0]) 0 m.len.toNat payloadSz m.offset
    (by rw [htot]; exact hlt) fun i _ h => List.cons_ne_nil _ _ h.1
  have hb := begin_read 0 hcc ht
  rw [if_pos (hm.payloadlen_iff.2 hp)] at hb
  have ha := Handling.after_eq_settle (fun _ => .moved [0]) hb payloadSz
  rw [Handling.settle_of_running hgo.running] at ha
  have hacc := hin _ _ _ _ _ ha rfl
  have hbc := hgo.bc
  have hcount := hgo.count
  rw [htot] at hbc hcount
  rw [Handling.access, if_pos (show getMsgType (readAnswer m).msg.hdr = readMsg from ht)] at hacc
  simp only [List.length_take, List.length_singleton] at hacc
  omega

/-- A handler under way has begun its transfer, of `len` bytes. -/
theorem begin_of_after (hm : Received m) (hcc : m.hdr.isConnClosed = false)
    (ha : Handling.after errno m calls n = some h) (hl : h.loop = some l) :
    (∃ h₀, Handling.begin errno m = Handling.settle h₀ (.start m.len.toNat m.offset errno)) ∧
      (getMsgType m.hdr = readMsg ∧ m.payload = none ∨ m.hdr.plen = m.len.toNat) := by
  by_cases hr : getMsgType m.hdr = readMsg
  · have hb := begin_read errno hcc hr
    by_cases hp : m.payload = none
    · rw [if_pos (hm.payloadlen_iff.2 hp)] at hb
      exact ⟨⟨_, hb⟩, .inl ⟨hr, hp⟩⟩
    · rw [if_neg fun h => hp h.1] at hb
      rw [Handling.after_eq_none hb] at ha
      cases ha
  by_cases hw : getMsgType m.hdr = writeMsg
  · have hb := begin_write errno hcc hw
    by_cases hp : m.payload ≠ none ∧ m.hdr.plen = m.len.toNat
    · rw [if_pos hp] at hb
      exact ⟨⟨_, hb⟩, .inr hp.2⟩
    · rw [if_neg hp] at hb
      rw [Handling.after_eq_none hb] at ha
      cases ha
  by_cases ho : getMsgType m.hdr = openMsg
  · have hb := begin_open errno hcc ho
    cases hb' : Handling.begin errno m with
    | none =>
        rw [Handling.after_eq_none hb'] at ha
        cases ha
    | some h' =>
        have hl' : h'.loop = none := by
          rw [hb'] at hb
          split at hb
          · exact Handling.respond_loop hb.symm
          · cases hb
        rw [Handling.after_of_returned _ hb' hl'] at ha
        obtain rfl := Option.some.inj ha
        rw [hl'] at hl
        cases hl
  · have hb : Handling.begin errno m = none := begin_unknown hcc ho hr hw
    rw [Handling.after_eq_none hb] at ha
    cases ha

/-- **The storage side stays inside the data buffer exactly if a read asks
for no more than it holds.** A write's length is checked against the
payload that arrived, and this against the buffer; nothing checks a
read's. -/
theorem accesses_inside_iff (hm : Received m) (hcc : m.hdr.isConnClosed = false) :
    AccessesInside m ↔
      (getMsgType m.hdr = readMsg → m.payload = none → m.len.toNat ≤ payloadSz) := by
  constructor
  · intro hin ht hp
    by_contra hlt
    exact not_accessesInside hm hcc ht hp (not_le.1 hlt) hin
  · intro hcond errno calls n h l ha hl
    obtain ⟨⟨h₀, hb⟩, hlen⟩ := begin_of_after hm hcc ha hl
    have hle := access_le (h := h) (going_of_after hb ha hl) (calls n)
    rcases hlen with ⟨hr, hp⟩ | hp
    · exact hle.trans (hcond hr hp)
    · have := hm.spec.2.1
      omega

theorem accesses_inside_block : AccessesInside (cmd (copy (readRequest 8192))) :=
  (accesses_inside_iff (received_readRequest 8192) (by decide)).2 fun _ _ => by
    rw [len_readRequest]
    decide

/-- A read of one byte more than the data buffer holds. -/
theorem access_beyond_buffer :
    Received (cmd (copy (readRequest 1048577))) ∧ ¬AccessesInside (cmd (copy (readRequest 1048577))) :=
  ⟨received_readRequest _, not_accessesInside (received_readRequest _) (by decide) (by decide) rfl
    (by rw [len_readRequest]; decide)⟩

/-! ## The answer -/

/-- The command is known, and the device moves all it is asked for. -/
def Served (m : CmdMsg) (errno : ℕ) (calls : ℕ → CallResult) : Prop :=
  getMsgType m.hdr = openMsg ∨
    (getMsgType m.hdr = readMsg ∨ getMsgType m.hdr = writeMsg) ∧ Full errno calls m.len.toNat

/-- What a request gets: no assertion fails, and the handler returns having
sent one answer, of the request's sequence id, whose status says whether it
was served, and having put back the message, the payload and every data
buffer it got. -/
def Answered (m : CmdMsg) (errno : ℕ) (calls : ℕ → CallResult) : Prop :=
  (∀ n, (Handling.after errno m calls n).isSome) ∧
    ∃ n h r, Handling.after errno m calls n = some h ∧ h.loop = none ∧
      responses h.events = [r] ∧ r.hdr.isReq = false ∧ r.hdr.seqid = m.hdr.seqid ∧
      (r.hdr.status = 0 ↔ Served m errno calls) ∧
      h.events.count .msgPut = 1 ∧
      h.events.count .databufPut =
        h.events.count .databufGet + if m.payload = none then 0 else 1

/-- When a request is answered. -/
def Answerable (m : CmdMsg) (errno : ℕ) (calls : ℕ → CallResult) : Prop :=
  (getMsgType m.hdr = openMsg ∧ m.payload = none ∧ m.hdr.status = 0) ∨
    (getMsgType m.hdr = readMsg ∧ m.payload = none ∧ Full errno calls m.len.toNat) ∨
    getMsgType m.hdr = writeMsg ∧ m.payload ≠ none ∧ m.hdr.plen = m.len.toNat ∧
      Ends errno calls m.len.toNat

/-- What `rpc_response` adds to the events. -/
theorem Handling.respond_events (hlen : hdrSize ≤ h.msg.hdr.len)
    (hp : h.msg.payload = none → h.msg.hdr.plen = 0) :
    ∃ h', h.respond = some h' ∧ h'.loop = none ∧
      responses h'.events = responses h.events ++ [{ h.msg with hdr := h.msg.hdr.setResp }] ∧
      h'.events.count .msgPut = h.events.count .msgPut + 1 ∧
      h'.events.count .databufGet = h.events.count .databufGet ∧
      h'.events.count .databufPut =
        h.events.count .databufPut + if h.msg.payload = none then 0 else 1 := by
  obtain ⟨close, hclose, hr⟩ := respond_eq hlen hp
  refine ⟨_, hr, rfl, ?_⟩
  by_cases hn : h.msg.payload = none
  · rcases hclose with rfl | rfl
    · simp [responses, msgPut, hn, List.count_append]
    · simp [responses, msgPut, hn, List.count_append]
  · rcases hclose with rfl | rfl
    · simp [responses, msgPut, hn, List.count_append]
    · simp [responses, msgPut, hn, List.count_append]

/-- Nothing fails in a transfer if nothing does after it. -/
theorem Handling.after_isSome {len : ℕ} {off : BitVec 64}
    (hb : begin errno m = h₀.settle (.start len off errno))
    (hf : ∀ n, ¬((Loop.start len off errno).after calls n).Running →
      (h₀.finish ((Loop.start len off errno).after calls n)).isSome) (n : ℕ) :
    (after errno m calls n).isSome := by
  rw [after_eq_settle _ hb]
  by_cases hrun : ((Loop.start len off errno).after calls n).Running
  · rw [settle_of_running hrun]
    rfl
  · rw [settle_of_not_running hrun]
    exact hf n hrun

/-- An `OPEN` is answered with the status it came with. -/
theorem answered_open (hm : Received m) (hcc : m.hdr.isConnClosed = false)
    (ho : getMsgType m.hdr = openMsg) :
    Answered m errno calls ↔ m.payload = none ∧ m.hdr.status = 0 := by
  have hb := begin_open errno hcc ho
  by_cases hp : m.payload = none
  · rw [if_pos (hm.payloadlen_iff.2 hp)] at hb
    obtain ⟨h', hr, hl, hresp, hput, hget, hdput⟩ :=
      Handling.respond_events (h := ⟨m, none, []⟩) hm.spec.1 hm.spec.2.2.1
    rw [hr] at hb
    have hafter := Handling.after_of_returned calls hb hl
    constructor
    · rintro ⟨-, n, h, r, ha, -, hrs, -, -, hst, -⟩
      rw [hafter] at ha
      obtain rfl := Option.some.inj ha
      obtain ⟨rfl, -⟩ := List.cons.inj (hresp.symm.trans hrs)
      exact ⟨hp, hst.2 (.inl ho)⟩
    · rintro ⟨-, hst⟩
      refine ⟨fun n => by rw [hafter]; rfl, 0, h', _, hafter 0, hl, hresp, ?_, rfl, ?_, ?_, ?_⟩
      · exact MsgHdr.isReq_setResp _
      · exact iff_of_true hst (.inl ho)
      · simpa using hput
      · simpa [hget] using hdput
  · rw [if_neg fun h => hp h.1] at hb
    refine iff_of_false (fun h => ?_) fun h => hp h.1
    have := h.1 0
    rw [Handling.after, hb] at this
    cases this

/-- A `READ` is answered if the device gives it everything. -/
theorem answered_read (hm : Received m) (hcc : m.hdr.isConnClosed = false)
    (hr : getMsgType m.hdr = readMsg) :
    Answered m errno calls ↔ m.payload = none ∧ Full errno calls m.len.toNat := by
  have hb := begin_read errno hcc hr
  by_cases hp : m.payload = none
  · rw [if_pos (hm.payloadlen_iff.2 hp)] at hb
    have hfin : ∀ l, (readAnswer m).finish l =
        if l.bc = m.len.toNat then ((readAnswer m).doneRead l).respond else none :=
      fun l => Handling.finish_read hr
    have hresp : ∀ l, _ := fun l => Handling.respond_events (h := (readAnswer m).doneRead l)
      hm.spec.1 fun e => absurd e (Option.some_ne_none _)
    constructor
    · rintro ⟨-, n, h, r, ha, hl, -⟩
      rw [Handling.after_eq_settle _ hb] at ha
      obtain ⟨hrun, hf⟩ := Handling.settle_loop_eq_none ha hl
      rw [hfin] at hf
      split at hf
      · rename_i hbc
        exact ⟨hp, (Loop.bc_eq_iff hrun).1 hbc⟩
      · cases hf
    · rintro ⟨-, hfull⟩
      refine ⟨Handling.after_isSome hb fun n hrun => ?_, ?_⟩
      · obtain ⟨h', hr', -⟩ := hresp ((Loop.start m.len.toNat m.offset errno).after calls n)
        rw [hfin, if_pos ((Loop.bc_eq_iff hrun).2 hfull), hr']
        rfl
      · obtain ⟨n, hrun⟩ := (Loop.left_iff m.offset).2 hfull.ends
        obtain ⟨h', hr', hl, hrs, hput, hget, hdput⟩ :=
          hresp ((Loop.start m.len.toNat m.offset errno).after calls n)
        refine ⟨n, h', _, ?_, hl, hrs, MsgHdr.isReq_setResp _, rfl, ?_, ?_, ?_⟩
        · rw [Handling.after_eq_settle _ hb, Handling.settle_of_not_running hrun, hfin,
            if_pos ((Loop.bc_eq_iff hrun).2 hfull), hr']
        · exact iff_of_true rfl (.inr ⟨.inl hr, hfull⟩)
        · exact hput
        · rw [hdput, hget, if_pos hp]
          rfl
  · rw [if_neg fun h => hp h.1] at hb
    refine iff_of_false (fun h => ?_) fun h => hp h.1
    have := h.1 0
    rw [Handling.after, hb] at this
    cases this

/-- A `WRITE` is answered if the device comes to an end with it. -/
theorem answered_write (hm : Received m) (hcc : m.hdr.isConnClosed = false)
    (hw : getMsgType m.hdr = writeMsg) :
    Answered m errno calls ↔
      m.payload ≠ none ∧ m.hdr.plen = m.len.toNat ∧ Ends errno calls m.len.toNat := by
  have hb := begin_write errno hcc hw
  have hnr : getMsgType m.hdr ≠ readMsg := by
    rw [hw]
    decide
  have hno : getMsgType m.hdr ≠ openMsg := by
    rw [hw]
    decide
  by_cases hp : m.payload ≠ none ∧ m.hdr.plen = m.len.toNat
  · rw [if_pos hp] at hb
    have hfin : ∀ l, Handling.finish ⟨m, none, []⟩ l = (Handling.doneWrite ⟨m, none, []⟩ l).respond :=
      fun l => Handling.finish_write hnr
    have hresp : ∀ l, _ := fun l => Handling.respond_events (h := Handling.doneWrite ⟨m, none, []⟩ l)
      hm.spec.1 fun _ => rfl
    constructor
    · rintro ⟨-, n, h, r, ha, hl, -⟩
      rw [Handling.after_eq_settle _ hb] at ha
      obtain ⟨hrun, -⟩ := Handling.settle_loop_eq_none ha hl
      exact ⟨hp.1, hp.2, (Loop.left_iff _).1 ⟨n, hrun⟩⟩
    · rintro ⟨-, -, hends⟩
      refine ⟨Handling.after_isSome hb fun n _ => ?_, ?_⟩
      · obtain ⟨h', hr', -⟩ := hresp ((Loop.start m.len.toNat m.offset errno).after calls n)
        rw [hfin, hr']
        rfl
      · obtain ⟨n, hrun⟩ := (Loop.left_iff m.offset).2 hends
        obtain ⟨h', hr', hl, hrs, hput, hget, hdput⟩ :=
          hresp ((Loop.start m.len.toNat m.offset errno).after calls n)
        refine ⟨n, h', _, ?_, hl, hrs, MsgHdr.isReq_setResp _, rfl, ?_, ?_, ?_⟩
        · rw [Handling.after_eq_settle _ hb, Handling.settle_of_not_running hrun, hfin, hr']
        · have hserved : Served m errno calls ↔ Full errno calls m.len.toNat :=
            ⟨fun h => (h.resolve_left hno).2, fun h => .inr ⟨.inr hw, h⟩⟩
          rw [hserved, ← Loop.bc_eq_iff hrun]
          exact Handling.toStatus_ssdResult ..
        · exact hput
        · rw [hdput, hget, if_neg hp.1]
          rfl
  · rw [if_neg hp] at hb
    refine iff_of_false (fun h => ?_) fun h => hp ⟨h.1, h.2.1⟩
    have := h.1 0
    rw [Handling.after, hb] at this
    cases this

/-- A request of any type: a message that `rpc_recv_task` hands to the
handler, and if it is a read, one whose length is within the data buffer. -/
structure WellFramed (m : CmdMsg) : Prop where
  received : Received m
  isReq : m.hdr.isReq = true
  open' : m.hdr.isConnClosed = false
  len_le : getMsgType m.hdr = readMsg → m.len.toNat ≤ payloadSz

/-- **A request gets its one answer exactly if** it is an `OPEN` with no
payload and a zero status, a `READ` with no payload of which the device
moves every byte, or a `WRITE` whose payload has the length it says and
which the device ends one way or the other. -/
theorem answered_iff (hm : WellFramed m) : Answered m errno calls ↔ Answerable m errno calls := by
  have horead : openMsg ≠ readMsg := by decide
  have howrite : openMsg ≠ writeMsg := by decide
  have hrwrite : readMsg ≠ writeMsg := by decide
  by_cases ho : getMsgType m.hdr = openMsg
  · rw [answered_open hm.received hm.open' ho]
    simp [Answerable, ho, horead, howrite]
  by_cases hr : getMsgType m.hdr = readMsg
  · rw [answered_read hm.received hm.open' hr]
    simp [Answerable, hr, horead.symm, hrwrite]
  by_cases hw : getMsgType m.hdr = writeMsg
  · rw [answered_write hm.received hm.open' hw]
    simp [Answerable, hw, howrite.symm, hrwrite.symm]
  · refine iff_of_false (fun h => ?_) (by simp [Answerable, ho, hr, hw])
    have := h.1 0
    rw [Handling.after, begin_unknown hm.open' ho hr hw] at this
    cases this

theorem answered_block : Answered (cmd (copy (readRequest 8192))) 0
    fun _ => .moved (List.replicate 8192 0) := by
  have hbs : (List.replicate 8192 (0 : Byte)).length = 8192 := List.length_replicate ..
  generalize List.replicate 8192 (0 : Byte) = bs at hbs
  refine (answered_iff ⟨received_readRequest _, by decide, by decide, fun _ => ?_⟩).2
    (.inr (.inl ⟨by decide, rfl, 1, ?_, fun i hi h => ?_⟩))
  · rw [len_readRequest]
    decide
  · rw [len_readRequest]
    exact (by rw [total, total, CallResult.size, hbs]; decide)
  · obtain rfl : bs = [] := h.1
    exact absurd hbs (by decide)

/-- A device error on a read is not answered: the handler's assertion
fails. -/
theorem read_error_unanswered :
    WellFramed (cmd (copy (readRequest 8192))) ∧
    ¬Answered (cmd (copy (readRequest 8192))) 0 fun _ => .error 5 := by
  refine ⟨⟨received_readRequest _, by decide, by decide, fun _ => ?_⟩, fun h => ?_⟩
  · rw [len_readRequest]
    decide
  · obtain ⟨-, k, hk, hno⟩ := (answered_read (received_readRequest _) (by decide) (by decide)).1 h
    have hst : Stops 0 (fun _ => .error 5) 0 := by
      show (5 : ℕ) ≠ eIntr
      decide
    rcases Nat.eq_zero_or_pos k with rfl | hpos
    · rw [len_readRequest] at hk
      exact absurd hk (by decide)
    · exact hno 0 hpos hst

/-- **The handler is `rpcMsgHandler`**, over the device that moves in one
go what it moved call by call. -/
theorem response_eq_rpcMsgHandler (hm : Received m) (hcc : m.hdr.isConnClosed = false)
    (ha : Handling.after errno m calls n = some h) (hl : h.loop = none) :
    ∃ dev r, rpcMsgHandler dev m = some r ∧
      responses h.events = [{ r with hdr := r.hdr.setResp }] := by
  set L := (Loop.start m.len.toNat m.offset errno).after calls n with hL
  let dev : Device := ⟨fun _ _ => L.data, fun _ _ _ => L.bc⟩
  by_cases ho : getMsgType m.hdr = openMsg
  · have hb := begin_open errno hcc ho
    split at hb
    · rename_i hp
      obtain ⟨h', hr, hl', hresp, -⟩ :=
        Handling.respond_events (h := ⟨m, none, []⟩) hm.spec.1 hm.spec.2.2.1
      rw [hr] at hb
      rw [Handling.after_of_returned _ hb hl'] at ha
      obtain rfl := Option.some.inj ha
      refine ⟨dev, m, ?_, hresp⟩
      simp [rpcMsgHandler, ho, hp.1, hp.2, guard]
    · rw [Handling.after_eq_none hb] at ha
      cases ha
  by_cases hr : getMsgType m.hdr = readMsg
  · have hb := begin_read errno hcc hr
    split at hb
    · rename_i hp
      rw [Handling.after_eq_settle _ hb] at ha
      obtain ⟨hrun, hf⟩ := Handling.settle_loop_eq_none ha hl
      rw [Handling.finish_read hr, ← hL] at hf
      split at hf
      · rename_i hbc
        obtain ⟨h', hr', -, hresp, -⟩ := Handling.respond_events
          (h := (readAnswer m).doneRead L) hm.spec.1 fun e => absurd e (Option.some_ne_none _)
        obtain rfl := Option.some.inj (hf.symm.trans hr')
        have hlen : m.len.toNat = L.data.length := hbc.symm
        refine ⟨dev, _, ?_, hresp⟩
        have hst : toStatus 0 = 0 := by decide
        simp only [rpcMsgHandler, if_neg ho, if_pos hr, handleRead, ssdRead, guard, hp.1, hp.2, dev,
          ne_eq, not_true_eq_false, if_false, and_self, if_true, ← hlen, hst, readAnswer,
          Handling.doneRead, Loop.bc]
        rfl
      · cases hf
    · rw [Handling.after_eq_none hb] at ha
      cases ha
  by_cases hw : getMsgType m.hdr = writeMsg
  · have hb := begin_write errno hcc hw
    split at hb
    · rename_i hp
      rw [Handling.after_eq_settle _ hb] at ha
      obtain ⟨hrun, hf⟩ := Handling.settle_loop_eq_none ha hl
      rw [Handling.finish_write hr, ← hL] at hf
      obtain ⟨h', hr', -, hresp, -⟩ := Handling.respond_events
        (h := Handling.doneWrite ⟨m, none, []⟩ L) hm.spec.1 fun _ => rfl
      obtain rfl := Option.some.inj (hf.symm.trans hr')
      refine ⟨dev, _, ?_, hresp⟩
      simp only [rpcMsgHandler, if_neg ho, if_neg hr, if_pos hw, handleWrite, guard, if_pos hp]
      rfl
    · rw [Handling.after_eq_none hb] at ha
      cases ha
  · rw [Handling.after_eq_none (begin_unknown hcc ho hr hw)] at ha
    cases ha

end Splitter

end VmwareProto
