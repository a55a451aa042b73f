import VmwareProto.Rpc.Framing
import VmwareProto.Rpc.Messages
import VmwareProto.Rpc.MsgPool
/-!
# A connection without errors

Runs in which nobody closes the channel, no read or write fails, the
messages that are sent fit the other end's buffers, and the receiver finds
nothing wrong with what it reads. The channel stays as `rpc_chan_init` left
it, and each step of a task changes one message and one program counter.
-/

namespace VmwareProto

namespace Rpc

open Libtask

variable {cfg : Cfg} {σ σ' : State} {a b : Addr} {m m' : Msg} {n : TaskId} {act : Action} {p : Pc}
  {k : Kind}

/-- Neither an error nor an end of the channel. -/
def Action.Calm : Action → Prop
  | .unlock _ => False
  | .close => False
  | .deinit _ => False
  | .drained _ => False
  | .write _ r => r = .again ∨ ∃ j, r = .sent j
  | .recvOther r => r = .again
  | _ => True

/-- Steps of a run without errors. -/
structure ErrorFree (cfg : Cfg) (σ : State) (act : Action) : Prop where
  calm : act.Calm
  whole : SendsWhole cfg.toRecvCfg σ act
  stays : ∀ σ', act.exec cfg σ = some σ' → σ'.recv ≠ .left

/-- Task `n` acts on the message in `a`, and goes to `p`. -/
structure Acts (σ σ' : State) (n : TaskId) (a : Addr) (m m' : Msg) (p : Pc) : Prop where
  msg : σ.chan.msgs a = some m
  msgs : σ'.chan.msgs = Function.update σ.chan.msgs a (some m')
  pc : σ'.pc = Function.update σ.pc n p
  recv : σ'.recv = σ.recv
  resp : m'.resp = m.resp

/-- A task goes on with its message as it is. -/
theorem Acts.same (hm : σ.chan.msgs a = some m) (hmsgs : σ'.chan.msgs = σ.chan.msgs)
    (hpc : σ'.pc = Function.update σ.pc n p) (hr : σ'.recv = σ.recv) : Acts σ σ' n a m m p where
  msg := hm
  msgs := by rw [hmsgs, ← hm, Function.update_eq_self]
  pc := hpc
  recv := hr
  resp := rfl

/-! ## One step of a task -/

/-- `RPC_CHAN_LOCK`: past it, or in its queue. -/
theorem acts_lock {c : Channel} (hm : σ.chan.msgs a = some m)
    (hc : c.msgs = Function.update σ.chan.msgs a (some m')) (hr : m'.resp = m.resp) :
    ∃ p, p.call = some (k, a) ∧ (∀ b, p ≠ .asleep b) ∧ (∀ b, p ≠ .woken b) ∧
      Acts σ ({ σ with chan := c }.lock n a k m') n a m m' p := by
  rcases State.lock_cases { σ with chan := c } n a k m' with ⟨-, e⟩ | ⟨-, e⟩
  · exact ⟨.send k a .header m'.hdrBytes, rfl, fun _ => Pc.noConfusion, fun _ => Pc.noConfusion,
      by rw [e]; exact ⟨hm, hc, rfl, rfl, hr⟩⟩
  · exact ⟨.lockWait k a, rfl, fun _ => Pc.noConfusion, fun _ => Pc.noConfusion,
      by rw [e]; exact ⟨hm, hc, rfl, rfl, hr⟩⟩

theorem acts_request (hen : σ.chan.enabled = true) (hx : (Action.request n a).exec cfg σ = some σ') :
    ∃ m m' p, p.call = some (.request, a) ∧ (∀ b, p ≠ .asleep b) ∧ (∀ b, p ≠ .woken b) ∧
      m' = { m with hdr := m.hdr.setReq, use := .request n } ∧ Acts σ σ' n a m m' p := by
  obtain ⟨m, hm, -, ⟨hd, -⟩ | ⟨-, m', rfl, rfl⟩⟩ := State.request_cases hx
  · rw [hen] at hd
    cases hd
  · obtain ⟨p, hp, hs, hw, hacts⟩ := acts_lock (n := n) (k := .request)
      (c := (σ.chan.setMsg a { m with hdr := m.hdr.setReq, use := .request n }).hashAdd a
        (cfg.getBucket m.hdr.setReq.seqid)) hm rfl rfl
    exact ⟨m, _, p, hp, hs, hw, rfl, hacts⟩

theorem acts_response (hen : σ.chan.enabled = true)
    (hx : (Action.response n a).exec cfg σ = some σ') : ∃ m m' p, p.call = some (.response, a) ∧ (∀ b, p ≠ .asleep b) ∧ (∀ b, p ≠ .woken b) ∧
      m' = { m with hdr := m.hdr.setResp, use := .response n } ∧ Acts σ σ' n a m m' p := by
  obtain ⟨m, hm, -, ⟨hd, -⟩ | ⟨-, m', rfl, rfl⟩⟩ := State.response_cases hx
  · rw [hen] at hd
    cases hd
  · obtain ⟨p, hp, hs, hw, hacts⟩ := acts_lock (n := n) (k := .response)
      (c := σ.chan.setMsg a { m with hdr := m.hdr.setResp, use := .response n }) hm rfl rfl
    exact ⟨m, _, p, hp, hs, hw, rfl, hacts⟩

/-- A message is filled in by its owner. -/
theorem acts_edit {l pl st : BitVec 16} {body : List Byte} {pay : Option (List Byte)} (n : TaskId)
    (hx : (Action.edit a l pl st body pay).exec cfg σ = some σ') :
    ∃ m, Acts σ σ' n a m { m with
      hdr := { m.hdr with msglen := l, payloadlen := pl, status := st }
      body := body
      payload := pay } (σ.pc n) := by
  simp only [Action.exec, Option.bind_eq_bind, Option.bind_eq_some_iff] at hx
  obtain ⟨m, hm, hx⟩ := hx
  obtain rfl := Option.some.inj hx
  exact ⟨m, hm, rfl, (Function.update_eq_self ..).symm, rfl, rfl⟩

theorem acts_resume (hx : (Action.resume n).exec cfg σ = some σ') :
    ∃ k a m p, (σ.pc n).call = some (k, a) ∧ p.call = some (k, a) ∧ (∀ b, p ≠ .asleep b) ∧
      (∀ b, p ≠ .woken b) ∧ Acts σ σ' n a m m p := by
  obtain ⟨k, a, m, hpc, hm, -, rfl⟩ := State.resume_cases hx
  exact ⟨k, a, m, .send k a .header m.hdrBytes, by rw [hpc]; rfl, rfl, fun _ => Pc.noConfusion,
    fun _ => Pc.noConfusion, .same hm rfl rfl rfl⟩

theorem acts_wake (hx : (Action.wake n).exec cfg σ = some σ') :
    ∃ a m, σ.pc n = .woken a ∧ Acts σ σ' n a m { m with use := .returned 0 } .idle := by
  obtain ⟨a, m, hpc, hm, -, rfl⟩ := State.wake_cases hx
  exact ⟨a, m, hpc, hm, rfl, rfl, rfl, rfl⟩

/-- **One write**: the task goes on, or goes to sleep with its request
written, or puts its response. -/
theorem acts_write {r : WriteResult} (hc : (Action.write n r).Calm)
    (hx : (Action.write n r).exec cfg σ = some σ') :
    ∃ k a part rest, σ.pc n = .send k a part rest ∧
    (r = .again ∧ σ' = σ ∨ ∃ j m, r = .sent j ∧ σ.chan.msgs a = some m ∧
      ((∃ part' rest', State.left m part (rest.drop j) = some (part', rest') ∧
        Acts σ σ' n a m m (.send k a part' rest')) ∨
      (State.left m part (rest.drop j) = none ∧ k = .request ∧
        Acts σ σ' n a m { m with rendez := m.rendez ++ [n] } (.asleep a)) ∨
      (State.left m part (rest.drop j) = none ∧ k = .response ∧ ∃ l c,
        Channel.msgPut cfg { σ.chan with fdlock := l } a = some c ∧ σ'.chan = c ∧
        σ'.pc = Function.update σ.pc n .idle ∧ σ'.recv = σ.recv))) := by
  obtain ⟨k, a, part, rest, hpc, hsame | ⟨res, hres, -⟩ |
    ⟨j, m, rfl, hm, ⟨part', rest', hleft, rfl⟩ | ⟨hleft, hx⟩⟩⟩ := State.write_cases hx
  · exact ⟨k, a, part, rest, hpc, .inl hsame⟩
  · rcases hc with rfl | ⟨j, rfl⟩ <;> rcases hres with ⟨e, -⟩ | e <;> cases e
  · exact ⟨k, a, part, rest, hpc, .inr ⟨j, m, rfl, hm, .inl ⟨part', rest', hleft,
      .same hm rfl rfl rfl⟩⟩⟩
  · refine ⟨k, a, part, rest, hpc, .inr ⟨j, m, rfl, hm, .inr ?_⟩⟩
    obtain ⟨l, -, ⟨rfl, m₁, hm₁, rfl⟩ | ⟨rfl, c, hput, rfl⟩⟩ := State.complete_cases hx
    · obtain rfl : m = m₁ := Option.some.inj (hm.symm.trans hm₁)
      exact .inl ⟨hleft, rfl, hm, rfl, rfl, rfl, rfl⟩
    · exact .inr ⟨hleft, rfl, l, c, hput, rfl, rfl, rfl⟩

/-! ## The channel stays open -/

/-- A calm step leaves the descriptors and the pool alone. -/
theorem open_of_calm (h : Base cfg (σ.chan.enabled = true) σ) (he : act.Allowed cfg σ)
    (hc : act.Calm) (hx : act.exec cfg σ = some σ') :
    σ'.chan.isOpen = σ.chan.isOpen ∧ σ'.chan.state = σ.chan.state := by
  obtain ⟨lists, pending, hS⟩ := h.sound
  cases act with
  | unlock _ => exact hc.elim
  | close => exact hc.elim
  | deinit _ => exact hc.elim
  | drained _ => exact hc.elim
  | msgGet alloc msgtype msglen payloadlen payload =>
      simp only [Action.exec, Option.bind_eq_bind, Option.bind_eq_some_iff] at hx
      obtain ⟨⟨c, b⟩, hget, hx⟩ := hx
      obtain rfl := Option.some.inj hx
      simp only [Channel.msgGet, Option.bind_eq_bind] at hget
      split at hget
      · cases hget
      · obtain ⟨⟨c₁, b₁⟩, hpool, hget⟩ := Option.bind_eq_some_iff.1 hget
        obtain ⟨rfl, rfl⟩ := Prod.mk.inj (Option.some.inj hget)
        have hk := (poolGet_spec hS he.1 hpool).2.2.2.2
        exact ⟨hk.isOpen, hk.state⟩
  | edit b msglen payloadlen status body payload =>
      simp only [Action.exec, Option.bind_eq_bind, Option.bind_eq_some_iff] at hx
      obtain ⟨m, -, hx⟩ := hx
      obtain rfl := Option.some.inj hx
      exact ⟨rfl, rfl⟩
  | msgPut b =>
      simp only [Action.exec, Option.bind_eq_bind, Option.bind_eq_some_iff] at hx
      obtain ⟨c, hput, hx⟩ := hx
      obtain rfl := Option.some.inj hx
      obtain ⟨m, hm, hu⟩ := he
      have hu' : ∀ t, m.use ≠ .request t := fun t => by
        rcases hu with hu | hu | ⟨res, hu⟩ <;> simp [hu]
      have hk := h.put_keeps hm hu' hput
      exact ⟨hk.isOpen, hk.state⟩
  | request t b =>
      obtain ⟨m, -, -, ⟨-, rfl⟩ | ⟨-, m', -, rfl⟩⟩ := State.request_cases hx
      · exact ⟨rfl, rfl⟩
      · rw [lock_chan]
        exact ⟨rfl, rfl⟩
  | response t b =>
      obtain ⟨m, hm, -, ⟨-, l, c, -, hput, rfl⟩ | ⟨-, m', -, rfl⟩⟩ := State.response_cases hx
      · obtain ⟨-, m₀, hm₀, hu, -⟩ := he
        obtain rfl := Option.some.inj (hm.symm.trans hm₀)
        have hk := h.put_keeps hm (by simp [hu]) hput
        exact ⟨hk.isOpen, hk.state⟩
      · rw [lock_chan]
        exact ⟨rfl, rfl⟩
  | resume t =>
      obtain ⟨k, b, m, -, -, -, rfl⟩ := State.resume_cases hx
      exact ⟨rfl, rfl⟩
  | write t r =>
      obtain ⟨k, b, part, rest, hpc, ⟨-, rfl⟩ | ⟨res, hres, -⟩ |
        ⟨j, m, -, -, ⟨part', rest', -, rfl⟩ | ⟨-, hx⟩⟩⟩ := State.write_cases hx
      · exact ⟨rfl, rfl⟩
      · rcases hc with rfl | ⟨j, rfl⟩ <;> rcases hres with ⟨e, -⟩ | e <;> cases e
      · exact ⟨rfl, rfl⟩
      · obtain ⟨l, -, ⟨-, m', -, rfl⟩ | ⟨rfl, c, hput, rfl⟩⟩ := State.complete_cases hx
        · exact ⟨rfl, rfl⟩
        · have hk := h.response_keeps (n := t) (by rw [hpc]; rfl) hput
          exact ⟨hk.isOpen, hk.state⟩
  | wake t =>
      obtain ⟨b, m, -, -, -, rfl⟩ := State.wake_cases hx
      exact ⟨rfl, rfl⟩
  | arrive bs =>
      obtain rfl := Option.some.inj hx
      exact ⟨rfl, rfl⟩
  | _ =>
      obtain ⟨σ₁, b, q, r, hp, hx'⟩ := receiving_cases h he hx trivial
      have hst := state_settle hp.base (by rw [hp.keeps.enabled]; exact id) hp.recv hp.done hx'
      exact ⟨(received h id he hx trivial).isOpen, hst.trans hp.keeps.state⟩

/-- **Without errors the channel stays as it was set up.** -/
theorem open_reachable (hr : ((channelSystem cfg).only (ErrorFree cfg)).Reachable σ) :
    σ.chan.isOpen = true ∧ σ.chan.state = .initialized ∧ σ.recv ≠ .left := by
  induction hr with
  | init hs =>
      obtain ⟨bufs, -, -, rfl⟩ := hs
      exact ⟨rfl, rfl, RecvTask.noConfusion⟩
  | step hr he hx ih =>
      obtain ⟨ho, hst⟩ := open_of_calm (base_reachable hr.of_only) he.1.2 he.2.calm hx
      exact ⟨ho.trans ih.1, hst.trans ih.2.1, he.2.stays _ hx⟩

theorem enabled_reachable (hr : ((channelSystem cfg).only (ErrorFree cfg)).Reachable σ) :
    σ.chan.enabled = true :=
  (base_reachable hr.of_only).gate (open_reachable hr).2.2 (open_reachable hr).1

/-- A step of a run without errors, but for what the receiver finds. -/
structure CalmStep (cfg : Cfg) (σ : State) (act : Action) (σ' : State) : Prop where
  allowed : act.Allowed cfg σ
  calm : act.Calm
  whole : SendsWhole cfg.toRecvCfg σ act
  exec : act.exec cfg σ = some σ'

/-- A step that sends nothing. -/
theorem CalmStep.quiet (hx : act.exec cfg σ = some σ') (ha : act.Allowed cfg σ) (hc : act.Calm)
    (hs : ∀ n a, act ≠ .request n a ∧ act ≠ .response n a) : CalmStep cfg σ act σ' :=
  ⟨ha, hc, fun n a _ e => e.elim (fun e => absurd e (hs n a).1) fun e => absurd e (hs n a).2, hx⟩

/-- A step that sends a message. -/
theorem CalmStep.sends (hx : act.exec cfg σ = some σ') (ha : act.Allowed cfg σ) (hc : act.Calm)
    (hact : act = .request n a ∨ act = .response n a) (hm : σ.chan.msgs a = some m)
    (hs : m.Sendable cfg.toRecvCfg) : CalmStep cfg σ act σ' := by
  refine ⟨ha, hc, fun n' a' m' e hm' => ?_, hx⟩
  obtain rfl : a = a' := by rcases hact with rfl | rfl <;> rcases e with e | e <;> cases e <;> rfl
  obtain rfl := Option.some.inj (hm.symm.trans hm')
  exact hs

/-- Only a read can end the receiver's loop. -/
theorem CalmStep.recv_ne (h : CalmStep cfg σ act σ')
    (hr : ((channelSystem cfg).only (ErrorFree cfg)).Reachable σ)
    (ht : ∀ k, act = .recvTake k → σ'.recv ≠ .left) : σ'.recv ≠ .left := by
  have hx := h.exec
  have hsettle : ∀ {τ : State} {b : Addr} {r : Recv}, r.finished = false →
      τ.settle cfg b r = some σ' → σ'.recv ≠ .left := fun hf hs => by
    rcases State.settle_cases hs with ⟨-, rfl⟩ | ⟨hf', -⟩
    · exact RecvTask.noConfusion
    · rw [hf] at hf'
      cases hf'
  cases act with
  | recvStart alloc =>
      obtain ⟨lists, pending, hS⟩ := (base_reachable hr.of_only).sound
      obtain ⟨c, b, hget, hset⟩ := State.recvStart_cases hx
      have hk := (poolGet_spec hS h.allowed.2.1 hget).2.2.2.2
      rw [hk.enabled.trans (enabled_reachable hr)] at hset
      exact hsettle rfl hset
  | recvTake k => exact ht k rfl
  | recvOther r =>
      obtain rfl : r = .again := h.calm
      obtain ⟨b, q, q', hq, hread, hset⟩ := State.recvOther_cases hx
      obtain rfl : q = q' := Option.some.inj hread
      exact hsettle (receives_reachable hr.of_only b q hq).2.1 hset
  | recvData =>
      obtain ⟨b, q, q', hq, hdata, hset⟩ := State.recvData_cases hx
      refine hsettle ?_ hset
      rw [Recv.getData] at hdata
      split at hdata
      · rw [← Option.some.inj hdata]
        rfl
      · cases hdata
  | _ =>
      rw [(moves h.allowed hx id).1]
      exact (open_reachable hr).2.2

/-- **One more step.** -/
theorem CalmStep.reachable (h : CalmStep cfg σ act σ')
    (hr : ((channelSystem cfg).only (ErrorFree cfg)).Reachable σ) (hl : σ'.recv ≠ .left) :
    ((channelSystem cfg).only (ErrorFree cfg)).Reachable σ' := by
  refine hr.step (a := act) ⟨⟨?_, h.allowed⟩, h.calm, h.whole, fun σ'' hx => ?_⟩ h.exec
  · rw [(open_reachable hr).2.1]
    exact PoolState.noConfusion
  · obtain rfl := Option.some.inj (h.exec.symm.trans hx)
    exact hl

/-- What has been written stays written. -/
theorem CalmStep.sent (h : CalmStep cfg σ act σ')
    (hr : ((channelSystem cfg).only (ErrorFree cfg)).Reachable σ) : σ.sent <+: σ'.sent := by
  have hB := base_reachable hr.of_only
  by_cases hact : act.Receiving
  · exact ⟨[], by rw [List.append_nil, (received hB id h.allowed h.exec hact).sent]⟩
  rcases (fields hB h.allowed h.exec hact).sent with e | ⟨n, j, rfl⟩
  · exact ⟨[], by rw [List.append_nil, e]⟩
  · have hx : σ.write cfg n (.sent j) = some σ' := h.exec
    obtain ⟨k, a, part, rest, -, ⟨-, rfl⟩ | ⟨res, hres, -⟩ |
      ⟨j', m, -, -, ⟨part', rest', -, rfl⟩ | ⟨-, hx⟩⟩⟩ := State.write_cases hx
    · exact List.prefix_rfl
    · rcases hres with ⟨e, -⟩ | e <;> cases e
    · exact List.prefix_append ..
    · obtain ⟨l, -, ⟨-, m', -, rfl⟩ | ⟨-, c, -, rfl⟩⟩ := State.complete_cases hx <;>
        exact List.prefix_append ..

theorem CalmStep.log (h : CalmStep cfg σ act σ')
    (hr : ((channelSystem cfg).only (ErrorFree cfg)).Reachable σ) : σ.log <+: σ'.log := by
  rcases log_cases (base_reachable hr.of_only) id h.allowed h.exec with e | ⟨n, k, a, m, hb⟩
  · exact ⟨[], by rw [List.append_nil, e]⟩
  · rw [hb.log]
    exact List.prefix_append ..

/-- **What has been written** is a beginning of the messages begun. -/
theorem sent_begins (hr : ((channelSystem cfg).only (ErrorFree cfg)).Reachable σ) :
    σ.sent <+: σ.log.flatten := by
  have hw : ((channelSystem cfg).only (SendsWhole cfg.toRecvCfg)).Reachable σ :=
    hr.mono fun _ _ h => h.whole
  have hF := framing_reachable hw (enabled_reachable hr)
  by_cases hq : ∃ n, (σ.pc n).Sending
  · obtain ⟨n, k, a, part, rest, hpc⟩ := hq
    obtain ⟨-, m, ws, p, -, -, hlog, hsent, hrem⟩ := hF.sending n k a part rest hpc
    refine ⟨m.remaining part rest, ?_⟩
    rw [hsent, hlog, List.append_assoc, hrem, List.flatten_append]
    simp
  · exact ⟨[], by rw [List.append_nil, hF.quiet fun n hn => hq ⟨n, hn⟩]⟩

/-! ## The receiver and its data buffer -/

/-- The receiver has a data buffer. -/
def RecvTask.hasData : RecvTask → Bool
  | .receiving _ r => r.payload.isSome
  | _ => false

/-- A read takes no data buffer. -/
theorem Recv.read_payload {rcfg : RecvCfg} {q r : Recv} {bs : List Byte} (hq : q.Ok rcfg)
    (hr : q.read rcfg (.bytes bs) = some r) : r.payload.isSome = q.payload.isSome := by
  have hafter : ∀ (h : MsgHdr) (s : Recv), (s.afterBody rcfg h).payload = s.payload := fun h s => by
    unfold afterBody
    split
    · split <;> rfl
    · rfl
  obtain ⟨pc, st, pay⟩ := q
  cases pc with
  | header =>
      simp only [read] at hr
      split at hr
      · rw [← Option.some.inj hr]
      · simp only [afterHeader] at hr
        split at hr
        · rw [← Option.some.inj hr]
        · split at hr
          · cases hr
          · split at hr
            · rw [← Option.some.inj hr]
            · rw [← Option.some.inj hr, hafter]
  | body h =>
      simp only [read] at hr
      split at hr
      · rw [← Option.some.inj hr]
      · rw [← Option.some.inj hr, hafter]
  | payload h =>
      obtain ⟨-, -, -, -, x, hx, -⟩ := hq
      obtain rfl : pay = some x := hx
      rw [← Option.some.inj hr]
      rfl
  | databuf h => cases hr
  | done h => cases hr
  | errout => cases hr

/-- The message buffer the receiver has. -/
def RecvTask.buffer : RecvTask → Option Addr
  | .receiving b _ => some b
  | _ => none

/-- What a read of the receiver comes to, in the call `q` with the buffer `b`:
it goes on, or hands a request to a handler, or attaches a response to its
request; the data buffer it had is then the message's. Or it leaves its
loop, with an error or the end of the connection. -/
inductive Took (cfg : Cfg) (σ σ' : State) (j : ℕ) (b : Addr) (q : Recv) : Prop
  | goesOn (r : Recv) : σ'.recv = .receiving b r → σ'.chan = σ.chan → σ'.pc = σ.pc →
      r.payload.isSome = q.payload.isSome → r.taken ++ σ'.inq = q.taken ++ σ.inq → Took cfg σ σ' j b q
  | request (w : List Byte) (m : Msg) : Whole cfg.toRecvCfg w → q.taken ++ σ.inq = w ++ σ'.inq →
      m = { Msg.ofWhole cfg.toRecvCfg w with use := .handed } →
      m.payload.isSome = q.payload.isSome → m.hdr.isReq = true → σ'.recv = .idle → σ'.pc = σ.pc →
      σ'.chan.msgs = Function.update σ.chan.msgs b (some m) → Took cfg σ σ' j b q
  | response (w : List Byte) (m : Msg) (a : Addr) (p : Msg) (t : TaskId) :
      Whole cfg.toRecvCfg w → q.taken ++ σ.inq = w ++ σ'.inq →
      m = { Msg.ofWhole cfg.toRecvCfg w with use := .attached a } →
      m.payload.isSome = q.payload.isSome → m.hdr.isReq = false → m.hdr.isConnClosed = false →
      σ'.recv = .idle → a ≠ b → σ.chan.msgs a = some p → p.use = .request t → p.resp = none →
      σ'.pc = (if σ.pc t = .asleep a then Function.update σ.pc t (.woken a) else σ.pc) →
      (∀ y, σ'.chan.msgs y = if y = a then some { p with resp := some b, rendez := [] }
        else if y = b then some m else σ.chan.msgs y) → Took cfg σ σ' j b q
  | left (r : Recv) : q.read cfg.toRecvCfg (.bytes (σ.inq.take j)) = some r →
      r.pc = .errout ∨ (∃ d, r.pc = .done d ∧ d.isConnClosed = true) → σ'.recv = .left →
      Took cfg σ σ' j b q

/-- **A read of the receiver.** -/
theorem recvTake_took {j : ℕ} {q : Recv} (h : Base cfg (σ.chan.enabled = true) σ)
    (hen : σ.chan.enabled = true) (hR : σ.Receives cfg) (he : (Action.recvTake j).Allowed cfg σ)
    (hq : σ.recv = .receiving b q) (hx : (Action.recvTake j).exec cfg σ = some σ') :
    Took cfg σ σ' j b q := by
  obtain ⟨b₁, q₁, r, hq₁, hread, hx⟩ := State.recvTake_cases hx
  obtain ⟨rfl, rfl⟩ := RecvTask.receiving.inj (hq.symm.trans hq₁)
  obtain ⟨b₂, q₂, hq₂, -, hk, hw, hlen⟩ := he
  obtain ⟨rfl, rfl⟩ := RecvTask.receiving.inj (hq.symm.trans hq₂)
  have hqok := (hR b q hq).1
  have htake : (σ.inq.take j).length = j := by simpa using hlen
  have hpay := Recv.read_payload hqok hread
  have hstream : r.taken ++ σ.inq.drop j = q.taken ++ σ.inq := by
    rw [Recv.taken_read hqok hread, List.append_assoc, List.take_append_drop]
  have hok : r.Ok cfg.toRecvCfg := by
    rcases Recv.read_ok hqok (by omega : 0 < (σ.inq.take j).length) (by omega) with
      ⟨-, -, -, hn⟩ | ⟨r', hr', hok⟩
    · rw [hread] at hn
      cases hn
    · obtain rfl := Option.some.inj (hread.symm.trans hr')
      exact hok
  rcases State.settle_cases hx with ⟨-, rfl⟩ | ⟨-, hx⟩
  · exact .goesOn r rfl rfl rfl hpay hstream
  · obtain ⟨m, hu, hmr, -, hx, ⟨⟨d, hd⟩, hm⟩ | ⟨herr, hcc⟩⟩ := State.deliver_cases hx
    · have hwhole := (hok.whole hd).1
      have hof : m = Msg.ofWhole cfg.toRecvCfg r.taken := by rw [hm, ← hok.eq_ofWhole hd]
      have hmpay : m.payload.isSome = q.payload.isSome := by rw [hm, ← hpay]
      rcases State.dispatch_cases hx with ⟨hcc, rfl⟩ | ⟨-, hreq, rfl⟩ | ⟨hcc, hreq, hx⟩
      · refine .left r hread (.inr ⟨d, hd, ?_⟩) rfl
        rw [(hok.whole hd).2, ← Msg.hdr_ofWhole cfg.toRecvCfg hwhole.message, ← hof]
        exact hcc
      · exact .request r.taken { m with use := .handed } hwhole hstream.symm (by rw [hof]) hmpay hreq
          rfl rfl rfl
      · obtain ⟨lists, pending, hS⟩ := h.sound
        have hU : Uses { σ with inq := σ.inq.drop j } := h.uses.congr rfl rfl rfl
        rcases State.rpcResponse_spec hU hS hen hq hu with
          ⟨a, p, t, c', hp, hpu, hpr, -, hx', hmsgs, -⟩ | ⟨hx', -⟩
        · rw [hx] at hx'
          obtain rfl := Option.some.inj hx'
          have hab : a ≠ b := by
            rintro rfl
            obtain ⟨m₀, hm₀, hu₀⟩ := h.uses.buffer a q hq
            obtain rfl := Option.some.inj (hp.symm.trans hm₀)
            rw [hpu] at hu₀
            cases hu₀
          exact .response r.taken { m with use := .attached a } a p t hwhole hstream.symm
            (by rw [hof]) hmpay hreq hcc rfl hab hp hpu hpr rfl hmsgs
        · rw [hx] at hx'
          cases hx'
    · rcases State.dispatch_cases hx with ⟨-, rfl⟩ | ⟨hn, -⟩ | ⟨hn, -⟩
      · exact .left r hread (.inl herr) rfl
      · rw [hcc] at hn
        cases hn
      · rw [hcc] at hn
        cases hn

end Rpc

end VmwareProto
