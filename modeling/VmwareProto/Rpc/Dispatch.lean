import VmwareProto.Rpc.Receiver
/-!
# What a step of the receiver does

It reads on, leaves its loop, hands a request to a handler, or attaches a
response to the request that waits for it; with the bytes that have been
taken off the stream on the way, and what becomes of every message.
-/

namespace VmwareProto

namespace Rpc

open Libtask

variable {cfg : Cfg} {σ σ' σ₁ : State} {a b alloc : Addr} {act : Action} {q r : Recv} {w : List Byte}

/-- The bytes the receiver has of the message it is reading. -/
def RecvTask.taken : RecvTask → List Byte
  | .receiving _ r => r.taken
  | _ => []

/-- What `_rpc_receive` returns of a whole message. -/
def Msg.ofWhole (cfg : RecvCfg) (w : List Byte) : Msg :=
  let h := MsgHdr.decode w
  { Msg.ofBytes cfg (w.take h.len) with
    payload := if h.plen = 0 then none else some (w.drop h.len) }

theorem Whole.message {cfg : RecvCfg} (h : Whole cfg w) : IsMessage w := ⟨h.le_len, h.length⟩

theorem Msg.hdr_ofWhole (cfg : RecvCfg) (h : IsMessage w) :
    (Msg.ofWhole cfg w).hdr = MsgHdr.decode w := MsgHdr.decode_take h.le_len

/-- **A finished call** has the message its bytes make up. -/
theorem Recv.Ok.eq_ofWhole (hr : r.Ok cfg.toRecvCfg) {d : MsgHdr} (hd : r.pc = .done d) :
    { Msg.ofBytes cfg.toRecvCfg r.stored with payload := r.payload } =
      Msg.ofWhole cfg.toRecvCfg r.taken := by
  obtain ⟨-, hdec⟩ := hr.whole hd
  obtain ⟨pc, st, p⟩ := r
  simp only at hd
  subst hd
  obtain ⟨-, hst, -, hp⟩ := hr
  simp only at hst hp
  simp only [Msg.ofWhole, ← hdec]
  have hstored : (Recv.taken ⟨.done d, st, p⟩).take d.len = st := by
    rw [← hst]
    exact List.take_left
  have hpayload : p = if d.plen = 0 then none else some ((Recv.taken ⟨.done d, st, p⟩).drop d.len) := by
    rcases hp with ⟨hz, rfl⟩ | ⟨x, rfl, hpos, -⟩
    · rw [if_pos hz]
    · rw [if_neg (by omega), ← hst]
      exact congrArg some List.drop_left.symm
  rw [hstored, ← hpayload]

/-- The call in `b` stands at `r`, with its bytes and what is yet to be read
making up the stream. -/
structure Called (cfg : Cfg) (σ σ₁ : State) (b : Addr) (q r : Recv) : Prop
    extends Prepared cfg (σ.chan.enabled = true) σ σ₁ b q r where
  ok : r.Ok cfg.toRecvCfg
  stream : r.taken ++ σ₁.inq = σ.recv.taken ++ σ.inq
  others : ∀ y, y ≠ b → σ₁.chan.msgs y = σ.chan.msgs y

section

variable (h : Base cfg (σ.chan.enabled = true) σ) (hR : σ.Receives cfg)
include h hR

/-- **A step of the receiver** gets where its call goes on or has returned. -/
theorem called (he : act.Allowed cfg σ) (hx : act.exec cfg σ = some σ') (hact : act.Receiving) :
    ∃ σ₁ b q r, Called cfg σ σ₁ b q r ∧ σ₁.settle cfg b r = some σ' := by
  cases act with
  | recvStart alloc =>
      obtain ⟨σ₁, b, r, hp, hs, rfl, hinq, hothers⟩ := prepared_recvStart h he.2.1 he.1 hx
      refine ⟨σ₁, b, _, _, ⟨hp, Recv.ok_start _, ?_, hothers⟩, hs⟩
      rw [hinq, he.1]
      rfl
  | recvTake k =>
      obtain ⟨b, q, hq, ho, hk, hw, hlen⟩ := he
      obtain ⟨b', q', r, hq', hr, hs⟩ := State.recvTake_cases hx
      obtain ⟨rfl, rfl⟩ := RecvTask.receiving.inj (hq.symm.trans hq')
      have hok := (hR b q hq).1
      have htake : (σ.inq.take k).length = k := by simpa using hlen
      refine ⟨{ σ with inq := σ.inq.drop k }, b, q, r, ⟨⟨⟨h.uses.congr rfl rfl rfl, h.sound, h.gate,
        h.failed⟩, hq, .refl _, rfl, rfl, rfl, rfl, rfl, fun _ _ hp => hp,
        fun _ _ => h.gate (by simp [hq]) ho⟩, ?_, ?_, fun _ _ => rfl⟩, hs⟩
      · rcases Recv.read_ok hok (by omega : 0 < (σ.inq.take k).length) (by omega) with
          ⟨-, -, -, hnone⟩ | ⟨r', hr', hok'⟩
        · rw [hr] at hnone
          cases hnone
        · obtain rfl := Option.some.inj (hr.symm.trans hr')
          exact hok'
      · rw [Recv.taken_read hok hr, hq, List.append_assoc, List.take_append_drop]
        rfl
  | recvOther res =>
      obtain ⟨b, q, hq, hread, hres⟩ := he
      obtain ⟨b', q', r, hq', hr, hs⟩ := State.recvOther_cases hx
      obtain ⟨rfl, rfl⟩ := RecvTask.receiving.inj (hq.symm.trans hq')
      obtain ⟨hok, hf, -⟩ := hR b q hq
      have hcalled : r.Ok cfg.toRecvCfg → r.taken = q.taken → (∀ d, r.pc ≠ .done d) →
          Called cfg σ σ b q r := fun hok ht hd =>
        ⟨⟨h, hq, .refl _, rfl, rfl, rfl, rfl, rfl, fun _ _ hp => hp, fun d e => absurd e (hd d)⟩, hok,
          by rw [ht, hq]; rfl, fun _ _ => rfl⟩
      refine ⟨σ, b, q, r, ?_, hs⟩
      cases res with
      | bytes bs => exact absurd rfl (hres bs)
      | again =>
          obtain rfl := Option.some.inj hr
          refine hcalled hok rfl fun d hd => ?_
          rw [Recv.finished, hd] at hf
          cases hf
      | closed =>
          obtain rfl := Option.some.inj hr
          exact hcalled (Recv.errout_ok hok) rfl (by simp)
      | error =>
          obtain rfl := Option.some.inj hr
          exact hcalled (Recv.errout_ok hok) rfl (by simp)
  | recvData =>
      obtain ⟨b, q, hq, d, hd⟩ := he
      obtain ⟨b', q', r, hq', hr, hs⟩ := State.recvData_cases hx
      obtain ⟨rfl, rfl⟩ := RecvTask.receiving.inj (hq.symm.trans hq')
      obtain ⟨r', hr', hok, htaken⟩ := Recv.getData_ok (hR b q hq).1 hd
      obtain rfl := Option.some.inj (hr.symm.trans hr')
      refine ⟨σ, b, q, r, ⟨⟨h, hq, .refl _, rfl, rfl, rfl, rfl, rfl, fun _ _ hp => hp,
        fun d' e => ?_⟩, hok, by rw [htaken, hq]; rfl, fun _ _ => rfl⟩, hs⟩
      rw [Recv.getData, hd] at hr
      rw [← Option.some.inj hr] at e
      cases e
  | _ => cases hact

end

/-- What a step of the receiver, with the buffer `b`, comes to. -/
inductive Outcome (cfg : Cfg) (σ σ' : State) (b : Addr) : Prop
  | goesOn (r : Recv) : σ'.recv = .receiving b r → r.taken ++ σ'.inq = σ.recv.taken ++ σ.inq →
      σ'.pc = σ.pc → (∃ m, σ'.chan.msgs b = some m ∧ m.use = .reading) →
      (∀ y, y ≠ b → σ'.chan.msgs y = σ.chan.msgs y) → Outcome cfg σ σ' b
  | left (m : Msg) : σ'.recv = .left → σ'.chan.enabled = false → σ'.chan.msgs b = some m →
      m.use = .handed → (∀ y, y ≠ b → σ'.chan.msgs y = σ.chan.msgs y) → Outcome cfg σ σ' b
  /-- a request, for a handler -/
  | request (w : List Byte) : Whole cfg.toRecvCfg w → σ.recv.taken ++ σ.inq = w ++ σ'.inq →
      (MsgHdr.decode w).isReq = true → σ'.recv = .idle → σ'.pc = σ.pc →
      σ'.chan.msgs b = some { Msg.ofWhole cfg.toRecvCfg w with use := .handed } →
      (∀ y, y ≠ b → σ'.chan.msgs y = σ.chan.msgs y) → Outcome cfg σ σ' b
  /-- a response, to the request `p` in `a` -/
  | response (w : List Byte) (a : Addr) (p : Msg) (n : TaskId) : σ.chan.enabled = true →
      Whole cfg.toRecvCfg w →
      σ.recv.taken ++ σ.inq = w ++ σ'.inq → (MsgHdr.decode w).isReq = false →
      σ'.recv = .idle → a ≠ b → σ.chan.msgs a = some p → p.use = .request n → p.resp = none →
      p.hdr.seqid = (MsgHdr.decode w).seqid →
      σ'.pc = (if σ.pc n = .asleep a then Function.update σ.pc n (.woken a) else σ.pc) →
      σ'.chan.msgs a = some { p with resp := some b, rendez := [] } →
      σ'.chan.msgs b = some { Msg.ofWhole cfg.toRecvCfg w with use := .attached a } →
      (∀ y, y ≠ a → y ≠ b → σ'.chan.msgs y = σ.chan.msgs y) → Outcome cfg σ σ' b

theorem outcome_leave {m : Msg} (hc : Called cfg σ σ₁ b q r) :
    Outcome cfg σ (σ₁.leave b m) b := by
  refine .left { m with use := .handed } rfl rfl ?_ rfl fun y hy => ?_
  · simp only [State.leave, setMsg_msgs, Function.update_self]
  · simp only [State.leave, setMsg_msgs, Function.update_of_ne hy]
    exact hc.others y hy

theorem outcome_done (hc : Called cfg σ σ₁ b q r) {d : MsgHdr} (hd : r.pc = .done d)
    (hx : σ₁.settle cfg b r = some σ') : Outcome cfg σ σ' b := by
  obtain ⟨hw, hdec⟩ := hc.ok.whole hd
  obtain ⟨m, hm⟩ : ∃ m, m = Msg.ofWhole cfg.toRecvCfg r.taken := ⟨_, rfl⟩
  have hhdr : m.hdr = MsgHdr.decode r.taken := by rw [hm]; exact Msg.hdr_ofWhole _ hw.message
  have hx : σ₁.dispatch cfg b m = some σ' := by
    rw [hm, ← hc.ok.eq_ofWhole hd]
    simpa only [State.settle, Recv.finished, hd, State.deliver, if_true] using hx
  have hen : σ.chan.enabled = true := by rw [← hc.keeps.enabled, hc.done d hd]
  obtain ⟨lists, pending, hS⟩ := hc.base.sound
  rcases State.dispatch_cases hx with ⟨-, rfl⟩ | ⟨-, hreq, rfl⟩ | ⟨-, hreq, hx⟩
  · exact outcome_leave hc
  · refine .request r.taken hw hc.stream.symm (by rw [← hhdr]; exact hreq) rfl hc.pc ?_ fun y hy => ?_
    · rw [setMsg_msgs, Function.update_self, hm]
    · rw [setMsg_msgs, Function.update_of_ne hy, hc.others y hy]
  · have hu : m.use = .reading := by rw [hm]; rfl
    rcases State.rpcResponse_spec hc.base.uses hS hen hc.recv hu with
      ⟨a, p, n, c', hp, hpu, hpr, hid, hx', hmsgs, -⟩ | ⟨hx', -⟩
    · obtain rfl := Option.some.inj (hx.symm.trans hx')
      have hab : a ≠ b := by
        rintro rfl
        obtain ⟨p', hp', hu'⟩ := hc.base.uses.buffer a q hc.recv
        obtain rfl := Option.some.inj (hp.symm.trans hp')
        rw [hpu] at hu'
        cases hu'
      refine .response r.taken a p n hen hw hc.stream.symm (by rw [← hhdr]; exact hreq) rfl hab
        (by rw [← hc.others a hab, hp]) hpu hpr (by rw [hid, hhdr]) (by simp only [hc.pc]) ?_ ?_
        fun y hya hyb => ?_
      · simp only [hmsgs, if_true]
      · simp only [hmsgs, if_neg hab.symm, if_true, hm]
      · simp only [hmsgs, if_neg hya, if_neg hyb]
        exact hc.others y hyb
    · rw [hx] at hx'
      cases hx'

/-- **What any step of the receiver does.** -/
theorem outcome (h : Base cfg (σ.chan.enabled = true) σ) (hR : σ.Receives cfg)
    (he : act.Allowed cfg σ) (hx : act.exec cfg σ = some σ') (hact : act.Receiving) :
    ∃ b, Outcome cfg σ σ' b := by
  obtain ⟨σ₁, b, q, r, hc, hx⟩ := called h hR he hx hact
  refine ⟨b, ?_⟩
  by_cases hd : ∃ d, r.pc = .done d
  · obtain ⟨d, hd⟩ := hd
    exact outcome_done hc hd hx
  rcases State.settle_cases hx with ⟨-, rfl⟩ | ⟨-, hx⟩
  · exact .goesOn r rfl hc.stream hc.pc (hc.base.uses.buffer b q hc.recv) hc.others
  · obtain ⟨m, -, -, -, hx, ⟨hd', -⟩ | ⟨-, hcc⟩⟩ := State.deliver_cases hx
    · exact absurd hd' hd
    · rcases State.dispatch_cases hx with ⟨-, rfl⟩ | ⟨hn, -⟩ | ⟨hn, -⟩
      · exact outcome_leave hc
      · rw [hcc] at hn
        cases hn
      · rw [hcc] at hn
        cases hn

end Rpc

end VmwareProto
