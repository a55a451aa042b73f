import VmwareProto.Rpc.Delivery
import VmwareProto.Rpc.MsgPool
/-!
# The receiver and any peer

What an iteration of `rpc_recv_task` makes of whatever arrives. A header
that claims too much, a payload that does not fit and the end of the
connection at any point lead to the error label, and from there out of the
loop. Three things do not: a header that claims to be shorter than itself,
one that claims more than the message buffer has room for but not more than
its whole size, and a response that nobody waits for.
-/

namespace VmwareProto

namespace Rpc

open Libtask

variable {cfg : Cfg} {σ σ' σ₁ : State} {a b alloc : Addr} {m : Msg} {act : Action} {r r' : Recv}
  {bs w : List Byte} {d : MsgHdr} {q : Recv}

/-! ## When a message is complete -/

/-- The bytes of a whole message, as `_rpc_receive` accepts it. -/
structure Whole (cfg : RecvCfg) (w : List Byte) : Prop where
  size : hdrSize ≤ w.length
  le_len : hdrSize ≤ (MsgHdr.decode w).len
  len_le : (MsgHdr.decode w).len ≤ cfg.msgBuf
  plen_le : (MsgHdr.decode w).plen ≤ cfg.dataBuf
  length : w.length = (MsgHdr.decode w).len + (MsgHdr.decode w).plen

namespace Recv

/-- A call that returns a message has taken all of it. -/
theorem Ok.whole (hr : r.Ok cfg.toRecvCfg) (hd : r.pc = .done d) :
    Whole cfg.toRecvCfg r.taken ∧ d = MsgHdr.decode r.taken := by
  obtain ⟨pc, st, p⟩ := r
  simp only at hd
  subst hd
  obtain ⟨hh, hst, hle, hp⟩ := hr
  have hsize := hh.size
  have hdec : MsgHdr.decode (st ++ p.getD []) = d := by
    rw [MsgHdr.decode_append hsize, hh.eq]
  have hlen : (st ++ p.getD []).length = d.len + d.plen := by
    simp only at hst hp
    rw [List.length_append, hst]
    rcases hp with ⟨hz, rfl⟩ | ⟨q, rfl, -, hq⟩
    · rw [hz]
      rfl
    · rw [← hq]
      rfl
  simp only [taken]
  refine ⟨⟨?_, by rw [hdec]; exact hh.le_len, by rw [hdec]; exact hh.len_le, by rw [hdec]; exact hle,
    by rw [hdec]; exact hlen⟩, hdec.symm⟩
  rw [List.length_append]
  simp only at hsize
  omega

/-- What the checks let through is not an error. -/
theorem read_pc (hr : r.Ok cfg.toRecvCfg) (hread : r.read cfg.toRecvCfg (.bytes bs) = some r')
    (hw : Whole cfg.toRecvCfg (r.taken ++ bs)) : r'.pc ≠ .errout := by
  obtain ⟨pc, st, p⟩ := r
  have hlen := hw.len_le
  have hplen := hw.plen_le
  cases pc with
  | header =>
      obtain ⟨-, rfl⟩ := hr
      simp only [taken, Option.getD_none, List.append_nil] at hlen hplen
      simp only [read] at hread
      split at hread
      · rw [← Option.some.inj hread]
        simp
      · simp only [afterHeader] at hread
        rw [if_neg (by omega)] at hread
        split at hread
        · cases hread
        · split at hread
          · rw [← Option.some.inj hread]
            simp
          · rw [← Option.some.inj hread]
            exact afterBody_ne _ hplen
  | body h =>
      obtain ⟨hh, -, rfl⟩ := hr
      simp only [taken, Option.getD_none, List.append_nil] at hplen
      rw [MsgHdr.decode_append hh.size, ← hh.eq] at hplen
      simp only [read] at hread
      split at hread
      · rw [← Option.some.inj hread]
        simp
      · rw [← Option.some.inj hread]
        exact afterBody_ne _ hplen
  | payload h =>
      rw [← Option.some.inj hread]
      simp only
      split <;> simp
  | databuf h => cases hread
  | done h => cases hread
  | errout => cases hread

/-- The assertion on the header. -/
theorem read_short (hpc : r.pc = .header) (hsize : (r.stored ++ bs).length = hdrSize)
    (hlt : (MsgHdr.decode (r.stored ++ bs)).len < hdrSize) :
    r.read cfg.toRecvCfg (.bytes bs) = none := by
  have hbuf := cfg.msgBuf_eq
  have hmsgsz := cfg.hdr_le
  simp only [read, hpc, afterHeader]
  rw [if_neg (by omega), if_neg (by omega), if_pos hlt]

/-- A call that is not through has not taken a whole message. -/
theorem Ok.done_of_whole (hr : r.Ok cfg.toRecvCfg) (he : r.pc ≠ .errout)
    (hw : Whole cfg.toRecvCfg r.taken) : r.pc = .done (MsgHdr.decode r.taken) := by
  have hlen := hw.length
  have hsize := hw.size
  have hle := hw.le_len
  obtain ⟨pc, st, p⟩ := r
  cases pc with
  | header =>
      obtain ⟨hst, rfl⟩ := hr
      simp only [taken, Option.getD_none, List.append_nil] at hsize hst
      omega
  | body h =>
      obtain ⟨hh, hst, rfl⟩ := hr
      simp only [taken, Option.getD_none, List.append_nil] at hlen hst
      rw [← hh.eq] at hlen
      omega
  | databuf h =>
      obtain ⟨hh, hst, hpos, -, rfl⟩ := hr
      simp only [taken, Option.getD_none, List.append_nil] at hlen hst
      rw [← hh.eq] at hlen
      omega
  | payload h =>
      obtain ⟨hh, hst, hpos, -, q, rfl, hq⟩ := hr
      simp only [taken, Option.getD_some] at hlen hst
      rw [MsgHdr.decode_append hh.size, ← hh.eq, List.length_append] at hlen
      omega
  | done h =>
      rw [← (Ok.whole hr rfl).2]
  | errout => exact absurd rfl he

/-- **A read completes a message** exactly when its bytes do. -/
theorem read_done_iff (hr : r.Ok cfg.toRecvCfg) (hpos : 0 < bs.length)
    (hle : bs.length ≤ r.wanted) :
    (∃ r', r.read cfg.toRecvCfg (.bytes bs) = some r' ∧ r'.pc = .done d) ↔
      Whole cfg.toRecvCfg (r.taken ++ bs) ∧ d = MsgHdr.decode (r.taken ++ bs) := by
  have hread := read_ok hr hpos hle
  constructor
  · rintro ⟨r', hr', hd⟩
    rcases hread with ⟨-, -, -, hnone⟩ | ⟨r'', hr'', hok⟩
    · rw [hr'] at hnone
      cases hnone
    · obtain rfl := Option.some.inj (hr'.symm.trans hr'')
      rw [← taken_read hr hr']
      exact hok.whole hd
  · rintro ⟨hw, rfl⟩
    rcases hread with ⟨hpc, hsize, hlt, -⟩ | ⟨r', hr', hok⟩
    · obtain ⟨pc, st, p⟩ := r
      simp only at hpc
      subst hpc
      obtain ⟨-, rfl⟩ := hr
      have := hw.le_len
      simp only [taken, Option.getD_none, List.append_nil] at this hlt
      omega
    · have hne := read_pc hr hr' hw
      rw [← taken_read hr hr'] at hw ⊢
      exact ⟨r', hr', hok.done_of_whole hne hw⟩

theorem stored_afterBody (cfg : RecvCfg) (h : MsgHdr) (r : Recv) :
    (afterBody cfg h r).stored = r.stored := by
  unfold afterBody
  split
  · split <;> rfl
  · rfl

/-- **What a read stores behind the message buffer** are bytes of an accepted header. -/
theorem overrun_iff (hr : r.Ok cfg.toRecvCfg) (hle : r.stored.length ≤ cfg.msgsz)
    (hw : bs.length ≤ r.wanted) (hread : r.read cfg.toRecvCfg (.bytes bs) = some r') :
    cfg.msgsz < r'.stored.length ↔
      ∃ h, r.pc = .body h ∧ cfg.msgsz < r.stored.length + bs.length := by
  have hmin := cfg.hdr_le
  obtain ⟨pc, st, p⟩ := r
  cases pc with
  | header =>
      -- a bare header has room in every buffer
      have hlen : (st ++ bs).length ≤ hdrSize := by
        simp only [wanted] at hw
        have hst : st.length < hdrSize := hr.1
        rw [List.length_append]
        omega
      have hst : r'.stored = st ++ bs := by
        simp only [read] at hread
        split at hread
        · rw [← Option.some.inj hread]
        · simp only [afterHeader] at hread
          split at hread
          · rw [← Option.some.inj hread]
          · split at hread
            · cases hread
            · split at hread <;> rw [← Option.some.inj hread]
              exact stored_afterBody ..
      rw [hst]
      refine iff_of_false (by omega) ?_
      rintro ⟨h, e, -⟩
      cases e
  | body h =>
      have hst : r'.stored = st ++ bs := by
        simp only [read] at hread
        split at hread <;> rw [← Option.some.inj hread]
        exact stored_afterBody ..
      rw [hst, List.length_append]
      constructor
      · exact fun hlt => ⟨h, rfl, hlt⟩
      · rintro ⟨-, -, hlt⟩
        exact hlt
  | payload h =>
      have hst : r'.stored = st := by rw [← Option.some.inj hread]
      rw [hst]
      simp only at hle
      refine iff_of_false (by omega) ?_
      rintro ⟨h, e, -⟩
      cases e
  | databuf h => cases hread
  | done h => cases hread
  | errout => cases hread

end Recv

/-! ## Every state of the receiver -/

/-- Where a step of the receiver leaves it. -/
theorem recv_of_settle {q : Recv} (h : Base cfg (σ.chan.enabled = true) σ)
    (hq : σ.recv = .receiving b q) (hen : ∀ d, r.pc = .done d → σ.chan.enabled = true)
    (hx : σ.settle cfg b r = some σ') :
    (σ'.recv = .receiving b r ∧ r.finished = false) ∨ σ'.recv = .idle ∨ σ'.recv = .left := by
  obtain ⟨lists, pending, hS⟩ := h.sound
  rcases State.settle_cases hx with ⟨hf, rfl⟩ | ⟨-, hx⟩
  · exact .inl ⟨rfl, hf⟩
  · obtain ⟨m, hu, -, -, hx, hpc⟩ := State.deliver_cases hx
    rcases State.dispatch_cases hx with ⟨-, rfl⟩ | ⟨-, -, rfl⟩ | ⟨hc, -, hx⟩
    · exact .inr (.inr rfl)
    · exact .inr (.inl rfl)
    · have hok : σ.chan.enabled = true := by
        rcases hpc with ⟨⟨d, hd⟩, -⟩ | ⟨-, hcc⟩
        · exact hen d hd
        · rw [hc] at hcc
          cases hcc
      rcases State.rpcResponse_spec h.uses hS hok hq hu with
        ⟨a, p, n, c', -, -, -, -, hx', -⟩ | ⟨hx', -⟩
      · rw [hx] at hx'
        rw [Option.some.inj hx']
        exact .inr (.inl rfl)
      · rw [hx] at hx'
        cases hx'

/-- A call under way on the channel is a call of `_rpc_receive`, with what it has stored in its
buffer. -/
def State.Receives (cfg : Cfg) (σ : State) : Prop :=
  ∀ b r, σ.recv = .receiving b r →
    r.Ok cfg.toRecvCfg ∧ r.finished = false ∧ r.stored.length ≤ cfg.msgsz

/-- A read that completes a header which claims to be shorter than itself. -/
def ShortHeader (σ : State) (act : Action) : Prop :=
  ∃ b r k, act = .recvTake k ∧ σ.recv = .receiving b r ∧ r.pc = .header ∧
    (r.stored ++ σ.inq.take k).length = hdrSize ∧
    (MsgHdr.decode (r.stored ++ σ.inq.take k)).len < hdrSize

/-- A read that stores bytes of a header behind the message buffer. -/
def Overrun (cfg : Cfg) (σ : State) (act : Action) : Prop :=
  ∃ b r h k, act = .recvTake k ∧ σ.recv = .receiving b r ∧ r.pc = .body h ∧
    cfg.msgsz < r.stored.length + k

/-- It is a read in the middle of a header. -/
theorem overrun_take {k : ℕ} {q : Recv} (hq : σ.recv = .receiving b q) :
    Overrun cfg σ (.recvTake k) ↔ ∃ h, q.pc = .body h ∧ cfg.msgsz < q.stored.length + k := by
  constructor
  · rintro ⟨_, _, h, _, e, hq', hpc, hlt⟩
    obtain rfl := Action.recvTake.inj e
    obtain ⟨-, rfl⟩ := RecvTask.receiving.inj (hq.symm.trans hq')
    exact ⟨h, hpc, hlt⟩
  · rintro ⟨h, hpc, hlt⟩
    exact ⟨b, q, h, k, rfl, hq, hpc, hlt⟩

theorem not_overrun (h : ∀ k, act ≠ .recvTake k) : ¬Overrun cfg σ act := by
  rintro ⟨-, -, -, k, e, -⟩
  exact h k e

/-- What a step of the receiver comes to: the call in `b` stands at `r`, and
is to go on from there, or to end. -/
structure Ready (cfg : Cfg) (σ σ₁ : State) (act : Action) (b : Addr) (q r : Recv) : Prop
    extends Prepared cfg (σ.chan.enabled = true) σ σ₁ b q r where
  exec : act.exec cfg σ = σ₁.settle cfg b r
  ok : r.Ok cfg.toRecvCfg
  stored : r.stored.length ≤ cfg.msgsz
  buffer : (σ.recv = .idle ∧ σ.chan.msgs b = none) ∨ σ.recv = .receiving b q
  read : ∀ k, act = .recvTake k → σ.recv = .receiving b q ∧
    q.read cfg.toRecvCfg (.bytes (σ.inq.take k)) = some r ∧ σ₁.chan = σ.chan
  whole : ∀ d, r.pc = .done d → ∃ k, act = .recvTake k

section

variable (h : Base cfg (σ.chan.enabled = true) σ) (hR : σ.Receives cfg)
include h hR

theorem ready_take {k : ℕ} (he : (Action.recvTake k).Allowed cfg σ) :
    (ShortHeader σ (.recvTake k) ∨ Overrun cfg σ (.recvTake k)) ∧
        (Action.recvTake k).exec cfg σ = none ∨
      ¬Overrun cfg σ (.recvTake k) ∧ ∃ σ₁ b q r, Ready cfg σ σ₁ (.recvTake k) b q r := by
  obtain ⟨b, q, hq, ho, hk, hw, hlen⟩ := he
  have htake : (σ.inq.take k).length = k := by simpa using hlen
  have hexec : (Action.recvTake k).exec cfg σ =
      (q.read cfg.toRecvCfg (.bytes (σ.inq.take k))).bind fun r =>
        if cfg.msgsz < r.stored.length then none
        else State.settle cfg { σ with inq := σ.inq.drop k } b r := by
    simp only [Action.exec, State.recvTake, hq]
    rfl
  obtain ⟨hqok, -, hqle⟩ := hR b q hq
  have hover : Overrun cfg σ (.recvTake k) ↔
      ∃ h, q.pc = .body h ∧ cfg.msgsz < q.stored.length + (σ.inq.take k).length := by
    rw [htake, overrun_take hq]
  rcases Recv.read_ok hqok (by omega : 0 < (σ.inq.take k).length) (by omega) with
    ⟨hpc, hsize, hlt, hnone⟩ | ⟨r, hr, hok⟩
  · exact .inl ⟨.inl ⟨b, q, k, rfl, hq, hpc, hsize, hlt⟩, by rw [hexec, hnone]; rfl⟩
  rw [← Recv.overrun_iff hqok hqle (by omega) hr] at hover
  by_cases hgt : cfg.msgsz < r.stored.length
  · refine .inl ⟨.inr (hover.2 hgt), ?_⟩
    rw [hexec, hr, Option.bind_some, if_pos hgt]
  · refine .inr ⟨fun ho => hgt (hover.1 ho), { σ with inq := σ.inq.drop k }, b, q, r,
      ⟨⟨h.uses.congr rfl rfl rfl, h.sound, h.gate, h.failed⟩, hq, .refl _, rfl, rfl, rfl, rfl, rfl,
        fun _ _ hp => hp, fun _ _ => h.gate (by simp [hq]) ho⟩, ?_, hok, by omega, .inr hq,
      fun j e => by obtain rfl := Action.recvTake.inj e; exact ⟨hq, hr, rfl⟩, fun d _ => ⟨k, rfl⟩⟩
    rw [hexec, hr, Option.bind_some, if_neg hgt]

theorem ready_other {res : ReadResult} (he : (Action.recvOther res).Allowed cfg σ) :
    ∃ σ₁ b q r, Ready cfg σ σ₁ (.recvOther res) b q r := by
  obtain ⟨b, q, hq, hread, hres⟩ := he
  obtain ⟨hok, hf, hle⟩ := hR b q hq
  have hnd : ∀ d, q.pc ≠ .done d := fun d hd => by
    rw [Recv.finished, hd] at hf
    cases hf
  have hexec : ∀ r, q.read cfg.toRecvCfg res = some r →
      (Action.recvOther res).exec cfg σ = σ.settle cfg b r := fun r hr => by
    simp only [Action.exec, State.recvOther, hq, hr]
    rfl
  have hready : ∀ r, q.read cfg.toRecvCfg res = some r → r.Ok cfg.toRecvCfg →
      r.stored.length ≤ cfg.msgsz → (∀ d, r.pc ≠ .done d) →
      Ready cfg σ σ (.recvOther res) b q r := fun r hr hok hle hd =>
    ⟨⟨h, hq, .refl _, rfl, rfl, rfl, rfl, rfl, fun _ _ hp => hp, fun d e => absurd e (hd d)⟩,
      hexec r hr, hok, hle, .inr hq, fun k e => (by cases e), fun d e => absurd e (hd d)⟩
  cases res with
  | bytes bs => exact absurd rfl (hres bs)
  | again => exact ⟨σ, b, q, q, hready q rfl hok hle hnd⟩
  | closed => exact ⟨σ, b, q, _, hready _ rfl (Recv.errout_ok hok) hle (by simp)⟩
  | error => exact ⟨σ, b, q, _, hready _ rfl (Recv.errout_ok hok) hle (by simp)⟩

theorem ready_data (he : Action.recvData.Allowed cfg σ) :
    ∃ σ₁ b q r, Ready cfg σ σ₁ .recvData b q r := by
  obtain ⟨b, q, hq, d, hd⟩ := he
  obtain ⟨hqok, -, hle⟩ := hR b q hq
  obtain ⟨r, hr, hok, -⟩ := Recv.getData_ok hqok hd
  have hst : r.stored = q.stored := by
    rw [Recv.getData, hd] at hr
    rw [← Option.some.inj hr]
  have hnd : ∀ d, r.pc ≠ .done d := fun d' e => by
    rw [Recv.getData, hd] at hr
    rw [← Option.some.inj hr] at e
    cases e
  refine ⟨σ, b, q, r, ⟨h, hq, .refl _, rfl, rfl, rfl, rfl, rfl, fun _ _ hp => hp,
    fun d e => absurd e (hnd d)⟩, ?_, hok, by rw [hst]; exact hle, .inr hq,
    fun k e => (by cases e), fun d e => absurd e (hnd d)⟩
  simp only [Action.exec, State.recvData, hq, hr]
  rfl

end

theorem ready_start (h : Base cfg (σ.chan.enabled = true) σ)
    (he : (Action.recvStart alloc).Allowed cfg σ) :
    (σ.chan.poolGet cfg alloc = none ∧ (Action.recvStart alloc).exec cfg σ = none) ∨
      ∃ σ₁ b q r, Ready cfg σ σ₁ (.recvStart alloc) b q r := by
  cases hget : σ.chan.poolGet cfg alloc with
  | none => exact .inl ⟨rfl, by simp only [Action.exec, State.recvStart, hget]; rfl⟩
  | some x =>
      obtain ⟨c, b⟩ := x
      obtain ⟨σ', hx⟩ := exists_settle_start cfg
        { σ with chan := c.setMsg b (.ofBytes cfg.toRecvCfg []) } b c.enabled
      have hx' : σ.recvStart cfg alloc = some σ' := by simpa [State.recvStart, hget] using hx
      obtain ⟨σ₁, b₁, r, hp, hs, rfl, -⟩ := prepared_recvStart h he.2.1 he.1 hx'
      -- a message that was there before would be the buffer of a call under way
      have hnone : σ.chan.msgs b₁ = none := by
        cases hm : σ.chan.msgs b₁ with
        | none => rfl
        | some m =>
            obtain ⟨m₁, hm₁, hu⟩ := hp.base.uses.buffer b₁ _ hp.recv
            obtain rfl := Option.some.inj ((hp.msgs b₁ m hm).symm.trans hm₁)
            have hfit := h.uses.fits b₁ m hm
            simp only [Msg.Fits, hu] at hfit
            obtain ⟨⟨r, hr⟩, -⟩ := hfit
            rw [he.1] at hr
            cases hr
      refine .inr ⟨σ₁, b₁, _, _, hp, by rw [hs]; exact hx', Recv.ok_start _, Nat.zero_le _,
        .inl ⟨he.1, hnone⟩,
        fun k e => (by cases e), fun d hd => ?_⟩
      cases hen : σ.chan.enabled <;> simp [Recv.start, hen] at hd

/-- **What any step of the receiver comes to**, unless its assertion on the
header or on its buffer fails, or it stores bytes that the buffer has no room for. -/
theorem ready (h : Base cfg (σ.chan.enabled = true) σ) (hR : σ.Receives cfg)
    (he : act.Allowed cfg σ) (hact : act.Receiving) :
    (act.exec cfg σ = none ∧ (ShortHeader σ act ∨ Overrun cfg σ act ∨
      ∃ alloc, act = .recvStart alloc ∧ σ.chan.poolGet cfg alloc = none)) ∨
      ¬Overrun cfg σ act ∧ ∃ σ₁ b q r, Ready cfg σ σ₁ act b q r := by
  cases act with
  | recvStart alloc =>
      rcases ready_start h he with ⟨hget, hx⟩ | hready
      · exact .inl ⟨hx, .inr (.inr ⟨alloc, rfl, hget⟩)⟩
      · exact .inr ⟨not_overrun fun k => Action.noConfusion, hready⟩
  | recvTake k =>
      rcases ready_take h hR he with ⟨hs | ho, hx⟩ | hready
      · exact .inl ⟨hx, .inl hs⟩
      · exact .inl ⟨hx, .inr (.inl ho)⟩
      · exact .inr hready
  | recvOther res => exact .inr ⟨not_overrun fun k => Action.noConfusion, ready_other h hR he⟩
  | recvData => exact .inr ⟨not_overrun fun k => Action.noConfusion, ready_data h hR he⟩
  | _ => cases hact

theorem receives_reachable (hr : (channelSystem cfg).Reachable σ) : σ.Receives cfg := by
  induction hr with
  | init hs =>
      obtain ⟨bufs, -, -, rfl⟩ := hs
      exact fun b r h => nomatch h
  | @step σ σ' act hr he hx ih =>
      by_cases hact : act.Receiving
      · have hx : act.exec cfg σ = some σ' := hx
        rcases ready (base_reachable hr) ih he.2 hact with ⟨hnone, -⟩ | ⟨-, σ₁, b, q, r, hready⟩
        · rw [hnone] at hx
          cases hx
        · have hk := hready.keeps.enabled
          have hB : Base cfg (σ₁.chan.enabled = true) σ₁ := hready.base.weaken (by rw [hk]; exact id)
          rw [hready.exec] at hx
          intro b' r' hq'
          rcases recv_of_settle hB hready.recv hready.done hx with ⟨e, hf⟩ | e | e
          · rw [e] at hq'
            obtain ⟨-, rfl⟩ := RecvTask.receiving.inj hq'
            exact ⟨hready.ok, hf, hready.stored⟩
          · rw [e] at hq'
            cases hq'
          · rw [e] at hq'
            cases hq'
      · intro b r hq
        rw [(moves he.2 hx hact).1] at hq
        exact ih b r hq

/-! ## How an iteration goes on and ends -/

/-- A step of an iteration with the buffer `b`: it goes on, it hands a
request to a handler task, it attaches a response to the request that waits
for it, or it disables the channel and hands the handler a message that
says so. No other message is touched. -/
inductive Iteration (σ σ' : State) (b : Addr) : Prop
  | goesOn (r : Recv) : σ'.recv = .receiving b r → Iteration σ σ' b
  | request (m : Msg) : σ'.recv = .idle → σ'.chan.msgs b = some m → m.use = .handed →
      m.hdr.isReq = true → m.hdr.isConnClosed = false →
      (∀ y p, y ≠ b → σ.chan.msgs y = some p → σ'.chan.msgs y = some p) → Iteration σ σ' b
  | response (a : Addr) (p m : Msg) : σ'.recv = .idle → σ.chan.msgs a = some p → p.Pending →
      p.hdr.seqid = m.hdr.seqid → σ'.chan.msgs a = some { p with resp := some b, rendez := [] } →
      σ'.chan.msgs b = some m → m.use = .attached a →
      (∀ y q, y ≠ a → y ≠ b → σ.chan.msgs y = some q → σ'.chan.msgs y = some q) → Iteration σ σ' b
  | closed (m : Msg) : σ'.recv = .left → σ'.chan.enabled = false → σ'.chan.msgs b = some m →
      m.use = .handed → m.hdr.isConnClosed = true →
      (∀ y p, y ≠ b → σ.chan.msgs y = some p → σ'.chan.msgs y = some p) → Iteration σ σ' b

/-- A read that completes a response which no request waits for. -/
def Orphan (cfg : Cfg) (σ : State) (act : Action) : Prop :=
  ∃ b q k, act = .recvTake k ∧ σ.recv = .receiving b q ∧
    let w := q.taken ++ σ.inq.take k
    Whole cfg.toRecvCfg w ∧ (MsgHdr.decode w).isConnClosed = false ∧
      (MsgHdr.decode w).isReq = false ∧
      ∀ a p, σ.chan.msgs a = some p → p.Pending → p.hdr.seqid ≠ (MsgHdr.decode w).seqid

theorem iteration_leave (hready : Ready cfg σ σ₁ act b q r) (hc : m.hdr.isConnClosed = true) :
    Iteration σ (σ₁.leave b m) b := by
  refine .closed { m with use := .handed } rfl rfl ?_ rfl hc fun y p hy hp => ?_
  · simp only [State.leave, setMsg_msgs, Function.update_self]
  · simp only [State.leave, setMsg_msgs, Function.update_of_ne hy]
    exact hready.msgs y p hp

/-- The bytes of a message that has just been completed. -/
theorem Ready.completed (hready : Ready cfg σ σ₁ act b q r) (hR : σ.Receives cfg)
    (hd : r.pc = .done d) : ∃ k, act = .recvTake k ∧ σ.recv = .receiving b q ∧ σ₁.chan = σ.chan ∧
      Whole cfg.toRecvCfg (q.taken ++ σ.inq.take k) ∧ d = MsgHdr.decode (q.taken ++ σ.inq.take k) := by
  obtain ⟨k, hact⟩ := hready.whole d hd
  obtain ⟨hq, hread, hchan⟩ := hready.read k hact
  refine ⟨k, hact, hq, hchan, ?_⟩
  rw [← Recv.taken_read (hR b q hq).1 hread]
  exact hready.ok.whole hd

/-- **A completed message** is an orphan, and fails the assertion, or ends
the iteration. -/
theorem iteration_done (hready : Ready cfg σ σ₁ act b q r) (hR : σ.Receives cfg)
    (hd : r.pc = .done d) :
    (Orphan cfg σ act ∧ σ₁.settle cfg b r = none) ∨
      ¬Orphan cfg σ act ∧ ∃ σ', σ₁.settle cfg b r = some σ' ∧ Iteration σ σ' b := by
  obtain ⟨k, rfl, hq, hchan, hw, hdw⟩ := hready.completed hR hd
  have hen := hready.done d hd
  have hen₀ : σ.chan.enabled = true := by rw [← hready.keeps.enabled, hen]
  obtain ⟨lists, pending, hS⟩ := hready.base.sound
  obtain ⟨m, hm⟩ : ∃ m : Msg, m = { Msg.ofBytes cfg.toRecvCfg r.stored with payload := r.payload } :=
    ⟨_, rfl⟩
  have hu : m.use = .reading := by rw [hm]; rfl
  have hsettle : σ₁.settle cfg b r = σ₁.dispatch cfg b m := by
    simp only [State.settle, Recv.finished, State.deliver, hd, if_true, hm]
  have hhdr : m.hdr = d := by
    have hok := hready.ok
    simp only [Recv.Ok, hd] at hok
    rw [hm]
    exact hok.1.eq.symm
  subst hhdr
  -- an orphan is what is left when nobody is found waiting for a response
  have horphan : Orphan cfg σ (.recvTake k) ↔
      m.hdr.isConnClosed = false ∧ m.hdr.isReq = false ∧
        ∀ a p, σ.chan.msgs a = some p → p.Pending → p.hdr.seqid ≠ m.hdr.seqid := by
    constructor
    · rintro ⟨b', q', k', hact, hq', -, h₁, h₂, h₃⟩
      obtain rfl := Action.recvTake.inj hact
      obtain ⟨rfl, rfl⟩ := RecvTask.receiving.inj (hq.symm.trans hq')
      rw [← hdw] at h₁ h₂ h₃
      exact ⟨h₁, h₂, h₃⟩
    · intro h
      rw [hdw] at h
      exact ⟨b, q, k, rfl, hq, hw, h⟩
  rw [hsettle, State.dispatch, horphan]
  by_cases hc : m.hdr.isConnClosed = true
  · rw [if_pos hc]
    refine .inr ⟨fun h => ?_, _, rfl, iteration_leave hready hc⟩
    rw [h.1] at hc
    cases hc
  have hc' : m.hdr.isConnClosed = false := by simpa using hc
  by_cases hreq : m.hdr.isReq = true
  · rw [if_neg hc, if_pos hreq]
    refine .inr ⟨fun h => ?_, _, rfl, .request { m with use := .handed } rfl ?_ rfl hreq hc'
      fun y p hy hp => ?_⟩
    · rw [h.2.1] at hreq
      cases hreq
    · simp only [setMsg_msgs, Function.update_self]
    · simp only [setMsg_msgs, Function.update_of_ne hy]
      exact hready.msgs y p hp
  · have hreq' : m.hdr.isReq = false := by simpa using hreq
    rw [if_neg hc, if_neg hreq]
    rcases State.rpcResponse_spec hready.base.uses hS hen₀ hready.recv hu with
      ⟨a, p, n, c', hp, hpu, hpr, hid, hx, hmsgs, -⟩ | ⟨hx, hnone⟩
    · have hab : a ≠ b := by
        rintro rfl
        obtain ⟨p', hp', hu'⟩ := hready.base.uses.buffer a q hready.recv
        obtain rfl := Option.some.inj (hp.symm.trans hp')
        rw [hpu] at hu'
        cases hu'
      have hp₀ : σ.chan.msgs a = some p := by rw [← hchan, hp]
      refine .inr ⟨fun h => h.2.2 a p hp₀ ⟨⟨n, hpu⟩, hpr⟩ hid, _, hx, .response a p
        { m with use := .attached a } rfl hp₀ ⟨⟨n, hpu⟩, hpr⟩ hid ?_ ?_ rfl
        fun y p' hya hyb hp' => ?_⟩
      · simp only [hmsgs, if_true]
      · simp only [hmsgs, if_neg hab.symm, if_true]
      · simp only [hmsgs, if_neg hya, if_neg hyb]
        exact hready.msgs y p' hp'
    · exact .inl ⟨⟨hc', hreq', fun a p hp hpp => hnone a p (hready.msgs a p hp) hpp⟩, hx⟩

/-- An orphan is a completed message. -/
theorem Orphan.done (ho : Orphan cfg σ act) (hR : σ.Receives cfg) (he : act.Allowed cfg σ)
    (hready : Ready cfg σ σ₁ act b q r) : ∃ d, r.pc = .done d := by
  obtain ⟨b₁, q₁, k, rfl, hq₁, hw, -⟩ := ho
  obtain ⟨b₂, q₂, hq₂, -, hk, hwant, hlen⟩ := he
  obtain ⟨hq, hread, -⟩ := hready.read k rfl
  obtain ⟨rfl, rfl⟩ := RecvTask.receiving.inj (hq.symm.trans hq₁)
  obtain ⟨-, rfl⟩ := RecvTask.receiving.inj (hq.symm.trans hq₂)
  have htake : (σ.inq.take k).length = k := by simpa using hlen
  obtain ⟨r', hr', hd⟩ :=
    (Recv.read_done_iff (hR b q hq).1 (by omega) (by omega)).2 ⟨hw, rfl⟩
  obtain rfl := Option.some.inj (hread.symm.trans hr')
  exact ⟨_, hd⟩

/-- A call that goes on or ends in an error. -/
theorem iteration_not_done (hready : Ready cfg σ σ₁ act b q r) (hd : ∀ d, r.pc ≠ .done d) :
    ∃ σ', σ₁.settle cfg b r = some σ' ∧ Iteration σ σ' b := by
  by_cases hpc : r.pc = .errout
  · refine ⟨_, ?_, iteration_leave (m := { Msg.ofBytes cfg.toRecvCfg r.stored with
      hdr := (MsgHdr.decode r.stored).setConnClosed }) hready (MsgHdr.isConnClosed_setConnClosed _)⟩
    simp only [State.settle, Recv.finished, State.deliver, hpc, if_true, State.dispatch]
    exact if_pos (MsgHdr.isConnClosed_setConnClosed _)
  · have hf : r.finished = false := by
      unfold Recv.finished
      split
      · rename_i d e
        exact absurd e (hd d)
      · rename_i e
        exact absurd e hpc
      · rfl
    exact ⟨_, by rw [State.settle, hf]; rfl, .goesOn r rfl⟩

/-- **Which bytes the receiver survives.** In every run of a channel whose
pools can supply their buffers, whatever the peer sent and whatever is
pending, the receiver's next step returns, and goes on with its iteration
or ends it with one message delivered or the channel closed, exactly if it
does not complete a header shorter than itself or a response that no
request waits for, and does not store bytes of a header behind the message
buffer. -/
theorem receiver_survives_iff (hr : (channelSystem cfg).Reachable σ)
    (he : (channelSystem cfg).enabled σ act) (hact : act.Receiving)
    (hpool : ∀ alloc, act = .recvStart alloc → σ.chan.state = .initialized ∧
      σ.chan.issued < cfg.nmax) :
    (∃ σ' b, (channelSystem cfg).exec σ act = some σ' ∧
      ((σ.recv = .idle ∧ σ.chan.msgs b = none) ∨ ∃ q, σ.recv = .receiving b q) ∧
      Iteration σ σ' b) ↔ ¬ShortHeader σ act ∧ ¬Overrun cfg σ act ∧ ¬Orphan cfg σ act := by
  have hR := receives_reachable hr
  have hB := base_reachable hr
  rcases ready hB hR he.2 hact with ⟨hnone, hwhy⟩ | ⟨hover, σ₁, b, q, r, hready⟩
  · have hbad : ShortHeader σ act ∨ Overrun cfg σ act := by
      rcases hwhy with hs | ho | ⟨alloc, ha, hget⟩
      · exact .inl hs
      · exact .inr ho
      · obtain ⟨issued, hc⟩ := counted_reachable hr
        obtain ⟨lists, pending, hS⟩ := hB.sound
        obtain ⟨hs, hlt⟩ := hpool alloc ha
        obtain ⟨c, b, hsome⟩ := (hc.poolGet_iff alloc hS.1 hs).2 hlt
        rw [hget] at hsome
        cases hsome
    refine iff_of_false (fun ⟨σ', b, hx, _⟩ => ?_) fun h => hbad.elim h.1 h.2.1
    rw [show (channelSystem cfg).exec σ act = none from hnone] at hx
    cases hx
  · have hexec : (channelSystem cfg).exec σ act = σ₁.settle cfg b r := hready.exec
    have hbuf : (σ.recv = .idle ∧ σ.chan.msgs b = none) ∨ ∃ q, σ.recv = .receiving b q :=
      hready.buffer.imp_right fun h => ⟨q, h⟩
    -- the header of a call that has gone on was accepted
    have hshort : ¬ShortHeader σ act := by
      rintro ⟨b', q', k, rfl, hq', hpc, hsize, hlt⟩
      obtain ⟨hq, hread, -⟩ := hready.read k rfl
      obtain ⟨rfl, rfl⟩ := RecvTask.receiving.inj (hq.symm.trans hq')
      rw [Recv.read_short hpc hsize hlt] at hread
      cases hread
    by_cases hd : ∃ d, r.pc = .done d
    · obtain ⟨d, hd⟩ := hd
      rcases iteration_done hready hR hd with ⟨ho, hx⟩ | ⟨ho, σ', hx, hit⟩
      · refine iff_of_false (fun ⟨σ', b', hx', _⟩ => ?_) fun h => h.2.2 ho
        rw [hexec, hx] at hx'
        cases hx'
      · exact iff_of_true ⟨σ', b, by rw [hexec, hx], hbuf, hit⟩ ⟨hshort, hover, ho⟩
    · obtain ⟨σ', hx, hit⟩ := iteration_not_done hready (not_exists.1 hd)
      exact iff_of_true ⟨σ', b, by rw [hexec, hx], hbuf, hit⟩
        ⟨hshort, hover, fun ho => hd (ho.done hR he.2 hready)⟩

/-- A request arrives, and the receiver is about to read it. -/
theorem receiver_survives_request : ∃ σ, (channelSystem smallCfg).Reachable σ ∧
    ∃ σ' b, (channelSystem smallCfg).exec σ (.recvTake 12) = some σ' ∧
      ((σ.recv = .idle ∧ σ.chan.msgs b = none) ∨ ∃ q, σ.recv = .receiving b q) ∧
      Iteration σ σ' b := by
  have h : ((channelSystem smallCfg).run smallChannel
      [.recvStart 9, .arrive (⟨7, 1, 12, 0, 0⟩ : MsgHdr).encode]).any
      (fun σ : State => decide ((channelSystem smallCfg).enabled σ (.recvTake 12) ∧
        σ.recv = .receiving 0 (.start true) ∧ σ.inq = (⟨7, 1, 12, 0, 0⟩ : MsgHdr).encode)) = true := by
    decide +kernel
  obtain ⟨σ, hσ, hp⟩ := System.Steps.of_run_any h
  obtain ⟨he, hq, hin⟩ := of_decide_eq_true hp
  have hr := hσ.reachable (.init smallChannel_init)
  refine ⟨σ, hr, (receiver_survives_iff hr he trivial nofun).2 ⟨?_, ?_, ?_⟩⟩
  · rintro ⟨b, r, k, hk, hr', -, -, hlt⟩
    obtain rfl := Action.recvTake.inj hk
    obtain ⟨-, rfl⟩ := RecvTask.receiving.inj (hq.symm.trans hr')
    rw [hin] at hlt
    exact absurd hlt (by decide)
  · rintro ⟨b, q, h, k, hk, hr', hpc, -⟩
    obtain ⟨-, rfl⟩ := RecvTask.receiving.inj (hq.symm.trans hr')
    cases hpc
  · rintro ⟨b, q, k, hk, hr', -, -, hreq, -⟩
    obtain rfl := Action.recvTake.inj hk
    obtain ⟨-, rfl⟩ := RecvTask.receiving.inj (hq.symm.trans hr')
    rw [hin] at hreq
    exact absurd hreq (by decide)

/-- **What the receiver does not survive**: a header of no length, and a
response when nothing is pending. -/
theorem receiver_dies :
    (∃ σ, (channelSystem smallCfg).Reachable σ ∧ σ.chan.enabled = true ∧
      σ.inq = (⟨7, 1, 0, 0, 0⟩ : MsgHdr).encode ∧
      (channelSystem smallCfg).enabled σ (.recvTake 12) ∧
      (channelSystem smallCfg).exec σ (.recvTake 12) = none) ∧
    ∃ σ, (channelSystem smallCfg).Reachable σ ∧ σ.chan.enabled = true ∧
      σ.inq = (⟨7, 0, 12, 0, 0⟩ : MsgHdr).encode ∧
      (channelSystem smallCfg).enabled σ (.recvTake 12) ∧
      (channelSystem smallCfg).exec σ (.recvTake 12) = none := by
  have h : ∀ m ∈ [(⟨7, 1, 0, 0, 0⟩ : MsgHdr), ⟨7, 0, 12, 0, 0⟩],
      ((channelSystem smallCfg).run smallChannel [.recvStart 9, .arrive m.encode]).any
      (fun σ : State => decide (σ.chan.enabled = true ∧ σ.inq = m.encode ∧
        (channelSystem smallCfg).enabled σ (.recvTake 12) ∧
        ((channelSystem smallCfg).exec σ (.recvTake 12)).isNone)) = true := by decide +kernel
  have hrun : ∀ m ∈ [(⟨7, 1, 0, 0, 0⟩ : MsgHdr), ⟨7, 0, 12, 0, 0⟩],
      ∃ σ, (channelSystem smallCfg).Reachable σ ∧ σ.chan.enabled = true ∧ σ.inq = m.encode ∧
        (channelSystem smallCfg).enabled σ (.recvTake 12) ∧
        (channelSystem smallCfg).exec σ (.recvTake 12) = none := fun m hm => by
    obtain ⟨σ, hσ, hp⟩ := System.Steps.of_run_any (h m hm)
    obtain ⟨hen, hin, he, hx⟩ := of_decide_eq_true hp
    exact ⟨σ, hσ.reachable (.init smallChannel_init), hen, hin, he, Option.isNone_iff_eq_none.1 hx⟩
  exact ⟨hrun _ (by simp), hrun _ (by simp)⟩

end Rpc

end VmwareProto
