import VmwareProto.Rpc.Messages
import VmwareProto.Rpc.Framing
import Mathlib.Algebra.Group.Nat.Defs
/-!
# Sequence ids

`rpc_msg_get` numbers the messages. As long as the counter has not come
round, no two messages of an endpoint's own that are yet to be answered
have the same sequence id, and no request is begun on the wire twice.
-/

namespace VmwareProto

namespace Rpc

open Libtask

variable {cfg : Cfg} {σ σ' : State} {a b : Addr} {m m' : Msg} {n : TaskId} {act : Action}
  {s : BitVec 32}

/-- A request, or what can become one. -/
def Msg.Ours (m : Msg) : Prop := m.use = .fresh ∨ ∃ n, m.use = .request n

/-- How many sequence ids were given out before this one. -/
def serial (s : BitVec 32) : ℕ := (s - 1).toNat

/-- The type of a message that is being sent. -/
structure Msg.Kinded (m : Msg) : Prop where
  request : ∀ n, m.use = .request n → m.hdr.isReq = true
  response : ∀ n, m.use = .response n → m.hdr.isReq = false

/-- The message has not been begun on the wire. -/
def State.Unsent (σ : State) (a : Addr) (m : Msg) : Prop :=
  m.use = .fresh ∨ ∃ n, m.use = .request n ∧ σ.pc n = .lockWait .request a

/-- **What the sequence ids are.** -/
structure Numbered (σ : State) : Prop where
  next : σ.chan.seqid = 1 + BitVec.ofNat 32 σ.gets
  known : ∀ a m, σ.chan.msgs a = some m → m.Ours → serial m.hdr.seqid < σ.gets
  distinct : ∀ a b m m', σ.chan.msgs a = some m → σ.chan.msgs b = some m' → m.Ours → m'.Ours →
    m.hdr.seqid = m'.hdr.seqid → a = b
  kinded : ∀ a m, σ.chan.msgs a = some m → m.Kinded
  logged : ∀ w ∈ σ.log, (MsgHdr.decode w).isReq = true → serial (MsgHdr.decode w).seqid < σ.gets
  once : ∀ s, σ.log.countP (isRequest s) ≤ 1
  unsent : ∀ a m, σ.chan.msgs a = some m → σ.Unsent a m →
    σ.log.countP (isRequest m.hdr.seqid) = 0

theorem serial_next {i : ℕ} (hi : i < 2 ^ 32) : serial (1 + BitVec.ofNat 32 i) = i := by
  have h : (1 + BitVec.ofNat 32 i) - 1 = BitVec.ofNat 32 i := by
    rw [BitVec.add_comm, BitVec.add_sub_cancel]
  rw [serial, h, BitVec.toNat_ofNat, Nat.mod_eq_of_lt hi]

theorem isRequest_iff {w : List Byte} : isRequest s w = true ↔
    (MsgHdr.decode w).isReq = true ∧ (MsgHdr.decode w).seqid = s := by
  simp [isRequest]

/-- The sequence ids that a step gives out. -/
theorem gets_step (h : Base cfg (σ.chan.enabled = true) σ) (he : act.Allowed cfg σ)
    (hx : act.exec cfg σ = some σ') : σ'.gets = σ.gets + act.gets ∧
    σ'.chan.seqid = σ.chan.seqid + BitVec.ofNat 32 act.gets := by
  by_cases hact : act.Receiving
  · have hr := received h id he hx hact
    have hg : act.gets = 0 := by cases act <;> first | rfl | cases hact
    rw [hg, hr.gets, hr.seqid]
    exact ⟨rfl, (BitVec.add_zero _).symm⟩
  · have hf := fields h he hx hact
    exact ⟨hf.gets, hf.seqid⟩

section

variable (h : Base cfg (σ.chan.enabled = true) σ) (hR : σ.Receives cfg) (he : act.Allowed cfg σ)
  (hx : act.exec cfg σ = some σ')
include h hR he hx

/-- **Where a message of the endpoint's own comes from.** -/
theorem ours_origin (hen' : σ'.chan.enabled = true) (hm' : σ'.chan.msgs a = some m') (ho : m'.Ours) :
    (∃ m, σ.chan.msgs a = some m ∧ m.Ours ∧ m'.hdr.seqid = m.hdr.seqid ∧
      (m'.use = m.use ∨ m.use = .fresh ∧ ∃ n, act = .request n a ∧ m'.use = .request n)) ∨
    act.gets = 1 ∧ m'.hdr.seqid = σ.chan.seqid ∧ m'.use = .fresh ∧
      ∀ y, y ≠ a → σ'.chan.msgs y = σ.chan.msgs y := by
  have hkept : σ.chan.msgs a = some m' → ∃ m, σ.chan.msgs a = some m ∧ m.Ours ∧
      m'.hdr.seqid = m.hdr.seqid ∧
      (m'.use = m.use ∨ m.use = .fresh ∧ ∃ n, act = .request n a ∧ m'.use = .request n) :=
    fun hm => ⟨m', hm, ho, rfl, .inl rfl⟩
  by_cases hact : act.Receiving
  · left
    obtain ⟨b, hb⟩ := outcome h hR he hx hact
    cases hb with
    | left _ _ hd =>
        rw [hd] at hen'
        cases hen'
    | goesOn r _ _ _ hbuf hothers =>
        obtain ⟨q, hq, hqu⟩ := hbuf
        by_cases hab : a = b
        · subst hab
          obtain rfl := Option.some.inj (hm'.symm.trans hq)
          rcases ho with ho | ⟨n, ho⟩ <;> rw [hqu] at ho <;> cases ho
        · rw [hothers a hab] at hm'
          exact hkept hm'
    | request w _ _ _ _ _ hbuf hothers =>
        by_cases hab : a = b
        · subst hab
          obtain rfl := Option.some.inj (hm'.symm.trans hbuf)
          rcases ho with ho | ⟨n, ho⟩ <;> cases ho
        · rw [hothers a hab] at hm'
          exact hkept hm'
    | response w y p n _ _ _ _ _ _ hp hpu _ _ _ hy hbuf hothers =>
        by_cases hay : a = y
        · subst hay
          obtain rfl := Option.some.inj (hm'.symm.trans hy)
          exact ⟨p, hp, .inr ⟨n, hpu⟩, rfl, .inl rfl⟩
        by_cases hab : a = b
        · subst hab
          obtain rfl := Option.some.inj (hm'.symm.trans hbuf)
          rcases ho with ho | ⟨n, ho⟩ <;> cases ho
        · rw [hothers a hay hab] at hm'
          exact hkept hm'
  · rcases became h he hx hact hm' with ⟨m, hm, hb⟩ | ⟨⟨_, _, _, _, _, rfl⟩, -, hu, -, hid, hothers⟩
    · left
      cases hb with
      | same => exact hkept hm
      | edited _ _ _ _ _ _ _ => exact ⟨m, hm, ho, rfl, .inl rfl⟩
      | refused n _ _ _ => rcases ho with ho | ⟨n, ho⟩ <;> cases ho
      | requested n hact hu _ _ => exact ⟨m, hm, .inl hu, rfl, .inr ⟨hu, n, hact, rfl⟩⟩
      | responded n _ _ _ _ => rcases ho with ho | ⟨n, ho⟩ <;> cases ho
      | slept n _ _ hu => exact ⟨m, hm, .inr ⟨n, hu⟩, rfl, .inl rfl⟩
      | returned n _ _ _ _ _ => rcases ho with ho | ⟨n, ho⟩ <;> cases ho
    · exact .inr ⟨rfl, hid, hu, hothers⟩

/-- It is not one that is passed to `rpc_response`. -/
theorem ours_not_response (hen' : σ'.chan.enabled = true) (hm' : σ'.chan.msgs a = some m')
    (ho : m'.Ours) : act ≠ .response n a := by
  rintro rfl
  have he' := he
  obtain ⟨-, q, hq, hqu, -⟩ := he'
  rcases ours_origin h hR he hx hen' hm' ho with ⟨p, hp, hpo, -⟩ | ⟨hg, -⟩
  · obtain rfl := Option.some.inj (hp.symm.trans hq)
    rcases hpo with e | ⟨_, e⟩ <;> rw [hqu] at e <;> cases e
  · cases hg

/-- The types stay what they are. -/
theorem kinded_step (hk : ∀ a m, σ.chan.msgs a = some m → m.Kinded) (hen' : σ'.chan.enabled = true)
    (hm' : σ'.chan.msgs a = some m') : m'.Kinded := by
  by_cases hact : act.Receiving
  · obtain ⟨b, hb⟩ := outcome h hR he hx hact
    cases hb with
    | left _ _ hd =>
        rw [hd] at hen'
        cases hen'
    | goesOn r _ _ _ hbuf hothers =>
        obtain ⟨q, hq, hqu⟩ := hbuf
        by_cases hab : a = b
        · subst hab
          obtain rfl := Option.some.inj (hm'.symm.trans hq)
          exact ⟨by simp [hqu], by simp [hqu]⟩
        · rw [hothers a hab] at hm'
          exact hk a m' hm'
    | request w _ _ _ _ _ hbuf hothers =>
        by_cases hab : a = b
        · subst hab
          obtain rfl := Option.some.inj (hm'.symm.trans hbuf)
          exact ⟨by simp, by simp⟩
        · rw [hothers a hab] at hm'
          exact hk a m' hm'
    | response w y p n _ _ _ _ _ _ hp _ _ _ _ hy hbuf hothers =>
        by_cases hay : a = y
        · subst hay
          obtain rfl := Option.some.inj (hm'.symm.trans hy)
          exact ⟨(hk a p hp).request, (hk a p hp).response⟩
        by_cases hab : a = b
        · subst hab
          obtain rfl := Option.some.inj (hm'.symm.trans hbuf)
          exact ⟨by simp, by simp⟩
        · rw [hothers a hay hab] at hm'
          exact hk a m' hm'
  · rcases became h he hx hact hm' with ⟨m, hm, hb⟩ | ⟨-, -, hu, -⟩
    · have hkm := hk a m hm
      cases hb with
      | same => exact hkm
      | edited _ _ _ _ _ _ hu => exact ⟨fun n e => by rcases hu with hu | hu <;> simp [hu] at e,
          fun n e => by rcases hu with hu | hu <;> simp [hu] at e⟩
      | refused n _ _ _ => exact ⟨by simp, by simp⟩
      | requested n _ _ _ _ => exact ⟨fun _ _ => MsgHdr.isReq_setReq _, by simp⟩
      | responded n _ _ _ _ => exact ⟨by simp, fun _ _ => MsgHdr.isReq_setResp _⟩
      | slept n _ _ _ => exact ⟨hkm.request, hkm.response⟩
      | returned n _ _ _ _ _ => exact ⟨by simp, by simp⟩
    · exact ⟨by simp [hu], by simp [hu]⟩

end

/-- A request that has been begun is one of the endpoint's own. -/
theorem Numbered.begun (hk : ∀ a m, σ'.chan.msgs a = some m → m.Kinded) {k : Kind}
    (hb : Begins σ σ' act n k a m) (hreq : m.hdr.isReq = true) : m.use = .request n := by
  cases k with
  | request => exact hb.use
  | response =>
      rw [(hk a m hb.msg).response n hb.use] at hreq
      cases hreq

/-- **Every step** that leaves the channel enabled, while there are sequence
ids. -/
theorem Numbered.step (hN : Numbered σ) (h : Base cfg (σ.chan.enabled = true) σ)
    (hR : σ.Receives cfg) (he : act.Allowed cfg σ) (hx : act.exec cfg σ = some σ')
    (hen' : σ'.chan.enabled = true) (hlt : act.gets = 1 → σ.gets < 2 ^ 32)
    (hdec : ∀ n k a m, Begins σ σ' act n k a m → MsgHdr.decode m.wire = m.hdr) : Numbered σ' := by
  obtain ⟨hgets, hseq⟩ := gets_step h he hx
  have hkinded : ∀ a m, σ'.chan.msgs a = some m → m.Kinded :=
    fun a m hm => kinded_step h hR he hx hN.kinded hen' hm
  have hnew : act.gets = 1 → serial σ.chan.seqid = σ.gets := fun hg => by
    rw [hN.next, serial_next (hlt hg)]
  have hknown : ∀ a m, σ'.chan.msgs a = some m → m.Ours → serial m.hdr.seqid < σ'.gets := by
    intro a m' hm' ho
    rcases ours_origin h hR he hx hen' hm' ho with ⟨m, hm, ho, hid, -⟩ | ⟨hg, hid, -⟩
    · have := hN.known a m hm ho
      rw [hid]
      omega
    · rw [hid, hnew hg]
      omega
  have hdistinct : ∀ a b m m', σ'.chan.msgs a = some m → σ'.chan.msgs b = some m' → m.Ours →
      m'.Ours → m.hdr.seqid = m'.hdr.seqid → a = b := by
    -- a new message against an old one
    have hside : ∀ a b m m', σ'.chan.msgs a = some m → σ'.chan.msgs b = some m' → m'.Ours →
        act.gets = 1 → m.hdr.seqid = σ.chan.seqid →
        (∀ y, y ≠ a → σ'.chan.msgs y = σ.chan.msgs y) → m.hdr.seqid = m'.hdr.seqid → a = b := by
      intro a b m m' hm hm' ho' hg hid hothers heq
      by_contra hab
      rw [hothers b fun e => hab e.symm] at hm'
      have := hN.known b m' hm' ho'
      rw [← heq, hid, hnew hg] at this
      omega
    intro a b m m' hm hm' ho ho' heq
    rcases ours_origin h hR he hx hen' hm ho with ⟨p, hp, hpo, hid, -⟩ | ⟨hg, hid, -, hothers⟩
    · rcases ours_origin h hR he hx hen' hm' ho' with ⟨p', hp', hpo', hid', -⟩ | ⟨hg, hid', -, hothers⟩
      · exact hN.distinct a b p p' hp hp' hpo hpo' (by rw [← hid, heq, hid'])
      · exact (hside b a m' m hm' hm ho hg hid' hothers heq.symm).symm
    · exact hside a b m m' hm hm' ho' hg hid hothers heq
  -- what had not been begun before the step
  have hbefore : ∀ a m', σ'.chan.msgs a = some m' → m'.Ours →
      (∀ n, m'.use = .request n → σ.pc n = .lockWait .request a ∨ act = .request n a) →
      σ.log.countP (isRequest m'.hdr.seqid) = 0 := by
    intro a m' hm' ho hwait
    rcases ours_origin h hR he hx hen' hm' ho with ⟨m, hm, hmo, hid, hu⟩ | ⟨hg, hid, -⟩
    · rw [hid]
      refine hN.unsent a m hm ?_
      rcases hu with hu | ⟨hu, -⟩
      · rcases hmo with hf | ⟨n, hn⟩
        · exact .inl hf
        · rcases hwait n (hu.trans hn) with hpc | rfl
          · exact .inr ⟨n, hn, hpc⟩
          · obtain ⟨-, q, hq, hqu, -⟩ := he
            obtain rfl := Option.some.inj (hm.symm.trans hq)
            exact .inl hqu
      · exact .inl hu
    · rw [List.countP_eq_zero]
      intro w hw hreq
      obtain ⟨hreq, hs⟩ := isRequest_iff.1 hreq
      have := hN.logged w hw hreq
      rw [hs, hid, hnew hg] at this
      omega
  -- a request that is begun had not been
  have hbegun : ∀ n k a m, Begins σ σ' act n k a m → m.hdr.isReq = true →
      σ.log.countP (isRequest m.hdr.seqid) = 0 := by
    intro n k a m hb hreq
    have hu := Numbered.begun hkinded hb hreq
    refine hbefore a m hb.msg (.inr ⟨n, hu⟩) fun t ht => ?_
    obtain rfl := Use.request.inj (hu.symm.trans ht)
    rcases hb.before with ⟨-, rfl | rfl⟩ | ⟨hpc, -, hm⟩
    · exact .inr rfl
    · exact absurd rfl (ours_not_response h hR he hx hen' hb.msg (.inr ⟨n, hu⟩))
    · obtain ⟨q, hq, hqu⟩ := h.uses.call n k a (by rw [hpc]; rfl)
      obtain rfl := Option.some.inj (hm.symm.trans hq)
      have huse : k.use n = Kind.request.use n := hqu.symm.trans hu
      obtain rfl : k = .request := (Kind.use_inj huse).1
      exact .inl hpc
  refine ⟨?_, hknown, hdistinct, hkinded, fun w hw hreq => ?_, fun s => ?_, fun a m hm hu => ?_⟩
  · rw [hseq, hgets, hN.next, BitVec.add_assoc, ← BitVec.ofNat_add]
  · rcases log_cases h id he hx with hlog | ⟨n, k, a, m, hb⟩
    · have := hN.logged w (hlog ▸ hw) hreq
      omega
    · rw [hb.log, List.mem_append, List.mem_singleton] at hw
      rcases hw with hw | rfl
      · have := hN.logged w hw hreq
        omega
      · rw [hdec n k a m hb] at hreq ⊢
        exact hknown a m hb.msg (.inr ⟨n, Numbered.begun hkinded hb hreq⟩)
  · rcases log_cases h id he hx with hlog | ⟨n, k, a, m, hb⟩
    · rw [hlog]
      exact hN.once s
    · rw [hb.log, List.countP_append, List.countP_singleton]
      split
      · rename_i hreq
        obtain ⟨hm, rfl⟩ := isRequest_iff.1 hreq
        rw [hdec n k a m hb] at hm ⊢
        rw [hbegun n k a m hb hm]
      · exact hN.once s
  · have ho : m.Ours := hu.imp_right fun ⟨n, hn, _⟩ => ⟨n, hn⟩
    have hzero := hbefore a m hm ho fun n hn => by
      rcases hu with hu | ⟨t, ht, hpc⟩
      · rw [hu] at hn
        cases hn
      · obtain rfl := Use.request.inj (hn.symm.trans ht)
        rcases lockWait_cases h id he hx hpc with e | rfl | rfl
        · exact .inl e
        · exact .inr rfl
        · exact absurd rfl (ours_not_response h hR he hx hen' hm ho)
    rcases log_cases h id he hx with hlog | ⟨n, k, b, p, hb⟩
    · rw [hlog, hzero]
    · rw [hb.log, List.countP_append, hzero, List.countP_singleton, if_neg]
      intro hreq
      obtain ⟨hreq, hid⟩ := isRequest_iff.1 hreq
      rw [hdec n k b p hb] at hreq hid
      have hpu := Numbered.begun hkinded hb hreq
      obtain rfl := hdistinct b a p m hb.msg hm (.inr ⟨n, hpu⟩) ho hid
      obtain rfl := Option.some.inj (hb.msg.symm.trans hm)
      rcases hu with hu | ⟨t, ht, hpc⟩
      · rw [hpu] at hu
        cases hu
      · obtain rfl := Use.request.inj (hpu.symm.trans ht)
        rw [hb.pc, Function.update_self] at hpc
        cases hpc

end Rpc

end VmwareProto
