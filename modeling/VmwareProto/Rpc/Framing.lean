import VmwareProto.Rpc.Discipline
import VmwareProto.Rpc.Stream
/-!
# Framing under concurrency

Any number of tasks write to one descriptor, each its header and then its
payload, in parts and with pauses. `fdlock` keeps the messages apart: while
the channel is enabled, what is on the wire are the messages of those who
obtained the lock, whole and in that order, up to the one that is being
written.
-/

namespace VmwareProto

namespace Rpc

open Libtask

variable {cfg : Cfg} {rcfg : RecvCfg} {ok whole : Prop} {σ σ' : State} {a : Addr} {m : Msg}
  {n t : TaskId} {k : Kind} {act : Action} {part : Part} {rest : List Byte}

/-- What a message must be like for the peer to take it: its lengths within
the peer's sizes, and a payload exactly if the header says so. -/
structure Msg.Sendable (rcfg : RecvCfg) (m : Msg) : Prop where
  len_ge : hdrSize ≤ m.hdr.len
  len_le : m.hdr.len ≤ rcfg.msgsz
  plen_le : m.hdr.plen ≤ rcfg.datasz
  payload_iff : m.payload = none ↔ m.hdr.plen = 0

/-- Only such messages are sent. -/
def SendsWhole (rcfg : RecvCfg) (σ : State) (act : Action) : Prop :=
  ∀ n a m, act = .request n a ∨ act = .response n a → σ.chan.msgs a = some m → m.Sendable rcfg

instance (m : Msg) : Decidable (m.Sendable rcfg) :=
  decidable_of_iff (hdrSize ≤ m.hdr.len ∧ m.hdr.len ≤ rcfg.msgsz ∧ m.hdr.plen ≤ rcfg.datasz ∧
      (m.payload = none ↔ m.hdr.plen = 0))
    ⟨fun h => ⟨h.1, h.2.1, h.2.2.1, h.2.2.2⟩, fun h => ⟨h.1, h.2, h.3, h.4⟩⟩

instance (σ : State) : (act : Action) → Decidable (SendsWhole rcfg σ act)
  | .request n a | .response n a =>
      decidable_of_iff (∀ m ∈ σ.chan.msgs a, m.Sendable rcfg)
        ⟨fun h _ _ m e hm => h m (by simp only [Action.request.injEq, Action.response.injEq,
            reduceCtorEq, or_false, false_or] at e; rw [e.2]; exact hm),
          fun h m hm => h n a m (by simp) hm⟩
  | .msgGet _ _ _ _ _ | .edit _ _ _ _ _ _ | .msgPut _ | .resume _ | .write _ _ | .unlock _
  | .wake _ | .close | .deinit _ | .drained _ | .recvStart _ | .recvTake _ | .recvOther _
  | .recvData | .arrive _ => .isTrue fun _ _ _ e => by simp at e

/-- A message on its way, with its lengths within the sender's buffers too;
where all are `whole`, it has a payload exactly if its header says so. -/
structure Msg.Carries (rcfg : RecvCfg) (whole : Prop) (m : Msg) : Prop extends m.Framed rcfg where
  payload_iff : whole → (m.payload = none ↔ m.hdr.plen = 0)

theorem Msg.Sendable.carries (h : m.Sendable rcfg) (hb : m.InBuffers) : m.Carries rcfg whole where
  len_ge := h.len_ge
  len_le := h.len_le
  plen_le := h.plen_le.trans (le_max_left ..)
  inBuffers := hb
  payload_iff _ := h.payload_iff

/-- What the table and the flags do to a message does not concern the wire. -/
theorem Msg.Carries.congr {m' : Msg} (h : m.Carries rcfg whole) (hl : m'.hdr.len = m.hdr.len)
    (hz : m'.hdr.plen = m.hdr.plen) (hb : m'.body = m.body) (hp : m'.payload = m.payload) :
    m'.Carries rcfg whole where
  len_ge := by rw [hl]; exact h.len_ge
  len_le := by rw [hl]; exact h.len_le
  plen_le := by rw [hz]; exact h.plen_le
  inBuffers := by rw [InBuffers, hl, hz, hb, hp]; exact h.inBuffers
  payload_iff := by rw [hz, hp]; exact h.payload_iff

theorem Msg.Carries.hdrBytes_ne (h : m.Carries rcfg whole) : m.hdrBytes ≠ [] := by
  have := h.length_hdrBytes
  have hge := h.len_ge
  rw [← List.length_pos_iff, this]
  exact lt_of_lt_of_le (by decide) hge

/-- What is yet to be written of a message. -/
def Msg.remaining (m : Msg) : Part → List Byte → List Byte
  | .header, rest => rest ++ m.payloadBytes
  | .payload, rest => rest

/-- **One write of a message**: it goes on with what remains, or nothing
does; or a payload of no bytes is next. -/
theorem Msg.Carries.left (h : m.Carries rcfg whole) (part : Part) (rest : List Byte) :
    (∃ part' rest', State.left m part rest = some (part', rest') ∧ rest' ≠ [] ∧
      m.remaining part' rest' = m.remaining part rest) ∨
    (State.left m part rest = none ∧ m.remaining part rest = []) ∨
    ¬whole ∧ State.left m part rest = some (.payload, []) := by
  cases rest with
  | cons b bs => exact .inl ⟨part, b :: bs, by cases part <;> rfl, by simp, rfl⟩
  | nil =>
      cases part with
      | payload => exact .inr (.inl ⟨rfl, rfl⟩)
      | header =>
          cases hp : m.payload with
          | none =>
              refine .inr (.inl ⟨by simp [State.left, hp], ?_⟩)
              simp [remaining, payloadBytes, hp]
          | some p =>
              have hleft : State.left m .header [] = some (.payload, m.payloadBytes) := by
                simp [State.left, hp]
              by_cases hz : m.payloadBytes = []
              · refine .inr (.inr ⟨fun hw => ?_, by rw [hleft, hz]⟩)
                have hplen : m.hdr.plen = 0 := by
                  rw [← h.length_payloadBytes, hz, List.length_nil]
                rw [(h.payload_iff hw).2 hplen] at hp
                cases hp
              · exact .inl ⟨.payload, m.payloadBytes, hleft, hz, by simp [remaining]⟩

/-- The task is in `task_netwrite`. -/
def Pc.Sending (p : Pc) : Prop := ∃ k a part rest, p = .send k a part rest

/-- The task is about to write a payload of no bytes. -/
def Pc.WritesNothing (p : Pc) : Prop := ∃ k a, p = .send k a .payload []

instance (p : Pc) : Decidable p.WritesNothing :=
  match p with
  | .send _ _ .payload [] => isTrue ⟨_, _, rfl⟩
  | .send _ _ .payload (_ :: _) | .send _ _ .header _ | .idle | .lockWait _ _ | .unlock _ _ _
  | .asleep _ | .woken _ | .draining => isFalse fun ⟨_, _, e⟩ => nomatch e

/-- **What is on the wire**, while no task is about to write nothing. -/
structure Framing (rcfg : RecvCfg) (whole : Prop) (σ : State) : Prop where
  serves : σ.Serves
  log : ∃ ms : List Msg, (∀ m ∈ ms, m.Framed rcfg) ∧ σ.log = ms.map Msg.wire
  waiting : ∀ n k a, σ.pc n = .lockWait k a → ∃ m, σ.chan.msgs a = some m ∧ m.Carries rcfg whole
  sending : ∀ n k a part rest, σ.pc n = .send k a part rest →
    rest ≠ [] ∧ ∃ m ws p, σ.chan.msgs a = some m ∧ m.Carries rcfg whole ∧ σ.log = ws ++ [m.wire] ∧
      σ.sent = ws.flatten ++ p ∧ p ++ m.remaining part rest = m.wire
  quiet : (∀ n, ¬(σ.pc n).Sending) → σ.sent = σ.log.flatten

/-! ## What others leave of a sender -/

theorem pc_other (h : Base cfg ok σ) (hen : σ.chan.enabled = true → ok) (he : act.Allowed cfg σ)
    (hx : act.exec cfg σ = some σ') (ht : act.task ≠ some t) :
    σ'.pc t = σ.pc t ∨ ∃ a, σ.pc t = .asleep a ∧ σ'.pc t = .woken a := by
  by_cases hact : act.Receiving
  · exact (received h hen he hx hact).pc t
  · rcases (moves he hx hact).2 with ⟨e, -⟩ | ⟨n, p, hn, e, -⟩
    · exact .inl (by rw [e])
    · have htn : t ≠ n := fun e => ht (by rw [hn, e])
      exact .inl (by rw [e, Function.update_of_ne htn])

theorem msg_other (h : Base cfg ok σ) (hen : σ.chan.enabled = true → ok) (he : act.Allowed cfg σ)
    (hx : act.exec cfg σ = some σ') (ht : act.task ≠ some t)
    (hcall : (σ.pc t).call = some (k, a)) (hm : σ.chan.msgs a = some m) :
    ∃ m', σ'.chan.msgs a = some m' ∧ m'.hdr = m.hdr ∧ m'.body = m.body ∧ m'.payload = m.payload := by
  obtain ⟨m₀, hm₀, hu⟩ := h.uses.call t k a hcall
  obtain rfl := Option.some.inj (hm.symm.trans hm₀)
  rcases message_kept h hen he hx hm hu ht with hm' | ⟨-, -, b, hm'⟩
  · exact ⟨m, hm', rfl, rfl, rfl⟩
  · exact ⟨_, hm', rfl, rfl, rfl⟩

theorem Msg.wire_congr {m' : Msg} (hh : m'.hdr = m.hdr) (hb : m'.body = m.body)
    (hp : m'.payload = m.payload) :
    m'.wire = m.wire ∧ ∀ part rest, m'.remaining part rest = m.remaining part rest := by
  have hpay : m'.payloadBytes = m.payloadBytes := by rw [payloadBytes, payloadBytes, hh, hp]
  refine ⟨by rw [wire, wire, hdrBytes, hdrBytes, hh, hb, hpay], fun part rest => ?_⟩
  cases part with
  | header => rw [remaining, remaining, hpay]
  | payload => rfl

section

variable (h : Framing rcfg whole σ) (hB : Base cfg ok σ) (hen : σ.chan.enabled = true → ok)
  (he : act.Allowed cfg σ) (hx : act.exec cfg σ = some σ') (hs : σ'.Serves)
include h hB hen he hx

/-- The waiters that were there before. -/
theorem Framing.waiting_other (ht : act.task ≠ some t) (hpc : σ'.pc t = .lockWait k a) :
    ∃ m, σ'.chan.msgs a = some m ∧ m.Carries rcfg whole := by
  rcases pc_other hB hen he hx ht with e | ⟨b, -, e⟩
  · rw [e] at hpc
    obtain ⟨m, hm, hc⟩ := h.waiting t k a hpc
    obtain ⟨m', hm', hh, hb, hp⟩ := msg_other hB hen he hx ht (by rw [hpc]; rfl) hm
    exact ⟨m', hm', hc.congr (by rw [hh]) (by rw [hh]) hb hp⟩
  · rw [e] at hpc
    cases hpc

include hs

/-- **Steps that write nothing**: nobody starts or ends a message. -/
theorem Framing.frame (hlog : σ'.log = σ.log) (hsent : σ'.sent = σ.sent)
    (hold : ∀ t, act.task = some t → ¬(σ.pc t).Sending)
    (hnew : ∀ t, act.task = some t → ¬(σ'.pc t).Sending)
    (hwait : ∀ t k a, act.task = some t → σ'.pc t = .lockWait k a →
      ∃ m, σ'.chan.msgs a = some m ∧ m.Carries rcfg whole) : Framing rcfg whole σ' where
  serves := hs
  log := by rw [hlog]; exact h.log
  waiting t k a hpc := by
    by_cases ht : act.task = some t
    · exact hwait t k a ht hpc
    · exact h.waiting_other hB hen he hx ht hpc
  sending t k a part rest hpc := by
    have ht : act.task ≠ some t := fun ht => hnew t ht ⟨k, a, part, rest, hpc⟩
    rcases pc_other hB hen he hx ht with e | ⟨b, -, e⟩
    · rw [e] at hpc
      obtain ⟨hne, m, ws, p, hm, hc, hl, hsn, hrem⟩ := h.sending t k a part rest hpc
      obtain ⟨m', hm', hh, hb, hp⟩ := msg_other hB hen he hx ht (by rw [hpc]; rfl) hm
      obtain ⟨hwire, hrest⟩ := Msg.wire_congr hh hb hp
      exact ⟨hne, m', ws, p, hm', hc.congr (by rw [hh]) (by rw [hh]) hb hp,
        by rw [hlog, hl, hwire], by rw [hsent, hsn], by rw [hrest, hwire, hrem]⟩
    · rw [e] at hpc
      cases hpc
  quiet hq := by
    rw [hsent, hlog]
    refine h.quiet fun t ht => ?_
    by_cases hta : act.task = some t
    · exact hold t hta ht
    · obtain ⟨k, a, part, rest, hpc⟩ := ht
      rcases pc_other hB hen he hx hta with e | ⟨b, e, -⟩
      · exact hq t ⟨k, a, part, rest, by rw [e, hpc]⟩
      · rw [e] at hpc
        cases hpc

/-- **A message is begun** by the one who obtained the lock. -/
theorem Framing.start (hn : act.task = some n) (hq : ∀ t, ¬(σ.pc t).Sending)
    (hm : σ'.chan.msgs a = some m) (hc : m.Carries rcfg whole) (hsent : σ'.sent = σ.sent)
    (hlog : σ'.log = σ.log ++ [m.wire])
    (hpc : σ'.pc = Function.update σ.pc n (.send k a .header m.hdrBytes)) :
    Framing rcfg whole σ' where
  serves := hs
  log := by
    obtain ⟨ms, hf, hms⟩ := h.log
    refine ⟨ms ++ [m], fun x hx => ?_, by rw [hlog, hms, List.map_append]; rfl⟩
    rcases List.mem_append.1 hx with hx | hx
    · exact hf x hx
    · obtain rfl := List.mem_singleton.1 hx
      exact hc.toFramed
  waiting t k' a' ht := by
    have htn : t ≠ n := by
      rintro rfl
      rw [hpc, Function.update_self] at ht
      cases ht
    exact h.waiting_other hB hen he hx (fun e => htn (Option.some.inj (e.symm.trans hn))) ht
  sending t k' a' part rest ht := by
    by_cases htn : t = n
    · subst htn
      rw [hpc, Function.update_self] at ht
      obtain ⟨rfl, rfl, rfl, rfl⟩ := Pc.send.inj ht
      exact ⟨hc.hdrBytes_ne, m, σ.log, [], hm, hc, hlog, by rw [hsent, h.quiet hq, List.append_nil],
        rfl⟩
    · rw [hpc, Function.update_of_ne htn] at ht
      exact absurd ⟨k', a', part, rest, ht⟩ (hq t)
  quiet hq' := by
    refine absurd ⟨k, a, .header, m.hdrBytes, ?_⟩ (hq' n)
    rw [hpc, Function.update_self]

end

/-! ## The owner writes -/

/-- Only the owner of `fdlock` writes. -/
theorem State.Serves.sender (h : σ.Serves) (hn : (σ.pc n).Sending) :
    σ.chan.fdlock.owner = some n := by
  obtain ⟨k, a, part, rest, hpc⟩ := hn
  refine h.holds n ?_
  simp only [hpc]
  rfl

theorem State.Serves.sender_eq (h : σ.Serves) (hn : (σ.pc n).Sending) (ht : (σ.pc t).Sending) :
    t = n :=
  (Option.some.inj ((h.sender hn).symm.trans (h.sender ht))).symm

theorem Msg.remaining_take (m : Msg) (part : Part) (rest : List Byte) (j : ℕ) :
    rest.take j ++ m.remaining part (rest.drop j) = m.remaining part rest := by
  cases part with
  | header => simp only [remaining, ← List.append_assoc, List.take_append_drop]
  | payload => exact List.take_append_drop j rest

section

variable (h : Framing rcfg whole σ) (hB : Base cfg ok σ) (hen : σ.chan.enabled = true → ok)
  (hs : σ'.Serves)
include h hB hen hs

/-- **A write** adds a part of the owner's message, or its end. -/
theorem Framing.write {r : WriteResult} (he : (Action.write n r).Allowed cfg σ)
    (hx : (Action.write n r).exec cfg σ = some σ') (hen' : σ'.chan.enabled = true)
    (hz : whole ∨ ∀ t, ¬(σ'.pc t).WritesNothing) : Framing rcfg whole σ' := by
  have hother : ∀ {t k a}, t ≠ n → σ'.pc t = .lockWait k a →
      ∃ m, σ'.chan.msgs a = some m ∧ m.Carries rcfg whole := fun ht hpc =>
    h.waiting_other hB hen he hx (fun e => ht (Option.some.inj e).symm) hpc
  obtain ⟨k, a, part, rest, hpc, hcases⟩ := State.write_cases hx
  have hn : (σ.pc n).Sending := ⟨k, a, part, rest, hpc⟩
  obtain ⟨hne, m, ws, p, hm, hc, hlog, hsent, hrem⟩ := h.sending n k a part rest hpc
  rcases hcases with ⟨-, rfl⟩ | ⟨res, -, rfl⟩ | ⟨j, m₀, -, hm₀, hleft⟩
  · exact h
  · cases hen'
  obtain rfl := Option.some.inj (hm.symm.trans hm₀)
  have hbytes : p ++ rest.take j ++ m.remaining part (rest.drop j) = m.wire := by
    rw [List.append_assoc, m.remaining_take, hrem]
  rcases hleft with ⟨part', rest', hleft, rfl⟩ | ⟨hleft, hx'⟩
  · -- more to write
    obtain ⟨hne', hrem'⟩ : rest' ≠ [] ∧
        m.remaining part' rest' = m.remaining part (rest.drop j) := by
      rcases hc.left part (rest.drop j) with ⟨part₁, rest₁, e, hne₁, hrem₁⟩ | ⟨e, -⟩ | ⟨hw, e⟩
      · obtain ⟨rfl, rfl⟩ := Prod.mk.inj (Option.some.inj (hleft.symm.trans e))
        exact ⟨hne₁, hrem₁⟩
      · rw [hleft] at e
        cases e
      · obtain ⟨rfl, rfl⟩ := Prod.mk.inj (Option.some.inj (hleft.symm.trans e))
        exact absurd ⟨k, a, Function.update_self ..⟩ (hz.resolve_left hw n)
    refine ⟨hs, h.log, fun t k' a' ht => ?_, fun t k' a' part₁ rest₁ ht => ?_, fun hq => ?_⟩
    · by_cases htn : t = n
      · subst htn
        simp only [Function.update_self] at ht
        cases ht
      · exact hother htn ht
    · by_cases htn : t = n
      · subst htn
        simp only [Function.update_self] at ht
        obtain ⟨rfl, rfl, rfl, rfl⟩ := Pc.send.inj ht
        refine ⟨hne', m, ws, p ++ rest.take j, hm, hc, hlog, ?_, by rw [hrem', hbytes]⟩
        simp only [hsent, List.append_assoc]
      · simp only [Function.update_of_ne htn] at ht
        exact absurd (h.serves.sender_eq hn ⟨k', a', part₁, rest₁, ht⟩) htn
    · refine absurd ⟨k, a, part', rest', ?_⟩ (hq n)
      simp only [Function.update_self]
  · -- the message is complete
    have hdone : m.remaining part (rest.drop j) = [] := by
      rcases hc.left part (rest.drop j) with ⟨part₁, rest₁, e, -⟩ | ⟨-, e⟩ | ⟨-, e⟩
      · rw [hleft] at e
        cases e
      · exact e
      · rw [hleft] at e
        cases e
    rw [hdone, List.append_nil] at hbytes
    have hall : σ.sent ++ rest.take j = σ.log.flatten := by
      rw [hsent, hlog, List.append_assoc, hbytes, List.flatten_append]
      simp
    obtain ⟨pn, hpc', hpn, hlog', hsent'⟩ : ∃ pn, σ'.pc = Function.update σ.pc n pn ∧
        (pn = .asleep a ∨ pn = .idle) ∧ σ'.log = σ.log ∧ σ'.sent = σ.sent ++ rest.take j := by
      obtain ⟨l, -, ⟨-, m', -, rfl⟩ | ⟨-, c, -, rfl⟩⟩ := State.complete_cases hx'
      · exact ⟨.asleep a, rfl, .inl rfl, rfl, rfl⟩
      · exact ⟨.idle, rfl, .inr rfl, rfl, rfl⟩
    have hnone : ∀ t, ¬(σ'.pc t).Sending := by
      rintro t ⟨k', a', part₁, rest₁, ht⟩
      rw [hpc'] at ht
      by_cases htn : t = n
      · subst htn
        rw [Function.update_self] at ht
        rcases hpn with rfl | rfl <;> cases ht
      · rw [Function.update_of_ne htn] at ht
        exact htn (h.serves.sender_eq hn ⟨k', a', part₁, rest₁, ht⟩)
    refine ⟨hs, by rw [hlog']; exact h.log, fun t k' a' ht => ?_,
      fun t k' a' part₁ rest₁ ht => absurd ⟨k', a', part₁, rest₁, ht⟩ (hnone t),
      fun _ => by rw [hsent', hlog', hall]⟩
    by_cases htn : t = n
    · subst htn
      rw [hpc', Function.update_self] at ht
      rcases hpn with rfl | rfl <;> cases ht
    · exact hother htn ht

/-- **Who obtains the lock** in `RPC_CHAN_LOCK`, or queues up for it. -/
theorem Framing.lock {σ₁ : State} (he : act.Allowed cfg σ) (hx : act.exec cfg σ = some σ')
    (hn : act.task = some n) (hidle : σ.pc n = .idle) (hc : m.Carries rcfg whole)
    (hσ' : σ' = σ₁.lock n a k m) (hm : σ₁.chan.msgs a = some m)
    (hlock : σ₁.chan.fdlock = σ.chan.fdlock) (hpc₁ : σ₁.pc = σ.pc)
    (hsent₁ : σ₁.sent = σ.sent) (hlog₁ : σ₁.log = σ.log) :
    Framing rcfg whole σ' := by
  subst hσ'
  rcases State.lock_cases σ₁ n a k m with ⟨ho, e⟩ | ⟨-, e⟩
  · have hq : ∀ t, ¬(σ.pc t).Sending := fun t ht => by
      rw [hlock, h.serves.sender ht] at ho
      cases ho
    rw [e] at hx hs ⊢
    exact h.start hB hen he hx hs hn hq hm hc hsent₁ (by rw [← hlog₁]) (by rw [← hpc₁])
  · rw [e] at hx hs ⊢
    refine h.frame hB hen he hx hs hlog₁ hsent₁ (fun t ht => ?_) (fun t ht => ?_) fun t k' a' ht hpc => ?_
    all_goals obtain rfl := Option.some.inj (hn.symm.trans ht)
    · rintro ⟨_, _, _, _, hpc⟩
      rw [hidle] at hpc
      cases hpc
    · rintro ⟨_, _, _, _, hpc⟩
      simp only [Function.update_self] at hpc
      cases hpc
    · simp only [Function.update_self] at hpc
      obtain ⟨rfl, rfl⟩ := Pc.lockWait.inj hpc
      exact ⟨m, hm, hc⟩

end

/-! ## Every run -/

/-- What is sent is fit to be carried. -/
def SendsFit (rcfg : RecvCfg) (whole : Prop) (σ : State) (act : Action) : Prop :=
  ∀ n a m, act = .request n a ∨ act = .response n a → σ.chan.msgs a = some m → m.InBuffers →
    m.Carries rcfg whole

theorem SendsWhole.fit (h : SendsWhole rcfg σ act) : SendsFit rcfg True σ act :=
  fun n a m hact hm hb => (h n a m hact hm).carries hb

/-- **Every step** that leaves the channel enabled. -/
theorem Framing.step (h : Framing rcfg whole σ) (hB : Base cfg (σ.chan.enabled = true) σ)
    (hP : SendsFit rcfg whole σ act) (he : act.Allowed cfg σ) (hx : act.exec cfg σ = some σ')
    (hen' : σ'.chan.enabled = true) (hz : whole ∨ ∀ t, ¬(σ'.pc t).WritesNothing) :
    Framing rcfg whole σ' := by
  have hen : σ.chan.enabled = true := by
    rcases enabled_cases hB id he hx with e | e
    · rw [← e, hen']
    · rw [hen'] at e
      cases e
  have hs : σ'.Serves := h.serves.step hB id (fun _ _ _ => hen) he hx
  -- a step that sends nothing
  have hframe : σ'.log = σ.log → σ'.sent = σ.sent → (∀ t, act.task = some t →
      (¬(σ.pc t).Sending ∧ ¬(σ'.pc t).Sending) ∧ ∀ k a, σ'.pc t ≠ .lockWait k a) →
      Framing rcfg whole σ' := fun hlog hsent ht =>
    h.frame hB id he hx hs hlog hsent (fun t e => (ht t e).1.1) (fun t e => (ht t e).1.2)
      fun t k a e hpc => absurd hpc ((ht t e).2 k a)
  cases act with
  | msgGet alloc msgtype msglen payloadlen payload =>
      simp only [Action.exec, Option.bind_eq_bind, Option.bind_eq_some_iff] at hx
      obtain ⟨_, _, hx⟩ := hx
      obtain rfl := Option.some.inj hx
      exact hframe rfl rfl fun t ht => by cases ht
  | edit a msglen payloadlen status body payload =>
      simp only [Action.exec, Option.bind_eq_bind, Option.bind_eq_some_iff] at hx
      obtain ⟨_, _, hx⟩ := hx
      obtain rfl := Option.some.inj hx
      exact hframe rfl rfl fun t ht => by cases ht
  | msgPut a =>
      simp only [Action.exec, Option.bind_eq_bind, Option.bind_eq_some_iff] at hx
      obtain ⟨_, _, hx⟩ := hx
      obtain rfl := Option.some.inj hx
      exact hframe rfl rfl fun t ht => by cases ht
  | request n a =>
      have he' := he
      obtain ⟨hidle, m₀, hm₀, -, hb⟩ := he'
      obtain ⟨m, hm, -, ⟨hd, -⟩ | ⟨-, m', rfl, e⟩⟩ := State.request_cases hx
      · rw [hen] at hd
        cases hd
      · obtain rfl := Option.some.inj (hm.symm.trans hm₀)
        have hc : Msg.Carries rcfg whole { m with hdr := m.hdr.setReq, use := .request n } :=
          (hP n a m (.inl rfl) hm hb).congr rfl rfl rfl rfl
        exact h.lock hB id hs he hx rfl hidle hc e (Function.update_self ..) rfl rfl rfl rfl
  | response n a =>
      have he' := he
      obtain ⟨hidle, m₀, hm₀, -, -, hb⟩ := he'
      obtain ⟨m, hm, -, ⟨hd, -⟩ | ⟨-, m', rfl, e⟩⟩ := State.response_cases hx
      · rw [hen] at hd
        cases hd
      · obtain rfl := Option.some.inj (hm.symm.trans hm₀)
        have hc : Msg.Carries rcfg whole { m with hdr := m.hdr.setResp, use := .response n } :=
          (hP n a m (.inr rfl) hm hb).congr rfl rfl rfl rfl
        exact h.lock hB id hs he hx rfl hidle hc e (Function.update_self ..) rfl rfl rfl rfl
  | resume n =>
      obtain ⟨k, a, m, hpc, hm, ho, rfl⟩ := State.resume_cases hx
      obtain ⟨m₀, hm₀, hc⟩ := h.waiting n k a hpc
      obtain rfl := Option.some.inj (hm.symm.trans hm₀)
      refine h.start hB id he hx hs (n := n) rfl (fun t ht => ?_) hm hc rfl rfl rfl
      obtain rfl : n = t := Option.some.inj (ho.symm.trans (h.serves.sender ht))
      obtain ⟨_, _, _, _, e⟩ := ht
      rw [hpc] at e
      cases e
  | write n r => exact h.write hB id hs he hx hen' hz
  | unlock n =>
      obtain ⟨k, a, res, hpc⟩ := he
      rw [hB.failed n k a res hpc] at hen
      cases hen
  | wake n =>
      obtain ⟨a, m, hpc, -, -, rfl⟩ := State.wake_cases hx
      refine hframe rfl rfl fun t ht => ?_
      obtain rfl := Option.some.inj ht
      simp [Pc.Sending, hpc]
  | close =>
      obtain rfl := Option.some.inj hx
      cases hen'
  | deinit n =>
      obtain ⟨st, p, hp, rfl⟩ := deinit_cases hx he
      have hn : σ.pc n = .idle := he
      refine hframe rfl rfl fun t ht => ?_
      obtain rfl := Option.some.inj ht
      rcases hp with rfl | rfl <;> simp [Pc.Sending, hn]
  | drained n =>
      rw [drained_cases hx] at hframe ⊢
      refine hframe rfl rfl fun t ht => ?_
      obtain rfl := Option.some.inj ht
      simp [Pc.Sending, he.1]
  | arrive bs =>
      obtain rfl := Option.some.inj hx
      exact hframe rfl rfl fun t ht => by cases ht
  | _ =>
      have hr := received hB id he hx trivial
      exact hframe hr.log hr.sent fun t ht => by cases ht

/-- **The run lemma**: as long as the channel is enabled. -/
theorem framing_reachable (hr : ((channelSystem cfg).only (SendsWhole rcfg)).Reachable σ)
    (hen : σ.chan.enabled = true) : Framing rcfg True σ := by
  induction hr with
  | init hs =>
      obtain ⟨bufs, -, -, rfl⟩ := hs
      refine ⟨serves_initial bufs, ⟨[], by simp, rfl⟩, ?_, ?_, fun _ => rfl⟩
      · intro n k a h
        cases h
      · intro n k a part rest h
        cases h
  | @step σ σ' act hr he hx ih =>
      have hB := base_reachable hr.of_only
      refine (ih ?_).step hB he.2.fit he.1.2 hx hen (.inl trivial)
      rcases enabled_cases hB id he.1.2 hx with e | e
      · rw [← e, hen]
      · rw [hen] at e
        cases e

/-! ## The messages on the wire -/

/-- What has been written: the messages of `ws` whole, which are those whose
senders obtained `fdlock`, and `p` of one more, the owner's. -/
def Written (rcfg : RecvCfg) (σ : State) (ws : List Msg) (p : List Byte) : Prop :=
  (∀ m ∈ ws, m.Framed rcfg) ∧ σ.sent = frames ws ++ p ∧
    (σ.log = ws.map Msg.wire ∧ p = [] ∨
      ∃ n k a part rest m, σ.chan.fdlock.owner = some n ∧ σ.pc n = .send k a part rest ∧
        σ.chan.msgs a = some m ∧ m.Framed rcfg ∧ σ.log = ws.map Msg.wire ++ [m.wire] ∧
        ∃ ext, ext ≠ [] ∧ p ++ ext = m.wire)

theorem Framing.written (h : Framing rcfg whole σ) : ∃ ws p, Written rcfg σ ws p := by
  obtain ⟨ms, hf, hms⟩ := h.log
  by_cases hq : ∃ n, (σ.pc n).Sending
  · obtain ⟨n, k, a, part, rest, hpc⟩ := hq
    obtain ⟨hne, m, ws, p, hm, hc, hlog, hsent, hrem⟩ := h.sending n k a part rest hpc
    -- the messages before the owner's
    obtain ⟨ws', last, rfl, hws, -⟩ := List.map_eq_append_iff.1 (hms.symm.trans hlog)
    refine ⟨ws', p, fun x hx => hf x (List.mem_append_left _ hx), by rw [hsent, frames, hws], .inr
      ⟨n, k, a, part, rest, m, h.serves.sender ⟨k, a, part, rest, hpc⟩, hpc, hm, hc.toFramed,
        by rw [hlog, hws], m.remaining part rest, ?_, hrem⟩⟩
    intro e
    cases part with
    | header => exact hne (List.append_eq_nil_iff.1 e).1
    | payload => exact hne e
  · refine ⟨ms, [], hf, ?_, .inl ⟨hms, rfl⟩⟩
    rw [h.quiet fun n hn => hq ⟨n, hn⟩, hms, frames, List.append_nil]

theorem Written.partial_end {ws : List Msg} {p : List Byte} (h : Written rcfg σ ws p) :
    Partial rcfg p := by
  rcases h.2.2 with ⟨-, rfl⟩ | ⟨n, k, a, part, rest, m, -, -, -, hm, -, ext, hne, hext⟩
  · exact .inl rfl
  · exact .inr ⟨m, ext, hm, hne, hext⟩

/-- **Framing.** As long as the channel is enabled, what has been written is
a row of whole messages, in the order of the lock, and a beginning of its
owner's. A peer that runs `_rpc_receive` on it, whatever its reads take,
meets no fault, has got the first messages of the row with the bytes of the
others still there, and can go on until it has got them all. -/
theorem framing (hr : ((channelSystem cfg).only (SendsWhole rcfg)).Reachable σ)
    (hen : σ.chan.enabled = true) :
    ∃ ws p, Written rcfg σ ws p ∧ ∀ τ, (readerSystem rcfg σ.sent).Reachable τ →
      (∀ act, (readerSystem rcfg σ.sent).enabled τ act →
        ∃ τ', (readerSystem rcfg σ.sent).exec τ act = some τ') ∧
      (∃ ws₁ ws₂, ws = ws₁ ++ ws₂ ∧ τ.got = ws₁.map Msg.received ∧
        τ.call.recv.taken ++ τ.call.rest = frames ws₂ ++ p) ∧
      ∃ as τ', (readerSystem rcfg σ.sent).Steps τ as τ' ∧ τ'.got = ws.map Msg.received := by
  obtain ⟨ws, p, hw⟩ := (framing_reachable hr hen).written
  have hp := hw.partial_end
  obtain ⟨hf, hsent, -⟩ := id hw
  refine ⟨ws, p, hw, fun τ hτ => ?_⟩
  rw [hsent] at hτ ⊢
  obtain ⟨ws₁, ws₂, rfl, hgot, hok, hpc⟩ := reader_prefix hf hp hτ
  exact ⟨fun act he => reader_no_fault hf hp hτ he, ⟨ws₁, ws₂, rfl, hgot, hok.split⟩,
    reader_gets_all _ ws₁ ws₂ (fun m hm => hf m (List.mem_append_right _ hm)) hgot hok hpc⟩

/-- A request and, of the next one, the first five bytes. -/
def oneAndAHalf : List Action :=
  [.msgGet 9 3 12 2 (some [7, 8]), .msgGet 9 4 12 0 none, .request 0 0, .request 1 1,
    .write 0 (.sent 5), .write 0 .again, .write 0 (.sent 7), .write 0 (.sent 2), .resume 1,
    .write 1 (.sent 5)]

theorem framing_one_and_a_half : ∃ σ,
    ((channelSystem smallCfg).only (SendsWhole smallCfg.toRecvCfg)).Reachable σ ∧ σ.chan.enabled = true ∧
    σ.sent.length = 19 ∧
    ∃ ws p, Written smallCfg.toRecvCfg σ ws p ∧
      ∀ τ, (readerSystem smallCfg.toRecvCfg σ.sent).Reachable τ →
        (∀ act, (readerSystem smallCfg.toRecvCfg σ.sent).enabled τ act →
          ∃ τ', (readerSystem smallCfg.toRecvCfg σ.sent).exec τ act = some τ') ∧
        (∃ ws₁ ws₂, ws = ws₁ ++ ws₂ ∧ τ.got = ws₁.map Msg.received ∧
          τ.call.recv.taken ++ τ.call.rest = frames ws₂ ++ p) ∧
        ∃ as τ', (readerSystem smallCfg.toRecvCfg σ.sent).Steps τ as τ' ∧
          τ'.got = ws.map Msg.received := by
  have hrun : ((((channelSystem smallCfg).only (SendsWhole smallCfg.toRecvCfg)).run smallChannel
      oneAndAHalf).any fun σ => decide (σ.chan.enabled = true ∧ σ.sent.length = 19)) = true := by
    decide +kernel
  obtain ⟨σ, hsteps, h⟩ := System.Steps.of_run_any hrun
  obtain ⟨hen, hlen⟩ := of_decide_eq_true h
  have hr := hsteps.reachable (.init smallChannel_init)
  exact ⟨σ, hr, hen, hlen, framing hr hen⟩

end Rpc

end VmwareProto
