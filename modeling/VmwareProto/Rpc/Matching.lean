import VmwareProto.Rpc.Numbered
/-!
# Requests and responses

A request is in the table before it is written, and its task goes to sleep
in the step that writes its last byte. So a peer that answers what it has
completely received, once, answers sleeping tasks: each response finds its
request, and the wakeup finds its task.
-/

namespace VmwareProto

namespace Rpc

open Libtask

variable {cfg : Cfg} {σ σ' : State} {a b : Addr} {m m' : Msg} {n t : TaskId} {act : Action}
  {s : BitVec 32} {w rest : List Byte} {ws : List (List Byte)}

/-! ## The rules of a run -/

/-- Buffers for any message the header can describe. -/
def wide : RecvCfg := ⟨65535, 65535, by decide⟩

/-- What a step keeps to. A `write` of no bytes does not wait, and nothing
comes between it and the end of the header; the peer answers the requests it
has completely received, each at most once; and there are fewer than 2^32
messages. -/
structure Orderly (σ : State) (act : Action) : Prop where
  prompt : ∀ n, σ.chan.fdlock.owner = some n → (σ.pc n).WritesNothing →
    ∃ r, act = .write n r ∧ r ≠ .again
  answers : ∀ bs, act = .arrive bs → ∀ w ∈ wholes (σ.arrived ++ [bs]).flatten,
    (MsgHdr.decode w).isReq = false →
      (wholes (σ.arrived ++ [bs]).flatten).countP (isResponse (MsgHdr.decode w).seqid) ≤
        (wholes σ.sent).countP (isRequest (MsgHdr.decode w).seqid)
  numbers : act.gets = 1 → σ.gets + 1 < 2 ^ 32

instance (n : TaskId) (act : Action) : Decidable (∃ r, act = .write n r ∧ r ≠ .again) :=
  match act with
  | .write t r =>
      decidable_of_iff (t = n ∧ r ≠ .again)
        ⟨fun ⟨ht, hr⟩ => ⟨r, by rw [ht], hr⟩, fun ⟨_, e, hr⟩ => by
          obtain ⟨rfl, rfl⟩ := Action.write.inj e
          exact ⟨rfl, hr⟩⟩
  | .msgGet _ _ _ _ _ | .edit _ _ _ _ _ _ | .msgPut _ | .request _ _ | .response _ _ | .resume _
  | .unlock _ | .wake _ | .close | .deinit _ | .drained _ | .recvStart _ | .recvTake _
  | .recvOther _ | .recvData | .arrive _ => isFalse fun ⟨_, e, _⟩ => nomatch e

/-- What arrives are answers. -/
def Arrives (σ : State) : Action → Prop
  | .arrive bs => ∀ w ∈ wholes (σ.arrived ++ [bs]).flatten, (MsgHdr.decode w).isReq = false →
      (wholes (σ.arrived ++ [bs]).flatten).countP (isResponse (MsgHdr.decode w).seqid) ≤
        (wholes σ.sent).countP (isRequest (MsgHdr.decode w).seqid)
  | _ => True

instance (σ : State) : (act : Action) → Decidable (Arrives σ act)
  | .arrive bs => inferInstanceAs (Decidable (∀ w ∈ wholes (σ.arrived ++ [bs]).flatten, _ → _))
  | .msgGet _ _ _ _ _ | .edit _ _ _ _ _ _ | .msgPut _ | .request _ _ | .response _ _ | .resume _
  | .write _ _ | .unlock _ | .wake _ | .close | .deinit _ | .drained _ | .recvStart _
  | .recvTake _ | .recvOther _ | .recvData => .isTrue trivial

instance (σ : State) (act : Action) : Decidable (Orderly σ act) :=
  decidable_of_iff ((∀ n ∈ σ.chan.fdlock.owner, (σ.pc n).WritesNothing →
      ∃ r, act = .write n r ∧ r ≠ .again) ∧ Arrives σ act ∧ (act.gets = 1 → σ.gets + 1 < 2 ^ 32))
    ⟨fun h => ⟨h.1, fun bs e => (by subst e; exact h.2.1), h.2.2⟩,
      fun h => ⟨h.prompt, by cases act <;> first | trivial | exact h.answers _ rfl, h.numbers⟩⟩

/-- What the API lets pass is fit to be carried. -/
theorem sendsFit (hx : act.exec cfg σ = some σ') : SendsFit wide False σ act := by
  intro n a m hact hm hb
  have hlt := m.hdr.msglen.isLt
  have hplt := m.hdr.payloadlen.isLt
  have has : m.Asserts := by
    rcases hact with rfl | rfl
    · obtain ⟨m', hm', has, -⟩ := State.request_cases hx
      obtain rfl := Option.some.inj (hm.symm.trans hm')
      exact has
    · obtain ⟨m', hm', has, -⟩ := State.response_cases hx
      obtain rfl := Option.some.inj (hm.symm.trans hm')
      exact has
  refine ⟨⟨has.1, ?_, ?_, hb⟩, False.elim⟩
  · simp only [MsgHdr.len, wide]
    omega
  · simp only [MsgHdr.plen, RecvCfg.dataBuf, wide]
    omega

theorem Msg.Framed.isMessage {rcfg : RecvCfg} (h : m.Framed rcfg) : IsMessage m.wire := by
  have hdec := h.decode_wire []
  rw [List.append_nil] at hdec
  exact ⟨by rw [hdec]; exact h.len_ge, by rw [hdec]; exact h.length_wire⟩

theorem isResponse_iff : isResponse s w = true ↔
    (MsgHdr.decode w).isReq = false ∧ (MsgHdr.decode w).seqid = s := by
  simp [isResponse]

/-! ## What the peer can have received -/

section

variable {rcfg : RecvCfg} {whole : Prop} (h : Framing rcfg whole σ)
include h

theorem Framing.isMessage_log (hw : w ∈ σ.log) : IsMessage w := by
  obtain ⟨ms, hf, hms⟩ := h.log
  rw [hms] at hw
  obtain ⟨m, hm, rfl⟩ := List.mem_map.1 hw
  exact (hf m hm).isMessage

theorem Framing.wholes_quiet (hq : ∀ n, ¬(σ.pc n).Sending) : wholes σ.sent = σ.log := by
  have hw := wholes_flatten (fun w hw => h.isMessage_log hw) []
  rw [List.append_nil] at hw
  rw [h.quiet hq, hw]
  exact List.append_nil _

/-- All but the message that is being written. -/
theorem Framing.wholes_sending {k : Kind} {part : Part} {rest : List Byte}
    (hpc : σ.pc n = .send k a part rest) : ∃ m, σ.chan.msgs a = some m ∧ m.Framed rcfg ∧
      σ.log = wholes σ.sent ++ [m.wire] := by
  obtain ⟨hne, m, ws, p, hm, hc, hlog, hsent, hrem⟩ := h.sending n k a part rest hpc
  have hws : ∀ w ∈ ws, IsMessage w := fun w hw => h.isMessage_log (by rw [hlog]; simp [hw])
  have hext : m.remaining part rest ≠ [] := by
    cases part with
    | header => exact fun e => hne (List.append_eq_nil_iff.1 e).1
    | payload => exact hne
  have hp : wholes p = [] := wholes_partial (by rw [hrem]; exact hc.toFramed.isMessage) hext
  refine ⟨m, hm, hc.toFramed, ?_⟩
  rw [hsent, wholes_flatten hws, hp, List.append_nil, hlog]

theorem Framing.wholes_prefix : wholes σ.sent <+: σ.log := by
  by_cases hq : ∃ n, (σ.pc n).Sending
  · obtain ⟨n, k, a, part, rest, hpc⟩ := hq
    obtain ⟨m, -, -, hlog⟩ := h.wholes_sending hpc
    exact ⟨[m.wire], hlog.symm⟩
  · have hw := h.wholes_quiet fun n hn => hq ⟨n, hn⟩
    exact ⟨[], by rw [List.append_nil, hw]⟩

/-- **A message becomes complete** in the step in which its task leaves the
wire; if it is a request, its task is asleep with it. -/
theorem Framing.wholes_step (h' : Framing rcfg whole σ') (hB : Base cfg (σ.chan.enabled = true) σ)
    (he : act.Allowed cfg σ) (hx : act.exec cfg σ = some σ') :
    wholes σ'.sent = wholes σ.sent ∨ ∃ n, ∃ k : Kind, ∃ a m, σ.chan.msgs a = some m ∧ m.use = k.use n ∧
      m.Framed rcfg ∧ wholes σ'.sent = wholes σ.sent ++ [m.wire] ∧
      (k = .request → σ'.pc n = .asleep a ∧
        σ'.chan.msgs a = some { m with rendez := m.rendez ++ [n] }) := by
  by_cases hsent : σ'.sent = σ.sent
  · exact .inl (by rw [hsent])
  obtain ⟨n, j, rfl⟩ : ∃ n j, act = .write n (.sent j) := by
    by_cases hact : act.Receiving
    · exact absurd (received hB id he hx hact).sent hsent
    · exact (fields hB he hx hact).sent.resolve_left hsent
  have hx' : σ.write cfg n (.sent j) = some σ' := hx
  obtain ⟨k, a, part, rest, hpc, ⟨hr, -⟩ | ⟨res, ⟨hr, -⟩ | hr, -⟩ |
    ⟨j', m₀, -, -, ⟨part', rest', -, rfl⟩ | ⟨-, hx⟩⟩⟩ := State.write_cases hx'
  · cases hr
  · cases hr
  · cases hr
  · obtain ⟨m, hm, -, hlog⟩ := h.wholes_sending hpc
    obtain ⟨m', hm', -, hlog'⟩ := h'.wholes_sending (n := n) (Function.update_self ..)
    obtain rfl := Option.some.inj (hm.symm.trans hm')
    exact .inl (List.append_cancel_right (hlog'.symm.trans hlog))
  · obtain ⟨m, hm, hf, hlog⟩ := h.wholes_sending hpc
    obtain ⟨q, hq, hqu⟩ := hB.uses.call n k a (by rw [hpc]; rfl)
    obtain rfl := Option.some.inj (hm.symm.trans hq)
    have hn : (σ.pc n).Sending := ⟨k, a, part, rest, hpc⟩
    have hquiet : ∀ {p : Pc}, ¬p.Sending → σ'.pc = Function.update σ.pc n p →
        ∀ t, ¬(σ'.pc t).Sending := fun {p} hp e t ht => by
      rw [e] at ht
      by_cases htn : t = n
      · subst htn
        rw [Function.update_self] at ht
        exact hp ht
      · rw [Function.update_of_ne htn] at ht
        exact htn (h.serves.sender_eq hn ht)
    have hnil : ∀ {p : Pc}, p.phase = .out → ¬p.Sending := by
      rintro p hp ⟨_, _, _, _, rfl⟩
      cases hp
    obtain ⟨l, -, ⟨rfl, m', hm', rfl⟩ | ⟨rfl, c, -, rfl⟩⟩ := State.complete_cases hx
    · obtain rfl := Option.some.inj (hm.symm.trans hm')
      have hw := h'.wholes_quiet (hquiet (hnil rfl) rfl)
      exact .inr ⟨n, .request, a, m, hm, hqu, hf, hw.trans hlog,
        fun _ => ⟨Function.update_self .., Function.update_self ..⟩⟩
    · have hw := h'.wholes_quiet (hquiet (hnil rfl) rfl)
      exact .inr ⟨n, .response, a, m, hm, hqu, hf, hw.trans hlog, fun e => by cases e⟩

end

/-! ## The invariant -/

/-- **Who waits for what.** The messages `ws` have been received; every
request that the peer can have received has been answered, or its task is
asleep; and a request has its response only once its task was woken. -/
structure Matched (σ : State) (ws : List (List Byte)) : Prop where
  framing : Framing wide False σ
  numbered : Numbered σ
  messages : ∀ w ∈ ws, IsMessage w
  stream : ws.flatten ++ (σ.recv.taken ++ σ.inq) = σ.arrived.flatten
  budget : ∀ s, (wholes σ.arrived.flatten).countP (isResponse s) ≤
    (wholes σ.sent).countP (isRequest s)
  waits : ∀ s, (∃ w ∈ wholes σ.sent, isRequest s w = true) → (∃ w ∈ ws, isResponse s w = true) ∨
    ∃ n a m, σ.pc n = .asleep a ∧ σ.chan.msgs a = some m ∧ m.hdr.seqid = s
  early : ∀ n a m, σ.chan.msgs a = some m → m.use = .request n → m.resp ≠ none → σ.pc n = .woken a

/-- A sleeping task's message. -/
theorem Uses.asleep (h : Uses σ) (hpc : σ.pc n = .asleep a) (hm : σ.chan.msgs a = some m) :
    m.use = .request n := by
  obtain ⟨q, hq, hu⟩ := h.call n .request a (by rw [hpc]; rfl)
  obtain rfl := Option.some.inj (hm.symm.trans hq)
  exact hu

/-- **A response that has arrived** is the first to its request, and the
request's task is asleep. -/
theorem Matched.awaited (h : Matched σ ws) (hB : Base cfg (σ.chan.enabled = true) σ)
    (hw : IsMessage w) (hst : σ.recv.taken ++ σ.inq = w ++ rest)
    (hresp : (MsgHdr.decode w).isReq = false) :
    (∀ v ∈ ws, isResponse (MsgHdr.decode w).seqid v = false) ∧
      ∃ n a m, σ.pc n = .asleep a ∧ σ.chan.msgs a = some m ∧ m.use = .request n ∧ m.resp = none ∧
        m.hdr.seqid = (MsgHdr.decode w).seqid := by
  obtain ⟨s, hs⟩ : ∃ s, s = (MsgHdr.decode w).seqid := ⟨_, rfl⟩
  have hwholes : wholes σ.arrived.flatten = ws ++ w :: wholes rest := by
    rw [← h.stream, hst, wholes_flatten h.messages, wholes_append hw]
  have hcount := h.budget s
  have hone := (h.framing.wholes_prefix.sublist.countP_le (p := isRequest s)).trans
    (h.numbered.once s)
  have hself : isResponse s w = true := isResponse_iff.2 ⟨hresp, hs.symm⟩
  rw [hwholes, List.countP_append, List.countP_cons_of_pos hself] at hcount
  rw [← hs]
  constructor
  · intro v hv
    by_contra hres
    have hpos := List.countP_pos_iff.2 ⟨v, hv, by simpa using hres⟩
    omega
  · have hreq : ∃ v ∈ wholes σ.sent, isRequest s v = true := List.countP_pos_iff.1 (by omega)
    rcases h.waits s hreq with ⟨v, hv, hres⟩ | ⟨n, a, m, hpc, hm, hid⟩
    · have hpos := List.countP_pos_iff.2 ⟨v, hv, hres⟩
      omega
    · have hu := hB.uses.asleep hpc hm
      refine ⟨n, a, m, hpc, hm, hu, ?_, hid⟩
      by_contra hne
      rw [h.early n a m hm hu hne] at hpc
      cases hpc

/-! ## The steps -/

/-- Sleeping tasks take no steps. -/
theorem not_task_asleep (he : act.Allowed cfg σ) (hpc : σ.pc n = .asleep a) :
    act.task ≠ some n := by
  intro ht
  cases act <;> cases ht <;> simp [Action.Allowed, hpc] at he

/-- A woken task's step ends its call. -/
theorem woken_step (he : act.Allowed cfg σ)
    (hx : act.exec cfg σ = some σ') (hpc : σ.pc n = .woken a)
    (hm : σ'.chan.msgs a = some m) (hu : m.use = .request n) : act.task ≠ some n := by
  intro ht
  cases act with
  | wake t =>
      obtain rfl := Option.some.inj ht
      obtain ⟨b, q, hpc', -, -, rfl⟩ := State.wake_cases hx
      obtain rfl := Pc.woken.inj (hpc.symm.trans hpc')
      simp only [setMsg_msgs, Function.update_self] at hm
      rw [← Option.some.inj hm] at hu
      cases hu
  | _ => cases ht <;> simp [Action.Allowed, hpc] at he

section

variable (h : Matched σ ws) (hB : Base cfg (σ.chan.enabled = true) σ)
  (he : act.Allowed cfg σ) (hx : act.exec cfg σ = some σ') (hF' : Framing wide False σ')
  (hN' : Numbered σ')
include h hB he hx hF' hN'

/-- A step of the receiver. -/
theorem Matched.receiving (hB' : Base cfg (σ'.chan.enabled = true) σ') (hR : σ.Receives cfg)
    (hen' : σ'.chan.enabled = true) (hact : act.Receiving) : ∃ ws', Matched σ' ws' := by
  have hr := received hB id he hx hact
  obtain ⟨b, ho⟩ := outcome hB hR he hx hact
  have hbudget : ∀ s, (wholes σ'.arrived.flatten).countP (isResponse s) ≤
      (wholes σ'.sent).countP (isRequest s) := by
    rw [hr.arrived, hr.sent]
    exact h.budget
  -- the receiver's buffer is no request
  have hkeep : σ'.pc = σ.pc → (∀ m, σ'.chan.msgs b = some m → ∀ n, m.use ≠ .request n) →
      (∀ y, y ≠ b → σ'.chan.msgs y = σ.chan.msgs y) → ∀ ws' : List (List Byte), (∀ w ∈ ws, w ∈ ws') →
      (∀ s, (∃ w ∈ wholes σ'.sent, isRequest s w = true) → (∃ w ∈ ws', isResponse s w = true) ∨
        ∃ n a m, σ'.pc n = .asleep a ∧ σ'.chan.msgs a = some m ∧ m.hdr.seqid = s) ∧
      ∀ n a m, σ'.chan.msgs a = some m → m.use = .request n → m.resp ≠ none → σ'.pc n = .woken a := by
    intro hpc hbuf hothers ws' hws
    constructor
    · intro s hs
      rw [hr.sent] at hs
      rcases h.waits s hs with ⟨w, hw, hresp⟩ | ⟨n, a, m, ha, hm, hid⟩
      · exact .inl ⟨w, hws w hw, hresp⟩
      · have hab : a ≠ b := by
          rintro rfl
          obtain ⟨q, hq, hqu⟩ := hB'.uses.call n .request a (by rw [hpc, ha]; rfl)
          exact hbuf q hq n hqu
        exact .inr ⟨n, a, m, by rw [hpc, ha], by rw [hothers a hab, hm], hid⟩
    · intro n a m hm hu hres
      have hab : a ≠ b := by
        rintro rfl
        exact hbuf m hm n hu
      rw [hpc]
      exact h.early n a m (by rw [← hothers a hab, hm]) hu hres
  cases ho with
  | left _ _ hd =>
      rw [hd] at hen'
      cases hen'
  | goesOn r hrecv hst hpc hbuf hothers =>
      obtain ⟨q, hq, hqu⟩ := hbuf
      obtain ⟨hwaits, hearly⟩ := hkeep hpc (fun m hm n e => by
        obtain rfl := Option.some.inj (hm.symm.trans hq)
        rw [hqu] at e
        cases e) hothers ws fun _ hw => hw
      refine ⟨ws, hF', hN', h.messages, ?_, hbudget, hwaits, hearly⟩
      rw [hr.arrived, ← h.stream, ← hst, hrecv]
      rfl
  | request w hw hst hreq hrecv hpc hbuf hothers =>
      obtain ⟨hwaits, hearly⟩ := hkeep hpc (fun m hm n e => by
        obtain rfl := Option.some.inj (hm.symm.trans hbuf)
        cases e) hothers (ws ++ [w]) fun v hv => List.mem_append_left _ hv
      refine ⟨ws ++ [w], hF', hN', fun v hv => ?_, ?_, hbudget, hwaits, hearly⟩
      · rcases List.mem_append.1 hv with hv | hv
        · exact h.messages v hv
        · rw [List.mem_singleton.1 hv]
          exact hw.message
      · rw [hr.arrived, ← h.stream, hst, hrecv]
        simp [RecvTask.taken]
  | response w a p n _ hw hst hresp hrecv hab hp hpu hpr hid hpc ha hbuf hothers =>
      obtain ⟨-, t, y, q, hq, hy, hqu, hqr, hqid⟩ := h.awaited hB hw.message hst hresp
      -- the request that is found is the one whose task sleeps
      obtain rfl : y = a := h.numbered.distinct y a q p hy hp (.inr ⟨t, hqu⟩) (.inr ⟨n, hpu⟩)
        (hqid.trans hid.symm)
      obtain rfl := Option.some.inj (hy.symm.trans hp)
      obtain rfl := Use.request.inj (hqu.symm.trans hpu)
      rw [if_pos hq] at hpc
      have hother : ∀ {t' : TaskId}, t' ≠ t → σ'.pc t' = σ.pc t' := fun ht => by
        rw [hpc, Function.update_of_ne ht]
      refine ⟨ws ++ [w], hF', hN', fun v hv => ?_, ?_, hbudget, fun s hs => ?_,
        fun t' y' m hm hu hres => ?_⟩
      · rcases List.mem_append.1 hv with hv | hv
        · exact h.messages v hv
        · rw [List.mem_singleton.1 hv]
          exact hw.message
      · rw [hr.arrived, ← h.stream, hst, hrecv]
        simp [RecvTask.taken]
      · rw [hr.sent] at hs
        by_cases hsw : (MsgHdr.decode w).seqid = s
        · exact .inl ⟨w, by simp, isResponse_iff.2 ⟨hresp, hsw⟩⟩
        · rcases h.waits s hs with ⟨v, hv, hv'⟩ | ⟨t', y', m, ht', hm, hid'⟩
          · exact .inl ⟨v, List.mem_append_left _ hv, hv'⟩
          · have hyy : y' ≠ y := by
              rintro rfl
              obtain rfl := Option.some.inj (hm.symm.trans hy)
              exact hsw (hid.symm.trans hid')
            have htt : t' ≠ t := by
              rintro rfl
              exact hyy (Pc.asleep.inj (ht'.symm.trans hq))
            have hpc' : σ'.pc t' = .asleep y' := by rw [hother htt, ht']
            have hyb : y' ≠ b := by
              rintro rfl
              cases hB'.uses.asleep hpc' hbuf
            exact .inr ⟨t', y', m, hpc', by rw [hothers y' hyy hyb, hm], hid'⟩
      · by_cases hyy : y' = y
        · subst hyy
          obtain rfl := Option.some.inj (hm.symm.trans ha)
          obtain rfl := Use.request.inj (hqu.symm.trans hu)
          rw [hpc, Function.update_self]
        · have hyb : y' ≠ b := by
            rintro rfl
            obtain rfl := Option.some.inj (hm.symm.trans hbuf)
            cases hu
          rw [hothers y' hyy hyb] at hm
          have hw' := h.early t' y' m hm hu hres
          have htt : t' ≠ t := by
            rintro rfl
            rw [hq] at hw'
            cases hw'
          rw [hother htt, hw']

/-- Any other step. -/
theorem Matched.sending (hO : Orderly σ act) (hact : ¬act.Receiving) : Matched σ' ws := by
  have hf := fields hB he hx hact
  have hrecv := (moves he hx hact).1
  have hwholes := h.framing.wholes_step hF' hB he hx
  have hmono : ∀ s, (wholes σ.sent).countP (isRequest s) ≤ (wholes σ'.sent).countP (isRequest s) := by
    intro s
    rcases hwholes with e | ⟨n, k, a, m, -, -, -, e, -⟩
    · rw [e]
    · rw [e, List.countP_append]
      exact Nat.le_add_right _ _
  refine ⟨hF', hN', h.messages, ?_, fun s => ?_, fun s hs => ?_, fun n a m' hm' hu hres => ?_⟩
  · rw [hrecv, hf.inq, hf.arrived, List.flatten_append, ← h.stream]
    simp only [List.append_assoc]
  · by_cases harr : act.arrives = []
    · rw [hf.arrived, harr, List.append_nil]
      exact (h.budget s).trans (hmono s)
    · obtain ⟨bs, rfl⟩ : ∃ bs, act = .arrive bs := by
        cases act <;> first | exact ⟨_, rfl⟩ | exact absurd rfl harr
      have harr' : σ'.arrived = σ.arrived ++ [bs] := hf.arrived
      by_cases hw : ∃ w ∈ wholes σ'.arrived.flatten, isResponse s w = true
      · obtain ⟨w, hw, hresp⟩ := hw
        obtain ⟨hreq, rfl⟩ := isResponse_iff.1 hresp
        rw [harr'] at hw ⊢
        exact (hO.answers bs rfl w hw hreq).trans (hmono _)
      · rw [List.countP_eq_zero.2 fun w hw' hresp => hw ⟨w, hw', hresp⟩]
        exact Nat.zero_le _
  · -- who slept sleeps on, and a completed request's task sleeps
    have hold : (∃ w ∈ wholes σ.sent, isRequest s w = true) → (∃ w ∈ ws, isResponse s w = true) ∨
        ∃ n a m, σ'.pc n = .asleep a ∧ σ'.chan.msgs a = some m ∧ m.hdr.seqid = s := fun hs => by
      refine (h.waits s hs).imp_right ?_
      rintro ⟨n, a, m, hpc, hm, hid⟩
      rcases request_kept hB id he hx hm (hB.uses.asleep hpc hm) (not_task_asleep he hpc) with
        hm' | ⟨hact', -⟩
      · exact ⟨n, a, m, asleep_of_moves he hx hact hpc, hm', hid⟩
      · exact absurd hact' hact
    rcases hwholes with e | ⟨n, k, a, m, hm, hmu, hfr, e, hreq⟩
    · rw [e] at hs
      exact hold hs
    · obtain ⟨w, hw, hr⟩ := hs
      rw [e, List.mem_append, List.mem_singleton] at hw
      rcases hw with hw | rfl
      · exact hold ⟨w, hw, hr⟩
      · have hdec := hfr.decode_wire []
        rw [List.append_nil] at hdec
        obtain ⟨hisReq, rfl⟩ := isRequest_iff.1 hr
        rw [hdec] at hisReq ⊢
        cases k with
        | request => exact .inr ⟨n, a, _, (hreq rfl).1, (hreq rfl).2, rfl⟩
        | response =>
            rw [(h.numbered.kinded a m hm).response n hmu] at hisReq
            cases hisReq
  · have hkept : σ.chan.msgs a = some m' → σ'.pc n = .woken a := fun hm => by
      have hpc := h.early n a m' hm hu hres
      rcases pc_other hB id he hx (woken_step he hx hpc hm' hu) with e | ⟨b, e, -⟩
      · rw [e, hpc]
      · rw [hpc] at e
        cases e
    rcases became hB he hx hact hm' with ⟨m, hm, hb⟩ | ⟨-, -, hnew, -⟩
    · cases hb with
      | same => exact hkept hm
      | edited _ _ _ _ _ _ hfree => rcases hfree with e | e <;> rw [e] at hu <;> cases hu
      | refused _ _ _ _ => cases hu
      | requested _ _ _ has _ => exact absurd has.2.2 hres
      | responded _ _ _ _ _ => cases hu
      | slept t j hact hmu =>
          subst hact
          obtain ⟨k, y, part, rest, hpc, -⟩ := he
          rw [h.early t a m hm hmu hres] at hpc
          cases hpc
      | returned _ _ _ _ _ _ => cases hu
    · rw [hnew] at hu
      cases hu

end

/-! ## Every run -/

/-- A task that is about to write nothing holds `fdlock`, so the next step
is its write. -/
theorem Orderly.prompt_of_enabled (h : Orderly σ act) (hr : (channelSystem cfg).Reachable σ)
    (hen : σ.chan.enabled = true) (hn : (σ.pc n).WritesNothing) :
    ∃ r, act = .write n r ∧ r ≠ .again := by
  have hs : σ.Serves := serves_reachable (onTime_of_enabled hr hen)
  obtain ⟨k, a, hpc⟩ := id hn
  exact h.prompt n (hs.sender ⟨k, a, _, _, hpc⟩) hn

/-- It fails, and closes the channel. -/
theorem closes_of_writesNothing {r : WriteResult} (hn : (σ.pc n).WritesNothing) (hr : r ≠ .again)
    (he : (Action.write n r).Allowed cfg σ) (hx : (Action.write n r).exec cfg σ = some σ') :
    σ'.chan.enabled = false := by
  obtain ⟨k, a, hpc⟩ := hn
  obtain ⟨k', a', part, rest, hpc', hres⟩ := he
  rw [hpc] at hpc'
  obtain ⟨rfl, rfl, rfl, rfl⟩ := Pc.send.inj hpc'
  obtain ⟨_, _, _, _, hpc', ⟨e, -⟩ | ⟨res, -, rfl⟩ | ⟨j, _, rfl, -⟩⟩ := State.write_cases hx
  · exact absurd e hr
  · rfl
  · obtain ⟨-, hpos, hle⟩ := hres
    exact absurd hle (Nat.not_le.2 hpos)

/-- **The run lemma**: as long as the channel is enabled, and no task is
about to write nothing. -/
theorem matched_reachable (hr : ((channelSystem cfg).only Orderly).Reachable σ)
    (hen : σ.chan.enabled = true) (hz : ∀ t, ¬(σ.pc t).WritesNothing) : ∃ ws, Matched σ ws := by
  induction hr with
  | init hs =>
      obtain ⟨bufs, -, -, rfl⟩ := hs
      refine ⟨[], ⟨serves_initial bufs, ⟨[], by simp, rfl⟩, ?_, ?_, fun _ => rfl⟩,
        ⟨rfl, ?_, ?_, ?_, by simp [State.initial], by simp [State.initial], ?_⟩, by simp, rfl,
        fun s => le_rfl, ?_, ?_⟩
      · intro n k a h
        cases h
      · intro n k a part rest h
        cases h
      · intro a m h
        cases h
      · intro a b m m' h
        cases h
      · intro a m h
        cases h
      · intro a m h
        cases h
      · rintro s ⟨w, hw, -⟩
        cases hw
      · intro n a m h
        cases h
  | @step σ σ' act hr he hx ih =>
      have hr₀ := hr.of_only
      have hB := base_reachable hr₀
      have hR := receives_reachable hr₀
      have hB' := base_reachable (hr₀.step he.1 hx)
      have hen₀ : σ.chan.enabled = true := by
        rcases enabled_cases hB id he.1.2 hx with e | e
        · rw [← e, hen]
        · rw [hen] at e
          cases e
      have hz₀ : ∀ t, ¬(σ.pc t).WritesNothing := fun t ht => by
        obtain ⟨r, rfl, hagain⟩ := he.2.prompt_of_enabled hr₀ hen₀ ht
        rw [closes_of_writesNothing ht hagain he.1.2 hx] at hen
        cases hen
      obtain ⟨ws, hM⟩ := ih hen₀ hz₀
      have hF' := hM.framing.step hB (sendsFit hx) he.1.2 hx hen (.inr hz)
      have hN' := hM.numbered.step hB hR he.1.2 hx hen
        (fun hg => (Nat.lt_succ_self _).trans (he.2.numbers hg)) fun n k a m hb => by
          obtain ⟨-, m', -, -, hm', hc, -⟩ := hF'.sending n k a .header m.hdrBytes
            (by rw [hb.pc, Function.update_self])
          obtain rfl := Option.some.inj (hb.msg.symm.trans hm')
          have hdec := hc.toFramed.decode_wire []
          rwa [List.append_nil] at hdec
      by_cases hact : act.Receiving
      · exact hM.receiving hB he.1.2 hx hF' hN' hB' hR hen hact
      · exact ⟨ws, hM.sending hB he.1.2 hx hF' hN' he.2 hact⟩

/-! ## What follows for requests and responses -/

/-- A response that nobody waits for has not arrived. -/
theorem Matched.no_orphan (h : Matched σ ws) (hB : Base cfg (σ.chan.enabled = true) σ) :
    ¬Orphan cfg σ act := by
  rintro ⟨b, q, k, -, hq, hw, -, hresp, hnone⟩
  have hst : σ.recv.taken ++ σ.inq = (q.taken ++ σ.inq.take k) ++ σ.inq.drop k := by
    rw [hq, List.append_assoc, List.take_append_drop]
    rfl
  obtain ⟨-, n, a, m, -, hm, hu, hr, hid⟩ := h.awaited hB hw.message hst hresp
  exact hnone a m hm ⟨⟨n, hu⟩, hr⟩ hid

/-- Only the receiver attaches a response. -/
theorem Became.resp (h : Became σ act a m m') : m'.resp = m.resp := by
  cases h <;> rfl

/-- **No wakeup is lost**: the request that gets its response in a step has
its task asleep before, and woken after. -/
theorem wakes (h : act.Receiving → σ.chan.enabled = true → ∃ ws, Matched σ ws)
    (hB : Base cfg (σ.chan.enabled = true) σ) (hB' : Base cfg (σ'.chan.enabled = true) σ')
    (hR : σ.Receives cfg) (he : act.Allowed cfg σ) (hx : act.exec cfg σ = some σ')
    (hm : σ.chan.msgs a = some m) (hr : m.resp = none) (hm' : σ'.chan.msgs a = some m')
    (hr' : m'.resp ≠ none) : ∃ n, σ.pc n = .asleep a ∧ σ'.pc n = .woken a := by
  have hsame : σ'.chan.msgs a ≠ σ.chan.msgs a := fun e => by
    rw [e, hm] at hm'
    exact hr' (Option.some.inj hm' ▸ hr)
  by_cases hact : act.Receiving
  · have huse := (hB'.uses.fits a m' hm').resp_cases hr'
    have hbuf : ∀ {b q}, σ'.chan.msgs b = some q → (∀ n, q.use ≠ .request n) →
        (∀ res, q.use ≠ .returned res) → a ≠ b := by
      rintro b q hq h₁ h₂ rfl
      obtain rfl := Option.some.inj (hm'.symm.trans hq)
      rcases huse with ⟨n, hn⟩ | ⟨res, hn⟩
      · exact h₁ n hn
      · exact h₂ res hn
    obtain ⟨b, ho⟩ := outcome hB hR he hx hact
    cases ho with
    | left q _ _ hq hqu hothers =>
        exact absurd (hothers a (hbuf hq (by simp [hqu]) (by simp [hqu]))) hsame
    | goesOn r _ _ _ hq hothers =>
        obtain ⟨q, hq, hqu⟩ := hq
        exact absurd (hothers a (hbuf hq (by simp [hqu]) (by simp [hqu]))) hsame
    | request w _ _ _ _ _ hq hothers =>
        exact absurd (hothers a (hbuf hq (by simp) (by simp))) hsame
    | response w y p n hen hw hst hresp _ hyb hp hpu _ hid hpc hy hq hothers =>
        by_cases hay : a = y
        · subst hay
          obtain ⟨ws, hM⟩ := h hact hen
          obtain ⟨-, t, z, q, hz, hzm, hzu, -, hzid⟩ := hM.awaited hB hw.message hst hresp
          obtain rfl : z = a := hM.numbered.distinct z a q p hzm hp (.inr ⟨t, hzu⟩) (.inr ⟨n, hpu⟩)
            (hzid.trans hid.symm)
          obtain rfl := Option.some.inj (hzm.symm.trans hp)
          obtain rfl := Use.request.inj (hzu.symm.trans hpu)
          exact ⟨t, hz, by rw [hpc, if_pos hz, Function.update_self]⟩
        · exact absurd (hothers a hay (hbuf hq (by simp) (by simp))) hsame
  · rcases became hB he hx hact hm' with ⟨p, hp, hb⟩ | ⟨-, -, -, hnone, -⟩
    · obtain rfl := Option.some.inj (hm.symm.trans hp)
      rw [hb.resp] at hr'
      exact absurd hr hr'
    · exact absurd hnone hr'

/-- **Matching.** In every run of an endpoint whose peer answers each
request it has completely received at most once, with fewer than 2^32
messages: a request that returned 0 has a response with its own sequence id;
a response is attached to one request; the receiver never reads a response
that nobody waits for; and the task that a response wakes is asleep. -/
theorem matching (hr : ((channelSystem cfg).only Orderly).Reachable σ) :
    (∀ a m, σ.chan.msgs a = some m → m.use = .returned 0 → ∃ b r, m.resp = some b ∧
      σ.chan.msgs b = some r ∧ r.hdr.seqid = m.hdr.seqid ∧ r.hdr.isReq = false) ∧
    (∀ a a' m m' b, σ.chan.msgs a = some m → σ.chan.msgs a' = some m' → m.resp = some b →
      m'.resp = some b → a = a') ∧
    (∀ act, ((channelSystem cfg).only Orderly).enabled σ act → ¬Orphan cfg σ act) ∧
    ∀ act σ', ((channelSystem cfg).only Orderly).enabled σ act →
      (channelSystem cfg).exec σ act = some σ' → ∀ a m m', σ.chan.msgs a = some m → m.resp = none →
      σ'.chan.msgs a = some m' → m'.resp ≠ none → ∃ n, σ.pc n = .asleep a ∧ σ'.pc n = .woken a := by
  have hr₀ := hr.of_only
  have hB := base_reachable hr₀
  have hR := receives_reachable hr₀
  -- no step of the receiver comes before a write of nothing
  have hM : ∀ {act}, Orderly σ act → act.Receiving → σ.chan.enabled = true →
      ∃ ws, Matched σ ws := fun hO hact hen =>
    matched_reachable hr hen fun t ht => by
      obtain ⟨r, rfl, -⟩ := hO.prompt_of_enabled hr₀ hen ht
      exact hact
  refine ⟨fun a m hm hu => ?_, fun a a' m m' b hm hm' hb hb' => ?_, fun act he ho => ?_,
    fun act σ' he hx a m m' hm hresp hm' hresp' => ?_⟩
  · have hfit := hB.uses.fits a m hm
    simp only [Msg.Fits, hu, forall_const] at hfit
    obtain ⟨b, hb⟩ := Option.ne_none_iff_exists'.1 hfit.2
    obtain ⟨r, hr, -, hid, hreq⟩ := hB.uses.resp a m b hm hb
    exact ⟨b, r, hb, hr, hid, hreq⟩
  · obtain ⟨r, hr, hu, -⟩ := hB.uses.resp a m b hm hb
    obtain ⟨r', hr', hu', -⟩ := hB.uses.resp a' m' b hm' hb'
    obtain rfl := Option.some.inj (hr.symm.trans hr')
    exact Use.attached.inj (hu.symm.trans hu')
  · obtain ⟨b, q, k, rfl, hq, -⟩ := id ho
    obtain ⟨-, -, -, hopen, -⟩ := he.1.2
    obtain ⟨ws, hM⟩ := hM he.2 trivial (hB.gate (by simp [hq]) hopen)
    exact hM.no_orphan hB ho
  · exact wakes (hM he.2) hB (base_reachable (hr₀.step he.1 hx)) hR he.1.2 hx hm hresp
      hm' hresp'

/-- A request, its response, and the wakeup. -/
def askAndAnswer : List Action :=
  oneRequest ++ [.write 0 (.sent 5), .recvStart 9, .write 0 (.sent 7),
    .arrive (⟨1, 48, 12, 0, 0⟩ : MsgHdr).encode, .recvTake 12, .wake 0]

theorem matching_answered : ∃ σ, ((channelSystem smallCfg).only Orderly).Reachable σ ∧
    (∃ m, σ.chan.msgs 0 = some m ∧ m.use = .returned 0) ∧
    (∀ a m, σ.chan.msgs a = some m → m.use = .returned 0 → ∃ b r, m.resp = some b ∧
      σ.chan.msgs b = some r ∧ r.hdr.seqid = m.hdr.seqid ∧ r.hdr.isReq = false) ∧
    (∀ a a' m m' b, σ.chan.msgs a = some m → σ.chan.msgs a' = some m' → m.resp = some b →
      m'.resp = some b → a = a') ∧
    (∀ act, ((channelSystem smallCfg).only Orderly).enabled σ act → ¬Orphan smallCfg σ act) ∧
    ∀ act σ', ((channelSystem smallCfg).only Orderly).enabled σ act →
      (channelSystem smallCfg).exec σ act = some σ' → ∀ a m m', σ.chan.msgs a = some m →
      m.resp = none → σ'.chan.msgs a = some m' → m'.resp ≠ none →
      ∃ n, σ.pc n = .asleep a ∧ σ'.pc n = .woken a := by
  have hrun : ((((channelSystem smallCfg).only Orderly).run smallChannel askAndAnswer).any
      fun σ : State =>
      decide (∃ m : Msg, σ.chan.msgs 0 = some m ∧ m.use = .returned 0)) = true := by decide +kernel
  obtain ⟨σ, hsteps, h⟩ := System.Steps.of_run_any hrun
  have hr := hsteps.reachable (.init smallChannel_init)
  exact ⟨σ, hr, of_decide_eq_true h, matching hr⟩

end Rpc

end VmwareProto
