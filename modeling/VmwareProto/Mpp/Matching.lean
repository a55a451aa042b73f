import VmwareProto.Library.Ledger
import VmwareProto.Mpp.Wholes
/-!
# Requests and responses

A request is in the hash before it is written, and its sender gives the
lock back after its last byte. A peer that answers what it has completely
received, once, so answers requests that are in the hash; and a worker that
looks one up has the lock, so its sender is gone.
-/

namespace VmwareProto

namespace Mpp

variable {cfg : Cfg} {rcfg : RecvCfg} {σ σ' : State} {act : Action} {x y : Actor} {a b : Addr}
  {m r : Msg} {k : Kind} {p q : Pc} {w rest : List Byte} {s : BitVec 64} {n : ℕ}

/-! ## The rules of a run -/

/-- A message with sequence id `s`. -/
def hasSeqid (s : BitVec 64) (w : List Byte) : Bool := (MsgHdr.decode w).seqid == s

/-- A request with sequence id `s`. -/
def isRequest (s : BitVec 64) (w : List Byte) : Bool := (MsgHdr.decode w).isReq && hasSeqid s w

/-- What the peer sends: responses, each to a request that it has completely
received, and no more than one to each. -/
structure Answered (rcfg : RecvCfg) (sent arrived : List Byte) : Prop where
  headers : ∀ h ∈ headers arrived, h.Fits rcfg ∧ h.isReq = false ∧ h.isConnClosed = false
  once : ∀ w ∈ rpcFormat.wholes arrived,
    (rpcFormat.wholes arrived).countP (hasSeqid (MsgHdr.decode w).seqid) ≤
      (rpcFormat.wholes sent).countP (isRequest (MsgHdr.decode w).seqid)

instance (sent arrived : List Byte) : Decidable (Answered rcfg sent arrived) :=
  decidable_of_iff ((∀ h ∈ headers arrived, h.Fits rcfg ∧ h.isReq = false ∧ h.isConnClosed = false) ∧
      ∀ w ∈ rpcFormat.wholes arrived,
        (rpcFormat.wholes arrived).countP (hasSeqid (MsgHdr.decode w).seqid) ≤
          (rpcFormat.wholes sent).countP (isRequest (MsgHdr.decode w).seqid))
    ⟨fun h => ⟨h.1, h.2⟩, fun h => ⟨h.1, h.2⟩⟩

/-- What a step keeps to: the transport does not fail, what is sent can be
sent, and the peer answers. -/
structure Orderly (cfg : Cfg) (σ : State) (act : Action) : Prop where
  whole : Whole cfg σ act
  opened : ∀ j, act ≠ .recvEnd j
  answers : ∀ bs, act = .arrive bs → Answered cfg.toRecvCfg σ.sent (σ.arrived ++ bs)

instance (cfg : Cfg) (σ : State) : (act : Action) → Decidable (Orderly cfg σ act)
  | .recvEnd j => .isFalse fun h => h.opened j rfl
  | .arrive bs =>
      decidable_of_iff (Whole cfg σ (.arrive bs) ∧ Answered cfg.toRecvCfg σ.sent (σ.arrived ++ bs))
        ⟨fun h => ⟨h.1, fun _ => by simp, fun bs' e => Action.arrive.inj e ▸ h.2⟩,
          fun h => ⟨h.whole, h.answers bs rfl⟩⟩
  | .get n k alloc msgtype msglen pad body e =>
      decidable_of_iff (Whole cfg σ (.get n k alloc msgtype msglen pad body e))
        ⟨fun h => ⟨h, fun _ => by simp, fun _ e => by simp at e⟩, fun h => h.whole⟩
  | .edit n f =>
      decidable_of_iff (Whole cfg σ (.edit n f))
        ⟨fun h => ⟨h, fun _ => by simp, fun _ e => by simp at e⟩, fun h => h.whole⟩
  | .check n =>
      decidable_of_iff (Whole cfg σ (.check n))
        ⟨fun h => ⟨h, fun _ => by simp, fun _ e => by simp at e⟩, fun h => h.whole⟩
  | .write n j =>
      decidable_of_iff (Whole cfg σ (.write n j))
        ⟨fun h => ⟨h, fun _ => by simp, fun _ e => by simp at e⟩, fun h => h.whole⟩
  | .abandon _ | .lock _ | .unlock _ | .close _ | .put _ | .take _ | .dispatch _ | .handle _
  | .finish _ | .recvStart _ | .recv =>
      .isTrue ⟨⟨fun _ => by simp, fun _ _ _ _ e => by simp at e⟩, fun _ => by simp,
        fun _ e => by simp at e⟩

/-- The message of a work item, as `_rpc_recv` leaves it. -/
def Frame.ofWire (rcfg : RecvCfg) (w : List Byte) : Frame :=
  .ofStored rcfg (receivedWire w).stored (receivedWire w).payload

theorem Frame.hdr_ofWire (hw : rpcFormat.IsWhole w) : (Frame.ofWire rcfg w).hdr = MsgHdr.decode w := by
  obtain ⟨hge, hlen⟩ := isWhole_iff.1 hw
  have hdec : MsgHdr.decode (w.take (MsgHdr.decode w).len ++ w.drop (MsgHdr.decode w).len) =
      MsgHdr.decode (w.take (MsgHdr.decode w).len) :=
    MsgHdr.decode_append (by rw [List.length_take]; omega)
  rw [List.take_append_drop] at hdec
  exact hdec.symm

/-! ## What is on its way -/

/-- The request somebody has in hand that has been completely sent. -/
def Pc.asked : Pc → Option Addr
  | .unlock .request a => some a
  | _ => none

/-- The response a worker has in hand. -/
def Pc.answering : Pc → Option Addr
  | .item b => some b
  | _ => none

/-- A request and its response, between the lookup and `resp_handler`. -/
def Pc.together : Pc → Option (Addr × Addr)
  | .found a b => some (a, b)
  | _ => none

/-- A request that has been sent and not yet matched. -/
def State.Outstanding (σ : State) (a : Addr) : Prop :=
  σ.uses a = some .pending ∨ ∃ x, (σ.pc x).asked = some a

/-- A response that has been taken and not yet matched. -/
def State.Waiting (σ : State) (b : Addr) : Prop :=
  b ∈ σ.queue ∨ ∃ x, (σ.pc x).answering = some b

/-- The bytes of a message. -/
def State.wires (σ : State) (a : Addr) : Option (List Byte) := (σ.frames a).map Frame.wire

/-- What a worker hands over next. -/
def State.pair (σ : State) (x : Actor) : Option (Frame × Frame) :=
  (σ.pc x).together.bind fun c => (σ.frames c.1).bind fun f => (σ.frames c.2).map fun g => (f, g)

/-- **Who waits for what.** -/
structure Matched (cfg : Cfg) (σ : State) : Prop where
  headers : ∀ h ∈ headers σ.arrived, h.Fits cfg.toRecvCfg ∧ h.isReq = false ∧ h.isConnClosed = false
  budget : ∀ s, (rpcFormat.wholes σ.arrived).countP (hasSeqid s) ≤
    (rpcFormat.wholes σ.sent).countP (isRequest s)
  stream : σ.taken.flatten ++ σ.inq = σ.arrived
  whole : ∀ w ∈ σ.taken, rpcFormat.IsWhole w
  /-- the requests that the peer has got -/
  requests : Ledger σ.Outstanding σ.wires
    (((rpcFormat.wholes σ.sent).filter fun w => (MsgHdr.decode w).isReq).map some)
    (σ.matched.map fun p => some p.1.wire)
  /-- the responses that the receive thread took -/
  responses : Ledger σ.Waiting σ.frames (σ.taken.map fun w => some (Frame.ofWire cfg.toRecvCfg w))
    (σ.matched.map fun p => some p.2)
  /-- the matches -/
  handed : Ledger (fun x => (σ.pc x).together ≠ none) σ.pair (σ.matched.map some) (σ.handed.map some)
  pairs : ∀ p ∈ σ.matched, p.1.Framed cfg.toRecvCfg ∧ p.1.hdr.seqid = p.2.hdr.seqid
  framed : ∀ a m, σ.Outstanding a → σ.chan.msgs a = some m → m.frame.Framed cfg.toRecvCfg
  /-- a message is sent as what it is -/
  kinds : ∀ x k a m, σ.pc x = .checked k a ∨ (∃ part rest, σ.pc x = .send k a part rest) →
    σ.chan.msgs a = some m → m.frame.hdr.isReq = decide (k = .request)

/-! ## Who has what -/

section

variable {β : Type*} {g : Pc → Option β} {v u : β} {pc : Actor → Pc}

/-- One actor moves, with what it has. -/
theorem has_same (h : g q = g (pc x)) :
    (∃ y, g (Function.update pc x q y) = some v) ↔ ∃ y, g (pc y) = some v := by
  have hsame : ∀ y, g (Function.update pc x q y) = g (pc y) := fun y => by
    by_cases hy : y = x
    · subst hy
      rw [Function.update_self, h]
    · rw [Function.update_of_ne hy]
  simp only [hsame]

/-- One gets something. -/
theorem has_gain (h : g (pc x) = none) (h' : g q = some u) :
    (∃ y, g (Function.update pc x q y) = some v) ↔ v = u ∨ ∃ y, g (pc y) = some v := by
  constructor
  · rintro ⟨y, hy⟩
    by_cases hyx : y = x
    · subst hyx
      rw [Function.update_self, h'] at hy
      exact .inl (Option.some.inj hy).symm
    · rw [Function.update_of_ne hyx] at hy
      exact .inr ⟨y, hy⟩
  · rintro (rfl | ⟨y, hy⟩)
    · exact ⟨x, by rw [Function.update_self, h']⟩
    · have hyx : y ≠ x := by
        rintro rfl
        rw [h] at hy
        cases hy
      exact ⟨y, by rw [Function.update_of_ne hyx, hy]⟩

/-- One gives away what nobody else has. -/
theorem has_lose (h : g (pc x) = some u) (h' : g q = none) (hone : ∀ y, g (pc y) = some u → y = x) :
    (∃ y, g (Function.update pc x q y) = some v) ↔ v ≠ u ∧ ∃ y, g (pc y) = some v := by
  constructor
  · rintro ⟨y, hy⟩
    by_cases hyx : y = x
    · subst hyx
      rw [Function.update_self, h'] at hy
      cases hy
    · rw [Function.update_of_ne hyx] at hy
      exact ⟨fun e => hyx (hone y (e ▸ hy)), y, hy⟩
  · rintro ⟨hne, y, hy⟩
    have hyx : y ≠ x := by
      rintro rfl
      rw [h] at hy
      exact hne (Option.some.inj hy).symm
    exact ⟨y, by rw [Function.update_of_ne hyx, hy]⟩

end

theorem Pc.of_asked (h : p.asked = some a) : p = .unlock .request a := by
  cases p with
  | unlock k b =>
      cases k with
      | request => rw [Option.some.inj h]
      | response => cases h
  | _ => cases h

theorem Pc.of_answering (h : p.answering = some b) : p = .item b := by
  cases p with
  | item c => rw [Option.some.inj h]
  | _ => cases h

theorem Pc.of_together (h : p.together = some (a, b)) : p = .found a b := by
  cases p with
  | found c d =>
      obtain ⟨rfl, rfl⟩ := Prod.mk.inj (Option.some.inj h)
      rfl
  | _ => cases h

theorem State.Outstanding.settled (h : σ.Outstanding a) : σ.Settled a := by
  rcases h with h | ⟨x, hx⟩
  · exact .inl h
  · refine .inr (.inr ⟨x, ?_⟩)
    rw [Pc.of_asked hx]
    exact ⟨List.mem_singleton_self a, rfl⟩

theorem State.Waiting.settled (hB : Base cfg σ) (h : σ.Waiting b) : σ.Settled b := by
  rcases h with h | ⟨x, hx⟩
  · exact .inr (.inl ((hB.uses.queued b).1 h))
  · refine .inr (.inr ⟨x, ?_⟩)
    rw [Pc.of_answering hx]
    exact ⟨List.mem_singleton_self b, rfl⟩

theorem State.pair_eq (h : σ.pc x = .found a b) :
    σ.pair x = (σ.frames a).bind fun f => (σ.frames b).map fun g => (f, g) := by
  rw [State.pair, h]
  rfl

/-- A message that is settled keeps its bytes. -/
theorem wires_same (h : σ'.frames a = σ.frames a) : σ'.wires a = σ.wires a := by
  rw [State.wires, State.wires, h]

/-- Nothing of a request, a response or a match. -/
structure Pc.Aside (p : Pc) : Prop where
  asked : p.asked = none
  answering : p.answering = none
  together : p.together = none

/-! ## The steps -/

section

variable (h : Matched cfg σ) (hB : Base cfg σ) (hs : Step cfg σ act σ')
include hB hs

/-- What another worker hands over next. -/
theorem pair_other (hy : σ'.pc y = σ.pc y) (hne : (σ.pc y).together ≠ none) :
    σ'.pair y = σ.pair y := by
  obtain ⟨⟨a, b⟩, hab⟩ := Option.ne_none_iff_exists'.1 hne
  have hpc := Pc.of_together hab
  have hset : ∀ c ∈ (σ.pc y).held, σ.Settled c := fun c hc =>
    .inr (.inr ⟨y, hc, by rw [hpc]; rfl⟩)
  rw [State.pair_eq hpc, State.pair_eq (hy.trans hpc), hs.settled hB (hset a (by simp [hpc, Pc.held])),
    hs.settled hB (hset b (by simp [hpc, Pc.held]))]

include h

/-- An outstanding request that was outstanding. -/
theorem Matched.framed_of (ha : σ.Outstanding a) (hm : σ'.chan.msgs a = some m) :
    m.frame.Framed cfg.toRecvCfg := by
  have hf := hs.settled hB ha.settled
  obtain ⟨m₀, hm₀, hfr⟩ := State.frames_eq_some.1
    (hf.symm.trans (State.frames_eq_some.2 ⟨m, hm, rfl⟩))
  rw [← hfr]
  exact h.framed a m₀ ha hm₀

/-- A sender other than the one that moved. -/
theorem Matched.kinds_of (hx : act.actor = some x) (hpc : σ'.pc = Function.update σ.pc x q)
    (hkinds : ∀ k a m, q = .checked k a ∨ (∃ part rest, q = .send k a part rest) →
      σ'.chan.msgs a = some m → m.frame.hdr.isReq = decide (k = .request))
    (hy : σ'.pc y = .checked k a ∨ ∃ part rest, σ'.pc y = .send k a part rest)
    (hm : σ'.chan.msgs a = some m) : m.frame.hdr.isReq = decide (k = .request) := by
  by_cases hyx : y = x
  · subst hyx
    rw [hpc, Function.update_self] at hy
    exact hkinds k a m hy hm
  · have hl := hs.leaves hB hx
    rw [hl.pc y hyx] at hy
    have ha : a ∈ (σ.pc y).held := by
      rcases hy with hy | ⟨_, _, hy⟩
      · simp [hy, Pc.held]
      · simp [hy, Pc.held]
    exact h.kinds y k a m hy (by rw [← hl.msgs y hyx a ha, hm])

/-- No request is added, none is matched. -/
theorem Matched.requests_same (hout : ∀ a, σ'.Outstanding a ↔ σ.Outstanding a)
    (hsent : rpcFormat.wholes σ'.sent = rpcFormat.wholes σ.sent) (hmatched : σ'.matched = σ.matched) :
    Ledger σ'.Outstanding σ'.wires
      (((rpcFormat.wholes σ'.sent).filter fun w => (MsgHdr.decode w).isReq).map some)
      (σ'.matched.map fun p => some p.1.wire) := by
  rw [hsent, hmatched]
  exact h.requests.congr hout fun a ha => wires_same (hs.settled hB ha.settled)

/-- No response is taken, none is matched. -/
theorem Matched.responses_same (hwait : ∀ b, σ'.Waiting b ↔ σ.Waiting b) (htaken : σ'.taken = σ.taken)
    (hmatched : σ'.matched = σ.matched) :
    Ledger σ'.Waiting σ'.frames (σ'.taken.map fun w => some (Frame.ofWire cfg.toRecvCfg w))
      (σ'.matched.map fun p => some p.2) := by
  rw [htaken, hmatched]
  exact h.responses.congr hwait fun b hb => hs.settled hB (hb.settled hB)

/-- Nothing is matched, nothing handed over. -/
theorem Matched.handed_same (hpc : σ'.pc = Function.update σ.pc x q) (hp : (σ.pc x).together = none)
    (hq : q.together = none) (hmatched : σ'.matched = σ.matched) (hhanded : σ'.handed = σ.handed) :
    Ledger (fun x => (σ'.pc x).together ≠ none) σ'.pair (σ'.matched.map some) (σ'.handed.map some) := by
  have hpcs : ∀ y, (σ'.pc y).together = (σ.pc y).together ∧
      ((σ.pc y).together ≠ none → σ'.pc y = σ.pc y) := fun y => by
    by_cases hy : y = x
    · subst hy
      rw [hpc, Function.update_self, hq, hp]
      exact ⟨rfl, fun e => absurd rfl e⟩
    · rw [hpc, Function.update_of_ne hy]
      exact ⟨rfl, fun _ => rfl⟩
  rw [hmatched, hhanded]
  exact h.handed.congr (fun y => by rw [(hpcs y).1]) fun y hy => pair_other hB hs ((hpcs y).2 hy) hy

/-- **Steps that match nothing.** -/
theorem Matched.frame (hx : act.actor = some x) (hpend : SamePending σ σ')
    (hqueue : σ'.queue = σ.queue) (hpc : σ'.pc = Function.update σ.pc x q) (hp : (σ.pc x).Aside)
    (hq : q.Aside) (htaken : σ'.taken = σ.taken) (hinq : σ'.inq = σ.inq)
    (harrived : σ'.arrived = σ.arrived)
    (hsent : rpcFormat.wholes σ'.sent = rpcFormat.wholes σ.sent) (hmatched : σ'.matched = σ.matched)
    (hhanded : σ'.handed = σ.handed)
    (hkinds : ∀ k a m, q = .checked k a ∨ (∃ part rest, q = .send k a part rest) →
      σ'.chan.msgs a = some m → m.frame.hdr.isReq = decide (k = .request)) : Matched cfg σ' := by
  have hout : ∀ a, σ'.Outstanding a ↔ σ.Outstanding a := fun a =>
    or_congr (hpend a) (by rw [hpc]; exact has_same (by rw [hq.asked, hp.asked]))
  have hwait : ∀ b, σ'.Waiting b ↔ σ.Waiting b := fun b =>
    or_congr (by rw [hqueue]) (by rw [hpc]; exact has_same (by rw [hq.answering, hp.answering]))
  exact ⟨by rw [harrived]; exact h.headers, by rw [harrived, hsent]; exact h.budget,
    by rw [htaken, hinq, harrived]; exact h.stream, by rw [htaken]; exact h.whole,
    h.requests_same hB hs hout hsent hmatched, h.responses_same hB hs hwait htaken hmatched,
    h.handed_same hB hs hpc hp.together hq.together hmatched hhanded,
    by rw [hmatched]; exact h.pairs, fun a m ha => h.framed_of hB hs ((hout a).1 ha),
    fun y k a m => h.kinds_of hB hs hx hpc hkinds⟩

/-- **The last byte of a message** is written; if it is a request, it waits
for its response from here on. -/
theorem Matched.writes (hx : act.actor = some x) {part : Part}
    (hpx : σ.pc x = .send k a part rest) (hpc : σ'.pc = Function.update σ.pc x (.unlock k a))
    (hm : σ.chan.msgs a = some m) (hf : m.frame.Framed cfg.toRecvCfg)
    (hmsgs : σ'.chan.msgs = σ.chan.msgs)
    (hqueue : σ'.queue = σ.queue) (htaken : σ'.taken = σ.taken) (hinq : σ'.inq = σ.inq)
    (harrived : σ'.arrived = σ.arrived)
    (hsent : rpcFormat.wholes σ'.sent = rpcFormat.wholes σ.sent ++ [m.frame.wire])
    (hmatched : σ'.matched = σ.matched) (hhanded : σ'.handed = σ.handed) : Matched cfg σ' := by
  have hreq : m.frame.hdr.isReq = decide (k = .request) := h.kinds x k a m (.inr ⟨_, _, hpx⟩) hm
  have hdec : MsgHdr.decode m.frame.wire = m.frame.hdr := by
    have := hf.decode_wire []
    rwa [List.append_nil] at this
  have hpend : SamePending σ σ' := .of_same hmsgs
  have hwait : ∀ b, σ'.Waiting b ↔ σ.Waiting b := fun b =>
    or_congr (by rw [hqueue]) (by rw [hpc]; exact has_same (by rw [hpx]; rfl))
  -- a response asks for nothing, a request is outstanding from now on
  have hrequests : Ledger σ'.Outstanding σ'.wires
      (((rpcFormat.wholes σ'.sent).filter fun w => (MsgHdr.decode w).isReq).map some)
      (σ'.matched.map fun p => some p.1.wire) ∧
      ∀ c, σ'.Outstanding c → c = a ∨ σ.Outstanding c := by
    rw [hsent, hmatched, List.filter_append, List.map_append]
    cases k with
    | response =>
        have hout : ∀ c, σ'.Outstanding c ↔ σ.Outstanding c := fun c =>
          or_congr (hpend c) (by rw [hpc]; exact has_same (by rw [hpx]; rfl))
        have hnone : [m.frame.wire].filter (fun w => (MsgHdr.decode w).isReq) = [] := by
          simp [hdec, hreq]
        rw [hnone, List.map_nil, List.append_nil]
        exact ⟨h.requests.congr hout fun c hc => wires_same (hs.settled hB hc.settled),
          fun c hc => .inr ((hout c).1 hc)⟩
    | request =>
        have hout : ∀ c, σ'.Outstanding c ↔ c = a ∨ σ.Outstanding c := fun c => by
          rw [State.Outstanding, State.Outstanding, hpend c, hpc,
            has_gain (g := Pc.asked) (by rw [hpx]; rfl) rfl]
          tauto
        have hnot : ¬σ.Outstanding a := by
          have ha : a ∈ (σ.pc x).held := by simp [hpx, Pc.held]
          rintro (hu | ⟨y, hy⟩)
          · exact hB.held_ne_pending ha hu
          · have hay : a ∈ (σ.pc y).held := by simp [Pc.of_asked hy, Pc.held]
            rw [hB.uses.unique hay ha, hpx] at hy
            cases hy
        have hone : [m.frame.wire].filter (fun w => (MsgHdr.decode w).isReq) = [m.frame.wire] := by
          simp [hdec, hreq]
        rw [hone]
        exact ⟨h.requests.enter hnot hout (fun c hc => wires_same (hs.settled hB hc.settled))
          (by rw [State.wires, State.frames, hmsgs, hm]; rfl), fun c hc => (hout c).1 hc⟩
  refine ⟨by rw [harrived]; exact h.headers, fun s => ?_,
    by rw [htaken, hinq, harrived]; exact h.stream, by rw [htaken]; exact h.whole, hrequests.1,
    h.responses_same hB hs hwait htaken hmatched,
    h.handed_same hB hs hpc (by rw [hpx]; rfl) rfl hmatched hhanded,
    by rw [hmatched]; exact h.pairs, fun c m' hc hm' => ?_,
    fun y k a m => h.kinds_of hB hs hx hpc (by simp)⟩
  · rw [harrived, hsent, List.countP_append]
    exact Nat.le_add_right_of_le (h.budget s)
  · rcases hrequests.2 c hc with rfl | hc
    · rw [hmsgs, hm] at hm'
      rwa [← Option.some.inj hm']
    · exact h.framed_of hB hs hc hm'

/-- **The sender gives the lock back**: its request goes on waiting. -/
theorem Matched.unlocks (hx : act.actor = some x) (hpx : σ.pc x = .unlock .request a)
    (hpc : σ'.pc = Function.update σ.pc x .idle)
    (hmsgs : σ'.chan.msgs = Function.update σ.chan.msgs a (some m)) (hu : m.use = .pending)
    (hqueue : σ'.queue = σ.queue) (htaken : σ'.taken = σ.taken) (hinq : σ'.inq = σ.inq)
    (harrived : σ'.arrived = σ.arrived) (hsent : σ'.sent = σ.sent) (hmatched : σ'.matched = σ.matched)
    (hhanded : σ'.handed = σ.handed) : Matched cfg σ' := by
  have hone : ∀ y, (σ.pc y).asked = some a → y = x := fun y hy =>
    hB.uses.unique (a := a) (by simp [Pc.of_asked hy, Pc.held]) (by simp [hpx, Pc.held])
  have hout : ∀ c, σ'.Outstanding c ↔ σ.Outstanding c := fun c => by
    have hasked : (∃ y, (σ'.pc y).asked = some c) ↔ c ≠ a ∧ ∃ y, (σ.pc y).asked = some c := by
      rw [hpc]
      exact has_lose (by rw [hpx]; rfl) rfl hone
    rw [State.Outstanding, State.Outstanding, uses_update hmsgs, hasked]
    by_cases hca : c = a
    · subst hca
      rw [Function.update_self, Option.map_some, hu]
      exact iff_of_true (.inl rfl) (.inr ⟨x, by rw [hpx]; rfl⟩)
    · rw [Function.update_of_ne hca]
      simp [hca]
  have hwait : ∀ b, σ'.Waiting b ↔ σ.Waiting b := fun b =>
    or_congr (by rw [hqueue]) (by rw [hpc]; exact has_same (by rw [hpx]; rfl))
  exact ⟨by rw [harrived]; exact h.headers, by rw [harrived, hsent]; exact h.budget,
    by rw [htaken, hinq, harrived]; exact h.stream, by rw [htaken]; exact h.whole,
    h.requests_same hB hs hout (by rw [hsent]) hmatched, h.responses_same hB hs hwait htaken hmatched,
    h.handed_same hB hs hpc (by rw [hpx]; rfl) rfl hmatched hhanded,
    by rw [hmatched]; exact h.pairs, fun c m ha => h.framed_of hB hs ((hout c).1 ha),
    fun y k a m => h.kinds_of hB hs hx hpc (by simp)⟩

/-- **A worker takes a response** off the work list. -/
theorem Matched.takes {qs : List Addr} (hx : act.actor = some x) (hpx : σ.pc x = .idle)
    (hq : σ.queue = b :: qs) (hpend : SamePending σ σ') (hqueue : σ'.queue = qs)
    (hpc : σ'.pc = Function.update σ.pc x (.item b)) (htaken : σ'.taken = σ.taken)
    (hinq : σ'.inq = σ.inq) (harrived : σ'.arrived = σ.arrived) (hsent : σ'.sent = σ.sent)
    (hmatched : σ'.matched = σ.matched) (hhanded : σ'.handed = σ.handed) : Matched cfg σ' := by
  have hout : ∀ a, σ'.Outstanding a ↔ σ.Outstanding a := fun a =>
    or_congr (hpend a) (by rw [hpc]; exact has_same (by rw [hpx]; rfl))
  have hwait : ∀ c, σ'.Waiting c ↔ σ.Waiting c := fun c => by
    have hans : (∃ y, (σ'.pc y).answering = some c) ↔ c = b ∨ ∃ y, (σ.pc y).answering = some c := by
      rw [hpc]
      exact has_gain (by rw [hpx]; rfl) rfl
    rw [State.Waiting, State.Waiting, hans, hqueue, hq, List.mem_cons]
    tauto
  exact ⟨by rw [harrived]; exact h.headers, by rw [harrived, hsent]; exact h.budget,
    by rw [htaken, hinq, harrived]; exact h.stream, by rw [htaken]; exact h.whole,
    h.requests_same hB hs hout (by rw [hsent]) hmatched, h.responses_same hB hs hwait htaken hmatched,
    h.handed_same hB hs hpc (by rw [hpx]; rfl) rfl hmatched hhanded,
    by rw [hmatched]; exact h.pairs, fun c m ha => h.framed_of hB hs ((hout c).1 ha),
    fun y k a m => h.kinds_of hB hs hx hpc (by simp)⟩

/-- **A response finds its request.** -/
theorem Matched.finds (hx : act.actor = some x) (hpx : σ.pc x = .item b)
    (hpc : σ'.pc = Function.update σ.pc x (.found a b)) (hm : σ.chan.msgs a = some m)
    (hu : m.use = .pending) (hr : σ.chan.msgs b = some r) (hid : m.frame.hdr.seqid = r.frame.hdr.seqid)
    {m' : Msg} (hmsgs : σ'.chan.msgs = Function.update σ.chan.msgs a (some m'))
    (hu' : m'.use ≠ .pending) (hqueue : σ'.queue = σ.queue) (htaken : σ'.taken = σ.taken)
    (hinq : σ'.inq = σ.inq) (harrived : σ'.arrived = σ.arrived) (hsent : σ'.sent = σ.sent)
    (hmatched : σ'.matched = σ.matched ++ [(m.frame, r.frame)]) (hhanded : σ'.handed = σ.handed) :
    Matched cfg σ' := by
  have huse : σ.uses a = some .pending := by rw [uses_of_msg hm, hu]
  have hb : b ∈ (σ.pc x).held := by simp [hpx, Pc.held]
  have hnobody : ∀ y, (σ.pc y).asked ≠ some a := fun y hy =>
    hB.held_ne_pending (x := y) (by simp [Pc.of_asked hy, Pc.held]) huse
  have hone : ∀ y, (σ.pc y).answering = some b → y = x := fun y hy =>
    hB.uses.unique (a := b) (by simp [Pc.of_answering hy, Pc.held]) hb
  have hout : ∀ c, σ'.Outstanding c ↔ c ≠ a ∧ σ.Outstanding c := fun c => by
    have hasked : (∃ y, (σ'.pc y).asked = some c) ↔ ∃ y, (σ.pc y).asked = some c := by
      rw [hpc]
      exact has_same (by rw [hpx]; rfl)
    rw [State.Outstanding, State.Outstanding, uses_update hmsgs, hasked]
    by_cases hca : c = a
    · subst hca
      rw [Function.update_self]
      simp [hu', hnobody]
    · rw [Function.update_of_ne hca]
      simp [hca]
  have hwait : ∀ c, σ'.Waiting c ↔ c ≠ b ∧ σ.Waiting c := fun c => by
    have hans : (∃ y, (σ'.pc y).answering = some c) ↔ c ≠ b ∧ ∃ y, (σ.pc y).answering = some c := by
      rw [hpc]
      exact has_lose (by rw [hpx]; rfl) rfl hone
    rw [State.Waiting, State.Waiting, hans, hqueue]
    by_cases hcb : c = b
    · subst hcb
      simp [(hB.in_hand hb).1]
    · simp [hcb]
  have hkept : ∀ c, σ.Settled c → σ'.frames c = σ.frames c := fun c => hs.settled hB
  have hfa : σ'.frames a = some m.frame := by
    rw [hkept a (.inl huse), State.frames, hm]
    rfl
  have hfb : σ'.frames b = some r.frame := by
    rw [hkept b (.inr (.inr ⟨x, hb, by rw [hpx]; rfl⟩)), State.frames, hr]
    rfl
  have hpx' : σ'.pc x = .found a b := by rw [hpc, Function.update_self]
  refine ⟨by rw [harrived]; exact h.headers, by rw [harrived, hsent]; exact h.budget,
    by rw [htaken, hinq, harrived]; exact h.stream, by rw [htaken]; exact h.whole, ?_, ?_, ?_,
    fun c hc => ?_, fun c m ha => h.framed_of hB hs ((hout c).1 ha).2,
    fun y k a m => h.kinds_of hB hs hx hpc (by simp)⟩
  · rw [hsent, hmatched, List.map_append]
    exact h.requests.leave (.inl huse) hout (fun c _ hc => wires_same (hkept c hc.settled))
      (by rw [State.wires, State.frames, hm]; rfl)
  · rw [htaken, hmatched, List.map_append]
    exact h.responses.leave (.inr ⟨x, by rw [hpx]; rfl⟩) hwait
      (fun c _ hc => hkept c (hc.settled hB)) (by rw [State.frames, hr]; rfl)
  · rw [hmatched, hhanded, List.map_append]
    refine h.handed.enter (k := x) (by simp [hpx, Pc.together]) (fun y => ?_) (fun y hy => ?_) ?_
    · by_cases hyx : y = x
      · subst hyx
        rw [hpx']
        simp [Pc.together]
      · rw [hpc, Function.update_of_ne hyx]
        simp [hyx]
    · have hyx : y ≠ x := by
        rintro rfl
        rw [hpx] at hy
        exact hy rfl
      exact pair_other hB hs (by rw [hpc, Function.update_of_ne hyx]) hy
    · rw [State.pair_eq hpx', hfa, hfb]
      rfl
  · rw [hmatched, List.mem_append, List.mem_singleton] at hc
    rcases hc with hc | rfl
    · exact h.pairs c hc
    · exact ⟨h.framed a m (.inl huse) hm, hid⟩

/-- **`resp_handler` is called.** -/
theorem Matched.hands (hx : act.actor = some x) (hpx : σ.pc x = .found a b)
    (hpc : σ'.pc = Function.update σ.pc x q) (hq : q.Aside) (hnq : ∀ k c, q ≠ .checked k c)
    (hnq' : ∀ k c part rest, q ≠ .send k c part rest) (hm : σ.chan.msgs a = some m)
    (hr : σ.chan.msgs b = some r) (hpend : SamePending σ σ') (hqueue : σ'.queue = σ.queue)
    (htaken : σ'.taken = σ.taken) (hinq : σ'.inq = σ.inq) (harrived : σ'.arrived = σ.arrived)
    (hsent : σ'.sent = σ.sent) (hmatched : σ'.matched = σ.matched)
    (hhanded : σ'.handed = σ.handed ++ [(m.frame, r.frame)]) : Matched cfg σ' := by
  have hout : ∀ a, σ'.Outstanding a ↔ σ.Outstanding a := fun a =>
    or_congr (hpend a) (by rw [hpc]; exact has_same (by rw [hq.asked, hpx]; rfl))
  have hwait : ∀ b, σ'.Waiting b ↔ σ.Waiting b := fun b =>
    or_congr (by rw [hqueue]) (by rw [hpc]; exact has_same (by rw [hq.answering, hpx]; rfl))
  refine ⟨by rw [harrived]; exact h.headers, by rw [harrived, hsent]; exact h.budget,
    by rw [htaken, hinq, harrived]; exact h.stream, by rw [htaken]; exact h.whole,
    h.requests_same hB hs hout (by rw [hsent]) hmatched, h.responses_same hB hs hwait htaken hmatched, ?_,
    by rw [hmatched]; exact h.pairs, fun c m ha => h.framed_of hB hs ((hout c).1 ha),
    fun y k a m => h.kinds_of hB hs hx hpc ?_⟩
  · rw [hmatched, hhanded, List.map_append]
    refine h.handed.leave (k := x) (by simp [hpx, Pc.together]) (fun y => ?_) (fun y hyx hy => ?_) ?_
    · by_cases hyx : y = x
      · subst hyx
        rw [hpc, Function.update_self, hq.together]
        simp
      · rw [hpc, Function.update_of_ne hyx]
        simp [hyx]
    · exact pair_other hB hs (by rw [hpc, Function.update_of_ne hyx]) hy
    · rw [State.pair_eq hpx, State.frames, State.frames, hm, hr]
      rfl
  · rintro k' c m' (e | ⟨_, _, e⟩)
    · exact absurd e (hnq k' c)
    · exact absurd e (hnq' k' c _ _)

/-- **The receive thread takes a response.** -/
theorem Matched.receives (hx : act.actor = some x) (hpx : σ.pc x = .reading b)
    (hpc : σ'.pc = Function.update σ.pc x .idle) (hw : rpcFormat.IsWhole w) (hinq : σ.inq = w ++ σ'.inq)
    (hb : σ'.frames b = some (.ofWire cfg.toRecvCfg w)) (hpend : SamePending σ σ')
    (hqueue : σ'.queue = σ.queue ++ [b]) (htaken : σ'.taken = σ.taken ++ [w])
    (harrived : σ'.arrived = σ.arrived) (hsent : σ'.sent = σ.sent) (hmatched : σ'.matched = σ.matched)
    (hhanded : σ'.handed = σ.handed) : Matched cfg σ' := by
  have hheld : b ∈ (σ.pc x).held := by simp [hpx, Pc.held]
  have hout : ∀ a, σ'.Outstanding a ↔ σ.Outstanding a := fun a =>
    or_congr (hpend a) (by rw [hpc]; exact has_same (by rw [hpx]; rfl))
  have hwait : ∀ c, σ'.Waiting c ↔ c = b ∨ σ.Waiting c := fun c => by
    have hans : (∃ y, (σ'.pc y).answering = some c) ↔ ∃ y, (σ.pc y).answering = some c := by
      rw [hpc]
      exact has_same (by rw [hpx]; rfl)
    rw [State.Waiting, State.Waiting, hans, hqueue, List.mem_append, List.mem_singleton]
    tauto
  have hnot : ¬σ.Waiting b := by
    rintro (hq | ⟨y, hy⟩)
    · exact (hB.in_hand hheld).1 hq
    · have hby : b ∈ (σ.pc y).held := by simp [Pc.of_answering hy, Pc.held]
      rw [hB.uses.unique hby hheld, hpx] at hy
      cases hy
  refine ⟨by rw [harrived]; exact h.headers, by rw [harrived, hsent]; exact h.budget, ?_,
    fun v hv => ?_, h.requests_same hB hs hout (by rw [hsent]) hmatched, ?_,
    h.handed_same hB hs hpc (by rw [hpx]; rfl) rfl hmatched hhanded,
    by rw [hmatched]; exact h.pairs, fun c m ha => h.framed_of hB hs ((hout c).1 ha),
    fun y k a m => h.kinds_of hB hs hx hpc (by simp)⟩
  · rw [htaken, harrived, ← h.stream, hinq]
    simp
  · rw [htaken, List.mem_append, List.mem_singleton] at hv
    rcases hv with hv | rfl
    · exact h.whole v hv
    · exact hw
  · rw [htaken, hmatched, List.map_append]
    exact h.responses.enter hnot hwait (fun c hc => hs.settled hB (hc.settled hB)) hb

end

/-- **The peer sends.** -/
theorem Matched.arrives {bs : List Byte} (h : Matched cfg σ)
    (ha : Answered cfg.toRecvCfg σ.sent (σ.arrived ++ bs)) :
    Matched cfg { σ with inq := σ.inq ++ bs, arrived := σ.arrived ++ bs } := by
  refine ⟨ha.headers, fun s => ?_, by rw [← h.stream, List.append_assoc], h.whole, h.requests,
    h.responses, h.handed, h.pairs, h.framed, h.kinds⟩
  by_cases hs : ∃ w ∈ rpcFormat.wholes (σ.arrived ++ bs), hasSeqid s w = true
  · obtain ⟨w, hw, hid⟩ := hs
    have hw := ha.once w hw
    rwa [beq_iff_eq.1 hid] at hw
  · have hzero : (rpcFormat.wholes (σ.arrived ++ bs)).countP (hasSeqid s) = 0 :=
      List.countP_eq_zero.2 fun w hw hid => hs ⟨w, hw, hid⟩
    rw [hzero]
    exact Nat.zero_le _

/-- An outstanding request is a message. -/
theorem State.Outstanding.msg (hB : Base cfg σ) (ha : σ.Outstanding a) :
    ∃ m, σ.chan.msgs a = some m := by
  have huse : σ.uses a ≠ none := by
    rcases ha with hu | ⟨x, hx⟩
    · simp [hu]
    · simp [hB.uses.own x a (by simp [Pc.of_asked hx, Pc.held])]
  refine Option.ne_none_iff_exists'.1 fun e => huse ?_
  rw [State.uses, e]
  rfl

namespace Matched

variable (h : Matched cfg σ)
include h

/-- What has been taken is what arrived first. -/
theorem wholes_arrived : rpcFormat.wholes σ.arrived = σ.taken ++ rpcFormat.wholes σ.inq := by
  rw [← h.stream, Format.wholes_flatten h.whole]

/-- A response that is waiting is one. -/
theorem waiting_hdr (hb : σ.Waiting b) (hr : σ.chan.msgs b = some r) :
    r.frame.hdr.isReq = false ∧ r.frame.hdr.isConnClosed = false := by
  have hmem := h.responses.mem_came hb
  rw [State.frames, hr, List.mem_map] at hmem
  obtain ⟨w, hw, hwr⟩ := hmem
  have hhdr : r.frame.hdr = MsgHdr.decode w := by
    rw [← Frame.hdr_ofWire (h.whole w hw), Option.some.inj hwr]
  have hin : MsgHdr.decode w ∈ Mpp.headers σ.arrived := by
    rw [Mpp.headers, h.wholes_arrived]
    simp only [List.map_append, List.mem_append]
    exact .inl (.inl (List.mem_map_of_mem hw))
  rw [hhdr]
  exact (h.headers _ hin).2

/-- **No orphans**: a response that is waiting has a request waiting for it. -/
theorem awaited (hB : Base cfg σ) (hb : σ.Waiting b) (hr : σ.chan.msgs b = some r) :
    ∃ a m, σ.Outstanding a ∧ σ.chan.msgs a = some m ∧ m.frame.hdr.seqid = r.frame.hdr.seqid := by
  by_contra hno
  obtain ⟨s, hs⟩ : ∃ s, s = r.frame.hdr.seqid := ⟨_, rfl⟩
  rw [← hs] at hno
  -- as many requests with this number were received by the peer as were matched
  have hreq : (rpcFormat.wholes σ.sent).countP (isRequest s) =
      σ.matched.countP fun p => p.2.hdr.seqid == s := by
    have hledger := h.requests.countP_eq (p := fun o => o.any (hasSeqid s)) fun a ha => by
      obtain ⟨m, hm⟩ := ha.msg hB
      have hf := (h.framed a m ha hm).decode_wire []
      rw [List.append_nil] at hf
      rw [State.wires, State.frames, hm, Option.map_some, Option.map_some, Option.any_some, hasSeqid, hf,
        beq_eq_false_iff_ne]
      exact fun e => hno ⟨a, m, ha, hm, e⟩
    rw [List.countP_map, List.countP_filter, List.countP_map] at hledger
    have hcame : (rpcFormat.wholes σ.sent).countP (isRequest s) = (rpcFormat.wholes σ.sent).countP
        fun w => ((fun o : Option (List Byte) => o.any (hasSeqid s)) ∘ some) w &&
          (MsgHdr.decode w).isReq :=
      List.countP_congr fun w _ => by simp [isRequest, and_comm]
    rw [hcame, hledger]
    refine List.countP_congr fun p hp => ?_
    obtain ⟨hf, hid⟩ := h.pairs p hp
    have hdec := hf.decode_wire []
    rw [List.append_nil] at hdec
    simp [hasSeqid, hdec, hid]
  -- but of the responses more have been taken than were
  have hresp : (σ.matched.countP fun p => p.2.hdr.seqid == s) < σ.taken.countP (hasSeqid s) := by
    have hledger := h.responses.countP_lt (p := fun o => o.any fun f => f.hdr.seqid == s) hb
      (by simp [State.frames, hr, hs])
    rw [List.countP_map, List.countP_map] at hledger
    have htaken : σ.taken.countP (hasSeqid s) = σ.taken.countP
        ((fun o : Option Frame => o.any fun f => f.hdr.seqid == s) ∘
          fun w => some (Frame.ofWire cfg.toRecvCfg w)) :=
      List.countP_congr fun w hw => by simp [hasSeqid, Frame.hdr_ofWire (h.whole w hw)]
    rw [htaken]
    exact hledger
  have hbudget := h.budget s
  rw [h.wholes_arrived, List.countP_append] at hbudget
  omega

end Matched

/-! ## What the peer can have received -/

/-- All but the message that is being written. -/
theorem Framing.wholes_owner (h : Framing cfg σ) (hB : Base cfg σ) {part : Part}
    (hpc : σ.pc x = .send k a part rest) : ∃ m, σ.chan.msgs a = some m ∧
      m.frame.Framed cfg.toRecvCfg ∧ σ.log.map Frame.wire = rpcFormat.wholes σ.sent ++ [m.frame.wire] := by
  obtain ⟨b, m, fs, p, hb, hm, hfs, hp, hrest⟩ := h.owner x ((hB.locks x).2 (by rw [hpc]; rfl))
  rw [hpc, Pc.held, List.mem_singleton] at hb
  subst hb
  rw [hpc] at hrest
  have hf : ∀ f ∈ σ.log, rpcFormat.IsWhole f.wire := fun f hf => (h.framed f hf).isWhole
  have hws : ∀ w ∈ fs.map Frame.wire, rpcFormat.IsWhole w := fun w hw => by
    obtain ⟨f, hf', rfl⟩ := List.mem_map.1 hw
    exact hf f (by rw [hfs]; exact List.mem_append_left _ hf')
  have hpart : rpcFormat.wholes p = [] :=
    Format.wholes_partial (by rw [hrest]; exact hf _ (by rw [hfs]; simp))
      (unsent_ne (h.rest x k b part rest hpc))
  refine ⟨m, hm, h.framed _ (by rw [hfs]; simp), ?_⟩
  rw [hp, List.flatMap_def, Format.wholes_flatten hws, hpart, List.append_nil, hfs, List.map_append]
  rfl

/-- Every message, if none is being written. -/
theorem Framing.wholes_unlock (h : Framing cfg σ) (hB : Base cfg σ) (hpc : σ.pc x = .unlock k a) :
    rpcFormat.wholes σ.sent = σ.log.map Frame.wire := by
  obtain ⟨b, m, fs, p, hb, hm, hfs, hp, hrest⟩ := h.owner x ((hB.locks x).2 (by rw [hpc]; rfl))
  have hall : (Pc.unlock k a).unsent m.frame = [] := rfl
  rw [hpc, hall, List.append_nil] at hrest
  have hws : ∀ w ∈ σ.log.map Frame.wire, rpcFormat.IsWhole w := fun w hw => by
    obtain ⟨f, hf, rfl⟩ := List.mem_map.1 hw
    exact (h.framed f hf).isWhole
  have hsent : σ.sent = (σ.log.map Frame.wire).flatten ++ [] := by
    rw [hp, hfs, hrest, List.flatMap_def, List.append_nil, List.map_append, List.flatten_append]
    simp
  rw [hsent, Format.wholes_flatten hws]
  exact List.append_nil _

/-- A sender goes on with what it has to write, or to its unlock. -/
theorem sending_cases (k : Kind) (a : Addr) (f : Frame) (part : Part) (rest : List Byte) :
    (∃ part' rest', Pc.sending k a f part rest = .send k a part' rest') ∨
      Pc.sending k a f part rest = .unlock k a := by
  by_contra hno
  rw [not_or] at hno
  refine sending_ne (q := Pc.sending k a f part rest) (fun part' rest' e => ?_) hno.2 rfl
  exact hno.1 ⟨part', rest', e⟩

/-- The header is never empty. -/
theorem sending_header (hf : m.frame.Framed rcfg) :
    Pc.sending k a m.frame .header m.frame.hdrBytes = .send k a .header m.frame.hdrBytes := by
  have hne := hf.hdrBytes_ne
  cases hb : m.frame.hdrBytes with
  | nil => exact absurd hb hne
  | cons => rfl

theorem Pc.aside_of_putting (h : p.putting = some (a, q)) : p.Aside ∧ q.Aside := by
  cases p <;> cases h <;> exact ⟨⟨rfl, rfl, rfl⟩, rfl, rfl, rfl⟩

/-! ## Every run -/

/-- **A step keeps what waits for what.** -/
theorem Matched.step (h : Matched cfg σ) (hB : Base cfg σ) (hF : Framing cfg σ) (hB' : Base cfg σ')
    (hF' : Framing cfg σ') (hs : Step cfg σ act σ') (hok : Orderly cfg σ act) : Matched cfg σ' := by
  have hpend := hs.pending hB
  have hs' := hs
  cases hs with
  | get hpc =>
      exact h.frame hB hs' (x := .world _) rfl (hpend.resolve_right (by simp)) rfl rfl
        (by rw [hpc]; exact ⟨rfl, rfl, rfl⟩) ⟨rfl, rfl, rfl⟩ rfl rfl rfl rfl rfl rfl (by simp)
  | @edit n f k a m hpc =>
      exact h.frame hB hs' (x := .world _) rfl (hpend.resolve_right (by simp)) rfl
        (Function.update_eq_self ..).symm (by rw [hpc]; exact ⟨rfl, rfl, rfl⟩)
        (by rw [hpc]; exact ⟨rfl, rfl, rfl⟩) rfl rfl rfl rfl rfl rfl (by simp [hpc])
  | abandon hpc =>
      exact h.frame hB hs' (x := .world _) rfl (hpend.resolve_right (by simp)) rfl rfl
        (by rw [hpc]; exact ⟨rfl, rfl, rfl⟩) ⟨rfl, rfl, rfl⟩ rfl rfl rfl rfl rfl rfl (by simp)
  | @check n k a m hpc hm =>
      refine h.frame hB hs' (x := .world _) rfl (hpend.resolve_right (by simp)) rfl rfl
        (by rw [hpc]; exact ⟨rfl, rfl, rfl⟩) ⟨rfl, rfl, rfl⟩ rfl rfl rfl rfl rfl rfl ?_
      rintro k' b m' (e | ⟨_, _, e⟩) hm'
      · obtain ⟨rfl, rfl⟩ := Pc.checked.inj e
        simp only [State.setPc, Channel.setMsg_msgs, Function.update_self, Option.some.injEq] at hm'
        subst hm'
        cases k with
        | request => exact MsgHdr.isReq_setReq _
        | response => exact MsgHdr.isReq_setResp _
      · cases e
  | refuse hpc =>
      exact h.frame hB hs' (x := .world _) rfl (hpend.resolve_right (by simp)) rfl rfl
        (by rw [hpc]; exact ⟨rfl, rfl, rfl⟩) ⟨rfl, rfl, rfl⟩ rfl rfl rfl rfl rfl rfl (by simp)
  | leave hpc =>
      exact h.frame hB hs' (x := .world _) rfl (hpend.resolve_right (by simp)) rfl rfl
        (by rw [hpc]; exact ⟨rfl, rfl, rfl⟩) ⟨rfl, rfl, rfl⟩ rfl rfl rfl rfl rfl rfl (by simp)
  | @lockRequest n a m hpc hm =>
      obtain ⟨m', hm', hf⟩ := hF.ready _ _ _ hpc
      obtain rfl := Option.some.inj (hm.symm.trans hm')
      have hkind := h.kinds _ _ _ m (.inl hpc) hm
      refine h.frame hB hs' (x := .world _) rfl (hpend.resolve_right (by simp)) rfl rfl
        (by rw [hpc]; exact ⟨rfl, rfl, rfl⟩) (by rw [sending_header hf]; exact ⟨rfl, rfl, rfl⟩) rfl rfl
        rfl rfl rfl rfl ?_
      rw [sending_header hf]
      rintro k b m' (e | ⟨_, _, e⟩) hm'
      · cases e
      · obtain ⟨rfl, rfl, -⟩ := Pc.send.inj e
        simp only [State.setPc, Channel.hashAdd_msgs, Channel.setMsg_msgs, Function.update_self,
          Option.some.injEq] at hm'
        subst hm'
        exact hkind
  | @lockResponse n a m hpc hm =>
      obtain ⟨m', hm', hf⟩ := hF.ready _ _ _ hpc
      obtain rfl := Option.some.inj (hm.symm.trans hm')
      have hkind := h.kinds _ _ _ m (.inl hpc) hm
      refine h.frame hB hs' (x := .world _) rfl (hpend.resolve_right (by simp)) rfl rfl
        (by rw [hpc]; exact ⟨rfl, rfl, rfl⟩) (by rw [sending_header hf]; exact ⟨rfl, rfl, rfl⟩) rfl rfl
        rfl rfl rfl rfl ?_
      rw [sending_header hf]
      rintro k b m' (e | ⟨_, _, e⟩) hm'
      · cases e
      · obtain ⟨rfl, rfl, -⟩ := Pc.send.inj e
        obtain rfl := Option.some.inj (hm.symm.trans hm')
        exact hkind
  | @write n k a part rest m j hpc hm =>
      obtain ⟨m', hm', hf, hlog⟩ := hF.wholes_owner hB hpc
      obtain rfl := Option.some.inj (hm.symm.trans hm')
      have hkind := h.kinds _ _ _ m (.inr ⟨_, _, hpc⟩) hm
      rcases sending_cases k a m.frame part (rest.drop j) with ⟨part', rest', e⟩ | e
      · -- the message is not complete
        have hpc' : ({ σ with sent := σ.sent ++ rest.take j }.setPc (.world n)
            (.sending k a m.frame part (rest.drop j))).pc (.world n) = .send k a part' rest' := by
          rw [State.setPc_pc, Function.update_self, e]
        obtain ⟨m', hm', -, hlog'⟩ := hF'.wholes_owner hB' hpc'
        obtain rfl := Option.some.inj (hm.symm.trans hm')
        refine h.frame hB hs' (x := .world _) rfl (hpend.resolve_right (by simp)) rfl rfl
          (by rw [hpc]; exact ⟨rfl, rfl, rfl⟩) (by rw [e]; exact ⟨rfl, rfl, rfl⟩) rfl rfl rfl
          (List.append_cancel_right (hlog'.symm.trans hlog)) rfl rfl ?_
        rw [e]
        rintro k b m' (e | ⟨_, _, e⟩) hm'
        · cases e
        · obtain ⟨rfl, rfl, -⟩ := Pc.send.inj e
          obtain rfl := Option.some.inj (hm.symm.trans hm')
          exact hkind
      · have hwhole := hF'.wholes_unlock hB' (x := .world n) (k := k) (a := a)
          (by rw [State.setPc_pc, Function.update_self, e])
        refine h.writes hB hs' (x := .world _) rfl hpc (by rw [State.setPc_pc, e]) hm hf rfl rfl rfl rfl rfl
          (hwhole.trans hlog) rfl rfl
  | fail => exact absurd rfl (hok.whole.1 _)
  | unlockRequest hpc hm =>
      exact h.unlocks hB hs' (x := .world _) rfl hpc rfl rfl rfl rfl rfl rfl rfl rfl rfl rfl
  | unlockResponse hpc =>
      exact h.frame hB hs' (x := .world _) rfl (hpend.resolve_right (by simp [hpc])) rfl rfl
        (by rw [hpc]; exact ⟨rfl, rfl, rfl⟩) ⟨rfl, rfl, rfl⟩ rfl rfl rfl rfl rfl rfl (by simp)
  | @close x s hx =>
      have hclosing : ∃ t, σ.pc x = .closing t := by
        cases hpc : σ.pc x with
        | failing k a t => exact absurd hpc (hF.works x k a t)
        | closing t => exact ⟨t, rfl⟩
        | _ =>
            rw [hpc] at hx
            cases hx
      obtain ⟨t, hpc⟩ := hclosing
      exact h.frame hB hs' rfl (hpend.resolve_right (by simp)) rfl rfl
        (by rw [hpc]; exact ⟨rfl, rfl, rfl⟩) (by rw [hpc]; exact ⟨rfl, rfl, rfl⟩) rfl rfl rfl rfl rfl rfl
        (by simp [hpc, Pc.reclose])
  | closeUnlock hpc => exact absurd hpc (hF.works _ _ _ _)
  | closeReturn hpc =>
      exact h.frame hB hs' rfl (hpend.resolve_right (by simp)) rfl rfl
        (by rw [hpc]; exact ⟨rfl, rfl, rfl⟩) ⟨rfl, rfl, rfl⟩ rfl rfl rfl rfl rfl rfl (by simp)
  | @putResp x a p m c hp =>
      obtain ⟨haside, -⟩ := Pc.aside_of_putting hp
      refine h.frame hB hs' rfl (hpend.resolve_right (by simp)) rfl (Function.update_eq_self ..).symm
        haside haside rfl rfl rfl rfl rfl rfl ?_
      rintro k b m' (e | ⟨_, _, e⟩)
      · rw [e] at hp
        cases hp
      · rw [e] at hp
        cases hp
  | @put x a p m c hp =>
      obtain ⟨haside, haside'⟩ := Pc.aside_of_putting hp
      refine h.frame hB hs' rfl (hpend.resolve_right (by simp)) rfl rfl haside haside' rfl rfl rfl rfl
        rfl rfl ?_
      obtain ⟨-, -, -, hheld, -⟩ := Pc.of_putting hp
      rintro k b m' (e | ⟨_, _, e⟩)
      · rw [e] at hheld
        cases hheld
      · rw [e] at hheld
        cases hheld
  | take hpc hq hm =>
      exact h.takes hB hs' (x := .worker _) rfl hpc hq (hpend.resolve_right (by simp)) rfl rfl rfl rfl
        rfl rfl rfl rfl
  | drop hpc hr hc =>
      have := (h.waiting_hdr (.inr ⟨_, by rw [hpc]; rfl⟩) hr).2
      rw [hc] at this
      cases this
  | @find n b r a c m hpc hr _ _ hl hlook hrem hm =>
      obtain ⟨m₀, hm₀, hu, hid⟩ := hB.found hl hlook
      have hmsgs := (Channel.hashRem_keeps hrem).2
      rw [hmsgs] at hm
      obtain rfl := Option.some.inj (hm.symm.trans hm₀)
      have hset : (c.setMsg a { m with use := .held (.worker n) }).msgs =
          Function.update σ.chan.msgs a (some { m with use := .held (.worker n) }) := by
        rw [Channel.setMsg_msgs, hmsgs]
      exact h.finds hB hs' (x := .worker n) rfl hpc rfl hm hu hr hid hset (by simp) rfl rfl rfl rfl rfl rfl
        rfl
  | handle hpc hm hr =>
      exact h.hands hB hs' (x := .worker _) rfl hpc rfl ⟨rfl, rfl, rfl⟩ (by simp) (by simp) hm hr
        (hpend.resolve_right (by simp)) rfl rfl rfl rfl rfl rfl rfl
  | finish hpc =>
      exact h.frame hB hs' (x := .worker _) rfl (hpend.resolve_right (by simp)) rfl rfl
        (by rw [hpc]; exact ⟨rfl, rfl, rfl⟩) ⟨rfl, rfl, rfl⟩ rfl rfl rfl rfl rfl rfl (by simp)
  | recvStart hpc =>
      exact h.frame hB hs' (x := .receiver) rfl (hpend.resolve_right (by simp)) rfl rfl
        (by rw [hpc]; exact ⟨rfl, rfl, rfl⟩) ⟨rfl, rfl, rfl⟩ rfl rfl rfl rfl rfl rfl (by simp)
  | @recv b m r hpc hm hr hres =>
      have hheaders : Mpp.headers σ.arrived = σ.taken.map MsgHdr.decode ++ Mpp.headers σ.inq := by
        rw [← h.stream, headers_flatten h.whole]
      have hfits : ∀ g ∈ Mpp.headers σ.inq, g.Fits cfg.toRecvCfg := fun g hg =>
        (h.headers g (by rw [hheaders]; exact List.mem_append_right _ hg)).1
      cases hw : rpcFormat.wholes σ.inq with
      | nil =>
          refine absurd (by rw [hr]; exact hres) (rpcRecv_part (S := cfg.sock) hw fun hlen => ?_)
          refine hfits _ ?_
          simp only [Mpp.headers, hw, List.map_nil, List.flatten_nil, List.length_nil, List.drop_zero,
            List.nil_append]
          rw [if_pos hlen]
          exact List.mem_singleton_self _
      | cons w ws =>
          obtain ⟨hwhole, rest, hinq, -⟩ := Format.of_wholes_cons hw
          have hfit : (MsgHdr.decode w).Fits cfg.toRecvCfg := by
            refine hfits _ ?_
            rw [Mpp.headers, hw]
            exact List.mem_append_left _ (List.mem_map_of_mem List.mem_cons_self)
          have hrecv : r = receivedWire w := by rw [← hr, hinq, rpcRecv_whole hwhole hfit]
          have htaken : r.taken = w.length := by rw [hrecv, taken_receivedWire hwhole]
          have hframe : State.frames ({ σ with
              chan := σ.chan.setMsg b { m with
                frame := .ofStored cfg.toRecvCfg r.stored r.payload
                use := .queued }
              queue := σ.queue ++ [b]
              inq := σ.inq.drop r.taken
              taken := σ.taken ++ [σ.inq.take r.taken] }.setPc .receiver .idle) b =
              some (.ofWire cfg.toRecvCfg w) := by
            rw [hrecv]
            simp [State.frames, State.setPc, Frame.ofWire]
          exact h.receives hB hs' (x := .receiver) (w := w) rfl hpc rfl hwhole
            (by simp [State.setPc, htaken, hinq]) hframe (hpend.resolve_right (by simp)) rfl
            (by simp [State.setPc, htaken, hinq]) rfl rfl rfl rfl
  | recvEnd => exact absurd rfl (hok.opened _)
  | arrive => exact h.arrives (hok.answers _ rfl)

theorem matched_reachable (hr : ((channelSystem cfg).only (Orderly cfg)).Reachable σ) :
    Base cfg σ ∧ Framing cfg σ ∧ Matched cfg σ := by
  refine hr.invariant (I := fun σ => Base cfg σ ∧ Framing cfg σ ∧ Matched cfg σ) ?_ ?_
  · intro σ hinit
    have hr₀ : ((channelSystem cfg).only (Whole cfg)).Reachable σ := .init hinit
    obtain ⟨hB, hF⟩ := framing_reachable hr₀
    refine ⟨hB, hF, ?_⟩
    obtain ⟨bufs, cmds, -, -, rfl⟩ := hinit
    have hnone : ∀ a, ¬(State.initial bufs cmds).Outstanding a := by
      rintro a (h | ⟨x, h⟩) <;> cases h
    refine ⟨fun g hg => ?_, fun s => Nat.zero_le _, rfl, fun w hw => ?_, .initial hnone, .initial ?_,
      .initial ?_, fun p hp => ?_, fun a m ha => absurd ha (hnone a), fun x k a m _ hm => ?_⟩
    · cases hg
    · cases hw
    · rintro b (h | ⟨x, h⟩) <;> cases h
    · exact fun x h => h rfl
    · cases hp
    · cases hm
  · rintro σ act σ' ⟨hB, hF, h⟩ ⟨he, hok⟩ hx
    have hs := Step.of_exec he hx
    have hB' := hs.base hok.whole.sends hB
    have hF' := hF.step hB hs hok.whole
    exact ⟨hB', hF', h.step hB hF hB' hF' hs hok⟩

/-! ## What follows for requests and responses -/

/-- **`_rpc_recv_handler` meets no assertion**: what it has is a response,
and the hash has a request for it. -/
theorem Matched.dispatch_returns (h : Matched cfg σ) (hB : Base cfg σ)
    (he : (Action.dispatch n).allowed cfg σ = true) :
    ∃ σ', (Action.dispatch n).exec cfg σ = some σ' := by
  cases hpc : σ.pc (.worker n) with
  | item b =>
      have hwait : σ.Waiting b := .inr ⟨_, by rw [hpc]; rfl⟩
      obtain ⟨r, hr⟩ : ∃ r, σ.chan.msgs b = some r := by
        refine Option.ne_none_iff_exists'.1 fun e => ?_
        exact hB.nobody e (.worker n) (by simp [hpc, Pc.held])
      obtain ⟨hreq, hcc⟩ := h.waiting_hdr hwait hr
      simp only [Action.allowed, hpc, hr, hcc, hreq, Bool.false_eq_true, false_or,
        decide_eq_true_eq] at he
      obtain ⟨a, m, ha, hm, hid⟩ := h.awaited hB hwait hr
      have hpend : m.pending = true := by
        rcases ha with hu | ⟨x, hx⟩
        · rw [uses_of_msg hm] at hu
          rw [Msg.pending, Option.some.inj hu]
        · have := (hB.locks x).2 (by rw [Pc.of_asked hx]; rfl)
          rw [he] at this
          cases this
      obtain ⟨lists, ps, hT⟩ := hB.table
      rcases hT.lookup r.frame.hdr.seqid with ⟨a', m', hlook, hm', hp', -⟩ | ⟨-, hnone⟩
      · obtain ⟨c, hrem, -⟩ := hT.rem hm' hp'
        have hmc : c.msgs a' = some m' := by rw [(Channel.hashRem_keeps hrem).2, hm']
        simp only [Action.exec, State.dispatch, hpc, hr, hcc, hreq, State.rpcResponse, hlook, hrem, hmc,
          Option.bind_eq_bind, Option.bind_some, Bool.false_eq_true, if_false]
        exact ⟨_, rfl⟩
      · exact absurd hid (hnone a m hm hpend)
  | _ => simp [Action.allowed, hpc] at he

/-- **Matching**, as it stands at any time. -/
structure MatchedOnce (cfg : Cfg) (σ : State) : Prop where
  /-- the receive thread takes the responses as they arrive -/
  stream : σ.taken.flatten ++ σ.inq = σ.arrived ∧ ∀ w ∈ σ.taken, rpcFormat.IsWhole w
  /-- each of them is matched once, or waits for a worker -/
  responses : Ledger σ.Waiting σ.frames (σ.taken.map fun w => some (Frame.ofWire cfg.toRecvCfg w))
    (σ.matched.map fun p => some p.2)
  /-- each request that the peer has got is matched once, or outstanding -/
  requests : Ledger σ.Outstanding σ.wires
    (((rpcFormat.wholes σ.sent).filter fun w => (MsgHdr.decode w).isReq).map some)
    (σ.matched.map fun p => some p.1.wire)
  /-- each match is handed to `resp_handler` once, or is with a worker -/
  handed : Ledger (fun x => (σ.pc x).together ≠ none) σ.pair (σ.matched.map some) (σ.handed.map some)
  seqid : ∀ p ∈ σ.matched, p.1.hdr.seqid = p.2.hdr.seqid
  /-- no assertion of `_rpc_recv_handler` and `_rpc_response` fails -/
  no_orphan : ∀ n, (channelSystem cfg).enabled σ (.dispatch n) →
    ∃ σ', (channelSystem cfg).exec σ (.dispatch n) = some σ'
  /-- a request that is found has been left by its sender -/
  sender_gone : ∀ n σ' a b, (channelSystem cfg).enabled σ (.dispatch n) →
    (channelSystem cfg).exec σ (.dispatch n) = some σ' → σ'.pc (.worker n) = .found a b →
    ∀ x, a ∉ (σ.pc x).held
  /-- and a buffer that somebody has is not back in the pool -/
  issued : ∀ x, ∀ a ∈ (σ.pc x).held, σ.chan.msgs a ≠ none

/-- **Matching.** With a peer that answers each request it has completely
received at most once, in every run: every response is matched once, with a
request of the same sequence id that its sender has left, and handed to
`resp_handler` once with it. -/
theorem channel_matching (hr : ((channelSystem cfg).only (Orderly cfg)).Reachable σ) : MatchedOnce cfg σ := by
  obtain ⟨hB, -, h⟩ := matched_reachable hr
  refine ⟨⟨h.stream, h.whole⟩, h.responses, h.requests, h.handed, fun p hp => (h.pairs p hp).2,
    fun n he => h.dispatch_returns hB he, fun n σ' a b he hx hpc x ha => ?_,
    fun x a ha hnone => hB.nobody hnone x ha⟩
  have hs := Step.of_exec he hx
  cases hs with
  | drop =>
      rw [State.setPc_pc, Function.update_self] at hpc
      cases hpc
  | find _ _ _ _ hl hlook =>
      rw [State.setPc_pc, Function.update_self] at hpc
      obtain ⟨rfl, rfl⟩ := Pc.found.inj hpc
      obtain ⟨m, hm, hu, -⟩ := hB.found hl hlook
      exact hB.held_ne_pending ha (by rw [uses_of_msg hm, hu])

/-- The header of the answer to the first request of a channel. -/
def firstResponse : List Byte := (⟨1, 528, 32, 0, 0⟩ : MsgHdr).encode ⟨0, 0⟩

/-- A request, its response in two parts, and the worker that brings them
together. -/
def askAndAnswer : List Action :=
  [.get 0 .request 9 33 48 ⟨0, 0⟩ (List.replicate 16 0) 0, .check 0, .lock 0, .write 0 (some 48),
    .unlock 0, .recvStart 9, .arrive (firstResponse.take 20), .arrive (firstResponse.drop 20), .recv,
    .take 3, .dispatch 3, .handle 3]

theorem channel_matching_answered : ∃ σ, ((channelSystem smallCfg).only (Orderly smallCfg)).Reachable σ ∧
    σ.handed.length = 1 ∧ MatchedOnce smallCfg σ := by
  have hrun : ((((channelSystem smallCfg).only (Orderly smallCfg)).run smallChannel askAndAnswer).any
      fun σ : State => decide (σ.handed.length = 1)) = true := by decide +kernel
  obtain ⟨σ, hsteps, hlen⟩ := System.Steps.of_run_any hrun
  have hr := hsteps.reachable (.init smallChannel_init)
  exact ⟨σ, hr, of_decide_eq_true hlen, channel_matching hr⟩

end Mpp

end VmwareProto
