import VmwareProto.Splitter.Callers
/-!
# The server's tasks as workers

A handler's task has a request to serve until it has run, and then an answer
to send until `fdlock` is obtained with it. Each step of the server is one of
a worker, or none.
-/

namespace VmwareProto

namespace Splitter

open Rpc
open Libtask (TaskId)

variable {σ σ' : Side} {ρ : Rpc.State} {n t : TaskId} {a b : Addr} {m m' : Msg}
  {act : SideAction} {o : Op} {s : BitVec 32} {q : Recv} {p : Pc}

/-- What a worker has: a request to serve, or an answer to send. -/
abbrev Work := BitVec 32 × (Op ⊕ Result)

variable {w : Option Work}

/-- A task that has an answer which is not begun. -/
def Task.Replies (pc : Pc) (a : Addr) (s : Task) : Prop :=
  s = .respond a ∨ s = .responding a ∧ pc = .lockWait .response a

/-- **Task `n` is a worker.** -/
def Works (σ : Side) (n : TaskId) : Option Work → Prop
  | none => σ.task n = .idle ∨
      ∃ a, σ.task n = .responding a ∧ σ.rpc.pc n ≠ .lockWait .response a
  | some (s, .inl o) => ∃ a m, σ.task n = .handle a ∧ σ.rpc.chan.msgs a = some m ∧
      m.hdr.seqid = s ∧ Asks o m
  | some (s, .inr x) => ∃ a m, (σ.task n).Replies (σ.rpc.pc n) a ∧ σ.rpc.chan.msgs a = some m ∧
      m.hdr.seqid = s ∧ result m = x

/-! ## Where a worker is -/

/-- A handler that has not run. -/
theorem Works.handling (h : Works σ n w) (ht : σ.task n = .handle a)
    (hm : σ.rpc.chan.msgs a = some m) : ∃ o, w = some (m.hdr.seqid, .inl o) ∧ Asks o m := by
  match w, h with
  | none, h =>
      rcases h with h | ⟨b, h, -⟩ <;> rw [ht] at h <;> cases h
  | some (s, .inl o), ⟨b, m₁, hb, hm₁, hs, ha⟩ =>
      obtain rfl := Task.handle.inj (ht.symm.trans hb)
      obtain rfl := Option.some.inj (hm.symm.trans hm₁)
      exact ⟨o, by rw [hs], ha⟩
  | some (s, .inr x), ⟨b, m₁, hb, _⟩ =>
      rcases hb with hb | ⟨hb, -⟩ <;> rw [ht] at hb <;> cases hb

/-- A handler that has its answer. -/
theorem Works.replying (h : Works σ n w) (ht : (σ.task n).Replies (σ.rpc.pc n) a)
    (hm : σ.rpc.chan.msgs a = some m) : w = some (m.hdr.seqid, .inr (result m)) := by
  match w, h with
  | none, h =>
      rcases h with h | ⟨b, h, hne⟩ <;> rcases ht with ht | ⟨ht, hpc⟩ <;> rw [ht] at h <;> cases h
      exact absurd hpc hne
  | some (s, .inl o), ⟨b, m₁, hb, _⟩ =>
      rcases ht with ht | ⟨ht, -⟩ <;> rw [ht] at hb <;> cases hb
  | some (s, .inr x), ⟨b, m₁, hb, hm₁, hs, hx⟩ =>
      obtain rfl : a = b := by
        rcases ht with ht | ⟨ht, -⟩ <;> rcases hb with hb | ⟨hb, -⟩ <;> rw [ht] at hb <;>
          cases hb <;> rfl
      obtain rfl := Option.some.inj (hm.symm.trans hm₁)
      rw [hs, hx]

/-- A task that is sending has nothing any more. -/
theorem Works.sending (h : Works σ n w) (ht : σ.task n = .responding a)
    (hpc : σ.rpc.pc n ≠ .lockWait .response a) : w = none := by
  match w, h with
  | none, _ => rfl
  | some (s, .inl o), ⟨b, m₁, hb, _⟩ =>
      rw [ht] at hb
      cases hb
  | some (s, .inr x), ⟨b, m₁, hb, _⟩ =>
      rcases hb with hb | ⟨hb, hw⟩ <;> rw [ht] at hb <;> cases hb
      exact absurd hw hpc

theorem Works.idle (h : Works σ n w) (ht : σ.task n = .idle) : w = none := by
  match w, h with
  | none, _ => rfl
  | some (s, .inl o), ⟨b, m₁, hb, _⟩ =>
      rw [ht] at hb
      cases hb
  | some (s, .inr x), ⟨b, m₁, hb, _⟩ =>
      rcases hb with hb | ⟨hb, -⟩ <;> rw [ht] at hb <;> cases hb

/-- **A task that does nothing.** -/
theorem Works.still (h : Works σ n w) (hs : Still σ σ' n) : Works σ' n w := by
  obtain ⟨htask, hpc, hmsg, -⟩ := hs
  match w, h with
  | none, h => exact h.imp (fun e => htask.trans e) fun ⟨a, e, hne⟩ =>
      ⟨a, htask.trans e, by rw [hpc]; exact hne⟩
  | some (s, .inl o), ⟨b, m, hb, hm, hr⟩ =>
      exact ⟨b, m, htask.trans hb, (hmsg b (by rw [hb]; rfl)).trans hm, hr⟩
  | some (s, .inr x), ⟨b, m, hb, hm, hr⟩ =>
      have ha : (σ.task n).msg = some b := by rcases hb with hb | ⟨hb, -⟩ <;> rw [hb] <;> rfl
      exact ⟨b, m, by rw [htask, hpc]; exact hb, (hmsg b ha).trans hm, hr⟩

/-! ## The steps of a task -/

/-- The server's task in a call of the channel is in `rpc_response`. -/
theorem Speaks.responding {k : Kind} (h : Speaks .server σ n) (hO : Owned ioChanCfg σ)
    (hc : (σ.rpc.pc n).call = some (k, a)) : k = .response ∧ σ.task n = .responding a := by
  rcases (hO.fits n).of_call hc with ⟨⟨op, ht⟩, -⟩ | ⟨ht, rfl⟩
  · have hof := h.of
    rw [ht] at hof
    exact hof.elim
  · exact ⟨rfl, ht⟩

/-- **What a step of the server comes to**: nothing that a worker has to do
with, or an answer is begun. -/
inductive Server (σ σ' : Side) (w : TaskId → Option Work) : Prop
  | stutters : σ'.rpc.log = σ.rpc.log → (∀ t, Works σ' t (w t)) → Server σ σ' w
  | replies (n : TaskId) (m : Msg) : w n = some (m.hdr.seqid, .inr (result m)) →
      σ'.rpc.log = σ.rpc.log ++ [m.wire] → Deliverable ioCfg m →
      (∀ t, Works σ' t (Function.update w n none t)) → Server σ σ' w

section

variable {w : TaskId → Option Work} (h : ∀ t, Works σ t (w t))
include h

/-- One task goes on, with other work or none. -/
theorem works_update {x : Option Work} (hs : ∀ t, t ≠ n → Still σ σ' t) (hn : Works σ' n x)
    (t : TaskId) : Works σ' t (Function.update w n x t) := by
  by_cases htn : t = n
  · rw [htn, Function.update_self]
    exact hn
  · rw [Function.update_of_ne htn]
    exact (h t).still (hs t htn)

/-- One task goes on, with what it has. -/
theorem works_own (hs : ∀ t, t ≠ n → Still σ σ' t) (hn : Works σ' n (w n)) (t : TaskId) :
    Works σ' t (w t) := by
  have hu := works_update h hs hn t
  rwa [Function.update_eq_self] at hu

variable (hO' : Owned ioChanCfg σ') (hsp' : ∀ t, Speaks .server σ' t)
include hO' hsp'

/-- **An answer is begun.** -/
theorem server_replies (hs : ∀ t, t ≠ n → Still σ σ' t)
    (hw : w n = some (m.hdr.seqid, .inr (result m))) (hlog : σ'.rpc.log = σ.rpc.log ++ [m.wire])
    (hpc : σ'.rpc.pc n = .send .response a .header m.hdrBytes) (hm : σ'.rpc.chan.msgs a = some m) :
    Server σ σ' w := by
  have hcall : (σ'.rpc.pc n).call = some (.response, a) := by rw [hpc]; rfl
  obtain ⟨-, ht⟩ := (hsp' n).responding hO' hcall
  refine .replies n m hw hlog ((hsp' n).sends hO' hcall hm).deliverable
    (works_update h hs (.inr ⟨a, ht, ?_⟩))
  rw [hpc]
  exact Pc.noConfusion

variable (hO : Owned ioChanCfg σ) (hsp : ∀ t, Speaks .server σ t)
include hO hsp

/-- **Every step** of the server but the run of a handler and what its
receiver reads. -/
theorem server_step (he : act.Enabled ioChanCfg .server σ) (hd : Did ioChanCfg .server σ act σ')
    (hplain : StoreAction.Plain act) (hk : ∀ k n, act ≠ .recvTake k n) : Server σ σ' w := by
  have hstill : ∀ t, act.actor ≠ some t → Still σ σ' t := fun t ht => hO.still he hd ht hk
  have hothers : ∀ {n}, act.actor = some n → ∀ t, t ≠ n → Still σ σ' t := fun hn t htn =>
    hstill t fun e => htn (Option.some.inj (e.symm.trans hn))
  have hlog := fun hact => hO.log_same he hd hact
  have hclient : ∀ {n s}, σ.task n = s → s.Of .server := fun ht => ht ▸ (hsp _).of
  cases hd with
  | waits => exact .stutters rfl h
  | start n op => exact hplain.elim
  | getData ht _ => exact (hclient ht).elim
  | getMsg ht _ => exact (hclient ht).elim
  | fill ht _ _ => exact (hclient ht).elim
  | request ht _ => exact (hclient ht).elim
  | finish => exact hplain.elim
  | @resume n ρ hx =>
      obtain ⟨k, a, m, hpc, hm, -, rfl⟩ := State.resume_cases hx
      obtain ⟨rfl, ht⟩ := (hsp n).responding hO (by rw [hpc]; rfl)
      exact server_replies h hO' hsp' (hothers rfl) ((h n).replying (.inr ⟨ht, hpc⟩) hm) rfl
        (Function.update_self ..) hm
  | @write n r ρ hw hx =>
      obtain ⟨k, a, part, rest, hpc, hcases⟩ := acts_write he.2 hx
      obtain ⟨rfl, ht⟩ := (hsp n).responding hO (by rw [hpc]; rfl)
      refine .stutters (hlog (by simp)) (works_own h (hothers rfl) ?_)
      rw [(h n).sending ht (by rw [hpc]; exact Pc.noConfusion)]
      rcases hcases with ⟨-, rfl⟩ | ⟨j, m, rfl, hm, ⟨part', rest', -, ha⟩ | ⟨-, hk, -⟩ |
        ⟨hleft, -⟩⟩
      · exact .inr ⟨a, ht, by rw [hpc]; exact Pc.noConfusion⟩
      · refine .inr ⟨a, ht, ?_⟩
        show ρ.pc n ≠ _
        rw [pc_of_acts ha]
        exact Pc.noConfusion
      · cases hk
      · simp [Side.completes, hpc, hm, hleft] at hw
  | @responded n r a τ ρ hw hx hput =>
      obtain ⟨m, l, hm, hu, hcall, -⟩ := hO.completed he.2 hw hx
      obtain ⟨-, ht⟩ := (hsp n).responding hO hcall
      obtain ⟨j, part, rest, m', -, hpc, -⟩ := completes_cases hw
      refine .stutters (hlog (by simp)) (works_own h (hothers rfl) ?_)
      rw [(h n).sending ht (by rw [hpc]; exact Pc.noConfusion)]
      exact .inl (Function.update_self ..)
  | @wake n ρ hx =>
      obtain ⟨a, m, hpc, ha⟩ := acts_wake hx
      obtain ⟨hk, -⟩ := (hsp n).responding hO (by rw [hpc]; rfl : _ = some (Kind.request, a))
      cases hk
  | handle => exact hplain.elim
  | @respond n a ρ ht hx =>
      obtain ⟨m, m', hm, he', hm', hl⟩ := locks_response hO.enabled hx
      have hw : w n = some (m'.hdr.seqid, .inr (result m')) := by
        rw [(h n).replying (.inl ht) hm, he']
        rfl
      cases hl with
      | begins hlog hpc => exact server_replies h hO' hsp' (hothers rfl) hw hlog hpc hm'
      | waits hlog hpc =>
          refine .stutters hlog (works_own h (hothers rfl) ?_)
          rw [hw]
          exact ⟨a, _, .inr ⟨Function.update_self .., hpc⟩, hm', rfl, rfl⟩
  | recvStart hx =>
      exact .stutters (hlog (by simp)) fun t => (h t).still (hstill t (by simp [SideAction.actor]))
  | recvTake => exact absurd rfl (hk _ _)
  | recvAgain hx =>
      exact .stutters (hlog (by simp)) fun t => (h t).still (hstill t (by simp [SideAction.actor]))
  | recvData hget hx =>
      exact .stutters (hlog (by simp)) fun t => (h t).still (hstill t (by simp [SideAction.actor]))
  | arrive hx =>
      exact .stutters (hlog (by simp)) fun t => (h t).still (hstill t (by simp [SideAction.actor]))

omit hO' hsp' hsp

/-- **What the server's receiver reads**: nothing that a worker has to do
with, or a request for the new task `n`. -/
theorem server_takes {k : ℕ} {ms : List Msg} (hms : ∀ m ∈ ms, Role.client.Sends m)
    (hs : σ.rpc.recv.taken ++ σ.rpc.inq <+: frames ms) (hidle : σ.task n = .idle)
    (he : (Rpc.Action.recvTake k).Allowed ioChanCfg σ.rpc) (hq : σ.rpc.recv = .receiving b q)
    (hx : (Rpc.Action.recvTake k).exec ioChanCfg σ.rpc = some ρ) :
    (ρ.recv.taken ++ ρ.inq = σ.rpc.recv.taken ++ σ.rpc.inq ∧
      ∀ t, Works (Side.received { σ with rpc := ρ } b n) t (w t)) ∨
    ∃ m ms', ms = m :: ms' ∧ σ.rpc.recv.taken ++ σ.rpc.inq = m.wire ++ (ρ.recv.taken ++ ρ.inq) ∧
      w n = none ∧ ∀ o, Asks o (.ofWhole ioCfg m.wire) →
        ∀ t, Works (Side.received { σ with rpc := ρ } b n) t
          (Function.update w n (some ((Msg.ofWhole ioCfg m.wire).hdr.seqid, .inl o)) t) := by
  have htaken : ∀ {v}, q.taken ++ σ.rpc.inq = v → σ.rpc.recv.taken ++ σ.rpc.inq = v := fun e => by
    rw [hq, ← e]
    rfl
  rcases recvTake_took hO.base hO.enabled hO.receives he hq hx with
    ⟨q', hq', hc, hpc, -, hst⟩ | ⟨v, m, hv, hst, hm, -, hreq, hl', hpc, hmsgs⟩ |
    ⟨v, m, a, p, t', hv, hst, hm, -, hreq, -⟩ | ⟨-, -, -, hl⟩
  · left
    have e : Side.received { σ with rpc := ρ } b n = { σ with rpc := ρ } := by
      simp only [Side.received, hq']
    rw [e]
    refine ⟨?_, fun t => (h t).still (still_of_same rfl (by rw [hpc]) (by rw [hc]))⟩
    rw [hq', hq]
    exact hst
  · right
    have hst := htaken hst
    rw [hst] at hs
    obtain ⟨m₀, ms', rfl, rfl, -⟩ := heard_first hms hs hv
    have hb : ρ.chan.msgs b = some m := by rw [hmsgs, Function.update_self]
    have e : Side.received { σ with rpc := ρ } b n = { σ with
        rpc := ρ, payloadAt := Function.update σ.payloadAt b σ.buf
        task := Function.update σ.task n (.handle b) } := by
      simp only [Side.received, hl', hb, hreq, or_true, if_true, Side.setTask]
    rw [e]
    refine ⟨m₀, ms', rfl, by rw [hst, hl']; rfl, (h n).idle hidle, fun o ho =>
      works_update h (fun t htn => ?_) ⟨b, m, Function.update_self .., hb, ?_, ?_⟩⟩
    · refine hO.still_received hq htn (Function.update_of_ne htn ..) (by rw [hpc]) fun y hy _ => ?_
      show ρ.chan.msgs y = _
      rw [hmsgs, Function.update_of_ne hy]
    · rw [hm]
      rfl
    · rw [hm]
      exact ho.congr rfl rfl rfl rfl rfl
  · -- the client sends no responses
    rw [htaken hst] at hs
    obtain ⟨m₀, ms', rfl, rfl, -⟩ := heard_first hms hs hv
    obtain ⟨hserv, hyes⟩ := hms m₀ List.mem_cons_self
    have hd := hserv.toDeliverable
    rw [hm, show ({ Msg.ofWhole ioChanCfg.toRecvCfg m₀.wire with use := .attached a } : Msg).hdr =
      (Msg.ofWhole ioCfg m₀.wire).hdr from rfl, (alike_ofWhole hd.framed).hdr, hyes] at hreq
    cases hreq
  · exact absurd hl (recv_ne_left hO hms hs he hx)

include hsp

/-- **A handler runs**: it waits for a data buffer, or has served its
request. -/
theorem server_handles {dev : Device} {calloc : Option DataAddr}
    (he : (SideAction.handle n dev calloc).Enabled ioChanCfg .server σ)
    (hx : (SideAction.handle n dev calloc).exec ioChanCfg .server σ = some σ')
    (ht : σ.task n = .handle a) (hm : σ.rpc.chan.msgs a = some m) :
    σ'.rpc.log = σ.rpc.log ∧ ∃ o, w n = some (m.hdr.seqid, .inl o) ∧ Asks o m ∧
      Deliverable ioCfg m ∧ (σ'.task n = .handle a ∧ (∀ t, Works σ' t (w t)) ∨
      σ'.task n ≠ .handle a ∧ ∃ r, rpcMsgHandler dev (cmd m) = some r ∧
        ∀ t, Works σ' t
          (Function.update w n (some (m.hdr.seqid, .inr (result (answered m r)))) t)) := by
  have hd := did hx
  obtain ⟨o, hw, hasks⟩ := (h n).handling ht hm
  have hserv := (hsp n).holds a m (by rw [ht]; rfl) hm
  rw [ht] at hserv
  have hothers : ∀ t, t ≠ n → Still σ σ' t := fun t htn =>
    hO.still he hd (fun e => htn (Option.some.inj e).symm) (by simp)
  refine ⟨hO.log_same he hd (by simp), o, hw, hasks, Servable.toDeliverable hserv, ?_⟩
  cases hd with
  | waits => exact .inl ⟨ht, h⟩
  | @handle n dev calloc a₁ m₁ r data ptr ρ ht₁ hm₁ hr hsw hx =>
      obtain rfl := Task.handle.inj (ht.symm.trans ht₁)
      obtain rfl := Option.some.inj (hm.symm.trans hm₁)
      obtain ⟨m₂, ha⟩ := acts_edit n hx
      obtain rfl := Option.some.inj (hm.symm.trans ha.msg)
      refine .inr ⟨by simp, r, hr, works_update h hothers ⟨a, answered m r, ?_, ?_, rfl, rfl⟩⟩
      · exact .inl (Function.update_self ..)
      · show ρ.chan.msgs a = _
        rw [ha.msgs, Function.update_self]
        rfl

end

end Splitter

end VmwareProto
