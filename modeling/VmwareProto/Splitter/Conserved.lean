import VmwareProto.BufPool.Setup
import VmwareProto.Splitter.Clean
import VmwareProto.Splitter.Session
/-!
# RPC buffers are conserved

Whatever the client's tasks and the server do, and in whatever order: each
step uses and puts only buffers that are out, and once nothing is going on
either end has out the one message buffer its receiver waits with.
-/

namespace VmwareProto

namespace Splitter

open Rpc
open Libtask (TaskId)

variable {role : Role} {σ σ' : Side} {n t : TaskId} {a b alloc : Addr} {m m' : Msg}
  {act : SideAction} {ρ : Rpc.State} {ms : List Msg}

/-! ## What a step leaves of the messages -/

section

variable (h : ∀ t, Speaks role σ t) (hO : Owned ioChanCfg σ)
include h hO

/-- A message that is put, with its response. -/
theorem speaks_put {l : Libtask.QLock} {c : Channel} (hm : σ.rpc.chan.msgs a = some m)
    (hu : ∀ t, m.use ≠ .request t)
    (hput : Channel.msgPut ioChanCfg { σ.rpc.chan with fdlock := l } a = some c)
    (hc : σ'.rpc.chan = c) (htask : σ'.task = Function.update σ.task n .idle) (t : TaskId) :
    Speaks role σ' t := by
  refine speaks_idle h htask (fun b q hq => ?_) t
  rw [hc, hO.msgPut hm hu hput] at hq
  split at hq
  · cases hq
  · exact hq

/-- **A read of the receiver**: a request comes from the client, and goes to
the server's handler. -/
theorem speaks_recvTake {k : ℕ} {q : Recv} (hms : ∀ m ∈ ms, role.peer.Sends m)
    (hs : σ.rpc.recv.taken ++ σ.rpc.inq <+: frames ms)
    (he : (Rpc.Action.recvTake k).Allowed ioChanCfg σ.rpc) (hq : σ.rpc.recv = .receiving b q)
    (hx : (Rpc.Action.recvTake k).exec ioChanCfg σ.rpc = some ρ) (t : TaskId) :
    Speaks role (Side.received { σ with rpc := ρ } b n) t := by
  have hnot : ∀ {t y}, (σ.task t).msg = some y → y ≠ b := fun hy => hO.not_buffer hq hy
  rcases recvTake_took hO.base hO.enabled hO.receives he hq hx with
    ⟨q', hq', hc, -⟩ | ⟨w, m, hw, hst, hm, -, hreq, hl', -, hmsgs⟩ |
    ⟨w, m, a, p, t', hw, -, hm, -, hreq, hcc, hl', hab, hp, -, -, -, hmsg⟩ | ⟨-, -, -, hl⟩
  · have e : Side.received { σ with rpc := ρ } b n = { σ with rpc := ρ } := by
      simp only [Side.received, hq']
    rw [e]
    refine (h t).old rfl fun y m' _ hm' => ⟨m', ?_, .refl m'⟩
    rw [← hc]
    exact hm'
  · rw [hq, show RecvTask.taken (.receiving b q) = q.taken from rfl, hst] at hs
    obtain ⟨m₀, ms', rfl, rfl, -⟩ := heard_first hms hs hw
    have hsends := hms m₀ List.mem_cons_self
    have hal := alike_ofWhole hsends.deliverable.framed
    have hreq₀ : m₀.hdr.isReq = true := by
      rw [← hal.hdr]
      rw [hm] at hreq
      exact hreq
    obtain ⟨hclient, hserv⟩ := hsends.servable hreq₀
    obtain rfl : role = .server := by cases role <;> simp [Role.peer] at hclient ⊢
    have hb : ρ.chan.msgs b = some m := by rw [hmsgs, Function.update_self]
    have e : Side.received { σ with rpc := ρ } b n = { σ with
        rpc := ρ, payloadAt := Function.update σ.payloadAt b σ.buf
        task := Function.update σ.task n (.handle b) } := by
      simp only [Side.received, hl', hb, hreq, or_true, if_true, Side.setTask]
    rw [e]
    refine speaks_update (n := n) (s := .handle b) h rfl trivial (fun y m' hy hm' => ?_)
      (fun t y m' _ hy hm' => ?_) t
    · obtain rfl : b = y := Option.some.inj hy
      obtain rfl := Option.some.inj (hb.symm.trans hm')
      rw [hm]
      exact (hal.servable hserv).same ⟨rfl, rfl, rfl⟩
    · simp only [hmsgs, Function.update_of_ne (hnot hy)] at hm'
      exact ⟨m', hm', .refl m'⟩
  · have hb : ρ.chan.msgs b = some m := by rw [hmsg, if_neg hab.symm, if_pos rfl]
    have e : Side.received { σ with rpc := ρ } b n = { σ with
        rpc := ρ, payloadAt := Function.update σ.payloadAt b σ.buf } := by
      simp only [Side.received, hl', hb, hreq, hcc, Bool.false_eq_true, or_self, if_false]
    rw [e]
    refine (h t).old rfl fun y m' hy hm' => ?_
    simp only [hmsg, if_neg (hnot hy)] at hm'
    split at hm'
    · rename_i hya
      obtain rfl := Option.some.inj hm'
      exact ⟨p, by rw [hya, hp], rfl, rfl, rfl⟩
    · exact ⟨m', hm', .refl m'⟩
  · exact absurd hl (recv_ne_left hO hms hs he hx)

/-- **Every step** of a program leaves its tasks with messages that hold what
they should. -/
theorem speaks_step (hms : ∀ m ∈ ms, role.peer.Sends m)
    (hs : σ.rpc.recv.taken ++ σ.rpc.inq <+: frames ms)
    (he : act.Enabled ioChanCfg role σ) (hd : Did ioChanCfg role σ act σ') (t : TaskId) :
    Speaks role σ' t := by
  cases hd with
  | waits => exact h t
  | @start n op =>
      obtain ⟨rfl, -, hv⟩ := he
      refine speaks_update (n := n) h rfl ?_ (fun y m' hy _ => ?_) ?_ t
      · split <;> exact hv
      · split at hy <;> cases hy
      · exact fun _ y m' _ _ hm' => ⟨m', hm', .refl m'⟩
  | @getData n calloc op d data ht hget =>
      have hof := (h n).of
      rw [ht] at hof
      refine speaks_update (n := n) (s := .getMsg op (some d)) h rfl ?_
        (fun y m' hy _ => by cases hy) ?_ t
      · cases role with
        | client => exact hof
        | server => exact hof.elim
      · exact fun _ y m' _ _ hm' => ⟨m', hm', .refl m'⟩
  | @getMsg n alloc a op o c ht hget =>
      have hof := (h n).of
      rw [ht] at hof
      cases role with
      | server => exact hof.elim
      | client =>
          obtain ⟨lists, pending, hS⟩ := hO.base.sound
          obtain ⟨-, hnone, m, hmsgs, -⟩ := msgGet_spec hS he.2.1 hget
          obtain ⟨m₁, hm₁, hgot⟩ := gotFor_of_msgGet rfl hof hget
          refine speaks_update (n := n) (s := .fill op a) h rfl hof (fun y m' hy hm' => ?_)
            (fun t y m' htn hy hm' => ?_) t
          · obtain rfl : a = y := Option.some.inj hy
            obtain rfl := Option.some.inj (hm₁.symm.trans hm')
            exact hgot
          · have hya : y ≠ a := by
              rintro rfl
              obtain ⟨q, hq⟩ := hO.exists_msg hy
              rw [hnone] at hq
              cases hq
            simp only [hmsgs, Function.update_of_ne hya] at hm'
            exact ⟨m', hm', .refl m'⟩
  | @fill n a op m ρ ht hm hx =>
      have hsp := h n
      have hmsg : (σ.task n).msg = some a := by rw [ht]; rfl
      have hgot := hsp.holds a m hmsg hm
      have hof := hsp.of
      rw [ht] at hgot hof
      obtain ⟨m₁, ha⟩ := acts_edit n hx
      obtain rfl := Option.some.inj (hm.symm.trans ha.msg)
      cases role with
      | server => exact hof.elim
      | client =>
          refine speaks_acts (s := .filled op a) h hO ha hmsg rfl hof ?_ t
          have hfill : SameText (op.fill m) { m with
              hdr := { m.hdr with
                msglen := m.hdr.msglen, payloadlen := m.hdr.payloadlen, status := m.hdr.status }
              body := (op.fill m).body, payload := m.payload } := by
            cases op <;> exact ⟨rfl, rfl, rfl⟩
          exact (GotFor.servable hgot hof).same hfill
  | @request n a op ρ ht hx =>
      have hsp := h n
      have hmsg : (σ.task n).msg = some a := by rw [ht]; rfl
      obtain ⟨m, m', p, -, -, -, rfl, ha⟩ := acts_request hO.enabled hx
      have hserv := hsp.holds a m hmsg ha.msg
      have hof := hsp.of
      rw [ht] at hserv hof
      cases role with
      | server => exact hof.elim
      | client =>
          refine speaks_acts (s := .calling op a) h hO ha hmsg rfl hof ⟨?_, MsgHdr.isReq_setReq _⟩ t
          exact Servable.congr hserv rfl rfl (isConnClosed_setReq _) (getMsgType_setReq _) rfl rfl
  | @finish n a op m τ ρ ht hm hput hx =>
      have e := Side.databufPut_cases hput
      rw [show τ.rpc = σ.rpc by rw [e]] at hx
      simp only [Rpc.Action.exec, Option.bind_eq_bind, Option.bind_eq_some_iff] at hx
      obtain ⟨c, hc, hx⟩ := hx
      obtain rfl := Option.some.inj hx
      have hu := use_of_owned (hO.returned ht he.2) hm
      refine speaks_put h hO (l := σ.rpc.chan.fdlock) (n := n) hm (by simp [hu]) hc rfl ?_ t
      rw [e]
      rfl
  | resume hx =>
      obtain ⟨k, a, m, p, -, -, -, -, ha⟩ := acts_resume hx
      exact speaks_same h ha (.refl m) t
  | @write n r ρ hc hx =>
      obtain ⟨k, a, part, rest, hpc, ⟨-, rfl⟩ | ⟨j, m, rfl, hm, ⟨part', rest', -, ha⟩ |
        ⟨-, rfl, ha⟩ | ⟨hleft, rfl, -⟩⟩⟩ := acts_write he.2 hx
      · exact h t
      · exact speaks_same h ha (.refl m) t
      · exact speaks_same h ha ⟨rfl, rfl, rfl⟩ t
      · simp [Side.completes, hpc, hm, hleft] at hc
  | @responded n r a τ ρ hc hx hput =>
      have e := Side.databufPut_cases hput
      obtain ⟨m, l, hm, hu, -, hmput, -⟩ := hO.completed he.2 hc hx
      refine speaks_put h hO (n := n) hm (by simp [hu]) hmput ?_ ?_ t <;> rw [e] <;> rfl
  | wake hx =>
      obtain ⟨a, m, -, ha⟩ := acts_wake hx
      exact speaks_same h ha ⟨rfl, rfl, rfl⟩ t
  | @handle n dev calloc a m r data ptr ρ ht hm hr hsw hx =>
      have hsp := h n
      have hmsg : (σ.task n).msg = some a := by rw [ht]; rfl
      have hserv := hsp.holds a m hmsg hm
      have hof := hsp.of
      rw [ht] at hserv hof
      obtain ⟨m₁, ha⟩ := acts_edit n hx
      obtain rfl := Option.some.inj (hm.symm.trans ha.msg)
      cases role with
      | client => exact hof.elim
      | server =>
          have hdel := Servable.answered hserv hr
          exact speaks_acts (s := .respond a) h hO ha hmsg rfl trivial hdel t
  | @respond n a ρ ht hx =>
      have hsp := h n
      have hmsg : (σ.task n).msg = some a := by rw [ht]; rfl
      obtain ⟨m, m', p, -, -, -, rfl, ha⟩ := acts_response hO.enabled hx
      have hdel := hsp.holds a m hmsg ha.msg
      have hof := hsp.of
      rw [ht] at hdel hof
      cases role with
      | client => exact hof.elim
      | server =>
          refine speaks_acts (s := .responding a) h hO ha hmsg rfl trivial
            ⟨?_, MsgHdr.isReq_setResp _⟩ t
          exact Deliverable.congr hdel rfl rfl (isConnClosed_setResp _) rfl rfl
  | recvStart hx =>
      obtain ⟨b, hnone, -, -, hmsg⟩ := hO.started he hx
      refine (h t).old rfl fun y m' hy hm' => ⟨m', ?_, .refl m'⟩
      have hyb : y ≠ b := by
        rintro rfl
        obtain ⟨q, hq⟩ := hO.exists_msg hy
        rw [hnone] at hq
        cases hq
      simp only [hmsg, if_neg hyb] at hm'
      exact hm'
  | recvTake hq hx => exact speaks_recvTake h hO hms hs he.1 hq hx t
  | recvAgain hx =>
      rw [hO.again hx]
      exact h t
  | recvData hget hx =>
      obtain ⟨b, q, q', -, -, -, rfl⟩ := hO.obtained he.1 hx
      exact (h t).old rfl fun y m' _ hm' => ⟨m', hm', .refl m'⟩
  | arrive hx =>
      obtain rfl := Option.some.inj hx
      exact (h t).old rfl fun y m' _ hm' => ⟨m', hm', .refl m'⟩

end

/-! ## Both ends -/

/-- What one end has got of what the other has sent: whole messages, and what
its receiver is working on or has yet to read. -/
structure Hears (σ π : Side) : Prop where
  arrived : σ.rpc.arrived.flatten <+: π.rpc.sent
  heard : ∃ ws, ws <+: π.rpc.log ∧
    σ.rpc.arrived.flatten = ws.flatten ++ (σ.rpc.recv.taken ++ σ.rpc.inq)

/-- **The invariant** of a session. -/
structure Session.Sound (σ : Session) : Prop where
  owned : ∀ role, Owned ioChanCfg (σ role)
  speaks : ∀ role n, Speaks role (σ role) n
  sends : ∀ role, ∀ w ∈ (σ role).rpc.log, ∃ m, role.Sends m ∧ w = m.wire
  hears : ∀ role, Hears (σ role) (σ role.peer)

/-- The messages behind a row of bytes. -/
theorem exists_messages {ws : List (List Byte)} (h : ∀ w ∈ ws, ∃ m, role.Sends m ∧ w = m.wire) :
    ∃ ms : List Msg, (∀ m ∈ ms, role.Sends m) ∧ ws = ms.map Msg.wire := by
  induction ws with
  | nil => exact ⟨[], by simp, rfl⟩
  | cons w ws ih =>
      obtain ⟨m, hm, rfl⟩ := h w List.mem_cons_self
      obtain ⟨ms, hms, rfl⟩ := ih fun w hw => h w (List.mem_cons_of_mem _ hw)
      exact ⟨m :: ms, by simpa using ⟨hm, hms⟩, rfl⟩

/-- **What is being heard** is a beginning of the messages that come next. -/
theorem Hears.frames {π : Side} (h : Hears σ π) (hO : Owned ioChanCfg π)
    (hs : ∀ w ∈ π.rpc.log, ∃ m, role.Sends m ∧ w = m.wire) :
    ∃ (ws : List (List Byte)) (ms : List Msg), π.rpc.log = ws ++ ms.map Msg.wire ∧
      (∀ m ∈ ms, role.Sends m) ∧
      σ.rpc.arrived.flatten = ws.flatten ++ (σ.rpc.recv.taken ++ σ.rpc.inq) ∧
      σ.rpc.recv.taken ++ σ.rpc.inq <+: Rpc.frames ms := by
  obtain ⟨ws, ⟨rest, hlog⟩, harr⟩ := h.heard
  have hrest : ∀ w ∈ rest, ∃ m, role.Sends m ∧ w = m.wire := fun w hw =>
    hs w (by rw [← hlog]; exact List.mem_append_right _ hw)
  obtain ⟨ms, hms, rfl⟩ := exists_messages hrest
  refine ⟨ws, ms, hlog.symm, hms, harr, ?_⟩
  have hpre := h.arrived.trans (sent_begins hO.reach)
  rw [harr, ← hlog, List.flatten_append] at hpre
  exact (List.prefix_append_right_inj _).1 hpre

/-- A message that is being sent is one its end sends. -/
theorem Speaks.sends {k : Kind} (h : Speaks role σ n) (hO : Owned ioChanCfg σ)
    (hc : (σ.rpc.pc n).call = some (k, a)) (hm : σ.rpc.chan.msgs a = some m) : role.Sends m := by
  obtain ⟨hof, hholds⟩ := h
  rcases (hO.fits n).of_call hc with ⟨⟨op, ht⟩, -⟩ | ⟨ht, -⟩
  · rw [ht] at hof hholds
    cases role with
    | client => exact hholds a m rfl hm
    | server => exact hof.elim
  · rw [ht] at hof hholds
    cases role with
    | client => exact hof.elim
    | server => exact hholds a m rfl hm

section

variable {S S' : Session} (h : S.Sound)
include h

/-- What an end hears. -/
theorem Session.Sound.frames (role : Role) :
    ∃ (ws : List (List Byte)) (ms : List Msg),
      (S role.peer).rpc.log = ws ++ ms.map Msg.wire ∧ (∀ m ∈ ms, role.peer.Sends m) ∧
      (S role).rpc.arrived.flatten = ws.flatten ++ ((S role).rpc.recv.taken ++ (S role).rpc.inq) ∧
      (S role).rpc.recv.taken ++ (S role).rpc.inq <+: Rpc.frames ms :=
  (h.hears role).frames (h.owned role.peer) (h.sends role.peer)

/-- **Nothing goes wrong**: what is sent can be delivered, and what is
received is what was sent. -/
theorem Session.Sound.proper (he : act.Enabled ioChanCfg role (S role)) :
    Proper ioChanCfg role (S role) act where
  fits n a m hact ht hm := by
    have hholds := (h.speaks role n).holds a m ht hm
    rcases hact with rfl | rfl
    · obtain ⟨op, a', hn⟩ := he
      rw [hn] at hholds
      exact Servable.toDeliverable hholds
    · obtain ⟨a', hn⟩ := he
      rw [hn] at hholds
      exact hholds
  stays k n ρ hact hx := by
    subst hact
    obtain ⟨ws, ms, -, hms, -, hpre⟩ := h.frames role
    exact recv_ne_left (h.owned role) hms hpre he.1 hx

/-- **What is sent**, in one more step. -/
theorem Session.Sound.sends_step {x : Rpc.Action} (hO : Owned ioChanCfg σ')
    (hsp : ∀ n, Speaks role σ' n) (hx : CalmStep ioChanCfg (S role).rpc x σ'.rpc) :
    ∀ w ∈ σ'.rpc.log, ∃ m, role.Sends m ∧ w = m.wire := by
  intro w hw
  rcases log_cases (h.owned role).base id hx.allowed hx.exec with e | ⟨n, k, a, m, hb⟩
  · rw [e] at hw
    exact h.sends role w hw
  · rw [hb.log, List.mem_append, List.mem_singleton] at hw
    rcases hw with hw | rfl
    · exact h.sends role w hw
    · have hcall : (σ'.rpc.pc n).call = some (k, a) := by
        rw [hb.pc, Function.update_self]
        rfl
      exact ⟨m, (hsp n).sends hO hcall hb.msg, rfl⟩

/-- **What is heard**, in one more step of the end that hears. -/
theorem Session.Sound.hears_step {x : Rpc.Action} (hc : S.Carries role act)
    (hx : CalmStep ioChanCfg (S role).rpc x σ'.rpc) (harr : x.arrives = act.arrives)
    (hl : σ'.rpc.recv ≠ .left) : Hears σ' (S role.peer) := by
  have hO := h.owned role
  have hcar : (S role).rpc.arrived.flatten ++ act.arrives.flatten <+: (S role.peer).rpc.sent := by
    cases act with
    | arrive bs =>
        rw [SideAction.arrives, List.flatten_singleton]
        exact hc
    | _ =>
        have hall := (h.hears role).arrived
        simpa only [SideAction.arrives, List.flatten_nil, List.append_nil] using hall
  obtain ⟨ws, ms, hlog, hms, heq, hpre⟩ := h.frames role
  have hws : ws <+: (S role.peer).rpc.log := ⟨_, hlog.symm⟩
  by_cases hact : x.Receiving
  · have hr := received hO.base id hx.allowed hx.exec hact
    refine ⟨by rw [hr.arrived]; exact (h.hears role).arrived, ?_⟩
    -- a message that has been taken is the next one
    have htook : ∀ w, Whole ioCfg w → (S role).rpc.recv.taken ++ (S role).rpc.inq = w ++ σ'.rpc.inq →
        σ'.rpc.recv = .idle → ∃ ws, ws <+: (S role.peer).rpc.log ∧
          (S role).rpc.arrived.flatten = ws.flatten ++ (σ'.rpc.recv.taken ++ σ'.rpc.inq) := by
      intro w hw hst hidle
      rw [hst] at hpre heq
      obtain ⟨m, ms', rfl, rfl, -⟩ := heard_first hms hpre hw
      refine ⟨ws ++ [m.wire], ⟨ms'.map Msg.wire, by rw [hlog]; simp⟩, ?_⟩
      rw [heq, hidle, List.flatten_append, List.flatten_singleton, List.append_assoc]
      rfl
    rw [hr.arrived]
    obtain ⟨b, ⟨r, hrecv, hst, -⟩ | ⟨m, hrecv, -⟩ | ⟨w, hw, hst, -, hrecv, -⟩ |
      ⟨w, a, p, n, -, hw, hst, -, hrecv, -⟩⟩ := outcome hO.base hO.receives hx.allowed hx.exec hact
    · refine ⟨ws, hws, ?_⟩
      rw [heq, hrecv, ← hst]
      rfl
    · exact absurd hrecv hl
    · exact htook w hw hst hrecv
    · exact htook w hw hst hrecv
  · have hf := fields hO.base hx.allowed hx.exec hact
    refine ⟨?_, ws, hws, ?_⟩
    · rw [hf.arrived, harr, List.flatten_append]
      exact hcar
    · rw [hf.arrived, hf.inq, (moves hx.allowed hx.exec hact).1, List.flatten_append, heq]
      simp only [List.append_assoc]

/-- **The step lemma.** -/
theorem Session.Sound.step {x : SessionAction} (he : sessionSystem.enabled S x)
    (hx : sessionSystem.exec S x = some S') : S'.Sound := by
  obtain ⟨role, act⟩ := x
  obtain ⟨τ, hτ, rfl⟩ := Option.map_eq_some_iff.1 hx
  obtain ⟨he, hc⟩ := he
  have hd := did hτ
  have hp := h.proper he
  have hO := (h.owned role).step hp he hd
  obtain ⟨ws, ms, -, hms, -, hpre⟩ := h.frames role
  have hsp := speaks_step (h.speaks role) (h.owned role) hms hpre he hd
  have hne : role.peer ≠ role := by cases role <;> simp [Role.peer]
  -- what the step leaves of the streams
  obtain ⟨hsends, hhears, hsent, hlog⟩ : (∀ w ∈ τ.rpc.log, ∃ m, role.Sends m ∧ w = m.wire) ∧
      Hears τ (S role.peer) ∧ (S role).rpc.sent <+: τ.rpc.sent ∧ (S role).rpc.log <+: τ.rpc.log := by
    rcases (h.owned role).chan hp he hd with e | ⟨x, hx, harr, -⟩
    · have hh := h.hears role
      refine ⟨by rw [e]; exact h.sends role, ⟨by rw [e]; exact hh.arrived, by rw [e]; exact hh.heard⟩,
        ⟨[], by rw [e, List.append_nil]⟩, ⟨[], by rw [e, List.append_nil]⟩⟩
    · exact ⟨h.sends_step hO hsp hx, h.hears_step hc hx harr (open_reachable hO.reach).2.2,
        hx.sent (h.owned role).reach, hx.log (h.owned role).reach⟩
  have hrole : ∀ r, r = role ∨ r = role.peer := fun r => by
    cases r <;> cases role <;> simp [Role.peer]
  refine ⟨fun r => ?_, fun r n => ?_, fun r => ?_, fun r => ?_⟩
  · rcases hrole r with rfl | rfl
    · rw [Function.update_self]
      exact hO
    · rw [Function.update_of_ne hne]
      exact h.owned _
  · rcases hrole r with rfl | rfl
    · rw [Function.update_self]
      exact hsp n
    · rw [Function.update_of_ne hne]
      exact h.speaks _ n
  · rcases hrole r with rfl | rfl
    · rw [Function.update_self]
      exact hsends
    · rw [Function.update_of_ne hne]
      exact h.sends _
  · rcases hrole r with rfl | rfl
    · rw [Function.update_self, Function.update_of_ne hne]
      exact hhears
    · rw [Function.update_of_ne hne, peer_peer, Function.update_self]
      have hh := h.hears role.peer
      rw [peer_peer] at hh
      obtain ⟨ws, hws, heq⟩ := hh.heard
      exact ⟨hh.arrived.trans hsent, ws, hws.trans hlog, heq⟩

end

/-- **The run lemma.** -/
theorem sound_reachable {S : Session} (hr : sessionSystem.Reachable S) : S.Sound := by
  refine hr.invariant (fun S hs => ?_) fun S x S' h he hx => h.step he hx
  have hrpc : ∀ role, ∃ bufs, (S role).rpc = .initial bufs := fun role => by
    obtain ⟨⟨bufs, -, -, e⟩, -⟩ := hs role
    exact ⟨bufs, e⟩
  refine ⟨fun role => .initial (hs role), fun role n => ?_, fun role w hw => ?_, fun role => ?_⟩
  · have ht := (hs role).2.2 n
    exact ⟨by rw [ht]; cases role <;> trivial, fun a m hm => by rw [ht] at hm; cases hm⟩
  · obtain ⟨bufs, e⟩ := hrpc role
    rw [e] at hw
    cases hw
  · obtain ⟨bufs, e⟩ := hrpc role
    refine ⟨?_, [], List.nil_prefix, ?_⟩
    · rw [e]
      exact List.nil_prefix
    · rw [e]
      rfl

/-! ## When nothing is going on -/

/-- Nothing of a request is under way: the task is in no call, or waits for a
buffer to begin one. -/
def Task.Resting (cfg : Cfg) (c : Channel) : Task → Prop
  | idle | getData _ => True
  | getMsg _ o => o = none ∨ ¬c.CanGet cfg
  | _ => False

/-- No request is outstanding and no handler's task is live at this end, and
`_rpc_receive` waits for a header. -/
structure Side.Quiet (cfg : Cfg) (σ : Side) : Prop where
  tasks : ∀ n, (σ.task n).Resting cfg σ.rpc.chan
  receiver : ∃ b q, σ.rpc.recv = .receiving b q ∧ q.pc = .header

theorem Task.Resting.msg {cfg : Cfg} {c : Channel} {s : Task} (h : s.Resting cfg c) :
    s.msg = none := by
  cases s <;> first | rfl | exact h.elim

section

variable {cfg : Cfg} {q : Recv} (h : Owned cfg σ)
include h

/-- **The receiver's buffer is all that is out**, when no task has a message. -/
theorem Owned.issued_iff (hrest : ∀ n, (σ.task n).msg = none) (hq : σ.rpc.recv = .receiving b q) :
    σ.Issued a ↔ a = b := by
  have hmsg : ∀ c m, σ.rpc.chan.msgs c = some m → m.resp = none ∨
      ∃ c' m', σ.rpc.chan.msgs c' = some m' ∧ m'.resp = some c := fun c m hm => by
    obtain ⟨i, hi⟩ := (h.msgs.out_iff c).1 (by rw [Side.Issued, hm]; rfl)
    cases i with
    | task n =>
        rw [Side.msgIn, hrest] at hi
        cases hi
    | receiver =>
        rw [Side.msgIn, hq] at hi
        obtain rfl := Option.some.inj hi
        obtain ⟨m₁, hm₁, -, hr⟩ := h.buffer hq
        obtain rfl := Option.some.inj (hm.symm.trans hm₁)
        exact .inl hr
    | msg c' =>
        obtain ⟨m', hm', hr⟩ := Option.bind_eq_some_iff.1 hi
        exact .inr ⟨c', m', hm', hr⟩
  refine h.msgs.out_iff_eq (k := Place.receiver) (by rw [Side.msgIn, hq]; rfl) fun i hi => ?_
  cases i with
  | task n => exact hrest n
  | receiver => exact (hi rfl).elim
  | msg c =>
      rw [Side.msgIn]
      cases hm : σ.rpc.chan.msgs c with
      | none => rfl
      | some m =>
          -- a response has none of its own
          rcases hmsg c m hm with hr | ⟨c', m', hm', hr⟩
          · exact hr
          · obtain ⟨-, m₁, hm₁, hr₁⟩ := h.resp_msg hm' hr
            obtain rfl := Option.some.inj (hm.symm.trans hm₁)
            exact hr₁

/-- **The accounts of an end that is quiet.** -/
theorem Owned.issued_of_quiet (hquiet : σ.Quiet cfg) :
    σ.rpc.chan.issued = 1 ∧ σ.data.pool.issued = 0 := by
  obtain ⟨htasks, b, q, hq, hpc⟩ := hquiet
  have hmsgs : ∀ {a}, σ.Issued a ↔ a = b := h.issued_iff (fun n => (htasks n).msg) hq
  obtain ⟨issued, hc⟩ := counted_reachable h.reach.of_only
  have hissued : σ.rpc.chan.issued = 1 := by
    have hperm : issued.Perm [b] :=
      (List.perm_ext_iff_of_nodup hc.nodup (List.nodup_singleton b)).2 fun y => by
        rw [hc.mem, List.mem_singleton]
        exact hmsgs
    rw [hc.issued, hperm.length_eq]
    rfl
  refine ⟨hissued, ?_⟩
  -- so there are messages to get, and no task waits for one
  have hcan : σ.rpc.chan.CanGet cfg := by
    obtain ⟨lists, pending, hfree, -⟩ := h.base.sound
    by_cases he : σ.rpc.chan.links.isEmpty (.head none) = false
    · exact .inl he
    · rw [Bool.not_eq_false, hfree.ring.isEmpty_iff] at he
      have hqlen := hfree.qlen
      have hlen := congrArg List.length he
      have howned := hc.owned
      rw [List.length_map, List.length_nil] at hlen
      right
      rw [Cfg.nmax, Cfg.nbufs]
      omega
  have hnone : ∀ i, σ.dataIn i = none := fun i => by
    cases i with
    | task n =>
        have hn := htasks n
        rw [Side.dataIn]
        cases ht : σ.task n with
        | getMsg op o =>
            rw [ht] at hn
            exact hn.resolve_right fun hno => hno hcan
        | _ => rfl
    | receiver =>
        obtain ⟨hok, -⟩ := h.receives b q hq
        rw [Recv.Ok, hpc] at hok
        rw [Side.dataIn, hq, RecvTask.hasData, hok.2]
        rfl
    | msg c =>
        rw [Side.dataIn]
        by_cases hcb : c = b
        · exact h.reading c (by rw [hq, hcb]; rfl)
        · have hout : ¬σ.Issued c := fun ho => hcb (hmsgs.1 ho)
          rw [Side.Issued, Bool.not_eq_true, Option.isSome_eq_false_iff] at hout
          rw [Side.payload, Option.isNone_iff_eq_none.1 hout, Option.bind_none]
  obtain ⟨free, ho⟩ := h.pool.owns
  have hheld : σ.data.held = [] := List.eq_nil_iff_forall_not_mem.2 fun d => h.data.not_out hnone
  rw [ho.issued, hheld]
  rfl

end

/-- **RPC buffers are conserved**: in every state that a client and a server
reach, each step that either can take uses and puts only buffers that are out
and in no freelist, and none twice; and where neither has a request
outstanding or a handler's task, each has out its receiver's message buffer,
and no data buffer. -/
theorem buffers_conserved {S : Session} (hr : sessionSystem.Reachable S) :
    (∀ x, sessionSystem.enabled S x → Clean ioChanCfg x.role (S x.role) x.act) ∧
      ((∀ role, (S role).Quiet ioChanCfg) →
        ∀ role, (S role).rpc.chan.issued = 1 ∧ (S role).data.pool.issued = 0) := by
  have h := sound_reachable hr
  refine ⟨fun x he => ?_, fun hquiet role => (h.owned role).issued_of_quiet (hquiet role)⟩
  exact (h.owned x.role).clean (h.proper he.1) he.1

/-! ## A write and a read -/

/-- A task that no step is about stays where it was. -/
theorem task_of_steps {S S' : Session} {xs : List SessionAction} (h : sessionSystem.Steps S xs S')
    (hn : ∀ x ∈ xs, x.act.about ≠ some n) (role : Role) : (S' role).task n = (S role).task n := by
  induction h with
  | nil => rfl
  | @cons S T S' x xs _ hx _ ih =>
      refine (ih fun y hy => hn y (List.mem_cons_of_mem _ hy)).trans ?_
      obtain ⟨τ, hτ, rfl⟩ := Option.map_eq_some_iff.1 hx
      by_cases hr : role = x.role
      · rw [hr, Function.update_self]
        exact (did hτ).task_of_ne (hn x List.mem_cons_self)
      · rw [Function.update_of_ne hr]

/-- An end that has just been set up. -/
def newSide : Side where
  rpc := .initial (List.range ioChanCfg.nbufs)
  data := ⟨(BufPool.Pool.bufpoolInit ioChanCfg.datasz (datanbufs ioChanCfg) (datanmax ioChanCfg)
    some).getD (.empty 0 0 0), [], none, []⟩
  payloadAt _ := 0
  buf := 0
  task _ := .idle

theorem newSide_initial : Side.Initial ioChanCfg newSide := by
  obtain ⟨p, hp⟩ := BufPool.exists_bufpoolInit ioChanCfg.datasz some
    (show 0 < datanbufs ioChanCfg by decide)
    (show datanbufs ioChanCfg ≤ datanmax ioChanCfg by decide) (by decide)
  obtain ⟨-, -, -, howned⟩ := BufPool.partial_of_bufpoolInit BufPool.some_distinct hp
  refine ⟨⟨_, List.nodup_range, List.length_range, rfl⟩, ⟨p, ?_, ?_⟩, fun _ => rfl⟩
  · exact ⟨some, BufPool.some_distinct, hp, howned.2 fun _ _ => rfl⟩
  · rw [newSide, hp]
    rfl

/-- A request of the sample run, or its response, for two bytes at `offset`. -/
def sampleText (seqid : BitVec 32) (type plen : BitVec 16) (offset : ℕ) (payload : List Byte) :
    List Byte :=
  (MsgHdr.mk seqid type 32 plen 0).encode ++ leBytes 4 0 ++ leBytes 8 offset ++ leBytes 8 2 ++
    payload

/-- A device that takes what it is given, and reads as sevens before the
block from 2 on. -/
def sampleDevice : Device :=
  ⟨fun off n => (List.range n).map fun i => if off + i < 2 then 7 else 0, fun _ n _ => n⟩

/-- Task 0 of the client writes two sevens at 0, task 1 reads two bytes at 1,
and both requests have arrived when the first is handled. -/
def sampleRequests : List SessionAction :=
  [⟨.client, .recvStart 200⟩, ⟨.server, .recvStart 200⟩,
    ⟨.client, .start 0 (.doWrite 2 0 7)⟩, ⟨.client, .getData 0 none⟩, ⟨.client, .getMsg 0 200⟩,
    ⟨.client, .fill 0⟩, ⟨.client, .request 0⟩, ⟨.client, .write 0 (.sent 32)⟩,
    ⟨.client, .write 0 (.sent 2)⟩,
    ⟨.client, .start 1 (.doRead 2 1)⟩, ⟨.client, .getMsg 1 200⟩, ⟨.client, .fill 1⟩,
    ⟨.client, .request 1⟩, ⟨.client, .write 1 (.sent 32)⟩,
    ⟨.server, .arrive (sampleText 1 0x221 2 0 [7, 7] ++ sampleText 2 0x211 0 1 [])⟩,
    ⟨.server, .recvTake 12 5⟩, ⟨.server, .recvTake 20 5⟩, ⟨.server, .recvData none⟩,
    ⟨.server, .recvTake 2 5⟩, ⟨.server, .recvStart 200⟩, ⟨.server, .recvTake 12 6⟩,
    ⟨.server, .recvTake 20 6⟩, ⟨.server, .recvStart 200⟩]

/-- The read is answered first, and returns before the write. -/
def sampleAnswers : List SessionAction :=
  [⟨.server, .handle 5 sampleDevice none⟩, ⟨.server, .handle 6 sampleDevice none⟩,
    ⟨.server, .respond 6⟩, ⟨.server, .write 6 (.sent 32)⟩, ⟨.server, .write 6 (.sent 2)⟩,
    ⟨.server, .respond 5⟩, ⟨.server, .write 5 (.sent 32)⟩,
    ⟨.client, .arrive (sampleText 2 0x210 2 1 [7, 0] ++ sampleText 1 0x220 0 0 [])⟩,
    ⟨.client, .recvTake 12 9⟩, ⟨.client, .recvTake 20 9⟩, ⟨.client, .recvData none⟩,
    ⟨.client, .recvTake 2 9⟩, ⟨.client, .recvStart 200⟩, ⟨.client, .recvTake 12 9⟩,
    ⟨.client, .recvTake 20 9⟩, ⟨.client, .recvStart 200⟩,
    ⟨.client, .wake 1⟩, ⟨.client, .finish 1⟩, ⟨.client, .wake 0⟩, ⟨.client, .finish 0⟩]

/-- The receiver waits for a header. -/
def Side.headerNext (σ : Side) : Bool :=
  match σ.rpc.recv with
  | .receiving _ q => q.pc == .header
  | _ => false

/-- The handler of the write has a payload to put, and then both ends come to
rest. -/
theorem buffers_conserved_both_served : ∃ S T : Session,
    (sessionSystem.Reachable S ∧ (S .server).data.pool.issued = 1 ∧
      sessionSystem.enabled S ⟨.server, .handle 5 sampleDevice none⟩ ∧
      Clean ioChanCfg .server (S .server) (.handle 5 sampleDevice none)) ∧
    sessionSystem.Reachable T ∧ (∀ role, (T role).rpc.sent.length = 66) ∧
      (∀ role, (T role).Quiet ioChanCfg) ∧
      ∀ role, (T role).rpc.chan.issued = 1 ∧ (T role).data.pool.issued = 0 := by
  have habout : ∀ x ∈ sampleRequests ++ sampleAnswers, ∀ n ∈ x.act.about, n < 10 := by decide
  have h₀ : sessionSystem.Reachable fun _ => newSide := .init fun _ => newSide_initial
  have hmid : (sessionSystem.run (fun _ => newSide) sampleRequests).any (fun S =>
      decide ((S .server).data.pool.issued = 1 ∧
        sessionSystem.enabled S ⟨.server, .handle 5 sampleDevice none⟩)) = true := by
    decide +kernel
  have hend : (sessionSystem.run (fun _ => newSide) (sampleRequests ++ sampleAnswers)).any (fun T =>
      decide (∀ role ∈ [Role.client, .server], (T role).rpc.sent.length = 66 ∧
        (T role).headerNext = true ∧ ∀ n < 10, (T role).task n = .idle)) = true := by
    decide +kernel
  obtain ⟨S, hS, hp⟩ := System.Steps.of_run_any hmid
  obtain ⟨T, hT, hq⟩ := System.Steps.of_run_any hend
  obtain ⟨hissued, he⟩ := of_decide_eq_true hp
  have hq : ∀ role, (T role).rpc.sent.length = 66 ∧ (T role).headerNext = true ∧
      ∀ n < 10, (T role).task n = .idle := fun role =>
    of_decide_eq_true hq role (by cases role <;> simp)
  have hquiet : ∀ role, (T role).Quiet ioChanCfg := fun role => by
    obtain ⟨-, hhead, htask⟩ := hq role
    refine ⟨fun n => ?_, ?_⟩
    · have hidle : (T role).task n = .idle := by
        rcases Nat.lt_or_ge n 10 with hn | hn
        · exact htask n hn
        · refine task_of_steps hT (fun x hx e => ?_) role
          exact Nat.not_lt.2 hn (habout x hx n e)
      rw [hidle]
      trivial
    · rw [Side.headerNext] at hhead
      split at hhead
      · rename_i b q hrecv
        exact ⟨b, q, hrecv, by simpa using hhead⟩
      · cases hhead
  refine ⟨S, T, ⟨hS.reachable h₀, hissued, he, (buffers_conserved (hS.reachable h₀)).1 _ he⟩,
    hT.reachable h₀, fun role => (hq role).1, hquiet,
    (buffers_conserved (hT.reachable h₀)).2 hquiet⟩

end Splitter

end VmwareProto
