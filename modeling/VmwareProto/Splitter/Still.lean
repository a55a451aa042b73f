import VmwareProto.Splitter.OwnedSteps
/-!
# One task at a time

A step of a task changes its own message, and what the receiver reads goes
to one task: for all others, their messages and the responses to them stay
as they were.
-/

namespace VmwareProto

namespace Splitter

open Rpc
open Libtask (TaskId)

variable {cfg : Cfg} {role : Role} {σ σ' : Side} {ρ : Rpc.State} {n t : TaskId} {a b : Addr}
  {m m' : Msg} {act : SideAction} {p : Pc} {q : Recv}

/-- **Task `t` is where it was**, with its message and the response to it. -/
structure Still (σ σ' : Side) (t : TaskId) : Prop where
  task : σ'.task t = σ.task t
  pc : σ'.rpc.pc t = σ.rpc.pc t
  msg : ∀ a, (σ.task t).msg = some a → σ'.rpc.chan.msgs a = σ.rpc.chan.msgs a
  resp : ∀ a m b, (σ.task t).msg = some a → σ.rpc.chan.msgs a = some m → m.resp = some b →
    σ'.rpc.chan.msgs b = σ.rpc.chan.msgs b

/-- The task that does something. -/
def SideAction.actor : SideAction → Option TaskId
  | start n _ | getData n _ | getMsg n _ | fill n | request n | finish n | resume n | write n _
  | wake n | handle n _ _ | respond n => some n
  | recvStart _ | recvTake _ _ | recvAgain | recvData _ | arrive _ => none

/-- No message is changed. -/
theorem still_of_same (ht : σ'.task t = σ.task t) (hpc : σ'.rpc.pc t = σ.rpc.pc t)
    (hm : σ'.rpc.chan.msgs = σ.rpc.chan.msgs) : Still σ σ' t :=
  ⟨ht, hpc, fun _ _ => by rw [hm], fun _ _ _ _ _ _ => by rw [hm]⟩

section

variable (h : Owned cfg σ)
include h

/-- A response is a message. -/
theorem Owned.exists_resp (hm : σ.rpc.chan.msgs a = some m) (hb : m.resp = some b) :
    ∃ r, σ.rpc.chan.msgs b = some r := by
  obtain ⟨-, r, hr, -⟩ := h.resp_msg hm hb
  exact ⟨r, hr⟩

/-- A message is new. -/
theorem Owned.still_fresh (ht : σ'.task t = σ.task t) (hpc : σ'.rpc.pc t = σ.rpc.pc t)
    (hnone : σ.rpc.chan.msgs b = none)
    (hm : ∀ y, y ≠ b → σ'.rpc.chan.msgs y = σ.rpc.chan.msgs y) : Still σ σ' t := by
  have hne : ∀ {y q}, σ.rpc.chan.msgs y = some q → y ≠ b := by
    rintro y q hq rfl
    rw [hnone] at hq
    cases hq
  refine ⟨ht, hpc, fun a ha => ?_, fun a m c ha hma hc => ?_⟩
  · obtain ⟨q, hq⟩ := h.exists_msg ha
    exact hm a (hne hq)
  · obtain ⟨r, hr⟩ := h.exists_resp hma hc
    exact hm c (hne hr)

/-- One message is changed, which is in another place than what the task
has. -/
theorem Owned.still_place {k : Place} (ht : σ'.task t = σ.task t) (hpc : σ'.rpc.pc t = σ.rpc.pc t)
    (hk : σ.msgIn k = some b) (hkt : k ≠ .task t) (hkm : ∀ c, k ≠ .msg c)
    (hm : ∀ y, y ≠ b → σ'.rpc.chan.msgs y = σ.rpc.chan.msgs y) : Still σ σ' t := by
  refine ⟨ht, hpc, fun a ha => hm a ?_, fun a m c ha hma hc => hm c ?_⟩
  · exact h.msgs.ne_of_ne (j := Place.task t) ha hk hkt.symm
  · exact h.msgs.ne_of_ne (j := Place.msg a) (by rw [Side.msgIn, hma]; exact hc) hk (hkm a).symm

/-- Another task acts on its message. -/
theorem Owned.still_acts (ha : Acts σ.rpc ρ n a m m' p) (hn : (σ.task n).msg = some a) (htn : t ≠ n)
    (hrpc : σ'.rpc = ρ) (ht : σ'.task t = σ.task t) : Still σ σ' t := by
  refine h.still_place (k := Place.task n) ht (by rw [hrpc, ha.pc, Function.update_of_ne htn]) hn
    (fun e => htn (Place.task.inj e).symm) (fun _ => Place.noConfusion) fun y hy => ?_
  rw [hrpc, ha.msgs, Function.update_of_ne hy]

/-- Another task puts its message. -/
theorem Owned.still_put (hm : σ.rpc.chan.msgs a = some m) (hn : (σ.task n).msg = some a)
    (htn : t ≠ n) (hpc : σ'.rpc.pc t = σ.rpc.pc t) (ht : σ'.task t = σ.task t)
    (hmsg : ∀ y, σ'.rpc.chan.msgs y = if y = a ∨ m.resp = some y then none else σ.rpc.chan.msgs y) :
    Still σ σ' t := by
  have hresp : ∀ {y}, m.resp = some y → σ.msgIn (.msg a) = some y := fun hy => by
    rw [Side.msgIn, hm]
    exact hy
  have hother : ∀ {k y}, σ.msgIn k = some y → k ≠ .task n → k ≠ .msg a →
      ¬(y = a ∨ m.resp = some y) := by
    rintro k y hy hkn hka (rfl | hr)
    · exact h.msgs.ne_of_ne (j := k) (k := Place.task n) hy hn hkn rfl
    · exact h.msgs.ne_of_ne (j := k) (k := Place.msg a) hy (hresp hr) hka rfl
  refine ⟨ht, hpc, fun b hb => ?_, fun b q c hb hq hc => ?_⟩
  · have hne := hother (k := Place.task t) hb (fun e => htn (Place.task.inj e)) Place.noConfusion
    rw [hmsg, if_neg hne]
  · have hba : b ≠ a := h.other hb hn htn
    have hne := hother (k := Place.msg b) (by rw [Side.msgIn, hq]; exact hc) Place.noConfusion
      fun e => hba (Place.msg.inj e)
    rw [hmsg, if_neg hne]

/-- The message of a task in a call. -/
theorem Owned.msg_of_call {k : Kind} (hc : (σ.rpc.pc n).call = some (k, a)) :
    (σ.task n).msg = some a := by
  rcases (h.fits n).of_call hc with ⟨⟨op, ht⟩, -⟩ | ⟨ht, -⟩ <;> rw [ht] <;> rfl

/-- **A step of one task** leaves the others where they are. -/
theorem Owned.still (he : act.Enabled cfg role σ) (hd : Did cfg role σ act σ')
    (ht : act.actor ≠ some t) (hk : ∀ k n, act ≠ .recvTake k n) : Still σ σ' t := by
  have hne : ∀ {n}, act.actor = some n → t ≠ n := fun hn e => ht (by rw [hn, e])
  have hset : ∀ {n : TaskId} {s : Task}, act.actor = some n →
      Function.update σ.task n s t = σ.task t := fun hn => Function.update_of_ne (hne hn) ..
  cases hd with
  | waits => exact still_of_same rfl rfl rfl
  | start n op => exact still_of_same (hset rfl) rfl rfl
  | getData hn hget => exact still_of_same (hset rfl) rfl rfl
  | @getMsg n alloc a op o c hn hget =>
      obtain ⟨lists, pending, hS⟩ := h.base.sound
      obtain ⟨-, hnone, m, hmsgs, -⟩ := msgGet_spec hS he.2.1 hget
      refine h.still_fresh (hset rfl) rfl hnone fun y hy => ?_
      simp only [hmsgs, Function.update_of_ne hy]
  | @fill n a op m ρ hn hm hx =>
      obtain ⟨m₁, ha⟩ := acts_edit n hx
      exact h.still_acts ha (by rw [hn]; rfl) (hne rfl) rfl (hset rfl)
  | @request n a op ρ hn hx =>
      obtain ⟨m, m', p, -, -, -, -, ha⟩ := acts_request h.enabled hx
      exact h.still_acts ha (by rw [hn]; rfl) (hne rfl) rfl (hset rfl)
  | @finish n a op m τ ρ hn hm hput hx =>
      have e := Side.databufPut_cases hput
      rw [show τ.rpc = σ.rpc by rw [e]] at hx
      simp only [Rpc.Action.exec, Option.bind_eq_bind, Option.bind_eq_some_iff] at hx
      obtain ⟨c, hc, hx⟩ := hx
      obtain rfl := Option.some.inj hx
      have hu := use_of_owned (h.returned hn he.2) hm
      refine h.still_put (n := n) hm (by rw [hn]; rfl) (hne rfl) rfl ?_ ?_
      · rw [e]
        exact hset rfl
      · exact h.msgPut (l := σ.rpc.chan.fdlock) hm (by simp [hu]) hc
  | resume hx =>
      obtain ⟨k, a, m, p, hc, -, -, -, ha⟩ := acts_resume hx
      exact h.still_acts ha (h.msg_of_call hc) (hne rfl) rfl rfl
  | @write n r ρ hc hx =>
      obtain ⟨k, a, part, rest, hpc, ⟨-, rfl⟩ | ⟨j, m, rfl, hm, ⟨part', rest', -, ha⟩ |
        ⟨-, rfl, ha⟩ | ⟨hleft, rfl, -⟩⟩⟩ := acts_write he.2 hx
      · exact still_of_same rfl rfl rfl
      · exact h.still_acts ha (h.msg_of_call (by rw [hpc]; rfl)) (hne rfl) rfl rfl
      · exact h.still_acts ha (h.msg_of_call (by rw [hpc]; rfl)) (hne rfl) rfl rfl
      · simp [Side.completes, hpc, hm, hleft] at hc
  | @responded n r a τ ρ hc hx hput =>
      have e := Side.databufPut_cases hput
      obtain ⟨m, l, hm, hu, hcall, hmput, hpc, -⟩ := h.completed he.2 hc hx
      rw [e]
      refine h.still_put (n := n) hm (h.msg_of_call hcall) (hne rfl) ?_ (hset rfl) ?_
      · show ρ.pc t = _
        rw [hpc, Function.update_of_ne (hne rfl)]
      · exact h.msgPut hm (by simp [hu]) hmput
  | wake hx =>
      obtain ⟨a, m, hpc, ha⟩ := acts_wake hx
      exact h.still_acts ha (h.msg_of_call (by rw [hpc]; rfl)) (hne rfl) rfl rfl
  | @handle n dev calloc a m r data ptr ρ hn hm hr hsw hx =>
      obtain ⟨m₁, ha⟩ := acts_edit n hx
      exact h.still_acts ha (by rw [hn]; rfl) (hne rfl) rfl (hset rfl)
  | @respond n a ρ hn hx =>
      obtain ⟨m, m', p, -, -, -, -, ha⟩ := acts_response h.enabled hx
      exact h.still_acts ha (by rw [hn]; rfl) (hne rfl) rfl (hset rfl)
  | recvStart hx =>
      obtain ⟨b, hnone, -, hpc, hmsg⟩ := h.started he hx
      refine h.still_fresh rfl (by rw [hpc]) hnone fun y hy => ?_
      simp only [hmsg, if_neg hy]
  | recvTake => exact absurd rfl (hk _ _)
  | recvAgain hx =>
      rw [h.again hx]
      exact still_of_same rfl rfl rfl
  | recvData hget hx =>
      obtain ⟨b, q, q', -, -, -, rfl⟩ := h.obtained he.1 hx
      exact still_of_same rfl rfl rfl
  | arrive hx =>
      obtain rfl := Option.some.inj hx
      exact still_of_same rfl rfl rfl

/-! ## What is begun on the wire -/

/-- **Only the calls that take `fdlock` begin a message.** -/
theorem Owned.log_same (he : act.Enabled cfg role σ) (hd : Did cfg role σ act σ')
    (hact : ∀ n, act ≠ .request n ∧ act ≠ .respond n ∧ act ≠ .resume n) :
    σ'.rpc.log = σ.rpc.log := by
  cases hd with
  | waits => rfl
  | start n op => rfl
  | getData ht hget => rfl
  | getMsg ht hget => rfl
  | fill ht hm hx =>
      simp only [Rpc.Action.exec, Option.bind_eq_bind, Option.bind_eq_some_iff] at hx
      obtain ⟨m, -, hx⟩ := hx
      obtain rfl := Option.some.inj hx
      rfl
  | @request n => exact absurd rfl (hact n).1
  | finish ht hm hput hx =>
      have e := Side.databufPut_cases hput
      rw [e] at hx
      simp only [Rpc.Action.exec, Option.bind_eq_bind, Option.bind_eq_some_iff] at hx
      obtain ⟨c, -, hx⟩ := hx
      obtain rfl := Option.some.inj hx
      rfl
  | @resume n => exact absurd rfl (hact n).2.2
  | write hc hx =>
      rcases log_cases h.base id he.1 hx with e | ⟨n, k, a, m, hb⟩
      · exact e
      · rcases hb.before with ⟨-, hx | hx⟩ | ⟨-, hx, -⟩ <;> cases hx
  | responded hc hx hput =>
      rw [Side.databufPut_cases hput]
      rcases log_cases h.base id he.1 hx with e | ⟨n, k, a, m, hb⟩
      · exact e
      · rcases hb.before with ⟨-, hx | hx⟩ | ⟨-, hx, -⟩ <;> cases hx
  | wake hx =>
      obtain ⟨a, m, -, -, -, rfl⟩ := State.wake_cases hx
      rfl
  | handle ht hm hr hsw hx =>
      simp only [Rpc.Action.exec, Option.bind_eq_bind, Option.bind_eq_some_iff] at hx
      obtain ⟨m, -, hx⟩ := hx
      obtain rfl := Option.some.inj hx
      rfl
  | @respond n => exact absurd rfl (hact n).2.1
  | @recvStart alloc ρ hx =>
      have he : (Rpc.Action.recvStart alloc).Allowed cfg σ.rpc := he
      exact (received h.base id he hx trivial).log
  | recvTake hq hx =>
      rw [Side.received_rpc]
      exact (received h.base id he.1 hx trivial).log
  | recvAgain hx => rw [h.again hx]
  | recvData hget hx => exact (received h.base id he.1 hx trivial).log
  | arrive hx =>
      obtain rfl := Option.some.inj hx
      rfl

/-! ## A message is received -/

/-- What is received goes to task `n`. -/
theorem Owned.still_received (hq : σ.rpc.recv = .receiving b q) (htn : t ≠ n)
    (ht : σ'.task t = σ.task t) (hpc : σ'.rpc.pc t = σ.rpc.pc t)
    (hm : ∀ y, y ≠ b → (σ.task n).msg ≠ some y → σ'.rpc.chan.msgs y = σ.rpc.chan.msgs y) :
    Still σ σ' t := by
  have hb : σ.msgIn .receiver = some b := by
    rw [Side.msgIn, hq]
    rfl
  refine ⟨ht, hpc, fun a ha => hm a (h.not_buffer hq ha) fun e => ?_, fun a m c ha hma hc => ?_⟩
  · exact h.other ha e htn rfl
  · have hc : σ.msgIn (.msg a) = some c := by
      rw [Side.msgIn, hma]
      exact hc
    refine hm c (h.msgs.ne_of_ne (j := Place.msg a) hc hb Place.noConfusion) fun e => ?_
    exact h.msgs.ne_of_ne (j := Place.msg a) (k := Place.task n) hc e Place.noConfusion rfl

end

/-- `RPC_CHAN_LOCK`: the message is begun, or its task waits. -/
inductive Locks (σ ρ : Rpc.State) (n : TaskId) (k : Kind) (a : Addr) (m : Msg) : Prop
  | begins : ρ.log = σ.log ++ [m.wire] → ρ.pc n = .send k a .header m.hdrBytes → Locks σ ρ n k a m
  | waits : ρ.log = σ.log → ρ.pc n = .lockWait k a → Locks σ ρ n k a m

variable {σ ρ : Rpc.State} {k : Kind}

theorem locks_lock (c : Channel) (n : TaskId) (a : Addr) (k : Kind) (m : Msg) :
    Locks σ ({ σ with chan := c }.lock n a k m) n k a m := by
  rcases State.lock_cases { σ with chan := c } n a k m with ⟨-, e⟩ | ⟨-, e⟩
  · rw [e]
    exact .begins rfl (Function.update_self ..)
  · rw [e]
    exact .waits rfl (Function.update_self ..)

theorem locks_request (hen : σ.chan.enabled = true)
    (hx : (Rpc.Action.request n a).exec cfg σ = some ρ) : ∃ m m', σ.chan.msgs a = some m ∧
      m' = { m with hdr := m.hdr.setReq, use := .request n } ∧ ρ.chan.msgs a = some m' ∧
      Locks σ ρ n .request a m' := by
  obtain ⟨m, m', p, -, -, -, rfl, ha⟩ := acts_request hen hx
  obtain ⟨m₁, hm₁, -, ⟨hd, -⟩ | ⟨-, m', rfl, rfl⟩⟩ := State.request_cases hx
  · rw [hen] at hd
    cases hd
  · obtain rfl := Option.some.inj (ha.msg.symm.trans hm₁)
    exact ⟨m, _, hm₁, rfl, by rw [ha.msgs, Function.update_self], locks_lock ..⟩

theorem locks_response (hen : σ.chan.enabled = true)
    (hx : (Rpc.Action.response n a).exec cfg σ = some ρ) : ∃ m m', σ.chan.msgs a = some m ∧
      m' = { m with hdr := m.hdr.setResp, use := .response n } ∧ ρ.chan.msgs a = some m' ∧
      Locks σ ρ n .response a m' := by
  obtain ⟨m, m', p, -, -, -, rfl, ha⟩ := acts_response hen hx
  obtain ⟨m₁, hm₁, -, ⟨hd, -⟩ | ⟨-, m', rfl, rfl⟩⟩ := State.response_cases hx
  · rw [hen] at hd
    cases hd
  · obtain rfl := Option.some.inj (ha.msg.symm.trans hm₁)
    exact ⟨m, _, hm₁, rfl, by rw [ha.msgs, Function.update_self], locks_lock ..⟩

end Splitter

end VmwareProto
