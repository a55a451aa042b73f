import VmwareProto.Splitter.OwnedReceiver
/-!
# Every step keeps the buffers apart

The steps of a task on its message, from `rpc_msg_get` to the put, and then
all steps: whatever one end does, each buffer stays in one place.
-/

namespace VmwareProto

namespace Splitter

open Rpc
open Libtask (TaskId)

variable {cfg : Cfg} {role : Role} {σ σ' τ : Side} {ρ : Rpc.State} {n t : TaskId}
  {calloc : Option DataAddr} {a b alloc : Addr} {d : DataAddr} {m m' : Msg} {act : SideAction}
  {op : ClientOp} {data : BufPool.State} {r : CmdMsg} {p : Pc} {P : Use → Prop}

theorem pc_of_acts (ha : Acts σ.rpc ρ n a m m' p) : ρ.pc n = p := by rw [ha.pc, Function.update_self]

theorem owned_of_acts (ha : Acts σ.rpc ρ n a m m' p) (hP : P m'.use) : Rpc.Action.Owned ρ a P :=
  ⟨m', by rw [ha.msgs, Function.update_self], hP⟩

/-- A message has one use. -/
theorem use_of_owned {u : Use} (ho : Rpc.Action.Owned σ.rpc a (· = u))
    (hm : σ.rpc.chan.msgs a = some m) : m.use = u := by
  obtain ⟨m₀, hm₀, hu⟩ := ho
  obtain rfl := Option.some.inj (hm.symm.trans hm₀)
  exact hu

/-- The response whose last byte is written. -/
theorem completes_cases {r : WriteResult} (hc : σ.completes n r = some a) :
    ∃ j part rest m, r = .sent j ∧ σ.rpc.pc n = .send .response a part rest ∧
      σ.rpc.chan.msgs a = some m ∧ State.left m part (rest.drop j) = none := by
  unfold Side.completes at hc
  split at hc
  · split at hc
    · rename_i j _ b part rest hpc
      obtain ⟨m, hm, hc⟩ := Option.bind_eq_some_iff.1 hc
      split at hc
      · rename_i hleft
        obtain rfl := Option.some.inj hc
        exact ⟨j, part, rest, m, rfl, hpc, hm, Option.isNone_iff_eq_none.1 hleft⟩
      · cases hc
    · cases hc
  · cases hc

section

variable (h : Owned cfg σ)
include h

/-- What a task's place says. -/
theorem Owned.fits_of {s : Task} (ht : σ.task n = s) : s.Fits σ.rpc n := ht ▸ h.fits n

/-! ## Filling, sending, waiting -/

/-- The client fills its command in. -/
theorem Owned.fill {l pl st : BitVec 16} {body : List Byte} (ht : σ.task n = .fill op a)
    (hm : σ.rpc.chan.msgs a = some m) (hr : ((channelSystem cfg).only (ErrorFree cfg)).Reachable ρ)
    (hx : (Rpc.Action.edit a l pl st body m.payload).exec cfg σ.rpc = some ρ) :
    Owned cfg (Side.setTask { σ with rpc := ρ } n (.filled op a)) := by
  obtain ⟨hidle, ho⟩ := h.fits_of ht
  obtain ⟨m₁, ha⟩ := acts_edit n hx
  obtain rfl := Option.some.inj (hm.symm.trans ha.msg)
  have hu := use_of_owned ho hm
  exact h.acts hr ha rfl (by rw [ht]; rfl) rfl ⟨(pc_of_acts ha).trans hidle, owned_of_acts ha hu⟩

/-- `rpc_request` is called. -/
theorem Owned.request (ht : σ.task n = .filled op a)
    (hr : ((channelSystem cfg).only (ErrorFree cfg)).Reachable ρ)
    (hx : (Rpc.Action.request n a).exec cfg σ.rpc = some ρ) :
    Owned cfg (Side.setTask { σ with rpc := ρ } n (.calling op a)) := by
  obtain ⟨m, m', p, hp, -, -, rfl, ha⟩ := acts_request h.enabled hx
  exact h.acts hr ha rfl (by rw [ht]; rfl) rfl (.inl (by rw [pc_of_acts ha]; exact hp))

/-- `rpc_response` is called. -/
theorem Owned.respond (ht : σ.task n = .respond a)
    (hr : ((channelSystem cfg).only (ErrorFree cfg)).Reachable ρ)
    (hx : (Rpc.Action.response n a).exec cfg σ.rpc = some ρ) :
    Owned cfg (Side.setTask { σ with rpc := ρ } n (.responding a)) := by
  obtain ⟨m, m', p, hp, -, -, rfl, ha⟩ := acts_response h.enabled hx
  have hcall : (ρ.pc n).call = some (.response, a) := by rw [pc_of_acts ha, hp]
  exact h.acts hr ha rfl (by rw [ht]; rfl) rfl hcall

/-- A task goes on in the call it is in. -/
theorem Owned.goes_on {k : Kind} (hr : ((channelSystem cfg).only (ErrorFree cfg)).Reachable ρ)
    (hc : (σ.rpc.pc n).call = some (k, a)) (ha : Acts σ.rpc ρ n a m m' p)
    (hp : p.call = some (k, a)) (hpay : m'.payload = m.payload) : Owned cfg { σ with rpc := ρ } := by
  have hpc : (ρ.pc n).call = some (k, a) := by rw [pc_of_acts ha, hp]
  have e : ({ σ with rpc := ρ } : Side) = { σ with
      rpc := ρ, task := Function.update σ.task n (σ.task n) } := by rw [Function.update_eq_self]
  rw [e]
  rcases (h.fits n).of_call hc with ⟨⟨op, ht⟩, rfl⟩ | ⟨ht, rfl⟩
  · refine h.acts hr ha (by rw [hpay]) (by rw [ht]; rfl) (by rw [ht]; rfl) ?_
    rw [ht]
    exact .inl hpc
  · refine h.acts hr ha (by rw [hpay]) (by rw [ht]; rfl) (by rw [ht]; rfl) ?_
    rw [ht]
    exact hpc

/-- A task has obtained `fdlock`. -/
theorem Owned.resume (hr : ((channelSystem cfg).only (ErrorFree cfg)).Reachable ρ)
    (hx : (Rpc.Action.resume n).exec cfg σ.rpc = some ρ) : Owned cfg { σ with rpc := ρ } := by
  obtain ⟨k, a, m, p, hc, hp, -, -, ha⟩ := acts_resume hx
  exact h.goes_on hr hc ha hp rfl

/-- The sleeping `rpc_request` runs on, and returns. -/
theorem Owned.wake (hr : ((channelSystem cfg).only (ErrorFree cfg)).Reachable ρ)
    (hx : (Rpc.Action.wake n).exec cfg σ.rpc = some ρ) : Owned cfg { σ with rpc := ρ } := by
  obtain ⟨a, m, hpc, ha⟩ := acts_wake hx
  have e : ({ σ with rpc := ρ } : Side) = { σ with
      rpc := ρ, task := Function.update σ.task n (σ.task n) } := by rw [Function.update_eq_self]
  rw [e]
  rcases (h.fits n).of_call (by rw [hpc]; rfl : (σ.rpc.pc n).call = some (.request, a)) with
    ⟨⟨op, ht⟩, -⟩ | ⟨-, hk⟩
  · refine h.acts hr ha rfl (by rw [ht]; rfl) (by rw [ht]; rfl) ?_
    rw [ht]
    exact .inr ⟨pc_of_acts ha, owned_of_acts ha rfl⟩
  · cases hk

/-! ## Putting -/

/-- What is left of the messages. -/
theorem Owned.msgPut {l : Libtask.QLock} {c : Channel} (hm : σ.rpc.chan.msgs a = some m)
    (hu : ∀ t, m.use ≠ .request t)
    (hput : Channel.msgPut cfg { σ.rpc.chan with fdlock := l } a = some c) (y : Addr) : c.msgs y = if y = a ∨ m.resp = some y then none else σ.rpc.chan.msgs y := by
  obtain ⟨lists, pending, hS⟩ := h.base.sound
  have hS' : Sound cfg (σ.rpc.chan.enabled = true) { σ.rpc.chan with fdlock := l } lists pending :=
    hS.congr rfl rfl rfl rfl rfl
  exact (msgPut_spec hS' hm (fun _ => not_pending hu) (h.base.uses.resp_ne hm) hput).2.1 y

/-- **A write** that does not end a response. -/
theorem Owned.write {r : WriteResult} (hcalm : r = .again ∨ ∃ j, r = .sent j)
    (hc : σ.completes n r = none) (hr : ((channelSystem cfg).only (ErrorFree cfg)).Reachable ρ)
    (hx : (Rpc.Action.write n r).exec cfg σ.rpc = some ρ) : Owned cfg { σ with rpc := ρ } := by
  obtain ⟨k, a, part, rest, hpc, ⟨-, rfl⟩ | ⟨j, m, rfl, hm, ⟨part', rest', -, ha⟩ |
    ⟨-, rfl, ha⟩ | ⟨hleft, rfl, -⟩⟩⟩ := acts_write hcalm hx
  · exact h
  · exact h.goes_on hr (by rw [hpc]; rfl) ha rfl rfl
  · exact h.goes_on hr (by rw [hpc]; rfl) ha rfl rfl
  · simp [Side.completes, hpc, hm, hleft] at hc

/-- The last byte of a response is written. -/
theorem Owned.completed {r : WriteResult} (hcalm : r = .again ∨ ∃ j, r = .sent j)
    (hc : σ.completes n r = some a) (hx : (Rpc.Action.write n r).exec cfg σ.rpc = some ρ) :
    ∃ m l, σ.rpc.chan.msgs a = some m ∧ m.use = .response n ∧
      (σ.rpc.pc n).call = some (.response, a) ∧
      Channel.msgPut cfg { σ.rpc.chan with fdlock := l } a = some ρ.chan ∧
      ρ.pc = Function.update σ.rpc.pc n .idle ∧ ρ.recv = σ.rpc.recv := by
  obtain ⟨j, part, rest, m, rfl, hpc, hm, hleft⟩ := completes_cases hc
  have hcall : (σ.rpc.pc n).call = some (.response, a) := by rw [hpc]; rfl
  obtain ⟨m₁, hm₁, hu⟩ := h.base.uses.call n .response a hcall
  obtain rfl := Option.some.inj (hm.symm.trans hm₁)
  obtain ⟨k, b, part₁, rest₁, hpc₁, ⟨e, -⟩ | ⟨j', m', e, hm', hcases⟩⟩ := acts_write hcalm hx
  · cases e
  obtain rfl := WriteResult.sent.inj e
  obtain ⟨rfl, rfl, rfl, rfl⟩ := Pc.send.inj (hpc.symm.trans hpc₁)
  obtain rfl := Option.some.inj (hm.symm.trans hm')
  rcases hcases with ⟨part', rest', hleft', -⟩ | ⟨-, hk, -⟩ | ⟨-, -, l, c, hput, rfl, hpc', hrecv⟩
  · rw [hleft] at hleft'
    cases hleft'
  · cases hk
  · exact ⟨m, l, hm, hu, hcall, hput, hpc', hrecv⟩

/-- **A response is put**, with its payload. -/
theorem Owned.responded {r : WriteResult} (hcalm : r = .again ∨ ∃ j, r = .sent j)
    (hc : σ.completes n r = some a) (hr : ((channelSystem cfg).only (ErrorFree cfg)).Reachable ρ)
    (hx : (Rpc.Action.write n r).exec cfg σ.rpc = some ρ)
    (hput : Side.databufPut (σ.payloads a) { σ with rpc := ρ } = some τ) :
    Owned cfg (τ.setTask n .idle) := by
  obtain ⟨m, l, hm, hu, hcall, hmput, hpc, hrecv⟩ := h.completed hcalm hc hx
  obtain ⟨hnd, hmem⟩ := h.payloads hm
  obtain ⟨data, rfl, hs, hheld⟩ := databufPut_spec (σ := { σ with rpc := ρ }) h.pool hnd hmem hput
  have ht : (σ.task n).msg = some a := by
    rcases (h.fits n).of_call hcall with ⟨-, hk⟩ | ⟨ht, -⟩
    · cases hk
    · rw [ht]
      rfl
  exact h.put hr hs hm ht (h.msgPut hm (by simp [hu]) hmput) hpc hrecv hheld

/-- The request of a client whose `rpc_request` has returned. -/
theorem Owned.returned (ht : σ.task n = .calling op a) (hidle : σ.rpc.pc n = .idle) :
    Rpc.Action.Owned σ.rpc a (· = .returned 0) := by
  rcases h.fits_of ht with hc | ⟨-, ho⟩
  · rw [hidle] at hc
    cases hc
  · exact ho

/-- **The client puts its request**, with the response and their payloads. -/
theorem Owned.finish (ht : σ.task n = .calling op a) (hidle : σ.rpc.pc n = .idle)
    (hm : σ.rpc.chan.msgs a = some m) (hput : Side.databufPut (σ.payloads a) σ = some τ)
    (hr : ((channelSystem cfg).only (ErrorFree cfg)).Reachable ρ)
    (hx : (Rpc.Action.msgPut a).exec cfg τ.rpc = some ρ) :
    Owned cfg (Side.setTask { τ with rpc := ρ } n .idle) := by
  obtain ⟨hnd, hmem⟩ := h.payloads hm
  obtain ⟨data, rfl, hs, hheld⟩ := databufPut_spec h.pool hnd hmem hput
  have hu := use_of_owned (h.returned ht hidle) hm
  simp only [Rpc.Action.exec, Option.bind_eq_bind, Option.bind_eq_some_iff] at hx
  obtain ⟨c, hc, hx⟩ := hx
  obtain rfl := Option.some.inj hx
  refine h.put hr hs hm (by rw [ht]; rfl) (fun y => ?_) ?_ rfl hheld
  · exact h.msgPut (l := σ.rpc.chan.fdlock) hm (by simp [hu]) hc y
  · rw [← hidle, Function.update_eq_self]

/-! ## The handlers -/

/-- **A handler runs**: it keeps the payload it was given, or gets one, or
puts it. -/
theorem Owned.handle {ptr : Addr → DataAddr} (ht : σ.task n = .handle a)
    (hm : σ.rpc.chan.msgs a = some m) (hf : BufPool.Action.Fresh σ.data calloc)
    (hsw : Swaps σ a r.payload calloc data ptr)
    (hr : ((channelSystem cfg).only (ErrorFree cfg)).Reachable ρ)
    (hx : (Rpc.Action.edit a r.hdr.msglen r.hdr.payloadlen r.hdr.status m.body r.payload).exec
      cfg σ.rpc = some ρ) :
    Owned cfg { σ with
      rpc := ρ, data := data, payloadAt := ptr, task := Function.update σ.task n (.respond a) } := by
  obtain ⟨hidle, ho⟩ := h.fits_of ht
  obtain ⟨m₁, ha⟩ := acts_edit n hx
  obtain rfl := Option.some.inj (hm.symm.trans ha.msg)
  have hu := use_of_owned ho hm
  have hfit : Task.Fits ρ n (.respond a) := ⟨(pc_of_acts ha).trans hidle, owned_of_acts ha hu⟩
  have hmsg : (σ.task n).msg = some a := by rw [ht]; rfl
  have hpa : σ.payload a = m.payload.map fun _ => σ.payloadAt a := by
    rw [Side.payload, hm, Option.bind_some]
  cases hsw with
  | gets hnone hpay hget =>
      rename_i d
      obtain ⟨hs, hd, hheld⟩ := h.pool.get hf hget
      refine h.edits hr hs ha (fun y hy => Function.update_of_ne hy ..) ?_ hmsg rfl hfit
      refine h.data.take (x := d) (k := Place.msg a) hd hnone (fun i => ?_) fun y => ?_
      · obtain ⟨x, hx⟩ := Option.isSome_iff_exists.1 hpay
        simp only [hx, Option.map_some, Function.update_self]
      · rw [hheld, List.mem_cons]
  | puts hd hpay hput =>
      rename_i d
      have hheld : d ∈ σ.data.held := h.data.out_of (k := Place.msg a) hd
      obtain ⟨data', e, hs, hout⟩ := databufPut_spec h.pool (List.nodup_singleton d)
        (by simpa using hheld) hput
      obtain rfl := congrArg Side.data e
      refine h.edits hr hs ha (fun _ _ => rfl) ?_ hmsg rfl hfit
      refine h.data.drop (x := d) (k := Place.msg a) hd (fun i => ?_) fun y => ?_
      · simp only [hpay, Option.map_none]
      · rw [hout, List.mem_singleton, and_comm]
  | keeps hpay =>
      rw [hpa, Option.isSome_map] at hpay
      exact h.acts hr ha hpay.symm hmsg rfl hfit

/-! ## All steps -/

/-- **The channel's part of a step.** -/
theorem Owned.chan (hp : Proper cfg role σ act) (he : act.Enabled cfg role σ)
    (hd : Did cfg role σ act σ') : σ'.rpc = σ.rpc ∨
      ∃ x, CalmStep cfg σ.rpc x σ'.rpc ∧ x.arrives = act.arrives ∧
        ∀ k, x = .recvTake k → ∃ n, act = .recvTake k n := by
  cases hd with
  | waits => exact .inl rfl
  | start n op => exact .inl rfl
  | getData ht hget => exact .inl rfl
  | @getMsg n alloc a op o c ht hget =>
      refine .inr ⟨.msgGet alloc op.msgtype op.msglen op.payloadlen op.payload,
        .quiet ?_ he.2 trivial (by simp), rfl, by simp⟩
      simp only [Rpc.Action.exec, hget]
      rfl
  | fill ht hm hx =>
      have hu := use_of_owned (h.fits_of ht).2 hm
      exact .inr ⟨_, .quiet hx ⟨_, hm, .inl hu⟩ trivial (by simp), rfl, by simp⟩
  | @request n a op ρ ht hx =>
      obtain ⟨m, hm⟩ := h.exists_msg (n := n) (a := a) (by rw [ht]; rfl)
      have hfit := hp.fits n a m (.inl rfl) (by rw [ht]; rfl) hm
      obtain ⟨hidle, ho⟩ := h.fits_of ht
      have hallowed : (Rpc.Action.request n a).Allowed cfg σ.rpc :=
        ⟨hidle, m, hm, use_of_owned ho hm, hfit.inBuffers⟩
      exact .inr ⟨_, .sends hx hallowed trivial (.inl rfl) hm hfit.sendable, rfl, by simp⟩
  | @finish n a op m τ ρ ht hm hput hx =>
      have ho := h.returned ht he.2
      have e := Side.databufPut_cases hput
      rw [show τ.rpc = σ.rpc by rw [e]] at hx
      exact .inr ⟨_, .quiet hx ⟨m, hm, .inr (.inr ⟨0, use_of_owned ho hm⟩)⟩ trivial (by simp), rfl,
        by simp⟩
  | resume hx => exact .inr ⟨_, .quiet hx he trivial (by simp), rfl, by simp⟩
  | write hc hx => exact .inr ⟨_, .quiet hx he.1 he.2 (by simp), rfl, by simp⟩
  | @responded n r a τ ρ hc hx hput =>
      have e := Side.databufPut_cases hput
      have hρ : (τ.setTask n .idle).rpc = ρ := by rw [e]; rfl
      rw [hρ]
      exact .inr ⟨_, .quiet hx he.1 he.2 (by simp), rfl, by simp⟩
  | wake hx => exact .inr ⟨_, .quiet hx he trivial (by simp), rfl, by simp⟩
  | handle ht hm _ hsw hx =>
      have hu := use_of_owned (h.fits_of ht).2 hm
      exact .inr ⟨_, .quiet hx ⟨_, hm, .inr hu⟩ trivial (by simp), rfl, by simp⟩
  | @respond n a ρ ht hx =>
      obtain ⟨m, hm⟩ := h.exists_msg (n := n) (a := a) (by rw [ht]; rfl)
      have hfit := hp.fits n a m (.inr rfl) (by rw [ht]; rfl) hm
      obtain ⟨hidle, ho⟩ := h.fits_of ht
      have hallowed : (Rpc.Action.response n a).Allowed cfg σ.rpc :=
        ⟨hidle, m, hm, use_of_owned ho hm, hfit.stays_open, hfit.inBuffers⟩
      exact .inr ⟨_, .sends hx hallowed trivial (.inr rfl) hm hfit.sendable, rfl, by simp⟩
  | recvStart hx => exact .inr ⟨_, .quiet hx he trivial (by simp), rfl, by simp⟩
  | recvTake hq hx =>
      rw [Side.received_rpc]
      exact .inr ⟨_, .quiet hx he.1 trivial (by simp), rfl, by simp⟩
  | recvAgain hx => exact .inr ⟨_, .quiet hx he rfl (by simp), rfl, by simp⟩
  | recvData hget hx => exact .inr ⟨_, .quiet hx he.1 trivial (by simp), rfl, by simp⟩
  | arrive hx => exact .inr ⟨_, .quiet hx trivial trivial (by simp), rfl, by simp⟩

end

/-- Nothing is out at first. -/
theorem Owned.initial (hs : Side.Initial cfg σ) : Owned cfg σ := by
  obtain ⟨⟨bufs, hnd, hlen, hrpc⟩, ⟨p, hp, hdata⟩, hidle⟩ := hs
  have hmsgs : ∀ a, σ.rpc.chan.msgs a = none := fun a => by rw [hrpc]; rfl
  have hrecv : σ.rpc.recv = .idle := by rw [hrpc]; rfl
  have hmsg : ∀ i, σ.msgIn i = none := fun i => by
    cases i with
    | task n => rw [Side.msgIn, hidle]; rfl
    | receiver => rw [Side.msgIn, hrecv]; rfl
    | msg a => rw [Side.msgIn, hmsgs]; rfl
  have hbuf : ∀ i, σ.dataIn i = none := fun i => by
    cases i with
    | task n => rw [Side.dataIn, hidle]; rfl
    | receiver => rw [Side.dataIn, hrecv]; rfl
    | msg a => rw [Side.dataIn, Side.payload, hmsgs]; rfl
  refine ⟨.init ⟨bufs, hnd, hlen, hrpc⟩, ⟨.init ⟨p, hp, hdata⟩, ?_, by rw [hdata], by rw [hdata]⟩,
    fun n => ?_, .initial hmsg fun a => ?_, .initial hbuf fun d => ?_, fun b hb => ?_⟩
  · rw [hdata]
    exact hp.owns.2.1
  · rw [hidle, hrpc]
    rfl
  · rw [Side.Issued, hmsgs]
    exact Bool.false_ne_true
  · rw [hdata]
    exact List.not_mem_nil
  · rw [hrecv] at hb
    cases hb

/-- **The step lemma**: whatever this end does, each buffer that is out is in
one place. -/
theorem Owned.step (h : Owned cfg σ) (hp : Proper cfg role σ act) (he : act.Enabled cfg role σ)
    (hd : Did cfg role σ act σ') : Owned cfg σ' := by
  have hr : ((channelSystem cfg).only (ErrorFree cfg)).Reachable σ'.rpc := by
    rcases h.chan hp he hd with e | ⟨x, hx, -, htake⟩
    · rw [e]
      exact h.reach
    · refine hx.reachable h.reach (hx.recv_ne h.reach fun k e => ?_)
      obtain ⟨n, rfl⟩ := htake k e
      exact hp.stays k n σ'.rpc rfl (by rw [← e]; exact hx.exec)
  cases hd with
  | waits => exact h
  | start n op => exact h.start he.2.1
  | getData ht hget =>
      obtain ⟨hs, hd, hheld⟩ := h.pool.get he.2 hget
      exact h.getData ht hs hd hheld
  | getMsg ht hget => exact h.getMsg ht he.2.1 hget hr
  | fill ht hm hx => exact h.fill ht hm hr hx
  | request ht hx => exact h.request ht hr hx
  | finish ht hm hput hx => exact h.finish ht he.2 hm hput hr hx
  | resume hx => exact h.resume hr hx
  | write hc hx => exact h.write he.2 hc hr hx
  | @responded n r a τ ρ hc hx hput =>
      have e := Side.databufPut_cases hput
      have hρ : (τ.setTask n .idle).rpc = ρ := by rw [e]; rfl
      exact h.responded he.2 hc (hρ ▸ hr) hx hput
  | wake hx => exact h.wake hr hx
  | handle ht hm _ hsw hx => exact h.handle ht hm he.2 hsw hr hx
  | respond ht hx => exact h.respond ht hr hx
  | recvStart hx => exact h.recvStart he hr hx
  | recvTake hq hx =>
      rw [Side.received_rpc] at hr
      exact h.recvTake he.1 hr he.2.1 he.2.2 hq hx
  | recvAgain hx =>
      obtain rfl := h.again hx
      exact h
  | recvData hget hx =>
      obtain ⟨hs, hd, hheld⟩ := h.pool.get he.2 hget
      exact h.recvData he.1 hr hs hd hheld hx
  | arrive hx => exact h.arrive hr hx

end Splitter

end VmwareProto
