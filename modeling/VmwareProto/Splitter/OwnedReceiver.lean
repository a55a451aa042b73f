import VmwareProto.Splitter.Owned
/-!
# The receiver's buffers

`rpc_recv_task` has one message buffer at a time and, while a payload
arrives, one data buffer. Both go to the handler's task with a request, and
to the request with a response.
-/

namespace VmwareProto

namespace Splitter

open Rpc
open Libtask (TaskId)

variable {cfg : Cfg} {role : Role} {σ σ' τ : Side} {ρ : Rpc.State} {n t : TaskId}
  {calloc : Option DataAddr} {a b alloc : Addr} {d : DataAddr} {m m' : Msg} {act : SideAction}
  {op : ClientOp} {data : BufPool.State} {q : Recv} {r : CmdMsg}

section

variable (h : Owned cfg σ)
include h

/-! ## The receiver -/

theorem Owned.receives : σ.rpc.Receives cfg := receives_reachable h.reach.of_only

/-- The message the receiver reads into. -/
theorem Owned.buffer (hq : σ.rpc.recv = .receiving b q) :
    ∃ m, σ.rpc.chan.msgs b = some m ∧ m.use = .reading ∧ m.resp = none := by
  obtain ⟨m, hm, hu⟩ := h.base.uses.buffer b q hq
  have hf := h.base.uses.fits b m hm
  simp only [Msg.Fits, hu] at hf
  exact ⟨m, hm, hu, hf.2.2⟩

/-- It is no task's message. -/
theorem Owned.not_buffer (hq : σ.rpc.recv = .receiving b q) (ht : (σ.task t).msg = some a) : a ≠ b :=
  h.msgs.ne_of_ne (j := Place.task t) (k := Place.receiver) ht (by rw [Side.msgIn, hq]; rfl)
    Place.noConfusion

/-- `_rpc_receive` is called and gets its message buffer. -/
theorem Owned.started (he : (Rpc.Action.recvStart alloc).Allowed cfg σ.rpc)
    (hx : (Rpc.Action.recvStart alloc).exec cfg σ.rpc = some ρ) :
    ∃ b, σ.rpc.chan.msgs b = none ∧ ρ.recv = .receiving b (.start true) ∧ ρ.pc = σ.rpc.pc ∧
      ∀ y, ρ.chan.msgs y = if y = b then some (.ofBytes cfg.toRecvCfg []) else σ.rpc.chan.msgs y := by
  obtain ⟨c, b, hget, hset⟩ := State.recvStart_cases hx
  obtain ⟨lists, pending, hS⟩ := h.base.sound
  obtain ⟨-, hmsgs, hnone, -, hk⟩ := poolGet_spec hS he.2.1 hget
  have hen : c.enabled = true := hk.enabled.trans h.enabled
  rw [hen] at hset
  rcases State.settle_cases hset with ⟨-, rfl⟩ | ⟨hf, -⟩
  · refine ⟨b, hnone, rfl, rfl, fun y => ?_⟩
    simp only [setMsg_msgs, Function.update_apply, hmsgs]
  · cases hf

/-- The receiver has a message buffer. -/
theorem Owned.recvStart (he : (Rpc.Action.recvStart alloc).Allowed cfg σ.rpc)
    (hr : ((channelSystem cfg).only (ErrorFree cfg)).Reachable ρ)
    (hx : (Rpc.Action.recvStart alloc).exec cfg σ.rpc = some ρ) : Owned cfg { σ with rpc := ρ } := by
  have hidle := he.1
  obtain ⟨b, hnone, hrecv, hpc, hmsg⟩ := h.started he hx
  have hne : ∀ y p, σ.rpc.chan.msgs y = some p → y ≠ b := fun y p hp => by
    rintro rfl
    rw [hnone] at hp
    cases hp
  refine ⟨hr, h.pool, fun t => ?_, ?_, ?_, fun y hy => ?_⟩
  · refine (h.fits t).frame (fun e => by rw [hpc, e]) (by rw [hpc]) fun y P hy hP => ?_
    obtain ⟨p, hp, hPp⟩ := hP
    exact ⟨p, by rw [hmsg, if_neg (hne y p hp), hp], hPp⟩
  · refine h.msgs.take (x := b) (k := Place.receiver)
      (by rw [Side.Issued, hnone]; exact Bool.false_ne_true)
      (by rw [Side.msgIn, hidle]; rfl) (fun i => ?_) fun y => ?_
    · cases i with
      | task t => rfl
      | receiver => simp only [Side.msgIn, hrecv, RecvTask.buffer, if_true]
      | msg y =>
          simp only [Side.msgIn, hmsg, reduceCtorEq, if_false]
          split
          · rename_i hy
            rw [hy, hnone, Option.bind_some, Option.bind_none]
            rfl
          · rfl
    · simp only [Side.Issued, hmsg]
      by_cases hy : y = b
      · rw [if_pos hy]
        exact iff_of_true rfl (.inl hy)
      · rw [if_neg hy]
        exact ⟨.inr, fun e => e.resolve_left hy⟩
  · refine h.data.congr (fun i => ?_) fun _ => Iff.rfl
    cases i with
    | task t => rfl
    | receiver =>
        simp only [Side.dataIn, hidle, hrecv]
        rfl
    | msg y =>
        simp only [Side.dataIn, Side.payload, hmsg]
        split
        · rename_i hy
          rw [hy, hnone, Option.bind_some, Option.bind_none]
          rfl
        · rfl
  · rw [show ρ.recv = _ from hrecv] at hy
    obtain rfl : b = y := Option.some.inj hy
    simp only [Side.payload, hmsg, if_true, Option.bind_some]
    rfl

/-- A step in which no buffer changes hands. -/
theorem Owned.reads (hr : ((channelSystem cfg).only (ErrorFree cfg)).Reachable ρ)
    (hc : ρ.chan = σ.rpc.chan) (hpc : ρ.pc = σ.rpc.pc) (hb : ρ.recv.buffer = σ.rpc.recv.buffer)
    (hd : ρ.recv.hasData = σ.rpc.recv.hasData) : Owned cfg { σ with rpc := ρ } := by
  refine ⟨hr, h.pool, fun t => ?_, ?_, ?_, fun y hy => ?_⟩
  · refine (h.fits t).frame (fun e => by rw [hpc, e]) (by rw [hpc]) fun y P _ hP => ?_
    obtain ⟨p, hp, hPp⟩ := hP
    exact ⟨p, by rw [hc, hp], hPp⟩
  · refine h.msgs.congr (fun i => ?_) fun y => by simp only [Side.Issued, hc]
    cases i with
    | task t => rfl
    | receiver => exact hb
    | msg y => simp only [Side.msgIn, hc]
  · refine h.data.congr (fun i => ?_) fun _ => Iff.rfl
    cases i with
    | task t => rfl
    | receiver => simp only [Side.dataIn, hd]
    | msg y => simp only [Side.dataIn, Side.payload, hc]
  · rw [← h.reading y (hb.symm.trans hy)]
    simp only [Side.payload, hc]

/-- `_rpc_receive` gets its data buffer. -/
theorem Owned.obtained (he : Rpc.Action.recvData.Allowed cfg σ.rpc)
    (hx : Rpc.Action.recvData.exec cfg σ.rpc = some ρ) : ∃ b q q', σ.rpc.recv = .receiving b q ∧
      q.payload = none ∧ q'.payload = some [] ∧ ρ = { σ.rpc with recv := .receiving b q' } := by
  obtain ⟨b, q, hq, hdr, hpc⟩ := he
  obtain ⟨b₁, q₁, q', hq₁, hdata, hset⟩ := State.recvData_cases hx
  obtain ⟨rfl, rfl⟩ := RecvTask.receiving.inj (hq.symm.trans hq₁)
  have hnone : q.payload = none := by
    obtain ⟨hok, -⟩ := h.receives b q hq
    obtain ⟨pc, st, p⟩ := q
    simp only at hpc
    subst hpc
    exact hok.2.2.2.2
  have hq' : q' = ⟨.payload hdr, q.stored, some []⟩ := by
    rw [Recv.getData, hpc] at hdata
    exact (Option.some.inj hdata).symm
  rcases State.settle_cases hset with ⟨-, rfl⟩ | ⟨hf, -⟩
  · exact ⟨b, q, q', hq, hnone, by rw [hq'], rfl⟩
  · rw [hq'] at hf
    cases hf

/-- The receiver has a data buffer. -/
theorem Owned.recvData (he : Rpc.Action.recvData.Allowed cfg σ.rpc)
    (hr : ((channelSystem cfg).only (ErrorFree cfg)).Reachable ρ) (hs : Serving cfg data)
    (hd : d ∉ σ.data.held) (hheld : data.held = d :: σ.data.held)
    (hx : Rpc.Action.recvData.exec cfg σ.rpc = some ρ) :
    Owned cfg { σ with rpc := ρ, data := data, buf := d } := by
  obtain ⟨b, q, q', hq, hnone, hsome, rfl⟩ := h.obtained he hx
  refine ⟨hr, hs, fun t => ?_, ?_, ?_, fun y hy => ?_⟩
  · exact (h.fits t).frame id rfl fun _ _ _ hP => hP
  · refine h.msgs.congr (fun i => ?_) fun _ => Iff.rfl
    cases i with
    | task t => rfl
    | receiver => simp only [Side.msgIn, hq, RecvTask.buffer]
    | msg y => rfl
  · refine h.data.take (x := d) (k := Place.receiver) hd ?_ (fun i => ?_) fun y => ?_
    · simp only [Side.dataIn, hq, RecvTask.hasData, hnone, Option.isSome_none, Bool.false_eq_true,
        if_false]
    · cases i with
      | task t => rfl
      | receiver => simp only [Side.dataIn, RecvTask.hasData, hsome, Option.isSome_some, if_true]
      | msg y => rfl
    · show y ∈ data.held ↔ _
      rw [hheld, List.mem_cons]
  · exact h.reading y (by rw [hq]; exact hy)

/-- The data buffer of a call that has returned is the message's. -/
theorem Owned.data_taken (hq : σ.rpc.recv = .receiving b q) (hl : σ'.rpc.recv = .idle)
    (htask : ∀ t, (σ'.task t).data = (σ.task t).data) (hheld : σ'.data = σ.data)
    (hb : σ'.payload b = if q.payload.isSome = true then some σ.buf else none)
    (hother : ∀ y, y ≠ b → σ'.payload y = σ.payload y) : Tracks σ'.dataIn (· ∈ σ'.data.held) := by
  have hrecv : σ'.dataIn .receiver = none := by simp only [Side.dataIn, hl, RecvTask.hasData]; rfl
  have hbuf : σ.dataIn .receiver = if q.payload.isSome = true then some σ.buf else none := by
    simp only [Side.dataIn, hq, RecvTask.hasData]
  have hnone : σ.payload b = none := h.reading b (by rw [hq]; rfl)
  by_cases hp : q.payload.isSome = true
  · rw [if_pos hp] at hb hbuf
    refine h.data.hand (x := σ.buf) (k := Place.receiver) (j := Place.msg b) hbuf hnone (fun i => ?_)
      fun y => by rw [hheld]
    cases i with
    | task t => simp only [Side.dataIn, htask, reduceCtorEq, if_false]
    | receiver => simpa using hrecv
    | msg y =>
        by_cases hy : y = b
        · rw [hy, if_pos rfl]
          exact hb
        · rw [if_neg fun e => hy (Place.msg.inj e), if_neg Place.noConfusion]
          exact hother y hy
  · rw [if_neg hp] at hb hbuf
    refine h.data.congr (fun i => ?_) fun y => by rw [hheld]
    cases i with
    | task t => exact htask t
    | receiver => rw [hrecv, hbuf]
    | msg y =>
        by_cases hy : y = b
        · rw [hy]
          exact hb.trans hnone.symm
        · exact hother y hy

/-- **A request has arrived**, and is its handler's. -/
theorem Owned.arrived (hr : ((channelSystem cfg).only (ErrorFree cfg)).Reachable ρ)
    (hq : σ.rpc.recv = .receiving b q) (ht : σ.task n = .idle) (hidle : σ.rpc.pc n = .idle)
    (hl : ρ.recv = .idle) (hpc : ρ.pc = σ.rpc.pc)
    (hmsgs : ρ.chan.msgs = Function.update σ.rpc.chan.msgs b (some m)) (hu : m.use = .handed)
    (hresp : m.resp = none) (hpay : m.payload.isSome = q.payload.isSome) :
    Owned cfg { σ with
      rpc := ρ, payloadAt := Function.update σ.payloadAt b σ.buf
      task := Function.update σ.task n (.handle b) } := by
  obtain ⟨m₀, hm₀, -, hresp₀⟩ := h.buffer hq
  have hmsg : ∀ y, ρ.chan.msgs y = if y = b then some m else σ.rpc.chan.msgs y := fun y => by
    rw [hmsgs, Function.update_apply]
  obtain ⟨σ', hσ'⟩ : ∃ σ' : Side, σ' = { σ with
      rpc := ρ, payloadAt := Function.update σ.payloadAt b σ.buf
      task := Function.update σ.task n (.handle b) } := ⟨_, rfl⟩
  have hrpc : σ'.rpc = ρ := by rw [hσ']
  have htask : ∀ t, σ'.task t = if t = n then .handle b else σ.task t := fun t => by
    simp only [hσ', Function.update_apply]
  have hother : ∀ {t y}, t ≠ n → (σ.task t).msg = some y → y ≠ b := fun _ hy => h.not_buffer hq hy
  rw [← hσ']
  refine ⟨by rw [hrpc]; exact hr, by rw [hσ']; exact h.pool, fun t => ?_, ?_, ?_, fun y hy => ?_⟩
  · rw [htask, hrpc]
    split
    · rename_i htn
      rw [htn]
      exact ⟨by rw [hpc, hidle], m, by rw [hmsg, if_pos rfl], hu⟩
    · rename_i htn
      refine (h.fits t).frame (fun e => by rw [hpc, e]) (by rw [hpc]) fun y P hy hP => ?_
      obtain ⟨p, hp, hPp⟩ := hP
      exact ⟨p, by rw [hmsg, if_neg (hother htn hy), hp], hPp⟩
  · refine h.msgs.hand (x := b) (k := Place.receiver) (j := Place.task n)
      (by rw [Side.msgIn, hq]; rfl) (by rw [Side.msgIn, ht]; rfl) (fun i => ?_) fun y => ?_
    · cases i with
      | task t =>
          simp only [Side.msgIn, htask, Place.task.injEq, reduceCtorEq, if_false]
          split <;> rfl
      | receiver => simp only [Side.msgIn, hrpc, hl, reduceCtorEq, if_false, if_true]; rfl
      | msg y =>
          simp only [Side.msgIn, hrpc, hmsg, reduceCtorEq, if_false]
          split
          · rename_i hy
            rw [hy, hm₀, Option.bind_some, Option.bind_some, hresp, hresp₀]
          · rfl
    · simp only [Side.Issued, hrpc, hmsg]
      split
      · rename_i hy
        rw [hy, hm₀]
        exact iff_of_true rfl rfl
      · exact Iff.rfl
  · refine h.data_taken hq (by rw [hrpc, hl]) (fun t => ?_) (by rw [hσ']) ?_ fun y hy => ?_
    · rw [htask]
      split
      · rename_i htn
        rw [htn, ht]
        rfl
      · rfl
    · simp only [hσ', Side.payload, hmsg, if_true, Option.bind_some, Function.update_self]
      split
      · rename_i hp
        obtain ⟨x, hx⟩ := Option.isSome_iff_exists.1 (hpay.trans hp)
        rw [hx, Option.map_some]
      · rename_i hp
        rw [← hpay, Option.not_isSome_iff_eq_none] at hp
        rw [hp, Option.map_none]
    · simp only [hσ', Side.payload, hmsg, if_neg hy, Function.update_of_ne hy]
  · rw [hrpc, hl] at hy
    cases hy

/-- **A response has arrived**, and is its request's. -/
theorem Owned.attached {p : Msg} (hr : ((channelSystem cfg).only (ErrorFree cfg)).Reachable ρ)
    (hq : σ.rpc.recv = .receiving b q) (hl : ρ.recv = .idle) (hab : a ≠ b)
    (hp : σ.rpc.chan.msgs a = some p) (hpr : p.resp = none)
    (hpc : ρ.pc = if σ.rpc.pc t = .asleep a then Function.update σ.rpc.pc t (.woken a) else σ.rpc.pc)
    (hmsg : ∀ y, ρ.chan.msgs y = if y = a then some { p with resp := some b, rendez := [] }
      else if y = b then some m else σ.rpc.chan.msgs y)
    (hresp : m.resp = none) (hpay : m.payload.isSome = q.payload.isSome) :
    Owned cfg { σ with rpc := ρ, payloadAt := Function.update σ.payloadAt b σ.buf } := by
  obtain ⟨m₀, hm₀, -, hresp₀⟩ := h.buffer hq
  have hpcs : ∀ n, ρ.pc n = σ.rpc.pc n ∨ σ.rpc.pc n = .asleep a ∧ ρ.pc n = .woken a := fun n => by
    rw [hpc]
    split
    · rename_i hsl
      rw [Function.update_apply]
      split
      · rename_i hn
        exact .inr ⟨by rw [hn, hsl], rfl⟩
      · exact .inl rfl
    · exact .inl rfl
  refine ⟨hr, h.pool, fun n => ?_, ?_, ?_, fun y hy => ?_⟩
  · refine (h.fits n).frame (fun e => ?_) ?_ fun y P hy hP => ?_
    · rcases hpcs n with e' | ⟨e', -⟩
      · rw [e', e]
      · rw [e] at e'
        cases e'
    · rcases hpcs n with e | ⟨e, e'⟩
      · rw [e]
      · rw [e, e']
        rfl
    · obtain ⟨x, hx, hPx⟩ := hP
      have hyb : y ≠ b := h.not_buffer hq hy
      by_cases hya : y = a
      · obtain rfl : p = x := Option.some.inj (hp.symm.trans (hya ▸ hx))
        exact ⟨{ p with resp := some b, rendez := [] }, by rw [hmsg, if_pos hya], hPx⟩
      · exact ⟨x, by rw [hmsg, if_neg hya, if_neg hyb, hx], hPx⟩
  · refine h.msgs.hand (x := b) (k := Place.receiver) (j := Place.msg a)
      (by rw [Side.msgIn, hq]; rfl) (by rw [Side.msgIn, hp]; exact hpr) (fun i => ?_) fun y => ?_
    · cases i with
      | task n => simp only [Side.msgIn, reduceCtorEq, if_false]
      | receiver => simp only [Side.msgIn, hl, reduceCtorEq, if_false, if_true]; rfl
      | msg y =>
          simp only [Side.msgIn, hmsg, reduceCtorEq, if_false, Place.msg.injEq]
          by_cases hya : y = a
          · rw [if_pos hya, if_pos hya, Option.bind_some]
          · rw [if_neg hya, if_neg hya]
            split
            · rename_i hyb
              rw [hyb, hm₀, Option.bind_some, Option.bind_some, hresp, hresp₀]
            · rfl
    · simp only [Side.Issued, hmsg]
      split
      · rename_i hya
        rw [hya, hp]
        exact iff_of_true rfl rfl
      · split
        · rename_i hyb
          rw [hyb, hm₀]
          exact iff_of_true rfl rfl
        · exact Iff.rfl
  · refine h.data_taken hq hl (fun _ => rfl) rfl ?_ fun y hy => ?_
    · simp only [Side.payload, hmsg, if_neg hab.symm, if_true, Option.bind_some, Function.update_self]
      split
      · rename_i hs
        obtain ⟨x, hx⟩ := Option.isSome_iff_exists.1 (hpay.trans hs)
        rw [hx, Option.map_some]
      · rename_i hs
        rw [← hpay, Option.not_isSome_iff_eq_none] at hs
        rw [hs, Option.map_none]
    · simp only [Side.payload, hmsg, if_neg hy, Function.update_of_ne hy]
      split
      · rename_i hya
        rw [hya, hp, Option.bind_some, Option.bind_some]
      · rfl
  · rw [show ρ.recv = .idle from hl] at hy
    cases hy

/-- **A read of the receiver.** -/
theorem Owned.recvTake {k : ℕ} (he : (Rpc.Action.recvTake k).Allowed cfg σ.rpc)
    (hr : ((channelSystem cfg).only (ErrorFree cfg)).Reachable ρ)
    (ht : σ.task n = .idle) (hidle : σ.rpc.pc n = .idle) (hq : σ.rpc.recv = .receiving b q)
    (hx : (Rpc.Action.recvTake k).exec cfg σ.rpc = some ρ) :
    Owned cfg (Side.received { σ with rpc := ρ } b n) := by
  rcases recvTake_took h.base h.enabled h.receives he hq hx with
    ⟨q', hq', hc, hpc, hpay, -⟩ | ⟨w, m, -, -, hm, hpay, hreq, hl', hpc, hmsgs⟩ |
    ⟨w, m, a, p, t, -, -, hm, hpay, hreq, hcc, hl', hab, hp, -, hpr, hpc, hmsg⟩ |
    ⟨-, -, -, hl⟩
  · have e : Side.received { σ with rpc := ρ } b n = { σ with rpc := ρ } := by
      simp only [Side.received, hq']
    rw [e]
    exact h.reads hr hc hpc (by rw [hq, hq']; rfl) (by rw [hq, hq']; exact hpay)
  · have hb : ρ.chan.msgs b = some m := by rw [hmsgs, Function.update_self]
    have e : Side.received { σ with rpc := ρ } b n = { σ with
        rpc := ρ, payloadAt := Function.update σ.payloadAt b σ.buf
        task := Function.update σ.task n (.handle b) } := by
      simp only [Side.received, hl', hb, hreq, or_true, if_true, Side.setTask]
    rw [e]
    exact h.arrived hr hq ht hidle hl' hpc hmsgs (by rw [hm]) (by rw [hm]; rfl) hpay
  · have hb : ρ.chan.msgs b = some m := by rw [hmsg, if_neg hab.symm, if_pos rfl]
    have e : Side.received { σ with rpc := ρ } b n = { σ with
        rpc := ρ, payloadAt := Function.update σ.payloadAt b σ.buf } := by
      simp only [Side.received, hl', hb, hreq, hcc, Bool.false_eq_true, or_self, if_false]
    rw [e]
    exact h.attached hr hq hl' hab hp hpr hpc hmsg (by rw [hm]; rfl) hpay
  · exact absurd hl (open_reachable hr).2.2

/-- A read that finds nothing. -/
theorem Owned.again (hx : (Rpc.Action.recvOther .again).exec cfg σ.rpc = some ρ) : ρ = σ.rpc := by
  obtain ⟨b, q, q', hq, hread, hset⟩ := State.recvOther_cases hx
  obtain rfl : q = q' := Option.some.inj hread
  rcases State.settle_cases hset with ⟨-, rfl⟩ | ⟨hf, -⟩
  · rw [← hq]
  · rw [(h.receives b q hq).2.1] at hf
    cases hf

/-- Bytes arrive. -/
theorem Owned.arrive {bs : List Byte} (hr : ((channelSystem cfg).only (ErrorFree cfg)).Reachable ρ)
    (hx : (Rpc.Action.arrive bs).exec cfg σ.rpc = some ρ) : Owned cfg { σ with rpc := ρ } := by
  obtain rfl := Option.some.inj hx
  exact h.reads hr rfl rfl rfl rfl

end

end Splitter

end VmwareProto
