import VmwareProto.BufPool.Ownership
import VmwareProto.Library.Holders
import VmwareProto.Rpc.Calm
import VmwareProto.Splitter.Side
/-!
# Who has which buffer

At one end of a connection: every message buffer that is issued is with one
task, with the receiver, or in a request as its response; every data buffer
is with one task, with the receiver, or in a message. One lemma for each
step, of whatever the peer sends, as long as nothing is found wrong with
it.
-/

namespace VmwareProto

namespace Splitter

open Rpc
open Libtask (TaskId)

variable {cfg : Cfg} {role : Role} {σ σ' τ : Side} {n t : TaskId} {calloc : Option DataAddr}
  {a b alloc : Addr} {d : DataAddr} {ds : List DataAddr} {m m' : Msg} {act : SideAction}
  {op : ClientOp} {data data' : BufPool.State}

/-! ## The data buffers -/

/-- The pool is in use, and nobody waits in it. -/
structure Serving (cfg : Cfg) (data : BufPool.State) : Prop where
  reach : (BufPool.poolSystem cfg.datasz (datanbufs cfg) (datanmax cfg)).Reachable data
  state : data.pool.state = .initialized
  getters : data.getters = []
  deiniter : data.deiniter = none

namespace Serving

theorem owns (h : Serving cfg data) : ∃ free, BufPool.Owns data.pool free data.held :=
  (BufPool.sound_reachable h.reach).owns (by rw [h.state]; exact BufPool.PoolState.noConfusion)

/-- **`rpc_databuf_get` returns** a buffer that was not out. -/
theorem get (h : Serving cfg σ.data) (hf : BufPool.Action.Fresh σ.data calloc)
    (hg : Got σ calloc d data) :
    Serving cfg data ∧ d ∉ σ.data.held ∧ data.held = d :: σ.data.held := by
  obtain ⟨hx, p, hget, hd⟩ := hg
  have he : (BufPool.Action.get 0 true false calloc).Enabled σ.data :=
    ⟨h.state, ⟨by simp [h.getters], by simp [h.deiniter]⟩, hf⟩
  obtain ⟨free, ho⟩ := h.owns
  obtain ⟨r, hr, hcases⟩ := BufPool.settle_cases ho hf 0 false true
  have hloop : σ.data.pool.getLoop 0 false calloc = some (p, .got d) := by
    rw [BufPool.Pool.bufpoolGet, if_neg (by simp [h.state])] at hget
    exact hget
  obtain rfl := Option.some.inj (hr.symm.trans hloop)
  rcases hcases with ⟨x, p', hs, ho', hrest, -⟩ | ⟨-, -, ⟨-, hs⟩ | ⟨e, -⟩⟩
  · have hheld : d :: σ.data.held = x :: σ.data.held := congrArg BufPool.State.held hs
    obtain ⟨rfl, -⟩ := List.cons.inj hheld
    rw [hd, hs]
    refine ⟨⟨?_, hrest.state.trans h.state, h.getters, h.deiniter⟩, ?_, rfl⟩
    · rw [← hs, ← hd]
      exact h.reach.step (a := BufPool.Action.get 0 true false calloc) he hx
    · exact (List.nodup_cons.1 ho'.nodup).1
  · have hheld : d :: σ.data.held = σ.data.held := congrArg BufPool.State.held hs
    have hlen := congrArg List.length hheld
    rw [List.length_cons] at hlen
    omega
  · cases e

/-- **`rpc_databuf_put`** of a buffer that is out. -/
theorem put (h : Serving cfg data) (hd : d ∈ data.held)
    (hx : (BufPool.Action.put d).exec data = some data') :
    Serving cfg data' ∧ data'.held = data.held.erase d := by
  have hreach := h.reach.step (a := BufPool.Action.put d) hd hx
  obtain ⟨free, ho⟩ := h.owns
  obtain ⟨q, free', hg, -, hrest, -⟩ := ho.giveBack hd
  simp only [BufPool.Action.exec, BufPool.bufpoolPut_eq hg, Option.bind_eq_bind,
    Option.bind_some] at hx
  obtain rfl := Option.some.inj hx
  refine ⟨⟨hreach, ?_, ?_, ?_⟩, rfl⟩
  · exact hrest.state.trans h.state
  · simp [BufPool.State.wake, h.getters]
  · simp [h.deiniter]

end Serving

/-- **Several are put**, each of them out and none twice. -/
theorem databufPut_spec (h : Serving cfg σ.data) (hnd : ds.Nodup) (hmem : ∀ d ∈ ds, d ∈ σ.data.held)
    (hx : Side.databufPut ds σ = some σ') : ∃ data, σ' = { σ with data := data } ∧
      Serving cfg data ∧ ∀ y, y ∈ data.held ↔ y ∈ σ.data.held ∧ y ∉ ds := by
  induction ds generalizing σ with
  | nil =>
      obtain rfl := Option.some.inj hx
      exact ⟨σ.data, rfl, h, by simp⟩
  | cons d ds ih =>
      simp only [Side.databufPut, Option.bind_eq_bind, Option.bind_eq_some_iff] at hx
      obtain ⟨data₁, hput, hx⟩ := hx
      obtain ⟨hs, hheld⟩ := h.put (hmem d List.mem_cons_self) hput
      obtain ⟨free, ho⟩ := h.owns
      have hin : ∀ y, y ∈ data₁.held ↔ y ≠ d ∧ y ∈ σ.data.held := fun y => by
        rw [hheld, ho.nodup.mem_erase_iff]
      obtain ⟨hd, hnd⟩ := List.nodup_cons.1 hnd
      obtain ⟨data, rfl, hs', hout⟩ := ih (σ := { σ with data := data₁ }) hs hnd
        (fun y hy => (hin y).2 ⟨fun e => hd (e ▸ hy), hmem y (List.mem_cons_of_mem d hy)⟩) hx
      refine ⟨data, rfl, hs', fun y => ?_⟩
      rw [hout, hin, List.mem_cons, not_or]
      tauto

/-! ## The invariant -/

/-- What a task's message is used for, and where the task is in the
channel. -/
def Task.Fits (ρ : Rpc.State) (n : TaskId) : Task → Prop
  | idle => ρ.pc n = .idle
  | getData op => ρ.pc n = .idle ∧ op.needsData = true
  | getMsg op d => ρ.pc n = .idle ∧ d.isSome = op.needsData
  | fill _ a => ρ.pc n = .idle ∧ Rpc.Action.Owned ρ a (· = .fresh)
  | filled _ a => ρ.pc n = .idle ∧ Rpc.Action.Owned ρ a (· = .fresh)
  | calling _ a => (ρ.pc n).call = some (.request, a) ∨
      ρ.pc n = .idle ∧ Rpc.Action.Owned ρ a (· = .returned 0)
  | handle a => ρ.pc n = .idle ∧ Rpc.Action.Owned ρ a (· = .handed)
  | respond a => ρ.pc n = .idle ∧ Rpc.Action.Owned ρ a (· = .handed)
  | responding a => (ρ.pc n).call = some (.response, a)

/-- Where a buffer can be. -/
inductive Place
  | task (n : TaskId)
  | receiver
  /-- in a message, as its response or its payload -/
  | msg (a : Addr)
  deriving DecidableEq, Repr

/-- The message buffer in a place. -/
def Side.msgIn (σ : Side) : Place → Option Addr
  | .task n => (σ.task n).msg
  | .receiver => σ.rpc.recv.buffer
  | .msg a => (σ.rpc.chan.msgs a).bind (·.resp)

/-- The data buffer in a place. -/
def Side.dataIn (σ : Side) : Place → Option DataAddr
  | .task n => (σ.task n).data
  | .receiver => if σ.rpc.recv.hasData = true then some σ.buf else none
  | .msg a => σ.payload a

/-- The message buffers that are out. -/
def Side.Issued (σ : Side) (a : Addr) : Prop := (σ.rpc.chan.msgs a).isSome = true

/-- **Every buffer that is out is in one place.** -/
structure Owned (cfg : Cfg) (σ : Side) : Prop where
  reach : ((channelSystem cfg).only (ErrorFree cfg)).Reachable σ.rpc
  pool : Serving cfg σ.data
  fits : ∀ n, (σ.task n).Fits σ.rpc n
  msgs : Tracks σ.msgIn σ.Issued
  data : Tracks σ.dataIn (· ∈ σ.data.held)
  /-- no payload before the whole of it has arrived -/
  reading : ∀ b, σ.rpc.recv.buffer = some b → σ.payload b = none

/-- A message that its peer takes: it lies within the buffers of either end,
and does not claim that the connection is closed. -/
structure Deliverable (rcfg : RecvCfg) (m : Msg) : Prop where
  inBuffers : m.InBuffers
  sendable : m.Sendable rcfg
  stays_open : m.hdr.isConnClosed = false

/-- What a step keeps to: the messages that are sent can be delivered, and
the receiver finds nothing wrong. -/
structure Proper (cfg : Cfg) (role : Role) (σ : Side) (act : SideAction) : Prop where
  fits : ∀ n a m, act = .request n ∨ act = .respond n → (σ.task n).msg = some a →
    σ.rpc.chan.msgs a = some m → Deliverable cfg.toRecvCfg m
  stays : ∀ k n ρ, act = .recvTake k n → (Rpc.Action.recvTake k).exec cfg σ.rpc = some ρ →
    ρ.recv ≠ .left

namespace Task

/-- A task with a message has no other buffer. -/
theorem data_of_msg {s : Task} (h : s.msg = some a) : s.data = none := by
  cases s <;> first | rfl | cases h

/-- What a task's place depends on. -/
theorem Fits.frame {ρ ρ' : Rpc.State} {s : Task} (h : s.Fits ρ n)
    (hidle : ρ.pc n = .idle → ρ'.pc n = .idle) (hcall : (ρ'.pc n).call = (ρ.pc n).call)
    (hm : ∀ a P, s.msg = some a → Rpc.Action.Owned ρ a P → Rpc.Action.Owned ρ' a P) :
    s.Fits ρ' n := by
  cases s with
  | idle => exact hidle h
  | getData op => exact ⟨hidle h.1, h.2⟩
  | getMsg op d => exact ⟨hidle h.1, h.2⟩
  | fill op a => exact ⟨hidle h.1, hm a _ rfl h.2⟩
  | filled op a => exact ⟨hidle h.1, hm a _ rfl h.2⟩
  | calling op a =>
      rcases h with h | ⟨h, ho⟩
      · exact .inl (hcall.trans h)
      · exact .inr ⟨hidle h, hm a _ rfl ho⟩
  | handle a => exact ⟨hidle h.1, hm a _ rfl h.2⟩
  | respond a => exact ⟨hidle h.1, hm a _ rfl h.2⟩
  | responding a => exact hcall.trans h

/-- The message of a task in a call. -/
theorem Fits.of_call {ρ : Rpc.State} {s : Task} {k : Kind} (h : s.Fits ρ n)
    (hc : (ρ.pc n).call = some (k, a)) :
    (∃ op, s = .calling op a) ∧ k = .request ∨ s = .responding a ∧ k = .response := by
  have hidle : ρ.pc n ≠ .idle := fun e => by
    rw [e] at hc
    cases hc
  cases s with
  | idle => exact absurd h hidle
  | getData op => exact absurd h.1 hidle
  | getMsg op d => exact absurd h.1 hidle
  | fill op a => exact absurd h.1 hidle
  | filled op a => exact absurd h.1 hidle
  | calling op b =>
      rcases h with h | ⟨h, -⟩
      · obtain ⟨rfl, rfl⟩ := Prod.mk.inj (Option.some.inj (hc.symm.trans h))
        exact .inl ⟨⟨op, rfl⟩, rfl⟩
      · exact absurd h hidle
  | handle a => exact absurd h.1 hidle
  | respond a => exact absurd h.1 hidle
  | responding b =>
      obtain ⟨rfl, rfl⟩ := Prod.mk.inj (Option.some.inj (hc.symm.trans h))
      exact .inr ⟨rfl, rfl⟩

end Task

section

variable (h : Owned cfg σ)
include h

theorem Owned.base : Base cfg (σ.rpc.chan.enabled = true) σ.rpc := base_reachable h.reach.of_only

theorem Owned.enabled : σ.rpc.chan.enabled = true := enabled_reachable h.reach

/-- A task's message is a message. -/
theorem Owned.exists_msg (ht : (σ.task n).msg = some a) : ∃ m, σ.rpc.chan.msgs a = some m :=
  Option.isSome_iff_exists.1 (h.msgs.out_of (k := Place.task n) ht)

/-- Other tasks have other messages. -/
theorem Owned.other (ht : (σ.task t).msg = some b) (hn : (σ.task n).msg = some a) (hne : t ≠ n) :
    b ≠ a :=
  h.msgs.ne_of_ne (j := Place.task t) (k := Place.task n) ht hn fun e => hne (Place.task.inj e)

/-- **A task acts on its message**, and perhaps on its payload. -/
theorem Owned.edits {ρ : Rpc.State} {p : Pc} {s : Task} {ptr : Addr → DataAddr}
    (hr : ((channelSystem cfg).only (ErrorFree cfg)).Reachable ρ) (hs : Serving cfg data)
    (ha : Acts σ.rpc ρ n a m m' p) (hptr : ∀ y, y ≠ a → ptr y = σ.payloadAt y)
    (hdata : Tracks (fun i => if i = .msg a then m'.payload.map fun _ => ptr a else σ.dataIn i)
      (· ∈ data.held))
    (ht : (σ.task n).msg = some a) (hsa : s.msg = some a) (hfit : s.Fits ρ n) :
    Owned cfg { σ with
      rpc := ρ, data := data, payloadAt := ptr, task := Function.update σ.task n s } := by
  have hmsg : ∀ c, ρ.chan.msgs c = if c = a then some m' else σ.rpc.chan.msgs c := fun c => by
    rw [ha.msgs, Function.update_apply]
  obtain ⟨σ', hσ'⟩ : ∃ σ' : Side, σ' = { σ with
      rpc := ρ, data := data, payloadAt := ptr, task := Function.update σ.task n s } := ⟨_, rfl⟩
  have htask : ∀ t, σ'.task t = if t = n then s else σ.task t := fun t => by
    simp only [hσ', Function.update_apply]
  have hrpc : σ'.rpc = ρ := by rw [hσ']
  have hpay : ∀ c, σ'.payload c = if c = a then m'.payload.map fun _ => ptr a else σ.payload c :=
    fun c => by
      simp only [hσ', Side.payload, hmsg]
      split
      · rename_i hc
        rw [Option.bind_some, hc]
      · rename_i hc
        rw [hptr c hc]
  have hbuf : ∀ b, ρ.recv.buffer = some b → b ≠ a := fun b hb =>
    h.msgs.ne_of_ne (j := Place.receiver) (k := Place.task n)
      (by rw [Side.msgIn, ← ha.recv]; exact hb) ht Place.noConfusion
  rw [← hσ']
  refine ⟨by rw [hrpc]; exact hr, by rw [hσ']; exact hs, fun t => ?_, ?_, ?_, fun b hb => ?_⟩
  · rw [htask, hrpc]
    split
    · rename_i htn
      rw [htn]
      exact hfit
    · rename_i htn
      have hpc : ρ.pc t = σ.rpc.pc t := by rw [ha.pc, Function.update_of_ne htn]
      refine (h.fits t).frame (fun e => hpc.trans e) (by rw [hpc]) fun b P hb hP => ?_
      obtain ⟨q, hq, hPq⟩ := hP
      exact ⟨q, by rw [hmsg, if_neg (h.other hb ht htn), hq], hPq⟩
  · refine h.msgs.congr (fun i => ?_) fun c => ?_
    · cases i with
      | task t =>
          simp only [Side.msgIn, htask]
          split
          · rename_i htn
            rw [htn, hsa, ht]
          · rfl
      | receiver => simp only [Side.msgIn, hrpc, ha.recv]
      | msg c =>
          simp only [Side.msgIn, hrpc, hmsg]
          split
          · rename_i hc
            rw [hc, ha.msg, Option.bind_some, Option.bind_some, ha.resp]
          · rfl
    · simp only [Side.Issued, hrpc, hmsg]
      split
      · rename_i hc
        rw [hc, ha.msg]
        exact iff_of_true rfl rfl
      · exact Iff.rfl
  · refine hdata.congr (fun i => ?_) fun _ => by rw [hσ']
    cases i with
    | task t =>
        simp only [Side.dataIn, htask, reduceCtorEq, if_false]
        split
        · rename_i htn
          rw [htn, Task.data_of_msg hsa, Task.data_of_msg ht]
        · rfl
    | receiver =>
        simp only [Side.dataIn, hrpc, ha.recv, reduceCtorEq, if_false]
        rw [hσ']
    | msg c => simp only [Side.dataIn, hpay, Place.msg.injEq]
  · rw [hrpc] at hb
    rw [hpay, if_neg (hbuf b hb)]
    exact h.reading b (by rw [← ha.recv]; exact hb)

/-- **A task acts on its message** and keeps its payload. -/
theorem Owned.acts {ρ : Rpc.State} {p : Pc} {s : Task}
    (hr : ((channelSystem cfg).only (ErrorFree cfg)).Reachable ρ) (ha : Acts σ.rpc ρ n a m m' p)
    (hp : m'.payload.isSome = m.payload.isSome) (ht : (σ.task n).msg = some a) (hsa : s.msg = some a)
    (hfit : s.Fits ρ n) : Owned cfg { σ with rpc := ρ, task := Function.update σ.task n s } := by
  have hptr : ∀ y, y ≠ a → σ.payloadAt y = σ.payloadAt y := fun _ _ => rfl
  refine h.edits hr h.pool ha hptr ?_ ht hsa hfit
  refine h.data.congr (fun i => ?_) fun _ => Iff.rfl
  split
  · rename_i hi
    rw [hi, Side.dataIn, Side.payload, ha.msg, Option.bind_some]
    cases hm : m.payload <;> cases hm' : m'.payload <;> simp [hm, hm'] at hp ⊢
  · rfl

/-- A task goes on, with the buffers it has. -/
theorem Owned.moves {s : Task} (hmsg : s.msg = (σ.task n).msg) (hdata : s.data = (σ.task n).data)
    (hfit : s.Fits σ.rpc n) : Owned cfg (σ.setTask n s) := by
  have htask : ∀ t, (σ.setTask n s).task t = if t = n then s else σ.task t := fun t => by
    simp only [Side.setTask, Function.update_apply]
  refine ⟨h.reach, h.pool, fun t => ?_, ?_, ?_, h.reading⟩
  · rw [htask]
    split
    · rename_i htn
      rw [htn]
      exact hfit
    · exact h.fits t
  · refine h.msgs.congr (fun i => ?_) fun _ => Iff.rfl
    cases i with
    | task t =>
        simp only [Side.msgIn, htask]
        split
        · rename_i htn
          rw [htn, hmsg]
        · rfl
    | receiver => rfl
    | msg c => rfl
  · refine h.data.congr (fun i => ?_) fun _ => Iff.rfl
    cases i with
    | task t =>
        simp only [Side.dataIn, htask]
        split
        · rename_i htn
          rw [htn, hdata]
        · rfl
    | receiver => rfl
    | msg c => rfl

/-! ## Putting a message -/

theorem Owned.resp_msg (hm : σ.rpc.chan.msgs a = some m) (hb : m.resp = some b) :
    b ≠ a ∧ ∃ r, σ.rpc.chan.msgs b = some r ∧ r.resp = none := by
  obtain ⟨hne, -⟩ := h.base.uses.resp_ne hm b hb
  obtain ⟨r, hr, hu, -⟩ := h.base.uses.resp a m b hm hb
  have hf := h.base.uses.fits b r hr
  simp only [Msg.Fits, hu] at hf
  exact ⟨hne, r, hr, hf.2⟩

omit h in
theorem mem_payloads (hm : σ.rpc.chan.msgs a = some m) {y : DataAddr} :
    y ∈ σ.payloads a ↔ ∃ c, (c = a ∨ m.resp = some c) ∧ σ.payload c = some y := by
  simp only [Side.payloads, hm, Option.bind_some, List.mem_append, Option.mem_toList,
    Option.bind_eq_some_iff]
  constructor
  · rintro (⟨c, hc, hy⟩ | hy)
    · exact ⟨c, .inr hc, hy⟩
    · exact ⟨a, .inl rfl, hy⟩
  · rintro ⟨c, rfl | hc, hy⟩
    · exact .inr hy
    · exact .inl ⟨c, hc, hy⟩

/-- **What `rpc_msg_put` puts is out, and put once.** -/
theorem Owned.payloads (hm : σ.rpc.chan.msgs a = some m) :
    (σ.payloads a).Nodup ∧ ∀ d ∈ σ.payloads a, d ∈ σ.data.held := by
  constructor
  · have hone : ∀ o : Option DataAddr, o.toList.Nodup := fun o => by cases o <;> simp
    rw [Side.payloads, hm, Option.bind_some]
    refine List.nodup_append.2 ⟨hone _, hone _, fun x hx y hy => ?_⟩
    rw [Option.mem_toList] at hx hy
    obtain ⟨b, hb, hx⟩ := Option.bind_eq_some_iff.1 hx
    refine h.data.ne_of_ne (j := Place.msg b) (k := Place.msg a) hx hy fun e => ?_
    exact (h.resp_msg hm hb).1 (Place.msg.inj e)
  · intro y hy
    obtain ⟨c, -, hc⟩ := (mem_payloads hm).1 hy
    exact h.data.out_of (k := Place.msg c) hc

/-- **A task puts its message** and what goes with it. -/
theorem Owned.put {ρ : Rpc.State} (hr : ((channelSystem cfg).only (ErrorFree cfg)).Reachable ρ)
    (hs : Serving cfg data) (hm : σ.rpc.chan.msgs a = some m) (ht : (σ.task n).msg = some a)
    (hmsg : ∀ y, ρ.chan.msgs y = if y = a ∨ m.resp = some y then none else σ.rpc.chan.msgs y)
    (hpc : ρ.pc = Function.update σ.rpc.pc n .idle) (hrecv : ρ.recv = σ.rpc.recv)
    (hheld : ∀ y, y ∈ data.held ↔ y ∈ σ.data.held ∧ y ∉ σ.payloads a) :
    Owned cfg { σ with rpc := ρ, data := data, task := Function.update σ.task n .idle } := by
  have hpay : ∀ c, Side.payload { σ with
      rpc := ρ, data := data, task := Function.update σ.task n .idle } c =
      if c = a ∨ m.resp = some c then none else σ.payload c := fun c => by
    simp only [Side.payload, hmsg]
    split <;> rfl
  have hkeep : ∀ {t b}, t ≠ n → (σ.task t).msg = some b → ¬(b = a ∨ m.resp = some b) := by
    rintro t b htn hb (e | e)
    · exact h.other hb ht htn e
    · exact h.msgs.ne_of_ne (j := Place.task t) (k := Place.msg a) hb
        (by rw [Side.msgIn, hm]; exact e) Place.noConfusion rfl
  refine ⟨hr, hs, fun t => ?_, ?_, ?_, fun b hb => ?_⟩
  · show (Function.update σ.task n Task.idle t).Fits ρ t
    rw [Function.update_apply]
    split
    · rename_i htn
      show ρ.pc t = .idle
      rw [hpc, htn, Function.update_self]
    · rename_i htn
      have hpct : ρ.pc t = σ.rpc.pc t := by rw [hpc, Function.update_of_ne htn]
      refine (h.fits t).frame (fun e => hpct.trans e) (by rw [hpct]) fun b P hb hP => ?_
      obtain ⟨q, hq, hPq⟩ := hP
      exact ⟨q, by rw [hmsg, if_neg (hkeep htn hb), hq], hPq⟩
  · refine h.msgs.clear (P := fun i => i = .task n ∨ i = .msg a) ?_ ?_ fun y => ?_
    · rintro i (rfl | rfl)
      · show (Function.update σ.task n Task.idle n).msg = none
        rw [Function.update_self]
        rfl
      · simp only [Side.msgIn, hmsg, true_or, if_true, Option.bind_none]
    · intro i hi
      rw [not_or] at hi
      cases i with
      | task t =>
          show (Function.update σ.task n Task.idle t).msg = (σ.task t).msg
          rw [Function.update_of_ne fun e => hi.1 (congrArg Place.task e)]
      | receiver => simp only [Side.msgIn, hrecv]
      | msg c =>
          have hca : c ≠ a := fun e => hi.2 (congrArg Place.msg e)
          simp only [Side.msgIn, hmsg]
          split
          · rename_i hc
            obtain ⟨-, q, hq, hqr⟩ := h.resp_msg hm (hc.resolve_left hca)
            rw [hq, Option.bind_none, Option.bind_some, hqr]
          · rfl
    · have hn : σ.msgIn (.task n) = some a := ht
      have ha : σ.msgIn (.msg a) = m.resp := by rw [Side.msgIn, hm, Option.bind_some]
      simp only [Side.Issued, hmsg, forall_eq_or_imp, forall_eq, hn, ha, ne_eq, Option.some.injEq]
      split
      · rename_i hy
        refine iff_of_false Bool.false_ne_true fun hout => ?_
        exact hy.elim (fun e => hout.2.1 e.symm) hout.2.2
      · rename_i hy
        rw [not_or] at hy
        exact ⟨fun hout => ⟨hout, fun e => hy.1 e.symm, hy.2⟩, fun hout => hout.1⟩
  · refine h.data.clear (P := fun i => ∃ c, (c = a ∨ m.resp = some c) ∧ i = .msg c) ?_ ?_ fun y => ?_
    · rintro i ⟨c, hc, rfl⟩
      show Side.payload _ c = none
      rw [hpay, if_pos hc]
    · intro i hi
      cases i with
      | task t =>
          show (Function.update σ.task n Task.idle t).data = (σ.task t).data
          by_cases htn : t = n
          · rw [htn, Function.update_self, Task.data_of_msg ht]
            rfl
          · rw [Function.update_of_ne htn]
      | receiver => simp only [Side.dataIn, hrecv]
      | msg c =>
          show Side.payload _ c = σ.payload c
          rw [hpay, if_neg fun hc => hi ⟨c, hc, rfl⟩]
    · rw [hheld, mem_payloads hm, not_exists]
      refine and_congr_right fun _ => ⟨?_, fun hy c hc => hy (.msg c) ⟨c, hc.1, rfl⟩ hc.2⟩
      rintro hy i ⟨c, hc, rfl⟩ e
      exact hy c ⟨hc, e⟩
  · rw [hpay]
    split
    · rfl
    · exact h.reading b (by rw [← hrecv]; exact hb)

/-! ## The client's tasks -/

/-- A task calls one of the operations. -/
theorem Owned.start (ht : σ.task n = .idle) :
    Owned cfg (σ.setTask n (if op.needsData = true then .getData op else .getMsg op none)) := by
  have hidle : σ.rpc.pc n = .idle := by
    have hf := h.fits n
    rw [ht] at hf
    exact hf
  split
  · rename_i hneed
    exact h.moves (by rw [ht]; rfl) (by rw [ht]; rfl) ⟨hidle, hneed⟩
  · rename_i hneed
    refine h.moves (by rw [ht]; rfl) (by rw [ht]; rfl) ⟨hidle, ?_⟩
    rw [Bool.not_eq_true] at hneed
    rw [hneed]
    rfl

/-- `do_write` gets its data buffer. -/
theorem Owned.getData (ht : σ.task n = .getData op) (hs : Serving cfg data)
    (hd : d ∉ σ.data.held) (hheld : data.held = d :: σ.data.held) :
    Owned cfg ({ σ with data := data }.setTask n (.getMsg op (some d))) := by
  obtain ⟨hidle, hneed⟩ : σ.rpc.pc n = .idle ∧ op.needsData = true := by
    have hf := h.fits n
    rw [ht] at hf
    exact hf
  have htask : ∀ t, (Side.setTask { σ with data := data } n (.getMsg op (some d))).task t =
      if t = n then .getMsg op (some d) else σ.task t := fun t => by
    simp only [Side.setTask, Function.update_apply]
  refine ⟨h.reach, hs, fun t => ?_, ?_, ?_, h.reading⟩
  · rw [htask]
    split
    · rename_i htn
      rw [htn]
      exact ⟨hidle, hneed.symm⟩
    · exact h.fits t
  · refine h.msgs.congr (fun i => ?_) fun _ => Iff.rfl
    cases i with
    | task t =>
        simp only [Side.msgIn, htask]
        split
        · rename_i htn
          rw [htn, ht]
          rfl
        · rfl
    | receiver => rfl
    | msg c => rfl
  · refine h.data.take (x := d) (k := Place.task n) hd (by rw [Side.dataIn, ht]; rfl) (fun i => ?_)
      fun y => ?_
    · cases i with
      | task t =>
          simp only [Side.dataIn, htask, Place.task.injEq]
          split <;> rfl
      | receiver => rfl
      | msg c => rfl
    · show y ∈ data.held ↔ _
      rw [hheld, List.mem_cons]

/-- `rpc_msg_get` returns, and the message has the data buffer. -/
theorem Owned.getMsg {c : Channel} {o : Option DataAddr} (ht : σ.task n = .getMsg op o)
    (hl : σ.rpc.chan.live alloc = false)
    (hget : σ.rpc.chan.msgGet cfg alloc op.msgtype op.msglen op.payloadlen op.payload = some (c, a))
    (hr : ((channelSystem cfg).only (ErrorFree cfg)).Reachable
      { σ.rpc with chan := c, gets := σ.rpc.gets + 1 }) :
    Owned cfg { σ with
      rpc := { σ.rpc with chan := c, gets := σ.rpc.gets + 1 }
      payloadAt := o.elim σ.payloadAt (Function.update σ.payloadAt a)
      task := Function.update σ.task n (.fill op a) } := by
  obtain ⟨hidle, hneed⟩ : σ.rpc.pc n = .idle ∧ o.isSome = op.needsData := by
    have hf := h.fits n
    rw [ht] at hf
    exact hf
  obtain ⟨lists, pending, hS⟩ := h.base.sound
  obtain ⟨-, hnone, m, hmsgs, hu, hmr, -⟩ := msgGet_spec hS hl hget
  obtain ⟨m₁, hm₁, -, hpayload, -⟩ := msgGet_message hget
  obtain rfl : m = m₁ := by
    rw [hmsgs, Function.update_self] at hm₁
    exact Option.some.inj hm₁
  have hsome : m.payload.isSome = o.isSome := by
    rw [hpayload, hneed]
    cases op <;> rfl
  have hmsg : ∀ y, c.msgs y = if y = a then some m else σ.rpc.chan.msgs y := fun y => by
    rw [hmsgs, Function.update_apply]
  have hne : ∀ y q, σ.rpc.chan.msgs y = some q → y ≠ a := fun y q hq => by
    rintro rfl
    rw [hnone] at hq
    cases hq
  have hat : ∀ y, y ≠ a → (o.elim σ.payloadAt (Function.update σ.payloadAt a) : Addr → DataAddr) y =
      σ.payloadAt y := fun y hy => by
    cases o with
    | none => rfl
    | some d => exact Function.update_of_ne hy ..
  obtain ⟨σ', hσ'⟩ : ∃ σ' : Side, σ' = { σ with
      rpc := { σ.rpc with chan := c, gets := σ.rpc.gets + 1 }
      payloadAt := o.elim σ.payloadAt (Function.update σ.payloadAt a)
      task := Function.update σ.task n (.fill op a) } := ⟨_, rfl⟩
  have htask : ∀ t, σ'.task t = if t = n then .fill op a else σ.task t := fun t => by
    simp only [hσ', Function.update_apply]
  have hpay : ∀ y, σ'.payload y = if y = a then o else σ.payload y := fun y => by
    simp only [hσ', Side.payload, hmsg]
    split
    · rename_i hy
      rw [hy, Option.bind_some]
      cases o with
      | none =>
          rw [Option.isSome_none, Option.isSome_eq_false_iff, Option.isNone_iff_eq_none] at hsome
          rw [hsome, Option.map_none]
      | some d =>
          obtain ⟨x, hx⟩ := Option.isSome_iff_exists.1 hsome
          rw [hx, Option.map_some, Option.elim_some, Function.update_self]
    · rename_i hy
      rw [hat y hy]
  have hnopay : σ.payload a = none := by rw [Side.payload, hnone, Option.bind_none]
  rw [← hσ']
  refine ⟨by rw [hσ']; exact hr, by rw [hσ']; exact h.pool, fun t => ?_, ?_, ?_, fun b hb => ?_⟩
  · have hrpc : σ'.rpc = { σ.rpc with chan := c, gets := σ.rpc.gets + 1 } := by rw [hσ']
    rw [htask, hrpc]
    split
    · rename_i htn
      rw [htn]
      exact ⟨hidle, m, by simp only [hmsg, if_true], hu⟩
    · rename_i htn
      refine (h.fits t).frame id rfl fun b P hb hP => ?_
      obtain ⟨q, hq, hPq⟩ := hP
      exact ⟨q, by simp only [hmsg, if_neg (hne b q hq), hq], hPq⟩
  · refine h.msgs.take (x := a) (k := Place.task n)
      (by rw [Side.Issued, hnone]; exact Bool.false_ne_true)
      (by rw [Side.msgIn, ht]; rfl) (fun i => ?_) fun y => ?_
    · cases i with
      | task t =>
          simp only [Side.msgIn, htask, Place.task.injEq]
          split <;> rfl
      | receiver => simp only [Side.msgIn, hσ', reduceCtorEq, if_false]
      | msg y =>
          simp only [Side.msgIn, hσ', hmsg, reduceCtorEq, if_false]
          split
          · rename_i hy
            rw [hy, hnone, Option.bind_some, Option.bind_none, hmr]
          · rfl
    · simp only [Side.Issued, hσ', hmsg]
      by_cases hy : y = a
      · rw [if_pos hy]
        exact iff_of_true rfl (.inl hy)
      · rw [if_neg hy]
        exact ⟨.inr, fun e => e.resolve_left hy⟩
  · cases o with
    | none =>
        refine h.data.congr (fun i => ?_) fun y => by rw [hσ']
        cases i with
        | task t =>
            simp only [Side.dataIn, htask]
            split
            · rename_i htn
              rw [htn, ht]
              rfl
            · rfl
        | receiver => simp only [Side.dataIn, hσ']
        | msg y =>
            simp only [Side.dataIn, hpay]
            split
            · rename_i hy
              rw [hy, hnopay]
            · rfl
    | some d =>
        refine h.data.hand (x := d) (k := Place.task n) (j := Place.msg a)
          (by rw [Side.dataIn, ht]; rfl) hnopay (fun i => ?_) fun y => by rw [hσ']
        cases i with
        | task t =>
            simp only [Side.dataIn, htask, reduceCtorEq, if_false, Place.task.injEq]
            split <;> rfl
        | receiver => simp only [Side.dataIn, hσ', reduceCtorEq, if_false]
        | msg y => simp only [Side.dataIn, hpay, reduceCtorEq, if_false, Place.msg.injEq]
  · rw [hpay]
    have hba : b ≠ a := by
      obtain ⟨q, hq⟩ : ∃ q, σ.rpc.chan.msgs b = some q := Option.isSome_iff_exists.1
        (h.msgs.out_of (k := Place.receiver) (by rw [hσ'] at hb; exact hb))
      exact hne b q hq
    rw [if_neg hba]
    exact h.reading b (by rw [hσ'] at hb; exact hb)

end

end Splitter

end VmwareProto
