import VmwareProto.Rpc.Uses
/-!
# What each step does

One inversion lemma for each function that a step runs, with everything it
can do. The invariants are proved from these and do not unfold the
functions.
-/

namespace VmwareProto

namespace Rpc

open Libtask

variable {cfg : Cfg} {σ σ' : State} {a b : Addr} {m : Msg} {n : TaskId} {k : Kind}

namespace State

/-! ## Sending -/

/-- `RPC_CHAN_LOCK`: past it, or in its queue. -/
theorem lock_cases (σ : State) (n : TaskId) (a : Addr) (k : Kind) (m : Msg) :
    (σ.chan.fdlock.owner = none ∧ σ.lock n a k m =
      { σ with
        chan := { σ.chan with fdlock := σ.chan.fdlock.qlock n }
        log := σ.log ++ [m.wire]
        pc := Function.update σ.pc n (.send k a .header m.hdrBytes) }) ∨
    ((∃ o, σ.chan.fdlock.owner = some o) ∧ σ.lock n a k m =
      { σ with
        chan := { σ.chan with fdlock := σ.chan.fdlock.qlock n }
        pc := Function.update σ.pc n (.lockWait k a) }) := by
  cases ho : σ.chan.fdlock.owner with
  | none => exact .inl ⟨rfl, by simp only [lock, ho]; rfl⟩
  | some o => exact .inr ⟨⟨o, rfl⟩, by simp only [lock, ho]; rfl⟩

theorem request_cases (h : σ.request cfg n a = some σ') : ∃ m, σ.chan.msgs a = some m ∧ m.Asserts ∧
    ((σ.chan.enabled = false ∧
      σ' = { σ with chan := σ.chan.setMsg a { m with use := .returned eDisabled } }) ∨
    (σ.chan.enabled = true ∧ ∃ m', m' = { m with hdr := m.hdr.setReq, use := .request n } ∧
      σ' = { σ with
        chan := (σ.chan.setMsg a m').hashAdd a (cfg.getBucket m'.hdr.seqid) }.lock n a .request m')) := by
  unfold request at h
  cases hm : σ.chan.msgs a with
  | none => simp [hm] at h
  | some m =>
      simp only [hm, Option.bind_eq_bind, Option.bind_some] at h
      split at h
      · cases h
      · rename_i has
        refine ⟨m, rfl, by simpa using has, ?_⟩
        split at h
        · rename_i he; exact .inl ⟨he, (Option.some.inj h).symm⟩
        · rename_i he
          exact .inr ⟨by simpa using he, _, rfl, (Option.some.inj h).symm⟩

theorem response_cases (h : σ.response cfg n a = some σ') :
    ∃ m, σ.chan.msgs a = some m ∧ m.Asserts ∧
    ((σ.chan.enabled = false ∧ ∃ l c, σ.chan.fdlock.qunlock = some l ∧
      Channel.msgPut cfg { σ.chan with fdlock := l } a = some c ∧ σ' = { σ with chan := c }) ∨
    (σ.chan.enabled = true ∧ ∃ m', m' = { m with hdr := m.hdr.setResp, use := .response n } ∧
      σ' = { σ with chan := σ.chan.setMsg a m' }.lock n a .response m')) := by
  unfold response at h
  cases hm : σ.chan.msgs a with
  | none => simp [hm] at h
  | some m =>
      simp only [hm, Option.bind_eq_bind, Option.bind_some] at h
      split at h
      · cases h
      · rename_i has
        refine ⟨m, rfl, by simpa using has, ?_⟩
        split at h
        · rename_i he
          simp only [Option.bind_eq_some_iff, Channel.unlock, Option.map_eq_some_iff,
            Option.some.injEq] at h
          obtain ⟨-, ⟨l, hl, rfl⟩, c, hc, rfl⟩ := h
          exact .inl ⟨he, l, c, hl, hc, rfl⟩
        · rename_i he
          exact .inr ⟨by simpa using he, _, rfl, (Option.some.inj h).symm⟩

theorem resume_cases (h : σ.resume n = some σ') : ∃ k a m, σ.pc n = .lockWait k a ∧
    σ.chan.msgs a = some m ∧ σ.chan.fdlock.owner = some n ∧
    σ' = { σ with
      log := σ.log ++ [m.wire]
      pc := Function.update σ.pc n (.send k a .header m.hdrBytes) } := by
  unfold resume at h
  split at h
  · rename_i k a hpc
    simp only [Option.bind_eq_bind, Option.bind_eq_some_iff] at h
    obtain ⟨m, hm, h⟩ := h
    split at h
    · cases h
    · rename_i ho
      exact ⟨k, a, m, hpc, hm, by simpa using ho, (Option.some.inj h).symm⟩
  · cases h

/-- Everything is written: a request sleeps, a response is put. -/
theorem complete_cases (h : σ.complete cfg n a k = some σ') :
    ∃ l, σ.chan.fdlock.qunlock = some l ∧
    ((k = .request ∧ ∃ m, σ.chan.msgs a = some m ∧
      σ' = { σ with
        chan := { σ.chan with fdlock := l }.setMsg a { m with rendez := m.rendez ++ [n] }
        pc := Function.update σ.pc n (.asleep a) }) ∨
    (k = .response ∧ ∃ c, Channel.msgPut cfg { σ.chan with fdlock := l } a = some c ∧
      σ' = { σ with chan := c, pc := Function.update σ.pc n .idle })) := by
  simp only [complete, Channel.unlock, Option.bind_eq_bind, Option.bind_eq_some_iff,
    Option.map_eq_some_iff] at h
  obtain ⟨-, ⟨l, hl, rfl⟩, h⟩ := h
  refine ⟨l, hl, ?_⟩
  cases k with
  | request =>
      simp only [Option.bind_eq_some_iff] at h
      obtain ⟨m, hm, h⟩ := h
      exact .inl ⟨rfl, m, hm, (Option.some.inj h).symm⟩
  | response =>
      simp only [Option.bind_eq_some_iff] at h
      obtain ⟨c, hc, h⟩ := h
      exact .inr ⟨rfl, c, hc, (Option.some.inj h).symm⟩

theorem write_cases {r : WriteResult} (h : σ.write cfg n r = some σ') :
    ∃ k a part rest, σ.pc n = .send k a part rest ∧
    ((r = .again ∧ σ' = σ) ∨
    (∃ res, (r = .zero ∧ res = eConn ∨ r = .error res) ∧ σ' = σ.fail n a k res) ∨
    ∃ j m, r = .sent j ∧ σ.chan.msgs a = some m ∧
      ((∃ part' rest', left m part (rest.drop j) = some (part', rest') ∧
        σ' = { σ with
          sent := σ.sent ++ rest.take j
          pc := Function.update σ.pc n (.send k a part' rest') }) ∨
      (left m part (rest.drop j) = none ∧
        { σ with sent := σ.sent ++ rest.take j }.complete cfg n a k = some σ'))) := by
  unfold write at h
  split at h
  · rename_i k a part rest hpc
    refine ⟨k, a, part, rest, hpc, ?_⟩
    cases r with
    | again => exact .inl ⟨rfl, (Option.some.inj h).symm⟩
    | zero => exact .inr (.inl ⟨eConn, .inl ⟨rfl, rfl⟩, (Option.some.inj h).symm⟩)
    | error e => exact .inr (.inl ⟨e, .inr rfl, (Option.some.inj h).symm⟩)
    | sent j =>
        simp only [Option.bind_eq_bind, Option.bind_eq_some_iff] at h
        obtain ⟨m, hm, h⟩ := h
        refine .inr (.inr ⟨j, m, rfl, hm, ?_⟩)
        split at h
        · rename_i part' rest' hleft
          exact .inl ⟨part', rest', hleft, (Option.some.inj h).symm⟩
        · rename_i hleft
          exact .inr ⟨hleft, h⟩
  · cases h

theorem unlock_cases (h : σ.unlock cfg n = some σ') : ∃ k a res l, σ.pc n = .unlock k a res ∧
    σ.chan.fdlock.qunlock = some l ∧
    ((k = .request ∧ ∃ m, σ.chan.msgs a = some m ∧
      σ' = { σ with
        chan := { σ.chan with fdlock := l }.setMsg a { m with use := .returned res }
        pc := Function.update σ.pc n .idle }) ∨
    (k = .response ∧ ∃ c, Channel.msgPut cfg { σ.chan with fdlock := l } a = some c ∧
      σ' = { σ with chan := c, pc := Function.update σ.pc n .idle })) := by
  unfold unlock at h
  split at h
  · rename_i k a res hpc
    simp only [Channel.unlock, Option.bind_eq_bind, Option.bind_eq_some_iff,
      Option.map_eq_some_iff] at h
    obtain ⟨-, ⟨l, hl, rfl⟩, h⟩ := h
    refine ⟨k, a, res, l, hpc, hl, ?_⟩
    cases k with
    | request =>
        simp only [Option.bind_eq_some_iff] at h
        obtain ⟨m, hm, h⟩ := h
        exact .inl ⟨rfl, m, hm, (Option.some.inj h).symm⟩
    | response =>
        simp only [Option.bind_eq_some_iff] at h
        obtain ⟨c, hc, h⟩ := h
        exact .inr ⟨rfl, c, hc, (Option.some.inj h).symm⟩
  · cases h

theorem wake_cases (h : σ.wake n = some σ') : ∃ a m, σ.pc n = .woken a ∧
    σ.chan.msgs a = some m ∧ m.resp ≠ none ∧
    σ' = { σ with
      chan := σ.chan.setMsg a { m with use := .returned 0 }
      pc := Function.update σ.pc n .idle } := by
  unfold wake at h
  split at h
  · rename_i a hpc
    simp only [Option.bind_eq_bind, Option.bind_eq_some_iff] at h
    obtain ⟨m, hm, h⟩ := h
    split at h
    · cases h
    · rename_i hr
      exact ⟨a, m, hpc, hm, hr, (Option.some.inj h).symm⟩
  · cases h

/-! ## Receiving -/

/-- The message a finished call of `_rpc_receive` returns. -/
theorem deliver_cases {r : Recv} (h : σ.deliver cfg b r = some σ') :
    ∃ m, m.use = .reading ∧ m.resp = none ∧ m.rendez = [] ∧ σ.dispatch cfg b m = some σ' ∧
    (((∃ h, r.pc = .done h) ∧ m = { Msg.ofBytes cfg.toRecvCfg r.stored with payload := r.payload }) ∨
      r.pc = .errout ∧ m.hdr.isConnClosed = true) := by
  unfold deliver at h
  split at h
  · rename_i hd hpc
    exact ⟨_, rfl, rfl, rfl, h, .inl ⟨⟨hd, hpc⟩, rfl⟩⟩
  · rename_i hpc
    exact ⟨_, rfl, rfl, rfl, h, .inr ⟨hpc, MsgHdr.isConnClosed_setConnClosed _⟩⟩
  · cases h

theorem settle_cases {r : Recv} (h : σ.settle cfg b r = some σ') :
    (r.finished = false ∧ σ' = { σ with recv := .receiving b r }) ∨
    (r.finished = true ∧ σ.deliver cfg b r = some σ') := by
  unfold settle at h
  split at h
  · rename_i hf; exact .inr ⟨hf, h⟩
  · rename_i hf; exact .inl ⟨by simpa using hf, (Option.some.inj h).symm⟩

/-- Where the receiver stood before makes no difference once it has its
message. -/
theorem settle_recv (σ : State) (b : Addr) (r : Recv) (q : RecvTask) :
    State.settle cfg { σ with recv := q } b r = σ.settle cfg b r := by
  unfold settle deliver dispatch rpcResponse
  rfl

theorem recvStart_cases {alloc : Addr} (h : σ.recvStart cfg alloc = some σ') :
    ∃ c b, σ.chan.poolGet cfg alloc = some (c, b) ∧
      State.settle cfg { σ with
        chan := c.setMsg b (.ofBytes cfg.toRecvCfg [])
        recv := .receiving b (.start c.enabled) } b (.start c.enabled) = some σ' := by
  unfold recvStart at h
  cases hg : σ.chan.poolGet cfg alloc with
  | none => simp [hg] at h
  | some x =>
      obtain ⟨c, b⟩ := x
      simp only [hg, Option.bind_eq_bind, Option.bind_some] at h
      exact ⟨c, b, rfl, h⟩

theorem recvTake_cases {j : ℕ} (h : σ.recvTake cfg j = some σ') :
    ∃ b r r', σ.recv = .receiving b r ∧
      r.read cfg.toRecvCfg (.bytes (σ.inq.take j)) = some r' ∧
      State.settle cfg { σ with inq := σ.inq.drop j } b r' = some σ' := by
  unfold recvTake at h
  split at h
  · rename_i b r hq
    simp only [Option.bind_eq_bind, Option.bind_eq_some_iff] at h
    obtain ⟨r', hr', h⟩ := h
    split at h
    · cases h
    · exact ⟨b, r, r', hq, hr', h⟩
  · cases h

theorem recvOther_cases {res : ReadResult} (h : σ.recvOther cfg res = some σ') :
    ∃ b r r', σ.recv = .receiving b r ∧ r.read cfg.toRecvCfg res = some r' ∧
      σ.settle cfg b r' = some σ' := by
  unfold recvOther at h
  split at h
  · rename_i b r hq
    simp only [Option.bind_eq_bind, Option.bind_eq_some_iff] at h
    obtain ⟨r', hr', h⟩ := h
    exact ⟨b, r, r', hq, hr', h⟩
  · cases h

theorem recvData_cases (h : σ.recvData cfg = some σ') :
    ∃ b r r', σ.recv = .receiving b r ∧ r.getData = some r' ∧ σ.settle cfg b r' = some σ' := by
  unfold recvData at h
  split at h
  · rename_i b r hq
    simp only [Option.bind_eq_bind, Option.bind_eq_some_iff] at h
    obtain ⟨r', hr', h⟩ := h
    exact ⟨b, r, r', hq, hr', h⟩
  · cases h

theorem dispatch_cases (h : σ.dispatch cfg b m = some σ') :
    (m.hdr.isConnClosed = true ∧ σ' = σ.leave b m) ∨
    (m.hdr.isConnClosed = false ∧ m.hdr.isReq = true ∧
      σ' = { σ with chan := σ.chan.setMsg b { m with use := .handed }, recv := .idle }) ∨
    (m.hdr.isConnClosed = false ∧ m.hdr.isReq = false ∧
      State.rpcResponse cfg { σ with chan := σ.chan.setMsg b m } b m.hdr = some σ') := by
  unfold dispatch at h
  split at h
  · rename_i hc; exact .inl ⟨hc, (Option.some.inj h).symm⟩
  · rename_i hc
    split at h
    · rename_i hr
      exact .inr (.inl ⟨by simpa using hc, hr, (Option.some.inj h).symm⟩)
    · rename_i hr
      exact .inr (.inr ⟨by simpa using hc, by simpa using hr, h⟩)

/-- **`_rpc_response`**: the response goes to the pending request with its
sequence id, whose task is woken if it sleeps; if there is none, the
assertion fails. -/
theorem rpcResponse_spec {ok : Prop} {lists : Option ℕ → List Addr} {pending : List Addr}
    {q : Recv} (hU : Uses σ) (hS : Sound cfg ok σ.chan lists pending) (hok : ok)
    (hq : σ.recv = .receiving b q) (hu : m.use = .reading) :
    (∃ a p n c', σ.chan.msgs a = some p ∧ p.use = .request n ∧ p.resp = none ∧
      p.hdr.seqid = m.hdr.seqid ∧
      State.rpcResponse cfg { σ with chan := σ.chan.setMsg b m } b m.hdr = some { σ with
        chan := c'
        pc := if σ.pc n = .asleep a then Function.update σ.pc n (.woken a) else σ.pc
        recv := .idle } ∧
      (∀ y, c'.msgs y = if y = a then some { p with resp := some b, rendez := [] }
        else if y = b then some { m with use := .attached a } else σ.chan.msgs y) ∧
      σ.chan.Keeps c' ∧ ∃ lists' pending', Sound cfg ok c' lists' pending') ∨
    (State.rpcResponse cfg { σ with chan := σ.chan.setMsg b m } b m.hdr = none ∧
      ∀ a p, σ.chan.msgs a = some p → p.Pending → p.hdr.seqid ≠ m.hdr.seqid) := by
  obtain ⟨m₀, hm₀, hu₀⟩ := hU.buffer b q hq
  have hnp₀ : ¬ m₀.Pending := by rintro ⟨⟨n, hn⟩, -⟩; rw [hu₀] at hn; cases hn
  have hnp : ¬ m.Pending := by rintro ⟨⟨n, hn⟩, -⟩; rw [hu] at hn; cases hn
  have hS₁ : Sound cfg ok (σ.chan.setMsg b m) lists pending :=
    hS.replace hm₀ (fun _ => hnp₀) fun _ => hnp
  have hne : ∀ a p, (σ.chan.setMsg b m).msgs a = some p → p.Pending →
      a ≠ b ∧ σ.chan.msgs a = some p := fun a p hp hpp => by
    have hab : a ≠ b := by
      rintro rfl
      simp only [setMsg_msgs, Function.update_self, Option.some.injEq] at hp
      exact hnp (hp ▸ hpp)
    rw [setMsg_msgs, Function.update_of_ne hab] at hp
    exact ⟨hab, hp⟩
  unfold rpcResponse
  rcases hashLookup_spec (hS₁.2 hok) m.hdr.seqid with ⟨a, p, hlook, hp₁, hpp, hid⟩ | ⟨hlook, hnone⟩
  · obtain ⟨hab, hp⟩ := hne a p hp₁ hpp
    obtain ⟨⟨n, hpu⟩, hpr⟩ := hpp
    obtain ⟨c, hrem, hcm, hk, hsound⟩ := hashRem_spec hS₁ hok hp₁ ⟨⟨n, hpu⟩, hpr⟩
    obtain ⟨lists', hS₂⟩ := hsound { p with resp := some b } (by rintro ⟨-, h⟩; cases h)
    have hca : c.msgs a = some p := by rw [hcm, hp₁]
    have hcb : c.msgs b = some m := by rw [hcm, setMsg_msgs, Function.update_self]
    set c₁ := (c.setMsg a { p with resp := some b }).setMsg b { m with use := .attached a } with hc₁
    have hS₃ : Sound cfg ok c₁ lists' (pending.erase a) := by
      refine hS₂.replace (m := m) ?_ (fun _ => hnp) fun _ => by rintro ⟨⟨_, h⟩, -⟩; cases h
      rw [setMsg_msgs, Function.update_of_ne hab.symm, hcb]
    have hc₁a : c₁.msgs a = some { p with resp := some b } := by
      rw [hc₁, setMsg_msgs, Function.update_of_ne hab, setMsg_msgs, Function.update_self]
    have hc₁y : ∀ y, y ≠ a → c₁.msgs y = if y = b then some { m with use := .attached a }
        else σ.chan.msgs y := fun y hy => by
      rw [hc₁, setMsg_msgs, Function.update_apply, setMsg_msgs, Function.update_of_ne hy, hcm,
        setMsg_msgs]
      split
      · rfl
      · rename_i hyb; rw [Function.update_of_ne hyb]
    have hk₁ : σ.chan.Keeps c₁ := (keeps_setMsg.trans hk).trans (keeps_setMsg.trans keeps_setMsg)
    refine .inl ⟨a, p, n, c₁.setMsg a { p with resp := some b, rendez := [] }, hp, hpu, hpr, hid, ?_,
      fun y => ?_, hk₁.trans keeps_setMsg, lists', pending.erase a, ?_⟩
    · simp only [hlook, hrem, hca, hcb, Option.bind_eq_bind, Option.bind_some, wakeup]
      rw [← hc₁]
      simp only [hc₁a, Option.bind_some]
      have hf := hU.fits a p hp
      simp only [Msg.Fits, hpu] at hf
      obtain ⟨-, hz, -⟩ := hf
      by_cases hs : σ.pc n = .asleep a
      · rw [if_pos hs] at hz
        simp only [hz, if_pos hs, setPc]
      · rw [if_neg hs] at hz
        have hself : c₁.setMsg a { p with resp := some b, rendez := [] } = c₁ :=
          setMsg_eq_self (by rw [hc₁a]; simp only [hz])
        simp only [hz, if_neg hs, hself]
    · rw [setMsg_msgs, Function.update_apply]
      split
      · rfl
      · rename_i hy; exact hc₁y y hy
    · exact hS₃.replace hc₁a (fun _ => by rintro ⟨-, h⟩; cases h)
        fun _ => by rintro ⟨-, h⟩; cases h
  · refine .inr ⟨by simp [hlook], fun a p hp hpp => ?_⟩
    have hab : a ≠ b := by
      rintro rfl
      rw [hm₀] at hp
      exact hnp₀ (Option.some.inj hp ▸ hpp)
    exact hnone a p (by rw [setMsg_msgs, Function.update_of_ne hab, hp]) hpp

end State

end Rpc

end VmwareProto
