import VmwareProto.BufPool.Ownership
import VmwareProto.Rpc.Receiver
import VmwareProto.Rpc.Sender
/-!
# Stray requests

`rpc_default_handler` gets the requests nobody handles. It puts a request's
payload and sends what is left of it as the response, with a status of its
own; the header is not touched otherwise and still has the payload's length,
which `rpc_response` asserts goes with a payload. A request without one is
answered as it should be, unless its header was accepted though the message
buffer has no room for it: then the receiver has written behind the buffer
before there is a task for the handler.
-/

namespace VmwareProto

namespace Rpc

open Libtask

/-- `RPC_ENOSYS`. -/
def eNosys : BitVec 16 := 2003

/-- A channel with its pool of data buffers; `data a` is the data buffer of
the message in `a`, if that has a payload. -/
structure Endpoint where
  σ : State
  datapool : BufPool.State
  data : Addr → BufPool.Addr

namespace Endpoint

variable (cfg : Cfg) (e : Endpoint) (n : TaskId) (a : Addr)

/-- `rpc_databuf_put` of the payload of `m`, the message in `a`, if it has
one. -/
def databufPut (m : Msg) : Option BufPool.State :=
  if m.payload = none then some e.datapool else (BufPool.Action.put (e.data a)).exec e.datapool

/-- `rpc_msg_put`. -/
def msgPut : Option Endpoint := do
  let m ← e.σ.chan.msgs a
  let pool ←
    match m.resp with
    | none => some e.datapool
    | some b => (e.σ.chan.msgs b).bind fun r => e.databufPut b r
  let pool ← databufPut ⟨e.σ, pool, e.data⟩ a m
  let c ← e.σ.chan.msgPut cfg a
  some ⟨{ e.σ with chan := c }, pool, e.data⟩

/-- The request as `rpc_default_handler` answers it. -/
def answer (m : Msg) : Msg := { m with payload := none, hdr := { m.hdr with status := eNosys } }

/-- `rpc_default_handler`, run by task `n` on the message in `a`: up to
`RPC_CHAN_LOCK` in `rpc_response`, or to its end. -/
def rpcDefaultHandler : Option Endpoint := do
  let m ← e.σ.chan.msgs a
  let pool ← e.databufPut a m
  let σ := { e.σ with chan := e.σ.chan.setMsg a (answer m) }
  if m.hdr.isConnClosed = true then msgPut cfg ⟨σ, pool, e.data⟩ a
  else do
    let σ ← σ.response cfg n a
    some ⟨σ, pool, e.data⟩

end Endpoint

/-- The message that `_rpc_receive` returns, as its handler gets it. -/
def Recv.returned (cfg : RecvCfg) (r : Recv) : Option Msg :=
  match r.pc with
  | .done _ => some { Msg.ofBytes cfg r.stored with payload := r.payload, use := .handed }
  | .errout =>
      some { Msg.ofBytes cfg r.stored with
        hdr := (MsgHdr.decode r.stored).setConnClosed
        use := .handed }
  | _ => none

/-- The step `act` brings the call of `_rpc_receive` whose buffer is `a` to
`r`: it is its first step, or a read. -/
def Reads (cfg : Cfg) (σ : State) (a : Addr) (r : Recv) : Action → Prop
  | .recvStart alloc => ∃ c, σ.chan.poolGet cfg alloc = some (c, a) ∧ r = .start c.enabled
  | .recvTake k => ∃ q, σ.recv = .receiving a q ∧
      q.read cfg.toRecvCfg (.bytes (σ.inq.take k)) = some r
  | .recvOther res => ∃ q, σ.recv = .receiving a q ∧ q.read cfg.toRecvCfg res = some r
  | _ => False

/-- The step `act` ends `_rpc_receive`, with the message `m` in `a`. -/
def Returns (cfg : Cfg) (σ : State) (act : Action) (a : Addr) (m : Msg) : Prop :=
  ∃ r, Reads cfg σ a r act ∧ r.returned cfg.toRecvCfg = some m

/-- **The message `m` in `a` is refused** by task `n`. Its payload is put. If
it says that the connection is closed it is put itself and nothing is sent;
else the task sends one message, with the request's sequence id and
`RPC_ENOSYS`, of the lengths its header has. -/
def Refused (cfg : Cfg) (e : Endpoint) (n : TaskId) (a : Addr) (m : Msg) : Prop :=
  ∃ e', e.rpcDefaultHandler cfg n a = some e' ∧ e.databufPut a m = some e'.datapool ∧
    if m.hdr.isConnClosed = true then
      e'.σ.chan.msgs a = none ∧ e'.σ.chan.issued + 1 = e.σ.chan.issued ∧
        e'.σ.sent = e.σ.sent ∧ e'.σ.log = e.σ.log ∧ e'.σ.pc = e.σ.pc
    else ∃ bytes, IsMessage bytes ∧ (MsgHdr.decode bytes).seqid = m.hdr.seqid ∧
      (MsgHdr.decode bytes).status = eNosys ∧ (MsgHdr.decode bytes).isReq = false ∧
      ∀ w, (watchSystem cfg n a e'.σ).Reachable w → Sends cfg n a e'.σ bytes w

/-- **What the step `act` receives is refused**, the message `m` in `a`: the
step returns and hands it over, and from then on task `n` can refuse it for
as long as it is as it was handed over, a request while the channel is
enabled. -/
def RefusedOnArrival (cfg : Cfg) (σ : State) (act : Action) (a : Addr) (m : Msg) (n : TaskId)
    (datapool : BufPool.State) (data : Addr → BufPool.Addr) : Prop :=
  ∃ σ', (channelSystem cfg).exec σ act = some σ' ∧ σ'.chan.msgs a = some m ∧
    ∀ acts τ, (channelSystem cfg).Steps σ' acts τ → τ.chan.msgs a = some m → τ.pc n = .idle →
      (m.hdr.isConnClosed = false → τ.chan.enabled = true) → Refused cfg ⟨τ, datapool, data⟩ n a m

/-! ## What is delivered -/

variable {cfg : Cfg} {e : Endpoint} {σ : State} {act : Action} {n : TaskId} {a : Addr} {m : Msg}
  {c : Channel} {r : Recv} {bufsize nbufs nmax : ℕ} {datapool : BufPool.State}
  {data : Addr → BufPool.Addr}

/-- A delivered message is in its handler's hands, and if it is a request
its header agrees with its buffers. -/
structure Delivered (m : Msg) : Prop where
  use : m.use = .handed
  resp : m.resp = none
  lengths : m.hdr.isConnClosed = false → hdrSize ≤ m.hdr.len ∧ m.hdr.len ≤ hdrSize + m.body.length ∧
    (m.payload = none ↔ m.hdr.plen = 0)

/-- A call that failed returns a message that says so. -/
theorem Recv.returned_errout {rcfg : RecvCfg} (hm : r.returned rcfg = some m)
    (hpc : r.pc = .errout) : m.hdr.isConnClosed = true := by
  simp only [returned, hpc] at hm
  rw [← Option.some.inj hm]
  exact MsgHdr.isConnClosed_setConnClosed _

theorem Recv.Ok.delivered (hr : r.Ok cfg.toRecvCfg) (hm : r.returned cfg.toRecvCfg = some m) :
    Delivered m := by
  obtain ⟨pc, st, p⟩ := r
  cases pc with
  | done h =>
      obtain ⟨hh, hst, -, hp⟩ := hr
      obtain rfl := Option.some.inj hm
      simp only at hh hst hp
      have hge := hh.le_len
      have hsize := hh.size
      refine ⟨rfl, rfl, fun _ => ?_⟩
      show hdrSize ≤ (MsgHdr.decode st).len ∧ (MsgHdr.decode st).len ≤ hdrSize + _ ∧
        (p = none ↔ (MsgHdr.decode st).plen = 0)
      rw [← hh.eq, ← hst]
      refine ⟨hsize, ?_, ?_⟩
      · simp only [Msg.ofBytes, List.length_append, List.length_drop, List.length_replicate]
        omega
      · rcases hp with ⟨h0, rfl⟩ | ⟨q, rfl, hpos, -⟩
        · exact iff_of_true rfl h0
        · exact iff_of_false (Option.some_ne_none q) (Nat.ne_of_gt hpos)
  | errout =>
      have hclosed := returned_errout hm rfl
      obtain rfl := Option.some.inj hm
      refine ⟨rfl, rfl, fun hcc => ?_⟩
      rw [hclosed] at hcc
      cases hcc
  | _ => cases hm

/-- What `_rpc_receive` has read is a state of one call. -/
theorem Reads.ok (hr : (channelSystem cfg).Reachable σ) (he : act.Allowed cfg σ)
    (h : Reads cfg σ a r act) : r.Ok cfg.toRecvCfg := by
  have hR := receives_reachable hr
  cases act with
  | recvStart alloc =>
      obtain ⟨c, -, rfl⟩ := h
      exact Recv.ok_start _
  | recvTake k =>
      obtain ⟨q, hq, hread⟩ := h
      obtain ⟨_, _, e, -, hk, hw, hlen⟩ := he
      obtain ⟨rfl, rfl⟩ := RecvTask.receiving.inj (hq.symm.trans e)
      have htake : (σ.inq.take k).length = k := by simpa using hlen
      rcases Recv.read_ok (hR _ _ hq).1 (by omega : 0 < (σ.inq.take k).length) (by omega) with
        ⟨-, -, -, hnone⟩ | ⟨r', hr', hok⟩
      · rw [hread] at hnone
        cases hnone
      · obtain rfl := Option.some.inj (hread.symm.trans hr')
        exact hok
  | recvOther res =>
      obtain ⟨q, hq, hread⟩ := h
      obtain ⟨_, _, -, -, hres⟩ := he
      cases res with
      | bytes bs => exact absurd rfl (hres bs)
      | again =>
          obtain rfl := Option.some.inj hread
          exact (hR _ _ hq).1
      | closed =>
          rw [← Option.some.inj hread]
          exact Recv.errout_ok (hR _ _ hq).1
      | error =>
          rw [← Option.some.inj hread]
          exact Recv.errout_ok (hR _ _ hq).1
  | _ => exact h.elim

/-- A message that the task does not take for a response is handed over, as
it was received. -/
theorem settle_returned {σ : State} (hm : r.returned cfg.toRecvCfg = some m)
    (ht : m.hdr.isConnClosed = true ∨ m.hdr.isReq = true) :
    ∃ σ', σ.settle cfg a r = some σ' ∧ σ'.chan.msgs a = some m ∧ σ'.pc = σ.pc ∧
      (m.hdr.isConnClosed = false → σ'.chan.enabled = σ.chan.enabled) := by
  have hgo : ∀ p : Msg, { p with use := .handed } = m → ∃ σ', σ.dispatch cfg a p = some σ' ∧
      σ'.chan.msgs a = some m ∧ σ'.pc = σ.pc ∧
      (m.hdr.isConnClosed = false → σ'.chan.enabled = σ.chan.enabled) := by
    rintro p rfl
    unfold State.dispatch
    by_cases hcc : p.hdr.isConnClosed = true
    · rw [if_pos hcc]
      refine ⟨_, rfl, Function.update_self .., rfl, fun h => ?_⟩
      rw [show p.hdr.isConnClosed = false from h] at hcc
      cases hcc
    · rw [if_neg hcc, if_pos (ht.resolve_left hcc)]
      exact ⟨_, rfl, Function.update_self .., rfl, fun _ => rfl⟩
  unfold Recv.returned at hm
  split at hm
  · rename_i h hpc
    simp only [State.settle, Recv.finished, State.deliver, hpc, if_true]
    exact hgo _ (Option.some.inj hm)
  · rename_i hpc
    simp only [State.settle, Recv.finished, State.deliver, hpc, if_true]
    exact hgo _ (Option.some.inj hm)
  · cases hm

/-- **What a step that ends `_rpc_receive` comes to**: bytes are stored where
the buffer has no room, or the message is handed over. -/
theorem returns_cases (hr : (channelSystem cfg).Reachable σ) (he : act.Allowed cfg σ)
    (h : Returns cfg σ act a m) (ht : m.hdr.isConnClosed = true ∨ m.hdr.isReq = true) :
    (Overrun cfg σ act ∧ act.exec cfg σ = none) ∨
      ¬Overrun cfg σ act ∧ ∃ σ', act.exec cfg σ = some σ' ∧ σ'.chan.msgs a = some m ∧
        σ'.pc = σ.pc ∧ (m.hdr.isConnClosed = false → σ'.chan.enabled = true) := by
  have hR := receives_reachable hr
  have hgate := (base_reachable hr).gate
  obtain ⟨r, hread, hm⟩ := h
  cases act with
  | recvStart alloc =>
      obtain ⟨c, hget, rfl⟩ := hread
      refine .inr ⟨not_overrun fun k => Action.noConfusion, ?_⟩
      obtain ⟨σ', hx, hmsg, hpc, hen⟩ := settle_returned (a := a)
        (σ := { σ with chan := c.setMsg a (.ofBytes cfg.toRecvCfg []) }) hm ht
      have hx' : (Action.recvStart alloc).exec cfg σ = some σ' := by
        simp only [Action.exec, State.recvStart, hget]
        exact hx
      refine ⟨σ', hx', hmsg, hpc, fun hcc => ?_⟩
      -- only on a disabled channel does the call end where it starts
      cases hc : c.enabled with
      | true =>
          rw [hc] at hm
          cases hm
      | false =>
          rw [hc] at hm
          rw [Recv.returned_errout hm rfl] at hcc
          cases hcc
  | recvTake k =>
      obtain ⟨q, hq, hread⟩ := hread
      obtain ⟨_, _, e, ho, hk, hw, hlen⟩ := he
      obtain ⟨rfl, rfl⟩ := RecvTask.receiving.inj (hq.symm.trans e)
      have hover : Overrun cfg σ (.recvTake k) ↔ cfg.msgsz < r.stored.length := by
        have htake : (σ.inq.take k).length = k := by simpa using hlen
        rw [Recv.overrun_iff (hR _ _ hq).1 (hR _ _ hq).2.2 (by omega) hread, htake,
          overrun_take hq]
      have hexec : (Action.recvTake k).exec cfg σ = if cfg.msgsz < r.stored.length then none
          else State.settle cfg { σ with inq := σ.inq.drop k } a r := by
        simp only [Action.exec, State.recvTake, hq, hread, Option.bind_eq_bind, Option.bind_some]
      rw [hover, hexec]
      by_cases hgt : cfg.msgsz < r.stored.length
      · exact .inl ⟨hgt, if_pos hgt⟩
      · rw [if_neg hgt]
        obtain ⟨σ', hx, hmsg, hpc, hen⟩ := settle_returned (a := a)
          (σ := { σ with inq := σ.inq.drop k }) hm ht
        have hopen : σ.chan.enabled = true := hgate (by simp [hq]) ho
        exact .inr ⟨hgt, σ', hx, hmsg, hpc, fun hcc => (hen hcc).trans hopen⟩
  | recvOther res =>
      obtain ⟨q, hq, hread⟩ := hread
      obtain ⟨_, _, e, -, hres⟩ := he
      refine .inr ⟨not_overrun fun k => Action.noConfusion, ?_⟩
      obtain ⟨σ', hx, hmsg, hpc, -⟩ := settle_returned (a := a) (σ := σ) hm ht
      have hx' : (Action.recvOther res).exec cfg σ = some σ' := by
        simp only [Action.exec, State.recvOther, hq, hread]
        exact hx
      refine ⟨σ', hx', hmsg, hpc, fun hcc => ?_⟩
      -- a read that takes no bytes completes no message
      have herr : r.pc = .errout := by
        cases res with
        | bytes bs => exact absurd rfl (hres bs)
        | again =>
            obtain rfl := Option.some.inj hread
            have hf := (hR _ _ hq).2.1
            unfold Recv.returned at hm
            unfold Recv.finished at hf
            split at hf
            · cases hf
            · cases hf
            · rename_i h₁ h₂
              split at hm
              · rename_i h hpc'
                exact absurd hpc' (h₁ h)
              · assumption
              · cases hm
        | closed => rw [← Option.some.inj hread]
        | error => rw [← Option.some.inj hread]
      rw [Recv.returned_errout hm herr] at hcc
      cases hcc
  | _ => exact hread.elim

/-- The payload is put without a fault. -/
theorem Endpoint.exists_databufPut (hp : (BufPool.poolSystem bufsize nbufs nmax).Reachable e.datapool)
    (hdata : m.payload ≠ none → e.data a ∈ e.datapool.held) :
    ∃ pool, e.databufPut a m = some pool := by
  unfold databufPut
  by_cases hn : m.payload = none
  · exact ⟨e.datapool, if_pos hn⟩
  · rw [if_neg hn]
    obtain ⟨pool, hx, -⟩ := (BufPool.sound_reachable hp).put (hdata hn)
    exact ⟨pool, hx⟩

/-! ## The handler -/

theorem Endpoint.rpcDefaultHandler_eq {pool : BufPool.State} (hm : e.σ.chan.msgs a = some m)
    (hput : e.databufPut a m = some pool) :
    e.rpcDefaultHandler cfg n a =
      if m.hdr.isConnClosed = true then
        msgPut cfg ⟨{ e.σ with chan := e.σ.chan.setMsg a (answer m) }, pool, e.data⟩ a
      else ({ e.σ with chan := e.σ.chan.setMsg a (answer m) }.response cfg n a).map fun σ =>
        ⟨σ, pool, e.data⟩ := by
  simp only [rpcDefaultHandler, hm, hput, Option.bind_eq_bind, Option.bind_some]
  split
  · rfl
  · rw [Option.map_eq_bind]
    rfl

/-- `rpc_msg_put` of a message that has nothing but its own buffer. -/
theorem Endpoint.msgPut_eq (hm : e.σ.chan.msgs a = some m) (hr : m.resp = none)
    (hpay : m.payload = none) (hc : e.σ.chan.msgPut cfg a = some c) :
    e.msgPut cfg a = some ⟨{ e.σ with chan := c }, e.datapool, e.data⟩ := by
  simp only [msgPut, hm, hr, databufPut, hpay, if_true, hc, Option.bind_eq_bind, Option.bind_some]

/-- What it does with a message that says the connection is closed. -/
theorem refused_closed (hr : (channelSystem cfg).Reachable e.σ) (hm : e.σ.chan.msgs a = some m)
    (hd : Delivered m) {pool : BufPool.State} (hput : e.databufPut a m = some pool)
    (hcc : m.hdr.isConnClosed = true) : Refused cfg e n a m := by
  have hresp := hd.resp
  obtain ⟨issued, hC⟩ := counted_reachable hr
  have hm' : (e.σ.chan.setMsg a (Endpoint.answer m)).msgs a = some (Endpoint.answer m) :=
    Function.update_self ..
  have hC' : Counted cfg (e.σ.chan.setMsg a (Endpoint.answer m)) issued :=
    hC.congr (sameCounts_setMsg (by rw [hm]; rfl))
  have hresp' : (Endpoint.answer m).resp = none := hresp
  obtain ⟨c, hc, hnone, hissued⟩ := hC'.exists_put hm' hresp'
  refine ⟨⟨{ e.σ with chan := c }, pool, e.data⟩, ?_, hput, ?_⟩
  · rw [Endpoint.rpcDefaultHandler_eq hm hput, if_pos hcc]
    exact Endpoint.msgPut_eq hm' hresp' rfl hc
  · rw [if_pos hcc]
    exact ⟨hnone, hissued, rfl, rfl, rfl⟩

/-- What it does with a request that has no payload. -/
theorem refused_open (hr : (channelSystem cfg).Reachable e.σ) (hm : e.σ.chan.msgs a = some m)
    (hd : Delivered m) (hn : e.σ.pc n = .idle) (hen : e.σ.chan.enabled = true)
    (hcc : m.hdr.isConnClosed = false) (hz : m.hdr.plen = 0) : Refused cfg e n a m := by
  obtain ⟨huse, hresp, hspec⟩ := hd
  obtain ⟨hle, hbuf, hpay⟩ := hspec hcc
  have hput : e.databufPut a m = some e.datapool := if_pos (hpay.2 hz)
  have hnot : ¬m.hdr.isConnClosed = true := by
    rw [hcc]
    exact Bool.false_ne_true
  -- the handler fills the message in, as its owner may
  have hedit : (Action.edit a m.hdr.msglen m.hdr.payloadlen eNosys m.body none).Allowed cfg e.σ :=
    ⟨m, hm, .inr huse⟩
  have hanswer : (Action.edit a m.hdr.msglen m.hdr.payloadlen eNosys m.body none).exec cfg e.σ =
      some { e.σ with chan := e.σ.chan.setMsg a (Endpoint.answer m) } := by
    simp only [Action.exec, hm, Option.bind_eq_bind, Option.bind_some]
    rfl
  have hr₁ := (onTime_of_enabled hr hen).step
    ⟨⟨state_ne_gone hr hm, hedit⟩, fun _ _ e => by cases e⟩ hanswer
  obtain ⟨σ₁, hx, hS⟩ := sending_start hr₁ (m := Endpoint.answer m) (Function.update_self ..) hn hen
    huse hcc ⟨hle, fun _ => hz, hresp⟩ ⟨hbuf, hz.le.trans (Nat.zero_le _)⟩ rfl
  have hle' : hdrSize ≤ (Endpoint.answer m).hdr.setResp.len := hle
  have hdec : MsgHdr.decode (responseBytes (Endpoint.answer m).hdr.setResp m.body) =
      (Endpoint.answer m).hdr.setResp := decode_responseBytes hle'
  refine ⟨⟨σ₁, e.datapool, e.data⟩, ?_, hput, ?_⟩
  · rw [Endpoint.rpcDefaultHandler_eq hm hput, if_neg hnot, hx, Option.map_some]
  · rw [if_neg hnot]
    refine ⟨responseBytes (Endpoint.answer m).hdr.setResp m.body, isMessage_responseBytes hle' hbuf hz, ?_, ?_,
      ?_, fun w hw => (sending_reachable hS hle' hw).sends hle'⟩
    · rw [hdec]
      rfl
    · rw [hdec]
      rfl
    · rw [hdec]
      exact MsgHdr.isReq_setResp _

/-- The handler refuses what was delivered exactly if there is no payload, or
the message says that the connection is closed. -/
theorem refused_iff (hr : (channelSystem cfg).Reachable e.σ) (hm : e.σ.chan.msgs a = some m)
    (hd : Delivered m) (hn : e.σ.pc n = .idle)
    (hen : m.hdr.isConnClosed = false → e.σ.chan.enabled = true)
    (hp : (BufPool.poolSystem bufsize nbufs nmax).Reachable e.datapool)
    (hdata : m.payload ≠ none → e.data a ∈ e.datapool.held) :
    Refused cfg e n a m ↔ m.hdr.isConnClosed = true ∨ m.hdr.plen = 0 := by
  obtain ⟨pool, hput⟩ := Endpoint.exists_databufPut (a := a) hp hdata
  constructor
  · rintro ⟨e', hx, -, -⟩
    rw [Endpoint.rpcDefaultHandler_eq hm hput] at hx
    split at hx
    · rename_i hcc
      exact .inl hcc
    · obtain ⟨σ', hx, -⟩ := Option.map_eq_some_iff.1 hx
      obtain ⟨m', hm', has, -⟩ := State.response_cases hx
      have hm₁ : (e.σ.chan.setMsg a (Endpoint.answer m)).msgs a = some (Endpoint.answer m) :=
        Function.update_self ..
      obtain rfl := Option.some.inj (hm₁.symm.trans hm')
      exact .inr (has.2.1 rfl)
  · cases hcc : m.hdr.isConnClosed with
    | true => exact fun _ => refused_closed hr hm hd hput hcc
    | false =>
        rintro (h | hz)
        · cases h
        · exact refused_open hr hm hd hn (hen hcc) hcc hz

/-- **A message is refused as it should be, exactly when its header stays in
its buffer and it has no payload** or says that the connection is closed. -/
theorem stray_refused_iff (hr : (channelSystem cfg).Reachable σ)
    (he : (channelSystem cfg).enabled σ act) (hret : Returns cfg σ act a m)
    (ht : m.hdr.isConnClosed = true ∨ m.hdr.isReq = true) (hn : σ.pc n = .idle)
    (hp : (BufPool.poolSystem bufsize nbufs nmax).Reachable datapool)
    (hdata : m.payload ≠ none → data a ∈ datapool.held) :
    RefusedOnArrival cfg σ act a m n datapool data ↔
      ¬Overrun cfg σ act ∧ (m.hdr.isConnClosed = true ∨ m.hdr.plen = 0) := by
  have hd : Delivered m := by
    obtain ⟨r, hread, hm⟩ := hret
    exact (hread.ok hr he.2).delivered hm
  rcases returns_cases hr he.2 hret ht with ⟨ho, hnone⟩ | ⟨ho, σ', hx, hmsg, hpc, hen⟩
  · refine iff_of_false (fun ⟨σ', hx, _⟩ => ?_) fun h => h.1 ho
    rw [show (channelSystem cfg).exec σ act = none from hnone] at hx
    cases hx
  have hr' : (channelSystem cfg).Reachable σ' := .step hr he hx
  have hiff : ∀ τ : State, (channelSystem cfg).Reachable τ → τ.chan.msgs a = some m →
      τ.pc n = .idle → (m.hdr.isConnClosed = false → τ.chan.enabled = true) →
      (Refused cfg ⟨τ, datapool, data⟩ n a m ↔ m.hdr.isConnClosed = true ∨ m.hdr.plen = 0) :=
    fun τ hτ hmτ hnτ henτ => refused_iff (e := ⟨τ, datapool, data⟩) hτ hmτ hd hnτ henτ hp hdata
  constructor
  · rintro ⟨σ'', hx', -, hall⟩
    obtain rfl := Option.some.inj (hx.symm.trans hx')
    have hidle : σ'.pc n = .idle := by rw [hpc, hn]
    exact ⟨ho, (hiff σ' hr' hmsg hidle hen).1 (hall [] σ' .nil hmsg hidle hen)⟩
  · rintro ⟨-, hc⟩
    exact ⟨σ', hx, hmsg, fun acts τ hτ hmτ hnτ henτ =>
      (hiff τ (hτ.reachable hr') hmτ hnτ henτ).2 hc⟩

/-! ## Three requests -/

/-- A request for nobody. -/
def strayHdr (msglen payloadlen : BitVec 16) : MsgHdr := ⟨7, 1, msglen, payloadlen, 0⟩

/-- It comes without payload. -/
def strayMsg : Msg :=
  { Msg.ofBytes smallCfg.toRecvCfg (strayHdr 12 0).encode with payload := none, use := .handed }

/-- It comes with three bytes. -/
def strayMsgPayload : Msg :=
  { Msg.ofBytes smallCfg.toRecvCfg (strayHdr 12 3).encode with
    payload := some [1, 2, 3], use := .handed }

/-- The bytes of one whose header is too long by twenty. -/
def strayLong : List Byte := (strayHdr 52 0).encode ++ List.replicate 40 0

/-- It comes with a header that is longer than there is room for. -/
def strayMsgLong : Msg :=
  { Msg.ofBytes smallCfg.toRecvCfg strayLong with payload := none, use := .handed }

/-- The one without payload is refused. -/
theorem stray_refused_empty : ∃ σ, (channelSystem smallCfg).Reachable σ ∧
    RefusedOnArrival smallCfg σ (.recvTake 12) 0 strayMsg 5 BufPool.smallPool fun _ => 0 := by
  have hrun : (((channelSystem smallCfg).run smallChannel
      [.recvStart 9, .arrive (strayHdr 12 0).encode]).any fun σ =>
        decide ((channelSystem smallCfg).enabled σ (.recvTake 12) ∧ σ.pc 5 = .idle ∧
          σ.recv = .receiving 0 (.start true) ∧ σ.inq = (strayHdr 12 0).encode)) = true := by
    decide +kernel
  obtain ⟨σ, hsteps, h⟩ := System.Steps.of_run_any hrun
  obtain ⟨he, hpc, hq, hin⟩ := of_decide_eq_true h
  have hr := hsteps.reachable (.init smallChannel_init)
  have hret : Returns smallCfg σ (.recvTake 12) 0 strayMsg :=
    ⟨⟨.done (strayHdr 12 0), (strayHdr 12 0).encode, none⟩, ⟨_, hq, by rw [hin]; rfl⟩, rfl⟩
  refine ⟨σ, hr, (stray_refused_iff hr he hret (.inr (by decide)) hpc
    (.init BufPool.smallPool_init) fun h => absurd rfl h).2 ⟨?_, .inr rfl⟩⟩
  -- the bare header always has room
  rintro ⟨_, _, _, _, -, hq', hbody, -⟩
  obtain ⟨-, rfl⟩ := RecvTask.receiving.inj (hq.symm.trans hq')
  cases hbody

/-- **One with a payload is fatal, and so is one with a header too long for
its buffer**: the assertion of `rpc_response` that a length goes with a
payload fails; or the receiver writes behind the buffer. -/
theorem stray_fatal :
    (∃ σ datapool, (channelSystem smallCfg).Reachable σ ∧
      (channelSystem smallCfg).enabled σ (.recvTake 3) ∧
      Returns smallCfg σ (.recvTake 3) 0 strayMsgPayload ∧ strayMsgPayload.hdr.isReq = true ∧
      σ.pc 5 = .idle ∧ (BufPool.poolSystem 16 1 2).Reachable datapool ∧ 0 ∈ datapool.held ∧
      ¬RefusedOnArrival smallCfg σ (.recvTake 3) 0 strayMsgPayload 5 datapool fun _ => 0) ∧
    ∃ σ, (channelSystem smallCfg).Reachable σ ∧
      (channelSystem smallCfg).enabled σ (.recvTake 40) ∧
      Returns smallCfg σ (.recvTake 40) 0 strayMsgLong ∧ strayMsgLong.hdr.isReq = true ∧
      strayMsgLong.payload = none ∧ σ.pc 5 = .idle ∧
      ¬RefusedOnArrival smallCfg σ (.recvTake 40) 0 strayMsgLong 5 BufPool.smallPool fun _ => 0 := by
  constructor
  · have hrun : (((channelSystem smallCfg).run smallChannel
        [.recvStart 9, .arrive ((strayHdr 12 3).encode ++ [1, 2, 3]), .recvTake 12,
          .recvData]).any fun σ =>
        decide ((channelSystem smallCfg).enabled σ (.recvTake 3) ∧ σ.pc 5 = .idle ∧
          σ.recv = .receiving 0 ⟨.payload (strayHdr 12 3), (strayHdr 12 3).encode, some []⟩ ∧
          σ.inq = [1, 2, 3])) = true := by
      decide +kernel
    have hpool : ((BufPool.poolSystem 16 1 2).run BufPool.smallPool [.get 1 true false none]).any
        (fun δ : BufPool.State => decide (0 ∈ δ.held)) = true := by decide +kernel
    obtain ⟨σ, hsteps, h⟩ := System.Steps.of_run_any hrun
    obtain ⟨he, hpc, hq, hin⟩ := of_decide_eq_true h
    obtain ⟨δ, hδ, hheld⟩ := System.Steps.of_run_any hpool
    have hheld : 0 ∈ δ.held := of_decide_eq_true hheld
    have hr := hsteps.reachable (.init smallChannel_init)
    have hp := hδ.reachable (.init BufPool.smallPool_init)
    have hread : Reads smallCfg σ 0
        ⟨.done (strayHdr 12 3), (strayHdr 12 3).encode, some [1, 2, 3]⟩ (.recvTake 3) :=
      ⟨_, hq, by rw [hin]; rfl⟩
    have hreq : strayMsgPayload.hdr.isReq = true := by decide
    refine ⟨σ, δ, hr, he, ⟨_, hread, rfl⟩, hreq, hpc, hp, hheld, fun ⟨σ', hx, hmsg, hall⟩ => ?_⟩
    rcases returns_cases hr he.2 ⟨_, hread, rfl⟩ (.inr hreq) with
      ⟨-, hnone⟩ | ⟨-, σ'', hx', -, hpc', hen⟩
    · rw [show (channelSystem smallCfg).exec σ (.recvTake 3) = none from hnone] at hx
      cases hx
    · obtain rfl := Option.some.inj (hx.symm.trans hx')
      have hidle : σ'.pc 5 = .idle := by rw [hpc', hpc]
      have href := hall [] σ' .nil hmsg hidle hen
      have hd := (hread.ok hr he.2).delivered rfl
      rcases (refused_iff (e := ⟨σ', δ, fun _ => 0⟩) (hr.step he hx) hmsg hd hidle hen hp
        fun _ => hheld).1 href with hcc | hz
      · exact absurd hcc (by decide)
      · exact absurd hz (by decide)
  · have hrun : (((channelSystem smallCfg).run smallChannel
        [.recvStart 9, .arrive strayLong, .recvTake 12]).any fun σ =>
        decide ((channelSystem smallCfg).enabled σ (.recvTake 40) ∧ σ.pc 5 = .idle ∧
          σ.recv = .receiving 0 ⟨.body (strayHdr 52 0), (strayHdr 52 0).encode, none⟩ ∧
          σ.inq = List.replicate 40 0)) = true := by
      decide +kernel
    obtain ⟨σ, hsteps, h⟩ := System.Steps.of_run_any hrun
    obtain ⟨he, hpc, hq, hin⟩ := of_decide_eq_true h
    have hr := hsteps.reachable (.init smallChannel_init)
    have hread : Reads smallCfg σ 0 ⟨.done (strayHdr 52 0), strayLong, none⟩ (.recvTake 40) :=
      ⟨_, hq, by rw [hin]; rfl⟩
    have hreq : strayMsgLong.hdr.isReq = true := by decide
    refine ⟨σ, hr, he, ⟨_, hread, rfl⟩, hreq, rfl, hpc, fun ⟨σ', hx, _⟩ => ?_⟩
    rcases returns_cases hr he.2 ⟨_, hread, rfl⟩ (.inr hreq) with ⟨-, hnone⟩ | ⟨ho, -⟩
    · rw [show (channelSystem smallCfg).exec σ (.recvTake 40) = none from hnone] at hx
      cases hx
    · exact ho ⟨_, _, _, 40, rfl, hq, rfl, by decide⟩

end Rpc

end VmwareProto
