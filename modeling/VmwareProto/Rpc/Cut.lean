import VmwareProto.Rpc.Stream
import VmwareProto.Rpc.Tasks
import Mathlib.Data.Finset.Basic
import Mathlib.Data.Fintype.EquivFin
/-!
# The end of the stream

`rpc_recv_task` on a connection that its peer closes after some bytes, in
the middle of a message or between two. The data buffers are told apart,
so that it can be said which of them the task has when it stops: those of
the messages it passed on, and no other. Requests are sent meanwhile, and
`_rpc_response` looks them up: it asserts that there is one for each
response.
-/

namespace VmwareProto

namespace Rpc

/-- What `rpc_recv_task` passes on: a message, and the data buffer of its
payload. -/
inductive Passed
  /-- to a new task that runs `rcp->handler` -/
  | handler (m : Msg) (buf : Option ℕ)
  /-- to `_rpc_response` -/
  | response (m : Msg) (buf : Option ℕ)
  deriving DecidableEq, Repr

namespace Passed

def msg : Passed → Msg
  | .handler m _ => m
  | .response m _ => m

def buf : Passed → Option ℕ
  | .handler _ b => b
  | .response _ b => b

def toHandler : Passed → Bool
  | .handler _ _ => true
  | .response _ _ => false

end Passed

/-- Where the task stands: at the head of its loop, in `_rpc_receive` with
that function's `buf`, or out of the loop. -/
inductive LoopPc
  | idle
  | receiving (r : Recv) (buf : Option ℕ)
  | left
  deriving DecidableEq, Repr

/-- The task, the stream, the table of requests and the data pool. -/
structure RecvLoop where
  enabled : Bool
  pc : LoopPc
  /-- the sequence ids of the requests in `rcp->hash` -/
  pending : List (BitVec 32)
  /-- what the peer sent and has not been read -/
  rest : List Byte
  /-- the data buffers that were taken and not put -/
  issued : List ℕ
  passed : List Passed

namespace RecvLoop

variable (cfg : RecvCfg) (σ : RecvLoop)

/-- `_rpc_response`: `hash_lookup`, which must find a request, and `hash_rem` of it. -/
def rpcResponse (m : Msg) (buf : Option ℕ) : Option RecvLoop :=
  if m.hdr.seqid ∈ σ.pending then
    some { σ with
      pc := .idle
      pending := σ.pending.erase m.hdr.seqid
      passed := σ.passed ++ [.response m buf] }
  else none

/-- The loop's body from `_rpc_receive`'s return on. -/
def dispatch (m : Msg) (buf : Option ℕ) : Option RecvLoop :=
  if m.hdr.isConnClosed = true then
    some { σ with enabled := false, pc := .left, passed := σ.passed ++ [.handler m buf] }
  else if m.hdr.isReq = true then
    some { σ with pc := .idle, passed := σ.passed ++ [.handler m buf] }
  else σ.rpcResponse m buf

/-- `_rpc_receive` returns, at its end or at its error label. -/
def ret : Option RecvLoop :=
  match σ.pc with
  | .receiving r buf =>
      let m := Msg.ofBytes cfg r.stored
      match r.pc with
      | .done _ => σ.dispatch { m with payload := r.payload } buf
      | .errout =>
          { σ with issued := σ.issued.filter fun x => some x ≠ buf }.dispatch
            { m with hdr := m.hdr.setConnClosed } none
      | _ => none
  | _ => none

/-- A read of `_rpc_receive`. Behind the message buffer lies memory of others: a byte of the header
that is stored there is a fault. -/
def read (res : ReadResult) (rest : List Byte) : Option RecvLoop :=
  match σ.pc with
  | .receiving r buf => do
      let r ← r.read cfg res
      if cfg.msgsz < r.stored.length then none
      else some { σ with pc := .receiving r buf, rest := rest }
  | _ => none

/-- `rpc_databuf_get` returns `x`. -/
def getData (x : ℕ) : Option RecvLoop :=
  match σ.pc with
  | .receiving r _ => do
      let r ← r.getData
      some { σ with pc := .receiving r (some x), issued := σ.issued ++ [x] }
  | _ => none

end RecvLoop

/-- What happens: `_rpc_receive` is called, its reads take the next `k`
bytes, find none yet, or find the end of the stream, it gets the data buffer
`x`, it returns; and other tasks put requests into the table. -/
inductive LoopAction
  | call
  | take (k : ℕ)
  | again
  | closed
  | data (x : ℕ)
  | ret
  | hashAdd (id : BitVec 32)

namespace LoopAction

def exec (cfg : RecvCfg) (σ : RecvLoop) : LoopAction → Option RecvLoop
  | call => some { σ with pc := .receiving (.start σ.enabled) none }
  | take k => σ.read cfg (.bytes (σ.rest.take k)) (σ.rest.drop k)
  | again => σ.read cfg .again σ.rest
  | closed => σ.read cfg .closed σ.rest
  | data x => σ.getData x
  | ret => σ.ret cfg
  | hashAdd id => some { σ with pending := id :: σ.pending }

/-- A read returns bytes that are there, and the end of the stream only
where no byte is left; the pool gives out a buffer that nobody has; other
tasks run while the task is in a read or waits for a buffer. -/
def Enabled (σ : RecvLoop) : LoopAction → Prop
  | call => σ.pc = .idle
  | take k => ∃ r buf, σ.pc = .receiving r buf ∧ 0 < k ∧ k ≤ r.wanted ∧ k ≤ σ.rest.length
  | again => ∃ r buf, σ.pc = .receiving r buf ∧ r.Reading
  | closed => ∃ r buf, σ.pc = .receiving r buf ∧ r.Reading ∧ σ.rest = []
  | data x => ∃ r buf h, σ.pc = .receiving r buf ∧ r.pc = .databuf h ∧ x ∉ σ.issued
  | ret => ∃ r buf, σ.pc = .receiving r buf ∧ r.finished = true
  | hashAdd _ => ∃ r buf, σ.pc = .receiving r buf ∧ r.finished = false

/-- The steps of the task itself. -/
def Own : LoopAction → Prop
  | hashAdd _ => False
  | _ => True

end LoopAction

/-- `rpc_recv_task` on an enabled channel with any requests in its table,
whose peer sends `bs` and closes. -/
def cutSystem (cfg : RecvCfg) (bs : List Byte) : System RecvLoop LoopAction where
  init σ := ∃ pending, σ = ⟨true, .idle, pending, bs, [], []⟩
  enabled := LoopAction.Enabled
  exec := LoopAction.exec cfg

variable {cfg : RecvCfg} {ws ws₁ ws₂ : List Msg} {p : List Byte} {σ σ' : RecvLoop} {act : LoopAction}
  {c : RecvOn} {r : Recv} {m : Msg}

/-! ## What is passed on -/

/-- The message `m` of the stream, passed on as `d`: the same header bytes,
the same payload, a data buffer if there is one, and to where its type
says. -/
structure Passes (cfg : RecvCfg) (m : Msg) (d : Passed) : Prop where
  msg : d.msg = { Msg.ofBytes cfg m.hdrBytes with payload := m.received.payload }
  toHandler : d.toHandler = m.hdr.isReq
  buf : d.buf.isSome = decide (0 < m.hdr.plen)

/-- A message that a peer may send. -/
structure Msg.WellFormed (cfg : RecvCfg) (m : Msg) : Prop extends m.Framed cfg where
  connected : m.hdr.isConnClosed = false

theorem Msg.Framed.hdr_ofBytes (hm : m.Framed cfg) : (Msg.ofBytes cfg m.hdrBytes).hdr = m.hdr := by
  change MsgHdr.decode m.hdrBytes = m.hdr
  rw [Msg.hdrBytes, MsgHdr.decode_take hm.len_ge, MsgHdr.decode_encode]

/-- One more step of the reader. -/
theorem reader_step {bs : List Byte} {τ τ' : Reader} {act : ReaderAction}
    (hr : (readerSystem cfg bs).Reachable τ) (he : act.Enabled τ) (hx : act.exec cfg τ = some τ') :
    (readerSystem cfg bs).Reachable τ' :=
  System.Reachable.step (S := readerSystem cfg bs) (a := act) hr he hx

/-- The next call. -/
theorem reader_next {bs : List Byte} {got : List Recv} {rest : List Byte} {r : Recv} {d : MsgHdr}
    (hr : (readerSystem cfg bs).Reachable ⟨got, ⟨r, rest⟩⟩) (hd : r.pc = .done d) :
    (readerSystem cfg bs).Reachable ⟨got ++ [r], ⟨.start true, rest⟩⟩ :=
  have he : ReaderAction.Enabled ⟨got, ⟨r, rest⟩⟩ .next := ⟨d, hd⟩
  reader_step hr he rfl

/-- **Where the reader stands** in the messages, by how many it has got. -/
theorem reader_stands (hf : ∀ m ∈ ws₁ ++ ws₂, m.Framed cfg) (hp : Partial cfg p)
    (hr : (readerSystem cfg (frames (ws₁ ++ ws₂) ++ p)).Reachable ⟨ws₁.map Msg.received, c⟩) :
    c.Ok cfg (frames ws₂ ++ p) ∧ c.recv.pc ≠ .errout ∧
      ∀ h, c.recv.pc = .done h → ∃ m ws₃, ws₂ = m :: ws₃ ∧ c.recv = m.received := by
  obtain ⟨xs, ys, hxs, hgot, hok, hpc⟩ := reader_prefix hf hp hr
  have hlen : ws₁.length = xs.length := by simpa using congrArg List.length hgot
  obtain ⟨rfl, rfl⟩ := List.append_inj hxs hlen
  refine ⟨hok, hpc, fun h hd => ?_⟩
  cases ws₂ with
  | nil =>
      -- the next call would have one message too many behind it
      have hnext := reader_next hr hd
      obtain ⟨zs, _, hzs, hgot', -⟩ := reader_prefix hf hp hnext
      have h₁ := congrArg List.length hzs
      have h₂ := congrArg List.length hgot'
      simp only [List.length_append, List.length_map, List.length_nil, List.length_singleton] at h₁ h₂
      omega
  | cons m ws₃ =>
      rw [frames_cons, List.append_assoc] at hok
      exact ⟨m, ws₃, rfl, congrArg RecvOn.recv (hok.eq_received (hf m (by simp)) hd)⟩

/-- **The header of a message stays in its buffer**, as long as it has got there. -/
theorem reader_stored {got : List Recv} (hf : ∀ m ∈ ws, m.Framed cfg) (hp : Partial cfg p)
    (hr : (readerSystem cfg (frames ws ++ p)).Reachable ⟨got, c⟩) :
    c.recv.stored.length ≤ cfg.msgsz := by
  obtain ⟨last, ext, hlast, hext, -⟩ := hp.completed
  have hall : ∀ m ∈ ws ++ last, m.Framed cfg :=
    fun m hm => (List.mem_append.1 hm).elim (hf m) (hlast m)
  have hbs : frames ws ++ p ++ ext = frames (ws ++ last) := by simp [hext]
  obtain ⟨ms₁, ms₂, hms, -, hok, -⟩ := reader_at hall hbs hr
  have hsize := cfg.hdr_le
  -- either only the bare header is there, or it is the header of the next message
  rcases hok.recv.stored_le with hle | ⟨hh, hle⟩
  · exact hle.trans hsize
  · cases ms₂ with
    | nil =>
        have htaken := (List.append_eq_nil_iff.1 hok.split).1
        have hst : c.recv.stored = [] := (List.append_eq_nil_iff.1 htaken).1
        rw [hst]
        exact Nat.zero_le _
    | cons m ms₃ =>
        have hm : m.Framed cfg := hall m (by simp [hms])
        rw [frames_cons] at hok
        rw [hh.eq_hdr hm hok] at hle
        exact hle.trans hm.len_le

/-! ## Every run -/

/-- Outside the loop nothing happens. -/
theorem LoopAction.Enabled.inLoop (he : act.Enabled σ) :
    act = .call ∧ σ.pc = .idle ∨ ∃ r buf, σ.pc = .receiving r buf := by
  cases act with
  | call => exact .inl ⟨rfl, he⟩
  | take k => obtain ⟨r, buf, e, -⟩ := he; exact .inr ⟨r, buf, e⟩
  | again => obtain ⟨r, buf, e, -⟩ := he; exact .inr ⟨r, buf, e⟩
  | closed => obtain ⟨r, buf, e, -⟩ := he; exact .inr ⟨r, buf, e⟩
  | data x => obtain ⟨r, buf, _, e, -⟩ := he; exact .inr ⟨r, buf, e⟩
  | ret => obtain ⟨r, buf, e, -⟩ := he; exact .inr ⟨r, buf, e⟩
  | hashAdd id => obtain ⟨r, buf, e, -⟩ := he; exact .inr ⟨r, buf, e⟩

/-- A read that returns, and leaves the header in its buffer. -/
theorem RecvLoop.read_eq {buf : Option ℕ} {r' : Recv} {res : ReadResult} {rest : List Byte}
    (hpc : σ.pc = .receiving r buf) (hr : r.read cfg res = some r')
    (hle : r'.stored.length ≤ cfg.msgsz) :
    σ.read cfg res rest = some { σ with pc := .receiving r' buf, rest := rest } := by
  simp only [RecvLoop.read, hpc, hr, Option.bind_eq_bind, Option.bind_some]
  rw [if_neg (by omega)]

/-- The task has read a whole response, and no request waits for it. -/
def RecvLoop.Orphaned (σ : RecvLoop) : Prop :=
  ∃ r buf d, σ.pc = .receiving r buf ∧ r.pc = .done d ∧
    (MsgHdr.decode r.stored).isConnClosed = false ∧ (MsgHdr.decode r.stored).isReq = false ∧
      (MsgHdr.decode r.stored).seqid ∉ σ.pending

/-- There `_rpc_response` fails. -/
theorem RecvLoop.Orphaned.fault (h : σ.Orphaned) (cfg : RecvCfg) :
    LoopAction.ret.Enabled σ ∧ LoopAction.ret.exec cfg σ = none := by
  obtain ⟨r, buf, d, hpc, hd, hcc, hreq, hid⟩ := h
  refine ⟨⟨r, buf, hpc, by rw [Recv.finished, hd]⟩, ?_⟩
  simp only [LoopAction.exec, RecvLoop.ret, hpc, hd, RecvLoop.dispatch, Msg.ofBytes, hcc, hreq,
    RecvLoop.rpcResponse, hid, Bool.false_eq_true, if_false]

/-- The task has passed on the messages `ws₁`, and has their data buffers
and `buf`. -/
structure RecvLoop.Has (cfg : RecvCfg) (ws₁ : List Msg) (buf : Option ℕ) (σ : RecvLoop) : Prop where
  passes : List.Forall₂ (Passes cfg) ws₁ σ.passed
  issued : σ.issued = σ.passed.filterMap Passed.buf ++ buf.toList
  own : ∀ x, buf = some x → x ∉ σ.passed.filterMap Passed.buf

/-- The message that tells the handler of the end. -/
def Passed.Closing (d : Passed) : Prop :=
  d.toHandler = true ∧ d.msg.hdr.isConnClosed = true ∧ d.buf = none

/-- Where the task stands. -/
inductive RecvLoop.At (cfg : RecvCfg) (ws : List Msg) (p : List Byte) (σ : RecvLoop) : Prop
  | idle (ws₁ ws₂ : List Msg) : ws = ws₁ ++ ws₂ → σ.pc = .idle → σ.enabled = true →
      (readerSystem cfg (frames ws ++ p)).Reachable ⟨ws₁.map Msg.received, ⟨.start true, σ.rest⟩⟩ →
      σ.Has cfg ws₁ none → σ.At cfg ws p
  | receiving (ws₁ ws₂ : List Msg) (r : Recv) (buf : Option ℕ) : ws = ws₁ ++ ws₂ →
      σ.pc = .receiving r buf → σ.enabled = true →
      (readerSystem cfg (frames ws ++ p)).Reachable ⟨ws₁.map Msg.received, ⟨r, σ.rest⟩⟩ →
      buf.isSome = r.payload.isSome → σ.Has cfg ws₁ buf → σ.At cfg ws p
  | failed (r : Recv) (buf : Option ℕ) : σ.pc = .receiving r buf → σ.enabled = true →
      r.pc = .errout → σ.Has cfg ws buf → σ.At cfg ws p
  | left (ds : List Passed) (d : Passed) : σ.pc = .left → σ.enabled = false →
      σ.passed = ds ++ [d] → d.Closing → List.Forall₂ (Passes cfg) ws ds →
      σ.issued = ds.filterMap Passed.buf → σ.At cfg ws p

/-- A read leaves a data buffer where it is. -/
theorem Recv.Ok.payload_read {r r' : Recv} {bs : List Byte} (h : r.Ok cfg)
    (hr : r.read cfg (.bytes bs) = some r') : r'.payload.isSome = r.payload.isSome := by
  have hbody : ∀ (r : Recv) (d : MsgHdr), (r.afterBody cfg d).payload = r.payload := fun r d => by
    unfold Recv.afterBody
    split
    · split <;> rfl
    · rfl
  obtain ⟨pc, st, q⟩ := r
  cases pc with
  | header =>
      simp only [Recv.read] at hr
      split at hr
      · rw [← Option.some.inj hr]
      · simp only [Recv.afterHeader] at hr
        split at hr
        · rw [← Option.some.inj hr]
        · split at hr
          · cases hr
          · split at hr
            · rw [← Option.some.inj hr]
            · rw [← Option.some.inj hr, hbody]
  | body d =>
      simp only [Recv.read] at hr
      split at hr
      · rw [← Option.some.inj hr]
      · rw [← Option.some.inj hr, hbody]
  | payload d =>
      obtain ⟨-, -, -, -, x, hx, -⟩ := h
      obtain rfl : q = some x := hx
      rw [← Option.some.inj hr]
      rfl
  | databuf d => cases hr
  | done d => cases hr
  | errout => cases hr

theorem framed (hf : ∀ m ∈ ws, m.WellFormed cfg) : ∀ m ∈ ws, m.Framed cfg :=
  fun m hm => (hf m hm).toFramed

section

variable (hf : ∀ m ∈ ws, m.WellFormed cfg) (hp : Partial cfg p)
include hf hp

/-- **A read that takes bytes.** -/
theorem at_take {buf : Option ℕ} {k : ℕ} (hws : ws = ws₁ ++ ws₂) (hpc : σ.pc = .receiving r buf)
    (hen : σ.enabled = true)
    (hr : (readerSystem cfg (frames ws ++ p)).Reachable ⟨ws₁.map Msg.received, ⟨r, σ.rest⟩⟩)
    (hbuf : buf.isSome = r.payload.isSome) (hh : σ.Has cfg ws₁ buf) (hk : 0 < k)
    (hw : k ≤ r.wanted) (hlen : k ≤ σ.rest.length) :
    ∃ σ', (LoopAction.take k).exec cfg σ = some σ' ∧ σ'.At cfg ws p := by
  subst hws
  have hf' := framed hf
  have he : ReaderAction.Enabled ⟨ws₁.map Msg.received, ⟨r, σ.rest⟩⟩ (.call (.take k)) :=
    ⟨⟨hk, hw, hlen⟩, trivial⟩
  obtain ⟨τ, hx⟩ := reader_no_fault hf' hp hr he
  have hr' := reader_step hr he hx
  simp only [ReaderAction.exec, RecvAction.exec, Option.map_map, Option.map_eq_some_iff] at hx
  obtain ⟨r', hread, rfl⟩ := hx
  refine ⟨_, RecvLoop.read_eq hpc hread (reader_stored hf' hp hr'),
    .receiving ws₁ ws₂ r' buf rfl rfl hen hr' ?_ ⟨hh.passes, hh.issued, hh.own⟩⟩
  rw [hbuf, (reader_stands hf' hp hr).1.recv.payload_read hread]

/-- **The end of the stream** is found when every whole message has been
passed on. -/
theorem at_closed {buf : Option ℕ} (hws : ws = ws₁ ++ ws₂) (hpc : σ.pc = .receiving r buf)
    (hen : σ.enabled = true)
    (hr : (readerSystem cfg (frames ws ++ p)).Reachable ⟨ws₁.map Msg.received, ⟨r, σ.rest⟩⟩)
    (hh : σ.Has cfg ws₁ buf) (hread : r.Reading) (hrest : σ.rest = []) :
    ∃ σ', LoopAction.closed.exec cfg σ = some σ' ∧ σ'.At cfg ws p := by
  subst hws
  have hf' := framed hf
  have hok := (reader_stands hf' hp hr).1
  have hnil : ws₂ = [] := by
    cases ws₂ with
    | nil => rfl
    | cons m ws₃ =>
        rw [frames_cons, List.append_assoc] at hok
        have hle := hok.wanted_le (hf' m (by simp))
        rw [Recv.Reading] at hread
        change r.wanted ≤ σ.rest.length at hle
        rw [hrest, List.length_nil] at hle
        omega
  subst hnil
  refine ⟨_, RecvLoop.read_eq hpc rfl (reader_stored hf' hp hr),
    .failed { r with pc := .errout } buf rfl hen rfl ?_⟩
  rw [List.append_nil]
  exact ⟨hh.passes, hh.issued, hh.own⟩

/-- **A data buffer** is taken where there was none. -/
theorem at_data {buf : Option ℕ} {x : ℕ} {d : MsgHdr} (hws : ws = ws₁ ++ ws₂)
    (hpc : σ.pc = .receiving r buf) (hen : σ.enabled = true)
    (hr : (readerSystem cfg (frames ws ++ p)).Reachable ⟨ws₁.map Msg.received, ⟨r, σ.rest⟩⟩)
    (hbuf : buf.isSome = r.payload.isSome) (hh : σ.Has cfg ws₁ buf) (hd : r.pc = .databuf d)
    (hx : x ∉ σ.issued) :
    ∃ σ', (LoopAction.data x).exec cfg σ = some σ' ∧ σ'.At cfg ws p := by
  subst hws
  have hf' := framed hf
  have hok := (reader_stands hf' hp hr).1.recv
  obtain rfl : buf = none := by
    simp only [Recv.Ok, hd] at hok
    rw [hok.2.2.2.2, Option.isSome_none, Option.isSome_eq_false_iff, Option.isNone_iff_eq_none] at hbuf
    exact hbuf
  have he : ReaderAction.Enabled ⟨ws₁.map Msg.received, ⟨r, σ.rest⟩⟩ (.call .databuf) :=
    ⟨⟨d, hd⟩, trivial⟩
  have hget : r.getData = some ⟨.payload d, r.stored, some []⟩ := by
    rw [Recv.getData, hd]
  have hx' : ReaderAction.exec cfg ⟨ws₁.map Msg.received, ⟨r, σ.rest⟩⟩ (.call .databuf) =
      some ⟨ws₁.map Msg.received, ⟨⟨.payload d, r.stored, some []⟩, σ.rest⟩⟩ := by
    simp only [ReaderAction.exec, RecvAction.exec, hget]
    rfl
  have hr' := reader_step hr he hx'
  have hissued := hh.issued
  simp only [Option.toList_none, List.append_nil] at hissued
  refine ⟨{ σ with pc := .receiving _ (some x), issued := σ.issued ++ [x] }, ?_,
    .receiving ws₁ ws₂ _ (some x) rfl rfl hen hr' rfl ⟨hh.passes, ?_, ?_⟩⟩
  · simp only [LoopAction.exec, RecvLoop.getData, hpc, hget]
    rfl
  · simp only [hissued, Option.toList_some]
  · rintro y hy
    obtain rfl := Option.some.inj hy
    rwa [hissued] at hx

/-- **A whole message** is passed on, unless it is a response that nobody waits for. -/
theorem at_done {buf : Option ℕ} {d : MsgHdr} (hws : ws = ws₁ ++ ws₂)
    (hpc : σ.pc = .receiving r buf) (hen : σ.enabled = true)
    (hr : (readerSystem cfg (frames ws ++ p)).Reachable ⟨ws₁.map Msg.received, ⟨r, σ.rest⟩⟩)
    (hbuf : buf.isSome = r.payload.isSome) (hh : σ.Has cfg ws₁ buf) (hd : r.pc = .done d)
    (ho : ¬σ.Orphaned) : ∃ σ', LoopAction.ret.exec cfg σ = some σ' ∧ σ'.At cfg ws p := by
  subst hws
  have hf' := framed hf
  obtain ⟨m, ws₃, rfl, rfl⟩ := (reader_stands hf' hp hr).2.2 d hd
  have hm := hf m (by simp)
  have hr' := reader_next hr hd
  have hgot : ws₁.map Msg.received ++ [m.received] = (ws₁ ++ [m]).map Msg.received := by simp
  rw [hgot] at hr'
  obtain ⟨q, hq⟩ : ∃ q, q = { Msg.ofBytes cfg m.hdrBytes with payload := m.received.payload } :=
    ⟨_, rfl⟩
  have hhdr : q.hdr = m.hdr := by rw [hq]; exact hm.hdr_ofBytes
  have hcc : q.hdr.isConnClosed = false := by rw [hhdr]; exact hm.connected
  -- either way the task goes on with the next message
  have hgo : ∀ (e : Passed) (ids : List (BitVec 32)), e.msg = q → e.toHandler = m.hdr.isReq →
      e.buf = buf → RecvLoop.At cfg (ws₁ ++ m :: ws₃) p
        { σ with pc := .idle, pending := ids, passed := σ.passed ++ [e] } := by
    intro e ids hmsg hto heb
    have hpass : Passes cfg m e := by
      refine ⟨by rw [hmsg, hq], hto, ?_⟩
      rw [heb, hbuf, Msg.received]
      by_cases hz : m.hdr.plen = 0
      · simp [hz]
      · simp [hz, Nat.pos_of_ne_zero hz]
    refine .idle (ws₁ ++ [m]) ws₃ (by simp) rfl hen hr' ⟨?_, ?_, fun x hx => (by cases hx)⟩
    · exact List.rel_append hh.passes (.cons hpass .nil)
    · simp only [hh.issued, List.filterMap_append, Option.toList_none, List.append_nil,
        List.filterMap_cons, List.filterMap_nil, heb]
      cases buf <;> rfl
  have hx : LoopAction.ret.exec cfg σ = σ.dispatch q buf := by
    simp only [LoopAction.exec, RecvLoop.ret, hpc, hd, hq]
    rfl
  rw [hx, RecvLoop.dispatch, hcc, hhdr, if_neg Bool.false_ne_true]
  cases hreq : m.hdr.isReq with
  | true => exact ⟨_, rfl, hgo (.handler q buf) _ rfl hreq.symm rfl⟩
  | false =>
      have hdec : MsgHdr.decode m.received.stored = m.hdr := hm.hdr_ofBytes
      have hid : m.hdr.seqid ∈ σ.pending := by
        by_contra hid
        exact ho ⟨_, buf, d, hpc, hd, by rw [hdec]; exact hm.connected, by rw [hdec, hreq],
          by rwa [hdec]⟩
      rw [if_neg Bool.false_ne_true, RecvLoop.rpcResponse, hhdr, if_pos hid]
      exact ⟨_, rfl, hgo (.response q buf) _ rfl hreq.symm rfl⟩

omit hf hp in
/-- **The error label**: the data buffer goes back, and the handler is told. -/
theorem at_failed {buf : Option ℕ} (hpc : σ.pc = .receiving r buf) (hd : r.pc = .errout)
    (hh : σ.Has cfg ws buf) :
    ∃ σ', LoopAction.ret.exec cfg σ = some σ' ∧ σ'.At cfg ws p := by
  obtain ⟨q, hq⟩ : ∃ q, q = { Msg.ofBytes cfg r.stored with
      hdr := (Msg.ofBytes cfg r.stored).hdr.setConnClosed } := ⟨_, rfl⟩
  have hcc : q.hdr.isConnClosed = true := by rw [hq]; exact MsgHdr.isConnClosed_setConnClosed _
  have hx : LoopAction.ret.exec cfg σ =
      RecvLoop.dispatch { σ with issued := σ.issued.filter fun x => some x ≠ buf } q none := by
    simp only [LoopAction.exec, RecvLoop.ret, hpc, hd, hq]
  rw [hx, RecvLoop.dispatch, hcc, if_pos rfl]
  refine ⟨_, rfl, .left σ.passed (.handler q none) rfl rfl rfl ⟨rfl, hcc, rfl⟩ hh.passes ?_⟩
  have hkeep : (σ.passed.filterMap Passed.buf).filter (fun x => some x ≠ buf) =
      σ.passed.filterMap Passed.buf := by
    refine List.filter_eq_self.2 fun x hx => ?_
    simp only [ne_eq, decide_not, Bool.not_eq_true', decide_eq_false_iff_not]
    exact fun e => hh.own x e.symm hx
  have hgone : buf.toList.filter (fun x => some x ≠ buf) = [] := by
    cases buf <;> simp
  simp only [hh.issued, List.filter_append, hkeep, hgone, List.append_nil]

/-- **The step lemma**: a step returns, unless it is the one with a response that nobody waits
for. -/
theorem at_step (h : σ.At cfg ws p) (he : act.Enabled σ) (ho : act = .ret → ¬σ.Orphaned) :
    ∃ σ', act.exec cfg σ = some σ' ∧ σ'.At cfg ws p := by
  cases h with
  | idle ws₁ ws₂ hws hpc hen hr hh =>
      rcases he.inLoop with ⟨rfl, -⟩ | ⟨r, buf, e⟩
      · refine ⟨_, rfl, .receiving ws₁ ws₂ (.start true) none hws ?_ hen hr rfl
          ⟨hh.passes, hh.issued, hh.own⟩⟩
        rw [hen]
      · cases hpc.symm.trans e
  | receiving ws₁ ws₂ r buf hws hpc hen hr hbuf hh =>
      have hne : r.pc ≠ .errout :=
        (reader_stands (framed (hws ▸ hf)) hp (hws ▸ hr)).2.1
      cases act with
      | call => cases hpc.symm.trans he
      | take k =>
          obtain ⟨_, _, e, hk, hw, hlen⟩ := he
          obtain ⟨rfl, rfl⟩ := LoopPc.receiving.inj (hpc.symm.trans e)
          exact at_take hf hp hws hpc hen hr hbuf hh hk hw hlen
      | again =>
          have hle := reader_stored (framed hf) hp hr
          exact ⟨_, RecvLoop.read_eq hpc rfl hle,
            .receiving ws₁ ws₂ r buf hws rfl hen hr hbuf ⟨hh.passes, hh.issued, hh.own⟩⟩
      | closed =>
          obtain ⟨_, _, e, hread, hrest⟩ := he
          obtain ⟨rfl, rfl⟩ := LoopPc.receiving.inj (hpc.symm.trans e)
          exact at_closed hf hp hws hpc hen hr hh hread hrest
      | data x =>
          obtain ⟨_, _, d, e, hd, hx⟩ := he
          obtain ⟨rfl, rfl⟩ := LoopPc.receiving.inj (hpc.symm.trans e)
          exact at_data hf hp hws hpc hen hr hbuf hh hd hx
      | ret =>
          obtain ⟨_, _, e, hfin⟩ := he
          obtain ⟨rfl, rfl⟩ := LoopPc.receiving.inj (hpc.symm.trans e)
          unfold Recv.finished at hfin
          split at hfin
          · rename_i d hd
            exact at_done hf hp hws hpc hen hr hbuf hh hd (ho rfl)
          · rename_i hd
            exact absurd hd hne
          · cases hfin
      | hashAdd id =>
          exact ⟨_, rfl, .receiving ws₁ ws₂ r buf hws hpc hen hr hbuf
            ⟨hh.passes, hh.issued, hh.own⟩⟩
  | failed r buf hpc hen hd hh =>
      -- it is in no read, and waits for no buffer
      have hzero : r.wanted = 0 := by rw [Recv.wanted, hd]
      cases act with
      | call => cases hpc.symm.trans he
      | take k =>
          obtain ⟨_, _, e, hk, hw, -⟩ := he
          obtain ⟨rfl, rfl⟩ := LoopPc.receiving.inj (hpc.symm.trans e)
          omega
      | again =>
          obtain ⟨_, _, e, hread⟩ := he
          obtain ⟨rfl, rfl⟩ := LoopPc.receiving.inj (hpc.symm.trans e)
          exact absurd hzero hread.ne'
      | closed =>
          obtain ⟨_, _, e, hread, -⟩ := he
          obtain ⟨rfl, rfl⟩ := LoopPc.receiving.inj (hpc.symm.trans e)
          exact absurd hzero hread.ne'
      | data x =>
          obtain ⟨_, _, d, e, hd', -⟩ := he
          obtain ⟨rfl, rfl⟩ := LoopPc.receiving.inj (hpc.symm.trans e)
          cases hd.symm.trans hd'
      | ret => exact at_failed hpc hd hh
      | hashAdd id =>
          obtain ⟨_, _, e, hfin⟩ := he
          obtain ⟨rfl, rfl⟩ := LoopPc.receiving.inj (hpc.symm.trans e)
          rw [Recv.finished, hd] at hfin
          cases hfin
  | left ds d hpc =>
      rcases he.inLoop with ⟨-, e⟩ | ⟨r, buf, e⟩
      · cases hpc.symm.trans e
      · cases hpc.symm.trans e

/-- **The run lemma.** -/
theorem at_reachable (hr : (cutSystem cfg (frames ws ++ p)).Reachable σ) : σ.At cfg ws p := by
  refine hr.invariant (I := fun σ => σ.At cfg ws p) (fun σ hσ => ?_) fun σ act σ' h he hx => ?_
  · obtain ⟨pending, rfl⟩ := hσ
    exact .idle [] ws rfl rfl rfl (.init rfl) ⟨.nil, rfl, fun x hx => (by cases hx)⟩
  · -- the step was taken, so it is not the one that fails
    have ho : act = .ret → ¬σ.Orphaned := by
      rintro rfl ho
      rw [show (cutSystem cfg (frames ws ++ p)).exec σ .ret = none from (ho.fault cfg).2] at hx
      cases hx
    obtain ⟨σ'', hx', h'⟩ := at_step hf hp h he ho
    exact Option.some.inj (hx'.symm.trans hx) ▸ h'

end

/-! ## The end is reached -/

/-- Requests wait for the responses among the messages, each for one. -/
def Awaited : List (BitVec 32) → List Msg → Prop
  | _, [] => True
  | ids, m :: ms =>
      if m.hdr.isReq = true then Awaited ids ms
      else m.hdr.seqid ∈ ids ∧ Awaited (ids.erase m.hdr.seqid) ms

/-- They wait for those that the task has yet to pass on. -/
def RecvLoop.Waits (ws : List Msg) (σ : RecvLoop) : Prop :=
  Awaited σ.pending (ws.drop σ.passed.length)

/-- What becomes of a message that `_rpc_receive` returns. -/
theorem RecvLoop.dispatch_cases {buf : Option ℕ} (hx : σ.dispatch m buf = some σ') :
    (m.hdr.isConnClosed = true ∧
        σ' = { σ with enabled := false, pc := .left, passed := σ.passed ++ [.handler m buf] }) ∨
      (m.hdr.isConnClosed = false ∧ m.hdr.isReq = true ∧
        σ' = { σ with pc := .idle, passed := σ.passed ++ [.handler m buf] }) ∨
      m.hdr.isConnClosed = false ∧ m.hdr.isReq = false ∧
        σ' = { σ with
          pc := .idle
          pending := σ.pending.erase m.hdr.seqid
          passed := σ.passed ++ [.response m buf] } := by
  unfold dispatch at hx
  split at hx
  · rename_i hcc
    exact .inl ⟨hcc, (Option.some.inj hx).symm⟩
  · rename_i hcc
    have hcc : m.hdr.isConnClosed = false := Bool.eq_false_iff.2 hcc
    split at hx
    · rename_i hreq
      exact .inr (.inl ⟨hcc, hreq, (Option.some.inj hx).symm⟩)
    · rename_i hreq
      unfold rpcResponse at hx
      split at hx
      · exact .inr (.inr ⟨hcc, Bool.eq_false_iff.2 hreq, (Option.some.inj hx).symm⟩)
      · cases hx

/-- What a read leaves as it is. -/
theorem RecvLoop.read_cases {res : ReadResult} {rest : List Byte}
    (hx : σ.read cfg res rest = some σ') :
    ∃ r buf r', σ.pc = .receiving r buf ∧ r'.stored.length ≤ cfg.msgsz ∧
      σ' = { σ with pc := .receiving r' buf, rest := rest } := by
  simp only [read] at hx
  split at hx
  · rename_i r buf hpc
    simp only [Option.bind_eq_bind, Option.bind_eq_some_iff] at hx
    obtain ⟨r', -, hx⟩ := hx
    split at hx
    · cases hx
    · rename_i hle
      exact ⟨r, buf, r', hpc, Nat.not_lt.1 hle, (Option.some.inj hx).symm⟩
  · cases hx

/-- What a return comes to: a whole message goes where its flags say, and from
the error label the task leaves its loop. -/
theorem RecvLoop.ret_cases (hx : LoopAction.ret.exec cfg σ = some σ') :
    (∃ r buf d, σ.pc = .receiving r buf ∧ r.pc = .done d ∧
        σ.dispatch { Msg.ofBytes cfg r.stored with payload := r.payload } buf = some σ') ∨
      ∃ r buf ids d, σ.pc = .receiving r buf ∧ r.pc = .errout ∧
        σ' = { σ with
          enabled := false
          pc := .left
          issued := ids
          passed := σ.passed ++ [d] } := by
  simp only [LoopAction.exec, RecvLoop.ret] at hx
  split at hx
  · rename_i r buf hpc
    split at hx
    · rename_i d hd
      exact .inl ⟨r, buf, d, hpc, hd, hx⟩
    · rename_i hd
      rcases dispatch_cases hx with ⟨-, rfl⟩ | ⟨hcc, -⟩ | ⟨hcc, -⟩
      · exact .inr ⟨r, buf, _, _, hpc, hd, rfl⟩
      · simp only [MsgHdr.isConnClosed_setConnClosed, Bool.true_eq_false] at hcc
      · simp only [MsgHdr.isConnClosed_setConnClosed, Bool.true_eq_false] at hcc
    · cases hx
  · cases hx

/-- What a step still has to do, when each takes what it can: nothing is
read without a byte going, and every message read is one byte at least. -/
def Recv.todo (r : Recv) : ℕ :=
  match r.pc with
  | .header => if r.stored = [] then 2 else 6
  | .databuf _ => 7
  | .body _ => 6
  | .payload _ => 6
  | .done _ => 5
  | .errout => 1

def RecvLoop.todo (σ : RecvLoop) : ℕ :=
  10 * σ.rest.length + match σ.pc with
    | .idle => 3
    | .receiving r _ => r.todo
    | .left => 0

theorem Recv.todo_le (r : Recv) : r.todo ≤ 7 := by
  unfold todo
  repeat' split
  all_goals omega

theorem Recv.two_le_todo (h : r.Reading) : 2 ≤ r.todo := by
  obtain ⟨pc, st, q⟩ := r
  cases pc <;> simp [Reading, wanted, todo] at h ⊢
  split <;> omega

theorem RecvLoop.todo_receiving {buf : Option ℕ} (hpc : σ.pc = .receiving r buf) :
    σ.todo = 10 * σ.rest.length + r.todo := by
  rw [todo, hpc]

/-- A return leaves less to do. -/
theorem ret_todo (hx : LoopAction.ret.exec cfg σ = some σ') : σ'.todo < σ.todo := by
  rcases RecvLoop.ret_cases hx with ⟨r, buf, d, hpc, hd, hx⟩ | ⟨r, buf, ids, d, hpc, hd, rfl⟩
  · have hfive : r.todo = 5 := by rw [Recv.todo, hd]
    rw [RecvLoop.todo_receiving hpc]
    rcases RecvLoop.dispatch_cases hx with ⟨-, rfl⟩ | ⟨-, -, rfl⟩ | ⟨-, -, rfl⟩ <;>
    · simp only [RecvLoop.todo]
      omega
  · have hone : r.todo = 1 := by rw [Recv.todo, hd]
    rw [RecvLoop.todo_receiving hpc]
    simp only [RecvLoop.todo]
    omega

/-- So does a read that takes a byte. -/
theorem take_todo {buf : Option ℕ} (hpc : σ.pc = .receiving r buf) (hread : r.Reading)
    (hlen : 1 ≤ σ.rest.length) (hx : (LoopAction.take 1).exec cfg σ = some σ') :
    σ'.todo < σ.todo := by
  obtain ⟨_, _, r', -, -, rfl⟩ := RecvLoop.read_cases hx
  have htwo := Recv.two_le_todo hread
  have hseven := r'.todo_le
  rw [RecvLoop.todo_receiving hpc, RecvLoop.todo_receiving rfl, List.length_drop]
  omega

section

variable (hf : ∀ m ∈ ws, m.WellFormed cfg) (hp : Partial cfg p)
include hf hp

/-- The whole message that the task has read is the next one. -/
theorem at_next {buf : Option ℕ} {d : MsgHdr} (h : σ.At cfg ws p) (hpc : σ.pc = .receiving r buf)
    (hd : r.pc = .done d) :
    ∃ m ws₃, ws.drop σ.passed.length = m :: ws₃ ∧ MsgHdr.decode r.stored = m.hdr ∧
      m.hdr.isConnClosed = false := by
  cases h with
  | idle _ _ _ hpc' => cases hpc.symm.trans hpc'
  | failed _ _ hpc' _ hd' =>
      obtain ⟨rfl, rfl⟩ := LoopPc.receiving.inj (hpc.symm.trans hpc')
      cases hd.symm.trans hd'
  | left _ _ hpc' => cases hpc.symm.trans hpc'
  | receiving ws₁ ws₂ r' buf' hws hpc' _ hr _ hh =>
      obtain ⟨rfl, rfl⟩ := LoopPc.receiving.inj (hpc.symm.trans hpc')
      subst hws
      obtain ⟨m, ws₃, rfl, rfl⟩ :=
        (reader_stands (framed hf) hp hr).2.2 d hd
      have hm := hf m (by simp)
      refine ⟨m, ws₃, ?_, hm.hdr_ofBytes, hm.connected⟩
      rw [← hh.passes.length_eq, List.drop_left]

/-- A request waits for it, if one waits for each response to come. -/
theorem not_orphaned (h : σ.At cfg ws p) (hw : σ.Waits ws) : ¬σ.Orphaned := by
  rintro ⟨r, buf, d, hpc, hd, -, hreq, hid⟩
  obtain ⟨m, ws₃, hdrop, hdec, -⟩ := at_next hf hp h hpc hd
  rw [RecvLoop.Waits, hdrop, Awaited, ← hdec, hreq, if_neg Bool.false_ne_true] at hw
  exact hid hw.1

/-- From the error label every whole message has been passed on. -/
theorem at_errout {buf : Option ℕ} (h : σ.At cfg ws p) (hpc : σ.pc = .receiving r buf)
    (hd : r.pc = .errout) : σ.passed.length = ws.length := by
  cases h with
  | idle _ _ _ hpc' => cases hpc.symm.trans hpc'
  | left _ _ hpc' => cases hpc.symm.trans hpc'
  | failed _ _ _ _ _ hh => exact hh.passes.length_eq.symm
  | receiving ws₁ ws₂ r' buf' hws hpc' _ hr =>
      obtain ⟨rfl, rfl⟩ := LoopPc.receiving.inj (hpc.symm.trans hpc')
      subst hws
      exact absurd hd (reader_stands (framed hf) hp hr).2.1

/-- The task's own steps leave the requests to those they wait for. -/
theorem own_waits (h : σ.At cfg ws p) (hown : act.Own) (hx : act.exec cfg σ = some σ')
    (hw : σ.Waits ws) : σ'.Waits ws := by
  have hread : ∀ {res rest}, σ.read cfg res rest = some σ' → σ'.Waits ws := fun hx => by
    obtain ⟨_, _, _, -, -, rfl⟩ := RecvLoop.read_cases hx
    exact hw
  cases act with
  | call =>
      rw [← Option.some.inj hx]
      exact hw
  | take k => exact hread hx
  | again => exact hread hx
  | closed => exact hread hx
  | data x =>
      simp only [LoopAction.exec, RecvLoop.getData] at hx
      split at hx
      · simp only [Option.bind_eq_bind, Option.bind_eq_some_iff] at hx
        obtain ⟨r', -, hx⟩ := hx
        rw [← Option.some.inj hx]
        exact hw
      · cases hx
  | hashAdd id => exact hown.elim
  | ret =>
      rcases RecvLoop.ret_cases hx with ⟨r, buf, d, hpc, hd, hx⟩ | ⟨r, buf, ids, d, hpc, hd, rfl⟩
      · obtain ⟨m, ws₃, hdrop, hdec, hcc⟩ := at_next hf hp h hpc hd
        have hnext : ws.drop (σ.passed.length + 1) = ws₃ := by
          rw [← List.drop_drop, hdrop, List.drop_one, List.tail_cons]
        have hhdr : (Msg.ofBytes cfg r.stored).hdr = m.hdr := hdec
        rw [RecvLoop.Waits, hdrop, Awaited] at hw
        rcases RecvLoop.dispatch_cases hx with ⟨hcc', -⟩ | ⟨-, hreq, rfl⟩ | ⟨-, hreq, rfl⟩
        · rw [hhdr, hcc] at hcc'
          cases hcc'
        · rw [hhdr] at hreq
          rw [if_pos hreq] at hw
          simpa only [RecvLoop.Waits, List.length_append, List.length_singleton, hnext] using hw
        · rw [hhdr] at hreq
          rw [if_neg (by simp [hreq])] at hw
          simpa only [RecvLoop.Waits, List.length_append, List.length_singleton, hnext, hhdr]
            using hw.2
      · -- nothing is left to wait for
        have hlen := at_errout hf hp h hpc hd
        have hnil : ws.drop (σ.passed.length + 1) = [] := List.drop_eq_nil_of_le (by omega)
        simp only [RecvLoop.Waits, List.length_append, List.length_singleton, hnil, Awaited]

/-- While the task is in its loop and requests wait for what is to come, it
can go on, and has less to do then. -/
theorem exists_less (h : σ.At cfg ws p) (hleft : σ.pc ≠ .left) (hw : σ.Waits ws) :
    ∃ (act : LoopAction) (σ' : RecvLoop), act.Own ∧ act.Enabled σ ∧ act.exec cfg σ = some σ' ∧
      σ'.todo < σ.todo := by
  -- a step that is possible returns, so only what it leaves to do matters
  have hgo : ∀ act : LoopAction, act.Own → act.Enabled σ →
      (∀ σ', act.exec cfg σ = some σ' → σ'.todo < σ.todo) →
      ∃ (act : LoopAction) (σ' : RecvLoop), act.Own ∧ act.Enabled σ ∧ act.exec cfg σ = some σ' ∧
        σ'.todo < σ.todo := fun act hown he hless => by
    obtain ⟨σ', hx, -⟩ := at_step hf hp h he fun _ => not_orphaned hf hp h hw
    exact ⟨act, σ', hown, he, hx, hless σ' hx⟩
  cases h with
  | idle ws₁ ws₂ _ hpc hen _ _ =>
      refine hgo .call trivial hpc fun σ' hx => ?_
      rw [← Option.some.inj hx, RecvLoop.todo_receiving rfl, RecvLoop.todo, hpc, hen]
      simp [Recv.todo, Recv.start]
  | receiving ws₁ ws₂ r buf hws hpc hen hr hbuf hh =>
      obtain ⟨hok, hne, -⟩ := reader_stands (framed (hws ▸ hf)) hp (hws ▸ hr)
      have hok : r.Ok cfg := hok.recv
      by_cases hd : ∃ d, r.pc = .done d
      · obtain ⟨d, hd⟩ := hd
        exact hgo .ret trivial ⟨r, buf, hpc, by rw [Recv.finished, hd]⟩ fun σ' hx => ret_todo hx
      rcases hok.reading_or hne (not_exists.1 hd) with ⟨hread, -⟩ | ⟨d, hdata⟩
      · rcases Nat.eq_zero_or_pos σ.rest.length with hz | hpos
        · refine hgo .closed trivial ⟨r, buf, hpc, hread, List.length_eq_zero_iff.1 hz⟩
            fun σ' hx => ?_
          have hle := reader_stored (framed hf) hp hr
          rw [LoopAction.exec, RecvLoop.read_eq hpc (show r.read cfg .closed = _ from rfl) hle] at hx
          have htwo := Recv.two_le_todo hread
          rw [RecvLoop.todo_receiving hpc, ← Option.some.inj hx, RecvLoop.todo_receiving rfl, Recv.todo]
          simp only
          omega
        · exact hgo (.take 1) trivial ⟨r, buf, hpc, by omega, hread, hpos⟩
            fun σ' hx => take_todo hpc hread hpos hx
      · -- the pool has a buffer that nobody has
        obtain ⟨x, hx⟩ := Infinite.exists_notMem_finset σ.issued.toFinset
        rw [List.mem_toFinset] at hx
        refine hgo (.data x) trivial ⟨r, buf, d, hpc, hdata, hx⟩ fun σ' hx' => ?_
        have hseven : r.todo = 7 := by rw [Recv.todo, hdata]
        have hget : r.getData = some ⟨.payload d, r.stored, some []⟩ := by rw [Recv.getData, hdata]
        simp only [LoopAction.exec, RecvLoop.getData, hpc, hget] at hx'
        rw [RecvLoop.todo_receiving hpc, ← Option.some.inj hx', RecvLoop.todo_receiving rfl, hseven]
        simp [Recv.todo]
  | failed r buf hpc hen hd hh =>
      exact hgo .ret trivial ⟨r, buf, hpc, by rw [Recv.finished, hd]⟩ fun σ' hx => ret_todo hx
  | left ds d hpc => exact absurd hpc hleft

/-- **From wherever it stands** the task can go on to the end of its loop by
itself, if requests wait for the responses to come. -/
theorem exists_left (bs : List Byte) (h : σ.At cfg ws p) (hw : σ.Waits ws) :
    ∃ acts σ', (cutSystem cfg bs).Steps σ acts σ' ∧ (∀ act ∈ acts, act.Own) ∧ σ'.pc = .left := by
  induction hn : σ.todo using Nat.strong_induction_on generalizing σ with
  | _ n ih =>
      by_cases hleft : σ.pc = .left
      · exact ⟨[], σ, .nil, by simp, hleft⟩
      · obtain ⟨act, σ₁, hown, he, hx, hlt⟩ := exists_less hf hp h hleft hw
        obtain ⟨σ₂, hx', h'⟩ := at_step hf hp h he fun _ => not_orphaned hf hp h hw
        obtain rfl := Option.some.inj (hx.symm.trans hx')
        obtain ⟨acts, σ', hsteps, howns, hend⟩ :=
          ih _ (hn ▸ hlt) h' (own_waits hf hp h hown hx hw) rfl
        exact ⟨act :: acts, σ', .cons he hx hsteps, List.forall_mem_cons.2 ⟨hown, howns⟩, hend⟩

end

/-! ## The connection is cut -/

/-- What should be true of the task in every state, on a stream of the
messages `ws` and the beginning `p` of another. -/
structure CutHandled (cfg : RecvCfg) (ws : List Msg) (p : List Byte) (σ : RecvLoop) : Prop where
  /-- no assertion fails -/
  no_fault : ∀ act : LoopAction, act.Enabled σ → ∃ σ', act.exec cfg σ = some σ'
  /-- what was passed on so far are the first messages, in order -/
  prefixed : σ.pc ≠ .left → σ.enabled = true ∧ ∃ ws₁ ws₂, ws = ws₁ ++ ws₂ ∧
    List.Forall₂ (Passes cfg) ws₁ σ.passed
  /-- the task stops when it has passed on all of them and the closing
  message, with their data buffers -/
  stopped : σ.pc = .left → σ.enabled = false ∧ (∀ act : LoopAction, ¬act.Enabled σ) ∧
    ∃ ds d, σ.passed = ds ++ [d] ∧ d.Closing ∧ List.Forall₂ (Passes cfg) ws ds ∧
      σ.issued = ds.filterMap Passed.buf
  /-- and it can go on by itself to where it stops, if requests wait for the
  responses to come -/
  stops : σ.Waits ws → ∃ acts σ', (cutSystem cfg (frames ws ++ p)).Steps σ acts σ' ∧
    (∀ act ∈ acts, act.Own) ∧ σ'.pc = .left

/-- A request with three bytes of payload. -/
def shortRequest : Msg where
  hdr := ⟨7, 1, 12, 3, 0⟩
  body := []
  payload := some [1, 2, 3]
  resp := none
  rendez := []
  use := .fresh

/-- A response. -/
def shortResponse : Msg where
  hdr := ⟨5, 0, 12, 0, 0⟩
  body := []
  payload := none
  resp := none
  rendez := []
  use := .fresh

end Rpc

end VmwareProto
