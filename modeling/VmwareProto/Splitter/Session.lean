import VmwareProto.Splitter.Contents
/-!
# A client and a server

Both ends of one connection. The transport brings each end what the other
has written, in order and without an error; when it does, and how much at a
time, is not determined.
-/

namespace VmwareProto

namespace Splitter

open Rpc
open Libtask (TaskId)

namespace Role

/-- The other end. -/
def peer : Role → Role
  | client => server
  | server => client

/-- What an end sends. -/
def Sends (m : Msg) : Role → Prop
  | client => Servable m ∧ m.hdr.isReq = true
  | server => Deliverable ioCfg m ∧ m.hdr.isReq = false

end Role

/-- Both ends. -/
abbrev Session := Role → Side

/-- A step of one of them. -/
structure SessionAction where
  role : Role
  act : SideAction

namespace Session

variable (σ : Session)

/-- What arrives at one end is what the other has written. -/
def Carries (role : Role) : SideAction → Prop
  | .arrive bs => (σ role).rpc.arrived.flatten ++ bs <+: (σ role.peer).rpc.sent
  | _ => True

end Session

/-- A client whose tasks op and a server with `rpc_msg_handler`, on a
connection without errors. -/
def sessionSystem : System Session SessionAction where
  init σ := ∀ role, Side.Initial ioChanCfg (σ role)
  enabled σ x := x.act.Enabled ioChanCfg x.role (σ x.role) ∧ σ.Carries x.role x.act
  exec σ x := (x.act.exec ioChanCfg x.role (σ x.role)).map (Function.update σ x.role)

instance (σ : Session) (role : Role) : (act : SideAction) → Decidable (σ.Carries role act)
  | .arrive _ => inferInstanceAs (Decidable (_ <+: _))
  | .start _ _ | .getData _ _ | .getMsg _ _ | .fill _ | .request _ | .finish _ | .resume _
  | .write _ _ | .wake _ | .handle _ _ _ | .respond _ | .recvStart _ | .recvTake _ _ | .recvAgain
  | .recvData _ => .isTrue trivial

instance (σ : Session) (x : SessionAction) : Decidable (sessionSystem.enabled σ x) :=
  inferInstanceAs (Decidable (_ ∧ _))

variable {role : Role} {σ σ' : Side} {n t : TaskId} {a b : Addr} {m m' : Msg} {act : SideAction}
  {ρ : Rpc.State} {p : Pc} {s : Task} {w x : List Byte} {ms : List Msg} {data : BufPool.State}
  {ptr : Addr → DataAddr} {buf : DataAddr}

@[simp] theorem peer_peer (role : Role) : role.peer.peer = role := by cases role <;> rfl

theorem Role.Sends.deliverable (h : role.Sends m) : Deliverable ioCfg m := by
  cases role with
  | client => exact h.1.toDeliverable
  | server => exact h.1

theorem Role.Sends.servable (h : role.Sends m) (hreq : m.hdr.isReq = true) :
    role = .client ∧ Servable m := by
  cases role with
  | client => exact ⟨rfl, h.1⟩
  | server =>
      rw [h.2] at hreq
      cases hreq

/-! ## What the tasks say -/

namespace Task

/-- The tasks a program has. -/
def Of : Role → Task → Prop
  | _, idle => True
  | .client, getData op | .client, getMsg op _ | .client, fill op _ | .client, filled op _
  | .client, calling op _ => op.Valid
  | .server, handle _ | .server, respond _ | .server, responding _ => True
  | _, _ => False

/-- What a task's message holds. -/
def Holds (m : Msg) : Task → Prop
  | fill op _ => GotFor op m
  | filled _ _ => Servable m
  | calling _ _ => Servable m ∧ m.hdr.isReq = true
  | handle _ => Servable m
  | respond _ => Deliverable ioCfg m
  | responding _ => Deliverable ioCfg m ∧ m.hdr.isReq = false
  | _ => True

end Task

/-- A message as its reader sees it. -/
structure SameText (m m' : Msg) : Prop where
  hdr : m'.hdr = m.hdr
  body : m'.body = m.body
  payload : m'.payload = m.payload

theorem SameText.refl (m : Msg) : SameText m m := ⟨rfl, rfl, rfl⟩

theorem Deliverable.same (h : Deliverable ioCfg m) (e : SameText m m') : Deliverable ioCfg m' :=
  h.congr (by rw [e.hdr]) (by rw [e.hdr]) (by rw [e.hdr]) e.body e.payload

theorem Servable.same (h : Servable m) (e : SameText m m') : Servable m' :=
  h.congr (by rw [e.hdr]) (by rw [e.hdr]) (by rw [e.hdr]) (by rw [e.hdr]) e.body e.payload

theorem Task.Holds.same (h : s.Holds m) (e : SameText m m') : s.Holds m' := by
  cases s with
  | fill op a => exact ⟨by rw [e.hdr]; exact h.type, by rw [e.hdr]; exact h.msglen,
      by rw [e.hdr]; exact h.payloadlen, by rw [e.payload]; exact h.payload,
      by rw [e.body]; exact h.body⟩
  | filled op a => exact Servable.same h e
  | calling op a => exact ⟨Servable.same h.1 e, by rw [e.hdr]; exact h.2⟩
  | handle a => exact Servable.same h e
  | respond a => exact Deliverable.same h e
  | responding a => exact ⟨Deliverable.same h.1 e, by rw [e.hdr]; exact h.2⟩
  | _ => trivial

/-- **Task `n` is one of its program's**, and its message holds what it
should. -/
structure Speaks (role : Role) (σ : Side) (n : TaskId) : Prop where
  of : (σ.task n).Of role
  holds : ∀ a m, (σ.task n).msg = some a → σ.rpc.chan.msgs a = some m → (σ.task n).Holds m

/-- A task that does nothing, and whose message is left alone. -/
theorem Speaks.old (h : Speaks role σ t) (ht : σ'.task t = σ.task t)
    (hm : ∀ a m', (σ.task t).msg = some a → σ'.rpc.chan.msgs a = some m' →
      ∃ m, σ.rpc.chan.msgs a = some m ∧ SameText m m') : Speaks role σ' t where
  of := by rw [ht]; exact h.of
  holds a m' ha hm' := by
    rw [ht] at ha ⊢
    obtain ⟨m, hm, e⟩ := hm a m' ha hm'
    exact (h.holds a m ha hm).same e

/-- **One task does something**, and the messages of the others are left
alone. -/
theorem speaks_update (h : ∀ t, Speaks role σ t) (htask : σ'.task = Function.update σ.task n s)
    (hof : s.Of role) (htext : ∀ a m, s.msg = some a → σ'.rpc.chan.msgs a = some m → s.Holds m)
    (hm : ∀ t a m', t ≠ n → (σ.task t).msg = some a → σ'.rpc.chan.msgs a = some m' →
      ∃ m, σ.rpc.chan.msgs a = some m ∧ SameText m m') (t : TaskId) : Speaks role σ' t := by
  by_cases htn : t = n
  · have hs : σ'.task t = s := by rw [htask, htn, Function.update_self]
    exact ⟨by rw [hs]; exact hof, fun a m ha hm => by rw [hs] at ha ⊢; exact htext a m ha hm⟩
  · exact (h t).old (by rw [htask, Function.update_of_ne htn]) fun a m' => hm t a m' htn

/-- A task acts on its message. -/
theorem speaks_acts (h : ∀ t, Speaks role σ t) (hO : Owned ioChanCfg σ)
    (ha : Acts σ.rpc ρ n a m m' p) (ht : (σ.task n).msg = some a) (hsa : s.msg = some a)
    (hof : s.Of role) (htext : s.Holds m') (t : TaskId) :
    Speaks role ⟨ρ, data, ptr, buf, Function.update σ.task n s⟩ t := by
  refine speaks_update (σ := σ) h rfl hof (fun b q hb hq => ?_) (fun t b q htn hb hq => ?_) t
  · obtain rfl := Option.some.inj (hsa.symm.trans hb)
    simp only [ha.msgs, Function.update_self] at hq
    exact Option.some.inj hq ▸ htext
  · simp only [ha.msgs, Function.update_of_ne (hO.other hb ht htn)] at hq
    exact ⟨q, hq, .refl q⟩

/-- A task goes on with its message. -/
theorem speaks_same (h : ∀ t, Speaks role σ t) (ha : Acts σ.rpc ρ n a m m' p) (e : SameText m m')
    (t : TaskId) : Speaks role { σ with rpc := ρ } t := by
  refine (h t).old rfl fun b q hb hq => ?_
  simp only [ha.msgs, Function.update_apply] at hq
  split at hq
  · rename_i hba
    obtain rfl := Option.some.inj hq
    exact ⟨m, by rw [hba, ha.msg], e⟩
  · exact ⟨q, hq, .refl q⟩

/-- What has been put is no task's any more. -/
theorem speaks_idle (h : ∀ t, Speaks role σ t) (htask : σ'.task = Function.update σ.task n .idle)
    (hm : ∀ a m, σ'.rpc.chan.msgs a = some m → σ.rpc.chan.msgs a = some m) (t : TaskId) :
    Speaks role σ' t :=
  speaks_update h htask (by cases role <;> trivial) (fun _ _ e => by cases e)
    (fun _ a m' _ _ hm' => ⟨m', hm a m' hm', .refl m'⟩) t

/-! ## What is heard -/

/-- A whole message that a stream of messages begins with is the first. -/
theorem whole_first (hw : Whole ioCfg w) (hm : m.Framed ioCfg) {y z : List Byte}
    (h : w ++ x ++ z = m.wire ++ y) : w = m.wire ∧ x ++ z = y := by
  rw [List.append_assoc] at h
  have hdec : MsgHdr.decode w = m.hdr := by
    rw [← hm.decode_wire y, ← h, MsgHdr.decode_append hw.size]
  have hlen : w.length = m.wire.length := by rw [hw.length, hdec, hm.length_wire]
  exact List.append_inj h hlen

/-- What is heard of a row of messages: a whole message is the first. -/
theorem heard_first (hms : ∀ m ∈ ms, role.Sends m) (hs : w ++ x <+: frames ms) (hw : Whole ioCfg w) :
    ∃ m ms', ms = m :: ms' ∧ w = m.wire ∧ x <+: frames ms' := by
  obtain ⟨z, hz⟩ := hs
  cases ms with
  | nil =>
      rw [frames_nil, List.append_assoc] at hz
      have hsize := hw.size
      rw [(List.append_eq_nil_iff.1 hz).1] at hsize
      exact absurd hsize (by decide)
  | cons m ms' =>
      rw [frames_cons] at hz
      obtain ⟨rfl, hx⟩ := whole_first hw (hms m List.mem_cons_self).deliverable.framed hz
      exact ⟨m, ms', rfl, rfl, z, hx⟩

/-- **The receiver finds nothing wrong** with what it hears. -/
theorem recv_ne_left {k : ℕ} (hO : Owned ioChanCfg σ) (hms : ∀ m ∈ ms, role.Sends m)
    (hs : σ.rpc.recv.taken ++ σ.rpc.inq <+: frames ms)
    (he : (Rpc.Action.recvTake k).Allowed ioChanCfg σ.rpc)
    (hx : (Rpc.Action.recvTake k).exec ioChanCfg σ.rpc = some ρ) : ρ.recv ≠ .left := by
  obtain ⟨b, q, hq, -, hk, hw, hlen⟩ := id he
  intro hl
  rcases recvTake_took hO.base hO.enabled hO.receives he hq hx with ⟨r, h, -⟩ |
    ⟨w, m, -, -, -, -, -, h, -⟩ | ⟨w, m, a, p, t, -, -, -, -, -, -, h, -⟩ | ⟨r, hread, hr, -⟩
  · rw [h] at hl
    cases hl
  · rw [h] at hl
    cases hl
  · rw [h] at hl
    cases hl
  · obtain ⟨hok, hf, -⟩ := hO.receives b q hq
    rw [hq] at hs
    obtain ⟨z, hz⟩ := hs
    cases ms with
    | nil =>
        rw [frames_nil] at hz
        have hinq := (List.append_eq_nil_iff.1 (List.append_eq_nil_iff.1 hz).1).2
        rw [hinq, List.length_nil] at hlen
        omega
    | cons m ms' =>
        rw [frames_cons] at hz
        have hd := (hms m List.mem_cons_self).deliverable
        have hat : RecvOn.Ok ioCfg (m.wire ++ frames ms') ⟨q, σ.rpc.inq ++ z⟩ :=
          ⟨hok, by rw [← hz, List.append_assoc]; rfl⟩
        have hpc : q.pc ≠ .errout := fun e => by
          rw [Recv.finished, e] at hf
          cases hf
        obtain ⟨r', hr', hne, hok'⟩ := hat.read hd.framed hpc hk hw (by simp; omega)
        rw [show (RecvOn.mk q (σ.rpc.inq ++ z)).rest = σ.rpc.inq ++ z from rfl,
          List.take_append_of_le_length hlen] at hr'
        obtain rfl := Option.some.inj (hread.symm.trans hr')
        rcases hr with hr | ⟨d, hr, hcc⟩
        · exact hne hr
        · obtain ⟨e, -⟩ := RecvOn.mk.inj (hok'.eq_received hd.framed hr)
          rw [e] at hr
          obtain rfl := RecvPc.done.inj hr
          rw [hd.stays_open] at hcc
          cases hcc

end Splitter

end VmwareProto
