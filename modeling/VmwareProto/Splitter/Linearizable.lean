import VmwareProto.Splitter.Workers
/-!
# The remote block store is linearizable

Each step of the two programs is one of the callers and the workers at the
two ends of a connection, or none of these: what was sent is the two logs, of
which each receiver has heard a number of messages. So every run of the store
accounts for one of the object at the other end, and has its histories.
-/

namespace VmwareProto

namespace Splitter

open Rpc
open Libtask (TaskId)

variable {role : Role} {σ σ' π π' : Side} {k : ℕ} {n : TaskId} {a : Addr} {m : Msg}
  {act : SideAction} {ms : List Msg} {x y : List Byte}

/-! ## What an end has heard -/

/-- The first `k` messages of the other end, and what its receiver is
working on or has yet to read. -/
structure Heard (σ π : Side) (k : ℕ) : Prop where
  le : k ≤ π.rpc.log.length
  stream : σ.rpc.arrived.flatten = (π.rpc.log.take k).flatten ++ (σ.rpc.recv.taken ++ σ.rpc.inq)

/-- The other end begins another message. -/
theorem Heard.mono (h : Heard σ π k) (hlog : π.rpc.log <+: π'.rpc.log) : Heard σ π' k := by
  obtain ⟨ws, hws⟩ := hlog
  refine ⟨h.le.trans (by rw [← hws]; simp), ?_⟩
  rw [h.stream, ← hws, List.take_append_of_le_length h.le]

/-- A message is whole. -/
theorem Heard.next (h : Heard σ π k) (harr : σ'.rpc.arrived = σ.rpc.arrived)
    (hst : σ.rpc.recv.taken ++ σ.rpc.inq = x ++ (σ'.rpc.recv.taken ++ σ'.rpc.inq))
    (hx : π.rpc.log[k]? = some x) : Heard σ' π (k + 1) := by
  obtain ⟨hlt, hget⟩ := List.getElem?_eq_some_iff.1 hx
  refine ⟨hlt, ?_⟩
  rw [harr, h.stream, hst, List.take_add_one, hx]
  simp

/-- What comes next. -/
theorem Heard.frames (h : Heard σ π k) (hO : Owned ioChanCfg π)
    (harr : σ.rpc.arrived.flatten <+: π.rpc.sent)
    (hs : ∀ w ∈ π.rpc.log, ∃ m, role.Sends m ∧ w = m.wire) :
    ∃ ms : List Msg, π.rpc.log.drop k = ms.map Msg.wire ∧ (∀ m ∈ ms, role.Sends m) ∧
      σ.rpc.recv.taken ++ σ.rpc.inq <+: Rpc.frames ms := by
  obtain ⟨ms, hms, hdrop⟩ := exists_messages
    fun w (hw : w ∈ π.rpc.log.drop k) => hs w (List.mem_of_mem_drop hw)
  refine ⟨ms, hdrop, hms, ?_⟩
  have hpre := harr.trans (sent_begins hO.reach)
  rw [h.stream, ← List.take_append_drop k π.rpc.log, hdrop, List.flatten_append,
    List.take_append_of_le_length (by simp [h.le]), List.take_take, Nat.min_self] at hpre
  exact (List.prefix_append_right_inj _).1 hpre

/-- The first of them is the message with the number `k`. -/
theorem getElem?_of_drop (h : π.rpc.log.drop k = ms.map Msg.wire) :
    π.rpc.log[k]? = ms.head?.map Msg.wire := by
  rw [← List.head?_drop, h, List.head?_map]

section

variable (h : Owned ioChanCfg σ)
include h

/-- **What arrives waits to be read**, and all but a read leave it there. -/
theorem Owned.stream (he : act.Enabled ioChanCfg role σ) (hd : Did ioChanCfg role σ act σ')
    (hk : ∀ k n, act ≠ .recvTake k n) : σ'.rpc.arrived = σ.rpc.arrived ++ act.arrives ∧
      σ'.rpc.recv.taken ++ σ'.rpc.inq =
        σ.rpc.recv.taken ++ σ.rpc.inq ++ act.arrives.flatten := by
  have hsame : act.arrives = [] → σ'.rpc.arrived = σ.rpc.arrived → σ'.rpc.inq = σ.rpc.inq →
      σ'.rpc.recv = σ.rpc.recv → σ'.rpc.arrived = σ.rpc.arrived ++ act.arrives ∧
      σ'.rpc.recv.taken ++ σ'.rpc.inq = σ.rpc.recv.taken ++ σ.rpc.inq ++ act.arrives.flatten := by
    intro hnil harr hinq hrecv
    rw [hnil, harr, hinq, hrecv]
    simp
  have hlock : ∀ {ρ : Rpc.State} {c : Channel} {n : TaskId} {a : Addr} {k : Kind} {m : Msg},
      ρ = { σ.rpc with chan := c }.lock n a k m →
      ρ.arrived = σ.rpc.arrived ∧ ρ.inq = σ.rpc.inq ∧ ρ.recv = σ.rpc.recv := by
    rintro ρ c n a k m rfl
    rcases State.lock_cases { σ.rpc with chan := c } n a k m with ⟨-, e⟩ | ⟨-, e⟩ <;> rw [e] <;>
      exact ⟨rfl, rfl, rfl⟩
  -- a call of `_rpc_receive` that goes on
  have hreceiving : ∀ {z : Rpc.Action} {b q}, z.Allowed ioChanCfg σ.rpc →
      z.exec ioChanCfg σ.rpc = some σ'.rpc → z.Receiving → σ'.rpc.recv = .receiving b q →
      act.arrives = [] → σ'.rpc.arrived = σ.rpc.arrived ++ act.arrives ∧
      σ'.rpc.recv.taken ++ σ'.rpc.inq = σ.rpc.recv.taken ++ σ.rpc.inq ++ act.arrives.flatten := by
    intro z b q hall hx hrec hq hnil
    rw [hnil, (received h.base id hall hx hrec).arrived]
    refine ⟨by simp, ?_⟩
    obtain ⟨b', ⟨r, hrecv, hst, -⟩ | ⟨m, hrecv, -⟩ | ⟨w, -, -, -, hrecv, -⟩ |
      ⟨w, a, p, n, -, -, -, -, hrecv, -⟩⟩ := outcome h.base h.receives hall hx hrec
    · rw [hrecv, List.flatten_nil, List.append_nil, ← hst]
      rfl
    all_goals
      rw [hq] at hrecv
      cases hrecv
  have hwrite : ∀ {n r ρ}, (Rpc.Action.write n r).Allowed ioChanCfg σ.rpc →
      (Rpc.Action.write n r).exec ioChanCfg σ.rpc = some ρ → ρ.arrived = σ.rpc.arrived ∧
      ρ.inq = σ.rpc.inq ∧ ρ.recv = σ.rpc.recv := by
    intro n r ρ hall hx
    have hf := fields h.base hall hx id
    refine ⟨hf.arrived.trans (List.append_nil _), hf.inq.trans (List.append_nil _), ?_⟩
    exact (Rpc.moves hall hx id).1
  cases hd with
  | waits hw =>
      cases act with
      | arrive bs => exact hw.elim
      | _ => exact hsame rfl rfl rfl rfl
  | start n op => exact hsame rfl rfl rfl rfl
  | getData ht hget => exact hsame rfl rfl rfl rfl
  | getMsg ht hget => exact hsame rfl rfl rfl rfl
  | fill ht hm hx =>
      simp only [Rpc.Action.exec, Option.bind_eq_bind, Option.bind_eq_some_iff] at hx
      obtain ⟨m, -, hx⟩ := hx
      obtain rfl := Option.some.inj hx
      exact hsame rfl rfl rfl rfl
  | request ht hx =>
      obtain ⟨m, -, -, ⟨-, rfl⟩ | ⟨-, m', rfl, e⟩⟩ := State.request_cases hx
      · exact hsame rfl rfl rfl rfl
      · obtain ⟨harr, hinq, hrecv⟩ := hlock e
        exact hsame rfl harr hinq hrecv
  | finish ht hm hput hx =>
      have e := Side.databufPut_cases hput
      rw [e] at hx
      simp only [Rpc.Action.exec, Option.bind_eq_bind, Option.bind_eq_some_iff] at hx
      obtain ⟨c, -, hx⟩ := hx
      obtain rfl := Option.some.inj hx
      exact hsame rfl rfl rfl rfl
  | resume hx =>
      obtain ⟨k, a, m, -, -, -, rfl⟩ := State.resume_cases hx
      exact hsame rfl rfl rfl rfl
  | write hc hx =>
      obtain ⟨harr, hinq, hrecv⟩ := hwrite he.1 hx
      exact hsame rfl harr hinq hrecv
  | responded hc hx hput =>
      obtain ⟨harr, hinq, hrecv⟩ := hwrite he.1 hx
      rw [Side.databufPut_cases hput] at hsame ⊢
      exact hsame rfl harr hinq hrecv
  | wake hx =>
      obtain ⟨a, m, -, -, -, rfl⟩ := State.wake_cases hx
      exact hsame rfl rfl rfl rfl
  | handle ht hm hr hsw hx =>
      simp only [Rpc.Action.exec, Option.bind_eq_bind, Option.bind_eq_some_iff] at hx
      obtain ⟨m, -, hx⟩ := hx
      obtain rfl := Option.some.inj hx
      exact hsame rfl rfl rfl rfl
  | respond ht hx =>
      obtain ⟨m, -, -, ⟨-, l, c, -, -, rfl⟩ | ⟨-, m', rfl, e⟩⟩ := State.response_cases hx
      · exact hsame rfl rfl rfl rfl
      · obtain ⟨harr, hinq, hrecv⟩ := hlock e
        exact hsame rfl harr hinq hrecv
  | @recvStart alloc ρ hx =>
      have he : (Rpc.Action.recvStart alloc).Allowed ioChanCfg σ.rpc := he
      obtain ⟨b, -, hrecv, -⟩ := h.started he hx
      exact hreceiving he hx trivial hrecv rfl
  | recvTake => exact absurd rfl (hk _ _)
  | recvAgain hx =>
      have e := h.again hx
      exact hsame rfl (by rw [e]) (by rw [e]) (by rw [e])
  | recvData hget hx =>
      obtain ⟨b, q, q', -, -, -, e⟩ := h.obtained he.1 hx
      exact hreceiving he.1 hx trivial (congrArg Rpc.State.recv e) rfl
  | arrive hx =>
      obtain rfl := Option.some.inj hx
      simp [SideAction.arrives]

/-- All but a read. -/
theorem Owned.heard (he : act.Enabled ioChanCfg role σ) (hd : Did ioChanCfg role σ act σ')
    (hk : ∀ k n, act ≠ .recvTake k n) (hh : Heard σ π k) : Heard σ' π k := by
  obtain ⟨harr, hst⟩ := h.stream he hd hk
  refine ⟨hh.le, ?_⟩
  rw [harr, hst, List.flatten_append, hh.stream, List.append_assoc]

end

/-! ## The sequence ids of the client -/

/-- The client gets no fewer of them. -/
theorem gets_le (h : Owned ioChanCfg σ) (hp : Proper ioChanCfg role σ act)
    (he : act.Enabled ioChanCfg role σ) (hd : Did ioChanCfg role σ act σ') :
    σ.rpc.gets ≤ σ'.rpc.gets := by
  rcases h.chan hp he hd with e | ⟨z, hz, -⟩
  · rw [e]
  · rw [(gets_step h.base hz.allowed hz.exec).1]
    exact Nat.le_add_right ..

/-- **They stay distinct** while there are fewer than 2^32 of them. -/
theorem numbered_step (h : Owned ioChanCfg σ) (hp : Proper ioChanCfg role σ act)
    (he : act.Enabled ioChanCfg role σ) (hd : Did ioChanCfg role σ act σ')
    (hO' : Owned ioChanCfg σ') (hsp' : ∀ t, Speaks role σ' t) (hlt : σ'.rpc.gets < 2 ^ 32)
    (hN : Numbered σ.rpc) : Numbered σ'.rpc := by
  have hle := gets_le h hp he hd
  rcases h.chan hp he hd with e | ⟨z, hz, -⟩
  · rw [e]
    exact hN
  · refine hN.step h.base h.receives hz.allowed hz.exec hO'.enabled (fun _ => by omega)
      fun n k a m hb => ?_
    have hcall : (σ'.rpc.pc n).call = some (k, a) := by
      rw [hb.pc, Function.update_self]
      rfl
    have hf := ((hsp' n).sends hO' hcall hb.msg).deliverable.framed.decode_wire []
    rwa [List.append_nil] at hf

theorem numbered_initial (bufs : List Addr) : Numbered (.initial bufs) where
  next := rfl
  known a m h := by cases h
  distinct a b m m' h := by cases h
  kinded a m h := by cases h
  logged w h := by cases h
  once s := by simp [State.initial]
  unsent a m h := by cases h

/-! ## The view -/

/-- The state of the callers and the workers. -/
abbrev View := Remote.State TaskId TaskId (BitVec 32) Op Result Disk

/-- What a request on the wire says. -/
def Requested (x : BitVec 32 × Op) (w : List Byte) : Prop :=
  (Msg.ofWhole ioCfg w).hdr.seqid = x.1 ∧ Asks x.2 (.ofWhole ioCfg w)

/-- What an answer on the wire says. -/
def Replied (x : BitVec 32 × Result) (w : List Byte) : Prop :=
  (Msg.ofWhole ioCfg w).hdr.seqid = x.1 ∧ result (.ofWhole ioCfg w) = x.2

theorem requested_wire {o : Op} (hm : Deliverable ioCfg m) (ho : Asks o m) :
    Requested (m.hdr.seqid, o) m.wire := by
  have hal := alike_ofWhole hm.framed
  exact ⟨by rw [hal.hdr], hal.asks hm.framed ho⟩

theorem replied_wire (hm : Deliverable ioCfg m) : Replied (m.hdr.seqid, result m) m.wire := by
  have hal := alike_ofWhole hm.framed
  exact ⟨by rw [hal.hdr], hal.result hm.framed⟩

/-- **What is seen of a store.** -/
structure Views (T : Store) (V : View) : Prop where
  object : V.object = T.disk
  history : V.history = T.history
  callers : ∀ n, Calls (T.session .client) (T.number n) n (V.caller n)
  requests : List.Forall₂ Requested V.requests (T.session .client).rpc.log
  workers : ∀ n, Works (T.session .server) n (V.worker n)
  answers : List.Forall₂ Replied V.answers (T.session .server).rpc.log
  served : Heard (T.session .server) (T.session .client) V.served
  heard : Heard (T.session .client) (T.session .server) V.heard

/-- A place in the one list is a place in the other. -/
theorem exists_of_forall₂ {α β : Type*} {R : α → β → Prop} {l : List α} {l' : List β} {j : ℕ}
    {y : β} (h : List.Forall₂ R l l') (hy : l'[j]? = some y) : ∃ x, l[j]? = some x ∧ R x y := by
  induction h generalizing j with
  | nil => cases hy
  | cons hr _ ih =>
      cases j with
      | zero =>
          obtain rfl := Option.some.inj hy
          exact ⟨_, rfl, hr⟩
      | succ j => exact ih hy

namespace StoreAction

/-- The step of the session. -/
def session : StoreAction → SessionAction
  | call n _ op => ⟨.client, .start n op⟩
  | ret n => ⟨.client, .finish n⟩
  | serve n dev _ _ calloc => ⟨.server, .handle n dev calloc⟩
  | other x => x

end StoreAction

variable {d : Disk} {T T' : Store} {V : View} {x : StoreAction} {es : List (Linear.Entry Op Result)}

theorem session_enabled (he : (storeSystem d).enabled T x) :
    sessionSystem.enabled T.session x.session := by
  cases x with
  | call n i op => exact he.1
  | ret n => exact he
  | serve n dev errno parts calloc => exact he.1
  | other y => exact he.1

theorem session_exec (hx : (storeSystem d).exec T x = some T') :
    sessionSystem.exec T.session x.session = some T'.session := by
  cases x with
  | call n i op =>
      simp only [storeSystem, StoreAction.exec, Option.bind_eq_bind, Option.bind_eq_some_iff] at hx
      obtain ⟨o, -, S, hS, hx⟩ := hx
      obtain rfl := Option.some.inj hx
      exact hS
  | ret n =>
      simp only [storeSystem, StoreAction.exec, Option.bind_eq_bind, Option.bind_eq_some_iff] at hx
      obtain ⟨a, -, m, -, b, -, r, -, S, hS, hx⟩ := hx
      obtain rfl := Option.some.inj hx
      exact hS
  | serve n dev errno parts calloc =>
      simp only [storeSystem, StoreAction.exec, Option.bind_eq_bind, Option.bind_eq_some_iff] at hx
      obtain ⟨a, -, m, -, y, -, S, hS, hx⟩ := hx
      obtain rfl := Option.some.inj hx
      exact hS
  | other y =>
      simp only [storeSystem, StoreAction.exec, Option.bind_eq_bind, Option.bind_eq_some_iff] at hx
      obtain ⟨S, hS, hx⟩ := hx
      obtain rfl := Option.some.inj hx
      exact hS

/-- The end that does something. -/
theorem session_cases {S S' : Session} (hx : sessionSystem.exec S ⟨role, act⟩ = some S') :
    ∃ τ, act.exec ioChanCfg role (S role) = some τ ∧ S' = Function.update S role τ := by
  obtain ⟨τ, hτ, e⟩ := Option.map_eq_some_iff.1 hx
  exact ⟨τ, hτ, e.symm⟩

/-! ## The steps -/

/-- **One step of the view**, or none. -/
abbrev Follows : View → View → Prop := Relation.ReflGen (Remote.Step Disk.apply)

section

variable {V' : View} {τ : Side} (h : Views T V)
include h

/-- A step of the client. -/
theorem Views.of_client (hs : T'.session = Function.update T.session .client τ)
    (hobj : V'.object = T'.disk) (hhist : V'.history = T'.history)
    (hcalls : ∀ n, Calls τ (T'.number n) n (V'.caller n))
    (hreq : List.Forall₂ Requested V'.requests τ.rpc.log) (hw : V'.worker = V.worker)
    (hans : V'.answers = V.answers) (hserved : V'.served = V.served)
    (hlog : (T.session .client).rpc.log <+: τ.rpc.log)
    (hheard : Heard τ (T.session .server) V'.heard) : Views T' V' := by
  have hc : T'.session .client = τ := by rw [hs, Function.update_self]
  have hsv : T'.session .server = T.session .server := by rw [hs, Function.update_of_ne (by simp)]
  refine ⟨hobj, hhist, by rw [hc]; exact hcalls, by rw [hc]; exact hreq, ?_, ?_, ?_, ?_⟩
  · rw [hsv, hw]
    exact h.workers
  · rw [hsv, hans]
    exact h.answers
  · rw [hsv, hc, hserved]
    exact h.served.mono hlog
  · rw [hsv, hc]
    exact hheard

/-- A step of the server. -/
theorem Views.of_server (hs : T'.session = Function.update T.session .server τ)
    (hobj : V'.object = T'.disk) (hhist : V'.history = T'.history) (hnum : T'.number = T.number)
    (hcalls : V'.caller = V.caller) (hreq : V'.requests = V.requests)
    (hw : ∀ n, Works τ n (V'.worker n)) (hans : List.Forall₂ Replied V'.answers τ.rpc.log)
    (hheard : V'.heard = V.heard) (hlog : (T.session .server).rpc.log <+: τ.rpc.log)
    (hserved : Heard τ (T.session .client) V'.served) : Views T' V' := by
  have hsv : T'.session .server = τ := by rw [hs, Function.update_self]
  have hc : T'.session .client = T.session .client := by rw [hs, Function.update_of_ne (by simp)]
  refine ⟨hobj, hhist, ?_, ?_, by rw [hsv]; exact hw, by rw [hsv]; exact hans, ?_, ?_⟩
  · rw [hc, hnum, hcalls]
    exact h.callers
  · rw [hc, hreq]
    exact h.requests
  · rw [hsv, hc]
    exact hserved
  · rw [hsv, hc, hheard]
    exact h.heard.mono hlog

omit h in
/-- Nobody else waits for the sequence id of a request that is begun. -/
theorem Views.fresh {o : Op} {c : Caller} (hN : Numbered τ.rpc) (hm : τ.rpc.chan.msgs a = some m)
    (hu : m.use = .request n) (hc : V.caller n = .asks (T.number n) o)
    (hcalls : ∀ t, Calls τ (T.number t) t (Function.update V.caller n c t)) (t : TaskId) (j : ℕ)
    (o' : Op) : V.caller t ≠ .awaits j o' m.hdr.seqid := by
  intro ht
  have htn : t ≠ n := by
    rintro rfl
    rw [hc] at ht
    cases ht
  have hcall := hcalls t
  rw [Function.update_of_ne htn, ht] at hcall
  obtain ⟨-, a', m', ⟨-, -, hm', hu', -, hid⟩⟩ := hcall
  obtain rfl : a' = a := hN.distinct a' a m' m hm' hm (.inr ⟨t, hu'⟩) (.inr ⟨n, hu⟩) hid
  obtain rfl := Option.some.inj (hm.symm.trans hm')
  exact htn (Use.request.inj (hu'.symm.trans hu))

variable (hS : T.session.Sound) (hS' : T'.session.Sound)
include hS hS'

/-- The client goes on. -/
theorem Views.client {z : SideAction} (hN' : Numbered (T'.session .client).rpc)
    (he : z.Enabled ioChanCfg .client (T.session .client))
    (hx : z.exec ioChanCfg .client (T.session .client) = some τ)
    (hs : T'.session = Function.update T.session .client τ) (hdisk : T'.disk = T.disk)
    (hhist : T'.history = T.history) (hnum : T'.number = T.number) (hplain : StoreAction.Plain z)
    (hk : ∀ k n, z ≠ .recvTake k n) : ∃ V', Follows V V' ∧ Views T' V' := by
  have hd := did hx
  have hc : T'.session .client = τ := by rw [hs, Function.update_self]
  have hO' : Owned ioChanCfg τ := hc ▸ hS'.owned .client
  have hsp' : ∀ t, Speaks .client τ t := hc ▸ hS'.speaks .client
  rw [hc] at hN'
  have hheard := (hS.owned .client).heard he hd hk h.heard
  cases client_step h.callers hO' hsp' (hS.owned .client) (hS.speaks .client) he hd hplain hk with
  | stutters hlog hcalls =>
      refine ⟨V, .refl, h.of_client hs (by rw [hdisk, h.object]) (by rw [hhist, h.history])
        (by rw [hnum]; exact hcalls) ?_ rfl rfl rfl ?_ hheard⟩
      · rw [hlog]
        exact h.requests
      · rw [hlog]
  | sends n o a m hask hlog hm hasks hmsg hu hcalls =>
      refine ⟨_, .single (.send n (T.number n) o m.hdr.seqid hask
          (Views.fresh hN' hmsg hu hask hcalls)),
        h.of_client hs (by rw [hdisk, ← h.object]) (by rw [hhist, ← h.history])
          (by rw [hnum]; exact hcalls) ?_ rfl rfl rfl ?_ hheard⟩
      · rw [hlog]
        exact List.rel_append h.requests (.cons (requested_wire hm hasks) .nil)
      · rw [hlog]
        exact List.prefix_append ..

/-- The server goes on. -/
theorem Views.server {z : SideAction} (he : z.Enabled ioChanCfg .server (T.session .server))
    (hx : z.exec ioChanCfg .server (T.session .server) = some τ)
    (hs : T'.session = Function.update T.session .server τ) (hdisk : T'.disk = T.disk)
    (hhist : T'.history = T.history) (hnum : T'.number = T.number) (hplain : StoreAction.Plain z)
    (hk : ∀ k n, z ≠ .recvTake k n) : ∃ V', Follows V V' ∧ Views T' V' := by
  have hd := did hx
  have hc : T'.session .server = τ := by rw [hs, Function.update_self]
  have hO' : Owned ioChanCfg τ := hc ▸ hS'.owned .server
  have hsp' : ∀ t, Speaks .server τ t := hc ▸ hS'.speaks .server
  have hserved := (hS.owned .server).heard he hd hk h.served
  cases server_step h.workers hO' hsp' (hS.owned .server) (hS.speaks .server) he hd hplain hk with
  | stutters hlog hworks =>
      refine ⟨V, .refl, h.of_server hs (by rw [hdisk, h.object]) (by rw [hhist, h.history]) hnum rfl
        rfl hworks ?_ rfl ?_ hserved⟩
      · rw [hlog]
        exact h.answers
      · rw [hlog]
  | replies n m hw hlog hm hworks =>
      refine ⟨_, .single (.reply n m.hdr.seqid (result m) hw), h.of_server hs
        (by rw [hdisk, ← h.object]) (by rw [hhist, ← h.history]) hnum rfl rfl hworks ?_ rfl ?_
        hserved⟩
      · rw [hlog]
        exact List.rel_append h.answers (.cons (replied_wire hm) .nil)
      · rw [hlog]
        exact List.prefix_append ..

variable {k : ℕ} (hI : Remote.Inv Disk.apply d V es)
include hI

/-- The client reads: an answer is the one of the caller that waits for it. -/
theorem Views.client_takes (hN : Numbered (T.session .client).rpc)
    (he : (SideAction.recvTake k n).Enabled ioChanCfg .client (T.session .client))
    (hx : (SideAction.recvTake k n).exec ioChanCfg .client (T.session .client) = some τ)
    (hs : T'.session = Function.update T.session .client τ) (hdisk : T'.disk = T.disk)
    (hhist : T'.history = T.history) (hnum : T'.number = T.number) :
    ∃ V', Follows V V' ∧ Views T' V' := by
  have hO := hS.owned .client
  have hd := did hx
  have hlog := hO.log_same he hd (by simp)
  have hc : T'.session .client = τ := by rw [hs, Function.update_self]
  have hO' : Owned ioChanCfg τ := hc ▸ hS'.owned .client
  cases hd with
  | waits hw => exact hw.elim
  | @recvTake k n b q ρ hq hρ =>
      obtain ⟨ms, hdrop, hms, hpre⟩ := h.heard.frames (hS.owned .server) (hS.hears .client).arrived
        (hS.sends .server)
      have hhead := getElem?_of_drop hdrop
      have harr := (received hO.base id he.1 hρ trivial).arrived
      have hstay : ∀ V' : View, V'.object = V.object → V'.history = V.history →
          V'.requests = V.requests → V'.worker = V.worker → V'.answers = V.answers →
          V'.served = V.served →
          (∀ t, Calls (Side.received { T.session .client with rpc := ρ } b n) (T.number t) t
            (V'.caller t)) →
          Heard (Side.received { T.session .client with rpc := ρ } b n) (T.session .server)
            V'.heard →
          Views T' V' := by
        intro V' hobj hh hr hw ha hsv hcalls hheard
        refine h.of_client hs (by rw [hobj, h.object, hdisk]) (by rw [hh, h.history, hhist])
          (by rw [hnum]; exact hcalls) ?_ hw ha hsv ?_ hheard
        · rw [hr, hlog]
          exact h.requests
        · rw [hlog]
      -- somebody waits for the answer that comes next
      have hwait : ∀ m ∈ ms.head?, ∃ t o, V.caller t =
          .awaits (T.number t) o (Msg.ofWhole ioCfg m.wire).hdr.seqid := by
        intro m hm
        obtain ⟨y, hy, hid, -⟩ := exists_of_forall₂ h.answers (hhead.trans (by rw [hm]; rfl))
        have hcar : V.carried (.answer V.heard) = some (y.1, .inr y.2) := by
          rw [Remote.State.carried, if_pos (Nat.le_refl _), hy]
          rfl
        obtain ⟨t, j, o, ht, -⟩ := hI.carried _ _ _ hcar
        have hj := h.callers t
        rw [ht] at hj
        exact ⟨t, o, by rw [ht, hid, hj.1]⟩
      rcases Splitter.client_takes h.callers hO hO' hN hms hpre hwait he.1 hq hρ with
        ⟨hst, hcalls⟩ | ⟨m, ms', t, o, rfl, hst, hct, hcalls⟩
      · refine ⟨V, .refl, hstay V rfl rfl rfl rfl rfl rfl hcalls ⟨h.heard.le, ?_⟩⟩
        rw [Side.received_rpc]
        show ρ.arrived.flatten = _
        rw [harr, h.heard.stream, hst]
      · obtain ⟨y, hy, hid, hres⟩ := exists_of_forall₂ h.answers (hhead.trans rfl)
        refine ⟨_, .single (.hear t (T.number t) o y.1 y.2 hy (by rw [hct, hid])),
          hstay _ rfl rfl rfl rfl rfl rfl (by rw [← hres]; exact hcalls) (h.heard.next ?_ ?_ hhead)⟩
        · rw [Side.received_rpc]
          exact harr
        · rw [Side.received_rpc]
          exact hst

omit hS' hI

/-- The server reads: a request is a new worker's. -/
theorem Views.server_takes
    (he : (SideAction.recvTake k n).Enabled ioChanCfg .server (T.session .server))
    (hx : (SideAction.recvTake k n).exec ioChanCfg .server (T.session .server) = some τ)
    (hs : T'.session = Function.update T.session .server τ) (hdisk : T'.disk = T.disk)
    (hhist : T'.history = T.history) (hnum : T'.number = T.number) :
    ∃ V', Follows V V' ∧ Views T' V' := by
  have hO := hS.owned .server
  have hd := did hx
  have hlog := hO.log_same he hd (by simp)
  cases hd with
  | waits hw => exact hw.elim
  | @recvTake k n b q ρ hq hρ =>
      obtain ⟨ms, hdrop, hms, hpre⟩ := h.served.frames (hS.owned .client) (hS.hears .server).arrived
        (hS.sends .client)
      have hhead := getElem?_of_drop hdrop
      have harr := (received hO.base id he.1 hρ trivial).arrived
      have hstay : ∀ V' : View, V'.object = V.object → V'.history = V.history →
          V'.caller = V.caller → V'.requests = V.requests → V'.answers = V.answers →
          V'.heard = V.heard →
          (∀ t, Works (Side.received { T.session .server with rpc := ρ } b n) t (V'.worker t)) →
          Heard (Side.received { T.session .server with rpc := ρ } b n) (T.session .client)
            V'.served →
          Views T' V' := by
        intro V' hobj hh hc hr ha hhd hworks hserved
        refine h.of_server hs (by rw [hobj, h.object, hdisk]) (by rw [hh, h.history, hhist]) hnum hc
          hr hworks ?_ hhd ?_ hserved
        · rw [ha, hlog]
          exact h.answers
        · rw [hlog]
      rcases Splitter.server_takes h.workers hO hms hpre he.2.1 he.1 hq hρ with
        ⟨hst, hworks⟩ | ⟨m, ms', rfl, hst, hw, hworks⟩
      · refine ⟨V, .refl, hstay V rfl rfl rfl rfl rfl rfl hworks ⟨h.served.le, ?_⟩⟩
        rw [Side.received_rpc]
        show ρ.arrived.flatten = _
        rw [harr, h.served.stream, hst]
      · obtain ⟨y, hy, hid, hasks⟩ := exists_of_forall₂ h.requests (hhead.trans rfl)
        refine ⟨_, .single (.accept n y.1 y.2 hy hw), hstay _ rfl rfl rfl rfl rfl rfl
          (by rw [← hid]; exact hworks y.2 hasks) (h.served.next ?_ ?_ hhead)⟩
        · rw [Side.received_rpc]
          exact harr
        · rw [Side.received_rpc]
          exact hst

/-- A handler runs: it waits, or its operation takes effect. -/
theorem Views.serve {dev : Device} {errno : ℕ} {parts : List ℕ} {calloc : Option DataAddr}
    (he : (storeSystem d).enabled T (.serve n dev errno parts calloc))
    (hx : (storeSystem d).exec T (.serve n dev errno parts calloc) = some T') :
    ∃ V', Follows V V' ∧ Views T' V' := by
  obtain ⟨⟨he, -⟩, hran⟩ := he
  obtain ⟨⟨a, ht, -⟩, -⟩ := id he
  simp only [storeSystem, StoreAction.exec, Option.bind_eq_bind, Option.bind_eq_some_iff] at hx
  obtain ⟨a', ha', m, hm, ⟨hdl, d'⟩, hserve, S, hS', hx⟩ := hx
  obtain rfl : a = a' := by
    rw [ht] at ha'
    exact Option.some.inj ha'
  obtain ⟨τ, hτ, rfl⟩ := session_cases hS'
  obtain rfl := Option.some.inj hx
  obtain ⟨hdl', d'', hr⟩ := hran a m ht hm
  obtain ⟨rfl, rfl⟩ := Prod.mk.inj (Option.some.inj (hserve.symm.trans hr.served))
  have hserved := (hS.owned .server).heard he (did hτ) (by simp) h.served
  obtain ⟨hlog, o, hw, hasks, hdel, ⟨hwait, hworks⟩ | ⟨hran', r, hhr, hworks⟩⟩ :=
    server_handles h.workers (hS.owned .server) (hS.speaks .server) he hτ ht hm
  · refine ⟨V, .refl, h.of_server rfl ?_ h.history rfl rfl rfl hworks ?_ rfl ?_ hserved⟩
    · show V.object = if _ then _ else _
      rw [Function.update_self, if_pos hwait, h.object]
    · rw [hlog]
      exact h.answers
    · rw [hlog]
  · obtain ⟨hd', hres⟩ := hr.apply hdel hasks hhr
    refine ⟨_, .single (.serve n m.hdr.seqid o hw), h.of_server rfl ?_ h.history rfl rfl rfl ?_ ?_
      rfl ?_ hserved⟩
    · show (V.object.apply o).1 = if _ then _ else _
      rw [Function.update_self, if_neg hran', h.object, hd']
    · rw [h.object, ← hres]
      exact hworks
    · rw [hlog]
      exact h.answers
    · rw [hlog]

/-- An operation is called. -/
theorem Views.call {i : ℕ} {op : ClientOp} (he : (storeSystem d).enabled T (.call n i op))
    (hx : (storeSystem d).exec T (.call n i op) = some T') : ∃ V', Follows V V' ∧ Views T' V' := by
  obtain ⟨⟨he, -⟩, -, hi⟩ := he
  simp only [storeSystem, StoreAction.exec, Option.bind_eq_bind, Option.bind_eq_some_iff] at hx
  obtain ⟨o, ho, S, hS', hx⟩ := hx
  obtain ⟨τ, hτ, rfl⟩ := session_cases hS'
  obtain rfl := Option.some.inj hx
  have hlog := (hS.owned .client).log_same he (did hτ) (by simp)
  obtain ⟨hidle, hcalls⟩ := client_starts (j := i) h.callers (hS.owned .client) he hτ ho
  refine ⟨_, .single (.call n i o hidle (by rw [h.history]; exact hi)),
    h.of_client rfl h.object (congrArg (· ++ _) h.history) hcalls ?_ rfl rfl rfl ?_
      ((hS.owned .client).heard he (did hτ) (by simp) h.heard)⟩
  · rw [hlog]
    exact h.requests
  · rw [hlog]

/-- An operation returns. -/
theorem Views.ret (he : (storeSystem d).enabled T (.ret n))
    (hx : (storeSystem d).exec T (.ret n) = some T') : ∃ V', Follows V V' ∧ Views T' V' := by
  obtain ⟨he, -⟩ := he
  simp only [storeSystem, StoreAction.exec, Option.bind_eq_bind, Option.bind_eq_some_iff] at hx
  obtain ⟨a, ha, m, hm, b, hb, r, hr, S, hS', hx⟩ := hx
  obtain ⟨τ, hτ, rfl⟩ := session_cases hS'
  obtain rfl := Option.some.inj hx
  have hlog := (hS.owned .client).log_same he (did hτ) (by simp)
  obtain ⟨⟨o, hc⟩, hcalls⟩ := client_returns h.callers (hS.owned .client) he hτ ha hm hb hr
  refine ⟨_, .single (.ret n (T.number n) o (result r) hc),
    h.of_client rfl h.object (congrArg (· ++ _) h.history) hcalls ?_ rfl rfl rfl ?_
      ((hS.owned .client).heard he (did hτ) (by simp) h.heard)⟩
  · rw [hlog]
    exact h.requests
  · rw [hlog]

include hS' hI

/-- **One step of the store is one of the object at the other end**, or none. -/
theorem Views.step {x : StoreAction} (hN : Numbered (T.session .client).rpc)
    (hN' : Numbered (T'.session .client).rpc) (he : (storeSystem d).enabled T x)
    (hx : (storeSystem d).exec T x = some T') : ∃ V', Follows V V' ∧ Views T' V' := by
  cases x with
  | call n i op => exact h.call hS he hx
  | ret n => exact h.ret hS he hx
  | serve n dev errno parts calloc => exact h.serve hS he hx
  | other y =>
      obtain ⟨role, act⟩ := y
      obtain ⟨⟨he, -⟩, hplain⟩ := he
      simp only [storeSystem, StoreAction.exec, Option.bind_eq_bind, Option.bind_eq_some_iff] at hx
      obtain ⟨S, hS₁, hx⟩ := hx
      obtain ⟨τ, hτ, rfl⟩ := session_cases hS₁
      obtain rfl := Option.some.inj hx
      by_cases hk : ∃ k n, act = .recvTake k n
      · obtain ⟨k, n, rfl⟩ := hk
        cases role with
        | client => exact h.client_takes hS hS' hI hN he hτ rfl rfl rfl rfl
        | server => exact h.server_takes hS he hτ rfl rfl rfl rfl
      · have hk : ∀ k n, act ≠ .recvTake k n := fun k n e => hk ⟨k, n, e⟩
        cases role with
        | client => exact h.client hS hS' hN' he hτ rfl rfl rfl rfl hplain hk
        | server => exact h.server hS hS' he hτ rfl rfl rfl rfl hplain hk

end

/-! ## Runs -/

/-- The client gets no fewer sequence ids. -/
theorem session_gets_le {S S' : Session} {y : SessionAction} (hS : S.Sound)
    (he : sessionSystem.enabled S y) (hx : sessionSystem.exec S y = some S') (role : Role) :
    (S role).rpc.gets ≤ (S' role).rpc.gets := by
  obtain ⟨r, act⟩ := y
  obtain ⟨τ, hτ, rfl⟩ := session_cases hx
  by_cases hr : role = r
  · rw [hr, Function.update_self]
    exact gets_le (hS.owned r) (hS.proper he.1) he.1 (did hτ)
  · rw [Function.update_of_ne hr]

theorem session_numbered {S S' : Session} {y : SessionAction} {role : Role} (hS : S.Sound)
    (hS' : S'.Sound) (he : sessionSystem.enabled S y) (hx : sessionSystem.exec S y = some S')
    (hlt : (S' role).rpc.gets < 2 ^ 32) (hN : Numbered (S role).rpc) : Numbered (S' role).rpc := by
  obtain ⟨r, act⟩ := y
  obtain ⟨τ, hτ, rfl⟩ := session_cases hx
  by_cases hr : role = r
  · have hO' := hS'.owned r
    have hsp' := hS'.speaks r
    rw [Function.update_self] at hO' hsp'
    rw [hr] at hlt hN ⊢
    rw [Function.update_self] at hlt ⊢
    exact numbered_step (hS.owned r) (hS.proper he.1) he.1 (did hτ) hO' hsp' hlt hN
  · rw [Function.update_of_ne hr]
    exact hN

/-- **Every run** of the store is one of the object at the other end. -/
theorem store_views (hr : (storeSystem d).Reachable T) : sessionSystem.Reachable T.session ∧
    ((T.session .client).rpc.gets < 2 ^ 32 → Numbered (T.session .client).rpc ∧
      ∃ V, Relation.ReflTransGen (Remote.Step Disk.apply) (.start d) V ∧ Views T V) := by
  induction hr with
  | @init T hs =>
      obtain ⟨hinit, hdisk, hhist⟩ := hs
      have hrpc : ∀ role, ∃ bufs, (T.session role).rpc = .initial bufs := fun role => by
        obtain ⟨⟨bufs, -, -, e⟩, -⟩ := hinit role
        exact ⟨bufs, e⟩
      refine ⟨.init hinit, fun _ => ?_⟩
      have hnil : ∀ role, (T.session role).rpc.log = [] ∧ (T.session role).rpc.arrived = [] ∧
          (T.session role).rpc.inq = [] ∧ (T.session role).rpc.recv = .idle := fun role => by
        obtain ⟨bufs, e⟩ := hrpc role
        rw [e]
        exact ⟨rfl, rfl, rfl, rfl⟩
      have hheard : ∀ role, Heard (T.session role) (T.session role.peer) 0 := fun role => by
        obtain ⟨-, harr, hinq, hrecv⟩ := hnil role
        refine ⟨Nat.zero_le _, ?_⟩
        rw [harr, hinq, hrecv]
        rfl
      refine ⟨?_, .start d, .refl, hdisk.symm, hhist.symm, fun n => (hinit .client).2.2 n, ?_,
        fun n => .inl ((hinit .server).2.2 n), ?_, hheard .server, hheard .client⟩
      · obtain ⟨bufs, e⟩ := hrpc .client
        rw [e]
        exact numbered_initial bufs
      · rw [(hnil .client).1]
        exact .nil
      · rw [(hnil .server).1]
        exact .nil
  | @step T T' x _ he hx ih =>
      obtain ⟨hT, ih⟩ := ih
      have hen := session_enabled he
      have hex := session_exec hx
      have hT' := hT.step hen hex
      have hS := sound_reachable hT
      have hS' := sound_reachable hT'
      refine ⟨hT', fun hlt => ?_⟩
      obtain ⟨hN, V, hrun, hV⟩ := ih (Nat.lt_of_le_of_lt (session_gets_le hS hen hex .client) hlt)
      have hN' := session_numbered hS hS' hen hex hlt hN
      obtain ⟨es, hI⟩ := Remote.inv_of_steps hrun
      obtain ⟨V', hf, hV'⟩ := hV.step hS hS' hI hN hN' he hx
      refine ⟨hN', V', hrun.trans ?_, hV'⟩
      cases hf with
      | refl => exact .refl
      | single hs => exact .single hs

/-- **The remote block store is linearizable**: whatever the operations that
the client's tasks call, and in whatever order the steps at the two ends and
of the connection are taken, what the tasks see is accounted for by the
device serving the operations one after the other, each between its call and
its return; and this is what the device has come to hold. It needs that the
client's sequence ids have not wrapped around. -/
theorem store_linearizable (hr : (storeSystem d).Reachable T)
    (hfew : (T.session .client).rpc.gets < 2 ^ 32) :
    Linear.WellFormed T.history ∧ ∃ es, Linear.Linearizes Disk.apply d T.history es T.disk := by
  obtain ⟨-, V, hrun, hV⟩ := (store_views hr).2 hfew
  obtain ⟨es, hI⟩ := Remote.inv_of_steps hrun
  have hlin := hI.linear
  rw [hV.history, hV.object] at hlin
  have hwf := hI.wellFormed
  rw [hV.history] at hwf
  exact ⟨hwf, es, hlin⟩

/-! ## A write and a read -/

namespace StoreAction

/-- What makes a step possible, for a handler as far as it has run. -/
def Ready (T : Store) : StoreAction → Prop
  | call n i op => sessionSystem.enabled T.session ⟨.client, .start n op⟩ ∧
      (op.toOp).isSome = true ∧ ∀ e ∈ T.history, e.called ≠ some i
  | ret n => sessionSystem.enabled T.session ⟨.client, .finish n⟩
  | serve n dev errno parts calloc =>
      sessionSystem.enabled T.session ⟨.server, .handle n dev calloc⟩ ∧ (∀ k ∈ parts, 0 < k) ∧
        ∃ a, (T.session .server).task n = .handle a ∧
          ∃ m, (T.session .server).rpc.chan.msgs a = some m ∧
            (getMsgType (cmd m).hdr = readMsg ∨ getMsgType (cmd m).hdr = writeMsg) ∧
            dev.Follows (cmd m) T.disk ∧
            ∃ x, Splitter.serve errno (cmd m) T.disk parts = some x ∧ x.1.loop = none
  | other x => sessionSystem.enabled T.session x ∧ Plain x.act

theorem Ready.enabled {x : StoreAction} (hS : T.session.Sound) (h : x.Ready T) : x.Enabled T := by
  cases x with
  | call n i op => exact ⟨h.1, h.2.1, fun o ho => h.2.2 _ ho rfl⟩
  | ret n => exact h
  | other x => exact h
  | serve n dev errno parts calloc =>
      obtain ⟨he, hparts, a, hn, m, hm, ht, hd, ⟨h, d⟩, hserve, hl⟩ := h
      refine ⟨he, fun b q hb hq => ?_⟩
      obtain rfl := Task.handle.inj (hn.symm.trans hb)
      obtain rfl := Option.some.inj (hm.symm.trans hq)
      have hs := (hS.speaks .server n).holds a m (by rw [hn]; rfl) hm
      rw [hn] at hs
      exact ⟨h, d, ran_of_follows hs ht hd hparts hserve hl⟩

instance : (act : SideAction) → Decidable (Plain act)
  | .start _ _ | .finish _ | .handle _ _ _ => .isFalse id
  | .getData _ _ | .getMsg _ _ | .fill _ | .request _ | .resume _ | .write _ _ | .wake _
  | .respond _ | .recvStart _ | .recvTake _ _ | .recvAgain | .recvData _ | .arrive _ =>
      .isTrue trivial

instance (dev : Device) (m : CmdMsg) (d : Disk) : Decidable (dev.Follows m d) :=
  decidable_of_iff (_ ∧ _) ⟨fun h => ⟨h.1, h.2⟩, fun h => ⟨h.read, h.write⟩⟩

instance (T : Store) : (x : StoreAction) → Decidable (x.Ready T)
  | call _ _ _ => inferInstanceAs (Decidable (_ ∧ _ ∧ _))
  | ret n => inferInstanceAs (Decidable (sessionSystem.enabled T.session ⟨.client, .finish n⟩))
  | serve n dev errno parts _ => inferInstanceAs (Decidable (_ ∧ _ ∧
      ∃ a, (T.session .server).task n = .handle a ∧
        ∃ m, (T.session .server).rpc.chan.msgs a = some m ∧
          (getMsgType (cmd m).hdr = readMsg ∨ getMsgType (cmd m).hdr = writeMsg) ∧
          dev.Follows (cmd m) T.disk ∧
          ∃ x, Splitter.serve errno (cmd m) T.disk parts = some x ∧ x.1.loop = none))
  | other _ => inferInstanceAs (Decidable (_ ∧ _))

/-- The step of the store that a step of the session is; the task is the
operation's number, and the device's calls move one byte first. -/
def of : SessionAction → StoreAction
  | ⟨_, .start n op⟩ => call n n op
  | ⟨_, .finish n⟩ => ret n
  | ⟨_, .handle n dev calloc⟩ => serve n dev 0 [1, 9] calloc
  | x => other x

end StoreAction

/-- A store that has just been set up. -/
def newStore : Store := ⟨fun _ => newSide, fun _ => 0, [], fun _ => 0⟩

/-- Both operations have returned, the read first, and it has seen the
write. -/
def Store.bothReturned (T : Store) : Bool :=
  match T.history with
  | [.call 0 o₀, .call 1 o₁, .ret 1 r₁, .ret 0 r₀] =>
      o₀.msgtype == writeMsg && o₁.msgtype == readMsg && r₁ == ⟨0, [7, 0]⟩ && r₀ == ⟨0, []⟩
  | _ => false

/-- The read was called during the write and returned before it, with one
of the bytes written. -/
theorem store_linearizable_both_returned : ∃ (T : Store) (o₀ o₁ : Op),
    (storeSystem fun _ => 0).Reachable T ∧ o₀.msgtype = writeMsg ∧ o₁.msgtype = readMsg ∧
      T.history = [.call 0 o₀, .call 1 o₁, .ret 1 ⟨0, [7, 0]⟩, .ret 0 ⟨0, []⟩] ∧
      T.disk.bytes 0 3 = [7, 7, 0] ∧ Linear.WellFormed T.history ∧
      ∃ es, Linear.Linearizes Disk.apply (fun _ => 0) T.history es T.disk := by
  have hrun : (((storeSystem fun _ => 0).enabledBy fun T x => x.Ready T).run newStore
      ((sampleRequests ++ sampleAnswers).map .of)).any (fun T => T.bothReturned &&
        T.disk.bytes 0 3 == [7, 7, 0] &&
        decide ((T.session .client).rpc.gets < 2 ^ 32)) = true := by
    decide +kernel
  obtain ⟨T, hT, hp⟩ := System.Steps.of_run_any hrun
  simp only [Bool.and_eq_true, beq_iff_eq, decide_eq_true_eq] at hp
  obtain ⟨⟨hboth, hdisk⟩, hfew⟩ := hp
  have h₀ : (storeSystem fun _ => 0).Reachable newStore :=
    .init ⟨fun _ => newSide_initial, rfl, rfl⟩
  have hr := (hT.of_enabledBy (fun _ _ hr he => he.enabled (sound_reachable (store_views hr).1))
    h₀).reachable h₀
  rw [Store.bothReturned] at hboth
  split at hboth
  · rename_i o₀ o₁ r₁ r₀ hhist
    simp only [Bool.and_eq_true, beq_iff_eq] at hboth
    obtain ⟨⟨⟨h₀, h₁⟩, rfl⟩, rfl⟩ := hboth
    exact ⟨T, o₀, o₁, hr, h₀, h₁, hhist, hdisk, store_linearizable hr hfew⟩
  · cases hboth

end Splitter

end VmwareProto
