import VmwareProto.Mpp.Closing
import VmwareProto.Mpp.Drop
import VmwareProto.Mpp.Others
/-!
# Framing under concurrency

Any number of worlds write to one socket, each its header and then its
payload, in parts. `rcp->lock` keeps the messages apart: as long as the
transport does not fail, what has been sent are the messages of those who
obtained the lock, whole and in that order, up to the one that is being
sent.
-/

namespace VmwareProto

namespace Mpp

variable {cfg : Cfg} {rcfg : RecvCfg} {σ σ' : State} {act : Action} {x y : Actor} {a : Addr} {m : Msg}
  {k : Kind} {part : Part} {rest : List Byte} {f : Frame}

/-! ## The reader -/

/-- How much each `vmk_SocketRecvFrom` of one `_rpc_recv` returns. What is
left to read gets shorter with every call of one `socket_read`, so each of
the three is free to split its bytes in any way. -/
structure Splits where
  header : Socket
  client : Socket
  payload : Socket

/-- `_rpc_recv`, with a socket for each of its reads. -/
def rpcRecvOn (rcfg : RecvCfg) (S : Splits) (bs : List Byte) : Received :=
  let st := S.header.socketRead hdrSize bs
  if st.length ≠ hdrSize then ⟨st, none, .closed⟩
  else
    let h := MsgHdr.decode st
    if rcfg.msgBuf < h.len then ⟨st, none, .fault⟩
    else
      let r := bodySize h
      let body := S.client.socketRead r (bs.drop hdrSize)
      if body.length ≠ r then ⟨st ++ body, none, .closed⟩
      else recvPayload S.payload h (st ++ body) (bs.drop (hdrSize + r))

/-- `n` calls of `_rpc_recv` on a stream: what each returns, and the bytes
that are left. -/
def recvCalls (rcfg : RecvCfg) (S : ℕ → Splits) : ℕ → List Byte → List Received × List Byte
  | 0, bs => ([], bs)
  | n + 1, bs =>
      let r := rpcRecvOn rcfg (S n) bs
      let t := recvCalls rcfg S n (bs.drop r.taken)
      (r :: t.1, t.2)

theorem recvPayload_split (S T : Socket) (h : MsgHdr) (st bs : List Byte) :
    recvPayload S h st bs = recvPayload T h st bs := by
  unfold recvPayload
  split
  · split
    · rfl
    · rename_i hle
      have hsmall : h.plen < 2 ^ 31 := by
        simp only [payloadMax] at hle
        omega
      rw [Socket.socketRead_small hsmall, Socket.socketRead_small hsmall]
  · rfl

/-- **How the bytes come in does not matter**, as long as the header covers
itself. -/
theorem rpcRecvOn_eq (S : Splits) (T : Socket) {bs : List Byte}
    (h : bs.length < hdrSize ∨ hdrSize ≤ (MsgHdr.decode bs).len) :
    rpcRecvOn rcfg S bs = rpcRecv rcfg T bs := by
  have hhdr : ∀ U : Socket, U.socketRead hdrSize bs = bs.take hdrSize := fun U =>
    Socket.socketRead_small (by decide)
  simp only [rpcRecvOn, rpcRecv, hhdr]
  split
  · rfl
  · rename_i hlen
    have hle : hdrSize ≤ (MsgHdr.decode bs).len := h.resolve_left fun hlt => by
      rw [List.length_take] at hlen
      omega
    rw [MsgHdr.decode_take]
    have hbody : ∀ U : Socket, U.socketRead (bodySize (MsgHdr.decode bs)) (bs.drop hdrSize) =
        (bs.drop hdrSize).take (bodySize (MsgHdr.decode bs)) := fun U => by
      have := (MsgHdr.decode bs).msglen.isLt
      refine Socket.socketRead_small ?_
      rw [bodySize_of_le hle, MsgHdr.len]
      omega
    simp only [hbody]
    split
    · rfl
    · split
      · rfl
      · exact recvPayload_split ..

/-- **Whole messages are received as they were sent**, one by one. -/
theorem recvCalls_wire {fs : List Frame} (hf : ∀ f ∈ fs, f.Framed rcfg) (S : ℕ → Splits) (p : List Byte) :
    recvCalls rcfg S fs.length (fs.flatMap Frame.wire ++ p) = (fs.map Frame.received, p) := by
  induction fs with
  | nil => rfl
  | cons f fs ih =>
      have hF := hf f List.mem_cons_self
      have hrecv : rpcRecvOn rcfg (S fs.length) (f.wire ++ (fs.flatMap Frame.wire ++ p)) = f.received := by
        rw [rpcRecvOn_eq _ .eager, rpcRecv_wire hF]
        right
        rw [Frame.wire, hF.hdrBytes_eq, List.append_assoc, List.append_assoc, MsgHdr.decode_encode]
        exact hF.len_ge
      rw [List.flatMap_cons, List.append_assoc, List.length_cons, recvCalls, hrecv]
      simp only [hF.taken_received, List.drop_left, List.map_cons]
      rw [ih fun g hg => hf g (List.mem_cons_of_mem _ hg)]

/-- **A message of which something is missing** is not returned. -/
theorem rpcRecvOn_partial (hf : f.Framed rcfg) {p ext : List Byte} (hext : ext ≠ [])
    (hp : p ++ ext = f.wire) (S : Splits) : (rpcRecvOn rcfg S p).result ≠ .message := by
  have hlen : p.length < f.wire.length := by
    have := List.length_pos_iff.2 hext
    rw [← hp, List.length_append]
    omega
  have htake : p = f.wire.take p.length := by rw [← hp, List.take_left]
  rw [rpcRecvOn_eq S .eager, htake, rpcRecv_cut hf hlen, Frame.cut]
  · split <;> simp
  · by_cases hsz : p.length < hdrSize
    · exact .inl hsz
    · right
      have hdec : MsgHdr.decode (p ++ ext) = MsgHdr.decode p := MsgHdr.decode_append (by omega)
      rw [← hdec, hp, Frame.wire, hf.hdrBytes_eq, List.append_assoc, MsgHdr.decode_encode]
      exact hf.len_ge

/-! ## The senders -/

/-- **The condition**: no `socket_write` fails, and what is given to
`rpc_async_request` and `rpc_response` can be sent. -/
def Whole (cfg : Cfg) (σ : State) (act : Action) : Prop :=
  (∀ n, act ≠ .write n none) ∧ ∀ n k a m, act = .check n → σ.pc (.world n) = .got k a →
    σ.chan.msgs a = some m → m.frame.Framed cfg.toRecvCfg

instance (f : Frame) : Decidable (f.Framed rcfg) :=
  decidable_of_iff (hdrSize ≤ f.hdr.len ∧ f.hdr.len ≤ rcfg.msgsz ∧ f.hdr.len ≤ hdrSize + f.body.length ∧
      (f.payload = none ↔ f.hdr.plen = 0) ∧ f.hdr.plen ≤ payloadMax ∧
      f.hdr.plen ≤ (f.payload.getD []).length)
    ⟨fun h => ⟨h.1, h.2.1, h.2.2.1, h.2.2.2.1, h.2.2.2.2.1, h.2.2.2.2.2⟩,
      fun h => ⟨h.1, h.2, h.3, h.4, h.5, h.6⟩⟩

instance (cfg : Cfg) (σ : State) : (act : Action) → Decidable (Whole cfg σ act)
  | .check n =>
      match hpc : σ.pc (.world n) with
      | .got k a =>
          decidable_of_iff (∀ m ∈ σ.chan.msgs a, m.frame.Framed cfg.toRecvCfg)
            ⟨fun h => ⟨fun _ => by simp, fun n' k' a' m e hp hm => by
                obtain rfl := Action.check.inj e
                rw [hpc] at hp
                obtain ⟨-, rfl⟩ := Pc.got.inj hp
                exact h m hm⟩,
              fun h m hm => h.2 n k a m rfl hpc hm⟩
      | .idle | .checked _ _ | .send _ _ _ _ | .unlock _ _ | .failing _ _ _ | .put _ _ | .item _
      | .found _ _ | .finish _ _ _ | .done _ _ | .dropped _ | .closing _ | .reading _ | .left =>
          .isTrue ⟨fun _ => by simp, fun n' k' a' m e hp => by
            obtain rfl := Action.check.inj e
            rw [hpc] at hp
            cases hp⟩
  | .write n none => .isFalse fun h => h.1 n rfl
  | .write _ (some _) | .get _ _ _ _ _ _ _ _ | .edit _ _ | .abandon _ | .lock _ | .unlock _ | .close _ | .put _
  | .take _ | .dispatch _ | .handle _ | .finish _ | .recvStart _ | .recv | .recvEnd _ | .arrive _ =>
      .isTrue ⟨fun _ => by simp, fun _ _ _ _ e => by simp at e⟩

theorem Whole.sends (h : Whole cfg σ act) : Sends σ act := fun n _ _ _ hact => absurd hact (h.1 n)

/-- `RPC_SETREQ` and `RPC_SETRESP` change no length. -/
theorem Frame.Framed.set (hf : f.Framed rcfg) (k : Kind) :
    Frame.Framed rcfg { f with hdr := k.set f.hdr } := by
  cases k <;> exact ⟨hf.len_ge, hf.len_le, hf.body, hf.payload, hf.plen_le, hf.inBuffer⟩

theorem Frame.Framed.hdrBytes_ne (hf : f.Framed rcfg) : f.hdrBytes ≠ [] := by
  have hlen := hf.length_hdrBytes
  have hge := hf.len_ge
  rw [← List.length_pos_iff, hlen]
  exact lt_of_lt_of_le (by decide) hge

/-- What its sender has yet to write of a message. -/
def Pc.unsent (f : Frame) : Pc → List Byte
  | .send _ _ .header rest => rest ++ f.payloadBytes
  | .send _ _ .payload rest => rest
  | _ => []

/-- Past a write, what the header's or the payload's loop has left is still
to be written. -/
theorem unsent_sending (k : Kind) (a : Addr) (f : Frame) (part : Part) (rest : List Byte) :
    (Pc.sending k a f part rest).unsent f = (Pc.send k a part rest).unsent f := by
  unfold Pc.sending
  split
  · split
    · rename_i h
      simp [Pc.unsent, h]
    · rfl
  · rfl
  · rfl

/-- A sender in `socket_write` has something to write. -/
theorem rest_of_sending {k' : Kind} {a' : Addr} {part' : Part} {rest' : List Byte}
    (h : Pc.sending k a f part rest = .send k' a' part' rest') : rest' ≠ [] := by
  unfold Pc.sending at h
  split at h
  · split at h
    · cases h
    · rename_i hne
      obtain ⟨-, -, -, rfl⟩ := Pc.send.inj h
      exact hne
  · cases h
  · rename_i hh hp
    obtain ⟨-, -, rfl, rfl⟩ := Pc.send.inj h
    rintro rfl
    cases part with
    | header => exact hh rfl rfl
    | payload => exact hp rfl rfl

/-- A sender that has the lock is in `socket_write` or before its unlock. -/
theorem sending_ne {q : Pc} (h : ∀ part' rest', q ≠ .send k a part' rest') (h' : q ≠ .unlock k a) :
    Pc.sending k a f part rest ≠ q := by
  unfold Pc.sending
  split
  · split
    · exact h'.symm
    · exact (h _ _).symm
  · exact h'.symm
  · exact (h _ _).symm

theorem unsent_take (f : Frame) (k : Kind) (a : Addr) (part : Part) (rest : List Byte) (j : ℕ) :
    rest.take j ++ (Pc.send k a part (rest.drop j)).unsent f = (Pc.send k a part rest).unsent f := by
  cases part with
  | header => simp only [Pc.unsent, ← List.append_assoc, List.take_append_drop]
  | payload => exact List.take_append_drop j rest

/-- **What is on the wire.** -/
structure Framing (cfg : Cfg) (σ : State) : Prop where
  ready : ∀ x k a, σ.pc x = .checked k a →
    ∃ m, σ.chan.msgs a = some m ∧ m.frame.Framed cfg.toRecvCfg
  framed : ∀ f ∈ σ.log, f.Framed cfg.toRecvCfg
  works : ∀ x k a s, σ.pc x ≠ .failing k a s
  rest : ∀ x k a part rest, σ.pc x = .send k a part rest → rest ≠ []
  free : σ.chan.lock = none → σ.sent = σ.log.flatMap Frame.wire
  owner : ∀ x, σ.chan.lock = some x → ∃ a m fs p, a ∈ (σ.pc x).held ∧ σ.chan.msgs a = some m ∧
    σ.log = fs ++ [m.frame] ∧ σ.sent = fs.flatMap Frame.wire ++ p ∧
    p ++ (σ.pc x).unsent m.frame = m.frame.wire

namespace Framing

variable (h : Framing cfg σ) (hl : Leaves σ σ' x)
include h hl

/-- What another actor stands at was there before. -/
theorem ready_other (hy : y ≠ x) (hpc : σ'.pc y = .checked k a) :
    ∃ m, σ'.chan.msgs a = some m ∧ m.frame.Framed cfg.toRecvCfg := by
  rw [hl.pc y hy] at hpc
  obtain ⟨m, hm, hf⟩ := h.ready y k a hpc
  exact ⟨m, by rw [hl.msgs y hy a (by simp [hpc, Pc.held]), hm], hf⟩

/-- **Steps that send nothing**, of an actor that does not have the lock. -/
theorem frame (hB : Base cfg σ) (hlock : σ'.chan.lock = σ.chan.lock) (hlog : σ'.log = σ.log)
    (hsent : σ'.sent = σ.sent) (hx : (σ.pc x).locked = false) (hx' : (σ'.pc x).locked = false)
    (hready : ∀ k a, σ'.pc x = .checked k a →
      ∃ m, σ'.chan.msgs a = some m ∧ m.frame.Framed cfg.toRecvCfg) : Framing cfg σ' := by
  refine ⟨fun y k a hpc => ?_, by rw [hlog]; exact h.framed, fun y k a s hpc => ?_,
    fun y k a part rest hpc => ?_, by rw [hlock, hlog, hsent]; exact h.free, fun y hy => ?_⟩
  · by_cases hyx : y = x
    · subst hyx
      exact hready k a hpc
    · exact h.ready_other hl hyx hpc
  · have hyx : y ≠ x := by
      rintro rfl
      rw [hpc] at hx'
      cases hx'
    rw [hl.pc y hyx] at hpc
    exact h.works y k a s hpc
  · have hyx : y ≠ x := by
      rintro rfl
      rw [hpc] at hx'
      cases hx'
    rw [hl.pc y hyx] at hpc
    exact h.rest y k a part rest hpc
  · rw [hlock] at hy
    have hyx : y ≠ x := by
      rintro rfl
      rw [(hB.locks y).1 hy] at hx
      cases hx
    obtain ⟨a, m, fs, p, ha, hm, hown⟩ := h.owner y hy
    rw [hl.pc y hyx, hlog, hsent]
    exact ⟨a, m, fs, p, ha, by rw [hl.msgs y hyx a ha, hm], hown⟩

/-- **The owner sends**: it has written `p` of its message. -/
theorem sending (hlock : σ'.chan.lock = some x) (hlog : ∀ f ∈ σ'.log, f.Framed cfg.toRecvCfg)
    (hpc : σ'.pc x = Pc.sending k a m.frame part rest) (hm : σ'.chan.msgs a = some m)
    {fs : List Frame} {p : List Byte} (hfs : σ'.log = fs ++ [m.frame])
    (hsent : σ'.sent = fs.flatMap Frame.wire ++ p)
    (hrest : p ++ (Pc.send k a part rest).unsent m.frame = m.frame.wire) : Framing cfg σ' := by
  refine ⟨fun y k' b hy => ?_, hlog, fun y k' b s hy => ?_, fun y k' b part' rest' hy => ?_,
    fun e => ?_, fun y hy => ?_⟩
  · refine h.ready_other hl ?_ hy
    rintro rfl
    rw [hpc] at hy
    exact sending_ne (by simp) (by simp) hy
  · have hyx : y ≠ x := by
      rintro rfl
      rw [hpc] at hy
      exact sending_ne (by simp) (by simp) hy
    rw [hl.pc y hyx] at hy
    exact h.works y k' b s hy
  · by_cases hyx : y = x
    · subst hyx
      rw [hpc] at hy
      exact rest_of_sending hy
    · rw [hl.pc y hyx] at hy
      exact h.rest y k' b part' rest' hy
  · rw [hlock] at e
    cases e
  · rw [hlock] at hy
    obtain rfl := Option.some.inj hy
    exact ⟨a, m, fs, p, by rw [hpc]; simp, hm, hfs, hsent, by rw [hpc, unsent_sending, hrest]⟩

/-- **A message is begun** by the one who obtains the lock. -/
theorem start (hfree : σ.chan.lock = none) (hlock : σ'.chan.lock = some x)
    (hm : σ'.chan.msgs a = some m) (hf : m.frame.Framed cfg.toRecvCfg) (hsent : σ'.sent = σ.sent)
    (hlog : σ'.log = σ.log ++ [m.frame])
    (hpc : σ'.pc x = Pc.sending k a m.frame .header m.frame.hdrBytes) : Framing cfg σ' := by
  refine h.sending hl hlock (fun g hg => ?_) hpc hm hlog (p := []) ?_ rfl
  · rw [hlog, List.mem_append, List.mem_singleton] at hg
    rcases hg with hg | rfl
    · exact h.framed g hg
    · exact hf
  · rw [hsent, h.free hfree, List.append_nil]

/-- **A write** adds a part of the owner's message. -/
theorem write {j : ℕ} (hB : Base cfg σ) (hpc : σ.pc x = .send k a part rest)
    (hm : σ.chan.msgs a = some m) (hmsgs : σ'.chan.msgs = σ.chan.msgs)
    (hlock : σ'.chan.lock = σ.chan.lock) (hlog : σ'.log = σ.log)
    (hsent : σ'.sent = σ.sent ++ rest.take j)
    (hpc' : σ'.pc x = Pc.sending k a m.frame part (rest.drop j)) : Framing cfg σ' := by
  have hhas : σ.chan.lock = some x := (hB.locks x).2 (by rw [hpc]; rfl)
  obtain ⟨b, m', fs, p, hb, hm', hfs, hp, hrest⟩ := h.owner x hhas
  rw [hpc, Pc.held, List.mem_singleton] at hb
  subst hb
  obtain rfl := Option.some.inj (hm.symm.trans hm')
  refine h.sending hl (hlock.trans hhas) (by rw [hlog]; exact h.framed) hpc' (by rw [hmsgs, hm])
    (hlog.trans hfs) (p := p ++ rest.take j) (by rw [hsent, hp, List.append_assoc]) ?_
  rw [List.append_assoc, unsent_take, ← hrest, hpc]

/-- **A message is complete** when its sender gives the lock back. -/
theorem finish (hB : Base cfg σ) (hpc : σ.pc x = .unlock k a) (hlock : σ'.chan.lock = none)
    (hlog : σ'.log = σ.log) (hsent : σ'.sent = σ.sent) (hx' : (σ'.pc x).locked = false)
    (hready : ∀ k a, σ'.pc x ≠ .checked k a) : Framing cfg σ' := by
  have hhas : σ.chan.lock = some x := (hB.locks x).2 (by rw [hpc]; rfl)
  obtain ⟨b, m, fs, p, -, -, hfs, hp, hrest⟩ := h.owner x hhas
  have hall : (Pc.unlock k a).unsent m.frame = [] := rfl
  rw [hpc, hall, List.append_nil] at hrest
  refine ⟨fun y k' b hy => ?_, by rw [hlog]; exact h.framed, fun y k' b s hy => ?_,
    fun y k' b part' rest' hy => ?_, fun _ => ?_, fun y hy => ?_⟩
  · refine h.ready_other hl ?_ hy
    rintro rfl
    exact hready k' b hy
  · have hyx : y ≠ x := by
      rintro rfl
      rw [hy] at hx'
      cases hx'
    rw [hl.pc y hyx] at hy
    exact h.works y k' b s hy
  · have hyx : y ≠ x := by
      rintro rfl
      rw [hy] at hx'
      cases hx'
    rw [hl.pc y hyx] at hy
    exact h.rest y k' b part' rest' hy
  · rw [hsent, hp, hlog, hfs, hrest, List.flatMap_append]
    simp
  · rw [hlock] at hy
    cases hy

end Framing

/-- What an actor that is not a sender before its call goes on to is not a
sender before its lock. -/
theorem not_checked_of_putting {p q : Pc} (h : p.putting = some (a, q)) : q ≠ .checked k b := by
  rintro rfl
  cases p <;> cases h

/-- **A step keeps the framing.** -/
theorem Framing.step (h : Framing cfg σ) (hB : Base cfg σ) (hs : Step cfg σ act σ')
    (hok : Whole cfg σ act) : Framing cfg σ' := by
  have hl : ∀ x, act.actor = some x → Leaves σ σ' x := fun x => hs.leaves hB
  cases hs with
  | get hpc _ _ hget =>
      exact h.frame (hl _ rfl) hB (Channel.msgGet_keeps hget).lock rfl rfl (by rw [hpc]; rfl)
        (by simp [Pc.locked]) (by simp)
  | edit hpc =>
      exact h.frame (hl _ rfl) hB rfl rfl rfl (by rw [hpc]; rfl) (by simp [hpc, Pc.locked])
        (by simp [hpc])
  | abandon hpc =>
      exact h.frame (hl _ rfl) hB rfl rfl rfl (by rw [hpc]; rfl) (by simp [Pc.locked]) (by simp)
  | @check n k a m hpc hm =>
      have hf := (hok.2 n k a m rfl hpc hm).set k
      refine h.frame (hl _ rfl) hB rfl rfl rfl (by rw [hpc]; rfl) (by simp [Pc.locked]) fun k' b hy => ?_
      rw [State.setPc_pc, Function.update_self] at hy
      obtain ⟨rfl, rfl⟩ := Pc.checked.inj hy
      exact ⟨_, Function.update_self .., hf⟩
  | refuse hpc =>
      exact h.frame (hl _ rfl) hB rfl rfl rfl (by rw [hpc]; rfl) (by simp [Pc.locked]) (by simp)
  | leave hpc =>
      exact h.frame (hl _ rfl) hB rfl rfl rfl (by rw [hpc]; rfl) (by simp [Pc.locked]) (by simp)
  | @lockRequest n a m hpc hm hfree =>
      obtain ⟨m', hm', hf⟩ := h.ready _ _ _ hpc
      obtain rfl := Option.some.inj (hm.symm.trans hm')
      exact h.start (hl _ rfl) (m := { m with use := .sending (.world n) }) hfree rfl
        (Function.update_self ..) hf rfl rfl (Function.update_self ..)
  | @lockResponse n a m hpc hm hfree =>
      obtain ⟨m', hm', hf⟩ := h.ready _ _ _ hpc
      obtain rfl := Option.some.inj (hm.symm.trans hm')
      exact h.start (hl _ rfl) hfree rfl hm hf rfl rfl (Function.update_self ..)
  | write hpc hm =>
      exact h.write (hl _ rfl) hB hpc hm rfl rfl rfl rfl (Function.update_self ..)
  | fail => exact absurd rfl (hok.1 _)
  | unlockRequest hpc =>
      exact h.finish (hl _ rfl) hB hpc rfl rfl rfl (by simp [Pc.locked]) (by simp)
  | unlockResponse hpc =>
      exact h.finish (hl _ rfl) hB hpc rfl rfl rfl (by simp [Pc.locked]) (by simp)
  | @close x s hx =>
      have hlock : (σ.closeStep s).1.lock = σ.chan.lock := by cases s <;> rfl
      have hclosing : ∃ t, σ.pc x = .closing t := by
        cases hpc : σ.pc x with
        | failing k a t => exact absurd hpc (h.works x k a t)
        | closing t => exact ⟨t, rfl⟩
        | _ =>
            rw [hpc] at hx
            cases hx
      obtain ⟨t, hpc⟩ := hclosing
      exact h.frame (hl _ rfl) hB hlock rfl rfl (by rw [hpc]; rfl) (by simp [hpc, Pc.reclose, Pc.locked])
        (by simp [hpc, Pc.reclose])
  | closeUnlock hpc => exact absurd hpc (h.works _ _ _ _)
  | closeReturn hpc =>
      exact h.frame (hl _ rfl) hB rfl rfl rfl (by rw [hpc]; rfl) (by simp [Pc.locked]) (by simp)
  | @putResp x a p m c hp _ _ hc =>
      obtain ⟨-, -, hlocked, -⟩ := Pc.of_putting hp
      refine h.frame (hl _ rfl) hB (Channel.putResp_keeps hc).lock rfl rfl hlocked hlocked fun k b hy => ?_
      rw [hy] at hp
      cases hp
  | @put x a p m c hp _ _ hc =>
      obtain ⟨-, -, hlocked, -, -, hlocked'⟩ := Pc.of_putting hp
      refine h.frame (hl _ rfl) hB (Channel.poolPut_keeps hc).1.lock rfl rfl hlocked
        (by simp [hlocked']) fun k b hy => ?_
      rw [State.setPc_pc, Function.update_self] at hy
      exact absurd hy (not_checked_of_putting hp)
  | take hpc =>
      exact h.frame (hl _ rfl) hB rfl rfl rfl (by rw [hpc]; rfl) (by simp [Pc.locked]) (by simp)
  | drop hpc =>
      exact h.frame (hl _ rfl) hB rfl rfl rfl (by rw [hpc]; rfl) (by simp [Pc.locked]) (by simp)
  | find hpc _ _ _ _ _ hrem =>
      exact h.frame (hl _ rfl) hB (Channel.hashRem_keeps hrem).1.lock rfl rfl (by rw [hpc]; rfl)
        (by simp [Pc.locked]) (by simp)
  | handle hpc =>
      exact h.frame (hl _ rfl) hB rfl rfl rfl (by rw [hpc]; rfl) (by simp [Pc.locked]) (by simp)
  | finish hpc =>
      exact h.frame (hl _ rfl) hB rfl rfl rfl (by rw [hpc]; rfl) (by simp [Pc.locked]) (by simp)
  | recvStart hpc _ _ hget =>
      exact h.frame (hl _ rfl) hB (Channel.poolGet_keeps hget).1.lock rfl rfl (by rw [hpc]; rfl)
        (by simp [Pc.locked]) (by simp)
  | recv hpc =>
      exact h.frame (hl _ rfl) hB rfl rfl rfl (by rw [hpc]; rfl) (by simp [Pc.locked]) (by simp)
  | recvEnd hpc =>
      exact h.frame (hl _ rfl) hB rfl rfl rfl (by rw [hpc]; rfl) (by simp [Pc.locked]) (by simp)
  | arrive => exact ⟨h.ready, h.framed, h.works, h.rest, h.free, h.owner⟩

theorem framing_reachable (hr : ((channelSystem cfg).only (Whole cfg)).Reachable σ) :
    Base cfg σ ∧ Framing cfg σ := by
  refine hr.invariant (I := fun σ => Base cfg σ ∧ Framing cfg σ) ?_ ?_
  · rintro σ ⟨bufs, cmds, hnd, -, rfl⟩
    refine ⟨base_initial hnd, fun x k a e => ?_, fun f hf => ?_, fun x k a s e => ?_,
      fun x k a part rest e => ?_, fun _ => rfl, fun x e => ?_⟩
    · cases e
    · cases hf
    · cases e
    · cases e
    · cases e
  · rintro σ act σ' ⟨hB, h⟩ ⟨he, hok⟩ hx
    have hs := Step.of_exec he hx
    exact ⟨hs.base hok.sends hB, h.step hB hs hok⟩

/-! ## The messages on the wire -/

/-- What has been sent: the messages `fs` whole, which are those whose
senders obtained the lock, in that order, and `p` of one more, its owner's. -/
def Sent (σ : State) (fs : List Frame) (p : List Byte) : Prop :=
  σ.sent = fs.flatMap Frame.wire ++ p ∧
    (σ.log = fs ∧ p = [] ∨
      ∃ x k a part rest m, σ.chan.lock = some x ∧ σ.pc x = .send k a part rest ∧
        σ.chan.msgs a = some m ∧ σ.log = fs ++ [m.frame] ∧ ∃ ext, ext ≠ [] ∧ p ++ ext = m.frame.wire)

/-- What a sender in `socket_write` has yet to write is not nothing. -/
theorem unsent_ne (hne : rest ≠ []) : (Pc.send k a part rest).unsent f ≠ [] := by
  cases part with
  | header => exact fun e => hne (List.append_eq_nil_iff.1 e).1
  | payload => exact hne

/-- The lock is free, or with a sender. -/
theorem Framing.sent (h : Framing cfg σ) (hB : Base cfg σ) : ∃ fs p, Sent σ fs p := by
  cases hlock : σ.chan.lock with
  | none => exact ⟨σ.log, [], by rw [h.free hlock, List.append_nil], .inl ⟨rfl, rfl⟩⟩
  | some x =>
      obtain ⟨b, m, fs, p, hb, hm, hfs, hp, hrest⟩ := h.owner x hlock
      have hlocked := (hB.locks x).1 hlock
      cases hpc : σ.pc x with
      | send k a part rest =>
          rw [hpc, Pc.held, List.mem_singleton] at hb
          subst hb
          rw [hpc] at hrest
          exact ⟨fs, p, hp, .inr ⟨x, k, b, part, rest, m, hlock, hpc, hm, hfs, _,
            unsent_ne (h.rest x k b part rest hpc), hrest⟩⟩
      | unlock k a =>
          rw [hpc] at hrest
          have hall : (Pc.unlock k a).unsent m.frame = [] := rfl
          rw [hall, List.append_nil] at hrest
          refine ⟨σ.log, [], ?_, .inl ⟨rfl, rfl⟩⟩
          rw [hp, hfs, hrest, List.flatMap_append]
          simp
      | failing k a s => exact absurd hpc (h.works x k a s)
      | _ =>
          rw [hpc] at hlocked
          cases hlocked

/-- **Framing.** What has been sent is a row of whole messages, in the order
of the lock, and a beginning of its owner's. `_rpc_recv`, called on it once
for each message of the row, returns 0 each time with exactly these
messages, however the bytes come in, and leaves the beginning of the last
one, which it does not return. -/
theorem channel_framing (hr : ((channelSystem cfg).only (Whole cfg)).Reachable σ) :
    ∃ fs p, Sent σ fs p ∧ ∀ (S : ℕ → Splits) (T : Splits),
      recvCalls cfg.toRecvCfg S fs.length σ.sent = (fs.map Frame.received, p) ∧
        (rpcRecvOn cfg.toRecvCfg T p).result ≠ .message := by
  obtain ⟨hB, h⟩ := framing_reachable hr
  obtain ⟨fs, p, hsent, hend⟩ := h.sent hB
  have hf : ∀ f ∈ fs, f.Framed cfg.toRecvCfg := fun f hf => by
    rcases hend with ⟨hlog, -⟩ | ⟨_, _, _, _, _, _, -, -, -, hlog, -⟩
    · exact h.framed f (hlog ▸ hf)
    · exact h.framed f (by rw [hlog]; exact List.mem_append_left _ hf)
  refine ⟨fs, p, ⟨hsent, hend⟩, fun S T => ⟨by rw [hsent, recvCalls_wire hf], ?_⟩⟩
  rcases hend with ⟨-, rfl⟩ | ⟨_, _, _, _, _, m, -, -, -, hlog, ext, hne, hext⟩
  · rw [rpcRecvOn_eq T .eager (.inl (by decide))]
    simp [rpcRecv, Socket.socketRead_small, hdrSize]
  · exact rpcRecvOn_partial (h.framed m.frame (by rw [hlog]; simp)) hne hext T

/-- A request with two bytes of payload, sent in three parts, and the first
five bytes of another. -/
def oneAndAHalf : List Action :=
  [.get 0 .request 9 33 48 ⟨0, 0⟩ (List.replicate 16 0) 0,
    .edit 0 ⟨⟨1, 528, 48, 2, 0⟩, ⟨0, 0⟩, List.replicate 16 0, some [7, 8]⟩,
    .get 1 .request 9 33 48 ⟨0, 0⟩ (List.replicate 16 0) 0, .check 0, .check 1, .lock 0,
    .write 0 (some 20), .write 0 (some 28), .write 0 (some 2), .unlock 0, .lock 1, .write 1 (some 5)]

theorem channel_framing_one_and_a_half : ∃ σ, ((channelSystem smallCfg).only (Whole smallCfg)).Reachable σ ∧
    σ.sent.length = 55 ∧ ∃ fs p, Sent σ fs p ∧ ∀ (S : ℕ → Splits) (T : Splits),
      recvCalls smallCfg.toRecvCfg S fs.length σ.sent = (fs.map Frame.received, p) ∧
        (rpcRecvOn smallCfg.toRecvCfg T p).result ≠ .message := by
  have hrun : ((((channelSystem smallCfg).only (Whole smallCfg)).run smallChannel oneAndAHalf).any
      fun σ : State => decide (σ.sent.length = 55)) = true := by decide +kernel
  obtain ⟨σ, hsteps, hlen⟩ := System.Steps.of_run_any hrun
  have hr := hsteps.reachable (.init smallChannel_init)
  exact ⟨σ, hr, of_decide_eq_true hlen, channel_framing hr⟩

end Mpp

end VmwareProto
