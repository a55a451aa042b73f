import VmwareProto.Rpc.Frames
/-!
# The accounts of the message pool

How many message buffers a channel has, and how many of them are issued.
The receiver asks for one without waiting, from the same pool that senders
and handlers hold theirs of; it gets one exactly when not all `nmax` are
issued.
-/

namespace VmwareProto

namespace Rpc

open Libtask

/-- **The counters of the message pool** against the buffers that are
issued. -/
structure Counted (cfg : Cfg) (c : Channel) (issued : List Addr) : Prop where
  nodup : issued.Nodup
  mem : ∀ a, a ∈ issued ↔ (c.msgs a).isSome = true
  issued : c.issued = issued.length
  owned : (c.owned : ℤ) = c.issued + c.qlen
  nbufs_le : cfg.nbufs ≤ c.owned
  le_nmax : c.owned ≤ cfg.nmax
  surplus : cfg.nbufs < c.owned → c.qlen = 0

/-- What the counters are kept of. -/
structure Channel.SameCounts (c c' : Channel) : Prop where
  owned : c'.owned = c.owned
  issued : c'.issued = c.issued
  qlen : c'.qlen = c.qlen
  msgs : ∀ a, (c'.msgs a).isSome = (c.msgs a).isSome

variable {cfg : Cfg} {ok : Prop} {σ σ' : State} {c c' c'' : Channel} {a b alloc : Addr} {m m' : Msg}
  {n : TaskId} {k : Kind} {lists : Option ℕ → List Addr} {pending issued : List Addr} {act : Action}

namespace Channel.SameCounts

theorem refl (c : Channel) : c.SameCounts c := ⟨rfl, rfl, rfl, fun _ => rfl⟩

theorem trans (h : c.SameCounts c') (h' : c'.SameCounts c'') : c.SameCounts c'' :=
  ⟨h'.owned.trans h.owned, h'.issued.trans h.issued, h'.qlen.trans h.qlen,
    fun a => (h'.msgs a).trans (h.msgs a)⟩

end Channel.SameCounts

/-- A message is written over another. -/
theorem sameCounts_setMsg (hm : (c.msgs a).isSome = true) : c.SameCounts (c.setMsg a m) :=
  ⟨rfl, rfl, rfl, fun y => by
    by_cases hy : y = a
    · rw [hy, setMsg_msgs, Function.update_self, hm]
      rfl
    · rw [setMsg_msgs, Function.update_of_ne hy]⟩

theorem sameCounts_hashRem (h : c.hashRem a = some c') :
    c.SameCounts c' ∧ c'.msgs = c.msgs := by
  have hsame : ∀ {c₁ : Channel}, c.SameCounts c₁ ∧ c₁.msgs = c.msgs →
      (if c₁.count < 0 then none else some c₁) = some c' → c.SameCounts c' ∧ c'.msgs = c.msgs := by
    intro c₁ h₁ h
    split at h
    · cases h
    · exact Option.some.inj h ▸ h₁
  unfold Channel.hashRem at h
  refine hsame ?_ h
  split <;> exact ⟨⟨rfl, rfl, rfl, fun _ => rfl⟩, rfl⟩

theorem Counted.congr (h : Counted cfg c issued) (hc : c.SameCounts c') :
    Counted cfg c' issued := by
  obtain ⟨ho, hi, hq, hm⟩ := hc
  refine ⟨h.nodup, fun a => by rw [hm]; exact h.mem a, hi.trans h.issued, ?_, ?_, ?_, ?_⟩
  · rw [ho, hi, hq]
    exact h.owned
  · rw [ho]
    exact h.nbufs_le
  · rw [ho]
    exact h.le_nmax
  · rw [ho, hq]
    exact h.surplus

/-! ## The pool -/

/-- **`bufpool_get` and the first write of the buffer**: one more is
issued. -/
theorem Counted.get (h : Counted cfg c issued) (hF : Free c (lists none)) (hb : c.msgs b = none)
    (hget : c.poolGet cfg alloc = some (c', b)) : Counted cfg (c'.setMsg b m) (b :: issued) := by
  have hnew : b ∉ issued := fun hm => by
    rw [h.mem, hb] at hm
    cases hm
  have hi := h.issued
  have ho := h.owned
  have hl := h.nbufs_le
  have hmem : ∀ y, y ∈ b :: issued ↔ (Function.update c.msgs b (some m) y).isSome = true := by
    intro y
    by_cases hy : y = b
    · simp [hy]
    · rw [List.mem_cons, Function.update_of_ne hy, ← h.mem]
      exact or_iff_right hy
  unfold Channel.poolGet at hget
  split at hget
  · cases hget
  split at hget
  · -- from the free list
    split at hget
    · cases hget
    · split at hget
      · cases hget
      · rename_i hq
        obtain ⟨rfl, rfl⟩ := Prod.mk.inj (Option.some.inj hget)
        refine ⟨List.nodup_cons.2 ⟨hnew, h.nodup⟩, hmem, ?_, ?_, hl, h.le_nmax, fun hlt => ?_⟩
        · simp only [Channel.setMsg, List.length_cons]; omega
        · simp only [Channel.setMsg]; omega
        · have := h.surplus hlt
          omega
  · split at hget
    · -- fresh memory, since the free list is empty
      rename_i hne hlt
      obtain ⟨rfl, rfl⟩ := Prod.mk.inj (Option.some.inj hget)
      have hnil := (hF.ring.isEmpty_iff).1 (by simpa using hne)
      have hq : c.qlen = 0 := by
        rw [hF.qlen, List.map_eq_nil_iff.1 hnil]
        rfl
      refine ⟨List.nodup_cons.2 ⟨hnew, h.nodup⟩, hmem, ?_, ?_, ?_, ?_, fun _ => hq⟩
      · simp only [Channel.setMsg, List.length_cons]; omega
      · simp only [Channel.setMsg]; omega
      · simp only [Channel.setMsg]; omega
      · simp only [Channel.setMsg]; omega
    · cases hget

/-- **`bufpool_put`**: one less is issued. -/
theorem Counted.put (h : Counted cfg c issued) (hm : c.msgs a = some m)
    (hput : c.poolPut cfg a = some c') : Counted cfg c' (issued.erase a) := by
  have ha : a ∈ issued := (h.mem a).2 (by rw [hm]; rfl)
  have hlen := List.length_erase_of_mem ha
  have hpos := List.length_pos_of_mem ha
  have hi := h.issued
  have ho := h.owned
  have hl := h.nbufs_le
  have hx := h.le_nmax
  have hmem : ∀ y, y ∈ issued.erase a ↔ (Function.update c.msgs a none y).isSome = true := by
    intro y
    by_cases hy : y = a
    · rw [hy, Function.update_self]
      exact iff_of_false h.nodup.not_mem_erase (by simp)
    · rw [List.mem_erase_of_ne hy, Function.update_of_ne hy, h.mem]
  unfold Channel.poolPut at hput
  simp only at hput
  split at hput
  · rename_i hle
    obtain rfl := Option.some.inj hput
    refine ⟨h.nodup.erase a, hmem, ?_, ?_, hl, hx, fun hlt => ?_⟩
    · simp only; omega
    · simp only; omega
    · simp only at hlt
      omega
  · rename_i hgt
    split at hput
    · cases hput
    obtain rfl := Option.some.inj hput
    have hz := h.surplus (by omega)
    refine ⟨h.nodup.erase a, hmem, ?_, ?_, ?_, ?_, fun _ => hz⟩
    · simp only; omega
    · simp only; omega
    · simp only; omega
    · simp only; omega

theorem poolPut_msgs (hput : c.poolPut cfg a = some c') :
    c'.msgs = Function.update c.msgs a none := by
  unfold Channel.poolPut at hput
  simp only at hput
  split at hput
  · exact Option.some.inj hput ▸ rfl
  · split at hput
    · cases hput
    · exact Option.some.inj hput ▸ rfl

/-- `rpc_msg_put`. -/
theorem Counted.msgPut (h : Counted cfg c issued) (hm : c.msgs a = some m)
    (hresp : ∀ b, m.resp = some b → b ≠ a) (hput : c.msgPut cfg a = some c') :
    ∃ issued', Counted cfg c' issued' := by
  simp only [Channel.msgPut, hm, Option.bind_eq_bind, Option.bind_some] at hput
  split at hput
  · exact ⟨_, h.put hm hput⟩
  · rename_i b hb
    obtain ⟨r, hr, hput⟩ := Option.bind_eq_some_iff.1 hput
    split at hput
    · cases hput
    · obtain ⟨c₁, hput₁, hput⟩ := Option.bind_eq_some_iff.1 hput
      have ha : c₁.msgs a = some m := by
        rw [poolPut_msgs hput₁, Function.update_of_ne (hresp b hb).symm, hm]
      exact ⟨_, (h.put hr hput₁).put ha hput⟩

/-- `rpc_msg_get`. -/
theorem Counted.msgGet {msgtype msglen payloadlen : ℕ} {payload : Option (List Byte)}
    (h : Counted cfg c issued) (hS : Sound cfg ok c lists pending) (hl : c.live alloc = false)
    (hget : c.msgGet cfg alloc msgtype msglen payloadlen payload = some (c', b)) :
    ∃ issued', Counted cfg c' issued' := by
  unfold Channel.msgGet at hget
  split at hget
  · cases hget
  · simp only [Option.bind_eq_bind, Option.bind_eq_some_iff] at hget
    obtain ⟨⟨c₁, a⟩, hpool, hget⟩ := hget
    obtain ⟨rfl, rfl⟩ := Prod.mk.inj (Option.some.inj hget)
    obtain ⟨-, -, hnone, -⟩ := poolGet_spec hS hl hpool
    exact ⟨_, (h.get hS.1 hnone hpool).congr ⟨rfl, rfl, rfl, fun _ => rfl⟩⟩

/-! ## The receiver -/

/-- `_rpc_response` takes nothing from the pool. -/
theorem sameCounts_rpcResponse {h : MsgHdr} (hx : σ.rpcResponse cfg b h = some σ') :
    σ.chan.SameCounts σ'.chan := by
  simp only [State.rpcResponse, Option.bind_eq_bind, Option.bind_eq_some_iff] at hx
  obtain ⟨e, -, hx⟩ := hx
  split at hx
  · cases hx
  · rename_i a
    simp only [Option.bind_eq_some_iff] at hx
    obtain ⟨c, hrem, m, hm, r, hr, hx⟩ := hx
    obtain ⟨hsame, -⟩ := sameCounts_hashRem hrem
    have ha : (c.msgs a).isSome = true := by rw [hm]; rfl
    have hb : ((c.setMsg a { m with resp := some b }).msgs b).isSome = true := by
      rw [(sameCounts_setMsg ha).msgs, hr]
      rfl
    have hsame₁ := hsame.trans ((sameCounts_setMsg ha).trans
      (sameCounts_setMsg (m := { r with use := .attached a }) hb))
    simp only [State.wakeup, Option.bind_eq_bind, Option.bind_eq_some_iff] at hx
    obtain ⟨m₁, hm₁, hx⟩ := hx
    split at hx
    · exact Option.some.inj hx ▸ hsame₁
    · obtain rfl := Option.some.inj hx
      exact hsame₁.trans (sameCounts_setMsg (by rw [hm₁]; rfl))

/-- From `_rpc_receive`'s return on, nothing is taken from the pool. -/
theorem sameCounts_settle {r : Recv} (hb : (σ.chan.msgs b).isSome = true)
    (hx : σ.settle cfg b r = some σ') : σ.chan.SameCounts σ'.chan := by
  rcases State.settle_cases hx with ⟨-, rfl⟩ | ⟨-, hx⟩
  · exact .refl _
  · obtain ⟨m, -, -, -, hx, -⟩ := State.deliver_cases hx
    rcases State.dispatch_cases hx with ⟨-, rfl⟩ | ⟨-, -, rfl⟩ | ⟨-, -, hx⟩
    · obtain ⟨h₁, h₂, h₃, h₄⟩ := sameCounts_setMsg (m := { m with use := .handed }) hb
      exact ⟨h₁, h₂, h₃, h₄⟩
    · exact sameCounts_setMsg hb
    · exact (sameCounts_setMsg (m := m) hb).trans (sameCounts_rpcResponse hx)

/-- A step of the receiver that is under way. -/
theorem Counted.receiving {r r' : Recv} {q : List Byte} (h : Counted cfg σ.chan issued)
    (hU : Uses σ) (hq : σ.recv = .receiving b r)
    (hx : State.settle cfg { σ with inq := q } b r' = some σ') :
    ∃ issued', Counted cfg σ'.chan issued' := by
  obtain ⟨m, hm, -⟩ := hU.buffer b r hq
  have hb : (σ.chan.msgs b).isSome = true := by rw [hm]; rfl
  exact ⟨issued, h.congr (sameCounts_settle (σ := { σ with inq := q }) hb hx)⟩

/-! ## Every step -/

/-- A message that is put, on a channel whose lock changed hands. -/
theorem Counted.put_message {l : QLock} (h : Counted cfg σ.chan issued) (hU : Uses σ)
    (hm : σ.chan.msgs a = some m)
    (hput : Channel.msgPut cfg { σ.chan with fdlock := l } a = some c) :
    ∃ issued', Counted cfg c issued' :=
  (h.congr ⟨rfl, rfl, rfl, fun _ => rfl⟩ : Counted cfg { σ.chan with fdlock := l } issued).msgPut hm
    (fun b hb => (hU.resp_ne hm b hb).1) hput

/-- `RPC_CHAN_LOCK` takes nothing from the pool. -/
theorem Channel.SameCounts.lock (h : c.SameCounts σ.chan) :
    c.SameCounts (σ.lock n a k m).chan := by
  rcases State.lock_cases σ n a k m with ⟨-, e⟩ | ⟨-, e⟩ <;>
    · rw [e]
      exact h.trans ⟨rfl, rfl, rfl, fun _ => rfl⟩

/-- **The step lemma.** -/
theorem Counted.step (h : Counted cfg σ.chan issued) (hB : Base cfg ok σ)
    (he : act.Allowed cfg σ) (hx : act.exec cfg σ = some σ') :
    ∃ issued', Counted cfg σ'.chan issued' := by
  obtain ⟨lists, pending, hS⟩ := hB.sound
  have hU := hB.uses
  cases act with
  | msgGet alloc msgtype msglen payloadlen payload =>
      simp only [Action.exec, Option.bind_eq_bind, Option.bind_eq_some_iff] at hx
      obtain ⟨⟨c, b⟩, hget, hx⟩ := hx
      obtain rfl := Option.some.inj hx
      exact h.msgGet hS he.1 hget
  | edit a msglen payloadlen status body payload =>
      simp only [Action.exec, Option.bind_eq_bind, Option.bind_eq_some_iff] at hx
      obtain ⟨m, hm, hx⟩ := hx
      obtain rfl := Option.some.inj hx
      exact ⟨issued, h.congr (sameCounts_setMsg (by rw [hm]; rfl))⟩
  | msgPut a =>
      simp only [Action.exec, Option.bind_eq_bind, Option.bind_eq_some_iff] at hx
      obtain ⟨c, hput, hx⟩ := hx
      obtain rfl := Option.some.inj hx
      obtain ⟨m, hm, -⟩ := he
      exact h.put_message hU hm hput
  | request n a =>
      obtain ⟨m, hm, -, ⟨-, rfl⟩ | ⟨-, m', -, rfl⟩⟩ := State.request_cases hx
      · exact ⟨issued, h.congr (sameCounts_setMsg (by rw [hm]; rfl))⟩
      · have hset : σ.chan.SameCounts (σ.chan.setMsg a m') := sameCounts_setMsg (by rw [hm]; rfl)
        have hadd : (σ.chan.setMsg a m').SameCounts
            ((σ.chan.setMsg a m').hashAdd a (cfg.getBucket m'.hdr.seqid)) :=
          ⟨rfl, rfl, rfl, fun _ => rfl⟩
        refine ⟨issued, h.congr (Channel.SameCounts.lock ?_)⟩
        exact hset.trans hadd
  | response n a =>
      obtain ⟨m, hm, -, ⟨-, l, c, -, hput, rfl⟩ | ⟨-, m', -, rfl⟩⟩ := State.response_cases hx
      · exact h.put_message hU hm hput
      · have hset : σ.chan.SameCounts (σ.chan.setMsg a m') := sameCounts_setMsg (by rw [hm]; rfl)
        refine ⟨issued, h.congr (Channel.SameCounts.lock ?_)⟩
        exact hset
  | resume n =>
      obtain ⟨k, a, m, -, -, -, rfl⟩ := State.resume_cases hx
      exact ⟨issued, h⟩
  | write n r =>
      obtain ⟨k, a, part, rest, hpc, hcases⟩ := State.write_cases hx
      rcases hcases with ⟨-, rfl⟩ | ⟨res, -, rfl⟩ | ⟨j, m, -, hm, ⟨_, _, -, rfl⟩ | ⟨-, hx⟩⟩
      · exact ⟨issued, h⟩
      · exact ⟨issued, h.congr ⟨rfl, rfl, rfl, fun _ => rfl⟩⟩
      · exact ⟨issued, h⟩
      · obtain ⟨l, -, ⟨-, m', hm', rfl⟩ | ⟨-, c, hput, rfl⟩⟩ := State.complete_cases hx
        · have hl : σ.chan.SameCounts { σ.chan with fdlock := l } := ⟨rfl, rfl, rfl, fun _ => rfl⟩
          exact ⟨issued, h.congr (hl.trans (sameCounts_setMsg (by rw [hm']; rfl)))⟩
        · exact h.put_message hU hm hput
  | unlock n =>
      obtain ⟨k, a, res, l, hpc, -, ⟨-, m', hm', rfl⟩ | ⟨-, c, hput, rfl⟩⟩ := State.unlock_cases hx
      · have hl : σ.chan.SameCounts { σ.chan with fdlock := l } := ⟨rfl, rfl, rfl, fun _ => rfl⟩
        exact ⟨issued, h.congr (hl.trans (sameCounts_setMsg (by rw [hm']; rfl)))⟩
      · obtain ⟨m, hm, -⟩ := hU.call n k a (by rw [hpc]; rfl)
        exact h.put_message hU hm hput
  | wake n =>
      obtain ⟨a, m, -, hm, -, rfl⟩ := State.wake_cases hx
      exact ⟨issued, h.congr (sameCounts_setMsg (by rw [hm]; rfl))⟩
  | close =>
      obtain rfl := Option.some.inj hx
      exact ⟨issued, h.congr ⟨rfl, rfl, rfl, fun _ => rfl⟩⟩
  | deinit n =>
      obtain ⟨st, p, -, rfl⟩ := deinit_cases hx he
      exact ⟨issued, h.congr ⟨rfl, rfl, rfl, fun _ => rfl⟩⟩
  | drained n =>
      rw [drained_cases hx]
      exact ⟨issued, h.congr ⟨rfl, rfl, rfl, fun _ => rfl⟩⟩
  | recvStart alloc =>
      obtain ⟨c, b, hget, hx⟩ := State.recvStart_cases hx
      obtain ⟨-, -, hnone, -⟩ := poolGet_spec hS he.2.1 hget
      have h₁ := h.get (m := .ofBytes cfg.toRecvCfg []) hS.1 hnone hget
      exact ⟨_, h₁.congr (sameCounts_settle (by simp) hx)⟩
  | recvTake j =>
      obtain ⟨b, r, r', hq, -, hx⟩ := State.recvTake_cases hx
      exact h.receiving hU hq hx
  | recvOther res =>
      obtain ⟨b, r, r', hq, -, hx⟩ := State.recvOther_cases hx
      exact h.receiving hU hq hx
  | recvData =>
      obtain ⟨b, r, r', hq, -, hx⟩ := State.recvData_cases hx
      exact h.receiving hU hq hx
  | arrive bs =>
      obtain rfl := Option.some.inj hx
      exact ⟨issued, h⟩

/-- **The run lemma.** -/
theorem counted_reachable (hr : (channelSystem cfg).Reachable σ) :
    ∃ issued, Counted cfg σ.chan issued := by
  induction hr with
  | init hs =>
      obtain ⟨bufs, -, hlen, rfl⟩ := hs
      refine ⟨[], by simp, by simp [State.initial, Channel.initial], rfl, ?_, ?_, ?_, ?_⟩
      · simp [State.initial, Channel.initial]
      · simp [State.initial, Channel.initial, hlen]
      · simp only [State.initial, Channel.initial, hlen, Cfg.nmax]; omega
      · simp only [State.initial, Channel.initial, hlen]; omega
  | step hr he hx ih =>
      obtain ⟨issued, h⟩ := ih
      exact h.step (base_reachable hr) he.2 hx

/-- **A message is put** without a fault, and is one less. -/
theorem Counted.exists_put (h : Counted cfg c issued) (hm : c.msgs a = some m) (hr : m.resp = none) :
    ∃ c', c.msgPut cfg a = some c' ∧ c'.msgs a = none ∧ c'.issued + 1 = c.issued := by
  have hmem : a ∈ issued := (h.mem a).2 (by rw [hm]; rfl)
  have hpos := List.length_pos_of_mem hmem
  have hi := h.issued
  have hput : c.msgPut cfg a = c.poolPut cfg a := by
    simp only [Channel.msgPut, hm, hr, Option.bind_eq_bind, Option.bind_some]
  rw [hput]
  unfold Channel.poolPut
  simp only
  by_cases hle : c.owned ≤ cfg.nbufs
  · rw [if_pos hle]
    refine ⟨_, rfl, Function.update_self .., ?_⟩
    show c.issued - 1 + 1 = c.issued
    omega
  · rw [if_neg hle, if_neg (by omega)]
    refine ⟨_, rfl, Function.update_self .., ?_⟩
    show c.issued - 1 + 1 = c.issued
    omega

/-! ## The channel is there -/

/-- Where the receiver's step leaves the pool's state alone. -/
theorem state_settle {ok : Prop} {b : Addr} {q r : Recv} {σ : State} (hB : Base cfg ok σ)
    (hen : σ.chan.enabled = true → ok) (hq : σ.recv = .receiving b q)
    (hd : ∀ d, r.pc = .done d → σ.chan.enabled = true) (hx : σ.settle cfg b r = some σ') :
    σ'.chan.state = σ.chan.state := by
  rcases State.settle_cases hx with ⟨-, rfl⟩ | ⟨-, hx⟩
  · rfl
  · obtain ⟨m, hu, -, -, hx, hend⟩ := State.deliver_cases hx
    rcases State.dispatch_cases hx with ⟨-, rfl⟩ | ⟨-, -, rfl⟩ | ⟨hcc, -, hx⟩
    · rfl
    · rfl
    · obtain ⟨lists, pending, hS⟩ := hB.sound
      have hok : ok := by
        rcases hend with ⟨⟨d, hpc⟩, -⟩ | ⟨-, hc⟩
        · exact hen (hd d hpc)
        · rw [hc] at hcc
          cases hcc
      rcases State.rpcResponse_spec hB.uses hS hok hq hu with
        ⟨a, p, n, c', -, -, -, -, hx', -, hk, -⟩ | ⟨hx', -⟩
      · rw [hx] at hx'
        obtain rfl := Option.some.inj hx'
        exact hk.state
      · rw [hx] at hx'
        cases hx'

theorem finish_issued {c' : Channel} (hx : c.finish = some c') : c'.issued = 0 := by
  unfold Channel.finish at hx
  split at hx
  · cases hx
  · rename_i hz
    split at hx
    · cases hx
    · obtain rfl := Option.some.inj hx
      exact not_not.1 hz

/-- **Nothing but the end of `rpc_chan_deinit`** makes a channel be gone, and
then no buffer is issued. -/
theorem state_cases {ok : Prop} {σ : State} (hB : Base cfg ok σ) (hen : σ.chan.enabled = true → ok)
    (he : act.Allowed cfg σ) (hx : act.exec cfg σ = some σ') :
    σ'.chan.state = σ.chan.state ∨ σ'.chan.state = .deiniting ∨ σ'.chan.issued = 0 := by
  obtain ⟨lists, pending, hS⟩ := hB.sound
  cases act with
  | msgGet alloc msgtype msglen payloadlen payload =>
      simp only [Action.exec, Option.bind_eq_bind, Option.bind_eq_some_iff] at hx
      obtain ⟨⟨c, b⟩, hget, hx⟩ := hx
      obtain rfl := Option.some.inj hx
      simp only [Channel.msgGet, Option.bind_eq_bind] at hget
      split at hget
      · cases hget
      · obtain ⟨⟨c₁, b₁⟩, hpool, hget⟩ := Option.bind_eq_some_iff.1 hget
        obtain ⟨rfl, rfl⟩ := Prod.mk.inj (Option.some.inj hget)
        exact .inl (poolGet_spec hS he.1 hpool).2.2.2.2.state
  | edit b msglen payloadlen status body payload =>
      simp only [Action.exec, Option.bind_eq_bind, Option.bind_eq_some_iff] at hx
      obtain ⟨m, -, hx⟩ := hx
      obtain rfl := Option.some.inj hx
      exact .inl rfl
  | msgPut b =>
      simp only [Action.exec, Option.bind_eq_bind, Option.bind_eq_some_iff] at hx
      obtain ⟨c, hput, hx⟩ := hx
      obtain rfl := Option.some.inj hx
      obtain ⟨m, hm, hu⟩ := he
      have hu' : ∀ t, m.use ≠ .request t := fun t => by
        rcases hu with hu | hu | ⟨res, hu⟩ <;> simp [hu]
      exact .inl (hB.put_keeps hm hu' hput).state
  | request t b =>
      obtain ⟨m, -, -, ⟨-, rfl⟩ | ⟨-, m', -, rfl⟩⟩ := State.request_cases hx
      · exact .inl rfl
      · exact .inl (by rw [lock_chan]; rfl)
  | response t b =>
      obtain ⟨m, hm, -, ⟨-, l, c, -, hput, rfl⟩ | ⟨-, m', -, rfl⟩⟩ := State.response_cases hx
      · obtain ⟨-, m₀, hm₀, hu, -⟩ := he
        obtain rfl := Option.some.inj (hm.symm.trans hm₀)
        exact .inl (hB.put_keeps hm (by simp [hu]) hput).state
      · exact .inl (by rw [lock_chan]; rfl)
  | resume t =>
      obtain ⟨k, b, m, -, -, -, rfl⟩ := State.resume_cases hx
      exact .inl rfl
  | write t r =>
      obtain ⟨k, b, part, rest, hpc, ⟨-, rfl⟩ | ⟨res, -, rfl⟩ |
        ⟨j, m, -, -, ⟨part', rest', -, rfl⟩ | ⟨-, hx⟩⟩⟩ := State.write_cases hx
      · exact .inl rfl
      · exact .inl rfl
      · exact .inl rfl
      · obtain ⟨l, -, ⟨-, m', -, rfl⟩ | ⟨rfl, c, hput, rfl⟩⟩ := State.complete_cases hx
        · exact .inl rfl
        · exact .inl (hB.response_keeps (by rw [hpc]; rfl) hput).state
  | unlock t =>
      obtain ⟨k, b, res, l, hpc, -, ⟨-, m, -, rfl⟩ | ⟨rfl, c, hput, rfl⟩⟩ := State.unlock_cases hx
      · exact .inl rfl
      · exact .inl (hB.response_keeps (by rw [hpc]; rfl) hput).state
  | wake t =>
      obtain ⟨b, m, -, -, -, rfl⟩ := State.wake_cases hx
      exact .inl rfl
  | close =>
      obtain rfl := Option.some.inj hx
      exact .inl rfl
  | deinit t =>
      simp only [Action.exec, State.deinit] at hx
      split at hx
      · cases hx
      · split at hx
        · obtain rfl := Option.some.inj hx
          exact .inr (.inl rfl)
        · rename_i hz
          obtain ⟨c, hc, hx⟩ := Option.bind_eq_some_iff.1 hx
          obtain rfl := Option.some.inj hx
          exact .inr (.inr (finish_issued hc))
  | drained t =>
      simp only [Action.exec, State.drained, Option.bind_eq_bind] at hx
      obtain ⟨c, hc, hx⟩ := Option.bind_eq_some_iff.1 hx
      obtain rfl := Option.some.inj hx
      exact .inr (.inr (finish_issued hc))
  | arrive bs =>
      obtain rfl := Option.some.inj hx
      exact .inl rfl
  | _ =>
      obtain ⟨σ₁, b, q, r, hp, hx⟩ := receiving_cases hB he hx trivial
      have hst := state_settle hp.base (by rw [hp.keeps.enabled]; exact hen) hp.recv hp.done hx
      exact .inl (hst.trans hp.keeps.state)

/-- **Where there is a message there is a channel.** -/
theorem state_ne_gone (hr : (channelSystem cfg).Reachable σ) (hm : σ.chan.msgs a = some m) :
    σ.chan.state ≠ .gone := by
  have hgone : σ.chan.state = .gone → σ.chan.issued = 0 := by
    clear hm
    induction hr with
    | init hs =>
        obtain ⟨bufs, -, -, rfl⟩ := hs
        intro h
        cases h
    | @step σ σ' act hr he hx _ =>
        intro hg
        rcases state_cases (base_reachable hr) (fun h => h) he.2 hx with h | h | h
        · exact absurd (h ▸ hg) he.1
        · rw [h] at hg
          cases hg
        · exact h
  intro hg
  obtain ⟨issued, hC⟩ := counted_reachable hr
  have hmem : a ∈ issued := (hC.mem a).2 (by rw [hm]; rfl)
  have hpos := List.length_pos_of_mem hmem
  have hi := hC.issued
  rw [hgone hg] at hi
  omega

/-- **`q_len` is at most `nbufs`**, which is what `bufpool_init` returns in an
`int`. -/
theorem qlen_le_reachable (hr : (channelSystem cfg).Reachable σ) : σ.chan.qlen ≤ cfg.nbufs := by
  obtain ⟨issued, h⟩ := counted_reachable hr
  have ho := h.owned
  rcases Nat.lt_or_ge cfg.nbufs σ.chan.owned with hlt | hle
  · rw [h.surplus hlt]
    exact Int.natCast_nonneg _
  · omega

/-! ## Asking without waiting -/

/-- **`bufpool_get` finds a buffer** exactly when not all `nmax` are
issued. -/
theorem Counted.poolGet_iff (alloc : Addr) (h : Counted cfg c issued) (hF : Free c (lists none))
    (hs : c.state = .initialized) :
    (∃ c' b, c.poolGet cfg alloc = some (c', b)) ↔ c.issued < cfg.nmax := by
  have ho := h.owned
  have hx := h.le_nmax
  have hq := hF.qlen
  unfold Channel.poolGet
  rw [if_neg (by simp [hs])]
  rcases List.eq_nil_or_concat (lists none) with hnil | ⟨xs, a, hlist⟩
  · -- nothing free, so it is up to `owned`
    rw [hnil, List.length_nil] at hq
    have hempty : ¬ c.links.isEmpty (.head none) = false := by
      rw [(hF.ring.isEmpty_iff).2 (by simp [hnil])]
      simp
    rw [if_neg hempty]
    constructor
    · rintro ⟨c', b, hget⟩
      split at hget
      · omega
      · cases hget
    · intro hlt
      rw [if_pos (by omega)]
      exact ⟨_, _, rfl⟩
  · rw [List.concat_eq_append] at hlist
    have hring := hF.ring
    rw [hlist, List.map_append] at hring
    have hprev : c.links.prev (.head none) = .elem a := hring.prev_head
    have hempty : c.links.isEmpty (.head none) = false := by
      rw [← Bool.not_eq_true, (hF.ring.isEmpty_iff), List.map_eq_nil_iff, hlist]
      simp
    rw [hlist, List.length_append, List.length_singleton] at hq
    rw [if_pos hempty]
    simp only [hprev]
    rw [if_neg (by omega)]
    exact iff_of_true ⟨_, _, rfl⟩ (by omega)

/-- A call of `_rpc_receive` that got its buffer gets to its first read, or
out. -/
theorem exists_settle_start (cfg : Cfg) (σ : State) (b : Addr) (enabled : Bool) :
    ∃ σ', σ.settle cfg b (.start enabled) = some σ' := by
  cases enabled with
  | true => exact ⟨_, rfl⟩
  | false => exact ⟨_, if_pos (MsgHdr.isConnClosed_setConnClosed _)⟩

/-- **When the receiver gets its buffer**: in every run, an iteration of
`rpc_recv_task` on a channel in use passes the assertion on its message
buffer exactly when fewer than `nmax` of them are issued as it starts. -/
theorem receiver_gets_buffer_iff (hr : (channelSystem cfg).Reachable σ)
    (hs : σ.chan.state = .initialized) :
    (∃ σ', (Action.recvStart alloc).exec cfg σ = some σ') ↔ σ.chan.issued < cfg.nmax := by
  obtain ⟨issued, hc⟩ := counted_reachable hr
  obtain ⟨lists, pending, hS⟩ := (base_reachable hr).sound
  rw [← hc.poolGet_iff alloc hS.1 hs]
  constructor
  · rintro ⟨σ', hx⟩
    obtain ⟨c, b, hget, -⟩ := State.recvStart_cases hx
    exact ⟨c, b, hget⟩
  · rintro ⟨c, b, hget⟩
    obtain ⟨σ', hx⟩ := exists_settle_start cfg
      { σ with chan := c.setMsg b (.ofBytes cfg.toRecvCfg []) } b c.enabled
    exact ⟨σ', by simpa [Action.exec, State.recvStart, hget] using hx⟩

/-- A client holds one message, and the receiver still gets a buffer. -/
theorem receiver_gets_buffer_second : ∃ σ, (channelSystem smallCfg).Reachable σ ∧
    σ.recv = .idle ∧ σ.chan.issued = 1 ∧
    ∃ σ', (Action.recvStart 9).exec smallCfg σ = some σ' := by
  have h : ((channelSystem smallCfg).run smallChannel [.msgGet 9 3 12 0 none]).any
      (fun σ : State => decide (σ.chan.state = .initialized ∧ σ.recv = .idle ∧
        σ.chan.issued = 1)) = true := by decide +kernel
  obtain ⟨σ, hσ, hp⟩ := System.Steps.of_run_any h
  obtain ⟨hs, hq, hi⟩ := of_decide_eq_true hp
  have hr := hσ.reachable (.init smallChannel_init)
  exact ⟨σ, hr, hq, hi, (receiver_gets_buffer_iff hr hs).2 (by rw [hi]; decide)⟩

/-- Six clients take the six messages there are, and the receiver's next
call finds none: its assertion fails where it should have waited. -/
theorem receiver_runs_out : ∃ σ, (channelSystem smallCfg).Reachable σ ∧
    σ.chan.state = .initialized ∧ σ.recv = .idle ∧ σ.chan.live 20 = false ∧
    (Action.recvStart 20).exec smallCfg σ = none := by
  have h : ((channelSystem smallCfg).run smallChannel
      [.msgGet 9 3 12 0 none, .msgGet 9 3 12 0 none, .msgGet 9 3 12 0 none,
        .msgGet 10 3 12 0 none, .msgGet 11 3 12 0 none, .msgGet 12 3 12 0 none]).any
      (fun σ : State => decide (σ.chan.state = .initialized ∧ σ.recv = .idle ∧
        σ.chan.live 20 = false ∧ ((Action.recvStart 20).exec smallCfg σ).isNone)) = true := by
    decide +kernel
  obtain ⟨σ, hσ, hp⟩ := System.Steps.of_run_any h
  obtain ⟨hs, hq, hl, hx⟩ := of_decide_eq_true hp
  exact ⟨σ, hσ.reachable (.init smallChannel_init), hs, hq, hl, Option.isNone_iff_eq_none.1 hx⟩

end Rpc

end VmwareProto
