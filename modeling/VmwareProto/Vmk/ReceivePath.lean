import VmwareProto.Vmk.Flow
/-!
# The receive path and its buffers

`rpc_chan_init` gives a channel at most `3 * nway` messages and more
payloads than that (`Ample`), so with no more payloads in use than messages a
payload is always to be had (`Flowing.dry`). The receive thread takes from the
reserve of the message pool. When it has to wait all messages are in use,
and the writers have left some of them to it; these are received, so they are
on the work list or with workers that put them.
-/

namespace VmwareProto

namespace Vmk

variable {G : Geometry} {σ σ' : Datapath} {x y : World} {h h₀ : Held} {m a : Addr}
  {pc' : Pc} {act : DataAction} {malloc : Option Addr} {r : Bool}

theorem Reserving.nodup {nbufs nmax : ℕ} {reserve : ℤ} {u : PoolUsers}
    (h : Reserving nbufs reserve nmax u) : (u.held.map Held.buf).Nodup := by
  obtain ⟨free, hk⟩ := h.kept
  exact hk.owns.nodup

theorem Reserving.length_le {nbufs nmax : ℕ} {reserve : ℤ} {u : PoolUsers}
    (h : Reserving nbufs reserve nmax u) : u.held.length ≤ nmax := by
  obtain ⟨free, hk⟩ := h.kept
  have := hk.length
  have := h.owned_le
  omega

/-- **The sizes `rpc_chan_init` means to set up**: both pools can grow, and
there are more payloads than messages. -/
structure Geometry.Ample (G : Geometry) : Prop where
  reserve_pos : 0 < G.reserve
  reserve_lt : G.reserve < 2 ^ 31
  nmsg_lt : G.nmsg < G.nmsgMax
  ndata_lt : G.ndata < G.ndataMax
  payloads : G.nmsgMax < G.ndataMax
  msgHeap : HeapFits G.nmsgMax
  dataHeap : HeapFits G.ndataMax

/-- The sums of the tests do not wrap. -/
theorem Geometry.Ample.sum_lt (h : G.Ample) : (G.nmsgMax : ℤ) + G.reserve < 2 ^ 64 := by
  have hheap := h.msgHeap
  have hlt := h.reserve_lt
  unfold HeapFits at hheap
  omega

theorem Geometry.Ample.sum_lt' (h : G.Ample) : (G.ndataMax : ℤ) + G.reserve < 2 ^ 64 := by
  have hheap := h.dataHeap
  have hlt := h.reserve_lt
  unfold HeapFits at hheap
  omega

/-- A world that does not wait for a payload buffer; in `rpc_msg_put` it has
something to put. -/
def Pc.Dry : Pc → Prop
  | getPload _ => False
  | recvWait _ => False
  | putting _ [] => False
  | _ => True

/-- **What holds of a channel in every run.** -/
structure Flowing (G : Geometry) (σ : Datapath) : Prop where
  msgs : Reserving G.nmsg G.reserve G.nmsgMax σ.msgs
  ploads : Reserving G.ndata G.reserve G.ndataMax σ.ploads
  placed : Placed σ
  loaded : Loaded σ
  matched : ∃ asked got matched, Matched σ asked got matched
  hands : ∀ x, (σ.pc x).mine.Nodup
  recv : ∀ x, (σ.pc x).ofRecv = true → x = 0
  /-- nobody waits for a payload buffer -/
  dry : ∀ x, (σ.pc x).Dry
  /-- while the receive thread sleeps a received message is to be put -/
  asleep : σ.pc 0 = .recvGet → σ.asleep 0 = true → σ.work ≠ [] ∨ ∃ x, (σ.pc x).busy = true

/-! ## One world moves on -/

/-- A world's step as seen by what does not read its hands. -/
structure Moves (σ σ' : Datapath) (x : World) (pc' : Pc) : Prop where
  pc : σ'.pc = Function.update σ.pc x pc'
  hands : pc'.mine.Nodup
  recv : pc'.ofRecv = true → x = 0
  dry : pc'.Dry
  asleep : x ≠ 0 → σ'.asleep 0 = true → σ.asleep 0 = true

namespace Flowing

theorem hands_of (h : Flowing G σ) (hmv : Moves σ σ' x pc') (y : World) :
    (σ'.pc y).mine.Nodup := by
  rw [hmv.pc]
  by_cases hyx : y = x
  · subst hyx
    rw [Function.update_self]
    exact hmv.hands
  · rw [Function.update_of_ne hyx]
    exact h.hands y

theorem recv_of (h : Flowing G σ) (hmv : Moves σ σ' x pc') (y : World)
    (hy : (σ'.pc y).ofRecv = true) : y = 0 := by
  rw [hmv.pc] at hy
  by_cases hyx : y = x
  · subst hyx
    rw [Function.update_self] at hy
    exact hmv.recv hy
  · rw [Function.update_of_ne hyx] at hy
    exact h.recv y hy

theorem dry_of (h : Flowing G σ) (hmv : Moves σ σ' x pc') (y : World) :
    (σ'.pc y).Dry := by
  rw [hmv.pc]
  by_cases hyx : y = x
  · subst hyx
    rw [Function.update_self]
    exact hmv.dry
  · rw [Function.update_of_ne hyx]
    exact h.dry y

theorem asleep_of (h : Flowing G σ) (hmv : Moves σ σ' x pc') (hne : pc' ≠ .recvGet)
    (hw : σ.work ≠ [] → σ'.work ≠ []) (hb : (σ.pc x).busy = true → pc'.busy = true)
    (h₀ : σ'.pc 0 = .recvGet) (hs : σ'.asleep 0 = true) :
    σ'.work ≠ [] ∨ ∃ y, (σ'.pc y).busy = true := by
  have hx : x ≠ 0 := fun e => by
    rw [hmv.pc, e, Function.update_self] at h₀
    exact hne h₀
  rw [hmv.pc, Function.update_of_ne hx.symm] at h₀
  refine (h.asleep h₀ (hmv.asleep hx hs)).imp hw fun ⟨y, hy⟩ => ⟨y, ?_⟩
  rw [hmv.pc]
  by_cases hyx : y = x
  · subst hyx
    rw [Function.update_self]
    exact hb hy
  · rw [Function.update_of_ne hyx]
    exact hy

end Flowing

/-- A world has one message more in its hands, or fewer. -/
theorem at_gain (hh : σ'.hash = σ.hash) (hw : σ'.work = σ.work)
    (hpc : σ'.pc = Function.update σ.pc x pc')
    (hmine : ∀ h, h ∈ pc'.mine ↔ h = h₀ ∨ h ∈ (σ.pc x).mine) (h : Held) (s : Site) :
    σ'.At h s ↔ h = h₀ ∧ s = .world x ∨ σ.At h s := by
  cases s with
  | hash => simp [Datapath.At, hh]
  | work => simp [Datapath.At, hw]
  | world y =>
      rw [at_world hpc, hmine]
      by_cases hy : y = x
      · subst hy
        simp [Datapath.At]
      · simp [hy]

theorem Placed.of_hash (hp : Placed σ) (hm : m ∈ σ.hash) : ⟨m, false⟩ ∈ σ.msgs.held :=
  (hp.held _).2 ⟨.hash, rfl, hm⟩

theorem Placed.of_mine (hp : Placed σ) (hm : h ∈ (σ.pc x).mine) : h ∈ σ.msgs.held :=
  (hp.held _).2 ⟨.world x, hm⟩

theorem Placed.of_unmatched (hp : Placed σ) (hm : σ.Unmatched m) : ⟨m, true⟩ ∈ σ.msgs.held := by
  rcases hm with hm | ⟨x, hx⟩
  · exact (hp.held _).2 ⟨.work, rfl, hm⟩
  · exact hp.of_mine (Pc.mine_of_unmatched hx)

/-- A world gives a message out of its hands. -/
theorem Placed.at_lose {τ : Datapath} (hp : Placed σ) (hpc : τ.pc = Function.update σ.pc x pc')
    (hin : h₀ ∈ (σ.pc x).mine) (hmine : ∀ h, h ∈ pc'.mine ↔ h ≠ h₀ ∧ h ∈ (σ.pc x).mine) (h : Held)
    (y : World) : τ.At h (.world y) ↔ h ≠ h₀ ∧ σ.At h (.world y) := by
  rw [at_world hpc, hmine]
  by_cases hy : y = x
  · subst hy
    simp [Datapath.At]
  · have hne : σ.At h (.world y) → h ≠ h₀ := fun hat e =>
      hy (Site.world.inj (hp.alone h₀ _ _ (e ▸ hat) hin))
    simpa [hy] using hne

/-- A message that no world had comes into a world's hands. -/
theorem at_take {τ : Datapath} (hpc : τ.pc = Function.update σ.pc x pc')
    (hno : ∀ y, ¬σ.At h₀ (.world y))
    (hmine : ∀ h, h ∈ pc'.mine ↔ h = h₀ ∨ h ∈ (σ.pc x).mine) (h : Held) (y : World) :
    τ.At h (.world y) ↔ h = h₀ ∧ y = x ∨ h ≠ h₀ ∧ σ.At h (.world y) := by
  rw [at_world hpc, hmine]
  have hne : σ.At h (.world y) → h ≠ h₀ := fun hat e => hno y (e ▸ hat)
  by_cases hy : y = x
  · subst hy
    constructor
    · rintro (⟨-, hh | hh⟩ | ⟨hn, -⟩)
      · exact .inl ⟨hh, rfl⟩
      · exact .inr ⟨hne hh, hh⟩
      · exact absurd rfl hn
    · rintro (⟨hh, -⟩ | ⟨-, hh⟩)
      · exact .inl ⟨rfl, .inl hh⟩
      · exact .inl ⟨rfl, .inr hh⟩
  · simpa [hy] using hne

/-- The payload of a message in a world's hands is there, unless that world
has put it. -/
theorem Placed.not_loose (hp : Placed σ) (hin : h ∈ (σ.pc x).mine) (hne : (σ.pc x).loose ≠ some h) :
    ¬σ.Loose h := by
  rintro ⟨y, hy⟩
  have := Site.world.inj (hp.alone h (.world y) (.world x) (Pc.mine_of_loose hy) hin)
  exact hne (this ▸ hy)

/-- A world with no message in its hands. -/
structure Pc.Free (pc : Pc) : Prop where
  mine : pc.mine = []
  loose : pc.loose = none
  unmatched : pc.unmatched = none
  busy : pc.busy = false

namespace Flowing

/-! ## Getting a message -/

/-- A world has a new message. -/
theorem gotMsg (h : Flowing G σ) {u : PoolUsers} {q k : ℕ} (hfree : (σ.pc x).Free)
    (hu : Reserving G.nmsg G.reserve G.nmsgMax u)
    (hnew : a ∉ σ.msgs.held.map Held.buf) (hheld : u.held = ⟨a, r⟩ :: σ.msgs.held)
    (hmine : pc'.mine = [⟨a, r⟩]) (hbare : pc'.bare = some a) (hloose : pc'.loose = none)
    (hun : pc'.unmatched = none) (hrecv : pc'.ofRecv = true → x = 0) :
    Flowing G { σ with
      msgs := u, payload := Function.update σ.payload a none
      seqid := Function.update σ.seqid a q, nextSeq := k
      pc := Function.update σ.pc x pc' } := by
  have hnot : ⟨a, r⟩ ∉ σ.msgs.held := fun hm => hnew (List.mem_map_of_mem hm)
  have hdry : pc'.Dry := by
    cases pc' <;> cases hbare <;> trivial
  have hmv : Moves σ { σ with
      msgs := u, payload := Function.update σ.payload a none
      seqid := Function.update σ.seqid a q, nextSeq := k
      pc := Function.update σ.pc x pc' } x pc' :=
    ⟨rfl, by rw [hmine]; exact List.nodup_singleton _, hrecv, hdry, fun _ => id⟩
  obtain ⟨asked, got, matched, hma⟩ := h.matched
  refine ⟨hu, h.ploads, ?_, ?_, ⟨asked, got, matched, ?_⟩, h.hands_of hmv, h.recv_of hmv, h.dry_of hmv,
    h.asleep_of hmv (by rintro rfl; cases hbare) id (by simp [hfree.busy])⟩
  · refine h.placed.enter hnot (fun b => ?_) (at_gain rfl rfl rfl fun b => ?_) h.placed.hash h.placed.work
    · simp only [hheld, List.mem_cons]
    · rw [hmine, hfree.mine]
      simp
  · refine h.loaded.enter hnew hheld rfl rfl (loose_update (by rw [hloose, hfree.loose]) rfl)
      fun y m hy => ?_
    simp only at hy
    by_cases hyx : y = x
    · rw [hyx, Function.update_self, hbare] at hy
      exact .inl (Option.some.inj hy).symm
    · rw [Function.update_of_ne hyx] at hy
      exact .inr hy
  · refine hma.congr rfl (unmatched_update rfl (by rw [hun, hfree.unmatched]) rfl) (fun m hm => ?_)
      (.refl _)
    refine Function.update_of_ne (fun e => hnew ?_) ..
    rcases hm with hm | hm
    · exact e ▸ List.mem_map_of_mem (h.placed.of_hash hm)
    · exact e ▸ List.mem_map_of_mem (h.placed.of_unmatched hm)

/-- A step of one world that changes neither its hands nor the pools. -/
theorem quiet (h : Flowing G σ) (hmv : Moves σ σ' x pc')
    (hmsgs : σ'.msgs.held = σ.msgs.held) (hres : Reserving G.nmsg G.reserve G.nmsgMax σ'.msgs)
    (hpl : σ'.ploads = σ.ploads) (hh : σ'.hash = σ.hash) (hw : σ'.work = σ.work)
    (hpay : σ'.payload = σ.payload) (hseq : σ'.seqid = σ.seqid) (hout : σ'.outstanding = σ.outstanding)
    (hans : σ'.answers = σ.answers) (hmine : pc'.mine = (σ.pc x).mine)
    (hloose : pc'.loose = (σ.pc x).loose) (hun : pc'.unmatched = (σ.pc x).unmatched)
    (hbare : pc'.bare = none)
    (has : σ'.pc 0 = .recvGet → σ'.asleep 0 = true → σ'.work ≠ [] ∨ ∃ y, (σ'.pc y).busy = true) :
    Flowing G σ' := by
  obtain ⟨asked, got, matched, hma⟩ := h.matched
  refine ⟨hres, by rw [hpl]; exact h.ploads, ?_, ?_, ⟨asked, got, matched, ?_⟩, h.hands_of hmv, h.recv_of hmv,
    h.dry_of hmv, has⟩
  · exact h.placed.congr hmsgs hh hw fun y => by rw [hmv.pc]; exact mine_update hmine y
  · refine h.loaded.congr hmsgs (by rw [hpl]) (fun k _ _ => by rw [hpay]) (loose_update hloose hmv.pc)
      fun y m hy => ?_
    rw [hpay]
    exact h.loaded.bare y m (bare_update hbare hmv.pc hy).2
  · exact hma.congr hh (unmatched_update hw hun hmv.pc) (fun m _ => by rw [hseq]) (by rw [hout, hans])

/-- With all its messages in use the pool has given some of them to the
receive thread, and they are no longer with it. -/
theorem received (h : Flowing G σ) (hG : G.Ample)
    (hall : σ.msgs.held.length = G.nmsgMax) (hfree : (σ.pc 0).Free) :
    σ.work ≠ [] ∨ ∃ y, y ≠ 0 ∧ (σ.pc y).busy = true := by
  have hnorm := h.msgs.normal
  have hsum := σ.msgs.normal_add_reserved
  have hlt := hG.nmsg_lt
  have hres := hG.reserve_pos
  have hpos : 0 < σ.msgs.reserved := by omega
  obtain ⟨k, hk, hkr⟩ := List.countP_pos_iff.1 hpos
  obtain ⟨s, hs⟩ := (h.placed.held k).1 hk
  cases s with
  | hash =>
      rw [hs.1] at hkr
      cases hkr
  | work => exact .inl (List.ne_nil_of_mem hs.2)
  | world y =>
      have hy : y ≠ 0 := fun e => by
        have hs : k ∈ (σ.pc y).mine := hs
        rw [e, hfree.mine] at hs
        cases hs
      exact .inr ⟨y, hy, (Pc.busy_of_mine hs hkr).resolve_left fun e => hy (h.recv y e)⟩

/-- World `x` is done with a stretch of `_bufpool_get` of the message pool. -/
theorem settleMsg (h : Flowing G σ) {e : Pool × Pool.GetOutcome} (hG : G.Ample)
    (hfree : (σ.pc x).Free) (hx : r = true → x = 0)
    (hres : Reserving G.nmsg G.reserve G.nmsgMax (σ.msgs.settle x r e))
    (hs : Stretch σ.msgs r false malloc e ∨ ¬σ.msgs.pool.MayRetry r ∧ e = (σ.msgs.pool, .waits))
    (hm : malloc = none → σ.msgs.pool.nmax ≤ σ.msgs.pool.owned) :
    Flowing G (σ.settleMsg x r e) := by
  have hgot : ∀ p a, e = (p, .got a) → a ∉ σ.msgs.held.map Held.buf →
      Flowing G (σ.settleMsg x r e) := by
    rintro p a rfl hnew
    cases r with
    | true =>
        exact h.gotMsg (k := σ.nextSeq) hfree hres hnew rfl rfl rfl rfl rfl fun _ => hx rfl
    | false => exact h.gotMsg hfree hres hnew rfl rfl rfl rfl rfl fun e => by cases e
  have hwait : ∀ p, e = (p, .waits) →
      (r = true → σ.msgs.held.length = G.nmsgMax) → Flowing G (σ.settleMsg x r e) := by
    rintro p rfl hfull
    cases r with
    | false =>
        have hmv : Moves σ (σ.settleMsg x false (p, .waits)) x .getMsg := by
          refine ⟨rfl, .nil, by simp [Pc.ofRecv], trivial, fun hne e => ?_⟩
          have e : Function.update σ.asleep x true 0 = true := e
          rwa [Function.update_of_ne hne.symm] at e
        exact h.quiet hmv rfl hres rfl rfl rfl rfl rfl rfl rfl hfree.mine.symm hfree.loose.symm
          hfree.unmatched.symm rfl
          (h.asleep_of hmv (by simp) id (by simp [hfree.busy]))
    | true =>
        obtain rfl := hx rfl
        have hmv : Moves σ (σ.settleMsg 0 true (p, .waits)) 0 .recvGet :=
          ⟨rfl, .nil, fun _ => rfl, trivial, fun hne => absurd rfl hne⟩
        refine h.quiet hmv rfl hres rfl rfl rfl rfl rfl rfl rfl hfree.mine.symm hfree.loose.symm
          hfree.unmatched.symm rfl fun _ _ => ?_
        refine (h.received hG (hfull rfl) hfree).imp id fun ⟨y, hy, hb⟩ => ⟨y, ?_⟩
        rw [hmv.pc, Function.update_of_ne hy]
        exact hb
  have hfull : ∀ p, e = (p, .waits) → r = true → σ.msgs.held.length = G.nmsgMax := by
    rintro p rfl rfl
    exact h.msgs.full hG.reserve_pos hG.nmsg_lt hs (fun a => by simp) hm
  rcases hs with hs | ⟨-, he⟩
  · cases hs with
    | @free p a hnew _ _ _ => exact hgot p a rfl hnew
    | @grown p a hnew _ _ _ => exact hgot p a rfl hnew
    | none _ _ => exact hwait _ rfl (hfull _ rfl)
  · exact hwait _ he (hfull _ he)

/-! ## Getting a payload -/

/-- World `x` is done with a stretch of `_bufpool_get` of the payload pool:
it has a buffer. -/
theorem settlePload (h : Flowing G σ) {e : Pool × Pool.GetOutcome} {waits : Pc}
    (hG : G.Ample) (hbare : (σ.pc x).bare = some m) (hloose : (σ.pc x).loose = none)
    (hbusy : (σ.pc x).busy = false) (hmine : pc'.mine = (σ.pc x).mine) (hbare' : pc'.bare = none)
    (hloose' : pc'.loose = none) (hun : pc'.unmatched = (σ.pc x).unmatched)
    (hrecv : pc'.ofRecv = true → x = 0) (hdry : pc'.Dry)
    (hnr : pc' ≠ .recvGet)
    (hres : Reserving G.ndata G.reserve G.ndataMax
      (σ.ploads.settle x true e))
    (hs : Stretch σ.ploads true false malloc e)
    (hm : malloc = none → σ.ploads.pool.nmax ≤ σ.ploads.pool.owned) :
    Flowing G (σ.settlePload x m waits pc' e) := by
  have hlen : σ.ploads.held.length < G.ndataMax := by
    have := h.loaded.length_le h.ploads.nodup
    have := h.msgs.length_le
    have := hG.payloads
    omega
  have hgot : ∀ p a, e = (p, .got a) → a ∉ σ.ploads.held.map Held.buf →
      Flowing G (σ.settlePload x m waits pc' e) := by
    rintro p a rfl hnew
    obtain ⟨r, hr'⟩ := Pc.mine_of_bare hbare
    have hin : ⟨m, r⟩ ∈ (σ.pc x).mine := by
      rw [hr']
      exact List.mem_singleton_self _
    have hheld := h.placed.of_mine hin
    have hmv : Moves σ (σ.settlePload x m waits pc' (p, .got a)) x pc' :=
      ⟨rfl, by rw [hmine]; exact h.hands x, hrecv, hdry, fun _ => id⟩
    obtain ⟨asked, got, matched, hma⟩ := h.matched
    refine ⟨h.msgs, hres, h.placed.congr rfl rfl rfl (mine_update hmine), ?_,
      ⟨asked, got, matched, hma.congr rfl (unmatched_update rfl hun rfl) (fun _ _ => rfl) (.refl _)⟩,
      h.hands_of hmv, h.recv_of hmv, h.dry_of hmv, h.asleep_of hmv hnr id (by simp [hbusy])⟩
    refine h.loaded.load h.msgs.nodup hheld
      (h.placed.not_loose hin (by simp [hloose])) (h.loaded.bare x m hbare) hnew rfl rfl rfl
      (loose_update (by rw [hloose', hloose]) rfl) fun y k hy => ?_
    obtain ⟨hyx, hy⟩ := bare_update hbare' rfl hy
    refine ⟨fun e => ?_, hy⟩
    obtain ⟨r', hk⟩ := Pc.mine_of_bare hy
    have hin' : ⟨k, r'⟩ ∈ (σ.pc y).mine := by
      rw [hk]
      exact List.mem_singleton_self _
    have heq := List.inj_on_of_nodup_map h.msgs.nodup (h.placed.of_mine hin') hheld e
    rw [heq] at hin'
    exact hyx (Site.world.inj (h.placed.alone _ (.world y) (.world x) hin' hin))
  cases hs with
  | @free p a hnew _ _ _ => exact hgot p a rfl hnew
  | @grown p a hnew _ _ _ => exact hgot p a rfl hnew
  | none hall hnone =>
      have hfull := h.ploads.full (e := σ.ploads.pool.giveUp false) hG.reserve_pos
        hG.ndata_lt (.inl (.none hall hnone)) (fun a => by simp [Pool.giveUp]) hm
      omega

/-! ## Requests and responses -/

/-- `rpc_async_request`. -/
theorem request (h : Flowing G σ) (hpc : (σ.pc x).mine = [⟨m, false⟩])
    (hloose : (σ.pc x).loose = none) (hun : (σ.pc x).unmatched = none)
    (hbusy : (σ.pc x).busy = false) :
    Flowing G { σ with
      hash := m :: σ.hash, outstanding := σ.outstanding ++ [σ.seqid m]
      pc := Function.update σ.pc x .idle } := by
  have hin : ⟨m, false⟩ ∈ (σ.pc x).mine := by
    rw [hpc]
    exact List.mem_singleton_self _
  have hnot : m ∉ σ.hash := fun hm => by
    have := h.placed.alone ⟨m, false⟩ .hash (.world x) ⟨rfl, hm⟩ hin
    cases this
  have hmv : Moves σ { σ with
      hash := m :: σ.hash, outstanding := σ.outstanding ++ [σ.seqid m]
      pc := Function.update σ.pc x .idle } x .idle :=
    ⟨rfl, .nil, by simp [Pc.ofRecv], trivial, fun _ => id⟩
  obtain ⟨asked, got, matched, hma⟩ := h.matched
  refine ⟨h.msgs, h.ploads, ?_, ?_, ⟨asked ++ [σ.seqid m], got, matched, ?_, ?_, ?_⟩,
    h.hands_of hmv, h.recv_of hmv, h.dry_of hmv, h.asleep_of hmv (by simp) id (by simp [hbusy])⟩
  · have hat : σ.At ⟨m, false⟩ (.world x) := hin
    refine h.placed.move (t := .hash) hat rfl (fun b s => ?_)
      (List.nodup_cons.2 ⟨hnot, h.placed.hash⟩) h.placed.work
    cases s with
    | hash =>
        constructor
        · rintro ⟨hb, hbm⟩
          by_cases he : b = ⟨m, false⟩
          · exact .inl ⟨he, rfl⟩
          · refine .inr ⟨he, hb, (List.mem_cons.1 hbm).resolve_left fun e => he ?_⟩
            rw [← e, ← hb]
        · rintro (⟨rfl, -⟩ | ⟨-, hb, hbm⟩)
          · exact ⟨rfl, List.mem_cons_self⟩
          · exact ⟨hb, List.mem_cons_of_mem _ hbm⟩
    | work =>
        constructor
        · rintro ⟨hb, hbm⟩
          refine .inr ⟨fun e => ?_, hb, hbm⟩
          rw [e] at hb
          cases hb
        · rintro (⟨-, hs⟩ | ⟨-, hb⟩)
          · cases hs
          · exact hb
    | world y =>
        rw [h.placed.at_lose (τ := { σ with
          hash := m :: σ.hash, outstanding := σ.outstanding ++ [σ.seqid m]
          pc := Function.update σ.pc x .idle }) rfl hin (fun b => by rw [hpc]; simp [Pc.mine]) b y]
        simp
  · exact h.loaded.congr rfl rfl (fun _ _ _ => rfl) (loose_update (by rw [hloose]; rfl) rfl)
      fun y k hy => h.loaded.bare y k (bare_update rfl rfl hy).2
  · exact hma.hashed.enter hnot (fun _ => List.mem_cons) (fun _ _ => rfl) rfl
  · exact hma.received.congr (unmatched_update rfl (by rw [hun]; rfl) rfl) fun _ _ => rfl
  · simp only
    refine (hma.flight.append_right [σ.seqid m]).trans ?_
    simp only [List.append_assoc]
    refine List.Perm.append_left _ ?_
    rw [← List.append_assoc]
    exact List.perm_append_comm

/-- The peer answers a request. -/
theorem answer (h : Flowing G σ) {q : ℕ} {b : Bool} (hq : q ∈ σ.outstanding) :
    Flowing G { σ with
      outstanding := σ.outstanding.erase q, answers := σ.answers ++ [(q, b)] } := by
  obtain ⟨asked, got, matched, hma⟩ := h.matched
  refine ⟨h.msgs, h.ploads, h.placed.congr rfl rfl rfl fun _ => rfl,
    h.loaded.congr rfl rfl (fun _ _ _ => rfl) (fun _ => Iff.rfl) h.loaded.bare,
    ⟨asked, got, matched, hma.congr rfl (fun _ => Iff.rfl) (fun _ _ => rfl) ?_⟩, h.hands, h.recv, h.dry, h.asleep⟩
  simp only [List.map_append, List.map_singleton]
  rw [← List.append_assoc]
  exact (List.perm_append_singleton q _).trans ((List.perm_cons_erase hq).symm.append_right _)

/-- `_rpc_recv` reads a header. -/
theorem recvHdr (h : Flowing G σ) {q : ℕ} {b : Bool} {answers : List (ℕ × Bool)}
    (hpc : σ.pc 0 = .recvHdr m) (hans : σ.answers = (q, b) :: answers) :
    Flowing G { σ with
      answers := answers, seqid := Function.update σ.seqid m q
      pc := Function.update σ.pc 0 (if b = true then .recvPload m else .recvDone m) } := by
  have hin : ⟨m, true⟩ ∈ (σ.pc 0).mine := by
    rw [hpc]
    exact List.mem_singleton_self _
  have hheld := h.placed.of_mine hin
  have hne : ∀ k r, ⟨k, r⟩ ∈ σ.msgs.held → k = m → (⟨k, r⟩ : Held) = ⟨m, true⟩ := fun k r hk e =>
    List.inj_on_of_nodup_map h.msgs.nodup hk hheld e
  have hnh : m ∉ σ.hash := fun hm => by
    cases h.placed.alone _ .hash (.world 0) ⟨rfl, hm⟩ ((hne m false (h.placed.of_hash hm) rfl) ▸ hin)
  have hnu : ¬σ.Unmatched m := by
    rintro (hm | ⟨y, hy⟩)
    · cases h.placed.alone _ .work (.world 0) ⟨rfl, hm⟩ hin
    · obtain rfl := Site.world.inj (h.placed.alone _ (.world y) (.world 0) (Pc.mine_of_unmatched hy) hin)
      rw [hpc] at hy
      cases hy
  have hnext : ∀ pc', (pc' = .recvPload m ∨ pc' = .recvDone m) → Flowing G { σ with
      answers := answers, seqid := Function.update σ.seqid m q
      pc := Function.update σ.pc 0 pc' } := by
    intro pc' hpc'
    have hmine : pc'.mine = (σ.pc 0).mine := by rcases hpc' with rfl | rfl <;> rw [hpc] <;> rfl
    have hmv : Moves σ { σ with
        answers := answers, seqid := Function.update σ.seqid m q
        pc := Function.update σ.pc 0 pc' } 0 pc' :=
      ⟨rfl, by rw [hmine]; exact h.hands 0, fun _ => rfl,
        by rcases hpc' with rfl | rfl <;> trivial, fun _ => id⟩
    have hloose : pc'.loose = (σ.pc 0).loose := by rcases hpc' with rfl | rfl <;> rw [hpc] <;> rfl
    have hun : pc'.unmatched = some m := by rcases hpc' with rfl | rfl <;> rfl
    obtain ⟨asked, got, matched, hma⟩ := h.matched
    refine ⟨h.msgs, h.ploads, h.placed.congr rfl rfl rfl (mine_update hmine), ?_,
      ⟨asked, got ++ [q], matched, ?_, ?_, ?_⟩, h.hands_of hmv, h.recv_of hmv, h.dry_of hmv,
      h.asleep_of hmv (by rcases hpc' with rfl | rfl <;> simp) id (by simp [hpc, Pc.busy])⟩
    · refine h.loaded.congr rfl rfl (fun _ _ _ => rfl) (loose_update hloose rfl) fun y k hy => ?_
      simp only at hy ⊢
      by_cases hy0 : y = 0
      · rw [hy0, Function.update_self] at hy
        have hk : k = m := by
          rcases hpc' with rfl | rfl
          · exact (Option.some.inj hy).symm
          · cases hy
        exact h.loaded.bare 0 k (by rw [hpc, hk]; rfl)
      · rw [Function.update_of_ne hy0] at hy
        exact h.loaded.bare y k hy
    · refine hma.hashed.congr (fun _ => Iff.rfl) fun k hk => Function.update_of_ne ?_ ..
      rintro rfl
      exact hnh hk
    · refine hma.received.enter hnu (fun k => ?_) (fun k hk => Function.update_of_ne ?_ ..)
        (Function.update_self ..)
      · simp only [Datapath.Unmatched]
        constructor
        · rintro (hk | ⟨y, hy⟩)
          · exact .inr (.inl hk)
          · by_cases hy0 : y = 0
            · rw [hy0, Function.update_self, hun] at hy
              exact .inl (Option.some.inj hy).symm
            · rw [Function.update_of_ne hy0] at hy
              exact .inr (.inr ⟨y, hy⟩)
        · rintro (rfl | hk | ⟨y, hy⟩)
          · exact .inr ⟨0, by rw [Function.update_self, hun]⟩
          · exact .inl hk
          · refine .inr ⟨y, ?_⟩
            rw [Function.update_of_ne, hy]
            rintro rfl
            rw [hpc] at hy
            cases hy
      · rintro rfl
        exact hnu hk
    · have hf := hma.flight
      rw [hans, List.map_cons] at hf
      simp only
      refine hf.trans ?_
      rw [List.append_assoc, List.append_assoc, List.cons_append, ← List.append_assoc _ got]
      exact (List.perm_append_singleton q _).symm.append_left _
  cases b with
  | true => exact hnext _ (.inl rfl)
  | false => exact hnext _ (.inr rfl)

/-- The receive thread links its message to the work list. -/
theorem schedule (h : Flowing G σ) (hpc : σ.pc 0 = .recvDone m) :
    Flowing G { σ with
      work := σ.work ++ [m], pc := Function.update σ.pc 0 .recvTop } := by
  have hat : σ.At ⟨m, true⟩ (.world 0) := by
    simp [Datapath.At, hpc, Pc.mine]
  have hnot : m ∉ σ.work := fun hm => by
    cases h.placed.alone ⟨m, true⟩ .work (.world 0) ⟨rfl, hm⟩ hat
  have hmv : Moves σ { σ with
      work := σ.work ++ [m], pc := Function.update σ.pc 0 .recvTop } 0 .recvTop :=
    ⟨rfl, .nil, fun _ => rfl, trivial, fun _ => id⟩
  obtain ⟨asked, got, matched, hma⟩ := h.matched
  refine ⟨h.msgs, h.ploads, ?_, ?_,
    ⟨asked, got, matched, hma.congr rfl (fun k => ?_) (fun _ _ => rfl) (.refl _)⟩,
    h.hands_of hmv, h.recv_of hmv, h.dry_of hmv, h.asleep_of hmv (by simp) (fun _ => by simp) (by simp [hpc, Pc.busy])⟩
  · refine h.placed.move (t := .work) hat rfl (fun b s => ?_) h.placed.hash
      (List.nodup_append.2 ⟨h.placed.work, List.nodup_singleton m, fun k hk j hj e => ?_⟩)
    · cases s with
      | hash =>
          constructor
          · rintro ⟨hb, hbm⟩
            refine .inr ⟨fun e => ?_, hb, hbm⟩
            rw [e] at hb
            cases hb
          · rintro (⟨-, hs⟩ | ⟨-, hb⟩)
            · cases hs
            · exact hb
      | work =>
          constructor
          · rintro ⟨hb, hbm⟩
            by_cases he : b = ⟨m, true⟩
            · exact .inl ⟨he, rfl⟩
            · refine .inr ⟨he, hb, (List.mem_append.1 hbm).resolve_right fun e => he ?_⟩
              rw [← List.mem_singleton.1 e, ← hb]
          · rintro (⟨rfl, -⟩ | ⟨-, hb, hbm⟩)
            · exact ⟨rfl, List.mem_append_right _ (List.mem_singleton_self m)⟩
            · exact ⟨hb, List.mem_append_left _ hbm⟩
      | world y =>
          rw [h.placed.at_lose (τ := { σ with
            work := σ.work ++ [m], pc := Function.update σ.pc 0 .recvTop }) rfl hat
            (fun b => by rw [hpc]; simp [Pc.mine]) b y]
          simp
    · rw [List.mem_singleton.1 hj] at e
      exact hnot (e ▸ hk)
  · exact h.loaded.congr rfl rfl (fun _ _ _ => rfl) (loose_update (by rw [hpc]; rfl) rfl)
      fun y k hy => h.loaded.bare y k (bare_update rfl rfl hy).2
  · simp only [Datapath.Unmatched, List.mem_append, List.mem_singleton]
    constructor
    · rintro ((hk | rfl) | ⟨y, hy⟩)
      · exact .inl hk
      · exact .inr ⟨0, by rw [hpc]; rfl⟩
      · by_cases hy0 : y = 0
        · rw [hy0, Function.update_self] at hy
          cases hy
        · rw [Function.update_of_ne hy0] at hy
          exact .inr ⟨y, hy⟩
    · rintro (hk | ⟨y, hy⟩)
      · exact .inl (.inl hk)
      · by_cases hy0 : y = 0
        · rw [hy0, hpc] at hy
          exact .inl (.inr (Option.some.inj hy).symm)
        · exact .inr ⟨y, by rw [Function.update_of_ne hy0]; exact hy⟩

/-- A worker takes a message off the work list. -/
theorem take (h : Flowing G σ) {work : List Addr} (hpc : σ.pc x = .workTop)
    (hwork : σ.work = m :: work) :
    Flowing G { σ with work := work, pc := Function.update σ.pc x (.handling m) } := by
  have hat : σ.At ⟨m, true⟩ .work := ⟨rfl, by rw [hwork]; exact List.mem_cons_self⟩
  have hnd := h.placed.work
  rw [hwork, List.nodup_cons] at hnd
  have hmv : Moves σ { σ with work := work, pc := Function.update σ.pc x (.handling m) } x
      (.handling m) :=
    ⟨rfl, List.nodup_singleton _, by simp [Pc.ofRecv], trivial, fun _ => id⟩
  obtain ⟨asked, got, matched, hma⟩ := h.matched
  refine ⟨h.msgs, h.ploads, ?_, ?_,
    ⟨asked, got, matched, hma.congr rfl (fun k => ?_) (fun _ _ => rfl) (.refl _)⟩,
    h.hands_of hmv, h.recv_of hmv, h.dry_of hmv,
    fun _ _ => .inr ⟨x, by simp [Pc.busy]⟩⟩
  · refine h.placed.move (t := .world x) hat rfl (fun b s => ?_) h.placed.hash hnd.2
    cases s with
    | hash =>
        constructor
        · rintro ⟨hb, hbm⟩
          refine .inr ⟨fun e => ?_, hb, hbm⟩
          rw [e] at hb
          cases hb
        · rintro (⟨-, hs⟩ | ⟨-, hb⟩)
          · cases hs
          · exact hb
    | work =>
        constructor
        · rintro ⟨hb, hbm⟩
          refine .inr ⟨fun e => ?_, hb, by rw [hwork]; exact List.mem_cons_of_mem _ hbm⟩
          rw [e] at hbm
          exact hnd.1 hbm
        · rintro (⟨-, hs⟩ | ⟨hne, hb, hbm⟩)
          · cases hs
          · rw [hwork] at hbm
            refine ⟨hb, (List.mem_cons.1 hbm).resolve_left fun e => hne ?_⟩
            rw [← e, ← hb]
    | world y =>
        have hno : ∀ y, ¬σ.At ⟨m, true⟩ (.world y) := fun y hy => by
          cases h.placed.alone _ .work (.world y) hat hy
        rw [at_take (τ := { σ with work := work, pc := Function.update σ.pc x (.handling m) }) rfl
          hno (fun b => by rw [hpc]; simp [Pc.mine]) b y]
        simp
  · exact h.loaded.congr rfl rfl (fun _ _ _ => rfl) (loose_update (by rw [hpc]; rfl) rfl)
      fun y k hy => h.loaded.bare y k (bare_update rfl rfl hy).2
  · simp only [Datapath.Unmatched, hwork, List.mem_cons]
    constructor
    · rintro (hk | ⟨y, hy⟩)
      · exact .inl (.inr hk)
      · by_cases hyx : y = x
        · rw [hyx, Function.update_self] at hy
          exact .inl (.inl (Option.some.inj hy).symm)
        · rw [Function.update_of_ne hyx] at hy
          exact .inr ⟨y, hy⟩
    · rintro ((rfl | hk) | ⟨y, hy⟩)
      · exact .inr ⟨x, by rw [Function.update_self]; rfl⟩
      · exact .inl hk
      · refine .inr ⟨y, ?_⟩
        rw [Function.update_of_ne, hy]
        rintro rfl
        rw [hpc] at hy
        cases hy

/-- A response meets its request. -/
theorem handle (h : Flowing G σ) (hpc : σ.pc x = .handling m) {req : Addr}
    (hreq : req ∈ σ.hash) (hseq : σ.seqid req = σ.seqid m) :
    Flowing G { σ with
      hash := σ.hash.erase req
      pc := Function.update σ.pc x (.putting .payload [⟨m, true⟩, ⟨req, false⟩]) } := by
  have hat : σ.At ⟨req, false⟩ .hash := ⟨rfl, hreq⟩
  have hin : ⟨m, true⟩ ∈ (σ.pc x).mine := by
    rw [hpc]
    exact List.mem_singleton_self _
  have hun : σ.Unmatched m := .inr ⟨x, by rw [hpc]; rfl⟩
  have hmv : Moves σ { σ with
      hash := σ.hash.erase req
      pc := Function.update σ.pc x (.putting .payload [⟨m, true⟩, ⟨req, false⟩]) } x
      (.putting .payload [⟨m, true⟩, ⟨req, false⟩]) :=
    ⟨rfl, by simp [Pc.mine], by simp [Pc.ofRecv], trivial, fun _ => id⟩
  obtain ⟨asked, got, matched, hma⟩ := h.matched
  refine ⟨h.msgs, h.ploads, ?_, ?_, ⟨asked, got, matched ++ [σ.seqid m], ?_, ?_, hma.flight⟩,
    h.hands_of hmv, h.recv_of hmv, h.dry_of hmv, h.asleep_of hmv (by simp) id fun _ => by simp [Pc.busy]⟩
  · refine h.placed.move (t := .world x) hat rfl (fun b s => ?_) (h.placed.hash.erase req) h.placed.work
    cases s with
    | hash =>
        constructor
        · rintro ⟨hb, hbm⟩
          obtain ⟨hne, hbm⟩ := h.placed.hash.mem_erase_iff.1 hbm
          exact .inr ⟨fun e => hne (by rw [e]), hb, hbm⟩
        · rintro (⟨-, hs⟩ | ⟨hne, hb, hbm⟩)
          · cases hs
          · refine ⟨hb, h.placed.hash.mem_erase_iff.2 ⟨fun e => hne ?_, hbm⟩⟩
            rw [← e, ← hb]
    | work =>
        constructor
        · rintro ⟨hb, hbm⟩
          refine .inr ⟨fun e => ?_, hb, hbm⟩
          rw [e] at hb
          cases hb
        · rintro (⟨-, hs⟩ | ⟨-, hb⟩)
          · cases hs
          · exact hb
    | world y =>
        have hno : ∀ y, ¬σ.At ⟨req, false⟩ (.world y) := fun y hy => by
          cases h.placed.alone _ .hash (.world y) hat hy
        rw [at_take (τ := { σ with
          hash := σ.hash.erase req
          pc := Function.update σ.pc x (.putting .payload [⟨m, true⟩, ⟨req, false⟩]) }) rfl
          hno (fun b => by rw [hpc]; simp [Pc.mine, or_comm]) b y]
        simp
  · exact h.loaded.congr rfl rfl (fun _ _ _ => rfl) (loose_update (by rw [hpc]; rfl) rfl)
      fun y k hy => h.loaded.bare y k (bare_update rfl rfl hy).2
  · exact hma.hashed.leave hreq (fun k => h.placed.hash.mem_erase_iff) (fun _ _ _ => rfl) hseq
  · refine hma.received.leave hun (fun k => ?_) (fun _ _ _ => rfl) rfl
    have halone : ∀ y, (σ.pc y).unmatched = some m → y = x := fun y hy =>
      Site.world.inj (h.placed.alone _ (.world y) (.world x) (Pc.mine_of_unmatched hy) hin)
    have hnw : m ∉ σ.work := fun hm => by
      cases h.placed.alone ⟨m, true⟩ .work (.world x) ⟨rfl, hm⟩ hin
    simp only [Datapath.Unmatched]
    constructor
    · rintro (hk | ⟨y, hy⟩)
      · exact ⟨fun e => hnw (e ▸ hk), .inl hk⟩
      · by_cases hyx : y = x
        · rw [hyx, Function.update_self] at hy
          cases hy
        · rw [Function.update_of_ne hyx] at hy
          exact ⟨fun e => hyx (halone y (e ▸ hy)), .inr ⟨y, hy⟩⟩
    · rintro ⟨hne, hk | ⟨y, hy⟩⟩
      · exact .inl hk
      · refine .inr ⟨y, ?_⟩
        rw [Function.update_of_ne, hy]
        rintro rfl
        rw [hpc] at hy
        exact hne (Option.some.inj hy).symm

/-! ## Putting messages -/

/-- `rpc_msg_put` gives the payload of a message back. -/
theorem putPayload (h : Flowing G σ) {ms : List Held}
    (hpc : σ.pc x = .putting .payload (h₀ :: ms)) :
    ∃ σ', σ.putStep x .payload (h₀ :: ms) = some σ' ∧ Flowing G σ' := by
  have hin : h₀ ∈ (σ.pc x).mine := by
    rw [hpc]
    exact List.mem_cons_self
  have hheld := h.placed.of_mine hin
  have hnl : ¬σ.Loose h₀ := h.placed.not_loose hin (by rw [hpc]; simp [Pc.loose])
  obtain ⟨u, hu, hres, hmem⟩ : ∃ u, σ.payloadPut h₀.buf = some u ∧
      Reserving G.ndata G.reserve G.ndataMax u ∧
      ∀ b, b ∈ u.held ↔ b ∈ σ.ploads.held ∧ σ.payload h₀.buf ≠ some b.buf := by
    unfold Datapath.payloadPut
    cases hp : σ.payload h₀.buf with
    | none => exact ⟨_, rfl, h.ploads, by simp⟩
    | some a =>
        have ha := h.loaded.mine h₀ hheld hnl a hp
        obtain ⟨u, hput, hres, hu⟩ := h.ploads.put ha
        refine ⟨u, hput, hres, fun b => ?_⟩
        rw [hu, (List.Nodup.of_map _ h.ploads.nodup).mem_erase_iff, and_comm]
        refine and_congr_right fun hb => not_congr ⟨fun e => by rw [e], fun e => ?_⟩
        exact List.inj_on_of_nodup_map h.ploads.nodup hb ha (Option.some.inj e).symm
  refine ⟨{ σ with
    ploads := u
    payload := if ms = [] then Function.update σ.payload h₀.buf none else σ.payload
    pc := Function.update σ.pc x (.putting .message (h₀ :: ms)) },
    by simp [Datapath.putStep, hu], ?_⟩
  have hmv : Moves σ { σ with
      ploads := u
      payload := if ms = [] then Function.update σ.payload h₀.buf none else σ.payload
      pc := Function.update σ.pc x (.putting .message (h₀ :: ms)) } x
      (.putting .message (h₀ :: ms)) := by
    refine ⟨rfl, ?_, by simp [Pc.ofRecv], trivial, fun _ => id⟩
    have := h.hands x
    rwa [hpc] at this
  have hpay : ∀ k, k ≠ h₀.buf →
      (if ms = [] then Function.update σ.payload h₀.buf none else σ.payload) k = σ.payload k :=
    fun k hk => by
      split
      · exact Function.update_of_ne hk ..
      · rfl
  obtain ⟨asked, got, matched, hma⟩ := h.matched
  refine ⟨h.msgs, hres, h.placed.congr rfl rfl rfl (mine_update (by rw [hpc]; rfl)), ?_,
    ⟨asked, got, matched, hma.congr rfl (unmatched_update rfl (by rw [hpc]; rfl) rfl) (fun _ _ => rfl)
      (.refl _)⟩, h.hands_of hmv, h.recv_of hmv, h.dry_of hmv,
    h.asleep_of hmv (by simp) id (by simp [hpc, Pc.busy])⟩
  refine h.loaded.unload hheld hnl rfl hmem (fun k hk hne => hpay _ fun e => hne ?_) (fun k => ?_)
    fun y k hy => ?_
  · exact List.inj_on_of_nodup_map h.msgs.nodup hk hheld e
  · simp only [Datapath.Loose]
    constructor
    · rintro ⟨y, hy⟩
      by_cases hyx : y = x
      · rw [hyx, Function.update_self] at hy
        exact .inl (Option.some.inj hy).symm
      · rw [Function.update_of_ne hyx] at hy
        exact .inr ⟨y, hy⟩
    · rintro (rfl | ⟨y, hy⟩)
      · exact ⟨x, by rw [Function.update_self]; rfl⟩
      · refine ⟨y, ?_⟩
        rw [Function.update_of_ne, hy]
        rintro rfl
        rw [hpc] at hy
        cases hy
  · have hk := h.loaded.bare y k (bare_update rfl rfl hy).2
    simp only
    split
    · rw [Function.update_apply]
      split
      · rfl
      · exact hk
    · exact hk

/-- It gives the message back. -/
theorem putMessage (h : Flowing G σ) {ms : List Held}
    (hpc : σ.pc x = .putting .message (h₀ :: ms)) :
    ∃ σ', σ.putStep x .message (h₀ :: ms) = some σ' ∧ Flowing G σ' := by
  have hin : h₀ ∈ (σ.pc x).mine := by
    rw [hpc]
    exact List.mem_cons_self
  have hnd := h.hands x
  rw [hpc] at hnd
  have hnd : h₀ ∉ ms ∧ ms.Nodup := List.nodup_cons.1 hnd
  obtain ⟨u, hput, hres, hheld⟩ := h.msgs.put (h.placed.of_mine hin)
  have hmem : ∀ b, b ∈ u.held ↔ b ≠ h₀ ∧ b ∈ σ.msgs.held := fun b => by
    rw [hheld, (List.Nodup.of_map _ h.msgs.nodup).mem_erase_iff]
  refine ⟨{ σ with msgs := u, pc := Function.update σ.pc x (.putting .wake (h₀ :: ms)) },
    by simp [Datapath.putStep, hput], ?_⟩
  have hmv : Moves σ { σ with
      msgs := u, pc := Function.update σ.pc x (.putting .wake (h₀ :: ms)) } x
      (.putting .wake (h₀ :: ms)) :=
    ⟨rfl, hnd.2, by simp [Pc.ofRecv], trivial, fun _ => id⟩
  have hother : ∀ b s, s ≠ .world x → σ.At b s → b ≠ h₀ := fun b s hs hb e =>
    hs (h.placed.alone h₀ s (.world x) (e ▸ hb) hin)
  obtain ⟨asked, got, matched, hma⟩ := h.matched
  refine ⟨hres, h.ploads, ?_, ?_,
    ⟨asked, got, matched, hma.congr rfl (unmatched_update rfl (by rw [hpc]; rfl) rfl) (fun _ _ => rfl)
      (.refl _)⟩, h.hands_of hmv, h.recv_of hmv, h.dry_of hmv,
    h.asleep_of hmv (by simp) id (by simp [hpc, Pc.busy])⟩
  · refine h.placed.drop hmem (fun b s => ?_) h.placed.hash h.placed.work
    cases s with
    | hash => exact ⟨fun hb => ⟨hother b .hash (by simp) hb, hb⟩, And.right⟩
    | work => exact ⟨fun hb => ⟨hother b .work (by simp) hb, hb⟩, And.right⟩
    | world y =>
        refine h.placed.at_lose rfl hin (fun b => ?_) b y
        have hw : (Pc.putting .wake (h₀ :: ms)).mine = ms := rfl
        have hx : (Pc.putting .message (h₀ :: ms)).mine = h₀ :: ms := rfl
        rw [hpc, hw, hx, List.mem_cons]
        constructor
        · exact fun hb => ⟨fun e => hnd.1 (e ▸ hb), .inr hb⟩
        · exact fun ⟨hne, hb⟩ => hb.resolve_left hne
  · refine h.loaded.drop ⟨x, by rw [hpc]; rfl⟩ hmem rfl rfl (fun k => ?_) fun y k hy =>
      (bare_update rfl rfl hy).2
    simp only [Datapath.Loose]
    constructor
    · rintro ⟨y, hy⟩
      by_cases hyx : y = x
      · rw [hyx, Function.update_self] at hy
        cases hy
      · rw [Function.update_of_ne hyx] at hy
        exact ⟨hother k (.world y) (fun e => hyx (Site.world.inj e)) (Pc.mine_of_loose hy), y, hy⟩
    · rintro ⟨hne, y, hy⟩
      refine ⟨y, ?_⟩
      rw [Function.update_of_ne, hy]
      rintro rfl
      rw [hpc] at hy
      exact hne (Option.some.inj hy).symm

/-- It wakes who waits for a message. -/
theorem putWake (h : Flowing G σ) {ms : List Held}
    (hpc : σ.pc x = .putting .wake (h₀ :: ms)) :
    ∃ σ', σ.putStep x .wake (h₀ :: ms) = some σ' ∧ Flowing G σ' := by
  have hnd := h.hands x
  rw [hpc] at hnd
  have hnext : ∀ pc', pc'.mine = ms → pc'.loose = none → pc'.unmatched = none → pc'.bare = none →
      (pc'.ofRecv = true → x = 0) → pc'.Dry →
      Flowing G { σ with
        asleep := fun _ => false, pc := Function.update σ.pc x pc' } := by
    intro pc' hmine hloose hun hbare hrecv hdry
    have hmv : Moves σ { σ with
        asleep := fun _ => false, pc := Function.update σ.pc x pc' } x pc' :=
      ⟨rfl, by rw [hmine]; exact hnd, hrecv, hdry, fun _ e => by cases e⟩
    exact h.quiet hmv rfl h.msgs rfl rfl rfl rfl rfl rfl rfl (by rw [hmine, hpc]; rfl)
      (by rw [hloose, hpc]; rfl) (by rw [hun, hpc]; rfl) hbare fun _ e => by cases e
  refine ⟨_, rfl, hnext _ ?_ ?_ ?_ ?_ ?_ ?_⟩
  all_goals
    split
    · rename_i hms
      unfold Datapath.home
      split
      · simp_all [Pc.mine, Pc.loose, Pc.unmatched, Pc.bare, Pc.ofRecv, Pc.Dry]
      · split <;> simp_all [Pc.mine, Pc.loose, Pc.unmatched, Pc.bare, Pc.ofRecv, Pc.Dry]
    · simp_all [Pc.mine, Pc.loose, Pc.unmatched, Pc.bare, Pc.ofRecv, Pc.Dry]

/-! ## Every step -/

/-- A world gets a message, or comes to wait. -/
theorem getMsg (h : Flowing G σ) (hG : G.Ample) (hm : DataAction.Serves σ.msgs malloc)
    (hfree : (σ.pc x).Free) (hx : r = true → x = 0) :
    ∃ e, σ.msgs.pool.bufpoolGet r false malloc = some e ∧
      Flowing G (σ.settleMsg x r e) := by
  obtain ⟨e, hget, -, hres, hs⟩ :=
    h.msgs.getLoop hG.reserve_pos hG.sum_lt hm.1 x r false
  exact ⟨e, hget, h.settleMsg hG hfree hx hres (.inl hs) hm.2⟩

/-- A world that waited for a message gets one, or waits on. -/
theorem againMsg (h : Flowing G σ) (hG : G.Ample) (hm : DataAction.Serves σ.msgs malloc)
    (hfree : (σ.pc x).Free) (hx : r = true → x = 0) :
    ∃ e, σ.msgs.pool.recheck r malloc = some e ∧ Flowing G (σ.settleMsg x r e) := by
  obtain ⟨e, hget, hres, hs⟩ :=
    h.msgs.recheck hG.reserve_pos hG.sum_lt hm.1 x r
  exact ⟨e, hget, h.settleMsg hG hfree hx hres hs hm.2⟩

/-- **Every step keeps it**, and none fails. -/
theorem step (h : Flowing G σ) (hG : G.Ample) (he : act.Enabled σ) :
    ∃ σ', act.exec σ = some σ' ∧ Flowing G σ' := by
  cases act with
  | cmd x malloc =>
      obtain ⟨hx, hm⟩ := he
      obtain ⟨e, hget, hσ'⟩ := h.getMsg (x := x) (r := false) hG hm
        (by rw [hx]; exact ⟨rfl, rfl, rfl, rfl⟩) (by simp)
      exact ⟨_, by simp [DataAction.exec, hget], hσ'⟩
  | recvGet malloc =>
      obtain ⟨hx, hm⟩ := he
      obtain ⟨e, hget, hσ'⟩ := h.getMsg (x := 0) (r := true) hG hm
        (by rw [hx]; exact ⟨rfl, rfl, rfl, rfl⟩) (by simp)
      exact ⟨_, by simp [DataAction.exec, hget], hσ'⟩
  | msgAgain x malloc =>
      obtain ⟨hx | hx, hm⟩ := he
      · obtain ⟨e, hget, hσ'⟩ := h.againMsg (x := x) (r := false) hG hm
          (by rw [hx]; exact ⟨rfl, rfl, rfl, rfl⟩) (by simp)
        exact ⟨_, by simp [DataAction.exec, hx, hget], hσ'⟩
      · obtain ⟨e, hget, hσ'⟩ := h.againMsg (x := x) (r := true) hG hm
          (by rw [hx]; exact ⟨rfl, rfl, rfl, rfl⟩) fun _ => h.recv x (by rw [hx]; rfl)
        exact ⟨_, by simp [DataAction.exec, hx, hget], hσ'⟩
  | payload x malloc =>
      obtain ⟨hx, hm⟩ := he
      obtain ⟨e, hget, -, hres, hs⟩ :=
        h.ploads.getLoop hG.reserve_pos hG.sum_lt' hm.1 x true false
      split at hx
      · rename_i m hpc
        refine ⟨σ.settlePload x m (.getPload m) (.ready m) e, by simp [DataAction.exec, hpc, hget], ?_⟩
        exact h.settlePload hG (by rw [hpc]; rfl) (by rw [hpc]; rfl) (by rw [hpc]; rfl)
          (by rw [hpc]; rfl) rfl rfl (by rw [hpc]; rfl) (by simp [Pc.ofRecv]) trivial (by simp)
          hres hs hm.2
      · rename_i m hpc
        refine ⟨σ.settlePload x m (.recvWait m) (.recvDone m) e, by simp [DataAction.exec, hpc, hget], ?_⟩
        exact h.settlePload hG (by rw [hpc]; rfl) (by rw [hpc]; rfl) (by rw [hpc]; rfl)
          (by rw [hpc]; rfl) rfl rfl (by rw [hpc]; rfl) (fun _ => h.recv x (by rw [hpc]; rfl)) trivial
          (by simp) hres hs hm.2
      · cases hx
  | ploadAgain x malloc =>
      -- nobody waits for a payload
      obtain ⟨hx, -⟩ := he
      split at hx
      · rename_i m hpc
        have := h.dry x
        rw [hpc] at this
        exact this.elim
      · rename_i m hpc
        have := h.dry x
        rw [hpc] at this
        exact this.elim
      · cases hx
  | request x =>
      simp only [DataAction.Enabled] at he
      split at he
      · rename_i m hpc
        exact ⟨_, by simp only [DataAction.exec, hpc],
          h.request (x := x) (m := m) (by rw [hpc]; rfl) (by rw [hpc]; rfl) (by rw [hpc]; rfl) (by rw [hpc]; rfl)⟩
      · rename_i m hpc
        exact ⟨_, by simp only [DataAction.exec, hpc],
          h.request (x := x) (m := m) (by rw [hpc]; rfl) (by rw [hpc]; rfl) (by rw [hpc]; rfl) (by rw [hpc]; rfl)⟩
      · cases he
  | abandon x =>
      simp only [DataAction.Enabled] at he
      split at he
      · rename_i m hpc
        have hmv : Moves σ { σ with pc := Function.update σ.pc x (.putting .payload [⟨m, false⟩]) } x
            (.putting .payload [⟨m, false⟩]) :=
          ⟨rfl, List.nodup_singleton _, by simp [Pc.ofRecv], trivial, fun _ => id⟩
        exact ⟨_, by simp [DataAction.exec, hpc],
          h.quiet hmv rfl h.msgs rfl rfl rfl rfl rfl rfl rfl (by rw [hpc]; rfl) (by rw [hpc]; rfl)
            (by rw [hpc]; rfl) rfl (h.asleep_of hmv (by simp) id (by simp [hpc, Pc.busy]))⟩
      · cases he
  | answer q b => exact ⟨_, rfl, h.answer he⟩
  | recvHdr =>
      obtain ⟨hx, hans⟩ := he
      obtain ⟨⟨q, b⟩, answers, hans⟩ := List.exists_cons_of_ne_nil hans
      split at hx
      · rename_i m hpc
        exact ⟨_, by simp [DataAction.exec, hpc, hans], h.recvHdr hpc hans⟩
      · cases hx
  | schedule =>
      simp only [DataAction.Enabled] at he
      split at he
      · rename_i m hpc
        exact ⟨_, by simp [DataAction.exec, hpc], h.schedule hpc⟩
      · cases he
  | take x =>
      obtain ⟨hpc, hwork⟩ := he
      obtain ⟨m, work, hwork⟩ := List.exists_cons_of_ne_nil hwork
      exact ⟨_, by simp [DataAction.exec, hwork], h.take hpc hwork⟩
  | handle x =>
      simp only [DataAction.Enabled] at he
      split at he
      · rename_i m hpc
        obtain ⟨asked, got, matched, hma⟩ := h.matched
        obtain ⟨req, hreq, hseq, hfind⟩ := hma.finds (m := m) (.inr ⟨x, by rw [hpc]; rfl⟩)
        exact ⟨_, by simp [DataAction.exec, hpc, hfind], h.handle hpc hreq hseq⟩
      · cases he
  | put x =>
      simp only [DataAction.Enabled] at he
      split at he
      · rename_i s ms hpc
        have hput : (DataAction.put x).exec σ = σ.putStep x s ms := by simp [DataAction.exec, hpc]
        rw [hput]
        cases ms with
        | nil =>
            have := h.dry x
            rw [hpc] at this
            exact this.elim
        | cons b ms =>
            cases s with
            | payload => exact h.putPayload hpc
            | message => exact h.putMessage hpc
            | wake => exact h.putWake hpc
      · cases he

end Flowing

end Vmk

end VmwareProto
