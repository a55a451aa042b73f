import VmwareProto.Vmk.ReceivePath
/-!
# The receive path does not deadlock

Nobody waits for a payload buffer, and while the receive thread waits for a
message buffer one that it received is still to be put. That takes more
payloads than messages, and a message pool that can grow; `rpc_chan_init` sees
to both as long as its `int`s hold the numbers it computes.
-/

namespace VmwareProto

namespace Vmk

variable {nway : BitVec 64} {reserve : BitVec 32} {G : Geometry} {σ : Datapath} {malloc : Option Addr}

theorem Initialised.heapFits {nbufs nmax : ℕ} {r : ℤ} {p : Pool} (h : Initialised nbufs r nmax p) :
    HeapFits nmax := h.1

/-- A pool of which all buffers were allocated, before its first use. -/
theorem Initialised.reserving {nbufs nmax : ℕ} {r : ℤ} {p : Pool} (h : Initialised nbufs r nmax p)
    (ho : p.owned = nbufs) :
    Reserving nbufs r nmax ⟨p, fun _ => none, []⟩ := by
  obtain ⟨⟨free, hown, -, -⟩, hb, hres, hm, hle⟩ := h.owns
  refine ⟨⟨free, hown, hb, hres, hm⟩, by simp only; omega, by simp only; omega, ?_⟩
  simp only [PoolUsers.normal, List.countP_nil]
  omega

/-- A world that has not begun has no message, and looks for none. -/
theorem Datapath.home_rests (x : World) : (home x).mine = [] ∧ (home x).unmatched = none ∧
    (home x).bare = none ∧ (home x).busy = false ∧ (home x).Dry := by
  unfold home
  split_ifs <;> exact ⟨rfl, rfl, rfl, rfl, trivial⟩

/-- A get moves its own world. -/
theorem Datapath.settleMsg_pc {x y : World} {r : Bool} {e : Pool × Pool.GetOutcome} (hy : y ≠ x) :
    (σ.settleMsg x r e).pc y = σ.pc y := by
  obtain ⟨p, _ | _ | _⟩ := e <;> cases r <;> exact Function.update_of_ne hy ..

theorem Datapath.home_ofRecv {x : World} (hx : (home x).ofRecv = true) : x = 0 := by
  unfold home at hx
  split_ifs at hx
  · assumption
  · cases hx
  · cases hx

/-- A channel nobody has used. -/
theorem Flowing.start {msgs ploads : Pool} (payload : Addr → Option Addr) (seqid : Addr → ℕ)
    (hm : Reserving G.nmsg G.reserve G.nmsgMax ⟨msgs, fun _ => none, []⟩)
    (hp : Reserving G.ndata G.reserve G.ndataMax ⟨ploads, fun _ => none, []⟩) :
    Flowing G (Datapath.start msgs ploads payload seqid) := by
  have hnone : ∀ h s, ¬(Datapath.start msgs ploads payload seqid).At h s := fun h s hs => by
    cases s with
    | hash => cases hs.2
    | work => cases hs.2
    | world y =>
        have hy : h ∈ (Datapath.home y).mine := hs
        rw [(Datapath.home_rests y).1] at hy
        cases hy
  have hun : ∀ m, ¬(Datapath.start msgs ploads payload seqid).Unmatched m := by
    rintro m (hw | ⟨y, hy⟩)
    · cases hw
    · have hy : (Datapath.home y).unmatched = some m := hy
      rw [(Datapath.home_rests y).2.1] at hy
      cases hy
  refine ⟨hm, hp, ⟨fun h => ⟨fun hh => ?_, fun ⟨s, hs⟩ => absurd hs (hnone h s)⟩,
    fun h s t hs => absurd hs (hnone h s), List.nodup_nil, List.nodup_nil⟩,
    ⟨fun b hb => ?_, fun h hh => ?_, fun h hh => ?_, fun y m hy => ?_⟩,
    ⟨[], [], [], .initial fun m => List.not_mem_nil, .initial hun, .refl _⟩, fun y => ?_,
    fun y => Datapath.home_ofRecv, fun y => (Datapath.home_rests y).2.2.2.2,
    fun _ hs => by cases hs⟩
  · cases hh
  · cases hb
  · cases hh
  · cases hh
  · have hy : (Datapath.home y).bare = some m := hy
    rw [(Datapath.home_rests y).2.2.1] at hy
    cases hy
  · have : (Datapath.home y).mine.Nodup := by
      rw [(Datapath.home_rests y).1]
      exact List.nodup_nil
    exact this

/-! ## The sizes -/

/-- **The `int`s of `rpc_chan_init` tell the pools apart as it means them to**:
the message pool can grow, and there are more payloads than messages. -/
def Geometry.Roomy (G : Geometry) : Prop := G.nmsg < G.nmsgMax ∧ G.nmsgMax < G.ndataMax

instance (G : Geometry) : Decidable G.Roomy := inferInstanceAs (Decidable (_ ∧ _))

/-- An `int` that is not negative is the same `size_t`. -/
theorem toNat_signExtend_of_lt {n : BitVec 32} (hn : n.toNat < 2 ^ 31) :
    (n.signExtend 64).toNat = n.toNat := by
  have hmsb : n.msb = false := by
    rw [BitVec.msb_eq_decide, decide_eq_false_iff_not]
    omega
  rw [BitVec.signExtend_eq_setWidth_of_msb_false hmsb, BitVec.toNat_setWidth]
  omega

/-- They do when they hold the numbers that it computes. -/
theorem roomy_of_lt (hr : 0 < reserve.toInt) (hle : reserve.toInt ≤ nway.toNat)
    (hsmall : (2 * nway.toNat + reserve.toInt) * 3 < 2 ^ 31) :
    (chanGeometry nway reserve).Roomy := by
  have hres : reserve.toNat < 2 ^ 31 ∧ reserve.toInt = reserve.toNat := by
    have := reserve.isLt
    rw [BitVec.toInt_eq_toNat_cond] at hr hle hsmall ⊢
    split_ifs at hr hle hsmall ⊢ <;> omega
  obtain ⟨hlt, heq⟩ := hres
  rw [heq] at hr hle hsmall
  have hext := toNat_signExtend_of_lt hlt
  have hnmsg : ((nway + reserve.signExtend 64).setWidth 32).toNat = nway.toNat + reserve.toNat := by
    rw [BitVec.toNat_setWidth, BitVec.toNat_add, hext]
    omega
  have hmax : ((nway * 3).setWidth 32).toNat = nway.toNat * 3 := by
    rw [BitVec.toNat_setWidth, BitVec.toNat_mul, show (3 : BitVec 64).toNat = 3 from rfl]
    omega
  have hdata : ((2 * nway + reserve.signExtend 64).setWidth 32).toNat =
      2 * nway.toNat + reserve.toNat := by
    rw [BitVec.toNat_setWidth, BitVec.toNat_add, BitVec.toNat_mul, hext,
      show (2 : BitVec 64).toNat = 2 from rfl]
    omega
  have hdmax : ((2 * nway + reserve.signExtend 64).setWidth 32 * 3).toNat =
      (2 * nway.toNat + reserve.toNat) * 3 := by
    rw [BitVec.toNat_mul, hdata, show (3 : BitVec 32).toNat = 3 from rfl]
    omega
  -- nothing was cut off, and nothing is negative
  simp only [Geometry.Roomy, chanGeometry]
  rw [toNat_signExtend_of_lt (by omega), toNat_signExtend_of_lt (by omega),
    toNat_signExtend_of_lt (by omega), hnmsg, hmax, hdmax]
  omega

/-- A pool that is three times as large as it begins can grow. -/
theorem lt_of_triple {n : BitVec 32} (hpos : 0 < (n.signExtend 64).toNat)
    (hle : (n.signExtend 64).toNat ≤ ((n * 3).signExtend 64).toNat)
    (hf : HeapFits ((n * 3).signExtend 64).toNat) :
    (n.signExtend 64).toNat < ((n * 3).signExtend 64).toNat := by
  have hn := n.isLt
  have h3 : (n * 3).toNat = n.toNat * 3 % 2 ^ 32 := by
    rw [BitVec.toNat_mul, show (3 : BitVec 32).toNat = 3 from rfl]
  unfold HeapFits at hf
  simp only [BitVec.toNat_signExtend, BitVec.msb_eq_decide, h3, BitVec.toNat_setWidth,
    decide_eq_true_eq] at hpos hle hf ⊢
  split_ifs at hpos hle hf ⊢ <;> omega

/-- What a channel that was set up is known to be. -/
theorem ample_of_datapath (hr : 0 < reserve.toInt) (hroom : (chanGeometry nway reserve).Roomy)
    (h : (datapath nway reserve).Reachable σ) : (chanGeometry nway reserve).Ample := by
  induction h with
  | init hi =>
      obtain ⟨msgs, ploads, payload, seqid, G, rfl, hm, -, hp, -, -⟩ := hi
      obtain ⟨-, -, -, -, hle⟩ := hp.owns
      obtain ⟨-, malloc, -, hinit⟩ := id hp
      -- `bufpool_init_reserve` asserts it
      have hpos : 0 < (chanGeometry nway reserve).ndata := by
        rw [Pool.bufpoolInitReserve] at hinit
        split at hinit
        · rename_i hb
          exact hb.1
        · cases hinit
      exact ⟨hr, reserve.toInt_lt, hroom.1, lt_of_triple hpos hle hp.heapFits, hroom.2, hm.heapFits,
        hp.heapFits⟩
  | step _ _ _ ih => exact ih

/-! ## Every run -/

theorem flowing_inductive (hG : (chanGeometry nway reserve).Ample) :
    (datapath nway reserve).Inductive (Flowing (chanGeometry nway reserve)) where
  init := by
    rintro σ ⟨msgs, ploads, payload, seqid, G, rfl, hm, ho, hp, ho', rfl⟩
    exact .start payload seqid (hm.reserving ho) (hp.reserving ho')
  step _ _ h he := h.step hG he

/-- A payload is to be had at once by a world that has a message. -/
theorem Flowing.gets (h : Flowing G σ) (hG : G.Ample) (hm : DataAction.Serves σ.ploads malloc) :
    ∃ p a, σ.ploads.pool.bufpoolGet true false malloc = some (p, .got a) := by
  have hlt : σ.ploads.held.length < G.ndataMax := by
    have hle := h.loaded.length_le h.ploads.nodup
    have := h.msgs.length_le
    have := hG.payloads
    omega
  obtain ⟨⟨p, e⟩, hget, -, -, hs⟩ :=
    h.ploads.getLoop hG.reserve_pos hG.sum_lt' hm.1 0 true false
  cases e with
  | got a => exact ⟨p, a, hget⟩
  | failed =>
      have := h.ploads.full hG.reserve_pos hG.ndata_lt (.inl hs) (fun a e => by cases e) hm.2
      omega
  | waits =>
      have := h.ploads.full hG.reserve_pos hG.ndata_lt (.inl hs) (fun a e => by cases e) hm.2
      omega

/-- **The receive path does not deadlock on buffers**: there are no more
payloads in use than messages, so fewer than the pool may have; a call of
`rpc_payload_get` has one at once and nobody waits for one; while the receive
thread waits for a message, a received one is on the work list or with a worker
that is to put it; and no step fails. -/
structure Unblocked (G : Geometry) (σ : Datapath) : Prop where
  le : σ.ploads.held.length ≤ σ.msgs.held.length
  lt : σ.ploads.held.length < G.ndataMax
  gets : ∀ x malloc, (DataAction.payload x malloc).Enabled σ →
    ∃ p a, σ.ploads.pool.bufpoolGet true false malloc = some (p, .got a)
  dry : ∀ x m, σ.pc x ≠ .getPload m ∧ σ.pc x ≠ .recvWait m
  asleep : σ.pc 0 = .recvGet → σ.asleep 0 = true → σ.work ≠ [] ∨ ∃ x, (σ.pc x).busy = true
  steps : ∀ act : DataAction, act.Enabled σ → ∃ σ', act.exec σ = some σ'

theorem Flowing.unblocked (h : Flowing G σ) (hG : G.Ample) : Unblocked G σ := by
  have hple := h.loaded.length_le h.ploads.nodup
  have hmle := h.msgs.length_le
  have hlt := hG.payloads
  refine ⟨hple, by omega, fun x malloc he => h.gets hG he.2, fun x m => ?_, h.asleep,
    fun act he => ?_⟩
  · have := h.dry x
    constructor
    · intro e
      rw [e] at this
      exact this
    · intro e
      rw [e] at this
      exact this
  · obtain ⟨σ', hσ', -⟩ := h.step hG he
    exact ⟨σ', hσ'⟩

/-- **No state of any run is blocked on buffers** where the `int`s of
`rpc_chan_init` are as it means them. -/
theorem receive_path (hr : 0 < reserve.toInt) (hroom : (chanGeometry nway reserve).Roomy)
    (h : (datapath nway reserve).Reachable σ) : Unblocked (chanGeometry nway reserve) σ := by
  have hG := ample_of_datapath hr hroom h
  exact ((flowing_inductive hG).reachable h).unblocked hG

/-- The channel of two pools of these sizes. -/
theorem datapath_init {n m k l : ℕ} {r : ℤ} (hG : chanGeometry nway reserve = ⟨n, m, k, l, r⟩)
    (hm : HeapFits m) (hn : 0 < n ∧ n ≤ m) (hl : HeapFits l) (hk : 0 < k ∧ k ≤ l)
    (ho : (startPool n r m n).pool.owned = n) (ho' : (startPool k r l k).pool.owned = k) :
    (datapath nway reserve).init (Datapath.start (startPool n r m n).pool (startPool k r l k).pool
      (fun _ => none) fun _ => 0) :=
  ⟨_, _, _, _, _, hG.symm, startPool_initialised hm hn.1 hn.2 n, ho,
    startPool_initialised hl hk.1 hk.2 k, ho', rfl⟩

/-- Two requests and a response take all the messages of a channel; the
receive thread waits, and the response is on the work list. -/
theorem receive_path_waits : ∃ σ, (datapath 1 1).Reachable σ ∧
    σ.pc 0 = .recvGet ∧ σ.asleep 0 = true ∧ σ.msgs.held.length = 3 ∧ σ.ploads.held.length = 2 ∧
    (σ.work ≠ [] ∨ ∃ x, (σ.pc x).busy = true) := by
  have hstart : (datapath 1 1).init
      (Datapath.start (startPool 2 1 3 2).pool (startPool 3 1 9 3).pool (fun _ => none) fun _ => 0) :=
    datapath_init (by decide) (by norm_num [HeapFits]) (by decide) (by norm_num [HeapFits])
      (by decide) (by decide) (by decide)
  have h : ((datapath 1 1).run
      (Datapath.start (startPool 2 1 3 2).pool (startPool 3 1 9 3).pool (fun _ => none) fun _ => 0)
      [.cmd 9 (some 5), .payload 9 (some 5), .request 9, .cmd 10 (some 5), .request 10, .answer 1 true,
        .recvGet (some 5), .recvHdr, .payload 0 (some 5), .schedule, .recvGet none]).any
      (fun σ : Datapath => decide (σ.pc 0 = .recvGet ∧ σ.asleep 0 = true ∧ σ.msgs.held.length = 3 ∧
        σ.ploads.held.length = 2)) = true := by decide +kernel
  obtain ⟨σ, hσ, hp⟩ := System.Steps.of_run_any h
  obtain ⟨hpc, hs, hm, hpl⟩ := of_decide_eq_true hp
  have hr := hσ.reachable (.init hstart)
  exact ⟨σ, hr, hpc, hs, hm, hpl, (receive_path (by decide) (by decide) hr).asleep hpc hs⟩

/-- The worlds that ask for a message buffer. -/
def Asks (xs : List World) : DataAction → Prop
  | .cmd x _ => x ∈ xs
  | .recvGet _ => 0 ∈ xs
  | _ => False

/-- Nobody else moves. -/
theorem pc_of_steps {xs : List World} {acts : List DataAction} {σ' : Datapath} {x : World}
    (h : (datapath nway reserve).Steps σ acts σ') (hacts : ∀ act ∈ acts, Asks xs act)
    (hx : x ∉ xs) : σ'.pc x = σ.pc x := by
  induction h with
  | nil => rfl
  | @cons σ τ υ act acts he hexec hsteps ih =>
      have hmove : τ.pc x = σ.pc x := by
        have hask := hacts act List.mem_cons_self
        cases act with
        | cmd y malloc =>
            obtain ⟨e, -, hτ⟩ := Option.bind_eq_some_iff.1 hexec
            rw [← Option.some.inj hτ]
            exact Datapath.settleMsg_pc fun hxy => hx (hxy ▸ hask)
        | recvGet malloc =>
            obtain ⟨e, -, hτ⟩ := Option.bind_eq_some_iff.1 hexec
            rw [← Option.some.inj hτ]
            exact Datapath.settleMsg_pc fun hxy => hx (hxy ▸ hask)
        | _ => exact hask.elim
      rw [ih fun act ha => hacts act (List.mem_cons_of_mem _ ha), hmove]

/-- **More worlds than an `int` counts**: of `2 ^ 32 + 1` and a reserve of two
`rpc_chan_init` makes a message pool of three that cannot grow. Three writers
have them all, and the receive thread waits. -/
theorem receive_path_blocked : ¬∀ (nway : BitVec 64) (reserve : BitVec 32) (σ : Datapath),
    0 < reserve.toInt → reserve.toInt ≤ nway.toNat → (datapath nway reserve).Reachable σ →
    Unblocked (chanGeometry nway reserve) σ := by
  intro hall
  have hstart : (datapath (2 ^ 32 + 1) 2).init
      (Datapath.start (startPool 3 2 3 3).pool (startPool 4 2 12 4).pool (fun _ => none)
        fun _ => 0) :=
    datapath_init (by decide) (by norm_num [HeapFits]) (by decide) (by norm_num [HeapFits])
      (by decide) (by decide) (by decide)
  have h : ((datapath (2 ^ 32 + 1) 2).run
      (Datapath.start (startPool 3 2 3 3).pool (startPool 4 2 12 4).pool (fun _ => none) fun _ => 0)
      [.cmd 9 none, .cmd 10 none, .cmd 11 none, .recvGet none]).any
      (fun σ : Datapath => decide (σ.pc 0 = .recvGet ∧ σ.asleep 0 = true ∧ σ.work = [] ∧
        ∀ x ∈ ([0, 9, 10, 11] : List World), (σ.pc x).busy = false)) = true := by decide +kernel
  obtain ⟨σ, hσ, hp⟩ := System.Steps.of_run_any h
  obtain ⟨hpc, hs, hw, hb⟩ := of_decide_eq_true hp
  rcases (hall _ _ σ (by decide) (by decide) (hσ.reachable (.init hstart))).asleep hpc hs with
    hn | ⟨x, hx⟩
  · exact hn hw
  · -- none of the four puts, and no other world has moved
    by_cases hmem : x ∈ [0, 9, 10, 11]
    · rw [hb x hmem] at hx
      cases hx
    · rw [pc_of_steps hσ (by simp [Asks] : ∀ act ∈ _, Asks [0, 9, 10, 11] act) hmem] at hx
      have hhome : (Datapath.home x).busy = true := hx
      rw [(Datapath.home_rests x).2.2.2.1] at hhome
      cases hhome

end Vmk

end VmwareProto
