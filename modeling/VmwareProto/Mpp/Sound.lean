import VmwareProto.Mpp.Invariant
/-!
# The channel stays sound

What the workers and the receive thread do to the uses and the lists, where
two messages change hands at once, and the invariant of every run.
-/

namespace VmwareProto

namespace Mpp

variable {cfg : Cfg} {σ σ' : State} {act : Action} {x y z : Actor} {a b alloc : Addr} {m m' r : Msg}
  {p q : Pc} {c c' : Channel} {k : Kind} {e : CmdId} {s : ScsiCommand} {n : ℕ}

/-- An actor that puts a message has it, is not sending it, and holds no lock. -/
theorem Pc.of_putting (h : p.putting = some (a, q)) :
    p.held = [a] ∧ p.sends = none ∧ p.locked = false ∧ q.held = [] ∧ q.sends = none ∧
      q.locked = false := by
  cases p <;> cases h <;> exact ⟨rfl, rfl, rfl, rfl, rfl, rfl⟩

/-- A message that is sent by somebody is sent under the lock. -/
theorem Pc.locked_of_sends (h : p.sends = some a) : p.locked = true := by
  cases p with
  | send k b part rest => rfl
  | unlock k b => rfl
  | _ => cases h

namespace Base

theorem take {q : List Addr} (h : Base cfg σ) (hpc : σ.pc (.worker n) = .idle)
    (hq : σ.queue = b :: q) (hm : σ.chan.msgs b = some m) :
    Base cfg ({ σ with
      chan := σ.chan.setMsg b { m with use := .held (.worker n) }
      queue := q }.setPc (.worker n) (.item b)) := by
  have huse : σ.uses b = some .queued := (h.uses.queued b).1 (by simp [hq])
  have hu : m.use = .queued := by
    rw [uses_of_msg hm] at huse
    exact Option.some.inj huse
  have hr : m.resp = none := by
    rw [← resps_of_msg hm]
    exact h.no_resp_of_use fun x => by simp [huse]
  have hnd := h.uses.queue_nodup
  rw [hq] at hnd
  obtain ⟨hnot, hnd⟩ := List.nodup_cons.1 hnd
  refine h.exchange (x := .worker n) (q := .item b) (o := some { m with use := .held (.worker n) })
    rfl rfl (h.free huse (by simp) (by simp) _) (by rw [hpc]; simp [Pc.held]) (by simp [Pc.held])
    (by simp [Pc.held]) (fun _ => rfl) (fun z hz => ?_) (fun y hy => ?_) ?_ hnd (by simp [huse]) (by simp)
    (by rw [resps_of_msg hm, hr]) hr (h.same_lock rfl rfl (by rw [hpc]; rfl))
    (h.set_table hm (by simp only [Msg.pending, hu]) fun _ => rfl)
  · rcases hz with e | e <;> cases e
    exact ⟨rfl, by simp [Pc.held]⟩
  · rw [hq]
    simp [State.setPc, hy]
  · exact iff_of_false hnot (by simp)

theorem put (h : Base cfg σ) (hx : (σ.pc x).putting = some (a, p)) (hm : σ.chan.msgs a = some m)
    (hr : m.resp = none) (hc : σ.chan.poolPut cfg a = some c) {l : List CmdId} :
    Base cfg ({ σ with chan := c, rejected := l }.setPc x p) := by
  obtain ⟨hheld, hsends, hlocked, hheld', -, hlocked'⟩ := Pc.of_putting hx
  obtain ⟨hk, hmsgs, -⟩ := Channel.poolPut_keeps hc
  obtain ⟨lists, ps, hT⟩ := h.table
  have hp := h.not_pending (x := x) (by simp [hheld]) hsends hm
  obtain ⟨lists', hT'⟩ := hT.put hm hp hc
  exact h.give (x := x) (q := p) (o := none) hheld hm hr hmsgs rfl hheld' (.inl rfl)
    (.inl ⟨by simp, rfl⟩) (h.same_lock hk.lock rfl (by rw [hlocked, hlocked'])) ⟨lists', ps, hT'⟩

/-- **The receive thread's buffer.** -/
theorem recvStart (h : Base cfg σ) (hpc : σ.pc .receiver = .idle) (hl : σ.chan.live alloc = false)
    (hget : σ.chan.poolGet cfg true alloc = some (c, b)) {f : Frame} {e : CmdId} :
    Base cfg ({ σ with chan := c.setMsg b ⟨f, none, e, .held .receiver⟩ }.setPc .receiver
      (.reading b)) := by
  obtain ⟨lists, ps, hT⟩ := h.table
  obtain ⟨hnone, hlive, lists', hF, hq⟩ := hT.get hl hget
  obtain ⟨hk, hmsgs, -, hcount⟩ := Channel.poolGet_keeps hget
  exact h.new hnone (x := .receiver) (q := .reading b) (by rw [hpc]; rfl) (by rw [← hmsgs]; rfl) rfl rfl
    rfl rfl rfl rfl (h.same_lock hk.lock rfl (by rw [hpc]; rfl))
    ⟨lists', ps, hT.fill hnone hF hlive hmsgs hq hcount rfl⟩

/-- **A message goes to the workers.** -/
theorem schedule (h : Base cfg σ) (hpc : σ.pc .receiver = .reading b) (hm : σ.chan.msgs b = some m)
    (hp : p.held = []) (hl : p.locked = false) {f : Frame} {inq : List Byte}
    {taken : List (List Byte)} :
    Base cfg ({ σ with
      chan := σ.chan.setMsg b { m with frame := f, use := .queued }
      queue := σ.queue ++ [b]
      inq := inq
      taken := taken }.setPc .receiver p) := by
  have hb : b ∈ (σ.pc .receiver).held := by simp [hpc, Pc.held]
  have hpend := h.not_pending hb (by rw [hpc]; rfl) hm
  have hr : m.resp = none := by
    rw [← resps_of_msg hm]
    exact h.no_resp hb (by simp [hpc])
  exact h.give (x := .receiver) (q := p) (by rw [hpc]; rfl) hm hr rfl rfl hp
    (.inr ⟨_, rfl, hr, .inr (.inr rfl)⟩) (.inr ⟨rfl, rfl⟩)
    (h.same_lock rfl rfl (by rw [hpc, hl]; rfl))
    (h.set_table hm (by rw [hpend]; rfl) fun hp' => absurd hp' (by simp [hpend]))

/-- **What `hash_lookup` finds while nobody has the lock** was sent and left
by its sender. -/
theorem found (h : Base cfg σ) (hl : σ.chan.lock = none) {t : BitVec 64}
    (hlook : σ.chan.hashLookup t (cfg.getBucket t) = some (some a)) :
    ∃ m, σ.chan.msgs a = some m ∧ m.use = .pending ∧ m.frame.hdr.seqid = t := by
  obtain ⟨lists, ps, hT⟩ := h.table
  rcases hT.lookup t with ⟨a', m, hlook', hm, hp, hid⟩ | ⟨hlook', -⟩
  · rw [hlook'] at hlook
    obtain rfl := Option.some.inj (Option.some.inj hlook)
    refine ⟨m, hm, ?_, hid⟩
    cases hu : m.use with
    | pending => rfl
    | sending y =>
        have hheld := h.uses.held y a' (.inr (by rw [uses_of_msg hm, hu]))
        have hown := h.own hheld hm
        rcases useOf_cases (σ.pc y) y a' with e | ⟨-, hs⟩
        · rw [hu, e] at hown
          cases hown
        · have := (h.locks y).2 (Pc.locked_of_sends hs)
          rw [hl] at this
          cases this
    | _ => simp [Msg.pending, hu] at hp
  · rw [hlook'] at hlook
    cases hlook

/-- **A worker finds the request** of its response. -/
theorem find (h : Base cfg σ) (hpc : σ.pc (.worker n) = .item b) (hl : σ.chan.lock = none)
    {t : BitVec 64} (hlook : σ.chan.hashLookup t (cfg.getBucket t) = some (some a))
    (hrem : σ.chan.hashRem a = some c) (hm : c.msgs a = some m) {l : List (Frame × Frame)} :
    Base cfg ({ σ with
      chan := c.setMsg a { m with use := .held (.worker n) }
      matched := l }.setPc (.worker n) (.found a b)) := by
  obtain ⟨hk, hmsgs⟩ := Channel.hashRem_keeps hrem
  obtain ⟨m₀, hm₀, hu, -⟩ := h.found hl hlook
  rw [hmsgs] at hm
  obtain rfl := Option.some.inj (hm.symm.trans hm₀)
  have huse : σ.uses a = some .pending := by rw [uses_of_msg hm, hu]
  have hr : σ.resps a = none := h.no_resp_of_use fun x => by simp [huse]
  have hfree := h.free huse (by simp) (by simp) (.worker n)
  have hab : a ≠ b := by
    rintro rfl
    have := h.uses.own (.worker n) a (by simp [hpc, Pc.held])
    rw [huse, Pc.useOf_of_sends (by rw [hpc]; rfl)] at this
    cases this
  have hnq : a ∉ σ.queue := by rw [h.uses.queued, huse]; simp
  have hset : (c.setMsg a { m with use := .held (.worker n) }).msgs =
      Function.update σ.chan.msgs a (some { m with use := .held (.worker n) }) := by
    rw [Channel.setMsg_msgs, hmsgs]
  refine ⟨?_, ?_, h.same_lock (x := .worker n) hk.lock rfl (by rw [hpc]; rfl), ?_⟩
  · refine h.uses.move (uses_update hset) hfree (fun y hy => ?_) (fun _ => rfl) (fun z hz => ?_)
      (by simp [Pc.held, hab]) (fun y _ => Iff.rfl) (iff_of_false hnq (by simp)) h.uses.queue_nodup
    · rw [hpc]
      exact ⟨by simp [Pc.held, hy], rfl⟩
    · rcases hz with e | e <;> cases e
      exact ⟨rfl, by simp [Pc.held]⟩
  · have hresps : State.resps ({ σ with
        chan := c.setMsg a { m with use := .held (.worker n) }
        matched := l }.setPc (.worker n) (.found a b)) = σ.resps := resps_kept hm hset rfl
    rw [hresps, uses_update hset]
    exact h.answers.move (by simp [huse]) (by simp) fun d e s hx => absurd hx (by simp [hpc])
  · obtain ⟨lists, ps, hT⟩ := h.table
    obtain ⟨c₁, hrem₁, hT₁⟩ := hT.rem hm (by rw [Msg.pending, hu])
    obtain rfl := Option.some.inj (hrem.symm.trans hrem₁)
    obtain ⟨lists', hT'⟩ := hT₁ { m with use := .held (.worker n) } rfl
    exact ⟨lists', _, hT'⟩

/-- **`msgp->resp = resp`**: the request takes the response with it. -/
theorem handle (h : Base cfg σ) (hpc : σ.pc (.worker n) = .found a b) (hm : σ.chan.msgs a = some m)
    (hr : σ.chan.msgs b = some r) {l : List (Frame × Frame)} :
    Base cfg ({ σ with
      chan := (σ.chan.setMsg a { m with resp := some b }).setMsg b { r with use := .attached a }
      handed := l }.setPc (.worker n) (.finish a e s)) := by
  have hheld : (σ.pc (.worker n)).held = [a, b] := by rw [hpc]; rfl
  have hsends : (σ.pc (.worker n)).sends = none := by rw [hpc]; rfl
  have ha : a ∈ (σ.pc (.worker n)).held := by simp [hheld]
  have hb : b ∈ (σ.pc (.worker n)).held := by simp [hheld]
  have hnd := h.uses.nodup (.worker n)
  have hab : a ≠ b := by
    rw [hheld] at hnd
    simpa using hnd
  have hresp : σ.resps a = none := h.no_resp ha (by simp [hpc])
  have hresp' : σ.resps b = none := h.no_resp hb (by simp [hpc])
  have hpa := h.not_pending ha hsends hm
  have hpb := h.not_pending hb hsends hr
  have hu : m.use = .held (.worker n) := by rw [h.own ha hm, Pc.useOf_of_sends hsends]
  -- the state the step leads to, through the request's new response
  let σ₁ : State := { σ with chan := σ.chan.setMsg a { m with resp := some b }, handed := l }
  let σ₂ : State := ({ σ₁ with chan := σ₁.chan.setMsg b { r with use := .attached a } }.setPc
    (.worker n) (.finish a e s))
  have huses₁ : σ₁.uses = σ.uses := uses_same hm rfl rfl
  have huses : σ₂.uses = Function.update σ.uses b (some (.attached a)) := by
    rw [← huses₁]
    exact uses_update (σ := σ₁) (o := some { r with use := .attached a }) rfl
  have hresps₁ : σ₁.resps = Function.update σ.resps a (some b) :=
    resps_update (σ := σ) (o := some { m with resp := some b }) rfl
  have hr₁ : σ₁.chan.msgs b = some r := by
    rw [← hr]
    exact Function.update_of_ne hab.symm ..
  have hresps : σ₂.resps = Function.update σ.resps a (some b) := by
    rw [← hresps₁]
    exact resps_kept hr₁ rfl rfl
  change Base cfg σ₂
  refine ⟨?_, ?_, h.same_lock (x := .worker n) rfl rfl (by rw [hpc]; rfl), ?_⟩
  · refine h.uses.move huses (h.mine hb) (fun y hy => ?_) (fun hy => ?_) (fun z hz => ?_)
      (by simp [Pc.held]) (fun y _ => Iff.rfl) (iff_of_false (h.in_hand hb).1 (by simp)) h.uses.queue_nodup
    · rw [hpc]
      exact ⟨by simp [Pc.held, hy], rfl⟩
    · exact absurd (List.mem_singleton.1 hy).symm hab
    · rcases hz with e | e <;> cases e
  · rw [huses, hresps]
    refine ⟨fun d y hy => ?_, fun d y => ?_⟩
    · by_cases hd : d = a
      · subst hd
        exact ⟨.worker n, e, s, Function.update_self ..⟩
      · rw [Function.update_of_ne hd] at hy
        obtain ⟨z, e', s', hz⟩ := h.answers.finish d y hy
        have hzn : z ≠ .worker n := by
          rintro rfl
          rw [hpc] at hz
          cases hz
        exact ⟨z, e', s', (Function.update_of_ne hzn ..).trans hz⟩
    · by_cases hy : y = b
      · subst hy
        rw [Function.update_self]
        by_cases hd : d = a
        · subst hd
          rw [Function.update_self]
          exact iff_of_true rfl rfl
        · rw [Function.update_of_ne hd, h.answers.attached]
          exact iff_of_false ((h.in_hand hb).2 d) fun e => hd (Use.attached.inj (Option.some.inj e)).symm
      · rw [Function.update_of_ne hy]
        by_cases hd : d = a
        · subst hd
          rw [Function.update_self, ← h.answers.attached, hresp]
          exact iff_of_false (fun e => hy (Option.some.inj e).symm) (by simp)
        · rw [Function.update_of_ne hd, h.answers.attached]
  · obtain ⟨lists, ps, hT⟩ := h.table
    have hT₁ : Table cfg σ₁.chan lists ps := hT.modify hm rfl fun _ => rfl
    exact ⟨lists, ps, hT₁.modify hr₁ (by rw [hpb]; rfl) fun hp => absurd hp (by simp [hpb])⟩

/-- **The first half of a put**: the response goes back to the pool. -/
theorem putResp (h : Base cfg σ) (hx : (σ.pc x).putting = some (a, p)) (hm : σ.chan.msgs a = some m)
    (hc : σ.chan.putResp cfg a = some c) : Base cfg { σ with chan := c } := by
  obtain ⟨m', b, r, c₁, hm', hb, hr, hrr, hput, rfl⟩ := Channel.putResp_cases hc
  obtain rfl := Option.some.inj (hm.symm.trans hm')
  obtain ⟨hheld, hsends, -⟩ := Pc.of_putting hx
  obtain ⟨hk, hmsgs, -⟩ := Channel.poolPut_keeps hput
  have ha : a ∈ (σ.pc x).held := by simp [hheld]
  have hu : m.use = .held x := by rw [h.own ha hm, Pc.useOf_of_sends hsends]
  have hresp : σ.resps a = some b := by rw [resps_of_msg hm, hb]
  have hatt : σ.uses b = some (.attached a) := (h.answers.attached a b).1 hresp
  have hub : r.use = .attached a := by
    rw [uses_of_msg hr] at hatt
    exact Option.some.inj hatt
  have hab : a ≠ b := by
    rintro rfl
    rw [uses_of_msg hm, hu] at hatt
    cases hatt
  have hfree : ∀ z, b ∉ (σ.pc z).held := fun z hz => (h.in_hand hz).2 a hatt
  have hnq : b ∉ σ.queue := by rw [h.uses.queued, hatt]; simp
  -- the state between the two writes
  let σ₁ : State := { σ with chan := c₁ }
  have hm₁ : σ₁.chan.msgs a = some m := by
    rw [← hm]
    exact (congrFun hmsgs a).trans (Function.update_of_ne hab ..)
  have hset : (c₁.setMsg a { m with resp := none }).msgs =
      Function.update σ₁.chan.msgs a (some { m with resp := none }) := rfl
  have hkept : State.uses { σ with chan := c₁.setMsg a { m with resp := none } } = σ₁.uses :=
    uses_same hm₁ hset rfl
  have huses : State.uses { σ with chan := c₁.setMsg a { m with resp := none } } =
      Function.update σ.uses b none :=
    hkept.trans (uses_update (o := none) hmsgs)
  have hresps : State.resps { σ with chan := c₁.setMsg a { m with resp := none } } =
      Function.update σ.resps a none := by
    have hσ₁ : σ₁.resps = σ.resps :=
      resps_same (o := none) (by rw [resps_of_msg hr, hrr]; rfl) hmsgs
    rw [← hσ₁]
    exact resps_update (σ := σ₁) (o := some { m with resp := none }) rfl
  have hpc : Function.update σ.pc x (σ.pc x) = σ.pc := Function.update_eq_self ..
  refine ⟨?_, ?_, ?_, ?_⟩
  · rw [← hpc]
    refine h.uses.move huses (fun z _ => hfree z) (fun y _ => ⟨Iff.rfl, rfl⟩)
      (fun hy => absurd hy (hfree x)) (fun z hz => ?_) (h.uses.nodup x) (fun y _ => Iff.rfl)
      (iff_of_false hnq (by simp)) h.uses.queue_nodup
    rcases hz with e | e <;> cases e
  · rw [huses, hresps]
    refine ⟨fun d y hy => ?_, fun d y => ?_⟩
    · have hd : d ≠ a := by
        rintro rfl
        rw [Function.update_self] at hy
        cases hy
      rw [Function.update_of_ne hd] at hy
      exact h.answers.finish d y hy
    · by_cases hd : d = a
      · subst hd
        rw [Function.update_self]
        refine iff_of_false (by simp) fun e => ?_
        by_cases hy : y = b
        · subst hy
          rw [Function.update_self] at e
          cases e
        · rw [Function.update_of_ne hy, ← h.answers.attached, hresp] at e
          exact hy (Option.some.inj e).symm
      · rw [Function.update_of_ne hd, h.answers.attached]
        by_cases hy : y = b
        · subst hy
          rw [Function.update_self, hatt]
          exact iff_of_false (fun e => hd (Use.attached.inj (Option.some.inj e)).symm) (by simp)
        · rw [Function.update_of_ne hy]
  · have := h.locks
    rwa [← hk.lock] at this
  · obtain ⟨lists, ps, hT⟩ := h.table
    obtain ⟨lists', hT'⟩ := hT.put hr (by rw [Msg.pending, hub]) hput
    exact ⟨lists', ps, hT'.modify hm₁ rfl fun _ => rfl⟩

end Base

/-! ## Every run -/

/-- **A step keeps the channel sound**, unless a request fails to be sent. -/
theorem Step.base (hs : Step cfg σ act σ') (hok : Sends σ act) (h : Base cfg σ) : Base cfg σ' := by
  cases hs with
  | get hpc hl _ hget hm => exact h.get hpc hl hget hm
  | edit hpc hm => exact h.edit hpc hm
  | abandon hpc => exact h.refuse hpc
  | check hpc hm => exact h.check hpc hm
  | refuse hpc => exact h.refuse hpc
  | leave hpc hm hr => exact h.leave hpc hm hr
  | lockRequest hpc hm hl => exact h.lockRequest hpc hm hl
  | lockResponse hpc _ hl => exact h.lockResponse hpc hl
  | write hpc => exact h.write hpc
  | @fail n k a part rest m hpc hm =>
      cases k with
      | request => exact absurd hpc (hok n a part rest rfl)
      | response => exact h.fail hpc hm
  | unlockRequest hpc hm => exact h.unlockRequest hpc hm
  | unlockResponse hpc => exact h.unlockResponse hpc
  | close hx => exact h.close hx
  | closeUnlock hpc => exact h.closeUnlock hpc
  | closeReturn hpc => exact h.closeReturn hpc
  | putResp hx hm _ hc => exact h.putResp hx hm hc
  | put hx hm hr hc => exact h.put hx hm hr hc
  | take hpc hq hm => exact h.take hpc hq hm
  | drop hpc => exact h.drop hpc
  | find hpc _ _ _ hl hlook hrem hm => exact h.find hpc hl hlook hrem hm
  | handle hpc hm hr => exact h.handle hpc hm hr
  | finish hpc => exact h.finish hpc
  | recvStart hpc hl _ hget => exact h.recvStart hpc hl hget
  | recv hpc hm => exact h.schedule hpc hm rfl rfl
  | recvEnd hpc hm => exact h.schedule hpc hm rfl rfl
  | arrive => exact ⟨h.uses, h.answers, h.locks, h.table⟩

/-- A new channel is sound. -/
theorem base_initial {bufs : List Addr} {cmds : CmdId → ScsiCommand} (hnd : bufs.Nodup) :
    Base cfg (.initial bufs cmds) := by
  obtain ⟨lists, hT⟩ : ∃ lists, Table cfg (.initial bufs) lists [] := Table.initial hnd
  refine ⟨⟨fun x a ha => ?_, fun x a ha => ?_, fun x => List.nodup_nil, fun a => ?_, List.nodup_nil⟩,
    ⟨fun a b hb => ?_, fun a b => ?_⟩, fun x => ?_, lists, [], hT⟩
  · cases ha
  · rcases ha with e | e <;> cases e
  · exact iff_of_false (by simp [State.initial]) fun e => (by cases e)
  · cases hb
  · exact iff_of_false (fun e => (by cases e)) fun e => (by cases e)
  · exact iff_of_false (fun e => (by cases e)) fun e => (by cases e)

/-- **The channel is sound in every run** in which no request fails to be
sent. -/
theorem base_reachable (hσ : ((channelSystem cfg).only Sends).Reachable σ) : Base cfg σ := by
  refine hσ.invariant ?_ ?_
  · rintro σ ⟨bufs, cmds, hnd, -, rfl⟩
    exact base_initial hnd
  · rintro σ act σ' h ⟨he, hok⟩ hx
    exact (Step.of_exec he hx).base hok h

/-! ## How many buffers are free -/

/-- The pool has the memory of `owned` buffers, and at most `nbufs` of them
are free. -/
structure Sized (cfg : Cfg) (c : Channel) : Prop where
  memory : ∃ mem : List Addr, mem.Nodup ∧ (∀ a, a ∈ mem ↔ c.live a = true) ∧ c.owned = mem.length
  qlen_le : c.qlen ≤ cfg.nbufs

namespace Sized

variable {c c' : Channel} {lists : Option ℕ → List Addr} {ps : List Addr} {r : Bool}

theorem congr (h : Sized cfg c) (hl : c'.live = c.live) (ho : c'.owned = c.owned)
    (hq : c'.qlen = c.qlen) : Sized cfg c' :=
  ⟨by rw [hl, ho]; exact h.memory, by rw [hq]; exact h.qlen_le⟩

/-- `_bufpool_get` takes a free buffer or new memory. -/
theorem get (h : Sized cfg c) (hl : c.live alloc = false)
    (hget : c.poolGet cfg r alloc = some (c', b)) : Sized cfg c' := by
  have hle := h.qlen_le
  unfold Channel.poolGet at hget
  split at hget
  · split at hget
    · cases hget
    · split at hget
      · cases hget
      · obtain ⟨rfl, -⟩ := Prod.mk.inj (Option.some.inj hget)
        exact ⟨h.memory, by simp only; omega⟩
  · split at hget
    · obtain ⟨rfl, -⟩ := Prod.mk.inj (Option.some.inj hget)
      obtain ⟨mem, hnd, hmem, hlen⟩ := h.memory
      have hnot : alloc ∉ mem := fun hm => by
        rw [hmem, hl] at hm
        cases hm
      refine ⟨⟨alloc :: mem, List.nodup_cons.2 ⟨hnot, hnd⟩, fun y => ?_, by simp [hlen]⟩, hle⟩
      by_cases hy : y = alloc
      · simp [hy]
      · simp [hy, hmem]
    · cases hget

/-- **A buffer that comes back is queued only if `owned` allows it**, and it was
not free before. -/
theorem put (h : Sized cfg c) (hT : Table cfg c lists ps) (hm : c.msgs a = some m)
    (hput : c.poolPut cfg a = some c') : Sized cfg c' := by
  obtain ⟨mem, hnd, hmem, hlen⟩ := h.memory
  have hlive := hT.live a m hm
  simp only [Channel.poolPut] at hput
  split at hput
  · rename_i hle
    obtain rfl := Option.some.inj hput
    have hsub : a :: lists none ⊆ mem := by
      intro y hy
      rw [hmem]
      rcases List.mem_cons.1 hy with rfl | hy
      · exact hlive
      · exact (label_free_iff.1 ((hT.filed.mem none y).1 hy)).2
    have hnot : a ∉ lists none := fun hy => by
      have hfree := (label_free_iff.1 ((hT.filed.mem none a).1 hy)).1
      rw [hm] at hfree
      cases hfree
    have hcard := (List.Nodup.subperm
      (List.nodup_cons.2 ⟨hnot, hT.filed.rings.nodup none⟩) hsub).length_le
    have hq := hT.qlen
    rw [List.length_cons] at hcard
    exact ⟨⟨mem, hnd, hmem, hlen⟩, by simp only; omega⟩
  · split at hput
    · cases hput
    · obtain rfl := Option.some.inj hput
      have ha : a ∈ mem := (hmem a).2 hlive
      refine ⟨⟨mem.erase a, hnd.erase a, fun y => ?_, by
        simp only [hlen, List.length_erase_of_mem ha]⟩, h.qlen_le⟩
      rw [hnd.mem_erase_iff, hmem]
      by_cases hy : y = a
      · simp [hy]
      · simp [hy]

theorem hashRem (h : Sized cfg c) (hx : c.hashRem a = some c') : Sized cfg c' := by
  simp only [Channel.hashRem] at hx
  split at hx
  · split at hx
    · cases hx
    · exact Option.some.inj hx ▸ h
  · split at hx
    · cases hx
    · obtain rfl := Option.some.inj hx
      exact h.congr rfl rfl rfl

end Sized

/-- **A step keeps the free list in its bounds.** -/
theorem Step.sized (hs : Step cfg σ act σ') (hB : Base cfg σ) (h : Sized cfg σ.chan) :
    Sized cfg σ'.chan := by
  obtain ⟨lists, ps, hT⟩ := hB.table
  cases hs with
  | get _ hl _ hget _ =>
      obtain ⟨c₁, hpool, m, -, -, rfl⟩ := Channel.msgGet_cases hget
      exact (h.get hl hpool).congr rfl rfl rfl
  | recvStart _ hl _ hget => exact (h.get hl hget).congr rfl rfl rfl
  | putResp _ _ _ hc =>
      obtain ⟨m, b, r, c₁, -, -, hr, -, hput, rfl⟩ := Channel.putResp_cases hc
      exact (h.put hT hr hput).congr rfl rfl rfl
  | put _ hm _ hc => exact h.put hT hm hc
  | find _ _ _ _ _ _ hrem _ => exact (h.hashRem hrem).congr rfl rfl rfl
  | @close x s hx => cases s <;> exact h.congr rfl rfl rfl
  | _ => exact h.congr rfl rfl rfl

/-- **`q_len` is at most `nbufs`**, so that an `int` holds it where it holds
`nmsg`. -/
theorem qlen_le_reachable (hσ : ((channelSystem cfg).only Sends).Reachable σ) :
    σ.chan.qlen ≤ cfg.nbufs := by
  refine (hσ.invariant (I := fun σ => Base cfg σ ∧ Sized cfg σ.chan) ?_ ?_).2.qlen_le
  · rintro σ ⟨bufs, cmds, hnd, hlen, rfl⟩
    refine ⟨base_initial hnd, ⟨bufs, hnd, fun a => ?_, rfl⟩, ?_⟩
    · simp [State.initial, Channel.initial]
    · simp [State.initial, Channel.initial, hlen]
  · rintro σ act σ' ⟨hB, h⟩ ⟨he, hok⟩ hx
    have hs := Step.of_exec he hx
    exact ⟨hs.base hok hB, hs.sized hB h⟩

end Mpp

end VmwareProto
