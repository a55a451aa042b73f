import VmwareProto.Mpp.Uses
/-!
# Every step keeps the channel sound

As long as no request fails to be sent, the uses fit, the lock is where it
should be and the lists are sound. One lemma for each kind of step.
-/

namespace VmwareProto

namespace Mpp

variable {cfg : Cfg} {σ σ' : State} {act : Action} {x y z : Actor} {a b alloc : Addr} {m m' r : Msg}
  {p q : Pc} {c c' : Channel} {o : Option Msg} {k : Kind} {e : CmdId} {s : ScsiCommand}

theorem uses_update (h : σ'.chan.msgs = Function.update σ.chan.msgs a o) :
    σ'.uses = Function.update σ.uses a (o.map Msg.use) := by
  ext1 y
  simp only [State.uses, h, Function.update_apply]
  split <;> rfl

theorem resps_update (h : σ'.chan.msgs = Function.update σ.chan.msgs a o) :
    σ'.resps = Function.update σ.resps a (o.bind Msg.resp) := by
  ext1 y
  simp only [State.resps, h, Function.update_apply]
  split <;> rfl

theorem uses_same (hm : σ.chan.msgs a = some m)
    (h : σ'.chan.msgs = Function.update σ.chan.msgs a (some m')) (hu : m'.use = m.use) :
    σ'.uses = σ.uses := by
  have ha : σ.uses a = some m'.use := by rw [State.uses, hm, hu]; rfl
  rw [uses_update h, Option.map_some, ← ha, Function.update_eq_self]

theorem resps_same (hr : o.bind Msg.resp = σ.resps a)
    (h : σ'.chan.msgs = Function.update σ.chan.msgs a o) : σ'.resps = σ.resps := by
  rw [resps_update h, hr, Function.update_eq_self]

theorem resps_of_msg (hm : σ.chan.msgs a = some m) : σ.resps a = m.resp := by
  rw [State.resps, hm]
  rfl

theorem resps_kept (hm : σ.chan.msgs a = some m)
    (h : σ'.chan.msgs = Function.update σ.chan.msgs a (some m')) (hr : m'.resp = m.resp) :
    σ'.resps = σ.resps :=
  resps_same (by rw [resps_of_msg hm, ← hr]; rfl) h

theorem uses_of_msg (hm : σ.chan.msgs a = some m) : σ.uses a = some m.use := by
  rw [State.uses, hm]
  rfl

namespace Base

/-- What an actor has in hand. -/
theorem own (h : Base cfg σ) (ha : a ∈ (σ.pc x).held) (hm : σ.chan.msgs a = some m) :
    m.use = (σ.pc x).useOf x a := by
  have := h.uses.own x a ha
  rw [uses_of_msg hm] at this
  exact Option.some.inj this

/-- An actor's message has no response, unless the actor is putting the two. -/
theorem no_resp (h : Base cfg σ) (ha : a ∈ (σ.pc x).held) (hf : ∀ e s, σ.pc x ≠ .finish a e s) :
    σ.resps a = none := by
  cases hr : σ.resps a with
  | none => rfl
  | some b =>
      obtain ⟨y, e, s, hy⟩ := h.answers.finish a b hr
      have hay : a ∈ (σ.pc y).held := by rw [hy]; exact List.mem_singleton_self a
      obtain rfl := h.uses.unique ha hay
      exact absurd hy (hf e s)

/-- A message that is in nobody's hands has none. -/
theorem no_resp_of_use (h : Base cfg σ) (hu : ∀ x, σ.uses a ≠ some (.held x)) : σ.resps a = none := by
  cases hr : σ.resps a with
  | none => rfl
  | some b =>
      obtain ⟨y, e, s, hy⟩ := h.answers.finish a b hr
      have hay : a ∈ (σ.pc y).held := by rw [hy]; exact List.mem_singleton_self a
      have hown := h.uses.own y a hay
      rw [Pc.useOf_of_sends (by rw [hy]; rfl)] at hown
      exact absurd hown (hu y)

/-- **An actor moves on** with the message it has, whose use stays. -/
theorem move (h : Base cfg σ) (huses : σ'.uses = σ.uses) (hresps : σ'.resps = σ.resps)
    (hqueue : σ'.queue = σ.queue) (hpc : σ'.pc = Function.update σ.pc x q)
    (hh : q.held = (σ.pc x).held) (hs : q.sends = (σ.pc x).sends)
    (hf : ∀ a e s, σ.pc x ≠ .finish a e s) (hlock : Locks σ'.chan.lock σ'.pc)
    (htable : ∃ lists ps, Table cfg σ'.chan lists ps) : Base cfg σ' := by
  refine ⟨?_, ?_, hlock, htable⟩
  · rw [huses, hqueue, hpc]
    exact h.uses.stay hh hs
  · rw [huses, hresps, hpc]
    exact h.answers.stay fun a e s hx => absurd hx (hf a e s)

/-- **An actor changes the use** of its one message, or gets or gives away
one. -/
theorem exchange (h : Base cfg σ) (hmsgs : σ'.chan.msgs = Function.update σ.chan.msgs a o)
    (hpc : σ'.pc = Function.update σ.pc x q) (hfree : ∀ z, z ≠ x → a ∉ (σ.pc z).held)
    (hp : (σ.pc x).held ⊆ [a]) (hq : q.held ⊆ [a]) (hnd : q.held.Nodup)
    (hown : a ∈ q.held → o.map Msg.use = some (q.useOf x a))
    (hheld : ∀ z, o.map Msg.use = some (.held z) ∨ o.map Msg.use = some (.sending z) →
      z = x ∧ a ∈ q.held)
    (hqueue : ∀ y, y ≠ a → (y ∈ σ'.queue ↔ y ∈ σ.queue))
    (hqa : a ∈ σ'.queue ↔ o.map Msg.use = some .queued) (hqnd : σ'.queue.Nodup)
    (hold : ∀ d, σ.uses a ≠ some (.attached d)) (hnew : ∀ d, o.map Msg.use ≠ some (.attached d))
    (hresp : σ.resps a = none) (hresp' : o.bind Msg.resp = none)
    (hlock : Locks σ'.chan.lock σ'.pc) (htable : ∃ lists ps, Table cfg σ'.chan lists ps) :
    Base cfg σ' := by
  have hnot : ∀ {l : List Addr} {y}, l ⊆ [a] → y ≠ a → y ∉ l := fun hl hy hm =>
    hy (List.mem_singleton.1 (hl hm))
  have hsends : ∀ {r : Pc} {y}, r.held ⊆ [a] → y ≠ a → r.useOf x y = .held x := by
    intro r y hr hy
    rw [Pc.useOf, if_neg]
    intro hs
    refine hnot hr hy ?_
    cases r with
    | send k b part rest => cases k <;> simp_all [Pc.sends, Pc.held]
    | unlock k b => cases k <;> simp_all [Pc.sends, Pc.held]
    | _ => cases hs
  refine ⟨?_, ?_, hlock, htable⟩
  · rw [hpc]
    refine h.uses.move (uses_update hmsgs) hfree (fun y hy => ⟨?_, ?_⟩) hown hheld hnd hqueue hqa hqnd
    · exact iff_of_false (hnot hq hy) (hnot hp hy)
    · rw [hsends hq hy, hsends hp hy]
  · rw [uses_update hmsgs, resps_same (by rw [hresp', hresp]) hmsgs, hpc]
    refine h.answers.move hold hnew fun b e s hx => ?_
    have hb : b ∈ (σ.pc x).held := by rw [hx]; exact List.mem_singleton_self b
    rw [List.mem_singleton.1 (hp hb), hresp]

/-- A use that is nobody's hands. -/
theorem free (h : Base cfg σ) {u : Option Use} (hu : σ.uses a = u) (hh : ∀ z, u ≠ some (.held z))
    (hs : ∀ z, u ≠ some (.sending z)) (x : Actor) : ∀ z, z ≠ x → a ∉ (σ.pc z).held :=
  h.uses.free fun z _ => by
    rw [hu]
    exact ⟨hh z, hs z⟩

/-- What one actor has no other one has. -/
theorem mine (h : Base cfg σ) (ha : a ∈ (σ.pc x).held) : ∀ z, z ≠ x → a ∉ (σ.pc z).held :=
  fun _ hz hz' => hz (h.uses.unique hz' ha)

/-- A message in hand is in no work item and answers nothing. -/
theorem in_hand (h : Base cfg σ) (ha : a ∈ (σ.pc x).held) :
    a ∉ σ.queue ∧ ∀ d, σ.uses a ≠ some (.attached d) := by
  have hown := h.uses.own x a ha
  have hcases := useOf_cases (σ.pc x) x a
  refine ⟨fun hq => ?_, fun d hd => ?_⟩
  · rw [h.uses.queued, hown] at hq
    rcases hcases with e | ⟨e, -⟩ <;> rw [e] at hq <;> cases hq
  · rw [hown] at hd
    rcases hcases with e | ⟨e, -⟩ <;> rw [e] at hd <;> cases hd

/-- A message in hand that is not being sent is not pending. -/
theorem not_pending (h : Base cfg σ) (ha : a ∈ (σ.pc x).held) (hs : (σ.pc x).sends = none)
    (hm : σ.chan.msgs a = some m) : m.pending = false := by
  rw [Msg.pending, h.own ha hm, Pc.useOf_of_sends hs]

/-- **A buffer from the pool**, for an actor that has none. -/
theorem new (h : Base cfg σ) (hnone : σ.chan.msgs a = none) (hx : (σ.pc x).held = [])
    (hmsgs : σ'.chan.msgs = Function.update σ.chan.msgs a (some m))
    (hpc : σ'.pc = Function.update σ.pc x q) (hqueue : σ'.queue = σ.queue) (hq : q.held = [a])
    (hs : q.sends = none) (hu : m.use = .held x) (hr : m.resp = none)
    (hlock : Locks σ'.chan.lock σ'.pc) (htable : ∃ lists ps, Table cfg σ'.chan lists ps) :
    Base cfg σ' := by
  have huse : σ.uses a = none := by rw [State.uses, hnone]; rfl
  have hresp : σ.resps a = none := by rw [State.resps, hnone]; rfl
  have hnq : a ∉ σ.queue := by rw [h.uses.queued, huse]; simp
  refine h.exchange hmsgs hpc (h.free huse (by simp) (by simp) x) (by simp [hx]) (by simp [hq])
    (by simp [hq]) (fun _ => ?_) (fun z hz => ?_) (fun y _ => by rw [hqueue]) ?_
    (by rw [hqueue]; exact h.uses.queue_nodup) (by simp [huse]) (by simp [hu]) hresp hr hlock htable
  · rw [Option.map_some, hu, Pc.useOf_of_sends hs]
  · rw [Option.map_some, hu] at hz
    rcases hz with e | e <;> cases e
    simp [hq]
  · rw [hqueue]
    exact iff_of_false hnq (by simp [hu])

/-- **A message leaves its actor's hands**: it is put, sent, scheduled or
left behind. -/
theorem give (h : Base cfg σ) (hx : (σ.pc x).held = [a]) (hm : σ.chan.msgs a = some m)
    (hresp : m.resp = none) (hmsgs : σ'.chan.msgs = Function.update σ.chan.msgs a o)
    (hpc : σ'.pc = Function.update σ.pc x q) (hq : q.held = [])
    (ho : o = none ∨ ∃ m', o = some m' ∧ m'.resp = none ∧
      (m'.use = .pending ∨ m'.use = .returned ∨ m'.use = .queued))
    (hqueue : (o.map Msg.use ≠ some .queued ∧ σ'.queue = σ.queue) ∨
      o.map Msg.use = some .queued ∧ σ'.queue = σ.queue ++ [a])
    (hlock : Locks σ'.chan.lock σ'.pc) (htable : ∃ lists ps, Table cfg σ'.chan lists ps) :
    Base cfg σ' := by
  have ha : a ∈ (σ.pc x).held := by simp [hx]
  obtain ⟨hnq, hatt⟩ := h.in_hand ha
  have hu : ∀ u, o.map Msg.use = some u → u = .pending ∨ u = .returned ∨ u = .queued := by
    rintro u hu
    rcases ho with rfl | ⟨m', rfl, -, hm'⟩
    · cases hu
    · rwa [← Option.some.inj hu]
  have hmem : ∀ y, y ≠ a → (y ∈ σ'.queue ↔ y ∈ σ.queue) := fun y hy => by
    rcases hqueue with ⟨-, e⟩ | ⟨-, e⟩
    · rw [e]
    · simp [e, hy]
  refine h.exchange hmsgs hpc (h.mine ha) (by simp [hx]) (by simp [hq]) (by simp [hq])
    (fun hm => by simp [hq] at hm) (fun z hz => ?_) hmem ?_ ?_ hatt (fun d hd => ?_)
    (by rw [resps_of_msg hm, hresp]) ?_ hlock htable
  · rcases hz with e | e <;> rcases hu _ e with e | e | e <;> cases e
  · rcases hqueue with ⟨hne, e⟩ | ⟨he, e⟩
    · rw [e]
      exact iff_of_false hnq hne
    · rw [e]
      exact iff_of_true (by simp) he
  · rcases hqueue with ⟨-, e⟩ | ⟨-, e⟩
    · rw [e]
      exact h.uses.queue_nodup
    · rw [e, List.nodup_append]
      refine ⟨h.uses.queue_nodup, by simp, fun y hy z hz hyz => hnq ?_⟩
      rw [← List.mem_singleton.1 hz, ← hyz]
      exact hy
  · rcases hu _ hd with e | e | e <;> cases e
  · rcases ho with rfl | ⟨m', rfl, hr, -⟩
    · rfl
    · exact hr

/-- **A message changes its use in the hands** of its actor. -/
theorem keep (h : Base cfg σ) (hx : (σ.pc x).held = [a]) (hm : σ.chan.msgs a = some m)
    (hresp : m.resp = none) (hmsgs : σ'.chan.msgs = Function.update σ.chan.msgs a (some m'))
    (hpc : σ'.pc = Function.update σ.pc x q) (hqueue : σ'.queue = σ.queue) (hq : q.held = [a])
    (hu : m'.use = q.useOf x a) (hr : m'.resp = none)
    (hlock : Locks σ'.chan.lock σ'.pc) (htable : ∃ lists ps, Table cfg σ'.chan lists ps) :
    Base cfg σ' := by
  have ha : a ∈ (σ.pc x).held := by simp [hx]
  obtain ⟨hnq, hatt⟩ := h.in_hand ha
  have hcases := useOf_cases q x a
  have hne : ∀ u, u ≠ .held x → u ≠ .sending x → m'.use ≠ u := fun u h₁ h₂ => by
    rw [hu]
    rcases hcases with e | ⟨e, -⟩ <;> rw [e]
    · exact h₁.symm
    · exact h₂.symm
  refine h.exchange hmsgs hpc (h.mine ha) (by simp [hx]) (by simp [hq]) (by simp [hq])
    (fun _ => by rw [Option.map_some, hu]) (fun z hz => ⟨?_, by simp [hq]⟩)
    (fun y _ => by rw [hqueue]) ?_ (by rw [hqueue]; exact h.uses.queue_nodup) hatt (fun d hd => ?_)
    (by rw [resps_of_msg hm, hresp]) hr hlock htable
  · rw [Option.map_some, hu] at hz
    rcases hcases with e | ⟨e, -⟩ <;> rw [e] at hz <;> rcases hz with hz | hz <;> cases hz <;> rfl
  · rw [hqueue]
    exact iff_of_false hnq fun e => hne .queued (by simp) (by simp) (Option.some.inj e)
  · exact hne (.attached d) (by simp) (by simp) (Option.some.inj hd)

/-- A step that moves no lock. -/
theorem same_lock (h : Base cfg σ) (hl : σ'.chan.lock = σ.chan.lock)
    (hpc : σ'.pc = Function.update σ.pc x q) (hq : q.locked = (σ.pc x).locked) :
    Locks σ'.chan.lock σ'.pc := by
  rw [hpc]
  exact h.locks.move hl hq

/-- A step that leaves the lists alone. -/
theorem same_table (h : Base cfg σ) (hl : c.links = σ.chan.links) (hc : c.count = σ.chan.count)
    (hq : c.qlen = σ.chan.qlen) (hv : c.live = σ.chan.live) (hm : c.msgs = σ.chan.msgs) :
    ∃ lists ps, Table cfg c lists ps := by
  obtain ⟨lists, ps, hT⟩ := h.table
  exact ⟨lists, ps, hT.congr hl hc hq hv hm⟩

/-- One that rewrites a message, with what the lists see of it unchanged. -/
theorem set_table (h : Base cfg σ) (hm : σ.chan.msgs a = some m) (hp : m'.pending = m.pending)
    (hid : m.pending = true → m'.frame.hdr.seqid = m.frame.hdr.seqid) :
    ∃ lists ps, Table cfg (σ.chan.setMsg a m') lists ps := by
  obtain ⟨lists, ps, hT⟩ := h.table
  exact ⟨lists, ps, hT.modify hm hp hid⟩

/-! ## The steps -/

theorem get {n msgtype msglen : ℕ} {pad : HdrPad} {body : List Byte} {l : List CmdId} (h : Base cfg σ)
    (hpc : σ.pc (.world n) = .idle) (hl : σ.chan.live alloc = false)
    (hget : σ.chan.msgGet cfg (.world n) alloc msgtype msglen pad body = some (c, a))
    (hm : c.msgs a = some m) :
    Base cfg ({ σ with
      chan := c.setMsg a { m with exCmd := e }
      issued := l }.setPc (.world n) (.got k a)) := by
  obtain ⟨lists, ps, hT⟩ := h.table
  obtain ⟨hnone, m₀, hmsgs, hu, hr, hlock, lists', hT'⟩ := hT.msgGet hl hget
  obtain rfl : m = m₀ := by
    rw [hmsgs, Function.update_self] at hm
    exact (Option.some.inj hm).symm
  have hset : (c.setMsg a { m with exCmd := e }).msgs =
      Function.update σ.chan.msgs a (some { m with exCmd := e }) := by
    rw [Channel.setMsg_msgs, hmsgs, Function.update_idem]
  exact h.new hnone (x := .world n) (q := .got k a) (by rw [hpc]; rfl) hset rfl rfl rfl rfl hu hr
    (h.same_lock hlock rfl (by rw [hpc]; rfl)) ⟨lists', ps, hT'.modify hm rfl fun _ => rfl⟩

theorem edit {n : ℕ} {f : Frame} (h : Base cfg σ) (hpc : σ.pc (.world n) = .got k a)
    (hm : σ.chan.msgs a = some m) :
    Base cfg { σ with chan := σ.chan.setMsg a { m with frame := f } } := by
  have hp := h.not_pending (x := .world n) (by simp [hpc, Pc.held]) (by rw [hpc]; rfl) hm
  refine h.move (x := .world n) (q := .got k a) (uses_same hm rfl rfl)
    (resps_kept hm rfl rfl) rfl ?_ (by rw [hpc]) (by rw [hpc]) (by simp [hpc]) h.locks
    (h.set_table hm rfl fun hp' => ?_)
  · rw [← hpc, Function.update_eq_self]
  · rw [hp] at hp'
    cases hp'

theorem check {n : ℕ} (h : Base cfg σ) (hpc : σ.pc (.world n) = .got k a)
    (hm : σ.chan.msgs a = some m) :
    Base cfg ({ σ with
      chan := σ.chan.setMsg a { m with
        frame := { m.frame with hdr := k.set m.frame.hdr } } }.setPc (.world n) (.checked k a)) := by
  have hid : (k.set m.frame.hdr).seqid = m.frame.hdr.seqid := by cases k <;> rfl
  exact h.move (x := .world n) (q := .checked k a) (uses_same hm rfl rfl)
    (resps_kept hm rfl rfl) rfl rfl (by rw [hpc]; rfl) (by rw [hpc]; rfl)
    (by simp [hpc]) (h.same_lock rfl rfl (by rw [hpc]; rfl)) (h.set_table hm rfl fun _ => hid)

/-- A step on which the channel's memory does not change. -/
theorem goes (h : Base cfg σ) (hchan : σ'.chan.msgs = σ.chan.msgs) (hqueue : σ'.queue = σ.queue)
    (hpc : σ'.pc = Function.update σ.pc x q) (hh : q.held = (σ.pc x).held)
    (hs : q.sends = (σ.pc x).sends) (hf : ∀ a e s, σ.pc x ≠ .finish a e s)
    (hlock : Locks σ'.chan.lock σ'.pc) (hl : σ'.chan.links = σ.chan.links)
    (hc : σ'.chan.count = σ.chan.count) (hq : σ'.chan.qlen = σ.chan.qlen)
    (hv : σ'.chan.live = σ.chan.live) : Base cfg σ' :=
  h.move (by ext1 y; rw [State.uses, hchan]; rfl) (by ext1 y; rw [State.resps, hchan]; rfl) hqueue hpc
    hh hs hf hlock (h.same_table hl hc hq hv hchan)

theorem leave {n : ℕ} (h : Base cfg σ) (hpc : σ.pc (.world n) = .got .response a)
    (hm : σ.chan.msgs a = some m) (hr : m.resp = none) :
    Base cfg ({ σ with
      chan := σ.chan.setMsg a { m with use := .returned } }.setPc (.world n) .idle) := by
  have hp := h.not_pending (x := .world n) (by simp [hpc, Pc.held]) (by rw [hpc]; rfl) hm
  exact h.give (x := .world n) (q := .idle) (by rw [hpc]; rfl) hm hr rfl rfl rfl
    (.inr ⟨_, rfl, hr, .inr (.inl rfl)⟩) (.inl ⟨by simp, rfl⟩)
    (h.same_lock rfl rfl (by rw [hpc]; rfl)) (h.set_table hm (by rw [hp]; rfl) fun _ => rfl)

theorem lockRequest {n : ℕ} (h : Base cfg σ) (hpc : σ.pc (.world n) = .checked .request a)
    (hm : σ.chan.msgs a = some m) (hl : σ.chan.lock = none) :
    Base cfg ({ σ with
      chan := ({ σ.chan with lock := some (.world n) }.setMsg a { m with
        use := .sending (.world n) }).hashAdd a (cfg.getBucket m.frame.hdr.seqid)
      log := σ.log ++ [m.frame] }.setPc (.world n)
        (.sending .request a m.frame .header m.frame.hdrBytes)) := by
  obtain ⟨lists, ps, hT⟩ := h.table
  have ha : a ∈ (σ.pc (.world n)).held := by simp [hpc, Pc.held]
  have hp := h.not_pending ha (by rw [hpc]; rfl) hm
  have hr : m.resp = none := by
    rw [← resps_of_msg hm]
    exact h.no_resp ha (by simp [hpc])
  have hlocks := h.locks
  rw [hl] at hlocks
  have hT' : Table cfg { σ.chan with lock := some (.world n) } lists ps :=
    hT.congr rfl rfl rfl rfl rfl
  have hadd : ∃ lists', Table cfg (({ σ.chan with lock := some (.world n) }.setMsg a { m with
      use := .sending (.world n) }).hashAdd a (cfg.getBucket m.frame.hdr.seqid)) lists' (a :: ps) :=
    hT'.add hm hp rfl
  obtain ⟨lists', hadd⟩ := hadd
  exact h.keep (x := .world n) (q := .sending .request a m.frame .header m.frame.hdrBytes)
    (by rw [hpc]; rfl) hm hr rfl rfl rfl (held_sending ..)
    (by rw [Pc.useOf, sends_sending]; simp) hr (hlocks.take (locked_sending ..)) ⟨lists', _, hadd⟩

theorem lockResponse {n : ℕ} (h : Base cfg σ) (hpc : σ.pc (.world n) = .checked .response a)
    (hl : σ.chan.lock = none) :
    Base cfg ({ σ with
      chan := { σ.chan with lock := some (.world n) }
      log := σ.log ++ [m.frame] }.setPc (.world n)
        (.sending .response a m.frame .header m.frame.hdrBytes)) := by
  have hlocks := h.locks
  rw [hl] at hlocks
  exact h.goes (x := .world n) rfl rfl rfl (by rw [held_sending, hpc]; rfl)
    (by rw [sends_sending, hpc]; rfl) (by simp [hpc]) (hlocks.take (locked_sending ..)) rfl rfl rfl rfl

theorem write {n j : ℕ} {part : Part} {rest : List Byte} (h : Base cfg σ)
    (hpc : σ.pc (.world n) = .send k a part rest) :
    Base cfg ({ σ with sent := σ.sent ++ rest.take j }.setPc (.world n)
      (.sending k a m.frame part (rest.drop j))) :=
  h.goes (x := .world n) rfl rfl rfl (by rw [held_sending, hpc]; rfl)
    (by rw [sends_sending, hpc]; cases k <;> rfl) (by simp [hpc])
    (h.same_lock rfl rfl (by rw [locked_sending, hpc]; rfl)) rfl rfl rfl rfl

/-- A response that fails to be sent is its sender's as before. -/
theorem fail {n : ℕ} {part : Part} {rest : List Byte} (h : Base cfg σ)
    (hpc : σ.pc (.world n) = .send .response a part rest) (hm : σ.chan.msgs a = some m) :
    Base cfg ({ σ with chan := σ.chan.setMsg a { m with use := .held (.world n) } }.setPc (.world n)
      (.failing .response a .test)) := by
  have ha : a ∈ (σ.pc (.world n)).held := by simp [hpc, Pc.held]
  have hu : m.use = .held (.world n) := by
    rw [h.own ha hm, Pc.useOf_of_sends (by rw [hpc]; rfl)]
  exact h.move (x := .world n) (q := .failing .response a .test) (uses_same hm rfl hu.symm)
    (resps_kept hm rfl rfl) rfl rfl (by rw [hpc]; rfl) (by rw [hpc]; rfl)
    (by simp [hpc]) (h.same_lock rfl rfl (by rw [hpc]; rfl))
    (h.set_table hm (by simp only [Msg.pending, hu]) fun _ => rfl)

theorem unlockRequest {n : ℕ} {l : List CmdId} (h : Base cfg σ)
    (hpc : σ.pc (.world n) = .unlock .request a) (hm : σ.chan.msgs a = some m) :
    Base cfg ({ σ with
      chan := { σ.chan with lock := none }.setMsg a { m with use := .pending }
      accepted := l }.setPc (.world n) .idle) := by
  obtain ⟨lists, ps, hT⟩ := h.table
  have ha : a ∈ (σ.pc (.world n)).held := by simp [hpc, Pc.held]
  have hu : m.use = .sending (.world n) := by
    rw [h.own ha hm, Pc.useOf, hpc, Pc.sends, if_pos rfl]
  have hr : m.resp = none := by
    rw [← resps_of_msg hm]
    exact h.no_resp ha (by simp [hpc])
  have hT' : Table cfg { σ.chan with lock := none } lists ps := hT.congr rfl rfl rfl rfl rfl
  exact h.give (x := .world n) (q := .idle) (by rw [hpc]; rfl) hm hr rfl rfl rfl
    (.inr ⟨_, rfl, hr, .inl rfl⟩) (.inl ⟨by simp, rfl⟩)
    (h.locks.release (x := .world n) (by rw [hpc]; rfl) rfl)
    ⟨lists, ps, hT'.modify hm (by simp only [Msg.pending, hu]) fun _ => rfl⟩

theorem unlockResponse {n : ℕ} (h : Base cfg σ) (hpc : σ.pc (.world n) = .unlock .response a) :
    Base cfg ({ σ with chan := { σ.chan with lock := none } }.setPc (.world n) (.put .response a)) :=
  h.goes (x := .world n) rfl rfl rfl (by rw [hpc]; rfl) (by rw [hpc]; rfl) (by simp [hpc])
    (h.locks.release (x := .world n) (by rw [hpc]; rfl) rfl) rfl rfl rfl rfl

theorem refuse {n : ℕ} (h : Base cfg σ) (hpc : σ.pc (.world n) = .got k a) :
    Base cfg (σ.setPc (.world n) (.put k a)) :=
  h.goes (x := .world n) rfl rfl rfl (by rw [hpc]; rfl) (by rw [hpc]; rfl) (by simp [hpc])
    (h.same_lock rfl rfl (by rw [hpc]; rfl)) rfl rfl rfl rfl

theorem close {t : Closing} (h : Base cfg σ) (hx : (σ.pc x).closer = some t) :
    Base cfg ({ σ with chan := (σ.closeStep t).1 }.setPc x ((σ.pc x).reclose (σ.closeStep t).2)) := by
  have hchan : (σ.closeStep t).1.msgs = σ.chan.msgs ∧ (σ.closeStep t).1.lock = σ.chan.lock ∧
      (σ.closeStep t).1.links = σ.chan.links ∧ (σ.closeStep t).1.count = σ.chan.count ∧
      (σ.closeStep t).1.qlen = σ.chan.qlen ∧ (σ.closeStep t).1.live = σ.chan.live := by
    cases t <;> exact ⟨rfl, rfl, rfl, rfl, rfl, rfl⟩
  obtain ⟨hmsgs, hlock, hlinks, hcount, hqlen, hlive⟩ := hchan
  have hplace : ∀ u, ((σ.pc x).reclose u).held = (σ.pc x).held ∧
      ((σ.pc x).reclose u).sends = (σ.pc x).sends ∧ ((σ.pc x).reclose u).locked = (σ.pc x).locked := by
    intro u
    cases σ.pc x <;> exact ⟨rfl, rfl, rfl⟩
  obtain ⟨hheld, hsends, hlocked⟩ := hplace (σ.closeStep t).2
  refine h.goes hmsgs rfl rfl hheld hsends (fun a e s hf => ?_) (h.same_lock hlock rfl hlocked) hlinks
    hcount hqlen hlive
  rw [hf] at hx
  cases hx

theorem closeUnlock (h : Base cfg σ) (hpc : σ.pc x = .failing k a .out) :
    Base cfg ({ σ with chan := { σ.chan with lock := none } }.setPc x (.put k a)) :=
  h.goes rfl rfl rfl (by rw [hpc]; rfl) (by rw [hpc]; rfl) (by simp [hpc])
    (h.locks.release (x := x) (by rw [hpc]; rfl) rfl) rfl rfl rfl rfl

theorem closeReturn (h : Base cfg σ) (hpc : σ.pc x = .closing .out) : Base cfg (σ.setPc x .idle) :=
  h.goes rfl rfl rfl (by rw [hpc]; rfl) (by rw [hpc]; rfl) (by simp [hpc])
    (h.same_lock rfl rfl (by rw [hpc]; rfl)) rfl rfl rfl rfl

theorem drop {n : ℕ} (h : Base cfg σ) (hpc : σ.pc (.worker n) = .item b) :
    Base cfg (σ.setPc (.worker n) (.dropped b)) :=
  h.goes rfl rfl rfl (by rw [hpc]; rfl) (by rw [hpc]; rfl) (by simp [hpc])
    (h.same_lock rfl rfl (by rw [hpc]; rfl)) rfl rfl rfl rfl

theorem finish {n : ℕ} {cmds : CmdId → ScsiCommand} {l : List CmdId} (h : Base cfg σ)
    (hpc : σ.pc (.worker n) = .done e s) :
    Base cfg ({ σ with cmds := cmds, completed := l }.setPc (.worker n) .idle) :=
  h.goes (x := .worker n) rfl rfl rfl (by rw [hpc]; rfl) (by rw [hpc]; rfl) (by simp [hpc])
    (h.same_lock rfl rfl (by rw [hpc]; rfl)) rfl rfl rfl rfl

end Base

end Mpp

end VmwareProto
