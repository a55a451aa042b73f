import VmwareProto.Rpc.Steps
/-!
# What holds on every channel

`Base` puts the parts together: the tasks and their messages, the free
list, the hash for as long as `ok` asks for it, and what a closed
descriptor says about the channel. One lemma for each step. The one step
that can break the hash comes after the channel is disabled.
-/

namespace VmwareProto

namespace Rpc

open Libtask

variable {cfg : Cfg} {ok : Prop} {σ σ' : State} {a b alloc : Addr} {m : Msg} {n : TaskId} {k : Kind}
  {lists : Option ℕ → List Addr} {pending : List Addr} {c : Channel} {l : QLock} {act : Action}

structure Base (cfg : Cfg) (ok : Prop) (σ : State) : Prop where
  uses : Uses σ
  sound : ∃ lists pending, Sound cfg ok σ.chan lists pending
  /-- while the receiver is in its loop, only a close disables the channel -/
  gate : σ.recv ≠ .left → σ.chan.isOpen = true → σ.chan.enabled = true
  /-- a task on its error path has closed the channel -/
  failed : ∀ n k a res, σ.pc n = .unlock k a res → σ.chan.enabled = false

theorem not_pending (hu : ∀ n, m.use ≠ .request n) : ¬ m.Pending := fun ⟨⟨n, h⟩, _⟩ => hu n h

theorem Base.weaken {ok' : Prop} (h : Base cfg ok σ) (hok : ok' → ok) : Base cfg ok' σ := by
  obtain ⟨lists, pending, hS⟩ := h.sound
  exact ⟨h.uses, ⟨lists, pending, hS.weaken hok⟩, h.gate, h.failed⟩

/-- A message's response is another message, and not pending. -/
theorem Uses.resp_ne (h : Uses σ) (hm : σ.chan.msgs a = some m) :
    ∀ b, m.resp = some b → b ≠ a ∧ ∃ r, σ.chan.msgs b = some r ∧ ¬ r.Pending := fun b hb => by
  obtain ⟨r, hr, hru, -⟩ := h.resp a m b hm hb
  refine ⟨?_, r, hr, not_pending fun n => by rw [hru]; simp⟩
  rintro rfl
  rw [hm] at hr
  obtain rfl := Option.some.inj hr
  rcases (h.fits b m hm).resp_cases (by simp [hb]) with ⟨n, e⟩ | ⟨res, e⟩ <;>
    · rw [hru] at e; cases e

/-- **A message is put** by a task that may leave its call with it. -/
theorem put_spec (pc' : TaskId → Pc) (hU : Uses σ) (hS : Sound cfg ok σ.chan lists pending)
    (hm : σ.chan.msgs a = some m) (hp : ok → ¬ m.Pending) (hread : m.use ≠ .reading)
    (hatt : ∀ b, m.use ≠ .attached b)
    (hpc : ∀ t, pc' t = σ.pc t ∨ pc' t = .idle ∧ ∃ k, (σ.pc t).call = some (k, a))
    (hown : ∀ k t, m.use = Kind.use t k → pc' t = .idle)
    (hput : Channel.msgPut cfg { σ.chan with fdlock := l } a = some c) :
    Uses { σ with chan := c, pc := pc' } ∧ (∃ lists', Sound cfg ok c lists' pending) ∧
      Channel.Keeps { σ.chan with fdlock := l } c := by
  have hS' : Sound cfg ok { σ.chan with fdlock := l } lists pending := hS.congr rfl rfl rfl rfl rfl
  obtain ⟨hs, hmsgs, hk⟩ := msgPut_spec hS' hm hp (hU.resp_ne hm) hput
  exact ⟨hU.put hm hmsgs hpc hown rfl hread hatt, hs, hk⟩

/-- What a put leaves of the channel, by the use the message was in. -/
theorem Base.put_keeps (h : Base cfg ok σ) (hm : σ.chan.msgs a = some m)
    (hu : ∀ n, m.use ≠ .request n)
    (hput : Channel.msgPut cfg { σ.chan with fdlock := l } a = some c) :
    Channel.Keeps { σ.chan with fdlock := l } c := by
  obtain ⟨lists, pending, hS⟩ := h.sound
  have hS' : Sound cfg ok { σ.chan with fdlock := l } lists pending := hS.congr rfl rfl rfl rfl rfl
  exact (msgPut_spec hS' hm (fun _ => not_pending hu) (h.uses.resp_ne hm) hput).2.2

theorem Base.response_keeps (h : Base cfg ok σ) (hcall : (σ.pc n).call = some (.response, a))
    (hput : Channel.msgPut cfg { σ.chan with fdlock := l } a = some c) :
    Channel.Keeps { σ.chan with fdlock := l } c := by
  obtain ⟨m, hm, hu⟩ := h.uses.call n .response a hcall
  exact h.put_keeps hm (by simp [hu, Kind.use]) hput

/-! ## Tasks -/

/-- `RPC_CHAN_LOCK`, by a task that was in no call. -/
theorem Base.lock {m' : Msg} (h : Base cfg ok σ) (hS : Sound cfg ok c lists pending)
    (hm : σ.chan.msgs a = some m) (hn : σ.pc n = .idle)
    (hu : m.use = .fresh ∨ m.use = .handed) (hu' : m'.use = k.use n)
    (hresp : m'.resp = m.resp) (hz : m'.rendez = m.rendez) (hid : m'.hdr.seqid = m.hdr.seqid)
    (hmsgs : c.msgs = Function.update σ.chan.msgs a (some m'))
    (henabled : c.enabled = σ.chan.enabled) (hopen : c.isOpen = σ.chan.isOpen) :
    Base cfg ok (State.lock { σ with chan := c } n a k m') := by
  have hfit := h.uses.fits a m hm
  have hzn : m.rendez = [] ∧ m.resp = none := by
    rcases hu with hu | hu <;> simpa only [Msg.Fits, hu] using hfit
  have hnot : ∀ k t, m.use ≠ Kind.use t k := fun k t => by
    rcases hu with hu | hu <;> rw [hu] <;> cases k <;> simp [Kind.use]
  have huses : ∀ p σ', p.call = some (k, a) → p ≠ .asleep a → p ≠ .woken a →
      (∀ k b res, p ≠ .unlock k b res) →
      σ'.chan.msgs = Function.update σ.chan.msgs a (some m') →
      σ'.pc = Function.update σ.pc n p → σ'.recv = σ.recv → Uses σ' := by
    intro p σ' hcall hs hw hu₀ hm' hp hr
    refine h.uses.act hm hm' hp hr (fun k t e => absurd e (hnot k t)) (by simp [hn, Pc.call])
      (fun k' b e => ?_) (fun k b res e => absurd e (hu₀ k b res))
      (by rcases hu with hu | hu <;> simp [hu]) (by rcases hu with hu | hu <;> simp [hu]) hresp hid ?_
    · obtain ⟨rfl, rfl⟩ : k = k' ∧ a = b := by simpa [hcall] using e
      exact ⟨rfl, hu'⟩
    · cases k <;> simp only [Msg.Fits, hu', Kind.use, hp, Function.update_self] <;>
        simp [hcall, hs, hw, hz, hzn, hresp]
  have hfailed : ∀ p, (∀ k b res, p ≠ .unlock k b res) →
      ∀ t k b res, Function.update σ.pc n p t = .unlock k b res → c.enabled = false := by
    intro p hp t k b res ht
    by_cases htn : t = n
    · subst htn
      rw [Function.update_self] at ht
      exact absurd ht (hp k b res)
    · rw [Function.update_of_ne htn] at ht
      rw [henabled]
      exact h.failed t k b res ht
  have hgate : σ.recv ≠ .left → c.isOpen = true → c.enabled = true := by
    rw [hopen, henabled]; exact h.gate
  rcases State.lock_cases { σ with chan := c } n a k m' with ⟨-, e⟩ | ⟨-, e⟩
  · rw [e]
    exact ⟨huses (.send k a .header m'.hdrBytes) _ rfl (by simp) (by simp) (by simp) hmsgs rfl rfl,
      ⟨lists, pending, hS.congr rfl rfl rfl rfl rfl⟩, hgate, hfailed _ (by simp)⟩
  · rw [e]
    exact ⟨huses (.lockWait k a) _ rfl (by simp) (by simp) (by simp) hmsgs rfl rfl,
      ⟨lists, pending, hS.congr rfl rfl rfl rfl rfl⟩, hgate, hfailed _ (by simp)⟩

theorem Base.request (h : Base cfg ok σ) (hen : σ.chan.enabled = true → ok) (hn : σ.pc n = .idle)
    (hfresh : ∀ m, σ.chan.msgs a = some m → m.use = .fresh) (hx : σ.request cfg n a = some σ') :
    Base cfg ok σ' := by
  obtain ⟨lists, pending, hS⟩ := h.sound
  obtain ⟨m, hm, has, ⟨hd, rfl⟩ | ⟨he, m', rfl, rfl⟩⟩ := State.request_cases hx
  · -- a disabled channel: back with the error
    have hu := hfresh m hm
    have hz := h.uses.fits a m hm
    simp only [Msg.Fits, hu] at hz
    refine ⟨h.uses.act (n := n) (p := .idle) hm rfl ?_ rfl ?_ (by simp [hn, Pc.call])
      (by simp [Pc.call]) (by simp) (by simp [hu]) (by simp [hu]) rfl rfl ?_,
      ⟨lists, pending, ?_⟩, h.gate, h.failed⟩
    · rw [← hn, Function.update_eq_self]
    · intro k t e; rw [hu] at e; cases k <;> cases e
    · simp [Msg.Fits, hz, eDisabled]
    · exact hS.replace hm (fun _ => not_pending (by simp [hu])) fun _ => not_pending (by simp)
  · have hu := hfresh m hm
    obtain ⟨lists', hS'⟩ := hashAdd_spec { m with hdr := m.hdr.setReq, use := .request n }
      hS (hen he) hm (not_pending (by simp [hu])) ⟨⟨n, rfl⟩, has.2.2⟩
    exact h.lock (k := .request) hS' hm hn (.inl hu) rfl rfl rfl rfl rfl rfl rfl

theorem Base.response (h : Base cfg ok σ) (hn : σ.pc n = .idle)
    (hhanded : ∀ m, σ.chan.msgs a = some m → m.use = .handed) (hx : σ.response cfg n a = some σ') :
    Base cfg ok σ' := by
  obtain ⟨lists, pending, hS⟩ := h.sound
  obtain ⟨m, hm, has, ⟨hd, l, c, hl, hput, rfl⟩ | ⟨he, m', rfl, rfl⟩⟩ := State.response_cases hx
  · -- a disabled channel: unlocked all the same, and put
    have hu := hhanded m hm
    obtain ⟨hU, ⟨lists', hS'⟩, hk⟩ := put_spec σ.pc h.uses hS hm
      (fun _ => not_pending (by simp [hu])) (by simp [hu]) (by simp [hu]) (fun t => .inl rfl)
      (fun k t e => by rw [hu] at e; cases k <;> cases e) hput
    exact ⟨hU, ⟨lists', pending, hS'⟩, by simp only [hk.enabled, hk.isOpen]; exact h.gate,
      by simp only [hk.enabled]; exact h.failed⟩
  · have hu := hhanded m hm
    refine h.lock (k := .response) (hS.replace hm ?_ ?_) hm hn (.inr hu) rfl rfl rfl rfl rfl rfl rfl
    · exact fun _ => not_pending (by simp [hu])
    · exact fun _ => not_pending (by simp)

/-- A task moves on within its call. -/
theorem Base.advance {p : Pc} (h : Base cfg ok σ) (hcall : (σ.pc n).call = some (k, a))
    (hp : p.call = some (k, a)) (hsleep : ∀ a, σ.pc n ≠ .asleep a) (hsleep' : ∀ a, p ≠ .asleep a)
    (hwoken : ∀ a, p ≠ .woken a)
    (herr : ∀ k b res, p = .unlock k b res → res ≠ 0 ∧ σ'.chan.enabled = false)
    (hm : σ'.chan.msgs = σ.chan.msgs) (hp' : σ'.pc = Function.update σ.pc n p)
    (hr : σ'.recv = σ.recv) (hS : ∃ lists pending, Sound cfg ok σ'.chan lists pending)
    (hgate : σ'.recv ≠ .left → σ'.chan.isOpen = true → σ'.chan.enabled = true)
    (hdis : σ.chan.enabled = false → σ'.chan.enabled = false) : Base cfg ok σ' := by
  obtain ⟨m, hma, hu⟩ := h.uses.call n k a hcall
  have hfit := h.uses.fits a m hma
  refine ⟨h.uses.act hma ?_ hp' hr (fun k' t e => (Kind.use_inj (hu.symm.trans e)).2.symm) ?_ ?_
    (fun k b res e => (herr k b res e).1) ?_ ?_ rfl rfl ?_, hS, hgate, fun t k' b res ht => ?_⟩
  · rw [hm, ← hma, Function.update_eq_self]
  · intro k' b e
    rw [hcall] at e
    exact (congrArg Prod.snd (Option.some.inj e)).symm
  · intro k' b e
    rw [hp] at e
    obtain ⟨rfl, rfl⟩ := Prod.mk.inj (Option.some.inj e)
    exact ⟨rfl, hu⟩
  · rw [hu]; cases k <;> simp [Kind.use]
  · rw [hu]; cases k <;> simp [Kind.use]
  · cases k with
    | request =>
        simp only [Kind.use] at hu
        simp only [Msg.Fits, hu] at hfit ⊢
        rw [if_neg (hsleep a)] at hfit
        rw [hp', Function.update_self, if_neg (hsleep' a)]
        exact ⟨hp, hfit.2.1, fun e => absurd e (hwoken a)⟩
    | response =>
        simp only [Kind.use] at hu
        simp only [Msg.Fits, hu] at hfit ⊢
        rw [hp', Function.update_self]
        exact ⟨hp, hfit.2⟩
  · rw [hp'] at ht
    by_cases htn : t = n
    · subst htn
      rw [Function.update_self] at ht
      exact (herr k' b res ht).2
    · rw [Function.update_of_ne htn] at ht
      exact hdis (h.failed t k' b res ht)

/-- A response is put, sent or not: the task leaves its call. -/
theorem Base.leaveResponse (h : Base cfg ok σ) (hcall : (σ.pc n).call = some (.response, a))
    (hput : Channel.msgPut cfg { σ.chan with fdlock := l } a = some c) :
    Base cfg ok { σ with chan := c, pc := Function.update σ.pc n .idle } := by
  obtain ⟨lists, pending, hS⟩ := h.sound
  obtain ⟨m, hm, hu⟩ := h.uses.call n _ a hcall
  simp only [Kind.use] at hu
  obtain ⟨hU, ⟨lists', hS'⟩, hk⟩ := put_spec (Function.update σ.pc n .idle) h.uses hS hm
    (fun _ => not_pending (by simp [hu])) (by simp [hu]) (by simp [hu])
    (fun t => by
      by_cases htn : t = n
      · subst htn; exact .inr ⟨by rw [Function.update_self], _, hcall⟩
      · exact .inl (Function.update_of_ne htn _ _))
    (fun k t e => by
      have := (Kind.use_inj (k := .response) (hu.symm.trans e)).2
      rw [← this, Function.update_self]) hput
  refine ⟨hU, ⟨lists', pending, hS'⟩, by simp only [hk.enabled, hk.isOpen]; exact h.gate,
    fun t k b res ht => ?_⟩
  by_cases htn : t = n
  · subst htn; simp at ht
  · simp only [Function.update_of_ne htn] at ht
    simp only [hk.enabled]
    exact h.failed t k b res ht

/-- A request's task changes its message and goes to sleep or returns. -/
theorem Base.request_moves {p : Pc} {m' : Msg} (h : Base cfg ok σ)
    (hcall : (σ.pc n).call = some (.request, a)) (hm : σ.chan.msgs a = some m)
    (hresp : m'.resp = m.resp) (hhdr : m'.hdr = m.hdr)
    (hp : p = .asleep a ∧ m'.use = m.use ∧ m'.rendez = [n] ∨
      p = .idle ∧ ∃ res, m'.use = .returned res ∧ m'.rendez = [] ∧ (res = 0 → m.resp ≠ none) ∧
        (ok → m.resp ≠ none)) :
    Base cfg ok { σ with
      chan := { σ.chan with fdlock := l }.setMsg a m', pc := Function.update σ.pc n p } := by
  obtain ⟨lists, pending, hS⟩ := h.sound
  obtain ⟨m₀, hm₀, hu⟩ := h.uses.call n _ a hcall
  obtain rfl : m = m₀ := by rw [hm] at hm₀; exact Option.some.inj hm₀
  simp only [Kind.use] at hu
  have hid : m'.hdr.seqid = m.hdr.seqid := by rw [hhdr]
  have hS' : Sound cfg ok { σ.chan with fdlock := l } lists pending := hS.congr rfl rfl rfl rfl rfl
  have hunl : ∀ k b res, p ≠ .unlock k b res := by
    rcases hp with ⟨rfl, -⟩ | ⟨rfl, -⟩ <;> simp
  refine ⟨h.uses.act (p := p) hm rfl rfl rfl ?_ ?_ ?_ (fun k b res e => absurd e (hunl k b res))
    (by simp [hu]) (by simp [hu]) hresp hid ?_, ⟨lists, pending, hS'.modify hm ?_ hid⟩, h.gate, ?_⟩
  · intro k t e
    exact (Kind.use_inj (k := .request) (hu.symm.trans e)).2.symm
  · intro k b e
    rw [hcall] at e
    exact (congrArg Prod.snd (Option.some.inj e)).symm
  · rcases hp with ⟨rfl, hu', -⟩ | ⟨rfl, -⟩
    · intro k b e
      obtain ⟨rfl, rfl⟩ := Prod.mk.inj (Option.some.inj e)
      exact ⟨rfl, hu'.trans hu⟩
    · intro k b e; cases e
  · rcases hp with ⟨rfl, hu', hz⟩ | ⟨rfl, res, hu', hz, hres, -⟩
    · simp [Msg.Fits, hu'.trans hu, hz, Pc.call]
    · simp only [Msg.Fits, hu', hz, hresp]
      exact ⟨trivial, hres⟩
  · intro hok
    rcases hp with ⟨-, hu', -⟩ | ⟨-, res, hu', -, -, hr⟩
    · simp only [Msg.Pending, hu', hresp]
    · exact iff_of_false (not_pending (by simp [hu'])) fun e => hr hok e.2
  · intro t k b res ht
    by_cases htn : t = n
    · subst htn
      simp only [Function.update_self] at ht
      exact absurd ht (hunl k b res)
    · simp only [Function.update_of_ne htn] at ht
      exact h.failed t k b res ht

theorem Base.complete (h : Base cfg ok σ) {part : Part} {rest : List Byte}
    (hpc : σ.pc n = .send k a part rest) (hx : σ.complete cfg n a k = some σ') :
    Base cfg ok σ' := by
  obtain ⟨l, hl, ⟨rfl, m, hm, rfl⟩ | ⟨rfl, c, hput, rfl⟩⟩ := State.complete_cases hx
  · have hcall : (σ.pc n).call = some (.request, a) := by rw [hpc]; rfl
    have hz : m.rendez = [] := h.uses.awake hcall hm (by simp [hpc])
    exact h.request_moves (p := .asleep a) (l := l) hcall hm rfl rfl (.inl ⟨rfl, rfl, by simp [hz]⟩)
  · exact h.leaveResponse (by rw [hpc]; rfl) hput

theorem Base.write {r : WriteResult} (h : Base cfg ok σ) (hr : ∀ e, r = .error e → e ≠ 0)
    (hx : σ.write cfg n r = some σ') : Base cfg ok σ' := by
  obtain ⟨lists, pending, hS⟩ := h.sound
  obtain ⟨k, a, part, rest, hpc, ⟨-, rfl⟩ | ⟨res, hres, rfl⟩ |
    ⟨j, m, rfl, hm, ⟨part', rest', -, rfl⟩ | ⟨-, hx⟩⟩⟩ := State.write_cases hx
  · exact h
  · have hne : res ≠ 0 := by
      rcases hres with ⟨-, rfl⟩ | e
      · simp [eConn]
      · exact hr res e
    refine h.advance (k := k) (a := a) (p := .unlock k a res) (by rw [hpc]; rfl) rfl (by simp [hpc])
      (by simp) (by simp) (fun k b res' e => ?_) rfl rfl rfl
      ⟨lists, pending, hS.congr rfl rfl rfl rfl rfl⟩ (fun _ ho => by cases ho) fun _ => rfl
    obtain ⟨-, -, rfl⟩ : _ ∧ _ ∧ res = res' := by simpa using e
    exact ⟨hne, rfl⟩
  · exact h.advance (k := k) (a := a) (p := .send k a part' rest') (by rw [hpc]; rfl) rfl
      (by simp [hpc]) (by simp) (by simp) (by simp) rfl rfl rfl ⟨lists, pending, hS⟩ h.gate id
  · have h' : Base cfg ok { σ with sent := σ.sent ++ rest.take j } :=
      ⟨h.uses.congr rfl rfl rfl, ⟨lists, pending, hS⟩, h.gate, h.failed⟩
    exact h'.complete hpc hx

theorem Base.resume (h : Base cfg ok σ) (hx : σ.resume n = some σ') : Base cfg ok σ' := by
  obtain ⟨k, a, m, hpc, hm, -, rfl⟩ := State.resume_cases hx
  exact h.advance (k := k) (a := a) (p := .send k a .header m.hdrBytes) (by rw [hpc]; rfl) rfl
    (by simp [hpc]) (by simp) (by simp) (by simp) rfl rfl rfl h.sound h.gate id

/-- The error path's end. Where the table is kept, the request that failed
must have been answered already. -/
theorem Base.unlock (h : Base cfg ok σ)
    (hbad : ok → ∀ a res m, σ.pc n = .unlock .request a res → σ.chan.msgs a = some m → m.resp ≠ none)
    (hx : σ.unlock cfg n = some σ') : Base cfg ok σ' := by
  obtain ⟨k, a, res, l, hpc, -, ⟨rfl, m, hm, rfl⟩ | ⟨rfl, c, hput, rfl⟩⟩ := State.unlock_cases hx
  · have hcall : (σ.pc n).call = some (.request, a) := by rw [hpc]; rfl
    have hz : m.rendez = [] := h.uses.awake hcall hm (by simp [hpc])
    exact h.request_moves (p := .idle) (l := l) hcall hm rfl rfl (.inr ⟨rfl, res, rfl, hz,
      fun e => absurd e (h.uses.error n _ a res hpc), fun hok => hbad hok a res m hpc hm⟩)
  · exact h.leaveResponse (by rw [hpc]; rfl) hput

theorem Base.wake (h : Base cfg ok σ) (hx : σ.wake n = some σ') : Base cfg ok σ' := by
  obtain ⟨a, m, hpc, hm, hr, rfl⟩ := State.wake_cases hx
  have hcall : (σ.pc n).call = some (.request, a) := by rw [hpc]; rfl
  have hz : m.rendez = [] := h.uses.awake hcall hm (by simp [hpc])
  exact h.request_moves (p := .idle) (l := σ.chan.fdlock) hcall hm rfl rfl
    (.inr ⟨rfl, 0, rfl, hz, fun _ => hr, fun _ => hr⟩)

/-! ## The receiver -/

theorem Base.dispatch {q : Recv} (h : Base cfg ok σ) (hen : σ.chan.enabled = true → ok)
    (hq : σ.recv = .receiving b q) (hu : m.use = .reading) (hr : m.resp = none) (hz : m.rendez = [])
    (he : m.hdr.isConnClosed = false → σ.chan.enabled = true)
    (hx : σ.dispatch cfg b m = some σ') : Base cfg ok σ' := by
  obtain ⟨lists, pending, hS⟩ := h.sound
  obtain ⟨m₀, hm₀, hu₀⟩ := h.uses.buffer b q hq
  have hhand : ∀ m', m'.use = .handed → Sound cfg ok (σ.chan.setMsg b m') lists pending :=
    fun m' hm' => hS.replace hm₀ (fun _ => not_pending (by simp [hu₀]))
      fun _ => not_pending (by simp [hm'])
  rcases State.dispatch_cases hx with ⟨-, rfl⟩ | ⟨-, -, rfl⟩ | ⟨hc, hreq, hx⟩
  · refine ⟨h.uses.hand { m with use := .handed } hq rfl rfl (by simp [State.leave]) rfl hz hr,
      ⟨lists, pending, ?_⟩, fun hl => absurd rfl hl, fun _ _ _ _ _ => rfl⟩
    exact (hhand _ rfl).congr rfl rfl rfl rfl rfl
  · exact ⟨h.uses.hand { m with use := .handed } hq rfl rfl (by simp) rfl hz hr,
      ⟨lists, pending, hhand _ rfl⟩, fun _ => h.gate (by simp [hq]), h.failed⟩
  · rcases State.rpcResponse_spec h.uses hS (hen (he hc)) hq hu with
      ⟨a, p, n, c', hp, hpu, hpr, hid, hx', hmsgs, hk, hS'⟩ | ⟨hx', -⟩
    · rw [hx] at hx'
      obtain rfl := Option.some.inj hx'
      refine ⟨h.uses.attach (r := { m with use := .attached a }) hq hp hpu hid.symm hreq hz hr rfl
        hmsgs rfl rfl, hS', fun _ => ?_, fun t k c res ht => ?_⟩
      · simp only [hk.isOpen, hk.enabled]
        exact h.gate (by simp [hq])
      · simp only [hk.enabled]
        simp only at ht
        split at ht
        · by_cases htn : t = n
          · subst htn; simp at ht
          · rw [Function.update_of_ne htn] at ht
            exact h.failed t k c res ht
        · exact h.failed t k c res ht
    · rw [hx] at hx'; cases hx'

theorem Base.settle {q r : Recv} (h : Base cfg ok σ) (hen : σ.chan.enabled = true → ok)
    (hq : σ.recv = .receiving b q) (he : ∀ d, r.pc = .done d → σ.chan.enabled = true)
    (hx : σ.settle cfg b r = some σ') : Base cfg ok σ' := by
  rcases State.settle_cases hx with ⟨-, rfl⟩ | ⟨-, hx⟩
  · exact ⟨h.uses.read hq rfl rfl rfl, h.sound, fun _ => h.gate (by simp [hq]), h.failed⟩
  · obtain ⟨m, hu, hr, hz, hx, ⟨⟨d, hd⟩, -⟩ | ⟨-, hc⟩⟩ := State.deliver_cases hx
    · exact h.dispatch hen hq hu hr hz (fun _ => he d hd) hx
    · exact h.dispatch hen hq hu hr hz (by simp [hc]) hx

/-- The receiver's steps. -/
def Action.Receiving : Action → Prop
  | .recvStart _ => True
  | .recvTake _ => True
  | .recvOther _ => True
  | .recvData => True
  | _ => False

/-- A step of the receiver up to where `_rpc_receive` goes on or has
returned. -/
structure Prepared (cfg : Cfg) (ok : Prop) (σ σ₁ : State) (b : Addr) (q r : Recv) : Prop where
  base : Base cfg ok σ₁
  recv : σ₁.recv = .receiving b q
  keeps : σ.chan.Keeps σ₁.chan
  pc : σ₁.pc = σ.pc
  sent : σ₁.sent = σ.sent
  log : σ₁.log = σ.log
  arrived : σ₁.arrived = σ.arrived
  gets : σ₁.gets = σ.gets
  msgs : ∀ a m, σ.chan.msgs a = some m → σ₁.chan.msgs a = some m
  done : ∀ d, r.pc = .done d → σ₁.chan.enabled = true

theorem prepared_recvStart (h : Base cfg ok σ) (hl : σ.chan.live alloc = false)
    (hq : σ.recv = .idle) (hx : σ.recvStart cfg alloc = some σ') :
    ∃ σ₁ b r, Prepared cfg ok σ σ₁ b r r ∧ σ₁.settle cfg b r = some σ' ∧
      r = .start σ.chan.enabled ∧ σ₁.inq = σ.inq ∧
      ∀ y, y ≠ b → σ₁.chan.msgs y = σ.chan.msgs y := by
  obtain ⟨lists, pending, hS⟩ := h.sound
  obtain ⟨c, b, hget, hx⟩ := State.recvStart_cases hx
  obtain ⟨⟨lists', hS'⟩, hm, hnone, hk⟩ := poolGet_setMsg (m := .ofBytes cfg.toRecvCfg []) hS hl hget
    (not_pending (by simp [Msg.ofBytes]))
  refine ⟨{ σ with
      chan := c.setMsg b (.ofBytes cfg.toRecvCfg [])
      recv := .receiving b (.start c.enabled) }, b, .start c.enabled, ⟨⟨h.uses.new (.ofBytes cfg.toRecvCfg []) hnone (by simp [hm]) rfl (by simp [hq])
    (fun x r e => .inr ?_) rfl ⟨⟨_, rfl⟩, rfl, rfl⟩, ⟨lists', pending, hS'⟩, fun _ => ?_, ?_⟩, rfl,
    hk.trans keeps_setMsg, rfl, rfl, rfl, rfl, rfl, fun y p hp => ?_, fun d hd => ?_⟩, hx,
    by rw [hk.enabled], rfl, fun y hy => by rw [setMsg_msgs, Function.update_of_ne hy, hm]⟩
  · obtain ⟨rfl, -⟩ : b = x ∧ _ := by simpa using e
    exact ⟨rfl, rfl⟩
  · simp only [setMsg_isOpen, setMsg_enabled, hk.isOpen, hk.enabled]
    exact h.gate (by simp [hq])
  · simp only [setMsg_enabled, hk.enabled]
    exact h.failed
  · have hyb : y ≠ b := by rintro rfl; rw [hnone] at hp; cases hp
    rw [setMsg_msgs, Function.update_of_ne hyb, hm, hp]
  · cases hce : c.enabled <;> simp [Recv.start, hce] at hd

/-- **A step of the receiver**: it gets where `_rpc_receive` goes on, and
has a whole message only if the channel is enabled. -/
theorem receiving_cases (h : Base cfg ok σ) (he : act.Allowed cfg σ)
    (hx : act.exec cfg σ = some σ') (hact : act.Receiving) :
    ∃ σ₁ b q r, Prepared cfg ok σ σ₁ b q r ∧ σ₁.settle cfg b r = some σ' := by
  cases act with
  | recvStart alloc =>
      obtain ⟨σ₁, b, r, hp, hx, -⟩ := prepared_recvStart h he.2.1 he.1 hx
      exact ⟨σ₁, b, r, r, hp, hx⟩
  | recvTake j =>
      obtain ⟨-, -, -, ho, -⟩ := he
      obtain ⟨b, r, r', hq, -, hx⟩ := State.recvTake_cases hx
      exact ⟨{ σ with inq := σ.inq.drop j }, b, r, r', ⟨⟨h.uses.congr rfl rfl rfl, h.sound, h.gate, h.failed⟩, hq, .refl _, rfl,
        rfl, rfl, rfl, rfl, fun _ _ hp => hp, fun _ _ => h.gate (by simp [hq]) ho⟩, hx⟩
  | recvOther res =>
      obtain ⟨b₀, r₀, hq₀, hread, hres⟩ := he
      obtain ⟨b, r, r', hq, hr', hx⟩ := State.recvOther_cases hx
      obtain ⟨-, rfl⟩ := RecvTask.receiving.inj (hq₀.symm.trans hq)
      refine ⟨σ, b, r₀, r', ⟨h, hq, .refl _, rfl, rfl, rfl, rfl, rfl, fun _ _ hp => hp,
        fun d hd => ?_⟩, hx⟩
      cases res with
      | bytes bs => exact absurd rfl (hres bs)
      | again =>
          obtain rfl := Option.some.inj hr'
          simp [Recv.Reading, Recv.wanted, hd] at hread
      | closed => rw [← Option.some.inj hr'] at hd; cases hd
      | error => rw [← Option.some.inj hr'] at hd; cases hd
  | recvData =>
      obtain ⟨b, r, r', hq, hr', hx⟩ := State.recvData_cases hx
      refine ⟨σ, b, r, r', ⟨h, hq, .refl _, rfl, rfl, rfl, rfl, rfl, fun _ _ hp => hp,
        fun d hd => ?_⟩, hx⟩
      unfold Recv.getData at hr'
      split at hr'
      · rw [← Option.some.inj hr'] at hd; cases hd
      · cases hr'
  | _ => cases hact

theorem Base.receiving (h : Base cfg ok σ) (hen : σ.chan.enabled = true → ok)
    (he : act.Allowed cfg σ) (hx : act.exec cfg σ = some σ') (hact : act.Receiving) :
    Base cfg ok σ' := by
  obtain ⟨σ₁, b, q, r, hp, hx⟩ := receiving_cases h he hx hact
  exact hp.base.settle (by rw [hp.keeps.enabled]; exact hen) hp.recv hp.done hx

/-! ## Every step -/

/-- `rpc_chan_deinit` touches no message and moves a task in no call. -/
theorem deinit_cases (hx : σ.deinit n = some σ') (hn : σ.pc n = .idle) :
    ∃ st p, (p = .idle ∨ p = .draining) ∧
      σ' = { σ with chan := { σ.chan with state := st }, pc := Function.update σ.pc n p } := by
  unfold State.deinit at hx
  split at hx
  · cases hx
  · simp only at hx
    split at hx
    · exact ⟨.deiniting, .draining, .inr rfl, (Option.some.inj hx).symm⟩
    · simp only [Channel.finish, Option.bind_eq_bind] at hx
      split at hx
      · cases hx
      · split at hx
        · cases hx
        · refine ⟨.gone, .idle, .inl rfl, ?_⟩
          rw [← hn, Function.update_eq_self]
          exact (Option.some.inj hx).symm

theorem drained_cases (hx : σ.drained n = some σ') :
    σ' = { σ with chan := { σ.chan with state := .gone }, pc := Function.update σ.pc n .idle } := by
  simp only [State.drained, Channel.finish, Option.bind_eq_bind] at hx
  split at hx
  · cases hx
  · split at hx
    · cases hx
    · exact (Option.some.inj hx).symm

/-- A task in no call moves, and stays in none. -/
theorem Base.idle {p : Pc} {st : PoolState} (h : Base cfg ok σ) (hn : (σ.pc n).call = none)
    (hp : p.call = none) :
    Base cfg ok { σ with
      chan := { σ.chan with state := st }, pc := Function.update σ.pc n p } := by
  obtain ⟨lists, pending, hS⟩ := h.sound
  have hcall : ∀ t, (Function.update σ.pc n p t).call = (σ.pc t).call := fun t => by
    by_cases htn : t = n
    · subst htn; rw [Function.update_self, hn, hp]
    · rw [Function.update_of_ne htn]
  have hne : ∀ t, (σ.pc t).call ≠ none → Function.update σ.pc n p t = σ.pc t := fun t ht => by
    have htn : t ≠ n := fun e => ht (e ▸ hn)
    rw [Function.update_of_ne htn]
  have hun : ∀ t k a res, Function.update σ.pc n p t = .unlock k a res → σ.pc t = .unlock k a res :=
    fun t k a res ht => by
      rw [← hne t ?_, ht]
      rw [← hcall t]
      simp [ht, Pc.call]
  refine ⟨⟨fun a m hm => ?_, fun t k a ht => ?_, fun t k a res ht => ?_, h.uses.buffer, h.uses.resp⟩,
    ⟨lists, pending, hS.congr rfl rfl rfl rfl rfl⟩, h.gate, fun t k a res ht => ?_⟩
  · have hf := h.uses.fits a m hm
    exact hf.frame (fun k t hu => hne t (by rw [hf.call hu]; simp)) fun _ r hr => ⟨r, hr⟩
  · simp only [hcall] at ht
    exact h.uses.call t k a ht
  · exact h.uses.error t k a res (hun t k a res ht)
  · exact h.failed t k a res (hun t k a res ht)

/-- **Every step keeps `Base`.** Requests and responses are hashed only while
the channel is enabled, so that is when the table is needed; and where it
is to be kept, a request fails only after it was answered. -/
theorem Base.step (h : Base cfg ok σ) (hen : σ.chan.enabled = true → ok)
    (hbad : ok → ∀ n a res m, act = .unlock n → σ.pc n = .unlock .request a res →
      σ.chan.msgs a = some m → m.resp ≠ none)
    (he : act.Allowed cfg σ) (hx : act.exec cfg σ = some σ') : Base cfg ok σ' := by
  obtain ⟨lists, pending, hS⟩ := h.sound
  cases act with
  | msgGet alloc msgtype msglen payloadlen payload =>
      simp only [Action.exec, Option.bind_eq_bind, Option.bind_eq_some_iff] at hx
      obtain ⟨⟨c, b⟩, hget, hx⟩ := hx
      obtain rfl := Option.some.inj hx
      obtain ⟨⟨lists', hS'⟩, hb, m, hm, hu, hr, hz, -, -, hen', hop, -⟩ := msgGet_spec hS he.1 hget
      exact ⟨h.uses.new m hb hm rfl (fun x r e => ⟨r, e⟩) (fun x r e => .inl e) hr
        (by simp [Msg.Fits, hu, hr, hz]), ⟨lists', pending, hS'⟩,
        by simp only [hen', hop]; exact h.gate, by simp only [hen']; exact h.failed⟩
  | edit a msglen payloadlen status body payload =>
      simp only [Action.exec, Option.bind_eq_bind, Option.bind_eq_some_iff] at hx
      obtain ⟨m, hm, hx⟩ := hx
      obtain rfl := Option.some.inj hx
      obtain ⟨m₀, hm₀, hu⟩ := he
      obtain rfl : m = m₀ := by rw [hm] at hm₀; exact Option.some.inj hm₀
      exact ⟨h.uses.edit hm rfl rfl rfl rfl rfl rfl rfl (by rcases hu with hu | hu <;> simp [hu]),
        ⟨lists, pending, hS.modify hm (fun _ => .rfl) rfl⟩, h.gate, h.failed⟩
  | msgPut a =>
      simp only [Action.exec, Option.bind_eq_bind, Option.bind_eq_some_iff] at hx
      obtain ⟨c, hput, hx⟩ := hx
      obtain rfl := Option.some.inj hx
      obtain ⟨m, hm, hu⟩ := he
      have hnot : ∀ k t, m.use ≠ Kind.use t k := fun k t => by
        rcases hu with hu | hu | ⟨res, hu⟩ <;> rw [hu] <;> cases k <;> simp [Kind.use]
      obtain ⟨hU, ⟨lists', hS'⟩, hk⟩ := put_spec σ.pc h.uses hS hm
        (fun _ => not_pending (hnot .request))
        (by rcases hu with hu | hu | ⟨res, hu⟩ <;> simp [hu])
        (by rcases hu with hu | hu | ⟨res, hu⟩ <;> simp [hu]) (fun t => .inl rfl)
        (fun k t e => absurd e (hnot k t)) hput
      exact ⟨hU, ⟨lists', pending, hS'⟩, by simp only [hk.enabled, hk.isOpen]; exact h.gate,
        by simp only [hk.enabled]; exact h.failed⟩
  | request n a =>
      obtain ⟨hn, m, hm, hu, -⟩ := he
      exact h.request hen hn (fun m' hm' => by rw [hm] at hm'; exact Option.some.inj hm' ▸ hu) hx
  | response n a =>
      obtain ⟨hn, m, hm, hu, -⟩ := he
      exact h.response hn (fun m' hm' => by rw [hm] at hm'; exact Option.some.inj hm' ▸ hu) hx
  | resume n => exact h.resume hx
  | write n r =>
      obtain ⟨k, a, part, rest, -, hr⟩ := he
      exact h.write (by rintro e rfl; exact hr) hx
  | unlock n => exact h.unlock (fun hok a res m => hbad hok n a res m rfl) hx
  | wake n => exact h.wake hx
  | close =>
      obtain rfl := Option.some.inj hx
      exact ⟨h.uses.congr rfl rfl rfl, ⟨lists, pending, hS.congr rfl rfl rfl rfl rfl⟩,
        fun _ ho => (by cases ho), fun _ _ _ _ _ => rfl⟩
  | deinit n =>
      obtain ⟨st, p, hp, rfl⟩ := deinit_cases hx he
      have hn : σ.pc n = .idle := he
      exact h.idle (by rw [hn]; rfl) (by rcases hp with rfl | rfl <;> rfl)
  | drained n =>
      rw [drained_cases hx]
      exact h.idle (by rw [he.1]; rfl) rfl
  | recvStart alloc => exact h.receiving hen he hx trivial
  | recvTake j => exact h.receiving hen he hx trivial
  | recvOther res => exact h.receiving hen he hx trivial
  | recvData => exact h.receiving hen he hx trivial
  | arrive bs =>
      obtain rfl := Option.some.inj hx
      exact ⟨h.uses.congr rfl rfl rfl, h.sound, h.gate, h.failed⟩

theorem base_initial {bufs : List Addr} (hnd : bufs.Nodup) : Base cfg ok (.initial bufs) where
  uses := ⟨by simp [State.initial, Channel.initial], by simp [State.initial, Pc.call],
    by simp [State.initial], by simp [State.initial], by simp [State.initial, Channel.initial]⟩
  sound := ⟨_, _, initial_spec hnd⟩
  gate _ _ := rfl
  failed := by simp [State.initial]

end Rpc

end VmwareProto
