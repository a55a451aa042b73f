import VmwareProto.Rpc.Table
import VmwareProto.Rpc.Tasks
/-!
# Messages and the tasks that use them

`Uses` ties each message to the one task that is sending it, each task in a
call to its message, the receiver to its buffer, and each response to its
request. It holds in every state of every run, on broken channels too. One
lemma for each way a step can change it.
-/

namespace VmwareProto

namespace Rpc

open Libtask

variable {cfg : Cfg} {σ σ' : State} {a b : Addr} {m m' r : Msg} {n t : TaskId} {k : Kind} {p : Pc}

/-- What is true of a message in a use. -/
def Msg.Fits (pc : TaskId → Pc) (recv : RecvTask) (a : Addr) (m : Msg) : Prop :=
  match m.use with
  | .request n => (pc n).call = some (.request, a) ∧
      m.rendez = (if pc n = .asleep a then [n] else []) ∧ (pc n = .woken a → m.resp ≠ none)
  | .response n => (pc n).call = some (.response, a) ∧ m.rendez = [] ∧ m.resp = none
  | .returned res => m.rendez = [] ∧ (res = 0 → m.resp ≠ none)
  | .reading => (∃ r, recv = .receiving a r) ∧ m.rendez = [] ∧ m.resp = none
  | _ => m.rendez = [] ∧ m.resp = none

structure Uses (σ : State) : Prop where
  /-- every message is in a state that fits its use -/
  fits : ∀ a m, σ.chan.msgs a = some m → m.Fits σ.pc σ.recv a
  /-- every call has its message -/
  call : ∀ n k a, (σ.pc n).call = some (k, a) → ∃ m, σ.chan.msgs a = some m ∧ m.use = k.use n
  /-- an error is not a zero -/
  error : ∀ n k a res, σ.pc n = .unlock k a res → res ≠ 0
  /-- the receiver has its buffer -/
  buffer : ∀ b r, σ.recv = .receiving b r → ∃ m, σ.chan.msgs b = some m ∧ m.use = .reading
  /-- **every response is attached to one request, its own** -/
  resp : ∀ a m b, σ.chan.msgs a = some m → m.resp = some b →
    ∃ r, σ.chan.msgs b = some r ∧ r.use = .attached a ∧ r.hdr.seqid = m.hdr.seqid ∧
      r.hdr.isReq = false

theorem Kind.use_inj {k k' : Kind} {n t : TaskId} (h : k.use n = k'.use t) : k = k' ∧ n = t := by
  cases k <;> cases k' <;> simp [Kind.use] at h ⊢ <;> exact h

/-- What a message in a call fits. -/
theorem Msg.Fits.call {recv : RecvTask} {pc : TaskId → Pc} (h : m.Fits pc recv a)
    (hu : m.use = k.use n) : (pc n).call = some (k, a) := by
  cases k <;> simp only [Fits, hu, Kind.use] at h <;> exact h.1

/-- Fitting depends on the message's own task, and on the receiver for its
own buffer only. -/
theorem Msg.Fits.frame {recv recv' : RecvTask} {pc pc' : TaskId → Pc} (h : m.Fits pc recv a)
    (hpc : ∀ k n, m.use = Kind.use n k → pc' n = pc n)
    (hrecv : m.use = .reading → ∀ r, recv = .receiving a r → ∃ r, recv' = .receiving a r) :
    m.Fits pc' recv' a := by
  cases hu : m.use with
  | request n => simp only [Fits, hu] at h ⊢; rwa [hpc .request n hu]
  | response n => simp only [Fits, hu] at h ⊢; rwa [hpc .response n hu]
  | reading =>
      simp only [Fits, hu] at h ⊢
      obtain ⟨⟨r, hr⟩, h⟩ := h
      exact ⟨hrecv hu r hr, h⟩
  | returned res => simpa only [Fits, hu] using h
  | fresh => simpa only [Fits, hu] using h
  | handed => simpa only [Fits, hu] using h
  | attached _ => simpa only [Fits, hu] using h

/-- Only requests and answers of `rpc_request` have a response. -/
theorem Msg.Fits.resp_cases {recv : RecvTask} {pc : TaskId → Pc} (h : m.Fits pc recv a)
    (hr : m.resp ≠ none) : (∃ n, m.use = .request n) ∨ ∃ res, m.use = .returned res := by
  cases hu : m.use with
  | request n => exact .inl ⟨n, rfl⟩
  | returned res => exact .inr ⟨res, rfl⟩
  | response n => simp only [Fits, hu] at h; exact absurd h.2.2 hr
  | reading => simp only [Fits, hu] at h; exact absurd h.2.2 hr
  | fresh => simp only [Fits, hu] at h; exact absurd h.2 hr
  | handed => simp only [Fits, hu] at h; exact absurd h.2 hr
  | attached _ => simp only [Fits, hu] at h; exact absurd h.2 hr

namespace Uses

/-- Steps that change neither messages nor tasks. -/
theorem congr (h : Uses σ) (hm : σ'.chan.msgs = σ.chan.msgs) (hp : σ'.pc = σ.pc)
    (hr : σ'.recv = σ.recv) : Uses σ' :=
  ⟨by rw [hm, hp, hr]; exact h.fits, by rw [hm, hp]; exact h.call, by rw [hp]; exact h.error,
    by rw [hm, hr]; exact h.buffer, by rw [hm]; exact h.resp⟩

/-- **A task acts on its message.** Task `n` goes to `p`, message `a`
becomes `m'`; the message was nobody else's, and the task is in no other
call. -/
theorem act (h : Uses σ) (hm : σ.chan.msgs a = some m)
    (hm' : σ'.chan.msgs = Function.update σ.chan.msgs a (some m'))
    (hp : σ'.pc = Function.update σ.pc n p) (hr : σ'.recv = σ.recv)
    (hown : ∀ k t, m.use = Kind.use t k → t = n)
    (hold : ∀ k b, (σ.pc n).call = some (k, b) → b = a)
    (hnew : ∀ k b, p.call = some (k, b) → b = a ∧ m'.use = k.use n)
    (herr : ∀ k b res, p = .unlock k b res → res ≠ 0)
    (hread : m.use ≠ .reading) (hatt : ∀ b, m.use ≠ .attached b)
    (hresp : m'.resp = m.resp) (hid : m'.hdr.seqid = m.hdr.seqid)
    (hfit : m'.Fits σ'.pc σ'.recv a) : Uses σ' where
  fits b r hb := by
    by_cases hba : b = a
    · subst hba
      simp only [hm', Function.update_self, Option.some.injEq] at hb
      exact hb ▸ hfit
    · rw [hm', Function.update_of_ne hba] at hb
      have hfb := h.fits b r hb
      refine hfb.frame (fun k t hu => ?_) fun _ r hr' => ⟨r, hr.trans hr'⟩
      have htn : t ≠ n := fun e => hba (hold k b (e ▸ hfb.call hu))
      rw [hp, Function.update_of_ne htn]
  call t k b ht := by
    by_cases htn : t = n
    · subst htn
      rw [hp, Function.update_self] at ht
      obtain ⟨rfl, hu⟩ := hnew k b ht
      exact ⟨m', by rw [hm', Function.update_self], hu⟩
    · rw [hp, Function.update_of_ne htn] at ht
      obtain ⟨r, hb, hu⟩ := h.call t k b ht
      have hba : b ≠ a := by
        rintro rfl
        rw [hm] at hb
        exact htn (hown k t (Option.some.inj hb ▸ hu))
      exact ⟨r, by rw [hm', Function.update_of_ne hba, hb], hu⟩
  error t k b res ht := by
    by_cases htn : t = n
    · subst htn
      rw [hp, Function.update_self] at ht
      exact herr k b res ht
    · rw [hp, Function.update_of_ne htn] at ht
      exact h.error t k b res ht
  buffer b r hb := by
    obtain ⟨q, hq, hu⟩ := h.buffer b r (hr ▸ hb)
    have hba : b ≠ a := by
      rintro rfl
      rw [hm] at hq
      exact hread (Option.some.inj hq ▸ hu)
    exact ⟨q, by rw [hm', Function.update_of_ne hba, hq], hu⟩
  resp b r c hb hc := by
    have key : ∃ r₀, σ.chan.msgs b = some r₀ ∧ r₀.resp = some c ∧ r₀.hdr.seqid = r.hdr.seqid := by
      by_cases hba : b = a
      · subst hba
        simp only [hm', Function.update_self, Option.some.injEq] at hb
        exact ⟨m, hm, by rw [← hresp, hb, hc], by rw [← hid, hb]⟩
      · rw [hm', Function.update_of_ne hba] at hb
        exact ⟨r, hb, hc, rfl⟩
    obtain ⟨r₀, hb₀, hc₀, hid₀⟩ := key
    obtain ⟨q, hq, hu, hqid, hreq⟩ := h.resp b r₀ c hb₀ hc₀
    have hca : c ≠ a := by
      rintro rfl
      rw [hm] at hq
      exact hatt b (Option.some.inj hq ▸ hu)
    exact ⟨q, by rw [hm', Function.update_of_ne hca, hq], hu, hqid.trans hid₀, hreq⟩

/-- A message is filled in. -/
theorem edit (h : Uses σ) (hm : σ.chan.msgs a = some m)
    (hm' : σ'.chan.msgs = Function.update σ.chan.msgs a (some m')) (hp : σ'.pc = σ.pc)
    (hr : σ'.recv = σ.recv) (hu : m'.use = m.use) (hz : m'.rendez = m.rendez)
    (hresp : m'.resp = m.resp) (hid : m'.hdr.seqid = m.hdr.seqid)
    (hatt : ∀ b, m.use ≠ .attached b) : Uses σ' := by
  have hback : ∀ c r, σ'.chan.msgs c = some r → ∃ r₀, σ.chan.msgs c = some r₀ ∧ r.use = r₀.use ∧
      r.rendez = r₀.rendez ∧ r.resp = r₀.resp ∧ r.hdr.seqid = r₀.hdr.seqid := fun c r hc => by
    by_cases hca : c = a
    · subst hca
      simp only [hm', Function.update_self, Option.some.injEq] at hc
      exact ⟨m, hm, hc ▸ hu, hc ▸ hz, hc ▸ hresp, hc ▸ hid⟩
    · rw [hm', Function.update_of_ne hca] at hc
      exact ⟨r, hc, rfl, rfl, rfl, rfl⟩
  have hforth : ∀ c r, σ.chan.msgs c = some r → ∃ r', σ'.chan.msgs c = some r' ∧ r'.use = r.use ∧
      (c ≠ a → r' = r) := fun c r hc => by
    by_cases hca : c = a
    · subst hca
      rw [hm] at hc
      exact ⟨m', by rw [hm', Function.update_self], Option.some.inj hc ▸ hu, fun e => absurd rfl e⟩
    · exact ⟨r, by rw [hm', Function.update_of_ne hca, hc], rfl, fun _ => rfl⟩
  refine ⟨fun c r hc => ?_, fun t k c ht => ?_, by rw [hp]; exact h.error, fun c r hc => ?_,
    fun c r d hc hd => ?_⟩
  · obtain ⟨r₀, hr₀, e₁, e₂, e₃, -⟩ := hback c r hc
    have := h.fits c r₀ hr₀
    rw [hp, hr]
    simpa only [Msg.Fits, e₁, e₂, e₃] using this
  · obtain ⟨r, hc, hu'⟩ := h.call t k c (hp ▸ ht)
    obtain ⟨r', hr', e, -⟩ := hforth c r hc
    exact ⟨r', hr', e.trans hu'⟩
  · obtain ⟨q, hq, hu'⟩ := h.buffer c r (hr ▸ hc)
    obtain ⟨r', hr', e, -⟩ := hforth c q hq
    exact ⟨r', hr', e.trans hu'⟩
  · obtain ⟨r₀, hr₀, -, -, e₃, e₄⟩ := hback c r hc
    obtain ⟨q, hq, hqu, hqid, hreq⟩ := h.resp c r₀ d hr₀ (e₃ ▸ hd)
    have hda : d ≠ a := by
      rintro rfl
      rw [hm] at hq
      exact hatt c (Option.some.inj hq ▸ hqu)
    obtain ⟨r', hr', -, e⟩ := hforth d q hq
    obtain rfl := e hda
    exact ⟨r', hr', hqu, hqid.trans e₄.symm, hreq⟩

/-- A buffer is taken from the pool, by a task or by the receiver. -/
theorem new (m' : Msg) (h : Uses σ) (hb : σ.chan.msgs b = none)
    (hm' : σ'.chan.msgs = Function.update σ.chan.msgs b (some m')) (hp : σ'.pc = σ.pc)
    (hr : ∀ c r, σ.recv = .receiving c r → ∃ r, σ'.recv = .receiving c r)
    (hr' : ∀ c r, σ'.recv = .receiving c r → σ.recv = .receiving c r ∨ c = b ∧ m'.use = .reading)
    (hresp : m'.resp = none) (hfit : m'.Fits σ'.pc σ'.recv b) : Uses σ' := by
  have hne : ∀ c r, σ.chan.msgs c = some r → σ'.chan.msgs c = some r := fun c r hc => by
    have hcb : c ≠ b := by rintro rfl; rw [hb] at hc; cases hc
    rw [hm', Function.update_of_ne hcb, hc]
  refine ⟨fun c r hc => ?_, fun t k c ht => ?_, by rw [hp]; exact h.error, fun c r hc => ?_,
    fun c r d hc hd => ?_⟩
  · by_cases hcb : c = b
    · subst hcb
      simp only [hm', Function.update_self, Option.some.injEq] at hc
      exact hc ▸ hfit
    · rw [hm', Function.update_of_ne hcb] at hc
      exact (h.fits c r hc).frame (fun _ _ _ => by rw [hp]) fun _ r hr₀ => hr c r hr₀
  · obtain ⟨r, hc, hu⟩ := h.call t k c (hp ▸ ht)
    exact ⟨r, hne c r hc, hu⟩
  · rcases hr' c r hc with hc' | ⟨rfl, hu⟩
    · obtain ⟨q, hq, hu⟩ := h.buffer c r hc'
      exact ⟨q, hne c q hq, hu⟩
    · exact ⟨m', by rw [hm', Function.update_self], hu⟩
  · by_cases hcb : c = b
    · subst hcb
      simp only [hm', Function.update_self, Option.some.injEq] at hc
      rw [← hc, hresp] at hd
      cases hd
    · rw [hm', Function.update_of_ne hcb] at hc
      obtain ⟨q, hq, hrest⟩ := h.resp c r d hc hd
      exact ⟨q, hne d q hq, hrest⟩

/-- **A message is put**, and its response with it. -/
theorem put (h : Uses σ) (hm : σ.chan.msgs a = some m)
    (hm' : ∀ y, σ'.chan.msgs y = if y = a ∨ m.resp = some y then none else σ.chan.msgs y)
    (hp : ∀ t, σ'.pc t = σ.pc t ∨
      σ'.pc t = .idle ∧ ∃ k, (σ.pc t).call = some (k, a))
    (hown : ∀ k t, m.use = Kind.use t k → σ'.pc t = .idle)
    (hr : σ'.recv = σ.recv) (hread : m.use ≠ .reading) (hatt : ∀ b, m.use ≠ .attached b) :
    Uses σ' := by
  have hold : ∀ c r, σ'.chan.msgs c = some r →
      σ.chan.msgs c = some r ∧ c ≠ a ∧ m.resp ≠ some c := fun c r hc => by
    rw [hm' c] at hc
    split at hc
    · cases hc
    · rename_i hne
      rw [not_or] at hne
      exact ⟨hc, hne.1, hne.2⟩
  have hkeep : ∀ c r, σ.chan.msgs c = some r → c ≠ a → r.use ≠ .attached a →
      σ'.chan.msgs c = some r := fun c r hc hca hu => by
    rw [hm' c, if_neg, hc]
    rintro (e | e)
    · exact hca e
    · obtain ⟨q, hq, hqu, -⟩ := h.resp a m c hm e
      rw [hc] at hq
      exact hu (Option.some.inj hq ▸ hqu)
  have hcalls : ∀ t k c, (σ'.pc t).call = some (k, c) → (σ.pc t).call = some (k, c) :=
    fun t k c ht => by
      rcases hp t with e | ⟨e, -⟩
      · rwa [e] at ht
      · rw [e] at ht; cases ht
  refine ⟨fun c r hc => ?_, fun t k c ht => ?_, fun t k c res ht => ?_, fun c r hc => ?_,
    fun c r d hc hd => ?_⟩
  · obtain ⟨hc, hca, -⟩ := hold c r hc
    have hf := h.fits c r hc
    refine hf.frame (fun k t hu => ?_) fun _ r hr₀ => ⟨r, hr.trans hr₀⟩
    rcases hp t with e | ⟨-, k', hk'⟩
    · exact e
    · rw [hf.call hu] at hk'
      exact absurd (congrArg Prod.snd (Option.some.inj hk')) hca
  · obtain ⟨r, hc, hu⟩ := h.call t k c (hcalls t k c ht)
    refine ⟨r, hkeep c r hc ?_ (by rw [hu]; cases k <;> simp [Kind.use]), hu⟩
    rintro rfl
    rw [hm] at hc
    rw [hown k t (Option.some.inj hc ▸ hu)] at ht
    cases ht
  · rcases hp t with e | ⟨e, -⟩
    · exact h.error t k c res (e ▸ ht)
    · rw [e] at ht; cases ht
  · obtain ⟨q, hq, hu⟩ := h.buffer c r (hr ▸ hc)
    refine ⟨q, hkeep c q hq ?_ (by rw [hu]; simp), hu⟩
    rintro rfl
    rw [hm] at hq
    exact hread (Option.some.inj hq ▸ hu)
  · obtain ⟨hc, hca, -⟩ := hold c r hc
    obtain ⟨q, hq, hu, hrest⟩ := h.resp c r d hc hd
    refine ⟨q, hkeep d q hq ?_ (by rw [hu]; simpa using hca), hu, hrest⟩
    rintro rfl
    rw [hm] at hq
    exact hatt c (Option.some.inj hq ▸ hu)

/-- The receiver reads on. -/
theorem read {q q' : Recv} (h : Uses σ) (hq : σ.recv = .receiving b q)
    (hm : σ'.chan.msgs = σ.chan.msgs) (hp : σ'.pc = σ.pc) (hq' : σ'.recv = .receiving b q') :
    Uses σ' := by
  refine ⟨fun c r hc => ?_, by rw [hm, hp]; exact h.call, by rw [hp]; exact h.error,
    fun c r hc => ?_, by rw [hm]; exact h.resp⟩
  · refine (h.fits c r (hm ▸ hc)).frame (fun _ _ _ => by rw [hp]) fun _ q₀ hq₀ => ?_
    obtain ⟨rfl, -⟩ : b = c ∧ q = q₀ := by simpa [hq] using hq₀
    exact ⟨q', hq'⟩
  · obtain ⟨rfl, -⟩ : b = c ∧ q' = r := by simpa [hq'] using hc
    rw [hm]
    exact h.buffer b q hq

/-- The receiver gives its message to a handler. -/
theorem hand {q : Recv} (m' : Msg) (h : Uses σ) (hq : σ.recv = .receiving b q)
    (hm' : σ'.chan.msgs = Function.update σ.chan.msgs b (some m')) (hp : σ'.pc = σ.pc)
    (hr' : ∀ c r, σ'.recv ≠ .receiving c r)
    (hu : m'.use = .handed) (hz : m'.rendez = []) (hn : m'.resp = none) : Uses σ' := by
  obtain ⟨m, hm, hmu⟩ := h.buffer b q hq
  have hne : ∀ c r, σ.chan.msgs c = some r → r.use ≠ .reading → σ'.chan.msgs c = some r :=
    fun c r hc hru => by
      have hcb : c ≠ b := by
        rintro rfl
        rw [hm] at hc
        exact hru (Option.some.inj hc ▸ hmu)
      rw [hm', Function.update_of_ne hcb, hc]
  refine ⟨fun c r hc => ?_, fun t k c ht => ?_, by rw [hp]; exact h.error,
    fun c r hc => absurd hc (hr' c r), fun c r d hc hd => ?_⟩
  · by_cases hcb : c = b
    · subst hcb
      simp only [hm', Function.update_self, Option.some.injEq] at hc
      subst hc
      simp only [Msg.Fits, hu]
      exact ⟨hz, hn⟩
    · rw [hm', Function.update_of_ne hcb] at hc
      refine (h.fits c r hc).frame (fun _ _ _ => by rw [hp]) fun _ q₀ hq₀ => ?_
      exact absurd (RecvTask.receiving.inj (hq.symm.trans hq₀)).1.symm hcb
  · obtain ⟨r, hc, hru⟩ := h.call t k c (hp ▸ ht)
    exact ⟨r, hne c r hc (by rw [hru]; cases k <;> simp [Kind.use]), hru⟩
  · by_cases hcb : c = b
    · subst hcb
      simp only [hm', Function.update_self, Option.some.injEq] at hc
      rw [← hc, hn] at hd
      cases hd
    · rw [hm', Function.update_of_ne hcb] at hc
      obtain ⟨r₀, hr₀, hru, hrest⟩ := h.resp c r d hc hd
      exact ⟨r₀, hne d r₀ hr₀ (by rw [hru]; simp), hru, hrest⟩

/-- The only sleeper on a message's rendez is the task that sends it. -/
theorem sleeper (h : Uses σ) (hm : σ.chan.msgs a = some m) (hu : m.use = .request n)
    (ht : t ∈ m.rendez) : t = n ∧ σ.pc n = .asleep a ∧ m.rendez = [n] := by
  have hf := h.fits a m hm
  simp only [Msg.Fits, hu] at hf
  obtain ⟨-, hz, -⟩ := hf
  by_cases hp : σ.pc n = .asleep a
  · rw [if_pos hp] at hz
    rw [hz] at ht
    exact ⟨by simpa using ht, hp, hz⟩
  · rw [if_neg hp] at hz
    rw [hz] at ht
    cases ht

/-- Nobody sleeps on a request whose task does not. -/
theorem awake (h : Uses σ) (hcall : (σ.pc n).call = some (.request, a))
    (hm : σ.chan.msgs a = some m) (hs : σ.pc n ≠ .asleep a) : m.rendez = [] := by
  obtain ⟨m₀, hm₀, hu⟩ := h.call n _ a hcall
  obtain rfl : m = m₀ := by rw [hm] at hm₀; exact Option.some.inj hm₀
  have hf := h.fits a m hm
  simp only [Kind.use] at hu
  simp only [Msg.Fits, hu, if_neg hs] at hf
  exact hf.2.1

/-- **A response is attached to its request**, and the sleeper, if there is
one, is woken. -/
theorem attach {q : Recv} (h : Uses σ) (hq : σ.recv = .receiving b q)
    (hm : σ.chan.msgs a = some m) (hu : m.use = .request n)
    (hid : r.hdr.seqid = m.hdr.seqid) (hreq : r.hdr.isReq = false)
    (hz : r.rendez = []) (hrn : r.resp = none) (hru : r.use = .attached a)
    (hm' : ∀ y, σ'.chan.msgs y = if y = a then some { m with resp := some b, rendez := [] }
      else if y = b then some r else σ.chan.msgs y)
    (hp : σ'.pc = if σ.pc n = .asleep a then Function.update σ.pc n (.woken a) else σ.pc)
    (hr' : σ'.recv = .idle) : Uses σ' := by
  obtain ⟨m₀, hm₀, hu₀⟩ := h.buffer b q hq
  have hba : b ≠ a := by
    rintro rfl
    rw [hm] at hm₀
    rw [← Option.some.inj hm₀, hu] at hu₀
    cases hu₀
  have hfa := h.fits a m hm
  simp only [Msg.Fits, hu] at hfa
  obtain ⟨hcall, hrendez, -⟩ := hfa
  have hpt : ∀ t, t ≠ n → σ'.pc t = σ.pc t := fun t ht => by
    rw [hp]; split
    · rw [Function.update_of_ne ht]
    · rfl
  have hcall' : ∀ t, (σ'.pc t).call = (σ.pc t).call := fun t => by
    by_cases ht : t = n
    · subst ht
      rw [hp]; split
      · rename_i hs; rw [Function.update_self, hs]; rfl
      · rfl
    · rw [hpt t ht]
  have hne : ∀ c r, σ.chan.msgs c = some r → c ≠ a → r.use ≠ .reading → σ'.chan.msgs c = some r :=
    fun c r hc hca hru => by
      have hcb : c ≠ b := by
        rintro rfl
        rw [hm₀] at hc
        exact hru (Option.some.inj hc ▸ hu₀)
      rw [hm' c, if_neg hca, if_neg hcb, hc]
  refine ⟨fun c s hc => ?_, fun t k c ht => ?_, fun t k c res ht => ?_,
    fun c s hc => (by rw [hr'] at hc; cases hc), fun c s d hc hd => ?_⟩
  · rw [hm' c] at hc
    split at hc
    · rename_i hca
      subst hca
      rw [← Option.some.inj hc]
      simp only [Msg.Fits, hu]
      refine ⟨(hcall' n).trans hcall, ?_, by simp⟩
      rw [if_neg]
      rw [hp]
      split
      · simp
      · rename_i hs; exact hs
    · rename_i hca
      split at hc
      · rw [← Option.some.inj hc]
        simp only [Msg.Fits, hru]
        exact ⟨hz, hrn⟩
      · rename_i hcb
        have hfc := h.fits c s hc
        refine hfc.frame (fun k t hu' => hpt t ?_) fun _ q₀ hq₀ => ?_
        · rintro rfl
          have := hfc.call hu'
          rw [hcall] at this
          exact hca (congrArg Prod.snd (Option.some.inj this)).symm
        · exact absurd (RecvTask.receiving.inj (hq.symm.trans hq₀)).1.symm hcb
  · rw [hcall' t] at ht
    obtain ⟨s, hc, hsu⟩ := h.call t k c ht
    by_cases hca : c = a
    · subst hca
      rw [hm] at hc
      have hsu : m.use = k.use t := Option.some.inj hc ▸ hsu
      exact ⟨{ m with resp := some b, rendez := [] }, by rw [hm' c, if_pos rfl], hsu⟩
    · exact ⟨s, hne c s hc hca (by rw [hsu]; cases k <;> simp [Kind.use]), hsu⟩
  · by_cases htn : t = n
    · subst htn
      rw [hp] at ht
      split at ht
      · rw [Function.update_self] at ht; cases ht
      · exact h.error t k c res ht
    · exact h.error t k c res (hpt t htn ▸ ht)
  · rw [hm' c] at hc
    split at hc
    · rename_i hca
      subst hca
      rw [← Option.some.inj hc] at hd ⊢
      obtain rfl : b = d := by simpa using hd
      exact ⟨r, by rw [hm' b, if_neg hba, if_pos rfl], hru, hid, hreq⟩
    · rename_i hca
      split at hc
      · rw [← Option.some.inj hc, hrn] at hd
        cases hd
      · obtain ⟨s₀, hs₀, hsu, hrest⟩ := h.resp c s d hc hd
        refine ⟨s₀, hne d s₀ hs₀ ?_ (by rw [hsu]; simp), hsu, hrest⟩
        rintro rfl
        rw [hm] at hs₀
        rw [← Option.some.inj hs₀, hu] at hsu
        cases hsu

end Uses

end Rpc

end VmwareProto
