import VmwareProto.BufPool.Setup
/-!
# Who has a buffer

The accounts hold in every state of every run, whatever the tasks do, up to
the point where the pool itself is gone. What they need is that the free list's
length, an `int`, counts what `bufpool_init` allocates.
-/

namespace VmwareProto

namespace BufPool

open Libtask

/-- The accounts are in order until the pool is gone, and then nobody has
anything of it. -/
structure Sound (nbufs nmax : ℕ) (σ : State) : Prop where
  owns : σ.pool.state ≠ .deinted → ∃ free, Owns σ.pool free σ.held
  gone : σ.pool.state = .deinted → Gone σ.pool ∧ σ.held = []
  size : σ.pool.state ≠ .deinted → σ.pool.nbufs = nbufs ∧ σ.pool.nmax = nmax
  waits : ∀ d ∈ σ.deiniter, σ.pool.state = .deiniting

variable {bufsize nbufs nmax : ℕ} {σ σ' : State} {p p' : Pool} {free held : List Addr} {a : Addr}
  {t : TaskId} {zeroed noblock : Bool} {calloc : Option Addr} {act : Action}
  {gs : List Getter} {d : Option (TaskId × Bool)}

/-- A pool in use. -/
theorem Sound.of_owns (ho : Owns p' free held) (hs : p'.state ≠ .deinted)
    (hb : p'.nbufs = nbufs ∧ p'.nmax = nmax) (hd : ∀ x ∈ d, p'.state = .deiniting) :
    Sound nbufs nmax ⟨p', gs, d, held⟩ :=
  ⟨fun _ => ⟨free, ho⟩, fun e => absurd e hs, fun _ => hb, hd⟩

/-- A pool that is gone. -/
theorem Gone.sound (h : Gone p') : Sound nbufs nmax ⟨p', gs, none, []⟩ :=
  ⟨fun hne => absurd h.state hne, fun _ => ⟨h, rfl⟩, fun hne => absurd h.state hne, by simp⟩

/-- Nothing is held of a pool that is gone. -/
theorem Sound.in_use (h : Sound nbufs nmax σ) (ha : a ∈ σ.held) : σ.pool.state ≠ .deinted :=
  fun e => by
    rw [(h.gone e).2] at ha
    cases ha

/-- A stretch of `bufpool_get` keeps the accounts. -/
theorem Sound.settle (h : Sound nbufs nmax σ) (hs : σ.pool.state ≠ .deinted)
    (hf : Action.Fresh σ calloc) (t : TaskId) (noblock zeroed : Bool) :
    ∃ r, σ.pool.getLoop t noblock calloc = some r ∧
      Sound nbufs nmax (σ.settle t zeroed (Pool.zero zeroed r)) := by
  obtain ⟨free, ho⟩ := h.owns hs
  obtain ⟨hb, hm⟩ := h.size hs
  obtain ⟨r, hr, ⟨a, p', he, ho', hrest, -⟩ | ⟨-, -, ⟨-, he⟩ | ⟨-, he⟩⟩⟩ :=
    settle_cases ho hf t noblock zeroed
  · refine ⟨r, hr, ?_⟩
    rw [he]
    exact .of_owns ho' (by rwa [hrest.state]) ⟨hrest.nbufs.trans hb, hrest.nmax.trans hm⟩
      fun d hd => hrest.state.trans (h.waits d hd)
  · have ho' : Owns { σ.pool with rendez := σ.pool.rendez ++ [t] } free σ.held :=
      ho.congr rfl rfl rfl rfl rfl rfl rfl
    refine ⟨r, hr, ?_⟩
    rw [he]
    exact .of_owns ho' hs ⟨hb, hm⟩ h.waits
  · exact ⟨r, hr, by rwa [he]⟩

/-- `bufpool_put` keeps the accounts. -/
theorem Sound.put (h : Sound nbufs nmax σ) (ha : a ∈ σ.held) :
    ∃ σ', (Action.put a).exec σ = some σ' ∧ Sound nbufs nmax σ' := by
  have hs := h.in_use ha
  obtain ⟨free, ho⟩ := h.owns hs
  obtain ⟨hb, hm⟩ := h.size hs
  obtain ⟨q, free', hg, ho', hrest, -⟩ := ho.giveBack ha
  refine ⟨_, by simp only [Action.exec, bufpoolPut_eq hg]; rfl, ?_⟩
  refine .of_owns ho'.wakeUp (hrest.state.trans_ne hs)
    ⟨hrest.nbufs.trans hb, hrest.nmax.trans hm⟩ fun x hx => ?_
  obtain ⟨d, hd, -⟩ := Option.map_eq_some_iff.1 hx
  exact hrest.state.trans (h.waits d hd)

/-- **A pool in use serves its tasks**: the assertions of `bufpool_get` and
`bufpool_put` hold and the links lead where they should. -/
theorem Sound.exec (h : Sound nbufs nmax σ) (he : act.Enabled σ) (hs : σ.pool.state ≠ .deinted)
    (hd : act ≠ .resumeDeinit) :
    ∃ σ', act.exec σ = some σ' ∧ Sound nbufs nmax σ' := by
  cases act with
  | get t zeroed noblock calloc =>
      obtain ⟨hst, -, hf⟩ := he
      obtain ⟨r, hr, hr'⟩ := h.settle hs hf t noblock zeroed
      exact ⟨_, by simp [Action.exec, Pool.bufpoolGet, hst, hr], hr'⟩
  | resume t calloc =>
      obtain ⟨⟨g, hg, hgt, -⟩, hf⟩ := he
      have hfind : (σ.find t).isSome = true := by
        rw [State.find, List.find?_isSome]
        exact ⟨g, hg, by simpa using hgt⟩
      obtain ⟨g', hg'⟩ := Option.isSome_iff_exists.1 hfind
      have h₀ : Sound nbufs nmax { σ with getters := σ.getters.filter (·.task != t) } :=
        ⟨h.owns, h.gone, h.size, h.waits⟩
      obtain ⟨r, hr, hr'⟩ := h₀.settle hs hf t false g'.zeroed
      exact ⟨_, by simp only [Action.exec, hg', hr]; rfl, hr'⟩
  | put a => exact h.put he
  | write a next prev =>
      obtain ⟨free, ho⟩ := h.owns hs
      exact ⟨_, rfl, .of_owns (ho.scribble he next prev) hs (h.size hs) h.waits⟩
  | deinit t =>
      obtain ⟨free, ho⟩ := h.owns hs
      rcases ho.bufpoolDeinit he.1 t with ⟨-, hp⟩ | ⟨hh, q, hp, hgone⟩
      · have ho' : Owns { σ.pool with state := .deiniting, deinit := σ.pool.deinit ++ [t] } free
            σ.held := ho.congr rfl rfl rfl rfl rfl rfl rfl
        exact ⟨_, by simp only [Action.exec, hp]; rfl,
          .of_owns ho' (by simp) (h.size hs) fun _ _ => rfl⟩
      · refine ⟨_, by simp only [Action.exec, hp]; rfl, ?_⟩
        rw [hh]
        exact hgone.sound
  | resumeDeinit => exact absurd rfl hd

/-- **Nothing follows the end**: all that is left is a getter looking for a
buffer, and that leads nowhere. -/
theorem Sound.exec_of_gone (h : Sound nbufs nmax σ) (he : act.Enabled σ)
    (hs : σ.pool.state = .deinted) : act.exec σ = none := by
  obtain ⟨hgone, hh⟩ := h.gone hs
  cases act with
  | get t zeroed noblock calloc => rw [he.1] at hs; cases hs
  | resume t calloc => simp [Action.exec, hgone.getLoop]
  | put a => exact absurd hs (h.in_use he)
  | write a next prev => exact absurd hs (h.in_use he)
  | deinit t => rw [he.1] at hs; cases hs
  | resumeDeinit =>
      obtain ⟨d, hd, -⟩ := he
      rw [h.waits d hd] at hs
      cases hs

/-- So a step starts in a pool in use. -/
theorem Sound.ne_of_exec (h : Sound nbufs nmax σ) (he : act.Enabled σ)
    (hx : act.exec σ = some σ') : σ.pool.state ≠ .deinted := fun hs => by
  rw [h.exec_of_gone he hs] at hx
  cases hx

/-- **The step lemma.** -/
theorem Sound.step (h : Sound nbufs nmax σ) (he : act.Enabled σ) (hx : act.exec σ = some σ') :
    Sound nbufs nmax σ' := by
  have hs := h.ne_of_exec he hx
  by_cases hd : act = .resumeDeinit
  · subst hd
    obtain ⟨free, ho⟩ := h.owns hs
    rcases ho.finish with ⟨-, hn⟩ | ⟨hh, q, hq, hgone⟩
    · simp [Action.exec, hn] at hx
    · rw [Action.exec, hq, hh] at hx
      obtain rfl := Option.some.inj hx
      exact hgone.sound
  · obtain ⟨σ'', hx', h'⟩ := h.exec he hs hd
    rw [hx] at hx'
    exact Option.some.inj hx' ▸ h'

/-- **The run lemma.** -/
theorem sound_reachable (hr : (poolSystem bufsize nbufs nmax).Reachable σ) : Sound nbufs nmax σ := by
  refine hr.invariant ?_ fun σ act σ' h he hx => h.step he hx
  rintro _ ⟨p, hp, rfl⟩
  obtain ⟨⟨free, ho⟩, hs, -, -, hb, hm⟩ := hp.owns
  exact .of_owns ho (by rw [hs]; decide) ⟨hb, hm⟩ (by simp)

/-- **Exclusive ownership**: each buffer of the pool is free or held once, and
the counters say how many. When nobody holds a buffer, the pool has exactly
`nbufs`, all free. -/
def Exclusive (nbufs nmax : ℕ) (σ : State) : Prop :=
  ∃ free : List Addr, σ.pool.links.Ring freelist (free.map .elem) ∧
    free.Nodup ∧ σ.held.Nodup ∧ (∀ a ∈ free, a ∉ σ.held) ∧
    σ.pool.qlen = free.length ∧ σ.pool.issued = σ.held.length ∧
    (σ.pool.owned : ℤ) = σ.pool.issued + σ.pool.qlen ∧
    nbufs ≤ σ.pool.owned ∧ σ.pool.owned ≤ nmax ∧
    (nbufs < σ.pool.owned → free = []) ∧
    (σ.held = [] → σ.pool.owned = nbufs ∧ free.length = nbufs)

/-- It is what the accounts come to. -/
theorem Sound.exclusive (h : Sound nbufs nmax σ) (hs : σ.pool.state ≠ .deinted) :
    Exclusive nbufs nmax σ := by
  obtain ⟨free, ho⟩ := h.owns hs
  obtain ⟨rfl, rfl⟩ := h.size hs
  refine ⟨free, ho.ring, ho.free_nodup, ho.nodup, ho.apart, ho.qlen, ho.issued, ?_, ho.nbufs_le,
    ho.le_nmax, ho.surplus, fun hh => ?_⟩
  · have := ho.owned
    have := ho.qlen
    omega
  · rw [hh] at ho
    exact ho.idle

/-- A `bufpool_init` that allocates all its buffers returns, and in every
state of every run that follows in which the pool is in use, its buffers are
exclusively owned. -/
def OwnedInEveryRun (bufsize nbufs nmax : ℕ) : Prop :=
  ∀ malloc : ℕ → Option Addr, (∀ i j a, malloc i = some a → malloc j = some a → i = j) →
    Granted malloc nbufs → ∃ p, Pool.bufpoolInit bufsize nbufs nmax malloc = some p ∧
      ∀ acts σ, (poolSystem bufsize nbufs nmax).Steps ⟨p, [], none, []⟩ acts σ →
        σ.pool.state ≠ .deinted → Exclusive nbufs nmax σ

/-- More buffers than an `int` can count are not all queued. -/
theorem not_ownedInEveryRun (hbig : 2 ^ 31 ≤ nbufs) : ¬OwnedInEveryRun bufsize nbufs nmax := by
  intro h
  obtain ⟨p, hp, -⟩ := h some some_distinct fun _ _ => rfl
  obtain ⟨-, -, hsmall, howned⟩ := partial_of_bufpoolInit some_distinct hp
  have hall : p.owned = nbufs := howned.2 fun _ _ => rfl
  -- what was queued could be counted
  omega

/-- **Every run of a pool is one of exclusive ownership exactly when an `int`
can count its buffers.** -/
theorem exclusive_ownership_iff (hpos : 0 < nbufs) (hle : nbufs ≤ nmax) :
    OwnedInEveryRun bufsize nbufs nmax ↔ nbufs < 2 ^ 31 := by
  refine ⟨fun h => ?_, fun hsmall malloc hinj hgrant => ?_⟩
  · by_contra hbig
    exact not_ownedInEveryRun (Nat.not_lt.1 hbig) h
  · obtain ⟨p, hp⟩ := exists_bufpoolInit bufsize malloc hpos hle hsmall
    have hinit : Initialised bufsize nbufs nmax p :=
      ⟨malloc, hinj, hp, (partial_of_bufpoolInit hinj hp).2.2.2.2 hgrant⟩
    refine ⟨p, hp, fun acts σ hsteps hs => ?_⟩
    exact (sound_reachable (hsteps.reachable (.init ⟨p, hinit, rfl⟩))).exclusive hs

/-- One task has both buffers of a pool that began with one, another waits
for one. -/
theorem exclusive_ownership_busy : ∃ σ : State,
    (poolSystem 16 1 2).Reachable σ ∧ σ.held = [7, 0] ∧ σ.getters = [⟨2, false, false⟩] ∧
    Exclusive 1 2 σ := by
  have h : ((poolSystem 16 1 2).run smallPool
      [.get 1 true false none, .get 1 false false (some 7), .get 2 false false none]).any
      (fun σ : State => decide (σ.held = [7, 0] ∧ σ.getters = [⟨2, false, false⟩] ∧
        σ.pool.state ≠ .deinted)) = true := by decide +kernel
  obtain ⟨σ, hσ, hp⟩ := System.Steps.of_run_any h
  obtain ⟨hh, hg, hs⟩ := of_decide_eq_true hp
  have hruns : OwnedInEveryRun 16 1 2 :=
    (exclusive_ownership_iff (by decide) (by decide)).2 (by decide)
  obtain ⟨p, hinit, hall⟩ := hruns some some_distinct fun _ _ => rfl
  obtain rfl : smallPool.pool = p := Option.some.inj hinit
  exact ⟨σ, hσ.reachable (.init smallPool_init), hh, hg, hall _ σ hσ hs⟩

/-- **More than an `int` can count**: `queue_add` overflows. -/
theorem exclusive_ownership_overflow : ¬∀ bufsize nbufs nmax : ℕ, 0 < nbufs → nbufs ≤ nmax →
    OwnedInEveryRun bufsize nbufs nmax := fun h =>
  not_ownedInEveryRun (Nat.le_refl _) (h 16 (2 ^ 31) (2 ^ 31) (by decide) (Nat.le_refl _))

end BufPool

end VmwareProto
