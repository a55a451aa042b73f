import VmwareProto.BufPool.Wakeup
/-!
# Shutting a pool down

`bufpool_deinit` waits for the last buffer, but the put that brings it back
also wakes a getter that was blocked before the shutdown began, and that
getter does not look at the pool's state again. The wait does what it is
for exactly when nobody is left in `bufpool_get` at that put.
-/

namespace VmwareProto

namespace BufPool

open Libtask

/-- **The wait was long enough**: when `bufpool_deinit` goes on, at once or
after its wait, no buffer is out and its assertions hold; and nobody has a
buffer of a pool that is gone. -/
structure SafeEnd (σ : State) : Prop where
  called : ∀ t, (Action.deinit t).Enabled σ → ∃ σ', (Action.deinit t).exec σ = some σ'
  woken : Action.resumeDeinit.Enabled σ →
    σ.pool.issued = 0 ∧ ∃ σ', Action.resumeDeinit.exec σ = some σ'
  after : σ.pool.state = .deinted → σ.held = []

/-- The last buffer comes back to a pool being shut down only when no task
is inside `bufpool_get`. -/
def NoGetterLeft (σ : State) : Action → Prop
  | .put _ => σ.pool.state = .deiniting → σ.pool.issued = 1 → σ.getters = []
  | _ => True

instance (σ : State) : (act : Action) → Decidable (NoGetterLeft σ act)
  | .put _ => inferInstanceAs (Decidable (_ → _ → _))
  | .get _ _ _ _ => .isTrue trivial
  | .resume _ _ => .isTrue trivial
  | .write _ _ _ => .isTrue trivial
  | .deinit _ => .isTrue trivial
  | .resumeDeinit => .isTrue trivial

/-- When `bufpool_deinit` is ready to go on, nobody can take a buffer. -/
def Drained (σ : State) : Prop :=
  Action.resumeDeinit.Enabled σ → σ.pool.issued = 0 ∧ σ.getters = []

variable {bufsize nbufs nmax : ℕ} {σ σ' : State} {a : Addr} {act : Action}

/-- A put, spelled out. -/
theorem exec_put {q : Pool} (hg : σ.pool.giveBack a = some q) :
    (Action.put a).exec σ = some {
      pool := q.wakeUp
      getters := State.wake q.rendez.head? σ.getters
      deiniter := σ.deiniter.map fun d =>
        if some d.1 = (if q.Last then q.deinit.head? else none) then (d.1, true) else d
      held := σ.held.erase a } := by
  rw [Action.exec, bufpoolPut_eq hg]
  rfl

theorem settle_deiniter (t : TaskId) (zeroed : Bool) (r : Pool × Pool.GetOutcome) :
    (σ.settle t zeroed r).deiniter = σ.deiniter := by
  obtain ⟨p, _ | _ | _⟩ := r <;> rfl

/-- **The step lemma**, for steps that meet the condition. -/
theorem Drained.step (h : Drained σ) (hS : Sound nbufs nmax σ) (hn : NoGetterLeft σ act)
    (he : act.Enabled σ) (hx : act.exec σ = some σ') : Drained σ' := by
  rintro ⟨d, hd, hd₂⟩
  cases act with
  | get t zeroed noblock calloc =>
      -- the pool is in use, so nobody is in `bufpool_deinit`
      obtain ⟨r, -, hx⟩ := Option.bind_eq_some_iff.1 hx
      obtain rfl := Option.some.inj hx
      rw [settle_deiniter] at hd
      have := hS.waits d hd
      rw [he.1] at this
      cases this
  | resume t calloc =>
      obtain ⟨⟨g, hg, -⟩, -⟩ := he
      obtain ⟨g', -, hx⟩ := Option.bind_eq_some_iff.1 hx
      obtain ⟨r, -, hx⟩ := Option.bind_eq_some_iff.1 hx
      obtain rfl := Option.some.inj hx
      rw [settle_deiniter] at hd
      rw [(h ⟨d, hd, hd₂⟩).2] at hg
      cases hg
  | put a =>
      have hst := hS.in_use he
      obtain ⟨free, ho⟩ := hS.owns hst
      obtain ⟨q, free', hg, ho', hrest, -⟩ := ho.giveBack he
      rw [exec_put hg] at hx
      obtain rfl := Option.some.inj hx
      obtain ⟨d₀, hd₀, e⟩ := Option.map_eq_some_iff.1 hd
      have hpos := List.length_pos_of_mem (show a ∈ σ.held from he)
      have hiss := ho.issued
      have hiss' := ho'.issued
      rw [List.length_erase_of_mem he] at hiss'
      by_cases hlast : q.Last
      · have hone : σ.pool.issued = 1 := by have := hlast.1; omega
        have hgs : σ.getters = [] := hn (hrest.state ▸ hlast.2) hone
        exact ⟨hlast.1, by simp [hgs, State.wake]⟩
      · -- `bufpool_deinit` was awake before, and no buffer was out
        rw [if_neg hlast, if_neg (by simp)] at e
        have hzero := (h ⟨d₀, hd₀, by rw [e]; exact hd₂⟩).1
        omega
  | write a next prev =>
      obtain rfl := Option.some.inj hx
      exact h ⟨d, hd, hd₂⟩
  | deinit t =>
      obtain ⟨⟨p, asleep⟩, -, hx⟩ := Option.bind_eq_some_iff.1 hx
      obtain rfl := Option.some.inj hx
      cases asleep with
      | true =>
          obtain rfl : (t, false) = d := Option.some.inj hd
          cases hd₂
      | false => cases hd
  | resumeDeinit =>
      obtain ⟨p, -, hx⟩ := Option.bind_eq_some_iff.1 hx
      obtain rfl := Option.some.inj hx
      cases hd

/-- What makes the end safe. -/
theorem Drained.safeEnd (h : Drained σ) (hS : Sound nbufs nmax σ) : SafeEnd σ := by
  refine ⟨fun t he => ?_, fun he => ?_, fun hst => (hS.gone hst).2⟩
  · obtain ⟨σ', hx, -⟩ := hS.exec he (by rw [he.1]; decide) (by simp)
    exact ⟨σ', hx⟩
  have hz := (h he).1
  obtain ⟨d, hd, -⟩ := he
  have hst : σ.pool.state ≠ .deinted := by rw [hS.waits d hd]; decide
  obtain ⟨free, ho⟩ := hS.owns hst
  rcases ho.finish with ⟨hne, -⟩ | ⟨-, q, hq, -⟩
  · have hlen := ho.issued
    exact absurd (List.length_eq_zero_iff.1 (hlen.symm.trans hz)) hne
  · exact ⟨hz, _, by simp only [Action.exec, hq]; rfl⟩

/-- **The run lemma.** -/
theorem drained_reachable
    (hr : ((poolSystem bufsize nbufs nmax).only NoGetterLeft).Reachable σ) : Drained σ := by
  refine (hr.invariant (I := fun σ => Sound nbufs nmax σ ∧ Drained σ) ?_ ?_).2
  · rintro _ ⟨p, hp, rfl⟩
    refine ⟨sound_reachable (.init ⟨p, hp, rfl⟩), ?_⟩
    rintro ⟨d, hd, -⟩
    cases hd
  · rintro σ act σ' ⟨hS, h⟩ ⟨he, hn⟩ hx
    exact ⟨hS.step he hx, h.step hS hn he hx⟩

/-! ## The other direction -/

theorem nbufs_pos (hr : (poolSystem bufsize nbufs nmax).Reachable σ) : 0 < nbufs := by
  induction hr with
  | init hs =>
      obtain ⟨p, ⟨malloc, -, hp, -⟩, -⟩ := hs
      rw [Pool.bufpoolInit] at hp
      split at hp
      · rename_i hle
        exact hle.1
      · cases hp
  | step _ _ _ ih => exact ih

/-- A put leaves a getter ready to look, if there is one at all. -/
theorem Queued.exists_woken (h : Queued σ) (hg : σ.getters ≠ []) :
    ∃ g ∈ State.wake σ.pool.rendez.head? σ.getters, g.woken = true := by
  have hq := h.queue
  cases hs : σ.asleep with
  | nil =>
      obtain ⟨g, hmem⟩ := List.exists_mem_of_ne_nil _ hg
      rw [hs, List.map_nil] at hq
      refine ⟨g, by simpa [hq] using hmem, ?_⟩
      by_contra hw
      have : g ∈ σ.asleep := List.mem_filter.2 ⟨hmem, by simpa using hw⟩
      rw [hs] at this
      cases this
  | cons g rest =>
      have hhead : σ.pool.rendez.head? = some g.task := by rw [hq, hs]; rfl
      obtain ⟨-, hlen⟩ := filter_wake h.nodup hs
      rw [hhead]
      obtain ⟨x, hx⟩ := List.exists_mem_of_length_pos (by rw [hlen]; exact Nat.succ_pos _)
      exact ⟨x, (List.mem_filter.1 hx).1, (List.mem_filter.1 hx).2⟩

/-- The task in `bufpool_deinit` is there as long as the pool is being shut
down, in its queue until it is woken. -/
structure Waiting (σ : State) : Prop where
  before : σ.pool.state = .initialized → σ.pool.deinit = []
  during : σ.pool.state = .deiniting →
    ∃ t woken, σ.deiniter = some (t, woken) ∧ σ.pool.deinit = if woken = true then [] else [t]

/-- Only `bufpool_put` and `bufpool_deinit` move the wait. -/
theorem Waiting.congr (h : Waiting σ) (hs : σ'.pool.state = σ.pool.state)
    (hd : σ'.pool.deinit = σ.pool.deinit) (hw : σ'.deiniter = σ.deiniter) : Waiting σ' :=
  ⟨fun e => hd.trans (h.before (hs.symm.trans e)), fun e => by
    rw [hd, hw]
    exact h.during (hs.symm.trans e)⟩

theorem Waiting.settle (h : Waiting σ) {free : List Addr} (ho : Owns σ.pool free σ.held)
    {t : TaskId} {noblock zeroed : Bool} {calloc : Option Addr} (hf : Action.Fresh σ calloc)
    {r : Pool × Pool.GetOutcome} (hr : σ.pool.getLoop t noblock calloc = some r) :
    Waiting (σ.settle t zeroed (Pool.zero zeroed r)) := by
  obtain ⟨r', hr', hcases⟩ := settle_cases ho hf t noblock zeroed
  obtain rfl : r' = r := Option.some.inj (hr'.symm.trans hr)
  rcases hcases with ⟨a, p', he, -, hrest, -⟩ | ⟨-, -, ⟨-, he⟩ | ⟨-, he⟩⟩
  · rw [he]
    exact h.congr hrest.state hrest.deinit rfl
  · rw [he]
    exact h.congr rfl rfl rfl
  · rwa [he]

/-- `TASKWAKEUP(&bp->deinit)`, if it is the last buffer. -/
theorem Waiting.put (h : Waiting σ) {q : Pool} (hrest : σ.pool.Rest q) (gs : List Getter)
    (held : List Addr) :
    Waiting ⟨q.wakeUp, gs, σ.deiniter.map fun d =>
      if some d.1 = (if q.Last then q.deinit.head? else none) then (d.1, true) else d, held⟩ := by
  refine ⟨fun e => ?_, fun e => ?_⟩
  · have hz := hrest.deinit.trans (h.before (hrest.state.symm.trans e))
    simp [Pool.wakeUp, hz]
  · obtain ⟨t, woken, hd, hz⟩ := h.during (hrest.state.symm.trans e)
    have hz := hrest.deinit.trans hz
    by_cases hlast : q.Last
    · refine ⟨t, true, ?_, ?_⟩
      · cases woken <;> simp [hd, hz, hlast]
      · cases woken <;> simp [Pool.wakeUp, hz, hlast]
    · exact ⟨t, woken, by simp [hd, hlast], by simp [Pool.wakeUp, hz, hlast]⟩

/-- **A step keeps the wait.** -/
theorem Waiting.step (h : Waiting σ) (hS : Sound nbufs nmax σ) (he : act.Enabled σ)
    (hx : act.exec σ = some σ') : Waiting σ' := by
  have hst := hS.ne_of_exec he hx
  obtain ⟨free, ho⟩ := hS.owns hst
  have hend : ∀ {p : Pool} {gs : List Getter} {held : List Addr}, p.state = .deinted →
      Waiting ⟨p, gs, none, held⟩ := fun hp =>
    ⟨fun e => by simp [hp] at e, fun e => by simp [hp] at e⟩
  cases act with
  | get t zeroed noblock calloc =>
      obtain ⟨r, hr, hx⟩ := Option.bind_eq_some_iff.1 hx
      obtain rfl := Option.some.inj hx
      rw [Pool.bufpoolGet, if_neg (by simp [he.1])] at hr
      exact h.settle ho he.2.2 hr
  | resume t calloc =>
      obtain ⟨g', -, hx⟩ := Option.bind_eq_some_iff.1 hx
      obtain ⟨r, hr, hx⟩ := Option.bind_eq_some_iff.1 hx
      obtain rfl := Option.some.inj hx
      have h₀ : Waiting { σ with getters := σ.getters.filter (·.task != t) } :=
        h.congr rfl rfl rfl
      exact h₀.settle ho he.2 hr
  | put a =>
      obtain ⟨q, free', hg, -, hrest, -⟩ := ho.giveBack he
      rw [exec_put hg] at hx
      obtain rfl := Option.some.inj hx
      exact h.put hrest _ _
  | write a next prev =>
      obtain rfl := Option.some.inj hx
      exact h.congr rfl rfl rfl
  | deinit t =>
      rcases ho.bufpoolDeinit he.1 t with ⟨-, hp⟩ | ⟨-, q, hp, hgone⟩
      · rw [Action.exec, hp] at hx
        obtain rfl := Option.some.inj hx
        exact ⟨fun e => by simp at e, fun _ => ⟨t, false, rfl, by simp [h.before he.1]⟩⟩
      · rw [Action.exec, hp] at hx
        obtain rfl := Option.some.inj hx
        exact hend hgone.state
  | resumeDeinit =>
      obtain ⟨p, hp, hx⟩ := Option.bind_eq_some_iff.1 hx
      obtain rfl := Option.some.inj hx
      exact hend (finish_state hp)

theorem waiting_reachable (hr : (poolSystem bufsize nbufs nmax).Reachable σ) : Waiting σ := by
  induction hr with
  | init hs =>
      obtain ⟨p, hp, rfl⟩ := hs
      obtain ⟨-, hst, -, hz, -⟩ := hp.owns
      exact ⟨fun _ => hz, fun e => by simp [hst] at e⟩
  | step hr he hx ih => exact ih.step (sound_reachable hr) he hx

/-- A getter that runs on takes a buffer, if one is free. -/
theorem exec_resume_got {free : List Addr} {g : Getter} (ho : Owns σ.pool free σ.held)
    (hne : free ≠ []) (hg : g ∈ σ.getters) :
    ∃ σ', (Action.resume g.task none).exec σ = some σ' ∧
      σ'.pool.issued = σ.held.length + 1 ∧ σ'.deiniter = σ.deiniter := by
  have hfind : (σ.find g.task).isSome = true := by
    rw [State.find, List.find?_isSome]
    exact ⟨g, hg, by simp⟩
  obtain ⟨g', hg'⟩ := Option.isSome_iff_exists.1 hfind
  obtain ⟨σ₀, hσ₀⟩ : ∃ s : State, s = { σ with getters := σ.getters.filter (·.task != g.task) } :=
    ⟨_, rfl⟩
  have hf : Action.Fresh σ₀ none := by simp [Action.Fresh]
  have ho₀ : Owns σ₀.pool free σ₀.held := by rw [hσ₀]; exact ho
  obtain ⟨r, hr, hcases⟩ := settle_cases ho₀ hf g.task false g'.zeroed
  have hx : (Action.resume g.task none).exec σ =
      some (σ₀.settle g.task g'.zeroed (Pool.zero g'.zeroed r)) := by
    rw [hσ₀] at hr ⊢
    simp only [Action.exec, hg', hr]
    rfl
  rcases hcases with ⟨b, p, he, hp, -⟩ | ⟨hnil, -⟩
  · rw [he] at hx
    refine ⟨_, hx, ?_⟩
    rw [hσ₀] at hp ⊢
    exact ⟨hp.issued, rfl⟩
  · exact absurd hnil hne

/-- **The defect**: where the condition fails, the getter that is left can
take the buffer before `bufpool_deinit` goes on. -/
theorem exists_unsafe (hr : (poolSystem bufsize nbufs nmax).Reachable σ)
    (he : act.Enabled σ) (hn : ¬ NoGetterLeft σ act) :
    ∃ as σ', (poolSystem bufsize nbufs nmax).Steps σ (act :: as) σ' ∧ ¬ SafeEnd σ' := by
  cases act with
  | put a =>
      simp only [NoGetterLeft, Classical.not_imp] at hn
      obtain ⟨hst, hone, hgs⟩ := hn
      have hS := sound_reachable hr
      have hne := hS.in_use he
      obtain ⟨free, ho⟩ := hS.owns hne
      obtain ⟨q, free', hg, ho', hrest, -⟩ := ho.giveBack he
      -- nothing is held any more, so the free list is not empty
      have hlen := ho.issued
      have herase : σ.held.erase a = [] := by
        rw [← List.length_eq_zero_iff, List.length_erase_of_mem he]
        omega
      rw [herase] at ho'
      have hfree : free' ≠ [] := fun e => by
        have hidle := ho'.idle.2
        rw [e, hrest.nbufs, (hS.size hne).1] at hidle
        exact absurd hidle (Nat.ne_of_lt (nbufs_pos hr))
      -- `bufpool_deinit` is woken
      have hlast : q.Last := ⟨ho'.issued, hrest.state.trans hst⟩
      have hx := exec_put hg
      have hr₁ := hr.step (a := Action.put a) he hx
      obtain ⟨t, woken, hd, hz⟩ := (waiting_reachable hr₁).during hlast.2
      obtain ⟨t₀, woken₀, -, hz₀⟩ := (waiting_reachable hr).during hst
      have hwoken : woken = true := by
        have hnil : q.wakeUp.deinit = [] := by
          rw [Pool.wakeUp, if_pos hlast, hrest.deinit, hz₀]
          split <;> rfl
        cases woken with
        | true => rfl
        | false => rw [hnil] at hz; cases hz
      -- and so is a getter, which runs first
      have hr₀ : ((poolSystem bufsize nbufs nmax).only fun _ => Allocates false).Reachable σ :=
        hr.to_only fun _ act _ => by cases act <;> simp [Allocates]
      obtain ⟨g, hgm, hgw⟩ := (queued_reachable hr₀ hne).1.exists_woken hgs
      rw [← hrest.rendez] at hgm
      obtain ⟨σ₁, hσ₁⟩ : ∃ s : State, (Action.put a).exec σ = some s := ⟨_, hx⟩
      rw [hx] at hσ₁
      have hσ₁ := Option.some.inj hσ₁
      have ho₁ : Owns σ₁.pool free' σ₁.held := by
        rw [← hσ₁]
        simpa [herase] using ho'.wakeUp
      have hg₁ : g ∈ σ₁.getters := by rw [← hσ₁]; exact hgm
      obtain ⟨σ₂, hx₂, hi, hd₂⟩ := exec_resume_got ho₁ hfree hg₁
      refine ⟨[.resume g.task none], σ₂, .cons he hx (.cons ⟨⟨g, hgm, rfl, hgw⟩, ?_⟩ ?_ .nil), ?_⟩
      · simp [Action.Fresh]
      · rw [hσ₁]
        exact hx₂
      · intro hsafe
        have hen : Action.resumeDeinit.Enabled σ₂ :=
          ⟨(t, woken), by rw [hd₂, ← hσ₁]; exact hd, hwoken⟩
        have hz := (hsafe.woken hen).1
        omega
  | get _ _ _ _ => exact absurd trivial hn
  | resume _ _ => exact absurd trivial hn
  | write _ _ _ => exact absurd trivial hn
  | deinit _ => exact absurd trivial hn
  | resumeDeinit => exact absurd trivial hn

/-- **When the shutdown waits for the last buffer.** In a run in which the
last buffer never comes back to a pool being shut down while a task is
still in `bufpool_get`, `bufpool_deinit` goes on only with no buffer out,
and none is out afterwards. From any put that does not meet this, a run
leads to where it goes on while a buffer is out. -/
theorem deinit_waits :
    (∀ σ, ((poolSystem bufsize nbufs nmax).only NoGetterLeft).Reachable σ → SafeEnd σ) ∧
    ∀ σ act, (poolSystem bufsize nbufs nmax).Reachable σ →
      (poolSystem bufsize nbufs nmax).enabled σ act → ¬ NoGetterLeft σ act →
      ∃ as σ', (poolSystem bufsize nbufs nmax).Steps σ (act :: as) σ' ∧ ¬ SafeEnd σ' :=
  ⟨fun _ hr => (drained_reachable hr).safeEnd (sound_reachable hr.of_only),
    fun _ _ hr he hn => exists_unsafe hr he hn⟩

instance (bufsize nbufs nmax : ℕ) (σ : State) (act : Action) :
    Decidable (((poolSystem bufsize nbufs nmax).only NoGetterLeft).enabled σ act) :=
  inferInstanceAs (Decidable (act.Enabled σ ∧ NoGetterLeft σ act))

/-- A pool is shut down with a buffer out, which then comes back. -/
theorem deinit_waits_last : ∃ σ, ((poolSystem 16 1 2).only NoGetterLeft).Reachable σ ∧
    σ.pool.state = .deiniting ∧ Action.resumeDeinit.Enabled σ ∧ SafeEnd σ := by
  have h : (((poolSystem 16 1 2).only NoGetterLeft).run smallPool
      [.get 1 false false none, .deinit 2, .put 0]).any
      (fun σ : State => decide (σ.pool.state = .deiniting ∧
        Action.resumeDeinit.Enabled σ)) = true := by decide +kernel
  obtain ⟨σ, hσ, hp⟩ := System.Steps.of_run_any h
  obtain ⟨hst, hen⟩ := of_decide_eq_true hp
  have hr := hσ.reachable (.init smallPool_init)
  exact ⟨σ, hr, hst, hen, deinit_waits.1 σ hr⟩

/-- A getter that slept when the shutdown began takes the last buffer as it
comes back, and the assertion of `bufpool_deinit` fails. -/
theorem deinit_finds_buffer : ∃ σ, (poolSystem 16 1 2).Reachable σ ∧
    Action.resumeDeinit.Enabled σ ∧ σ.pool.issued = 1 ∧
    Action.resumeDeinit.exec σ = none ∧ ¬ SafeEnd σ := by
  have h : ((poolSystem 16 1 2).run smallPool
      [.get 1 false false none, .get 1 false false (some 7), .get 2 false false none,
        .deinit 3, .put 7, .put 0, .resume 2 none]).any
      (fun σ : State => decide (Action.resumeDeinit.Enabled σ ∧ σ.pool.issued = 1 ∧
        (Action.resumeDeinit.exec σ).isNone)) = true := by decide +kernel
  obtain ⟨σ, hσ, hp⟩ := System.Steps.of_run_any h
  obtain ⟨hen, hi, hx⟩ := of_decide_eq_true hp
  refine ⟨σ, hσ.reachable (.init smallPool_init), hen, hi, Option.isNone_iff_eq_none.1 hx, ?_⟩
  intro hsafe
  have hz := (hsafe.woken hen).1
  omega

end BufPool

end VmwareProto
