import VmwareProto.Libtask.LifeCycle
/-!
# How often a callback is called

`repeat` counts down after each callback, and the timer is unset at 0. So a
`timer_set` that comes while the callback runs loses a call, or the only one;
`Lasting` leaves that out. In a run of such calls every read of expirations
starts the callback, and the `_timer_func` is there until it has been called
as often as asked for (`Counting`).
-/

namespace VmwareProto

namespace Libtask

namespace TimerThread

/-- How often the callback is to be called, of a `repeat` that is not
negative. -/
def required (repeats : ℤ) : ℤ := if repeats = 0 then 1 else repeats

/-- No task is in the callback. -/
def NoCallback (σ : TimerThread) : Prop := ∀ f ∈ σ.places, (σ.pc f).isCallback = false

instance (σ : TimerThread) : Decidable σ.NoCallback :=
  inferInstanceAs (Decidable (∀ f ∈ σ.places, (σ.pc f).isCallback = false))

/-- A proper call that keeps the count of callbacks: while the callback runs,
a timer that is set is set again only for good. `aiotask` finds the
`_timer_func` waiting. -/
def Lasting (σ : TimerThread) (act : TimerAction) : Prop :=
  σ.Proper act ∧
  match act with
  | .timerSet _ ts repeats _ => ts.Valid → σ.t.timerSet ≠ 0 → repeats < 0 ∨ σ.NoCallback
  | .timerWait _ ts _ => ts.Valid → σ.t.timerSet ≠ 0 → σ.NoCallback
  | .event _ => σ.reader ≠ none
  | _ => True

instance (σ : TimerThread) : (act : TimerAction) → Decidable (σ.Lasting act)
  | .timerSet _ _ _ _ => inferInstanceAs (Decidable (_ ∧ (_ → _ → _ ∨ _)))
  | .timerWait _ _ _ => inferInstanceAs (Decidable (_ ∧ (_ → _ → _)))
  | .event _ => inferInstanceAs (Decidable (_ ∧ ¬_))
  | .timerInit _ _ _ _ | .timerDeinit _ | .other _ _ _ _ _ _ | .timerUnset _ | .resume _ | .start _
  | .read _ _ | .ret _ | .taskyield _ | .sleep _ | .ready _ _ | .taskcreate _ _ | .taskexit _
  | .scribble _ | .taskscheduler | .expire _ | .epollWait _ | .polled _ =>
      inferInstanceAs (Decidable (_ ∧ True))

/-! ## The invariant -/

/-- What is left to do of a `timer_set`, after a read of expirations if
`due`. -/
structure Left (σ : TimerThread) (ts : Timespec) (repeats : ℤ) (due : Bool) : Prop where
  life : σ.life = .ready
  set : σ.t.timerSet ≠ 0
  unlimited : repeats < 0 → σ.t.repeats = repeats
  waiting : due = false → 0 ≤ repeats →
    σ.t.repeats = repeats - σ.consumed ∧ σ.consumed < required repeats
  calling : due = true → 0 ≤ repeats →
    σ.t.repeats = repeats - σ.consumed + 1 ∧ 0 < σ.consumed ∧ σ.consumed ≤ required repeats
  armed : ∃ s n, σ.timerfds σ.t.timerfd = some (s, n) ∧
    (s = ts.setting repeats ∨ repeats = 0 ∧ s = .disarmed ∧ (0 < n ∨ 0 < σ.consumed)) ∧
    (0 < σ.expired → 0 < n ∨ 0 < σ.consumed)

/-- A `timer_set` that is being served. -/
def Serving (σ : TimerThread) (ts : Timespec) (repeats : ℤ) : Prop :=
  ∃ f, (σ.pc f).isFunc = true ∧ σ.Left ts repeats (σ.pc f).isCallback

/-- One that has been. -/
structure Finished (σ : TimerThread) (repeats : ℤ) : Prop where
  life : σ.life = .ready
  unset : σ.t.timerSet = 0
  nonneg : 0 ≤ repeats
  consumed : σ.consumed = required repeats
  no_func : ∀ f, (σ.pc f).isFunc = false

/-- **The calls of a callback** -/
structure Counting (σ : TimerThread) : Prop where
  unset : σ.life = .ready → σ.goal = none → σ.t.timerSet = 0
  calls : ∀ ts repeats, σ.goal = some (ts, repeats) → σ.t.cbfn ≠ none → σ.calls = σ.consumed
  goal : ∀ ts repeats, σ.goal = some (ts, repeats) → σ.Serving ts repeats ∨ σ.Finished repeats

variable {σ σ' τ : TimerThread} {x f malloc : TaskId} {p : Ctx} {act : TimerAction} {ts : Timespec}
  {repeats fd : ℤ} {due : Bool} {pc : TimerPc} {c : Code}

/-! ## Steps that do not count -/

/-- A `_timer_func` stays one, in the callback or outside. -/
def Kept (pc pc' : TimerPc) : Prop :=
  pc'.isFunc = pc.isFunc ∧ (pc.isFunc = true → pc'.isCallback = pc.isCallback)

theorem Kept.refl (pc : TimerPc) : Kept pc pc := ⟨rfl, fun _ => rfl⟩

theorem kept_update (h : Kept (σ.pc x) pc) (y : TaskId) : Kept (σ.pc y) (Function.update σ.pc x pc y) := by
  by_cases hy : y = x
  · rw [hy, Function.update_self]
    exact h
  · rw [Function.update_of_ne hy]
    exact .refl _

/-- The timer, its descriptor and the counts stay. -/
structure SameCount (σ σ' : TimerThread) : Prop where
  life : σ'.life = σ.life
  t : σ'.t = σ.t
  timerfds : σ'.timerfds σ.t.timerfd = σ.timerfds σ.t.timerfd
  goal : σ'.goal = σ.goal
  calls : σ'.calls = σ.calls
  consumed : σ'.consumed = σ.consumed
  expired : σ'.expired = σ.expired

theorem SameCount.refl (σ : TimerThread) : SameCount σ σ := ⟨rfl, rfl, rfl, rfl, rfl, rfl, rfl⟩

theorem Left.frame (h : σ.Left ts repeats due) (hs : SameCount σ σ') : σ'.Left ts repeats due := by
  refine ⟨hs.life.trans h.life, ?_, ?_, ?_, ?_, ?_⟩
  · rw [hs.t]
    exact h.set
  · rw [hs.t]
    exact h.unlimited
  · rw [hs.t, hs.consumed]
    exact h.waiting
  · rw [hs.t, hs.consumed]
    exact h.calling
  · rw [hs.t, hs.timerfds, hs.consumed, hs.expired]
    exact h.armed

namespace Counting

/-- **Where nothing is counted, the count stays.** -/
theorem frame (h : Counting σ) (hs : SameCount σ σ') (hpc : ∀ y, Kept (σ.pc y) (σ'.pc y)) :
    Counting σ' := by
  refine ⟨?_, ?_, fun ts repeats hg => ?_⟩
  · rw [hs.life, hs.goal, hs.t]
    exact h.unset
  · rw [hs.goal, hs.t, hs.calls, hs.consumed]
    exact h.calls
  · rw [hs.goal] at hg
    rcases h.goal ts repeats hg with ⟨f, hf, hl⟩ | hfin
    · refine .inl ⟨f, (hpc f).1.trans hf, ?_⟩
      rw [(hpc f).2 hf]
      exact hl.frame hs
    · refine .inr ⟨hs.life.trans hfin.life, ?_, hfin.nonneg, ?_, fun f => ?_⟩
      · rw [hs.t]
        exact hfin.unset
      · rw [hs.consumed]
        exact hfin.consumed
      · rw [(hpc f).1]
        exact hfin.no_func f

/-- A timer that nobody has set -/
theorem idle (hg : σ.goal = none) (hs : σ.life = .ready → σ.t.timerSet = 0) : Counting σ := by
  refine ⟨fun hl _ => hs hl, fun ts repeats hg' => ?_, fun ts repeats hg' => ?_⟩
  · rw [hg] at hg'
    cases hg'
  · rw [hg] at hg'
    cases hg'

/-- A timer that is set is served. -/
theorem serving (h : Counting σ) (hl : σ.life = .ready) (hset : σ.t.timerSet ≠ 0) :
    ∃ ts repeats, σ.goal = some (ts, repeats) ∧ σ.Serving ts repeats := by
  cases hg : σ.goal with
  | none => exact absurd (h.unset hl hg) hset
  | some k =>
      obtain ⟨ts, repeats⟩ := k
      rcases h.goal ts repeats hg with hserve | hfin
      · exact ⟨ts, repeats, rfl, hserve⟩
      · exact absurd hfin.unset hset

/-- While the timer is not initialised, nothing is asked of it. -/
theorem goal_none (h : Counting σ) (hl : σ.life ≠ .ready) : σ.goal = none := by
  cases hg : σ.goal with
  | none => rfl
  | some k =>
      obtain ⟨ts, repeats⟩ := k
      rcases h.goal ts repeats hg with ⟨f, -, hleft⟩ | hfin
      · exact absurd hleft.life hl
      · exact absurd hfin.life hl

end Counting

/-! ## `timer_set` -/

/-- What is left right after a `timer_set`. -/
theorem left_armed (hl : σ.life = .ready) (hdue : due = true → repeats < 0)
    (ht : τ.t = { (σ.armed ts repeats).t with timerSet := τ.t.timerSet }) (hset : τ.t.timerSet ≠ 0)
    (hlife : τ.life = σ.life) (htimer : τ.timerfds = (σ.armed ts repeats).timerfds)
    (hc : τ.consumed = 0) (he : τ.expired = 0) : τ.Left ts repeats due := by
  refine ⟨hlife.trans hl, hset, fun _ => by rw [ht]; rfl, fun _ hr => ?_, fun hd hr => ?_,
    ts.setting repeats, 0, ?_, .inl rfl, by omega⟩
  · rw [ht, hc]
    refine ⟨by simp [TimerThread.armed], ?_⟩
    unfold required
    split <;> omega
  · have := hdue hd
    omega
  · rw [htimer, ht]
    simp [TimerThread.armed]

/-- `timer_init` leaves a timer that is not set. -/
theorem timerInit_timerSet {T T' : Registry} {t t' : TaskTimer} {cbfn : Option ℕ} {data : ℕ}
    {a : TimerAnswers} {rc : ℤ} (h : T.timerInit t cbfn data a = some (rc, t', T')) :
    t'.timerSet = 0 := by
  unfold Registry.timerInit at h
  split at h
  · cases h
  · dsimp only at h
    split at h
    · cases h
      rfl
    · obtain ⟨⟨rc₁, T₁⟩, -, h⟩ := Option.bind_eq_some_iff.1 h
      dsimp only at h
      split at h <;> cases h <;> rfl

namespace Counting

/-- **`timer_set`** -/
theorem timerSet {rc : ℤ} (h : Counting σ) (ht : Tame σ) (hl : σ.life = .ready)
    (hp : ts.Valid → σ.t.timerSet ≠ 0 → repeats < 0 ∨ σ.NoCallback)
    (hx : σ.timerSet ts repeats malloc = some (rc, τ)) : Counting τ := by
  rcases (ht.ready hl).timerSet_cases ts repeats malloc with
    ⟨-, heq⟩ | ⟨hv, hset, heq⟩ | ⟨-, hset, heq⟩
  · rw [heq] at hx
    cases hx
    exact h
  · rw [heq] at hx
    cases hx
    obtain ⟨ts', repeats', -, f, hf, hleft⟩ := h.serving hl hset
    refine ⟨nofun, fun _ _ _ _ => rfl, fun ts₁ repeats₁ hg => .inl ⟨f, hf, ?_⟩⟩
    cases hg
    refine left_armed hl (fun hd => ?_) rfl hset rfl rfl rfl rfl
    rcases hp hv hset with hr | hno
    · exact hr
    · have := hno f (ht.funcs f hf)
      rw [show (σ.pc f).isCallback = true from hd] at this
      cases this
  · rw [heq] at hx
    cases hx
    have hpc : ({ σ.armed ts repeats with t.timerSet := 1 }.taskcreate malloc .start).pc malloc =
        .start := Function.update_self ..
    refine ⟨nofun, fun _ _ _ _ => rfl, fun ts₁ repeats₁ hg => .inl ⟨malloc, by rw [hpc]; rfl, ?_⟩⟩
    cases hg
    rw [hpc]
    exact left_armed hl nofun rfl (show (1 : ℤ) ≠ 0 by decide) rfl rfl rfl rfl

end Counting

/-! ## `_timer_func` -/

/-- **After the callback** the timer is unset, and the task is gone, or it
reads again. -/
theorem Ready.afterCallback_cases (h : σ.Ready) (x : TaskId) :
    σ.countdown.t.repeats = 0 ∧ σ.afterCallback x =
      some ((if σ.t.timerSet = 0 then σ.countdown else σ.countdown.disarmed).taskexit x) ∨
    σ.countdown.t.repeats ≠ 0 ∧
      ∃ p, σ.afterCallback x = some (σ.countdown.goto x (.read σ.t.timerfd p)) := by
  have hc : σ.countdown.Ready := by
    obtain ⟨p, r, he, hr, hread⟩ := h.entered
    exact ⟨h.init, h.closed, p, r, ⟨he.range, he.tcarray, he.heap, he.fds, he.timer⟩, hr, hread⟩
  by_cases hz : σ.countdown.t.repeats = 0
  · refine .inl ⟨hz, ?_⟩
    rw [afterCallback, if_pos hz, hc.timerUnset_eq]
    rfl
  · obtain ⟨p, -, heq⟩ := hc.netread_eq x
    refine .inr ⟨hz, p, ?_⟩
    rw [afterCallback, if_neg hz, heq]
    rfl

theorem countdown_repeats : σ.countdown.t.repeats =
    if 0 < σ.t.repeats then σ.t.repeats - 1 else σ.t.repeats := rfl

/-- **One call less is left.** -/
theorem Left.countdown (h : σ.Left ts repeats true) :
    (σ.countdown.t.repeats ≠ 0 → σ.countdown.Left ts repeats false) ∧
    (σ.countdown.t.repeats = 0 → 0 ≤ repeats ∧ σ.consumed = required repeats) := by
  have hc := countdown_repeats (σ := σ)
  obtain ⟨s, n, hs, harm, hexp⟩ := h.armed
  by_cases hr : repeats < 0
  · have hu := h.unlimited hr
    rw [if_neg (by omega)] at hc
    refine ⟨fun _ => ?_, fun hz => by omega⟩
    exact ⟨h.life, h.set, fun _ => hc.trans hu, fun _ _ => by omega, nofun, s, n, hs, harm, hexp⟩
  · obtain ⟨hrep, hpos, hle⟩ := h.calling rfl (by omega)
    have hreq : required repeats = if repeats = 0 then 1 else repeats := rfl
    constructor
    · intro hz
      refine ⟨h.life, h.set, fun _ => by omega, fun _ _ => ?_, nofun, s, n, hs, harm, hexp⟩
      rw [hc] at hz ⊢
      change _ ∧ (σ.consumed : ℤ) < _
      rw [show σ.countdown.consumed = σ.consumed from rfl]
      split at hz <;> split at hreq <;> omega
    · intro hz
      refine ⟨by omega, ?_⟩
      rw [hc] at hz
      split at hz <;> split at hreq <;> omega

namespace Counting

/-- The `_timer_func` goes on after the callback. -/
theorem afterCallback (ht : Tame σ) (hl : σ.life = .ready) (hf : (σ.pc x).isFunc = true)
    (hunset : σ.goal = none → σ.t.timerSet = 0)
    (hcalls : ∀ ts repeats, σ.goal = some (ts, repeats) → σ.t.cbfn ≠ none → σ.calls = σ.consumed)
    (hleft : ∀ ts repeats, σ.goal = some (ts, repeats) → σ.Left ts repeats true)
    (heq : σ.afterCallback x = some τ) : Counting τ := by
  rcases (ht.ready hl).afterCallback_cases x with ⟨hz, heq'⟩ | ⟨hz, p, heq'⟩
  · rw [heq'] at heq
    cases heq
    have hgone : ∀ f, (Function.update σ.pc x (.code .task) f).isFunc = false := by
      intro f
      by_cases hfx : f = x
      · rw [hfx, Function.update_self]
        rfl
      · rw [Function.update_of_ne hfx]
        by_contra hff
        rw [Bool.not_eq_false] at hff
        exact hfx (ht.one f x hff hf)
    split
    · rename_i hset
      refine ⟨fun _ _ => hset, hcalls, fun ts repeats hg => ?_⟩
      exact absurd hset (hleft ts repeats hg).set
    · refine ⟨fun _ _ => rfl, hcalls, fun ts repeats hg => .inr ?_⟩
      obtain ⟨hr, hreq⟩ := (hleft ts repeats hg).countdown.2 hz
      exact ⟨hl, rfl, hr, hreq, hgone⟩
  · rw [heq'] at heq
    cases heq
    refine ⟨fun _ => hunset, hcalls, fun ts repeats hg => .inl ⟨x, ?_, ?_⟩⟩
    · rw [show (σ.countdown.goto x (.read σ.t.timerfd p)).pc x = _ from Function.update_self ..]
      rfl
    · rw [show (σ.countdown.goto x (.read σ.t.timerfd p)).pc x = _ from Function.update_self ..]
      exact ((hleft ts repeats hg).countdown.1 hz).frame ⟨rfl, rfl, rfl, rfl, rfl, rfl, rfl⟩

/-- **A read of expirations** is a call of the callback. -/
theorem serve {s : Setting} {n : ℕ} (h : Counting σ) (ht : Tame σ)
    (hl : σ.life = .ready) (hpc : σ.pc x = .read σ.t.timerfd p)
    (hs : σ.timerfds σ.t.timerfd = some (s, n + 1))
    (heq : { σ with timerfds := Function.update σ.timerfds σ.t.timerfd (some (s, 0)) }.serve x =
      some τ) : Counting τ := by
  have hf : (σ.pc x).isFunc = true := by rw [hpc]; rfl
  -- what is left once the expirations are read
  generalize hρ : ({ ({ σ with
      timerfds := Function.update σ.timerfds σ.t.timerfd (some (s, 0)) } : TimerThread).taskwakeupall with
    consumed := σ.consumed + 1 } : TimerThread) = ρ
  have hleft : ∀ ts repeats, σ.goal = some (ts, repeats) → ρ.Left ts repeats true := by
    intro ts repeats hg
    rcases h.goal ts repeats hg with ⟨f, hff, hleft⟩ | hfin
    · obtain rfl := ht.one f x hff hf
      rw [hpc] at hleft
      obtain ⟨s', n', hs', harm, -⟩ := hleft.armed
      rw [hs] at hs'
      cases hs'
      subst hρ
      refine ⟨hl, hleft.set, hleft.unlimited, nofun, fun _ hr => ?_, s, 0, ?_, ?_, fun _ => ?_⟩
      · obtain ⟨hrep, hlt⟩ := hleft.waiting rfl hr
        refine ⟨?_, by simp, ?_⟩
        · simp only [TimerThread.taskwakeupall]
          omega
        · push_cast
          omega
      · simp [TimerThread.taskwakeupall]
      · rcases harm with hset | ⟨hr, hset, -⟩
        · exact .inl hset
        · exact .inr ⟨hr, hset, .inr (by simp)⟩
      · exact .inr (by simp)
    · have := hfin.no_func x
      rw [hf] at this
      cases this
  have hρt : Tame ρ := by
    have hread : Tame { σ with
        timerfds := Function.update σ.timerfds σ.t.timerfd (some (s, 0)) } :=
      ht.retime ⟨rfl, rfl, rfl, rfl, rfl, by simp [hs]⟩ rfl rfl rfl rfl rfl
    subst hρ
    exact hread.taskwakeupall.retime ⟨rfl, rfl, rfl, rfl, rfl, rfl⟩ rfl rfl rfl rfl rfl
  unfold TimerThread.serve at heq
  rw [show ({ ({ σ with
      timerfds := Function.update σ.timerfds σ.t.timerfd (some (s, 0)) } : TimerThread).taskwakeupall with
    consumed := σ.consumed + 1 } : TimerThread) = ρ from hρ] at heq
  by_cases hcb : σ.t.cbfn = none
  · rw [if_pos hcb] at heq
    subst hρ
    exact afterCallback hρt hl hf (h.unset hl) (fun _ _ _ hne => absurd hcb hne) hleft heq
  · rw [if_neg hcb] at heq
    cases heq
    subst hρ
    have hpcx : ∀ (τ : TimerThread), (τ.goto x (.code .callback)).pc x = .code .callback :=
      fun τ => Function.update_self ..
    refine ⟨fun _ => h.unset hl, fun ts repeats hg _ => ?_, fun ts repeats hg => .inl ⟨x, ?_, ?_⟩⟩
    · exact congrArg (· + 1) (h.calls ts repeats hg hcb)
    · rw [hpcx]
      rfl
    · rw [hpcx]
      have hL := hleft ts repeats hg
      exact ⟨hL.life, hL.set, hL.unlimited, hL.waiting, hL.calling, hL.armed⟩

/-- The timer expires. -/
theorem expire {s : Setting} {n : ℕ} (h : Counting σ) (hs : σ.timerfds σ.t.timerfd = some (s, n)) :
    Counting { σ with
      timerfds := Function.update σ.timerfds σ.t.timerfd
        (some (if s = .once then .disarmed else s, n + 1))
      expired := if σ.t.timerfd = σ.t.timerfd then σ.expired + 1 else σ.expired } := by
  refine ⟨h.unset, h.calls, fun ts repeats hg => ?_⟩
  rcases h.goal ts repeats hg with ⟨f, hf, hleft⟩ | hfin
  · refine .inl ⟨f, hf, hleft.life, hleft.set, hleft.unlimited, hleft.waiting, hleft.calling,
      _, n + 1, Function.update_self .., ?_, fun _ => .inl n.succ_pos⟩
    obtain ⟨s', n', hs', harm, -⟩ := hleft.armed
    rw [hs] at hs'
    cases hs'
    by_cases ho : s = .once
    · rw [if_pos ho]
      refine .inr ⟨?_, rfl, .inl n.succ_pos⟩
      rcases harm with hset | ⟨hr, -⟩
      · -- only a timer that is to expire once is set so
        unfold Timespec.setting at hset
        rw [ho] at hset
        split at hset
        · cases hset
        · split at hset
          · assumption
          · cases hset
      · exact hr
    · rw [if_neg ho]
      rcases harm with hset | ⟨hr, hset, -⟩
      · exact .inl hset
      · exact .inr ⟨hr, hset, .inl n.succ_pos⟩
  · exact .inr ⟨hfin.life, hfin.unset, hfin.nonneg, hfin.consumed, hfin.no_func⟩

/-- **A call that lasts keeps the count.** -/
theorem step (h : Counting σ) (ht : Tame σ) (he : act.Enabled σ) (hp : σ.Lasting act)
    (hx : act.exec σ = some σ') : Counting σ' := by
  cases act with
  | timerInit x cbfn data a =>
      obtain ⟨⟨rc, t, T⟩, heq, hx⟩ := Option.bind_eq_some_iff.1 hx
      have hset := timerInit_timerSet heq
      dsimp only at hx
      split at hx
      · cases hx
        exact idle rfl fun _ => hset
      · cases hx
        exact idle rfl fun _ => hset
  | timerSet x ts repeats malloc =>
      obtain ⟨⟨rc, τ⟩, heq, hτ⟩ := Option.map_eq_some_iff.1 hx
      cases hτ
      exact h.timerSet ht he.2.1 hp.2 heq
  | timerUnset x =>
      obtain ⟨τ, heq, hτ⟩ := Option.map_eq_some_iff.1 hx
      cases hτ
      rw [(ht.ready he.2).timerUnset_eq] at heq
      cases heq
      refine idle rfl fun _ => ?_
      split
      · assumption
      · rfl
  | timerWait x ts malloc =>
      obtain ⟨c, hc⟩ := code_of_isCode he.1.2
      simp only [TimerAction.exec, hc] at hx
      obtain ⟨⟨rc, τ⟩, heq, hx⟩ := Option.bind_eq_some_iff.1 hx
      have hτ := h.timerSet ht he.2.1 (fun hv hset => .inr (hp.2 hv hset)) heq
      obtain ⟨rc', τ', heq', -, -, hpcs⟩ := ht.timerSet he.2.1 ts 0 he.2.2 hp.1
      rw [heq'] at heq
      cases heq
      dsimp only at hx
      split at hx
      · cases hx
        exact hτ
      · cases hx
        refine hτ.frame ⟨rfl, rfl, rfl, rfl, rfl, rfl, rfl⟩ (kept_update ?_)
        rw [hpcs x (running_mem he.1.1), hc]
        cases c <;> exact ⟨rfl, fun _ => rfl⟩
  | timerDeinit x =>
      obtain ⟨c, hc⟩ := code_of_isCode he.1.2
      simp only [TimerAction.exec, hc, TimerThread.timerDeinit] at hx
      split at hx
      · obtain ⟨⟨rc, T⟩, -, hx⟩ := Option.bind_eq_some_iff.1 hx
        dsimp only at hx
        split at hx <;> cases hx <;> exact idle rfl fun he => by cases he
      · cases hx
        exact idle rfl fun he => by cases he
  | resume x =>
      simp only [TimerAction.exec] at hx
      split at hx
      · rename_i c hc
        cases hx
        refine h.frame ⟨rfl, rfl, rfl, rfl, rfl, rfl, rfl⟩ (kept_update ?_)
        rw [hc]
        cases c <;> exact ⟨rfl, fun _ => rfl⟩
      · rename_i c hc
        cases hx
        have hl := ht.deiniter x c hc
        exact idle (h.goal_none (by simp [hl])) fun he => by cases he
      · cases hx
  | start x =>
      obtain ⟨hrun, hpc⟩ := he
      have hpc : σ.pc x = .start := by
        revert hpc
        cases σ.pc x <;> simp
      have hl := ht.ready_of_func (by rw [hpc]; rfl) (by simp [hpc])
      obtain ⟨p, -, heq⟩ := (ht.ready hl).netread_eq x
      rw [TimerAction.exec, heq] at hx
      cases hx
      refine h.frame ⟨rfl, rfl, rfl, rfl, rfl, rfl, rfl⟩ (kept_update ?_)
      rw [hpc]
      exact ⟨rfl, fun _ => rfl⟩
  | read x o =>
      simp only [TimerAction.exec] at hx
      split at hx
      · rename_i fd p hc
        rcases ht.read_cases he.1 hc o with ⟨⟨d, hl⟩, heq⟩ | ⟨hl, rfl, -, ⟨s, -, heq⟩ | ⟨s, n, hs, heq⟩⟩
        · rw [heq] at hx
          cases hx
          exact idle (h.goal_none (by simp [hl])) fun hl' => by
            rw [show σ.life = .ready from hl'] at hl
            cases hl
        · rw [heq] at hx
          cases hx
          exact h.frame ⟨rfl, rfl, rfl, rfl, rfl, rfl, rfl⟩ fun _ => .refl _
        · exact h.serve ht hl hc hs (heq.symm.trans hx)
      · cases hx
  | ret x =>
      obtain ⟨hrun, hpc⟩ := he
      have hpc : σ.pc x = .code .callback := by
        revert hpc
        cases hc : σ.pc x with
        | code c => cases c <;> simp
        | _ => simp
      have hf : (σ.pc x).isFunc = true := by rw [hpc]; rfl
      have hl := ht.ready_of_func hf (by simp [hpc])
      refine afterCallback ht hl hf (h.unset hl) h.calls (fun ts repeats hg => ?_) hx
      rcases h.goal ts repeats hg with ⟨f, hff, hleft⟩ | hfin
      · obtain rfl := ht.one f x hff hf
        rwa [hpc] at hleft
      · rw [hfin.no_func x] at hf
        cases hf
  | taskyield x =>
      cases hx
      exact h.frame ⟨rfl, rfl, rfl, rfl, rfl, rfl, rfl⟩ fun _ => .refl _
  | sleep x =>
      cases hx
      exact h.frame ⟨rfl, rfl, rfl, rfl, rfl, rfl, rfl⟩ fun _ => .refl _
  | ready x t =>
      cases hx
      exact h.frame ⟨rfl, rfl, rfl, rfl, rfl, rfl, rfl⟩ fun _ => .refl _
  | taskcreate x malloc =>
      cases hx
      refine h.frame ⟨rfl, rfl, rfl, rfl, rfl, rfl, rfl⟩ (kept_update ?_)
      have hno : (σ.pc malloc).isFunc = false := by
        by_contra hf
        rw [Bool.not_eq_false] at hf
        exact he.2 (ht.funcs malloc hf)
      exact ⟨by rw [hno]; rfl, fun hf => by rw [hno] at hf; cases hf⟩
  | taskexit x =>
      cases hx
      refine h.frame ⟨rfl, rfl, rfl, rfl, rfl, rfl, rfl⟩ (kept_update ?_)
      obtain ⟨hrun, hpc⟩ := he
      revert hpc
      cases hc : σ.pc x with
      | code c => cases c <;> simp [Kept]
      | _ => simp
  | other x fd entry i p k =>
      cases hx
      exact h.frame ⟨rfl, rfl, rfl, rfl, rfl, rfl, rfl⟩ fun _ => .refl _
  | scribble t =>
      cases hx
      have hl : σ.life = .raw := he
      exact idle (h.goal_none (by simp [hl])) fun hl' => by
        rw [show σ.life = .ready from hl'] at hl
        cases hl
  | taskscheduler =>
      simp only [TimerAction.exec] at hx
      split at hx
      · cases hx
      · cases hx
        exact h.frame ⟨rfl, rfl, rfl, rfl, rfl, rfl, rfl⟩ fun _ => .refl _
  | expire fd =>
      simp only [TimerAction.exec] at hx
      split at hx
      · rename_i s n hs
        cases hx
        by_cases hfd : fd = σ.t.timerfd
        · subst hfd
          exact h.expire hs
        · refine h.frame ⟨rfl, rfl, ?_, rfl, rfl, rfl, ?_⟩ fun _ => .refl _
          · exact Function.update_of_ne (Ne.symm hfd) ..
          · exact if_neg hfd
      · cases hx
  | epollWait x =>
      cases hx
      refine h.frame ⟨rfl, rfl, rfl, rfl, rfl, rfl, rfl⟩ (kept_update ?_)
      have hpc := he.1.2
      revert hpc
      cases σ.pc x <;> simp [Kept, TimerPc.isFunc, TimerPc.isCallback]
  | event x =>
      have hl : σ.life = .ready := he.2.1
      obtain ⟨p, r, hent, -⟩ := (ht.ready hl).entered
      obtain ⟨i, hi, rfl⟩ := hent.fds
      simp only [TimerAction.exec, hi] at hx
      obtain ⟨f, -, rfl, -⟩ := ht.event hl hent hx
      exact h.frame ⟨rfl, rfl, rfl, rfl, rfl, rfl, rfl⟩ fun _ => .refl _
  | polled x =>
      cases hx
      refine h.frame ⟨rfl, rfl, rfl, rfl, rfl, rfl, rfl⟩ (kept_update ?_)
      have hpc := he.2
      revert hpc
      cases σ.pc x <;> simp [Kept, TimerPc.isFunc, TimerPc.isCallback]

end Counting

theorem Counting.reachable (h : (timers.only Lasting).Reachable σ) : Counting σ ∧ Tame σ := by
  refine System.Reachable.invariant (S := timers.only Lasting)
    (I := fun σ => Counting σ ∧ Tame σ) ?_ ?_ h
  · rintro _ ⟨t, rfl⟩
    exact ⟨idle rfl (fun he => by cases he), .start t⟩
  · intro σ act σ' hI he hx
    exact ⟨hI.1.step hI.2 he.1 he.2 hx, hI.2.step' he.1 he.2.1 hx⟩

/-- No call fails, `sockio_done` included. -/
theorem Tame.returns (h : Tame σ) (he : act.Enabled σ) (hp : σ.Lasting act) :
    ∃ σ', act.exec σ = some σ' := by
  by_cases hev : ∀ x, act ≠ .event x
  · obtain ⟨σ', hx, -⟩ := h.step he hp.1 hev
    exact ⟨σ', hx⟩
  · simp only [not_forall, not_not] at hev
    obtain ⟨x, rfl⟩ := hev
    have hl : σ.life = .ready := he.2.1
    obtain ⟨p, r, hent, -⟩ := (h.ready hl).entered
    obtain ⟨i, hi, rfl⟩ := hent.fds
    have hr : r ≠ none := hent.reader hl ▸ hp.2
    obtain ⟨f, rfl⟩ := Option.ne_none_iff_exists'.1 hr
    simp only [TimerAction.exec, hi, TimerThread.event, hent.heap]
    exact ⟨_, rfl⟩

/-- The callback is still to be called, as `timer_set` was asked: the timer is
set, and its `_timer_func` is in the callback, or in its `read`; the timer
expires, or the expiration has not been read. -/
structure Awaits (σ : TimerThread) (ts : Timespec) (repeats : ℤ) : Prop where
  set : σ.t.timerSet ≠ 0
  func : ∃ f ∈ σ.places, (σ.pc f).isCallback = true ∨
    (σ.pc f).isFunc = true ∧ (σ.running = some f ∨ f ∈ σ.runq ∨ σ.reader = some f)
  armed : ∃ s n, σ.timerfds σ.t.timerfd = some (s, n) ∧
    (s = ts.setting repeats ∨ repeats = 0 ∧ s = .disarmed ∧ 0 < n) ∧
    (0 < σ.expired → 0 < n ∨ 0 < σ.calls)

/-- A task that is at no plain point is in the queue, or recorded. -/
theorem Tame.located (h : Tame σ) (hf : (σ.pc f).isFunc = true) (hc : (σ.pc f).isCallback = false) :
    σ.running = some f ∨ f ∈ σ.runq ∨ σ.reader = some f := by
  have hplain : (σ.pc f).plain = false := by
    revert hf hc
    cases σ.pc f with
    | code c => cases c <;> simp [TimerPc.isFunc, TimerPc.isCallback]
    | wait c => cases c <;> simp [TimerPc.isFunc, TimerPc.isCallback]
    | _ => simp [TimerPc.isFunc, TimerPc.isCallback, TimerPc.plain]
  have hsleep : f ∉ σ.asleep ++ σ.rendez := fun hm => by
    rw [h.asleep f hm] at hplain
    cases hplain
  have hmem := h.funcs f hf
  simp only [places, List.mem_append, Option.mem_toList] at hmem hsleep
  tauto

/-- The callback is not called too often. -/
theorem Serving.le (h : σ.Serving ts repeats) (hr : 0 ≤ repeats) :
    (σ.consumed : ℤ) ≤ required repeats := by
  obtain ⟨f, hf, hleft⟩ := h
  cases hcb : (σ.pc f).isCallback with
  | true =>
      rw [hcb] at hleft
      exact (hleft.calling rfl hr).2.2
  | false =>
      rw [hcb] at hleft
      exact Int.le_of_lt (hleft.waiting rfl hr).2

theorem Serving.awaits (ht : Tame σ) (h : σ.Serving ts repeats) (hc : σ.calls = σ.consumed)
    (hlt : ¬(0 ≤ repeats ∧ (σ.calls : ℤ) = required repeats)) : σ.Awaits ts repeats := by
  have hle := h.le
  obtain ⟨f, hf, hleft⟩ := h
  refine ⟨hleft.set, ⟨f, ht.funcs f hf, ?_⟩, ?_⟩
  · cases hcb : (σ.pc f).isCallback with
    | true => exact .inl rfl
    | false => exact .inr ⟨hf, ht.located hf hcb⟩
  · obtain ⟨s, n, hs, harm, hexp⟩ := hleft.armed
    rw [hc]
    refine ⟨s, n, hs, ?_, hexp⟩
    rcases harm with hset | ⟨rfl, hset, hn | hpos⟩
    · exact .inl hset
    · exact .inr ⟨rfl, hset, hn⟩
    · -- an expiration that was read is the call that was asked for
      have hle := hle (Int.le_refl 0)
      have hreq : required 0 = 1 := rfl
      omega

end TimerThread

open TimerThread in
/-- **The count of callbacks.** In a run of calls that last, every read of
expirations since the last `timer_set` has started the callback, which is
started once for a `repeat` of 0 and `repeat` times for a larger one, and
until then, or until the timer is unset, is still to be called. No call
fails. -/
theorem callback_count {goal : Timespec × ℤ} (h : (timers.only Lasting).Reachable σ)
    (hg : σ.goal = some goal) (hcb : σ.t.cbfn ≠ none) :
    σ.calls = σ.consumed ∧ (0 ≤ goal.2 → (σ.calls : ℤ) ≤ required goal.2) ∧
    (0 ≤ goal.2 ∧ (σ.calls : ℤ) = required goal.2 ∨ σ.Awaits goal.1 goal.2) ∧
    ∀ act, (timers.only Lasting).enabled σ act → ∃ σ', act.exec σ = some σ' := by
  obtain ⟨ts, repeats⟩ := goal
  obtain ⟨hcount, ht⟩ := Counting.reachable h
  have hc := hcount.calls ts repeats hg hcb
  refine ⟨hc, fun hr => ?_, ?_, fun act he => ht.returns he.1 he.2⟩
  · rcases hcount.goal ts repeats hg with hserve | hfin
    · exact hc ▸ hserve.le hr
    · exact Int.le_of_eq (hc ▸ hfin.consumed)
  · rcases hcount.goal ts repeats hg with hserve | hfin
    · by_cases hlt : 0 ≤ repeats ∧ (σ.calls : ℤ) = required repeats
      · exact .inl hlt
      · exact .inr (hserve.awaits ht hc hlt)
    · exact .inl ⟨hfin.nonneg, hc ▸ hfin.consumed⟩

/-- A timer that is to call twice, in its first callback. -/
theorem callback_count_first : ∃ σ : TimerThread, σ.expired = 1 ∧ σ.calls = 1 ∧
    σ.Awaits ⟨1, 0⟩ 2 := by
  have h : (((timers.only TimerThread.Lasting).run (.start (.zero 0)) [
      .timerInit 0 (some 9) 0 ⟨.ok 3, ⟨some 0, none⟩⟩, .timerSet 0 ⟨1, 0⟩ 2 2, .sleep 0,
      .taskscheduler, .taskyield 1, .taskscheduler, .start 2, .read 2 .again, .taskscheduler,
      .epollWait 1, .expire 3, .event 1, .polled 1, .taskyield 1, .taskscheduler,
      .read 2 .again]).any fun σ => decide (σ.goal = some (⟨1, 0⟩, 2) ∧ σ.t.cbfn ≠ none ∧
        σ.expired = 1 ∧ σ.calls = 1)) = true := by
    decide +kernel
  obtain ⟨σ, hσ, hp⟩ := System.Steps.of_run_any h
  obtain ⟨hg, hcb, he, hc⟩ := of_decide_eq_true hp
  obtain ⟨-, -, hleft | hawait, -⟩ := callback_count (hσ.reachable (.init ⟨_, rfl⟩)) hg hcb
  · have hreq : (σ.calls : ℤ) = 2 := hleft.2
    omega
  · exact ⟨σ, he, hc, hawait⟩

/-- The callback of a timer sets it to call once more. The timer has expired
since, and has not been read, when the callback returns: nothing is left that
would call. -/
theorem callback_lost : ∃ σ : TimerThread, timers.Reachable σ ∧ σ.life = .ready ∧ σ.t.cbfn ≠ none ∧
    σ.goal = some (⟨1, 0⟩, 0) ∧ σ.expired = 1 ∧ σ.calls = 0 ∧ σ.t.timerSet = 0 ∧
    σ.timerfds σ.t.timerfd = some (.disarmed, 0) ∧ σ.NoFunc := by
  have h : ((timers.run (.start (.zero 0)) [
      .timerInit 0 (some 9) 0 ⟨.ok 3, ⟨some 0, none⟩⟩, .timerSet 0 ⟨1, 0⟩ 0 2, .sleep 0,
      .taskscheduler, .taskyield 1, .taskscheduler, .start 2, .read 2 .again, .taskscheduler,
      .epollWait 1, .expire 3, .event 1, .polled 1, .taskyield 1, .taskscheduler, .read 2 .again,
      .timerSet 2 ⟨1, 0⟩ 0 3, .expire 3, .ret 2]).any fun σ => decide (σ.life = .ready ∧
        σ.t.cbfn ≠ none ∧ σ.goal = some (⟨1, 0⟩, 0) ∧ σ.expired = 1 ∧ σ.calls = 0 ∧
        σ.t.timerSet = 0 ∧ σ.timerfds σ.t.timerfd = some (.disarmed, 0) ∧ σ.NoFunc)) = true := by
    decide +kernel
  obtain ⟨σ, hσ, hp⟩ := System.Steps.of_run_any h
  exact ⟨σ, hσ.reachable (.init ⟨_, rfl⟩), of_decide_eq_true hp⟩

end Libtask

end VmwareProto
