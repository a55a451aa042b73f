import VmwareProto.Libtask.TimerThread
import Mathlib.Data.List.Perm.Basic
/-!
# A timer in order

`Proper` says which calls keep a timer in order: `timer_init` finds memory
that does not look like a timer's, and enters its descriptor; `timer_set`
creates no second `_timer_func`; `timer_deinit` comes while the `_timer_func`
there is waits in `read`, where it is found; and nobody opens the number that
was closed before the task has seen it. `Tame` is what they keep: every task
is at one place, at most one is a `_timer_func`, and it has seen the
descriptor closed before the task in `timer_deinit` runs. Here is what keeps
it of the ways in which tasks move.
-/

namespace VmwareProto

namespace Libtask

/-- A task that is about to read `fd`. -/
def TimerPc.reads (fd : ℤ) : TimerPc → Bool
  | read fd' _ => fd' = fd
  | _ => false

/-- Not a point at which `timer.c` or `task_netrw` goes on. -/
def TimerPc.plain : TimerPc → Bool
  | start => false
  | read _ _ => false
  | deinit _ => false
  | _ => true

namespace TimerThread

/-- No task is a `_timer_func`. -/
def NoFunc (σ : TimerThread) : Prop := ∀ f ∈ σ.places, (σ.pc f).isFunc = false

instance (σ : TimerThread) : Decidable σ.NoFunc :=
  inferInstanceAs (Decidable (∀ f ∈ σ.places, (σ.pc f).isFunc = false))

/-- If `timerfd_create` answers, the registration does not fail. -/
def Registers (σ : TimerThread) (a : TimerAnswers) : Prop :=
  match a.timerfdCreate with
  | .ok fd => (σ.registry.openFd fd).Registers true fd a.register
  | .error _ => True

instance (σ : TimerThread) (a : TimerAnswers) : Decidable (σ.Registers a) :=
  match h : a.timerfdCreate with
  | .ok fd =>
      decidable_of_iff ((σ.registry.openFd fd).Registers true fd a.register) (by rw [Registers, h])
  | .error _ => isTrue (by rw [Registers, h]; trivial)

/-- A call that keeps a timer in order. -/
def Proper (σ : TimerThread) : TimerAction → Prop
  | .timerInit _ _ _ a => σ.t.init ≠ 1 ∧ σ.Registers a
  | .timerSet _ ts _ _ => ts.Valid → σ.t.timerSet = 0 → σ.NoFunc
  | .timerWait _ ts _ => ts.Valid → σ.t.timerSet = 0 → σ.NoFunc
  | .timerDeinit _ =>
      ∀ f ∈ σ.places, (σ.pc f).isFunc = true → σ.reader = some f ∧ 0 < σ.t.timerfd
  | .other _ fd _ i _ _ => i ≠ none → ∀ f ∈ σ.places, (σ.pc f).reads fd = false
  | _ => True

instance (σ : TimerThread) : (act : TimerAction) → Decidable (σ.Proper act)
  | .timerInit _ _ _ _ => inferInstanceAs (Decidable (_ ∧ _))
  | .timerSet _ _ _ _ | .timerWait _ _ _ => inferInstanceAs (Decidable (_ → _ → _))
  | .timerDeinit _ => inferInstanceAs (Decidable (∀ f ∈ σ.places, _ → _ ∧ _))
  | .other _ _ _ _ _ _ => inferInstanceAs (Decidable (_ → ∀ f ∈ σ.places, _))
  | .timerUnset _ | .resume _ | .start _ | .read _ _ | .ret _ | .taskyield _ | .sleep _ | .ready _ _
  | .taskcreate _ _ | .taskexit _ | .scribble _ | .taskscheduler | .expire _ | .epollWait _
  | .event _ | .polled _ => instDecidableTrue

/-! ## The invariant -/

/-- The tasks that run, the first of them now. -/
def queue (σ : TimerThread) : List TaskId := σ.running.toList ++ σ.runq

/-- The descriptor of the timer is registered, with task `r` recorded. -/
structure Entered (σ : TimerThread) (p : Ctx) (r : Option TaskId) : Prop where
  range : 0 ≤ σ.t.timerfd ∧ σ.t.timerfd < taskioMaxFdValue
  tcarray : σ.registry.tcarray σ.t.timerfd = some p
  heap : σ.registry.heap p = some (.socket .fifo σ.t.timerfd r none)
  fds : ∃ i, σ.registry.fds σ.t.timerfd = some (some i) ∧ i.ctx = p
  timer : (σ.timerfds σ.t.timerfd).isSome = true

/-- A timer that is initialised. -/
structure Ready (σ : TimerThread) : Prop where
  init : σ.t.init = 1
  closed : σ.t.closed = 0
  entered : ∃ p r, σ.Entered p r ∧ (∀ g, r = some g → σ.pc g = .read σ.t.timerfd p) ∧
    ∀ f fd q, σ.pc f = .read fd q → fd = σ.t.timerfd ∧ q = p

/-- A timer whose `timer_deinit` waits: the `_timer_func` runs before the
task `d` that has called it, and finds the descriptor closed. -/
structure Closing (σ : TimerThread) (d : TaskId) : Prop where
  closed : σ.t.closed = 1
  pc : σ.pc d = .deinit .task
  before : ∃ q q', σ.queue = q ++ d :: q' ∧ ∀ f, (σ.pc f).isFunc = true → f ∈ q
  reads : ∀ f, (σ.pc f).isFunc = true →
    (∃ p, σ.pc f = .read σ.t.timerfd p) ∧ σ.registry.fds σ.t.timerfd = none

/-- What a timer is like. -/
def Lives (σ : TimerThread) : Life → Prop
  | .raw => ∀ f, (σ.pc f).isFunc = false
  | .ready => σ.Ready
  | .deinit d => σ.Closing d

/-- **A timer in order.** -/
structure Tame (σ : TimerThread) : Prop where
  nodup : σ.places.Nodup
  funcs : ∀ f, (σ.pc f).isFunc = true → f ∈ σ.places
  one : ∀ f g, (σ.pc f).isFunc = true → (σ.pc g).isFunc = true → f = g
  asleep : ∀ f ∈ σ.asleep ++ σ.rendez, (σ.pc f).plain = true
  readied : σ.registry.readied = []
  deiniter : ∀ x c, σ.pc x = .deinit c → σ.life = .deinit x
  lives : σ.Lives σ.life

variable {σ σ' τ : TimerThread} {x f g d t malloc : TaskId} {p q : Ctx} {r : Option TaskId} {c : Code}
  {pc pc' : TimerPc} {fd : ℤ} {act : TimerAction} {ts : Timespec} {repeats : ℤ}

theorem code_of_isCode (h : (σ.pc x).isCode = true) : ∃ c, σ.pc x = .code c := by
  cases hc : σ.pc x with
  | code c => exact ⟨c, rfl⟩
  | _ =>
      rw [hc] at h
      cases h

/-! ## Places -/

theorem places_eq : σ.places = σ.queue ++ σ.asleep ++ σ.rendez ++ σ.reader.toList := rfl

theorem reader_of_ne (h : σ.life ≠ .ready) : σ.reader = none := if_neg h

theorem Entered.reader (h : σ.Entered p r) (hl : σ.life = .ready) : σ.reader = r := by
  simp [TimerThread.reader, hl, h.tcarray, h.heap]

theorem reader_congr (ht : σ'.t.timerfd = σ.t.timerfd) (hl : σ'.life = σ.life)
    (hr : σ'.registry = σ.registry) : σ'.reader = σ.reader := by
  simp [TimerThread.reader, ht, hl, hr]

theorem running_mem (hx : σ.running = some x) : x ∈ σ.places := by simp [places, hx]

namespace Tame

theorem ready (h : Tame σ) (hl : σ.life = .ready) : σ.Ready := by
  have := h.lives
  rwa [hl] at this

theorem closing (h : Tame σ) (hl : σ.life = .deinit d) : σ.Closing d := by
  have := h.lives
  rwa [hl] at this

theorem raw (h : Tame σ) (hl : σ.life = .raw) : ∀ f, (σ.pc f).isFunc = false := by
  have := h.lives
  rwa [hl] at this

/-- A task that is recorded does not run. -/
theorem reader_ne (h : Tame σ) (hx : σ.running = some x) (hr : σ.reader = some f) : f ≠ x := by
  rintro rfl
  have hnd := h.nodup
  rw [places, hx, hr] at hnd
  simp at hnd

/-- While a task is a `_timer_func`, the timer is initialised, or waits for
it. -/
theorem life_of_func (h : Tame σ) (hf : (σ.pc f).isFunc = true) :
    σ.life = .ready ∨ ∃ d, σ.life = .deinit d := by
  cases hl : σ.life with
  | ready => exact .inl rfl
  | raw =>
      rw [h.raw hl f] at hf
      cases hf
  | deinit d => exact .inr ⟨d, rfl⟩

/-- One that is in no `read`: the timer is initialised. -/
theorem ready_of_func (h : Tame σ) (hf : (σ.pc f).isFunc = true) (hr : ∀ fd p, σ.pc f ≠ .read fd p) :
    σ.life = .ready := by
  rcases h.life_of_func hf with hl | ⟨d, hl⟩
  · exact hl
  · obtain ⟨⟨p, hp⟩, -⟩ := (h.closing hl).reads f hf
    exact absurd hp (hr _ p)

end Tame

/-! ## Steps at large -/

/-- Nothing of the timer and its descriptor changes. -/
structure SameTimer (σ σ' : TimerThread) : Prop where
  timerfd : σ'.t.timerfd = σ.t.timerfd
  init : σ'.t.init = σ.t.init
  closed : σ'.t.closed = σ.t.closed
  life : σ'.life = σ.life
  registry : σ'.registry = σ.registry
  timerfds : (σ'.timerfds σ.t.timerfd).isSome = (σ.timerfds σ.t.timerfd).isSome

theorem SameTimer.entered (hs : SameTimer σ σ') (h : σ.Entered p r) : σ'.Entered p r := by
  refine ⟨?_, ?_, ?_, ?_, ?_⟩
  · exact hs.timerfd ▸ h.range
  · rw [hs.timerfd, hs.registry]
    exact h.tcarray
  · rw [hs.timerfd, hs.registry]
    exact h.heap
  · rw [hs.timerfd, hs.registry]
    exact h.fds
  · rw [hs.timerfd, hs.timerfds]
    exact h.timer

/-- Tasks stay where they are in the code, or go from a plain point to
another one. -/
def Recoded (pc pc' : TimerPc) : Prop :=
  pc' = pc ∨ pc.plain = true ∧ pc'.plain = true ∧ pc'.isFunc = pc.isFunc

theorem Recoded.isFunc (h : Recoded pc pc') : pc'.isFunc = pc.isFunc := by
  rcases h with rfl | ⟨-, -, h⟩
  · rfl
  · exact h

theorem Recoded.plain (h : Recoded pc pc') : pc'.plain = pc.plain := by
  rcases h with rfl | ⟨h, h', -⟩
  · rfl
  · rw [h, h']

/-- A point that is not plain is kept. -/
theorem Recoded.eq (h : Recoded pc pc') (hp : pc'.plain = false) : pc' = pc := by
  rcases h with rfl | ⟨-, h, -⟩
  · rfl
  · rw [h] at hp
    cases hp

theorem Recoded.eq' (h : Recoded pc pc') (hp : pc.plain = false) : pc' = pc :=
  h.eq (h.plain.trans hp)

theorem recoded_update (h : (σ.pc x).plain = true) (h' : pc.plain = true)
    (hf : pc.isFunc = (σ.pc x).isFunc) (y : TaskId) : Recoded (σ.pc y) (Function.update σ.pc x pc y) := by
  by_cases hy : y = x
  · subst hy
    rw [Function.update_self]
    exact .inr ⟨h, h', hf⟩
  · rw [Function.update_of_ne hy]
    exact .inl rfl

/-- Tasks are added to the queue, and the first one may go. -/
def Follows (σ σ' : TimerThread) : Prop :=
  ∃ l, σ'.queue = σ.queue ++ l ∨ ∃ x q, σ.queue = x :: q ∧ σ'.queue = q ++ l ∧ (σ.pc x).plain = true

theorem Closing.moves (h : σ.Closing d) (hs : SameTimer σ σ') (hpc : ∀ y, Recoded (σ.pc y) (σ'.pc y))
    (hq : Follows σ σ') : σ'.Closing d := by
  have hfunc : ∀ f, (σ'.pc f).isFunc = true → (σ.pc f).isFunc = true :=
    fun f hf => (hpc f).isFunc.symm.trans hf
  refine ⟨hs.closed.trans h.closed, ?_, ?_, fun f hf => ?_⟩
  · rw [(hpc d).eq' (by rw [h.pc]; rfl)]
    exact h.pc
  · obtain ⟨q, q', hqq, hf⟩ := h.before
    obtain ⟨l, hl | ⟨x, q₁, hx, hl, hplain⟩⟩ := hq
    · exact ⟨q, q' ++ l, by rw [hl, hqq]; simp, fun f hf' => hf f (hfunc f hf')⟩
    · cases q with
      | nil =>
          -- the task that waits in `timer_deinit` is first, and does not go
          rw [hqq, List.nil_append, List.cons.injEq] at hx
          rw [← hx.1, h.pc] at hplain
          cases hplain
      | cons y q =>
          rw [hqq, List.cons_append, List.cons.injEq] at hx
          obtain ⟨rfl, rfl⟩ := hx
          refine ⟨q, q' ++ l, by rw [hl]; simp, fun f hf' => ?_⟩
          rcases List.mem_cons.1 (hf f (hfunc f hf')) with rfl | hmem
          · obtain ⟨⟨p, hp⟩, -⟩ := h.reads f (hfunc f hf')
            rw [hp] at hplain
            cases hplain
          · exact hmem
  · obtain ⟨⟨p, hp⟩, hfds⟩ := h.reads f (hfunc f hf)
    refine ⟨⟨p, ?_⟩, by rw [hs.registry, hs.timerfd]; exact hfds⟩
    rw [(hpc f).eq' (by rw [hp]; rfl), hp, hs.timerfd]

namespace Tame

/-- **Tasks move**, and none of them in `timer.c`. -/
theorem moves (h : Tame σ) (hs : SameTimer σ σ') (hp : σ'.places.Perm σ.places)
    (hpc : ∀ y, Recoded (σ.pc y) (σ'.pc y)) (hq : Follows σ σ')
    (hsleep : ∀ f ∈ σ'.asleep ++ σ'.rendez, (σ'.pc f).plain = true) : Tame σ' := by
  have hfunc : ∀ f, (σ'.pc f).isFunc = true → (σ.pc f).isFunc = true :=
    fun f hf => (hpc f).isFunc.symm.trans hf
  refine ⟨hp.nodup_iff.2 h.nodup, fun f hf => hp.mem_iff.2 (h.funcs f (hfunc f hf)),
    fun f g hf hg => h.one f g (hfunc f hf) (hfunc g hg), hsleep, by rw [hs.registry, h.readied],
    fun x c hx => ?_, ?_⟩
  · rw [hs.life]
    exact h.deiniter x c (by rw [← (hpc x).eq (by rw [hx]; rfl), hx])
  · rw [hs.life]
    cases hl : σ.life with
    | raw => exact fun f => (hpc f).isFunc.trans (h.raw hl f)
    | ready =>
        obtain ⟨p, r, he, hr, hread⟩ := (h.ready hl).entered
        refine ⟨hs.init.trans (h.ready hl).init, hs.closed.trans (h.ready hl).closed, p, r,
          hs.entered he, fun g hg => ?_, fun f fd q hf => ?_⟩
        · rw [(hpc g).eq' (by rw [hr g hg]; rfl), hr g hg, hs.timerfd]
        · rw [hs.timerfd]
          exact hread f fd q (by rw [← (hpc f).eq (by rw [hf]; rfl), hf])
    | deinit d => exact (h.closing hl).moves hs hpc hq

/-- A task exits. -/
theorem exit (h : Tame σ) (hx : σ.running = some x) (hd : ∀ c, σ.pc x ≠ .deinit c) :
    Tame (σ.taskexit x) := by
  have hplaces : σ.places = x :: (σ.taskexit x).places := by
    have hr : (σ.taskexit x).reader = σ.reader := reader_congr rfl rfl rfl
    rw [places, places, hr, hx]
    rfl
  have hnd := h.nodup
  rw [hplaces, List.nodup_cons] at hnd
  have hpcx : (σ.taskexit x).pc x = .code .task := Function.update_self ..
  have hpc : ∀ f, f ≠ x → (σ.taskexit x).pc f = σ.pc f := fun f hf => Function.update_of_ne hf ..
  have hfunc : ∀ f, ((σ.taskexit x).pc f).isFunc = true → f ≠ x ∧ (σ.pc f).isFunc = true := by
    intro f hf
    by_cases hfx : f = x
    · rw [hfx, hpcx] at hf
      cases hf
    · rw [hpc f hfx] at hf
      exact ⟨hfx, hf⟩
  refine ⟨hnd.2, fun f hf => ?_, fun f g hf hg => h.one f g (hfunc f hf).2 (hfunc g hg).2,
    fun f hf => ?_, h.readied, fun y c hy => ?_, ?_⟩
  · have hmem := h.funcs f (hfunc f hf).2
    rw [hplaces] at hmem
    exact (List.mem_cons.1 hmem).resolve_left (hfunc f hf).1
  · have hne : f ≠ x := by
      rintro rfl
      refine hnd.1 ?_
      have hf : f ∈ σ.asleep ++ σ.rendez := hf
      rw [List.mem_append] at hf
      simp only [places, List.mem_append]
      tauto
    rw [hpc f hne]
    exact h.asleep f hf
  · have hne : y ≠ x := by
      rintro rfl
      rw [hpcx] at hy
      cases hy
    exact h.deiniter y c (by rw [← hpc y hne, hy])
  · change (σ.taskexit x).Lives σ.life
    cases hl : σ.life with
    | raw =>
        intro f
        by_cases hf : f = x
        · rw [hf, hpcx]
          rfl
        · rw [hpc f hf]
          exact h.raw hl f
    | ready =>
        obtain ⟨p, r, he, hr, hread⟩ := (h.ready hl).entered
        refine ⟨(h.ready hl).init, (h.ready hl).closed, p, r,
          ⟨he.range, he.tcarray, he.heap, he.fds, he.timer⟩, fun g hg => ?_, fun f fd q hf => ?_⟩
        · rw [hpc g (h.reader_ne hx (hg ▸ he.reader hl))]
          exact hr g hg
        · have hne : f ≠ x := by
            rintro rfl
            rw [hpcx] at hf
            cases hf
          exact hread f fd q (by rw [← hpc f hne, hf])
    | deinit d =>
        have hc := h.closing hl
        have hdx : d ≠ x := by
          rintro rfl
          exact hd _ hc.pc
        refine ⟨hc.closed, by rw [hpc d hdx, hc.pc], ?_, fun f hf => ?_⟩
        · obtain ⟨q, q', hqq, hf⟩ := hc.before
          cases q with
          | nil =>
              rw [queue, hx, List.nil_append] at hqq
              exact absurd (List.cons.inj hqq).1.symm hdx
          | cons y q =>
              rw [queue, hx] at hqq
              refine ⟨q, q', (List.cons.inj hqq).2, fun f hf' => ?_⟩
              refine (List.mem_cons.1 (hf f (hfunc f hf').2)).resolve_left fun hfy => ?_
              exact (hfunc f hf').1 (hfy.trans (List.cons.inj hqq).1.symm)
        · rw [hpc f (hfunc f hf).1]
          exact hc.reads f (hfunc f hf).2

/-- A task is created: one of the program, or the only `_timer_func`. -/
theorem create (h : Tame σ) (hm : malloc ∉ σ.places)
    (hpc : pc = .code .task ∨ pc = .start ∧ σ.life = .ready ∧ σ.NoFunc) :
    Tame (σ.taskcreate malloc pc) := by
  have hplaces : (σ.taskcreate malloc pc).places.Perm (malloc :: σ.places) := by
    have hr : (σ.taskcreate malloc pc).reader = σ.reader := reader_congr rfl rfl rfl
    rw [places, places, hr]
    refine List.perm_iff_count.2 fun a => ?_
    simp [taskcreate, goto, List.count_append, List.count_cons]
    omega
  have hself : (σ.taskcreate malloc pc).pc malloc = pc := Function.update_self ..
  have hother : ∀ f, f ≠ malloc → (σ.taskcreate malloc pc).pc f = σ.pc f :=
    fun f hf => Function.update_of_ne hf ..
  have hcases : ∀ f, ((σ.taskcreate malloc pc).pc f).isFunc = true →
      f = malloc ∧ σ.life = .ready ∧ σ.NoFunc ∨ f ≠ malloc ∧ (σ.pc f).isFunc = true := by
    intro f hf
    by_cases hfm : f = malloc
    · rcases hpc with rfl | ⟨-, hl, hno⟩
      · rw [hfm, hself] at hf
        cases hf
      · exact .inl ⟨hfm, hl, hno⟩
    · exact .inr ⟨hfm, hother f hfm ▸ hf⟩
  have hno : σ.NoFunc → ∀ f, (σ.pc f).isFunc = false := by
    intro hno f
    by_contra hf
    rw [Bool.not_eq_false] at hf
    have := hno f (h.funcs f hf)
    rw [hf] at this
    cases this
  have hne : ∀ f ∈ σ.places, f ≠ malloc := fun f hf e => hm (e ▸ hf)
  refine ⟨hplaces.nodup_iff.2 (List.nodup_cons.2 ⟨hm, h.nodup⟩), fun f hf => ?_, fun f g hf hg => ?_,
    fun f hf => ?_, h.readied, fun y c hy => ?_, ?_⟩
  · rcases hcases f hf with ⟨rfl, -⟩ | ⟨-, hf⟩
    · exact hplaces.mem_iff.2 List.mem_cons_self
    · exact hplaces.mem_iff.2 (List.mem_cons_of_mem _ (h.funcs f hf))
  · rcases hcases f hf with ⟨hfm, -, hn⟩ | ⟨-, hf⟩ <;> rcases hcases g hg with ⟨hgm, -, hn'⟩ | ⟨-, hg⟩
    · exact hfm.trans hgm.symm
    · rw [hno hn g] at hg
      cases hg
    · rw [hno hn' f] at hf
      cases hf
    · exact h.one f g hf hg
  · have hmem : f ∈ σ.places := by
      have hf : f ∈ σ.asleep ++ σ.rendez := hf
      rw [List.mem_append] at hf
      simp only [places, List.mem_append]
      tauto
    rw [hother f (hne f hmem)]
    exact h.asleep f hf
  · have hym : y ≠ malloc := by
      rintro rfl
      rw [hself] at hy
      rcases hpc with rfl | ⟨rfl, -⟩ <;> cases hy
    exact h.deiniter y c (by rw [← hother y hym, hy])
  · change (σ.taskcreate malloc pc).Lives σ.life
    cases hl : σ.life with
    | raw =>
        intro f
        by_contra hf
        rw [Bool.not_eq_false] at hf
        rcases hcases f hf with ⟨-, hl', -⟩ | ⟨-, hf⟩
        · rw [hl] at hl'
          cases hl'
        · rw [h.raw hl f] at hf
          cases hf
    | ready =>
        obtain ⟨p, r, he, hr, hread⟩ := (h.ready hl).entered
        refine ⟨(h.ready hl).init, (h.ready hl).closed, p, r,
          ⟨he.range, he.tcarray, he.heap, he.fds, he.timer⟩, fun g hg => ?_, fun f fd q hf => ?_⟩
        · rw [hother g (hne g (h.funcs g (by rw [hr g hg]; rfl)))]
          exact hr g hg
        · have hfm : f ≠ malloc := by
            rintro rfl
            rw [hself] at hf
            rcases hpc with rfl | ⟨rfl, -⟩ <;> cases hf
          exact hread f fd q (by rw [← hother f hfm, hf])
    | deinit d =>
        have hc := h.closing hl
        have hfunc : ∀ f, ((σ.taskcreate malloc pc).pc f).isFunc = true →
            f ≠ malloc ∧ (σ.pc f).isFunc = true := by
          intro f hf
          rcases hcases f hf with ⟨-, hl', -⟩ | hf
          · rw [hl] at hl'
            cases hl'
          · exact hf
        obtain ⟨q, q', hqq, hbefore⟩ := hc.before
        have hdm : d ≠ malloc := hne d (by rw [places_eq, hqq]; simp)
        refine ⟨hc.closed, by rw [hother d hdm, hc.pc], ⟨q, q' ++ [malloc], ?_, fun f hf => ?_⟩,
          fun f hf => ?_⟩
        · rw [queue] at hqq
          simp only [queue, taskcreate, goto]
          rw [← List.append_assoc, hqq]
          simp
        · exact hbefore f (hfunc f hf).2
        · rw [hother f (hfunc f hf).1]
          exact hc.reads f (hfunc f hf).2

/-- The `_timer_func` that runs comes to another point. -/
theorem goto (h : Tame σ) (hx : σ.running = some x) (hl : σ.life = .ready)
    (hf : (σ.pc x).isFunc = true) (hd : ∀ c, pc ≠ .deinit c)
    (hr : ∀ fd q, pc = .read fd q → fd = σ.t.timerfd ∧ σ.registry.tcarray σ.t.timerfd = some q) :
    Tame (σ.goto x pc) := by
  have hself : (σ.goto x pc).pc x = pc := Function.update_self ..
  have hother : ∀ f, f ≠ x → (σ.goto x pc).pc f = σ.pc f := fun f hf => Function.update_of_ne hf ..
  have hfunc : ∀ f, ((σ.goto x pc).pc f).isFunc = true → (σ.pc f).isFunc = true := by
    intro f hf'
    by_cases hfx : f = x
    · rw [hfx]
      exact hf
    · rwa [hother f hfx] at hf'
  have hplaces : (σ.goto x pc).places = σ.places := by
    have hr : (σ.goto x pc).reader = σ.reader := reader_congr rfl rfl rfl
    rw [places, places, hr]
    rfl
  have hnd := h.nodup
  refine ⟨hplaces ▸ hnd, fun f hf => hplaces ▸ h.funcs f (hfunc f hf),
    fun f g hf hg => h.one f g (hfunc f hf) (hfunc g hg), fun f hf' => ?_, h.readied,
    fun y c hy => ?_, ?_⟩
  · have hne : f ≠ x := by
      rintro rfl
      have hf' : f ∈ σ.asleep ++ σ.rendez := hf'
      rw [places, hx] at hnd
      simp only [Option.toList_some, List.cons_append, List.nodup_cons, List.mem_append] at hnd hf'
      tauto
    rw [hother f hne]
    exact h.asleep f hf'
  · have hne : y ≠ x := by
      rintro rfl
      rw [hself] at hy
      exact hd c hy
    exact h.deiniter y c (by rw [← hother y hne, hy])
  · change (σ.goto x pc).Lives σ.life
    rw [hl]
    obtain ⟨p, r, he, hrr, hread⟩ := (h.ready hl).entered
    refine ⟨(h.ready hl).init, (h.ready hl).closed, p, r,
      ⟨he.range, he.tcarray, he.heap, he.fds, he.timer⟩, fun g hg => ?_, fun f fd q hq => ?_⟩
    · rw [hother g (h.reader_ne hx (hg ▸ he.reader hl))]
      exact hrr g hg
    · by_cases hfx : f = x
      · rw [hfx, hself] at hq
        obtain ⟨hfd, htc⟩ := hr fd q hq
        exact ⟨hfd, Option.some.inj (htc.symm.trans he.tcarray)⟩
      · exact hread f fd q (by rw [← hother f hfx, hq])

/-- **The timer is set, runs or counts**, and no task moves. -/
theorem retime (h : Tame σ) (hs : SameTimer σ σ') (hpc : σ'.pc = σ.pc)
    (hrun : σ'.running = σ.running) (hq : σ'.runq = σ.runq) (ha : σ'.asleep = σ.asleep)
    (hr : σ'.rendez = σ.rendez) : Tame σ' := by
  have hqueue : σ'.queue = σ.queue := by rw [queue, queue, hrun, hq]
  have hplaces : σ'.places = σ.places := by
    rw [places_eq, places_eq, hqueue, ha, hr, reader_congr hs.timerfd hs.life hs.registry]
  refine h.moves hs (hplaces ▸ List.Perm.refl _) (fun y => .inl (by rw [hpc]))
    ⟨[], .inl (by rw [hqueue, List.append_nil])⟩ ?_
  rw [ha, hr, hpc]
  exact h.asleep

/-- The `_timer_func` that runs is recorded and waits. -/
theorem suspend (h : Tame σ) (hx : σ.running = some x) (hl : σ.life = .ready)
    (hpc : σ.pc x = .read σ.t.timerfd p) (he : σ.Entered p none) :
    Tame { σ with
      registry := σ.registry.calloc p (.socket .fifo σ.t.timerfd (some x) none), running := none } := by
  generalize hσ' : ({ σ with
      registry := σ.registry.calloc p (.socket .fifo σ.t.timerfd (some x) none)
      running := none } : TimerThread) = σ'
  have he' : σ'.Entered p (some x) := by
    subst hσ'
    exact ⟨he.range, he.tcarray, Function.update_self .., he.fds, he.timer⟩
  have hl' : σ'.life = .ready := by
    subst hσ'
    exact hl
  have hpc' : σ'.pc = σ.pc := by
    subst hσ'
    rfl
  have hplaces : σ'.places.Perm σ.places := by
    rw [places, places, he'.reader hl', he.reader hl, hx]
    subst hσ'
    refine List.perm_iff_count.2 fun a => ?_
    simp [List.count_append, List.count_cons]
    omega
  refine ⟨hplaces.nodup_iff.2 h.nodup, fun f hf => ?_, fun f g hf hg => ?_, fun f hf => ?_, ?_,
    fun y c hy => ?_, ?_⟩
  · exact hplaces.mem_iff.2 (h.funcs f (hpc' ▸ hf))
  · exact h.one f g (hpc' ▸ hf) (hpc' ▸ hg)
  · rw [hpc']
    subst hσ'
    exact h.asleep f hf
  · subst hσ'
    exact h.readied
  · rw [hpc'] at hy
    have := h.deiniter y c hy
    rw [hl] at this
    cases this
  · rw [hl']
    subst hσ'
    obtain ⟨q, r, hq, -, hread⟩ := (h.ready hl).entered
    obtain rfl : q = p := Option.some.inj (hq.tcarray.symm.trans he.tcarray)
    refine ⟨(h.ready hl).init, (h.ready hl).closed, q, some x, he', fun g hg => ?_, hread⟩
    cases hg
    exact hpc

/-- `taskwakeupall` -/
theorem taskwakeupall (h : Tame σ) : Tame σ.taskwakeupall := by
  have hr : σ.taskwakeupall.reader = σ.reader := reader_congr rfl rfl rfl
  refine h.moves ⟨rfl, rfl, rfl, rfl, rfl, rfl⟩ ?_ (fun _ => .inl rfl)
    ⟨σ.rendez, .inl (by simp [queue, TimerThread.taskwakeupall])⟩ fun f hf => ?_
  · rw [places, places, hr]
    refine List.perm_iff_count.2 fun a => ?_
    simp [TimerThread.taskwakeupall, List.count_append]
    omega
  · refine h.asleep f (List.mem_append_left _ ?_)
    simpa [TimerThread.taskwakeupall] using hf

end Tame

end TimerThread

end Libtask

end VmwareProto
