import VmwareProto.Vmk.Accounts
import VmwareProto.Vmk.ThreadPool
import VmwareProto.Library.Ledger
import Mathlib.Order.Interval.Finset.Nat
/-!
# Every work item runs once

A work buffer in use is on the work list or with one world (`Places`), so
its link words are in one list at most. What was scheduled is what was taken
and what is on the list, in this order; what was taken was called, or is
with a worker that is about to call it (`Logged`). Sleeping and leaving are
decided with the lock held, at an empty list (`Shutdown`).
-/

namespace VmwareProto

namespace Vmk

variable {n nwork : ℕ} {σ σ' : Works} {p p' : Pool} {lists lists' : Head → List Addr}
  {held : List Addr} {holds : Holder → Option Addr} {y : Holder} {a : Addr} {x : World} {i : ℕ}
  {act : WorkAction} {malloc : Option Addr}

/-! ## Where the buffers are -/

/-- **A work buffer in use is on the work list or with one world.** -/
structure Places (p : Pool) (holds : Holder → Option Addr) (lists : Head → List Addr)
    (held : List Addr) : Prop where
  owns : Owns p lists held
  mine : ∀ y a, holds y = some a → a ∈ held ∧ a ∉ lists .work
  alone : ∀ y z a, holds y = some a → holds z = some a → y = z
  cover : ∀ a ∈ held, a ∈ lists .work ∨ ∃ y, holds y = some a

/-- A buffer in someone's hands after a world was given one. -/
theorem of_given {z : Holder} {b : Addr} (hz : Function.update holds y (some a) z = some b) :
    z = y ∧ b = a ∨ z ≠ y ∧ holds z = some b := by
  rw [Function.update_apply] at hz
  split at hz
  · rename_i e
    exact .inl ⟨e, (Option.some.inj hz).symm⟩
  · rename_i e
    exact .inr ⟨e, hz⟩

/-- What others have stays theirs. -/
theorem still_held {z : Holder} {b : Addr} {w : Option Addr} (hy : holds y ≠ some b)
    (hz : holds z = some b) : Function.update holds y w z = some b := by
  rw [Function.update_of_ne, hz]
  rintro rfl
  exact hy hz

namespace Places

/-- A world has one more buffer. -/
theorem obtained (h : Places p holds lists held) (hy : holds y = none) (ha : a ∉ held)
    (ho : Owns p' lists' (a :: held)) (hw : lists' .work = lists .work) :
    Places p' (Function.update holds y (some a)) lists' (a :: held) := by
  refine ⟨ho, fun z b hz => ?_, fun z z' b hz hz' => ?_, fun b hb => ?_⟩
  · rw [hw]
    rcases of_given hz with ⟨-, rfl⟩ | ⟨-, hz⟩
    · exact ⟨List.mem_cons_self, fun hm => ha (h.owns.work b hm)⟩
    · exact ⟨List.mem_cons_of_mem _ (h.mine z b hz).1, (h.mine z b hz).2⟩
  · rcases of_given hz with ⟨hzy, hb⟩ | ⟨-, hh⟩ <;> rcases of_given hz' with ⟨hzy', hb'⟩ | ⟨-, hh'⟩
    · exact hzy.trans hzy'.symm
    · exact absurd (hb ▸ (h.mine z' b hh').1) ha
    · exact absurd (hb' ▸ (h.mine z b hh).1) ha
    · exact h.alone z z' b hh hh'
  · rw [hw]
    rcases List.mem_cons.1 hb with rfl | hb
    · exact .inr ⟨y, Function.update_self ..⟩
    · exact (h.cover b hb).imp_right fun ⟨z, hz⟩ => ⟨z, still_held (by simp [hy]) hz⟩

/-- A world without its buffer. -/
theorem without (h : Places p holds lists held) (hy : holds y = some a) {z : Holder} {b : Addr}
    (hz : Function.update holds y none z = some b) : z ≠ y ∧ b ≠ a ∧ holds z = some b := by
  have hne : z ≠ y := fun e => by
    rw [e, Function.update_self] at hz
    cases hz
  rw [Function.update_of_ne hne] at hz
  exact ⟨hne, fun e => hne (h.alone z y a (e ▸ hz) hy), hz⟩

/-- A world links its buffer to the work list. -/
theorem linked (h : Places p holds lists held) (hy : holds y = some a)
    (ho : Owns p' lists' held) (hw : lists' .work = lists .work ++ [a]) :
    Places p' (Function.update holds y none) lists' held := by
  refine ⟨ho, fun z b hz => ?_, fun z z' b hz hz' => ?_, fun b hb => ?_⟩
  · obtain ⟨-, hba, hz⟩ := h.without hy hz
    rw [hw, List.mem_append, List.mem_singleton, not_or]
    exact ⟨(h.mine z b hz).1, (h.mine z b hz).2, hba⟩
  · exact h.alone z z' b (h.without hy hz).2.2 (h.without hy hz').2.2
  · rw [hw, List.mem_append, List.mem_singleton]
    by_cases hba : b = a
    · exact .inl (.inr hba)
    · exact (h.cover b hb).imp .inl fun ⟨z, hz⟩ => ⟨z, still_held (by simpa [hy] using Ne.symm hba) hz⟩

/-- A world takes the first of the work list. -/
theorem unlinked (h : Places p holds lists held) (hy : holds y = none) {ws : List Addr}
    (hw : lists .work = a :: ws) (ho : Owns p' lists' held) (hw' : lists' .work = ws) :
    Places p' (Function.update holds y (some a)) lists' held := by
  have hnd := h.owns.rings.nodup .work
  rw [hw, List.nodup_cons] at hnd
  have ha : a ∈ held := h.owns.work a (by simp [hw])
  have hnot : ∀ z, holds z ≠ some a := fun z hz => (h.mine z a hz).2 (by simp [hw])
  refine ⟨ho, fun z b hz => ?_, fun z z' b hz hz' => ?_, fun b hb => ?_⟩
  · rw [hw']
    rcases of_given hz with ⟨-, rfl⟩ | ⟨-, hz⟩
    · exact ⟨ha, hnd.1⟩
    · have := h.mine z b hz
      rw [hw, List.mem_cons, not_or] at this
      exact ⟨this.1, this.2.2⟩
  · rcases of_given hz with ⟨hzy, hb⟩ | ⟨-, hh⟩ <;> rcases of_given hz' with ⟨hzy', hb'⟩ | ⟨-, hh'⟩
    · exact hzy.trans hzy'.symm
    · exact absurd (hb ▸ hh') (hnot z')
    · exact absurd (hb' ▸ hh) (hnot z)
    · exact h.alone z z' b hh hh'
  · rw [hw']
    rcases h.cover b hb with hb | ⟨z, hz⟩
    · rw [hw, List.mem_cons] at hb
      rcases hb with rfl | hb
      · exact .inr ⟨y, Function.update_self ..⟩
      · exact .inl hb
    · exact .inr ⟨z, still_held (by simp [hy]) hz⟩

/-- A world gives its buffer back. -/
theorem returned (h : Places p holds lists held) (hy : holds y = some a)
    (ho : Owns p' lists' (held.erase a)) (hw : lists' .work = lists .work) :
    Places p' (Function.update holds y none) lists' (held.erase a) := by
  refine ⟨ho, fun z b hz => ?_, fun z z' b hz hz' => ?_, fun b hb => ?_⟩
  · obtain ⟨-, hba, hz⟩ := h.without hy hz
    rw [hw]
    exact ⟨(List.mem_erase_of_ne hba).2 (h.mine z b hz).1, (h.mine z b hz).2⟩
  · exact h.alone z z' b (h.without hy hz).2.2 (h.without hy hz').2.2
  · obtain ⟨hba, hb⟩ := h.owns.nodup.mem_erase_iff.1 hb
    rw [hw]
    exact (h.cover b hb).imp_right fun ⟨z, hz⟩ => ⟨z, still_held (by simpa [hy] using Ne.symm hba) hz⟩

end Places

/-! ## The invariant -/

/-- Workers that have not left. -/
def present (n : ℕ) (worker : ℕ → WorkerPc) : Finset ℕ :=
  {i ∈ Finset.range n | worker i ≠ .exited}

/-- **The logs**: the list is what was scheduled and not taken; what was
taken and not called is with a worker. -/
structure Logged (σ : Works) (ws : List Addr) : Prop where
  pend : σ.tp.workPend = ws.length
  fifo : σ.scheduled = σ.taken ++ ws.map σ.tp.job
  ledger : Ledger (fun a => ∃ i, σ.worker i = .taken a) σ.tp.job σ.taken σ.called

/-- **Sleeping and leaving.** -/
structure Shutdown (n : ℕ) (σ : Works) (ws : List Addr) : Prop where
  /-- a worker sleeps at a list with work only if a wakeup is to come -/
  sleep : ∀ i, σ.worker i = .asleep → ws ≠ [] → ∃ x, σ.user x = .waking
  stirred : ∀ i, σ.worker i = .asleep → σ.deinit = .before ∨ σ.deinit = .waking
  state : σ.tp.state = .initialized ↔ σ.deinit = .before
  quiet : σ.deinit ≠ .before → ∀ x, σ.user x = .idle ∨ σ.user x = .waking
  exited : ∀ i, σ.worker i = .exited → ws = [] ∧ σ.deinit ≠ .before
  active : σ.tp.active = (present n σ.worker).card
  few : ∀ i, n ≤ i → σ.worker i = .top
  joined : σ.deinit = .passed → ∀ i < n, σ.worker i = .exited

/-- **What holds of a thread pool in every run.** -/
structure Working (n : ℕ) (σ : Works) (lists : Head → List Addr) (held : List Addr) : Prop where
  places : Places σ.tp.pool σ.holds lists held
  logged : Logged σ (lists .work)
  shutdown : Shutdown n σ (lists .work)

/-! ## Changes of one world -/

theorem holds_user {pc : UserPc} (hu : σ'.user = Function.update σ.user x pc)
    (hw : ∀ i, (σ'.worker i).buf = (σ.worker i).buf) :
    σ'.holds = Function.update σ.holds (.user x) pc.buf := by
  funext z
  cases z with
  | user z =>
      by_cases hz : z = x
      · subst hz
        simp [Works.holds, hu]
      · simp [Works.holds, hu, hz]
  | worker i => simp [Works.holds, hw]

theorem holds_worker {pc : WorkerPc} (hu : σ'.user = σ.user)
    (hw : σ'.worker = Function.update σ.worker i pc) :
    σ'.holds = Function.update σ.holds (.worker i) pc.buf := by
  funext z
  cases z with
  | user z => simp [Works.holds, hu]
  | worker j =>
      by_cases hj : j = i
      · subst hj
        simp [Works.holds, hw]
      · simp [Works.holds, hw, hj]

theorem Places.of_user {pc : UserPc} (hu : σ'.user = Function.update σ.user x pc)
    (hw : ∀ i, (σ'.worker i).buf = (σ.worker i).buf)
    (h : Places p (Function.update σ.holds (.user x) pc.buf) lists held) :
    Places p σ'.holds lists held := by
  rw [holds_user hu hw]
  exact h

theorem Places.of_worker {pc : WorkerPc} (hw : σ'.worker = Function.update σ.worker i pc)
    (hu : σ'.user = σ.user)
    (h : Places p (Function.update σ.holds (.worker i) pc.buf) lists held) :
    Places p σ'.holds lists held := by
  rw [holds_worker hu hw]
  exact h

/-- A world whose hands are as they were. -/
theorem Places.same {w : Option Addr} (h : Places p holds lists held) (hy : holds y = w) :
    Places p (Function.update holds y w) lists held := by
  rw [← hy, Function.update_eq_self]
  exact h

theorem wakeAll_buf (σ : Works) (i : ℕ) : (σ.wakeAll.worker i).buf = (σ.worker i).buf := by
  simp only [Works.wakeAll]
  split
  · rename_i h
    rw [h]
    rfl
  · rfl

theorem wakeAll_taken (σ : Works) (i : ℕ) (a : Addr) :
    σ.wakeAll.worker i = .taken a ↔ σ.worker i = .taken a := by
  simp only [Works.wakeAll]
  split
  · rename_i h
    simp [h]
  · rfl

theorem wakeAll_exited (σ : Works) (i : ℕ) : σ.wakeAll.worker i = .exited ↔ σ.worker i = .exited := by
  simp only [Works.wakeAll]
  split
  · rename_i h
    simp [h]
  · rfl

theorem wakeAll_asleep (σ : Works) (i : ℕ) : σ.wakeAll.worker i ≠ .asleep := by
  simp only [Works.wakeAll]
  split
  · simp
  · assumption

theorem present_congr {worker worker' : ℕ → WorkerPc}
    (h : ∀ i, worker' i = .exited ↔ worker i = .exited) : present n worker' = present n worker := by
  ext j
  simp only [present, Finset.mem_filter, ne_eq, h]

theorem exited_update {worker : ℕ → WorkerPc} {pc : WorkerPc} (hpc : pc ≠ .exited)
    (hi : worker i ≠ .exited) (j : ℕ) :
    Function.update worker i pc j = .exited ↔ worker j = .exited := by
  by_cases hj : j = i
  · subst hj
    simp [hpc, hi]
  · simp [hj]

/-- A worker leaves. -/
theorem present_exit {worker : ℕ → WorkerPc} :
    present n (Function.update worker i .exited) = (present n worker).erase i := by
  ext j
  by_cases hj : j = i
  · subst hj
    simp [present]
  · simp [present, hj]

namespace Shutdown

variable {ws : List Addr}

/-- A user moves on, with no wakeup of its left to come and none given up. -/
theorem user (h : Shutdown n σ ws) {pc : UserPc} (hpc : σ.user x ≠ .waking)
    (hb : σ.deinit = .before) (ht : σ'.tp.state = σ.tp.state) (hac : σ'.tp.active = σ.tp.active)
    (hu : σ'.user = Function.update σ.user x pc) (hw : σ'.worker = σ.worker)
    (hd : σ'.deinit = σ.deinit) : Shutdown n σ' ws := by
  have hstate := h.state
  refine ⟨fun i hi hne => ?_, fun i hi => ?_, by rw [ht, hd]; exact hstate,
    fun hne => absurd (hd.trans hb) hne, fun i hi => ?_, by rw [hac, hw]; exact h.active,
    fun i hi => by rw [hw]; exact h.few i hi, fun e => ?_⟩
  · rw [hw] at hi
    obtain ⟨z, hz⟩ := h.sleep i hi hne
    refine ⟨z, ?_⟩
    rw [hu, Function.update_of_ne, hz]
    rintro rfl
    exact hpc hz
  · rw [hw] at hi
    rw [hd]
    exact h.stirred i hi
  · rw [hw] at hi
    rw [hd]
    exact h.exited i hi
  · rw [hd, hb] at e
    cases e

/-- A worker moves on and neither sleeps nor leaves. -/
theorem worker (h : Shutdown n σ ws) {pc : WorkerPc} {ws' : List Addr} (hi : i < n)
    (hpc : pc ≠ .asleep) (hpx : pc ≠ .exited) (hx : σ.worker i ≠ .exited)
    (hws : ws = [] → ws' = []) (ht : σ'.tp.state = σ.tp.state) (hac : σ'.tp.active = σ.tp.active)
    (hu : σ'.user = σ.user) (hw : σ'.worker = Function.update σ.worker i pc)
    (hd : σ'.deinit = σ.deinit) : Shutdown n σ' ws' := by
  have hsame : ∀ j, σ'.worker j = .exited ↔ σ.worker j = .exited := fun j => by
    rw [hw]
    exact exited_update hpx hx j
  have hasleep : ∀ j, σ'.worker j = .asleep → σ.worker j = .asleep := fun j hj => by
    by_cases hji : j = i
    · subst hji
      rw [hw, Function.update_self] at hj
      exact absurd hj hpc
    · rwa [hw, Function.update_of_ne hji] at hj
  have hstate := h.state
  refine ⟨fun j hj hne => ?_, fun j hj => ?_, by rw [ht, hd]; exact hstate, fun hne => ?_,
    fun j hj => ?_, ?_, fun j hj => ?_, fun e j hj => ?_⟩
  · rw [hu]
    exact h.sleep j (hasleep j hj) fun e => hne (hws e)
  · rw [hd]
    exact h.stirred j (hasleep j hj)
  · rw [hu]
    exact h.quiet (hd ▸ hne)
  · rw [hd]
    obtain ⟨hnil, hne⟩ := h.exited j ((hsame j).1 hj)
    exact ⟨hws hnil, hne⟩
  · rw [hac, present_congr hsame]
    exact h.active
  · rw [hw, Function.update_of_ne (by omega)]
    exact h.few j hj
  · exact (hsame j).2 (h.joined (hd ▸ e) j hj)

end Shutdown

/-! ## One step of every world -/

namespace Working

theorem getLoop (h : Working n σ lists held) (hm : ∀ a ∈ malloc, σ.tp.pool.live a = false)
    (hx : (σ.user x).buf = none) (hnw : σ.user x ≠ .waking) (hb : σ.deinit = .before) :
    ∃ e σ', σ.tp.pool.getLoop false false malloc = some e ∧ σ.settle x e = some σ' ∧
      ∃ lists' held', Working n σ' lists' held' := by
  -- with a buffer, whose words are then initialised
  have hgot : ∀ p' a lists', σ.tp.pool.getLoop false false malloc = some (p', .got a) →
      Owns p' lists' (a :: held) → a ∉ held → lists' .work = lists .work →
      ∃ e σ', σ.tp.pool.getLoop false false malloc = some e ∧ σ.settle x e = some σ' ∧
        ∃ lists' held', Working n σ' lists' held' := by
    intro p' a lists' hloop hown ha hw
    have hnot : ∀ g, a ∉ lists' g := hown.unlisted List.mem_cons_self fun hm => by
      rw [hw] at hm
      exact ha (h.places.owns.work a hm)
    have hown' := hown.relink (hown.rings.init hnot) rfl hown.work
    refine ⟨_, _, hloop, rfl, lists', a :: held, ?_, ?_, ?_⟩
    · exact .of_user rfl (fun _ => rfl) (h.places.obtained hx ha hown' hw)
    · rw [hw]
      exact ⟨h.logged.pend, h.logged.fifo, h.logged.ledger⟩
    · rw [hw]
      exact h.shutdown.user hnw hb rfl rfl rfl rfl rfl
  rcases h.places.owns.getLoop false false malloc with
    ⟨xs, a, hxs, hloop⟩ | ⟨a, hnil, -, rfl, hloop⟩ | ⟨-, -, hloop⟩
  · exact hgot _ a _ hloop (h.places.owns.pop hxs) (h.places.owns.apart a (by simp [hxs]))
      (Function.update_of_ne (by simp) ..)
  · exact hgot _ a _ hloop (h.places.owns.grow hnil (hm a rfl)) (h.places.owns.fresh (hm a rfl)).1 rfl
  · refine ⟨_, _, hloop, rfl, lists, held, ?_, ⟨h.logged.pend, h.logged.fifo, h.logged.ledger⟩,
      h.shutdown.user hnw hb rfl rfl rfl rfl rfl⟩
    exact .of_user rfl (fun _ => rfl) (h.places.same hx)

theorem newWork (h : Working n σ lists held) (he : (WorkAction.newWork x malloc).Enabled σ n) :
    ∃ σ', (WorkAction.newWork x malloc).exec σ = some σ' ∧
      ∃ lists' held', Working n σ' lists' held' := by
  obtain ⟨hx, hb, hm⟩ := he
  have hstate := h.shutdown.state.2 hb
  obtain ⟨e, σ', hloop, hset, hσ'⟩ := h.getLoop hm (by rw [hx]; rfl) (by simp [hx]) hb
  refine ⟨σ', ?_, hσ'⟩
  simp [WorkAction.exec, hstate, Pool.bufpoolGet, hloop, hset]

theorem recheck (h : Working n σ lists held) (he : (WorkAction.recheck x malloc).Enabled σ n) :
    ∃ σ', (WorkAction.recheck x malloc).exec σ = some σ' ∧
      ∃ lists' held', Working n σ' lists' held' := by
  obtain ⟨hx, hm⟩ := he
  have hb : σ.deinit = .before := by
    by_contra hne
    have := h.shutdown.quiet hne x
    simp [hx] at this
  by_cases hretry : σ.tp.pool.MayRetry false
  · obtain ⟨e, σ', hloop, hset, hσ'⟩ := h.getLoop hm (by rw [hx]; rfl) (by simp [hx]) hb
    exact ⟨σ', by simp [WorkAction.exec, Pool.recheck, hretry, hloop, hset], hσ'⟩
  · refine ⟨{ σ with user := Function.update σ.user x .waiting }, ?_, lists, held, ?_,
      ⟨h.logged.pend, h.logged.fifo, h.logged.ledger⟩,
      h.shutdown.user (by simp [hx]) hb rfl rfl rfl rfl rfl⟩
    · simp [WorkAction.exec, Pool.recheck, hretry, Works.settle]
    · have hsame : σ.holds (.user x) = UserPc.waiting.buf := by rw [Works.holds, hx]
      exact .of_user rfl (fun _ => rfl) (h.places.same hsame)

/-- Who has a work buffer, and no worker about to call it, writes to it. -/
theorem write (h : Working n σ lists held) (hy : σ.holds y = some a)
    (hnt : ∀ i, σ.worker i ≠ .taken a) (next prev : Node Head Addr) (job : Job) :
    Working n { σ with
      tp := { σ.tp with
        pool := σ.tp.pool.scribble a next prev, job := Function.update σ.tp.job a job } }
      lists held := by
  obtain ⟨hheld, hwork⟩ := h.places.mine y a hy
  have hown := h.places.owns.scribble (h.places.owns.unlisted hheld hwork) next prev
  have hjob : ∀ b, b ≠ a → Function.update σ.tp.job a job b = σ.tp.job b := fun b hb =>
    Function.update_of_ne hb ..
  have hmap : (lists .work).map (Function.update σ.tp.job a job) = (lists .work).map σ.tp.job :=
    List.map_congr_left fun b hb => hjob b fun e => hwork (e ▸ hb)
  refine ⟨⟨hown, h.places.mine, h.places.alone, h.places.cover⟩,
    ⟨h.logged.pend, by rw [hmap]; exact h.logged.fifo, ?_⟩,
    h.shutdown.1, h.shutdown.2, h.shutdown.3, h.shutdown.4, h.shutdown.5, h.shutdown.6,
    h.shutdown.7, h.shutdown.8⟩
  exact h.logged.ledger.congr (fun _ => Iff.rfl) fun b ⟨i, hi⟩ => hjob b fun e => hnt i (e ▸ hi)

/-- `schedule_work` puts the item last. -/
theorem schedule (h : Working n σ lists held) {job : Job}
    (he : (WorkAction.schedule x job).Enabled σ n) :
    ∃ σ', (WorkAction.schedule x job).exec σ = some σ' ∧
      ∃ lists' held', Working n σ' lists' held' := by
  obtain ⟨a, hx⟩ := he
  have hb : σ.deinit = .before := by
    by_contra hne
    have := h.shutdown.quiet hne x
    simp [hx] at this
  have hstate := h.shutdown.state.2 hb
  have hy : σ.holds (.user x) = some a := by rw [Works.holds, hx]; rfl
  have hnt : ∀ i, σ.worker i ≠ .taken a := fun i hi => by
    have := h.places.alone (.worker i) (.user x) a (by rw [Works.holds, hi]; rfl) hy
    cases this
  -- the job is written first
  obtain ⟨hp, hl, hs⟩ := h.write hy hnt (σ.tp.pool.links.next (.elem a)) (σ.tp.pool.links.prev (.elem a)) job
  obtain ⟨hheld, hwork⟩ := h.places.mine _ a hy
  have hjob : ∀ b, b ≠ a → Function.update σ.tp.job a job b = σ.tp.job b := fun b hb =>
    Function.update_of_ne hb ..
  have hmap : (lists .work).map (Function.update σ.tp.job a job) = (lists .work).map σ.tp.job :=
    List.map_congr_left fun b hb => hjob b fun e => hwork (e ▸ hb)
  have hnot := h.places.owns.unlisted hheld hwork
  have hrings := h.places.owns.rings.revAdd hnot .work
  have hw' : Function.update lists .work (lists .work ++ [a]) .work = lists .work ++ [a] :=
    Function.update_self ..
  have hown := h.places.owns.relink hrings (Function.update_of_ne (by simp) ..) fun b hb => by
    rw [hw', List.mem_append, List.mem_singleton] at hb
    rcases hb with hb | rfl
    exacts [h.places.owns.work b hb, hheld]
  refine ⟨{ σ with
    tp := { σ.tp with job := Function.update σ.tp.job a job }.enqueue a
    user := Function.update σ.user x .waking, scheduled := σ.scheduled ++ [job] }, ?_,
    Function.update lists .work (lists .work ++ [a]), held, ?_, ⟨?_, ?_, hl.ledger⟩, ?_⟩
  · simp [WorkAction.exec, hy, hstate]
  · exact .of_user rfl (fun _ => rfl) (h.places.linked hy hown hw')
  · rw [hw', List.length_append, List.length_singleton]
    have := h.logged.pend
    simp only [ThreadPool.enqueue]
    omega
  · rw [hw', List.map_append, List.map_singleton, ← List.append_assoc]
    simp only [ThreadPool.enqueue, Function.update_self]
    rw [hmap, ← h.logged.fifo]
  · have hu : Shutdown n { σ with
        tp := { σ.tp with job := Function.update σ.tp.job a job }.enqueue a
        user := Function.update σ.user x .waking, scheduled := σ.scheduled ++ [job] } (lists .work) :=
      h.shutdown.user (by simp [hx]) hb rfl rfl rfl rfl rfl
    refine ⟨fun i _ _ => ⟨x, Function.update_self ..⟩, hu.stirred, hu.state, hu.quiet, fun i hi => ?_,
      hu.active, hu.few, hu.joined⟩
    exact absurd hb (h.shutdown.exited i hi).2

/-- A wakeup: nobody sleeps after it. -/
theorem wakeAll (h : Working n σ lists held) : Working n σ.wakeAll lists held := by
  have hholds : σ.wakeAll.holds = σ.holds := by
    funext z
    cases z with
    | user x => rfl
    | worker i => exact wakeAll_buf σ i
  refine ⟨by rw [hholds]; exact h.places, ⟨h.logged.pend, h.logged.fifo, ?_⟩,
    fun i hi => absurd hi (wakeAll_asleep σ i), fun i hi => absurd hi (wakeAll_asleep σ i),
    h.shutdown.state, h.shutdown.quiet, fun i hi => h.shutdown.exited i ((wakeAll_exited σ i).1 hi),
    ?_, fun i hi => ?_, fun e i hi => (wakeAll_exited σ i).2 (h.shutdown.joined e i hi)⟩
  · exact h.logged.ledger.congr (fun a => exists_congr fun i => wakeAll_taken σ i a) fun _ _ => rfl
  · rw [present_congr (wakeAll_exited σ)]
    exact h.shutdown.active
  · simp only [Works.wakeAll, h.shutdown.few i hi]
    simp

/-- `schedule_work` after its wakeup. -/
theorem wake (h : Working n σ lists held) (he : (WorkAction.wake x).Enabled σ n) :
    ∃ σ', (WorkAction.wake x).exec σ = some σ' ∧ ∃ lists' held', Working n σ' lists' held' := by
  have he : σ.user x = .waking := he
  have hw := h.wakeAll
  have hsame : σ.wakeAll.holds (.user x) = UserPc.idle.buf := by
    simp [Works.holds, Works.wakeAll, he, UserPc.buf]
  refine ⟨_, rfl, lists, held, ?_, ⟨hw.logged.pend, hw.logged.fifo, hw.logged.ledger⟩,
    fun i hi => absurd hi (wakeAll_asleep σ i), hw.shutdown.stirred, hw.shutdown.state,
    fun hne z => ?_, hw.shutdown.exited, hw.shutdown.active, hw.shutdown.few, hw.shutdown.joined⟩
  · exact .of_user (σ := σ.wakeAll) rfl (fun _ => rfl) (hw.places.same hsame)
  · simp only [Function.update_apply]
    split
    · exact .inl rfl
    · exact h.shutdown.quiet hne z

/-- A worker with nothing in its hands that takes nothing. -/
theorem taken_update {worker : ℕ → WorkerPc} {pc : WorkerPc} (hi : (worker i).buf = none)
    (hpc : pc.buf = none) (a : Addr) :
    (∃ j, Function.update worker i pc j = .taken a) ↔ ∃ j, worker j = .taken a := by
  refine exists_congr fun j => ?_
  by_cases hj : j = i
  · subst hj
    rw [Function.update_self]
    refine iff_of_false (fun e => ?_) fun e => ?_
    · rw [e] at hpc
      cases hpc
    · rw [e] at hi
      cases hi
  · rw [Function.update_of_ne hj]

/-- A worker with nothing in its hands takes an item. -/
theorem taken_take {worker : ℕ → WorkerPc} (hi : (worker i).buf = none) (b : Addr) :
    (∃ j, Function.update worker i (.taken a) j = .taken b) ↔ b = a ∨ ∃ j, worker j = .taken b := by
  constructor
  · rintro ⟨j, hj⟩
    by_cases hji : j = i
    · subst hji
      rw [Function.update_self] at hj
      exact .inl (WorkerPc.taken.inj hj).symm
    · rw [Function.update_of_ne hji] at hj
      exact .inr ⟨j, hj⟩
  · rintro (rfl | ⟨j, hj⟩)
    · exact ⟨i, Function.update_self ..⟩
    · refine ⟨j, ?_⟩
      rw [Function.update_of_ne, hj]
      rintro rfl
      rw [hj] at hi
      cases hi

/-- A worker calls the item it took. -/
theorem taken_call {worker : ℕ → WorkerPc} (hi : worker i = .taken a)
    (halone : ∀ j, worker j = .taken a → j = i) (b : Addr) :
    (∃ j, Function.update worker i (.running a) j = .taken b) ↔ b ≠ a ∧ ∃ j, worker j = .taken b := by
  constructor
  · rintro ⟨j, hj⟩
    by_cases hji : j = i
    · subst hji
      rw [Function.update_self] at hj
      cases hj
    · rw [Function.update_of_ne hji] at hj
      exact ⟨fun e => hji (halone j (e ▸ hj)), j, hj⟩
  · rintro ⟨hb, j, hj⟩
    refine ⟨j, ?_⟩
    rw [Function.update_of_ne, hj]
    rintro rfl
    rw [hi] at hj
    exact hb (WorkerPc.taken.inj hj).symm

/-- A worker leaves. -/
theorem leave (h : Working n σ lists held) (hi : i < n) (htop : σ.worker i = .top)
    (hws : lists .work = []) (hne : σ.deinit ≠ .before) :
    Working n { σ with
      tp := { σ.tp with active := σ.tp.active - 1 }
      worker := Function.update σ.worker i .exited } lists held := by
  have hnone : σ.holds (.worker i) = none := by
    rw [Works.holds, htop]
    rfl
  have hex : ∀ j, σ.worker j = .exited → Function.update σ.worker i .exited j = .exited := fun j hj => by
    by_cases hji : j = i
    · subst hji
      exact Function.update_self ..
    · rw [Function.update_of_ne hji, hj]
  have hsl : ∀ j, Function.update σ.worker i .exited j = .asleep → σ.worker j = .asleep := fun j hj => by
    by_cases hji : j = i
    · subst hji
      rw [Function.update_self] at hj
      cases hj
    · rwa [Function.update_of_ne hji] at hj
  refine ⟨.of_worker rfl rfl (h.places.same hnone), ⟨h.logged.pend, h.logged.fifo,
    h.logged.ledger.congr (taken_update hnone rfl) fun _ _ => rfl⟩,
    fun j hj => h.shutdown.sleep j (hsl j hj), fun j hj => h.shutdown.stirred j (hsl j hj),
    h.shutdown.state, h.shutdown.quiet, fun _ _ => ⟨hws, hne⟩, ?_, fun j hj => ?_,
    fun e j hj => hex j (h.shutdown.joined e j hj)⟩
  · have hmem : i ∈ present n σ.worker := by simp [present, hi, htop]
    have hpos := Finset.card_pos.2 ⟨i, hmem⟩
    have hac := h.shutdown.active
    rw [present_exit, Finset.card_erase_of_mem hmem]
    simp only
    omega
  · simp only [Function.update_of_ne (by omega : j ≠ i)]
    exact h.shutdown.few j hj

/-- A worker falls asleep. -/
theorem rest (h : Working n σ lists held) (hi : i < n) (htop : σ.worker i = .top)
    (hws : lists .work = []) (hb : σ.deinit = .before) :
    Working n { σ with worker := Function.update σ.worker i .asleep } lists held := by
  have hnone : σ.holds (.worker i) = none := by
    rw [Works.holds, htop]
    rfl
  have hsame : ∀ j, Function.update σ.worker i .asleep j = .exited ↔ σ.worker j = .exited :=
    exited_update (by simp) (by simp [htop])
  refine ⟨.of_worker rfl rfl (h.places.same hnone), ⟨h.logged.pend, h.logged.fifo,
    h.logged.ledger.congr (taken_update hnone rfl) fun _ _ => rfl⟩,
    fun j _ hne => absurd hws hne, fun _ _ => .inl hb, h.shutdown.state, h.shutdown.quiet,
    fun j hj => h.shutdown.exited j ((hsame j).1 hj), ?_, fun j hj => ?_,
    fun e j hj => (hsame j).2 (h.shutdown.joined e j hj)⟩
  · rw [present_congr hsame]
    exact h.shutdown.active
  · simp only [Function.update_of_ne (by omega : j ≠ i)]
    exact h.shutdown.few j hj

/-- A worker takes the first of the list. -/
theorem take (h : Working n σ lists held) (hi : i < n) (htop : σ.worker i = .top) {ws : List Addr}
    (hws : lists .work = a :: ws) :
    Working n { σ with
      tp := { σ.tp with
        pool := { σ.tp.pool with links := σ.tp.pool.links.rem (.elem a) }
        workPend := σ.tp.workPend - 1 }
      worker := Function.update σ.worker i (.taken a)
      taken := σ.taken ++ [σ.tp.job a] }
      (Function.update lists .work ((lists .work).erase a)) held := by
  have hnone : σ.holds (.worker i) = none := by
    rw [Works.holds, htop]
    rfl
  have ha : a ∈ lists .work := by simp [hws]
  have hw' : Function.update lists .work ((lists .work).erase a) .work = ws := by
    rw [Function.update_self, hws, List.erase_cons_head]
  have hown := h.places.owns.relink (h.places.owns.rings.rem ha) (Function.update_of_ne (by simp) ..)
    fun b hb => by
      rw [Function.update_self] at hb
      exact h.places.owns.work b (List.mem_of_mem_erase hb)
  have hnt : ¬∃ j, σ.worker j = .taken a := fun ⟨j, hj⟩ =>
    (h.places.mine (.worker j) a (by rw [Works.holds, hj]; rfl)).2 ha
  refine ⟨.of_worker rfl rfl (h.places.unlinked hnone hws hown hw'), ⟨?_, ?_, ?_⟩, ?_⟩
  · rw [hw']
    have := h.logged.pend
    rw [hws, List.length_cons] at this
    simp only
    omega
  · rw [hw']
    have := h.logged.fifo
    rw [hws, List.map_cons] at this
    simpa using this
  · exact h.logged.ledger.enter hnt (taken_take hnone) (fun _ _ => rfl) rfl
  · rw [hw']
    exact h.shutdown.worker hi (by simp) (by simp) (by simp [htop])
      (fun e => by rw [hws] at e; cases e) rfl rfl rfl rfl rfl

/-- A worker at the top of its loop. -/
theorem work (h : Working n σ lists held) (he : (WorkAction.work i).Enabled σ n) :
    ∃ σ', (WorkAction.work i).exec σ = some σ' ∧ ∃ lists' held', Working n σ' lists' held' := by
  obtain ⟨hi, htop⟩ := he
  have hrings := h.places.owns.rings
  cases hws : lists .work with
  | nil =>
      have hempty : σ.tp.pool.links.isEmpty (.head .work) = true := (hrings.isEmpty_head_iff .work).2 hws
      cases hstate : σ.tp.state with
      | shutting =>
          have hne : σ.deinit ≠ .before := fun e => by
            rw [h.shutdown.state.2 e] at hstate
            cases hstate
          exact ⟨_, by simp [WorkAction.exec, Works.lockStep, hempty, hstate], lists, held,
            h.leave hi htop hws hne⟩
      | initialized =>
          exact ⟨_, by simp [WorkAction.exec, Works.lockStep, hempty, hstate], lists, held,
            h.rest hi htop hws (h.shutdown.state.1 hstate)⟩
  | cons a ws =>
      have hempty : ¬σ.tp.pool.links.isEmpty (.head .work) = true := fun e => by
        rw [(hrings.isEmpty_head_iff .work).1 e] at hws
        cases hws
      have hdeq : σ.tp.dequeue = some ({ σ.tp with
          pool := { σ.tp.pool with links := σ.tp.pool.links.rem (.elem a) }
          workPend := σ.tp.workPend - 1 }, a) := by
        rw [ThreadPool.dequeue, hrings.next_head hws]
      have htake := h.take hi htop hws
      exact ⟨_, by simp [WorkAction.exec, Works.lockStep, hempty, hdeq], _, held, htake⟩

/-- `work_fn` is called. -/
theorem call (h : Working n σ lists held) (he : (WorkAction.call i).Enabled σ n) :
    ∃ σ', (WorkAction.call i).exec σ = some σ' ∧ ∃ lists' held', Working n σ' lists' held' := by
  obtain ⟨a, hi⟩ := he
  have hin : i < n := by
    by_contra hge
    rw [h.shutdown.few i (by omega)] at hi
    cases hi
  have hy : σ.holds (.worker i) = some a := by
    rw [Works.holds, hi]
    rfl
  refine ⟨{ σ with
    worker := Function.update σ.worker i (.running a), called := σ.called ++ [σ.tp.job a] },
    by simp [WorkAction.exec, hy], lists, held, .of_worker rfl rfl ?_,
    ⟨h.logged.pend, h.logged.fifo, ?_⟩,
    h.shutdown.worker hin (by simp) (by simp) (by simp [hi]) id rfl rfl rfl rfl rfl⟩
  · exact h.places.same hy
  · refine h.logged.ledger.leave ⟨i, hi⟩ (taken_call hi fun j hj => ?_) (fun _ _ _ => rfl) rfl
    have := h.places.alone (.worker j) (.worker i) a (by rw [Works.holds, hj]; rfl) hy
    exact Holder.worker.inj this

/-- `work_fn` is back and the buffer is put. -/
theorem finish (h : Working n σ lists held) (he : (WorkAction.finish i).Enabled σ n) :
    ∃ σ', (WorkAction.finish i).exec σ = some σ' ∧ ∃ lists' held', Working n σ' lists' held' := by
  obtain ⟨a, hi⟩ := he
  have hin : i < n := by
    by_contra hge
    rw [h.shutdown.few i (by omega)] at hi
    cases hi
  have hy : σ.holds (.worker i) = some a := by
    rw [Works.holds, hi]
    rfl
  obtain ⟨hheld, hwork⟩ := h.places.mine _ a hy
  obtain ⟨p, lists', hput, hown, hw, -⟩ := h.places.owns.put hheld hwork
  refine ⟨{ σ with
    tp := { σ.tp with pool := p }, worker := Function.update σ.worker i .top },
    by simp [WorkAction.exec, hy, hput], lists', held.erase a,
    .of_worker rfl rfl (h.places.returned hy hown hw), ?_, ?_⟩
  · rw [hw]
    refine ⟨h.logged.pend, h.logged.fifo, h.logged.ledger.congr (fun b => exists_congr fun j => ?_)
      fun _ _ => rfl⟩
    by_cases hji : j = i
    · subst hji
      simp [hi]
    · simp [hji]
  · rw [hw]
    exact h.shutdown.worker hin (by simp) (by simp) (by simp [hi]) id rfl rfl rfl rfl rfl

/-- A sleep ends with no wakeup. -/
theorem stir (h : Working n σ lists held) (he : (WorkAction.stir i).Enabled σ n) :
    ∃ σ', (WorkAction.stir i).exec σ = some σ' ∧ ∃ lists' held', Working n σ' lists' held' := by
  have hi : σ.worker i = .asleep := he
  have hin : i < n := by
    by_contra hge
    rw [h.shutdown.few i (by omega)] at hi
    cases hi
  have hnone : σ.holds (.worker i) = none := by
    rw [Works.holds, hi]
    rfl
  exact ⟨_, rfl, lists, held, .of_worker rfl rfl (h.places.same hnone), ⟨h.logged.pend, h.logged.fifo,
    h.logged.ledger.congr (taken_update hnone rfl) fun _ _ => rfl⟩,
    h.shutdown.worker hin (by simp) (by simp) (by simp [hi]) id rfl rfl rfl rfl rfl⟩

/-- `thread_pool_deinit` up to where it gives the lock back. -/
theorem deinit (h : Working n σ lists held) (he : WorkAction.deinit.Enabled σ n) :
    ∃ σ', WorkAction.deinit.exec σ = some σ' ∧ ∃ lists' held', Working n σ' lists' held' := by
  obtain ⟨hb, hquiet⟩ := he
  have hstate := h.shutdown.state.2 hb
  refine ⟨{ σ with tp := { σ.tp with state := .shutting }, deinit := .waking },
    by simp [WorkAction.exec, hstate], lists, held, h.places,
    ⟨h.logged.pend, h.logged.fifo, h.logged.ledger⟩, h.shutdown.sleep, fun _ _ => .inr rfl, by simp,
    fun _ => hquiet, fun i hi => absurd hb (h.shutdown.exited i hi).2, h.shutdown.active,
    h.shutdown.few, fun e => by cases e⟩

/-- Its wakeup. -/
theorem deinitWake (h : Working n σ lists held) (he : WorkAction.deinitWake.Enabled σ n) :
    ∃ σ', WorkAction.deinitWake.exec σ = some σ' ∧ ∃ lists' held', Working n σ' lists' held' := by
  have he : σ.deinit = .waking := he
  have hne : σ.deinit ≠ .before := by simp [he]
  have hw := h.wakeAll
  refine ⟨{ σ.wakeAll with deinit := .joining }, rfl, lists, held, hw.places,
    ⟨hw.logged.pend, hw.logged.fifo, hw.logged.ledger⟩,
    fun i hi => absurd hi (wakeAll_asleep σ i), fun i hi => absurd hi (wakeAll_asleep σ i), ?_,
    fun _ => h.shutdown.quiet hne, fun i hi => ?_, hw.shutdown.active, hw.shutdown.few,
    fun e => by cases e⟩
  · have hstate := mt h.shutdown.state.1 hne
    exact iff_of_false hstate (by simp)
  · exact ⟨(hw.shutdown.exited i hi).1, by simp⟩

/-- Its assertions hold. -/
theorem deinitJoin (h : Working n σ lists held) (hn : 0 < n)
    (he : WorkAction.deinitJoin.Enabled σ n) :
    ∃ σ', WorkAction.deinitJoin.exec σ = some σ' ∧ ∃ lists' held', Working n σ' lists' held' := by
  obtain ⟨hj, hall⟩ := he
  have hne : σ.deinit ≠ .before := by simp [hj]
  have hactive : σ.tp.active = 0 := by
    have hempty : present n σ.worker = ∅ := by
      refine Finset.eq_empty_of_forall_notMem fun i hi => ?_
      simp only [present, Finset.mem_filter, Finset.mem_range] at hi
      exact hi.2 (hall i hi.1)
    rw [h.shutdown.active, hempty]
    rfl
  have hws := (h.shutdown.exited 0 (hall 0 hn)).1
  have hempty : σ.tp.pool.links.isEmpty (.head .work) = true :=
    (h.places.owns.rings.isEmpty_head_iff .work).2 hws
  refine ⟨{ σ with deinit := .passed }, by simp [WorkAction.exec, hactive, hempty], lists, held,
    h.places, ⟨h.logged.pend, h.logged.fifo, h.logged.ledger⟩, h.shutdown.sleep, fun i hi => ?_, ?_,
    fun _ => h.shutdown.quiet hne, fun i hi => ?_, h.shutdown.active, h.shutdown.few, fun _ => hall⟩
  · have := h.shutdown.stirred i hi
    simp [hj] at this
  · exact iff_of_false (mt h.shutdown.state.1 hne) (by simp)
  · exact ⟨(h.shutdown.exited i hi).1, by simp⟩

/-- **Every step keeps it**, and none fails. -/
theorem step (h : Working n σ lists held) (hn : 0 < n) (he : act.Enabled σ n) :
    ∃ σ', act.exec σ = some σ' ∧ ∃ lists' held', Working n σ' lists' held' := by
  cases act with
  | newWork x malloc => exact h.newWork he
  | recheck x malloc => exact h.recheck he
  | write y next prev job =>
      have hy : ∃ a, σ.holds y = some a ∧ ∀ i, σ.worker i ≠ .taken a := by
        cases y with
        | user x =>
            obtain ⟨a, hx⟩ := he
            have hy : σ.holds (.user x) = some a := by rw [Works.holds, hx]; rfl
            refine ⟨a, hy, fun i hi => ?_⟩
            have := h.places.alone (.worker i) (.user x) a (by rw [Works.holds, hi]; rfl) hy
            cases this
        | worker j =>
            obtain ⟨a, hx⟩ := he
            have hy : σ.holds (.worker j) = some a := by rw [Works.holds, hx]; rfl
            refine ⟨a, hy, fun i hi => ?_⟩
            have := h.places.alone (.worker i) (.worker j) a (by rw [Works.holds, hi]; rfl) hy
            obtain rfl := Holder.worker.inj this
            rw [hx] at hi
            cases hi
      obtain ⟨a, hy, hnt⟩ := hy
      exact ⟨_, by simp [WorkAction.exec, hy], lists, held, h.write hy hnt next prev job⟩
  | schedule x job => exact h.schedule he
  | wake x => exact h.wake he
  | work i => exact h.work he
  | call i => exact h.call he
  | finish i => exact h.finish he
  | stir i => exact h.stir he
  | deinit => exact h.deinit he
  | deinitWake => exact h.deinitWake he
  | deinitJoin => exact h.deinitJoin hn he

end Working

end Vmk

end VmwareProto
