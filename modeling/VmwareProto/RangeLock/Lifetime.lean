import VmwareProto.RangeLock.Exclusion
/-!
# The life of a node

A node is shared by the tree, the range handed out for it and the tasks
suspended on it; `refcount` counts the range and the tasks. What is live is
therefore what somebody uses, and whoever leaves last frees: the unlocker,
or the last task that resumes. `tracedSystem` is `lockSystem` with a record
of the `malloc` and `free_node` calls.
-/

namespace VmwareProto

namespace RangeLock

open VmwareProto.Tree Ctx

variable {σ σ' : LockState} {t : Shape} {a b : Addr} {k : TaskId} {w : Waiter} {act : LockAction}

namespace LockState

/-- The node `a` is in somebody's hands: its range is held, or a task is
between `n->refcount++` and `n->refcount--` on it. -/
def InUse (σ : LockState) (a : Addr) : Prop :=
  (∃ p ∈ σ.held, p.2.node = a) ∨ ∃ w ∈ σ.waiters, w.node = a

/-- The node `a` is allocated. -/
def Live (σ : LockState) (a : Addr) : Prop := σ.mem.heap a ≠ none

instance (σ : LockState) (a : Addr) : Decidable (σ.Live a) := inferInstanceAs (Decidable (_ ≠ _))

end LockState

namespace LockAction

/-- The node a pass of `range_lock`'s loop took from `malloc`. -/
def taken : Mem × LockOutcome → Option Addr
  | (_, .locked r) => some r.node
  | (_, .asleep _) => none

/-- The node a step takes from `malloc`. -/
def mallocs (σ : LockState) : LockAction → Option Addr
  | .lock t s e alloc => do
      let r ← rangeLockLoop σ.mem t s e alloc
      taken r
  | .resume t alloc => do
      let w ← σ.find t
      let m ← rangeLockWoken σ.mem w.node
      let r ← rangeLockLoop m t w.s w.e alloc
      taken r
  | .unlock _ _ => none

/-- The node whose `refcount` a step decrements, and the memory when the
`free_node` that may follow is behind it. -/
def gaveUp (σ : LockState) : LockAction → Option (Addr × Mem)
  | .lock _ _ _ _ => none
  | .resume t _ => do
      let w ← σ.find t
      let m ← rangeLockWoken σ.mem w.node
      some (w.node, m)
  | .unlock _ r => do
      let (m, _) ← rangeUnlock σ.mem r
      some (r.node, m)

/-- The node a step frees. -/
def frees (σ : LockState) (act : LockAction) : Option Addr := do
  let (a, m) ← act.gaveUp σ
  if m.heap a = none then some a else none

/-- Somebody other than the task that takes the step uses the node `a`. -/
def OthersUse (σ : LockState) (act : LockAction) (a : Addr) : Prop :=
  (∃ p ∈ σ.held, p.2.node = a ∧ act ≠ .unlock p.1 p.2) ∨
    ∃ w ∈ σ.waiters, w.node = a ∧ ∀ alloc, act ≠ .resume w.task alloc

end LockAction

/-- A lock, and the `malloc` and `free_node` calls so far. -/
structure Traced where
  lock : LockState
  mallocs : List Addr
  frees : List Addr

/-- `lockSystem`, recording. -/
def tracedSystem : System Traced LockAction where
  init τ := τ = ⟨.initial, [], []⟩
  enabled τ act := lockSystem.enabled τ.lock act
  exec τ act := do
    let σ ← lockSystem.exec τ.lock act
    some ⟨σ, (act.mallocs τ.lock).toList ++ τ.mallocs, (act.frees τ.lock).toList ++ τ.frees⟩

/-! ## Live is in use -/

theorem seatedAt_pos {ws : List Waiter} : 0 < seatedAt ws a ↔ ∃ w ∈ ws, w.node = a := by
  simp only [seatedAt, List.countP_pos_iff, beq_iff_eq]

theorem mem_ids_iff_held (h : LockInv σ t) : a ∈ t.ids ↔ ∃ p ∈ σ.held, p.2.node = a := by
  rw [← h.valid.models.inTree_iff, h.inTree_iff]

/-- **The nodes that are allocated are those in use.** -/
theorem LockInv.live_iff (h : LockInv σ t) : σ.Live a ↔ σ.InUse a := by
  have hlive : σ.Live a ↔ ∃ x, σ.mem.data a = some x := by
    simp only [LockState.Live, Mem.data, Option.map_eq_some_iff, ne_eq, Option.eq_none_iff_forall_ne_some]
    grind
  rw [hlive, LockState.InUse, ← mem_ids_iff_held h]
  constructor
  · rintro ⟨x, hx⟩
    obtain ⟨hpos, href⟩ := h.refs a x hx
    by_cases hat : a ∈ t.ids
    · exact .inl hat
    · rw [if_neg hat] at href
      exact .inr (seatedAt_pos.1 (by omega))
  · rintro (hat | ⟨w, hw, rfl⟩)
    · obtain ⟨x, hx⟩ := mem_toList_of_mem_ids hat
      exact ⟨x, data_of_mem h.valid.models hx⟩
    · exact Option.isSome_iff_exists.1 (h.alive w hw)

/-- What is free is in nobody's hands, and not in the tree. -/
theorem LockInv.free_iff (h : LockInv σ t) : σ.mem.heap a = none ↔ ¬ σ.InUse a := by
  rw [← h.live_iff, LockState.Live, not_not]

theorem LockInv.not_inTree (h : LockInv σ t) (ha : σ.mem.heap a = none) : ¬ InTree σ.mem a :=
  fun hin => h.free_iff.1 ha (.inl (h.inTree_iff.1 hin))

theorem LockInv.nodup_held (h : LockInv σ t) : σ.held.Nodup := by
  have hnd := h.valid.models.nodup
  rw [ids_eq_entries, ← (h.held.map Range.node).nodup_iff, List.map_map] at hnd
  exact hnd.of_map _

/-! ## What a step takes and gives back -/

/-- A pass of the loop takes a node that was free, or none. -/
theorem rangeLockLoop_live (h : LockInv σ t) (hk : ∀ w ∈ σ.waiters, w.task ≠ k) (s e : ℕ)
    (ha : σ.mem.heap a = none) :
    ∃ r t', rangeLockLoop σ.mem k s e a = some r ∧ LockInv (σ.settle k s e r) t' ∧
      (∀ b, (σ.settle k s e r).Live b ↔ σ.Live b ∨ LockAction.taken r = some b) ∧
      ∀ b, LockAction.taken r = some b → ¬ σ.Live b := by
  obtain ⟨⟨m, out⟩, t', hrun, h', hout⟩ := rangeLockLoop_spec h hk s e ha
  refine ⟨_, t', hrun, h', fun b => ?_, ?_⟩
  · rw [h'.live_iff, h.live_iff]
    cases out with
    | asleep n =>
        -- the node was found in the tree
        obtain ⟨p, hp, hpn⟩ : ∃ p ∈ σ.held, p.2.node = n := by
          obtain ⟨r, hr, hrn, -⟩ := h'.asleep ⟨k, s, e, n, false⟩ (List.mem_cons_self ..) rfl
          obtain ⟨p, hp, rfl⟩ := List.mem_map.1 (h'.held.mem_iff.2 hr)
          exact ⟨p, hp, hrn⟩
        simp only [LockAction.taken, LockState.InUse, LockState.settle, List.mem_cons,
          exists_eq_or_imp, reduceCtorEq, or_false]
        constructor
        · rintro (hb | rfl | hb)
          · exact .inl hb
          · exact .inl ⟨p, hp, hpn⟩
          · exact .inr hb
        · rintro (hb | hb)
          · exact .inl hb
          · exact .inr (.inr hb)
    | locked g =>
        simp only [LockAction.taken, LockState.InUse, LockState.settle, List.mem_cons,
          exists_eq_or_imp, Option.some.injEq]
        exact or_assoc.trans or_comm
  · intro b hb
    cases out with
    | asleep n => cases hb
    | locked g =>
        rw [← Option.some.inj hb, hout m g rfl]
        exact not_not.2 ha

/-- The end of a sleep gives the task's node back. -/
theorem rangeLockWoken_live (h : LockInv σ t) (hw : w ∈ σ.waiters) (hwoken : w.woken = true) :
    ∃ m ρ t', rangeLockWoken σ.mem w.node = some m ∧
      ρ = { σ with mem := m, waiters := σ.waiters.filter (·.task != w.task) } ∧ LockInv ρ t' ∧
      (∀ b, σ.Live b ↔ ρ.Live b ∨ b = w.node) ∧
      ∀ alloc, ρ.InUse w.node ↔ LockAction.OthersUse σ (.resume w.task alloc) w.node := by
  obtain ⟨m, t', hrun, h'⟩ := rangeLockWoken_spec h hw hwoken
  refine ⟨m, _, t', hrun, rfl, h', fun b => ?_, fun alloc => ?_⟩
  · rw [h.live_iff, h'.live_iff]
    simp only [LockState.InUse, (perm_filter_task h.tasks hw).mem_iff, List.mem_cons,
      exists_eq_or_imp]
    rw [eq_comm (a := b)]
    exact or_left_comm.trans or_comm
  · simp only [LockState.InUse, LockAction.OthersUse, List.mem_filter, bne_iff_ne, ne_eq, and_true,
      reduceCtorEq, not_false_eq_true, LockAction.resume.injEq, not_and]
    refine or_congr Iff.rfl ⟨?_, ?_⟩
    · rintro ⟨v, ⟨hv, hne⟩, hn⟩
      exact ⟨v, hv, hn, fun _ e => absurd e.symm hne⟩
    · rintro ⟨v, hv, hn, hne⟩
      exact ⟨v, ⟨hv, fun e => hne alloc e.symm rfl⟩, hn⟩

/-- `range_unlock` gives the range's node back. -/
theorem rangeUnlock_live {g : Range} (h : LockInv σ t) (hg : (k, g) ∈ σ.held) :
    ∃ m ts σ' t', rangeUnlock σ.mem g = some (m, ts) ∧
      σ' = ⟨m, LockState.wake ts σ.waiters, σ.held.erase (k, g)⟩ ∧ LockInv σ' t' ∧
      (∀ b, σ.Live b ↔ σ'.Live b ∨ b = g.node) ∧
      (σ'.InUse g.node ↔ LockAction.OthersUse σ (.unlock k g) g.node) := by
  obtain ⟨m, ts, t', hrun, h'⟩ := rangeUnlock_spec h hg
  have hwaiters : ∀ b, (∃ v ∈ LockState.wake ts σ.waiters, v.node = b) ↔ ∃ v ∈ σ.waiters, v.node = b :=
    fun b => by rw [← seatedAt_pos, seatedAt_wake, seatedAt_pos]
  refine ⟨m, ts, _, t', hrun, rfl, h', fun b => ?_, ?_⟩
  · rw [h.live_iff, h'.live_iff]
    simp only [LockState.InUse, hwaiters, (List.perm_cons_erase hg).mem_iff, List.mem_cons,
      exists_eq_or_imp]
    rw [eq_comm (a := b)]
    exact or_assoc.trans or_comm
  · simp only [LockState.InUse, LockAction.OthersUse, hwaiters, h.nodup_held.mem_erase_iff, ne_eq,
      reduceCtorEq, not_false_eq_true, implies_true, and_true, LockAction.unlock.injEq, not_and]
    refine or_congr ⟨?_, ?_⟩ Iff.rfl
    · rintro ⟨p, ⟨hne, hp⟩, hn⟩
      exact ⟨p, hp, hn, fun h₁ h₂ => hne (Prod.ext h₁.symm h₂.symm)⟩
    · rintro ⟨p, hp, hn, hne⟩
      exact ⟨p, ⟨fun e => hne (by rw [e]) (by rw [e]), hp⟩, hn⟩

/-! ## Each node is freed once -/

theorem count_taken {o : Option Addr} (hlive : ∀ b, σ'.Live b ↔ σ.Live b ∨ o = some b)
    (hnew : ∀ b, o = some b → ¬ σ.Live b) (b : Addr) :
    (if σ'.Live b then 1 else 0) = o.toList.count b + if σ.Live b then 1 else 0 := by
  by_cases ho : o = some b
  · rw [if_pos ((hlive b).2 (.inr ho)), if_neg (hnew b ho), ho]
    simp
  · have hcount : o.toList.count b = 0 := by
      rw [List.count_eq_zero]
      exact fun hb => ho (Option.mem_toList.1 hb)
    simp only [hlive, ho, or_false, hcount, zero_add]

theorem count_freed (hlive : ∀ b, σ.Live b ↔ σ'.Live b ∨ b = a) (b : Addr) :
    (if σ'.mem.heap a = none then some a else none : Option Addr).toList.count b +
      (if σ'.Live b then 1 else 0) = if σ.Live b then 1 else 0 := by
  by_cases hb : b = a
  · subst hb
    rw [if_pos ((hlive b).2 (.inr rfl))]
    by_cases hfree : σ'.mem.heap b = none
    · have hnot : ¬ σ'.Live b := not_not.2 hfree
      rw [if_pos hfree, if_neg hnot]
      simp
    · have hlive' : σ'.Live b := hfree
      rw [if_neg hfree, if_pos hlive']
      rfl
  · have hcount : (if σ'.mem.heap a = none then some a else none : Option Addr).toList.count b = 0 := by
      rw [List.count_eq_zero]
      intro hmem
      split at hmem
      · exact hb (by simpa using hmem)
      · simp at hmem
    simp only [hlive, hb, or_false, hcount, zero_add]

/-- What a step does to the nodes: `malloc` and `free_node` are all that
changes what is live, and the node given up is freed exactly if nobody else
uses it, which also keeps it out of the tree. -/
structure Handover (σ : LockState) (act : LockAction) (σ' : LockState) : Prop where
  balance : ∀ b, (act.frees σ).toList.count b + (if σ'.Live b then 1 else 0) =
    (act.mallocs σ).toList.count b + if σ.Live b then 1 else 0
  gaveUp : ∀ a m, act.gaveUp σ = some (a, m) → σ.Live a ∧
    (m.heap a = none ↔ ¬ act.OthersUse σ a) ∧ (m.heap a = none → ¬ InTree m a)

/-- **One step**, whoever takes it. -/
theorem handover (h : LockInv σ t) (he : lockSystem.enabled σ act) :
    ∃ σ' t', lockSystem.exec σ act = some σ' ∧ LockInv σ' t' ∧ Handover σ act σ' := by
  cases act with
  | lock k s e a =>
      obtain ⟨r, t', hrun, h', hlive, hnew⟩ := rangeLockLoop_live h he.1 s e he.2
      have hm : (LockAction.lock k s e a).mallocs σ = LockAction.taken r := by
        simp [LockAction.mallocs, hrun]
      refine ⟨_, t', by simp [lockSystem, LockAction.exec, hrun], h', fun b => ?_, fun _ _ hg => by cases hg⟩
      rw [hm, count_taken hlive hnew b]
      exact zero_add _
  | resume k alloc =>
      obtain ⟨w, hw, rfl, hwoken, hfresh⟩ := he
      obtain ⟨m, ρ, t₁, hrun₁, hρ, h₁, hlive₁, huse⟩ := rangeLockWoken_live h hw hwoken
      have hfind : σ.find w.task = some w := find_eq h.tasks hw
      have hmem : ρ.mem = m := by rw [hρ]
      have halloc : ρ.mem.heap alloc = none := hmem ▸ hfresh m hrun₁
      obtain ⟨r, t', hrun, h', hlive, hnew⟩ := rangeLockLoop_live h₁ (k := w.task)
        (fun v hv => by rw [hρ] at hv; simpa using (List.mem_filter.1 hv).2) w.s w.e halloc
      rw [hmem] at hrun
      have hg : (LockAction.resume w.task alloc).gaveUp σ = some (w.node, m) := by
        simp [LockAction.gaveUp, hfind, hrun₁]
      have hm : (LockAction.resume w.task alloc).mallocs σ = LockAction.taken r := by
        simp [LockAction.mallocs, hfind, hrun₁, hrun]
      refine ⟨_, t', ?_, h', fun b => ?_, fun a m' hg' => ?_⟩
      · simp only [lockSystem, LockAction.exec, hfind, hrun₁, Option.bind_eq_bind, Option.bind_some,
          hrun, hρ]
        rfl
      · have hfreed := count_freed hlive₁ b
        rw [hm, count_taken hlive hnew b, ← hfreed]
        simp only [LockAction.frees, hg, Option.bind_eq_bind, Option.bind_some, hmem]
        omega
      · rw [hg] at hg'
        obtain ⟨rfl, rfl⟩ := Prod.mk.inj (Option.some.inj hg')
        rw [← huse alloc, ← hmem]
        exact ⟨(hlive₁ _).2 (.inr rfl), h₁.free_iff, h₁.not_inTree⟩
  | unlock k g =>
      obtain ⟨m, ts, σ', t', hrun, hσ', h', hlive, huse⟩ := rangeUnlock_live h he.2
      have hmem : σ'.mem = m := by rw [hσ']
      have hg : (LockAction.unlock k g).gaveUp σ = some (g.node, m) := by
        simp [LockAction.gaveUp, hrun]
      refine ⟨σ', t', by simp [lockSystem, LockAction.exec, hrun, hσ'], h', fun b => ?_,
        fun a m' hg' => ?_⟩
      · rw [← count_freed hlive b]
        simp only [LockAction.frees, hg, Option.bind_eq_bind, Option.bind_some, hmem,
          LockAction.mallocs, Option.toList_none, List.count_nil, zero_add]
      · rw [hg] at hg'
        obtain ⟨rfl, rfl⟩ := Prod.mk.inj (Option.some.inj hg')
        rw [← huse, ← hmem]
        exact ⟨(hlive _).2 (.inr rfl), h'.free_iff, h'.not_inTree⟩

theorem traced_exec {τ : Traced} (hx : lockSystem.exec τ.lock act = some σ') :
    tracedSystem.exec τ act = some ⟨σ', (act.mallocs τ.lock).toList ++ τ.mallocs,
      (act.frees τ.lock).toList ++ τ.frees⟩ := by
  simp [tracedSystem, hx]

theorem tracedSystem_inductive : tracedSystem.Inductive fun τ => (∃ t, LockInv τ.lock t) ∧
    ∀ b, τ.mallocs.count b = τ.frees.count b + if τ.lock.Live b then 1 else 0 where
  init τ hτ := by
    rw [show τ = _ from hτ]
    exact ⟨lockSystem_inductive.init _ rfl, fun b => rfl⟩
  step τ act := by
    rintro ⟨⟨t, h⟩, hcount⟩ he
    obtain ⟨σ', t', hx, h', hover⟩ := handover h he
    refine ⟨_, traced_exec hx, ⟨t', h'⟩, fun b => ?_⟩
    simp only [List.count_append]
    have := hover.balance b
    have := hcount b
    omega

/-- **A node lives as long as it is used.** In every reachable state a live
node's `refcount` is one if its range is held, plus the number of tasks
between `refcount++` and `refcount--` on it; a node is live exactly while
it is in use, and each call of `malloc` whose node is not live any more is
matched by one `free_node`. Whichever task runs next, no freed node is read
or written; and the node whose count it decrements is freed exactly if
nobody else is using it, when it is out of the tree. -/
theorem node_lifetime {τ : Traced} (h : tracedSystem.Reachable τ) :
    (∀ a n, τ.lock.mem.heap a = some n → n.data.refcount =
      (if ∃ p ∈ τ.lock.held, p.2.node = a then 1 else 0) + seatedAt τ.lock.waiters a) ∧
    (∀ a, τ.lock.Live a ↔ τ.lock.InUse a) ∧
    (∀ a, τ.mallocs.count a = τ.frees.count a + if τ.lock.Live a then 1 else 0) ∧
    ∀ act, tracedSystem.enabled τ act → (∃ τ', tracedSystem.exec τ act = some τ') ∧
      ∀ a m, act.gaveUp τ.lock = some (a, m) → τ.lock.Live a ∧
        (m.heap a = none ↔ ¬ act.OthersUse τ.lock a) ∧ (m.heap a = none → ¬ InTree m a) := by
  obtain ⟨⟨t, hinv⟩, hcount⟩ := tracedSystem_inductive.reachable h
  refine ⟨fun a n hn => ?_, fun a => hinv.live_iff, hcount, fun act he => ?_⟩
  · have href := (hinv.refs a n.data (by rw [Mem.data, hn, Option.map_some])).2
    rw [href]
    simp only [mem_ids_iff_held hinv]
  · obtain ⟨σ', -, hx, -, hover⟩ := handover hinv he
    exact ⟨⟨_, traced_exec hx⟩, hover.gaveUp⟩

/-- One task holds `[5, 10]` and gives it back; the task that waited for it
runs last, and frees the node. -/
theorem node_lifetime_last_waiter : ∃ τ, tracedSystem.Reachable τ ∧ τ.frees = [0] ∧
    ¬ τ.lock.Live 0 ∧ τ.lock.InUse 1 ∧ τ.mallocs.count 0 = 1 := by
  have hsteps : ∃ τ, tracedSystem.Steps ⟨.initial, [], []⟩
      [.lock 1 10 5 0, .lock 2 20 7 1, .unlock 1 ⟨5, 10, 0⟩, .resume 2 1] τ ∧ τ.frees = [0] ∧
      ¬ τ.lock.Live 0 ∧ τ.lock.Live 1 := by
    refine ⟨_, .cons ⟨fun w hw => ?_, rfl⟩ rfl (.cons ⟨fun w hw => ?_, rfl⟩ rfl
      (.cons ⟨fun w hw => ?_, .head _⟩ rfl
        (.cons ⟨_, .head _, rfl, rfl, fun m hm => ?_⟩ rfl .nil))), rfl, by decide, by decide⟩
    · cases hw
    · cases hw
    · obtain rfl := List.mem_singleton.1 hw
      decide
    · rw [← Option.some.inj hm]
      rfl
  obtain ⟨τ, hrun, hfrees, hnot, hlive⟩ := hsteps
  have hr : tracedSystem.Reachable τ := hrun.reachable (.init rfl)
  obtain ⟨-, huse, hcount, -⟩ := node_lifetime hr
  refine ⟨τ, hr, hfrees, hnot, (huse 1).1 hlive, ?_⟩
  rw [hcount, hfrees, if_neg hnot]
  rfl

end RangeLock

end VmwareProto
