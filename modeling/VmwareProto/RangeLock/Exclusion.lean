import VmwareProto.RangeLock.Entries
import Mathlib
/-!
# Range-lock exclusion

The invariant of `lockSystem`: the outstanding ranges are the entries of a
valid tree; a node's reference count is one for its range plus one for
each task suspended on it; and a task still asleep sits in the rendez of a
node that is in the tree and overlaps what the task asked for. Each of the
three stretches of code a task can run keeps it, and none of them can
fault under it.
-/

namespace VmwareProto

namespace RangeLock

open VmwareProto.Tree Ctx

/-- How many tasks are suspended on the node `a`. -/
def seatedAt (ws : List Waiter) (a : Addr) : ℕ := ws.countP (·.node == a)

/-- **The lock's invariant**, for the tree `t` its memory holds. -/
structure LockInv (σ : LockState) (t : Shape) : Prop where
  valid : Valid σ.mem t
  held : (σ.held.map Prod.snd).Perm (entries t)
  tasks : (σ.waiters.map Waiter.task).Nodup
  refs : ∀ a x, σ.mem.data a = some x →
    0 < x.refcount ∧ x.refcount = (if a ∈ t.ids then 1 else 0) + seatedAt σ.waiters a
  queue : ∀ a x, σ.mem.data a = some x → ∀ k, k ∈ x.rendez ↔
    ∃ w ∈ σ.waiters, w.task = k ∧ w.node = a ∧ w.woken = false
  alive : ∀ w ∈ σ.waiters, (σ.mem.data w.node).isSome
  asleep : ∀ w ∈ σ.waiters, w.woken = false →
    ∃ r ∈ entries t, r.node = w.node ∧ r.start ≤ max w.s w.e ∧ min w.s w.e ≤ r.stop

variable {σ : LockState} {t : Shape} {a : Addr} {k : TaskId} {w : Waiter}

/-! ## Waiters -/

theorem seatedAt_cons (w : Waiter) (ws : List Waiter) (a : Addr) :
    seatedAt (w :: ws) a = seatedAt ws a + if w.node = a then 1 else 0 := by
  simp [seatedAt, List.countP_cons]

/-- A task's one suspended call, and the others. -/
theorem perm_filter_task {ws : List Waiter} (hnd : (ws.map Waiter.task).Nodup) (hw : w ∈ ws) :
    ws.Perm (w :: ws.filter (·.task != w.task)) := by
  induction ws with
  | nil => simp at hw
  | cons v vs ih =>
      rw [List.map_cons, List.nodup_cons] at hnd
      rcases List.mem_cons.1 hw with rfl | hw
      · have : vs.filter (·.task != w.task) = vs := List.filter_eq_self.2 fun u hu => by
          have : u.task ≠ w.task := fun e => hnd.1 (e ▸ List.mem_map_of_mem hu)
          simpa using this
        simp [this]
      · have hne : v.task ≠ w.task := fun e => hnd.1 (e ▸ List.mem_map_of_mem hw)
        rw [List.filter_cons_of_pos (by simpa using hne)]
        exact ((ih hnd.2 hw).cons v).trans (List.Perm.swap _ _ _)

theorem find_eq {ws : List Waiter} (hnd : (ws.map Waiter.task).Nodup) (hw : w ∈ ws) :
    ws.find? (·.task == w.task) = some w := by
  induction ws with
  | nil => simp at hw
  | cons v vs ih =>
      rw [List.map_cons, List.nodup_cons] at hnd
      rcases List.mem_cons.1 hw with rfl | hw
      · simp
      · have hne : v.task ≠ w.task := fun e => hnd.1 (e ▸ List.mem_map_of_mem hw)
        rw [List.find?_cons_of_neg (by simpa using hne)]
        exact ih hnd.2 hw

/-! ## The loop of `range_lock` -/

/-- **One pass of `range_lock`'s loop** by a task not suspended in the
lock: it goes to sleep on an overlapping node of the tree, or it gets the
range it asked for, sorted, on a new node. -/
theorem rangeLockLoop_spec (h : LockInv σ t) (hk : ∀ w ∈ σ.waiters, w.task ≠ k) (s e : ℕ)
    (ha : σ.mem.heap a = none) :
    ∃ r t', rangeLockLoop σ.mem k s e a = some r ∧ LockInv (σ.settle k s e r) t' ∧
      ∀ m' g, r = (m', .locked g) → g = ⟨min s e, max s e, a⟩ := by
  obtain ⟨r, hrun, hsome, hnone⟩ := rbSearch_spec h.valid s e
  cases r with
  | some n =>
      obtain ⟨x, hx, hmeet⟩ := hsome n rfl
      have hn : n ∈ t.ids := List.mem_map.2 ⟨_, hx, rfl⟩
      have hdata := data_of_mem h.valid.models hx
      obtain ⟨m', t', hmod, hv', hent, hself, hrest⟩ :=
        setData_spec (f := NodeData.enqueue k) h.valid hdata rfl rfl
      have hids : t'.ids = t.ids := by rw [ids_eq_entries, ids_eq_entries, hent]
      refine ⟨(m', .asleep n), t', ?_, ⟨hv', ?_, ?_, ?_, ?_, ?_, ?_⟩, by simp⟩
      · simp [rangeLockLoop, hrun, hmod]
      · rw [hent]; exact h.held
      · refine List.nodup_cons.2 ⟨fun hm => ?_, h.tasks⟩
        obtain ⟨w, hw, hwk⟩ := List.mem_map.1 hm
        exact hk w hw hwk
      · intro b y hy
        simp only [LockState.settle, seatedAt_cons, hids] at hy ⊢
        by_cases hb : b = n
        · subst hb
          rw [hself] at hy
          have := h.refs b x hdata
          rw [← Option.some.inj hy]
          simp only [NodeData.enqueue, reduceIte, if_pos hn] at this ⊢
          push_cast
          omega
        · rw [hrest b hb] at hy
          have := h.refs b y hy
          rw [if_neg (Ne.symm hb)]
          exact this
      · intro b y hy k'
        simp only [LockState.settle] at hy ⊢
        by_cases hb : b = n
        · subst hb
          rw [hself] at hy
          rw [← Option.some.inj hy]
          have := h.queue b x hdata k'
          simp only [NodeData.enqueue, List.mem_append, List.mem_cons, List.not_mem_nil, or_false,
            this, or_and_right, exists_or, exists_eq_left, and_true]
          rw [or_comm, eq_comm]
        · rw [hrest b hb] at hy
          rw [h.queue b y hy k']
          grind
      · intro w hw
        rcases List.mem_cons.1 hw with rfl | hw
        · simp [LockState.settle, hself]
        · by_cases hb : w.node = n
          · simp [LockState.settle, hb, hself]
          · simp only [LockState.settle, hrest _ hb]
            exact h.alive w hw
      · intro w hw hwake
        rw [hent]
        rcases List.mem_cons.1 hw with rfl | hw
        · exact ⟨⟨x.start, x.stop, n⟩, List.mem_map.2 ⟨_, hx, rfl⟩, rfl, hmeet⟩
        · exact h.asleep w hw hwake
  | none =>
      obtain ⟨m₁, t₁, hins, hv₁, hent₁, hself₁, hrest₁⟩ := rbInsert_data h.valid ha (hnone rfl)
      obtain ⟨m₂, t₂, hmod, hv₂, hent₂, hself₂, hrest₂⟩ :=
        setData_spec (f := NodeData.claim) hv₁ hself₁ rfl rfl
      have hent : (entries t₂).Perm (⟨min s e, max s e, a⟩ :: entries t) := hent₂ ▸ hent₁
      have hids : ∀ b, b ∈ t₂.ids ↔ b = a ∨ b ∈ t.ids := fun b => by
        rw [ids_eq_entries, (hent.map _).mem_iff, List.map_cons, List.mem_cons, ← ids_eq_entries]
      have hdata : ∀ b, b ≠ a → m₂.data b = σ.mem.data b := fun b hb => by
        rw [hrest₂ b hb, hrest₁ b hb]
      have hnone' : σ.mem.data a = none := by simp [Mem.data, ha]
      -- nobody can be suspended on memory that was free
      have hfree : ∀ w ∈ σ.waiters, w.node ≠ a := fun w hw e => by
        have := h.alive w hw
        rw [e, hnone'] at this
        simp at this
      have hseat : seatedAt σ.waiters a = 0 := by
        rw [seatedAt, List.countP_eq_zero]
        intro w hw
        simpa using hfree w hw
      obtain ⟨n, hn, hnd⟩ := Option.map_eq_some_iff.1 hself₂
      refine ⟨(m₂, .locked ⟨min s e, max s e, a⟩), t₂, ?_, ⟨hv₂, ?_, h.tasks, ?_, ?_, ?_, ?_⟩, ?_⟩
      · simp [rangeLockLoop, hrun, hins, hmod, hn, hnd]
      · exact (h.held.cons _).trans hent.symm
      · intro b y hy
        simp only [LockState.settle, hids] at hy ⊢
        by_cases hb : b = a
        · subst hb
          rw [hself₂] at hy
          rw [← Option.some.inj hy]
          simp [NodeData.claim, hseat]
        · rw [hdata b hb] at hy
          simpa [hb] using h.refs b y hy
      · intro b y hy k'
        simp only [LockState.settle] at hy ⊢
        by_cases hb : b = a
        · subst hb
          rw [hself₂] at hy
          rw [← Option.some.inj hy]
          simp only [NodeData.claim, List.not_mem_nil, false_iff]
          rintro ⟨w, hw, -, hwb, -⟩
          exact hfree w hw hwb
        · rw [hdata b hb] at hy
          exact h.queue b y hy k'
      · intro w hw
        simp only [LockState.settle, hdata _ (hfree w hw)]
        exact h.alive w hw
      · intro w hw hwake
        obtain ⟨r, hr, hrw⟩ := h.asleep w hw hwake
        exact ⟨r, hent.mem_iff.2 (List.mem_cons_of_mem _ hr), hrw⟩
      · intro m' g hg
        simpa using (congrArg Prod.snd hg).symm

/-! ## After the sleep -/

/-- **The rest of the loop's body**: the task gives up its reference, and
frees the node if it was the last to hold one. -/
theorem rangeLockWoken_spec (h : LockInv σ t) (hw : w ∈ σ.waiters) (hwoken : w.woken = true) :
    ∃ m t', rangeLockWoken σ.mem w.node = some m ∧
      LockInv { σ with mem := m, waiters := σ.waiters.filter (·.task != w.task) } t' := by
  set ws := σ.waiters.filter (·.task != w.task) with hws
  have hperm : σ.waiters.Perm (w :: ws) := perm_filter_task h.tasks hw
  have hsub : ∀ v ∈ ws, v ∈ σ.waiters := fun v hv => (List.mem_filter.1 hv).1
  have hseat : ∀ b, seatedAt σ.waiters b = seatedAt ws b + if w.node = b then 1 else 0 := fun b => by
    rw [← seatedAt_cons]
    exact hperm.countP_eq _
  have htasks : (ws.map Waiter.task).Nodup := h.tasks.sublist (List.filter_sublist.map _)
  -- asleep tasks other than the one that runs are still where they were
  have hqueue : ∀ b j, (∃ v ∈ ws, v.task = j ∧ v.node = b ∧ v.woken = false) ↔
      ∃ v ∈ σ.waiters, v.task = j ∧ v.node = b ∧ v.woken = false := fun b j => by
    constructor
    · rintro ⟨v, hv, hrest⟩
      exact ⟨v, hsub v hv, hrest⟩
    · rintro ⟨v, hv, hj, hb, hs⟩
      refine ⟨v, ?_, hj, hb, hs⟩
      rcases List.mem_cons.1 (hperm.mem_iff.1 hv) with rfl | hv
      · rw [hwoken] at hs; cases hs
      · exact hv
  obtain ⟨x, hx⟩ := Option.isSome_iff_exists.1 (h.alive w hw)
  obtain ⟨m₁, t₁, hmod, hv₁, hent, hself, hrest⟩ :=
    setData_spec (f := NodeData.release) h.valid hx rfl rfl
  have hids : t₁.ids = t.ids := by rw [ids_eq_entries, ids_eq_entries, hent]
  have hx' := h.refs _ x hx
  have hwseat := hseat w.node
  rw [if_pos rfl] at hwseat
  obtain ⟨n, hn, hnd⟩ := Option.map_eq_some_iff.1 hself
  have hrefn : n.data.refcount = x.refcount - 1 := by rw [hnd]; rfl
  by_cases hzero : x.refcount - 1 = 0
  · -- the last reference: the node is out of the tree and nobody is left on it
    have hnt : w.node ∉ t.ids := fun hin => by
      rw [if_pos hin] at hx'
      omega
    have hnone : seatedAt ws w.node = 0 := by
      rw [if_neg hnt] at hx'
      omega
    obtain ⟨hvf, hfself, hfrest⟩ := free_data hv₁ (by rw [hids]; exact hnt)
    have hdata : ∀ b, b ≠ w.node → (m₁.free w.node).data b = σ.mem.data b := fun b hb => by
      rw [hfrest b hb, hrest b hb]
    have hne : ∀ v ∈ ws, v.node ≠ w.node := fun v hv e => by
      rw [seatedAt, List.countP_eq_zero] at hnone
      exact hnone v hv (by simpa using e)
    refine ⟨m₁.free w.node, t₁, ?_, hvf, ?_, htasks, ?_, ?_, ?_, ?_⟩
    · simp [rangeLockWoken, freeIfUnused, hmod, hn, hrefn, hzero]
    · rw [hent]; exact h.held
    · intro b y hy
      have hb : b ≠ w.node := by rintro rfl; rw [hfself] at hy; cases hy
      rw [hdata b hb] at hy
      have := h.refs b y hy
      rw [hseat, if_neg (Ne.symm hb)] at this
      rw [hids]
      exact this
    · intro b y hy j
      have hb : b ≠ w.node := by rintro rfl; rw [hfself] at hy; cases hy
      rw [hdata b hb] at hy
      rw [hqueue]
      exact h.queue b y hy j
    · intro v hv
      rw [hdata _ (hne v hv)]
      exact h.alive v (hsub v hv)
    · intro v hv hs
      rw [hent]
      exact h.asleep v (hsub v hv) hs
  · refine ⟨m₁, t₁, ?_, hv₁, ?_, htasks, ?_, ?_, ?_, ?_⟩
    · simp [rangeLockWoken, freeIfUnused, hmod, hn, hrefn, hzero]
    · rw [hent]; exact h.held
    · intro b y hy
      rw [hids]
      by_cases hb : b = w.node
      · subst hb
        rw [hself] at hy
        rw [← Option.some.inj hy]
        simp only [NodeData.release]
        omega
      · rw [hrest b hb] at hy
        have := h.refs b y hy
        rw [hseat, if_neg (Ne.symm hb)] at this
        exact this
    · intro b y hy j
      rw [hqueue]
      by_cases hb : b = w.node
      · subst hb
        rw [hself] at hy
        rw [← Option.some.inj hy]
        exact h.queue _ x hx j
      · rw [hrest b hb] at hy
        exact h.queue b y hy j
    · intro v hv
      by_cases hb : v.node = w.node
      · rw [hb]; simp [hself]
      · rw [hrest _ hb]
        exact h.alive v (hsub v hv)
    · intro v hv hs
      rw [hent]
      exact h.asleep v (hsub v hv) hs

/-! ## `range_unlock` -/

theorem wake_map (ts : List TaskId) (ws : List Waiter) :
    (LockState.wake ts ws).map Waiter.task = ws.map Waiter.task := by
  rw [LockState.wake, List.map_map]
  refine List.map_congr_left fun w _ => ?_
  simp only [Function.comp]
  split <;> rfl

theorem seatedAt_wake (ts : List TaskId) (ws : List Waiter) (a : Addr) :
    seatedAt (LockState.wake ts ws) a = seatedAt ws a := by
  rw [seatedAt, seatedAt, LockState.wake, List.countP_map]
  refine List.countP_congr fun w _ => ?_
  simp only [Function.comp]
  split <;> rfl

/-- A task still asleep after a wakeup was not among those woken. -/
theorem mem_wake {ts : List TaskId} {ws : List Waiter} {v : Waiter}
    (hv : v ∈ LockState.wake ts ws) :
    ∃ w ∈ ws, v.task = w.task ∧ v.node = w.node ∧ v.s = w.s ∧ v.e = w.e ∧
      (v.woken = false → v = w ∧ w.task ∉ ts) := by
  obtain ⟨w, hw, rfl⟩ := List.mem_map.1 hv
  refine ⟨w, hw, ?_⟩
  split
  · exact ⟨rfl, rfl, rfl, rfl, by simp⟩
  · rename_i hnot
    exact ⟨rfl, rfl, rfl, rfl, fun _ => ⟨rfl, hnot⟩⟩

theorem mem_wake_of_not {ts : List TaskId} {ws : List Waiter} (hw : w ∈ ws) (hnot : w.task ∉ ts) :
    w ∈ LockState.wake ts ws :=
  List.mem_map.2 ⟨w, hw, by rw [if_neg hnot]⟩

theorem eq_of_task {ws : List Waiter} {v : Waiter} (hnd : (ws.map Waiter.task).Nodup)
    (hv : v ∈ ws) (hw : w ∈ ws) (h : v.task = w.task) : v = w :=
  List.inj_on_of_nodup_map hnd hv hw h

/-- **What `range_unlock` does**: it takes the range's node out of the
tree, frees it if no task is suspended on it, and wakes those that are. -/
theorem rangeUnlock_run {g : Range} (h : LockInv σ t) (hg : g ∈ entries t) :
    ∃ m t' ts, rangeUnlock σ.mem g = some (m, ts) ∧ Valid m t' ∧
      (entries t).Perm (g :: entries t') ∧ (∀ b, b ≠ g.node → m.data b = σ.mem.data b) ∧
      (∀ y, m.data g.node = some y →
        0 < y.refcount ∧ y.refcount = seatedAt σ.waiters g.node ∧ y.rendez = []) ∧
      (m.data g.node = none → seatedAt σ.waiters g.node = 0) ∧
      (∀ w ∈ σ.waiters, w.node = g.node → w.woken = false → w.task ∈ ts) ∧
      ∀ j ∈ ts, ∃ w ∈ σ.waiters, w.task = j ∧ w.node = g.node := by
  have hgt : g.node ∈ t.ids := mem_ids_iff_entries.2 ⟨g, hg, rfl⟩
  obtain ⟨x, hx⟩ := mem_toList_of_mem_ids hgt
  have hxd := data_of_mem h.valid.models hx
  have href := h.refs _ x hxd
  rw [if_pos hgt] at href
  obtain ⟨m₁, t₁, hdel, hv₁, hent₁, hgt₁, hdata₁⟩ := rbDelete_data h.valid hg
  obtain ⟨m₂, t₂, hmod₂, hv₂, hent₂, hself₂, hrest₂⟩ :=
    setData_spec (f := NodeData.release) hv₁ ((hdata₁ _).trans hxd) rfl rfl
  have hgt₂ : g.node ∉ t₂.ids := by rwa [ids_eq_entries, hent₂, ← ids_eq_entries]
  obtain ⟨n, hn, hnd⟩ := Option.map_eq_some_iff.1 hself₂
  have hrefn : n.data.refcount = x.refcount - 1 := by rw [hnd]; rfl
  have hrez : n.data.rendez = x.rendez := by rw [hnd]; rfl
  by_cases hzero : x.refcount - 1 = 0
  · have hseat : seatedAt σ.waiters g.node = 0 := by omega
    obtain ⟨hvf, hfself, hfrest⟩ := free_data hv₂ hgt₂
    refine ⟨m₂.free g.node, t₂, [], ?_, hvf, hent₂ ▸ hent₁, ?_, ?_, fun _ => hseat, ?_, by simp⟩
    · simp [rangeUnlock, freeIfUnused, hdel, hmod₂, hn, hrefn, hzero]
    · intro b hb
      rw [hfrest b hb, hrest₂ b hb, hdata₁]
    · intro y hy
      rw [hfself] at hy
      cases hy
    · intro v hv hvn
      rw [seatedAt, List.countP_eq_zero] at hseat
      exact absurd (by simpa using hvn) (hseat v hv)
  · obtain ⟨m₃, t₃, hmod₃, hv₃, hent₃, hself₃, hrest₃⟩ :=
      setData_spec (f := NodeData.wakeAll) hv₂ hself₂ rfl rfl
    refine ⟨m₃, t₃, x.rendez, ?_, hv₃, (hent₃.trans hent₂) ▸ hent₁, ?_, ?_, ?_, ?_, ?_⟩
    · simp [rangeUnlock, freeIfUnused, hdel, hmod₂, hn, hrefn, hzero, hmod₃, hrez]
    · intro b hb
      rw [hrest₃ b hb, hrest₂ b hb, hdata₁]
    · intro y hy
      rw [hself₃] at hy
      rw [← Option.some.inj hy]
      simp only [NodeData.wakeAll, NodeData.release, and_true]
      omega
    · intro hnone
      rw [hself₃] at hnone
      cases hnone
    · intro v hv hvn hvs
      exact (h.queue _ x hxd v.task).2 ⟨v, hv, rfl, hvn, hvs⟩
    · intro j hj
      obtain ⟨v, hv, hvj, hvn, -⟩ := (h.queue _ x hxd j).1 hj
      exact ⟨v, hv, hvj, hvn⟩

/-- **`range_unlock` keeps the invariant.** -/
theorem rangeUnlock_spec {g : Range} (h : LockInv σ t) (hg : (k, g) ∈ σ.held) :
    ∃ m ts t', rangeUnlock σ.mem g = some (m, ts) ∧
      LockInv ⟨m, LockState.wake ts σ.waiters, σ.held.erase (k, g)⟩ t' := by
  have hge : g ∈ entries t := h.held.mem_iff.1 (List.mem_map.2 ⟨_, hg, rfl⟩)
  obtain ⟨m, t', ts, hrun, hv, hent, hdata, href, hnone, hwoken, hts⟩ := rangeUnlock_run h hge
  have hids : ∀ b, b ∈ t.ids ↔ b = g.node ∨ b ∈ t'.ids := fun b => by
    rw [ids_eq_entries, (hent.map _).mem_iff, List.map_cons, List.mem_cons, ← ids_eq_entries]
  have hgt : g.node ∉ t'.ids := by
    have hnd := h.valid.models.nodup
    rw [ids_eq_entries, (hent.map _).nodup_iff, List.map_cons, List.nodup_cons,
      ← ids_eq_entries] at hnd
    exact hnd.1
  refine ⟨m, ts, t', hrun, hv, ?_, ?_, ?_, ?_, ?_, ?_⟩
  · have hcons := ((List.perm_cons_erase hg).map Prod.snd).symm.trans (h.held.trans hent)
    rw [List.map_cons] at hcons
    exact hcons.cons_inv
  · rw [wake_map]
    exact h.tasks
  · intro b y hy
    rw [seatedAt_wake]
    by_cases hb : b = g.node
    · subst hb
      rw [if_neg hgt]
      obtain ⟨hpos, hseat, -⟩ := href y hy
      exact ⟨hpos, by omega⟩
    · rw [hdata b hb] at hy
      simpa [hids, hb] using h.refs b y hy
  · intro b y hy j
    by_cases hb : b = g.node
    · -- everybody was woken
      subst hb
      rw [(href y hy).2.2]
      refine iff_of_false List.not_mem_nil ?_
      rintro ⟨v, hv', -, hvb, hvs⟩
      obtain ⟨w, hw, -, -, -, -, hsleep⟩ := mem_wake hv'
      obtain ⟨rfl, hnot⟩ := hsleep hvs
      exact hnot (hwoken v hw hvb hvs)
    rw [hdata b hb] at hy
    rw [h.queue b y hy j]
    constructor
    · rintro ⟨w, hw, hwj, hwb, hws⟩
      refine ⟨w, mem_wake_of_not hw fun hin => hb ?_, hwj, hwb, hws⟩
      obtain ⟨u, hu, huj, hun⟩ := hts _ hin
      rw [← hun, eq_of_task h.tasks hu hw huj, hwb]
    · rintro ⟨v, hv', hvj, hvb, hvs⟩
      obtain ⟨w, hw, -, -, -, -, hsleep⟩ := mem_wake hv'
      obtain ⟨rfl, -⟩ := hsleep hvs
      exact ⟨v, hw, hvj, hvb, hvs⟩
  · intro v hv'
    obtain ⟨w, hw, -, hvn, -⟩ := mem_wake hv'
    rw [hvn]
    by_cases hb : w.node = g.node
    · rw [hb]
      by_contra hcon
      have hseat := hnone (by simpa using hcon)
      rw [seatedAt, List.countP_eq_zero] at hseat
      exact hseat w hw (by simpa using hb)
    · rw [hdata _ hb]
      exact h.alive w hw
  · intro v hv' hvs
    obtain ⟨w, hw, -, -, -, -, hsleep⟩ := mem_wake hv'
    obtain ⟨rfl, hnot⟩ := hsleep hvs
    obtain ⟨r, hr, hrn, hmeet⟩ := h.asleep v hw hvs
    refine ⟨r, ?_, hrn, hmeet⟩
    rcases List.mem_cons.1 (hent.mem_iff.1 hr) with rfl | hr
    · exact absurd (hwoken v hw hrn.symm hvs) hnot
    · exact hr

/-! ## Runs -/

theorem lockSystem_inductive : lockSystem.Inductive fun σ => ∃ t, LockInv σ t where
  init σ hσ := by
    refine ⟨.nil, ?_⟩
    rw [show σ = LockState.initial from hσ]
    exact ⟨valid_empty, .refl _, List.nodup_nil, fun _ _ hx => (Option.some_ne_none _ hx.symm).elim,
      fun _ _ hx => (Option.some_ne_none _ hx.symm).elim, fun _ hw => (List.not_mem_nil hw).elim,
      fun _ hw => (List.not_mem_nil hw).elim⟩
  step σ act := by
    rintro ⟨t, h⟩ he
    cases act with
    | lock k s e a =>
        obtain ⟨r, t', hrun, h', -⟩ := rangeLockLoop_spec h he.1 s e he.2
        exact ⟨_, by simp [lockSystem, LockAction.exec, hrun], t', h'⟩
    | resume k a =>
        obtain ⟨w, hw, rfl, hwoken, hfresh⟩ := he
        obtain ⟨m, t₁, hrun₁, h₁⟩ := rangeLockWoken_spec h hw hwoken
        obtain ⟨r, t', hrun, h', -⟩ := rangeLockLoop_spec h₁ (k := w.task)
          (fun v hv => by simpa using (List.mem_filter.1 hv).2) w.s w.e (hfresh m hrun₁)
        refine ⟨_, ?_, t', h'⟩
        have hfind : σ.find w.task = some w := find_eq h.tasks hw
        simp only [lockSystem, LockAction.exec, hfind, hrun₁, Option.bind_eq_bind,
          Option.bind_some, show rangeLockLoop m w.task w.s w.e a = some r from hrun]
        rfl
    | unlock k g =>
        obtain ⟨m, ts, t', hrun, h'⟩ := rangeUnlock_spec h he.2
        exact ⟨_, by simp [lockSystem, LockAction.exec, hrun], t', h'⟩

/-- Entries of a valid tree are disjoint. -/
theorem Valid.entries_disjoint {m : Mem} (hv : Valid m t) :
    (entries t).Pairwise fun r r' => Disjoint (Set.Icc r.start r.stop) (Set.Icc r'.start r'.stop) := by
  rw [entries, List.pairwise_map]
  refine ((ordered_iff t).1 hv.ordered).apart.imp fun {y z} hyz => ?_
  rw [Set.disjoint_left]
  intro p hp hp'
  simp only [Set.mem_Icc] at hp hp'
  omega

/-- A node is in the tree exactly if its range is outstanding. -/
theorem LockInv.inTree_iff (h : LockInv σ t) : InTree σ.mem a ↔ ∃ p ∈ σ.held, p.2.node = a := by
  rw [h.valid.models.inTree_iff, mem_ids_iff_entries]
  constructor
  · rintro ⟨r, hr, rfl⟩
    obtain ⟨p, hp, rfl⟩ := List.mem_map.1 (h.held.mem_iff.2 hr)
    exact ⟨p, hp, rfl⟩
  · rintro ⟨p, hp, rfl⟩
    exact ⟨p.2, h.held.mem_iff.1 (List.mem_map.2 ⟨p, hp, rfl⟩), rfl⟩

/-- **Range-lock exclusion.** In every reachable state two outstanding
ranges are disjoint closed intervals; the nodes in the tree are exactly
the nodes of the outstanding ranges, one each and storing their bounds;
`root.count` counts them; and whichever task runs next, no assertion fails
and no freed memory is touched. -/
theorem rangeLock_exclusion (h : lockSystem.Reachable σ) :
    (σ.held.Pairwise fun p p' =>
      Disjoint (Set.Icc p.2.start p.2.stop) (Set.Icc p'.2.start p'.2.stop)) ∧
    (∀ p ∈ σ.held, p.2.start ≤ p.2.stop) ∧
    (∀ a, InTree σ.mem a ↔ ∃ p ∈ σ.held, p.2.node = a) ∧
    (σ.held.map (·.2.node)).Nodup ∧
    (∀ p ∈ σ.held, ∃ n, σ.mem.heap p.2.node = some n ∧
      n.data.start = p.2.start ∧ n.data.stop = p.2.stop) ∧
    σ.mem.count = σ.held.length ∧
    ∀ act, lockSystem.enabled σ act → ∃ σ', lockSystem.exec σ act = some σ' := by
  obtain ⟨t, hinv⟩ := lockSystem_inductive.reachable h
  have hmem : ∀ p ∈ σ.held, p.2 ∈ entries t := fun p hp =>
    hinv.held.mem_iff.1 (List.mem_map.2 ⟨p, hp, rfl⟩)
  refine ⟨?_, ?_, ?_, ?_, ?_, ?_, fun _ he => lockSystem_inductive.no_fault h he⟩
  · have hp := (hinv.held.pairwise_iff fun {_ _} hd => hd.symm).2 hinv.valid.entries_disjoint
    rwa [List.pairwise_map] at hp
  · intro p hp
    obtain ⟨y, hy, he⟩ := List.mem_map.1 (hmem p hp)
    have := ((ordered_iff t).1 hinv.valid.ordered).proper y hy
    rw [← he]
    exact this
  · exact fun a => hinv.inTree_iff
  · have hnd := hinv.valid.models.nodup
    rw [ids_eq_entries, ← (hinv.held.map Range.node).nodup_iff, List.map_map] at hnd
    exact hnd
  · intro p hp
    obtain ⟨y, hy, he⟩ := List.mem_map.1 (hmem p hp)
    obtain ⟨n, hn, hnd⟩ := Option.map_eq_some_iff.1 (data_of_mem hinv.valid.models hy)
    rw [← he]
    exact ⟨n, hn, by rw [hnd], by rw [hnd]⟩
  · have hlen := hinv.held.length_eq
    rw [List.length_map] at hlen
    rw [hinv.valid.count, hlen, entries, List.length_map]
    rfl

/-- One task holds `[5, 10]`, another sleeps waiting for `[7, 20]`. -/
theorem rangeLock_exclusion_contended :
    ∃ σ, lockSystem.Steps LockState.initial [.lock 1 10 5 0, .lock 2 7 20 1] σ ∧
      σ.held = [(1, ⟨5, 10, 0⟩)] ∧ σ.waiters = [⟨2, 7, 20, 0, false⟩] ∧
      (σ.held.map (·.2.node)).Nodup ∧ σ.mem.count = σ.held.length := by
  have hsteps : ∃ σ, lockSystem.Steps LockState.initial [.lock 1 10 5 0, .lock 2 7 20 1] σ ∧
      σ.held = [(1, ⟨5, 10, 0⟩)] ∧ σ.waiters = [⟨2, 7, 20, 0, false⟩] := by
    refine ⟨_, .cons ⟨fun w hw => ?_, rfl⟩ rfl (.cons ⟨fun w hw => ?_, rfl⟩ rfl .nil), rfl, rfl⟩
    · cases hw
    · cases hw
  obtain ⟨σ, hrun, hheld, hwait⟩ := hsteps
  obtain ⟨-, -, -, hnd, -, hcount, -⟩ := rangeLock_exclusion (hrun.reachable (.init rfl))
  exact ⟨σ, hrun, hheld, hwait, hnd, hcount⟩

end RangeLock

end VmwareProto
