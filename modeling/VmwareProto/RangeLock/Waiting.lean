import VmwareProto.RangeLock.Exclusion
/-!
# Waiting on a held range

Where a task asleep in `range_lock` is: in the rendez queue of one node,
which is in the tree and overlaps what the task asked for. It was put there
by the search that found the node, and whatever happens to the tree in
between, the node cannot leave it without waking everybody in its queue.
-/

namespace VmwareProto

namespace RangeLock

open VmwareProto.Tree Ctx

variable {σ : LockState} {t : Shape} {a : Addr} {k : TaskId} {w : Waiter}

/-- Task `k` is in `rendez.waiting` of the node `a`. -/
def Queued (m : Mem) (k : TaskId) (a : Addr) : Prop := ∃ n, m.heap a = some n ∧ k ∈ n.data.rendez

/-- The range of a suspended call, and a range somebody holds, have a
point in common. -/
def Overlaps (r : Range) (w : Waiter) : Prop :=
  ¬ Disjoint (Set.Icc r.start r.stop) (Set.Icc (min w.s w.e) (max w.s w.e))

theorem overlaps_of_meets {r : Range} (hr : r.start ≤ r.stop) (h : r.start ≤ max w.s w.e)
    (h' : min w.s w.e ≤ r.stop) : Overlaps r w := by
  rw [Overlaps, Set.not_disjoint_iff]
  refine ⟨max r.start (min w.s w.e), ?_, ?_⟩ <;> simp only [Set.mem_Icc]
  · omega
  · omega

/-- **One queue**: a task asleep is in that of the node it called
`tasksleep` on, and in no other. -/
theorem LockInv.queued_iff (h : LockInv σ t) (hw : w ∈ σ.waiters) (hs : w.woken = false) :
    Queued σ.mem w.task a ↔ a = w.node := by
  constructor
  · rintro ⟨n, hn, hk⟩
    have hd : σ.mem.data a = some n.data := by rw [Mem.data, hn, Option.map_some]
    obtain ⟨v, hv, hvt, hva, -⟩ := (h.queue a _ hd w.task).1 hk
    rw [← hva, eq_of_task h.tasks hv hw hvt]
  · rintro rfl
    obtain ⟨x, hx⟩ := Option.isSome_iff_exists.1 (h.alive w hw)
    obtain ⟨n, hn, rfl⟩ := Option.map_eq_some_iff.1 hx
    exact ⟨n, hn, (h.queue _ _ hx w.task).2 ⟨w, hw, rfl, rfl, hs⟩⟩

/-- The node a task is asleep on is held, over a range that overlaps. -/
theorem LockInv.asleep_held (h : LockInv σ t) (hw : w ∈ σ.waiters) (hs : w.woken = false) :
    ∃ p ∈ σ.held, p.2.node = w.node ∧ Overlaps p.2 w := by
  obtain ⟨r, hr, hn, hmeet⟩ := h.asleep w hw hs
  obtain ⟨p, hp, rfl⟩ := List.mem_map.1 (h.held.mem_iff.2 hr)
  obtain ⟨y, hy, he⟩ := List.mem_map.1 hr
  have hle : p.2.start ≤ p.2.stop := by
    rw [← he]
    exact ((ordered_iff t).1 h.valid.ordered).proper y hy
  exact ⟨p, hp, hn, overlaps_of_meets hle hmeet.1 hmeet.2⟩

/-- **No task sleeps on an unlocked range.** In every reachable state a
task asleep in `range_lock` is in the rendez queue of exactly one node;
the node is in the tree, its range is held, and overlaps what the task
asked for. So a task of whose range nothing is held any more, after a
`range_unlock` or at any other time, is awake. -/
theorem asleep_on_held (h : lockSystem.Reachable σ) :
    (∀ w ∈ σ.waiters, w.woken = false →
      (∃! a, Queued σ.mem w.task a) ∧ ∀ a, Queued σ.mem w.task a → InTree σ.mem a ∧
        ∃ p ∈ σ.held, p.2.node = a ∧ Overlaps p.2 w) ∧
    ∀ w ∈ σ.waiters, (∀ p ∈ σ.held, ¬ Overlaps p.2 w) → w.woken = true := by
  obtain ⟨t, hinv⟩ := lockSystem_inductive.reachable h
  refine ⟨fun w hw hs => ⟨⟨w.node, (hinv.queued_iff hw hs).2 rfl,
    fun a ha => (hinv.queued_iff hw hs).1 ha⟩, fun a ha => ?_⟩, fun w hw hfree => ?_⟩
  · obtain ⟨p, hp, hn, hover⟩ := hinv.asleep_held hw hs
    have hpa : p.2.node = a := hn.trans ((hinv.queued_iff hw hs).1 ha).symm
    exact ⟨hinv.inTree_iff.2 ⟨p, hp, hpa⟩, p, hp, hpa, hover⟩
  · by_contra hs
    obtain ⟨p, hp, -, hover⟩ := hinv.asleep_held hw (by simpa using hs)
    exact hfree p hp hover

/-- One task holds `[5, 10]`; another asked for `[20, 7]` and sleeps on its
node. -/
theorem asleep_on_held_contended :
    ∃ σ, lockSystem.Steps LockState.initial [.lock 1 10 5 0, .lock 2 20 7 1] σ ∧
      (∃! a, Queued σ.mem 2 a) ∧ ∀ a, Queued σ.mem 2 a → InTree σ.mem a := by
  have hsteps : ∃ σ, lockSystem.Steps LockState.initial [.lock 1 10 5 0, .lock 2 20 7 1] σ ∧
      σ.waiters = [⟨2, 20, 7, 0, false⟩] := by
    refine ⟨_, .cons ⟨fun w hw => ?_, rfl⟩ rfl (.cons ⟨fun w hw => ?_, rfl⟩ rfl .nil), rfl⟩
    · cases hw
    · cases hw
  obtain ⟨σ, hrun, hwait⟩ := hsteps
  obtain ⟨hone, hall⟩ := (asleep_on_held (hrun.reachable (.init rfl))).1 ⟨2, 20, 7, 0, false⟩
    (by rw [hwait]; exact List.mem_singleton_self _) rfl
  exact ⟨σ, hrun, hone, fun a ha => (hall a ha).1⟩

end RangeLock

end VmwareProto
