import VmwareProto.Libtask.Chanalt
import VmwareProto.Library.System
/-!
# Tasks on channels

Any number of tasks of a thread, and the channels between them. What waits
in the queues are the alternatives of the sleeping tasks, and none of them
could be executed; what is received is what was sent, in this order; and a
call of `chanalt` uses one of its alternatives, that which it returns.
-/

namespace VmwareProto

namespace Libtask

namespace Chan

open Cooperative

/-- A thread. -/
def chanSystem : System State Action where
  init := State.Initial
  enabled := Action.Enabled
  exec := Action.exec

namespace State

variable (σ : State)

/-- Task `t` sleeps in `chanalt`. -/
def Asleep (t : TaskId) : Prop := σ.tasks.Asleep t ()

/-- What was moved, in this order. -/
def moves : List Deal := σ.deals.map Prod.snd

/-- What was moved in the `k`th call of task `t`. -/
def dealsOf (t : TaskId) (k : ℕ) : List Deal :=
  (σ.deals.filter fun x => x.1 = k ∧ x.2.alt.task = t).map Prod.snd

end State

/-- **A call is accounted for**: it failed and moved nothing, or has used
the alternative that it returned, and no other. -/
def Returned.Accounts (x : Returned) (ds : List Deal) : Prop :=
  match x.ret with
  | none => ds = []
  | some i => ∃ d, ds = [d] ∧ d.alt.i = i ∧ Matches x.alts d

variable {σ σ' : State} {act : Action} {C : Channel} {H : Heap} {p q : AltPtr} {a x y : Alt}
  {as : List Alt} {c : ChanId} {S : TaskId → Prop} {t u : TaskId} {ds : List Deal} {k : ℕ}
  {ready : Option TaskId} {d : Deal} {r r' : ℕ} {canblock : Bool}

/-- **The invariant.** -/
structure State.Ok (σ : State) : Prop where
  heap : σ.heap.Ok σ.Asleep
  tasks : σ.tasks.Ok
  fifo : ∀ c C, σ.heap.chan c = some C →
    receivedOn c σ.moves ++ C.contents = sentOn c σ.moves
  size : ∀ d ∈ σ.moves, ∃ C, σ.heap.chan d.c = some C ∧ d.val.length = C.elemsize
  done : ∀ t k (x : Returned), (σ.calls t)[k]? = some x → x.Accounts (σ.dealsOf t k)
  woken : ∀ t, σ.tasks.Woken t () → ∃ d, σ.dealsOf t (σ.calls t).length = [d] ∧
    σ.heap.awake t = some d.alt.i ∧ Matches (σ.heap.alts t) d
  pending : ∀ t k, (σ.calls t).length ≤ k →
    (k = (σ.calls t).length → ¬σ.tasks.Woken t ()) → σ.dealsOf t k = []

/-! ## Deals -/

theorem receivedOn_append (ds ds' : List Deal) :
    receivedOn c (ds ++ ds') = receivedOn c ds ++ receivedOn c ds' := by
  simp [receivedOn]

theorem sentOn_append (ds ds' : List Deal) :
    sentOn c (ds ++ ds') = sentOn c ds ++ sentOn c ds' := by
  simp [sentOn]

/-- Nothing was moved through a channel there was not. -/
theorem on_of_notMem (h : ∀ d ∈ ds, d.c ≠ c) : receivedOn c ds = [] ∧ sentOn c ds = [] := by
  rw [receivedOn, sentOn, List.filter_eq_nil_iff.2, List.filter_eq_nil_iff.2]
  · exact ⟨rfl, rfl⟩
  · intro d hd
    simp [h d hd]
  · intro d hd
    simp [h d hd]

theorem moves_number (ds : List Deal) : (σ.number ds).map Prod.snd = ds := by
  rw [State.number, List.map_map]
  exact List.map_id _

/-- What was moved in a call, and is moved now. -/
theorem dealsOf_number (hd : σ'.deals = σ.deals ++ σ.number ds) : σ'.dealsOf t k = σ.dealsOf t k ++
    if k = (σ.calls t).length then ds.filter fun d => d.alt.task = t else [] := by
  have hnum : ((σ.number ds).filter fun x => x.1 = k ∧ x.2.alt.task = t).map Prod.snd =
      ds.filter fun d => (σ.calls d.alt.task).length = k ∧ d.alt.task = t := by
    rw [State.number, List.filter_map, List.map_map]
    exact List.map_id _
  rw [State.dealsOf, hd, List.filter_append, List.map_append, hnum, State.dealsOf]
  congr 1
  split
  · rename_i hk
    refine List.filter_congr fun d _ => ?_
    rw [decide_eq_decide]
    refine and_iff_right_of_imp fun e => ?_
    rw [e, hk]
  · rename_i hk
    refine List.filter_eq_nil_iff.2 fun d _ => ?_
    rw [decide_eq_true_eq]
    rintro ⟨hl, e⟩
    exact hk (by rw [← hl, e])

/-- What a task's calls have returned, after one more. -/
theorem returned_cases {calls calls' : TaskId → List Returned} {y : Returned}
    (hc : calls' = Function.update calls t (calls t ++ [y])) {z : Returned}
    (hz : (calls' u)[k]? = some z) :
    (u = t ∧ k = (calls u).length ∧ z = y) ∨ (calls u)[k]? = some z := by
  rw [hc, Function.update_apply] at hz
  split at hz
  · rename_i hut
    rw [List.getElem?_append] at hz
    split at hz
    · exact .inr (by rw [hut]; exact hz)
    · obtain ⟨hlt, e⟩ := List.getElem?_eq_some_iff.1 hz
      rw [List.length_singleton] at hlt
      rw [List.getElem_singleton] at e
      exact .inl ⟨hut, by rw [hut]; omega, e.symm⟩
  · exact .inr hz

/-! ## The start -/

theorem ok_initial (h : σ.Initial) : σ.Ok := by
  obtain ⟨t, htasks, hchan, hdeals, hcalls⟩ := h
  have hnot : ∀ u, σ.tasks.pc u ≠ .waits () := fun u => by
    rw [htasks]
    exact Threads.start_pc_ne t () u
  have hmoves : σ.moves = [] := by rw [State.moves, hdeals, List.map_nil]
  have hnone : ∀ u k, σ.dealsOf u k = [] := fun u k => by
    rw [State.dealsOf, hdeals]
    rfl
  refine ⟨⟨fun c C hC => ?_, ⟨fun c C op ar hC => ?_, fun c C op ar hC => ?_⟩, fun u hu => ?_⟩,
    by rw [htasks]; exact Threads.ok_start t, fun c C hC => ?_, fun d hd => ?_, fun u k x hx => ?_,
    fun u hu => absurd hu.1 (hnot u), fun u k _ _ => hnone u k⟩
  · rw [hchan] at hC
    cases hC
  · rw [hchan] at hC
    cases hC
  · rw [hchan] at hC
    cases hC
  · exact absurd hu.1 (hnot u)
  · rw [hchan] at hC
    cases hC
  · rw [hmoves] at hd
    cases hd
  · rw [hcalls] at hx
    cases hx

/-! ## Steps that move nothing -/

section

variable (h : σ.Ok)
include h

/-- **A step of the tasks alone.** -/
theorem State.Ok.turn {T : Threads TaskId Unit} (hT : T.Ok) (hal : Threads.Alike σ.tasks T) :
    State.Ok { σ with tasks := T } := by
  have hS : (fun u => T.Asleep u ()) = σ.Asleep := funext fun u => propext (hal.asleep u ())
  refine ⟨?_, hT, h.fifo, h.size, h.done, fun u hu => h.woken u ((hal.woken u ()).1 hu),
    fun u k hk hp => h.pending u k hk fun e hw => hp e ((hal.woken u ()).2 hw)⟩
  show σ.heap.Ok fun u => T.Asleep u ()
  rw [hS]
  exact h.heap

/-- There is another channel. -/
theorem State.Ok.chancreate {elemsize bufsize : ℕ} {buf : List Byte} (hc : σ.heap.chan c = none)
    (hbuf : buf.length = bufsize * elemsize) :
    State.Ok { σ with heap := σ.heap.setChan c (Chan.chancreate elemsize bufsize buf) } := by
  have hne : ∀ {e D}, σ.heap.chan e = some D → e ≠ c := by
    rintro e D hD rfl
    rw [hc] at hD
    cases hD
  have hchan : ∀ {e D}, (σ.heap.setChan c (Chan.chancreate elemsize bufsize buf)).chan e = some D →
      e = c ∧ D = Chan.chancreate elemsize bufsize buf ∨ σ.heap.chan e = some D := by
    intro e D hD
    simp only [Heap.setChan, Function.update_apply] at hD
    split at hD
    · rename_i he
      exact .inl ⟨he, (Option.some.inj hD).symm⟩
    · exact .inr hD
  have hold : ∀ {e D}, σ.heap.chan e = some D →
      (σ.heap.setChan c (Chan.chancreate elemsize bufsize buf)).chan e = some D := fun hD => by
    rw [Heap.setChan, ← hD]
    exact Function.update_of_ne (hne hD) ..
  have hempty : ∀ {op : AltOp} {ar}, (Chan.chancreate elemsize bufsize buf).chanarray op = some ar →
      ar = ⟨[], 0⟩ := by
    intro op ar har
    cases op <;> first | exact (Option.some.inj har).symm | cases har
  refine ⟨⟨fun e D hD => ?_, ⟨fun e D op ar hD har => ?_, fun e D op ar hD har p => ?_⟩,
    fun u hu => ?_⟩,
    h.tasks, fun e D hD => ?_, fun d hd => ?_, h.done, h.woken, h.pending⟩
  · rcases hchan hD with ⟨-, rfl⟩ | hD
    · exact Channel.ok_chancreate hbuf
    · exact h.heap.chan e D hD
  · rcases hchan hD with ⟨-, rfl⟩ | hD
    · rw [hempty har]
      exact ⟨List.nodup_nil, Nat.le_refl 0⟩
    · exact h.heap.queued.ok e D op ar hD har
  · rcases hchan hD with ⟨rfl, rfl⟩ | hD
    · rw [hempty har]
      refine iff_of_false List.not_mem_nil ?_
      rintro ⟨hp, a, ha, hac, hao⟩
      have hop : a.op ≠ .channop := by
        rw [hao]
        rintro rfl
        cases har
      obtain ⟨D, hD, -⟩ := (h.heap.sleeps _ hp).stuck p.i a ha hop
      exact hne hD hac
    · exact h.heap.queued.mem e D op ar hD har p
  · exact (h.heap.sleeps u hu).mono hu (fun v hv => ⟨hv, rfl⟩) fun e D hD =>
      ⟨D, hold hD, rfl, rfl, .inl rfl⟩
  · rcases hchan hD with ⟨rfl, rfl⟩ | hD
    · have hnone : ∀ d ∈ σ.moves, d.c ≠ e := fun d hd hde => by
        obtain ⟨D, hD, -⟩ := h.size d hd
        exact hne hD hde
      obtain ⟨hr, hs⟩ := on_of_notMem hnone
      show receivedOn e σ.moves ++ _ = sentOn e σ.moves
      rw [hr, hs]
      rfl
    · exact h.fifo e D hD
  · obtain ⟨D, hD, hlen⟩ := h.size d hd
    exact ⟨D, hold hD, hlen⟩

/-! ## `chanalt` -/

variable (hrun : σ.tasks.running = some t)
include hrun

/-- **An alternative was executed**, and the call returns. -/
theorem State.Ok.executes {i : ℕ} (ht : σ.tasks.pc t = .top)
    (he : Execs (σ.heap.enter t as) σ.Asleep ⟨t, i⟩ H ds ready) :
    State.Ok (State.retire { σ with
      heap := H, deals := σ.deals ++ σ.number ds, tasks := σ.tasks.ready ready.toList } t
        (some i)) := by
  obtain ⟨σ', hσ'⟩ : ∃ σ', σ' = State.retire { σ with
    heap := H, deals := σ.deals ++ σ.number ds, tasks := σ.tasks.ready ready.toList } t
      (some i) := ⟨_, rfl⟩
  rw [← hσ']
  have hready : ∀ u, ready = some u → σ.Asleep u := fun u hu => (he.woken u hu).1
  -- the tasks
  obtain ⟨hr, hra, hrw⟩ := h.tasks.ready ready.toList (by cases ready <;> simp)
    fun u hu => ⟨(), hready u (Option.mem_toList.1 hu)⟩
  obtain ⟨htasks, ha, hw⟩ := hr.resume (t := t) hrun
  have hasleep : ∀ u, σ'.Asleep u ↔ σ.Asleep u ∧ ready ≠ some u := fun u => by
    have := (ha u ()).trans (hra u ())
    rw [Option.mem_toList] at this
    rw [hσ']
    exact this
  have hne : ∀ u, σ.tasks.Woken u () ∨ ready = some u → u ≠ t := by
    rintro u (hu | hu) rfl
    · rw [hu.1] at ht
      cases ht
    · exact (hready u hu).2.2 hrun
  have hwoken : ∀ u, σ'.tasks.Woken u () ↔ σ.tasks.Woken u () ∨ ready = some u := fun u => by
    have := (hw u ()).trans (and_congr_left' (hrw u ()))
    rw [Option.mem_toList] at this
    rw [hσ']
    refine this.trans ⟨fun e => e.1.imp_right And.right, fun e => ⟨?_, hne u e⟩⟩
    exact e.imp_right fun e' => ⟨hready u e', e'⟩
  -- the calls
  have hcalls : σ'.calls = Function.update σ.calls t (σ.calls t ++ [⟨some i, H.alts t⟩]) := by
    rw [hσ']
    rfl
  have hcalls_ne : ∀ u, u ≠ t → σ'.calls u = σ.calls u := fun u hu => by
    rw [hcalls, Function.update_of_ne hu]
  have hof : ∀ u k, σ'.dealsOf u k = σ.dealsOf u k ++
      if k = (σ.calls u).length then ds.filter fun d => d.alt.task = u else [] := fun u k =>
    dealsOf_number (by rw [hσ']; rfl)
  have hmoves : σ'.moves = σ.moves ++ ds := by
    rw [State.moves, show σ'.deals = σ.deals ++ σ.number ds by rw [hσ']; rfl, List.map_append,
      moves_number]
    rfl
  have hheap : σ'.heap = H := by rw [hσ']; rfl
  have hpending : σ.dealsOf t (σ.calls t).length = [] :=
    h.pending t _ (Nat.le_refl _) fun _ hw => by rw [hw.1] at ht; cases ht
  obtain ⟨d, hd, hdp, hdm⟩ := he.own
  refine ⟨?_, by rw [hσ']; exact htasks, fun c C' hC' => ?_, fun d' hd' => ?_,
    fun u k x hx => ?_, fun u hu => ?_, fun u k hk hp => ?_⟩
  · have hS : σ'.Asleep = fun u => σ.Asleep u ∧ ready ≠ some u :=
      funext fun u => propext (hasleep u)
    rw [hheap, hS]
    exact he.ok
  · rw [hheap] at hC'
    obtain ⟨C, hC⟩ : ∃ C, σ.heap.chan c = some C := by
      cases hn : σ.heap.chan c with
      | some C => exact ⟨C, rfl⟩
      | none =>
          rw [he.fresh c hn] at hC'
          cases hC'
    obtain ⟨D, hD, -, -, hfifo⟩ := he.chan c C hC
    obtain rfl := Option.some.inj (hC'.symm.trans hD)
    rw [hmoves, receivedOn_append, sentOn_append, List.append_assoc, hfifo, ← List.append_assoc,
      h.fifo c C hC]
  · rw [hheap]
    rw [hmoves, List.mem_append] at hd'
    rcases hd' with hd' | hd'
    · obtain ⟨C, hC, hlen⟩ := h.size d' hd'
      obtain ⟨D, hD, -, hes, -⟩ := he.chan _ C hC
      exact ⟨D, hD, by rw [hlen, hes]⟩
    · exact he.size d' hd'
  · rcases returned_cases hcalls hx with ⟨rfl, rfl, rfl⟩ | hx
    · rw [hof, if_pos rfl, hpending, List.nil_append]
      exact ⟨d, hd, by rw [hdp], hdm⟩
    · have hlt := (List.getElem?_eq_some_iff.1 hx).1
      rw [hof, if_neg (Nat.ne_of_lt hlt), List.append_nil]
      exact h.done u k x hx
  · have hu := (hwoken u).1 hu
    have hut := hne u hu
    rw [hof, hcalls_ne u hut, if_pos rfl, hheap]
    rcases hu with hu | hru
    · have hru : ready ≠ some u := fun e => (hready u e).not_woken hu
      obtain ⟨d', hd', haw, hm⟩ := h.woken u hu
      have hnil : (ds.filter fun d => d.alt.task = u) = [] := by
        refine List.filter_eq_nil_iff.2 fun e hde => ?_
        rw [decide_eq_true_eq]
        rintro rfl
        exact (he.only e hde).elim hut hru
      have halts : H.alts u = σ.heap.alts u := by
        rw [he.alts u hut hru, Heap.alts_enter_of_ne hut]
      rw [hnil, List.append_nil, halts]
      refine ⟨d', hd', ?_, hm⟩
      rw [← haw, Heap.awake, Heap.awake, Heap.alt, Heap.alt, halts]
    · -- the partner
      obtain ⟨-, d', hd', haw, hm⟩ := he.woken u hru
      rw [h.pending u _ (Nat.le_refl _) fun _ => (hready u hru).not_woken, List.nil_append]
      exact ⟨d', hd', haw, hm⟩
  · have hp' : k = (σ'.calls u).length → ¬σ.tasks.Woken u () ∧ ready ≠ some u := fun e =>
      not_or.1 fun hw => hp e ((hwoken u).2 hw)
    by_cases hut : u = t
    · rw [hut] at hk ⊢
      rw [hcalls, Function.update_self, List.length_append, List.length_singleton] at hk
      rw [hof, if_neg (by omega), List.append_nil]
      exact h.pending t k (by omega) fun e => by omega
    · rw [hcalls_ne u hut] at hk hp'
      rw [hof, h.pending u k hk fun e => (hp' e).1, List.nil_append]
      split
      · rename_i e
        refine List.filter_eq_nil_iff.2 fun d' hd' => ?_
        rw [decide_eq_true_eq]
        rintro rfl
        exact (he.only d' hd').elim hut (hp' e).2
      · rfl

/-- **A call returns** that has moved nothing, or what it returns. -/
theorem State.Ok.retire (H : Heap) (ret : Option ℕ) (he : ∀ u, u ≠ t → H.alts u = σ.heap.alts u)
    (hchan : H.chan = σ.heap.chan) (hH : H.Ok σ.Asleep)
    (hacc : (Returned.mk ret (H.alts t)).Accounts (σ.dealsOf t (σ.calls t).length)) :
    State.Ok (State.retire { σ with heap := H } t ret) := by
  obtain ⟨σ', hσ'⟩ : ∃ σ', σ' = State.retire { σ with heap := H } t ret := ⟨_, rfl⟩
  rw [← hσ']
  obtain ⟨htasks, ha, hw⟩ := h.tasks.resume (t := t) hrun
  have hcalls : σ'.calls = Function.update σ.calls t (σ.calls t ++ [⟨ret, H.alts t⟩]) := by
    rw [hσ']
    rfl
  have hcalls_ne : ∀ u, u ≠ t → σ'.calls u = σ.calls u := fun u hu => by
    rw [hcalls, Function.update_of_ne hu]
  have hheap : σ'.heap = H := by rw [hσ']; rfl
  have hof : ∀ u k, σ'.dealsOf u k = σ.dealsOf u k := fun u k => by rw [hσ']; rfl
  have hmoves : σ'.moves = σ.moves := by rw [hσ']; rfl
  have hwoken : ∀ u, σ'.tasks.Woken u () ↔ σ.tasks.Woken u () ∧ u ≠ t := fun u => by
    rw [hσ']
    exact hw u ()
  refine ⟨?_, by rw [hσ']; exact htasks, fun c C hC => ?_, fun d hd => ?_, fun u k x hx => ?_,
    fun u hu => ?_, fun u k hk hp => ?_⟩
  · have hS : σ'.Asleep = σ.Asleep := by
      rw [hσ']
      exact funext fun u => propext (ha u ())
    rw [hheap, hS]
    exact hH
  · rw [hheap, hchan] at hC
    rw [hmoves]
    exact h.fifo c C hC
  · rw [hmoves] at hd
    rw [hheap, hchan]
    exact h.size d hd
  · rw [hof]
    rcases returned_cases hcalls hx with ⟨rfl, rfl, rfl⟩ | hx
    · exact hacc
    · exact h.done u k x hx
  · obtain ⟨hu, hut⟩ := (hwoken u).1 hu
    rw [hof, hcalls_ne u hut, hheap, Heap.awake, Heap.alt, he u hut]
    exact h.woken u hu
  · rw [hof]
    by_cases hut : u = t
    · rw [hut] at hk ⊢
      rw [hcalls, Function.update_self, List.length_append, List.length_singleton] at hk
      exact h.pending t k (by omega) fun e => by omega
    · rw [hcalls_ne u hut] at hk hp
      exact h.pending u k hk fun e hw => hp e ((hwoken u).2 ⟨hw, hut⟩)

/-- **No alternative could be executed**, and the task sleeps. -/
theorem State.Ok.waits (ht : σ.tasks.pc t = .top) (hf : Frame (σ.heap.enter t as) H)
    (hH : H.Ok fun u => σ.Asleep u ∨ u = t) :
    State.Ok { σ with heap := H, tasks := σ.tasks.suspend t () } := by
  obtain ⟨htasks, ha, hw⟩ := h.tasks.suspend hrun ht ()
  have hS : (fun u => (σ.tasks.suspend t ()).Asleep u ()) = fun u => σ.Asleep u ∨ u = t :=
    funext fun u => propext ((ha u ()).trans (or_congr_right (and_iff_left rfl)))
  have hne : ∀ u, σ.tasks.Woken u () → u ≠ t := by
    rintro u hu rfl
    rw [hu.1] at ht
    cases ht
  refine ⟨?_, htasks, fun c C' hC' => ?_, fun d hd => ?_, h.done, fun u hu => ?_,
    fun u k hk hp => h.pending u k hk fun e hu => hp e ((hw u ()).2 hu)⟩
  · show H.Ok fun u => (σ.tasks.suspend t ()).Asleep u ()
    rw [hS]
    exact hH
  · have hc := hf.chan c
    rw [hC', Option.map_some] at hc
    obtain ⟨C, hC, e⟩ := Option.map_eq_some_iff.1 hc.symm
    rw [((h.heap.chan c C hC).of_bare e.symm).2]
    exact h.fifo c C hC
  · obtain ⟨C, hC, hlen⟩ := h.size d hd
    obtain ⟨C', hC', e⟩ := hf.exists_chan hC
    exact ⟨C', hC', by rw [hlen, (Channel.of_bare e).2.1]⟩
  · have hu := (hw u ()).1 hu
    have halts : H.alts u = σ.heap.alts u := by
      rw [hf.alts, Heap.alts_enter_of_ne (hne u hu)]
    show ∃ d, σ.dealsOf u (σ.calls u).length = [d] ∧ H.awake u = some d.alt.i ∧
      Matches (H.alts u) d
    rw [Heap.awake, Heap.alt, halts]
    exact h.woken u hu

end

/-! ## Runs -/

/-- **The step lemma**: no step aborts, and each keeps the invariant. -/
theorem State.Ok.step (h : σ.Ok) (he : act.Enabled σ) : ∃ σ', act.exec σ = some σ' ∧ σ'.Ok := by
  cases act with
  | turn a =>
      obtain ⟨T, hx, hT, hal⟩ := h.tasks.turn he
      exact ⟨_, by simp only [Action.exec, hx, Option.bind_eq_bind, Option.bind_some],
        h.turn hT hal⟩
  | chancreate c elemsize bufsize buf =>
      obtain ⟨-, hc, -, hbuf⟩ := he
      exact ⟨_, rfl, h.chancreate hc hbuf⟩
  | chanalt a canblock r r' =>
      obtain ⟨hat, ha⟩ := he
      obtain ⟨t, hrun, ht⟩ := hat.exists_running
      have hns : ¬σ.Asleep t := fun e => e.2.2 hrun
      have hnw : ¬σ.tasks.Woken t () := fun e => by rw [e.1] at ht; cases ht
      obtain ⟨out, hx, hc⟩ := h.heap.chanalt hns ha canblock r r'
      cases hc with
      | executes i H ds ready he =>
          refine ⟨_, ?_, h.executes hrun ht he⟩
          simp only [Action.exec, hrun, hx, Option.bind_eq_bind, Option.bind_some]
      | gives_up hno =>
          have hpend := h.pending t _ (Nat.le_refl _) fun _ => hnw
          refine ⟨_, ?_, h.retire hrun (σ.heap.enter t a) none
            (fun u hu => Heap.alts_enter_of_ne hu) rfl (h.heap.enter hns a) hpend⟩
          simp only [Action.exec, hrun, hx, Option.bind_eq_bind, Option.bind_some, State.number,
            List.map_nil, List.append_nil, Option.toList_none, Threads.ready_nil]
      | waits H hf hH =>
          refine ⟨_, ?_, h.waits hrun ht hf hH⟩
          simp only [Action.exec, hrun, hx, Option.bind_eq_bind, Option.bind_some]
  | awake =>
      obtain ⟨t, hrun, ht⟩ := he.exists_running
      obtain ⟨d, hd, haw, hm⟩ := h.woken t ⟨ht, .inr hrun⟩
      have hx : Action.awake.exec σ = some (σ.retire t (some d.alt.i)) := by
        simp only [Action.exec, hrun, haw, Option.bind_eq_bind, Option.bind_some]
      exact ⟨_, hx, h.retire hrun σ.heap (some d.alt.i) (fun _ _ => rfl) rfl h.heap
        ⟨d, hd, rfl, hm⟩⟩

/-- **The run lemma.** -/
theorem chan_inductive : chanSystem.Inductive State.Ok where
  init _ h := ok_initial h
  step _ _ h he := h.step he

/-! ## A run -/

/-- A thread with one task. -/
def thread : State where
  heap := ⟨fun _ => none, fun _ => []⟩
  tasks := .start 0
  deals := []
  calls _ := []

instance (σ : State) (a : Action) : Decidable (chanSystem.enabled σ a) :=
  inferInstanceAs (Decidable (a.Enabled σ))

instance (σ : State) (t : TaskId) : Decidable (σ.Asleep t) :=
  inferInstanceAs (Decidable (σ.tasks.Asleep t ()))

/-- The first task makes a channel without a buffer and a second task, and
sends. -/
def sends : List Action :=
  [.chancreate 0 1 0 [], .turn (.create 1), .chansend 0 (some [5]) 0 0]

/-- The second receives, and has the first return. -/
def receives : List Action :=
  [.turn .schedule,
    .chanalt [⟨0, none, .channop, 0, ⟨0, 0⟩⟩, ⟨0, some [0], .chanrcv, 0, ⟨0, 0⟩⟩] true 3 7,
    .turn .yield, .turn .schedule, .awake]

theorem reachable_thread : chanSystem.Reachable thread :=
  .init ⟨0, rfl, fun _ => rfl, rfl, fun _ => rfl⟩

theorem exists_asleep : ∃ σ, chanSystem.Reachable σ ∧ σ.Asleep 0 ∧
    (σ.heap.alt ⟨0, 0⟩).any (fun a => a.op = .chansnd) = true := by
  have h : (chanSystem.run thread sends).any (fun σ => σ.Asleep 0 ∧
      (σ.heap.alt ⟨0, 0⟩).any (fun a => a.op = .chansnd) = true) = true := by decide
  obtain ⟨σ, hs, hp⟩ := System.Steps.of_run_any h
  exact ⟨σ, hs.reachable reachable_thread, of_decide_eq_true hp⟩

theorem exists_dealt : ∃ σ, chanSystem.Reachable σ ∧ (σ.heap.chan 0).isSome = true ∧
    sentOn 0 σ.moves = [[5]] ∧ (σ.calls 0).map (·.ret) = [some 0] ∧
    (σ.calls 1).map (·.ret) = [some 1] := by
  have h : (chanSystem.run thread (sends ++ receives)).any (fun σ =>
      (σ.heap.chan 0).isSome = true ∧ sentOn 0 σ.moves = [[5]] ∧
        (σ.calls 0).map (·.ret) = [some 0] ∧ (σ.calls 1).map (·.ret) = [some 1]) = true := by
    decide
  obtain ⟨σ, hs, hp⟩ := System.Steps.of_run_any h
  exact ⟨σ, hs.reachable reachable_thread, of_decide_eq_true hp⟩

/-! ## Results -/

/-- **Who is queued sleeps**: in every run, no step aborts, and the arrays of
a channel hold the alternatives of the tasks that sleep in `chanalt` on it,
each of them once and nothing else. -/
theorem chan_queues (hr : chanSystem.Reachable σ) :
    (∀ act : Action, act.Enabled σ → ∃ σ', act.exec σ = some σ') ∧
    ∀ c C op ar, σ.heap.chan c = some C → C.chanarray op = some ar →
      ar.a.Nodup ∧ ar.a.length ≤ ar.m ∧
        ∀ p, p ∈ ar.a ↔ σ.Asleep p.task ∧ ∃ a, σ.heap.alt p = some a ∧ a.c = c ∧ a.op = op := by
  have h := chan_inductive.reachable hr
  refine ⟨fun act he => chan_inductive.no_fault hr he, fun c C op ar hC har => ?_⟩
  obtain ⟨hnd, hroom⟩ := h.heap.queued.ok c C op ar hC har
  exact ⟨hnd, hroom, h.heap.queued.mem c C op ar hC har⟩

/-- A task sleeps, and is queued. -/
theorem chan_queues_asleep : ∃ σ, chanSystem.Reachable σ ∧ σ.Asleep 0 ∧
    ∀ c C op ar, σ.heap.chan c = some C → C.chanarray op = some ar →
      ar.a.Nodup ∧ ar.a.length ≤ ar.m ∧
        ∀ p, p ∈ ar.a ↔ σ.Asleep p.task ∧ ∃ a, σ.heap.alt p = some a ∧ a.c = c ∧ a.op = op := by
  obtain ⟨σ, hr, hs, -⟩ := exists_asleep
  exact ⟨σ, hr, hs, (chan_queues hr).2⟩

/-- **No deal is missed**: where an alternative of a sleeping task is, the
buffer is full if it sends and empty if it receives, and no other task sleeps
with the other end of the channel. -/
theorem chan_no_missed_deal (hr : chanSystem.Reachable σ) (ht : σ.Asleep p.task)
    (ha : σ.heap.alt p = some a) (hop : a.op ≠ .channop) : ∃ C, σ.heap.chan a.c = some C ∧
      C.nbuf = (if a.op = .chansnd then C.bufsize else 0) ∧
      ∀ q b, σ.Asleep q.task → σ.heap.alt q = some b → b.c = a.c → b.op = otherop a.op →
        q.task = p.task ∧ C.bufsize = 0 := by
  have h := (chan_inductive.reachable hr).heap
  obtain ⟨C, hC, -, hstuck⟩ := (h.sleeps _ ht).stuck p.i a ha hop
  have hle := (h.chan _ _ hC).nbuf
  refine ⟨C, hC, ?_, fun q b hq hb hbc hbo => ?_⟩
  · unfold Stuck at hstuck
    split at hstuck
    · split <;> omega
    · exact hstuck
  · by_cases h0 : C.bufsize = 0
    · rw [Stuck, if_pos h0] at hstuck
      exact ⟨hstuck q b hq hb hbc hbo, h0⟩
    · -- the buffer is full and empty
      have hbop : b.op ≠ .channop := by
        rw [hbo]
        exact otherop_ne hop
      obtain ⟨D, hD, -, hstuck'⟩ := (h.sleeps _ hq).stuck q.i b hb hbop
      rw [hbc, hC] at hD
      obtain rfl := Option.some.inj hD
      rw [Stuck, if_neg h0] at hstuck hstuck'
      rw [hbo] at hstuck'
      cases hao : a.op <;> simp_all [otherop]

/-- A task sleeps in `chansend`. -/
theorem chan_no_missed_deal_asleep : ∃ σ a C, chanSystem.Reachable σ ∧ σ.Asleep 0 ∧
    σ.heap.alt ⟨0, 0⟩ = some a ∧ a.op = .chansnd ∧ σ.heap.chan a.c = some C ∧
      C.nbuf = C.bufsize := by
  obtain ⟨σ, hr, hs, ha⟩ := exists_asleep
  obtain ⟨a, ha, hop⟩ := (Option.any_eq_true _ _).1 ha
  have hop : a.op = .chansnd := of_decide_eq_true hop
  obtain ⟨C, hC, hn, -⟩ :=
    chan_no_missed_deal (p := ⟨0, 0⟩) hr hs ha (by rw [hop]; exact AltOp.noConfusion)
  rw [if_pos hop] at hn
  exact ⟨σ, a, C, hr, hs, ha, hop, hC, hn⟩

/-- **First in, first out**: what was received from a channel, and then what
is in it, is what was sent, element by element and in this order; and it
holds no more than it has room for. -/
theorem chan_fifo (hr : chanSystem.Reachable σ) (hC : σ.heap.chan c = some C) :
    receivedOn c σ.moves ++ C.contents = sentOn c σ.moves ∧ C.contents.length ≤ C.bufsize ∧
      ∀ w ∈ sentOn c σ.moves, w.length = C.elemsize := by
  have h := chan_inductive.reachable hr
  refine ⟨h.fifo c C hC, ?_, fun w hw => ?_⟩
  · rw [Channel.length_contents]
    exact (h.heap.chan c C hC).nbuf
  · obtain ⟨d, hd, rfl⟩ := List.mem_map.1 hw
    rw [List.mem_filter, decide_eq_true_eq] at hd
    obtain ⟨hd, hdc, -⟩ := hd
    obtain ⟨D, hD, hlen⟩ := h.size d hd
    rw [hdc, hC] at hD
    rw [Option.some.inj hD, hlen]

/-- An element has been sent. -/
theorem chan_fifo_dealt : ∃ σ C, chanSystem.Reachable σ ∧ σ.heap.chan 0 = some C ∧
    receivedOn 0 σ.moves ++ C.contents = [[5]] := by
  obtain ⟨σ, hr, hC, hsent, -⟩ := exists_dealt
  obtain ⟨C, hC⟩ := Option.isSome_iff_exists.1 hC
  have h := (chan_fifo hr hC).1
  rw [hsent] at h
  exact ⟨σ, C, hr, hC, h⟩

/-- **A call takes effect once**: a call of `chanalt` that returned an
alternative has moved one element, from or to this one, and a call that
returned none has moved nothing; a task that was woken in a call has moved
the one it is going to return, and others have moved nothing. -/
theorem chanalt_once (hr : chanSystem.Reachable σ) (t : TaskId) :
    (∀ k (x : Returned), (σ.calls t)[k]? = some x → x.Accounts (σ.dealsOf t k)) ∧
    ∀ k, (σ.calls t).length ≤ k →
      σ.dealsOf t k = [] ∨ k = (σ.calls t).length ∧ σ.tasks.Woken t () ∧
        ∃ d, σ.dealsOf t k = [d] ∧ σ.heap.awake t = some d.alt.i ∧
          Matches (σ.heap.alts t) d := by
  have h := chan_inductive.reachable hr
  refine ⟨fun k x hx => h.done t k x hx, fun k hk => ?_⟩
  by_cases hw : k = (σ.calls t).length ∧ σ.tasks.Woken t ()
  · obtain ⟨rfl, hw⟩ := hw
    exact .inr ⟨rfl, hw, h.woken t hw⟩
  · exact .inl (h.pending t k hk fun e hw' => hw ⟨e, hw'⟩)

/-- The second of a task's alternatives was used. -/
theorem chanalt_once_dealt : ∃ σ, chanSystem.Reachable σ ∧
    ∃ d, σ.dealsOf 1 0 = [d] ∧ d.alt.i = 1 := by
  obtain ⟨σ, hr, -, -, -, hret⟩ := exists_dealt
  obtain ⟨x, hx, hxr⟩ := List.map_eq_singleton_iff.1 hret
  have hacc := (chanalt_once hr 1).1 0 x (by rw [hx]; rfl)
  rw [Returned.Accounts, hxr] at hacc
  obtain ⟨d, hd, hi, -⟩ := hacc
  exact ⟨σ, hr, d, hd, hi⟩

end Chan

end Libtask

end VmwareProto
