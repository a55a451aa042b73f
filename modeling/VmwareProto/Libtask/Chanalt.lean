import VmwareProto.Libtask.Altexec
/-!
# `chanalt`

A call of `chanalt` executes one of its alternatives, if any can be, and else
returns or leaves all of them in the queues.
-/

namespace VmwareProto

namespace Libtask

namespace Chan

variable {C C' : Channel} {H H' : Heap} {p q : AltPtr} {a x y : Alt} {as : List Alt} {c : ChanId}
  {S : TaskId → Prop} {t u : TaskId} {canblock : Bool} {r r' i : ℕ}

/-- What it takes for an alternative to be executed. -/
theorem altcanexec_iff (hop : a.op ≠ .channop) (hC : H.chan a.c = some C) : H.altcanexec a = true ↔
    if C.bufsize = 0 then ∃ ar, C.chanarray (otherop a.op) = some ar ∧ ar.a ≠ []
    else if a.op = .chansnd then C.nbuf < C.bufsize else 0 < C.nbuf := by
  cases ho : a.op with
  | channop => exact absurd ho hop
  | _ =>
      by_cases hb : C.bufsize = 0 <;>
        simp [Heap.altcanexec, hC, ho, hb, otherop, Channel.chanarray]

theorem op_ne_of_altcanexec (h : H.altcanexec a = true) :
    a.op ≠ .channop ∧ ∃ C, H.chan a.c = some C := by
  unfold Heap.altcanexec at h
  split at h
  · cases h
  · cases h
  · rename_i C hC hop
    exact ⟨hop, C, hC⟩

/-- **An executable alternative is executed.** -/
theorem Heap.Ok.execs (h : H.Ok S) (ha : H.alt p = some a) (hC : H.chan a.c = some C)
    (hfit : Channel.Fits C.elemsize a.v) (hp : ¬S p.task) (hcan : H.altcanexec a = true) :
    ∃ H' ds ready, H.altexec p r = some (H', ds, ready) ∧ Execs H S p H' ds ready := by
  obtain ⟨hop, -⟩ := op_ne_of_altcanexec hcan
  rw [altcanexec_iff hop hC] at hcan
  obtain ⟨ar, har⟩ := C.exists_chanarray (otherop_ne hop)
  by_cases hne : ar.a = []
  · have hnone : ∀ ar, C.chanarray (otherop a.op) = some ar → ar.a = [] := by
      intro ar' har'
      obtain rfl := Option.some.inj (har.symm.trans har')
      exact hne
    split at hcan
    · obtain ⟨ar', har', hne'⟩ := hcan
      exact absurd (hnone ar' har') hne'
    · rename_i hb
      obtain ⟨H', ds, hx, he⟩ := h.execs_alone ha hop hC hfit hp hcan hb hnone (r := r)
      exact ⟨H', ds, none, hx, he⟩
  · obtain ⟨H', ds, u, hx, he⟩ := h.execs_partner ha hop hC hfit hp har hne (r := r)
    exact ⟨H', ds, some u, hx, he⟩

/-! ## The array -/

theorem Heap.alts_enter :
    (H.enter t as).alts t = as.map fun x => { x with task := t, xalt := ⟨t, 0⟩ } :=
  Function.update_self ..

theorem Heap.alt_enter (i : ℕ) : (H.enter t as).alt ⟨t, i⟩ =
    as[i]?.map fun x => { x with task := t, xalt := ⟨t, 0⟩ } := by
  rw [Heap.alt, Heap.alts_enter, List.getElem?_map]

theorem Heap.alts_enter_of_ne (ht : u ≠ t) : (H.enter t as).alts u = H.alts u :=
  Function.update_of_ne ht ..

/-- The array is that of the running task. -/
theorem Heap.Ok.enter (h : H.Ok S) (ht : ¬S t) (as : List Alt) : (H.enter t as).Ok S := by
  have hne : ∀ {u}, S u → u ≠ t := fun hu e => ht (e ▸ hu)
  have halt : ∀ q : AltPtr, S q.task → (H.enter t as).alt q = H.alt q := fun q hq => by
    rw [Heap.alt, Heap.alts_enter_of_ne (hne hq)]
    rfl
  refine ⟨h.chan, h.queued.frame (fun c C op ar hC har => ⟨C, hC, har⟩) fun q c op _ => ?_,
    fun u hu => (h.sleeps u hu).mono hu (fun v hv => ⟨hv, Heap.alts_enter_of_ne (hne hv)⟩)
      fun c C hC => ⟨C, hC, rfl, rfl, .inl rfl⟩⟩
  exact and_congr_right fun hq => by rw [halt q hq]

/-! ## Waiting -/

/-- **No alternative can be executed**: the task sleeps with all of them. -/
theorem Heap.Ok.waits (h : H.Ok S) (ht : ¬S t) (hown : ∀ i x, H.alt ⟨t, i⟩ = some x →
      x.task = t ∧ x.xalt = ⟨t, 0⟩)
    (hfit : ∀ i x, H.alt ⟨t, i⟩ = some x → x.op ≠ .channop →
      ∃ C, H.chan x.c = some C ∧ Channel.Fits C.elemsize x.v)
    (hcan : ∀ i x, H.alt ⟨t, i⟩ = some x → H.altcanexec x = false) :
    ∃ H', Heap.eachAlt Heap.altqueue ⟨t, 0⟩ (H.alts t).length H = some H' ∧ Frame H H' ∧
      H'.Ok fun u => S u ∨ u = t := by
  obtain ⟨H', hH', hf, hQ⟩ := h.queued.eachAlt_altqueue (t := t) (i := 0) (n := (H.alts t).length)
    (fun j _ hj => by
      rw [Nat.zero_add] at hj
      refine ⟨_, List.getElem?_eq_getElem hj, fun hop => ?_⟩
      obtain ⟨C, hC, -⟩ := hfit j _ (List.getElem?_eq_getElem hj) hop
      exact ⟨C, hC⟩)
    fun p hm hS => ht (hm.1 ▸ hS)
  -- who sleeps elsewhere is in the other array
  have hqueued : ∀ {q : AltPtr} {y x : Alt} {C : Channel}, S q.task → H.alt q = some y →
      y.c = x.c → y.op = otherop x.op → x.op ≠ .channop → H.chan x.c = some C →
        ∃ ar, C.chanarray (otherop x.op) = some ar ∧ ar.a ≠ [] := by
    intro q y x C hq hy hyc hyo hop hC
    obtain ⟨ar, har⟩ := C.exists_chanarray (otherop_ne hop)
    exact ⟨ar, har, List.ne_nil_of_mem ((h.queued.mem _ _ _ _ hC har q).2 ⟨hq, y, hy, hyc, hyo⟩)⟩
  have hoo : ∀ {op : AltOp}, otherop (otherop op) = op := fun {op} => by cases op <;> rfl
  refine ⟨H', hH', hf, fun c D' hD' => ?_, hQ.frame (fun c C op ar hC har => ⟨C, hC, har⟩) ?_,
    fun u hu => ⟨fun i x hx => ?_, fun i x hx hop => ?_⟩⟩
  · have hc := hf.chan c
    rw [hD', Option.map_some] at hc
    obtain ⟨D, hD, e⟩ := Option.map_eq_some_iff.1 hc.symm
    exact ((h.chan c D hD).of_bare e.symm).1
  · intro q c op hop
    refine and_congr_left fun ⟨y, hy, _, hyo⟩ => or_congr_right ?_
    rw [hf.alt] at hy
    refine ⟨fun e => ⟨e, Nat.zero_le _, ?_, y, hy, by rw [hyo]; exact hop⟩, fun hm => hm.1⟩
    rw [Nat.zero_add, ← e]
    exact (List.getElem?_eq_some_iff.1 (show (H.alts q.task)[q.i]? = some y from hy)).1
  · rw [hf.alt] at hx
    rcases hu with hu | rfl
    · exact (h.sleeps u hu).own i x hx
    · exact hown i x hx
  · rw [hf.alt] at hx
    obtain ⟨C, hC, hfitx⟩ : ∃ C, H.chan x.c = some C ∧ Channel.Fits C.elemsize x.v := by
      rcases hu with hu | rfl
      · obtain ⟨C, hC, hfitx, -⟩ := (h.sleeps u hu).stuck i x hx hop
        exact ⟨C, hC, hfitx⟩
      · exact hfit i x hx hop
    obtain ⟨C', hC', e⟩ := hf.exists_chan hC
    obtain ⟨hb, he, -, hn, -⟩ := Channel.of_bare e
    refine ⟨C', hC', by rw [he]; exact hfitx, ?_⟩
    rw [Stuck, hb, hn]
    split
    · rename_i h0
      intro q y hq hy hyc hyo
      rw [hf.alt] at hy
      rcases hq with hq | hqt
      · -- who sleeps already
        rcases hu with hu | rfl
        · obtain ⟨D, hD, -, hstuck⟩ := (h.sleeps u hu).stuck i x hx hop
          rw [hC] at hD
          obtain rfl := Option.some.inj hD
          rw [Stuck, if_pos h0] at hstuck
          exact hstuck q y hq hy hyc hyo
        · have := hcan i x hx
          rw [← Bool.not_eq_true, altcanexec_iff hop hC, if_pos h0] at this
          exact absurd (hqueued hq hy hyc hyo hop hC) this
      · -- the task that goes to sleep
        rcases hu with hu | rfl
        · have hyop : y.op ≠ .channop := by
            rw [hyo]
            exact otherop_ne hop
          have hy' : H.alt ⟨t, q.i⟩ = some y := by
            rw [← hqt]
            exact hy
          have := hcan q.i y hy'
          rw [← Bool.not_eq_true, altcanexec_iff hyop (by rw [hyc, hC]), if_pos h0] at this
          refine absurd (hqueued (q := ⟨u, i⟩) hu hx hyc.symm ?_ hyop (by rw [hyc, hC])) this
          rw [hyo, hoo]
        · exact hqt
    · rename_i h0
      rcases hu with hu | rfl
      · obtain ⟨D, hD, -, hstuck⟩ := (h.sleeps u hu).stuck i x hx hop
        rw [hC] at hD
        obtain rfl := Option.some.inj hD
        rw [Stuck, if_neg h0] at hstuck
        exact hstuck
      · have hno := hcan i x hx
        have hle := (h.chan _ _ hC).nbuf
        rw [← Bool.not_eq_true, altcanexec_iff hop hC, if_neg h0] at hno
        split at hno <;> rename_i hs
        · rw [if_pos hs]
          omega
        · rw [if_neg hs]
          omega

/-! ## The call -/

/-- **What a call of `chanalt` comes to.** -/
inductive Called (H : Heap) (S : TaskId → Prop) (t : TaskId) (as : List Alt) (canblock : Bool) :
    Heap.Outcome → Prop
  | executes (i : ℕ) (H' : Heap) (ds : List Deal) (ready : Option TaskId) :
      Execs (H.enter t as) S ⟨t, i⟩ H' ds ready →
      Called H S t as canblock (.returns H' (some i) ds ready)
  | gives_up : canblock = false →
      Called H S t as canblock (.returns (H.enter t as) none [] none)
  | waits (H' : Heap) : Frame (H.enter t as) H' → H'.Ok (fun u => S u ∨ u = t) →
      Called H S t as canblock (.waits H')

/-- `chanalt` -/
theorem Heap.Ok.chanalt (h : H.Ok S) (ht : ¬S t) (has : Action.Proper H as) (canblock : Bool)
    (r r' : ℕ) :
    ∃ out, H.chanalt t as canblock r r' = some out ∧ Called H S t as canblock out := by
  have h₀ := h.enter ht as
  obtain ⟨H₀, hH₀⟩ : ∃ H₀, H₀ = H.enter t as := ⟨_, rfl⟩
  have halt : ∀ i x, H₀.alt ⟨t, i⟩ = some x → x.task = t ∧ x.xalt = ⟨t, 0⟩ ∧
      (x.op ≠ .channop → ∃ C, H₀.chan x.c = some C ∧ Channel.Fits C.elemsize x.v) := by
    intro i x hx
    rw [hH₀, Heap.alt_enter] at hx
    obtain ⟨y, hy, rfl⟩ := Option.map_eq_some_iff.1 hx
    refine ⟨rfl, rfl, fun hop => ?_⟩
    rw [hH₀]
    exact has y (List.mem_of_getElem? hy) hop
  have hlen : (H₀.alts t).length = as.length := by
    rw [hH₀, Heap.alts_enter, List.length_map]
  rw [← hH₀] at h₀
  by_cases hcan : ((List.range as.length).filter fun i => (H₀.alt ⟨t, i⟩).any H₀.altcanexec) = []
  · have hno : ∀ i x, H₀.alt ⟨t, i⟩ = some x → H₀.altcanexec x = false := by
      intro i x hx
      rw [List.filter_eq_nil_iff] at hcan
      have hi : i < as.length := by
        rw [← hlen]
        exact (List.getElem?_eq_some_iff.1 (show (H₀.alts t)[i]? = some x from hx)).1
      have := hcan i (List.mem_range.2 hi)
      rw [hx] at this
      simpa using this
    cases canblock with
    | false =>
        refine ⟨_, ?_, .gives_up rfl⟩
        simp [Heap.chanalt, ← hH₀, hcan]
    | true =>
        obtain ⟨H', hH', hf, hok⟩ :=
          h₀.waits ht (fun i x hx => ⟨(halt i x hx).1, (halt i x hx).2.1⟩)
          (fun i x hx => (halt i x hx).2.2) hno
        rw [hlen] at hH'
        refine ⟨.waits H', ?_, .waits H' (hH₀ ▸ hf) hok⟩
        simp [Heap.chanalt, ← hH₀, hcan, hH']
  · obtain ⟨can, hcan'⟩ : ∃ can, can = (List.range as.length).filter fun i =>
        (H₀.alt ⟨t, i⟩).any H₀.altcanexec := ⟨_, rfl⟩
    have hne : can.length ≠ 0 := fun e => hcan (hcan' ▸ List.length_eq_zero_iff.1 e)
    have hlt : r % can.length < can.length := Nat.mod_lt _ (Nat.pos_of_ne_zero hne)
    obtain ⟨i, hi⟩ : ∃ i, can[r % can.length]? = some i := ⟨_, List.getElem?_eq_getElem hlt⟩
    have hmem := List.mem_of_getElem? hi
    rw [hcan', List.mem_filter, Option.any_eq_true] at hmem
    obtain ⟨-, x, hx, hxcan⟩ := hmem
    obtain ⟨hop, -⟩ := op_ne_of_altcanexec hxcan
    obtain ⟨-, -, hfit⟩ := halt i x hx
    obtain ⟨C, hC, hfit⟩ := hfit hop
    obtain ⟨H', ds, ready, hrun, he⟩ := h₀.execs hx hC hfit ht hxcan (r := r')
    refine ⟨_, ?_, .executes i H' ds ready (hH₀ ▸ he)⟩
    simp only [Heap.chanalt, ← hH₀, ← hcan', if_pos hne, hi, hrun, Option.bind_eq_bind,
      Option.bind_some]

end Chan

end Libtask

end VmwareProto
