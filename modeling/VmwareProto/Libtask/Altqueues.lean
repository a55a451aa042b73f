import VmwareProto.Libtask.Alt
/-!
# Who is queued

An alternative that waits is in one array, that of its op at its channel.
`Queued` says so of a set of alternatives: queueing and dequeueing add to the
set and take from it, and change nothing else.
-/

namespace VmwareProto

namespace Libtask

namespace Chan

variable {A : Altarray} {C C' : Channel} {H H' : Heap} {P : AltPtr → Prop} {p q : AltPtr} {a : Alt}
  {op : AltOp} {c : ChanId} {t : TaskId} {ar : Altarray}

/-! ## Arrays -/

namespace Altarray

/-- Every entry is there once, and there is room for them. -/
structure Ok (A : Altarray) : Prop where
  nodup : A.a.Nodup
  room : A.a.length ≤ A.m

theorem Ok.addarray (h : A.Ok) (hp : p ∉ A.a) : (A.addarray p).Ok where
  nodup := by
    rw [Altarray.addarray, ← List.concat_eq_append]
    exact h.nodup.concat hp
  room := by
    have hroom := h.room
    simp only [Altarray.addarray, List.length_append, List.length_singleton]
    split <;> omega

theorem mem_addarray : q ∈ (A.addarray p).a ↔ q ∈ A.a ∨ q = p := by simp [Altarray.addarray]

/-- The others stay, in another order. -/
theorem delarray_perm {xs ys : List AltPtr} (h : A.a = xs ++ p :: ys) :
    (A.delarray xs.length).a.Perm (xs ++ ys) := by
  rcases List.eq_nil_or_concat ys with rfl | ⟨zs, u, rfl⟩
  · simp [delarray, h]
  · rw [List.concat_eq_append] at h ⊢
    have hlast : (xs ++ p :: (zs ++ [u])).getLast? = some u := by
      rw [← List.cons_append, ← List.append_assoc]
      exact List.getLast?_concat
    simp only [delarray, h, hlast]
    rw [List.set_append_right _ _ (Nat.le_refl _), Nat.sub_self, List.set_cons_zero,
      ← List.cons_append, ← List.append_assoc, List.dropLast_concat]
    exact List.Perm.append_left xs (List.perm_append_singleton u zs).symm

theorem delarray_m (i : ℕ) : (A.delarray i).m = A.m := by
  unfold delarray
  split <;> rfl

/-- **One entry is taken out.** -/
theorem Ok.delarray (h : A.Ok) (hp : p ∈ A.a) : ∃ i, A.a.idxOf? p = some i ∧ (A.delarray i).Ok ∧
    ∀ q, q ∈ (A.delarray i).a ↔ q ∈ A.a ∧ q ≠ p := by
  obtain ⟨xs, ys, hxy⟩ := List.append_of_mem hp
  have hnd := h.nodup
  rw [hxy, List.nodup_middle, List.nodup_cons, List.mem_append, not_or] at hnd
  have hi : A.a.idxOf? p = some xs.length := by
    rw [hxy, List.idxOf?_eq_some_iff]
    refine ⟨by simp, by simp, fun j hj => ?_⟩
    rw [List.getElem_append_left hj]
    intro e
    exact hnd.1.1 (e ▸ List.getElem_mem hj)
  have hperm := delarray_perm hxy
  refine ⟨_, hi, ⟨hperm.nodup_iff.2 hnd.2, ?_⟩, fun q => ?_⟩
  · have hroom := h.room
    rw [delarray_m, hperm.length_eq]
    rw [hxy] at hroom
    simp only [List.length_append, List.length_cons] at hroom ⊢
    omega
  · rw [hperm.mem_iff, hxy]
    simp only [List.mem_append, List.mem_cons]
    constructor
    · intro hq
      exact ⟨hq.imp_right .inr, fun e => hq.elim (e ▸ hnd.1.1) (e ▸ hnd.1.2)⟩
    · rintro ⟨hq | rfl | hq, hne⟩
      · exact .inl hq
      · exact absurd rfl hne
      · exact .inr hq

end Altarray

/-! ## Channels -/

namespace Channel

/-- A channel without its arrays. -/
def bare (C : Channel) : Channel := { C with asend := ⟨[], 0⟩, arecv := ⟨[], 0⟩ }

/-- What a channel is apart from its arrays. -/
theorem of_bare (h : C'.bare = C.bare) : C'.bufsize = C.bufsize ∧ C'.elemsize = C.elemsize ∧
    C'.buf = C.buf ∧ C'.nbuf = C.nbuf ∧ C'.off = C.off := by
  simp only [bare, Channel.mk.injEq] at h
  tauto

@[simp] theorem bare_setArray (A : Altarray) (op : AltOp) : (C.setArray A op).bare = C.bare := by
  cases op <;> rfl

theorem chanarray_setArray (A : Altarray) (h : op ≠ .channop) (op' : AltOp) :
    (C.setArray A op).chanarray op' = if op' = op then some A else C.chanarray op' := by
  cases op <;> cases op' <;> first | rfl | exact absurd rfl h

theorem exists_chanarray (C : Channel) (h : op ≠ .channop) : ∃ ar, C.chanarray op = some ar := by
  cases op with
  | chansnd => exact ⟨_, rfl⟩
  | chanrcv => exact ⟨_, rfl⟩
  | channop => exact absurd rfl h

end Channel

theorem otherop_ne (h : op ≠ .channop) : otherop op ≠ .channop := by
  cases op <;> first | exact AltOp.noConfusion | exact absurd rfl h

/-! ## The heap -/

/-- Alternatives are what they were, and so are the channels without their
arrays. -/
structure Frame (H H' : Heap) : Prop where
  alts : H'.alts = H.alts
  chan : ∀ c, (H'.chan c).map Channel.bare = (H.chan c).map Channel.bare

theorem Frame.refl (H : Heap) : Frame H H := ⟨rfl, fun _ => rfl⟩

theorem Frame.trans {H'' : Heap} (h : Frame H H') (h' : Frame H' H'') : Frame H H'' :=
  ⟨h'.alts.trans h.alts, fun c => (h'.chan c).trans (h.chan c)⟩

theorem Frame.alt (h : Frame H H') (p : AltPtr) : H'.alt p = H.alt p := by
  rw [Heap.alt, h.alts]
  rfl

theorem Frame.exists_chan (h : Frame H H') (hC : H.chan c = some C) :
    ∃ C', H'.chan c = some C' ∧ C'.bare = C.bare := by
  have hc := h.chan c
  rw [hC, Option.map_some] at hc
  exact Option.map_eq_some_iff.1 hc

theorem frame_setArray (hC : H.chan c = some C) (A : Altarray) (op : AltOp) :
    Frame H (H.setChan c (C.setArray A op)) := by
  refine ⟨rfl, fun d => ?_⟩
  simp only [Heap.setChan, Function.update_apply]
  split
  · rename_i hd
    rw [hd, hC, Option.map_some, Option.map_some, Channel.bare_setArray]
  · rfl

/-- **Those of `P` are queued**, each in the array that its op and its
channel say, and nobody else is. -/
structure Queued (H : Heap) (P : AltPtr → Prop) : Prop where
  ok : ∀ c C op ar, H.chan c = some C → C.chanarray op = some ar → ar.Ok
  mem : ∀ c C op ar, H.chan c = some C → C.chanarray op = some ar →
    ∀ p, p ∈ ar.a ↔ P p ∧ ∃ a, H.alt p = some a ∧ a.c = c ∧ a.op = op

theorem Queued.congr {Q : AltPtr → Prop} (h : Queued H P) (hPQ : ∀ p, Q p ↔ P p) : Queued H Q :=
  ⟨h.ok, fun c C op ar hC har p => by rw [hPQ, h.mem c C op ar hC har p]⟩

/-- What queues depend on. -/
theorem Queued.frame {Q : AltPtr → Prop} (h : Queued H P)
    (hc : ∀ c C op ar, H'.chan c = some C → C.chanarray op = some ar →
      ∃ C₀, H.chan c = some C₀ ∧ C₀.chanarray op = some ar)
    (ha : ∀ p c op, op ≠ .channop → ((Q p ∧ ∃ a, H'.alt p = some a ∧ a.c = c ∧ a.op = op) ↔
      (P p ∧ ∃ a, H.alt p = some a ∧ a.c = c ∧ a.op = op))) : Queued H' Q := by
  refine ⟨fun c C op ar hC har => ?_, fun c C op ar hC har p => ?_⟩
  · obtain ⟨C₀, hC₀, har₀⟩ := hc c C op ar hC har
    exact h.ok c C₀ op ar hC₀ har₀
  · obtain ⟨C₀, hC₀, har₀⟩ := hc c C op ar hC har
    have hop : op ≠ .channop := by
      rintro rfl
      cases har
    rw [ha p c op hop]
    exact h.mem c C₀ op ar hC₀ har₀ p

/-- An array is changed. -/
theorem Queued.setArray {Q : AltPtr → Prop} {A : Altarray} (h : Queued H P) (hC : H.chan c = some C)
    (hop : op ≠ .channop) (hA : A.Ok)
    (hmem : ∀ p, p ∈ A.a ↔ Q p ∧ ∃ a, H.alt p = some a ∧ a.c = c ∧ a.op = op)
    (hother : ∀ p a, H.alt p = some a → ¬(a.c = c ∧ a.op = op) → (Q p ↔ P p)) :
    Queued (H.setChan c (C.setArray A op)) Q := by
  have hcases : ∀ d D op' ar, (H.setChan c (C.setArray A op)).chan d = some D →
      D.chanarray op' = some ar → d = c ∧ op' = op ∧ ar = A ∨ ¬(d = c ∧ op' = op) ∧
        ∃ D₀, H.chan d = some D₀ ∧ D₀.chanarray op' = some ar := by
    intro d D op' ar hD har
    simp only [Heap.setChan, Function.update_apply] at hD
    split at hD
    · rename_i hd
      obtain rfl := Option.some.inj hD
      rw [Channel.chanarray_setArray A hop] at har
      split at har
      · rename_i hop'
        exact .inl ⟨hd, hop', (Option.some.inj har).symm⟩
      · rename_i hop'
        exact .inr ⟨fun e => hop' e.2, C, by rw [hd, hC], har⟩
    · rename_i hd
      exact .inr ⟨fun e => hd e.1, D, hD, har⟩
  refine ⟨fun d D op' ar hD har => ?_, fun d D op' ar hD har p => ?_⟩
  · rcases hcases d D op' ar hD har with ⟨-, -, rfl⟩ | ⟨-, D₀, hD₀, har₀⟩
    · exact hA
    · exact h.ok d D₀ op' ar hD₀ har₀
  · rcases hcases d D op' ar hD har with ⟨rfl, rfl, rfl⟩ | ⟨hne, D₀, hD₀, har₀⟩
    · exact hmem p
    · rw [h.mem d D₀ op' ar hD₀ har₀ p]
      constructor
      · rintro ⟨hp, a, ha, rfl, rfl⟩
        exact ⟨(hother p a ha hne).2 hp, a, ha, rfl, rfl⟩
      · rintro ⟨hp, a, ha, rfl, rfl⟩
        exact ⟨(hother p a ha hne).1 hp, a, ha, rfl, rfl⟩

/-! ## Queueing -/

/-- An alternative that can be queued. -/
structure Queueable (H : Heap) (p : AltPtr) (a : Alt) : Prop where
  alt : H.alt p = some a
  op : a.op ≠ .channop
  chan : ∃ C, H.chan a.c = some C

theorem Queueable.frame (h : Queueable H p a) (hf : Frame H H') : Queueable H' p a := by
  obtain ⟨C, hC⟩ := h.chan
  obtain ⟨C', hC', -⟩ := hf.exists_chan hC
  exact ⟨(hf.alt p).trans h.alt, h.op, C', hC'⟩

/-- `altqueue` -/
theorem Queued.altqueue (h : Queued H P) (ha : Queueable H p a) (hp : ¬P p) :
    ∃ H', H.altqueue p = some H' ∧ Frame H H' ∧ Queued H' fun q => P q ∨ q = p := by
  obtain ⟨ha, hop, C, hC⟩ := ha
  obtain ⟨ar, har⟩ := C.exists_chanarray hop
  have hmem := h.mem a.c C a.op ar hC har
  have hrun : H.altqueue p = some (H.setChan a.c (C.setArray (ar.addarray p) a.op)) := by
    simp only [Heap.altqueue, ha, hC, har, Option.bind_eq_bind, Option.bind_some]
  refine ⟨_, hrun, frame_setArray hC _ _,
    h.setArray hC hop ((h.ok a.c C a.op ar hC har).addarray ?_) ?_ ?_⟩
  · exact fun hm => hp ((hmem p).1 hm).1
  · intro q
    rw [Altarray.mem_addarray, hmem]
    constructor
    · rintro (⟨hq, x, hx⟩ | rfl)
      · exact ⟨.inl hq, x, hx⟩
      · exact ⟨.inr rfl, a, ha, rfl, rfl⟩
    · rintro ⟨hq | rfl, x, hx⟩
      · exact .inl ⟨hq, x, hx⟩
      · exact .inr rfl
  · intro q x hx hne
    refine or_iff_left fun e => ?_
    subst e
    obtain rfl := Option.some.inj (hx.symm.trans ha)
    exact hne ⟨rfl, rfl⟩

/-- `altdequeue`: who is queued is found. -/
theorem Queued.altdequeue (h : Queued H P) (ha : Queueable H p a) (hp : P p) :
    ∃ H', H.altdequeue p = some H' ∧ Frame H H' ∧ Queued H' fun q => P q ∧ q ≠ p := by
  obtain ⟨ha, hop, C, hC⟩ := ha
  obtain ⟨ar, har⟩ := C.exists_chanarray hop
  have hmem := h.mem a.c C a.op ar hC har
  obtain ⟨i, hi, hok, hdel⟩ := (h.ok a.c C a.op ar hC har).delarray
    ((hmem p).2 ⟨hp, a, ha, rfl, rfl⟩)
  have hrun : H.altdequeue p = some (H.setChan a.c (C.setArray (ar.delarray i) a.op)) := by
    simp only [Heap.altdequeue, ha, hC, har, hi, Option.bind_eq_bind, Option.bind_some]
  refine ⟨_, hrun, frame_setArray hC _ _, h.setArray hC hop hok ?_ ?_⟩
  · intro q
    rw [hdel, hmem]
    tauto
  · intro q x hx hne
    refine and_iff_left fun e => ?_
    subst e
    obtain rfl := Option.some.inj (hx.symm.trans ha)
    exact hne ⟨rfl, rfl⟩

/-! ## All alternatives of a task -/

/-- The alternatives of task `t` from the `i`th on, `n` of them, that are not
`CHANNOP`. -/
def Among (H : Heap) (t : TaskId) (i n : ℕ) (p : AltPtr) : Prop :=
  p.task = t ∧ i ≤ p.i ∧ p.i < i + n ∧ ∃ a, H.alt p = some a ∧ a.op ≠ .channop

/-- The first of them, and the others. -/
theorem among_succ {i n : ℕ} (ha : H.alt ⟨t, i⟩ = some a) :
    Among H t i (n + 1) p ↔ p = ⟨t, i⟩ ∧ a.op ≠ .channop ∨ Among H t (i + 1) n p := by
  constructor
  · rintro ⟨ht, hle, hlt, b, hb, hop⟩
    rcases Nat.eq_or_lt_of_le hle with hi | hi
    · have hp : p = ⟨t, i⟩ := by
        cases p
        simp only at ht hi
        rw [ht, hi]
      rw [hp, ha] at hb
      obtain rfl := Option.some.inj hb
      exact .inl ⟨hp, hop⟩
    · exact .inr ⟨ht, hi, by omega, b, hb, hop⟩
  · rintro (⟨rfl, hop⟩ | ⟨ht, hle, hlt, hb⟩)
    · exact ⟨rfl, Nat.le_refl _, by simp, a, ha, hop⟩
    · exact ⟨ht, by omega, by omega, hb⟩

theorem among_frame {i n : ℕ} (hf : Frame H H') : Among H' t i n p ↔ Among H t i n p := by
  simp only [Among, hf.alt]

/-- **Every alternative of a task is queued.** -/
theorem Queued.eachAlt_altqueue {i n : ℕ} (h : Queued H P)
    (ha : ∀ j, i ≤ j → j < i + n → ∃ a, H.alt ⟨t, j⟩ = some a ∧
      (a.op ≠ .channop → ∃ C, H.chan a.c = some C))
    (hp : ∀ p, Among H t i n p → ¬P p) :
    ∃ H', Heap.eachAlt Heap.altqueue ⟨t, i⟩ n H = some H' ∧ Frame H H' ∧
      Queued H' fun p => P p ∨ Among H t i n p := by
  induction n generalizing i H P with
  | zero => exact ⟨H, rfl, .refl H, h.congr fun p => or_iff_left fun hm => by
      have := hm.2
      omega⟩
  | succ n ih =>
      obtain ⟨a, hat, hC⟩ := ha i (Nat.le_refl _) (by omega)
      simp only [Heap.eachAlt, hat, Option.bind_some]
      -- the first
      obtain ⟨H₁, hH₁, hf, hQ₁⟩ : ∃ H₁, (if a.op = .channop then some H else H.altqueue ⟨t, i⟩) =
          some H₁ ∧ Frame H H₁ ∧ Queued H₁ fun q => P q ∨ q = ⟨t, i⟩ ∧ a.op ≠ .channop := by
        by_cases hop : a.op = .channop
        · rw [if_pos hop]
          exact ⟨H, rfl, .refl H, h.congr fun p => or_iff_left fun hm => hm.2 hop⟩
        · rw [if_neg hop]
          obtain ⟨H₁, hH₁, hf, hQ₁⟩ := h.altqueue ⟨hat, hop, hC hop⟩
            (hp _ ((among_succ hat).2 (.inl ⟨rfl, hop⟩)))
          exact ⟨H₁, hH₁, hf, hQ₁.congr fun p => by simp [hop]⟩
      rw [hH₁, Option.bind_some]
      -- the others
      obtain ⟨H', hH', hf', hQ'⟩ := ih (i := i + 1) hQ₁ (fun j hj hlt => by
          obtain ⟨b, hb, hD⟩ := ha j (by omega) (by omega)
          refine ⟨b, (hf.alt _).trans hb, fun hop => ?_⟩
          obtain ⟨D, hD⟩ := hD hop
          obtain ⟨D', hD', -⟩ := hf.exists_chan hD
          exact ⟨D', hD'⟩)
        (fun p hm => by
          rw [among_frame hf] at hm
          rintro (hP | ⟨rfl, -⟩)
          · exact hp p ((among_succ hat).2 (.inr hm)) hP
          · exact absurd hm.2.1 (Nat.not_succ_le_self i))
      refine ⟨H', hH', hf.trans hf', hQ'.congr fun p => ?_⟩
      rw [among_succ hat, among_frame hf, or_assoc]

/-- **Every alternative of a task is dequeued.** -/
theorem Queued.eachAlt_altdequeue {i n : ℕ} (h : Queued H P)
    (ha : ∀ j, i ≤ j → j < i + n → ∃ a, H.alt ⟨t, j⟩ = some a ∧
      (a.op ≠ .channop → ∃ C, H.chan a.c = some C))
    (hp : ∀ p, Among H t i n p → P p) :
    ∃ H', Heap.eachAlt Heap.altdequeue ⟨t, i⟩ n H = some H' ∧ Frame H H' ∧
      Queued H' fun p => P p ∧ ¬Among H t i n p := by
  induction n generalizing i H P with
  | zero => exact ⟨H, rfl, .refl H, h.congr fun p => and_iff_left fun hm => by
      have := hm.2
      omega⟩
  | succ n ih =>
      obtain ⟨a, hat, hC⟩ := ha i (Nat.le_refl _) (by omega)
      simp only [Heap.eachAlt, hat, Option.bind_some]
      -- the first
      obtain ⟨H₁, hH₁, hf, hQ₁⟩ : ∃ H₁, (if a.op = .channop then some H else H.altdequeue ⟨t, i⟩) =
          some H₁ ∧ Frame H H₁ ∧ Queued H₁ fun q => P q ∧ ¬(q = ⟨t, i⟩ ∧ a.op ≠ .channop) := by
        by_cases hop : a.op = .channop
        · rw [if_pos hop]
          exact ⟨H, rfl, .refl H, h.congr fun p => and_iff_left fun hm => hm.2 hop⟩
        · rw [if_neg hop]
          obtain ⟨H₁, hH₁, hf, hQ₁⟩ := h.altdequeue ⟨hat, hop, hC hop⟩
            (hp _ ((among_succ hat).2 (.inl ⟨rfl, hop⟩)))
          exact ⟨H₁, hH₁, hf, hQ₁.congr fun p => by simp [hop]⟩
      rw [hH₁, Option.bind_some]
      -- the others
      obtain ⟨H', hH', hf', hQ'⟩ := ih (i := i + 1) hQ₁ (fun j hj hlt => by
          obtain ⟨b, hb, hD⟩ := ha j (by omega) (by omega)
          refine ⟨b, (hf.alt _).trans hb, fun hop => ?_⟩
          obtain ⟨D, hD⟩ := hD hop
          obtain ⟨D', hD', -⟩ := hf.exists_chan hD
          exact ⟨D', hD'⟩)
        (fun p hm => by
          rw [among_frame hf] at hm
          refine ⟨hp p ((among_succ hat).2 (.inr hm)), ?_⟩
          rintro ⟨rfl, -⟩
          exact absurd hm.2.1 (Nat.not_succ_le_self i))
      refine ⟨H', hH', hf.trans hf', hQ'.congr fun p => ?_⟩
      rw [among_succ hat, among_frame hf, not_or, and_assoc]

end Chan

end Libtask

end VmwareProto
