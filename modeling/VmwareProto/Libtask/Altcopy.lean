import VmwareProto.Libtask.Altqueues
/-!
# What is moved

`altcopy` moves an element from the sender, or one to the receiver, or both:
behind what is in the channel goes what is sent, and what is received comes
from the front of it.
-/

namespace VmwareProto

namespace Libtask

namespace Chan

variable {C C' : Channel} {H H' : Heap} {p q s r : AltPtr} {a x y : Alt} {op : AltOp} {c : ChanId}
  {v : Option (List Byte)} {w : List Byte} {n : ℕ} {ds : List Deal}

namespace Channel

/-! ## Elements -/

/-- `v` points to an element of a channel, or is nil. -/
def Fits (n : ℕ) (v : Option (List Byte)) : Prop := ∀ w ∈ v, n ≤ w.length

theorem length_moved (h : Fits n v) : (moved n v).length = n := by
  cases v with
  | none => simp [moved]
  | some w => simp [moved, h w rfl]

@[simp] theorem moved_some (h : w.length = n) : moved n (some w) = w := by
  rw [moved, ← h, List.take_length]

/-- What was moved is where `v` points to. -/
theorem prefix_of_amove {dst : Option (List Byte)} {u : List Byte} (h : w.length = n)
    (hv : u ∈ amove dst (some w) n) : w <+: u := by
  obtain ⟨d, -, rfl⟩ := Option.map_eq_some_iff.1 hv
  rw [moved_some h]
  exact List.prefix_append ..

theorem fits_amove {dst : Option (List Byte)} (hw : w.length = n) :
    Fits n (amove dst (some w) n) := by
  intro v hv
  rw [← hw]
  exact (prefix_of_amove hw hv).length_le

/-! ## The buffer -/

/-- **The buffer is a queue** of `nbuf` elements. -/
structure Ok (C : Channel) : Prop where
  nbuf : C.nbuf ≤ C.bufsize
  off : 0 < C.bufsize → C.off < C.bufsize
  buf : C.buf.length = C.bufsize * C.elemsize

@[simp] theorem length_contents : C.contents.length = C.nbuf := Slots.length_contents

theorem ok_chancreate {elemsize bufsize : ℕ} {buf : List Byte}
    (h : buf.length = bufsize * elemsize) :
    (chancreate elemsize bufsize buf).Ok :=
  ⟨Nat.zero_le _, fun hpos => hpos, h⟩

/-- The arrays do not matter. -/
theorem Ok.of_bare (h : C.Ok) (e : C'.bare = C.bare) : C'.Ok ∧ C'.contents = C.contents := by
  obtain ⟨hb, he, hbuf, hn, hoff⟩ := Channel.of_bare e
  refine ⟨⟨by rw [hn, hb]; exact h.nbuf, by rw [hoff, hb]; exact h.off, ?_⟩, ?_⟩
  · rw [hbuf, hb, he]
    exact h.buf
  · rw [contents, contents, hb, he, hbuf, hn, hoff]

theorem Ok.length_front (h : C.Ok) (hpos : 0 < C.nbuf) : C.front.length = C.elemsize :=
  Slots.length_slot h.buf (h.off (by have := h.nbuf; omega))

/-- The oldest element is received. -/
theorem Ok.pop (h : C.Ok) (hpos : 0 < C.nbuf) :
    C.pop.Ok ∧ C.contents = C.front :: C.pop.contents := by
  have hb : 0 < C.bufsize := by
    have := h.nbuf
    omega
  have hoff := h.off hb
  refine ⟨⟨?_, fun _ => ?_, h.buf⟩, ?_⟩
  · show C.nbuf - 1 ≤ C.bufsize
    have := h.nbuf
    omega
  · show (if C.off + 1 = C.bufsize then 0 else C.off + 1) < C.bufsize
    split <;> omega
  · obtain ⟨k, hk⟩ : ∃ k, C.nbuf = k + 1 := ⟨C.nbuf - 1, by omega⟩
    simp only [contents, front, Channel.pop, hk, Nat.add_sub_cancel]
    exact Slots.contents_pop hoff

/-- An element is sent. -/
theorem Ok.push (h : C.Ok) (hlt : C.nbuf < C.bufsize) (hv : Fits C.elemsize v) :
    (C.push v).Ok ∧ (C.push v).contents = C.contents ++ [moved C.elemsize v] := by
  have hi : (C.off + C.nbuf) % C.bufsize < C.bufsize := Nat.mod_lt _ (by omega)
  exact ⟨⟨hlt, h.off, Slots.length_write h.buf hi (length_moved hv)⟩,
    Slots.contents_push h.buf hlt (length_moved hv)⟩

end Channel

/-! ## Alternatives -/

theorem Heap.alt_setAlt (h : H.alt p = some x) :
    (H.setAlt p a).alt q = if q = p then some a else H.alt q := by
  obtain ⟨hi, -⟩ := List.getElem?_eq_some_iff.1 (show (H.alts p.task)[p.i]? = some x from h)
  simp only [Heap.alt, Heap.setAlt, Function.update_apply]
  by_cases ht : q.task = p.task
  · rw [if_pos ht, List.getElem?_set]
    by_cases hqi : p.i = q.i
    · have hqp : q = p := by
        cases q
        cases p
        simp only at ht hqi
        rw [ht, hqi]
      rw [if_pos hqi, if_pos hqp, if_pos hi]
    · rw [if_neg hqi, if_neg fun e => hqi (by rw [e]), ht]
  · rw [if_neg ht, if_neg fun e => ht (by rw [e])]

theorem Heap.alts_setAlt_of_ne {t : TaskId} (h : t ≠ p.task) : (H.setAlt p a).alts t = H.alts t :=
  Function.update_of_ne h ..

/-- Something is moved to the alternative in `r`. -/
def Heap.deliver (H : Heap) (n : ℕ) (w : List Byte) : Option AltPtr → Heap
  | none => H
  | some r => (H.alt r).elim H fun y => H.setAlt r { y with v := Channel.amove y.v (some w) n }

@[simp] theorem Heap.deliver_chan (ro : Option AltPtr) : (H.deliver n w ro).chan = H.chan := by
  cases ro with
  | none => rfl
  | some r =>
      rw [Heap.deliver]
      cases H.alt r <;> rfl

theorem Heap.alt_deliver {ro : Option AltPtr} : (H.deliver n w ro).alt q =
    if ro = some q then (H.alt q).map fun y => { y with v := Channel.amove y.v (some w) n }
    else H.alt q := by
  cases ro with
  | none => rfl
  | some r =>
      rw [Heap.deliver]
      cases hr : H.alt r with
      | none =>
          split
          · rename_i e
            rw [← Option.some.inj e, Option.elim_none, hr]
            rfl
          · rfl
      | some y =>
          rw [Option.elim_some, Heap.alt_setAlt hr]
          by_cases e : q = r
          · rw [if_pos e, if_pos (by rw [e]), e, hr]
            rfl
          · rw [if_neg e, if_neg fun e' => e (Option.some.inj e').symm]

theorem Heap.alts_deliver_of_ne {t : TaskId} {ro : Option AltPtr} (h : ∀ r ∈ ro, t ≠ r.task) :
    (H.deliver n w ro).alts t = H.alts t := by
  cases ro with
  | none => rfl
  | some r =>
      rw [Heap.deliver]
      cases H.alt r with
      | none => rfl
      | some y => exact alts_setAlt_of_ne (h r rfl)

/-! ## `altcopy` -/

/-- What a sender and a receiver have moved, in either order. -/
def dealt (c : ChanId) (so ro : Option AltPtr) (sent got : List Byte) : List Deal :=
  so.toList.map (fun s => ⟨s, c, .chansnd, sent⟩) ++ ro.toList.map fun r => ⟨r, c, .chanrcv, got⟩

/-- **What `altcopy` does** on the channel `c`, with a sender, a receiver or
both. -/
structure Copied (H : Heap) (c : ChanId) (C : Channel) (so ro : Option AltPtr) (C' : Channel)
    (sent got : List Byte) (H' : Heap) (ds : List Deal) : Prop where
  ok : C'.Ok
  arrays : C'.asend = C.asend ∧ C'.arecv = C.arecv
  sizes : C'.bufsize = C.bufsize ∧ C'.elemsize = C.elemsize
  nbuf : C'.nbuf + ro.toList.length = C.nbuf + so.toList.length
  heap : H' = (H.deliver C.elemsize got ro).setChan c C'
  /-- first in, first out -/
  queue : ro.toList.map (fun _ => got) ++ C'.contents = C.contents ++ so.toList.map fun _ => sent
  deals : ds.Perm (dealt c so ro sent got)
  sent_eq : ∀ s x, so = some s → H.alt s = some x → sent = Channel.moved C.elemsize x.v
  length_sent : so ≠ none → sent.length = C.elemsize
  length_got : ro ≠ none → got.length = C.elemsize

section

variable (hok : C.Ok)
include hok

theorem copied_push (hs : H.alt s = some x) (hx : Channel.Fits C.elemsize x.v)
    (hlt : C.nbuf < C.bufsize) :
    ∃ C' sent H' ds, H.copy c C (some s) none = some (H', ds) ∧
      Copied H c C (some s) none C' sent [] H' ds := by
  obtain ⟨hpok, hcont⟩ := hok.push hlt hx
  refine ⟨C.push x.v, Channel.moved C.elemsize x.v, _, _, ?_, hpok, ⟨rfl, rfl⟩, ⟨rfl, rfl⟩, rfl,
    rfl, ?_,
    .refl _, ?_, fun _ => Channel.length_moved hx, fun h => absurd rfl h⟩
  · simp only [Heap.copy, hs, Option.bind_eq_bind, Option.bind_some]
    rfl
  · simpa using hcont
  · rintro s' x' e hs'
    obtain rfl := Option.some.inj e
    obtain rfl := Option.some.inj (hs.symm.trans hs')
    rfl

theorem copied_pop (hr : H.alt r = some y) (hpos : 0 < C.nbuf) :
    ∃ C' got H' ds, H.copy c C none (some r) = some (H', ds) ∧
      Copied H c C none (some r) C' [] got H' ds := by
  obtain ⟨hpok, hcont⟩ := hok.pop hpos
  have hlen := hok.length_front hpos
  refine ⟨C.pop, C.front, _, _, ?_, hpok, ⟨rfl, rfl⟩, ⟨rfl, rfl⟩, ?_, rfl, ?_, .refl _, ?_,
    fun h => absurd rfl h, fun _ => hlen⟩
  · simp only [Heap.copy, hr, Option.bind_eq_bind, Option.bind_some, Heap.deliver, Option.elim_some,
      Channel.moved_some hlen]
    rfl
  · show C.nbuf - 1 + 1 = C.nbuf
    omega
  · simp [hcont]
  · rintro s x e
    cases e

/-- The channel is empty or unbuffered, or full. -/
theorem copied_both (hC : H.chan c = some C) (hs : H.alt s = some x) (hr : H.alt r = some y)
    (hx : Channel.Fits C.elemsize x.v) (hn : C.nbuf = 0 ∨ C.nbuf = C.bufsize) :
    ∃ C' sent got H' ds, H.copy c C (some s) (some r) = some (H', ds) ∧
      Copied H c C (some s) (some r) C' sent got H' ds := by
  have hlen := Channel.length_moved hx
  have hsent : ∀ s' x', some s = some s' → H.alt s' = some x' →
      Channel.moved C.elemsize x.v = Channel.moved C.elemsize x'.v := by
    rintro s' x' e hs'
    obtain rfl := Option.some.inj e
    obtain rfl := Option.some.inj (hs.symm.trans hs')
    rfl
  by_cases h0 : C.nbuf = 0
  · have hnil : C.contents = [] := List.length_eq_zero_iff.1 (by rw [Channel.length_contents, h0])
    refine ⟨C, Channel.moved C.elemsize x.v, Channel.moved C.elemsize x.v, _, _, ?_, hok,
      ⟨rfl, rfl⟩,
      ⟨rfl, rfl⟩, rfl, rfl, ?_, .refl _, hsent, fun _ => hlen, fun _ => hlen⟩
    · have hset : ∀ H₁ : Heap, H₁.chan = H.chan → H₁.setChan c C = H₁ := by
        intro H₁ h₁
        rw [Heap.setChan, h₁, ← hC, Function.update_eq_self, ← h₁]
      rw [hset _ (Heap.deliver_chan _)]
      have hmove : Channel.amove y.v (some (Channel.moved C.elemsize x.v)) C.elemsize =
          Channel.amove y.v x.v C.elemsize := by
        simp only [Channel.amove, Channel.moved_some hlen]
      simp only [Heap.copy, hs, hr, Option.bind_eq_bind, Option.bind_some, if_pos h0, Heap.deliver,
        Option.elim_some, hmove]
      rfl
    · rw [hnil]
      simp
  · have hpos : 0 < C.nbuf := Nat.pos_of_ne_zero h0
    have hfull := hn.resolve_left h0
    obtain ⟨hpok, hcont⟩ := hok.pop hpos
    have hlt : C.pop.nbuf < C.pop.bufsize := by
      show C.nbuf - 1 < C.bufsize
      omega
    obtain ⟨hpok', hcont'⟩ := hpok.push hlt (v := x.v) hx
    have hflen := hok.length_front hpos
    refine ⟨C.pop.push x.v, Channel.moved C.elemsize x.v, C.front, _, _, ?_, hpok', ⟨rfl, rfl⟩,
      ⟨rfl, rfl⟩,
      ?_, rfl, ?_, List.Perm.swap .., hsent, fun _ => hlen, fun _ => hflen⟩
    · simp only [Heap.copy, hs, hr, Option.bind_eq_bind, Option.bind_some, if_neg h0, Heap.deliver,
        Option.elim_some, Channel.moved_some hflen]
      rfl
    · show C.nbuf - 1 + 1 + 1 = C.nbuf + 1
      omega
    · rw [hcont', hcont]
      rfl

end

end Chan

end Libtask

end VmwareProto
