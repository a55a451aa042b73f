import VmwareProto.Libtask.Altcopy
/-!
# An alternative is executed

`altexec` moves an element with a partner that waits, whose task it makes
ready, or with the channel alone. Whoever still waits could not be executed
before and cannot be now.
-/

namespace VmwareProto

namespace Libtask

namespace Chan

variable {C C' : Channel} {H H' : Heap} {p q : AltPtr} {a o x y : Alt} {op : AltOp} {c : ChanId}
  {v : Option (List Byte)} {n : ℕ} {ds : List Deal} {S S' : TaskId → Prop} {t u : TaskId}
  {qo : Option AltPtr} {d : Deal} {r : ℕ} {ready : Option TaskId}

/-! ## Sleeping tasks -/

/-- **The alternative `x` of the sleeping task `t` cannot be executed**: no
other sleeping task has the other end, or the buffer is full or empty. -/
def Stuck (H : Heap) (S : TaskId → Prop) (t : TaskId) (x : Alt) (C : Channel) : Prop :=
  if C.bufsize = 0 then
    ∀ q y, S q.task → H.alt q = some y → y.c = x.c → y.op = otherop x.op → q.task = t
  else C.nbuf = if x.op = .chansnd then C.bufsize else 0

/-- A task that sleeps in `chanalt`. -/
structure Sleeps (H : Heap) (S : TaskId → Prop) (t : TaskId) : Prop where
  own : ∀ i x, H.alt ⟨t, i⟩ = some x → x.task = t ∧ x.xalt = ⟨t, 0⟩
  stuck : ∀ i x, H.alt ⟨t, i⟩ = some x → x.op ≠ .channop →
    ∃ C, H.chan x.c = some C ∧ Channel.Fits C.elemsize x.v ∧ Stuck H S t x C

/-- **The channels are in order**, where those of `S` sleep. -/
structure Heap.Ok (H : Heap) (S : TaskId → Prop) : Prop where
  chan : ∀ c C, H.chan c = some C → C.Ok
  queued : Queued H fun p => S p.task
  sleeps : ∀ t, S t → Sleeps H S t

/-- Whoever still sleeps, where a channel is used that none of them waits
for, or whose buffer is as full as before. -/
theorem Sleeps.mono (h : Sleeps H S t) (ht : S' t) (hS : ∀ t, S' t → S t ∧ H'.alts t = H.alts t)
    (hC : ∀ c C, H.chan c = some C → ∃ C', H'.chan c = some C' ∧ C'.bufsize = C.bufsize ∧
      C'.elemsize = C.elemsize ∧ (C'.nbuf = C.nbuf ∨
        ∀ q y, S q.task → H.alt q = some y → y.op ≠ .channop → y.c ≠ c)) : Sleeps H' S' t := by
  have halt : ∀ q : AltPtr, S' q.task → H'.alt q = H.alt q := fun q hq => by
    rw [Heap.alt, (hS _ hq).2]
    rfl
  refine ⟨fun i x hx => h.own i x (by rwa [halt ⟨t, i⟩ ht] at hx), fun i x hx hop => ?_⟩
  rw [halt ⟨t, i⟩ ht] at hx
  obtain ⟨C, hCx, hfit, hstuck⟩ := h.stuck i x hx hop
  obtain ⟨C', hC', hbuf, hsize, hn⟩ := hC x.c C hCx
  refine ⟨C', hC', by rw [hsize]; exact hfit, ?_⟩
  unfold Stuck at hstuck ⊢
  rw [hbuf]
  split
  · rename_i h0
    rw [if_pos h0] at hstuck
    intro q y hq hy
    rw [halt q hq] at hy
    exact hstuck q y (hS _ hq).1 hy
  · rename_i h0
    rw [if_neg h0] at hstuck
    rcases hn with hn | hn
    · rw [hn, hstuck]
    · exact absurd rfl (hn ⟨t, i⟩ x (hS t ht).1 hx hop)

/-! ## Sender and receiver -/

/-- The sender, of an alternative `p` with the op and its partner. -/
def sender (op : AltOp) (p : AltPtr) (qo : Option AltPtr) : Option AltPtr :=
  if op = .chansnd then some p else qo

/-- The receiver. -/
def receiver (op : AltOp) (p : AltPtr) (qo : Option AltPtr) : Option AltPtr :=
  if op = .chansnd then qo else some p

/-- `altcopy` finds out who sends. -/
theorem altcopy_eq (ha : H.alt p = some a) (hop : a.op ≠ .channop) (hC : H.chan a.c = some C)
    (hq : ∀ q ∈ qo, ∃ o, H.alt q = some o ∧ o.op = otherop a.op) :
    H.altcopy p qo = H.copy a.c C (sender a.op p qo) (receiver a.op p qo) := by
  cases qo with
  | none =>
      cases hp : a.op with
      | channop => exact absurd hp hop
      | _ => simp [Heap.altcopy, ha, hC, hp, sender, receiver]
  | some q =>
      obtain ⟨o, ho, hoo⟩ := hq q rfl
      cases hp : a.op with
      | channop => exact absurd hp hop
      | _ => simp [Heap.altcopy, ha, hC, ho, hp, sender, receiver, hoo, otherop]

/-- What an alternative was used for. -/
structure Matches (as : List Alt) (d : Deal) : Prop where
  alt : ∃ x, as[d.alt.i]? = some x ∧ x.c = d.c ∧ x.op = d.op ∧
    (d.op = .chansnd → d.val = Channel.moved d.val.length x.v) ∧
    (d.op = .chanrcv → ∀ v ∈ x.v, d.val <+: v)

/-- What was sent through a channel, in this order. -/
def sentOn (c : ChanId) (ds : List Deal) : List (List Byte) :=
  (ds.filter fun d => d.c = c ∧ d.op = .chansnd).map (·.val)

/-- What was received. -/
def receivedOn (c : ChanId) (ds : List Deal) : List (List Byte) :=
  (ds.filter fun d => d.c = c ∧ d.op = .chanrcv).map (·.val)

/-! ## Execution -/

/-- **What `altexec` of the alternative in `p` comes to.** -/
structure Execs (H : Heap) (S : TaskId → Prop) (p : AltPtr) (H' : Heap) (ds : List Deal)
    (ready : Option TaskId) : Prop where
  ok : H'.Ok fun t => S t ∧ ready ≠ some t
  alts : ∀ t, t ≠ p.task → ready ≠ some t → H'.alts t = H.alts t
  fresh : ∀ c, H.chan c = none → H'.chan c = none
  chan : ∀ c C, H.chan c = some C → ∃ C', H'.chan c = some C' ∧ C'.bufsize = C.bufsize ∧
    C'.elemsize = C.elemsize ∧ receivedOn c ds ++ C'.contents = C.contents ++ sentOn c ds
  size : ∀ d ∈ ds, ∃ C, H'.chan d.c = some C ∧ d.val.length = C.elemsize
  own : ∃ d, ds.filter (fun d => d.alt.task = p.task) = [d] ∧ d.alt = p ∧ Matches (H'.alts p.task) d
  only : ∀ d ∈ ds, d.alt.task = p.task ∨ ready = some d.alt.task
  woken : ∀ u, ready = some u → S u ∧ ∃ d, ds.filter (fun d => d.alt.task = u) = [d] ∧
    H'.awake u = some d.alt.i ∧ Matches (H'.alts u) d

/-! ## What is moved -/

variable {so ro : Option AltPtr} {sent got : List Byte}

section

variable (hcp : Copied H c C so ro C' sent got H' ds)
include hcp

theorem Copied.chan (e : ChanId) :
    H'.chan e = if e = c then some C' else H.chan e := by
  rw [hcp.heap]
  show Function.update (H.deliver C.elemsize got ro).chan c (some C') e = _
  rw [Heap.deliver_chan, Function.update_apply]

theorem Copied.alt (q : AltPtr) : H'.alt q = if ro = some q then
    (H.alt q).map fun y => { y with v := Channel.amove y.v (some got) C.elemsize }
      else H.alt q := by
  rw [hcp.heap]
  exact Heap.alt_deliver

/-- The alternatives are what they were, apart from what a `v` points to. -/
theorem Copied.exists_alt (hy : H.alt q = some y) : ∃ v, H'.alt q = some { y with v := v } := by
  rw [hcp.alt]
  split
  · exact ⟨_, by rw [hy]; rfl⟩
  · exact ⟨y.v, hy⟩

theorem Copied.alts_of_ne (ht : ∀ r ∈ ro, t ≠ r.task) : H'.alts t = H.alts t := by
  rw [hcp.heap]
  exact Heap.alts_deliver_of_ne ht

/-- What was sent and received. -/
theorem Copied.on (e : ChanId) :
    receivedOn e ds = (if e = c then ro.toList.map fun _ => got else []) ∧
    sentOn e ds = if e = c then so.toList.map fun _ => sent else [] := by
  have hfilter : ∀ (f : Deal → Bool) (l : List Deal),
      (dealt c so ro sent got).filter f = l → l.length ≤ 1 → ds.filter f = l := by
    intro f l hl hlen
    have hperm := hcp.deals.filter f
    rw [hl] at hperm
    match l, hlen with
    | [], _ => exact List.Perm.eq_nil hperm
    | [x], _ => exact List.perm_singleton.1 hperm
  constructor
  · rw [receivedOn]
    by_cases he : e = c
    · rw [if_pos he, hfilter _ (ro.toList.map fun r => ⟨r, c, .chanrcv, got⟩)]
      · cases ro <;> rfl
      · cases so <;> cases ro <;> simp [dealt, he]
      · cases ro <;> simp
    · rw [if_neg he, hfilter _ []]
      · rfl
      · cases so <;> cases ro <;> simp [dealt, Ne.symm he]
      · simp
  · rw [sentOn]
    by_cases he : e = c
    · rw [if_pos he, hfilter _ (so.toList.map fun s => ⟨s, c, .chansnd, sent⟩)]
      · cases so <;> rfl
      · cases so <;> cases ro <;> simp [dealt, he]
      · cases so <;> simp
    · rw [if_neg he, hfilter _ []]
      · rfl
      · cases so <;> cases ro <;> simp [dealt, Ne.symm he]
      · simp

/-- First in, first out. -/
theorem Copied.fifo {e : ChanId} {D : Channel} (hC : H.chan c = some C) (hD : H.chan e = some D) :
    ∃ D', H'.chan e = some D' ∧ D'.bufsize = D.bufsize ∧ D'.elemsize = D.elemsize ∧
      receivedOn e ds ++ D'.contents = D.contents ++ sentOn e ds := by
  obtain ⟨hr, hs⟩ := hcp.on e
  rw [hcp.chan, hr, hs]
  by_cases he : e = c
  · rw [he, hC] at hD
    obtain rfl := Option.some.inj hD
    rw [if_pos he, if_pos he, if_pos he]
    exact ⟨C', rfl, hcp.sizes.1, hcp.sizes.2, hcp.queue⟩
  · rw [if_neg he, if_neg he, if_neg he]
    exact ⟨D, hD, rfl, rfl, by simp⟩

/-- Elements have their size. -/
theorem Copied.size (hd : d ∈ ds) : d.c = c ∧ d.val.length = C.elemsize := by
  rw [hcp.deals.mem_iff, dealt, List.mem_append, List.mem_map, List.mem_map] at hd
  rcases hd with ⟨s, hs, rfl⟩ | ⟨r, hr, rfl⟩
  · exact ⟨rfl, hcp.length_sent fun e => by rw [e] at hs; cases hs⟩
  · exact ⟨rfl, hcp.length_got fun e => by rw [e] at hr; cases hr⟩

/-- The sender's alternative. -/
theorem Copied.matches_sender {s : AltPtr} (hs : so = some s) (hx : H.alt s = some x) (hc : x.c = c)
    (hop : x.op = .chansnd) (hne : ro ≠ some s) :
    Matches (H'.alts s.task) ⟨s, c, .chansnd, sent⟩ := by
  have hx' := hcp.alt s
  rw [if_neg hne, hx] at hx'
  refine ⟨x, hx', hc, hop, fun _ => ?_, fun e => by cases e⟩
  rw [hcp.length_sent (by rw [hs]; exact Option.some_ne_none s)]
  exact hcp.sent_eq s x hs hx

/-- The receiver's. -/
theorem Copied.matches_receiver {r : AltPtr} (hr : ro = some r) (hx : H.alt r = some x)
    (hc : x.c = c)
    (hop : x.op = .chanrcv) : Matches (H'.alts r.task) ⟨r, c, .chanrcv, got⟩ := by
  have hx' := hcp.alt r
  rw [if_pos hr, hx] at hx'
  refine ⟨_, hx', hc, hop, ?_, ?_⟩
  · intro e
    cases e
  · intro _ v hv
    exact Channel.prefix_of_amove (hcp.length_got (by rw [hr]; exact Option.some_ne_none r)) hv

/-- The arrays are what they were, and so is who is queued. -/
theorem Copied.queued {P : AltPtr → Prop} (hC : H.chan c = some C) (h : Queued H P) :
    Queued H' P := by
  refine h.frame (fun e D op ar hD har => ?_) fun q e op _ => and_congr_right fun _ => ?_
  · rw [hcp.chan] at hD
    split at hD
    · rename_i he
      obtain rfl := Option.some.inj hD
      refine ⟨C, by rw [he, hC], ?_⟩
      rw [← har]
      cases op <;> simp [Channel.chanarray, hcp.arrays]
    · exact ⟨D, hD, har⟩
  · rw [hcp.alt]
    split
    · cases H.alt q <;> simp
    · exact Iff.rfl

end

/-! ## The two that deal -/

/-- What an alternative with the op has done. -/
def dealOf (op : AltOp) (c : ChanId) (sent got : List Byte) (p : AltPtr) : Deal :=
  if op = .chansnd then ⟨p, c, .chansnd, sent⟩ else ⟨p, c, .chanrcv, got⟩

@[simp] theorem dealOf_alt : (dealOf op c sent got p).alt = p := by
  unfold dealOf
  split <;> rfl

theorem dealt_perm (hop : op ≠ .channop) :
    (dealt c (sender op p qo) (receiver op p qo) sent got).Perm
      (dealOf op c sent got p :: qo.toList.map (dealOf (otherop op) c sent got)) := by
  cases op with
  | channop => exact absurd rfl hop
  | chansnd => cases qo <;> exact .refl _
  | chanrcv =>
      cases qo with
      | none => exact .refl _
      | some q => exact List.Perm.swap ..

section

variable (hcp : Copied H a.c C (sender a.op p qo) (receiver a.op p qo) C' sent got H' ds)
  (hop : a.op ≠ .channop)
  (hq : ∀ q ∈ qo, q.task ≠ p.task ∧ ∃ o, H.alt q = some o ∧ o.c = a.c ∧ o.op = otherop a.op)
include hcp hop

theorem Copied.only (hd : d ∈ ds) : d.alt = p ∨ qo = some d.alt := by
  rw [(hcp.deals.trans (dealt_perm hop)).mem_iff, List.mem_cons, List.mem_map] at hd
  rcases hd with rfl | ⟨q, hq, rfl⟩
  · exact .inl dealOf_alt
  · rw [Option.mem_toList] at hq
    exact .inr (by rw [dealOf_alt]; exact hq)

include hq

/-- One deal is that of the alternative itself. -/
theorem Copied.own (ha : H.alt p = some a) :
    ∃ d, ds.filter (fun d => d.alt.task = p.task) = [d] ∧ d.alt = p ∧
      Matches (H'.alts p.task) d := by
  refine ⟨dealOf a.op a.c sent got p, ?_, dealOf_alt, ?_⟩
  · have hperm := (hcp.deals.trans (dealt_perm hop)).filter fun d => d.alt.task = p.task
    refine List.perm_singleton.1 (hperm.trans ?_)
    cases qo with
    | none => simp
    | some q => simp [(hq q rfl).1]
  · by_cases hs : a.op = .chansnd
    · rw [dealOf, if_pos hs]
      refine hcp.matches_sender (by rw [sender, if_pos hs]) ha rfl hs ?_
      rw [receiver, if_pos hs]
      intro e
      exact (hq p e).1 rfl
    · have hr : a.op = .chanrcv := by
        cases hao : a.op with
        | chansnd => exact absurd hao hs
        | chanrcv => rfl
        | channop => exact absurd hao hop
      rw [dealOf, if_neg hs]
      exact hcp.matches_receiver (by rw [receiver, if_neg hs]) ha rfl hr

/-- One is that of its partner. -/
theorem Copied.partner (hqo : qo = some q) : ∃ d, ds.filter (fun d => d.alt.task = q.task) = [d] ∧
    d.alt = q ∧ Matches (H'.alts q.task) d := by
  obtain ⟨hne, o, ho, hoc, hoo⟩ := hq q hqo
  refine ⟨dealOf (otherop a.op) a.c sent got q, ?_, dealOf_alt, ?_⟩
  · have hperm := (hcp.deals.trans (dealt_perm hop)).filter fun d => d.alt.task = q.task
    refine List.perm_singleton.1 (hperm.trans ?_)
    rw [hqo]
    simp [hne.symm]
  · cases hao : a.op with
    | channop => exact absurd hao hop
    | chansnd =>
        rw [hao] at hoo
        exact hcp.matches_receiver (by rw [receiver, if_pos hao, hqo]) ho hoc hoo
    | chanrcv =>
        rw [hao] at hoo
        have hs : a.op ≠ .chansnd := by
          rw [hao]
          exact AltOp.noConfusion
        refine hcp.matches_sender (by rw [sender, if_neg hs, hqo]) ho hoc hoo ?_
        rw [receiver, if_neg hs]
        intro e
        exact hne (by rw [Option.some.inj e])

end

/-! ## `altexec` -/

/-- Nobody waits at the other end. -/
theorem altexec_alone (ha : H.alt p = some a) (hC : H.chan a.c = some C)
    (har : ∀ ar, C.chanarray (otherop a.op) = some ar → ar.a = []) :
    H.altexec p r = (H.altcopy p none).map fun (H, ds) => (H, ds, none) := by
  simp only [Heap.altexec, ha, hC, Option.bind_eq_bind, Option.bind_some]
  split
  · rfl
  · rename_i ar h
    rw [har ar h]
    rfl

/-- Somebody does. -/
theorem altexec_partner {ar : Altarray} (ha : H.alt p = some a) (hC : H.chan a.c = some C)
    (har : C.chanarray (otherop a.op) = some ar) (hne : ar.a ≠ []) :
    ∃ other ∈ ar.a, H.altexec p r = (H.altcopy p (some other)).bind fun (H, ds) =>
      (H.alt other).bind fun o => (H.altalldequeue o.xalt).bind fun H =>
        (H.alt o.xalt).bind fun b =>
          some (H.setAlt o.xalt { b with xalt := other }, ds, some o.task) := by
  have hlen : ar.a.length ≠ 0 := fun e => hne (List.length_eq_zero_iff.1 e)
  have hlt : r % ar.a.length < ar.a.length := Nat.mod_lt _ (Nat.pos_of_ne_zero hlen)
  refine ⟨ar.a[r % ar.a.length], List.getElem_mem hlt, ?_⟩
  simp only [Heap.altexec, ha, hC, har, if_neg hlen, List.getElem?_eq_getElem hlt,
    Option.bind_eq_bind, Option.bind_some]

/-! ## The partner wakes up -/

/-- **A sleeping task is woken** by the one that executes its alternative in
`q`. -/
structure Wakes (H : Heap) (P : AltPtr → Prop) (q : AltPtr) (H' : Heap) : Prop where
  alts : ∀ t, t ≠ q.task → H'.alts t = H.alts t
  chan : ∀ c, (H'.chan c).map Channel.bare = (H.chan c).map Channel.bare
  queued : Queued H' fun p => P p ∧ p.task ≠ q.task
  awake : H'.awake q.task = some q.i
  deal : ∀ d, Matches (H.alts q.task) d → Matches (H'.alts q.task) d

theorem Wakes.exists_chan {P : AltPtr → Prop} (h : Wakes H P q H') (hC : H.chan c = some C) :
    ∃ C', H'.chan c = some C' ∧ C'.bare = C.bare := by
  have hc := h.chan c
  rw [hC, Option.map_some] at hc
  exact Option.map_eq_some_iff.1 hc

/-- All its alternatives are dequeued, and the first says which it was. -/
theorem Queued.wakes {P : AltPtr → Prop} (h : Queued H P) (hq : H.alt q = some o)
    (hall : ∀ i y, H.alt ⟨q.task, i⟩ = some y → P ⟨q.task, i⟩ ∧
      (y.op ≠ .channop → ∃ C, H.chan y.c = some C)) :
    ∃ H₁ b, H.altalldequeue ⟨q.task, 0⟩ = some H₁ ∧ H₁.alt ⟨q.task, 0⟩ = some b ∧
      Wakes H P q (H₁.setAlt ⟨q.task, 0⟩ { b with xalt := q }) := by
  obtain ⟨H₁, hH₁, hf, hQ₁⟩ := h.eachAlt_altdequeue (t := q.task) (i := 0)
    (n := (H.alts q.task).length) (fun j _ hj => by
      rw [Nat.zero_add] at hj
      exact ⟨_, List.getElem?_eq_getElem hj, (hall j _ (List.getElem?_eq_getElem hj)).2⟩)
    fun p hm => by
      obtain ⟨ht, -, -, y, hy, -⟩ := hm
      have e : p = ⟨q.task, p.i⟩ := by rw [← ht]
      rw [e] at hy ⊢
      exact (hall p.i y hy).1
  -- of these the task's are all that count
  have hamong : ∀ p y, H₁.alt p = some y → y.op ≠ .channop →
      (Among H q.task 0 (H.alts q.task).length p ↔ p.task = q.task) := by
    intro p y hy hyop
    rw [hf.alt] at hy
    refine ⟨fun hm => hm.1, fun e => ⟨e, Nat.zero_le _, ?_, y, hy, hyop⟩⟩
    rw [Nat.zero_add, ← e]
    exact (List.getElem?_eq_some_iff.1 (show (H.alts p.task)[p.i]? = some y from hy)).1
  obtain ⟨b, hb⟩ : ∃ b, H₁.alt ⟨q.task, 0⟩ = some b := by
    obtain ⟨hi, -⟩ := List.getElem?_eq_some_iff.1 (show (H.alts q.task)[q.i]? = some o from hq)
    rw [hf.alt]
    exact ⟨_, List.getElem?_eq_getElem (show 0 < (H.alts q.task).length by omega)⟩
  obtain ⟨H', hH'⟩ : ∃ H', H' = H₁.setAlt ⟨q.task, 0⟩ { b with xalt := q } := ⟨_, rfl⟩
  have halt : ∀ p, H'.alt p =
      if p = ⟨q.task, 0⟩ then some { b with xalt := q } else H.alt p := fun p => by
    rw [hH', Heap.alt_setAlt hb, hf.alt]
  have hb' : H.alt ⟨q.task, 0⟩ = some b := by rw [← hf.alt, hb]
  refine ⟨H₁, b, by rw [Heap.altalldequeue, Nat.sub_zero, hH₁], hb, ?_⟩
  rw [← hH']
  refine ⟨fun t ht => ?_, fun c => ?_, ?_, ?_, fun d hd => ?_⟩
  · rw [hH', Heap.alts_setAlt_of_ne (p := ⟨q.task, 0⟩) ht, hf.alts]
  · rw [hH']
    exact hf.chan c
  · refine hQ₁.frame (fun c D op ar hD har => ⟨D, by rw [← hD, hH']; rfl, har⟩) fun p c op hop => ?_
    have hiff : (∃ a, H'.alt p = some a ∧ a.c = c ∧ a.op = op) ↔
        ∃ a, H₁.alt p = some a ∧ a.c = c ∧ a.op = op := by
      rw [halt, hf.alt]
      split
      · rename_i e
        rw [e, hb']
        simp
      · exact Iff.rfl
    rw [hiff]
    constructor
    · rintro ⟨⟨hP, hu⟩, y, hy, hyc, hyo⟩
      exact ⟨⟨hP, fun hm => hu ((hamong p y hy (by rw [hyo]; exact hop)).1 hm)⟩, y, hy, hyc, hyo⟩
    · rintro ⟨⟨hP, hu⟩, y, hy, hyc, hyo⟩
      exact ⟨⟨hP, fun e => hu ((hamong p y hy (by rw [hyo]; exact hop)).2 e)⟩, y, hy, hyc, hyo⟩
  · simp only [Heap.awake, halt, if_pos, Option.bind_eq_bind, Option.bind_some]
  · -- the pointer in the first alternative is no part of what was dealt
    obtain ⟨x, hx, hm⟩ := hd
    have hx : H.alt ⟨q.task, d.alt.i⟩ = some x := hx
    have hx' := halt ⟨q.task, d.alt.i⟩
    by_cases e : (⟨q.task, d.alt.i⟩ : AltPtr) = ⟨q.task, 0⟩
    · rw [e, hb'] at hx
      obtain rfl := Option.some.inj hx
      rw [if_pos e] at hx'
      exact ⟨_, hx', hm⟩
    · rw [if_neg e, hx] at hx'
      exact ⟨x, hx', hm⟩

/-! ## Executed -/

section

variable (h : H.Ok S) (ha : H.alt p = some a) (hop : a.op ≠ .channop) (hC : H.chan a.c = some C)
  (hfit : Channel.Fits C.elemsize a.v)
include h ha hop hC hfit

/-- What the alternatives of an executed one's channel have to do with it. -/
theorem Heap.Ok.copied (qo : Option AltPtr)
    (hq : ∀ q ∈ qo, ∃ o, H.alt q = some o ∧ o.op = otherop a.op ∧
      Channel.Fits C.elemsize o.v ∧ (C.nbuf = 0 ∨ C.nbuf = C.bufsize))
    (hnone : qo = none → if a.op = .chansnd then C.nbuf < C.bufsize else 0 < C.nbuf) :
    ∃ C' sent got H' ds, H.altcopy p qo = some (H', ds) ∧
      Copied H a.c C (sender a.op p qo) (receiver a.op p qo) C' sent got H' ds := by
  have hok := h.chan a.c C hC
  rw [altcopy_eq ha hop hC fun q hqo => by
    obtain ⟨o, ho, hoo, -⟩ := hq q hqo
    exact ⟨o, ho, hoo⟩]
  cases qo with
  | none =>
      have hroom := hnone rfl
      by_cases hs : a.op = .chansnd
      · rw [if_pos hs] at hroom
        rw [sender, receiver, if_pos hs, if_pos hs]
        obtain ⟨C', sent, H', ds, hx, hcp⟩ := copied_push hok ha hfit hroom (c := a.c)
        exact ⟨C', sent, [], H', ds, hx, hcp⟩
      · rw [if_neg hs] at hroom
        rw [sender, receiver, if_neg hs, if_neg hs]
        obtain ⟨C', got, H', ds, hx, hcp⟩ := copied_pop hok ha hroom (c := a.c)
        exact ⟨C', [], got, H', ds, hx, hcp⟩
  | some q =>
      obtain ⟨o, ho, -, hofit, hn⟩ := hq q rfl
      by_cases hs : a.op = .chansnd
      · rw [sender, receiver, if_pos hs, if_pos hs]
        exact copied_both hok hC ha ho hfit hn
      · rw [sender, receiver, if_neg hs, if_neg hs]
        exact copied_both hok hC ho ha hofit hn

variable (hp : ¬S p.task)
include hp

/-- **The alternative deals with the channel alone.** -/
theorem Heap.Ok.execs_alone (hroom : if a.op = .chansnd then C.nbuf < C.bufsize else 0 < C.nbuf)
    (hbuf : C.bufsize ≠ 0) (har : ∀ ar, C.chanarray (otherop a.op) = some ar → ar.a = []) :
    ∃ H' ds, H.altexec p r = some (H', ds, none) ∧ Execs H S p H' ds none := by
  obtain ⟨C', sent, got, H', ds, hx, hcp⟩ := h.copied ha hop hC hfit none
    (fun q hq => by cases hq) fun _ => hroom
  have hto : ∀ r ∈ receiver a.op p none, r = p := by
    intro r hr
    unfold receiver at hr
    split at hr
    · cases hr
    · exact (Option.some.inj hr).symm
  have halts : ∀ t, t ≠ p.task → H'.alts t = H.alts t := fun t ht =>
    hcp.alts_of_ne fun r hr => by
      rw [hto r hr]
      exact ht
  -- nobody waits for this channel
  have hnobody : ∀ q y, S q.task → H.alt q = some y → y.op ≠ .channop → y.c ≠ a.c := by
    intro q y hqs hy hyop hyc
    obtain ⟨D, hD, -, hstuck⟩ := (h.sleeps _ hqs).stuck q.i y hy hyop
    rw [hyc, hC] at hD
    obtain rfl := Option.some.inj hD
    by_cases hyo : y.op = a.op
    · rw [Stuck, if_neg hbuf, hyo] at hstuck
      split at hroom <;> rename_i hs
      · rw [if_pos hs] at hstuck
        omega
      · rw [if_neg hs] at hstuck
        omega
    · have hyo : y.op = otherop a.op := by
        cases hy₁ : y.op <;> cases ha₁ : a.op <;> simp_all [otherop]
      obtain ⟨ar, hCar⟩ := C.exists_chanarray (otherop_ne hop)
      have hmem := (h.queued.mem _ _ _ _ hC hCar q).2 ⟨hqs, y, hy, hyc, hyo⟩
      rw [har ar hCar] at hmem
      cases hmem
  refine ⟨H', ds, by rw [altexec_alone ha hC har, hx]; rfl, ⟨⟨fun c D hD => ?_, ?_, fun t ht => ?_⟩,
    fun t ht _ => halts t ht, fun c hc => ?_, fun c D hD => hcp.fifo hC hD, fun d hd => ?_,
    hcp.own hop (fun q hq => by cases hq) ha, fun d hd => .inl ?_, fun u hu => by cases hu⟩⟩
  · rw [hcp.chan] at hD
    split at hD
    · exact Option.some.inj hD ▸ hcp.ok
    · exact h.chan c D hD
  · exact (hcp.queued hC h.queued).congr fun q => by simp
  · refine (h.sleeps t ht.1).mono ht (fun u hu => ⟨hu.1, halts u fun e => hp (e ▸ hu.1)⟩)
      fun c D hD => ?_
    rw [hcp.chan]
    by_cases hc : c = a.c
    · rw [hc, hC] at hD
      obtain rfl := Option.some.inj hD
      rw [if_pos hc]
      exact ⟨C', rfl, hcp.sizes.1, hcp.sizes.2,
        .inr fun q y hq hy hyop => hc ▸ hnobody q y hq hy hyop⟩
    · rw [if_neg hc]
      exact ⟨D, hD, rfl, rfl, .inl rfl⟩
  · rw [hcp.chan, if_neg fun e => by rw [e, hC] at hc; cases hc]
    exact hc
  · obtain ⟨hdc, hlen⟩ := hcp.size hd
    exact ⟨C', by rw [hcp.chan, if_pos hdc], by rw [hlen, hcp.sizes.2]⟩
  · rcases hcp.only hop hd with e | e
    · rw [e]
    · cases e

/-- **The alternative deals with a partner**, whose task wakes up. -/
theorem Heap.Ok.execs_partner {ar : Altarray} (har : C.chanarray (otherop a.op) = some ar)
    (hne : ar.a ≠ []) :
    ∃ H' ds u, H.altexec p r = some (H', ds, some u) ∧ Execs H S p H' ds (some u) := by
  obtain ⟨q, hqar, hexec⟩ := altexec_partner (r := r) ha hC har hne
  obtain ⟨hqs, o, ho, hoc, hoo⟩ := (h.queued.mem _ _ _ _ hC har q).1 hqar
  have hoop : o.op ≠ .channop := by
    rw [hoo]
    exact otherop_ne hop
  have hqp : q.task ≠ p.task := fun e => hp (e ▸ hqs)
  obtain ⟨hotask, hoxalt⟩ := (h.sleeps _ hqs).own q.i o ho
  -- the channel is empty or unbuffered, or full
  obtain ⟨hofit, hn⟩ : Channel.Fits C.elemsize o.v ∧ (C.nbuf = 0 ∨ C.nbuf = C.bufsize) := by
    obtain ⟨D, hD, hfit, hstuck⟩ := (h.sleeps _ hqs).stuck q.i o ho hoop
    rw [hoc, hC] at hD
    obtain rfl := Option.some.inj hD
    refine ⟨hfit, ?_⟩
    by_cases hb : C.bufsize = 0
    · have := (h.chan _ _ hC).nbuf
      omega
    · rw [Stuck, if_neg hb] at hstuck
      split at hstuck
      · exact .inr hstuck
      · exact .inl hstuck
  have hqo : ∀ q' ∈ some q, q'.task ≠ p.task ∧ ∃ o, H.alt q' = some o ∧ o.c = a.c ∧
      o.op = otherop a.op := by
    rintro q' e
    obtain rfl := Option.some.inj e
    exact ⟨hqp, o, ho, hoc, hoo⟩
  obtain ⟨C', sent, got, H₁, ds, hx, hcp⟩ := h.copied ha hop hC hfit (some q)
    (by
      rintro q' e
      obtain rfl := Option.some.inj e
      exact ⟨o, ho, hoo, hofit, hn⟩) fun e => by cases e
  have halts₁ : ∀ t, t ≠ p.task → t ≠ q.task → H₁.alts t = H.alts t := fun t htp htq =>
    hcp.alts_of_ne fun r hr => by
      unfold receiver at hr
      split at hr <;> obtain rfl := Option.some.inj hr
      · exact htq
      · exact htp
  -- the partner is dequeued
  obtain ⟨v, ho₁⟩ := hcp.exists_alt ho
  obtain ⟨H₂, b, hH₂, hb, hw⟩ := (hcp.queued hC h.queued).wakes ho₁ fun i y hy => by
    refine ⟨hqs, fun hyop => ?_⟩
    obtain ⟨D, hD⟩ : ∃ D, H.chan y.c = some D := by
      rw [hcp.alt] at hy
      split at hy
      · obtain ⟨y₀, hy₀, rfl⟩ := Option.map_eq_some_iff.1 hy
        obtain ⟨D, hD, -⟩ := (h.sleeps _ hqs).stuck i y₀ hy₀ hyop
        exact ⟨D, hD⟩
      · obtain ⟨D, hD, -⟩ := (h.sleeps _ hqs).stuck i y hy hyop
        exact ⟨D, hD⟩
    rw [hcp.chan]
    split
    · exact ⟨C', rfl⟩
    · exact ⟨D, hD⟩
  have hrun : H.altexec p r =
      some (H₂.setAlt ⟨q.task, 0⟩ { b with xalt := q }, ds, some q.task) := by
    simp only [hexec, hx, Option.bind_some, ho₁, hoxalt, hH₂, hb, hotask]
  refine ⟨_, ds, q.task, hrun, ?_⟩
  obtain ⟨H', hH'⟩ : ∃ H', H' = H₂.setAlt ⟨q.task, 0⟩ { b with xalt := q } := ⟨_, rfl⟩
  rw [← hH'] at hw ⊢
  have halts : ∀ t, t ≠ p.task → some q.task ≠ some t → H'.alts t = H.alts t := fun t htp htq => by
    have htq : t ≠ q.task := fun e => htq (by rw [e])
    rw [hw.alts t htq, halts₁ t htp htq]
  have hok₁ : ∀ c D, H₁.chan c = some D → D.Ok := by
    intro c D hD
    rw [hcp.chan] at hD
    split at hD
    · exact Option.some.inj hD ▸ hcp.ok
    · exact h.chan c D hD
  refine ⟨⟨fun c D' hD' => ?_, ?_, fun t ht => ?_⟩, halts, fun c hc => ?_, fun c D hD => ?_,
    fun d hd => ?_, ?_, fun d hd => ?_, fun u hu => ?_⟩
  · have hc := hw.chan c
    rw [hD', Option.map_some] at hc
    obtain ⟨D, hD, e⟩ := Option.map_eq_some_iff.1 hc.symm
    exact ((hok₁ c D hD).of_bare e.symm).1
  · refine hw.queued.congr fun q' => and_congr_right fun _ => ?_
    rw [ne_eq, Option.some.injEq, eq_comm]
  · refine (h.sleeps t ht.1).mono ht (fun u hu => ⟨hu.1, halts u (fun e => hp (e ▸ hu.1)) hu.2⟩)
      fun c D hD => ?_
    obtain ⟨D₁, hD₁, hb₁, he₁, hn₁⟩ : ∃ D₁, H₁.chan c = some D₁ ∧ D₁.bufsize = D.bufsize ∧
        D₁.elemsize = D.elemsize ∧ D₁.nbuf = D.nbuf := by
      rw [hcp.chan]
      by_cases hc : c = a.c
      · rw [hc, hC] at hD
        obtain rfl := Option.some.inj hD
        have hnbuf := hcp.nbuf
        rw [if_pos hc]
        refine ⟨C', rfl, hcp.sizes.1, hcp.sizes.2, ?_⟩
        unfold sender receiver at hnbuf
        split at hnbuf <;> simpa using hnbuf
      · rw [if_neg hc]
        exact ⟨D, hD, rfl, rfl, rfl⟩
    obtain ⟨D', hD', e⟩ := hw.exists_chan hD₁
    obtain ⟨hb', he', -, hn', -⟩ := Channel.of_bare e
    exact ⟨D', hD', hb'.trans hb₁, he'.trans he₁, .inl (hn'.trans hn₁)⟩
  · have hca : c ≠ a.c := by
      rintro rfl
      rw [hC] at hc
      cases hc
    have hc' := hw.chan c
    rw [hcp.chan, if_neg hca, hc, Option.map_none] at hc'
    exact Option.map_eq_none_iff.1 hc'
  · obtain ⟨D₁, hD₁, hb₁, he₁, hfifo⟩ := hcp.fifo hC hD
    obtain ⟨D', hD', e⟩ := hw.exists_chan hD₁
    obtain ⟨hb', he', -⟩ := Channel.of_bare e
    refine ⟨D', hD', hb'.trans hb₁, he'.trans he₁, ?_⟩
    rw [((hok₁ c D₁ hD₁).of_bare e).2]
    exact hfifo
  · obtain ⟨hdc, hlen⟩ := hcp.size hd
    obtain ⟨D', hD', e⟩ := hw.exists_chan (c := d.c) (C := C') (by rw [hcp.chan, if_pos hdc])
    exact ⟨D', hD', by rw [hlen, (Channel.of_bare e).2.1, hcp.sizes.2]⟩
  · obtain ⟨d, hd, hdp, hm⟩ := hcp.own hop hqo ha
    exact ⟨d, hd, hdp, by rw [hw.alts _ hqp.symm]; exact hm⟩
  · rcases hcp.only hop hd with e | e
    · exact .inl (by rw [e])
    · exact .inr (by rw [Option.some.inj e])
  · obtain rfl := Option.some.inj hu
    obtain ⟨d, hd, hdq, hm⟩ := hcp.partner hop hqo rfl
    exact ⟨hqs, d, hd, by rw [hdq]; exact hw.awake, hw.deal d hm⟩

end

end Chan

end Libtask

end VmwareProto
