import VmwareProto.Rpc.Channel
import Mathlib.Data.Nat.Basic
import Mathlib.Algebra.Order.Ring.Int
import Mathlib.Data.List.Perm.Basic
import Mathlib.Data.List.Perm.Subperm
import Mathlib.Tactic.Set
/-!
# The hash and the free list

What the two families of lists in a channel hold: the free list the
buffers that are not issued, the buckets the requests that are inside
`rpc_request` and have no response, each in the bucket of its sequence id.
`Free` is the pool's half and `Table` the hash's. They are kept apart
because the first one survives the step that breaks the second.
-/

namespace VmwareProto

namespace Rpc

open Libtask

variable {cfg : Cfg} {c c' : Channel} {a b alloc : Addr} {lists : Option ℕ → List Addr}
  {pending free : List Addr} {m m' : Msg}

/-- A request that waits for its response. -/
def Msg.Pending (m : Msg) : Prop := (∃ n, m.use = .request n) ∧ m.resp = none

/-- The free list. -/
structure Free (c : Channel) (free : List Addr) : Prop where
  ring : c.links.Ring (.head none) (free.map .elem)
  unissued : ∀ a ∈ free, c.msgs a = none
  live_free : ∀ a ∈ free, c.live a = true
  live_issued : ∀ a m, c.msgs a = some m → c.live a = true
  qlen : c.qlen = free.length

/-- The pending requests, and the lists they and the free buffers are in. -/
structure Table (cfg : Cfg) (c : Channel) (lists : Option ℕ → List Addr) (pending : List Addr) :
    Prop where
  rings : c.links.Rings lists
  mem_pending : ∀ a, a ∈ pending ↔ ∃ m, c.msgs a = some m ∧ m.Pending
  linked : ∀ i a, a ∈ lists (some i) ↔
    ∃ m, c.msgs a = some m ∧ m.Pending ∧ cfg.getBucket m.hdr.seqid = i
  nodup : pending.Nodup
  count : c.count = pending.length

/-- The parts of a channel that neither the pool nor the hash touches. -/
structure Channel.Keeps (c c' : Channel) : Prop where
  enabled : c'.enabled = c.enabled
  isOpen : c'.isOpen = c.isOpen
  seqid : c'.seqid = c.seqid
  state : c'.state = c.state
  fdlock : c'.fdlock = c.fdlock

theorem Channel.Keeps.refl (c : Channel) : c.Keeps c := ⟨rfl, rfl, rfl, rfl, rfl⟩

theorem Channel.Keeps.trans {c''  : Channel} (h : c.Keeps c') (h' : c'.Keeps c'') : c.Keeps c'' :=
  ⟨h'.enabled.trans h.enabled, h'.isOpen.trans h.isOpen, h'.seqid.trans h.seqid,
    h'.state.trans h.state, h'.fdlock.trans h.fdlock⟩

@[simp] theorem setMsg_msgs : (c.setMsg a m).msgs = Function.update c.msgs a (some m) := rfl
@[simp] theorem setMsg_links : (c.setMsg a m).links = c.links := rfl
@[simp] theorem setMsg_live : (c.setMsg a m).live = c.live := rfl
@[simp] theorem setMsg_count : (c.setMsg a m).count = c.count := rfl
@[simp] theorem setMsg_enabled : (c.setMsg a m).enabled = c.enabled := rfl
@[simp] theorem setMsg_fdlock : (c.setMsg a m).fdlock = c.fdlock := rfl
@[simp] theorem setMsg_seqid : (c.setMsg a m).seqid = c.seqid := rfl
@[simp] theorem setMsg_isOpen : (c.setMsg a m).isOpen = c.isOpen := rfl

theorem setMsg_eq_self (h : c.msgs a = some m) : c.setMsg a m = c := by
  rw [Channel.setMsg, ← h, Function.update_eq_self]

theorem keeps_setMsg : c.Keeps (c.setMsg a m) := ⟨rfl, rfl, rfl, rfl, rfl⟩

/-! ## Messages written in place -/

/-- A message of a live buffer that is not free is written. -/
theorem Free.setMsg (h : Free c free) (ha : a ∉ free) (hl : c.live a = true) :
    Free (c.setMsg a m) free where
  ring := h.ring
  unissued b hb := by
    have hne : b ≠ a := fun e => ha (e ▸ hb)
    rw [setMsg_msgs, Function.update_of_ne hne]
    exact h.unissued b hb
  live_free := h.live_free
  live_issued b r hr := by
    by_cases hb : b = a
    · rw [hb]; exact hl
    · rw [setMsg_msgs, Function.update_of_ne hb] at hr
      exact h.live_issued b r hr
  qlen := h.qlen

theorem Free.notMem (h : Free c free) (hm : c.msgs a = some m) : a ∉ free := fun ha => by
  rw [h.unissued a ha] at hm; cases hm

/-- An issued message is rewritten. -/
theorem Free.modify (h : Free c free) (hm : c.msgs a = some m) : Free (c.setMsg a m') free :=
  h.setMsg (h.notMem hm) (h.live_issued a m hm)

/-- **What the table sees of a message** is whether it is pending, and its
sequence id then. -/
theorem Table.congr (h : Table cfg c lists pending) (hl : c'.links = c.links)
    (hc : c'.count = c.count)
    (hm : ∀ a id, (∃ m, c'.msgs a = some m ∧ m.Pending ∧ m.hdr.seqid = id) ↔
      ∃ m, c.msgs a = some m ∧ m.Pending ∧ m.hdr.seqid = id) :
    Table cfg c' lists pending where
  rings := hl ▸ h.rings
  mem_pending a := by
    rw [h.mem_pending]
    constructor
    · rintro ⟨m, hm₁, hm₂⟩
      obtain ⟨m', h₁, h₂, -⟩ := (hm a _).2 ⟨m, hm₁, hm₂, rfl⟩
      exact ⟨m', h₁, h₂⟩
    · rintro ⟨m, hm₁, hm₂⟩
      obtain ⟨m', h₁, h₂, -⟩ := (hm a _).1 ⟨m, hm₁, hm₂, rfl⟩
      exact ⟨m', h₁, h₂⟩
  linked i a := by
    rw [h.linked]
    constructor
    · rintro ⟨m, hm₁, hm₂, hi⟩
      obtain ⟨m', h₁, h₂, h₃⟩ := (hm a _).2 ⟨m, hm₁, hm₂, rfl⟩
      exact ⟨m', h₁, h₂, by rw [h₃, hi]⟩
    · rintro ⟨m, hm₁, hm₂, hi⟩
      obtain ⟨m', h₁, h₂, h₃⟩ := (hm a _).1 ⟨m, hm₁, hm₂, rfl⟩
      exact ⟨m', h₁, h₂, by rw [h₃, hi]⟩
  nodup := h.nodup
  count := hc ▸ h.count

/-- A message that is not pending is written over one that was not. -/
theorem Table.setMsg (h : Table cfg c lists pending) (hm : ∀ r, c.msgs a = some r → ¬ r.Pending)
    (hm' : ¬ m.Pending) : Table cfg (c.setMsg a m) lists pending := by
  refine h.congr rfl rfl fun b id => ?_
  by_cases hb : b = a
  · subst hb
    simp only [setMsg_msgs, Function.update_self, Option.some.injEq, exists_eq_left']
    exact iff_of_false (fun hp => hm' hp.1) fun ⟨r, hr, hp, _⟩ => hm r hr hp
  · simp only [setMsg_msgs, Function.update_of_ne hb]

/-- A message is rewritten with what the table sees of it unchanged. -/
theorem Table.modify (h : Table cfg c lists pending) (hm : c.msgs a = some m)
    (hp : m'.Pending ↔ m.Pending) (hid : m'.hdr.seqid = m.hdr.seqid) :
    Table cfg (c.setMsg a m') lists pending := by
  refine h.congr rfl rfl fun b id => ?_
  by_cases hb : b = a
  · subst hb
    simp [hm, hp, hid]
  · simp only [setMsg_msgs, Function.update_of_ne hb]

/-- A free or issued buffer that is not pending is in no bucket. -/
theorem Table.notMem (h : Table cfg c lists pending) (hm : ∀ r, c.msgs a = some r → ¬ r.Pending)
    (i : ℕ) : a ∉ lists (some i) := fun ha => by
  obtain ⟨r, hr, hp, -⟩ := (h.linked i a).1 ha
  exact hm r hr hp

/-! ## The pool -/

/-- The free list is sound, and the table where `ok` says so. -/
def Sound (cfg : Cfg) (ok : Prop) (c : Channel) (lists : Option ℕ → List Addr)
    (pending : List Addr) : Prop :=
  Free c (lists none) ∧ (ok → Table cfg c lists pending)

variable {ok : Prop}

/-- **`bufpool_get`** returns a buffer nobody has. -/
theorem poolGet_spec (h : Sound cfg ok c lists pending) (hl : c.live alloc = false)
    (hget : c.poolGet cfg alloc = some (c', b)) :
    (∃ lists', Sound cfg ok c' lists' pending ∧ b ∉ lists' none) ∧
      c'.msgs = c.msgs ∧ c.msgs b = none ∧ c'.live b = true ∧ c.Keeps c' := by
  obtain ⟨hF, hT⟩ := h
  unfold Channel.poolGet at hget
  split at hget
  · cases hget
  split at hget
  · -- the last of the free list
    rename_i hempty
    have hne : lists none ≠ [] := fun e => by
      rw [(hF.ring.isEmpty_iff).2 (by simp [e])] at hempty
      cases hempty
    obtain ⟨xs, a, hxs⟩ := (List.eq_nil_or_concat (lists none)).resolve_left hne
    rw [List.concat_eq_append] at hxs
    have hring := hF.ring
    rw [hxs, List.map_append] at hring
    have hprev : c.links.prev (.head none) = .elem a := hring.prev_head
    simp only [hprev] at hget
    split at hget
    · cases hget
    obtain ⟨rfl, rfl⟩ := Prod.mk.inj (Option.some.inj hget)
    have ha : a ∈ lists none := by simp [hxs]
    have hnd : (xs ++ [a]).Nodup := hxs ▸ List.Nodup.of_map _ (List.nodup_cons.1 hF.ring.nodup).2
    have hax : a ∉ xs := fun hm => (List.nodup_append.1 hnd).2.2 a hm a (by simp) rfl
    have hmem : ∀ {y}, y ∈ xs → y ∈ lists none := fun hy => by simp [hxs, hy]
    refine ⟨⟨Function.update lists none xs, ⟨?_, fun hok => ?_⟩, by simpa using hax⟩, rfl,
      hF.unissued a ha, hF.live_free a ha, ⟨rfl, rfl, rfl, rfl, rfl⟩⟩
    · rw [Function.update_self]
      refine ⟨by simpa using hring.rem.1, fun y hy => hF.unissued y (hmem hy),
        fun y hy => hF.live_free y (hmem hy), hF.live_issued, ?_⟩
      have := hF.qlen
      simp only [hxs, List.length_append, List.length_singleton] at this ⊢
      push_cast at this
      omega
    · have hT := hT hok
      have herase : (lists none).erase a = xs := by
        rw [hxs, List.erase_append_right _ hax, List.erase_cons_head, List.append_nil]
      exact ⟨herase ▸ hT.rings.rem ha, hT.mem_pending, fun i y => by simpa using hT.linked i y,
        hT.nodup, hT.count⟩
  · split at hget
    · -- fresh memory
      obtain ⟨rfl, rfl⟩ := Prod.mk.inj (Option.some.inj hget)
      have hlive : ∀ y, c.live y = true → Function.update c.live alloc true y = true := fun y hy => by
        by_cases hy' : y = alloc
        · simp [hy']
        · rw [Function.update_of_ne hy']; exact hy
      refine ⟨⟨lists, ⟨⟨hF.ring, hF.unissued, fun y hy => hlive y (hF.live_free y hy),
        fun y m hm => hlive y (hF.live_issued y m hm), hF.qlen⟩, fun hok => ?_⟩, fun hm => ?_⟩, rfl,
        ?_, by simp, ⟨rfl, rfl, rfl, rfl, rfl⟩⟩
      · have hT := hT hok
        exact ⟨hT.rings, hT.mem_pending, hT.linked, hT.nodup, hT.count⟩
      · rw [hF.live_free _ hm] at hl; cases hl
      · cases hm : c.msgs alloc with
        | none => rfl
        | some m => rw [hF.live_issued _ m hm] at hl; cases hl
    · cases hget

/-- **`bufpool_put`** of a buffer that is issued and not pending. -/
theorem poolPut_spec (h : Sound cfg ok c lists pending) (hm : c.msgs a = some m)
    (hp : ok → ¬ m.Pending) (hput : c.poolPut cfg a = some c') :
    (∃ lists', Sound cfg ok c' lists' pending) ∧
      c'.msgs = Function.update c.msgs a none ∧ c.Keeps c' := by
  obtain ⟨hF, hT⟩ := h
  have hfree := hF.notMem hm
  have hunissued : ∀ y ∈ lists none, Function.update c.msgs a none y = none := fun y hy => by
    have hne : y ≠ a := fun e => hfree (e ▸ hy)
    rw [Function.update_of_ne hne]
    exact hF.unissued y hy
  have hissued : ∀ y r, Function.update c.msgs a none y = some r → y ≠ a ∧ c.msgs y = some r := by
    intro y r hr
    by_cases hy : y = a
    · simp [hy] at hr
    · exact ⟨hy, by rwa [Function.update_of_ne hy] at hr⟩
  -- the message was not pending, so the table does not miss it
  have hT' : ok → Table cfg { c with issued := c.issued - 1, msgs := Function.update c.msgs a none }
      lists pending := fun hok => by
    refine (hT hok).congr rfl rfl fun y id => ?_
    by_cases hy : y = a
    · subst hy
      simp [hm, hp hok]
    · simp only [Function.update_of_ne hy]
  unfold Channel.poolPut at hput
  simp only at hput
  split at hput
  · -- to the free list
    obtain rfl := Option.some.inj hput
    have hnode : Node.elem a ∉ Node.head none :: (lists none).map (Node.elem (H := Option ℕ)) :=
      Links.elem_notMem hfree
    refine ⟨⟨Function.update lists none (a :: lists none), ⟨?_, ?_, ?_, ?_, ?_⟩, fun hok => ?_⟩, rfl,
      ⟨rfl, rfl, rfl, rfl, rfl⟩⟩
    · rw [Function.update_self, List.map_cons]
      exact (hF.ring.init_of_notMem hnode).add hnode
    · rw [Function.update_self]
      intro y hy
      rcases List.mem_cons.1 hy with rfl | hy
      · simp
      · exact hunissued y hy
    · rw [Function.update_self]
      intro y hy
      rcases List.mem_cons.1 hy with rfl | hy
      · exact hF.live_issued y m hm
      · exact hF.live_free y hy
    · exact fun y r hr => hF.live_issued y r (hissued y r hr).2
    · have := hF.qlen
      simp only [Function.update_self, List.length_cons]
      push_cast
      omega
    · have hT' := hT' hok
      have hnot : ∀ g, a ∉ lists g := by
        rintro (_ | i)
        · exact hfree
        · exact (hT hok).notMem (fun r hr => by
            rw [hm] at hr; exact Option.some.inj hr ▸ hp hok) i
      exact ⟨(hT'.rings.init hnot).add hnot none, hT'.mem_pending,
        fun i y => by simpa using hT'.linked i y, hT'.nodup, hT'.count⟩
  · split at hput
    · cases hput
    -- to the heap
    obtain rfl := Option.some.inj hput
    have hne : ∀ y, y ≠ a → Function.update c.live a false y = c.live y := fun y hy =>
      Function.update_of_ne hy _ _
    refine ⟨⟨lists, ⟨hF.ring, hunissued, fun y hy => ?_, fun y r hr => ?_, hF.qlen⟩,
      fun hok => ?_⟩, rfl, ⟨rfl, rfl, rfl, rfl, rfl⟩⟩
    · simp only [hne y fun e => hfree (e ▸ hy)]
      exact hF.live_free y hy
    · obtain ⟨hy, hr⟩ := hissued y r hr
      simp only [hne y hy]
      exact hF.live_issued y r hr
    · have hT' := hT' hok
      exact ⟨hT'.rings, hT'.mem_pending, hT'.linked, hT'.nodup, hT'.count⟩

/-- A buffer that was issued is written for the first time. -/
theorem Sound.setNew (h : Sound cfg ok c lists pending) (hm : c.msgs b = none)
    (hb : b ∉ lists none) (hl : c.live b = true) (hp : ¬ m.Pending) :
    Sound cfg ok (c.setMsg b m) lists pending :=
  ⟨h.1.setMsg hb hl, fun hok => (h.2 hok).setMsg (by simp [hm]) hp⟩

/-- A message is rewritten with what the table sees of it unchanged. -/
theorem Sound.modify (h : Sound cfg ok c lists pending) (hm : c.msgs a = some m)
    (hp : ok → (m'.Pending ↔ m.Pending)) (hid : m'.hdr.seqid = m.hdr.seqid) :
    Sound cfg ok (c.setMsg a m') lists pending :=
  ⟨h.1.modify hm, fun hok => (h.2 hok).modify hm (hp hok) hid⟩

/-- A message that is not pending is written over one that was not. -/
theorem Sound.replace (h : Sound cfg ok c lists pending) (hm : c.msgs a = some m)
    (hp : ok → ¬ m.Pending) (hp' : ok → ¬ m'.Pending) :
    Sound cfg ok (c.setMsg a m') lists pending :=
  ⟨h.1.modify hm, fun hok => (h.2 hok).setMsg (fun r hr => by
    rw [hm] at hr; exact Option.some.inj hr ▸ hp hok) (hp' hok)⟩

/-- Less is asked of the table. -/
theorem Sound.weaken {ok' : Prop} (h : Sound cfg ok c lists pending) (hok : ok' → ok) :
    Sound cfg ok' c lists pending :=
  ⟨h.1, fun h' => h.2 (hok h')⟩

/-- The parts of a channel the lists do not depend on. -/
theorem Sound.congr (h : Sound cfg ok c lists pending) (hl : c'.links = c.links)
    (hc : c'.count = c.count) (hq : c'.qlen = c.qlen) (hv : c'.live = c.live)
    (hm : c'.msgs = c.msgs) : Sound cfg ok c' lists pending :=
  ⟨⟨hl ▸ h.1.ring, hm ▸ h.1.unissued, hv ▸ h.1.live_free, by rw [hm, hv]; exact h.1.live_issued,
    hq ▸ h.1.qlen⟩, fun hok => (h.2 hok).congr hl hc fun a id => by rw [hm]⟩

/-- `bufpool_get_zero` and the first write of the buffer. -/
theorem poolGet_setMsg (h : Sound cfg ok c lists pending) (hl : c.live alloc = false)
    (hget : c.poolGet cfg alloc = some (c', b)) (hp : ¬ m.Pending) :
    (∃ lists', Sound cfg ok (c'.setMsg b m) lists' pending) ∧ c'.msgs = c.msgs ∧
      c.msgs b = none ∧ c.Keeps c' := by
  obtain ⟨⟨lists', h', hb⟩, hm, hnone, hlive, hk⟩ := poolGet_spec h hl hget
  exact ⟨⟨lists', h'.setNew (hm ▸ hnone) hb hlive hp⟩, hm, hnone, hk⟩

/-- **`rpc_msg_get`** returns a fresh message with the next sequence id. -/
theorem msgGet_spec {msgtype msglen payloadlen : ℕ} {payload : Option (List Byte)}
    (h : Sound cfg ok c lists pending) (hl : c.live alloc = false)
    (hget : c.msgGet cfg alloc msgtype msglen payloadlen payload = some (c', b)) :
    (∃ lists', Sound cfg ok c' lists' pending) ∧ c.msgs b = none ∧
      ∃ m, c'.msgs = Function.update c.msgs b (some m) ∧ m.use = .fresh ∧ m.resp = none ∧
        m.rendez = [] ∧ m.hdr.seqid = c.seqid ∧
        c'.seqid = c.seqid + 1 ∧ c'.enabled = c.enabled ∧ c'.isOpen = c.isOpen ∧
        c'.fdlock = c.fdlock := by
  unfold Channel.msgGet at hget
  split at hget
  · cases hget
  cases hpool : c.poolGet cfg alloc with
  | none => simp [hpool] at hget
  | some r =>
      obtain ⟨c₁, a⟩ := r
      simp only [hpool, Option.bind_eq_bind, Option.bind_some] at hget
      obtain ⟨rfl, rfl⟩ := Prod.mk.inj (Option.some.inj hget)
      obtain ⟨⟨lists', h', ha⟩, hm, hnone, hlive, hk⟩ := poolGet_spec h hl hpool
      rw [← hm] at hnone
      refine ⟨⟨lists', ?_⟩, hm ▸ hnone, _, congrArg (fun f => Function.update f a _) hm, rfl, rfl,
        rfl, hk.seqid, congrArg (· + 1) hk.seqid, hk.enabled, hk.isOpen, hk.fdlock⟩
      have hinit : Sound cfg ok { c₁ with links := c₁.links.init (.elem a), seqid := c₁.seqid + 1 }
          lists' pending := by
        refine ⟨⟨h'.1.ring.init_of_notMem (Links.elem_notMem ha), h'.1.unissued, h'.1.live_free,
          h'.1.live_issued, h'.1.qlen⟩, fun hok => ?_⟩
        have hT := h'.2 hok
        refine ⟨hT.rings.init ?_, hT.mem_pending, hT.linked, hT.nodup, hT.count⟩
        rintro (_ | i)
        · exact ha
        · exact hT.notMem (by simp [hnone]) i
      exact hinit.setNew hnone ha hlive (by rintro ⟨⟨n, hn⟩, -⟩; cases hn)

/-- **`rpc_msg_put`** puts the message and its response. -/
theorem msgPut_spec (h : Sound cfg ok c lists pending) (hm : c.msgs a = some m)
    (hp : ok → ¬ m.Pending)
    (hresp : ∀ b, m.resp = some b → b ≠ a ∧ ∃ r, c.msgs b = some r ∧ ¬ r.Pending)
    (hput : c.msgPut cfg a = some c') :
    (∃ lists', Sound cfg ok c' lists' pending) ∧
      (∀ y, c'.msgs y = if y = a ∨ m.resp = some y then none else c.msgs y) ∧ c.Keeps c' := by
  unfold Channel.msgPut at hput
  simp only [hm, Option.bind_eq_bind, Option.bind_some] at hput
  cases hr : m.resp with
  | none =>
      simp only [hr] at hput
      obtain ⟨hs, hmsgs, hk⟩ := poolPut_spec h hm hp hput
      refine ⟨hs, fun y => ?_, hk⟩
      rw [hmsgs, Function.update_apply]
      simp
  | some b =>
      obtain ⟨hba, r, hb, hrp⟩ := hresp b hr
      simp only [hr, hb, Option.bind_some] at hput
      split at hput
      · cases hput
      cases hput₁ : c.poolPut cfg b with
      | none => simp [hput₁] at hput
      | some c₁ =>
          simp only [hput₁, Option.bind_some] at hput
          obtain ⟨⟨lists₁, h₁⟩, hmsgs₁, hk₁⟩ := poolPut_spec h hb (fun _ => hrp) hput₁
          have hm₁ : c₁.msgs a = some m := by rw [hmsgs₁, Function.update_of_ne hba.symm, hm]
          obtain ⟨hs, hmsgs, hk⟩ := poolPut_spec h₁ hm₁ hp hput
          refine ⟨hs, fun y => ?_, hk₁.trans hk⟩
          rw [hmsgs, hmsgs₁, Function.update_apply, Function.update_apply]
          grind

/-! ## The hash -/

/-- **`hash_add`** of a message that becomes pending. -/
theorem hashAdd_spec (m' : Msg) (h : Sound cfg ok c lists pending) (hok : ok) (hm : c.msgs a = some m)
    (hp : ¬ m.Pending) (hp' : m'.Pending) :
    ∃ lists', Sound cfg ok ((c.setMsg a m').hashAdd a (cfg.getBucket m'.hdr.seqid)) lists'
      (a :: pending) := by
  obtain ⟨hF, hT⟩ := h
  have hT := hT hok
  set i := cfg.getBucket m'.hdr.seqid with hi
  have hfree := hF.notMem hm
  have hnp : ∀ r, c.msgs a = some r → ¬ r.Pending := fun r hr => by
    rw [hm] at hr; exact Option.some.inj hr ▸ hp
  have hnot : ∀ g, a ∉ lists g := by
    rintro (_ | j)
    · exact hfree
    · exact hT.notMem hnp j
  have hpend : a ∉ pending := fun ha => by
    obtain ⟨r, hr, hrp⟩ := (hT.mem_pending a).1 ha
    exact hnp r hr hrp
  have hrings := hT.rings.add hnot (some i)
  have hF' : Free (c.setMsg a m') (lists none) := hF.modify hm
  refine ⟨_, ⟨⟨?_, ?_, ?_, hF'.live_issued, ?_⟩, fun _ => ⟨hrings, fun y => ?_, fun j y => ?_,
    List.nodup_cons.2 ⟨hpend, hT.nodup⟩, ?_⟩⟩⟩
  · exact hrings.ring none
  · rw [Function.update_of_ne (by simp)]; exact hF'.unissued
  · rw [Function.update_of_ne (by simp)]; exact hF'.live_free
  · rw [Function.update_of_ne (by simp)]; exact hF'.qlen
  · by_cases hy : y = a
    · subst hy
      simp [Channel.hashAdd, hp']
    · simp [Channel.hashAdd, hy, hT.mem_pending]
  · by_cases hy : y = a
    · subst hy
      by_cases hj : j = i
      · subst hj
        simp [Channel.hashAdd, hp', hi]
      · simp [Channel.hashAdd, hj, hnot, Ne.symm hj, ← hi]
    · by_cases hj : j = i
      · subst hj
        simp [Channel.hashAdd, hy, hT.linked]
      · simp [Channel.hashAdd, hj, hy, hT.linked]
  · simp [Channel.hashAdd, hT.count]

/-- **`hash_rem`** of a pending message that stops being pending. -/
theorem hashRem_spec (h : Sound cfg ok c lists pending) (hok : ok) (hm : c.msgs a = some m)
    (hp : m.Pending) :
    ∃ c', c.hashRem a = some c' ∧ c'.msgs = c.msgs ∧ c.Keeps c' ∧
      ∀ m', ¬ m'.Pending → ∃ lists', Sound cfg ok (c'.setMsg a m') lists' (pending.erase a) := by
  obtain ⟨hF, hT⟩ := h
  have hT := hT hok
  have hlink : a ∈ lists (some (cfg.getBucket m.hdr.seqid)) := (hT.linked _ a).2 ⟨m, hm, hp, rfl⟩
  set i := cfg.getBucket m.hdr.seqid with hi
  have hpend : a ∈ pending := (hT.mem_pending a).2 ⟨m, hm, hp⟩
  have hlen : (pending.erase a).length + 1 = pending.length := by
    have := List.length_pos_of_mem hpend
    rw [List.length_erase_of_mem hpend]
    omega
  have hcount : c.count - 1 = ((pending.erase a).length : ℤ) := by
    rw [hT.count, ← hlen]
    push_cast
    omega
  have hne : c.links.isEmpty (.elem a) = false :=
    (hT.rings.ring (some i)).isEmpty_of_mem (List.mem_map_of_mem hlink)
  refine ⟨{ c with links := c.links.rem (.elem a), count := c.count - 1 }, ?_, rfl,
    ⟨rfl, rfl, rfl, rfl, rfl⟩, fun m' hp' => ?_⟩
  · simp only [Channel.hashRem, hne, Bool.false_eq_true, if_false]
    rw [if_neg (by omega)]
  have hrings := hT.rings.rem hlink
  have hF' : Free (c.setMsg a m') (lists none) := hF.modify hm
  refine ⟨_, ⟨⟨?_, ?_, ?_, hF'.live_issued, ?_⟩, fun _ => ⟨hrings, fun y => ?_, fun j y => ?_,
    hT.nodup.erase a, hcount⟩⟩⟩
  · exact hrings.ring none
  · rw [Function.update_of_ne (by simp)]; exact hF'.unissued
  · rw [Function.update_of_ne (by simp)]; exact hF'.live_free
  · rw [Function.update_of_ne (by simp)]; exact hF'.qlen
  · by_cases hy : y = a
    · subst hy
      simp [hp', hT.nodup.mem_erase_iff]
    · simp [hy, hT.nodup.mem_erase_iff, hT.mem_pending]
  · by_cases hj : j = i
    · subst hj
      rw [Function.update_self, (hT.rings.nodup _).mem_erase_iff]
      by_cases hy : y = a
      · subst hy
        simp [hp']
      · simp [hy, hT.linked]
    · have hja : ¬ (y = a ∧ y ∈ lists (some j)) := fun ⟨e, hmem⟩ =>
        hj (Option.some.inj (hT.rings.apart _ _ _ (e ▸ hmem) hlink))
      by_cases hy : y = a
      · subst hy
        have hja : y ∉ lists (some j) := fun hmem => hja ⟨rfl, hmem⟩
        simp [hj, hp', hja]
      · simp [hj, hy, hT.linked]

/-- **`hash_lookup`** finds a pending message with the sequence id, if
there is one. -/
theorem hashLookup_spec (h : Table cfg c lists pending) (s : BitVec 32) :
    (∃ a m, c.hashLookup s (cfg.getBucket s) = some (some a) ∧ c.msgs a = some m ∧ m.Pending ∧
      m.hdr.seqid = s) ∨
    (c.hashLookup s (cfg.getBucket s) = some none ∧
      ∀ a m, c.msgs a = some m → m.Pending → m.hdr.seqid ≠ s) := by
  set i := cfg.getBucket s with hi
  have hsub : lists (some i) ⊆ pending := fun a ha => by
    obtain ⟨m, hm, hp, -⟩ := (h.linked i a).1 ha
    exact (h.mem_pending a).2 ⟨m, hm, hp⟩
  have hlen := (List.subperm_of_subset (h.rings.nodup (some i)) hsub).length_le
  have hfuel : (lists (some i)).length < c.count.toNat + 1 := by
    rw [h.count]
    simpa using Nat.lt_succ_of_le hlen
  have hcmp : ∀ a ∈ lists (some i), c.seqidCmp a s = some ((c.seqidCmp a s).getD false) := by
    intro a ha
    obtain ⟨m, hm, -⟩ := (h.linked i a).1 ha
    simp [Channel.seqidCmp, hm]
  have hfind := h.rings.find_eq (p := fun a => c.seqidCmp a s) hcmp hfuel
  rw [Channel.hashLookup, hfind]
  cases hf : (lists (some i)).find? fun a => (c.seqidCmp a s).getD false with
  | some a =>
      obtain ⟨m, hm, hp, -⟩ := (h.linked i a).1 (List.mem_of_find?_eq_some hf)
      refine .inl ⟨a, m, rfl, hm, hp, ?_⟩
      have := List.find?_some hf
      have hsub : m.hdr.seqid - s = 0 := by simpa [Channel.seqidCmp, hm] using this
      calc m.hdr.seqid = m.hdr.seqid - s + s := (BitVec.sub_add_cancel _ _).symm
        _ = s := by rw [hsub]; simp
  | none =>
      refine .inr ⟨rfl, fun a m hm hp hs => ?_⟩
      have ha : a ∈ lists (some i) := (h.linked i a).2 ⟨m, hm, hp, by rw [hs]⟩
      have := List.find?_eq_none.1 hf a ha
      simp [Channel.seqidCmp, hm, hs] at this

/-! ## The new channel -/

theorem rings_foldl {L : Links (Node (Option ℕ) Addr)} (bufs : List Addr) (hnd : bufs.Nodup)
    (hL : L.Rings lists) (hnot : ∀ g, ∀ a ∈ bufs, a ∉ lists g) :
    (bufs.foldl (fun L b => (L.init (.elem b)).add (.head none) (.elem b)) L).Rings
      (Function.update lists none (bufs.reverse ++ lists none)) := by
  induction bufs generalizing L lists with
  | nil => simpa using hL
  | cons b bufs ih =>
      rw [List.nodup_cons] at hnd
      have hb : ∀ g, b ∉ lists g := fun g => hnot g b (by simp)
      have := ih hnd.2 ((hL.init hb).add hb none) fun g a ha => by
        have hab : a ≠ b := fun e => hnd.1 (e ▸ ha)
        by_cases hg : g = none
        · subst hg
          simpa [hab] using hnot none a (List.mem_cons_of_mem _ ha)
        · rw [Function.update_of_ne hg]
          exact hnot g a (List.mem_cons_of_mem _ ha)
      simpa using this

/-- **`rpc_chan_init`**: every buffer free, nothing pending. -/
theorem initial_spec {bufs : List Addr} (hnd : bufs.Nodup) :
    Sound cfg ok (.initial bufs)
      (Function.update (fun _ => []) none bufs.reverse) [] := by
  have hrings := rings_foldl bufs hnd Links.rings_self (by simp)
  simp only [List.append_nil] at hrings
  refine ⟨⟨hrings.ring none, by simp [Channel.initial], by simp [Channel.initial],
    by simp [Channel.initial], by simp [Channel.initial]⟩, fun _ => ⟨hrings, ?_, ?_, by simp, rfl⟩⟩
  · simp [Channel.initial]
  · simp [Channel.initial]

end Rpc

end VmwareProto
