import VmwareProto.Mpp.Frames
/-!
# The hash and the pool of the VMkernel channel

A message buffer's links put it in the bucket of its sequence id while it
is a pending request, in the free list while nobody has it, and in no list
otherwise. `Table` says so of a channel, with what `count` and `q_len`
count; one lemma for each operation.
-/

namespace VmwareProto

namespace Mpp

variable {cfg : Cfg} {c c' : Channel} {a b alloc : Addr} {lists : Option ℕ → List Addr}
  {ps : List Addr} {m m' : Msg} {r : Bool}

/-- A request that has been put in the hash and not taken out. -/
def Msg.pending (m : Msg) : Bool :=
  match m.use with
  | .pending => true
  | .sending _ => true
  | _ => false

/-- The list a buffer belongs in. -/
def Channel.label (cfg : Cfg) (c : Channel) (a : Addr) : Option (Option ℕ) :=
  match c.msgs a with
  | some m => if m.pending = true then some (some (cfg.getBucket m.frame.hdr.seqid)) else none
  | none => if c.live a = true then some none else none

/-- The pending requests, and the lists they and the free buffers are in. -/
structure Table (cfg : Cfg) (c : Channel) (lists : Option ℕ → List Addr) (ps : List Addr) :
    Prop where
  filed : c.links.Filed lists (c.label cfg)
  live : ∀ a m, c.msgs a = some m → c.live a = true
  qlen : c.qlen = (lists none).length
  mem_pending : ∀ a, a ∈ ps ↔ ∃ m, c.msgs a = some m ∧ m.pending = true
  nodup : ps.Nodup
  count : c.count = ps.length

theorem label_of_msg (hm : c.msgs a = some m) :
    c.label cfg a = if m.pending = true then some (some (cfg.getBucket m.frame.hdr.seqid)) else none := by
  simp only [Channel.label, hm]

theorem label_issued (hm : c.msgs a = some m) (hp : m.pending = false) : c.label cfg a = none := by
  rw [label_of_msg hm, hp]
  rfl

theorem label_pending (hm : c.msgs a = some m) (hp : m.pending = true) :
    c.label cfg a = some (some (cfg.getBucket m.frame.hdr.seqid)) := by
  rw [label_of_msg hm, if_pos hp]

theorem label_free_iff : c.label cfg a = some none ↔ c.msgs a = none ∧ c.live a = true := by
  unfold Channel.label
  cases hm : c.msgs a with
  | none => simp
  | some m =>
      simp only [reduceCtorEq, false_and, iff_false]
      split <;> simp

/-- Buffers whose memory and message are the same are filed the same. -/
theorem label_congr {y : Addr} (hm : c'.msgs y = c.msgs y) (hl : c'.live y = c.live y) :
    c'.label cfg y = c.label cfg y := by
  simp only [Channel.label, hm, hl]

/-- One buffer is filed otherwise. -/
theorem label_update {l : Option (Option ℕ)} (ha : c'.label cfg a = l)
    (hm : ∀ y, y ≠ a → c'.msgs y = c.msgs y) (hl : ∀ y, y ≠ a → c'.live y = c.live y) (y : Addr) :
    c'.label cfg y = Function.update (c.label cfg) a l y := by
  by_cases hy : y = a
  · subst hy
    rw [Function.update_self, ha]
  · rw [Function.update_of_ne hy, label_congr (hm y hy) (hl y hy)]

namespace Table

/-- What the lists do not depend on. -/
theorem congr (h : Table cfg c lists ps) (hl : c'.links = c.links) (hc : c'.count = c.count)
    (hq : c'.qlen = c.qlen) (hv : c'.live = c.live) (hm : c'.msgs = c.msgs) :
    Table cfg c' lists ps := by
  refine ⟨?_, by rw [hm, hv]; exact h.live, by rw [hq]; exact h.qlen, by rw [hm]; exact h.mem_pending,
    h.nodup, by rw [hc]; exact h.count⟩
  rw [hl]
  exact h.filed.congr fun y => label_congr (by rw [hm]) (by rw [hv])

/-- **A message is rewritten**, with what the lists see of it unchanged. -/
theorem modify (h : Table cfg c lists ps) (hm : c.msgs a = some m)
    (hp : m'.pending = m.pending) (hid : m.pending = true → m'.frame.hdr.seqid = m.frame.hdr.seqid) :
    Table cfg (c.setMsg a m') lists ps := by
  have hmsg : ∀ y r, (c.setMsg a m').msgs y = some r → ∃ r₀, c.msgs y = some r₀ := by
    intro y r hr
    by_cases hy : y = a
    · exact ⟨m, hy ▸ hm⟩
    · rw [Channel.setMsg_msgs, Function.update_of_ne hy] at hr
      exact ⟨r, hr⟩
  refine ⟨h.filed.congr fun y => ?_, fun y r hr => ?_, h.qlen, fun y => ?_, h.nodup, h.count⟩
  · by_cases hy : y = a
    · subst hy
      rw [label_of_msg hm, label_of_msg (Function.update_self ..), hp]
      split
      · rename_i hpm
        rw [hid hpm]
      · rfl
    · exact label_congr (Function.update_of_ne hy ..) rfl
  · obtain ⟨r₀, hr₀⟩ := hmsg y r hr
    exact h.live y r₀ hr₀
  · rw [h.mem_pending]
    by_cases hy : y = a
    · subst hy
      simp [hm, hp]
    · simp [hy]

/-! ## The pool -/

/-- **`_bufpool_get`** takes a buffer that nobody has. -/
theorem get (h : Table cfg c lists ps) (hl : c.live alloc = false)
    (hget : c.poolGet cfg r alloc = some (c', b)) :
    c.msgs b = none ∧ c'.live = Function.update c.live b true ∧
      ∃ lists', c'.links.Filed lists' (Function.update (c.label cfg) b none) ∧
        c'.qlen = (lists' none).length := by
  unfold Channel.poolGet at hget
  split at hget
  · -- the last of the free list
    rename_i hempty
    have hne : lists none ≠ [] := fun e => by
      rw [(h.filed.rings.isEmpty_head_iff none).2 e] at hempty
      cases hempty
    obtain ⟨xs, a, hxs⟩ := (List.eq_nil_or_concat (lists none)).resolve_left hne
    rw [List.concat_eq_append] at hxs
    simp only [h.filed.rings.prev_head hxs] at hget
    split at hget
    · cases hget
    obtain ⟨rfl, rfl⟩ := Prod.mk.inj (Option.some.inj hget)
    have ha : a ∈ lists none := by simp [hxs]
    have hlabel := (h.filed.mem none a).1 ha
    obtain ⟨hnone, hlive⟩ := label_free_iff.1 hlabel
    refine ⟨hnone, by rw [← hlive, Function.update_eq_self], _, h.filed.rem hlabel, ?_⟩
    have hpos := List.length_pos_of_mem ha
    have hq := h.qlen
    rw [Function.update_self, List.length_erase_of_mem ha]
    simp only
    omega
  · split at hget
    · -- fresh memory
      obtain ⟨rfl, rfl⟩ := Prod.mk.inj (Option.some.inj hget)
      have hnone : c.msgs alloc = none := by
        cases hm : c.msgs alloc with
        | none => rfl
        | some m => rw [h.live alloc m hm] at hl; cases hl
      have hlabel : c.label cfg alloc = none := by
        simp [Channel.label, hnone, hl]
      refine ⟨hnone, rfl, lists, h.filed.congr fun y => ?_, h.qlen⟩
      rw [← hlabel, Function.update_eq_self]
    · cases hget

/-- Its first message is written to it. -/
theorem fill (h : Table cfg c lists ps) {lists' : Option ℕ → List Addr} (hb : c.msgs b = none)
    (hF : c'.links.Filed lists' (Function.update (c.label cfg) b none))
    (hlive : c'.live = Function.update c.live b true) (hmsgs : c'.msgs = c.msgs)
    (hq : c'.qlen = (lists' none).length) (hc : c'.count = c.count) (hp : m.pending = false) :
    Table cfg (c'.setMsg b m) lists' ps := by
  have hm : (c'.setMsg b m).msgs b = some m := Function.update_self ..
  have hother : ∀ y, y ≠ b → (c'.setMsg b m).msgs y = c.msgs y := fun y hy => by
    rw [Channel.setMsg_msgs, Function.update_of_ne hy, hmsgs]
  have hlive' : ∀ y, y ≠ b → (c'.setMsg b m).live y = c.live y := fun y hy => by
    rw [Channel.setMsg_live, hlive, Function.update_of_ne hy]
  refine ⟨hF.congr (label_update (label_issued hm hp) hother hlive'), fun y r hr => ?_, hq,
    fun y => ?_, h.nodup, hc.trans h.count⟩
  · by_cases hy : y = b
    · subst hy
      rw [Channel.setMsg_live, hlive, Function.update_self]
    · rw [hother y hy] at hr
      rw [hlive' y hy]
      exact h.live y r hr
  · rw [h.mem_pending]
    by_cases hy : y = b
    · subst hy
      simp [hb, hm, hp]
    · rw [hother y hy]

/-- **`rpc_msg_get`** returns a message that its caller has. -/
theorem msgGet {x : Actor} {msgtype msglen : ℕ} {pad : HdrPad} {body : List Byte}
    (h : Table cfg c lists ps) (hl : c.live alloc = false)
    (hget : c.msgGet cfg x alloc msgtype msglen pad body = some (c', a)) :
    c.msgs a = none ∧ ∃ m, c'.msgs = Function.update c.msgs a (some m) ∧ m.use = .held x ∧
      m.resp = none ∧ c'.lock = c.lock ∧ ∃ lists', Table cfg c' lists' ps := by
  obtain ⟨c₁, hpool, m, hu, hr, rfl⟩ := Channel.msgGet_cases hget
  obtain ⟨hnone, hlive, lists', hF, hq⟩ := h.get hl hpool
  obtain ⟨hk, hmsgs, -, hcount⟩ := Channel.poolGet_keeps hpool
  have hp : m.pending = false := by rw [Msg.pending, hu]
  have hinit := hF.init (a := a) (by rw [Function.update_self])
  exact ⟨hnone, m, by rw [Channel.setMsg_msgs, hmsgs], hu, hr, hk.lock, lists',
    h.fill hnone hinit hlive hmsgs hq hcount hp⟩

/-- **`bufpool_put`** of a buffer that is issued and not pending. -/
theorem put (h : Table cfg c lists ps) (hm : c.msgs a = some m) (hp : m.pending = false)
    (hput : c.poolPut cfg a = some c') : ∃ lists', Table cfg c' lists' ps := by
  have hlabel : c.label cfg a = none := label_issued hm hp
  have hmsgs := (Channel.poolPut_keeps hput).2.1
  have hcount := (Channel.poolPut_keeps hput).2.2
  have hnone : c'.msgs a = none := by rw [hmsgs, Function.update_self]
  have hother : ∀ y, y ≠ a → c'.msgs y = c.msgs y := fun y hy => by
    rw [hmsgs, Function.update_of_ne hy]
  have hissued : ∀ y r, c'.msgs y = some r → y ≠ a ∧ c.msgs y = some r := fun y r hr => by
    have hy : y ≠ a := by
      rintro rfl
      rw [hnone] at hr
      cases hr
    exact ⟨hy, by rw [← hother y hy, hr]⟩
  have hmem : ∀ y, y ∈ ps ↔ ∃ r, c'.msgs y = some r ∧ r.pending = true := fun y => by
    rw [h.mem_pending]
    by_cases hy : y = a
    · subst hy
      simp [hm, hp, hnone]
    · rw [hother y hy]
  simp only [Channel.poolPut] at hput
  split at hput
  · -- to the free list
    have hc := Option.some.inj hput
    have hF := (h.filed.init hlabel).add hlabel none
    have hfree : c'.label cfg a = some none := by
      refine label_free_iff.2 ⟨hnone, ?_⟩
      rw [← hc]
      exact h.live a m hm
    refine ⟨Function.update lists none (a :: lists none), ?_, fun y r hr => ?_, ?_, hmem, h.nodup,
      hcount.trans h.count⟩
    · have := hF.congr (label_update hfree hother fun y _ => by rw [← hc])
      rwa [← hc] at this ⊢
    · rw [← hc]
      exact h.live y r (hissued y r hr).2
    · rw [← hc, Function.update_self, List.length_cons, Nat.cast_succ]
      exact congrArg (· + 1) h.qlen
  · split at hput
    · cases hput
    -- to the heap
    have hc := Option.some.inj hput
    have hlive : c'.live = Function.update c.live a false := by rw [← hc]
    have hgone : c'.label cfg a = none := by
      simp [Channel.label, hnone, hlive]
    have hlive' : ∀ y, y ≠ a → c'.live y = c.live y := fun y hy => by
      rw [hlive, Function.update_of_ne hy]
    refine ⟨lists, ?_, fun y r hr => ?_, ?_, hmem, h.nodup, hcount.trans h.count⟩
    · have hsame : ∀ y, c'.label cfg y = c.label cfg y := fun y => by
        rw [label_update hgone hother hlive' y, ← hlabel, Function.update_eq_self]
      have hF := h.filed.congr hsame
      rwa [← hc] at hF ⊢
    · obtain ⟨hy, hr⟩ := hissued y r hr
      rw [hlive' y hy]
      exact h.live y r hr
    · rw [← hc]
      exact h.qlen

/-! ## The hash -/

/-- **`hash_add`** of a message that becomes pending. -/
theorem add (h : Table cfg c lists ps) (hm : c.msgs a = some m) (hp : m.pending = false)
    (hp' : m'.pending = true) :
    ∃ lists', Table cfg ((c.setMsg a m').hashAdd a (cfg.getBucket m'.frame.hdr.seqid)) lists'
      (a :: ps) := by
  have hF := h.filed.add (label_issued hm hp) (some (cfg.getBucket m'.frame.hdr.seqid))
  have hnot : a ∉ ps := fun ha => by
    obtain ⟨r, hr, hrp⟩ := (h.mem_pending a).1 ha
    obtain rfl := Option.some.inj (hm.symm.trans hr)
    rw [hp] at hrp
    cases hrp
  have hlabel : Channel.label cfg ((c.setMsg a m').hashAdd a (cfg.getBucket m'.frame.hdr.seqid)) a =
      some (some (cfg.getBucket m'.frame.hdr.seqid)) :=
    label_pending (Function.update_self ..) hp'
  refine ⟨_, hF.congr (label_update hlabel (fun y hy => Function.update_of_ne hy ..) fun _ _ => rfl),
    fun y r hr => ?_, ?_, fun y => ?_, List.nodup_cons.2 ⟨hnot, h.nodup⟩, ?_⟩
  · by_cases hy : y = a
    · exact hy ▸ h.live a m hm
    · rw [Channel.hashAdd_msgs, Channel.setMsg_msgs, Function.update_of_ne hy] at hr
      exact h.live y r hr
  · rw [Function.update_of_ne (by simp)]
    exact h.qlen
  · by_cases hy : y = a
    · subst hy
      simp [hp']
    · simp [hy, h.mem_pending]
  · have := h.count
    simp only [Channel.hashAdd, Channel.setMsg, List.length_cons, Nat.cast_succ]
    omega

/-- **`hash_rem`** of a pending message that stops being pending. -/
theorem rem (h : Table cfg c lists ps) (hm : c.msgs a = some m) (hp : m.pending = true) :
    ∃ c', c.hashRem a = some c' ∧ ∀ m', m'.pending = false →
      ∃ lists', Table cfg (c'.setMsg a m') lists' (ps.erase a) := by
  have hlabel : c.label cfg a = some (some (cfg.getBucket m.frame.hdr.seqid)) := label_pending hm hp
  have hlink := (h.filed.mem _ a).2 hlabel
  have hmem : a ∈ ps := (h.mem_pending a).2 ⟨m, hm, hp⟩
  have hlen := List.length_erase_of_mem hmem
  have hpos := List.length_pos_of_mem hmem
  have hcount := h.count
  have hne : c.links.isEmpty (.elem a) = false :=
    (h.filed.rings.ring _).isEmpty_of_mem (List.mem_map_of_mem hlink)
  refine ⟨{ c with links := c.links.rem (.elem a), count := c.count - 1 }, ?_, fun m' hp' => ?_⟩
  · simp only [Channel.hashRem, hne, Bool.false_eq_true, if_false]
    rw [if_neg (by omega)]
  have hgone : Channel.label cfg (Channel.setMsg { c with
      links := c.links.rem (.elem a), count := c.count - 1 } a m') a = none :=
    label_issued (Function.update_self ..) hp'
  refine ⟨_, (h.filed.rem hlabel).congr (label_update hgone (fun y hy => Function.update_of_ne hy ..)
    fun _ _ => rfl), fun y r hr => ?_, ?_, fun y => ?_, h.nodup.erase a, ?_⟩
  · by_cases hy : y = a
    · exact hy ▸ h.live a m hm
    · rw [Channel.setMsg_msgs, Function.update_of_ne hy] at hr
      exact h.live y r hr
  · rw [Function.update_of_ne (by simp)]
    exact h.qlen
  · rw [h.nodup.mem_erase_iff, h.mem_pending]
    by_cases hy : y = a
    · subst hy
      simp [hp']
    · simp [hy]
  · simp only [Channel.setMsg]
    omega

/-- A bucket holds the pending requests of its sequence ids. -/
theorem mem_bucket (h : Table cfg c lists ps) (i : ℕ) (a : Addr) : a ∈ lists (some i) ↔
    ∃ m, c.msgs a = some m ∧ m.pending = true ∧ cfg.getBucket m.frame.hdr.seqid = i := by
  rw [h.filed.mem, Channel.label]
  cases hm : c.msgs a with
  | none =>
      simp only [reduceCtorEq, false_and, exists_false, iff_false]
      split <;> simp
  | some m =>
      by_cases hp : m.pending = true
      · simp [hp]
      · simp [hp]

/-- **`hash_lookup`** finds a pending message with the sequence id, if
there is one. -/
theorem lookup (h : Table cfg c lists ps) (s : BitVec 64) :
    (∃ a m, c.hashLookup s (cfg.getBucket s) = some (some a) ∧ c.msgs a = some m ∧
      m.pending = true ∧ m.frame.hdr.seqid = s) ∨
    (c.hashLookup s (cfg.getBucket s) = some none ∧
      ∀ a m, c.msgs a = some m → m.pending = true → m.frame.hdr.seqid ≠ s) := by
  have hsub : lists (some (cfg.getBucket s)) ⊆ ps := fun a ha => by
    obtain ⟨m, hm, hp, -⟩ := (h.mem_bucket _ a).1 ha
    exact (h.mem_pending a).2 ⟨m, hm, hp⟩
  have hlen := (List.subperm_of_subset (h.filed.rings.nodup _) hsub).length_le
  have hfuel : (lists (some (cfg.getBucket s))).length < c.count.toNat + 1 := by
    have := h.count
    omega
  have hcmp : ∀ a ∈ lists (some (cfg.getBucket s)),
      c.seqidCmp a s = some ((c.seqidCmp a s).getD false) := by
    intro a ha
    obtain ⟨m, hm, -⟩ := (h.mem_bucket _ a).1 ha
    simp [Channel.seqidCmp, hm]
  rw [Channel.hashLookup, h.filed.rings.find_eq (p := fun a => c.seqidCmp a s) hcmp hfuel]
  cases hf : (lists (some (cfg.getBucket s))).find? fun a => (c.seqidCmp a s).getD false with
  | some a =>
      obtain ⟨m, hm, hp, -⟩ := (h.mem_bucket _ a).1 (List.mem_of_find?_eq_some hf)
      have hsub : m.frame.hdr.seqid - s = 0 := by
        simpa [Channel.seqidCmp, hm] using List.find?_some hf
      have hid : m.frame.hdr.seqid = s := by
        rw [← BitVec.sub_add_cancel m.frame.hdr.seqid s, hsub]
        exact BitVec.zero_add s
      exact .inl ⟨a, m, rfl, hm, hp, hid⟩
  | none =>
      refine .inr ⟨rfl, fun a m hm hp hs => ?_⟩
      have ha := (h.mem_bucket (cfg.getBucket s) a).2 ⟨m, hm, hp, by rw [hs]⟩
      have := List.find?_eq_none.1 hf a ha
      simp [Channel.seqidCmp, hm, hs] at this

/-- **`rpc_chan_init`**: every buffer free, nothing pending. -/
theorem initial {bufs : List Addr} (hnd : bufs.Nodup) :
    ∃ lists, Table cfg (.initial bufs) lists [] := by
  have hself : (⟨id, id⟩ : Links (Node (Option ℕ) Addr)).Filed (fun _ => []) fun _ => none :=
    ⟨Links.rings_self, by simp⟩
  have hF := hself.foldl bufs hnd (fun _ _ => rfl) none
  refine ⟨_, hF.congr fun y => ?_, by simp [Channel.initial], ?_, by simp [Channel.initial],
    List.nodup_nil, rfl⟩
  · simp [Channel.label, Channel.initial]
  · simp [Channel.initial]

end Table

end Mpp

end VmwareProto
