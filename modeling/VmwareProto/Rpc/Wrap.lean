import VmwareProto.Rpc.Numbered
import VmwareProto.Rpc.Discipline
/-!
# Sequence ids that come round

The counter of `rpc_msg_get` has 32 bits and a request may be pending for
any time, so two requests in the hash are only kept apart by what is not
done in the meantime. Where no message gets the number of a request that
is still out, no two of them ever share one, on broken channels too; and
fewer than 2^32 messages never do. One pending request and 2^32 further
messages are enough for a second request with its number.
-/

namespace VmwareProto

namespace Rpc

open Libtask

variable {cfg : Cfg} {σ σ' : State} {a b : Addr} {m m' : Msg} {act : Action}

/-- A request of this end that has no answer: still to be sent, on its way,
or failed. -/
def Msg.Out (m : Msg) : Prop := m.Ours ∨ ∃ res, res ≠ 0 ∧ m.use = .returned res

/-- Reached from a bucket of the hash. -/
def Channel.Linked (c : Channel) (a : Addr) : Prop :=
  ∃ i k, c.links.next^[k] (.head (some i)) = .elem a

/-- **The condition**: no message gets the number of a request that is out. -/
def FreshNumber (σ : State) (act : Action) : Prop :=
  act.gets = 1 → ∀ a m, σ.chan.msgs a = some m → m.Out → m.hdr.seqid ≠ σ.chan.seqid

theorem not_out_of (hu : m.use = .reading ∨ m.use = .handed ∨ (∃ b, m.use = .attached b) ∨
    ∃ n, m.use = .response n) : ¬ m.Out := by
  rintro ((ho | ⟨n, ho⟩) | ⟨res, -, ho⟩) <;>
    rcases hu with hu | hu | ⟨b, hu⟩ | ⟨n, hu⟩ <;> rw [hu] at ho <;> cases ho

/-! ## One step -/

section

variable (h : Base cfg (σ.chan.enabled = true) σ) (hR : σ.Receives cfg) (he : act.Allowed cfg σ)
  (hx : act.exec cfg σ = some σ')
include h hR he hx

/-- The receiver makes no request. -/
theorem out_received (hact : act.Receiving) (hm' : σ'.chan.msgs a = some m') (ho : m'.Out) :
    ∃ m, σ.chan.msgs a = some m ∧ m.Out ∧ m'.hdr.seqid = m.hdr.seqid := by
  obtain ⟨b, hb⟩ := outcome h hR he hx hact
  have hbuf : ∀ {q : Msg}, σ'.chan.msgs b = some q → ¬ q.Out → a ≠ b := fun hq hn => by
    rintro rfl
    obtain rfl := Option.some.inj (hm'.symm.trans hq)
    exact hn ho
  cases hb with
  | goesOn r _ _ _ hq hothers =>
      obtain ⟨q, hq, hu⟩ := hq
      rw [hothers a (hbuf hq (not_out_of (.inl hu)))] at hm'
      exact ⟨m', hm', ho, rfl⟩
  | left q _ _ hq hu hothers =>
      rw [hothers a (hbuf hq (not_out_of (.inr (.inl hu))))] at hm'
      exact ⟨m', hm', ho, rfl⟩
  | request w _ _ _ _ _ hq hothers =>
      rw [hothers a (hbuf hq (not_out_of (.inr (.inl rfl))))] at hm'
      exact ⟨m', hm', ho, rfl⟩
  | response w y p n _ _ _ _ _ _ hp hpu _ _ _ hy hq hothers =>
      have hab := hbuf hq (not_out_of (.inr (.inr (.inl ⟨y, rfl⟩))))
      by_cases hay : a = y
      · subst hay
        obtain rfl := Option.some.inj (hm'.symm.trans hy)
        exact ⟨p, hp, .inl (.inr ⟨n, hpu⟩), rfl⟩
      · rw [hothers a hay hab] at hm'
        exact ⟨m', hm', ho, rfl⟩

/-- **Where a request that is out comes from**: it was out before, or it is
the message that `rpc_msg_get` returns. -/
theorem out_origin (hm' : σ'.chan.msgs a = some m') (ho : m'.Out) :
    (∃ m, σ.chan.msgs a = some m ∧ m.Out ∧ m'.hdr.seqid = m.hdr.seqid) ∨
      act.gets = 1 ∧ m'.hdr.seqid = σ.chan.seqid ∧
        ∀ y, y ≠ a → σ'.chan.msgs y = σ.chan.msgs y := by
  by_cases hact : act.Receiving
  · exact .inl (out_received h hR he hx hact hm' ho)
  rcases became h he hx hact hm' with ⟨m, hm, hb⟩ | ⟨⟨_, _, _, _, _, rfl⟩, -, -, -, hid, hothers⟩
  · left
    refine ⟨m, hm, ?_⟩
    cases hb with
    | same => exact ⟨ho, rfl⟩
    | edited _ _ _ _ _ _ _ => exact ⟨ho, rfl⟩
    | refused n _ hu _ => exact ⟨.inl (.inl hu), rfl⟩
    | requested n _ hu _ _ => exact ⟨.inl (.inl hu), rfl⟩
    | responded n _ _ _ _ => exact absurd ho (not_out_of (.inr (.inr (.inr ⟨n, rfl⟩))))
    | slept n _ _ hu => exact ⟨.inl (.inr ⟨n, hu⟩), rfl⟩
    | returned n res _ hu _ _ => exact ⟨.inl (.inr ⟨n, hu⟩), rfl⟩
  · exact .inr ⟨rfl, hid, hothers⟩

/-- No two requests that are out have one number. -/
theorem distinct_step (hfresh : FreshNumber σ act)
    (hd : ∀ a b m m', σ.chan.msgs a = some m → σ.chan.msgs b = some m' → m.Out → m'.Out →
      m.hdr.seqid = m'.hdr.seqid → a = b)
    (hm : σ'.chan.msgs a = some m) (hm' : σ'.chan.msgs b = some m') (ho : m.Out) (ho' : m'.Out)
    (heq : m.hdr.seqid = m'.hdr.seqid) : a = b := by
  -- a message just made, and one that is another
  have hside : ∀ {a b : Addr} {m m' : Msg}, σ'.chan.msgs b = some m' → m'.Out → act.gets = 1 →
      m.hdr.seqid = σ.chan.seqid → (∀ y, y ≠ a → σ'.chan.msgs y = σ.chan.msgs y) →
      m.hdr.seqid = m'.hdr.seqid → a = b := by
    intro a b m m' hm' ho' hg hid hothers heq
    by_contra hab
    rw [hothers b fun e => hab e.symm] at hm'
    exact hfresh hg b m' hm' ho' (by rw [← heq, hid])
  rcases out_origin h hR he hx hm ho with ⟨p, hp, hpo, hid⟩ | ⟨hg, hid, hothers⟩
  · rcases out_origin h hR he hx hm' ho' with ⟨p', hp', hpo', hid'⟩ | ⟨hg, hid', hothers⟩
    · exact hd a b p p' hp hp' hpo hpo' (by rw [← hid, heq, hid'])
    · exact (hside hm ho hg hid' hothers heq.symm).symm
  · exact hside hm' ho' hg hid hothers heq

end

/-! ## Every run -/

/-- While the counter has not come round, what is out has a number that was
given out, and the next one is not among them. -/
theorem serial_lt (hr : (channelSystem cfg).Reachable σ) (hlt : σ.gets ≤ 2 ^ 32) :
    σ.chan.seqid = 1 + BitVec.ofNat 32 σ.gets ∧
      ∀ a m, σ.chan.msgs a = some m → m.Out → serial m.hdr.seqid < σ.gets := by
  induction hr with
  | init hs =>
      obtain ⟨bufs, -, -, rfl⟩ := hs
      exact ⟨rfl, fun a m hm => (by cases hm)⟩
  | @step σ σ' act hr he hx ih =>
      have hB := base_reachable hr
      obtain ⟨hgets, hseq⟩ := gets_step hB he.2 hx
      obtain ⟨hnext, hknown⟩ := ih (by omega)
      refine ⟨by rw [hseq, hgets, hnext, BitVec.add_assoc, ← BitVec.ofNat_add], fun a m hm ho => ?_⟩
      rcases out_origin hB (receives_reachable hr) he.2 hx hm ho with ⟨p, hp, hpo, hid⟩ | ⟨hg, hid, -⟩
      · have := hknown a p hp hpo
        rw [hid]
        omega
      · rw [hid, hnext, serial_next (by omega)]
        omega

/-- **Fewer than 2^32 messages** all get numbers of their own. -/
theorem fresh_of_few (hr : (channelSystem cfg).Reachable σ) (hlt : σ.gets < 2 ^ 32) :
    FreshNumber σ act := by
  obtain ⟨hnext, hknown⟩ := serial_lt hr (by omega)
  intro _ a m hm ho heq
  have := hknown a m hm ho
  rw [heq, hnext, serial_next hlt] at this
  omega

/-- A run of at most 2^32 messages meets the condition. -/
theorem fresh_reachable (hr : (channelSystem cfg).Reachable σ) (hlt : σ.gets ≤ 2 ^ 32) :
    ((channelSystem cfg).only FreshNumber).Reachable σ := by
  induction hr with
  | init hs => exact .init hs
  | @step σ σ' act hr he hx ih =>
      obtain ⟨hgets, -⟩ := gets_step (base_reachable hr) he.2 hx
      refine (ih (by omega)).step ⟨he, fun hg => ?_⟩ hx
      exact fresh_of_few hr (by omega) hg

/-- No two requests that are out have one number. -/
theorem out_distinct (hr : ((channelSystem cfg).only FreshNumber).Reachable σ) :
    ∀ a b m m', σ.chan.msgs a = some m → σ.chan.msgs b = some m' → m.Out → m'.Out →
      m.hdr.seqid = m'.hdr.seqid → a = b := by
  induction hr with
  | init hs =>
      obtain ⟨bufs, -, -, rfl⟩ := hs
      intro a b m m' hm
      cases hm
  | @step σ σ' act hr he hx ih =>
      intro a b m m' hm hm' ho ho' heq
      exact distinct_step (base_reachable hr.of_only) (receives_reachable hr.of_only) he.1.2 hx he.2
        ih hm hm' ho ho' heq

/-- A pending request is reached from its bucket. -/
theorem Table.reached {lists : Option ℕ → List Addr} {pending : List Addr} {c : Channel}
    (hT : Table cfg c lists pending) (hm : c.msgs a = some m) (hp : m.Pending) : c.Linked a := by
  have hmem := (hT.linked (cfg.getBucket m.hdr.seqid) a).2 ⟨m, hm, hp, rfl⟩
  obtain ⟨xs, ys, hxs⟩ := List.append_of_mem hmem
  have hring := hT.rings.ring (some (cfg.getBucket m.hdr.seqid))
  rw [hxs, List.map_append, List.map_cons] at hring
  exact ⟨_, _, (Links.chain_append.1 hring.chain).1.iterate⟩

/-- **Linked requests have distinct numbers**, in every state of every run
that meets the condition; and while the channel is enabled `hash_lookup`
finds each pending request by its number. -/
theorem linked_distinct (hr : ((channelSystem cfg).only FreshNumber).Reachable σ) :
    (∀ a b m m', σ.chan.Linked a → σ.chan.Linked b → σ.chan.msgs a = some m →
      σ.chan.msgs b = some m' → m.Out → m'.Out → m.hdr.seqid = m'.hdr.seqid → a = b) ∧
    (σ.chan.enabled = true → ∀ a m, σ.chan.msgs a = some m → m.Pending → σ.chan.Linked a ∧
      σ.chan.hashLookup m.hdr.seqid (cfg.getBucket m.hdr.seqid) = some (some a)) := by
  have hd := out_distinct hr
  refine ⟨fun a b m m' _ _ => hd a b m m', fun hen a m hm hp => ?_⟩
  obtain ⟨lists, pending, -, hT⟩ := (base_reachable hr.of_only).sound
  have hT := hT hen
  have hout : ∀ {q : Msg}, q.Pending → q.Out := fun hq => .inl (.inr hq.1)
  refine ⟨hT.reached hm hp, ?_⟩
  rcases hashLookup_spec hT m.hdr.seqid with ⟨b, q, hfind, hq, hqp, hid⟩ | ⟨-, hnone⟩
  · obtain rfl := hd b a q m hq hm (hout hqp) (hout hp) hid
    exact hfind
  · exact absurd rfl (hnone a m hm hp)

/-- One request is sent, and waits. -/
def requestSent : List Action := oneRequest ++ [.write 0 (.sent 12)]

/-- A second one. -/
def secondRequest : List Action := [.msgGet 9 3 12 0 none, .request 1 1]

theorem linked_distinct_two : ∃ σ, ((channelSystem smallCfg).only FreshNumber).Reachable σ ∧
    (∃ m m' : Msg, σ.chan.msgs 0 = some m ∧ σ.chan.msgs 1 = some m' ∧ m.Pending ∧ m'.Pending) ∧
    ∀ a b m m', σ.chan.Linked a → σ.chan.Linked b → σ.chan.msgs a = some m →
      σ.chan.msgs b = some m' → m.Out → m'.Out → m.hdr.seqid = m'.hdr.seqid → a = b := by
  have hrun : (((channelSystem smallCfg).run smallChannel (requestSent ++ secondRequest)).any fun σ =>
      decide (σ.gets = 2 ∧ (∃ m : Msg, σ.chan.msgs 0 = some m ∧ m.use = .request 0 ∧ m.resp = none) ∧
        ∃ m : Msg, σ.chan.msgs 1 = some m ∧ m.use = .request 1 ∧ m.resp = none)) = true := by
    decide +kernel
  obtain ⟨σ, hsteps, h⟩ := System.Steps.of_run_any hrun
  obtain ⟨hg, ⟨m, hm, hu, hn⟩, m', hm', hu', hn'⟩ := of_decide_eq_true h
  have hr := fresh_reachable (hsteps.reachable (.init smallChannel_init)) (by omega)
  exact ⟨σ, hr, ⟨m, m', hm, hm', ⟨⟨0, hu⟩, hn⟩, ⟨⟨1, hu'⟩, hn'⟩⟩, (linked_distinct hr).1⟩

/-! ## Coming round -/

/-- A pool with one free buffer. -/
structure OneFree (cfg : Cfg) (c : Channel) (a : Addr) : Prop where
  ring : c.links.Ring (.head none) [.elem a]
  msg : c.msgs a = none
  qlen : c.qlen = 1
  state : c.state = .initialized
  owned : c.owned ≤ cfg.nbufs

theorem OneFree.isEmpty {c : Channel} (h : OneFree cfg c a) :
    c.links.isEmpty (.head none) = false := by
  have := mt h.ring.isEmpty_iff.1 (by simp)
  simpa using this

/-- **Got and put back**, a message leaves nothing but its number. -/
theorem OneFree.get_put {c : Channel} (h : OneFree cfg c a) (alloc : Addr) :
    ∃ c' m, c.msgGet cfg alloc 0 hdrSize 0 none = some (c', a) ∧ c'.msgs a = some m ∧
      m.use = .fresh ∧ c'.state = .initialized ∧
      c'.msgPut cfg a = some { c with seqid := c.seqid + 1 } := by
  have hring : c.links.Ring (.head none) ([] ++ [.elem a]) := h.ring
  have hprev : c.links.prev (.head none) = .elem a := hring.prev_head
  have hpool : c.poolGet cfg alloc = some ({ c with
      links := c.links.rem (.elem a), qlen := 0, issued := c.issued + 1 }, a) := by
    simp [Channel.poolGet, h.state, h.isEmpty, hprev, h.qlen]
  have hlinks : (((c.links.rem (.elem a)).init (.elem a)).init (.elem a)).add (.head none) (.elem a) =
      c.links := by
    rw [Links.init_init]
    exact h.ring.add_rem
  have hmsgs : ∀ m, Function.update (Function.update c.msgs a (some m)) a none = c.msgs := fun m => by
    rw [Function.update_idem, ← h.msg, Function.update_eq_self]
  obtain ⟨m, hm, hr, hu⟩ : ∃ m : Msg, m = { Msg.ofBytes cfg.toRecvCfg [] with
      hdr := ⟨c.seqid, BitVec.ofNat 16 (0 <<< 4), BitVec.ofNat 16 hdrSize, BitVec.ofNat 16 0, 0⟩
      payload := none
      use := .fresh } ∧ m.resp = none ∧ m.use = .fresh := ⟨_, rfl, rfl, rfl⟩
  have hget : c.msgGet cfg alloc 0 hdrSize 0 none = some (({ c with
      links := (c.links.rem (.elem a)).init (.elem a), qlen := 0, issued := c.issued + 1,
      seqid := c.seqid + 1 } : Channel).setMsg a m, a) := by
    simp [Channel.msgGet, hpool, hm]
  have hput : ∀ m, m.resp = none → Channel.msgPut cfg (({ c with
      links := (c.links.rem (.elem a)).init (.elem a), qlen := 0, issued := c.issued + 1,
      seqid := c.seqid + 1 } : Channel).setMsg a m) a = some { c with seqid := c.seqid + 1 } := by
    intro m hr
    have hissued : c.issued + 1 - 1 = c.issued := by omega
    simp only [Channel.msgPut, Function.update_self, hr, Channel.poolPut, Channel.setMsg, h.owned,
      if_true, hlinks, hmsgs, hissued, h.qlen, zero_add, Option.bind_eq_bind, Option.bind_some]
  exact ⟨_, m, hget, Function.update_self .., hu, h.state, hput m hr⟩

/-- The counter moved on, by messages that are in the pool again. -/
def State.numbersOn (σ : State) (k : ℕ) : State :=
  { σ with
    chan := { σ.chan with seqid := σ.chan.seqid + BitVec.ofNat 32 k }
    gets := σ.gets + k }

theorem State.numbersOn_succ (σ : State) (k : ℕ) : (σ.numbersOn k).numbersOn 1 = σ.numbersOn (k + 1) := by
  simp only [numbersOn, BitVec.add_assoc, Nat.add_assoc, BitVec.ofNat_add]

/-- **Any number of messages** can be got and put back, one by one. -/
theorem OneFree.steps {alloc : Addr} (h : OneFree cfg σ.chan a) (hl : σ.chan.live alloc = false)
    (k : ℕ) : ∃ acts, (channelSystem cfg).Steps σ acts (σ.numbersOn k) := by
  induction k with
  | zero =>
      have hzero : σ.numbersOn 0 = σ := by simp [State.numbersOn]
      exact ⟨[], by rw [hzero]; exact .nil⟩
  | succ k ih =>
      obtain ⟨acts, hsteps⟩ := ih
      have hk : OneFree cfg (σ.numbersOn k).chan a := ⟨h.ring, h.msg, h.qlen, h.state, h.owned⟩
      obtain ⟨c, m, hget, hm, hu, hst, hput⟩ := hk.get_put alloc
      have hgone : (σ.numbersOn k).chan.state ≠ .gone := by rw [hk.state]; simp
      have hgone' : c.state ≠ .gone := by rw [hst]; simp
      refine ⟨acts ++ [.msgGet alloc 0 hdrSize 0 none, .msgPut a], hsteps.append ?_⟩
      refine .cons (t := { σ.numbersOn k with chan := c, gets := (σ.numbersOn k).gets + 1 })
        ⟨hgone, hl, .inl hk.isEmpty⟩ ?_ (.cons ⟨hgone', m, hm, .inl hu⟩ ?_ .nil)
      · simp only [channelSystem, Action.exec, hget]
        rfl
      · rw [← State.numbersOn_succ]
        simp only [channelSystem, Action.exec, hput]
        rfl

/-- **One request pending, and 2^32 - 1 messages** got and put in the
meantime: the next request has the number of the first. -/
theorem number_comes_round : ∃ σ, (channelSystem smallCfg).Reachable σ ∧
    ∃ m m' : Msg, σ.chan.Linked 0 ∧ σ.chan.Linked 1 ∧ σ.chan.msgs 0 = some m ∧
      σ.chan.msgs 1 = some m' ∧ m.Out ∧ m'.Out ∧ m.hdr.seqid = m'.hdr.seqid := by
  have hfirst : (((channelSystem smallCfg).run smallChannel requestSent).any fun σ =>
      decide ((σ.chan.links.next (.head none) = .elem 1 ∧ σ.chan.links.prev (.elem 1) = .head none ∧
        σ.chan.links.next (.elem 1) = .head none ∧ σ.chan.links.prev (.head none) = .elem 1) ∧
        σ.chan.msgs 1 = none ∧ σ.chan.qlen = 1 ∧ σ.chan.state = .initialized ∧
        σ.chan.owned ≤ smallCfg.nbufs ∧ σ.chan.live 9 = false ∧
        (((channelSystem smallCfg).run (σ.numbersOn (2 ^ 32 - 1)) secondRequest).any fun σ : State =>
          decide (σ.chan.enabled = true ∧
            (∃ m : Msg, σ.chan.msgs 0 = some m ∧ m.use = .request 0 ∧ m.resp = none ∧
              m.hdr.seqid = 1) ∧
            ∃ m : Msg, σ.chan.msgs 1 = some m ∧ m.use = .request 1 ∧ m.resp = none ∧
              m.hdr.seqid = 1)) = true)) = true := by decide +kernel
  obtain ⟨σ, hsteps, h⟩ := System.Steps.of_run_any hfirst
  obtain ⟨hchain, hm, hq, hst, ho, hl, hsecond⟩ := of_decide_eq_true h
  have hfree : OneFree smallCfg σ.chan 1 := ⟨⟨hchain, by simp⟩, hm, hq, hst, ho⟩
  obtain ⟨acts, hmany⟩ := hfree.steps hl (2 ^ 32 - 1)
  obtain ⟨σ', hsteps', h'⟩ := System.Steps.of_run_any hsecond
  obtain ⟨hen, ⟨m, hm, hu, hn, hid⟩, m', hm', hu', hn', hid'⟩ := of_decide_eq_true h'
  have hr := hsteps'.reachable (hmany.reachable (hsteps.reachable (.init smallChannel_init)))
  obtain ⟨lists, pending, -, hT⟩ := (base_reachable hr).sound
  have hT := hT hen
  exact ⟨σ', hr, m, m', hT.reached hm ⟨⟨0, hu⟩, hn⟩, hT.reached hm' ⟨⟨1, hu'⟩, hn'⟩, hm, hm',
    .inl (.inr ⟨0, hu⟩), .inl (.inr ⟨1, hu'⟩), by rw [hid, hid']⟩

end Rpc

end VmwareProto
