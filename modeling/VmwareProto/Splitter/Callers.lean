import VmwareProto.Library.Remote
import VmwareProto.Splitter.Conserved
import VmwareProto.Splitter.Still
import VmwareProto.Splitter.Store
/-!
# The client's tasks as callers

A task that calls an operation is a caller: it has not sent its request
until `fdlock` is obtained with it, and has its answer once `rpc_response`
has attached one to it. Each step of the client is one of a caller, or none.
-/

namespace VmwareProto

namespace Splitter

open Rpc
open Libtask (TaskId)

variable {σ σ' : Side} {ρ : Rpc.State} {i : ℕ} {n t : TaskId} {a b : Addr} {m m' r : Msg}
  {act : SideAction} {op : ClientOp} {o : Op} {s : BitVec 32} {q : Recv} {p : Pc}

/-- A caller of the store. -/
abbrev Caller := Remote.Caller (BitVec 32) Op Result

variable {c : Caller}

/-- Task `n` is about `o`, and its request is not begun. -/
structure Asking (σ : Side) (n : TaskId) (o : Op) : Prop where
  op : ∃ op, (σ.task n).op = some op ∧ op.toOp = some o
  filled : ∀ op a, σ.task n = .filled op a → ∃ m, σ.rpc.chan.msgs a = some m ∧ Asks o m
  calling : ∀ op a, σ.task n = .calling op a → σ.rpc.pc n = .lockWait .request a ∧
    ∃ m, σ.rpc.chan.msgs a = some m ∧ Asks o m ∧ m.resp = none

/-- The request of task `n`, with the sequence id `s`, waits for its answer. -/
structure Awaiting (σ : Side) (n : TaskId) (s : BitVec 32) (a : Addr) (m : Msg) : Prop where
  task : ∃ op, σ.task n = .calling op a
  pc : σ.rpc.pc n ≠ .lockWait .request a
  msg : σ.rpc.chan.msgs a = some m
  use : m.use = .request n
  resp : m.resp = none
  seqid : m.hdr.seqid = s

/-- The request of task `n` has its answer, the message `r`. -/
structure HasAnswer (σ : Side) (n : TaskId) (a : Addr) (r : Msg) : Prop where
  task : ∃ op, σ.task n = .calling op a
  pc : σ.rpc.pc n ≠ .lockWait .request a
  msg : ∃ m b, σ.rpc.chan.msgs a = some m ∧ m.resp = some b ∧ σ.rpc.chan.msgs b = some r

/-- **Task `n` is a caller**, in the operation with the number `i`. -/
def Calls (σ : Side) (i : ℕ) (n : TaskId) : Caller → Prop
  | .idle => σ.task n = .idle
  | .asks j o => j = i ∧ Asking σ n o
  | .awaits j _ s => j = i ∧ ∃ a m, Awaiting σ n s a m
  | .answered j _ x => j = i ∧ ∃ a r, HasAnswer σ n a r ∧ result r = x

/-! ## Where a caller is -/

theorem Calls.idle_iff (h : Calls σ i n c) : σ.task n = .idle ↔ c = .idle := by
  cases c with
  | idle => exact iff_of_true h rfl
  | asks j o =>
      obtain ⟨-, ⟨op, hop, -⟩, -⟩ := h
      refine iff_of_false (fun e => ?_) fun e => by cases e
      rw [e] at hop
      cases hop
  | awaits j o s =>
      obtain ⟨-, a, m, ⟨op, ht⟩, -⟩ := h
      exact iff_of_false (by rw [ht]; exact Task.noConfusion) (fun e => by cases e)
  | answered j o x =>
      obtain ⟨-, a, r, ⟨⟨op, ht⟩, -⟩, -⟩ := h
      exact iff_of_false (by rw [ht]; exact Task.noConfusion) (fun e => by cases e)

/-- A task that has not called `rpc_request` yet. -/
theorem Calls.asking (h : Calls σ i n c) (hop : (σ.task n).op = some op)
    (hne : ∀ a, σ.task n ≠ .calling op a) :
    ∃ o, c = .asks i o ∧ op.toOp = some o ∧ Asking σ n o := by
  have hcall : ∀ {a}, (∃ op, σ.task n = .calling op a) → False := by
    rintro a ⟨op', ht⟩
    rw [ht] at hop
    obtain rfl := Option.some.inj hop
    exact hne a ht
  cases c with
  | idle =>
      rw [show σ.task n = .idle from h] at hop
      cases hop
  | asks j o =>
      obtain ⟨rfl, ha⟩ := h
      obtain ⟨op', hop', ho⟩ := ha.op
      obtain rfl := Option.some.inj (hop.symm.trans hop')
      exact ⟨o, rfl, ho, ha⟩
  | awaits j o s =>
      obtain ⟨-, a, m, ha⟩ := h
      exact (hcall ha.task).elim
  | answered j o x =>
      obtain ⟨-, a, r, ha, -⟩ := h
      exact (hcall ha.task).elim

/-- A task whose request waits for `fdlock`. -/
theorem Calls.locking (h : Calls σ i n c) (ht : σ.task n = .calling op a)
    (hpc : σ.rpc.pc n = .lockWait .request a) : ∃ o, c = .asks i o ∧ Asking σ n o := by
  have hno : ∀ {b}, (∃ op, σ.task n = .calling op b) → σ.rpc.pc n ≠ .lockWait .request b →
      False := by
    rintro b ⟨op', ht'⟩ hne
    obtain ⟨-, rfl⟩ := Task.calling.inj (ht.symm.trans ht')
    exact hne hpc
  cases c with
  | idle =>
      rw [show σ.task n = .idle from h] at ht
      cases ht
  | asks j o =>
      obtain ⟨rfl, ha⟩ := h
      exact ⟨o, rfl, ha⟩
  | awaits j o s =>
      obtain ⟨-, b, m, ha⟩ := h
      exact (hno ha.task ha.pc).elim
  | answered j o x =>
      obtain ⟨-, b, r, ha, -⟩ := h
      exact (hno ha.task ha.pc).elim

/-- **A task that does nothing.** -/
theorem Calls.still (h : Calls σ i n c) (hs : Still σ σ' n) : Calls σ' i n c := by
  obtain ⟨htask, hpc, hmsg, hresp⟩ := hs
  cases c with
  | idle => exact htask.trans h
  | asks j o =>
      obtain ⟨rfl, hop, hfilled, hcalling⟩ := h
      refine ⟨rfl, by rw [htask]; exact hop, fun op a ht => ?_, fun op a ht => ?_⟩
      · rw [htask] at ht
        obtain ⟨m, hm, hasks⟩ := hfilled op a ht
        exact ⟨m, (hmsg a (by rw [ht]; rfl)).trans hm, hasks⟩
      · rw [htask] at ht
        obtain ⟨hwait, m, hm, hasks⟩ := hcalling op a ht
        exact ⟨hpc.trans hwait, m, (hmsg a (by rw [ht]; rfl)).trans hm, hasks⟩
  | awaits j o s =>
      obtain ⟨rfl, a, m, ⟨⟨op, ht⟩, hne, hm, hu, hr, hs⟩⟩ := h
      exact ⟨rfl, a, m, ⟨op, htask.trans ht⟩, by rw [hpc]; exact hne,
        (hmsg a (by rw [ht]; rfl)).trans hm, hu, hr, hs⟩
  | answered j o x =>
      obtain ⟨rfl, a, r, ⟨⟨op, ht⟩, hne, m, b, hm, hb, hr⟩, hx⟩ := h
      have ha : (σ.task n).msg = some a := by rw [ht]; rfl
      exact ⟨rfl, a, r, ⟨⟨op, htask.trans ht⟩, by rw [hpc]; exact hne, m, b,
        (hmsg a ha).trans hm, hb, (hresp a m b ha hm hb).trans hr⟩, hx⟩

/-- A task in `rpc_request` that goes on in it. -/
theorem Calls.goes_on (h : Calls σ i n c) (hO : Owned ioChanCfg σ)
    (ha : Acts σ.rpc ρ n a m m' p) (ht : σ.task n = .calling op a)
    (hpc : σ.rpc.pc n ≠ .lockWait .request a) (hp : p ≠ .lockWait .request a)
    (hu : m'.use = m.use ∨ m.resp ≠ none) (hid : m'.hdr = m.hdr) :
    Calls { σ with rpc := ρ } i n c := by
  have hp' : ρ.pc n ≠ .lockWait .request a := by rw [pc_of_acts ha]; exact hp
  have hm' : ρ.chan.msgs a = some m' := by rw [ha.msgs, Function.update_self]
  cases c with
  | idle =>
      rw [show σ.task n = .idle from h] at ht
      cases ht
  | asks j o => exact absurd (h.2.calling op a ht).1 hpc
  | awaits j o s =>
      obtain ⟨rfl, b, m₁, ⟨⟨op', ht'⟩, -, hm, hmu, hr, hs⟩⟩ := h
      obtain ⟨-, rfl⟩ := Task.calling.inj (ht.symm.trans ht')
      obtain rfl := Option.some.inj (ha.msg.symm.trans hm)
      refine ⟨rfl, a, m', ⟨op, ht⟩, hp', hm', ?_, ha.resp.trans hr, by rw [hid]; exact hs⟩
      exact (hu.resolve_right fun e => e hr).trans hmu
  | answered j o x =>
      obtain ⟨rfl, b, r, ⟨⟨op', ht'⟩, -, m₁, b', hm, hb, hr⟩, hx⟩ := h
      obtain ⟨-, rfl⟩ := Task.calling.inj (ht.symm.trans ht')
      obtain rfl := Option.some.inj (ha.msg.symm.trans hm)
      have hne : b' ≠ a := (hO.resp_msg hm hb).1
      refine ⟨rfl, a, r, ⟨⟨op, ht⟩, hp', m', b', hm', ha.resp.trans hb, ?_⟩, hx⟩
      show ρ.chan.msgs b' = _
      rw [ha.msgs, Function.update_of_ne hne, hr]

/-! ## The steps of a task -/

/-- The client's task in a call of the channel is in `rpc_request`. -/
theorem Speaks.calling {k : Kind} (h : Speaks .client σ n) (hO : Owned ioChanCfg σ)
    (hc : (σ.rpc.pc n).call = some (k, a)) : k = .request ∧ ∃ op, σ.task n = .calling op a := by
  rcases (hO.fits n).of_call hc with ⟨ht, rfl⟩ | ⟨ht, -⟩
  · exact ⟨rfl, ht⟩
  · have hof := h.of
    rw [ht] at hof
    exact hof.elim

/-- A task that is not in `rpc_request` yet has a request to send. -/
theorem Asking.of_task (ht : (σ.task n).op = some op) (ho : op.toOp = some o)
    (hf : ∀ op a, σ.task n ≠ .filled op a) (hc : ∀ op a, σ.task n ≠ .calling op a) :
    Asking σ n o :=
  ⟨⟨op, ht, ho⟩, fun op a e => absurd e (hf op a), fun op a e => absurd e (hc op a)⟩

/-- **What a step of the client comes to**: nothing that a caller sees, or a
request is begun. -/
inductive Client (σ σ' : Side) (i : TaskId → ℕ) (c : TaskId → Caller) : Prop
  | stutters : σ'.rpc.log = σ.rpc.log → (∀ t, Calls σ' (i t) t (c t)) → Client σ σ' i c
  | sends (n : TaskId) (o : Op) (a : Addr) (m : Msg) : c n = .asks (i n) o →
      σ'.rpc.log = σ.rpc.log ++ [m.wire] → Deliverable ioCfg m → Asks o m →
      σ'.rpc.chan.msgs a = some m → m.use = .request n →
      (∀ t, Calls σ' (i t) t (Function.update c n (.awaits (i n) o m.hdr.seqid) t)) →
      Client σ σ' i c

section

variable {i : TaskId → ℕ} {c : TaskId → Caller} (h : ∀ t, Calls σ (i t) t (c t))
include h

/-- One task goes on, as the caller it was. -/
theorem calls_own (hs : ∀ t, t ≠ n → Still σ σ' t) (hn : Calls σ' (i n) n (c n)) (t : TaskId) :
    Calls σ' (i t) t (c t) := by
  by_cases htn : t = n
  · rw [htn]
    exact hn
  · exact (h t).still (hs t htn)

/-- One task goes on, as another caller. -/
theorem calls_update {x : Caller} (hs : ∀ t, t ≠ n → Still σ σ' t) (hn : Calls σ' (i n) n x)
    (t : TaskId) : Calls σ' (i t) t (Function.update c n x t) := by
  by_cases htn : t = n
  · rw [htn, Function.update_self]
    exact hn
  · rw [Function.update_of_ne htn]
    exact (h t).still (hs t htn)

variable (hO' : Owned ioChanCfg σ') (hsp' : ∀ t, Speaks .client σ' t)
include hO' hsp'

/-- **A request is begun.** -/
theorem client_sends (hs : ∀ t, t ≠ n → Still σ σ' t) (hc : c n = .asks (i n) o) (ha : Asks o m)
    (hlog : σ'.rpc.log = σ.rpc.log ++ [m.wire])
    (hpc : σ'.rpc.pc n = .send .request a .header m.hdrBytes)
    (hm : σ'.rpc.chan.msgs a = some m) (hr : m.resp = none) : Client σ σ' i c := by
  have hcall : (σ'.rpc.pc n).call = some (.request, a) := by rw [hpc]; rfl
  obtain ⟨m₁, hm₁, hu⟩ := hO'.base.uses.call n .request a hcall
  obtain rfl := Option.some.inj (hm.symm.trans hm₁)
  obtain ⟨-, op, ht⟩ := (hsp' n).calling hO' hcall
  refine .sends n o a m hc hlog ((hsp' n).sends hO' hcall hm).deliverable ha hm hu
    (calls_update h hs ⟨rfl, a, m, ⟨op, ht⟩, ?_, hm, hu, hr, rfl⟩)
  rw [hpc]
  exact Pc.noConfusion

variable (hO : Owned ioChanCfg σ) (hsp : ∀ t, Speaks .client σ t)
include hO hsp

/-- **Every step** of the client but the start and the end of an operation
and what its receiver reads. -/
theorem client_step (he : act.Enabled ioChanCfg .client σ) (hd : Did ioChanCfg .client σ act σ')
    (hplain : StoreAction.Plain act) (hk : ∀ k n, act ≠ .recvTake k n) : Client σ σ' i c := by
  have hstill : ∀ t, act.actor ≠ some t → Still σ σ' t := fun t ht => hO.still he hd ht hk
  have hothers : ∀ {n}, act.actor = some n → ∀ t, t ≠ n → Still σ σ' t := fun hn t htn =>
    hstill t fun e => htn (Option.some.inj (e.symm.trans hn))
  have hlog := fun hact => hO.log_same he hd hact
  cases hd with
  | waits => exact .stutters rfl h
  | start n op => exact hplain.elim
  | @getData n calloc op d data ht hget =>
      obtain ⟨o, hc, ho, -⟩ := (h n).asking (show _ = some op by rw [ht]; rfl) (by rw [ht]; simp)
      refine .stutters rfl (calls_own h (hothers rfl) ?_)
      rw [hc]
      exact ⟨rfl, .of_task (by simp [Side.setTask, Task.op]) ho (by simp [Side.setTask])
        (by simp [Side.setTask])⟩
  | @getMsg n alloc a op d c' ht hget =>
      obtain ⟨o, hc, ho, -⟩ := (h n).asking (show _ = some op by rw [ht]; rfl) (by rw [ht]; simp)
      refine .stutters rfl (calls_own h (hothers rfl) ?_)
      rw [hc]
      exact ⟨rfl, .of_task (by simp [Task.op]) ho (by simp) (by simp)⟩
  | @fill n a op m ρ ht hm hx =>
      obtain ⟨o, hc, ho, -⟩ := (h n).asking (show _ = some op by rw [ht]; rfl) (by rw [ht]; simp)
      refine .stutters (hlog (by simp)) (calls_own h (hothers rfl) ?_)
      rw [hc]
      have hof := (hsp n).of
      have hgot := (hsp n).holds a m (by rw [ht]; rfl) hm
      rw [ht] at hof hgot
      obtain ⟨m₁, ha⟩ := acts_edit n hx
      obtain rfl := Option.some.inj (hm.symm.trans ha.msg)
      refine ⟨rfl, ⟨op, by simp [Side.setTask, Task.op], ho⟩, fun op' a' e => ?_,
        by simp [Side.setTask]⟩
      simp only [Side.setTask, Function.update_self, Task.filled.injEq] at e
      obtain ⟨rfl, rfl⟩ := e
      refine ⟨_, (congrFun ha.msgs a).trans (Function.update_self ..), ?_⟩
      have hasks := GotFor.asks hgot hof ho
      cases op <;> exact hasks.congr rfl rfl rfl rfl rfl
  | @request n a op ρ ht hx =>
      obtain ⟨o, hc, ho, hask⟩ := (h n).asking (show _ = some op by rw [ht]; rfl) (by rw [ht]; simp)
      obtain ⟨m, m', hm, rfl, hm', hl⟩ := locks_request hO.enabled hx
      obtain ⟨m₁, hm₁, hasks⟩ := hask.filled op a ht
      obtain rfl := Option.some.inj (hm.symm.trans hm₁)
      have hr : m.resp = none := by
        have hu := use_of_owned (hO.fits_of ht).2 hm
        have hf := hO.base.uses.fits a m hm
        simp only [Msg.Fits, hu] at hf
        exact hf.2
      have hasks' : Asks o { m with hdr := m.hdr.setReq, use := .request n } :=
        hasks.congr rfl rfl (getMsgType_setReq _) rfl rfl
      cases hl with
      | begins hlog hpc => exact client_sends h hO' hsp' (hothers rfl) hc hasks' hlog hpc hm' hr
      | waits hlog hpc =>
          refine .stutters hlog (calls_own h (hothers rfl) ?_)
          rw [hc]
          refine ⟨rfl, ⟨op, by simp [Side.setTask, Task.op], ho⟩, by simp [Side.setTask],
            fun op' a' e => ?_⟩
          simp only [Side.setTask, Function.update_self, Task.calling.injEq] at e
          obtain ⟨rfl, rfl⟩ := e
          exact ⟨hpc, _, hm', hasks', hr⟩
  | finish => exact hplain.elim
  | @resume n ρ hx =>
      obtain ⟨k, a, m, hpc, hm, -, rfl⟩ := State.resume_cases hx
      obtain ⟨rfl, op, ht⟩ := (hsp n).calling hO (by rw [hpc]; rfl)
      obtain ⟨o, hc, hask⟩ := (h n).locking ht hpc
      obtain ⟨-, m₁, hm₁, hasks, hr⟩ := hask.calling op a ht
      obtain rfl := Option.some.inj (hm.symm.trans hm₁)
      exact client_sends h hO' hsp' (hothers rfl) hc hasks rfl (Function.update_self ..) hm hr
  | @write n r ρ hw hx =>
      obtain ⟨k, a, part, rest, hpc, hcases⟩ := acts_write he.2 hx
      obtain ⟨rfl, op, ht⟩ := (hsp n).calling hO (by rw [hpc]; rfl)
      have hne : σ.rpc.pc n ≠ .lockWait .request a := by rw [hpc]; exact Pc.noConfusion
      refine .stutters (hlog (by simp)) (calls_own h (hothers rfl) ?_)
      rcases hcases with ⟨-, rfl⟩ | ⟨j, m, rfl, hm, ⟨part', rest', -, ha⟩ | ⟨-, -, ha⟩ |
        ⟨-, hk, -⟩⟩
      · exact h n
      · exact (h n).goes_on hO ha ht hne Pc.noConfusion (.inl rfl) rfl
      · exact (h n).goes_on hO ha ht hne Pc.noConfusion (.inl rfl) rfl
      · cases hk
  | @responded n r a τ ρ hw hx hput =>
      obtain ⟨m, l, hm, hu, hcall, -⟩ := hO.completed he.2 hw hx
      obtain ⟨hk, -⟩ := (hsp n).calling hO hcall
      cases hk
  | @wake n ρ hx =>
      obtain ⟨a, m, hpc, ha⟩ := acts_wake hx
      obtain ⟨-, op, ht⟩ := (hsp n).calling hO (by rw [hpc]; rfl : _ = some (Kind.request, a))
      have hne : σ.rpc.pc n ≠ .lockWait .request a := by rw [hpc]; exact Pc.noConfusion
      refine .stutters (hlog (by simp)) (calls_own h (hothers rfl)
        ((h n).goes_on hO ha ht hne Pc.noConfusion (.inr ?_) rfl))
      obtain ⟨a', m₁, hpc', hm₁, hr, -⟩ := State.wake_cases hx
      obtain rfl := Pc.woken.inj (hpc.symm.trans hpc')
      obtain rfl := Option.some.inj (ha.msg.symm.trans hm₁)
      exact hr
  | handle => exact hplain.elim
  | @respond n a ρ ht hx =>
      have hof := (hsp n).of
      rw [ht] at hof
      exact hof.elim
  | recvStart hx =>
      exact .stutters (hlog (by simp)) fun t => (h t).still (hstill t (by simp [SideAction.actor]))
  | recvTake => exact absurd rfl (hk _ _)
  | recvAgain hx =>
      exact .stutters (hlog (by simp)) fun t => (h t).still (hstill t (by simp [SideAction.actor]))
  | recvData hget hx =>
      exact .stutters (hlog (by simp)) fun t => (h t).still (hstill t (by simp [SideAction.actor]))
  | arrive hx =>
      exact .stutters (hlog (by simp)) fun t => (h t).still (hstill t (by simp [SideAction.actor]))

omit hO' hsp' hsp

/-- **What the client's receiver reads**: nothing that a caller sees, or the
answer to the request of the one that waits for it. -/
theorem client_takes {k : ℕ} {ms : List Msg}
    (hO' : Owned ioChanCfg (Side.received { σ with rpc := ρ } b n))
    (hN : Numbered σ.rpc) (hms : ∀ m ∈ ms, Role.server.Sends m)
    (hs : σ.rpc.recv.taken ++ σ.rpc.inq <+: frames ms)
    (hwait : ∀ m ∈ ms.head?, ∃ t o, c t = .awaits (i t) o (Msg.ofWhole ioCfg m.wire).hdr.seqid)
    (he : (Rpc.Action.recvTake k).Allowed ioChanCfg σ.rpc) (hq : σ.rpc.recv = .receiving b q)
    (hx : (Rpc.Action.recvTake k).exec ioChanCfg σ.rpc = some ρ) :
    (ρ.recv.taken ++ ρ.inq = σ.rpc.recv.taken ++ σ.rpc.inq ∧
      ∀ t, Calls (Side.received { σ with rpc := ρ } b n) (i t) t (c t)) ∨
    ∃ m ms' t o, ms = m :: ms' ∧ σ.rpc.recv.taken ++ σ.rpc.inq = m.wire ++ (ρ.recv.taken ++ ρ.inq) ∧
      c t = .awaits (i t) o (Msg.ofWhole ioCfg m.wire).hdr.seqid ∧
      ∀ t', Calls (Side.received { σ with rpc := ρ } b n) (i t') t'
        (Function.update c t (.answered (i t) o (result (Msg.ofWhole ioCfg m.wire))) t') := by
  have htaken : ∀ {w}, q.taken ++ σ.rpc.inq = w → σ.rpc.recv.taken ++ σ.rpc.inq = w := fun e => by
    rw [hq, ← e]
    rfl
  rcases recvTake_took hO.base hO.enabled hO.receives he hq hx with
    ⟨q', hq', hc, hpc, -, hst⟩ | ⟨w, m, hw, hst, hm, -, hreq, -⟩ |
    ⟨w, m, a, p, t', hw, hst, hm, -, hreq, hcc, hl', hab, hp, hpu, hpr, hpc, hmsg⟩ | ⟨-, -, -, hl⟩
  · left
    have e : Side.received { σ with rpc := ρ } b n = { σ with rpc := ρ } := by
      simp only [Side.received, hq']
    rw [e]
    refine ⟨?_, fun t => (h t).still (still_of_same rfl (by rw [hpc]) (by rw [hc]))⟩
    rw [hq', hq]
    exact hst
  · -- the server sends no requests
    rw [htaken hst] at hs
    obtain ⟨m₀, ms', rfl, rfl, -⟩ := heard_first hms hs hw
    obtain ⟨hd, hno⟩ := hms m₀ List.mem_cons_self
    rw [hm, show ({ Msg.ofWhole ioChanCfg.toRecvCfg m₀.wire with use := .handed } : Msg).hdr =
      (Msg.ofWhole ioCfg m₀.wire).hdr from rfl, (alike_ofWhole hd.framed).hdr, hno] at hreq
    cases hreq
  · right
    have hst := htaken hst
    rw [hst] at hs
    obtain ⟨m₀, ms', rfl, rfl, -⟩ := heard_first hms hs hw
    have hhdr : m.hdr = (Msg.ofWhole ioCfg m₀.wire).hdr := by
      rw [hm]
      rfl
    have hb : ρ.chan.msgs b = some m := by rw [hmsg, if_neg hab.symm, if_pos rfl]
    have ha' : ρ.chan.msgs a = some { p with resp := some b, rendez := [] } := by
      rw [hmsg, if_pos rfl]
    have e : Side.received { σ with rpc := ρ } b n = { σ with
        rpc := ρ, payloadAt := Function.update σ.payloadAt b σ.buf } := by
      simp only [Side.received, hl', hb, hreq, hcc, Bool.false_eq_true, or_self, if_false]
    rw [e] at hO' ⊢
    obtain ⟨t, o, hct⟩ := hwait m₀ rfl
    obtain ⟨-, a₁, m₁, ⟨op, ht⟩, hne, hm₁, hu₁, hr₁, hid₁⟩ : Calls σ (i t) t
        (.awaits (i t) o (Msg.ofWhole ioCfg m₀.wire).hdr.seqid) := hct ▸ h t
    -- the request that is found is the one that waits
    have hid : p.hdr.seqid = (Msg.ofWhole ioCfg m₀.wire).hdr.seqid := by
      obtain ⟨r, hr, -, hid, -⟩ := hO'.base.uses.resp a _ b ha' rfl
      obtain rfl := Option.some.inj (hb.symm.trans hr)
      rw [← hhdr, hid]
    obtain rfl : a = a₁ := hN.distinct a a₁ p m₁ hp hm₁ (.inr ⟨t', hpu⟩) (.inr ⟨t, hu₁⟩)
      (hid.trans hid₁.symm)
    obtain rfl := Option.some.inj (hp.symm.trans hm₁)
    obtain rfl := Use.request.inj (hpu.symm.trans hu₁)
    have hmsg' : (σ.task t').msg = some a := by rw [ht]; rfl
    refine ⟨m₀, ms', t', o, rfl, by rw [hst, hl']; rfl, hct, calls_update h (fun t htn => ?_) ?_⟩
    · refine hO.still_received hq htn rfl ?_ fun y hy hya => ?_
      · show ρ.pc t = _
        rw [hpc]
        split
        · exact Function.update_of_ne htn ..
        · rfl
      · show ρ.chan.msgs y = _
        rw [hmsg, if_neg fun (e : y = a) => hya (e ▸ hmsg'), if_neg hy]
    · refine ⟨rfl, a, m, ⟨⟨op, ht⟩, ?_, _, b, ha', rfl, hb⟩, ?_⟩
      · show ρ.pc t' ≠ _
        rw [hpc]
        split
        · rw [Function.update_self]
          exact Pc.noConfusion
        · exact hne
      · rw [hm]
        rfl
  · exact absurd hl (recv_ne_left hO hms hs he hx)

/-- **An operation is called.** -/
theorem client_starts {j : ℕ} (he : (SideAction.start n op).Enabled ioChanCfg .client σ)
    (hx : (SideAction.start n op).exec ioChanCfg .client σ = some σ') (ho : op.toOp = some o) :
    c n = .idle ∧
      ∀ t, Calls σ' (Function.update i n j t) t (Function.update c n (.asks j o) t) := by
  have hd := did hx
  obtain rfl := Option.some.inj hx
  have hidle : c n = .idle := (h n).idle_iff.1 he.2.1
  refine ⟨hidle, fun t => ?_⟩
  by_cases htn : t = n
  · rw [htn, Function.update_self, Function.update_self]
    refine ⟨rfl, .of_task ?_ ho (fun op' a => ?_) fun op' a => ?_⟩ <;>
      simp only [Side.setTask, Function.update_self] <;> split <;> simp [Task.op]
  · rw [Function.update_of_ne htn, Function.update_of_ne htn]
    refine (h t).still (hO.still he hd (fun e => htn (Option.some.inj e).symm) (by simp))

/-- **An operation returns** with the answer it has. -/
theorem client_returns (he : (SideAction.finish n).Enabled ioChanCfg .client σ)
    (hx : (SideAction.finish n).exec ioChanCfg .client σ = some σ') (ha : (σ.task n).msg = some a)
    (hm : σ.rpc.chan.msgs a = some m) (hb : m.resp = some b) (hr : σ.rpc.chan.msgs b = some r) :
    (∃ o, c n = .answered (i n) o (result r)) ∧
      ∀ t, Calls σ' (i t) t (Function.update c n .idle t) := by
  have hd := did hx
  obtain ⟨⟨op, a', ht⟩, hpc⟩ := id he
  obtain rfl : a' = a := by
    rw [ht] at ha
    exact Option.some.inj ha
  constructor
  · have hn := h n
    cases hc : c n with
    | idle =>
        rw [hn.idle_iff.2 hc] at ht
        cases ht
    | asks j o =>
        rw [hc] at hn
        rw [(hn.2.calling op a' ht).1] at hpc
        cases hpc
    | awaits j o s =>
        rw [hc] at hn
        obtain ⟨-, a₁, m₁, ⟨op₁, ht₁⟩, -, hm₁, -, hr₁, -⟩ := hn
        obtain ⟨-, rfl⟩ := Task.calling.inj (ht.symm.trans ht₁)
        obtain rfl := Option.some.inj (hm.symm.trans hm₁)
        rw [hr₁] at hb
        cases hb
    | answered j o x =>
        rw [hc] at hn
        obtain ⟨rfl, a₁, r₁, ⟨⟨op₁, ht₁⟩, -, m₁, b₁, hm₁, hb₁, hr₁⟩, rfl⟩ := hn
        obtain ⟨-, rfl⟩ := Task.calling.inj (ht.symm.trans ht₁)
        obtain rfl := Option.some.inj (hm.symm.trans hm₁)
        obtain rfl := Option.some.inj (hb.symm.trans hb₁)
        obtain rfl := Option.some.inj (hr.symm.trans hr₁)
        exact ⟨o, rfl⟩
  · refine calls_update h (fun t htn => hO.still he hd (fun e => htn (Option.some.inj e).symm)
      (by simp)) ?_
    cases hd with
    | waits hw => exact hw.elim
    | finish => exact Function.update_self ..

end

end Splitter

end VmwareProto
