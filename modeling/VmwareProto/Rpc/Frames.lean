import VmwareProto.Rpc.Invariant
/-!
# What a step leaves alone

The receiver's steps leave the lock and what was sent; other steps leave
the receiver, and every task but their own; and no step touches the request
of a task that is not its own, unless it brings the response. With what
these say about `enabled`, `Base` holds in every run, the table for as long
as the channel is enabled.
-/

namespace VmwareProto

namespace Rpc

open Libtask

variable {cfg : Cfg} {ok : Prop} {σ σ' : State} {a b alloc : Addr} {m : Msg} {n : TaskId} {k : Kind}
  {c : Channel} {l : QLock} {act : Action}

/-! ## What the receiver leaves alone -/

/-- A step of the receiver, seen from the rest of the channel: it may wake
sleepers, and may disable the channel on its way out. -/
structure Received (σ σ' : State) : Prop where
  fdlock : σ'.chan.fdlock = σ.chan.fdlock
  isOpen : σ'.chan.isOpen = σ.chan.isOpen
  seqid : σ'.chan.seqid = σ.chan.seqid
  sent : σ'.sent = σ.sent
  log : σ'.log = σ.log
  arrived : σ'.arrived = σ.arrived
  gets : σ'.gets = σ.gets
  enabled : σ'.chan.enabled = σ.chan.enabled ∨ σ'.chan.enabled = false ∧ σ'.recv = .left
  pc : ∀ t, σ'.pc t = σ.pc t ∨ ∃ a, σ.pc t = .asleep a ∧ σ'.pc t = .woken a
  left : σ'.recv = .left → σ'.pc = σ.pc

theorem received_dispatch {q : Recv} (h : Base cfg ok σ) (hen : σ.chan.enabled = true → ok)
    (hq : σ.recv = .receiving b q) (hu : m.use = .reading)
    (he : m.hdr.isConnClosed = false → σ.chan.enabled = true)
    (hx : σ.dispatch cfg b m = some σ') : Received σ σ' := by
  obtain ⟨lists, pending, hS⟩ := h.sound
  rcases State.dispatch_cases hx with ⟨-, rfl⟩ | ⟨-, -, rfl⟩ | ⟨hc, hreq, hx⟩
  · exact ⟨rfl, rfl, rfl, rfl, rfl, rfl, rfl, .inr ⟨rfl, rfl⟩, fun _ => .inl rfl, fun _ => rfl⟩
  · exact ⟨rfl, rfl, rfl, rfl, rfl, rfl, rfl, .inl rfl, fun _ => .inl rfl, fun _ => rfl⟩
  · rcases State.rpcResponse_spec h.uses hS (hen (he hc)) hq hu with
      ⟨a, p, n, c', -, -, -, -, hx', -, hk, -⟩ | ⟨hx', -⟩
    · rw [hx] at hx'
      obtain rfl := Option.some.inj hx'
      refine ⟨hk.fdlock, hk.isOpen, hk.seqid, rfl, rfl, rfl, rfl, .inl hk.enabled, fun t => ?_,
        fun hl => by cases hl⟩
      simp only
      split
      · rename_i hs
        by_cases htn : t = n
        · subst htn; exact .inr ⟨a, hs, by rw [Function.update_self]⟩
        · exact .inl (Function.update_of_ne htn _ _)
      · exact .inl rfl
    · rw [hx] at hx'; cases hx'

theorem received_settle {q r : Recv} (h : Base cfg ok σ) (hen : σ.chan.enabled = true → ok)
    (hq : σ.recv = .receiving b q) (he : ∀ d, r.pc = .done d → σ.chan.enabled = true)
    (hx : σ.settle cfg b r = some σ') : Received σ σ' := by
  rcases State.settle_cases hx with ⟨-, rfl⟩ | ⟨-, hx⟩
  · exact ⟨rfl, rfl, rfl, rfl, rfl, rfl, rfl, .inl rfl, fun _ => .inl rfl, fun _ => rfl⟩
  · obtain ⟨m, hu, -, -, hx, ⟨⟨d, hd⟩, -⟩ | ⟨-, hc⟩⟩ := State.deliver_cases hx
    · exact received_dispatch h hen hq hu (fun _ => he d hd) hx
    · exact received_dispatch h hen hq hu (by simp [hc]) hx

theorem received (h : Base cfg ok σ) (hen : σ.chan.enabled = true → ok)
    (he : act.Allowed cfg σ) (hx : act.exec cfg σ = some σ') (hact : act.Receiving) :
    Received σ σ' := by
  obtain ⟨σ₁, b, q, r, hp, hx⟩ := receiving_cases h he hx hact
  have hk := hp.keeps
  have hr := received_settle hp.base (by rw [hk.enabled]; exact hen) hp.recv hp.done hx
  exact ⟨hr.fdlock.trans hk.fdlock, hr.isOpen.trans hk.isOpen, hr.seqid.trans hk.seqid,
    hr.sent.trans hp.sent, hr.log.trans hp.log, hr.arrived.trans hp.arrived, hr.gets.trans hp.gets,
    hr.enabled.imp_left fun e => e.trans hk.enabled, fun t => by rw [← hp.pc]; exact hr.pc t,
    fun hl => (hr.left hl).trans hp.pc⟩

theorem lock_chan (σ : State) (n : TaskId) (a : Addr) (k : Kind) (m : Msg) :
    (σ.lock n a k m).chan = { σ.chan with fdlock := σ.chan.fdlock.qlock n } := by
  rcases State.lock_cases σ n a k m with ⟨-, e⟩ | ⟨-, e⟩ <;> rw [e]

/-- **Nothing enables or opens a channel again.** -/
theorem enabled_cases (h : Base cfg ok σ) (hen : σ.chan.enabled = true → ok)
    (he : act.Allowed cfg σ) (hx : act.exec cfg σ = some σ') :
    σ'.chan.enabled = σ.chan.enabled ∨ σ'.chan.enabled = false := by
  obtain ⟨lists, pending, hS⟩ := h.sound
  cases act with
  | msgGet alloc msgtype msglen payloadlen payload =>
      simp only [Action.exec, Option.bind_eq_bind, Option.bind_eq_some_iff] at hx
      obtain ⟨⟨c, b⟩, hget, hx⟩ := hx
      obtain rfl := Option.some.inj hx
      obtain ⟨-, -, m, -, -, -, -, -, -, hen', -⟩ := msgGet_spec hS he.1 hget
      exact .inl hen'
  | edit a msglen payloadlen status body payload =>
      simp only [Action.exec, Option.bind_eq_bind, Option.bind_eq_some_iff] at hx
      obtain ⟨m, -, hx⟩ := hx
      obtain rfl := Option.some.inj hx
      exact .inl rfl
  | msgPut a =>
      simp only [Action.exec, Option.bind_eq_bind, Option.bind_eq_some_iff] at hx
      obtain ⟨c, hc, hx⟩ := hx
      obtain rfl := Option.some.inj hx
      obtain ⟨m, hm, hu⟩ := he
      have hu' : ∀ n, m.use ≠ .request n := fun n => by
        rcases hu with hu | hu | ⟨res, hu⟩ <;> simp [hu]
      exact .inl (h.put_keeps hm hu' hc).enabled
  | request n a =>
      obtain ⟨m, hm, has, ⟨-, rfl⟩ | ⟨-, m', -, rfl⟩⟩ := State.request_cases hx
      · exact .inl rfl
      · exact .inl (by rw [lock_chan]; rfl)
  | response n a =>
      obtain ⟨m, hm, has, ⟨hd, l, c, -, hc, rfl⟩ | ⟨-, m', -, rfl⟩⟩ := State.response_cases hx
      · obtain ⟨-, m₀, hm₀, hu, -⟩ := he
        obtain rfl : m = m₀ := by rw [hm] at hm₀; exact Option.some.inj hm₀
        exact .inl (h.put_keeps hm (by simp [hu]) hc).enabled
      · exact .inl (by rw [lock_chan]; rfl)
  | resume n =>
      obtain ⟨k, a, m, -, -, -, rfl⟩ := State.resume_cases hx
      exact .inl rfl
  | write n r =>
      obtain ⟨k, a, part, rest, hpc, ⟨-, rfl⟩ | ⟨res, -, rfl⟩ |
        ⟨j, m, -, -, ⟨part', rest', -, rfl⟩ | ⟨-, hx⟩⟩⟩ := State.write_cases hx
      · exact .inl rfl
      · exact .inr rfl
      · exact .inl rfl
      · obtain ⟨l, -, ⟨-, m', -, rfl⟩ | ⟨rfl, c, hc, rfl⟩⟩ := State.complete_cases hx
        · exact .inl rfl
        · exact .inl (h.response_keeps (by rw [hpc]; rfl) hc).enabled
  | unlock n =>
      obtain ⟨k, a, res, l, hpc, -, ⟨-, m, -, rfl⟩ | ⟨rfl, c, hc, rfl⟩⟩ := State.unlock_cases hx
      · exact .inl rfl
      · exact .inl (h.response_keeps (by rw [hpc]; rfl) hc).enabled
  | wake n =>
      obtain ⟨a, m, -, -, -, rfl⟩ := State.wake_cases hx
      exact .inl rfl
  | close => obtain rfl := Option.some.inj hx; exact .inr rfl
  | deinit n => obtain ⟨st, p, -, rfl⟩ := deinit_cases hx he; exact .inl rfl
  | drained n => rw [drained_cases hx]; exact .inl rfl
  | arrive bs => obtain rfl := Option.some.inj hx; exact .inl rfl
  | _ => exact (received h hen he hx trivial).enabled.imp_right (·.1)

/-- **Every run keeps `Base`**, with the table for as long as the channel is
enabled. -/
theorem base_reachable (hr : (channelSystem cfg).Reachable σ) :
    Base cfg (σ.chan.enabled = true) σ := by
  induction hr with
  | init hs =>
      obtain ⟨bufs, hnd, -, rfl⟩ := hs
      exact base_initial hnd
  | @step σ σ' act _ he hx ih =>
      refine (ih.step id (fun hok n a res m hact hpc => ?_) he.2 hx).weaken
        (fun hen => ?_)
      · rw [ih.failed n _ a res hpc] at hok
        cases hok
      · rcases enabled_cases ih id he.2 hx with e | e
        · rwa [e] at hen
        · rw [e] at hen; cases hen

/-! ## Who moves -/

/-- The task whose step it is. -/
def Action.task : Action → Option TaskId
  | .request n _ => some n
  | .response n _ => some n
  | .resume n => some n
  | .write n _ => some n
  | .unlock n => some n
  | .wake n => some n
  | .deinit n => some n
  | .drained n => some n
  | _ => none

/-- The step in which a request is completely written, and its task calls
`TASKSLEEP`. -/
def Sleeps (σ : State) (act : Action) : Prop := ∃ n j a part rest m, act = .write n (.sent j) ∧
  σ.pc n = .send .request a part rest ∧ σ.chan.msgs a = some m ∧
    State.left m part (rest.drop j) = none

/-- **Steps that are not the receiver's** leave the receiver where it is, and
move no task or one that was not asleep; only a failing write leads to the
error path. -/
theorem moves (he : act.Allowed cfg σ) (hx : act.exec cfg σ = some σ') (hact : ¬ act.Receiving) :
    σ'.recv = σ.recv ∧ ((σ'.pc = σ.pc ∧ ¬ Sleeps σ act) ∨
      ∃ n p, act.task = some n ∧ σ'.pc = Function.update σ.pc n p ∧ (∀ a, σ.pc n ≠ .asleep a) ∧
        ((∃ a, p = .asleep a) ↔ Sleeps σ act) ∧
        ∀ k a res, p = .unlock k a res → ∃ r part rest, act = .write n r ∧
          (r = .zero ∨ ∃ e, r = .error e) ∧ σ.pc n = .send k a part rest ∧ σ' = σ.fail n a k res) := by
  have hnot : (∀ n r, act ≠ .write n r) → ¬ Sleeps σ act :=
    fun h ⟨n, j, _, _, _, _, e, _⟩ => h n _ e
  have hstay : ∀ {p : Pc}, (∀ a, p ≠ .asleep a) → (∀ n r, act ≠ .write n r) →
      ((∃ a, p = .asleep a) ↔ Sleeps σ act) :=
    fun hp h => iff_of_false (fun ⟨a, e⟩ => hp a e) (hnot h)
  cases act with
  | msgGet alloc msgtype msglen payloadlen payload =>
      simp only [Action.exec, Option.bind_eq_bind, Option.bind_eq_some_iff] at hx
      obtain ⟨_, _, hx⟩ := hx
      obtain rfl := Option.some.inj hx
      exact ⟨rfl, .inl ⟨rfl, hnot (by simp)⟩⟩
  | edit a msglen payloadlen status body payload =>
      simp only [Action.exec, Option.bind_eq_bind, Option.bind_eq_some_iff] at hx
      obtain ⟨_, _, hx⟩ := hx
      obtain rfl := Option.some.inj hx
      exact ⟨rfl, .inl ⟨rfl, hnot (by simp)⟩⟩
  | msgPut a =>
      simp only [Action.exec, Option.bind_eq_bind, Option.bind_eq_some_iff] at hx
      obtain ⟨_, _, hx⟩ := hx
      obtain rfl := Option.some.inj hx
      exact ⟨rfl, .inl ⟨rfl, hnot (by simp)⟩⟩
  | request n a =>
      have hn : ∀ a, σ.pc n ≠ .asleep a := by simp [he.1]
      obtain ⟨m, -, -, ⟨-, rfl⟩ | ⟨-, m', -, rfl⟩⟩ := State.request_cases hx
      · exact ⟨rfl, .inl ⟨rfl, hnot (by simp)⟩⟩
      · rcases State.lock_cases _ n a .request m' with ⟨-, e⟩ | ⟨-, e⟩ <;> rw [e]
        · exact ⟨rfl, .inr ⟨n, _, rfl, rfl, hn, hstay (by simp) (by simp), by simp⟩⟩
        · exact ⟨rfl, .inr ⟨n, _, rfl, rfl, hn, hstay (by simp) (by simp), by simp⟩⟩
  | response n a =>
      have hn : ∀ a, σ.pc n ≠ .asleep a := by simp [he.1]
      obtain ⟨m, -, -, ⟨-, l, c, -, -, rfl⟩ | ⟨-, m', -, rfl⟩⟩ := State.response_cases hx
      · exact ⟨rfl, .inl ⟨rfl, hnot (by simp)⟩⟩
      · rcases State.lock_cases _ n a .response m' with ⟨-, e⟩ | ⟨-, e⟩ <;> rw [e]
        · exact ⟨rfl, .inr ⟨n, _, rfl, rfl, hn, hstay (by simp) (by simp), by simp⟩⟩
        · exact ⟨rfl, .inr ⟨n, _, rfl, rfl, hn, hstay (by simp) (by simp), by simp⟩⟩
  | resume n =>
      obtain ⟨k, a, m, hpc, -, -, rfl⟩ := State.resume_cases hx
      exact ⟨rfl, .inr ⟨n, _, rfl, rfl, by simp [hpc], hstay (by simp) (by simp), by simp⟩⟩
  | write n r =>
      obtain ⟨k, a, part, rest, hpc, hcases⟩ := State.write_cases hx
      have hn : ∀ a, σ.pc n ≠ .asleep a := by simp [hpc]
      -- what `Sleeps` says of this write
      have hsleeps : Sleeps σ (.write n r) ↔ ∃ j m, r = .sent j ∧ k = .request ∧
          σ.chan.msgs a = some m ∧ State.left m part (rest.drop j) = none := by
        constructor
        · rintro ⟨n', j, a', part', rest', m, e, hpc', hm, hleft⟩
          obtain ⟨rfl, rfl⟩ := Action.write.inj e
          rw [hpc] at hpc'
          obtain ⟨rfl, rfl, rfl, rfl⟩ := Pc.send.inj hpc'
          exact ⟨j, m, rfl, rfl, hm, hleft⟩
        · rintro ⟨j, m, rfl, rfl, hm, hleft⟩
          exact ⟨n, j, a, part, rest, m, rfl, hpc, hm, hleft⟩
      rcases hcases with ⟨rfl, rfl⟩ | ⟨res, hres, rfl⟩ |
        ⟨j, m, rfl, hm, ⟨part', rest', hleft, rfl⟩ | ⟨hleft, hx⟩⟩
      · refine ⟨rfl, .inl ⟨rfl, fun h => ?_⟩⟩
        obtain ⟨j, m, e, -⟩ := hsleeps.1 h
        cases e
      · refine ⟨rfl, .inr ⟨n, _, rfl, rfl, hn, iff_of_false (by simp) fun h => ?_, fun k' a' res' e => ?_⟩⟩
        · obtain ⟨j, m, e, -⟩ := hsleeps.1 h
          rcases hres with ⟨rfl, -⟩ | rfl <;> cases e
        · obtain ⟨rfl, rfl, rfl⟩ := Pc.unlock.inj e
          exact ⟨r, part, rest, rfl, hres.imp (·.1) fun e => ⟨res, e⟩, hpc, rfl⟩
      · refine ⟨rfl, .inr ⟨n, _, rfl, rfl, hn, iff_of_false (by simp) fun h => ?_, by simp⟩⟩
        obtain ⟨j', m', e, -, hm', hleft'⟩ := hsleeps.1 h
        obtain rfl := WriteResult.sent.inj e
        obtain rfl : m = m' := by rw [hm] at hm'; exact Option.some.inj hm'
        rw [hleft] at hleft'; cases hleft'
      · obtain ⟨l, -, ⟨rfl, m', -, rfl⟩ | ⟨rfl, c, -, rfl⟩⟩ := State.complete_cases hx
        · exact ⟨rfl, .inr ⟨n, _, rfl, rfl, hn,
            iff_of_true ⟨a, rfl⟩ (hsleeps.2 ⟨j, m, rfl, rfl, hm, hleft⟩), by simp⟩⟩
        · refine ⟨rfl, .inr ⟨n, _, rfl, rfl, hn, iff_of_false (by simp) fun h => ?_, by simp⟩⟩
          obtain ⟨j', m', -, e, -⟩ := hsleeps.1 h
          cases e
  | unlock n =>
      obtain ⟨k, a, res, l, hpc, -, ⟨-, m, -, rfl⟩ | ⟨-, c, -, rfl⟩⟩ := State.unlock_cases hx <;>
        exact ⟨rfl, .inr ⟨n, _, rfl, rfl, by simp [hpc], hstay (by simp) (by simp), by simp⟩⟩
  | wake n =>
      obtain ⟨a, m, hpc, -, -, rfl⟩ := State.wake_cases hx
      exact ⟨rfl, .inr ⟨n, _, rfl, rfl, by simp [hpc], hstay (by simp) (by simp), by simp⟩⟩
  | close => obtain rfl := Option.some.inj hx; exact ⟨rfl, .inl ⟨rfl, hnot (by simp)⟩⟩
  | deinit n =>
      obtain ⟨st, p, hp, rfl⟩ := deinit_cases hx he
      have hn : σ.pc n = .idle := he
      exact ⟨rfl, .inr ⟨n, p, rfl, rfl, by simp [hn],
        hstay (by rcases hp with rfl | rfl <;> simp) (by simp),
        by rcases hp with rfl | rfl <;> simp⟩⟩
  | drained n =>
      rw [drained_cases hx]
      exact ⟨rfl, .inr ⟨n, _, rfl, rfl, by simp [he.1], hstay (by simp) (by simp), by simp⟩⟩
  | arrive bs => obtain rfl := Option.some.inj hx; exact ⟨rfl, .inl ⟨rfl, hnot (by simp)⟩⟩
  | _ => exact absurd trivial hact

/-- Such a step wakes nobody. -/
theorem asleep_of_moves (he : act.Allowed cfg σ) (hx : act.exec cfg σ = some σ')
    (hact : ¬ act.Receiving) (hn : σ.pc n = .asleep a) : σ'.pc n = .asleep a := by
  rcases (moves he hx hact).2 with ⟨e, -⟩ | ⟨t, p, -, e, ht, -⟩
  · rw [e, hn]
  · have hnt : n ≠ t := fun h => ht a (h ▸ hn)
    rw [e, Function.update_of_ne hnt, hn]

/-- The error path: a task stays on it without a step of its own, and gets
there by a failing write. -/
theorem error_path {res : ℕ} (h : Base cfg ok σ) (hen : σ.chan.enabled = true → ok)
    (he : act.Allowed cfg σ) (hx : act.exec cfg σ = some σ') (hn : σ'.pc n = .unlock k a res) :
    (σ.pc n = .unlock k a res ∧ act.task ≠ some n) ∨ ∃ r part rest, act = .write n r ∧
      (r = .zero ∨ ∃ e, r = .error e) ∧ σ.pc n = .send k a part rest ∧ σ' = σ.fail n a k res := by
  by_cases hact : act.Receiving
  · have htask : act.task ≠ some n := by cases act <;> simp [Action.Receiving, Action.task] at hact ⊢
    rcases (received h hen he hx hact).pc n with e | ⟨b, -, e⟩
    · exact .inl ⟨e ▸ hn, htask⟩
    · rw [e] at hn; cases hn
  · rcases (moves he hx hact).2 with ⟨e, -⟩ | ⟨t, p, ht, e, -, -, hp⟩
    · refine .inl ⟨e ▸ hn, fun htask => ?_⟩
      have hpc : σ.pc n = .unlock k a res := e ▸ hn
      -- on the error path a task can only unlock, and then leaves it
      cases act with
      | unlock t =>
          obtain rfl : t = n := by simpa [Action.task] using htask
          obtain ⟨_, _, _, _, _, _, ⟨_, _, _, rfl⟩ | ⟨_, _, _, rfl⟩⟩ := State.unlock_cases hx <;>
            simp at hn
      | _ => cases htask <;> simp [Action.Allowed, hpc] at he
    · by_cases hnt : n = t
      · subst hnt
        rw [e, Function.update_self] at hn
        exact .inr (hp k a res hn)
      · rw [e, Function.update_of_ne hnt] at hn
        exact .inl ⟨hn, by rw [ht]; simpa using Ne.symm hnt⟩

/-- Who is asleep after it: who was, and the task that goes to sleep. -/
theorem asleep_iff (he : act.Allowed cfg σ) (hx : act.exec cfg σ = some σ')
    (hact : ¬ act.Receiving) :
    (∃ n a, σ'.pc n = .asleep a) ↔ (∃ n a, σ.pc n = .asleep a) ∨ Sleeps σ act := by
  constructor
  · rintro ⟨n, a, hn⟩
    rcases (moves he hx hact).2 with ⟨e, -⟩ | ⟨t, p, -, e, -, hp, -⟩
    · exact .inl ⟨n, a, by rw [← e, hn]⟩
    · by_cases hnt : n = t
      · subst hnt
        rw [e, Function.update_self] at hn
        exact .inr (hp.1 ⟨a, hn⟩)
      · rw [e, Function.update_of_ne hnt] at hn
        exact .inl ⟨n, a, hn⟩
  · rintro (⟨n, a, hn⟩ | hs)
    · exact ⟨n, a, asleep_of_moves he hx hact hn⟩
    · rcases (moves he hx hact).2 with ⟨-, hns⟩ | ⟨t, p, -, e, -, hp, -⟩
      · exact absurd hs hns
      · obtain ⟨a, rfl⟩ := hp.2 hs
        exact ⟨t, a, by rw [e, Function.update_self]⟩

/-! ## What others leave of a request -/

/-- A put of another message. -/
theorem Base.put_msgs (h : Base cfg ok σ) (hm : σ.chan.msgs a = some m) (hu : ∀ n, m.use ≠ .request n)
    (hput : Channel.msgPut cfg { σ.chan with fdlock := l } a = some c) {q : Msg}
    (hb : σ.chan.msgs b = some q) (hba : b ≠ a) (hq : q.use ≠ .attached a) :
    c.msgs b = some q := by
  obtain ⟨lists, pending, hS⟩ := h.sound
  have hS' : Sound cfg ok { σ.chan with fdlock := l } lists pending := hS.congr rfl rfl rfl rfl rfl
  rw [(msgPut_spec hS' hm (fun _ => not_pending hu) (h.uses.resp_ne hm) hput).2.1 b, if_neg, hb]
  rintro (e | e)
  · exact hba e
  · obtain ⟨r, hr, hru, -⟩ := h.uses.resp a m b hm e
    rw [hb] at hr
    exact hq (Option.some.inj hr ▸ hru)

/-- **A message in a call** is changed by the call's own task, and by the
receiver, when it attaches a response. -/
theorem message_kept (h : Base cfg ok σ) (hen : σ.chan.enabled = true → ok)
    (he : act.Allowed cfg σ) (hx : act.exec cfg σ = some σ') (hm : σ.chan.msgs a = some m)
    (hu : m.use = k.use n) (hact : act.task ≠ some n) :
    σ'.chan.msgs a = some m ∨ (act.Receiving ∧ m.resp = none ∧
      ∃ b, σ'.chan.msgs a = some { m with resp := some b, rendez := [] }) := by
  have hne : ∀ {y : Addr} {q : Msg}, σ.chan.msgs y = some q → q.use ≠ k.use n → a ≠ y := by
    rintro y q hq hqu rfl
    rw [hm] at hq
    exact hqu (Option.some.inj hq ▸ hu)
  have hcall : ∀ {t : TaskId} {k : Kind} {y : Addr}, (σ.pc t).call = some (k, y) → t ≠ n → a ≠ y := by
    intro t k y ht htn
    obtain ⟨q, hq, hqu⟩ := h.uses.call t k y ht
    exact hne hq fun e => htn (Kind.use_inj (hqu.symm.trans e)).2
  have hown : ∀ {y : Addr} {c : Channel} {l : QLock} {q : Msg}, σ.chan.msgs y = some q → a ≠ y →
      (∀ t, q.use ≠ .request t) → Channel.msgPut cfg { σ.chan with fdlock := l } y = some c →
      c.msgs a = some m :=
    fun hq hay hqu hput => h.put_msgs hq hqu hput hm hay (by cases k <;> simp [hu, Kind.use])
  -- messages that are in no call
  have hfree : ∀ {y : Addr} {q : Msg}, σ.chan.msgs y = some q →
      (q.use = .fresh ∨ q.use = .handed ∨ ∃ res, q.use = .returned res) →
      a ≠ y ∧ ∀ t, q.use ≠ .request t := fun hq hqu => by
    constructor
    · refine hne hq ?_
      rcases hqu with hqu | hqu | ⟨res, hqu⟩ <;> cases k <;> simp [hqu, Kind.use]
    · rcases hqu with hqu | hqu | ⟨res, hqu⟩ <;> simp [hqu]
  cases act with
  | msgGet alloc msgtype msglen payloadlen payload =>
      obtain ⟨lists, pending, hS⟩ := h.sound
      simp only [Action.exec, Option.bind_eq_bind, Option.bind_eq_some_iff] at hx
      obtain ⟨⟨c, b⟩, hget, hx⟩ := hx
      obtain rfl := Option.some.inj hx
      obtain ⟨-, hb, q, hq, -⟩ := msgGet_spec hS he.1 hget
      have hab : a ≠ b := by rintro rfl; rw [hm] at hb; cases hb
      exact .inl (by simp only [hq, Function.update_of_ne hab, hm])
  | edit y msglen payloadlen status body payload =>
      simp only [Action.exec, Option.bind_eq_bind, Option.bind_eq_some_iff] at hx
      obtain ⟨q, hq, hx⟩ := hx
      obtain rfl := Option.some.inj hx
      obtain ⟨q', hq', hqu⟩ := he
      obtain rfl : q = q' := by rw [hq] at hq'; exact Option.some.inj hq'
      have hay := (hfree hq (hqu.imp_right .inl)).1
      exact .inl (by rw [setMsg_msgs, Function.update_of_ne hay, hm])
  | msgPut y =>
      simp only [Action.exec, Option.bind_eq_bind, Option.bind_eq_some_iff] at hx
      obtain ⟨c, hput, hx⟩ := hx
      obtain rfl := Option.some.inj hx
      obtain ⟨q, hq, hqu⟩ := he
      obtain ⟨hay, hnr⟩ := hfree hq hqu
      exact .inl (hown hq hay hnr hput)
  | request t y =>
      obtain ⟨-, q', hq', hqu, -⟩ := he
      obtain ⟨q, hq, -, ⟨-, rfl⟩ | ⟨-, p, -, rfl⟩⟩ := State.request_cases hx
      all_goals
        obtain rfl : q = q' := by rw [hq] at hq'; exact Option.some.inj hq'
        have hay := (hfree hq (.inl hqu)).1
      · exact .inl (by rw [setMsg_msgs, Function.update_of_ne hay, hm])
      · rw [lock_chan]
        exact .inl (by simp only [Channel.hashAdd, setMsg_msgs, Function.update_of_ne hay, hm])
  | response t y =>
      obtain ⟨-, q', hq', hqu, -⟩ := he
      obtain ⟨q, hq, -, ⟨-, l, c, -, hput, rfl⟩ | ⟨-, p, -, rfl⟩⟩ := State.response_cases hx
      all_goals
        obtain rfl : q = q' := by rw [hq] at hq'; exact Option.some.inj hq'
        have hay := (hfree hq (.inr (.inl hqu))).1
      · exact .inl (hown hq hay (by simp [hqu]) hput)
      · rw [lock_chan]
        exact .inl (by simp only [setMsg_msgs, Function.update_of_ne hay, hm])
  | resume t =>
      obtain ⟨k, y, q, -, -, -, rfl⟩ := State.resume_cases hx
      exact .inl hm
  | write t r =>
      have htn : t ≠ n := fun e => hact (by rw [e]; rfl)
      obtain ⟨k, y, part, rest, hpc, ⟨-, rfl⟩ | ⟨res, -, rfl⟩ |
        ⟨j, q, -, -, ⟨part', rest', -, rfl⟩ | ⟨-, hx⟩⟩⟩ := State.write_cases hx
      · exact .inl hm
      · exact .inl hm
      · exact .inl hm
      · have hay : a ≠ y := hcall (k := k) (by rw [hpc]; rfl) htn
        obtain ⟨l, -, ⟨-, p, -, rfl⟩ | ⟨rfl, c, hput, rfl⟩⟩ := State.complete_cases hx
        · exact .inl (by simp only [setMsg_msgs, Function.update_of_ne hay, hm])
        · obtain ⟨q', hq', hqu'⟩ := h.uses.call t .response y (by rw [hpc]; rfl)
          exact .inl (hown hq' hay (by simp [hqu', Kind.use]) hput)
  | unlock t =>
      have htn : t ≠ n := fun e => hact (by rw [e]; rfl)
      obtain ⟨k, y, res, l, hpc, -, ⟨-, p, -, rfl⟩ | ⟨rfl, c, hput, rfl⟩⟩ := State.unlock_cases hx
      · have hay : a ≠ y := hcall (k := k) (by rw [hpc]; rfl) htn
        exact .inl (by simp only [setMsg_msgs, Function.update_of_ne hay, hm])
      · obtain ⟨q', hq', hqu'⟩ := h.uses.call t .response y (by rw [hpc]; rfl)
        have hay : a ≠ y := hcall (k := .response) (by rw [hpc]; rfl) htn
        exact .inl (hown hq' hay (by simp [hqu', Kind.use]) hput)
  | wake t =>
      have htn : t ≠ n := fun e => hact (by rw [e]; rfl)
      obtain ⟨y, p, hpc, -, -, rfl⟩ := State.wake_cases hx
      have hay : a ≠ y := hcall (k := .request) (by rw [hpc]; rfl) htn
      exact .inl (by simp only [setMsg_msgs, Function.update_of_ne hay, hm])
  | close => obtain rfl := Option.some.inj hx; exact .inl hm
  | deinit t => obtain ⟨st, p, -, rfl⟩ := deinit_cases hx he; exact .inl hm
  | drained t => rw [drained_cases hx]; exact .inl hm
  | arrive bs => obtain rfl := Option.some.inj hx; exact .inl hm
  | _ =>
      obtain ⟨σ₁, y, q, r, hp, hx⟩ := receiving_cases h he hx trivial
      have hm₁ := hp.msgs a m hm
      obtain ⟨z, hz, hzu⟩ := hp.base.uses.buffer y q hp.recv
      have hay : a ≠ y := by
        rintro rfl
        rw [hm₁] at hz
        rw [← Option.some.inj hz, hu] at hzu
        cases k <;> cases hzu
      rcases State.settle_cases hx with ⟨-, rfl⟩ | ⟨-, hx⟩
      · exact .inl hm₁
      · obtain ⟨lists, pending, hS⟩ := hp.base.sound
        obtain ⟨x, hxu, -, -, hx, hdone⟩ := State.deliver_cases hx
        rcases State.dispatch_cases hx with ⟨-, rfl⟩ | ⟨-, -, rfl⟩ | ⟨hc, -, hx⟩
        · exact .inl (by simp only [State.leave, setMsg_msgs, Function.update_of_ne hay, hm₁])
        · exact .inl (by simp only [setMsg_msgs, Function.update_of_ne hay, hm₁])
        · have hen₁ : σ₁.chan.enabled = true := by
            rcases hdone with ⟨⟨d, hd⟩, -⟩ | ⟨-, hcc⟩
            · exact hp.done d hd
            · rw [hc] at hcc; cases hcc
          rcases State.rpcResponse_spec hp.base.uses hS (hen (hp.keeps.enabled ▸ hen₁)) hp.recv hxu with
            ⟨e, p, t, c', hep, -, hpr, -, hx', hmsgs, -⟩ | ⟨hx', -⟩
          · rw [hx] at hx'
            obtain rfl := Option.some.inj hx'
            simp only [hmsgs]
            by_cases hae : a = e
            · subst hae
              obtain rfl : m = p := by rw [hm₁] at hep; exact Option.some.inj hep
              exact .inr ⟨trivial, hpr, y, by rw [if_pos rfl]⟩
            · exact .inl (by rw [if_neg hae, if_neg hay, hm₁])
          · rw [hx] at hx'; cases hx'

/-- **A request in progress** is changed by its own task, and by the
receiver, when it attaches the response. -/
theorem request_kept (h : Base cfg ok σ) (hen : σ.chan.enabled = true → ok)
    (he : act.Allowed cfg σ) (hx : act.exec cfg σ = some σ') (hm : σ.chan.msgs a = some m)
    (hu : m.use = .request n) (hact : act.task ≠ some n) :
    σ'.chan.msgs a = some m ∨ (act.Receiving ∧ m.resp = none ∧
      ∃ b, σ'.chan.msgs a = some { m with resp := some b, rendez := [] }) :=
  message_kept (k := .request) h hen he hx hm hu hact

end Rpc

end VmwareProto
