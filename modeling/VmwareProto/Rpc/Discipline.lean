import VmwareProto.Rpc.Frames
/-!
# Who unlocks `fdlock`

Every `RPC_CHAN_UNLOCK` but one stands behind the `RPC_CHAN_LOCK` of the
same call. The one is in `rpc_response`, which on a disabled channel jumps
over the lock to the unlock. As long as that branch is not taken the lock
serves its tasks, and the owner unlocks; when it is, the lock is free, and
the process aborts, or somebody else's.
-/

namespace VmwareProto

namespace Rpc

open Libtask

variable {cfg : Cfg} {ok : Prop} {σ σ' : State} {a : Addr} {m : Msg} {n t : TaskId} {k : Kind}
  {act : Action}

/-- The steps that execute `RPC_CHAN_UNLOCK`, and the task that does. -/
inductive Unlocks (σ : State) : Action → TaskId → Prop
  /-- the last write of a message -/
  | written {n : TaskId} {j : ℕ} {k : Kind} {a : Addr} {part : Part} {rest : List Byte} {m : Msg} :
      σ.pc n = .send k a part rest → σ.chan.msgs a = some m →
      State.left m part (rest.drop j) = none → Unlocks σ (.write n (.sent j)) n
  /-- the error path, after the close -/
  | failed {n : TaskId} {k : Kind} {a : Addr} {res : ℕ} : σ.pc n = .unlock k a res → Unlocks σ (.unlock n) n
  /-- `rpc_response` on a disabled channel -/
  | disabled {n : TaskId} {a : Addr} : σ.chan.enabled = false → Unlocks σ (.response n a) n

/-- The lock serves the tasks of the channel. -/
def State.Serves (σ : State) : Prop := σ.chan.fdlock.Serves fun n => (σ.pc n).phase

theorem phase_update (pc : TaskId → Pc) (n : TaskId) (p : Pc) :
    (fun t => (Function.update pc n p t).phase) =
      Function.update (fun t => (pc t).phase) n p.phase := by
  funext t
  by_cases ht : t = n
  · subst ht; simp
  · simp [ht]

/-- Steps that stay on their side of the lock. -/
theorem State.Serves.congr (h : σ.Serves) (hl : σ'.chan.fdlock = σ.chan.fdlock)
    (hp : ∀ t, (σ'.pc t).phase = (σ.pc t).phase) : σ'.Serves := by
  rw [State.Serves, hl, funext hp]
  exact h

/-- A task moves and stays on its side of the lock. -/
theorem State.Serves.move {p : Pc} (h : σ.Serves) (hl : σ'.chan.fdlock = σ.chan.fdlock)
    (hp : σ'.pc = Function.update σ.pc n p) (hph : p.phase = (σ.pc n).phase) : σ'.Serves := by
  refine h.congr hl fun t => ?_
  by_cases ht : t = n
  · subst ht; rw [hp, Function.update_self, hph]
  · rw [hp, Function.update_of_ne ht]

theorem State.Serves.lock (h : σ.Serves) (hn : σ.pc n = .idle) : (σ.lock n a k m).Serves := by
  have hout : (σ.pc n).phase = .out := by rw [hn]; rfl
  rcases State.lock_cases σ n a k m with ⟨ho, e⟩ | ⟨⟨o, ho⟩, e⟩
  · rw [e, State.Serves]
    simp only [phase_update]
    exact QLock.Serves.qlock_free h ho
  · rw [e, State.Serves]
    simp only [phase_update]
    exact QLock.Serves.qlock_busy h hout ho

/-- The owner unlocks and leaves. -/
theorem State.Serves.unlock {l : QLock} {p : Pc} (h : σ.Serves) (hn : (σ.pc n).phase = .holding)
    (hl : σ.chan.fdlock.qunlock = some l) (hl' : σ'.chan.fdlock = l)
    (hp : σ'.pc = Function.update σ.pc n p) (hph : p.phase = .out) : σ'.Serves := by
  rw [State.Serves, hl', hp, phase_update, hph]
  exact QLock.Serves.qunlock h hn hl

/-- **Every step but the stray unlock keeps the lock serving.** -/
theorem State.Serves.step (h : σ.Serves) (hB : Base cfg ok σ) (hen : σ.chan.enabled = true → ok)
    (hgood : ∀ n a, act = .response n a → σ.chan.enabled = true)
    (he : act.Allowed cfg σ) (hx : act.exec cfg σ = some σ') : σ'.Serves := by
  obtain ⟨lists, pending, hS⟩ := hB.sound
  cases act with
  | msgGet alloc msgtype msglen payloadlen payload =>
      simp only [Action.exec, Option.bind_eq_bind, Option.bind_eq_some_iff] at hx
      obtain ⟨⟨c, b⟩, hget, hx⟩ := hx
      obtain rfl := Option.some.inj hx
      obtain ⟨-, -, m, -, -, -, -, -, -, -, -, hl⟩ := msgGet_spec hS he.1 hget
      exact h.congr hl fun _ => rfl
  | edit a msglen payloadlen status body payload =>
      simp only [Action.exec, Option.bind_eq_bind, Option.bind_eq_some_iff] at hx
      obtain ⟨m, -, hx⟩ := hx
      obtain rfl := Option.some.inj hx
      exact h.congr rfl fun _ => rfl
  | msgPut a =>
      simp only [Action.exec, Option.bind_eq_bind, Option.bind_eq_some_iff] at hx
      obtain ⟨c, hput, hx⟩ := hx
      obtain rfl := Option.some.inj hx
      obtain ⟨m, hm, hu⟩ := he
      have hu' : ∀ n, m.use ≠ .request n := fun n => by
        rcases hu with hu | hu | ⟨res, hu⟩ <;> simp [hu]
      exact h.congr (hB.put_keeps hm hu' hput).fdlock fun _ => rfl
  | request n a =>
      obtain ⟨m, -, -, ⟨-, rfl⟩ | ⟨-, m', -, rfl⟩⟩ := State.request_cases hx
      · exact h.congr rfl fun _ => rfl
      · exact State.Serves.lock (h.congr rfl fun _ => rfl) he.1
  | response n a =>
      obtain ⟨m, -, -, ⟨hd, -⟩ | ⟨-, m', -, rfl⟩⟩ := State.response_cases hx
      · rw [hgood n a rfl] at hd; cases hd
      · exact State.Serves.lock (h.congr rfl fun _ => rfl) he.1
  | resume n =>
      obtain ⟨k, a, m, -, -, ho, rfl⟩ := State.resume_cases hx
      rw [State.Serves]
      simp only [phase_update]
      exact QLock.Serves.resume h ho
  | write n r =>
      obtain ⟨k, a, part, rest, hpc, ⟨-, rfl⟩ | ⟨res, -, rfl⟩ |
        ⟨j, m, -, -, ⟨part', rest', -, rfl⟩ | ⟨-, hx⟩⟩⟩ := State.write_cases hx
      · exact h
      · exact h.move (n := n) (p := .unlock k a res) rfl rfl (by rw [hpc]; rfl)
      · exact h.move (n := n) (p := .send k a part' rest') rfl rfl (by rw [hpc]; rfl)
      · have hph : (σ.pc n).phase = .holding := by rw [hpc]; rfl
        obtain ⟨l, hl, ⟨-, m', -, rfl⟩ | ⟨rfl, c, hput, rfl⟩⟩ := State.complete_cases hx
        · exact h.unlock (p := .asleep a) hph hl rfl rfl rfl
        · have hk := hB.response_keeps (n := n) (by rw [hpc]; rfl) hput
          exact h.unlock (p := .idle) hph hl hk.fdlock rfl rfl
  | unlock n =>
      obtain ⟨k, a, res, l, hpc, hl, ⟨-, m, -, rfl⟩ | ⟨rfl, c, hput, rfl⟩⟩ := State.unlock_cases hx
      · exact h.unlock (p := .idle) (by rw [hpc]; rfl) hl rfl rfl rfl
      · have hk := hB.response_keeps (n := n) (by rw [hpc]; rfl) hput
        exact h.unlock (p := .idle) (by rw [hpc]; rfl) hl hk.fdlock rfl rfl
  | wake n =>
      obtain ⟨a, m, hpc, -, -, rfl⟩ := State.wake_cases hx
      exact h.move (n := n) (p := .idle) rfl rfl (by rw [hpc]; rfl)
  | close => obtain rfl := Option.some.inj hx; exact h.congr rfl fun _ => rfl
  | deinit n =>
      obtain ⟨st, p, hp, rfl⟩ := deinit_cases hx he
      have hn : σ.pc n = .idle := he
      exact h.move (n := n) (p := p) rfl rfl (by rw [hn]; rcases hp with rfl | rfl <;> rfl)
  | drained n =>
      rw [drained_cases hx]
      exact h.move (n := n) (p := .idle) rfl rfl (by rw [he.1]; rfl)
  | arrive bs => obtain rfl := Option.some.inj hx; exact h.congr rfl fun _ => rfl
  | _ =>
      have hr := received hB hen he hx trivial
      refine h.congr hr.fdlock fun t => ?_
      rcases hr.pc t with e | ⟨a, e, e'⟩
      · rw [e]
      · rw [e, e']; rfl

theorem serves_initial (bufs : List Addr) : (State.initial bufs).Serves :=
  ⟨fun _ => rfl, List.nodup_nil, by simp [State.initial, Channel.initial],
    by simp [State.initial, Channel.initial], by simp [State.initial, Pc.phase],
    by simp [State.initial, Pc.phase]⟩

/-- No `rpc_response` starts on a disabled channel. -/
def OnTime (σ : State) (act : Action) : Prop := ∀ n a, act = .response n a → σ.chan.enabled = true

theorem serves_reachable (hr : ((channelSystem cfg).only OnTime).Reachable σ) : σ.Serves := by
  induction hr with
  | init hs =>
      obtain ⟨bufs, -, -, rfl⟩ := hs
      exact serves_initial bufs
  | step hr he hx ih => exact ih.step (base_reachable hr.of_only) id he.2 he.1.2 hx

/-- While a channel is enabled, no response has come late. -/
theorem onTime_of_enabled (hr : (channelSystem cfg).Reachable σ) (hen : σ.chan.enabled = true) :
    ((channelSystem cfg).only OnTime).Reachable σ := by
  induction hr with
  | init hs => exact .init hs
  | @step σ σ' act hr he hx ih =>
      have hen' : σ.chan.enabled = true := by
        rcases enabled_cases (base_reachable hr) (fun h => h) he.2 hx with h | h
        · rwa [← h]
        · rw [hen] at h
          cases h
      exact (ih hen').step ⟨he, fun _ _ _ => hen'⟩ hx

/-- **Unlocked by the owner, exactly when no response comes late.** In every
run in which no `rpc_response` starts on a disabled channel, the next
`RPC_CHAN_UNLOCK` is executed by the owner of `fdlock`, unless it is that
of such a call. -/
theorem unlocked_by_owner_iff (hr : ((channelSystem cfg).only OnTime).Reachable σ)
    (he : (channelSystem cfg).enabled σ act) (hu : Unlocks σ act n) :
    σ.chan.fdlock.owner = some n ↔ OnTime σ act := by
  have hS := serves_reachable hr
  cases hu with
  | written hpc hm hleft =>
      refine iff_of_true (hS.holds n ?_) fun _ _ e => by cases e
      rw [hpc]; rfl
  | failed hpc =>
      refine iff_of_true (hS.holds n ?_) fun _ _ e => by cases e
      rw [hpc]; rfl
  | disabled hd =>
      obtain ⟨-, hn, -⟩ := he
      refine iff_of_false (fun ho => hS.owner n ho ?_) fun h => ?_
      · rw [hn]; rfl
      · rw [h _ _ rfl] at hd; cases hd

/-- One request, on its way: the first write has not happened. -/
def oneRequest : List Action := [.msgGet 9 3 12 0 none, .request 0 0]

theorem unlocked_by_owner_last_write : ∃ σ, ((channelSystem smallCfg).only OnTime).Reachable σ ∧
    (channelSystem smallCfg).enabled σ (.write 0 (.sent 12)) ∧
    (σ.chan.fdlock.owner = some 0 ↔ OnTime σ (.write 0 (.sent 12))) := by
  have hrun : (((channelSystem smallCfg).run smallChannel oneRequest).any fun σ =>
      decide ((channelSystem smallCfg).enabled σ (.write 0 (.sent 12)) ∧
        σ.pc 0 = .send .request 0 .header (MsgHdr.encode ⟨1, 49, 12, 0, 0⟩) ∧
        ∃ m : Msg, σ.chan.msgs 0 = some m ∧ m.payload = none)) = true := by decide +kernel
  obtain ⟨σ, hsteps, h⟩ := System.Steps.of_run_any hrun
  obtain ⟨he, hpc, m, hm, hp⟩ := of_decide_eq_true h
  have hr := (hsteps.only (P := OnTime) fun σ act hact n a e => by
    subst e; simp [oneRequest] at hact).reachable (.init smallChannel_init)
  have hu : Unlocks σ (.write 0 (.sent 12)) 0 := by
    refine .written hpc hm ?_
    change State.left m .header [] = none
    simp only [State.left, hp, Option.map_none]
  exact ⟨σ, hr, he, unlocked_by_owner_iff hr he hu⟩

/-- The peer sends a request and closes: the receiver reads both before the
handler's task first runs. -/
def requestAndClose : List Action :=
  [.recvStart 9, .arrive (⟨7, 1, 12, 0, 0⟩ : MsgHdr).encode, .recvTake 12, .recvStart 9,
    .recvOther .closed]

/-- **The handler of that request aborts the process**: its `rpc_response`
unlocks a free lock. -/
theorem late_response_aborts : ∃ σ, (channelSystem smallCfg).Reachable σ ∧
    (channelSystem smallCfg).enabled σ (.response 5 0) ∧ Unlocks σ (.response 5 0) 5 ∧
    σ.chan.fdlock.owner = none ∧ (channelSystem smallCfg).exec σ (.response 5 0) = none := by
  have hrun : (((channelSystem smallCfg).run smallChannel requestAndClose).any fun σ =>
      decide ((channelSystem smallCfg).enabled σ (.response 5 0) ∧ σ.chan.enabled = false ∧
        σ.chan.fdlock.owner = none ∧ ((channelSystem smallCfg).exec σ (.response 5 0)).isNone)) =
      true := by decide +kernel
  obtain ⟨σ, hsteps, h⟩ := System.Steps.of_run_any hrun
  obtain ⟨he, hd, ho, hx⟩ := of_decide_eq_true h
  exact ⟨σ, hsteps.reachable (.init smallChannel_init), he, .disabled hd, ho, by simpa using hx⟩

end Rpc

end VmwareProto
