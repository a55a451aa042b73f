import VmwareProto.Rpc.Discipline
/-!
# Requests pending when the connection ends

A sleeping `rpc_request` is woken by `_rpc_response` alone. When the
receiver leaves its loop nothing on the way out wakes anybody: not
`rpc_recv_task`, not `rpc_chan_close`, not `rpc_chan_deinit`, which waits
for the buffers of those same requests. So nobody is stranded exactly in
the runs in which nobody is asleep when the receiver leaves, and nobody
goes to sleep after.
-/

namespace VmwareProto

namespace Rpc

open Libtask

variable {cfg : Cfg} {ok : Prop} {σ σ' : State} {a : Addr} {m : Msg} {n t : TaskId} {act : Action}

/-- The receiver has left and a request still sleeps. -/
def State.Stranded (σ : State) : Prop := σ.recv = .left ∧ ∃ n a, σ.pc n = .asleep a

/-- The step in which the receiver leaves its loop. -/
def Leaves (cfg : Cfg) (σ : State) (act : Action) : Prop :=
  σ.recv ≠ .left ∧ ∃ σ', act.exec cfg σ = some σ' ∧ σ'.recv = .left

/-- Nobody is asleep when the receiver leaves, and nobody goes to sleep
when it has left. -/
structure Answered (cfg : Cfg) (σ : State) (act : Action) : Prop where
  leaves : Leaves cfg σ act → ∀ n a, σ.pc n ≠ .asleep a
  sleeps : Sleeps σ act → σ.recv ≠ .left

theorem not_left (he : act.Allowed cfg σ) (hact : act.Receiving) : σ.recv ≠ .left := by
  intro hl
  cases act <;> simp only [Action.Receiving] at hact <;> simp [Action.Allowed, hl] at he

/-- **Stranded for good**: once the receiver has left, nothing wakes a
sleeping request. -/
theorem stranded_forever (he : act.Allowed cfg σ) (hx : act.exec cfg σ = some σ')
    (hl : σ.recv = .left) (hn : σ.pc n = .asleep a) : σ'.recv = .left ∧ σ'.pc n = .asleep a := by
  have hact : ¬ act.Receiving := fun hact => not_left he hact hl
  exact ⟨(moves he hx hact).1.trans hl, asleep_of_moves he hx hact hn⟩

theorem not_receiving (hs : Sleeps σ act) : ¬ act.Receiving := by
  obtain ⟨n, j, _, _, _, _, rfl, _⟩ := hs
  exact id

/-- **One step strands somebody** if it is one of those two. -/
theorem stranded_step_iff (hB : Base cfg ok σ) (hen : σ.chan.enabled = true → ok)
    (hns : ¬ σ.Stranded) (he : act.Allowed cfg σ) (hx : act.exec cfg σ = some σ') :
    ¬ σ'.Stranded ↔ Answered cfg σ act := by
  by_cases hact : act.Receiving
  · have hr := received hB hen he hx hact
    have hl := not_left he hact
    constructor
    · refine fun h => ⟨fun ⟨_, σ'', hx', hl'⟩ n a hn => h ?_, fun hs => absurd hact (not_receiving hs)⟩
      obtain rfl : σ' = σ'' := by rw [hx] at hx'; exact Option.some.inj hx'
      exact ⟨hl', n, a, by rw [hr.left hl', hn]⟩
    · rintro h ⟨hl', n, a, hn⟩
      rw [hr.left hl'] at hn
      exact h.leaves ⟨hl, σ', hx, hl'⟩ n a hn
  · have hrecv := (moves he hx hact).1
    have hleave : ¬ Leaves cfg σ act := fun ⟨hne, σ'', hx', hl'⟩ => by
      obtain rfl : σ' = σ'' := by rw [hx] at hx'; exact Option.some.inj hx'
      exact hne (hrecv ▸ hl')
    rw [State.Stranded, hrecv, asleep_iff he hx hact]
    constructor
    · exact fun h => ⟨fun hl => absurd hl hleave, fun hs hl => h ⟨hl, .inr hs⟩⟩
    · rintro h ⟨hl, ⟨n, a, hn⟩ | hs⟩
      · exact hns ⟨hl, n, a, hn⟩
      · exact h.sleeps hs hl

theorem not_stranded (hr : ((channelSystem cfg).only (Answered cfg)).Reachable σ) :
    ¬ σ.Stranded := by
  induction hr with
  | init hs =>
      obtain ⟨bufs, -, -, rfl⟩ := hs
      rintro ⟨hl, -⟩
      cases hl
  | step hr he hx ih =>
      exact (stranded_step_iff (base_reachable hr.of_only) id ih he.1.2 hx).2 he.2

/-- **Nobody is stranded exactly in the runs** in which nobody is asleep
when the receiver leaves, and nobody goes to sleep after: in them no task
sleeps once the receiver has left, and the first step that does not keep
to it strands somebody. -/
theorem nobody_stranded_iff (hr : ((channelSystem cfg).only (Answered cfg)).Reachable σ) :
    (σ.recv = .left → ∀ n a, σ.pc n ≠ .asleep a) ∧
      ∀ act σ', (channelSystem cfg).enabled σ act → (channelSystem cfg).exec σ act = some σ' →
        (¬ σ'.Stranded ↔ Answered cfg σ act) :=
  ⟨fun hl n a hn => not_stranded hr ⟨hl, n, a, hn⟩, fun _ _ he hx =>
    stranded_step_iff (base_reachable hr.of_only) id (not_stranded hr) he.2 hx⟩

/-- A task that no step is about stays in no call. -/
theorem idle_of_steps {P : State → Action → Prop} {acts : List Action}
    (h : ((channelSystem cfg).only P).Steps σ acts σ') (hr : (channelSystem cfg).Reachable σ)
    (hn : ∀ act ∈ acts, act.task ≠ some n) (hi : σ.pc n = .idle) : σ'.pc n = .idle := by
  induction h with
  | nil => exact hi
  | @cons σ τ σ' act acts he hx _ ih =>
      refine ih (hr.step he.1 hx) (fun b hb => hn b (List.mem_cons_of_mem _ hb)) ?_
      by_cases hact : act.Receiving
      · rcases (received (base_reachable hr) id he.1.2 hx hact).pc n with e | ⟨a, e, -⟩
        · exact e.trans hi
        · rw [hi] at e
          cases e
      · rcases (moves he.1.2 hx hact).2 with ⟨e, -⟩ | ⟨t, p, ht, e, -⟩
        · rw [e, hi]
        · have hne : n ≠ t := fun e => hn act List.mem_cons_self (e ▸ ht)
          rw [e, Function.update_of_ne hne, hi]

/-- A request is sent and answered, and put. -/
def oneAnswered : List Action :=
  oneRequest ++ [.write 0 (.sent 12), .recvStart 9, .arrive (⟨1, 48, 12, 0, 0⟩ : MsgHdr).encode,
    .recvTake 12, .wake 0, .msgPut 0, .recvStart 9]

/-- Then the connection ends. -/
theorem nobody_stranded_answered : ∃ σ σ', ((channelSystem smallCfg).only (Answered smallCfg)).Steps
      smallChannel oneAnswered σ ∧
    (channelSystem smallCfg).exec σ (.recvOther .closed) = some σ' ∧ σ'.recv = .left ∧
    ∀ n a, σ'.pc n ≠ .asleep a := by
  have hinit : ((channelSystem smallCfg).only (Answered smallCfg)).Reachable smallChannel :=
    .init smallChannel_init
  -- a step after which the receiver is in its loop strands nobody
  have hE : ∀ σ act, ((channelSystem smallCfg).only (Answered smallCfg)).Reachable σ →
      ((channelSystem smallCfg).enabled σ act ∧
        (act.exec smallCfg σ).any (fun σ => decide (σ.recv ≠ .left)) = true) →
      ((channelSystem smallCfg).only (Answered smallCfg)).enabled σ act := by
    intro σ act hr ⟨he, hany⟩
    obtain ⟨τ, hx, hl⟩ := Option.any_eq_true _ _ |>.1 hany
    exact ⟨he, (stranded_step_iff (base_reachable hr.of_only) id (not_stranded hr) he.2 hx).1
      fun hs => of_decide_eq_true hl hs.1⟩
  have hrun : ((((channelSystem smallCfg).only (Answered smallCfg)).enabledBy fun σ act =>
      (channelSystem smallCfg).enabled σ act ∧
        (act.exec smallCfg σ).any (fun σ => decide (σ.recv ≠ .left)) = true).run smallChannel
      oneAnswered).any (fun σ => decide (σ.pc 0 = .idle ∧
        (channelSystem smallCfg).enabled σ (.recvOther .closed)) &&
        ((channelSystem smallCfg).exec σ (.recvOther .closed)).any fun σ' =>
          decide (σ'.recv = .left)) = true := by decide +kernel
  obtain ⟨σ, hsteps, h⟩ := System.Steps.of_run_any hrun
  rw [Bool.and_eq_true] at h
  obtain ⟨hidle, he⟩ := of_decide_eq_true h.1
  obtain ⟨σ', hx, hl⟩ := Option.any_eq_true _ _ |>.1 h.2
  have hsteps := hsteps.of_enabledBy hE hinit
  have hr := hsteps.reachable hinit
  have hall : ∀ n, σ.pc n = .idle := fun n => by
    by_cases hn : n = 0
    · rw [hn, hidle]
    · refine idle_of_steps hsteps (.init smallChannel_init) (fun act hact => ?_) rfl
      have hzero : ∀ act ∈ oneAnswered, act.task = none ∨ act.task = some 0 := by decide
      rcases hzero act hact with e | e
      · simp [e]
      · rw [e]
        exact fun h => hn (Option.some.inj h).symm
  have hans : Answered smallCfg σ (.recvOther .closed) := by
    refine ⟨fun _ n a e => ?_, fun ⟨_, _, _, _, _, _, e, _⟩ => by cases e⟩
    rw [hall n] at e
    cases e
  exact ⟨σ, σ', hsteps, hx, of_decide_eq_true hl,
    (nobody_stranded_iff (hr.step ⟨he, hans⟩ hx)).1 (of_decide_eq_true hl)⟩

/-- No task is runnable: each is in none of the functions, asleep in
`rpc_request`, or waiting in `rpc_chan_deinit` for buffers to come back. -/
def State.Quiet (σ : State) : Prop := ∀ n, σ.pc n = .idle ∨ (∃ a, σ.pc n = .asleep a) ∨
  σ.pc n = .draining ∧ σ.chan.issued ≠ 0

/-- The handler is done with the message that tells it of the close. -/
def State.Handled (σ : State) : Prop :=
  ∀ a m, σ.chan.msgs a = some m → m.hdr.isConnClosed = false

/-- A request is sent, the peer closes, and the handler puts the message,
closes the channel and calls `rpc_chan_deinit`. -/
def closePending : List Action :=
  oneRequest ++ [.write 0 (.sent 12), .recvStart 9, .recvOther .closed, .msgPut 1, .close, .deinit 7]

/-- **Its task never runs again.** -/
theorem requester_stranded : ∃ σ, (channelSystem smallCfg).Reachable σ ∧ σ.recv = .left ∧
    σ.Handled ∧ σ.Quiet ∧ σ.pc 0 = .asleep 0 := by
  have hsteps : ∃ σ, (channelSystem smallCfg).Steps smallChannel closePending σ ∧
      σ = (closePending.foldlM (fun σ act => Action.exec smallCfg σ act) smallChannel).get rfl :=
    ⟨_, .cons ⟨by decide, rfl, .inl rfl⟩ rfl
      (.cons ⟨by decide, rfl, _, rfl, rfl, by decide⟩ rfl
        (.cons ⟨by decide, _, _, _, _, rfl, by decide, by decide, by decide⟩ rfl
          (.cons ⟨by decide, rfl, rfl, .inl rfl⟩ rfl
            (.cons ⟨by decide, _, _, rfl, by decide, by simp⟩ rfl
              (.cons ⟨by decide, _, rfl, .inr (.inl rfl)⟩ rfl
                (.cons ⟨by decide, trivial⟩ rfl (.cons ⟨by decide, rfl⟩ rfl .nil))))))), rfl⟩
  obtain ⟨_, hsteps, rfl⟩ := hsteps
  refine ⟨_, hsteps.reachable (.init smallChannel_init), rfl, ?_, ?_, rfl⟩
  · intro a m hm
    by_cases h0 : a = 0
    · subst h0
      rw [← Option.some.inj hm]
      rfl
    · by_cases h1 : a = 1
      · subst h1
        cases hm
      · change Function.update (Function.update (Function.update (Function.update (Function.update
          (Function.update (fun _ => none) 0 _) 0 _) 0 _) 1 _) 1 _) 1 _ a = some m at hm
        simp [h0, h1] at hm
  · intro n
    by_cases h0 : n = 0
    · exact .inr (.inl ⟨0, by rw [h0]; rfl⟩)
    · by_cases h7 : n = 7
      · exact .inr (.inr ⟨by rw [h7]; rfl, by decide⟩)
      · left
        change Function.update (Function.update (Function.update (fun _ => Pc.idle) 0 _) 0 _) 7 _ n = _
        simp [h0, h7]

end Rpc

end VmwareProto
