import VmwareProto.Rpc.Discipline
/-!
# Requests whose send fails

`rpc_request` puts its message in the hash before it writes, and its error
path does not take it out again. So the hash and the free list stay what
they are for exactly as long as a write fails only for a request that was
answered, and thereby unlinked, before it was completely sent.
-/

namespace VmwareProto

namespace Rpc

open Libtask

variable {cfg : Cfg} {ok : Prop} {σ σ' : State} {a : Addr} {m : Msg} {n t : TaskId} {act : Action}

/-- The write of a request fails. -/
def FailsRequest (σ : State) (act : Action) (m : Msg) : Prop := ∃ n r a part rest,
  act = .write n r ∧ (r = .zero ∨ ∃ e, r = .error e) ∧ σ.pc n = .send .request a part rest ∧
    σ.chan.msgs a = some m

/-- Writes fail only for requests that have their response. -/
def AnsweredFirst (σ : State) (act : Action) : Prop := ∀ m, FailsRequest σ act m → m.resp ≠ none

/-- On the error path, the request has its response. -/
def State.FailedAnswered (σ : State) : Prop := ∀ n a res m, σ.pc n = .unlock .request a res →
  σ.chan.msgs a = some m → m.resp ≠ none

theorem State.FailedAnswered.step (h : σ.FailedAnswered) (hB : Base cfg ok σ)
    (hen : σ.chan.enabled = true → ok) (hgood : AnsweredFirst σ act)
    (he : act.Allowed cfg σ) (hx : act.exec cfg σ = some σ') : σ'.FailedAnswered := by
  intro n a res m' hn hm'
  rcases error_path hB hen he hx hn with ⟨hpc, htask⟩ | ⟨r, part, rest, rfl, hr, hpc, rfl⟩
  · -- another task's step, or the receiver's
    obtain ⟨m, hm, hu⟩ := hB.uses.call n .request a (by rw [hpc]; rfl)
    rcases request_kept hB hen he hx hm hu htask with hm'' | ⟨-, -, b, hm''⟩
    · rw [hm'] at hm''
      exact Option.some.inj hm'' ▸ h n a res m hpc hm
    · rw [hm'] at hm''
      rw [Option.some.inj hm'']
      simp
  · exact hgood m' ⟨n, r, a, part, rest, rfl, hr, hpc, hm'⟩

/-- **The table is kept** in every run in which writes fail only for
requests that have their response. -/
theorem rollback_reachable (hr : ((channelSystem cfg).only AnsweredFirst).Reachable σ) :
    Base cfg True σ ∧ σ.FailedAnswered := by
  induction hr with
  | init hs =>
      obtain ⟨bufs, hnd, -, rfl⟩ := hs
      exact ⟨base_initial hnd, by simp [State.FailedAnswered, State.initial]⟩
  | step _ he hx ih =>
      exact ⟨ih.1.step (fun _ => trivial) (fun _ n a res m _ => ih.2 n a res m) he.1.2 hx,
        ih.2.step ih.1 (fun _ => trivial) he.2 he.1.2 hx⟩

/-- The error path's end, for a request that is still linked: it returns an
error and stays linked. -/
theorem unlock_linked {res : ℕ} {lists : Option ℕ → List Addr} {pending : List Addr}
    (hT : Table cfg σ.chan lists pending) (hpc : σ.pc n = .unlock .request a res)
    (hm : σ.chan.msgs a = some m) (hp : m.Pending) (hx : σ.unlock cfg n = some σ') :
    (∃ m', σ'.chan.msgs a = some m' ∧ m'.use = .returned res) ∧
      σ'.chan.links.isEmpty (.elem a) = false := by
  obtain ⟨k, a', res', l, hpc', -, ⟨-, m', hm', rfl⟩ | ⟨rfl, -⟩⟩ := State.unlock_cases hx
  · rw [hpc] at hpc'
    obtain ⟨-, rfl, rfl⟩ := Pc.unlock.inj hpc'
    refine ⟨⟨_, by rw [setMsg_msgs, Function.update_self], rfl⟩, ?_⟩
    have hlink := (hT.linked _ a).2 ⟨m, hm, hp, rfl⟩
    exact (hT.rings.ring (some _)).isEmpty_of_mem (List.mem_map_of_mem hlink)
  · rw [hpc] at hpc'
    cases hpc'

/-- A write that fails for a request without a response: its `rpc_request`
returns the error with the message linked. -/
theorem failed_request_linked {lists : Option ℕ → List Addr} {pending : List Addr} {σ₁ σ₂ : State}
    (hB : Base cfg ok σ) (hen : σ.chan.enabled = true → ok) (hT : Table cfg σ.chan lists pending)
    (he : act.Allowed cfg σ) (hf : FailsRequest σ act m) (hresp : m.resp = none)
    (hx : act.exec cfg σ = some σ₁) (ht : act.task = some n) (hx' : σ₁.unlock cfg n = some σ₂) :
    ∃ a m' res, σ₂.chan.msgs a = some m' ∧ m'.use = .returned res ∧ res ≠ 0 ∧
      σ₂.chan.links.isEmpty (.elem a) = false := by
  obtain ⟨t, r, a, part, rest, rfl, hr, hpc, hm⟩ := hf
  obtain rfl : t = n := Option.some.inj ht
  have hp : m.Pending := by
    obtain ⟨m₀, hm₀, hu⟩ := hB.uses.call t .request a (by rw [hpc]; rfl)
    obtain rfl : m = m₀ := by rw [hm] at hm₀; exact Option.some.inj hm₀
    exact ⟨⟨t, hu⟩, hresp⟩
  have hB₁ : Base cfg ok σ₁ := hB.step hen (by simp) he hx
  -- the failing write only closes the channel
  obtain ⟨res, rfl⟩ : ∃ res, σ₁ = σ.fail t a .request res := by
    obtain ⟨k, a', part', rest', hpc', ⟨rfl, -⟩ | ⟨res, -, rfl⟩ | ⟨j, -, rfl, -⟩⟩ :=
      State.write_cases hx
    · rcases hr with hr | ⟨e, hr⟩ <;> cases hr
    · rw [hpc] at hpc'
      obtain ⟨rfl, rfl, -⟩ := Pc.send.inj hpc'
      exact ⟨res, rfl⟩
    · rcases hr with hr | ⟨e, hr⟩ <;> cases hr
  have hpc₁ : (σ.fail t a .request res).pc t = .unlock .request a res := by
    simp [State.fail, State.setPc]
  have hT₁ : Table cfg (σ.fail t a .request res).chan lists pending :=
    hT.congr rfl rfl fun _ _ => .rfl
  obtain ⟨⟨m', hm', hu'⟩, hlink⟩ := unlock_linked hT₁ hpc₁ hm hp hx'
  exact ⟨a, m', res, hm', hu', hB₁.uses.error t _ a res hpc₁, hlink⟩

/-- **A failed request is unlinked exactly when it was answered first.** In
every run in which writes fail only for requests that have their response,
the buckets hold exactly the requests that wait inside `rpc_request`, each
in the bucket of its sequence id, as many as `count` says, the free list
only free buffers, no two lists meet, and no request that returned is in a
bucket; and a write that fails for a request without a response leaves it
linked when its `rpc_request` returns. -/
theorem failed_request_unlinked
    (hr : ((channelSystem cfg).only AnsweredFirst).Reachable σ) :
    (∃ lists pending, Free σ.chan (lists none) ∧ Table cfg σ.chan lists pending ∧
      ∀ a m res, σ.chan.msgs a = some m → m.use = .returned res → ∀ i, a ∉ lists (some i)) ∧
    ∀ act m σ₁ σ₂ n, (channelSystem cfg).enabled σ act → FailsRequest σ act m → m.resp = none →
      act.exec cfg σ = some σ₁ → act.task = some n → σ₁.unlock cfg n = some σ₂ →
      ∃ a m' res, σ₂.chan.msgs a = some m' ∧ m'.use = .returned res ∧ res ≠ 0 ∧
        σ₂.chan.links.isEmpty (.elem a) = false := by
  obtain ⟨hB, -⟩ := rollback_reachable hr
  obtain ⟨lists, pending, hF, hT⟩ := hB.sound
  refine ⟨⟨lists, pending, hF, hT trivial, fun a m res hm hu i => (hT trivial).notMem ?_ i⟩,
    fun act m σ₁ σ₂ n he hf hresp hx ht hx' =>
      failed_request_linked hB (fun _ => trivial) (hT trivial) he.2 hf hresp hx ht hx'⟩
  intro r hr
  rw [hm] at hr
  exact Option.some.inj hr ▸ not_pending (by simp [hu])

/-- A peer that answers a request it did not receive. -/
def answeredEarly : List Action := oneRequest ++ [.recvStart 9,
  .arrive (⟨1, 0, 12, 0, 0⟩ : MsgHdr).encode, .recvTake 12]

/-- Then the write fails. -/
def thenBroken : List Action := [.write 0 (.error 32), .unlock 0]

theorem failed_request_unlinked_answered :
    ∃ σ, ((channelSystem smallCfg).only AnsweredFirst).Reachable σ ∧
    (∃ m, σ.chan.msgs 0 = some m ∧ m.use = .returned 32) ∧
    ∃ lists pending, Free σ.chan (lists none) ∧ Table smallCfg σ.chan lists pending ∧
      ∀ a m res, σ.chan.msgs a = some m → m.use = .returned res → ∀ i, a ∉ lists (some i) := by
  have hrun : (((channelSystem smallCfg).run smallChannel answeredEarly).any fun σ =>
      decide (σ.pc 0 = .send .request 0 .header (MsgHdr.encode ⟨1, 49, 12, 0, 0⟩) ∧
        (∃ m : Msg, σ.chan.msgs 0 = some m ∧ m.resp = some 1) ∧
        ((channelSystem smallCfg).run σ thenBroken).any fun σ : State =>
          decide (∃ m : Msg, σ.chan.msgs 0 = some m ∧ m.use = .returned 32))) = true := by
    decide +kernel
  obtain ⟨σ, hsteps, h⟩ := System.Steps.of_run_any hrun
  obtain ⟨hpc, ⟨m, hm, hresp⟩, hrun'⟩ := of_decide_eq_true h
  obtain ⟨σ', hsteps', h'⟩ := System.Steps.of_run_any hrun'
  have hr : ((channelSystem smallCfg).only AnsweredFirst).Reachable σ := by
    refine (hsteps.only fun σ act hact m hf => ?_).reachable (.init smallChannel_init)
    obtain ⟨n, r, -, -, -, rfl, -⟩ := hf
    simp [answeredEarly, oneRequest] at hact
  -- the write fails for the one request, which has its response
  have hgood : AnsweredFirst σ (.write 0 (.error 32)) := by
    rintro m' ⟨n, r, a, part, rest, e, -, hpc', hm'⟩
    obtain ⟨rfl, -⟩ := Action.write.inj e
    rw [hpc] at hpc'
    obtain ⟨-, rfl, -⟩ := Pc.send.inj hpc'
    rw [hm] at hm'
    rw [← Option.some.inj hm', hresp]
    simp
  have hr' : ((channelSystem smallCfg).only AnsweredFirst).Reachable σ' := by
    cases hsteps' with
    | cons he hx hrest =>
        refine (hrest.only fun σ act hact m hf => ?_).reachable (hr.step ⟨he, hgood⟩ hx)
        obtain ⟨n, r, -, -, -, rfl, -⟩ := hf
        simp at hact
  exact ⟨σ', hr', of_decide_eq_true h', (failed_request_unlinked hr').1⟩

/-- A request whose first write fails with `EPIPE`, up to its return. -/
def brokenPipe : List Action := oneRequest ++ [.write 0 (.error 32), .unlock 0]

/-- **The failed request is still in its bucket**, and when its caller puts
it, the bucket leads into the free list. -/
theorem failed_request_corrupts : ∃ σ σ', (channelSystem smallCfg).Reachable σ ∧
    (∃ m, σ.chan.msgs 0 = some m ∧ m.use = .returned 32) ∧
    σ.chan.links.next (.head (some 1)) = .elem 0 ∧
    (channelSystem smallCfg).enabled σ (.msgPut 0) ∧
    (channelSystem smallCfg).exec σ (.msgPut 0) = some σ' ∧
    ∀ lists, ¬ σ'.chan.links.Rings lists := by
  have hrun : (((channelSystem smallCfg).run smallChannel brokenPipe).any fun σ : State =>
      decide ((∃ m : Msg, σ.chan.msgs 0 = some m ∧ m.use = .returned 32) ∧
        σ.chan.links.next (.head (some 1)) = .elem 0 ∧
        (channelSystem smallCfg).enabled σ (.msgPut 0) ∧
        ((channelSystem smallCfg).exec σ (.msgPut 0)).any fun σ : State =>
          decide (σ.chan.links.prev (σ.chan.links.next (.head (some 1))) ≠ .head (some 1)))) =
      true := by decide +kernel
  obtain ⟨σ, hsteps, h⟩ := System.Steps.of_run_any hrun
  obtain ⟨hm, hnext, he, hput⟩ := of_decide_eq_true h
  obtain ⟨σ', hx, hback⟩ := (Option.any_eq_true _ _).1 hput
  exact ⟨σ, σ', hsteps.reachable (.init smallChannel_init), hm, hnext, he, hx,
    fun lists hR => of_decide_eq_true hback (hR.ring (some 1)).prev_next⟩

end Rpc

end VmwareProto
