import VmwareProto.Rpc.Dispatch
/-!
# What becomes of a message

A message is made by `rpc_msg_get`, or read off the stream; from then on
each step leaves it alone, frees it, or changes it in one of a few ways.
And a message is begun on the wire in one way: by the task that obtains
`fdlock` for it.
-/

namespace VmwareProto

namespace Rpc

open Libtask

variable {cfg : Cfg} {ok : Prop} {σ σ' : State} {a b : Addr} {m m' : Msg} {n t : TaskId} {k : Kind}
  {c : Channel} {l : QLock} {act : Action}

/-- What a step that is not the receiver's makes of the message `m` in `a`. -/
inductive Became (σ : State) (act : Action) (a : Addr) (m : Msg) : Msg → Prop
  | same : Became σ act a m m
  | edited (msglen payloadlen status : BitVec 16) (body : List Byte) (payload : Option (List Byte)) :
      act = .edit a msglen payloadlen status body payload → m.use = .fresh ∨ m.use = .handed →
      Became σ act a m { m with
        hdr := { m.hdr with msglen := msglen, payloadlen := payloadlen, status := status }
        body := body
        payload := payload }
  /-- `rpc_request` on a disabled channel -/
  | refused (n : TaskId) : act = .request n a → m.use = .fresh → σ.chan.enabled = false →
      Became σ act a m { m with use := .returned eDisabled }
  | requested (n : TaskId) : act = .request n a → m.use = .fresh → m.Asserts → m.InBuffers →
      Became σ act a m { m with hdr := m.hdr.setReq, use := .request n }
  | responded (n : TaskId) : act = .response n a → m.use = .handed → m.Asserts → m.InBuffers →
      Became σ act a m { m with hdr := m.hdr.setResp, use := .response n }
  /-- completely written -/
  | slept (n : TaskId) (j : ℕ) : act = .write n (.sent j) → m.use = .request n →
      Became σ act a m { m with rendez := m.rendez ++ [n] }
  | returned (n : TaskId) (res : ℕ) : act.task = some n → m.use = .request n →
      (∀ b, σ.pc n ≠ .asleep b) → (res = 0 → σ.pc n = .woken a) →
      Became σ act a m { m with use := .returned res }

/-- A put leaves no message but those it does not concern. -/
theorem Base.of_put (h : Base cfg ok σ) (hm : σ.chan.msgs a = some m) (hu : ∀ n, m.use ≠ .request n)
    (hput : Channel.msgPut cfg { σ.chan with fdlock := l } a = some c) (hb : c.msgs b = some m') :
    σ.chan.msgs b = some m' ∧ b ≠ a ∧ m.resp ≠ some b := by
  obtain ⟨lists, pending, hS⟩ := h.sound
  have hS' : Sound cfg ok { σ.chan with fdlock := l } lists pending := hS.congr rfl rfl rfl rfl rfl
  rw [(msgPut_spec hS' hm (fun _ => not_pending hu) (h.uses.resp_ne hm) hput).2.1 b] at hb
  split at hb
  · cases hb
  · rename_i hne
    rw [not_or] at hne
    exact ⟨hb, hne.1, hne.2⟩

theorem Base.of_put_response (h : Base cfg ok σ) (hcall : (σ.pc n).call = some (.response, a))
    (hput : Channel.msgPut cfg { σ.chan with fdlock := l } a = some c) (hb : c.msgs b = some m') :
    σ.chan.msgs b = some m' ∧ b ≠ a := by
  obtain ⟨m, hm, hu⟩ := h.uses.call n .response a hcall
  obtain ⟨hb, hba, -⟩ := h.of_put hm (by simp [hu, Kind.use]) hput hb
  exact ⟨hb, hba⟩

/-- One message of many is changed. -/
theorem became_update {msgs : Addr → Option Msg} {p : Msg} (hmsgs : msgs = σ.chan.msgs)
    (hm : σ.chan.msgs a = some m) (hp : Became σ act a m p)
    (hb : Function.update msgs a (some p) b = some m') :
    ∃ m, σ.chan.msgs b = some m ∧ Became σ act b m m' := by
  subst hmsgs
  by_cases hba : b = a
  · subst hba
    rw [Function.update_self] at hb
    exact ⟨m, hm, Option.some.inj hb ▸ hp⟩
  · rw [Function.update_of_ne hba] at hb
    exact ⟨m', hb, .same⟩

/-- **Where a message comes from**, in a step that is not the receiver's. -/
theorem became (h : Base cfg ok σ) (he : act.Allowed cfg σ) (hx : act.exec cfg σ = some σ')
    (hact : ¬act.Receiving) (hb : σ'.chan.msgs b = some m') :
    (∃ m, σ.chan.msgs b = some m ∧ Became σ act b m m') ∨
      (∃ alloc msgtype msglen payloadlen payload,
        act = .msgGet alloc msgtype msglen payloadlen payload) ∧
        σ.chan.msgs b = none ∧ m'.use = .fresh ∧ m'.resp = none ∧ m'.hdr.seqid = σ.chan.seqid ∧
        ∀ y, y ≠ b → σ'.chan.msgs y = σ.chan.msgs y := by
  have hsame : σ.chan.msgs b = some m' → ∃ m, σ.chan.msgs b = some m ∧ Became σ act b m m' :=
    fun hb => ⟨m', hb, .same⟩
  cases act with
  | msgGet alloc msgtype msglen payloadlen payload =>
      obtain ⟨lists, pending, hS⟩ := h.sound
      simp only [Action.exec, Option.bind_eq_bind, Option.bind_eq_some_iff] at hx
      obtain ⟨⟨c, a⟩, hget, hx⟩ := hx
      obtain rfl := Option.some.inj hx
      obtain ⟨-, hnone, q, hq, hu, hr, -, hid, -⟩ := msgGet_spec hS he.1 hget
      simp only [hq] at hb
      by_cases hba : b = a
      · subst hba
        rw [Function.update_self] at hb
        obtain rfl := Option.some.inj hb
        exact .inr ⟨⟨_, _, _, _, _, rfl⟩, hnone, hu, hr, hid,
          fun y hy => by rw [hq, Function.update_of_ne hy]⟩
      · rw [Function.update_of_ne hba] at hb
        exact .inl (hsame hb)
  | edit a msglen payloadlen status body payload =>
      simp only [Action.exec, Option.bind_eq_bind, Option.bind_eq_some_iff] at hx
      obtain ⟨q, hq, hx⟩ := hx
      obtain rfl := Option.some.inj hx
      obtain ⟨q', hq', hqu⟩ := he
      obtain rfl := Option.some.inj (hq.symm.trans hq')
      exact .inl (became_update rfl hq (.edited _ _ _ _ _ rfl hqu) hb)
  | msgPut a =>
      simp only [Action.exec, Option.bind_eq_bind, Option.bind_eq_some_iff] at hx
      obtain ⟨c, hput, hx⟩ := hx
      obtain rfl := Option.some.inj hx
      obtain ⟨q, hq, hqu⟩ := he
      have hu : ∀ n, q.use ≠ .request n := fun n => by
        rcases hqu with hqu | hqu | ⟨res, hqu⟩ <;> simp [hqu]
      exact .inl (hsame (h.of_put hq hu hput hb).1)
  | request t a =>
      obtain ⟨-, q', hq', hqu, hqb⟩ := he
      obtain ⟨q, hq, has, ⟨hd, rfl⟩ | ⟨-, p, rfl, rfl⟩⟩ := State.request_cases hx
      all_goals obtain rfl := Option.some.inj (hq.symm.trans hq')
      · exact .inl (became_update rfl hq (.refused t rfl hqu hd) hb)
      · rw [lock_chan] at hb
        exact .inl (became_update rfl hq (.requested t rfl hqu has hqb) hb)
  | response t a =>
      obtain ⟨-, q', hq', hqu, -, hqb⟩ := he
      obtain ⟨q, hq, has, ⟨-, l, c, -, hput, rfl⟩ | ⟨-, p, rfl, rfl⟩⟩ := State.response_cases hx
      all_goals obtain rfl := Option.some.inj (hq.symm.trans hq')
      · exact .inl (hsame (h.of_put hq (by simp [hqu]) hput hb).1)
      · rw [lock_chan] at hb
        exact .inl (became_update rfl hq (.responded t rfl hqu has hqb) hb)
  | resume t =>
      obtain ⟨k, a, q, -, -, -, rfl⟩ := State.resume_cases hx
      exact .inl (hsame hb)
  | write t r =>
      obtain ⟨k, a, part, rest, hpc, ⟨-, rfl⟩ | ⟨res, -, rfl⟩ |
        ⟨j, q, rfl, hq, ⟨part', rest', -, rfl⟩ | ⟨-, hx⟩⟩⟩ := State.write_cases hx
      · exact .inl (hsame hb)
      · exact .inl (hsame hb)
      · exact .inl (hsame hb)
      · obtain ⟨l, -, ⟨rfl, p, hp, rfl⟩ | ⟨rfl, c, hput, rfl⟩⟩ := State.complete_cases hx
        · obtain ⟨q', hq', hqu⟩ := h.uses.call t .request a (by rw [hpc]; rfl)
          obtain rfl := Option.some.inj (hp.symm.trans hq')
          exact .inl (became_update rfl hp (.slept t j rfl hqu) hb)
        · exact .inl (hsame (h.of_put_response (n := t) (by rw [hpc]; rfl) hput hb).1)
  | unlock t =>
      obtain ⟨k, a, res, l, hpc, -, ⟨rfl, p, hp, rfl⟩ | ⟨rfl, c, hput, rfl⟩⟩ := State.unlock_cases hx
      · obtain ⟨q, hq, hqu⟩ := h.uses.call t .request a (by rw [hpc]; rfl)
        obtain rfl := Option.some.inj (hp.symm.trans hq)
        exact .inl (became_update rfl hp (.returned t res rfl hqu (by simp [hpc])
          fun e => absurd e (h.uses.error t _ a res hpc)) hb)
      · exact .inl (hsame (h.of_put_response (n := t) (by rw [hpc]; rfl) hput hb).1)
  | wake t =>
      obtain ⟨a, p, hpc, hp, -, rfl⟩ := State.wake_cases hx
      obtain ⟨q, hq, hqu⟩ := h.uses.call t .request a (by rw [hpc]; rfl)
      obtain rfl := Option.some.inj (hp.symm.trans hq)
      exact .inl (became_update rfl hp (.returned t 0 rfl hqu (by simp [hpc]) fun _ => hpc) hb)
  | close => obtain rfl := Option.some.inj hx; exact .inl (hsame hb)
  | deinit t => obtain ⟨st, p, -, rfl⟩ := deinit_cases hx he; exact .inl (hsame hb)
  | drained t => rw [drained_cases hx] at hb; exact .inl (hsame hb)
  | arrive bs => obtain rfl := Option.some.inj hx; exact .inl (hsame hb)
  | _ => exact absurd trivial hact

/-! ## What is begun on the wire -/

/-- **A message is begun** by a task that obtains `fdlock`, at once or after
a wait. -/
structure Begins (σ σ' : State) (act : Action) (n : TaskId) (k : Kind) (a : Addr) (m : Msg) : Prop where
  task : act.task = some n
  log : σ'.log = σ.log ++ [m.wire]
  pc : σ'.pc = Function.update σ.pc n (.send k a .header m.hdrBytes)
  msg : σ'.chan.msgs a = some m
  use : m.use = k.use n
  before : σ.pc n = .idle ∧ (act = .request n a ∨ act = .response n a) ∨
    σ.pc n = .lockWait k a ∧ act = .resume n ∧ σ.chan.msgs a = some m

/-- A task that queues up has just called, or was in the queue before. -/
theorem lockWait_cases (h : Base cfg ok σ) (hen : σ.chan.enabled = true → ok) (he : act.Allowed cfg σ)
    (hx : act.exec cfg σ = some σ') (hn : σ'.pc n = .lockWait k a) :
    σ.pc n = .lockWait k a ∨ act = .request n a ∨ act = .response n a := by
  by_cases hact : act.Receiving
  · rcases (received h hen he hx hact).pc n with e | ⟨b, -, e⟩
    · exact .inl (e ▸ hn)
    · rw [e] at hn
      cases hn
  by_cases ht : act.task = some n
  · cases act with
    | request t b =>
        obtain rfl := Option.some.inj ht
        obtain ⟨hidle, -⟩ := he
        obtain ⟨m, -, -, ⟨-, rfl⟩ | ⟨-, m', -, rfl⟩⟩ := State.request_cases hx
        · exact .inl hn
        · rcases State.lock_cases _ t b .request m' with ⟨-, e⟩ | ⟨-, e⟩
          all_goals
            rw [e] at hn
            simp only [Function.update_self] at hn
            cases hn
          exact .inr (.inl rfl)
    | response t b =>
        obtain rfl := Option.some.inj ht
        obtain ⟨hidle, -⟩ := he
        obtain ⟨m, -, -, ⟨-, l, c, -, -, rfl⟩ | ⟨-, m', -, rfl⟩⟩ := State.response_cases hx
        · exact .inl hn
        · rcases State.lock_cases _ t b .response m' with ⟨-, e⟩ | ⟨-, e⟩
          all_goals
            rw [e] at hn
            simp only [Function.update_self] at hn
            cases hn
          exact .inr (.inr rfl)
    | resume t =>
        obtain rfl := Option.some.inj ht
        obtain ⟨k, b, m, -, -, -, rfl⟩ := State.resume_cases hx
        simp only [Function.update_self] at hn
        cases hn
    | write t r =>
        obtain rfl := Option.some.inj ht
        obtain ⟨k, b, part, rest, hpc, ⟨-, rfl⟩ | ⟨res, -, rfl⟩ |
          ⟨j, m, -, -, ⟨part', rest', -, rfl⟩ | ⟨-, hx⟩⟩⟩ := State.write_cases hx
        · exact .inl hn
        · simp only [State.fail, State.setPc, Function.update_self] at hn
          cases hn
        · simp only [Function.update_self] at hn
          cases hn
        · obtain ⟨l, -, ⟨-, p, -, rfl⟩ | ⟨-, c, -, rfl⟩⟩ := State.complete_cases hx <;>
            simp only [Function.update_self] at hn <;> cases hn
    | unlock t =>
        obtain rfl := Option.some.inj ht
        obtain ⟨k, b, res, l, -, -, ⟨-, p, -, rfl⟩ | ⟨-, c, -, rfl⟩⟩ := State.unlock_cases hx <;>
          simp only [Function.update_self] at hn <;> cases hn
    | wake t =>
        obtain rfl := Option.some.inj ht
        obtain ⟨b, p, -, -, -, rfl⟩ := State.wake_cases hx
        simp only [Function.update_self] at hn
        cases hn
    | deinit t =>
        obtain rfl := Option.some.inj ht
        obtain ⟨st, p, hp, rfl⟩ := deinit_cases hx he
        simp only [Function.update_self] at hn
        rcases hp with rfl | rfl <;> cases hn
    | drained t =>
        obtain rfl := Option.some.inj ht
        rw [drained_cases hx] at hn
        simp only [Function.update_self] at hn
        cases hn
    | _ => cases ht
  · rcases (moves he hx hact).2 with ⟨e, -⟩ | ⟨t, p, hnt, e, -⟩
    · exact .inl (by rw [← e, hn])
    · have htn : n ≠ t := fun e => ht (by rw [hnt, e])
      exact .inl (by rw [← Function.update_of_ne htn p σ.pc, ← e, hn])

/-- **The log grows** by the messages that are begun. -/
theorem log_cases (h : Base cfg ok σ) (hen : σ.chan.enabled = true → ok) (he : act.Allowed cfg σ)
    (hx : act.exec cfg σ = some σ') :
    σ'.log = σ.log ∨ ∃ n k a m, Begins σ σ' act n k a m := by
  by_cases hact : act.Receiving
  · exact .inl (received h hen he hx hact).log
  cases act with
  | msgGet alloc msgtype msglen payloadlen payload =>
      simp only [Action.exec, Option.bind_eq_bind, Option.bind_eq_some_iff] at hx
      obtain ⟨_, _, hx⟩ := hx
      obtain rfl := Option.some.inj hx
      exact .inl rfl
  | edit a msglen payloadlen status body payload =>
      simp only [Action.exec, Option.bind_eq_bind, Option.bind_eq_some_iff] at hx
      obtain ⟨_, _, hx⟩ := hx
      obtain rfl := Option.some.inj hx
      exact .inl rfl
  | msgPut a =>
      simp only [Action.exec, Option.bind_eq_bind, Option.bind_eq_some_iff] at hx
      obtain ⟨_, _, hx⟩ := hx
      obtain rfl := Option.some.inj hx
      exact .inl rfl
  | request n a =>
      obtain ⟨hidle, -⟩ := he
      obtain ⟨m, -, -, ⟨-, rfl⟩ | ⟨-, m', rfl, rfl⟩⟩ := State.request_cases hx
      · exact .inl rfl
      · rcases State.lock_cases _ n a .request _ with ⟨-, e⟩ | ⟨-, e⟩
        · rw [e]
          exact .inr ⟨n, .request, a, _, rfl, rfl, rfl, Function.update_self .., rfl,
            .inl ⟨hidle, .inl rfl⟩⟩
        · rw [e]
          exact .inl rfl
  | response n a =>
      obtain ⟨hidle, -⟩ := he
      obtain ⟨m, -, -, ⟨-, l, c, -, -, rfl⟩ | ⟨-, m', rfl, rfl⟩⟩ := State.response_cases hx
      · exact .inl rfl
      · rcases State.lock_cases _ n a .response _ with ⟨-, e⟩ | ⟨-, e⟩
        · rw [e]
          exact .inr ⟨n, .response, a, _, rfl, rfl, rfl, Function.update_self .., rfl,
            .inl ⟨hidle, .inr rfl⟩⟩
        · rw [e]
          exact .inl rfl
  | resume n =>
      obtain ⟨k, a, m, hpc, hm, -, rfl⟩ := State.resume_cases hx
      obtain ⟨m', hm', hu⟩ := h.uses.call n k a (by rw [hpc]; rfl)
      obtain rfl := Option.some.inj (hm.symm.trans hm')
      exact .inr ⟨n, k, a, m, rfl, rfl, rfl, hm, hu, .inr ⟨hpc, rfl, hm⟩⟩
  | write n r =>
      obtain ⟨k, a, part, rest, hpc, ⟨-, rfl⟩ | ⟨res, -, rfl⟩ |
        ⟨j, m, -, -, ⟨part', rest', -, rfl⟩ | ⟨-, hx⟩⟩⟩ := State.write_cases hx
      · exact .inl rfl
      · exact .inl rfl
      · exact .inl rfl
      · obtain ⟨l, -, ⟨-, p, -, rfl⟩ | ⟨-, c, -, rfl⟩⟩ := State.complete_cases hx <;> exact .inl rfl
  | unlock n =>
      obtain ⟨k, a, res, l, -, -, ⟨-, p, -, rfl⟩ | ⟨-, c, -, rfl⟩⟩ := State.unlock_cases hx <;>
        exact .inl rfl
  | wake n =>
      obtain ⟨a, p, -, -, -, rfl⟩ := State.wake_cases hx
      exact .inl rfl
  | close => obtain rfl := Option.some.inj hx; exact .inl rfl
  | deinit n => obtain ⟨st, p, -, rfl⟩ := deinit_cases hx he; exact .inl rfl
  | drained n => rw [drained_cases hx]; exact .inl rfl
  | arrive bs => obtain rfl := Option.some.inj hx; exact .inl rfl
  | _ => exact absurd trivial hact

/-! ## What else changes -/

/-- How many sequence ids a step takes. -/
def Action.gets : Action → ℕ
  | .msgGet _ _ _ _ _ => 1
  | _ => 0

/-- What arrives in a step. -/
def Action.arrives : Action → List (List Byte)
  | .arrive bs => [bs]
  | _ => []

/-- The counters and the byte streams after a step that is not the
receiver's. -/
structure Fields (σ σ' : State) (act : Action) : Prop where
  gets : σ'.gets = σ.gets + act.gets
  seqid : σ'.chan.seqid = σ.chan.seqid + BitVec.ofNat 32 act.gets
  arrived : σ'.arrived = σ.arrived ++ act.arrives
  inq : σ'.inq = σ.inq ++ act.arrives.flatten
  sent : σ'.sent = σ.sent ∨ ∃ n j, act = .write n (.sent j)

theorem Fields.of_eq (hg : act.gets = 0) (ha : act.arrives = []) (h : σ'.gets = σ.gets)
    (hs : σ'.chan.seqid = σ.chan.seqid) (harr : σ'.arrived = σ.arrived) (hin : σ'.inq = σ.inq)
    (hsent : σ'.sent = σ.sent ∨ ∃ n j, act = .write n (.sent j)) : Fields σ σ' act :=
  ⟨by rw [h, hg, Nat.add_zero], by rw [hs, hg]; exact (BitVec.add_zero _).symm, by rw [harr, ha, List.append_nil],
    by rw [hin, ha]; exact (List.append_nil _).symm, hsent⟩

theorem fields (h : Base cfg ok σ) (he : act.Allowed cfg σ) (hx : act.exec cfg σ = some σ')
    (hact : ¬act.Receiving) : Fields σ σ' act := by
  cases act with
  | msgGet alloc msgtype msglen payloadlen payload =>
      obtain ⟨lists, pending, hS⟩ := h.sound
      simp only [Action.exec, Option.bind_eq_bind, Option.bind_eq_some_iff] at hx
      obtain ⟨⟨c, a⟩, hget, hx⟩ := hx
      obtain rfl := Option.some.inj hx
      obtain ⟨-, -, q, -, -, -, -, -, hseq, -⟩ := msgGet_spec hS he.1 hget
      exact ⟨rfl, hseq, (List.append_nil _).symm, (List.append_nil _).symm, .inl rfl⟩
  | edit a msglen payloadlen status body payload =>
      simp only [Action.exec, Option.bind_eq_bind, Option.bind_eq_some_iff] at hx
      obtain ⟨_, _, hx⟩ := hx
      obtain rfl := Option.some.inj hx
      exact .of_eq rfl rfl rfl rfl rfl rfl (.inl rfl)
  | msgPut a =>
      simp only [Action.exec, Option.bind_eq_bind, Option.bind_eq_some_iff] at hx
      obtain ⟨c, hput, hx⟩ := hx
      obtain rfl := Option.some.inj hx
      obtain ⟨q, hq, hqu⟩ := he
      have hu : ∀ n, q.use ≠ .request n := fun n => by
        rcases hqu with hqu | hqu | ⟨res, hqu⟩ <;> simp [hqu]
      exact .of_eq rfl rfl rfl (h.put_keeps hq hu hput).seqid rfl rfl (.inl rfl)
  | request n a =>
      obtain ⟨m, -, -, ⟨-, rfl⟩ | ⟨-, m', rfl, rfl⟩⟩ := State.request_cases hx
      · exact .of_eq rfl rfl rfl rfl rfl rfl (.inl rfl)
      · rcases State.lock_cases _ n a .request _ with ⟨-, e⟩ | ⟨-, e⟩ <;> rw [e] <;>
          exact .of_eq rfl rfl rfl rfl rfl rfl (.inl rfl)
  | response n a =>
      obtain ⟨-, q, hq, hqu, -⟩ := he
      obtain ⟨m, hm, -, ⟨-, l, c, -, hput, rfl⟩ | ⟨-, m', rfl, rfl⟩⟩ := State.response_cases hx
      · obtain rfl := Option.some.inj (hm.symm.trans hq)
        exact .of_eq rfl rfl rfl (h.put_keeps hm (by simp [hqu]) hput).seqid rfl rfl (.inl rfl)
      · rcases State.lock_cases _ n a .response _ with ⟨-, e⟩ | ⟨-, e⟩ <;> rw [e] <;>
          exact .of_eq rfl rfl rfl rfl rfl rfl (.inl rfl)
  | resume n =>
      obtain ⟨k, a, m, -, -, -, rfl⟩ := State.resume_cases hx
      exact .of_eq rfl rfl rfl rfl rfl rfl (.inl rfl)
  | write n r =>
      obtain ⟨k, a, part, rest, hpc, ⟨-, rfl⟩ | ⟨res, -, rfl⟩ |
        ⟨j, m, rfl, -, ⟨part', rest', -, rfl⟩ | ⟨-, hx⟩⟩⟩ := State.write_cases hx
      · exact .of_eq rfl rfl rfl rfl rfl rfl (.inl rfl)
      · exact .of_eq rfl rfl rfl rfl rfl rfl (.inl rfl)
      · exact .of_eq rfl rfl rfl rfl rfl rfl (.inr ⟨n, j, rfl⟩)
      · obtain ⟨l, -, ⟨-, p, -, rfl⟩ | ⟨rfl, c, hput, rfl⟩⟩ := State.complete_cases hx
        · exact .of_eq rfl rfl rfl rfl rfl rfl (.inr ⟨n, j, rfl⟩)
        · exact .of_eq rfl rfl rfl (h.response_keeps (n := n) (by rw [hpc]; rfl) hput).seqid rfl rfl
            (.inr ⟨n, j, rfl⟩)
  | unlock n =>
      obtain ⟨k, a, res, l, hpc, -, ⟨-, p, -, rfl⟩ | ⟨rfl, c, hput, rfl⟩⟩ := State.unlock_cases hx
      · exact .of_eq rfl rfl rfl rfl rfl rfl (.inl rfl)
      · exact .of_eq rfl rfl rfl (h.response_keeps (n := n) (by rw [hpc]; rfl) hput).seqid rfl rfl
          (.inl rfl)
  | wake n =>
      obtain ⟨a, p, -, -, -, rfl⟩ := State.wake_cases hx
      exact .of_eq rfl rfl rfl rfl rfl rfl (.inl rfl)
  | close =>
      obtain rfl := Option.some.inj hx
      exact .of_eq rfl rfl rfl rfl rfl rfl (.inl rfl)
  | deinit n =>
      obtain ⟨st, p, -, rfl⟩ := deinit_cases hx he
      exact .of_eq rfl rfl rfl rfl rfl rfl (.inl rfl)
  | drained n =>
      rw [drained_cases hx]
      exact .of_eq rfl rfl rfl rfl rfl rfl (.inl rfl)
  | arrive bs =>
      obtain rfl := Option.some.inj hx
      refine ⟨rfl, (BitVec.add_zero _).symm, rfl, ?_, .inl rfl⟩
      simp only [Action.arrives, List.flatten_cons, List.flatten_nil, List.append_nil]
  | _ => exact absurd trivial hact

end Rpc

end VmwareProto
