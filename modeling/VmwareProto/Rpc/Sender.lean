import VmwareProto.Rpc.Framing
import VmwareProto.Rpc.Messages
import VmwareProto.Rpc.MsgPool
/-!
# One response, followed through a run

A task in `rpc_response` with a message that has no payload, on a channel
that others use at the same time. It waits for the lock, writes the header
in as many parts as the connection takes, and puts the message; or a write
fails and it closes the channel and puts the message.
-/

namespace VmwareProto

namespace Rpc

open Libtask

/-! ## One task's part in a run -/

/-- What is left of the write a task is in. -/
def Pc.rest : Pc → List Byte
  | .send _ _ _ rest => rest
  | _ => []

/-- What task `n` writes to `outfd` with a step. -/
def Action.wrote (n : TaskId) (σ : State) : Action → List Byte
  | .write t (.sent j) => if t = n then (σ.pc n).rest.take j else []
  | _ => []

/-- The write has failed. -/
def WriteResult.isError : WriteResult → Bool
  | .zero => true
  | .error _ => true
  | _ => false

/-- A write of task `n` fails. -/
def Action.fails (n : TaskId) : Action → Bool
  | .write t r => if t = n then r.isError else false
  | _ => false

/-- A channel, and what task `n` did on it. -/
structure Watch where
  σ : State
  /-- the bytes it wrote -/
  wrote : List Byte
  /-- how often it put the message -/
  puts : ℕ
  /-- one of its writes failed -/
  failed : Bool

/-- Task `n` is watched with the message in `a`. -/
def Watch.next (n : TaskId) (a : Addr) (w : Watch) (act : Action) (σ' : State) : Watch where
  σ := σ'
  wrote := w.wrote ++ act.wrote n w.σ
  puts := w.puts + if act.task = some n ∧ (σ'.chan.msgs a).isNone = true then 1 else 0
  failed := w.failed || act.fails n

/-- The channel from `σ₁` on, until task `n` is out of its call, and the
others for ever. A response that starts on a disabled channel aborts the
process and is left out. -/
def watchSystem (cfg : Cfg) (n : TaskId) (a : Addr) (σ₁ : State) : System Watch Action where
  init w := w = ⟨σ₁, [], 0, false⟩
  enabled w act := (channelSystem cfg).enabled w.σ act ∧ OnTime w.σ act ∧
    (act.task = some n → (w.σ.pc n).call ≠ none)
  exec w act := (act.exec cfg w.σ).map (w.next n a act)

/-- The task has a way of its own to the end of its call. -/
def CanReturn (cfg : Cfg) (n : TaskId) (a : Addr) (σ₁ : State) (w : Watch) : Prop :=
  ∃ as w', (watchSystem cfg n a σ₁).Steps w as w' ∧ (∀ act ∈ as, act.task = some n) ∧
    w'.σ.pc n = .idle

/-- **Task `n` sends `bytes`** and returns: none of its steps faults; while it
has the message, that has no buffers but its own; when it returns it has put
it, once, and written `bytes`, if its writes were not refused; and it can
always go on to there, when it is not queued for the lock. -/
structure Sends (cfg : Cfg) (n : TaskId) (a : Addr) (σ₁ : State) (bytes : List Byte) (w : Watch) :
    Prop where
  runs : ∀ act, (watchSystem cfg n a σ₁).enabled w act → act.task = some n →
    (act.exec cfg w.σ).isSome = true
  holds : w.σ.pc n ≠ .idle → w.puts = 0 ∧ ∃ m, w.σ.chan.msgs a = some m ∧ m.use = .response n ∧
    m.payload = none ∧ m.resp = none
  written : w.wrote <+: bytes
  returned : w.σ.pc n = .idle → w.puts = 1 ∧ (w.failed = false → w.wrote = bytes)
  ends : n ∉ w.σ.chan.fdlock.waiting → CanReturn cfg n a σ₁ w

variable {cfg : Cfg} {σ σ₁ σ' : State} {w w' : Watch} {n : TaskId} {a : Addr} {m : Msg} {c : Channel}
  {act : Action} {h : MsgHdr} {body : List Byte}

/-! ## The response, step by step -/

/-- The header and what is behind it in the buffer, as they are sent. -/
def responseBytes (h : MsgHdr) (body : List Byte) : List Byte := (h.encode ++ body).take h.len

theorem decode_responseBytes (hle : hdrSize ≤ h.len) : MsgHdr.decode (responseBytes h body) = h := by
  rw [responseBytes, MsgHdr.decode_take hle, MsgHdr.decode_encode]

theorem isMessage_responseBytes (hle : hdrSize ≤ h.len) (hbuf : h.len ≤ hdrSize + body.length)
    (hz : h.plen = 0) : IsMessage (responseBytes h body) := by
  have hdec : MsgHdr.decode (responseBytes h body) = h := decode_responseBytes hle
  refine ⟨by rw [hdec]; exact hle, ?_⟩
  rw [hdec, hz, responseBytes, List.length_take, List.length_append, MsgHdr.length_encode]
  omega

/-- Where a task is that sends `bytes` from the buffer `a`, without payload. -/
inductive Stage (n : TaskId) (a : Addr) (bytes : List Byte) (w : Watch) : Prop
  | waits : w.σ.pc n = .lockWait .response a → w.wrote = [] → w.puts = 0 → w.failed = false →
      Stage n a bytes w
  | sends (rest : List Byte) : w.σ.pc n = .send .response a .header rest → rest ≠ [] →
      w.wrote ++ rest = bytes → w.puts = 0 → w.failed = false → Stage n a bytes w
  | fails (res : ℕ) : w.σ.pc n = .unlock .response a res → w.wrote <+: bytes → w.puts = 0 →
      w.failed = true → Stage n a bytes w
  | returned : w.σ.pc n = .idle → w.wrote <+: bytes → w.puts = 1 →
      (w.failed = false → w.wrote = bytes) → Stage n a bytes w

/-- What is kept of a task that sends the header `h` and `body`. -/
structure Sending (cfg : Cfg) (n : TaskId) (a : Addr) (h : MsgHdr) (body : List Byte) (w : Watch) :
    Prop where
  reach : ((channelSystem cfg).only OnTime).Reachable w.σ
  stage : Stage n a (responseBytes h body) w
  message : w.σ.pc n ≠ .idle →
    ∃ m, w.σ.chan.msgs a = some m ∧ m.hdr = h ∧ m.body = body ∧ m.payload = none

theorem Stage.call {bytes : List Byte} (hs : Stage n a bytes w) (hn : w.σ.pc n ≠ .idle) :
    (w.σ.pc n).call = some (.response, a) := by
  cases hs with
  | waits hpc => rw [hpc]; rfl
  | sends rest hpc => rw [hpc]; rfl
  | fails res hpc => rw [hpc]; rfl
  | returned hpc => exact absurd hpc hn

theorem Stage.not_asleep {bytes : List Byte} (hs : Stage n a bytes w) {b : Addr} :
    w.σ.pc n ≠ .asleep b := by
  intro hb
  cases hs with
  | waits hpc => rw [hpc] at hb; cases hb
  | sends rest hpc => rw [hpc] at hb; cases hb
  | fails res hpc => rw [hpc] at hb; cases hb
  | returned hpc => rw [hpc] at hb; cases hb

/-- **What the task can do** in its call. -/
theorem Stage.own_cases {bytes : List Byte} (hs : Stage n a bytes w) (he : act.Allowed cfg w.σ)
    (ht : act.task = some n) (hc : (w.σ.pc n).call ≠ none) :
    act = .resume n ∨ (∃ r, act = .write n r) ∨ act = .unlock n := by
  have hne : w.σ.pc n ≠ .idle := by
    intro hpc
    rw [hpc] at hc
    exact hc rfl
  cases act with
  | request t b =>
      obtain rfl := Option.some.inj ht
      exact absurd he.1 hne
  | response t b =>
      obtain rfl := Option.some.inj ht
      exact absurd he.1 hne
  | deinit t =>
      obtain rfl := Option.some.inj ht
      exact absurd he hne
  | drained t =>
      obtain rfl := Option.some.inj ht
      rw [he.1] at hc
      exact absurd rfl hc
  | wake t =>
      obtain rfl := Option.some.inj ht
      obtain ⟨b, hb⟩ := he
      have hcall := hs.call hne
      rw [hb] at hcall
      cases hcall
  | resume t =>
      obtain rfl := Option.some.inj ht
      exact .inl rfl
  | write t r =>
      obtain rfl := Option.some.inj ht
      exact .inr (.inl ⟨r, rfl⟩)
  | unlock t =>
      obtain rfl := Option.some.inj ht
      exact .inr (.inr rfl)
  | _ => cases ht

/-- Steps that are not the task's show nothing of it. -/
theorem wrote_other (ht : act.task ≠ some n) : act.wrote n σ = [] ∧ act.fails n = false := by
  cases act with
  | write t r =>
      have htn : t ≠ n := fun e => ht (congrArg some e)
      refine ⟨?_, if_neg htn⟩
      cases r with
      | sent j => exact if_neg htn
      | _ => rfl
  | _ => exact ⟨rfl, rfl⟩

/-- Steps of others leave the task where it is. -/
theorem Sending.other (hS : Sending cfg n a h body w) (he : act.Allowed cfg w.σ)
    (hx : act.exec cfg w.σ = some σ') (ht : act.task ≠ some n)
    (hr : ((channelSystem cfg).only OnTime).Reachable σ') :
    Sending cfg n a h body (w.next n a act σ') := by
  have hB := base_reachable hS.reach.of_only
  have hpc : σ'.pc n = w.σ.pc n := by
    rcases pc_other hB (fun h => h) he hx ht with hpc | ⟨b, hb, -⟩
    · exact hpc
    · exact absurd hb hS.stage.not_asleep
  obtain ⟨hwrote, hfails⟩ := wrote_other (σ := w.σ) ht
  have hw : (w.next n a act σ').wrote = w.wrote := by
    rw [Watch.next, hwrote, List.append_nil]
  have hp : (w.next n a act σ').puts = w.puts := by
    simp only [Watch.next, ht, false_and, if_false, Nat.add_zero]
  have hf : (w.next n a act σ').failed = w.failed := by
    rw [Watch.next, hfails, Bool.or_false]
  have hpc' : (w.next n a act σ').σ.pc n = w.σ.pc n := hpc
  refine ⟨hr, ?_, fun hn => ?_⟩
  · cases hS.stage with
    | waits h₁ h₂ h₃ h₄ =>
        exact .waits (hpc'.trans h₁) (hw.trans h₂) (hp.trans h₃) (hf.trans h₄)
    | sends rest h₁ h₂ h₃ h₄ h₅ =>
        exact .sends rest (hpc'.trans h₁) h₂ (hw ▸ h₃) (hp.trans h₄) (hf.trans h₅)
    | fails res h₁ h₂ h₃ h₄ =>
        exact .fails res (hpc'.trans h₁) (hw ▸ h₂) (hp.trans h₃) (hf.trans h₄)
    | returned h₁ h₂ h₃ h₄ =>
        exact .returned (hpc'.trans h₁) (hw ▸ h₂) (hp.trans h₃) fun h => by
          rw [hw]
          exact h₄ (hf ▸ h)
  · have hn' : w.σ.pc n ≠ .idle := hpc' ▸ hn
    obtain ⟨m, hm, hh, hb, hpay⟩ := hS.message hn'
    obtain ⟨m', hm', hh', hb', hpay'⟩ := msg_other hB (fun h => h) he hx ht (hS.stage.call hn') hm
    exact ⟨m', hm', hh'.trans hh, hb'.trans hb, hpay'.trans hpay⟩

theorem responseBytes_ne_nil (hle : hdrSize ≤ h.len) : responseBytes h body ≠ [] := by
  rw [← List.length_pos_iff, responseBytes, List.length_take, List.length_append, MsgHdr.length_encode]
  have : 0 < hdrSize := by decide
  omega

theorem Msg.hdrBytes_eq (hh : m.hdr = h) (hb : m.body = body) : m.hdrBytes = responseBytes h body := by
  rw [hdrBytes, hh, hb, responseBytes]

/-- A put that a step of the task ends with. -/
theorem Sending.put (hS : Sending cfg n a h body w) {l : QLock}
    (hput : Channel.msgPut cfg { w.σ.chan with fdlock := l } a = some c)
    (hcall : (w.σ.pc n).call = some (.response, a)) : c.msgs a = none := by
  rw [Option.eq_none_iff_forall_ne_some]
  intro m hm
  exact ((base_reachable hS.reach.of_only).of_put_response hcall hput hm).2 rfl

/-- **One write of the task.** -/
theorem Sending.write {r : WriteResult} (hS : Sending cfg n a h body w)
    (hx : w.σ.write cfg n r = some σ') (hr : ((channelSystem cfg).only OnTime).Reachable σ') :
    Sending cfg n a h body (w.next n a (.write n r) σ') := by
  obtain ⟨k, b, part, rest₀, hpc, hw⟩ := State.write_cases hx
  have hne : w.σ.pc n ≠ .idle := by
    rw [hpc]
    exact Pc.noConfusion
  obtain ⟨m, hm, hh, hb, hpay⟩ := hS.message hne
  have hcall := hS.stage.call hne
  cases hS.stage with
  | waits h₁ => rw [hpc] at h₁; cases h₁
  | fails res h₁ => rw [hpc] at h₁; cases h₁
  | returned h₁ => exact absurd h₁ hne
  | sends rest h₁ hrest hbytes hputs hfailed =>
      rw [hpc] at h₁
      obtain ⟨rfl, rfl, rfl, rfl⟩ := Pc.send.inj h₁.symm
      have hpre : w.wrote <+: responseBytes h body := ⟨rest, hbytes⟩
      rcases hw with ⟨rfl, rfl⟩ | ⟨res, hres, rfl⟩ | ⟨j, m', rfl, hm', hw⟩
      · refine ⟨hr, .sends rest hpc hrest ?_ ?_ ?_, hS.message⟩
        · simpa only [Watch.next, Action.wrote, List.append_nil] using hbytes
        · simp only [Watch.next, hm, Option.isNone_some, Bool.false_eq_true, and_false, if_false, hputs]
        · simp only [Watch.next, hfailed, Action.fails, WriteResult.isError, if_true, Bool.or_self]
      · have hfail : Action.fails n (.write n r) = true ∧ Action.wrote n w.σ (.write n r) = [] := by
          rcases hres with ⟨rfl, -⟩ | rfl
          · exact ⟨if_pos rfl, rfl⟩
          · exact ⟨if_pos rfl, rfl⟩
        refine ⟨hr, .fails res (Function.update_self ..) ?_ ?_ ?_, fun _ => ⟨m, hm, hh, hb, hpay⟩⟩
        · simpa only [Watch.next, hfail.2, List.append_nil] using hpre
        · have hsome : (w.σ.fail n a .response res).chan.msgs a = some m := hm
          simp only [Watch.next, hsome, Option.isNone_some, Bool.false_eq_true, and_false, if_false,
            hputs]
        · simp only [Watch.next, hfail.1, Bool.or_true]
      · obtain rfl := Option.some.inj (hm.symm.trans hm')
        have hwrote : Action.wrote n w.σ (.write n (.sent j)) = rest.take j := by
          simp only [Action.wrote, if_true, hpc, Pc.rest]
        have hfails : (w.next n a (.write n (.sent j)) σ').failed = false := by
          simp only [Watch.next, hfailed, Action.fails, WriteResult.isError, if_true, Bool.or_self]
        rcases hw with ⟨part', rest', hleft, rfl⟩ | ⟨hleft, hx⟩
        · -- more of it is left
          have hdrop : rest.drop j ≠ [] ∧ part' = .header ∧ rest' = rest.drop j := by
            cases hd : rest.drop j with
            | nil =>
                rw [hd, State.left, hpay] at hleft
                cases hleft
            | cons x xs =>
                rw [hd] at hleft
                obtain ⟨rfl, rfl⟩ := Prod.mk.inj (Option.some.inj hleft)
                exact ⟨List.cons_ne_nil x xs, rfl, rfl⟩
          obtain ⟨hd, rfl, rfl⟩ := hdrop
          refine ⟨hr, .sends (rest.drop j) (Function.update_self ..) hd ?_ ?_ hfails,
            fun _ => ⟨m, hm, hh, hb, hpay⟩⟩
          · simp only [Watch.next, hwrote]
            rw [List.append_assoc, List.take_append_drop, hbytes]
          · simp only [Watch.next, hm, Option.isNone_some, Bool.false_eq_true, and_false, if_false,
              hputs]
        · have hd : rest.drop j = [] := by
            cases hd : rest.drop j with
            | nil => rfl
            | cons x xs =>
                rw [hd] at hleft
                cases hleft
          have hall : (w.next n a (.write n (.sent j)) σ').wrote = responseBytes h body := by
            have htake := List.take_append_drop j rest
            rw [hd, List.append_nil] at htake
            simp only [Watch.next, hwrote, htake, hbytes]
          obtain ⟨l, -, ⟨hk, -⟩ | ⟨-, c, hput, rfl⟩⟩ := State.complete_cases hx
          · cases hk
          · have hnone : c.msgs a = none := hS.put hput hcall
            refine ⟨hr, .returned (Function.update_self ..) (hall ▸ List.prefix_rfl) ?_
              fun _ => hall, fun hn => absurd (Function.update_self ..) hn⟩
            simp only [Watch.next, hnone, Option.isNone_none, Action.task, and_self, if_true, hputs,
              Nat.zero_add]

/-- The task runs on with the lock. -/
theorem Sending.resume (hS : Sending cfg n a h body w) (hle : hdrSize ≤ h.len)
    (hx : w.σ.resume n = some σ') (hr : ((channelSystem cfg).only OnTime).Reachable σ') :
    Sending cfg n a h body (w.next n a (.resume n) σ') := by
  obtain ⟨k, b, m', hpc, hm', -, rfl⟩ := State.resume_cases hx
  have hne : w.σ.pc n ≠ .idle := by
    rw [hpc]
    exact Pc.noConfusion
  obtain ⟨m, hm, hh, hb, hpay⟩ := hS.message hne
  cases hS.stage with
  | sends rest h₁ => rw [hpc] at h₁; cases h₁
  | fails res h₁ => rw [hpc] at h₁; cases h₁
  | returned h₁ => exact absurd h₁ hne
  | waits h₁ hwrote hputs hfailed =>
      rw [hpc] at h₁
      obtain ⟨rfl, rfl⟩ := Pc.lockWait.inj h₁.symm
      obtain rfl := Option.some.inj (hm.symm.trans hm')
      have hbytes := Msg.hdrBytes_eq hh hb
      refine ⟨hr, .sends (responseBytes h body) ?_ (responseBytes_ne_nil hle) ?_ ?_ ?_,
        fun _ => ⟨m, hm, hh, hb, hpay⟩⟩
      · rw [← hbytes]
        exact Function.update_self ..
      · simp only [Watch.next, hwrote, Action.wrote, List.nil_append]
      · simp only [Watch.next, hm, Option.isNone_some, Bool.false_eq_true, and_false, if_false, hputs]
      · simp only [Watch.next, hfailed, Action.fails, Bool.or_self]

/-- The error path ends. -/
theorem Sending.unlock (hS : Sending cfg n a h body w) (hx : w.σ.unlock cfg n = some σ')
    (hr : ((channelSystem cfg).only OnTime).Reachable σ') :
    Sending cfg n a h body (w.next n a (.unlock n) σ') := by
  obtain ⟨k, b, res, l, hpc, -, hk⟩ := State.unlock_cases hx
  have hne : w.σ.pc n ≠ .idle := by
    rw [hpc]
    exact Pc.noConfusion
  have hcall := hS.stage.call hne
  cases hS.stage with
  | waits h₁ => rw [hpc] at h₁; cases h₁
  | sends rest h₁ => rw [hpc] at h₁; cases h₁
  | returned h₁ => exact absurd h₁ hne
  | fails res' h₁ hpre hputs hfailed =>
      rw [hpc] at h₁
      obtain ⟨rfl, rfl, rfl⟩ := Pc.unlock.inj h₁.symm
      obtain ⟨hk, -⟩ | ⟨-, c, hput, rfl⟩ := hk
      · cases hk
      · have hnone : c.msgs a = none := hS.put hput hcall
        refine ⟨hr, .returned (Function.update_self ..) ?_ ?_ fun hf => ?_,
          fun hn => absurd (Function.update_self ..) hn⟩
        · simpa only [Watch.next, Action.wrote, List.append_nil] using hpre
        · simp only [Watch.next, hnone, Option.isNone_none, Action.task, and_self, if_true, hputs,
            Nat.zero_add]
        · simp only [Watch.next, hfailed, Bool.true_or] at hf
          cases hf

/-- **The step lemma**, for the task's own steps. -/
theorem Sending.own (hS : Sending cfg n a h body w) (hle : hdrSize ≤ h.len)
    (he : act.Allowed cfg w.σ) (hx : act.exec cfg w.σ = some σ') (ht : act.task = some n)
    (hc : (w.σ.pc n).call ≠ none) (hr : ((channelSystem cfg).only OnTime).Reachable σ') :
    Sending cfg n a h body (w.next n a act σ') := by
  rcases hS.stage.own_cases he ht hc with rfl | ⟨r, rfl⟩ | rfl
  · exact hS.resume hle hx hr
  · exact hS.write hx hr
  · exact hS.unlock hx hr

/-- **The run lemma.** -/
theorem sending_reachable (hS : Sending cfg n a h body ⟨σ₁, [], 0, false⟩) (hle : hdrSize ≤ h.len)
    (hr : (watchSystem cfg n a σ₁).Reachable w) : Sending cfg n a h body w := by
  refine hr.invariant (fun w hw => ?_) fun w act w' hS he hx => ?_
  · obtain rfl := hw
    exact hS
  · obtain ⟨σ', hx', rfl⟩ := Option.map_eq_some_iff.1 hx
    obtain ⟨he, htime, hcall⟩ := he
    have hr' := hS.reach.step ⟨he, htime⟩ hx'
    by_cases ht : act.task = some n
    · exact hS.own hle he.2 hx' ht (hcall ht) hr'
    · exact hS.other he.2 hx' ht hr'

/-! ## To the end of the call -/

/-- `RPC_CHAN_UNLOCK` and `rpc_msg_put`, by the task that has the lock. -/
theorem Sending.exists_leave (hS : Sending cfg n a h body w) (hne : w.σ.pc n ≠ .idle)
    (hhold : (w.σ.pc n).phase = .holding) :
    ∃ l c, w.σ.chan.fdlock.qunlock = some l ∧
      Channel.msgPut cfg { w.σ.chan with fdlock := l } a = some c := by
  have hB := base_reachable hS.reach.of_only
  have howner := (serves_reachable hS.reach).holds n hhold
  obtain ⟨m, hm, hu⟩ := hB.uses.call n .response a (hS.stage.call hne)
  have hfits := hB.uses.fits a m hm
  simp only [Msg.Fits, hu, Kind.use] at hfits
  obtain ⟨issued, hC⟩ := counted_reachable hS.reach.of_only
  obtain ⟨l, hl⟩ : ∃ l, w.σ.chan.fdlock.qunlock = some l := by
    rw [QLock.qunlock, howner]
    exact ⟨_, rfl⟩
  have hC' : Counted cfg { w.σ.chan with fdlock := l } issued := hC.congr ⟨rfl, rfl, rfl, fun _ => rfl⟩
  obtain ⟨c, hput, -⟩ := hC'.exists_put hm hfits.2.2
  exact ⟨l, c, hl, hput⟩

theorem Sending.exists_unlock (hS : Sending cfg n a h body w) {res : ℕ}
    (hpc : w.σ.pc n = .unlock .response a res) :
    ∃ σ', w.σ.unlock cfg n = some σ' ∧ σ'.pc n = .idle := by
  obtain ⟨l, c, hl, hput⟩ := hS.exists_leave (by rw [hpc]; exact Pc.noConfusion) (by rw [hpc]; rfl)
  refine ⟨{ w.σ with chan := c }.setPc n .idle, ?_, Function.update_self ..⟩
  simp only [State.unlock, hpc, Channel.unlock, hl, Option.map_some, Option.bind_eq_bind,
    Option.bind_some, hput]

/-- A write that moves something ends the call, or is followed by another
one. -/
theorem Sending.exists_sent (hS : Sending cfg n a h body w) {rest : List Byte} (j : ℕ)
    (hpc : w.σ.pc n = .send .response a .header rest) :
    ∃ σ', w.σ.write cfg n (.sent j) = some σ' ∧ (rest.drop j = [] → σ'.pc n = .idle) := by
  have hne : w.σ.pc n ≠ .idle := by
    rw [hpc]
    exact Pc.noConfusion
  obtain ⟨m, hm, -, -, hpay⟩ := hS.message hne
  simp only [State.write, hpc, hm, Option.bind_eq_bind, Option.bind_some]
  cases hd : rest.drop j with
  | nil =>
      obtain ⟨l, c, hl, hput⟩ := hS.exists_leave hne (by rw [hpc]; rfl)
      refine ⟨{ w.σ with sent := w.σ.sent ++ rest.take j, chan := c }.setPc n .idle, ?_,
        fun _ => Function.update_self ..⟩
      simp only [State.left, hpay, Option.map_none, State.complete, Channel.unlock, hl,
        Option.map_some, Option.bind_eq_bind, Option.bind_some, hput]
  | cons x xs => exact ⟨_, rfl, fun h => absurd h (List.cons_ne_nil x xs)⟩

theorem Sending.exists_resume (hS : Sending cfg n a h body w)
    (hpc : w.σ.pc n = .lockWait .response a) (hw : n ∉ w.σ.chan.fdlock.waiting) :
    ∃ σ', w.σ.resume n = some σ' ∧ σ'.pc n = .send .response a .header (responseBytes h body) ∧
      σ'.chan = w.σ.chan := by
  obtain ⟨m, hm, hh, hb, -⟩ := hS.message (by rw [hpc]; exact Pc.noConfusion)
  have howner : w.σ.chan.fdlock.owner = some n :=
    ((serves_reachable hS.reach).waits n (by rw [hpc]; rfl)).resolve_left hw
  refine ⟨w.σ.startSend n a .response m, ?_, ?_, rfl⟩
  · simp only [State.resume, hpc, hm, Option.bind_eq_bind, Option.bind_some, howner, ne_eq,
      not_true_eq_false, if_false]
  · rw [← Msg.hdrBytes_eq hh hb]
    exact Function.update_self ..

/-- **No step of the task faults.** -/
theorem Sending.runs (hS : Sending cfg n a h body w) (he : act.Allowed cfg w.σ)
    (ht : act.task = some n) (hc : (w.σ.pc n).call ≠ none) : (act.exec cfg w.σ).isSome = true := by
  have hne : w.σ.pc n ≠ .idle := by
    intro hpc
    rw [hpc] at hc
    exact hc rfl
  have hcall := hS.stage.call hne
  rcases hS.stage.own_cases he ht hc with rfl | ⟨r, rfl⟩ | rfl
  · obtain ⟨k, b, hpc, hw⟩ := he
    rw [hpc] at hcall
    obtain ⟨rfl, rfl⟩ := Prod.mk.inj (Option.some.inj hcall)
    obtain ⟨σ', hx, -⟩ := hS.exists_resume hpc hw
    exact Option.isSome_iff_exists.2 ⟨σ', hx⟩
  · obtain ⟨k, b, part, rest, hpc, -⟩ := he
    cases r with
    | sent j =>
        cases hS.stage with
        | waits h₁ => rw [hpc] at h₁; cases h₁
        | fails res h₁ => rw [hpc] at h₁; cases h₁
        | returned h₁ => exact absurd h₁ hne
        | sends rest' h₁ =>
            obtain ⟨σ', hx, -⟩ := hS.exists_sent j h₁
            exact Option.isSome_iff_exists.2 ⟨σ', hx⟩
    | _ => simp only [Action.exec, State.write, hpc, Option.isSome_some]
  · obtain ⟨k, b, res, hpc⟩ := he
    rw [hpc] at hcall
    obtain ⟨rfl, rfl⟩ := Prod.mk.inj (Option.some.inj hcall)
    obtain ⟨σ', hx, -⟩ := hS.exists_unlock hpc
    exact Option.isSome_iff_exists.2 ⟨σ', hx⟩

/-- A step of the task, in the system that watches it. -/
theorem Sending.watch (hS : Sending cfg n a h body w) (σ₁ : State) (act : Action) (hle : hdrSize ≤ h.len)
    (hne : w.σ.pc n ≠ .idle) (he : act.Allowed cfg w.σ) (htime : OnTime w.σ act)
    (ht : act.task = some n) (hx : act.exec cfg w.σ = some σ') :
    (watchSystem cfg n a σ₁).enabled w act ∧
      (watchSystem cfg n a σ₁).exec w act = some (w.next n a act σ') ∧
      Sending cfg n a h body (w.next n a act σ') := by
  obtain ⟨m, hm, -⟩ := hS.message hne
  have hgone := state_ne_gone hS.reach.of_only hm
  have hc : (w.σ.pc n).call ≠ none := by
    rw [hS.stage.call hne]
    exact Option.some_ne_none _
  refine ⟨⟨⟨hgone, he⟩, htime, fun _ => hc⟩, ?_, ?_⟩
  · show (act.exec cfg w.σ).map (w.next n a act) = some (w.next n a act σ')
    rw [hx, Option.map_some]
  · exact hS.own hle he hx ht hc (hS.reach.step (a := act) ⟨⟨hgone, he⟩, htime⟩ hx)

theorem CanReturn.cons (ht : act.task = some n) (he : (watchSystem cfg n a σ₁).enabled w act)
    (hx : (watchSystem cfg n a σ₁).exec w act = some w') (h : CanReturn cfg n a σ₁ w') :
    CanReturn cfg n a σ₁ w := by
  obtain ⟨as, w'', hsteps, has, hidle⟩ := h
  refine ⟨act :: as, w'', .cons he hx hsteps, fun b hb => ?_, hidle⟩
  rcases List.mem_cons.1 hb with rfl | hb
  · exact ht
  · exact has b hb

theorem Sending.ends_unlock (hS : Sending cfg n a h body w) (hle : hdrSize ≤ h.len) (res : ℕ)
    (hpc : w.σ.pc n = .unlock .response a res) : CanReturn cfg n a σ₁ w := by
  have hne : w.σ.pc n ≠ .idle := by
    rw [hpc]
    exact Pc.noConfusion
  obtain ⟨σ', hx, hidle⟩ := hS.exists_unlock hpc
  obtain ⟨he, hx', -⟩ := hS.watch σ₁ (.unlock n) hle hne ⟨_, _, _, hpc⟩
    (fun _ _ e => by cases e) rfl hx
  exact .cons rfl he hx' ⟨[], _, .nil, fun _ hb => absurd hb List.not_mem_nil, hidle⟩

theorem Sending.ends_send (hS : Sending cfg n a h body w) (hle : hdrSize ≤ h.len)
    {rest : List Byte} (hrest : rest ≠ []) (hpc : w.σ.pc n = .send .response a .header rest) :
    CanReturn cfg n a σ₁ w := by
  have hne : w.σ.pc n ≠ .idle := by
    rw [hpc]
    exact Pc.noConfusion
  cases ho : w.σ.chan.isOpen with
  | true =>
      obtain ⟨σ', hx, hidle⟩ := hS.exists_sent rest.length hpc
      obtain ⟨he, hx', -⟩ := hS.watch σ₁ (.write n (.sent rest.length)) hle hne
        ⟨_, _, _, _, hpc, ho, List.length_pos_iff.2 hrest, le_rfl⟩ (fun _ _ e => by cases e) rfl hx
      exact .cons rfl he hx' ⟨[], _, .nil, fun _ hb => absurd hb List.not_mem_nil,
        hidle List.drop_length⟩
  | false =>
      have hx : (Action.write n (.error 1)).exec cfg w.σ = some (w.σ.fail n a .response 1) := by
        simp only [Action.exec, State.write, hpc]
      obtain ⟨he, hx', hS'⟩ := hS.watch σ₁ (.write n (.error 1)) hle hne
        ⟨_, _, _, _, hpc, Nat.one_ne_zero⟩ (fun _ _ e => by cases e) rfl hx
      exact .cons rfl he hx' (hS'.ends_unlock hle 1 (Function.update_self ..))

/-- **The call can end**, when the task is not queued for the lock. -/
theorem Sending.ends (hS : Sending cfg n a h body w) (hle : hdrSize ≤ h.len)
    (hw : n ∉ w.σ.chan.fdlock.waiting) : CanReturn cfg n a σ₁ w := by
  cases hS.stage with
  | returned hpc => exact ⟨[], w, .nil, fun _ hb => absurd hb List.not_mem_nil, hpc⟩
  | fails res hpc => exact hS.ends_unlock hle res hpc
  | sends rest hpc hrest => exact hS.ends_send hle hrest hpc
  | waits hpc =>
      have hne : w.σ.pc n ≠ .idle := by
        rw [hpc]
        exact Pc.noConfusion
      obtain ⟨σ', hx, hpc', -⟩ := hS.exists_resume hpc hw
      obtain ⟨he, hx', hS'⟩ := hS.watch σ₁ (.resume n) hle hne ⟨_, _, hpc, hw⟩
        (fun _ _ e => by cases e) rfl hx
      exact .cons rfl he hx' (hS'.ends_send hle (responseBytes_ne_nil hle) hpc')

/-- What is kept of a sending task is what it is to do. -/
theorem Sending.sends (hS : Sending cfg n a h body w) (hle : hdrSize ≤ h.len) :
    Sends cfg n a σ₁ (responseBytes h body) w := by
  refine ⟨fun act he ht => hS.runs he.1.2 ht (he.2.2 ht), fun hne => ?_, ?_, fun hpc => ?_,
    hS.ends hle⟩
  · obtain ⟨m, hm, -, -, hpay⟩ := hS.message hne
    have hU := (base_reachable hS.reach.of_only).uses
    obtain ⟨m', hm', hu⟩ := hU.call n .response a (hS.stage.call hne)
    obtain rfl := Option.some.inj (hm.symm.trans hm')
    have hfits := hU.fits a m hm
    simp only [Msg.Fits, hu, Kind.use] at hfits
    refine ⟨?_, m, hm, hu, hpay, hfits.2.2⟩
    cases hS.stage with
    | waits _ _ hp => exact hp
    | sends _ _ _ _ hp => exact hp
    | fails _ _ _ hp => exact hp
    | returned hpc => exact absurd hpc hne
  · cases hS.stage with
    | waits _ hw => exact hw ▸ List.nil_prefix
    | sends rest _ _ hb => exact ⟨rest, hb⟩
    | fails _ _ hw => exact hw
    | returned _ hw => exact hw
  · cases hS.stage with
    | waits h₁ => rw [hpc] at h₁; cases h₁
    | sends _ h₁ => rw [hpc] at h₁; cases h₁
    | fails _ h₁ => rw [hpc] at h₁; cases h₁
    | returned _ _ hp hf => exact ⟨hp, hf⟩

/-- **A response without payload starts**: the task is past the lock, or
waits for it. -/
theorem sending_start {σ : State} (hr : ((channelSystem cfg).only OnTime).Reachable σ)
    (hm : σ.chan.msgs a = some m) (hn : σ.pc n = .idle) (hen : σ.chan.enabled = true)
    (hu : m.use = .handed) (hcc : m.hdr.isConnClosed = false) (has : m.Asserts) (hin : m.InBuffers)
    (hpay : m.payload = none) :
    ∃ σ₁, σ.response cfg n a = some σ₁ ∧
      Sending cfg n a m.hdr.setResp m.body ⟨σ₁, [], 0, false⟩ := by
  obtain ⟨m', hm', hh, hb, hp⟩ : ∃ m', m' = { m with hdr := m.hdr.setResp, use := .response n } ∧
      m'.hdr = m.hdr.setResp ∧ m'.body = m.body ∧ m'.payload = none := ⟨_, rfl, rfl, rfl, hpay⟩
  obtain ⟨σ₀, hσ₀⟩ : ∃ σ₀, σ₀ = { σ with chan := σ.chan.setMsg a m' } := ⟨_, rfl⟩
  have hx : σ.response cfg n a = some (σ₀.lock n a .response m') := by
    simp only [State.response, hm, Option.bind_eq_bind, Option.bind_some, has, not_true_eq_false,
      if_false, hen, Bool.true_eq_false, hσ₀, hm']
  have hallowed : (Action.response n a).Allowed cfg σ := ⟨hn, m, hm, hu, hcc, hin⟩
  have hr₁ := hr.step ⟨⟨state_ne_gone hr.of_only hm, hallowed⟩, fun _ _ _ => hen⟩ hx
  have hchan : (σ₀.lock n a .response m').chan.msgs a = some m' := by
    rw [lock_chan, hσ₀]
    exact Function.update_self ..
  refine ⟨_, hx, hr₁, ?_, fun _ => ⟨m', hchan, hh, hb, hp⟩⟩
  rcases State.lock_cases σ₀ n a .response m' with ⟨-, h⟩ | ⟨-, h⟩
  · have hle : hdrSize ≤ m.hdr.setResp.len := has.1
    refine .sends (responseBytes m.hdr.setResp m.body) ?_ (responseBytes_ne_nil hle) (List.nil_append _) rfl rfl
    rw [h, ← Msg.hdrBytes_eq hh hb]
    exact Function.update_self ..
  · refine .waits ?_ rfl rfl rfl
    rw [h]
    exact Function.update_self ..

end Rpc

end VmwareProto
