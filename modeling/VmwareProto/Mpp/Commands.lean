import VmwareProto.Mpp.Matching
import VmwareProto.Mpp.Lists
/-!
# What becomes of a command

A command is with its issuer until the issue returns, then with the request
that is in the hash, then with the worker that found the response. Two
ledgers follow it. When the receive thread returns nothing more is received,
so the requests that have no response by then stay in the hash, and their
commands are never completed: the channel is to be lost at no such time.
-/

namespace VmwareProto

namespace Mpp

variable {cfg : Cfg} {σ σ' : State} {act : Action} {x y : Actor} {a b : Addr} {m r : Msg} {q : Pc}
  {n : ℕ} {e : CmdId}

/-! ## Who has a command -/

/-- The request of an issue that has not returned. -/
def Pc.issuing : Pc → Option Addr
  | .got .request a | .checked .request a | .send .request a _ _ | .unlock .request a
  | .failing .request a _ | .put .request a => some a
  | _ => none

/-- A worker is completing a command. -/
def Pc.completes : Pc → Bool
  | .found _ _ | .finish _ _ _ | .done _ _ => true
  | _ => false

/-- The command a worker completes. -/
def Pc.command (cmd : Addr → Option CmdId) : Pc → Option CmdId
  | .found a _ => cmd a
  | .finish _ e _ | .done e _ => some e
  | _ => none

/-- The command of a request. -/
def State.cmd (σ : State) (a : Addr) : Option CmdId := (σ.chan.msgs a).map Msg.exCmd

/-- Where an accepted command is: with a request in the hash, or a worker. -/
def State.Completing (σ : State) : Addr ⊕ ℕ → Prop
  | .inl a => σ.uses a = some .pending
  | .inr n => (σ.pc (.worker n)).completes = true

/-- And which command that is. -/
def State.completing (σ : State) : Addr ⊕ ℕ → Option CmdId
  | .inl a => σ.cmd a
  | .inr n => (σ.pc (.worker n)).command σ.cmd

/-- A response waits to be matched. -/
def State.Awaited (σ : State) (b : Addr) : Prop :=
  σ.Waiting b ∧ ∃ f, σ.frames b = some f ∧ f.hdr.isConnClosed = false

/-- **As many requests are in the hash as responses wait to be matched.** -/
def State.Balanced (σ : State) : Prop :=
  ∃ ks : List Addr, ks.Nodup ∧ (∀ b, b ∈ ks ↔ σ.Awaited b) ∧ σ.chan.count = ks.length

theorem Pc.held_of_issuing {p : Pc} (h : p.issuing = some a) : a ∈ p.held := by
  cases p with
  | got k b | checked k b | send k b part rest | unlock k b | failing k b s | put k b =>
      cases k with
      | request =>
          rw [← Option.some.inj h]
          exact List.mem_singleton_self _
      | response => cases h
  | _ => cases h

/-- **The commands** of a channel. -/
structure Commands (σ : State) : Prop where
  issued : σ.issued.Nodup
  /-- an issued command is with its issuer, or its issue has returned -/
  issuing : Ledger (fun x => (σ.pc x).issuing ≠ none) (fun x => (σ.pc x).issuing.bind σ.cmd)
    (σ.issued.map some) ((σ.accepted ++ σ.rejected).map some)
  /-- an accepted command is with a request or a worker, or completed -/
  completing : Ledger σ.Completing σ.completing (σ.accepted.map some) (σ.completed.map some)
  workers : ∀ x, (σ.pc x).answering ≠ none → ∃ n, x = .worker n
  /-- after the receive thread -/
  balanced : σ.pc .receiver = .left → σ.Balanced

/-- **A message that stays a message** keeps its command. -/
theorem Step.cmd (hs : Step cfg σ act σ') (h : Base cfg σ) (ha : σ.chan.msgs a ≠ none)
    (ha' : σ'.chan.msgs a ≠ none) : σ'.cmd a = σ.cmd a := by
  obtain ⟨m, hm⟩ := Option.ne_none_iff_exists'.1 ha
  rcases hs.kept h hm with ⟨m', hm', he, -⟩ | ⟨hnone, -⟩
  · rw [State.cmd, State.cmd, hm, hm', Option.map_some, Option.map_some, he]
  · exact absurd hnone ha'

/-- What somebody has is a message. -/
theorem Base.held_msg (h : Base cfg σ) (ha : a ∈ (σ.pc x).held) : σ.chan.msgs a ≠ none :=
  fun e => h.nobody e x ha

theorem pending_msg (ha : σ.uses a = some .pending) : σ.chan.msgs a ≠ none := by
  intro e
  rw [State.uses, e] at ha
  cases ha

/-- A request is of a command of its own. -/
def Action.own (σ : State) : Action → Bool
  | .get _ .request _ _ _ _ _ e => e ∉ σ.issued
  | _ => true

/-- What a run keeps to: no request fails to be sent, each issue is of a
command of its own, and the channel is lost when every request in the hash
has its response, after which no request is added. -/
structure LostQuietly (σ : State) (act : Action) : Prop where
  sends : Sends σ act
  own : act.own σ = true
  lost : ∀ j, act = .recvEnd j → σ.Balanced
  later : ∀ n a, act = .lock n → σ.pc (.world n) = .checked .request a → σ.pc .receiver ≠ .left

/-! ## Places that are alike -/

/-- The same work, and not that of a match. -/
structure Pc.Works (p q : Pc) : Prop where
  completes : q.completes = p.completes
  command : ∀ cmd, q.command cmd = p.command cmd
  apart : ∀ a b, p ≠ .found a b

/-- The same request, the same response, the same work. -/
structure Pc.Alike (p q : Pc) : Prop extends Pc.Works p q where
  issuing : q.issuing = p.issuing
  answering : q.answering = p.answering
  left : q = .left → p = .left

theorem Pc.command_none {p : Pc} {cmd : Addr → Option CmdId} (h : p.completes = false) :
    p.command cmd = none := by
  cases p with
  | found a b | finish a e s | done e s => cases h
  | _ => rfl

/-- No work on either side. -/
theorem Pc.Works.of_none {p q : Pc} (hp : p.completes = false) (hq : q.completes = false) :
    p.Works q := by
  refine ⟨hq.trans hp.symm, fun cmd => ?_, fun a b e => ?_⟩
  · rw [Pc.command_none hp, Pc.command_none hq]
  · rw [e] at hp
    cases hp

/-- What a put does to a command. -/
theorem Pc.putting_cases {p : Pc} (h : p.putting = some (a, q)) :
    (p = .put .request a ∧ q = .idle) ∨ p.Alike q ∧ ∀ m, p.rejects m = [] := by
  cases p with
  | put k b =>
      obtain ⟨rfl, rfl⟩ := Prod.mk.inj (Option.some.inj h)
      cases k with
      | request => exact .inl ⟨rfl, rfl⟩
      | response => exact .inr ⟨⟨.of_none rfl rfl, rfl, rfl, by simp⟩, fun _ => rfl⟩
  | finish b e s =>
      obtain ⟨rfl, rfl⟩ := Prod.mk.inj (Option.some.inj h)
      exact .inr ⟨⟨⟨rfl, fun _ => rfl, by simp⟩, rfl, rfl, by simp⟩, fun _ => rfl⟩
  | dropped b =>
      obtain ⟨rfl, rfl⟩ := Prod.mk.inj (Option.some.inj h)
      exact .inr ⟨⟨.of_none rfl rfl, rfl, rfl, by simp⟩, fun _ => rfl⟩
  | _ => cases h

theorem sending_alike (k : Kind) (a : Addr) (f : Frame) (part : Part) (rest : List Byte) :
    (Pc.sending k a f part rest).completes = false ∧ (Pc.sending k a f part rest).answering = none ∧
      Pc.sending k a f part rest ≠ .left ∧
      (Pc.sending k a f part rest).issuing = if k = .request then some a else none := by
  rcases sending_cases k a f part rest with ⟨part', rest', e⟩ | e
  · rw [e]
    cases k <;> exact ⟨rfl, rfl, by simp, rfl⟩
  · rw [e]
    cases k <;> exact ⟨rfl, rfl, by simp, rfl⟩

section

variable (h : Commands σ) (hB : Base cfg σ) (hB' : Base cfg σ') (hs : Step cfg σ act σ')
include hB hB' hs

/-! ## The issues -/

/-- An actor that has the same request has the same command. -/
theorem issuing_same (hsame : (σ'.pc y).issuing = (σ.pc y).issuing) :
    (σ'.pc y).issuing.bind σ'.cmd = (σ.pc y).issuing.bind σ.cmd := by
  rw [hsame]
  cases ha : (σ.pc y).issuing with
  | none => rfl
  | some a =>
      have hnew : a ∈ (σ'.pc y).held := Pc.held_of_issuing (hsame.trans ha)
      exact hs.cmd hB (hB.held_msg (Pc.held_of_issuing ha)) (hB'.held_msg hnew)

include h

/-- No issue begins or ends. -/
theorem Commands.issuing_same (hpc : σ'.pc = Function.update σ.pc x q)
    (hq : q.issuing = (σ.pc x).issuing) (hi : σ'.issued = σ.issued) (ha : σ'.accepted = σ.accepted)
    (hr : σ'.rejected = σ.rejected) :
    Ledger (fun x => (σ'.pc x).issuing ≠ none) (fun x => (σ'.pc x).issuing.bind σ'.cmd)
      (σ'.issued.map some) ((σ'.accepted ++ σ'.rejected).map some) := by
  have hsame : ∀ y, (σ'.pc y).issuing = (σ.pc y).issuing := fun y => by
    by_cases hy : y = x
    · subst hy
      rw [hpc, Function.update_self, hq]
    · rw [hpc, Function.update_of_ne hy]
  rw [hi, ha, hr]
  exact h.issuing.congr (fun y => by rw [hsame y]) fun y _ => Mpp.issuing_same hB hB' hs (hsame y)

/-- **An issue returns.** -/
theorem Commands.issuing_ends (hpc : σ'.pc = Function.update σ.pc x q) (hx : (σ.pc x).issuing = some a)
    (hq : q.issuing = none) (hm : σ.chan.msgs a = some m) (hi : σ'.issued = σ.issued)
    (hends : (σ'.accepted ++ σ'.rejected).Perm ((σ.accepted ++ σ.rejected) ++ [m.exCmd])) :
    Ledger (fun x => (σ'.pc x).issuing ≠ none) (fun x => (σ'.pc x).issuing.bind σ'.cmd)
      (σ'.issued.map some) ((σ'.accepted ++ σ'.rejected).map some) := by
  have hother : ∀ y, y ≠ x → σ'.pc y = σ.pc y := fun y hy => by rw [hpc, Function.update_of_ne hy]
  have hperm : ((σ.accepted ++ σ.rejected).map some ++ [some m.exCmd]).Perm
      ((σ'.accepted ++ σ'.rejected).map some) := by
    have := (hends.map some).symm
    rwa [List.map_append, List.map_singleton] at this
  rw [hi]
  refine Ledger.perm_went (h.issuing.leave (k := x) (by simp [hx]) (fun y => ?_) (fun y hy _ => ?_) ?_)
    hperm
  · by_cases hy : y = x
    · subst hy
      rw [hpc, Function.update_self, hq]
      simp
    · rw [hother y hy]
      simp [hy]
  · exact Mpp.issuing_same hB hB' hs (by rw [hother y hy])
  · rw [hx, Option.bind_some, State.cmd, hm]
    rfl

/-- **A command is issued.** -/
theorem Commands.issuing_begins (hpc : σ'.pc = Function.update σ.pc x q)
    (hx : (σ.pc x).issuing = none) (hq : q.issuing = some a) (hcmd : σ'.cmd a = some e)
    (hi : σ'.issued = σ.issued ++ [e]) (ha : σ'.accepted = σ.accepted)
    (hr : σ'.rejected = σ.rejected) :
    Ledger (fun x => (σ'.pc x).issuing ≠ none) (fun x => (σ'.pc x).issuing.bind σ'.cmd)
      (σ'.issued.map some) ((σ'.accepted ++ σ'.rejected).map some) := by
  have hother : ∀ y, y ≠ x → σ'.pc y = σ.pc y := fun y hy => by rw [hpc, Function.update_of_ne hy]
  rw [hi, ha, hr, List.map_append]
  refine h.issuing.enter (k := x) (by simp [hx]) (fun y => ?_) (fun y hy => ?_) ?_
  · by_cases hy : y = x
    · subst hy
      rw [hpc, Function.update_self, hq]
      simp
    · rw [hother y hy]
      simp [hy]
  · have hyx : y ≠ x := by
      rintro rfl
      exact hy hx
    exact Mpp.issuing_same hB hB' hs (by rw [hother y hyx])
  · rw [hpc, Function.update_self, hq, Option.bind_some, hcmd]

/-! ## The work -/

omit h hB' in
/-- What is pending before and after has its command. -/
theorem pending_cmd (ha : σ.uses a = some .pending) (ha' : σ'.uses a = some .pending) :
    σ'.cmd a = σ.cmd a :=
  hs.cmd hB (pending_msg ha) (pending_msg ha')

omit h in
/-- A worker that stays where it is goes on with its command. -/
theorem completing_other (hn : σ'.pc (.worker n) = σ.pc (.worker n)) :
    σ'.completing (.inr n) = σ.completing (.inr n) := by
  rw [State.completing, State.completing, hn]
  cases hpc : σ.pc (.worker n) with
  | found a b =>
      have ha : a ∈ (σ.pc (.worker n)).held := by simp [hpc, Pc.held]
      exact hs.cmd hB (hB.held_msg ha) (hB'.held_msg (hn ▸ ha))
  | _ => rfl

omit h in
/-- So does one that moves on to the same work. -/
theorem completing_works (hpc : σ'.pc = Function.update σ.pc x q) (hq : (σ.pc x).Works q) :
    (σ'.pc (.worker n)).completes = (σ.pc (.worker n)).completes ∧
      σ'.completing (.inr n) = σ.completing (.inr n) := by
  by_cases hx : Actor.worker n = x
  · have hpcx : σ'.pc (.worker n) = q := by rw [hpc, hx, Function.update_self]
    rw [State.completing, State.completing, hpcx, hx, hq.completes, hq.command]
    refine ⟨rfl, ?_⟩
    cases hx' : σ.pc x with
    | found a b => exact absurd hx' (hq.apart a b)
    | _ => rfl
  · have hn : σ'.pc (.worker n) = σ.pc (.worker n) := by rw [hpc, Function.update_of_ne hx]
    exact ⟨by rw [hn], completing_other hB hB' hs hn⟩

omit hB' in
/-- No request is accepted, none completed. -/
theorem Commands.completing_same (hpend : SamePending σ σ')
    (hwork : ∀ n, (σ'.pc (.worker n)).completes = (σ.pc (.worker n)).completes ∧
      σ'.completing (.inr n) = σ.completing (.inr n))
    (ha : σ'.accepted = σ.accepted) (hc : σ'.completed = σ.completed) :
    Ledger σ'.Completing σ'.completing (σ'.accepted.map some) (σ'.completed.map some) := by
  rw [ha, hc]
  refine h.completing.congr (fun k => ?_) fun k hk => ?_
  · cases k with
    | inl a => exact hpend a
    | inr n => rw [State.Completing, State.Completing, (hwork n).1]
  · cases k with
    | inl a => exact pending_cmd hB hs hk ((hpend a).2 hk)
    | inr n => exact (hwork n).2

/-- **A request is accepted**, and in the hash. -/
theorem Commands.completing_begins (hpc : σ'.pc = Function.update σ.pc x q) (hq : (σ.pc x).Works q)
    (hold : σ.uses a ≠ some .pending) (huses : σ'.uses = Function.update σ.uses a (some .pending))
    (hcmd : σ'.cmd a = some e) (ha : σ'.accepted = σ.accepted ++ [e])
    (hc : σ'.completed = σ.completed) :
    Ledger σ'.Completing σ'.completing (σ'.accepted.map some) (σ'.completed.map some) := by
  have hwork := fun n => completing_works (n := n) hB hB' hs hpc hq
  have hnot : ¬σ.Completing (.inl a) := hold
  rw [ha, hc, List.map_append]
  refine h.completing.enter hnot (fun k => ?_) (fun k hk => ?_) hcmd
  · cases k with
    | inl b =>
        by_cases hb : b = a
        · subst hb
          simp [State.Completing, huses]
        · simp [State.Completing, huses, hb]
    | inr n => simp [State.Completing, (hwork n).1]
  · cases k with
    | inl b =>
        refine pending_cmd hB hs hk ?_
        have hb : b ≠ a := fun e => hold (e ▸ hk)
        rw [huses, Function.update_of_ne hb]
        exact hk
    | inr n => exact (hwork n).2

/-- **A worker finds it.** -/
theorem Commands.completing_found (hpc : σ'.pc = Function.update σ.pc (.worker n) (.found a b))
    (hx : (σ.pc (.worker n)).completes = false) (hold : σ.uses a = some .pending) {u : Option Use}
    (huses : σ'.uses = Function.update σ.uses a u) (hu : u ≠ some .pending)
    (ha : σ'.accepted = σ.accepted) (hc : σ'.completed = σ.completed) :
    Ledger σ'.Completing σ'.completing (σ'.accepted.map some) (σ'.completed.map some) := by
  have hother : ∀ i, i ≠ n → σ'.pc (.worker i) = σ.pc (.worker i) := fun i hi => by
    rw [hpc, Function.update_of_ne (by simpa using hi)]
  have hself : σ'.pc (.worker n) = .found a b := by rw [hpc, Function.update_self]
  have hnot : ¬σ.Completing (.inr n) := by simp [State.Completing, hx]
  rw [ha, hc]
  have hin : σ.Completing (.inl a) := hold
  refine h.completing.rekey hin hnot (fun k => ?_) (fun k hk hk' => ?_) ?_
  · cases k with
    | inl c =>
        by_cases hca : c = a
        · subst hca
          simp [State.Completing, huses, hu]
        · simp [State.Completing, huses, hca]
    | inr i =>
        by_cases hi : i = n
        · subst hi
          simp [State.Completing, hself, Pc.completes]
        · simp [State.Completing, hother i hi, hi]
  · cases k with
    | inl c =>
        have hca : c ≠ a := fun e => hk (e ▸ rfl)
        refine pending_cmd hB hs hk' ?_
        rw [huses, Function.update_of_ne hca]
        exact hk'
    | inr i =>
        have hi : i ≠ n := by
          rintro rfl
          exact hnot hk'
        exact completing_other hB hB' hs (hother i hi)
  · have hheld : a ∈ (σ'.pc (.worker n)).held := by simp [hself, Pc.held]
    show (σ'.pc (.worker n)).command σ'.cmd = σ.cmd a
    rw [hself]
    exact hs.cmd hB (pending_msg hold) (hB'.held_msg hheld)

/-- **`cmd->done` is called.** -/
theorem Commands.completing_ends (hpc : σ'.pc = Function.update σ.pc (.worker n) q)
    (hq : q.completes = false) {s : ScsiCommand} (hx : σ.pc (.worker n) = .done e s)
    (hpend : SamePending σ σ') (ha : σ'.accepted = σ.accepted)
    (hc : σ'.completed = σ.completed ++ [e]) :
    Ledger σ'.Completing σ'.completing (σ'.accepted.map some) (σ'.completed.map some) := by
  have hother : ∀ i, i ≠ n → σ'.pc (.worker i) = σ.pc (.worker i) := fun i hi => by
    rw [hpc, Function.update_of_ne (by simpa using hi)]
  have hself : σ'.pc (.worker n) = q := by rw [hpc, Function.update_self]
  rw [ha, hc, List.map_append]
  refine h.completing.leave (k := Sum.inr n) (by simp [State.Completing, hx, Pc.completes])
    (fun k => ?_) (fun k hk hk' => ?_) (by rw [State.completing, hx]; rfl)
  · cases k with
    | inl a => simp [State.Completing, hpend a]
    | inr i =>
        by_cases hi : i = n
        · subst hi
          simp [State.Completing, hself, hq]
        · simp [State.Completing, hother i hi, hi]
  · cases k with
    | inl a => exact pending_cmd hB hs hk' ((hpend a).2 hk')
    | inr i =>
        have hi : i ≠ n := by
          rintro rfl
          exact hk rfl
        exact completing_other hB hB' hs (hother i hi)

/-! ## The end of the receive thread -/

omit h hB' in
/-- A waiting response is awaited as before. -/
theorem awaited_iff (hb : σ.Waiting b) (hb' : σ'.Waiting b) : σ'.Awaited b ↔ σ.Awaited b := by
  rw [State.Awaited, State.Awaited, hs.settled hB (hb.settled hB)]
  exact and_congr_left fun _ => iff_of_true hb' hb

omit hB' in
/-- The hash and the responses that wait are the same. -/
theorem Commands.balanced_same (hwait : ∀ b, σ'.Waiting b ↔ σ.Waiting b)
    (hcount : σ'.chan.count = σ.chan.count) (hl : σ'.pc .receiver = .left → σ.pc .receiver = .left) :
    σ'.pc .receiver = .left → σ'.Balanced := by
  intro hleft
  obtain ⟨ks, hnd, hks, hc⟩ := h.balanced (hl hleft)
  refine ⟨ks, hnd, fun b => ?_, hcount.trans hc⟩
  rw [hks]
  constructor
  · intro hb
    exact (awaited_iff hB hs hb.1 ((hwait b).2 hb.1)).2 hb
  · intro hb
    exact (awaited_iff hB hs ((hwait b).1 hb.1) hb.1).1 hb

omit h hB' hs in
/-- A worker is done with its item. -/
theorem waiting_less (hpx : σ.pc x = .item b) (hpc : σ'.pc = Function.update σ.pc x q)
    (hqueue : σ'.queue = σ.queue) (hq : q.answering = none) (c : Addr) :
    σ'.Waiting c ↔ c ≠ b ∧ σ.Waiting c := by
  have hb : b ∈ (σ.pc x).held := by simp [hpx, Pc.held]
  have hone : ∀ y, (σ.pc y).answering = some b → y = x := fun y hy =>
    hB.uses.unique (a := b) (by simp [Pc.of_answering hy, Pc.held]) hb
  have hans : (∃ y, (σ'.pc y).answering = some c) ↔ c ≠ b ∧ ∃ y, (σ.pc y).answering = some c := by
    rw [hpc]
    exact has_lose (by rw [hpx]; rfl) hq hone
  rw [State.Waiting, State.Waiting, hans, hqueue]
  by_cases hcb : c = b
  · subst hcb
    simp [(hB.in_hand hb).1]
  · simp [hcb]

omit h hB hB' hs in
/-- The receive thread has not returned just now. -/
theorem left_of_move (hpc : σ'.pc = Function.update σ.pc x q) (hq : q = .left → σ.pc x = .left) :
    σ'.pc .receiver = .left → σ.pc .receiver = .left := by
  intro hleft
  by_cases hx : Actor.receiver = x
  · rw [hpc, hx, Function.update_self] at hleft
    rw [hx, hq hleft]
  · rwa [hpc, Function.update_of_ne hx] at hleft

omit hB hB' hs in
/-- Who has a work item is a worker. -/
theorem Commands.workers_same (hpc : σ'.pc = Function.update σ.pc x q)
    (hq : q.answering ≠ none → ∃ n, x = .worker n) :
    ∀ y, (σ'.pc y).answering ≠ none → ∃ n, y = .worker n := by
  intro y hy
  by_cases hyx : y = x
  · subst hyx
    rw [hpc, Function.update_self] at hy
    exact hq hy
  · rw [hpc, Function.update_of_ne hyx] at hy
    exact h.workers y hy

/-- **Steps that do nothing to a command.** -/
theorem Commands.frame (hpend : SamePending σ σ') (hpc : σ'.pc = Function.update σ.pc x q)
    (hq : (σ.pc x).Alike q) (hqueue : σ'.queue = σ.queue) (hcount : σ'.chan.count = σ.chan.count)
    (hi : σ'.issued = σ.issued) (ha : σ'.accepted = σ.accepted) (hr : σ'.rejected = σ.rejected)
    (hc : σ'.completed = σ.completed) : Commands σ' := by
  have hwait : ∀ b, σ'.Waiting b ↔ σ.Waiting b := fun b =>
    or_congr (by rw [hqueue]) (by rw [hpc]; exact has_same hq.answering)
  exact ⟨by rw [hi]; exact h.issued, h.issuing_same hB hB' hs hpc hq.issuing hi ha hr,
    h.completing_same hB hs hpend (fun n => completing_works hB hB' hs hpc hq.toWorks) ha hc,
    h.workers_same hpc fun hans => h.workers x (hq.answering ▸ hans),
    h.balanced_same hB hs hwait hcount (left_of_move hpc hq.left)⟩

/-- **An issue is accepted.** -/
theorem Commands.accepts (hpx : σ.pc x = .unlock .request a) (hm : σ.chan.msgs a = some m)
    (hpc : σ'.pc = Function.update σ.pc x .idle)
    (hmsgs : σ'.chan.msgs = Function.update σ.chan.msgs a (some { m with use := .pending }))
    (hqueue : σ'.queue = σ.queue) (hcount : σ'.chan.count = σ.chan.count)
    (hi : σ'.issued = σ.issued) (ha : σ'.accepted = σ.accepted ++ [m.exCmd])
    (hr : σ'.rejected = σ.rejected) (hc : σ'.completed = σ.completed) : Commands σ' := by
  have hheld : a ∈ (σ.pc x).held := by simp [hpx, Pc.held]
  have hwork : (σ.pc x).Works .idle := .of_none (by rw [hpx]; rfl) rfl
  have hwait : ∀ b, σ'.Waiting b ↔ σ.Waiting b := fun b =>
    or_congr (by rw [hqueue]) (by rw [hpc]; exact has_same (by rw [hpx]; rfl))
  have hperm : (σ'.accepted ++ σ'.rejected).Perm ((σ.accepted ++ σ.rejected) ++ [m.exCmd]) := by
    rw [ha, hr, List.append_assoc, List.append_assoc]
    exact (List.perm_append_comm).append_left σ.accepted
  exact ⟨by rw [hi]; exact h.issued,
    h.issuing_ends hB hB' hs hpc (by rw [hpx]; rfl) rfl hm hi hperm,
    h.completing_begins hB hB' hs hpc hwork (hB.held_ne_pending hheld) (uses_update hmsgs)
      (by rw [State.cmd, hmsgs, Function.update_self]; rfl) ha hc,
    h.workers_same hpc fun hans => absurd rfl hans,
    h.balanced_same hB hs hwait hcount (left_of_move hpc (by simp))⟩

/-- **An issue fails.** -/
theorem Commands.rejects (hpx : σ.pc x = .put .request a) (hm : σ.chan.msgs a = some m)
    (hpc : σ'.pc = Function.update σ.pc x .idle) (hpend : SamePending σ σ')
    (hqueue : σ'.queue = σ.queue) (hcount : σ'.chan.count = σ.chan.count)
    (hi : σ'.issued = σ.issued) (ha : σ'.accepted = σ.accepted)
    (hr : σ'.rejected = σ.rejected ++ [m.exCmd]) (hc : σ'.completed = σ.completed) :
    Commands σ' := by
  have hwork : (σ.pc x).Works .idle := .of_none (by rw [hpx]; rfl) rfl
  have hwait : ∀ b, σ'.Waiting b ↔ σ.Waiting b := fun b =>
    or_congr (by rw [hqueue]) (by rw [hpc]; exact has_same (by rw [hpx]; rfl))
  have hperm : (σ'.accepted ++ σ'.rejected).Perm ((σ.accepted ++ σ.rejected) ++ [m.exCmd]) := by
    rw [ha, hr, List.append_assoc]
  exact ⟨by rw [hi]; exact h.issued,
    h.issuing_ends hB hB' hs hpc (by rw [hpx]; rfl) rfl hm hi hperm,
    h.completing_same hB hs hpend (fun n => completing_works hB hB' hs hpc hwork) ha hc,
    h.workers_same hpc fun hans => absurd rfl hans,
    h.balanced_same hB hs hwait hcount (left_of_move hpc (by simp))⟩

/-- **A command is issued.** -/
theorem Commands.issues (hpx : σ.pc x = .idle) (hpc : σ'.pc = Function.update σ.pc x (.got .request a))
    (hpend : SamePending σ σ') (hcmd : σ'.cmd a = some e) (he : e ∉ σ.issued)
    (hqueue : σ'.queue = σ.queue) (hcount : σ'.chan.count = σ.chan.count)
    (hi : σ'.issued = σ.issued ++ [e]) (ha : σ'.accepted = σ.accepted)
    (hr : σ'.rejected = σ.rejected) (hc : σ'.completed = σ.completed) : Commands σ' := by
  have hwork : (σ.pc x).Works (.got .request a) := .of_none (by rw [hpx]; rfl) rfl
  have hwait : ∀ b, σ'.Waiting b ↔ σ.Waiting b := fun b =>
    or_congr (by rw [hqueue]) (by rw [hpc]; exact has_same (by rw [hpx]; rfl))
  refine ⟨?_, h.issuing_begins hB hB' hs hpc (by rw [hpx]; rfl) rfl hcmd hi ha hr,
    h.completing_same hB hs hpend (fun n => completing_works hB hB' hs hpc hwork) ha hc,
    h.workers_same hpc fun hans => absurd rfl hans,
    h.balanced_same hB hs hwait hcount (left_of_move hpc (by simp))⟩
  rw [hi, List.nodup_append]
  refine ⟨h.issued, List.nodup_singleton e, fun c hc d hd hcd => he ?_⟩
  rw [← List.mem_singleton.1 hd, ← hcd]
  exact hc

/-- **While the receive thread runs**, requests may enter the hash, and
responses the work list. -/
theorem Commands.running (hpend : SamePending σ σ') (hpc : σ'.pc = Function.update σ.pc x q)
    (hq : (σ.pc x).Alike q) (hleft : σ'.pc .receiver ≠ .left)
    (hi : σ'.issued = σ.issued) (ha : σ'.accepted = σ.accepted) (hr : σ'.rejected = σ.rejected)
    (hc : σ'.completed = σ.completed) : Commands σ' :=
  ⟨by rw [hi]; exact h.issued, h.issuing_same hB hB' hs hpc hq.issuing hi ha hr,
    h.completing_same hB hs hpend (fun n => completing_works hB hB' hs hpc hq.toWorks) ha hc,
    h.workers_same hpc fun hans => h.workers x (hq.answering ▸ hans), fun hl => absurd hl hleft⟩

/-- **A worker takes an item.** -/
theorem Commands.takes {qs : List Addr} (hpx : σ.pc (.worker n) = .idle) (hq : σ.queue = b :: qs)
    (hpend : SamePending σ σ') (hpc : σ'.pc = Function.update σ.pc (.worker n) (.item b))
    (hqueue : σ'.queue = qs) (hcount : σ'.chan.count = σ.chan.count) (hi : σ'.issued = σ.issued)
    (ha : σ'.accepted = σ.accepted) (hr : σ'.rejected = σ.rejected)
    (hc : σ'.completed = σ.completed) : Commands σ' := by
  have hwork : (σ.pc (.worker n)).Works (.item b) := .of_none (by rw [hpx]; rfl) rfl
  have hwait : ∀ c, σ'.Waiting c ↔ σ.Waiting c := fun c => by
    have hans : (∃ y, (σ'.pc y).answering = some c) ↔ c = b ∨ ∃ y, (σ.pc y).answering = some c := by
      rw [hpc]
      exact has_gain (by rw [hpx]; rfl) rfl
    rw [State.Waiting, State.Waiting, hans, hqueue, hq, List.mem_cons]
    tauto
  exact ⟨by rw [hi]; exact h.issued,
    h.issuing_same hB hB' hs hpc (by rw [hpx]; rfl) hi ha hr,
    h.completing_same hB hs hpend (fun n => completing_works hB hB' hs hpc hwork) ha hc,
    h.workers_same hpc fun _ => ⟨n, rfl⟩,
    h.balanced_same hB hs hwait hcount (left_of_move hpc (by simp))⟩

/-- **The item is a lost connection's.** -/
theorem Commands.drops (hpx : σ.pc (.worker n) = .item b) (hr : σ.chan.msgs b = some r)
    (hclosed : r.frame.hdr.isConnClosed = true) (hpend : SamePending σ σ')
    (hpc : σ'.pc = Function.update σ.pc (.worker n) (.dropped b)) (hqueue : σ'.queue = σ.queue)
    (hcount : σ'.chan.count = σ.chan.count) (hi : σ'.issued = σ.issued)
    (ha : σ'.accepted = σ.accepted) (hrej : σ'.rejected = σ.rejected)
    (hc : σ'.completed = σ.completed) : Commands σ' := by
  have hwork : (σ.pc (.worker n)).Works (.dropped b) := .of_none (by rw [hpx]; rfl) rfl
  have hwait := waiting_less hB hpx hpc hqueue rfl
  refine ⟨by rw [hi]; exact h.issued, h.issuing_same hB hB' hs hpc (by rw [hpx]; rfl) hi ha hrej,
    h.completing_same hB hs hpend (fun n => completing_works hB hB' hs hpc hwork) ha hc,
    h.workers_same hpc fun hans => absurd rfl hans, fun hleft => ?_⟩
  obtain ⟨ks, hnd, hks, hn⟩ := h.balanced (left_of_move hpc (by simp) hleft)
  refine ⟨ks, hnd, fun c => ?_, hcount.trans hn⟩
  -- it was not one of those that wait to be matched
  have hb : ¬σ.Awaited b := by
    rintro ⟨-, f, hf, hopen⟩
    rw [State.frames, hr, Option.map_some, Option.some.injEq] at hf
    rw [← hf, hclosed] at hopen
    cases hopen
  rw [hks]
  constructor
  · intro hcw
    have hcb : c ≠ b := fun e => hb (e ▸ hcw)
    exact (awaited_iff hB hs hcw.1 ((hwait c).2 ⟨hcb, hcw.1⟩)).2 hcw
  · intro hcw
    exact (awaited_iff hB hs ((hwait c).1 hcw.1).2 hcw.1).1 hcw

/-- **A worker finds the request** of its response. -/
theorem Commands.finds (hpx : σ.pc (.worker n) = .item b) (hr : σ.chan.msgs b = some r)
    (hopen : r.frame.hdr.isConnClosed = false) (hold : σ.uses a = some .pending) {u : Option Use}
    (huses : σ'.uses = Function.update σ.uses a u) (hu : u ≠ some .pending)
    (hpc : σ'.pc = Function.update σ.pc (.worker n) (.found a b)) (hqueue : σ'.queue = σ.queue)
    (hcount : σ'.chan.count = σ.chan.count - 1) (hi : σ'.issued = σ.issued)
    (ha : σ'.accepted = σ.accepted) (hrej : σ'.rejected = σ.rejected)
    (hc : σ'.completed = σ.completed) : Commands σ' := by
  have hwait := waiting_less hB hpx hpc hqueue rfl
  refine ⟨by rw [hi]; exact h.issued, h.issuing_same hB hB' hs hpc (by rw [hpx]; rfl) hi ha hrej,
    h.completing_found hB hB' hs hpc (by rw [hpx]; rfl) hold huses hu ha hc,
    h.workers_same hpc fun hans => absurd rfl hans, fun hleft => ?_⟩
  obtain ⟨ks, hnd, hks, hn⟩ := h.balanced (left_of_move hpc (by simp) hleft)
  have hb : σ.Awaited b := ⟨.inr ⟨.worker n, by rw [hpx]; rfl⟩, r.frame, by rw [State.frames, hr]; rfl, hopen⟩
  have hmem : b ∈ ks := (hks b).2 hb
  refine ⟨ks.erase b, hnd.erase b, fun c => ?_, ?_⟩
  · rw [hnd.mem_erase_iff, hks]
    constructor
    · rintro ⟨hcb, hcw⟩
      exact (awaited_iff hB hs hcw.1 ((hwait c).2 ⟨hcb, hcw.1⟩)).2 hcw
    · intro hcw
      obtain ⟨hcb, hcw'⟩ := (hwait c).1 hcw.1
      exact ⟨hcb, (awaited_iff hB hs hcw' hcw.1).1 hcw⟩
  · have hlen := List.length_erase_of_mem hmem
    have hpos := List.length_pos_of_mem hmem
    omega

/-- **The receive thread returns**, with as many requests in the hash as
responses wait. -/
theorem Commands.ends (hpx : σ.pc .receiver = .reading b) (hbal : σ.Balanced)
    (hpend : SamePending σ σ') (hpc : σ'.pc = Function.update σ.pc .receiver .left) {f : Frame}
    (hf : σ'.frames b = some f) (hclosed : f.hdr.isConnClosed = true)
    (hqueue : σ'.queue = σ.queue ++ [b]) (hcount : σ'.chan.count = σ.chan.count)
    (hi : σ'.issued = σ.issued) (ha : σ'.accepted = σ.accepted) (hr : σ'.rejected = σ.rejected)
    (hc : σ'.completed = σ.completed) : Commands σ' := by
  have hwork : (σ.pc .receiver).Works .left := .of_none (by rw [hpx]; rfl) rfl
  have hwait : ∀ c, σ'.Waiting c ↔ c = b ∨ σ.Waiting c := fun c => by
    have hans : (∃ y, (σ'.pc y).answering = some c) ↔ ∃ y, (σ.pc y).answering = some c := by
      rw [hpc]
      exact has_same (by rw [hpx]; rfl)
    rw [State.Waiting, State.Waiting, hans, hqueue, List.mem_append, List.mem_singleton]
    tauto
  refine ⟨by rw [hi]; exact h.issued, h.issuing_same hB hB' hs hpc (by rw [hpx]; rfl) hi ha hr,
    h.completing_same hB hs hpend (fun n => completing_works hB hB' hs hpc hwork) ha hc,
    h.workers_same hpc fun hans => absurd rfl hans, fun _ => ?_⟩
  obtain ⟨ks, hnd, hks, hn⟩ := hbal
  refine ⟨ks, hnd, fun c => ?_, hcount.trans hn⟩
  -- what it has scheduled is no response
  have hb : ¬σ'.Awaited b := by
    rintro ⟨-, g, hg, hopen⟩
    rw [hf] at hg
    rw [← Option.some.inj hg, hclosed] at hopen
    cases hopen
  rw [hks]
  constructor
  · intro hcw
    exact (awaited_iff hB hs hcw.1 ((hwait c).2 (.inr hcw.1))).2 hcw
  · intro hcw
    have hcb : c ≠ b := fun e => hb (e ▸ hcw)
    exact (awaited_iff hB hs (((hwait c).1 hcw.1).resolve_left hcb) hcw.1).1 hcw

/-- **`resp_handler` is called**, and has the command. -/
theorem Commands.hands {s : ScsiCommand} (hpx : σ.pc (.worker n) = .found a b)
    (hm : σ.chan.msgs a = some m)
    (hpc : σ'.pc = Function.update σ.pc (.worker n) (.finish a m.exCmd s)) (hpend : SamePending σ σ')
    (hqueue : σ'.queue = σ.queue) (hcount : σ'.chan.count = σ.chan.count)
    (hi : σ'.issued = σ.issued) (ha : σ'.accepted = σ.accepted) (hr : σ'.rejected = σ.rejected)
    (hc : σ'.completed = σ.completed) : Commands σ' := by
  have hwait : ∀ c, σ'.Waiting c ↔ σ.Waiting c := fun c =>
    or_congr (by rw [hqueue]) (by rw [hpc]; exact has_same (by rw [hpx]; rfl))
  have hself : σ'.pc (.worker n) = .finish a m.exCmd s := by rw [hpc, Function.update_self]
  refine ⟨by rw [hi]; exact h.issued, h.issuing_same hB hB' hs hpc (by rw [hpx]; rfl) hi ha hr,
    h.completing_same hB hs hpend (fun i => ?_) ha hc, h.workers_same hpc fun hans => absurd rfl hans,
    h.balanced_same hB hs hwait hcount (left_of_move hpc (by simp))⟩
  by_cases hin : i = n
  · subst hin
    rw [State.completing, State.completing, hself, hpx]
    refine ⟨rfl, ?_⟩
    show some m.exCmd = σ.cmd a
    rw [State.cmd, hm]
    rfl
  · have hother : σ'.pc (.worker i) = σ.pc (.worker i) := by
      rw [hpc, Function.update_of_ne (by simpa using hin)]
    exact ⟨by rw [hother], completing_other hB hB' hs hother⟩

/-- **A command is completed.** -/
theorem Commands.finishes {s : ScsiCommand} (hpx : σ.pc (.worker n) = .done e s)
    (hpc : σ'.pc = Function.update σ.pc (.worker n) .idle) (hpend : SamePending σ σ')
    (hqueue : σ'.queue = σ.queue) (hcount : σ'.chan.count = σ.chan.count)
    (hi : σ'.issued = σ.issued) (ha : σ'.accepted = σ.accepted) (hr : σ'.rejected = σ.rejected)
    (hc : σ'.completed = σ.completed ++ [e]) : Commands σ' := by
  have hwait : ∀ c, σ'.Waiting c ↔ σ.Waiting c := fun c =>
    or_congr (by rw [hqueue]) (by rw [hpc]; exact has_same (by rw [hpx]; rfl))
  exact ⟨by rw [hi]; exact h.issued, h.issuing_same hB hB' hs hpc (by rw [hpx]; rfl) hi ha hr,
    h.completing_ends hB hB' hs hpc rfl hpx hpend ha hc, h.workers_same hpc fun hans => absurd rfl hans,
    h.balanced_same hB hs hwait hcount (left_of_move hpc (by simp))⟩

end

/-! ## Every run -/

/-- **A step keeps account of the commands.** -/
theorem Commands.step (h : Commands σ) (hB : Base cfg σ) (hB' : Base cfg σ') (hs : Step cfg σ act σ')
    (hok : LostQuietly σ act) : Commands σ' := by
  have hpend := hs.pending hB
  have hs' := hs
  cases hs with
  | @get n k alloc msgtype msglen pad body e c a m hpc hl _ hget hm =>
      have hcount : c.count = σ.chan.count := by
        obtain ⟨c₁, hpool, m, -, -, rfl⟩ := Channel.msgGet_cases hget
        exact (Channel.poolGet_keeps hpool).2.2.2
      cases k with
      | request =>
          exact h.issues hB hB' hs' (x := .world n) hpc rfl (hpend.resolve_right (by simp))
            (by simp [State.cmd, State.setPc]) (of_decide_eq_true hok.own) rfl hcount rfl rfl rfl rfl
      | response =>
          exact h.frame hB hB' hs' (x := .world n) (hpend.resolve_right (by simp)) rfl
            (by rw [hpc]; exact ⟨.of_none rfl rfl, rfl, rfl, by simp⟩) rfl hcount
            (List.append_nil _) rfl rfl rfl
  | @edit n f k a m hpc =>
      exact h.frame hB hB' hs' (x := .world n) (hpend.resolve_right (by simp))
        (Function.update_eq_self ..).symm (by rw [hpc]; exact ⟨.of_none rfl rfl, rfl, rfl, by simp⟩) rfl rfl
        rfl rfl rfl rfl
  | abandon hpc =>
      exact h.frame hB hB' hs' (hpend.resolve_right (by simp)) rfl
        (by rw [hpc]; exact ⟨.of_none rfl rfl, rfl, rfl, by simp⟩) rfl rfl rfl rfl rfl rfl
  | @check n k a m hpc =>
      exact h.frame hB hB' hs' (hpend.resolve_right (by simp)) rfl
        (by rw [hpc]; exact ⟨.of_none rfl rfl, by cases k <;> rfl, rfl, by simp⟩) rfl rfl rfl rfl rfl rfl
  | refuse hpc =>
      exact h.frame hB hB' hs' (hpend.resolve_right (by simp)) rfl
        (by rw [hpc]; exact ⟨.of_none rfl rfl, rfl, rfl, by simp⟩) rfl rfl rfl rfl rfl rfl
  | leave hpc =>
      exact h.frame hB hB' hs' (hpend.resolve_right (by simp)) rfl
        (by rw [hpc]; exact ⟨.of_none rfl rfl, rfl, rfl, by simp⟩) rfl rfl rfl rfl rfl rfl
  | @lockRequest n a m hpc =>
      obtain ⟨hdone, hans, hleft, hiss⟩ := sending_alike .request a m.frame .header m.frame.hdrBytes
      refine h.running hB hB' hs' (x := .world n) (hpend.resolve_right (by simp)) rfl ?_ ?_ rfl rfl rfl rfl
      · rw [hpc]
        exact ⟨.of_none rfl hdone, hiss, hans, fun e => absurd e hleft⟩
      · rw [State.setPc_pc, Function.update_of_ne (by simp)]
        exact hok.later n a rfl hpc
  | @lockResponse n a m hpc =>
      obtain ⟨hdone, hans, hleft, hiss⟩ := sending_alike .response a m.frame .header m.frame.hdrBytes
      refine h.frame hB hB' hs' (x := .world n) (hpend.resolve_right (by simp)) rfl ?_ rfl rfl rfl rfl rfl rfl
      rw [hpc]
      exact ⟨.of_none rfl hdone, hiss, hans, fun e => absurd e hleft⟩
  | @write n k a part rest m j hpc =>
      obtain ⟨hdone, hans, hleft, hiss⟩ := sending_alike k a m.frame part (rest.drop j)
      refine h.frame hB hB' hs' (x := .world n) (hpend.resolve_right (by simp)) rfl ?_ rfl rfl rfl rfl rfl rfl
      rw [hpc]
      refine ⟨.of_none rfl hdone, hiss.trans ?_, hans, fun e => absurd e hleft⟩
      cases k <;> rfl
  | @fail n k a part rest m hpc =>
      cases k with
      | request => exact absurd hpc (hok.sends n a part rest rfl)
      | response =>
          exact h.frame hB hB' hs' (hpend.resolve_right (by simp)) rfl
            (by rw [hpc]; exact ⟨.of_none rfl rfl, rfl, rfl, by simp⟩) rfl rfl rfl rfl rfl rfl
  | unlockRequest hpc hm => exact h.accepts hB hB' hs' hpc hm rfl rfl rfl rfl rfl rfl rfl rfl
  | unlockResponse hpc =>
      exact h.frame hB hB' hs' (hpend.resolve_right (by simp [hpc])) rfl
        (by rw [hpc]; exact ⟨.of_none rfl rfl, rfl, rfl, by simp⟩) rfl rfl rfl rfl rfl rfl
  | @close x s hx =>
      have hcount : (σ.closeStep s).1.count = σ.chan.count := by cases s <;> rfl
      refine h.frame hB hB' hs' (hpend.resolve_right (by simp)) rfl ?_ rfl hcount rfl rfl rfl rfl
      cases hpc : σ.pc x with
      | failing k a t => exact ⟨.of_none rfl rfl, by cases k <;> rfl, rfl, by simp [Pc.reclose]⟩
      | closing t => exact ⟨.of_none rfl rfl, rfl, rfl, by simp [Pc.reclose]⟩
      | _ =>
          rw [hpc] at hx
          cases hx
  | @closeUnlock x k a hpc =>
      exact h.frame hB hB' hs' (hpend.resolve_right (by simp)) rfl
        (by rw [hpc]; exact ⟨.of_none rfl rfl, by cases k <;> rfl, rfl, by simp⟩) rfl rfl rfl rfl rfl rfl
  | closeReturn hpc =>
      exact h.frame hB hB' hs' (hpend.resolve_right (by simp)) rfl
        (by rw [hpc]; exact ⟨.of_none rfl rfl, rfl, rfl, by simp⟩) rfl rfl rfl rfl rfl rfl
  | @putResp x a p m c hp _ _ hc =>
      have hcount : c.count = σ.chan.count := by
        obtain ⟨m, b, r, c₁, -, -, -, -, hput, rfl⟩ := Channel.putResp_cases hc
        exact (Channel.poolPut_keeps hput).2.2
      refine h.frame hB hB' hs' (x := x) (hpend.resolve_right (by simp)) (Function.update_eq_self ..).symm
        ⟨⟨rfl, fun _ => rfl, fun a b e => ?_⟩, rfl, rfl, id⟩ rfl hcount rfl rfl rfl rfl
      rw [e] at hp
      cases hp
  | @put x a p m c hp hm _ hc =>
      have hcount := (Channel.poolPut_keeps hc).2.2
      have hpend := hpend.resolve_right (by simp)
      rcases Pc.putting_cases hp with ⟨hpx, rfl⟩ | ⟨halike, hnone⟩
      · exact h.rejects hB hB' hs' hpx hm rfl hpend rfl hcount rfl rfl (by simp [State.setPc, hpx, Pc.rejects])
          rfl
      · exact h.frame hB hB' hs' hpend rfl halike rfl hcount rfl rfl (by simp [State.setPc, hnone]) rfl
  | take hpc hq =>
      exact h.takes hB hB' hs' hpc hq (hpend.resolve_right (by simp)) rfl rfl rfl rfl rfl rfl rfl
  | drop hpc hr hclosed =>
      refine h.drops hB hB' hs' hpc hr hclosed (hpend.resolve_right ?_) rfl rfl rfl rfl rfl rfl rfl
      rintro (⟨_, _, e, -⟩ | ⟨i, _, e, -, _, hf⟩)
      · cases e
      · cases e
        rw [State.setPc_pc, Function.update_self] at hf
        cases hf
  | @find n b r a c m hpc hr hopen _ hl hlook hrem hm =>
      obtain ⟨m₀, hm₀, hu, -⟩ := hB.found hl hlook
      have hmsgs := (Channel.hashRem_keeps hrem).2
      have hset : (c.setMsg a { m with use := .held (.worker n) }).msgs =
          Function.update σ.chan.msgs a (some { m with use := .held (.worker n) }) := by
        rw [Channel.setMsg_msgs, hmsgs]
      -- one entry less
      have hcount : c.count = σ.chan.count - 1 := by
        obtain ⟨lists, ps, hT⟩ := hB.table
        have hp₀ : m₀.pending = true := by rw [Msg.pending, hu]
        have hmem : a ∈ ps := (hT.mem_pending a).2 ⟨m₀, hm₀, hp₀⟩
        obtain ⟨c', hrem', hT'⟩ := hT.rem hm₀ hp₀
        obtain rfl := Option.some.inj (hrem.symm.trans hrem')
        obtain ⟨_, hT'⟩ := hT' { m with use := .held (.worker n) } rfl
        have hc : c.count = (ps.erase a).length := hT'.count
        have hn := hT.count
        have hlen := List.length_erase_of_mem hmem
        have hpos := List.length_pos_of_mem hmem
        omega
      exact h.finds hB hB' hs' hpc hr hopen (by rw [uses_of_msg hm₀, hu]) (uses_update hset) (by simp) rfl
        rfl hcount rfl rfl rfl rfl
  | handle hpc hm =>
      exact h.hands hB hB' hs' hpc hm rfl (hpend.resolve_right (by simp)) rfl rfl rfl rfl rfl rfl
  | finish hpc =>
      exact h.finishes hB hB' hs' hpc rfl (hpend.resolve_right (by simp)) rfl rfl rfl rfl rfl rfl
  | @recvStart alloc c b hpc _ _ hget =>
      exact h.frame hB hB' hs' (x := .receiver) (hpend.resolve_right (by simp)) rfl
        (by rw [hpc]; exact ⟨.of_none rfl rfl, rfl, rfl, by simp⟩) rfl (Channel.poolGet_keeps hget).2.2.2
        rfl rfl rfl rfl
  | recv hpc =>
      exact h.running hB hB' hs' (x := .receiver) (hpend.resolve_right (by simp)) rfl
        (by rw [hpc]; exact ⟨.of_none rfl rfl, rfl, rfl, by simp⟩)
        (by rw [State.setPc_pc, Function.update_self]; simp) rfl rfl rfl rfl
  | @recvEnd b m f j hpc hm _ hclosed =>
      exact h.ends hB hB' hs' hpc (hok.lost j rfl) (hpend.resolve_right (by simp)) rfl
        (by simp [State.frames, State.setPc]) hclosed rfl rfl rfl rfl rfl rfl
  | arrive => exact ⟨h.issued, h.issuing, h.completing, h.workers, h.balanced⟩

/-- **What a run keeps to, it keeps account of.** -/
theorem commands_reachable (hr : ((channelSystem cfg).only LostQuietly).Reachable σ) :
    Base cfg σ ∧ Commands σ := by
  refine hr.invariant (I := fun σ => Base cfg σ ∧ Commands σ) ?_ ?_
  · rintro σ ⟨bufs, cmds, hnd, -, rfl⟩
    refine ⟨base_initial hnd, List.nodup_nil, .initial fun x hx => hx rfl, .initial ?_,
      fun x hx => absurd rfl hx, fun hleft => ?_⟩
    · rintro (a | n) hk <;> cases hk
    · cases hleft
  · rintro σ act σ' ⟨hB, h⟩ ⟨he, hok⟩ hx
    have hs := Step.of_exec he hx
    have hB' := hs.base hok.sends hB
    exact ⟨hB', h.step hB hB' hs hok⟩

/-- **Each command once**: none is completed twice, or after its issue has
failed; and once nothing more happens, all that were accepted are completed
and the hash is empty. -/
structure CompletedOnce (σ : State) : Prop where
  once : σ.completed.Nodup
  failed : ∀ e ∈ σ.completed, e ∉ σ.rejected
  all : σ.pc .receiver = .left → σ.queue = [] → (∀ n, σ.pc (.worker n) = .idle) →
    (∀ e ∈ σ.accepted, e ∈ σ.completed) ∧ σ.chan.count = 0 ∧
      ∀ i a, ¬σ.chan.links.Reaches (some i) (.elem a)

theorem Commands.completed (h : Commands σ) (hB : Base cfg σ) : CompletedOnce σ := by
  have hinj : Function.Injective (some : CmdId → Option CmdId) := Option.some_injective CmdId
  have hends : (σ.accepted ++ σ.rejected).Nodup := (h.issuing.nodup (h.issued.map hinj)).of_map some
  have hsub : σ.completed ⊆ σ.accepted := fun e he => by
    have := h.completing.subset (List.mem_map_of_mem he)
    rwa [List.mem_map_of_injective hinj] at this
  refine ⟨?_, fun e he hrej => ?_, fun hleft hqueue hidle => ?_⟩
  · exact (h.completing.nodup ((hends.of_append_left).map hinj)).of_map some
  · exact (List.nodup_append.1 hends).2.2 e (hsub he) e hrej rfl
  · -- nothing waits to be matched, so nothing is in the hash
    have hnone : ∀ b, ¬σ.Awaited b := by
      rintro b ⟨hq | ⟨x, hx⟩, -⟩
      · rw [hqueue] at hq
        cases hq
      · obtain ⟨n, rfl⟩ := h.workers x (by simp [hx])
        rw [hidle n] at hx
        cases hx
    obtain ⟨ks, -, hks, hcount⟩ := h.balanced hleft
    obtain rfl : ks = [] := List.eq_nil_iff_forall_not_mem.2 fun b hb => hnone b ((hks b).1 hb)
    obtain ⟨lists, ps, hT⟩ := hB.table
    obtain rfl : ps = [] := by
      have hlen : ps.length = 0 := by
        have := hT.count
        rw [hcount] at this
        exact_mod_cast this.symm
      exact List.eq_nil_of_length_eq_zero hlen
    have hpend : ∀ a m, σ.chan.msgs a = some m → m.pending = true → False := fun a m hm hp =>
      List.not_mem_nil ((hT.mem_pending a).2 ⟨m, hm, hp⟩)
    refine ⟨fun e he => ?_, hcount, fun i a ha => ?_⟩
    · have hperm := h.completing.perm fun k hk => ?_
      · have := hperm.subset (List.mem_map_of_mem he)
        rwa [List.mem_map_of_injective hinj] at this
      · cases k with
        | inl a =>
            obtain ⟨m, hm⟩ := Option.ne_none_iff_exists'.1 (pending_msg hk)
            have hu : m.use = .pending := by
              rw [State.Completing, uses_of_msg hm] at hk
              exact Option.some.inj hk
            exact hpend a m hm (by rw [Msg.pending, hu])
        | inr n =>
            rw [State.Completing, hidle n] at hk
            cases hk
    · rw [hT.filed.rings.reaches_elem_iff, hT.mem_bucket] at ha
      obtain ⟨m, hm, hp, -⟩ := ha
      exact hpend a m hm hp

/-- **Every command is completed exactly once** in every run in which no
request fails to be sent and the channel is lost quietly. -/
theorem commands_completed (hr : ((channelSystem cfg).only LostQuietly).Reachable σ) :
    CompletedOnce σ := by
  obtain ⟨hB, h⟩ := commands_reachable hr
  exact h.completed hB

/-! ## A channel that is lost quietly, and one that is not -/

/-- Who takes no step stays where it is. -/
theorem Step.pc_other (hs : Step cfg σ act σ') (hy : act.actor ≠ some y) : σ'.pc y = σ.pc y := by
  have hne : ∀ x, act.actor = some x → y ≠ x := fun x hx e => hy (e ▸ hx)
  cases hs with
  | edit | putResp | arrive => rfl
  | _ => exact Function.update_of_ne (hne _ rfl) ..

theorem pc_of_steps {acts : List Action} {P : State → Action → Prop}
    (h : ((channelSystem cfg).only P).Steps σ acts σ') (hy : ∀ act ∈ acts, act.actor ≠ some y) :
    σ'.pc y = σ.pc y := by
  induction h with
  | nil => rfl
  | cons he hx _ ih =>
      rw [ih fun act hact => hy act (List.mem_cons_of_mem _ hact)]
      exact (Step.of_exec he.1 hx).pc_other (hy _ List.mem_cons_self)

/-- Every issue is of a command of its own, and the peer answers each
request at most once. -/
structure Served (cfg : Cfg) (σ : State) (act : Action) : Prop where
  own : act.own σ = true
  answers : ∀ bs, act = .arrive bs → Answered cfg.toRecvCfg σ.sent (σ.arrived ++ bs)

/-- The receive thread returns, and a worker closes the channel. -/
def loseChannel : List Action :=
  [.recvEnd 0, .take 0, .dispatch 0, .put (.worker 0), .close (.worker 0), .close (.worker 0),
    .close (.worker 0), .close (.worker 0)]

/-- **A request that had no answer**: its command is never completed, and it
stays in the hash. -/
theorem commands_lost : ¬∀ (cfg : Cfg) (σ : State),
    ((channelSystem cfg).only (Served cfg)).Reachable σ → CompletedOnce σ := by
  intro h
  have hrun : ((((channelSystem smallCfg).only fun σ act => act.own σ = true).run smallChannel
      (pendingRequest ++ [.recvStart 9] ++ loseChannel)).any fun σ : State =>
        decide (σ.pc .receiver = .left ∧ σ.queue = [] ∧ σ.pc (.worker 0) = .idle ∧ σ.chan.count = 1)) =
      true := by
    decide +kernel
  obtain ⟨σ, hsteps, hσ⟩ := System.Steps.of_run_any hrun
  obtain ⟨hleft, hqueue, hzero, hcount⟩ := of_decide_eq_true hσ
  have hserved := hsteps.mono (Q := Served smallCfg) fun s act hact hown => ⟨hown, fun bs e => by
    subst e
    simp [pendingRequest, loseChannel] at hact⟩
  have hidle : ∀ n, σ.pc (.worker n) = .idle := by
    intro n
    by_cases hn : n = 0
    · rw [hn, hzero]
    · refine pc_of_steps hsteps fun act hact => ?_
      fin_cases hact <;> simp [Action.actor, Ne.symm hn]
  have hall := (h smallCfg σ (hserved.reachable (.init smallChannel_init))).all hleft hqueue hidle
  rw [hcount] at hall
  exact absurd hall.2.1 (by decide)

/-- A request, its response and its command; the channel is lost after it. -/
theorem commands_completed_answered : ∃ σ, ((channelSystem smallCfg).only LostQuietly).Reachable σ ∧
    σ.pc .receiver = .left ∧ σ.completed = [0] ∧ CompletedOnce σ := by
  have hrun : ((((channelSystem smallCfg).only fun σ act => act.own σ = true ∧ σ.pc .receiver ≠ .left).run
      smallChannel (askAndAnswer ++ [.put (.worker 3), .put (.worker 3), .finish 3, .recvStart 9])).any
        fun σ : State => decide (σ.queue = [] ∧ σ.pc (.worker 3) = .idle ∧ σ.chan.count = 0) && ((channelSystem smallCfg).run σ loseChannel).any
            fun σ : State => decide (σ.pc .receiver = .left ∧ σ.completed = [0])) = true := by
    decide +kernel
  obtain ⟨σ₁, hsteps₁, hσ⟩ := System.Steps.of_run_any hrun
  rw [Bool.and_eq_true] at hσ
  obtain ⟨hqueue, hthree, hcount⟩ := of_decide_eq_true hσ.1
  obtain ⟨σ, hsteps₂, hlast⟩ := System.Steps.of_run_any hσ.2
  obtain ⟨hleft, hdone⟩ := of_decide_eq_true hlast
  have hfirst := hsteps₁.mono (Q := LostQuietly) fun s act hact hok => by
    refine ⟨fun n a part rest e => ?_, hok.1, fun j e => ?_, fun _ _ _ _ => hok.2⟩
    · subst e
      simp [askAndAnswer] at hact
    · subst e
      simp [askAndAnswer] at hact
  have hr₁ := hfirst.reachable (.init smallChannel_init)
  -- no worker has a response
  have hbalanced : σ₁.Balanced := by
    refine ⟨[], List.nodup_nil, fun b => iff_of_false List.not_mem_nil ?_, hcount⟩
    rintro ⟨hq | ⟨x, hx⟩, -⟩
    · rw [hqueue] at hq
      cases hq
    · obtain ⟨n, rfl⟩ := (commands_reachable hr₁).2.workers x (by simp [hx])
      by_cases hn : n = 3
      · rw [hn, hthree] at hx
        cases hx
      · have hpc : σ₁.pc (.worker n) = .idle := pc_of_steps hsteps₁ fun act hact => by
          fin_cases hact <;> simp [Action.actor, Ne.symm hn]
        rw [hpc] at hx
        cases hx
  have hr : ((channelSystem smallCfg).only LostQuietly).Reachable σ := by
    cases hsteps₂ with
    | cons he hx hrest =>
        have hlost : LostQuietly σ₁ (.recvEnd 0) :=
          ⟨fun _ _ _ _ e => (by cases e), rfl, fun _ _ => hbalanced, fun _ _ e => (by cases e)⟩
        have hquiet := hrest.only (P := LostQuietly) fun s act hact => by
          fin_cases hact <;> exact ⟨fun _ _ _ _ e => (by cases e), rfl, fun _ e => (by cases e),
            fun _ _ e => (by cases e)⟩
        exact (System.Steps.cons (S := (channelSystem smallCfg).only LostQuietly) ⟨he, hlost⟩ hx
          hquiet).reachable hr₁
  exact ⟨σ, hr, hleft, hdone, commands_completed hr⟩

end Mpp

end VmwareProto
