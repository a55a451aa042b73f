import VmwareProto.Rpc.Close
/-!
# `rpc_chan_close` and the descriptors of others

As long as no open returns a number that a call still goes by, a number of
the channel that is open stands for what the channel was given, and nobody
else has a context under it. So every close, every context freed and every
`EPOLL_CTL_DEL` is of the channel's own, and each of its descriptors is
closed once. A number that is reused in between is closed a second time,
whoever has it.
-/

namespace VmwareProto

namespace Libtask

namespace Registry

variable {σ τ : Registry} {fd : ℤ} {p : Libtask.Ctx}

theorem ctxtDelete_of_lookup (h : σ.ctxtLookup fd = .ok p) (readied : List TaskId) :
    { σ with readied := readied }.ctxtDelete fd =
      some (0, { σ with tcarray := Function.update σ.tcarray fd none, readied := readied }) := by
  obtain ⟨hr, hp⟩ := lookup_eq_ok_iff.1 h
  rw [ctxtDelete, if_neg (by omega), if_neg (by omega), if_neg (by simp [hp])]

/-- `task_fd_deregister` of a closed descriptor is what it is in steps. -/
theorem taskFdDeregister_of_closed (h : σ.fds fd = none) :
    σ.taskFdDeregister fd = (σ.forget fd).map fun r => (-1, r.2) := by
  rw [taskFdDeregister, forget, h]
  cases hl : σ.ctxtLookup fd with
  | error res => rfl
  | ok p =>
      dsimp only
      cases hh : σ.heap p with
      | none => simp
      | some c =>
          cases c with
          | libaio d => simp
          | event d task arg => simp
          | socket ty d reader writer => simp [ctxtDelete_of_lookup hl]

/-- Entry `fd` and its context `p` are gone. -/
structure Forgets (σ : Registry) (fd : ℤ) (p : Libtask.Ctx) (τ : Registry) : Prop where
  entry : σ.tcarray fd = some p
  tcarray : τ.tcarray = Function.update σ.tcarray fd none
  heap : τ.heap = Function.update σ.heap p none
  fds : τ.fds = σ.fds

theorem forget_of_error {res : ℤ} (h : σ.ctxtLookup fd = .error res) :
    σ.forget fd = some (none, σ) := by
  rw [forget, h]

theorem forget_of_socket {ty : TaskType} {d : ℤ} {reader writer : Option TaskId}
    (hl : σ.ctxtLookup fd = .ok p) (hh : σ.heap p = some (.socket ty d reader writer)) :
    ∃ τ, σ.forget fd = some (some (p, reader.isSome || writer.isSome), τ) ∧ σ.Forgets fd p τ := by
  simp only [forget, hl, hh, ctxtDelete_of_lookup hl, Option.bind_eq_bind, Option.bind_some]
  exact ⟨_, rfl, (lookup_eq_ok_iff.1 hl).2, rfl, rfl, rfl⟩

theorem forget_cases {r : Option (Libtask.Ctx × Bool)} (h : σ.forget fd = some (r, τ)) :
    r = none ∧ τ = σ ∨ ∃ p yields, r = some (p, yields) ∧ σ.Forgets fd p τ := by
  cases hl : σ.ctxtLookup fd with
  | error res =>
      rw [forget_of_error hl] at h
      cases h
      exact .inl ⟨rfl, rfl⟩
  | ok p =>
      cases hh : σ.heap p with
      | none => simp [forget, hl, hh] at h
      | some c =>
          cases c with
          | libaio d => simp [forget, hl, hh] at h
          | event d task arg => simp [forget, hl, hh] at h
          | socket ty d reader writer =>
              obtain ⟨τ', hf, hτ⟩ := forget_of_socket hl hh
              rw [hf] at h
              cases h
              exact .inr ⟨p, _, rfl, hτ⟩

end Registry

end Libtask

namespace Rpc

open Libtask

variable {σ τ : Closing} {x y : TaskId} {e : End} {fd n : ℤ} {p : Libtask.Ctx} {act : CloseAction} {k : RegAnswers}

namespace Closing

/-! ## Numbers in use -/

/-- A number that a call goes by: the channel has it, or a call of
`task_fd_deregister` was given it. -/
def Named (σ : Closing) (fd : ℤ) : Prop :=
  fd = σ.infd ∨ fd = σ.outfd ∨ ∃ x ∈ σ.callers, (σ.pc x).arg = some fd

instance (σ : Closing) (fd : ℤ) : Decidable (σ.Named fd) := inferInstanceAs (Decidable (_ ∨ _ ∨ _))

theorem named_fd (σ : Closing) (e : End) : σ.Named (σ.fd e) := by
  cases e with
  | infd => exact .inl rfl
  | outfd => exact .inr (.inl rfl)

/-- What is closed where a task is in `rpc_chan_close`. -/
def PlaceOk (σ : Closing) : ClosePc → Prop
  | .test .outfd | .close .outfd => σ.isOpen σ.infd = false
  | .deregister _ fd | .yielded _ fd | .epollDel _ fd =>
      (∀ e, σ.isOpen (σ.fd e) = false) ∧ σ.isOpen fd = false
  | _ => True

theorem PlaceOk.mono {pc : ClosePc} (h : σ.PlaceOk pc)
    (hends : ∀ e, σ.isOpen (σ.fd e) = false → τ.isOpen (τ.fd e) = false)
    (harg : ∀ n, pc.arg = some n → σ.isOpen n = false → τ.isOpen n = false) : τ.PlaceOk pc := by
  cases pc with
  | out => trivial
  | test e => cases e with
    | infd => trivial
    | outfd => exact hends .infd h
  | close e => cases e with
    | infd => trivial
    | outfd => exact hends .infd h
  | deregister e n | yielded e n | epollDel e n =>
      exact ⟨fun e => hends e (h.1 e), harg n rfl h.2⟩

/-- Every number of the channel stands for what the channel was given, or
for nothing. -/
structure Numbers (σ : Closing) : Prop where
  nonneg : ∀ n, σ.isOpen n = true → 0 ≤ n
  file_lt : ∀ n, σ.isOpen n = true → σ.file n < σ.nfiles
  file_inj : ∀ n m, σ.isOpen n = true → σ.isOpen m = true → σ.file n = σ.file m → n = m
  own_lt : ∀ e, σ.own e < σ.nfiles
  number : ∀ n e, σ.isOpen n = true → σ.file n = σ.own e → σ.fd e = n
  owner : ∀ e, σ.isOpen (σ.fd e) = true → σ.file (σ.fd e) = σ.own e
  counted : ∀ e, σ.effects.count (.closed (σ.own e)) = if σ.isOpen (σ.fd e) = true then 0 else 1
  effects : ∀ a ∈ σ.effects, σ.Own a.file
  place : ∀ x, σ.PlaceOk (σ.pc x)
  callers : ∀ x, σ.pc x ≠ .out → x ∈ σ.callers
  returned : 0 < σ.returned → ∀ e, σ.isOpen (σ.fd e) = false

/-- A context under a number that a call goes by is the channel's. -/
structure Entries (σ : Closing) : Prop where
  live : ∀ n p, σ.registry.tcarray n = some p → (σ.registry.heap p).isSome = true
  inj : ∀ n m p, σ.registry.tcarray n = some p → σ.registry.tcarray m = some p → n = m
  own : ∀ n p, 0 ≤ n → σ.Named n → σ.registry.tcarray n = some p →
    σ.Own (σ.made p) ∧ ∃ ty fd reader writer, σ.registry.heap p = some (.socket ty fd reader writer)

theorem Numbers.own_of_open (h : σ.Numbers) (hn : σ.Named n) (ho : σ.isOpen n = true) :
    σ.Own (σ.file n) := by
  rcases hn with rfl | rfl | ⟨x, -, hx⟩
  · exact .inl (h.owner .infd ho)
  · exact .inr (h.owner .outfd ho)
  · have hp := h.place x
    have hclosed : σ.isOpen n = false := by
      cases hpc : σ.pc x with
      | out | test _ | close _ => simp [hpc, ClosePc.arg] at hx
      | deregister _ d | yielded _ d | epollDel _ d =>
          obtain rfl : d = n := by simpa [hpc, ClosePc.arg] using hx
          rw [hpc] at hp
          exact hp.2
    rw [hclosed] at ho
    cases ho

/-- What no call goes by in the new state either. -/
theorem Entries.mono (h : σ.Entries) (htc : τ.registry.tcarray = σ.registry.tcarray)
    (hheap : τ.registry.heap = σ.registry.heap) (hmade : τ.made = σ.made) (hown : τ.own = σ.own)
    (hn : ∀ n, 0 ≤ n → τ.Named n → σ.Named n) : τ.Entries where
  live n p := by rw [htc, hheap]; exact h.live n p
  inj n m p := by rw [htc]; exact h.inj n m p
  own n p h0 hnamed := by
    rw [htc, hheap, hmade]
    simpa only [Own, hown] using h.own n p h0 (hn n h0 hnamed)

/-! ## A task goes on -/

theorem Numbers.goto {pc : ClosePc} (h : σ.Numbers) (hp : σ.PlaceOk pc) (hx : x ∈ σ.callers) :
    (σ.goto x pc).Numbers :=
  { h with
    place := fun y => by
      by_cases he : y = x
      · rw [he, show (σ.goto x pc).pc x = pc from Function.update_self ..]
        exact hp
      · rw [show (σ.goto x pc).pc y = σ.pc y from Function.update_of_ne he ..]
        exact h.place y
    callers := fun y hy => by
      by_cases he : y = x
      · exact he ▸ hx
      · rw [show (σ.goto x pc).pc y = σ.pc y from Function.update_of_ne he ..] at hy
        exact h.callers y hy }

theorem Named.of_goto {pc : ClosePc} (hpc : ∀ n, pc.arg = some n → σ.Named n)
    (h : (σ.goto x pc).Named n) : σ.Named n := by
  rcases h with h | h | ⟨y, hy, h⟩
  · exact .inl h
  · exact .inr (.inl h)
  · by_cases he : y = x
    · rw [he, show (σ.goto x pc).pc x = pc from Function.update_self ..] at h
      exact hpc n h
    · rw [show (σ.goto x pc).pc y = σ.pc y from Function.update_of_ne he ..] at h
      exact .inr (.inr ⟨y, hy, h⟩)

theorem Entries.goto {pc : ClosePc} (h : σ.Entries) (hpc : ∀ n, pc.arg = some n → σ.Named n) :
    (σ.goto x pc).Entries :=
  h.mono rfl rfl rfl rfl fun _ _ hn => hn.of_goto hpc

/-- A call begins. -/
theorem Numbers.call (h : σ.Numbers) : (σ.call x).Numbers :=
  { h with callers := fun y hy => List.mem_cons_of_mem _ (h.callers y hy) }

theorem Numbers.afterClose (h : σ.Numbers) (hp : σ.PlaceOk (.close e))
    (hclosed : σ.isOpen (σ.fd e) = false) (hx : x ∈ σ.callers) :
    (σ.goto x (σ.afterClose e)).Numbers := by
  refine h.goto ?_ hx
  cases e with
  | infd => exact hclosed
  | outfd =>
      refine ⟨fun e => ?_, hp⟩
      cases e with
      | infd => exact hp
      | outfd => exact hclosed

theorem Entries.afterClose (h : σ.Entries) : (σ.goto x (σ.afterClose e)).Entries := by
  refine h.goto fun n hn => ?_
  cases e with
  | infd => cases hn
  | outfd => exact .inl (Option.some.inj hn).symm

/-- `task_fd_deregister` returns. -/
theorem Numbers.deregistered (h : σ.Numbers) (hclosed : ∀ e, σ.isOpen (σ.fd e) = false)
    (hx : x ∈ σ.callers) : (σ.deregistered x e).Numbers := by
  cases e with
  | infd => exact h.goto ⟨hclosed, hclosed .outfd⟩ hx
  | outfd =>
      have hg : (σ.goto x .out).Numbers := h.goto trivial hx
      have hminus : σ.isOpen (-1) = false := by
        by_contra hne
        have h0 := h.nonneg (-1) (by simpa using hne)
        omega
      have hfd : ∀ e, (σ.deregistered x .outfd).fd e = -1 := fun e => by cases e <;> rfl
      have hall : ∀ e, (σ.deregistered x .outfd).isOpen ((σ.deregistered x .outfd).fd e) = false :=
        fun e => by rw [hfd]; exact hminus
      refine { hg with
        number := fun n e ho hf => ?_
        owner := fun e ho => ?_
        counted := fun e => ?_
        place := fun y => ?_
        returned := fun _ => hall }
      · have hown := h.number n e ho hf
        rw [← hown] at ho
        exact absurd ho (by simp [show (σ.deregistered x .outfd).isOpen (σ.fd e) = false from hclosed e])
      · rw [hall e] at ho
        cases ho
      · rw [hall e]
        have hc := h.counted e
        rw [hclosed e] at hc
        exact hc
      · exact (hg.place y).mono (fun e _ => hall e) fun _ _ hn => hn

theorem Entries.deregistered (h : σ.Entries) : (σ.deregistered x e).Entries := by
  cases e with
  | infd => exact h.goto fun n hn => .inr (.inl (Option.some.inj hn).symm)
  | outfd =>
      refine h.mono rfl rfl rfl rfl fun n h0 hn => ?_
      rcases hn with rfl | rfl | hn
      · exact absurd h0 (show ¬(0 : ℤ) ≤ -1 by decide)
      · exact absurd h0 (show ¬(0 : ℤ) ≤ -1 by decide)
      · have hn' : (σ.goto x .out).Named n := .inr (.inr hn)
        exact hn'.of_goto fun _ hn => by cases hn

/-! ## What a step does -/

/-- The registry changes, and which numbers are open does not. -/
theorem Numbers.withRegistry {ρ : Registry} (h : σ.Numbers)
    (ho : ∀ n, (ρ.fds n).isSome = σ.isOpen n) : (σ.withRegistry ρ).Numbers := by
  have ho : (σ.withRegistry ρ).isOpen = σ.isOpen := funext ho
  constructor
  · rw [ho]; exact h.nonneg
  · rw [ho]; exact h.file_lt
  · rw [ho]; exact h.file_inj
  · exact h.own_lt
  · rw [ho]; exact h.number
  · rw [ho]; exact h.owner
  · rw [ho]; exact h.counted
  · exact h.effects
  · exact fun y => (h.place y).mono (fun e he => (congrFun ho _).trans he)
      fun n _ hn => (congrFun ho n).trans hn
  · exact h.callers
  · rw [ho]; exact h.returned

/-- A context of the channel is freed. -/
theorem Numbers.forgot (h : σ.Numbers) (hf : σ.Own (σ.made p)) : (σ.forgot p).Numbers :=
  { h with
    counted := fun e => by
      show (σ.effects ++ [Effect.forgot (σ.made p)]).count (Effect.closed (σ.own e)) = _
      rw [List.count_append, List.count_singleton, if_neg (by simp)]
      exact h.counted e
    effects := fun a ha => by
      rcases List.mem_append.1 ha with ha | ha
      · exact h.effects a ha
      · rw [List.mem_singleton.1 ha]
        exact hf }

/-- An entry goes, with its context. -/
theorem Entries.forget {ρ : Registry} (h : σ.Entries) (hf : σ.registry.Forgets n p ρ) :
    (σ.withRegistry ρ).Entries := by
  have hsub : ∀ m q, ρ.tcarray m = some q →
      σ.registry.tcarray m = some q ∧ ρ.heap q = σ.registry.heap q := fun m q hq => by
    rw [hf.tcarray] at hq
    by_cases hm : m = n
    · rw [hm, Function.update_self] at hq
      cases hq
    · rw [Function.update_of_ne hm] at hq
      have hne : q ≠ p := fun he => hm (h.inj m n p (he ▸ hq) hf.entry)
      exact ⟨hq, by rw [hf.heap, Function.update_of_ne hne]⟩
  constructor
  · intro m q hq
    obtain ⟨htc, hh⟩ := hsub m q hq
    rw [show (σ.withRegistry ρ).registry.heap q = σ.registry.heap q from hh]
    exact h.live m q htc
  · exact fun m m' q hq hq' => h.inj m m' q (hsub m q hq).1 (hsub m' q hq').1
  · intro m q h0 hn hq
    obtain ⟨htc, hh⟩ := hsub m q hq
    rw [show (σ.withRegistry ρ).registry.heap q = σ.registry.heap q from hh]
    exact h.own m q h0 hn htc

theorem isOpen_close (fd n : ℤ) :
    (σ.withRegistry (σ.registry.close fd)).isOpen n = true ↔ n ≠ fd ∧ σ.isOpen n = true := by
  show ((Function.update σ.registry.fds fd none) n).isSome = true ↔ _
  by_cases hn : n = fd
  · simp [hn]
  · rw [Function.update_of_ne hn]
    exact ⟨fun hi => ⟨hn, hi⟩, And.right⟩

theorem closed_close (fd : ℤ) (hn : σ.isOpen n = false) :
    (σ.withRegistry (σ.registry.close fd)).isOpen n = false := by
  rw [← Bool.not_eq_true, isOpen_close, not_and]
  exact fun _ => by simp [hn]

/-- Something is closed, and counted where it is the channel's. -/
theorem Numbers.close (h : σ.Numbers) (effects : List Effect)
    (hcount : ∀ e, effects.count (.closed (σ.own e)) =
      if (σ.withRegistry (σ.registry.close fd)).isOpen (σ.fd e) = true then 0 else 1)
    (heff : ∀ a ∈ effects, σ.Own a.file) :
    ({ σ.withRegistry (σ.registry.close fd) with effects := effects } : Closing).Numbers where
  nonneg n hn := h.nonneg n ((isOpen_close fd n).1 hn).2
  file_lt n hn := h.file_lt n ((isOpen_close fd n).1 hn).2
  file_inj n m hn hm := h.file_inj n m ((isOpen_close fd n).1 hn).2 ((isOpen_close fd m).1 hm).2
  own_lt := h.own_lt
  number n e hn := h.number n e ((isOpen_close fd n).1 hn).2
  owner e hn := h.owner e ((isOpen_close fd _).1 hn).2
  counted := hcount
  effects := heff
  place y := (h.place y).mono (fun _ he => closed_close fd he) fun _ _ hn => closed_close fd hn
  callers := h.callers
  returned hr e := closed_close fd (h.returned hr e)

/-- `close` of one end closes what is open there, which is the channel's. -/
theorem Numbers.closeEnd (h : σ.Numbers) : (σ.closeEnd e).Numbers := by
  refine h.close (σ.effects ++ σ.onOpen (σ.fd e) .closed) (fun e' => ?_) fun a ha => ?_
  · have hc := h.counted e'
    by_cases hopen : σ.isOpen (σ.fd e) = true
    · have hfile := h.owner e hopen
      rw [onOpen, if_pos hopen, hfile, List.count_append, hc, List.count_singleton]
      by_cases hsame : σ.fd e' = σ.fd e
      · -- one descriptor for both ends
        have hown : σ.own e' = σ.own e := by
          rw [← h.owner e' (hsame ▸ hopen), hsame, hfile]
        rw [hsame, if_pos hopen, hown, if_pos (by simp)]
        exact (if_neg fun hi => ((isOpen_close _ _).1 hi).1 rfl).symm
      · have hown : σ.own e' ≠ σ.own e := fun he =>
          hsame (h.number _ e' hopen (hfile.trans he.symm))
        have hne : (Effect.closed (σ.own e) == Effect.closed (σ.own e')) = false := by
          simpa using hown.symm
        rw [hne, if_neg Bool.false_ne_true, Nat.add_zero]
        refine if_congr ?_ rfl rfl
        exact ⟨fun hi => (isOpen_close _ _).2 ⟨hsame, hi⟩, fun hi => ((isOpen_close _ _).1 hi).2⟩
    · rw [onOpen, if_neg hopen, List.append_nil, hc]
      refine if_congr ⟨fun hi => ?_, fun hi => ((isOpen_close _ _).1 hi).2⟩ rfl rfl
      exact (isOpen_close _ _).2 ⟨fun he => hopen (he ▸ hi), hi⟩
  · rcases List.mem_append.1 ha with ha | ha
    · exact h.effects a ha
    · unfold onOpen at ha
      split at ha
      · rename_i hopen
        rw [List.mem_singleton.1 ha]
        exact h.own_of_open (σ.named_fd e) hopen
      · cases ha

/-- Where a call of `task_fd_deregister` is, its number is in use. -/
theorem Numbers.named_arg (h : σ.Numbers) (hx : (σ.pc x).arg = some n) : σ.Named n := by
  refine .inr (.inr ⟨x, h.callers x fun he => ?_, hx⟩)
  rw [he] at hx
  cases hx

/-- An open returns a number that no call goes by. -/
theorem Numbers.openFile {cloexec : Bool} (h : σ.Numbers) (hl : σ.Lowest fd) (hn : ¬σ.Named fd) :
    (σ.openFile fd cloexec).Numbers := by
  have hself : (σ.openFile fd cloexec).file fd = σ.nfiles := Function.update_self ..
  have hfile : ∀ n, n ≠ fd → (σ.openFile fd cloexec).file n = σ.file n := fun n hn =>
    Function.update_of_ne hn ..
  have hopen : ∀ n, n ≠ fd → (σ.openFile fd cloexec).isOpen n = σ.isOpen n := fun n hn => by
    show ((Function.update σ.registry.fds fd (some none)) n).isSome = _
    rw [Function.update_of_ne hn]
    rfl
  have hne : ∀ e, σ.fd e ≠ fd := fun e he => hn (he ▸ σ.named_fd e)
  have hends : ∀ e, (σ.openFile fd cloexec).isOpen (σ.fd e) = σ.isOpen (σ.fd e) :=
    fun e => hopen _ (hne e)
  constructor
  · intro n ho
    by_cases hnf : n = fd
    · exact hnf ▸ hl.1
    · exact h.nonneg n (hopen n hnf ▸ ho)
  · intro n ho
    by_cases hnf : n = fd
    · rw [hnf, hself]
      exact Nat.lt_succ_self _
    · rw [hfile n hnf]
      exact Nat.lt_succ_of_lt (h.file_lt n (hopen n hnf ▸ ho))
  · intro n m ho ho' hf
    by_cases hnf : n = fd
    · by_cases hmf : m = fd
      · rw [hnf, hmf]
      · rw [hnf, hself, hfile m hmf] at hf
        exact absurd hf (Nat.ne_of_gt (h.file_lt m (hopen m hmf ▸ ho')))
    · rw [hfile n hnf] at hf
      by_cases hmf : m = fd
      · rw [hmf, hself] at hf
        exact absurd hf (Nat.ne_of_lt (h.file_lt n (hopen n hnf ▸ ho)))
      · rw [hfile m hmf] at hf
        exact h.file_inj n m (hopen n hnf ▸ ho) (hopen m hmf ▸ ho') hf
  · exact fun e => Nat.lt_succ_of_lt (h.own_lt e)
  · intro n e ho hf
    by_cases hnf : n = fd
    · rw [hnf, hself] at hf
      exact absurd hf (Nat.ne_of_gt (h.own_lt e))
    · rw [hfile n hnf] at hf
      exact h.number n e (hopen n hnf ▸ ho) hf
  · intro e ho
    show (σ.openFile fd cloexec).file (σ.fd e) = σ.own e
    rw [hfile _ (hne e)]
    exact h.owner e (hends e ▸ ho)
  · intro e
    exact (h.counted e).trans (by rw [← hends e]; rfl)
  · exact h.effects
  · intro y
    refine (h.place y).mono (fun e he => (hends e).trans he) fun n harg he => ?_
    rw [hopen n fun hnf => hn (hnf ▸ h.named_arg harg)]
    exact he
  · exact h.callers
  · exact fun hr e => (hends e).trans (h.returned hr e)

theorem Entries.openFile {cloexec : Bool} (h : σ.Entries) : (σ.openFile fd cloexec).Entries :=
  h.mono rfl rfl rfl rfl fun _ _ hn => hn

/-- Somebody closes a descriptor that is not the channel's. -/
theorem Numbers.closeFile (h : σ.Numbers) (hf : CloseAction.Foreign σ fd) :
    (σ.withRegistry (σ.registry.close fd)).Numbers := by
  refine h.close _ (fun e => (h.counted e).trans (if_congr ⟨fun hi => ?_, fun hi => ?_⟩ rfl rfl))
    h.effects
  · refine (isOpen_close _ _).2 ⟨fun he => hf.2 ?_, hi⟩
    exact he ▸ h.own_of_open (σ.named_fd e) hi
  · exact ((isOpen_close _ _).1 hi).2

/-- Somebody registers a descriptor that is not the channel's. -/
theorem Numbers.register {ρ : Registry} (h : σ.Numbers)
    (ho : ∀ n, (ρ.fds n).isSome = σ.isOpen n) : (σ.register fd k ρ).Numbers := by
  have hw := h.withRegistry ho
  exact ⟨hw.nonneg, hw.file_lt, hw.file_inj, hw.own_lt, hw.number, hw.owner, hw.counted, hw.effects,
    hw.place, hw.callers, hw.returned⟩

theorem Entries.register {c : TaskContext} {i : Option Interest} (hn : σ.Numbers)
    (h : σ.Entries) (hf : CloseAction.Foreign σ fd) (hk : k.calloc = some p)
    (hp : σ.registry.heap p = none) (hv : σ.registry.tcarray fd = none) :
    (σ.register fd k (σ.registry.entered c i fd p)).Entries := by
  have hfresh : ∀ n, σ.registry.tcarray n ≠ some p := fun n hn => by
    have hlive := h.live n p hn
    rw [hp] at hlive
    cases hlive
  have hself : (σ.registry.entered c i fd p).tcarray fd = some p := Function.update_self ..
  have htc : ∀ n, n ≠ fd → (σ.registry.entered c i fd p).tcarray n = σ.registry.tcarray n :=
    fun n hn => Function.update_of_ne hn ..
  have hheap : ∀ q, q ≠ p → (σ.registry.entered c i fd p).heap q = σ.registry.heap q :=
    fun q hq => Function.update_of_ne hq ..
  constructor
  · intro n q hq
    show ((σ.registry.entered c i fd p).heap q).isSome = true
    by_cases hqp : q = p
    · rw [hqp, show (σ.registry.entered c i fd p).heap p = some c from Function.update_self ..]
      rfl
    · rw [hheap q hqp]
      by_cases hnf : n = fd
      · subst hnf
        exact absurd (Option.some.inj (hself.symm.trans hq)).symm hqp
      · exact h.live n q ((htc n hnf).symm.trans hq)
  · intro n m q hq hq'
    by_cases hnf : n = fd
    · by_cases hmf : m = fd
      · rw [hnf, hmf]
      · subst hnf
        have hqp := Option.some.inj (hself.symm.trans hq)
        exact absurd ((htc m hmf).symm.trans hq') (hqp ▸ hfresh m)
    · by_cases hmf : m = fd
      · subst hmf
        have hqp := Option.some.inj (hself.symm.trans hq')
        exact absurd ((htc n hnf).symm.trans hq) (hqp ▸ hfresh n)
      · exact h.inj n m q ((htc n hnf).symm.trans hq) ((htc m hmf).symm.trans hq')
  · intro n q h0 hnamed hq
    have hnf : n ≠ fd := fun he => hf.2 (hn.own_of_open (he ▸ hnamed) hf.1)
    have hq := (htc n hnf).symm.trans hq
    have hqp : q ≠ p := fun he => hfresh n (he ▸ hq)
    obtain ⟨hown, hsock⟩ := h.own n q h0 hnamed hq
    have hmade : (σ.register fd k (σ.registry.entered c i fd p)).made q = σ.made q := by
      show (k.calloc.elim σ.made fun p => Function.update σ.made p (σ.file fd)) q = _
      rw [hk]
      exact Function.update_of_ne hqp ..
    rw [hmade]
    refine ⟨hown, ?_⟩
    show ∃ ty d reader writer, (σ.registry.entered c i fd p).heap q = some (.socket ty d reader writer)
    rw [hheap q hqp]
    exact hsock

/-- Nothing was registered. -/
theorem Entries.unregistered (h : σ.Entries) (hk : CloseAction.Allocates σ k) :
    (σ.register fd k σ.registry).Entries := by
  refine ⟨h.live, h.inj, fun n q h0 hnamed hq => ?_⟩
  obtain ⟨hown, hsock⟩ := h.own n q h0 hnamed hq
  have hmade : (σ.register fd k σ.registry).made q = σ.made q := by
    show (k.calloc.elim σ.made fun p => Function.update σ.made p (σ.file fd)) q = _
    cases hc : k.calloc with
    | none => rfl
    | some p =>
        have hqp : q ≠ p := by
          rintro rfl
          have hlive := h.live n q hq
          simp [CloseAction.Allocates, hc] at hk
          rw [hk] at hlive
          cases hlive
        exact Function.update_of_ne hqp ..
  rw [hmade]
  exact ⟨hown, hsock⟩

/-- A task is recorded, or woken. -/
theorem Entries.record {s : Side} {t : Option TaskId} (h : σ.Entries) :
    (σ.withRegistry (σ.registry.record p s t)).Entries := by
  have hheap : ∀ q, (σ.registry.record p s t).heap q =
      if q = p then (σ.registry.heap q).map (TaskContext.record s t) else σ.registry.heap q := fun q => by
    show Function.update σ.registry.heap p _ q = _
    by_cases hq : q = p
    · rw [hq, Function.update_self, if_pos rfl]
    · rw [Function.update_of_ne hq, if_neg hq]
  constructor
  · intro n q hq
    show ((σ.registry.record p s t).heap q).isSome = true
    rw [hheap]
    split
    · rw [Option.isSome_map]
      exact h.live n q hq
    · exact h.live n q hq
  · exact h.inj
  · intro n q h0 hnamed hq
    obtain ⟨hown, ty, d, reader, writer, hsock⟩ := h.own n q h0 hnamed hq
    refine ⟨hown, ?_⟩
    show ∃ ty d reader writer, (σ.registry.record p s t).heap q = some (.socket ty d reader writer)
    rw [hheap, hsock]
    split
    · cases s with
      | reader => exact ⟨ty, d, t, writer, rfl⟩
      | writer => exact ⟨ty, d, reader, t, rfl⟩
    · exact ⟨ty, d, reader, writer, rfl⟩

/-! ## Every run -/

/-- `fcntl` on what a call is about to close answers 0. -/
def Answers (σ : Closing) : ClosePc → Prop
  | .test e => σ.isOpen (σ.fd e) = true → σ.cloexec (σ.file (σ.fd e)) = false
  | _ => True

instance (σ : Closing) : (pc : ClosePc) → Decidable (σ.Answers pc)
  | .test _ => inferInstanceAs (Decidable (_ → _))
  | .out | .close _ | .deregister _ _ | .yielded _ _ | .epollDel _ _ => .isTrue trivial

/-- What keeps the calls apart from the descriptors of others: an open
returns no number that a call goes by, and no descriptor that a call is
about to close has `FD_CLOEXEC`. -/
def KeepsApart (σ : Closing) : CloseAction → Prop
  | .openFile fd _ => ¬σ.Named fd
  | .fcntl x => σ.Answers (σ.pc x)
  | _ => True

instance (σ : Closing) : (act : CloseAction) → Decidable (σ.KeepsApart act)
  | .openFile fd _ => inferInstanceAs (Decidable ¬σ.Named fd)
  | .fcntl x => inferInstanceAs (Decidable (σ.Answers (σ.pc x)))
  | .call _ | .close _ | .deregister _ | .epollDel _ | .taskswitch _ | .closeFile _
  | .register _ _ _ | .registerEvent _ _ _ _ | .forget _ | .record _ _ _ => .isTrue trivial

/-- Whatever `rpc_chan_close` closes or deregisters is the channel's. -/
def OnlyOwn (σ : Closing) : Prop := ∀ a ∈ σ.effects, σ.Own a.file

/-- No descriptor of the channel is closed twice, and each is closed once a
call has returned. -/
def ClosedOnce (σ : Closing) : Prop :=
  ∀ e, σ.effects.count (.closed (σ.own e)) ≤ 1 ∧
    (0 < σ.returned → σ.effects.count (.closed (σ.own e)) = 1)

theorem Fresh.numbers (h : σ.Fresh) : σ.Numbers where
  nonneg := h.nonneg
  file_lt := h.file_lt
  file_inj := h.file_inj
  own_lt e := (h.opened e).2 ▸ h.file_lt _ (h.opened e).1
  number n e ho hf := (h.file_inj n _ ho (h.opened e).1 (hf.trans (h.opened e).2.symm)).symm
  owner e _ := (h.opened e).2
  counted e := by rw [h.effects, if_pos (h.opened e).1]; rfl
  effects a ha := by rw [h.effects] at ha; cases ha
  place x := by rw [h.pc x]; trivial
  callers x hx := absurd (h.pc x) hx
  returned hr := by rw [h.returned] at hr; cases hr

theorem Fresh.entries (h : σ.Fresh) : σ.Entries where
  live := h.live
  inj := h.entry_inj
  own n p _ hn hp := by
    rcases hn with rfl | rfl | ⟨x, -, hx⟩
    · obtain ⟨hmade, hsock⟩ := h.entry_own .infd p hp
      exact ⟨.inl hmade, hsock⟩
    · obtain ⟨hmade, hsock⟩ := h.entry_own .outfd p hp
      exact ⟨.inr hmade, hsock⟩
    · rw [h.pc x] at hx
      cases hx

/-- What a descriptor that is registered leaves open. -/
theorem isSome_entered {c : TaskContext} {i : Option Interest} (hf : CloseAction.Foreign σ fd) (n : ℤ) :
    ((σ.registry.entered c i fd p).fds n).isSome = σ.isOpen n := by
  cases i with
  | none => rfl
  | some i =>
      show ((Function.update σ.registry.fds fd (some (some i))) n).isSome = _
      by_cases hn : n = fd
      · rw [hn, Function.update_self]
        exact hf.1.symm
      · rw [Function.update_of_ne hn]
        rfl

theorem allocates (hk : CloseAction.Allocates σ k) : σ.registry.Allocates k := fun p hp => by
  simpa [CloseAction.Allocates, hp] using hk

/-- A step of a call. -/
theorem keeps_call (h : σ.Numbers) (he : σ.Entries) (hout : σ.pc x = .out) :
    ((σ.call x).goto x (.test .infd)).Numbers ∧ ((σ.call x).goto x (.test .infd)).Entries := by
  refine ⟨h.call.goto trivial List.mem_cons_self, Entries.goto ?_ fun n hn => by cases hn⟩
  refine he.mono rfl rfl rfl rfl fun n _ hn => ?_
  rcases hn with hn | hn | ⟨y, hy, hn⟩
  · exact .inl hn
  · exact .inr (.inl hn)
  · rcases List.mem_cons.1 hy with rfl | hy
    · rw [show (σ.call y).pc y = .out from hout] at hn
      cases hn
    · exact .inr (.inr ⟨y, hy, hn⟩)

/-- `fcntl`: what is open is closed next. -/
theorem keeps_fcntl (h : σ.Numbers) (he : σ.Entries) (ht : σ.pc x = .test e)
    (hk : σ.Answers (.test e)) (hx : (CloseAction.fcntl x).exec σ = some τ) :
    τ.Numbers ∧ τ.Entries := by
  have hc : x ∈ σ.callers := h.callers x (by rw [ht]; exact ClosePc.noConfusion)
  have hp : σ.PlaceOk (.close e) := by
    have hp := h.place x
    rw [ht] at hp
    cases e with
    | infd => trivial
    | outfd => exact hp
  simp only [CloseAction.exec, ht] at hx
  by_cases hopen : σ.isOpen (σ.fd e) = true
  · rw [if_pos ⟨hopen, hk hopen⟩] at hx
    obtain rfl := Option.some.inj hx
    exact ⟨h.goto hp hc, he.goto fun n hn => by cases hn⟩
  · rw [if_neg fun hi => hopen hi.1] at hx
    obtain rfl := Option.some.inj hx
    exact ⟨h.afterClose hp (by simpa using hopen) hc, he.afterClose⟩

theorem keeps_close (h : σ.Numbers) (he : σ.Entries) (ht : σ.pc x = .close e) :
    ((σ.closeEnd e).goto x (σ.afterClose e)).Numbers ∧
      ((σ.closeEnd e).goto x (σ.afterClose e)).Entries := by
  have hc : x ∈ σ.callers := h.callers x (by rw [ht]; exact ClosePc.noConfusion)
  have hclosed : (σ.closeEnd e).isOpen ((σ.closeEnd e).fd e) = false := by
    show ((Function.update σ.registry.fds (σ.fd e) none) (σ.fd e)).isSome = false
    rw [Function.update_self]
    rfl
  have hp : (σ.closeEnd e).PlaceOk (.close e) := by
    have hp := h.closeEnd (e := e) |>.place x
    rwa [show (σ.closeEnd e).pc x = .close e from ht] at hp
  have hent : (σ.closeEnd e).Entries := he.mono rfl rfl rfl rfl fun _ _ hn => hn
  exact ⟨h.closeEnd.afterClose hp hclosed hc, hent.afterClose⟩

/-- `task_fd_deregister` up to its next system call: the context it frees is
the channel's. -/
theorem keeps_deregister (h : σ.Numbers) (he : σ.Entries) (ht : σ.pc x = .deregister e fd)
    (hx : (CloseAction.deregister x).exec σ = some τ) : τ.Numbers ∧ τ.Entries := by
  have hc : x ∈ σ.callers := h.callers x (by rw [ht]; exact ClosePc.noConfusion)
  have hp : (∀ e, σ.isOpen (σ.fd e) = false) ∧ σ.isOpen fd = false := by
    have hp := h.place x
    rwa [ht] at hp
  have hnamed : σ.Named fd := h.named_arg (x := x) (by rw [ht]; rfl)
  simp only [CloseAction.exec, ht, hp.2, Bool.false_eq_true, if_false] at hx
  have hfds : ∀ ρ : Registry, ρ.fds = σ.registry.fds → ∀ n, (ρ.fds n).isSome = σ.isOpen n :=
    fun ρ hρ n => by rw [hρ]; rfl
  split at hx
  · cases hx
  · rename_i ρ hforget
    obtain rfl := Option.some.inj hx
    rcases Registry.forget_cases hforget with ⟨-, rfl⟩ | ⟨p, yields, hsome, -⟩
    · exact ⟨h.goto hp hc, he.goto fun n hn => Option.some.inj hn ▸ hnamed⟩
    · cases hsome
  · rename_i p yields ρ hforget
    obtain rfl := Option.some.inj hx
    rcases Registry.forget_cases hforget with ⟨hnone, -⟩ | ⟨p', yields', hsome, hF⟩
    · cases hnone
    · cases hsome
      have h0 : 0 ≤ fd := by
        by_contra hneg
        have hl : σ.registry.ctxtLookup fd = .error taskioEbadfd := if_pos (by omega)
        rw [Registry.forget_of_error hl] at hforget
        cases hforget
      obtain ⟨hown, -⟩ := he.own fd p h0 hnamed hF.entry
      have hN : ((σ.forgot p).withRegistry ρ).Numbers := (h.forgot hown).withRegistry (hfds ρ hF.fds)
      have hE : ((σ.forgot p).withRegistry ρ).Entries :=
        (he.forget hF).mono rfl rfl rfl rfl fun _ _ hn => hn
      have hplace : ((σ.forgot p).withRegistry ρ).PlaceOk (.epollDel e fd) := by
        have ho : ((σ.forgot p).withRegistry ρ).isOpen = σ.isOpen := funext (hfds ρ hF.fds)
        exact ⟨fun e => (congrFun ho _).trans (hp.1 e), (congrFun ho _).trans hp.2⟩
      cases yields with
      | true => exact ⟨hN.goto hplace hc, hE.goto fun n hn => Option.some.inj hn ▸ hnamed⟩
      | false => exact ⟨hN.goto hplace hc, hE.goto fun n hn => Option.some.inj hn ▸ hnamed⟩

/-- `epoll_ctl` on a number that nothing is open under. -/
theorem keeps_epollDel (h : σ.Numbers) (he : σ.Entries) (hc : x ∈ σ.callers)
    (hp : σ.PlaceOk (.epollDel e fd)) :
    ((σ.unwatch fd).deregistered x e).Numbers ∧ ((σ.unwatch fd).deregistered x e).Entries := by
  have hsame : σ.unwatch fd = σ := by
    have hnone : σ.onOpen fd .unwatched = [] := if_neg (by simp [hp.2])
    have hreg : σ.registry.epollDel fd = σ.registry := if_neg (by
      rw [show (σ.registry.fds fd).isSome = false from hp.2]
      exact Bool.false_ne_true)
    rw [unwatch, hnone, hreg, List.append_nil]
  rw [hsame]
  exact ⟨h.deregistered hp.1 hc, he.deregistered⟩

/-- Registering, from what the call returned. -/
theorem keeps_register {r : Option (ℤ × Registry)} (h : σ.Numbers) (he : σ.Entries)
    (hf : CloseAction.Foreign σ fd) (hk : CloseAction.Allocates σ k)
    (hr : (∃ p c i, σ.registry.Vacant fd ∧ k.calloc = some p ∧ r = some (0, σ.registry.entered c i fd p)) ∨
      ∃ res, r = some (res, σ.registry))
    (hx : (r.map fun (_, ρ) => σ.register fd k ρ) = some τ) : τ.Numbers ∧ τ.Entries := by
  rcases hr with ⟨p, c, i, hv, hp, rfl⟩ | ⟨res, rfl⟩
  · obtain rfl := Option.some.inj hx
    exact ⟨h.register (isSome_entered hf), Entries.register h he hf hp (allocates hk p hp) hv.2.2⟩
  · obtain rfl := Option.some.inj hx
    exact ⟨h.register fun _ => rfl, he.unregistered hk⟩

/-- **One step.** -/
theorem keeps_step (h : σ.Numbers) (he : σ.Entries) (hen : act.Enabled σ) (hk : σ.KeepsApart act)
    (hx : act.exec σ = some τ) : τ.Numbers ∧ τ.Entries := by
  cases act with
  | call x =>
      obtain rfl := Option.some.inj hx
      exact keeps_call h he (by simpa using hen.2)
  | fcntl x =>
      have ht := hen.2
      dsimp only at ht
      split at ht
      · rename_i e hpc
        have hk : σ.Answers (σ.pc x) := hk
        rw [hpc] at hk
        exact keeps_fcntl h he hpc hk hx
      · cases ht
  | close x =>
      have ht := hen.2
      dsimp only at ht
      split at ht
      · rename_i e hpc
        simp only [CloseAction.exec, hpc] at hx
        obtain rfl := Option.some.inj hx
        exact keeps_close h he hpc
      · cases ht
  | deregister x =>
      have ht := hen.2
      dsimp only at ht
      split at ht
      · rename_i e n hpc
        exact keeps_deregister h he hpc hx
      · cases ht
  | epollDel x =>
      have ht := hen.2
      have hp := h.place x
      dsimp only at ht
      split at ht
      · rename_i e n hpc
        simp only [CloseAction.exec, hpc] at hx
        obtain rfl := Option.some.inj hx
        rw [hpc] at hp
        exact keeps_epollDel h he (h.callers x (by rw [hpc]; exact ClosePc.noConfusion)) hp
      · rename_i e n hpc
        simp only [CloseAction.exec, hpc] at hx
        obtain rfl := Option.some.inj hx
        rw [hpc] at hp
        exact keeps_epollDel h he (h.callers x (by rw [hpc]; exact ClosePc.noConfusion)) hp
      · cases ht
  | taskswitch y =>
      obtain rfl := Option.some.inj hx
      exact ⟨⟨h.nonneg, h.file_lt, h.file_inj, h.own_lt, h.number, h.owner, h.counted, h.effects,
        h.place, h.callers, h.returned⟩, he.mono rfl rfl rfl rfl fun _ _ hn => hn⟩
  | openFile fd cloexec =>
      obtain rfl := Option.some.inj hx
      exact ⟨h.openFile hen hk, he.openFile⟩
  | closeFile fd =>
      obtain rfl := Option.some.inj hx
      exact ⟨h.closeFile hen, he.mono rfl rfl rfl rfl fun _ _ hn => hn⟩
  | register r fd k =>
      refine keeps_register h he hen.2.1 hen.2.2 ?_ hx
      rcases Registry.taskFdRegister_cases r fd (allocates hen.2.2) with ⟨p, hreg, hp, heq⟩ | ⟨-, res, -, heq⟩
      · exact .inl ⟨p, _, _, hreg.1, hp, heq⟩
      · exact .inr ⟨res, heq⟩
  | registerEvent fd task arg k =>
      refine keeps_register h he hen.2.1 hen.2.2 ?_ hx
      rcases Registry.taskEventfdRegister_cases fd task arg (allocates hen.2.2) with
        ⟨p, hreg, hp, heq⟩ | ⟨-, res, -, heq⟩
      · exact .inl ⟨p, _, _, hreg.1, hp, heq⟩
      · exact .inr ⟨res, heq⟩
  | forget fd =>
      obtain ⟨⟨rc, ρ⟩, hd, rfl⟩ := Option.map_eq_some_iff.1 hx
      cases hfds : σ.registry.fds fd with
      | some i =>
          simp only [Registry.taskFdDeregister, hfds, Option.isSome_some, if_true] at hd
          cases hd
          exact ⟨h.withRegistry fun _ => rfl, he⟩
      | none =>
          rw [Registry.taskFdDeregister_of_closed hfds] at hd
          obtain ⟨⟨r, ρ'⟩, hforget, heq⟩ := Option.map_eq_some_iff.1 hd
          cases heq
          rcases Registry.forget_cases hforget with ⟨-, rfl⟩ | ⟨p, yields, -, hF⟩
          · exact ⟨h.withRegistry fun _ => rfl, he⟩
          · exact ⟨h.withRegistry fun n => by rw [hF.fds]; rfl, he.forget hF⟩
  | record p s t =>
      obtain rfl := Option.some.inj hx
      exact ⟨h.withRegistry fun _ => rfl, he.record⟩

end Closing

/-- **Closing a channel closes only its own descriptors**, each of them once,
in every run that keeps the calls apart from the descriptors of others. -/
theorem chan_close_own (σ : Closing) (hr : (closing.only Closing.KeepsApart).Reachable σ) :
    σ.OnlyOwn ∧ σ.ClosedOnce := by
  obtain ⟨h, -⟩ := hr.invariant (I := fun σ => σ.Numbers ∧ σ.Entries)
    (fun s hs => ⟨Closing.Fresh.numbers hs, Closing.Fresh.entries hs⟩)
    fun s act s' hI (he : act.Enabled s ∧ s.KeepsApart act) hx =>
      Closing.keeps_step hI.1 hI.2 he.1 he.2 hx
  refine ⟨h.effects, fun e => ?_⟩
  have hc := h.counted e
  refine ⟨?_, fun hret => ?_⟩
  · rw [hc]
    split
    · exact Nat.zero_le 1
    · exact Nat.le_refl 1
  · rw [hc, if_neg (by simp [h.returned hret e])]

/-! ## Two callers -/

/-- A channel with descriptors 3 and 4, both registered as FIFOs; 0 to 2 are
open besides, and task 1 runs. -/
def onFifos : Closing where
  registry :=
    { tcarray := fun n => if n = 3 then some 0 else if n = 4 then some 1 else none
      heap := fun p =>
        if p = 0 then some (.socket .fifo 3 none none)
        else if p = 1 then some (.socket .fifo 4 none none) else none
      fds := fun n =>
        if n = 3 then some (some ⟨0, ⟨true, false, false, false⟩, false⟩)
        else if 0 ≤ n ∧ n < 5 then some none else none
      readied := [] }
  file n := n.toNat
  nfiles := 5
  cloexec _ := false
  made p := p + 3
  enabled := true
  infd := 3
  outfd := 4
  own e := if e = .infd then 3 else 4
  taskrunning := 1
  pc _ := .out
  callers := []
  returned := 0
  effects := []

theorem fresh_onFifos : onFifos.Fresh := by
  have hopen : ∀ n, onFifos.isOpen n = true → 0 ≤ n ∧ n < 5 := fun n hn => by
    by_contra hne
    have h3 : n ≠ 3 := by omega
    simp [Closing.isOpen, onFifos, h3, hne] at hn
  have hentry : ∀ n p, onFifos.registry.tcarray n = some p → n = 3 ∧ p = 0 ∨ n = 4 ∧ p = 1 :=
    fun n p hp => by
      by_cases h3 : n = 3
      · simp [onFifos, h3] at hp
        exact .inl ⟨h3, hp.symm⟩
      · by_cases h4 : n = 4
        · simp [onFifos, h4] at hp
          exact .inr ⟨h4, hp.symm⟩
        · simp [onFifos, h3, h4] at hp
  constructor
  · intro e
    cases e with
    | infd => decide
    | outfd => decide
  · exact fun n hn => (hopen n hn).1
  · intro n hn
    have h := hopen n hn
    show n.toNat < 5
    omega
  · intro n m hn hm hf
    have h := hopen n hn
    have h' := hopen m hm
    have hf : n.toNat = m.toNat := hf
    omega
  · intro n p hp
    rcases hentry n p hp with ⟨-, rfl⟩ | ⟨-, rfl⟩
    · rfl
    · rfl
  · intro n m p hp hp'
    rcases hentry n p hp with ⟨rfl, rfl⟩ | ⟨rfl, rfl⟩
    · rcases hentry m 0 hp' with ⟨rfl, -⟩ | ⟨-, h⟩
      · rfl
      · cases h
    · rcases hentry m 1 hp' with ⟨-, h⟩ | ⟨rfl, -⟩
      · cases h
      · rfl
  · intro e p hp
    cases e with
    | infd =>
        cases hp
        exact ⟨rfl, .fifo, 3, none, none, rfl⟩
    | outfd =>
        cases hp
        exact ⟨rfl, .fifo, 4, none, none, rfl⟩
  · exact fun x => rfl
  · rfl
  · rfl

/-- Task 2 waits for input and task 1, which could not write, closes the
channel: it wakes task 2 and yields. -/
def untilYield : List CloseAction :=
  [.record 0 .reader (some 2), .call 1, .fcntl 1, .close 1, .fcntl 1, .close 1, .deregister 1]

/-- The handler of `CONNCLOSED`, task 4, closes the channel meanwhile; 3 is
opened again when both have returned. -/
theorem chan_close_own_two : ∃ σ : Closing, σ.returned = 2 ∧ σ.OnlyOwn ∧ σ.ClosedOnce := by
  have hrun : ((closing.only Closing.KeepsApart).run onFifos (untilYield ++
      [.taskswitch 4, .call 4, .fcntl 4, .fcntl 4, .deregister 4, .epollDel 4, .deregister 4,
        .epollDel 4, .taskswitch 1, .epollDel 1, .deregister 1, .epollDel 1, .openFile 3 false])).any
      (fun σ => decide (σ.returned = 2)) = true := by decide
  obtain ⟨σ, hs, hp⟩ := System.Steps.of_run_any hrun
  exact ⟨σ, of_decide_eq_true hp, chan_close_own σ (hs.reachable (.init fresh_onFifos))⟩

/-- Task 3 opens a descriptor meanwhile, which gets the number 3, and the
handler closes it. -/
theorem chan_close_reused : ¬∀ σ, closing.Reachable σ → σ.OnlyOwn ∧ σ.ClosedOnce := by
  intro h
  have hrun : (closing.run onFifos (untilYield ++
      [.taskswitch 3, .openFile 3 false, .taskswitch 4, .call 4, .fcntl 4, .close 4])).any
      (fun σ => decide (∃ a ∈ σ.effects, ¬σ.Own a.file)) = true := by decide
  obtain ⟨σ, hs, hp⟩ := System.Steps.of_run_any hrun
  obtain ⟨a, ha, hne⟩ := of_decide_eq_true hp
  exact hne ((h σ (hs.reachable (.init fresh_onFifos))).1 a ha)

end Rpc

end VmwareProto
