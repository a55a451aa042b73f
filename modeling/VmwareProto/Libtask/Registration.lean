import VmwareProto.Libtask.Timer
/-!
# Registration is all or nothing

A call that registers a descriptor goes through steps that may each fail.
`Succeeds` says that none does. One that fails should return an error and
leave the registry as it was; `Tidy` says when it does. What stands in the
way is an entry of `TCarray`: `tasknet_connect` leaves one behind, the calls
for FIFOs take one away that is not theirs, and `timer_init` does not see
that it has none.
-/

namespace VmwareProto

namespace Libtask

/-! ## Calls -/

/-- The calls that register a descriptor. -/
inductive RegCall
  | taskSockfdRegister (fd : ℤ) (k : RegAnswers)
  | taskFifofdRegister (fd : ℤ) (input : Bool) (k : RegAnswers)
  | taskEventfdRegister (fd : ℤ) (task arg : ℕ) (k : RegAnswers)
  | tasknetConnect (x : TaskId) (a : ConnectAnswers)
  | taskfifoAccept (a b : FifoAnswers)
  | taskfifoConnect (a b : FifoAnswers)
  | timerInit (t : TaskTimer) (cbfn : Option ℕ) (data : ℕ) (a : TimerAnswers)

def RegCall.exec (σ : Registry) : RegCall → Option (ℤ × Registry)
  | taskSockfdRegister fd k => σ.taskSockfdRegister fd k
  | taskFifofdRegister fd input k => σ.taskFifofdRegister fd input k
  | taskEventfdRegister fd task arg k => σ.taskEventfdRegister fd task arg k
  | tasknetConnect x a => σ.tasknetConnect x a
  | taskfifoAccept a b => σ.taskfifoAccept a b
  | taskfifoConnect a b => σ.taskfifoConnect a b
  | timerInit t cbfn data a => (σ.timerInit t cbfn data a).map fun r => (r.1, r.2.2)

namespace Registry

variable (σ : Registry)

/-- `calloc` returns memory that is not in use. -/
def Allocates (k : RegAnswers) : Prop := ∀ p, k.calloc = some p → σ.heap p = none

/-- The kernel opens a number that is not open. -/
def Opens (fd : ℤ) : Prop := 0 ≤ fd ∧ σ.fds fd = none

/-- The number has no entry, and may have one. -/
def Vacant (fd : ℤ) : Prop := 0 ≤ fd ∧ fd < taskioMaxFdValue ∧ σ.tcarray fd = none

/-- The number has no entry. -/
def Unlisted (fd : ℤ) : Prop := ∀ p, σ.ctxtLookup fd ≠ .ok p

/-- **No step of a registration fails.** -/
def Registers (regEpoll : Bool) (fd : ℤ) (k : RegAnswers) : Prop :=
  σ.Vacant fd ∧ k.calloc ≠ none ∧
  (regEpoll = true → σ.fds fd = some none ∧ k.epollCtl = none)

instance (regEpoll : Bool) (fd : ℤ) (k : RegAnswers) : Decidable (σ.Registers regEpoll fd k) :=
  inferInstanceAs (Decidable ((_ ∧ _ ∧ _) ∧ _ ∧ (_ → _ ∧ _)))

/-- No step of `taskfifo_accept` or `taskfifo_connect` fails. -/
def OpensFifos (input : Bool) (a b : FifoAnswers) : Prop :=
  ∃ fd fd', a.opened = .ok fd ∧ (σ.openFd fd).Registers input fd a.register ∧
    b.opened = .ok fd' ∧ (σ.openFd fd').Registers (!input) fd' b.register

end Registry

namespace RegCall

variable (σ : Registry)

/-- What the kernel and `calloc` may answer to two `open`s. -/
def FifosPossible (a b : FifoAnswers) : Prop :=
  σ.Allocates a.register ∧ σ.Allocates b.register ∧
  (∀ p, a.register.calloc = some p → b.register.calloc ≠ some p) ∧
  (∀ fd, a.opened = .ok fd → σ.Opens fd ∧ b.opened ≠ .ok fd) ∧ ∀ fd, b.opened = .ok fd → σ.Opens fd

/-- **What the kernel and `calloc` may answer**; and the timer that is
initialized is none already. -/
def Possible : RegCall → Prop
  | taskSockfdRegister _ k => σ.Allocates k
  | taskFifofdRegister _ _ k => σ.Allocates k
  | taskEventfdRegister _ _ _ k => σ.Allocates k
  | tasknetConnect _ a => σ.Allocates a.register ∧ ∀ fd, a.socket = .ok fd → σ.Opens fd
  | taskfifoAccept a b => FifosPossible σ a b
  | taskfifoConnect a b => FifosPossible σ a b
  | timerInit t _ _ a =>
      t.init ≠ 1 ∧ σ.Allocates a.register ∧ ∀ fd, a.timerfdCreate = .ok fd → σ.Opens fd

/-- **No step of the call fails.** -/
def Succeeds : RegCall → Prop
  | taskSockfdRegister fd k => σ.Registers true fd k
  | taskFifofdRegister fd input k => σ.Registers input fd k
  | taskEventfdRegister fd _ _ k => σ.Registers true fd k
  | tasknetConnect _ a =>
      a.netlookup = true ∧ ∃ fd, a.socket = .ok fd ∧ (σ.openFd fd).Registers true fd a.register ∧
        (∀ e, a.connect = some e → e.1 = einprogress) ∧ a.getpeername = true
  | taskfifoAccept a b => σ.OpensFifos true a b
  | taskfifoConnect a b => σ.OpensFifos false a b
  | timerInit _ _ _ a =>
      ∃ fd, a.timerfdCreate = .ok fd ∧ (σ.openFd fd).Registers true fd a.register

/-- No number of a FIFO that is opened has an entry. -/
def FifosTidy (input : Bool) (a b : FifoAnswers) : Prop :=
  ∀ fd, a.opened = .ok fd → σ.Unlisted fd ∧
    ((σ.openFd fd).Registers input fd a.register → ∀ fd', b.opened = .ok fd' → σ.Unlisted fd')

/-- **When a call that fails leaves nothing behind**: `tasknet_connect` fails
before the socket is registered, a FIFO gets a number without an entry, and
`timer_init` has no descriptor to register. -/
def Tidy : RegCall → Prop
  | tasknetConnect _ a =>
      a.netlookup = true → ∀ fd, a.socket = .ok fd → ¬(σ.openFd fd).Registers true fd a.register
  | taskfifoAccept a b => FifosTidy σ true a b
  | taskfifoConnect a b => FifosTidy σ false a b
  | timerInit _ _ _ a => ∀ fd, a.timerfdCreate ≠ .ok fd
  | _ => True

end RegCall

variable {σ τ : Registry} {fd fd' : ℤ} {p : Ctx} {c : TaskContext} {r : Registration} {k : RegAnswers}
  {input : Bool} {rc res ifd ofd : ℤ} {a b : FifoAnswers} {call : RegCall}

namespace Registry

/-! ## What undoes what -/

theorem close_openFd (h : σ.fds fd = none) : (σ.openFd fd).close fd = σ := by
  simp only [openFd, close, Function.update_idem]
  rw [← h, Function.update_eq_self]

theorem free_calloc (h : σ.heap p = none) : (σ.calloc p c).free p = σ := by
  simp only [calloc, free, Function.update_idem]
  rw [← h, Function.update_eq_self]

/-- `ctxt_lookup` of a number that is in range. -/
theorem ctxtLookup_of_range (h : 0 ≤ fd ∧ fd < taskioMaxFdValue) :
    σ.ctxtLookup fd = (σ.tcarray fd).elim (.error taskioEnoent) .ok := by
  rw [ctxtLookup, if_neg (by omega), if_neg (by omega)]
  cases σ.tcarray fd <;> rfl

theorem ctxtLookup_of_not_range (h : ¬(0 ≤ fd ∧ fd < taskioMaxFdValue)) :
    ∃ res, 0 < res ∧ res ≠ taskioEnoent ∧ σ.ctxtLookup fd = .error res := by
  unfold ctxtLookup
  by_cases h0 : fd < 0
  · exact ⟨taskioEbadfd, by decide, by decide, if_pos h0⟩
  · exact ⟨taskioEbigfd, by decide, by decide, by rw [if_neg h0, if_pos (by omega)]⟩

theorem lookup_eq_ok_iff :
    σ.ctxtLookup fd = .ok p ↔ (0 ≤ fd ∧ fd < taskioMaxFdValue) ∧ σ.tcarray fd = some p := by
  by_cases h : 0 ≤ fd ∧ fd < taskioMaxFdValue
  · rw [ctxtLookup_of_range h]
    cases σ.tcarray fd with
    | none => simp
    | some q => simp [h]
  · obtain ⟨res, -, -, hl⟩ := ctxtLookup_of_not_range (σ := σ) h
    rw [hl]
    exact ⟨nofun, fun hp => absurd hp.1 h⟩

/-- What `ctxt_lookup` says of a number. -/
theorem lookup_cases (σ : Registry) (fd : ℤ) :
    σ.Vacant fd ∧ σ.ctxtLookup fd = .error taskioEnoent ∨
    ¬σ.Vacant fd ∧ ((∃ p, σ.ctxtLookup fd = .ok p) ∨
      ∃ res, 0 < res ∧ res ≠ taskioEnoent ∧ σ.ctxtLookup fd = .error res) := by
  by_cases h : 0 ≤ fd ∧ fd < taskioMaxFdValue
  · rw [ctxtLookup_of_range h, Registry.Vacant]
    cases σ.tcarray fd with
    | none => exact .inl ⟨⟨h.1, h.2, rfl⟩, rfl⟩
    | some p => exact .inr ⟨by simp, .inl ⟨p, rfl⟩⟩
  · exact .inr ⟨fun hv => h ⟨hv.1, hv.2.1⟩, .inr (ctxtLookup_of_not_range h)⟩

/-- The registry with a descriptor entered. -/
def entered (σ : Registry) (c : TaskContext) (i : Option Interest) (fd : ℤ) (p : Ctx) : Registry :=
  { σ.calloc p c with
    tcarray := Function.update σ.tcarray fd (some p)
    fds := i.elim σ.fds fun i => Function.update σ.fds fd (some (some i)) }

/-- What epoll is asked to watch for, if it is asked. -/
def asked (r : Registration) (p : Ctx) : Option Interest :=
  if r.regEpoll = true then some ⟨p, r.events, r.edge⟩ else none

theorem ctxtInsert_vacant (h : σ.Vacant fd) :
    σ.ctxtInsert fd p = (0, { σ with tcarray := Function.update σ.tcarray fd (some p) }) := by
  obtain ⟨h0, hmax, hnone⟩ := h
  simp [ctxtInsert, hnone, show ¬fd < 0 by omega, show ¬(taskioMaxFdValue : ℤ) ≤ fd by omega]

/-- `EPOLL_CTL_ADD` -/
theorem registerEpoll_cases (fd : ℤ) (i : Interest) (e : Option Errno) :
    (σ.fds fd = some none ∧ e = none ∧
      σ.registerEpoll fd i e = (0, { σ with fds := Function.update σ.fds fd (some (some i)) })) ∨
    (¬(σ.fds fd = some none ∧ e = none) ∧ ∃ res, 0 < res ∧ σ.registerEpoll fd i e = (res, σ)) := by
  unfold registerEpoll
  split
  · rename_i h
    exact .inr ⟨by simp [h], _, by decide, rfl⟩
  · rename_i h
    exact .inr ⟨by simp [h], _, by decide, rfl⟩
  · rename_i h
    cases e with
    | none => exact .inl ⟨h, rfl, rfl⟩
    | some e => exact .inr ⟨by simp, e.1, e.2, rfl⟩

theorem ctxtDelete_entered (h : σ.Vacant fd) :
    (σ.entered c none fd p).ctxtDelete fd = some (0, σ.calloc p c) := by
  obtain ⟨h0, hmax, hnone⟩ := h
  have hent : (σ.entered c none fd p).tcarray fd ≠ none := by simp [entered]
  rw [ctxtDelete, if_neg (by omega), if_neg (by omega), if_neg hent]
  simp only [entered, calloc, Function.update_idem, Option.elim_none]
  rw [← hnone, Function.update_eq_self]

/-- **`task_fd_register`** enters the descriptor, or returns an error and
does nothing. -/
theorem taskFdRegister_cases (r : Registration) (fd : ℤ) (hk : σ.Allocates k) :
    (∃ p, σ.Registers r.regEpoll fd k ∧ k.calloc = some p ∧
      σ.taskFdRegister r fd k = some (0, σ.entered (r.context fd) (asked r p) fd p)) ∨
    (¬σ.Registers r.regEpoll fd k ∧ ∃ res, 0 < res ∧ σ.taskFdRegister r fd k = some (res, σ)) := by
  unfold taskFdRegister
  rcases lookup_cases σ fd with ⟨hv, hl⟩ | ⟨hv, ⟨p, hl⟩ | ⟨res, hpos, hne, hl⟩⟩
  · simp only [hl, ne_eq, not_true_eq_false, if_false]
    cases hp : k.calloc with
    | none => exact .inr ⟨fun h => h.2.1 hp, taskioEnomem, by decide, rfl⟩
    | some p =>
        have hins : (σ.calloc p (r.context fd)).ctxtInsert fd p =
          (0, σ.entered (r.context fd) none fd p) := ctxtInsert_vacant hv
        simp only [hins, not_true_eq_false, if_false]
        by_cases hreg : r.regEpoll = false
        · refine .inl ⟨p, ⟨hv, by simp [hp], by simp [hreg]⟩, rfl, ?_⟩
          rw [if_pos hreg, asked, if_neg (by simp [hreg])]
        · rw [if_neg hreg]
          rcases registerEpoll_cases (σ := σ.entered (r.context fd) none fd p) fd
            ⟨p, r.events, r.edge⟩ k.epollCtl with ⟨hf, he, heq⟩ | ⟨hne, res, hpos, heq⟩
          · refine .inl ⟨p, ⟨hv, by simp [hp], fun _ => ⟨hf, he⟩⟩, rfl, ?_⟩
            have hasked : asked r p = some ⟨p, r.events, r.edge⟩ := if_pos (by simpa using hreg)
            simp only [heq, not_true_eq_false, if_false, hasked]
            rfl
          · refine .inr ⟨fun h => hne (h.2.2 (by simpa using hreg)), res, hpos, ?_⟩
            simp only [heq, show res ≠ 0 by omega, not_false_eq_true, if_true,
              ctxtDelete_entered hv, Option.bind_eq_bind, Option.bind_some, free_calloc (hk p hp)]
  · exact .inr ⟨fun h => hv h.1, taskioEexist, by decide, by rw [hl]⟩
  · exact .inr ⟨fun h => hv h.1, res, hpos, by rw [hl]; exact if_pos hne⟩

/-- `task_eventfd_register` does the same. -/
theorem taskEventfdRegister_cases (fd : ℤ) (task arg : ℕ) (hk : σ.Allocates k) :
    (∃ p, σ.Registers true fd k ∧ k.calloc = some p ∧
      σ.taskEventfdRegister fd task arg k =
        some (0, σ.entered (.event fd task arg) (some ⟨p, ⟨true, false, false, false⟩, false⟩) fd p)) ∨
    (¬σ.Registers true fd k ∧ ∃ res, 0 < res ∧ σ.taskEventfdRegister fd task arg k = some (res, σ)) := by
  unfold taskEventfdRegister
  rcases lookup_cases σ fd with ⟨hv, hl⟩ | ⟨hv, ⟨p, hl⟩ | ⟨res, hpos, hne, hl⟩⟩
  · simp only [hl, ne_eq, not_true_eq_false, if_false]
    cases hp : k.calloc with
    | none => exact .inr ⟨fun h => h.2.1 hp, taskioEnomem, by decide, rfl⟩
    | some p =>
        rcases registerEpoll_cases (σ := σ.calloc p (.event fd task arg)) fd
          ⟨p, ⟨true, false, false, false⟩, false⟩ k.epollCtl with ⟨hf, he, heq⟩ | ⟨hne, res, hpos, heq⟩
        · refine .inl ⟨p, ⟨hv, by simp [hp], fun _ => ⟨hf, he⟩⟩, rfl, ?_⟩
          simp only [heq, not_true_eq_false, if_false]
          rw [ctxtInsert_vacant (by exact hv)]
          rfl
        · refine .inr ⟨fun h => hne (h.2.2 rfl), res, hpos, ?_⟩
          simp only [heq, show res ≠ 0 by omega, not_false_eq_true, if_true, free_calloc (hk p hp)]
  · exact .inr ⟨fun h => hv h.1, taskioEexist, by decide, by rw [hl]⟩
  · exact .inr ⟨fun h => hv h.1, res, hpos, by rw [hl]; exact if_pos hne⟩

/-! ## Discarding a descriptor -/

theorem discard_minus_one : σ.discard (-1) = some σ := if_neg (by simp)

theorem discard_of_nonneg (h0 : 0 ≤ fd) :
    σ.discard fd = ((σ.close fd).taskFdDeregister fd).map Prod.snd := if_pos (by omega)

/-- A descriptor that was opened, and has no entry. -/
theorem discard_unlisted (ho : σ.Opens fd) (hu : σ.Unlisted fd) :
    (σ.openFd fd).discard fd = some σ := by
  rw [discard_of_nonneg ho.1, close_openFd ho.2, taskFdDeregister, ho.2]
  cases hl : σ.ctxtLookup fd with
  | error res => rfl
  | ok p => exact absurd hl (hu p)

/-- One that was opened and registered. -/
theorem discard_entered {i : Option Interest} (ho : σ.Opens fd) (hv : σ.Vacant fd)
    (hp : σ.heap p = none) :
    ((σ.openFd fd).entered (.socket .fifo fd none none) i fd p).discard fd = some σ := by
  have hclose : ((σ.openFd fd).entered (.socket .fifo fd none none) i fd p).close fd =
      σ.entered (.socket .fifo fd none none) none fd p := by
    cases i with
    | none => simp [entered, openFd, close, calloc, ← ho.2]
    | some i => simp [entered, openFd, close, calloc, ← ho.2]
  have hl : (σ.entered (.socket .fifo fd none none) none fd p).ctxtLookup fd = .ok p :=
    lookup_eq_ok_iff.2 ⟨⟨hv.1, hv.2.1⟩, Function.update_self ..⟩
  have hheap : (σ.entered (.socket .fifo fd none none) none fd p).heap p = some (.socket .fifo fd none none) :=
    Function.update_self ..
  have hfds : (σ.entered (.socket .fifo fd none none) none fd p).fds fd = none := ho.2
  rw [discard_of_nonneg ho.1, hclose, taskFdDeregister, hfds, hl]
  simp only [hheap, Option.isSome_none, Bool.false_eq_true, if_false, Option.toList_none,
    List.append_nil, ctxtDelete_entered hv, Option.bind_eq_bind, Option.bind_some,
    free_calloc hp]
  rfl

/-- A number that is opened besides. -/
theorem entered_openFd {i : Option Interest} (hne : fd' ≠ fd) :
    ((σ.openFd fd).entered c i fd p).openFd fd' = ((σ.openFd fd').openFd fd).entered c i fd p := by
  cases i with
  | none => simp [entered, openFd, calloc, Function.update_comm hne]
  | some i => simp [entered, openFd, calloc, Function.update_comm hne]

/-- What `task_fd_deregister` does to the array: it takes entries away. -/
theorem tcarray_of_deregister (h : σ.taskFdDeregister fd' = some (rc, τ)) :
    (∀ fd, σ.tcarray fd = none → τ.tcarray fd = none) ∧
    (σ.fds fd' = none → 0 ≤ fd' ∧ fd' < taskioMaxFdValue → τ.tcarray fd' = none) := by
  unfold taskFdDeregister at h
  split at h
  · rename_i hopen
    cases h
    exact ⟨fun _ hfd => hfd, fun hnone => by simp [hnone] at hopen⟩
  · cases hl : σ.ctxtLookup fd' with
    | error res =>
        rw [hl] at h
        cases h
        refine ⟨fun _ hfd => hfd, fun _ hr => ?_⟩
        rw [ctxtLookup_of_range hr] at hl
        cases hp : σ.tcarray fd' with
        | none => rfl
        | some p =>
            rw [hp] at hl
            cases hl
    | ok p =>
        obtain ⟨hr, hp⟩ := lookup_eq_ok_iff.1 hl
        have hdel : ∀ readied, ({ σ with readied := readied } : Registry).ctxtDelete fd' =
            some (0, { σ with tcarray := Function.update σ.tcarray fd' none, readied := readied }) :=
          fun _ => by rw [ctxtDelete, if_neg (by omega), if_neg (by omega), if_neg (by simp [hp])]
        have hτ : τ.tcarray = Function.update σ.tcarray fd' none := by
          rw [hl] at h
          simp only [hdel, Option.bind_eq_bind, Option.bind_some] at h
          split at h
          · cases h
            rfl
          · cases h
        refine ⟨fun fd hfd => ?_, fun _ _ => by rw [hτ, Function.update_self]⟩
        rw [hτ]
        by_cases he : fd = fd'
        · rw [he, Function.update_self]
        · rw [Function.update_of_ne he, hfd]

theorem tcarray_of_discard (h : σ.discard fd' = some τ) :
    (∀ fd, σ.tcarray fd = none → τ.tcarray fd = none) ∧
    (0 ≤ fd' ∧ fd' < taskioMaxFdValue → τ.tcarray fd' = none) := by
  by_cases hne : fd' = -1
  · subst hne
    rw [discard_minus_one] at h
    cases h
    exact ⟨fun _ hfd => hfd, fun hr => by omega⟩
  · rw [discard, if_pos hne] at h
    obtain ⟨⟨rc, τ'⟩, hd, rfl⟩ := Option.map_eq_some_iff.1 h
    obtain ⟨hall, hown⟩ := tcarray_of_deregister hd
    exact ⟨hall, hown (Function.update_self ..)⟩

/-- **What the end of a call takes away**: the entries of both numbers. -/
theorem tcarray_of_fifoOut (h : σ.fifoOut rc ifd ofd = some (res, τ)) (hfd : fd = ifd ∨ fd = ofd)
    (hr : 0 ≤ fd ∧ fd < taskioMaxFdValue) : τ.tcarray fd = none := by
  obtain ⟨σ₁, h₁, h⟩ := Option.bind_eq_some_iff.1 h
  obtain ⟨σ₂, h₂, h⟩ := Option.bind_eq_some_iff.1 h
  cases h
  obtain ⟨hall, hown⟩ := tcarray_of_discard h₂
  rcases hfd with rfl | rfl
  · exact hall _ ((tcarray_of_discard h₁).2 hr)
  · exact hown hr

/-! ## FIFOs -/

theorem not_unlisted (h : ¬σ.Unlisted fd) :
    (0 ≤ fd ∧ fd < taskioMaxFdValue) ∧ σ.tcarray fd ≠ none := by
  obtain ⟨p, hp⟩ := not_forall.1 h
  obtain ⟨hr, htc⟩ := lookup_eq_ok_iff.1 (not_not.1 hp)
  exact ⟨hr, by simp [htc]⟩

theorem Vacant.unlisted (h : σ.Vacant fd) : σ.Unlisted fd := fun p hp => by
  obtain ⟨-, htc⟩ := lookup_eq_ok_iff.1 hp
  rw [h.2.2] at htc
  cases htc

/-- One descriptor is discarded, in the place of the input or the output. -/
theorem fifoOut_one (rc : ℤ) (input : Bool) (h : τ.discard fd = some σ) :
    τ.fifoOut rc (if input = true then fd else -1) (if input = true then -1 else fd) =
      some (rc, σ) := by
  cases input with
  | true => simp [fifoOut, h, discard_minus_one]
  | false => simp [fifoOut, h, discard_minus_one]

/-- A number is registered after another one just as without it. -/
theorem registers_entered {i : Option Interest} {regEpoll : Bool} (hne : fd' ≠ fd) :
    (((σ.openFd fd).entered c i fd p).openFd fd').Registers regEpoll fd' k ↔
      (σ.openFd fd').Registers regEpoll fd' k := by
  simp [Registers, Vacant, entered, openFd, calloc, hne]

theorem allocates_entered (fd fd' : ℤ) {i : Option Interest} (hk : σ.Allocates k) (hp : k.calloc ≠ some p) :
    (((σ.openFd fd).entered c i fd p).openFd fd').Allocates k := fun q hq => by
  have hne : q ≠ p := fun e => hp (e ▸ hq)
  exact (Function.update_of_ne hne ..).trans (hk q hq)

/-- Both are, the first with its entry. -/
theorem fifoOut_both {i : Option Interest} (hne : fd' ≠ fd) (ho : σ.Opens fd) (hv : σ.Vacant fd)
    (hp : σ.heap p = none) (ho' : σ.Opens fd') (hu' : σ.Unlisted fd') :
    (((σ.openFd fd).entered (.socket .fifo fd none none) i fd p).openFd fd').fifoOut rc
      (if input = true then fd else fd') (if input = true then fd' else fd) = some (rc, σ) := by
  cases input with
  | true =>
      have ho₁ : (σ.openFd fd').Opens fd := ⟨ho.1, (Function.update_of_ne hne.symm ..).trans ho.2⟩
      have hv₁ : (σ.openFd fd').Vacant fd := hv
      have h₁ := discard_entered (i := i) ho₁ hv₁ hp
      rw [entered_openFd hne]
      simp only [fifoOut, if_true, h₁, Option.bind_eq_bind, Option.bind_some, discard_unlisted ho' hu']
  | false =>
      have hfds : (σ.openFd fd).fds fd' = none := (Function.update_of_ne hne ..).trans ho'.2
      have ho₁ : ((σ.openFd fd).entered (.socket .fifo fd none none) i fd p).Opens fd' := ⟨ho'.1, by
        cases i with
        | none => exact hfds
        | some i => exact (Function.update_of_ne hne ..).trans hfds⟩
      have hu₁ : ((σ.openFd fd).entered (.socket .fifo fd none none) i fd p).Unlisted fd' :=
        fun q hq => by
          obtain ⟨hr, htc⟩ := lookup_eq_ok_iff.1 hq
          exact hu' q (lookup_eq_ok_iff.2 ⟨hr, (Function.update_of_ne hne ..).symm.trans htc⟩)
      simp only [fifoOut, Bool.false_eq_true, if_false, discard_unlisted ho₁ hu₁, Option.bind_eq_bind,
        Option.bind_some, discard_entered ho hv hp]

theorem fifoOpen_succeeds (code : ℤ → ℤ) (hp : RegCall.FifosPossible σ a b)
    (hs : σ.OpensFifos input a b) : ∃ τ, σ.fifoOpen input code a b = some (0, τ) := by
  obtain ⟨hka, hkb, hkab, hoa, -⟩ := hp
  obtain ⟨fd, fd', ha, hreg, hb, hreg'⟩ := hs
  have hne : fd' ≠ fd := fun e => (hoa fd ha).2 (e ▸ hb)
  rcases taskFdRegister_cases (σ := σ.openFd fd) (.fifo input) fd hka with
    ⟨p, -, hp, heq⟩ | ⟨hnot, -⟩
  · rcases taskFdRegister_cases (.fifo !input) fd' (allocates_entered fd fd'
      (c := (Registration.fifo input).context fd) (i := asked (.fifo input) p) hkb (hkab p hp)) with
      ⟨p', -, -, heq'⟩ | ⟨hnot, -⟩
    · simp [fifoOpen, ha, hb, taskFifofdRegister, heq, heq']
    · exact absurd ((registers_entered hne).2 hreg') hnot
  · exact absurd hreg hnot

/-- **A call for two FIFOs that fails** leaves nothing behind if neither
number had an entry. -/
theorem fifoOpen_tidy_iff (code : ℤ → ℤ) (hcode : ∀ rc, 0 < rc → code rc ≠ 0)
    (hp : RegCall.FifosPossible σ a b) (hf : ¬σ.OpensFifos input a b) :
    (∃ rc, σ.fifoOpen input code a b = some (rc, σ) ∧ rc ≠ 0) ↔ RegCall.FifosTidy σ input a b := by
  obtain ⟨hka, hkb, hkab, hoa, hob⟩ := hp
  unfold fifoOpen RegCall.FifosTidy
  cases ha : a.opened with
  | error e => simp
  | ok fd =>
      obtain ⟨ho, hdiff⟩ := hoa fd ha
      rcases taskFdRegister_cases (σ := σ.openFd fd) (.fifo input) fd hka with
        ⟨p, hreg, hp, heq⟩ | ⟨hreg, res, hpos, heq⟩
      · have hvac : σ.Vacant fd := hreg.1
        have hdiscard := discard_entered (i := asked (.fifo input) p) ho hvac (hka p hp)
        cases hb : b.opened with
        | error e =>
            have hout := fifoOut_one (-1) input hdiscard
            simp only [taskFifofdRegister, heq, Option.bind_eq_bind, Option.bind_some, ne_eq,
              not_true_eq_false, if_false]
            refine ⟨fun _ fd₁ h₁ => ?_, fun _ => ⟨-1, hout, by decide⟩⟩
            cases h₁
            exact ⟨hvac.unlisted, fun _ => nofun⟩
        | ok fd' =>
            have ho' := hob fd' hb
            have hne : fd' ≠ fd := fun e => hdiff (e ▸ hb)
            have hka' := allocates_entered fd fd' (i := asked (.fifo input) p)
              (c := (Registration.fifo input).context fd) hkb (hkab p hp)
            simp only [taskFifofdRegister, heq, Option.bind_eq_bind, Option.bind_some, ne_eq,
              not_true_eq_false, if_false]
            rcases taskFdRegister_cases (.fifo !input) fd' hka' with
              ⟨p', hreg', -⟩ | ⟨-, res, hpos, heq'⟩
            · -- both are registered
              exact absurd ⟨fd, fd', ha, hreg, hb, (registers_entered hne).1 hreg'⟩ hf
            · simp only [heq', Option.bind_some, show res ≠ 0 by omega, not_false_eq_true, if_true]
              constructor
              · rintro ⟨rc, hout, -⟩ fd₁ h₁
                cases h₁
                refine ⟨hvac.unlisted, fun _ fd₂ h₂ => ?_⟩
                cases h₂
                refine not_not.1 fun hlist => ?_
                obtain ⟨hr, htc⟩ := not_unlisted hlist
                refine htc (tcarray_of_fifoOut hout ?_ hr)
                cases input with
                | true => exact .inr rfl
                | false => exact .inl rfl
              · intro htidy
                have hu' : σ.Unlisted fd' := (htidy fd rfl).2 hreg fd' rfl
                refine ⟨res, ?_, by omega⟩
                exact fifoOut_both hne ho hvac (hka p hp) ho' hu'
      · simp only [taskFifofdRegister, heq, Option.bind_eq_bind, Option.bind_some, ne_eq,
          show res ≠ 0 by omega, not_false_eq_true, if_true]
        constructor
        · rintro ⟨rc, hout, -⟩ fd₁ h₁
          cases h₁
          refine ⟨not_not.1 fun hlist => ?_, fun h => absurd h hreg⟩
          obtain ⟨hr, htc⟩ := not_unlisted hlist
          refine htc (tcarray_of_fifoOut hout ?_ hr)
          cases input with
          | true => exact .inl rfl
          | false => exact .inr rfl
        · intro htidy
          exact ⟨code res, fifoOut_one (code res) input (discard_unlisted ho (htidy fd rfl).1), hcode res hpos⟩

/-! ## Connections and timers -/

/-- The context of a registered socket, in which no task is recorded. -/
theorem sleepWriter_entered {i : Option Interest} (x : TaskId) :
    (σ.entered (.socket .socket fd none none) i fd p).sleepWriter fd p x =
      some (σ.entered (.socket .socket fd none none) i fd p) := by
  simp [sleepWriter, entered, calloc]

/-- `tasknet_connect`, once the socket is registered. -/
theorem tasknetConnect_registered {x : TaskId} {k : ConnectAnswers} (hl : k.netlookup = true)
    (hs : k.socket = .ok fd) (hk : σ.Allocates k.register)
    (hreg : (σ.openFd fd).Registers true fd k.register) :
    ∃ p, σ.tasknetConnect x k =
      let τ := (σ.openFd fd).entered (.socket .socket fd none none) (asked .sock p) fd p
      some (match k.connect with
        | some e => if e.1 ≠ einprogress then (e.1, τ.close fd) else τ.connected fd k
        | none => τ.connected fd k) := by
  rcases taskFdRegister_cases (σ := σ.openFd fd) .sock fd hk with ⟨p, -, -, heq⟩ | ⟨hnot, -⟩
  · refine ⟨p, ?_⟩
    have hlook : ((σ.openFd fd).entered (.socket .socket fd none none) (asked .sock p) fd p).ctxtLookup fd =
        .ok p := lookup_eq_ok_iff.2 ⟨⟨hreg.1.1, hreg.1.2.1⟩, Function.update_self ..⟩
    simp only [tasknetConnect, hl, hs, taskSockfdRegister, heq, Registration.context, Registration.tasktype,
      Option.bind_eq_bind, Option.bind_some, ne_eq, not_true_eq_false, if_false, Bool.true_eq_false]
    cases k.connect with
    | none => rfl
    | some e =>
        by_cases he : e.1 = einprogress
        · simp [he, hlook, sleepWriter_entered]
        · simp [he]
  · exact absurd hreg hnot

/-- Then it is left in the array, whatever becomes of the connection. -/
theorem tasknetConnect_leaves {x : TaskId} {k : ConnectAnswers} (hl : k.netlookup = true)
    (hs : k.socket = .ok fd) (hk : σ.Allocates k.register)
    (hreg : (σ.openFd fd).Registers true fd k.register) (h : σ.tasknetConnect x k = some (rc, τ)) :
    τ.tcarray fd ≠ none := by
  obtain ⟨p, heq⟩ := tasknetConnect_registered (x := x) hl hs hk hreg
  rw [heq] at h
  have hleft : ∀ τ : Registry, τ.tcarray = Function.update σ.tcarray fd (some p) →
      τ.tcarray fd ≠ none := fun τ htc => by rw [htc, Function.update_self]; exact Option.some_ne_none p
  have hcon : ∀ rc', ((σ.openFd fd).entered (.socket .socket fd none none) (asked .sock p) fd p).connected
      fd k = (rc', τ) → τ.tcarray fd ≠ none := fun rc' h => by
    unfold connected at h
    split at h
    · cases h
      exact hleft _ rfl
    · cases h
      exact hleft _ rfl
  have h := Option.some.inj h
  cases hc : k.connect with
  | none =>
      rw [hc] at h
      exact hcon rc h
  | some e =>
      rw [hc] at h
      by_cases he : e.1 ≠ einprogress
      · simp only [if_pos he] at h
        cases h
        exact hleft _ rfl
      · simp only [if_neg he] at h
        exact hcon rc h

/-- **`tasknet_connect`** leaves nothing behind if it fails before the socket
is registered. -/
theorem tasknetConnect_tidy_iff {x : TaskId} {k : ConnectAnswers}
    (hp : (RegCall.tasknetConnect x k).Possible σ) :
    (∃ rc, σ.tasknetConnect x k = some (rc, σ) ∧ rc ≠ 0) ↔ (RegCall.tasknetConnect x k).Tidy σ := by
  obtain ⟨hk, ho⟩ := hp
  constructor
  · rintro ⟨rc, hex, -⟩ hl fd hs hreg
    exact tasknetConnect_leaves hl hs hk hreg hex hreg.1.2.2
  · intro ht
    by_cases hl : k.netlookup = true
    · cases hs : k.socket with
      | error e =>
          refine ⟨e.1, ?_, Ne.symm (Int.ne_of_lt e.2)⟩
          simp [tasknetConnect, hl, hs]
      | ok fd =>
          rcases taskFdRegister_cases (σ := σ.openFd fd) .sock fd hk with
            ⟨p, hreg, -⟩ | ⟨-, res, hpos, heq⟩
          · exact absurd hreg (ht hl fd hs)
          · refine ⟨res, ?_, by omega⟩
            simp [tasknetConnect, hl, hs, taskSockfdRegister, heq, show res ≠ 0 by omega,
              close_openFd (ho fd hs).2]
    · exact ⟨-1, by simp [tasknetConnect, hl], by decide⟩

/-- **`timer_init`** takes a descriptor that it could not register for one
that it could: an error is a positive code. -/
theorem timerInit_tidy_iff {t : TaskTimer} {cbfn : Option ℕ} {data : ℕ} {k : TimerAnswers}
    (hp : (RegCall.timerInit t cbfn data k).Possible σ) :
    (∃ rc, (RegCall.timerInit t cbfn data k).exec σ = some (rc, σ) ∧ rc ≠ 0) ↔
      (RegCall.timerInit t cbfn data k).Tidy σ := by
  obtain ⟨hinit, hk, ho⟩ := hp
  constructor
  · rintro ⟨rc, hex, hrc⟩ fd hc
    refine hrc ?_
    rcases taskFdRegister_cases (σ := σ.openFd fd) (.fifo true) fd hk with
      ⟨p, -, -, heq⟩ | ⟨-, res, hpos, heq⟩
    · simp [RegCall.exec, timerInit, hinit, hc, taskFifofdRegister, heq] at hex
      exact hex.1.symm
    · simp [RegCall.exec, timerInit, hinit, hc, taskFifofdRegister, heq,
        show ¬res < 0 by omega] at hex
      exact hex.1.symm
  · intro ht
    cases hc : k.timerfdCreate with
    | error e =>
        refine ⟨-1, ?_, by decide⟩
        simp [RegCall.exec, timerInit, hinit, hc]
    | ok fd => exact absurd hc (ht fd)

end Registry

/-- A call of which no step fails returns 0. -/
theorem registration_succeeds (hp : call.Possible σ) (hs : call.Succeeds σ) :
    ∃ τ, call.exec σ = some (0, τ) := by
  cases call with
  | taskSockfdRegister fd k =>
      rcases Registry.taskFdRegister_cases .sock fd hp with ⟨p, -, -, heq⟩ | ⟨hreg, -⟩
      · exact ⟨_, heq⟩
      · exact absurd hs hreg
  | taskFifofdRegister fd input k =>
      rcases Registry.taskFdRegister_cases (.fifo input) fd hp with ⟨p, -, -, heq⟩ | ⟨hreg, -⟩
      · exact ⟨_, heq⟩
      · exact absurd hs hreg
  | taskEventfdRegister fd task arg k =>
      rcases Registry.taskEventfdRegister_cases fd task arg hp with ⟨p, -, -, heq⟩ | ⟨hreg, -⟩
      · exact ⟨_, heq⟩
      · exact absurd hs hreg
  | tasknetConnect x k =>
      obtain ⟨hl, fd, hsock, hreg, hprog, hpeer⟩ := hs
      obtain ⟨p, heq⟩ := Registry.tasknetConnect_registered (x := x) hl hsock hp.1 hreg
      refine ⟨(σ.openFd fd).entered (.socket .socket fd none none) (Registry.asked .sock p) fd p, ?_⟩
      rw [RegCall.exec, heq]
      cases hc : k.connect with
      | none => simp [Registry.connected, hpeer]
      | some e => simp [Registry.connected, hpeer, hprog e hc]
  | taskfifoAccept a b => exact Registry.fifoOpen_succeeds id hp hs
  | taskfifoConnect a b => exact Registry.fifoOpen_succeeds (fun _ => -1) hp hs
  | timerInit t cbfn data k =>
      obtain ⟨hinit, hk, -⟩ := hp
      obtain ⟨fd, hc, hreg⟩ := hs
      rcases Registry.taskFdRegister_cases (σ := σ.openFd fd) (.fifo true) fd hk with
        ⟨p, -, -, heq⟩ | ⟨hnot, -⟩
      · simp [RegCall.exec, Registry.timerInit, hinit, hc, Registry.taskFifofdRegister, heq]
      · exact absurd hreg hnot

/-- **All or nothing.** A call of which a step fails returns an error and
leaves the registry as it was, and so the number to be registered later, just
if it is `Tidy`. -/
theorem registration_all_or_nothing (hp : call.Possible σ) (hf : ¬call.Succeeds σ) :
    (∃ rc, call.exec σ = some (rc, σ) ∧ rc ≠ 0) ↔ call.Tidy σ := by
  cases call with
  | taskSockfdRegister fd k =>
      refine iff_of_true ?_ trivial
      rcases Registry.taskFdRegister_cases .sock fd hp with ⟨p, hreg, -⟩ | ⟨-, res, hpos, heq⟩
      · exact absurd hreg hf
      · exact ⟨res, heq, by omega⟩
  | taskFifofdRegister fd input k =>
      refine iff_of_true ?_ trivial
      rcases Registry.taskFdRegister_cases (.fifo input) fd hp with ⟨p, hreg, -⟩ | ⟨-, res, hpos, heq⟩
      · exact absurd hreg hf
      · exact ⟨res, heq, by omega⟩
  | taskEventfdRegister fd task arg k =>
      refine iff_of_true ?_ trivial
      rcases Registry.taskEventfdRegister_cases fd task arg hp with ⟨p, hreg, -⟩ | ⟨-, res, hpos, heq⟩
      · exact absurd hreg hf
      · exact ⟨res, heq, by omega⟩
  | tasknetConnect x k => exact Registry.tasknetConnect_tidy_iff hp
  | taskfifoAccept a b =>
      exact Registry.fifoOpen_tidy_iff id (fun rc h => by simp; omega) hp hf
  | taskfifoConnect a b =>
      exact Registry.fifoOpen_tidy_iff (fun _ => -1) (fun _ _ => by decide) hp hf
  | timerInit t cbfn data k => exact Registry.timerInit_tidy_iff hp

/-- Nothing is registered, and no descriptor is open. -/
def Registry.empty : Registry := ⟨fun _ => none, fun _ => none, fun _ => none, []⟩

/-- Two FIFOs with the numbers 5 and 6, of which epoll does not take the
second. -/
def secondFails : RegCall :=
  .taskfifoConnect ⟨.ok 5, ⟨some 1, none⟩⟩ ⟨.ok 6, ⟨some 2, some ⟨12, by decide⟩⟩⟩

/-- Beside a socket that is registered, the first FIFO is registered, and
nothing is left of it. -/
theorem registration_all_or_nothing_second_fails : ∃ σ rc,
    (Registry.empty.openFd 7).taskSockfdRegister 7 ⟨some 3, none⟩ = some (0, σ) ∧
      σ.tcarray 7 = some 3 ∧ (σ.openFd 5).Registers false 5 ⟨some 1, none⟩ ∧
      secondFails.exec σ = some (rc, σ) ∧ rc ≠ 0 := by
  obtain ⟨σ, hreg, hlisted, hheap, hfds, htc⟩ : ∃ σ,
      (Registry.empty.openFd 7).taskSockfdRegister 7 ⟨some 3, none⟩ = some (0, σ) ∧
      σ.tcarray 7 = some 3 ∧ (σ.heap 1 = none ∧ σ.heap 2 = none) ∧
      (σ.fds 5 = none ∧ σ.fds 6 = none) ∧ σ.tcarray 5 = none ∧ σ.tcarray 6 = none :=
    ⟨_, rfl, rfl, ⟨rfl, rfl⟩, ⟨rfl, rfl⟩, rfl, rfl⟩
  have h₅ : σ.Vacant 5 := ⟨by decide, by decide, htc.1⟩
  have h₆ : σ.Vacant 6 := ⟨by decide, by decide, htc.2⟩
  have hfirst : (σ.openFd 5).Registers false 5 ⟨some 1, none⟩ :=
    ⟨h₅, by simp, fun h => by cases h⟩
  have hp : secondFails.Possible σ := by
    refine ⟨?_, ?_, ?_, ?_, ?_⟩
    · rintro p h
      cases h
      exact hheap.1
    · rintro p h
      cases h
      exact hheap.2
    · rintro p h
      cases h
      decide
    · rintro fd h
      cases h
      exact ⟨⟨by decide, hfds.1⟩, by simp⟩
    · rintro fd h
      cases h
      exact ⟨by decide, hfds.2⟩
  have hf : ¬secondFails.Succeeds σ := by
    rintro ⟨fd, fd', -, -, h, hsecond⟩
    cases h
    cases (hsecond.2.2 rfl).2
  have ht : secondFails.Tidy σ := by
    rintro fd h
    cases h
    refine ⟨h₅.unlisted, fun _ fd' h' => ?_⟩
    cases h'
    exact h₆.unlisted
  obtain ⟨rc, hx, hrc⟩ := (registration_all_or_nothing hp hf).2 ht
  exact ⟨σ, rc, hreg, hlisted, hfirst, hx, hrc⟩

/-- A socket with the number 5, whose context lies at `p`; with or without a
peer. -/
def socketFive (p : Ctx) (peer : Bool) : ConnectAnswers :=
  ⟨true, .ok 5, ⟨some p, none⟩, none, peer, 0⟩

/-- Two FIFOs with the numbers 5 and 6. -/
def fifosFiveSix : RegCall :=
  .taskfifoAccept ⟨.ok 5, ⟨some 1, none⟩⟩ ⟨.ok 6, ⟨some 2, none⟩⟩

/-- A timer whose descriptor epoll does not take. -/
def timerFive : RegCall := .timerInit (.zero 0) none 0 ⟨.ok 5, ⟨some 0, some ⟨12, by decide⟩⟩⟩

/-- **What is left, taken away, or not there.** After a connection that was
refused the next one with the number of its socket fails, though nothing that
it needs does; a FIFO that gets the number takes the entry away; and
`timer_init` says that a timer is initialized whose descriptor epoll does not
watch. -/
theorem registration_leaves_entries :
    (∃ τ, (RegCall.tasknetConnect 0 (socketFive 0 false)).Possible .empty ∧
      ¬(RegCall.tasknetConnect 0 (socketFive 0 false)).Succeeds .empty ∧
      (RegCall.tasknetConnect 0 (socketFive 0 false)).exec .empty = some (econnrefused, τ) ∧
      τ.tcarray 5 = some 0 ∧
      ((RegCall.tasknetConnect 0 (socketFive 1 true)).exec τ).map Prod.fst = some taskioEexist ∧
      fifosFiveSix.Possible τ ∧ ¬fifosFiveSix.Succeeds τ ∧
      (fifosFiveSix.exec τ).map (fun r => (r.1, r.2.tcarray 5)) = some (taskioEexist, none)) ∧
    timerFive.Possible .empty ∧ ¬timerFive.Succeeds .empty ∧
      (timerFive.exec .empty).map (fun r => (r.1, r.2.tcarray 5)) = some (0, none) := by
  refine ⟨⟨_, ⟨fun _ _ => rfl, ?_⟩, ?_, rfl, rfl, rfl, ⟨?_, ?_, ?_, ?_, ?_⟩, ?_, rfl⟩, ⟨?_, ?_, ?_⟩, ?_, rfl⟩
  · rintro fd h
    cases h
    exact ⟨by decide, rfl⟩
  · rintro ⟨-, fd, -, -, -, h⟩
    cases h
  · rintro p h
    cases h
    rfl
  · rintro p h
    cases h
    rfl
  · rintro p h
    cases h
    decide
  · rintro fd h
    cases h
    exact ⟨⟨by decide, rfl⟩, by simp⟩
  · rintro fd h
    cases h
    exact ⟨by decide, rfl⟩
  · rintro ⟨fd, fd', h, hreg, -⟩
    cases h
    cases hreg.1.2.2
  · decide
  · rintro p h
    rfl
  · rintro fd h
    cases h
    exact ⟨by decide, rfl⟩
  · rintro ⟨fd, h, hreg⟩
    cases h
    cases (hreg.2.2 rfl).2

end Libtask

end VmwareProto
