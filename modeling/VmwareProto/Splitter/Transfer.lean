import VmwareProto.Library.LittleEndian
import Mathlib.Algebra.Order.Ring.Nat
/-!
# The transfer loops of the storage side

`safe_pread` and `safe_pwrite` differ in the system call alone: each asks
for what is left until nothing is, or until a call moves no byte or fails.
Then the loop is left, unless `errno` says `EINTR`; a call that moves no
byte does not set it, so what decides is the last call that failed, be it
one from before the loop. What the device does is given as the answers of
its calls, one after the other.
-/

namespace VmwareProto

namespace Splitter

/-- `EINTR`. -/
def eIntr : ℕ := 4

/-- What `pread` or `pwrite` answers: the bytes it moved, none at the end
of the device, or an error. Of a `pwrite` only their number counts. -/
inductive CallResult
  | moved (bs : List Byte)
  | error (e : ℕ)
  deriving DecidableEq, Repr

/-- How many bytes it has to move. -/
def CallResult.size : CallResult → ℕ
  | .moved bs => bs.length
  | .error _ => 0

/-- `safe_pread` or `safe_pwrite` between two calls. -/
structure Loop where
  /-- the bytes moved so far -/
  data : List Byte
  count : ℕ
  off : BitVec 64
  errno : ℕ
  /-- the `break` was taken -/
  stopped : Bool
  deriving DecidableEq, Repr

namespace Loop

/-- The loop before its first call. -/
def start (count : ℕ) (off : BitVec 64) (errno : ℕ) : Loop := ⟨[], count, off, errno, false⟩

/-- `bc`, what the loop returns. -/
def bc (l : Loop) : ℕ := l.data.length

/-- There is another call to make. -/
def Running (l : Loop) : Prop := l.count ≠ 0 ∧ l.stopped = false

instance (l : Loop) : Decidable l.Running := inferInstanceAs (Decidable (_ ∧ _))

/-- One call, for `count` bytes, and what follows it. -/
def call (l : Loop) : CallResult → Loop
  | .error e => { l with errno := e, stopped := decide (e ≠ eIntr) }
  | .moved bs =>
      let bs := bs.take l.count
      if bs = [] then { l with stopped := decide (l.errno ≠ eIntr) }
      else { l with
        data := l.data ++ bs
        count := l.count - bs.length
        off := l.off + BitVec.ofNat 64 bs.length }

/-- The loop after `n` calls, or after its last one. -/
def after (l : Loop) (calls : ℕ → CallResult) : ℕ → Loop
  | 0 => l
  | n + 1 => if (l.after calls n).Running then (l.after calls n).call (calls n) else l.after calls n

end Loop

/-! ## What the device does -/

variable {calls : ℕ → CallResult} {errno len n m : ℕ} {off : BitVec 64} {l : Loop}

/-- What the first `n` calls have to move. -/
def total (calls : ℕ → CallResult) : ℕ → ℕ
  | 0 => 0
  | n + 1 => total calls n + (calls n).size

/-- The device ends the loop with call `n`: an error other than `EINTR`,
or no byte while no `EINTR` is left in `errno`. -/
def Stops (errno : ℕ) (calls : ℕ → CallResult) (n : ℕ) : Prop :=
  match calls n with
  | .error e => e ≠ eIntr
  | .moved bs => bs = [] ∧ errno ≠ eIntr ∧ ∀ i < n, ∀ e, calls i ≠ .error e

/-- The device moves all `len` bytes before it ends the loop. -/
def Full (errno : ℕ) (calls : ℕ → CallResult) (len : ℕ) : Prop :=
  ∃ k, len ≤ total calls k ∧ ∀ i < k, ¬Stops errno calls i

/-- The device moves all `len` bytes or ends the loop. -/
def Ends (errno : ℕ) (calls : ℕ → CallResult) (len : ℕ) : Prop :=
  (∃ k, len ≤ total calls k) ∨ ∃ k, Stops errno calls k

theorem total_mono (calls : ℕ → CallResult) (h : n ≤ m) : total calls n ≤ total calls m := by
  induction m, h using Nat.le_induction with
  | base => exact le_rfl
  | succ m _ ih => exact ih.trans (Nat.le_add_right _ _)

/-- A device that moves everything ends the loop. -/
theorem Full.ends (h : Full errno calls len) : Ends errno calls len := .inl (h.imp fun _ hk => hk.1)

/-- A device that stops with bytes left has not moved them all. -/
theorem not_full_of_stops (hs : Stops errno calls n) (ht : total calls n < len) :
    ¬Full errno calls len := by
  rintro ⟨k, hk, hno⟩
  rcases Nat.lt_or_ge n k with h | h
  · exact hno n h hs
  · have := total_mono calls h
    omega

/-! ## What the loop does -/

namespace Loop

theorem after_succ_of_running (h : (l.after calls n).Running) :
    l.after calls (n + 1) = (l.after calls n).call (calls n) := if_pos h

/-- A loop that has been left stays as it is. -/
theorem after_eq_of_not_running (h : ¬(l.after calls n).Running) (hnm : n ≤ m) :
    l.after calls m = l.after calls n := by
  induction m, hnm using Nat.le_induction with
  | base => rfl
  | succ m _ ih => rw [after, ih, if_neg h]

/-- The loop goes on: nothing has stopped it, and it knows of every
interruption. -/
structure Going (errno : ℕ) (calls : ℕ → CallResult) (len n : ℕ) (l : Loop) : Prop where
  running : l.Running
  lt : total calls n < len
  bc : l.bc = total calls n
  count : l.count = len - total calls n
  no_stop : ∀ i < n, ¬Stops errno calls i
  errno : l.errno = eIntr ↔ errno = eIntr ∨ ∃ i < n, ∃ e, calls i = .error e

/-- The loop has been left: with everything moved, or at a call that ended
it before. -/
def Left (errno : ℕ) (calls : ℕ → CallResult) (len n : ℕ) (l : Loop) : Prop :=
  (l.bc = len ∧ l.count = 0 ∧ ∃ k ≤ n, len ≤ total calls k ∧ ∀ i < k, ¬Stops errno calls i) ∨
    (l.stopped = true ∧ l.bc < len ∧ ∃ k < n, Stops errno calls k ∧ total calls k < len)

theorem Left.succ (h : Left errno calls len n l) : Left errno calls len (n + 1) l := by
  rcases h with ⟨h₁, h₂, k, hk, h₃⟩ | ⟨h₁, h₂, k, hk, h₃⟩
  · exact .inl ⟨h₁, h₂, k, hk.trans (Nat.le_succ n), h₃⟩
  · exact .inr ⟨h₁, h₂, k, hk.trans (Nat.lt_succ_self n), h₃⟩

theorem Left.not_running (h : Left errno calls len n l) : ¬l.Running := by
  rintro ⟨hc, hs⟩
  rcases h with ⟨-, h, -⟩ | ⟨h, -⟩
  · exact hc h
  · rw [hs] at h
    cases h

theorem Going.no_stop_succ (h : Going errno calls len n l) (hn : ¬Stops errno calls n) :
    ∀ i < n + 1, ¬Stops errno calls i := by
  intro i hi
  rcases Nat.lt_succ_iff_lt_or_eq.1 hi with hi | rfl
  · exact h.no_stop i hi
  · exact hn

/-- The errors before the next call. -/
theorem error_succ_iff : (∃ i < n + 1, ∃ e, calls i = .error e) ↔
    (∃ i < n, ∃ e, calls i = .error e) ∨ ∃ e, calls n = .error e := by
  constructor
  · rintro ⟨i, hi, he⟩
    rcases Nat.lt_succ_iff_lt_or_eq.1 hi with hi | rfl
    · exact .inl ⟨i, hi, he⟩
    · exact .inr he
  · rintro (⟨i, hi, he⟩ | he)
    · exact ⟨i, hi.trans (Nat.lt_succ_self n), he⟩
    · exact ⟨n, Nat.lt_succ_self n, he⟩

theorem error_succ_iff_of_moved {bs : List Byte} (hc : calls n = .moved bs) :
    (∃ i < n + 1, ∃ e, calls i = .error e) ↔ ∃ i < n, ∃ e, calls i = .error e := by
  rw [error_succ_iff, or_iff_left (by simp [hc])]

/-- A call that fails. -/
theorem Going.call_error {e : ℕ} (h : Going errno calls len n l) (hc : calls n = .error e) :
    Going errno calls len (n + 1) (l.call (.error e)) ∨ Left errno calls len (n + 1) (l.call (.error e)) := by
  have htot : total calls (n + 1) = total calls n := by rw [total, hc]; rfl
  by_cases he : e = eIntr
  · have hns : ¬Stops errno calls n := by
      rw [Stops, hc]
      exact not_not.2 he
    refine .inl ⟨⟨h.running.1, by simp [Loop.call, he]⟩, by rw [htot]; exact h.lt, ?_, ?_,
      h.no_stop_succ hns, iff_of_true he (.inr (error_succ_iff.2 (.inr ⟨e, hc⟩)))⟩
    · rw [htot]
      exact h.bc
    · rw [htot]
      exact h.count
  · have hst : Stops errno calls n := by
      rw [Stops, hc]
      exact he
    have hbc : l.bc < len := by rw [h.bc]; exact h.lt
    exact .inr (.inr ⟨by simp [Loop.call, he], hbc, n, Nat.lt_succ_self n, hst, h.lt⟩)

/-- A call that moves nothing. -/
theorem Going.call_nil (h : Going errno calls len n l) (hc : calls n = .moved []) :
    Going errno calls len (n + 1) (l.call (.moved [])) ∨ Left errno calls len (n + 1) (l.call (.moved [])) := by
  have htot : total calls (n + 1) = total calls n := by rw [total, hc]; rfl
  have hcall : l.call (.moved []) = { l with stopped := decide (l.errno ≠ eIntr) } := by
    simp [Loop.call]
  rw [hcall]
  by_cases he : l.errno = eIntr
  · have hns : ¬Stops errno calls n := by
      rw [Stops, hc]
      rintro ⟨-, h₁, h₂⟩
      rcases h.errno.1 he with h₃ | ⟨i, hi, e, h₃⟩
      · exact h₁ h₃
      · exact h₂ i hi e h₃
    refine .inl ⟨⟨h.running.1, by simp [he]⟩, by rw [htot]; exact h.lt, ?_, ?_,
      h.no_stop_succ hns, ?_⟩
    · rw [htot]
      exact h.bc
    · rw [htot]
      exact h.count
    · rw [error_succ_iff_of_moved hc]
      exact h.errno
  · have hst : Stops errno calls n := by
      rw [Stops, hc]
      refine ⟨rfl, fun h₁ => he (h.errno.2 (.inl h₁)), fun i hi e h₁ => ?_⟩
      exact he (h.errno.2 (.inr ⟨i, hi, e, h₁⟩))
    have hbc : l.bc < len := by rw [h.bc]; exact h.lt
    exact .inr (.inr ⟨by simp [he], hbc, n, Nat.lt_succ_self n, hst, h.lt⟩)

/-- A call that moves something. -/
theorem Going.call_moved {bs : List Byte} (h : Going errno calls len n l)
    (hc : calls n = .moved bs) (hbs : bs ≠ []) :
    Going errno calls len (n + 1) (l.call (.moved bs)) ∨ Left errno calls len (n + 1) (l.call (.moved bs)) := by
  have hlt := h.lt
  have hcount := h.count
  have hbc := h.bc
  have hpos := List.length_pos_iff.2 hbs
  have htot : total calls (n + 1) = total calls n + bs.length := by rw [total, hc]; rfl
  have hns : ¬Stops errno calls n := by
    rw [Stops, hc]
    exact fun h₁ => hbs h₁.1
  have htake : (bs.take l.count).length = min l.count bs.length := List.length_take
  have hne : bs.take l.count ≠ [] := by
    rw [← List.length_pos_iff, htake]
    omega
  have hcall : l.call (.moved bs) = { l with
      data := l.data ++ bs.take l.count
      count := l.count - (bs.take l.count).length
      off := l.off + BitVec.ofNat 64 (bs.take l.count).length } := if_neg hne
  have hbc' : (l.call (.moved bs)).bc = l.bc + min l.count bs.length := by
    rw [hcall, Loop.bc, List.length_append, htake, Loop.bc]
  have hcount' : (l.call (.moved bs)).count = l.count - min l.count bs.length := by
    rw [hcall, htake]
  have hstop' : (l.call (.moved bs)).stopped = false := by
    rw [hcall]
    exact h.running.2
  by_cases hfull : len ≤ total calls (n + 1)
  · exact .inr (.inl ⟨by omega, by omega, n + 1, le_rfl, hfull, h.no_stop_succ hns⟩)
  · refine .inl ⟨⟨by omega, hstop'⟩, by omega, by omega, by omega, h.no_stop_succ hns, ?_⟩
    rw [error_succ_iff_of_moved hc, hcall]
    exact h.errno

/-- **What one call does** to a loop that goes on. -/
theorem Going.call (h : Going errno calls len n l) :
    Going errno calls len (n + 1) (l.call (calls n)) ∨ Left errno calls len (n + 1) (l.call (calls n)) := by
  cases hc : calls n with
  | error e => exact h.call_error hc
  | moved bs =>
      by_cases hbs : bs = []
      · subst hbs
        exact h.call_nil hc
      · exact h.call_moved hc hbs

/-- **Where the loop is after `n` calls.** -/
theorem after_cases (len : ℕ) (off : BitVec 64) (errno : ℕ) (calls : ℕ → CallResult) (n : ℕ) :
    Going errno calls len n ((start len off errno).after calls n) ∨
      Left errno calls len n ((start len off errno).after calls n) := by
  induction n with
  | zero =>
      rcases Nat.eq_zero_or_pos len with rfl | hlen
      · exact .inr (.inl ⟨rfl, rfl, 0, le_rfl, le_rfl, by omega⟩)
      · refine .inl ⟨⟨by simp [after, start]; omega, rfl⟩, hlen, rfl, rfl, by omega, ?_⟩
        simp [after, start]
  | succ n ih =>
      rcases ih with h | h
      · rw [after_succ_of_running h.running]
        exact h.call
      · rw [after, if_neg h.not_running]
        exact .inr h.succ

/-- The loop goes on as long as the device lets it. -/
theorem going_after (off : BitVec 64) (hlt : total calls n < len) (hno : ∀ i < n, ¬Stops errno calls i) :
    Going errno calls len n ((start len off errno).after calls n) := by
  rcases after_cases len off errno calls n with h | ⟨-, -, k, hk, hle, -⟩ | ⟨-, -, k, hk, hst, -⟩
  · exact h
  · have := total_mono calls hk
    omega
  · exact absurd hst (hno k hk)

/-- **The loop is left exactly if the device ends it.** -/
theorem left_iff (off : BitVec 64) : (∃ n, ¬((start len off errno).after calls n).Running) ↔ Ends errno calls len := by
  constructor
  · rintro ⟨n, hn⟩
    rcases after_cases len off errno calls n with h | ⟨-, -, k, -, hk, -⟩ | ⟨-, -, k, -, hk, -⟩
    · exact absurd h.running hn
    · exact .inl ⟨k, hk⟩
    · exact .inr ⟨k, hk⟩
  · rintro (⟨k, hk⟩ | ⟨k, hk⟩)
    · refine ⟨k, fun hrun => ?_⟩
      rcases after_cases len off errno calls k with h | h
      · exact absurd h.lt (by omega)
      · exact h.not_running hrun
    · refine ⟨k + 1, fun hrun => ?_⟩
      rcases after_cases len off errno calls (k + 1) with h | h
      · exact h.no_stop k (Nat.lt_succ_self k) hk
      · exact h.not_running hrun

/-- **A loop that has been left moved everything exactly if the device
did.** -/
theorem bc_eq_iff (h : ¬((start len off errno).after calls n).Running) :
    ((start len off errno).after calls n).bc = len ↔ Full errno calls len := by
  rcases after_cases len off errno calls n with h' | ⟨hbc, -, k, -, hk⟩ | ⟨-, hbc, k, -, hk, hlt⟩
  · exact absurd h'.running h
  · exact iff_of_true hbc ⟨k, hk⟩
  · exact iff_of_false (by omega) (not_full_of_stops hk hlt)

end Loop

end Splitter

end VmwareProto
