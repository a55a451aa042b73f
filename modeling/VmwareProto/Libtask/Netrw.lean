import VmwareProto.Library.LittleEndian
import VmwareProto.Libtask.Registry
/-!
# `task_netrw`

The loop under `task_netread` and `task_netwrite`, with memory, the context
and the connection. It takes a result of zero for the end of the connection;
a call for no bytes has that result as well, on any connection, and the loop
makes one when it is asked to move nothing, for its test comes last.
-/

namespace VmwareProto

namespace Libtask

/-- Memory. -/
abbrev Memory := ℕ → Byte

namespace Memory

variable {mem : Memory} {a m n : ℕ} {f : ℕ → Byte}

/-- The `n` bytes from `a` on. -/
def bytes (mem : Memory) (a n : ℕ) : List Byte := (List.range n).map fun i => mem (a + i)

/-- `n` bytes of `f` stored from `a` on. -/
def fill (mem : Memory) (a n : ℕ) (f : ℕ → Byte) : Memory := fun x =>
  if a ≤ x ∧ x < a + n then f (x - a) else mem x

theorem bytes_add (mem : Memory) (a m n : ℕ) :
    mem.bytes a (m + n) = mem.bytes a m ++ mem.bytes (a + m) n := by
  unfold bytes
  rw [List.range_add, List.map_append, List.map_map]
  congr 1
  exact List.map_congr_left fun i _ => congrArg mem (Nat.add_assoc a m i).symm

@[simp] theorem fill_zero : mem.fill a 0 f = mem := by
  funext x
  exact if_neg (by omega)

/-- **Stored in two parts** is stored at once. -/
theorem fill_fill :
    (mem.fill a m f).fill (a + m) n (fun i => f (m + i)) = mem.fill a (m + n) f := by
  funext x
  unfold fill
  by_cases h₂ : a + m ≤ x ∧ x < a + m + n
  · have hx : m + (x - (a + m)) = x - a := by omega
    rw [if_pos h₂, if_pos (by omega), ← hx]
  · rw [if_neg h₂]
    by_cases h₁ : a ≤ x ∧ x < a + m
    · rw [if_pos h₁, if_pos (by omega)]
    · rw [if_neg h₁, if_neg (by omega)]

end Memory

/-- `tirw_t`. -/
inductive Tirw
  | read
  | write
  deriving DecidableEq, Repr

/-- What the connection has for a call: it moves up to `k` bytes, none if
the other side has closed; `EAGAIN`; another error. -/
inductive NetAnswer
  | moved (k : ℕ)
  | again
  | error (e : ℤ)
  deriving DecidableEq, Repr

/-- What a call for `n` bytes answers: not more than these, and zero if it is
for none. -/
def NetAnswer.limit (n : ℤ) : NetAnswer → NetAnswer
  | .moved k => .moved (min k n.toNat)
  | a => if n = 0 then .moved 0 else a

/-- What the connection has for a call on it while it is open. -/
def NetAnswer.Open : NetAnswer → Prop
  | .moved k => 0 < k
  | .again => True
  | .error _ => False

/-- How much that is. -/
def NetAnswer.size : NetAnswer → ℕ
  | .moved k => k
  | _ => 0

/-- `task_netrw`: its variables, memory, the context's waiter on its side,
and the connection. -/
structure Netrw where
  mem : Memory
  buf : ℕ
  n : ℤ
  waiter : Option TaskId
  /-- all that was written to the connection -/
  written : List Byte
  /-- how much was read from it -/
  taken : ℕ
  ret : Option ℤ

namespace Netrw

variable (rw : Tirw) (x : TaskId) (stream : ℕ → Byte)

/-- The call on a context that nobody waits on; `n` is an `int`. -/
def start (mem : Memory) (buf nbytes : ℕ) (written : List Byte) (taken : ℕ) : Netrw :=
  ⟨mem, buf, (BitVec.ofNat 32 nbytes).toInt, none, written, taken, none⟩

/-- `k` bytes are moved: `buf += res; n -= res`. -/
def move (s : Netrw) (k : ℕ) : Netrw :=
  match rw with
  | .write =>
      { s with written := s.written ++ s.mem.bytes s.buf k, buf := s.buf + k, n := s.n - k }
  | .read =>
      { s with
        mem := s.mem.fill s.buf k fun i => stream (s.taken + i)
        taken := s.taken + k, buf := s.buf + k, n := s.n - k }

/-- `while (n > 0)`. -/
def test (s : Netrw) : Netrw := if 0 < s.n then s else { s with ret := some 0 }

/-- One `read` or `write` and what follows it. -/
def call (s : Netrw) (a : NetAnswer) : Option Netrw :=
  match a.limit s.n with
  | .moved 0 => some { s with ret := some taskioEconn }
  | .moved (k + 1) => some (s.move rw stream (k + 1)).test
  | .again => if s.waiter.isSome = true then none else some { s with waiter := some x }.test
  | .error e => if e = 0 then none else some { s with ret := some e }

/-- `sockio_done` wakes whoever waits. -/
def wake (s : Netrw) : Netrw := { s with waiter := none }

/-- After `m` calls, or after the last one; `none` is an assertion that
fails. -/
def after (s : Netrw) (answers : ℕ → NetAnswer) : ℕ → Option Netrw
  | 0 => some s
  | m + 1 => (s.after answers m).bind fun s =>
      if s.ret.isSome = true then some s else s.wake.call rw x stream (answers m)

/-! ## What is moved -/

variable {rw x stream} {s s₀ : Netrw} {a : NetAnswer} {answers : ℕ → NetAnswer} {k l m total : ℕ}
  {mem : Memory} {buf nbytes taken : ℕ} {written : List Byte}

@[simp] theorem n_move : (s.move rw stream k).n = s.n - k := by cases rw <;> rfl

@[simp] theorem ret_move : (s.move rw stream k).ret = s.ret := by cases rw <;> rfl

/-- **Moved in two parts** is moved at once. -/
theorem move_move : (s.move rw stream k).move rw stream l = s.move rw stream (k + l) := by
  have hn : s.n - (k : ℤ) - (l : ℤ) = s.n - ((k + l : ℕ) : ℤ) := by omega
  cases rw with
  | write => simp only [move, List.append_assoc, ← Memory.bytes_add, Nat.add_assoc, hn]
  | read =>
      have hfill := @Memory.fill_fill s.mem s.buf k l fun i => stream (s.taken + i)
      simp only [← Nat.add_assoc] at hfill
      simp only [move, hfill, hn, ← Nat.add_assoc]

/-- The loop is left, or the task waits. -/
def leave (s : Netrw) (w : Option TaskId) (r : Option ℤ) : Netrw := { s with waiter := w, ret := r }

/-- `k` of `total` bytes have been moved, and the loop is left with the
last. -/
def Stands (rw : Tirw) (stream : ℕ → Byte) (s₀ : Netrw) (total k : ℕ) (s : Netrw) : Prop :=
  k ≤ total ∧ ∃ w, s = (s₀.move rw stream k).leave w (if k = total then some 0 else none)

theorem Stands.ret_isSome (h : Stands rw stream s₀ total k s) : s.ret.isSome = true ↔ k = total := by
  obtain ⟨-, w, rfl⟩ := h
  by_cases hk : k = total <;> simp [leave, hk]

/-- **One call** on an open connection. -/
theorem Stands.call (h : Stands rw stream s₀ total k s) (hlt : k < total) (hn : s₀.n = total)
    (ho : a.Open) :
    ∃ s', s.wake.call rw x stream a = some s' ∧
      Stands rw stream s₀ total (min (k + a.size) total) s' := by
  obtain ⟨-, w, rfl⟩ := h
  rw [if_neg (Nat.ne_of_lt hlt)]
  have hns : ((s₀.move rw stream k).leave w none).wake.n = (total : ℤ) - k := by
    rw [← hn]
    exact n_move
  have hmove : ∀ l, (((s₀.move rw stream k).leave w none).wake).move rw stream l =
      (s₀.move rw stream (k + l)).leave none none := by
    intro l
    rw [← move_move]
    cases rw <;> rfl
  generalize hs : ((s₀.move rw stream k).leave w none).wake = s at hns hmove
  cases a with
  | error e => exact ho.elim
  | again =>
      have hlimit : NetAnswer.limit s.n .again = .again := if_neg (by omega)
      have hwait : s.waiter = none := by rw [← hs]; rfl
      have hmin : min (k + NetAnswer.size .again) total = k := by
        show min (k + 0) total = k
        omega
      refine ⟨{ s with waiter := some x }, ?_, Nat.min_le_right _ _, some x, ?_⟩
      · unfold Netrw.call
        rw [hlimit]
        simp only [hwait]
        rw [if_neg (by decide), test, if_pos (by show 0 < s.n; omega)]
      · rw [hmin, if_neg (Nat.ne_of_lt hlt), ← hs]
        rfl
  | moved j =>
      have hj : 0 < j := ho
      obtain ⟨l, hl⟩ : ∃ l, min j (total - k) = l + 1 := ⟨min j (total - k) - 1, by omega⟩
      have hlimit : NetAnswer.limit s.n (.moved j) = .moved (l + 1) := by
        rw [NetAnswer.limit, ← hl, hns]
        congr 2
        omega
      have hmin : min (k + NetAnswer.size (.moved j)) total = k + (l + 1) := by
        rw [NetAnswer.size]
        omega
      refine ⟨_, by unfold Netrw.call; rw [hlimit], Nat.min_le_right _ _, none, ?_⟩
      rw [hmin, hmove, test]
      have hn' : ((s₀.move rw stream (k + (l + 1))).leave none none).n =
          (total : ℤ) - ((k + (l + 1) : ℕ) : ℤ) := by
        rw [← hn]
        exact n_move
      by_cases hfull : k + (l + 1) = total
      · rw [if_neg (by omega), if_pos hfull]
        rfl
      · rw [if_pos (by omega), if_neg hfull]

/-- What the connection has for the first `m` calls. -/
def offered (answers : ℕ → NetAnswer) : ℕ → ℕ
  | 0 => 0
  | m + 1 => offered answers m + (answers m).size

/-- **Where the call stands after `m` calls** on an open connection. -/
theorem after_stands (x : TaskId) (hret : s₀.ret = none) (hn : s₀.n = total) (hpos : 0 < total)
    (ho : ∀ i, (answers i).Open) (m : ℕ) :
    ∃ s, s₀.after rw x stream answers m = some s ∧
      Stands rw stream s₀ total (min (offered answers m) total) s := by
  induction m with
  | zero =>
      have hmin : min (offered answers 0) total = 0 := Nat.zero_min _
      refine ⟨s₀, rfl, Nat.min_le_right _ _, s₀.waiter, ?_⟩
      rw [hmin, if_neg (by omega), ← hret]
      cases rw <;> simp [leave, move, Memory.bytes]
  | succ m ih =>
      obtain ⟨s, hs, hst⟩ := ih
      rw [after, hs, Option.bind_some]
      by_cases hfull : min (offered answers m) total = total
      · have hmin : min (offered answers (m + 1)) total = min (offered answers m) total := by
          rw [offered]
          omega
        rw [if_pos (hst.ret_isSome.2 hfull), hmin]
        exact ⟨s, rfl, hst⟩
      · rw [if_neg (fun h => hfull (hst.ret_isSome.1 h))]
        have hmin : min (offered answers (m + 1)) total =
            min (min (offered answers m) total + (answers m).size) total := by
          rw [offered]
          omega
        rw [hmin]
        exact hst.call (by omega) hn (ho m)

/-! ## All of it, once and in order -/

/-- The buffer's `nbytes` bytes went to the connection, or the connection's
next `nbytes` bytes to the buffer, and nothing else has changed. -/
def Whole (rw : Tirw) (stream : ℕ → Byte) (mem : Memory) (buf nbytes : ℕ) (written : List Byte)
    (taken : ℕ) (s : Netrw) : Prop :=
  match rw with
  | .write => s.mem = mem ∧ s.written = written ++ mem.bytes buf nbytes ∧ s.taken = taken
  | .read =>
      s.mem = mem.fill buf nbytes (fun i => stream (taken + i)) ∧ s.written = written ∧
        s.taken = taken + nbytes

/-- No assertion fails; whatever is returned is a zero, with all moved; and
it is returned once the connection has had as much. -/
def Exact (rw : Tirw) (x : TaskId) (stream : ℕ → Byte) (mem : Memory) (buf nbytes : ℕ)
    (written : List Byte) (taken : ℕ) (answers : ℕ → NetAnswer) : Prop :=
  (∀ m, ∃ s, (start mem buf nbytes written taken).after rw x stream answers m = some s ∧
    ∀ r, s.ret = some r → r = 0 ∧ Whole rw stream mem buf nbytes written taken s) ∧
  ∀ m, nbytes ≤ offered answers m →
    ∃ k s, (start mem buf nbytes written taken).after rw x stream answers k = some s ∧
      s.ret = some 0

theorem start_n (h : nbytes < 2 ^ 31) : (start mem buf nbytes written taken).n = nbytes := by
  show (BitVec.ofNat 32 nbytes).toInt = nbytes
  rw [BitVec.toInt_eq_toNat_cond, BitVec.toNat_ofNat, Nat.mod_eq_of_lt (by omega)]
  exact if_pos (by omega)

theorem Stands.whole (h : Stands rw stream (start mem buf nbytes written taken) nbytes nbytes s) :
    s.ret = some 0 ∧ Whole rw stream mem buf nbytes written taken s := by
  obtain ⟨-, w, rfl⟩ := h
  rw [if_pos rfl]
  cases rw <;> exact ⟨rfl, rfl, rfl, rfl⟩

/-- **`task_netrw` moves exactly what it is asked to**, unless that is
nothing: then it reports the connection closed. -/
theorem exact_iff (rw : Tirw) (x : TaskId) (stream : ℕ → Byte) (mem : Memory) (buf nbytes : ℕ)
    (written : List Byte) (taken : ℕ) (answers : ℕ → NetAnswer) (h31 : nbytes < 2 ^ 31)
    (ho : ∀ i, (answers i).Open) :
    Exact rw x stream mem buf nbytes written taken answers ↔ 0 < nbytes := by
  have hn : (start mem buf nbytes written taken).n = nbytes := start_n h31
  constructor
  · rintro ⟨hex, -⟩
    by_contra h0
    obtain rfl : nbytes = 0 := by omega
    have hlimit : (answers 0).limit (start mem buf 0 written taken).n = .moved 0 := by
      cases answers 0 <;> simp [NetAnswer.limit, hn]
    obtain ⟨s, hs, hret⟩ := hex 1
    have hcall : (start mem buf 0 written taken).after rw x stream answers 1 =
        some { start mem buf 0 written taken with ret := some taskioEconn } := by
      show (start mem buf 0 written taken).call rw x stream (answers 0) = _
      unfold Netrw.call
      rw [hlimit]
    rw [hcall] at hs
    obtain ⟨h, -⟩ := hret taskioEconn (by rw [← Option.some.inj hs])
    exact absurd h (by decide)
  · intro hpos
    have hst : ∀ m, ∃ s, (start mem buf nbytes written taken).after rw x stream answers m = some s ∧
        Stands rw stream (start mem buf nbytes written taken) nbytes
          (min (offered answers m) nbytes) s := after_stands x rfl hn hpos ho
    refine ⟨fun m => ?_, fun m hm => ?_⟩
    · obtain ⟨s, hs, h⟩ := hst m
      refine ⟨s, hs, fun r hr => ?_⟩
      rw [h.ret_isSome.1 (by rw [hr]; rfl)] at h
      obtain ⟨h0, hw⟩ := h.whole
      rw [h0] at hr
      exact ⟨(Option.some.inj hr).symm, hw⟩
    · obtain ⟨s, hs, h⟩ := hst m
      rw [Nat.min_eq_right hm] at h
      exact ⟨m, s, hs, h.whole.1⟩

end Netrw

end Libtask

end VmwareProto
