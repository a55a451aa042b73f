import VmwareProto.Splitter.Disk
/-!
# The transfer loops on memory and a device

`safe_pwrite` and `safe_pread` with every variable they keep: the buffer
pointer, the bytes left, the total and the file offset, each advanced on
its own. Memory is an array of bytes as the device is, but a device ends
somewhere. A call moves as many bytes as the system likes, up to the end,
or fails; that the four variables stay in step is what makes the bytes moved
one copy from the start of the range.
-/

namespace VmwareProto

namespace Splitter

/-! ## Copies -/

namespace Disk

variable {src dst : Disk} {a b x : BitVec 64} {m n : ℕ}

/-- `n` bytes of `src` from `a` on, put into `dst` from `b` on. -/
def copy (src dst : Disk) (a b : BitVec 64) (n : ℕ) : Disk := dst.store b (src.bytes a n)

@[simp] theorem copy_zero : copy src dst a b 0 = dst := rfl

/-- **Copied in two parts** is copied at once. -/
theorem copy_add (h : m + n < 2 ^ 64) :
    copy src (copy src dst a b m) (a + BitVec.ofNat 64 m) (b + BitVec.ofNat 64 m) n =
      copy src dst a b (m + n) := by
  have hm : BitVec.ofNat 64 m = BitVec.ofNat 64 (src.bytes a m).length := by rw [length_bytes]
  have hlen : (src.bytes a m).length + (src.bytes (a + BitVec.ofNat 64 m) n).length < 2 ^ 64 := by
    rw [length_bytes, length_bytes]
    exact h
  unfold copy
  rw [bytes_add, ← store_append hlen, ← hm]

/-- A byte outside the copy is as it was. -/
theorem copy_of_le (h : n ≤ (x - b).toNat) : copy src dst a b n x = dst x := by
  unfold copy store
  exact List.getD_eq_default _ _ (by rw [length_bytes]; exact h)

/-- A byte inside the copy. -/
theorem copy_of_lt (h : n < 2 ^ 64) (hm : m < n) :
    copy src dst a b n (b + BitVec.ofNat 64 m) = src (a + BitVec.ofNat 64 m) := by
  have hx : (b + BitVec.ofNat 64 m - b).toNat = m := by
    rw [BitVec.add_comm, BitVec.add_sub_cancel, BitVec.toNat_ofNat]
    exact Nat.mod_eq_of_lt (hm.trans h)
  have hlt : m < (src.bytes a n).length := by rwa [length_bytes]
  unfold copy store
  rw [hx, List.getD_eq_getElem _ _ hlt]
  simp [bytes]

/-- What was copied can be read back. -/
theorem bytes_copy (h : n < 2 ^ 64) (hm : m ≤ n) :
    (copy src dst a b n).bytes b m = src.bytes a m := by
  unfold bytes
  refine List.map_congr_left fun i hi => ?_
  exact copy_of_lt h ((List.mem_range.1 hi).trans_le hm)

end Disk

/-! ## The device and its calls -/

/-- A device: its contents, and where they end. -/
structure Ssd where
  cells : Disk
  size : ℕ
  /-- the end is an `off_t` -/
  size_lt : size < 2 ^ 63

/-- The bytes there are from `off` on. -/
def Ssd.left (d : Ssd) (off : BitVec 64) : ℕ := d.size - off.toNat

theorem Ssd.left_lt (d : Ssd) (off : BitVec 64) : d.left off < 2 ^ 63 :=
  (Nat.sub_le _ _).trans_lt d.size_lt

/-- Further on there are so many less. -/
theorem Ssd.left_add (d : Ssd) {off : BitVec 64} {k : ℕ} (h : k ≤ d.left off) :
    d.left (off + BitVec.ofNat 64 k) = d.left off - k := by
  have hsize := d.size_lt
  have hoff := off.isLt
  unfold left at h ⊢
  rcases Nat.eq_zero_or_pos k with rfl | hk
  · rw [BitVec.add_zero, Nat.sub_zero]
  · have hadd : (off + BitVec.ofNat 64 k).toNat = off.toNat + k := by
      rw [BitVec.toNat_add, BitVec.toNat_ofNat, Nat.mod_eq_of_lt (by omega : k < 2 ^ 64)]
      exact Nat.mod_eq_of_lt (by omega)
    omega

/-- What the system does with a call: it moves up to `n` bytes, or fails. -/
inductive Answer
  | moves (n : ℕ)
  | fails (e : ℕ)
  deriving DecidableEq, Repr

/-- The loop's system call. -/
inductive Call
  | pread
  | pwrite
  deriving DecidableEq, Repr

/-- The variables of `safe_pwrite` and `safe_pread`, memory, the device and
`errno`. -/
structure Io where
  mem : Disk
  dev : Ssd
  b : BitVec 64
  bc : BitVec 64
  count : BitVec 64
  off : BitVec 64
  errno : ℕ
  /-- the `break` was taken -/
  stopped : Bool

namespace Io

/-- What a loop is called with. -/
def start (mem : Disk) (dev : Ssd) (buf count off : BitVec 64) (errno : ℕ) : Io :=
  ⟨mem, dev, buf, 0, count, off, errno, false⟩

/-- There is another call to make. -/
def Running (io : Io) : Prop := io.count ≠ 0 ∧ io.stopped = false

instance (io : Io) : Decidable io.Running := inferInstanceAs (Decidable (_ ∧ _))

/-- The bytes moved by a call that may move `n`: not more than it is for,
and none behind the end. -/
def rc (io : Io) (n : ℕ) : ℕ := min n (min io.count.toNat (io.dev.left io.off))

/-- The system call moves `k` bytes. -/
def move (io : Io) (k : ℕ) : Call → Io
  | .pread => { io with mem := Disk.copy io.dev.cells io.mem io.off io.b k }
  | .pwrite =>
      { io with dev := { io.dev with cells := Disk.copy io.mem io.dev.cells io.b io.off k } }

/-- Then the loop adds them up. -/
def advance (c : Call) (io : Io) (k : ℕ) : Io :=
  { io.move k c with
    count := io.count - BitVec.ofNat 64 k
    b := io.b + BitVec.ofNat 64 k
    bc := io.bc + BitVec.ofNat 64 k
    off := io.off + BitVec.ofNat 64 k }

/-- One call, and what follows it. -/
def call (c : Call) (io : Io) : Answer → Io
  | .fails e => { io with errno := e, stopped := decide (e ≠ eIntr) }
  | .moves n =>
      if io.rc n = 0 then { io with stopped := decide (io.errno ≠ eIntr) }
      else io.advance c (io.rc n)

/-- The loop after `n` calls, or after its last one. -/
def after (c : Call) (io : Io) (answers : ℕ → Answer) : ℕ → Io
  | 0 => io
  | n + 1 =>
      if (io.after c answers n).Running then (io.after c answers n).call c (answers n)
      else io.after c answers n

/-- The bytes the first `n` calls moved. -/
def moved (c : Call) (io : Io) (answers : ℕ → Answer) : ℕ → ℕ
  | 0 => 0
  | n + 1 =>
      io.moved c answers n +
        if (io.after c answers n).Running then
          match answers n with
          | .moves k => (io.after c answers n).rc k
          | .fails _ => 0
        else 0

section

variable (mem : Disk) (dev : Ssd) (buf count off : BitVec 64) (errno : ℕ)
  (answers : ℕ → Answer) (n : ℕ)

/-- A loop, up to call `n`: what it leaves if it is over by then. `bc` is
what it returns. -/
def safe (c : Call) : Option Io :=
  let io := (start mem dev buf count off errno).after c answers n
  if io.Running then none else some io

/-- `safe_pwrite`. -/
def safePwrite : Option Io := safe mem dev buf count off errno answers n .pwrite

/-- `safe_pread`. -/
def safePread : Option Io := safe mem dev buf count off errno answers n .pread

/-- `ssd_write` and `ssd_read`: the total is compared as a `uint64_t`. -/
def ssdResult (len : BitVec 64) (io : Io) : ℤ := if len ≠ io.bc then -1 else 0

/-- `ssd_write`, for a payload at `buf`. -/
def ssdWrite (len offset : BitVec 64) : Option (ℤ × Io) :=
  (safePwrite mem dev buf len offset errno answers n).map fun io => (ssdResult len io, io)

/-- `ssd_read`, for a payload at `buf`. -/
def ssdRead (len offset : BitVec 64) : Option (ℤ × Io) :=
  (safePread mem dev buf len offset errno answers n).map fun io => (ssdResult len io, io)

end

/-! ## In step -/

variable {c : Call} {io io₀ : Io} {answers : ℕ → Answer} {k m n : ℕ}

@[simp] theorem size_advance (io : Io) : (io.advance c k).dev.size = io.dev.size := by
  cases c <;> rfl

@[simp] theorem errno_advance (io : Io) : (io.advance c k).errno = io.errno := by
  cases c <;> rfl

@[simp] theorem stopped_advance (io : Io) : (io.advance c k).stopped = io.stopped := by
  cases c <;> rfl

@[simp] theorem left_advance (io : Io) (off : BitVec 64) :
    (io.advance c k).dev.left off = io.dev.left off := by
  rw [Ssd.left, size_advance, Ssd.left]

/-- What a loop can still move. -/
def room (io : Io) : ℕ := min io.count.toNat (io.dev.left io.off)

theorem room_lt (io : Io) : io.room < 2 ^ 63 :=
  (min_le_right _ _).trans_lt (io.dev.left_lt _)

theorem rc_le (io : Io) (n : ℕ) : io.rc n ≤ io.room := min_le_right _ _

theorem count_advance (hk : k ≤ io.count.toNat) :
    (io.advance c k).count.toNat = io.count.toNat - k := by
  have hlt := io.count.isLt
  show (io.count - BitVec.ofNat 64 k).toNat = _
  rw [BitVec.toNat_sub, BitVec.toNat_ofNat, Nat.mod_eq_of_lt (by omega : k < 2 ^ 64)]
  omega

/-- What was moved is what there is less room for. -/
theorem room_advance (hk : k ≤ io.room) : (io.advance c k).room = io.room - k := by
  have hcount : k ≤ io.count.toNat := hk.trans (min_le_left _ _)
  have hleft : k ≤ io.dev.left io.off := hk.trans (min_le_right _ _)
  have hoff : (io.advance c k).off = io.off + BitVec.ofNat 64 k := rfl
  rw [room, count_advance hcount, left_advance, hoff, Ssd.left_add _ hleft, room]
  omega

/-- **Two transfers are one.** Memory, the device and the four variables
move on together. -/
theorem advance_advance (h : m + n < 2 ^ 64) :
    (io.advance c m).advance c n = io.advance c (m + n) := by
  cases c with
  | pread =>
      simp only [advance, move, Disk.copy_add h, BitVec.ofNat_add, BitVec.add_assoc,
        BitVec.sub_sub]
  | pwrite =>
      simp only [advance, move, Disk.copy_add h, BitVec.ofNat_add, BitVec.add_assoc,
        BitVec.sub_sub]

theorem advance_zero (io : Io) : io.advance c 0 = io := by
  cases c <;> simp [advance, move]

/-- The loop has moved `k` bytes, whatever calls it took. -/
def Advanced (c : Call) (io₀ : Io) (k : ℕ) (io : Io) : Prop :=
  k ≤ io₀.room ∧ ∃ e s, io = { io₀.advance c k with errno := e, stopped := s }

theorem Advanced.room (h : Advanced c io₀ k io) : io.room = io₀.room - k := by
  obtain ⟨hk, e, s, rfl⟩ := h
  exact room_advance hk

/-- A transfer on top of the others. -/
theorem Advanced.advance (h : Advanced c io₀ k io) (hm : m ≤ io.room) :
    Advanced c io₀ (k + m) (io.advance c m) := by
  have hroom := h.room
  have hlt := io₀.room_lt
  obtain ⟨hk, e, s, rfl⟩ := h
  refine ⟨by omega, e, s, ?_⟩
  rw [← advance_advance (by omega)]
  cases c <;> rfl

/-- What one call adds to the bytes moved. -/
def gain (io : Io) : Answer → ℕ
  | .moves n => io.rc n
  | .fails _ => 0

/-- **One call.** -/
theorem Advanced.call (h : Advanced c io₀ k io) (a : Answer) :
    Advanced c io₀ (k + io.gain a) (io.call c a) := by
  obtain ⟨hk, e, s, hio⟩ := id h
  cases a with
  | fails e' => exact ⟨hk, e', decide (e' ≠ eIntr), by rw [hio]; rfl⟩
  | moves n =>
      by_cases h0 : io.rc n = 0
      · have hcall : io.call c (.moves n) = { io with stopped := decide (io.errno ≠ eIntr) } :=
          if_pos h0
        rw [hcall, gain, h0]
        exact ⟨hk, e, decide (io.errno ≠ eIntr), by rw [hio]; rfl⟩
      · have hcall : io.call c (.moves n) = io.advance c (io.rc n) := if_neg h0
        rw [hcall]
        exact h.advance (io.rc_le n)

theorem moved_succ_of_running (h : (io₀.after c answers n).Running) :
    io₀.moved c answers (n + 1) =
      io₀.moved c answers n + (io₀.after c answers n).gain (answers n) := by
  rw [moved, if_pos h]
  cases answers n <;> rfl

/-- **Where the loop is after `n` calls.** -/
theorem advanced_after (c : Call) (io₀ : Io) (answers : ℕ → Answer) (n : ℕ) :
    Advanced c io₀ (io₀.moved c answers n) (io₀.after c answers n) := by
  induction n with
  | zero => exact ⟨Nat.zero_le _, io₀.errno, io₀.stopped, by rw [moved, advance_zero]; rfl⟩
  | succ n ih =>
      by_cases hrun : (io₀.after c answers n).Running
      · rw [after, if_pos hrun, moved_succ_of_running hrun]
        exact ih.call (answers n)
      · rw [after, if_neg hrun, moved, if_neg hrun]
        exact ih

/-! ## Exact transfers -/

/-- `n` bytes of `src` from `a` on stand in `dst'` from `b` on, and no other
byte has changed. -/
structure Copied (src : Disk) (a : BitVec 64) (dst dst' : Disk) (b : BitVec 64) (n : ℕ) : Prop where
  same : ∀ i < n, dst' (b + BitVec.ofNat 64 i) = src (a + BitVec.ofNat 64 i)
  rest : ∀ x, n ≤ (x - b).toNat → dst' x = dst x

theorem copied_copy (src dst : Disk) (a b : BitVec 64) (h : n < 2 ^ 64) :
    Copied src a dst (Disk.copy src dst a b n) b n :=
  ⟨fun _ hi => Disk.copy_of_lt h hi, fun _ hx => Disk.copy_of_le hx⟩

variable {mem : Disk} {dev : Ssd} {buf len offset : BitVec 64} {errno : ℕ}

/-- What a loop that has returned left behind. -/
theorem safe_eq_some (h : safe mem dev buf len offset errno answers n c = some io) :
    Advanced c (start mem dev buf len offset errno)
      ((start mem dev buf len offset errno).moved c answers n) io := by
  unfold safe at h
  simp only at h
  split at h
  · cases h
  · rw [← Option.some.inj h]
    exact advanced_after ..

/-- What it returns. -/
theorem Advanced.bc (h : Advanced c (start mem dev buf len offset errno) k io) :
    io.bc.toNat = k ∧ io.bc.toInt = k ∧ k ≤ len.toNat ∧ k ≤ dev.left offset := by
  have hlt := (start mem dev buf len offset errno).room_lt
  obtain ⟨hk, e, s, rfl⟩ := h
  have hbc : ((start mem dev buf len offset errno).advance c k).bc = BitVec.ofNat 64 k :=
    BitVec.zero_add _
  have hto : (BitVec.ofNat 64 k).toNat = k := by
    rw [BitVec.toNat_ofNat]
    exact Nat.mod_eq_of_lt (by omega)
  simp only [hbc, hto, BitVec.toInt_eq_toNat_cond]
  exact ⟨trivial, if_pos (by omega), hk.trans (min_le_left _ _), hk.trans (min_le_right _ _)⟩

theorem Advanced.pwrite (h : Advanced .pwrite (start mem dev buf len offset errno) k io) :
    io.mem = mem ∧ io.dev.size = dev.size ∧ Copied mem buf dev.cells io.dev.cells offset k := by
  have hlt := (start mem dev buf len offset errno).room_lt
  obtain ⟨hk, e, s, rfl⟩ := h
  exact ⟨rfl, rfl, copied_copy _ _ _ _ (by omega)⟩

theorem Advanced.pread (h : Advanced .pread (start mem dev buf len offset errno) k io) :
    io.dev = dev ∧ Copied dev.cells offset mem io.mem buf k := by
  have hlt := (start mem dev buf len offset errno).room_lt
  obtain ⟨hk, e, s, rfl⟩ := h
  exact ⟨rfl, copied_copy _ _ _ _ (by omega)⟩

/-- A zero from `ssd_write` or `ssd_read` means that the loop moved it
all. -/
theorem ssdResult_eq_zero : ssdResult len io = 0 ↔ io.bc = len := by
  unfold ssdResult
  split <;> rename_i h
  · exact iff_of_false (by decide) (fun e => h e.symm)
  · exact iff_of_true rfl (not_not.1 h).symm

/-! ## The loop that keeps the bytes moved

`Loop` has one total where `Io` has four variables; the calls it is given
are the answers of memory and the device. -/

/-- The next `k` bytes to move. -/
def source (io : Io) (k : ℕ) : Call → List Byte
  | .pread => io.dev.cells.bytes io.off k
  | .pwrite => io.mem.bytes io.b k

/-- What a call answers, with the bytes it moves. -/
def result (c : Call) (io : Io) : Answer → CallResult
  | .moves n => .moved (io.source (io.rc n) c)
  | .fails e => .error e

/-- What the calls of a loop answer, one after another. -/
def results (c : Call) (io : Io) (answers : ℕ → Answer) (n : ℕ) : CallResult :=
  (io.after c answers n).result c (answers n)

/-- The loop, for a buffer at `buf`. -/
def toLoop (buf : BitVec 64) (io : Io) : Loop :=
  ⟨io.mem.bytes buf io.bc.toNat, io.count.toNat, io.off, io.errno, io.stopped⟩

@[simp] theorem length_source (io : Io) (c : Call) : (io.source k c).length = k := by
  cases c <;> exact Disk.length_bytes k

/-- The next bytes are the next of the range. -/
theorem Advanced.source_add (h : Advanced c io₀ k io) (m : ℕ) :
    io₀.source (k + m) c = io₀.source k c ++ io.source m c := by
  obtain ⟨-, e, s, rfl⟩ := h
  cases c <;> exact Disk.bytes_add k m

/-- The buffer holds the first of the range. -/
theorem Advanced.bytes (h : Advanced c io₀ k io) : io.mem.bytes io₀.b k = io₀.source k c := by
  have hlt := io₀.room_lt
  obtain ⟨hk, e, s, rfl⟩ := h
  cases c with
  | pread => exact Disk.bytes_copy (by omega) le_rfl
  | pwrite => rfl

theorem running_toLoop : (io.toLoop buf).Running ↔ io.Running := by
  have hcount : io.count.toNat ≠ 0 ↔ io.count ≠ 0 := by
    rw [ne_eq, ne_eq, ← BitVec.toNat_inj]
    rfl
  exact and_congr hcount Iff.rfl

/-- **One call** is one call. -/
theorem toLoop_call (h : Advanced c (start mem dev buf len offset errno) k io) (a : Answer) :
    (io.call c a).toLoop buf = (io.toLoop buf).call (io.result c a) := by
  cases a with
  | fails e => rfl
  | moves n =>
      have hbc := h.bc.1
      have hadv := h.advance (io.rc_le n)
      have hbc' := hadv.bc.1
      have hle : io.rc n ≤ io.count.toNat := (io.rc_le n).trans (min_le_left _ _)
      have hbytes : io.mem.bytes buf k = (start mem dev buf len offset errno).source k c := h.bytes
      have hbytes' : (io.advance c (io.rc n)).mem.bytes buf (k + io.rc n) =
          (start mem dev buf len offset errno).source (k + io.rc n) c := hadv.bytes
      have htake : (io.source (io.rc n) c).take (io.toLoop buf).count = io.source (io.rc n) c :=
        List.take_of_length_le (by rw [length_source]; exact hle)
      by_cases h0 : io.rc n = 0
      · have hnil : (io.source (io.rc n) c).take (io.toLoop buf).count = [] := by
          rw [htake, ← List.length_eq_zero_iff, length_source, h0]
        have hcall : io.call c (.moves n) = { io with stopped := decide (io.errno ≠ eIntr) } :=
          if_pos h0
        rw [hcall]
        exact (if_pos hnil).symm
      · have hne : (io.source (io.rc n) c).take (io.toLoop buf).count ≠ [] := by
          rw [htake, ne_eq, ← List.length_eq_zero_iff, length_source]
          exact h0
        have hcall : io.call c (.moves n) = io.advance c (io.rc n) := if_neg h0
        have hdata : (io.advance c (io.rc n)).mem.bytes buf (io.advance c (io.rc n)).bc.toNat =
            io.mem.bytes buf io.bc.toNat ++ io.source (io.rc n) c := by
          rw [hbc, hbc', hbytes', h.source_add, hbytes]
        have hloop : (io.toLoop buf).call (io.result c (.moves n)) =
            { io.toLoop buf with
              data := (io.toLoop buf).data ++ io.source (io.rc n) c
              count := (io.toLoop buf).count - io.rc n
              off := (io.toLoop buf).off + BitVec.ofNat 64 (io.rc n) } := by
          refine (if_neg hne).trans ?_
          rw [htake, length_source]
        rw [hcall, hloop]
        simp only [toLoop, hdata, count_advance hle, errno_advance, stopped_advance]
        rfl

/-- **The two loops agree**, after any number of calls. -/
theorem toLoop_after (c : Call) (mem : Disk) (dev : Ssd) (buf len offset : BitVec 64) (errno : ℕ)
    (answers : ℕ → Answer) (n : ℕ) :
    ((start mem dev buf len offset errno).after c answers n).toLoop buf =
      (Loop.start len.toNat offset errno).after
        ((start mem dev buf len offset errno).results c answers) n := by
  induction n with
  | zero => rfl
  | succ n ih =>
      rw [after, Loop.after, ← ih]
      by_cases hrun : ((start mem dev buf len offset errno).after c answers n).Running
      · rw [if_pos hrun, if_pos (running_toLoop.2 hrun)]
        exact toLoop_call (advanced_after ..) (answers n)
      · rw [if_neg hrun, if_neg (fun h => hrun (running_toLoop.1 h))]

/-! ## Returning -/

/-- Enough calls give a result, and further ones the same. -/
def Returns {α : Type} (f : ℕ → Option α) : Prop := ∃ n r, ∀ m, n ≤ m → f m = some r

/-- The calls move all the bytes or end the loop. -/
def Finishes (c : Call) (io : Io) (answers : ℕ → Answer) : Prop :=
  Ends io.errno (io.results c answers) io.count.toNat

theorem after_eq_of_not_running (h : ¬(io.after c answers n).Running) (hnm : n ≤ m) :
    io.after c answers m = io.after c answers n := by
  induction m, hnm using Nat.le_induction with
  | base => rfl
  | succ m _ ih => rw [after, ih, if_neg h]

/-- A loop that has been left has returned. -/
theorem safe_of_not_running
    (h : ¬((start mem dev buf len offset errno).after c answers n).Running) (hnm : n ≤ m) :
    safe mem dev buf len offset errno answers m c =
      some ((start mem dev buf len offset errno).after c answers n) := by
  have heq := after_eq_of_not_running h hnm
  unfold safe
  simp only [heq]
  exact if_neg h

/-- **A loop returns exactly if its calls let it.** -/
theorem returns_safe_iff :
    Returns (fun n => safe mem dev buf len offset errno answers n c) ↔
      (start mem dev buf len offset errno).Finishes c answers := by
  -- it runs as long as the loop of which `Loop.left_iff` says when it is left
  have hloop (n) : ((Loop.start len.toNat offset errno).after
      ((start mem dev buf len offset errno).results c answers) n).Running ↔
      ((start mem dev buf len offset errno).after c answers n).Running := by
    rw [← toLoop_after, running_toLoop]
  refine Iff.trans ?_ (Loop.left_iff offset)
  constructor
  · rintro ⟨n, io, h⟩
    refine ⟨n, fun h' => ?_⟩
    have hrun := (hloop n).1 h'
    have hnone : safe mem dev buf len offset errno answers n c = none := if_pos hrun
    exact absurd (hnone.symm.trans (h n le_rfl)) (by simp)
  · rintro ⟨n, h⟩
    have hleft := fun hrun => h ((hloop n).2 hrun)
    exact ⟨n, _, fun m hnm => safe_of_not_running hleft hnm⟩

/-- A result that tells what it comes from. -/
theorem returns_map_iff {α β : Type} {f : ℕ → Option α} {g : α → β} (hg : Function.Injective g) :
    Returns (fun n => (f n).map g) ↔ Returns f := by
  constructor
  · rintro ⟨n, r, h⟩
    obtain ⟨x, -, hx⟩ := Option.map_eq_some_iff.1 (h n le_rfl)
    refine ⟨n, x, fun m hnm => ?_⟩
    obtain ⟨y, hy, hr⟩ := Option.map_eq_some_iff.1 (h m hnm)
    rw [hy, hg (hr.trans hx.symm)]
  · rintro ⟨n, r, h⟩
    exact ⟨n, g r, fun m hnm => Option.map_eq_some_iff.2 ⟨r, h m hnm, rfl⟩⟩

/-- A final error ends the loop. -/
theorem finishes_of_fails {e : ℕ} (h : answers n = .fails e) (he : e ≠ eIntr) :
    io.Finishes c answers := by
  refine .inr ⟨n, ?_⟩
  rw [Stops, results, h]
  exact he

theorem ssdResult_injective (len : BitVec 64) :
    Function.Injective fun io => (ssdResult len io, io) := fun _ _ h => (Prod.mk.inj h).2

/-- **Device transfers are exact.** What the loops return is the number of
bytes their calls moved, a copy of the first of the range and of nothing
else, and a zero of `ssd_write` or `ssd_read` says that this was all of
it. They return as soon as the calls have moved everything or have ended
the loop, which a final error does. -/
theorem transfers_exact (mem : Disk) (dev : Ssd) (buf len offset : BitVec 64) (errno : ℕ)
    (answers : ℕ → Answer) :
    (∀ n io, safePwrite mem dev buf len offset errno answers n = some io →
      io.bc.toInt = (start mem dev buf len offset errno).moved .pwrite answers n ∧
      io.bc.toNat ≤ len.toNat ∧ io.bc.toNat ≤ dev.left offset ∧
      io.mem = mem ∧ io.dev.size = dev.size ∧
      Copied mem buf dev.cells io.dev.cells offset io.bc.toNat) ∧
    (∀ n io, safePread mem dev buf len offset errno answers n = some io →
      io.bc.toInt = (start mem dev buf len offset errno).moved .pread answers n ∧
      io.bc.toNat ≤ len.toNat ∧ io.bc.toNat ≤ dev.left offset ∧
      io.dev = dev ∧ Copied dev.cells offset mem io.mem buf io.bc.toNat) ∧
    (∀ n io, ssdWrite mem dev buf errno answers n len offset = some (0, io) →
      io.mem = mem ∧ io.dev.size = dev.size ∧
      Copied mem buf dev.cells io.dev.cells offset len.toNat) ∧
    (∀ n io, ssdRead mem dev buf errno answers n len offset = some (0, io) →
      io.dev = dev ∧ Copied dev.cells offset mem io.mem buf len.toNat) ∧
    (Returns (safePwrite mem dev buf len offset errno answers) ↔
      (start mem dev buf len offset errno).Finishes .pwrite answers) ∧
    (Returns (safePread mem dev buf len offset errno answers) ↔
      (start mem dev buf len offset errno).Finishes .pread answers) ∧
    (Returns (fun n => ssdWrite mem dev buf errno answers n len offset) ↔
      (start mem dev buf len offset errno).Finishes .pwrite answers) ∧
    (Returns (fun n => ssdRead mem dev buf errno answers n len offset) ↔
      (start mem dev buf len offset errno).Finishes .pread answers) ∧
    ∀ n e, answers n = .fails e → e ≠ eIntr →
      ∀ c, (start mem dev buf len offset errno).Finishes c answers := by
  refine ⟨fun n io h => ?_, fun n io h => ?_, fun n io h => ?_, fun n io h => ?_, returns_safe_iff,
    returns_safe_iff, ?_, ?_, fun n e h he c => finishes_of_fails h he⟩
  · obtain ⟨hnat, hint, hlen, hleft⟩ := (safe_eq_some h).bc
    rw [hnat]
    exact ⟨hint, hlen, hleft, (safe_eq_some h).pwrite⟩
  · obtain ⟨hnat, hint, hlen, hleft⟩ := (safe_eq_some h).bc
    rw [hnat]
    exact ⟨hint, hlen, hleft, (safe_eq_some h).pread⟩
  · obtain ⟨io', h', heq⟩ := Option.map_eq_some_iff.1 h
    obtain ⟨hres, rfl⟩ := Prod.mk.inj heq
    obtain ⟨hnat, -⟩ := (safe_eq_some h').bc
    obtain ⟨hmem, hsize, hcopy⟩ := (safe_eq_some h').pwrite
    rw [← hnat, ssdResult_eq_zero.1 hres] at hcopy
    exact ⟨hmem, hsize, hcopy⟩
  · obtain ⟨io', h', heq⟩ := Option.map_eq_some_iff.1 h
    obtain ⟨hres, rfl⟩ := Prod.mk.inj heq
    obtain ⟨hnat, -⟩ := (safe_eq_some h').bc
    obtain ⟨hdev, hcopy⟩ := (safe_eq_some h').pread
    rw [← hnat, ssdResult_eq_zero.1 hres] at hcopy
    exact ⟨hdev, hcopy⟩
  · exact (returns_map_iff (ssdResult_injective len)).trans returns_safe_iff
  · exact (returns_map_iff (ssdResult_injective len)).trans returns_safe_iff

/-- Two parts, around an interruption. -/
def twoParts (i : ℕ) : Answer :=
  if i = 0 then .moves 2 else if i = 1 then .fails eIntr else .moves 7

/-- One byte, then an error. -/
def cutShort (i : ℕ) : Answer := if i = 0 then .moves 1 else .fails 5

theorem transfers_exact_two_parts :
    (∃ io, ssdWrite (fun x => x.setWidth 8) ⟨fun _ => 0, 10, by decide⟩ 5 0 twoParts 3 3 1 =
        some (0, io) ∧
      Copied (fun x => x.setWidth 8) 5 (fun _ => 0) io.dev.cells 1 3) ∧
    (∃ io, ssdRead (fun _ => 0) ⟨fun x => x.setWidth 8, 10, by decide⟩ 5 0 twoParts 3 3 1 =
        some (0, io) ∧
      Copied (fun x => x.setWidth 8) 1 (fun _ => 0) io.mem 5 3) ∧
    (∃ io, safePread (fun _ => 0) ⟨fun x => x.setWidth 8, 10, by decide⟩ 5 3 1 0 cutShort 2 =
        some io ∧ io.bc = 1 ∧
      Copied (fun x => x.setWidth 8) 1 (fun _ => 0) io.mem 5 1) ∧
    Returns (safePread (fun _ => 0) ⟨fun x => x.setWidth 8, 10, by decide⟩ 5 3 1 0 cutShort) := by
  have hw := transfers_exact (fun x => x.setWidth 8) ⟨fun _ => 0, 10, by decide⟩ 5 3 1 0 twoParts
  have hr := transfers_exact (fun _ => 0) ⟨fun x => x.setWidth 8, 10, by decide⟩ 5 3 1 0 twoParts
  have hc := transfers_exact (fun _ => 0) ⟨fun x => x.setWidth 8, 10, by decide⟩ 5 3 1 0 cutShort
  refine ⟨⟨_, rfl, (hw.2.2.1 3 _ rfl).2.2⟩, ⟨_, rfl, (hr.2.2.2.1 3 _ rfl).2⟩,
    ⟨_, rfl, rfl, (hc.2.1 2 _ rfl).2.2.2.2⟩, ?_⟩
  exact hc.2.2.2.2.2.1.2 (hc.2.2.2.2.2.2.2.2 1 5 rfl (by decide) .pread)

end Io

end Splitter

end VmwareProto
