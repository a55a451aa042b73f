import VmwareProto.Splitter.Ssd
import Mathlib.Data.Set.Finite.Lattice
import Mathlib.Order.WellFounded
/-!
# Do the transfer loops end?

A call that moves nothing does not set `errno`, so the loops that look for
`EINTR` there find what an earlier call has left, perhaps one before the
loop. With an interruption in it the end of the device is taken for one
more interruption, again and again. Nothing else keeps a loop from ending.
-/

namespace VmwareProto

namespace Splitter

variable {calls : ℕ → CallResult} {errno len k n : ℕ} {off : BitVec 64} {l : Loop} {d : Ssd}

/-- The device has come to its end with bytes left to move, for good, and
`EINTR` was in `errno` when it first said so. -/
structure Stale (errno : ℕ) (calls : ℕ → CallResult) (len : ℕ) : Prop where
  short : ∀ k, total calls k < len
  ended : ∃ k, ∀ i, k ≤ i → calls i = .moved []
  /-- no call fails but for an interruption -/
  errors : ∀ i e, calls i = .error e → e = eIntr
  /-- the interruption before the first empty answer -/
  intr : errno = eIntr ∨ ∃ i e, calls i = .error e ∧ ∀ j < i, calls j ≠ .moved []

/-- Calls that move less than `len` bytes together move none in the end. -/
theorem eventually_size_eq_zero (h : ∀ k, total calls k < len) :
    ∃ k, ∀ i, k ≤ i → (calls i).size = 0 := by
  -- the number of calls after which the least is left to move
  obtain ⟨k, hk⟩ : ∃ k, ∀ i, len - total calls k ≤ len - total calls i :=
    ⟨_, fun i => Function.argmin_le (fun k => len - total calls k) i⟩
  refine ⟨k, fun i hi => ?_⟩
  have hle := hk (i + 1)
  have hlt := h (i + 1)
  have hmono := total_mono calls hi
  have hsucc : total calls (i + 1) = total calls i + (calls i).size := rfl
  omega

/-- A call without an error that moves nothing. -/
theorem eq_moved_nil {r : CallResult} (hs : r.size = 0) (he : ∀ e, r ≠ .error e) :
    r = .moved [] := by
  cases r with
  | error e => exact absurd rfl (he e)
  | moved bs => rw [List.eq_nil_of_length_eq_zero hs]

/-- **What keeps a loop going.** -/
theorem ends_iff (hfin : {i | calls i = .error eIntr}.Finite) :
    Ends errno calls len ↔ ¬Stale errno calls len := by
  constructor
  · rintro (⟨k, hk⟩ | ⟨k, hk⟩) hst
    · exact absurd (hst.short k) (by omega)
    · unfold Stops at hk
      split at hk
      · rename_i e he
        exact hk (hst.errors k e he)
      · rename_i bs hbs
        obtain ⟨rfl, hne, hno⟩ := hk
        obtain h | ⟨i, e, hi, hfirst⟩ := hst.intr
        · exact hne h
        · rcases Nat.lt_or_ge i k with hik | hik
          · exact hno i hik e hi
          · rcases Nat.lt_or_eq_of_le hik with hki | rfl
            · exact hfirst k hki hbs
            · rw [hi] at hbs
              cases hbs
  · intro hst
    by_contra hends
    have hshort : ∀ k, total calls k < len := fun k =>
      Nat.lt_of_not_le fun hk => hends (.inl ⟨k, hk⟩)
    have hgo : ∀ k, ¬Stops errno calls k := fun k hk => hends (.inr ⟨k, hk⟩)
    have herr : ∀ i e, calls i = .error e → e = eIntr := by
      intro i e hi
      have hi' := hgo i
      rw [Stops, hi] at hi'
      exact not_not.1 hi'
    obtain ⟨k, hk⟩ := eventually_size_eq_zero hshort
    obtain ⟨m, hm⟩ := hfin.bddAbove
    have hend : ∀ i, max k (m + 1) ≤ i → calls i = .moved [] := by
      intro i hi
      refine eq_moved_nil (hk i ((le_max_left _ _).trans hi)) fun e he => ?_
      have hle : i ≤ m := hm (show calls i = .error eIntr by rw [he, herr i e he])
      exact absurd ((le_max_right _ _).trans hi) (by omega)
    refine hst ⟨hshort, ⟨_, hend⟩, herr, ?_⟩
    by_contra hintr
    rw [not_or] at hintr
    obtain ⟨hne, hno⟩ := hintr
    -- the first empty answer would have been the last
    have hex : ∃ i, calls i = .moved [] := ⟨_, hend _ le_rfl⟩
    classical
    refine hgo (Nat.find hex) ?_
    rw [Stops, Nat.find_spec hex]
    exact ⟨rfl, hne, fun i hi e he => hno ⟨i, e, he, fun j hj => Nat.find_min hex (hj.trans hi)⟩⟩

/-! ## Reading up to the end -/

/-- What a `pread` of the device can answer. -/
def Ssd.Gives (d : Ssd) (l : Loop) : CallResult → Prop
  | .error _ => True
  | .moved bs => bs = d.cells.bytes l.off bs.length ∧ bs.length ≤ min l.count (d.left l.off) ∧
      (bs = [] → d.left l.off = 0)

/-- The loop has read the device from `off` on. -/
structure FromDevice (d : Ssd) (off : BitVec 64) (l : Loop) : Prop where
  pos : l.off = off + BitVec.ofNat 64 l.bc
  le : l.bc ≤ d.left off
  data : l.data = d.cells.bytes off l.bc

theorem FromDevice.call (h : FromDevice d off l) {r : CallResult} (hr : d.Gives l r) :
    FromDevice d off (l.call r) ∧ l.bc ≤ (l.call r).bc := by
  cases r with
  | error e => exact ⟨⟨h.pos, h.le, h.data⟩, le_rfl⟩
  | moved bs =>
      obtain ⟨hbs, hlen, -⟩ := hr
      have htake : bs.take l.count = bs :=
        List.take_of_length_le (hlen.trans (min_le_left _ _))
      have hleft : bs.length ≤ d.left off - l.bc := by
        rw [← Ssd.left_add d h.le, ← h.pos]
        exact hlen.trans (min_le_right _ _)
      by_cases hnil : bs = []
      · have hcall : l.call (.moved bs) = { l with stopped := decide (l.errno ≠ eIntr) } :=
          if_pos (htake.trans hnil)
        rw [hcall]
        exact ⟨⟨h.pos, h.le, h.data⟩, le_rfl⟩
      · have hcall : l.call (.moved bs) = { l with
            data := l.data ++ bs
            count := l.count - bs.length
            off := l.off + BitVec.ofNat 64 bs.length } := by
          refine (if_neg (by rwa [htake])).trans ?_
          rw [htake]
        have hbc : (l.call (.moved bs)).bc = l.bc + bs.length := by
          rw [hcall, Loop.bc, List.length_append]
          rfl
        have hle := h.le
        refine ⟨⟨?_, by omega, ?_⟩, by omega⟩
        · rw [hbc, hcall, BitVec.ofNat_add, ← BitVec.add_assoc, ← h.pos]
        · rw [hbc, Disk.bytes_add, ← h.data, ← h.pos, ← hbs, hcall]

/-- The calls are those of the device. -/
def Ssd.Answers (d : Ssd) (l : Loop) (calls : ℕ → CallResult) : Prop :=
  ∀ k, (l.after calls k).Running → d.Gives (l.after calls k) (calls k)

theorem FromDevice.after (h : FromDevice d off l) (hd : d.Answers l calls) (n : ℕ) :
    FromDevice d off (l.after calls n) := by
  induction n with
  | zero => exact h
  | succ n ih =>
      rw [Loop.after]
      split
      · rename_i hrun
        exact (ih.call (hd n hrun)).1
      · exact ih

/-- The bytes read are never given back. -/
theorem FromDevice.bc_mono (h : FromDevice d off l) (hd : d.Answers l calls) (hkn : k ≤ n) :
    (l.after calls k).bc ≤ (l.after calls n).bc := by
  induction n, hkn using Nat.le_induction with
  | base => exact le_rfl
  | succ n _ ih =>
      rw [Loop.after]
      split
      · rename_i hrun
        exact ih.trans ((h.after hd n).call (hd n hrun)).2
      · exact ih

theorem fromDevice_start (d : Ssd) (len : ℕ) (off : BitVec 64) (errno : ℕ) :
    FromDevice d off (.start len off errno) :=
  ⟨by simp [Loop.start, Loop.bc], Nat.zero_le _, rfl⟩

/-- **At the end of the device** the loop has all the bytes before it, and
keeps them. -/
theorem FromDevice.data_eq (h : FromDevice d off l) (hd : d.Answers l calls)
    (hrun : (l.after calls k).Running) (hend : calls k = .moved []) (hkn : k ≤ n) :
    (l.after calls n).data = d.cells.bytes off (d.left off) := by
  have hk := h.after hd k
  have hn := h.after hd n
  have hmono := h.bc_mono hd hkn
  have hgives := hd k hrun
  rw [hend] at hgives
  have hleft : d.left off - (l.after calls k).bc = 0 := by
    rw [← Ssd.left_add d hk.le, ← hk.pos]
    exact hgives.2.2 rfl
  have hle := hn.le
  rw [hn.data, show (l.after calls n).bc = d.left off by omega]

/-! ## Whether a loop returns -/

/-- The loop returns, and a read that has come to the end of its device
returns the bytes before the end. -/
def Returns (len : ℕ) (off : BitVec 64) (errno : ℕ) (calls : ℕ → CallResult) : Prop :=
  (∃ n, ¬((Loop.start len off errno).after calls n).Running) ∧
    ∀ d : Ssd, d.Answers (.start len off errno) calls →
      ∀ k, ((Loop.start len off errno).after calls k).Running → calls k = .moved [] →
        ∃ n, ¬((Loop.start len off errno).after calls n).Running ∧
          ((Loop.start len off errno).after calls n).data = d.cells.bytes off (d.left off)

/-- **A loop returns** unless it meets the end of the device with a stale
`EINTR`. -/
theorem returns_iff (len : ℕ) (off : BitVec 64) (errno : ℕ) (calls : ℕ → CallResult)
    (hfin : {i | calls i = .error eIntr}.Finite) :
    Returns len off errno calls ↔ ¬Stale errno calls len := by
  rw [← ends_iff hfin, ← Loop.left_iff off]
  refine ⟨fun h => h.1, fun ⟨n, hn⟩ => ⟨⟨n, hn⟩, fun d hd k hrun hend => ?_⟩⟩
  have hmax : ¬((Loop.start len off errno).after calls (max n k)).Running := by
    rw [Loop.after_eq_of_not_running hn (le_max_left _ _)]
    exact hn
  exact ⟨max n k, hmax, (fromDevice_start d len off errno).data_eq hd hrun hend (le_max_right _ _)⟩

/-- A read of an empty device, with no interruption about. -/
theorem returns_iff_empty :
    ({_i : ℕ | CallResult.moved [] = .error eIntr}.Finite) ∧ Returns 1 0 0 fun _ => .moved [] := by
  have hfin : {_i : ℕ | CallResult.moved [] = .error eIntr}.Finite := by simp
  refine ⟨hfin, (returns_iff 1 0 0 (fun _ => .moved []) hfin).2 fun h => ?_⟩
  obtain h | ⟨i, e, h, -⟩ := h.intr
  · exact absurd h (by decide)
  · cases h

/-- **It spins on an empty device** when an earlier call has left `EINTR`. -/
theorem read_never_returns :
    ¬∀ (len : ℕ) (off : BitVec 64) (errno : ℕ) (calls : ℕ → CallResult),
      {i | calls i = .error eIntr}.Finite → Returns len off errno calls := by
  intro h
  obtain ⟨⟨n, hn⟩, -⟩ := h 1 0 eIntr (fun _ => .moved []) (by simp)
  refine hn ?_
  have hstay : ∀ n, (Loop.start 1 0 eIntr).after (fun _ => .moved []) n = Loop.start 1 0 eIntr := by
    intro n
    induction n with
    | zero => rfl
    | succ n ih => rw [Loop.after, ih]; rfl
  rw [hstay]
  exact ⟨Nat.one_ne_zero, rfl⟩

end Splitter

end VmwareProto
