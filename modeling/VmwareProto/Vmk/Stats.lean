import VmwareProto.Vmk.Pool
import Mathlib.Data.List.Perm.Subperm
/-!
# Profiles

A `FUN_PROFILE` stat times its callers in one of 64 slots each. A slot is
looked for and marked with the stat's lock held, but it is timed and given
back without it, so the search is interleaved with the exits. What keeps two
worlds out of one slot is that it is marked with the lock held and unmarked
by the one world that has it. A world that finds no slot goes on with the
handle -1, which the first comparison of `_cb_stat_funp_exit` converts to
`size_t`.
-/

namespace VmwareProto

namespace Vmk

/-! ## `cb_stat_t` -/

/-- The length of `cntxts`. -/
def nCntxts : ℕ := 64

/-- `sizeof(stat->f.cntxts)`. -/
def sizeofCntxts : ℕ := 16 * nCntxts

/-- `funp_cntxt_t`. -/
structure Cntxt where
  st : BitVec 64
  used : Bool
  deriving DecidableEq, Repr

/-- Where a world is in `cb_stat_enter` and `cb_stat_exit`. -/
inductive StatPc
  | out
  /-- in `_cb_stat_funp_find_free`, about to read slot `i` -/
  | scanning (i : ℕ)
  /-- about to mark the slot it found -/
  | marking (h : ℤ)
  /-- without the lock, about to time the slot -/
  | timing (h : ℤ)
  /-- between `cb_stat_enter` and `cb_stat_exit`, with its handle -/
  | inside (h : ℤ)
  /-- about to set `st` to 0 -/
  | clearing (h : ℤ)
  /-- about to unmark the slot -/
  | unmarking (h : ℤ)
  deriving DecidableEq, Repr

/-- A stat of type `FUN_PROFILE` and the worlds that use it. -/
structure Profile where
  cntxts : ℤ → Cntxt
  total : BitVec 64
  calls : BitVec 64
  lock : Option World
  pc : World → StatPc

/-- A world and what `vmk_GetTimerCycles` returns to it. -/
structure StatAction where
  world : World
  cycles : BitVec 64
  deriving DecidableEq, Repr

/-- `cntxts[h]` is in the array. -/
def InCntxts (h : ℤ) : Prop := 0 ≤ h ∧ h < nCntxts

instance (h : ℤ) : Decidable (InCntxts h) := inferInstanceAs (Decidable (_ ∧ _))

namespace Profile

variable (σ : Profile) (x : World) (t : BitVec 64)

/-- World `x` goes on. -/
def goto (pc : StatPc) : Profile := { σ with pc := Function.update σ.pc x pc }

@[simp] theorem goto_pc_self (pc : StatPc) : (σ.goto x pc).pc x = pc := Function.update_self ..

/-- `cb_stat_init`. -/
def start : Profile := ⟨fun _ => ⟨0, false⟩, 0, 0, none, fun _ => .out⟩

/-- The loop of `_cb_stat_funp_find_free`, at `i`. -/
def findFree (i : ℕ) : Profile :=
  if i < nCntxts then
    if (σ.cntxts i).used = false then σ.goto x (.marking i) else σ.goto x (.scanning (i + 1))
  else { σ with lock := none }.goto x (.inside (-1))

/-- `_cb_stat_funp_enter`, when a slot was found, up to where it gives the
lock back. -/
def mark (h : ℤ) : Option Profile :=
  if 0 ≤ h ∧ sizeT h < sizeofCntxts ∧ InCntxts h then
    some ({ σ with
      cntxts := Function.update σ.cntxts h { σ.cntxts h with used := true }, lock := none }.goto x
      (.timing h))
  else none

/-- The rest of it. -/
def time (h : ℤ) : Option Profile :=
  if InCntxts h then
    some ({ σ with cntxts := Function.update σ.cntxts h { σ.cntxts h with st := t } }.goto x
      (.inside h))
  else none

/-- `total` and `calls`, unless the clock went back. -/
def account (h : ℤ) : Profile :=
  if t ≤ (σ.cntxts h).st then σ
  else { σ with total := σ.total + (t - (σ.cntxts h).st), calls := σ.calls + 1 }

/-- `_cb_stat_funp_exit`, up to where it writes to the slot. -/
def funpExit (h : ℤ) : Option Profile :=
  if sizeT h < sizeofCntxts then
    if h < 0 then some (σ.goto x .out)
    else if InCntxts h ∧ (σ.cntxts h).used = true then some ((σ.account t h).goto x (.clearing h))
    else none
  else none

/-- Then `st` is set to 0. -/
def clear (h : ℤ) : Option Profile :=
  if InCntxts h then
    some ({ σ with cntxts := Function.update σ.cntxts h { σ.cntxts h with st := 0 } }.goto x
      (.unmarking h))
  else none

/-- And `used` to `VMK_FALSE`. -/
def unmark (h : ℤ) : Option Profile :=
  if InCntxts h then
    some ({ σ with cntxts := Function.update σ.cntxts h { σ.cntxts h with used := false } }.goto x
      .out)
  else none

/-- World `x` takes its next step. -/
def step : Option Profile :=
  match σ.pc x with
  | .out => some ({ σ with lock := some x }.goto x (.scanning 0))
  | .scanning i => some (σ.findFree x i)
  | .marking h => σ.mark x h
  | .timing h => σ.time x t h
  | .inside h => σ.funpExit x t h
  | .clearing h => σ.clear x h
  | .unmarking h => σ.unmark x h

/-- The lock is taken when it is free. -/
def Enabled : Prop := σ.pc x = .out → σ.lock = none

instance : Decidable (σ.Enabled x) := inferInstanceAs (Decidable (_ → _))

end Profile

/-- Any number of worlds, each of which enters and exits again and again. -/
def profile : System Profile StatAction where
  init σ := σ = .start
  enabled σ act := σ.Enabled act.world
  exec σ act := σ.step act.world act.cycles

instance (σ : Profile) (act : StatAction) : Decidable (profile.enabled σ act) :=
  inferInstanceAs (Decidable (σ.Enabled act.world))

/-! ## What is promised -/

/-- The slot a world has, from where it marked it to where it unmarks it. -/
def StatPc.slot : StatPc → Option ℤ
  | timing h => some h
  | inside h => if h < 0 then none else some h
  | clearing h => some h
  | unmarking h => some h
  | _ => none

/-- **Profiling takes nobody down**: every world can take its next step, so no
assertion fails and no access is out of the array; no two worlds have the same
slot; and of more worlds inside than there are slots, some were skipped. -/
structure ProfileSafe (σ : Profile) : Prop where
  sound : ∀ x t, σ.Enabled x → ∃ σ', σ.step x t = some σ'
  apart : ∀ x y h, (σ.pc x).slot = some h → (σ.pc y).slot = some h → x = y
  extra : ∀ xs : List World, xs.Nodup → nCntxts < xs.length → (∀ x ∈ xs, ∃ h, σ.pc x = .inside h) →
    ∃ x ∈ xs, σ.pc x = .inside (-1)

/-- The search of world `x` ends without a slot: it is at the last one, and
that is used as well. -/
def Profile.NoSlot (σ : Profile) (x : World) : Prop :=
  σ.pc x = .scanning 63 ∧ (σ.cntxts 63).used = true

instance (σ : Profile) (x : World) : Decidable (σ.NoSlot x) := inferInstanceAs (Decidable (_ ∧ _))

variable {σ σ' : Profile} {x y : World} {t : BitVec 64} {h : ℤ} {i k : ℕ} {c : StatPc}

/-! ## The slots -/

/-- Whether a world has the stat's lock. -/
def StatPc.locks : StatPc → Bool
  | scanning _ => true
  | marking _ => true
  | _ => false

/-- **Who has which slot.** The world with the lock is the one that scans or
marks, and a slot is marked exactly while a world has it. -/
structure Slots (σ : Profile) : Prop where
  lock : ∀ x, (σ.pc x).locks = true ↔ σ.lock = some x
  free : ∀ x h, σ.pc x = .marking h → InCntxts h ∧ (σ.cntxts h).used = false
  mine : ∀ x h, (σ.pc x).slot = some h → InCntxts h ∧ (σ.cntxts h).used = true
  apart : ∀ x y h, (σ.pc x).slot = some h → (σ.pc y).slot = some h → x = y
  skipped : ∀ x h, σ.pc x = .inside h → h < 0 → h = -1

/-- An index of the array as a `size_t`. -/
theorem InCntxts.sizeT_lt (hh : InCntxts h) : sizeT h < sizeofCntxts := by
  obtain ⟨h₀, h₁⟩ := hh
  have hn : (nCntxts : ℤ) = 64 := rfl
  have hs : sizeofCntxts = 1024 := rfl
  rw [sizeT, hs, Int.emod_eq_of_lt h₀ (by omega)]
  omega

/-- -1 as a `size_t`. -/
theorem not_sizeT_lt : ¬sizeT (-1) < sizeofCntxts := by decide

namespace Slots

/-- A world goes on; it has the slot it had, if any, and the lock is taken,
kept or given back as its place says. -/
theorem keep (hS : Slots σ) (hpc : σ'.pc = Function.update σ.pc x c)
    (hslot : c.slot = (σ.pc x).slot) (hused : ∀ h, (σ'.cntxts h).used = (σ.cntxts h).used)
    (hlock : ∀ y, (Function.update σ.pc x c y).locks = true ↔ σ'.lock = some y)
    (hfree : ∀ h, c = .marking h → InCntxts h ∧ (σ.cntxts h).used = false)
    (hskip : ∀ h, c = .inside h → h < 0 → h = -1) : Slots σ' := by
  have hslots : ∀ y, (σ'.pc y).slot = (σ.pc y).slot := fun y => by
    rw [hpc]
    by_cases hy : y = x
    · rw [hy, Function.update_self, hslot]
    · rw [Function.update_of_ne hy]
  refine ⟨fun y => by rw [hpc]; exact hlock y, fun y h hy => ?_, fun y h hy => ?_,
    fun y z h hy hz => ?_, fun y h hy => ?_⟩
  · rw [hused]
    rw [hpc, Function.update_apply] at hy
    split at hy
    · exact hfree h hy
    · exact hS.free y h hy
  · rw [hused]
    exact hS.mine y h (hslots y ▸ hy)
  · exact hS.apart y z h (hslots y ▸ hy) (hslots z ▸ hz)
  · rw [hpc, Function.update_apply] at hy
    split at hy
    · exact hskip h hy
    · exact hS.skipped y h hy

/-- The lock stays where it is. -/
theorem lock_keep (hS : Slots σ) (hl : c.locks = (σ.pc x).locks) (y : World) :
    (Function.update σ.pc x c y).locks = true ↔ σ.lock = some y := by
  rw [← hS.lock y]
  by_cases hy : y = x
  · rw [hy, Function.update_self, hl]
  · rw [Function.update_of_ne hy]

/-- The world with the lock gives it back. -/
theorem lock_give (hS : Slots σ) (hx : (σ.pc x).locks = true) (hl : c.locks = false) (y : World) :
    (Function.update σ.pc x c y).locks = true ↔ (none : Option World) = some y := by
  refine iff_of_false (fun hy => ?_) fun e => by cases e
  by_cases hyx : y = x
  · rw [hyx, Function.update_self, hl] at hy
    cases hy
  · rw [Function.update_of_ne hyx] at hy
    have hlx := (hS.lock x).1 hx
    rw [(hS.lock y).1 hy] at hlx
    exact hyx (Option.some.inj hlx)

/-- A free lock is taken. -/
theorem lock_take (hS : Slots σ) (hfree : σ.lock = none) (hl : c.locks = true) (y : World) :
    (Function.update σ.pc x c y).locks = true ↔ some x = some y := by
  by_cases hyx : y = x
  · rw [hyx, Function.update_self]
    exact iff_of_true hl rfl
  · rw [Function.update_of_ne hyx, hS.lock y, hfree]
    exact iff_of_false (fun e => by cases e) fun e => hyx (Option.some.inj e).symm

/-- The slot found is marked, and has an owner from then on. -/
theorem mark (hS : Slots σ) (hx : σ.pc x = .marking h) :
    ∃ σ', σ.mark x h = some σ' ∧ Slots σ' := by
  obtain ⟨hin, hunused⟩ := hS.free x h hx
  refine ⟨_, if_pos ⟨hin.1, hin.sizeT_lt, hin⟩, ?_⟩
  have hlocks : (σ.pc x).locks = true := by rw [hx]; rfl
  have hnone : ∀ y, (σ.pc y).slot ≠ some h := fun y hy => by
    rw [(hS.mine y h hy).2] at hunused
    cases hunused
  refine ⟨fun y => hS.lock_give hlocks rfl y, fun y g hy => ?_, fun y g hy => ?_,
    fun y z g hy hz => ?_, fun y g hy => ?_⟩
  · -- who marks has the lock, and that was world `x`
    simp only [Profile.goto, Function.update_apply] at hy
    split at hy
    · cases hy
    · rename_i hyx
      have hly := (hS.lock y).1 (by rw [hy]; rfl)
      rw [(hS.lock x).1 hlocks] at hly
      exact absurd (Option.some.inj hly).symm hyx
  · simp only [Profile.goto, Function.update_apply] at hy ⊢
    split at hy
    · obtain rfl := Option.some.inj hy
      exact ⟨hin, by rw [if_pos rfl]⟩
    · obtain ⟨hg, hu⟩ := hS.mine y g hy
      have hne : g ≠ h := fun e => hnone y (e ▸ hy)
      rw [if_neg hne]
      exact ⟨hg, hu⟩
  · simp only [Profile.goto, Function.update_apply] at hy hz
    split at hy <;> split at hz
    · rename_i hyx hzx
      exact hyx.trans hzx.symm
    · obtain rfl := Option.some.inj hy
      exact absurd hz (hnone z)
    · obtain rfl := Option.some.inj hz
      exact absurd hy (hnone y)
    · exact hS.apart y z g hy hz
  · simp only [Profile.goto, Function.update_apply] at hy
    split at hy
    · cases hy
    · exact hS.skipped y g hy

/-- The slot is unmarked by the one world that has it. -/
theorem unmark (hS : Slots σ) (hx : σ.pc x = .unmarking h) :
    ∃ σ', σ.unmark x h = some σ' ∧ Slots σ' := by
  have hslot : (σ.pc x).slot = some h := by rw [hx]; rfl
  obtain ⟨hin, -⟩ := hS.mine x h hslot
  refine ⟨_, if_pos hin, ?_⟩
  have hlocks : (σ.pc x).locks = false := by rw [hx]; rfl
  refine ⟨fun y => hS.lock_keep (c := .out) hlocks.symm y, fun y g hy => ?_, fun y g hy => ?_,
    fun y z g hy hz => ?_, fun y g hy => ?_⟩
  · simp only [Profile.goto, Function.update_apply] at hy ⊢
    split at hy
    · cases hy
    · obtain ⟨hg, hu⟩ := hS.free y g hy
      split
      · exact ⟨hg, rfl⟩
      · exact ⟨hg, hu⟩
  · simp only [Profile.goto, Function.update_apply] at hy ⊢
    split at hy
    · cases hy
    · rename_i hyx
      obtain ⟨hg, hu⟩ := hS.mine y g hy
      have hne : g ≠ h := fun e => hyx (hS.apart y x h (e ▸ hy) hslot)
      rw [if_neg hne]
      exact ⟨hg, hu⟩
  · simp only [Profile.goto, Function.update_apply] at hy hz
    split at hy
    · cases hy
    · split at hz
      · cases hz
      · exact hS.apart y z g hy hz
  · simp only [Profile.goto, Function.update_apply] at hy
    split at hy
    · cases hy
    · exact hS.skipped y g hy

/-- **One step**, of a world that was not skipped: no assertion fails, and the
slots stay whose they are. -/
theorem step (hS : Slots σ) (he : σ.Enabled x) (hx : σ.pc x ≠ .inside (-1)) (t : BitVec 64) :
    ∃ σ', σ.step x t = some σ' ∧ Slots σ' := by
  unfold Profile.step
  cases hpc : σ.pc x with
  | out =>
      have hlock := hS.lock_take (x := x) (c := .scanning 0) (he hpc) rfl
      exact ⟨_, rfl, hS.keep rfl (by rw [hpc]; rfl) (fun _ => rfl) hlock (fun h e => by cases e)
        fun h e => by cases e⟩
  | scanning i =>
      have hlocks : (σ.pc x).locks = true := by rw [hpc]; rfl
      refine ⟨_, rfl, ?_⟩
      unfold Profile.findFree
      split
      · rename_i hi
        split
        · rename_i hunused
          refine hS.keep (c := .marking i) rfl (by rw [hpc]; rfl) (fun _ => rfl)
            (hS.lock_keep hlocks.symm) (fun h e => ?_) fun h e => by cases e
          cases e
          exact ⟨⟨Int.natCast_nonneg i, Int.ofNat_lt.2 hi⟩, hunused⟩
        · exact hS.keep (c := .scanning (i + 1)) rfl (by rw [hpc]; rfl) (fun _ => rfl)
            (hS.lock_keep hlocks.symm) (fun h e => by cases e) fun h e => by cases e
      · refine hS.keep (c := .inside (-1)) rfl (by rw [hpc]; rfl) (fun _ => rfl)
          (hS.lock_give hlocks rfl) (fun h e => by cases e) fun h e _ => ?_
        exact (StatPc.inside.inj e).symm
  | marking h => exact hS.mark hpc
  | timing h =>
      have hslot : (σ.pc x).slot = some h := by rw [hpc]; rfl
      have hin := (hS.mine x h hslot).1
      have hneg : ¬h < 0 := Int.not_lt.2 hin.1
      refine ⟨_, if_pos hin, hS.keep (c := .inside h) rfl ?_ (fun g => ?_)
        (hS.lock_keep (by rw [hpc]; rfl)) (fun g e => by cases e) fun g e hg => ?_⟩
      · rw [hslot, StatPc.slot, if_neg hneg]
      · simp only [Profile.goto, Function.update_apply]
        split
        · rename_i e
          rw [e]
        · rfl
      · cases e
        exact absurd hg hneg
  | inside h =>
      have hneg : ¬h < 0 := fun hlt => hx (by rw [hpc, hS.skipped x h hpc hlt])
      have hslot : (σ.pc x).slot = some h := by rw [hpc, StatPc.slot, if_neg hneg]
      have hmine := hS.mine x h hslot
      refine ⟨(σ.account t h).goto x (.clearing h), ?_, hS.keep (c := .clearing h) ?_ hslot.symm ?_ ?_
        (fun g e => by cases e) fun g e => by cases e⟩
      · exact (if_pos hmine.1.sizeT_lt).trans ((if_neg hneg).trans (if_pos hmine))
      · unfold Profile.account
        split <;> rfl
      · unfold Profile.account
        split <;> exact fun _ => rfl
      · have hl : (σ.account t h).lock = σ.lock := by
          unfold Profile.account
          split <;> rfl
        rw [Profile.goto, hl]
        exact hS.lock_keep (by rw [hpc]; rfl)
  | clearing h =>
      have hslot : (σ.pc x).slot = some h := by rw [hpc]; rfl
      refine ⟨_, if_pos (hS.mine x h hslot).1, hS.keep (c := .unmarking h) rfl hslot.symm (fun g => ?_)
        (hS.lock_keep (by rw [hpc]; rfl)) (fun g e => by cases e) fun g e => by cases e⟩
      simp only [Profile.goto, Function.update_apply]
      split
      · rename_i e
        rw [e]
      · rfl
  | unmarking h => exact hS.unmark hpc

theorem start : Slots .start :=
  ⟨fun _ => iff_of_false (fun e => by cases e) fun e => (by cases e), fun _ _ e => (by cases e),
    fun _ _ e => (by cases e), fun _ _ _ e => (by cases e), fun _ _ e => (by cases e)⟩

/-- **Of more worlds inside than there are slots, some were skipped.** -/
theorem extra (hS : Slots σ) {xs : List World} (hnd : xs.Nodup) (hlen : nCntxts < xs.length)
    (hin : ∀ x ∈ xs, ∃ h, σ.pc x = .inside h) : ∃ x ∈ xs, σ.pc x = .inside (-1) := by
  by_contra hno
  -- each of them has a slot, and no two the same
  have hslot : ∀ x ∈ xs, ∃ k : ℕ, (σ.pc x).slot = some (k : ℤ) ∧ k < nCntxts := fun x hx => by
    obtain ⟨h, hh⟩ := hin x hx
    have hneg : ¬h < 0 := fun hlt => hno ⟨x, hx, by rw [hh, hS.skipped x h hh hlt]⟩
    have hs : (σ.pc x).slot = some h := by rw [hh, StatPc.slot, if_neg hneg]
    have hlt := (hS.mine x h hs).1.2
    exact ⟨h.toNat, by rw [hs, Int.toNat_of_nonneg (Int.not_lt.1 hneg)], by omega⟩
  choose! f hf using hslot
  have hmap : (xs.map f).Nodup := by
    refine hnd.map_on fun x hx y hy e => hS.apart x y (f x) (hf x hx).1 ?_
    rw [e]
    exact (hf y hy).1
  have hsub : xs.map f ⊆ List.range nCntxts := fun k hk => by
    obtain ⟨x, hx, rfl⟩ := List.mem_map.1 hk
    exact List.mem_range.2 (hf x hx).2
  have hle := (hmap.subperm hsub).length_le
  rw [List.length_map, List.length_range] at hle
  omega

end Slots

/-- A world that was skipped fails the assertion of `_cb_stat_funp_exit`. -/
theorem step_skipped (hx : σ.pc x = .inside (-1)) (t : BitVec 64) : σ.step x t = none := by
  rw [Profile.step, hx]
  exact if_neg not_sizeT_lt

/-- **Every run**, with worlds skipped or not: the slots are kept apart. -/
theorem slots_reachable (hr : profile.Reachable σ) : Slots σ := by
  refine hr.invariant ?_ fun σ act σ' hS he hx => ?_
  · rintro _ rfl
    exact .start
  · have hx' : σ.step act.world act.cycles = some σ' := hx
    by_cases hpc : σ.pc act.world = .inside (-1)
    · rw [step_skipped hpc] at hx'
      cases hx'
    · obtain ⟨σ'', hx'', hS'⟩ := hS.step he hpc act.cycles
      rw [hx''] at hx'
      exact Option.some.inj hx' ▸ hS'

/-! ## Runs in which nobody is skipped -/

/-- Where a step leads from `pc`: the search goes on past used slots only, and
-1 is what it ends with. -/
def StatPc.Next (σ : Profile) (pc : StatPc) : StatPc → Prop
  | .scanning i => i = 0 ∨ ∃ k, i = k + 1 ∧ pc = .scanning k ∧ k < nCntxts ∧ (σ.cntxts k).used = true
  | .inside h => 0 ≤ h ∨ ∃ i, pc = .scanning i ∧ nCntxts ≤ i
  | _ => True

/-- Only the world that runs goes on. -/
theorem step_pc (hx : σ.step x t = some σ') :
    ∃ pc, σ'.pc = Function.update σ.pc x pc ∧ (σ.pc x).Next σ pc := by
  unfold Profile.step at hx
  cases hpc : σ.pc x with
  | out =>
      rw [hpc] at hx
      obtain rfl := Option.some.inj hx
      exact ⟨.scanning 0, rfl, .inl rfl⟩
  | scanning i =>
      rw [hpc] at hx
      obtain rfl := Option.some.inj hx
      unfold Profile.findFree
      split
      · rename_i hi
        split
        · exact ⟨.marking i, rfl, trivial⟩
        · rename_i hu
          exact ⟨.scanning (i + 1), rfl, .inr ⟨i, rfl, rfl, hi, Bool.not_eq_false _ ▸ hu⟩⟩
      · rename_i hi
        exact ⟨.inside (-1), rfl, .inr ⟨i, rfl, Nat.not_lt.1 hi⟩⟩
  | marking h =>
      rw [hpc] at hx
      obtain ⟨-, hx⟩ := Option.ite_none_right_eq_some.1 hx
      obtain rfl := Option.some.inj hx
      exact ⟨.timing h, rfl, trivial⟩
  | timing h =>
      rw [hpc] at hx
      obtain ⟨hin, hx⟩ := Option.ite_none_right_eq_some.1 hx
      obtain rfl := Option.some.inj hx
      exact ⟨.inside h, rfl, .inl hin.1⟩
  | inside h =>
      rw [hpc] at hx
      obtain ⟨-, hx⟩ := Option.ite_none_right_eq_some.1 hx
      split at hx
      · obtain rfl := Option.some.inj hx
        exact ⟨.out, rfl, trivial⟩
      · obtain ⟨-, hx⟩ := Option.ite_none_right_eq_some.1 hx
        obtain rfl := Option.some.inj hx
        refine ⟨.clearing h, ?_, trivial⟩
        unfold Profile.account
        split <;> rfl
  | clearing h =>
      rw [hpc] at hx
      obtain ⟨-, hx⟩ := Option.ite_none_right_eq_some.1 hx
      obtain rfl := Option.some.inj hx
      exact ⟨.unmarking h, rfl, trivial⟩
  | unmarking h =>
      rw [hpc] at hx
      obtain ⟨-, hx⟩ := Option.ite_none_right_eq_some.1 hx
      obtain rfl := Option.some.inj hx
      exact ⟨.out, rfl, trivial⟩

/-- Nobody is skipped, or about to be. -/
structure Served (σ : Profile) : Prop where
  inside : ∀ x, σ.pc x ≠ .inside (-1)
  scanning : ∀ x i, σ.pc x = .scanning i → i < nCntxts

/-- A step of a world that finds the last slot free, if it gets to it. -/
theorem Served.step (hV : Served σ) (hroom : ¬σ.NoSlot x) (hx : σ.step x t = some σ') : Served σ' := by
  obtain ⟨pc, hpc, hnext⟩ := step_pc hx
  constructor
  · intro y hy
    rw [hpc, Function.update_apply] at hy
    split at hy
    · rw [hy] at hnext
      rcases hnext with hneg | ⟨i, hi, hlt⟩
      · exact absurd hneg (by decide)
      · exact absurd (hV.scanning x i hi) (Nat.not_lt.2 hlt)
    · exact hV.inside y hy
  · intro y i hy
    rw [hpc, Function.update_apply] at hy
    split at hy
    · rw [hy] at hnext
      rcases hnext with rfl | ⟨k, rfl, hk, hlt, hused⟩
      · decide
      · -- slot `k` was used, so it is not the last one
        refine Nat.lt_of_le_of_ne hlt fun e => hroom ?_
        have hk63 : k = 63 := Nat.succ.inj e
        rw [hk63] at hk hused
        exact ⟨hk, hused⟩
    · exact hV.scanning y i hy

theorem served_reachable (hr : (profile.only fun σ act => ¬σ.NoSlot act.world).Reachable σ) :
    Served σ := by
  refine hr.invariant ?_ fun σ act σ' hV he hx => ?_
  · rintro _ rfl
    exact ⟨fun _ e => (by cases e), fun _ _ e => (by cases e)⟩
  · exact hV.step he.2 hx

/-- **Profiling takes nobody down in the runs in which every search ends at a
free slot.** -/
theorem profile_safe (hr : (profile.only fun σ act => ¬σ.NoSlot act.world).Reachable σ) :
    ProfileSafe σ where
  sound x t he := by
    obtain ⟨σ', hx, -⟩ := (slots_reachable hr.of_only).step he ((served_reachable hr).inside x) t
    exact ⟨σ', hx⟩
  apart := (slots_reachable hr.of_only).apart
  extra _ hnd hlen hin := (slots_reachable hr.of_only).extra hnd hlen hin

/-- World 0 enters, world 1 searches past its slot, world 0 exits after seven
cycles, and world 2 has its slot. -/
def threeWorlds : List StatAction :=
  [⟨0, 1⟩, ⟨0, 1⟩, ⟨0, 1⟩, ⟨1, 2⟩, ⟨0, 3⟩, ⟨1, 4⟩, ⟨1, 5⟩, ⟨1, 6⟩, ⟨1, 7⟩,
    ⟨0, 10⟩, ⟨0, 11⟩, ⟨0, 12⟩, ⟨2, 13⟩, ⟨2, 14⟩, ⟨2, 15⟩, ⟨2, 16⟩]

theorem profile_safe_three : ∃ σ : Profile, ProfileSafe σ ∧ σ.pc 0 = .out ∧ σ.pc 1 = .inside 1 ∧
    σ.pc 2 = .inside 0 ∧ σ.total = 7 ∧ σ.calls = 1 := by
  have hrun : ((profile.only fun σ act => ¬σ.NoSlot act.world).run .start threeWorlds).any (fun σ =>
      decide (σ.pc 0 = .out ∧ σ.pc 1 = .inside 1 ∧ σ.pc 2 = .inside 0 ∧ σ.total = 7 ∧
        σ.calls = 1)) = true := by decide +kernel
  obtain ⟨σ, hs, hp⟩ := System.Steps.of_run_any hrun
  exact ⟨σ, profile_safe (hs.reachable (.init rfl)), of_decide_eq_true hp⟩

/-! ## One world too many -/

/-- Worlds 0 to `k - 1` are inside, in the slots of their numbers. -/
structure Packed (k : ℕ) (σ : Profile) : Prop where
  lock : σ.lock = none
  used : ∀ i : ℕ, (σ.cntxts i).used = decide (i < k)
  out : ∀ x, k ≤ x → σ.pc x = .out

/-- World `k` has come to slot `i`. -/
structure Searching (k i : ℕ) (σ : Profile) : Prop where
  pc : σ.pc k = .scanning i
  used : ∀ i : ℕ, (σ.cntxts i).used = decide (i < k)
  out : ∀ x, k < x → σ.pc x = .out

/-- World `k` passes the slots in use. -/
theorem Packed.search (hP : Packed k σ) (hr : profile.Reachable σ) (hk : k ≤ nCntxts) (hi : i ≤ k) :
    ∃ σ', profile.Reachable σ' ∧ Searching k i σ' := by
  induction i with
  | zero =>
      have hx : σ.step k 0 = some ({ σ with lock := some k }.goto k (.scanning 0)) := by
        rw [Profile.step, hP.out k (Nat.le_refl k)]
      have he : σ.Enabled k := fun _ => hP.lock
      refine ⟨_, hr.step (a := ⟨k, 0⟩) he hx, Profile.goto_pc_self .., hP.used, fun x hkx => ?_⟩
      exact (Function.update_of_ne (Nat.ne_of_gt hkx) ..).trans (hP.out x (Nat.le_of_lt hkx))
  | succ i ih =>
      obtain ⟨σ', hr', hS⟩ := ih (Nat.le_of_succ_le hi)
      have hu : ¬(σ'.cntxts i).used = false := by
        rw [hS.used i, decide_eq_true (show i < k from hi)]
        decide
      have hx : σ'.step k 0 = some (σ'.goto k (.scanning (i + 1))) := by
        rw [Profile.step, hS.pc]
        simp only [Profile.findFree]
        rw [if_pos (by omega), if_neg hu]
      have he : σ'.Enabled k := fun e => by
        rw [hS.pc] at e
        cases e
      refine ⟨_, hr'.step (a := ⟨k, 0⟩) he hx, Profile.goto_pc_self .., hS.used, fun x hkx => ?_⟩
      exact (Function.update_of_ne (Nat.ne_of_gt hkx) ..).trans (hS.out x hkx)

/-- World `k` goes on, and the others stay where they are. -/
theorem reachable_goto (hr : profile.Reachable σ) (hpc : σ.pc k ≠ .out)
    (hx : σ.step k 0 = some σ') : profile.Reachable σ' :=
  hr.step (a := ⟨k, 0⟩) (show σ.Enabled k from fun e => absurd e hpc) hx

/-- One more world enters. -/
theorem Packed.enter (hP : Packed k σ) (hr : profile.Reachable σ) (hk : k < nCntxts) :
    ∃ σ', profile.Reachable σ' ∧ Packed (k + 1) σ' := by
  obtain ⟨σ₁, hr₁, hS⟩ := hP.search hr (Nat.le_of_lt hk) (Nat.le_refl k)
  have hin : InCntxts k := ⟨Int.natCast_nonneg k, Int.ofNat_lt.2 hk⟩
  have hu : (σ₁.cntxts k).used = false := by rw [hS.used k, decide_eq_false (Nat.lt_irrefl k)]
  have hx₁ : σ₁.step k 0 = some (σ₁.goto k (.marking k)) := by
    rw [Profile.step, hS.pc]
    simp only [Profile.findFree]
    rw [if_pos hk, if_pos hu]
  have hr₂ := reachable_goto hr₁ (by rw [hS.pc]; exact fun e => by cases e) hx₁
  have hpc₂ : (σ₁.goto k (.marking k)).pc k = .marking k := σ₁.goto_pc_self k _
  obtain ⟨σ₃, hx₃, hσ₃⟩ : ∃ σ₃, (σ₁.goto k (.marking k)).step k 0 = some σ₃ ∧
      σ₃ = ({ σ₁ with
        cntxts := Function.update σ₁.cntxts k { σ₁.cntxts k with used := true }
        lock := none }.goto k (.marking k)).goto k (.timing k) := by
    rw [Profile.step, hpc₂]
    exact ⟨_, if_pos ⟨hin.1, hin.sizeT_lt, hin⟩, rfl⟩
  have hr₃ := reachable_goto hr₂ (by rw [hpc₂]; exact fun e => by cases e) hx₃
  have hpc₃ : σ₃.pc k = .timing k := by rw [hσ₃, Profile.goto_pc_self]
  obtain ⟨σ₄, hx₄, hσ₄⟩ : ∃ σ₄, σ₃.step k 0 = some σ₄ ∧
      σ₄ = { σ₃ with cntxts := Function.update σ₃.cntxts k { σ₃.cntxts k with st := 0 } }.goto k
        (.inside k) := by
    rw [Profile.step, hpc₃]
    exact ⟨_, if_pos hin, rfl⟩
  refine ⟨σ₄, reachable_goto hr₃ (by rw [hpc₃]; exact fun e => by cases e) hx₄, ?_, fun i => ?_,
    fun x hkx => ?_⟩
  · rw [hσ₄, hσ₃]
    rfl
  · rw [hσ₄, hσ₃]
    simp only [Profile.goto, Function.update_apply, Int.natCast_inj]
    have hui := hS.used i
    split
    · rename_i hik
      subst hik
      simp
    · rename_i hik
      rw [hui]
      have : i < k ↔ i < k + 1 := by omega
      simp only [this]
  · have hne : x ≠ k := by omega
    rw [hσ₄, hσ₃]
    simp only [Profile.goto, Function.update_of_ne hne]
    exact hS.out x (by omega)

/-- The slots fill up. -/
theorem exists_packed (hk : k ≤ nCntxts) : ∃ σ, profile.Reachable σ ∧ Packed k σ := by
  induction k with
  | zero =>
      exact ⟨.start, .init rfl, rfl, fun i => (decide_eq_false (Nat.not_lt_zero i)).symm, fun _ _ => rfl⟩
  | succ k ih =>
      obtain ⟨σ, hr, hP⟩ := ih (Nat.le_of_succ_le hk)
      exact hP.enter hr hk

/-- **The sixty-fifth world inside** fails an assertion on its way out. -/
theorem profile_unsafe : ¬∀ σ, profile.Reachable σ → ProfileSafe σ := by
  intro h
  obtain ⟨σ, hr, hP⟩ := exists_packed (Nat.le_refl nCntxts)
  obtain ⟨σ₁, hr₁, hS⟩ := hP.search hr (Nat.le_refl _) (Nat.le_refl _)
  have hx : σ₁.step nCntxts 0 = some ({ σ₁ with lock := none }.goto nCntxts (.inside (-1))) := by
    rw [Profile.step, hS.pc]
    simp only [Profile.findFree]
    rw [if_neg (Nat.lt_irrefl _)]
  have hr₂ := reachable_goto hr₁ (by rw [hS.pc]; exact fun e => by cases e) hx
  have hpc : (Profile.goto { σ₁ with lock := none } nCntxts (.inside (-1))).pc nCntxts =
      .inside (-1) := Profile.goto_pc_self ..
  obtain ⟨σ', hx'⟩ := (h _ hr₂).sound nCntxts 0 fun e => by
    rw [hpc] at e
    cases e
  rw [step_skipped hpc] at hx'
  cases hx'

end Vmk

end VmwareProto
