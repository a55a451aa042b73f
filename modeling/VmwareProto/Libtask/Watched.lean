import VmwareProto.Libtask.Program
/-!
# What epoll knows

An entry of the epoll instance is for an open descriptor and leads to the
context that is registered under its number: `close` takes the entry away,
and a number is deregistered when nothing is open under it.
-/

namespace VmwareProto

namespace Libtask

variable {F F' : Files} {C C' : Contexts} {fd : Fd} {f : File} {c d : Ctx} {i : Interest}
  {s s' : Side} {t : Option TaskId} {k : Kind} {m more : Mask} {r : Registration}

/-! ## One field of a context -/

namespace Contexts

@[simp] theorem record_tcarray : (C.record c s t).tcarray = C.tcarray := rfl
@[simp] theorem record_nctx : (C.record c s t).nctx = C.nctx := rfl
@[simp] theorem record_live : (C.record c s t).live = C.live := rfl
@[simp] theorem record_reg : (C.record c s t).reg = C.reg := rfl
@[simp] theorem record_file : (C.record c s t).file = C.file := rfl

@[simp] theorem record_fd : ((C.record c s t).ctx d).fd = (C.ctx d).fd := by
  unfold record
  by_cases hd : d = c
  · subst hd
    simp
  · simp [hd]

@[simp] theorem record_tasktype : ((C.record c s t).ctx d).tasktype = (C.ctx d).tasktype := by
  unfold record
  by_cases hd : d = c
  · subst hd
    simp
  · simp [hd]

/-- What a context records afterwards. -/
theorem record_waiter : (fun d => ((C.record c s t).ctx d).waiter) =
    Function.update (fun d => (C.ctx d).waiter) c (Function.update (C.ctx c).waiter s t) := by
  funext d
  unfold record
  by_cases hd : d = c
  · subst hd
    simp
  · simp [hd]

theorem record_waiter_self : ((C.record c s t).ctx c).waiter s = t := by
  simp [record]

theorem record_waiter_of_ne (h : ¬(d = c ∧ s' = s)) :
    ((C.record c s t).ctx d).waiter s' = (C.ctx d).waiter s' := by
  unfold record
  by_cases hd : d = c
  · subst hd
    have hs : s' ≠ s := fun e => h ⟨rfl, e⟩
    simp [hs]
  · simp [hd]

theorem lookup_eq (h : C.lookup fd = some c) : C.tcarray fd = some c := by
  unfold lookup at h
  split at h
  · exact h
  · cases h

theorem waited_iff : C.waited c = true ↔ ∃ s t, (C.ctx c).waiter s = some t := by
  simp only [waited, Bool.or_eq_true, Option.isSome_iff_exists]
  constructor
  · rintro (⟨t, ht⟩ | ⟨t, ht⟩)
    · exact ⟨_, t, ht⟩
    · exact ⟨_, t, ht⟩
  · rintro ⟨s, t, ht⟩
    cases s with
    | reader => exact .inl ⟨t, ht⟩
    | writer => exact .inr ⟨t, ht⟩

end Contexts

/-! ## Descriptors and contexts -/

/-- **Every entry of the epoll instance is for a registered descriptor.** -/
structure Watched (F : Files) (C : Contexts) : Prop where
  lt : ∀ fd f, F.table fd = some f → f < F.nfiles
  inj : ∀ fd fd' f, F.table fd = some f → F.table fd' = some f → fd = fd'
  interest : ∀ f i, F.interest f = some i → i = ⟨i.ctx, (C.reg i.ctx).events, (C.reg i.ctx).edge⟩ ∧
    C.file i.ctx = some f ∧ ∃ fd, C.tcarray fd = some i.ctx ∧ F.table fd = some f
  array : ∀ fd c, C.tcarray fd = some c → c < C.nctx ∧ C.live c = true ∧ (C.ctx c).fd = fd ∧
    (C.ctx c).tasktype = (C.reg c).tasktype
  unused : ∀ c s, C.nctx ≤ c → (C.ctx c).waiter s = none

namespace Watched

theorem start (k : ℕ) : Watched (Taskio.start k).files (Taskio.start k).contexts := by
  have htable : ∀ {fd f}, (Taskio.start k).files.table fd = some f → fd < k ∧ fd = f := fun h => by
    simpa [Taskio.start] using h
  refine ⟨fun fd f h => ?_, fun fd fd' f h h' => ?_, nofun, nofun, fun _ _ _ => rfl⟩
  · obtain ⟨hlt, rfl⟩ := htable h
    exact hlt
  · rw [(htable h).2, (htable h').2]

theorem array_inj (h : Watched F C) {fd' : Fd} (hc : C.tcarray fd = some c)
    (hc' : C.tcarray fd' = some c) : fd = fd' :=
  (h.array fd c hc).2.2.1.symm.trans (h.array fd' c hc').2.2.1

/-- The entries lead to contexts one by one. -/
theorem interest_inj (h : Watched F C) {f' : File} {i' : Interest} (hi : F.interest f = some i)
    (hi' : F.interest f' = some i') (he : i.ctx = i'.ctx) : f = f' := by
  have hf := (h.interest f i hi).2.1
  rw [he, (h.interest f' i' hi').2.1] at hf
  exact (Option.some.inj hf).symm

/-- Only readiness and edges change. -/
theorem congr (h : Watched F C) (ht : F'.table = F.table) (hn : F'.nfiles = F.nfiles)
    (hi : ∀ f i, F'.interest f = some i → F.interest f = some i) : Watched F' C := by
  refine ⟨fun fd f hf => ?_, fun fd fd' f hf hf' => ?_, fun f i hf => ?_, h.array, h.unused⟩
  · rw [hn]
    rw [ht] at hf
    exact h.lt fd f hf
  · rw [ht] at hf hf'
    exact h.inj fd fd' f hf hf'
  · rw [ht]
    exact h.interest f i (hi f i hf)

theorem change (h : Watched F C) : Watched (F.change f m more) C := h.congr rfl rfl fun _ _ => id
theorem drain (h : Watched F C) {left : Bool} : Watched (F.drain f s left) C :=
  h.congr rfl rfl fun _ _ => id

theorem reported (h : Watched F C) (rs : List Report) : Watched (Taskio.reported F rs) C := by
  induction rs generalizing F with
  | nil => exact h
  | cons r rs ih =>
      cases r with
      | file f m => exact ih (h.congr rfl rfl fun _ _ => id)
      | eventfd => exact ih h

theorem forget_interest {g : File} (hi : (F.forget f).interest g = some i) :
    g ≠ f ∧ F.interest g = some i := by
  have hne : g ≠ f := fun e => by
    subst e
    simp [Files.forget] at hi
  refine ⟨hne, ?_⟩
  simpa [Files.forget, hne] using hi

theorem forget (h : Watched F C) : Watched (F.forget f) C :=
  h.congr rfl rfl fun _ _ hi => (forget_interest hi).2

theorem epollDel (h : Watched F C) : Watched (F.epollDel fd) C := by
  unfold Files.epollDel
  split
  · exact h
  · exact h.forget

/-- A new file, under a number that was free. -/
theorem openFile (h : Watched F C) (hfree : F.table fd = none) :
    Watched (F.openFile k fd m) C := by
  have hold : ∀ fd' f, (F.openFile k fd m).table fd' = some f →
      fd' = fd ∧ f = F.nfiles ∨ fd' ≠ fd ∧ F.table fd' = some f := fun fd' f hf => by
    by_cases hfd : fd' = fd
    · subst hfd
      simp only [Files.openFile, Function.update_self, Option.some.injEq] at hf
      exact .inl ⟨rfl, hf.symm⟩
    · simp only [Files.openFile, Function.update_of_ne hfd] at hf
      exact .inr ⟨hfd, hf⟩
  refine ⟨fun fd' f hf => ?_, fun fd₁ fd₂ f h₁ h₂ => ?_, fun f i hi => ?_, h.array, h.unused⟩
  · rcases hold fd' f hf with ⟨-, rfl⟩ | ⟨-, hf⟩
    · exact Nat.lt_succ_self _
    · exact Nat.lt_succ_of_lt (h.lt fd' f hf)
  · rcases hold fd₁ f h₁ with ⟨e₁, ef⟩ | ⟨-, h₁⟩ <;> rcases hold fd₂ f h₂ with ⟨e₂, ef'⟩ | ⟨-, h₂⟩
    · rw [e₁, e₂]
    · exact absurd (h.lt fd₂ f h₂) (ef ▸ Nat.lt_irrefl _)
    · exact absurd (h.lt fd₁ f h₁) (ef' ▸ Nat.lt_irrefl _)
    · exact h.inj fd₁ fd₂ f h₁ h₂
  · have hne : f ≠ F.nfiles := fun e => by
      subst e
      simp [Files.openFile] at hi
    simp only [Files.openFile, Function.update_of_ne hne] at hi
    obtain ⟨hreg, hfile, fd', harr, htab⟩ := h.interest f i hi
    refine ⟨hreg, hfile, fd', harr, ?_⟩
    have hfd : fd' ≠ fd := fun e => by
      rw [e, hfree] at htab
      cases htab
    simp only [Files.openFile, Function.update_of_ne hfd, htab]

/-- A number is free again. -/
theorem close (h : Watched F C) : Watched (F.close fd) C := by
  unfold Files.close
  split
  · exact h
  · rename_i f hf
    have hold : ∀ fd' g, Function.update F.table fd none fd' = some g →
        fd' ≠ fd ∧ F.table fd' = some g := fun fd' g hg => by
      have hne : fd' ≠ fd := fun e => by
        subst e
        simp at hg
      exact ⟨hne, by simpa [hne] using hg⟩
    refine ⟨fun fd' g hg => h.lt fd' g (hold fd' g hg).2,
      fun fd₁ fd₂ g h₁ h₂ => h.inj fd₁ fd₂ g (hold fd₁ g h₁).2 (hold fd₂ g h₂).2,
      fun g i hi => ?_, h.array, h.unused⟩
    obtain ⟨hne, hi⟩ := forget_interest (F := F) hi
    obtain ⟨hreg, hfile, fd', harr, htab⟩ := h.interest g i hi
    have hfd : fd' ≠ fd := fun e => by
      rw [e, hf] at htab
      exact hne (Option.some.inj htab).symm
    exact ⟨hreg, hfile, fd', harr, by simp [hfd, htab]⟩

/-- A task is recorded, or no more. -/
theorem record (h : Watched F C) (hc : c < C.nctx) : Watched F (C.record c s t) := by
  refine ⟨h.lt, h.inj, h.interest, fun fd d hd => ?_, fun d s' hd => ?_⟩
  · rw [Contexts.record_fd, Contexts.record_tasktype]
    exact h.array fd d hd
  · have hd : C.nctx ≤ d := hd
    have hdc : d ≠ c := Nat.ne_of_gt (Nat.lt_of_lt_of_le hc hd)
    rw [Contexts.record_waiter_of_ne fun e => hdc e.1]
    exact h.unused d s' hd

/-- A context goes while nothing is open under its number. -/
theorem delete (h : Watched F C) (hc : C.tcarray fd = some c) (hfree : F.table fd = none) :
    Watched F (C.delete fd c) := by
  have hold : ∀ fd' d, (C.delete fd c).tcarray fd' = some d → fd' ≠ fd ∧ C.tcarray fd' = some d :=
    fun fd' d hd => by
      have hne : fd' ≠ fd := fun e => by
        subst e
        simp [Contexts.delete] at hd
      exact ⟨hne, by simpa [Contexts.delete, hne] using hd⟩
  refine ⟨h.lt, h.inj, fun f i hi => ?_, fun fd' d hd => ?_, h.unused⟩
  · obtain ⟨hreg, hfile, fd', harr, htab⟩ := h.interest f i hi
    have hfd : fd' ≠ fd := fun e => by
      rw [e, hfree] at htab
      cases htab
    exact ⟨hreg, hfile, fd', by simpa [Contexts.delete, hfd] using harr, htab⟩
  · obtain ⟨hne, hd⟩ := hold fd' d hd
    obtain ⟨hlt, hlive, hfd, htype⟩ := h.array fd' d hd
    have hdc : d ≠ c := fun e => hne (h.array_inj (e ▸ hd) hc)
    exact ⟨hlt, by simpa [Contexts.delete, hdc] using hlive, hfd, htype⟩

/-- A context comes under a number that has none. -/
theorem insert (h : Watched F C) (hnone : C.tcarray fd = none) (r : Registration) (g : Option File) :
    Watched F (C.insert r fd g) := by
  refine ⟨h.lt, h.inj, fun f i hi => ?_, fun fd' d hd => ?_, fun d s hd => ?_⟩
  · obtain ⟨hreg, hfile, fd', harr, htab⟩ := h.interest f i hi
    have hlt := (h.array fd' _ harr).1
    have hne : i.ctx ≠ C.nctx := Nat.ne_of_lt hlt
    have hfd : fd' ≠ fd := fun e => by
      rw [e, hnone] at harr
      cases harr
    simp only [Contexts.insert, Function.update_of_ne hne]
    exact ⟨hreg, hfile, fd', by simpa [hfd] using harr, htab⟩
  · by_cases hfd : fd' = fd
    · subst hfd
      simp only [Contexts.insert, Function.update_self, Option.some.injEq] at hd
      subst hd
      simp [Contexts.insert]
    · simp only [Contexts.insert, Function.update_of_ne hfd] at hd
      obtain ⟨hlt, hrest⟩ := h.array fd' d hd
      have hne : d ≠ C.nctx := Nat.ne_of_lt hlt
      simp only [Contexts.insert, Function.update_of_ne hne]
      exact ⟨Nat.lt_succ_of_lt hlt, hrest⟩
  · have hd : C.nctx + 1 ≤ d := hd
    have hne : d ≠ C.nctx := Nat.ne_of_gt hd
    simp only [Contexts.insert, Function.update_of_ne hne]
    exact h.unused d s (Nat.le_of_lt hd)

/-- `EPOLL_CTL_ADD` of the file that a registered number stands for. -/
theorem epollAdd (h : Watched F C) (hc : C.tcarray fd = some c) (hfile : C.file c = F.table fd)
    (hadd : F.epollAdd fd ⟨c, (C.reg c).events, (C.reg c).edge⟩ = some F') : Watched F' C := by
  unfold Files.epollAdd at hadd
  split at hadd
  · cases hadd
  · rename_i f hf
    split at hadd
    · cases hadd
    · cases hadd
      refine ⟨h.lt, h.inj, fun g i hi => ?_, h.array, h.unused⟩
      by_cases hg : g = f
      · subst hg
        simp only [Function.update_self, Option.some.injEq] at hi
        subst hi
        exact ⟨rfl, hfile.trans hf, fd, hc, hf⟩
      · simp only [Function.update_of_ne hg] at hi
        exact h.interest g i hi

end Watched

end Libtask

end VmwareProto
