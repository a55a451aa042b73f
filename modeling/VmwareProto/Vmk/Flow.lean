import VmwareProto.Vmk.Reserve
import VmwareProto.Vmk.Datapath
import VmwareProto.Library.Ledger
/-!
# Where a channel's buffers are

A message buffer in use is in the hash table, on the work list or with one
world (`Placed`). A payload buffer in use hangs on a message buffer in use,
and `rpc_msg_put` puts it first, so there are no more payloads than messages
(`Loaded`). What the peer answers was asked, so a response finds its request
(`Matched`).
-/

namespace VmwareProto

namespace Vmk

variable {σ σ' : Datapath} {x y : World} {h h₀ : Held} {m a : Addr} {pc pc' : Pc}

/-! ## What a world has -/

/-- The messages in a world's hands. -/
def Pc.mine : Pc → List Held
  | filling m => [⟨m, false⟩]
  | getPload m => [⟨m, false⟩]
  | ready m => [⟨m, false⟩]
  | recvHdr m => [⟨m, true⟩]
  | recvPload m => [⟨m, true⟩]
  | recvWait m => [⟨m, true⟩]
  | recvDone m => [⟨m, true⟩]
  | handling m => [⟨m, true⟩]
  | putting .wake (_ :: ms) => ms
  | putting _ ms => ms
  | _ => []

/-- The message that has no payload yet. -/
def Pc.bare : Pc → Option Addr
  | filling m => some m
  | recvHdr m => some m
  | recvPload m => some m
  | _ => none

/-- The message whose payload is back and which is not. -/
def Pc.loose : Pc → Option Held
  | putting .message (h :: _) => some h
  | _ => none

/-- The response that has not met its request. -/
def Pc.unmatched : Pc → Option Addr
  | recvPload m => some m
  | recvWait m => some m
  | recvDone m => some m
  | handling m => some m
  | _ => none

/-- A world with a received message: a put is to come, or its wakeup. -/
def Pc.busy : Pc → Bool
  | handling _ => true
  | putting _ ms => ms.any Held.reserved
  | _ => false

/-- Where only the receive thread is. -/
def Pc.ofRecv : Pc → Bool
  | recvTop => true
  | recvGet => true
  | recvHdr _ => true
  | recvPload _ => true
  | recvWait _ => true
  | recvDone _ => true
  | _ => false

theorem Pc.mine_of_bare (hb : pc.bare = some m) : ∃ r, pc.mine = [⟨m, r⟩] := by
  cases pc <;> cases hb <;> exact ⟨_, rfl⟩

theorem Pc.mine_of_unmatched (hu : pc.unmatched = some m) : ⟨m, true⟩ ∈ pc.mine := by
  cases pc <;> cases hu <;> exact List.mem_singleton_self _

theorem Pc.mine_of_loose (hl : pc.loose = some h) : h ∈ pc.mine := by
  unfold Pc.loose at hl
  split at hl
  · cases hl
    exact List.mem_cons_self
  · cases hl

/-- A received message is with the receive thread or with one that puts it. -/
theorem Pc.busy_of_mine (hm : h ∈ pc.mine) (hr : h.reserved = true) :
    pc.ofRecv = true ∨ pc.busy = true := by
  cases pc with
  | putting s ms =>
      refine .inr (List.any_eq_true.2 ⟨h, ?_, hr⟩)
      cases s with
      | payload => exact hm
      | message => exact hm
      | wake =>
          cases ms with
          | nil => exact hm
          | cons h' ms => exact List.mem_cons_of_mem _ hm
  | filling m =>
      obtain rfl := List.mem_singleton.1 hm
      cases hr
  | getPload m =>
      obtain rfl := List.mem_singleton.1 hm
      cases hr
  | ready m =>
      obtain rfl := List.mem_singleton.1 hm
      cases hr
  | handling m => exact .inr rfl
  | recvHdr m => exact .inl rfl
  | recvPload m => exact .inl rfl
  | recvWait m => exact .inl rfl
  | recvDone m => exact .inl rfl
  | _ => cases hm

/-! ## Messages -/

/-- Where a message buffer may be. -/
inductive Site
  | hash
  | work
  | world (x : World)
  deriving DecidableEq

/-- The message is there. -/
def Datapath.At (σ : Datapath) (h : Held) : Site → Prop
  | .hash => h.reserved = false ∧ h.buf ∈ σ.hash
  | .work => h.reserved = true ∧ h.buf ∈ σ.work
  | .world x => h ∈ (σ.pc x).mine

/-- **A message buffer in use is in one place.** -/
structure Placed (σ : Datapath) : Prop where
  held : ∀ h, h ∈ σ.msgs.held ↔ ∃ s, σ.At h s
  alone : ∀ h s t, σ.At h s → σ.At h t → s = t
  hash : σ.hash.Nodup
  work : σ.work.Nodup

namespace Placed

variable {t : Site}

/-- A message comes into use. -/
theorem enter (hp : Placed σ) (hnew : h₀ ∉ σ.msgs.held)
    (hheld : ∀ h, h ∈ σ'.msgs.held ↔ h = h₀ ∨ h ∈ σ.msgs.held)
    (hat : ∀ h s, σ'.At h s ↔ h = h₀ ∧ s = t ∨ σ.At h s) (hh : σ'.hash.Nodup) (hw : σ'.work.Nodup) :
    Placed σ' := by
  have hno : ∀ s, ¬σ.At h₀ s := fun s hs => hnew ((hp.held h₀).2 ⟨s, hs⟩)
  refine ⟨fun h => ?_, fun h s u hs hu => ?_, hh, hw⟩
  · rw [hheld, hp.held]
    constructor
    · rintro (rfl | ⟨s, hs⟩)
      · exact ⟨t, (hat _ _).2 (.inl ⟨rfl, rfl⟩)⟩
      · exact ⟨s, (hat _ _).2 (.inr hs)⟩
    · rintro ⟨s, hs⟩
      exact ((hat _ _).1 hs).imp And.left fun hs => ⟨s, hs⟩
  · rcases (hat h s).1 hs with ⟨rfl, rfl⟩ | hs <;> rcases (hat h u).1 hu with ⟨he, rfl⟩ | hu
    · rfl
    · exact absurd hu (hno u)
    · exact absurd (he ▸ hs) (hno s)
    · exact hp.alone h s u hs hu

/-- A message goes elsewhere. -/
theorem move (hp : Placed σ) {s₀ : Site} (h₀at : σ.At h₀ s₀) (hheld : σ'.msgs.held = σ.msgs.held)
    (hat : ∀ h s, σ'.At h s ↔ h = h₀ ∧ s = t ∨ h ≠ h₀ ∧ σ.At h s) (hh : σ'.hash.Nodup)
    (hw : σ'.work.Nodup) : Placed σ' := by
  refine ⟨fun h => ?_, fun h s u hs hu => ?_, hh, hw⟩
  · rw [hheld, hp.held]
    by_cases he : h = h₀
    · subst he
      exact iff_of_true ⟨s₀, h₀at⟩ ⟨t, (hat _ _).2 (.inl ⟨rfl, rfl⟩)⟩
    · refine exists_congr fun s => ?_
      rw [hat]
      simp [he]
  · rcases (hat h s).1 hs with ⟨he, rfl⟩ | ⟨he, hs⟩ <;>
      rcases (hat h u).1 hu with ⟨he', rfl⟩ | ⟨he', hu⟩
    · rfl
    · exact absurd he he'
    · exact absurd he' he
    · exact hp.alone h s u hs hu

/-- A message goes out of use. -/
theorem drop (hp : Placed σ) (hheld : ∀ h, h ∈ σ'.msgs.held ↔ h ≠ h₀ ∧ h ∈ σ.msgs.held)
    (hat : ∀ h s, σ'.At h s ↔ h ≠ h₀ ∧ σ.At h s) (hh : σ'.hash.Nodup) (hw : σ'.work.Nodup) :
    Placed σ' := by
  refine ⟨fun h => ?_, fun h s u hs hu => ?_, hh, hw⟩
  · rw [hheld, hp.held]
    constructor
    · rintro ⟨hne, s, hs⟩
      exact ⟨s, (hat _ _).2 ⟨hne, hs⟩⟩
    · rintro ⟨s, hs⟩
      exact ⟨((hat _ _).1 hs).1, s, ((hat _ _).1 hs).2⟩
  · exact hp.alone h s u ((hat _ _).1 hs).2 ((hat _ _).1 hu).2

/-- Everything is where it was. -/
theorem congr (hp : Placed σ) (hheld : σ'.msgs.held = σ.msgs.held) (hh : σ'.hash = σ.hash)
    (hw : σ'.work = σ.work) (hpc : ∀ x, (σ'.pc x).mine = (σ.pc x).mine) : Placed σ' := by
  have hat : ∀ h s, σ'.At h s ↔ σ.At h s := fun h s => by
    cases s <;> simp only [Datapath.At, hh, hw, hpc]
  refine ⟨fun h => ?_, fun h s u hs hu => hp.alone h s u ((hat _ _).1 hs) ((hat _ _).1 hu),
    by rw [hh]; exact hp.hash, by rw [hw]; exact hp.work⟩
  rw [hheld, hp.held]
  exact exists_congr fun s => (hat h s).symm

end Placed

/-- What a world's step changes about the messages in its own hands. -/
theorem at_world (hpc : σ'.pc = Function.update σ.pc x pc') :
    σ'.At h (.world y) ↔ y = x ∧ h ∈ pc'.mine ∨ y ≠ x ∧ σ.At h (.world y) := by
  simp only [Datapath.At, hpc]
  by_cases hy : y = x
  · subst hy
    simp
  · simp [hy]

/-- The hands of all worlds, when one of them has what it had. -/
theorem mine_update (hx : pc'.mine = (σ.pc x).mine) (y : World) :
    (Function.update σ.pc x pc' y).mine = (σ.pc y).mine := by
  by_cases hy : y = x
  · subst hy
    rw [Function.update_self, hx]
  · rw [Function.update_of_ne hy]

/-! ## Payloads -/

/-- `rpc_msg_put` has given the payload of the message back, if it had one. -/
def Datapath.Loose (σ : Datapath) (h : Held) : Prop := ∃ x, (σ.pc x).loose = some h

/-- **A payload in use hangs on one message in use.** -/
structure Loaded (σ : Datapath) : Prop where
  covered : ∀ b ∈ σ.ploads.held, ∃ h ∈ σ.msgs.held, ¬σ.Loose h ∧ σ.payload h.buf = some b.buf
  mine : ∀ h ∈ σ.msgs.held, ¬σ.Loose h → ∀ a, σ.payload h.buf = some a → ⟨a, true⟩ ∈ σ.ploads.held
  alone : ∀ h ∈ σ.msgs.held, ∀ h' ∈ σ.msgs.held, ¬σ.Loose h → ¬σ.Loose h' → ∀ a,
    σ.payload h.buf = some a → σ.payload h'.buf = some a → h = h'
  bare : ∀ x m, (σ.pc x).bare = some m → σ.payload m = none

/-- A world whose step has nothing to do with payloads. -/
theorem loose_update (hx : pc'.loose = (σ.pc x).loose) (hpc : σ'.pc = Function.update σ.pc x pc')
    (h : Held) : σ'.Loose h ↔ σ.Loose h := by
  refine exists_congr fun y => ?_
  rw [hpc]
  by_cases hy : y = x
  · subst hy
    rw [Function.update_self, hx]
  · rw [Function.update_of_ne hy]

theorem bare_update (hx : pc'.bare = none) (hpc : σ'.pc = Function.update σ.pc x pc')
    (hy : (σ'.pc y).bare = some m) : y ≠ x ∧ (σ.pc y).bare = some m := by
  have hne : y ≠ x := fun e => by
    rw [hpc, e, Function.update_self, hx] at hy
    cases hy
  rw [hpc, Function.update_of_ne hne] at hy
  exact ⟨hne, hy⟩

namespace Loaded

/-- There are no more payloads than messages. -/
theorem length_le (hl : Loaded σ) (hnd : (σ.ploads.held.map Held.buf).Nodup) :
    σ.ploads.held.length ≤ σ.msgs.held.length := by
  have hsub : σ.ploads.held.map Held.buf ⊆ σ.msgs.held.filterMap fun h => σ.payload h.buf :=
    fun a ha => by
      obtain ⟨b, hb, rfl⟩ := List.mem_map.1 ha
      obtain ⟨h, hh, -, hp⟩ := hl.covered b hb
      exact List.mem_filterMap.2 ⟨h, hh, hp⟩
  calc σ.ploads.held.length = (σ.ploads.held.map Held.buf).length := (List.length_map _).symm
    _ ≤ (σ.msgs.held.filterMap fun h => σ.payload h.buf).length := (hnd.subperm hsub).length_le
    _ ≤ σ.msgs.held.length := List.length_filterMap_le _ _

/-- Payloads and messages in use are as they were. -/
theorem congr (hl : Loaded σ) (hm : σ'.msgs.held = σ.msgs.held) (hp : σ'.ploads.held = σ.ploads.held)
    (hpl : ∀ h ∈ σ.msgs.held, ¬σ.Loose h → σ'.payload h.buf = σ.payload h.buf)
    (hlo : ∀ h, σ'.Loose h ↔ σ.Loose h)
    (hb : ∀ x m, (σ'.pc x).bare = some m → σ'.payload m = none) : Loaded σ' := by
  refine ⟨fun b hb' => ?_, fun h hh hn a ha => ?_, fun h hh h' hh' hn hn' a ha ha' => ?_, hb⟩
  · rw [hp] at hb'
    obtain ⟨h, hh, hn, ha⟩ := hl.covered b hb'
    exact ⟨h, by rw [hm]; exact hh, fun e => hn ((hlo h).1 e), by rw [hpl h hh hn]; exact ha⟩
  · rw [hm] at hh
    have hn := fun e => hn ((hlo h).2 e)
    rw [hpl h hh hn] at ha
    rw [hp]
    exact hl.mine h hh hn a ha
  · rw [hm] at hh hh'
    have hn := fun e => hn ((hlo h).2 e)
    have hn' := fun e => hn' ((hlo h').2 e)
    rw [hpl h hh hn] at ha
    rw [hpl h' hh' hn'] at ha'
    exact hl.alone h hh h' hh' hn hn' a ha ha'

/-- A message comes into use, without payload. -/
theorem enter (hl : Loaded σ) {r : Bool} (hnew : a ∉ σ.msgs.held.map Held.buf)
    (hm : σ'.msgs.held = ⟨a, r⟩ :: σ.msgs.held) (hp : σ'.ploads.held = σ.ploads.held)
    (hpl : σ'.payload = Function.update σ.payload a none) (hlo : ∀ h, σ'.Loose h ↔ σ.Loose h)
    (hb : ∀ x m, (σ'.pc x).bare = some m → m = a ∨ (σ.pc x).bare = some m) : Loaded σ' := by
  have hne : ∀ h ∈ σ.msgs.held, h.buf ≠ a := fun h hh e => hnew (e ▸ List.mem_map_of_mem hh)
  have hold : ∀ h, h ∈ σ'.msgs.held → ∀ c, σ'.payload h.buf = some c →
      h ∈ σ.msgs.held ∧ σ.payload h.buf = some c := fun h hh c hc => by
    rw [hm, List.mem_cons] at hh
    rw [hpl] at hc
    rcases hh with rfl | hh
    · rw [Function.update_self] at hc
      cases hc
    · rw [Function.update_of_ne (hne h hh)] at hc
      exact ⟨hh, hc⟩
  refine ⟨fun b hb' => ?_, fun h hh hn c hc => ?_, fun h hh h' hh' hn hn' c hc hc' => ?_,
    fun x m hx => ?_⟩
  · rw [hp] at hb'
    obtain ⟨h, hh, hn, hc⟩ := hl.covered b hb'
    refine ⟨h, by rw [hm]; exact List.mem_cons_of_mem _ hh, fun e => hn ((hlo h).1 e), ?_⟩
    rw [hpl, Function.update_of_ne (hne h hh), hc]
  · obtain ⟨hh, hc⟩ := hold h hh c hc
    rw [hp]
    exact hl.mine h hh (fun e => hn ((hlo h).2 e)) c hc
  · obtain ⟨hh, hc⟩ := hold h hh c hc
    obtain ⟨hh', hc'⟩ := hold h' hh' c hc'
    exact hl.alone h hh h' hh' (fun e => hn ((hlo h).2 e)) (fun e => hn' ((hlo h').2 e)) c hc hc'
  · rw [hpl, Function.update_apply]
    split
    · rfl
    · rename_i hma
      exact hl.bare x m ((hb x m hx).resolve_left hma)

/-- A message gets its payload. -/
theorem load (hl : Loaded σ) (hnd : (σ.msgs.held.map Held.buf).Nodup) (hh : h₀ ∈ σ.msgs.held)
    (hn₀ : ¬σ.Loose h₀) (hnone : σ.payload h₀.buf = none) (hnew : a ∉ σ.ploads.held.map Held.buf)
    (hm : σ'.msgs.held = σ.msgs.held) (hp : σ'.ploads.held = ⟨a, true⟩ :: σ.ploads.held)
    (hpl : σ'.payload = Function.update σ.payload h₀.buf (some a)) (hlo : ∀ h, σ'.Loose h ↔ σ.Loose h)
    (hb : ∀ x m, (σ'.pc x).bare = some m → m ≠ h₀.buf ∧ (σ.pc x).bare = some m) : Loaded σ' := by
  have hother : ∀ h ∈ σ.msgs.held, h ≠ h₀ → σ'.payload h.buf = σ.payload h.buf := fun h hh' hne => by
    rw [hpl, Function.update_of_ne]
    exact fun e => hne (List.inj_on_of_nodup_map hnd hh' hh e)
  have hself : σ'.payload h₀.buf = some a := by
    rw [hpl]
    exact Function.update_self ..
  have hnot : ∀ h ∈ σ.msgs.held, ¬σ.Loose h → σ.payload h.buf ≠ some a := fun h hh' hn e =>
    hnew (List.mem_map_of_mem (hl.mine h hh' hn a e))
  refine ⟨fun b hb' => ?_, fun h hh' hn c hc => ?_, fun h hh' h' hh'' hn hn' c hc hc' => ?_,
    fun x m hx => ?_⟩
  · rw [hp, List.mem_cons] at hb'
    rcases hb' with rfl | hb'
    · exact ⟨h₀, by rw [hm]; exact hh, fun e => hn₀ ((hlo h₀).1 e), hself⟩
    · obtain ⟨h, hh', hn, hc⟩ := hl.covered b hb'
      have hne : h ≠ h₀ := fun e => by
        rw [e, hnone] at hc
        cases hc
      exact ⟨h, by rw [hm]; exact hh', fun e => hn ((hlo h).1 e), by rw [hother h hh' hne]; exact hc⟩
  · rw [hm] at hh'
    rw [hp, List.mem_cons]
    by_cases he : h = h₀
    · rw [he, hself] at hc
      exact .inl (by rw [Option.some.inj hc])
    · rw [hother h hh' he] at hc
      exact .inr (hl.mine h hh' (fun e => hn ((hlo h).2 e)) c hc)
  · rw [hm] at hh' hh''
    have hn := fun e => hn ((hlo h).2 e)
    have hn' := fun e => hn' ((hlo h').2 e)
    by_cases he : h = h₀ <;> by_cases he' : h' = h₀
    · rw [he, he']
    · rw [he, hself] at hc
      rw [hother h' hh'' he', ← hc] at hc'
      exact absurd hc' (hnot h' hh'' hn')
    · rw [he', hself] at hc'
      rw [hother h hh' he, ← hc'] at hc
      exact absurd hc (hnot h hh' hn)
    · rw [hother h hh' he] at hc
      rw [hother h' hh'' he'] at hc'
      exact hl.alone h hh' h' hh'' hn hn' c hc hc'
  · obtain ⟨hne, hx⟩ := hb x m hx
    rw [hpl, Function.update_of_ne hne]
    exact hl.bare x m hx

/-- `rpc_msg_put` gives the payload back. -/
theorem unload (hl : Loaded σ) (hh : h₀ ∈ σ.msgs.held)
    (hn₀ : ¬σ.Loose h₀) (hm : σ'.msgs.held = σ.msgs.held)
    (hp : ∀ b, b ∈ σ'.ploads.held ↔ b ∈ σ.ploads.held ∧ σ.payload h₀.buf ≠ some b.buf)
    (hpl : ∀ h ∈ σ.msgs.held, h ≠ h₀ → σ'.payload h.buf = σ.payload h.buf)
    (hlo : ∀ h, σ'.Loose h ↔ h = h₀ ∨ σ.Loose h)
    (hb : ∀ x m, (σ'.pc x).bare = some m → σ'.payload m = none) : Loaded σ' := by
  have hold : ∀ h ∈ σ.msgs.held, ¬σ'.Loose h → h ≠ h₀ ∧ ¬σ.Loose h ∧
      σ'.payload h.buf = σ.payload h.buf := fun h hh' hn => by
    have hne : h ≠ h₀ := fun e => hn ((hlo h).2 (.inl e))
    exact ⟨hne, fun e => hn ((hlo h).2 (.inr e)), hpl h hh' hne⟩
  refine ⟨fun b hb' => ?_, fun h hh' hn c hc => ?_, fun h hh' h' hh'' hn hn' c hc hc' => ?_, hb⟩
  · obtain ⟨hb', hne⟩ := (hp b).1 hb'
    obtain ⟨h, hh', hn, hc⟩ := hl.covered b hb'
    have hne₀ : h ≠ h₀ := fun e => hne (e ▸ hc)
    refine ⟨h, by rw [hm]; exact hh', fun e => ?_, by rw [hpl h hh' hne₀]; exact hc⟩
    exact ((hlo h).1 e).elim hne₀ hn
  · rw [hm] at hh'
    obtain ⟨hne, hn, hsame⟩ := hold h hh' hn
    rw [hsame] at hc
    refine (hp _).2 ⟨hl.mine h hh' hn c hc, fun e => hne ?_⟩
    exact hl.alone h hh' h₀ hh hn hn₀ c hc e
  · rw [hm] at hh' hh''
    obtain ⟨-, hn, hsame⟩ := hold h hh' hn
    obtain ⟨-, hn', hsame'⟩ := hold h' hh'' hn'
    rw [hsame] at hc
    rw [hsame'] at hc'
    exact hl.alone h hh' h' hh'' hn hn' c hc hc'

/-- A message whose payload is back goes out of use. -/
theorem drop (hl : Loaded σ) (hlo₀ : σ.Loose h₀)
    (hm : ∀ h, h ∈ σ'.msgs.held ↔ h ≠ h₀ ∧ h ∈ σ.msgs.held) (hp : σ'.ploads.held = σ.ploads.held)
    (hpl : σ'.payload = σ.payload) (hlo : ∀ h, σ'.Loose h ↔ h ≠ h₀ ∧ σ.Loose h)
    (hb : ∀ x m, (σ'.pc x).bare = some m → (σ.pc x).bare = some m) : Loaded σ' := by
  have hold : ∀ h, h ∈ σ'.msgs.held → ¬σ'.Loose h → h ∈ σ.msgs.held ∧ ¬σ.Loose h := fun h hh hn =>
    ⟨((hm h).1 hh).2, fun e => hn ((hlo h).2 ⟨((hm h).1 hh).1, e⟩)⟩
  refine ⟨fun b hb' => ?_, fun h hh hn c hc => ?_, fun h hh h' hh' hn hn' c hc hc' => ?_,
    fun x m hx => by rw [hpl]; exact hl.bare x m (hb x m hx)⟩
  · rw [hp] at hb'
    obtain ⟨h, hh, hn, hc⟩ := hl.covered b hb'
    have hne : h ≠ h₀ := fun e => hn (e ▸ hlo₀)
    exact ⟨h, (hm h).2 ⟨hne, hh⟩, fun e => hn ((hlo h).1 e).2, by rw [hpl]; exact hc⟩
  · obtain ⟨hh, hn⟩ := hold h hh hn
    rw [hpl] at hc
    rw [hp]
    exact hl.mine h hh hn c hc
  · obtain ⟨hh, hn⟩ := hold h hh hn
    obtain ⟨hh', hn'⟩ := hold h' hh' hn'
    rw [hpl] at hc hc'
    exact hl.alone h hh h' hh' hn hn' c hc hc'

end Loaded

/-! ## Responses -/

/-- A response whose header is read and that has not met its request. -/
def Datapath.Unmatched (σ : Datapath) (m : Addr) : Prop :=
  m ∈ σ.work ∨ ∃ x, (σ.pc x).unmatched = some m

/-- **A response has its request in the hash table**: what was asked was
matched or is in the table, and is with the peer, on its way back or here. -/
structure Matched (σ : Datapath) (asked got matched : List ℕ) : Prop where
  hashed : Ledger (· ∈ σ.hash) σ.seqid asked matched
  received : Ledger σ.Unmatched σ.seqid got matched
  flight : asked.Perm (σ.outstanding ++ σ.answers.map Prod.fst ++ got)

/-- The lookup of `_rpc_response` finds a request. -/
theorem Matched.finds {asked got matched : List ℕ} (hm : Matched σ asked got matched)
    (hu : σ.Unmatched m) : ∃ req ∈ σ.hash, σ.seqid req = σ.seqid m ∧
      σ.hash.find? (fun r => σ.seqid r = σ.seqid m) = some req := by
  have hlt := hm.received.countP_lt (p := fun q => q == σ.seqid m) hu (by simp)
  have hle : got.countP (fun q => q == σ.seqid m) ≤ asked.countP fun q => q == σ.seqid m := by
    rw [hm.flight.countP_eq, List.countP_append]
    omega
  cases hf : σ.hash.find? (fun r => σ.seqid r = σ.seqid m) with
  | some req =>
      have hreq := List.find?_some hf
      exact ⟨req, List.mem_of_find?_eq_some hf, of_decide_eq_true hreq, rfl⟩
  | none =>
      rw [List.find?_eq_none] at hf
      have heq := hm.hashed.countP_eq (p := fun q => q == σ.seqid m) fun r hr => by
        simpa using hf r hr
      omega

theorem Matched.congr {asked got matched : List ℕ} (hm : Matched σ asked got matched)
    (hh : σ'.hash = σ.hash) (hu : ∀ m, σ'.Unmatched m ↔ σ.Unmatched m)
    (hs : ∀ m, m ∈ σ.hash ∨ σ.Unmatched m → σ'.seqid m = σ.seqid m)
    (hf : (σ'.outstanding ++ σ'.answers.map Prod.fst).Perm
      (σ.outstanding ++ σ.answers.map Prod.fst)) : Matched σ' asked got matched :=
  ⟨hm.hashed.congr (fun m => by rw [hh]) fun m hm' => hs m (.inl hm'),
    hm.received.congr hu fun m hm' => hs m (.inr hm'), hm.flight.trans (hf.symm.append_right got)⟩

/-- A world whose step has nothing to do with responses. -/
theorem unmatched_update (hw : σ'.work = σ.work) (hx : pc'.unmatched = (σ.pc x).unmatched)
    (hpc : σ'.pc = Function.update σ.pc x pc') (m : Addr) : σ'.Unmatched m ↔ σ.Unmatched m := by
  refine or_congr (by rw [hw]) (exists_congr fun y => ?_)
  rw [hpc]
  by_cases hy : y = x
  · subst hy
    rw [Function.update_self, hx]
  · rw [Function.update_of_ne hy]

end Vmk

end VmwareProto
