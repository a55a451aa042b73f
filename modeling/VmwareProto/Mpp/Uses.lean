import VmwareProto.Mpp.Table
/-!
# Who has which message

`Uses` ties the use of each message to the place of the one actor that has
it, to the work list and to the request it answers. A step changes the use
of one message at most, and moves one actor at most.
-/

namespace VmwareProto

namespace Mpp

variable {cfg : Cfg} {σ σ' : State} {act : Action} {x y z : Actor} {a b : Addr} {m : Msg} {p q : Pc}

/-- What each issued buffer is used for. -/
def State.uses (σ : State) (a : Addr) : Option Use := (σ.chan.msgs a).map Msg.use

/-- The use of a message in an actor's hands. -/
def Pc.useOf (p : Pc) (x : Actor) (a : Addr) : Use :=
  if p.sends = some a then .sending x else .held x

/-- The uses fit the places. -/
structure Uses (uses : Addr → Option Use) (pc : Actor → Pc) (queue : List Addr) : Prop where
  /-- what an actor has is in its hands -/
  own : ∀ x a, a ∈ (pc x).held → uses a = some ((pc x).useOf x a)
  /-- and what is in somebody's hands is had by it -/
  held : ∀ x a, uses a = some (.held x) ∨ uses a = some (.sending x) → a ∈ (pc x).held
  nodup : ∀ x, (pc x).held.Nodup
  queued : ∀ a, a ∈ queue ↔ uses a = some .queued
  queue_nodup : queue.Nodup

theorem useOf_cases (p : Pc) (x : Actor) (a : Addr) :
    p.useOf x a = .held x ∨ p.useOf x a = .sending x ∧ p.sends = some a := by
  unfold Pc.useOf
  split
  · rename_i h
    exact .inr ⟨rfl, h⟩
  · exact .inl rfl

theorem Pc.useOf_of_sends (h : p.sends = none) (x : Actor) (a : Addr) : p.useOf x a = .held x := by
  simp [Pc.useOf, h]

namespace Uses

variable {uses uses' : Addr → Option Use} {pc : Actor → Pc} {queue queue' : List Addr} {u : Option Use}

/-- **No two actors have one message.** -/
theorem unique (h : Uses uses pc queue) (hx : a ∈ (pc x).held) (hy : a ∈ (pc y).held) : x = y := by
  have hu := h.own x a hx
  have hv := h.own y a hy
  rw [hu] at hv
  have hv := Option.some.inj hv
  rcases useOf_cases (pc x) x a with e | ⟨e, -⟩ <;> rcases useOf_cases (pc y) y a with e' | ⟨e', -⟩ <;>
    rw [e, e'] at hv <;> cases hv <;> rfl

/-- **One step of one actor**, which changes the use of `a` to `u`: it was
in no other actor's hands, and what else the actor has it keeps. -/
theorem move (h : Uses uses pc queue) (huses : uses' = Function.update uses a u)
    (hfree : ∀ z, z ≠ x → a ∉ (pc z).held)
    (hkeep : ∀ y, y ≠ a → (y ∈ q.held ↔ y ∈ (pc x).held) ∧ q.useOf x y = (pc x).useOf x y)
    (hown : a ∈ q.held → u = some (q.useOf x a))
    (hheld : ∀ z, u = some (.held z) ∨ u = some (.sending z) → z = x ∧ a ∈ q.held)
    (hnd : q.held.Nodup) (hqueue : ∀ y, y ≠ a → (y ∈ queue' ↔ y ∈ queue))
    (hqa : a ∈ queue' ↔ u = some .queued) (hqnd : queue'.Nodup) :
    Uses uses' (Function.update pc x q) queue' := by
  have hat : uses' a = u := by rw [huses, Function.update_self]
  have hother : ∀ y, y ≠ a → uses' y = uses y := fun y hy => by rw [huses, Function.update_of_ne hy]
  refine ⟨fun z y hy => ?_, fun z y hy => ?_, fun z => ?_, fun y => ?_, hqnd⟩
  · by_cases hz : z = x
    · subst hz
      rw [Function.update_self] at hy ⊢
      by_cases hya : y = a
      · subst hya
        rw [hat, hown hy]
      · rw [hother y hya, (hkeep y hya).2]
        exact h.own z y ((hkeep y hya).1.1 hy)
    · rw [Function.update_of_ne hz] at hy ⊢
      have hya : y ≠ a := fun e => hfree z hz (e ▸ hy)
      rw [hother y hya]
      exact h.own z y hy
  · by_cases hya : y = a
    · subst hya
      rw [hat] at hy
      obtain ⟨rfl, hm⟩ := hheld z hy
      rwa [Function.update_self]
    · rw [hother y hya] at hy
      have hm := h.held z y hy
      by_cases hz : z = x
      · subst hz
        rw [Function.update_self]
        exact (hkeep y hya).1.2 hm
      · rwa [Function.update_of_ne hz]
  · by_cases hz : z = x
    · subst hz
      rwa [Function.update_self]
    · rw [Function.update_of_ne hz]
      exact h.nodup z
  · by_cases hya : y = a
    · subst hya
      rw [hqa, hat]
    · rw [hqueue y hya, h.queued, hother y hya]

/-- **One step of one actor** that changes no use. -/
theorem stay (h : Uses uses pc queue) (hh : q.held = (pc x).held) (hs : q.sends = (pc x).sends) :
    Uses uses (Function.update pc x q) queue := by
  have hsame : ∀ z, (Function.update pc x q z).held = (pc z).held ∧
      (Function.update pc x q z).sends = (pc z).sends := fun z => by
    by_cases hz : z = x
    · subst hz
      rw [Function.update_self]
      exact ⟨hh, hs⟩
    · rw [Function.update_of_ne hz]
      exact ⟨rfl, rfl⟩
  refine ⟨fun z y hy => ?_, fun z y hy => ?_, fun z => ?_, h.queued, h.queue_nodup⟩
  · rw [(hsame z).1] at hy
    rw [Pc.useOf, (hsame z).2]
    exact h.own z y hy
  · rw [(hsame z).1]
    exact h.held z y hy
  · rw [(hsame z).1]
    exact h.nodup z

/-- A message that is in no actor's hands, or in those of `x`. -/
theorem free (h : Uses uses pc queue)
    (hu : ∀ z, z ≠ x → uses a ≠ some (.held z) ∧ uses a ≠ some (.sending z)) :
    ∀ z, z ≠ x → a ∉ (pc z).held := by
  intro z hz ha
  have hown := h.own z a ha
  rcases useOf_cases (pc z) z a with e | ⟨e, -⟩ <;> rw [e] at hown
  · exact (hu z hz).1 hown
  · exact (hu z hz).2 hown

end Uses

/-! ## Responses in hand -/

/-- The response of each issued buffer. -/
def State.resps (σ : State) (a : Addr) : Option Addr := (σ.chan.msgs a).bind Msg.resp

/-- A request has its response while `resp_handler` puts the two. -/
structure Answers (resps : Addr → Option Addr) (uses : Addr → Option Use) (pc : Actor → Pc) : Prop where
  finish : ∀ a b, resps a = some b → ∃ x e s, pc x = .finish a e s
  attached : ∀ a b, resps a = some b ↔ uses b = some (.attached a)

namespace Answers

variable {resps : Addr → Option Addr} {uses : Addr → Option Use} {pc : Actor → Pc} {u : Option Use}

/-- A step of an actor that is not in such a put, or at its end. -/
theorem move (h : Answers resps uses pc) (hold : ∀ c, uses a ≠ some (.attached c))
    (hnew : ∀ c, u ≠ some (.attached c)) (hpc : ∀ a e s, pc x = .finish a e s → resps a = none) :
    Answers resps (Function.update uses a u) (Function.update pc x q) := by
  refine ⟨fun c b hb => ?_, fun c b => ?_⟩
  · obtain ⟨y, e, s, hy⟩ := h.finish c b hb
    have hyx : y ≠ x := by
      rintro rfl
      rw [hpc c e s hy] at hb
      cases hb
    exact ⟨y, e, s, by rw [Function.update_of_ne hyx, hy]⟩
  · rw [h.attached]
    by_cases hba : b = a
    · subst hba
      rw [Function.update_self]
      exact iff_of_false (hold c) (hnew c)
    · rw [Function.update_of_ne hba]

theorem stay (h : Answers resps uses pc) (hpc : ∀ a e s, pc x = .finish a e s → resps a = none) :
    Answers resps uses (Function.update pc x q) := by
  refine ⟨fun c b hb => ?_, h.attached⟩
  obtain ⟨y, e, s, hy⟩ := h.finish c b hb
  have hyx : y ≠ x := by
    rintro rfl
    rw [hpc c e s hy] at hb
    cases hb
  exact ⟨y, e, s, by rw [Function.update_of_ne hyx, hy]⟩

end Answers

/-! ## What holds while no request fails to be sent -/

/-- The lock is with the actor that stands between its two calls. -/
def Locks (lock : Option Actor) (pc : Actor → Pc) : Prop := ∀ x, lock = some x ↔ (pc x).locked = true

structure Base (cfg : Cfg) (σ : State) : Prop where
  uses : Uses σ.uses σ.pc σ.queue
  answers : Answers σ.resps σ.uses σ.pc
  locks : Locks σ.chan.lock σ.pc
  table : ∃ lists ps, Table cfg σ.chan lists ps

/-- **The condition**: no `socket_write` of `rpc_async_request` fails. -/
def Sends (σ : State) (act : Action) : Prop :=
  ∀ n a part rest, act = .write n none → σ.pc (.world n) ≠ .send .request a part rest

theorem Locks.move {lock lock' : Option Actor} {pc : Actor → Pc} (h : Locks lock pc)
    (hl : lock' = lock) (hq : q.locked = (pc x).locked) : Locks lock' (Function.update pc x q) := by
  intro z
  rw [hl, h z]
  by_cases hz : z = x
  · subst hz
    rw [Function.update_self, hq]
  · rw [Function.update_of_ne hz]

/-- Taking the lock. -/
theorem Locks.take {pc : Actor → Pc} (h : Locks none pc) (hq : q.locked = true) :
    Locks (some x) (Function.update pc x q) := by
  intro z
  by_cases hz : z = x
  · subst hz
    rw [Function.update_self, hq]
    exact iff_of_true rfl rfl
  · rw [Function.update_of_ne hz]
    refine iff_of_false (fun e => hz (Option.some.inj e).symm) fun e => ?_
    cases (h z).2 e

/-- Giving it back. -/
theorem Locks.release {lock : Option Actor} {pc : Actor → Pc} (h : Locks lock pc)
    (hx : (pc x).locked = true) (hq : q.locked = false) : Locks none (Function.update pc x q) := by
  intro z
  refine iff_of_false (fun e => (by cases e)) fun e => ?_
  by_cases hz : z = x
  · subst hz
    rw [Function.update_self, hq] at e
    cases e
  · rw [Function.update_of_ne hz] at e
    have hz' := (h z).2 e
    rw [(h x).2 hx] at hz'
    exact hz (Option.some.inj hz').symm

@[simp] theorem held_sending (k : Kind) (a : Addr) (f : Frame) (part : Part) (rest : List Byte) :
    (Pc.sending k a f part rest).held = [a] := by
  unfold Pc.sending
  split
  · split <;> rfl
  · rfl
  · rfl

@[simp] theorem locked_sending (k : Kind) (a : Addr) (f : Frame) (part : Part) (rest : List Byte) :
    (Pc.sending k a f part rest).locked = true := by
  unfold Pc.sending
  split
  · split <;> rfl
  · rfl
  · rfl

@[simp] theorem sends_sending (k : Kind) (a : Addr) (f : Frame) (part : Part) (rest : List Byte) :
    (Pc.sending k a f part rest).sends = if k = .request then some a else none := by
  unfold Pc.sending
  split
  · split <;> cases k <;> rfl
  · cases k <;> rfl
  · cases k <;> rfl

theorem sending_ne_finish (k : Kind) (a b : Addr) (f : Frame) (part : Part) (rest : List Byte)
    (e : CmdId) (s : ScsiCommand) : Pc.sending k a f part rest ≠ .finish b e s := by
  intro h
  have := congrArg Pc.locked h
  rw [locked_sending] at this
  cases this

end Mpp

end VmwareProto
