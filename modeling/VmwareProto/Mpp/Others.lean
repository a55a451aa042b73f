import VmwareProto.Mpp.Sound
/-!
# What a step leaves to the others

A step moves its own actor and rewrites messages that are that actor's or
nobody's: what the others have in hand stays as it is.
-/

namespace VmwareProto

namespace Mpp

variable {cfg : Cfg} {σ σ' : State} {act : Action} {x y : Actor} {a b : Addr} {o : Option Msg} {q : Pc}

/-- Whose step it is. -/
def Action.actor : Action → Option Actor
  | get n _ _ _ _ _ _ _ | edit n _ | abandon n | check n | lock n | write n _ | unlock n => some (.world n)
  | close x | put x => some x
  | take n | dispatch n | handle n | finish n => some (.worker n)
  | recvStart _ | recv | recvEnd _ => some .receiver
  | arrive _ => none

/-- What the actors other than `x` stand at and have. -/
structure Leaves (σ σ' : State) (x : Actor) : Prop where
  pc : ∀ y, y ≠ x → σ'.pc y = σ.pc y
  msgs : ∀ y, y ≠ x → ∀ a ∈ (σ.pc y).held, σ'.chan.msgs a = σ.chan.msgs a

namespace Leaves

/-- A step that writes no message. -/
theorem of_same (hpc : σ'.pc = Function.update σ.pc x q) (hm : σ'.chan.msgs = σ.chan.msgs) :
    Leaves σ σ' x :=
  ⟨fun y hy => by rw [hpc, Function.update_of_ne hy], fun y _ a _ => by rw [hm]⟩

/-- One that writes a message that is nobody else's. -/
theorem of_update (hpc : σ'.pc = Function.update σ.pc x q)
    (hm : σ'.chan.msgs = Function.update σ.chan.msgs a o) (ha : ∀ y, y ≠ x → a ∉ (σ.pc y).held) :
    Leaves σ σ' x := by
  refine ⟨fun y hy => by rw [hpc, Function.update_of_ne hy], fun y hy b hb => ?_⟩
  have hba : b ≠ a := fun e => ha y hy (e ▸ hb)
  rw [hm, Function.update_of_ne hba]

/-- One that writes two. -/
theorem of_update₂ {o' : Option Msg} (hpc : σ'.pc = Function.update σ.pc x q)
    (hm : σ'.chan.msgs = Function.update (Function.update σ.chan.msgs a o) b o')
    (ha : ∀ y, y ≠ x → a ∉ (σ.pc y).held) (hb : ∀ y, y ≠ x → b ∉ (σ.pc y).held) :
    Leaves σ σ' x := by
  refine ⟨fun y hy => by rw [hpc, Function.update_of_ne hy], fun y hy d hd => ?_⟩
  have hda : d ≠ a := fun e => ha y hy (e ▸ hd)
  have hdb : d ≠ b := fun e => hb y hy (e ▸ hd)
  rw [hm, Function.update_of_ne hdb, Function.update_of_ne hda]

end Leaves

/-- A buffer that is not issued is in nobody's hands. -/
theorem Base.nobody (h : Base cfg σ) (ha : σ.chan.msgs a = none) (y : Actor) : a ∉ (σ.pc y).held := by
  intro hy
  have hown := h.uses.own y a hy
  rw [State.uses, ha] at hown
  cases hown

/-- **A step leaves the others alone.** -/
theorem Step.leaves (hs : Step cfg σ act σ') (h : Base cfg σ) (hx : act.actor = some x) :
    Leaves σ σ' x := by
  cases hs with
  | @get n k alloc msgtype msglen pad body e c a m hpc hl _ hget hm =>
      obtain rfl := Option.some.inj hx
      obtain ⟨lists, ps, hT⟩ := h.table
      obtain ⟨hnone, m₀, hmsgs, -⟩ := hT.msgGet hl hget
      have hset : (c.setMsg a { m with exCmd := e }).msgs =
          Function.update σ.chan.msgs a (some { m with exCmd := e }) := by
        rw [Channel.setMsg_msgs, hmsgs, Function.update_idem]
      exact .of_update rfl hset fun y _ => h.nobody hnone y
  | @edit n f k a m hpc =>
      obtain rfl := Option.some.inj hx
      exact .of_update (Function.update_eq_self ..).symm rfl (h.mine (by rw [hpc]; simp [Pc.held]))
  | abandon hpc =>
      obtain rfl := Option.some.inj hx
      exact .of_same rfl rfl
  | check hpc =>
      obtain rfl := Option.some.inj hx
      exact .of_update rfl rfl (h.mine (by rw [hpc]; simp [Pc.held]))
  | refuse hpc =>
      obtain rfl := Option.some.inj hx
      exact .of_same rfl rfl
  | leave hpc =>
      obtain rfl := Option.some.inj hx
      exact .of_update rfl rfl (h.mine (by rw [hpc]; simp [Pc.held]))
  | lockRequest hpc =>
      obtain rfl := Option.some.inj hx
      exact .of_update rfl rfl (h.mine (by rw [hpc]; simp [Pc.held]))
  | lockResponse hpc =>
      obtain rfl := Option.some.inj hx
      exact .of_same rfl rfl
  | write hpc =>
      obtain rfl := Option.some.inj hx
      exact .of_same rfl rfl
  | fail hpc =>
      obtain rfl := Option.some.inj hx
      exact .of_update rfl rfl (h.mine (by rw [hpc]; simp [Pc.held]))
  | unlockRequest hpc =>
      obtain rfl := Option.some.inj hx
      exact .of_update rfl rfl (h.mine (by rw [hpc]; simp [Pc.held]))
  | unlockResponse hpc =>
      obtain rfl := Option.some.inj hx
      exact .of_same rfl rfl
  | @close x s hcl =>
      obtain rfl := Option.some.inj hx
      have hmsgs : (σ.closeStep s).1.msgs = σ.chan.msgs := by cases s <;> rfl
      exact .of_same rfl hmsgs
  | closeUnlock hpc =>
      obtain rfl := Option.some.inj hx
      exact .of_same rfl rfl
  | closeReturn hpc =>
      obtain rfl := Option.some.inj hx
      exact .of_same rfl rfl
  | @putResp x a p m c hp hm hr hc =>
      obtain rfl := Option.some.inj hx
      obtain ⟨m', b, r, c₁, hm', hb, -, -, hput, rfl⟩ := Channel.putResp_cases hc
      obtain rfl := Option.some.inj (hm.symm.trans hm')
      obtain ⟨hheld, -⟩ := Pc.of_putting hp
      have hatt : σ.uses b = some (.attached a) := by
        rw [← h.answers.attached, resps_of_msg hm, hb]
      have hmsgs : (c₁.setMsg a { m with resp := none }).msgs = Function.update
          (Function.update σ.chan.msgs b none) a (some { m with resp := none }) := by
        rw [Channel.setMsg_msgs, (Channel.poolPut_keeps hput).2.1]
      exact .of_update₂ (Function.update_eq_self ..).symm hmsgs
        (fun y _ hy => (h.in_hand hy).2 a hatt) (h.mine (by simp [hheld]))
  | @put x a p m c hp _ _ hc =>
      obtain rfl := Option.some.inj hx
      obtain ⟨hheld, -⟩ := Pc.of_putting hp
      exact .of_update rfl (Channel.poolPut_keeps hc).2.1 (h.mine (by simp [hheld]))
  | @take n b q m hpc hq hm =>
      obtain rfl := Option.some.inj hx
      have huse : σ.uses b = some .queued := (h.uses.queued b).1 (by simp [hq])
      exact .of_update rfl rfl (h.free huse (by simp) (by simp) _)
  | drop hpc =>
      obtain rfl := Option.some.inj hx
      exact .of_same rfl rfl
  | @find n b r a c m hpc _ _ _ hl hlook hrem hm =>
      obtain rfl := Option.some.inj hx
      obtain ⟨m₀, hm₀, hu, -⟩ := h.found hl hlook
      have huse : σ.uses a = some .pending := by rw [uses_of_msg hm₀, hu]
      have hset : (c.setMsg a { m with use := .held (.worker n) }).msgs =
          Function.update σ.chan.msgs a (some { m with use := .held (.worker n) }) := by
        rw [Channel.setMsg_msgs, (Channel.hashRem_keeps hrem).2]
      exact .of_update rfl hset (h.free huse (by simp) (by simp) _)
  | handle hpc =>
      obtain rfl := Option.some.inj hx
      exact .of_update₂ rfl rfl (h.mine (by rw [hpc]; simp [Pc.held]))
        (h.mine (by rw [hpc]; simp [Pc.held]))
  | finish hpc =>
      obtain rfl := Option.some.inj hx
      exact .of_same rfl rfl
  | @recvStart alloc c b hpc hl _ hget =>
      obtain rfl := Option.some.inj hx
      obtain ⟨lists, ps, hT⟩ := h.table
      obtain ⟨hnone, -⟩ := hT.get hl hget
      obtain ⟨-, hmsgs, -⟩ := Channel.poolGet_keeps hget
      have hset : ∀ m, (c.setMsg b m).msgs = Function.update σ.chan.msgs b (some m) := fun m => by
        rw [Channel.setMsg_msgs, hmsgs]
      exact .of_update rfl (hset _) fun y _ => h.nobody hnone y
  | recv hpc =>
      obtain rfl := Option.some.inj hx
      exact .of_update rfl rfl (h.mine (by rw [hpc]; simp [Pc.held]))
  | recvEnd hpc =>
      obtain rfl := Option.some.inj hx
      exact .of_update rfl rfl (h.mine (by rw [hpc]; simp [Pc.held]))
  | arrive => cases hx

/-! ## What becomes of a message -/

/-- The message in `y` after a step: it has its command, and its bytes
unless somebody is filling it in; or it was put. -/
def Kept (σ σ' : State) (y : Addr) (m : Msg) : Prop :=
  (∃ m', σ'.chan.msgs y = some m' ∧ m'.exCmd = m.exCmd ∧
    (m'.frame = m.frame ∨ (∃ n k, σ.pc (.world n) = .got k y) ∨ σ.pc .receiver = .reading y)) ∨
  σ'.chan.msgs y = none ∧
    ((∃ x p, (σ.pc x).putting = some (y, p)) ∨ ∃ d, σ.uses y = some (.attached d))

namespace Kept

variable {y : Addr} {m m₀ m₁ : Msg}

theorem of_same (hm : σ.chan.msgs y = some m) (h : σ'.chan.msgs y = σ.chan.msgs y) : Kept σ σ' y m :=
  .inl ⟨m, by rw [h, hm], rfl, .inl rfl⟩

/-- A message is rewritten. -/
theorem of_update (hm : σ.chan.msgs y = some m)
    (h : σ'.chan.msgs = Function.update σ.chan.msgs a (some m₁)) (hm₀ : σ.chan.msgs a = some m₀)
    (he : m₁.exCmd = m₀.exCmd)
    (hf : m₁.frame = m₀.frame ∨ (∃ n k, σ.pc (.world n) = .got k a) ∨ σ.pc .receiver = .reading a) :
    Kept σ σ' y m := by
  by_cases hy : y = a
  · subst hy
    obtain rfl := Option.some.inj (hm.symm.trans hm₀)
    exact .inl ⟨m₁, by rw [h, Function.update_self], he, hf⟩
  · exact .of_same hm (by rw [h, Function.update_of_ne hy])

/-- A buffer is taken from the pool. -/
theorem of_fresh (hm : σ.chan.msgs y = some m)
    (h : σ'.chan.msgs = Function.update σ.chan.msgs a o) (ha : σ.chan.msgs a = none) :
    Kept σ σ' y m := by
  have hy : y ≠ a := by
    rintro rfl
    rw [ha] at hm
    cases hm
  exact .of_same hm (by rw [h, Function.update_of_ne hy])

end Kept

/-- **Messages are filled in by those who get them**, and stay what they are
until they are put. -/
theorem Step.kept {y : Addr} {m : Msg} (hs : Step cfg σ act σ') (h : Base cfg σ)
    (hm : σ.chan.msgs y = some m) : Kept σ σ' y m := by
  cases hs with
  | @get n k alloc msgtype msglen pad body e c a m₁ hpc hl _ hget _ =>
      obtain ⟨lists, ps, hT⟩ := h.table
      obtain ⟨hnone, m₀, hmsgs, -⟩ := hT.msgGet hl hget
      have hset : (c.setMsg a { m₁ with exCmd := e }).msgs =
          Function.update σ.chan.msgs a (some { m₁ with exCmd := e }) := by
        rw [Channel.setMsg_msgs, hmsgs, Function.update_idem]
      exact .of_fresh hm hset hnone
  | edit hpc hm₀ => exact .of_update hm rfl hm₀ rfl (.inr (.inl ⟨_, _, hpc⟩))
  | abandon => exact .of_same hm rfl
  | check hpc hm₀ => exact .of_update hm rfl hm₀ rfl (.inr (.inl ⟨_, _, hpc⟩))
  | refuse => exact .of_same hm rfl
  | leave _ hm₀ => exact .of_update hm rfl hm₀ rfl (.inl rfl)
  | lockRequest _ hm₀ => exact .of_update hm rfl hm₀ rfl (.inl rfl)
  | lockResponse => exact .of_same hm rfl
  | write => exact .of_same hm rfl
  | fail _ hm₀ => exact .of_update hm rfl hm₀ rfl (.inl rfl)
  | unlockRequest _ hm₀ => exact .of_update hm rfl hm₀ rfl (.inl rfl)
  | unlockResponse => exact .of_same hm rfl
  | @close x s =>
      have hmsgs : (σ.closeStep s).1.msgs = σ.chan.msgs := by cases s <;> rfl
      exact .of_same hm (congrFun hmsgs y)
  | closeUnlock => exact .of_same hm rfl
  | closeReturn => exact .of_same hm rfl
  | @putResp x a p m₀ c hp hm₀ hr hc =>
      obtain ⟨m', b, r, c₁, hm', hb, -, -, hput, rfl⟩ := Channel.putResp_cases hc
      obtain rfl := Option.some.inj (hm₀.symm.trans hm')
      obtain ⟨hheld, -⟩ := Pc.of_putting hp
      have hatt : σ.uses b = some (.attached a) := by
        rw [← h.answers.attached, resps_of_msg hm₀, hb]
      have hab : a ≠ b := by
        rintro rfl
        exact (h.in_hand (a := a) (x := x) (by simp [hheld])).2 a hatt
      have hput := (Channel.poolPut_keeps hput).2.1
      have ha : (c₁.setMsg a { m₀ with resp := none }).msgs a = some { m₀ with resp := none } :=
        Function.update_self ..
      by_cases hya : y = a
      · subst hya
        obtain rfl := Option.some.inj (hm.symm.trans hm₀)
        exact .inl ⟨_, ha, rfl, .inl rfl⟩
      · have hother : (c₁.setMsg a { m₀ with resp := none }).msgs y = c₁.msgs y :=
          Function.update_of_ne hya ..
        by_cases hyb : y = b
        · subst hyb
          exact .inr ⟨by rw [hother, hput, Function.update_self], .inr ⟨a, hatt⟩⟩
        · exact .of_same hm (by rw [hother, hput, Function.update_of_ne hyb])
  | @put x a p m₀ c hp hm₀ _ hc =>
      have hput := (Channel.poolPut_keeps hc).2.1
      by_cases hya : y = a
      · subst hya
        exact .inr ⟨(congrFun hput y).trans (Function.update_self ..), .inl ⟨x, p, hp⟩⟩
      · exact .of_same hm ((congrFun hput y).trans (Function.update_of_ne hya ..))
  | take _ _ hm₀ => exact .of_update hm rfl hm₀ rfl (.inl rfl)
  | drop => exact .of_same hm rfl
  | @find n b r a c m₀ _ _ _ _ _ _ hrem hm₀ =>
      have hmsgs := (Channel.hashRem_keeps hrem).2
      have hset : (c.setMsg a { m₀ with use := .held (.worker n) }).msgs =
          Function.update σ.chan.msgs a (some { m₀ with use := .held (.worker n) }) := by
        rw [Channel.setMsg_msgs, hmsgs]
      rw [hmsgs] at hm₀
      exact .of_update hm hset hm₀ rfl (.inl rfl)
  | @handle n a b m₀ r s hpc hm₀ hr =>
      by_cases hyb : y = b
      · subst hyb
        obtain rfl := Option.some.inj (hm.symm.trans hr)
        exact .inl ⟨_, Function.update_self .., rfl, .inl rfl⟩
      · have hset : ((σ.chan.setMsg a { m₀ with resp := some b }).setMsg b { r with
            use := .attached a }).msgs y = (σ.chan.setMsg a { m₀ with resp := some b }).msgs y :=
          Function.update_of_ne hyb ..
        by_cases hya : y = a
        · subst hya
          obtain rfl := Option.some.inj (hm.symm.trans hm₀)
          exact .inl ⟨_, hset.trans (Function.update_self ..), rfl, .inl rfl⟩
        · exact .of_same hm (hset.trans (Function.update_of_ne hya ..))
  | finish => exact .of_same hm rfl
  | @recvStart alloc c b hpc hl _ hget =>
      obtain ⟨lists, ps, hT⟩ := h.table
      obtain ⟨hnone, -⟩ := hT.get hl hget
      obtain ⟨-, hmsgs, -⟩ := Channel.poolGet_keeps hget
      have hset : ∀ m, (c.setMsg b m).msgs = Function.update σ.chan.msgs b (some m) := fun m => by
        rw [Channel.setMsg_msgs, hmsgs]
      exact .of_fresh hm (hset _) hnone
  | recv hpc hm₀ => exact .of_update hm rfl hm₀ rfl (.inr (.inr hpc))
  | recvEnd hpc hm₀ => exact .of_update hm rfl hm₀ rfl (.inr (.inr hpc))
  | arrive => exact .of_same hm rfl

/-! ## Pending requests -/

/-- Which messages are pending. -/
def SamePending (σ σ' : State) : Prop := ∀ y, σ'.uses y = some .pending ↔ σ.uses y = some .pending

namespace SamePending

theorem of_same (h : σ'.chan.msgs = σ.chan.msgs) : SamePending σ σ' := fun y => by
  rw [State.uses, State.uses, h]

theorem of_update (h : σ'.chan.msgs = Function.update σ.chan.msgs a o)
    (hold : σ.uses a ≠ some .pending) (hnew : o.map Msg.use ≠ some .pending) : SamePending σ σ' := by
  intro y
  rw [uses_update h]
  by_cases hy : y = a
  · subst hy
    rw [Function.update_self]
    exact iff_of_false hnew hold
  · rw [Function.update_of_ne hy]

theorem trans {σ'' : State} (h : SamePending σ σ') (h' : SamePending σ' σ'') : SamePending σ σ'' :=
  fun y => (h' y).trans (h y)

end SamePending

/-- What is in somebody's hands is not pending. -/
theorem Base.held_ne_pending (h : Base cfg σ) (ha : a ∈ (σ.pc x).held) :
    σ.uses a ≠ some .pending := by
  rw [h.uses.own x a ha]
  rcases useOf_cases (σ.pc x) x a with e | ⟨e, -⟩ <;> rw [e] <;> simp

/-- **A request becomes pending** at its sender's unlock, and a worker that
finds it ends that. -/
theorem Step.pending (hs : Step cfg σ act σ') (h : Base cfg σ) : SamePending σ σ' ∨
    (∃ n y, act = .unlock n ∧ σ.pc (.world n) = .unlock .request y) ∨
    ∃ n b, act = .dispatch n ∧ σ.pc (.worker n) = .item b ∧ ∃ y, σ'.pc (.worker n) = .found y b := by
  cases hs with
  | @get n k alloc msgtype msglen pad body e c a m₁ hpc hl _ hget hm₁ =>
      obtain ⟨lists, ps, hT⟩ := h.table
      obtain ⟨hnone, m₀, hmsgs, hu, -⟩ := hT.msgGet hl hget
      obtain rfl : m₁ = m₀ := by
        rw [hmsgs, Function.update_self] at hm₁
        exact (Option.some.inj hm₁).symm
      have hset : (c.setMsg a { m₁ with exCmd := e }).msgs =
          Function.update σ.chan.msgs a (some { m₁ with exCmd := e }) := by
        rw [Channel.setMsg_msgs, hmsgs, Function.update_idem]
      have hold : σ.uses a ≠ some .pending := by simp [State.uses, hnone]
      exact .inl (.of_update hset hold (by simp [hu]))
  | edit hpc hm =>
      have hold := h.held_ne_pending (x := .world _) (by rw [hpc]; exact List.mem_singleton_self _)
      exact .inl (.of_update rfl hold (by rwa [uses_of_msg hm] at hold))
  | abandon => exact .inl (.of_same rfl)
  | check hpc hm =>
      have hold := h.held_ne_pending (x := .world _) (by rw [hpc]; exact List.mem_singleton_self _)
      exact .inl (.of_update rfl hold (by rwa [uses_of_msg hm] at hold))
  | refuse => exact .inl (.of_same rfl)
  | leave hpc =>
      have hold := h.held_ne_pending (x := .world _) (by rw [hpc]; exact List.mem_singleton_self _)
      exact .inl (.of_update rfl hold (by simp))
  | lockRequest hpc =>
      have hold := h.held_ne_pending (x := .world _) (by rw [hpc]; exact List.mem_singleton_self _)
      exact .inl (.of_update rfl hold (by simp))
  | lockResponse => exact .inl (.of_same rfl)
  | write => exact .inl (.of_same rfl)
  | fail hpc =>
      have hold := h.held_ne_pending (x := .world _) (by rw [hpc]; exact List.mem_singleton_self _)
      exact .inl (.of_update rfl hold (by simp))
  | unlockRequest hpc => exact .inr (.inl ⟨_, _, rfl, hpc⟩)
  | unlockResponse => exact .inl (.of_same rfl)
  | @close x s =>
      have hmsgs : (σ.closeStep s).1.msgs = σ.chan.msgs := by cases s <;> rfl
      exact .inl (.of_same hmsgs)
  | closeUnlock => exact .inl (.of_same rfl)
  | closeReturn => exact .inl (.of_same rfl)
  | @putResp x a p m₀ c hp hm₀ hr hc =>
      obtain ⟨m', b, r, c₁, hm', hb, -, -, hput, rfl⟩ := Channel.putResp_cases hc
      obtain rfl := Option.some.inj (hm₀.symm.trans hm')
      obtain ⟨hheld, -⟩ := Pc.of_putting hp
      have ha : a ∈ (σ.pc x).held := by simp [hheld]
      have hatt : σ.uses b = some (.attached a) := by
        rw [← h.answers.attached, resps_of_msg hm₀, hb]
      let σ₁ : State := { σ with chan := c₁ }
      have hfirst : SamePending σ σ₁ :=
        .of_update (o := none) (Channel.poolPut_keeps hput).2.1 (by simp [hatt]) (by simp)
      have hold := h.held_ne_pending ha
      have hnew : m₀.use ≠ .pending := by
        rw [uses_of_msg hm₀] at hold
        exact fun e => hold (by rw [e])
      exact .inl (hfirst.trans (.of_update (σ := σ₁) rfl (fun e => hold ((hfirst a).1 e))
        (by simpa using hnew)))
  | @put x a p m₀ c hp hm₀ _ hc =>
      obtain ⟨hheld, -⟩ := Pc.of_putting hp
      exact .inl (.of_update (o := none) (Channel.poolPut_keeps hc).2.1
        (h.held_ne_pending (x := x) (by simp [hheld])) (by simp))
  | @take n b q m hpc hq hm =>
      have huse : σ.uses b = some .queued := (h.uses.queued b).1 (by simp [hq])
      exact .inl (.of_update rfl (by simp [huse]) (by simp))
  | drop => exact .inl (.of_same rfl)
  | find hpc => exact .inr (.inr ⟨_, _, rfl, hpc, _, Function.update_self ..⟩)
  | @handle n a b m r s hpc hm hr =>
      have ha : a ∈ (σ.pc (.worker n)).held := by simp [hpc, Pc.held]
      have hb : b ∈ (σ.pc (.worker n)).held := by simp [hpc, Pc.held]
      let σ₁ : State := { σ with chan := σ.chan.setMsg a { m with resp := some b } }
      have hold := h.held_ne_pending ha
      have hfirst : SamePending σ σ₁ :=
        .of_update rfl hold (by rwa [uses_of_msg hm] at hold)
      exact .inl (hfirst.trans (.of_update (σ := σ₁) rfl
        (fun e => h.held_ne_pending hb ((hfirst b).1 e)) (by simp)))
  | finish => exact .inl (.of_same rfl)
  | @recvStart alloc c b hpc hl _ hget =>
      obtain ⟨lists, ps, hT⟩ := h.table
      obtain ⟨hnone, -⟩ := hT.get hl hget
      obtain ⟨-, hmsgs, -⟩ := Channel.poolGet_keeps hget
      have hset : ∀ m, (c.setMsg b m).msgs = Function.update σ.chan.msgs b (some m) := fun m => by
        rw [Channel.setMsg_msgs, hmsgs]
      exact .inl (.of_update (hset _) (by simp [State.uses, hnone]) (by simp))
  | recv hpc =>
      have hold := h.held_ne_pending (x := .receiver) (by rw [hpc]; exact List.mem_singleton_self _)
      exact .inl (.of_update rfl hold (by simp))
  | recvEnd hpc =>
      have hold := h.held_ne_pending (x := .receiver) (by rw [hpc]; exact List.mem_singleton_self _)
      exact .inl (.of_update rfl hold (by simp))
  | arrive => exact .inl (.of_same rfl)

/-! ## Settled messages -/

/-- A place at which nobody changes a message any more. -/
def Pc.settled : Pc → Bool
  | .send _ _ _ _ | .unlock _ _ | .item _ | .found _ _ => true
  | _ => false

theorem Pc.settled_of_putting {p q : Pc} (h : p.putting = some (a, q)) : p.settled = false := by
  cases p <;> cases h <;> rfl

/-- A message that is sent or received, and not put. -/
def State.Settled (σ : State) (a : Addr) : Prop :=
  σ.uses a = some .pending ∨ σ.uses a = some .queued ∨
    ∃ x, a ∈ (σ.pc x).held ∧ (σ.pc x).settled = true

/-- What can be sent of a message, or was received. -/
def State.frames (σ : State) (a : Addr) : Option Frame := (σ.chan.msgs a).map Msg.frame

theorem State.frames_eq_some {f : Frame} :
    σ.frames a = some f ↔ ∃ m, σ.chan.msgs a = some m ∧ m.frame = f := by
  simp [State.frames]

/-- **A settled message stays as it is.** -/
theorem Step.settled (hs : Step cfg σ act σ') (h : Base cfg σ) (ha : σ.Settled a) :
    σ'.frames a = σ.frames a := by
  -- it is in the hands of nobody who would change it
  have hfree : ∀ x, a ∈ (σ.pc x).held → (σ.pc x).settled = true := by
    intro x hx
    rcases ha with hu | hu | ⟨z, hz, hset⟩
    · exact absurd hu (h.held_ne_pending hx)
    · exact absurd ((h.uses.queued a).2 hu) (h.in_hand hx).1
    · rwa [h.uses.unique hx hz]
  have hatt : ∀ d, σ.uses a ≠ some (.attached d) := by
    intro d hd
    rcases ha with hu | hu | ⟨z, hz, -⟩
    · rw [hu] at hd
      cases hd
    · rw [hu] at hd
      cases hd
    · exact (h.in_hand hz).2 d hd
  obtain ⟨m, hm⟩ : ∃ m, σ.chan.msgs a = some m := by
    have huse : σ.uses a ≠ none := by
      rcases ha with hu | hu | ⟨z, hz, -⟩
      · simp [hu]
      · simp [hu]
      · simp [h.uses.own z a hz]
    refine Option.ne_none_iff_exists'.1 fun e => huse ?_
    rw [State.uses, e]
    rfl
  rcases hs.kept h hm with ⟨m', hm', -, hf⟩ | ⟨-, ⟨x, p, hp⟩ | ⟨d, hd⟩⟩
  · rw [State.frames, State.frames, hm, hm']
    rcases hf with hf | ⟨n, k, hpc⟩ | hpc
    · exact congrArg some hf
    · have := hfree (.world n) (by simp [hpc, Pc.held])
      rw [hpc] at this
      cases this
    · have := hfree .receiver (by simp [hpc, Pc.held])
      rw [hpc] at this
      cases this
  · have hheld := (Pc.of_putting hp).1
    have hset := hfree x (by simp [hheld])
    rw [Pc.settled_of_putting hp] at hset
    cases hset
  · exact absurd hd (hatt d)

end Mpp

end VmwareProto
