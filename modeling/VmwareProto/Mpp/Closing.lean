import VmwareProto.Mpp.Frames
/-!
# Closing the socket

`rpc_chan_close` tests `enabled` and clears it in two steps. Senders that
fail call it with `rcp->lock` held, the worker that handles the closed
connection without, so the lock does not keep two of them apart. They are
apart in the runs in which nobody makes the test while another one stands
between test and store, and in those the socket is closed at most once.
-/

namespace VmwareProto

namespace Mpp

variable {cfg : Cfg} {σ σ' : State} {act : Action} {x y : Actor} {s : Closing}

/-- Nobody tests `enabled` to close the socket while another one has made
the test and has not yet cleared the flag. -/
def Alone (σ : State) (act : Action) : Prop :=
  ∀ x, act = .close x → (σ.pc x).closer = some .test → ∀ y, (σ.pc y).closer ≠ some .clear

/-- Where those who close the channel stand, and how often the socket has
been closed. -/
structure Closings (σ : State) : Prop where
  closes : σ.chan.closes ≤ 1
  fresh : σ.chan.enabled = true → σ.chan.closes = 0
  clear : ∀ x, (σ.pc x).closer = some .clear → σ.chan.enabled = true
  clear_one : ∀ x y, (σ.pc x).closer = some .clear → (σ.pc y).closer = some .clear → x = y
  close : ∀ x, (σ.pc x).closer = some .close → σ.chan.enabled = false ∧ σ.chan.closes = 0
  close_one : ∀ x y, (σ.pc x).closer = some .close → (σ.pc y).closer = some .close → x = y

/-- Nobody starts or goes on closing, except up to the test. -/
structure Unclosed (σ σ' : State) : Prop where
  enabled : σ'.chan.enabled = σ.chan.enabled
  closes : σ'.chan.closes = σ.chan.closes
  closer : ∀ y, (σ'.pc y).closer = (σ.pc y).closer ∨ (σ'.pc y).closer = none ∨
    (σ'.pc y).closer = some .test

/-- The flag and the socket are as they were. -/
def Channel.SameFlag (c c' : Channel) : Prop := c'.enabled = c.enabled ∧ c'.closes = c.closes

theorem Channel.Keeps.sameFlag {c c' : Channel} (h : c.Keeps c') : c.SameFlag c' :=
  ⟨h.enabled, h.closes⟩

theorem Unclosed.of_same (hk : σ.chan.SameFlag σ'.chan) (hp : σ'.pc = σ.pc) : Unclosed σ σ' :=
  ⟨hk.1, hk.2, fun y => .inl (by rw [hp])⟩

/-- An actor moves to a place outside `rpc_chan_close`, or before its test. -/
theorem Unclosed.of_move {p : Pc} (hk : σ.chan.SameFlag σ'.chan)
    (hp : σ'.pc = Function.update σ.pc x p) (hc : p.closer = none ∨ p.closer = some .test) :
    Unclosed σ σ' := by
  refine ⟨hk.1, hk.2, fun y => ?_⟩
  rw [hp]
  by_cases hy : y = x
  · subst hy
    rw [Function.update_self]
    exact .inr hc
  · rw [Function.update_of_ne hy]
    exact .inl rfl

/-- Writing leads to the next write or to the unlock. -/
theorem closer_sending (k : Kind) (a : Addr) (f : Frame) (part : Part) (rest : List Byte) :
    (Pc.sending k a f part rest).closer = none := by
  unfold Pc.sending
  split
  · split <;> rfl
  · rfl
  · rfl

/-- What follows a put. -/
theorem closer_putting {p q : Pc} {a : Addr} (h : p.putting = some (a, q)) :
    q.closer = none ∨ q.closer = some .test := by
  unfold Pc.putting at h
  split at h
  · obtain ⟨-, rfl⟩ := Prod.mk.inj (Option.some.inj h)
    exact .inl rfl
  · obtain ⟨-, rfl⟩ := Prod.mk.inj (Option.some.inj h)
    exact .inl rfl
  · obtain ⟨-, rfl⟩ := Prod.mk.inj (Option.some.inj h)
    exact .inr rfl
  · cases h

/-- **Every step but those of `rpc_chan_close`** leaves the closing alone. -/
theorem Step.unclosed (h : Step cfg σ act σ') (hact : ∀ x, act ≠ .close x) : Unclosed σ σ' := by
  cases h with
  | get _ _ _ hget _ => exact .of_move (Channel.msgGet_keeps hget).sameFlag rfl (.inl rfl)
  | edit => exact .of_same ⟨rfl, rfl⟩ rfl
  | abandon => exact .of_move ⟨rfl, rfl⟩ rfl (.inl rfl)
  | check => exact .of_move ⟨rfl, rfl⟩ rfl (.inl rfl)
  | refuse => exact .of_move ⟨rfl, rfl⟩ rfl (.inl rfl)
  | leave => exact .of_move ⟨rfl, rfl⟩ rfl (.inl rfl)
  | lockRequest => exact .of_move ⟨rfl, rfl⟩ rfl (.inl (closer_sending ..))
  | lockResponse => exact .of_move ⟨rfl, rfl⟩ rfl (.inl (closer_sending ..))
  | write => exact .of_move ⟨rfl, rfl⟩ rfl (.inl (closer_sending ..))
  | fail => exact .of_move ⟨rfl, rfl⟩ rfl (.inr rfl)
  | unlockRequest => exact .of_move ⟨rfl, rfl⟩ rfl (.inl rfl)
  | unlockResponse => exact .of_move ⟨rfl, rfl⟩ rfl (.inl rfl)
  | close => exact absurd rfl (hact _)
  | closeUnlock => exact absurd rfl (hact _)
  | closeReturn => exact absurd rfl (hact _)
  | putResp _ _ _ hc => exact .of_same (Channel.putResp_keeps hc).sameFlag rfl
  | put hp _ _ hc => exact .of_move (Channel.poolPut_keeps hc).1.sameFlag rfl (closer_putting hp)
  | take => exact .of_move ⟨rfl, rfl⟩ rfl (.inl rfl)
  | drop => exact .of_move ⟨rfl, rfl⟩ rfl (.inl rfl)
  | find _ _ _ _ _ _ hc _ => exact .of_move (Channel.hashRem_keeps hc).1.sameFlag rfl (.inl rfl)
  | handle => exact .of_move ⟨rfl, rfl⟩ rfl (.inl rfl)
  | finish => exact .of_move ⟨rfl, rfl⟩ rfl (.inl rfl)
  | recvStart _ _ _ hget => exact .of_move (Channel.poolGet_keeps hget).1.sameFlag rfl (.inl rfl)
  | recv => exact .of_move ⟨rfl, rfl⟩ rfl (.inl rfl)
  | recvEnd => exact .of_move ⟨rfl, rfl⟩ rfl (.inl rfl)
  | arrive => exact .of_same ⟨rfl, rfl⟩ rfl

theorem Closings.unclosed (h : Closings σ) (hu : Unclosed σ σ') : Closings σ' := by
  have hclear : ∀ y, (σ'.pc y).closer = some .clear → (σ.pc y).closer = some .clear := by
    intro y hy
    rcases hu.closer y with e | e | e
    · rw [← e, hy]
    · rw [hy] at e; cases e
    · rw [hy] at e; cases e
  have hclose : ∀ y, (σ'.pc y).closer = some .close → (σ.pc y).closer = some .close := by
    intro y hy
    rcases hu.closer y with e | e | e
    · rw [← e, hy]
    · rw [hy] at e; cases e
    · rw [hy] at e; cases e
  refine ⟨by rw [hu.closes]; exact h.closes, ?_, ?_, ?_, ?_, ?_⟩
  · rw [hu.enabled, hu.closes]
    exact h.fresh
  · intro y hy
    rw [hu.enabled]
    exact h.clear y (hclear y hy)
  · intro y z hy hz
    exact h.clear_one y z (hclear y hy) (hclear z hz)
  · intro y hy
    rw [hu.enabled, hu.closes]
    exact h.close y (hclose y hy)
  · intro y z hy hz
    exact h.close_one y z (hclose y hy) (hclose z hz)

theorem closer_reclose {p : Pc} (h : p.closer = some s) (t : Closing) :
    (p.reclose t).closer = some t := by
  unfold Pc.closer at h
  split at h
  · rfl
  · rfl
  · cases h

/-- **A step of `rpc_chan_close`**: the test lets one in, the store moves it
on, and the close uses the right up. -/
theorem Closings.step (h : Closings σ) (hs : (σ.pc x).closer = some s) (hne : s ≠ .out)
    (hA : Alone σ (.close x)) (hp : σ'.pc = Function.update σ.pc x ((σ.pc x).reclose (σ.closeStep s).2))
    (hc : σ'.chan = (σ.closeStep s).1) : Closings σ' := by
  have hx : (σ'.pc x).closer = some (σ.closeStep s).2 := by
    rw [hp, Function.update_self]
    exact closer_reclose hs _
  have hother : ∀ y, y ≠ x → (σ'.pc y).closer = (σ.pc y).closer := by
    intro y hy
    rw [hp, Function.update_of_ne hy]
  -- the place of an actor other than `x` is the one it had
  have hback : ∀ {y t}, (σ'.pc y).closer = some t → t ≠ (σ.closeStep s).2 →
      y ≠ x ∧ (σ.pc y).closer = some t := by
    intro y t hy ht
    by_cases hyx : y = x
    · subst hyx
      exact absurd (Option.some.inj (hy.symm.trans hx)) ht
    · exact ⟨hyx, by rw [← hother y hyx, hy]⟩
  cases s with
  | test =>
      have hno := hA x rfl hs
      have hch : σ'.chan = σ.chan := hc
      refine ⟨by rw [hch]; exact h.closes, by rw [hch]; exact h.fresh, ?_, ?_, ?_, ?_⟩
      · intro y hy
        rw [hch]
        by_cases hyx : y = x
        · subst hyx
          by_contra hen
          rw [hx, State.closeStep, if_neg hen] at hy
          cases hy
        · exact h.clear y (by rw [← hother y hyx, hy])
      · intro y z hy hz
        by_cases hyx : y = x
        · by_cases hzx : z = x
          · rw [hyx, hzx]
          · exact absurd (by rw [← hother z hzx, hz]) (hno z)
        · exact absurd (by rw [← hother y hyx, hy]) (hno y)
      · intro y hy
        rw [hch]
        have hstep : Closing.close ≠ (σ.closeStep .test).2 := by
          rw [State.closeStep]
          split <;> simp
        exact h.close y (hback hy hstep).2
      · intro y z hy hz
        have hstep : Closing.close ≠ (σ.closeStep .test).2 := by
          rw [State.closeStep]
          split <;> simp
        exact h.close_one y z (hback hy hstep).2 (hback hz hstep).2
  | clear =>
      have hen := h.clear x hs
      have hch : σ'.chan.closes = σ.chan.closes := by rw [hc]; rfl
      have hen' : σ'.chan.enabled = false := by rw [hc]; rfl
      have hclear : ∀ y, (σ'.pc y).closer ≠ some .clear := by
        intro y hy
        obtain ⟨hyx, hy⟩ := hback hy (by simp [State.closeStep])
        exact hyx (h.clear_one y x hy hs)
      have hclose : ∀ y, (σ.pc y).closer ≠ some .close := by
        intro y hy
        rw [(h.close y hy).1] at hen
        cases hen
      refine ⟨by rw [hch]; exact h.closes, ?_, ?_, ?_, ?_, ?_⟩
      · intro e
        rw [hen'] at e
        cases e
      · intro y hy
        exact absurd hy (hclear y)
      · intro y z hy
        exact absurd hy (hclear y)
      · intro y _
        rw [hen', hch]
        exact ⟨rfl, h.fresh hen⟩
      · have hall : ∀ y, (σ'.pc y).closer = some .close → y = x := by
          intro y hy
          by_contra hyx
          exact hclose y (by rw [← hother y hyx, hy])
        intro y z hy hz
        rw [hall y hy, hall z hz]
  | close =>
      obtain ⟨hen, hz⟩ := h.close x hs
      have hch : σ'.chan.closes = 1 := by
        rw [hc, State.closeStep]
        simp only [hz]
      have hen' : σ'.chan.enabled = false := by
        rw [hc, State.closeStep]
        exact hen
      have hclear : ∀ y, (σ.pc y).closer ≠ some .clear := by
        intro y hy
        rw [h.clear y hy] at hen
        cases hen
      have hclose : ∀ y, (σ'.pc y).closer ≠ some .close := by
        intro y hy
        obtain ⟨hyx, hy⟩ := hback hy (by simp [State.closeStep])
        exact hyx (h.close_one y x hy hs)
      refine ⟨hch.le, ?_, ?_, ?_, ?_, ?_⟩
      · intro e
        rw [hen'] at e
        cases e
      · intro y hy
        exact absurd (hback hy (by simp [State.closeStep])).2 (hclear y)
      · intro y z hy
        exact absurd (hback hy (by simp [State.closeStep])).2 (hclear y)
      · intro y hy
        exact absurd hy (hclose y)
      · intro y z hy
        exact absurd hy (hclose y)
  | out => exact absurd rfl hne

/-- The invariant, over whole runs. -/
theorem closings_reachable (hr : ((channelSystem cfg).only Alone).Reachable σ) : Closings σ := by
  refine hr.invariant ?_ ?_
  · rintro σ ⟨bufs, cmds, -, -, rfl⟩
    have hnone : ∀ x s, ((State.initial bufs cmds).pc x).closer ≠ some s := by
      intro x s h
      cases h
    exact ⟨Nat.zero_le _, fun _ => rfl, fun x h => absurd h (hnone x _),
      fun x y h => absurd h (hnone x _), fun x h => absurd h (hnone x _),
      fun x y h => absurd h (hnone x _)⟩
  · intro σ act σ' h he hx
    have hstep := Step.of_exec he.1 hx
    by_cases hact : ∃ x, act = .close x
    · obtain ⟨x, rfl⟩ := hact
      cases hstep with
      | close hs hne => exact h.step hs hne he.2 rfl rfl
      | closeUnlock => exact h.unclosed (.of_move ⟨rfl, rfl⟩ rfl (.inl rfl))
      | closeReturn => exact h.unclosed (.of_move ⟨rfl, rfl⟩ rfl (.inl rfl))
    · exact h.unclosed (hstep.unclosed fun x e => hact ⟨x, e⟩)

/-- **The socket is closed at most once** in every run in which the two
steps of one `rpc_chan_close` are not taken apart by the test of another. -/
theorem closed_at_most_once (hr : ((channelSystem cfg).only Alone).Reachable σ) :
    σ.chan.closes ≤ 1 :=
  (closings_reachable hr).closes

/-- Where only one of them ever closes the channel, nothing is taken apart. -/
theorem steps_alone {as : List Action} (h : (channelSystem cfg).Steps σ as σ')
    (hx : ∀ y, Action.close y ∈ as → y = x) (h₀ : ∀ y, y ≠ x → (σ.pc y).closer ≠ some .clear) :
    ((channelSystem cfg).only Alone).Steps σ as σ' := by
  induction h with
  | nil => exact .nil
  | @cons s t u act as he hex _ ih =>
      have hstep := Step.of_exec he hex
      have hkeep : ∀ y, y ≠ x → (t.pc y).closer ≠ some .clear := by
        intro y hy hclear
        by_cases hact : ∃ z, act = .close z
        · obtain ⟨z, rfl⟩ := hact
          obtain rfl := hx z List.mem_cons_self
          have hsame : (t.pc y).closer = (s.pc y).closer := by
            cases hstep with
            | close => rw [State.setPc_pc, Function.update_of_ne hy]
            | closeUnlock => rw [State.setPc_pc, Function.update_of_ne hy]
            | closeReturn => rw [State.setPc_pc, Function.update_of_ne hy]
          exact h₀ y hy (by rw [← hsame, hclear])
        · rcases (hstep.unclosed fun z e => hact ⟨z, e⟩).closer y with e | e | e
          · exact h₀ y hy (by rw [← e, hclear])
          · rw [hclear] at e; cases e
          · rw [hclear] at e; cases e
      refine .cons ⟨he, ?_⟩ hex (ih (fun y hy => hx y (List.mem_cons_of_mem _ hy)) hkeep)
      rintro z rfl htest y hclear
      obtain rfl := hx z List.mem_cons_self
      by_cases hyz : y = z
      · subst hyz
        rw [htest] at hclear
        cases hclear
      · exact h₀ y hyz hclear

/-- A world's request that fails at its first write. -/
def failedSend : List Action :=
  [.get 0 .request 9 33 48 ⟨0, 0⟩ (List.replicate 16 0) 0, .check 0, .lock 0, .write 0 none]

theorem closed_at_most_once_sender : ∃ σ, ((channelSystem smallCfg).only Alone).Reachable σ ∧
    σ.chan.closes = 1 ∧ σ.chan.closes ≤ 1 := by
  have hrun : (((channelSystem smallCfg).run smallChannel
      (failedSend ++ [.close (.world 0), .close (.world 0), .close (.world 0)])).any
      fun σ : State => decide (σ.chan.closes = 1)) = true := by decide +kernel
  obtain ⟨σ, hsteps, h⟩ := System.Steps.of_run_any hrun
  have halone := steps_alone (x := .world 0) hsteps (by simp [failedSend]) (by simp [smallChannel,
    State.initial, Pc.closer])
  have hr := halone.reachable (.init smallChannel_init)
  exact ⟨σ, hr, of_decide_eq_true h, closed_at_most_once hr⟩

/-- The connection dies under a sender and under the receive thread. Both
tests are made before either store. -/
def closeRace : List Action :=
  failedSend ++ [.recvStart 9, .recvEnd 0, .take 0, .dispatch 0, .put (.worker 0),
    .close (.world 0), .close (.worker 0), .close (.world 0), .close (.worker 0),
    .close (.world 0), .close (.worker 0)]

theorem closed_twice : ¬∀ (cfg : Cfg) (σ : State), (channelSystem cfg).Reachable σ →
    σ.chan.closes ≤ 1 := by
  intro h
  have hrun : (((channelSystem smallCfg).run smallChannel closeRace).any
      fun σ : State => decide (σ.chan.closes = 2)) = true := by decide +kernel
  obtain ⟨σ, hsteps, hσ⟩ := System.Steps.of_run_any hrun
  have hle := h smallCfg σ (hsteps.reachable (.init smallChannel_init))
  have htwo := of_decide_eq_true hσ
  omega

end Mpp

end VmwareProto
