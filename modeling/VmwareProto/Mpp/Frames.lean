import VmwareProto.Mpp.Steps
/-!
# What the pool and the hash leave alone

The functions on the pool and the hash touch neither the flag nor the
socket nor the lock, and of the messages they change at most the one they
are called with.
-/

namespace VmwareProto

namespace Mpp

namespace Channel

/-- The same flag, socket and lock. -/
structure Keeps (c c' : Channel) : Prop where
  enabled : c'.enabled = c.enabled
  closes : c'.closes = c.closes
  lock : c'.lock = c.lock

theorem Keeps.trans {c c' c'' : Channel} (h : c.Keeps c') (h' : c'.Keeps c'') : c.Keeps c'' :=
  ⟨h'.enabled.trans h.enabled, h'.closes.trans h.closes, h'.lock.trans h.lock⟩

variable {cfg : Cfg} {c c' : Channel} {a b alloc : Addr} {m : Msg} {r : Bool}

@[simp] theorem setMsg_msgs : (c.setMsg a m).msgs = Function.update c.msgs a (some m) := rfl
@[simp] theorem setMsg_links : (c.setMsg a m).links = c.links := rfl
@[simp] theorem setMsg_count : (c.setMsg a m).count = c.count := rfl
@[simp] theorem setMsg_lock : (c.setMsg a m).lock = c.lock := rfl
@[simp] theorem setMsg_enabled : (c.setMsg a m).enabled = c.enabled := rfl
@[simp] theorem setMsg_closes : (c.setMsg a m).closes = c.closes := rfl
@[simp] theorem setMsg_seqid : (c.setMsg a m).seqid = c.seqid := rfl
@[simp] theorem setMsg_live : (c.setMsg a m).live = c.live := rfl
@[simp] theorem hashAdd_msgs (i : ℕ) : (c.hashAdd a i).msgs = c.msgs := rfl
@[simp] theorem hashAdd_lock (i : ℕ) : (c.hashAdd a i).lock = c.lock := rfl

theorem keeps_setMsg : c.Keeps (c.setMsg a m) := ⟨rfl, rfl, rfl⟩

theorem poolGet_keeps (h : c.poolGet cfg r alloc = some (c', a)) :
    c.Keeps c' ∧ c'.msgs = c.msgs ∧ c'.seqid = c.seqid ∧ c'.count = c.count := by
  unfold poolGet at h
  split at h
  · split at h
    · cases h
    · split at h
      · cases h
      · obtain ⟨rfl, -⟩ := Prod.mk.inj (Option.some.inj h)
        exact ⟨⟨rfl, rfl, rfl⟩, rfl, rfl, rfl⟩
  · split at h
    · obtain ⟨rfl, -⟩ := Prod.mk.inj (Option.some.inj h)
      exact ⟨⟨rfl, rfl, rfl⟩, rfl, rfl, rfl⟩
    · cases h

theorem poolPut_keeps (h : c.poolPut cfg a = some c') :
    c.Keeps c' ∧ c'.msgs = Function.update c.msgs a none ∧ c'.count = c.count := by
  simp only [poolPut] at h
  split at h
  · rw [← Option.some.inj h]
    exact ⟨⟨rfl, rfl, rfl⟩, rfl, rfl⟩
  · split at h
    · cases h
    · rw [← Option.some.inj h]
      exact ⟨⟨rfl, rfl, rfl⟩, rfl, rfl⟩

theorem hashRem_keeps (h : c.hashRem a = some c') : c.Keeps c' ∧ c'.msgs = c.msgs := by
  simp only [hashRem] at h
  split at h
  · split at h
    · cases h
    · rw [← Option.some.inj h]
      exact ⟨⟨rfl, rfl, rfl⟩, rfl⟩
  · split at h
    · cases h
    · rw [← Option.some.inj h]
      exact ⟨⟨rfl, rfl, rfl⟩, rfl⟩

/-- The message `rpc_msg_get` returns, in a buffer of the pool. -/
theorem msgGet_cases {x : Actor} {msgtype msglen : ℕ} {pad : HdrPad} {body : List Byte}
    (h : c.msgGet cfg x alloc msgtype msglen pad body = some (c', a)) :
    ∃ c₁, c.poolGet cfg false alloc = some (c₁, a) ∧ ∃ m : Msg, m.use = .held x ∧ m.resp = none ∧
      c' = { c₁ with links := c₁.links.init (.elem a), seqid := c₁.seqid + 1 }.setMsg a m := by
  simp only [msgGet, Option.bind_eq_bind, Option.bind_eq_some_iff] at h
  obtain ⟨⟨c₁, a₁⟩, hget, h⟩ := h
  obtain ⟨rfl, rfl⟩ := Prod.mk.inj (Option.some.inj h)
  exact ⟨c₁, hget, _, rfl, rfl, rfl⟩

theorem msgGet_keeps {x : Actor} {msgtype msglen : ℕ} {pad : HdrPad} {body : List Byte}
    (h : c.msgGet cfg x alloc msgtype msglen pad body = some (c', a)) : c.Keeps c' := by
  obtain ⟨c₁, hget, m, -, -, rfl⟩ := msgGet_cases h
  obtain ⟨hk, -⟩ := poolGet_keeps hget
  exact ⟨hk.enabled, hk.closes, hk.lock⟩

/-- The first half of a put: the response is gone, and the message no longer
has one. -/
theorem putResp_cases (h : c.putResp cfg a = some c') : ∃ m b r c₁, c.msgs a = some m ∧
    m.resp = some b ∧ c.msgs b = some r ∧ r.resp = none ∧ c.poolPut cfg b = some c₁ ∧
    c' = c₁.setMsg a { m with resp := none } := by
  simp only [putResp, Option.bind_eq_bind, Option.bind_eq_some_iff] at h
  obtain ⟨m, hm, b, hb, r, hr, h⟩ := h
  split at h
  · cases h
  · rename_i hn
    obtain ⟨c₁, hc, h⟩ := Option.bind_eq_some_iff.1 h
    exact ⟨m, b, r, c₁, hm, hb, hr, not_not.1 hn, hc, (Option.some.inj h).symm⟩

theorem putResp_keeps (h : c.putResp cfg a = some c') : c.Keeps c' := by
  obtain ⟨m, b, r, c₁, -, -, -, -, hc, rfl⟩ := putResp_cases h
  exact (poolPut_keeps hc).1.trans keeps_setMsg

end Channel

@[simp] theorem State.setPc_pc {σ : State} {x : Actor} {p : Pc} :
    (σ.setPc x p).pc = Function.update σ.pc x p := rfl

end Mpp

end VmwareProto
