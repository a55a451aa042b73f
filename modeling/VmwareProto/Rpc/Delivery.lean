import VmwareProto.Rpc.Bounds
import VmwareProto.Rpc.Channel
/-!
# One message over the wire

A message whose lengths lie within both ends' buffers arrives whole:
however the stream is cut into reads, a call of `_rpc_receive` that gets no
error takes exactly the message's bytes and returns its header and its
payload.
-/

namespace VmwareProto

namespace Rpc

/-- The lengths of a message lie within the sender's and the receiver's
buffers. -/
structure Msg.Framed (cfg : RecvCfg) (m : Msg) : Prop where
  len_ge : hdrSize ≤ m.hdr.len
  len_le : m.hdr.len ≤ cfg.msgsz
  plen_le : m.hdr.plen ≤ cfg.dataBuf
  inBuffers : m.InBuffers

/-- What `_rpc_receive` makes of a message. -/
def Msg.received (m : Msg) : Recv :=
  ⟨.done m.hdr, m.hdrBytes, if m.hdr.plen = 0 then none else some m.payloadBytes⟩

/-- No read ends the connection. -/
def NoError (_ : RecvOn) : RecvAction → Prop
  | .other r => r = .again
  | _ => True

variable {cfg : RecvCfg} {m : Msg} {rest : List Byte} {σ σ' : RecvOn} {h : MsgHdr} {act : RecvAction}

namespace Msg

theorem Framed.length_hdrBytes (hm : m.Framed cfg) : m.hdrBytes.length = m.hdr.len := by
  have := hm.inBuffers.1
  simp only [hdrBytes, List.length_take, List.length_append, MsgHdr.length_encode]
  omega

theorem Framed.length_payloadBytes (hm : m.Framed cfg) : m.payloadBytes.length = m.hdr.plen := by
  have := hm.inBuffers.2
  simp only [payloadBytes, List.length_take]
  omega

theorem Framed.length_wire (hm : m.Framed cfg) : m.wire.length = m.hdr.len + m.hdr.plen := by
  rw [wire, List.length_append, hm.length_hdrBytes, hm.length_payloadBytes]

/-- The header can be read off the wire. -/
theorem Framed.decode_wire (hm : m.Framed cfg) (rest : List Byte) :
    MsgHdr.decode (m.wire ++ rest) = m.hdr := by
  have hlen : hdrSize ≤ m.hdrBytes.length := by rw [hm.length_hdrBytes]; exact hm.len_ge
  rw [wire, List.append_assoc, MsgHdr.decode_append hlen, hdrBytes, MsgHdr.decode_take hm.len_ge,
    MsgHdr.decode_encode]

theorem Framed.le_msgBuf (hm : m.Framed cfg) : m.hdr.len ≤ cfg.msgBuf := by
  have := hm.len_le
  rw [cfg.msgBuf_eq]
  omega

end Msg

/-- A header that a call works with is the message's. -/
theorem Recv.Header.eq_hdr (hm : m.Framed cfg) (hσ : σ.Ok cfg (m.wire ++ rest))
    (hh : Recv.Header cfg σ.recv.stored h) : h = m.hdr := by
  rw [hh.eq, ← hm.decode_wire rest, ← hσ.split, Recv.taken, List.append_assoc,
    MsgHdr.decode_append hh.size]

/-- **A returned message is the one that was sent**, and what follows it on
the stream is left there. -/
theorem RecvOn.Ok.eq_received (hm : m.Framed cfg) (hσ : σ.Ok cfg (m.wire ++ rest))
    (hd : σ.recv.pc = .done h) : σ = ⟨m.received, rest⟩ := by
  obtain ⟨⟨pc, st, p⟩, rest'⟩ := σ
  simp only at hd
  subst hd
  obtain ⟨hh, hst, hle, hp⟩ := hσ.recv
  obtain rfl := hh.eq_hdr hm hσ
  have hsplit := hσ.split
  simp only at hst hp
  have hhdr : st = m.hdrBytes ∧ p.getD [] ++ rest' = m.payloadBytes ++ rest := by
    simp only [Recv.taken, Msg.wire, List.append_assoc] at hsplit
    exact List.append_inj hsplit (by rw [hst, hm.length_hdrBytes])
  obtain ⟨rfl, hpay⟩ := hhdr
  have hlen := hm.length_payloadBytes
  rcases hp with ⟨hz, rfl⟩ | ⟨q, rfl, hpos, hq⟩
  · have hnil : m.payloadBytes = [] := List.length_eq_zero_iff.1 (hlen.trans hz)
    rw [hnil] at hpay
    simp only [Option.getD_none, List.nil_append] at hpay
    rw [Msg.received, if_pos hz, hpay]
  · obtain ⟨rfl, rfl⟩ := List.append_inj hpay (by rw [Option.getD_some, hq, hlen])
    rw [Msg.received, if_neg (by omega)]

/-! ## Nothing goes wrong on the way -/

theorem Recv.afterBody_ne (r : Recv) (hp : h.plen ≤ cfg.dataBuf) :
    (r.afterBody cfg h).pc ≠ .errout := by
  unfold Recv.afterBody
  split
  · rw [if_neg (by omega)]
    simp
  · simp

/-- A read of some more of the message. -/
theorem RecvOn.Ok.read (hm : m.Framed cfg) (hσ : σ.Ok cfg (m.wire ++ rest))
    (hpc : σ.recv.pc ≠ .errout) {k : ℕ} (hk : 0 < k) (hw : k ≤ σ.recv.wanted)
    (hlen : k ≤ σ.rest.length) :
    ∃ r, σ.recv.read cfg (.bytes (σ.rest.take k)) = some r ∧ r.pc ≠ .errout ∧
      RecvOn.Ok cfg (m.wire ++ rest) ⟨r, σ.rest.drop k⟩ := by
  have htake : (σ.rest.take k).length = k := by simpa using hlen
  -- what has been read is the beginning of the message
  have hdec : ∀ st, st = σ.recv.stored ++ σ.rest.take k → σ.recv.payload = none →
      hdrSize ≤ st.length → MsgHdr.decode st = m.hdr := fun st hst hp hsize => by
    have hsplit := hσ.split
    rw [Recv.taken, hp, Option.getD_none, List.append_nil, ← List.take_append_drop k σ.rest,
      ← List.append_assoc, ← hst] at hsplit
    rw [← hm.decode_wire rest, ← hsplit, MsgHdr.decode_append hsize]
  have hread := Recv.read_ok hσ.recv (by omega : 0 < (σ.rest.take k).length) (by omega)
  obtain ⟨⟨pc, st, p⟩, rest'⟩ := σ
  simp only at hpc hdec hlen htake hread ⊢
  rcases hread with ⟨rfl, hsize, hlt, -⟩ | ⟨r, hr, hok⟩
  · obtain ⟨-, rfl⟩ := hσ.recv
    rw [hdec _ rfl rfl (by rw [hsize])] at hlt
    exact absurd hm.len_ge (by omega)
  · refine ⟨r, hr, ?_, hok, ?_⟩
    · cases pc with
      | header =>
          obtain ⟨-, rfl⟩ := hσ.recv
          simp only [Recv.read] at hr
          split at hr
          · rw [← Option.some.inj hr]
            simp
          · rename_i hge
            have he := hdec _ rfl rfl (Nat.not_lt.1 hge)
            have hbuf := hm.le_msgBuf
            have hge' := hm.len_ge
            simp only [Recv.afterHeader, he] at hr
            rw [if_neg (by omega), if_neg (by omega)] at hr
            split at hr
            · rw [← Option.some.inj hr]
              simp
            · rw [← Option.some.inj hr]
              exact Recv.afterBody_ne _ hm.plen_le
      | body h =>
          obtain ⟨hh, -, -⟩ := hσ.recv
          obtain rfl := hh.eq_hdr hm hσ
          simp only [Recv.read] at hr
          split at hr
          · rw [← Option.some.inj hr]
            simp
          · rw [← Option.some.inj hr]
            exact Recv.afterBody_ne _ hm.plen_le
      | payload h =>
          rw [← Option.some.inj hr]
          simp only
          split <;> simp
      | databuf h => cases hr
      | done h => cases hr
      | errout => exact absurd rfl hpc
    · have htaken := Recv.taken_read hσ.recv hr
      simp only [htaken, List.append_assoc, List.take_append_drop]
      exact hσ.split

/-- **The step lemma**: while the transport makes no error, every step
returns and none leads to the error label. -/
theorem whole_step (hm : m.Framed cfg) (hσ : σ.Ok cfg (m.wire ++ rest))
    (hpc : σ.recv.pc ≠ .errout) (he : act.Enabled σ) (hn : NoError σ act) :
    ∃ σ', act.exec cfg σ = some σ' ∧ σ'.Ok cfg (m.wire ++ rest) ∧ σ'.recv.pc ≠ .errout := by
  cases act with
  | take k =>
      obtain ⟨hk, hw, hlen⟩ := he
      obtain ⟨r, hr, hne, hok⟩ := hσ.read hm hpc hk hw hlen
      exact ⟨_, by simp only [RecvAction.exec, hr]; rfl, hok, hne⟩
  | other r =>
      obtain rfl : r = .again := hn
      exact ⟨σ, rfl, hσ, hpc⟩
  | databuf =>
      obtain ⟨h, hd⟩ := he
      obtain ⟨r, hr, hok, htaken⟩ := Recv.getData_ok hσ.recv hd
      refine ⟨⟨r, σ.rest⟩, by simp only [RecvAction.exec, hr]; rfl, ⟨hok, ?_⟩, ?_⟩
      · simp only [htaken]
        exact hσ.split
      · unfold Recv.getData at hr
        rw [hd] at hr
        rw [← Option.some.inj hr]
        simp

/-- **No fault, no error**, however the stream is cut. -/
theorem whole_inductive (hm : m.Framed cfg) (rest : List Byte) :
    ((receiveSystem cfg (m.wire ++ rest)).only NoError).Inductive
      fun σ => σ.Ok cfg (m.wire ++ rest) ∧ σ.recv.pc ≠ .errout where
  init σ hσ := by
    obtain rfl := hσ
    exact ⟨receive_ok (.init rfl), by simp [Recv.start]⟩
  step σ act hσ he := by
    obtain ⟨σ', hx, hok, hne⟩ := whole_step hm hσ.1 hσ.2 he.1 he.2
    exact ⟨σ', hx, hok, hne⟩

/-- What is still to come, in steps that take as much as they can. -/
def RecvOn.todo (σ : RecvOn) : ℕ :=
  2 * σ.rest.length + match σ.recv.pc with
    | .databuf _ => 1
    | _ => 0

/-- The bytes a read asks for are there. -/
theorem RecvOn.Ok.wanted_le (hm : m.Framed cfg) (hσ : σ.Ok cfg (m.wire ++ rest)) :
    σ.recv.wanted ≤ σ.rest.length := by
  have hlen := congrArg List.length hσ.split
  simp only [Recv.taken, List.length_append, hm.length_wire] at hlen
  have hge := hm.len_ge
  obtain ⟨⟨pc, st, p⟩, rest'⟩ := σ
  cases pc with
  | header =>
      obtain ⟨hst, rfl⟩ := hσ.recv
      simp only [Recv.wanted, Option.getD_none, List.length_nil] at hlen hst ⊢
      omega
  | body h =>
      obtain ⟨hh, hst, rfl⟩ := hσ.recv
      obtain rfl := hh.eq_hdr hm hσ
      simp only [Recv.wanted, Option.getD_none, List.length_nil] at hlen hst ⊢
      omega
  | payload h =>
      obtain ⟨hh, hst, -, -, q, hq, hlt⟩ := hσ.recv
      obtain rfl := hh.eq_hdr hm hσ
      obtain rfl : p = some q := hq
      simp only [Recv.wanted, Option.getD_some] at hlen hst ⊢
      omega
  | databuf h => exact Nat.zero_le _
  | done h => exact Nat.zero_le _
  | errout => exact Nat.zero_le _

/-- A call that has not returned is in a read or waits for a buffer. -/
theorem Recv.Ok.reading_or {r : Recv} (hr : r.Ok cfg) (hpc : r.pc ≠ .errout)
    (hnd : ∀ h, r.pc ≠ .done h) : (0 < r.wanted ∧ ∀ h, r.pc ≠ .databuf h) ∨
      ∃ h, r.pc = .databuf h := by
  obtain ⟨pc, st, p⟩ := r
  cases pc with
  | header =>
      obtain ⟨hst, -⟩ := hr
      simp only [wanted] at hst ⊢
      exact .inl ⟨by omega, by simp⟩
  | body h =>
      obtain ⟨-, hst, -⟩ := hr
      simp only [wanted] at hst ⊢
      exact .inl ⟨by omega, by simp⟩
  | payload h =>
      obtain ⟨-, -, -, -, q, hq, hlt⟩ := hr
      obtain rfl : p = some q := hq
      simp only [wanted, Option.getD_some]
      exact .inl ⟨by omega, by simp⟩
  | databuf h => exact .inr ⟨h, rfl⟩
  | done h => exact absurd rfl (hnd h)
  | errout => exact absurd rfl hpc

/-- A call that has not returned can go on, and has less to do then. -/
theorem exists_step (hm : m.Framed cfg) (hσ : σ.Ok cfg (m.wire ++ rest))
    (hpc : σ.recv.pc ≠ .errout) (hnd : ∀ h, σ.recv.pc ≠ .done h) :
    ∃ act σ', act.Enabled σ ∧ NoError σ act ∧ act.exec cfg σ = some σ' ∧ σ'.todo < σ.todo := by
  rcases hσ.recv.reading_or hpc hnd with ⟨hw, hne⟩ | ⟨h, hd⟩
  · have hle := hσ.wanted_le hm
    obtain ⟨r, hr, -⟩ := hσ.read hm hpc hw le_rfl hle
    refine ⟨.take σ.recv.wanted, ⟨r, σ.rest.drop σ.recv.wanted⟩, ⟨hw, le_rfl, hle⟩, trivial,
      by simp only [RecvAction.exec, hr]; rfl, ?_⟩
    have h₀ : σ.todo = 2 * σ.rest.length := by
      rw [RecvOn.todo]
      split
      · rename_i h hd
        exact absurd hd (hne h)
      · rfl
    have h₁ : RecvOn.todo ⟨r, σ.rest.drop σ.recv.wanted⟩ ≤
        2 * (σ.rest.length - σ.recv.wanted) + 1 := by
      rw [RecvOn.todo, List.length_drop]
      split <;> omega
    omega
  · obtain ⟨r, hr, -⟩ := Recv.getData_ok hσ.recv hd
    refine ⟨.databuf, ⟨r, σ.rest⟩, ⟨h, hd⟩, trivial, by simp only [RecvAction.exec, hr]; rfl, ?_⟩
    rw [Recv.getData, hd] at hr
    rw [← Option.some.inj hr, RecvOn.todo, RecvOn.todo, hd]
    simp

/-- **Every message arrives**: from any point of an error-free call, the
call can be run to its return with the message. -/
theorem exists_received (bs : List Byte) (hm : m.Framed cfg) (hok : σ.Ok cfg (m.wire ++ rest))
    (hpc : σ.recv.pc ≠ .errout) :
    ∃ as, ((receiveSystem cfg bs).only NoError).Steps σ as ⟨m.received, rest⟩ := by
  induction hn : σ.todo using Nat.strong_induction_on generalizing σ with
  | _ n ih =>
      by_cases hd : ∃ h, σ.recv.pc = .done h
      · obtain ⟨h, hd⟩ := hd
        rw [hok.eq_received hm hd]
        exact ⟨[], .nil⟩
      · obtain ⟨act, σ', he, hne, hx, hlt⟩ := exists_step hm hok hpc (not_exists.1 hd)
        obtain ⟨σ'', hx', hok', hpc'⟩ := whole_step hm hok hpc he hne
        obtain rfl := Option.some.inj (hx.symm.trans hx')
        obtain ⟨as, has⟩ := ih σ'.todo (hn ▸ hlt) hok' hpc' rfl
        exact ⟨act :: as, .cons ⟨he, hne⟩ hx has⟩

/-- **Delivery.** Of a stream that begins with a message, a call of
`_rpc_receive` without an error never faults, can always go on until it
returns, and returns that message and nothing else. -/
theorem delivery (hm : m.Framed cfg)
    (hr : ((receiveSystem cfg (m.wire ++ rest)).only NoError).Reachable σ) :
    (σ.recv.finished = true → σ = ⟨m.received, rest⟩) ∧
      ∃ as, ((receiveSystem cfg (m.wire ++ rest)).only NoError).Steps σ as ⟨m.received, rest⟩ := by
  obtain ⟨hok, hpc⟩ := (whole_inductive hm rest).reachable hr
  refine ⟨fun hf => ?_, exists_received _ hm hok hpc⟩
  unfold Recv.finished at hf
  split at hf
  · rename_i h hd
    exact hok.eq_received hm hd
  · rename_i hd
    exact absurd hd hpc
  · cases hf

end Rpc

end VmwareProto
