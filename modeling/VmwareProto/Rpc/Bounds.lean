import VmwareProto.Rpc.ReceiveSpec
import Mathlib.Tactic.ByContra
import Mathlib.Tactic.Set
/-!
# Where the libtask endpoint stores what it receives

The check in `_rpc_receive` compares the wire length with the size of the
whole message buffer, of which the header only has the part behind
`hdrOffset`. A header that claims more than `msgsz` but no more than the
buffer size passes it, and what then arrives is stored beyond the end.
-/

namespace VmwareProto

namespace Rpc

variable {cfg : RecvCfg} {bs : List Byte} {σ : RecvOn}

/-- What every state of a call keeps: the program point's own invariant,
and that taken and remaining bytes make up the stream. -/
structure RecvOn.Ok (cfg : RecvCfg) (bs : List Byte) (σ : RecvOn) : Prop where
  recv : σ.recv.Ok cfg
  split : σ.recv.taken ++ σ.rest = bs

theorem receive_ok (h : (receiveSystem cfg bs).Reachable σ) : σ.Ok cfg bs := by
  induction h with
  | @init s h =>
      rw [show s = _ from h]
      exact ⟨Recv.ok_start true, rfl⟩
  | @step s s' a _ he hx ih =>
      cases a with
      | take k =>
          obtain ⟨hk, hw, hlen⟩ := he
          obtain ⟨r', hr', rfl⟩ := Option.map_eq_some_iff.1 hx
          have htake : (s.rest.take k).length = k := by simpa using hlen
          rcases Recv.read_ok ih.recv (by omega) (by omega : (s.rest.take k).length ≤ s.recv.wanted)
            with ⟨-, -, -, hnone⟩ | ⟨r'', hr'', hok⟩
          · rw [hr'] at hnone; cases hnone
          · obtain rfl : r' = r'' := by simpa [hr'] using hr''
            refine ⟨hok, ?_⟩
            simp only [Recv.taken_read ih.recv hr', List.append_assoc, List.take_append_drop,
              ih.split]
      | other r =>
          obtain ⟨r', hr', rfl⟩ := Option.map_eq_some_iff.1 hx
          cases r with
          | bytes cs => exact absurd rfl (he.2 cs)
          | again => obtain rfl : s.recv = r' := Option.some.inj hr'; exact ih
          | closed => rw [← Option.some.inj hr']; exact ⟨Recv.errout_ok ih.recv, ih.split⟩
          | error => rw [← Option.some.inj hr']; exact ⟨Recv.errout_ok ih.recv, ih.split⟩
      | databuf =>
          obtain ⟨h, hpc⟩ := he
          obtain ⟨r', hr', rfl⟩ := Option.map_eq_some_iff.1 hx
          obtain ⟨r'', hr'', hok, htaken⟩ := Recv.getData_ok ih.recv hpc
          obtain rfl : r' = r'' := by simpa [hr'] using hr''
          exact ⟨hok, by rw [← ih.split]; simp only [htaken]⟩

/-- What may arrive without being stored beyond the message buffer: a
header within `msgsz`, one the check rejects, or too few bytes to get
there. -/
def Fits (cfg : RecvCfg) (bs : List Byte) : Prop :=
  (MsgHdr.decode bs).len ≤ cfg.msgsz ∨ cfg.msgBuf < (MsgHdr.decode bs).len ∨ bs.length ≤ cfg.msgsz

theorem stored_le_of_fits (hfit : Fits cfg bs) (hr : (receiveSystem cfg bs).Reachable σ) :
    hdrOffset + σ.recv.stored.length ≤ cfg.msgBuf := by
  have hok := receive_ok hr
  have hcfg := cfg.hdr_le
  have hpre : σ.recv.stored <+: bs := by
    rw [← hok.split, Recv.taken, List.append_assoc]
    exact List.prefix_append _ _
  rw [cfg.msgBuf_eq]
  rcases hok.recv.stored_le with hle | ⟨hh, hle⟩
  · omega
  · have hdec : MsgHdr.decode bs = MsgHdr.decode σ.recv.stored := by
      obtain ⟨cs, rfl⟩ := hpre
      exact MsgHdr.decode_append hh.size
    have hlen := hpre.length_le
    have hbuf := hh.len_le
    rw [Fits, hdec] at hfit
    rcases hfit with h | h | h <;> omega

/-- Two reads are enough to get beyond the buffer. -/
theorem overrun_of_not_fits (hfit : ¬ Fits cfg bs) :
    ∃ σ, (receiveSystem cfg bs).Reachable σ ∧ cfg.msgBuf < hdrOffset + σ.recv.stored.length := by
  have hcfg := cfg.hdr_le
  simp only [Fits, not_or, not_le, not_lt] at hfit
  obtain ⟨h₁, h₂, h₃⟩ := hfit
  have hlen₁ : (bs.take hdrSize).length = hdrSize := by
    rw [List.length_take]; omega
  have hdec : MsgHdr.decode (bs.take hdrSize) = MsgHdr.decode bs := MsgHdr.decode_take le_rfl
  set h := MsgHdr.decode bs with hh
  -- the bare header
  have hexec₁ : (receiveSystem cfg bs).exec ⟨.start true, bs⟩ (.take hdrSize) =
      some ⟨⟨.body h, bs.take hdrSize, none⟩, bs.drop hdrSize⟩ := by
    simp only [receiveSystem, RecvAction.exec, Recv.read, Recv.start, if_true, List.nil_append,
      hlen₁, lt_irrefl, if_false, Recv.afterHeader, hdec]
    rw [if_neg (by omega), if_neg (by omega), if_pos (by omega)]
    rfl
  have hen₁ : (receiveSystem cfg bs).enabled ⟨.start true, bs⟩ (.take hdrSize) :=
    ⟨by decide, by simp [Recv.wanted, Recv.start], by simp only; omega⟩
  have hreach₁ := System.Reachable.step (.init rfl) hen₁ hexec₁
  -- as much of the rest as is there
  set k := min h.len bs.length - hdrSize with hk
  have hlen₂ : ((bs.drop hdrSize).take k).length = k := by
    rw [List.length_take, List.length_drop]; omega
  have hen : (receiveSystem cfg bs).enabled ⟨⟨.body h, bs.take hdrSize, none⟩, bs.drop hdrSize⟩
      (.take k) := by
    refine ⟨by omega, ?_, ?_⟩
    · simp only [Recv.wanted, hlen₁]; omega
    · simp only [List.length_drop]; omega
  have hex : ∃ r', Recv.read cfg ⟨.body h, bs.take hdrSize, none⟩
      (.bytes ((bs.drop hdrSize).take k)) = some r' ∧
      r'.stored = bs.take hdrSize ++ (bs.drop hdrSize).take k := by
    simp only [Recv.read]
    split
    · exact ⟨_, rfl, rfl⟩
    · refine ⟨_, rfl, ?_⟩
      simp only [Recv.afterBody]
      split <;> try split
      all_goals rfl
  obtain ⟨r', hr', hst⟩ := hex
  refine ⟨⟨r', (bs.drop hdrSize).drop k⟩, hreach₁.step hen ?_, ?_⟩
  · simp only [receiveSystem, RecvAction.exec, hr', Option.map_some]
  · rw [cfg.msgBuf_eq, hst, List.length_append, hlen₁, hlen₂]
    omega

/-- **The message buffer is respected exactly when** the arriving header
fits. -/
theorem receive_in_bounds_iff : (∀ σ, (receiveSystem cfg bs).Reachable σ →
    hdrOffset + σ.recv.stored.length ≤ cfg.msgBuf) ↔ Fits cfg bs := by
  refine ⟨fun h => ?_, fun h _ hr => stored_le_of_fits h hr⟩
  by_contra hfit
  obtain ⟨σ, hr, hlt⟩ := overrun_of_not_fits hfit
  have := h σ hr
  omega

end Rpc

end VmwareProto
