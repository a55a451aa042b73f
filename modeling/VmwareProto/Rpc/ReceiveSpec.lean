import VmwareProto.Rpc.Receive
import Mathlib.Order.MinMax
import Mathlib.Data.Nat.Basic
import Mathlib.Order.Nat
/-!
# What a call of `_rpc_receive` holds

`Recv.Ok`: at each of its program points the call has stored exactly the
bytes that point implies, and the header it works with is the one in the
buffer. One lemma says what a read of the right size does; the bounds on
what is stored follow from it.
-/

namespace VmwareProto

namespace Rpc

namespace Recv

variable {cfg : RecvCfg} {r r' : Recv} {h : MsgHdr} {bs : List Byte}

/-- The header in the buffer, complete and accepted. -/
structure Header (cfg : RecvCfg) (st : List Byte) (h : MsgHdr) : Prop where
  eq : h = MsgHdr.decode st
  size : hdrSize ≤ st.length
  le_len : hdrSize ≤ h.len
  len_le : h.len ≤ cfg.msgBuf

/-- What holds at each program point. -/
def Ok (cfg : RecvCfg) (r : Recv) : Prop :=
  match r.pc with
  | .header => r.stored.length < hdrSize ∧ r.payload = none
  | .body h => Header cfg r.stored h ∧ r.stored.length < h.len ∧ r.payload = none
  | .databuf h => Header cfg r.stored h ∧ r.stored.length = h.len ∧ 0 < h.plen ∧ h.plen ≤ cfg.dataBuf ∧
      r.payload = none
  | .payload h => Header cfg r.stored h ∧ r.stored.length = h.len ∧ 0 < h.plen ∧ h.plen ≤ cfg.dataBuf ∧
      ∃ p, r.payload = some p ∧ p.length < h.plen
  | .done h => Header cfg r.stored h ∧ r.stored.length = h.len ∧ h.plen ≤ cfg.dataBuf ∧
      ((h.plen = 0 ∧ r.payload = none) ∨ ∃ p, r.payload = some p ∧ 0 < h.plen ∧ p.length = h.plen)
  | .errout =>
      (r.stored.length ≤ hdrSize ∨
        Header cfg r.stored (MsgHdr.decode r.stored) ∧ r.stored.length ≤ (MsgHdr.decode r.stored).len) ∧
      ∀ p, r.payload = some p → p.length ≤ cfg.dataBuf

theorem ok_start (enabled : Bool) : (start enabled).Ok cfg := by
  cases enabled <;> simp [start, Ok, hdrSize]

/-- **What a call has stored** in the message buffer: the bare header, or
a part of an accepted one. -/
theorem Ok.stored_le (hr : r.Ok cfg) :
    r.stored.length ≤ hdrSize ∨
      Header cfg r.stored (MsgHdr.decode r.stored) ∧ r.stored.length ≤ (MsgHdr.decode r.stored).len := by
  obtain ⟨pc, st, p⟩ := r
  cases pc with
  | header => exact .inl hr.1.le
  | body h => obtain ⟨hh, hlt, -⟩ := hr; exact .inr (by rw [← hh.eq]; exact ⟨hh, hlt.le⟩)
  | databuf h => obtain ⟨hh, hlt, -⟩ := hr; exact .inr (by rw [← hh.eq]; exact ⟨hh, hlt.le⟩)
  | payload h => obtain ⟨hh, hlt, -⟩ := hr; exact .inr (by rw [← hh.eq]; exact ⟨hh, hlt.le⟩)
  | done h => obtain ⟨hh, hlt, -⟩ := hr; exact .inr (by rw [← hh.eq]; exact ⟨hh, hlt.le⟩)
  | errout => exact hr.1

/-- **The payload fits its data buffer**, always. -/
theorem Ok.payload_le (hr : r.Ok cfg) {p : List Byte} (hp : r.payload = some p) :
    p.length ≤ cfg.dataBuf := by
  obtain ⟨pc, st, q⟩ := r
  simp only at hp
  subst hp
  cases pc with
  | header => simp [Ok] at hr
  | body h => simp [Ok] at hr
  | databuf h => simp [Ok] at hr
  | payload h =>
      obtain ⟨-, -, -, hle, q, hq, hlt⟩ := hr
      obtain rfl : p = q := by simpa using hq
      exact hlt.le.trans hle
  | done h =>
      obtain ⟨-, -, hle, ⟨-, hq⟩ | ⟨q, hq, -, he⟩⟩ := hr
      · simp at hq
      · obtain rfl : p = q := by simpa using hq
        exact he.le.trans hle
  | errout => exact hr.2 p rfl

/-- The complete header, checked. -/
theorem afterBody_ok (hh : Header cfg r.stored h) (hlen : r.stored.length = h.len)
    (hp : r.payload = none) : (afterBody cfg h r).Ok cfg := by
  obtain ⟨pc, st, p⟩ := r
  simp only at hp
  subst hp
  unfold afterBody
  split
  · split
    · have he : h = MsgHdr.decode st := hh.eq
      refine ⟨.inr ?_, by simp⟩
      simp only
      rw [← he]
      exact ⟨hh, hlen.le⟩
    · exact ⟨hh, hlen, by omega, by omega, rfl⟩
  · exact ⟨hh, hlen, by omega, .inl ⟨by omega, rfl⟩⟩

/-- **The bare header, checked**: rejected when it claims more than the
buffer, a failed assertion when it claims less than itself, and otherwise
taken. -/
theorem afterHeader_cases (hlen : r.stored.length = hdrSize) (hp : r.payload = none) :
    (cfg.msgBuf < (MsgHdr.decode r.stored).len ∧ afterHeader cfg r = some { r with pc := .errout }) ∨
    ((MsgHdr.decode r.stored).len < hdrSize ∧ afterHeader cfg r = none) ∨
    (hdrSize ≤ (MsgHdr.decode r.stored).len ∧ (MsgHdr.decode r.stored).len ≤ cfg.msgBuf ∧
      ∃ r', afterHeader cfg r = some r' ∧ r'.Ok cfg ∧ r'.stored = r.stored) := by
  have hcfg : hdrSize ≤ cfg.msgBuf := by
    rw [cfg.msgBuf_eq]; have := cfg.hdr_le; omega
  unfold afterHeader
  simp only
  split
  · rename_i hgt
    exact .inl ⟨hgt, rfl⟩
  · rename_i hle
    split
    · rename_i hlt
      exact .inr (.inl ⟨hlt, rfl⟩)
    · rename_i hge
      refine .inr (.inr ⟨by omega, by omega, ?_⟩)
      have hh : Header cfg r.stored (MsgHdr.decode r.stored) :=
        ⟨rfl, hlen.ge, by omega, by omega⟩
      split
      · rename_i hpos
        exact ⟨_, rfl, ⟨hh, by simp only; omega, hp⟩, rfl⟩
      · refine ⟨_, rfl, afterBody_ok hh (by omega) hp, ?_⟩
        unfold afterBody
        split <;> try split
        all_goals rfl

/-- A read, when it completes nothing and when it does. -/
theorem read_ok (hr : r.Ok cfg) (hpos : 0 < bs.length) (hle : bs.length ≤ r.wanted) :
    (r.pc = .header ∧ (r.stored ++ bs).length = hdrSize ∧
      (MsgHdr.decode (r.stored ++ bs)).len < hdrSize ∧ r.read cfg (.bytes bs) = none) ∨
    ∃ r', r.read cfg (.bytes bs) = some r' ∧ r'.Ok cfg := by
  obtain ⟨pc, st, p⟩ := r
  cases pc with
  | header =>
      obtain ⟨hst, rfl⟩ := hr
      simp only [wanted] at hle hst
      simp only [read]
      split
      · rename_i hlt
        exact .inr ⟨_, rfl, hlt, rfl⟩
      · rename_i hge
        simp only [List.length_append] at hge
        have heq : (st ++ bs).length = hdrSize := by
          rw [List.length_append]; omega
        have hcases := @afterHeader_cases cfg ⟨.header, st ++ bs, none⟩ heq rfl
        rcases hcases with
          ⟨-, h₂⟩ | ⟨h₁, h₂⟩ | ⟨-, -, r', h₂, h₃, -⟩
        · exact .inr ⟨_, h₂, .inl heq.le, by simp⟩
        · exact .inl ⟨trivial, heq, h₁, h₂⟩
        · exact .inr ⟨r', h₂, h₃⟩
  | body h =>
      obtain ⟨hh, hlt, rfl⟩ := hr
      simp only [wanted] at hle hlt
      have hh' : Header cfg (st ++ bs) h :=
        ⟨by rw [hh.eq]; exact (MsgHdr.decode_append hh.size).symm, by
          have := hh.size; simp only [List.length_append] at this ⊢; omega, hh.le_len, hh.len_le⟩
      simp only [read]
      split
      · rename_i hst
        exact .inr ⟨_, rfl, hh', hst, rfl⟩
      · rename_i hst
        refine .inr ⟨_, rfl, afterBody_ok hh' ?_ rfl⟩
        simp only [List.length_append] at hst ⊢
        omega
  | databuf h => exact absurd hle (by simp only [wanted]; omega)
  | payload h =>
      obtain ⟨hh, hlen, h0, hdat, q, hq, hlt⟩ := hr
      obtain rfl : p = some q := hq
      simp only [wanted, Option.getD_some] at hle
      refine .inr ⟨_, rfl, ?_⟩
      simp only [Option.getD_some]
      split
      · rename_i hst
        exact ⟨hh, hlen, h0, hdat, _, rfl, hst⟩
      · rename_i hst
        refine ⟨hh, hlen, hdat, .inr ⟨_, rfl, h0, ?_⟩⟩
        simp only [List.length_append] at hst ⊢
        omega
  | done h => exact absurd hle (by simp only [wanted]; omega)
  | errout => exact absurd hle (by simp only [wanted]; omega)

/-- The bytes a call has taken from the stream. -/
def taken (r : Recv) : List Byte := r.stored ++ r.payload.getD []

theorem taken_afterBody : (afterBody cfg h r).taken = r.taken := by
  unfold afterBody
  split <;> try split
  all_goals rfl

/-- **Nothing is skipped**: a read adds exactly the bytes it returned. -/
theorem taken_read (hr : r.Ok cfg) (hread : r.read cfg (.bytes bs) = some r') :
    r'.taken = r.taken ++ bs := by
  obtain ⟨pc, st, p⟩ := r
  cases pc with
  | header =>
      obtain ⟨-, rfl⟩ := hr
      simp only [read] at hread
      split at hread
      · rw [← Option.some.inj hread]; simp [taken]
      · simp only [afterHeader] at hread
        split at hread
        · rw [← Option.some.inj hread]; simp [taken]
        · split at hread
          · cases hread
          · split at hread
            · rw [← Option.some.inj hread]; simp [taken]
            · rw [← Option.some.inj hread, taken_afterBody]; simp [taken]
  | body h =>
      obtain ⟨-, -, rfl⟩ := hr
      simp only [read] at hread
      split at hread
      · rw [← Option.some.inj hread]; simp [taken]
      · rw [← Option.some.inj hread, taken_afterBody]; simp [taken]
  | payload h =>
      obtain ⟨-, -, -, -, q, hq, -⟩ := hr
      obtain rfl : p = some q := hq
      rw [← Option.some.inj hread]
      simp [taken]
  | databuf h => cases hread
  | done h => cases hread
  | errout => cases hread

/-- The end of the connection, or an error, at any point. -/
theorem errout_ok (hr : r.Ok cfg) : Ok cfg { r with pc := .errout } :=
  ⟨hr.stored_le, fun _ hp => hr.payload_le hp⟩

theorem getData_ok (hr : r.Ok cfg) (hpc : r.pc = .databuf h) :
    ∃ r', r.getData = some r' ∧ r'.Ok cfg ∧ r'.taken = r.taken := by
  obtain ⟨pc, st, p⟩ := r
  simp only at hpc
  subst hpc
  obtain ⟨hh, hlen, h0, hdat, hp⟩ := hr
  exact ⟨_, rfl, ⟨hh, hlen, h0, hdat, [], rfl, h0⟩, by simp only at hp; simp [taken, hp]⟩

end Recv

end Rpc

end VmwareProto
