import VmwareProto.Libtask.Netrw
import VmwareProto.Rpc.Steps
/-!
# Payloads of no bytes

`rpc_request` and `rpc_response` send a payload whenever there is a buffer
for it, and their assertions admit a buffer with `payloadlen` 0. The
`task_netwrite` of such a payload has the result of a closed connection, so
they close the channel.
-/

namespace VmwareProto

namespace Rpc

open Libtask

/-- What `write(2)` answers to a task with `rest` to write. -/
def WriteResult.of (rest : List Byte) (a : NetAnswer) : WriteResult :=
  match a.limit rest.length with
  | .moved 0 => .zero
  | .moved (k + 1) => .sent (k + 1)
  | .again => .again
  | .error e => .error e.toNat

variable {cfg : Cfg} {σ σ' : State} {n : TaskId} {k : Kind} {a : Addr} {part : Part}
  {rest : List Byte} {ans : NetAnswer}

/-- A write for no bytes. -/
theorem WriteResult.of_nil : WriteResult.of [] ans = .zero := by
  cases ans <;> simp [WriteResult.of, NetAnswer.limit]

/-- A write for some bytes, on an open connection. -/
theorem WriteResult.of_ne_nil (hr : rest ≠ []) (ho : ans.Open) :
    WriteResult.of rest ans = .again ∨ ∃ j, WriteResult.of rest ans = .sent j := by
  have hlen := List.length_pos_iff.2 hr
  cases ans with
  | error e => exact ho.elim
  | again =>
      have hlimit : NetAnswer.limit rest.length .again = .again := if_neg (by omega)
      exact .inl (by rw [WriteResult.of, hlimit])
  | moved j =>
      have hj : 0 < j := ho
      obtain ⟨i, hi⟩ : ∃ i, min j rest.length = i + 1 := ⟨min j rest.length - 1, by omega⟩
      have hlimit : NetAnswer.limit rest.length (.moved j) = .moved (i + 1) := by
        rw [NetAnswer.limit, ← hi]
        rfl
      exact .inr ⟨i + 1, by rw [WriteResult.of, hlimit]⟩

/-- The sender has gone to its error label, where it closes the channel. -/
def State.Failed (σ : State) (n : TaskId) : Prop := ∃ k a res, σ.pc n = .unlock k a res

/-- A write that moves something, or none yet, does not fail. -/
theorem not_failed_of_write (hr : rest ≠ []) (ho : ans.Open) (hpc : σ.pc n = .send k a part rest)
    (hx : σ.write cfg n (.of rest ans) = some σ') : ¬σ'.Failed n := by
  rintro ⟨k', b, res, hf⟩
  obtain ⟨_, _, _, _, -, hw⟩ := State.write_cases hx
  have hans := WriteResult.of_ne_nil hr ho
  rcases hw with ⟨-, rfl⟩ | ⟨res, he, -⟩ | ⟨j, m, -, -, ⟨part', rest', -, rfl⟩ | ⟨-, hc⟩⟩
  · rw [hpc] at hf
    cases hf
  · rcases hans with h | ⟨j, h⟩ <;> rcases he with ⟨he, -⟩ | he <;> rw [h] at he <;> cases he
  · simp only [Function.update_self] at hf
    cases hf
  · obtain ⟨l, -, ⟨-, m, -, rfl⟩ | ⟨-, c, -, rfl⟩⟩ := State.complete_cases hc <;>
      simp only [Function.update_self] at hf <;> cases hf

/-- **A write for no bytes** fails, and closes the channel. -/
theorem write_nil (hpc : σ.pc n = .send k a part []) :
    σ.write cfg n (.of [] ans) = some (σ.fail n a k eConn) := by
  unfold State.write
  rw [hpc, WriteResult.of_nil]

/-- The payload of `nbytes` bytes is sent without closing the channel, as
far as its first write goes. -/
def KeepsOpen (nbytes : ℕ) (ans : NetAnswer) : Prop :=
  ∀ (cfg : Cfg) (σ : State) (n : TaskId) (k : Kind) (a : Addr) (rest : List Byte) (σ' : State),
    rest.length = nbytes → σ.pc n = .send k a .payload rest →
      σ.write cfg n (.of rest ans) = some σ' → ¬σ'.Failed n

/-- **`task_netrw` moves exactly what it is asked to**, and its callers keep
the channel open, unless it is asked to move nothing. -/
theorem netrw_exact_iff (rw : Tirw) (x : TaskId) (stream : ℕ → Byte) (mem : Memory)
    (buf nbytes : ℕ) (written : List Byte) (taken : ℕ) (answers : ℕ → NetAnswer)
    (h31 : nbytes < 2 ^ 31) (ho : ∀ i, (answers i).Open) :
    (Netrw.Exact rw x stream mem buf nbytes written taken answers ∧
      ∀ i, KeepsOpen nbytes (answers i)) ↔ 0 < nbytes := by
  rw [Netrw.exact_iff rw x stream mem buf nbytes written taken answers h31 ho]
  refine ⟨fun h => h.1, fun h => ⟨h, fun i cfg σ n k a rest σ' hlen hpc hx => ?_⟩⟩
  have hr : rest ≠ [] := by
    rw [← List.length_pos_iff]
    omega
  exact not_failed_of_write hr (ho i) hpc hx

/-- Three bytes written in two parts. -/
theorem netrw_exact_iff_three :
    Netrw.Exact .write 1 (fun _ => 0) (fun a => BitVec.ofNat 8 a) 7 3 [] 0 fun _ => .moved 2 :=
  ((netrw_exact_iff .write 1 (fun _ => 0) (fun a => BitVec.ofNat 8 a) 7 3 [] 0 (fun _ => .moved 2)
    (by decide) fun _ => Nat.two_pos).2 (by decide)).1

/-- **Asked to move nothing**, on a connection that is open. -/
theorem nothing_moved_is_econn :
    ¬∀ (rw : Tirw) (x : TaskId) (stream : ℕ → Byte) (mem : Memory) (buf nbytes : ℕ)
      (written : List Byte) (taken : ℕ) (answers : ℕ → NetAnswer), nbytes < 2 ^ 31 →
      (∀ i, (answers i).Open) →
      Netrw.Exact rw x stream mem buf nbytes written taken answers ∧
        ∀ i, KeepsOpen nbytes (answers i) := by
  intro h
  obtain ⟨⟨hex, -⟩, -⟩ := h .write 1 (fun _ => 0) (fun _ => 0) 0 0 [] 0 (fun _ => .moved 1)
    (by decide) fun _ => Nat.one_pos
  obtain ⟨s, hs, hret⟩ := hex 1
  obtain rfl := Option.some.inj hs
  exact absurd (hret taskioEconn rfl).1 (by decide)

end Rpc

end VmwareProto
