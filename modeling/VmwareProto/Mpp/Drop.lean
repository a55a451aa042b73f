import VmwareProto.Mpp.Endpoints
/-!
# When the connection drops

`rpc_recv_thread` on a stream that ends somewhere. Between two messages and
inside a header the thread hands over what is complete and then the closed
connection. Inside a payload it holds a payload buffer, and the error path
of `_rpc_recv` gives that buffer to a pool pointer which nothing has set.
-/

namespace VmwareProto

namespace Mpp

/-- The message of a work item: its header as `_rpc_recv_handler` finds it,
what was stored from `&rm->hdr` on, and the payload. -/
structure Delivered where
  hdr : MsgHdr
  stored : List Byte
  payload : Option (List Byte)
  deriving DecidableEq, Repr

namespace Received

/-- What a call that returned 0 hands over. -/
def msg (r : Received) : Delivered := ⟨MsgHdr.decode r.stored, r.stored, r.payload⟩

/-- What a call that returned -1 hands over. `rm->payload` is set only at
the end of a successful call. -/
def closedMsg (r : Received) : Delivered := ⟨(MsgHdr.decode r.stored).setConnClosed, r.stored, none⟩

end Received

/-- What `rpc_recv_thread` leaves: the work items in the order they were
scheduled, whether an assertion failed, and how many payload buffers it
took and did not put back. -/
structure ThreadRun where
  items : List Delivered
  fault : Bool
  payloads : ℕ
  deriving DecidableEq, Repr

/-- `rpc_recv_thread` on the bytes that arrive. -/
def recvThread (cfg : RecvCfg) (S : Socket) : ℕ → List Byte → ThreadRun
  | 0, _ => ⟨[], false, 0⟩
  | fuel + 1, bs =>
      let r := rpcRecv cfg S bs
      match r.result with
      | .message =>
          let t := recvThread cfg S fuel (bs.drop r.taken)
          ⟨r.msg :: t.items, t.fault, r.payload.toList.length + t.payloads⟩
      | .closed => ⟨[r.closedMsg], false, 0⟩
      | .fault => ⟨[], true, r.payload.toList.length⟩

/-- Messages a peer may send: their lengths are right, and the flag for a
closed connection, which is the receiver's own, is not set. -/
def Sendable (cfg : RecvCfg) (fs : List Frame) : Prop :=
  ∀ f ∈ fs, f.Framed cfg ∧ f.hdr.isConnClosed = false

/-- The messages that are complete within the first `k` bytes. -/
def complete : ℕ → List Frame → List Frame
  | _, [] => []
  | k, f :: fs => if f.wire.length ≤ k then f :: complete (k - f.wire.length) fs else []

/-- The first `k` bytes end behind the header of a message and before the
end of its payload. -/
def EndsInPayload : ℕ → List Frame → Prop
  | _, [] => False
  | k, f :: fs =>
      if f.wire.length ≤ k then EndsInPayload (k - f.wire.length) fs else f.hdr.len ≤ k

instance decidableEndsInPayload : ∀ (k : ℕ) (fs : List Frame), Decidable (EndsInPayload k fs)
  | _, [] => inferInstanceAs (Decidable False)
  | k, f :: fs =>
      have := decidableEndsInPayload (k - f.wire.length) fs
      inferInstanceAs (Decidable
        (if f.wire.length ≤ k then EndsInPayload (k - f.wire.length) fs else f.hdr.len ≤ k))

/-- The drop was survived: every complete message was handed over, in
order, then the closed connection, once; no assertion failed; and the
payload buffers in use are those of the messages handed over. -/
structure Survived (fs : List Frame) (k : ℕ) (t : ThreadRun) : Prop where
  items : ∃ d, t.items = (complete k fs).map (fun f => f.received.msg) ++ [d] ∧
    d.hdr.isConnClosed = true ∧ d.payload = none
  once : t.items.countP (fun d => d.hdr.isConnClosed) = 1
  asserts : t.fault = false
  payloads : t.payloads = t.items.countP fun d => d.payload.isSome

variable {cfg : RecvCfg} {S : Socket} {f : Frame} {fs : List Frame} {bs : List Byte} {k fuel : ℕ}

@[simp] theorem MsgHdr.isConnClosed_setConnClosed (h : MsgHdr) :
    h.setConnClosed.isConnClosed = true := by
  simp only [isConnClosed, setConnClosed, bne_iff_ne]
  intro e
  have := congrArg (·.getLsbD 1) e
  simp at this

theorem Frame.Framed.wire_pos (hf : f.Framed cfg) : 0 < f.wire.length := by
  have := hf.len_ge
  rw [hf.length_wire]
  simp only [hdrSize] at this
  omega

theorem Frame.Framed.decode_hdrBytes (hf : f.Framed cfg) : MsgHdr.decode f.hdrBytes = f.hdr := by
  rw [hf.hdrBytes_eq, MsgHdr.decode_encode]

theorem Frame.Framed.taken_received (hf : f.Framed cfg) : f.received.taken = f.wire.length := by
  have hh := hf.length_hdrBytes
  have hp := hf.length_payloadBytes
  rw [hf.length_wire, Received.taken, Frame.received]
  split
  · rename_i h0
    simp [hh, h0]
  · simp [hh, hp]

/-! ## One round of the loop -/

/-- A whole message is handed over. -/
theorem recvThread_wire (hf : f.Framed cfg) (rest : List Byte) :
    recvThread cfg S (fuel + 1) (f.wire ++ rest) =
      ⟨f.received.msg :: (recvThread cfg S fuel rest).items, (recvThread cfg S fuel rest).fault,
        f.received.payload.toList.length + (recvThread cfg S fuel rest).payloads⟩ := by
  have hdrop : (f.wire ++ rest).drop f.received.taken = rest := by
    rw [hf.taken_received, List.drop_left]
  have hres : f.received.result = .message := rfl
  simp only [recvThread, rpcRecv_wire hf, hres, hdrop]

/-- The end of the stream before the header is complete ends the thread. -/
theorem recvThread_header (hf : f.Framed cfg) (hk : k < f.hdr.len) :
    recvThread cfg S (fuel + 1) (f.wire.take k) =
      ⟨[(f.cut k).closedMsg], false, 0⟩ := by
  have hlt : k < f.wire.length := by rw [hf.length_wire]; omega
  have hcut : f.cut k = ⟨f.hdrBytes.take k, none, .closed⟩ := if_pos hk
  simp only [recvThread, rpcRecv_cut hf hlt, hcut]

/-- The end of the stream behind the header takes the host down. -/
theorem recvThread_payload (hf : f.Framed cfg) (hk : f.hdr.len ≤ k) (hlt : k < f.wire.length) :
    recvThread cfg S (fuel + 1) (f.wire.take k) = ⟨[], true, 1⟩ := by
  have hcut : f.cut k = ⟨f.hdrBytes, some (f.payloadBytes.take (k - f.hdr.len)), .fault⟩ :=
    if_neg (by omega)
  simp only [recvThread, rpcRecv_cut hf hlt, hcut]
  rfl

theorem recvThread_nil :
    recvThread cfg S (fuel + 1) [] = ⟨[⟨(MsgHdr.decode []).setConnClosed, [], none⟩], false, 0⟩ := by
  have h : rpcRecv cfg S [] = ⟨[], none, .closed⟩ := by
    rw [rpcRecv, Socket.socketRead_small (by decide)]
    rfl
  simp only [recvThread, h]
  rfl

/-! ## The whole run -/

theorem Sendable.tail (h : Sendable cfg (f :: fs)) : Sendable cfg fs :=
  fun g hg => h g (List.mem_cons_of_mem _ hg)

/-- The closed connection alone, handed over. -/
theorem survived_closed {d : Delivered} (hc : complete k fs = []) (hd : d.hdr.isConnClosed = true)
    (hp : d.payload = none) : Survived fs k ⟨[d], false, 0⟩ where
  items := ⟨d, by rw [hc]; rfl, hd, hp⟩
  once := by simp [hd]
  asserts := rfl
  payloads := by simp [hp]

/-- A message before it changes nothing. -/
theorem survived_cons {t : ThreadRun} (hf : f.Framed cfg) (hc : f.hdr.isConnClosed = false)
    (hk : f.wire.length ≤ k) :
    Survived (f :: fs) k ⟨f.received.msg :: t.items, t.fault, f.received.payload.toList.length + t.payloads⟩ ↔
      Survived fs (k - f.wire.length) t := by
  have hcomp : complete k (f :: fs) = f :: complete (k - f.wire.length) fs := if_pos hk
  have hflag : f.received.msg.hdr.isConnClosed = false := by
    rw [← hc, ← hf.decode_hdrBytes]
    rfl
  have hpay : f.received.payload.toList.length = if f.received.msg.payload.isSome then 1 else 0 := by
    rw [show f.received.msg.payload = f.received.payload from rfl]
    cases f.received.payload <;> rfl
  constructor
  · rintro ⟨⟨d, hd, hcl, hp⟩, honce, hasserts, hpl⟩
    rw [hcomp, List.map_cons, List.cons_append] at hd
    refine ⟨⟨d, (List.cons_inj_right _).1 hd, hcl, hp⟩, ?_, hasserts, ?_⟩
    · simpa [hflag] using honce
    · simp only [List.countP_cons] at hpl
      omega
  · rintro ⟨⟨d, hd, hcl, hp⟩, honce, hasserts, hpl⟩
    refine ⟨⟨d, by rw [hcomp, hd]; rfl, hcl, hp⟩, ?_, hasserts, ?_⟩
    · simpa [hflag] using honce
    · simp only [List.countP_cons]
      omega

/-- The induction on the messages, for any fuel that outlasts the bytes. -/
theorem survived_iff_of_fuel : ∀ {fs : List Frame} {k fuel : ℕ}, Sendable cfg fs →
    ((fs.map Frame.wire).flatten.take k).length < fuel →
    (Survived fs k (recvThread cfg S fuel ((fs.map Frame.wire).flatten.take k)) ↔ ¬EndsInPayload k fs)
  | _, _, 0, _, hfuel => absurd hfuel (Nat.not_lt_zero _)
  | [], k, fuel + 1, _, _ => by
      have hnil : (([] : List Frame).map Frame.wire).flatten.take k = [] := by simp
      rw [hnil, recvThread_nil]
      exact iff_of_true (survived_closed rfl (by simp) rfl) (fun h => h)
  | f :: fs, k, fuel + 1, hs, hfuel => by
      obtain ⟨hf, hflag⟩ := hs f List.mem_cons_self
      have hpos := hf.wire_pos
      simp only [List.map_cons, List.flatten_cons] at hfuel ⊢
      by_cases hk : f.wire.length ≤ k
      · -- the first message is complete
        have htake : (f.wire ++ (fs.map Frame.wire).flatten).take k =
            f.wire ++ ((fs.map Frame.wire).flatten).take (k - f.wire.length) := by
          rw [List.take_append, List.take_of_length_le hk]
        have hends : EndsInPayload k (f :: fs) = EndsInPayload (k - f.wire.length) fs := by
          rw [EndsInPayload, if_pos hk]
        rw [htake] at hfuel ⊢
        rw [List.length_append] at hfuel
        rw [recvThread_wire hf, survived_cons hf hflag hk, hends]
        exact survived_iff_of_fuel hs.tail (by omega)
      · -- the stream ends within it
        have htake : (f.wire ++ (fs.map Frame.wire).flatten).take k = f.wire.take k :=
          List.take_append_of_le_length (by omega)
        have hends : EndsInPayload k (f :: fs) = (f.hdr.len ≤ k) := by
          rw [EndsInPayload, if_neg hk]
        have hnone : complete k (f :: fs) = [] := if_neg hk
        rw [htake, hends]
        by_cases hlen : f.hdr.len ≤ k
        · rw [recvThread_payload hf hlen (by omega)]
          exact iff_of_false (fun h => absurd h.asserts (by decide)) (fun h => h hlen)
        · rw [recvThread_header hf (by omega)]
          exact iff_of_true (survived_closed hnone (MsgHdr.isConnClosed_setConnClosed _) rfl) hlen

/-- **A drop is survived exactly when** the stream does not end behind the
header of a message that still lacks some of its payload. -/
theorem survived_iff (hs : Sendable cfg fs) (k : ℕ) :
    Survived fs k (recvThread cfg S (((fs.map Frame.wire).flatten.take k).length + 1)
      ((fs.map Frame.wire).flatten.take k)) ↔ ¬EndsInPayload k fs :=
  survived_iff_of_fuel hs (Nat.lt_succ_self _)

/-- A write of two bytes. -/
def smallWrite : Frame :=
  ⟨⟨2, 0x221, 48, 2, 0⟩, ⟨0, 0⟩, leBytes 8 8192 ++ leBytes 8 2, some [1, 2]⟩

theorem sendable_smallWrite : Sendable mppCfg [firstRead, smallWrite] := by
  intro f hf
  rcases List.mem_pair.1 hf with rfl | rfl
  · exact ⟨⟨by decide, by decide, by decide, by decide, by decide, by decide⟩, by decide⟩
  · exact ⟨⟨by decide, by decide, by decide, by decide, by decide, by decide⟩, by decide⟩

/-- A stream that ends inside the second header. -/
theorem survived_iff_header :
    Survived [firstRead, smallWrite] 60
      (recvThread mppCfg .eager ((([firstRead, smallWrite].map Frame.wire).flatten.take 60).length + 1)
        (([firstRead, smallWrite].map Frame.wire).flatten.take 60)) :=
  (survived_iff sendable_smallWrite 60).2 (by decide)

/-- One byte of the payload is missing. -/
theorem not_survived_payload :
    ¬∀ (cfg : RecvCfg) (S : Socket) (fs : List Frame), Sendable cfg fs → ∀ k,
      Survived fs k (recvThread cfg S (((fs.map Frame.wire).flatten.take k).length + 1)
        ((fs.map Frame.wire).flatten.take k)) := by
  intro h
  have hs := (h mppCfg .eager [firstRead, smallWrite] sendable_smallWrite 97).asserts
  exact absurd hs (by decide)

end Mpp

end VmwareProto
