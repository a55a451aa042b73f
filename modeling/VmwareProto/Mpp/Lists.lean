import VmwareProto.Mpp.Bounds
import VmwareProto.Mpp.Closing
import VmwareProto.Mpp.Sound
/-!
# The hash and the free list

A message's hash entry and a free buffer's list node are one memory. The
buckets and the free list stay apart as long as no request fails to be sent:
a request whose `socket_write` failed stays in its bucket, and the put that
follows links it into the free list as well. And what the receive thread
reads has to have room: behind a message buffer lies the list node of the
next one.
-/

namespace VmwareProto

namespace Mpp

variable {cfg : Cfg} {σ : State} {act : Action}

/-- What the buckets and the free list hold. -/
structure ListsApart (σ : State) : Prop where
  /-- a bucket's entry is issued and not yet answered or given back: nobody
  has it but its sender, and it has no response -/
  hash : ∀ i a, σ.chan.links.Reaches (some i) (.elem a) → ∃ m, σ.chan.msgs a = some m ∧
    m.resp = none ∧ a ∉ σ.queue ∧ ∀ x, a ∈ (σ.pc x).held → (σ.pc x).sends = some a
  count : ∃ ps : List Addr, ps.Nodup ∧ σ.chan.count = ps.length ∧
    ∀ a, a ∈ ps ↔ ∃ i, σ.chan.links.Reaches (some i) (.elem a)
  /-- a free buffer is nobody's: no actor has it, no work item, and it is the
  response of no message -/
  free : ∀ a, σ.chan.links.Reaches none (.elem a) → σ.chan.msgs a = none ∧ a ∉ σ.queue ∧
    (∀ x, a ∉ (σ.pc x).held) ∧ ∀ b, σ.resps b ≠ some a
  disjoint : ∀ h h' x, σ.chan.links.Reaches h x → σ.chan.links.Reaches h' x → h = h'

/-- A sound channel's lists are apart. -/
theorem Base.lists (h : Base cfg σ) : ListsApart σ := by
  obtain ⟨lists, ps, hT⟩ := h.table
  have hbucket : ∀ i a, σ.chan.links.Reaches (some i) (.elem a) ↔ ∃ m, σ.chan.msgs a = some m ∧
      m.pending = true ∧ cfg.getBucket m.frame.hdr.seqid = i := fun i a => by
    rw [hT.filed.rings.reaches_elem_iff, hT.mem_bucket]
  refine ⟨fun i a ha => ?_, ⟨ps, hT.nodup, hT.count, fun a => ?_⟩, fun a ha => ?_,
    fun _ _ _ hx hx' => hT.filed.rings.reaches_unique hx hx'⟩
  · obtain ⟨m, hm, hp, -⟩ := (hbucket i a).1 ha
    -- pending is none of the uses of a message that is held, queued or put
    have hheld : ∀ x, a ∈ (σ.pc x).held → (σ.pc x).sends = some a := fun x hx => by
      have hown := h.own hx hm
      rcases useOf_cases (σ.pc x) x a with e | ⟨-, hs⟩
      · rw [Msg.pending, hown, e] at hp
        cases hp
      · exact hs
    refine ⟨m, hm, ?_, fun hq => ?_, hheld⟩
    · rw [← resps_of_msg hm]
      refine h.no_resp_of_use fun x hx => ?_
      rw [uses_of_msg hm] at hx
      rw [Msg.pending, Option.some.inj hx] at hp
      cases hp
    · have hu := (h.uses.queued a).1 hq
      rw [uses_of_msg hm] at hu
      rw [Msg.pending, Option.some.inj hu] at hp
      cases hp
  · rw [hT.mem_pending]
    constructor
    · rintro ⟨m, hm, hp⟩
      exact ⟨_, (hbucket _ a).2 ⟨m, hm, hp, rfl⟩⟩
    · rintro ⟨i, hi⟩
      obtain ⟨m, hm, hp, -⟩ := (hbucket i a).1 hi
      exact ⟨m, hm, hp⟩
  · rw [hT.filed.rings.reaches_elem_iff, hT.filed.mem, label_free_iff] at ha
    have huse : σ.uses a = none := by rw [State.uses, ha.1]; rfl
    refine ⟨ha.1, ?_, fun x hx => ?_, fun b hb => ?_⟩
    · rw [h.uses.queued, huse]
      simp
    · have hown := h.uses.own x a hx
      rw [huse] at hown
      cases hown
    · rw [h.answers.attached, huse] at hb
      cases hb

/-- What `_rpc_recv` reads has room in its message buffer. -/
def Contained (cfg : Cfg) (σ : State) : Action → Prop
  | .recv => Fits cfg.toRecvCfg cfg.sock σ.inq
  | .recvEnd j => Fits cfg.toRecvCfg cfg.sock (σ.inq.take j)
  | _ => True

instance (bs : List Byte) : Decidable (Fits cfg.toRecvCfg cfg.sock bs) :=
  inferInstanceAs (Decidable (_ ∨ _ ∧ _ ∨ _ ∧ _))

instance (σ : State) : (act : Action) → Decidable (Contained cfg σ act)
  | .recv | .recvEnd _ => inferInstanceAs (Decidable (Fits _ _ _))
  | .get _ _ _ _ _ _ _ _ | .edit _ _ | .abandon _ | .check _ | .lock _ | .write _ _ | .unlock _
  | .close _ | .put _ | .take _ | .dispatch _ | .handle _ | .finish _ | .recvStart _
  | .arrive _ => .isTrue trivial

/-- **A read without room is a fault**: no state comes after it. -/
theorem not_contained_fault (hc : ¬Contained cfg σ act) : act.exec cfg σ = none := by
  have hover : ∀ bs : List Byte, ¬Fits cfg.toRecvCfg cfg.sock bs →
      cfg.msgsz < (rpcRecv cfg.toRecvCfg cfg.sock bs).stored.length := fun bs hbs => by
    rw [← rpcRecv_in_bounds_iff, RecvCfg.msgBuf_eq] at hbs
    omega
  cases act with
  | recv =>
      simp only [Action.exec, State.recv]
      split
      · split
        · rw [if_pos (hover _ hc)]
        · rfl
      · rfl
  | recvEnd j =>
      simp only [Action.exec, State.recvEnd]
      split
      · split
        · rw [if_pos (hover _ hc)]
        · rfl
      · rfl
  | _ => exact absurd trivial hc

/-- What a run keeps to: no request fails to be sent, and nothing is read
that has no room. -/
def Harmless (cfg : Cfg) (σ : State) (act : Action) : Prop := Sends σ act ∧ Contained cfg σ act

/-- **The hash and the free list stay apart** in every run in which no
request fails to be sent and nothing is read that has no room. -/
theorem lists_stay_apart (hr : ((channelSystem cfg).only (Harmless cfg)).Reachable σ) :
    ListsApart σ :=
  (base_reachable (hr.mono fun _ _ h => h.1)).lists

/-- A request that is sent, of a command with nothing to write. -/
def pendingRequest : List Action :=
  [.get 0 .request 9 33 48 ⟨0, 0⟩ (List.replicate 16 0) 0, .check 0, .lock 0, .write 0 (some 48),
    .unlock 0]

/-- Its answer is received. -/
def answerArrives : List Action :=
  [.recvStart 9,
    .arrive (⟨⟨1, 48, 48, 0, 0⟩, ⟨0, 0⟩, List.replicate 16 0, none⟩ : Frame).wire, .recv]

/-- The answer waits for a worker, and the request is in the bucket of its sequence id. -/
theorem lists_stay_apart_pending : ∃ σ,
    ((channelSystem smallCfg).only (Harmless smallCfg)).Reachable σ ∧
      σ.queue = [1] ∧ σ.chan.links.next (.head (some 1)) = .elem 0 ∧ ListsApart σ := by
  have hrun : ((((channelSystem smallCfg).only (Contained smallCfg)).run smallChannel
      (pendingRequest ++ answerArrives)).any fun σ : State =>
        decide (σ.queue = [1] ∧ σ.chan.links.next (.head (some 1)) = .elem 0)) = true := by
    decide +kernel
  obtain ⟨σ, hsteps, hσ⟩ := System.Steps.of_run_any hrun
  obtain ⟨hqueue, hnext⟩ := of_decide_eq_true hσ
  have honly := hsteps.mono (Q := Harmless smallCfg) fun s act hact hc =>
    ⟨fun n a part rest e => by
      subst e
      simp [pendingRequest, answerArrives] at hact, hc⟩
  have hr := honly.reachable (.init smallChannel_init)
  exact ⟨σ, hr, hqueue, hnext, lists_stay_apart hr⟩

/-- The request whose write failed is put back, and its bucket still leads to it. -/
theorem lists_spliced : ¬∀ (cfg : Cfg) (σ : State), (channelSystem cfg).Reachable σ → ListsApart σ := by
  intro h
  have hrun : (((channelSystem smallCfg).run smallChannel
      (failedSend ++ [.close (.world 0), .close (.world 0), .close (.world 0), .close (.world 0),
        .put (.world 0)])).any fun σ : State =>
      decide (σ.chan.links.next (.head (some 1)) = .elem 0 ∧ σ.chan.msgs 0 = none)) = true := by
    decide +kernel
  obtain ⟨σ, hsteps, hσ⟩ := System.Steps.of_run_any hrun
  obtain ⟨hnext, hnone⟩ := of_decide_eq_true hσ
  obtain ⟨m, hm, -⟩ := (h smallCfg σ (hsteps.reachable (.init smallChannel_init))).hash 1 0 ⟨1, hnext⟩
  rw [hnone] at hm
  cases hm

end Mpp

end VmwareProto
