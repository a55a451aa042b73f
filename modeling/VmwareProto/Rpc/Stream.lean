import VmwareProto.Rpc.Delivery
/-!
# Many messages over the wire

The receiver's loop on a byte stream: one call of `_rpc_receive` after the
other. On a stream that begins with whole messages the loop returns them
one by one, however the stream is cut into reads, and it gets through all
of them.
-/

namespace VmwareProto

namespace Rpc

/-- The loop: what the calls so far have returned, the call under way, and
the bytes that have yet to be read. -/
structure Reader where
  got : List Recv
  call : RecvOn

/-- A step of the call, or the next call. -/
inductive ReaderAction
  | call (act : RecvAction)
  | next

namespace ReaderAction

def exec (cfg : RecvCfg) (σ : Reader) : ReaderAction → Option Reader
  | .call act => (act.exec cfg σ.call).map fun c => ⟨σ.got, c⟩
  | .next => some ⟨σ.got ++ [σ.call.recv], ⟨.start true, σ.call.rest⟩⟩

/-- Reads take bytes that are there or find none, and do not fail. -/
def Enabled (σ : Reader) : ReaderAction → Prop
  | .call act => act.Enabled σ.call ∧ NoError σ.call act
  | .next => ∃ h, σ.call.recv.pc = .done h

end ReaderAction

/-- `_rpc_receive` called again and again on the stream `bs`. -/
def readerSystem (cfg : RecvCfg) (bs : List Byte) : System Reader ReaderAction where
  init σ := σ = ⟨[], ⟨.start true, bs⟩⟩
  enabled := ReaderAction.Enabled
  exec := ReaderAction.exec cfg

/-- The bytes of messages. -/
def frames (ms : List Msg) : List Byte := (ms.map Msg.wire).flatten

@[simp] theorem frames_nil : frames [] = [] := rfl

@[simp] theorem frames_cons (m : Msg) (ms : List Msg) : frames (m :: ms) = m.wire ++ frames ms := by
  simp [frames]

@[simp] theorem frames_append (ms ns : List Msg) : frames (ms ++ ns) = frames ms ++ frames ns := by
  simp [frames]

variable {cfg : RecvCfg} {bs ext : List Byte} {ms : List Msg} {σ σ' : Reader} {act : ReaderAction}

/-- A call, with bytes put behind those that have yet to be read. -/
def RecvOn.extend (c : RecvOn) (ext : List Byte) : RecvOn := ⟨c.recv, c.rest ++ ext⟩

/-- Where the loop stands, on a stream that `ext` completes to whole
messages: it has got the first of them, and is in a call for the next. -/
def Reader.At (cfg : RecvCfg) (ms : List Msg) (ext : List Byte) (σ : Reader) : Prop :=
  ∃ ms₁ ms₂, ms = ms₁ ++ ms₂ ∧ σ.got = ms₁.map Msg.received ∧
    (σ.call.extend ext).Ok cfg (frames ms₂) ∧ σ.call.recv.pc ≠ .errout

/-- What a step of the call does with more bytes behind. -/
theorem RecvAction.exec_extend (cfg : RecvCfg) (ext : List Byte) {act : RecvAction} {c : RecvOn}
    (he : act.Enabled c) :
    act.Enabled (c.extend ext) ∧
      act.exec cfg (c.extend ext) = (act.exec cfg c).map fun c => c.extend ext := by
  cases act with
  | take k =>
      obtain ⟨hk, hw, hlen⟩ := he
      refine ⟨⟨hk, hw, ?_⟩, ?_⟩
      · simp only [RecvOn.extend, List.length_append]
        omega
      · simp only [RecvAction.exec, RecvOn.extend, List.take_append_of_le_length hlen,
          List.drop_append_of_le_length hlen, Option.map_map]
        rfl
  | other r =>
      exact ⟨he, by simp only [RecvAction.exec, RecvOn.extend, Option.map_map]; rfl⟩
  | databuf =>
      exact ⟨he, by simp only [RecvAction.exec, RecvOn.extend, Option.map_map]; rfl⟩

/-- A call on nothing has nothing to do. -/
theorem RecvOn.Ok.of_nil {c : RecvOn} (h : c.Ok cfg []) :
    c.rest = [] ∧ (∀ h, c.recv.pc ≠ .databuf h) ∧ ∀ h, c.recv.pc ≠ .done h := by
  have hsplit := h.split
  obtain ⟨htaken, hrest⟩ := List.append_eq_nil_iff.1 hsplit
  obtain ⟨hst, -⟩ := List.append_eq_nil_iff.1 htaken
  have hok := h.recv
  have hsize : ∀ d, Recv.Header cfg c.recv.stored d → False := fun d hd => by
    have := hd.size
    rw [hst, List.length_nil] at this
    exact absurd this (by decide)
  refine ⟨hrest, fun d hd => ?_, fun d hd => ?_⟩
  · simp only [Recv.Ok, hd] at hok
    exact hsize d hok.1
  · simp only [Recv.Ok, hd] at hok
    exact hsize d hok.1

/-- **The step lemma**: no step of the loop faults, and each leaves it in
the middle of the messages. -/
theorem Reader.At.step (hf : ∀ m ∈ ms, m.Framed cfg) (h : σ.At cfg ms ext) (he : act.Enabled σ) :
    ∃ σ', act.exec cfg σ = some σ' ∧ σ'.At cfg ms ext := by
  obtain ⟨ms₁, ms₂, rfl, hgot, hok, hpc⟩ := h
  cases act with
  | call act =>
      obtain ⟨he, hne⟩ := he
      cases ms₂ with
      | nil =>
          obtain ⟨hrest, hdata, -⟩ := hok.of_nil
          cases act with
          | take k =>
              obtain ⟨hk, -, hlen⟩ := he
              simp only [RecvOn.extend, List.append_eq_nil_iff] at hrest
              rw [hrest.1, List.length_nil] at hlen
              omega
          | other r =>
              obtain rfl : r = .again := hne
              exact ⟨σ, rfl, ms₁, [], rfl, hgot, hok, hpc⟩
          | databuf =>
              obtain ⟨d, hd⟩ := he
              exact absurd hd (hdata d)
      | cons m ms₃ =>
          obtain ⟨he', hx⟩ := RecvAction.exec_extend cfg ext he
          rw [frames_cons] at hok
          obtain ⟨c, hx', hok', hpc'⟩ := whole_step (hf m (by simp)) hok hpc he' hne
          rw [hx] at hx'
          obtain ⟨c', hc', rfl⟩ := Option.map_eq_some_iff.1 hx'
          refine ⟨⟨σ.got, c'⟩, ?_, ms₁, m :: ms₃, rfl, hgot, by simpa using hok', hpc'⟩
          simp only [ReaderAction.exec, hc', Option.map_some]
  | next =>
      obtain ⟨d, hd⟩ := he
      cases ms₂ with
      | nil => exact absurd hd (hok.of_nil.2.2 d)
      | cons m ms₃ =>
          rw [frames_cons] at hok
          have hrecv := hok.eq_received (hf m (by simp)) hd
          obtain ⟨hr, hrest⟩ := RecvOn.mk.inj hrecv
          refine ⟨_, rfl, ms₁ ++ [m], ms₃, by simp, by simp [hgot, ← hr], ?_, by simp [Recv.start]⟩
          exact ⟨Recv.ok_start true, by simp only [Recv.taken, Recv.start, RecvOn.extend]; simpa using hrest⟩

/-- **The run lemma.** -/
theorem reader_at (hf : ∀ m ∈ ms, m.Framed cfg) (hbs : bs ++ ext = frames ms)
    (hr : (readerSystem cfg bs).Reachable σ) : σ.At cfg ms ext := by
  refine System.Inductive.reachable (S := readerSystem cfg bs) (I := fun σ => σ.At cfg ms ext)
    ⟨fun σ hσ => ?_, fun σ act h he => h.step hf he⟩ hr
  obtain rfl := hσ
  refine ⟨[], ms, rfl, rfl, ⟨Recv.ok_start true, ?_⟩, by simp [Recv.start]⟩
  simpa [Recv.taken, Recv.start, RecvOn.extend] using hbs

/-- The beginning of a message, not all of it. -/
def Partial (cfg : RecvCfg) (p : List Byte) : Prop :=
  p = [] ∨ ∃ m ext, m.Framed cfg ∧ ext ≠ [] ∧ p ++ ext = Msg.wire m

/-- A stream that ends in such a beginning can go on to whole messages. -/
theorem Partial.completed {p : List Byte} (hp : Partial cfg p) :
    ∃ last ext, (∀ m ∈ last, Msg.Framed cfg m) ∧ p ++ ext = frames last ∧
      (last = [] ∨ (∃ m, last = [m]) ∧ ext ≠ []) := by
  rcases hp with rfl | ⟨m, ext, hm, hne, hext⟩
  · exact ⟨[], [], by simp, rfl, .inl rfl⟩
  · exact ⟨[m], ext, by simpa using hm, by simpa using hext, .inr ⟨⟨m, rfl⟩, hne⟩⟩

/-- **No step of the loop faults.** -/
theorem reader_no_fault {ws : List Msg} {p : List Byte} (hf : ∀ m ∈ ws, m.Framed cfg)
    (hp : Partial cfg p) (hr : (readerSystem cfg (frames ws ++ p)).Reachable σ)
    (he : act.Enabled σ) : ∃ σ', act.exec cfg σ = some σ' := by
  obtain ⟨last, ext, hlast, hext, -⟩ := hp.completed
  have hall : ∀ m ∈ ws ++ last, m.Framed cfg :=
    fun m hm => (List.mem_append.1 hm).elim (hf m) (hlast m)
  have hbs : frames ws ++ p ++ ext = frames (ws ++ last) := by simp [hext]
  obtain ⟨σ', hx, -⟩ := (reader_at hall hbs hr).step hall he
  exact ⟨σ', hx⟩

/-- **Nothing is skipped**: what the loop has got are the first messages,
and what it took of the stream are their bytes and those its call has. -/
theorem reader_prefix {ws : List Msg} {p : List Byte} (hf : ∀ m ∈ ws, m.Framed cfg)
    (hp : Partial cfg p) (hr : (readerSystem cfg (frames ws ++ p)).Reachable σ) :
    ∃ ws₁ ws₂, ws = ws₁ ++ ws₂ ∧ σ.got = ws₁.map Msg.received ∧
      σ.call.Ok cfg (frames ws₂ ++ p) ∧ σ.call.recv.pc ≠ .errout := by
  obtain ⟨last, ext, hlast, hext, hne⟩ := hp.completed
  have hbs : frames ws ++ p ++ ext = frames (ws ++ last) := by simp [hext]
  obtain ⟨ms₁, ms₂, hms, hgot, hok, hpc⟩ :=
    reader_at (fun m hm => (List.mem_append.1 hm).elim (hf m) (hlast m)) hbs hr
  -- the stream, from the call on
  have hbytes : frames ws ++ p = frames ms₁ ++ (σ.call.recv.taken ++ σ.call.rest) := by
    have hsplit := hok.split
    simp only [RecvOn.extend] at hsplit
    have hall := congrArg frames hms
    rw [frames_append, frames_append, ← hsplit, ← hext, ← List.append_assoc, ← List.append_assoc,
      ← List.append_assoc] at hall
    rw [← List.append_assoc]
    exact List.append_cancel_right hall
  obtain ⟨ws₂, hws⟩ : ∃ ws₂, ws = ms₁ ++ ws₂ := by
    rcases hne with rfl | ⟨⟨m, rfl⟩, hne⟩
    · exact ⟨ms₂, by simpa using hms⟩
    · rcases List.append_eq_append_iff.1 hms with ⟨xs, rfl, hxs⟩ | ⟨xs, rfl, hxs⟩
      · rcases xs with _ | ⟨x, xs⟩
        · exact ⟨[], by simp⟩
        · -- the last message would have been got with bytes missing
          have hx : x = m ∧ xs = [] ∧ ms₂ = [] := by simpa [eq_comm] using hxs
          obtain ⟨rfl, rfl, rfl⟩ := hx
          have hlen := congrArg List.length hbytes
          have hextlen := congrArg List.length hext
          have hpos := List.length_pos_iff.2 hne
          simp only [frames_append, frames_cons, frames_nil, List.length_append, List.append_nil]
            at hlen hextlen
          omega
      · exact ⟨xs, rfl⟩
  refine ⟨ms₁, ws₂, hws, hgot, ⟨hok.recv, ?_⟩, hpc⟩
  rw [hws, frames_append, List.append_assoc] at hbytes
  exact (List.append_cancel_left hbytes).symm

/-- The steps of a call are steps of the loop. -/
theorem steps_call {c c' : RecvOn} {as : List RecvAction} (bs : List Byte) (got : List Recv)
    (bs' : List Byte)
    (h : ((receiveSystem cfg bs').only NoError).Steps c as c') :
    (readerSystem cfg bs).Steps ⟨got, c⟩ (as.map .call) ⟨got, c'⟩ := by
  induction h with
  | nil => exact .nil
  | cons he hx _ ih =>
      refine .cons he ?_ ih
      have hx : RecvAction.exec cfg _ _ = _ := hx
      simp only [readerSystem, ReaderAction.exec, hx, Option.map_some]

/-- **Nothing is left over**: from wherever the loop stands it can go on
until it has got every message of the stream. -/
theorem reader_gets_all {p : List Byte} (bs : List Byte) (ws₁ ws₂ : List Msg)
    (hf : ∀ m ∈ ws₂, m.Framed cfg) (hgot : σ.got = ws₁.map Msg.received)
    (hok : σ.call.Ok cfg (frames ws₂ ++ p)) (hpc : σ.call.recv.pc ≠ .errout) :
    ∃ as σ', (readerSystem cfg bs).Steps σ as σ' ∧ σ'.got = (ws₁ ++ ws₂).map Msg.received := by
  induction ws₂ generalizing σ ws₁ with
  | nil => exact ⟨[], σ, .nil, by simpa using hgot⟩
  | cons m ws₃ ih =>
      rw [frames_cons, List.append_assoc] at hok
      obtain ⟨as, has⟩ := exists_received [] (hf m (by simp)) hok hpc
      have hcall := steps_call bs σ.got [] has
      have hgot' : σ.got ++ [m.received] = (ws₁ ++ [m]).map Msg.received := by simp [hgot]
      have hok' : RecvOn.Ok cfg (frames ws₃ ++ p) ⟨.start true, frames ws₃ ++ p⟩ :=
        ⟨Recv.ok_start true, rfl⟩
      obtain ⟨bs', σ', hrest, hgot'⟩ := @ih ⟨_, _⟩ (ws₁ ++ [m])
        (fun m' hm' => hf m' (by simp [hm'])) hgot' hok' (by simp [Recv.start])
      have hnext : (readerSystem cfg bs).enabled ⟨σ.got, ⟨m.received, frames ws₃ ++ p⟩⟩ .next :=
        ⟨m.hdr, rfl⟩
      exact ⟨_, σ', hcall.append (.cons hnext rfl hrest), by simpa using hgot'⟩

end Rpc

end VmwareProto
