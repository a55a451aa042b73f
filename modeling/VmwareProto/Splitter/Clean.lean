import VmwareProto.Splitter.OwnedSteps
/-!
# Put once, and never used when free

What each step reads or writes and what it puts, and what follows where every
buffer that is out is in one place: all of these are out and in no freelist,
none is put twice, and what a step puts is all that is out no more.
-/

namespace VmwareProto

namespace Splitter

open Rpc
open Libtask (TaskId)

/-! ## What a step touches -/

namespace Side

variable (σ : Side)

/-- In the freelist of the message buffers. -/
def Free (a : Addr) : Prop := σ.rpc.chan.links.Reaches none (.elem a)

/-- In one of the hash's buckets. -/
def Hashed (a : Addr) : Prop := ∃ i, σ.rpc.chan.links.Reaches (some i) (.elem a)

/-- In the freelist of the data buffers. -/
def DataFree (d : DataAddr) : Prop := σ.data.pool.links.Reaches .freelist (.elem d)

/-- The message buffers that `rpc_msg_put` puts: the response and the message
itself. -/
def messages (a : Addr) : List Addr := ((σ.rpc.chan.msgs a).bind (·.resp)).toList ++ [a]

end Side

namespace SideAction

/-- The message buffers that a step reads or writes. Of a bucket it is the
links of the messages in it. -/
def Touches (σ : Side) (a : Addr) : SideAction → Prop
  | fill n | handle n _ _ | respond n => (σ.task n).msg = some a
  | request n => (σ.task n).msg = some a ∨ σ.Hashed a
  | finish n => ∃ b, (σ.task n).msg = some b ∧ a ∈ σ.messages b
  | resume n | write n _ | wake n => ∃ k b, (σ.rpc.pc n).call = some (k, b) ∧ a ∈ σ.messages b
  | recvTake _ _ => σ.rpc.recv.buffer = some a ∨ σ.Hashed a
  | recvAgain | recvData _ => σ.rpc.recv.buffer = some a
  | start _ _ | getData _ _ | getMsg _ _ | recvStart _ | arrive _ => False

/-- The data buffers that a step reads or writes. -/
def TouchesData (σ : Side) (d : DataAddr) : SideAction → Prop
  | getMsg n _ => (σ.task n).data = some d
  | finish n | handle n _ _ => ∃ a, (σ.task n).msg = some a ∧ d ∈ σ.payloads a
  | resume n | write n _ => ∃ k a, (σ.rpc.pc n).call = some (k, a) ∧ d ∈ σ.payloads a
  | recvTake _ _ => σ.dataIn .receiver = some d
  | start _ _ | getData _ _ | fill _ | request _ | wake _ | respond _ | recvStart _ | recvAgain
  | recvData _ | arrive _ => False

/-- The message buffers that a step puts. -/
def puts (σ : Side) : SideAction → List Addr
  | finish n => (σ.task n).msg.elim [] σ.messages
  | write n r => (σ.completes n r).elim [] σ.messages
  | _ => []

/-- The data buffers that a step puts. -/
def putsData (role : Role) (σ : Side) : SideAction → List DataAddr
  | finish n => (σ.task n).msg.elim [] σ.payloads
  | write n r => (σ.completes n r).elim [] σ.payloads
  | handle n dev _ => Option.toList do
      let a ← (σ.task n).msg
      let m ← σ.rpc.chan.msgs a
      let r ← role.handler dev (cmd m)
      if r.payload = none then σ.payload a else none
  | _ => []

end SideAction

/-- **A step that keeps the accounts.** -/
structure Clean (cfg : Cfg) (role : Role) (σ : Side) (act : SideAction) : Prop where
  touched : ∀ a, act.Touches σ a → σ.Issued a ∧ ¬σ.Free a
  touched_data : ∀ d, act.TouchesData σ d → d ∈ σ.data.held ∧ ¬σ.DataFree d
  once : (act.puts σ).Nodup
  once_data : (act.putsData role σ).Nodup
  put : ∀ a ∈ act.puts σ, σ.Issued a ∧ ¬σ.Free a
  put_data : ∀ d ∈ act.putsData role σ, d ∈ σ.data.held ∧ ¬σ.DataFree d
  back : ∀ σ', act.exec cfg role σ = some σ' → ∀ a, σ.Issued a → (σ'.Issued a ↔ a ∉ act.puts σ)
  back_data : ∀ σ', act.exec cfg role σ = some σ' →
    ∀ d ∈ σ.data.held, (d ∈ σ'.data.held ↔ d ∉ act.putsData role σ)

variable {cfg : Cfg} {role : Role} {σ σ' : Side} {ρ : Rpc.State} {n : TaskId} {a b y : Addr}
  {d : DataAddr} {m m' : Msg} {act : SideAction} {p : Pc}

theorem mem_messages (hm : σ.rpc.chan.msgs a = some m) :
    y ∈ σ.messages a ↔ y = a ∨ m.resp = some y := by
  simp only [Side.messages, hm, Option.bind_some, List.mem_append, Option.mem_toList,
    List.mem_singleton, or_comm]

/-! ## What touched buffers are -/

section

variable (h : Owned cfg σ)
include h

/-- What is out is in no freelist. -/
theorem Owned.not_free (ha : σ.Issued a) : ¬σ.Free a := fun hf => by
  obtain ⟨lists, pending, hfree, -⟩ := h.base.sound
  obtain ⟨m, hm⟩ := Option.isSome_iff_exists.1 ha
  refine hfree.notMem hm ?_
  simpa using hfree.ring.iterate_iff.1 hf

theorem Owned.not_dataFree (hd : d ∈ σ.data.held) : ¬σ.DataFree d := fun hf => by
  obtain ⟨free, ho⟩ := h.pool.owns
  refine ho.apart d ?_ hd
  simpa [BufPool.freelist] using ho.ring.iterate_iff.1 hf

/-- What is in the hash is out. -/
theorem Owned.issued_of_hashed (ha : σ.Hashed a) : σ.Issued a := by
  obtain ⟨lists, pending, -, htable⟩ := h.base.sound
  obtain ⟨i, hi⟩ := ha
  have htable := htable h.enabled
  obtain ⟨m, hm, -⟩ := (htable.linked i a).1 (htable.rings.reaches_elem_iff.1 hi)
  rw [Side.Issued, hm]
  rfl

theorem Owned.issued_of_messages (ha : σ.Issued a) (hy : y ∈ σ.messages a) : σ.Issued y := by
  obtain ⟨m, hm⟩ := Option.isSome_iff_exists.1 ha
  rcases (mem_messages hm).1 hy with rfl | hr
  · exact ha
  · exact h.msgs.out_of (k := Place.msg a) (by rw [Side.msgIn, hm]; exact hr)

theorem Owned.held_of_payloads (ha : σ.Issued a) (hd : d ∈ σ.payloads a) : d ∈ σ.data.held := by
  obtain ⟨m, hm⟩ := Option.isSome_iff_exists.1 ha
  exact (h.payloads hm).2 d hd

theorem Owned.issued_of_msg (ht : (σ.task n).msg = some a) : σ.Issued a :=
  h.msgs.out_of (k := Place.task n) ht

theorem Owned.issued_of_call {k : Kind} (hc : (σ.rpc.pc n).call = some (k, a)) : σ.Issued a := by
  obtain ⟨m, hm, -⟩ := h.base.uses.call n k a hc
  rw [Side.Issued, hm]
  rfl

/-- **What a step touches is out.** -/
theorem Owned.issued_of_touches (ha : act.Touches σ a) : σ.Issued a := by
  have hbuf : σ.rpc.recv.buffer = some a → σ.Issued a := fun hb =>
    h.msgs.out_of (k := Place.receiver) hb
  have hcall : ∀ {n}, (∃ k b, (σ.rpc.pc n).call = some (k, b) ∧ a ∈ σ.messages b) → σ.Issued a := by
    rintro n ⟨k, b, hc, hb⟩
    exact h.issued_of_messages (h.issued_of_call hc) hb
  cases act with
  | fill n => exact h.issued_of_msg ha
  | handle n _ _ => exact h.issued_of_msg ha
  | respond n => exact h.issued_of_msg ha
  | request n => exact ha.elim h.issued_of_msg h.issued_of_hashed
  | finish n =>
      obtain ⟨b, hb, hab⟩ := ha
      exact h.issued_of_messages (h.issued_of_msg hb) hab
  | resume n => exact hcall ha
  | write n _ => exact hcall ha
  | wake n => exact hcall ha
  | recvTake _ _ => exact ha.elim hbuf h.issued_of_hashed
  | recvAgain => exact hbuf ha
  | recvData _ => exact hbuf ha
  | start _ _ => exact ha.elim
  | getData _ _ => exact ha.elim
  | getMsg _ _ => exact ha.elim
  | recvStart _ => exact ha.elim
  | arrive _ => exact ha.elim

theorem Owned.held_of_touches (hd : act.TouchesData σ d) : d ∈ σ.data.held := by
  have hmsg : ∀ {n}, (∃ a, (σ.task n).msg = some a ∧ d ∈ σ.payloads a) → d ∈ σ.data.held := by
    rintro n ⟨a, ha, hda⟩
    exact h.held_of_payloads (h.issued_of_msg ha) hda
  have hcall : ∀ {n}, (∃ k a, (σ.rpc.pc n).call = some (k, a) ∧ d ∈ σ.payloads a) →
      d ∈ σ.data.held := by
    rintro n ⟨k, a, hc, hda⟩
    exact h.held_of_payloads (h.issued_of_call hc) hda
  cases act with
  | getMsg n _ => exact h.data.out_of (k := Place.task n) hd
  | finish n => exact hmsg hd
  | handle n _ _ => exact hmsg hd
  | resume n => exact hcall hd
  | write n _ => exact hcall hd
  | recvTake _ _ => exact h.data.out_of (k := Place.receiver) hd
  | start _ _ => exact hd.elim
  | getData _ _ => exact hd.elim
  | fill _ => exact hd.elim
  | request _ => exact hd.elim
  | wake _ => exact hd.elim
  | respond _ => exact hd.elim
  | recvStart _ => exact hd.elim
  | recvAgain => exact hd.elim
  | recvData _ => exact hd.elim
  | arrive _ => exact hd.elim

/-! ## What a step puts -/

/-- **A message and its response** are two. -/
theorem Owned.nodup_messages (ha : σ.Issued a) : (σ.messages a).Nodup := by
  obtain ⟨m, hm⟩ := Option.isSome_iff_exists.1 ha
  rw [Side.messages, hm, Option.bind_some]
  cases hr : m.resp with
  | none => exact List.nodup_singleton a
  | some b =>
      obtain ⟨hne, -⟩ := h.resp_msg hm hr
      simpa using hne

omit h in
/-- A response that is complete is a message. -/
theorem issued_of_completes {r : WriteResult} (hc : σ.completes n r = some a) : σ.Issued a := by
  obtain ⟨j, part, rest, m, -, -, hm, -⟩ := completes_cases hc
  rw [Side.Issued, hm]
  rfl

/-- **What a step puts** is nothing, or a message with its response. -/
theorem Owned.puts_cases (act : SideAction) : act.puts σ = [] ∨ ∃ a, σ.Issued a ∧ act.puts σ = σ.messages a := by
  cases act with
  | finish n =>
      cases ht : (σ.task n).msg with
      | none => exact .inl (by simp [SideAction.puts, ht])
      | some a => exact .inr ⟨a, h.issued_of_msg ht, by simp [SideAction.puts, ht]⟩
  | write n r =>
      cases hc : σ.completes n r with
      | none => exact .inl (by simp [SideAction.puts, hc])
      | some a => exact .inr ⟨a, issued_of_completes hc, by simp [SideAction.puts, hc]⟩
  | _ => exact .inl rfl

/-- **What data buffers a step puts**: none, those of a message that is put,
or the one of a handler's message. -/
theorem Owned.putsData_cases (role : Role) (act : SideAction) : act.putsData role σ = [] ∨
    ∃ a, σ.Issued a ∧
      (act.putsData role σ = σ.payloads a ∨ act.putsData role σ = (σ.payload a).toList) := by
  cases act with
  | finish n =>
      cases ht : (σ.task n).msg with
      | none => exact .inl (by simp [SideAction.putsData, ht])
      | some a => exact .inr ⟨a, h.issued_of_msg ht, .inl (by simp [SideAction.putsData, ht])⟩
  | write n r =>
      cases hc : σ.completes n r with
      | none => exact .inl (by simp [SideAction.putsData, hc])
      | some a => exact .inr ⟨a, issued_of_completes hc, .inl (by simp [SideAction.putsData, hc])⟩
  | handle n dev calloc =>
      cases ht : (σ.task n).msg with
      | none => exact .inl (by simp [SideAction.putsData, ht])
      | some a =>
          obtain ⟨m, hm⟩ := h.exists_msg ht
          cases hr : role.handler dev (cmd m) with
          | none => exact .inl (by simp [SideAction.putsData, ht, hm, hr])
          | some r =>
              by_cases hp : r.payload = none
              · refine .inr ⟨a, h.issued_of_msg ht, .inr ?_⟩
                simp [SideAction.putsData, ht, hm, hr, hp]
              · exact .inl (by simp [SideAction.putsData, ht, hm, hr, hp])
  | _ => exact .inl rfl

theorem Owned.nodup_puts : (act.puts σ).Nodup := by
  rcases h.puts_cases act with e | ⟨a, ha, e⟩
  · rw [e]
    exact List.nodup_nil
  · rw [e]
    exact h.nodup_messages ha

theorem Owned.issued_of_puts (hy : y ∈ act.puts σ) : σ.Issued y := by
  rcases h.puts_cases act with e | ⟨a, ha, e⟩
  · rw [e] at hy
    cases hy
  · rw [e] at hy
    exact h.issued_of_messages ha hy

theorem Owned.nodup_putsData : (act.putsData role σ).Nodup := by
  rcases h.putsData_cases role act with e | ⟨a, ha, e | e⟩
  · rw [e]
    exact List.nodup_nil
  · obtain ⟨m, hm⟩ := Option.isSome_iff_exists.1 ha
    rw [e]
    exact (h.payloads hm).1
  · rw [e]
    cases σ.payload a <;> simp

theorem Owned.held_of_putsData (hd : d ∈ act.putsData role σ) : d ∈ σ.data.held := by
  rcases h.putsData_cases role act with e | ⟨a, ha, e | e⟩
  · rw [e] at hd
    cases hd
  · rw [e] at hd
    exact h.held_of_payloads ha hd
  · rw [e, Option.mem_toList] at hd
    exact h.data.out_of (k := Place.msg a) hd

/-! ## What is out afterwards -/

omit h in
/-- An action on one message takes none away. -/
theorem issued_of_acts (ha : Acts σ.rpc ρ n a m m' p) (hy : σ.Issued y) :
    (ρ.chan.msgs y).isSome = true := by
  rw [ha.msgs, Function.update_apply]
  split
  · rfl
  · exact hy

/-- A message that has been put, and its response. -/
theorem Owned.issued_put {l : Libtask.QLock} {c : Channel} (hm : σ.rpc.chan.msgs a = some m)
    (hu : ∀ t, m.use ≠ .request t)
    (hput : Channel.msgPut cfg { σ.rpc.chan with fdlock := l } a = some c) (hy : σ.Issued y) : (c.msgs y).isSome = true ↔ y ∉ σ.messages a := by
  rw [h.msgPut hm hu hput, mem_messages hm]
  split
  · rename_i hin
    simp [hin]
  · rename_i hin
    exact iff_of_true hy hin

/-- **The messages that a step puts are all that is out no more.** -/
theorem Owned.issued_step (hp : Proper cfg role σ act) (he : act.Enabled cfg role σ)
    (hd : Did cfg role σ act σ') (hy : σ.Issued y) : σ'.Issued y ↔ y ∉ act.puts σ := by
  cases hd with
  | waits hw =>
      cases act with
      | getData => exact iff_of_true hy List.not_mem_nil
      | recvData => exact iff_of_true hy List.not_mem_nil
      | handle => exact iff_of_true hy List.not_mem_nil
      | _ => exact hw.elim
  | start n op => exact iff_of_true hy List.not_mem_nil
  | getData ht hget => exact iff_of_true hy List.not_mem_nil
  | @getMsg n alloc a op o c ht hget =>
      obtain ⟨lists, pending, hS⟩ := h.base.sound
      obtain ⟨-, -, m, hmsgs, -⟩ := msgGet_spec hS he.2.1 hget
      refine iff_of_true ?_ List.not_mem_nil
      simp only [Side.Issued, hmsgs, Function.update_apply]
      split
      · rfl
      · exact hy
  | @fill n a op m ρ ht hm hx =>
      obtain ⟨m₁, ha⟩ := acts_edit n hx
      exact iff_of_true (issued_of_acts ha hy) List.not_mem_nil
  | @request n a op ρ ht hx =>
      obtain ⟨m, m', p, -, -, -, -, ha⟩ := acts_request h.enabled hx
      exact iff_of_true (issued_of_acts ha hy) List.not_mem_nil
  | @finish n a op m τ ρ ht hm hput hx =>
      have e := Side.databufPut_cases hput
      rw [show τ.rpc = σ.rpc by rw [e]] at hx
      simp only [Rpc.Action.exec, Option.bind_eq_bind, Option.bind_eq_some_iff] at hx
      obtain ⟨c, hc, hx⟩ := hx
      obtain rfl := Option.some.inj hx
      have hu := use_of_owned (h.returned ht he.2) hm
      have hputs : SideAction.puts σ (.finish n) = σ.messages a := by
        simp [SideAction.puts, ht, Task.msg]
      rw [hputs]
      exact h.issued_put (l := σ.rpc.chan.fdlock) hm (by simp [hu]) hc hy
  | resume hx =>
      obtain ⟨k, a, m, p, -, -, -, -, ha⟩ := acts_resume hx
      exact iff_of_true (issued_of_acts ha hy) List.not_mem_nil
  | @write n r ρ hc hx =>
      have hputs : SideAction.puts σ (.write n r) = [] := by simp [SideAction.puts, hc]
      rw [hputs]
      refine iff_of_true ?_ List.not_mem_nil
      obtain ⟨k, a, part, rest, hpc, ⟨-, rfl⟩ | ⟨j, m, rfl, hm, ⟨part', rest', -, ha⟩ |
        ⟨-, rfl, ha⟩ | ⟨hleft, rfl, -⟩⟩⟩ := acts_write he.2 hx
      · exact hy
      · exact issued_of_acts ha hy
      · exact issued_of_acts ha hy
      · simp [Side.completes, hpc, hm, hleft] at hc
  | @responded n r a τ ρ hc hx hput =>
      have e := Side.databufPut_cases hput
      obtain ⟨m, l, hm, hu, -, hmput, -⟩ := h.completed he.2 hc hx
      have hputs : SideAction.puts σ (.write n r) = σ.messages a := by simp [SideAction.puts, hc]
      rw [hputs, e]
      exact h.issued_put hm (by simp [hu]) hmput hy
  | wake hx =>
      obtain ⟨a, m, -, ha⟩ := acts_wake hx
      exact iff_of_true (issued_of_acts ha hy) List.not_mem_nil
  | @handle n dev calloc a m r data ptr ρ ht hm hr hsw hx =>
      obtain ⟨m₁, ha⟩ := acts_edit n hx
      exact iff_of_true (issued_of_acts ha hy) List.not_mem_nil
  | @respond n a ρ ht hx =>
      obtain ⟨m, m', p, -, -, -, -, ha⟩ := acts_response h.enabled hx
      exact iff_of_true (issued_of_acts ha hy) List.not_mem_nil
  | recvStart hx =>
      obtain ⟨b, -, -, -, hmsg⟩ := h.started he hx
      refine iff_of_true ?_ List.not_mem_nil
      simp only [Side.Issued, hmsg]
      split
      · rfl
      · exact hy
  | @recvTake k n b q ρ hq hx =>
      refine iff_of_true ?_ List.not_mem_nil
      rw [Side.Issued, Side.received_rpc]
      rcases recvTake_took h.base h.enabled h.receives he.1 hq hx with
        ⟨q', -, hc, -⟩ | ⟨w, m, -, -, -, -, -, -, -, hmsgs⟩ |
        ⟨w, m, a, p, t, -, -, -, -, -, -, -, -, -, -, -, -, hmsg⟩ | ⟨-, -, -, hl⟩
      · simp only [hc]
        exact hy
      · simp only [hmsgs, Function.update_apply]
        split
        · rfl
        · exact hy
      · simp only [hmsg]
        split
        · rfl
        · split
          · rfl
          · exact hy
      · exact absurd hl (hp.stays k n ρ rfl hx)
  | recvAgain hx =>
      rw [h.again hx]
      exact iff_of_true hy List.not_mem_nil
  | recvData hget hx =>
      obtain ⟨b, q, q', -, -, -, rfl⟩ := h.obtained he.1 hx
      exact iff_of_true hy List.not_mem_nil
  | arrive hx =>
      obtain rfl := Option.some.inj hx
      exact iff_of_true hy List.not_mem_nil

omit h in
/-- What follows a receive leaves the pool of data buffers alone. -/
theorem received_data (σ : Side) (b : Addr) (n : TaskId) : (σ.received b n).data = σ.data := by
  simp only [Side.received]
  split
  · rfl
  · split
    · rfl
    · split <;> rfl

/-- **The data buffers that a step puts are all that is out no more.** -/
theorem Owned.held_step (he : act.Enabled cfg role σ) (hd : Did cfg role σ act σ')
    (hy : d ∈ σ.data.held) : d ∈ σ'.data.held ↔ d ∉ act.putsData role σ := by
  have hgot : ∀ {calloc x data}, BufPool.Action.Fresh σ.data calloc → Got σ calloc x data →
      d ∈ data.held := fun hf hget => by
    obtain ⟨-, -, hheld⟩ := h.pool.get hf hget
    rw [hheld]
    exact List.mem_cons_of_mem _ hy
  have hkept : ∀ {ds τ} {ρ : Rpc.State}, ds.Nodup → (∀ y ∈ ds, y ∈ σ.data.held) →
      Side.databufPut ds { σ with rpc := ρ } = some τ → (d ∈ τ.data.held ↔ d ∉ ds) :=
    fun {ds τ ρ} hnd hmem hput => by
      obtain ⟨data, rfl, -, hheld⟩ := databufPut_spec (σ := { σ with rpc := ρ }) h.pool hnd hmem hput
      exact (hheld d).trans (and_iff_right hy)
  cases hd with
  | waits hw =>
      cases act with
      | getData => exact iff_of_true hy List.not_mem_nil
      | recvData => exact iff_of_true hy List.not_mem_nil
      | handle n dev calloc =>
          obtain ⟨a, ht, hnone⟩ := hw
          obtain ⟨m, hm⟩ := h.exists_msg (n := n) (a := a) (by rw [ht]; rfl)
          refine iff_of_true hy ?_
          simp [SideAction.putsData, ht, hm, hnone, Task.msg]
      | _ => exact hw.elim
  | start n op => exact iff_of_true hy List.not_mem_nil
  | getData ht hget => exact iff_of_true (hgot he.2 hget) List.not_mem_nil
  | getMsg ht hget => exact iff_of_true hy List.not_mem_nil
  | fill ht hm hx => exact iff_of_true hy List.not_mem_nil
  | request ht hx => exact iff_of_true hy List.not_mem_nil
  | @finish n a op m τ ρ ht hm hput hx =>
      obtain ⟨hnd, hmem⟩ := h.payloads hm
      have hputs : SideAction.putsData role σ (.finish n) = σ.payloads a := by
        simp [SideAction.putsData, ht, Task.msg]
      have hk := hkept (ρ := σ.rpc) hnd hmem hput
      rw [hputs]
      exact hk
  | resume hx => exact iff_of_true hy List.not_mem_nil
  | @write n r ρ hc hx =>
      have hputs : SideAction.putsData role σ (.write n r) = [] := by simp [SideAction.putsData, hc]
      rw [hputs]
      exact iff_of_true hy List.not_mem_nil
  | @responded n r a τ ρ hc hx hput =>
      obtain ⟨m, l, hm, -⟩ := h.completed he.2 hc hx
      obtain ⟨hnd, hmem⟩ := h.payloads hm
      have hputs : SideAction.putsData role σ (.write n r) = σ.payloads a := by
        simp [SideAction.putsData, hc]
      have hk := hkept hnd hmem hput
      rw [hputs]
      exact hk
  | wake hx => exact iff_of_true hy List.not_mem_nil
  | @handle n dev calloc a m r data ptr ρ ht hm hr hsw hx =>
      have hputs : SideAction.putsData role σ (.handle n dev calloc) =
          (if r.payload = none then σ.payload a else none).toList := by
        simp [SideAction.putsData, ht, hm, hr, Task.msg]
      rw [hputs]
      cases hsw with
      | gets hnone hpay hget =>
          exact iff_of_true (hgot he.2 hget) (by simp [hnone])
      | puts hx hpay hput =>
          rename_i x
          have hx' : x ∈ σ.data.held := h.data.out_of (k := Place.msg a) hx
          have hk := hkept (ρ := σ.rpc) (List.nodup_singleton x) (by simpa using hx') hput
          rw [if_pos hpay, hx]
          exact hk
      | keeps hsame =>
          refine iff_of_true hy ?_
          split
          · rename_i hpay
            rw [hpay, Option.isSome_none, Option.isSome_eq_false_iff] at hsame
            rw [Option.isNone_iff_eq_none.1 hsame]
            exact List.not_mem_nil
          · exact List.not_mem_nil
  | respond ht hx => exact iff_of_true hy List.not_mem_nil
  | recvStart hx => exact iff_of_true hy List.not_mem_nil
  | recvTake hq hx =>
      rw [received_data]
      exact iff_of_true hy List.not_mem_nil
  | recvAgain hx => exact iff_of_true hy List.not_mem_nil
  | recvData hget hx => exact iff_of_true (hgot he.2 hget) List.not_mem_nil
  | arrive hx => exact iff_of_true hy List.not_mem_nil

/-- **Every step keeps the accounts.** -/
theorem Owned.clean (hp : Proper cfg role σ act) (he : act.Enabled cfg role σ) :
    Clean cfg role σ act where
  touched _ ha := ⟨h.issued_of_touches ha, h.not_free (h.issued_of_touches ha)⟩
  touched_data _ hd := ⟨h.held_of_touches hd, h.not_dataFree (h.held_of_touches hd)⟩
  once := h.nodup_puts
  once_data := h.nodup_putsData
  put _ ha := ⟨h.issued_of_puts ha, h.not_free (h.issued_of_puts ha)⟩
  put_data _ hd := ⟨h.held_of_putsData hd, h.not_dataFree (h.held_of_putsData hd)⟩
  back _ hx _ ha := h.issued_step hp he (did hx) ha
  back_data _ hx _ hd := h.held_step he (did hx) hd

end

end Splitter

end VmwareProto
