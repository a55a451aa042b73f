import VmwareProto.Mpp.Worlds
/-!
# What the steps do

`Step` says of each branch of each step what it starts from and what it
leaves. The invariants are proved over its cases; `step_of_exec` is the only
place where the functions are taken apart.
-/

namespace VmwareProto

namespace Mpp

/-- The message an actor is putting, and where it goes on. -/
def Pc.putting : Pc → Option (Addr × Pc)
  | .put _ a => some (a, .idle)
  | .finish a e r => some (a, .done e r)
  | .dropped b => some (b, .closing .test)
  | _ => none

/-- The command whose failure is reported once the message is put. -/
def Pc.rejects (m : Msg) : Pc → List CmdId
  | .put .request _ => [m.exCmd]
  | _ => []

/-- The same place in `rpc_chan_close`, but at another of its steps. -/
def Pc.reclose (s : Closing) : Pc → Pc
  | .failing k a _ => .failing k a s
  | .closing _ => .closing s
  | p => p

/-- The cases of a step. -/
inductive Step (cfg : Cfg) (σ : State) : Action → State → Prop
  | get {n k alloc msgtype msglen pad body e c a m} :
      σ.pc (.world n) = .idle → σ.chan.live alloc = false → σ.chan.CanGet cfg false →
      σ.chan.msgGet cfg (.world n) alloc msgtype msglen pad body = some (c, a) → c.msgs a = some m →
      Step cfg σ (.get n k alloc msgtype msglen pad body e)
        ({ σ with
          chan := c.setMsg a { m with exCmd := e }
          issued := σ.issued ++ if k = Kind.request then [e] else [] }.setPc (.world n) (.got k a))
  | edit {n f k a m} : σ.pc (.world n) = .got k a → σ.chan.msgs a = some m →
      Step cfg σ (.edit n f) { σ with chan := σ.chan.setMsg a { m with frame := f } }
  | abandon {n a} : σ.pc (.world n) = .got .request a →
      Step cfg σ (.abandon n) (σ.setPc (.world n) (.put .request a))
  | check {n k a m} : σ.pc (.world n) = .got k a → σ.chan.msgs a = some m → m.Asserts →
      σ.chan.enabled = true →
      Step cfg σ (.check n)
        ({ σ with
          chan := σ.chan.setMsg a { m with
            frame := { m.frame with hdr := k.set m.frame.hdr } } }.setPc (.world n) (.checked k a))
  | refuse {n a m} : σ.pc (.world n) = .got .request a → σ.chan.msgs a = some m →
      m.resp = none → σ.chan.enabled = false →
      Step cfg σ (.check n) (σ.setPc (.world n) (.put .request a))
  | leave {n a m} : σ.pc (.world n) = .got .response a → σ.chan.msgs a = some m →
      m.resp = none → σ.chan.enabled = false →
      Step cfg σ (.check n)
        ({ σ with chan := σ.chan.setMsg a { m with use := .returned } }.setPc (.world n) .idle)
  | lockRequest {n a m} : σ.pc (.world n) = .checked .request a → σ.chan.msgs a = some m →
      σ.chan.lock = none →
      Step cfg σ (.lock n)
        ({ σ with
          chan := ({ σ.chan with lock := some (.world n) }.setMsg a { m with
            use := .sending (.world n) }).hashAdd a (cfg.getBucket m.frame.hdr.seqid)
          log := σ.log ++ [m.frame] }.setPc (.world n)
            (.sending .request a m.frame .header m.frame.hdrBytes))
  | lockResponse {n a m} : σ.pc (.world n) = .checked .response a → σ.chan.msgs a = some m →
      σ.chan.lock = none →
      Step cfg σ (.lock n)
        ({ σ with
          chan := { σ.chan with lock := some (.world n) }
          log := σ.log ++ [m.frame] }.setPc (.world n)
            (.sending .response a m.frame .header m.frame.hdrBytes))
  | write {n k a part rest m j} : σ.pc (.world n) = .send k a part rest → σ.chan.msgs a = some m →
      σ.chan.closes = 0 → 0 < j → j ≤ rest.length →
      Step cfg σ (.write n (some j))
        ({ σ with sent := σ.sent ++ rest.take j }.setPc (.world n)
          (.sending k a m.frame part (rest.drop j)))
  | fail {n k a part rest m} : σ.pc (.world n) = .send k a part rest → σ.chan.msgs a = some m →
      Step cfg σ (.write n none)
        ({ σ with chan := σ.chan.setMsg a { m with use := .held (.world n) } }.setPc (.world n)
          (.failing k a .test))
  | unlockRequest {n a m} : σ.pc (.world n) = .unlock .request a → σ.chan.msgs a = some m →
      Step cfg σ (.unlock n)
        ({ σ with
          chan := { σ.chan with lock := none }.setMsg a { m with use := .pending }
          accepted := σ.accepted ++ [m.exCmd] }.setPc (.world n) .idle)
  | unlockResponse {n a m} : σ.pc (.world n) = .unlock .response a → σ.chan.msgs a = some m →
      Step cfg σ (.unlock n)
        ({ σ with chan := { σ.chan with lock := none } }.setPc (.world n) (.put .response a))
  | close {x s} : (σ.pc x).closer = some s → s ≠ .out →
      Step cfg σ (.close x)
        ({ σ with chan := (σ.closeStep s).1 }.setPc x ((σ.pc x).reclose (σ.closeStep s).2))
  | closeUnlock {x k a} : σ.pc x = .failing k a .out →
      Step cfg σ (.close x)
        ({ σ with chan := { σ.chan with lock := none } }.setPc x (.put k a))
  | closeReturn {x} : σ.pc x = .closing .out → Step cfg σ (.close x) (σ.setPc x .idle)
  | putResp {x a p m c} : (σ.pc x).putting = some (a, p) → σ.chan.msgs a = some m → m.resp ≠ none →
      σ.chan.putResp cfg a = some c → Step cfg σ (.put x) { σ with chan := c }
  | put {x a p m c} : (σ.pc x).putting = some (a, p) → σ.chan.msgs a = some m → m.resp = none →
      σ.chan.poolPut cfg a = some c →
      Step cfg σ (.put x)
        ({ σ with chan := c, rejected := σ.rejected ++ (σ.pc x).rejects m }.setPc x p)
  | take {n b q m} : σ.pc (.worker n) = .idle → σ.queue = b :: q → σ.chan.msgs b = some m →
      Step cfg σ (.take n)
        ({ σ with
          chan := σ.chan.setMsg b { m with use := .held (.worker n) }
          queue := q }.setPc (.worker n) (.item b))
  | drop {n b m} : σ.pc (.worker n) = .item b → σ.chan.msgs b = some m →
      m.frame.hdr.isConnClosed = true →
      Step cfg σ (.dispatch n) (σ.setPc (.worker n) (.dropped b))
  | find {n b r a c m} : σ.pc (.worker n) = .item b → σ.chan.msgs b = some r →
      r.frame.hdr.isConnClosed = false → r.frame.hdr.isReq = false → σ.chan.lock = none →
      σ.chan.hashLookup r.frame.hdr.seqid (cfg.getBucket r.frame.hdr.seqid) = some (some a) →
      σ.chan.hashRem a = some c → c.msgs a = some m →
      Step cfg σ (.dispatch n)
        ({ σ with
          chan := c.setMsg a { m with use := .held (.worker n) }
          matched := σ.matched ++ [(m.frame, r.frame)] }.setPc (.worker n) (.found a b))
  | handle {n a b m r s} : σ.pc (.worker n) = .found a b → σ.chan.msgs a = some m →
      σ.chan.msgs b = some r → cfg.handler (σ.cmds m.exCmd) (State.requestOf m r) = some s →
      Step cfg σ (.handle n)
        ({ σ with
          chan := (σ.chan.setMsg a { m with resp := some b }).setMsg b { r with
            use := .attached a }
          handed := σ.handed ++ [(m.frame, r.frame)] }.setPc (.worker n) (.finish a m.exCmd s))
  | finish {n e s} : σ.pc (.worker n) = .done e s →
      Step cfg σ (.finish n)
        ({ σ with
          cmds := Function.update σ.cmds e s
          completed := σ.completed ++ [e] }.setPc (.worker n) .idle)
  | recvStart {alloc c b} : σ.pc .receiver = .idle → σ.chan.live alloc = false →
      σ.chan.CanGet cfg true → σ.chan.poolGet cfg true alloc = some (c, b) →
      Step cfg σ (.recvStart alloc)
        ({ σ with chan := c.setMsg b ⟨.ofStored cfg.toRecvCfg [] none, none, 0, .held .receiver⟩ }.setPc
          .receiver (.reading b))
  | recv {b m r} : σ.pc .receiver = .reading b → σ.chan.msgs b = some m →
      rpcRecv cfg.toRecvCfg cfg.sock σ.inq = r → r.result = .message →
      Step cfg σ .recv
        ({ σ with
          chan := σ.chan.setMsg b { m with
            frame := .ofStored cfg.toRecvCfg r.stored r.payload
            use := .queued }
          queue := σ.queue ++ [b]
          inq := σ.inq.drop r.taken
          taken := σ.taken ++ [σ.inq.take r.taken] }.setPc .receiver .idle)
  | recvEnd {b m f j} : σ.pc .receiver = .reading b → σ.chan.msgs b = some m →
      (rpcRecv cfg.toRecvCfg cfg.sock (σ.inq.take j)).result = .closed →
      f.hdr.isConnClosed = true →
      Step cfg σ (.recvEnd j)
        ({ σ with
          chan := σ.chan.setMsg b { m with frame := f, use := .queued }
          queue := σ.queue ++ [b] }.setPc .receiver .left)
  | arrive {bs} : Step cfg σ (.arrive bs)
      { σ with inq := σ.inq ++ bs, arrived := σ.arrived ++ bs }

namespace Step

variable {cfg : Cfg} {σ σ' : State} {act : Action} {x : Actor} {a : Addr} {k : Kind} {n : ℕ}

theorem of_get {alloc msgtype msglen : ℕ} {pad : HdrPad} {body : List Byte} {e : CmdId}
    (he : (Action.get n k alloc msgtype msglen pad body e).allowed cfg σ = true)
    (hx : σ.get cfg (.world n) k alloc msgtype msglen pad body e = some σ') :
    Step cfg σ (.get n k alloc msgtype msglen pad body e) σ' := by
  simp only [Action.allowed, decide_eq_true_eq] at he
  simp only [State.get, Option.bind_eq_bind, Option.bind_eq_some_iff] at hx
  obtain ⟨⟨c, a⟩, hget, m, hm, hx⟩ := hx
  rw [← Option.some.inj hx]
  exact .get he.1 he.2.1 he.2.2 hget hm

theorem of_edit {f : Frame} (hx : σ.edit (.world n) f = some σ') : Step cfg σ (.edit n f) σ' := by
  unfold State.edit at hx
  split at hx
  · rename_i k a hpc
    obtain ⟨m, hm, hx⟩ := Option.bind_eq_some_iff.1 hx
    rw [← Option.some.inj hx]
    exact .edit hpc hm
  · cases hx

theorem of_abandon (hx : σ.abandon (.world n) = some σ') : Step cfg σ (.abandon n) σ' := by
  unfold State.abandon at hx
  split at hx
  · rename_i a hpc
    rw [← Option.some.inj hx]
    exact .abandon hpc
  · cases hx

theorem of_check (hx : σ.check (.world n) = some σ') : Step cfg σ (.check n) σ' := by
  unfold State.check at hx
  split at hx
  · rename_i k a hpc
    obtain ⟨m, hm, hx⟩ := Option.bind_eq_some_iff.1 hx
    split at hx
    · cases hx
    · rename_i has
      have has := not_not.1 has
      split at hx
      · rename_i hen
        rw [← Option.some.inj hx]
        exact .check hpc hm has hen
      · rename_i hen
        have hen : σ.chan.enabled = false := Bool.eq_false_iff.2 hen
        cases k with
        | request =>
            rw [← Option.some.inj hx]
            exact .refuse hpc hm has.2 hen
        | response =>
            rw [← Option.some.inj hx]
            exact .leave hpc hm has.2 hen
  · cases hx

theorem of_lock (he : (Action.lock n).allowed cfg σ = true)
    (hx : σ.lock cfg (.world n) = some σ') : Step cfg σ (.lock n) σ' := by
  unfold State.lock at hx
  split at hx
  · rename_i k a hpc
    simp only [Action.allowed, hpc, decide_eq_true_eq] at he
    obtain ⟨m, hm, hx⟩ := Option.bind_eq_some_iff.1 hx
    rw [← Option.some.inj hx]
    cases k with
    | request => exact .lockRequest hpc hm he
    | response => exact .lockResponse hpc hm he
  · cases hx

theorem of_write {j : Option ℕ} (he : (Action.write n j).allowed cfg σ = true)
    (hx : σ.write (.world n) j = some σ') : Step cfg σ (.write n j) σ' := by
  unfold State.write at hx
  split at hx
  · rename_i k a part rest hpc
    simp only [Action.allowed, hpc] at he
    obtain ⟨m, hm, hx⟩ := Option.bind_eq_some_iff.1 hx
    cases j with
    | some j =>
        simp only [decide_eq_true_eq] at he
        rw [← Option.some.inj hx]
        exact .write hpc hm he.1 he.2.1 he.2.2
    | none =>
        rw [← Option.some.inj hx]
        exact .fail hpc hm
  · cases hx

theorem of_unlock (hx : σ.unlock (.world n) = some σ') : Step cfg σ (.unlock n) σ' := by
  unfold State.unlock at hx
  split at hx
  · rename_i k a hpc
    obtain ⟨m, hm, hx⟩ := Option.bind_eq_some_iff.1 hx
    cases k with
    | request =>
        rw [← Option.some.inj hx]
        exact .unlockRequest hpc hm
    | response =>
        rw [← Option.some.inj hx]
        exact .unlockResponse hpc hm
  · cases hx

theorem of_close (hx : σ.close x = some σ') : Step cfg σ (.close x) σ' := by
  unfold State.close at hx
  split at hx
  · rename_i k a hpc
    rw [← Option.some.inj hx]
    exact .closeUnlock hpc
  · rename_i k a s hs hpc
    have h : Step cfg σ (.close x) _ := .close (by rw [hpc, Pc.closer]) hs
    rw [hpc, Pc.reclose] at h
    rwa [← Option.some.inj hx]
  · rename_i hpc
    rw [← Option.some.inj hx]
    exact .closeReturn hpc
  · rename_i s hs hpc
    have h : Step cfg σ (.close x) _ := .close (by rw [hpc, Pc.closer]) hs
    rw [hpc, Pc.reclose] at h
    rwa [← Option.some.inj hx]
  · cases hx

/-- The two halves of `rpc_msg_put`. -/
theorem msgPut_cases {p : Pc} (hx : σ.msgPut cfg x a p = some σ') : ∃ m, σ.chan.msgs a = some m ∧
    ((m.resp ≠ none ∧ ∃ c, σ.chan.putResp cfg a = some c ∧ σ' = { σ with chan := c }) ∨
      m.resp = none ∧ ∃ c, σ.chan.poolPut cfg a = some c ∧
        σ' = { σ with chan := c }.setPc x p) := by
  unfold State.msgPut at hx
  obtain ⟨m, hm, hx⟩ := Option.bind_eq_some_iff.1 hx
  refine ⟨m, hm, ?_⟩
  split at hx
  · rename_i hr
    obtain ⟨c, hc, hx⟩ := Option.bind_eq_some_iff.1 hx
    exact .inl ⟨hr, c, hc, (Option.some.inj hx).symm⟩
  · rename_i hr
    obtain ⟨c, hc, hx⟩ := Option.bind_eq_some_iff.1 hx
    exact .inr ⟨not_not.1 hr, c, hc, (Option.some.inj hx).symm⟩

theorem of_msgPut {p : Pc} (hp : (σ.pc x).putting = some (a, p))
    (hrej : ∀ m, (σ.pc x).rejects m = []) (hx : σ.msgPut cfg x a p = some σ') :
    Step cfg σ (.put x) σ' := by
  obtain ⟨m, hm, ⟨hr, c, hc, rfl⟩ | ⟨hr, c, hc, rfl⟩⟩ := msgPut_cases hx
  · exact .putResp hp hm hr hc
  · have h := Step.put hp hm hr hc
    rwa [hrej, List.append_nil] at h

theorem of_put (hx : σ.put cfg x = some σ') : Step cfg σ (.put x) σ' := by
  unfold State.put at hx
  split at hx
  · rename_i k a hpc
    obtain ⟨m, hm, hx⟩ := Option.bind_eq_some_iff.1 hx
    obtain ⟨σ₁, hput, hx⟩ := Option.bind_eq_some_iff.1 hx
    rw [← Option.some.inj hx]
    obtain ⟨m', hm', ⟨hr, c, hc, rfl⟩ | ⟨hr, c, hc, rfl⟩⟩ := msgPut_cases hput
    · obtain rfl := Option.some.inj (hm.symm.trans hm')
      rw [if_neg fun h => hr h.2]
      exact .putResp (by rw [hpc, Pc.putting]) hm hr hc
    · obtain rfl := Option.some.inj (hm.symm.trans hm')
      have h := Step.put (by rw [hpc, Pc.putting]) hm hr hc
      cases k with
      | request =>
          rw [if_pos ⟨rfl, hr⟩]
          rwa [hpc] at h
      | response =>
          have hrej : (Pc.put .response a).rejects m = [] := rfl
          rw [if_neg fun h => absurd h.1 (by decide)]
          rwa [hpc, hrej, List.append_nil] at h
  · rename_i a e s hpc
    exact of_msgPut (by rw [hpc, Pc.putting]) (fun m => by rw [hpc]; rfl) hx
  · rename_i b hpc
    exact of_msgPut (by rw [hpc, Pc.putting]) (fun m => by rw [hpc]; rfl) hx
  · cases hx

theorem of_take (he : (Action.take n).allowed cfg σ = true) (hx : σ.take (.worker n) = some σ') :
    Step cfg σ (.take n) σ' := by
  simp only [Action.allowed, decide_eq_true_eq] at he
  unfold State.take at hx
  split at hx
  · cases hx
  · rename_i b q hq
    obtain ⟨m, hm, hx⟩ := Option.bind_eq_some_iff.1 hx
    rw [← Option.some.inj hx]
    exact .take he.1 hq hm

theorem of_dispatch (he : (Action.dispatch n).allowed cfg σ = true)
    (hx : σ.dispatch cfg (.worker n) = some σ') : Step cfg σ (.dispatch n) σ' := by
  unfold State.dispatch at hx
  split at hx
  · rename_i b hpc
    obtain ⟨r, hr, hx⟩ := Option.bind_eq_some_iff.1 hx
    simp only [Action.allowed, hpc, hr, decide_eq_true_eq] at he
    split at hx
    · rename_i hcc
      rw [← Option.some.inj hx]
      exact .drop hpc hr hcc
    · rename_i hcc
      split at hx
      · cases hx
      · rename_i hreq
        have hlock : σ.chan.lock = none := (he.resolve_left hcc).resolve_left hreq
        unfold State.rpcResponse at hx
        obtain ⟨e, hlook, hx⟩ := Option.bind_eq_some_iff.1 hx
        cases e with
        | none => cases hx
        | some a =>
            obtain ⟨c, hc, hx⟩ := Option.bind_eq_some_iff.1 hx
            obtain ⟨m, hm, hx⟩ := Option.bind_eq_some_iff.1 hx
            rw [← Option.some.inj hx]
            exact .find hpc hr (Bool.eq_false_iff.2 hcc) (Bool.eq_false_iff.2 hreq) hlock hlook hc hm
  · cases hx

theorem of_handle (hx : σ.handle cfg (.worker n) = some σ') : Step cfg σ (.handle n) σ' := by
  unfold State.handle at hx
  split at hx
  · rename_i a b hpc
    obtain ⟨m, hm, hx⟩ := Option.bind_eq_some_iff.1 hx
    obtain ⟨r, hr, hx⟩ := Option.bind_eq_some_iff.1 hx
    obtain ⟨s, hs, hx⟩ := Option.bind_eq_some_iff.1 hx
    rw [← Option.some.inj hx]
    exact .handle hpc hm hr hs
  · cases hx

theorem of_finish (hx : σ.finish (.worker n) = some σ') : Step cfg σ (.finish n) σ' := by
  unfold State.finish at hx
  split at hx
  · rename_i e s hpc
    rw [← Option.some.inj hx]
    exact .finish hpc
  · cases hx

theorem of_recvStart {alloc : Addr} (he : (Action.recvStart alloc).allowed cfg σ = true)
    (hx : σ.recvStart cfg .receiver alloc = some σ') : Step cfg σ (.recvStart alloc) σ' := by
  simp only [Action.allowed, decide_eq_true_eq] at he
  unfold State.recvStart at hx
  obtain ⟨⟨c, b⟩, hget, hx⟩ := Option.bind_eq_some_iff.1 hx
  rw [← Option.some.inj hx]
  exact .recvStart he.1 he.2.1 he.2.2 hget

theorem of_recv (hx : σ.recv cfg .receiver = some σ') : Step cfg σ .recv σ' := by
  unfold State.recv at hx
  split at hx
  · rename_i b hpc
    simp only at hx
    split at hx
    · rename_i hres
      split at hx
      · cases hx
      · obtain ⟨m, hm, hx⟩ := Option.bind_eq_some_iff.1 hx
        rw [← Option.some.inj hx]
        exact .recv hpc hm rfl hres
    · cases hx
  · cases hx

theorem of_recvEnd {j : ℕ} (hx : σ.recvEnd cfg .receiver j = some σ') :
    Step cfg σ (.recvEnd j) σ' := by
  unfold State.recvEnd at hx
  split at hx
  · rename_i b hpc
    simp only at hx
    split at hx
    · rename_i hres
      split at hx
      · cases hx
      · obtain ⟨m, hm, hx⟩ := Option.bind_eq_some_iff.1 hx
        rw [← Option.some.inj hx]
        refine .recvEnd hpc hm hres ?_
        simp only [MsgHdr.isConnClosed, MsgHdr.setConnClosed, bne_iff_ne]
        intro e
        have := congrArg (·.getLsbD 1) e
        simp at this
    · cases hx
  · cases hx

/-- **A step is one of the cases.** -/
theorem of_exec (he : act.allowed cfg σ = true) (hx : act.exec cfg σ = some σ') :
    Step cfg σ act σ' := by
  cases act with
  | get => exact of_get he hx
  | edit => exact of_edit hx
  | abandon => exact of_abandon hx
  | check => exact of_check hx
  | lock => exact of_lock he hx
  | write => exact of_write he hx
  | unlock => exact of_unlock hx
  | close => exact of_close hx
  | put => exact of_put hx
  | take => exact of_take he hx
  | dispatch => exact of_dispatch he hx
  | handle => exact of_handle hx
  | finish => exact of_finish hx
  | recvStart => exact of_recvStart he hx
  | recv => exact of_recv hx
  | recvEnd => exact of_recvEnd hx
  | arrive bs =>
      rw [← Option.some.inj hx]
      exact .arrive

end Step

end Mpp

end VmwareProto
