import VmwareProto.Library.Counters
import VmwareProto.Library.Cycles
import VmwareProto.Library.Rings
import VmwareProto.Library.System
/-!
# The intrusive list and the queue

`dll.h` and `queue.c`, of which both programs have a copy. Where every node is
in a circular list, each macro does one thing to one list, whichever of the
nodes it writes coincide. A queue adds behind its head and takes from before
it, and the iterator goes the same way. The length of a queue is an `int`, and
a queue serves its entries as long as they are no more than that can count.
-/

namespace VmwareProto

namespace Common

/-! ## `dll.h` -/

section Dll

variable {ι : Type*} [DecidableEq ι] (L : Links ι) (dllp newp : ι)

/-- `DLL_INIT`. -/
def dllInit : Links ι := (L.setNext dllp dllp).setPrev dllp dllp

/-- `DLL_REM`. -/
def dllRem : Links ι :=
  let L := L.setPrev (L.next dllp) (L.prev dllp)
  let L := L.setNext (L.prev dllp) (L.next dllp)
  let L := L.setNext dllp dllp
  L.setPrev dllp dllp

/-- `DLL_ADD`. -/
def dllAdd : Links ι :=
  let L := L.setNext newp (L.next dllp)
  let L := L.setPrev newp dllp
  let L := L.setPrev (L.next dllp) newp
  L.setNext dllp newp

/-- `DLL_REVADD`. -/
def dllRevadd : Links ι :=
  let L := L.setPrev newp (L.prev dllp)
  let L := L.setNext newp dllp
  let L := L.setPrev dllp newp
  L.setNext (L.prev newp) newp

/-- `DLL_MOVE`. -/
def dllMove (oldlist newlist : ι) : Links ι := dllRem (dllAdd L oldlist newlist) oldlist

/-- `DLL_ISEMPTY`. -/
def dllIsempty : Bool := L.next dllp == dllp

/-! The macros are the operations on rings. -/

theorem dllInit_eq : dllInit L dllp = L.init dllp := rfl

theorem dllRem_eq : dllRem L dllp = L.rem dllp := rfl

theorem dllAdd_eq : dllAdd L dllp newp = L.add dllp newp := rfl

theorem dllRevadd_eq : dllRevadd L dllp newp = L.revAdd dllp newp := rfl

theorem dllMove_eq (h n : ι) : dllMove L h n = L.move h n := rfl

theorem dllIsempty_eq : dllIsempty L dllp = L.isEmpty dllp := rfl

/-- **What the macros do to circular lists**, with every list there is before
and after. A node that is added is a list of its own. -/
structure DllRefines : Prop where
  add : ∀ h n, L.Unlinked n → n ≠ h →
    (dllAdd L h n).cycles = Links.insertAfter L.cycles h n ∧ (dllAdd L h n).WellFormed
  revadd : ∀ h n, L.Unlinked n → n ≠ h →
    (dllRevadd L h n).cycles = Links.insertBefore L.cycles h n ∧ (dllRevadd L h n).WellFormed
  /-- beside itself it stays what it is -/
  self : ∀ n, L.Unlinked n → dllAdd L n n = L ∧ dllRevadd L n n = L
  rem : ∀ a, (dllRem L a).cycles = Links.remove L.cycles a ∧ (dllRem L a).WellFormed
  rem_self : ∀ a, (dllRem L a).Unlinked a
  move : ∀ h n, L.Unlinked n →
    (dllMove L h n).cycles = Links.replace L.cycles h n ∧ (dllMove L h n).WellFormed

variable {L}

theorem dllRefines (hL : L.WellFormed) : DllRefines L where
  add _ _ hn hne := Links.cycles_add hL hn hne
  revadd _ _ hn hne := Links.cycles_revAdd hL hn hne
  self _ hn := ⟨Links.add_self hn, Links.revAdd_self hn⟩
  rem a := Links.cycles_rem hL a
  rem_self a := by
    rw [dllRem_eq, Links.Unlinked, ← Links.coe_mem_cycles, (Links.cycles_rem hL a).1]
    exact .inl (.inr rfl)
  move h _ hn := Links.cycles_move hL hn h

end Dll

/-! ## `queue.c` -/

/-- `queue_t`s `Q` and entries `A`. -/
structure QueueMem (Q A : Type*) where
  /-- `q_dll` of every queue and the links of every entry -/
  links : Links (Node Q A)
  qLen : Q → ℤ

/-- `queue_iter_t`. -/
structure QueueIter (Q A : Type*) where
  qiQp : Q
  qiCurdllp : Node Q A

variable {Q A : Type*} [DecidableEq Q] [DecidableEq A]

namespace QueueMem

variable (σ : QueueMem Q A) (qp : Q) (entry : A)

/-- `queue_init`. -/
def queueInit : QueueMem Q A where
  links := dllInit σ.links (.head qp)
  qLen := Function.update σ.qLen qp 0

/-- `queue_add`; `none` when `q_len` overflows. -/
def queueAdd : Option (QueueMem Q A) :=
  (Counter.incr (σ.qLen qp)).map fun n => {
    links := dllAdd σ.links (.head qp) (.elem entry)
    qLen := Function.update σ.qLen qp n }

/-- `queue_rem`, without its assertion. -/
def unqueued (e : Node Q A) : QueueMem Q A where
  links := dllRem σ.links e
  qLen := Function.update σ.qLen qp (σ.qLen qp - 1)

/-- `queue_rem`: what it returns and `*entry`. -/
def queueRem : Option (ℤ × Option (Node Q A) × QueueMem Q A) :=
  if dllIsempty σ.links (.head qp) = true then some (-1, none, σ)
  else
    let e := σ.links.prev (.head qp)
    let τ := σ.unqueued qp e
    if 0 ≤ τ.qLen qp then some (0, some e, τ) else none

/-- `queue_iter_init`. -/
def queueIterInit : QueueIter Q A := ⟨qp, .head qp⟩

/-- `queue_iter_next`; `none` is NULL. -/
def queueIterNext (qip : QueueIter Q A) : Option (Node Q A) × QueueIter Q A :=
  if σ.links.prev qip.qiCurdllp = .head qip.qiQp then (none, qip)
  else (some (σ.links.prev qip.qiCurdllp), ⟨qip.qiQp, σ.links.prev qip.qiCurdllp⟩)

/-- What a call of `queue_iter_next` returns that comes after `k` others. -/
def visited (k : ℕ) : Option (Node Q A) :=
  (σ.queueIterNext ((fun qip => (σ.queueIterNext qip).2)^[k] (queueIterInit qp))).1

end QueueMem

/-! ## Runs -/

/-- Queues and what was done with each. -/
structure Queued (Q A : Type*) where
  mem : QueueMem Q A
  /-- the entries that were added, in order -/
  added : Q → List A
  /-- the entries that were returned, in order -/
  returned : Q → List (Node Q A)

inductive QueueAction (Q A : Type*)
  | add (qp : Q) (entry : A)
  | rem (qp : Q)

namespace QueueAction

variable (σ : Queued Q A)

def exec : QueueAction Q A → Option (Queued Q A)
  | add qp entry => (σ.mem.queueAdd qp entry).map fun μ => {
      mem := μ
      added := Function.update σ.added qp (σ.added qp ++ [entry])
      returned := σ.returned }
  | rem qp => (σ.mem.queueRem qp).map fun r => {
      mem := r.2.2
      added := σ.added
      returned := Function.update σ.returned qp (σ.returned qp ++ r.2.1.toList) }

/-- An entry that is added is unlinked. -/
def Enabled : QueueAction Q A → Prop
  | add _ entry => dllIsempty σ.mem.links (.elem entry) = true
  | rem _ => True

/-- An entry is added to a queue that has fewer than an `int` can count. -/
def Countable : QueueAction Q A → Prop
  | add qp _ => (σ.added qp).length - (σ.returned qp).length + 1 < 2 ^ 31
  | rem _ => True

instance : (act : QueueAction Q A) → Decidable (act.Enabled σ)
  | add _ entry => inferInstanceAs (Decidable (dllIsempty σ.mem.links (.elem entry) = true))
  | rem _ => inferInstanceAs (Decidable True)

end QueueAction

/-- Queues after `queue_init`, in memory where every node is in a list. -/
def queueSystem (Q A : Type*) [DecidableEq Q] [DecidableEq A] :
    System (Queued Q A) (QueueAction Q A) where
  init σ := σ.mem.links.WellFormed ∧ (∀ q, σ.mem.queueInit q = σ.mem) ∧
    ∀ q, σ.added q = [] ∧ σ.returned q = []
  enabled σ act := act.Enabled σ
  exec σ act := act.exec σ

instance (σ : Queued Q A) (act : QueueAction Q A) : Decidable ((queueSystem Q A).enabled σ act) :=
  inferInstanceAs (Decidable (act.Enabled σ))

/-! ## Queues as sequences -/

variable {σ σ' : Queued Q A} {μ : QueueMem Q A} {q : Q} {a : A} {xs : List A} {pending : Q → List A}
  {act : QueueAction Q A}

/-- **The queue `q` is the sequence `xs`**: those are the entries that were
added and not returned, in order; `queue_rem` returns the first of them, or -1
if there is none; and the iterator visits them all, in order, and then returns
NULL. -/
structure Queued.Serves (σ : Queued Q A) (q : Q) (xs : List A) : Prop where
  order : (σ.added q).map .elem = σ.returned q ++ xs.map .elem
  len : σ.mem.qLen q = xs.length
  rem : ∃ τ, σ.mem.queueRem q = some (if xs = [] then -1 else 0, xs.head?.map .elem, τ)
  iter : ∀ k, σ.mem.visited q k = xs[k]?.map .elem

/-- The queues, from their ends, are the lists under their heads. -/
structure Fifo (σ : Queued Q A) (pending : Q → List A) : Prop where
  wellFormed : σ.mem.links.WellFormed
  rings : σ.mem.links.Rings fun q => (pending q).reverse
  len : ∀ q, σ.mem.qLen q = (pending q).length
  order : ∀ q, (σ.added q).map .elem = σ.returned q ++ (pending q).map .elem

/-- The iterator from a node `t` of the queue on. -/
theorem queueIterNext_iterate {t : Node Q A} (hc : μ.links.flip.Chain t (xs.map .elem) (.head q))
    (k : ℕ) : (μ.queueIterNext ((fun qip => (μ.queueIterNext qip).2)^[k] ⟨q, t⟩)).1 =
      xs[k]?.map .elem := by
  induction k generalizing t xs with
  | zero =>
      cases xs with
      | nil => simp [QueueMem.queueIterNext, show μ.links.prev t = .head q from hc.1]
      | cons x xs => simp [QueueMem.queueIterNext, show μ.links.prev t = .elem x from hc.1]
  | succ k ih =>
      rw [Function.iterate_succ_apply]
      cases xs with
      | nil =>
          -- the end: the iterator stays
          have hnext : (μ.queueIterNext ⟨q, t⟩).2 = ⟨q, t⟩ := by
            simp [QueueMem.queueIterNext, show μ.links.prev t = .head q from hc.1]
          rw [hnext]
          exact ih hc
      | cons x xs =>
          have hnext : (μ.queueIterNext ⟨q, t⟩).2 = ⟨q, .elem x⟩ := by
            simp [QueueMem.queueIterNext, show μ.links.prev t = .elem x from hc.1]
          rw [hnext, List.getElem?_cons_succ]
          exact ih hc.2.2

theorem queueRem_nil (hr : μ.links.Ring (.head q) []) : μ.queueRem q = some (-1, none, μ) :=
  if_pos (hr.isEmpty_iff.2 rfl)

/-- `queue_rem` takes out what is before the head. -/
theorem queueRem_cons (hr : μ.links.Ring (.head q) (((a :: xs).reverse).map .elem))
    (hl : μ.qLen q = (a :: xs).length) :
    μ.queueRem q = some (0, some (.elem a), μ.unqueued q (.elem a)) := by
  rw [List.reverse_cons, List.map_append] at hr
  have hprev : μ.links.prev (.head q) = .elem a := hr.prev_head
  have hne : ¬dllIsempty μ.links (.head q) = true := fun e => by
    have hnil := hr.isEmpty_iff.1 e
    simp at hnil
  have hlen : 0 ≤ (μ.unqueued q (.elem a)).qLen q := by
    simp only [QueueMem.unqueued, Function.update_self, hl, List.length_cons]
    omega
  rw [QueueMem.queueRem, if_neg hne, hprev]
  exact if_pos hlen

namespace Fifo

theorem serves (h : Fifo σ pending) (q : Q) : σ.Serves q (pending q) where
  order := h.order q
  len := h.len q
  rem := by
    have hr := h.rings.ring q
    have hl := h.len q
    cases hp : pending q with
    | nil =>
        rw [hp] at hr
        exact ⟨_, queueRem_nil hr⟩
    | cons a xs =>
        rw [hp] at hr hl
        exact ⟨_, queueRem_cons hr hl⟩
  iter k := by
    refine queueIterNext_iterate ?_ k
    have hflip := (h.rings.ring q).flip.chain
    rwa [← List.map_reverse, List.reverse_reverse] at hflip

omit [DecidableEq Q] [DecidableEq A] in
/-- The entries in a queue are those added and not returned. -/
theorem length_eq (h : Fifo σ pending) (q : Q) :
    (pending q).length = (σ.added q).length - (σ.returned q).length := by
  have horder := congrArg List.length (h.order q)
  simp only [List.length_map, List.length_append] at horder
  omega

/-- **An entry is added exactly when it can be counted.** -/
theorem queueAdd_eq (h : Fifo σ pending) :
    σ.mem.queueAdd q a = if (pending q).length + 1 < 2 ^ 31 then some {
      links := dllAdd σ.mem.links (.head q) (.elem a)
      qLen := Function.update σ.mem.qLen q ((pending q).length + 1 : ℕ) } else none := by
  rw [QueueMem.queueAdd, h.len q]
  split
  · rename_i hlt
    rw [Counter.incr_natCast hlt]
    rfl
  · rename_i hge
    rw [Counter.incr_eq_none (by rw [Counter.intMax]; omega)]
    rfl

/-- An entry that is added comes last. -/
theorem add (h : Fifo σ pending) (ha : dllIsempty σ.mem.links (.elem a) = true)
    (hx : (QueueAction.add q a).exec σ = some σ') :
    Fifo σ' (Function.update pending q (pending q ++ [a])) := by
  simp only [QueueAction.exec, h.queueAdd_eq] at hx
  split at hx
  swap
  · cases hx
  cases hx
  have hnot := fun g => h.rings.notMem_of_isEmpty ha g
  refine ⟨(Links.cycles_add h.wellFormed (h.wellFormed.unlinked ha) (by simp)).2, ?_, fun g => ?_,
    fun g => ?_⟩
  · have hadd := h.rings.add hnot q
    refine (congrArg (Links.Rings _) (funext fun g => ?_)).mp hadd
    by_cases hg : g = q
    · rw [hg, Function.update_self, Function.update_self, List.reverse_append]
      rfl
    · rw [Function.update_of_ne hg, Function.update_of_ne hg]
  · by_cases hg : g = q
    · rw [hg]
      simp only [Function.update_self, List.length_append, List.length_singleton]
    · rw [Function.update_of_ne hg, ← h.len g]
      exact Function.update_of_ne hg ..
  · by_cases hg : g = q
    · rw [hg]
      simp only [Function.update_self, List.map_append, h.order q, List.append_assoc]
    · simp only [Function.update_of_ne hg]
      exact h.order g

/-- The first entry is returned. -/
theorem rem (h : Fifo σ pending) (hx : (QueueAction.rem q).exec σ = some σ') :
    Fifo σ' (Function.update pending q (pending q).tail) := by
  have hr := h.rings.ring q
  have hl := h.len q
  cases hp : pending q with
  | nil =>
      rw [hp] at hr
      simp only [QueueAction.exec, queueRem_nil hr, Option.map_some, Option.toList_none,
        List.append_nil, Function.update_eq_self, Option.some.injEq] at hx
      subst hx
      have hsame : Function.update pending q [].tail = pending := by
        rw [List.tail_nil, ← hp, Function.update_eq_self]
      rw [hsame]
      exact h
  | cons a xs =>
      rw [hp] at hr hl
      simp only [QueueAction.exec, queueRem_cons hr hl, Option.map_some, Option.toList_some,
        Option.some.injEq] at hx
      subst hx
      have hlist : (pending q).reverse = xs.reverse ++ [a] := by rw [hp, List.reverse_cons]
      have hnot : a ∉ xs.reverse := fun hm => by
        have hnd := h.rings.nodup q
        rw [hlist, List.nodup_append] at hnd
        exact hnd.2.2 a hm a List.mem_cons_self rfl
      refine ⟨(Links.cycles_rem h.wellFormed _).2, ?_, fun g => ?_, fun g => ?_⟩
      · have hrem := h.rings.rem (h := q) (a := a) (by rw [hlist]; simp)
        refine (congrArg (Links.Rings _) (funext fun g => ?_)).mp hrem
        by_cases hg : g = q
        · rw [hg, Function.update_self, Function.update_self, hlist,
            List.erase_append_right _ hnot, List.erase_cons_head, List.append_nil]
          rfl
        · rw [Function.update_of_ne hg, Function.update_of_ne hg]
      · by_cases hg : g = q
        · rw [hg, Function.update_self]
          simp only [QueueMem.unqueued, Function.update_self, hl, List.length_cons, List.tail_cons]
          omega
        · rw [Function.update_of_ne hg, ← h.len g]
          exact Function.update_of_ne hg ..
      · by_cases hg : g = q
        · rw [hg]
          simp only [Function.update_self, h.order q, hp, List.map_cons, List.tail_cons,
            List.append_assoc, List.singleton_append]
        · simp only [Function.update_of_ne hg]
          exact h.order g

theorem init (h : (queueSystem Q A).init σ) : Fifo σ fun _ => [] := by
  obtain ⟨hwf, hinit, hhist⟩ := h
  refine ⟨hwf, ⟨fun q => ?_, by simp⟩, fun q => ?_, fun q => ?_⟩
  · have hring : (σ.mem.queueInit q).links.Ring (.head q) [] := Links.ring_init
    rwa [hinit q] at hring
  · have hlen : (σ.mem.queueInit q).qLen q = 0 := Function.update_self ..
    rwa [hinit q] at hlen
  · rw [(hhist q).1, (hhist q).2]
    rfl

theorem step (h : Fifo σ pending) (he : act.Enabled σ) (hx : act.exec σ = some σ') :
    ∃ pending', Fifo σ' pending' := by
  cases act with
  | add qp entry => exact ⟨_, h.add he hx⟩
  | rem qp => exact ⟨_, h.rem hx⟩

theorem reachable (h : (queueSystem Q A).Reachable σ) : ∃ pending, Fifo σ pending := by
  refine h.invariant (I := fun σ => ∃ pending, Fifo σ pending) (fun σ hi => ⟨_, init hi⟩) ?_
  rintro σ act σ' ⟨pending, hI⟩ he hx
  exact hI.step he hx

/-- **A call returns exactly when it keeps the count.** -/
theorem exec_iff (h : Fifo σ pending) : (∃ σ', act.exec σ = some σ') ↔ act.Countable σ := by
  cases act with
  | add qp entry =>
      simp only [QueueAction.exec, QueueAction.Countable, h.queueAdd_eq, h.length_eq]
      split
      · exact iff_of_true ⟨_, rfl⟩ ‹_›
      · exact iff_of_false (by rintro ⟨σ', hx⟩; cases hx) ‹_›
  | rem qp =>
      obtain ⟨τ, hτ⟩ := (h.serves qp).rem
      exact iff_of_true ⟨_, by rw [QueueAction.exec, hτ]; rfl⟩ trivial

end Fifo

/-- **Circular lists and queues refine sequences.** Each macro does what it
is for to every heap of circular lists. After every sequence of `queue_add` and
`queue_rem`, every queue is the sequence of its entries, and the sequence goes
on exactly as long as an `int` can count the entries. -/
theorem dll_queue_refine_iff {ι : Type*} [DecidableEq ι] {L : Links ι} (hL : L.WellFormed)
    (h : (queueSystem Q A).Reachable σ) :
    DllRefines L ∧ σ.mem.links.WellFormed ∧ (∀ q, ∃ xs, σ.Serves q xs) ∧
      ∀ act : QueueAction Q A, (∃ σ', act.exec σ = some σ') ↔ act.Countable σ := by
  obtain ⟨pending, hfifo⟩ := Fifo.reachable h
  exact ⟨dllRefines hL, hfifo.wellFormed, fun q => ⟨_, hfifo.serves q⟩, fun _ => hfifo.exec_iff⟩

/-- One queue, empty. -/
def emptyQueue (A : Type) : Queued Unit A :=
  ⟨⟨⟨id, id⟩, fun _ => 0⟩, fun _ => [], fun _ => []⟩

theorem emptyQueue_init (A : Type) [DecidableEq A] :
    (queueSystem Unit A).init (emptyQueue A) := by
  refine ⟨Links.wellFormed_self, fun q => ?_, fun q => ⟨rfl, rfl⟩⟩
  simp [QueueMem.queueInit, dllInit, Links.setNext, Links.setPrev, emptyQueue]

/-- A list of two nodes; and a queue that two entries were added to, with the
first one returned. -/
theorem dll_queue_refine_two : ∃ σ : Queued Unit Bool, σ.returned () = [.elem false] ∧
    DllRefines (dllAdd (⟨id, id⟩ : Links ℕ) 0 1) ∧ σ.Serves () [true] := by
  have hL : (dllAdd (⟨id, id⟩ : Links ℕ) 0 1).WellFormed :=
    (Links.cycles_add Links.wellFormed_self (Links.wellFormed_self.unlinked rfl) (by decide)).2
  have hrun : (((queueSystem Unit Bool).run (emptyQueue Bool)
      [.add () false, .add () true, .rem ()]).any fun σ =>
      decide (σ.added () = [false, true] ∧ σ.returned () = [.elem false])) = true := by
    decide +kernel
  obtain ⟨σ, hσ, hp⟩ := System.Steps.of_run_any hrun
  obtain ⟨hadd, hret⟩ := of_decide_eq_true hp
  obtain ⟨hdll, -, hq, -⟩ :=
    dll_queue_refine_iff hL (hσ.reachable (.init (emptyQueue_init Bool)))
  obtain ⟨xs, hxs⟩ := hq ()
  have hmap : [true].map (Node.elem (H := Unit)) = xs.map .elem := by
    have horder := hxs.order
    rw [hadd, hret] at horder
    exact (List.cons.inj horder).2
  obtain rfl := List.map_injective_iff.2 (fun _ _ e => Node.elem.inj e) hmap
  exact ⟨σ, hret, hdll, hxs⟩

/-- A queue of the numbers below `k`, while they can be counted. -/
theorem exists_filled {k : ℕ} (hk : k < 2 ^ 31) : ∃ σ : Queued Unit ℕ,
    (queueSystem Unit ℕ).Reachable σ ∧ σ.added () = List.range k ∧ σ.returned () = [] ∧
    ∀ a, k ≤ a → σ.mem.links.Unlinked (.elem a) := by
  induction k with
  | zero =>
      exact ⟨_, .init (emptyQueue_init ℕ), rfl, rfl, fun a _ =>
        Links.wellFormed_self.unlinked (by simp [Links.isEmpty])⟩
  | succ k ih =>
      -- the next one is `k`, which no list has yet
      obtain ⟨σ, hr, hadd, hret, hout⟩ := ih (by omega)
      obtain ⟨pending, hfifo⟩ := Fifo.reachable hr
      have hlen := hfifo.length_eq ()
      rw [hadd, hret, List.length_range, List.length_nil, Nat.sub_zero] at hlen
      have hfree : dllIsempty σ.mem.links (.elem k) = true :=
        (hout k (Nat.le_refl k)).isEmpty_iff.2 rfl
      have hq := hfifo.queueAdd_eq (q := ()) (a := k)
      rw [if_pos (by omega)] at hq
      have hx : (QueueAction.add () k).exec σ = some {
          mem := ⟨dllAdd σ.mem.links (.head ()) (.elem k),
            Function.update σ.mem.qLen () ((pending ()).length + 1 : ℕ)⟩
          added := Function.update σ.added () (σ.added () ++ [k])
          returned := σ.returned } := by
        rw [QueueAction.exec, hq]
        rfl
      refine ⟨_, hr.step (a := QueueAction.add () k) hfree hx, ?_, hret, fun a ha => ?_⟩
      · simp only [Function.update_self, hadd, List.range_succ]
      · have hpend : pending () = List.range k := by
          have horder := hfifo.order ()
          rw [hadd, hret, List.nil_append] at horder
          exact (List.map_injective_iff.2 (fun _ _ e => Node.elem.inj e) horder).symm
        have hring := hfifo.rings.ring ()
        rw [hpend] at hring
        have hne : a ≠ k := by omega
        refine (hout a (by omega)).add_of_disjoint hring ?_ (by simp) ?_
        · simpa using hne.symm
        · simpa using by omega

/-- **More than an `int` can count**: a sequence of `queue_add` that does not
come to its end. -/
theorem queue_overflow : ¬∀ (σ : Queued Unit ℕ) (act : QueueAction Unit ℕ),
    (queueSystem Unit ℕ).Reachable σ → act.Enabled σ →
    ∃ σ', act.exec σ = some σ' ∧ ∀ q, ∃ xs, σ'.Serves q xs := by
  intro hall
  obtain ⟨σ, hr, hadd, hret, hout⟩ := exists_filled (show 2 ^ 31 - 1 < 2 ^ 31 by decide)
  have hfree : dllIsempty σ.mem.links (.elem (2 ^ 31 - 1)) = true :=
    (hout _ (Nat.le_refl _)).isEmpty_iff.2 rfl
  obtain ⟨σ', hx, -⟩ := hall σ (.add () (2 ^ 31 - 1)) hr hfree
  obtain ⟨pending, hfifo⟩ := Fifo.reachable hr
  have hroom : (QueueAction.add () (2 ^ 31 - 1)).Countable σ := hfifo.exec_iff.1 ⟨σ', hx⟩
  rw [QueueAction.Countable, hadd, hret, List.length_range] at hroom
  exact absurd hroom (by decide)

end Common

end VmwareProto
