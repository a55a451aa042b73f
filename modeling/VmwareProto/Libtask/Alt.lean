import VmwareProto.Libtask.QLock
import VmwareProto.Library.LittleEndian
import VmwareProto.Library.Slots
import VmwareProto.Library.Cooperative
/-!
# Channels

`channel.c`: channels and `chanalt`. A pointer to an alternative is a place
in the array that its task gave `chanalt`; `v` is what the alternative's `v`
points to. What is sent and received is written down as it is moved. `none`
is an `abort`, a failed assertion or a pointer that leads nowhere.
-/

namespace VmwareProto

namespace Libtask

namespace Chan

open Cooperative

abbrev ChanId := ℕ

/-- The ops of alternatives; `CHANEND` and `CHANNOBLK` end their array. -/
inductive AltOp
  | chansnd
  | chanrcv
  | channop
  deriving DecidableEq, Repr

/-- `otherop`, where there is another. -/
def otherop : AltOp → AltOp
  | .chansnd => .chanrcv
  | .chanrcv => .chansnd
  | .channop => .channop

/-- `&a[i]`, where `a` is the array of the task. -/
structure AltPtr where
  task : TaskId
  i : ℕ
  deriving DecidableEq, Repr

structure Alt where
  c : ChanId
  /-- what `v` points to -/
  v : Option (List Byte)
  op : AltOp
  task : TaskId
  xalt : AltPtr
  deriving DecidableEq, Repr

structure Altarray where
  a : List AltPtr
  /-- how many there is room for -/
  m : ℕ
  deriving DecidableEq, Repr

namespace Altarray

variable (A : Altarray)

def addarray (alt : AltPtr) : Altarray where
  a := A.a ++ [alt]
  m := if A.a.length = A.m then A.m + 16 else A.m

/-- The last entry goes to the place of the `i`th. -/
def delarray (i : ℕ) : Altarray :=
  match A.a.getLast? with
  | none => A
  | some last => { A with a := (A.a.set i last).dropLast }

end Altarray

structure Channel where
  bufsize : ℕ
  elemsize : ℕ
  buf : List Byte
  nbuf : ℕ
  off : ℕ
  asend : Altarray
  arecv : Altarray
  deriving DecidableEq, Repr

/-- `chancreate`; `malloc` returned memory that holds `buf`. -/
def chancreate (elemsize bufsize : ℕ) (buf : List Byte) : Channel where
  bufsize := bufsize
  elemsize := elemsize
  buf := buf
  nbuf := 0
  off := 0
  asend := ⟨[], 0⟩
  arecv := ⟨[], 0⟩

namespace Channel

variable (C : Channel)

def chanarray : AltOp → Option Altarray
  | .chansnd => some C.asend
  | .chanrcv => some C.arecv
  | .channop => none

/-- The array of an op is changed. -/
def setArray (A : Altarray) : AltOp → Channel
  | .chansnd => { C with asend := A }
  | .chanrcv => { C with arecv := A }
  | .channop => C

/-- What is in the channel, the oldest first. -/
def contents : List (List Byte) := Slots.contents C.elemsize C.bufsize C.buf C.off C.nbuf

/-- The `n` bytes that `amove` moves. -/
def moved (n : ℕ) : Option (List Byte) → List Byte
  | none => List.replicate n 0
  | some src => src.take n

/-- `amove` -/
def amove (dst src : Option (List Byte)) (n : ℕ) : Option (List Byte) :=
  dst.map fun d => moved n src ++ d.drop n

/-- The element at `off`, to be received. -/
def front : List Byte := Slots.slot C.elemsize C.buf C.off

/-- The receiver's part of `altcopy`. -/
def pop : Channel :=
  { C with nbuf := C.nbuf - 1, off := if C.off + 1 = C.bufsize then 0 else C.off + 1 }

/-- The sender's part. -/
def push (v : Option (List Byte)) : Channel :=
  { C with
    buf := Slots.write C.elemsize C.buf ((C.off + C.nbuf) % C.bufsize) (moved C.elemsize v)
    nbuf := C.nbuf + 1 }

end Channel

/-- An element that was moved from or to the `v` of an alternative. -/
structure Deal where
  alt : AltPtr
  c : ChanId
  op : AltOp
  val : List Byte
  deriving DecidableEq, Repr

/-- The channels and the alternatives. -/
structure Heap where
  chan : ChanId → Option Channel
  alts : TaskId → List Alt

namespace Heap

variable (H : Heap)

def alt (p : AltPtr) : Option Alt := (H.alts p.task)[p.i]?

def setAlt (p : AltPtr) (a : Alt) : Heap :=
  { H with alts := Function.update H.alts p.task ((H.alts p.task).set p.i a) }

def setChan (c : ChanId) (C : Channel) : Heap :=
  { H with chan := Function.update H.chan c (some C) }

/-- `altcanexec` -/
def altcanexec (a : Alt) : Bool :=
  match a.op, H.chan a.c with
  | .channop, _ => false
  | _, none => false
  | op, some C =>
      if C.bufsize = 0 then
        match C.chanarray (otherop op) with
        | none => false
        | some ar => ar.a.length ≠ 0
      else
        match op with
        | .chansnd => C.nbuf < C.bufsize
        | .chanrcv => 0 < C.nbuf
        | .channop => false

/-- `altqueue` -/
def altqueue (p : AltPtr) : Option Heap := do
  let a ← H.alt p
  let C ← H.chan a.c
  let ar ← C.chanarray a.op
  some (H.setChan a.c (C.setArray (ar.addarray p) a.op))

/-- `altdequeue` -/
def altdequeue (p : AltPtr) : Option Heap := do
  let a ← H.alt p
  let C ← H.chan a.c
  let ar ← C.chanarray a.op
  let i ← ar.a.idxOf? p
  some (H.setChan a.c (C.setArray (ar.delarray i) a.op))

/-- `f` of each alternative from `a` on that is not a `CHANNOP`. -/
def eachAlt (f : Heap → AltPtr → Option Heap) (a : AltPtr) : ℕ → Heap → Option Heap
  | 0, H => some H
  | n + 1, H =>
      (H.alt a).bind fun x =>
        (if x.op = .channop then some H else f H a).bind (eachAlt f ⟨a.task, a.i + 1⟩ n)

/-- `altalldequeue` -/
def altalldequeue (a : AltPtr) : Option Heap :=
  eachAlt altdequeue a ((H.alts a.task).length - a.i) H

/-- `altcopy` on the channel `c`, once it is known who sends and who
receives. -/
def copy (c : ChanId) (C : Channel) : Option AltPtr → Option AltPtr → Option (Heap × List Deal)
  | none, none => some (H, [])
  | some s, none => do
      let x ← H.alt s
      some (H.setChan c (C.push x.v), [⟨s, c, .chansnd, Channel.moved C.elemsize x.v⟩])
  | none, some r => do
      let y ← H.alt r
      let v := Channel.amove y.v (some C.front) C.elemsize
      some ((H.setAlt r { y with v := v }).setChan c C.pop,
        [⟨r, c, .chanrcv, Channel.moved C.elemsize (some C.front)⟩])
  | some s, some r => do
      let x ← H.alt s
      let y ← H.alt r
      let sent : Deal := ⟨s, c, .chansnd, Channel.moved C.elemsize x.v⟩
      if C.nbuf = 0 then
        let v := Channel.amove y.v x.v C.elemsize
        some (H.setAlt r { y with v := v },
          [sent, ⟨r, c, .chanrcv, Channel.moved C.elemsize x.v⟩])
      else
        let v := Channel.amove y.v (some C.front) C.elemsize
        some ((H.setAlt r { y with v := v }).setChan c (C.pop.push x.v),
          [⟨r, c, .chanrcv, Channel.moved C.elemsize (some C.front)⟩, sent])

/-- `altcopy` of an alternative and another one, or none. -/
def altcopy (s : AltPtr) (r : Option AltPtr) : Option (Heap × List Deal) := do
  let x ← H.alt s
  let C ← H.chan x.c
  let other ← match r with
    | none => some none
    | some r => (H.alt r).map some
  match x.op with
  | .chanrcv => if ∀ y ∈ other, y.op = .chansnd then H.copy x.c C r (some s) else none
  | .chansnd => if ∀ y ∈ other, y.op = .chanrcv then H.copy x.c C (some s) r else none
  | .channop => none

/-- `altexec`, and the task it makes ready; `r` is what `rand` returns. -/
def altexec (p : AltPtr) (r : ℕ) : Option (Heap × List Deal × Option TaskId) := do
  let a ← H.alt p
  let C ← H.chan a.c
  match C.chanarray (otherop a.op) with
  | none => (H.altcopy p none).map fun (H, ds) => (H, ds, none)
  | some ar =>
      if ar.a.length = 0 then (H.altcopy p none).map fun (H, ds) => (H, ds, none)
      else do
        let other ← ar.a[r % ar.a.length]?
        let (H, ds) ← H.altcopy p (some other)
        let o ← H.alt other
        let H ← H.altalldequeue o.xalt
        let b ← H.alt o.xalt
        some (H.setAlt o.xalt { b with xalt := other }, ds, some o.task)

/-- What `chanalt` comes to: it returns, or waits in `taskswitch`. -/
inductive Outcome
  | returns (H : Heap) (ret : Option ℕ) (deals : List Deal) (ready : Option TaskId)
  | waits (H : Heap)

/-- The array that task `t` gives `chanalt`. -/
def enter (t : TaskId) (a : List Alt) : Heap :=
  { H with alts := Function.update H.alts t (a.map fun x => { x with task := t, xalt := ⟨t, 0⟩ }) }

/-- `chanalt` of task `t` with the array `a`, up to its return or to its
`taskswitch`; `r` and `r'` are what `rand` returns. -/
def chanalt (t : TaskId) (a : List Alt) (canblock : Bool) (r r' : ℕ) : Option Outcome :=
  let H := H.enter t a
  let can := (List.range a.length).filter fun i => (H.alt ⟨t, i⟩).any H.altcanexec
  if can.length ≠ 0 then do
    let i ← can[r % can.length]?
    let (H, ds, ready) ← H.altexec ⟨t, i⟩ r'
    some (.returns H (some i) ds ready)
  else if canblock = false then some (.returns H none [] none)
  else (eachAlt altqueue ⟨t, 0⟩ a.length H).map .waits

/-- What `chanalt` of task `t` returns when the task runs again. -/
def awake (t : TaskId) : Option ℕ := do
  let b ← H.alt ⟨t, 0⟩
  if b.xalt.task = t then some b.xalt.i else none

end Heap

/-! ## Tasks -/

/-- What a call of `chanalt` returned, and its array. -/
structure Returned where
  ret : Option ℕ
  alts : List Alt

/-- The tasks of a thread and their channels, with what has been moved and
what their calls returned. A task sleeps in the `taskswitch` of `chanalt`. -/
structure State where
  heap : Heap
  tasks : Threads TaskId Unit
  /-- with the number of its task's call -/
  deals : List (ℕ × Deal)
  calls : TaskId → List Returned

inductive Action
  /-- `taskcreate`, `taskexit`, `taskyield` and the scheduler -/
  | turn (a : Turn TaskId)
  | chancreate (c : ChanId) (elemsize bufsize : ℕ) (buf : List Byte)
  | chanalt (a : List Alt) (canblock : Bool) (r r' : ℕ)
  /-- a task that waited in `chanalt` returns -/
  | awake

namespace State

variable (σ : State)

/-- The deals with the numbers of the calls they are in. -/
def number (ds : List Deal) : List (ℕ × Deal) :=
  ds.map fun d => ((σ.calls d.alt.task).length, d)

/-- Task `t` returns from `chanalt`. -/
def retire (t : TaskId) (ret : Option ℕ) : State :=
  { σ with
    tasks := σ.tasks.resume t
    calls := Function.update σ.calls t (σ.calls t ++ [⟨ret, σ.heap.alts t⟩]) }

end State

namespace Action

def exec (σ : State) : Action → Option State
  | turn a => do
      let T ← a.exec σ.tasks
      some { σ with tasks := T }
  | chancreate c elemsize bufsize buf =>
      some { σ with heap := σ.heap.setChan c (Chan.chancreate elemsize bufsize buf) }
  | chanalt a canblock r r' => do
      let t ← σ.tasks.running
      match ← σ.heap.chanalt t a canblock r r' with
      | .returns H ret ds ready =>
          some (State.retire { σ with
            heap := H, deals := σ.deals ++ σ.number ds
            tasks := σ.tasks.ready ready.toList } t ret)
      | .waits H => some { σ with heap := H, tasks := σ.tasks.suspend t () }
  | awake => do
      let t ← σ.tasks.running
      let i ← σ.heap.awake t
      some (σ.retire t (some i))

/-- The alternatives of a call are of channels there are, and their `v`
points to an element or is nil. -/
def Proper (H : Heap) (a : List Alt) : Prop :=
  ∀ x ∈ a, x.op ≠ .channop → ∃ C ∈ H.chan x.c, ∀ d ∈ x.v, C.elemsize ≤ d.length

instance (H : Heap) (a : List Alt) : Decidable (Proper H a) :=
  inferInstanceAs (Decidable (∀ x ∈ a, _ → ∃ C ∈ H.chan x.c, _))

/-- The sizes given to `chancreate` are `int`s, and so is the buffer's,
`bufsize*elemsize`. -/
def FitInts (elemsize bufsize : ℕ) : Prop :=
  elemsize < 2 ^ 31 ∧ bufsize < 2 ^ 31 ∧ bufsize * elemsize < 2 ^ 31

instance (elemsize bufsize : ℕ) : Decidable (FitInts elemsize bufsize) :=
  inferInstanceAs (Decidable (_ ∧ _ ∧ _))

/-- Who can do what: the running task is where it calls something, or in
`chanalt`; new channels are new ones, of a size that can be computed. -/
def Enabled (σ : State) : Action → Prop
  | turn a => a.Enabled σ.tasks
  | chancreate c elemsize bufsize buf =>
      σ.tasks.At .top ∧ σ.heap.chan c = none ∧ FitInts elemsize bufsize ∧
        buf.length = bufsize * elemsize
  | chanalt a _ _ _ => σ.tasks.At .top ∧ Proper σ.heap a
  | awake => σ.tasks.At (.waits ())

instance (σ : State) : (a : Action) → Decidable (a.Enabled σ)
  | turn a => inferInstanceAs (Decidable (a.Enabled σ.tasks))
  | chancreate c elemsize bufsize buf => inferInstanceAs
      (Decidable (σ.tasks.At .top ∧ σ.heap.chan c = none ∧ FitInts elemsize bufsize ∧
        buf.length = bufsize * elemsize))
  | chanalt a _ _ _ => inferInstanceAs (Decidable (σ.tasks.At .top ∧ Proper σ.heap a))
  | awake => inferInstanceAs (Decidable (σ.tasks.At (.waits ())))

end Action

/-! `_chanop` and its callers. -/

/-- The array of `_chanop`. -/
def chanop (c : ChanId) (op : AltOp) (p : Option (List Byte)) : List Alt := [⟨c, p, op, 0, ⟨0, 0⟩⟩]

namespace Action

/-- `_chanop` up to its return; `r` and `r'` are what `rand` returns. -/
def chanop (c : ChanId) (op : AltOp) (p : Option (List Byte)) (canblock : Bool) (r r' : ℕ) :
    Action :=
  .chanalt (Chan.chanop c op p) canblock r r'

variable (c : ChanId) (v : Option (List Byte)) (r r' : ℕ)

def chansend : Action := chanop c .chansnd v true r r'

def channbsend : Action := chanop c .chansnd v false r r'

def chanrecv : Action := chanop c .chanrcv v true r r'

def channbrecv : Action := chanop c .chanrcv v false r r'

end Action

/-- A thread whose first task is `t`. -/
def State.Initial (σ : State) : Prop :=
  ∃ t, σ.tasks = .start t ∧ (∀ c, σ.heap.chan c = none) ∧ σ.deals = [] ∧ ∀ t, σ.calls t = []

end Chan

end Libtask

end VmwareProto
