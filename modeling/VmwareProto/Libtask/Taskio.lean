import VmwareProto.Library.System
import VmwareProto.Libtask.Task
/-!
# `taskio`

`taskio.c`: tasks that read, write, accept and do file I/O, the contexts in
which a task that has to wait is recorded, and `aiotask`, which waits for
events when all other tasks do and wakes the tasks they are for. Under it a
kernel: descriptor numbers, the readiness of what is open, and epoll. What
a descriptor number stands for is a file, a new one with every open.

A step is what the running task does up to its next system call or its
next `taskswitch`, a turn of the scheduler, or something the kernel does.
The event descriptor of libaio is no number here; `LibaioState` is the
task on whose stack it lies.
-/

namespace VmwareProto

namespace Libtask

abbrev Fd := ℕ
/-- What a number stands for from an open to a close. -/
abbrev File := ℕ
/-- Where a `TaskSocketContext` lies. -/
abbrev Ctx := ℕ

/-! ## The kernel -/

/-- What a task asks of a descriptor. -/
inductive Op
  | read
  | write
  | accept
  deriving DecidableEq, Repr

/-- The two fields of a context that record a task. -/
inductive Side
  | reader
  | writer
  deriving DecidableEq, Repr

/-- Where a task that waits is recorded. -/
def Op.side : Op → Side
  | write => .writer
  | _ => .reader

/-- `EPOLLIN`, `EPOLLOUT`, `EPOLLERR` and `EPOLLHUP` -/
structure Mask where
  epollin : Bool
  epollout : Bool
  err : Bool
  hup : Bool
  deriving DecidableEq, Repr

namespace Mask

def empty : Mask := ⟨false, false, false, false⟩

def inter (m n : Mask) : Mask :=
  ⟨m.epollin && n.epollin, m.epollout && n.epollout, m.err && n.err, m.hup && n.hup⟩

def union (m n : Mask) : Mask :=
  ⟨m.epollin || n.epollin, m.epollout || n.epollout, m.err || n.err, m.hup || n.hup⟩

def diff (m n : Mask) : Mask :=
  ⟨m.epollin && !n.epollin, m.epollout && !n.epollout, m.err && !n.err, m.hup && !n.hup⟩

/-- The direction of one side. -/
def has (m : Mask) : Side → Bool
  | .reader => m.epollin
  | .writer => m.epollout

def set (m : Mask) : Side → Bool → Mask
  | .reader, b => { m with epollin := b }
  | .writer, b => { m with epollout := b }

/-- `wakey`: an error or a hang-up is for both. -/
def wakes (m : Mask) (s : Side) : Bool := m.err || m.hup || m.has s

end Mask

inductive Kind
  | socket
  | fifoIn
  | fifoOut
  | timer
  /-- open before the program begins, and not the program's to close -/
  | system
  deriving DecidableEq, Repr

/-- The calls that such a descriptor is open for. -/
def Kind.allows : Kind → Op → Bool
  | fifoIn, op => op = .read
  | timer, op => op = .read
  | fifoOut, op => op = .write
  | _, _ => true

/-- An entry of the epoll instance. -/
structure Interest where
  ctx : Ctx
  events : Mask
  /-- `EPOLLET` -/
  edge : Bool
  deriving DecidableEq, Repr

/-- What `read`, `write` or `accept` answers. -/
inductive Outcome
  /-- so many bytes, and whether the direction is ready still -/
  | moved (k : ℕ) (left : Bool)
  /-- `EAGAIN` -/
  | again
  /-- 0 -/
  | closed
  /-- another error -/
  | failed
  deriving DecidableEq, Repr

structure Files where
  table : Fd → Option File
  nfiles : File
  kind : File → Kind
  ready : File → Mask
  interest : File → Option Interest
  /-- what edges have been seen and not been reported -/
  queued : File → Mask

namespace Files

variable (F : Files)

/-- What of its readiness epoll reports of a file. -/
def reportable (f : File) (i : Interest) : Mask :=
  (F.ready f).inter { i.events with err := true, hup := true }

/-- `open`, `socket` or `accept`, with the number `fd`. -/
def openFile (k : Kind) (fd : Fd) (m : Mask) : Files where
  table := Function.update F.table fd (some F.nfiles)
  nfiles := F.nfiles + 1
  kind := Function.update F.kind F.nfiles k
  ready := Function.update F.ready F.nfiles m
  interest := Function.update F.interest F.nfiles none
  queued := Function.update F.queued F.nfiles .empty

/-- epoll forgets a file. -/
def forget (f : File) : Files :=
  { F with
    interest := Function.update F.interest f none, queued := Function.update F.queued f .empty }

/-- `close` -/
def close (fd : Fd) : Files :=
  match F.table fd with
  | none => F
  | some f => { F.forget f with table := Function.update F.table fd none }

/-- `EPOLL_CTL_ADD`; `none` is an error. -/
def epollAdd (fd : Fd) (i : Interest) : Option Files :=
  match F.table fd with
  | none => none
  | some f =>
      if (F.interest f).isSome = true then none
      else some { F with
        interest := Function.update F.interest f (some i)
        queued := Function.update F.queued f (if i.edge = true then F.reportable f i else .empty) }

/-- `EPOLL_CTL_DEL` -/
def epollDel (fd : Fd) : Files :=
  match F.table fd with
  | none => F
  | some f => F.forget f

/-- The readiness of a file becomes `m`. A direction that becomes ready is
an edge, and there may be `more`. -/
def change (f : File) (m more : Mask) : Files :=
  { F with
    ready := Function.update F.ready f m
    queued := match F.interest f with
      | some ⟨_, events, true⟩ =>
          Function.update F.queued f ((F.queued f).union
            (((m.diff (F.ready f)).union (more.inter m)).inter { events with err := true, hup := true }))
      | _ => F.queued }

/-- A call takes what there is, or leaves some. -/
def drain (f : File) (s : Side) (left : Bool) : Files :=
  { F with ready := Function.update F.ready f ((F.ready f).set s left) }

/-- The lowest free number. -/
def Lowest (fd : Fd) : Prop := F.table fd = none ∧ ∀ i < fd, F.table i ≠ none

instance (fd : Fd) : Decidable (F.Lowest fd) := inferInstanceAs (Decidable (_ ∧ _))

/-- What a call on `fd` may answer: `EAGAIN` is the answer of a direction
that is not ready. -/
def answers (op : Op) (fd : Fd) (n : ℕ) (o : Outcome) : Bool :=
  match F.table fd with
  | none => o = .failed
  | some f =>
      if (F.kind f).allows op = false then o = .failed
      else if (F.ready f).has op.side = false then o = .again || (n = 0 && o = .closed)
      else
        match o with
        | .moved k _ => op ≠ .accept && 0 < k && k ≤ n
        | .again => false
        | _ => true

/-- `accept` on `fd` has a connection. -/
def connects (fd : Fd) : Bool :=
  (F.table fd).any fun f => (F.kind f).allows .accept && (F.ready f).has .reader

/-- What `epoll_wait` may report of a file: an edge it has seen, with what
of it is ready still; a level that is ready. -/
def reports (f : File) (m : Mask) : Bool :=
  match F.interest f with
  | none => false
  | some i =>
      if i.edge = true then
        F.queued f ≠ .empty && m ≠ .empty && ((F.queued f).inter (F.reportable f i)).diff m = .empty
      else m ≠ .empty && m = F.reportable f i

/-- A level that is ready, which `epoll_wait` does report. -/
def due (f : File) : Bool :=
  match F.interest f with
  | none => false
  | some i => !i.edge && F.reportable f i ≠ .empty

/-- `epoll_wait` reports a file: its edges are seen. -/
def report (f : File) : Files := { F with queued := Function.update F.queued f .empty }

/-- The context that is reported with a file. -/
def context (f : File) : Ctx := (F.interest f).elim 0 Interest.ctx

end Files

/-! ## Contexts -/

inductive TaskType
  | socket
  | fifo
  deriving DecidableEq, Repr

/-- `TaskSocketContext`, with its `reader` and its `writer`. -/
structure TaskSocketContext where
  tasktype : TaskType
  fd : Fd
  waiter : Side → Option TaskId

/-- `task_sockfd_register` and `task_fifofd_register` -/
inductive Registration
  | sock
  | fifo (input : Bool)
  deriving DecidableEq, Repr

namespace Registration

def tasktype : Registration → TaskType
  | sock => .socket
  | fifo _ => .fifo

def events : Registration → Mask
  | sock => ⟨true, true, false, false⟩
  | fifo input => ⟨input, !input, false, false⟩

def edge : Registration → Bool
  | sock => true
  | fifo _ => false

/-- `reg_epoll` -/
def regEpoll : Registration → Bool
  | sock => true
  | fifo input => input

end Registration

/-- `TASKIO_MAXFDVALUE` -/
def taskioMaxFdValue : ℕ := 512

/-- The contexts: `TCarray` and the memory of `calloc`. Of a context one
keeps in mind how and for what it was registered. -/
structure Contexts where
  tcarray : Fd → Option Ctx
  ctx : Ctx → TaskSocketContext
  nctx : Ctx
  live : Ctx → Bool
  reg : Ctx → Registration
  file : Ctx → Option File

namespace Contexts

variable (C : Contexts)

/-- `ctxt_lookup` -/
def lookup (fd : Fd) : Option Ctx := if fd < taskioMaxFdValue then C.tcarray fd else none

/-- `calloc` and `ctxt_insert` -/
def insert (r : Registration) (fd : Fd) (f : Option File) : Contexts where
  tcarray := Function.update C.tcarray fd (some C.nctx)
  ctx := Function.update C.ctx C.nctx ⟨r.tasktype, fd, fun _ => none⟩
  nctx := C.nctx + 1
  live := Function.update C.live C.nctx true
  reg := Function.update C.reg C.nctx r
  file := Function.update C.file C.nctx f

/-- `ctxt_delete` and `free` -/
def delete (fd : Fd) (c : Ctx) : Contexts :=
  { C with tcarray := Function.update C.tcarray fd none, live := Function.update C.live c false }

/-- `tscp->reader = t` or `tscp->writer = t` -/
def record (c : Ctx) (s : Side) (t : Option TaskId) : Contexts :=
  { C with
    ctx := Function.update C.ctx c
      { C.ctx c with waiter := Function.update (C.ctx c).waiter s t } }

/-- Somebody is recorded. -/
def waited (c : Ctx) : Bool := ((C.ctx c).waiter .reader).isSome || ((C.ctx c).waiter .writer).isSome

end Contexts

/-! ## Tasks and `aiotask` -/

/-- An element of the array `aiotask` gets from `epoll_wait`. -/
inductive Event
  | ctx (c : Ctx) (m : Mask)
  | libaio
  deriving DecidableEq, Repr

/-- What `epoll_wait` reports, as the kernel has it. -/
inductive Report
  | file (f : File) (m : Mask)
  | eventfd
  deriving DecidableEq, Repr

def Report.source : Report → Option File
  | file f _ => some f
  | eventfd => none

/-- What a task is at. -/
inductive Pc
  /-- between two operations -/
  | top
  /-- at the top of the loop of `task_netrw` or `tasknet_accept`, with `n`
  bytes to go; here a task waits that is recorded in its context -/
  | netrw (op : Op) (fd : Fd) (c : Ctx) (n : ℕ)
  /-- the call said `EAGAIN` -/
  | again (op : Op) (fd : Fd) (c : Ctx) (n : ℕ)
  /-- in `task_aiorw` -/
  | aiorw
  /-- in `taskwakeupall` -/
  | wakeall (r : ℕ)
  /-- in the `taskyield` of `task_fd_deregister` -/
  | deregister (fd : Fd)
  /-- `aiotask` before its first step -/
  | start
  /-- before `taskyield` -/
  | poll
  /-- in `taskyield`, with `tasknswitch` as it was -/
  | yielded (n : ℕ)
  /-- in `epoll_wait` -/
  | wait
  /-- the events it has still to look at -/
  | dispatch (es : List Event)
  /-- in `libaio_done`, with so many completions to go -/
  | reap (n : ℕ) (es : List Event)
  deriving DecidableEq, Repr

structure Taskio where
  tasks : Tasks
  pc : TaskId → Pc
  files : Files
  contexts : Contexts
  /-- requests the kernel has, and those it is done with -/
  submitted : List TaskId
  completed : List TaskId
  /-- the counter of `taskio_eventfd` -/
  eventfd : ℕ

namespace Taskio

variable (σ : Taskio)

/-- `task_fd_register` -/
def register (r : Registration) (fd : Fd) : Taskio :=
  if fd < taskioMaxFdValue ∧ σ.contexts.tcarray fd = none then
    let C := σ.contexts.insert r fd (σ.files.table fd)
    if r.regEpoll = false then { σ with contexts := C }
    else
      match σ.files.epollAdd fd ⟨σ.contexts.nctx, r.events, r.edge⟩ with
      | some F => { σ with files := F, contexts := C }
      | none => { σ with contexts := C.delete fd σ.contexts.nctx }
  else σ

/-- A task recorded in a context is made ready. -/
def wake (c : Ctx) (s : Side) : Taskio :=
  match (σ.contexts.ctx c).waiter s with
  | none => σ
  | some t => { σ with tasks := σ.tasks.taskready t, contexts := σ.contexts.record c s none }

/-- `task_fd_deregister` of task `x`, up to its end or its `taskyield`. -/
def deregister (x : TaskId) (fd : Fd) : Taskio :=
  if (σ.files.table fd).isSome = true then σ
  else
    match σ.contexts.lookup fd with
    | none => { σ with files := σ.files.epollDel fd }
    | some c =>
        let τ := (σ.wake c .reader).wake c .writer
        let τ := { τ with contexts := τ.contexts.delete fd c }
        if σ.contexts.waited c = true then
          { τ with tasks := τ.tasks.taskyield x, pc := Function.update τ.pc x (.deregister fd) }
        else { τ with files := τ.files.epollDel fd }

/-- `sockio_done` -/
def sockioDone (c : Ctx) (m : Mask) : Option Taskio :=
  if σ.contexts.waited c = false then none
  else
    let σ := if m.wakes .reader = true then σ.wake c .reader else σ
    some (if m.wakes .writer = true then σ.wake c .writer else σ)

/-- `fifoio_done` -/
def fifoioDone (c : Ctx) (m : Mask) : Option Taskio :=
  if m.hup = true ∧ σ.contexts.waited c = false then some σ else σ.sockioDone c m

/-- An event of a context. -/
def ioDone (c : Ctx) (m : Mask) : Option Taskio :=
  match (σ.contexts.ctx c).tasktype with
  | .socket => σ.sockioDone c m
  | .fifo => σ.fifoioDone c m

/-- One event of `aiotask`'s array, up to the loop of `libaio_done`. -/
def dispatch (x : TaskId) (es : List Event) : Event → Option Taskio
  | .ctx c m => do
      let τ ← σ.ioDone c m
      some { τ with pc := Function.update τ.pc x (.dispatch es) }
  | .libaio =>
      if σ.eventfd = 0 then none
      else some { σ with eventfd := 0, pc := Function.update σ.pc x (.reap σ.eventfd es) }

/-- What `epoll_wait` may report. -/
def reports : Report → Bool
  | .file f m => σ.files.reports f m
  | .eventfd => 0 < σ.eventfd

/-- What `epoll_wait` may return: at least one event and no file twice; a
level that is ready is among them. -/
def MayReport (rs : List Report) : Prop :=
  rs ≠ [] ∧ (rs.map Report.source).Nodup ∧ (∀ r ∈ rs, σ.reports r = true) ∧
  (∀ f < σ.files.nfiles, σ.files.due f = true → some f ∈ rs.map Report.source) ∧
  (0 < σ.eventfd → .eventfd ∈ rs)

instance (rs : List Report) : Decidable (σ.MayReport rs) :=
  inferInstanceAs (Decidable (_ ∧ _ ∧ _ ∧ _ ∧ _))

/-- The array of events for a list of reports. -/
def event : Report → Event
  | .file f m => .ctx (σ.files.context f) m
  | .eventfd => .libaio

/-- The kernel after it returned from `epoll_wait`. -/
def reported (F : Files) : List Report → Files
  | [] => F
  | .file f _ :: rs => reported (F.report f) rs
  | .eventfd :: rs => reported F rs

end Taskio

end Libtask

end VmwareProto
