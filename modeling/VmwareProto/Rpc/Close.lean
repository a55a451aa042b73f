import VmwareProto.Library.System
import VmwareProto.Libtask.Registration
/-!
# `rpc_chan_close`

The channel's two descriptors, which `rpc_chan_close` closes and deregisters
by their numbers. What a number stands for is a file, a new one with every
open. A task in `rpc_chan_close` goes from one system call to the next, and
another task runs in between only where `task_fd_deregister` yields; but
other threads open and close descriptors at any time, and an open gets the
lowest number that is free. `rpc_chan_deinit` is left out: it waits for the
message buffers of all callers, and none is left when it is done.
-/

namespace VmwareProto

namespace Libtask

/-- `task_fd_deregister` after its `fcntl`, up to its `taskyield` or
`epoll_ctl`: the context that is freed, and whether it yields. No code of
`ctxt_delete` is negative. -/
def Registry.forget (σ : Registry) (fd : ℤ) : Option (Option (Libtask.Ctx × Bool) × Registry) :=
  match σ.ctxtLookup fd with
  | .error _ => some (none, σ)
  | .ok p =>
      match σ.heap p with
      | some (.socket _ _ reader writer) => do
          let (_, τ) ←
            { σ with readied := σ.readied ++ reader.toList ++ writer.toList }.ctxtDelete fd
          some (some (p, reader.isSome || writer.isSome), τ.free p)
      | _ => none

/-- `EPOLL_CTL_DEL` -/
def Registry.epollDel (σ : Registry) (fd : ℤ) : Registry :=
  if (σ.fds fd).isSome = true then { σ with fds := Function.update σ.fds fd (some none) } else σ

/-- `tscp->reader = t` or `tscp->writer = t` -/
def TaskContext.record (s : Side) (t : Option TaskId) : TaskContext → TaskContext
  | .socket ty fd reader writer =>
      match s with
      | .reader => .socket ty fd t writer
      | .writer => .socket ty fd reader t
  | c => c

/-- A task is recorded in a context, or woken. -/
def Registry.record (σ : Registry) (p : Libtask.Ctx) (s : Side) (t : Option TaskId) : Registry :=
  { σ with heap := Function.update σ.heap p ((σ.heap p).map (TaskContext.record s t)) }

end Libtask

namespace Rpc

open Libtask

/-- `infd` and `outfd` -/
inductive End
  | infd
  | outfd
  deriving DecidableEq, Repr

/-- What a task does next in `rpc_chan_close`. -/
inductive ClosePc
  /-- it is not in it -/
  | out
  /-- `fcntl` -/
  | test (e : End)
  | close (e : End)
  /-- `fcntl` in `task_fd_deregister(fd)` -/
  | deregister (e : End) (fd : ℤ)
  /-- it is in the `taskyield` there -/
  | yielded (e : End) (fd : ℤ)
  /-- `epoll_ctl` -/
  | epollDel (e : End) (fd : ℤ)
  deriving DecidableEq, Repr

namespace ClosePc

/-- The argument of `task_fd_deregister`. -/
def arg : ClosePc → Option ℤ
  | deregister _ fd | yielded _ fd | epollDel _ fd => some fd
  | _ => none

/-- Another task may run. -/
def yields : ClosePc → Bool
  | out | yielded _ _ => true
  | _ => false

end ClosePc

/-- What `rpc_chan_close` does to a file. -/
inductive Effect
  | closed (f : File)
  /-- its context is freed, and who waits there is woken -/
  | forgot (f : File)
  /-- `EPOLL_CTL_DEL` -/
  | unwatched (f : File)
  deriving DecidableEq, Repr

def Effect.file : Effect → File
  | closed f | forgot f | unwatched f => f

structure Closing where
  /-- of the channel's thread -/
  registry : Registry
  /-- what an open number stands for -/
  file : ℤ → File
  nfiles : File
  /-- `FD_CLOEXEC` -/
  cloexec : File → Bool
  /-- what a context was made for -/
  made : Libtask.Ctx → File
  enabled : Bool
  infd : ℤ
  outfd : ℤ
  /-- what `rpc_chan_init` was given -/
  own : End → File
  taskrunning : TaskId
  pc : TaskId → ClosePc
  /-- the tasks that have called `rpc_chan_close` -/
  callers : List TaskId
  /-- the calls that have returned -/
  returned : ℕ
  effects : List Effect

namespace Closing

variable (σ : Closing)

/-- `rcp->infd` or `rcp->outfd` -/
def fd : End → ℤ
  | .infd => σ.infd
  | .outfd => σ.outfd

def isOpen (fd : ℤ) : Bool := (σ.registry.fds fd).isSome

/-- The file is one of the channel's. -/
def Own (f : File) : Prop := f = σ.own .infd ∨ f = σ.own .outfd

instance (f : File) : Decidable (σ.Own f) := inferInstanceAs (Decidable (_ ∨ _))

/-- What an effect on `fd` is an effect on. -/
def onOpen (fd : ℤ) (effect : File → Effect) : List Effect :=
  if σ.isOpen fd = true then [effect (σ.file fd)] else []

def goto (x : TaskId) (pc : ClosePc) : Closing := { σ with pc := Function.update σ.pc x pc }

/-- `rpc_chan_close` is called. -/
def call (x : TaskId) : Closing := { σ with enabled := false, callers := x :: σ.callers }

/-- What follows the test and `close` of one end. -/
def afterClose : End → ClosePc
  | .infd => .test .outfd
  | .outfd => .deregister .infd σ.infd

/-- `task_fd_deregister` returns. -/
def deregistered (x : TaskId) : End → Closing
  | .infd => σ.goto x (.deregister .outfd σ.outfd)
  | .outfd => { σ.goto x .out with infd := -1, outfd := -1, returned := σ.returned + 1 }

/-- `close` of one of the two ends -/
def closeEnd (e : End) : Closing :=
  { σ with
    registry := σ.registry.close (σ.fd e), effects := σ.effects ++ σ.onOpen (σ.fd e) .closed }

/-- `task_fd_deregister` frees a context. -/
def forgot (p : Libtask.Ctx) : Closing := { σ with effects := σ.effects ++ [.forgot (σ.made p)] }

/-- `epoll_ctl` in `task_fd_deregister` -/
def unwatch (fd : ℤ) : Closing :=
  { σ with registry := σ.registry.epollDel fd, effects := σ.effects ++ σ.onOpen fd .unwatched }

/-- An open returns `fd`. -/
def openFile (fd : ℤ) (cloexec : Bool) : Closing :=
  { σ with
    registry := σ.registry.openFd fd
    file := Function.update σ.file fd σ.nfiles
    nfiles := σ.nfiles + 1
    cloexec := Function.update σ.cloexec σ.nfiles cloexec }

/-- The registry changes; new contexts are made for what `fd` stands for. -/
def register (fd : ℤ) (k : RegAnswers) (ρ : Registry) : Closing :=
  { σ with
    registry := ρ, made := k.calloc.elim σ.made fun p => Function.update σ.made p (σ.file fd) }

/-- The registry changes. -/
def withRegistry (ρ : Registry) : Closing := { σ with registry := ρ }

/-- The lowest free number. -/
def Lowest (fd : ℤ) : Prop :=
  0 ≤ fd ∧ σ.isOpen fd = false ∧ ∀ i < fd.toNat, σ.isOpen i = true

instance (fd : ℤ) : Decidable (σ.Lowest fd) := inferInstanceAs (Decidable (_ ∧ _ ∧ _))

end Closing

/-- Steps of task `x` in `rpc_chan_close`, and what others do. -/
inductive CloseAction
  /-- after a failed `rpc_request` or `rpc_response`, or for `CONNCLOSED` -/
  | call (x : TaskId)
  | fcntl (x : TaskId)
  | close (x : TaskId)
  | deregister (x : TaskId)
  | epollDel (x : TaskId)
  /-- the scheduler runs `y` -/
  | taskswitch (y : TaskId)
  | openFile (fd : ℤ) (cloexec : Bool)
  /-- `close` of a descriptor that is not the channel's -/
  | closeFile (fd : ℤ)
  | register (r : Registration) (fd : ℤ) (k : RegAnswers)
  | registerEvent (fd : ℤ) (task arg : ℕ) (k : RegAnswers)
  /-- `task_fd_deregister` of another descriptor -/
  | forget (fd : ℤ)
  /-- a task waits in a context, or is woken there -/
  | record (p : Libtask.Ctx) (s : Side) (t : Option TaskId)
  deriving DecidableEq

namespace CloseAction

variable (σ : Closing)

def exec : CloseAction → Option Closing
  | call x => some ((σ.call x).goto x (.test .infd))
  | fcntl x =>
      match σ.pc x with
      | .test e =>
          -- `F_GETFD` answers 0, the flag, or `EBADF`
          if σ.isOpen (σ.fd e) = true ∧ σ.cloexec (σ.file (σ.fd e)) = false then
            some (σ.goto x (.close e))
          else some (σ.goto x (σ.afterClose e))
      | _ => none
  | close x =>
      match σ.pc x with
      | .close e =>
          some ((σ.closeEnd e).goto x (σ.afterClose e))
      | _ => none
  | deregister x =>
      match σ.pc x with
      | .deregister e fd =>
          if σ.isOpen fd = true then some (σ.deregistered x e)
          else
            match σ.registry.forget fd with
            | none => none
            | some (none, ρ) => some ((σ.withRegistry ρ).goto x (.epollDel e fd))
            | some (some (p, yields), ρ) =>
                some (((σ.forgot p).withRegistry ρ).goto x
                  (if yields = true then .yielded e fd else .epollDel e fd))
      | _ => none
  | epollDel x =>
      match σ.pc x with
      | .yielded e fd | .epollDel e fd => some ((σ.unwatch fd).deregistered x e)
      | _ => none
  | taskswitch y => some { σ with taskrunning := y }
  | openFile fd cloexec => some (σ.openFile fd cloexec)
  | closeFile fd => some (σ.withRegistry (σ.registry.close fd))
  | register r fd k =>
      (σ.registry.taskFdRegister r fd k).map fun (_, ρ) => σ.register fd k ρ
  | registerEvent fd task arg k =>
      (σ.registry.taskEventfdRegister fd task arg k).map fun (_, ρ) => σ.register fd k ρ
  | forget fd => (σ.registry.taskFdDeregister fd).map fun (_, ρ) => σ.withRegistry ρ
  | record p s t => some (σ.withRegistry (σ.registry.record p s t))

/-- Task `x` runs, and is at a place in `rpc_chan_close`. -/
def At (x : TaskId) (p : ClosePc → Bool) : Prop := σ.taskrunning = x ∧ p (σ.pc x) = true

instance (x : TaskId) (p : ClosePc → Bool) : Decidable (At σ x p) :=
  inferInstanceAs (Decidable (_ ∧ _))

/-- The running task is not in `rpc_chan_close`. -/
def Outside : Prop := At σ σ.taskrunning fun pc => pc = .out

instance : Decidable (Outside σ) := inferInstanceAs (Decidable (_ ∧ _))

/-- Somebody else's descriptor. -/
def Foreign (fd : ℤ) : Prop := σ.isOpen fd = true ∧ ¬σ.Own (σ.file fd)

instance (fd : ℤ) : Decidable (Foreign σ fd) := inferInstanceAs (Decidable (_ ∧ ¬_))

/-- The array has no context of the channel under the number. -/
def ForeignEntry (fd : ℤ) : Prop := (σ.registry.tcarray fd).all fun p => ¬σ.Own (σ.made p)

instance (fd : ℤ) : Decidable (ForeignEntry σ fd) := inferInstanceAs (Decidable (_ = _))

/-- Memory that is not in use. -/
def Allocates (k : RegAnswers) : Prop :=
  (k.calloc.all fun p => (σ.registry.heap p).isNone) = true

instance (k : RegAnswers) : Decidable (Allocates σ k) := inferInstanceAs (Decidable (_ = _))

/-- A task does what it is at. Descriptors of the channel are not for others
to close, to register or to deregister. -/
def Enabled : CloseAction → Prop
  | call x => At σ x fun pc => pc = .out
  | fcntl x => At σ x fun pc => match pc with | .test _ => true | _ => false
  | close x => At σ x fun pc => match pc with | .close _ => true | _ => false
  | deregister x => At σ x fun pc => match pc with | .deregister _ _ => true | _ => false
  | epollDel x =>
      At σ x fun pc => match pc with | .yielded _ _ | .epollDel _ _ => true | _ => false
  | taskswitch _ => (σ.pc σ.taskrunning).yields = true
  | openFile fd _ => σ.Lowest fd
  | closeFile fd => Foreign σ fd
  | register _ fd k => Outside σ ∧ Foreign σ fd ∧ Allocates σ k
  | registerEvent fd _ _ k => Outside σ ∧ Foreign σ fd ∧ Allocates σ k
  | forget fd => Outside σ ∧ ForeignEntry σ fd
  | record _ _ _ => Outside σ

instance : (act : CloseAction) → Decidable (act.Enabled σ)
  | call _ => inferInstanceAs (Decidable (_ ∧ _))
  | fcntl _ => inferInstanceAs (Decidable (_ ∧ _))
  | close _ => inferInstanceAs (Decidable (_ ∧ _))
  | deregister _ => inferInstanceAs (Decidable (_ ∧ _))
  | epollDel _ => inferInstanceAs (Decidable (_ ∧ _))
  | taskswitch _ => inferInstanceAs (Decidable (_ = _))
  | openFile _ _ => inferInstanceAs (Decidable (_ ∧ _ ∧ _))
  | closeFile _ => inferInstanceAs (Decidable (_ ∧ ¬_))
  | register _ _ _ => inferInstanceAs (Decidable (_ ∧ (_ ∧ ¬_) ∧ _))
  | registerEvent _ _ _ _ => inferInstanceAs (Decidable (_ ∧ (_ ∧ ¬_) ∧ _))
  | forget _ => inferInstanceAs (Decidable (_ ∧ _))
  | record _ _ _ => inferInstanceAs (Decidable (_ ∧ _))

end CloseAction

/-- Before the first call: both descriptors are open, and no two numbers
stand for one file or have one context. -/
structure Closing.Fresh (σ : Closing) : Prop where
  opened : ∀ e, σ.isOpen (σ.fd e) = true ∧ σ.file (σ.fd e) = σ.own e
  nonneg : ∀ n, σ.isOpen n = true → 0 ≤ n
  file_lt : ∀ n, σ.isOpen n = true → σ.file n < σ.nfiles
  file_inj : ∀ n m, σ.isOpen n = true → σ.isOpen m = true → σ.file n = σ.file m → n = m
  live : ∀ n p, σ.registry.tcarray n = some p → (σ.registry.heap p).isSome = true
  entry_inj : ∀ n m p, σ.registry.tcarray n = some p → σ.registry.tcarray m = some p → n = m
  entry_own : ∀ e p, σ.registry.tcarray (σ.fd e) = some p →
    σ.made p = σ.own e ∧ ∃ ty fd reader writer, σ.registry.heap p = some (.socket ty fd reader writer)
  pc : ∀ x, σ.pc x = .out
  returned : σ.returned = 0
  effects : σ.effects = []

/-- Any number of callers, and whatever other tasks and threads do with
descriptors of their own. -/
def closing : System Closing CloseAction where
  init := Closing.Fresh
  enabled σ act := act.Enabled σ
  exec σ act := act.exec σ

instance (σ : Closing) (act : CloseAction) : Decidable (closing.enabled σ act) :=
  inferInstanceAs (Decidable (act.Enabled σ))

end Rpc

end VmwareProto
