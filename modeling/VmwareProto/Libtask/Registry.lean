import VmwareProto.Libtask.Taskio
/-!
# Registration

The functions of `taskio.c` that enter a descriptor in `TCarray`, with each
of their errors: a descriptor that is bad, too large or registered, no
memory, what `epoll_ctl` answers. `tasknet_connect`, `taskfifo_accept` and
`taskfifo_connect` open descriptors of their own. Every function returns its
code and the registry it leaves; `none` is a failed assertion, or a context
that is none. What the kernel and `calloc` answer comes with the call. The
flag `O_NONBLOCK` and the capacity of a pipe are left out; a `taskswitch` or
`taskyield` comes back to the registry as it was.
-/

namespace VmwareProto

namespace Libtask

/-! ## Codes -/

/-- What `errno` is after a call that failed. -/
abbrev Errno := {e : ℤ // 0 < e}

/-- `EBADF` -/
def ebadf : ℤ := 9
/-- `EEXIST` -/
def eexist : ℤ := 17
/-- `ECONNREFUSED` -/
def econnrefused : ℤ := 111
/-- `EINPROGRESS` -/
def einprogress : ℤ := 115
/-- `TASKIO_EBIGFD` -/
def taskioEbigfd : ℤ := 1001
/-- `TASKIO_ENOENT` -/
def taskioEnoent : ℤ := 1002
/-- `TASKIO_EBADFD` -/
def taskioEbadfd : ℤ := 1003
/-- `TASKIO_EEXIST` -/
def taskioEexist : ℤ := 1004
/-- `TASKIO_ENOMEM` -/
def taskioEnomem : ℤ := 1005
/-- `TASKIO_ECONN` -/
def taskioEconn : ℤ := 1008

/-- `struct TaskContext`, and what is behind it for each `tasktype`; that of
sockets and FIFOs is one. -/
inductive TaskContext
  | libaio (fd : ℤ)
  | socket (tasktype : TaskType) (fd : ℤ) (reader writer : Option TaskId)
  | event (fd : ℤ) (task arg : ℕ)
  deriving DecidableEq

/-- The context of a new registration. -/
def Registration.context (fd : ℤ) (r : Registration) : TaskContext :=
  .socket r.tasktype fd none none

/-- `TCarray`, the contexts, and the descriptors that are open, each with
what epoll watches it for; and the tasks made ready, in order. -/
structure Registry where
  tcarray : ℤ → Option Ctx
  heap : Ctx → Option TaskContext
  fds : ℤ → Option (Option Interest)
  readied : List TaskId

/-- What `calloc` and `epoll_ctl` answer; `none` is no memory, and no error. -/
structure RegAnswers where
  calloc : Option Ctx
  epollCtl : Option Errno
  deriving DecidableEq

/-- What `tasknet_connect` is told: `connect` fails with an error, or does
not; `getpeername` finds a peer or not, and `soError` is the error of the
socket. -/
structure ConnectAnswers where
  netlookup : Bool
  socket : Except Errno ℤ
  register : RegAnswers
  connect : Option Errno
  getpeername : Bool
  soError : ℤ

/-- What `open` answers for one of two FIFOs, and the registration. -/
structure FifoAnswers where
  opened : Except Errno ℤ
  register : RegAnswers

namespace Registry

variable (σ : Registry)

/-- `open`, `socket` or `timerfd_create` returns `fd`. -/
def openFd (fd : ℤ) : Registry := { σ with fds := Function.update σ.fds fd (some none) }

/-- `close` -/
def close (fd : ℤ) : Registry := { σ with fds := Function.update σ.fds fd none }

/-- `calloc` returned `p`. -/
def calloc (p : Ctx) (c : TaskContext) : Registry :=
  { σ with heap := Function.update σ.heap p (some c) }

/-- `free` -/
def free (p : Ctx) : Registry := { σ with heap := Function.update σ.heap p none }

/-! ## The array -/

/-- `ctxt_lookup` -/
def ctxtLookup (fd : ℤ) : Except ℤ Ctx :=
  if fd < 0 then .error taskioEbadfd
  else if taskioMaxFdValue ≤ fd then .error taskioEbigfd
  else
    match σ.tcarray fd with
    | none => .error taskioEnoent
    | some p => .ok p

/-- `ctxt_insert` -/
def ctxtInsert (fd : ℤ) (p : Ctx) : ℤ × Registry :=
  if fd < 0 then (taskioEbadfd, σ)
  else if taskioMaxFdValue ≤ fd then (taskioEbigfd, σ)
  else if (σ.tcarray fd).isSome = true then (taskioEexist, σ)
  else (0, { σ with tcarray := Function.update σ.tcarray fd (some p) })

/-- `ctxt_delete` -/
def ctxtDelete (fd : ℤ) : Option (ℤ × Registry) :=
  if fd < 0 then some (taskioEbadfd, σ)
  else if taskioMaxFdValue ≤ fd then some (taskioEbigfd, σ)
  else if σ.tcarray fd = none then none
  else some (0, { σ with tcarray := Function.update σ.tcarray fd none })

/-! ## Registering -/

/-- `EPOLL_CTL_ADD`, which fails on a descriptor that is not open, and on one
that is watched. -/
def registerEpoll (fd : ℤ) (i : Interest) (e : Option Errno) : ℤ × Registry :=
  match σ.fds fd with
  | none => (ebadf, σ)
  | some (some _) => (eexist, σ)
  | some none =>
      match e with
      | some e => (e.1, σ)
      | none => (0, { σ with fds := Function.update σ.fds fd (some (some i)) })

/-- `task_fd_register` -/
def taskFdRegister (r : Registration) (fd : ℤ) (k : RegAnswers) : Option (ℤ × Registry) :=
  match σ.ctxtLookup fd with
  | .ok _ => some (taskioEexist, σ)
  | .error res =>
      if res ≠ taskioEnoent then some (res, σ)
      else
        match k.calloc with
        | none => some (taskioEnomem, σ)
        | some p =>
            let (res, τ) := (σ.calloc p (r.context fd)).ctxtInsert fd p
            if res ≠ 0 then some (res, τ.free p)
            else if r.regEpoll = false then some (0, τ)
            else
              let (res, τ) := τ.registerEpoll fd ⟨p, r.events, r.edge⟩ k.epollCtl
              if res ≠ 0 then do
                let (_, τ) ← τ.ctxtDelete fd
                some (res, τ.free p)
              else some (0, τ)

/-- `task_sockfd_register` -/
def taskSockfdRegister (fd : ℤ) (k : RegAnswers) : Option (ℤ × Registry) :=
  σ.taskFdRegister .sock fd k

/-- `task_fifofd_register` -/
def taskFifofdRegister (fd : ℤ) (input : Bool) (k : RegAnswers) : Option (ℤ × Registry) :=
  σ.taskFdRegister (.fifo input) fd k

/-- `task_eventfd_register` -/
def taskEventfdRegister (fd : ℤ) (task arg : ℕ) (k : RegAnswers) : Option (ℤ × Registry) :=
  match σ.ctxtLookup fd with
  | .ok _ => some (taskioEexist, σ)
  | .error res =>
      if res ≠ taskioEnoent then some (res, σ)
      else
        match k.calloc with
        | none => some (taskioEnomem, σ)
        | some p =>
            let τ := σ.calloc p (.event fd task arg)
            let (res, τ) := τ.registerEpoll fd ⟨p, ⟨true, false, false, false⟩, false⟩ k.epollCtl
            if res ≠ 0 then some (res, τ.free p)
            else some (0, (τ.ctxtInsert fd p).2)

/-- `task_fd_deregister`: the context is taken for one of a socket, or of a
FIFO. No descriptor that is closed can be removed from epoll. -/
def taskFdDeregister (fd : ℤ) : Option (ℤ × Registry) :=
  if (σ.fds fd).isSome = true then some (-1, σ)
  else
    match σ.ctxtLookup fd with
    | .error _ => some (-1, σ)
    | .ok p =>
        match σ.heap p with
        | some (.socket _ _ reader writer) => do
            let (res, τ) ←
              { σ with readied := σ.readied ++ reader.toList ++ writer.toList }.ctxtDelete fd
            if res < 0 then some (-1, τ) else some (-1, τ.free p)
        | _ => none

/-! ## Connections -/

/-- A task waits as the writer of a socket, and is woken. -/
def sleepWriter (fd : ℤ) (p : Ctx) (x : TaskId) : Option Registry :=
  match σ.heap p with
  | some (.socket .socket fd' reader none) =>
      if fd' = fd then
        let τ := σ.calloc p (.socket .socket fd reader (some x))
        some (τ.calloc p (.socket .socket fd reader none))
      else none
  | _ => none

/-- What `tasknet_connect` does once it is connected, or is told that it is
not. -/
def connected (fd : ℤ) (a : ConnectAnswers) : ℤ × Registry :=
  if a.getpeername = true then (0, σ)
  else (if a.soError ≠ 0 then a.soError else econnrefused, σ.close fd)

/-- `tasknet_connect` of task `x` -/
def tasknetConnect (x : TaskId) (a : ConnectAnswers) : Option (ℤ × Registry) :=
  if a.netlookup = false then some (-1, σ)
  else
    match a.socket with
    | .error e => some (e.1, σ)
    | .ok fd => do
        let (res, τ) ← (σ.openFd fd).taskSockfdRegister fd a.register
        if res ≠ 0 then some (res, τ.close fd)
        else
          match a.connect with
          | none => some (τ.connected fd a)
          | some e =>
              if e.1 ≠ einprogress then some (e.1, τ.close fd)
              else
                match τ.ctxtLookup fd with
                | .error res => some (res, τ.close fd)
                | .ok p => do
                    let τ ← τ.sleepWriter fd p x
                    some (τ.connected fd a)

/-! ## FIFOs -/

/-- A descriptor is closed and deregistered, unless it is -1. -/
def discard (fd : ℤ) : Option Registry :=
  if fd ≠ -1 then ((σ.close fd).taskFdDeregister fd).map Prod.snd else some σ

/-- The end of a call that fails. -/
def fifoOut (rc ifd ofd : ℤ) : Option (ℤ × Registry) := do
  let τ ← σ.discard ifd
  let τ ← τ.discard ofd
  some (rc, τ)

/-- Two FIFOs are opened and registered, first the input or the output.
`code` is what is returned if the first one cannot be registered. -/
def fifoOpen (input : Bool) (code : ℤ → ℤ) (a b : FifoAnswers) : Option (ℤ × Registry) :=
  match a.opened with
  | .error _ => some (-1, σ)
  | .ok fd => do
      let (rc, τ) ← (σ.openFd fd).taskFifofdRegister fd input a.register
      if rc ≠ 0 then τ.fifoOut (code rc) (if input = true then fd else -1) (if input = true then -1 else fd)
      else
        match b.opened with
        | .error _ => τ.fifoOut (-1) (if input = true then fd else -1) (if input = true then -1 else fd)
        | .ok fd' => do
            let (rc, τ) ← (τ.openFd fd').taskFifofdRegister fd' (!input) b.register
            if rc ≠ 0 then
              τ.fifoOut rc (if input = true then fd else fd') (if input = true then fd' else fd)
            else some (0, τ)

/-- `taskfifo_accept` -/
def taskfifoAccept (a b : FifoAnswers) : Option (ℤ × Registry) := σ.fifoOpen true id a b

/-- `taskfifo_connect`: it opens the output first, and returns -1 where that
cannot be registered. -/
def taskfifoConnect (a b : FifoAnswers) : Option (ℤ × Registry) := σ.fifoOpen false (fun _ => -1) a b

end Registry

end Libtask

end VmwareProto
