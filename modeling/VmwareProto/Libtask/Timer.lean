import VmwareProto.Libtask.Registry
/-!
# Timers

`task_timer_t` of `timer.c`, and `timer_init`.
-/

namespace VmwareProto

namespace Libtask

/-- `struct timespec` -/
structure Timespec where
  tvSec : ℤ
  tvNsec : ℤ
  deriving DecidableEq

/-- `task_timer_t`. Its `Rendez` is a number; `data` is the argument of the
callback, `repeats` the field `repeat`. -/
structure TaskTimer where
  rendez : ℕ
  ts : Timespec
  data : ℕ
  cbfn : Option ℕ
  timerfd : ℤ
  repeats : ℤ
  timerSet : ℤ
  init : ℤ
  closed : ℤ
  deriving DecidableEq

namespace TaskTimer

/-- `memset` -/
def zero (rendez : ℕ) : TaskTimer where
  rendez := rendez
  ts := ⟨0, 0⟩
  data := 0
  cbfn := none
  timerfd := 0
  repeats := 0
  timerSet := 0
  init := 0
  closed := 0

end TaskTimer

/-- What `timer_init` is told. -/
structure TimerAnswers where
  timerfdCreate : Except Errno ℤ
  register : RegAnswers

/-- `timer_init`: its code, the timer and the registry. -/
def Registry.timerInit (σ : Registry) (t : TaskTimer) (cbfn : Option ℕ) (data : ℕ)
    (a : TimerAnswers) : Option (ℤ × TaskTimer × Registry) :=
  if t.init = 1 then none
  else
    let t := TaskTimer.zero t.rendez
    match a.timerfdCreate with
    | .error _ => some (-1, t, σ)
    | .ok fd => do
        let (rc, τ) ← (σ.openFd fd).taskFifofdRegister fd true a.register
        if rc < 0 then some (rc, { t with closed := 1, init := 0 }, τ.close fd)
        else some (0, { t with timerfd := fd, cbfn := cbfn, data := data, init := 1 }, τ)

end Libtask

end VmwareProto
