import DrumMachine.Framework.Machine
import Mathlib.Logic.Function.Basic

/-!
# The timers

`rt_timer_list` with the timers on it, in the order in which they are called. The check of the
tick's interrupt is taken call by call, so that a timeout function can start and stop timers.
-/

namespace DrumMachine

open Framework

/-- `RT_TICK_MAX / 2`. -/
def rtTickHalf : BitVec 32 := 0x7FFFFFFF#32

structure RtTimer where
  initTick : BitVec 32
  timeoutTick : BitVec 32
  activated : Bool
  periodic : Bool

/-- `calling` is the timeout function of a timer, with whether the timer is still on the
temporary list of the check. -/
inductive TimerCheck (τ : Type)
  | idle
  | checking
  | calling (t : τ) (listed : Bool)
deriving DecidableEq

structure TimerSystem (τ : Type) where
  rtTick : BitVec 32
  timerList : List τ
  timer : τ → RtTimer
  check : TimerCheck τ

inductive TimerAct (τ : Type)
  | setTime (t : τ) (time : BitVec 32)
  | setPeriodic (t : τ) (periodic : Bool)
  | start (t : τ)
  | stop (t : τ)
  | detach (t : τ)
  | tick
  | check
  | finish

namespace TimerSystem

variable {τ : Type}

def remaining (s : TimerSystem τ) (t : τ) : Nat := ((s.timer t).timeoutTick - s.rtTick).toNat

variable [DecidableEq τ]

def update (s : TimerSystem τ) (t : τ) (timer : RtTimer) : TimerSystem τ :=
  { s with timer := Function.update s.timer t timer }

@[simp]
theorem update_self (s : TimerSystem τ) (t : τ) (timer : RtTimer) :
    (s.update t timer).timer t = timer :=
  Function.update_self ..

theorem update_of_ne (s : TimerSystem τ) {t u : τ} (h : u ≠ t) (timer : RtTimer) :
    (s.update t timer).timer u = s.timer u :=
  Function.update_of_ne h ..

/-- `_rt_timer_remove`, from the list that the timer is on. -/
def rtTimerRemove (s : TimerSystem τ) (t : τ) : TimerSystem τ :=
  { s with
    timerList := s.timerList.erase t
    check :=
      match s.check with
      | .calling u listed => .calling u (listed && u ≠ t)
      | check => check }

/-- The scan of `rt_timer_start` for the place of a timer. -/
def rtTimerInsert (timer : τ → RtTimer) (t : τ) : List τ → List τ
  | [] => [t]
  | u :: us =>
      if (timer u).timeoutTick - (timer t).timeoutTick = 0 then u :: rtTimerInsert timer t us
      else if (timer u).timeoutTick - (timer t).timeoutTick < rtTickHalf then t :: u :: us
      else u :: rtTimerInsert timer t us

/-- The assertion on `init_tick` fails if there is no next state. -/
def rtTimerStart (s : TimerSystem τ) (t : τ) : Option (TimerSystem τ) :=
  if (s.timer t).initTick < rtTickHalf then
    let removed := s.rtTimerRemove t
    let timed := removed.update t { s.timer t with
      timeoutTick := s.rtTick + (s.timer t).initTick
      activated := true }
    some { timed with timerList := rtTimerInsert timed.timer t timed.timerList }
  else none

def rtTimerDetach (s : TimerSystem τ) (t : τ) : TimerSystem τ :=
  (s.rtTimerRemove t).update t { s.timer t with activated := false }

def rtTimerStop (s : TimerSystem τ) (t : τ) : TimerSystem τ :=
  if (s.timer t).activated then s.rtTimerDetach t else s

/-- One turn of the loop of `rt_timer_check`, up to the call of the timeout function. -/
def rtTimerCheck (s : TimerSystem τ) : TimerSystem τ :=
  match s.timerList with
  | [] => { s with check := .idle }
  | t :: _ =>
      if s.rtTick - (s.timer t).timeoutTick < rtTickHalf then
        { (s.rtTimerRemove t).update t { s.timer t with
            activated := (s.timer t).activated && (s.timer t).periodic } with
          check := .calling t true }
      else { s with check := .idle }

/-- The end of the turn, where a periodic timer that was not touched is started again. -/
def finishCall (s : TimerSystem τ) (t : τ) (listed : Bool) : Option (TimerSystem τ) :=
  let checking := { s with check := .checking }
  if listed && (s.timer t).periodic && (s.timer t).activated then checking.rtTimerStart t
  else some checking

def step (s : TimerSystem τ) : TimerAct τ → Option (TimerSystem τ)
  | .setTime t time => some (s.update t { s.timer t with initTick := time })
  | .setPeriodic t periodic => some (s.update t { s.timer t with periodic })
  | .start t => s.rtTimerStart t
  | .stop t => some (s.rtTimerStop t)
  | .detach t => some (s.rtTimerDetach t)
  | .tick =>
      match s.check with
      | .idle => some { s with rtTick := s.rtTick + 1#32, check := .checking }
      | _ => none
  | .check =>
      match s.check with
      | .checking => some s.rtTimerCheck
      | _ => none
  | .finish =>
      match s.check with
      | .calling t listed => s.finishCall t listed
      | _ => none

end TimerSystem

/-- The timers as `rt_timer_init` leaves them, with their times and whether they are periodic. -/
structure TimerTable (τ : Type) where
  time : τ → BitVec 32
  periodic : τ → Bool

def timerMachine {τ : Type} [DecidableEq τ] (table : TimerTable τ) :
    Machine (TimerSystem τ) (TimerAct τ) where
  init :=
    { rtTick := 0#32
      timerList := []
      timer t := ⟨table.time t, 0#32, false, table.periodic t⟩
      check := .idle }
  step := TimerSystem.step

end DrumMachine
