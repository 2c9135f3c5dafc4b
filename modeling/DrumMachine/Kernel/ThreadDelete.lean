import DrumMachine.Kernel.Scheduler

/-!
# Deletion of threads

`rt_thread_detach` and `rt_thread_delete` take a thread out of its list, detach its timer and
mark it closed one after the other with interrupts enabled, so that ticks and other threads
come in between. A thread that deletes itself can be switched out and in again on the way.
-/

namespace DrumMachine

open Framework

variable {τ ω : Type}

/-- How far the deletion of a thread is, and whether the thread deletes itself. -/
inductive DeleteStage
  | none
  | removed (own : Bool)
  | timerDetached (own : Bool)
deriving DecidableEq

/-- Another thread or an interrupt has taken the thread out of its list to delete it. -/
def DeleteStage.gone : DeleteStage → Bool
  | .none => false
  | .removed own | .timerDetached own => !own

structure DeletingScheduler (τ ω : Type) where
  sched : Scheduler τ ω
  stage : τ → DeleteStage

/-- `remove`, `detachTimer` and `setClosed` are the sections of the two calls; `call` is any
other call, or a deletion with interrupts disabled. -/
inductive DeleteAct (τ ω : Type)
  | call (act : SchedAct τ ω)
  | remove (t : τ)
  | detachTimer (t : τ)
  | setClosed (t : τ)

/-- The thread that is an argument of the call, or whose timer fires. -/
def SchedAct.target : SchedAct τ ω → Option τ
  | .startup t | .suspend t | .resume t | .timeout t | .changePriority t _ | .close t => some t
  | _ => none

namespace DeletingScheduler

def gone (s : DeletingScheduler τ ω) (t : τ) : Bool := (s.stage t).gone

variable [DecidableEq τ] [DecidableEq ω]

/-- A thread that deletes itself goes on only while it runs. -/
def GoesOn (s : DeletingScheduler τ ω) (t : τ) (own : Bool) : Prop :=
  own = true → s.sched.currentThread = some t ∧ (s.sched.thread t).stat = .running

instance (s : DeletingScheduler τ ω) (t : τ) (own : Bool) : Decidable (s.GoesOn t own) :=
  inferInstanceAs (Decidable (_ → _))

def setStage (s : DeletingScheduler τ ω) (t : τ) (stage : DeleteStage) : DeletingScheduler τ ω :=
  { s with stage := Function.update s.stage t stage }

/-- The calls up to `_rt_thread_cleanup_execute`. -/
def remove (s : DeletingScheduler τ ω) (t : τ) : Option (DeletingScheduler τ ω) :=
  let stat := (s.sched.thread t).stat
  let own := decide (s.sched.currentThread = some t)
  if stat = .close then some s
  else if s.GoesOn t own then
    let sched := if stat = .init then s.sched else s.sched.rtScheduleRemoveThread t
    some ({ s with sched }.setStage t (.removed own))
  else none

def detachTimer (s : DeletingScheduler τ ω) (t : τ) : DeletingScheduler τ ω :=
  { s with sched := s.sched.update t fun thread => { thread with timerActivated := false } }

def setClosed (s : DeletingScheduler τ ω) (t : τ) : DeletingScheduler τ ω :=
  { s with sched := s.sched.update t RtThread.closed }

variable [Fintype τ]

/-- No call names a thread that is about to be deleted, and its timer does not fire: the code
would put the thread back into a ring and then close it there. -/
def step (s : DeletingScheduler τ ω) : DeleteAct τ ω → Option (DeletingScheduler τ ω)
  | .call act =>
      if act.target.any s.gone then none
      else (s.sched.step act).map fun sched => { s with sched }
  | .remove t => if s.stage t = .none then s.remove t else none
  | .detachTimer t =>
      match s.stage t with
      | .removed own =>
          if s.GoesOn t own then some ((s.detachTimer t).setStage t (.timerDetached own)) else none
      | _ => none
  | .setClosed t =>
      match s.stage t with
      | .timerDetached own =>
          if s.GoesOn t own then some ((s.setClosed t).setStage t .none) else none
      | _ => none

end DeletingScheduler

def deleteMachine [DecidableEq τ] [DecidableEq ω] [Fintype τ] (threads : ThreadTable τ) :
    Machine (DeletingScheduler τ ω) (DeleteAct τ ω) where
  init := ⟨(schedMachine threads).init, fun _ => .none⟩
  step := DeletingScheduler.step

end DrumMachine
