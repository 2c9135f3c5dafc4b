import DrumMachine.Framework.Machine
import DrumMachine.Framework.Ring
import DrumMachine.Kernel.Ffs
import DrumMachine.Kernel.MessageQueue
import Mathlib.Data.Fintype.Card

/-!
# The scheduler of the kernel

The ready table of `scheduler.c` for one processor: a ring of threads for each priority and a
word with one bit for each ring. Around it the calls of `thread.c`, `clock.c` and `ipc.c`
that make a thread ready, suspend it or ask for a switch. A thread lies in at most one ring,
that of its priority while it is ready or that of the object it waits for.
-/

namespace DrumMachine

open Framework

variable {τ ω : Type}

def rtThreadPriorityMax : Nat := 32

/-- `stat` without its flags. -/
inductive ThreadStat
  | init
  | ready
  | suspend
  | running
  | close
deriving DecidableEq

/-- The thread has been started and not yet closed. -/
def ThreadStat.Live (stat : ThreadStat) : Prop := stat ≠ .init ∧ stat ≠ .close

/-- `struct rt_thread`. `yield` is the flag `RT_THREAD_STAT_YIELD` of `stat`, and
`timerActivated` that of the thread's own timer. -/
structure RtThread where
  stat : ThreadStat
  yield : Bool
  initPriority : Nat
  currentPriority : Nat
  numberMask : BitVec 32
  initTick : BitVec 32
  remainingTick : BitVec 32
  timerActivated : Bool
deriving DecidableEq

/-- `_rt_thread_init` -/
def rtThreadInit (priority : Nat) (tick : BitVec 32) : RtThread where
  stat := .init
  yield := false
  initPriority := priority
  currentPriority := priority
  numberMask := 0#32
  initTick := tick
  remainingTick := tick
  timerActivated := false

def RtThread.closed (thread : RtThread) : RtThread :=
  { thread with stat := .close, yield := false, timerActivated := false }

@[simp]
theorem RtThread.closed_stat (thread : RtThread) : thread.closed.stat = .close :=
  rfl

@[simp]
theorem RtThread.closed_timerActivated (thread : RtThread) :
    thread.closed.timerActivated = false :=
  rfl

/-- The current thread goes on before a ready one of the priority `highest`. -/
def RtThread.Keeps (thread : RtThread) (highest : Nat) : Prop :=
  thread.currentPriority < highest ∨ thread.currentPriority = highest ∧ thread.yield = false

instance RtThread.decidableKeeps (thread : RtThread) (highest : Nat) : Decidable (thread.Keeps highest) :=
  inferInstanceAs (Decidable (_ ∨ _))

/-- The heads of `rt_thread_priority_table` and of the objects that threads wait for. -/
inductive ListHead (ω : Type)
  | ready (priority : Nat)
  | waiting (object : ω)
deriving DecidableEq

/-- `lockNest` is a number of 16 bits with a sign. -/
structure Scheduler (τ ω : Type) where
  links : Links (RingNode (ListHead ω) τ)
  thread : τ → RtThread
  readyPriorityGroup : BitVec 32
  currentThread : Option τ
  lockNest : Int

namespace Scheduler

variable [DecidableEq τ] [DecidableEq ω]

def update (s : Scheduler τ ω) (t : τ) (f : RtThread → RtThread) : Scheduler τ ω :=
  { s with thread := Function.update s.thread t (f (s.thread t)) }

omit [DecidableEq ω] in
@[simp]
theorem update_thread_self (s : Scheduler τ ω) (t : τ) (f : RtThread → RtThread) :
    (s.update t f).thread t = f (s.thread t) := Function.update_self ..

omit [DecidableEq ω] in
theorem update_thread_of_ne (s : Scheduler τ ω) {t u : τ} (h : u ≠ t) (f : RtThread → RtThread) :
    (s.update t f).thread u = s.thread u := Function.update_of_ne h ..

def priority (s : Scheduler τ ω) (t : τ) : Nat := (s.thread t).currentPriority

/-- A ready thread goes to the end of the ring of its priority. -/
def enqueue (s : Scheduler τ ω) (t : τ) : Scheduler τ ω where
  links := s.links.insertBefore (.head (.ready (s.priority t))) (.item t)
  thread := Function.update s.thread t { s.thread t with stat := .ready }
  readyPriorityGroup := s.readyPriorityGroup ||| (s.thread t).numberMask
  currentThread := s.currentThread
  lockNest := s.lockNest

@[simp]
theorem enqueue_thread_self (s : Scheduler τ ω) (t : τ) :
    (s.enqueue t).thread t = { s.thread t with stat := .ready } := Function.update_self ..

theorem enqueue_thread_of_ne (s : Scheduler τ ω) {t u : τ} (h : u ≠ t) :
    (s.enqueue t).thread u = s.thread u := Function.update_of_ne h ..

def rtScheduleInsertThread (s : Scheduler τ ω) (t : τ) : Scheduler τ ω :=
  if s.currentThread = some t then s.update t fun thread => { thread with stat := .running }
  else s.enqueue t

def rtScheduleRemoveThread (s : Scheduler τ ω) (t : τ) : Scheduler τ ω :=
  let links := s.links.remove (.item t)
  let head := RingNode.head (ListHead.ready (s.priority t))
  { s with
    links
    readyPriorityGroup :=
      if links.next head = head then s.readyPriorityGroup &&& ~~~(s.thread t).numberMask
      else s.readyPriorityGroup }

/-- The last branch reads the head of a list as a thread. -/
def getHighestPriorityThread (s : Scheduler τ ω) : Option (Nat × τ) :=
  let highest := rtFfs s.readyPriorityGroup - 1
  match s.links.next (.head (.ready highest)) with
  | .item t => some (highest, t)
  | .head _ => none

def run (s : Scheduler τ ω) (t : τ) : Scheduler τ ω :=
  (s.rtScheduleRemoveThread t).update t fun thread => { thread with stat := .running }

def clearYield (s : Scheduler τ ω) (t : τ) : Scheduler τ ω :=
  s.update t fun thread => { thread with yield := false }

/-- The threads are switched, and the one that could have gone on is ready again. -/
def switch (s : Scheduler τ ω) (fromThread toThread : τ) (needInsert : Bool) : Scheduler τ ω :=
  let s := { s with currentThread := some toThread }
  if needInsert then (s.rtScheduleInsertThread fromThread).run toThread else s.run toThread

def dispatch (s : Scheduler τ ω) (current toThread : τ) (needInsert : Bool) : Scheduler τ ω :=
  if toThread ≠ current then s.switch current toThread needInsert else s.run current

section Frame

variable (s : Scheduler τ ω) {α : Type} {g : RtThread → α}

omit [DecidableEq ω] in
theorem update_field (t : τ) {f : RtThread → RtThread} (hf : g (f (s.thread t)) = g (s.thread t))
    (u : τ) : g ((s.update t f).thread u) = g (s.thread u) := by
  by_cases hu : u = t
  · subst hu
    rw [s.update_thread_self]
    exact hf
  · rw [s.update_thread_of_ne hu]

theorem run_stat (t : τ) : ((s.run t).thread t).stat = .running := by
  rw [run, update_thread_self]

theorem insert_current (t : τ) :
    (s.rtScheduleInsertThread t).currentThread = s.currentThread := by
  rw [rtScheduleInsertThread]
  split_ifs <;> rfl

theorem switch_stat (c t : τ) (needInsert : Bool) :
    ((s.switch c t needInsert).thread t).stat = .running := by
  rw [switch]
  split_ifs <;> exact run_stat _ t

theorem switch_current (c t : τ) (needInsert : Bool) :
    (s.switch c t needInsert).currentThread = some t := by
  rw [switch]
  split_ifs
  · exact insert_current _ c
  · rfl

/-- A switch changes nothing of a thread but its status. -/
theorem run_field (hg : ∀ thread stat, g { thread with stat } = g thread) (t u : τ) :
    g ((s.run t).thread u) = g (s.thread u) :=
  (s.rtScheduleRemoveThread t).update_field
    (f := fun thread => { thread with stat := .running }) t (hg _ _) u

theorem insert_field (hg : ∀ thread stat, g { thread with stat } = g thread) (t u : τ) :
    g ((s.rtScheduleInsertThread t).thread u) = g (s.thread u) := by
  rw [rtScheduleInsertThread]
  split_ifs
  · exact s.update_field (f := fun thread => { thread with stat := .running }) t (hg _ _) u
  · exact s.update_field (f := fun thread => { thread with stat := .ready }) t (hg _ _) u

theorem switch_field (hg : ∀ thread stat, g { thread with stat } = g thread) (c t : τ)
    (needInsert : Bool) (u : τ) : g ((s.switch c t needInsert).thread u) = g (s.thread u) := by
  rw [switch]
  split_ifs
  · rw [run_field _ hg, insert_field _ hg]
  · exact run_field _ hg t u

omit [DecidableEq ω] in
theorem clearYield_priority (t u : τ) : (s.clearYield t).priority u = s.priority u :=
  s.update_field (g := RtThread.currentPriority)
    (f := fun thread => { thread with yield := false }) t rfl u

theorem run_priority (t u : τ) : (s.run t).priority u = s.priority u :=
  s.run_field (g := RtThread.currentPriority) (fun _ _ => rfl) t u

theorem switch_priority (c t : τ) (needInsert : Bool) (u : τ) :
    (s.switch c t needInsert).priority u = s.priority u :=
  s.switch_field (g := RtThread.currentPriority) (fun _ _ => rfl) c t needInsert u

end Frame

def rtSchedule (s : Scheduler τ ω) : Option (Scheduler τ ω) :=
  if s.lockNest ≠ 0 ∨ s.readyPriorityGroup = 0#32 then some s
  else do
    let (highest, toThread) ← s.getHighestPriorityThread
    let current ← s.currentThread
    let thread := s.thread current
    if thread.stat = .running then
      let s := s.clearYield current
      if thread.Keeps highest then some (s.dispatch current current false)
      else some (s.dispatch current toThread true)
    else some (s.dispatch current toThread false)

/-- `rt_system_scheduler_start` -/
def rtSystemSchedulerStart (s : Scheduler τ ω) : Option (Scheduler τ ω) :=
  if s.readyPriorityGroup = 0#32 then none
  else do
    let (_, toThread) ← s.getHighestPriorityThread
    some ({ s with currentThread := some toThread }.run toThread)

def rtThreadSuspend (s : Scheduler τ ω) (t : τ) : Option (Scheduler τ ω) :=
  let stat := (s.thread t).stat
  if stat ≠ .ready ∧ stat ≠ .running then some s
  else if stat = .running ∧ s.currentThread ≠ some t then none
  else some ((s.rtScheduleRemoveThread t).update t fun thread =>
    { thread with stat := .suspend, timerActivated := false })

theorem suspend_current {s s' : Scheduler τ ω} {t : τ} (h : s.rtThreadSuspend t = some s') :
    s'.currentThread = s.currentThread := by
  rw [rtThreadSuspend] at h
  split_ifs at h <;> cases h <;> rfl

/-- The thread leaves the list it waits in and its timer is stopped. -/
def unwait (s : Scheduler τ ω) (t : τ) : Scheduler τ ω :=
  { s.update t fun thread => { thread with timerActivated := false } with
    links := s.links.remove (.item t) }

theorem unwait_thread_self (s : Scheduler τ ω) (t : τ) :
    (s.unwait t).thread t = { s.thread t with timerActivated := false } :=
  Function.update_self ..

theorem unwait_thread_of_ne (s : Scheduler τ ω) {t u : τ} (h : u ≠ t) :
    (s.unwait t).thread u = s.thread u := Function.update_of_ne h ..

def rtThreadResume (s : Scheduler τ ω) (t : τ) : Scheduler τ ω :=
  if (s.thread t).stat ≠ .suspend then s
  else (s.unwait t).rtScheduleInsertThread t

/-- The attributes that `rt_thread_startup` sets before it resumes the thread. -/
def prepare (s : Scheduler τ ω) (t : τ) : Scheduler τ ω :=
  s.update t fun thread =>
    { thread with
      currentPriority := thread.initPriority
      numberMask := 1#32 <<< thread.initPriority
      stat := .suspend
      yield := false }

def scheduleIfStarted (s : Scheduler τ ω) : Option (Scheduler τ ω) :=
  if s.currentThread.isSome then s.rtSchedule else some s

def rtThreadStartup (s : Scheduler τ ω) (t : τ) : Option (Scheduler τ ω) :=
  if (s.thread t).stat ≠ .init then none else ((s.prepare t).rtThreadResume t).scheduleIfStarted

def reload (s : Scheduler τ ω) (t : τ) : Scheduler τ ω :=
  s.update t fun thread => { thread with remainingTick := thread.initTick, yield := true }

def rtThreadYield (s : Scheduler τ ω) : Option (Scheduler τ ω) := do
  let t ← s.currentThread
  (s.reload t).rtSchedule

/-- The timer of a thread fires: `rt_thread_timeout`. -/
def rtThreadTimeout (s : Scheduler τ ω) (t : τ) : Option (Scheduler τ ω) :=
  if (s.thread t).stat ≠ .suspend then none
  else ((s.unwait t).rtScheduleInsertThread t).rtSchedule

def setPriority (s : Scheduler τ ω) (t : τ) (priority : Nat) : Scheduler τ ω :=
  s.update t fun thread =>
    { thread with currentPriority := priority, numberMask := 1#32 <<< priority }

/-- `rt_thread_control` with `RT_THREAD_CTRL_CHANGE_PRIORITY`. A shift by 32 or more is
undefined. -/
def rtThreadChangePriority (s : Scheduler τ ω) (t : τ) (priority : Nat) :
    Option (Scheduler τ ω) :=
  if priority ≥ rtThreadPriorityMax then none
  else if (s.thread t).stat = .ready then
    some (((s.rtScheduleRemoveThread t).setPriority t priority).rtScheduleInsertThread t)
  else some (s.setPriority t priority)

/-- `rt_thread_detach` and `rt_thread_delete`, called with interrupts disabled -/
def rtThreadClose (s : Scheduler τ ω) (t : τ) : Scheduler τ ω :=
  match (s.thread t).stat with
  | .close => s
  | .init => s.update t RtThread.closed
  | _ => (s.rtScheduleRemoveThread t).update t RtThread.closed

theorem close_current (s : Scheduler τ ω) (t : τ) :
    (s.rtThreadClose t).currentThread = s.currentThread := by
  rw [rtThreadClose]
  split <;> rfl

/-- `_rt_thread_exit`, to which a thread's entry function returns. -/
def rtThreadExit (s : Scheduler τ ω) : Option (Scheduler τ ω) := do
  let t ← s.currentThread
  ((s.rtScheduleRemoveThread t).update t RtThread.closed).rtSchedule

def rtEnterCritical (s : Scheduler τ ω) : Scheduler τ ω :=
  { s with lockNest := (s.lockNest + 1).bmod 65536 }

def rtExitCritical (s : Scheduler τ ω) : Option (Scheduler τ ω) :=
  let lockNest := (s.lockNest - 1).bmod 65536
  if lockNest ≤ 0 then { s with lockNest := 0 }.scheduleIfStarted
  else some { s with lockNest }

/-- The time slice in `rt_tick_increase`. -/
def rtTickIncrease (s : Scheduler τ ω) : Option (Scheduler τ ω) := do
  let t ← s.currentThread
  let remaining := (s.thread t).remainingTick - 1#32
  if remaining = 0#32 then (s.reload t).rtSchedule
  else some (s.update t fun thread => { thread with remainingTick := remaining })

/-- The loop of `rt_ipc_list_suspend` from the node `n`, for at most `fuel` nodes. -/
def ipcPosition (s : Scheduler τ ω) (list : RingNode (ListHead ω) τ) (t : τ) :
    Nat → RingNode (ListHead ω) τ → Option (RingNode (ListHead ω) τ)
  | 0, _ => none
  | fuel + 1, n =>
      if n = list then some list
      else
        match n with
        | .head _ => none
        | .item u =>
            if s.priority t < s.priority u then some n
            else ipcPosition s list t fuel (s.links.next n)

variable [Fintype τ]

/-- The node before which a thread is inserted into the list of an object. -/
def ipcNode (s : Scheduler τ ω) (o : ω) (t : τ) :
    IpcFlag → Option (RingNode (ListHead ω) τ)
  | .fifo => some (.head (.waiting o))
  | .prio =>
      s.ipcPosition (.head (.waiting o)) t (Fintype.card τ + 1) (s.links.next (.head (.waiting o)))

def rtIpcListSuspend (s : Scheduler τ ω) (o : ω) (t : τ) (flag : IpcFlag) :
    Option (Scheduler τ ω) := do
  let s ← s.rtThreadSuspend t
  let n ← s.ipcNode o t flag
  some { s with links := s.links.insertBefore n (.item t) }

theorem ipcSuspend_current {s s' : Scheduler τ ω} {o : ω} {t : τ} {flag : IpcFlag}
    (h : s.rtIpcListSuspend o t flag = some s') : s'.currentThread = s.currentThread := by
  rw [rtIpcListSuspend] at h
  obtain ⟨s₁, hs₁, h⟩ := Option.bind_eq_some_iff.mp h
  obtain ⟨n, -, h⟩ := Option.bind_eq_some_iff.mp h
  cases h
  exact (suspend_current hs₁ :)

/-- `rt_ipc_list_resume`, which is called for a list that is not empty. -/
def rtIpcListResume (s : Scheduler τ ω) (o : ω) : Option (Scheduler τ ω) :=
  match s.links.next (.head (.waiting o)) with
  | .item t => some (s.rtThreadResume t)
  | .head _ => none

end Scheduler

/-- `sleep` and `block` are `rt_thread_sleep` and a wait for an object up to the call of
`rt_schedule`, which is a step of its own; interrupts may come between. None comes within
`close`. -/
inductive SchedAct (τ ω : Type)
  | startup (t : τ)
  | start
  | yield
  | sleep
  | block (o : ω) (flag : IpcFlag) (timed : Bool)
  | suspend (t : τ)
  | resume (t : τ)
  | wake (o : ω)
  | timeout (t : τ)
  | changePriority (t : τ) (priority : Nat)
  | close (t : τ)
  | exit
  | enterCritical
  | exitCritical
  | schedule
  | tick
deriving DecidableEq

namespace Scheduler

variable [DecidableEq τ] [DecidableEq ω] [Fintype τ]

def startTimer (s : Scheduler τ ω) (t : τ) (timed : Bool) : Scheduler τ ω :=
  s.update t fun thread => { thread with timerActivated := timed }

/-- A thread suspends itself or ends only while it is running, and its timer fires only when
it has been started and the scheduler too. -/
def step (s : Scheduler τ ω) : SchedAct τ ω → Option (Scheduler τ ω)
  | .startup t => s.rtThreadStartup t
  | .start => if s.currentThread.isSome then none else s.rtSystemSchedulerStart
  | .yield => s.rtThreadYield
  | .sleep => do
      let t ← s.currentThread
      if (s.thread t).stat = .running then (s.rtThreadSuspend t).map (startTimer · t true)
      else none
  | .block o flag timed => do
      let t ← s.currentThread
      if (s.thread t).stat = .running then
        (s.rtIpcListSuspend o t flag).map (startTimer · t timed)
      else none
  | .suspend t => s.rtThreadSuspend t
  | .resume t => some (s.rtThreadResume t)
  | .wake o => s.rtIpcListResume o
  | .timeout t =>
      if s.currentThread.isSome ∧ (s.thread t).timerActivated then s.rtThreadTimeout t else none
  | .changePriority t priority => s.rtThreadChangePriority t priority
  | .close t => some (s.rtThreadClose t)
  | .exit => do
      let t ← s.currentThread
      if (s.thread t).stat = .running then s.rtThreadExit else none
  | .enterCritical => some s.rtEnterCritical
  | .exitCritical => s.rtExitCritical
  | .schedule => s.rtSchedule
  | .tick => s.rtTickIncrease

end Scheduler

/-- The threads that have been created, whose priorities `_rt_thread_init` has checked. -/
structure ThreadTable (τ : Type) where
  priority : τ → Nat
  tick : τ → BitVec 32
  bounded : ∀ t, priority t < rtThreadPriorityMax

def schedMachine [DecidableEq τ] [DecidableEq ω] [Fintype τ] (threads : ThreadTable τ) :
    Machine (Scheduler τ ω) (SchedAct τ ω) where
  init :=
    { links := ⟨id, id⟩
      thread := fun t => rtThreadInit (threads.priority t) (threads.tick t)
      readyPriorityGroup := 0#32
      currentThread := none
      lockNest := 0 }
  step := Scheduler.step

end DrumMachine
