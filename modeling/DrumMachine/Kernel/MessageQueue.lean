import DrumMachine.Framework.Linked
import DrumMachine.Framework.Loop
import DrumMachine.Framework.Machine
import Mathlib.Data.List.Sort

/-!
# The message queue of the kernel

`struct rt_messagequeue` with its pool of linked nodes, and the calls `rt_mq_send_wait`,
`rt_mq_urgent`, `rt_mq_recv` and `rt_mq_control` of `ipc.c` cut where they enable interrupts,
so that the steps of any number of threads interleave freely between the critical sections.
-/

namespace DrumMachine

open Framework

variable {τ β : Type}

def rtMqEntryMax : Nat := 65535

def rtAlign (size align : Nat) : Nat := (size + align - 1) / align * align

/-- `struct rt_messagequeue` with its pool: node `n` is the header `next n`, followed by the
bytes `body n`. -/
structure MessageQueue (β : Type) where
  msgSize : Nat
  maxMsgs : Nat
  entry : Nat
  msgQueueHead : Option Nat
  msgQueueTail : Option Nat
  msgQueueFree : Option Nat
  next : Nat → Option Nat
  body : Nat → List β

def linkFree (temp : Nat) (mq : MessageQueue β) : MessageQueue β :=
  { mq with next := Function.update mq.next temp mq.msgQueueFree, msgQueueFree := some temp }

/-- `rt_mq_create` once its two allocations have succeeded. The sizes are stored in 16 bits,
and `memory` is what the pool held before. -/
def rtMqCreate (msgSize maxMsgs : Nat) (links : Nat → Option Nat) (memory : Nat → Nat → β) :
    MessageQueue β :=
  let size := rtAlign msgSize 4 % 65536
  let count := maxMsgs % 65536
  forLoop count (fun temp => linkFree temp.val)
    { msgSize := size
      maxMsgs := count
      entry := 0
      msgQueueHead := none
      msgQueueTail := none
      msgQueueFree := none
      next := links
      body := fun n => (List.range size).map (memory n) }

inductive QueueEnd
  | back
  | front
deriving DecidableEq

def QueueEnd.enqueue {α : Type} (x : α) (xs : List α) : QueueEnd → List α
  | .back => xs ++ [x]
  | .front => x :: xs

namespace MessageQueue

/-- `rt_memcpy(msg + 1, buffer, size)`, before which a sender to the back clears the link. -/
def fill (mq : MessageQueue β) (e : QueueEnd) (msg : Nat) (buffer : List β) : MessageQueue β :=
  { mq with
    next := match e with
      | .back => Function.update mq.next msg none
      | .front => mq.next
    body := Function.update mq.body msg (buffer ++ (mq.body msg).drop buffer.length) }

def link (mq : MessageQueue β) (msg : Nat) : QueueEnd → MessageQueue β
  | .back =>
      { mq with
        next := mq.msgQueueTail.elim mq.next fun tail => Function.update mq.next tail (some msg)
        msgQueueTail := some msg
        msgQueueHead := mq.msgQueueHead.elim (some msg) some }
  | .front =>
      { mq with
        next := Function.update mq.next msg mq.msgQueueHead
        msgQueueHead := some msg
        msgQueueTail := mq.msgQueueTail.elim (some msg) some }

def unlink (mq : MessageQueue β) (msg : Nat) : MessageQueue β :=
  { mq with
    msgQueueHead := mq.next msg
    msgQueueTail := if mq.msgQueueTail = some msg then none else mq.msgQueueTail }

def takeFirst (mq : MessageQueue β) (msg : Nat) : MessageQueue β :=
  { mq.unlink msg with entry := if mq.entry > 0 then mq.entry - 1 else mq.entry }

def release (mq : MessageQueue β) (msg : Nat) : MessageQueue β :=
  { mq with next := Function.update mq.next msg mq.msgQueueFree, msgQueueFree := some msg }

/-- The loop of `RT_IPC_CMD_RESET`, at most `fuel` times. -/
def releaseAll : Nat → MessageQueue β → MessageQueue β
  | 0, mq => mq
  | fuel + 1, mq =>
      match mq.msgQueueHead with
      | none => mq
      | some msg => releaseAll fuel ((mq.unlink msg).release msg)

def reset (mq : MessageQueue β) : MessageQueue β := { mq.releaseAll mq.maxMsgs with entry := 0 }

end MessageQueue

inductive MqResult (β : Type)
  | ok
  | received (data : List β)
  | error
  | full
  | timedOut
deriving DecidableEq

/-- Where a thread is in its call. A node in a phase has left the queue's lists. -/
inductive MqPhase (β : Type)
  | returned (result : MqResult β)
  | sending (buffer : List β) (timeout : Int) (woken : Bool)
  | urging (buffer : List β)
  | suspendedSend (buffer : List β) (timeout : Int)
  | filling (e : QueueEnd) (msg : Nat) (buffer : List β)
  | linking (e : QueueEnd) (msg : Nat) (buffer : List β)
  | receiving (size : Nat) (timeout : Int) (woken : Bool)
  | suspendedRecv (size : Nat) (timeout : Int)
  | copying (msg : Nat) (size : Nat)
  | releasing (msg : Nat) (data : List β)
deriving DecidableEq

inductive IpcFlag
  | fifo
  | prio
deriving DecidableEq

def rtIpcListSuspend (priority : τ → Nat) (list : List τ) (thread : τ) : IpcFlag → List τ
  | .fifo => list ++ [thread]
  | .prio => list.orderedInsert (fun a b => priority a < priority b) thread

def MqPhase.resume : MqPhase β → MqPhase β
  | .suspendedSend buffer timeout => .sending buffer timeout true
  | .suspendedRecv size timeout => .receiving size timeout true
  | phase => phase

/-- The queue, the two lists of suspended threads, and the phase of every thread. -/
structure MqSystem (τ β : Type) where
  mq : MessageQueue β
  suspendThread : List τ
  suspendSenderThread : List τ
  phase : τ → MqPhase β

/-- What a thread may call. A negative timeout waits for ever. -/
inductive MqCall (β : Type)
  | sendWait (buffer : List β) (timeout : Int)
  | urgent (buffer : List β)
  | recv (size : Nat) (timeout : Int)
deriving DecidableEq

/-- `look` is the first critical section of a call and `finish` its last; between them a
sender copies its message in and a receiver copies it out. `elapsed` is the number of ticks
that a thread has spent suspended when it is back. -/
inductive MqAct (τ β : Type)
  | call (t : τ) (c : MqCall β)
  | look (t : τ) (elapsed : Nat)
  | copy (t : τ)
  | finish (t : τ)
  | expire (t : τ)
  | reset
deriving DecidableEq

def remainingTicks (timeout : Int) (woken : Bool) (elapsed : Nat) : Int :=
  if woken ∧ timeout > 0 then max (timeout - elapsed) 0 else timeout

namespace MqSystem

variable [DecidableEq τ] (flag : IpcFlag) (priority : τ → Nat)

def setPhase (s : MqSystem τ β) (t : τ) (phase : MqPhase β) : MqSystem τ β :=
  { s with phase := Function.update s.phase t phase }

@[simp]
theorem setPhase_self (s : MqSystem τ β) (t : τ) (phase : MqPhase β) :
    (s.setPhase t phase).phase t = phase := Function.update_self ..

theorem setPhase_of_ne (s : MqSystem τ β) {t u : τ} (h : u ≠ t) (phase : MqPhase β) :
    (s.setPhase t phase).phase u = s.phase u := Function.update_of_ne h ..

/-- `rt_ipc_list_resume` of the receivers, if there are any. -/
def resumeReceiver (s : MqSystem τ β) : MqSystem τ β :=
  match s.suspendThread with
  | [] => s
  | t :: rest => { s with suspendThread := rest }.setPhase t (s.phase t).resume

def resumeSender (s : MqSystem τ β) : MqSystem τ β :=
  match s.suspendSenderThread with
  | [] => s
  | t :: rest => { s with suspendSenderThread := rest }.setPhase t (s.phase t).resume

/-- `rt_ipc_list_resume_all`: each thread returns from its call with `-RT_ERROR`. -/
def resumeAll (phase : τ → MqPhase β) (list : List τ) : τ → MqPhase β :=
  list.foldl (fun phase t => Function.update phase t (.returned .error)) phase

/-- The checks before the first critical section; a call with an empty buffer is an
assertion failure. -/
def call (s : MqSystem τ β) (t : τ) : MqCall β → Option (MqSystem τ β)
  | .sendWait buffer timeout =>
      if buffer.length = 0 then none
      else if buffer.length > s.mq.msgSize then some (s.setPhase t (.returned .error))
      else some (s.setPhase t (.sending buffer timeout false))
  | .urgent buffer =>
      if buffer.length = 0 then none
      else if buffer.length > s.mq.msgSize then some (s.setPhase t (.returned .error))
      else some (s.setPhase t (.urging buffer))
  | .recv size timeout =>
      if size = 0 then none else some (s.setPhase t (.receiving size timeout false))

/-- The head of the free list goes to the thread `t`. -/
def takeFree (s : MqSystem τ β) (t : τ) (e : QueueEnd) (msg : Nat) (buffer : List β) :
    MqSystem τ β :=
  { s with mq := { s.mq with msgQueueFree := s.mq.next msg } }.setPhase t (.filling e msg buffer)

def lookSend (s : MqSystem τ β) (t : τ) (buffer : List β) (timeout : Int) : MqSystem τ β :=
  match s.mq.msgQueueFree with
  | some msg => s.takeFree t .back msg buffer
  | none =>
      if timeout = 0 then s.setPhase t (.returned .full)
      else { s with
        suspendSenderThread := rtIpcListSuspend priority s.suspendSenderThread t flag }.setPhase t
          (.suspendedSend buffer timeout)

def lookUrgent (s : MqSystem τ β) (t : τ) (buffer : List β) : MqSystem τ β :=
  match s.mq.msgQueueFree with
  | some msg => s.takeFree t .front msg buffer
  | none => s.setPhase t (.returned .full)

/-- The last branch is a null dereference. -/
def lookRecv (s : MqSystem τ β) (t : τ) (size : Nat) (timeout : Int) : Option (MqSystem τ β) :=
  if s.mq.entry = 0 then
    if timeout = 0 then some (s.setPhase t (.returned .timedOut))
    else some ({ s with
      suspendThread := rtIpcListSuspend priority s.suspendThread t flag }.setPhase t
        (.suspendedRecv size timeout))
  else
    match s.mq.msgQueueHead with
    | some msg => some ({ s with mq := s.mq.takeFirst msg }.setPhase t (.copying msg size))
    | none => none

def look (s : MqSystem τ β) (t : τ) (elapsed : Nat) : Option (MqSystem τ β) :=
  match s.phase t with
  | .sending buffer timeout woken =>
      some (s.lookSend flag priority t buffer (remainingTicks timeout woken elapsed))
  | .urging buffer => some (s.lookUrgent t buffer)
  | .receiving size timeout woken =>
      s.lookRecv flag priority t size (remainingTicks timeout woken elapsed)
  | _ => none

def copy (s : MqSystem τ β) (t : τ) : Option (MqSystem τ β) :=
  match s.phase t with
  | .filling e msg buffer =>
      some ({ s with mq := s.mq.fill e msg buffer }.setPhase t (.linking e msg buffer))
  | .copying msg size =>
      some (s.setPhase t (.releasing msg
        ((s.mq.body msg).take (if size > s.mq.msgSize then s.mq.msgSize else size))))
  | _ => none

def finishSend (s : MqSystem τ β) (t : τ) (e : QueueEnd) (msg : Nat) : MqSystem τ β :=
  let mq := s.mq.link msg e
  if mq.entry < rtMqEntryMax then
    ({ s with mq := { mq with entry := mq.entry + 1 } }.setPhase t (.returned .ok)).resumeReceiver
  else { s with mq }.setPhase t (.returned .full)

def finishRecv (s : MqSystem τ β) (t : τ) (msg : Nat) (data : List β) : MqSystem τ β :=
  ({ s with mq := s.mq.release msg }.setPhase t (.returned (.received data))).resumeSender

def finish (s : MqSystem τ β) (t : τ) : Option (MqSystem τ β) :=
  match s.phase t with
  | .linking e msg _ => some (s.finishSend t e msg)
  | .releasing msg data => some (s.finishRecv t msg data)
  | _ => none

/-- `rt_thread_timeout`, for a thread whose timer was started. -/
def expire (s : MqSystem τ β) (t : τ) : Option (MqSystem τ β) :=
  match s.phase t with
  | .suspendedSend _ timeout =>
      if timeout > 0 then
        some ({ s with suspendSenderThread := s.suspendSenderThread.erase t }.setPhase t
          (.returned .timedOut))
      else none
  | .suspendedRecv _ timeout =>
      if timeout > 0 then
        some ({ s with suspendThread := s.suspendThread.erase t }.setPhase t (.returned .timedOut))
      else none
  | _ => none

/-- `rt_mq_control` with `RT_IPC_CMD_RESET`. -/
def reset (s : MqSystem τ β) : MqSystem τ β where
  mq := s.mq.reset
  suspendThread := []
  suspendSenderThread := []
  phase := resumeAll (resumeAll s.phase s.suspendThread) s.suspendSenderThread

def step (s : MqSystem τ β) : MqAct τ β → Option (MqSystem τ β)
  | .call t c =>
      match s.phase t with
      | .returned _ => s.call t c
      | _ => none
  | .look t elapsed => s.look flag priority t elapsed
  | .copy t => s.copy t
  | .finish t => s.finish t
  | .expire t => s.expire t
  | .reset => some s.reset

end MqSystem

/-- What the first critical section of a call waits for. -/
inductive MqPhase.Starts (msgSize : Nat) : MqPhase β → Prop
  | tooLong : Starts msgSize (.returned .error)
  | sending (buffer : List β) (timeout : Int) (hfits : buffer.length ≤ msgSize) :
      Starts msgSize (.sending buffer timeout false)
  | urging (buffer : List β) (hfits : buffer.length ≤ msgSize) : Starts msgSize (.urging buffer)
  | receiving (size : Nat) (timeout : Int) : Starts msgSize (.receiving size timeout false)

/-- A phase from which `look` takes a node of the free list. -/
inductive MqPhase.Sends : QueueEnd → List β → MqPhase β → Prop
  | sending (buffer : List β) (timeout : Int) (woken : Bool) :
      Sends .back buffer (.sending buffer timeout woken)
  | urging (buffer : List β) : Sends .front buffer (.urging buffer)

/-- Everything that one step can do. -/
inductive MqEffect [DecidableEq τ] (flag : IpcFlag) (priority : τ → Nat) (s : MqSystem τ β) :
    MqAct τ β → MqSystem τ β → Prop
  | call (t : τ) (c : MqCall β) (result : MqResult β) (phase : MqPhase β)
      (hphase : s.phase t = .returned result) (hstarts : phase.Starts s.mq.msgSize) :
      MqEffect flag priority s (.call t c) (s.setPhase t phase)
  | full (t : τ) (elapsed : Nat) (e : QueueEnd) (buffer : List β)
      (hphase : (s.phase t).Sends e buffer) (hfree : s.mq.msgQueueFree = none) :
      MqEffect flag priority s (.look t elapsed) (s.setPhase t (.returned .full))
  | suspendSend (t : τ) (elapsed : Nat) (buffer : List β) (timeout ticks : Int) (woken : Bool)
      (hphase : s.phase t = .sending buffer timeout woken) (hfree : s.mq.msgQueueFree = none) :
      MqEffect flag priority s (.look t elapsed) ({ s with
        suspendSenderThread := rtIpcListSuspend priority s.suspendSenderThread t flag }.setPhase t
          (.suspendedSend buffer ticks))
  | takeFree (t : τ) (elapsed : Nat) (e : QueueEnd) (msg : Nat) (buffer : List β)
      (hphase : (s.phase t).Sends e buffer) (hfree : s.mq.msgQueueFree = some msg) :
      MqEffect flag priority s (.look t elapsed) (s.takeFree t e msg buffer)
  | empty (t : τ) (elapsed : Nat) (size : Nat) (timeout : Int) (woken : Bool)
      (hphase : s.phase t = .receiving size timeout woken) (hentry : s.mq.entry = 0) :
      MqEffect flag priority s (.look t elapsed) (s.setPhase t (.returned .timedOut))
  | suspendRecv (t : τ) (elapsed : Nat) (size : Nat) (timeout ticks : Int) (woken : Bool)
      (hphase : s.phase t = .receiving size timeout woken) (hentry : s.mq.entry = 0) :
      MqEffect flag priority s (.look t elapsed) ({ s with
        suspendThread := rtIpcListSuspend priority s.suspendThread t flag }.setPhase t
          (.suspendedRecv size ticks))
  | takeFirst (t : τ) (elapsed : Nat) (msg size : Nat) (timeout : Int) (woken : Bool)
      (hphase : s.phase t = .receiving size timeout woken) (hentry : s.mq.entry ≠ 0)
      (hhead : s.mq.msgQueueHead = some msg) :
      MqEffect flag priority s (.look t elapsed)
        ({ s with mq := s.mq.takeFirst msg }.setPhase t (.copying msg size))
  | fill (t : τ) (e : QueueEnd) (msg : Nat) (buffer : List β)
      (hphase : s.phase t = .filling e msg buffer) :
      MqEffect flag priority s (.copy t)
        ({ s with mq := s.mq.fill e msg buffer }.setPhase t (.linking e msg buffer))
  | copyOut (t : τ) (msg size : Nat) (hphase : s.phase t = .copying msg size) :
      MqEffect flag priority s (.copy t) (s.setPhase t (.releasing msg
        ((s.mq.body msg).take (if size > s.mq.msgSize then s.mq.msgSize else size))))
  | send (t : τ) (e : QueueEnd) (msg : Nat) (buffer : List β)
      (hphase : s.phase t = .linking e msg buffer) :
      MqEffect flag priority s (.finish t) (s.finishSend t e msg)
  | receive (t : τ) (msg : Nat) (data : List β) (hphase : s.phase t = .releasing msg data) :
      MqEffect flag priority s (.finish t) (s.finishRecv t msg data)
  | expireSend (t : τ) (buffer : List β) (timeout : Int)
      (hphase : s.phase t = .suspendedSend buffer timeout) :
      MqEffect flag priority s (.expire t) ({ s with
        suspendSenderThread := s.suspendSenderThread.erase t }.setPhase t (.returned .timedOut))
  | expireRecv (t : τ) (size : Nat) (timeout : Int)
      (hphase : s.phase t = .suspendedRecv size timeout) :
      MqEffect flag priority s (.expire t) ({ s with
        suspendThread := s.suspendThread.erase t }.setPhase t (.returned .timedOut))
  | reset : MqEffect flag priority s .reset s.reset

section Effect

variable [DecidableEq τ] {flag : IpcFlag} {priority : τ → Nat} {s s' : MqSystem τ β}

private theorem effect_call {t : τ} {c : MqCall β} {result : MqResult β}
    (hphase : s.phase t = .returned result) (h : s.call t c = some s') :
    MqEffect flag priority s (.call t c) s' := by
  cases c with
  | sendWait buffer timeout =>
    simp only [MqSystem.call] at h
    split_ifs at h with hempty hlong <;> cases h
    · exact .call t _ result _ hphase .tooLong
    · exact .call t _ result _ hphase (.sending buffer timeout (not_lt.mp hlong))
  | urgent buffer =>
    simp only [MqSystem.call] at h
    split_ifs at h with hempty hlong <;> cases h
    · exact .call t _ result _ hphase .tooLong
    · exact .call t _ result _ hphase (.urging buffer (not_lt.mp hlong))
  | recv size timeout =>
    simp only [MqSystem.call] at h
    split_ifs at h with hempty
    cases h
    exact .call t _ result _ hphase (.receiving size timeout)

private theorem effect_look {t : τ} {elapsed : Nat} (h : s.look flag priority t elapsed = some s') :
    MqEffect flag priority s (.look t elapsed) s' := by
  rw [MqSystem.look] at h
  split at h
  · rename_i buffer timeout woken hphase
    have hsends : (s.phase t).Sends .back buffer := by
      rw [hphase]
      exact .sending buffer timeout woken
    cases h
    rw [MqSystem.lookSend]
    split
    · rename_i msg hfree
      exact .takeFree t elapsed .back msg buffer hsends hfree
    · rename_i hfree
      split_ifs with hticks
      · exact .full t elapsed .back buffer hsends hfree
      · exact .suspendSend t elapsed buffer timeout _ woken hphase hfree
  · rename_i buffer hphase
    have hsends : (s.phase t).Sends .front buffer := by
      rw [hphase]
      exact .urging buffer
    cases h
    rw [MqSystem.lookUrgent]
    split
    · rename_i msg hfree
      exact .takeFree t elapsed .front msg buffer hsends hfree
    · rename_i hfree
      exact .full t elapsed .front buffer hsends hfree
  · rename_i size timeout woken hphase
    rw [MqSystem.lookRecv] at h
    split_ifs at h with hentry hticks
    · cases h
      exact .empty t elapsed size timeout woken hphase hentry
    · cases h
      exact .suspendRecv t elapsed size timeout _ woken hphase hentry
    · split at h <;> cases h
      rename_i msg hhead
      exact .takeFirst t elapsed msg size timeout woken hphase hentry hhead
  · cases h

theorem mq_step_effect {act : MqAct τ β} (h : s.step flag priority act = some s') :
    MqEffect flag priority s act s' := by
  cases act with
  | call t c =>
    simp only [MqSystem.step] at h
    split at h
    · rename_i result hphase
      exact effect_call hphase h
    · cases h
  | look t elapsed => exact effect_look h
  | copy t =>
    simp only [MqSystem.step, MqSystem.copy] at h
    split at h <;> cases h
    · rename_i e msg buffer hphase
      exact .fill t e msg buffer hphase
    · rename_i msg size hphase
      exact .copyOut t msg size hphase
  | finish t =>
    simp only [MqSystem.step, MqSystem.finish] at h
    split at h <;> cases h
    · rename_i e msg buffer hphase
      exact .send t e msg buffer hphase
    · rename_i msg data hphase
      exact .receive t msg data hphase
  | expire t =>
    simp only [MqSystem.step, MqSystem.expire] at h
    split at h
    · rename_i buffer timeout hphase
      split_ifs at h
      cases h
      exact .expireSend t buffer timeout hphase
    · rename_i size timeout hphase
      split_ifs at h
      cases h
      exact .expireRecv t size timeout hphase
    · cases h
  | reset =>
    cases h
    exact .reset

end Effect

/-- Any threads, whose priorities stay what they are, over one queue that `rt_mq_create` has
made. -/
def mqMachine [DecidableEq τ] (flag : IpcFlag) (priority : τ → Nat) (mq : MessageQueue β) :
    Machine (MqSystem τ β) (MqAct τ β) where
  init := ⟨mq, [], [], fun _ => .returned .ok⟩
  step := MqSystem.step flag priority

end DrumMachine
