import DrumMachine.Framework.Roster
import DrumMachine.Framework.StableQueue
import DrumMachine.Kernel.MessageQueue

/-!
# Threads suspended on a message queue

In every run the two lists of the queue name exactly the threads that are suspended on it,
in the order in which they are to be resumed, and no message waits for a thread that was left
suspended.
-/

namespace DrumMachine

open Framework

variable {τ β : Type}

namespace MqPhase

def WaitsRecv : MqPhase β → Prop
  | .suspendedRecv _ _ => True
  | _ => False

def WaitsSend : MqPhase β → Prop
  | .suspendedSend _ _ => True
  | _ => False

def WokenRecv : MqPhase β → Prop
  | .receiving _ _ woken => woken = true
  | _ => False

def WokenSend : MqPhase β → Prop
  | .sending _ _ woken => woken = true
  | _ => False

/-- Neither suspended nor just resumed. -/
structure Awake (p : MqPhase β) : Prop where
  recv : ¬p.WaitsRecv
  send : ¬p.WaitsSend
  freshRecv : ¬p.WokenRecv
  freshSend : ¬p.WokenSend

theorem awake_returned (result : MqResult β) : (returned result).Awake := ⟨id, id, id, id⟩

theorem Starts.awake {p : MqPhase β} {msgSize : Nat} (h : p.Starts msgSize) : p.Awake := by
  cases h with
  | tooLong => exact awake_returned _
  | sending buffer timeout => exact ⟨id, id, id, Bool.false_ne_true⟩
  | urging buffer => exact ⟨id, id, id, id⟩
  | receiving size timeout => exact ⟨id, id, Bool.false_ne_true, id⟩

theorem Sends.not_waits {p : MqPhase β} {e : QueueEnd} {buffer : List β} (h : p.Sends e buffer) :
    ¬p.WaitsRecv ∧ ¬p.WaitsSend ∧ ¬p.WokenRecv := by
  cases h <;> exact ⟨id, id, id⟩

theorem WaitsRecv.resume {p : MqPhase β} (h : p.WaitsRecv) :
    p.resume.WokenRecv ∧ ¬p.resume.WaitsRecv ∧ ¬p.resume.WaitsSend ∧ ¬p.resume.WokenSend ∧
      ¬p.WaitsSend ∧ ¬p.WokenRecv ∧ ¬p.WokenSend := by
  cases p with
  | suspendedRecv size timeout => exact ⟨rfl, id, id, id, id, id, id⟩
  | _ => cases h

theorem WaitsSend.resume {p : MqPhase β} (h : p.WaitsSend) :
    p.resume.WokenSend ∧ ¬p.resume.WaitsRecv ∧ ¬p.resume.WaitsSend ∧ ¬p.resume.WokenRecv ∧
      ¬p.WaitsRecv ∧ ¬p.WokenRecv ∧ ¬p.WokenSend := by
  cases p with
  | suspendedSend buffer timeout => exact ⟨rfl, id, id, id, id, id, id⟩
  | _ => cases h

end MqPhase

variable [DecidableEq τ] {flag : IpcFlag} {priority : τ → Nat}

omit [DecidableEq τ] in
theorem rtIpcListSuspend_perm (flag : IpcFlag) (priority : τ → Nat) (list : List τ) (t : τ) :
    (rtIpcListSuspend priority list t flag).Perm (t :: list) := by
  cases flag with
  | fifo => exact List.perm_append_singleton t list
  | prio => exact List.perm_orderedInsert _ t list

structure Waiting (s : MqSystem τ β) : Prop where
  receivers : Roster s.suspendThread fun t => (s.phase t).WaitsRecv
  senders : Roster s.suspendSenderThread fun t => (s.phase t).WaitsSend

namespace Waiting

variable {s s' : MqSystem τ β} {t : τ} {p : MqPhase β}

theorem setPhase (h : Waiting s) (hrecv : ¬(s.phase t).WaitsRecv) (hsend : ¬(s.phase t).WaitsSend)
    (hp : ¬p.WaitsRecv) (hp' : ¬p.WaitsSend) : Waiting (s.setPhase t p) :=
  ⟨h.receivers.stay (iff_of_false hp hrecv), h.senders.stay (iff_of_false hp' hsend)⟩

theorem resumeReceiver (h : Waiting s) : Waiting s.resumeReceiver := by
  rw [MqSystem.resumeReceiver]
  split
  · exact h
  · rename_i t rest hlist
    have ht : (s.phase t).WaitsRecv := by
      rw [← h.receivers.mem_iff, hlist]
      exact List.mem_cons_self
    obtain ⟨-, hrecv, hsend, -, hsend', -⟩ := ht.resume
    have hrest : rest = s.suspendThread.erase t := by rw [hlist, List.erase_cons_head]
    refine ⟨?_, h.senders.stay (iff_of_false hsend hsend')⟩
    rw [hrest]
    exact h.receivers.leave hrecv

theorem resumeSender (h : Waiting s) : Waiting s.resumeSender := by
  rw [MqSystem.resumeSender]
  split
  · exact h
  · rename_i t rest hlist
    have ht : (s.phase t).WaitsSend := by
      rw [← h.senders.mem_iff, hlist]
      exact List.mem_cons_self
    obtain ⟨-, hrecv, hsend, -, hrecv', -⟩ := ht.resume
    have hrest : rest = s.suspendSenderThread.erase t := by rw [hlist, List.erase_cons_head]
    refine ⟨h.receivers.stay (iff_of_false hrecv hrecv'), ?_⟩
    rw [hrest]
    exact h.senders.leave hsend

end Waiting

omit [DecidableEq τ] in
private theorem not_waits_of_eq {s : MqSystem τ β} {t : τ} {p : MqPhase β} (h : s.phase t = p)
    (hrecv : ¬p.WaitsRecv) (hsend : ¬p.WaitsSend) :
    ¬(s.phase t).WaitsRecv ∧ ¬(s.phase t).WaitsSend := by
  rw [h]
  exact ⟨hrecv, hsend⟩

theorem resumeAll_apply (phase : τ → MqPhase β) (list : List τ) (t : τ) :
    MqSystem.resumeAll phase list t = if t ∈ list then .returned .error else phase t := by
  induction list generalizing phase with
  | nil => rfl
  | cons u list ih =>
    have hcons : MqSystem.resumeAll phase (u :: list) =
        MqSystem.resumeAll (Function.update phase u (.returned .error)) list := rfl
    rw [hcons, ih]
    by_cases hmem : t ∈ list
    · simp [hmem]
    · by_cases htu : t = u
      · simp [htu]
      · simp [hmem, htu]

theorem reset_phase (s : MqSystem τ β) (t : τ) :
    s.reset.phase t =
      if t ∈ s.suspendThread ∨ t ∈ s.suspendSenderThread then .returned .error else s.phase t := by
  change MqSystem.resumeAll (MqSystem.resumeAll s.phase s.suspendThread) s.suspendSenderThread t = _
  rw [resumeAll_apply, resumeAll_apply]
  by_cases hs : t ∈ s.suspendSenderThread <;> by_cases hr : t ∈ s.suspendThread <;> simp [hs, hr]

/-- A reset leaves no thread suspended and the others as they were. -/
theorem Waiting.reset_cases {s : MqSystem τ β} (h : Waiting s) (t : τ) :
    (s.reset.phase t = .returned .error ∧ ((s.phase t).WaitsRecv ∨ (s.phase t).WaitsSend)) ∨
      (s.reset.phase t = s.phase t ∧ ¬(s.phase t).WaitsRecv ∧ ¬(s.phase t).WaitsSend) := by
  rw [reset_phase]
  split_ifs with hwaits
  · exact Or.inl ⟨rfl, hwaits.imp (h.receivers.mem_iff t).mp (h.senders.mem_iff t).mp⟩
  · obtain ⟨hrecv, hsend⟩ := not_or.mp hwaits
    exact Or.inr ⟨rfl, mt (h.receivers.mem_iff t).mpr hrecv, mt (h.senders.mem_iff t).mpr hsend⟩

theorem Waiting.step {s s' : MqSystem τ β} {act : MqAct τ β} (h : Waiting s)
    (he : MqEffect flag priority s act s') : Waiting s' := by
  cases he with
  | call t c result p hphase hstarts =>
    obtain ⟨hrecv, hsend⟩ := not_waits_of_eq hphase id id
    exact h.setPhase hrecv hsend hstarts.awake.recv hstarts.awake.send
  | full t elapsed e buffer hphase hfree =>
    obtain ⟨hrecv, hsend, -⟩ := hphase.not_waits
    exact h.setPhase hrecv hsend id id
  | suspendSend t elapsed buffer timeout ticks woken hphase hfree =>
    obtain ⟨hrecv, hsend⟩ := not_waits_of_eq hphase id id
    have hp : (MqPhase.suspendedSend buffer ticks).WaitsSend := trivial
    exact ⟨h.receivers.stay (iff_of_false id hrecv),
      (h.senders.join hsend hp).perm (rtIpcListSuspend_perm flag priority _ t)⟩
  | takeFree t elapsed e msg buffer hphase hfree =>
    obtain ⟨hrecv, hsend, -⟩ := hphase.not_waits
    exact ⟨h.receivers.stay (iff_of_false id hrecv), h.senders.stay (iff_of_false id hsend)⟩
  | empty t elapsed size timeout woken hphase hentry =>
    obtain ⟨hrecv, hsend⟩ := not_waits_of_eq hphase id id
    exact h.setPhase hrecv hsend id id
  | suspendRecv t elapsed size timeout ticks woken hphase hentry =>
    obtain ⟨hrecv, hsend⟩ := not_waits_of_eq hphase id id
    have hp : (MqPhase.suspendedRecv size ticks : MqPhase β).WaitsRecv := trivial
    exact ⟨(h.receivers.join hrecv hp).perm (rtIpcListSuspend_perm flag priority _ t),
      h.senders.stay (iff_of_false id hsend)⟩
  | takeFirst t elapsed msg size timeout woken hphase hentry hhead =>
    obtain ⟨hrecv, hsend⟩ := not_waits_of_eq hphase id id
    exact ⟨h.receivers.stay (iff_of_false id hrecv), h.senders.stay (iff_of_false id hsend)⟩
  | fill t e msg buffer hphase =>
    obtain ⟨hrecv, hsend⟩ := not_waits_of_eq hphase id id
    exact ⟨h.receivers.stay (iff_of_false id hrecv), h.senders.stay (iff_of_false id hsend)⟩
  | copyOut t msg size hphase =>
    obtain ⟨hrecv, hsend⟩ := not_waits_of_eq hphase id id
    exact h.setPhase hrecv hsend id id
  | send t e msg buffer hphase =>
    obtain ⟨hrecv, hsend⟩ := not_waits_of_eq hphase id id
    simp only [MqSystem.finishSend]
    split_ifs with hentry
    · apply Waiting.resumeReceiver
      exact ⟨h.receivers.stay (iff_of_false id hrecv), h.senders.stay (iff_of_false id hsend)⟩
    · exact ⟨h.receivers.stay (iff_of_false id hrecv), h.senders.stay (iff_of_false id hsend)⟩
  | receive t msg data hphase =>
    obtain ⟨hrecv, hsend⟩ := not_waits_of_eq hphase id id
    apply Waiting.resumeSender
    exact ⟨h.receivers.stay (iff_of_false id hrecv), h.senders.stay (iff_of_false id hsend)⟩
  | expireSend t buffer timeout hphase =>
    have hrecv : ¬(s.phase t).WaitsRecv := by
      rw [hphase]
      exact id
    exact ⟨h.receivers.stay (iff_of_false id hrecv), h.senders.leave id⟩
  | expireRecv t size timeout hphase =>
    have hsend : ¬(s.phase t).WaitsSend := by
      rw [hphase]
      exact id
    exact ⟨h.receivers.leave id, h.senders.stay (iff_of_false id hsend)⟩
  | reset =>
    refine ⟨Roster.nil fun t => ?_, Roster.nil fun t => ?_⟩
    · rcases h.reset_cases t with ⟨hphase, -⟩ | ⟨hphase, hrecv, hsend⟩ <;> rw [hphase]
      · exact id
      · exact hrecv
    · rcases h.reset_cases t with ⟨hphase, -⟩ | ⟨hphase, hrecv, hsend⟩ <;> rw [hphase]
      · exact id
      · exact hsend

end DrumMachine
