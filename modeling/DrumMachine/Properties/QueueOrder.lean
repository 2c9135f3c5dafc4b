import DrumMachine.Properties.QueueWakeups

/-!
# Order of the wake-ups

The lists of a message queue keep the order its flag asks for: by priority and, among equals,
or under `RT_IPC_FLAG_FIFO` among all, by the time of suspension.
-/

namespace DrumMachine

open Framework

variable {τ β : Type} [DecidableEq τ]

def LooksAs (t : τ) : MqAct τ β → Bool
  | .look u _ => decide (u = t)
  | _ => false

/-- When the thread last entered the first critical section: the length of the run up to that
step. A suspended thread was suspended there. -/
def lastLook (t : τ) (acts : List (MqAct τ β)) : Nat :=
  (acts.reverse.dropWhile fun act => !LooksAs t act).length

def ResumesBefore (flag : IpcFlag) (priority : τ → Nat) (acts : List (MqAct τ β)) (t u : τ) :
    Prop :=
  match flag with
  | .fifo => lastLook t acts < lastLook u acts
  | .prio => priority t < priority u ∨
      priority t = priority u ∧ lastLook t acts < lastLook u acts

theorem lastLook_concat (t : τ) (acts : List (MqAct τ β)) (act : MqAct τ β) :
    lastLook t (acts ++ [act]) = if LooksAs t act then acts.length + 1 else lastLook t acts := by
  simp only [lastLook, List.reverse_concat, List.dropWhile_cons]
  cases LooksAs t act <;> simp

theorem lastLook_le (t : τ) (acts : List (MqAct τ β)) : lastLook t acts ≤ acts.length := by
  have hle := (List.dropWhile_suffix (l := acts.reverse) fun act => !LooksAs t act).length_le
  rwa [List.length_reverse] at hle

theorem resumesBefore_concat {flag : IpcFlag} {priority : τ → Nat} {acts : List (MqAct τ β)}
    {act : MqAct τ β} {t u : τ} (ht : LooksAs t act = false) (hu : LooksAs u act = false) :
    ResumesBefore flag priority (acts ++ [act]) t u ↔ ResumesBefore flag priority acts t u := by
  cases flag <;> simp [ResumesBefore, lastLook_concat, ht, hu]

private theorem pairwise_concat {flag : IpcFlag} {priority : τ → Nat} {acts : List (MqAct τ β)}
    {act : MqAct τ β} {list : List τ} (hout : ∀ t ∈ list, LooksAs t act = false)
    (h : list.Pairwise (ResumesBefore flag priority acts)) :
    list.Pairwise (ResumesBefore flag priority (acts ++ [act])) := by
  refine h.imp_of_mem ?_
  intro t u ht hu hbefore
  exact (resumesBefore_concat (hout t ht) (hout u hu)).mpr hbefore

/-- A thread that suspends itself goes behind those of its own priority. -/
private theorem pairwise_suspend {flag : IpcFlag} {priority : τ → Nat}
    {acts : List (MqAct τ β)} {list : List τ} {t : τ} {elapsed : Nat} (ht : t ∉ list)
    (h : list.Pairwise (ResumesBefore flag priority acts)) :
    (rtIpcListSuspend priority list t flag).Pairwise
      (ResumesBefore flag priority (acts ++ [.look t elapsed])) := by
  have hother : ∀ u ∈ list, LooksAs u (.look t elapsed : MqAct τ β) = false := by
    rintro u hu
    exact decide_eq_false fun htu => ht (htu ▸ hu)
  have hlast : ∀ u ∈ list, lastLook u (acts ++ [.look t elapsed]) <
      lastLook t (acts ++ [.look t elapsed]) := by
    intro u hu
    have hself : LooksAs t (.look t elapsed : MqAct τ β) = true := decide_eq_true rfl
    rw [lastLook_concat, lastLook_concat, hother u hu, hself]
    exact Nat.lt_succ_of_le (lastLook_le u acts)
  have hlist := pairwise_concat hother h
  cases flag with
  | fifo =>
    refine List.pairwise_append.mpr ⟨hlist, List.pairwise_singleton _ t, ?_⟩
    intro u hu v hv
    rw [List.mem_singleton] at hv
    subst hv
    exact hlast u hu
  | prio => exact pairwise_lex_orderedInsert priority _ t hlast hlist

structure SuspendedInOrder (flag : IpcFlag) (priority : τ → Nat) (acts : List (MqAct τ β))
    (s : MqSystem τ β) : Prop where
  receivers : s.suspendThread.Pairwise (ResumesBefore flag priority acts)
  senders : s.suspendSenderThread.Pairwise (ResumesBefore flag priority acts)

theorem resumeReceiver_lists (s : MqSystem τ β) :
    s.resumeReceiver.suspendThread = s.suspendThread.tail ∧
      s.resumeReceiver.suspendSenderThread = s.suspendSenderThread := by
  rw [MqSystem.resumeReceiver]
  split
  · rename_i hlist
    rw [hlist]
    exact ⟨rfl, rfl⟩
  · rename_i t rest hlist
    rw [hlist]
    exact ⟨rfl, rfl⟩

theorem resumeSender_lists (s : MqSystem τ β) :
    s.resumeSender.suspendThread = s.suspendThread ∧
      s.resumeSender.suspendSenderThread = s.suspendSenderThread.tail := by
  rw [MqSystem.resumeSender]
  split
  · rename_i hlist
    rw [hlist]
    exact ⟨rfl, rfl⟩
  · rename_i t rest hlist
    rw [hlist]
    exact ⟨rfl, rfl⟩

private theorem SuspendedInOrder.sublist {flag : IpcFlag} {priority : τ → Nat} {acts : List (MqAct τ β)}
    {act : MqAct τ β} {s s' : MqSystem τ β} (h : SuspendedInOrder flag priority acts s)
    (hrecv : s'.suspendThread.Sublist s.suspendThread)
    (hsend : s'.suspendSenderThread.Sublist s.suspendSenderThread)
    (hout : ∀ t, t ∈ s.suspendThread ∨ t ∈ s.suspendSenderThread → LooksAs t act = false) :
    SuspendedInOrder flag priority (acts ++ [act]) s' where
  receivers := (pairwise_concat (fun t ht => hout t (Or.inl ht)) h.receivers).sublist hrecv
  senders := (pairwise_concat (fun t ht => hout t (Or.inr ht)) h.senders).sublist hsend

/-- A suspended thread takes no step of its own. -/
private theorem Waiting.looksAs {s : MqSystem τ β} (h : Waiting s) {t : τ} (elapsed : Nat)
    (hrecv : ¬(s.phase t).WaitsRecv) (hsend : ¬(s.phase t).WaitsSend) :
    ∀ u, u ∈ s.suspendThread ∨ u ∈ s.suspendSenderThread →
      LooksAs u (.look t elapsed : MqAct τ β) = false := by
  intro u hu
  refine decide_eq_false ?_
  rintro rfl
  rw [h.receivers.mem_iff, h.senders.mem_iff] at hu
  exact hu.elim hrecv hsend

theorem SuspendedInOrder.step {flag : IpcFlag} {priority : τ → Nat} {acts : List (MqAct τ β)}
    {act : MqAct τ β} {s s' : MqSystem τ β} (hsound : QueueSound s)
    (h : SuspendedInOrder flag priority acts s) (he : MqEffect flag priority s act s') :
    SuspendedInOrder flag priority (acts ++ [act]) s' := by
  have hwaiting := hsound.waiting
  cases he with
  | call t c result p hphase hstarts =>
    exact h.sublist (List.Sublist.refl _) (List.Sublist.refl _) fun _ _ => rfl
  | full t elapsed e buffer hphase hfree =>
    obtain ⟨hrecv, hsend, -⟩ := hphase.not_waits
    exact h.sublist (List.Sublist.refl _) (List.Sublist.refl _) (hwaiting.looksAs elapsed hrecv hsend)
  | suspendSend t elapsed buffer timeout ticks woken hphase hfree =>
    obtain ⟨hrecv, hsend⟩ : ¬(s.phase t).WaitsRecv ∧ ¬(s.phase t).WaitsSend := by
      rw [hphase]
      exact ⟨id, id⟩
    have hout := hwaiting.looksAs elapsed hrecv hsend
    exact ⟨pairwise_concat (fun u hu => hout u (Or.inl hu)) h.receivers,
      pairwise_suspend (mt (hwaiting.senders.mem_iff t).mp hsend) h.senders⟩
  | takeFree t elapsed e msg buffer hphase hfree =>
    obtain ⟨hrecv, hsend, -⟩ := hphase.not_waits
    exact h.sublist (List.Sublist.refl _) (List.Sublist.refl _) (hwaiting.looksAs elapsed hrecv hsend)
  | empty t elapsed size timeout woken hphase hentry =>
    obtain ⟨hrecv, hsend⟩ : ¬(s.phase t).WaitsRecv ∧ ¬(s.phase t).WaitsSend := by
      rw [hphase]
      exact ⟨id, id⟩
    exact h.sublist (List.Sublist.refl _) (List.Sublist.refl _) (hwaiting.looksAs elapsed hrecv hsend)
  | suspendRecv t elapsed size timeout ticks woken hphase hentry =>
    obtain ⟨hrecv, hsend⟩ : ¬(s.phase t).WaitsRecv ∧ ¬(s.phase t).WaitsSend := by
      rw [hphase]
      exact ⟨id, id⟩
    have hout := hwaiting.looksAs elapsed hrecv hsend
    exact ⟨pairwise_suspend (mt (hwaiting.receivers.mem_iff t).mp hrecv) h.receivers,
      pairwise_concat (fun u hu => hout u (Or.inr hu)) h.senders⟩
  | takeFirst t elapsed msg size timeout woken hphase hentry hhead =>
    obtain ⟨hrecv, hsend⟩ : ¬(s.phase t).WaitsRecv ∧ ¬(s.phase t).WaitsSend := by
      rw [hphase]
      exact ⟨id, id⟩
    exact h.sublist (List.Sublist.refl _) (List.Sublist.refl _) (hwaiting.looksAs elapsed hrecv hsend)
  | fill t e msg buffer hphase =>
    exact h.sublist (List.Sublist.refl _) (List.Sublist.refl _) fun _ _ => rfl
  | copyOut t msg size hphase =>
    exact h.sublist (List.Sublist.refl _) (List.Sublist.refl _) fun _ _ => rfl
  | send t e msg buffer hphase =>
    obtain ⟨used, free, hpool, -⟩ := hsound.pool
    rw [(hpool.finishSend hphase).1]
    refine h.sublist ?_ ?_ fun _ _ => rfl
    · rw [(resumeReceiver_lists _).1]
      exact List.tail_sublist _
    · rw [(resumeReceiver_lists _).2]
      exact List.Sublist.refl _
  | receive t msg data hphase =>
    refine h.sublist ?_ ?_ fun _ _ => rfl
    · rw [MqSystem.finishRecv, (resumeSender_lists _).1]
      exact List.Sublist.refl _
    · rw [MqSystem.finishRecv, (resumeSender_lists _).2]
      exact List.tail_sublist _
  | expireSend t buffer timeout hphase =>
    exact h.sublist (List.Sublist.refl _) List.erase_sublist fun _ _ => rfl
  | expireRecv t size timeout hphase =>
    exact h.sublist List.erase_sublist (List.Sublist.refl _) fun _ _ => rfl
  | reset => exact ⟨List.Pairwise.nil, List.Pairwise.nil⟩

section Runs

variable {flag : IpcFlag} {priority : τ → Nat} {msgSize maxMsgs : Nat}
variable {links : Nat → Option Nat} {memory : Nat → Nat → β}

theorem mq_suspended_in_order {acts : List (MqAct τ β)} {s : MqSystem τ β}
    (h : (mqMachine flag priority (rtMqCreate msgSize maxMsgs links memory)).exec acts = some s) :
    SuspendedInOrder flag priority acts s := by
  refine (mqMachine flag priority (rtMqCreate msgSize maxMsgs links memory)).exec_invariant
    (fun acts s => SuspendedInOrder flag priority acts s) ⟨List.Pairwise.nil, List.Pairwise.nil⟩ ?_
    acts s h
  intro acts s act s' hexec hs hstep
  exact hs.step (mq_sound hexec) (mq_step_effect hstep)

/-- In every run in which no thread's priority changes, a send that finishes while threads are
suspended in a receive resumes the one of the highest priority that has been suspended longest,
and a receive that frees a node does the same for the suspended senders. -/
theorem mq_resumes_first (acts : List (MqAct τ β)) (s s' : MqSystem τ β) (t : τ)
    (h : (mqMachine flag priority (rtMqCreate msgSize maxMsgs links memory)).exec acts = some s)
    (hstep : s.step flag priority (.finish t) = some s') :
    (∀ e msg buffer, s.phase t = .linking e msg buffer → ∀ w rest, s.suspendThread = w :: rest →
      (s'.phase w).WokenRecv ∧ s'.suspendThread = rest ∧
        ∀ u, (s.phase u).WaitsRecv → u ≠ w → ResumesBefore flag priority acts w u) ∧
    (∀ msg data, s.phase t = .releasing msg data → ∀ w rest, s.suspendSenderThread = w :: rest →
      (s'.phase w).WokenSend ∧ s'.suspendSenderThread = rest ∧
        ∀ u, (s.phase u).WaitsSend → u ≠ w → ResumesBefore flag priority acts w u) := by
  have hsound := mq_sound h
  have horder := mq_suspended_in_order h
  constructor
  · intro e msg buffer hphase w rest hlist
    obtain ⟨used, free, hpool, -⟩ := hsound.pool
    have hw : (s.phase w).WaitsRecv := by
      rw [← hsound.waiting.receivers.mem_iff, hlist]
      exact List.mem_cons_self
    have hwt : w ≠ t := by
      rintro rfl
      rw [hphase] at hw
      exact hw
    have hs' : s' = s.finishSend t e msg := by
      simp only [MqSystem.step, MqSystem.finish, hphase, Option.some.injEq] at hstep
      exact hstep.symm
    rw [hs', (hpool.finishSend hphase).1]
    refine ⟨?_, ?_, ?_⟩
    · simp only [MqSystem.resumeReceiver, MqSystem.setPhase, hlist, Function.update_self,
        Function.update_of_ne hwt]
      exact hw.resume.1
    · rw [(resumeReceiver_lists _).1]
      change s.suspendThread.tail = rest
      rw [hlist, List.tail_cons]
    · intro u hu hne
      have hmem := (hsound.waiting.receivers.mem_iff u).mpr hu
      have hpairs := horder.receivers
      rw [hlist] at hmem hpairs
      exact (List.pairwise_cons.mp hpairs).1 u ((List.mem_cons.mp hmem).resolve_left hne)
  · intro msg data hphase w rest hlist
    have hw : (s.phase w).WaitsSend := by
      rw [← hsound.waiting.senders.mem_iff, hlist]
      exact List.mem_cons_self
    have hwt : w ≠ t := by
      rintro rfl
      rw [hphase] at hw
      exact hw
    have hs' : s' = s.finishRecv t msg data := by
      simp only [MqSystem.step, MqSystem.finish, hphase, Option.some.injEq] at hstep
      exact hstep.symm
    rw [hs', MqSystem.finishRecv]
    refine ⟨?_, ?_, ?_⟩
    · simp only [MqSystem.resumeSender, MqSystem.setPhase, hlist, Function.update_self,
        Function.update_of_ne hwt]
      exact hw.resume.1
    · rw [(resumeSender_lists _).2]
      change s.suspendSenderThread.tail = rest
      rw [hlist, List.tail_cons]
    · intro u hu hne
      have hmem := (hsound.waiting.senders.mem_iff u).mpr hu
      have hpairs := horder.senders
      rw [hlist] at hmem hpairs
      exact (List.pairwise_cons.mp hpairs).1 u ((List.mem_cons.mp hmem).resolve_left hne)

end Runs

theorem mq_resumes_first_suspended :
    ∃ s s', (mqMachine .prio (fun t => 7 - t) smallQueue).exec suspendedRun = some s ∧
      s.step .prio (fun t => 7 - t) (.finish 0) = some s' ∧ s.suspendThread = [2, 1] ∧
      (s'.phase 2).WokenRecv := by
  have hrun : ((mqMachine .prio (fun t => 7 - t) smallQueue).exec suspendedRun).any (fun s =>
      decide (s.suspendThread = [2, 1] ∧ s.phase 0 = .linking .back 1 [7, 7, 7, 9] ∧
        (s.step .prio (fun t => 7 - t) (.finish 0)).isSome)) = true := by decide
  obtain ⟨s, hs, hfacts⟩ := (Option.any_eq_true _ _).mp hrun
  obtain ⟨hlist, hphase, hstep⟩ := of_decide_eq_true hfacts
  obtain ⟨s', hs'⟩ := Option.isSome_iff_exists.mp hstep
  refine ⟨s, s', hs, hs', hlist, ?_⟩
  exact ((mq_resumes_first suspendedRun s s' 0 hs hs').1 _ _ _ hphase 2 [1] hlist).1

end DrumMachine
