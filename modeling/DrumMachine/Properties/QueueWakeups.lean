import DrumMachine.Properties.QueuePool

/-!
# Wake-ups of a message queue

No wake-up is lost: in every run, while threads are suspended in a receive, the messages in
the queue are no more than the receivers that have been resumed and have yet to run, and the
same holds of suspended senders and free nodes.
-/

namespace DrumMachine

open Framework

variable {τ β : Type} [DecidableEq τ]

/-- Threads are left suspended only while those already resumed can empty the queue. -/
def RecvAwake (s : MqSystem τ β) : Prop :=
  ∃ resumed, Roster resumed (fun t => (s.phase t).WokenRecv) ∧
    (s.suspendThread ≠ [] → s.mq.entry ≤ resumed.length)

/-- Threads are left suspended only while those already resumed can use up the free nodes. -/
def SendAwake (s : MqSystem τ β) (free : List Nat) : Prop :=
  ∃ resumed, Roster resumed (fun t => (s.phase t).WokenSend) ∧
    (s.suspendSenderThread ≠ [] → free.length ≤ resumed.length)

section Awake

variable {flag : IpcFlag} {priority : τ → Nat} {s s' : MqSystem τ β} {used free : List Nat}

theorem RecvAwake.resumeReceiver (hwaiting : Waiting s) {resumed : List τ}
    (hresumed : Roster resumed (fun t => (s.phase t).WokenRecv))
    (hcount : s.suspendThread ≠ [] → s.mq.entry ≤ resumed.length + 1) :
    RecvAwake s.resumeReceiver := by
  rw [MqSystem.resumeReceiver]
  split
  · rename_i hlist
    exact ⟨resumed, hresumed, fun hne => absurd hlist hne⟩
  · rename_i t rest hlist
    have ht : (s.phase t).WaitsRecv := by
      rw [← hwaiting.receivers.mem_iff, hlist]
      exact List.mem_cons_self
    obtain ⟨hwoken, -, -, -, -, hfresh, -⟩ := ht.resume
    refine ⟨t :: resumed, hresumed.join hfresh hwoken, fun _ => hcount ?_⟩
    rw [hlist]
    exact List.cons_ne_nil t rest

theorem RecvAwake.resumeSender (hwaiting : Waiting s) (h : RecvAwake s) :
    RecvAwake s.resumeSender := by
  rw [MqSystem.resumeSender]
  split
  · exact h
  · rename_i t rest hlist
    have ht : (s.phase t).WaitsSend := by
      rw [← hwaiting.senders.mem_iff, hlist]
      exact List.mem_cons_self
    obtain ⟨-, -, -, hwoken, -, hfresh, -⟩ := ht.resume
    obtain ⟨resumed, hresumed, hcount⟩ := h
    exact ⟨resumed, hresumed.stay (iff_of_false hwoken hfresh), hcount⟩

theorem SendAwake.resumeSender (hwaiting : Waiting s) {resumed : List τ}
    (hresumed : Roster resumed (fun t => (s.phase t).WokenSend))
    (hcount : s.suspendSenderThread ≠ [] → free.length ≤ resumed.length + 1) :
    SendAwake s.resumeSender free := by
  rw [MqSystem.resumeSender]
  split
  · rename_i hlist
    exact ⟨resumed, hresumed, fun hne => absurd hlist hne⟩
  · rename_i t rest hlist
    have ht : (s.phase t).WaitsSend := by
      rw [← hwaiting.senders.mem_iff, hlist]
      exact List.mem_cons_self
    obtain ⟨hwoken, -, -, -, -, -, hfresh⟩ := ht.resume
    refine ⟨t :: resumed, hresumed.join hfresh hwoken, fun _ => hcount ?_⟩
    rw [hlist]
    exact List.cons_ne_nil t rest

theorem SendAwake.resumeReceiver (hwaiting : Waiting s) (h : SendAwake s free) :
    SendAwake s.resumeReceiver free := by
  rw [MqSystem.resumeReceiver]
  split
  · exact h
  · rename_i t rest hlist
    have ht : (s.phase t).WaitsRecv := by
      rw [← hwaiting.receivers.mem_iff, hlist]
      exact List.mem_cons_self
    obtain ⟨-, -, -, hwoken, -, -, hfresh⟩ := ht.resume
    obtain ⟨resumed, hresumed, hcount⟩ := h
    exact ⟨resumed, hresumed.stay (iff_of_false hwoken hfresh), hcount⟩

private theorem RecvAwake.stay {t : τ} {p : MqPhase β} (h : RecvAwake s)
    (hp : p.WokenRecv ↔ (s.phase t).WokenRecv) : RecvAwake (s.setPhase t p) := by
  obtain ⟨resumed, hresumed, hcount⟩ := h
  exact ⟨resumed, hresumed.stay hp, hcount⟩

theorem RecvAwake.step {act : MqAct τ β} (hpool : Pool s used free) (hwaiting : Waiting s)
    (h : RecvAwake s) (he : MqEffect flag priority s act s') : RecvAwake s' := by
  have ⟨resumed, hresumed, hcount⟩ := h
  cases he with
  | call t c result p hphase hstarts =>
    refine h.stay (iff_of_false hstarts.awake.freshRecv ?_)
    rw [hphase]
    exact id
  | full t elapsed e buffer hphase hfree => exact h.stay (iff_of_false id hphase.not_waits.2.2)
  | suspendSend t elapsed buffer timeout ticks woken hphase hfree =>
    have hfresh : ¬(s.phase t).WokenRecv := by
      rw [hphase]
      exact id
    exact ⟨resumed, hresumed.stay (iff_of_false id hfresh), hcount⟩
  | takeFree t elapsed e msg buffer hphase hfree =>
    exact ⟨resumed, hresumed.stay (iff_of_false id hphase.not_waits.2.2), hcount⟩
  | empty t elapsed size timeout woken hphase hentry =>
    refine ⟨resumed.erase t, hresumed.leave id, fun _ => ?_⟩
    change s.mq.entry ≤ _
    rw [hentry]
    exact Nat.zero_le _
  | suspendRecv t elapsed size timeout ticks woken hphase hentry =>
    refine ⟨resumed.erase t, hresumed.leave id, fun _ => ?_⟩
    change s.mq.entry ≤ _
    rw [hentry]
    exact Nat.zero_le _
  | takeFirst t elapsed msg size timeout woken hphase hentry hhead =>
    refine ⟨resumed.erase t, hresumed.leave id, fun hne => ?_⟩
    have hle := hcount hne
    have herase := List.le_length_erase (a := t) (l := resumed)
    change (if s.mq.entry > 0 then s.mq.entry - 1 else s.mq.entry) ≤ _
    rw [if_pos (Nat.pos_of_ne_zero hentry)]
    omega
  | fill t e msg buffer hphase =>
    have hfresh : ¬(s.phase t).WokenRecv := by
      rw [hphase]
      exact id
    exact ⟨resumed, hresumed.stay (iff_of_false id hfresh), hcount⟩
  | copyOut t msg size hphase =>
    refine h.stay (iff_of_false id ?_)
    rw [hphase]
    exact id
  | send t e msg buffer hphase =>
    obtain ⟨hrecv, hsend⟩ : ¬(s.phase t).WaitsRecv ∧ ¬(s.phase t).WaitsSend := by
      rw [hphase]
      exact ⟨id, id⟩
    have hfresh : ¬(s.phase t).WokenRecv := by
      rw [hphase]
      exact id
    rw [(hpool.finishSend hphase).1]
    refine RecvAwake.resumeReceiver ?_ (hresumed.stay (iff_of_false id hfresh)) ?_
    · exact ⟨hwaiting.receivers.stay (iff_of_false id hrecv),
        hwaiting.senders.stay (iff_of_false id hsend)⟩
    · intro hne
      exact Nat.succ_le_succ (hcount hne)
  | receive t msg data hphase =>
    obtain ⟨hrecv, hsend⟩ : ¬(s.phase t).WaitsRecv ∧ ¬(s.phase t).WaitsSend := by
      rw [hphase]
      exact ⟨id, id⟩
    have hfresh : ¬(s.phase t).WokenRecv := by
      rw [hphase]
      exact id
    refine RecvAwake.resumeSender ?_ ⟨resumed, hresumed.stay (iff_of_false id hfresh), hcount⟩
    exact ⟨hwaiting.receivers.stay (iff_of_false id hrecv),
      hwaiting.senders.stay (iff_of_false id hsend)⟩
  | expireSend t buffer timeout hphase =>
    have hfresh : ¬(s.phase t).WokenRecv := by
      rw [hphase]
      exact id
    exact ⟨resumed, hresumed.stay (iff_of_false id hfresh), hcount⟩
  | expireRecv t size timeout hphase =>
    have hfresh : ¬(s.phase t).WokenRecv := by
      rw [hphase]
      exact id
    refine ⟨resumed, hresumed.stay (iff_of_false id hfresh), fun hne => hcount ?_⟩
    rintro hnil
    exact hne (by change s.suspendThread.erase t = []; rw [hnil]; rfl)
  | reset =>
    refine ⟨resumed, ⟨hresumed.nodup, fun t => (hresumed.mem_iff t).trans ?_⟩,
      fun hne => absurd rfl hne⟩
    rcases hwaiting.reset_cases t with ⟨hphase, hwaits⟩ | ⟨hphase, -⟩
    · rw [hphase]
      exact iff_of_false (hwaits.elim (fun h => h.resume.2.2.2.2.2.1) fun h => h.resume.2.2.2.2.2.1) id
    · rw [hphase]

private theorem SendAwake.stay {t : τ} {p : MqPhase β} (h : SendAwake s free)
    (hp : p.WokenSend ↔ (s.phase t).WokenSend) : SendAwake (s.setPhase t p) free := by
  obtain ⟨resumed, hresumed, hcount⟩ := h
  exact ⟨resumed, hresumed.stay hp, hcount⟩

/-- One step moves at most one node, and resumes a sender when it frees one. -/
theorem Pool.step {act : MqAct τ β} (hpool : Pool s used free) (hwaiting : Waiting s)
    (h : SendAwake s free) (he : MqEffect flag priority s act s') :
    ∃ used' free', Pool s' used' free' ∧ SendAwake s' free' := by
  have ⟨resumed, hresumed, hcount⟩ := h
  cases he with
  | call t c result p hphase hstarts =>
    have hidle : (s.phase t).node = none := by rw [hphase]; rfl
    have hfresh : ¬(s.phase t).WokenSend := by rw [hphase]; exact id
    refine ⟨used, free, hpool.setPhase (hstarts.node.trans hidle.symm) ?_,
      h.stay (iff_of_false hstarts.awake.freshSend hfresh)⟩
    rintro msg buffer rfl
    cases hstarts
  | full t elapsed e buffer hphase hfree =>
    have hnil : free = [] := by
      have hlinked := hpool.freeList
      rw [hfree] at hlinked
      exact hlinked.eq_nil
    refine ⟨used, free, hpool.setPhase hphase.node.symm nofun, resumed.erase t,
      hresumed.leave id, fun _ => ?_⟩
    rw [hnil]
    exact Nat.zero_le _
  | suspendSend t elapsed buffer timeout ticks woken hphase hfree =>
    have hnil : free = [] := by
      have hlinked := hpool.freeList
      rw [hfree] at hlinked
      exact hlinked.eq_nil
    have hlists : Pool { s with
        suspendSenderThread := rtIpcListSuspend priority s.suspendSenderThread t flag } used free :=
      ⟨hpool.queue, hpool.freeList, hpool.entry, hpool.small, hpool.owned, hpool.cleared⟩
    have hidle : (s.phase t).node = none := by rw [hphase]; rfl
    refine ⟨used, free, hlists.setPhase hidle.symm nofun, resumed.erase t, hresumed.leave id,
      fun _ => ?_⟩
    rw [hnil]
    exact Nat.zero_le _
  | takeFree t elapsed e msg buffer hphase hfree =>
    obtain ⟨rest, rfl, hrest⟩ := hpool.takeFree e buffer hphase.node hfree
    refine ⟨used, rest, hrest, resumed.erase t, hresumed.leave id, fun hne => ?_⟩
    have hle := hcount hne
    have herase := List.le_length_erase (a := t) (l := resumed)
    rw [List.length_cons] at hle
    omega
  | empty t elapsed size timeout woken hphase hentry =>
    have hidle : (s.phase t).node = none := by rw [hphase]; rfl
    have hfresh : ¬(s.phase t).WokenSend := by rw [hphase]; exact id
    exact ⟨used, free, hpool.setPhase hidle.symm nofun, h.stay (iff_of_false id hfresh)⟩
  | suspendRecv t elapsed size timeout ticks woken hphase hentry =>
    have hidle : (s.phase t).node = none := by rw [hphase]; rfl
    have hfresh : ¬(s.phase t).WokenSend := by rw [hphase]; exact id
    have hlists : Pool { s with
        suspendThread := rtIpcListSuspend priority s.suspendThread t flag } used free :=
      ⟨hpool.queue, hpool.freeList, hpool.entry, hpool.small, hpool.owned, hpool.cleared⟩
    exact ⟨used, free, hlists.setPhase hidle.symm nofun, resumed,
      hresumed.stay (iff_of_false id hfresh), hcount⟩
  | takeFirst t elapsed msg size timeout woken hphase hentry hhead =>
    have hidle : (s.phase t).node = none := by rw [hphase]; rfl
    have hfresh : ¬(s.phase t).WokenSend := by rw [hphase]; exact id
    obtain ⟨rest, rfl, hrest⟩ := hpool.takeFirst size hidle hhead
    exact ⟨rest, free, hrest, resumed, hresumed.stay (iff_of_false id hfresh), hcount⟩
  | fill t e msg buffer hphase =>
    have hfresh : ¬(s.phase t).WokenSend := by rw [hphase]; exact id
    exact ⟨used, free, hpool.fill hphase, resumed, hresumed.stay (iff_of_false id hfresh), hcount⟩
  | copyOut t msg size hphase =>
    have hfresh : ¬(s.phase t).WokenSend := by rw [hphase]; exact id
    refine ⟨used, free, hpool.setPhase ?_ nofun, h.stay (iff_of_false id hfresh)⟩
    rw [hphase]
    rfl
  | send t e msg buffer hphase =>
    obtain ⟨hrecv, hsend⟩ : ¬(s.phase t).WaitsRecv ∧ ¬(s.phase t).WaitsSend := by
      rw [hphase]
      exact ⟨id, id⟩
    have hfresh : ¬(s.phase t).WokenSend := by rw [hphase]; exact id
    obtain ⟨hfinish, hpool'⟩ := hpool.finishSend hphase
    refine ⟨_, free, hpool', ?_⟩
    rw [hfinish]
    refine SendAwake.resumeReceiver ?_ ⟨resumed, hresumed.stay (iff_of_false id hfresh), hcount⟩
    exact ⟨hwaiting.receivers.stay (iff_of_false id hrecv),
      hwaiting.senders.stay (iff_of_false id hsend)⟩
  | receive t msg data hphase =>
    obtain ⟨hrecv, hsend⟩ : ¬(s.phase t).WaitsRecv ∧ ¬(s.phase t).WaitsSend := by
      rw [hphase]
      exact ⟨id, id⟩
    have hfresh : ¬(s.phase t).WokenSend := by rw [hphase]; exact id
    refine ⟨used, msg :: free, hpool.finishRecv hphase,
      SendAwake.resumeSender ?_ (hresumed.stay (iff_of_false id hfresh)) ?_⟩
    · exact ⟨hwaiting.receivers.stay (iff_of_false id hrecv),
        hwaiting.senders.stay (iff_of_false id hsend)⟩
    · intro hne
      exact Nat.succ_le_succ (hcount hne)
  | expireSend t buffer timeout hphase =>
    have hidle : (s.phase t).node = none := by rw [hphase]; rfl
    have hfresh : ¬(s.phase t).WokenSend := by rw [hphase]; exact id
    have hlists : Pool { s with
        suspendSenderThread := s.suspendSenderThread.erase t } used free :=
      ⟨hpool.queue, hpool.freeList, hpool.entry, hpool.small, hpool.owned, hpool.cleared⟩
    refine ⟨used, free, hlists.setPhase hidle.symm nofun, resumed,
      hresumed.stay (iff_of_false id hfresh), fun hne => hcount ?_⟩
    rintro hnil
    exact hne (by change s.suspendSenderThread.erase t = []; rw [hnil]; rfl)
  | expireRecv t size timeout hphase =>
    have hidle : (s.phase t).node = none := by rw [hphase]; rfl
    have hfresh : ¬(s.phase t).WokenSend := by rw [hphase]; exact id
    have hlists : Pool { s with suspendThread := s.suspendThread.erase t } used free :=
      ⟨hpool.queue, hpool.freeList, hpool.entry, hpool.small, hpool.owned, hpool.cleared⟩
    exact ⟨used, free, hlists.setPhase hidle.symm nofun, resumed,
      hresumed.stay (iff_of_false id hfresh), hcount⟩
  | reset =>
    refine ⟨[], used.reverse ++ free, hpool.reset hwaiting, resumed,
      ⟨hresumed.nodup, fun t => (hresumed.mem_iff t).trans ?_⟩, fun hne => absurd rfl hne⟩
    rcases hwaiting.reset_cases t with ⟨hphase, hwaits⟩ | ⟨hphase, -⟩
    · rw [hphase]
      exact iff_of_false (hwaits.elim (fun h => h.resume.2.2.2.2.2.2) fun h => h.resume.2.2.2.2.2.2) id
    · rw [hphase]

end Awake

section Runs

variable {flag : IpcFlag} {priority : τ → Nat} {msgSize maxMsgs : Nat}
variable {links : Nat → Option Nat} {memory : Nat → Nat → β}

omit [DecidableEq τ] in
/-- The loop of `rt_mq_create` links the nodes to the free list, the last one first. -/
theorem rtMqCreate_pool (msgSize maxMsgs : Nat) (links : Nat → Option Nat)
    (memory : Nat → Nat → β) :
    Pool (⟨rtMqCreate msgSize maxMsgs links memory, [], [], fun _ => .returned .ok⟩ : MqSystem τ β)
      [] (List.range (maxMsgs % 65536)).reverse := by
  have hloop := forLoop_invariant (fun temp : Fin (maxMsgs % 65536) => linkFree (β := β) temp.val)
    (fun k mq => mq.msgQueueHead = none ∧ mq.msgQueueTail = none ∧ mq.entry = 0 ∧
      mq.maxMsgs = maxMsgs % 65536 ∧
      Linked mq.next mq.msgQueueFree (List.range k).reverse)
    { msgSize := rtAlign msgSize 4 % 65536
      maxMsgs := maxMsgs % 65536
      entry := 0
      msgQueueHead := none
      msgQueueTail := none
      msgQueueFree := none
      next := links
      body := fun n => (List.range (rtAlign msgSize 4 % 65536)).map (memory n) }
    ⟨rfl, rfl, rfl, rfl, rfl⟩ (by
      intro temp mq h
      obtain ⟨hhead, htail, hentry, hmax, hfree⟩ := h
      refine ⟨hhead, htail, hentry, hmax, ?_⟩
      rw [List.range_succ, List.reverse_append]
      exact hfree.push (by simp))
  obtain ⟨hhead, htail, hentry, hmax, hfree⟩ := hloop
  change Linked (rtMqCreate msgSize maxMsgs links memory).next _ _ at hfree
  refine ⟨⟨hhead, htail⟩, hfree, hentry, ?_, ?_, nofun⟩
  · change (rtMqCreate msgSize maxMsgs links memory).maxMsgs ≤ rtMqEntryMax
    change (rtMqCreate msgSize maxMsgs links memory).maxMsgs = _ at hmax
    rw [hmax, rtMqEntryMax]
    omega
  · change Ownership (rtMqCreate msgSize maxMsgs links memory).maxMsgs _ _
    change (rtMqCreate msgSize maxMsgs links memory).maxMsgs = _ at hmax
    rw [hmax]
    exact Ownership.initial (List.nodup_reverse.mpr List.nodup_range) (by simp)

structure QueueSound (s : MqSystem τ β) : Prop where
  pool : ∃ used free, Pool s used free ∧ SendAwake s free
  waiting : Waiting s
  recvAwake : RecvAwake s

omit [DecidableEq τ] in
theorem queueSound_start (msgSize maxMsgs : Nat) (links : Nat → Option Nat)
    (memory : Nat → Nat → β) :
    QueueSound (⟨rtMqCreate msgSize maxMsgs links memory, [], [], fun _ => .returned .ok⟩ :
      MqSystem τ β) where
  pool := ⟨_, _, rtMqCreate_pool msgSize maxMsgs links memory, [], Roster.nil fun _ => id,
    fun hne => absurd rfl hne⟩
  waiting := ⟨Roster.nil fun _ => id, Roster.nil fun _ => id⟩
  recvAwake := ⟨[], Roster.nil fun _ => id, fun hne => absurd rfl hne⟩

theorem QueueSound.step {s s' : MqSystem τ β} {act : MqAct τ β} (h : QueueSound s)
    (he : MqEffect flag priority s act s') : QueueSound s' := by
  obtain ⟨used, free, hpool, hawake⟩ := h.pool
  exact ⟨hpool.step h.waiting hawake he, h.waiting.step he, h.recvAwake.step hpool h.waiting he⟩

theorem mq_sound {acts : List (MqAct τ β)} {s : MqSystem τ β}
    (h : (mqMachine flag priority (rtMqCreate msgSize maxMsgs links memory)).exec acts = some s) :
    QueueSound s := by
  refine (mqMachine flag priority (rtMqCreate msgSize maxMsgs links memory)).exec_invariant
    (fun _ s => QueueSound s) (queueSound_start msgSize maxMsgs links memory) ?_ acts s h
  intro _ s act s' _ hs hstep
  exact hs.step (mq_step_effect hstep)

private theorem mq_maxMsgs {acts : List (MqAct τ β)} {s : MqSystem τ β}
    (h : (mqMachine flag priority (rtMqCreate msgSize maxMsgs links memory)).exec acts = some s) :
    s.mq.maxMsgs = maxMsgs % 65536 := by
  refine (mqMachine flag priority (rtMqCreate msgSize maxMsgs links memory)).exec_invariant
    (fun _ s => s.mq.maxMsgs = maxMsgs % 65536) ?_ ?_ acts s h
  · exact loopTo_frame (fun temp : Fin (maxMsgs % 65536) => linkFree (β := β) temp.val)
      MessageQueue.maxMsgs (fun _ _ => rfl) _ _
  · intro _ s act s' _ hs hstep
    exact ((mq_step_sizes (mq_step_effect hstep)).2).trans hs

private theorem look_available {s : MqSystem τ β} {used free : List Nat} (hpool : Pool s used free)
    {t : τ} {size : Nat} {timeout : Int} {woken : Bool}
    (hphase : s.phase t = .receiving size timeout woken) (elapsed : Nat) :
    ∃ s', s.step flag priority (.look t elapsed) = some s' := by
  simp only [MqSystem.step, MqSystem.look, hphase, MqSystem.lookRecv]
  by_cases hentry : s.mq.entry = 0
  · rw [if_pos hentry]
    split_ifs <;> exact ⟨_, rfl⟩
  · have hhead : s.mq.msgQueueHead ≠ none := by
      rw [← hpool.queue.linked.ne_nil_iff, ← List.length_pos_iff, ← hpool.entry]
      exact Nat.pos_of_ne_zero hentry
    obtain ⟨msg, hmsg⟩ := Option.ne_none_iff_exists'.mp hhead
    rw [if_neg hentry, hmsg]
    exact ⟨_, rfl⟩

private theorem finish_returns_ok {s : MqSystem τ β} {used free : List Nat}
    (hpool : Pool s used free) {t : τ} {e : QueueEnd} {msg : Nat} {buffer : List β}
    (hphase : s.phase t = .linking e msg buffer) :
    (s.finishSend t e msg).phase t = .returned .ok := by
  rw [(hpool.finishSend hphase).1, MqSystem.resumeReceiver]
  split
  · exact MqSystem.setPhase_self ..
  · rename_i w rest hlist
    by_cases hw : t = w
    · subst hw
      rw [MqSystem.setPhase_self, MqSystem.setPhase_self]
      rfl
    · rw [MqSystem.setPhase_of_ne _ hw]
      exact MqSystem.setPhase_self ..

/-- In every run, whatever the order of the threads' steps, each node of the pool is queued,
free or held by exactly one thread, and links, tail and counter agree with the lists; a
receiver never follows a null link; and a sender that has filled its node never finds the
counter at its maximum. -/
theorem mq_nodes_sound (acts : List (MqAct τ β)) (s : MqSystem τ β)
    (h : (mqMachine flag priority (rtMqCreate msgSize maxMsgs links memory)).exec acts = some s) :
    s.mq.maxMsgs = maxMsgs % 65536 ∧ (∃ used free, Pool s used free) ∧
      (∀ t size timeout woken elapsed, s.phase t = .receiving size timeout woken →
        ∃ s', s.step flag priority (.look t elapsed) = some s') ∧
      ∀ t e msg buffer, s.phase t = .linking e msg buffer →
        ∃ s', s.step flag priority (.finish t) = some s' ∧ s'.phase t = .returned .ok := by
  obtain ⟨used, free, hpool, -⟩ := (mq_sound h).pool
  refine ⟨mq_maxMsgs h, ⟨used, free, hpool⟩, ?_, ?_⟩
  · intro t size timeout woken elapsed hphase
    exact look_available hpool hphase elapsed
  · intro t e msg buffer hphase
    refine ⟨s.finishSend t e msg, ?_, finish_returns_ok hpool hphase⟩
    simp only [MqSystem.step, MqSystem.finish, hphase]

end Runs

/-- A queue of two slots of four bytes. -/
def smallQueue : MessageQueue Nat := rtMqCreate 3 2 (fun _ => none) fun _ _ => 0

/-- Threads 1 and 2 suspend themselves in a receive, and thread 0 sends to them. -/
def suspendedRun : List (MqAct Nat Nat) :=
  [.call 1 (.recv 4 (-1)), .look 1 0, .call 2 (.recv 4 100), .look 2 0,
    .call 0 (.sendWait [7, 7, 7, 9] 0), .look 0 0, .copy 0]

private theorem suspendedRun_isSome :
    ((mqMachine .prio (fun t => 7 - t) smallQueue).exec suspendedRun).isSome = true := by
  decide

theorem mq_nodes_sound_suspended :
    ∃ s, (mqMachine .prio (fun t => 7 - t) smallQueue).exec suspendedRun = some s ∧
      ∃ used free, Pool s used free := by
  obtain ⟨s, hs⟩ := Option.isSome_iff_exists.mp suspendedRun_isSome
  exact ⟨s, hs, (mq_nodes_sound suspendedRun s hs).2.1⟩

end DrumMachine
