import DrumMachine.Properties.QueueFifo

/-!
# The calls on a queue of messages of one size

What each critical section of a send without a timeout and of a receive without a limit does
to the messages on the queue, and when it finds a node or a message.
-/

namespace DrumMachine

open Framework

variable {τ β : Type}

structure Mailbox.Sized (size : Nat) (box : Mailbox τ β) : Prop where
  queued : ∀ message ∈ box.items, message.length = size
  taken : ∀ {t message}, box.inbox t = some message → message.length = size

/-- All messages have `size` bytes, which fit into a node. -/
structure Channel (size : Nat) (s : MqSystem τ β) (box : Mailbox τ β) : Prop where
  represents : Represents s box
  sized : ∀ t, (s.phase t).Sized size
  box : box.Sized size
  fits : size ≤ s.mq.msgSize
  room : 0 < s.mq.maxMsgs

variable [DecidableEq τ]

section Step

variable [DecidableEq β] {flag : IpcFlag} {priority : τ → Nat} {size : Nat}
variable {s s' : MqSystem τ β} {box box' : Mailbox τ β} {act : MqAct τ β}

theorem Mailbox.Sized.step {label : MailboxAct τ β} (h : box.Sized size)
    (hpost : ∀ message, label = .post message ∨ label = .postFirst message →
      message.length = size) (hs : box.step label = some box') : box'.Sized size := by
  obtain ⟨message, rfl, rfl⟩ | ⟨message, rfl, rfl⟩ | ⟨t, message, rfl, hitems, hinbox, hinbox'⟩ |
    ⟨t, message, data, rfl, hinbox, hagrees, rfl⟩ | ⟨rfl, rfl⟩ := mailbox_step_cases hs
  · refine ⟨?_, h.taken⟩
    intro m hm
    rcases List.mem_append.mp hm with hm | hm
    · exact h.queued m hm
    · exact List.mem_singleton.mp hm ▸ hpost message (Or.inl rfl)
  · refine ⟨?_, h.taken⟩
    intro m hm
    rcases List.mem_cons.mp hm with hm | hm
    · exact hm ▸ hpost message (Or.inr rfl)
    · exact h.queued m hm
  · have hall := h.queued
    rw [hitems] at hall
    refine ⟨fun m hm => hall m (List.mem_cons_of_mem message hm), ?_⟩
    intro u m hm
    rw [hinbox'] at hm
    by_cases hu : u = t
    · subst hu
      rw [Function.update_self] at hm
      cases hm
      exact hall message List.mem_cons_self
    · rw [Function.update_of_ne hu] at hm
      exact h.taken hm
  · refine ⟨h.queued, ?_⟩
    intro u m hm
    by_cases hu : u = t
    · subst hu
      simp at hm
    · exact h.taken ((Function.update_of_ne hu ..).symm.trans hm)
  · exact ⟨by simp, h.taken⟩

omit [DecidableEq τ] [DecidableEq β] in
private theorem posted_sized (h : Channel size s box) (hact : act.Sized size)
    {label : MailboxAct τ β} (hlabel : mailboxLabel s act = some label) {message : List β}
    (hpost : label = .post message ∨ label = .postFirst message) : message.length = size := by
  cases act with
  | call t c => cases hlabel
  | look t elapsed =>
    simp only [mailboxLabel] at hlabel
    split at hlabel
    · split_ifs at hlabel
      cases hlabel
      simp at hpost
    · cases hlabel
  | copy t =>
    simp only [mailboxLabel] at hlabel
    split at hlabel
    · cases hlabel
      simp at hpost
    · cases hlabel
  | finish t =>
    have ht := h.sized t
    simp only [mailboxLabel] at hlabel
    split at hlabel
    · rename_i msg buffer hphase
      rw [hphase] at ht
      cases hlabel
      simp only [MailboxAct.post.injEq, reduceCtorEq, or_false] at hpost
      exact hpost ▸ ht.2
    · rename_i msg buffer hphase
      rw [hphase] at ht
      cases ht.1
    · cases hlabel
  | expire t => cases hlabel
  | reset => cases hact

theorem Channel.step (h : Channel size s box) (hact : act.Sized size)
    (hs : s.step flag priority act = some s') :
    ∃ box', mailbox.execFrom box (mailboxLabel s act).toList = some box' ∧ Channel size s' box' := by
  obtain ⟨box', hbox, hrepresents⟩ := h.represents.step (mq_step_effect hs)
  have hsized : AllSized size s' := AllSized.step h.sized hact hs
  obtain ⟨hmsgSize, hmaxMsgs⟩ := mq_step_sizes (mq_step_effect hs)
  refine ⟨box', hbox, hrepresents, hsized, ?_, hmsgSize ▸ h.fits, hmaxMsgs ▸ h.room⟩
  cases hlabel : mailboxLabel s act with
  | none =>
    rw [hlabel] at hbox
    cases hbox
    exact h.box
  | some label =>
    rw [hlabel, Option.toList_some, Machine.execFrom_cons] at hbox
    obtain ⟨box'', hstep, hsame⟩ := Option.bind_eq_some_iff.mp hbox
    cases hsame
    exact h.box.step (fun message hpost => posted_sized h hact hlabel hpost) hstep

theorem Channel.step_silent (h : Channel size s box) (hact : act.Sized size)
    (hs : s.step flag priority act = some s') (hlabel : mailboxLabel s act = none) :
    Channel size s' box := by
  obtain ⟨box', hbox, hchannel⟩ := h.step hact hs
  rw [hlabel] at hbox
  cases hbox
  exact hchannel

theorem Channel.step_label {label : MailboxAct τ β} (h : Channel size s box)
    (hact : act.Sized size) (hs : s.step flag priority act = some s')
    (hlabel : mailboxLabel s act = some label) :
    ∃ box', box.step label = some box' ∧ Channel size s' box' := by
  obtain ⟨box', hbox, hchannel⟩ := h.step hact hs
  rw [hlabel, Option.toList_some, Machine.execFrom_cons] at hbox
  obtain ⟨box'', hstep, hsame⟩ := Option.bind_eq_some_iff.mp hbox
  cases hsame
  exact ⟨box', hstep, hchannel⟩

omit [DecidableEq τ] [DecidableEq β] in
theorem Channel.entry (h : Channel size s box) : s.mq.entry = box.items.length := by
  obtain ⟨used, free, hpool, -⟩ := h.represents.sound.pool
  rw [hpool.entry, (h.represents.items hpool).length_eq]

omit [DecidableEq τ] [DecidableEq β] in
/-- While a receiver is suspended and none has been resumed, nothing is queued. -/
theorem Channel.drained (h : Channel size s box) {t : τ} (ht : (s.phase t).WaitsRecv)
    (hwoken : ∀ u, ¬(s.phase u).WokenRecv) : box.items = [] := by
  obtain ⟨resumed, hresumed, hcount⟩ := h.represents.sound.recvAwake
  have hmem := (h.represents.sound.waiting.receivers.mem_iff t).mpr ht
  have hnil : resumed = [] :=
    List.eq_nil_iff_forall_not_mem.mpr fun u hu => hwoken u ((hresumed.mem_iff u).mp hu)
  have hentry := hcount (List.ne_nil_of_mem hmem)
  rw [h.entry, hnil] at hentry
  exact List.length_eq_zero_iff.mp (Nat.le_zero.mp hentry)

omit [DecidableEq τ] [DecidableEq β] in
theorem Channel.untaken (h : Channel size s box) {t : τ} (ht : ¬(s.phase t).Copies) :
    box.inbox t = none := h.represents.carried.idle ht

omit [DecidableEq τ] [DecidableEq β] in
/-- The list of the suspended receivers, when there can be no other than `t`. -/
theorem Channel.suspendThread (h : Channel size s box) {t : τ}
    (hother : ∀ u ≠ t, ¬(s.phase u).WaitsRecv) :
    ((s.phase t).WaitsRecv → s.suspendThread = [t]) ∧
      (¬(s.phase t).WaitsRecv → s.suspendThread = []) := by
  have hroster := h.represents.sound.waiting.receivers
  have hmem : ∀ u ∈ s.suspendThread, u = t := by
    intro u hu
    by_contra hne
    exact hother u hne ((hroster.mem_iff u).mp hu)
  constructor
  · intro ht
    have hin := (hroster.mem_iff t).mpr ht
    exact List.perm_singleton.mp ((List.perm_ext_iff_of_nodup hroster.nodup
      (List.nodup_singleton t)).mpr fun u => ⟨fun hu => by simp [hmem u hu], fun hu => by
        rw [List.mem_singleton] at hu
        exact hu ▸ hin⟩)
  · intro ht
    apply List.eq_nil_iff_forall_not_mem.mpr
    intro u hu
    exact ht (hmem u hu ▸ (hroster.mem_iff u).mp hu)

omit [DecidableEq τ] [DecidableEq β] in
theorem Channel.suspendSenderThread (h : Channel size s box)
    (hnone : ∀ t, ¬(s.phase t).WaitsSend) : s.suspendSenderThread = [] := by
  apply List.eq_nil_iff_forall_not_mem.mpr
  intro t ht
  exact hnone t ((h.represents.sound.waiting.senders.mem_iff t).mp ht)

omit [DecidableEq τ] [DecidableEq β] in
/-- While nothing is queued and no thread holds a node, all nodes are free. -/
theorem Channel.free (h : Channel size s box) (hempty : box.items = [])
    (hnode : ∀ t, (s.phase t).node = none) : ∃ msg, s.mq.msgQueueFree = some msg := by
  obtain ⟨used, free, hpool, -⟩ := h.represents.sound.pool
  have hitems := h.represents.items hpool
  rw [hempty] at hitems
  cases hitems
  rcases hpool.owned.covered 0 h.room with hmem | ⟨t, ht⟩
  · have hne : s.mq.msgQueueFree ≠ none := by
      rw [← hpool.freeList.ne_nil_iff]
      exact List.ne_nil_of_mem hmem
    exact Option.ne_none_iff_exists'.mp hne
  · rw [hnode t] at ht
    cases ht

end Step

section Calls

variable {flag : IpcFlag} {priority : τ → Nat} {size : Nat}
variable {s : MqSystem τ β} {box : Mailbox τ β} {t : τ}

theorem step_sendWait {result : MqResult β} {buffer : List β} (timeout : Int)
    (hphase : s.phase t = .returned result) (hpositive : 0 < buffer.length)
    (hfits : buffer.length ≤ s.mq.msgSize) :
    s.step flag priority (.call t (.sendWait buffer timeout)) =
      some (s.setPhase t (.sending buffer timeout false)) := by
  simp [MqSystem.step, MqSystem.call, hphase, Nat.ne_of_gt hpositive, Nat.not_lt.mpr hfits]

theorem step_recv {result : MqResult β} (timeout : Int) (hphase : s.phase t = .returned result)
    (hpositive : 0 < size) :
    s.step flag priority (.call t (.recv size timeout)) =
      some (s.setPhase t (.receiving size timeout false)) := by
  simp [MqSystem.step, MqSystem.call, hphase, Nat.ne_of_gt hpositive]

theorem step_lookSend {buffer : List β} {msg : Nat}
    (hphase : s.phase t = .sending buffer 0 false) (hfree : s.mq.msgQueueFree = some msg) :
    s.step flag priority (.look t 0) = some (s.takeFree t .back msg buffer) := by
  simp [MqSystem.step, MqSystem.look, MqSystem.lookSend, hphase, hfree]

theorem step_fill {e : QueueEnd} {msg : Nat} {buffer : List β}
    (hphase : s.phase t = .filling e msg buffer) :
    s.step flag priority (.copy t) =
      some ({ s with mq := s.mq.fill e msg buffer }.setPhase t (.linking e msg buffer)) := by
  simp [MqSystem.step, MqSystem.copy, hphase]

variable (flag priority) in
theorem Channel.step_finishSend (h : Channel size s box) {e : QueueEnd} {msg : Nat}
    {buffer : List β} (hphase : s.phase t = .linking e msg buffer) :
    ∃ mq, s.step flag priority (.finish t) =
      some ({ s with mq }.setPhase t (.returned .ok)).resumeReceiver := by
  obtain ⟨used, free, hpool, -⟩ := h.represents.sound.pool
  refine ⟨{ s.mq.link msg e with entry := s.mq.entry + 1 }, ?_⟩
  simp only [MqSystem.step, MqSystem.finish, hphase]
  exact congrArg some (hpool.finishSend hphase).1

private theorem resume_update (s : MqSystem τ β) (rest : List τ) :
    ({ s with suspendThread := rest }.setPhase t (s.phase t).resume).phase t = (s.phase t).resume ∧
      ∀ u ≠ t, ({ s with suspendThread := rest }.setPhase t (s.phase t).resume).phase u = s.phase u :=
  ⟨MqSystem.setPhase_self .., fun _ hu => MqSystem.setPhase_of_ne _ hu _⟩

/-- The first of the suspended receivers is resumed. -/
theorem resumeReceiver_phase {rest : List τ} (hlist : s.suspendThread = t :: rest) :
    s.resumeReceiver.phase t = (s.phase t).resume ∧
      ∀ u ≠ t, s.resumeReceiver.phase u = s.phase u := by
  rw [MqSystem.resumeReceiver, hlist]
  exact resume_update s rest

theorem Channel.step_lookEmpty (h : Channel size s box) {woken : Bool} {timeout : Int}
    (htimeout : timeout < 0) (hphase : s.phase t = .receiving size timeout woken)
    (hempty : box.items = []) :
    s.step flag priority (.look t 0) = some ({ s with
      suspendThread := rtIpcListSuspend priority s.suspendThread t flag }.setPhase t
        (.suspendedRecv size timeout)) := by
  have hentry : s.mq.entry = 0 := by rw [h.entry, hempty, List.length_nil]
  have hticks : remainingTicks timeout woken 0 = timeout := by
    rw [remainingTicks, if_neg]
    omega
  simp only [MqSystem.step, MqSystem.look, hphase, hticks, MqSystem.lookRecv, hentry, if_true,
    if_neg (Int.ne_of_lt htimeout)]

variable (flag priority) in
theorem Channel.step_lookFirst (h : Channel size s box) {woken : Bool} {timeout : Int}
    (hphase : s.phase t = .receiving size timeout woken) (hitems : box.items ≠ []) :
    ∃ msg, s.step flag priority (.look t 0) =
      some ({ s with mq := s.mq.takeFirst msg }.setPhase t (.copying msg size)) := by
  obtain ⟨used, free, hpool, -⟩ := h.represents.sound.pool
  have hentry : s.mq.entry ≠ 0 := by
    rw [h.entry]
    exact mt List.length_eq_zero_iff.mp hitems
  have hhead : s.mq.msgQueueHead ≠ none := by
    rw [← hpool.queue.linked.ne_nil_iff, ← List.length_pos_iff, ← hpool.entry]
    exact Nat.pos_of_ne_zero hentry
  obtain ⟨msg, hmsg⟩ := Option.ne_none_iff_exists'.mp hhead
  refine ⟨msg, ?_⟩
  simp only [MqSystem.step, MqSystem.look, hphase, MqSystem.lookRecv, if_neg hentry, hmsg]

omit [DecidableEq τ] in
theorem mailboxLabel_copying {msg : Nat} (hphase : s.phase t = .copying msg size) :
    mailboxLabel s (.copy t) = some (.deliver t
      ((s.mq.body msg).take (if size > s.mq.msgSize then s.mq.msgSize else size))) := by
  rw [mailboxLabel, hphase]

variable (flag priority) in
/-- The receiver gets exactly the bytes of the message that it took. -/
theorem Channel.step_copyOut (h : Channel size s box) {msg : Nat}
    (hphase : s.phase t = .copying msg size) :
    ∃ message, box.inbox t = some message ∧
      s.step flag priority (.copy t) = some (s.setPhase t (.releasing msg message)) := by
  obtain ⟨message, hinbox, hprefix⟩ := h.represents.carried.taken hphase
  refine ⟨message, hinbox, ?_⟩
  have hbytes : (s.mq.body msg).take size = message := by
    rw [← h.box.taken hinbox]
    exact (List.prefix_iff_eq_take.mp hprefix).symm
  simp [MqSystem.step, MqSystem.copy, hphase, Nat.not_lt.mpr h.fits, hbytes]

theorem step_finishRecv {msg : Nat} {data : List β} (hphase : s.phase t = .releasing msg data)
    (hsenders : s.suspendSenderThread = []) :
    s.step flag priority (.finish t) =
      some ({ s with mq := s.mq.release msg }.setPhase t (.returned (.received data))) := by
  simp [MqSystem.step, MqSystem.finish, hphase, MqSystem.finishRecv, MqSystem.resumeSender,
    MqSystem.setPhase, hsenders]

end Calls

end DrumMachine
