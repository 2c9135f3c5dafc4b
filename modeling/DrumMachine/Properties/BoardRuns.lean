import DrumMachine.Properties.BoardTasks
import DrumMachine.Properties.Preemption

/-!
# Runs of the firmware on its kernel

On the kernel's scheduler and message queue, with any interrupts and any other threads, the
firmware refines its two tasks taken step by step under their priorities.
-/

namespace DrumMachine

open Framework

theorem preemptive_input {p : Preempted} (garbage : InputEvents) (hblocked : p.Blocked)
    (x : Exchange) (enc : EncReport) :
    (preemptive garbage).step p (.input x enc) = some (p.inputStep x enc) := by
  apply (Machine.restrict_step_eq_some _ _).mpr
  refine ⟨?_, rfl⟩
  intro t ht
  cases t with
  | input => exact Nat.le_refl _
  | seq => exact absurd hblocked ht

theorem preemptive_seq {p p' : Preempted} (garbage : InputEvents) (hs : p.seqStep = some p') :
    (preemptive garbage).step p .seq = some p' := by
  apply (Machine.restrict_step_eq_some _ _).mpr
  refine ⟨?_, hs⟩
  intro t ht
  cases t <;> decide

variable {ι ω : Type}

/-- A step of a task is available, and the two tasks take the step that it stands for. -/
def Advances (layout : MessageLayout) (garbage : InputEvents) (b : Board ι ω)
    (mq : Fifo InputEvents 8) (label : Option ThreadAct) (next : Option (Board ι ω)) : Prop :=
  ∃ b', next = some b' ∧ ∃ box' mq', Refines layout b' box' mq' ∧
    (preemptive garbage).execFrom (b.preempted mq) label.toList = some (b'.preempted mq')

section Advance

variable {layout : MessageLayout} {garbage : InputEvents} {b b' : Board ι ω}
variable {box : Mailbox (BoardThread ι) (BitVec 8)} {mq mq' : Fifo InputEvents 8}

private theorem advances_silent (h : Refines layout b' box mq)
    (hinputPc : b'.inputPc = b.inputPc) (hseqPc : b'.seqPc = b.seqPc)
    (hdata : b'.ledData = b.ledData ∧ b'.buttonData = b.buttonData ∧ b'.input = b.input ∧
      b'.seq = b.seq) : Advances layout garbage b mq none (some b') := by
  obtain ⟨hled, hbutton, hinput, hseq⟩ := hdata
  have hsame : b'.preempted mq = b.preempted mq := by
    rw [Board.preempted, Board.preempted, hinputPc, hseqPc, hled, hbutton, hinput, hseq]
  exact ⟨b', rfl, box, mq, h, congrArg some hsame.symm⟩

private theorem advances_input {x : Exchange} {enc : EncReport} (h : Refines layout b' box mq')
    (hblocked : (b.preempted mq).Blocked)
    (hstep : (b.preempted mq).inputStep x enc = b'.preempted mq') :
    Advances layout garbage b mq (some (.input x enc)) (some b') := by
  refine ⟨b', rfl, box, mq', h, ?_⟩
  rw [← hstep]
  exact Machine.execFrom_singleton _ (preemptive_input garbage hblocked x enc)

private theorem advances_seq (h : Refines layout b' box mq')
    (hstep : (b.preempted mq).seqStep = some (b'.preempted mq')) :
    Advances layout garbage b mq (some .seq) (some b') :=
  ⟨b', rfl, box, mq', h, Machine.execFrom_singleton _ (preemptive_seq garbage hstep)⟩

end Advance

namespace Refines

section Local

variable {layout : MessageLayout} {b : Board ι ω} {box : Mailbox (BoardThread ι) (BitVec 8)}
variable {mq : Fifo InputEvents 8}

theorem rescheduled (h : Refines layout b box mq) {mainPc : MainPc}
    {sched : Scheduler (BoardThread ι) (BoardObject ω)} {rtTick : BitVec 32}
    (hgoverned : ∃ members seat, Governed { b with mainPc, sched, rtTick } members seat) :
    Refines layout { b with mainPc, sched, rtTick } box mq :=
  ⟨hgoverned, h.channel, h.input, h.seq, h.others, h.items⟩

theorem input_waits (h : Refines layout b box mq)
    (hcurrent : b.sched.currentThread = some (.inl .input)) (hnot : ¬b.Pending .input) :
    (b.queue.phase (.inl .seq)).WaitsRecv := by
  obtain ⟨members, seat, hgoverned⟩ := h.governed
  exact hgoverned.waits.mp (hgoverned.parked_of_input hcurrent hnot)

theorem input_local (h : Refines layout b box mq)
    (hcurrent : b.sched.currentThread = some (.inl .input)) (hnot : ¬b.Pending .input)
    {point : InputPoint} {ledData buttonData : Chain} {input : InputState} {tick : BitVec 32}
    (hinput : ({ b with inputPoint := point, ledData, buttonData, input, tick } :
      Board ι ω).InputAt layout) :
    Refines layout { b with inputPoint := point, ledData, buttonData, input, tick } box mq := by
  obtain ⟨members, seat, hgoverned⟩ := h.governed
  exact ⟨⟨members, seat, hgoverned.stay hcurrent hnot rfl rfl Iff.rfl⟩, h.channel, hinput, h.seq,
    h.others, h.items⟩

theorem seq_local (h : Refines layout b box mq)
    (hcurrent : b.sched.currentThread = some (.inl .seq)) (hnot : ¬b.Pending .seq)
    {point : SeqPoint} {seq : SeqState}
    (hseq : ({ b with seqPoint := point, seq } : Board ι ω).SeqAt layout) :
    Refines layout { b with seqPoint := point, seq } box mq := by
  obtain ⟨members, seat, hgoverned⟩ := h.governed
  exact ⟨⟨members, seat, hgoverned.stay hcurrent hnot rfl rfl Iff.rfl⟩, h.channel, h.input, hseq,
    h.others, h.items⟩

end Local

variable {layout : MessageLayout} {garbage : InputEvents} {b : Board ι ω}
variable {box : Mailbox (BoardThread ι) (BitVec 8)} {mq : Fifo InputEvents 8}
variable [DecidableEq ι]

/-- A critical section of the input task in which it sends nothing. -/
theorem input_queue (h : Refines layout b box mq)
    (hcurrent : b.sched.currentThread = some (.inl .input)) (hnot : ¬b.Pending .input)
    {act : MqAct (BoardThread ι) (BitVec 8)} {queue : MqSystem (BoardThread ι) (BitVec 8)}
    (point : InputPoint) (hact : act.Sized layout.size) (hs : b.onQueue act = some queue)
    (hlabel : mailboxLabel b.queue act = none)
    (hothers : ∀ t, t ≠ .inl .input → queue.phase t = b.queue.phase t)
    (hinput : ({ b with queue, inputPoint := point } : Board ι ω).InputAt layout) :
    Refines layout { b with queue, inputPoint := point } box mq := by
  obtain ⟨members, seat, hgoverned⟩ := h.governed
  have hsame : queue.phase (.inl .seq) = b.queue.phase (.inl .seq) := hothers _ (by simp)
  have hwaits : (queue.phase (.inl .seq)).WaitsRecv ↔ (b.queue.phase (.inl .seq)).WaitsRecv := by
    rw [hsame]
  have hseq : ({ b with queue, inputPoint := point } : Board ι ω).SeqAt layout := by
    have hseq := h.seq
    rw [Board.SeqAt] at hseq ⊢
    rw [hsame]
    exact hseq
  refine ⟨⟨members, seat, hgoverned.stay hcurrent hnot rfl rfl hwaits⟩,
    h.channel.step_silent hact hs hlabel, hinput, hseq, ?_, h.items⟩
  intro t hne hne'
  exact (hothers t hne).trans (h.others t hne hne')

omit [DecidableEq ι] in
/-- A critical section of the sequencer, after which it is not suspended. -/
theorem seq_queue (h : Refines layout b box mq)
    (hcurrent : b.sched.currentThread = some (.inl .seq)) (hnot : ¬b.Pending .seq)
    {box' : Mailbox (BoardThread ι) (BitVec 8)} (mq' : Fifo InputEvents 8)
    (queue : MqSystem (BoardThread ι) (BitVec 8)) (point : SeqPoint) (seq : SeqState)
    (hchannel : Channel layout.size queue box')
    (hwaits : ¬(b.queue.phase (.inl .seq)).WaitsRecv)
    (hwaits' : ¬(queue.phase (.inl .seq)).WaitsRecv)
    (hothers : ∀ t, t ≠ .inl .seq → queue.phase t = b.queue.phase t)
    (hseq : ({ b with queue, seqPoint := point, seq } : Board ι ω).SeqAt layout)
    (hitems : mq'.items.map layout.encode = (box'.inbox (.inl .seq)).toList ++ box'.items) :
    Refines layout { b with queue, seqPoint := point, seq } box' mq' := by
  obtain ⟨members, seat, hgoverned⟩ := h.governed
  have hsame : queue.phase (.inl .input) = b.queue.phase (.inl .input) := hothers _ (by simp)
  have hinput : ({ b with queue, seqPoint := point, seq } : Board ι ω).InputAt layout := by
    have hinput := h.input
    rw [Board.InputAt] at hinput ⊢
    rw [hsame]
    exact hinput
  refine ⟨⟨members, seat, hgoverned.stay hcurrent hnot rfl rfl (iff_of_false hwaits' hwaits)⟩,
    hchannel, hinput, hseq, ?_, hitems⟩
  intro t hne hne'
  exact (hothers t hne').trans (h.others t hne hne')

variable [DecidableEq ω] [Fintype ι] {x : Exchange} {enc : EncReport}

private theorem input_schedule (h : Refines layout b box mq)
    (hcurrent : b.sched.currentThread = some (.inl .input)) {point : InputPoint}
    (hphase : b.queue.phase (.inl .input) = .returned .ok) (hpc : b.inputPc = InputPc.first)
    (hpoint : point = .delay ∨ point = .work InputPc.first) :
    Advances layout garbage b mq none
      ((b.onSched .schedule).map fun sched => { b with sched, inputPoint := point }) := by
  obtain ⟨members, seat, hgoverned⟩ := h.governed
  obtain ⟨sched, hs, hnext⟩ := hgoverned.schedule hcurrent
  rw [hs]
  have hrefines : Refines layout { b with sched, inputPoint := point } box mq := by
    refine ⟨hnext _ rfl rfl rfl, h.channel, ?_, h.seq, h.others, h.items⟩
    rcases hpoint with heq | heq <;> subst heq <;> exact hphase
  refine advances_silent hrefines ?_ rfl ⟨rfl, rfl, rfl, rfl⟩
  rw [hpc]
  rcases hpoint with heq | heq <;> subst heq <;> rfl

omit [DecidableEq ω] [Fintype ι] in
private theorem input_call (h : Refines layout b box mq)
    (hcurrent : b.sched.currentThread = some (.inl .input)) (hpoint : b.inputPoint = .work .send) :
    Advances layout garbage b mq none
      ((b.onQueue (.call (.inl .input) (.sendWait (layout.encode b.input.inputEvents) 0))).map
        fun queue => { b with queue, inputPoint := .sending }) := by
  have hnot : ¬b.Pending .input := by simp [Board.Pending, hpoint]
  have hphase : b.queue.phase (.inl .input) = .returned .ok := by
    have hinput := h.input
    rwa [Board.InputAt, hpoint] at hinput
  have hlength := layout.length_encode b.input.inputEvents
  have hact : MqAct.Sized layout.size
      (.call (.inl .input) (.sendWait (layout.encode b.input.inputEvents) 0) :
        MqAct (BoardThread ι) (BitVec 8)) := hlength
  have hs : b.onQueue (.call (.inl .input) (.sendWait (layout.encode b.input.inputEvents) 0)) = _ :=
    step_sendWait 0 hphase (hlength ▸ layout.positive) (hlength ▸ h.channel.fits)
  rw [hs]
  refine advances_silent (h.input_queue hcurrent hnot .sending hact hs rfl ?_ ?_) ?_
    (Board.seqPc_congr rfl (MqSystem.setPhase_of_ne _ (by simp) _)) ⟨rfl, rfl, rfl, rfl⟩
  · exact fun t ht => MqSystem.setPhase_of_ne _ ht _
  · simp only [Board.InputAt, MqSystem.setPhase_self]
    exact .sending
  · simp [Board.inputPc, hpoint, MqPhase.delivered]

omit [DecidableEq ω] [Fintype ι] in
/-- The send takes a free node, since nothing is queued. -/
private theorem input_look (h : Refines layout b box mq)
    (hcurrent : b.sched.currentThread = some (.inl .input)) (hpoint : b.inputPoint = .sending)
    (hphase : b.queue.phase (.inl .input) =
      .sending (layout.encode b.input.inputEvents) 0 false) :
    Advances layout garbage b mq none
      ((b.onQueue (.look (.inl .input) 0)).map fun queue => { b with queue }) := by
  have hnot : ¬b.Pending .input := by simp [Board.Pending, hpoint]
  have hwaits := h.input_waits hcurrent hnot
  have hnode : ∀ t, (b.queue.phase t).node = none := by
    intro t
    by_cases hseq : t = .inl .seq
    · exact hseq ▸ MqPhase.node_of_waits (Or.inl hwaits)
    by_cases hinput : t = .inl .input
    · rw [hinput, hphase]
      rfl
    · rw [h.others t hinput hseq]
      rfl
  obtain ⟨msg, hfree⟩ := h.channel.free (h.drained hwaits).1 hnode
  have hact : MqAct.Sized layout.size (.look (.inl .input) 0 : MqAct (BoardThread ι) (BitVec 8)) :=
    trivial
  have hs : b.onQueue (.look (.inl .input) 0) = _ := step_lookSend hphase hfree
  rw [hs]
  refine advances_silent (h.input_queue hcurrent hnot b.inputPoint hact hs ?_ ?_ ?_) ?_
    (Board.seqPc_congr rfl (MqSystem.setPhase_of_ne _ (by simp) _)) ⟨rfl, rfl, rfl, rfl⟩
  · rw [mailboxLabel, hphase]
  · exact fun t ht => MqSystem.setPhase_of_ne _ ht _
  · simp only [Board.InputAt, hpoint, MqSystem.takeFree, MqSystem.setPhase_self]
    exact .filling msg
  · simp [Board.inputPc, hpoint, hphase, MqPhase.delivered, MqSystem.takeFree]

omit [DecidableEq ω] [Fintype ι] in
private theorem input_copy (h : Refines layout b box mq)
    (hcurrent : b.sched.currentThread = some (.inl .input)) (hpoint : b.inputPoint = .sending)
    {msg : Nat} (hphase : b.queue.phase (.inl .input) =
      .filling .back msg (layout.encode b.input.inputEvents)) :
    Advances layout garbage b mq none
      ((b.onQueue (.copy (.inl .input))).map fun queue => { b with queue }) := by
  have hnot : ¬b.Pending .input := by simp [Board.Pending, hpoint]
  have hact : MqAct.Sized layout.size (.copy (.inl .input) : MqAct (BoardThread ι) (BitVec 8)) :=
    trivial
  have hs : b.onQueue (.copy (.inl .input)) = _ := step_fill hphase
  rw [hs]
  refine advances_silent (h.input_queue hcurrent hnot b.inputPoint hact hs ?_ ?_ ?_) ?_
    (Board.seqPc_congr rfl (MqSystem.setPhase_of_ne _ (by simp) _)) ⟨rfl, rfl, rfl, rfl⟩
  · rw [mailboxLabel, hphase]
  · exact fun t ht => MqSystem.setPhase_of_ne _ ht _
  · simp only [Board.InputAt, hpoint, MqSystem.setPhase_self]
    exact .linking msg
  · simp [Board.inputPc, hpoint, hphase, MqPhase.delivered]

/-- The message is queued, and the sequencer, which waits for it, is resumed. -/
private theorem input_finish (h : Refines layout b box mq)
    (hcurrent : b.sched.currentThread = some (.inl .input)) (hpoint : b.inputPoint = .sending)
    {msg : Nat} (hphase : b.queue.phase (.inl .input) =
      .linking .back msg (layout.encode b.input.inputEvents)) :
    Advances layout garbage b mq (some (.input x enc)) b.sendStep := by
  have hnot : ¬b.Pending .input := by simp [Board.Pending, hpoint]
  have hwaits := h.input_waits hcurrent hnot
  obtain ⟨members, seat, hgoverned⟩ := h.governed
  have hact : MqAct.Sized layout.size (.finish (.inl .input) : MqAct (BoardThread ι) (BitVec 8)) :=
    trivial
  have hlist := (h.channel.suspendThread fun u hu => ((h.sends u).2 hu).1).1 hwaits
  obtain ⟨node, hs⟩ := h.channel.step_finishSend .prio b.sched.priority hphase
  have hlabel : mailboxLabel b.queue (.finish (.inl .input)) =
      some (.post (layout.encode b.input.inputEvents)) := by rw [mailboxLabel, hphase]
  obtain ⟨box', hpost, hchannel⟩ := h.channel.step_label hact hs hlabel
  cases hpost
  have hseqPhase : b.queue.phase (.inl .seq) = .suspendedRecv layout.size (-1) := by
    have hreceives := h.seq_phase
    generalize b.queue.phase (.inl .seq) = p at hwaits hreceives
    cases hreceives <;> first | rfl | cases hwaits
  let sent : MqSystem (BoardThread ι) (BitVec 8) :=
    { b.queue with mq := node }.setPhase (.inl .input) (.returned .ok)
  have hlist' : sent.suspendThread = [.inl .seq] := hlist
  obtain ⟨hself, hother⟩ := resumeReceiver_phase hlist'
  have hinput' : sent.resumeReceiver.phase (.inl .input) = .returned .ok := by
    rw [hother _ (by simp)]
    exact MqSystem.setPhase_self ..
  have hseq' : sent.resumeReceiver.phase (.inl .seq) = .receiving layout.size (-1) true := by
    rw [hself, MqSystem.setPhase_of_ne _ (by simp)]
    exact congrArg MqPhase.resume hseqPhase
  obtain ⟨sched, hwake, hnext⟩ := hgoverned.wake hcurrent (hgoverned.waits.mpr hwaits)
  have hq : b.onQueue (.finish (.inl .input)) = some sent.resumeReceiver := hs
  have hnext' : b.sendStep =
      some { b with queue := sent.resumeReceiver, sched, inputPoint := .sent } := by
    simp [Board.sendStep, hphase, hq, hlist, hwake]
  have hblocked := h.blocked hwaits
  obtain ⟨mq', hpush, hitems⟩ := mq.push_of_not_full b.input.inputEvents
    (Fifo.not_full_of_empty hblocked.2 (by decide))
  have hsend : inputQueueSend mq b.input.inputEvents = mq' := by rw [inputQueueSend, hpush]; rfl
  rw [hnext']
  have hpoint' : b.seqPoint = .receiving ∨ b.seqPoint = .suspended := by
    have hseq := h.seq
    rw [Board.SeqAt] at hseq
    split at hseq
    · obtain ⟨result, hreturned⟩ := hseq
      rw [hseqPhase] at hreturned
      cases hreturned
    · exact Or.inl ‹_›
    · exact Or.inr ‹_›
    · cases hseq
  have hrefines : Refines layout { b with
      queue := sent.resumeReceiver, sched, inputPoint := .sent }
      { box with items := box.items ++ [layout.encode b.input.inputEvents] } mq' := by
    refine ⟨hnext _ rfl rfl ?_ (Or.inl rfl), hchannel, hinput', ?_, ?_, ?_⟩
    · change ¬(sent.resumeReceiver.phase _).WaitsRecv
      rw [hseq']
      exact id
    · rcases hpoint' with hpoint' | hpoint'
      · simp only [Board.SeqAt, hpoint', hseq']
        exact .receiving true
      · simp only [Board.SeqAt, hpoint', hseq']
        exact Or.inr trivial
    · intro t hne hne'
      refine Eq.trans ?_ (h.others t hne hne')
      rw [hother t hne']
      exact MqSystem.setPhase_of_ne _ hne _
    · rw [hitems, List.map_append, h.items, List.append_assoc]
      rfl
  refine advances_input hrefines hblocked ?_
  have hsame : b.seqPc = .recv := hblocked.1
  have hinputPc : b.inputPc = .send := by simp [Board.inputPc, hpoint, hphase, MqPhase.delivered]
  have hseqPc : ({ b with queue := sent.resumeReceiver, sched, inputPoint := .sent } :
      Board ι ω).seqPc = .recv := by
    rcases hpoint' with hpoint' | hpoint' <;>
      simp [Board.seqPc, hpoint', hseq', MqPhase.delivered]
  simp only [Preempted.inputStep, Board.preempted, hinputPc, hsame, hseqPc, hsend]
  rfl

private theorem input_send (h : Refines layout b box mq)
    (hcurrent : b.sched.currentThread = some (.inl .input)) (hpoint : b.inputPoint = .sending) :
    Advances layout garbage b mq (b.label (.run x enc)) b.sendStep := by
  have hnot : ¬b.Pending .input := by simp [Board.Pending, hpoint]
  have hsends : (b.queue.phase (.inl .input)).SendsOnce (layout.encode b.input.inputEvents) := by
    have hinput := h.input
    rwa [Board.InputAt, hpoint] at hinput
  have hlabel : b.label (.run x enc) =
      if (b.queue.phase (.inl .input)).commits then some (.input x enc) else none := by
    simp [Board.label, hcurrent, hpoint]
  generalize hphase : b.queue.phase (.inl .input) = p at hsends hlabel
  cases hsends with
  | sending =>
    have hsend : b.sendStep =
        (b.onQueue (.look (.inl .input) 0)).map fun queue => { b with queue } := by
      rw [Board.sendStep, hphase]
    rw [hlabel, hsend]
    exact h.input_look hcurrent hpoint hphase
  | filling msg =>
    have hsend : b.sendStep =
        (b.onQueue (.copy (.inl .input))).map fun queue => { b with queue } := by
      rw [Board.sendStep, hphase]
    rw [hlabel, hsend]
    exact h.input_copy hcurrent hpoint hphase
  | linking msg =>
    rw [hlabel]
    exact h.input_finish hcurrent hpoint hphase
  | returned =>
    have hsend : b.sendStep = some { b with inputPoint := .delay } := by
      rw [Board.sendStep, hphase]
    rw [hlabel, hsend]
    refine advances_silent (h.input_local hcurrent hnot hphase) ?_ rfl ⟨rfl, rfl, rfl, rfl⟩
    simp [Board.inputPc, hpoint, hphase, MqPhase.delivered]

private theorem input_delay (h : Refines layout b box mq)
    (hcurrent : b.sched.currentThread = some (.inl .input)) (hpoint : b.inputPoint = .delay) :
    Advances layout garbage b mq none b.delayUntil := by
  have hnot : ¬b.Pending .input := by simp [Board.Pending, hpoint]
  have hphase : b.queue.phase (.inl .input) = .returned .ok := by
    have hinput := h.input
    rwa [Board.InputAt, hpoint] at hinput
  have hpc : b.inputPc = InputPc.first := by rw [Board.inputPc, hpoint]
  rw [Board.delayUntil]
  split_ifs
  · obtain ⟨members, seat, hgoverned⟩ := h.governed
    obtain ⟨sched, hs, hnext⟩ := hgoverned.sleep hcurrent hnot (Or.inr rfl)
    rw [hs]
    have hrefines : Refines layout { b with
        sched, tick := b.tick + inputTaskDelay, inputPoint := .delayed } box mq :=
      ⟨hnext _ rfl rfl rfl (Or.inr rfl), h.channel, hphase, h.seq, h.others, h.items⟩
    exact advances_silent hrefines hpc.symm rfl ⟨rfl, rfl, rfl, rfl⟩
  · exact advances_silent (h.input_local hcurrent hnot hphase) hpc.symm rfl ⟨rfl, rfl, rfl, rfl⟩

theorem inputStep (h : Refines layout b box mq)
    (hcurrent : b.sched.currentThread = some (.inl .input)) :
    Advances layout garbage b mq (b.label (.run x enc)) (b.inputStep layout x enc) := by
  have hinput := h.input
  cases hpoint : b.inputPoint with
  | start =>
    rw [Board.InputAt, hpoint] at hinput
    have hlabel : b.label (.run x enc) = none := by simp [Board.label, hcurrent, hpoint]
    have hnot : ¬b.Pending .input := by simp [Board.Pending, hpoint]
    rw [hlabel, Board.inputStep, hpoint]
    refine advances_silent (h.input_local hcurrent hnot hinput) ?_ rfl ⟨rfl, rfl, rfl, rfl⟩
    rw [Board.inputPc, Board.inputPc, hpoint]
  | work pc =>
    rw [Board.InputAt, hpoint] at hinput
    have hnot : ¬b.Pending .input := by simp [Board.Pending, hpoint]
    have hblocked := h.blocked (h.input_waits hcurrent hnot)
    have hpc : b.inputPc = pc := by rw [Board.inputPc, hpoint]
    cases pc with
    | get i =>
      have hlabel : b.label (.run x enc) = some (.input x enc) := by
        simp [Board.label, hcurrent, hpoint]
      rw [hlabel, Board.inputStep, hpoint]
      refine advances_input (h.input_local hcurrent hnot hinput) hblocked ?_
      simp only [Preempted.inputStep, Board.preempted, hpc]
      rfl
    | transfer =>
      have hlabel : b.label (.run x enc) = some (.input x enc) := by
        simp [Board.label, hcurrent, hpoint]
      rw [hlabel, Board.inputStep, hpoint]
      refine advances_input (h.input_local hcurrent hnot hinput) hblocked ?_
      simp only [Preempted.inputStep, Board.preempted, hpc]
      rfl
    | parse =>
      have hlabel : b.label (.run x enc) = some (.input x enc) := by
        simp [Board.label, hcurrent, hpoint]
      rw [hlabel, Board.inputStep, hpoint]
      by_cases hsome : (inputTaskIter b.buttonData enc b.input).1.isSome
      · simp only [hsome, if_true]
        refine advances_input (h.input_local hcurrent hnot hinput) hblocked ?_
        simp only [Preempted.inputStep, Board.preempted, hpc, hsome, if_true]
        rfl
      · simp only [hsome, Bool.false_eq_true, if_false]
        refine advances_input (h.input_local hcurrent hnot hinput) hblocked ?_
        simp only [Preempted.inputStep, Board.preempted, hpc, hsome, Bool.false_eq_true, if_false]
        rfl
    | send =>
      have hlabel : b.label (.run x enc) = none := by simp [Board.label, hcurrent, hpoint]
      rw [hlabel, Board.inputStep, hpoint]
      exact h.input_call hcurrent hpoint
  | sending =>
    rw [Board.inputStep, hpoint]
    exact h.input_send hcurrent hpoint
  | sent =>
    rw [Board.InputAt, hpoint] at hinput
    have hlabel : b.label (.run x enc) = none := by simp [Board.label, hcurrent, hpoint]
    have hpc : b.inputPc = InputPc.first := by rw [Board.inputPc, hpoint]
    rw [hlabel, Board.inputStep, hpoint]
    exact h.input_schedule hcurrent hinput hpc (Or.inl rfl)
  | delay =>
    have hlabel : b.label (.run x enc) = none := by simp [Board.label, hcurrent, hpoint]
    rw [hlabel, Board.inputStep, hpoint]
    exact h.input_delay hcurrent hpoint
  | delayed =>
    rw [Board.InputAt, hpoint] at hinput
    have hlabel : b.label (.run x enc) = none := by simp [Board.label, hcurrent, hpoint]
    have hpc : b.inputPc = InputPc.first := by rw [Board.inputPc, hpoint]
    rw [hlabel, Board.inputStep, hpoint]
    exact h.input_schedule hcurrent hinput hpc (Or.inr rfl)

private theorem seq_schedule (h : Refines layout b box mq)
    (hcurrent : b.sched.currentThread = some (.inl .seq)) (hpoint : b.seqPoint = .suspended) :
    Advances layout garbage b mq none
      ((b.onSched .schedule).map fun sched => { b with sched, seqPoint := .receiving }) := by
  have hphase : b.queue.phase (.inl .seq) = .suspendedRecv layout.size (-1) ∨
      b.queue.phase (.inl .seq) = .receiving layout.size (-1) true := by
    have hseq := h.seq
    rwa [Board.SeqAt, hpoint] at hseq
  obtain ⟨members, seat, hgoverned⟩ := h.governed
  obtain ⟨sched, hs, hnext⟩ := hgoverned.schedule hcurrent
  rw [hs]
  have hrefines : Refines layout { b with sched, seqPoint := .receiving } box mq :=
    ⟨hnext _ rfl rfl rfl, h.channel, h.input, h.seq_phase, h.others, h.items⟩
  refine advances_silent hrefines rfl ?_ ⟨rfl, rfl, rfl, rfl⟩
  rcases hphase with hphase | hphase <;> simp [Board.seqPc, hpoint, hphase, MqPhase.delivered]

omit [DecidableEq ω] [Fintype ι] in
private theorem seq_call (h : Refines layout b box mq)
    (hcurrent : b.sched.currentThread = some (.inl .seq)) (hpoint : b.seqPoint = .work .recv) :
    Advances layout garbage b mq none
      ((b.onQueue (.call (.inl .seq) (.recv layout.size (-1)))).map
        fun queue => { b with queue, seqPoint := .receiving }) := by
  have hnot : ¬b.Pending .seq := by simp [Board.Pending, hpoint]
  obtain ⟨result, hphase⟩ : ∃ result, b.queue.phase (.inl .seq) = .returned result := by
    have hseq := h.seq
    rwa [Board.SeqAt, hpoint] at hseq
  have hact : MqAct.Sized layout.size
      (.call (.inl .seq) (.recv layout.size (-1)) : MqAct (BoardThread ι) (BitVec 8)) := rfl
  have hs : b.onQueue (.call (.inl .seq) (.recv layout.size (-1))) = _ :=
    step_recv (-1) hphase layout.positive
  rw [hs]
  have hrefines := h.seq_queue hcurrent hnot mq _ .receiving b.seq
    (h.channel.step_silent hact hs rfl) (by simp [hphase, MqPhase.WaitsRecv])
    (by simp [MqPhase.WaitsRecv]) (fun t ht => MqSystem.setPhase_of_ne _ ht _)
    (by
      simp only [Board.SeqAt, MqSystem.setPhase_self]
      exact .receiving false) h.items
  refine advances_silent hrefines
    (Board.inputPc_congr rfl (MqSystem.setPhase_of_ne _ (by simp) _)) ?_ ⟨rfl, rfl, rfl, rfl⟩
  simp [Board.seqPc, hpoint, MqPhase.delivered]

/-- The sequencer finds a message, which it takes, or is suspended. -/
private theorem seq_look (h : Refines layout b box mq)
    (hcurrent : b.sched.currentThread = some (.inl .seq)) (hpoint : b.seqPoint = .receiving)
    {woken : Bool} (hphase : b.queue.phase (.inl .seq) = .receiving layout.size (-1) woken) :
    Advances layout garbage b mq none b.recvLook := by
  have hnot : ¬b.Pending .seq := by simp [Board.Pending, hpoint]
  have hact : MqAct.Sized layout.size (.look (.inl .seq) 0 : MqAct (BoardThread ι) (BitVec 8)) :=
    trivial
  by_cases hempty : box.items = []
  · let list := rtIpcListSuspend b.sched.priority b.queue.suspendThread (.inl .seq) .prio
    let queue := { b.queue with suspendThread := list }.setPhase (.inl .seq)
      (.suspendedRecv layout.size (-1))
    have hs : b.onQueue (.look (.inl .seq) 0) = some queue :=
      h.channel.step_lookEmpty (by decide) hphase hempty
    have hself : queue.phase (.inl .seq) = .suspendedRecv layout.size (-1) :=
      MqSystem.setPhase_self ..
    have hother : ∀ t ≠ .inl .seq, queue.phase t = b.queue.phase t :=
      fun t ht => MqSystem.setPhase_of_ne _ ht _
    obtain ⟨members, seat, hgoverned⟩ := h.governed
    obtain ⟨sched, hblock, hnext⟩ := hgoverned.block hcurrent hnot .prio
    have hlabel : mailboxLabel b.queue (.look (.inl .seq) 0) = none := by
      rw [mailboxLabel, hphase]
      simp [h.channel.entry, hempty]
    have hchannel := h.channel.step_silent hact hs hlabel
    have hnext' : b.recvLook = some { b with queue, sched, seqPoint := .suspended } := by
      simp [Board.recvLook, hs, hself, hblock]
    rw [hnext']
    refine advances_silent
      ⟨hnext _ rfl rfl ?_ (Or.inl rfl), hchannel, ?_, Or.inl hself, ?_, h.items⟩
      (Board.inputPc_congr rfl (hother _ (by simp))) ?_ ⟨rfl, rfl, rfl, rfl⟩
    · change (queue.phase (.inl .seq)).WaitsRecv
      rw [hself]
      trivial
    · have hinput := h.input
      rw [Board.InputAt] at hinput ⊢
      rw [hother _ (by simp)]
      exact hinput
    · intro t hne hne'
      exact (hother t hne').trans (h.others t hne hne')
    · simp [Board.seqPc, hpoint, hphase, MqPhase.delivered]
  · obtain ⟨msg, hs⟩ := h.channel.step_lookFirst .prio b.sched.priority hphase hempty
    have hlabel : mailboxLabel b.queue (.look (.inl .seq) 0) = some (.take (.inl .seq)) := by
      rw [mailboxLabel, hphase]
      simp [h.channel.entry, hempty]
    obtain ⟨box', htake, hchannel⟩ := h.channel.step_label hact hs hlabel
    have hinbox : box.inbox (.inl .seq) = none := by
      apply h.channel.untaken
      rw [hphase]
      exact id
    obtain ⟨message, rest, hitems⟩ := List.exists_cons_of_ne_nil hempty
    simp only [Mailbox.step, hitems, hinbox] at htake
    cases htake
    let queue := { b.queue with mq := b.queue.mq.takeFirst msg }.setPhase (.inl .seq)
      (.copying msg layout.size)
    have hself : queue.phase (.inl .seq) = .copying msg layout.size := MqSystem.setPhase_self ..
    have hq : b.onQueue (.look (.inl .seq) 0) = some queue := hs
    have hnext' : b.recvLook = some { b with queue } := by simp [Board.recvLook, hq, hself]
    rw [hnext']
    have hrefines := h.seq_queue hcurrent hnot mq queue b.seqPoint b.seq
      hchannel (by simp [hphase, MqPhase.WaitsRecv]) (by simp [hself, MqPhase.WaitsRecv])
      (fun t ht => MqSystem.setPhase_of_ne _ ht _)
      (by
        simp only [Board.SeqAt, hpoint, hself]
        exact .copying msg)
      (by simp [h.items, hitems, hinbox])
    refine advances_silent hrefines
      (Board.inputPc_congr rfl (MqSystem.setPhase_of_ne _ (by simp) _)) ?_ ⟨rfl, rfl, rfl, rfl⟩
    simp [Board.seqPc, hpoint, hphase, hself, MqPhase.delivered]

omit [DecidableEq ι] [DecidableEq ω] [Fintype ι] in
private theorem first_message {message : List (BitVec 8)} {rest : List (List (BitVec 8))}
    (hitems : mq.items.map layout.encode = message :: rest) :
    ∃ mq', mq.pop = some (layout.decode message, mq') ∧ mq'.items.map layout.encode = rest := by
  have hne : mq.pop ≠ none := by
    rw [Ne, Fifo.pop_eq_none_iff]
    intro hnil
    rw [hnil] at hitems
    cases hitems
  obtain ⟨⟨event, mq'⟩, hpop⟩ := Option.ne_none_iff_exists'.mp hne
  rw [Fifo.pop_eq_some hpop, List.map_cons, List.cons.injEq] at hitems
  refine ⟨mq', ?_, hitems.2⟩
  rw [hpop, ← hitems.1, layout.decode_encode]

private theorem seq_copy (h : Refines layout b box mq)
    (hcurrent : b.sched.currentThread = some (.inl .seq)) (hpoint : b.seqPoint = .receiving)
    {msg : Nat} (hphase : b.queue.phase (.inl .seq) = .copying msg layout.size) :
    Advances layout garbage b mq (some .seq) (b.recvStep layout) := by
  have hnot : ¬b.Pending .seq := by simp [Board.Pending, hpoint]
  have hact : MqAct.Sized layout.size (.copy (.inl .seq) : MqAct (BoardThread ι) (BitVec 8)) :=
    trivial
  obtain ⟨message, hinbox, hs⟩ := h.channel.step_copyOut .prio b.sched.priority hphase
  have hlabel := mailboxLabel_copying hphase
  obtain ⟨box', hdeliver, hchannel⟩ := h.channel.step_label hact hs hlabel
  have hfits : ¬layout.size > b.queue.mq.msgSize := Nat.not_lt.mpr h.channel.fits
  simp only [Mailbox.step, hinbox, hfits, if_false] at hdeliver
  split_ifs at hdeliver
  cases hdeliver
  have hitems : mq.items.map layout.encode = message :: box.items := by rw [h.items, hinbox]; rfl
  obtain ⟨mq', hpop, hrest⟩ := first_message hitems
  let queue := b.queue.setPhase (.inl .seq) (.releasing msg message)
  have hself : queue.phase (.inl .seq) = .releasing msg message := MqSystem.setPhase_self ..
  have hq : b.onQueue (.copy (.inl .seq)) = some queue := hs
  have hnext : b.recvStep layout = some { b with
      queue
      seq := { b.seq with
        inputEvents := seqInputQueueGet (some (layout.decode message)) b.seq.inputEvents } } := by
    simp [Board.recvStep, hphase, hq, hself]
  rw [hnext]
  have hrefines := h.seq_queue hcurrent hnot mq' queue b.seqPoint
    { b.seq with
      inputEvents := seqInputQueueGet (some (layout.decode message)) b.seq.inputEvents }
    hchannel (by simp [hphase, MqPhase.WaitsRecv]) (by simp [hself, MqPhase.WaitsRecv])
    (fun t ht => MqSystem.setPhase_of_ne _ ht _)
    (by
      simp only [Board.SeqAt, hpoint, hself]
      exact .releasing msg message)
    (by simp [hrest])
  refine advances_seq hrefines ?_
  have hpc : b.seqPc = .recv := by simp [Board.seqPc, hpoint, hphase, MqPhase.delivered]
  have hpc' : ({ b with
      queue
      seq := { b.seq with
        inputEvents := seqInputQueueGet (some (layout.decode message)) b.seq.inputEvents } } :
      Board ι ω).seqPc = SeqPc.firstToggle := by
    simp [Board.seqPc, hpoint, hself, MqPhase.delivered]
  have hinputPc : ({ b with
      queue
      seq := { b.seq with
        inputEvents := seqInputQueueGet (some (layout.decode message)) b.seq.inputEvents } } :
      Board ι ω).inputPc = b.inputPc :=
    Board.inputPc_congr rfl (MqSystem.setPhase_of_ne _ (by simp) _)
  simp only [Preempted.seqStep, Board.preempted, hpc, hpop, Option.map_some, hpc', hinputPc]

private theorem seq_finish (h : Refines layout b box mq)
    (hcurrent : b.sched.currentThread = some (.inl .seq)) (hpoint : b.seqPoint = .receiving)
    {msg : Nat} {data : List (BitVec 8)}
    (hphase : b.queue.phase (.inl .seq) = .releasing msg data) :
    Advances layout garbage b mq none (b.recvStep layout) := by
  have hnot : ¬b.Pending .seq := by simp [Board.Pending, hpoint]
  have hact : MqAct.Sized layout.size (.finish (.inl .seq) : MqAct (BoardThread ι) (BitVec 8)) :=
    trivial
  have hsenders := h.suspendSenderThread
  let queue := { b.queue with mq := b.queue.mq.release msg }.setPhase (.inl .seq)
    (.returned (.received data))
  have hs : b.onQueue (.finish (.inl .seq)) = some queue := step_finishRecv hphase hsenders
  have hself : queue.phase (.inl .seq) = .returned (.received data) := MqSystem.setPhase_self ..
  have hlabel : mailboxLabel b.queue (.finish (.inl .seq)) = none := by rw [mailboxLabel, hphase]
  have hnext : b.recvStep layout = some { b with queue } := by
    simp [Board.recvStep, hphase, hs, hsenders]
  rw [hnext]
  have hrefines := h.seq_queue hcurrent hnot mq queue b.seqPoint b.seq
    (h.channel.step_silent hact hs hlabel) (by simp [hphase, MqPhase.WaitsRecv])
    (by simp [hself, MqPhase.WaitsRecv]) (fun t ht => MqSystem.setPhase_of_ne _ ht _)
    (by
      simp only [Board.SeqAt, hpoint, hself]
      exact .returned _) h.items
  refine advances_silent hrefines
    (Board.inputPc_congr rfl (MqSystem.setPhase_of_ne _ (by simp) _)) ?_ ⟨rfl, rfl, rfl, rfl⟩
  simp [Board.seqPc, hpoint, hphase, hself, MqPhase.delivered]

private theorem seq_recv (h : Refines layout b box mq)
    (hcurrent : b.sched.currentThread = some (.inl .seq)) (hpoint : b.seqPoint = .receiving) :
    Advances layout garbage b mq (b.label (.run x enc)) (b.recvStep layout) := by
  have hnot : ¬b.Pending .seq := by simp [Board.Pending, hpoint]
  have hreceives : (b.queue.phase (.inl .seq)).ReceivesOnce layout.size := h.seq_phase
  have hlabel : b.label (.run x enc) =
      if (b.queue.phase (.inl .seq)).commits then some .seq else none := by
    simp [Board.label, hcurrent, hpoint]
  generalize hphase : b.queue.phase (.inl .seq) = p at hreceives hlabel
  cases hreceives with
  | receiving woken =>
    have hrecv : b.recvStep layout = b.recvLook := by rw [Board.recvStep, hphase]
    rw [hlabel, hrecv]
    exact h.seq_look hcurrent hpoint hphase
  | suspended =>
    -- a suspended thread is switched away before it goes on
    obtain ⟨members, seat, hgoverned⟩ := h.governed
    have hwaits : (b.queue.phase (.inl .seq)).WaitsRecv := by
      rw [hphase]
      trivial
    have hstat := (hgoverned.core.seated .seq).stat
    rw [hgoverned.waits.mpr hwaits] at hstat
    have hrunning := hgoverned.running hcurrent hnot
    cases hrunning.symm.trans hstat
  | copying msg =>
    rw [hlabel]
    exact h.seq_copy hcurrent hpoint hphase
  | releasing msg data =>
    rw [hlabel]
    exact h.seq_finish hcurrent hpoint hphase
  | returned result =>
    have hrecv : b.recvStep layout = some { b with seqPoint := .work SeqPc.firstToggle } := by
      rw [Board.recvStep, hphase]
    rw [hlabel, hrecv]
    refine advances_silent (h.seq_local hcurrent hnot ⟨result, hphase⟩) rfl ?_ ⟨rfl, rfl, rfl, rfl⟩
    simp [Board.seqPc, hpoint, hphase, MqPhase.delivered]

theorem seqStep (h : Refines layout b box mq)
    (hcurrent : b.sched.currentThread = some (.inl .seq)) :
    Advances layout garbage b mq (b.label (.run x enc)) (b.seqStep layout) := by
  have hseq := h.seq
  cases hpoint : b.seqPoint with
  | work pc =>
    rw [Board.SeqAt, hpoint] at hseq
    have hnot : ¬b.Pending .seq := by simp [Board.Pending, hpoint]
    have hpc : b.seqPc = pc := by rw [Board.seqPc, hpoint]
    cases pc with
    | recv =>
      have hlabel : b.label (.run x enc) = none := by simp [Board.label, hcurrent, hpoint]
      rw [hlabel, Board.seqStep, hpoint]
      exact h.seq_call hcurrent hpoint
    | toggle i =>
      have hlabel : b.label (.run x enc) = some .seq := by simp [Board.label, hcurrent, hpoint]
      rw [hlabel, Board.seqStep, hpoint]
      refine advances_seq (h.seq_local hcurrent hnot hseq) ?_
      simp only [Preempted.seqStep, Board.preempted, hpc]
      rfl
    | clear =>
      have hlabel : b.label (.run x enc) = some .seq := by simp [Board.label, hcurrent, hpoint]
      rw [hlabel, Board.seqStep, hpoint]
      refine advances_seq (h.seq_local hcurrent hnot hseq) ?_
      simp only [Preempted.seqStep, Board.preempted, hpc]
      rfl
    | write k =>
      have hlabel : b.label (.run x enc) = some .seq := by simp [Board.label, hcurrent, hpoint]
      rw [hlabel, Board.seqStep, hpoint]
      refine advances_seq (h.seq_local hcurrent hnot hseq) ?_
      simp only [Preempted.seqStep, Board.preempted, hpc]
      rfl
  | receiving =>
    rw [Board.seqStep, hpoint]
    exact h.seq_recv hcurrent hpoint
  | suspended =>
    have hlabel : b.label (.run x enc) = none := by simp [Board.label, hcurrent, hpoint]
    rw [hlabel, Board.seqStep, hpoint]
    exact h.seq_schedule hcurrent hpoint
  | received =>
    rw [Board.SeqAt, hpoint] at hseq
    cases hseq

theorem mainStep (h : Refines layout b box mq)
    (hcurrent : b.sched.currentThread = some (.inl .main)) :
    Advances layout garbage b mq none b.mainStep := by
  obtain ⟨members, seat, hgoverned⟩ := h.governed
  cases hpc : b.mainPc with
  | startInput =>
    have hstage : b.mainPc.stage = 0 := by rw [hpc, MainPc.stage]
    obtain ⟨sched, hs, hnext⟩ := hgoverned.startup hcurrent (Or.inl ⟨rfl, hstage, rfl⟩)
    rw [Board.mainStep, hpc, hs]
    exact advances_silent (h.rescheduled (hnext _ rfl rfl rfl)) rfl rfl ⟨rfl, rfl, rfl, rfl⟩
  | startSeq =>
    have hstage : b.mainPc.stage = 1 := by rw [hpc, MainPc.stage]
    obtain ⟨sched, hs, hnext⟩ := hgoverned.startup hcurrent (Or.inr ⟨rfl, hstage, rfl⟩)
    rw [Board.mainStep, hpc, hs]
    exact advances_silent (h.rescheduled (hnext _ rfl rfl rfl)) rfl rfl ⟨rfl, rfl, rfl, rfl⟩
  | blink =>
    have hnot : ¬b.Pending .main := by simp [Board.Pending, hpc]
    have hstage : b.mainPc.stage = 2 := by rw [hpc, MainPc.stage]
    obtain ⟨sched, hs, hnext⟩ := hgoverned.sleep hcurrent hnot (Or.inl ⟨rfl, hstage⟩)
    rw [Board.mainStep, hpc, hs]
    exact advances_silent (h.rescheduled (hnext _ rfl hstage.symm rfl rfl)) rfl rfl
      ⟨rfl, rfl, rfl, rfl⟩
  | delayed =>
    have hstage : b.mainPc.stage = 2 := by rw [hpc, MainPc.stage]
    obtain ⟨sched, hs, hnext⟩ := hgoverned.schedule hcurrent
    rw [Board.mainStep, hpc, hs]
    exact advances_silent (h.rescheduled (hnext _ rfl hstage.symm rfl)) rfl rfl
      ⟨rfl, rfl, rfl, rfl⟩

variable (garbage x enc) in
theorem run (h : Refines layout b box mq) {t : BoardTask}
    (hcurrent : b.sched.currentThread = some (.inl t)) :
    Advances layout garbage b mq (b.label (.run x enc)) (b.step layout (.run x enc)) := by
  cases t with
  | main =>
    have hlabel : b.label (.run x enc) = none := by rw [Board.label, hcurrent]
    rw [hlabel, Board.step, hcurrent]
    exact h.mainStep hcurrent
  | input =>
    have hstep : b.step layout (.run x enc) = b.inputStep layout x enc := by
      rw [Board.step, hcurrent]
    rw [hstep]
    exact h.inputStep hcurrent
  | seq =>
    have hstep : b.step layout (.run x enc) = b.seqStep layout := by rw [Board.step, hcurrent]
    rw [hstep]
    exact h.seqStep hcurrent
  | idle =>
    have hlabel : b.label (.run x enc) = none := by rw [Board.label, hcurrent]
    rw [hlabel, Board.step, hcurrent]
    exact advances_silent h rfl rfl ⟨rfl, rfl, rfl, rfl⟩

variable (garbage) in
theorem step (h : Refines layout b box mq) {b' : Board ι ω} {act : BoardAct ι ω}
    (hs : b.step layout act = some b') : ∃ box' mq', Refines layout b' box' mq' ∧
      (preemptive garbage).execFrom (b.preempted mq) (b.label act).toList =
        some (b'.preempted mq') := by
  obtain ⟨members, seat, hgoverned⟩ := h.governed
  cases act with
  | run x enc =>
    have hcurrent : ∃ t, b.sched.currentThread = some (.inl t) := by
      rw [Board.step] at hs
      split at hs
      · exact ⟨_, ‹_›⟩
      · exact ⟨_, ‹_›⟩
      · exact ⟨_, ‹_›⟩
      · exact ⟨_, ‹_›⟩
      · cases hs
    obtain ⟨t, ht⟩ := hcurrent
    obtain ⟨b'', hs', hrefines⟩ := h.run garbage x enc ht
    cases hs.symm.trans hs'
    exact hrefines
  | kernel act =>
    rw [Board.step] at hs
    have hforeign : b.Foreign act := by
      by_contra hnot
      rw [if_neg hnot] at hs
      cases hs
    rw [if_pos hforeign] at hs
    obtain ⟨sched, hsched, heq⟩ := Option.map_eq_some_iff.mp hs
    cases heq
    have hnext := hgoverned.foreign hforeign hsched
      { b with sched, rtTick := if act = .tick then b.rtTick + 1#32 else b.rtTick } rfl rfl
      (fun t => by cases t <;> exact Iff.rfl) rfl
    exact ⟨box, mq, h.rescheduled hnext, rfl⟩
  | release o =>
    obtain ⟨s₁, hwake, hs⟩ := Option.bind_eq_some_iff.mp hs
    obtain ⟨sched, hsched, heq⟩ := Option.bind_eq_some_iff.mp hs
    cases heq
    have hnext := hgoverned.release hwake hsched { b with sched } rfl rfl rfl
    exact ⟨box, mq, h.rescheduled hnext, rfl⟩

end Refines

end DrumMachine
