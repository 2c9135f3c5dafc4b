import DrumMachine.Firmware.Preemption
import DrumMachine.Properties.Delivery

/-!
# Complete frames under preemption

`kb_led_data` is shared without a lock: the sequencer clears it and rebuilds it bit by bit,
and the input task copies it byte by byte. The priorities alone keep the two apart. Under
them the tasks, taken step by step, refine the tasks taken iteration by iteration, so that
the queue never fills and every frame sent is complete.
-/

namespace DrumMachine

open Framework

/-- The iteration that a step stands for: a scan is complete when it has been parsed, and an
iteration of the sequencer is counted at its receive. -/
def iteration (s : Preempted) : ThreadAct → Option Act
  | .input _ enc => if s.inputPc = .parse then some (.scan s.buttonData enc) else none
  | .seq => if s.seqPc = .recv then some .seq else none

def Preempted.Copied (s : Preempted) : Prop :=
  match s.inputPc with
  | .get i => ∀ j : Fin 3, j < i → s.ledData.byte j = s.seq.kbLedData.byte j
  | .transfer => s.ledData = s.seq.kbLedData
  | .parse => True
  | .send => True

def SeqState.rendered (s : SeqState) : SeqState :=
  { s with kbLedData := kbLEDDataSend s.sequence s.state }

/-- While the sequencer works on a message nothing is queued and the input task waits. -/
structure Busy (s : Preempted) (fw : Firmware) : Prop where
  get : s.inputPc = .get 0
  empty : s.inputEventMq.items = []
  drained : fw.inputEventMq.items = []

/-- How far the tasks are with the iterations that the firmware has completed. -/
inductive Phase (s : Preempted) (fw : Firmware) : Prop
  | scanning (hblocked : s.Blocked) (hpc : s.inputPc ≠ .send) (hcopied : s.Copied)
      (hseq : fw.seq = s.seq) (hitems : fw.inputEventMq.items = [])
  | sending (hblocked : s.Blocked) (hpc : s.inputPc = .send) (hseq : fw.seq = s.seq)
      (hitems : fw.inputEventMq.items = [s.input.inputEvents])
  | woken (event : InputEvents) (hget : s.inputPc = .get 0) (hpc : s.seqPc = .recv)
      (hwaiting : s.inputEventMq.items = [event]) (hseq : fw.seq = s.seq)
      (hitems : fw.inputEventMq.items = [event])
  | toggling (before : Sequence) (i : Fin 16) (hbusy : Busy s fw) (hpc : s.seqPc = .toggle i)
      (hsequence : s.seq.sequence =
        loopTo (toggleStep s.seq.inputEvents s.seq.state) i before)
      (hseq : fw.seq = SeqState.rendered { s.seq with
        sequence := seqStepToggle before s.seq.inputEvents s.seq.state })
  | clearing (hbusy : Busy s fw) (hpc : s.seqPc = .clear) (hseq : fw.seq = s.seq.rendered)
  | writing (k : Fin (2 * 8)) (hbusy : Busy s fw) (hpc : s.seqPc = .write k)
      (hframe : s.seq.kbLedData =
        loopTo (ledWriteFlat s.seq.sequence s.seq.state) k Chain.zero)
      (hseq : fw.seq = s.seq.rendered)

structure Tracks (s : Preempted) (fw : Firmware) : Prop where
  input : fw.input = s.input
  phase : Phase s fw

private theorem set_copied (ledData frame : Chain) (i : Fin 3)
    (h : ∀ j : Fin 3, j < i → ledData.byte j = frame.byte j) (j : Fin 3) (hj : j ≤ i) :
    (ledData.setByte i (frame.byte i)).byte j = frame.byte j := by
  rcases lt_or_eq_of_le hj with hlt | rfl
  · have hne : i.val ≠ j.val := by omega
    rw [Chain.byte, Chain.setByte, Vector.getElem_set_ne _ _ hne]
    exact h j hlt
  · exact Vector.getElem_set_self _

private theorem copied_get {s : Preempted} {i : Fin 3} (hpc : s.inputPc = .get i)
    (h : s.Copied) (x : Exchange) (enc : EncReport) : (s.inputStep x enc).Copied := by
  simp only [Preempted.Copied, hpc] at h
  have hset := set_copied s.ledData s.seq.kbLedData i h
  simp only [Preempted.inputStep, hpc]
  by_cases hi : i.val + 1 < 3
  · rw [nextIteration_of_lt hi]
    intro j hj
    exact hset j (Nat.le_of_lt_succ hj)
  · rw [nextIteration_of_last hi]
    apply Vector.ext
    intro j hj
    exact hset ⟨j, hj⟩ (by change j ≤ i.val; omega)

private theorem copied_start {s : Preempted} (hpc : s.inputPc = .get 0) : s.Copied := by
  simp only [Preempted.Copied, hpc]
  intro j hj
  exact absurd hj (Fin.not_lt_zero j)

private theorem nextIteration_get_ne_send (i : Fin 3) :
    nextIteration i InputPc.get .transfer ≠ .send := by
  revert i
  decide

private theorem scan_drained {fw : Firmware} (hitems : fw.inputEventMq.items = []) (d : Chain)
    (enc : EncReport) :
    enqueued fw (.scan d enc) = (inputTaskIter d enc fw.input).1 := by
  rw [enqueued, if_neg (Fifo.not_full_of_empty hitems (by decide)), sending]

private theorem tracks_parse {s : Preempted} {fw : Firmware} (h : Tracks s fw)
    (hblocked : s.Blocked) (hseq : fw.seq = s.seq) (hitems : fw.inputEventMq.items = [])
    (hpc : s.inputPc = .parse) (x : Exchange) (enc : EncReport) :
    ∃ fw', fw.step (.scan s.buttonData enc) = some fw' ∧ Tracks (s.inputStep x enc) fw' := by
  obtain ⟨fw', hfw'⟩ := step_scan_available fw s.buttonData enc
  obtain ⟨hinput, hseq', hitems'⟩ := step_scan hfw'
  rw [scan_drained hitems, hitems, h.input] at hitems'
  rw [h.input] at hinput
  refine ⟨fw', hfw', ?_⟩
  simp only [Preempted.inputStep, hpc]
  refine ⟨hinput, ?_⟩
  cases hsent : (inputTaskIter s.buttonData enc s.input).1 with
  | none =>
    rw [hsent] at hitems'
    exact .scanning hblocked InputPc.noConfusion (copied_start rfl) (hseq'.trans hseq) hitems'
  | some event =>
    -- the firmware enqueues here, the task at its next step
    rw [hsent, inputTaskIter_message hsent] at hitems'
    exact .sending hblocked rfl (hseq'.trans hseq) hitems'

private theorem tracks_send {s : Preempted} {fw : Firmware} (h : Tracks s fw)
    (hblocked : s.Blocked) (hseq : fw.seq = s.seq)
    (hitems : fw.inputEventMq.items = [s.input.inputEvents]) (hpc : s.inputPc = .send)
    (x : Exchange) (enc : EncReport) : Tracks (s.inputStep x enc) fw := by
  have hroom := Fifo.not_full_of_empty hblocked.2 (by decide)
  have hpushed : (inputQueueSend s.inputEventMq s.input.inputEvents).items =
      [s.input.inputEvents] := by
    rw [inputQueueSend_items hroom, hblocked.2]
    rfl
  simp only [Preempted.inputStep, hpc]
  exact ⟨h.input, .woken s.input.inputEvents rfl hblocked.1 hpushed hseq hitems⟩

theorem Phase.of_blocked {s : Preempted} {fw : Firmware} (h : Phase s fw)
    (hblocked : s.Blocked) :
    fw.seq = s.seq ∧ (s.inputPc ≠ .send → s.Copied ∧ fw.inputEventMq.items = []) ∧
      (s.inputPc = .send → fw.inputEventMq.items = [s.input.inputEvents]) := by
  obtain ⟨hrecv, hempty⟩ := hblocked
  cases h with
  | scanning hblocked hpc hcopied hseq hitems =>
    exact ⟨hseq, fun _ => ⟨hcopied, hitems⟩, fun hsend => absurd hsend hpc⟩
  | sending hblocked hpc hseq hitems =>
    exact ⟨hseq, fun hne => absurd hpc hne, fun _ => hitems⟩
  | woken event hget hpc hwaiting hseq hitems =>
    rw [hempty] at hwaiting
    cases hwaiting
  | toggling before i hbusy hpc hsequence hseq =>
    rw [hrecv] at hpc
    cases hpc
  | clearing hbusy hpc hseq =>
    rw [hrecv] at hpc
    cases hpc
  | writing k hbusy hpc hframe hseq =>
    rw [hrecv] at hpc
    cases hpc

private theorem tracks_input (garbage : InputEvents) {s : Preempted} {fw : Firmware}
    (h : Tracks s fw) (hblocked : s.Blocked) (x : Exchange) (enc : EncReport) :
    ∃ fw', (firmware garbage).execFrom fw (iteration s (.input x enc)).toList = some fw' ∧
      Tracks (s.inputStep x enc) fw' := by
  obtain ⟨hseq, hnotsend, hsend⟩ := h.phase.of_blocked hblocked
  cases hpc : s.inputPc with
  | get i =>
    obtain ⟨hcopied, hitems⟩ := hnotsend (by rw [hpc]; exact InputPc.noConfusion)
    have hcopied' := copied_get hpc hcopied x enc
    refine ⟨fw, by simp [iteration, hpc], ?_⟩
    simp only [Preempted.inputStep, hpc] at hcopied' ⊢
    exact ⟨h.input, .scanning hblocked (nextIteration_get_ne_send i) hcopied' hseq hitems⟩
  | transfer =>
    obtain ⟨-, hitems⟩ := hnotsend (by rw [hpc]; exact InputPc.noConfusion)
    refine ⟨fw, by simp [iteration, hpc], ?_⟩
    simp only [Preempted.inputStep, hpc]
    exact ⟨h.input, .scanning hblocked InputPc.noConfusion trivial hseq hitems⟩
  | parse =>
    obtain ⟨-, hitems⟩ := hnotsend (by rw [hpc]; exact InputPc.noConfusion)
    obtain ⟨fw', hstep, htracks⟩ := tracks_parse h hblocked hseq hitems hpc x enc
    have hone : (firmware garbage).step fw (.scan s.buttonData enc) = some fw' := hstep
    refine ⟨fw', ?_, htracks⟩
    rw [iteration, if_pos hpc]
    exact Machine.execFrom_singleton _ hone
  | send =>
    exact ⟨fw, by simp [iteration, hpc], tracks_send h hblocked hseq (hsend hpc) hpc x enc⟩

private theorem tracks_recv {s s' : Preempted} {fw : Firmware} (h : Tracks s fw)
    (hpc : s.seqPc = .recv) (hstep : s.seqStep = some s') :
    ∃ fw', fw.step .seq = some fw' ∧ Tracks s' fw' := by
  simp only [Preempted.seqStep, hpc, Option.map_eq_some_iff] at hstep
  obtain ⟨⟨event, mq⟩, hpop, rfl⟩ := hstep
  have hpopped := Fifo.pop_eq_some hpop
  have hbusy : ¬s.Blocked := by
    rintro ⟨-, hempty⟩
    rw [hempty] at hpopped
    cases hpopped
  cases h.phase with
  | scanning hblocked hpc' hcopied hseq hitems => exact absurd hblocked hbusy
  | sending hblocked hpc' hseq hitems => exact absurd hblocked hbusy
  | woken event' hget hpc' hwaiting hseq hitems =>
    rw [hwaiting] at hpopped
    obtain ⟨rfl, hempty⟩ := List.cons.inj hpopped
    -- the firmware does the whole iteration, the task only the receive
    obtain ⟨fw', hfw'⟩ := step_seq_available (by rw [hitems]; exact List.cons_ne_nil _ _)
    obtain ⟨event'', hitems', hinput', hseq'⟩ := step_seq hfw'
    rw [hitems] at hitems'
    obtain ⟨rfl, hdrained⟩ := List.cons.inj hitems'
    refine ⟨fw', hfw', hinput'.trans h.input, ?_⟩
    refine .toggling s.seq.sequence 0 ⟨hget, hempty.symm, hdrained.symm⟩ rfl rfl ?_
    rw [hseq', hseq]
    rfl
  | toggling before i hbusy hpc' hsequence hseq =>
    rw [hpc] at hpc'
    cases hpc'
  | clearing hbusy hpc' hseq =>
    rw [hpc] at hpc'
    cases hpc'
  | writing k hbusy hpc' hframe hseq =>
    rw [hpc] at hpc'
    cases hpc'

private theorem tracks_work {s s' : Preempted} {fw : Firmware} (h : Tracks s fw)
    (hpc : s.seqPc ≠ .recv) (hstep : s.seqStep = some s') : Tracks s' fw := by
  cases h.phase with
  | scanning hblocked hpc' hcopied hseq hitems => exact absurd hblocked.1 hpc
  | sending hblocked hpc' hseq hitems => exact absurd hblocked.1 hpc
  | woken event hget hpc' hwaiting hseq hitems => exact absurd hpc' hpc
  | toggling before i hbusy hpc' hsequence hseq =>
    simp only [Preempted.seqStep, hpc'] at hstep
    cases hstep
    have hnext : toggleStep s.seq.inputEvents s.seq.state i s.seq.sequence =
        loopTo (toggleStep s.seq.inputEvents s.seq.state) (i.val + 1) before := by
      rw [loopTo_succ _ i.isLt, hsequence]
    refine ⟨h.input, ?_⟩
    by_cases hi : i.val + 1 < 16
    · rw [nextIteration_of_lt hi]
      exact .toggling before ⟨i.val + 1, hi⟩ ⟨hbusy.get, hbusy.empty, hbusy.drained⟩ rfl hnext
        hseq
    · have hlast : i.val + 1 = 16 := by omega
      rw [hlast] at hnext
      rw [nextIteration_of_last hi]
      refine .clearing ⟨hbusy.get, hbusy.empty, hbusy.drained⟩ rfl ?_
      rw [hseq, hnext]
      rfl
  | clearing hbusy hpc' hseq =>
    simp only [Preempted.seqStep, hpc'] at hstep
    cases hstep
    exact ⟨h.input, .writing 0 ⟨hbusy.get, hbusy.empty, hbusy.drained⟩ rfl rfl hseq⟩
  | writing k hbusy hpc' hframe hseq =>
    simp only [Preempted.seqStep, hpc'] at hstep
    cases hstep
    have hnext : ledWriteFlat s.seq.sequence s.seq.state k s.seq.kbLedData =
        loopTo (ledWriteFlat s.seq.sequence s.seq.state) (k.val + 1) Chain.zero := by
      rw [loopTo_succ _ k.isLt, hframe]
    refine ⟨h.input, ?_⟩
    by_cases hk : k.val + 1 < 2 * 8
    · rw [nextIteration_of_lt hk]
      exact .writing ⟨k.val + 1, hk⟩ ⟨hbusy.get, hbusy.empty, hbusy.drained⟩ rfl hnext hseq
    · have hlast : k.val + 1 = 2 * 8 := by omega
      rw [hlast] at hnext
      rw [nextIteration_of_last hk]
      refine .scanning ⟨rfl, hbusy.empty⟩ ?_ (copied_start hbusy.get) ?_ hbusy.drained
      · rw [hbusy.get]
        exact InputPc.noConfusion
      · rw [hseq, SeqState.rendered, kbLEDDataSend_flat, hnext]
        rfl

/-- Under the priorities of the two tasks, their steps refine their iterations. -/
theorem preemptive_simulates (garbage : InputEvents) :
    Machine.Simulates (preemptive garbage) (firmware garbage) Tracks iteration where
  init := ⟨rfl, .scanning ⟨rfl, rfl⟩ InputPc.noConfusion (copied_start rfl) rfl rfl⟩
  step := by
    intro s fw act s' h hstep
    cases act with
    | input x enc =>
      obtain ⟨hblocked, rfl⟩ := preemptive_step_input hstep
      exact tracks_input garbage h hblocked x enc
    | seq =>
      have htaken := preemptive_step_seq hstep
      by_cases hpc : s.seqPc = .recv
      · obtain ⟨fw', hfw', htracks⟩ := tracks_recv h hpc htaken
        have hone : (firmware garbage).step fw .seq = some fw' := hfw'
        refine ⟨fw', ?_, htracks⟩
        rw [iteration, if_pos hpc]
        exact Machine.execFrom_singleton _ hone
      · refine ⟨fw, ?_, tracks_work h hpc htaken⟩
        rw [iteration, if_neg hpc]
        rfl

def iterationsOf (garbage : InputEvents) (acts : List ThreadAct) : List Act :=
  (preemptive garbage).logFrom iteration (preemptive garbage).init acts

def Preempted.unsent (s : Preempted) : List InputEvents :=
  if s.inputPc = .send then [s.input.inputEvents] else []

private theorem seqStep_unsent {s s' : Preempted} (h : s.seqStep = some s') :
    s'.unsent = s.unsent := by
  cases hpc : s.seqPc with
  | recv =>
    simp only [Preempted.seqStep, hpc, Option.map_eq_some_iff] at h
    obtain ⟨received, -, rfl⟩ := h
    rfl
  | toggle i =>
    simp only [Preempted.seqStep, hpc] at h
    cases h
    rfl
  | clear =>
    simp only [Preempted.seqStep, hpc] at h
    cases h
    rfl
  | write k =>
    simp only [Preempted.seqStep, hpc] at h
    cases h
    rfl

private theorem queued_step {garbage : InputEvents} {s s' : Preempted} {fw fw' : Firmware}
    {act : ThreadAct} (h : Tracks s fw) (hstep : (preemptive garbage).step s act = some s')
    (hmatch : (firmware garbage).execFrom fw (iteration s act).toList = some fw') :
    s.unsent ++ (firmware garbage).logFrom enqueued fw (iteration s act).toList =
      (s.puts act).toList ++ s'.unsent := by
  cases act with
  | seq =>
    have hunsent := seqStep_unsent (preemptive_step_seq hstep)
    rw [hunsent]
    by_cases hpc : s.seqPc = .recv
    · rw [iteration, if_pos hpc, Option.toList_some] at hmatch ⊢
      obtain ⟨fw'', hfw'', -⟩ := Option.bind_eq_some_iff.mp hmatch
      rw [Machine.logFrom_singleton _ _ hfw'', enqueued, sending, ite_self, Option.toList_none,
        List.append_nil]
      rfl
    · rw [iteration, if_neg hpc, Option.toList_none, Machine.logFrom_nil, List.append_nil]
      rfl
  | input x enc =>
    obtain ⟨hblocked, rfl⟩ := preemptive_step_input hstep
    obtain ⟨-, hnotsend, -⟩ := h.phase.of_blocked hblocked
    cases hpc : s.inputPc with
    | get i =>
      simp [Preempted.unsent, Preempted.puts, Preempted.inputStep, iteration, hpc,
        nextIteration_get_ne_send]
    | transfer =>
      simp [Preempted.unsent, Preempted.puts, Preempted.inputStep, iteration, hpc]
    | parse =>
      obtain ⟨-, hitems⟩ := hnotsend (by rw [hpc]; exact InputPc.noConfusion)
      rw [iteration, if_pos hpc, Option.toList_some] at hmatch ⊢
      obtain ⟨fw'', hfw'', -⟩ := Option.bind_eq_some_iff.mp hmatch
      rw [Machine.logFrom_singleton _ _ hfw'', scan_drained hitems, h.input]
      cases hsent : (inputTaskIter s.buttonData enc s.input).1 with
      | none => simp [Preempted.unsent, Preempted.puts, Preempted.inputStep, hpc, hsent]
      | some event =>
        simp [Preempted.unsent, Preempted.puts, Preempted.inputStep, hpc, hsent,
          inputTaskIter_message hsent]
    | send =>
      have hroom := Fifo.not_full_of_empty hblocked.2 (by decide)
      simp [Preempted.unsent, Preempted.puts, Preempted.inputStep, iteration, hpc, hroom]

theorem queued_iterationsOf {garbage : InputEvents} {acts : List ThreadAct} {s : Preempted}
    (h : (preemptive garbage).exec acts = some s) :
    queued garbage (iterationsOf garbage acts) = messagesOf garbage acts ++ s.unsent := by
  refine (preemptive garbage).exec_invariant (fun acts s =>
    queued garbage (iterationsOf garbage acts) = messagesOf garbage acts ++ s.unsent)
    rfl ?_ acts s h
  intro acts s act s' hexec ih hstep
  obtain ⟨fw, hfw, htracks⟩ := (preemptive_simulates garbage).exec hexec
  obtain ⟨fw', hmatch, -⟩ := (preemptive_simulates garbage).step htracks hstep
  have hmore : iterationsOf garbage (acts ++ [act]) =
      iterationsOf garbage acts ++ (iteration s act).toList :=
    (preemptive garbage).logFrom_concat iteration hexec hstep
  have hqueued : queued garbage (iterationsOf garbage acts ++ (iteration s act).toList) =
      queued garbage (iterationsOf garbage acts) ++
        (firmware garbage).logFrom enqueued fw (iteration s act).toList :=
    (firmware garbage).logFrom_append enqueued _ hfw
  rw [hmore, messagesOf_concat hexec hstep, hqueued, ih, List.append_assoc,
    queued_step htracks hstep hmatch, List.append_assoc]

theorem Phase.blocked {s : Preempted} {fw : Firmware} (h : Phase s fw)
    (hinput : s.inputPc ≠ .get 0) : s.Blocked := by
  cases h with
  | scanning hblocked hpc hcopied hseq hitems => exact hblocked
  | sending hblocked hpc hseq hitems => exact hblocked
  | woken event hget hpc hwaiting hseq hitems => exact absurd hget hinput
  | toggling before i hbusy hpc hsequence hseq => exact absurd hbusy.get hinput
  | clearing hbusy hpc hseq => exact absurd hbusy.get hinput
  | writing k hbusy hpc hframe hseq => exact absurd hbusy.get hinput

theorem Phase.one_message {s : Preempted} {fw : Firmware} (h : Phase s fw) :
    s.inputEventMq.items.length ≤ 1 := by
  cases h with
  | scanning hblocked hpc hcopied hseq hitems => simp [hblocked.2]
  | sending hblocked hpc hseq hitems => simp [hblocked.2]
  | woken event hget hpc hwaiting hseq hitems => simp [hwaiting]
  | toggling before i hbusy hpc hsequence hseq => simp [hbusy.empty]
  | clearing hbusy hpc hseq => simp [hbusy.empty]
  | writing k hbusy hpc hframe hseq => simp [hbusy.empty]

/-- While the sequencer is blocked it has consumed every message, and published its work. -/
theorem consumed_of_blocked {garbage : InputEvents} {acts : List ThreadAct} {s : Preempted}
    (h : (preemptive garbage).exec acts = some s) (hblocked : s.Blocked) :
    Consumed (messagesOf garbage acts) s.seq := by
  obtain ⟨fw, hfw, htracks⟩ := (preemptive_simulates garbage).exec h
  obtain ⟨hseq, hnotsend, hsend⟩ := htracks.phase.of_blocked hblocked
  obtain ⟨messages, hqueued, hconsumed⟩ := firmware_delivers hfw
  have hsplit : messages ++ fw.inputEventMq.items = messagesOf garbage acts ++ s.unsent :=
    hqueued.symm.trans (queued_iterationsOf h)
  have hunsent : fw.inputEventMq.items = s.unsent := by
    rw [Preempted.unsent]
    split_ifs with hpc
    · exact hsend hpc
    · exact (hnotsend hpc).2
  rw [hunsent] at hsplit
  rw [← hseq, ← List.append_cancel_right hsplit]
  exact hconsumed

def pressExchange : Exchange := ⟨true, true, #v[⟨0, 0, 0xFF⟩, ⟨0, 0, 0xFE⟩, ⟨0, 0, 0xFF⟩]⟩

end DrumMachine
