import DrumMachine.Properties.Frames

/-!
# Delivery through the queue

In any interleaving of the two tasks the sequencer consumes the messages put on the queue in
their order and each of them once, and `kb_led_data` renders the pattern they make.
-/

namespace DrumMachine

open Framework

def queued (garbage : InputEvents) (acts : List Act) : List InputEvents :=
  (firmware garbage).logFrom enqueued (firmware garbage).init acts

def patternOf (messages : List InputEvents) : Sequence :=
  messages.foldl (fun seq event => seqStepToggle seq event MachineState.zero) Sequence.zero

def frameOf (messages : List InputEvents) : Chain :=
  kbLEDDataSend (patternOf messages) MachineState.zero

theorem patternOf_concat (messages : List InputEvents) (event : InputEvents) :
    patternOf (messages ++ [event]) =
      seqStepToggle (patternOf messages) event MachineState.zero := by
  rw [patternOf, List.foldl_append]
  rfl

structure Consumed (messages : List InputEvents) (s : SeqState) : Prop where
  state : s.state = MachineState.zero
  sequence : s.sequence = patternOf messages
  frame : s.kbLedData = frameOf messages

theorem consumed_start (garbage : InputEvents) :
    Consumed [] (SeqState.start garbage MachineState.zero) :=
  ⟨rfl, rfl, (rendered_start garbage MachineState.zero).frame⟩

theorem Consumed.iter {messages : List InputEvents} {s : SeqState} (h : Consumed messages s)
    (event : InputEvents) : Consumed (messages ++ [event]) (seqTaskIter (some event) s) := by
  have hsequence : (seqTaskIter (some event) s).sequence = patternOf (messages ++ [event]) := by
    rw [patternOf_concat, ← h.sequence, ← h.state]
    rfl
  refine ⟨h.state, hsequence, ?_⟩
  rw [frameOf, ← hsequence, ← h.state]
  rfl

/-- What was put on the queue is what was consumed, followed by what is still there. -/
theorem firmware_delivers {garbage : InputEvents} {acts : List Act} {fw : Firmware}
    (h : (firmware garbage).exec acts = some fw) :
    ∃ messages, queued garbage acts = messages ++ fw.inputEventMq.items ∧
      Consumed messages fw.seq := by
  refine (firmware garbage).exec_invariant
    (fun acts fw => ∃ messages, queued garbage acts = messages ++ fw.inputEventMq.items ∧
      Consumed messages fw.seq) ⟨[], rfl, consumed_start garbage⟩ ?_ acts fw h
  intro acts fw act fw' hexec ⟨messages, hqueued, hconsumed⟩ hstep
  have hmore : queued garbage (acts ++ [act]) =
      queued garbage acts ++ (enqueued fw act).toList :=
    (firmware garbage).logFrom_concat enqueued hexec hstep
  rw [hmore, hqueued]
  cases act with
  | scan d enc =>
    obtain ⟨-, hseq, hitems⟩ := step_scan hstep
    refine ⟨messages, ?_, ?_⟩
    · rw [hitems, List.append_assoc]
    · rw [hseq]
      exact hconsumed
  | seq =>
    obtain ⟨event, hitems, -, hseq⟩ := step_seq hstep
    refine ⟨messages ++ [event], ?_, ?_⟩
    · rw [enqueued, sending, ite_self, Option.toList_none, List.append_nil, hitems,
        List.append_assoc, List.singleton_append]
    · rw [hseq]
      exact hconsumed.iter event

end DrumMachine
