import DrumMachine.Firmware.Tasks
import DrumMachine.Spec.Pads

/-!
# No press is lost or applied twice

As long as every send finds a slot the firmware refines the pads, in any interleaving of the
two tasks. What is in the queue settles to the pattern of all presses so far.
-/

namespace DrumMachine

open Framework
open scoped symmDiff

def roomyFirmware (garbage : InputEvents) : Machine Firmware Act :=
  (firmware garbage).restrict fun fw act => UsesStub act ∧ FindsSlot fw act

def pressCount (before : Chain) (i : Fin 16) : List Chain → Nat
  | [] => 0
  | d :: scans => (if !rawBit before i && rawBit d i then 1 else 0) + pressCount d i scans

/-- The type of step `i` after the messages still queued. -/
def settledType (fw : Firmware) (i : Fin 16) : BitVec 32 :=
  fw.inputEventMq.items.foldl (fun type event => type ^^^ pressBit event i)
    (stepAt fw.seq.sequence fw.seq.state i).type

def pressedKeys (event : InputEvents) : Fin 16 → Bool :=
  bits event.buttonEvents.justPressed.mainRow

/-- The pads that a state of the firmware stands for. -/
structure StandsFor (fw : Firmware) (p : Pads (Fin 16 → Bool)) : Prop where
  held : bits (mainRow fw.input.buttonDataPrev) = p.held
  pending : fw.inputEventMq.items.map pressedKeys = p.pending
  active : patternRow fw.seq.sequence fw.seq.state = p.active

def padsAct : Act → Pads.Act (Fin 16 → Bool)
  | .scan d _ => .scan (bits (mainRow d))
  | .seq => .consume

theorem levelsOf_padsAct (acts : List Act) :
    levelsOf (acts.map padsAct) = (scansOf acts).map fun d => bits (mainRow d) := by
  induction acts using List.reverseRecOn with
  | nil => rfl
  | append_singleton acts act ih =>
    cases act with
    | scan d enc =>
      rw [List.map_append, List.map_cons, List.map_nil, padsAct, levelsOf_concat_scan, ih,
        scansOf_concat_scan, List.map_append, List.map_cons, List.map_nil]
    | seq =>
      rw [List.map_append, List.map_cons, List.map_nil, padsAct, levelsOf_concat_consume, ih,
        scansOf_concat_seq]

private theorem pressedKeys_of_scanEvent {d : Chain} {s : InputState} {event : InputEvents}
    (h : scanEvent d s = some event) :
    pressedKeys event = rise (bits (mainRow s.buttonDataPrev)) (bits (mainRow d)) := by
  rw [pressedKeys, (scanEvent_eq_some h).2, splitEvents, bits_and_not]
  rfl

private theorem standsFor_scan {fw fw' : Firmware} {p : Pads (Fin 16 → Bool)} {d : Chain}
    (h : StandsFor fw p) (hroom : FindsSlot fw (.scan d .stub))
    (hstep : fw.step (.scan d .stub) = some fw') :
    ∃ p', p.step (.scan (bits (mainRow d))) = some p' ∧ StandsFor fw' p' := by
  obtain ⟨hinput, hseq, hitems⟩ := step_scan hstep
  have hrow : mainRow fw'.input.buttonDataPrev = mainRow d := by
    rw [hinput, inputTaskIter_prev, kbParseButtons_row]
  rw [enqueued_of_findsSlot hroom, sending, inputTaskIter_stub] at hitems
  have hactive : patternRow fw'.seq.sequence fw'.seq.state = p.active := by
    rw [hseq, h.active]
  by_cases hsame : mainRow d = mainRow fw.input.buttonDataPrev
  · refine ⟨p, ?_, ?_, ?_, hactive⟩
    · rw [Pads.step, if_pos (by rw [hsame, h.held])]
    · rw [hrow, hsame, h.held]
    · rw [hitems, scanEvent_same hsame, Option.toList_none, List.append_nil, h.pending]
  · have hne : bits (mainRow d) ≠ p.held := by
      rw [← h.held]
      exact bits_injective.ne hsame
    refine ⟨{ p with
        held := bits (mainRow d)
        pending := p.pending ++ [rise p.held (bits (mainRow d))] }, ?_, ?_, ?_, hactive⟩
    · rw [Pads.step, if_neg hne]
    · rw [hrow]
    have hevent := scanEvent_changed hsame
    rw [hitems, hevent, Option.toList_some, List.map_append, h.pending, List.map_cons,
      List.map_nil, pressedKeys_of_scanEvent hevent, h.held]

private theorem standsFor_seq {fw fw' : Firmware} {p : Pads (Fin 16 → Bool)}
    (h : StandsFor fw p) (hstep : fw.step .seq = some fw') :
    ∃ p', p.step .consume = some p' ∧ StandsFor fw' p' := by
  obtain ⟨event, hitems, hinput, hseq⟩ := step_seq hstep
  have hpending : p.pending = pressedKeys event :: fw'.inputEventMq.items.map pressedKeys := by
    rw [← h.pending, hitems, List.map_cons]
  refine ⟨{ p with
      pending := fw'.inputEventMq.items.map pressedKeys
      active := p.active ∆ pressedKeys event }, ?_, ?_, rfl, ?_⟩
  · rw [Pads.step, hpending]
  · rw [hinput, h.held]
  · rw [hseq]
    change patternRow (seqStepToggle fw.seq.sequence event fw.seq.state) fw.seq.state = _
    rw [patternRow_seqStepToggle, h.active, pressedKeys]

private theorem bits_mainRow_zero : bits (mainRow Chain.zero) = ⊥ := by
  have hzero : mainRow Chain.zero = 0 := by decide
  rw [hzero]
  exact bits_zero

/-- As long as every send finds a slot, the firmware refines the pads. -/
theorem roomyFirmware_simulates (garbage : InputEvents) :
    Machine.Simulates (roomyFirmware garbage) (pads (Fin 16 → Bool)) StandsFor
      (fun _ act => some (padsAct act)) where
  init := by
    exact ⟨bits_mainRow_zero, rfl, patternRow_zero _⟩
  step := by
    intro fw p act fw' h hstep
    obtain ⟨⟨hstub, hroom⟩, hstep⟩ := ((firmware garbage).restrict_step_eq_some _).mp hstep
    have hmatch : ∃ p', p.step (padsAct act) = some p' ∧ StandsFor fw' p' := by
      cases act with
      | scan d enc =>
        cases hstub
        exact standsFor_scan h hroom hstep
      | seq => exact standsFor_seq h hstep
    obtain ⟨p', hp', hstands⟩ := hmatch
    refine ⟨p', ?_, hstands⟩
    have hpads : (pads (Fin 16 → Bool)).step p (padsAct act) = some p' := hp'
    exact (pads _).execFrom_singleton hpads

theorem firmware_simpleSteps {garbage : InputEvents} {acts : List Act} {fw : Firmware}
    (h : (firmware garbage).exec acts = some fw) :
    SimpleSteps fw.seq.sequence fw.seq.state := by
  refine (firmware garbage).exec_invariant
    (fun _ fw => SimpleSteps fw.seq.sequence fw.seq.state) (simpleSteps_zero _) ?_ acts fw h
  intro acts fw act fw' _ ih hstep
  cases act with
  | scan d enc =>
    rw [(step_scan hstep).2.1]
    exact ih
  | seq =>
    obtain ⟨event, -, -, hseq⟩ := step_seq hstep
    rw [hseq]
    exact ih.toggle event

private theorem countP_rises (before : Chain) (i : Fin 16) (scans : List Chain) :
    (rises (bits (mainRow before)) (scans.map fun d => bits (mainRow d))).countP (· i) =
      pressCount before i scans := by
  induction scans generalizing before with
  | nil => rfl
  | cons d scans ih =>
    have hrise : rise (bits (mainRow before)) (bits (mainRow d)) i =
        (!rawBit before i && rawBit d i) := by
      rw [← mainRow_rawBit, ← mainRow_rawBit, Bool.and_comm]
      rfl
    rw [List.map_cons, rises, List.countP_cons, ih, hrise, pressCount, Nat.add_comm]

private theorem foldl_pressBit_row (row : Fin 16 → Bool) (events : List InputEvents)
    (i : Fin 16) :
    events.foldl (fun type event => type ^^^ pressBit event i) (if row i then 1 else 0) =
      if toggleAll row (events.map pressedKeys) i then 1 else 0 := by
  have hcount : (events.map pressedKeys).countP (· i) = pressesOf events i := List.countP_map
  rw [foldl_pressBit, toggleAll_apply, hcount]
  rcases Nat.even_or_odd (pressesOf events i) with heven | hodd
  · cases row i <;> simp [Nat.even_iff.mp heven, Nat.not_odd_iff_even.mpr heven]
  · cases row i <;> simp [Nat.odd_iff.mp hodd, hodd]

/-- The pattern after the messages still queued is the parity of the presses. -/
theorem settled_pattern {garbage : InputEvents} {acts : List Act} {fw : Firmware}
    (h : (roomyFirmware garbage).exec acts = some fw) (i : Fin 16) :
    toggleAll (patternRow fw.seq.sequence fw.seq.state)
        (fw.inputEventMq.items.map pressedKeys) i =
      decide (Odd (pressCount Chain.zero i (scansOf acts))) := by
  obtain ⟨p, hp, hstands⟩ := (roomyFirmware_simulates garbage).exec h
  rw [Machine.logFrom_map _ padsAct h] at hp
  obtain ⟨-, hsettled⟩ := pads_settled hp
  have hup : bits (mainRow Chain.zero) i = false := by rw [bits_mainRow_zero]; rfl
  rw [hstands.pending, hstands.active, ← Pads.settled, hsettled, toggleAll_apply,
    levelsOf_padsAct, ← bits_mainRow_zero, countP_rises, hup, Bool.false_xor]

/-- In every interleaving in which each send finds a slot, and in every state of it, a step
of the current page together with the messages still queued has the parity of the presses of
its key. -/
theorem presses_conserved (garbage : InputEvents) (acts : List Act) (fw : Firmware)
    (h : (roomyFirmware garbage).exec acts = some fw) (i : Fin 16) :
    settledType fw i = BitVec.ofNat 32 (pressCount Chain.zero i (scansOf acts) % 2) := by
  have hsimple := firmware_simpleSteps ((firmware garbage).exec_of_restrict _ h)
  rw [settledType, hsimple.type_eq i, foldl_pressBit_row, settled_pattern h]
  rcases Nat.even_or_odd (pressCount Chain.zero i (scansOf acts)) with heven | hodd
  · simp [Nat.even_iff.mp heven, Nat.not_odd_iff_even.mpr heven]
  · simp [Nat.odd_iff.mp hodd, hodd]

/-- Keys 1 and 9 go down, key 1 goes up and down again, and one message is consumed. -/
def chordRun : List Act :=
  [.scan #v[1, 1, 0] .stub, .scan #v[1, 0, 0] .stub, .seq, .scan #v[1, 1, 0] .stub]

theorem presses_conserved_chord :
    ∃ fw, (roomyFirmware InputEvents.zero).exec chordRun = some fw ∧
      settledType fw 0 = 0 ∧ settledType fw 8 = 1 := by
  have hrun : ((roomyFirmware InputEvents.zero).exec chordRun).isSome := by decide
  obtain ⟨fw, hfw⟩ := Option.isSome_iff_exists.mp hrun
  refine ⟨fw, hfw, ?_, ?_⟩
  · exact (presses_conserved InputEvents.zero chordRun fw hfw 0).trans (by decide)
  · exact (presses_conserved InputEvents.zero chordRun fw hfw 8).trans (by decide)

end DrumMachine
