import DrumMachine.Firmware.Tasks
import DrumMachine.Framework.Positions

/-!
# The LED frame follows the keys

The decoder spreads the chain bytes over a 16-bit row and the renderer splits 16 steps into
two LED bytes. Between two frames of a synchronous run, the LEDs that change are those of
the keys that went down.
-/

namespace DrumMachine

open Framework
open scoped symmDiff

/-- The frame `new` differs from `old` in the LEDs of the keys pressed from `last` to `d`. -/
def FrameFlips (last d old new : Chain) : Prop :=
  functionLeds new = 0 ∧
    lowLeds new ^^^ lowLeds old = lowByte d &&& ~~~lowByte last ∧
    highLeds new ^^^ highLeds old = highByte d &&& ~~~highByte last

structure Rendered (s : SeqState) : Prop where
  simple : SimpleSteps s.sequence s.state
  frame : s.kbLedData = kbLEDDataSend s.sequence s.state

theorem rendered_start (garbage : InputEvents) (state : MachineState) :
    Rendered (SeqState.start garbage state) := by
  refine ⟨simpleSteps_zero state, ?_⟩
  have hbyte : ∀ (i : Fin 2), (kbLEDDataSend Sequence.zero state)[i.val + 1] = 0 := by
    intro i
    apply BitVec.eq_of_getLsbD_eq
    intro b hb
    have hbit := kbLEDDataSend_simple _ _ (simpleSteps_zero state) i ⟨b, hb⟩
    rw [patternRow_zero] at hbit
    exact hbit.trans BitVec.getLsbD_zero.symm
  exact (Chain.ext (kbLEDDataSend_function _ _) (hbyte 0) (hbyte 1)).symm

theorem Rendered.iter {s : SeqState} (h : Rendered s) (received : Option InputEvents) :
    Rendered (seqTaskIter received s) :=
  ⟨h.simple.toggle _, rfl⟩

private theorem frame_bit {s : SeqState} (h : Rendered s) (event : InputEvents) (i : Fin 2)
    (j : Fin 8) :
    ((seqTaskIter (some event) s).kbLedData.ledByte i ^^^ s.kbLedData.ledByte i).getLsbD
        j.val =
      event.buttonEvents.justPressed.mainRow.getLsbD (ledStep i j).val := by
  have hnew : (seqTaskIter (some event) s).kbLedData =
      kbLEDDataSend (seqStepToggle s.sequence event s.state) s.state := rfl
  rw [BitVec.getLsbD_xor, hnew, h.frame, kbLEDDataSend_simple _ _ (h.simple.toggle event),
    kbLEDDataSend_simple _ _ h.simple, patternRow_seqStepToggle, Pi.symmDiff_apply,
    Bool.symmDiff_eq_xor, bits_apply]
  cases patternRow s.sequence s.state (ledStep i j) <;> simp

private theorem frame_byte {s : SeqState} (h : Rendered s) (event : InputEvents) (i : Fin 2)
    (byte : BitVec 8) (hbyte : ∀ j : Fin 8, byte.getLsbD j.val =
      event.buttonEvents.justPressed.mainRow.getLsbD (ledStep i j).val) :
    (seqTaskIter (some event) s).kbLedData.ledByte i ^^^ s.kbLedData.ledByte i = byte := by
  apply BitVec.eq_of_getLsbD_eq
  intro j hj
  exact (frame_bit h event i ⟨j, hj⟩).trans (hbyte ⟨j, hj⟩).symm

private theorem pressed_byte (d last : Chain) (j : Fin 8) :
    (lowByte d &&& ~~~lowByte last).getLsbD j.val =
        (mainRow d &&& ~~~mainRow last).getLsbD (ledStep 0 j).val ∧
      (highByte d &&& ~~~highByte last).getLsbD j.val =
        (mainRow d &&& ~~~mainRow last).getLsbD (ledStep 1 j).val := by
  have hj := j.isLt
  have hlow : (ledStep 0 j).val = j.val := by simp [ledStep]
  have hhigh : (ledStep 1 j).val = j.val + 8 := by simp [ledStep]
  have hlow' : j.val < 16 := by omega
  have hhigh' : j.val + 8 < 16 := by omega
  have hge : ¬j.val + 8 < 8 := by omega
  rw [hlow, hhigh]
  simp only [BitVec.getLsbD_and, BitVec.getLsbD_not, mainRow_getLsbD, hj, hge, hlow', hhigh',
    ↓reduceIte, Nat.add_sub_cancel, and_self]

private theorem xor_self_mask (x y : BitVec 8) : x ^^^ x = y &&& ~~~y := by
  simp

theorem syncScan_flips {s : SyncState} (h : Rendered s.seq) (d : Chain) :
    FrameFlips s.input.buttonDataPrev d s.seq.kbLedData (syncScan s d).seq.kbLedData := by
  by_cases hrow : mainRow d = mainRow s.input.buttonDataPrev
  · obtain ⟨h0, h1⟩ := (mainRow_eq_iff _ _).mp hrow
    rw [syncScan_same hrow, FrameFlips, h0, h1]
    refine ⟨?_, xor_self_mask _ _, xor_self_mask _ _⟩
    rw [h.frame, kbLEDDataSend_function]
  · rw [syncScan, scanEvent_changed hrow, Option.elim_some]
    refine ⟨kbLEDDataSend_function _ _, ?_, ?_⟩
    · apply frame_byte h _ 0
      exact fun j => (pressed_byte d s.input.buttonDataPrev j).1
    · apply frame_byte h _ 1
      exact fun j => (pressed_byte d s.input.buttonDataPrev j).2

theorem syncScan_rendered {s : SyncState} (h : Rendered s.seq) (d : Chain) :
    Rendered (syncScan s d).seq := by
  rw [syncScan]
  cases scanEvent d s.input with
  | none => exact h
  | some event => exact h.iter _

theorem syncRun_rendered {s : SyncState} (h : Rendered s.seq) (scans : List Chain) :
    Rendered (syncRun s scans).seq := by
  induction scans using List.reverseRecOn with
  | nil => exact h
  | append_singleton scans d ih =>
    rw [syncRun_concat]
    exact syncScan_rendered ih d

private theorem flips_without_press {last d old new : Chain} (hold : functionLeds old = 0)
    (h : FrameFlips last d old new) (h0 : highByte d &&& ~~~highByte last = 0)
    (h1 : lowByte d &&& ~~~lowByte last = 0) : new = old := by
  obtain ⟨hzero, hlow, hhigh⟩ := h
  exact Chain.ext (hzero.trans hold.symm) (BitVec.xor_eq_zero_iff.mp (hlow.trans h1))
    (BitVec.xor_eq_zero_iff.mp (hhigh.trans h0))

/-- Pressing keys flips the LEDs of those keys and no others, in one step from any rendered
pattern and between consecutive frames of every synchronous run. -/
theorem keys_flip_leds :
    (∀ (s : SyncState) (d : Chain), SimpleSteps s.seq.sequence s.seq.state →
      s.seq.kbLedData = kbLEDDataSend s.seq.sequence s.seq.state →
      FrameFlips s.input.buttonDataPrev d s.seq.kbLedData (syncScan s d).seq.kbLedData ∧
        ((kbParseButtons d s.input).1 = 0 →
          (syncScan s d).seq.kbLedData = s.seq.kbLedData) ∧
        (highByte d &&& ~~~highByte s.input.buttonDataPrev = 0 →
          lowByte d &&& ~~~lowByte s.input.buttonDataPrev = 0 →
          (syncScan s d).seq.kbLedData = s.seq.kbLedData)) ∧
    ∀ (e garbage : InputEvents) (state : MachineState) (scans : List Chain),
      AtEach (fun before d => FrameFlips (lastScan before) d
        (syncRun ⟨⟨Chain.zero, e⟩, SeqState.start garbage state⟩ before).seq.kbLedData
        (syncRun ⟨⟨Chain.zero, e⟩, SeqState.start garbage state⟩ (before ++ [d])).seq.kbLedData)
        scans := by
  constructor
  · intro s d hsimple hframe
    have hrendered : Rendered s.seq := ⟨hsimple, hframe⟩
    have hflips := syncScan_flips hrendered d
    have hfunction : functionLeds s.seq.kbLedData = 0 := by rw [hframe, kbLEDDataSend_function]
    refine ⟨hflips, ?_, flips_without_press hfunction hflips⟩
    intro hflag
    rw [syncScan, scanEvent, if_pos hflag]
    rfl
  · intro e garbage state scans before d after _
    have hrendered := syncRun_rendered (s := ⟨⟨Chain.zero, e⟩, SeqState.start garbage state⟩)
      (rendered_start garbage state) before
    have hflips := syncScan_flips hrendered d
    have hprev := scanState_row e before
    rw [syncRun_input] at hflips
    obtain ⟨h0, h1⟩ := (mainRow_eq_iff _ _).mp hprev
    rw [syncRun_concat, FrameFlips, ← h0, ← h1]
    exact hflips

theorem keys_flip_leds_chord :
    FrameFlips Chain.zero #v[0x40, 0x81, 0] Chain.zero
      (syncScan ⟨InputState.zero, SeqState.start InputEvents.zero MachineState.zero⟩
        #v[0x40, 0x81, 0]).seq.kbLedData :=
  (keys_flip_leds.1 ⟨InputState.zero, SeqState.start InputEvents.zero MachineState.zero⟩
    #v[0x40, 0x81, 0] (simpleSteps_zero _) (rendered_start _ _).frame).1

end DrumMachine
