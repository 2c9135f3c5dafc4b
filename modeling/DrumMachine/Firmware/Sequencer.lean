import DrumMachine.Firmware.Keyboard

/-!
# Step sequencer

`sequencer.h` and the two passes of `seqTaskEntry`: `seqStepToggle` flips the steps of the
current page under the pressed keys, and `kbLEDDataSend` renders that page into the frame of
the keyboard LEDs.
-/

namespace DrumMachine

open Framework
open scoped symmDiff

inductive StepType
  | empty
  | simple
  | complex
deriving DecidableEq

/-- The stored code of a step type; the enumeration is held in an `unsigned int`. -/
def StepType.code : StepType → BitVec 32
  | .empty => 0
  | .simple => 1
  | .complex => 2

/-- `struct StepData`. The sequencer computes with the stored word of `type`, which need not
be the code of a `StepType`. -/
structure StepData where
  type : BitVec 32
  tupletLength : BitVec 8
  tupletData : BitVec 16
deriving DecidableEq

structure PageData where
  step : Vector StepData 16
  length : BitVec 8
deriving DecidableEq

structure SeqData where
  page : Vector PageData 16
  length : BitVec 8
deriving DecidableEq

abbrev Sequence := Vector SeqData 1

/-- The indices of `struct MachineState` that select a page, within the arrays they index. -/
structure MachineState where
  page : BitVec 8
  seq : BitVec 8
  page_lt : page.toNat < 16
  seq_lt : seq.toNat < 1
deriving DecidableEq

def MachineState.zero : MachineState := ⟨0, 0, by decide, by decide⟩

def Sequence.zero : Sequence :=
  Vector.replicate 1 ⟨Vector.replicate 16 ⟨Vector.replicate 16 ⟨0, 0, 0⟩, 0⟩, 0⟩

def curSeq (state : MachineState) : Fin 1 := ⟨state.seq.toNat, state.seq_lt⟩

def curPage (state : MachineState) : Fin 16 := ⟨state.page.toNat, state.page_lt⟩

/-- `seq[CUR_SEQ].page[CUR_PAGE].step[i]`. -/
def stepAt (seq : Sequence) (state : MachineState) (i : Fin 16) : StepData :=
  seq[(curSeq state).val].page[(curPage state).val].step[i.val]

def modifyType (seq : Sequence) (state : MachineState) (i : Fin 16)
    (f : BitVec 32 → BitVec 32) : Sequence :=
  let s := seq[(curSeq state).val]
  let p := s.page[(curPage state).val]
  let d := p.step[i.val]
  let p' := { p with step := p.step.set i.val { d with type := f d.type } }
  seq.set (curSeq state).val { s with page := s.page.set (curPage state).val p' }

def pressBit (events : InputEvents) (i : Fin 16) : BitVec 32 :=
  events.buttonEvents.justPressed.mainRow.setWidth 32 >>> i.val &&& 1

/-- Body of the loop of `seqStepToggle`. -/
def toggleStep (events : InputEvents) (state : MachineState) (i : Fin 16) (seq : Sequence) :
    Sequence :=
  modifyType seq state i fun type => type ^^^ pressBit events i

def seqStepToggle (seq : Sequence) (events : InputEvents) (state : MachineState) : Sequence :=
  forLoop 16 (toggleStep events state) seq

def ledStep (i : Fin 2) (j : Fin 8) : Fin 16 := ⟨j.val + i.val * 8, by omega⟩

/-- Body of the nest of loops of `kbLEDDataSend`. -/
def ledWrite (seq : Sequence) (state : MachineState) (i : Fin 2) (j : Fin 8)
    (ledData : Chain) : Chain :=
  ledData.set (i.val + 1)
    (ledData[i.val + 1] ||| ((stepAt seq state (ledStep i j)).type <<< j.val).setWidth 8)

/-- The byte of a frame that row `i` of `kbLEDDataSend` writes. -/
abbrev Chain.ledByte (ledData : Chain) (i : Fin 2) : BitVec 8 := ledData[i.val + 1]

/-- `kbLEDDataSend`: the frame is cleared first, so it depends on the pattern alone. -/
def kbLEDDataSend (seq : Sequence) (state : MachineState) : Chain :=
  forLoop 2 (fun i => forLoop 8 (ledWrite seq state i)) Chain.zero

theorem pressBit_eq (events : InputEvents) (i : Fin 16) :
    pressBit events i =
      if events.buttonEvents.justPressed.mainRow.getLsbD i.val then 1 else 0 := by
  apply BitVec.eq_of_getLsbD_eq
  intro k hk
  have hi : i.val < 32 := by omega
  rw [pressBit, BitVec.getLsbD_and, BitVec.getLsbD_ushiftRight, BitVec.getLsbD_setWidth]
  by_cases hk0 : k = 0
  · subst k
    cases h : events.buttonEvents.justPressed.mainRow.getLsbD i.val <;> simp [hi]
  · have hone : (1 : BitVec 32).getLsbD k = false := by
      change (1#32).getLsbD k = false
      rw [BitVec.getLsbD_one]
      simp [hk0]
    rw [hone, Bool.and_false]
    split_ifs
    · exact hone.symm
    · simp

/-- The number of events that press key `i`. -/
def pressesOf (events : List InputEvents) (i : Fin 16) : Nat :=
  events.countP fun event => event.buttonEvents.justPressed.mainRow.getLsbD i.val

theorem foldl_pressBit (type : BitVec 32) (events : List InputEvents) (i : Fin 16) :
    events.foldl (fun type event => type ^^^ pressBit event i) type =
      type ^^^ BitVec.ofNat 32 (pressesOf events i % 2) := by
  simp only [pressBit_eq]
  exact foldl_xor_flag _ type events

theorem stepAt_modifyType (seq : Sequence) (state : MachineState) (i j : Fin 16)
    (f : BitVec 32 → BitVec 32) :
    stepAt (modifyType seq state i f) state j =
      if j = i then { stepAt seq state i with type := f (stepAt seq state i).type }
      else stepAt seq state j := by
  by_cases h : j = i
  · subst j
    simp [stepAt, modifyType]
  · have hval := Fin.val_ne_of_ne (Ne.symm h)
    simp [stepAt, modifyType, h, hval]

theorem modifyType_self (seq : Sequence) (state : MachineState) (i : Fin 16)
    (f : BitVec 32 → BitVec 32) (hf : ∀ type, f type = type) :
    modifyType seq state i f = seq := by
  let s := seq[(curSeq state).val]
  let p := s.page[(curPage state).val]
  let p' := { p with step := p.step.set i.val p.step[i.val] }
  have hp : p' = p := by
    dsimp only [p']
    rw [Vector.set_getElem_self]
  have hs : { s with page := s.page.set (curPage state).val p } = s := by
    rw [Vector.set_getElem_self]
  have hfun : f = id := funext hf
  subst hfun
  change seq.set (curSeq state).val { s with page := s.page.set (curPage state).val p' } = seq
  rw [hp, hs, Vector.set_getElem_self]

theorem stepAt_seqStepToggle (seq : Sequence) (events : InputEvents) (state : MachineState)
    (i : Fin 16) :
    stepAt (seqStepToggle seq events state) state i =
      { stepAt seq state i with type := (stepAt seq state i).type ^^^ pressBit events i } := by
  rw [seqStepToggle]
  apply forLoop_cells (toggleStep events state) (fun i seq => stepAt seq state i)
    (fun i d => { d with type := d.type ^^^ pressBit events i })
  · intro i t
    rw [toggleStep, stepAt_modifyType, if_pos rfl]
  · intro i j t hne
    rw [toggleStep, stepAt_modifyType, if_neg hne]

theorem seqStepToggle_no_press (seq : Sequence) (events : InputEvents) (state : MachineState)
    (h : events.buttonEvents.justPressed.mainRow = 0) : seqStepToggle seq events state = seq := by
  apply forLoop_invariant (toggleStep events state) (fun _ t => t = seq) seq rfl
  intro i t ht
  subst t
  apply modifyType_self
  intro type
  rw [pressBit_eq, h]
  simp

def patternRow (seq : Sequence) (state : MachineState) : Fin 16 → Bool :=
  fun i => (stepAt seq state i).type.getLsbD 0

theorem patternRow_seqStepToggle (seq : Sequence) (events : InputEvents)
    (state : MachineState) :
    patternRow (seqStepToggle seq events state) state =
      patternRow seq state ∆ bits events.buttonEvents.justPressed.mainRow := by
  funext i
  rw [Pi.symmDiff_apply, Bool.symmDiff_eq_xor, bits_apply]
  simp only [patternRow, stepAt_seqStepToggle, BitVec.getLsbD_xor, pressBit_eq]
  cases events.buttonEvents.justPressed.mainRow.getLsbD i.val <;> rfl

def SimpleSteps (seq : Sequence) (state : MachineState) : Prop :=
  ∀ i, (stepAt seq state i).type = StepType.empty.code ∨
    (stepAt seq state i).type = StepType.simple.code

theorem SimpleSteps.type_eq {seq : Sequence} {state : MachineState}
    (h : SimpleSteps seq state) (i : Fin 16) :
    (stepAt seq state i).type = if patternRow seq state i then 1 else 0 := by
  rw [patternRow]
  rcases h i with hi | hi <;> rw [hi] <;> rfl

theorem SimpleSteps.toggle {seq : Sequence} {state : MachineState}
    (h : SimpleSteps seq state) (events : InputEvents) :
    SimpleSteps (seqStepToggle seq events state) state := by
  intro i
  rw [stepAt_seqStepToggle, pressBit_eq]
  rcases h i with hi | hi <;> rw [hi] <;> split_ifs <;> simp [StepType.code]

theorem stepAt_zero (state : MachineState) (i : Fin 16) :
    stepAt Sequence.zero state i = ⟨0, 0, 0⟩ := by
  simp [stepAt, Sequence.zero]

theorem simpleSteps_zero (state : MachineState) : SimpleSteps Sequence.zero state := by
  intro i
  left
  rw [stepAt_zero]
  rfl

theorem patternRow_zero (state : MachineState) : patternRow Sequence.zero state = ⊥ := by
  funext i
  rw [patternRow, stepAt_zero]
  rfl

section Rendering

variable (seq : Sequence) (state : MachineState)

def ledWriteFlat (k : Fin (2 * 8)) : Chain → Chain :=
  ledWrite seq state (rowOf k) (columnOf k)

theorem kbLEDDataSend_flat :
    kbLEDDataSend seq state = forLoop (2 * 8) (ledWriteFlat seq state) Chain.zero :=
  forLoop_nest (ledWrite seq state) Chain.zero

private def ledByte (i : Fin 2) (byte : BitVec 8) : BitVec 8 :=
  forLoop 8 (fun j byte =>
    byte ||| ((stepAt seq state (ledStep i j)).type <<< j.val).setWidth 8) byte

private theorem ledByte_loop (i : Fin 2) (ledData : Chain) :
    forLoop 8 (ledWrite seq state i) ledData =
      ledData.set (i.val + 1) (ledByte seq state i ledData[i.val + 1]) := by
  have h : ∀ k, loopTo (ledWrite seq state i) k ledData =
      ledData.set (i.val + 1) (loopTo (fun (j : Fin 8) byte =>
        byte ||| ((stepAt seq state (ledStep i j)).type <<< j.val).setWidth 8) k
          ledData[i.val + 1]) := by
    intro k
    induction k with
    | zero => simp
    | succ k ih =>
      rw [loopTo, loopTo, ih]
      split_ifs with hk
      · simp [ledWrite]
      · rfl
  exact h 8

theorem kbLEDDataSend_byte (i : Fin 2) :
    (kbLEDDataSend seq state).ledByte i = ledByte seq state i 0 := by
  have hsame : ∀ (i : Fin 2) (t : Chain), (forLoop 8 (ledWrite seq state i) t)[i.val + 1] =
      ledByte seq state i t[i.val + 1] := by
    intro i t
    rw [ledByte_loop, Vector.getElem_set_self]
  have hother : ∀ (i j : Fin 2) (t : Chain), j ≠ i →
      (forLoop 8 (ledWrite seq state i) t)[j.val + 1] = t[j.val + 1] := by
    intro i j t hne
    have hval : i.val + 1 ≠ j.val + 1 := by omega
    rw [ledByte_loop, Vector.getElem_set_ne _ _ hval]
  have h := forLoop_cells (fun i => forLoop 8 (ledWrite seq state i))
    (fun i (t : Chain) => t[i.val + 1]) (ledByte seq state) hsame hother Chain.zero i
  have hzero : ∀ i : Fin 2, Chain.zero[i.val + 1] = 0 := by decide
  exact h.trans (by rw [hzero])

theorem kbLEDDataSend_function : functionLeds (kbLEDDataSend seq state) = 0 := by
  have hframe : ∀ (k : Fin (2 * 8)) (t : Chain), (ledWriteFlat seq state k t)[0] = t[0] := by
    intro k t
    simp [ledWriteFlat, ledWrite]
  rw [kbLEDDataSend_flat]
  exact loopTo_frame (ledWriteFlat seq state) (fun t => t[0]) hframe (2 * 8) Chain.zero

/-- A bit of a rendered byte is set by the step it belongs to, or by a type above 1 stored
in a step to its right. -/
theorem kbLEDDataSend_getLsbD (i : Fin 2) (b : Nat) (hb : b < 8) :
    ((kbLEDDataSend seq state).ledByte i).getLsbD b = true ↔
      ∃ j : Fin 8, j.val ≤ b ∧
        (stepAt seq state (ledStep i j)).type.getLsbD (b - j.val) = true := by
  let inv (k : Nat) (byte : BitVec 8) := byte.getLsbD b = true ↔ ∃ j : Fin 8, j.val < k ∧
    j.val ≤ b ∧ (stepAt seq state (ledStep i j)).type.getLsbD (b - j.val) = true
  have hstep : ∀ (j : Fin 8) byte, inv j byte → inv (j + 1)
      (byte ||| ((stepAt seq state (ledStep i j)).type <<< j.val).setWidth 8) := by
    intro j byte hbyte
    have hb32 : b < 32 := by omega
    simp only [inv] at hbyte ⊢
    rw [BitVec.getLsbD_or, Bool.or_eq_true, hbyte, BitVec.getLsbD_setWidth,
      BitVec.getLsbD_shiftLeft]
    simp only [hb, hb32, decide_true, Bool.true_and, Bool.and_eq_true, Bool.not_eq_true',
      decide_eq_false_iff_not, Nat.not_lt]
    constructor
    · rintro (⟨m, hm, hle, hbit⟩ | ⟨hle, hbit⟩)
      · exact ⟨m, Nat.lt_succ_of_lt hm, hle, hbit⟩
      · exact ⟨j, Nat.lt_succ_self j, hle, hbit⟩
    · intro ⟨m, hm, hle, hbit⟩
      rcases Nat.lt_succ_iff_lt_or_eq.mp hm with hlt | heq
      · exact Or.inl ⟨m, hlt, hle, hbit⟩
      · have hmj : m = j := Fin.ext heq
        subst m
        exact Or.inr ⟨hle, hbit⟩
  have hinit : inv 0 0 := by simp [inv]
  have h : inv 8 (ledByte seq state i 0) := forLoop_invariant _ inv 0 hinit hstep
  simp only [inv] at h
  rw [kbLEDDataSend_byte, h]
  constructor
  · rintro ⟨j, -, hj⟩
    exact ⟨j, hj⟩
  · intro ⟨j, hj⟩
    exact ⟨j, j.isLt, hj⟩

theorem kbLEDDataSend_simple (h : SimpleSteps seq state) (i : Fin 2) (j : Fin 8) :
    ((kbLEDDataSend seq state).ledByte i).getLsbD j.val =
      patternRow seq state (ledStep i j) := by
  rw [Bool.eq_iff_iff, kbLEDDataSend_getLsbD seq state i j.val j.isLt]
  constructor
  · intro ⟨m, hle, hbit⟩
    -- a type of 1 reaches no bit but that of its own step
    have hzero : j.val - m.val = 0 := by
      by_contra hne
      rw [h.type_eq] at hbit
      split_ifs at hbit
      · change (1#32).getLsbD (j.val - m.val) = true at hbit
        rw [BitVec.getLsbD_one] at hbit
        simp [hne] at hbit
      · simp at hbit
    have hmj : m = j := Fin.ext (by omega)
    subst m
    rw [hzero] at hbit
    exact hbit
  · intro hbit
    refine ⟨j, Nat.le_refl _, ?_⟩
    rw [Nat.sub_self]
    exact hbit

end Rendering

end DrumMachine
