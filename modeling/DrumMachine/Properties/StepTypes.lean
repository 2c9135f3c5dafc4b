import DrumMachine.Firmware.Tasks
import DrumMachine.Properties.ToggleGroup

/-!
# Complex steps

Toggling takes a complex step out of `StepType`, and rendering lights the LED to the right of
a complex step instead of its own. Patterns and edits that stay clear of complex steps are
exactly those that editing and rendering treat as the enumeration means them.
-/

namespace DrumMachine

open Framework

def IsStepType (type : BitVec 32) : Prop := ∃ t : StepType, type = t.code

def HasStepTypes (seq : Sequence) : Prop :=
  ∀ q p i, IsStepType (((seq.get q).page.get p).step.get i).type

theorem StepType.code_injective : Function.Injective StepType.code := by
  intro t t' h
  cases t <;> cases t' <;> first | rfl | exact absurd h (by decide)

theorem StepType.getLsbD_code (t : StepType) (n : Nat) :
    t.code.getLsbD n = true ↔ t = .simple ∧ n = 0 ∨ t = .complex ∧ n = 1 := by
  cases t with
  | empty => simp [StepType.code]
  | simple =>
    change (BitVec.twoPow 32 0).getLsbD n = true ↔ _
    simp [BitVec.getLsbD_twoPow, eq_comm]
  | complex =>
    change (BitVec.twoPow 32 1).getLsbD n = true ↔ _
    simp [BitVec.getLsbD_twoPow, eq_comm]

def ledBit (ledData : Chain) (i : Fin 16) : Bool :=
  ledData[i.val / 8 + 1].getLsbD (i.val % 8)

theorem ledBit_ledStep (ledData : Chain) (i : Fin 2) (j : Fin 8) :
    ledBit ledData (ledStep i j) = (ledData.ledByte i).getLsbD j.val := by
  have hrow : (ledStep i j).val / 8 = i.val := by
    change (j.val + i.val * 8) / 8 = i.val
    omega
  have hcolumn : (ledStep i j).val % 8 = j.val := by
    change (j.val + i.val * 8) % 8 = j.val
    omega
  simp only [ledBit, hrow, hcolumn]

theorem exists_ledStep (k : Fin 16) : ∃ i j, ledStep i j = k := by
  refine ⟨⟨k.val / 8, by omega⟩, ⟨k.val % 8, by omega⟩, Fin.ext ?_⟩
  change k.val % 8 + k.val / 8 * 8 = k.val
  omega

/-- The LEDs show which steps of the current page are not empty. -/
def ShowsPage (seq : Sequence) (state : MachineState) : Prop :=
  ∀ i, ledBit (kbLEDDataSend seq state) i = true ↔
    (stepAt seq state i).type ≠ StepType.empty.code

def NoComplex (seq : Sequence) (state : MachineState) : Prop :=
  ∀ i, (stepAt seq state i).type ≠ StepType.complex.code

section Rendering

variable {seq : Sequence} {state : MachineState}

theorem HasStepTypes.stepAt (h : HasStepTypes seq) (state : MachineState) (i : Fin 16) :
    IsStepType (stepAt seq state i).type := h (curSeq state) (curPage state) i

/-- An LED is lit by a simple step of its own or by a complex step to the left. -/
theorem ledBit_of_stepTypes (h : HasStepTypes seq) (i : Fin 2) (j : Fin 8) :
    ledBit (kbLEDDataSend seq state) (ledStep i j) = true ↔
      (stepAt seq state (ledStep i j)).type = StepType.simple.code ∨
      ∃ k : Fin 8, k.val + 1 = j.val ∧
        (stepAt seq state (ledStep i k)).type = StepType.complex.code := by
  have hbit : ∀ (k : Fin 8) n, (stepAt seq state (ledStep i k)).type.getLsbD n = true ↔
      (stepAt seq state (ledStep i k)).type = StepType.simple.code ∧ n = 0 ∨
      (stepAt seq state (ledStep i k)).type = StepType.complex.code ∧ n = 1 := by
    intro k n
    obtain ⟨t, ht⟩ := h.stepAt state (ledStep i k)
    rw [ht, t.getLsbD_code, StepType.code_injective.eq_iff, StepType.code_injective.eq_iff]
  rw [ledBit_ledStep, kbLEDDataSend_getLsbD seq state i j.val j.isLt]
  constructor
  · intro ⟨k, hle, hk⟩
    cases (hbit k _).mp hk with
    | inl hsimple =>
      have hkj : k = j := Fin.ext (by omega)
      exact Or.inl (hkj ▸ hsimple.1)
    | inr hcomplex => exact Or.inr ⟨k, by omega, hcomplex.1⟩
  · intro hlit
    cases hlit with
    | inl hsimple => exact ⟨j, Nat.le_refl _, (hbit j _).mpr (Or.inl ⟨hsimple, Nat.sub_self _⟩)⟩
    | inr hleft =>
      obtain ⟨k, hk, hcomplex⟩ := hleft
      exact ⟨k, by omega, (hbit k _).mpr (Or.inr ⟨hcomplex, by omega⟩)⟩

private theorem complex_to_the_left (h : HasStepTypes seq) (hshows : ShowsPage seq state)
    {i : Fin 2} {j : Fin 8}
    (hcomplex : (stepAt seq state (ledStep i j)).type = StepType.complex.code) :
    ∃ k : Fin 8, k.val + 1 = j.val ∧
      (stepAt seq state (ledStep i k)).type = StepType.complex.code := by
  have hlit := (hshows (ledStep i j)).mpr (by rw [hcomplex]; decide)
  cases (ledBit_of_stepTypes h i j).mp hlit with
  | inl hsimple => exact absurd (hcomplex.symm.trans hsimple) (by decide)
  | inr hleft => exact hleft

private theorem not_complex_column (h : HasStepTypes seq) (hshows : ShowsPage seq state)
    (i : Fin 2) : ∀ (n : Nat) (hn : n < 8),
      (stepAt seq state (ledStep i ⟨n, hn⟩)).type ≠ StepType.complex.code := by
  intro n
  -- a lit complex step has a complex step to its left, and column 0 has nothing there
  induction n with
  | zero =>
    intro hn hcomplex
    obtain ⟨k, hk, -⟩ := complex_to_the_left h hshows hcomplex
    exact Nat.succ_ne_zero _ hk
  | succ n ih =>
    intro hn hcomplex
    obtain ⟨k, hk, hleft⟩ := complex_to_the_left h hshows hcomplex
    have hkn : k = ⟨n, by omega⟩ := Fin.ext (Nat.succ_injective hk)
    exact ih (by omega) (hkn ▸ hleft)

theorem showsPage_iff (h : HasStepTypes seq) : ShowsPage seq state ↔ NoComplex seq state := by
  constructor
  · intro hshows k
    obtain ⟨i, j, rfl⟩ := exists_ledStep k
    exact not_complex_column h hshows i j.val j.isLt
  · intro hno k
    obtain ⟨i, j, rfl⟩ := exists_ledStep k
    rw [ledBit_of_stepTypes h]
    constructor
    · intro hlit
      cases hlit with
      | inl hsimple =>
        rw [hsimple]
        decide
      | inr hleft =>
        obtain ⟨k, -, hcomplex⟩ := hleft
        exact absurd hcomplex (hno _)
    · intro hne
      obtain ⟨t, ht⟩ := h.stepAt state (ledStep i j)
      cases t with
      | empty => exact absurd ht hne
      | simple => exact Or.inl ht
      | complex => exact absurd ht (hno _)

end Rendering

section Editing

variable {seq seq' : Sequence} {state : MachineState}

theorem SameButTypes.hasStepTypes (hframe : SameButTypes state seq seq') (h : HasStepTypes seq)
    (hcur : ∀ i, IsStepType (stepAt seq' state i).type) : HasStepTypes seq' := by
  intro q p i
  by_cases hpage : (q, p) = (curSeq state, curPage state)
  · cases hpage
    exact hcur i
  · rw [hframe.otherPage q p hpage]
    exact h q p i

private theorem code_xor_parity (t : StepType) (n : Nat) :
    t.code ^^^ BitVec.ofNat 32 (n % 2) = t.code ∨
      t.code ^^^ BitVec.ofNat 32 (n % 2) = t.code ^^^ 1 := by
  cases Nat.mod_two_eq_zero_or_one n with
  | inl heven => simp [heven]
  | inr hodd => simp [hodd]

/-- A press takes a simple step to an empty one and back, and a complex step to 3, which is
no step type. -/
theorem isStepType_toggled (t : StepType) : IsStepType (t.code ^^^ 1) ↔ t ≠ .complex := by
  cases t with
  | empty => exact ⟨fun _ => StepType.noConfusion, fun _ => ⟨.simple, rfl⟩⟩
  | simple => exact ⟨fun _ => StepType.noConfusion, fun _ => ⟨.empty, rfl⟩⟩
  | complex =>
    constructor
    · intro ⟨t', ht'⟩
      cases t' <;> exact absurd ht' (by decide)
    · intro hne
      exact absurd rfl hne

private theorem toggled_ne_complex {t : StepType} (ht : t ≠ .complex) :
    t.code ^^^ 1 ≠ StepType.complex.code := by
  cases t with
  | empty => decide
  | simple => decide
  | complex => exact absurd rfl ht

theorem NoComplex.toggled (hno : NoComplex seq state) (h : HasStepTypes seq)
    (events : List InputEvents) :
    HasStepTypes (toggleEvents seq state events) ∧
      NoComplex (toggleEvents seq state events) state := by
  have htoggled : ∀ i,
      IsStepType (stepAt (toggleEvents seq state events) state i).type ∧
        (stepAt (toggleEvents seq state events) state i).type ≠ StepType.complex.code := by
    intro i
    obtain ⟨t, ht⟩ := h.stepAt state i
    have hne : t ≠ .complex := fun heq => hno i (ht.trans (congrArg StepType.code heq))
    rw [type_toggleEvents, ht]
    cases code_xor_parity t (pressesOf events i) with
    | inl hsame =>
      rw [hsame]
      exact ⟨⟨t, rfl⟩, StepType.code_injective.ne hne⟩
    | inr hflip =>
      rw [hflip]
      exact ⟨(isStepType_toggled t).mpr hne, toggled_ne_complex hne⟩
  exact ⟨(toggleEvents_frame seq state events).hasStepTypes h fun i => (htoggled i).1,
    fun i => (htoggled i).2⟩

/-- A complex step stays complex as long as the types stay in the enumeration. -/
theorem noComplex_of_toggleEvents {events : List InputEvents}
    (htypes : HasStepTypes (toggleEvents seq state events))
    (hno : NoComplex (toggleEvents seq state events) state) : NoComplex seq state := by
  intro i hcomplex
  have htype := type_toggleEvents seq state events i
  rw [hcomplex] at htype
  cases code_xor_parity .complex (pressesOf events i) with
  | inl hsame => exact hno i (htype.trans hsame)
  | inr hflip =>
    have hstep := htypes.stepAt state i
    rw [htype, hflip] at hstep
    exact (isStepType_toggled .complex).mp hstep rfl

def changeType (seq : Sequence) (state : MachineState) (i : Fin 16) (t : StepType) : Sequence :=
  modifyType seq state i fun _ => t.code

theorem type_changeType (i j : Fin 16) (t : StepType) :
    (stepAt (changeType seq state i t) state j).type =
      if j = i then t.code else (stepAt seq state j).type := by
  rw [changeType, stepAt_modifyType]
  split_ifs <;> rfl

theorem HasStepTypes.changed (h : HasStepTypes seq) (state : MachineState) (i : Fin 16)
    (t : StepType) : HasStepTypes (changeType seq state i t) := by
  have hframe : SameButTypes state seq (changeType seq state i t) := by
    rw [changeType, modifyType_eq]
    exact curTypes_modify_frame seq state _
  apply hframe.hasStepTypes h
  intro j
  rw [type_changeType]
  split_ifs
  · exact ⟨t, rfl⟩
  · exact h.stepAt state j

theorem noComplex_changeType (hno : NoComplex seq state) (i : Fin 16) (t : StepType) :
    NoComplex (changeType seq state i t) state ↔ t ≠ .complex := by
  constructor
  · intro hchanged heq
    apply hchanged i
    rw [type_changeType, if_pos rfl, heq]
  · intro hne j
    rw [type_changeType]
    split_ifs
    · exact StepType.code_injective.ne hne
    · exact hno j

end Editing

theorem hasStepTypes_zero : HasStepTypes Sequence.zero := by
  intro q p i
  have hstep : Sequence.zero[q.val].page[p.val].step[i.val].type = StepType.empty.code := by
    simp [Sequence.zero, StepType.code]
  exact ⟨.empty, hstep⟩

theorem noComplex_zero (state : MachineState) : NoComplex Sequence.zero state := by
  intro i
  rw [stepAt_zero]
  decide

/-- The firmware starts from an empty pattern and stores no complex step, so its LEDs can show
the page in every state it reaches. -/
theorem firmware_showsPage {garbage : InputEvents} {acts : List Act} {fw : Firmware}
    (h : (firmware garbage).exec acts = some fw) :
    HasStepTypes fw.seq.sequence ∧ ShowsPage fw.seq.sequence fw.seq.state := by
  have hinv : HasStepTypes fw.seq.sequence ∧ NoComplex fw.seq.sequence fw.seq.state := by
    refine (firmware garbage).exec_invariant
      (fun _ fw => HasStepTypes fw.seq.sequence ∧ NoComplex fw.seq.sequence fw.seq.state)
      ⟨hasStepTypes_zero, noComplex_zero _⟩ ?_ acts fw h
    intro acts fw act fw' _ ih hstep
    cases act with
    | scan d enc =>
      rw [(step_scan hstep).2.1]
      exact ih
    | seq =>
      obtain ⟨event, -, -, hseq⟩ := step_seq hstep
      rw [hseq]
      exact ih.2.toggled ih.1 [event]
  exact ⟨hinv.1, (showsPage_iff hinv.1).mpr hinv.2⟩

/-- Toggling keeps every type in `StepType`, the LEDs show the page after the events and after
step `i` is given the type `t`, and that changes no LED but the one of step `i`. -/
structure RespectsStepTypes (seq : Sequence) (state : MachineState) (events : List InputEvents)
    (i : Fin 16) (t : StepType) : Prop where
  types : ∀ pre, pre <+: events → HasStepTypes (toggleEvents seq state pre)
  leds : ShowsPage (toggleEvents seq state events) state
  changedLeds : ShowsPage (changeType (toggleEvents seq state events) state i t) state
  otherLeds : ∀ j, j ≠ i →
    ledBit (kbLEDDataSend (changeType (toggleEvents seq state events) state i t) state) j =
      ledBit (kbLEDDataSend (toggleEvents seq state events) state) j

/-- Editing and rendering respect the enumeration exactly on the pages without a complex step,
and there for exactly the changes that put none in. -/
theorem stepTypes_respected_iff (seq : Sequence) (state : MachineState)
    (events : List InputEvents) (i : Fin 16) (t : StepType) (h : HasStepTypes seq) :
    RespectsStepTypes seq state events i t ↔ NoComplex seq state ∧ t ≠ .complex := by
  constructor
  · intro hrespects
    have htypes := hrespects.types events (List.prefix_refl _)
    have hno := (showsPage_iff htypes).mp hrespects.leds
    have hchanged := (showsPage_iff (htypes.changed state i t)).mp hrespects.changedLeds
    exact ⟨noComplex_of_toggleEvents htypes hno, (noComplex_changeType hno i t).mp hchanged⟩
  · intro ⟨hno, hne⟩
    obtain ⟨htypes, hafter⟩ := hno.toggled h events
    have hleds := (showsPage_iff htypes).mpr hafter
    have hchanged := (showsPage_iff (htypes.changed state i t)).mpr
      ((noComplex_changeType hafter i t).mpr hne)
    refine ⟨fun pre _ => (hno.toggled h pre).1, hleds, hchanged, ?_⟩
    intro j hj
    rw [Bool.eq_iff_iff, hleds j, hchanged j, type_changeType, if_neg hj]

theorem stepTypes_respected_simple :
    RespectsStepTypes (changeType Sequence.zero MachineState.zero 8 .simple) MachineState.zero
      [rowEvent 0x101, rowEvent 0x80] 0 .empty := by
  apply (stepTypes_respected_iff _ _ _ _ _ (hasStepTypes_zero.changed _ 8 .simple)).mpr
  exact ⟨(noComplex_changeType (noComplex_zero _) 8 .simple).mpr StepType.noConfusion,
    StepType.noConfusion⟩

/-- All steps are empty but step `i` of the first page. -/
def loneComplex (i : Fin 16) : Sequence :=
  changeType Sequence.zero MachineState.zero i .complex

/-- With step 1 complex and all others empty the LED of step 2 is lit instead of that of
step 1, and a press of key 1 stores a type of 3. -/
theorem complex_step_leaves_enum :
    HasStepTypes (loneComplex 0) ∧
      kbLEDDataSend (loneComplex 0) MachineState.zero = #v[0, 2, 0] ∧
      (stepAt (toggleEvents (loneComplex 0) MachineState.zero [rowEvent 1])
        MachineState.zero 0).type = 3 ∧
      ¬RespectsStepTypes (loneComplex 0) MachineState.zero [rowEvent 1] 1 .simple := by
  have htype : (stepAt (toggleEvents (loneComplex 0) MachineState.zero [rowEvent 1])
      MachineState.zero 0).type = 3 := by decide +kernel
  refine ⟨hasStepTypes_zero.changed _ 0 .complex, by decide +kernel, htype, ?_⟩
  intro h
  have hstep := (h.types _ (List.prefix_refl _)).stepAt MachineState.zero 0
  rw [htype] at hstep
  exact (isStepType_toggled .complex).mp hstep rfl

end DrumMachine
