import DrumMachine.Firmware.Tasks
import DrumMachine.Framework.Positions

/-!
# Stale key edges

The static buffer of `inputTaskEntry` is cleared only when the main row changed, so a message
sent for the encoder alone carries the edges of an earlier scan. The runs without such a
message are determined exactly, for every encoder.
-/

namespace DrumMachine

open Framework

/-- The message of scan `d` carries the edges from the scan before to `d`, and flips no step
if there are none. -/
structure OwnEdges (scans : List Chain) (d : Chain) (event : InputEvents) : Prop where
  pressed : event.buttonEvents.justPressed.mainRow = mainRow d &&& ~~~mainRow (lastScan scans)
  released : event.buttonEvents.justReleased.mainRow = mainRow (lastScan scans) &&& ~~~mainRow d
  idle : mainRow d = mainRow (lastScan scans) →
    event.buttonEvents.justPressed.mainRow = 0 ∧ event.buttonEvents.justReleased.mainRow = 0 ∧
      ∀ seq state, seqStepToggle seq event state = seq

def EventsFresh (garbage : InputEvents) (acts : List Act) : Prop :=
  AtEach (fun before act => ∀ d enc fw event, act = .scan d enc →
    (firmware garbage).exec before = some fw → enqueued fw act = some event →
      OwnEdges (scansOf before) d event) acts

/-- Whenever the encoder alone has a message sent, no key has been down before. -/
def EncoderSendsFirst (garbage : InputEvents) (acts : List Act) : Prop :=
  AtEach (fun before act => ∀ d enc fw, act = .scan d enc →
    (firmware garbage).exec before = some fw → ¬fw.inputEventMq.Full → enc.flag ≠ 0 →
      mainRow d = mainRow (lastScan (scansOf before)) →
        ∀ e ∈ scansOf before, mainRow e = 0) acts

theorem inputTaskIter_buttonEvents (d : Chain) (enc : EncReport) (s : InputState) :
    (inputTaskIter d enc s).2.inputEvents.buttonEvents =
      (kbParseButtons d s).2.inputEvents.buttonEvents := by
  simp only [inputTaskIter]
  split_ifs <;> rfl

theorem inputTaskIter_same {d : Chain} {s : InputState} (enc : EncReport)
    (h : mainRow d = mainRow s.buttonDataPrev) :
    (inputTaskIter d enc s).1 =
      if enc.flag ≠ 0 then some (encUpdate enc s.inputEvents).2 else none := by
  simp only [inputTaskIter, kbParseButtons_same h, encUpdate, ne_eq, not_true_eq_false,
    ↓reduceIte]

theorem buttonEvents_changed {d : Chain} {s : InputState}
    (h : mainRow d ≠ mainRow s.buttonDataPrev) :
    (kbParseButtons d s).2.inputEvents.buttonEvents = splitEvents d s.buttonDataPrev := by
  rw [kbParseButtons_changed h]

def ButtonEvents.Blank (e : ButtonEvents) : Prop :=
  e.justPressed.mainRow = 0 ∧ e.justReleased.mainRow = 0

theorem splitEvents_not_blank {d p : Chain} (h : mainRow d ≠ mainRow p) :
    ¬(splitEvents d p).Blank := by
  intro ⟨hpressed, hreleased⟩
  have hrise : bits (mainRow d &&& ~~~mainRow p) = ⊥ := (congrArg bits hpressed).trans bits_zero
  have hfall : bits (mainRow p &&& ~~~mainRow d) = ⊥ := (congrArg bits hreleased).trans bits_zero
  rw [bits_and_not] at hrise hfall
  exact h (bits_injective (eq_of_no_edge hrise hfall))

theorem lastScan_row_zero {scans : List Chain} (h : ∀ e ∈ scans, mainRow e = 0) :
    mainRow (lastScan scans) = 0 := by
  induction scans using List.reverseRecOn with
  | nil => rfl
  | append_singleton scans d _ =>
    rw [lastScan_concat]
    exact h d (List.mem_append_right _ (List.mem_singleton_self d))

/-- The buffer holds no edge exactly as long as no key has been down. -/
theorem buffer_blank_iff {garbage : InputEvents} {acts : List Act} {fw : Firmware}
    (h : (firmware garbage).exec acts = some fw) :
    fw.input.inputEvents.buttonEvents.Blank ↔ ∀ e ∈ scansOf acts, mainRow e = 0 := by
  refine (firmware garbage).exec_invariant
    (fun acts fw => fw.input.inputEvents.buttonEvents.Blank ↔ ∀ e ∈ scansOf acts, mainRow e = 0)
    ?_ ?_ acts fw h
  · exact iff_of_true ⟨rfl, rfl⟩ (fun e he => by cases he)
  · intro acts fw act fw' hexec ih hstep
    cases act with
    | seq =>
      obtain ⟨e, -, hinput, -⟩ := step_seq hstep
      rw [hinput, scansOf_concat_seq]
      exact ih
    | scan d enc =>
      have hrow := firmware_row hexec
      have hall : (∀ e ∈ scansOf acts ++ [d], mainRow e = 0) ↔
          (∀ e ∈ scansOf acts, mainRow e = 0) ∧ mainRow d = 0 := by
        simp [or_imp, forall_and]
      rw [(step_scan hstep).1, inputTaskIter_buttonEvents, scansOf_concat_scan, hall]
      by_cases hsame : mainRow d = mainRow fw.input.buttonDataPrev
      · rw [kbParseButtons_same hsame, ih, iff_self_and]
        intro hzero
        rw [hsame, hrow, lastScan_row_zero hzero]
      · rw [buttonEvents_changed hsame]
        -- of two different rows one has a key down
        refine iff_of_false (splitEvents_not_blank hsame) ?_
        intro ⟨hzero, hd⟩
        exact hsame (by rw [hd, hrow, lastScan_row_zero hzero])

private theorem ownEdges_of_changed {scans : List Chain} {d p : Chain} {event : InputEvents}
    (hrow : mainRow p = mainRow (lastScan scans)) (hchanged : mainRow d ≠ mainRow p)
    (h : event.buttonEvents = splitEvents d p) : OwnEdges scans d event := by
  refine ⟨?_, ?_, ?_⟩
  · rw [h, ← hrow]
    rfl
  · rw [h, ← hrow]
    rfl
  · intro hsame
    exact absurd (hsame.trans hrow.symm) hchanged

private theorem ownEdges_iff_blank {scans : List Chain} {d : Chain} {event : InputEvents}
    (hsame : mainRow d = mainRow (lastScan scans)) :
    OwnEdges scans d event ↔ event.buttonEvents.Blank := by
  constructor
  · intro h
    exact ⟨(h.idle hsame).1, (h.idle hsame).2.1⟩
  · intro ⟨hpressed, hreleased⟩
    refine ⟨?_, ?_, ?_⟩
    · rw [hpressed, hsame, BitVec.and_not_self]
    · rw [hreleased, hsame, BitVec.and_not_self]
    · intro _
      exact ⟨hpressed, hreleased, fun seq state => seqStepToggle_no_press seq event state hpressed⟩

/-- For every encoder and in every interleaving, the messages carry the edges of their own
scans exactly when no message is sent for the encoder alone after a key has been down. -/
theorem events_fresh_iff (garbage : InputEvents) (acts : List Act) :
    EventsFresh garbage acts ↔ EncoderSendsFirst garbage acts := by
  apply atEach_congr
  rintro before act - -
  constructor
  · rintro h d enc fw rfl hexec hroom hflag hsame
    have hrow := firmware_row hexec
    have hevent : enqueued fw (.scan d enc) = some (encUpdate enc fw.input.inputEvents).2 := by
      rw [enqueued, if_neg hroom, sending, inputTaskIter_same enc (hsame.trans hrow.symm),
        if_pos hflag]
    have hown := h d enc fw _ rfl hexec hevent
    have hblank : (encUpdate enc fw.input.inputEvents).2.buttonEvents.Blank :=
      (ownEdges_iff_blank hsame).mp hown
    exact (buffer_blank_iff hexec).mp hblank
  · rintro h d enc fw event rfl hexec hevent
    have hrow := firmware_row hexec
    rw [enqueued, Option.ite_none_left_eq_some] at hevent
    obtain ⟨hroom, hsent⟩ := hevent
    by_cases hsame : mainRow d = mainRow fw.input.buttonDataPrev
    · rw [sending, inputTaskIter_same enc hsame, Option.ite_none_right_eq_some] at hsent
      obtain ⟨hflag, hcopy⟩ := hsent
      cases hcopy
      rw [ownEdges_iff_blank (hsame.trans hrow)]
      exact (buffer_blank_iff hexec).mpr (h d enc fw rfl hexec hroom hflag (hsame.trans hrow))
    · apply ownEdges_of_changed hrow hsame
      rw [inputTaskIter_message hsent, inputTaskIter_buttonEvents, buttonEvents_changed hsame]

def firstPress : InputEvents := { InputEvents.zero with
  buttonEvents := { ButtonEvents.cleared with isHeld := ⟨1, 0⟩, justPressed := ⟨1, 0⟩ } }

def afterPress : Firmware :=
  ⟨⟨keyOneScan, firstPress⟩, ⟨[firstPress], by decide⟩,
    SeqState.start InputEvents.zero MachineState.zero⟩

/-- Key 1 goes down and stays, and at the second scan the encoder was turned: the message
sent for the encoder presses key 1 again. -/
theorem encoder_sends_stale_press : ¬EventsFresh InputEvents.zero
    [.scan #v[0, 1, 0] .stub, .scan #v[0, 1, 0] ⟨1, none, some 1⟩] := by
  intro h
  have hrun : (firmware InputEvents.zero).exec [.scan #v[0, 1, 0] .stub] = some afterPress := rfl
  have hsent : enqueued afterPress (.scan #v[0, 1, 0] ⟨1, none, some 1⟩) =
    some { firstPress with encRotation := 1 } := rfl
  have hown := h [.scan #v[0, 1, 0] .stub] _ [] rfl _ _ afterPress _ rfl hrun hsent
  have hpressed : (1 : BitVec 16) = 0 := (hown.idle rfl).1
  revert hpressed
  decide

end DrumMachine
