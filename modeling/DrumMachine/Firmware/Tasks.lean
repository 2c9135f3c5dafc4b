import DrumMachine.Firmware.Sequencer
import DrumMachine.Firmware.ScanStream
import DrumMachine.Framework.Fifo
import DrumMachine.Framework.Machine

/-!
# The two tasks

One iteration of `inputTaskEntry` and one of `seqTaskEntry`, the machine in which they take
turns in any order over the message queue `input_event_mq`, and the synchronous run in which
every event is consumed before the next scan.
-/

namespace DrumMachine

open Framework

/-- What one call of `encUpdate` returns and writes; `none` leaves the field alone. The
button events are not its to write. -/
structure EncReport where
  flag : BitVec 8
  encButton : Option (BitVec 8)
  encRotation : Option (BitVec 32)
deriving DecidableEq

def EncReport.stub : EncReport := ⟨0, none, none⟩

def encUpdate (enc : EncReport) (e : InputEvents) : BitVec 8 × InputEvents :=
  (enc.flag, { e with
    encButton := enc.encButton.getD e.encButton
    encRotation := enc.encRotation.getD e.encRotation })

/-- The body of the loop of `inputTaskEntry` after the transfer: the message it sends, if
any, and the statics it leaves. The encoder is asked only if the keyboard has no update. -/
def inputTaskIter (buttonData : Chain) (enc : EncReport) (s : InputState) :
    Option InputEvents × InputState :=
  let parsed := kbParseButtons buttonData s
  if parsed.1 ≠ 0 then (some parsed.2.inputEvents, parsed.2)
  else
    let asked := encUpdate enc parsed.2.inputEvents
    (if asked.1 ≠ 0 then some asked.2 else none, { parsed.2 with inputEvents := asked.2 })

/-- The locals and the static of `seqTaskEntry`, with the global `kb_led_data` that only it
writes. -/
structure SeqState where
  inputEvents : InputEvents
  sequence : Sequence
  state : MachineState
  kbLedData : Chain
deriving DecidableEq

/-- Before the first iteration; the local `input_events` is not initialised. -/
def SeqState.start (garbage : InputEvents) (state : MachineState) : SeqState :=
  ⟨garbage, Sequence.zero, state, Chain.zero⟩

/-- `seqInputQueueGet`: a receive that fails is printed and leaves the buffer as it was. -/
def seqInputQueueGet (received : Option InputEvents) (inputEvents : InputEvents) :
    InputEvents :=
  received.getD inputEvents

def seqTaskIter (received : Option InputEvents) (s : SeqState) : SeqState :=
  let inputEvents := seqInputQueueGet received s.inputEvents
  let sequence := seqStepToggle s.sequence inputEvents s.state
  { s with inputEvents, sequence, kbLedData := kbLEDDataSend sequence s.state }

/-- The whole firmware between iterations; `rt_mq_create` makes room for 8 messages. -/
structure Firmware where
  input : InputState
  inputEventMq : Fifo InputEvents 8
  seq : SeqState

/-- `inputQueueSend`: `rt_mq_send` fails on a full queue, which is only printed. -/
def inputQueueSend (mq : Fifo InputEvents 8) (e : InputEvents) : Fifo InputEvents 8 :=
  (mq.push e).getD mq

inductive Act
  | scan (buttonData : Chain) (enc : EncReport)
  | seq
deriving DecidableEq

def Firmware.step (fw : Firmware) : Act → Option Firmware
  | .scan buttonData enc =>
      let sent := inputTaskIter buttonData enc fw.input
      some { fw with
        input := sent.2
        inputEventMq := sent.1.elim fw.inputEventMq (inputQueueSend fw.inputEventMq) }
  | .seq =>
      fw.inputEventMq.pop.map fun received =>
        { fw with inputEventMq := received.2, seq := seqTaskIter (some received.1) fw.seq }

def firmware (garbage : InputEvents) : Machine Firmware Act where
  init := ⟨InputState.zero, Fifo.empty, SeqState.start garbage MachineState.zero⟩
  step := Firmware.step

def scansOf (acts : List Act) : List Chain :=
  acts.filterMap fun
    | .scan buttonData _ => some buttonData
    | .seq => none

def sending (fw : Firmware) : Act → Option InputEvents
  | .scan buttonData enc => (inputTaskIter buttonData enc fw.input).1
  | .seq => none

def enqueued (fw : Firmware) (act : Act) : Option InputEvents :=
  if fw.inputEventMq.Full then none else sending fw act

def UsesStub : Act → Prop
  | .scan _ enc => enc = .stub
  | .seq => True

instance : DecidablePred UsesStub
  | .scan _ enc => inferInstanceAs (Decidable (enc = .stub))
  | .seq => inferInstanceAs (Decidable True)

def FindsSlot (fw : Firmware) (act : Act) : Prop :=
  sending fw act ≠ none → ¬fw.inputEventMq.Full

instance (fw : Firmware) (act : Act) : Decidable (FindsSlot fw act) :=
  inferInstanceAs (Decidable (sending fw act ≠ none → ¬fw.inputEventMq.Full))

theorem scansOf_append (acts acts' : List Act) :
    scansOf (acts ++ acts') = scansOf acts ++ scansOf acts' :=
  List.filterMap_append

theorem scansOf_concat_scan (acts : List Act) (d : Chain) (enc : EncReport) :
    scansOf (acts ++ [.scan d enc]) = scansOf acts ++ [d] :=
  scansOf_append acts [.scan d enc]

theorem scansOf_concat_seq (acts : List Act) : scansOf (acts ++ [.seq]) = scansOf acts := by
  rw [scansOf_append]
  exact List.append_nil _

theorem inputTaskIter_stub (d : Chain) (s : InputState) :
    inputTaskIter d .stub s = (scanEvent d s, (kbParseButtons d s).2) := by
  by_cases h : (kbParseButtons d s).1 = 0
  · simp [inputTaskIter, scanEvent, h, encUpdate, EncReport.stub]
  · simp only [inputTaskIter, scanEvent, ne_eq, h, not_false_eq_true, ↓reduceIte]

theorem inputTaskIter_message {d : Chain} {enc : EncReport} {s : InputState}
    {event : InputEvents} (h : (inputTaskIter d enc s).1 = some event) :
    event = (inputTaskIter d enc s).2.inputEvents := by
  simp only [inputTaskIter] at h ⊢
  split_ifs at h ⊢ <;> cases h <;> rfl

theorem inputTaskIter_prev (d : Chain) (enc : EncReport) (s : InputState) :
    (inputTaskIter d enc s).2.buttonDataPrev = (kbParseButtons d s).2.buttonDataPrev := by
  simp only [inputTaskIter]
  split_ifs <;> rfl

theorem inputQueueSend_full {mq : Fifo InputEvents 8} (h : mq.Full) (e : InputEvents) :
    inputQueueSend mq e = mq := by
  rw [inputQueueSend, (mq.push_eq_none_iff e).mpr h]
  rfl

theorem inputQueueSend_items {mq : Fifo InputEvents 8} (h : ¬mq.Full) (e : InputEvents) :
    (inputQueueSend mq e).items = mq.items ++ [e] := by
  obtain ⟨q, hq, hitems⟩ := mq.push_of_not_full e h
  rw [inputQueueSend, hq]
  exact hitems

theorem step_scan {fw fw' : Firmware} {d : Chain} {enc : EncReport}
    (h : fw.step (.scan d enc) = some fw') :
    fw'.input = (inputTaskIter d enc fw.input).2 ∧ fw'.seq = fw.seq ∧
      fw'.inputEventMq.items =
        fw.inputEventMq.items ++ (enqueued fw (.scan d enc)).toList := by
  cases h
  refine ⟨rfl, rfl, ?_⟩
  simp only [enqueued, sending]
  cases hm : (inputTaskIter d enc fw.input).1 with
  | none =>
    rw [Option.elim_none, ite_self]
    exact (List.append_nil _).symm
  | some e =>
    rw [Option.elim_some]
    by_cases hfull : fw.inputEventMq.Full
    · rw [inputQueueSend_full hfull, if_pos hfull]
      exact (List.append_nil _).symm
    · rw [inputQueueSend_items hfull, if_neg hfull]
      rfl

theorem step_seq {fw fw' : Firmware} (h : fw.step .seq = some fw') :
    ∃ e, fw.inputEventMq.items = e :: fw'.inputEventMq.items ∧ fw'.input = fw.input ∧
      fw'.seq = seqTaskIter (some e) fw.seq := by
  rw [Firmware.step, Option.map_eq_some_iff] at h
  obtain ⟨⟨e, mq⟩, hpop, rfl⟩ := h
  exact ⟨e, Fifo.pop_eq_some hpop, rfl, rfl⟩

theorem enqueued_of_findsSlot {fw : Firmware} {act : Act} (h : FindsSlot fw act) :
    enqueued fw act = sending fw act := by
  rw [enqueued, ite_eq_right_iff]
  intro hfull
  by_contra hsend
  exact h (Ne.symm hsend) hfull

theorem firmware_row {garbage : InputEvents} {acts : List Act} {fw : Firmware}
    (h : (firmware garbage).exec acts = some fw) :
    mainRow fw.input.buttonDataPrev = mainRow (lastScan (scansOf acts)) := by
  refine (firmware garbage).exec_invariant
    (fun acts fw => mainRow fw.input.buttonDataPrev = mainRow (lastScan (scansOf acts)))
    rfl ?_ acts fw h
  intro acts fw act fw' _ ih hstep
  cases act with
  | scan d enc =>
    rw [(step_scan hstep).1, inputTaskIter_prev, kbParseButtons_row, scansOf_concat_scan,
      lastScan_concat]
  | seq =>
    obtain ⟨e, -, hinput, -⟩ := step_seq hstep
    rw [hinput, scansOf_concat_seq, ih]

section Synchronous

structure SyncState where
  input : InputState
  seq : SeqState
deriving DecidableEq

def syncScan (s : SyncState) (d : Chain) : SyncState :=
  ⟨(kbParseButtons d s.input).2,
    (scanEvent d s.input).elim s.seq fun event => seqTaskIter (some event) s.seq⟩

def syncRun (s : SyncState) (scans : List Chain) : SyncState := scans.foldl syncScan s

theorem syncRun_concat (s : SyncState) (scans : List Chain) (d : Chain) :
    syncRun s (scans ++ [d]) = syncScan (syncRun s scans) d := by
  rw [syncRun, List.foldl_append]
  rfl

theorem syncRun_input (s : SyncState) (scans : List Chain) :
    (syncRun s scans).input = scanState s.input scans := by
  induction scans using List.reverseRecOn with
  | nil => rfl
  | append_singleton scans d ih => rw [syncRun_concat, scanState_concat, syncScan, ih]

theorem syncScan_same {s : SyncState} {d : Chain}
    (h : mainRow d = mainRow s.input.buttonDataPrev) : syncScan s d = s := by
  rw [syncScan, scanEvent_same h, kbParseButtons_same h]
  rfl

theorem step_scan_available (fw : Firmware) (d : Chain) (enc : EncReport) :
    ∃ fw', fw.step (.scan d enc) = some fw' :=
  ⟨_, rfl⟩

theorem step_seq_available {fw : Firmware} (h : fw.inputEventMq.items ≠ []) :
    ∃ fw', fw.step .seq = some fw' := by
  obtain ⟨received, hpop⟩ :=
    Option.ne_none_iff_exists'.mp (mt fw.inputEventMq.pop_eq_none_iff.mp h)
  exact ⟨_, by rw [Firmware.step, hpop]; rfl⟩

private theorem syncScan_firmware {garbage : InputEvents} {fw : Firmware}
    (hempty : fw.inputEventMq.items = []) (d : Chain) :
    ∃ acts fw', (firmware garbage).execFrom fw (.scan d .stub :: acts) = some fw' ∧
      scansOf acts = [] ∧ fw'.inputEventMq.items = [] ∧
      syncScan ⟨fw.input, fw.seq⟩ d = ⟨fw'.input, fw'.seq⟩ := by
  obtain ⟨fw₁, h₁⟩ := step_scan_available fw d .stub
  obtain ⟨hinput, hseq, hitems⟩ := step_scan h₁
  have hroom := Fifo.not_full_of_empty hempty (by decide)
  have hsent : enqueued fw (.scan d .stub) = scanEvent d fw.input := by
    rw [enqueued, if_neg hroom, sending, inputTaskIter_stub]
  rw [inputTaskIter_stub] at hinput
  rw [hempty, hsent] at hitems
  have hexec : ∀ acts, (firmware garbage).execFrom fw (.scan d .stub :: acts) =
      (firmware garbage).execFrom fw₁ acts :=
    (firmware garbage).execFrom_cons_of_step h₁
  cases hevent : scanEvent d fw.input with
  | none =>
    refine ⟨[], fw₁, hexec [], rfl, ?_, ?_⟩
    · rw [hitems, hevent]
      rfl
    · rw [syncScan, hevent, hinput, hseq]
      rfl
  | some event =>
    rw [hevent] at hitems
    obtain ⟨fw₂, h₂⟩ := step_seq_available (by rw [hitems]; exact List.cons_ne_nil _ _)
    obtain ⟨e, hpopped, hinput', hseq'⟩ := step_seq h₂
    rw [hitems] at hpopped
    obtain ⟨rfl, hdrained⟩ := List.cons.inj hpopped
    refine ⟨[.seq], fw₂, ?_, rfl, hdrained.symm, ?_⟩
    · have hstep : (firmware garbage).step fw₁ .seq = some fw₂ := h₂
      rw [hexec, (firmware garbage).execFrom_singleton hstep]
    · rw [syncScan, hevent, hinput', hinput, hseq', hseq]
      rfl

/-- A synchronous run is a run of the firmware in which the sequencer always drains the
queue before the next scan. -/
theorem syncRun_firmware (garbage : InputEvents) (scans : List Chain) :
    ∃ acts fw, (firmware garbage).exec acts = some fw ∧ scansOf acts = scans ∧
      fw.inputEventMq.items = [] ∧
      syncRun ⟨InputState.zero, SeqState.start garbage MachineState.zero⟩ scans =
        ⟨fw.input, fw.seq⟩ := by
  induction scans using List.reverseRecOn with
  | nil => exact ⟨[], _, rfl, rfl, rfl, rfl⟩
  | append_singleton scans d ih =>
    obtain ⟨acts, fw, hexec, hscans, hempty, hrun⟩ := ih
    obtain ⟨more, fw', hmore, hquiet, hempty', hscan⟩ :=
      syncScan_firmware hempty d
    refine ⟨acts ++ .scan d .stub :: more, fw', ?_, ?_, hempty', ?_⟩
    · exact (Machine.exec_append_eq_some _).mpr ⟨fw, hexec, hmore⟩
    · rw [scansOf, List.filterMap_append, ← scansOf, hscans]
      change scans ++ d :: scansOf more = scans ++ [d]
      rw [hquiet]
    · rw [syncRun_concat, hrun, hscan]

end Synchronous

end DrumMachine
