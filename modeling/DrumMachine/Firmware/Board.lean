import DrumMachine.Firmware.Preemption
import DrumMachine.Kernel.Scheduler
import Mathlib.Data.Fintype.Sum

/-!
# The firmware on its kernel

`main`, the two tasks and the idle thread run on the scheduler, and the tasks exchange their
messages through the nodes of the kernel's message queue. A thread takes a step only while it
is the current one, and every call of `rt_schedule` is a step of its own, so that interrupts
come between any two steps. Any number of other threads, such as the shell, share the
processor.
-/

namespace DrumMachine

open Framework

/-- How the compiler lays `struct InputEvents` out in `sizeof(struct InputEvents)` bytes. -/
structure MessageLayout where
  size : Nat
  encode : InputEvents → List (BitVec 8)
  decode : List (BitVec 8) → InputEvents
  length_encode : ∀ e, (encode e).length = size
  decode_encode : ∀ e, decode (encode e) = e
  positive : 0 < size
  small : size ≤ 65532

def ButtonData.bytes (d : ButtonData) : List (BitVec 8) :=
  [d.mainRow.extractLsb' 0 8, d.mainRow.extractLsb' 8 8, d.function, 0#8]

/-- Words with the low byte first, aligned to their size. -/
def ilp32Layout : MessageLayout where
  size := 20
  encode e :=
    e.buttonEvents.isHeld.bytes ++ e.buttonEvents.justPressed.bytes ++
      e.buttonEvents.justReleased.bytes ++ [e.encButton, 0#8, 0#8, 0#8] ++
      [e.encRotation.extractLsb' 0 8, e.encRotation.extractLsb' 8 8,
        e.encRotation.extractLsb' 16 8, e.encRotation.extractLsb' 24 8]
  decode
    | [h0, h1, h, _, p0, p1, p, _, r0, r1, r, _, b, _, _, _, e0, e1, e2, e3] =>
        ⟨⟨⟨h1 ++ h0, h⟩, ⟨p1 ++ p0, p⟩, ⟨r1 ++ r0, r⟩⟩, b, e3 ++ e2 ++ e1 ++ e0⟩
    | _ => InputEvents.zero
  length_encode _ := rfl
  decode_encode := by
    have hrow : ∀ row : BitVec 16, row.extractLsb' 8 8 ++ row.extractLsb' 0 8 = row := by
      intro row
      ext i hi
      simp only [BitVec.getElem_append, BitVec.getElem_extractLsb']
      split <;> grind
    have hword : ∀ word : BitVec 32, word.extractLsb' 24 8 ++ word.extractLsb' 16 8 ++
        word.extractLsb' 8 8 ++ word.extractLsb' 0 8 = word := by
      intro word
      ext i hi
      simp only [BitVec.getElem_append, BitVec.getElem_extractLsb']
      split_ifs <;> grind
    intro e
    simp only [ButtonData.bytes, List.cons_append, List.nil_append, hrow, hword]
  positive := by decide
  small := by decide

inductive BoardTask
  | main
  | input
  | seq
  | idle
deriving DecidableEq

instance : Fintype BoardTask := ⟨{.main, .input, .seq, .idle}, by intro t; cases t <;> decide⟩

/-- `RT_MAIN_THREAD_PRIORITY`, the priorities of the two tasks, and the lowest one. -/
def BoardTask.priority : BoardTask → Nat
  | .main => 5
  | .input => threadPriority .input
  | .seq => threadPriority .seq
  | .idle => rtThreadPriorityMax - 1

theorem BoardTask.priority_lt (t : BoardTask) : t.priority < rtThreadPriorityMax := by
  cases t <;> decide

def BoardTask.tick : BoardTask → BitVec 32
  | .main => 20#32
  | .input => 10#32
  | .seq => 10#32
  | .idle => 32#32

abbrev BoardThread (ι : Type) := BoardTask ⊕ ι

/-- The two lists of suspended threads of `input_event_mq`, and any other objects. -/
inductive BoardObject (ω : Type)
  | receivers
  | senders
  | other (o : ω)
deriving DecidableEq

def boardThreads {ι : Type} (others : ThreadTable ι) : ThreadTable (BoardThread ι) where
  priority := Sum.elim BoardTask.priority others.priority
  tick := Sum.elim BoardTask.tick others.tick
  bounded := by
    intro t
    cases t with
    | inl t => exact t.priority_lt
    | inr i => exact others.bounded i

def rtTickPerSecond : Nat := 1000

def inputTaskFreq : Nat := 100

/-- For a number of milliseconds that is not negative. -/
def rtTickFromMillisecond (ms : Nat) : BitVec 32 :=
  BitVec.ofNat 32 (rtTickPerSecond * (ms / 1000) + (rtTickPerSecond * (ms % 1000) + 999) / 1000)

def inputTaskDelay : BitVec 32 := rtTickFromMillisecond (1000 / inputTaskFreq)

inductive MainPc
  | startInput
  | startSeq
  | blink
  | delayed
deriving DecidableEq

/-- `work .send` is the call of `rt_mq_send`; `sent` and `delayed` are the calls of
`rt_schedule` at the end of `rt_mq_send_wait` and in `rt_thread_delay_until`. -/
inductive InputPoint
  | start
  | work (pc : InputPc)
  | sending
  | sent
  | delay
  | delayed
deriving DecidableEq

/-- `work .recv` is the call of `rt_mq_recv`, whose calls of `rt_schedule` are `suspended` and
`received`. -/
inductive SeqPoint
  | work (pc : SeqPc)
  | receiving
  | suspended
  | received
deriving DecidableEq

structure Board (ι ω : Type) where
  mainPc : MainPc
  inputPoint : InputPoint
  ledData : Chain
  buttonData : Chain
  input : InputState
  tick : BitVec 32
  seqPoint : SeqPoint
  seq : SeqState
  queue : MqSystem (BoardThread ι) (BitVec 8)
  sched : Scheduler (BoardThread ι) (BoardObject ω)
  rtTick : BitVec 32

variable {ι ω : Type} [DecidableEq ι] [DecidableEq ω] [Fintype ι]

namespace Board

variable (layout : MessageLayout) (b : Board ι ω)

/-- A critical section of the current thread on `input_event_mq`, created with
`RT_IPC_FLAG_PRIO`. -/
def onQueue (act : MqAct (BoardThread ι) (BitVec 8)) :
    Option (MqSystem (BoardThread ι) (BitVec 8)) :=
  b.queue.step .prio b.sched.priority act

def onSched (act : SchedAct (BoardThread ι) (BoardObject ω)) :
    Option (Scheduler (BoardThread ι) (BoardObject ω)) :=
  b.sched.step act

def mainStep : Option (Board ι ω) :=
  match b.mainPc with
  | .startInput =>
      (b.onSched (.startup (.inl .input))).map fun sched => { b with sched, mainPc := .startSeq }
  | .startSeq =>
      (b.onSched (.startup (.inl .seq))).map fun sched => { b with sched, mainPc := .blink }
  | .blink => (b.onSched .sleep).map fun sched => { b with sched, mainPc := .delayed }
  | .delayed => (b.onSched .schedule).map fun sched => { b with sched, mainPc := .blink }

/-- `rt_mq_send` without a timeout. A send that fails is only printed. -/
def sendStep : Option (Board ι ω) :=
  match b.queue.phase (.inl .input) with
  | .sending _ _ _ => (b.onQueue (.look (.inl .input) 0)).map fun queue => { b with queue }
  | .filling _ _ _ => (b.onQueue (.copy (.inl .input))).map fun queue => { b with queue }
  | .linking _ _ _ => do
      let queue ← b.onQueue (.finish (.inl .input))
      if b.queue.suspendThread = [] then some { b with queue }
      else
        let sched ← b.onSched (.wake .receivers)
        some { b with queue, sched, inputPoint := .sent }
  | .returned _ => some { b with inputPoint := .delay }
  | _ => none

/-- `rt_thread_delay_until` up to its call of `rt_schedule`. -/
def delayUntil : Option (Board ι ω) :=
  if b.rtTick - b.tick < inputTaskDelay then
    (b.onSched .sleep).map fun sched =>
      { b with sched, tick := b.tick + inputTaskDelay, inputPoint := .delayed }
  else some { b with tick := b.rtTick, inputPoint := .work InputPc.first }

def inputStep (x : Exchange) (enc : EncReport) : Option (Board ι ω) :=
  match b.inputPoint with
  | .start => some { b with tick := b.rtTick, inputPoint := .work InputPc.first }
  | .work (.get i) =>
      some { b with
        ledData := b.ledData.setByte i (b.seq.kbLedData.byte i)
        inputPoint := .work (nextIteration i .get .transfer) }
  | .work .transfer =>
      some { b with
        buttonData := kbTransferData x b.ledData b.buttonData
        inputPoint := .work .parse }
  | .work .parse =>
      let parsed := inputTaskIter b.buttonData enc b.input
      some { b with
        input := parsed.2
        inputPoint := if parsed.1.isSome then .work .send else .delay }
  | .work .send =>
      (b.onQueue (.call (.inl .input) (.sendWait (layout.encode b.input.inputEvents) 0))).map
        fun queue => { b with queue, inputPoint := .sending }
  | .sending => b.sendStep
  | .sent => (b.onSched .schedule).map fun sched => { b with sched, inputPoint := .delay }
  | .delay => b.delayUntil
  | .delayed =>
      (b.onSched .schedule).map fun sched => { b with sched, inputPoint := .work InputPc.first }

/-- The first critical section of `rt_mq_recv`, in which the sequencer may be suspended. -/
def recvLook : Option (Board ι ω) := do
  let queue ← b.onQueue (.look (.inl .seq) 0)
  match queue.phase (.inl .seq) with
  | .suspendedRecv _ timeout =>
      let sched ← b.onSched (.block .receivers .prio (decide (timeout > 0)))
      some { b with queue, sched, seqPoint := .suspended }
  | _ => some { b with queue }

/-- `rt_mq_recv` without a limit, which copies the message into `input_events`. -/
def recvStep : Option (Board ι ω) :=
  match b.queue.phase (.inl .seq) with
  | .receiving _ _ _ => b.recvLook
  | .copying _ _ => do
      let queue ← b.onQueue (.copy (.inl .seq))
      match queue.phase (.inl .seq) with
      | .releasing _ data =>
          some { b with
            queue
            seq := { b.seq with
              inputEvents := seqInputQueueGet (some (layout.decode data)) b.seq.inputEvents } }
      | _ => none
  | .releasing _ _ => do
      let queue ← b.onQueue (.finish (.inl .seq))
      if b.queue.suspendSenderThread = [] then some { b with queue }
      else
        let sched ← b.onSched (.wake .senders)
        some { b with queue, sched, seqPoint := .received }
  | .returned _ => some { b with seqPoint := .work SeqPc.firstToggle }
  | _ => none

def seqStep : Option (Board ι ω) :=
  match b.seqPoint with
  | .work .recv =>
      (b.onQueue (.call (.inl .seq) (.recv layout.size (-1)))).map
        fun queue => { b with queue, seqPoint := .receiving }
  | .work (.toggle i) =>
      some { b with
        seq := { b.seq with sequence := toggleStep b.seq.inputEvents b.seq.state i b.seq.sequence }
        seqPoint := .work (nextIteration i .toggle .clear) }
  | .work .clear =>
      some { b with
        seq := { b.seq with kbLedData := Chain.zero }
        seqPoint := .work SeqPc.firstWrite }
  | .work (.write k) =>
      some { b with
        seq := { b.seq with
          kbLedData := ledWriteFlat b.seq.sequence b.seq.state k b.seq.kbLedData }
        seqPoint := .work (nextIteration k .write .recv) }
  | .receiving => b.recvStep layout
  | .suspended => (b.onSched .schedule).map fun sched => { b with sched, seqPoint := .receiving }
  | .received =>
      (b.onSched .schedule).map fun sched => { b with sched, seqPoint := .work SeqPc.firstToggle }

def OtherRuns : Prop := ∃ i, b.sched.currentThread = some (.inr i)

instance : Decidable b.OtherRuns :=
  decidable_of_iff (b.sched.currentThread.any Sum.isRight = true) (by
    rw [OtherRuns]
    cases b.sched.currentThread with
    | none => simp
    | some t => cases t <;> simp)

/-- The calls that come from interrupts, from the start of the kernel or from other threads,
which neither touch the threads of the firmware nor `input_event_mq` and delete no thread. -/
def Foreign : SchedAct (BoardThread ι) (BoardObject ω) → Prop
  | .tick | .timeout _ | .startup (.inr _) => True
  | .startup (.inl .main) | .startup (.inl .idle) => b.sched.currentThread = none
  | .start =>
      (b.sched.thread (.inl .main)).stat = .ready ∧ (b.sched.thread (.inl .idle)).stat = .ready
  | .suspend (.inr _) | .resume (.inr _) | .changePriority (.inr _) _
  | .block (.other _) _ _ | .wake (.other _)
  | .yield | .sleep | .exit | .enterCritical | .exitCritical | .schedule => b.OtherRuns
  | _ => False

instance (act : SchedAct (BoardThread ι) (BoardObject ω)) : Decidable (b.Foreign act) := by
  unfold Foreign
  split <;> infer_instance

end Board

/-- A step of the current thread, with what the keyboard and the encoder answer if it asks; a
call that is foreign to the firmware; or an interrupt that resumes a thread waiting for
another object. -/
inductive BoardAct (ι ω : Type)
  | run (x : Exchange) (enc : EncReport)
  | kernel (act : SchedAct (BoardThread ι) (BoardObject ω))
  | release (o : ω)

def Board.step (layout : MessageLayout) (b : Board ι ω) : BoardAct ι ω → Option (Board ι ω)
  | .run x enc =>
      match b.sched.currentThread with
      | some (.inl .main) => b.mainStep
      | some (.inl .input) => b.inputStep layout x enc
      | some (.inl .seq) => b.seqStep layout
      | some (.inl .idle) => some b
      | _ => none
  | .kernel act =>
      if b.Foreign act then
        (b.onSched act).map fun sched =>
          { b with sched, rtTick := if act = .tick then b.rtTick + 1#32 else b.rtTick }
      else none
  | .release o => do
      let sched ← b.onSched (.wake (.other o))
      let sched ← sched.step .schedule
      some { b with sched }

def boardMachine (layout : MessageLayout) (others : ThreadTable ι) (garbage : InputEvents)
    (links : Nat → Option Nat) (memory : Nat → Nat → BitVec 8) :
    Machine (Board ι ω) (BoardAct ι ω) where
  init :=
    { mainPc := .startInput
      inputPoint := .start
      ledData := Chain.zero
      buttonData := Chain.zero
      input := InputState.zero
      tick := 0#32
      seqPoint := .work .recv
      seq := SeqState.start garbage MachineState.zero
      queue := ⟨rtMqCreate layout.size 8 links memory, [], [], fun _ => .returned .ok⟩
      sched := (schedMachine (boardThreads others)).init
      rtTick := 0#32 }
  step := Board.step layout

end DrumMachine
