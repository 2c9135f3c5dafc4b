import DrumMachine.Firmware.Spi
import DrumMachine.Firmware.Tasks
import DrumMachine.Framework.Priority

/-!
# The two tasks step by step

`inputTaskEntry` and `seqTaskEntry` with a program counter each, so that either can be paused
between the bytes of a copy, between two toggles or between two writes of a frame. The
priorities are those of `rt_thread_create`.
-/

namespace DrumMachine

open Framework

inductive InputPc
  | get (i : Fin 3)
  | transfer
  | parse
  | send
deriving DecidableEq

inductive SeqPc
  | recv
  | toggle (i : Fin 16)
  | clear
  | write (k : Fin (2 * 8))
deriving DecidableEq

def nextIteration {n : Nat} {pc : Type} (i : Fin n) (again : Fin n → pc) (done : pc) : pc :=
  if h : i.val + 1 < n then again ⟨i.val + 1, h⟩ else done

structure Preempted where
  inputPc : InputPc
  ledData : Chain
  buttonData : Chain
  input : InputState
  inputEventMq : Fifo InputEvents 8
  seqPc : SeqPc
  seq : SeqState

def Preempted.start (garbage : InputEvents) : Preempted where
  inputPc := .get 0
  ledData := Chain.zero
  buttonData := Chain.zero
  input := InputState.zero
  inputEventMq := Fifo.empty
  seqPc := .recv
  seq := SeqState.start garbage MachineState.zero

/-- A step of the input task, with what the keyboard and the encoder answer if it asks, or
a step of the sequencer. -/
inductive ThreadAct
  | input (x : Exchange) (enc : EncReport)
  | seq

def Preempted.inputStep (s : Preempted) (x : Exchange) (enc : EncReport) : Preempted :=
  match s.inputPc with
  | .get i =>
      { s with
        ledData := s.ledData.setByte i (s.seq.kbLedData.byte i)
        inputPc := nextIteration i .get .transfer }
  | .transfer =>
      { s with buttonData := kbTransferData x s.ledData s.buttonData, inputPc := .parse }
  | .parse =>
      let parsed := inputTaskIter s.buttonData enc s.input
      { s with input := parsed.2, inputPc := if parsed.1.isSome then .send else .get 0 }
  | .send =>
      -- the message is copied from the static buffer, which only this task writes
      { s with
        inputEventMq := inputQueueSend s.inputEventMq s.input.inputEvents
        inputPc := .get 0 }

def Preempted.seqStep (s : Preempted) : Option Preempted :=
  match s.seqPc with
  | .recv =>
      s.inputEventMq.pop.map fun received =>
        { s with
          inputEventMq := received.2
          seq := { s.seq with inputEvents := seqInputQueueGet (some received.1) s.seq.inputEvents }
          seqPc := .toggle 0 }
  | .toggle i =>
      some { s with
        seq := { s.seq with sequence := toggleStep s.seq.inputEvents s.seq.state i s.seq.sequence }
        seqPc := nextIteration i .toggle .clear }
  | .clear => some { s with seq := { s.seq with kbLedData := Chain.zero }, seqPc := .write 0 }
  | .write k =>
      some { s with
        seq := { s.seq with
          kbLedData := ledWriteFlat s.seq.sequence s.seq.state k s.seq.kbLedData }
        seqPc := nextIteration k .write .recv }

/-- Where the loops over the bytes, the toggles and the writes start. -/
abbrev InputPc.first : InputPc := .get 0

abbrev SeqPc.firstToggle : SeqPc := .toggle 0

abbrev SeqPc.firstWrite : SeqPc := .write 0

def Preempted.step (s : Preempted) : ThreadAct → Option Preempted
  | .input x enc => some (s.inputStep x enc)
  | .seq => s.seqStep

inductive Thread
  | input
  | seq
deriving DecidableEq

instance : Fintype Thread := ⟨{.input, .seq}, by intro t; cases t <;> decide⟩

def threadOf : ThreadAct → Thread
  | .input _ _ => .input
  | .seq => .seq

/-- The priorities in the calls of `rt_thread_create`. -/
def threadPriority : Thread → Nat
  | .input => 7
  | .seq => 6

def Preempted.Blocked (s : Preempted) : Prop := s.seqPc = .recv ∧ s.inputEventMq.items = []

instance (s : Preempted) : Decidable s.Blocked :=
  decidable_of_iff (s.seqPc = .recv ∧ s.inputEventMq.items.length = 0)
    (and_congr_right' List.length_eq_zero_iff)

/-- The input task is counted as ready always. -/
def Preempted.Ready (s : Preempted) : Thread → Prop
  | .input => True
  | .seq => ¬s.Blocked

instance (s : Preempted) : ∀ t, Decidable (s.Ready t)
  | .input => inferInstanceAs (Decidable True)
  | .seq => inferInstanceAs (Decidable (¬s.Blocked))

def preemptive (garbage : InputEvents) : Machine Preempted ThreadAct :=
  Machine.prioritize threadOf threadPriority Preempted.Ready
    ⟨Preempted.start garbage, Preempted.step⟩

def Preempted.puts (s : Preempted) : ThreadAct → Option InputEvents
  | .input _ _ => if s.inputPc = .send ∧ ¬s.inputEventMq.Full then some s.input.inputEvents else none
  | .seq => none

def messagesOf (garbage : InputEvents) (acts : List ThreadAct) : List InputEvents :=
  (preemptive garbage).logFrom Preempted.puts (Preempted.start garbage) acts

theorem messagesOf_concat {garbage : InputEvents} {acts : List ThreadAct} {act : ThreadAct}
    {s s' : Preempted} (hexec : (preemptive garbage).exec acts = some s)
    (hstep : (preemptive garbage).step s act = some s') :
    messagesOf garbage (acts ++ [act]) = messagesOf garbage acts ++ (s.puts act).toList :=
  (preemptive garbage).logFrom_concat Preempted.puts hexec hstep

theorem nextIteration_of_lt {n : Nat} {pc : Type} {i : Fin n} (h : i.val + 1 < n)
    (again : Fin n → pc) (done : pc) : nextIteration i again done = again ⟨i.val + 1, h⟩ := by
  rw [nextIteration, dif_pos h]

theorem nextIteration_of_last {n : Nat} {pc : Type} {i : Fin n} (h : ¬i.val + 1 < n)
    (again : Fin n → pc) (done : pc) : nextIteration i again done = done := by
  rw [nextIteration, dif_neg h]

theorem preemptive_step_input {garbage : InputEvents} {s s' : Preempted} {x : Exchange}
    {enc : EncReport} (h : (preemptive garbage).step s (.input x enc) = some s') :
    s.Blocked ∧ s' = s.inputStep x enc := by
  obtain ⟨htaken, hpriority⟩ := Machine.prioritize_step_eq_some h
  have hready : ¬s.Ready .seq := hpriority .seq (Nat.lt_succ_self 6)
  cases htaken
  exact ⟨not_not.mp hready, rfl⟩

theorem preemptive_step_seq {garbage : InputEvents} {s s' : Preempted}
    (h : (preemptive garbage).step s .seq = some s') : s.seqStep = some s' :=
  (Machine.prioritize_step_eq_some h).1

end DrumMachine
