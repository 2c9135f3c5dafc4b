import DrumMachine.Properties.BoardTurns
import DrumMachine.Properties.QueueChannel

/-!
# The tasks and their queue

Where each task is in its call on the queue, and what a state of the board shows of the two
tasks as they are taken step by step: a message is sent when its node is linked, and received
when its bytes are copied out.
-/

namespace DrumMachine

open Framework

variable {ι ω : Type}

/-- The phases of a send that does not wait. -/
inductive MqPhase.SendsOnce {β : Type} (buffer : List β) : MqPhase β → Prop
  | sending : SendsOnce buffer (.sending buffer 0 false)
  | filling (msg : Nat) : SendsOnce buffer (.filling .back msg buffer)
  | linking (msg : Nat) : SendsOnce buffer (.linking .back msg buffer)
  | returned : SendsOnce buffer (.returned .ok)

/-- The phases of a receive that waits for ever. -/
inductive MqPhase.ReceivesOnce {β : Type} (size : Nat) : MqPhase β → Prop
  | receiving (woken : Bool) : ReceivesOnce size (.receiving size (-1) woken)
  | suspended : ReceivesOnce size (.suspendedRecv size (-1))
  | copying (msg : Nat) : ReceivesOnce size (.copying msg size)
  | releasing (msg : Nat) (data : List β) : ReceivesOnce size (.releasing msg data)
  | returned (result : MqResult β) : ReceivesOnce size (.returned result)

/-- The message has been handed over. -/
def MqPhase.delivered {β : Type} : MqPhase β → Bool
  | .releasing _ _ | .returned _ => true
  | _ => false

/-- The next step hands the message over. -/
def MqPhase.commits {β : Type} : MqPhase β → Bool
  | .linking _ _ _ | .copying _ _ => true
  | _ => false

namespace Board

variable (layout : MessageLayout) (b : Board ι ω)

def InputAt : Prop :=
  match b.inputPoint with
  | .sending => (b.queue.phase (.inl .input)).SendsOnce (layout.encode b.input.inputEvents)
  | _ => b.queue.phase (.inl .input) = .returned .ok

def SeqAt : Prop :=
  match b.seqPoint with
  | .work _ => ∃ result, b.queue.phase (.inl .seq) = .returned result
  | .receiving => (b.queue.phase (.inl .seq)).ReceivesOnce layout.size
  | .suspended =>
      b.queue.phase (.inl .seq) = .suspendedRecv layout.size (-1) ∨
        b.queue.phase (.inl .seq) = .receiving layout.size (-1) true
  | .received => False

def inputPc : InputPc :=
  match b.inputPoint with
  | .work pc => pc
  | .sending => if (b.queue.phase (.inl .input)).delivered then InputPc.first else .send
  | _ => InputPc.first

def seqPc : SeqPc :=
  match b.seqPoint with
  | .work pc => pc
  | .receiving => if (b.queue.phase (.inl .seq)).delivered then SeqPc.firstToggle else .recv
  | .suspended => .recv
  | .received => SeqPc.firstToggle

/-- The two tasks, with the messages that are queued or being copied out. -/
def preempted (inputEventMq : Fifo InputEvents 8) : Preempted where
  inputPc := b.inputPc
  ledData := b.ledData
  buttonData := b.buttonData
  input := b.input
  inputEventMq := inputEventMq
  seqPc := b.seqPc
  seq := b.seq

section Congr

variable {b} {b' : Board ι ω}

theorem inputPc_congr (hpoint : b'.inputPoint = b.inputPoint)
    (hphase : b'.queue.phase (.inl .input) = b.queue.phase (.inl .input)) :
    b'.inputPc = b.inputPc := by
  rw [inputPc, inputPc, hpoint, hphase]

theorem seqPc_congr (hpoint : b'.seqPoint = b.seqPoint)
    (hphase : b'.queue.phase (.inl .seq) = b.queue.phase (.inl .seq)) : b'.seqPc = b.seqPc := by
  rw [seqPc, seqPc, hpoint, hphase]

end Congr

def label : BoardAct ι ω → Option ThreadAct
  | .run x enc =>
      match b.sched.currentThread with
      | some (.inl .input) =>
          match b.inputPoint with
          | .work .send => none
          | .work _ => some (.input x enc)
          | .sending =>
              if (b.queue.phase (.inl .input)).commits then some (.input x enc) else none
          | _ => none
      | some (.inl .seq) =>
          match b.seqPoint with
          | .work .recv => none
          | .work _ => some .seq
          | .receiving => if (b.queue.phase (.inl .seq)).commits then some .seq else none
          | _ => none
      | _ => none
  | _ => none

end Board

structure Refines (layout : MessageLayout) (b : Board ι ω)
    (box : Mailbox (BoardThread ι) (BitVec 8)) (mq : Fifo InputEvents 8) : Prop where
  governed : ∃ members seat, Governed b members seat
  channel : Channel layout.size b.queue box
  input : b.InputAt layout
  seq : b.SeqAt layout
  others : ∀ t, t ≠ .inl .input → t ≠ .inl .seq → b.queue.phase t = .returned .ok
  items : mq.items.map layout.encode = (box.inbox (.inl .seq)).toList ++ box.items

namespace Refines

variable {layout : MessageLayout} {b : Board ι ω} {box : Mailbox (BoardThread ι) (BitVec 8)}
variable {mq : Fifo InputEvents 8}

theorem input_phase (h : Refines layout b box mq) :
    ∃ buffer, (b.queue.phase (.inl .input)).SendsOnce buffer := by
  have hinput := h.input
  rw [Board.InputAt] at hinput
  split at hinput
  · exact ⟨_, hinput⟩
  · exact ⟨[], hinput ▸ .returned⟩

theorem seq_phase (h : Refines layout b box mq) :
    (b.queue.phase (.inl .seq)).ReceivesOnce layout.size := by
  have hseq := h.seq
  rw [Board.SeqAt] at hseq
  split at hseq
  · obtain ⟨result, hphase⟩ := hseq
    exact hphase ▸ .returned result
  · exact hseq
  · rcases hseq with hphase | hphase
    · exact hphase ▸ .suspended
    · exact hphase ▸ .receiving true
  · cases hseq

theorem sends (h : Refines layout b box mq) (t : BoardThread ι) :
    ¬(b.queue.phase t).WaitsSend ∧
      (t ≠ .inl .seq → ¬(b.queue.phase t).WaitsRecv ∧ ¬(b.queue.phase t).WokenRecv) := by
  by_cases hseq : t = .inl .seq
  · subst hseq
    refine ⟨?_, fun hne => absurd rfl hne⟩
    have hphase := h.seq_phase
    generalize b.queue.phase (.inl .seq) = p at hphase
    cases hphase <;> exact id
  by_cases hinput : t = .inl .input
  · subst hinput
    obtain ⟨buffer, hphase⟩ := h.input_phase
    generalize b.queue.phase (.inl .input) = p at hphase
    cases hphase <;> exact ⟨id, fun _ => ⟨id, id⟩⟩
  · rw [h.others t hinput hseq]
    exact ⟨id, fun _ => ⟨id, id⟩⟩

theorem suspendSenderThread (h : Refines layout b box mq) : b.queue.suspendSenderThread = [] :=
  h.channel.suspendSenderThread fun t => (h.sends t).1

theorem drained (h : Refines layout b box mq) (hwaits : (b.queue.phase (.inl .seq)).WaitsRecv) :
    box.items = [] ∧ box.inbox (.inl .seq) = none := by
  constructor
  · apply h.channel.drained hwaits
    intro t
    by_cases ht : t = .inl .seq
    · subst ht
      exact hwaits.resume.2.2.2.2.2.1
    · exact ((h.sends t).2 ht).2
  · apply h.channel.untaken
    intro hcopies
    cases hphase : b.queue.phase (.inl .seq) <;> rw [hphase] at hwaits hcopies <;>
      first | exact hwaits | exact hcopies

theorem blocked (h : Refines layout b box mq) (hwaits : (b.queue.phase (.inl .seq)).WaitsRecv) :
    (b.preempted mq).Blocked := by
  obtain ⟨hitems, hinbox⟩ := h.drained hwaits
  have hmap := h.items
  rw [hitems, hinbox] at hmap
  refine ⟨?_, List.map_eq_nil_iff.mp hmap⟩
  have hseq := h.seq
  change b.seqPc = .recv
  rw [Board.SeqAt] at hseq
  rw [Board.seqPc]
  split at hseq
  · obtain ⟨result, hphase⟩ := hseq
    rw [hphase] at hwaits
    cases hwaits
  · cases hphase : b.queue.phase (.inl .seq) <;> rw [hphase] at hwaits <;>
      first | rfl | cases hwaits
  · rfl
  · cases hseq

end Refines

end DrumMachine
