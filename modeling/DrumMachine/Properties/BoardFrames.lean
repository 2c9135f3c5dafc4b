import DrumMachine.Properties.BoardRuns

/-!
# Frames on the kernel

Every run of the firmware on the kernel is one of the two tasks under their priorities. No
thread of the firmware is ever stuck, no send fails, and every frame that the input task hands
to the exchange is complete.
-/

namespace DrumMachine

open Framework

variable {ι ω : Type}

private theorem created_sizes {β : Type} (msgSize maxMsgs : Nat) (links : Nat → Option Nat)
    (memory : Nat → Nat → β) :
    (rtMqCreate msgSize maxMsgs links memory).msgSize = rtAlign msgSize 4 % 65536 ∧
      (rtMqCreate msgSize maxMsgs links memory).maxMsgs = maxMsgs % 65536 :=
  ⟨loopTo_frame (fun temp : Fin (maxMsgs % 65536) => linkFree (β := β) temp.val)
      MessageQueue.msgSize (fun _ _ => rfl) _ _,
    loopTo_frame (fun temp : Fin (maxMsgs % 65536) => linkFree (β := β) temp.val)
      MessageQueue.maxMsgs (fun _ _ => rfl) _ _⟩

private theorem channel_start {τ β : Type} {size : Nat} (hsmall : size ≤ 65532)
    (links : Nat → Option Nat) (memory : Nat → Nat → β) :
    Channel size (⟨rtMqCreate size 8 links memory, [], [], fun _ => .returned .ok⟩ :
      MqSystem τ β) ⟨[], fun _ => none⟩ := by
  obtain ⟨hmsgSize, hmaxMsgs⟩ := created_sizes size 8 links memory
  refine ⟨represents_start size 8 links memory, fun _ => trivial, ⟨by simp, by simp⟩, ?_, ?_⟩
  · change size ≤ (rtMqCreate size 8 links memory).msgSize
    rw [hmsgSize, rtAlign]
    omega
  · change 0 < (rtMqCreate size 8 links memory).maxMsgs
    rw [hmaxMsgs]
    decide

/-- The two tasks as the board shows them. -/
def Shows (layout : MessageLayout) (b : Board ι ω) (p : Preempted) : Prop :=
  ∃ box mq, Refines layout b box mq ∧ p = b.preempted mq

variable [DecidableEq ι] [DecidableEq ω] [Fintype ι]

private theorem shows_start (layout : MessageLayout) (others : ThreadTable ι)
    (garbage : InputEvents) (links : Nat → Option Nat) (memory : Nat → Nat → BitVec 8) :
    Shows layout
      (boardMachine layout others garbage links memory : Machine (Board ι ω) (BoardAct ι ω)).init
      (preemptive garbage).init := by
  refine ⟨⟨[], fun _ => none⟩, Fifo.empty, ⟨⟨fun _ => [], fun _ => .unstarted, ?_⟩,
    channel_start layout.small links memory, rfl, ⟨.ok, rfl⟩, fun _ _ _ => rfl, rfl⟩, rfl⟩
  refine ⟨core_start others, ?_, fun _ => ⟨rfl, rfl⟩, by simp, ?_, ?_, by simp, by simp, ?_⟩
  · intro t hcurrent
    cases hcurrent
  · exact iff_of_true rfl rfl
  · exact iff_of_true rfl Nat.zero_lt_two
  · exact iff_of_false (by simp) id

private theorem shows_step {layout : MessageLayout} {garbage : InputEvents} {b b' : Board ι ω}
    {p : Preempted} {act : BoardAct ι ω} (h : Shows layout b p) (hs : b.step layout act = some b') :
    ∃ p', (preemptive garbage).execFrom p (b.label act).toList = some p' ∧ Shows layout b' p' := by
  obtain ⟨box, mq, hrefines, heq⟩ := h
  subst heq
  obtain ⟨box', mq', hrefines', hexec⟩ := hrefines.step garbage hs
  exact ⟨b'.preempted mq', hexec, box', mq', hrefines', rfl⟩

/-- Whatever interrupts and other threads do, the firmware on the kernel's scheduler and
message queue refines its two tasks under their priorities. -/
theorem board_simulates (layout : MessageLayout) (others : ThreadTable ι) (garbage : InputEvents)
    (links : Nat → Option Nat) (memory : Nat → Nat → BitVec 8) :
    Machine.Simulates
      (boardMachine layout others garbage links memory : Machine (Board ι ω) (BoardAct ι ω))
      (preemptive garbage) (Shows layout) Board.label where
  init := shows_start layout others garbage links memory
  step := shows_step

section Messages

variable {layout : MessageLayout} {b : Board ι ω} {box : Mailbox (BoardThread ι) (BitVec 8)}
variable {mq : Fifo InputEvents 8}

omit [DecidableEq ι] [DecidableEq ω] [Fintype ι] in
theorem Board.label_run (hinput : b.sched.currentThread ≠ some (.inl .input)) (x : Exchange)
    (enc : EncReport) : b.label (.run x enc) = none ∨ b.label (.run x enc) = some .seq := by
  rw [Board.label]
  split
  · exact absurd ‹_› hinput
  · split
    · exact Or.inl rfl
    · exact Or.inr rfl
    · split_ifs
      · exact Or.inr rfl
      · exact Or.inl rfl
    · exact Or.inl rfl
  · exact Or.inl rfl

end Messages

section Runs

variable {layout : MessageLayout} {others : ThreadTable ι} {garbage : InputEvents}
variable {links : Nat → Option Nat} {memory : Nat → Nat → BitVec 8}
variable {acts : List (BoardAct ι ω)} {b : Board ι ω}

/-- What the two tasks have done in a run of the board. -/
def labelsOf (layout : MessageLayout) (others : ThreadTable ι) (garbage : InputEvents)
    (links : Nat → Option Nat) (memory : Nat → Nat → BitVec 8) (acts : List (BoardAct ι ω)) :
    List ThreadAct :=
  (boardMachine layout others garbage links memory).logFrom Board.label
    (boardMachine layout others garbage links memory).init acts

theorem refines_of_exec
    (h : (boardMachine layout others garbage links memory).exec acts = some b) :
    ∃ box mq, Refines layout b box mq ∧
      (preemptive garbage).exec (labelsOf layout others garbage links memory acts) =
        some (b.preempted mq) := by
  have hshows : ∃ p, (preemptive garbage).exec (labelsOf layout others garbage links memory acts) =
      some p ∧ Shows layout b p := by
    have hsimulates : Machine.Simulates
        (boardMachine layout others garbage links memory : Machine (Board ι ω) (BoardAct ι ω))
        (preemptive garbage) (Shows layout) Board.label :=
      ⟨shows_start layout others garbage links memory, shows_step⟩
    exact hsimulates.exec h
  obtain ⟨p, hp, box, mq, hrefines, heq⟩ := hshows
  subst heq
  exact ⟨box, mq, hrefines, hp⟩

structure Healthy (layout : MessageLayout) (b : Board ι ω) : Prop where
  available : ∀ t, b.sched.currentThread = some (.inl t) → ∀ x enc,
    ∃ b', b.step layout (.run x enc) = some b'
  sent : ∀ result, b.queue.phase (.inl .input) = .returned result → result = .ok
  queued : b.queue.mq.entry ≤ 1
  apart : ∀ pc, b.inputPoint = .work pc → b.sched.currentThread = some (.inl .input) →
    (b.queue.phase (.inl .seq)).WaitsRecv

/-- In every run, whatever interrupts and other threads do, a thread of the firmware that has
the processor can take its next step, no send fails, at most one message is queued, and while
the input task works on its data the sequencer is suspended in its receive. -/
theorem board_healthy (acts : List (BoardAct ι ω)) (b : Board ι ω)
    (h : (boardMachine layout others garbage links memory).exec acts = some b) :
    Healthy layout b := by
  obtain ⟨box, mq, hrefines, hp⟩ := refines_of_exec h
  obtain ⟨fw, -, htracks⟩ := (preemptive_simulates garbage).exec hp
  refine ⟨?_, ?_, ?_, ?_⟩
  · intro t ht x enc
    obtain ⟨b', hs, -⟩ := hrefines.run garbage x enc ht
    exact ⟨b', hs⟩
  · intro result hreturned
    obtain ⟨buffer, hsends⟩ := hrefines.input_phase
    rw [hreturned] at hsends
    cases hsends
    rfl
  · have hlength := congrArg List.length hrefines.items
    rw [List.length_map, List.length_append] at hlength
    have hone : mq.items.length ≤ 1 := htracks.phase.one_message
    rw [hrefines.channel.entry]
    omega
  · intro pc hpoint hcurrent
    exact hrefines.input_waits hcurrent (by simp [Board.Pending, hpoint])

end Runs

def noThreads : ThreadTable Empty := ⟨Empty.elim, Empty.elim, fun t => t.elim⟩

def smallBoard : Machine (Board Empty Empty) (BoardAct Empty Empty) :=
  boardMachine ilp32Layout noThreads InputEvents.zero (fun _ => none) fun _ _ => 0#8

/-- The kernel starts, key 1 goes down in the first scan, and after its delay the input task
copies the new frame. -/
def pressedRun : List (BoardAct Empty Empty) :=
  [.kernel (.startup (.inl .main)), .kernel (.startup (.inl .idle)), .kernel .start] ++
    List.replicate 60 (.run pressExchange .stub) ++ [.kernel (.timeout (.inl .input))] ++
    List.replicate 3 (.run pressExchange .stub)

theorem pressedRun_state :
    ∃ b, smallBoard.exec pressedRun = some b ∧ b.inputPoint = .work .transfer ∧
      b.sched.currentThread = some (.inl .input) := by
  have hrun : (smallBoard.exec pressedRun).any (fun b => decide
      (b.inputPoint = .work .transfer ∧ b.sched.currentThread = some (.inl .input))) = true := by
    decide +kernel
  obtain ⟨b, hb, hfacts⟩ := (Option.any_eq_true _ _).mp hrun
  obtain ⟨hpoint, hcurrent⟩ := of_decide_eq_true hfacts
  exact ⟨b, hb, hpoint, hcurrent⟩

theorem board_healthy_pressed :
    ∃ b, smallBoard.exec pressedRun = some b ∧ b.sched.currentThread = some (.inl .input) ∧
      (b.queue.phase (.inl .seq)).WaitsRecv := by
  obtain ⟨b, hb, hpoint, hcurrent⟩ := pressedRun_state
  exact ⟨b, hb, hcurrent, (board_healthy pressedRun b hb).apart .transfer hpoint hcurrent⟩

end DrumMachine
