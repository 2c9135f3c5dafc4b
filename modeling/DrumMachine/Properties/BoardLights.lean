import DrumMachine.Properties.BoardFrames
import DrumMachine.Properties.Conservation

/-!
# From the keys to the lights

On the kernel, as in the firmware alone, the light of a key counts how often the key has gone
down, whatever interrupts and other threads do between the scan and the frame.
-/

namespace DrumMachine

open Framework

section Tasks

def ThreadAct.UsesStub : ThreadAct → Prop
  | .input _ enc => enc = .stub
  | .seq => True

variable {garbage : InputEvents}

private theorem findsSlot_seq (fw : Firmware) : FindsSlot fw .seq := fun hsend => absurd rfl hsend

/-- A step of a task stands for an iteration in which the send finds a slot. -/
private theorem roomy_step {s s' : Preempted} {fw : Firmware} {act : ThreadAct}
    (h : Tracks s fw) (hs : (preemptive garbage).step s act = some s') (hstub : act.UsesStub) :
    ∃ fw', (roomyFirmware garbage).execFrom fw (iteration s act).toList = some fw' ∧
      Tracks s' fw' := by
  obtain ⟨fw', hmatch, htracks⟩ := (preemptive_simulates garbage).step h hs
  refine ⟨fw', ?_, htracks⟩
  have hallowed : ∀ iter, iteration s act = some iter → UsesStub iter ∧ FindsSlot fw iter := by
    intro iter hiter
    cases act with
    | seq =>
      rw [iteration] at hiter
      split_ifs at hiter
      cases hiter
      exact ⟨trivial, findsSlot_seq fw⟩
    | input x enc =>
      rw [iteration] at hiter
      split_ifs at hiter with hpc
      cases hiter
      obtain ⟨hblocked, -⟩ := preemptive_step_input hs
      obtain ⟨-, hnotsend, -⟩ := h.phase.of_blocked hblocked
      have hitems := (hnotsend (by rw [hpc]; exact InputPc.noConfusion)).2
      exact ⟨hstub, fun _ => Fifo.not_full_of_empty hitems (by decide)⟩
  cases hiter : iteration s act with
  | none =>
    rw [hiter] at hmatch
    exact hmatch
  | some iter =>
    rw [hiter, Option.toList_some, Machine.execFrom_cons] at hmatch
    obtain ⟨fw₁, hstep, hrest⟩ := Option.bind_eq_some_iff.mp hmatch
    cases hrest
    exact Machine.execFrom_singleton _
      (((firmware garbage).restrict_step_eq_some _).mpr ⟨hallowed iter hiter, hstep⟩)

private theorem iterationsOf_concat {acts : List ThreadAct} {act : ThreadAct} {s s' : Preempted}
    (hexec : (preemptive garbage).exec acts = some s)
    (hs : (preemptive garbage).step s act = some s') :
    iterationsOf garbage (acts ++ [act]) =
      iterationsOf garbage acts ++ (iteration s act).toList :=
  (preemptive garbage).logFrom_concat iteration hexec hs

theorem roomy_of_preemptive {acts : List ThreadAct} {s : Preempted}
    (h : (preemptive garbage).exec acts = some s) (hstub : ∀ act ∈ acts, act.UsesStub) :
    ∃ fw, (roomyFirmware garbage).exec (iterationsOf garbage acts) = some fw ∧ Tracks s fw := by
  refine (preemptive garbage).exec_invariant (fun acts s => (∀ act ∈ acts, act.UsesStub) →
    ∃ fw, (roomyFirmware garbage).exec (iterationsOf garbage acts) = some fw ∧ Tracks s fw)
    (fun _ => ⟨_, rfl, (preemptive_simulates garbage).init⟩) ?_ acts s h hstub
  intro acts s act s' hexec ih hs hstub
  obtain ⟨fw, hfw, htracks⟩ := ih fun a ha => hstub a (List.mem_append_left _ ha)
  obtain ⟨fw', hmatch, htracks'⟩ := roomy_step htracks hs (hstub act (by simp))
  refine ⟨fw', ?_, htracks'⟩
  rw [iterationsOf_concat hexec hs]
  exact ((roomyFirmware garbage).exec_append_eq_some).mpr ⟨fw, hfw, hmatch⟩

/-- The light of a key in a frame that the input task is about to transfer. -/
private theorem transfer_light {acts : List ThreadAct} {s : Preempted}
    (h : (preemptive garbage).exec acts = some s) (hstub : ∀ act ∈ acts, act.UsesStub)
    (hpc : s.inputPc = .transfer) (i : Fin 2) (j : Fin 8) :
    (s.ledData.ledByte i).getLsbD j.val =
      decide (Odd (pressCount Chain.zero (ledStep i j) (scansOf (iterationsOf garbage acts)))) := by
  obtain ⟨fw, hfw, htracks⟩ := roomy_of_preemptive h hstub
  have hblocked := htracks.phase.blocked (by rw [hpc]; exact InputPc.noConfusion)
  obtain ⟨hseq, hnotsend, -⟩ := htracks.phase.of_blocked hblocked
  obtain ⟨hcopied, hitems⟩ := hnotsend (by rw [hpc]; exact InputPc.noConfusion)
  simp only [Preempted.Copied, hpc] at hcopied
  have hexec := (firmware garbage).exec_of_restrict _ hfw
  have hconsumed := consumed_of_blocked h hblocked
  have hframe : s.seq.kbLedData = kbLEDDataSend fw.seq.sequence fw.seq.state := by
    rw [hconsumed.frame, frameOf, hseq, hconsumed.sequence, hconsumed.state]
  have hpattern := settled_pattern hfw (ledStep i j)
  rw [hitems, List.map_nil, toggleAll_nil] at hpattern
  rw [hcopied, hframe, kbLEDDataSend_simple _ _ (firmware_simpleSteps hexec), hpattern]

end Tasks

variable {ι ω : Type}

def BoardAct.UsesStub : BoardAct ι ω → Prop
  | .run _ enc => enc = .stub
  | .kernel _ => True
  | .release _ => True

variable [DecidableEq ι] [DecidableEq ω] [Fintype ι]

/-- The data of a scan that a step parses. -/
def Board.scans (b : Board ι ω) : BoardAct ι ω → Option Chain
  | .run _ _ =>
      if b.sched.currentThread = some (.inl .input) ∧ b.inputPoint = .work .parse then
        some b.buttonData
      else none
  | _ => none

def boardScans (layout : MessageLayout) (others : ThreadTable ι) (garbage : InputEvents)
    (links : Nat → Option Nat) (memory : Nat → Nat → BitVec 8) (acts : List (BoardAct ι ω)) :
    List Chain :=
  (boardMachine layout others garbage links memory).logFrom Board.scans
    (boardMachine layout others garbage links memory).init acts

section Scans

variable {b : Board ι ω}

omit [DecidableEq ι] [DecidableEq ω] [Fintype ι] in
private theorem inputPc_sending (hpoint : b.inputPoint = .sending) : b.inputPc ≠ .parse := by
  rw [Board.inputPc, hpoint]
  split_ifs <;> exact InputPc.noConfusion

omit [DecidableEq ω] [Fintype ι] in
/-- A scan is parsed by the step that stands for its iteration. -/
private theorem scans_eq (mq : Fifo InputEvents 8) (act : BoardAct ι ω) :
    (b.scans act).toList = scansOf ((b.label act).bind (iteration (b.preempted mq))).toList := by
  have hseq : scansOf (iteration (b.preempted mq) .seq).toList = [] := by
    rw [iteration]
    split_ifs <;> rfl
  cases act with
  | kernel act => rfl
  | release o => rfl
  | run x enc =>
    by_cases hinput : b.sched.currentThread = some (.inl .input)
    · cases hpoint : b.inputPoint with
      | work pc =>
        have hpc : (b.preempted mq).inputPc = pc := by
          change b.inputPc = pc
          rw [Board.inputPc, hpoint]
        cases pc <;> simp [Board.scans, Board.label, iteration, hinput, hpoint, hpc, scansOf]
        rfl
      | sending =>
        have hpc : (b.preempted mq).inputPc ≠ .parse := inputPc_sending hpoint
        cases hcommits : (b.queue.phase (.inl .input)).commits <;>
          simp [Board.scans, Board.label, iteration, hinput, hpoint, hpc, hcommits, scansOf]
      | _ => simp [Board.scans, Board.label, hinput, hpoint, scansOf]
    · rcases Board.label_run hinput x enc with hlabel | hlabel <;>
        rw [Board.scans, if_neg fun h => hinput h.1, hlabel]
      · rfl
      · exact hseq.symm

end Scans

section Runs

variable {layout : MessageLayout} {others : ThreadTable ι} {garbage : InputEvents}
variable {links : Nat → Option Nat} {memory : Nat → Nat → BitVec 8}
variable {acts : List (BoardAct ι ω)} {b : Board ι ω}

private theorem boardScans_eq
    (h : (boardMachine layout others garbage links memory).exec acts = some b) :
    boardScans layout others garbage links memory acts =
      scansOf (iterationsOf garbage (labelsOf layout others garbage links memory acts)) := by
  refine (boardMachine layout others garbage links memory).exec_invariant (fun acts _ =>
    boardScans layout others garbage links memory acts =
      scansOf (iterationsOf garbage (labelsOf layout others garbage links memory acts)))
    rfl ?_ acts b h
  intro acts b act b' hexec ih hs
  obtain ⟨box, mq, hrefines, hp⟩ := refines_of_exec hexec
  obtain ⟨box', mq', -, hmatch⟩ := hrefines.step garbage hs
  have hscans : boardScans layout others garbage links memory (acts ++ [act]) =
      boardScans layout others garbage links memory acts ++ (b.scans act).toList :=
    (boardMachine layout others garbage links memory).logFrom_concat Board.scans hexec hs
  have hlabels : labelsOf layout others garbage links memory (acts ++ [act]) =
      labelsOf layout others garbage links memory acts ++ (b.label act).toList :=
    (boardMachine layout others garbage links memory).logFrom_concat Board.label hexec hs
  rw [hscans, hlabels, ih, scans_eq mq]
  cases hlabel : b.label act with
  | none => simp [scansOf]
  | some step =>
    rw [hlabel, Option.toList_some, Machine.execFrom_cons] at hmatch
    obtain ⟨p', hp', -⟩ := Option.bind_eq_some_iff.mp hmatch
    rw [Option.toList_some, iterationsOf_concat hp hp', scansOf_append]
    rfl

omit [DecidableEq ω] [Fintype ι] in
private theorem label_stub {act : BoardAct ι ω} {step : ThreadAct}
    (h : b.label act = some step) (hstub : act.UsesStub) : step.UsesStub := by
  cases act with
  | kernel act => cases h
  | release o => cases h
  | run x enc =>
    cases hstub
    by_cases hinput : b.sched.currentThread = some (.inl .input)
    · have hstep : step = .input x .stub := by
        simp only [Board.label, hinput] at h
        split at h
        · cases h
        · exact (Option.some.inj h).symm
        · split_ifs at h
          exact (Option.some.inj h).symm
        · cases h
      rw [hstep]
      rfl
    · rcases Board.label_run hinput x .stub with hlabel | hlabel
      · rw [hlabel] at h
        cases h
      · rw [hlabel] at h
        cases h
        trivial

private theorem labelsOf_stub (hstub : ∀ act ∈ acts, act.UsesStub) :
    ∀ step ∈ labelsOf layout others garbage links memory acts, step.UsesStub := by
  intro step hstep
  obtain ⟨before, act, after, r, t, heq, -, -, hlabel⟩ := Machine.mem_logFrom _ _ hstep
  have hmem : act ∈ acts := by
    rw [heq]
    simp
  exact label_stub hlabel (hstub act hmem)

/-- In every run of the firmware on the kernel in which the encoder is the stub, a light of a
frame that is handed to the exchange is on exactly if its key has gone down an odd number of
times in the scans that have been parsed. -/
theorem board_lights (acts : List (BoardAct ι ω)) (b : Board ι ω)
    (h : (boardMachine layout others garbage links memory).exec acts = some b)
    (hstub : ∀ act ∈ acts, act.UsesStub) (hpoint : b.inputPoint = .work .transfer) (i : Fin 2)
    (j : Fin 8) :
    (b.ledData.ledByte i).getLsbD j.val = decide (Odd (pressCount Chain.zero (ledStep i j)
      (boardScans layout others garbage links memory acts))) := by
  obtain ⟨box, mq, hrefines, hp⟩ := refines_of_exec h
  have hpc : (b.preempted mq).inputPc = .transfer := by
    change b.inputPc = .transfer
    rw [Board.inputPc, hpoint]
  rw [boardScans_eq h]
  exact transfer_light hp (labelsOf_stub hstub) hpc i j

end Runs

theorem board_lights_pressed :
    ∃ b, smallBoard.exec pressedRun = some b ∧ b.inputPoint = .work .transfer ∧
      ∀ (i : Fin 2) (j : Fin 8),
        (b.ledData.ledByte i).getLsbD j.val = decide (i.val = 0 ∧ j.val = 0) := by
  obtain ⟨b, hb, hpoint, -⟩ := pressedRun_state
  have hstub : ∀ act ∈ pressedRun, act.UsesStub := by
    simp [pressedRun, BoardAct.UsesStub]
  have hlit : ∀ (i : Fin 2) (j : Fin 8), decide (Odd (pressCount Chain.zero (ledStep i j)
      (boardScans ilp32Layout noThreads InputEvents.zero (fun _ => none) (fun _ _ => 0#8)
        pressedRun))) = decide (i.val = 0 ∧ j.val = 0) := by decide +kernel
  exact ⟨b, hb, hpoint, fun i j =>
    (board_lights pressedRun b hb hstub hpoint i j).trans (hlit i j)⟩

end DrumMachine
