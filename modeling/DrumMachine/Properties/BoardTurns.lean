import DrumMachine.Properties.BoardSeats

/-!
# Whose turn it is

When the input task runs, the sequencer waits for a message: both tasks have been started,
and the scheduler lets the input task run only while the sequencer cannot.
-/

namespace DrumMachine

open Framework

variable {ι ω : Type}

/-- How far `main` is: it has started none of the tasks, the input task only, or both. -/
def MainPc.stage : MainPc → Nat
  | .startInput => 0
  | .startSeq => 1
  | .blink | .delayed => 2

/-- The next step of the task is a call of `rt_schedule`. -/
def Board.Pending (b : Board ι ω) : BoardTask → Prop
  | .main => b.mainPc = .delayed
  | .input => b.inputPoint = .sent ∨ b.inputPoint = .delayed
  | .seq => b.seqPoint = .suspended ∨ b.seqPoint = .received
  | .idle => False

structure Governed (b : Board ι ω) (members : ListHead (BoardObject ω) → List (BoardThread ι))
    (seat : BoardTask → Seat) : Prop where
  core : Core b.sched members seat
  settled : ∀ t, b.sched.currentThread = some (.inl t) → ¬b.Pending t → Settled b.sched
  unstarted : seat .main = .unstarted → b.mainPc.stage = 0 ∧ b.sched.currentThread = none
  starting : b.mainPc.stage < 2 → seat .main ≠ .asleep
  input : seat .input = .unstarted ↔ b.mainPc.stage = 0
  seq : seat .seq = .unstarted ↔ b.mainPc.stage < 2
  awake : seat .seq ≠ .asleep
  parked : ∀ t, seat t = .parked → t = .seq
  waits : seat .seq = .parked ↔ (b.queue.phase (.inl .seq)).WaitsRecv

namespace Governed

variable {b : Board ι ω} {members : ListHead (BoardObject ω) → List (BoardThread ι)}
variable {seat : BoardTask → Seat} {t : BoardTask}

theorem running (h : Governed b members seat) (hcurrent : b.sched.currentThread = some (.inl t))
    (hpending : ¬b.Pending t) : (b.sched.thread (.inl t)).stat = .running :=
  (h.core.highest (h.settled t hcurrent hpending) hcurrent).1

theorem current_started (h : Governed b members seat)
    (hcurrent : b.sched.currentThread = some (.inl t)) : seat t ≠ .unstarted := by
  intro hseat
  have hstat := (h.core.seated t).stat
  rw [hseat] at hstat
  exact ((h.core.sound.placed _).current hcurrent).2 hstat

/-- `main` has the highest priority of the tasks, so it has started both when another runs. -/
theorem stage_eq (h : Governed b members seat) (hcurrent : b.sched.currentThread = some (.inl t))
    (hpending : ¬b.Pending t) (ht : t ≠ .main) : b.mainPc.stage = 2 := by
  have hle : b.mainPc.stage ≤ 2 := by cases b.mainPc <;> decide
  rcases Nat.lt_or_eq_of_le hle with hlt | heq
  · exfalso
    obtain ⟨-, hhighest⟩ := h.core.highest (h.settled t hcurrent hpending) hcurrent
    cases hseat : seat .main with
    | unstarted =>
      rw [(h.unstarted hseat).2] at hcurrent
      cases hcurrent
    | runnable =>
      have hpriority := hhighest .main ht.symm hseat
      cases t with
      | main => exact ht rfl
      | input => exact absurd hpriority (by decide)
      | seq => exact absurd hpriority (by decide)
      | idle => exact absurd hpriority (by decide)
    | asleep => exact h.starting hlt hseat
    | parked => cases h.parked .main hseat
  · exact heq

theorem parked_of_input (h : Governed b members seat)
    (hcurrent : b.sched.currentThread = some (.inl .input)) (hpending : ¬b.Pending .input) :
    seat .seq = .parked := by
  obtain ⟨-, hhighest⟩ := h.core.highest (h.settled .input hcurrent hpending) hcurrent
  cases hseat : seat .seq with
  | unstarted =>
    have hlt := h.seq.mp hseat
    rw [h.stage_eq hcurrent hpending (by decide)] at hlt
    exact absurd hlt (Nat.lt_irrefl 2)
  | runnable => exact absurd (hhighest .seq (by decide) hseat) (by decide)
  | asleep => exact absurd hseat h.awake
  | parked => rfl

theorem stay (h : Governed b members seat) (hcurrent : b.sched.currentThread = some (.inl t))
    (hpending : ¬b.Pending t) {b' : Board ι ω} (hsched : b'.sched = b.sched)
    (hstage : b'.mainPc = b.mainPc)
    (hwaits : (b'.queue.phase (.inl .seq)).WaitsRecv ↔ (b.queue.phase (.inl .seq)).WaitsRecv) :
    Governed b' members seat where
  core := hsched ▸ h.core
  settled _ _ _ := hsched ▸ h.settled t hcurrent hpending
  unstarted hseat := by
    rw [hstage, hsched]
    exact h.unstarted hseat
  starting := by
    rw [hstage]
    exact h.starting
  input := by
    rw [hstage]
    exact h.input
  seq := by
    rw [hstage]
    exact h.seq
  awake := h.awake
  parked := h.parked
  waits := h.waits.trans hwaits.symm

variable [DecidableEq ι] [DecidableEq ω] [Fintype ι]
variable {s' : Scheduler (BoardThread ι) (BoardObject ω)}

omit [DecidableEq ι] [DecidableEq ω] [Fintype ι] in
/-- After the seats have changed as foreign calls change them. -/
private theorem moved (h : Governed b members seat) {b' : Board ι ω}
    {members' : ListHead (BoardObject ω) → List (BoardThread ι)} {seat' : BoardTask → Seat}
    (hcore : Core b'.sched members' seat') (hmove : SeatsMove seat seat')
    (hsettled : ∀ t, b'.sched.currentThread = some (.inl t) → ¬b'.Pending t → Settled b'.sched)
    (hnone : seat' .main = .unstarted → b'.sched.currentThread = none)
    (hstage : b'.mainPc.stage = b.mainPc.stage) (hqueue : b'.queue = b.queue) :
    Governed b' members' seat' where
  core := hcore
  settled := hsettled
  unstarted hseat := by
    rcases hmove .main with hsame | ⟨hmoved, -⟩
    · rw [hstage]
      exact ⟨(h.unstarted (hsame ▸ hseat)).1, hnone hseat⟩
    · rw [hseat] at hmoved
      cases hmoved
  starting hlt := by
    rw [hstage] at hlt
    rcases hmove .main with hsame | ⟨hmoved, -⟩
    · rw [hsame]
      exact h.starting hlt
    · simp [hmoved]
  input := by
    rw [hstage, ← h.input]
    rcases hmove .input with hsame | ⟨hmoved, hasleep | ⟨-, hname⟩⟩
    · rw [hsame]
    · simp [hmoved, hasleep]
    · simp at hname
  seq := by
    rw [hstage, ← h.seq]
    rcases hmove .seq with hsame | ⟨-, hasleep | ⟨-, hname⟩⟩
    · rw [hsame]
    · exact absurd hasleep h.awake
    · simp at hname
  awake := by
    rcases hmove .seq with hsame | ⟨hmoved, -⟩
    · rw [hsame]
      exact h.awake
    · simp [hmoved]
  parked t ht := by
    rcases hmove t with hsame | ⟨hmoved, -⟩
    · exact h.parked t (hsame ▸ ht)
    · rw [ht] at hmoved
      cases hmoved
  waits := by
    rw [hqueue, ← h.waits]
    rcases hmove .seq with hsame | ⟨-, hasleep | ⟨-, hname⟩⟩
    · rw [hsame]
    · exact absurd hasleep h.awake
    · simp at hname

theorem foreign (h : Governed b members seat)
    {act : SchedAct (BoardThread ι) (BoardObject ω)} (hforeign : b.Foreign act)
    (hs : b.sched.step act = some s') (b' : Board ι ω) (hsched : b'.sched = s')
    (hmain : b'.mainPc = b.mainPc) (hpending : ∀ t, b'.Pending t ↔ b.Pending t)
    (hqueue : b'.queue = b.queue) : ∃ members' seat', Governed b' members' seat' := by
  obtain ⟨members', seat', hcore, hmove⟩ := h.core.foreign hforeign hs
  refine ⟨members', seat', h.moved (hsched ▸ hcore) hmove ?_ ?_ (congrArg _ hmain) hqueue⟩
  · intro t hcurrent hnot
    rw [hsched] at hcurrent ⊢
    rw [hpending] at hnot
    exact h.core.foreign_settled hforeign hs (fun heq => h.settled t heq hnot) hcurrent
  · intro hseat
    rw [hsched]
    have hunstarted : seat .main = .unstarted := by
      rcases hmove .main with hsame | ⟨hmoved, -⟩
      · exact hsame ▸ hseat
      · rw [hseat] at hmoved
        cases hmoved
    apply h.core.sound.current_none hs (h.unstarted hunstarted).2
    intro hstart
    subst hstart
    have hready : (b.sched.thread (.inl .main)).stat = .ready := hforeign.1
    have hstat := (h.core.seated .main).stat
    rw [hunstarted, hready] at hstat
    cases hstat

theorem schedule (h : Governed b members seat)
    (hcurrent : b.sched.currentThread = some (.inl t)) :
    ∃ s', b.onSched .schedule = some s' ∧ ∀ b' : Board ι ω, b'.sched = s' →
      b'.mainPc.stage = b.mainPc.stage → b'.queue = b.queue →
      ∃ members' seat', Governed b' members' seat' := by
  have hsome : b.sched.currentThread.isSome := by simp [hcurrent]
  have hpermitted : SchedAct.Permitted b.sched members .schedule := Or.inl hsome
  have hreschedules : SchedAct.Reschedules b.sched .schedule := hsome
  obtain ⟨s', -, hs, -⟩ := h.core.sound.available hpermitted
  refine ⟨s', hs, ?_⟩
  intro b' hsched hstage hqueue
  obtain ⟨members', hcore⟩ := h.core.schedule hs
  have hsettled := h.core.sound.step_settled hreschedules hs
  refine ⟨members', seat, h.moved (hsched ▸ hcore) (fun _ => Or.inl rfl) ?_ ?_ hstage hqueue⟩
  · intro _ _ _
    rw [hsched]
    exact hsettled
  · intro hseat
    rw [(h.unstarted hseat).2] at hcurrent
    cases hcurrent

theorem release (h : Governed b members seat) {o : ω}
    {s₁ : Scheduler (BoardThread ι) (BoardObject ω)}
    (hwake : b.sched.step (.wake (.other o)) = some s₁) (hs : s₁.step .schedule = some s')
    (b' : Board ι ω) (hsched : b'.sched = s') (hmain : b'.mainPc = b.mainPc)
    (hqueue : b'.queue = b.queue) : ∃ members' seat', Governed b' members' seat' := by
  obtain ⟨members₁, hwoken⟩ := h.core.release hwake
  obtain ⟨members', hcore⟩ := hwoken.schedule hs
  refine ⟨members', seat, h.moved (hsched ▸ hcore) (fun _ => Or.inl rfl) ?_ ?_
    (congrArg _ hmain) hqueue⟩
  · intro t hcurrent _
    rw [hsched] at hcurrent ⊢
    have hreschedules : SchedAct.Reschedules s₁ .schedule := by
      rw [SchedAct.Reschedules, Option.isSome_iff_ne_none]
      intro hnone
      rw [hwoken.sound.current_none hs hnone (by simp)] at hcurrent
      cases hcurrent
    exact hwoken.sound.step_settled hreschedules hs
  · intro hseat
    rw [hsched]
    have hnone := h.core.sound.current_none hwake (h.unstarted hseat).2 (by simp)
    exact hwoken.sound.current_none hs hnone (by simp)

omit [DecidableEq ι] [DecidableEq ω] [Fintype ι] in
private theorem main_started (h : Governed b members seat)
    (hcurrent : b.sched.currentThread = some (.inl t)) : seat .main ≠ .unstarted := by
  intro hseat
  rw [(h.unstarted hseat).2] at hcurrent
  cases hcurrent

omit [DecidableEq ι] [DecidableEq ω] [Fintype ι] in
private theorem unsettled {b' : Board ι ω} (hcurrent : b'.sched.currentThread = some (.inl t))
    (hpending : b'.Pending t) : ∀ u, b'.sched.currentThread = some (.inl u) → ¬b'.Pending u →
      Settled b'.sched := by
  intro u hu hnot
  cases hcurrent.symm.trans hu
  exact absurd hpending hnot

theorem sleep (h : Governed b members seat) (hcurrent : b.sched.currentThread = some (.inl t))
    (hnot : ¬b.Pending t) (ht : t = .main ∧ b.mainPc.stage = 2 ∨ t = .input) :
    ∃ s', b.onSched .sleep = some s' ∧ ∀ b' : Board ι ω, b'.sched = s' →
      b'.mainPc.stage = b.mainPc.stage → b'.queue = b.queue → b'.Pending t →
      ∃ members' seat', Governed b' members' seat' := by
  have hpermitted : SchedAct.Permitted b.sched members .sleep :=
    ⟨_, hcurrent, h.running hcurrent hnot⟩
  obtain ⟨s', -, hs, -⟩ := h.core.sound.available hpermitted
  refine ⟨s', hs, ?_⟩
  intro b' hsched hstage hqueue hpending
  have hidle : t ≠ .idle := by rcases ht with ⟨ht, -⟩ | ht <;> simp [ht]
  obtain ⟨members', hcore⟩ := h.core.sleep hidle hcurrent hs
  have hsame := h.core.sound.step_current hs (by simp [SchedAct.Reschedules]) (by simp)
  refine ⟨members', _, hsched ▸ hcore, unsettled ?_ hpending, ?_, ?_, ?_, ?_, ?_, ?_, ?_⟩
  · rw [hsched, hsame, hcurrent]
  · intro hseat
    have hmain : t ≠ .main := by
      intro heq
      subst heq
      simp at hseat
    rw [Function.update_of_ne hmain.symm] at hseat
    exact absurd hseat (h.main_started hcurrent)
  · intro hlt
    rw [hstage] at hlt
    rcases ht with ⟨-, htwo⟩ | ht
    · rw [htwo] at hlt
      exact absurd hlt (Nat.lt_irrefl 2)
    · subst ht
      exact h.starting hlt
  · rw [hstage, ← h.input]
    have hstarted := h.current_started hcurrent
    rcases ht with ⟨ht, -⟩ | ht
    · subst ht
      rfl
    · subst ht
      simp [hstarted]
  · rw [hstage, ← h.seq]
    rcases ht with ⟨ht, -⟩ | ht <;> subst ht <;> rfl
  · rcases ht with ⟨ht, -⟩ | ht <;> subst ht <;> exact h.awake
  · intro u hu
    by_cases hut : u = t
    · subst hut
      simp at hu
    · exact h.parked u ((Function.update_of_ne hut ..).symm.trans hu)
  · rw [hqueue, ← h.waits]
    rcases ht with ⟨ht, -⟩ | ht <;> subst ht <;> rfl

theorem block (h : Governed b members seat)
    (hcurrent : b.sched.currentThread = some (.inl .seq)) (hnot : ¬b.Pending .seq)
    (flag : IpcFlag) :
    ∃ s', b.onSched (.block .receivers flag false) = some s' ∧ ∀ b' : Board ι ω, b'.sched = s' →
      b'.mainPc = b.mainPc → (b'.queue.phase (.inl .seq)).WaitsRecv → b'.Pending .seq →
      ∃ members' seat', Governed b' members' seat' := by
  have hpermitted : SchedAct.Permitted b.sched members (.block .receivers flag false) :=
    ⟨_, hcurrent, h.running hcurrent hnot⟩
  obtain ⟨s', -, hs, -⟩ := h.core.sound.available hpermitted
  refine ⟨s', hs, ?_⟩
  intro b' hsched hmain hwaits hpending
  obtain ⟨members', hcore⟩ := h.core.block (by simp) hcurrent hs
  have hsame := h.core.sound.step_current hs (by simp [SchedAct.Reschedules]) (by simp)
  refine ⟨members', _, hsched ▸ hcore, unsettled ?_ hpending, ?_, ?_, ?_, ?_, ?_, ?_, ?_⟩
  · rw [hsched, hsame, hcurrent]
  · exact fun hseat => absurd hseat (h.main_started hcurrent)
  · rw [hmain]
    exact h.starting
  · rw [hmain]
    exact h.input
  · rw [hmain, ← h.seq]
    simp [h.current_started hcurrent]
  · simp
  · intro u hu
    by_cases hut : u = .seq
    · exact hut
    · exact h.parked u ((Function.update_of_ne hut ..).symm.trans hu)
  · simp [hwaits]

theorem wake (h : Governed b members seat) (hcurrent : b.sched.currentThread = some (.inl t))
    (hseat : seat .seq = .parked) :
    ∃ s', b.onSched (.wake .receivers) = some s' ∧ ∀ b' : Board ι ω, b'.sched = s' →
      b'.mainPc = b.mainPc → ¬(b'.queue.phase (.inl .seq)).WaitsRecv → b'.Pending t →
      ∃ members' seat', Governed b' members' seat' := by
  have hitems := h.core.receivers hseat h.parked
  have hpermitted : SchedAct.Permitted b.sched members (.wake .receivers) := by
    rw [SchedAct.Permitted, hitems]
    simp
  obtain ⟨s', -, hs, -⟩ := h.core.sound.available hpermitted
  refine ⟨s', hs, ?_⟩
  intro b' hsched hmain hwaits hpending
  obtain ⟨members', hcore⟩ := h.core.wake hitems hs
  have hsame := h.core.sound.step_current hs (by simp [SchedAct.Reschedules]) (by simp)
  refine ⟨members', _, hsched ▸ hcore, unsettled ?_ hpending, ?_, ?_, ?_, ?_, ?_, ?_, ?_⟩
  · rw [hsched, hsame, hcurrent]
  · exact fun hseat => absurd hseat (h.main_started hcurrent)
  · rw [hmain]
    exact h.starting
  · rw [hmain]
    exact h.input
  · rw [hmain, ← h.seq]
    simp [hseat]
  · simp
  · intro u hu
    by_cases hut : u = .seq
    · exact hut
    · exact h.parked u ((Function.update_of_ne hut ..).symm.trans hu)
  · simp [hwaits]

theorem startup (h : Governed b members seat)
    (hcurrent : b.sched.currentThread = some (.inl .main)) {u : BoardTask} {stage : Nat}
    (hu : u = .input ∧ b.mainPc.stage = 0 ∧ stage = 1 ∨
      u = .seq ∧ b.mainPc.stage = 1 ∧ stage = 2) :
    ∃ s', b.onSched (.startup (.inl u)) = some s' ∧ ∀ b' : Board ι ω, b'.sched = s' →
      b'.mainPc.stage = stage → b'.queue = b.queue →
      ∃ members' seat', Governed b' members' seat' := by
  have hunstarted : seat u = .unstarted := by
    rcases hu with ⟨hu, hstage, -⟩ | ⟨hu, hstage, -⟩ <;> subst hu
    · exact h.input.mpr hstage
    · exact h.seq.mpr (hstage ▸ Nat.one_lt_two)
  have hpermitted : SchedAct.Permitted b.sched members (.startup (.inl u)) := by
    have hstat := (h.core.seated u).stat
    rw [hunstarted] at hstat
    exact hstat
  obtain ⟨s', -, hs, -⟩ := h.core.sound.available hpermitted
  refine ⟨s', hs, ?_⟩
  intro b' hsched hstage hqueue
  obtain ⟨members', hcore⟩ := h.core.startup hs
  have hreschedules : SchedAct.Reschedules b.sched (.startup (.inl u)) := by
    simp [SchedAct.Reschedules, hcurrent]
  have hsettled := h.core.sound.step_settled hreschedules hs
  have hmain : u ≠ .main := by rcases hu with ⟨hu, -⟩ | ⟨hu, -⟩ <;> simp [hu]
  refine ⟨members', _, hsched ▸ hcore, fun _ _ _ => hsched ▸ hsettled, ?_, ?_, ?_, ?_, ?_, ?_, ?_⟩
  · intro hseat
    rw [Function.update_of_ne hmain.symm] at hseat
    exact absurd hseat (h.main_started hcurrent)
  · intro hlt
    rw [Function.update_of_ne hmain.symm]
    apply h.starting
    omega
  · have hinput := h.input
    rw [hstage]
    rcases hu with ⟨hu, -, htarget⟩ | ⟨hu, hone, htarget⟩ <;> subst hu
    · simp [htarget]
    · rw [Function.update_of_ne (by simp), hinput, hone, htarget]
      simp
  · have hseq := h.seq
    rw [hstage]
    rcases hu with ⟨hu, hzero, htarget⟩ | ⟨hu, -, htarget⟩ <;> subst hu
    · rw [Function.update_of_ne (by simp), hseq, hzero, htarget]
      simp
    · simp [htarget]
  · by_cases huseq : u = .seq
    · subst huseq
      simp
    · rw [Function.update_of_ne fun heq => huseq heq.symm]
      exact h.awake
  · intro v hv
    by_cases hvu : v = u
    · subst hvu
      simp at hv
    · exact h.parked v ((Function.update_of_ne hvu ..).symm.trans hv)
  · rw [hqueue, ← h.waits]
    by_cases huseq : u = .seq
    · subst huseq
      simp [hunstarted]
    · rw [Function.update_of_ne fun heq => huseq heq.symm]

end Governed

end DrumMachine
