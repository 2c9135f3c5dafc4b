import DrumMachine.Firmware.Board
import DrumMachine.Properties.SchedulerFrame
import DrumMachine.Properties.TimeSlice

/-!
# The threads of the firmware in the scheduler

Whatever interrupts and other threads do, a thread of the firmware is not started, can run,
sleeps or waits for a message, it keeps the priority it was created with, and while it runs
and has nothing to reschedule no thread of a higher priority can run.
-/

namespace DrumMachine

open Framework

variable {ι ω : Type} [DecidableEq ι] [DecidableEq ω]

/-- Where a thread of the firmware stands. -/
inductive Seat
  | unstarted
  | runnable
  | asleep
  | parked
deriving DecidableEq

def Seat.Allows : Seat → ThreadStat → Prop
  | .unstarted, stat => stat = .init
  | .runnable, stat => stat.Runnable
  | .asleep, stat => stat = .suspend
  | .parked, stat => stat = .suspend

structure Seat.Holds (seat : Seat) (s : Scheduler (BoardThread ι) (BoardObject ω))
    (members : ListHead (BoardObject ω) → List (BoardThread ι)) (t : BoardThread ι) : Prop where
  stat : seat.Allows (s.thread t).stat
  timer : seat ≠ .asleep → (s.thread t).timerActivated = false
  waiting : ∀ o, t ∈ members (.waiting o) ↔ seat = .parked ∧ o = .receivers

section Holds

variable {s s' : Scheduler (BoardThread ι) (BoardObject ω)}
variable {members members' : ListHead (BoardObject ω) → List (BoardThread ι)}
variable {t : BoardThread ι} {seat : Seat}

omit [DecidableEq ι] [DecidableEq ω] in
theorem Seat.Holds.kept (h : seat.Holds s members t) (h' : Kept s s' members members' t) :
    seat.Holds s' members' t where
  stat := by
    cases seat with
    | unstarted => exact h'.init_iff.mpr h.stat
    | runnable => exact h'.runnable_iff.mpr h.stat
    | asleep => exact h'.suspend_iff.mpr h.stat
    | parked => exact h'.suspend_iff.mpr h.stat
  timer hseat := h'.timer.trans (h.timer hseat)
  waiting o := (h'.waiting o).trans (h.waiting o)

omit [DecidableEq ι] [DecidableEq ω] in
theorem Woken.holds (h : Woken s s' members' t) : Seat.runnable.Holds s' members' t where
  stat := h.stat
  timer _ := h.timer
  waiting o := iff_of_false (h.waiting o) (by simp)

omit [DecidableEq ι] [DecidableEq ω] in
theorem Suspended.asleep (h : Suspended s s' members' t (fun _ => False) true) :
    Seat.asleep.Holds s' members' t where
  stat := h.stat
  timer hseat := absurd rfl hseat
  waiting o := (h.waiting o).trans (by simp)

omit [DecidableEq ι] [DecidableEq ω] in
theorem Suspended.parked (h : Suspended s s' members' t (fun o => o = .receivers) false) :
    Seat.parked.Holds s' members' t where
  stat := h.stat
  timer _ := h.timer
  waiting o := (h.waiting o).trans (by simp)

end Holds

structure Core (s : Scheduler (BoardThread ι) (BoardObject ω))
    (members : ListHead (BoardObject ω) → List (BoardThread ι)) (seat : BoardTask → Seat) :
    Prop where
  sound : SchedSound s members
  unlocked : (∀ i, s.currentThread ≠ some (.inr i)) → s.lockNest = 0
  priority : ∀ t : BoardTask, s.priority (.inl t) = t.priority ∧
    (s.thread (.inl t)).initPriority = t.priority
  seated : ∀ t, (seat t).Holds s members (.inl t)
  apart : ∀ i, .inr i ∉ members (.waiting .receivers)
  idle : s.currentThread.isSome → seat .idle = .runnable

section Core

variable [Fintype ι]
variable {s s' : Scheduler (BoardThread ι) (BoardObject ω)}
variable {members : ListHead (BoardObject ω) → List (BoardThread ι)}
variable {seat seat' : BoardTask → Seat} {t : BoardTask}
variable {act : SchedAct (BoardThread ι) (BoardObject ω)}

omit [DecidableEq ι] [DecidableEq ω] [Fintype ι] in
/-- A task that runs while the scheduler is settled is running in the sense of the kernel, and
every other task that can run has a lower priority. -/
theorem Core.highest (h : Core s members seat) (hsettled : Settled s)
    (hcurrent : s.currentThread = some (.inl t)) :
    (s.thread (.inl t)).stat = .running ∧
      ∀ u ≠ t, seat u = .runnable → t.priority ≤ u.priority := by
  have hlock := h.unlocked (by simp [hcurrent])
  have hready : ∀ u ≠ t, seat u = .runnable → (s.thread (.inl u)).stat = .ready := by
    intro u hu hseat
    have hstat := (h.seated u).stat
    rw [hseat] at hstat
    apply hstat.resolve_right
    intro hrunning
    have hsame := hcurrent.symm.trans ((h.sound.placed (.inl u)).running hrunning)
    exact hu (Sum.inl.inj (Option.some.inj hsame)).symm
  have hidle := h.idle (by simp [hcurrent])
  rcases hsettled hlock with hnone | ⟨c, hc, hrunning, hhighest⟩
  · have hti : t = .idle := by
      by_contra hne
      exact hnone _ (hready .idle (fun heq => hne heq.symm) hidle)
    subst hti
    have hstat := (h.seated .idle).stat
    rw [hidle] at hstat
    refine ⟨hstat.resolve_left (hnone _), ?_⟩
    intro u hu hseat
    exact absurd (hready u hu hseat) (hnone _)
  · cases hcurrent.symm.trans hc
    refine ⟨hrunning, ?_⟩
    intro u hu hseat
    have hle := hhighest _ (hready u hu hseat)
    rw [(h.priority t).1, (h.priority u).1] at hle
    exact hle

private theorem unlocked_step (h : Core s members seat) (hs : s.step act = some s')
    (henter : act = .enterCritical → ∃ i, s.currentThread = some (.inr i))
    (hexit : act = .exitCritical → ∃ i, s.currentThread = some (.inr i))
    (hnot : ∀ i, s'.currentThread ≠ some (.inr i)) : s'.lockNest = 0 := by
  by_cases hin : act = .enterCritical
  · obtain ⟨i, hi⟩ := henter hin
    subst hin
    cases hs
    exact absurd hi (hnot i)
  by_cases hout : act = .exitCritical
  · obtain ⟨i, hi⟩ := hexit hout
    subst hout
    rcases h.sound.exitCritical_lock hs with hlock | hsame
    · exact hlock
    · exact absurd (hsame.trans hi) (hnot i)
  rw [h.sound.step_lock hs hin hout]
  by_contra hlock
  have hother : ∃ i, s.currentThread = some (.inr i) := by
    by_contra hnone
    exact hlock (h.unlocked fun i hi => hnone ⟨i, hi⟩)
  obtain ⟨i, hi⟩ := hother
  have hnest : act.nest = 0 := by
    cases act with
    | enterCritical => exact absurd rfl hin
    | exitCritical => exact absurd rfl hout
    | _ => rfl
  exact hnot i ((step_held hi hlock hs hnest).1.trans hi)

omit [DecidableEq ι] [DecidableEq ω] [Fintype ι] in
/-- The list of the queue's suspended receivers, in which no other thread than the sequencer
can be. -/
theorem Core.receivers (h : Core s members seat) (hseq : seat .seq = .parked)
    (hother : ∀ t, seat t = .parked → t = .seq) :
    members (.waiting .receivers) = [.inl .seq] := by
  have hparked : ∀ t, .inl t ∈ members (.waiting .receivers) ↔ seat t = .parked := by
    intro t
    rw [(h.seated t).waiting, and_iff_left rfl]
  apply List.perm_singleton.mp
  rw [List.perm_ext_iff_of_nodup (h.sound.table.rings.nodup _) (List.nodup_singleton _)]
  intro u
  rw [List.mem_singleton]
  cases u with
  | inl t =>
    rw [hparked, Sum.inl.injEq]
    constructor
    · exact hother t
    · intro ht
      exact ht ▸ hseq
  | inr i => exact iff_of_false (h.apart i) (by simp)

/-- A step of the scheduler, for which the seat of the task that it is about is known. -/
theorem Core.step (h : Core s members seat) (hs : s.step act = some s')
    (henter : act = .enterCritical → ∃ i, s.currentThread = some (.inr i))
    (hexit : act = .exitCritical → ∃ i, s.currentThread = some (.inr i))
    (hblock : ∀ flag timed, act = .block .receivers flag timed →
      ∃ t, s.currentThread = some (.inl t))
    (hidle : s'.currentThread.isSome → seat' .idle = .runnable)
    (hother : ∀ t, act.subject s members ≠ some (.inl t) → seat' t = seat t)
    (habout : ∀ t members', act.subject s members = some (.inl t) → SchedSound s' members' →
      (seat' t).Holds s' members' (.inl t) ∧ s'.priority (.inl t) = s.priority (.inl t) ∧
        (s'.thread (.inl t)).initPriority = (s.thread (.inl t)).initPriority) :
    ∃ members', Core s' members' seat' := by
  obtain ⟨members', hsound⟩ := h.sound.step hs
  have hkept : ∀ t, act.subject s members ≠ some (.inl t) → Kept s s' members members' (.inl t) :=
    fun t ht => h.sound.step_kept hsound hs ht
  refine ⟨members', hsound, unlocked_step h hs henter hexit, ?_, ?_, ?_, hidle⟩
  · intro t
    obtain ⟨hcurrent, hinit⟩ := h.priority t
    by_cases ht : act.subject s members = some (.inl t)
    · obtain ⟨-, hcurrent', hinit'⟩ := habout t members' ht hsound
      exact ⟨hcurrent'.trans hcurrent, hinit'.trans hinit⟩
    · exact ⟨(hkept t ht).priority.trans hcurrent, (hkept t ht).initPriority.trans hinit⟩
  · intro t
    by_cases ht : act.subject s members = some (.inl t)
    · exact (habout t members' ht hsound).1
    · rw [hother t ht]
      exact (h.seated t).kept (hkept t ht)
  · intro i hmem
    apply h.apart i
    apply h.sound.step_waiting hsound hs _ hmem
    intro flag timed hact hcurrent
    obtain ⟨t, ht⟩ := hblock flag timed hact
    cases hcurrent.symm.trans ht

/-- While nobody runs, nobody is given the processor but by the start of the scheduler. -/
theorem SchedSound.current_none (h : SchedSound s members) (hs : s.step act = some s')
    (hnone : s.currentThread = none) (hstart : act ≠ .start) : s'.currentThread = none := by
  have hnot : ¬act.Reschedules s := by
    cases act <;> simp [SchedAct.Reschedules, hnone]
  rw [h.step_current hs hnot hstart, hnone]

/-- A call that is about no task. -/
theorem Core.pass (h : Core s members seat) (hs : s.step act = some s')
    (henter : act = .enterCritical → ∃ i, s.currentThread = some (.inr i))
    (hexit : act = .exitCritical → ∃ i, s.currentThread = some (.inr i))
    (hstart : act = .start → seat .idle = .runnable)
    (hblock : ∀ flag timed, act ≠ .block .receivers flag timed)
    (hother : ∀ t, act.subject s members ≠ some (.inl t)) :
    ∃ members', Core s' members' seat := by
  refine h.step hs henter hexit (fun _ _ hact => absurd hact (hblock _ _)) ?_ (fun _ _ => rfl)
    fun t _ ht => absurd ht (hother t)
  intro hsome
  by_cases hact : act = .start
  · exact hstart hact
  · apply h.idle
    rw [Option.isSome_iff_ne_none]
    intro hnone
    rw [h.sound.current_none hs hnone hact] at hsome
    cases hsome

/-- A call that is about one task, which takes a new seat. -/
private theorem Core.move (h : Core s members seat) (hs : s.step act = some s')
    (henter : act ≠ .enterCritical) (hexit : act ≠ .exitCritical) (hstart : act ≠ .start)
    {place : Seat} (habout : act.subject s members = some (.inl t))
    (hidle : t = .idle → place = .runnable)
    (hholds : ∀ members', SchedSound s' members' →
      place.Holds s' members' (.inl t) ∧ s'.priority (.inl t) = s.priority (.inl t) ∧
        (s'.thread (.inl t)).initPriority = (s.thread (.inl t)).initPriority) :
    ∃ members', Core s' members' (Function.update seat t place) := by
  apply h.step hs (fun heq => absurd heq henter) fun heq => absurd heq hexit
  · intro flag timed hact
    subst hact
    exact ⟨t, habout⟩
  · intro hsome
    by_cases ht : BoardTask.idle = t
    · subst ht
      rw [Function.update_self]
      exact hidle rfl
    · rw [Function.update_of_ne ht]
      apply h.idle
      rw [Option.isSome_iff_ne_none]
      intro hnone
      rw [h.sound.current_none hs hnone hstart] at hsome
      cases hsome
  · intro u hu
    apply Function.update_of_ne
    intro hut
    subst hut
    exact hu habout
  · intro u members' hu hsound
    cases Sum.inl.inj (Option.some.inj (habout.symm.trans hu))
    rw [Function.update_self]
    exact hholds members' hsound

theorem Core.schedule (h : Core s members seat) (hs : s.step .schedule = some s') :
    ∃ members', Core s' members' seat :=
  h.pass hs (by simp) (by simp) (by simp) (by simp) (by simp [SchedAct.subject])

theorem Core.sleep (h : Core s members seat) (ht : t ≠ .idle)
    (hcurrent : s.currentThread = some (.inl t)) (hs : s.step .sleep = some s') :
    ∃ members', Core s' members' (Function.update seat t .asleep) := by
  apply h.move hs (by simp) (by simp) (by simp) hcurrent (fun heq => absurd heq ht)
  intro members' hsound
  have hsuspended := h.sound.sleep_suspended hsound hcurrent hs
  exact ⟨hsuspended.asleep, hsuspended.priority, hsuspended.initPriority⟩

theorem Core.block (h : Core s members seat) (ht : t ≠ .idle) {flag : IpcFlag}
    (hcurrent : s.currentThread = some (.inl t))
    (hs : s.step (.block .receivers flag false) = some s') :
    ∃ members', Core s' members' (Function.update seat t .parked) := by
  apply h.move hs (by simp) (by simp) (by simp) hcurrent (fun heq => absurd heq ht)
  intro members' hsound
  have hsuspended := h.sound.block_suspended hsound hcurrent hs
  exact ⟨hsuspended.parked, hsuspended.priority, hsuspended.initPriority⟩

theorem Core.wake (h : Core s members seat) {rest : List (BoardThread ι)}
    (hitems : members (.waiting .receivers) = .inl t :: rest)
    (hs : s.step (.wake .receivers) = some s') :
    ∃ members', Core s' members' (Function.update seat t .runnable) := by
  have hhead : SchedAct.subject s members (.wake .receivers) = some (.inl t) := by
    rw [SchedAct.subject, hitems]
    rfl
  apply h.move hs (by simp) (by simp) (by simp) hhead (fun _ => rfl)
  intro members' hsound
  have hwoken := h.sound.wake_woken hsound hitems hs
  exact ⟨hwoken.holds, hwoken.priority, hwoken.initPriority⟩

theorem Core.startup (h : Core s members seat) (hs : s.step (.startup (.inl t)) = some s') :
    ∃ members', Core s' members' (Function.update seat t .runnable) := by
  apply h.move hs (by simp) (by simp) (by simp) rfl (fun _ => rfl)
  intro members' hsound
  obtain ⟨hcurrent, hinit⟩ := h.priority t
  have hwoken := h.sound.startup_woken hsound (hcurrent.trans hinit.symm) hs
  exact ⟨hwoken.holds, hwoken.priority, hwoken.initPriority⟩

theorem Core.timeout (h : Core s members seat) (hs : s.step (.timeout (.inl t)) = some s') :
    seat t = .asleep ∧ ∃ members', Core s' members' (Function.update seat t .runnable) := by
  constructor
  · obtain ⟨-, htimer⟩ := permitted_of_step h.sound hs
    by_contra hseat
    rw [(h.seated t).timer hseat] at htimer
    cases htimer
  · apply h.move hs (by simp) (by simp) (by simp) rfl (fun _ => rfl)
    intro members' hsound
    have hwoken := h.sound.timeout_woken hsound hs
    exact ⟨hwoken.holds, hwoken.priority, hwoken.initPriority⟩

omit [DecidableEq ι] [DecidableEq ω] [Fintype ι] in
theorem core_start (others : ThreadTable ι) :
    Core ({
      links := ⟨id, id⟩
      thread := fun t =>
        rtThreadInit ((boardThreads others).priority t) ((boardThreads others).tick t)
      readyPriorityGroup := 0#32
      currentThread := none
      lockNest := 0 } : Scheduler (BoardThread ι) (BoardObject ω)) (fun _ => [])
      (fun _ => .unstarted) where
  sound := schedSound_start (boardThreads others)
  unlocked _ := rfl
  priority _ := ⟨rfl, rfl⟩
  seated _ := ⟨rfl, fun _ => rfl, by simp⟩
  apart := by simp
  idle := by simp

end Core

/-- What foreign calls do to the seats: a sleep ends, and the start of the kernel starts its
own threads. -/
def SeatsMove (seat seat' : BoardTask → Seat) : Prop :=
  ∀ t, seat' t = seat t ∨ seat' t = .runnable ∧
    (seat t = .asleep ∨ seat t = .unstarted ∧ (t = .main ∨ t = .idle))

section Foreign

variable [Fintype ι] {b : Board ι ω} {s' : Scheduler (BoardThread ι) (BoardObject ω)}
variable {members : ListHead (BoardObject ω) → List (BoardThread ι)} {seat : BoardTask → Seat}
variable {act : SchedAct (BoardThread ι) (BoardObject ω)}

private theorem update_moves {t : BoardTask}
    (h : seat t = .asleep ∨ seat t = .unstarted ∧ (t = .main ∨ t = .idle)) :
    SeatsMove seat (Function.update seat t .runnable) := by
  intro u
  by_cases hu : u = t
  · subst hu
    exact Or.inr ⟨Function.update_self .., h⟩
  · exact Or.inl (Function.update_of_ne hu ..)

omit [DecidableEq ι] [DecidableEq ω] [Fintype ι] in
/-- No task waits for an object of other threads. -/
theorem Core.notMem_other (h : Core b.sched members seat) (t : BoardTask) (o : ω) :
    .inl t ∉ members (.waiting (.other o)) := by
  rw [(h.seated t).waiting]
  simp

omit [DecidableEq ι] [DecidableEq ω] [Fintype ι] in
private theorem wake_other (h : Core b.sched members seat) (t : BoardTask) (o : ω) :
    SchedAct.subject b.sched members (.wake (.other o)) ≠ some (.inl t) := by
  intro hhead
  exact h.notMem_other t o (List.mem_of_mem_head? hhead)

theorem Core.release {o : ω} (h : Core b.sched members seat)
    (hs : b.sched.step (.wake (.other o)) = some s') : ∃ members', Core s' members' seat :=
  h.pass hs (by simp) (by simp) (by simp) (by simp) fun t => wake_other h t o

/-- A foreign call leaves the tasks in their seats, but for a timer that wakes one. -/
theorem Core.foreign (h : Core b.sched members seat) (hforeign : b.Foreign act)
    (hs : b.sched.step act = some s') :
    ∃ members' seat', Core s' members' seat' ∧ SeatsMove seat seat' := by
  have hstay : SeatsMove seat seat := fun t => Or.inl rfl
  -- a call of another thread, or of an interrupt about another thread
  have hpass : (act = .enterCritical → b.OtherRuns) → (act = .exitCritical → b.OtherRuns) →
      (act = .start → seat .idle = .runnable) →
      (∀ t, act.subject b.sched members ≠ some (.inl t)) →
      ∃ members' seat', Core s' members' seat' ∧ SeatsMove seat seat' := by
    intro henter hexit hstart hother
    have hblock : ∀ flag timed, act ≠ .block .receivers flag timed := by
      intro flag timed hact
      subst hact
      exact hforeign
    obtain ⟨members', hcore⟩ := h.pass hs henter hexit hstart hblock hother
    exact ⟨members', seat, hcore, hstay⟩
  have hsubject : b.OtherRuns → ∀ t, b.sched.currentThread ≠ some (.inl t) := by
    intro ⟨i, hi⟩ t ht
    cases hi.symm.trans ht
  have hunstarted : ∀ t, (b.sched.thread (.inl t)).stat = .init → seat t = .unstarted := by
    intro t ht
    have hstat := (h.seated t).stat
    rw [ht] at hstat
    cases hseat : seat t <;> rw [hseat] at hstat <;>
      simp [Seat.Allows, ThreadStat.Runnable] at hstat ⊢
  cases act with
  | tick => exact hpass (by simp) (by simp) (by simp) (by simp [SchedAct.subject])
  | timeout t =>
    cases t with
    | inl t =>
      obtain ⟨hseat, members', hcore⟩ := h.timeout hs
      exact ⟨members', _, hcore, update_moves (Or.inl hseat)⟩
    | inr i => exact hpass (by simp) (by simp) (by simp) (by simp [SchedAct.subject])
  | startup t =>
    have hinit := permitted_of_step h.sound hs
    cases t with
    | inl t =>
      have ht : t = .main ∨ t = .idle := by
        cases t with
        | main => exact Or.inl rfl
        | idle => exact Or.inr rfl
        | input => cases hforeign
        | seq => cases hforeign
      obtain ⟨members', hcore⟩ := h.startup hs
      exact ⟨members', _, hcore, update_moves (Or.inr ⟨hunstarted t hinit, ht⟩)⟩
    | inr i => exact hpass (by simp) (by simp) (by simp) (by simp [SchedAct.subject])
  | start =>
    refine hpass (by simp) (by simp) ?_ (by simp [SchedAct.subject])
    intro _
    have hready : (b.sched.thread (.inl .idle)).stat = .ready := hforeign.2
    have hstat := (h.seated .idle).stat
    rw [hready] at hstat
    cases hseat : seat .idle <;> rw [hseat] at hstat <;> simp [Seat.Allows] at hstat ⊢
  | yield => exact hpass (by simp) (by simp) (by simp) (by simp [SchedAct.subject])
  | sleep => exact hpass (by simp) (by simp) (by simp) (hsubject hforeign)
  | block o flag timed =>
    have hother : b.OtherRuns := by
      cases o with
      | other o => exact hforeign
      | receivers => cases hforeign
      | senders => cases hforeign
    exact hpass (by simp) (by simp) (by simp) (hsubject hother)
  | suspend t =>
    cases t with
    | inl t => cases hforeign
    | inr i => exact hpass (by simp) (by simp) (by simp) (by simp [SchedAct.subject])
  | resume t =>
    cases t with
    | inl t => cases hforeign
    | inr i => exact hpass (by simp) (by simp) (by simp) (by simp [SchedAct.subject])
  | wake o =>
    cases o with
    | other o => exact hpass (by simp) (by simp) (by simp) fun t => wake_other h t o
    | receivers => cases hforeign
    | senders => cases hforeign
  | changePriority t priority =>
    cases t with
    | inl t => cases hforeign
    | inr i => exact hpass (by simp) (by simp) (by simp) (by simp [SchedAct.subject])
  | close t => cases hforeign
  | exit => exact hpass (by simp) (by simp) (by simp) (hsubject hforeign)
  | enterCritical =>
    exact hpass (fun _ => hforeign) (by simp) (by simp) (by simp [SchedAct.subject])
  | exitCritical =>
    exact hpass (by simp) (fun _ => hforeign) (by simp) (by simp [SchedAct.subject])
  | schedule => exact hpass (by simp) (by simp) (by simp) (by simp [SchedAct.subject])

/-- A foreign call gives the processor to a task only through a rescheduling. -/
theorem Core.foreign_settled (h : Core b.sched members seat) (hforeign : b.Foreign act)
    (hs : b.sched.step act = some s') {t : BoardTask}
    (hsettled : b.sched.currentThread = some (.inl t) → Settled b.sched)
    (hcurrent : s'.currentThread = some (.inl t)) : Settled s' := by
  by_cases hreschedules : act.Reschedules b.sched
  · exact h.sound.step_settled hreschedules hs
  by_cases hstart : act = .start
  · subst hstart
    exact h.sound.start_settled hs
  have hsame := h.sound.step_current hs hreschedules hstart
  rw [hcurrent] at hsame
  have hsome : b.sched.currentThread.isSome := by simp [← hsame]
  have hnot : ¬b.OtherRuns := by
    intro ⟨i, hi⟩
    cases hsame.trans hi
  cases act with
  | tick => exact h.sound.tick_settled (hsettled hsame.symm) hs
  | timeout t => exact absurd hsome hreschedules
  | startup t => exact absurd hsome hreschedules
  | start => exact absurd rfl hstart
  | block o flag timed =>
    cases o with
    | other o => exact absurd hforeign hnot
    | receivers => cases hforeign
    | senders => cases hforeign
  | wake o =>
    cases o with
    | other o => exact absurd hforeign hnot
    | receivers => cases hforeign
    | senders => cases hforeign
  | suspend t => cases t <;> [cases hforeign; exact absurd hforeign hnot]
  | resume t => cases t <;> [cases hforeign; exact absurd hforeign hnot]
  | changePriority t priority => cases t <;> [cases hforeign; exact absurd hforeign hnot]
  | close t => cases hforeign
  | _ => exact absurd hforeign hnot

end Foreign

end DrumMachine
