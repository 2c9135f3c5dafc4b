import DrumMachine.Properties.ReadyTable

/-!
# Soundness of the scheduler

Whatever threads and interrupts call, and in whatever order, every thread lies in the one
list that its status names, only the current thread is running, and only a suspended thread
has its timer started.
-/

namespace DrumMachine

open Framework

variable {τ ω : Type} [DecidableEq τ] [DecidableEq ω]

/-- The thread lies in the list that its status names. -/
structure Placed (s : Scheduler τ ω) (members : ListHead ω → List τ) (t : τ) : Prop where
  ready : (s.thread t).stat = .ready ↔ t ∈ members (.ready (s.priority t))
  waiting : ∀ {o}, t ∈ members (.waiting o) → (s.thread t).stat = .suspend
  running : (s.thread t).stat = .running → s.currentThread = some t
  current : s.currentThread = some t → (s.thread t).stat ≠ .ready ∧ (s.thread t).stat ≠ .init
  timer : (s.thread t).timerActivated = true → (s.thread t).stat = .suspend

structure SchedSound (s : Scheduler τ ω) (members : ListHead ω → List τ) : Prop where
  table : ReadyTable s members
  placed : ∀ t, Placed s members t

section Placed

variable {s s' : Scheduler τ ω} {members members' : ListHead ω → List τ} {t u : τ}

omit [DecidableEq τ] [DecidableEq ω] in
theorem Placed.frame (h : Placed s members u) (hthread : s'.thread u = s.thread u)
    (hcurrent : s'.currentThread = some u ↔ s.currentThread = some u)
    (hmembers : ∀ i, u ∈ members' i ↔ u ∈ members i) : Placed s' members' u := by
  refine ⟨?_, ?_, ?_, ?_, ?_⟩
  · rw [hthread, hmembers, Scheduler.priority, hthread]
    exact h.ready
  · intro o hu
    rw [hthread]
    exact h.waiting ((hmembers _).mp hu)
  · rw [hthread, hcurrent]
    exact h.running
  · rw [hthread, hcurrent]
    exact h.current
  · rw [hthread]
    exact h.timer

omit [DecidableEq τ] [DecidableEq ω] in
theorem Placed.timer_off (h : Placed s members t) (hstat : (s.thread t).stat ≠ .suspend) :
    (s.thread t).timerActivated = false := by
  rw [Bool.eq_false_iff]
  intro ht
  exact hstat (h.timer ht)

omit [DecidableEq τ] [DecidableEq ω] in
theorem SchedSound.notMem_ready (h : SchedSound s members) (hstat : (s.thread t).stat ≠ .ready)
    (p : Nat) : t ∉ members (.ready p) := by
  intro ht
  rw [← h.table.level ht] at ht
  exact hstat ((h.placed t).ready.mpr ht)

omit [DecidableEq τ] [DecidableEq ω] in
theorem SchedSound.notMem (h : SchedSound s members) (hready : (s.thread t).stat ≠ .ready)
    (hsuspend : (s.thread t).stat ≠ .suspend) (i : ListHead ω) : t ∉ members i := by
  cases i with
  | ready p => exact h.notMem_ready hready p
  | waiting o => exact fun ht => hsuspend ((h.placed t).waiting ht)

omit [DecidableEq ω] in
private theorem mem_erase_iff (h : u ≠ t) (i : ListHead ω) :
    u ∈ (members i).erase t ↔ u ∈ members i := List.mem_erase_of_ne h

omit [DecidableEq τ] in
private theorem mem_append_iff (h : u ≠ t) (i j : ListHead ω) :
    u ∈ Function.update members i (members i ++ [t]) j ↔ u ∈ members j := by
  by_cases hij : j = i
  · subst hij
    rw [Function.update_self, List.mem_append, List.mem_singleton, or_iff_left h]
  · rw [Function.update_of_ne hij]

end Placed

section Moves

variable {s : Scheduler τ ω} {members : ListHead ω → List τ} {t : τ}

/-- A thread leaves every list and takes a status of its own. -/
theorem ReadyTable.leave (h : ReadyTable s members)
    (hmask : (s.thread t).numberMask = 1#32 <<< s.priority t)
    (hother : ∀ u ≠ t, Placed s members u) {f : RtThread → RtThread}
    (hpriority : (f (s.thread t)).currentPriority = s.priority t ∧
      (f (s.thread t)).initPriority = (s.thread t).initPriority ∧
      (f (s.thread t)).numberMask = (s.thread t).numberMask)
    (hready : (f (s.thread t)).stat ≠ .ready)
    (hrunning : (f (s.thread t)).stat = .running → s.currentThread = some t)
    (hcurrent : s.currentThread = some t → (f (s.thread t)).stat ≠ .init)
    (htimer : (f (s.thread t)).timerActivated = true → (f (s.thread t)).stat = .suspend) :
    SchedSound ((s.rtScheduleRemoveThread t).update t f) fun i => (members i).erase t where
  table := by
    obtain ⟨hcurrent, hinit, hnumber⟩ := hpriority
    apply (h.remove hmask).update
    · exact Or.inr hcurrent
    · change (f (s.thread t)).currentPriority < 32 ∧ (f (s.thread t)).initPriority < 32
      rw [hcurrent, hinit]
      exact h.bounded t
    · intro _
      change (f (s.thread t)).numberMask = 1#32 <<< (f (s.thread t)).currentPriority
      rw [hcurrent, hnumber]
      exact hmask
  placed := by
    intro u
    by_cases hu : u = t
    · subst hu
      have hout : ∀ i, u ∉ (members i).erase u := fun i => (h.rings.nodup i).not_mem_erase
      have hthread : ((s.rtScheduleRemoveThread u).update u f).thread u = f (s.thread u) :=
        Scheduler.update_thread_self ..
      refine ⟨?_, fun hmem => absurd hmem (hout _), ?_, ?_, ?_⟩
      · rw [hthread]
        exact iff_of_false hready (hout _)
      · rw [hthread]
        exact hrunning
      · rw [hthread]
        exact fun hcur => ⟨hready, hcurrent hcur⟩
      · rw [hthread]
        exact htimer
    · exact (hother u hu).frame (Scheduler.update_thread_of_ne _ hu f) Iff.rfl (mem_erase_iff hu)

theorem ReadyTable.run (h : ReadyTable s members)
    (hmask : (s.thread t).numberMask = 1#32 <<< s.priority t)
    (hother : ∀ u ≠ t, Placed s members u) (hcurrent : s.currentThread = some t)
    (htimer : (s.thread t).timerActivated = false) :
    SchedSound (s.run t) fun i => (members i).erase t := by
  apply h.leave (f := fun thread => { thread with stat := .running }) hmask hother
    ⟨rfl, rfl, rfl⟩
  · simp
  · exact fun _ => hcurrent
  · simp
  · intro htimer'
    change (s.thread t).timerActivated = true at htimer'
    rw [htimer] at htimer'
    cases htimer'

/-- A thread that lies in no list becomes ready. -/
theorem ReadyTable.join (h : ReadyTable s members)
    (hmask : (s.thread t).numberMask = 1#32 <<< s.priority t)
    (hother : ∀ u ≠ t, Placed s members u) (hfresh : ∀ i, t ∉ members i)
    (hcurrent : s.currentThread ≠ some t) (htimer : (s.thread t).timerActivated = false) :
    SchedSound (s.enqueue t)
      (Function.update members (.ready (s.priority t))
        (members (.ready (s.priority t)) ++ [t])) where
  table := h.enqueue hfresh hmask
  placed := by
    intro u
    by_cases hu : u = t
    · subst hu
      have hthread := s.enqueue_thread_self u
      have hpriority : (s.enqueue u).priority u = s.priority u := by
        rw [Scheduler.priority, hthread]
        rfl
      refine ⟨?_, ?_, ?_, fun hc => absurd hc hcurrent, ?_⟩
      · rw [hthread, hpriority, Function.update_self]
        exact iff_of_true rfl (List.mem_append_right _ (List.mem_singleton_self u))
      · intro o hmem
        rw [Function.update_of_ne (by simp)] at hmem
        exact absurd hmem (hfresh _)
      · simp
      · rw [hthread]
        intro htimer'
        change (s.thread u).timerActivated = true at htimer'
        rw [htimer] at htimer'
        cases htimer'
    · exact (hother u hu).frame (s.enqueue_thread_of_ne hu) Iff.rfl (mem_append_iff hu _)

/-- The current thread only goes on running when it is made ready. -/
theorem ReadyTable.goOn (h : ReadyTable s members)
    (hmask : (s.thread t).numberMask = 1#32 <<< s.priority t)
    (hother : ∀ u ≠ t, Placed s members u) (hfresh : ∀ i, t ∉ members i)
    (hcurrent : s.currentThread = some t) (htimer : (s.thread t).timerActivated = false) :
    SchedSound (s.rtScheduleInsertThread t) members := by
  rw [Scheduler.rtScheduleInsertThread, if_pos hcurrent]
  refine ⟨h.update (Or.inr rfl) (h.bounded t) fun _ => hmask, ?_⟩
  intro u
  by_cases hu : u = t
  · subst hu
    refine ⟨?_, fun hmem => absurd hmem (hfresh _), fun _ => hcurrent, ?_, ?_⟩
    · rw [s.update_thread_self]
      exact iff_of_false (by simp) (hfresh _)
    · rw [s.update_thread_self]
      simp
    · rw [s.update_thread_self]
      intro htimer'
      change (s.thread u).timerActivated = true at htimer'
      rw [htimer] at htimer'
      cases htimer'
  · exact (hother u hu).frame (s.update_thread_of_ne hu _) Iff.rfl fun _ => Iff.rfl

end Moves

section Dispatch

variable {s s' : Scheduler τ ω} {members members' : ListHead ω → List τ} {c t u : τ}

omit [DecidableEq τ] [DecidableEq ω] in
theorem ReadyTable.withCurrent (h : ReadyTable s members) (current : Option τ) :
    ReadyTable { s with currentThread := current } members :=
  ⟨h.rings, h.level, h.group, h.bounded, h.mask⟩

omit [DecidableEq τ] [DecidableEq ω] in
theorem Placed.vacate (h : Placed s members u) (hstat : (s.thread u).stat ≠ .running) :
    Placed { s with currentThread := none } members u :=
  ⟨h.ready, h.waiting, fun hrun => absurd hrun hstat, by simp, h.timer⟩

omit [DecidableEq τ] [DecidableEq ω] in
theorem Placed.occupy (h : Placed s members u) (hnone : s.currentThread = none) (hu : u ≠ t) :
    Placed { s with currentThread := some t } members u := by
  have hsome : some t ≠ some u := fun htu => hu (Option.some.inj htu).symm
  have hnone' : s.currentThread ≠ some u := by
    simp [hnone]
  exact h.frame rfl (iff_of_false hsome hnone') fun _ => Iff.rfl

omit [DecidableEq ω] in
/-- A change of one thread that concerns neither its place nor its timer. -/
theorem SchedSound.touch (h : SchedSound s members) {f : RtThread → RtThread}
    (hstat : (f (s.thread t)).stat = (s.thread t).stat)
    (hpriority : (f (s.thread t)).currentPriority = s.priority t)
    (hinit : (f (s.thread t)).initPriority = (s.thread t).initPriority)
    (hnumber : (f (s.thread t)).numberMask = (s.thread t).numberMask)
    (htimer : (f (s.thread t)).timerActivated = (s.thread t).timerActivated) :
    SchedSound (s.update t f) members where
  table := by
    apply h.table.update (Or.inr hpriority)
    · rw [hpriority, hinit]
      exact h.table.bounded t
    · intro hlive
      rw [hstat] at hlive
      rw [hnumber, hpriority]
      exact h.table.mask hlive
  placed := by
    intro u
    by_cases hu : u = t
    · subst hu
      have hthread := s.update_thread_self u f
      have hplaced := h.placed u
      refine ⟨?_, ?_, ?_, ?_, ?_⟩
      · rw [Scheduler.priority, hthread, hstat, hpriority]
        exact hplaced.ready
      · rw [hthread, hstat]
        exact hplaced.waiting
      · rw [hthread, hstat]
        exact hplaced.running
      · rw [hthread, hstat]
        exact hplaced.current
      · rw [hthread, hstat, htimer]
        exact hplaced.timer
    · exact (h.placed u).frame (s.update_thread_of_ne hu f) Iff.rfl fun _ => Iff.rfl

omit [DecidableEq ω] in
theorem SchedSound.clearYield (h : SchedSound s members) (t : τ) :
    SchedSound (s.clearYield t) members := h.touch rfl rfl rfl rfl rfl

/-- The first thread of a ring takes the free processor. -/
theorem SchedSound.takeOver (h : SchedSound { s with currentThread := none } members)
    (hready : (s.thread t).stat = .ready) :
    SchedSound ({ s with currentThread := some t }.run t) fun i => (members i).erase t := by
  apply (h.table.withCurrent (some t)).run
  · apply h.table.mask
    simp [ThreadStat.Live, hready]
  · intro u hu
    exact (h.placed u).occupy rfl hu
  · rfl
  · apply (h.placed t).timer_off
    simp [hready]

/-- What `rt_schedule` can do. -/
inductive Dispatch (s : Scheduler τ ω) (members : ListHead ω → List τ) (c : τ) :
    Scheduler τ ω → (ListHead ω → List τ) → Prop
  | idle (h : s.lockNest ≠ 0 ∨ ∀ p, members (.ready p) = []) : Dispatch s members c s members
  | stay (hlock : s.lockNest = 0) (p : Nat) (t : τ) (rest : List τ)
      (hfirst : members (.ready p) = t :: rest)
      (hleast : ∀ q < p, members (.ready q) = []) (hrunning : (s.thread c).stat = .running)
      (hkeeps : (s.thread c).Keeps p) :
      Dispatch s members c ((s.clearYield c).run c) members
  | preempt (hlock : s.lockNest = 0) (p : Nat) (t : τ) (rest : List τ)
      (hfirst : members (.ready p) = t :: rest)
      (hleast : ∀ q < p, members (.ready q) = []) (hrunning : (s.thread c).stat = .running)
      (hkeeps : ¬(s.thread c).Keeps p) :
      Dispatch s members c ((s.clearYield c).switch c t true)
        fun i => (Function.update members (.ready (s.priority c))
          (members (.ready (s.priority c)) ++ [c]) i).erase t
  | replace (hlock : s.lockNest = 0) (p : Nat) (t : τ) (rest : List τ)
      (hfirst : members (.ready p) = t :: rest)
      (hleast : ∀ q < p, members (.ready q) = []) (hstat : (s.thread c).stat ≠ .running) :
      Dispatch s members c (s.switch c t false) fun i => (members i).erase t

omit [DecidableEq τ] [DecidableEq ω] in
theorem SchedSound.running_facts (h : SchedSound s members)
    (hrunning : (s.thread c).stat = .running) :
    (s.thread c).numberMask = 1#32 <<< s.priority c ∧ (∀ i, c ∉ members i) ∧
      (s.thread c).timerActivated = false := by
  have hready : (s.thread c).stat ≠ .ready := by simp [hrunning]
  have hsuspend : (s.thread c).stat ≠ .suspend := by simp [hrunning]
  have hlive : (s.thread c).stat.Live := by simp [ThreadStat.Live, hrunning]
  exact ⟨h.table.mask hlive, h.notMem hready hsuspend, (h.placed c).timer_off hsuspend⟩

private theorem stay_sound (h : SchedSound s members) (hcurrent : s.currentThread = some c)
    (hrunning : (s.thread c).stat = .running) : SchedSound (s.run c) members := by
  obtain ⟨hmask, hout, htimer⟩ := h.running_facts hrunning
  have herase : (fun i => (members i).erase c) = members := by
    funext i
    exact List.erase_of_not_mem (hout i)
  rw [← herase]
  exact h.table.run hmask (fun u _ => h.placed u) hcurrent htimer

private theorem replace_sound (h : SchedSound s members) (hcurrent : s.currentThread = some c)
    (hstat : (s.thread c).stat ≠ .running) (ht : (s.thread t).stat = .ready) :
    SchedSound (s.switch c t false) fun i => (members i).erase t := by
  have hvacant : SchedSound { s with currentThread := none } members := by
    refine ⟨h.table.withCurrent none, ?_⟩
    intro u
    apply (h.placed u).vacate
    intro hu
    have huc : some c = some u := hcurrent.symm.trans ((h.placed u).running hu)
    exact hstat (Option.some.inj huc ▸ hu)
  exact hvacant.takeOver ht

private theorem preempt_sound (h : SchedSound s members) (hcurrent : s.currentThread = some c)
    (hrunning : (s.thread c).stat = .running) (ht : (s.thread t).stat = .ready) :
    SchedSound (s.switch c t true) fun i => (Function.update members (.ready (s.priority c))
      (members (.ready (s.priority c)) ++ [c]) i).erase t := by
  obtain ⟨hmask, hout, htimer⟩ := h.running_facts hrunning
  have htc : t ≠ c := by
    intro htc
    rw [htc, hrunning] at ht
    cases ht
  -- while nobody runs, the thread that is preempted goes to the end of its ring
  have hjoined : SchedSound ({ s with currentThread := none }.enqueue c)
      (Function.update members (.ready (s.priority c))
        (members (.ready (s.priority c)) ++ [c])) := by
    apply (h.table.withCurrent none).join hmask
    · intro u hu
      apply (h.placed u).vacate
      intro hrun
      have huc := hcurrent.symm.trans ((h.placed u).running hrun)
      exact hu (Option.some.inj huc).symm
    · exact hout
    · simp
    · exact htimer
  have hne : some t ≠ some c := fun heq => htc (Option.some.inj heq)
  rw [Scheduler.switch, if_pos rfl, Scheduler.rtScheduleInsertThread, if_neg hne]
  exact SchedSound.takeOver (s := s.enqueue c) hjoined ((s.enqueue_thread_of_ne htc).symm ▸ ht)

/-- `rt_schedule` never reads the head of a list as a thread, and leaves the scheduler
sound. -/
theorem SchedSound.schedule (h : SchedSound s members) (hcurrent : s.currentThread = some c) :
    ∃ s' members', s.rtSchedule = some s' ∧ SchedSound s' members' ∧
      Dispatch s members c s' members' := by
  by_cases hidle : s.lockNest ≠ 0 ∨ s.readyPriorityGroup = 0#32
  · refine ⟨s, members, if_pos hidle, h, .idle ?_⟩
    rcases hidle with hlock | hgroup
    · exact Or.inl hlock
    · refine Or.inr fun p => ?_
      by_cases hp : p < 32
      · exact h.table.group_zero hgroup hp
      · rw [List.eq_nil_iff_forall_not_mem]
        intro t ht
        have hlevel := h.table.level ht
        have hbound := (h.table.bounded t).1
        omega
  · obtain ⟨hunlocked, hgroup⟩ := not_or.mp hidle
    have hlock : s.lockNest = 0 := not_not.mp hunlocked
    obtain ⟨p, t, rest, hhighest, hfirst, hleast⟩ := h.table.highest hgroup
    have hmem : t ∈ members (.ready p) := by
      rw [hfirst]
      exact List.mem_cons_self
    have ht : (s.thread t).stat = .ready := by
      rw [(h.placed t).ready, h.table.level hmem]
      exact hmem
    have htc : t ≠ c := by
      intro htc
      exact ((h.placed c).current hcurrent).1 (htc ▸ ht)
    rw [Scheduler.rtSchedule, if_neg hidle, hhighest, hcurrent]
    by_cases hrunning : (s.thread c).stat = .running
    · have hclear := h.clearYield c
      have hrunning' : ((s.clearYield c).thread c).stat = .running := by
        rw [Scheduler.clearYield, s.update_thread_self]
        exact hrunning
      by_cases hkeeps : (s.thread c).Keeps p
      · refine ⟨_, _, ?_, stay_sound hclear hcurrent hrunning',
          .stay hlock p t rest hfirst hleast hrunning hkeeps⟩
        simp [hrunning, hkeeps, Scheduler.dispatch]
      · have ht' : ((s.clearYield c).thread t).stat = .ready := by
          rw [Scheduler.clearYield, s.update_thread_of_ne htc]
          exact ht
        have hpriority : (s.clearYield c).priority c = s.priority c := by
          rw [Scheduler.priority, Scheduler.clearYield, s.update_thread_self]
          rfl
        have hpreempt := preempt_sound hclear hcurrent hrunning' ht'
        rw [hpriority] at hpreempt
        refine ⟨_, _, ?_, hpreempt, .preempt hlock p t rest hfirst hleast hrunning hkeeps⟩
        simp [hrunning, hkeeps, Scheduler.dispatch, htc]
    · refine ⟨_, _, ?_, replace_sound h hcurrent hrunning ht,
        .replace hlock p t rest hfirst hleast hrunning⟩
      simp [hrunning, Scheduler.dispatch, htc]

end Dispatch

section Calls

variable {s s' : Scheduler τ ω} {members : ListHead ω → List τ} {t : τ}

omit [DecidableEq ω] in
/-- A change of one thread that lies in no ring of the table. -/
theorem SchedSound.alter (h : SchedSound s members) {f : RtThread → RtThread}
    (hout : ∀ p, t ∉ members (.ready p))
    (hwaiting : ∀ {o}, t ∈ members (.waiting o) → (f (s.thread t)).stat = .suspend)
    (hbounded : (f (s.thread t)).currentPriority < 32 ∧ (f (s.thread t)).initPriority < 32)
    (hmask : (f (s.thread t)).stat.Live →
      (f (s.thread t)).numberMask = 1#32 <<< (f (s.thread t)).currentPriority)
    (hready : (f (s.thread t)).stat ≠ .ready)
    (hrunning : (f (s.thread t)).stat = .running → s.currentThread = some t)
    (hcurrent : s.currentThread = some t → (f (s.thread t)).stat ≠ .init)
    (htimer : (f (s.thread t)).timerActivated = true → (f (s.thread t)).stat = .suspend) :
    SchedSound (s.update t f) members where
  table := h.table.update (Or.inl hout) hbounded hmask
  placed := by
    intro u
    by_cases hu : u = t
    · subst hu
      have hthread := s.update_thread_self u f
      refine ⟨?_, ?_, ?_, ?_, ?_⟩
      · rw [hthread]
        exact iff_of_false hready (hout _)
      · rw [hthread]
        exact hwaiting
      · rw [hthread]
        exact hrunning
      · rw [hthread]
        exact fun hcur => ⟨hready, hcurrent hcur⟩
      · rw [hthread]
        exact htimer
    · exact (h.placed u).frame (s.update_thread_of_ne hu f) Iff.rfl fun _ => Iff.rfl

/-- The lists after a suspended thread has been resumed. -/
def resumedLists (s : Scheduler τ ω) (members : ListHead ω → List τ) (t : τ) :
    ListHead ω → List τ :=
  let rest := fun i => (members i).erase t
  if s.currentThread = some t then rest
  else Function.update rest (.ready (s.priority t)) (rest (.ready (s.priority t)) ++ [t])

theorem SchedSound.wake (h : SchedSound s members) (hstat : (s.thread t).stat = .suspend) :
    SchedSound ((s.unwait t).rtScheduleInsertThread t) (resumedLists s members t) := by
  have hlive : (s.thread t).stat.Live := by simp [ThreadStat.Live, hstat]
  have hout := h.notMem_ready (t := t) (by simp [hstat])
  have hthread := s.unwait_thread_self t
  have hpriority : (s.unwait t).priority t = s.priority t := by
    rw [Scheduler.priority, hthread]
    rfl
  have hmask : ((s.unwait t).thread t).numberMask = 1#32 <<< (s.unwait t).priority t := by
    rw [hpriority, hthread]
    exact h.table.mask hlive
  have htable := h.table.unwait hout
  have hother : ∀ u ≠ t, Placed (s.unwait t) (fun i => (members i).erase t) u := by
    intro u hu
    exact (h.placed u).frame (s.unwait_thread_of_ne hu) Iff.rfl (mem_erase_iff hu)
  have hfresh : ∀ i, t ∉ (members i).erase t := fun i => (h.table.rings.nodup i).not_mem_erase
  have htimer : ((s.unwait t).thread t).timerActivated = false := by rw [hthread]
  rw [resumedLists]
  split_ifs with hcurrent
  · exact htable.goOn hmask hother hfresh hcurrent htimer
  · have hcurrent' : (s.unwait t).currentThread ≠ some t := hcurrent
    rw [Scheduler.rtScheduleInsertThread, if_neg hcurrent', ← hpriority]
    exact htable.join hmask hother hfresh hcurrent htimer

theorem SchedSound.resume (h : SchedSound s members) (t : τ) :
    ∃ members', SchedSound (s.rtThreadResume t) members' := by
  rw [Scheduler.rtThreadResume]
  split_ifs with hstat
  · exact ⟨members, h⟩
  · exact ⟨_, h.wake (not_not.mp hstat)⟩

theorem SchedSound.suspend (h : SchedSound s members) (hs : s.rtThreadSuspend t = some s') :
    s' = s ∧ (s.thread t).stat ≠ .ready ∧ (s.thread t).stat ≠ .running ∨
      SchedSound s' (fun i => (members i).erase t) ∧ (s'.thread t).stat = .suspend := by
  rw [Scheduler.rtThreadSuspend] at hs
  split_ifs at hs with hstat hself <;> cases hs
  · exact Or.inl ⟨rfl, hstat⟩
  · have hlive : (s.thread t).stat.Live := by
      constructor
      · intro hinit
        exact hstat (by simp [hinit])
      · intro hclose
        exact hstat (by simp [hclose])
    refine Or.inr ⟨?_, ?_⟩
    · exact h.table.leave (f := fun thread =>
          { thread with stat := .suspend, timerActivated := false })
        (h.table.mask hlive) (fun u _ => h.placed u) ⟨rfl, rfl, rfl⟩ (by simp) (by simp)
        (by simp) (by simp)
    · rw [Scheduler.update_thread_self]

theorem SchedSound.scheduleIfStarted (h : SchedSound s members) :
    ∃ s' members', s.scheduleIfStarted = some s' ∧ SchedSound s' members' := by
  rw [Scheduler.scheduleIfStarted]
  split_ifs with hcurrent
  · obtain ⟨c, hc⟩ := Option.isSome_iff_exists.mp hcurrent
    obtain ⟨s', members', hs', hsound, -⟩ := h.schedule hc
    exact ⟨s', members', hs', hsound⟩
  · exact ⟨s, members, rfl, h⟩

omit [DecidableEq ω] in
theorem SchedSound.prepare (h : SchedSound s members) (hinit : (s.thread t).stat = .init) :
    SchedSound (s.prepare t) members := by
  apply h.alter
  · exact h.notMem_ready (by simp [hinit])
  · exact fun _ => rfl
  · exact ⟨(h.table.bounded t).2, (h.table.bounded t).2⟩
  · exact fun _ => rfl
  · simp
  · simp
  · simp
  · exact fun _ => rfl

theorem SchedSound.startup (h : SchedSound s members) (hinit : (s.thread t).stat = .init) :
    ∃ s' members', s.rtThreadStartup t = some s' ∧ SchedSound s' members' := by
  obtain ⟨members', hresumed⟩ := (h.prepare hinit).resume t
  rw [Scheduler.rtThreadStartup, if_neg (not_not.mpr hinit)]
  exact hresumed.scheduleIfStarted

theorem SchedSound.timeout (h : SchedSound s members) (hstat : (s.thread t).stat = .suspend)
    {c : τ} (hcurrent : s.currentThread = some c) :
    ∃ s' members', s.rtThreadTimeout t = some s' ∧ SchedSound s' members' := by
  rw [Scheduler.rtThreadTimeout, if_neg (not_not.mpr hstat)]
  have hkept : ((s.unwait t).rtScheduleInsertThread t).currentThread = some c := by
    rw [Scheduler.rtScheduleInsertThread]
    split_ifs <;> exact hcurrent
  obtain ⟨s', members', hs', hsound, -⟩ := (h.wake hstat).schedule hkept
  exact ⟨s', members', hs', hsound⟩

theorem SchedSound.changeReady (h : SchedSound s members) {priority : Nat}
    (hpriority : priority < rtThreadPriorityMax) (hready : (s.thread t).stat = .ready) :
    SchedSound (((s.rtScheduleRemoveThread t).setPriority t priority).rtScheduleInsertThread t)
      (Function.update (fun i => (members i).erase t) (.ready priority)
        ((members (.ready priority)).erase t ++ [t])) := by
  have hlive : (s.thread t).stat.Live := by simp [ThreadStat.Live, hready]
  have hcurrent : s.currentThread ≠ some t := fun hc => ((h.placed t).current hc).1 hready
  have hout : ∀ i, t ∉ (members i).erase t := fun i => (h.table.rings.nodup i).not_mem_erase
  let removed := (s.rtScheduleRemoveThread t).setPriority t priority
  have hthread : removed.thread t =
      { s.thread t with currentPriority := priority, numberMask := 1#32 <<< priority } :=
    Scheduler.update_thread_self ..
  have hlevel : removed.priority t = priority := by rw [Scheduler.priority, hthread]
  have htable : ReadyTable removed fun i => (members i).erase t :=
    (h.table.remove (h.table.mask hlive)).update (Or.inl fun p => hout _)
      ⟨hpriority, (h.table.bounded t).2⟩ fun _ => rfl
  have hinsert : removed.rtScheduleInsertThread t = removed.enqueue t := if_neg hcurrent
  change SchedSound (removed.rtScheduleInsertThread t) _
  rw [hinsert, ← hlevel]
  apply htable.join
  · rw [hthread, hlevel]
  · intro u hu
    exact (h.placed u).frame (Scheduler.update_thread_of_ne _ hu _) Iff.rfl (mem_erase_iff hu)
  · exact hout
  · exact hcurrent
  · rw [hthread]
    exact (h.placed t).timer_off (by simp [hready])

omit [DecidableEq ω] in
theorem SchedSound.changeOther (h : SchedSound s members) {priority : Nat}
    (hpriority : priority < rtThreadPriorityMax) (hready : (s.thread t).stat ≠ .ready) :
    SchedSound (s.setPriority t priority) members := by
  apply h.alter
  · exact h.notMem_ready hready
  · exact (h.placed t).waiting
  · exact ⟨hpriority, (h.table.bounded t).2⟩
  · exact fun _ => rfl
  · exact hready
  · exact (h.placed t).running
  · exact fun hc => ((h.placed t).current hc).2
  · exact (h.placed t).timer

theorem SchedSound.changePriority (h : SchedSound s members) {priority : Nat}
    (hpriority : priority < rtThreadPriorityMax) :
    ∃ s' members', s.rtThreadChangePriority t priority = some s' ∧ SchedSound s' members' := by
  rw [Scheduler.rtThreadChangePriority, if_neg (not_le.mpr hpriority)]
  split_ifs with hready
  · exact ⟨_, _, rfl, h.changeReady hpriority hready⟩
  · exact ⟨_, _, rfl, h.changeOther hpriority hready⟩

/-- A thread that is closed leaves every list. -/
theorem SchedSound.close (h : SchedSound s members) (t : τ) :
    SchedSound (s.rtThreadClose t) fun i => (members i).erase t := by
  have herase : (∀ i, t ∉ members i) → (fun i => (members i).erase t) = members := by
    intro hout
    funext i
    exact List.erase_of_not_mem (hout i)
  rw [Scheduler.rtThreadClose]
  split
  · rename_i hclose
    rw [herase (h.notMem (by simp [hclose]) (by simp [hclose]))]
    exact h
  · rename_i hinit
    have hout := h.notMem (t := t) (by simp [hinit]) (by simp [hinit])
    rw [herase hout]
    exact h.alter (fun p => hout _) (fun hmem => absurd hmem (hout _)) (h.table.bounded t)
      (fun hlive => absurd rfl hlive.2) (by simp) (by simp) (by simp) (by simp)
  · rename_i hclose hinit
    exact h.table.leave (f := RtThread.closed) (h.table.mask ⟨hinit, hclose⟩)
      (fun u _ => h.placed u) ⟨rfl, rfl, rfl⟩ (by simp) (by simp) (by simp) (by simp)

theorem SchedSound.closed (h : SchedSound s members) (hrunning : (s.thread t).stat = .running) :
    SchedSound ((s.rtScheduleRemoveThread t).update t RtThread.closed)
      fun i => (members i).erase t :=
  h.table.leave (f := RtThread.closed) (h.running_facts hrunning).1 (fun u _ => h.placed u)
    ⟨rfl, rfl, rfl⟩ (by simp) (by simp) (by simp) (by simp)

theorem SchedSound.exit (h : SchedSound s members) (hcurrent : s.currentThread = some t)
    (hrunning : (s.thread t).stat = .running) :
    ∃ s' members', s.rtThreadExit = some s' ∧ SchedSound s' members' := by
  have hkept : ((s.rtScheduleRemoveThread t).update t RtThread.closed).currentThread = some t :=
    hcurrent
  obtain ⟨s', members', hs', hsound, -⟩ := (h.closed hrunning).schedule hkept
  refine ⟨s', members', ?_, hsound⟩
  rw [Scheduler.rtThreadExit, hcurrent]
  exact hs'

omit [DecidableEq ω] in
theorem SchedSound.reload (h : SchedSound s members) (t : τ) :
    SchedSound (s.reload t) members := h.touch rfl rfl rfl rfl rfl

theorem SchedSound.tick (h : SchedSound s members) (hcurrent : s.currentThread = some t) :
    ∃ s' members', s.rtTickIncrease = some s' ∧ SchedSound s' members' := by
  rw [Scheduler.rtTickIncrease, hcurrent]
  by_cases hzero : (s.thread t).remainingTick - 1#32 = 0#32
  · have hkept : (s.reload t).currentThread = some t := hcurrent
    obtain ⟨s', members', hs', hsound, -⟩ := (h.reload t).schedule hkept
    refine ⟨s', members', ?_, hsound⟩
    simp [hzero, hs']
  · refine ⟨_, members, ?_, h.touch (t := t) (f := fun thread =>
      { thread with remainingTick := (s.thread t).remainingTick - 1#32 }) rfl rfl rfl rfl rfl⟩
    simp [hzero]

theorem SchedSound.yield (h : SchedSound s members) (hcurrent : s.currentThread = some t) :
    ∃ s' members', s.rtThreadYield = some s' ∧ SchedSound s' members' := by
  have hkept : (s.reload t).currentThread = some t := hcurrent
  obtain ⟨s', members', hs', hsound, -⟩ := (h.reload t).schedule hkept
  refine ⟨s', members', ?_, hsound⟩
  rw [Scheduler.rtThreadYield, hcurrent]
  exact hs'

omit [DecidableEq τ] [DecidableEq ω] in
theorem SchedSound.withLock (h : SchedSound s members) (lockNest : Int) :
    SchedSound { s with lockNest } members :=
  ⟨⟨h.table.rings, h.table.level, h.table.group, h.table.bounded, h.table.mask⟩,
    fun t => (h.placed t).frame rfl Iff.rfl fun _ => Iff.rfl⟩

theorem SchedSound.exitCritical (h : SchedSound s members) :
    ∃ s' members', s.rtExitCritical = some s' ∧ SchedSound s' members' := by
  rw [Scheduler.rtExitCritical]
  split_ifs
  · exact (h.withLock 0).scheduleIfStarted
  · exact ⟨_, members, rfl, h.withLock _⟩

end Calls

section Waiting

variable {s s' : Scheduler τ ω} {members : ListHead ω → List τ} {t : τ} {o : ω}

/-- A suspended thread goes into the list of an object. -/
theorem SchedSound.enlist (h : SchedSound s members) {pre post : List τ}
    (hitems : members (.waiting o) = pre ++ post) (hfresh : ∀ i, t ∉ members i)
    (hstat : (s.thread t).stat = .suspend) :
    SchedSound
      { s with
        links := s.links.insertBefore (RingNode.front (ListHead.waiting o) post) (.item t) }
      (Function.update members (.waiting o) (pre ++ t :: post)) where
  table := by
    have hready : ∀ p, Function.update members (.waiting o) (pre ++ t :: post) (.ready p) =
        members (.ready p) := fun p => Function.update_of_ne (by simp) ..
    refine ⟨h.table.rings.insert hitems hfresh, ?_, ?_, h.table.bounded, h.table.mask⟩
    · intro u p hu
      rw [hready] at hu
      exact h.table.level hu
    · intro p hp
      rw [hready]
      exact h.table.group hp
  placed := by
    intro u
    by_cases hu : u = t
    · subst hu
      have hplaced := h.placed u
      refine ⟨?_, fun _ => hstat, hplaced.running, hplaced.current, hplaced.timer⟩
      rw [Function.update_of_ne (by simp)]
      exact hplaced.ready
    · refine (h.placed u).frame rfl Iff.rfl fun i => ?_
      by_cases hi : i = .waiting o
      · subst hi
        rw [Function.update_self, hitems]
        simp [hu]
      · rw [Function.update_of_ne hi]

/-- The loop stops before the first thread of a lower priority. -/
private theorem ipcPosition_eq (h : SchedSound s members) {pre rest : List τ} {fuel : Nat} (t : τ)
    (hitems : members (.waiting o) = pre ++ rest) (hfuel : rest.length < fuel) :
    s.ipcPosition (.head (.waiting o)) t fuel (RingNode.front (.waiting o) rest) =
      some (RingNode.front (.waiting o)
        (rest.dropWhile fun u => ¬s.priority t < s.priority u)) := by
  induction rest generalizing pre fuel with
  | nil =>
    obtain ⟨fuel, rfl⟩ := Nat.exists_eq_succ_of_ne_zero (Nat.ne_of_gt hfuel)
    exact if_pos rfl
  | cons u rest ih =>
    obtain ⟨fuel, rfl⟩ := Nat.exists_eq_succ_of_ne_zero (Nat.ne_of_gt (Nat.zero_lt_of_lt hfuel))
    have hne : RingNode.item u ≠ RingNode.head (ListHead.waiting o) := by simp
    have hnext : s.links.next (.item u) = RingNode.front (.waiting o) rest :=
      h.table.rings.next_item hitems
    have hitems' : members (.waiting o) = (pre ++ [u]) ++ rest := by
      rw [hitems, List.append_assoc]
      rfl
    change s.ipcPosition _ t (fuel + 1) (.item u) = _
    rw [Scheduler.ipcPosition, if_neg hne]
    by_cases hlt : s.priority t < s.priority u
    · simp [hlt, RingNode.front]
    · simp only [hlt, if_false, hnext]
      rw [ih hitems' (Nat.lt_of_succ_lt_succ hfuel), List.dropWhile_cons_of_pos]
      exact decide_eq_true hlt

variable [Fintype τ]

/-- The node found is where a plain insertion into the list puts the thread. -/
private theorem ipcNode_eq (h : SchedSound s members) (o : ω) (t : τ) (flag : IpcFlag) :
    ∃ pre post, members (.waiting o) = pre ++ post ∧
      s.ipcNode o t flag = some (RingNode.front (.waiting o) post) ∧
      rtIpcListSuspend s.priority (members (.waiting o)) t flag = pre ++ t :: post := by
  cases flag with
  | fifo => exact ⟨members (.waiting o), [], (List.append_nil _).symm, rfl, rfl⟩
  | prio =>
    have hlength : (members (.waiting o)).length < Fintype.card τ + 1 :=
      Nat.lt_succ_of_le (h.table.rings.nodup _).length_le_card
    have hitems : members (.waiting o) = [] ++ members (.waiting o) := rfl
    have hposition := ipcPosition_eq h t hitems hlength
    refine ⟨_, _, List.takeWhile_append_dropWhile.symm, ?_, List.orderedInsert_eq_take_drop ..⟩
    rw [Scheduler.ipcNode, h.table.rings.next_head]
    exact hposition

omit [Fintype τ] in
private theorem suspend_self (hcurrent : s.currentThread = some t)
    (hrunning : (s.thread t).stat = .running) :
    ∃ s', s.rtThreadSuspend t = some s' ∧ s'.priority = s.priority := by
  rw [Scheduler.rtThreadSuspend, if_neg (by simp [hrunning]), if_neg (by simp [hcurrent])]
  refine ⟨_, rfl, ?_⟩
  funext u
  by_cases hu : u = t
  · subst hu
    rw [Scheduler.priority, Scheduler.update_thread_self]
    rfl
  · rw [Scheduler.priority, Scheduler.update_thread_of_ne _ hu]
    rfl

omit [Fintype τ] in
theorem SchedSound.suspendSelf (h : SchedSound s members) (hcurrent : s.currentThread = some t)
    (hrunning : (s.thread t).stat = .running) :
    ∃ s', s.rtThreadSuspend t = some s' ∧ (s'.thread t).stat = .suspend ∧
      SchedSound s' members := by
  obtain ⟨-, hout, -⟩ := h.running_facts hrunning
  have hfresh : (fun i => (members i).erase t) = members := by
    funext i
    exact List.erase_of_not_mem (hout i)
  obtain ⟨s', hs', -⟩ := suspend_self hcurrent hrunning
  rcases h.suspend hs' with ⟨-, -, hnot⟩ | ⟨hsound, hstat⟩
  · exact absurd hrunning hnot
  · rw [hfresh] at hsound
    exact ⟨s', hs', hstat, hsound⟩

/-- A running thread that waits for an object is inserted into its list as into a plain list:
`rt_ipc_list_suspend` neither loops for ever nor reads the head as a thread. -/
theorem SchedSound.ipcSuspend (h : SchedSound s members) (hcurrent : s.currentThread = some t)
    (hrunning : (s.thread t).stat = .running) (flag : IpcFlag) :
    ∃ s', s.rtIpcListSuspend o t flag = some s' ∧ (s'.thread t).stat = .suspend ∧
      SchedSound s' (Function.update members (.waiting o)
        (rtIpcListSuspend s.priority (members (.waiting o)) t flag)) := by
  obtain ⟨-, hout, -⟩ := h.running_facts hrunning
  obtain ⟨s₁, hs₁, hstat, hsound⟩ := h.suspendSelf hcurrent hrunning
  obtain ⟨s₂, hs₂, hpriority⟩ := suspend_self hcurrent hrunning
  have hsame : s₂ = s₁ := Option.some.inj (hs₂.symm.trans hs₁)
  obtain ⟨pre, post, hitems, hnode, hinsert⟩ := ipcNode_eq hsound o t flag
  rw [← hsame, hpriority] at hinsert
  refine ⟨{ s₁ with
    links := s₁.links.insertBefore (RingNode.front (.waiting o) post) (.item t) }, ?_, hstat, ?_⟩
  · simp only [Scheduler.rtIpcListSuspend, hs₁, hnode, Option.bind_eq_bind, Option.bind_some]
  · rw [hinsert]
    exact hsound.enlist hitems hout hstat

omit [Fintype τ] in
theorem SchedSound.ipcResume (h : SchedSound s members) {rest : List τ}
    (hitems : members (.waiting o) = t :: rest) :
    s.rtIpcListResume o = some (s.rtThreadResume t) ∧ (s.thread t).stat = .suspend := by
  have hmem : t ∈ members (.waiting o) := by
    rw [hitems]
    exact List.mem_cons_self
  refine ⟨?_, (h.placed t).waiting hmem⟩
  rw [Scheduler.rtIpcListResume, h.table.rings.next_head, hitems]
  rfl

end Waiting

end DrumMachine
