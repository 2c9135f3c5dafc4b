import DrumMachine.Properties.QueueWaiters
import DrumMachine.Properties.SchedulerRuns

/-!
# What a call leaves alone

A call of the scheduler is about one thread at most: the one that it starts, suspends, resumes
or closes. Every other thread keeps its priority and its place in the lists of the objects,
and is at most switched in or out.
-/

namespace DrumMachine

open Framework

variable {τ ω : Type} [DecidableEq τ] [DecidableEq ω]

def ThreadStat.Runnable (stat : ThreadStat) : Prop := stat = .ready ∨ stat = .running

structure Kept (s s' : Scheduler τ ω) (members members' : ListHead ω → List τ) (u : τ) : Prop where
  stat : (s'.thread u).stat = (s.thread u).stat ∨
    (s.thread u).stat.Runnable ∧ (s'.thread u).stat.Runnable
  priority : s'.priority u = s.priority u
  initPriority : (s'.thread u).initPriority = (s.thread u).initPriority
  timer : (s'.thread u).timerActivated = (s.thread u).timerActivated
  waiting : ∀ o, u ∈ members' (.waiting o) ↔ u ∈ members (.waiting o)

namespace Kept

variable {s s' s'' : Scheduler τ ω} {members members' members'' : ListHead ω → List τ} {u : τ}

omit [DecidableEq τ] [DecidableEq ω] in
theorem refl (s : Scheduler τ ω) (members : ListHead ω → List τ) (u : τ) :
    Kept s s members members u := ⟨Or.inl rfl, rfl, rfl, rfl, fun _ => Iff.rfl⟩

omit [DecidableEq τ] [DecidableEq ω] in
theorem trans (h : Kept s s' members members' u) (h' : Kept s' s'' members' members'' u) :
    Kept s s'' members members'' u where
  stat := by
    rcases h'.stat with hsame' | ⟨hfrom', hto'⟩
    · rw [hsame']
      exact h.stat
    · rcases h.stat with hsame | ⟨hfrom, -⟩
      · exact Or.inr ⟨hsame ▸ hfrom', hto'⟩
      · exact Or.inr ⟨hfrom, hto'⟩
  priority := h'.priority.trans h.priority
  initPriority := h'.initPriority.trans h.initPriority
  timer := h'.timer.trans h.timer
  waiting o := (h'.waiting o).trans (h.waiting o)

omit [DecidableEq τ] [DecidableEq ω] in
theorem of_thread (hthread : s'.thread u = s.thread u)
    (hwaiting : ∀ o, u ∈ members' (.waiting o) ↔ u ∈ members (.waiting o)) :
    Kept s s' members members' u where
  stat := Or.inl (congrArg RtThread.stat hthread)
  priority := congrArg RtThread.currentPriority hthread
  initPriority := congrArg RtThread.initPriority hthread
  timer := congrArg RtThread.timerActivated hthread
  waiting := hwaiting

omit [DecidableEq τ] [DecidableEq ω] in
/-- A status other than ready and running is neither taken nor given up. -/
theorem stat_iff (h : Kept s s' members members' u) {stat : ThreadStat} (hstat : ¬stat.Runnable) :
    (s'.thread u).stat = stat ↔ (s.thread u).stat = stat := by
  rcases h.stat with hsame | ⟨hfrom, hto⟩
  · rw [hsame]
  · constructor
    · intro heq
      exact absurd (heq ▸ hto) hstat
    · intro heq
      exact absurd (heq ▸ hfrom) hstat

omit [DecidableEq τ] [DecidableEq ω] in
theorem suspend_iff (h : Kept s s' members members' u) :
    (s'.thread u).stat = .suspend ↔ (s.thread u).stat = .suspend :=
  h.stat_iff (by simp [ThreadStat.Runnable])

omit [DecidableEq τ] [DecidableEq ω] in
theorem init_iff (h : Kept s s' members members' u) :
    (s'.thread u).stat = .init ↔ (s.thread u).stat = .init :=
  h.stat_iff (by simp [ThreadStat.Runnable])

omit [DecidableEq τ] [DecidableEq ω] in
theorem runnable_iff (h : Kept s s' members members' u) :
    (s'.thread u).stat.Runnable ↔ (s.thread u).stat.Runnable := by
  rcases h.stat with hsame | ⟨hfrom, hto⟩
  · rw [hsame]
  · exact iff_of_true hto hfrom

end Kept

section Schedule

variable {s s' : Scheduler τ ω} {members members' : ListHead ω → List τ} {c t : τ}

private theorem run_kept (ht : (s.thread t).stat.Runnable) (hout : ∀ o, t ∉ members (.waiting o))
    (u : τ) : Kept s (s.run t) members (fun i => (members i).erase t) u where
  stat := by
    by_cases hu : u = t
    · subst hu
      exact Or.inr ⟨ht, Or.inr (s.run_stat u)⟩
    · left
      rw [Scheduler.run, Scheduler.update_thread_of_ne _ hu]
      rfl
  priority := s.run_priority t u
  initPriority := s.run_field (g := RtThread.initPriority) (fun _ _ => rfl) t u
  timer := s.run_field (g := RtThread.timerActivated) (fun _ _ => rfl) t u
  waiting o := by rw [List.erase_of_not_mem (hout o)]

private theorem insert_kept (hc : (s.thread c).stat.Runnable)
    (hwaiting : ∀ o, members' (.waiting o) = members (.waiting o)) (u : τ) :
    Kept s (s.rtScheduleInsertThread c) members members' u where
  stat := by
    by_cases hu : u = c
    · subst hu
      right
      rw [Scheduler.rtScheduleInsertThread]
      split_ifs
      · exact ⟨hc, by simp [ThreadStat.Runnable]⟩
      · exact ⟨hc, by simp [ThreadStat.Runnable]⟩
    · left
      rw [Scheduler.rtScheduleInsertThread]
      split_ifs
      · rw [Scheduler.update_thread_of_ne _ hu]
      · rw [Scheduler.enqueue_thread_of_ne _ hu]
  priority := s.insert_field (g := RtThread.currentPriority) (fun _ _ => rfl) c u
  initPriority := s.insert_field (g := RtThread.initPriority) (fun _ _ => rfl) c u
  timer := s.insert_field (g := RtThread.timerActivated) (fun _ _ => rfl) c u
  waiting o := by rw [hwaiting]

omit [DecidableEq ω] in
private theorem update_kept {f : RtThread → RtThread}
    (hstat : (f (s.thread t)).stat = (s.thread t).stat)
    (hpriority : (f (s.thread t)).currentPriority = (s.thread t).currentPriority)
    (hinit : (f (s.thread t)).initPriority = (s.thread t).initPriority)
    (htimer : (f (s.thread t)).timerActivated = (s.thread t).timerActivated) (u : τ) :
    Kept s (s.update t f) members members u where
  stat := Or.inl (s.update_field (g := RtThread.stat) t hstat u)
  priority := s.update_field (g := RtThread.currentPriority) t hpriority u
  initPriority := s.update_field (g := RtThread.initPriority) t hinit u
  timer := s.update_field (g := RtThread.timerActivated) t htimer u
  waiting _ := Iff.rfl

omit [DecidableEq τ] [DecidableEq ω] in
private theorem runnable_notMem (h : SchedSound s members) (ht : (s.thread t).stat.Runnable)
    (o : ω) : t ∉ members (.waiting o) := by
  intro hmem
  have hstat := (h.placed t).waiting hmem
  rw [ThreadStat.Runnable, hstat] at ht
  simp at ht

/-- `rt_schedule` changes nothing but who runs. -/
theorem Dispatch.kept (h : SchedSound s members) (hd : Dispatch s members c s' members') (u : τ) :
    Kept s s' members members' u := by
  have hready : ∀ {p t rest}, members (.ready p) = t :: rest → (s.thread t).stat = .ready := by
    intro p t rest hfirst
    have hmem : t ∈ members (.ready p) := by
      rw [hfirst]
      exact List.mem_cons_self
    rw [(h.placed t).ready, h.table.level hmem]
    exact hmem
  cases hd with
  | idle hidle => exact Kept.refl s members u
  | stay hlock p t rest hfirst hleast hrunning hkeeps =>
    have hrunning' : ((s.clearYield c).thread c).stat.Runnable := by
      simp [Scheduler.clearYield, ThreadStat.Runnable, hrunning]
    have hout := (h.running_facts hrunning).2.1
    have hclear : Kept s (s.clearYield c) members members u := update_kept rfl rfl rfl rfl u
    have hrun := run_kept hrunning' (fun o => hout _) u
    simp only [List.erase_of_not_mem (hout _)] at hrun
    exact hclear.trans hrun
  | preempt hlock p t rest hfirst hleast hrunning hkeeps =>
    have ht := hready hfirst
    have htc : t ≠ c := by
      intro htc
      rw [htc, hrunning] at ht
      cases ht
    let cleared : Scheduler τ ω := { s.clearYield c with currentThread := some t }
    let queued := Function.update members (.ready (s.priority c))
      (members (.ready (s.priority c)) ++ [c])
    have hclear : ∀ u, Kept s cleared members members u := by
      intro u
      have hyield : Kept s (s.clearYield c) members members u := update_kept rfl rfl rfl rfl u
      exact hyield.trans (Kept.of_thread rfl fun _ => Iff.rfl)
    have hrunning' : (cleared.thread c).stat.Runnable := by
      simp [cleared, Scheduler.clearYield, ThreadStat.Runnable, hrunning]
    have hqueued : ∀ o, queued (.waiting o) = members (.waiting o) :=
      fun o => Function.update_of_ne (by simp) ..
    have hinsert : ∀ u, Kept s (cleared.rtScheduleInsertThread c) members queued u :=
      fun u => (hclear u).trans (insert_kept hrunning' hqueued u)
    have ht' : ((cleared.rtScheduleInsertThread c).thread t).stat.Runnable := by
      rw [(hinsert t).runnable_iff]
      exact Or.inl ht
    have hout : ∀ o, t ∉ queued (.waiting o) := by
      intro o
      rw [hqueued]
      exact runnable_notMem h (Or.inl ht) o
    rw [Scheduler.switch, if_pos rfl]
    exact (hinsert u).trans (run_kept ht' hout u)
  | replace hlock p t rest hfirst hleast hstat =>
    have ht := hready hfirst
    let chosen : Scheduler τ ω := { s with currentThread := some t }
    have hchosen : Kept s chosen members members u := Kept.of_thread rfl fun _ => Iff.rfl
    have ht' : (chosen.thread t).stat.Runnable := Or.inl ht
    exact hchosen.trans (run_kept ht' (runnable_notMem h (Or.inl ht)) u)

theorem SchedSound.schedule_kept (h : SchedSound s members) (h' : SchedSound s' members')
    (hs : s.rtSchedule = some s') (u : τ) : Kept s s' members members' u := by
  cases hc : s.currentThread with
  | none =>
    have hidle : s.lockNest ≠ 0 ∨ s.readyPriorityGroup = 0#32 := by
      by_contra hidle
      rw [Scheduler.rtSchedule, if_neg hidle, hc] at hs
      cases hhighest : s.getHighestPriorityThread with
      | none =>
        rw [hhighest] at hs
        cases hs
      | some found =>
        rw [hhighest] at hs
        cases hs
    rw [Scheduler.rtSchedule, if_pos hidle] at hs
    cases hs
    rw [h.table.rings.unique h'.table.rings]
    exact Kept.refl s members' u
  | some c =>
    obtain ⟨s'', members'', hs'', hsound, hd⟩ := h.schedule hc
    rw [hs''] at hs
    cases hs
    rw [h'.table.rings.unique hsound.table.rings]
    exact hd.kept h u

end Schedule

/-- The thread that a call is about. -/
def SchedAct.subject (s : Scheduler τ ω) (members : ListHead ω → List τ) :
    SchedAct τ ω → Option τ
  | .startup t | .suspend t | .resume t | .timeout t | .changePriority t _ | .close t => some t
  | .sleep | .block _ _ _ | .exit => s.currentThread
  | .wake o => (members (.waiting o)).head?
  | .start | .yield | .enterCritical | .exitCritical | .schedule | .tick => none

section Step

variable {s s' : Scheduler τ ω} {members members' : ListHead ω → List τ} {t u : τ}

private theorem insert_thread_of_ne (hu : u ≠ t) :
    (s.rtScheduleInsertThread t).thread u = s.thread u := by
  rw [Scheduler.rtScheduleInsertThread]
  split_ifs
  · exact s.update_thread_of_ne hu _
  · exact s.enqueue_thread_of_ne hu

private theorem suspend_thread_of_ne (hu : u ≠ t) (hs : s.rtThreadSuspend t = some s') :
    s'.thread u = s.thread u := by
  rw [Scheduler.rtThreadSuspend] at hs
  split_ifs at hs <;> cases hs
  · rfl
  · rw [Scheduler.update_thread_of_ne _ hu]
    rfl

omit [DecidableEq ω] in
private theorem erase_waiting (hu : u ≠ t) (o : ω) :
    u ∈ (fun i => (members i).erase t) (.waiting o) ↔ u ∈ members (.waiting o) :=
  List.mem_erase_of_ne hu

private theorem resumed_waiting (hu : u ≠ t) (o : ω) :
    u ∈ resumedLists s members t (.waiting o) ↔ u ∈ members (.waiting o) := by
  rw [resumedLists]
  split_ifs
  · exact erase_waiting hu o
  · rw [Function.update_of_ne (by simp)]
    exact erase_waiting hu o

private theorem wake_kept (hu : u ≠ t) :
    Kept s ((s.unwait t).rtScheduleInsertThread t) members (resumedLists s members t) u :=
  Kept.of_thread ((insert_thread_of_ne hu).trans (s.unwait_thread_of_ne hu)) (resumed_waiting hu)

private theorem resume_kept (h : SchedSound s members) (h' : SchedSound (s.rtThreadResume t) members')
    (hu : u ≠ t) : Kept s (s.rtThreadResume t) members members' u := by
  rw [Scheduler.rtThreadResume] at h' ⊢
  split_ifs at h' ⊢ with hstat
  · rw [h.table.rings.unique h'.table.rings]
    exact Kept.refl s members' u
  · rw [h'.table.rings.unique (h.wake (not_not.mp hstat)).table.rings]
    exact wake_kept hu

private theorem scheduleIfStarted_kept (h : SchedSound s members) (h' : SchedSound s' members')
    (hs : s.scheduleIfStarted = some s') (u : τ) : Kept s s' members members' u := by
  rw [Scheduler.scheduleIfStarted] at hs
  split_ifs at hs
  · exact h.schedule_kept h' hs u
  · cases hs
    rw [h.table.rings.unique h'.table.rings]
    exact Kept.refl s members' u

private theorem suspend_kept (h : SchedSound s members) (h' : SchedSound s' members') (hu : u ≠ t)
    (hs : s.rtThreadSuspend t = some s') : Kept s s' members members' u := by
  rcases h.suspend hs with ⟨hsame, -, -⟩ | ⟨hsound, -⟩
  · subst hsame
    rw [h.table.rings.unique h'.table.rings]
    exact Kept.refl _ members' u
  · rw [h'.table.rings.unique hsound.table.rings]
    exact Kept.of_thread (suspend_thread_of_ne hu hs) (erase_waiting hu)

omit [DecidableEq ω] in
private theorem startTimer_kept (hu : u ≠ t) (timed : Bool) :
    Kept s (s.startTimer t timed) members members u :=
  Kept.of_thread (s.update_thread_of_ne hu _) fun _ => Iff.rfl

omit [DecidableEq ω] in
private theorem reload_kept (t u : τ) : Kept s (s.reload t) members members u :=
  update_kept rfl rfl rfl rfl u

variable [Fintype τ]

private theorem block_kept {o : ω} {flag : IpcFlag} (hu : u ≠ t)
    (hs : s.rtIpcListSuspend o t flag = some s') :
    Kept s s' members (Function.update members (.waiting o)
      (rtIpcListSuspend s.priority (members (.waiting o)) t flag)) u := by
  have hthread : s'.thread u = s.thread u := by
    rw [Scheduler.rtIpcListSuspend] at hs
    obtain ⟨s₁, hs₁, hs⟩ := Option.bind_eq_some_iff.mp hs
    obtain ⟨n, -, hs⟩ := Option.bind_eq_some_iff.mp hs
    cases hs
    exact (suspend_thread_of_ne hu hs₁ :)
  apply Kept.of_thread hthread
  intro p
  by_cases hp : ListHead.waiting p = ListHead.waiting o
  · rw [hp, Function.update_self, (rtIpcListSuspend_perm ..).mem_iff, List.mem_cons]
    exact or_iff_right hu
  · rw [Function.update_of_ne hp]

/-- Besides switching threads in and out, a call changes only the thread that it is about. -/
theorem SchedSound.step_kept (h : SchedSound s members) (h' : SchedSound s' members')
    {act : SchedAct τ ω} (hs : s.step act = some s') (hu : act.subject s members ≠ some u) :
    Kept s s' members members' u := by
  have hpermitted := permitted_of_step h hs
  cases act with
  | startup t =>
    have hut : u ≠ t := fun hut => hu (congrArg some hut.symm)
    have hinit : (s.thread t).stat = .init := hpermitted
    have hprepared := h.prepare hinit
    obtain ⟨members₁, hresumed⟩ := hprepared.resume t
    rw [Scheduler.step, Scheduler.rtThreadStartup, if_neg (not_not.mpr hinit)] at hs
    have hprepare : Kept s (s.prepare t) members members u :=
      Kept.of_thread (s.update_thread_of_ne hut _) fun _ => Iff.rfl
    exact (hprepare.trans (resume_kept hprepared hresumed hut)).trans
      (scheduleIfStarted_kept hresumed h' hs u)
  | start =>
    obtain ⟨hnone, hgroup⟩ := hpermitted
    obtain ⟨p, t, rest, hhighest, hfirst, -⟩ := h.table.highest hgroup
    have hmem : t ∈ members (.ready p) := by
      rw [hfirst]
      exact List.mem_cons_self
    have ht : (s.thread t).stat = .ready := by
      rw [(h.placed t).ready, h.table.level hmem]
      exact hmem
    simp only [Scheduler.step, hnone, Option.isSome_none, Bool.false_eq_true, if_false,
      Scheduler.rtSystemSchedulerStart, hgroup, hhighest, Option.bind_eq_bind,
      Option.bind_some] at hs
    cases hs
    have hvacant : SchedSound { s with currentThread := none } members := by
      rw [← hnone]
      exact h
    rw [h'.table.rings.unique (hvacant.takeOver ht).table.rings]
    let chosen : Scheduler τ ω := { s with currentThread := some t }
    have hchosen : Kept s chosen members members u := Kept.of_thread rfl fun _ => Iff.rfl
    have ht' : (chosen.thread t).stat.Runnable := Or.inl ht
    exact hchosen.trans (run_kept ht' (runnable_notMem h (Or.inl ht)) u)
  | yield =>
    obtain ⟨c, hc⟩ := Option.isSome_iff_exists.mp hpermitted
    rw [Scheduler.step, Scheduler.rtThreadYield, hc] at hs
    exact (reload_kept c u).trans ((h.reload c).schedule_kept h' hs u)
  | sleep =>
    obtain ⟨c, hc, hrunning⟩ := hpermitted
    have huc : u ≠ c := fun huc => hu (hc.trans (congrArg some huc.symm))
    obtain ⟨s₁, hs₁, hstat, hsound⟩ := h.suspendSelf hc hrunning
    simp only [Scheduler.step, hc, hrunning, hs₁, Option.bind_eq_bind, Option.bind_some, if_true,
      Option.map_some] at hs
    cases hs
    rw [h'.table.rings.unique (hsound.startTimer hstat true).table.rings]
    exact (suspend_kept h hsound huc hs₁).trans (startTimer_kept huc true)
  | block o flag timed =>
    obtain ⟨c, hc, hrunning⟩ := hpermitted
    have huc : u ≠ c := fun huc => hu (hc.trans (congrArg some huc.symm))
    obtain ⟨s₁, hs₁, hstat, hsound⟩ := h.ipcSuspend (o := o) hc hrunning flag
    simp only [Scheduler.step, hc, hrunning, hs₁, Option.bind_eq_bind, Option.bind_some, if_true,
      Option.map_some] at hs
    cases hs
    rw [h'.table.rings.unique (hsound.startTimer hstat timed).table.rings]
    exact (block_kept huc hs₁).trans (startTimer_kept huc timed)
  | suspend t => exact suspend_kept h h' (fun hut => hu (congrArg some hut.symm)) hs
  | resume t =>
    cases hs
    exact resume_kept h h' fun hut => hu (congrArg some hut.symm)
  | wake o =>
    obtain ⟨t, rest, hitems⟩ := List.exists_cons_of_ne_nil hpermitted
    have hhead : SchedAct.subject s members (.wake o) = some t := by
      rw [SchedAct.subject, hitems]
      rfl
    have hresume : s.step (.wake o) = some (s.rtThreadResume t) := (h.ipcResume hitems).1
    rw [hresume] at hs
    cases hs
    exact resume_kept h h' fun hut => hu (hhead.trans (congrArg some hut.symm))
  | timeout t =>
    have hut : u ≠ t := fun hut => hu (congrArg some hut.symm)
    obtain ⟨hsome, htimer⟩ := hpermitted
    have hstat := (h.placed t).timer htimer
    rw [Scheduler.step, if_pos ⟨hsome, htimer⟩, Scheduler.rtThreadTimeout,
      if_neg (not_not.mpr hstat)] at hs
    exact (wake_kept hut).trans ((h.wake hstat).schedule_kept h' hs u)
  | changePriority t priority =>
    have hut : u ≠ t := fun hut => hu (congrArg some hut.symm)
    have hbound : ¬priority ≥ rtThreadPriorityMax := not_le.mpr hpermitted
    rw [Scheduler.step, Scheduler.rtThreadChangePriority, if_neg hbound] at hs
    split_ifs at hs with hready <;> cases hs
    · have hset : ((s.rtScheduleRemoveThread t).setPriority t priority).thread u = s.thread u :=
        (s.rtScheduleRemoveThread t).update_thread_of_ne hut _
      rw [h'.table.rings.unique (h.changeReady hpermitted hready).table.rings]
      refine Kept.of_thread ((insert_thread_of_ne hut).trans hset) ?_
      intro o
      rw [Function.update_of_ne (by simp)]
      exact erase_waiting hut o
    · rw [h'.table.rings.unique (h.changeOther hpermitted hready).table.rings]
      exact Kept.of_thread (s.update_thread_of_ne hut _) fun _ => Iff.rfl
  | close t =>
    have hut : u ≠ t := fun hut => hu (congrArg some hut.symm)
    cases hs
    rw [h'.table.rings.unique (h.close t).table.rings]
    refine Kept.of_thread ?_ (erase_waiting hut)
    rw [Scheduler.rtThreadClose]
    split
    · rfl
    · exact s.update_thread_of_ne hut _
    · exact s.update_thread_of_ne hut _
  | exit =>
    obtain ⟨c, hc, hrunning⟩ := hpermitted
    have huc : u ≠ c := fun huc => hu (hc.trans (congrArg some huc.symm))
    simp only [Scheduler.step, Scheduler.rtThreadExit, hc, Option.bind_eq_bind, Option.bind_some,
      hrunning, if_true] at hs
    have hclosed : Kept s ((s.rtScheduleRemoveThread c).update c RtThread.closed) members
        (fun i => (members i).erase c) u :=
      Kept.of_thread (s.update_thread_of_ne huc _) (erase_waiting huc)
    exact hclosed.trans ((h.closed hrunning).schedule_kept h' hs u)
  | enterCritical =>
    cases hs
    rw [h'.table.rings.unique (h.withLock _).table.rings]
    exact Kept.of_thread rfl fun _ => Iff.rfl
  | exitCritical =>
    rw [Scheduler.step, Scheduler.rtExitCritical] at hs
    split_ifs at hs
    · have hlock : Kept s { s with lockNest := 0 } members members u :=
        Kept.of_thread rfl fun _ => Iff.rfl
      exact hlock.trans (scheduleIfStarted_kept (h.withLock 0) h' hs u)
    · cases hs
      rw [h'.table.rings.unique (h.withLock _).table.rings]
      exact Kept.of_thread rfl fun _ => Iff.rfl
  | schedule => exact h.schedule_kept h' hs u
  | tick =>
    obtain ⟨c, hc⟩ := Option.isSome_iff_exists.mp hpermitted
    simp only [Scheduler.step, Scheduler.rtTickIncrease, hc, Option.bind_eq_bind,
      Option.bind_some] at hs
    split_ifs at hs
    · exact (reload_kept c u).trans ((h.reload c).schedule_kept h' hs u)
    · cases hs
      rw [h.table.rings.unique h'.table.rings]
      exact update_kept rfl rfl rfl rfl u

end Step

/-- A thread that a call has suspended, in the lists of the `objects`. -/
structure Suspended (s s' : Scheduler τ ω) (members' : ListHead ω → List τ) (t : τ)
    (objects : ω → Prop) (timed : Bool) : Prop where
  stat : (s'.thread t).stat = .suspend
  timer : (s'.thread t).timerActivated = timed
  waiting : ∀ o, t ∈ members' (.waiting o) ↔ objects o
  priority : s'.priority t = s.priority t
  initPriority : (s'.thread t).initPriority = (s.thread t).initPriority

/-- A thread that a call has made ready. -/
structure Woken (s s' : Scheduler τ ω) (members' : ListHead ω → List τ) (t : τ) : Prop where
  stat : (s'.thread t).stat.Runnable
  timer : (s'.thread t).timerActivated = false
  waiting : ∀ o, t ∉ members' (.waiting o)
  priority : s'.priority t = s.priority t
  initPriority : (s'.thread t).initPriority = (s.thread t).initPriority

section Subject

variable {s s' s'' : Scheduler τ ω} {members members' members'' : ListHead ω → List τ} {t : τ}

omit [DecidableEq τ] [DecidableEq ω] in
theorem Woken.kept (h : Woken s s' members' t) (h' : Kept s' s'' members' members'' t) :
    Woken s s'' members'' t where
  stat := h'.runnable_iff.mpr h.stat
  timer := h'.timer.trans h.timer
  waiting o hmem := h.waiting o ((h'.waiting o).mp hmem)
  priority := h'.priority.trans h.priority
  initPriority := h'.initPriority.trans h.initPriority

private theorem insert_stat (s : Scheduler τ ω) (t : τ) :
    ((s.rtScheduleInsertThread t).thread t).stat.Runnable := by
  rw [Scheduler.rtScheduleInsertThread]
  split_ifs
  · exact Or.inr (congrArg RtThread.stat (s.update_thread_self t _))
  · exact Or.inl (congrArg RtThread.stat (s.enqueue_thread_self t))

private theorem unwait_woken (h : SchedSound s members) (t : τ) :
    Woken s ((s.unwait t).rtScheduleInsertThread t) (resumedLists s members t) t where
  stat := insert_stat _ t
  timer := by
    have hinsert := (s.unwait t).insert_field (g := RtThread.timerActivated) (fun _ _ => rfl) t t
    rw [s.unwait_thread_self] at hinsert
    exact hinsert
  waiting o := by
    have hout : t ∉ (members (.waiting o)).erase t := (h.table.rings.nodup _).not_mem_erase
    rw [resumedLists]
    split_ifs
    · exact hout
    · rw [Function.update_of_ne (by simp)]
      exact hout
  priority := by
    have hinsert := (s.unwait t).insert_field (g := RtThread.currentPriority) (fun _ _ => rfl) t t
    rw [s.unwait_thread_self] at hinsert
    exact hinsert
  initPriority := by
    have hinsert := (s.unwait t).insert_field (g := RtThread.initPriority) (fun _ _ => rfl) t t
    rw [s.unwait_thread_self] at hinsert
    exact hinsert

variable [Fintype τ]

theorem SchedSound.timeout_woken (h : SchedSound s members) (h' : SchedSound s' members')
    (hs : s.step (.timeout t) = some s') : Woken s s' members' t := by
  obtain ⟨hsome, htimer⟩ := permitted_of_step h hs
  have hstat := (h.placed t).timer htimer
  rw [Scheduler.step, if_pos ⟨hsome, htimer⟩, Scheduler.rtThreadTimeout,
    if_neg (not_not.mpr hstat)] at hs
  exact (unwait_woken h t).kept ((h.wake hstat).schedule_kept h' hs t)

theorem SchedSound.wake_woken (h : SchedSound s members) (h' : SchedSound s' members') {o : ω}
    {rest : List τ} (hitems : members (.waiting o) = t :: rest)
    (hs : s.step (.wake o) = some s') : Woken s s' members' t := by
  obtain ⟨hresume, hstat⟩ := h.ipcResume hitems
  have hstep : s.step (.wake o) = some (s.rtThreadResume t) := hresume
  rw [hstep] at hs
  cases hs
  have hwoken := unwait_woken h t
  rw [Scheduler.rtThreadResume, if_neg (not_not.mpr hstat)] at h' ⊢
  rw [h'.table.rings.unique (h.wake hstat).table.rings]
  exact hwoken

theorem SchedSound.startup_woken (h : SchedSound s members) (h' : SchedSound s' members')
    (hpriority : s.priority t = (s.thread t).initPriority) (hs : s.step (.startup t) = some s') :
    Woken s s' members' t := by
  have hinit : (s.thread t).stat = .init := permitted_of_step h hs
  have hprepared := h.prepare hinit
  have hthread : (s.prepare t).thread t = _ := s.update_thread_self t _
  have hstat : ((s.prepare t).thread t).stat = .suspend := by rw [hthread]
  have hwoken := unwait_woken hprepared t
  have hsame : Woken s (((s.prepare t).unwait t).rtScheduleInsertThread t)
      (resumedLists (s.prepare t) members t) t := by
    refine ⟨hwoken.stat, hwoken.timer, hwoken.waiting, hwoken.priority.trans ?_,
      hwoken.initPriority.trans ?_⟩
    · rw [Scheduler.priority, hthread]
      exact hpriority.symm
    · rw [hthread]
  rw [Scheduler.step, Scheduler.rtThreadStartup, if_neg (not_not.mpr hinit),
    Scheduler.rtThreadResume, if_neg (not_not.mpr hstat)] at hs
  exact hsame.kept (scheduleIfStarted_kept (hprepared.wake hstat) h' hs t)

theorem SchedSound.sleep_suspended (h : SchedSound s members) (h' : SchedSound s' members')
    (hc : s.currentThread = some t) (hs : s.step .sleep = some s') :
    Suspended s s' members' t (fun _ => False) true := by
  obtain ⟨c, hc', hrunning⟩ := permitted_of_step h hs
  cases hc.symm.trans hc'
  obtain ⟨s₁, hs₁, hstat, hsound⟩ := h.suspendSelf hc hrunning
  simp only [Scheduler.step, hc, hrunning, hs₁, Option.bind_eq_bind, Option.bind_some, if_true,
    Option.map_some] at hs
  cases hs
  rw [h'.table.rings.unique (hsound.startTimer hstat true).table.rings]
  rw [Scheduler.rtThreadSuspend, if_neg (by simp [hrunning]), if_neg (by simp [hc])] at hs₁
  cases hs₁
  refine ⟨?_, ?_, fun o => iff_of_false ((h.running_facts hrunning).2.1 _) id, ?_, ?_⟩ <;>
    simp [Scheduler.startTimer, Scheduler.priority, Scheduler.rtScheduleRemoveThread]

theorem SchedSound.block_suspended (h : SchedSound s members) (h' : SchedSound s' members')
    {o : ω} {flag : IpcFlag} {timed : Bool} (hc : s.currentThread = some t)
    (hs : s.step (.block o flag timed) = some s') : Suspended s s' members' t (fun p => p = o) timed := by
  obtain ⟨c, hc', hrunning⟩ := permitted_of_step h hs
  cases hc.symm.trans hc'
  obtain ⟨s₁, hs₁, hstat, hsound⟩ := h.ipcSuspend (o := o) hc hrunning flag
  simp only [Scheduler.step, hc, hrunning, hs₁, Option.bind_eq_bind, Option.bind_some, if_true,
    Option.map_some] at hs
  cases hs
  rw [h'.table.rings.unique (hsound.startTimer hstat timed).table.rings]
  have hwaiting : ∀ p, t ∈ Function.update members (.waiting o)
      (DrumMachine.rtIpcListSuspend s.priority (members (.waiting o)) t flag) (.waiting p) ↔
        p = o := by
    intro p
    by_cases hp : p = o
    · subst hp
      rw [Function.update_self, (rtIpcListSuspend_perm ..).mem_iff]
      exact iff_of_true List.mem_cons_self rfl
    · rw [Function.update_of_ne (by simpa using hp)]
      exact iff_of_false ((h.running_facts hrunning).2.1 _) hp
  rw [Scheduler.rtIpcListSuspend, Scheduler.rtThreadSuspend, if_neg (by simp [hrunning]),
    if_neg (by simp [hc])] at hs₁
  obtain ⟨r, hr, hs₁⟩ := Option.bind_eq_some_iff.mp hs₁
  obtain ⟨n, -, hs₁⟩ := Option.bind_eq_some_iff.mp hs₁
  cases hr
  cases hs₁
  refine ⟨?_, ?_, hwaiting, ?_, ?_⟩ <;>
    simp [Scheduler.startTimer, Scheduler.priority, Scheduler.rtScheduleRemoveThread]

/-- A thread comes to wait for an object only by blocking on it. -/
theorem SchedSound.step_waiting (h : SchedSound s members) (h' : SchedSound s' members')
    {act : SchedAct τ ω} {o : ω} (hs : s.step act = some s')
    (hblock : ∀ flag timed, act = .block o flag timed → s.currentThread ≠ some t)
    (hmem : t ∈ members' (.waiting o)) : t ∈ members (.waiting o) := by
  by_cases habout : act.subject s members = some t
  swap
  · exact ((h.step_kept h' hs habout).waiting o).mp hmem
  have hpermitted := permitted_of_step h hs
  have hsuspended : (s'.thread t).stat = .suspend := (h'.placed t).waiting hmem
  cases act with
  | startup u =>
    cases habout
    have hinit : (s.thread t).stat = .init := hpermitted
    have hprepared := h.prepare hinit
    have hstat : ((s.prepare t).thread t).stat = .suspend := by
      rw [Scheduler.prepare, s.update_thread_self]
    rw [Scheduler.step, Scheduler.rtThreadStartup, if_neg (not_not.mpr hinit),
      Scheduler.rtThreadResume, if_neg (not_not.mpr hstat)] at hs
    have hkept := scheduleIfStarted_kept (hprepared.wake hstat) h' hs t
    exact absurd ((hkept.waiting o).mp hmem) ((unwait_woken hprepared t).waiting o)
  | suspend u =>
    cases habout
    rcases h.suspend hs with ⟨hsame, -, -⟩ | ⟨hsound, -⟩
    · subst hsame
      rwa [h.table.rings.unique h'.table.rings]
    · rw [h'.table.rings.unique hsound.table.rings] at hmem
      exact List.mem_of_mem_erase hmem
  | resume u =>
    cases habout
    cases hs
    by_cases hstat : (s.thread t).stat = .suspend
    · rw [Scheduler.rtThreadResume, if_neg (not_not.mpr hstat)] at h'
      rw [h'.table.rings.unique (h.wake hstat).table.rings] at hmem
      exact absurd hmem ((unwait_woken h t).waiting o)
    · rw [Scheduler.rtThreadResume, if_pos hstat] at h'
      rwa [h.table.rings.unique h'.table.rings]
  | wake p =>
    obtain ⟨rest, hitems⟩ := List.head?_eq_some_iff.mp habout
    exact absurd hmem ((h.wake_woken h' hitems hs).waiting o)
  | timeout u =>
    cases habout
    exact absurd hmem ((h.timeout_woken h' hs).waiting o)
  | changePriority u priority =>
    cases habout
    have hbound : ¬priority ≥ rtThreadPriorityMax := not_le.mpr hpermitted
    rw [Scheduler.step, Scheduler.rtThreadChangePriority, if_neg hbound] at hs
    split_ifs at hs with hready <;> cases hs
    · have hstat := insert_stat ((s.rtScheduleRemoveThread t).setPriority t priority) t
      rw [hsuspended] at hstat
      simp [ThreadStat.Runnable] at hstat
    · rwa [h'.table.rings.unique (h.changeOther hpermitted hready).table.rings] at hmem
  | close u =>
    cases habout
    cases hs
    rw [h'.table.rings.unique (h.close t).table.rings] at hmem
    exact List.mem_of_mem_erase hmem
  | sleep => exact absurd hmem (by simp [(h.sleep_suspended h' habout hs).waiting o])
  | block p flag timed =>
    by_cases hp : p = o
    · subst hp
      exact absurd habout (hblock flag timed rfl)
    · have hne : o ≠ p := fun heq => hp heq.symm
      exact absurd hmem (by simp [(h.block_suspended h' habout hs).waiting o, hne])
  | exit =>
    obtain ⟨c, hc, hrunning⟩ := hpermitted
    cases hc.symm.trans habout
    simp only [Scheduler.step, Scheduler.rtThreadExit, hc, Option.bind_eq_bind, Option.bind_some,
      hrunning, if_true] at hs
    have hkept := (h.closed hrunning).schedule_kept h' hs t
    exact List.mem_of_mem_erase ((hkept.waiting o).mp hmem)
  | start => cases habout
  | yield => cases habout
  | enterCritical => cases habout
  | exitCritical => cases habout
  | schedule => cases habout
  | tick => cases habout

end Subject

section Processor

variable {s s' : Scheduler τ ω} {members : ListHead ω → List τ} {t : τ}

private theorem insert_lock (s : Scheduler τ ω) (t : τ) :
    (s.rtScheduleInsertThread t).lockNest = s.lockNest := by
  rw [Scheduler.rtScheduleInsertThread]
  split_ifs <;> rfl

private theorem switch_lock (s : Scheduler τ ω) (c t : τ) (needInsert : Bool) :
    (s.switch c t needInsert).lockNest = s.lockNest := by
  rw [Scheduler.switch]
  split_ifs
  · exact insert_lock _ c
  · rfl

private theorem schedule_lock (h : SchedSound s members) (hs : s.rtSchedule = some s') :
    s'.lockNest = s.lockNest := by
  cases hc : s.currentThread with
  | none =>
    rw [Scheduler.rtSchedule] at hs
    split_ifs at hs
    · cases hs
      rfl
    · rw [hc] at hs
      cases hhighest : s.getHighestPriorityThread <;> rw [hhighest] at hs <;> cases hs
  | some c =>
    obtain ⟨s'', members'', hs'', -, hd⟩ := h.schedule hc
    rw [hs''] at hs
    cases hs
    cases hd with
    | idle => rfl
    | stay => rfl
    | preempt => exact switch_lock ..
    | replace => exact switch_lock ..

private theorem scheduleIfStarted_lock (h : SchedSound s members)
    (hs : s.scheduleIfStarted = some s') : s'.lockNest = s.lockNest := by
  rw [Scheduler.scheduleIfStarted] at hs
  split_ifs at hs
  · exact schedule_lock h hs
  · cases hs
    rfl

/-- When a critical section ends, the scheduler is unlocked or the same thread goes on. -/
theorem SchedSound.exitCritical_lock (h : SchedSound s members)
    (hs : s.rtExitCritical = some s') :
    s'.lockNest = 0 ∨ s'.currentThread = s.currentThread := by
  rw [Scheduler.rtExitCritical] at hs
  split_ifs at hs
  · exact Or.inl (scheduleIfStarted_lock (h.withLock 0) hs)
  · cases hs
    exact Or.inr rfl

private theorem suspend_lock (hs : s.rtThreadSuspend t = some s') : s'.lockNest = s.lockNest := by
  rw [Scheduler.rtThreadSuspend] at hs
  split_ifs at hs <;> cases hs <;> rfl

private theorem resume_lock (s : Scheduler τ ω) (t : τ) :
    (s.rtThreadResume t).lockNest = s.lockNest := by
  rw [Scheduler.rtThreadResume]
  split_ifs
  · rfl
  · exact insert_lock _ t

variable [Fintype τ]

private theorem ipcSuspend_lock {o : ω} {flag : IpcFlag}
    (hs : s.rtIpcListSuspend o t flag = some s') : s'.lockNest = s.lockNest := by
  rw [Scheduler.rtIpcListSuspend] at hs
  obtain ⟨r, hr, hs⟩ := Option.bind_eq_some_iff.mp hs
  obtain ⟨n, -, hs⟩ := Option.bind_eq_some_iff.mp hs
  cases hs
  exact (suspend_lock hr :)

/-- Only the calls for critical sections lock or unlock the scheduler. -/
theorem SchedSound.step_lock (h : SchedSound s members) {act : SchedAct τ ω}
    (hs : s.step act = some s') (henter : act ≠ .enterCritical) (hexit : act ≠ .exitCritical) :
    s'.lockNest = s.lockNest := by
  have hpermitted := permitted_of_step h hs
  cases act with
  | startup t =>
    have hinit : (s.thread t).stat = .init := hpermitted
    obtain ⟨members₁, hresumed⟩ := (h.prepare hinit).resume t
    rw [Scheduler.step, Scheduler.rtThreadStartup, if_neg (not_not.mpr hinit)] at hs
    exact (scheduleIfStarted_lock hresumed hs).trans (resume_lock _ t)
  | start =>
    obtain ⟨hnone, hgroup⟩ := hpermitted
    obtain ⟨p, t, rest, hhighest, -, -⟩ := h.table.highest hgroup
    simp only [Scheduler.step, hnone, Option.isSome_none, Bool.false_eq_true, if_false,
      Scheduler.rtSystemSchedulerStart, hgroup, hhighest, Option.bind_eq_bind,
      Option.bind_some] at hs
    cases hs
    rfl
  | yield =>
    obtain ⟨c, hc⟩ := Option.isSome_iff_exists.mp hpermitted
    rw [Scheduler.step, Scheduler.rtThreadYield, hc] at hs
    exact (schedule_lock (h.reload c) hs :)
  | sleep =>
    obtain ⟨c, hc, hrunning⟩ := hpermitted
    simp only [Scheduler.step, hc, hrunning, Option.bind_eq_bind, Option.bind_some,
      if_true] at hs
    obtain ⟨s₁, hs₁, rfl⟩ := Option.map_eq_some_iff.mp hs
    exact (suspend_lock hs₁ :)
  | block o flag timed =>
    obtain ⟨c, hc, hrunning⟩ := hpermitted
    simp only [Scheduler.step, hc, hrunning, Option.bind_eq_bind, Option.bind_some,
      if_true] at hs
    obtain ⟨s₁, hs₁, rfl⟩ := Option.map_eq_some_iff.mp hs
    exact (ipcSuspend_lock hs₁ :)
  | suspend t => exact suspend_lock hs
  | resume t =>
    cases hs
    exact resume_lock s t
  | wake o =>
    obtain ⟨t, rest, hitems⟩ := List.exists_cons_of_ne_nil hpermitted
    have hresume : s.step (.wake o) = some (s.rtThreadResume t) := (h.ipcResume hitems).1
    rw [hresume] at hs
    cases hs
    exact resume_lock s t
  | timeout t =>
    obtain ⟨hsome, htimer⟩ := hpermitted
    have hstat := (h.placed t).timer htimer
    rw [Scheduler.step, if_pos ⟨hsome, htimer⟩, Scheduler.rtThreadTimeout,
      if_neg (not_not.mpr hstat)] at hs
    exact (schedule_lock (h.wake hstat) hs).trans (insert_lock _ t)
  | changePriority t priority =>
    rw [Scheduler.step, Scheduler.rtThreadChangePriority] at hs
    split_ifs at hs <;> cases hs
    · exact insert_lock _ t
    · rfl
  | close t =>
    cases hs
    rw [Scheduler.rtThreadClose]
    split <;> rfl
  | exit =>
    obtain ⟨c, hc, hrunning⟩ := hpermitted
    simp only [Scheduler.step, Scheduler.rtThreadExit, hc, Option.bind_eq_bind, Option.bind_some,
      hrunning, if_true] at hs
    exact (schedule_lock (h.closed hrunning) hs :)
  | enterCritical => exact absurd rfl henter
  | exitCritical => exact absurd rfl hexit
  | schedule => exact schedule_lock h hs
  | tick =>
    obtain ⟨c, hc⟩ := Option.isSome_iff_exists.mp hpermitted
    simp only [Scheduler.step, Scheduler.rtTickIncrease, hc, Option.bind_eq_bind,
      Option.bind_some] at hs
    split_ifs at hs
    · exact (schedule_lock (h.reload c) hs :)
    · cases hs
      rfl

/-- A call that does not reschedule leaves the processor to whom it belongs. -/
theorem SchedSound.step_current (h : SchedSound s members) {act : SchedAct τ ω}
    (hs : s.step act = some s') (hnot : ¬act.Reschedules s) (hstart : act ≠ .start) :
    s'.currentThread = s.currentThread := by
  have hpermitted := permitted_of_step h hs
  cases act with
  | startup t =>
    have hinit : (s.thread t).stat = .init := hpermitted
    have hsame : ((s.prepare t).rtThreadResume t).currentThread = s.currentThread :=
      resume_current _ t
    rw [Scheduler.step, Scheduler.rtThreadStartup, if_neg (not_not.mpr hinit),
      Scheduler.scheduleIfStarted, if_neg (hsame ▸ hnot)] at hs
    cases hs
    exact hsame
  | start => exact absurd rfl hstart
  | sleep =>
    obtain ⟨c, hc, hrunning⟩ := hpermitted
    simp only [Scheduler.step, hc, hrunning, Option.bind_eq_bind, Option.bind_some,
      if_true] at hs
    obtain ⟨s₁, hs₁, rfl⟩ := Option.map_eq_some_iff.mp hs
    exact (Scheduler.suspend_current hs₁ :)
  | block o flag timed =>
    obtain ⟨c, hc, hrunning⟩ := hpermitted
    simp only [Scheduler.step, hc, hrunning, Option.bind_eq_bind, Option.bind_some,
      if_true] at hs
    obtain ⟨s₁, hs₁, rfl⟩ := Option.map_eq_some_iff.mp hs
    exact (Scheduler.ipcSuspend_current hs₁ :)
  | suspend t => exact Scheduler.suspend_current hs
  | resume t =>
    cases hs
    exact resume_current s t
  | wake o =>
    obtain ⟨t, rest, hitems⟩ := List.exists_cons_of_ne_nil hpermitted
    have hresume : s.step (.wake o) = some (s.rtThreadResume t) := (h.ipcResume hitems).1
    rw [hresume] at hs
    cases hs
    exact resume_current s t
  | changePriority t priority =>
    rw [Scheduler.step, Scheduler.rtThreadChangePriority] at hs
    split_ifs at hs <;> cases hs
    · exact Scheduler.insert_current _ t
    · rfl
  | close t =>
    cases hs
    exact s.close_current t
  | enterCritical =>
    cases hs
    rfl
  | exitCritical =>
    rw [Scheduler.step, Scheduler.rtExitCritical] at hs
    split_ifs at hs with hlast
    · rw [Scheduler.scheduleIfStarted] at hs
      split_ifs at hs with hcurrent
      · exact absurd ⟨hcurrent, hlast⟩ hnot
      · cases hs
        rfl
    · cases hs
      rfl
  | schedule =>
    have hidle : s.lockNest ≠ 0 ∨ s.readyPriorityGroup = 0#32 := hpermitted.resolve_left hnot
    rw [Scheduler.step, Scheduler.rtSchedule, if_pos hidle] at hs
    cases hs
    rfl
  | tick =>
    obtain ⟨c, hc⟩ := Option.isSome_iff_exists.mp hpermitted
    simp only [Scheduler.step, Scheduler.rtTickIncrease, hc, Option.bind_eq_bind,
      Option.bind_some] at hs
    split_ifs at hs with hzero
    · exact absurd ⟨c, hc, by grind⟩ hnot
    · cases hs
      rfl
  | yield => exact absurd hpermitted hnot
  | timeout t => exact absurd hpermitted.1 hnot
  | exit =>
    obtain ⟨c, hc, -⟩ := hpermitted
    exact absurd (Option.isSome_iff_exists.mpr ⟨c, hc⟩) hnot

/-- The tick takes the processor from nobody but for a thread of the highest priority. -/
theorem SchedSound.tick_settled (h : SchedSound s members) (hsettled : Settled s)
    (hs : s.step .tick = some s') : Settled s' := by
  by_cases hreschedules : SchedAct.Reschedules s .tick
  · exact h.step_settled hreschedules hs
  · obtain ⟨c, hc⟩ := Option.isSome_iff_exists.mp (permitted_of_step h hs)
    have hzero : ¬(s.thread c).remainingTick - 1#32 = 0#32 := by
      intro hzero
      apply hreschedules
      exact ⟨c, hc, by grind⟩
    simp only [Scheduler.step, Scheduler.rtTickIncrease, hc, Option.bind_eq_bind,
      Option.bind_some, hzero, if_false] at hs
    cases hs
    have hstat : ∀ u, ((s.update c fun thread => { thread with
        remainingTick := (s.thread c).remainingTick - 1#32 }).thread u).stat =
          (s.thread u).stat := s.update_field (g := RtThread.stat) c rfl
    have hpriority : ∀ u, (s.update c fun thread => { thread with
        remainingTick := (s.thread c).remainingTick - 1#32 }).priority u = s.priority u :=
      s.update_field (g := RtThread.currentPriority) c rfl
    intro hlock
    simp only [hstat, hpriority]
    exact hsettled hlock

theorem SchedSound.start_settled (h : SchedSound s members) (hs : s.step .start = some s') :
    Settled s' := by
  obtain ⟨hnone, hgroup⟩ := permitted_of_step h hs
  obtain ⟨p, t, rest, hhighest, hfirst, hleast⟩ := h.table.highest hgroup
  have ht : s.priority t = p := by
    apply h.table.level
    rw [hfirst]
    exact List.mem_cons_self
  simp only [Scheduler.step, hnone, Option.isSome_none, Bool.false_eq_true, if_false,
    Scheduler.rtSystemSchedulerStart, hgroup, hhighest, Option.bind_eq_bind,
    Option.bind_some] at hs
  cases hs
  intro hlock
  refine Or.inr ⟨t, rfl, Scheduler.run_stat _ t, ?_⟩
  intro u hu
  rw [Scheduler.run_priority, Scheduler.run_priority]
  change s.priority t ≤ s.priority u
  have hut : u ≠ t := by
    intro hut
    rw [hut, Scheduler.run_stat] at hu
    cases hu
  have hready : (s.thread u).stat = .ready := by
    rw [Scheduler.run, Scheduler.update_thread_of_ne _ hut] at hu
    exact hu
  have hmem := (h.placed u).ready.mp hready
  rw [ht]
  by_contra hlt
  rw [hleast _ (not_le.mp hlt)] at hmem
  cases hmem

end Processor

end DrumMachine
