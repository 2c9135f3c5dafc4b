import DrumMachine.Properties.SchedulerOrder
import DrumMachine.Properties.ThreadDelete

/-!
# Runs of the scheduler with deletions

Threads are deleted section by section while ticks and other threads go on. Seen with the
threads that are being deleted as closed, the scheduler stays sound, gives the processor to a
thread of the highest priority and follows its rota.
-/

namespace DrumMachine

open Framework

variable {τ ω : Type} [DecidableEq τ] [DecidableEq ω]

namespace DeletingScheduler

/-- The threads that are gone count as closed. -/
def seen (s : DeletingScheduler τ ω) : Scheduler τ ω := s.sched.asClosed s.gone

/-- No thread that is gone has the processor. -/
def Steady (s : DeletingScheduler τ ω) : Prop :=
  ∀ t, s.sched.currentThread = some t → s.gone t = false

/-- What a section does to the scheduler as it is seen. -/
inductive Section [Fintype τ] (r : Scheduler τ ω) : DeleteAct τ ω → Scheduler τ ω → Prop
  | call (act : SchedAct τ ω) {r' : Scheduler τ ω} (h : r.step act = some r') :
      Section r (.call act) r'
  | close (t : τ) : Section r (.remove t) (r.rtThreadClose t)
  | removeOwn (t : τ) (hcurrent : r.currentThread = some t)
      (hrunning : (r.thread t).stat = .running) :
      Section r (.remove t) (r.rtScheduleRemoveThread t)
  | detachTimer (t : τ) : Section r (.detachTimer t) r
  | detachOwn (t : τ) (hcurrent : r.currentThread = some t)
      (hrunning : (r.thread t).stat = .running) :
      Section r (.detachTimer t) (r.update t fun thread => { thread with timerActivated := false })
  | setClosed (t : τ) : Section r (.setClosed t) r
  | closeOwn (t : τ) (hcurrent : r.currentThread = some t)
      (hrunning : (r.thread t).stat = .running) :
      Section r (.setClosed t) (r.update t RtThread.closed)

variable {s s' : DeletingScheduler τ ω} {members : ListHead ω → List τ} {t : τ}

omit [DecidableEq ω] in
theorem setStage_gone (s : DeletingScheduler τ ω) (t : τ) (stage : DeleteStage) :
    (s.setStage t stage).gone = Function.update s.gone t stage.gone := by
  funext u
  by_cases hu : u = t
  · subst hu
    simp [gone, setStage]
  · simp [gone, setStage, hu]

omit [DecidableEq ω] in
theorem setStage_same {stage : DeleteStage} (h : stage.gone = s.gone t) :
    (s.setStage t stage).gone = s.gone := by
  rw [setStage_gone, h, Function.update_eq_self]

omit [DecidableEq τ] [DecidableEq ω] in
theorem seen_thread (ht : s.gone t = false) : s.seen.thread t = s.sched.thread t :=
  Scheduler.asClosed_thread ht

omit [DecidableEq τ] [DecidableEq ω] in
theorem seen_eq {gone : τ → Bool} (h : s.gone = gone) : s.seen = s.sched.asClosed gone := by
  rw [seen, h]

private theorem gone_section [Fintype τ] (hsteady : s.Steady) (ht : s.gone t = false)
    (hcurrent : s.sched.currentThread ≠ some t) {sched : Scheduler τ ω}
    (hkept : sched.currentThread = s.sched.currentThread)
    (hclosed : (sched.asClosed s.gone).update t RtThread.closed = s.seen.rtThreadClose t) :
    Section s.seen (.remove t) ({ s with sched }.setStage t (.removed false)).seen ∧
      ({ s with sched }.setStage t (.removed false)).Steady := by
  have hgone : ({ s with sched }.setStage t (.removed false)).gone =
      Function.update s.gone t true := setStage_gone ..
  constructor
  · have hseen : ({ s with sched }.setStage t (.removed false)).seen = s.seen.rtThreadClose t := by
      rw [← hclosed, ← Scheduler.asClosed_add ht, ← hgone]
      rfl
    rw [hseen]
    exact .close t
  · intro u hu
    have hu' : s.sched.currentThread = some u := hkept.symm.trans hu
    have hut : u ≠ t := by
      intro hut
      subst hut
      exact hcurrent hu'
    rw [hgone, Function.update_of_ne hut]
    exact hsteady u hu'

private theorem remove_section [Fintype τ] (hsteady : s.Steady) (hstage : s.stage t = .none)
    (hs : s.remove t = some s') : Section s.seen (.remove t) s'.seen ∧ s'.Steady := by
  have ht : s.gone t = false := by
    rw [gone, hstage]
    rfl
  have hthread := seen_thread ht
  rw [remove] at hs
  by_cases hclose : (s.sched.thread t).stat = .close
  · rw [if_pos hclose] at hs
    cases hs
    have hsame : s.seen.rtThreadClose t = s.seen := by
      rw [Scheduler.rtThreadClose, hthread, hclose]
    refine ⟨?_, hsteady⟩
    nth_rewrite 2 [← hsame]
    exact .close t
  rw [if_neg hclose] at hs
  by_cases hcurrent : s.sched.currentThread = some t
  · rw [decide_eq_true hcurrent] at hs
    split_ifs at hs with hgoes hinit <;> cases hs
    · exact absurd (hgoes rfl).2 (by simp [hinit])
    · have hgone : ({ s with sched := s.sched.rtScheduleRemoveThread t }.setStage t
          (.removed true)).gone = s.gone := setStage_same ht.symm
      have hseen : ({ s with sched := s.sched.rtScheduleRemoveThread t }.setStage t
          (.removed true)).seen = s.seen.rtScheduleRemoveThread t := by
        rw [seen, hgone]
        exact Scheduler.asClosed_remove ..
      refine ⟨?_, ?_⟩
      · rw [hseen]
        exact .removeOwn t hcurrent (hthread.symm ▸ (hgoes rfl).2)
      · intro u hu
        rw [hgone]
        exact hsteady u hu
  · rw [decide_eq_false hcurrent] at hs
    split_ifs at hs with hgoes hinit <;> cases hs
    · apply gone_section hsteady ht hcurrent rfl
      rw [Scheduler.rtThreadClose, hthread, hinit]
      rfl
    · refine gone_section hsteady ht hcurrent (s.sched.rtScheduleRemoveThread_current t) ?_
      rw [Scheduler.rtThreadClose, hthread, Scheduler.asClosed_remove]
      split
      · rename_i hclose'
        exact absurd hclose' hclose
      · rename_i hinit'
        exact absurd hinit' hinit
      · rfl

private theorem detachTimer_section [Fintype τ] (hsteady : s.Steady) {own : Bool}
    (hstage : s.stage t = .removed own) (hgoes : s.GoesOn t own) :
    Section s.seen (.detachTimer t) ((s.detachTimer t).setStage t (.timerDetached own)).seen ∧
      ((s.detachTimer t).setStage t (.timerDetached own)).Steady := by
  have hgone : ((s.detachTimer t).setStage t (.timerDetached own)).gone = s.gone := by
    have hstages : (DeleteStage.timerDetached own).gone = (s.detachTimer t).gone t := by
      change _ = (s.stage t).gone
      rw [hstage]
      rfl
    rw [setStage_same hstages]
    rfl
  constructor
  · rw [seen_eq hgone]
    have hownGone : s.gone t = !own := by
      rw [gone, hstage]
      rfl
    cases own with
    | false =>
      have hseen := Scheduler.asClosed_gone (s := s.sched) hownGone
        (f := fun thread => { thread with timerActivated := false }) rfl
      change Section _ _ ((s.sched.update t _).asClosed s.gone)
      rw [hseen]
      exact .detachTimer t
    | true =>
      obtain ⟨hcurrent, hrunning⟩ := hgoes rfl
      have hseen := Scheduler.asClosed_update (s := s.sched) hownGone
        fun thread => { thread with timerActivated := false }
      change Section _ _ ((s.sched.update t _).asClosed s.gone)
      rw [hseen]
      exact .detachOwn t hcurrent ((seen_thread hownGone).symm ▸ hrunning)
  · intro u hu
    rw [hgone]
    exact hsteady u hu

private theorem setClosed_section [Fintype τ] (hsteady : s.Steady) {own : Bool}
    (hstage : s.stage t = .timerDetached own) (hgoes : s.GoesOn t own) :
    Section s.seen (.setClosed t) ((s.setClosed t).setStage t .none).seen ∧
      ((s.setClosed t).setStage t .none).Steady := by
  have hgone : ((s.setClosed t).setStage t .none).gone = Function.update s.gone t false :=
    setStage_gone ..
  have hownGone : s.gone t = !own := by
    rw [gone, hstage]
    rfl
  constructor
  · rw [seen_eq hgone]
    change Section _ _ ((s.sched.update t RtThread.closed).asClosed _)
    cases own with
    | false =>
      have hseen : (s.sched.update t RtThread.closed).asClosed (Function.update s.gone t false) =
          s.seen := Scheduler.asClosed_drop hownGone
      rw [hseen]
      exact .setClosed t
    | true =>
      obtain ⟨hcurrent, hrunning⟩ := hgoes rfl
      have hsame : Function.update s.gone t false = s.gone := by
        rw [← Bool.not_true, ← hownGone, Function.update_eq_self]
      rw [hsame, Scheduler.asClosed_update hownGone]
      exact .closeOwn t hcurrent ((seen_thread hownGone).symm ▸ hrunning)
  · intro u hu
    rw [hgone]
    by_cases hut : u = t
    · rw [hut, Function.update_self]
    · rw [Function.update_of_ne hut]
      exact hsteady u hu

theorem step_section [Fintype τ] (hsound : SchedSound s.seen members) (hsteady : s.Steady)
    {act : DeleteAct τ ω} (hs : s.step act = some s') :
    Section s.seen act s'.seen ∧ s'.Steady := by
  cases act with
  | call act =>
    rw [step] at hs
    split_ifs at hs with htarget
    obtain ⟨sched, hsched, rfl⟩ := Option.map_eq_some_iff.mp hs
    have htargets : ∀ t, act.target = some t → s.gone t = false := by
      intro t ht
      rw [ht] at htarget
      simpa using htarget
    have hstep := Unaffected.step hsound hsteady htargets
    refine ⟨.call act ?_, fun t ht => hstep.current hsched ht⟩
    rw [seen, hstep.seen_eq, hsched]
    rfl
  | remove t =>
    rw [step] at hs
    split_ifs at hs with hstage
    exact remove_section hsteady hstage hs
  | detachTimer t =>
    rw [step] at hs
    split at hs
    · rename_i own hstage
      split_ifs at hs with hgoes
      cases hs
      exact detachTimer_section hsteady hstage hgoes
    · cases hs
  | setClosed t =>
    rw [step] at hs
    split at hs
    · rename_i own hstage
      split_ifs at hs with hgoes
      cases hs
      exact setClosed_section hsteady hstage hgoes
    · cases hs

end DeletingScheduler

section Sections

open DeletingScheduler

variable [Fintype τ] {r r' : Scheduler τ ω} {members : ListHead ω → List τ} {t : τ}
variable {act : DeleteAct τ ω} {q : Rota τ}

omit [Fintype τ] in
private theorem removed_sound (h : SchedSound r members) (hlive : (r.thread t).stat.Live)
    (hready : (r.thread t).stat ≠ .ready) :
    SchedSound (r.rtScheduleRemoveThread t) fun i => (members i).erase t := by
  have hleft := h.table.leave (f := id) (h.table.mask hlive) (fun u _ => h.placed u)
    ⟨rfl, rfl, rfl⟩ hready (h.placed t).running (fun hc => ((h.placed t).current hc).2)
    (h.placed t).timer
  rw [Scheduler.update_id] at hleft
  exact hleft

omit [Fintype τ] in
private theorem removeOwn_sound (h : SchedSound r members)
    (hrunning : (r.thread t).stat = .running) :
    SchedSound (r.rtScheduleRemoveThread t) members := by
  have hlive : (r.thread t).stat.Live := by simp [ThreadStat.Live, hrunning]
  have herase : (fun i => (members i).erase t) = members := by
    funext i
    exact List.erase_of_not_mem ((h.running_facts hrunning).2.1 i)
  have hremoved := removed_sound h hlive (by simp [hrunning])
  rw [herase] at hremoved
  exact hremoved

omit [DecidableEq ω] [Fintype τ] in
private theorem detachOwn_sound (h : SchedSound r members)
    (hrunning : (r.thread t).stat = .running) :
    SchedSound (r.update t fun thread => { thread with timerActivated := false }) members :=
  h.touch rfl rfl rfl rfl (h.running_facts hrunning).2.2.symm

omit [DecidableEq ω] [Fintype τ] in
private theorem closeOwn_sound (h : SchedSound r members)
    (hrunning : (r.thread t).stat = .running) :
    SchedSound (r.update t RtThread.closed) members := by
  obtain ⟨-, hout, -⟩ := h.running_facts hrunning
  apply h.alter
  · exact fun p => hout _
  · exact fun hmem => absurd hmem (hout _)
  · exact h.table.bounded t
  · exact fun hlive => absurd rfl hlive.2
  · simp
  · simp
  · simp
  · simp

theorem DeletingScheduler.Section.sound (h : SchedSound r members) (hsection : Section r act r') :
    ∃ members', SchedSound r' members' := by
  cases hsection with
  | call act hs => exact h.step hs
  | close t => exact ⟨_, h.close t⟩
  | removeOwn t hcurrent hrunning => exact ⟨members, removeOwn_sound h hrunning⟩
  | detachTimer t => exact ⟨members, h⟩
  | detachOwn t hcurrent hrunning => exact ⟨members, detachOwn_sound h hrunning⟩
  | setClosed t => exact ⟨members, h⟩
  | closeOwn t hcurrent hrunning => exact ⟨members, closeOwn_sound h hrunning⟩

end Sections

section Runs

open DeletingScheduler

variable [Fintype τ] {threads : ThreadTable τ}

theorem steady_start (threads : ThreadTable τ) :
    (deleteMachine (ω := ω) threads).init.Steady := fun _ _ => rfl

theorem deleting_of_exec {acts : List (DeleteAct τ ω)} {s : DeletingScheduler τ ω}
    (h : (deleteMachine threads).exec acts = some s) :
    (∃ members, SchedSound s.seen members) ∧ s.Steady := by
  refine (deleteMachine threads).exec_invariant
    (fun _ s => (∃ members, SchedSound s.seen members) ∧ s.Steady)
    ⟨⟨_, schedSound_start threads⟩, steady_start threads⟩ ?_ acts s h
  intro _ s act s' _ hs hstep
  obtain ⟨⟨members, hsound⟩, hsteady⟩ := hs
  obtain ⟨hsection, hsteady'⟩ := step_section hsound hsteady hstep
  exact ⟨hsection.sound hsound, hsteady'⟩

/-- After any calls of threads and interrupts in any order, each thread lies in exactly the
list that its status and priority name, the bits of the priority word say which rings are not
empty, and every call whose conditions are met succeeds. A thread that another one deletes
counts as closed once it has been taken out of its list. -/
theorem sched_sound (acts : List (DeleteAct τ ω)) (s : DeletingScheduler τ ω)
    (h : (deleteMachine threads).exec acts = some s) :
    ∃ members, SchedSound s.seen members ∧
      ∀ act, SchedAct.Permitted s.seen members act → act.target.any s.gone = false →
        ∃ s', s.step (.call act) = some s' := by
  obtain ⟨⟨members, hsound⟩, hsteady⟩ := deleting_of_exec h
  refine ⟨members, hsound, ?_⟩
  intro act hpermitted htarget
  have htargets : ∀ t, act.target = some t → s.gone t = false := by
    intro t ht
    rw [ht] at htarget
    exact htarget
  obtain ⟨r, -, hr, -⟩ := hsound.available hpermitted
  have hseen : s.seen.step act = (s.sched.step act).map fun sched => sched.asClosed s.gone :=
    (Unaffected.step hsound hsteady htargets).seen_eq
  rw [hr] at hseen
  obtain ⟨sched, hsched, -⟩ := Option.map_eq_some_iff.mp hseen.symm
  refine ⟨{ s with sched }, ?_⟩
  rw [DeletingScheduler.step, htarget, hsched]
  rfl

omit [DecidableEq τ] [DecidableEq ω] [Fintype τ] in
theorem reschedules_seen {s : DeletingScheduler τ ω} (hsteady : s.Steady) {act : SchedAct τ ω}
    (h : act.Reschedules s.sched) : act.Reschedules s.seen := by
  cases act with
  | tick =>
    obtain ⟨c, hc, hlast⟩ := h
    exact ⟨c, hc, by rw [seen_thread (hsteady c hc)]; exact hlast⟩
  | _ => exact h

/-- Whenever a call on whose way the code reschedules has ended and the scheduler is not
locked, the running thread has a priority at least as high as every ready one. -/
theorem sched_highest (acts : List (DeleteAct τ ω)) (s s' : DeletingScheduler τ ω)
    (act : SchedAct τ ω) (h : (deleteMachine threads).exec acts = some s)
    (hreschedules : act.Reschedules s.sched) (hstep : s.step (.call act) = some s') :
    Settled s'.seen := by
  obtain ⟨⟨members, hsound⟩, hsteady⟩ := deleting_of_exec h
  obtain ⟨hsection, -⟩ := step_section hsound hsteady hstep
  cases hsection with
  | call _ hs => exact hsound.step_settled (reschedules_seen hsteady hreschedules) hs

end Runs

/-- Without the condition on what comes between the sections the table is lost: if the timer
fires once its thread has been taken out of its list, and the scheduler is locked, the thread
is closed in the ring of its priority. -/
theorem closed_in_ring {s s' : Scheduler τ ω} {members : ListHead ω → List τ} {t : τ}
    (h : SchedSound s members) (hstat : (s.thread t).stat = .suspend)
    (hcurrent : s.currentThread ≠ some t) (hlock : s.lockNest ≠ 0)
    (hfires : (s.rtScheduleRemoveThread t).rtThreadTimeout t = some s')
    (members' : ListHead ω → List τ) : ¬SchedSound (s'.update t RtThread.closed) members' := by
  intro hclosed
  let removed := s.rtScheduleRemoveThread t
  have hlive : (s.thread t).stat.Live := by simp [ThreadStat.Live, hstat]
  have hstat' : (removed.thread t).stat = .suspend := hstat
  have hwoken := (removed_sound h hlive (by simp [hstat])).wake hstat'
  have hlocked : ((removed.unwait t).rtScheduleInsertThread t).lockNest ≠ 0 := by
    rw [Scheduler.rtScheduleInsertThread]
    split_ifs <;> exact hlock
  have hs' : (removed.unwait t).rtScheduleInsertThread t = s' := by
    rw [Scheduler.rtThreadTimeout, if_neg (not_not.mpr hstat'), Scheduler.rtSchedule,
      if_pos (Or.inl hlocked)] at hfires
    exact Option.some.inj hfires
  rw [hs'] at hwoken
  have hsame := hclosed.table.rings.unique hwoken.table.rings
  have hcurrent' : (s.rtScheduleRemoveThread t).currentThread ≠ some t := hcurrent
  have hmem : t ∈ members' (.ready ((s.rtScheduleRemoveThread t).priority t)) := by
    rw [hsame, resumedLists, if_neg hcurrent', Function.update_self]
    exact List.mem_append_right _ (List.mem_singleton_self t)
  exact hclosed.notMem_ready (by simp) _ hmem

def twoThreads : ThreadTable Bool where
  priority t := if t then 6 else 31
  tick _ := 32#32
  bounded := by decide

/-- The thread of the higher priority sleeps, and the other one is about to delete it when a
tick comes in between. -/
def deletingRun : List (DeleteAct Bool Unit) :=
  [.call (.startup false), .call (.startup true), .call .start, .call .sleep, .call .schedule,
    .remove true, .call .tick, .detachTimer true]

private theorem deletingRun_isSome :
    (((deleteMachine twoThreads).exec deletingRun).bind fun s => s.step (.call .yield)).isSome =
      true := by
  decide +kernel

theorem sched_sound_deleting :
    ∃ s, (deleteMachine twoThreads).exec deletingRun = some s ∧
      ∃ members, SchedSound s.seen members := by
  obtain ⟨s', hs'⟩ := Option.isSome_iff_exists.mp deletingRun_isSome
  obtain ⟨s, hs, -⟩ := Option.bind_eq_some_iff.mp hs'
  obtain ⟨members, hsound, -⟩ := sched_sound deletingRun s hs
  exact ⟨s, hs, members, hsound⟩

theorem sched_highest_deleting :
    ∃ s s', (deleteMachine twoThreads).exec deletingRun = some s ∧
      s.step (.call .yield) = some s' ∧ Settled s'.seen := by
  obtain ⟨s', hs'⟩ := Option.isSome_iff_exists.mp deletingRun_isSome
  obtain ⟨s, hs, hstep⟩ := Option.bind_eq_some_iff.mp hs'
  obtain ⟨⟨members, hsound⟩, hsteady⟩ := deleting_of_exec hs
  have hcurrent : s.sched.currentThread.isSome := by
    cases (DeletingScheduler.step_section hsound hsteady hstep).1 with
    | call _ hs => exact permitted_of_step hsound hs
  exact ⟨s, s', hs, hstep, sched_highest deletingRun s s' .yield hs hcurrent hstep⟩

end DrumMachine
