import DrumMachine.Kernel.ThreadDelete
import DrumMachine.Properties.SchedulerRuns

/-!
# Calls while a thread is deleted

A thread that another one deletes counts as closed from the section on in which it leaves its
list. A call that does not name it does the same on the scheduler seen so as on the real one:
the lists are the same, and nothing that the call reads tells the two apart.
-/

namespace DrumMachine

open Framework

variable {τ ω : Type} [DecidableEq τ] [DecidableEq ω]

namespace Scheduler

/-- The scheduler if the threads that are gone were closed already. -/
def asClosed (s : Scheduler τ ω) (gone : τ → Bool) : Scheduler τ ω :=
  { s with thread := fun t => if gone t then (s.thread t).closed else s.thread t }

variable {s : Scheduler τ ω} {gone : τ → Bool} {c t : τ}

omit [DecidableEq τ] [DecidableEq ω] in
theorem asClosed_thread (ht : gone t = false) : (s.asClosed gone).thread t = s.thread t := by
  simp [asClosed, ht]

omit [DecidableEq τ] [DecidableEq ω] in
theorem asClosed_thread_gone (ht : gone t = true) :
    (s.asClosed gone).thread t = (s.thread t).closed := if_pos ht

omit [DecidableEq τ] [DecidableEq ω] in
@[simp]
theorem asClosed_priority (s : Scheduler τ ω) (gone : τ → Bool) (t : τ) :
    (s.asClosed gone).priority t = s.priority t := by
  simp only [priority, asClosed]
  split_ifs <;> rfl

omit [DecidableEq τ] [DecidableEq ω] in
@[simp]
theorem asClosed_numberMask (s : Scheduler τ ω) (gone : τ → Bool) (t : τ) :
    ((s.asClosed gone).thread t).numberMask = (s.thread t).numberMask := by
  simp only [asClosed]
  split_ifs <;> rfl

omit [DecidableEq ω] in
theorem update_id (s : Scheduler τ ω) (t : τ) : s.update t id = s := by
  rw [update, id, Function.update_eq_self]

omit [DecidableEq ω] in
private theorem asClosed_touch {gone' : τ → Bool} {f g : RtThread → RtThread}
    (hgone : ∀ u ≠ t, gone' u = gone u)
    (hself : ((s.update t f).asClosed gone').thread t = g ((s.asClosed gone).thread t)) :
    (s.update t f).asClosed gone' = (s.asClosed gone).update t g := by
  have hthread : ((s.update t f).asClosed gone').thread =
      ((s.asClosed gone).update t g).thread := by
    funext u
    by_cases hu : u = t
    · subst hu
      rw [hself, update_thread_self]
    · simp only [asClosed, update_thread_of_ne _ hu, hgone u hu]
  exact congrArg (fun thread => { s with thread }) hthread

omit [DecidableEq ω] in
theorem asClosed_update (ht : gone t = false) (f : RtThread → RtThread) :
    (s.update t f).asClosed gone = (s.asClosed gone).update t f := by
  apply asClosed_touch (fun _ _ => rfl)
  rw [asClosed_thread ht, asClosed_thread ht, update_thread_self]

omit [DecidableEq ω] in
/-- A change of a thread that closing it undoes is not seen. -/
theorem asClosed_gone (ht : gone t = true) {f : RtThread → RtThread}
    (hf : (f (s.thread t)).closed = (s.thread t).closed) :
    (s.update t f).asClosed gone = s.asClosed gone := by
  rw [← (s.asClosed gone).update_id t]
  apply asClosed_touch (fun _ _ => rfl)
  rw [asClosed_thread_gone ht, asClosed_thread_gone ht, update_thread_self]
  exact hf

omit [DecidableEq ω] in
theorem asClosed_add (ht : gone t = false) :
    s.asClosed (Function.update gone t true) = (s.asClosed gone).update t RtThread.closed := by
  nth_rewrite 1 [← s.update_id t]
  apply asClosed_touch
  · exact fun u hu => Function.update_of_ne hu ..
  · rw [asClosed_thread_gone (Function.update_self ..), asClosed_thread ht, update_id]

omit [DecidableEq ω] in
theorem asClosed_drop (ht : gone t = true) :
    (s.update t RtThread.closed).asClosed (Function.update gone t false) = s.asClosed gone := by
  rw [← (s.asClosed gone).update_id t]
  apply asClosed_touch
  · exact fun u hu => Function.update_of_ne hu ..
  · rw [asClosed_thread (Function.update_self ..), asClosed_thread_gone ht, update_thread_self]
    rfl

theorem asClosed_remove (s : Scheduler τ ω) (gone : τ → Bool) (t : τ) :
    (s.rtScheduleRemoveThread t).asClosed gone = (s.asClosed gone).rtScheduleRemoveThread t := by
  simp only [rtScheduleRemoveThread, asClosed_priority, asClosed_numberMask]
  rfl

theorem rtScheduleRemoveThread_current (s : Scheduler τ ω) (t : τ) :
    (s.rtScheduleRemoveThread t).currentThread = s.currentThread := rfl

theorem asClosed_enqueue (ht : gone t = false) :
    (s.enqueue t).asClosed gone = (s.asClosed gone).enqueue t := by
  have hupdate := asClosed_update (s := s) ht fun thread => { thread with stat := .ready }
  have hpriority := s.asClosed_priority gone t
  have hmask := s.asClosed_numberMask gone t
  refine (Scheduler.mk.injEq ..).mpr ⟨?_, congrArg Scheduler.thread hupdate, ?_, rfl, rfl⟩
  · rw [hpriority]
    rfl
  · rw [hmask]
    rfl

theorem asClosed_insert (ht : gone t = false) :
    (s.rtScheduleInsertThread t).asClosed gone = (s.asClosed gone).rtScheduleInsertThread t := by
  have hcurrent : (s.asClosed gone).currentThread = s.currentThread := rfl
  rw [rtScheduleInsertThread, rtScheduleInsertThread, hcurrent]
  split_ifs
  · exact asClosed_update ht _
  · exact asClosed_enqueue ht

theorem asClosed_run (ht : gone t = false) :
    (s.run t).asClosed gone = (s.asClosed gone).run t := by
  rw [run, asClosed_update ht, asClosed_remove]
  rfl

theorem asClosed_switch (hc : gone c = false) (ht : gone t = false) (needInsert : Bool) :
    (s.switch c t needInsert).asClosed gone = (s.asClosed gone).switch c t needInsert := by
  simp only [switch]
  split_ifs
  · rw [asClosed_run ht, asClosed_insert hc]
    rfl
  · exact asClosed_run ht

theorem asClosed_dispatch (hc : gone c = false) (ht : gone t = false) (needInsert : Bool) :
    (s.dispatch c t needInsert).asClosed gone = (s.asClosed gone).dispatch c t needInsert := by
  rw [dispatch, dispatch]
  split_ifs
  · exact asClosed_switch hc ht needInsert
  · exact asClosed_run hc

omit [DecidableEq ω] in
theorem asClosed_clearYield (ht : gone t = false) :
    (s.clearYield t).asClosed gone = (s.asClosed gone).clearYield t := asClosed_update ht _

theorem asClosed_unwait (ht : gone t = false) :
    (s.unwait t).asClosed gone = (s.asClosed gone).unwait t := by
  have hupdate := asClosed_update (s := s) ht fun thread => { thread with timerActivated := false }
  exact congrArg (fun r : Scheduler τ ω => { r with links := s.links.remove (.item t) }) hupdate

theorem asClosed_resume (ht : gone t = false) :
    (s.rtThreadResume t).asClosed gone = (s.asClosed gone).rtThreadResume t := by
  rw [rtThreadResume, rtThreadResume, asClosed_thread ht]
  split_ifs
  · rfl
  · rw [asClosed_insert ht, asClosed_unwait ht]

theorem asClosed_close (ht : gone t = false) :
    (s.rtThreadClose t).asClosed gone = (s.asClosed gone).rtThreadClose t := by
  rw [rtThreadClose, rtThreadClose, asClosed_thread ht]
  split
  · rfl
  · exact asClosed_update ht _
  · rw [asClosed_update ht, asClosed_remove]

theorem asClosed_ipcPosition (s : Scheduler τ ω) (gone : τ → Bool)
    (list : RingNode (ListHead ω) τ) (t : τ) (fuel : Nat) (n : RingNode (ListHead ω) τ) :
    (s.asClosed gone).ipcPosition list t fuel n = s.ipcPosition list t fuel n := by
  induction fuel generalizing n with
  | zero => rfl
  | succ fuel ih =>
    simp only [ipcPosition, asClosed_priority, ih]
    rfl

end Scheduler

/-- The call does the same whether the threads that are gone count as closed or not, and it gives
the processor to none of them. -/
structure Unaffected (gone : τ → Bool) (next seen : Option (Scheduler τ ω)) : Prop where
  seen_eq : seen = next.map fun s => s.asClosed gone
  current : ∀ {s t}, next = some s → s.currentThread = some t → gone t = false

namespace Unaffected

variable {s : Scheduler τ ω} {gone : τ → Bool} {members : ListHead ω → List τ} {t : τ}

omit [DecidableEq τ] [DecidableEq ω] in
theorem fault : Unaffected gone (none : Option (Scheduler τ ω)) none where
  seen_eq := rfl
  current := by simp

omit [DecidableEq τ] [DecidableEq ω] in
theorem done {r : Scheduler τ ω} (hseen : s.asClosed gone = r)
    (hcurrent : ∀ t, s.currentThread = some t → gone t = false) :
    Unaffected gone (some s) (some r) where
  seen_eq := congrArg Option.some hseen.symm
  current := by
    intro s' t hs' ht
    cases hs'
    exact hcurrent t ht

omit [DecidableEq τ] [DecidableEq ω] in
theorem listed (h : SchedSound (s.asClosed gone) members) {i : ListHead ω} (ht : t ∈ members i) :
    gone t = false := by
  by_contra hgone
  have hclosed : ((s.asClosed gone).thread t).stat = .close := by
    rw [Scheduler.asClosed_thread_gone (Bool.eq_true_of_not_eq_false hgone)]
    rfl
  exact h.notMem (by simp [hclosed]) (by simp [hclosed]) i ht

omit [DecidableEq τ] [DecidableEq ω] in
theorem highest (h : SchedSound (s.asClosed gone) members) {p : Nat}
    (hgroup : s.readyPriorityGroup ≠ 0#32)
    (hhighest : s.getHighestPriorityThread = some (p, t)) : gone t = false := by
  obtain ⟨q, u, rest, hfound, hfirst, -⟩ := h.table.highest hgroup
  have hsame : some (p, t) = some (q, u) := hhighest.symm.trans hfound
  have hmem : t ∈ members (.ready q) := by
    rw [hfirst, (Prod.mk.inj (Option.some.inj hsame)).2]
    exact List.mem_cons_self
  exact listed h hmem

private theorem dispatch {c : τ} (hc : s.currentThread = some c) (hcfree : gone c = false)
    (ht : gone t = false) (needInsert : Bool) :
    Unaffected gone (some (s.dispatch c t needInsert))
      (some ((s.asClosed gone).dispatch c t needInsert)) := by
  apply Unaffected.done (Scheduler.asClosed_dispatch hcfree ht needInsert)
  intro u hu
  rw [Scheduler.dispatch] at hu
  split_ifs at hu with hne
  · rw [Scheduler.switch_current] at hu
    cases hu
    exact ht
  · change s.currentThread = some u at hu
    rw [hc] at hu
    cases hu
    exact hcfree

theorem schedule (h : SchedSound (s.asClosed gone) members)
    (hcurrent : ∀ t, s.currentThread = some t → gone t = false) :
    Unaffected gone s.rtSchedule (s.asClosed gone).rtSchedule := by
  have hlock : (s.asClosed gone).lockNest = s.lockNest := rfl
  have hgroup : (s.asClosed gone).readyPriorityGroup = s.readyPriorityGroup := rfl
  have hhighest : (s.asClosed gone).getHighestPriorityThread = s.getHighestPriorityThread := rfl
  have hsame : (s.asClosed gone).currentThread = s.currentThread := rfl
  rw [Scheduler.rtSchedule, Scheduler.rtSchedule, hlock, hgroup, hhighest, hsame]
  by_cases hidle : s.lockNest ≠ 0 ∨ s.readyPriorityGroup = 0#32
  · rw [if_pos hidle, if_pos hidle]
    exact Unaffected.done rfl hcurrent
  rw [if_neg hidle, if_neg hidle]
  cases hfound : s.getHighestPriorityThread with
  | none => exact Unaffected.fault
  | some found =>
    obtain ⟨p, t⟩ := found
    have ht := highest h (fun hzero => hidle (Or.inr hzero)) hfound
    cases hc : s.currentThread with
    | none => exact Unaffected.fault
    | some c =>
      have hcfree := hcurrent c hc
      simp only [Option.bind_eq_bind, Option.bind_some, Scheduler.asClosed_thread hcfree]
      rw [← Scheduler.asClosed_clearYield hcfree]
      split_ifs
      · exact dispatch (s := s.clearYield c) hc hcfree hcfree false
      · exact dispatch (s := s.clearYield c) hc hcfree ht true
      · exact dispatch hc hcfree ht false

theorem scheduleIfStarted (h : SchedSound (s.asClosed gone) members)
    (hcurrent : ∀ t, s.currentThread = some t → gone t = false) :
    Unaffected gone s.scheduleIfStarted (s.asClosed gone).scheduleIfStarted := by
  have hsame : (s.asClosed gone).currentThread = s.currentThread := rfl
  rw [Scheduler.scheduleIfStarted, Scheduler.scheduleIfStarted, hsame]
  split_ifs
  · exact schedule h hcurrent
  · exact Unaffected.done rfl hcurrent

theorem suspend (ht : gone t = false) (hcurrent : ∀ t, s.currentThread = some t → gone t = false) :
    Unaffected gone (s.rtThreadSuspend t) ((s.asClosed gone).rtThreadSuspend t) := by
  have hsame : (s.asClosed gone).currentThread = s.currentThread := rfl
  rw [Scheduler.rtThreadSuspend, Scheduler.rtThreadSuspend, hsame, Scheduler.asClosed_thread ht]
  split_ifs
  · exact Unaffected.done rfl hcurrent
  · exact Unaffected.fault
  · apply Unaffected.done
    · rw [Scheduler.asClosed_update ht, Scheduler.asClosed_remove]
    · exact hcurrent

omit [DecidableEq τ] [DecidableEq ω] in
theorem map {next seen : Option (Scheduler τ ω)} (h : Unaffected gone next seen)
    {f : Scheduler τ ω → Scheduler τ ω} (hf : ∀ s, (f s).asClosed gone = f (s.asClosed gone))
    (hkept : ∀ s, (f s).currentThread = s.currentThread) :
    Unaffected gone (next.map f) (seen.map f) := by
  rw [h.seen_eq]
  cases next with
  | none => exact Unaffected.fault
  | some s =>
    apply Unaffected.done (hf s)
    intro t ht
    rw [hkept] at ht
    exact h.current rfl ht

theorem changePriority (ht : gone t = false) (priority : Nat)
    (hcurrent : ∀ t, s.currentThread = some t → gone t = false) :
    Unaffected gone (s.rtThreadChangePriority t priority)
      ((s.asClosed gone).rtThreadChangePriority t priority) := by
  rw [Scheduler.rtThreadChangePriority, Scheduler.rtThreadChangePriority,
    Scheduler.asClosed_thread ht]
  split_ifs
  · exact Unaffected.fault
  · apply Unaffected.done
    · rw [Scheduler.asClosed_insert ht, Scheduler.setPriority, Scheduler.asClosed_update ht,
        Scheduler.asClosed_remove]
      rfl
    · rw [Scheduler.insert_current]
      exact hcurrent
  · exact Unaffected.done (Scheduler.asClosed_update ht _) hcurrent

variable [Fintype τ]

private theorem ipcNode_seen (s : Scheduler τ ω) (gone : τ → Bool) (o : ω) (t : τ) (flag : IpcFlag) :
    (s.asClosed gone).ipcNode o t flag = s.ipcNode o t flag := by
  cases flag with
  | fifo => rfl
  | prio => exact s.asClosed_ipcPosition gone ..

theorem ipcSuspend (ht : gone t = false)
    (hcurrent : ∀ t, s.currentThread = some t → gone t = false) (o : ω) (flag : IpcFlag) :
    Unaffected gone (s.rtIpcListSuspend o t flag)
      ((s.asClosed gone).rtIpcListSuspend o t flag) := by
  have hsuspend := suspend ht hcurrent
  rw [Scheduler.rtIpcListSuspend, Scheduler.rtIpcListSuspend, hsuspend.seen_eq]
  cases hs : s.rtThreadSuspend t with
  | none => exact Unaffected.fault
  | some s₁ =>
    simp only [Option.map_some, Option.bind_eq_bind, Option.bind_some, ipcNode_seen]
    cases s₁.ipcNode o t flag with
    | none => exact Unaffected.fault
    | some n =>
      apply Unaffected.done rfl
      intro u hu
      exact hsuspend.current hs hu

omit [Fintype τ] in
private theorem reload {c : τ} (h : SchedSound (s.asClosed gone) members)
    (hcurrent : ∀ t, s.currentThread = some t → gone t = false) (hc : gone c = false) :
    Unaffected gone (s.reload c).rtSchedule ((s.asClosed gone).reload c).rtSchedule := by
  have hreload : (s.reload c).asClosed gone = (s.asClosed gone).reload c :=
    Scheduler.asClosed_update hc _
  have hsound := h.reload c
  rw [← hreload] at hsound ⊢
  exact schedule hsound hcurrent

theorem step (h : SchedSound (s.asClosed gone) members)
    (hcurrent : ∀ t, s.currentThread = some t → gone t = false) {act : SchedAct τ ω}
    (htarget : ∀ t, act.target = some t → gone t = false) :
    Unaffected gone (s.step act) ((s.asClosed gone).step act) := by
  have hsame : (s.asClosed gone).currentThread = s.currentThread := rfl
  cases act with
  | startup t =>
    have ht := htarget t rfl
    rw [Scheduler.step, Scheduler.step, Scheduler.rtThreadStartup, Scheduler.rtThreadStartup,
      Scheduler.asClosed_thread ht]
    split_ifs with hinit
    · exact Unaffected.fault
    have hprepare : (s.prepare t).asClosed gone = (s.asClosed gone).prepare t :=
      Scheduler.asClosed_update ht _
    have hinit' : ((s.asClosed gone).thread t).stat = .init := by
      rw [Scheduler.asClosed_thread ht]
      exact not_not.mp hinit
    obtain ⟨members', hsound⟩ := (h.prepare hinit').resume t
    rw [← hprepare, ← Scheduler.asClosed_resume ht] at hsound ⊢
    apply scheduleIfStarted hsound
    rw [resume_current]
    exact hcurrent
  | start =>
    rw [Scheduler.step, Scheduler.step, hsame, Scheduler.rtSystemSchedulerStart,
      Scheduler.rtSystemSchedulerStart]
    have hgroup : (s.asClosed gone).readyPriorityGroup = s.readyPriorityGroup := rfl
    have hhighest : (s.asClosed gone).getHighestPriorityThread = s.getHighestPriorityThread := rfl
    rw [hgroup, hhighest]
    split_ifs with hstarted hempty
    · exact Unaffected.fault
    · exact Unaffected.fault
    · cases hfound : s.getHighestPriorityThread with
      | none => exact Unaffected.fault
      | some found =>
        obtain ⟨p, t⟩ := found
        have ht := highest h hempty hfound
        apply Unaffected.done (Scheduler.asClosed_run ht)
        intro u hu
        cases (hu : some t = some u)
        exact ht
  | yield =>
    rw [Scheduler.step, Scheduler.step, Scheduler.rtThreadYield, Scheduler.rtThreadYield, hsame]
    cases hc : s.currentThread with
    | none => exact Unaffected.fault
    | some c => exact reload h hcurrent (hcurrent c hc)
  | sleep =>
    rw [Scheduler.step, Scheduler.step, hsame]
    cases hc : s.currentThread with
    | none => exact Unaffected.fault
    | some c =>
      have hcfree := hcurrent c hc
      simp only [Option.bind_eq_bind, Option.bind_some, Scheduler.asClosed_thread hcfree]
      split_ifs
      · exact (suspend hcfree hcurrent).map (fun r => Scheduler.asClosed_update hcfree _)
          fun r => rfl
      · exact Unaffected.fault
  | block o flag timed =>
    rw [Scheduler.step, Scheduler.step, hsame]
    cases hc : s.currentThread with
    | none => exact Unaffected.fault
    | some c =>
      have hcfree := hcurrent c hc
      simp only [Option.bind_eq_bind, Option.bind_some, Scheduler.asClosed_thread hcfree]
      split_ifs
      · exact (ipcSuspend hcfree hcurrent o flag).map (fun r => Scheduler.asClosed_update hcfree _)
          fun r => rfl
      · exact Unaffected.fault
  | suspend t => exact suspend (htarget t rfl) hcurrent
  | resume t =>
    apply Unaffected.done (Scheduler.asClosed_resume (htarget t rfl))
    rw [resume_current]
    exact hcurrent
  | wake o =>
    have hnext : (s.asClosed gone).links = s.links := rfl
    rw [Scheduler.step, Scheduler.step, Scheduler.rtIpcListResume, Scheduler.rtIpcListResume, hnext]
    cases hfirst : s.links.next (.head (.waiting o)) with
    | head i => exact Unaffected.fault
    | item t =>
      have ht : gone t = false := by
        apply listed (i := .waiting o) h
        rw [← hnext, h.table.rings.next_head] at hfirst
        cases hitems : members (.waiting o) with
        | nil =>
          rw [hitems] at hfirst
          cases hfirst
        | cons u rest =>
          rw [hitems] at hfirst
          cases hfirst
          exact List.mem_cons_self
      apply Unaffected.done (Scheduler.asClosed_resume ht)
      rw [resume_current]
      exact hcurrent
  | timeout t =>
    have ht := htarget t rfl
    rw [Scheduler.step, Scheduler.step, hsame, Scheduler.rtThreadTimeout, Scheduler.rtThreadTimeout,
      Scheduler.asClosed_thread ht]
    split_ifs with htimer hstat
    · exact Unaffected.fault
    · have hstat' : ((s.asClosed gone).thread t).stat = .suspend := by
        rw [Scheduler.asClosed_thread ht]
        exact not_not.mp hstat
      have hsound := h.wake hstat'
      rw [← Scheduler.asClosed_unwait ht, ← Scheduler.asClosed_insert ht] at hsound ⊢
      apply schedule hsound
      rw [Scheduler.insert_current]
      exact hcurrent
    · exact Unaffected.fault
  | changePriority t priority => exact changePriority (htarget t rfl) priority hcurrent
  | close t =>
    apply Unaffected.done (Scheduler.asClosed_close (htarget t rfl))
    rw [Scheduler.close_current]
    exact hcurrent
  | exit =>
    rw [Scheduler.step, Scheduler.step, Scheduler.rtThreadExit, Scheduler.rtThreadExit, hsame]
    cases hc : s.currentThread with
    | none => exact Unaffected.fault
    | some c =>
      have hcfree := hcurrent c hc
      simp only [Option.bind_eq_bind, Option.bind_some, Scheduler.asClosed_thread hcfree]
      split_ifs with hrunning
      · have hrunning' : ((s.asClosed gone).thread c).stat = .running := by
          rw [Scheduler.asClosed_thread hcfree]
          exact hrunning
        have hsound := h.closed hrunning'
        rw [← Scheduler.asClosed_remove, ← Scheduler.asClosed_update hcfree] at hsound ⊢
        exact schedule hsound hcurrent
      · exact Unaffected.fault
  | enterCritical => exact Unaffected.done rfl hcurrent
  | exitCritical =>
    have hlock : (s.asClosed gone).lockNest = s.lockNest := rfl
    rw [Scheduler.step, Scheduler.step, Scheduler.rtExitCritical, Scheduler.rtExitCritical, hlock]
    split_ifs
    · exact scheduleIfStarted (s := { s with lockNest := 0 }) (h.withLock 0) hcurrent
    · exact Unaffected.done rfl hcurrent
  | schedule => exact schedule h hcurrent
  | tick =>
    rw [Scheduler.step, Scheduler.step, Scheduler.rtTickIncrease, Scheduler.rtTickIncrease, hsame]
    cases hc : s.currentThread with
    | none => exact Unaffected.fault
    | some c =>
      have hcfree := hcurrent c hc
      simp only [Option.bind_eq_bind, Option.bind_some, Scheduler.asClosed_thread hcfree]
      split_ifs
      · exact reload h hcurrent hcfree
      · exact Unaffected.done (Scheduler.asClosed_update hcfree _) hcurrent

end Unaffected

end DrumMachine
