import DrumMachine.Properties.SchedulerSound

/-!
# Runs of the scheduler

Every order of calls from threads and interrupts keeps the ready table sound, no call whose
conditions its caller meets can fault, and whenever a call has ended in `rt_schedule` with the
scheduler unlocked, no ready thread has a higher priority than the running one.
-/

namespace DrumMachine

open Framework

variable {τ ω : Type} [DecidableEq τ] [DecidableEq ω] [Fintype τ]

/-- What the caller of a step has to see to. -/
def SchedAct.Permitted (s : Scheduler τ ω) (members : ListHead ω → List τ) :
    SchedAct τ ω → Prop
  | .startup t => (s.thread t).stat = .init
  | .start => s.currentThread = none ∧ s.readyPriorityGroup ≠ 0#32
  | .sleep | .block _ _ _ | .exit => ∃ c, s.currentThread = some c ∧ (s.thread c).stat = .running
  | .wake o => members (.waiting o) ≠ []
  | .timeout t => s.currentThread.isSome ∧ (s.thread t).timerActivated = true
  | .changePriority _ priority => priority < rtThreadPriorityMax
  | .yield | .tick => s.currentThread.isSome
  | .schedule => s.currentThread.isSome ∨ s.lockNest ≠ 0 ∨ s.readyPriorityGroup = 0#32
  | .suspend _ | .resume _ | .close _ | .enterCritical | .exitCritical => True

section Step

variable {s s' : Scheduler τ ω} {members : ListHead ω → List τ} {t : τ}

omit [Fintype τ] in
theorem SchedSound.start (h : SchedSound s members) (hnone : s.currentThread = none)
    (hgroup : s.readyPriorityGroup ≠ 0#32) :
    ∃ s' members', s.rtSystemSchedulerStart = some s' ∧ SchedSound s' members' := by
  obtain ⟨p, t, rest, hhighest, hfirst, -⟩ := h.table.highest hgroup
  have hmem : t ∈ members (.ready p) := by
    rw [hfirst]
    exact List.mem_cons_self
  have ht : (s.thread t).stat = .ready := by
    rw [(h.placed t).ready, h.table.level hmem]
    exact hmem
  have hvacant : SchedSound { s with currentThread := none } members := by
    rw [← hnone]
    exact h
  refine ⟨_, _, ?_, hvacant.takeOver ht⟩
  rw [Scheduler.rtSystemSchedulerStart, if_neg hgroup, hhighest]
  rfl

omit [DecidableEq ω] [Fintype τ] in
theorem SchedSound.startTimer (h : SchedSound s members) (hstat : (s.thread t).stat = .suspend)
    (timed : Bool) : SchedSound (s.startTimer t timed) members := by
  have hlive : (s.thread t).stat.Live := by simp [ThreadStat.Live, hstat]
  apply h.alter
  · exact h.notMem_ready (by simp [hstat])
  · exact fun _ => hstat
  · exact h.table.bounded t
  · exact fun _ => h.table.mask hlive
  · change (s.thread t).stat ≠ .ready
    simp [hstat]
  · exact (h.placed t).running
  · intro _
    change (s.thread t).stat ≠ .init
    simp [hstat]
  · exact fun _ => hstat

/-- A call whose conditions are met does not fault. -/
theorem SchedSound.available (h : SchedSound s members) {act : SchedAct τ ω}
    (hpermitted : act.Permitted s members) :
    ∃ s' members', s.step act = some s' ∧ SchedSound s' members' := by
  cases act with
  | startup t => exact h.startup hpermitted
  | start =>
    obtain ⟨hnone, hgroup⟩ := hpermitted
    rw [Scheduler.step, hnone]
    exact h.start hnone hgroup
  | yield =>
    obtain ⟨c, hc⟩ := Option.isSome_iff_exists.mp hpermitted
    exact h.yield hc
  | sleep =>
    obtain ⟨c, hc, hrunning⟩ := hpermitted
    obtain ⟨s', hs', hstat, hsound⟩ := h.suspendSelf hc hrunning
    refine ⟨_, _, ?_, hsound.startTimer hstat true⟩
    simp [Scheduler.step, hc, hrunning, hs']
  | block o flag timed =>
    obtain ⟨c, hc, hrunning⟩ := hpermitted
    obtain ⟨s', hs', hstat, hsound⟩ := h.ipcSuspend (o := o) hc hrunning flag
    refine ⟨_, _, ?_, hsound.startTimer hstat timed⟩
    simp [Scheduler.step, hc, hrunning, hs']
  | suspend t =>
    have hsome : ∃ s', s.rtThreadSuspend t = some s' := by
      rw [Scheduler.rtThreadSuspend]
      split_ifs with hstat hself
      · exact ⟨s, rfl⟩
      · exact absurd ((h.placed t).running hself.1) hself.2
      · exact ⟨_, rfl⟩
    obtain ⟨s', hs'⟩ := hsome
    rcases h.suspend hs' with ⟨hsame, -⟩ | ⟨hsound, -⟩
    · exact ⟨s', members, hs', hsame ▸ h⟩
    · exact ⟨s', _, hs', hsound⟩
  | resume t =>
    obtain ⟨members', hsound⟩ := h.resume t
    exact ⟨_, members', rfl, hsound⟩
  | wake o =>
    obtain ⟨t, rest, hitems⟩ := List.exists_cons_of_ne_nil hpermitted
    obtain ⟨hresume, -⟩ := h.ipcResume hitems
    obtain ⟨members', hsound⟩ := h.resume t
    exact ⟨_, members', hresume, hsound⟩
  | timeout t =>
    obtain ⟨hstarted, htimer⟩ := hpermitted
    obtain ⟨c, hc⟩ := Option.isSome_iff_exists.mp hstarted
    rw [Scheduler.step, if_pos ⟨hstarted, htimer⟩]
    exact h.timeout ((h.placed t).timer htimer) hc
  | changePriority t priority => exact h.changePriority hpermitted
  | close t => exact ⟨_, _, rfl, h.close t⟩
  | exit =>
    obtain ⟨c, hc, hrunning⟩ := hpermitted
    obtain ⟨s', members', hs', hsound⟩ := h.exit hc hrunning
    refine ⟨s', members', ?_, hsound⟩
    simp [Scheduler.step, hc, hrunning, hs']
  | enterCritical => exact ⟨_, members, rfl, h.withLock _⟩
  | exitCritical => exact h.exitCritical
  | schedule =>
    rcases hpermitted with hcurrent | hidle
    · obtain ⟨c, hc⟩ := Option.isSome_iff_exists.mp hcurrent
      obtain ⟨s', members', hs', hsound, -⟩ := h.schedule hc
      exact ⟨s', members', hs', hsound⟩
    · exact ⟨s, members, if_pos hidle, h⟩
  | tick =>
    obtain ⟨c, hc⟩ := Option.isSome_iff_exists.mp hpermitted
    exact h.tick hc

private theorem isSome_of_bind {α β : Type} {x : Option α} {f : α → Option β} {b : β}
    (h : x.bind f = some b) : x.isSome = true := by
  cases x with
  | none => cases h
  | some a => rfl

/-- A step that is taken has met its conditions. -/
theorem permitted_of_step (h : SchedSound s members) {act : SchedAct τ ω}
    (hs : s.step act = some s') : act.Permitted s members := by
  cases act with
  | startup t =>
    rw [Scheduler.step, Scheduler.rtThreadStartup] at hs
    split_ifs at hs with hinit
    exact not_not.mp hinit
  | start =>
    rw [Scheduler.step] at hs
    split_ifs at hs with hcurrent
    rw [Scheduler.rtSystemSchedulerStart] at hs
    split_ifs at hs with hgroup
    exact ⟨by simpa using hcurrent, hgroup⟩
  | yield => exact isSome_of_bind hs
  | sleep =>
    obtain ⟨c, hc⟩ := Option.isSome_iff_exists.mp (isSome_of_bind hs)
    simp only [Scheduler.step, hc, Option.bind_eq_bind, Option.bind_some] at hs
    split_ifs at hs with hrunning
    exact ⟨c, hc, hrunning⟩
  | block o flag timed =>
    obtain ⟨c, hc⟩ := Option.isSome_iff_exists.mp (isSome_of_bind hs)
    simp only [Scheduler.step, hc, Option.bind_eq_bind, Option.bind_some] at hs
    split_ifs at hs with hrunning
    exact ⟨c, hc, hrunning⟩
  | suspend t => trivial
  | resume t => trivial
  | wake o =>
    intro hnil
    rw [Scheduler.step, Scheduler.rtIpcListResume, h.table.rings.next_head, hnil] at hs
    cases hs
  | timeout t =>
    rw [Scheduler.step] at hs
    split_ifs at hs with htimer
    exact htimer
  | changePriority t priority =>
    rw [Scheduler.step, Scheduler.rtThreadChangePriority] at hs
    split_ifs at hs with hpriority
    · exact not_le.mp hpriority
    · exact not_le.mp hpriority
  | close t => trivial
  | exit =>
    obtain ⟨c, hc⟩ := Option.isSome_iff_exists.mp (isSome_of_bind hs)
    simp only [Scheduler.step, hc, Option.bind_eq_bind, Option.bind_some] at hs
    split_ifs at hs with hrunning
    exact ⟨c, hc, hrunning⟩
  | enterCritical => trivial
  | exitCritical => trivial
  | schedule =>
    by_cases hidle : s.lockNest ≠ 0 ∨ s.readyPriorityGroup = 0#32
    · exact Or.inr hidle
    · rw [Scheduler.step, Scheduler.rtSchedule, if_neg hidle] at hs
      cases hc : s.currentThread with
      | none =>
        cases hhighest : s.getHighestPriorityThread with
        | none =>
          rw [hhighest] at hs
          cases hs
        | some found =>
          rw [hhighest, hc] at hs
          cases hs
      | some c =>
        left
        rw [hc]
        rfl
  | tick => exact isSome_of_bind hs

theorem SchedSound.step (h : SchedSound s members) {act : SchedAct τ ω}
    (hs : s.step act = some s') : ∃ members', SchedSound s' members' := by
  obtain ⟨s'', members', hs'', hsound⟩ := h.available (permitted_of_step h hs)
  rw [hs''] at hs
  cases hs
  exact ⟨members', hsound⟩

end Step

section Highest

variable {s s' : Scheduler τ ω} {members members' : ListHead ω → List τ} {c t u : τ}

/-- Unless the scheduler is locked, the processor is with a thread of the highest priority. -/
def Settled (s : Scheduler τ ω) : Prop :=
  s.lockNest = 0 → (∀ t, (s.thread t).stat ≠ .ready) ∨
    ∃ c, s.currentThread = some c ∧ (s.thread c).stat = .running ∧
      ∀ u, (s.thread u).stat = .ready → s.priority c ≤ s.priority u

omit [DecidableEq τ] [DecidableEq ω] [Fintype τ] in
private theorem least_ready {p : Nat}
    (hleast : ∀ q < p, members (.ready q) = []) {q : Nat} (hu : u ∈ members (.ready q)) :
    p ≤ q := by
  by_contra hlt
  rw [hleast q (not_le.mp hlt)] at hu
  cases hu

omit [Fintype τ] in
theorem Dispatch.settled (h : SchedSound s members) (h' : SchedSound s' members')
    (hcurrent : s.currentThread = some c) (hd : Dispatch s members c s' members') :
    Settled s' := by
  intro hunlocked
  cases hd with
  | idle hidle =>
    left
    rcases hidle with hlock | hnone
    · exact absurd hunlocked hlock
    · intro t ht
      have hmem := (h.placed t).ready.mp ht
      rw [hnone] at hmem
      cases hmem
  | stay hlock p t rest hfirst hleast hrunning hkeeps =>
    right
    refine ⟨c, hcurrent, Scheduler.run_stat _ c, ?_⟩
    intro u hu
    have hmem := (h'.placed u).ready.mp hu
    have hle := least_ready hleast hmem
    simp only [Scheduler.run_priority, Scheduler.clearYield_priority] at hle ⊢
    exact le_trans (hkeeps.elim le_of_lt fun hkeeps => hkeeps.1.le) hle
  | preempt hlock p t rest hfirst hleast hrunning hkeeps =>
    right
    refine ⟨t, Scheduler.switch_current .., Scheduler.switch_stat .., ?_⟩
    intro u hu
    have hmem := List.mem_of_mem_erase ((h'.placed u).ready.mp hu)
    have ht : s.priority t = p := h.table.level (by rw [hfirst]; exact List.mem_cons_self)
    simp only [Scheduler.switch_priority, Scheduler.clearYield_priority] at hmem ⊢
    rw [ht]
    by_cases hlevel : ListHead.ready (s.priority u) = ListHead.ready (ω := ω) (s.priority c)
    · rw [hlevel, Function.update_self, List.mem_append, List.mem_singleton] at hmem
      rw [ListHead.ready.inj hlevel]
      rcases hmem with hmem | huc
      · exact least_ready hleast hmem
      · subst huc
        exact not_lt.mp fun hlt => hkeeps (Or.inl hlt)
    · rw [Function.update_of_ne hlevel] at hmem
      exact least_ready hleast hmem
  | replace hlock p t rest hfirst hleast hstat =>
    right
    refine ⟨t, Scheduler.switch_current .., Scheduler.switch_stat .., ?_⟩
    intro u hu
    have hmem := List.mem_of_mem_erase ((h'.placed u).ready.mp hu)
    have ht : s.priority t = p := h.table.level (by rw [hfirst]; exact List.mem_cons_self)
    simp only [Scheduler.switch_priority] at hmem ⊢
    rw [ht]
    exact least_ready hleast hmem

omit [Fintype τ] in
theorem SchedSound.settled (h : SchedSound s members) (hcurrent : s.currentThread.isSome)
    (hs : s.rtSchedule = some s') : Settled s' := by
  obtain ⟨c, hc⟩ := Option.isSome_iff_exists.mp hcurrent
  obtain ⟨s'', members', hs'', hsound, hd⟩ := h.schedule hc
  rw [hs''] at hs
  cases hs
  exact hd.settled h hsound hc

omit [Fintype τ] in
theorem resume_current (s : Scheduler τ ω) (t : τ) :
    (s.rtThreadResume t).currentThread = s.currentThread := by
  rw [Scheduler.rtThreadResume]
  split_ifs
  · rfl
  · exact Scheduler.insert_current _ t

/-- The steps on whose way the code calls `rt_schedule`. -/
def SchedAct.Reschedules (s : Scheduler τ ω) : SchedAct τ ω → Prop
  | .yield | .timeout _ | .exit | .schedule | .startup _ => s.currentThread.isSome
  | .exitCritical => s.currentThread.isSome ∧ (s.lockNest - 1).bmod 65536 ≤ 0
  | .tick => ∃ c, s.currentThread = some c ∧ (s.thread c).remainingTick = 1#32
  | _ => False

theorem SchedSound.step_settled (h : SchedSound s members) {act : SchedAct τ ω}
    (hreschedules : act.Reschedules s) (hs : s.step act = some s') : Settled s' := by
  have hpermitted := permitted_of_step h hs
  cases act with
  | yield =>
    obtain ⟨c, hc⟩ := Option.isSome_iff_exists.mp hreschedules
    rw [Scheduler.step, Scheduler.rtThreadYield, hc] at hs
    exact (h.reload c).settled hreschedules hs
  | timeout t =>
    obtain ⟨-, htimer⟩ := hpermitted
    have hstat := (h.placed t).timer htimer
    rw [Scheduler.step, if_pos ⟨hreschedules, htimer⟩, Scheduler.rtThreadTimeout,
      if_neg (not_not.mpr hstat)] at hs
    refine (h.wake hstat).settled ?_ hs
    rw [Scheduler.insert_current]
    exact hreschedules
  | exit =>
    obtain ⟨c, hc, hrunning⟩ := hpermitted
    simp only [Scheduler.step, Scheduler.rtThreadExit, hc, Option.bind_eq_bind, Option.bind_some,
      hrunning, if_true] at hs
    exact (h.closed hrunning).settled hreschedules hs
  | schedule => exact h.settled hreschedules hs
  | startup t =>
    have hinit : (s.thread t).stat = .init := hpermitted
    obtain ⟨members', hresumed⟩ := (h.prepare hinit).resume t
    have hsome : ((s.prepare t).rtThreadResume t).currentThread.isSome := by
      rw [resume_current]
      exact hreschedules
    rw [Scheduler.step, Scheduler.rtThreadStartup, if_neg (not_not.mpr hinit),
      Scheduler.scheduleIfStarted, if_pos hsome] at hs
    exact hresumed.settled hsome hs
  | exitCritical =>
    obtain ⟨hsome, hlast⟩ := hreschedules
    simp only [Scheduler.step, Scheduler.rtExitCritical, hlast, if_true,
      Scheduler.scheduleIfStarted, hsome] at hs
    exact (h.withLock 0).settled hsome hs
  | tick =>
    obtain ⟨c, hc, hlast⟩ := hreschedules
    have hkept : (s.reload c).currentThread.isSome := by
      change s.currentThread.isSome = true
      rw [hc]
      rfl
    simp only [Scheduler.step, Scheduler.rtTickIncrease, hc, Option.bind_eq_bind,
      Option.bind_some, hlast, BitVec.sub_self, if_true] at hs
    exact (h.reload c).settled hkept hs
  | _ => cases hreschedules

end Highest

section Runs

variable {threads : ThreadTable τ} {acts : List (SchedAct τ ω)} {s : Scheduler τ ω}

omit [DecidableEq τ] [DecidableEq ω] [Fintype τ] in
theorem schedSound_start (threads : ThreadTable τ) :
    SchedSound ({
      links := ⟨id, id⟩
      thread := fun t => rtThreadInit (threads.priority t) (threads.tick t)
      readyPriorityGroup := 0#32
      currentThread := none
      lockNest := 0 } : Scheduler τ ω) fun _ => [] where
  table := by
    refine ⟨Rings.initial, ?_, ?_, ?_, ?_⟩
    · intro t p ht
      cases ht
    · intro p hp
      rw [BitVec.getLsbD_zero]
      exact iff_of_false Bool.false_ne_true (fun h => h rfl)
    · exact fun t => ⟨threads.bounded t, threads.bounded t⟩
    · exact fun hlive => absurd rfl hlive.1
  placed t := by
    constructor <;> simp [rtThreadInit]

theorem schedSound_of_exec {acts : List (SchedAct τ ω)} {s : Scheduler τ ω}
    (h : (schedMachine threads).exec acts = some s) : ∃ members, SchedSound s members := by
  refine (schedMachine threads).exec_invariant (fun _ s => ∃ members, SchedSound s members)
    ⟨_, schedSound_start threads⟩ ?_ acts s h
  intro _ s act s' _ hs hstep
  obtain ⟨members, hsound⟩ := hs
  exact hsound.step hstep

end Runs

end DrumMachine
