import DrumMachine.Properties.SchedulerRuns
import Mathlib.Data.List.Rotate

/-!
# Time slices and critical sections

Threads of one priority share the processor in turn, each for its whole time slice. Between
`rt_enter_critical` and the matching `rt_exit_critical` no call of any thread or interrupt
takes the processor away, as long as the sections are not nested deeper than a counter of 16
bits with a sign can tell.
-/

namespace DrumMachine

open Framework

variable {τ ω : Type} [DecidableEq τ] [DecidableEq ω] [Fintype τ]

section Slice

/-- The ticks of a full slice. A slice of 0 ticks counts through the whole word. -/
def slice (s : Scheduler τ ω) (t : τ) : Nat := ((s.thread t).initTick - 1#32).toNat + 1

/-- The threads of the highest priority in the order of their turns, the current one first,
each with a full slice left. -/
structure Rotation (s : Scheduler τ ω) (order : List τ) : Prop where
  unlocked : s.lockNest = 0
  turns : ∃ members c ts, SchedSound s members ∧ order = c :: ts ∧ s.currentThread = some c ∧
    (s.thread c).stat = .running ∧ members (.ready (s.priority c)) = ts ∧
    ∀ q < s.priority c, members (.ready q) = []
  fresh : ∀ t ∈ order, (s.thread t).remainingTick = (s.thread t).initTick

def sliceSum (ticks : τ → Nat) : Nat → List τ → Nat
  | 0, _ => 0
  | _ + 1, [] => 0
  | n + 1, c :: ts => ticks c + sliceSum ticks n (ts ++ [c])

def spend (s : Scheduler τ ω) (c : τ) (remaining : BitVec 32) : Scheduler τ ω :=
  s.update c fun thread => { thread with remainingTick := remaining }

variable {s s' : Scheduler τ ω} {members : ListHead ω → List τ} {c : τ} {ts : List τ}
variable (threads : ThreadTable τ)

omit [DecidableEq ω] [Fintype τ] in
private theorem spend_spend (s : Scheduler τ ω) (c : τ) (a b : BitVec 32) :
    spend (spend s c a) c b = spend s c b := by
  simp only [spend, Scheduler.update, Function.update_idem, Function.update_self]

omit [DecidableEq ω] [Fintype τ] in
private theorem spend_self {b : BitVec 32} (hb : (s.thread c).remainingTick = b) : spend s c b = s := by
  have hsame : { s.thread c with remainingTick := b } = s.thread c := by rw [← hb]
  simp only [spend, Scheduler.update, hsame, Function.update_eq_self]

private theorem tick_early (hcurrent : s.currentThread = some c)
    (hearly : (s.thread c).remainingTick - 1#32 ≠ 0#32) :
    (schedMachine threads).step s .tick =
      some (spend s c ((s.thread c).remainingTick - 1#32)) := by
  change s.rtTickIncrease = _
  rw [Scheduler.rtTickIncrease, hcurrent]
  exact if_neg hearly

/-- Until the last tick of its slice the current thread only counts down. -/
private theorem ticks_early {m : Nat} (hcurrent : s.currentThread = some c)
    (hm : m ≤ ((s.thread c).remainingTick - 1#32).toNat) :
    (schedMachine threads).execFrom s (List.replicate m .tick) =
      some (spend s c ((s.thread c).remainingTick - BitVec.ofNat 32 m)) := by
  induction m generalizing s with
  | zero =>
    rw [List.replicate_zero, Machine.execFrom_nil, spend_self]
    simp
  | succ m ih =>
    have hearly : (s.thread c).remainingTick - 1#32 ≠ 0#32 := by
      intro hzero
      rw [hzero] at hm
      exact absurd hm (Nat.not_succ_le_zero m)
    have hthread : ((spend s c ((s.thread c).remainingTick - 1#32)).thread c).remainingTick =
        (s.thread c).remainingTick - 1#32 := by rw [spend, s.update_thread_self]
    have hkept : (spend s c ((s.thread c).remainingTick - 1#32)).currentThread = some c := hcurrent
    rw [List.replicate_succ,
      (schedMachine threads).execFrom_cons_of_step (tick_early threads hcurrent hearly),
      ih hkept, spend_spend, hthread]
    · congr 2
      rw [BitVec.sub_sub, ← BitVec.ofNat_add, Nat.add_comm]
    · rw [hthread]
      bv_omega

private theorem ticks_slice (hcurrent : s.currentThread = some c)
    (hfresh : (s.thread c).remainingTick = (s.thread c).initTick) :
    (schedMachine threads).execFrom s (List.replicate (slice s c) .tick) =
      (s.reload c).rtSchedule := by
  have hone : (s.thread c).remainingTick -
      BitVec.ofNat 32 ((s.thread c).initTick - 1#32).toNat = 1#32 := by
    rw [hfresh, BitVec.ofNat_toNat, BitVec.setWidth_eq]
    bv_omega
  have hearly := ticks_early threads hcurrent
    (m := ((s.thread c).initTick - 1#32).toNat) (by rw [hfresh])
  have hthread : ((spend s c 1#32).thread c).remainingTick = 1#32 := by
    rw [spend, s.update_thread_self]
  have hreload : (spend s c 1#32).reload c = s.reload c := by
    simp only [spend, Scheduler.reload, Scheduler.update, Function.update_idem,
      Function.update_self]
  have hkept : (spend s c 1#32).currentThread = some c := hcurrent
  have hlast : (spend s c 1#32).rtTickIncrease = (s.reload c).rtSchedule := by
    rw [Scheduler.rtTickIncrease, hkept]
    simp only [Option.bind_eq_bind, Option.bind_some, hthread, BitVec.sub_self, if_true, hreload]
  rw [slice, List.replicate_succ', Machine.execFrom_append, hearly, hone]
  change ((spend s c 1#32).rtTickIncrease.bind fun t => some t) = _
  rw [Option.bind_fun_some, hlast]

omit [Fintype τ] in
theorem Dispatch.field {members' : ListHead ω → List τ} (hd : Dispatch s members c s' members')
    {α : Type} {g : RtThread → α} (hstat : ∀ thread stat, g { thread with stat } = g thread)
    (hyield : ∀ thread yield, g { thread with yield } = g thread) (u : τ) :
    g (s'.thread u) = g (s.thread u) := by
  have hclear : g ((s.clearYield c).thread u) = g (s.thread u) :=
    s.update_field (f := fun thread => { thread with yield := false }) c (hyield _ _) u
  cases hd with
  | idle => rfl
  | stay => rw [Scheduler.run_field _ hstat, hclear]
  | preempt => rw [Scheduler.switch_field _ hstat, hclear]
  | replace => rw [Scheduler.switch_field _ hstat]

omit [Fintype τ] in
theorem Dispatch.unlocked {members' : ListHead ω → List τ}
    (hd : Dispatch s members c s' members') (hlock : s.lockNest = 0) : s'.lockNest = 0 := by
  cases hd with
  | idle => exact hlock
  | stay => exact hlock
  | preempt =>
    simp only [Scheduler.switch, Scheduler.rtScheduleInsertThread, if_true]
    split_ifs <;> exact hlock
  | replace => exact hlock

omit [Fintype τ] in
/-- The thread whose slice has ended goes behind the others of its priority. -/
private theorem dispatch_turns {members' : ListHead ω → List τ} (h : SchedSound s members)
    (hlock : s.lockNest = 0) (hcurrent : s.currentThread = some c)
    (hrunning : (s.thread c).stat = .running) (hyield : (s.thread c).yield = true)
    (hts : members (.ready (s.priority c)) = ts)
    (habove : ∀ q < s.priority c, members (.ready q) = [])
    (hd : Dispatch s members c s' members') :
    ∃ c' ts', ts ++ [c] = c' :: ts' ∧ s'.currentThread = some c' ∧
      (s'.thread c').stat = .running ∧ s'.priority c' = s.priority c ∧
      members' (.ready (s.priority c)) = ts' ∧
      ∀ q < s.priority c, members' (.ready q) = [] := by
  cases hd with
  | idle hidle =>
    have hnil : ts = [] := by
      rw [← hts]
      exact hidle.resolve_left (not_not.mpr hlock) _
    subst hnil
    exact ⟨c, [], rfl, hcurrent, hrunning, rfl, hts, habove⟩
  | stay _ p t rest hfirst hleast _ hkeeps =>
    have hlt : s.priority c < p := by
      rcases hkeeps with hlt | ⟨-, hfalse⟩
      · exact hlt
      · rw [hyield] at hfalse
        cases hfalse
    have hnil : ts = [] := hts.symm.trans (hleast _ hlt)
    subst hnil
    refine ⟨c, [], rfl, hcurrent, Scheduler.run_stat _ c, ?_, hts, habove⟩
    rw [Scheduler.run_priority, Scheduler.clearYield_priority]
  | preempt _ p t rest hfirst hleast _ hkeeps =>
    have hle : p ≤ s.priority c := not_lt.mp fun hlt => hkeeps (Or.inl hlt)
    have hp : p = s.priority c := by
      rcases Nat.lt_or_eq_of_le hle with hlt | heq
      · rw [habove p hlt] at hfirst
        cases hfirst
      · exact heq
    subst hp
    have hts' : ts = t :: rest := hts.symm.trans hfirst
    subst hts'
    have ht : s.priority t = s.priority c := h.table.level (by rw [hfirst]; exact List.mem_cons_self)
    refine ⟨t, rest ++ [c], rfl, Scheduler.switch_current .., Scheduler.switch_stat .., ?_, ?_, ?_⟩
    · rw [Scheduler.switch_priority, Scheduler.clearYield_priority, ht]
    · beta_reduce
      rw [Function.update_self, hfirst, List.cons_append, List.erase_cons_head]
    · intro q hq
      have hne : ListHead.ready q ≠ ListHead.ready (ω := ω) (s.priority c) := by
        simpa using hq.ne
      beta_reduce
      rw [Function.update_of_ne hne, habove q hq]
      rfl
  | replace _ p t rest _ _ hstat => exact absurd hrunning hstat

/-- One slice: the current thread keeps the processor for all its ticks and then goes behind
the others. -/
theorem Rotation.slice_step (h : Rotation s (c :: ts)) :
    (∀ m < slice s c, ∃ s', (schedMachine threads).execFrom s (List.replicate m .tick) = some s' ∧
      s'.currentThread = some c) ∧
    ∃ s', (schedMachine threads).execFrom s (List.replicate (slice s c) .tick) = some s' ∧
      Rotation s' (ts ++ [c]) ∧ ∀ u, slice s' u = slice s u := by
  obtain ⟨hlock, ⟨members, c', ts', hsound, horder, hcurrent, hrunning, hts, habove⟩, hfresh⟩ := h
  cases horder
  have hfreshc := hfresh c List.mem_cons_self
  refine ⟨?_, ?_⟩
  · intro m hm
    refine ⟨_, ticks_early threads hcurrent ?_, hcurrent⟩
    rw [hfreshc]
    exact Nat.le_of_lt_succ hm
  · have hkept : (s.reload c).currentThread = some c := hcurrent
    have hthread : (s.reload c).thread c =
        { s.thread c with remainingTick := (s.thread c).initTick, yield := true } :=
      s.update_thread_self ..
    have hpriority : (s.reload c).priority c = s.priority c := by
      rw [Scheduler.priority, hthread]
      rfl
    have hrunning₁ : ((s.reload c).thread c).stat = .running := by
      rw [hthread]
      exact hrunning
    have hts₁ : members (.ready ((s.reload c).priority c)) = ts := by
      rw [hpriority]
      exact hts
    obtain ⟨s', members', hs', hsound', hd⟩ := (hsound.reload c).schedule hkept
    obtain ⟨c', ts', horder, hcurrent', hrunning', hpriority', hts', habove'⟩ :=
      dispatch_turns (hsound.reload c) hlock hkept hrunning₁ (by rw [hthread]) hts₁
        (by rw [hpriority]; exact habove) hd
    rw [hpriority] at hpriority' hts' habove'
    have hinit : ∀ u, (s'.thread u).initTick = (s.thread u).initTick := by
      intro u
      rw [hd.field (g := RtThread.initTick) (fun _ _ => rfl) (fun _ _ => rfl) u]
      exact s.update_field (g := RtThread.initTick) c rfl u
    refine ⟨s', (ticks_slice threads hcurrent hfreshc).trans hs', ⟨hd.unlocked hlock,
      ⟨members', c', ts', hsound', horder, hcurrent', hrunning', ?_, ?_⟩, ?_⟩, ?_⟩
    · rw [hpriority']
      exact hts'
    · rw [hpriority']
      exact habove'
    · intro u hu
      rw [hinit, hd.field (g := RtThread.remainingTick) (fun _ _ => rfl) (fun _ _ => rfl) u]
      by_cases huc : u = c
      · subst huc
        rw [hthread]
      · rw [Scheduler.reload, s.update_thread_of_ne huc]
        have hmem : u ∈ ts := by simpa [huc] using hu
        exact hfresh u (List.mem_cons_of_mem c hmem)
    · intro u
      rw [slice, slice, hinit]

/-- After the slices of any number of turns the threads have rotated by that many places, and
within each slice the thread whose turn it is has the processor at every tick. -/
theorem Rotation.turns_run {order : List τ} (h : Rotation s order) (n : Nat) :
    ∃ s', (schedMachine threads).execFrom s
        (List.replicate (sliceSum (slice s) n order) .tick) = some s' ∧
      Rotation s' (order.rotate n) ∧ ∀ u, slice s' u = slice s u := by
  induction n generalizing s order with
  | zero =>
    rw [List.rotate_zero]
    refine ⟨s, ?_, h, fun _ => rfl⟩
    cases order <;> rfl
  | succ n ih =>
    cases order with
    | nil =>
      obtain ⟨-, ⟨_, _, _, -, horder, -⟩, -⟩ := h
      cases horder
    | cons c ts =>
      obtain ⟨-, s₁, hs₁, hrotation, hslice⟩ := h.slice_step threads
      obtain ⟨s', hs', hrotation', hslice'⟩ := ih hrotation
      have hslices : slice s₁ = slice s := funext hslice
      rw [hslices] at hs' hslice'
      refine ⟨s', ?_, ?_, hslice'⟩
      · rw [sliceSum, List.replicate_add, Machine.execFrom_append, hs₁]
        exact hs'
      · rw [List.rotate_cons_succ]
        exact hrotation'

/-- Threads of the highest priority that only run share the processor in turn: after `n`
slices the order has rotated by `n` places, and during the next slice the first thread of the
rotated order holds the processor at each of its ticks. -/
theorem round_robin {order : List τ} (h : Rotation s order) (n : Nat) :
    ∃ s' c, (schedMachine threads).execFrom s
        (List.replicate (sliceSum (slice s) n order) .tick) = some s' ∧
      Rotation s' (order.rotate n) ∧ (order.rotate n).head? = some c ∧
      ∀ m < slice s c, ∃ s'', (schedMachine threads).execFrom s
          (List.replicate (sliceSum (slice s) n order + m) .tick) = some s'' ∧
        s''.currentThread = some c := by
  obtain ⟨s', hs', hrotation, hslice⟩ := h.turns_run threads n
  have ⟨_, ⟨_, c, ts, _, horder, _⟩, _⟩ := hrotation
  refine ⟨s', c, hs', hrotation, by rw [horder]; rfl, ?_⟩
  intro m hm
  rw [horder] at hrotation
  obtain ⟨s'', hs'', hcurrent⟩ := (hrotation.slice_step threads).1 m (hslice c ▸ hm)
  refine ⟨s'', ?_, hcurrent⟩
  rw [List.replicate_add, Machine.execFrom_append, hs']
  exact hs''

end Slice

section Critical

variable {s s' : Scheduler τ ω} {c : τ}

def SchedAct.nest : SchedAct τ ω → Int
  | .enterCritical => 1
  | .exitCritical => -1
  | _ => 0

def nesting (depth : Int) (acts : List (SchedAct τ ω)) : Int :=
  acts.foldl (fun d act => d + act.nest) depth

omit [DecidableEq τ] [DecidableEq ω] [Fintype τ] in
private theorem nesting_cons (depth : Int) (act : SchedAct τ ω) (acts : List (SchedAct τ ω)) :
    nesting depth (act :: acts) = nesting (depth + act.nest) acts :=
  rfl

omit [Fintype τ] in
private theorem schedule_locked (hlock : s.lockNest ≠ 0) (hs : s.rtSchedule = some s') :
    s' = s := by
  rw [Scheduler.rtSchedule, if_pos (Or.inl hlock)] at hs
  exact (Option.some.inj hs).symm

/-- What a step leaves alone while the scheduler is locked. -/
private def Held (s s' : Scheduler τ ω) : Prop :=
  s'.currentThread = s.currentThread ∧ s'.lockNest = s.lockNest

omit [Fintype τ] in
private theorem insert_held (s : Scheduler τ ω) (t : τ) : Held s (s.rtScheduleInsertThread t) := by
  rw [Scheduler.rtScheduleInsertThread]
  split_ifs <;> exact ⟨rfl, rfl⟩

omit [Fintype τ] in
private theorem resume_held (s : Scheduler τ ω) (t : τ) : Held s (s.rtThreadResume t) := by
  rw [Scheduler.rtThreadResume]
  split_ifs
  · exact ⟨rfl, rfl⟩
  · exact insert_held (s.unwait t) t

omit [Fintype τ] in
private theorem suspend_held {t : τ} (hs : s.rtThreadSuspend t = some s') : Held s s' := by
  rw [Scheduler.rtThreadSuspend] at hs
  split_ifs at hs <;> cases hs <;> exact ⟨rfl, rfl⟩

omit [Fintype τ] in
private theorem schedule_held {r : Scheduler τ ω} (hlock : s.lockNest ≠ 0) (hheld : Held s r)
    (hs : r.rtSchedule = some s') : Held s s' := by
  rw [schedule_locked (hheld.2.symm ▸ hlock) hs]
  exact hheld

/-- While the scheduler is locked, only the two calls for critical sections change the lock,
and nothing changes the current thread. -/
theorem step_held (hcurrent : s.currentThread = some c) (hlock : s.lockNest ≠ 0)
    {act : SchedAct τ ω} (hs : s.step act = some s') (hnest : act.nest = 0) : Held s s' := by
  cases act with
  | startup t =>
    rw [Scheduler.step, Scheduler.rtThreadStartup] at hs
    split_ifs at hs
    have hheld : Held s ((s.prepare t).rtThreadResume t) := resume_held (s.prepare t) t
    rw [Scheduler.scheduleIfStarted] at hs
    split_ifs at hs
    · exact schedule_held hlock hheld hs
    · cases hs
      exact hheld
  | start =>
    rw [Scheduler.step, hcurrent] at hs
    cases hs
  | yield =>
    rw [Scheduler.step, Scheduler.rtThreadYield, hcurrent] at hs
    exact schedule_held (r := s.reload c) hlock ⟨rfl, rfl⟩ hs
  | sleep =>
    simp only [Scheduler.step, hcurrent, Option.bind_eq_bind, Option.bind_some] at hs
    split_ifs at hs
    obtain ⟨s₁, hs₁, rfl⟩ := Option.map_eq_some_iff.mp hs
    exact (suspend_held hs₁ :)
  | block o flag timed =>
    simp only [Scheduler.step, hcurrent, Option.bind_eq_bind, Option.bind_some] at hs
    split_ifs at hs
    obtain ⟨s₁, hs₁, rfl⟩ := Option.map_eq_some_iff.mp hs
    rw [Scheduler.rtIpcListSuspend] at hs₁
    obtain ⟨s₂, hs₂, hs₁⟩ := Option.bind_eq_some_iff.mp hs₁
    obtain ⟨n, -, hs₁⟩ := Option.bind_eq_some_iff.mp hs₁
    cases hs₁
    exact (suspend_held hs₂ :)
  | suspend t => exact suspend_held hs
  | resume t =>
    cases hs
    exact resume_held s t
  | wake o =>
    rw [Scheduler.step, Scheduler.rtIpcListResume] at hs
    split at hs <;> cases hs
    exact resume_held s _
  | timeout t =>
    rw [Scheduler.step, Scheduler.rtThreadTimeout] at hs
    split_ifs at hs
    exact schedule_held hlock (insert_held (s.unwait t) t) hs
  | changePriority t priority =>
    rw [Scheduler.step, Scheduler.rtThreadChangePriority] at hs
    split_ifs at hs <;> cases hs
    · exact (insert_held ((s.rtScheduleRemoveThread t).setPriority t priority) t :)
    · exact ⟨rfl, rfl⟩
  | close t =>
    cases hs
    rw [Scheduler.rtThreadClose]
    split <;> exact ⟨rfl, rfl⟩
  | exit =>
    simp only [Scheduler.step, hcurrent, Option.bind_eq_bind, Option.bind_some,
      Scheduler.rtThreadExit] at hs
    split_ifs at hs
    exact schedule_held (r := (s.rtScheduleRemoveThread c).update c RtThread.closed) hlock
      ⟨rfl, rfl⟩ hs
  | enterCritical => cases hnest
  | exitCritical => cases hnest
  | schedule => exact schedule_held hlock ⟨rfl, rfl⟩ hs
  | tick =>
    simp only [Scheduler.step, Scheduler.rtTickIncrease, hcurrent, Option.bind_eq_bind,
      Option.bind_some] at hs
    split_ifs at hs
    · exact schedule_held (r := s.reload c) hlock ⟨rfl, rfl⟩ hs
    · cases hs
      exact ⟨rfl, rfl⟩

private theorem step_nest (hcurrent : s.currentThread = some c) (hlock : 1 ≤ s.lockNest)
    {act : SchedAct τ ω} (hs : s.step act = some s') (hlow : 1 ≤ s.lockNest + act.nest)
    (hhigh : s.lockNest + act.nest ≤ 32767) :
    s'.currentThread = some c ∧ s'.lockNest = s.lockNest + act.nest := by
  have hwrap : (s.lockNest + act.nest).bmod 65536 = s.lockNest + act.nest := by
    rw [Int.bmod_def]
    omega
  cases act with
  | enterCritical =>
    cases hs
    exact ⟨hcurrent, hwrap⟩
  | exitCritical =>
    change (s.lockNest - 1).bmod 65536 = s.lockNest - 1 at hwrap
    change 1 ≤ s.lockNest - 1 at hlow
    rw [Scheduler.step, Scheduler.rtExitCritical] at hs
    simp only [hwrap] at hs
    rw [if_neg (by omega)] at hs
    cases hs
    exact ⟨hcurrent, rfl⟩
  | _ =>
    obtain ⟨hcurrent', hlock'⟩ := step_held hcurrent (by omega) hs rfl
    exact ⟨hcurrent'.trans hcurrent, hlock'.trans (Int.add_zero _).symm⟩

variable (threads : ThreadTable τ)

/-- From a locked scheduler on, whatever threads and interrupts call, the current thread stays
the same as long as the sections entered are not all left, up to a depth of 32767. -/
theorem critical_section_keeps (acts : List (SchedAct τ ω)) (hcurrent : s.currentThread = some c)
    (hdepth : ∀ done, done <+: acts →
      1 ≤ nesting s.lockNest done ∧ nesting s.lockNest done ≤ 32767)
    (hrun : (schedMachine threads).execFrom s acts = some s') :
    s'.currentThread = some c ∧ s'.lockNest = nesting s.lockNest acts := by
  induction acts generalizing s with
  | nil =>
    cases hrun
    exact ⟨hcurrent, rfl⟩
  | cons act acts ih =>
    rw [Machine.execFrom_cons, Option.bind_eq_some_iff] at hrun
    obtain ⟨s₁, hs₁, hrun⟩ := hrun
    obtain ⟨hlock, -⟩ := hdepth [] List.nil_prefix
    obtain ⟨hlow, hhigh⟩ := hdepth [act] (List.cons_prefix_cons.mpr ⟨rfl, List.nil_prefix⟩)
    change 1 ≤ s.lockNest at hlock
    change 1 ≤ s.lockNest + act.nest at hlow
    change s.lockNest + act.nest ≤ 32767 at hhigh
    obtain ⟨hcurrent₁, hlock₁⟩ := step_nest hcurrent hlock hs₁ hlow hhigh
    rw [nesting_cons, ← hlock₁]
    apply ih hcurrent₁ _ hrun
    intro done hdone
    rw [hlock₁, ← nesting_cons]
    exact hdepth (act :: done) (List.cons_prefix_cons.mpr ⟨rfl, hdone⟩)

end Critical

def equalThreads : ThreadTable Bool where
  priority _ := 6
  tick t := if t then 3#32 else 2#32
  bounded := by decide

def startedRun : List (SchedAct Bool Unit) := [.startup false, .startup true, .start]

private theorem startedRun_state :
    ((schedMachine equalThreads).exec startedRun).map (fun s =>
      (s.lockNest, s.currentThread, s.thread false, s.thread true)) =
      some (0, some false,
        { rtThreadInit 6 2#32 with stat := .running, numberMask := 64#32 },
        { rtThreadInit 6 3#32 with stat := .ready, numberMask := 64#32 }) := by
  decide +kernel

private theorem startedRun_rotation :
    ∃ s, (schedMachine equalThreads).exec startedRun = some s ∧ Rotation s [false, true] ∧
      sliceSum (slice s) 3 [false, true] = 7 := by
  obtain ⟨s, hs, hstate⟩ := Option.map_eq_some_iff.mp startedRun_state
  simp only [Prod.mk.injEq] at hstate
  obtain ⟨hlock, hcurrent, hthread, hthread'⟩ := hstate
  have hrunning : (s.thread false).stat = .running := by rw [hthread]
  have hready : (s.thread true).stat = .ready := by rw [hthread']
  have hpriority : s.priority false = 6 := by rw [Scheduler.priority, hthread]; rfl
  have hpriority' : s.priority true = 6 := by rw [Scheduler.priority, hthread']; rfl
  obtain ⟨members, hsound⟩ := schedSound_of_exec hs
  have hfalse : ∀ p, false ∉ members (.ready p) :=
    hsound.notMem_ready (by simp [hrunning])
  have htrue : true ∈ members (.ready 6) := by
    rw [← hpriority']
    exact (hsound.placed true).ready.mp hready
  have hlist : members (.ready 6) = [true] := by
    rw [← List.perm_singleton]
    apply (List.perm_ext_iff_of_nodup (hsound.table.rings.nodup _) (List.nodup_singleton _)).mpr
    intro t
    cases t
    · simp [hfalse]
    · simp [htrue]
  refine ⟨s, hs, ⟨hlock, ⟨members, false, [true], hsound, rfl, hcurrent, hrunning, ?_, ?_⟩, ?_⟩, ?_⟩
  · rw [hpriority]
    exact hlist
  · intro q hq
    rw [hpriority] at hq
    rw [List.eq_nil_iff_forall_not_mem]
    intro t ht
    cases t
    · exact hfalse q ht
    · have hlevel := hsound.table.level ht
      omega
  · intro t _
    cases t
    · rw [hthread]
      rfl
    · rw [hthread']
      rfl
  · simp only [sliceSum, slice, hthread, hthread', List.cons_append, List.nil_append]
    rfl

theorem round_robin_started :
    ∃ s s', (schedMachine equalThreads).exec startedRun = some s ∧
      (schedMachine equalThreads).execFrom s (List.replicate 7 .tick) = some s' ∧
      Rotation s' [true, false] := by
  obtain ⟨s, hs, hrotation, hsum⟩ := startedRun_rotation
  obtain ⟨s', -, hs', hrotation', -⟩ := round_robin equalThreads hrotation 3
  rw [hsum] at hs'
  exact ⟨s, s', hs, hs', hrotation'⟩

/-- A section within a section, with a tick and a resumption in it. -/
def nestedRun : List (SchedAct Bool Unit) :=
  [.enterCritical, .tick, .exitCritical, .suspend true, .resume true, .yield]

private theorem nestedRun_state :
    (((schedMachine equalThreads).exec (startedRun ++ [.enterCritical])).bind fun s =>
      ((schedMachine equalThreads).execFrom s nestedRun).map fun _ =>
        (s.currentThread, s.lockNest)) = some (some false, 1) := by
  decide +kernel

theorem critical_section_keeps_nested :
    ∃ s s', (schedMachine equalThreads).exec (startedRun ++ [.enterCritical]) = some s ∧
      (schedMachine equalThreads).execFrom s nestedRun = some s' ∧
      s'.currentThread = some false := by
  obtain ⟨s, hs, hrun⟩ := Option.bind_eq_some_iff.mp nestedRun_state
  obtain ⟨s', hs', hstate⟩ := Option.map_eq_some_iff.mp hrun
  obtain ⟨hcurrent, hlock⟩ := Prod.mk.inj hstate
  have hdepth : ∀ done, done <+: nestedRun → 1 ≤ nesting s.lockNest done ∧
      nesting s.lockNest done ≤ 32767 := by
    rw [hlock]
    intro done hdone
    have hinits : ∀ done ∈ nestedRun.inits, 1 ≤ nesting 1 done ∧ nesting 1 done ≤ 32767 := by
      decide
    exact hinits done ((List.mem_inits ..).mpr hdone)
  exact ⟨s, s', hs, hs', (critical_section_keeps equalThreads nestedRun hcurrent hdepth hs').1⟩

end DrumMachine
