import DrumMachine.Properties.SchedulerRuns
import DrumMachine.Spec.Rota

/-!
# The scheduler follows its rota

The rings and bits of the ready table together are one queue, ordered by priority and, within
a priority, by the time at which the threads became ready. Every call changes that queue and
the current thread as the abstract scheduler does.
-/

namespace DrumMachine

open Framework

variable {τ ω : Type} [DecidableEq τ] [DecidableEq ω] [Fintype τ]

section Acts

variable (s : Scheduler τ ω)

def standing : Option (Standing τ) :=
  s.currentThread.bind fun c =>
    if (s.thread c).stat = .running then some ⟨s.priority c, c, (s.thread c).yield⟩ else none

def dispatchActs : List (RotaAct τ) :=
  if s.lockNest ≠ 0 ∨ s.currentThread = none then [] else [.dispatch (standing s)]

def wakeActs (t : τ) : List (RotaAct τ) :=
  if (s.thread t).stat = .suspend ∧ s.currentThread ≠ some t then [.join (s.priority t) t] else []

def leaveActs (t : τ) : List (RotaAct τ) :=
  if (s.thread t).stat = .ready then [.leave (s.priority t) t] else []

/-- What a call does to the queue of ready threads. -/
def rotaActs : SchedAct τ ω → List (RotaAct τ)
  | .startup t =>
      wakeActs (s.prepare t) t ++ dispatchActs ((s.prepare t).rtThreadResume t)
  | .start => [.dispatch none]
  | .sleep | .block _ _ _ | .enterCritical => []
  | .suspend t | .close t => leaveActs s t
  | .resume t => wakeActs s t
  | .wake o =>
      match s.links.next (.head (.waiting o)) with
      | .item t => wakeActs s t
      | .head _ => []
  | .timeout t => wakeActs s t ++ dispatchActs ((s.unwait t).rtScheduleInsertThread t)
  | .changePriority t priority =>
      if (s.thread t).stat = .ready then [.leave (s.priority t) t, .join priority t] else []
  | .exit =>
      s.currentThread.elim [] fun c =>
        dispatchActs ((s.rtScheduleRemoveThread c).update c RtThread.closed)
  | .exitCritical =>
      if (s.lockNest - 1).bmod 65536 ≤ 0 then dispatchActs { s with lockNest := 0 } else []
  | .schedule => dispatchActs s
  | .yield => s.currentThread.elim [] fun c => dispatchActs (s.reload c)
  | .tick =>
      s.currentThread.elim [] fun c =>
        if (s.thread c).remainingTick - 1#32 = 0#32 then dispatchActs (s.reload c) else []

end Acts

/-- The queue holds the ready threads in the order of their rings. -/
def InOrder (members : ListHead ω → List τ) (q : StableQueue (rank : Nat × τ → Nat)) : Prop :=
  ∀ p, q.level p = (members (.ready p)).map fun t => (p, t)

section Queue

variable {members : ListHead ω → List τ} {q : StableQueue (rank : Nat × τ → Nat)} {t : τ}

omit [DecidableEq τ] [DecidableEq ω] [Fintype τ] in
theorem InOrder.congr {members' : ListHead ω → List τ} (h : InOrder members q)
    (hsame : ∀ p, members' (.ready p) = members (.ready p)) : InOrder members' q := by
  intro p
  rw [hsame]
  exact h p

omit [DecidableEq ω] [Fintype τ] in
theorem InOrder.remove (h : InOrder members q) {p : Nat}
    (honly : ∀ k, t ∈ members (.ready k) → k = p) :
    InOrder (fun i => (members i).erase t) (q.remove (p, t)) := by
  intro k
  have hinj : Function.Injective fun u : τ => (k, u) := fun _ _ heq => (Prod.mk.inj heq).2
  by_cases hk : k = p
  · subst hk
    exact q.level_remove_map hinj (h k)
  · have hout : t ∉ members (.ready k) := fun hmem => hk (honly k hmem)
    change _ = ((members (.ready k)).erase t).map _
    rw [List.erase_of_not_mem hout, ← h]
    exact q.level_remove_of_ne fun heq => hk heq.symm

omit [DecidableEq τ] [Fintype τ] in
theorem InOrder.insert (h : InOrder members q) (p : Nat) (t : τ) :
    InOrder (Function.update members (.ready p) (members (.ready p) ++ [t]))
      (q.insert (p, t)) := by
  intro k
  rw [StableQueue.level_insert, h]
  by_cases hk : k = p
  · subst hk
    rw [Function.update_self, List.map_append]
    exact congrArg _ (if_pos rfl)
  · have hne : ListHead.ready k ≠ ListHead.ready (ω := ω) p := fun heq => hk (ListHead.ready.inj heq)
    rw [Function.update_of_ne hne, if_neg (fun heq => hk heq.symm), List.append_nil]

omit [DecidableEq τ] [DecidableEq ω] [Fintype τ] in
/-- The queue starts with the first thread of the highest ready priority. -/
theorem InOrder.head (h : InOrder members q) {p : Nat} {rest : List τ}
    (hfirst : members (.ready p) = t :: rest) (hleast : ∀ k < p, members (.ready k) = []) :
    q.items.head? = some (p, t) := by
  rw [StableQueue.head_iff]
  change (q.level p).head? = some (p, t) ∧ ∀ y ∈ q.items, p ≤ y.1
  rw [h, hfirst]
  refine ⟨rfl, ?_⟩
  intro y hy
  have hlevel : y ∈ q.level y.1 := StableQueue.mem_level.mpr ⟨hy, rfl⟩
  rw [h] at hlevel
  by_contra hlt
  rw [hleast y.1 (not_le.mp hlt)] at hlevel
  cases hlevel

omit [DecidableEq τ] [DecidableEq ω] [Fintype τ] in
theorem InOrder.head_none (h : InOrder members q) (hnone : ∀ p, members (.ready p) = []) :
    q.items.head? = none := by
  rw [List.head?_eq_none_iff, List.eq_nil_iff_forall_not_mem]
  intro y hy
  have hlevel : y ∈ q.level y.1 := StableQueue.mem_level.mpr ⟨hy, rfl⟩
  rw [h, hnone] at hlevel
  cases hlevel

end Queue

/-- The rota holds the ready threads in the order of their rings, and the current thread. -/
structure Follows (s : Scheduler τ ω) (r : Rota τ) : Prop where
  sound : ∃ members, SchedSound s members ∧ InOrder members r.ready
  current : r.current = s.currentThread

section Moves

variable {s s' : Scheduler τ ω} {members members' : ListHead ω → List τ} {r : Rota τ} {c t : τ}

omit [DecidableEq τ] [DecidableEq ω] [Fintype τ] in
theorem Follows.mk' (h : SchedSound s members) (horder : InOrder members r.ready)
    (hcurrent : r.current = s.currentThread) : Follows s r := ⟨⟨members, h, horder⟩, hcurrent⟩

omit [Fintype τ] in
theorem Follows.wake (h : Follows s r) (hstat : (s.thread t).stat = .suspend) :
    Follows ((s.unwait t).rtScheduleInsertThread t) ((wakeActs s t).foldl Rota.act r) := by
  obtain ⟨⟨members, hsound, horder⟩, hcurrent⟩ := h
  have hout := hsound.notMem_ready (t := t) (by simp [hstat])
  have hrest : InOrder (fun i => (members i).erase t) r.ready :=
    horder.congr fun p => List.erase_of_not_mem (hout p)
  have hkept : ((s.unwait t).rtScheduleInsertThread t).currentThread = s.currentThread :=
    Scheduler.insert_current _ t
  have hwoken := hsound.wake hstat
  rw [resumedLists] at hwoken
  rw [wakeActs]
  by_cases hself : s.currentThread = some t
  · rw [if_pos hself] at hwoken
    rw [if_neg (fun hboth => hboth.2 hself)]
    exact Follows.mk' hwoken hrest (hcurrent.trans hkept.symm)
  · rw [if_neg hself] at hwoken
    rw [if_pos ⟨hstat, hself⟩]
    exact Follows.mk' hwoken (hrest.insert _ t) (hcurrent.trans hkept.symm)

omit [Fintype τ] in
theorem Follows.resume (h : Follows s r) (t : τ) :
    Follows (s.rtThreadResume t) ((wakeActs s t).foldl Rota.act r) := by
  rw [Scheduler.rtThreadResume]
  by_cases hstat : (s.thread t).stat = .suspend
  · rw [if_neg (not_not.mpr hstat)]
    exact h.wake hstat
  · rw [if_pos hstat, wakeActs, if_neg (fun hboth => hstat hboth.1)]
    exact h

omit [DecidableEq τ] [DecidableEq ω] [Fintype τ] in
private theorem dispatch_unlocked (hcurrent : s.currentThread = some c) (hlock : s.lockNest = 0) :
    dispatchActs s = [.dispatch
      (if (s.thread c).stat = .running then some ⟨s.priority c, c, (s.thread c).yield⟩
        else none)] := by
  have hne : s.currentThread ≠ none := by simp [hcurrent]
  rw [dispatchActs, if_neg (not_or.mpr ⟨not_not.mpr hlock, hne⟩), standing, hcurrent]
  rfl

omit [Fintype τ] in
theorem Follows.dispatch (hsound : SchedSound s members) (horder : InOrder members r.ready)
    (hr : r.current = s.currentThread) (hcurrent : s.currentThread = some c)
    (hsound' : SchedSound s' members') (hd : Dispatch s members c s' members') :
    Follows s' ((dispatchActs s).foldl Rota.act r) := by
  have honly : ∀ {p t rest}, members (.ready p) = t :: rest →
      ∀ k, t ∈ members (.ready k) → k = p := by
    intro p t rest hfirst k ht
    rw [← hsound.table.level ht]
    exact hsound.table.level (by rw [hfirst]; exact List.mem_cons_self)
  cases hd with
  | idle hidle =>
    by_cases hlock : s.lockNest = 0
    · have hnone := horder.head_none (hidle.resolve_left (not_not.mpr hlock))
      rw [dispatch_unlocked hcurrent hlock]
      simp only [List.foldl_cons, List.foldl_nil, Rota.act, hnone]
      exact Follows.mk' hsound' horder hr
    · rw [dispatchActs, if_pos (Or.inl hlock)]
      exact Follows.mk' hsound' horder hr
  | stay hlock p t rest hfirst hleast hrunning hkeeps =>
    have hkeeps' : (Standing.mk (s.priority c) c (s.thread c).yield).Keeps p := hkeeps
    rw [dispatch_unlocked hcurrent hlock, if_pos hrunning]
    simp only [List.foldl_cons, List.foldl_nil, Rota.act, horder.head hfirst hleast,
      Rota.dispatch, hkeeps', if_true]
    exact Follows.mk' hsound' horder hr
  | preempt hlock p t rest hfirst hleast hrunning hkeeps =>
    have hkeeps' : ¬(Standing.mk (s.priority c) c (s.thread c).yield).Keeps p := hkeeps
    have htc : t ≠ c := by
      intro htc
      apply (hsound.running_facts hrunning).2.1 (.ready p)
      rw [hfirst, htc]
      exact List.mem_cons_self
    rw [dispatch_unlocked hcurrent hlock, if_pos hrunning]
    simp only [List.foldl_cons, List.foldl_nil, Rota.act, horder.head hfirst hleast,
      Rota.dispatch, hkeeps', if_false]
    refine Follows.mk' hsound' ((horder.insert _ c).remove ?_) (Scheduler.switch_current ..).symm
    intro k ht
    by_cases hk : ListHead.ready k = ListHead.ready (ω := ω) (s.priority c)
    · rw [hk, Function.update_self, List.mem_append, List.mem_singleton] at ht
      rw [ListHead.ready.inj hk]
      exact honly hfirst _ (ht.resolve_right htc)
    · rw [Function.update_of_ne hk] at ht
      exact honly hfirst k ht
  | replace hlock p t rest hfirst hleast hstat =>
    rw [dispatch_unlocked hcurrent hlock, if_neg hstat]
    simp only [List.foldl_cons, List.foldl_nil, Rota.act, horder.head hfirst hleast,
      Rota.dispatch]
    exact Follows.mk' hsound' (horder.remove (honly hfirst)) (Scheduler.switch_current ..).symm

omit [Fintype τ] in
theorem Follows.schedule (h : Follows s r) (hs : s.rtSchedule = some s') :
    Follows s' ((dispatchActs s).foldl Rota.act r) := by
  obtain ⟨⟨members, hsound, horder⟩, hr⟩ := h
  cases hcurrent : s.currentThread with
  | some c =>
    obtain ⟨s'', members', hs'', hsound', hd⟩ := hsound.schedule hcurrent
    rw [hs''] at hs
    cases hs
    exact Follows.dispatch hsound horder hr hcurrent hsound' hd
  | none =>
    have hsame : s' = s := by
      by_cases hidle : s.lockNest ≠ 0 ∨ s.readyPriorityGroup = 0#32
      · rw [Scheduler.rtSchedule, if_pos hidle] at hs
        exact (Option.some.inj hs).symm
      · rw [Scheduler.rtSchedule, if_neg hidle, hcurrent] at hs
        cases hhighest : s.getHighestPriorityThread with
        | none =>
          rw [hhighest] at hs
          cases hs
        | some found =>
          rw [hhighest] at hs
          cases hs
    rw [dispatchActs, if_pos (Or.inr hcurrent), hsame]
    exact Follows.mk' hsound horder hr

omit [DecidableEq ω] [Fintype τ] in
theorem Follows.leave (hsound : SchedSound s members) (horder : InOrder members r.ready)
    (hr : r.current = s'.currentThread)
    (hsound' : SchedSound s' fun i => (members i).erase t) :
    Follows s' ((leaveActs s t).foldl Rota.act r) := by
  rw [leaveActs]
  by_cases hready : (s.thread t).stat = .ready
  · rw [if_pos hready]
    exact Follows.mk' hsound' (horder.remove fun k ht => (hsound.table.level ht).symm) hr
  · rw [if_neg hready]
    exact Follows.mk' hsound'
      (horder.congr fun p => List.erase_of_not_mem (hsound.notMem_ready hready p)) hr

omit [Fintype τ] in
theorem Follows.scheduleIfStarted (h : Follows s r) (hs : s.scheduleIfStarted = some s') :
    Follows s' ((dispatchActs s).foldl Rota.act r) := by
  rw [Scheduler.scheduleIfStarted] at hs
  split_ifs at hs with hcurrent
  · exact h.schedule hs
  · cases hs
    have hnone : s.currentThread = none := by simpa using hcurrent
    rw [dispatchActs, if_pos (Or.inr hnone)]
    exact h

theorem Follows.step (h : Follows s r) {act : SchedAct τ ω} (hs : s.step act = some s') :
    Follows s' ((rotaActs s act).foldl Rota.act r) := by
  have ⟨⟨members, hsound, horder⟩, hr⟩ := h
  have hpermitted := permitted_of_step hsound hs
  cases act with
  | startup t =>
    have hinit : (s.thread t).stat = .init := hpermitted
    rw [Scheduler.step, Scheduler.rtThreadStartup, if_neg (not_not.mpr hinit)] at hs
    have hprepared : Follows (s.prepare t) r := Follows.mk' (hsound.prepare hinit) horder hr
    rw [rotaActs, List.foldl_append]
    exact (hprepared.resume t).scheduleIfStarted hs
  | start =>
    obtain ⟨hnone, hgroup⟩ := hpermitted
    obtain ⟨p, t, rest, hhighest, hfirst, hleast⟩ := hsound.table.highest hgroup
    have hmem : t ∈ members (.ready p) := by
      rw [hfirst]
      exact List.mem_cons_self
    have ht : (s.thread t).stat = .ready := by
      rw [(hsound.placed t).ready, hsound.table.level hmem]
      exact hmem
    have hvacant : SchedSound { s with currentThread := none } members := by
      rw [← hnone]
      exact hsound
    simp only [Scheduler.step, hnone, Option.isSome_none, Bool.false_eq_true, if_false,
      Scheduler.rtSystemSchedulerStart, hgroup, hhighest, Option.bind_eq_bind,
      Option.bind_some] at hs
    cases hs
    simp only [rotaActs, List.foldl_cons, List.foldl_nil, Rota.act, horder.head hfirst hleast,
      Rota.dispatch]
    refine Follows.mk' (hvacant.takeOver ht) (horder.remove ?_) rfl
    intro k hk
    rw [← hsound.table.level hk]
    exact hsound.table.level hmem
  | sleep =>
    obtain ⟨c, hc, hrunning⟩ := hpermitted
    obtain ⟨s₁, hs₁, hstat, hsound₁⟩ := hsound.suspendSelf hc hrunning
    simp only [Scheduler.step, hc, hrunning, hs₁, Option.bind_eq_bind, Option.bind_some, if_true,
      Option.map_some] at hs
    cases hs
    refine Follows.mk' (hsound₁.startTimer hstat true) horder (hr.trans ?_)
    exact (Scheduler.suspend_current hs₁).symm
  | block o flag timed =>
    obtain ⟨c, hc, hrunning⟩ := hpermitted
    obtain ⟨s₁, hs₁, hstat, hsound₁⟩ := hsound.ipcSuspend (o := o) hc hrunning flag
    simp only [Scheduler.step, hc, hrunning, hs₁, Option.bind_eq_bind, Option.bind_some, if_true,
      Option.map_some] at hs
    cases hs
    refine Follows.mk' (hsound₁.startTimer hstat timed) (horder.congr ?_) (hr.trans ?_)
    · exact fun p => Function.update_of_ne (by simp) ..
    · exact (Scheduler.ipcSuspend_current hs₁).symm
  | suspend t =>
    rcases hsound.suspend hs with ⟨hsame, hready, -⟩ | ⟨hsound', -⟩
    · rw [hsame, rotaActs, leaveActs, if_neg hready]
      exact h
    · exact Follows.leave hsound horder (hr.trans (Scheduler.suspend_current hs).symm) hsound'
  | resume t =>
    cases hs
    exact h.resume t
  | wake o =>
    obtain ⟨t, rest, hitems⟩ := List.exists_cons_of_ne_nil hpermitted
    obtain ⟨hresume, -⟩ := hsound.ipcResume hitems
    rw [Scheduler.step, hresume] at hs
    cases hs
    rw [rotaActs, hsound.table.rings.next_head, hitems]
    exact h.resume t
  | timeout t =>
    obtain ⟨hstarted, htimer⟩ := hpermitted
    have hstat := (hsound.placed t).timer htimer
    rw [Scheduler.step, if_pos ⟨hstarted, htimer⟩, Scheduler.rtThreadTimeout,
      if_neg (not_not.mpr hstat)] at hs
    rw [rotaActs, List.foldl_append]
    exact (h.wake hstat).schedule hs
  | changePriority t priority =>
    have hpriority : priority < rtThreadPriorityMax := hpermitted
    rw [Scheduler.step, Scheduler.rtThreadChangePriority, if_neg (not_le.mpr hpriority)] at hs
    rw [rotaActs]
    split_ifs at hs with hready <;> cases hs
    · rw [if_pos hready]
      refine Follows.mk' (hsound.changeReady hpriority hready)
        ((horder.remove fun k ht => (hsound.table.level ht).symm).insert priority t) (hr.trans ?_)
      rw [Scheduler.insert_current]
      rfl
    · rw [if_neg hready]
      exact Follows.mk' (hsound.changeOther hpriority hready) horder hr
  | close t =>
    cases hs
    exact Follows.leave hsound horder (hr.trans (s.close_current t).symm) (hsound.close t)
  | exit =>
    obtain ⟨c, hc, hrunning⟩ := hpermitted
    have hnot : (s.thread c).stat ≠ .ready := by simp [hrunning]
    have hclosed : Follows ((s.rtScheduleRemoveThread c).update c RtThread.closed) r :=
      Follows.mk' (hsound.closed hrunning)
        (horder.congr fun p => List.erase_of_not_mem (hsound.notMem_ready hnot p)) hr
    simp only [Scheduler.step, Scheduler.rtThreadExit, hc, Option.bind_eq_bind, Option.bind_some,
      hrunning, if_true] at hs
    simp only [rotaActs, hc, Option.elim_some]
    exact hclosed.schedule hs
  | enterCritical =>
    cases hs
    exact Follows.mk' (hsound.withLock _) horder hr
  | exitCritical =>
    rw [Scheduler.step, Scheduler.rtExitCritical] at hs
    rw [rotaActs]
    split_ifs at hs ⊢ with hlast
    · have hunlocked : Follows { s with lockNest := 0 } r :=
        Follows.mk' (hsound.withLock 0) horder hr
      exact hunlocked.scheduleIfStarted hs
    · cases hs
      exact Follows.mk' (hsound.withLock _) horder hr
  | schedule => exact h.schedule hs
  | yield =>
    obtain ⟨c, hc⟩ := Option.isSome_iff_exists.mp hpermitted
    have hreloaded : Follows (s.reload c) r := Follows.mk' (hsound.reload c) horder hr
    rw [Scheduler.step, Scheduler.rtThreadYield, hc] at hs
    rw [rotaActs, hc]
    exact hreloaded.schedule hs
  | tick =>
    obtain ⟨c, hc⟩ := Option.isSome_iff_exists.mp hpermitted
    simp only [Scheduler.step, Scheduler.rtTickIncrease, hc, Option.bind_eq_bind,
      Option.bind_some] at hs
    simp only [rotaActs, hc, Option.elim_some]
    split_ifs at hs ⊢ with hlast
    · have hreloaded : Follows (s.reload c) r := Follows.mk' (hsound.reload c) horder hr
      exact hreloaded.schedule hs
    · cases hs
      exact Follows.mk' (hsound.touch rfl rfl rfl rfl rfl) horder hr

end Moves

end DrumMachine
