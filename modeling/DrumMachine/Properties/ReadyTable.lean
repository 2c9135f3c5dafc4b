import DrumMachine.Kernel.Scheduler

/-!
# The ready table

The rings of threads with the bits of the priority word. An insertion and a removal keep the
bit of a priority set exactly while its ring is not empty, so the first set bit leads to a
thread of the highest ready priority.
-/

namespace DrumMachine

open Framework

variable {τ ω : Type}

private theorem mask_bit {p i : Nat} (hi : i < 32) : (1#32 <<< p).getLsbD i = decide (i = p) := by
  rw [BitVec.getLsbD_shiftLeft, BitVec.getLsbD_one]
  by_cases hip : i = p
  · subst hip
    simp [hi]
  · have hsub : i < p ∨ i - p ≠ 0 := by omega
    rcases hsub with hlt | hne
    · simp [hlt, hip]
    · simp [hne, hip]

/-- `members` are the lists in the rings of the scheduler. -/
structure ReadyTable (s : Scheduler τ ω) (members : ListHead ω → List τ) : Prop where
  rings : Rings s.links members
  level : ∀ {t p}, t ∈ members (.ready p) → s.priority t = p
  group : ∀ {p}, p < 32 → (s.readyPriorityGroup.getLsbD p = true ↔ members (.ready p) ≠ [])
  bounded : ∀ t, s.priority t < 32 ∧ (s.thread t).initPriority < 32
  mask : ∀ {t}, (s.thread t).stat.Live → (s.thread t).numberMask = 1#32 <<< s.priority t

namespace ReadyTable

variable [DecidableEq τ] [DecidableEq ω]
variable {s : Scheduler τ ω} {members : ListHead ω → List τ} {t : τ}

omit [DecidableEq ω] in
private theorem priority_update {f : RtThread → RtThread}
    (hpriority : (f (s.thread t)).currentPriority = s.priority t) (u : τ) :
    (s.update t f).priority u = s.priority u := by
  by_cases hu : u = t
  · subst hu
    rw [Scheduler.priority, s.update_thread_self]
    exact hpriority
  · rw [Scheduler.priority, s.update_thread_of_ne hu]
    rfl

omit [DecidableEq ω] in
/-- A change of one thread that keeps its priority, unless it lies in no ring of the table. -/
theorem update (h : ReadyTable s members) {f : RtThread → RtThread}
    (hpriority : (∀ p, t ∉ members (.ready p)) ∨
      (f (s.thread t)).currentPriority = s.priority t)
    (hbounded : (f (s.thread t)).currentPriority < 32 ∧ (f (s.thread t)).initPriority < 32)
    (hmask : (f (s.thread t)).stat.Live →
      (f (s.thread t)).numberMask = 1#32 <<< (f (s.thread t)).currentPriority) :
    ReadyTable (s.update t f) members := by
  refine ⟨h.rings, ?_, h.group, ?_, ?_⟩
  · intro u p hu
    rcases hpriority with hout | hpriority
    · have hut : u ≠ t := by
        intro hut
        exact hout p (hut ▸ hu)
      rw [Scheduler.priority, s.update_thread_of_ne hut]
      exact h.level hu
    · rw [priority_update hpriority]
      exact h.level hu
  · intro u
    by_cases hut : u = t
    · subst hut
      rw [Scheduler.priority, s.update_thread_self]
      exact hbounded
    · rw [Scheduler.priority, s.update_thread_of_ne hut]
      exact h.bounded u
  · intro u hu
    by_cases hut : u = t
    · subst hut
      rw [Scheduler.priority]
      rw [s.update_thread_self] at hu ⊢
      exact hmask hu
    · rw [Scheduler.priority]
      rw [s.update_thread_of_ne hut] at hu ⊢
      exact h.mask hu

omit [DecidableEq τ] [DecidableEq ω] in
/-- The thread of the first ready priority has been waiting longest in it. -/
theorem highest (h : ReadyTable s members) (hgroup : s.readyPriorityGroup ≠ 0#32) :
    ∃ p t rest, s.getHighestPriorityThread = some (p, t) ∧ members (.ready p) = t :: rest ∧
      ∀ q < p, members (.ready q) = [] := by
  have hlowest := rtFfs_lowestBit hgroup
  have hbound : rtFfs s.readyPriorityGroup - 1 < 32 := by
    by_contra hge
    have hset := hlowest.set
    rw [BitVec.getLsbD_of_ge _ _ (not_lt.mp hge)] at hset
    cases hset
  have hne := (h.group hbound).mp hlowest.set
  have hnext := h.rings.next_head (.ready (rtFfs s.readyPriorityGroup - 1))
  cases hitems : members (.ready (rtFfs s.readyPriorityGroup - 1)) with
  | nil => exact absurd hitems hne
  | cons t rest =>
    rw [hitems] at hnext
    refine ⟨_, t, rest, ?_, hitems, ?_⟩
    · rw [Scheduler.getHighestPriorityThread, hnext]
      rfl
    · intro q hq
      by_contra hq'
      have hset := (h.group (hq.trans hbound)).mpr hq'
      rw [hlowest.clear q hq] at hset
      cases hset

omit [DecidableEq τ] [DecidableEq ω] in
theorem group_zero (h : ReadyTable s members) (hgroup : s.readyPriorityGroup = 0#32) {p : Nat}
    (hp : p < 32) : members (.ready p) = [] := by
  by_contra hne
  have hset := (h.group hp).mpr hne
  rw [hgroup, BitVec.getLsbD_zero] at hset
  cases hset

theorem enqueue (h : ReadyTable s members) (hfresh : ∀ i, t ∉ members i)
    (hmask : (s.thread t).numberMask = 1#32 <<< s.priority t) :
    ReadyTable (s.enqueue t)
      (Function.update members (.ready (s.priority t))
        (members (.ready (s.priority t)) ++ [t])) := by
  have hready : ReadyTable (s.update t fun thread => { thread with stat := .ready }) members :=
    h.update (Or.inr rfl) (h.bounded t) fun _ => hmask
  refine ⟨?_, ?_, ?_, hready.bounded, hready.mask⟩
  · have hitems : members (.ready (s.priority t)) = members (.ready (s.priority t)) ++ [] :=
      (List.append_nil _).symm
    exact h.rings.insert hitems hfresh
  · intro u p hu
    change (s.update t fun thread => { thread with stat := .ready }).priority u = p
    by_cases hp : ListHead.ready p = ListHead.ready (ω := ω) (s.priority t)
    · rw [hp, Function.update_self, List.mem_append, List.mem_singleton] at hu
      cases hp
      rcases hu with hu | hu
      · exact hready.level hu
      · subst hu
        rw [Scheduler.priority, s.update_thread_self]
        rfl
    · rw [Function.update_of_ne hp] at hu
      exact hready.level hu
  · intro p hp
    rw [Scheduler.enqueue, hmask, BitVec.getLsbD_or, mask_bit hp]
    by_cases hpt : p = s.priority t
    · subst hpt
      simp
    · have hne : ListHead.ready p ≠ ListHead.ready (ω := ω) (s.priority t) := by
        simpa using hpt
      simpa [hpt, Function.update_of_ne hne] using h.group hp

theorem remove (h : ReadyTable s members) (hmask : (s.thread t).numberMask = 1#32 <<< s.priority t) :
    ReadyTable (s.rtScheduleRemoveThread t) fun i => (members i).erase t := by
  have hrings := h.rings.remove t
  have hother : ∀ {p}, p ≠ s.priority t → (members (.ready p)).erase t = members (.ready p) := by
    intro p hp
    apply List.erase_of_not_mem
    intro ht
    exact hp (h.level ht).symm
  refine ⟨hrings, ?_, ?_, h.bounded, h.mask⟩
  · intro u p hu
    exact h.level (List.mem_of_mem_erase hu)
  · intro p hp
    rw [Scheduler.rtScheduleRemoveThread]
    simp only [hrings.next_head_iff (.ready (s.priority t)), hmask]
    by_cases hpt : p = s.priority t
    · subst hpt
      split_ifs with hempty
      · simp [hempty, mask_bit hp]
      · have hne : members (.ready (s.priority t)) ≠ [] := by
          intro hnil
          apply hempty
          rw [hnil]
          rfl
        simp [hempty, (h.group hp).mpr hne]
    · rw [hother hpt]
      split_ifs
      · rw [BitVec.getLsbD_and, BitVec.getLsbD_not, mask_bit hp]
        simpa [hpt, hp] using h.group hp
      · exact h.group hp

/-- A thread outside the table leaves the list it waits in. -/
theorem unwait (h : ReadyTable s members) (hout : ∀ p, t ∉ members (.ready p)) :
    ReadyTable (s.unwait t) fun i => (members i).erase t := by
  have hstopped := h.update (t := t) (f := fun thread => { thread with timerActivated := false })
    (Or.inr rfl) (h.bounded t) fun hlive => h.mask hlive
  refine ⟨h.rings.remove t, ?_, ?_, hstopped.bounded, hstopped.mask⟩
  · intro u p hu
    exact hstopped.level (List.mem_of_mem_erase hu)
  · intro p hp
    rw [List.erase_of_not_mem (hout p)]
    exact h.group hp

end ReadyTable

end DrumMachine
