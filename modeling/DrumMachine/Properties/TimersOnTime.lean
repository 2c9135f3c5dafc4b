import DrumMachine.Framework.StableQueue
import DrumMachine.Kernel.Timer

/-!
# Timers are called on time

The list is ordered by how far the timeouts lie ahead, although the ticks wrap around. A timer
is called when exactly as many ticks have come since its start as it was started with, and
none is overdue between two ticks.
-/

namespace DrumMachine

open Framework

section Ticks

variable {x y now : BitVec 32}

private theorem sub_eq_zero_tick : x - y = 0 ↔ (x - now).toNat = (y - now).toNat := by
  bv_omega

private theorem sub_lt_half (hx : (x - now).toNat < 0x7FFFFFFF)
    (hy : (y - now).toNat < 0x7FFFFFFF) :
    x - y < rtTickHalf ↔ (y - now).toNat ≤ (x - now).toNat := by
  rw [rtTickHalf]
  bv_omega

/-- A timeout that is not far ahead is due exactly if it is now. -/
private theorem due_iff (hx : (x - now).toNat < 0x7FFFFFFF) :
    now - x < rtTickHalf ↔ (x - now).toNat = 0 := by
  rw [rtTickHalf]
  bv_omega

private theorem sub_tick (hx : 0 < (x - now).toNat) :
    (x - (now + 1#32)).toNat + 1 = (x - now).toNat := by
  bv_omega

private theorem eq_of_sub_tick (h : (x - now).toNat = 0) : x = now := by
  bv_omega

private theorem add_sub_tick : now + x - now = x := by
  bv_omega

end Ticks

inductive TimerNote (τ : Type)
  | started (t : τ) (time : BitVec 32)
  | removed (t : τ)
  | ticked

section Notes

variable {τ : Type} [DecidableEq τ]

/-- What a step does to the time that timers have waited. A timer that is called is removed. -/
def TimerSystem.note (s : TimerSystem τ) : TimerAct τ → Option (TimerNote τ)
  | .start t => some (.started t (s.timer t).initTick)
  | .stop t => if (s.timer t).activated then some (.removed t) else none
  | .detach t => some (.removed t)
  | .check =>
      match s.rtTimerCheck.check with
      | .calling t _ => some (.removed t)
      | _ => none
  | .finish =>
      match s.check with
      | .calling t listed =>
          if listed && (s.timer t).periodic && (s.timer t).activated then
            some (.started t (s.timer t).initTick)
          else none
      | _ => none
  | .tick => some .ticked
  | _ => none

def TimerNote.count (t : τ) (waited : Option (BitVec 32 × Nat)) :
    TimerNote τ → Option (BitVec 32 × Nat)
  | .started u time => if u = t then some (time, 0) else waited
  | .removed u => if u = t then none else waited
  | .ticked => waited.map fun w => (w.1, w.2 + 1)

/-- The time with which a timer was started last, and the ticks since then, if it has not been
removed since. -/
def waited (t : τ) (notes : List (TimerNote τ)) : Option (BitVec 32 × Nat) :=
  notes.foldl (TimerNote.count t) none

def TimerNote.startOf (t : τ) : TimerNote τ → Bool
  | .started u _ => u = t
  | _ => false

/-- The place of the last start of a timer among the notes, of which the newest is first. -/
def startedAt (t : τ) : List (TimerNote τ) → Nat
  | [] => 0
  | note :: earlier => if note.startOf t then earlier.length + 1 else startedAt t earlier

theorem startedAt_le (t : τ) (notes : List (TimerNote τ)) : startedAt t notes ≤ notes.length := by
  induction notes with
  | nil => exact Nat.le_refl 0
  | cons note earlier ih =>
    rw [startedAt, List.length_cons]
    split_ifs
    · exact Nat.le_refl _
    · exact Nat.le_succ_of_le ih

/-- The order in which timers were started last. -/
def ticket (notes : List (TimerNote τ)) (t : τ) : Nat := startedAt t notes.reverse

theorem ticket_le (notes : List (TimerNote τ)) (t : τ) : ticket notes t ≤ notes.length := by
  rw [← List.length_reverse]
  exact startedAt_le t notes.reverse

theorem ticket_concat (notes : List (TimerNote τ)) (note : TimerNote τ) (t : τ) :
    ticket (notes ++ [note]) t = if note.startOf t then notes.length + 1 else ticket notes t := by
  rw [ticket, List.reverse_append, List.reverse_singleton, List.singleton_append, startedAt,
    List.length_reverse]
  rfl

theorem ticket_started (notes : List (TimerNote τ)) (t : τ) (time : BitVec 32) :
    ticket (notes ++ [.started t time]) t = notes.length + 1 := by
  rw [ticket_concat]
  exact if_pos (decide_eq_true rfl)

theorem ticket_started_of_ne (notes : List (TimerNote τ)) {t u : τ} (h : u ≠ t)
    (time : BitVec 32) : ticket (notes ++ [.started t time]) u = ticket notes u := by
  rw [ticket_concat]
  exact if_neg (mt of_decide_eq_true h.symm)

theorem ticket_removed (notes : List (TimerNote τ)) (t u : τ) :
    ticket (notes ++ [.removed t]) u = ticket notes u :=
  ticket_concat notes (.removed t) u

theorem ticket_ticked (notes : List (TimerNote τ)) (u : τ) :
    ticket (notes ++ [.ticked]) u = ticket notes u :=
  ticket_concat notes .ticked u

theorem waited_concat (t : τ) (notes : List (TimerNote τ)) (note : TimerNote τ) :
    waited t (notes ++ [note]) = note.count t (waited t notes) := by
  rw [waited, List.foldl_append]
  rfl

end Notes

variable {τ : Type} [DecidableEq τ]

structure OnTime (notes : List (TimerNote τ)) (s : TimerSystem τ) : Prop where
  nodup : s.timerList.Nodup
  order : s.timerList.Pairwise fun t u => s.remaining t < s.remaining u ∨
    s.remaining t = s.remaining u ∧ ticket notes t < ticket notes u
  bounded : ∀ t ∈ s.timerList, s.remaining t < 0x7FFFFFFF
  ahead : s.check = .idle → ∀ t ∈ s.timerList, 0 < s.remaining t
  positive : ∀ t, 0 < (s.timer t).initTick.toNat
  counted : ∀ t ∈ s.timerList, ∃ time k, waited t notes = some (time, k) ∧
    k + s.remaining t = time.toNat
  gone : ∀ t, t ∉ s.timerList → waited t notes = none

namespace OnTime

variable {notes : List (TimerNote τ)} {s s' : TimerSystem τ}

/-- Nothing that the timers on the list are called by changes. -/
theorem keep (h : OnTime notes s) (hlist : s'.timerList = s.timerList)
    (hsame : ∀ t, s'.remaining t = s.remaining t)
    (hinit : ∀ t, 0 < (s'.timer t).initTick.toNat)
    (hidle : s'.check = .idle → s.check = .idle) : OnTime notes s' := by
  refine ⟨hlist ▸ h.nodup, ?_, ?_, ?_, hinit, ?_, hlist ▸ h.gone⟩
  · rw [hlist]
    simpa only [hsame] using h.order
  · rw [hlist]
    simpa only [hsame] using h.bounded
  · rw [hlist]
    simpa only [hsame] using fun hcheck => h.ahead (hidle hcheck)
  · rw [hlist]
    simpa only [hsame] using h.counted

/-- A timer leaves the list. -/
theorem remove (h : OnTime notes s) {t : τ} (hlist : s'.timerList = s.timerList.erase t)
    (hsame : ∀ u, s'.remaining u = s.remaining u)
    (hinit : ∀ u, 0 < (s'.timer u).initTick.toNat)
    (hidle : s'.check = .idle → s.check = .idle) :
    OnTime (notes ++ [.removed t]) s' := by
  have hmem : ∀ u, u ∈ s'.timerList ↔ u ≠ t ∧ u ∈ s.timerList := by
    intro u
    rw [hlist, h.nodup.mem_erase_iff]
  refine ⟨hlist ▸ h.nodup.erase t, ?_, ?_, ?_, hinit, ?_, ?_⟩
  · rw [hlist]
    simpa only [hsame, ticket_removed] using h.order.sublist List.erase_sublist
  · intro u hu
    rw [hsame]
    exact h.bounded u ((hmem u).mp hu).2
  · intro hcheck u hu
    rw [hsame]
    exact h.ahead (hidle hcheck) u ((hmem u).mp hu).2
  · intro u hu
    obtain ⟨hne, hu⟩ := (hmem u).mp hu
    rw [waited_concat, TimerNote.count, if_neg hne.symm, hsame]
    exact h.counted u hu
  · intro u hu
    rw [waited_concat, TimerNote.count]
    split_ifs with heq
    · rfl
    · exact h.gone u fun hin => hu ((hmem u).mpr ⟨Ne.symm heq, hin⟩)

end OnTime

namespace TimerSystem

variable {γ : Type}

theorem update_field (g : RtTimer → γ) (s : TimerSystem τ) (t : τ) (timer : RtTimer)
    (h : g timer = g (s.timer t)) (u : τ) : g ((s.update t timer).timer u) = g (s.timer u) := by
  by_cases hu : u = t
  · subst hu
    rw [update_self, h]
  · rw [s.update_of_ne hu]

theorem update_remaining (s : TimerSystem τ) (t : τ) (timer : RtTimer)
    (h : timer.timeoutTick = (s.timer t).timeoutTick) (u : τ) :
    (s.update t timer).remaining u = s.remaining u := by
  have htimeout := s.update_field RtTimer.timeoutTick t timer h u
  rw [remaining, htimeout]
  rfl

theorem remove_idle (s : TimerSystem τ) (t : τ) (h : (s.rtTimerRemove t).check = .idle) :
    s.check = .idle := by
  rw [rtTimerRemove] at h
  cases hcheck : s.check with
  | idle => rfl
  | checking =>
    rw [hcheck] at h
    cases h
  | calling u listed =>
    rw [hcheck] at h
    cases h

/-- The scan finds the place after all timers that are not called later. -/
theorem insert_eq (s : TimerSystem τ) (t : τ) (ht : s.remaining t < 0x7FFFFFFF) {us : List τ}
    (hus : ∀ u ∈ us, s.remaining u < 0x7FFFFFFF) :
    rtTimerInsert s.timer t us =
      us.orderedInsert (fun a b => s.remaining a < s.remaining b) t := by
  induction us with
  | nil => rfl
  | cons u us ih =>
    have hu := hus u List.mem_cons_self
    have hrest := ih fun v hv => hus v (List.mem_cons_of_mem u hv)
    have hzero : (s.timer u).timeoutTick - (s.timer t).timeoutTick = 0 ↔
        s.remaining u = s.remaining t := sub_eq_zero_tick
    have hhalf : (s.timer u).timeoutTick - (s.timer t).timeoutTick < rtTickHalf ↔
        s.remaining t ≤ s.remaining u := sub_lt_half hu ht
    rw [rtTimerInsert, List.orderedInsert_cons, hrest]
    simp only [hzero, hhalf]
    split_ifs <;> first | rfl | omega

theorem start_cases {s s' : TimerSystem τ} {t : τ} (hs : s.rtTimerStart t = some s') :
    (s.timer t).initTick < rtTickHalf ∧ s'.rtTick = s.rtTick ∧
      s'.check = (s.rtTimerRemove t).check ∧
      s'.timerList = rtTimerInsert s'.timer t (s.timerList.erase t) ∧
      s'.timer = Function.update s.timer t { s.timer t with
        timeoutTick := s.rtTick + (s.timer t).initTick
        activated := true } := by
  rw [rtTimerStart] at hs
  split_ifs at hs with hinit
  cases hs
  exact ⟨hinit, rfl, rfl, rfl, rfl⟩

theorem start_remaining {s s' : TimerSystem τ} {t : τ} (hs : s.rtTimerStart t = some s') :
    s'.remaining t = (s.timer t).initTick.toNat ∧ ∀ u ≠ t, s'.remaining u = s.remaining u := by
  obtain ⟨-, htick, -, -, htimer⟩ := start_cases hs
  constructor
  · rw [remaining, htimer, htick, Function.update_self, add_sub_tick]
  · intro u hu
    rw [remaining, htimer, htick, Function.update_of_ne hu]
    rfl

end TimerSystem

namespace OnTime

open TimerSystem

variable {notes : List (TimerNote τ)} {s s' : TimerSystem τ} {t : τ}

theorem positive_update (h : OnTime notes s) (t : τ) (timer : RtTimer)
    (htimer : timer.initTick = (s.timer t).initTick) (u : τ) :
    0 < ((s.update t timer).timer u).initTick.toNat := by
  have hsame := s.update_field RtTimer.initTick t timer htimer u
  exact hsame ▸ h.positive u

/-- The timer goes to its place, and what the others wait for stays. -/
theorem start (h : OnTime notes s) (hs : s.rtTimerStart t = some s') :
    OnTime (notes ++ [.started t (s.timer t).initTick]) s' := by
  obtain ⟨hinit, -, hcheck, hlist, htimer⟩ := start_cases hs
  obtain ⟨hself, hother⟩ := start_remaining hs
  have hsmall : s'.remaining t < 0x7FFFFFFF := by
    rw [hself]
    exact BitVec.lt_def.mp hinit
  have hmem : ∀ u ∈ s.timerList.erase t, u ≠ t ∧ u ∈ s.timerList := by
    intro u hu
    exact (h.nodup.mem_erase_iff).mp hu
  have hbounded : ∀ u ∈ s.timerList.erase t, s'.remaining u < 0x7FFFFFFF := by
    intro u hu
    obtain ⟨hne, hin⟩ := hmem u hu
    rw [hother u hne]
    exact h.bounded u hin
  have horder : (s.timerList.erase t).Pairwise fun u v => s'.remaining u < s'.remaining v ∨
      s'.remaining u = s'.remaining v ∧ ticket (notes ++ [.started t (s.timer t).initTick]) u <
        ticket (notes ++ [.started t (s.timer t).initTick]) v := by
    refine (h.order.sublist List.erase_sublist).imp_of_mem ?_
    intro u v hu hv hle
    obtain ⟨hut, -⟩ := hmem u hu
    obtain ⟨hvt, -⟩ := hmem v hv
    rw [hother u hut, hother v hvt, ticket_started_of_ne notes hut,
      ticket_started_of_ne notes hvt]
    exact hle
  rw [s'.insert_eq t hsmall hbounded] at hlist
  have hin : ∀ u, u ∈ s'.timerList ↔ u = t ∨ u ∈ s.timerList.erase t := by
    intro u
    rw [hlist]
    exact List.mem_orderedInsert _
  refine ⟨?_, ?_, ?_, ?_, ?_, ?_, ?_⟩
  · rw [hlist, (List.perm_orderedInsert _ _ _).nodup_iff, List.nodup_cons]
    exact ⟨fun hmem' => (hmem t hmem').1 rfl, h.nodup.erase t⟩
  · rw [hlist]
    refine pairwise_lex_orderedInsert s'.remaining _ t ?_ horder
    intro u hu
    rw [ticket_started, ticket_started_of_ne notes (hmem u hu).1]
    exact Nat.lt_succ_of_le (ticket_le notes u)
  · intro u hu
    rcases (hin u).mp hu with heq | hu
    · exact heq ▸ hsmall
    · exact hbounded u hu
  · intro hidle u hu
    rw [hcheck] at hidle
    rcases (hin u).mp hu with heq | hu
    · rw [heq, hself]
      exact h.positive t
    · rw [hother u (hmem u hu).1]
      exact h.ahead (s.remove_idle t hidle) u (hmem u hu).2
  · intro u
    rw [htimer]
    exact h.positive_update t { s.timer t with
      timeoutTick := s.rtTick + (s.timer t).initTick, activated := true } rfl u
  · intro u hu
    rw [waited_concat]
    rcases (hin u).mp hu with heq | hu
    · subst heq
      exact ⟨_, 0, if_pos rfl, by rw [hself, Nat.zero_add]⟩
    · obtain ⟨hne, hu⟩ := hmem u hu
      rw [TimerNote.count, if_neg hne.symm, hother u hne]
      exact h.counted u hu
  · intro u hu
    rw [hin, not_or] at hu
    obtain ⟨hne, hout⟩ := hu
    rw [waited_concat, TimerNote.count, if_neg (Ne.symm hne)]
    exact h.gone u fun hin' => hout ((h.nodup.mem_erase_iff).mpr ⟨hne, hin'⟩)

theorem detach (h : OnTime notes s) (t : τ) :
    OnTime (notes ++ [.removed t]) (s.rtTimerDetach t) := by
  let detached : RtTimer := { s.timer t with activated := false }
  refine h.remove rfl ?_ ?_ (s.remove_idle t)
  · exact (s.rtTimerRemove t).update_remaining t detached rfl
  · exact h.positive_update t detached rfl

theorem tick (h : OnTime notes s) (hidle : s.check = .idle) :
    OnTime (notes ++ [.ticked]) { s with rtTick := s.rtTick + 1#32, check := .checking } := by
  have hless : ∀ t ∈ s.timerList, ({ s with rtTick := s.rtTick + 1#32, check := .checking } :
      TimerSystem τ).remaining t + 1 = s.remaining t :=
    fun t ht => sub_tick (h.ahead hidle t ht)
  refine ⟨h.nodup, ?_, ?_, ?_, h.positive, ?_, ?_⟩
  · refine h.order.imp_of_mem ?_
    intro t u ht hu hle
    have htless := hless t ht
    have huless := hless u hu
    rw [ticket_ticked, ticket_ticked]
    omega
  · intro t ht
    have htless := hless t ht
    have hbound := h.bounded t ht
    omega
  · intro hcheck
    cases hcheck
  · intro t ht
    obtain ⟨time, k, hwaited, hk⟩ := h.counted t ht
    have htless := hless t ht
    refine ⟨time, k + 1, ?_, by omega⟩
    rw [waited_concat, hwaited]
    rfl
  · intro t ht
    rw [waited_concat, h.gone t ht]
    rfl

theorem idle (h : OnTime notes s) (hahead : ∀ t ∈ s.timerList, 0 < s.remaining t) :
    OnTime notes { s with check := .idle } :=
  ⟨h.nodup, h.order, h.bounded, fun _ => hahead, h.positive, h.counted, h.gone⟩

/-- A turn of the check calls the first timer, which is due now, or finds that all timers lie
ahead. -/
theorem check (h : OnTime notes s) :
    OnTime (notes ++ (s.note .check).toList) s.rtTimerCheck ∧
      ∀ t, s.rtTimerCheck.check = .calling t true → t ∈ s.timerList ∧ s.remaining t = 0 ∧
        ∀ u ∈ s.timerList, u ≠ t → s.remaining u = 0 → ticket notes t < ticket notes u := by
  cases hlist : s.timerList with
  | nil =>
    have hnext : s.rtTimerCheck = { s with check := .idle } := by rw [rtTimerCheck, hlist]
    simp only [note, hnext, Option.toList_none, List.append_nil]
    refine ⟨h.idle ?_, fun t hcall => by cases hcall⟩
    intro t ht
    rw [hlist] at ht
    cases ht
  | cons t rest =>
    have ht : t ∈ s.timerList := hlist ▸ List.mem_cons_self
    have hiff : s.rtTick - (s.timer t).timeoutTick < rtTickHalf ↔ s.remaining t = 0 :=
      due_iff (h.bounded t ht)
    by_cases hdue : s.remaining t = 0
    · let called : RtTimer :=
        { s.timer t with activated := (s.timer t).activated && (s.timer t).periodic }
      have hnext : s.rtTimerCheck =
          { (s.rtTimerRemove t).update t called with check := .calling t true } := by
        simp only [rtTimerCheck, hlist, if_pos (hiff.mpr hdue), called]
      simp only [note, hnext, Option.toList_some]
      refine ⟨h.remove rfl ?_ ?_ (fun hcheck => by cases hcheck), ?_⟩
      · exact (s.rtTimerRemove t).update_remaining t called rfl
      · exact h.positive_update t called rfl
      · intro u hcall
        cases hcall
        refine ⟨List.mem_cons_self, hdue, ?_⟩
        intro v hv hne hzero
        have horder := h.order
        rw [hlist] at horder
        have hlater := (List.pairwise_cons.mp horder).1 v ((List.mem_cons.mp hv).resolve_left hne)
        omega
    · have hnext : s.rtTimerCheck = { s with check := .idle } := by
        simp only [rtTimerCheck, hlist, if_neg (mt hiff.mp hdue)]
      simp only [note, hnext, Option.toList_none, List.append_nil]
      refine ⟨h.idle ?_, fun t hcall => by cases hcall⟩
      intro u hu
      have horder := h.order
      rw [hlist] at hu horder
      have hfirst := (List.pairwise_cons.mp horder).1
      rcases List.mem_cons.mp hu with heq | hu
      · subst heq
        exact Nat.pos_of_ne_zero hdue
      · have hlater := hfirst u hu
        omega

/-- The end of a call, after which a periodic timer is started again. -/
theorem finish {listed : Bool} (h : OnTime notes s) (hcheck : s.check = .calling t listed)
    (hs : s.finishCall t listed = some s') : OnTime (notes ++ (s.note .finish).toList) s' := by
  have hchecking : OnTime notes { s with check := .checking } :=
    h.keep rfl (fun _ => rfl) h.positive (fun hidle => by cases hidle)
  simp only [note, hcheck]
  rw [finishCall] at hs
  split_ifs at hs ⊢ with hagain
  · exact hchecking.start hs
  · cases hs
    rw [Option.toList_none, List.append_nil]
    exact hchecking

end OnTime

/-- A timer may be given any time but zero. -/
def TimerAct.Paced : TimerAct τ → Prop
  | .setTime _ time => time ≠ 0
  | _ => True

namespace OnTime

open TimerSystem

variable {notes : List (TimerNote τ)} {s s' : TimerSystem τ}

theorem set (h : OnTime notes s) (t : τ) (timer : RtTimer)
    (htimeout : timer.timeoutTick = (s.timer t).timeoutTick) (hinit : 0 < timer.initTick.toNat) :
    OnTime notes (s.update t timer) := by
  refine h.keep rfl (s.update_remaining t timer htimeout) ?_ id
  intro u
  by_cases hu : u = t
  · rw [hu, update_self]
    exact hinit
  · rw [s.update_of_ne hu]
    exact h.positive u

/-- A timer that waits is on the list. -/
theorem waits (h : OnTime notes s) {t : τ} {time : BitVec 32} {k : Nat}
    (hwaited : waited t notes = some (time, k)) :
    t ∈ s.timerList ∧ k + s.remaining t = time.toNat := by
  have ht : t ∈ s.timerList := by
    by_contra hout
    rw [h.gone t hout] at hwaited
    cases hwaited
  obtain ⟨time', k', hwaited', hk⟩ := h.counted t ht
  rw [hwaited'] at hwaited
  cases hwaited
  exact ⟨ht, hk⟩

theorem step {act : TimerAct τ} (h : OnTime notes s) (hpaced : act.Paced)
    (hs : s.step act = some s') : OnTime (notes ++ (s.note act).toList) s' := by
  have hquiet : s.note act = none → OnTime notes s' → OnTime (notes ++ (s.note act).toList) s' := by
    intro hnote hnext
    rw [hnote, Option.toList_none, List.append_nil]
    exact hnext
  cases act with
  | setTime t time =>
    cases hs
    exact hquiet rfl (h.set t _ rfl (BitVec.toNat_pos_of_ne_zero hpaced))
  | setPeriodic t periodic =>
    cases hs
    exact hquiet rfl (h.set t _ rfl (h.positive t))
  | start t => exact h.start hs
  | stop t =>
    cases hs
    rw [rtTimerStop, note]
    split_ifs
    · exact h.detach t
    · exact (List.append_nil notes).symm ▸ h
  | detach t =>
    cases hs
    exact h.detach t
  | tick =>
    cases hcheck : s.check with
    | idle =>
      simp only [TimerSystem.step, hcheck] at hs
      cases hs
      exact h.tick hcheck
    | checking =>
      simp only [TimerSystem.step, hcheck] at hs
      cases hs
    | calling t listed =>
      simp only [TimerSystem.step, hcheck] at hs
      cases hs
  | check =>
    rw [TimerSystem.step] at hs
    split at hs
    · cases hs
      exact h.check.1
    · cases hs
  | finish =>
    rw [TimerSystem.step] at hs
    split at hs
    · exact h.finish ‹_› hs
    · cases hs

end OnTime

variable (table : TimerTable τ)

def notesOf (acts : List (TimerAct τ)) : List (TimerNote τ) :=
  (timerMachine table).logFrom TimerSystem.note (timerMachine table).init acts

theorem onTime_of_exec (htable : ∀ t, table.time t ≠ 0) {acts : List (TimerAct τ)}
    {s : TimerSystem τ} (h : (timerMachine table).exec acts = some s)
    (hpaced : ∀ act ∈ acts, act.Paced) : OnTime (notesOf table acts) s := by
  refine (timerMachine table).exec_invariant (fun acts s => (∀ act ∈ acts, act.Paced) →
    OnTime (notesOf table acts) s) (fun _ => ?_) ?_ acts s h hpaced
  · refine ⟨List.nodup_nil, List.Pairwise.nil, ?_, ?_, ?_, ?_, fun _ _ => rfl⟩
    · intro t ht
      cases ht
    · intro _ t ht
      cases ht
    · exact fun t => BitVec.toNat_pos_of_ne_zero (htable t)
    · intro t ht
      cases ht
  · intro acts s act s' hexec ih hs hpaced
    have hnotes : notesOf table (acts ++ [act]) = notesOf table acts ++ (s.note act).toList :=
      (timerMachine table).logFrom_concat TimerSystem.note hexec hs
    rw [hnotes]
    exact (ih fun a ha => hpaced a (List.mem_append_left _ ha)).step (hpaced act (by simp)) hs

/-- In every run, a timer is called when exactly as many ticks have come since it was started
last as it was started with, however the tick counter wraps around and whatever timers are
started, changed and stopped meanwhile, and of those due at the same tick the one started first
is called first. After a check no timer that has been started and not removed since has waited
that long, so none is called late or lost. -/
theorem timers_on_time (htable : ∀ t, table.time t ≠ 0) (acts : List (TimerAct τ))
    (s : TimerSystem τ) (h : (timerMachine table).exec acts = some s)
    (hpaced : ∀ act ∈ acts, act.Paced) :
    (s.check = .idle → ∀ t time k, waited t (notesOf table acts) = some (time, k) →
      k < time.toNat) ∧
      ∀ s' t, s.step .check = some s' → s'.check = .calling t true →
        (s.timer t).timeoutTick = s.rtTick ∧
          (∃ time, waited t (notesOf table acts) = some (time, time.toNat)) ∧
          ∀ u time, u ≠ t → waited u (notesOf table acts) = some (time, time.toNat) →
            ticket (notesOf table acts) t < ticket (notesOf table acts) u := by
  have hontime := onTime_of_exec table htable h hpaced
  constructor
  · intro hidle t time k hwaited
    obtain ⟨ht, hk⟩ := hontime.waits hwaited
    have hahead := hontime.ahead hidle t ht
    omega
  · intro s' t hs hcall
    rw [TimerSystem.step] at hs
    split at hs
    · cases hs
      obtain ⟨ht, hzero, hfirst⟩ := hontime.check.2 t hcall
      obtain ⟨time, k, hwaited, hk⟩ := hontime.counted t ht
      rw [hzero, Nat.add_zero] at hk
      refine ⟨eq_of_sub_tick hzero, ⟨time, hk ▸ hwaited⟩, ?_⟩
      intro u time hne hdue
      obtain ⟨hu, hk⟩ := hontime.waits hdue
      exact hfirst u hu hne (by omega)
    · cases hs

def twoTimers : TimerTable Bool := ⟨fun t => if t then 2#32 else 1#32, fun t => !t⟩

/-- The periodic timer is called at the first tick and started again; at the second tick both
are due. -/
def twoTimersRun : List (TimerAct Bool) :=
  [.start true, .start false, .tick, .check, .finish, .check, .tick]

theorem timers_on_time_two :
    ∃ s s', (timerMachine twoTimers).exec twoTimersRun = some s ∧ s.step .check = some s' ∧
      s'.check = .calling true true ∧ s.rtTick = 2#32 ∧
      ticket (notesOf twoTimers twoTimersRun) true <
        ticket (notesOf twoTimers twoTimersRun) false := by
  have hrun : (((timerMachine twoTimers).exec twoTimersRun).any fun s => s.rtTick = 2#32 &&
      (s.step .check).any fun s' => s'.check = .calling true true) = true := by decide
  obtain ⟨s, hs, hfacts⟩ := (Option.any_eq_true _ _).mp hrun
  obtain ⟨htick, hcheck⟩ := Bool.and_eq_true_iff.mp hfacts
  obtain ⟨s', hs', hcall⟩ := (Option.any_eq_true _ _).mp hcheck
  have htable : ∀ t, twoTimers.time t ≠ 0 := by decide
  have hpaced : ∀ act ∈ twoTimersRun, act.Paced := by simp [twoTimersRun, TimerAct.Paced]
  have hcall' := of_decide_eq_true hcall
  refine ⟨s, s', hs, hs', hcall', of_decide_eq_true htick, ?_⟩
  have hdue : waited false (notesOf twoTimers twoTimersRun) = some (1#32, (1#32).toNat) := by decide
  have hfirst := ((timers_on_time twoTimers htable twoTimersRun s hs hpaced).2 s' true hs' hcall').2
  exact hfirst.2 false 1#32 Bool.false_ne_true hdue

end DrumMachine
