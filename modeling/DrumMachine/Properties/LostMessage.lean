import DrumMachine.Properties.Frames

/-!
# Failed receives

`seqInputQueueGet` returns nothing, so an iteration whose receive failed toggles with the
message before it, or with the uninitialised buffer. The runs that this leaves unharmed are
determined exactly.
-/

namespace DrumMachine

open Framework

def recvRun (s : SeqState) (rs : List (Option InputEvents)) : SeqState :=
  rs.foldl (fun s r => seqTaskIter r s) s

def delivered (rs : List (Option InputEvents)) : List InputEvents := rs.filterMap id

/-- The events that `seqStepToggle` is called with. -/
def applied (s : SeqState) : List (Option InputEvents) → List InputEvents
  | [] => []
  | r :: rs => seqInputQueueGet r s.inputEvents :: applied (seqTaskIter r s) rs

def Flips (event : InputEvents) : Prop := event.buttonEvents.justPressed.mainRow ≠ 0

instance (event : InputEvents) : Decidable (Flips event) :=
  inferInstanceAs (Decidable (event.buttonEvents.justPressed.mainRow ≠ 0))

/-- Failed receives change nothing: at every point of the run the pattern and the frame are
those of the run without them, and the events that flip steps are those delivered, each
applied once. -/
structure ReceiveHarmless (s : SeqState) (rs : List (Option InputEvents)) : Prop where
  pattern : ∀ pre, pre <+: rs →
    (recvRun s pre).sequence = (recvRun s (pre.filter Option.isSome)).sequence
  frame : ∀ pre, pre <+: rs →
    (recvRun s pre).kbLedData = (recvRun s (pre.filter Option.isSome)).kbLedData
  once : (applied s rs).filter (fun e => decide (Flips e)) =
    (delivered rs).filter fun e => decide (Flips e)

def lastDelivered (garbage : InputEvents) (rs : List (Option InputEvents)) : InputEvents :=
  (delivered rs).getLastD garbage

/-- Every receive that fails finds a buffer without a pressed key. -/
def StaleWithoutPress (garbage : InputEvents) (rs : List (Option InputEvents)) : Prop :=
  AtEach (fun before r => r = none → ¬Flips (lastDelivered garbage before)) rs

theorem recvRun_concat (s : SeqState) (rs : List (Option InputEvents))
    (r : Option InputEvents) : recvRun s (rs ++ [r]) = seqTaskIter r (recvRun s rs) := by
  rw [recvRun, List.foldl_append]
  rfl

theorem recvRun_cons (s : SeqState) (r : Option InputEvents) (rs : List (Option InputEvents)) :
    recvRun s (r :: rs) = recvRun (seqTaskIter r s) rs := rfl

theorem seqTaskIter_buffer (r : Option InputEvents) (s : SeqState) :
    (seqTaskIter r s).inputEvents = seqInputQueueGet r s.inputEvents := rfl

private theorem delivered_concat (rs : List (Option InputEvents)) (r : Option InputEvents) :
    delivered (rs ++ [r]) = delivered rs ++ r.toList := by
  rw [delivered, List.filterMap_append]
  cases r <;> rfl

private theorem applied_concat (s : SeqState) (rs : List (Option InputEvents))
    (r : Option InputEvents) :
    applied s (rs ++ [r]) =
      applied s rs ++ [seqInputQueueGet r (recvRun s rs).inputEvents] := by
  induction rs generalizing s with
  | nil => rfl
  | cons first rs ih =>
    rw [List.cons_append, applied, ih, applied, recvRun_cons, List.cons_append]

theorem recvRun_buffer (s : SeqState) (rs : List (Option InputEvents)) :
    (recvRun s rs).inputEvents = lastDelivered s.inputEvents rs := by
  induction rs using List.reverseRecOn with
  | nil => rfl
  | append_singleton rs r ih =>
    rw [recvRun_concat, seqTaskIter_buffer, ih, lastDelivered, lastDelivered, delivered_concat]
    cases r with
    | none => rw [Option.toList_none, List.append_nil, seqInputQueueGet, Option.getD_none]
    | some e => rw [Option.toList_some, List.getLastD_concat, seqInputQueueGet, Option.getD_some]

private theorem delivered_le_applied (s : SeqState) (rs : List (Option InputEvents)) :
    ((delivered rs).filter fun e => decide (Flips e)).length ≤
      ((applied s rs).filter fun e => decide (Flips e)).length := by
  induction rs using List.reverseRecOn with
  | nil => exact Nat.le_refl _
  | append_singleton rs r ih =>
    rw [delivered_concat, applied_concat, List.filter_append, List.filter_append,
      List.length_append, List.length_append]
    cases r with
    | none =>
      have hnone : ((none : Option InputEvents).toList.filter
        fun e => decide (Flips e)).length = 0 := rfl
      omega
    | some e => exact Nat.add_le_add_right ih _

private theorem applied_once_iff (s : SeqState) (rs : List (Option InputEvents)) :
    (applied s rs).filter (fun e => decide (Flips e)) =
        (delivered rs).filter (fun e => decide (Flips e)) ↔
      StaleWithoutPress s.inputEvents rs := by
  induction rs using List.reverseRecOn with
  | nil => exact iff_of_true rfl (atEach_nil _)
  | append_singleton rs r ih =>
    rw [StaleWithoutPress, atEach_concat, ← StaleWithoutPress, ← ih, applied_concat,
      delivered_concat, List.filter_append, List.filter_append, recvRun_buffer]
    cases r with
    | some e =>
      have hget : ∀ e', seqInputQueueGet (some e) e' = e := fun _ => rfl
      rw [Option.toList_some, hget, List.append_left_inj]
      simp
    | none =>
      have hget : ∀ e', seqInputQueueGet none e' = e' := fun _ => rfl
      rw [hget]
      by_cases hflip : Flips (lastDelivered s.inputEvents rs)
      · -- a press applied once more is never made up for
        have hlength := delivered_le_applied s rs
        refine iff_of_false ?_ (fun h => h.2 rfl hflip)
        intro heq
        have hlen := congrArg List.length heq
        simp only [List.length_append, List.filter_cons, hflip, decide_true, ↓reduceIte,
          List.filter_nil, List.length_singleton, Option.toList_none, List.length_nil] at hlen
        omega
      · simp [hflip]

theorem recvRun_rendered (garbage : InputEvents) (state : MachineState)
    (rs : List (Option InputEvents)) :
    Rendered (recvRun (SeqState.start garbage state) rs) := by
  induction rs using List.reverseRecOn with
  | nil => exact rendered_start garbage state
  | append_singleton rs r ih =>
    rw [recvRun_concat]
    exact ih.iter r

private theorem seqTaskIter_idle {s : SeqState} (h : Rendered s) (hstale : ¬Flips s.inputEvents) :
    seqTaskIter none s = s := by
  have hsequence : seqStepToggle s.sequence s.inputEvents s.state = s.sequence :=
    seqStepToggle_no_press _ _ _ (not_not.mp hstale)
  change { s with
    inputEvents := s.inputEvents
    sequence := seqStepToggle s.sequence s.inputEvents s.state
    kbLedData := kbLEDDataSend (seqStepToggle s.sequence s.inputEvents s.state) s.state } = s
  rw [hsequence, ← h.frame]

private theorem recvRun_filter {garbage : InputEvents} {rs : List (Option InputEvents)}
    (state : MachineState) (h : StaleWithoutPress garbage rs) :
    recvRun (SeqState.start garbage state) (rs.filter Option.isSome) =
      recvRun (SeqState.start garbage state) rs := by
  apply foldl_filter_of_idle (fun s r => seqTaskIter r s) Option.isSome
  intro before r after hrs hnone
  have hr : r = none := by simpa using hnone
  subst hr
  apply seqTaskIter_idle (recvRun_rendered garbage state before)
  have hbuffer := recvRun_buffer (SeqState.start garbage state) before
  have hstale := h before none after hrs rfl
  rw [hbuffer]
  exact hstale

/-- Failed receives are harmless on exactly the runs in which each of them finds a buffer
without a pressed key. -/
theorem receive_harmless_iff (garbage : InputEvents) (state : MachineState)
    (rs : List (Option InputEvents)) :
    ReceiveHarmless (SeqState.start garbage state) rs ↔ StaleWithoutPress garbage rs := by
  constructor
  · intro h
    exact (applied_once_iff (SeqState.start garbage state) rs).mp h.once
  · intro h
    refine ⟨?_, ?_, (applied_once_iff (SeqState.start garbage state) rs).mpr h⟩
    · intro pre hpre
      rw [recvRun_filter state (h.of_prefix hpre)]
    · intro pre hpre
      rw [recvRun_filter state (h.of_prefix hpre)]

def pressOne : InputEvents := { InputEvents.zero with
  buttonEvents := { ButtonEvents.cleared with justPressed := ⟨1, 0⟩ } }

/-- After a press of key 1 a failed receive takes the press back. -/
theorem failed_receive_toggles_again :
    ¬ReceiveHarmless (SeqState.start InputEvents.zero MachineState.zero)
      [some pressOne, none] := by
  intro h
  have hpattern := congrArg (fun seq => (stepAt seq MachineState.zero 0).type)
    (h.pattern [some pressOne, none] (List.prefix_refl _))
  revert hpattern
  decide

end DrumMachine
