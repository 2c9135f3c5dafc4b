import DrumMachine.Firmware.Sequencer
import DrumMachine.Framework.Lens

/-!
# Toggling as a group of period two

`seqStepToggle` works through the lens on the types of the current page and adds there, in
the last bit, the presses of each key. Runs of it are therefore determined by one parity for
each key, and nothing outside those types takes part.
-/

namespace DrumMachine

open Framework

def typeLens : Lens StepData (BitVec 32) where
  get d := d.type
  set type d := { d with type }
  get_set _ _ := rfl
  set_get _ := rfl
  set_set _ _ _ := rfl

def stepsLens : Lens PageData (Vector StepData 16) where
  get p := p.step
  set step p := { p with step }
  get_set _ _ := rfl
  set_get _ := rfl
  set_set _ _ _ := rfl

def pagesLens : Lens SeqData (Vector PageData 16) where
  get s := s.page
  set page s := { s with page }
  get_set _ _ := rfl
  set_get _ := rfl
  set_set _ _ _ := rfl

@[simp]
theorem stepsLens_modify_length (f : Vector StepData 16 → Vector StepData 16) (p : PageData) :
    (stepsLens.modify f p).length = p.length := rfl

@[simp]
theorem pagesLens_modify_length (f : Vector PageData 16 → Vector PageData 16) (s : SeqData) :
    (pagesLens.modify f s).length = s.length := rfl

/-- The types of `seq[CUR_SEQ].page[CUR_PAGE].step`. -/
def curTypes (state : MachineState) : Lens Sequence (Fin 16 → BitVec 32) :=
  (Lens.cell (curSeq state)).comp <| pagesLens.comp <|
    (Lens.cell (curPage state)).comp <| stepsLens.comp <| Lens.each typeLens

theorem curTypes_modify (state : MachineState) (f : (Fin 16 → BitVec 32) → Fin 16 → BitVec 32) :
    (curTypes state).modify f =
      (Lens.cell (curSeq state)).modify (pagesLens.modify
        ((Lens.cell (curPage state)).modify (stepsLens.modify
          ((Lens.each typeLens).modify f)))) := by
  rw [curTypes, Lens.comp_modify, Lens.comp_modify, Lens.comp_modify, Lens.comp_modify]

theorem modifyType_eq (seq : Sequence) (state : MachineState) (i : Fin 16)
    (f : BitVec 32 → BitVec 32) :
    modifyType seq state i f =
      (curTypes state).modify (fun types => Function.update types i (f (types i))) seq := by
  have hstep : ∀ step : Vector StepData 16,
      (Lens.each typeLens).modify (fun types => Function.update types i (f (types i))) step =
        step.set i.val { step[i.val] with type := f step[i.val].type } := by
    intro step
    apply Vector.ext
    intro j hj
    refine (Lens.each_modify typeLens _ step ⟨j, hj⟩).trans ?_
    by_cases hij : i.val = j
    · subst j
      rw [Function.update_self, Vector.getElem_set_self]
      rfl
    · have hne : (⟨j, hj⟩ : Fin 16) ≠ i := fun h => hij (congrArg Fin.val h).symm
      rw [Function.update_of_ne hne, Vector.getElem_set_ne _ _ hij]
      exact typeLens.set_get step[j]
  rw [curTypes_modify, funext hstep]
  rfl

theorem seqStepToggle_eq (seq : Sequence) (events : InputEvents) (state : MachineState) :
    seqStepToggle seq events state =
      (curTypes state).modify (fun types i => types i ^^^ pressBit events i) seq := by
  have hbody : toggleStep events state = fun i => (curTypes state).modify fun types =>
      Function.update types i (types i ^^^ pressBit events i) := by
    funext i seq
    exact modifyType_eq seq state i _
  have hloop : forLoop 16 (fun i types => Function.update types i (types i ^^^ pressBit events i)) =
      fun types i => types i ^^^ pressBit events i := by
    funext types i
    apply forLoop_cells _ (fun i (types : Fin 16 → BitVec 32) => types i)
      (fun i type => type ^^^ pressBit events i)
    · intro i types
      exact Function.update_self ..
    · intro i j types hne
      exact Function.update_of_ne hne ..
  rw [seqStepToggle, hbody, Lens.forLoop_modify, hloop]

/-- The two sequences agree outside the types of the current page. -/
structure SameButTypes (state : MachineState) (seq seq' : Sequence) : Prop where
  otherPage : ∀ q p, (q, p) ≠ (curSeq state, curPage state) →
    (seq'.get q).page.get p = (seq.get q).page.get p
  length : ∀ q, (seq'.get q).length = (seq.get q).length
  pageLength : ∀ q p, ((seq'.get q).page.get p).length = ((seq.get q).page.get p).length
  tupletLength : ∀ q p i, (((seq'.get q).page.get p).step.get i).tupletLength =
    (((seq.get q).page.get p).step.get i).tupletLength
  tupletData : ∀ q p i, (((seq'.get q).page.get p).step.get i).tupletData =
    (((seq.get q).page.get p).step.get i).tupletData

private theorem curTypes_modify_page (seq : Sequence) (state : MachineState)
    (f : (Fin 16 → BitVec 32) → Fin 16 → BitVec 32) (p : Fin 16) :
    (((curTypes state).modify f seq).get (curSeq state)).page.get p =
      if p = curPage state then stepsLens.modify ((Lens.each typeLens).modify f)
        ((seq.get (curSeq state)).page.get p)
      else (seq.get (curSeq state)).page.get p := by
  rw [curTypes_modify, Lens.cell_modify_self]
  change ((Lens.cell (curPage state)).modify _ (seq.get (curSeq state)).page).get p = _
  by_cases hp : p = curPage state
  · subst p
    rw [Lens.cell_modify_self, if_pos rfl]
  · rw [Lens.cell_modify_ne hp, if_neg hp]

private theorem curTypes_modify_step (seq : Sequence) (state : MachineState)
    (f : (Fin 16 → BitVec 32) → Fin 16 → BitVec 32) (p i : Fin 16) :
    ∃ type, ((((curTypes state).modify f seq).get (curSeq state)).page.get p).step.get i =
      { ((seq.get (curSeq state)).page.get p).step.get i with type } := by
  rw [curTypes_modify_page]
  split_ifs
  · exact ⟨_, Lens.each_modify typeLens f _ i⟩
  · exact ⟨_, rfl⟩

theorem curTypes_modify_frame (seq : Sequence) (state : MachineState)
    (f : (Fin 16 → BitVec 32) → Fin 16 → BitVec 32) :
    SameButTypes state seq ((curTypes state).modify f seq) where
  otherPage := by
    intro q p hne
    obtain rfl : q = curSeq state := Subsingleton.elim _ _
    have hp : p ≠ curPage state := fun h => hne (by rw [h])
    rw [curTypes_modify_page, if_neg hp]
  length := by
    intro q
    obtain rfl : q = curSeq state := Subsingleton.elim _ _
    rw [curTypes_modify, Lens.cell_modify_self, pagesLens_modify_length]
  pageLength := by
    intro q p
    obtain rfl : q = curSeq state := Subsingleton.elim _ _
    rw [curTypes_modify_page]
    split_ifs <;> simp
  tupletLength := by
    intro q p i
    obtain rfl : q = curSeq state := Subsingleton.elim _ _
    obtain ⟨type, htype⟩ := curTypes_modify_step seq state f p i
    rw [htype]
  tupletData := by
    intro q p i
    obtain rfl : q = curSeq state := Subsingleton.elim _ _
    obtain ⟨type, htype⟩ := curTypes_modify_step seq state f p i
    rw [htype]

def toggleEvents (seq : Sequence) (state : MachineState) (events : List InputEvents) :
    Sequence :=
  events.foldl (fun seq event => seqStepToggle seq event state) seq

private theorem foldl_types (types : Fin 16 → BitVec 32) (events : List InputEvents)
    (i : Fin 16) :
    events.foldl (fun types event i => types i ^^^ pressBit event i) types i =
      types i ^^^ BitVec.ofNat 32 (pressesOf events i % 2) := by
  rw [← foldl_pressBit]
  induction events generalizing types with
  | nil => rfl
  | cons event events ih => rw [List.foldl_cons, List.foldl_cons, ih]

theorem toggleEvents_eq (seq : Sequence) (state : MachineState) (events : List InputEvents) :
    toggleEvents seq state events = (curTypes state).modify
      (fun types i => types i ^^^ BitVec.ofNat 32 (pressesOf events i % 2)) seq := by
  have hstep : (fun (seq : Sequence) event => seqStepToggle seq event state) =
      fun seq event =>
        (curTypes state).modify (fun types i => types i ^^^ pressBit event i) seq := by
    funext seq event
    exact seqStepToggle_eq seq event state
  have htypes : (fun types => events.foldl
      (fun types event i => types i ^^^ pressBit event i) types) =
      fun types i => types i ^^^ BitVec.ofNat 32 (pressesOf events i % 2) := by
    funext types i
    exact foldl_types types events i
  rw [toggleEvents, hstep, Lens.foldl_modify, htypes]

theorem toggleEvents_frame (seq : Sequence) (state : MachineState) (events : List InputEvents) :
    SameButTypes state seq (toggleEvents seq state events) := by
  rw [toggleEvents_eq]
  exact curTypes_modify_frame seq state _

theorem type_toggleEvents (seq : Sequence) (state : MachineState) (events : List InputEvents)
    (i : Fin 16) :
    (stepAt (toggleEvents seq state events) state i).type =
      (stepAt seq state i).type ^^^ BitVec.ofNat 32 (pressesOf events i % 2) := by
  rw [toggleEvents_eq]
  exact congrFun ((curTypes state).get_modify _ seq) i

theorem toggleEvents_congr (seq : Sequence) (state : MachineState)
    {events events' : List InputEvents}
    (h : ∀ i, pressesOf events i % 2 = pressesOf events' i % 2) :
    toggleEvents seq state events = toggleEvents seq state events' := by
  rw [toggleEvents_eq, toggleEvents_eq]
  simp only [h]

theorem pressesOf_perm {events events' : List InputEvents} (h : events.Perm events')
    (i : Fin 16) : pressesOf events i = pressesOf events' i := h.countP_eq _

theorem pressesOf_pair (before between after : List InputEvents) (event : InputEvents)
    (i : Fin 16) :
    pressesOf (before ++ event :: (between ++ event :: after)) i % 2 =
      pressesOf (before ++ (between ++ after)) i % 2 := by
  simp only [pressesOf, List.countP_append, List.countP_cons]
  split_ifs <;> omega

theorem pressesOf_rows {events events' : List InputEvents}
    (h : events.map (·.buttonEvents.justPressed.mainRow) =
      events'.map (·.buttonEvents.justPressed.mainRow)) (i : Fin 16) :
    pressesOf events i = pressesOf events' i := by
  have hrows : ∀ events, pressesOf events i =
      (events.map (·.buttonEvents.justPressed.mainRow)).countP (·.getLsbD i.val) := by
    intro events
    rw [List.countP_map]
    rfl
  rw [hrows, h, ← hrows]

/-- Toggling is the action of a commutative group of period two on the types of the current
page, generated by the rows of pressed keys. -/
theorem toggling_is_group_action (seq : Sequence) (state : MachineState)
    (events : List InputEvents) :
    (∀ i, (stepAt (toggleEvents seq state events) state i).type =
      (stepAt seq state i).type ^^^ BitVec.ofNat 32 (pressesOf events i % 2)) ∧
    SameButTypes state seq (toggleEvents seq state events) ∧
    (∀ events', events.Perm events' →
      toggleEvents seq state events' = toggleEvents seq state events) ∧
    (∀ before between after event, events = before ++ event :: (between ++ event :: after) →
      toggleEvents seq state (before ++ (between ++ after)) = toggleEvents seq state events) ∧
    (∀ events', events'.map (·.buttonEvents.justPressed.mainRow) =
        events.map (·.buttonEvents.justPressed.mainRow) →
      toggleEvents seq state events' = toggleEvents seq state events) := by
  refine ⟨type_toggleEvents seq state events, toggleEvents_frame seq state events, ?_, ?_, ?_⟩
  · intro events' hperm
    apply toggleEvents_congr
    intro i
    rw [pressesOf_perm hperm]
  · intro before between after event hevents
    apply toggleEvents_congr
    intro i
    rw [hevents, pressesOf_pair]
  · intro events' hrows
    apply toggleEvents_congr
    intro i
    rw [pressesOf_rows hrows]

def rowEvent (row : BitVec 16) : InputEvents :=
  { InputEvents.zero with buttonEvents := { ButtonEvents.cleared with justPressed := ⟨row, 0⟩ } }

theorem toggling_is_group_action_chord :
    let toggled := toggleEvents Sequence.zero MachineState.zero
    let events := [rowEvent 1, rowEvent 0x8001, rowEvent 1]
    toggled [rowEvent 0x8001, rowEvent 1, rowEvent 1] = toggled events ∧
      toggled [rowEvent 0x8001] = toggled events ∧
      toggled [{ rowEvent 1 with encRotation := 5 }, rowEvent 0x8001, rowEvent 1] =
        toggled events := by
  intro toggled events
  obtain ⟨-, -, hperm, hpair, hrows⟩ :=
    toggling_is_group_action Sequence.zero MachineState.zero events
  exact ⟨hperm _ (List.Perm.swap _ _ _), hpair [] [rowEvent 0x8001] [] (rowEvent 1) rfl,
    hrows _ rfl⟩

end DrumMachine
