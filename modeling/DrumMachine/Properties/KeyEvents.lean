import DrumMachine.Firmware.ScanStream
import DrumMachine.Framework.Positions

/-!
# What the key events say about the keyboard

The edges of the main row can be decoded back into its scans. The held keys and the
function keys of the same events are right on part of the scans only, and the exact part
is determined.
-/

namespace DrumMachine

open Framework

def scanStart (e : InputEvents) : InputState := ⟨Chain.zero, e⟩

theorem scanStart_row (e : InputEvents) (scans : List Chain) :
    mainRow (scanState (scanStart e) scans).buttonDataPrev = mainRow (lastScan scans) :=
  scanState_row e scans

theorem scanStart_zero (e : InputEvents) : mainRow (scanStart e).buttonDataPrev = 0 := by
  change mainRow Chain.zero = 0
  decide

theorem scanStart_decode (e : InputEvents) (scans : List Chain) :
    (emitted (scanStart e) scans).foldl followMainRow 0 = mainRow (lastScan scans) := by
  have h := foldl_followMainRow_emitted (scanStart e) scans
  have hlast : (scans.map mainRow).getLastD (mainRow (scanStart e).buttonDataPrev) =
      mainRow (lastScan scans) := List.getLastD_map
  rw [hlast, scanStart_zero] at h
  exact h

private theorem mask_disjoint (x y : BitVec 16) : (x &&& ~~~y) &&& (y &&& ~~~x) = 0 := by
  apply BitVec.eq_of_getLsbD_eq
  intro i hi
  simp only [BitVec.getLsbD_and, BitVec.getLsbD_not, hi]
  cases x.getLsbD i <;> cases y.getLsbD i <;> simp

private theorem mask_union (x y : BitVec 16) : (x &&& ~~~y) ||| (y &&& ~~~x) = y ^^^ x := by
  apply BitVec.eq_of_getLsbD_eq
  intro i hi
  simp only [BitVec.getLsbD_and, BitVec.getLsbD_or, BitVec.getLsbD_xor, BitVec.getLsbD_not, hi]
  cases x.getLsbD i <;> cases y.getLsbD i <;> rfl

/-- The main-row edges lose nothing: the flag tells the changed scans from the repeated
ones, presses and releases split the changed bits, and decoding them gives back the row,
so equal edges come from equal histories up to repeated scans. -/
theorem mainRow_lossless (e : InputEvents) :
    (∀ scans d,
      ((highByte d ≠ highByte (lastScan scans) ∨ lowByte d ≠ lowByte (lastScan scans)) →
        (kbParseButtons d (scanState (scanStart e) scans)).1 = 1) ∧
      (d = lastScan scans → (kbParseButtons d (scanState (scanStart e) scans)).1 = 0) ∧
      ∀ event, scanEvent d (scanState (scanStart e) scans) = some event →
        event.buttonEvents.justPressed.mainRow &&&
            event.buttonEvents.justReleased.mainRow = 0 ∧
          event.buttonEvents.justPressed.mainRow |||
            event.buttonEvents.justReleased.mainRow =
              mainRow (lastScan scans) ^^^ mainRow d) ∧
    (∀ scans, (emitted (scanStart e) scans).foldl followMainRow 0 =
      mainRow (lastScan scans)) ∧
    ∀ e' scans scans', (emitted (scanStart e) scans).map mainRowEdge =
        (emitted (scanStart e') scans').map mainRowEdge →
      (0 :: scans.map mainRow).destutter (· ≠ ·) =
        (0 :: scans'.map mainRow).destutter (· ≠ ·) := by
  refine ⟨?_, scanStart_decode e, ?_⟩
  · intro scans d
    refine ⟨?_, ?_, ?_⟩
    · intro hchanged
      have hrow : mainRow d ≠ mainRow (scanState (scanStart e) scans).buttonDataPrev := by
        rw [scanStart_row, Ne, mainRow_eq_iff, not_and_or]
        exact hchanged
      rw [kbParseButtons_changed hrow]
    · intro hsame
      have hrow : mainRow d = mainRow (scanState (scanStart e) scans).buttonDataPrev := by
        rw [scanStart_row, hsame]
      rw [kbParseButtons_same hrow]
    · intro event hevent
      obtain ⟨-, hsplit⟩ := scanEvent_eq_some hevent
      rw [hsplit, splitEvents, scanStart_row]
      exact ⟨mask_disjoint _ _, mask_union _ _⟩
  · intro e' scans scans' h
    have hcode := emitted_edges (scanStart e) scans
    have hcode' := emitted_edges (scanStart e') scans'
    rw [scanStart_zero] at hcode hcode'
    have hedges : edges (bits 0) (scans.map fun d => bits (mainRow d)) =
        edges (bits 0) (scans'.map fun d => bits (mainRow d)) := by
      have hmap := congrArg (List.map (Prod.map bits bits)) h
      rw [List.map_map, List.map_map] at hmap
      exact hcode.symm.trans (hmap.trans hcode')
    have hbits := destutter_eq_of_edges_eq (bits 0) hedges
    have hcomp : (fun d => bits (mainRow d)) = bits ∘ mainRow := rfl
    rw [hcomp, ← List.map_map, ← List.map_map, ← List.map_cons, ← List.map_cons,
      ← List.map_destutter_ne _ bits_injective, ← List.map_destutter_ne _ bits_injective]
      at hbits
    exact bits_injective.list_map hbits

theorem mainRow_lossless_chord :
    (kbParseButtons #v[0x80, 0x01, 0] (scanState (scanStart InputEvents.zero) [])).1 = 1 ∧
      (0 :: [#v[0x80, 0x01, 0]].map mainRow).destutter (· ≠ ·) =
        (0 :: [#v[0, 0, 0], #v[0x80, 0x01, 0]].map mainRow).destutter (· ≠ ·) :=
  ⟨((mainRow_lossless InputEvents.zero).1 [] _).1 (by decide),
    (mainRow_lossless InputEvents.zero).2.2 InputEvents.zero _ _ (by decide)⟩

section Held

def HeldComplete (e : InputEvents) (scans : List Chain) : Prop :=
  AtEach (fun before d =>
    (kbParseButtons d (scanState (scanStart e) before)).1 = 1 →
      (kbParseButtons d (scanState (scanStart e) before)).2.inputEvents.buttonEvents.isHeld.mainRow
        = mainRow d) scans

def lastHeld (events : List InputEvents) : BitVec 16 :=
  (events.map fun event => event.buttonEvents.isHeld.mainRow).getLastD 0

/-- Each held row follows from the one before it by the presses and the releases. -/
def HeldFollows (events : List InputEvents) : Prop :=
  AtEach (fun before event =>
    event.buttonEvents.isHeld.mainRow = followMainRow (lastHeld before) event) events

/-- A byte of the main row that a scan leaves as it was, while the other one changes, has
no key down. -/
def QuietByteUp (last d : Chain) : Prop :=
  (highByte d ≠ highByte last → lowByte d = lowByte last → lowByte d = 0) ∧
    (lowByte d ≠ lowByte last → highByte d = highByte last → highByte d = 0)

private theorem changedRow_eq_iff {last d : Chain} (h : mainRow d ≠ mainRow last) :
    changedRow d last = mainRow d ↔ QuietByteUp last d := by
  rw [Ne, mainRow_eq_iff] at h
  rw [changedRow, mainRow_eq_iff, QuietByteUp]
  by_cases h0 : d[0] = last[0] <;> by_cases h1 : d[1] = last[1] <;>
    simp_all [eq_comm]

private theorem quietByteUp_of_same {last d : Chain} (h : mainRow d = mainRow last) :
    QuietByteUp last d := by
  obtain ⟨h0, h1⟩ := (mainRow_eq_iff _ _).mp h
  exact ⟨fun hne => absurd h0 hne, fun hne => absurd h1 hne⟩

private theorem changedRow_congr {d p q : Chain} (h : mainRow p = mainRow q) :
    changedRow d p = changedRow d q := by
  obtain ⟨h0, h1⟩ := (mainRow_eq_iff _ _).mp h
  simp only [changedRow, h0, h1]

private theorem heldComplete_iff (e : InputEvents) (scans : List Chain) :
    HeldComplete e scans ↔ AtEach (fun before d => QuietByteUp (lastScan before) d) scans := by
  apply atEach_congr
  intro before d after _
  have hprev := scanStart_row e before
  by_cases hrow : mainRow d = mainRow (scanState (scanStart e) before).buttonDataPrev
  · rw [kbParseButtons_same hrow]
    have hquiet := quietByteUp_of_same (hrow.trans hprev)
    simp [hquiet]
  · rw [kbParseButtons_changed hrow, ← changedRow_eq_iff (hprev ▸ hrow),
      ← changedRow_congr hprev]
    simp [splitEvents]

private theorem lastHeld_concat (events : List InputEvents) (event : InputEvents) :
    lastHeld (events ++ [event]) = event.buttonEvents.isHeld.mainRow := by
  rw [lastHeld, List.map_append]
  exact List.getLastD_concat

private theorem lastHeld_eq_foldl {events : List InputEvents} (h : HeldFollows events) :
    lastHeld events = events.foldl followMainRow 0 := by
  induction events using List.reverseRecOn with
  | nil => rfl
  | append_singleton events event ih =>
    obtain ⟨hevents, hevent⟩ := (atEach_concat _ events event).mp h
    rw [lastHeld_concat, hevent, ih hevents, List.foldl_append]
    rfl

private theorem heldFollows_iff (e : InputEvents) (scans : List Chain) :
    HeldFollows (emitted (scanStart e) scans) ↔
      AtEach (fun before d => QuietByteUp (lastScan before) d) scans := by
  induction scans using List.reverseRecOn with
  | nil => exact iff_of_true (atEach_nil _) (atEach_nil _)
  | append_singleton scans d ih =>
    have hprev := scanStart_row e scans
    rw [atEach_concat, emitted_concat, ← ih]
    by_cases hrow : mainRow d = mainRow (scanState (scanStart e) scans).buttonDataPrev
    · rw [scanEvent_same hrow]
      have hquiet := quietByteUp_of_same (hrow.trans hprev)
      simp [hquiet]
    · rw [scanEvent_changed hrow, Option.toList_some, HeldFollows, atEach_concat]
      apply and_congr_right
      intro hfollows
      have hdecode := scanStart_decode e (scans ++ [d])
      rw [emitted_concat, scanEvent_changed hrow, lastScan_concat, List.foldl_append] at hdecode
      have hnext : ∀ event : InputEvents, followMainRow (lastHeld (emitted (scanStart e) scans))
          event = [event].foldl followMainRow
            ((emitted (scanStart e) scans).foldl followMainRow 0) := by
        intro event
        rw [lastHeld_eq_foldl hfollows]
        rfl
      rw [hnext, ← changedRow_eq_iff (hprev ▸ hrow), ← changedRow_congr hprev]
      exact Eq.congr_right hdecode

/-- The held rows are complete, and equivalently follow from the edges, on exactly the scan
histories in which a byte with a key down never stays as it was while the other changes. -/
theorem held_complete_iff (e : InputEvents) (scans : List Chain) :
    (HeldComplete e scans ↔ AtEach (fun before d => QuietByteUp (lastScan before) d) scans) ∧
      (HeldFollows (emitted (scanStart e) scans) ↔
        AtEach (fun before d => QuietByteUp (lastScan before) d) scans) :=
  ⟨heldComplete_iff e scans, heldFollows_iff e scans⟩

/-- Key 9 goes down while key 1 is held: the event reports key 9 alone. -/
theorem held_loses_key :
    ¬HeldComplete InputEvents.zero [#v[0, 1, 0], #v[1, 1, 0]] ∧
      ¬HeldFollows (emitted (scanStart InputEvents.zero) [#v[0, 1, 0], #v[1, 1, 0]]) := by
  constructor
  · intro h
    have hlost := h [#v[0, 1, 0]] #v[1, 1, 0] [] rfl
    revert hlost
    decide
  · intro h
    have hlost := h (emitted (scanStart InputEvents.zero) [#v[0, 1, 0]]) _ [] rfl
    revert hlost
    decide

end Held

section Function

def followFunction (row : BitVec 8) (event : InputEvents) : BitVec 8 :=
  (row ||| event.buttonEvents.justPressed.function) &&&
    ~~~event.buttonEvents.justReleased.function

def FunctionEvent (last d : Chain) (result : BitVec 8 × InputState) : Prop :=
  functionByte d ≠ functionByte last → result.1 = 1 ∧
    result.2.inputEvents.buttonEvents.justPressed.function =
      functionByte d &&& ~~~functionByte last ∧
    result.2.inputEvents.buttonEvents.justReleased.function =
      ~~~functionByte d &&& functionByte last

/-- At every scan the function row is reported when it changes, and the events so far
decode to it. -/
def FunctionReported (e : InputEvents) (scans : List Chain) : Prop :=
  AtEach (fun before d =>
    FunctionEvent (lastScan before) d (kbParseButtons d (scanState (scanStart e) before)) ∧
      (emitted (scanStart e) (before ++ [d])).foldl followFunction 0 = functionByte d)
    scans

private theorem foldl_followFunction (s : InputState) (scans : List Chain) :
    (emitted s scans).foldl followFunction 0 = 0 := by
  induction scans using List.reverseRecOn with
  | nil => rfl
  | append_singleton scans d ih =>
    rw [emitted_concat, List.foldl_append, ih]
    by_cases hrow : mainRow d = mainRow (scanState s scans).buttonDataPrev
    · rw [scanEvent_same hrow]
      rfl
    · rw [scanEvent_changed hrow, Option.toList_some, List.foldl_cons, List.foldl_nil]
      simp [followFunction, splitEvents]

/-- The function keys are reported on exactly the scan histories that never show one. -/
theorem function_reported_iff (e : InputEvents) (scans : List Chain) :
    FunctionReported e scans ↔ ∀ d ∈ scans, functionByte d = 0 := by
  constructor
  · intro h d hd
    obtain ⟨before, after, hsplit⟩ := List.append_of_mem hd
    have hdecode := (h before d after hsplit).2
    rw [foldl_followFunction] at hdecode
    exact hdecode.symm
  · intro h before d after hsplit
    have hd : functionByte d = 0 := h d (by simp [hsplit])
    have hlast : functionByte (lastScan before) = 0 := by
      rcases List.eq_nil_or_concat before with rfl | ⟨rest, last, rfl⟩
      · rfl
      · rw [List.concat_eq_append, lastScan_concat]
        exact h last (by simp [hsplit])
    refine ⟨?_, ?_⟩
    · intro hne
      exact absurd (hd.trans hlast.symm) hne
    · rw [foldl_followFunction, hd]

theorem function_key_lost : ¬FunctionReported InputEvents.zero [#v[0, 0, 1]] := by
  intro h
  have hlost := h [] #v[0, 0, 1] [] rfl
  revert hlost
  unfold FunctionEvent
  decide

end Function

end DrumMachine
