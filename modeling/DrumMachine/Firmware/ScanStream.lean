import DrumMachine.Firmware.Keyboard
import DrumMachine.Framework.Edge
import Mathlib.Data.Fintype.Basic

/-!
# Streams of scans

`kbParseButtons` fed with a list of scans. Its emitted events are the edge coding of the
main row: the hidden `button_data_prev` is the level the coder compares with.
-/

namespace DrumMachine

open Framework

def scanState (s : InputState) (scans : List Chain) : InputState :=
  scans.foldl (fun s d => (kbParseButtons d s).2) s

def scanEvent (d : Chain) (s : InputState) : Option InputEvents :=
  if (kbParseButtons d s).1 = 0 then none else some (kbParseButtons d s).2.inputEvents

def emitted (s : InputState) : List Chain → List InputEvents
  | [] => []
  | d :: scans => (scanEvent d s).toList ++ emitted (kbParseButtons d s).2 scans

/-- The scan before the next one; before the first scan every key counts as up. -/
def lastScan (scans : List Chain) : Chain := scans.getLastD Chain.zero

/-- The scan with key 1 down and no other. -/
def keyOneScan : Chain := #v[0, 1, 0]

def rawBit (d : Chain) (i : Fin 16) : Bool :=
  if i.val < 8 then (lowByte d).getLsbD i.val else (highByte d).getLsbD (i.val - 8)

theorem mainRow_rawBit (d : Chain) (i : Fin 16) :
    (mainRow d).getLsbD i.val = rawBit d i := by
  rw [mainRow_getLsbD, rawBit]

@[simp]
theorem lastScan_concat (scans : List Chain) (d : Chain) : lastScan (scans ++ [d]) = d := by
  rw [lastScan, List.getLastD_concat]

theorem scanState_concat (s : InputState) (scans : List Chain) (d : Chain) :
    scanState s (scans ++ [d]) = (kbParseButtons d (scanState s scans)).2 := by
  rw [scanState, List.foldl_append]
  rfl

theorem emitted_concat (s : InputState) (scans : List Chain) (d : Chain) :
    emitted s (scans ++ [d]) = emitted s scans ++ (scanEvent d (scanState s scans)).toList := by
  induction scans generalizing s with
  | nil => simp [emitted, scanState]
  | cons first scans ih =>
    rw [List.cons_append, emitted, ih, emitted, List.append_assoc]
    rfl

theorem kbParseButtons_row (d : Chain) (s : InputState) :
    mainRow (kbParseButtons d s).2.buttonDataPrev = mainRow d := by
  by_cases h : mainRow d = mainRow s.buttonDataPrev
  · rw [kbParseButtons_same h, h]
  · rw [kbParseButtons_changed h, mainRow_eq_iff]
    exact ⟨rfl, rfl⟩

theorem scanState_row (e : InputEvents) (scans : List Chain) :
    mainRow (scanState ⟨Chain.zero, e⟩ scans).buttonDataPrev = mainRow (lastScan scans) := by
  induction scans using List.reverseRecOn with
  | nil => rfl
  | append_singleton scans d _ => rw [scanState_concat, kbParseButtons_row, lastScan_concat]

theorem scanEvent_same {d : Chain} {s : InputState}
    (h : mainRow d = mainRow s.buttonDataPrev) : scanEvent d s = none := by
  rw [scanEvent, kbParseButtons_same h, if_pos rfl]

theorem scanEvent_changed {d : Chain} {s : InputState}
    (h : mainRow d ≠ mainRow s.buttonDataPrev) :
    scanEvent d s =
      some { s.inputEvents with buttonEvents := splitEvents d s.buttonDataPrev } := by
  rw [scanEvent, kbParseButtons_changed h]
  rfl

theorem scanEvent_eq_some {d : Chain} {s : InputState} {event : InputEvents}
    (h : scanEvent d s = some event) :
    mainRow d ≠ mainRow s.buttonDataPrev ∧
      event.buttonEvents = splitEvents d s.buttonDataPrev := by
  by_cases hrow : mainRow d = mainRow s.buttonDataPrev
  · rw [scanEvent_same hrow] at h
    cases h
  · rw [scanEvent_changed hrow] at h
    cases h
    exact ⟨hrow, rfl⟩

def mainRowEdge (event : InputEvents) : BitVec 16 × BitVec 16 :=
  (event.buttonEvents.justPressed.mainRow, event.buttonEvents.justReleased.mainRow)

def followMainRow (row : BitVec 16) (event : InputEvents) : BitVec 16 :=
  (row ||| event.buttonEvents.justPressed.mainRow) &&&
    ~~~event.buttonEvents.justReleased.mainRow

theorem bits_followMainRow (row : BitVec 16) (event : InputEvents) :
    bits (followMainRow row event) =
      follow (bits row) ((mainRowEdge event).map bits bits) := by
  rw [followMainRow, bits_and_not, bits_or]
  rfl

/-- The emitted events are the edge coding of the main row. -/
theorem emitted_edges (s : InputState) (scans : List Chain) :
    (emitted s scans).map (fun event => (mainRowEdge event).map bits bits) =
      edges (bits (mainRow s.buttonDataPrev)) (scans.map fun d => bits (mainRow d)) := by
  induction scans generalizing s with
  | nil => rfl
  | cons d scans ih =>
    rw [emitted, List.map_append, ih, kbParseButtons_row, List.map_cons, edges]
    by_cases h : mainRow d = mainRow s.buttonDataPrev
    · rw [scanEvent_same h, h, if_pos rfl]
      rfl
    · rw [scanEvent_changed h, if_neg (bits_injective.ne h)]
      simp only [Option.toList_some, List.map_cons, List.map_nil, mainRowEdge, splitEvents,
        Prod.map_apply, bits_and_not, List.singleton_append]
      rfl

/-- Decoding the emitted events gives the row of the last scan. -/
theorem foldl_followMainRow_emitted (s : InputState) (scans : List Chain) :
    (emitted s scans).foldl followMainRow (mainRow s.buttonDataPrev) =
      (scans.map mainRow).getLastD (mainRow s.buttonDataPrev) := by
  apply bits_injective
  have hdecode := foldl_follow_edges (bits (mainRow s.buttonDataPrev))
    (scans.map fun d => bits (mainRow d))
  rw [← emitted_edges, List.foldl_map] at hdecode
  have hhom : (emitted s scans).foldl
      (fun row event => follow row ((mainRowEdge event).map bits bits))
        (bits (mainRow s.buttonDataPrev)) =
      bits ((emitted s scans).foldl followMainRow (mainRow s.buttonDataPrev)) :=
    List.foldl_hom bits fun row event => (bits_followMainRow row event).symm
  have hmap : (scans.map fun d => bits (mainRow d)) = (scans.map mainRow).map bits := by
    rw [List.map_map]
    rfl
  rw [← hhom, hdecode, hmap, List.getLastD_map]

end DrumMachine
