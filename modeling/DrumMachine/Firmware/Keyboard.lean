import DrumMachine.Framework.Loop
import DrumMachine.Framework.Word

/-!
# Keyboard decoder

`keyboard.h` and `kbParseButtons` of `keyboard.c`: the previous scan is compared with the
current one byte by byte, and the changed bytes are spread over the events of the main row.
-/

namespace DrumMachine

open Framework

/-- `KB_CHAIN_LENGTH` bytes, one for each shift register of the chain. -/
abbrev Chain := Vector (BitVec 8) 3

structure ButtonData where
  mainRow : BitVec 16
  function : BitVec 8
deriving DecidableEq

structure ButtonEvents where
  isHeld : ButtonData
  justPressed : ButtonData
  justReleased : ButtonData
deriving DecidableEq

structure InputEvents where
  buttonEvents : ButtonEvents
  encButton : BitVec 8
  encRotation : BitVec 32
deriving DecidableEq

def ButtonEvents.cleared : ButtonEvents := ⟨⟨0, 0⟩, ⟨0, 0⟩, ⟨0, 0⟩⟩

def InputEvents.zero : InputEvents := ⟨ButtonEvents.cleared, 0, 0⟩

def Chain.zero : Chain := #v[0, 0, 0]

/-- The bytes of a scan: keys 9 to 16, keys 1 to 8 and the function keys. -/
abbrev highByte (buttonData : Chain) : BitVec 8 := buttonData[0]

abbrev lowByte (buttonData : Chain) : BitVec 8 := buttonData[1]

abbrev functionByte (buttonData : Chain) : BitVec 8 := buttonData[2]

/-- The bytes of a frame of the LEDs, which has the function row first. -/
abbrev functionLeds (ledData : Chain) : BitVec 8 := ledData[0]

abbrev lowLeds (ledData : Chain) : BitVec 8 := ledData[1]

abbrev highLeds (ledData : Chain) : BitVec 8 := ledData[2]

/-- The two statics behind a scan: `button_data_prev` of `kbParseButtons` and
`input_events` of `inputTaskEntry`. -/
structure InputState where
  buttonDataPrev : Chain
  inputEvents : InputEvents
deriving DecidableEq

def InputState.zero : InputState := ⟨Chain.zero, InputEvents.zero⟩

structure ParseLocals where
  update : BitVec 8
  isHeld : Chain
  justPressed : Chain
  justReleased : Chain
  buttonDataPrev : Chain

def parseByte (buttonData : Chain) (i : Fin 2) (l : ParseLocals) : ParseLocals :=
  if buttonData[i.val] ≠ l.buttonDataPrev[i.val] then
    { update := 1
      isHeld := l.isHeld.set i.val buttonData[i.val]
      justPressed := l.justPressed.set i.val (buttonData[i.val] &&& ~~~l.buttonDataPrev[i.val])
      justReleased := l.justReleased.set i.val (~~~buttonData[i.val] &&& l.buttonDataPrev[i.val])
      buttonDataPrev := l.buttonDataPrev.set i.val buttonData[i.val] }
  else l

/-- Byte `i` of the chain at its place in the row: byte 0 holds keys 16 to 9, byte 1 keys
8 to 1. -/
def placeByte (bytes : Chain) (i : Fin 2) : BitVec 16 :=
  bytes[i.val].setWidth 16 <<< ((1 - i.val) * 8)

def placeEvents (l : ParseLocals) (i : Fin 2) (e : ButtonEvents) : ButtonEvents :=
  { isHeld := { e.isHeld with mainRow := e.isHeld.mainRow ||| placeByte l.isHeld i }
    justPressed :=
      { e.justPressed with mainRow := e.justPressed.mainRow ||| placeByte l.justPressed i }
    justReleased :=
      { e.justReleased with mainRow := e.justReleased.mainRow ||| placeByte l.justReleased i } }

/-- The function fields are copied from byte 2 of the masks. -/
def copyFunction (l : ParseLocals) (e : ButtonEvents) : ButtonEvents :=
  { isHeld := { e.isHeld with function := l.isHeld[2] }
    justPressed := { e.justPressed with function := l.justPressed[2] }
    justReleased := { e.justReleased with function := l.justReleased[2] } }

def parseLocals (buttonData buttonDataPrev : Chain) : ParseLocals :=
  -- the bound is 2 and not `KB_CHAIN_LENGTH`: byte 2 is not looked at
  forLoop 2 (parseByte buttonData) ⟨0, Chain.zero, Chain.zero, Chain.zero, buttonDataPrev⟩

def kbParseButtons (buttonData : Chain) (s : InputState) : BitVec 8 × InputState :=
  let l := parseLocals buttonData s.buttonDataPrev
  if l.update = 0 then
    -- returns before the `memset`, so the buffer keeps the events of an earlier scan
    (l.update, { s with buttonDataPrev := l.buttonDataPrev })
  else
    let e := copyFunction l (forLoop 2 (placeEvents l) ButtonEvents.cleared)
    (l.update,
      { buttonDataPrev := l.buttonDataPrev
        inputEvents := { s.inputEvents with buttonEvents := e } })

def mainRow (d : Chain) : BitVec 16 := d[0].setWidth 16 <<< 8 ||| d[1].setWidth 16

theorem Chain.ext {d e : Chain} (h0 : d[0] = e[0]) (h1 : d[1] = e[1]) (h2 : d[2] = e[2]) :
    d = e := by
  apply Vector.ext
  intro i hi
  match i, hi with
  | 0, _ => exact h0
  | 1, _ => exact h1
  | 2, _ => exact h2

theorem mainRow_getLsbD (d : Chain) (i : Nat) :
    (mainRow d).getLsbD i = if i < 8 then d[1].getLsbD i else d[0].getLsbD (i - 8) := by
  rw [mainRow, BitVec.getLsbD_or, BitVec.getLsbD_shiftLeft, BitVec.getLsbD_setWidth,
    BitVec.getLsbD_setWidth]
  by_cases hi : i < 8
  · have hi' : i < 16 := by omega
    simp [hi, hi']
  · have hlow : d[1].getLsbD i = false := BitVec.getLsbD_of_ge _ _ (by omega)
    rw [hlow, if_neg hi]
    by_cases hi' : i < 16
    · have hsub : i - 8 < 16 := by omega
      simp [hi, hi', hsub]
    · have hhigh : d[0].getLsbD (i - 8) = false := BitVec.getLsbD_of_ge _ _ (by omega)
      simp [hhigh]

theorem mainRow_eq_iff (d e : Chain) :
    mainRow d = mainRow e ↔ highByte d = highByte e ∧ lowByte d = lowByte e := by
  constructor
  · intro h
    have hbit : ∀ i, (mainRow d).getLsbD i = (mainRow e).getLsbD i := fun i => by rw [h]
    simp only [mainRow_getLsbD] at hbit
    constructor
    · apply BitVec.eq_of_getLsbD_eq
      intro i _
      have hge : ¬i + 8 < 8 := by omega
      simpa [hge] using hbit (i + 8)
    · apply BitVec.eq_of_getLsbD_eq
      intro i hi
      simpa [hi] using hbit i
  · intro ⟨h0, h1⟩
    change (highByte d).setWidth 16 <<< 8 ||| (lowByte d).setWidth 16 = _
    rw [h0, h1]
    rfl

theorem byte_eq_of_row {d e : Chain} (h : mainRow d = mainRow e) (i : Fin 3) (hi : i.val < 2) :
    d[i.val] = e[i.val] := by
  obtain ⟨h0, h1⟩ := (mainRow_eq_iff d e).mp h
  match i, hi with
  | 0, _ => exact h0
  | 1, _ => exact h1

theorem mainRow_and_not (d e f : Chain) (h0 : f[0] = d[0] &&& ~~~e[0])
    (h1 : f[1] = d[1] &&& ~~~e[1]) : mainRow f = mainRow d &&& ~~~mainRow e := by
  apply BitVec.eq_of_getLsbD_eq
  intro i hi
  rw [BitVec.getLsbD_and, BitVec.getLsbD_not]
  simp only [mainRow_getLsbD, h0, h1]
  split_ifs with h
  · simp [h, hi]
  · have hsub : i - 8 < 8 := by omega
    simp [hsub, hi]

section Locals

variable (d p : Chain)

private def parseCell (j : Fin 2) (l : ParseLocals) :
    BitVec 8 × BitVec 8 × BitVec 8 × BitVec 8 :=
  (l.isHeld[j.val], l.justPressed[j.val], l.justReleased[j.val], l.buttonDataPrev[j.val])

private theorem parseLocals_cell (j : Fin 2) :
    parseCell j (parseLocals d p) =
      if d[j.val] ≠ p[j.val] then
        (d[j.val], d[j.val] &&& ~~~p[j.val], ~~~d[j.val] &&& p[j.val], d[j.val])
      else (0, 0, 0, p[j.val]) := by
  let mask (i : Fin 2) (c : BitVec 8 × BitVec 8 × BitVec 8 × BitVec 8) :=
    if d[i.val] ≠ c.2.2.2 then
      (d[i.val], d[i.val] &&& ~~~c.2.2.2, ~~~d[i.val] &&& c.2.2.2, d[i.val])
    else c
  have hsame : ∀ i l, parseCell i (parseByte d i l) = mask i (parseCell i l) := by
    intro i l
    simp only [parseByte, mask, parseCell]
    split_ifs <;> simp
  have hother : ∀ i j l, j ≠ i → parseCell j (parseByte d i l) = parseCell j l := by
    intro i j l hne
    have hval := Fin.val_ne_of_ne hne.symm
    simp only [parseByte, parseCell]
    split_ifs <;> simp [hval]
  rw [parseLocals, forLoop_cells _ _ mask hsame hother]
  match j with
  | 0 => rfl
  | 1 => rfl

private theorem parseLocals_isHeld (j : Fin 2) :
    (parseLocals d p).isHeld[j.val] = if d[j.val] ≠ p[j.val] then d[j.val] else 0 := by
  have h := congrArg Prod.fst (parseLocals_cell d p j)
  rw [apply_ite Prod.fst] at h
  exact h

private theorem parseLocals_justPressed (j : Fin 2) :
    (parseLocals d p).justPressed[j.val] = d[j.val] &&& ~~~p[j.val] := by
  have h := congrArg (fun c => c.2.1) (parseLocals_cell d p j)
  change (parseLocals d p).justPressed[j.val] = _ at h
  rw [h]
  by_cases he : d[j.val] = p[j.val] <;> simp [he]

private theorem parseLocals_justReleased (j : Fin 2) :
    (parseLocals d p).justReleased[j.val] = p[j.val] &&& ~~~d[j.val] := by
  have h := congrArg (fun c => c.2.2.1) (parseLocals_cell d p j)
  change (parseLocals d p).justReleased[j.val] = _ at h
  rw [h]
  by_cases he : d[j.val] = p[j.val] <;> simp [he, BitVec.and_comm]

private theorem parseLocals_prev (j : Fin 2) :
    (parseLocals d p).buttonDataPrev[j.val] = d[j.val] := by
  have h := congrArg (fun c => c.2.2.2) (parseLocals_cell d p j)
  change (parseLocals d p).buttonDataPrev[j.val] = _ at h
  rw [h]
  by_cases he : d[j.val] = p[j.val] <;> simp [he]

/-- The first loop stops at two bytes, so byte 2 of every local is as it was. -/
private theorem parseLocals_function :
    (parseLocals d p).isHeld[2] = 0 ∧ (parseLocals d p).justPressed[2] = 0 ∧
      (parseLocals d p).justReleased[2] = 0 ∧ (parseLocals d p).buttonDataPrev[2] = p[2] := by
  let third (l : ParseLocals) :=
    (l.isHeld[2], l.justPressed[2], l.justReleased[2], l.buttonDataPrev[2])
  have hframe : ∀ i l, third (parseByte d i l) = third l := by
    intro i l
    have hi : i.val ≠ 2 := by omega
    simp only [third, parseByte]
    split_ifs <;> simp [hi]
  have h : third (parseLocals d p) = third ⟨0, Chain.zero, Chain.zero, Chain.zero, p⟩ :=
    loopTo_frame _ third hframe 2 _
  simp only [third, Prod.mk.injEq] at h
  exact h

private theorem parseLocals_update :
    (parseLocals d p).update = if mainRow d = mainRow p then 0 else 1 := by
  have hloop : parseLocals d p = parseByte d 1 (parseByte d 0
      ⟨0, Chain.zero, Chain.zero, Chain.zero, p⟩) := rfl
  simp only [hloop, mainRow_eq_iff]
  by_cases h0 : d[0] = p[0] <;> by_cases h1 : d[1] = p[1] <;> simp [parseByte, h0, h1]

end Locals

/-- What `is_held.main_row` is filled with: the bytes that changed, and zero for the
others. -/
def changedRow (d p : Chain) : BitVec 16 :=
  mainRow #v[if d[0] ≠ p[0] then d[0] else 0, if d[1] ≠ p[1] then d[1] else 0, 0]

def splitEvents (d p : Chain) : ButtonEvents :=
  { isHeld := ⟨changedRow d p, 0⟩
    justPressed := ⟨mainRow d &&& ~~~mainRow p, 0⟩
    justReleased := ⟨mainRow p &&& ~~~mainRow d, 0⟩ }

private theorem placeByte_loop (bytes : Chain) :
    0 ||| placeByte bytes 0 ||| placeByte bytes 1 = mainRow bytes := by
  simp [placeByte, mainRow]

private theorem placed_eq_splitEvents (d p : Chain) :
    copyFunction (parseLocals d p)
      (forLoop 2 (placeEvents (parseLocals d p)) ButtonEvents.cleared) = splitEvents d p := by
  obtain ⟨hheld, hpressed, hreleased, -⟩ := parseLocals_function d p
  have hloop : forLoop 2 (placeEvents (parseLocals d p)) ButtonEvents.cleared =
      { isHeld := ⟨0 ||| placeByte (parseLocals d p).isHeld 0 |||
          placeByte (parseLocals d p).isHeld 1, 0⟩
        justPressed := ⟨0 ||| placeByte (parseLocals d p).justPressed 0 |||
          placeByte (parseLocals d p).justPressed 1, 0⟩
        justReleased := ⟨0 ||| placeByte (parseLocals d p).justReleased 0 |||
          placeByte (parseLocals d p).justReleased 1, 0⟩ } := rfl
  have hrow : mainRow (parseLocals d p).isHeld = changedRow d p :=
    (mainRow_eq_iff _ _).mpr ⟨parseLocals_isHeld d p 0, parseLocals_isHeld d p 1⟩
  rw [hloop, placeByte_loop, placeByte_loop, placeByte_loop, copyFunction, hheld, hpressed,
    hreleased, hrow,
    mainRow_and_not d p _ (parseLocals_justPressed d p 0) (parseLocals_justPressed d p 1),
    mainRow_and_not p d _ (parseLocals_justReleased d p 0) (parseLocals_justReleased d p 1)]
  rfl

theorem kbParseButtons_same {d : Chain} {s : InputState}
    (h : mainRow d = mainRow s.buttonDataPrev) : kbParseButtons d s = (0, s) := by
  have hprev : (parseLocals d s.buttonDataPrev).buttonDataPrev = s.buttonDataPrev := by
    obtain ⟨h0, h1⟩ := (mainRow_eq_iff _ _).mp h
    obtain ⟨-, -, -, h2⟩ := parseLocals_function d s.buttonDataPrev
    exact Chain.ext ((parseLocals_prev d _ 0).trans h0) ((parseLocals_prev d _ 1).trans h1) h2
  have hupdate : (parseLocals d s.buttonDataPrev).update = 0 := by
    rw [parseLocals_update, if_pos h]
  simp only [kbParseButtons, hupdate, hprev, ↓reduceIte]

/-- A scan that changes the main row is an event; its function byte is neither reported nor
remembered. -/
theorem kbParseButtons_changed {d : Chain} {s : InputState}
    (h : mainRow d ≠ mainRow s.buttonDataPrev) :
    kbParseButtons d s =
      (1, { buttonDataPrev := #v[d[0], d[1], s.buttonDataPrev[2]]
            inputEvents :=
              { s.inputEvents with buttonEvents := splitEvents d s.buttonDataPrev } }) := by
  have hprev : (parseLocals d s.buttonDataPrev).buttonDataPrev =
      #v[d[0], d[1], s.buttonDataPrev[2]] := by
    obtain ⟨-, -, -, h2⟩ := parseLocals_function d s.buttonDataPrev
    exact Chain.ext (parseLocals_prev d _ 0) (parseLocals_prev d _ 1) h2
  have hupdate : (parseLocals d s.buttonDataPrev).update = 1 := by
    rw [parseLocals_update, if_neg h]
  simp only [kbParseButtons, hupdate, hprev, placed_eq_splitEvents]
  rfl

end DrumMachine
