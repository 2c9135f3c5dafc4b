import DrumMachine.Firmware.Spi
import DrumMachine.Firmware.Tasks
import DrumMachine.Framework.Positions

/-!
# Lost keyboard exchanges

A transfer that fails, or a byte the driver gives up on, reads as zero and is inverted into
a byte of pressed keys. The runs on which that never becomes input are determined exactly.
-/

namespace DrumMachine

open Framework

/-- What a scan hands to `kbParseButtons`, with the published frame on the wire. -/
def exchangedScan (s : SyncState) (x : Exchange) : Chain :=
  kbTransferData x s.seq.kbLedData Chain.zero

def syncExchange (s : SyncState) (x : Exchange) : SyncState := syncScan s (exchangedScan s x)

def exchangeRun (s : SyncState) (xs : List Exchange) : SyncState := xs.foldl syncExchange s

def keyByte (b : ButtonData) (i : Fin 3) : BitVec 8 :=
  match i with
  | 0 => (b.mainRow >>> 8).setWidth 8
  | 1 => b.mainRow.setWidth 8
  | 2 => b.function

def OnEvent (s : SyncState) (x : Exchange) (ok : ButtonEvents → Prop) : Prop :=
  ∀ event, scanEvent (exchangedScan s x) s.input = some event → ok event.buttonEvents

/-- No failed exchange becomes input, neither a whole transfer nor a single byte. -/
structure NeverInput (s : SyncState) (xs : List Exchange) : Prop where
  transfer : AtEach (fun before x =>
    (rtSpiTransfer x (exchangeRun s before).seq.kbLedData Chain.zero).1 = 0 →
      OnEvent (exchangeRun s before) x fun b =>
        b.justPressed = ⟨0, 0⟩ ∧ b.justReleased = ⟨0, 0⟩) xs
  pattern : (exchangeRun s xs).seq.sequence =
    (exchangeRun s (xs.filter fun x => !decide x.Fails)).seq.sequence
  byte : AtEach (fun before x =>
    (rtSpiTransfer x (exchangeRun s before).seq.kbLedData Chain.zero).1 ≠ 0 →
      ∀ i : Fin 3, (x.byte i).GivesUp →
        OnEvent (exchangeRun s before) x fun b => keyByte b.justPressed i = 0) xs

/-- The exchange reads every key of byte `i` as down: the keys are active low. -/
def ReadsDown (x : Exchange) (i : Fin 3) : Prop :=
  x.Lost i ∨ (x.byte i).datar.setWidth 8 = 0

/-- A byte of the main row is lost only right after a scan that read all its keys as down. -/
def LostOnlyWhenDown (xs : List Exchange) : Prop :=
  AtEach (fun before x => ∀ i : Fin 3, i.val < 2 → x.Lost i →
    ∃ y, before.getLast? = some y ∧ ReadsDown y i) xs

theorem exchangeRun_concat (s : SyncState) (xs : List Exchange) (x : Exchange) :
    exchangeRun s (xs ++ [x]) = syncExchange (exchangeRun s xs) x := by
  rw [exchangeRun, List.foldl_append]
  rfl

private theorem exchangedScan_lost {x : Exchange} {i : Fin 3} (h : x.Lost i) (s : SyncState) :
    (exchangedScan s x).byte i = ~~~0 := by
  rw [Chain.byte, exchangedScan, kbTransferData_byte, if_pos h]

private theorem exchangedScan_all_down (s : SyncState) (x : Exchange) (i : Fin 3) :
    (exchangedScan s x).byte i = ~~~0 ↔ ReadsDown x i := by
  rw [Chain.byte, exchangedScan, kbTransferData_byte, ReadsDown]
  by_cases h : x.Lost i
  · simp [h]
  · rw [if_neg h, BitVec.not_inj]
    simp [h]

private theorem syncExchange_prev (s : SyncState) (x : Exchange) (i : Fin 3) (hi : i.val < 2) :
    (syncExchange s x).input.buttonDataPrev.byte i = (exchangedScan s x).byte i :=
  byte_eq_of_row (kbParseButtons_row (exchangedScan s x) s.input) i hi

private theorem zero_not_down (i : Fin 3) : Chain.zero.byte i ≠ ~~~0 := by
  revert i
  decide

private theorem prev_all_down {s : SyncState} (hstart : s.input.buttonDataPrev = Chain.zero)
    (before : List Exchange) (i : Fin 3) (hi : i.val < 2) :
    (exchangeRun s before).input.buttonDataPrev.byte i = ~~~0 ↔
      ∃ y, before.getLast? = some y ∧ ReadsDown y i := by
  rcases List.eq_nil_or_concat before with rfl | ⟨rest, y, rfl⟩
  · have hprev : (exchangeRun s []).input.buttonDataPrev = Chain.zero := hstart
    simp only [hprev]
    exact iff_of_false (zero_not_down i) (by simp)
  · rw [List.concat_eq_append, exchangeRun_concat, syncExchange_prev _ _ _ hi,
      exchangedScan_all_down]
    simp

private theorem keyByte_pressed (d p : Chain) (i : Fin 3) (hi : i.val < 2) :
    keyByte (splitEvents d p).justPressed i = d.byte i &&& ~~~p.byte i := by
  apply BitVec.eq_of_getLsbD_eq
  intro b hb
  have hb16 : b < 16 := by omega
  have hb16' : 8 + b < 16 := by omega
  have hge : ¬8 + b < 8 := by omega
  match i, hi with
  | 0, _ =>
    simp only [keyByte, splitEvents, BitVec.getLsbD_setWidth, BitVec.getLsbD_ushiftRight,
      BitVec.getLsbD_and, BitVec.getLsbD_not, mainRow_getLsbD, hb, hb16', hge, decide_true,
      Bool.true_and, ↓reduceIte, Nat.add_sub_cancel_left]
    rfl
  | 1, _ =>
    simp only [keyByte, splitEvents, BitVec.getLsbD_setWidth, BitVec.getLsbD_and,
      BitVec.getLsbD_not, mainRow_getLsbD, hb, hb16, decide_true, Bool.true_and, ↓reduceIte]
    rfl

private theorem onEvent_keyByte (s : SyncState) (x : Exchange) (i : Fin 3) (hi : i.val < 2) :
    OnEvent s x (fun b => keyByte b.justPressed i = 0) ↔
      (exchangedScan s x).byte i &&& ~~~s.input.buttonDataPrev.byte i = 0 := by
  rw [OnEvent]
  by_cases hrow : mainRow (exchangedScan s x) = mainRow s.input.buttonDataPrev
  · have hbyte : (exchangedScan s x).byte i = s.input.buttonDataPrev.byte i :=
      byte_eq_of_row hrow i hi
    rw [scanEvent_same hrow, hbyte]
    simp
  · rw [scanEvent_changed hrow, ← keyByte_pressed _ _ i hi]
    simp

private theorem mask_down_iff (p : BitVec 8) : ~~~0 &&& ~~~p = 0 ↔ p = ~~~0 := by
  constructor
  · intro h
    apply BitVec.eq_of_getLsbD_eq
    intro b hb
    have hbit := congrArg (fun q => q.getLsbD b) h
    simp only [BitVec.getLsbD_and, BitVec.getLsbD_not, hb] at hbit ⊢
    cases hp : p.getLsbD b <;> simp_all
  · intro h
    rw [h]
    decide

private theorem row_same_of_down {s : SyncState} {x : Exchange} (hf : x.Fails)
    (hprev : ∀ i : Fin 3, i.val < 2 → s.input.buttonDataPrev.byte i = ~~~0) :
    mainRow (exchangedScan s x) = mainRow s.input.buttonDataPrev := by
  rw [mainRow_eq_iff]
  exact ⟨(exchangedScan_lost (i := 0) (Or.inl hf) s).trans (hprev 0 (by decide)).symm,
    (exchangedScan_lost (i := 1) (Or.inl hf) s).trans (hprev 1 (by decide)).symm⟩

private theorem scan_harmless_iff (s : SyncState) (x : Exchange) :
    (((rtSpiTransfer x s.seq.kbLedData Chain.zero).1 = 0 →
        OnEvent s x fun b => b.justPressed = ⟨0, 0⟩ ∧ b.justReleased = ⟨0, 0⟩) ∧
      ((rtSpiTransfer x s.seq.kbLedData Chain.zero).1 ≠ 0 →
        ∀ i : Fin 3, (x.byte i).GivesUp →
          OnEvent s x fun b => keyByte b.justPressed i = 0)) ↔
      ∀ i : Fin 3, i.val < 2 → x.Lost i → s.input.buttonDataPrev.byte i = ~~~0 := by
  rw [Ne, rtSpiTransfer_eq_zero_iff]
  constructor
  · intro ⟨htransfer, hbyte⟩ i hi hlost
    have hquiet : OnEvent s x fun b => keyByte b.justPressed i = 0 := by
      by_cases hf : x.Fails
      · intro event hevent
        rw [(htransfer hf event hevent).1]
        match i, hi with
        | 0, _ => rfl
        | 1, _ => rfl
      · exact hbyte hf i (hlost.resolve_left hf)
    rw [onEvent_keyByte s x i hi, exchangedScan_lost hlost, mask_down_iff] at hquiet
    exact hquiet
  · intro hdown
    constructor
    · intro hf event hevent
      have hrow := row_same_of_down hf fun i hi => hdown i hi (Or.inl hf)
      rw [scanEvent_same hrow] at hevent
      cases hevent
    · intro _ i hgive
      by_cases hi : i.val < 2
      · rw [onEvent_keyByte s x i hi, exchangedScan_lost (Or.inr hgive), mask_down_iff]
        exact hdown i hi (Or.inr hgive)
      · have hi2 : i = 2 := by omega
        subst hi2
        intro event hevent
        rw [(scanEvent_eq_some hevent).2]
        rfl

/-- Failed exchanges never become input on exactly the runs that lose a byte of the main row
only while it is remembered as all down. -/
theorem never_input_iff (e garbage : InputEvents) (state : MachineState)
    (xs : List Exchange) :
    NeverInput ⟨⟨Chain.zero, e⟩, SeqState.start garbage state⟩ xs ↔ LostOnlyWhenDown xs := by
  let s : SyncState := ⟨⟨Chain.zero, e⟩, SeqState.start garbage state⟩
  have hscan : ∀ before x,
      (((rtSpiTransfer x (exchangeRun s before).seq.kbLedData Chain.zero).1 = 0 →
          OnEvent (exchangeRun s before) x fun b =>
            b.justPressed = ⟨0, 0⟩ ∧ b.justReleased = ⟨0, 0⟩) ∧
        ((rtSpiTransfer x (exchangeRun s before).seq.kbLedData Chain.zero).1 ≠ 0 →
          ∀ i : Fin 3, (x.byte i).GivesUp →
            OnEvent (exchangeRun s before) x fun b => keyByte b.justPressed i = 0)) ↔
        ∀ i : Fin 3, i.val < 2 → x.Lost i → ∃ y, before.getLast? = some y ∧ ReadsDown y i := by
    intro before x
    rw [scan_harmless_iff]
    constructor
    · intro h i hi hlost
      exact (prev_all_down rfl before i hi).mp (h i hi hlost)
    · intro h i hi hlost
      exact (prev_all_down rfl before i hi).mpr (h i hi hlost)
  constructor
  · intro h before x after hxs
    exact (hscan before x).mp ⟨h.transfer before x after hxs, h.byte before x after hxs⟩
  · intro h
    refine ⟨?_, ?_, ?_⟩
    · intro before x after hxs
      exact ((hscan before x).mpr (h before x after hxs)).1
    · have hidle : AtEach (fun before x => (!decide x.Fails) = false →
          syncExchange (before.foldl syncExchange s) x = before.foldl syncExchange s) xs := by
        intro before x after hxs hkeep
        -- a transfer that fails after an all-down scan only repeats it
        have hf : x.Fails := by simpa using hkeep
        apply syncScan_same
        apply row_same_of_down hf
        intro i hi
        exact (prev_all_down rfl before i hi).mpr (h before x after hxs i hi (Or.inl hf))
      exact congrArg (fun t => t.seq.sequence)
        (foldl_filter_of_idle syncExchange (fun x => !decide x.Fails) s hidle).symm
    · intro before x after hxs
      exact ((hscan before x).mpr (h before x after hxs)).2

def failedTransfer : Exchange := ⟨false, true, #v[⟨0, 0, 0xff⟩, ⟨0, 0, 0xff⟩, ⟨0, 0, 0xff⟩]⟩

/-- Every step is toggled by a scan that never happened. -/
theorem failed_transfer_becomes_input :
    ¬NeverInput ⟨InputState.zero, SeqState.start InputEvents.zero MachineState.zero⟩
      [failedTransfer] := by
  intro h
  have hevent := h.transfer [] failedTransfer [] rfl (by decide)
  have hnone := hevent _ rfl
  revert hnone
  decide

end DrumMachine
