import DrumMachine.Firmware.Tasks

/-!
# Failed sends

`kbParseButtons` commits `button_data_prev` before the outcome of `rt_mq_send` is known, so
the edges of a failed send are not detected again. The runs that lose no lasting edge are
determined exactly.
-/

namespace DrumMachine

open Framework

def stubFirmware (garbage : InputEvents) : Machine Firmware Act :=
  (firmware garbage).restrict fun _ act => UsesStub act

def Carries (event : InputEvents) (i : Fin 16) (down : Bool) : Prop :=
  if down then event.buttonEvents.justPressed.mainRow.getLsbD i.val = true
  else event.buttonEvents.justReleased.mainRow.getLsbD i.val = true

/-- After `before` scan `d` finds key `i` changed and the queue full, and after `mid` the
later scan `d'` finds a free slot. -/
structure DropsEdge (garbage : InputEvents) (before : List Act) (d : Chain) (mid : List Act)
    (i : Fin 16) : Prop where
  changed : rawBit d i ≠ rawBit (lastScan (scansOf before)) i
  full : ∃ fw, (stubFirmware garbage).exec before = some fw ∧ fw.inputEventMq.Full
  slot : ∃ fw, (stubFirmware garbage).exec (before ++ .scan d .stub :: mid) = some fw ∧
    ¬fw.inputEventMq.Full

def KeyStays (d : Chain) (later : List Chain) (i : Fin 16) : Prop :=
  ∀ e ∈ later, rawBit e i = rawBit d i

def EdgeResent (garbage : InputEvents) (before : List Act) (d : Chain) (acts : List Act)
    (i : Fin 16) : Prop :=
  ∃ fw event, (stubFirmware garbage).exec (before ++ [.scan d .stub]) = some fw ∧
    event ∈ (stubFirmware garbage).logFrom enqueued fw acts ∧ Carries event i (rawBit d i)

/-- A failed send does not consume the edges it carried: those of the keys that stay are
sent again up to the next scan with a free slot. -/
def EdgesResent (garbage : InputEvents) (acts : List Act) : Prop :=
  ∀ before d mid d' after i,
    acts = before ++ .scan d .stub :: (mid ++ .scan d' .stub :: after) →
      DropsEdge garbage before d mid i → KeyStays d (scansOf (mid ++ [.scan d' .stub])) i →
        EdgeResent garbage before d (mid ++ [.scan d' .stub]) i

/-- Every key that changes while the queue is full changes back by the next scan with a free
slot. -/
def DropsChangeBack (garbage : InputEvents) (acts : List Act) : Prop :=
  ∀ before d mid d' after i,
    acts = before ++ .scan d .stub :: (mid ++ .scan d' .stub :: after) →
      DropsEdge garbage before d mid i → ¬KeyStays d (scansOf (mid ++ [.scan d' .stub])) i

theorem lastScan_append (scans later : List Chain) :
    lastScan (scans ++ later) = later.getLastD (lastScan scans) := by
  induction later using List.reverseRecOn with
  | nil => rw [List.append_nil]; rfl
  | append_singleton later d _ => rw [← List.append_assoc, lastScan_concat, List.getLastD_concat]

theorem KeyStays.last {d : Chain} {later : List Chain} {i : Fin 16} (h : KeyStays d later i)
    (scans : List Chain) : rawBit (lastScan (scans ++ d :: later)) i = rawBit d i := by
  rw [← List.concat_append, lastScan_append, List.concat_eq_append, lastScan_concat]
  induction later using List.reverseRecOn with
  | nil => rfl
  | append_singleton later e _ =>
    rw [List.getLastD_concat]
    exact h e (List.mem_append_right _ (List.mem_singleton_self e))

theorem changed_of_carries {garbage : InputEvents} {acts : List Act} {fw : Firmware} {d : Chain}
    {event : InputEvents} {i : Fin 16} {down : Bool}
    (hexec : (firmware garbage).exec acts = some fw)
    (hevent : enqueued fw (.scan d .stub) = some event) (hcarries : Carries event i down) :
    rawBit d i = down ∧ rawBit (lastScan (scansOf acts)) i = !down := by
  rw [enqueued, Option.ite_none_left_eq_some, sending, inputTaskIter_stub] at hevent
  rw [Carries, (scanEvent_eq_some hevent.2).2, splitEvents] at hcarries
  rw [← mainRow_rawBit, ← mainRow_rawBit, ← firmware_row hexec]
  cases down with
  | true =>
    simp only [↓reduceIte, BitVec.getLsbD_and, BitVec.getLsbD_not, Bool.and_eq_true,
      Bool.not_eq_true', decide_eq_true_eq] at hcarries
    exact ⟨hcarries.1, hcarries.2.2⟩
  | false =>
    simp only [Bool.false_eq_true, ↓reduceIte, BitVec.getLsbD_and, BitVec.getLsbD_not,
      Bool.and_eq_true, Bool.not_eq_true', decide_eq_true_eq] at hcarries
    exact ⟨hcarries.2.2, hcarries.1⟩

/-- As long as the key stays, no message carries its edge. -/
theorem not_edgeResent {garbage : InputEvents} {before acts : List Act} {d : Chain} {i : Fin 16}
    (h : KeyStays d (scansOf acts) i) : ¬EdgeResent garbage before d acts i := by
  intro ⟨fw, event, hexec, hlogged, hcarries⟩
  obtain ⟨pre, act, post, fw₁, fw₂, rfl, hpre, hstep, hevent⟩ :=
    (stubFirmware garbage).mem_logFrom enqueued hlogged
  have hstub := (((firmware garbage).restrict_step_eq_some _).mp hstep).1
  have hrun : (firmware garbage).exec (before ++ [.scan d .stub] ++ pre) = some fw₁ :=
    (firmware garbage).exec_of_restrict _ (Machine.exec_append_eq_some _ |>.mpr ⟨fw, hexec, hpre⟩)
  cases act with
  | seq =>
    rw [enqueued, sending, ite_self] at hevent
    cases hevent
  | scan e enc =>
    cases hstub
    -- the scan before this one lies in the stretch too, where the key has not moved
    obtain ⟨hnow, hlast⟩ := changed_of_carries hrun hevent hcarries
    have hstays : KeyStays d (scansOf pre) i := by
      intro e he
      apply h
      rw [scansOf_append]
      exact List.mem_append_left _ he
    have hsame := hstays.last (scansOf before)
    rw [List.append_assoc, scansOf_append] at hlast
    change rawBit (lastScan (scansOf before ++ d :: scansOf pre)) i = _ at hlast
    rw [hsame] at hlast
    cases hd : rawBit d i <;> rw [hd] at hlast <;> cases hlast

/-- In every interleaving, the edges of failed sends are sent again exactly when there is
none to be sent: every key that changed while the queue was full has changed back. -/
theorem edges_resent_iff (garbage : InputEvents) (acts : List Act) :
    EdgesResent garbage acts ↔ DropsChangeBack garbage acts := by
  constructor
  · intro h before d mid d' after i hacts hdrops hstays
    exact not_edgeResent hstays (h before d mid d' after i hacts hdrops hstays)
  · intro h before d mid d' after i hacts hdrops hstays
    exact absurd hstays (h before d mid d' after i hacts hdrops)

def fillQueue : List Act :=
  (List.replicate 4 [.scan keyOneScan .stub, .scan Chain.zero .stub]).flatten

/-- With the queue full key 1 goes down for good, the sequencer takes a message, and no scan
after that reports the key. -/
theorem failed_send_loses_press : ¬EdgesResent InputEvents.zero
    (fillQueue ++ [.scan #v[0, 1, 0] .stub, .seq, .scan #v[0, 1, 0] .stub]) := by
  intro h
  have hfull : ((stubFirmware InputEvents.zero).exec fillQueue).any
      (fun fw => decide fw.inputEventMq.Full) = true := by decide +kernel
  have hslot : ((stubFirmware InputEvents.zero).exec
      (fillQueue ++ .scan #v[0, 1, 0] .stub :: [.seq])).any
      (fun fw => decide (¬fw.inputEventMq.Full)) = true := by decide +kernel
  rw [Option.any_eq_true] at hfull hslot
  simp only [decide_eq_true_eq] at hfull hslot
  have hstays : KeyStays #v[0, 1, 0] [#v[0, 1, 0]] 0 := by
    intro e he
    rw [List.mem_singleton.mp he]
  have hresent := h fillQueue #v[0, 1, 0] [.seq] #v[0, 1, 0] [] 0 rfl
    ⟨by decide, hfull, hslot⟩ hstays
  exact not_edgeResent hstays hresent

end DrumMachine
