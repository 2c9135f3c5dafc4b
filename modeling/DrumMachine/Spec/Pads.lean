import DrumMachine.Framework.Edge
import DrumMachine.Framework.Machine
import DrumMachine.Framework.Toggle

/-!
# What the pads are for

The abstract machine that the firmware refines. It knows sets of keys and no bytes: a scan
that differs from the last one puts the newly pressed keys on a list, and consuming the
oldest entry of the list flips these keys in the pattern.
-/

namespace DrumMachine

open Framework
open scoped symmDiff

universe u

/-- The keys down, the presses not yet consumed, and the pattern. -/
structure Pads (α : Type u) where
  held : α
  pending : List α
  active : α

inductive Pads.Act (α : Type u)
  | scan (now : α)
  | consume

section Levels

variable {α : Type u}

def levelsOf (acts : List (Pads.Act α)) : List α :=
  acts.filterMap fun
    | .scan now => some now
    | .consume => none

theorem levelsOf_concat_scan (acts : List (Pads.Act α)) (now : α) :
    levelsOf (acts ++ [.scan now]) = levelsOf acts ++ [now] := by
  rw [levelsOf, List.filterMap_append]
  rfl

theorem levelsOf_concat_consume (acts : List (Pads.Act α)) :
    levelsOf (acts ++ [.consume]) = levelsOf acts := by
  rw [levelsOf, List.filterMap_append]
  exact List.append_nil _

end Levels

variable {α : Type u} [GeneralizedBooleanAlgebra α] [DecidableEq α]

def Pads.step (p : Pads α) : Pads.Act α → Option (Pads α)
  | .scan now =>
      if now = p.held then some p
      else some { p with held := now, pending := p.pending ++ [rise p.held now] }
  | .consume =>
      match p.pending with
      | [] => none
      | mask :: rest => some { p with pending := rest, active := p.active ∆ mask }

variable (α) in
def pads : Machine (Pads α) (Pads.Act α) where
  init := ⟨⊥, [], ⊥⟩
  step := Pads.step

def Pads.settled (p : Pads α) : α := toggleAll p.active p.pending

theorem Pads.settled_scan {p p' : Pads α} {now : α} (h : p.step (.scan now) = some p') :
    p'.held = now ∧ p'.settled = p.settled ∆ rise p.held now := by
  rw [Pads.step] at h
  split_ifs at h with hnow
  · cases h
    subst now
    exact ⟨rfl, by rw [rise_self, symmDiff_bot]⟩
  · cases h
    refine ⟨rfl, ?_⟩
    rw [Pads.settled, toggleAll_append, toggleAll_cons, toggleAll_nil, Pads.settled]

/-- Consuming moves a press from the list to the pattern and settles nothing anew. -/
theorem Pads.settled_consume {p p' : Pads α} (h : p.step .consume = some p') :
    p'.held = p.held ∧ p'.settled = p.settled := by
  rw [Pads.step] at h
  split at h
  · cases h
  · rename_i mask rest hpending
    cases h
    exact ⟨rfl, by rw [Pads.settled, Pads.settled, hpending, toggleAll_cons]⟩

/-- No press is lost or counted twice: whatever is still pending, the settled pattern is the
empty one toggled by every press of the run. -/
theorem pads_settled {acts : List (Pads.Act α)} {p : Pads α} (h : (pads α).exec acts = some p) :
    p.held = (levelsOf acts).getLastD ⊥ ∧
      p.settled = toggleAll ⊥ (rises ⊥ (levelsOf acts)) := by
  refine (pads α).exec_invariant (fun acts p => p.held = (levelsOf acts).getLastD ⊥ ∧
    p.settled = toggleAll ⊥ (rises ⊥ (levelsOf acts))) ⟨rfl, rfl⟩ ?_ acts p h
  rintro acts p act p' - ⟨hheld, hsettled⟩ hstep
  cases act with
  | scan now =>
    obtain ⟨hheld', hsettled'⟩ := Pads.settled_scan hstep
    rw [levelsOf_concat_scan, List.getLastD_concat, rises_concat, toggleAll_append,
      toggleAll_cons, toggleAll_nil, hheld', hsettled', hsettled, hheld]
    exact ⟨rfl, rfl⟩
  | consume =>
    obtain ⟨hheld', hsettled'⟩ := Pads.settled_consume hstep
    rw [levelsOf_concat_consume, hheld', hsettled']
    exact ⟨hheld, hsettled⟩

end DrumMachine
