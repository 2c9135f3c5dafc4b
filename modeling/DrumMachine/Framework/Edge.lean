import Mathlib.Order.SymmDiff
import Mathlib.Data.List.Destutter

/-!
# Edge coding of a level signal

A signal takes levels in a Boolean algebra, one level a scan. The coder compares each level
with the one before it and emits what rose and what fell; the decoder adds the rises and
removes the falls. Decoding what was coded gives the signal back up to repeated levels.
-/

namespace DrumMachine.Framework

open scoped symmDiff

universe u

variable {α : Type u} [GeneralizedBooleanAlgebra α]

def rise (before now : α) : α := now \ before

def fall (before now : α) : α := before \ now

/-- One step of the decoder: add the rises, remove the falls. -/
def follow (level : α) (edge : α × α) : α := (level ⊔ edge.1) \ edge.2

@[simp]
theorem rise_self (level : α) : rise level level = ⊥ := sdiff_self

theorem eq_of_no_edge {before now : α} (hrise : rise before now = ⊥)
    (hfall : fall before now = ⊥) : now = before :=
  le_antisymm (sdiff_eq_bot_iff.mp hrise) (sdiff_eq_bot_iff.mp hfall)

theorem follow_edge (before now : α) :
    follow before (rise before now, fall before now) = now := by
  simp only [follow, rise, fall]
  rw [sup_sdiff_self_right, sup_sdiff, sdiff_sdiff_right_self, sdiff_sdiff_right]
  simp

def rises (before : α) : List α → List α
  | [] => []
  | now :: rest => rise before now :: rises now rest

theorem rises_concat (before : α) (levels : List α) (now : α) :
    rises before (levels ++ [now]) =
      rises before levels ++ [rise (levels.getLastD before) now] := by
  induction levels generalizing before with
  | nil => rfl
  | cons level levels ih =>
    rw [List.cons_append, rises, ih, rises, List.cons_append, List.getLastD_cons]

section Coder

variable [DecidableEq α]

/-- The coder: an edge for each level that differs from the one before it. -/
def edges (before : α) : List α → List (α × α)
  | [] => []
  | now :: rest =>
      if now = before then edges before rest
      else (rise before now, fall before now) :: edges now rest

/-- The decoder recovers the signal, each run of equal levels merged into one. -/
theorem scanl_follow_edges (before : α) (levels : List α) :
    (edges before levels).scanl follow before = (before :: levels).destutter (· ≠ ·) := by
  rw [List.destutter_cons']
  induction levels generalizing before with
  | nil => rfl
  | cons now levels ih =>
    by_cases h : now = before
    · subst now
      rw [edges, if_pos rfl, List.destutter'_cons_neg _ (by simp)]
      exact ih before
    · rw [edges, if_neg h, List.scanl_cons, List.destutter'_cons_pos _ (Ne.symm h),
        follow_edge, ih now]

theorem foldl_follow_edges (before : α) (levels : List α) :
    (edges before levels).foldl follow before = levels.getLastD before := by
  induction levels generalizing before with
  | nil => rfl
  | cons now levels ih =>
    rw [List.getLastD_cons]
    by_cases h : now = before
    · subst now
      rw [edges, if_pos rfl]
      exact ih before
    · rw [edges, if_neg h, List.foldl_cons, follow_edge]
      exact ih now

/-- Two signals with the same edges are equal up to repeated levels. -/
theorem destutter_eq_of_edges_eq (before : α) {levels levels' : List α}
    (h : edges before levels = edges before levels') :
    (before :: levels).destutter (· ≠ ·) = (before :: levels').destutter (· ≠ ·) := by
  rw [← scanl_follow_edges, ← scanl_follow_edges, h]

end Coder

end DrumMachine.Framework
