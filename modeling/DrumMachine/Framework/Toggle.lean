import Mathlib.Order.SymmDiff
import Mathlib.Algebra.Ring.Parity
import Mathlib.Data.List.Perm.Basic

/-!
# Toggling

A value is changed by symmetric difference with a list of masks; pointwise the result is a
parity.
-/

namespace DrumMachine.Framework

open scoped symmDiff

universe u

section Algebra

variable {α : Type u} [GeneralizedBooleanAlgebra α]

def toggleAll (value : α) (masks : List α) : α := masks.foldl (· ∆ ·) value

@[simp]
theorem toggleAll_nil (value : α) : toggleAll value [] = value := rfl

@[simp]
theorem toggleAll_cons (value mask : α) (masks : List α) :
    toggleAll value (mask :: masks) = toggleAll (value ∆ mask) masks := rfl

theorem toggleAll_append (value : α) (masks masks' : List α) :
    toggleAll value (masks ++ masks') = toggleAll (toggleAll value masks) masks' :=
  List.foldl_append

end Algebra

/-- Pointwise, a cell is toggled by the parity of the masks that contain it. -/
theorem toggleAll_apply {κ : Type u} (value : κ → Bool) (masks : List (κ → Bool)) (k : κ) :
    toggleAll value masks k = (value k ^^ decide (Odd (masks.countP (· k)))) := by
  induction masks generalizing value with
  | nil => simp
  | cons mask masks ih =>
    rw [toggleAll_cons, ih, Pi.symmDiff_apply, Bool.symmDiff_eq_xor, List.countP_cons]
    cases mask k <;> simp [Nat.odd_add_one, -Nat.not_odd_iff_even]

end DrumMachine.Framework
