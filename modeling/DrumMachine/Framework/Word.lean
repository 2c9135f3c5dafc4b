import Mathlib.Order.SymmDiff

/-!
# Machine words as sets of bits

A word of width `w` read as the function from bit positions to Booleans. The bitwise
operators become the operations of the pointwise Boolean algebra, so that statements about
masks are proved once, in that algebra.
-/

namespace DrumMachine.Framework

open scoped symmDiff

variable {w : Nat}

def bits (x : BitVec w) : Fin w → Bool := fun i => x.getLsbD i

theorem bits_apply (x : BitVec w) (i : Fin w) : bits x i = x.getLsbD i := rfl

theorem bits_injective : Function.Injective (bits (w := w)) := by
  intro x y h
  apply BitVec.eq_of_getLsbD_eq
  intro i hi
  exact congrFun h ⟨i, hi⟩

theorem bits_zero : bits (0 : BitVec w) = ⊥ := by
  funext i
  exact BitVec.getLsbD_zero

theorem bits_or (x y : BitVec w) : bits (x ||| y) = bits x ⊔ bits y := by
  funext i
  exact BitVec.getLsbD_or

theorem bits_and_not (x y : BitVec w) : bits (x &&& ~~~y) = bits x \ bits y := by
  funext i
  change (x &&& ~~~y).getLsbD i = (x.getLsbD i && !y.getLsbD i)
  simp

/-- Flags folded into the last bit by exclusive or leave their parity there. -/
theorem foldl_xor_flag {α : Type*} (flag : α → Bool) (x : BitVec w) (l : List α) :
    l.foldl (fun x a => x ^^^ if flag a then 1 else 0) x =
      x ^^^ BitVec.ofNat w (l.countP flag % 2) := by
  induction l generalizing x with
  | nil => simp
  | cons a l ih =>
    have hone : (1 : BitVec w) = BitVec.ofNat w 1 := rfl
    rw [List.foldl_cons, ih, List.countP_cons]
    cases flag a with
    | false => simp
    | true =>
      rw [if_pos rfl, if_pos rfl, hone, BitVec.xor_assoc]
      congr 1
      rcases Nat.mod_two_eq_zero_or_one (l.countP flag) with heven | hodd
      · rw [heven, Nat.add_mod, heven]
        simp
      · rw [hodd, Nat.add_mod, hodd]
        simp

end DrumMachine.Framework
