import Mathlib.Logic.Function.Basic
import Mathlib.Tactic.SplitIfs

/-!
# Counted loops

`for (i = 0; i < n; i++) body(i)` over a state, with the body indexed by `Fin n`. The rules
are the loop invariant, loops whose iterations touch disjoint cells, and the flattening of
a nest of two loops. `loopTo` stops after `k` iterations, so that a loop interrupted
between two of its iterations is described by the same definition as the whole loop.
-/

namespace DrumMachine.Framework

universe u v w

variable {σ : Type u} {α : Type v} {β : Type w} {n : Nat}

/-- The first `k` iterations of a counted loop. -/
def loopTo (body : Fin n → σ → σ) : Nat → σ → σ
  | 0, s => s
  | k + 1, s => if h : k < n then body ⟨k, h⟩ (loopTo body k s) else loopTo body k s

def forLoop (n : Nat) (body : Fin n → σ → σ) (s : σ) : σ := loopTo body n s

@[simp]
theorem loopTo_zero (body : Fin n → σ → σ) (s : σ) : loopTo body 0 s = s := rfl

theorem loopTo_succ (body : Fin n → σ → σ) {k : Nat} (hk : k < n) (s : σ) :
    loopTo body (k + 1) s = body ⟨k, hk⟩ (loopTo body k s) := by
  simp only [loopTo, hk, ↓reduceDIte]

theorem loopTo_invariant (body : Fin n → σ → σ) (inv : Nat → σ → Prop) (s : σ)
    (hinit : inv 0 s) (hstep : ∀ (i : Fin n) t, inv i t → inv (i + 1) (body i t)) :
    ∀ k, k ≤ n → inv k (loopTo body k s) := by
  intro k
  induction k with
  | zero => intro _; exact hinit
  | succ k ih =>
    intro hk
    rw [loopTo_succ body hk]
    exact hstep ⟨k, hk⟩ _ (ih (Nat.le_of_succ_le hk))

theorem forLoop_invariant (body : Fin n → σ → σ) (inv : Nat → σ → Prop) (s : σ)
    (hinit : inv 0 s) (hstep : ∀ (i : Fin n) t, inv i t → inv (i + 1) (body i t)) :
    inv n (forLoop n body s) :=
  loopTo_invariant body inv s hinit hstep n (Nat.le_refl n)

theorem loopTo_frame (body : Fin n → σ → σ) (observe : σ → β)
    (hframe : ∀ i t, observe (body i t) = observe t) (k : Nat) (s : σ) :
    observe (loopTo body k s) = observe s := by
  induction k with
  | zero => rfl
  | succ k ih =>
    rw [loopTo]
    split_ifs with hk
    · rw [hframe, ih]
    · exact ih

section Cells

variable (body : Fin n → σ → σ) (cell : Fin n → σ → α) (update : Fin n → α → α)

/-- If iteration `i` rewrites cell `i` and no other, then after `k` iterations exactly the
cells below `k` have been rewritten. -/
theorem loopTo_cells (hsame : ∀ i t, cell i (body i t) = update i (cell i t))
    (hother : ∀ i j t, j ≠ i → cell j (body i t) = cell j t) (k : Nat) (s : σ) (j : Fin n) :
    cell j (loopTo body k s) = if j.val < k then update j (cell j s) else cell j s := by
  induction k with
  | zero => rfl
  | succ k ih =>
    rw [loopTo]
    split_ifs with hk hj hj
    · by_cases heq : j = ⟨k, hk⟩
      · subst j
        rw [hsame, ih]
        simp
      · have hlt : j.val < k := by
          have hne : j.val ≠ k := fun h => heq (Fin.ext h)
          omega
        rw [hother _ _ _ heq, ih, if_pos hlt]
    · have hne : j ≠ ⟨k, hk⟩ := by
        intro h
        exact hj (by simp [h])
      rw [hother _ _ _ hne, ih, if_neg (by omega)]
    · rw [ih, if_pos (by omega)]
    · rw [ih, if_neg (by omega)]

theorem forLoop_cells (hsame : ∀ i t, cell i (body i t) = update i (cell i t))
    (hother : ∀ i j t, j ≠ i → cell j (body i t) = cell j t) (s : σ) (j : Fin n) :
    cell j (forLoop n body s) = update j (cell j s) := by
  rw [forLoop, loopTo_cells body cell update hsame hother, if_pos j.isLt]

end Cells

def rowOf {m : Nat} (k : Fin (m * n)) : Fin m :=
  ⟨k.val / n, Nat.div_lt_of_lt_mul (Nat.mul_comm m n ▸ k.isLt)⟩

def columnOf {m : Nat} (k : Fin (m * n)) : Fin n :=
  ⟨k.val % n, Nat.mod_lt _ (Nat.pos_of_ne_zero (by
    intro h
    have hk := k.isLt
    simp [h] at hk))⟩

private theorem loopTo_row {m : Nat} (body : Fin m → Fin n → σ → σ) (i : Fin m) (s : σ) :
    ∀ j, j ≤ n → loopTo (fun k : Fin (m * n) => body (rowOf k) (columnOf k)) (i * n + j) s =
      loopTo (body i) j
        (loopTo (fun k : Fin (m * n) => body (rowOf k) (columnOf k)) (i * n) s) := by
  intro j
  induction j with
  | zero => intro _; rfl
  | succ j ih =>
    intro hj
    have hin : i.val * n + j < m * n := by
      have hrows : (i.val + 1) * n ≤ m * n := Nat.mul_le_mul_right n i.isLt
      rw [Nat.succ_mul] at hrows
      omega
    have hrow : rowOf (⟨i.val * n + j, hin⟩ : Fin (m * n)) = i := by
      apply Fin.ext
      change (i.val * n + j) / n = i.val
      rw [Nat.mul_comm, Nat.mul_add_div (by omega), Nat.div_eq_of_lt (by omega), Nat.add_zero]
    have hcolumn : columnOf (⟨i.val * n + j, hin⟩ : Fin (m * n)) = ⟨j, hj⟩ := by
      apply Fin.ext
      change (i.val * n + j) % n = j
      rw [Nat.mul_comm, Nat.mul_add_mod, Nat.mod_eq_of_lt (by omega)]
    rw [← Nat.add_assoc, loopTo_succ _ hin, loopTo_succ _ hj, hrow, hcolumn,
      ih (Nat.le_of_succ_le hj)]

/-- A nest of two loops is one loop over the flat index. -/
theorem forLoop_nest {m : Nat} (body : Fin m → Fin n → σ → σ) (s : σ) :
    forLoop m (fun i => forLoop n (body i)) s =
      forLoop (m * n) (fun k => body (rowOf k) (columnOf k)) s := by
  have hrows : ∀ i, i ≤ m → loopTo (fun i => forLoop n (body i)) i s =
      loopTo (fun k : Fin (m * n) => body (rowOf k) (columnOf k)) (i * n) s := by
    intro i
    induction i with
    | zero => intro _; simp
    | succ i ih =>
      intro hi
      rw [loopTo_succ _ hi, ih (Nat.le_of_succ_le hi), Nat.succ_mul,
        loopTo_row body ⟨i, hi⟩ s n (Nat.le_refl n)]
      rfl
  exact hrows m (Nat.le_refl m)

end DrumMachine.Framework
