import Mathlib.Data.List.Basic

/-!
# Bounded first-in first-out queues

The capacity is part of the type, so an overfull queue cannot be built: pushing to a full
queue fails and leaves the caller with the queue it had.
-/

namespace DrumMachine.Framework

universe u

/-- A queue of at most `capacity` items, oldest first. -/
structure Fifo (α : Type u) (capacity : Nat) where
  items : List α
  bounded : items.length ≤ capacity

namespace Fifo

variable {α : Type u} {capacity : Nat}

def empty : Fifo α capacity := ⟨[], Nat.zero_le capacity⟩

def Full (q : Fifo α capacity) : Prop := q.items.length = capacity

instance (q : Fifo α capacity) : Decidable q.Full :=
  inferInstanceAs (Decidable (q.items.length = capacity))

def push (q : Fifo α capacity) (x : α) : Option (Fifo α capacity) :=
  if h : q.items.length < capacity then
    some ⟨q.items ++ [x], by rw [List.length_append, List.length_singleton]; exact h⟩
  else none

def pop (q : Fifo α capacity) : Option (α × Fifo α capacity) :=
  match hq : q.items with
  | [] => none
  | x :: rest => some (x, ⟨rest, by
      have h := q.bounded
      rw [hq, List.length_cons] at h
      omega⟩)

@[ext]
theorem ext {q r : Fifo α capacity} (h : q.items = r.items) : q = r := by
  cases q
  cases r
  cases h
  rfl

theorem not_full_iff (q : Fifo α capacity) : ¬q.Full ↔ q.items.length < capacity := by
  have h := q.bounded
  rw [Full]
  omega

theorem not_full_of_empty {q : Fifo α capacity} (h : q.items = []) (hroom : 0 < capacity) :
    ¬q.Full := by
  rw [not_full_iff, h]
  exact hroom

theorem push_eq_none_iff (q : Fifo α capacity) (x : α) : q.push x = none ↔ q.Full := by
  rw [push, dite_eq_right_iff, ← not_iff_not, q.not_full_iff]
  simp

theorem push_eq_some {q r : Fifo α capacity} {x : α} (h : q.push x = some r) :
    r.items = q.items ++ [x] := by
  rw [push] at h
  split at h
  · cases h
    rfl
  · cases h

theorem push_of_not_full (q : Fifo α capacity) (x : α) (h : ¬q.Full) :
    ∃ r, q.push x = some r ∧ r.items = q.items ++ [x] := by
  obtain ⟨r, hr⟩ := Option.ne_none_iff_exists'.mp (mt (q.push_eq_none_iff x).mp h)
  exact ⟨r, hr, push_eq_some hr⟩

theorem pop_eq_some {q r : Fifo α capacity} {x : α} (h : q.pop = some (x, r)) :
    q.items = x :: r.items := by
  rw [pop] at h
  split at h
  · cases h
  · rename_i hq
    cases h
    exact hq

theorem pop_eq_none_iff (q : Fifo α capacity) : q.pop = none ↔ q.items = [] := by
  rw [pop]
  split
  · simp_all
  · simp_all

end Fifo

end DrumMachine.Framework
