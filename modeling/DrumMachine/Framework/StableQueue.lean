import Mathlib.Data.List.Sort
import Mathlib.Order.Defs.LinearOrder

/-!
# Stable priority queues

The items stand in the order of their keys, and where keys agree in the order of their
arrival. A queue is determined by its levels, the items of each key, and each level is a
first-in first-out queue: an insertion goes to the end of its level and leaves the others
alone.
-/

namespace DrumMachine.Framework

universe u v

section Lists

variable {α : Type u} {κ : Type v} [LinearOrder κ] (key : α → κ)

theorem pairwise_orderedInsert (x : α) {xs : List α}
    (h : xs.Pairwise fun a b => key a ≤ key b) :
    (xs.orderedInsert (fun a b => key a < key b) x).Pairwise fun a b => key a ≤ key b := by
  induction xs with
  | nil => exact List.pairwise_singleton _ x
  | cons y ys ih =>
    obtain ⟨hy, hys⟩ := List.pairwise_cons.mp h
    rw [List.orderedInsert_cons]
    split_ifs with hlt
    · refine List.pairwise_cons.mpr ⟨?_, h⟩
      intro z hz
      rcases List.mem_cons.mp hz with rfl | hz
      · exact hlt.le
      · exact hlt.le.trans (hy z hz)
    · refine List.pairwise_cons.mpr ⟨?_, ih hys⟩
      intro z hz
      rcases (List.mem_orderedInsert _).mp hz with rfl | hz
      · exact not_lt.mp hlt
      · exact hy z hz

/-- An insertion after the items of its own key keeps the items in the order of their keys
and, where keys agree, of their tickets, if the new item has the last ticket. -/
theorem pairwise_lex_orderedInsert (ticket : α → Nat) (x : α) {xs : List α}
    (hlast : ∀ y ∈ xs, ticket y < ticket x)
    (h : xs.Pairwise fun a b => key a < key b ∨ key a = key b ∧ ticket a < ticket b) :
    (xs.orderedInsert (fun a b => key a < key b) x).Pairwise fun a b =>
      key a < key b ∨ key a = key b ∧ ticket a < ticket b := by
  induction xs with
  | nil => exact List.pairwise_singleton _ x
  | cons y ys ih =>
    obtain ⟨hy, hys⟩ := List.pairwise_cons.mp h
    rw [List.orderedInsert_cons]
    split_ifs with hlt
    · refine List.pairwise_cons.mpr ⟨?_, h⟩
      intro z hz
      rcases List.mem_cons.mp hz with rfl | hz
      · exact Or.inl hlt
      · rcases hy z hz with hyz | ⟨hyz, -⟩
        · exact Or.inl (hlt.trans hyz)
        · exact Or.inl (hyz ▸ hlt)
    · refine List.pairwise_cons.mpr ⟨?_, ih (fun z hz => hlast z (List.mem_cons_of_mem y hz)) hys⟩
      intro z hz
      rcases (List.mem_orderedInsert _).mp hz with rfl | hz
      · rcases lt_or_eq_of_le (not_lt.mp hlt) with hkey | hkey
        · exact Or.inl hkey
        · exact Or.inr ⟨hkey, hlast y List.mem_cons_self⟩
      · exact hy z hz

theorem filter_orderedInsert (x : α) (k : κ) {xs : List α}
    (h : xs.Pairwise fun a b => key a ≤ key b) :
    (xs.orderedInsert (fun a b => key a < key b) x).filter (fun y => decide (key y = k)) =
      xs.filter (fun y => decide (key y = k)) ++ if key x = k then [x] else [] := by
  induction xs with
  | nil => by_cases hx : key x = k <;> simp [hx]
  | cons y ys ih =>
    obtain ⟨hy, hys⟩ := List.pairwise_cons.mp h
    rw [List.orderedInsert_cons]
    split_ifs with hlt hx hx
    · -- everything from `y` on has a key above that of `x`
      have hnone : (y :: ys).filter (fun z => decide (key z = k)) = [] := by
        rw [List.filter_eq_nil_iff]
        intro z hz
        have hyz : key y ≤ key z := by
          rcases List.mem_cons.mp hz with rfl | hz
          · exact le_refl _
          · exact hy z hz
        rw [decide_eq_true_eq]
        exact (hx ▸ hlt.trans_le hyz).ne'
      rw [List.filter_cons_of_pos (by simpa using hx), hnone, List.nil_append]
    · rw [List.filter_cons_of_neg (by simpa using hx), List.append_nil]
    · rw [List.filter_cons, List.filter_cons, ih hys, if_pos hx]
      split_ifs <;> rfl
    · rw [List.filter_cons, List.filter_cons, ih hys, if_neg hx]
      split_ifs <;> rfl

end Lists

variable {α : Type u} {κ : Type v} [LinearOrder κ]

structure StableQueue (key : α → κ) where
  items : List α
  sorted : items.Pairwise fun x y => key x ≤ key y

namespace StableQueue

variable {key : α → κ}

def empty : StableQueue key := ⟨[], List.Pairwise.nil⟩

def insert (q : StableQueue key) (x : α) : StableQueue key :=
  ⟨q.items.orderedInsert (fun a b => key a < key b) x, pairwise_orderedInsert key x q.sorted⟩

def remove [DecidableEq α] (q : StableQueue key) (x : α) : StableQueue key :=
  ⟨q.items.erase x, q.sorted.sublist List.erase_sublist⟩

def level (q : StableQueue key) (k : κ) : List α :=
  q.items.filter fun x => decide (key x = k)

theorem mem_level {q : StableQueue key} {k : κ} {x : α} :
    x ∈ q.level k ↔ x ∈ q.items ∧ key x = k := by
  rw [level, List.mem_filter, decide_eq_true_eq]

theorem level_insert (q : StableQueue key) (x : α) (k : κ) :
    (q.insert x).level k = q.level k ++ if key x = k then [x] else [] :=
  filter_orderedInsert key x k q.sorted

section Remove

variable [DecidableEq α]

theorem level_remove (q : StableQueue key) (x : α) (k : κ) :
    (q.remove x).level k = (q.level k).erase x := by
  rw [level, level, remove, List.erase_filter]

theorem level_remove_of_ne (q : StableQueue key) {x : α} {k : κ} (h : key x ≠ k) :
    (q.remove x).level k = q.level k := by
  rw [level_remove, List.erase_of_not_mem]
  exact fun hx => h (mem_level.mp hx).2

/-- A level that lists the items of another type loses the image of one of them. -/
theorem level_remove_map {β : Type*} [DecidableEq β] (q : StableQueue key) {f : β → α}
    (hf : Function.Injective f) {b : β} {k : κ} {bs : List β} (h : q.level k = bs.map f) :
    (q.remove (f b)).level k = (bs.erase b).map f := by
  rw [level_remove, h]
  exact (List.map_erase hf bs).symm

end Remove

theorem head_least {q : StableQueue key} {x y : α} (h : q.items.head? = some x)
    (hy : y ∈ q.items) : key x ≤ key y := by
  obtain ⟨rest, hitems⟩ := List.head?_eq_some_iff.mp h
  have hsorted := q.sorted
  rw [hitems] at hy hsorted
  rcases List.mem_cons.mp hy with rfl | hy
  · exact le_refl _
  · exact (List.pairwise_cons.mp hsorted).1 y hy

/-- The head of the queue is the first of the least level. -/
theorem head_iff {q : StableQueue key} {x : α} :
    q.items.head? = some x ↔
      (q.level (key x)).head? = some x ∧ ∀ y ∈ q.items, key x ≤ key y := by
  constructor
  · intro h
    refine ⟨?_, fun y hy => head_least h hy⟩
    obtain ⟨rest, hitems⟩ := List.head?_eq_some_iff.mp h
    simp [level, hitems]
  · rintro ⟨hlevel, hleast⟩
    have hx : x ∈ q.items := (mem_level.mp (List.mem_of_mem_head? hlevel)).1
    cases hitems : q.items with
    | nil =>
      rw [hitems] at hx
      cases hx
    | cons y rest =>
      have hhead : q.items.head? = some y := by rw [hitems]; rfl
      have hkey : key y = key x := by
        refine le_antisymm (head_least hhead hx) (hleast y ?_)
        rw [hitems]
        exact List.mem_cons_self
      simpa [level, hitems, hkey] using hlevel

end StableQueue

end DrumMachine.Framework
