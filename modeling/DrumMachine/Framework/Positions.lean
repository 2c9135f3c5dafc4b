import Mathlib.Data.List.Induction

/-!
# Properties at every position of a list

`AtEach P l` says that every element of `l` satisfies `P` together with the elements before
it, which is how a property of each step of a run refers to the history of that step.
-/

namespace DrumMachine.Framework

universe u v

variable {α : Type u} {σ : Type v}

/-- `P before a` for every element `a` of the list and the elements `before` it. -/
def AtEach (P : List α → α → Prop) (l : List α) : Prop :=
  ∀ before a after, l = before ++ a :: after → P before a

theorem atEach_nil (P : List α → α → Prop) : AtEach P [] := by
  intro before a after h
  simp at h

theorem atEach_concat (P : List α → α → Prop) (l : List α) (a : α) :
    AtEach P (l ++ [a]) ↔ AtEach P l ∧ P l a := by
  constructor
  · intro h
    refine ⟨?_, h l a [] rfl⟩
    intro before b after hl
    apply h before b (after ++ [a])
    rw [hl, List.append_assoc, List.cons_append]
  · intro ⟨hl, ha⟩ before b after h
    rcases List.eq_nil_or_concat after with rfl | ⟨rest, c, rfl⟩
    · obtain ⟨rfl, hb⟩ := List.append_inj' h rfl
      cases hb
      exact ha
    · rw [List.concat_eq_append, ← List.cons_append, ← List.append_assoc] at h
      exact hl before b rest (List.append_inj' h rfl).1

theorem AtEach.of_prefix {P : List α → α → Prop} {l l' : List α} (h : AtEach P l)
    (hl : l' <+: l) : AtEach P l' := by
  obtain ⟨rest, rfl⟩ := hl
  intro before a after hsplit
  apply h before a (after ++ rest)
  rw [hsplit, List.append_assoc, List.cons_append]

theorem atEach_congr {P Q : List α → α → Prop} {l : List α}
    (h : ∀ before a after, l = before ++ a :: after → (P before a ↔ Q before a)) :
    AtEach P l ↔ AtEach Q l := by
  constructor
  · intro hP before a after hl
    exact (h before a after hl).mp (hP before a after hl)
  · intro hQ before a after hl
    exact (h before a after hl).mpr (hQ before a after hl)

/-- Elements that leave the state of a fold as they find it can be removed. -/
theorem foldl_filter_of_idle (f : σ → α → σ) (keep : α → Bool) (s : σ) {l : List α}
    (h : AtEach (fun before a => keep a = false → f (before.foldl f s) a = before.foldl f s) l) :
    (l.filter keep).foldl f s = l.foldl f s := by
  induction l using List.reverseRecOn with
  | nil => rfl
  | append_singleton l a ih =>
    obtain ⟨hl, ha⟩ := (atEach_concat _ l a).mp h
    rw [List.filter_append, List.foldl_append, List.foldl_append, ih hl]
    cases hkeep : keep a with
    | true => simp [hkeep]
    | false => simp [hkeep, ha hkeep]

end DrumMachine.Framework
