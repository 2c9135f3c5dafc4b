import Mathlib.Data.List.Perm.Subperm
import Mathlib.Logic.Function.Basic

/-!
# Ownership

Every item below a bound lies in a shared store, once, or is held by exactly one party. A
party without an item may take one from the store, and give one back.
-/

namespace DrumMachine.Framework

universe u

variable {τ : Type u} {bound : Nat} {holds : τ → Option Nat} {store : List Nat}

structure Ownership (bound : Nat) (holds : τ → Option Nat) (store : List Nat) : Prop where
  nodup : store.Nodup
  stored : ∀ n ∈ store, n < bound
  held : ∀ {t n}, holds t = some n → n < bound ∧ n ∉ store
  alone : ∀ {t u n}, holds t = some n → holds u = some n → t = u
  covered : ∀ n < bound, n ∈ store ∨ ∃ t, holds t = some n

namespace Ownership

theorem initial {store : List Nat} (hnodup : store.Nodup) (hmem : ∀ n, n ∈ store ↔ n < bound) :
    Ownership bound (fun _ : τ => none) store where
  nodup := hnodup
  stored := fun n hn => (hmem n).mp hn
  held := fun h => by cases h
  alone := fun h => by cases h
  covered := fun n hn => Or.inl ((hmem n).mpr hn)

theorem perm {store' : List Nat} (h : Ownership bound holds store) (hperm : store'.Perm store) :
    Ownership bound holds store' where
  nodup := hperm.nodup_iff.mpr h.nodup
  stored := fun n hn => h.stored n (hperm.mem_iff.mp hn)
  held := by
    intro t n hn
    rw [hperm.mem_iff]
    exact h.held hn
  alone := h.alone
  covered := by
    intro n hn
    rw [hperm.mem_iff]
    exact h.covered n hn

variable [DecidableEq τ] {t : τ} {n : Nat}

theorem take (h : Ownership bound holds (n :: store)) (hidle : holds t = none) :
    Ownership bound (Function.update holds t (some n)) store where
  nodup := (List.nodup_cons.mp h.nodup).2
  stored := fun m hm => h.stored m (List.mem_cons_of_mem n hm)
  held := by
    intro u m hu
    by_cases hut : u = t
    · subst hut
      rw [Function.update_self] at hu
      cases hu
      exact ⟨h.stored n List.mem_cons_self, (List.nodup_cons.mp h.nodup).1⟩
    · rw [Function.update_of_ne hut] at hu
      obtain ⟨hlt, hmem⟩ := h.held hu
      exact ⟨hlt, fun hm => hmem (List.mem_cons_of_mem n hm)⟩
  alone := by
    intro u v m hu hv
    have hother : ∀ {w}, w ≠ t → holds w = some m → Function.update holds t (some n) t = some m →
        False := by
      intro w _ hw ht
      rw [Function.update_self] at ht
      cases ht
      exact (h.held hw).2 List.mem_cons_self
    by_cases hut : u = t <;> by_cases hvt : v = t
    · exact hut.trans hvt.symm
    · subst hut
      rw [Function.update_of_ne hvt] at hv
      exact absurd hu fun hu => hother hvt hv hu
    · subst hvt
      rw [Function.update_of_ne hut] at hu
      exact absurd hv fun hv => hother hut hu hv
    · rw [Function.update_of_ne hut] at hu
      rw [Function.update_of_ne hvt] at hv
      exact h.alone hu hv
  covered := by
    intro m hm
    rcases h.covered m hm with hin | ⟨u, hu⟩
    · rcases List.mem_cons.mp hin with rfl | hin
      · exact Or.inr ⟨t, Function.update_self ..⟩
      · exact Or.inl hin
    · refine Or.inr ⟨u, ?_⟩
      have hut : u ≠ t := by
        rintro rfl
        rw [hidle] at hu
        cases hu
      rw [Function.update_of_ne hut]
      exact hu

theorem give (h : Ownership bound holds store) (hn : holds t = some n) :
    Ownership bound (Function.update holds t none) (n :: store) where
  nodup := List.nodup_cons.mpr ⟨(h.held hn).2, h.nodup⟩
  stored := by
    intro m hm
    rcases List.mem_cons.mp hm with rfl | hm
    · exact (h.held hn).1
    · exact h.stored m hm
  held := by
    intro u m hu
    have hut : u ≠ t := by
      rintro rfl
      rw [Function.update_self] at hu
      cases hu
    rw [Function.update_of_ne hut] at hu
    obtain ⟨hlt, hmem⟩ := h.held hu
    refine ⟨hlt, ?_⟩
    intro hm
    rcases List.mem_cons.mp hm with rfl | hm
    · exact hut (h.alone hu hn)
    · exact hmem hm
  alone := by
    intro u v m hu hv
    have hne : ∀ {w}, Function.update holds t none w = some m → w ≠ t := by
      rintro w hw rfl
      rw [Function.update_self] at hw
      cases hw
    have hut := hne hu
    have hvt := hne hv
    rw [Function.update_of_ne hut] at hu
    rw [Function.update_of_ne hvt] at hv
    exact h.alone hu hv
  covered := by
    intro m hm
    by_cases hmn : m = n
    · subst hmn
      exact Or.inl List.mem_cons_self
    · rcases h.covered m hm with hin | ⟨u, hu⟩
      · exact Or.inl (List.mem_cons_of_mem n hin)
      · refine Or.inr ⟨u, ?_⟩
        have hut : u ≠ t := by
          rintro rfl
          rw [hn] at hu
          cases hu
          exact hmn rfl
        rw [Function.update_of_ne hut]
        exact hu

omit [DecidableEq τ] in
theorem store_length_le (h : Ownership bound holds store) : store.length ≤ bound := by
  have hsub : store ⊆ List.range bound := fun n hn => List.mem_range.mpr (h.stored n hn)
  have hle := (h.nodup.subperm hsub).length_le
  rwa [List.length_range] at hle

theorem store_length_lt (h : Ownership bound holds store) (hn : holds t = some n) :
    store.length < bound :=
  (h.give hn).store_length_le

end Ownership

end DrumMachine.Framework
