import Mathlib.Data.List.Perm.Basic
import Mathlib.Data.List.Nodup
import Mathlib.Logic.Function.Basic

/-!
# Rosters

A list that names everything with a property once. When the state of one party changes, the
list keeps, gains or loses that party.
-/

namespace DrumMachine.Framework

universe u v

variable {τ : Type u} {α : Type v}

structure Roster (list : List τ) (member : τ → Prop) : Prop where
  nodup : list.Nodup
  mem_iff : ∀ t, t ∈ list ↔ member t

namespace Roster

theorem nil {member : τ → Prop} (h : ∀ t, ¬member t) : Roster [] member :=
  ⟨List.nodup_nil, fun t => ⟨fun ht => absurd ht List.not_mem_nil, fun ht => absurd ht (h t)⟩⟩

theorem perm {list list' : List τ} {member : τ → Prop} (h : Roster list member)
    (hperm : list'.Perm list) : Roster list' member :=
  ⟨hperm.nodup_iff.mpr h.nodup, fun t => hperm.mem_iff.trans (h.mem_iff t)⟩

section Update

variable [DecidableEq τ] {list : List τ} {P : α → Prop} {state : τ → α} {t : τ} {a : α}

theorem stay (h : Roster list fun u => P (state u)) (ha : P a ↔ P (state t)) :
    Roster list fun u => P (Function.update state t a u) := by
  refine ⟨h.nodup, fun u => (h.mem_iff u).trans ?_⟩
  by_cases hu : u = t
  · subst hu
    rw [Function.update_self, ha]
  · rw [Function.update_of_ne hu]

theorem join (h : Roster list fun u => P (state u)) (hout : ¬P (state t)) (ha : P a) :
    Roster (t :: list) fun u => P (Function.update state t a u) := by
  refine ⟨List.nodup_cons.mpr ⟨mt (h.mem_iff t).mp hout, h.nodup⟩, fun u => ?_⟩
  by_cases hu : u = t
  · subst hu
    simp [ha]
  · simp [hu, h.mem_iff]

theorem leave (h : Roster list fun u => P (state u)) (ha : ¬P a) :
    Roster (list.erase t) fun u => P (Function.update state t a u) := by
  refine ⟨h.nodup.erase t, fun u => ?_⟩
  rw [h.nodup.mem_erase_iff, h.mem_iff]
  by_cases hu : u = t
  · subst hu
    simp [ha]
  · simp [hu]

end Update

end Roster

end DrumMachine.Framework
