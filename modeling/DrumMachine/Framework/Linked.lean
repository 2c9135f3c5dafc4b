import Mathlib.Data.List.Induction
import Mathlib.Logic.Function.Basic

/-!
# Singly linked lists

A store gives each node the node after it. The lists that lie in a store are followed from
their first node to the null link, and a write to one node leaves every list without that
node as it was. A queue is such a list with a second link to its last node.
-/

namespace DrumMachine.Framework

universe u

variable {ν : Type u}

/-- The nodes met on the way from a link to the null link. -/
def Linked (next : ν → Option ν) : Option ν → List ν → Prop
  | link, [] => link = none
  | link, n :: ns => link = some n ∧ Linked next (next n) ns

namespace Linked

variable {next : ν → Option ν} {link : Option ν} {n : ν} {ns : List ν}

@[simp]
theorem nil_iff : Linked next link [] ↔ link = none := Iff.rfl

@[simp]
theorem cons_iff : Linked next link (n :: ns) ↔ link = some n ∧ Linked next (next n) ns :=
  Iff.rfl

theorem eq_nil (h : Linked next none ns) : ns = [] := by
  cases ns with
  | nil => rfl
  | cons m ns => cases h.1

theorem exists_cons (h : Linked next (some n) ns) :
    ∃ rest, ns = n :: rest ∧ Linked next (next n) rest := by
  cases ns with
  | nil => cases h
  | cons m rest =>
    obtain ⟨hm, hrest⟩ := h
    cases hm
    exact ⟨rest, rfl, hrest⟩

theorem ne_nil_iff (h : Linked next link ns) : ns ≠ [] ↔ link ≠ none := by
  cases ns with
  | nil => simpa using h
  | cons m ns => simp [h.1]

theorem unique {ms : List ν} (h : Linked next link ns) (h' : Linked next link ms) :
    ns = ms := by
  induction ns generalizing link ms with
  | nil =>
    cases h
    exact h'.eq_nil.symm
  | cons n ns ih =>
    obtain ⟨rfl, hns⟩ := h
    obtain ⟨rest, rfl, hrest⟩ := h'.exists_cons
    rw [ih hns hrest]

theorem suffix {before : List ν} (h : Linked next link (before ++ n :: ns)) :
    Linked next (some n) (n :: ns) := by
  induction before generalizing link with
  | nil =>
    obtain ⟨rfl, hns⟩ := h
    exact ⟨rfl, hns⟩
  | cons m before ih => exact ih h.2

/-- A list that ends meets no node twice. -/
theorem nodup (h : Linked next link ns) : ns.Nodup := by
  induction ns generalizing link with
  | nil => exact List.nodup_nil
  | cons n ns ih =>
    obtain ⟨rfl, hns⟩ := h
    refine List.nodup_cons.mpr ⟨?_, ih hns⟩
    intro hmem
    obtain ⟨before, after, hsplit⟩ := List.append_of_mem hmem
    have hagain : Linked next (some n) (n :: after) := by
      rw [hsplit] at hns
      exact hns.suffix
    have hwhole : Linked next (some n) (n :: ns) := ⟨rfl, hns⟩
    have hlen := congrArg List.length (hwhole.unique hagain)
    rw [hsplit] at hlen
    simp at hlen
    omega

section Write

variable [DecidableEq ν] {m : ν} {after : Option ν}

theorem update_iff (hm : m ∉ ns) :
    Linked (Function.update next m after) link ns ↔ Linked next link ns := by
  induction ns generalizing link with
  | nil => exact Iff.rfl
  | cons n ns ih =>
    rw [List.mem_cons, not_or] at hm
    obtain ⟨hne, hm⟩ := hm
    rw [cons_iff, cons_iff, ih hm, Function.update_of_ne (Ne.symm hne)]

theorem update (h : Linked next link ns) (hm : m ∉ ns) :
    Linked (Function.update next m after) link ns :=
  (update_iff hm).mpr h

theorem push (h : Linked next link ns) (hn : n ∉ ns) :
    Linked (Function.update next n link) (some n) (n :: ns) := by
  refine ⟨rfl, ?_⟩
  rw [Function.update_self]
  exact h.update hn

theorem append_node (h : Linked next link (ns ++ [n])) (hm : m ∉ ns ++ [n])
    (hend : next m = none) :
    Linked (Function.update next n (some m)) link (ns ++ [n] ++ [m]) := by
  induction ns generalizing link with
  | nil =>
    obtain ⟨rfl, -⟩ := h
    have hne : m ≠ n := by simpa using hm
    refine ⟨rfl, Function.update_self .., ?_⟩
    rw [Function.update_of_ne hne]
    exact hend
  | cons k ns ih =>
    have hk : k ≠ n := by
      rintro rfl
      have := h.nodup
      simp at this
    obtain ⟨rfl, hns⟩ := h
    refine ⟨rfl, ?_⟩
    rw [Function.update_of_ne hk]
    exact ih hns fun hmem => hm (List.mem_cons_of_mem k hmem)

end Write

end Linked

/-- The list `ns` with its first and its last node at hand. -/
structure LinkedQueue (next : ν → Option ν) (head tail : Option ν) (ns : List ν) : Prop where
  linked : Linked next head ns
  tail_eq : tail = ns.getLast?

namespace LinkedQueue

variable [DecidableEq ν] {next : ν → Option ν} {head tail : Option ν} {ns : List ν} {m : ν}

theorem update {after : Option ν} (h : LinkedQueue next head tail ns) (hm : m ∉ ns) :
    LinkedQueue (Function.update next m after) head tail ns :=
  ⟨h.linked.update hm, h.tail_eq⟩

theorem push_back (h : LinkedQueue next head tail ns) (hm : m ∉ ns) (hend : next m = none) :
    LinkedQueue (tail.elim next fun t => Function.update next t (some m))
      (head.elim (some m) some) (some m) (ns ++ [m]) := by
  obtain ⟨hlinked, rfl⟩ := h
  refine ⟨?_, (List.getLast?_concat ..).symm⟩
  cases ns using List.reverseRecOn with
  | nil =>
    cases hlinked
    exact ⟨rfl, hend⟩
  | append_singleton ns t =>
    have hhead : head ≠ none := hlinked.ne_nil_iff.mp (by simp)
    obtain ⟨first, rfl⟩ := Option.ne_none_iff_exists'.mp hhead
    rw [List.getLast?_concat]
    exact hlinked.append_node hm hend

theorem push_front (h : LinkedQueue next head tail ns) (hm : m ∉ ns) :
    LinkedQueue (Function.update next m head) (some m) (tail.elim (some m) some) (m :: ns) := by
  obtain ⟨hlinked, rfl⟩ := h
  refine ⟨hlinked.push hm, ?_⟩
  cases ns with
  | nil => rfl
  | cons n ns => simp [List.getLast?_cons]

theorem pop (h : LinkedQueue next (some m) tail ns) :
    ∃ rest, ns = m :: rest ∧
      LinkedQueue next (next m) (if tail = some m then none else tail) rest := by
  obtain ⟨hlinked, rfl⟩ := h
  obtain ⟨rest, rfl, hrest⟩ := hlinked.exists_cons
  refine ⟨rest, rfl, hrest, ?_⟩
  cases rest using List.reverseRecOn with
  | nil => simp
  | append_singleton rest t =>
    have hne : t ≠ m := by
      rintro rfl
      have := hlinked.nodup
      simp at this
    have hlast : (m :: (rest ++ [t])).getLast? = some t := by
      rw [← List.cons_append, List.getLast?_concat]
    rw [hlast, List.getLast?_concat, if_neg (by simpa using hne)]

end LinkedQueue

end DrumMachine.Framework
