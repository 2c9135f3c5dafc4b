import Mathlib.Data.List.Induction
import Mathlib.Data.Option.Basic

/-!
# Runs of labelled machines

A machine takes labelled steps, some of which are unavailable in some states. A run is the
list of its labels, so every interleaving of several parties is one list. The module gives
the invariant rule, the restriction of a machine to chosen steps, the log of what a run
emits, and the transfer of runs along a simulation.
-/

namespace DrumMachine.Framework

universe u v w x

/-- A machine with labelled, possibly unavailable, deterministic steps. -/
structure Machine (σ : Type u) (α : Type v) where
  init : σ
  step : σ → α → Option σ

namespace Machine

variable {σ : Type u} {α : Type v} {τ : Type w} {β : Type x}
variable (m : Machine σ α)

def execFrom (s : σ) : List α → Option σ
  | [] => some s
  | a :: as => (m.step s a).bind fun t => execFrom t as

def exec (as : List α) : Option σ := m.execFrom m.init as

@[simp]
theorem execFrom_nil (s : σ) : m.execFrom s [] = some s := rfl

@[simp]
theorem execFrom_cons (s : σ) (a : α) (as : List α) :
    m.execFrom s (a :: as) = (m.step s a).bind fun t => m.execFrom t as := rfl

theorem execFrom_cons_of_step {s t : σ} {a : α} (h : m.step s a = some t) (as : List α) :
    m.execFrom s (a :: as) = m.execFrom t as := by
  rw [execFrom_cons, h]
  rfl

theorem execFrom_singleton {s t : σ} {a : α} (h : m.step s a = some t) :
    m.execFrom s [a] = some t := m.execFrom_cons_of_step h []

theorem execFrom_append (s : σ) (as bs : List α) :
    m.execFrom s (as ++ bs) = (m.execFrom s as).bind fun t => m.execFrom t bs := by
  induction as generalizing s with
  | nil => rfl
  | cons a as ih =>
    simp only [List.cons_append, execFrom_cons, Option.bind_assoc]
    congr 1
    funext t
    exact ih t

theorem exec_append_eq_some {as bs : List α} {t : σ} :
    m.exec (as ++ bs) = some t ↔ ∃ s, m.exec as = some s ∧ m.execFrom s bs = some t := by
  rw [exec, execFrom_append, Option.bind_eq_some_iff]
  rfl

theorem exec_concat_eq_some {as : List α} {a : α} {t : σ} :
    m.exec (as ++ [a]) = some t ↔ ∃ s, m.exec as = some s ∧ m.step s a = some t := by
  rw [exec_append_eq_some]
  simp only [execFrom_cons, execFrom_nil, Option.bind_fun_some]

/-- The invariant rule: a property of the history and the state which holds at the start
and is kept by every step holds after every run. -/
theorem exec_invariant (inv : List α → σ → Prop) (hinit : inv [] m.init)
    (hstep : ∀ as s a t, m.exec as = some s → inv as s → m.step s a = some t →
      inv (as ++ [a]) t) :
    ∀ as s, m.exec as = some s → inv as s := by
  intro as
  induction as using List.reverseRecOn with
  | nil =>
    intro s hs
    cases hs
    exact hinit
  | append_singleton as a ih =>
    intro t ht
    obtain ⟨s, hs, hst⟩ := m.exec_concat_eq_some.mp ht
    exact hstep as s a t hs (ih s hs) hst

def restrict (allowed : σ → α → Prop) [∀ s a, Decidable (allowed s a)] : Machine σ α where
  init := m.init
  step s a := if allowed s a then m.step s a else none

section Restrict

variable (allowed : σ → α → Prop) [∀ s a, Decidable (allowed s a)]

theorem restrict_step_eq_some {s t : σ} {a : α} :
    (m.restrict allowed).step s a = some t ↔ allowed s a ∧ m.step s a = some t := by
  simp only [restrict, Option.ite_none_right_eq_some]

theorem execFrom_of_restrict {s t : σ} {as : List α}
    (h : (m.restrict allowed).execFrom s as = some t) : m.execFrom s as = some t := by
  induction as generalizing s with
  | nil => exact h
  | cons a as ih =>
    rw [execFrom_cons, Option.bind_eq_some_iff] at h ⊢
    obtain ⟨r, hr, hrest⟩ := h
    exact ⟨r, ((m.restrict_step_eq_some allowed).mp hr).2, ih hrest⟩

theorem exec_of_restrict {t : σ} {as : List α}
    (h : (m.restrict allowed).exec as = some t) : m.exec as = some t :=
  m.execFrom_of_restrict allowed h

end Restrict

def logFrom (emit : σ → α → Option β) (s : σ) : List α → List β
  | [] => []
  | a :: as =>
      match m.step s a with
      | none => []
      | some t => (emit s a).toList ++ logFrom emit t as

@[simp]
theorem logFrom_nil (emit : σ → α → Option β) (s : σ) : m.logFrom emit s [] = [] := rfl

theorem logFrom_singleton (emit : σ → α → Option β) {s t : σ} {a : α} (h : m.step s a = some t) :
    m.logFrom emit s [a] = (emit s a).toList := by
  simp only [logFrom, h, List.append_nil]

theorem logFrom_append (emit : σ → α → Option β) {s r : σ} {as : List α} (bs : List α)
    (hs : m.execFrom s as = some r) :
    m.logFrom emit s (as ++ bs) = m.logFrom emit s as ++ m.logFrom emit r bs := by
  induction as generalizing s with
  | nil =>
    cases hs
    rfl
  | cons a as ih =>
    rw [execFrom_cons, Option.bind_eq_some_iff] at hs
    obtain ⟨q, hq, hrest⟩ := hs
    simp only [List.cons_append, logFrom, hq, ih hrest, List.append_assoc]

theorem logFrom_concat (emit : σ → α → Option β) {s r t : σ} {as : List α} {a : α}
    (hs : m.execFrom s as = some r) (hstep : m.step r a = some t) :
    m.logFrom emit s (as ++ [a]) = m.logFrom emit s as ++ (emit r a).toList := by
  rw [m.logFrom_append emit [a] hs, m.logFrom_singleton emit hstep]

theorem mem_logFrom (emit : σ → α → Option β) {s : σ} {as : List α} {b : β}
    (hb : b ∈ m.logFrom emit s as) :
    ∃ before a after r t, as = before ++ a :: after ∧ m.execFrom s before = some r ∧
      m.step r a = some t ∧ emit r a = some b := by
  induction as generalizing s with
  | nil => cases hb
  | cons a as ih =>
    rw [logFrom] at hb
    cases hstep : m.step s a with
    | none =>
      rw [hstep] at hb
      cases hb
    | some t =>
      simp only [hstep, List.mem_append, Option.mem_toList] at hb
      rcases hb with hb | hb
      · exact ⟨[], a, as, s, t, rfl, rfl, hstep, hb⟩
      · obtain ⟨before, a', after, q, r, rfl, hq, hr, hemit⟩ := ih hb
        refine ⟨a :: before, a', after, q, r, rfl, ?_, hr, hemit⟩
        rw [m.execFrom_cons_of_step hstep]
        exact hq

theorem logFrom_map (f : α → β) {s t : σ} {as : List α} (h : m.execFrom s as = some t) :
    m.logFrom (fun _ a => some (f a)) s as = as.map f := by
  induction as generalizing s with
  | nil => rfl
  | cons a as ih =>
    rw [execFrom_cons, Option.bind_eq_some_iff] at h
    obtain ⟨r, hr, hrest⟩ := h
    simp only [logFrom, hr, ih hrest, Option.toList_some, List.map_cons, List.singleton_append]

/-- Every step of `m` is matched by the step of `n` that `label` gives, or by none, on
related states. -/
structure Simulates (m : Machine σ α) (n : Machine τ β) (related : σ → τ → Prop)
    (label : σ → α → Option β) : Prop where
  init : related m.init n.init
  step : ∀ {s t a s'}, related s t → m.step s a = some s' →
    ∃ t', n.execFrom t (label s a).toList = some t' ∧ related s' t'

theorem Simulates.exec {m : Machine σ α} {n : Machine τ β} {related : σ → τ → Prop}
    {label : σ → α → Option β} (h : Simulates m n related label) {as : List α} {s : σ}
    (hs : m.exec as = some s) :
    ∃ t, n.exec (m.logFrom label m.init as) = some t ∧ related s t := by
  induction as using List.reverseRecOn generalizing s with
  | nil =>
    cases hs
    exact ⟨n.init, rfl, h.init⟩
  | append_singleton as a ih =>
    obtain ⟨r, hr, hrs⟩ := m.exec_concat_eq_some.mp hs
    obtain ⟨q, hq, hrel⟩ := ih hr
    obtain ⟨t, ht, hst⟩ := h.step hrel hrs
    refine ⟨t, ?_, hst⟩
    rw [m.logFrom_concat label hr hrs]
    exact n.exec_append_eq_some.mpr ⟨q, hq, ht⟩

end Machine

end DrumMachine.Framework
