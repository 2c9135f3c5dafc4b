import DrumMachine.Framework.Machine
import Mathlib.Data.Fintype.Defs

/-!
# Fixed-priority preemptive scheduling

Every step belongs to a thread. A thread takes a step only while no thread of higher
priority is ready, a lower number being a higher priority. When it takes its next step is
left open, so it may be paused at any point.
-/

namespace DrumMachine.Framework

universe u v w

variable {σ : Type u} {α : Type v} {ι : Type w} [Fintype ι]
variable (thread : α → ι) (priority : ι → Nat)
variable (ready : σ → ι → Prop) [∀ s i, Decidable (ready s i)]

namespace Machine

def prioritize (m : Machine σ α) : Machine σ α :=
  m.restrict fun s a => ∀ i, ready s i → priority (thread a) ≤ priority i

variable {thread priority ready}

theorem prioritize_step_eq_some {m : Machine σ α} {s t : σ} {a : α}
    (h : (m.prioritize thread priority ready).step s a = some t) :
    m.step s a = some t ∧ ∀ i, priority i < priority (thread a) → ¬ready s i := by
  obtain ⟨hallowed, hstep⟩ := (m.restrict_step_eq_some _).mp h
  exact ⟨hstep, fun i hi hready => absurd (hallowed i hready) (Nat.not_le.mpr hi)⟩

end Machine

end DrumMachine.Framework
