import DrumMachine.Framework.Machine
import DrumMachine.Framework.StableQueue

/-!
# What the scheduler is for

The abstract scheduler keeps the ready threads in one queue, ordered by priority and by
arrival, and gives the processor to the first of them unless the running thread may go on.
-/

namespace DrumMachine

open Framework

variable {τ : Type}

def rank (x : Nat × τ) : Nat := x.1

structure Rota (τ : Type) where
  ready : StableQueue (rank (τ := τ))
  current : Option τ

/-- The thread that may go on running, with its priority and whether it gives way. -/
structure Standing (τ : Type) where
  own : Nat
  thread : τ
  yields : Bool

def Standing.Keeps (standing : Standing τ) (level : Nat) : Prop :=
  standing.own < level ∨ standing.own = level ∧ standing.yields = false

instance Standing.decidableKeeps (standing : Standing τ) (level : Nat) : Decidable (standing.Keeps level) :=
  inferInstanceAs (Decidable (_ ∨ _))

inductive RotaAct (τ : Type)
  | join (level : Nat) (t : τ)
  | leave (level : Nat) (t : τ)
  | dispatch (standing : Option (Standing τ))

namespace Rota

variable [DecidableEq τ]

def dispatch (r : Rota τ) (first : Nat × τ) : Option (Standing τ) → Rota τ
  | none => { ready := r.ready.remove first, current := some first.2 }
  | some standing =>
      if standing.Keeps first.1 then r
      else
        { ready := (r.ready.insert (standing.own, standing.thread)).remove first
          current := some first.2 }

def act (r : Rota τ) : RotaAct τ → Rota τ
  | .join level t => { r with ready := r.ready.insert (level, t) }
  | .leave level t => { r with ready := r.ready.remove (level, t) }
  | .dispatch standing =>
      match r.ready.items.head? with
      | none => r
      | some first => r.dispatch first standing

end Rota

end DrumMachine
