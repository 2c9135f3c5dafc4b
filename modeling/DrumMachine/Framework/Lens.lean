import DrumMachine.Framework.Loop

/-!
# Parts of a state

A lens reads and replaces one part of a state. A loop or a fold that works through a lens is
the same loop or fold on the part, followed by one replacement; so what lies outside the part
needs no argument of its own.
-/

namespace DrumMachine.Framework

universe u v w

structure Lens (σ : Type u) (α : Type v) where
  get : σ → α
  set : α → σ → σ
  get_set : ∀ a s, get (set a s) = a
  set_get : ∀ s, set (get s) s = s
  set_set : ∀ a b s, set a (set b s) = set a s

namespace Lens

variable {σ : Type u} {α : Type v} {β : Type w}

def modify (l : Lens σ α) (f : α → α) (s : σ) : σ := l.set (f (l.get s)) s

@[simp]
theorem get_modify (l : Lens σ α) (f : α → α) (s : σ) : l.get (l.modify f s) = f (l.get s) :=
  l.get_set _ _

theorem modify_id (l : Lens σ α) (s : σ) : l.modify id s = s := l.set_get s

theorem modify_modify (l : Lens σ α) (f g : α → α) (s : σ) :
    l.modify g (l.modify f s) = l.modify (g ∘ f) s := by
  rw [modify, get_modify, modify, l.set_set]
  rfl

theorem loopTo_modify {n : Nat} (l : Lens σ α) (body : Fin n → α → α) (k : Nat) (s : σ) :
    loopTo (fun i => l.modify (body i)) k s = l.modify (loopTo body k) s := by
  induction k with
  | zero => exact (l.modify_id s).symm
  | succ k ih =>
    by_cases hk : k < n
    · have hloop : loopTo body (k + 1) = body ⟨k, hk⟩ ∘ loopTo body k := by
        funext a
        exact loopTo_succ body hk a
      rw [loopTo_succ _ hk, ih, modify_modify, hloop]
    · have hloop : loopTo body (k + 1) = loopTo body k := by
        funext a
        rw [loopTo, dif_neg hk]
      rw [loopTo, dif_neg hk, ih, hloop]

theorem forLoop_modify {n : Nat} (l : Lens σ α) (body : Fin n → α → α) (s : σ) :
    forLoop n (fun i => l.modify (body i)) s = l.modify (forLoop n body) s :=
  l.loopTo_modify body n s

theorem foldl_modify {ε : Type*} (l : Lens σ α) (step : ε → α → α) (events : List ε) (s : σ) :
    events.foldl (fun s e => l.modify (step e) s) s =
      l.modify (fun a => events.foldl (fun a e => step e a) a) s := by
  induction events generalizing s with
  | nil => exact (l.modify_id s).symm
  | cons e events ih =>
    rw [List.foldl_cons, ih, modify_modify]
    rfl

/-- The part `m` of the part `l`. -/
def comp (l : Lens σ α) (m : Lens α β) : Lens σ β where
  get s := m.get (l.get s)
  set b := l.modify (m.set b)
  get_set := by
    intro b s
    rw [get_modify, m.get_set]
  set_get := by
    intro s
    rw [modify, m.set_get, l.set_get]
  set_set := by
    intro a b s
    have hset : m.set a ∘ m.set b = m.set a := funext (m.set_set a b)
    rw [modify_modify, hset]

theorem comp_modify (l : Lens σ α) (m : Lens α β) (f : β → β) :
    (l.comp m).modify f = l.modify (m.modify f) := rfl

def cell {n : Nat} (i : Fin n) : Lens (Vector α n) α where
  get xs := xs[i.val]
  set a xs := xs.set i.val a
  get_set := by simp
  set_get := by simp
  set_set := by simp

theorem cell_modify_self {n : Nat} (i : Fin n) (f : α → α) (xs : Vector α n) :
    ((cell i).modify f xs).get i = f (xs.get i) := Vector.getElem_set_self _

theorem cell_modify_ne {n : Nat} {i j : Fin n} (h : j ≠ i) (f : α → α) (xs : Vector α n) :
    ((cell i).modify f xs).get j = xs.get j :=
  Vector.getElem_set_ne i.isLt j.isLt (Fin.val_ne_of_ne h.symm)

/-- The same part of every cell of a vector. -/
def each {n : Nat} (l : Lens α β) : Lens (Vector α n) (Fin n → β) where
  get xs i := l.get xs[i.val]
  set b xs := Vector.ofFn fun i => l.set (b i) xs[i.val]
  get_set := by
    intro b xs
    funext i
    simp [l.get_set]
  set_get := by
    intro xs
    apply Vector.ext
    intro i hi
    simp [l.set_get]
  set_set := by
    intro a b xs
    apply Vector.ext
    intro i hi
    simp [l.set_set]

theorem each_modify {n : Nat} (l : Lens α β) (f : (Fin n → β) → Fin n → β) (xs : Vector α n)
    (i : Fin n) :
    ((each l).modify f xs).get i = l.set (f (fun k => l.get (xs.get k)) i) (xs.get i) :=
  Vector.getElem_ofFn _

end Lens

end DrumMachine.Framework
