import Mathlib.Data.List.Nodup
import Mathlib.Logic.Function.Basic

/-!
# Circular doubly linked lists

Items lie in rings, each with a head of its own, and an item outside every ring is linked to
itself. The two link functions are inverse to each other, so a write of one next link moves
the end of exactly one path. Insertion and removal act on the lists of items as on plain
lists, also when an item is removed that lies in no ring.
-/

namespace DrumMachine.Framework

universe u v

structure Links (ν : Type u) where
  next : ν → ν
  prev : ν → ν

namespace Links

variable {ν : Type u} [DecidableEq ν]

/-- The writes go by `l->prev->next`, `n->prev`, `l->prev` and `n->next`. -/
def insertBefore (k : Links ν) (l n : ν) : Links ν where
  next := Function.update (Function.update k.next (k.prev l) n) n l
  prev := Function.update (Function.update k.prev n (k.prev l)) l n

/-- The writes go by `n->next->prev`, `n->prev->next`, `n->next` and `n->prev`. -/
def remove (k : Links ν) (n : ν) : Links ν where
  next := Function.update (Function.update k.next (k.prev n) (k.next n)) n n
  prev := Function.update (Function.update k.prev (k.next n) (k.prev n)) n n

structure Sound (k : Links ν) : Prop where
  next_prev : ∀ n, k.next (k.prev n) = n
  prev_next : ∀ n, k.prev (k.next n) = n

variable {k : Links ν} {l n : ν}

omit [DecidableEq ν] in
theorem Sound.next_inj (h : k.Sound) {m : ν} (hm : k.next m = k.next n) : m = n := by
  rw [← h.prev_next m, hm, h.prev_next]

omit [DecidableEq ν] in
theorem Sound.prev_inj (h : k.Sound) {m : ν} (hm : k.prev m = k.prev n) : m = n := by
  rw [← h.next_prev m, hm, h.next_prev]

theorem Sound.insertBefore (h : k.Sound) (halone : k.next n = n) (hne : n ≠ l) :
    (k.insertBefore l n).Sound where
  next_prev := by
    intro m
    have hlast : k.prev l ≠ n := by
      intro hn
      apply hne
      rw [← halone, ← hn, h.next_prev]
    simp only [Links.insertBefore]
    by_cases hl : m = l
    · simp [hl]
    · by_cases hn : m = n
      · simp [hn, hne, hlast]
      · have hm : k.prev m ≠ n := by
          intro hm
          apply hn
          rw [← h.next_prev m, hm, halone]
        have hml : k.prev m ≠ k.prev l := fun heq => hl (h.prev_inj heq)
        simp [hl, hn, hm, hml, h.next_prev]
  prev_next := by
    intro m
    simp only [Links.insertBefore]
    by_cases hn : m = n
    · simp [hn]
    · by_cases hl : m = k.prev l
      · have hlast : k.prev l ≠ n := hl ▸ hn
        simp [hl, hne, hlast]
      · have hml : k.next m ≠ l := by
          intro hm
          apply hl
          rw [← hm, h.prev_next]
        have hmn : k.next m ≠ n := by
          intro hm
          apply hn
          apply h.next_inj
          rw [hm, halone]
        simp [hl, hn, hml, hmn, h.prev_next]

theorem Sound.remove (h : k.Sound) (n : ν) : (k.remove n).Sound where
  next_prev := by
    intro m
    simp only [Links.remove]
    by_cases hn : m = n
    · simp [hn]
    · by_cases hm : m = k.next n
      · subst hm
        by_cases hself : k.prev n = n
        · have hloop : k.next n = n := by rw [← hself, h.next_prev, hself]
          exact absurd hloop hn
        · simp [hn, hself]
      · have hmn : k.prev m ≠ n := by
          intro heq
          apply hm
          rw [← heq, h.next_prev]
        have hne : k.prev m ≠ k.prev n := fun heq => hn (h.prev_inj heq)
        simp [hn, hm, hmn, hne, h.next_prev]
  prev_next := by
    intro m
    simp only [Links.remove]
    by_cases hn : m = n
    · simp [hn]
    · by_cases hm : m = k.prev n
      · subst hm
        by_cases hself : k.next n = n
        · have hloop : k.prev n = n := by rw [← hself, h.prev_next, hself]
          exact absurd hloop hn
        · simp [hn, hself]
      · have hmn : k.next m ≠ n := by
          intro heq
          apply hm
          rw [← heq, h.prev_next]
        have hne : k.next m ≠ k.next n := fun heq => hn (h.next_inj heq)
        simp [hn, hm, hmn, hne, h.prev_next]

end Links

/-- The nodes met on the way from `a` along the next links to `b`. -/
def Path {ν : Type u} (next : ν → ν) : ν → List ν → ν → Prop
  | a, [], b => next a = b
  | a, n :: ns, b => next a = n ∧ Path next n ns b

namespace Path

variable {ν : Type u} {next next' : ν → ν} {a b m : ν} {ns ms : List ν}

theorem append_iff : Path next a (ns ++ m :: ms) b ↔ Path next a ns m ∧ Path next m ms b := by
  induction ns generalizing a with
  | nil => exact Iff.rfl
  | cons n ns ih => simp only [List.cons_append, Path, ih, and_assoc]

theorem congr (h : Path next a ns b) (heq : ∀ c ∈ a :: ns, next' c = next c) :
    Path next' a ns b := by
  induction ns generalizing a with
  | nil => exact (heq a List.mem_cons_self).trans h
  | cons n ns ih =>
    obtain ⟨hn, hns⟩ := h
    refine ⟨(heq a List.mem_cons_self).trans hn, ih hns ?_⟩
    intro c hc
    exact heq c (List.mem_cons_of_mem a hc)

theorem next_mem (h : Path next a ns b) {c : ν} (hc : c ∈ a :: ns) : next c ∈ ns ++ [b] := by
  induction ns generalizing a with
  | nil =>
    have hca : c = a := List.mem_singleton.mp hc
    rw [hca, (h : next a = b)]
    exact List.mem_singleton_self b
  | cons n ns ih =>
    obtain ⟨hn, hns⟩ := h
    rcases List.mem_cons.mp hc with hca | hc
    · rw [hca, hn]
      exact List.mem_cons_self
    · exact List.mem_cons_of_mem n (ih hns hc)

/-- A path is led elsewhere by one write to its last node. -/
theorem redirect [DecidableEq ν] {p : ν} (h : Path next a ns b) (hp : next p = b)
    (hinj : ∀ {c}, next c = b → c = p) (hb : b ∉ ns) (d : ν) :
    Path (Function.update next p d) a ns d := by
  induction ns generalizing a with
  | nil =>
    have hap : a = p := hinj h
    rw [Path, hap]
    exact Function.update_self ..
  | cons n ns ih =>
    obtain ⟨hn, hns⟩ := h
    rw [List.mem_cons, not_or] at hb
    have hap : a ≠ p := by
      intro hap
      apply hb.1
      rw [← hp, ← hap, hn]
    exact ⟨(Function.update_of_ne hap ..).trans hn, ih hns hb.2⟩

end Path

inductive RingNode (ι : Type u) (α : Type v)
  | head (i : ι)
  | item (x : α)
deriving DecidableEq

variable {ι : Type u} {α : Type v}

/-- The first node of `items`, or the head after the last one. -/
def RingNode.front (i : ι) (items : List α) : RingNode ι α :=
  items.head?.elim (.head i) .item

structure Rings (k : Links (RingNode ι α)) (members : ι → List α) : Prop where
  sound : k.Sound
  path : ∀ i, Path k.next (.head i) ((members i).map .item) (.head i)
  nodup : ∀ i, (members i).Nodup
  disjoint : ∀ {i j x}, x ∈ members i → x ∈ members j → i = j
  alone : ∀ {x}, (∀ i, x ∉ members i) → k.next (.item x) = .item x

namespace Rings

variable {k : Links (RingNode ι α)} {members : ι → List α}

theorem initial : Rings (⟨id, id⟩ : Links (RingNode ι α)) fun _ => [] where
  sound := ⟨fun _ => rfl, fun _ => rfl⟩
  path _ := rfl
  nodup _ := List.nodup_nil
  disjoint hx := absurd hx List.not_mem_nil
  alone _ := rfl

theorem next_head (h : Rings k members) (i : ι) :
    k.next (.head i) = RingNode.front i (members i) := by
  have hpath := h.path i
  cases hitems : members i with
  | nil =>
    rw [hitems] at hpath
    exact hpath
  | cons x xs =>
    rw [hitems] at hpath
    exact hpath.1

theorem next_head_iff (h : Rings k members) (i : ι) :
    k.next (.head i) = .head i ↔ members i = [] := by
  rw [h.next_head]
  cases members i <;> simp [RingNode.front]

/-- A path that does not meet the place of a write leads on as before. -/
theorem path_of_write [DecidableEq ι] [DecidableEq α] {next' : RingNode ι α → RingNode ι α}
    {p n : RingNode ι α} {items : List α} {i : ι} {b c : RingNode ι α}
    (hpath : Path k.next b (items.map .item) (.head i)) (hp : k.next p = c)
    (hc : c ∉ items.map RingNode.item ++ [RingNode.head i]) (hn : n ∉ b :: items.map RingNode.item)
    (hnext : ∀ m, m ≠ p → m ≠ n → next' m = k.next m) :
    Path next' b (items.map .item) (.head i) := by
  apply hpath.congr
  intro m hm
  apply hnext
  · intro hmp
    apply hc
    rw [← hp, ← hmp]
    exact hpath.next_mem hm
  · intro hmn
    exact hn (hmn ▸ hm)

theorem path_to (h : Rings k members) {i : ι} {pre post : List α}
    (hitems : members i = pre ++ post) :
    Path k.next (.head i) (pre.map .item) (RingNode.front i post) := by
  have hpath := h.path i
  rw [hitems] at hpath
  cases post with
  | nil =>
    rw [List.append_nil] at hpath
    exact hpath
  | cons y ys =>
    rw [List.map_append, List.map_cons] at hpath
    exact (Path.append_iff.mp hpath).1

theorem path_from (h : Rings k members) {i : ι} {pre ys : List α} {y : α}
    (hitems : members i = pre ++ y :: ys) : Path k.next (.item y) (ys.map .item) (.head i) := by
  have hpath := h.path i
  rw [hitems, List.map_append, List.map_cons] at hpath
  exact (Path.append_iff.mp hpath).2

theorem next_item (h : Rings k members) {i : ι} {pre post : List α} {x : α}
    (hitems : members i = pre ++ x :: post) : k.next (.item x) = RingNode.front i post := by
  have hpath := h.path_from hitems
  cases post with
  | nil => exact hpath
  | cons y ys => exact hpath.1

theorem front_notMem (h : Rings k members) {i j : ι} {pre post : List α}
    (hitems : members i = pre ++ post) (hij : j ≠ i) :
    RingNode.front i post ∉ (members j).map RingNode.item ++ [RingNode.head j] := by
  cases post with
  | nil => simp [RingNode.front, hij.symm]
  | cons y ys =>
    have hy : y ∈ members i := by simp [hitems]
    have hyj : y ∉ members j := fun hyj => hij (h.disjoint hyj hy)
    simpa [RingNode.front] using hyj

variable [DecidableEq ι] [DecidableEq α]

/-- An item outside every ring goes before any item of a ring, or before its head. -/
theorem insert (h : Rings k members) {i : ι} {pre post : List α} {x : α}
    (hitems : members i = pre ++ post) (hfresh : ∀ j, x ∉ members j) :
    Rings (k.insertBefore (RingNode.front i post) (.item x))
      (Function.update members i (pre ++ x :: post)) := by
  have hx := hfresh i
  have hnodup := h.nodup i
  rw [hitems, List.mem_append, not_or] at hx
  rw [hitems] at hnodup
  have hne : RingNode.item x ≠ RingNode.front i post := by
    cases post with
    | nil => simp [RingNode.front]
    | cons y ys =>
      have hxy : x ≠ y := fun hxy => hx.2 (hxy ▸ List.mem_cons_self)
      simpa [RingNode.front] using hxy
  have hlast : k.next (k.prev (RingNode.front i post)) = RingNode.front i post :=
    h.sound.next_prev _
  have hnext : ∀ m, m ≠ k.prev (RingNode.front i post) → m ≠ .item x →
      (k.insertBefore (RingNode.front i post) (.item x)).next m = k.next m := by
    intro m hp hn
    simp [Links.insertBefore, hp, hn]
  have hitem : (k.insertBefore (RingNode.front i post) (.item x)).next (.item x) =
      RingNode.front i post := Function.update_self ..
  refine ⟨h.sound.insertBefore (h.alone hfresh) hne, ?_, ?_, ?_, ?_⟩
  · intro j
    by_cases hij : j = i
    · subst hij
      rw [Function.update_self, List.map_append, List.map_cons]
      refine Path.append_iff.mpr ⟨?_, ?_⟩
      · have hfront : RingNode.front j post ∉ pre.map RingNode.item := by
          cases post with
          | nil => simp [RingNode.front]
          | cons y ys =>
            have hy : y ∉ pre := fun hy =>
              List.disjoint_of_nodup_append hnodup hy List.mem_cons_self
            simpa [RingNode.front] using hy
        have hpre := (h.path_to hitems).redirect hlast
          (fun hc => h.sound.next_inj (hc.trans hlast.symm)) hfront (.item x)
        apply hpre.congr
        intro c hc
        have hcx : c ≠ .item x := by
          intro hcx
          subst hcx
          simp [hx.1] at hc
        exact Function.update_of_ne hcx ..
      · cases post with
        | nil => exact hitem
        | cons y ys =>
          refine ⟨hitem, path_of_write (h.path_from hitems) hlast ?_ ?_ hnext⟩
          · have hy := (List.nodup_cons.mp (List.nodup_append.mp hnodup).2.1).1
            simpa [RingNode.front] using hy
          · rw [List.mem_cons, not_or] at hx
            simp [hx.2]
    · rw [Function.update_of_ne hij]
      exact path_of_write (h.path j) hlast (h.front_notMem hitems hij) (by simp [hfresh j]) hnext
  · intro j
    by_cases hij : j = i
    · subst hij
      rw [Function.update_self, List.nodup_middle, List.nodup_cons]
      exact ⟨by simp [hx], hnodup⟩
    · rw [Function.update_of_ne hij]
      exact h.nodup j
  · intro j j' y hj hj'
    have hmem : ∀ {j}, y ∈ Function.update members i (pre ++ x :: post) j →
        y ∈ members j ∨ j = i ∧ y = x := by
      intro j hj
      by_cases hij : j = i
      · subst hij
        rw [Function.update_self, List.mem_append, List.mem_cons] at hj
        rw [hitems, List.mem_append]
        tauto
      · rw [Function.update_of_ne hij] at hj
        exact Or.inl hj
    rcases hmem hj with hj | ⟨hj, hy⟩
    · rcases hmem hj' with hj' | ⟨-, hy⟩
      · exact h.disjoint hj hj'
      · exact absurd (hy ▸ hj) (hfresh j)
    · rcases hmem hj' with hj' | ⟨hj', -⟩
      · exact absurd (hy ▸ hj') (hfresh j')
      · rw [hj, hj']
  · intro y hy
    have hyi := hy i
    rw [Function.update_self, List.mem_append, List.mem_cons, not_or, not_or] at hyi
    have hout : ∀ j, y ∉ members j := by
      intro j
      by_cases hij : j = i
      · subst hij
        rw [hitems, List.mem_append, not_or]
        exact ⟨hyi.1, hyi.2.2⟩
      · have hyj := hy j
        rwa [Function.update_of_ne hij] at hyj
    have hself := h.alone hout
    rw [hnext, hself]
    · intro hp
      rw [hp] at hself
      rw [hself] at hlast
      cases post with
      | nil =>
        rw [← hp] at hlast
        cases hlast
      | cons z zs =>
        rw [← hp] at hlast
        cases hlast
        exact hyi.2.2 List.mem_cons_self
    · simpa using hyi.2.1

/-- An item leaves the ring it lies in, if it lies in one. -/
theorem remove (h : Rings k members) (x : α) :
    Rings (k.remove (.item x)) fun i => (members i).erase x := by
  have hlast : k.next (k.prev (.item x)) = .item x := h.sound.next_prev _
  have hnext : ∀ m, m ≠ k.prev (.item x) → m ≠ .item x →
      (k.remove (.item x)).next m = k.next m := by
    intro m hp hn
    simp [Links.remove, hp, hn]
  refine ⟨h.sound.remove _, ?_, fun i => (h.nodup i).erase x, ?_, ?_⟩
  · intro i
    by_cases hx : x ∈ members i
    · obtain ⟨pre, post, hitems⟩ := List.append_of_mem hx
      have hnodup := h.nodup i
      rw [hitems] at hnodup
      have hpre : x ∉ pre := fun hpre =>
        List.disjoint_of_nodup_append hnodup hpre List.mem_cons_self
      have hpost : x ∉ post := (List.nodup_cons.mp (List.nodup_append.mp hnodup).2.1).1
      have herase : (members i).erase x = pre ++ post := by
        rw [hitems, List.erase_append_right _ hpre, List.erase_cons_head]
      have hto : Path k.next (.head i) (pre.map .item) (.item x) := h.path_to hitems
      have hfrom := h.path_from hitems
      have hnextx := h.next_item hitems
      have hredirect : Path (k.remove (.item x)).next (.head i) (pre.map .item)
          (RingNode.front i post) := by
        rw [← hnextx]
        have hpath := hto.redirect hlast (fun hc => h.sound.next_inj (hc.trans hlast.symm))
          (by simpa using hpre) (k.next (.item x))
        apply hpath.congr
        intro c hc
        have hcx : c ≠ .item x := by
          intro hcx
          subst hcx
          simp [hpre] at hc
        exact Function.update_of_ne hcx ..
      rw [herase]
      cases post with
      | nil =>
        rw [List.append_nil]
        exact hredirect
      | cons y ys =>
        rw [List.map_append, List.map_cons]
        rw [List.mem_cons, not_or] at hpost
        refine Path.append_iff.mpr ⟨hredirect, path_of_write hfrom.2 hlast ?_ ?_ hnext⟩
        · simpa using hpost.2
        · simp [hpost]
    · rw [List.erase_of_not_mem hx]
      exact path_of_write (h.path i) hlast (by simpa using hx) (by simpa using hx) hnext
  · intro i j y hi hj
    exact h.disjoint (List.mem_of_mem_erase hi) (List.mem_of_mem_erase hj)
  · intro y hy
    by_cases hyx : y = x
    · subst hyx
      exact Function.update_self ..
    · have hout : ∀ i, y ∉ members i := by
        intro i hyi
        exact hy i ((List.mem_erase_of_ne hyx).mpr hyi)
      have hself := h.alone hout
      rw [hnext, hself]
      · intro hp
        rw [← hp, hself] at hlast
        cases hlast
        exact hyx rfl
      · simpa using hyx

omit [DecidableEq ι] [DecidableEq α] in
/-- The links determine the lists. -/
theorem unique {members' : ι → List α} (h : Rings k members) (h' : Rings k members') :
    members = members' := by
  funext i
  have hpath : ∀ {xs ys : List α} {a : RingNode ι α}, Path k.next a (xs.map .item) (.head i) →
      Path k.next a (ys.map .item) (.head i) → xs = ys := by
    intro xs
    induction xs with
    | nil =>
      intro ys a hxs hys
      cases ys with
      | nil => rfl
      | cons y ys => cases (hxs : k.next a = _).symm.trans hys.1
    | cons x xs ih =>
      intro ys a hxs hys
      cases ys with
      | nil => cases (hys : k.next a = _).symm.trans hxs.1
      | cons y ys =>
        cases hxs.1.symm.trans hys.1
        rw [ih hxs.2 hys.2]
  exact hpath (h.path i) (h'.path i)

end Rings

end DrumMachine.Framework
