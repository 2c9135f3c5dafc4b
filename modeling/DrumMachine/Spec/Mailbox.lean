import DrumMachine.Framework.Machine
import Mathlib.Data.List.Forall2
import Mathlib.Logic.Function.Basic

/-!
# What a message queue is for

The abstract queue knows messages and no nodes: a message is posted behind the others, or
before them, is taken by one receiver and then delivered to it.
-/

namespace DrumMachine

open Framework

variable {τ β : Type}

/-- The messages on the queue, and those taken but not yet delivered. -/
structure Mailbox (τ β : Type) where
  items : List (List β)
  inbox : τ → Option (List β)

inductive MailboxAct (τ β : Type)
  | post (message : List β)
  | postFirst (message : List β)
  | take (t : τ)
  | deliver (t : τ) (data : List β)
  | clear

/-- The delivered bytes are those of the message as far as both go. -/
def Agrees (message data : List β) : Prop :=
  data.take message.length = message.take data.length

instance [DecidableEq β] (message data : List β) : Decidable (Agrees message data) :=
  inferInstanceAs (Decidable (data.take message.length = message.take data.length))

variable [DecidableEq τ] [DecidableEq β]

def Mailbox.step (box : Mailbox τ β) : MailboxAct τ β → Option (Mailbox τ β)
  | .post message => some { box with items := box.items ++ [message] }
  | .postFirst message => some { box with items := message :: box.items }
  | .take t =>
      match box.items, box.inbox t with
      | message :: rest, none => some ⟨rest, Function.update box.inbox t (some message)⟩
      | _, _ => none
  | .deliver t data =>
      match box.inbox t with
      | some message =>
          if Agrees message data then some { box with inbox := Function.update box.inbox t none }
          else none
      | none => none
  | .clear => some { box with items := [] }

def mailbox : Machine (Mailbox τ β) (MailboxAct τ β) where
  init := ⟨[], fun _ => none⟩
  step := Mailbox.step

/-- A step that keeps the order of the messages and drops none. -/
def MailboxAct.Ordered : MailboxAct τ β → Prop
  | .postFirst _ => False
  | .clear => False
  | _ => True

def postsOf (acts : List (MailboxAct τ β)) : List (List β) :=
  acts.filterMap fun
    | .post message => some message
    | _ => none

def deliveredTo (t : τ) (acts : List (MailboxAct τ β)) : List (List β) :=
  acts.filterMap fun
    | .deliver u data => if u = t then some data else none
    | _ => none

def Mailbox.takes (box : Mailbox τ β) : MailboxAct τ β → Option (τ × List β)
  | .take t => box.items.head?.map fun message => (t, message)
  | _ => none

def takenOf (acts : List (MailboxAct τ β)) : List (τ × List β) :=
  mailbox.logFrom Mailbox.takes mailbox.init acts

def takenBy (t : τ) (taken : List (τ × List β)) : List (List β) :=
  taken.filterMap fun p => if p.1 = t then some p.2 else none

/-- Every message posted was taken by one receiver, in the order of the posts, or is still on
the queue; and each receiver was delivered the messages it took, in that order. -/
structure Accounts (acts : List (MailboxAct τ β)) (box : Mailbox τ β) : Prop where
  posted : postsOf acts = (takenOf acts).map Prod.snd ++ box.items
  delivered : ∀ t, ∃ messages, takenBy t (takenOf acts) = messages ++ (box.inbox t).toList ∧
    List.Forall₂ Agrees messages (deliveredTo t acts)

omit [DecidableEq τ] [DecidableEq β] in
theorem postsOf_concat (acts : List (MailboxAct τ β)) (act : MailboxAct τ β) :
    postsOf (acts ++ [act]) = postsOf acts ++ postsOf [act] := List.filterMap_append

omit [DecidableEq β] in
theorem deliveredTo_concat (t : τ) (acts : List (MailboxAct τ β)) (act : MailboxAct τ β) :
    deliveredTo t (acts ++ [act]) = deliveredTo t acts ++ deliveredTo t [act] :=
  List.filterMap_append

omit [DecidableEq β] in
theorem takenBy_append (t : τ) (taken more : List (τ × List β)) :
    takenBy t (taken ++ more) = takenBy t taken ++ takenBy t more := List.filterMap_append

/-- The steps of the mailbox with what each needs. -/
theorem mailbox_step_cases {box box' : Mailbox τ β} {act : MailboxAct τ β}
    (h : box.step act = some box') :
    (∃ message, act = .post message ∧ box' = { box with items := box.items ++ [message] }) ∨
    (∃ message, act = .postFirst message ∧ box' = { box with items := message :: box.items }) ∨
    (∃ t message, act = .take t ∧ box.items = message :: box'.items ∧ box.inbox t = none ∧
      box'.inbox = Function.update box.inbox t (some message)) ∨
    (∃ t message data, act = .deliver t data ∧ box.inbox t = some message ∧
      Agrees message data ∧ box' = { box with inbox := Function.update box.inbox t none }) ∨
    (act = .clear ∧ box' = { box with items := [] }) := by
  cases act with
  | post message =>
    cases h
    exact Or.inl ⟨message, rfl, rfl⟩
  | postFirst message =>
    cases h
    exact Or.inr (Or.inl ⟨message, rfl, rfl⟩)
  | take t =>
    simp only [Mailbox.step] at h
    split at h <;> cases h
    rename_i message rest hitems hinbox
    exact Or.inr (Or.inr (Or.inl ⟨t, message, rfl, hitems, hinbox, rfl⟩))
  | deliver t data =>
    simp only [Mailbox.step] at h
    split at h
    · rename_i message hinbox
      split_ifs at h with hagrees
      cases h
      exact Or.inr (Or.inr (Or.inr (Or.inl ⟨t, message, data, rfl, hinbox, hagrees, rfl⟩)))
    · cases h
  | clear =>
    cases h
    exact Or.inr (Or.inr (Or.inr (Or.inr ⟨rfl, rfl⟩)))

theorem Accounts.step {acts : List (MailboxAct τ β)} {act : MailboxAct τ β}
    {box box' : Mailbox τ β} (hexec : mailbox.exec acts = some box) (h : Accounts acts box)
    (hordered : act.Ordered) (hstep : box.step act = some box') :
    Accounts (acts ++ [act]) box' := by
  have htaken : takenOf (acts ++ [act]) = takenOf acts ++ (box.takes act).toList :=
    mailbox.logFrom_concat Mailbox.takes hexec hstep
  obtain ⟨message, rfl, rfl⟩ | ⟨message, rfl, rfl⟩ | ⟨t, message, rfl, hitems, hinbox, hinbox'⟩ |
    ⟨t, message, data, rfl, hinbox, hagrees, rfl⟩ | ⟨rfl, rfl⟩ := mailbox_step_cases hstep
  · have hsame : takenOf (acts ++ [.post message]) = takenOf acts := by
      rw [htaken]
      exact List.append_nil _
    refine ⟨?_, fun t => ?_⟩
    · rw [hsame, postsOf_concat, h.posted, List.append_assoc]
      rfl
    · rw [hsame, deliveredTo_concat]
      obtain ⟨messages, hmessages, hall⟩ := h.delivered t
      exact ⟨messages, hmessages, by simpa [deliveredTo] using hall⟩
  · cases hordered
  · have hmore : takenOf (acts ++ [.take t]) = takenOf acts ++ [(t, message)] := by
      rw [htaken, Mailbox.takes, hitems]
      rfl
    refine ⟨?_, fun u => ?_⟩
    · rw [hmore, postsOf_concat, h.posted, hitems]
      simp [postsOf]
    · rw [hmore, deliveredTo_concat, takenBy_append, hinbox']
      obtain ⟨messages, hmessages, hall⟩ := h.delivered u
      refine ⟨messages, ?_, by simpa [deliveredTo] using hall⟩
      rw [hmessages]
      by_cases hu : u = t
      · subst hu
        simp [takenBy, hinbox]
      · simp [takenBy, hu, Ne.symm hu]
  · have hsame : takenOf (acts ++ [.deliver t data]) = takenOf acts := by
      rw [htaken]
      exact List.append_nil _
    refine ⟨?_, fun u => ?_⟩
    · rw [hsame, postsOf_concat, h.posted]
      exact List.append_nil _
    · rw [hsame, deliveredTo_concat]
      obtain ⟨messages, hmessages, hall⟩ := h.delivered u
      by_cases hu : u = t
      · subst hu
        rw [hinbox] at hmessages
        refine ⟨messages ++ [message], ?_, ?_⟩
        · simpa using hmessages
        · have hone : deliveredTo u [MailboxAct.deliver u data] = [data] := by simp [deliveredTo]
          rw [hone]
          exact List.rel_append hall (List.Forall₂.cons hagrees List.Forall₂.nil)
      · refine ⟨messages, ?_, ?_⟩
        · simpa [hu] using hmessages
        · simpa [deliveredTo, Ne.symm hu] using hall
  · cases hordered

end DrumMachine
