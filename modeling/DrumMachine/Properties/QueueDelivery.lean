import DrumMachine.Properties.QueueWakeups
import DrumMachine.Spec.Mailbox

/-!
# Delivery through a message queue

However the threads interleave between the critical sections, a message queue with its pool
of nodes behaves as the abstract queue of messages: a message is posted when its sender links
the node, and taken when its receiver unlinks it.
-/

namespace DrumMachine

open Framework

variable {τ β : Type} [DecidableEq τ]

def mailboxLabel (s : MqSystem τ β) : MqAct τ β → Option (MailboxAct τ β)
  | .look t _ =>
      match s.phase t with
      | .receiving _ _ _ => if s.mq.entry = 0 then none else some (.take t)
      | _ => none
  | .copy t =>
      match s.phase t with
      | .copying msg size =>
          some (.deliver t
            ((s.mq.body msg).take (if size > s.mq.msgSize then s.mq.msgSize else size)))
      | _ => none
  | .finish t =>
      match s.phase t with
      | .linking .back _ buffer => some (.post buffer)
      | .linking .front _ buffer => some (.postFirst buffer)
      | _ => none
  | .reset => some .clear
  | _ => none

/-- The node of the phase carries a message. -/
def MqPhase.Carries : MqPhase β → Prop
  | .linking _ _ _ => True
  | .copying _ _ => True
  | _ => False

def MqPhase.Copies : MqPhase β → Prop
  | .copying _ _ => True
  | _ => False

/-- The nodes in the hands of threads hold the message to be posted, or the message taken. -/
structure Carried (s : MqSystem τ β) (inbox : τ → Option (List β)) : Prop where
  filled : ∀ {t e msg buffer}, s.phase t = .linking e msg buffer → buffer <+: s.mq.body msg
  taken : ∀ {t msg size}, s.phase t = .copying msg size →
    ∃ message, inbox t = some message ∧ message <+: s.mq.body msg
  idle : ∀ {t}, ¬(s.phase t).Copies → inbox t = none

structure Represents (s : MqSystem τ β) (box : Mailbox τ β) : Prop where
  sound : QueueSound s
  items : ∀ {used free}, Pool s used free →
    List.Forall₂ (fun message n => message <+: s.mq.body n) box.items used
  carried : Carried s box.inbox

omit [DecidableEq τ] in
theorem Pool.used_unique {s : MqSystem τ β} {used used' free free' : List Nat}
    (h : Pool s used free) (h' : Pool s used' free') : used = used' :=
  h.queue.linked.unique h'.queue.linked

/-- Where a thread of `s'` differs from `s`, it copies no message in `s` and carries none in
`s'`. -/
def QuietPhases (s s' : MqSystem τ β) : Prop :=
  ∀ u, s'.phase u = s.phase u ∨ ¬(s'.phase u).Carries ∧ ¬(s.phase u).Copies

omit [DecidableEq τ] in
private theorem Carried.quiet {s s' : MqSystem τ β} {inbox : τ → Option (List β)}
    (h : Carried s inbox) (hbody : s'.mq.body = s.mq.body) (hphases : QuietPhases s s') :
    Carried s' inbox where
  filled := by
    intro t e msg buffer ht
    rw [hbody]
    rcases hphases t with hsame | ⟨hnot, -⟩
    · exact h.filled (hsame ▸ ht)
    · rw [ht] at hnot
      exact absurd trivial hnot
  taken := by
    intro t msg size ht
    rw [hbody]
    rcases hphases t with hsame | ⟨hnot, -⟩
    · exact h.taken (hsame ▸ ht)
    · rw [ht] at hnot
      exact absurd trivial hnot
  idle := by
    intro t ht
    rcases hphases t with hsame | ⟨-, hnot⟩
    · exact h.idle (hsame ▸ ht)
    · exact h.idle hnot

omit [DecidableEq τ] in
private theorem Represents.quiet {s s' : MqSystem τ β} {box : Mailbox τ β} (h : Represents s box)
    (hsound : QueueSound s') (hbody : s'.mq.body = s.mq.body)
    (hused : ∀ {used free}, Pool s used free → ∃ free', Pool s' used free')
    (hphases : QuietPhases s s') : Represents s' box := by
  refine ⟨hsound, ?_, h.carried.quiet hbody hphases⟩
  intro used' free' hpool'
  obtain ⟨used, free, hpool, -⟩ := h.sound.pool
  obtain ⟨free'', hpool''⟩ := hused hpool
  rw [hpool'.used_unique hpool'', hbody]
  exact h.items hpool

private theorem setPhase_quiet {s : MqSystem τ β} {t : τ} {p : MqPhase β}
    (hp : ¬p.Carries) (ht : ¬(s.phase t).Copies) : QuietPhases s (s.setPhase t p) := by
  intro u
  by_cases hu : u = t
  · subst hu
    rw [s.setPhase_self]
    exact Or.inr ⟨hp, ht⟩
  · exact Or.inl (s.setPhase_of_ne hu p)

omit [DecidableEq τ] in
private theorem resume_quiet (p : MqPhase β) : p.resume = p ∨ ¬p.resume.Carries ∧ ¬p.Copies := by
  cases p <;> first | exact Or.inl rfl | exact Or.inr ⟨id, id⟩

private theorem resumeReceiver_quiet (s : MqSystem τ β) : QuietPhases s s.resumeReceiver := by
  intro u
  rw [MqSystem.resumeReceiver]
  split
  · exact Or.inl rfl
  · rename_i t rest hlist
    by_cases hu : u = t
    · subst hu
      rw [MqSystem.setPhase_self]
      exact resume_quiet _
    · exact Or.inl (MqSystem.setPhase_of_ne _ hu _)

private theorem resumeSender_quiet (s : MqSystem τ β) : QuietPhases s s.resumeSender := by
  intro u
  rw [MqSystem.resumeSender]
  split
  · exact Or.inl rfl
  · rename_i t rest hlist
    by_cases hu : u = t
    · subst hu
      rw [MqSystem.setPhase_self]
      exact resume_quiet _
    · exact Or.inl (MqSystem.setPhase_of_ne _ hu _)

omit [DecidableEq τ] in
private theorem QuietPhases.trans {s s' s'' : MqSystem τ β} (h : QuietPhases s s')
    (h' : QuietPhases s' s'') : QuietPhases s s'' := by
  intro u
  rcases h u with hsame | ⟨hnot, hcopies⟩ <;> rcases h' u with hsame' | ⟨hnot', hcopies'⟩
  · exact Or.inl (hsame'.trans hsame)
  · exact Or.inr ⟨hnot', hsame ▸ hcopies'⟩
  · exact Or.inr ⟨hsame' ▸ hnot, hcopies⟩
  · exact Or.inr ⟨hnot', hcopies⟩

theorem agrees_take {message bytes : List β} (h : message <+: bytes) (k : Nat) :
    Agrees message (bytes.take k) := by
  obtain ⟨rest, rfl⟩ := h
  rw [Agrees, List.take_take, List.length_take, List.length_append]
  by_cases hk : k ≤ message.length
  · rw [Nat.min_eq_right hk, List.take_append_of_le_length hk]
    congr 1
    omega
  · have hle : message.length ≤ k := by omega
    rw [Nat.min_eq_left hle, List.take_left, List.take_of_length_le (by omega)]

omit [DecidableEq τ] in
private theorem label_sends {s : MqSystem τ β} {t : τ} {e : QueueEnd} {buffer : List β}
    (elapsed : Nat) (h : (s.phase t).Sends e buffer) :
    mailboxLabel s (.look t elapsed) = none := by
  rw [mailboxLabel]
  generalize s.phase t = p at h
  cases h <;> rfl

omit [DecidableEq τ] in
private theorem not_copies_of_sends {p : MqPhase β} {e : QueueEnd} {buffer : List β}
    (h : p.Sends e buffer) : ¬p.Copies := by
  cases h <;> exact id

section Step

variable [DecidableEq β] {flag : IpcFlag} {priority : τ → Nat} {s s' : MqSystem τ β}
variable {box : Mailbox τ β}

omit [DecidableEq β] in
private theorem represents_takeFirst {t : τ} {msg size : Nat} {timeout : Int} {woken : Bool}
    (h : Represents s box) (hphase : s.phase t = .receiving size timeout woken)
    (hhead : s.mq.msgQueueHead = some msg)
    (hsound : QueueSound ({ s with mq := s.mq.takeFirst msg }.setPhase t (.copying msg size))) :
    ∃ message rest, box.items = message :: rest ∧ box.inbox t = none ∧
      Represents ({ s with mq := s.mq.takeFirst msg }.setPhase t (.copying msg size))
        ⟨rest, Function.update box.inbox t (some message)⟩ := by
  obtain ⟨used, free, hpool, -⟩ := h.sound.pool
  have hidle : (s.phase t).node = none := by rw [hphase]; rfl
  obtain ⟨tail, rfl, hpool'⟩ := hpool.takeFirst size hidle hhead
  have hitems := h.items hpool
  cases hbox : box.items with
  | nil =>
    rw [hbox] at hitems
    cases hitems
  | cons message rest =>
    rw [hbox] at hitems
    obtain ⟨hmessage, hrest⟩ := List.forall₂_cons.mp hitems
    have hempty : box.inbox t = none := h.carried.idle (by rw [hphase]; exact id)
    refine ⟨message, rest, rfl, hempty, hsound, ?_, ?_, ?_, ?_⟩
    · intro used' free' hpool''
      rw [hpool''.used_unique hpool']
      exact hrest
    · intro u e msg' buffer hu
      have hp : MqPhase.copying msg size ≠ .linking e msg' buffer := nofun
      exact h.carried.filled (Pool.linking_setPhase hp hu)
    · intro u msg' size' hu
      by_cases hut : u = t
      · subst hut
        rw [MqSystem.setPhase_self] at hu
        cases hu
        exact ⟨message, Function.update_self .., hmessage⟩
      · rw [MqSystem.setPhase_of_ne _ hut] at hu
        obtain ⟨m, hm, hprefix⟩ := h.carried.taken hu
        exact ⟨m, (Function.update_of_ne hut ..).trans hm, hprefix⟩
    · intro u hu
      have hut : u ≠ t := by
        rintro rfl
        rw [MqSystem.setPhase_self] at hu
        exact hu trivial
      rw [MqSystem.setPhase_of_ne _ hut] at hu
      exact (Function.update_of_ne hut ..).trans (h.carried.idle hu)

omit [DecidableEq τ] [DecidableEq β] in
private theorem prefixes_update {body : Nat → List β} {msg : Nat} {bytes : List β}
    {messages : List (List β)} {nodes : List Nat} (hmsg : msg ∉ nodes)
    (h : List.Forall₂ (fun message n => message <+: body n) messages nodes) :
    List.Forall₂ (fun message n => message <+: Function.update body msg bytes n) messages nodes := by
  induction h with
  | nil => exact List.Forall₂.nil
  | cons hprefix _ ih =>
    rw [List.mem_cons, not_or] at hmsg
    refine List.Forall₂.cons ?_ (ih hmsg.2)
    rw [Function.update_of_ne (Ne.symm hmsg.1)]
    exact hprefix

omit [DecidableEq β] in
/-- The slot that a sender fills is its own, so that no message on the queue or in the hands
of a receiver is overwritten. -/
private theorem represents_fill {t : τ} {e : QueueEnd} {msg : Nat} {buffer : List β}
    (h : Represents s box) (hphase : s.phase t = .filling e msg buffer)
    (hsound : QueueSound
      ({ s with mq := s.mq.fill e msg buffer }.setPhase t (.linking e msg buffer))) :
    Represents ({ s with mq := s.mq.fill e msg buffer }.setPhase t (.linking e msg buffer)) box := by
  obtain ⟨used, free, hpool, -⟩ := h.sound.pool
  have hnode : (s.phase t).node = some msg := by rw [hphase]; rfl
  have hother : ∀ {u n}, u ≠ t → (s.phase u).node = some n → n ≠ msg := by
    rintro u n hut hu rfl
    exact hut (hpool.owned.alone hu hnode)
  refine ⟨hsound, ?_, ?_, ?_, ?_⟩
  · intro used' free' hpool'
    rw [hpool'.used_unique (hpool.fill hphase)]
    exact prefixes_update (hpool.notMem_used hnode) (h.items hpool)
  · intro u e' msg' buffer' hu
    by_cases hut : u = t
    · subst hut
      rw [MqSystem.setPhase_self] at hu
      cases hu
      change buffer <+: Function.update s.mq.body msg _ msg
      rw [Function.update_self]
      exact List.prefix_append buffer _
    · rw [MqSystem.setPhase_of_ne _ hut] at hu
      have hunode : (s.phase u).node = some msg' := by rw [hu]; rfl
      change buffer' <+: Function.update s.mq.body msg _ msg'
      rw [Function.update_of_ne (hother hut hunode)]
      exact h.carried.filled hu
  · intro u msg' size hu
    have hut : u ≠ t := by
      rintro rfl
      rw [MqSystem.setPhase_self] at hu
      cases hu
    rw [MqSystem.setPhase_of_ne _ hut] at hu
    have hunode : (s.phase u).node = some msg' := by rw [hu]; rfl
    change ∃ message, _ ∧ message <+: Function.update s.mq.body msg _ msg'
    rw [Function.update_of_ne (hother hut hunode)]
    exact h.carried.taken hu
  · intro u hu
    by_cases hut : u = t
    · subst hut
      exact h.carried.idle (by rw [hphase]; exact id)
    · rw [MqSystem.setPhase_of_ne _ hut] at hu
      exact h.carried.idle hu

omit [DecidableEq β] in
private theorem represents_copyOut {t : τ} {msg size : Nat} {data : List β} {message : List β}
    (h : Represents s box) (hphase : s.phase t = .copying msg size)
    (hinbox : box.inbox t = some message)
    (hsound : QueueSound (s.setPhase t (.releasing msg data))) :
    Represents (s.setPhase t (.releasing msg data))
      { box with inbox := Function.update box.inbox t none } := by
  obtain ⟨used, free, hpool, -⟩ := h.sound.pool
  have hnode : (s.phase t).node = some msg := by rw [hphase]; rfl
  refine ⟨hsound, ?_, ?_, ?_, ?_⟩
  · intro used' free' hpool'
    have hkept : Pool (s.setPhase t (.releasing msg data)) used free :=
      hpool.setPhase hnode.symm nofun
    rw [hpool'.used_unique hkept]
    exact h.items hpool
  · intro u e msg' buffer hu
    have hp : MqPhase.releasing msg data ≠ .linking e msg' buffer := nofun
    exact h.carried.filled (Pool.linking_setPhase hp hu)
  · intro u msg' size' hu
    have hut : u ≠ t := by
      rintro rfl
      rw [MqSystem.setPhase_self] at hu
      cases hu
    rw [MqSystem.setPhase_of_ne _ hut] at hu
    obtain ⟨m, hm, hprefix⟩ := h.carried.taken hu
    exact ⟨m, (Function.update_of_ne hut ..).trans hm, hprefix⟩
  · intro u hu
    by_cases hut : u = t
    · subst hut
      exact Function.update_self ..
    · rw [MqSystem.setPhase_of_ne _ hut] at hu
      exact (Function.update_of_ne hut ..).trans (h.carried.idle hu)

omit [DecidableEq β] in
private theorem represents_send {t : τ} {e : QueueEnd} {msg : Nat} {buffer : List β}
    (h : Represents s box) (hphase : s.phase t = .linking e msg buffer)
    (hsound : QueueSound (s.finishSend t e msg)) :
    Represents (s.finishSend t e msg) { box with items := e.enqueue buffer box.items } := by
  obtain ⟨used, free, hpool, -⟩ := h.sound.pool
  obtain ⟨hfinish, hpool'⟩ := hpool.finishSend hphase
  have hbody : (s.finishSend t e msg).mq.body = s.mq.body := by
    rw [hfinish, MqSystem.resumeReceiver]
    split <;> cases e <;> rfl
  -- the sender returns and one receiver may be resumed
  have hphases : QuietPhases s (s.finishSend t e msg) := by
    rw [hfinish]
    refine QuietPhases.trans ?_ (resumeReceiver_quiet _)
    have hreturned : ¬(MqPhase.returned .ok : MqPhase β).Carries := id
    exact setPhase_quiet (s := s) hreturned (by rw [hphase]; exact id)
  refine ⟨hsound, ?_, h.carried.quiet hbody hphases⟩
  intro used' free' hpool''
  rw [hpool''.used_unique hpool', hbody]
  cases e with
  | back =>
    exact List.rel_append (h.items hpool)
      (List.Forall₂.cons (h.carried.filled hphase) List.Forall₂.nil)
  | front => exact List.Forall₂.cons (h.carried.filled hphase) (h.items hpool)

omit [DecidableEq β] in
private theorem represents_reset (h : Represents s box) (hsound : QueueSound s.reset) :
    Represents s.reset { box with items := [] } := by
  obtain ⟨used, free, hpool, -⟩ := h.sound.pool
  have hwaiting := h.sound.waiting
  have hbody : s.reset.mq.body = s.mq.body := by
    have hfuel : used.length ≤ s.mq.maxMsgs := by
      have hle := hpool.owned.store_length_le
      rw [List.length_append] at hle
      omega
    exact (releaseAll_released hpool.queue hpool.freeList hpool.owned.nodup hfuel).body
  have hphases : QuietPhases s s.reset := by
    intro u
    rcases hwaiting.reset_cases u with ⟨hphase, hwaits⟩ | ⟨hphase, -⟩
    · rw [hphase]
      refine Or.inr ⟨id, ?_⟩
      generalize s.phase u = p at hwaits
      cases p <;> first | exact id | exact absurd hwaits (by rintro (h | h) <;> exact h)
    · exact Or.inl hphase
  refine ⟨hsound, ?_, h.carried.quiet hbody hphases⟩
  intro used' free' hpool'
  rw [hpool'.used_unique (hpool.reset hwaiting)]
  exact List.Forall₂.nil

private theorem mailbox_idle (box : Mailbox τ β) : mailbox.execFrom box [] = some box := rfl

theorem Represents.step {act : MqAct τ β} (h : Represents s box)
    (he : MqEffect flag priority s act s') :
    ∃ box', mailbox.execFrom box (mailboxLabel s act).toList = some box' ∧
      Represents s' box' := by
  have hsound := h.sound.step he
  cases he with
  | call t c result p hphase hstarts =>
    have hcopies : ¬(s.phase t).Copies := by rw [hphase]; exact id
    have hcarries : ¬p.Carries := by cases hstarts <;> exact id
    have hidle : (s.phase t).node = none := by rw [hphase]; rfl
    refine ⟨box, mailbox_idle box, h.quiet hsound rfl ?_ (setPhase_quiet hcarries hcopies)⟩
    intro used free hpool
    refine ⟨free, hpool.setPhase (hstarts.node.trans hidle.symm) ?_⟩
    rintro msg buffer rfl
    exact absurd trivial hcarries
  | full t elapsed e buffer hphase hfree =>
    rw [label_sends elapsed hphase]
    refine ⟨box, mailbox_idle box,
      h.quiet hsound rfl ?_ (setPhase_quiet id (not_copies_of_sends hphase))⟩
    intro used free hpool
    exact ⟨free, hpool.setPhase hphase.node.symm nofun⟩
  | suspendSend t elapsed buffer timeout ticks woken hphase hfree =>
    have hcopies : ¬(s.phase t).Copies := by rw [hphase]; exact id
    have hidle : (s.phase t).node = none := by rw [hphase]; rfl
    have hlabel : mailboxLabel s (.look t elapsed) = none := by rw [mailboxLabel, hphase]
    rw [hlabel]
    refine ⟨box, mailbox_idle box, h.quiet hsound rfl ?_
      (setPhase_quiet (s := { s with
        suspendSenderThread := rtIpcListSuspend priority s.suspendSenderThread t flag })
        id hcopies)⟩
    intro used free hpool
    have hlists : Pool { s with
        suspendSenderThread := rtIpcListSuspend priority s.suspendSenderThread t flag } used free :=
      ⟨hpool.queue, hpool.freeList, hpool.entry, hpool.small, hpool.owned, hpool.cleared⟩
    exact ⟨free, hlists.setPhase hidle.symm nofun⟩
  | takeFree t elapsed e msg buffer hphase hfree =>
    rw [label_sends elapsed hphase]
    refine ⟨box, mailbox_idle box,
      h.quiet hsound rfl ?_ (setPhase_quiet id (not_copies_of_sends hphase))⟩
    intro used free hpool
    obtain ⟨rest, -, hrest⟩ := hpool.takeFree e buffer hphase.node hfree
    exact ⟨rest, hrest⟩
  | empty t elapsed size timeout woken hphase hentry =>
    have hcopies : ¬(s.phase t).Copies := by rw [hphase]; exact id
    have hidle : (s.phase t).node = none := by rw [hphase]; rfl
    have hlabel : mailboxLabel s (.look t elapsed) = none := by
      simp only [mailboxLabel, hphase, hentry, ↓reduceIte]
    rw [hlabel]
    refine ⟨box, mailbox_idle box, h.quiet hsound rfl ?_ (setPhase_quiet id hcopies)⟩
    intro used free hpool
    exact ⟨free, hpool.setPhase hidle.symm nofun⟩
  | suspendRecv t elapsed size timeout ticks woken hphase hentry =>
    have hcopies : ¬(s.phase t).Copies := by rw [hphase]; exact id
    have hidle : (s.phase t).node = none := by rw [hphase]; rfl
    have hlabel : mailboxLabel s (.look t elapsed) = none := by
      simp only [mailboxLabel, hphase, hentry, ↓reduceIte]
    rw [hlabel]
    refine ⟨box, mailbox_idle box, h.quiet hsound rfl ?_
      (setPhase_quiet (s := { s with
        suspendThread := rtIpcListSuspend priority s.suspendThread t flag }) id hcopies)⟩
    intro used free hpool
    have hlists : Pool { s with
        suspendThread := rtIpcListSuspend priority s.suspendThread t flag } used free :=
      ⟨hpool.queue, hpool.freeList, hpool.entry, hpool.small, hpool.owned, hpool.cleared⟩
    exact ⟨free, hlists.setPhase hidle.symm nofun⟩
  | takeFirst t elapsed msg size timeout woken hphase hentry hhead =>
    obtain ⟨message, rest, hitems, hinbox, hrepresents⟩ :=
      represents_takeFirst h hphase hhead hsound
    have hlabel : mailboxLabel s (.look t elapsed) = some (.take t) := by
      simp only [mailboxLabel, hphase, hentry, ↓reduceIte]
    have hstep : mailbox.step box (.take t) =
        some ⟨rest, Function.update box.inbox t (some message)⟩ := by
      change Mailbox.step box (.take t) = _
      rw [Mailbox.step, hitems, hinbox]
    rw [hlabel]
    exact ⟨_, mailbox.execFrom_singleton hstep, hrepresents⟩
  | fill t e msg buffer hphase =>
    have hlabel : mailboxLabel s (.copy t) = none := by rw [mailboxLabel, hphase]
    rw [hlabel]
    exact ⟨box, mailbox_idle box, represents_fill h hphase hsound⟩
  | copyOut t msg size hphase =>
    obtain ⟨message, hinbox, hprefix⟩ := h.carried.taken hphase
    have hlabel : mailboxLabel s (.copy t) = some (.deliver t
        ((s.mq.body msg).take (if size > s.mq.msgSize then s.mq.msgSize else size))) := by
      rw [mailboxLabel, hphase]
    have hstep : mailbox.step box (.deliver t
        ((s.mq.body msg).take (if size > s.mq.msgSize then s.mq.msgSize else size))) =
          some { box with inbox := Function.update box.inbox t none } := by
      change Mailbox.step box (.deliver t _) = _
      simp only [Mailbox.step, hinbox, agrees_take hprefix, ↓reduceIte]
    rw [hlabel]
    exact ⟨_, mailbox.execFrom_singleton hstep, represents_copyOut h hphase hinbox hsound⟩
  | send t e msg buffer hphase =>
    have hrepresents := represents_send h hphase hsound
    cases e with
    | back =>
      have hlabel : mailboxLabel s (.finish t) = some (.post buffer) := by
        rw [mailboxLabel, hphase]
      rw [hlabel]
      exact ⟨_, rfl, hrepresents⟩
    | front =>
      have hlabel : mailboxLabel s (.finish t) = some (.postFirst buffer) := by
        rw [mailboxLabel, hphase]
      rw [hlabel]
      exact ⟨_, rfl, hrepresents⟩
  | receive t msg data hphase =>
    have hcopies : ¬(s.phase t).Copies := by rw [hphase]; exact id
    have hlabel : mailboxLabel s (.finish t) = none := by rw [mailboxLabel, hphase]
    have hbody : (s.finishRecv t msg data).mq.body = s.mq.body := by
      rw [MqSystem.finishRecv, MqSystem.resumeSender]
      split <;> rfl
    have hreturned : ¬(MqPhase.returned (.received data)).Carries := id
    rw [hlabel]
    refine ⟨box, mailbox_idle box, h.quiet hsound hbody ?_ ?_⟩
    · intro used free hpool
      exact ⟨_, hpool.finishRecv hphase⟩
    · exact QuietPhases.trans (setPhase_quiet (s := s) hreturned hcopies) (resumeSender_quiet _)
  | expireSend t buffer timeout hphase =>
    have hcopies : ¬(s.phase t).Copies := by rw [hphase]; exact id
    have hidle : (s.phase t).node = none := by rw [hphase]; rfl
    refine ⟨box, mailbox_idle box, h.quiet hsound rfl ?_
      (setPhase_quiet (s := { s with suspendSenderThread := s.suspendSenderThread.erase t })
        id hcopies)⟩
    intro used free hpool
    have hlists : Pool { s with
        suspendSenderThread := s.suspendSenderThread.erase t } used free :=
      ⟨hpool.queue, hpool.freeList, hpool.entry, hpool.small, hpool.owned, hpool.cleared⟩
    exact ⟨free, hlists.setPhase hidle.symm nofun⟩
  | expireRecv t size timeout hphase =>
    have hcopies : ¬(s.phase t).Copies := by rw [hphase]; exact id
    have hidle : (s.phase t).node = none := by rw [hphase]; rfl
    refine ⟨box, mailbox_idle box, h.quiet hsound rfl ?_
      (setPhase_quiet (s := { s with suspendThread := s.suspendThread.erase t }) id hcopies)⟩
    intro used free hpool
    have hlists : Pool { s with suspendThread := s.suspendThread.erase t } used free :=
      ⟨hpool.queue, hpool.freeList, hpool.entry, hpool.small, hpool.owned, hpool.cleared⟩
    exact ⟨free, hlists.setPhase hidle.symm nofun⟩
  | reset => exact ⟨_, rfl, represents_reset h hsound⟩

end Step

section Runs

variable [DecidableEq β]

omit [DecidableEq τ] [DecidableEq β] in
theorem represents_start (msgSize maxMsgs : Nat) (links : Nat → Option Nat)
    (memory : Nat → Nat → β) :
    Represents (⟨rtMqCreate msgSize maxMsgs links memory, [], [], fun _ => .returned .ok⟩ :
      MqSystem τ β) ⟨[], fun _ => none⟩ := by
  refine ⟨queueSound_start msgSize maxMsgs links memory, ?_, nofun, nofun, fun _ => rfl⟩
  intro used free hpool
  rw [hpool.used_unique (rtMqCreate_pool msgSize maxMsgs links memory)]
  exact List.Forall₂.nil

end Runs

end DrumMachine
