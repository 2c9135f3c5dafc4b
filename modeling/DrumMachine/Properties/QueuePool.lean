import DrumMachine.Framework.Ownership
import DrumMachine.Properties.QueueWaiters

/-!
# The nodes of a message queue

Between two critical sections a thread works on a node that is on no list. In every run each
node of the pool is queued, free or held by one thread, the links and the counter agree with
the lists, and no step follows a null link or overflows the counter.
-/

namespace DrumMachine

open Framework

variable {τ β : Type}

/-- The node that a thread works on outside the critical sections. -/
def MqPhase.node : MqPhase β → Option Nat
  | .filling _ msg _ => some msg
  | .linking _ msg _ => some msg
  | .copying msg _ => some msg
  | .releasing msg _ => some msg
  | _ => none

theorem MqPhase.resume_node (p : MqPhase β) : p.resume.node = p.node := by cases p <;> rfl

theorem MqPhase.resume_linking {p : MqPhase β} {e : QueueEnd} {msg : Nat} {buffer : List β}
    (h : p.resume = .linking e msg buffer) : p = .linking e msg buffer := by
  cases p <;> first | exact h | cases h

theorem MqPhase.Sends.node {p : MqPhase β} {e : QueueEnd} {buffer : List β}
    (h : p.Sends e buffer) : p.node = none := by
  cases h <;> rfl

theorem MqPhase.Starts.node {p : MqPhase β} {msgSize : Nat} (h : p.Starts msgSize) :
    p.node = none := by
  cases h <;> rfl

theorem MqPhase.node_of_waits {p : MqPhase β} (h : p.WaitsRecv ∨ p.WaitsSend) : p.node = none := by
  cases p <;> first | rfl | exact absurd h (by rintro (h | h) <;> exact h)

/-- The message queue holds the nodes `used`, oldest first, and the free list `free`. -/
structure Pool (s : MqSystem τ β) (used free : List Nat) : Prop where
  queue : LinkedQueue s.mq.next s.mq.msgQueueHead s.mq.msgQueueTail used
  freeList : Linked s.mq.next s.mq.msgQueueFree free
  entry : s.mq.entry = used.length
  small : s.mq.maxMsgs ≤ rtMqEntryMax
  owned : Ownership s.mq.maxMsgs (fun t => (s.phase t).node) (used ++ free)
  cleared : ∀ {t msg buffer}, s.phase t = .linking .back msg buffer → s.mq.next msg = none

variable [DecidableEq τ]

namespace Pool

variable {s : MqSystem τ β} {used rest : List Nat} {t : τ} {n : Nat} {p : MqPhase β}

omit [DecidableEq τ] in
theorem notMem_used {free : List Nat} (h : Pool s used free) (hn : (s.phase t).node = some n) :
    n ∉ used := fun hmem => (h.owned.held hn).2 (List.mem_append_left _ hmem)

omit [DecidableEq τ] in
theorem notMem_free {free : List Nat} (h : Pool s used free) (hn : (s.phase t).node = some n) :
    n ∉ free := fun hmem => (h.owned.held hn).2 (List.mem_append_right _ hmem)

theorem entry_lt {free : List Nat} (h : Pool s used free) (hn : (s.phase t).node = some n) :
    s.mq.entry < rtMqEntryMax := by
  have hlt := h.owned.store_length_lt hn
  have hsmall := h.small
  rw [List.length_append] at hlt
  rw [h.entry]
  omega

theorem node_setPhase (s : MqSystem τ β) (t : τ) (p : MqPhase β) :
    (fun u => ((s.setPhase t p).phase u).node) =
      Function.update (fun u => (s.phase u).node) t p.node := by
  funext u
  by_cases hu : u = t
  · subst hu
    rw [s.setPhase_self, Function.update_self]
  · rw [s.setPhase_of_ne hu, Function.update_of_ne hu]

theorem linking_setPhase {e : QueueEnd} {msg : Nat} {buffer : List β} {u : τ}
    (hp : p ≠ .linking e msg buffer) (h : (s.setPhase t p).phase u = .linking e msg buffer) :
    s.phase u = .linking e msg buffer := by
  by_cases hu : u = t
  · subst hu
    rw [s.setPhase_self] at h
    exact absurd h hp
  · rwa [s.setPhase_of_ne hu] at h

/-- A thread changes its phase but neither takes nor gives back a node. -/
theorem setPhase {free : List Nat} (h : Pool s used free) (hnode : p.node = (s.phase t).node)
    (hp : ∀ {msg buffer}, p = .linking .back msg buffer → s.mq.next msg = none) :
    Pool (s.setPhase t p) used free where
  queue := h.queue
  freeList := h.freeList
  entry := h.entry
  small := h.small
  owned := by
    rw [node_setPhase, hnode, Function.update_eq_self]
    exact h.owned
  cleared := by
    intro u msg buffer hu
    by_cases hp' : p = .linking .back msg buffer
    · exact hp hp'
    · exact h.cleared (linking_setPhase hp' hu)

theorem resumeReceiver {free : List Nat} (h : Pool s used free) : Pool s.resumeReceiver used free := by
  rw [MqSystem.resumeReceiver]
  split
  · exact h
  · rename_i t rest hlist
    have hlists : Pool { s with suspendThread := rest } used free :=
      ⟨h.queue, h.freeList, h.entry, h.small, h.owned, h.cleared⟩
    exact hlists.setPhase (MqPhase.resume_node _) fun hp => h.cleared (MqPhase.resume_linking hp)

theorem resumeSender {free : List Nat} (h : Pool s used free) : Pool s.resumeSender used free := by
  rw [MqSystem.resumeSender]
  split
  · exact h
  · rename_i t rest hlist
    have hlists : Pool { s with suspendSenderThread := rest } used free :=
      ⟨h.queue, h.freeList, h.entry, h.small, h.owned, h.cleared⟩
    exact hlists.setPhase (MqPhase.resume_node _) fun hp => h.cleared (MqPhase.resume_linking hp)

theorem takeFree {free : List Nat} {msg : Nat} (h : Pool s used free) (e : QueueEnd)
    (buffer : List β) (hidle : (s.phase t).node = none)
    (hfree : s.mq.msgQueueFree = some msg) :
    ∃ rest, free = msg :: rest ∧ Pool (s.takeFree t e msg buffer) used rest := by
  have hlinked := h.freeList
  rw [hfree] at hlinked
  obtain ⟨rest, rfl, hrest⟩ := hlinked.exists_cons
  refine ⟨rest, rfl, h.queue, hrest, h.entry, h.small, ?_, ?_⟩
  · have hmoved : (msg :: (used ++ rest)).Perm (used ++ msg :: rest) := List.perm_middle.symm
    have howned := (h.owned.perm hmoved).take hidle
    rw [MqSystem.takeFree, node_setPhase]
    exact howned
  · intro u m b hu
    have hp : MqPhase.filling e msg buffer ≠ .linking .back m b := nofun
    have hu' : s.phase u = .linking .back m b := linking_setPhase hp hu
    exact h.cleared hu'

theorem takeFirst {free : List Nat} {msg : Nat} (h : Pool s used free) (size : Nat)
    (hidle : (s.phase t).node = none) (hhead : s.mq.msgQueueHead = some msg) :
    ∃ rest, used = msg :: rest ∧
      Pool ({ s with mq := s.mq.takeFirst msg }.setPhase t (.copying msg size)) rest free := by
  have hqueue := h.queue
  rw [hhead] at hqueue
  obtain ⟨rest, rfl, hrest⟩ := hqueue.pop
  have hentry := h.entry
  rw [List.length_cons] at hentry
  refine ⟨rest, rfl, hrest, h.freeList, ?_, h.small, ?_, ?_⟩
  · change (if s.mq.entry > 0 then s.mq.entry - 1 else s.mq.entry) = rest.length
    rw [hentry, if_pos (Nat.succ_pos _)]
    rfl
  · have howned := h.owned.take hidle
    rw [node_setPhase]
    exact howned
  · intro u m b hu
    have hp : MqPhase.copying msg size ≠ .linking .back m b := nofun
    have hu' : s.phase u = .linking .back m b := linking_setPhase hp hu
    exact h.cleared hu'

theorem fill {free : List Nat} {e : QueueEnd} {msg : Nat} {buffer : List β}
    (h : Pool s used free) (hphase : s.phase t = .filling e msg buffer) :
    Pool ({ s with mq := s.mq.fill e msg buffer }.setPhase t (.linking e msg buffer)) used free := by
  have hnode : (s.phase t).node = some msg := by rw [hphase]; rfl
  have hfilled : Pool { s with mq := s.mq.fill e msg buffer } used free := by
    cases e with
    | front => exact ⟨h.queue, h.freeList, h.entry, h.small, h.owned, h.cleared⟩
    | back =>
      refine ⟨h.queue.update (h.notMem_used hnode), h.freeList.update (h.notMem_free hnode), h.entry,
        h.small, h.owned, ?_⟩
      intro u m b hu
      by_cases hm : m = msg
      · exact hm ▸ Function.update_self ..
      · exact (Function.update_of_ne hm ..).trans (h.cleared hu)
  refine hfilled.setPhase hnode.symm ?_
  intro m b hp
  cases hp
  exact Function.update_self ..

omit [DecidableEq τ] in
/-- The node of a finished sender is queued, before it is counted. -/
private theorem link_queue {free : List Nat} {e : QueueEnd} {msg : Nat} {buffer : List β}
    (h : Pool s used free) (hphase : s.phase t = .linking e msg buffer) :
    ∃ used', used'.Perm (msg :: used) ∧
      used' = e.enqueue msg used ∧
      LinkedQueue (s.mq.link msg e).next (s.mq.link msg e).msgQueueHead
        (s.mq.link msg e).msgQueueTail used' ∧
      Linked (s.mq.link msg e).next (s.mq.link msg e).msgQueueFree free ∧
      (∀ {u m b}, u ≠ t → s.phase u = .linking .back m b → (s.mq.link msg e).next m = none) := by
  have hnode : (s.phase t).node = some msg := by rw [hphase]; rfl
  cases e with
  | front =>
    refine ⟨msg :: used, List.Perm.refl _, rfl, h.queue.push_front (h.notMem_used hnode),
      h.freeList.update (h.notMem_free hnode), ?_⟩
    intro u m b hut hu
    have hne : m ≠ msg := by
      rintro rfl
      have hunode : (s.phase u).node = some m := by rw [hu]; rfl
      exact hut (h.owned.alone hunode hnode)
    exact (Function.update_of_ne hne ..).trans (h.cleared hu)
  | back =>
    refine ⟨used ++ [msg], List.perm_append_singleton msg used, rfl,
      h.queue.push_back (h.notMem_used hnode) (h.cleared hphase), ?_⟩
    -- only the old tail is written to, and it is queued
    cases htail : s.mq.msgQueueTail with
    | none =>
      have hnext : (s.mq.link msg .back).next = s.mq.next := by rw [MessageQueue.link, htail]; rfl
      rw [hnext]
      exact ⟨h.freeList, fun _ hu => h.cleared hu⟩
    | some tail =>
      have hnext : (s.mq.link msg .back).next = Function.update s.mq.next tail (some msg) := by
        rw [MessageQueue.link, htail]
        rfl
      have hmem : tail ∈ used := by
        have htail' := h.queue.tail_eq
        rw [htail] at htail'
        exact List.mem_of_getLast? htail'.symm
      have hnotFree : tail ∉ free :=
        (List.disjoint_of_nodup_append h.owned.nodup) hmem
      rw [hnext]
      refine ⟨h.freeList.update hnotFree, ?_⟩
      intro u m b _ hu
      have hne : m ≠ tail := by
        rintro rfl
        have hunode : (s.phase u).node = some m := by rw [hu]; rfl
        exact h.notMem_used hunode hmem
      exact (Function.update_of_ne hne ..).trans (h.cleared hu)

theorem finishSend {free : List Nat} {e : QueueEnd} {msg : Nat} {buffer : List β}
    (h : Pool s used free) (hphase : s.phase t = .linking e msg buffer) :
    s.finishSend t e msg =
        ({ s with mq := { s.mq.link msg e with entry := s.mq.entry + 1 } }.setPhase t
          (.returned .ok)).resumeReceiver ∧
      Pool (s.finishSend t e msg) (e.enqueue msg used) free := by
  have hnode : (s.phase t).node = some msg := by rw [hphase]; rfl
  obtain ⟨used', hperm, rfl, hqueue, hfree, hcleared⟩ := h.link_queue hphase
  have hentry : (s.mq.link msg e).entry = s.mq.entry := by cases e <;> rfl
  have hmax : (s.mq.link msg e).maxMsgs = s.mq.maxMsgs := by cases e <;> rfl
  have hlt := h.entry_lt hnode
  have hfinish : s.finishSend t e msg =
      ({ s with mq := { s.mq.link msg e with entry := s.mq.entry + 1 } }.setPhase t
        (.returned .ok)).resumeReceiver := by
    simp only [MqSystem.finishSend, hentry, hlt, ↓reduceIte]
  refine ⟨hfinish, ?_⟩
  rw [hfinish]
  apply Pool.resumeReceiver
  refine ⟨hqueue, hfree, ?_, ?_, ?_, ?_⟩
  · change s.mq.entry + 1 = _
    rw [hperm.length_eq, List.length_cons, h.entry]
  · exact hmax ▸ h.small
  · have howned := (h.owned.give hnode).perm (hperm.append_right free)
    rw [node_setPhase]
    change Ownership (s.mq.link msg e).maxMsgs _ _
    rw [hmax]
    exact howned
  · intro u m b hu
    have hut : u ≠ t := by
      rintro rfl
      rw [MqSystem.setPhase_self] at hu
      cases hu
    rw [MqSystem.setPhase_of_ne _ hut] at hu
    exact hcleared hut hu

theorem finishRecv {free : List Nat} {msg : Nat} {data : List β} (h : Pool s used free)
    (hphase : s.phase t = .releasing msg data) :
    Pool (s.finishRecv t msg data) used (msg :: free) := by
  have hnode : (s.phase t).node = some msg := by rw [hphase]; rfl
  rw [MqSystem.finishRecv]
  apply Pool.resumeSender
  refine ⟨h.queue.update (h.notMem_used hnode), h.freeList.push (h.notMem_free hnode), h.entry,
    h.small, ?_, ?_⟩
  · have howned := (h.owned.give hnode).perm
      (List.perm_middle : (used ++ msg :: free).Perm (msg :: (used ++ free)))
    rw [node_setPhase]
    exact howned
  · intro u m b hu
    have hp : MqPhase.returned (.received data) ≠ .linking .back m b := nofun
    have hu' : s.phase u = .linking .back m b := linking_setPhase hp hu
    have hne : m ≠ msg := by
      rintro rfl
      have hunode : (s.phase u).node = some m := by rw [hu']; rfl
      rw [h.owned.alone hunode hnode, hphase] at hu'
      cases hu'
    exact (Function.update_of_ne hne ..).trans (h.cleared hu')

end Pool

/-- What the loop of a reset leaves: the queued nodes are on the free list, the last one
first. -/
structure Released (mq mq' : MessageQueue β) (used free : List Nat) : Prop where
  head : mq'.msgQueueHead = none
  tail : mq'.msgQueueTail = none
  freeList : Linked mq'.next mq'.msgQueueFree (used.reverse ++ free)
  next : ∀ n, n ∉ used → mq'.next n = mq.next n
  body : mq'.body = mq.body
  maxMsgs : mq'.maxMsgs = mq.maxMsgs
  msgSize : mq'.msgSize = mq.msgSize

omit [DecidableEq τ] in
theorem releaseAll_released {fuel : Nat} {mq : MessageQueue β} {used free : List Nat}
    (hqueue : LinkedQueue mq.next mq.msgQueueHead mq.msgQueueTail used)
    (hfree : Linked mq.next mq.msgQueueFree free) (hnodup : (used ++ free).Nodup)
    (hfuel : used.length ≤ fuel) : Released mq (mq.releaseAll fuel) used free := by
  induction fuel generalizing mq used free with
  | zero =>
    have hnil : used = [] := List.length_eq_zero_iff.mp (Nat.le_zero.mp hfuel)
    subst hnil
    exact ⟨hqueue.linked, hqueue.tail_eq, hfree, fun _ _ => rfl, rfl, rfl, rfl⟩
  | succ fuel ih =>
    rw [MessageQueue.releaseAll]
    split
    · rename_i hhead
      have hlinked := hqueue.linked
      rw [hhead] at hlinked
      have hnil := hlinked.eq_nil
      subst hnil
      exact ⟨hhead, hqueue.tail_eq, hfree, fun _ _ => rfl, rfl, rfl, rfl⟩
    · rename_i msg hhead
      rw [hhead] at hqueue
      obtain ⟨rest, rfl, hrest⟩ := hqueue.pop
      rw [List.cons_append] at hnodup
      have hmoved : (rest ++ msg :: free).Nodup := List.perm_middle.nodup_iff.mpr hnodup
      obtain ⟨hmsg, -⟩ := List.nodup_cons.mp hnodup
      rw [List.mem_append, not_or] at hmsg
      have hreleased : Released ((mq.unlink msg).release msg)
          (((mq.unlink msg).release msg).releaseAll fuel) rest (msg :: free) :=
        ih (hrest.update hmsg.1) (hfree.push hmsg.2) hmoved (Nat.le_of_succ_le_succ hfuel)
      refine ⟨hreleased.head, hreleased.tail, ?_, ?_, hreleased.body, hreleased.maxMsgs,
        hreleased.msgSize⟩
      · rw [List.reverse_cons, List.append_assoc]
        exact hreleased.freeList
      · intro n hn
        rw [List.mem_cons, not_or] at hn
        rw [hreleased.next n hn.2]
        exact Function.update_of_ne hn.1 ..

theorem Pool.reset {s : MqSystem τ β} {used free : List Nat} (h : Pool s used free)
    (hwaiting : Waiting s) : Pool s.reset [] (used.reverse ++ free) := by
  have hfuel : used.length ≤ s.mq.maxMsgs := by
    have hle := h.owned.store_length_le
    rw [List.length_append] at hle
    omega
  have hreleased := releaseAll_released h.queue h.freeList h.owned.nodup hfuel
  have hnode : (fun t => (s.reset.phase t).node) = fun t => (s.phase t).node := by
    funext t
    rcases hwaiting.reset_cases t with ⟨hphase, hwaits⟩ | ⟨hphase, -⟩
    · rw [hphase, MqPhase.node_of_waits hwaits]
      rfl
    · rw [hphase]
  refine ⟨⟨hreleased.head, hreleased.tail⟩, hreleased.freeList, rfl, ?_, ?_, ?_⟩
  · change (s.mq.releaseAll s.mq.maxMsgs).maxMsgs ≤ rtMqEntryMax
    rw [hreleased.maxMsgs]
    exact h.small
  · change Ownership (s.mq.releaseAll s.mq.maxMsgs).maxMsgs _ _
    rw [hreleased.maxMsgs, hnode]
    exact h.owned.perm ((List.reverse_perm used).append_right free)
  · intro t msg buffer hphase
    rcases hwaiting.reset_cases t with ⟨hphase', -⟩ | ⟨hphase', -⟩
    · rw [hphase'] at hphase
      cases hphase
    · rw [hphase'] at hphase
      have hn : (s.phase t).node = some msg := by rw [hphase]; rfl
      exact (hreleased.next msg (h.notMem_used hn)).trans (h.cleared hphase)

omit [DecidableEq τ] in
private theorem releaseAll_sizes (fuel : Nat) (mq : MessageQueue β) :
    (mq.releaseAll fuel).msgSize = mq.msgSize ∧ (mq.releaseAll fuel).maxMsgs = mq.maxMsgs := by
  induction fuel generalizing mq with
  | zero => exact ⟨rfl, rfl⟩
  | succ fuel ih =>
    rw [MessageQueue.releaseAll]
    split
    · exact ⟨rfl, rfl⟩
    · exact ih _

/-- The sizes that `rt_mq_create` has set never change. -/
theorem mq_step_sizes {flag : IpcFlag} {priority : τ → Nat} {s s' : MqSystem τ β}
    {act : MqAct τ β} (h : MqEffect flag priority s act s') :
    s'.mq.msgSize = s.mq.msgSize ∧ s'.mq.maxMsgs = s.mq.maxMsgs := by
  cases h with
  | send t e msg buffer hphase =>
    have hlink : (s.mq.link msg e).msgSize = s.mq.msgSize ∧
        (s.mq.link msg e).maxMsgs = s.mq.maxMsgs := by
      cases e <;> exact ⟨rfl, rfl⟩
    simp only [MqSystem.finishSend, MqSystem.resumeReceiver]
    split_ifs
    · split <;> exact hlink
    · exact hlink
  | receive t msg data hphase =>
    simp only [MqSystem.finishRecv, MqSystem.resumeSender]
    split <;> exact ⟨rfl, rfl⟩
  | reset => exact releaseAll_sizes s.mq.maxMsgs s.mq
  | _ => exact ⟨rfl, rfl⟩

end DrumMachine
