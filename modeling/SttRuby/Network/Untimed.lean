import SttRuby.Network.Inbox
import SttRuby.Protocol.Stalls

/-!
# Network — Untimed

The buffer and the untimed queue of the controllers.  The model of the stalled messages has for each
buffer the messages of its heap, any of which may be taken, and those set aside under each address
(`Protocol.Queues`).  Every run of a buffer is a run of such a queue: the same messages are sent,
taken, set aside and put back, in the same order (`refines_queue`).  What is proved of every order
in which the queues may be served is so proved of the order of the buffers' times.
-/

namespace SttRuby.Network

open Cache (Addr)
open MessageBuffer (Params Options)
open Protocol (Queues)
open scoped List

/-- A call on the queue of one buffer. -/
inductive QueueCall (μ : Type) where
  | enqueue (m : μ)
  | dequeue (m : μ)
  | stallMessage (addr : Addr) (m : μ)
  | reanalyzeMessages (addr : Addr)

namespace QueueCall

variable {μ : Type}

def sent : QueueCall μ → Option μ
  | .enqueue m => some m
  | _ => none

def taken : QueueCall μ → Option μ
  | .dequeue m => some m
  | _ => none

end QueueCall

/-- The queue of one buffer. -/
def queue (μ : Type) [DecidableEq μ] : Lib.Machine (Queues Unit μ) (QueueCall μ) where
  start q := q = {}
  step q
    | .enqueue m => some (q.enqueue () m)
    | .dequeue m => q.dequeue () m
    | .stallMessage a m => q.stallMessage () a m
    | .reanalyzeMessages a => q.reanalyzeMessages () a

variable {μ : Type} {p : Params} {P : ℕ} {q : Queues Unit μ} {b b' : MessageBuffer μ}

/-- The queue without the times. -/
structure Untimed (q : Queues Unit μ) (b : MessageBuffer μ) : Prop where
  heap : q.m_prio_heap () ~ b.m_prio_heap.map Message.body
  stalled : ∀ a, q.m_stall_msg_map () a = (b.m_stall_msg_map.queue a).map Message.body

/-- The queue does not see the order of the heap. -/
theorem Untimed.congr (h : Untimed q b)
    (hh : b'.m_prio_heap.map Message.body ~ b.m_prio_heap.map Message.body)
    (hs : b'.m_stall_msg_map = b.m_stall_msg_map) : Untimed q b' :=
  ⟨h.heap.trans hh.symm, fun a => hs ▸ h.stalled a⟩

theorem Untimed.enqueue (h : Untimed q b) {m m' : Message μ} (hbody : m'.body = m.body)
    (hh : b'.m_prio_heap = b.m_prio_heap.orderedInsert Message.le m')
    (hs : b'.m_stall_msg_map = b.m_stall_msg_map) : Untimed (q.enqueue () m.body) b' := by
  refine ⟨?_, fun a => hs ▸ h.stalled a⟩
  rw [hh]
  simp only [Queues.enqueue, Function.update_self]
  refine (List.perm_append_singleton _ _).trans ((h.heap.cons _).trans ?_)
  rw [← hbody, ← List.map_cons]
  exact ((List.perm_orderedInsert _ m' _).map _).symm

theorem Untimed.reanalyzeMessages (h : Untimed q b) {addr : Addr}
    (hhas : b.hasStalledMsg addr = true)
    (hh : b'.m_prio_heap ~ b.m_stall_msg_map.queue addr ++ b.m_prio_heap)
    (hs : b'.m_stall_msg_map = b.m_stall_msg_map.set addr []) :
    ∃ q', q.reanalyzeMessages () addr = some q' ∧ Untimed q' b' := by
  have hne : (q.m_stall_msg_map () addr).isEmpty = false := by
    have hne := (Lib.Table.has_iff _ _).mp hhas
    rw [h.stalled addr]
    simpa using hne
  refine ⟨_, if_neg (by rw [hne]; exact Bool.false_ne_true), ?_, fun a => ?_⟩
  · simp only [Function.update_self, h.stalled addr]
    refine (h.heap.append_right _).trans (List.perm_append_comm.trans ?_)
    rw [← List.map_append]
    exact (hh.map _).symm
  · rw [hs]
    rcases eq_or_ne a addr with rfl | ha
    · simp
    · simp [Lib.Table.queue_set_of_ne _ _ ha, h.stalled a, Function.update_of_ne ha]

variable [DecidableEq μ]

/-- The message in front is in the queue, and the rest is the queue without it. -/
theorem Untimed.front (h : Untimed q b) {m : Message μ} {rest : List (Message μ)}
    (hrest : b.m_prio_heap = m :: rest) : m.body ∈ q.m_prio_heap () ∧
      (q.m_prio_heap ()).erase m.body ~ rest.map Message.body := by
  have hp := h.heap
  rw [hrest, List.map_cons] at hp
  refine ⟨hp.mem_iff.mpr (List.mem_cons_self ..), ?_⟩
  have he := hp.erase m.body
  rwa [List.erase_cons_head] at he

theorem Untimed.dequeue (h : Untimed q b) {m : Message μ} {rest : List (Message μ)}
    (hrest : b.m_prio_heap = m :: rest) (hh : b'.m_prio_heap = rest)
    (hs : b'.m_stall_msg_map = b.m_stall_msg_map) :
    ∃ q', q.dequeue () m.body = some q' ∧ Untimed q' b' := by
  obtain ⟨hm, hp⟩ := h.front hrest
  refine ⟨_, if_pos hm, ?_, fun a => hs ▸ h.stalled a⟩
  simpa [hh] using hp

theorem Untimed.stallMessage (h : Untimed q b) {m : Message μ} (m' : Message μ)
    {rest : List (Message μ)} {addr : Addr} (hbody : m'.body = m.body)
    (hrest : b.m_prio_heap = m :: rest)
    (hh : b'.m_prio_heap = rest) (hs : b'.m_stall_msg_map =
      b.m_stall_msg_map.set addr (b.m_stall_msg_map.queue addr ++ [m'])) :
    ∃ q', q.stallMessage () addr m.body = some q' ∧ Untimed q' b' := by
  obtain ⟨hm, hp⟩ := h.front hrest
  refine ⟨_, congrArg _ (if_pos hm), ?_, fun a => ?_⟩
  · simpa [hh] using hp
  · rw [hs]
    rcases eq_or_ne a addr with rfl | ha
    · simp [h.stalled a, hbody]
    · simp [Lib.Table.queue_set_of_ne _ _ ha, h.stalled a, Function.update_of_ne ha]

/-- The relation that the runs keep. -/
structure Follows (s : Inbox μ) (ks : List (QueueCall μ)) (q : Queues Unit μ) : Prop where
  untimed : Untimed q s.buffer
  sent : ks.filterMap QueueCall.sent = s.sent
  taken : ks.filterMap QueueCall.taken = s.taken.map (·.2.body)

/-- A call that the queue does not see. -/
theorem Follows.stutter {s s' : Inbox μ} {ks : List (QueueCall μ)} (h : Follows s ks q)
    (hu : Untimed q s'.buffer) (hs : s'.sent = s.sent) (ht : s'.taken = s.taken) :
    ∃ ks' q', (queue μ).Run (fun _ _ => True) q ks' q' ∧ Follows s' (ks ++ ks') q' :=
  ⟨[], q, .refl, hu, by rw [List.append_nil, hs, h.sent], by rw [List.append_nil, ht, h.taken]⟩

/-- A call that the queue takes part in. -/
theorem Follows.call {s s' : Inbox μ} {ks : List (QueueCall μ)} (h : Follows s ks q)
    {k : QueueCall μ} (hk : ∃ q', (queue μ).step q k = some q' ∧ Untimed q' s'.buffer)
    (hs : s'.sent = s.sent ++ k.sent.toList)
    (ht : s'.taken.map (·.2.body) = s.taken.map (·.2.body) ++ k.taken.toList) :
    ∃ ks' q', (queue μ).Run (fun _ _ => True) q ks' q' ∧ Follows s' (ks ++ ks') q' := by
  obtain ⟨q', hstep, hu⟩ := hk
  refine ⟨[k], q', .snoc .refl trivial hstep, hu, ?_, ?_⟩
  · rw [List.filterMap_append, h.sent, hs]
    cases k <;> rfl
  · rw [List.filterMap_append, h.taken, ht]
    cases k <;> rfl

theorem Follows.step {s s' : Inbox μ} {c : Call μ} {ks : List (QueueCall μ)} (h : Follows s ks q)
    (hs : s.step p P c = some s') :
    ∃ ks' q', (queue μ).Run (fun _ _ => True) q ks' q' ∧ Follows s' (ks ++ ks') q' := by
  cases c with
  | tick t =>
      obtain ⟨-, hs⟩ := Option.ite_none_right_eq_some.mp hs
      cases hs
      exact h.stutter h.untimed rfl rfl
  | enqueue m delta o =>
      obtain ⟨⟨m', b⟩, he, rfl⟩ := Option.map_eq_some_iff.mp hs
      obtain ⟨hbody, hmap⟩ := MessageBuffer.body_enqueue he
      exact h.call (k := .enqueue m.body)
        ⟨_, rfl, h.untimed.enqueue hbody (MessageBuffer.heap_enqueue he) hmap⟩ rfl
        (List.append_nil _).symm
  | dequeue =>
      obtain ⟨⟨m', b⟩, hd, rfl⟩ := Option.map_eq_some_iff.mp hs
      obtain ⟨-, m, rest, hrest, rfl, rfl⟩ := MessageBuffer.dequeue_iff.mp hd
      exact h.call (k := .dequeue m.body)
        (h.untimed.dequeue hrest rfl MessageBuffer.map_countPop) (List.append_nil _).symm
        (List.map_append ..)
  | recycle l =>
      obtain ⟨⟨m', b⟩, hr, rfl⟩ := Option.map_eq_some_iff.mp hs
      obtain ⟨-, m, rest, hrest, rfl, rfl⟩ := MessageBuffer.recycle_iff.mp hr
      refine h.stutter (h.untimed.congr ?_ rfl) rfl rfl
      rw [hrest]
      exact (List.perm_orderedInsert _ _ rest).map Message.body
  | delayHead delta o =>
      obtain ⟨⟨m', b⟩, hd, rfl⟩ := Option.map_eq_some_iff.mp hs
      obtain ⟨m, rest, hrest, he⟩ := MessageBuffer.delayHead_iff.mp hd
      obtain ⟨hbody, hmap⟩ := MessageBuffer.body_enqueue he
      refine h.stutter (h.untimed.congr ?_ hmap) rfl rfl
      rw [hrest, List.map_cons, ← hbody, ← List.map_cons]
      exact (MessageBuffer.heap_enqueue he ▸ List.perm_orderedInsert _ _ rest).map Message.body
  | stallMessage a =>
      obtain ⟨b, hd, rfl⟩ := Option.map_eq_some_iff.mp hs
      obtain ⟨-, m, rest, hrest, rfl⟩ := MessageBuffer.stallMessage_iff.mp hd
      exact h.call (k := .stallMessage a m.body)
        (h.untimed.stallMessage (m.delayed s.curTick) rfl hrest rfl rfl)
        (List.append_nil _).symm (List.append_nil _).symm
  | reanalyzeMessages a =>
      obtain ⟨⟨lt, b⟩, hr, rfl⟩ := Option.map_eq_some_iff.mp hs
      obtain ⟨hhas, rfl, -, -, rfl⟩ := MessageBuffer.reanalyzeMessages_iff.mp hr
      exact h.call (k := .reanalyzeMessages a)
        (h.untimed.reanalyzeMessages hhas (MessageBuffer.putBack_perm _ _) rfl)
        (List.append_nil _).symm (List.append_nil _).symm
  | scheduleEventAbsolute t =>
      obtain ⟨-, hs⟩ := Option.ite_none_right_eq_some.mp hs
      cases hs
      exact h.stutter h.untimed rfl rfl
  | wakeup =>
      obtain ⟨-, hs⟩ := Option.ite_none_right_eq_some.mp hs
      obtain ⟨c, -, rfl⟩ := Option.map_eq_some_iff.mp hs
      exact h.stutter h.untimed rfl rfl

/-- **The buffers refine the queues.**  A run of a buffer is a run of the untimed queue in which the
same messages are sent and taken in the same order. -/
theorem refines_queue {s : Inbox μ} {t : ℕ} {cs : List (Call μ)}
    (h : (inbox μ p P).Run (fun _ _ => True) { curTick := t } cs s) :
    ∃ ks q, (queue μ).Run (fun _ _ => True) {} ks q ∧ Untimed q s.buffer ∧
      ks.filterMap QueueCall.sent = s.sent ∧
      ks.filterMap QueueCall.taken = s.taken.map (·.2.body) := by
  obtain ⟨ks, q, hrun, hf⟩ :
      ∃ ks q, (queue μ).Run (fun _ _ => True) {} ks q ∧ Follows s ks q := by
    refine h.simulates ⟨⟨.refl _, fun a => ?_⟩, rfl, rfl⟩ fun _ _ _ _ _ hf _ hs => hf.step hs
    simp
  exact ⟨ks, q, hrun, hf.untimed, hf.sent, hf.taken⟩

theorem refines_queue_setAside : ∃ s ks q,
    (inbox ℕ Inbox.twoSlots 2).Run (fun _ _ => True) {} (Inbox.setAside ++ [.dequeue]) s ∧
    s.buffer.m_stall_map_size = 1 ∧ s.taken.map (·.2.body) = [8] ∧
    (queue ℕ).Run (fun _ _ => True) {} ks q ∧ Untimed q s.buffer ∧
      ks.filterMap QueueCall.sent = s.sent ∧
      ks.filterMap QueueCall.taken = s.taken.map (·.2.body) := by
  have h : (((inbox ℕ Inbox.twoSlots 2).trace (fun _ _ => True) {}
      (Inbox.setAside ++ [.dequeue])).any fun s => decide (s.buffer.m_stall_map_size = 1 ∧
        s.taken.map (·.2.body) = [8])) = true := by decide +kernel
  obtain ⟨s, hrun, hs, ht⟩ := Lib.Machine.trace_exists h
  obtain ⟨ks, q, hq⟩ := refines_queue hrun
  exact ⟨s, ks, q, hrun, hs, ht, hq⟩

end SttRuby.Network
