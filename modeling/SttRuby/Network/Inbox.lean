import SttRuby.Network.MessageBuffer

/-!
# Network — Inbox

A buffer with the consumer at its end, over whole runs: any calls at any ticks, in the order in
which the event queue has them.

* `calls_succeed`: no assertion of the buffer or of the consumer fails where the callers have
  checked for slots and for messages that are ready.
* `slots_suffice`: after a check for `n` slots, `n` messages can be enqueued.
* `messages_conserved`: what was sent is what was taken and what is in the buffer.
* `dequeue_rate`: no more messages are taken in a tick than the buffer allows.
* `no_wakeup_lost`: while a message waits that the consumer has not been woken for, its event stands
  no later than the first edge of its clock at which the message can be taken.
* `no_overtaking`, `fifo`: an ordered buffer gives out messages in the order in which they were
  sent, but for those that were set aside.
-/

namespace SttRuby.Network

open Cache (Addr)
open MessageBuffer (Params Options)
open scoped List

/-- A buffer, the consumer at its end, what has been sent and taken, and the ticks from which on the
consumer can take a message of the heap and has not been woken. -/
structure Inbox (μ : Type) where
  curTick : ℕ := 0
  buffer : MessageBuffer μ := {}
  consumer : Consumer := {}
  sent : List μ := []
  taken : List (ℕ × Message μ) := []
  unseen : List ℕ := []

/-- What happens to a buffer.  `scheduleEventAbsolute` is any further request to its consumer: of
another buffer, or of `isReady` for the next cycle when the rate has been used up. -/
inductive Call (μ : Type) where
  | tick (t : ℕ)
  | enqueue (m : Message μ) (delta : ℕ) (o : Options)
  | dequeue
  | recycle (recycle_latency : ℕ)
  | delayHead (delta : ℕ) (o : Options)
  | stallMessage (addr : Addr)
  | reanalyzeMessages (addr : Addr)
  | scheduleEventAbsolute (evt_time : ℕ)
  | wakeup

namespace Call

variable {μ : Type}

/-- A call that leaves the messages of the heap in their order. -/
def keepsOrder : Call μ → Bool
  | .enqueue _ _ o => !o.ruby_warmup && !o.bypassStrictFIFO
  | .recycle _ | .delayHead _ _ => false
  | _ => true

/-- A call that moreover sets no message aside. -/
def isDirect : Call μ → Bool
  | .stallMessage _ => false
  | c => c.keepsOrder

theorem keepsOrder_of_isDirect {c : Call μ} (h : c.isDirect = true) : c.keepsOrder = true := by
  cases c <;> first | exact h | cases h

end Call

namespace Inbox

variable {μ : Type} (p : Params) (P : ℕ)

/-- A message is in the heap from now on, and the consumer is asked to wake up at the tick. -/
def put (s : Inbox μ) (tick : ℕ) (b : MessageBuffer μ) : Inbox μ :=
  { s with
    buffer := b
    consumer := s.consumer.scheduleEventAbsolute P s.curTick tick
    unseen := tick :: s.unseen }

/-- `none` where the code panics, and for a tick or a wake-up out of the order of events. -/
def step (s : Inbox μ) : Call μ → Option (Inbox μ)
  | .tick t =>
      if s.curTick ≤ t ∧ (t : WithTop ℕ) ≤ s.consumer.m_wakeup_event then
        some { s with curTick := t }
      else none
  | .enqueue m delta o => (s.buffer.enqueue p m s.curTick delta o).map fun (m', b) =>
      { s.put P m'.m_LastEnqueueTime b with sent := s.sent ++ [m.body] }
  | .dequeue => (s.buffer.dequeue p s.curTick).map fun (m, b) =>
      { s with buffer := b, taken := s.taken ++ [(s.curTick, m)] }
  | .recycle l => (s.buffer.recycle p s.curTick l).map fun (m', b) => s.put P m'.m_LastEnqueueTime b
  | .delayHead delta o => (s.buffer.delayHead p s.curTick delta o).map fun (m', b) =>
      s.put P m'.m_LastEnqueueTime b
  | .stallMessage a => (s.buffer.stallMessage p a s.curTick).map fun b => { s with buffer := b }
  | .reanalyzeMessages a => (s.buffer.reanalyzeMessages a s.curTick).map fun (_, b) =>
      s.put P s.curTick b
  | .scheduleEventAbsolute t =>
      if s.curTick ≤ t then
        some { s with consumer := s.consumer.scheduleEventAbsolute P s.curTick t }
      else none
  | .wakeup =>
      if s.consumer.m_wakeup_event = s.curTick then
        (s.consumer.processCurrentEvent P s.curTick).map fun c =>
          { s with consumer := c, unseen := s.unseen.filter (s.curTick < ·) }
      else none

/-- What the callers see to: a free slot for what is enqueued, a message that is ready where one is
taken or put back. -/
def Allowed (s : Inbox μ) : Call μ → Prop
  | .tick t => s.curTick ≤ t ∧ (t : WithTop ℕ) ≤ s.consumer.m_wakeup_event
  | .enqueue m delta o => s.buffer.Accepts p m s.curTick delta o ∧
      s.buffer.areNSlotsAvailable p 1 s.curTick = true
  | .dequeue | .recycle _ | .stallMessage _ => s.buffer.isReady p s.curTick = some true
  | .delayHead delta o => ∃ m rest, s.buffer.m_prio_heap = m :: rest ∧
      ({ s.buffer with m_prio_heap := rest } : MessageBuffer μ).Accepts p m s.curTick delta o
  | .reanalyzeMessages a => s.buffer.hasStalledMsg a = true
  | .scheduleEventAbsolute t => s.curTick ≤ t
  | .wakeup => s.consumer.m_wakeup_event = s.curTick

end Inbox

/-- The inboxes, at any tick to begin with. -/
def inbox (μ : Type) (p : Params) (P : ℕ) : Lib.Machine (Inbox μ) (Call μ) where
  start s := ∃ t, s = { curTick := t }
  step := Inbox.step p P


namespace Inbox

variable {μ : Type} {p : Params} {P : ℕ} {s s' : Inbox μ} {c : Call μ}

/-! ### What holds in every run -/

/-- What the calls keep. -/
structure Good (p : Params) (P : ℕ) (s : Inbox μ) : Prop where
  wf : s.buffer.Wf p s.curTick
  conserved : s.sent ~ s.taken.map (·.2.body) ++ s.buffer.contents.map Message.body
  timely : s.consumer.Timely P s.curTick
  unseen : ∀ t ∈ s.unseen, edge P t ∈ s.consumer.m_wakeup_ticks
  seen : ∀ m ∈ s.buffer.m_prio_heap, m.m_LastEnqueueTime ∈ s.unseen ∨
    m.m_LastEnqueueTime ≤ s.curTick

theorem Good.init (t : ℕ) : Good p P ({ curTick := t } : Inbox μ) where
  wf := .init
  conserved := by simp [MessageBuffer.contents, Lib.Table.elems, Lib.Table.empty]
  timely := .init
  unseen := by simp
  seen := by simp

/-- A message is put into the heap. -/
theorem Good.put (hP : 0 < P) (h : Good p P s) {tick : ℕ} {b : MessageBuffer μ}
    (ht : s.curTick ≤ tick) (hw : b.Wf p s.curTick)
    (hheap : ∀ m ∈ b.m_prio_heap, m ∈ s.buffer.m_prio_heap ∨ m.m_LastEnqueueTime = tick ∨
      m.m_LastEnqueueTime ≤ s.curTick) {sent : List μ}
    (hc : sent ~ s.taken.map (·.2.body) ++ b.contents.map Message.body) :
    Good p P { s.put P tick b with sent := sent } where
  wf := hw
  conserved := hc
  timely := h.timely.scheduleEventAbsolute hP ht
  unseen := by
    intro t hm
    rcases List.mem_cons.mp hm with rfl | hm
    · exact Consumer.mem_scheduleEventAbsolute.mpr (.inl rfl)
    · exact Consumer.mem_scheduleEventAbsolute.mpr (.inr (h.unseen t hm))
  seen := by
    intro m hm
    rcases hheap m hm with hm | rfl | hm
    · exact (h.seen m hm).imp_left (.tail _)
    · exact .inl (.head _)
    · exact .inr hm

theorem Good.step (hP : 0 < P) (h : Good p P s) (hs : s.step p P c = some s') : Good p P s' := by
  cases c with
  | tick t =>
      obtain ⟨⟨hle, ht⟩, hs⟩ := Option.ite_none_right_eq_some.mp hs
      cases hs
      exact { h with
        wf := h.wf.tick hle
        timely := h.timely.tick hP ht
        seen := fun m hm => (h.seen m hm).imp_right fun hm => hm.trans hle }
  | enqueue m delta o =>
      obtain ⟨⟨m', b⟩, he, rfl⟩ := Option.map_eq_some_iff.mp hs
      refine h.put hP (MessageBuffer.le_time_enqueue he) (h.wf.enqueue he) (fun x hx => ?_) ?_
      · rw [MessageBuffer.heap_enqueue he, List.mem_orderedInsert] at hx
        rcases hx with rfl | hx
        · exact .inr (.inl rfl)
        · exact .inl hx
      · have hc := (MessageBuffer.contents_enqueue he).map Message.body
        rw [List.map_cons, (MessageBuffer.body_enqueue he).1] at hc
        refine (List.perm_append_singleton _ _).trans ((h.conserved.cons _).trans ?_)
        exact List.perm_middle.symm.trans (hc.symm.append_left _)
  | dequeue =>
      obtain ⟨⟨m', b⟩, hd, rfl⟩ := Option.map_eq_some_iff.mp hs
      obtain ⟨hw, hmap⟩ := h.wf.dequeue hd
      obtain ⟨-, m, rest, hrest, -, rfl⟩ := MessageBuffer.dequeue_iff.mp hd
      refine { h with
        wf := hw
        conserved := ?_
        seen := fun x hx => h.seen x (hrest ▸ .tail _ hx) }
      rw [List.map_append, List.append_assoc]
      exact h.conserved.trans (.of_eq (congrArg _ (hmap _ fun _ => rfl)))
  | recycle l =>
      obtain ⟨⟨m', b⟩, hr, rfl⟩ := Option.map_eq_some_iff.mp hs
      obtain ⟨hw, htag⟩ := h.wf.recycle hr
      obtain ⟨-, m, rest, hrest, rfl, rfl⟩ := MessageBuffer.recycle_iff.mp hr
      refine h.put hP (Nat.le_add_right _ _) hw (fun x hx => ?_)
        (h.conserved.trans ((MessageBuffer.bodies_of_tags htag).symm.append_left _))
      rcases List.mem_orderedInsert _ |>.mp hx with rfl | hx
      · exact .inr (.inl rfl)
      · exact .inl (hrest ▸ .tail _ hx)
  | delayHead delta o =>
      obtain ⟨⟨m', b⟩, hd, rfl⟩ := Option.map_eq_some_iff.mp hs
      obtain ⟨hw, hbody⟩ := h.wf.delayHead hd
      obtain ⟨m, rest, hrest, he⟩ := MessageBuffer.delayHead_iff.mp hd
      refine h.put hP (MessageBuffer.le_time_enqueue he) hw (fun x hx => ?_)
        (h.conserved.trans (hbody.symm.append_left _))
      rw [MessageBuffer.heap_enqueue he, List.mem_orderedInsert] at hx
      rcases hx with rfl | hx
      · exact .inr (.inl rfl)
      · exact .inl (hrest ▸ .tail _ hx)
  | stallMessage a =>
      obtain ⟨b, hd, rfl⟩ := Option.map_eq_some_iff.mp hs
      obtain ⟨hw, hmap⟩ := h.wf.stallMessage hd
      obtain ⟨-, m, rest, hrest, rfl⟩ := MessageBuffer.stallMessage_iff.mp hd
      exact { h with
        wf := hw
        conserved := h.conserved.trans ((hmap _ fun _ => rfl).symm.append_left _)
        seen := fun x hx => h.seen x (hrest ▸ .tail _ hx) }
  | reanalyzeMessages a =>
      obtain ⟨⟨lt, b⟩, hr, rfl⟩ := Option.map_eq_some_iff.mp hs
      obtain ⟨hw, hperm⟩ := h.wf.reanalyzeMessages hr
      obtain ⟨-, rfl, -, hdue, rfl⟩ := MessageBuffer.reanalyzeMessages_iff.mp hr
      refine h.put hP le_rfl hw (fun x hx => ?_)
        (h.conserved.trans ((hperm.map _).symm.append_left _))
      rcases List.mem_append.mp ((MessageBuffer.putBack_perm _ _).mem_iff.mp hx) with hx | hx
      · exact .inr (.inr (hdue x hx))
      · exact .inl hx
  | scheduleEventAbsolute t =>
      obtain ⟨hle, hs⟩ := Option.ite_none_right_eq_some.mp hs
      cases hs
      exact { h with
        timely := h.timely.scheduleEventAbsolute hP hle
        unseen := fun u hu => Consumer.mem_scheduleEventAbsolute.mpr (.inr (h.unseen u hu)) }
  | wakeup =>
      obtain ⟨he, hs⟩ := Option.ite_none_right_eq_some.mp hs
      obtain ⟨c, hc, htimely, hticks⟩ := h.timely.processCurrentEvent hP he
      rw [hc] at hs
      cases hs
      refine { h with timely := htimely, unseen := fun t ht => ?_, seen := fun m hm => ?_ }
      · obtain ⟨ht, hlt⟩ := List.mem_filter.mp ht
        have hlt := (of_decide_eq_true hlt).trans_le (le_edge hP t)
        exact hticks ▸ Finset.mem_erase.mpr ⟨hlt.ne', h.unseen t ht⟩
      · rcases h.seen m hm with ht | ht
        · rcases Nat.lt_or_ge s.curTick m.m_LastEnqueueTime with hlt | hle
          · exact .inl (List.mem_filter.mpr ⟨ht, decide_eq_true hlt⟩)
          · exact .inr hle
        · exact .inr ht

theorem good_of_reach (hP : 0 < P) (h : (inbox μ p P).Reach (fun _ _ => True) s) : Good p P s := by
  refine h.invariant ?_ fun _ _ _ hs _ => hs.step hP
  rintro _ ⟨t, rfl⟩
  exact .init t

/-- An ordered buffer for two messages, one of which is taken in a tick. -/
def twoSlots : Params :=
  { buffer_size := 2, max_dequeue_rate := 1, ordered := true, randomization := .disabled }

/-- Two messages are sent, and the first is set aside when it is due. -/
def setAside : List (Call ℕ) :=
  [.enqueue { body := 7, m_LastEnqueueTime := 0 } 1 {},
    .enqueue { body := 8, m_LastEnqueueTime := 0 } 1 {},
    .tick 2, .wakeup, .stallMessage 64, .tick 4]

theorem inbox_start (p : Params) (P t : ℕ) : (inbox μ p P).start { curTick := t } := ⟨t, rfl⟩

/-- **Slots are enough.**  Where `n` slots are available, `n` messages of one latency are enqueued
one after another, as the actions of a transition do after its resource check. -/
theorem slots_suffice (hP : 0 < P) (h : (inbox μ p P).Reach (fun _ _ => True) s) {delta : ℕ}
    {o : Options} {ms : List (Message μ)} (hl : delta ≠ 0 ∨ p.allow_zero_latency = true)
    (hd : ∀ m ∈ ms, m.m_LastEnqueueTime ≤ s.curTick)
    (ho : p.ordered = true → MessageBuffer.randomizes p o = false →
      s.buffer.m_last_arrival_time ≤ s.curTick + delta)
    (hn : s.buffer.areNSlotsAvailable p ms.length s.curTick = true) :
    (s.buffer.enqueueAll p s.curTick delta o ms).isSome = true := by
  obtain ⟨b, hb, -⟩ := (good_of_reach hP h).wf.enqueueAll hl hd ho hn
  rw [hb, Option.isSome_some]

/-- There is a slot in the tick after one of the two messages was taken. -/
theorem slots_suffice_taken : ∃ s, (inbox ℕ twoSlots 2).Reach (fun _ _ => True) s ∧
    s.buffer.contents.length = 1 ∧ s.curTick = 5 ∧
    (s.buffer.enqueueAll twoSlots s.curTick 1 {}
      [{ body := 9, m_LastEnqueueTime := 5 }]).isSome = true := by
  have h : (((inbox ℕ twoSlots 2).trace (fun _ _ => True) {} (setAside ++ [.dequeue, .tick 5])).any
      fun s => decide (s.buffer.contents.length = 1 ∧ s.curTick = 5 ∧
        s.buffer.m_last_arrival_time = 1 ∧
        s.buffer.areNSlotsAvailable twoSlots 1 s.curTick = true)) = true := by decide +kernel
  obtain ⟨s, hreach, hs, ht, hlast, hn⟩ := Lib.Machine.trace_reaches (inbox_start _ _ 0) h
  refine ⟨s, hreach, hs, ht, slots_suffice (by decide) hreach (.inl (by decide)) ?_ ?_ hn⟩
  · intro m hm
    rw [List.mem_singleton.mp hm, ht]
  · intro _ _
    omega

/-- **Conservation.**  What was sent is what was taken and what is in the buffer, each message
once. -/
theorem messages_conserved (hP : 0 < P) (h : (inbox μ p P).Reach (fun _ _ => True) s) :
    s.sent ~ s.taken.map (·.2.body) ++ s.buffer.contents.map Message.body :=
  (good_of_reach hP h).conserved

theorem messages_conserved_setAside : ∃ s, (inbox ℕ twoSlots 2).Reach (fun _ _ => True) s ∧
    s.sent = [7, 8] ∧ s.taken.length = 1 ∧
    s.sent ~ s.taken.map (·.2.body) ++ s.buffer.contents.map Message.body := by
  have h : (((inbox ℕ twoSlots 2).trace (fun _ _ => True) {} (setAside ++ [.dequeue])).any
      fun s => decide (s.sent = [7, 8] ∧ s.taken.length = 1)) = true := by decide +kernel
  obtain ⟨s, hreach, hs, ht⟩ := Lib.Machine.trace_reaches (inbox_start _ _ 0) h
  exact ⟨s, hreach, hs, ht, messages_conserved (by decide) hreach⟩

/-- **No wake-up is lost.**  A message of the heap that the consumer has not been woken for is
waited for by an event, no later than at the first edge of the consumer's clock at which the message
can be taken. -/
theorem no_wakeup_lost (hP : 0 < P) (h : (inbox μ p P).Reach (fun _ _ => True) s) :
    (∀ m ∈ s.buffer.m_prio_heap, m.m_LastEnqueueTime ∈ s.unseen ∨
      m.m_LastEnqueueTime ≤ s.curTick) ∧
    ∀ t ∈ s.unseen, ∃ w : ℕ, s.consumer.m_wakeup_event = w ∧ s.curTick ≤ w ∧ w ≤ edge P t := by
  have hg := good_of_reach hP h
  refine ⟨hg.seen, fun t ht => ?_⟩
  have hmem := hg.unseen t ht
  obtain ⟨w, hw⟩ := Finset.min_of_mem hmem
  refine ⟨w, hg.timely.event.trans hw, ?_, Finset.min_le_of_eq hmem hw⟩
  exact (le_edge hP _).trans (hg.timely.edges w (Finset.mem_of_min hw)).1

/-- The first message is set aside and put back: the consumer is to be woken at once. -/
theorem no_wakeup_lost_setAside : ∃ s, (inbox ℕ twoSlots 2).Reach (fun _ _ => True) s ∧
    s.unseen = [4] ∧
    (∀ m ∈ s.buffer.m_prio_heap, m.m_LastEnqueueTime ∈ s.unseen ∨
      m.m_LastEnqueueTime ≤ s.curTick) ∧
    ∀ t ∈ s.unseen, ∃ w : ℕ, s.consumer.m_wakeup_event = w ∧ s.curTick ≤ w ∧ w ≤ edge 2 t := by
  have h : (((inbox ℕ twoSlots 2).trace (fun _ _ => True) {}
      (setAside ++ [.reanalyzeMessages 64])).any fun s => decide (s.unseen = [4])) = true := by
    decide +kernel
  obtain ⟨s, hreach, hs⟩ := Lib.Machine.trace_reaches (inbox_start _ _ 0) h
  exact ⟨s, hreach, hs, no_wakeup_lost (by decide) hreach⟩

/-! ### The rate -/

/-- The messages taken in a tick are among the pops that the buffer has counted. -/
structure Paced (p : Params) (s : Inbox μ) : Prop where
  past : ∀ x ∈ s.taken, x.1 ≤ s.curTick
  popped : s.buffer.m_time_last_time_pop ≤ s.curTick
  present : s.taken.countP (·.1 = s.curTick) ≤
    if s.buffer.m_time_last_time_pop = s.curTick then s.buffer.m_dequeues_this_cy else 0
  pops : s.buffer.m_dequeues_this_cy ≤ p.max_dequeue_rate
  all : ∀ t, s.taken.countP (·.1 = t) ≤ p.max_dequeue_rate

/-- Calls that leave alone what is counted. -/
theorem Paced.congr (h : Paced p s) (hc : s'.curTick = s.curTick) (ht : s'.taken = s.taken)
    (hp : s'.buffer.m_time_last_time_pop = s.buffer.m_time_last_time_pop)
    (hd : s'.buffer.m_dequeues_this_cy = s.buffer.m_dequeues_this_cy) : Paced p s' := by
  constructor
  · rw [ht, hc]; exact h.past
  · rw [hp, hc]; exact h.popped
  · rw [ht, hc, hp, hd]; exact h.present
  · rw [hd]; exact h.pops
  · rw [ht]; exact h.all

/-- A pop that the buffer allows is counted. -/
theorem countPop_counts {b : MessageBuffer μ} {now : ℕ} (hr : p.max_dequeue_rate ≠ 0)
    (h : b.isReady p now = some true) : (b.countPop now).m_time_last_time_pop = now ∧
      (b.countPop now).m_dequeues_this_cy ≤ p.max_dequeue_rate ∧
      (if b.m_time_last_time_pop = now then b.m_dequeues_this_cy else 0) <
        (b.countPop now).m_dequeues_this_cy := by
  obtain ⟨hle, hrate, -⟩ := MessageBuffer.isReady_iff.mp h
  unfold MessageBuffer.countPop
  rcases Nat.lt_or_eq_of_le hle with hlt | heq
  · rw [if_pos hlt, if_neg hlt.ne]
    exact ⟨rfl, Nat.pos_of_ne_zero hr, Nat.lt_succ_self 0⟩
  · rw [if_neg (by omega), if_pos heq]
    have hlt : b.m_dequeues_this_cy < p.max_dequeue_rate := by omega
    exact ⟨heq, hlt, Nat.lt_succ_self _⟩

theorem Paced.step (hr : p.max_dequeue_rate ≠ 0) (h : Paced p s) (hs : s.step p P c = some s') :
    Paced p s' := by
  cases c with
  | tick t =>
      obtain ⟨⟨hle, -⟩, hs⟩ := Option.ite_none_right_eq_some.mp hs
      cases hs
      refine { h with
        past := fun x hx => (h.past x hx).trans hle
        popped := h.popped.trans hle
        present := ?_ }
      rcases Nat.lt_or_eq_of_le hle with hlt | rfl
      · -- nothing was taken in a tick to come
        have hzero : s.taken.countP (fun x => x.1 = t) = 0 := List.countP_eq_zero.mpr fun x hx => by
          simpa using ((h.past x hx).trans_lt hlt).ne
        exact hzero.trans_le (Nat.zero_le _)
      · exact h.present
  | enqueue m delta o =>
      obtain ⟨⟨m', b⟩, he, rfl⟩ := Option.map_eq_some_iff.mp hs
      exact h.congr rfl rfl (MessageBuffer.pop_enqueue he).1 (MessageBuffer.pop_enqueue he).2
  | dequeue =>
      obtain ⟨⟨m', b⟩, hd, rfl⟩ := Option.map_eq_some_iff.mp hs
      obtain ⟨hready, m, rest, hrest, rfl, rfl⟩ := MessageBuffer.dequeue_iff.mp hd
      obtain ⟨hnow, hmax, hlt⟩ := countPop_counts hr hready
      have hcount := h.present
      refine ⟨fun x hx => ?_, hnow.le, ?_, hmax, fun t => ?_⟩
      · rcases List.mem_append.mp hx with hx | hx
        · exact h.past x hx
        · exact (List.mem_singleton.mp hx ▸ le_rfl)
      · simp only [hnow, if_true, List.countP_append, List.countP_singleton, decide_true]
        omega
      · simp only [List.countP_append, List.countP_singleton, decide_eq_true_eq]
        split_ifs with ht
        · subst ht
          omega
        · exact h.all t
  | recycle l =>
      obtain ⟨⟨m', b⟩, hd, rfl⟩ := Option.map_eq_some_iff.mp hs
      obtain ⟨-, m, rest, hrest, rfl, rfl⟩ := MessageBuffer.recycle_iff.mp hd
      exact h.congr rfl rfl rfl rfl
  | delayHead delta o =>
      obtain ⟨⟨m', b⟩, hd, rfl⟩ := Option.map_eq_some_iff.mp hs
      obtain ⟨m, rest, hrest, he⟩ := MessageBuffer.delayHead_iff.mp hd
      exact h.congr rfl rfl (MessageBuffer.pop_enqueue he).1 (MessageBuffer.pop_enqueue he).2
  | stallMessage a =>
      obtain ⟨b, hd, rfl⟩ := Option.map_eq_some_iff.mp hs
      obtain ⟨hready, m, rest, hrest, rfl⟩ := MessageBuffer.stallMessage_iff.mp hd
      obtain ⟨hnow, hmax, hlt⟩ := countPop_counts hr hready
      refine { h with popped := hnow.le, present := ?_, pops := hmax }
      simp only [hnow, if_true]
      exact h.present.trans hlt.le
  | reanalyzeMessages a =>
      obtain ⟨⟨lt, b⟩, hd, rfl⟩ := Option.map_eq_some_iff.mp hs
      obtain ⟨-, rfl, -, -, rfl⟩ := MessageBuffer.reanalyzeMessages_iff.mp hd
      exact h.congr rfl rfl rfl rfl
  | scheduleEventAbsolute t =>
      obtain ⟨-, hs⟩ := Option.ite_none_right_eq_some.mp hs
      cases hs
      exact h.congr rfl rfl rfl rfl
  | wakeup =>
      obtain ⟨-, hs⟩ := Option.ite_none_right_eq_some.mp hs
      obtain ⟨c, -, rfl⟩ := Option.map_eq_some_iff.mp hs
      exact h.congr rfl rfl rfl rfl

/-- **The rate is kept.**  Where a buffer has a rate, no more messages are taken in any tick. -/
theorem dequeue_rate (hr : p.max_dequeue_rate ≠ 0) (h : (inbox μ p P).Reach (fun _ _ => True) s)
    (t : ℕ) : s.taken.countP (·.1 = t) ≤ p.max_dequeue_rate := by
  have hpaced : Paced p s := by
    refine h.invariant ?_ fun _ _ _ hs _ => hs.step hr
    rintro _ ⟨t, rfl⟩
    constructor <;> simp
  exact hpaced.all t

theorem dequeue_rate_setAside : ∃ s, (inbox ℕ twoSlots 2).Reach (fun _ _ => True) s ∧
    s.taken.countP (·.1 = 4) = 1 ∧ ∀ t, s.taken.countP (·.1 = t) ≤ 1 := by
  have h : (((inbox ℕ twoSlots 2).trace (fun _ _ => True) {} (setAside ++ [.dequeue])).any
      fun s => decide (s.taken.countP (·.1 = 4) = 1)) = true := by decide +kernel
  obtain ⟨s, hreach, hs⟩ := Lib.Machine.trace_reaches (inbox_start _ _ 0) h
  exact ⟨s, hreach, hs, dequeue_rate (by decide) hreach⟩

/-! ### The order -/

/-- What the calls keep that leave the messages in order: the messages are numbered as they were
sent. -/
structure InOrder (s : Inbox μ) : Prop where
  ordered : s.buffer.Ordered
  counter : s.buffer.m_msg_counter = s.sent.length
  numbered : s.sent.zipIdx 1 ~ s.taken.map (·.2.tag) ++ s.buffer.contents.map Message.tag

/-- A call that changes neither the numbers nor the times, and takes no message. -/
theorem InOrder.congr (h : InOrder s) (hs : s'.sent = s.sent) (ht : s'.taken = s.taken)
    (hb : s'.buffer.m_last_message_strict_fifo_bypassed =
      s.buffer.m_last_message_strict_fifo_bypassed)
    (hl : s'.buffer.m_last_arrival_time = s.buffer.m_last_arrival_time)
    (hc : s'.buffer.m_msg_counter = s.buffer.m_msg_counter)
    (hk : s'.buffer.contents.map Message.key ~ s.buffer.contents.map Message.key)
    (htag : s'.buffer.contents.map Message.tag ~ s.buffer.contents.map Message.tag) :
    InOrder s' where
  ordered := h.ordered.congr hb hl hk.subset
  counter := by rw [hc, hs, h.counter]
  numbered := by
    rw [hs, ht]
    exact h.numbered.trans (htag.symm.append_left _)

theorem InOrder.step (hor : p.ordered = true) (hg : Good p P s) (h : InOrder s)
    (hc : c.keepsOrder = true) (hs : s.step p P c = some s') : InOrder s' := by
  cases c with
  | tick t =>
      obtain ⟨-, hs⟩ := Option.ite_none_right_eq_some.mp hs
      cases hs
      exact h.congr rfl rfl rfl rfl rfl (.refl _) (.refl _)
  | enqueue m delta o =>
      obtain ⟨⟨m', b⟩, he, rfl⟩ := Option.map_eq_some_iff.mp hs
      simp only [Call.keepsOrder, Bool.and_eq_true, Bool.not_eq_true'] at hc
      obtain ⟨htag, hcounter⟩ := MessageBuffer.tag_enqueue he
      refine ⟨(h.ordered.enqueue hg.wf hor hc.1 hc.2 he).1, ?_, ?_⟩
      · show b.m_msg_counter = (s.sent ++ [m.body]).length
        rw [hcounter, h.counter, List.length_append, List.length_singleton]
      · have hcont := (MessageBuffer.contents_enqueue he).map Message.tag
        rw [List.map_cons, htag, h.counter] at hcont
        rw [List.zipIdx_append]
        refine (List.perm_append_singleton _ _).trans ?_
        rw [Nat.add_comm]
        exact (h.numbered.cons _).trans (List.perm_middle.symm.trans (hcont.symm.append_left _))
  | dequeue =>
      obtain ⟨⟨m', b⟩, hd, rfl⟩ := Option.map_eq_some_iff.mp hs
      obtain ⟨-, hmap⟩ := hg.wf.dequeue hd
      have hkey := hmap Message.key fun _ => rfl
      have htag := hmap Message.tag fun _ => rfl
      obtain ⟨-, m, rest, hrest, rfl, rfl⟩ := MessageBuffer.dequeue_iff.mp hd
      refine ⟨h.ordered.congr ?_ ?_ (hkey ▸ List.subset_cons_self _ _), ?_, ?_⟩
      · exact (MessageBuffer.order_countPop).1
      · exact (MessageBuffer.order_countPop).2.1
      · exact (MessageBuffer.order_countPop).2.2.trans h.counter
      · rw [List.map_append, List.append_assoc]
        exact h.numbered.trans (.of_eq (congrArg _ htag))
  | recycle l => cases hc
  | delayHead delta o => cases hc
  | stallMessage a =>
      obtain ⟨b, hd, rfl⟩ := Option.map_eq_some_iff.mp hs
      obtain ⟨-, hmap⟩ := hg.wf.stallMessage hd
      have hkey := hmap Message.key fun _ => rfl
      have htag := hmap Message.tag fun _ => rfl
      obtain ⟨-, m, rest, hrest, rfl⟩ := MessageBuffer.stallMessage_iff.mp hd
      exact h.congr rfl rfl (MessageBuffer.order_countPop).1 (MessageBuffer.order_countPop).2.1
        (MessageBuffer.order_countPop).2.2 hkey htag
  | reanalyzeMessages a =>
      obtain ⟨⟨lt, b⟩, hr, rfl⟩ := Option.map_eq_some_iff.mp hs
      obtain ⟨-, hperm⟩ := hg.wf.reanalyzeMessages hr
      obtain ⟨-, rfl, -, -, rfl⟩ := MessageBuffer.reanalyzeMessages_iff.mp hr
      exact h.congr rfl rfl rfl rfl rfl (hperm.map _) (hperm.map _)
  | scheduleEventAbsolute t =>
      obtain ⟨-, hs⟩ := Option.ite_none_right_eq_some.mp hs
      cases hs
      exact h.congr rfl rfl rfl rfl rfl (.refl _) (.refl _)
  | wakeup =>
      obtain ⟨-, hs⟩ := Option.ite_none_right_eq_some.mp hs
      obtain ⟨c, -, rfl⟩ := Option.map_eq_some_iff.mp hs
      exact h.congr rfl rfl rfl rfl rfl (.refl _) (.refl _)

theorem inOrder_of_reach (hP : 0 < P) (hor : p.ordered = true)
    (h : (inbox μ p P).Reach (fun _ c => c.keepsOrder = true) s) : Good p P s ∧ InOrder s := by
  refine h.invariant (I := fun s => Good p P s ∧ InOrder s) ?_ fun _ _ _ hs hc hstep =>
    ⟨hs.1.step hP hstep, hs.2.step hor hs.1 hc hstep⟩
  rintro _ ⟨t, rfl⟩
  refine ⟨.init t, .init, rfl, ?_⟩
  simp [MessageBuffer.contents, Lib.Table.elems, Lib.Table.empty]

/-- **No overtaking.**  Of the messages sent to an ordered buffer before one that is taken, each has
been taken or has been set aside. -/
theorem no_overtaking (hP : 0 < P) (hor : p.ordered = true)
    (h : (inbox μ p P).Reach (fun _ c => c.keepsOrder = true) s)
    (hs : s.step p P .dequeue = some s') : ∃ m, s'.taken = s.taken ++ [(s.curTick, m)] ∧
      ∀ x ∈ s.sent.zipIdx 1, x.2 < m.m_msg_counter →
        x ∈ s.taken.map (·.2.tag) ∨ x ∈ s.buffer.m_stall_msg_map.elems.map Message.tag := by
  obtain ⟨hg, ho⟩ := inOrder_of_reach hP hor h
  obtain ⟨⟨m', b⟩, hd, rfl⟩ := Option.map_eq_some_iff.mp hs
  obtain ⟨-, m, rest, hrest, rfl, rfl⟩ := MessageBuffer.dequeue_iff.mp hd
  refine ⟨m.delayed s.curTick, rfl, fun x hx hlt => ?_⟩
  rcases List.mem_append.mp (ho.numbered.mem_iff.mp hx) with hx | hx
  · exact .inl hx
  · rw [MessageBuffer.contents, List.map_append] at hx
    rcases List.mem_append.mp hx with hx | hx
    · obtain ⟨y, hy, rfl⟩ := List.mem_map.mp hx
      have hle := ho.ordered.front hg.wf hrest hy
      exact absurd hlt (Nat.not_lt.mpr hle)
    · exact .inr hx

/-- The second message is taken while the first is set aside. -/
theorem no_overtaking_setAside : ∃ s s',
    (inbox ℕ twoSlots 2).Reach (fun _ c => c.keepsOrder = true) s ∧
    s.step twoSlots 2 .dequeue = some s' ∧ s.taken = [] ∧
    ∃ m, s'.taken = s.taken ++ [(s.curTick, m)] ∧
      ∀ x ∈ s.sent.zipIdx 1, x.2 < m.m_msg_counter →
        x ∈ s.taken.map (·.2.tag) ∨ x ∈ s.buffer.m_stall_msg_map.elems.map Message.tag := by
  have h : (((inbox ℕ twoSlots 2).trace (fun _ c => c.keepsOrder = true) {} setAside).any
      fun s => decide (s.taken = [] ∧ (s.step twoSlots 2 .dequeue).isSome = true)) = true := by
    decide +kernel
  obtain ⟨s, hreach, ht, hs⟩ := Lib.Machine.trace_reaches (inbox_start _ _ 0) h
  obtain ⟨s', hs⟩ := Option.isSome_iff_exists.mp hs
  exact ⟨s, s', hreach, hs, ht, no_overtaking (by decide) rfl hreach hs⟩

/-- The messages sent are those taken and those in the heap, in order. -/
structure Direct (s : Inbox μ) : Prop where
  queue : s.sent = s.taken.map (·.2.body) ++ s.buffer.m_prio_heap.map Message.body
  stalled : s.buffer.m_stall_msg_map.elems = []

theorem Direct.step (hor : p.ordered = true) (hg : Good p P s) (ho : InOrder s) (h : Direct s)
    (hc : c.isDirect = true) (hs : s.step p P c = some s') : Direct s' := by
  cases c with
  | tick t =>
      obtain ⟨-, hs⟩ := Option.ite_none_right_eq_some.mp hs
      cases hs
      exact ⟨h.queue, h.stalled⟩
  | enqueue m delta o =>
      obtain ⟨⟨m', b⟩, he, rfl⟩ := Option.map_eq_some_iff.mp hs
      simp only [Call.isDirect, Call.keepsOrder, Bool.and_eq_true, Bool.not_eq_true'] at hc
      have hlast := (ho.ordered.enqueue hg.wf hor hc.1 hc.2 he).2
      have hheap : b.m_prio_heap = s.buffer.m_prio_heap ++ [m'] :=
        (MessageBuffer.heap_enqueue he).trans (MessageBuffer.orderedInsert_of_forall fun x hx =>
          hlast x (List.mem_append_left _ hx))
      obtain ⟨hbody, hmap⟩ := MessageBuffer.body_enqueue he
      constructor
      · simp only [put, h.queue, hheap, List.map_append, List.append_assoc, List.map_singleton,
          hbody]
      · exact (congrArg Lib.Table.elems hmap).trans h.stalled
  | dequeue =>
      obtain ⟨⟨m', b⟩, hd, rfl⟩ := Option.map_eq_some_iff.mp hs
      obtain ⟨-, m, rest, hrest, rfl, rfl⟩ := MessageBuffer.dequeue_iff.mp hd
      constructor
      · simp only [h.queue, hrest, List.map_append, List.map_cons, List.map_nil, List.append_assoc,
          List.cons_append, List.nil_append]
        rfl
      · exact (congrArg Lib.Table.elems MessageBuffer.map_countPop).trans h.stalled
  | recycle l => cases hc
  | delayHead delta o => cases hc
  | stallMessage a => cases hc
  | reanalyzeMessages a =>
      -- nothing was set aside
      obtain ⟨⟨lt, b⟩, hr, rfl⟩ := Option.map_eq_some_iff.mp hs
      obtain ⟨hhas, -⟩ := MessageBuffer.reanalyzeMessages_iff.mp hr
      have hne := (Lib.Table.has_iff _ _).mp hhas
      have hnil := (s.buffer.m_stall_msg_map.elems_clear a).symm
      rw [h.stalled, List.nil_perm, List.append_eq_nil_iff] at hnil
      exact absurd hnil.1 hne
  | scheduleEventAbsolute t =>
      obtain ⟨-, hs⟩ := Option.ite_none_right_eq_some.mp hs
      cases hs
      exact ⟨h.queue, h.stalled⟩
  | wakeup =>
      obtain ⟨-, hs⟩ := Option.ite_none_right_eq_some.mp hs
      obtain ⟨c, -, rfl⟩ := Option.map_eq_some_iff.mp hs
      exact ⟨h.queue, h.stalled⟩

/-- **First in, first out.**  An ordered buffer whose consumer sets nothing aside gives out the
messages in the order in which they were sent. -/
theorem fifo (hP : 0 < P) (hor : p.ordered = true)
    (h : (inbox μ p P).Reach (fun _ c => c.isDirect = true) s) :
    s.sent = s.taken.map (·.2.body) ++ s.buffer.m_prio_heap.map Message.body := by
  have hd : (Good p P s ∧ InOrder s) ∧ Direct s := by
    refine h.invariant (I := fun s => (Good p P s ∧ InOrder s) ∧ Direct s) ?_ ?_
    · rintro _ ⟨t, rfl⟩
      exact ⟨inOrder_of_reach hP hor (.init ⟨t, rfl⟩), rfl, rfl⟩
    · rintro s c s' ⟨⟨hg, ho⟩, hd⟩ hc hstep
      exact ⟨⟨hg.step hP hstep, ho.step hor hg (Call.keepsOrder_of_isDirect hc) hstep⟩,
        hd.step hor hg ho hc hstep⟩
  exact hd.2.queue

theorem fifo_direct : ∃ s, (inbox ℕ twoSlots 2).Reach (fun _ c => c.isDirect = true) s ∧
    s.sent = [7, 8] ∧ s.taken.length = 1 ∧
    s.sent = s.taken.map (·.2.body) ++ s.buffer.m_prio_heap.map Message.body := by
  have h : (((inbox ℕ twoSlots 2).trace (fun _ c => c.isDirect = true) {}
      (setAside.take 4 ++ [.dequeue])).any
        fun s => decide (s.sent = [7, 8] ∧ s.taken.length = 1)) = true := by decide +kernel
  obtain ⟨s, hreach, hs, ht⟩ := Lib.Machine.trace_reaches (inbox_start _ _ 0) h
  exact ⟨s, hreach, hs, ht, fifo (by decide) rfl hreach⟩

end Inbox

end SttRuby.Network
