import Mathlib.Data.List.Sort
import SttRuby.Cache.Memory
import SttRuby.Lib.Tables
import SttRuby.Network.Consumer

/-!
# Network — MessageBuffer

`MessageBuffer`: the queue between two components.  A message is put into a heap with the tick at
which it may be taken, and the heap has in front the message with the least tick and, of those, the
one put in first.  The consumer takes the message in front, puts it back for later (`recycle`,
`delayHead`), or sets it aside under an address (`stallMessage`) until it asks for what it has set
aside there (`reanalyzeMessages`).  Sizes are counted so that within a tick what is put in is seen
at once, and what is taken out only in the next tick.

The statistics are left out, and so are `deferEnqueueingMessage` and `reanalyzeAllMessages`, which
none of the controllers modelled here calls.
-/

namespace SttRuby.Network

open Cache (Addr)
open scoped List

/-! ### Messages -/

/-- `Message`: what the buffers keep in it, and the rest of it. -/
structure Message (μ : Type) where
  body : μ
  m_LastEnqueueTime : ℕ
  m_DelayedTicks : ℕ := 0
  m_msg_counter : ℕ := 0
  deriving DecidableEq

namespace Message

variable {μ : Type}

/-- `operator>`. -/
def gt (l r : Message μ) : Prop :=
  if l.m_LastEnqueueTime = r.m_LastEnqueueTime then l.m_msg_counter > r.m_msg_counter
  else l.m_LastEnqueueTime > r.m_LastEnqueueTime

instance : DecidableRel (gt (μ := μ)) := fun l r =>
  inferInstanceAs (Decidable (if l.m_LastEnqueueTime = r.m_LastEnqueueTime then _ else _))

/-- `l` may be in front of `r` in the heap. -/
def le (l r : Message μ) : Prop := ¬ l.gt r

instance : DecidableRel (le (μ := μ)) := fun l r => inferInstanceAs (Decidable (¬ l.gt r))

theorem le_iff {l r : Message μ} : l.le r ↔ l.m_LastEnqueueTime < r.m_LastEnqueueTime ∨
    l.m_LastEnqueueTime = r.m_LastEnqueueTime ∧ l.m_msg_counter ≤ r.m_msg_counter := by
  unfold le gt
  split_ifs <;> omega

instance : Std.Total (le (μ := μ)) := ⟨fun l r => by simp only [le_iff]; omega⟩

instance : IsTrans (Message μ) le := ⟨fun l m r hlm hmr => by simp only [le_iff] at *; omega⟩

/-- What identifies a message in a buffer: the rest of it, and its number. -/
def tag (m : Message μ) : μ × ℕ := (m.body, m.m_msg_counter)

/-- What decides its place in the heap. -/
def key (m : Message μ) : ℕ × ℕ := (m.m_LastEnqueueTime, m.m_msg_counter)

/-- The message with the ticks since it was due. -/
def delayed (m : Message μ) (curTime : ℕ) : Message μ :=
  { m with m_DelayedTicks := m.m_DelayedTicks + (curTime - m.m_LastEnqueueTime) }

/-- `none` if the message was not due yet. -/
def updateDelayedTicks (m : Message μ) (curTime : ℕ) : Option (Message μ) :=
  if m.m_LastEnqueueTime ≤ curTime then some (m.delayed curTime) else none

theorem updateDelayedTicks_iff {m m' : Message μ} {now : ℕ} :
    m.updateDelayedTicks now = some m' ↔ m.m_LastEnqueueTime ≤ now ∧ m' = m.delayed now := by
  unfold updateDelayedTicks
  split_ifs with h <;> simp [h, eq_comm]

end Message

/-! ### The buffer -/

inductive MessageRandomization where
  | disabled | enabled | ruby_system
  deriving DecidableEq

/-- The parameters of a buffer that its methods read. -/
structure MessageBuffer.Params where
  buffer_size : ℕ := 0
  max_dequeue_rate : ℕ := 0
  ordered : Bool := false
  randomization : MessageRandomization := .ruby_system
  allow_zero_latency : Bool := false

/-- What is passed to `enqueue` beside the message and the times, and what `random_time` returns. -/
structure MessageBuffer.Options where
  ruby_is_random : Bool := false
  ruby_warmup : Bool := false
  bypassStrictFIFO : Bool := false
  random_time : ℕ := 1
  deriving DecidableEq

/-- The heap is kept as the list of its messages in the order in which they come to the front. -/
structure MessageBuffer (μ : Type) where
  m_prio_heap : List (Message μ) := []
  m_stall_msg_map : Lib.Table Addr (Message μ) := .empty
  m_stall_map_size : ℤ := 0
  m_dequeues_this_cy : ℕ := 0
  m_time_last_time_enqueue : ℕ := 0
  m_time_last_time_pop : ℕ := 0
  m_last_arrival_time : ℕ := 0
  m_size_at_cycle_start : ℕ := 0
  m_stalled_at_cycle_start : ℕ := 0
  m_msgs_this_cycle : ℕ := 0
  m_msg_counter : ℕ := 0
  m_last_message_strict_fifo_bypassed : Bool := false

namespace MessageBuffer

variable {μ : Type} (p : Params) (b : MessageBuffer μ)

/-- The size that senders see: of what is in the buffer, and of what was in it before the pops of
the present tick. -/
def visibleSize (current_time : ℕ) : ℕ :=
  if b.m_time_last_time_pop < current_time then
    b.m_prio_heap.length + b.m_stall_map_size.toNat
  else
    (if b.m_time_last_time_enqueue < current_time then b.m_size_at_cycle_start
      else b.m_size_at_cycle_start + b.m_msgs_this_cycle) + b.m_stalled_at_cycle_start

def areNSlotsAvailable (n current_time : ℕ) : Bool :=
  p.buffer_size == 0 || b.visibleSize current_time + n ≤ p.buffer_size

/-- `push_heap`. -/
def push (m : Message μ) : MessageBuffer μ :=
  { b with m_prio_heap := b.m_prio_heap.orderedInsert Message.le m }

/-- The counts of the messages enqueued, in all and in the present tick. -/
def countEnqueue (current_time : ℕ) : MessageBuffer μ :=
  let b := if b.m_time_last_time_enqueue < current_time then
    { b with m_msgs_this_cycle := 0, m_time_last_time_enqueue := current_time } else b
  { b with
    m_msg_counter := b.m_msg_counter + 1
    m_msgs_this_cycle := b.m_msgs_this_cycle + 1 }

/-- Whether the delay is random. -/
def randomizes (o : Options) : Bool :=
  !(p.randomization == .disabled || (p.randomization == .ruby_system && !o.ruby_is_random))

/-- In an ordered buffer a random delay is added to the last arrival, or to the present tick. -/
def raiseLastArrival (current_time : ℕ) (o : Options) : MessageBuffer μ :=
  if randomizes p o && p.ordered && b.m_last_arrival_time < current_time then
    { b with m_last_arrival_time := current_time }
  else b

def arrivalTime (current_time delta : ℕ) (o : Options) : ℕ :=
  if randomizes p o then
    if p.ordered then b.m_last_arrival_time + o.random_time else current_time + o.random_time
  else current_time + delta

/-- The check of the order, which is left out for a message that bypasses it and for the next. -/
def inOrder (arrival_time : ℕ) (o : Options) : Bool :=
  !(p.ordered && !(o.bypassStrictFIFO || b.m_last_message_strict_fifo_bypassed)) ||
    b.m_last_arrival_time ≤ arrival_time

/-- The buffer has no more messages than it has room for. -/
def fits : Bool :=
  p.buffer_size == 0 || (b.m_prio_heap.length : ℤ) + b.m_stall_map_size ≤ p.buffer_size

/-- The message as it is put into the heap, and the buffer; `none` where the buffer panics or an
assertion fails. -/
def enqueue (message : Message μ) (current_time delta : ℕ) (o : Options) :
    Option (Message μ × MessageBuffer μ) := do
  let b := b.countEnqueue current_time
  guard (delta ≠ 0 ∨ p.allow_zero_latency = true)
  let b := b.raiseLastArrival p current_time o
  let arrival_time := b.arrivalTime p current_time delta o
  guard (current_time ≤ arrival_time)
  guard (b.inOrder p arrival_time o = true)
  let b := { b with
    m_last_arrival_time := if o.ruby_warmup then b.m_last_arrival_time else arrival_time
    m_last_message_strict_fifo_bypassed := o.bypassStrictFIFO }
  let message ← message.updateDelayedTicks current_time
  let message := { message with
    m_LastEnqueueTime := arrival_time, m_msg_counter := b.m_msg_counter }
  let b := b.push message
  guard (b.fits p = true)
  return (message, b)

/-- `none` if a later tick has been seen.  That the consumer is asked to wake up in the next cycle
when the rate has been used up is a call of its own (`Call.scheduleEventAbsolute`). -/
def isReady (current_time : ℕ) : Option Bool :=
  if b.m_time_last_time_pop ≤ current_time then
    let can_dequeue := p.max_dequeue_rate == 0 || b.m_time_last_time_pop < current_time ||
      b.m_dequeues_this_cy < p.max_dequeue_rate
    let is_ready := b.m_prio_heap.head?.any fun m => m.m_LastEnqueueTime ≤ current_time
    some (can_dequeue && is_ready)
  else none

/-- At the first pop of a tick, the sizes before it are noted. -/
def countPop (current_time : ℕ) : MessageBuffer μ :=
  let b := if b.m_time_last_time_pop < current_time then
    { b with
      m_size_at_cycle_start := b.m_prio_heap.length
      m_stalled_at_cycle_start := b.m_stall_map_size.toNat
      m_time_last_time_pop := current_time
      m_dequeues_this_cy := 0 } else b
  { b with m_dequeues_this_cy := b.m_dequeues_this_cy + 1 }

/-- The message in front, with its delay, and the buffer without it. -/
def dequeue (current_time : ℕ) : Option (Message μ × MessageBuffer μ) := do
  guard ((← b.isReady p current_time) = true)
  let message ← b.m_prio_heap.head?
  let message ← message.updateDelayedTicks current_time
  return (message, { b.countPop current_time with m_prio_heap := b.m_prio_heap.tail })

/-- The message in front is put back for later. -/
def recycle (current_time recycle_latency : ℕ) : Option (Message μ × MessageBuffer μ) := do
  guard ((← b.isReady p current_time) = true)
  let node ← b.m_prio_heap.head?
  let node := { node with m_LastEnqueueTime := current_time + recycle_latency }
  return (node, { b with m_prio_heap := b.m_prio_heap.tail }.push node)

/-- The message in front is enqueued anew. -/
def delayHead (current_time delta : ℕ) (o : Options) : Option (Message μ × MessageBuffer μ) := do
  let m ← b.m_prio_heap.head?
  { b with m_prio_heap := b.m_prio_heap.tail }.enqueue p m current_time delta o

/-- The message in front is set aside under the address. -/
def stallMessage (addr : Addr) (current_time : ℕ) : Option (MessageBuffer μ) := do
  let (message, b) ← b.dequeue p current_time
  return { b with
    m_stall_msg_map := b.m_stall_msg_map.set addr (b.m_stall_msg_map.queue addr ++ [message])
    m_stall_map_size := b.m_stall_map_size + 1 }

def hasStalledMsg (addr : Addr) : Bool := b.m_stall_msg_map.has addr

/-- The messages of the list are put back one by one; `none` if one of them is not due yet. -/
def reanalyzeList (schdTick : ℕ) : List (Message μ) → MessageBuffer μ → Option (MessageBuffer μ)
  | [], b => some b
  | m :: lt, b =>
      if m.m_LastEnqueueTime ≤ schdTick then reanalyzeList schdTick lt (b.push m) else none

/-- What was set aside under the address, and the buffer in which it is back. -/
def reanalyzeMessages (addr : Addr) (current_time : ℕ) :
    Option (List (Message μ) × MessageBuffer μ) := do
  guard (b.hasStalledMsg addr = true)
  let lt := b.m_stall_msg_map.queue addr
  let b := { b with m_stall_map_size := b.m_stall_map_size - lt.length }
  guard (0 ≤ b.m_stall_map_size)
  let b ← b.reanalyzeList current_time lt
  return (lt, { b with m_stall_msg_map := b.m_stall_msg_map.set addr [] })

/-! ### What the methods do -/

variable {p b} {b' : MessageBuffer μ} {m m' : Message μ} {now delta : ℕ} {o : Options}

/-- What is in the buffer. -/
def contents (b : MessageBuffer μ) : List (Message μ) := b.m_prio_heap ++ b.m_stall_msg_map.elems

theorem isReady_iff : b.isReady p now = some true ↔ b.m_time_last_time_pop ≤ now ∧
    (p.max_dequeue_rate = 0 ∨ b.m_time_last_time_pop < now ∨
      b.m_dequeues_this_cy < p.max_dequeue_rate) ∧
    ∃ m rest, b.m_prio_heap = m :: rest ∧ m.m_LastEnqueueTime ≤ now := by
  unfold isReady
  cases hh : b.m_prio_heap with
  | nil => simp
  | cons m rest => simp [or_assoc, and_assoc]

/-- The buffer while a message is enqueued, before it is put into the heap. -/
def beforePush (p : Params) (b : MessageBuffer μ) (now delta : ℕ) (o : Options) : MessageBuffer μ :=
  let b := (b.countEnqueue now).raiseLastArrival p now o
  { b with
    m_last_arrival_time :=
      if o.ruby_warmup then b.m_last_arrival_time else b.arrivalTime p now delta o
    m_last_message_strict_fifo_bypassed := o.bypassStrictFIFO }

/-- The message as it is put into the heap. -/
def stamped (p : Params) (b : MessageBuffer μ) (m : Message μ) (now delta : ℕ) (o : Options) :
    Message μ :=
  let b := (b.countEnqueue now).raiseLastArrival p now o
  { m.delayed now with
    m_LastEnqueueTime := b.arrivalTime p now delta o
    m_msg_counter := b.m_msg_counter }

/-- What `enqueue` asks for. -/
structure Accepts (p : Params) (b : MessageBuffer μ) (m : Message μ) (now delta : ℕ) (o : Options) :
    Prop where
  latency : delta ≠ 0 ∨ p.allow_zero_latency = true
  order : ((b.countEnqueue now).raiseLastArrival p now o).inOrder p
    (((b.countEnqueue now).raiseLastArrival p now o).arrivalTime p now delta o) o = true
  due : m.m_LastEnqueueTime ≤ now

theorem le_raiseLastArrival (hr : randomizes p o = true) (ho : p.ordered = true) :
    now ≤ (b.raiseLastArrival p now o).m_last_arrival_time := by
  unfold raiseLastArrival
  split_ifs with h
  · exact le_rfl
  · simpa [hr, ho] using h

theorem le_arrivalTime :
    now ≤ (b.raiseLastArrival p now o).arrivalTime p now delta o := by
  unfold arrivalTime
  split_ifs with hr ho
  · exact (le_raiseLastArrival hr ho).trans (Nat.le_add_right _ _)
  · exact Nat.le_add_right _ _
  · exact Nat.le_add_right _ _

theorem enqueue_iff : b.enqueue p m now delta o = some (m', b') ↔ b.Accepts p m now delta o ∧
    ((b.beforePush p now delta o).push (b.stamped p m now delta o)).fits p = true ∧
    m' = b.stamped p m now delta o ∧
    b' = (b.beforePush p now delta o).push (b.stamped p m now delta o) := by
  simp only [enqueue, Option.bind_eq_bind, Option.bind_eq_some_iff, Option.guard_eq_some',
    Message.updateDelayedTicks_iff, Option.pure_def, Option.some.injEq, Prod.mk.injEq]
  constructor
  · rintro ⟨_, hl, _, -, _, ho, _, ⟨hd, rfl⟩, _, hf, rfl, rfl⟩
    exact ⟨⟨hl, ho, hd⟩, hf, rfl, rfl⟩
  · rintro ⟨⟨hl, ho, hd⟩, hf, rfl, rfl⟩
    exact ⟨(), hl, (), le_arrivalTime, (), ho, _, ⟨hd, rfl⟩, (), hf, rfl, rfl⟩

theorem dequeue_iff : b.dequeue p now = some (m', b') ↔ b.isReady p now = some true ∧
    ∃ m rest, b.m_prio_heap = m :: rest ∧ m' = m.delayed now ∧
      b' = { b.countPop now with m_prio_heap := rest } := by
  simp only [dequeue, Option.bind_eq_bind, Option.bind_eq_some_iff, Option.guard_eq_some',
    Message.updateDelayedTicks_iff, Option.pure_def, Option.some.injEq, Prod.mk.injEq]
  constructor
  · rintro ⟨_, hr, _, rfl, m, hm, _, ⟨-, rfl⟩, rfl, rfl⟩
    obtain ⟨rest, hrest⟩ := List.head?_eq_some_iff.mp hm
    exact ⟨hr, m, rest, hrest, rfl, by rw [hrest, List.tail_cons]⟩
  · rintro ⟨hr, m, rest, hrest, rfl, rfl⟩
    obtain ⟨-, -, m₁, rest₁, h₁, hdue⟩ := isReady_iff.mp hr
    obtain ⟨rfl, rfl⟩ := List.cons_eq_cons.mp (hrest.symm.trans h₁)
    exact ⟨true, hr, (), rfl, m, by rw [hrest, List.head?_cons], _, ⟨hdue, rfl⟩, rfl,
      by rw [hrest, List.tail_cons]⟩

theorem recycle_iff {recycle_latency : ℕ} : b.recycle p now recycle_latency = some (m', b') ↔
    b.isReady p now = some true ∧ ∃ m rest, b.m_prio_heap = m :: rest ∧
      m' = { m with m_LastEnqueueTime := now + recycle_latency } ∧
      b' = ({ b with m_prio_heap := rest } : MessageBuffer μ).push m' := by
  simp only [recycle, Option.bind_eq_bind, Option.bind_eq_some_iff, Option.guard_eq_some',
    Option.pure_def, Option.some.injEq, Prod.mk.injEq]
  constructor
  · rintro ⟨_, hr, _, rfl, m, hm, rfl, rfl⟩
    obtain ⟨rest, hrest⟩ := List.head?_eq_some_iff.mp hm
    exact ⟨hr, m, rest, hrest, rfl, by rw [hrest, List.tail_cons]⟩
  · rintro ⟨hr, m, rest, hrest, rfl, rfl⟩
    exact ⟨true, hr, (), rfl, m, by rw [hrest, List.head?_cons], rfl, by rw [hrest, List.tail_cons]⟩

theorem delayHead_iff : b.delayHead p now delta o = some (m', b') ↔ ∃ m rest,
    b.m_prio_heap = m :: rest ∧
      ({ b with m_prio_heap := rest } : MessageBuffer μ).enqueue p m now delta o =
        some (m', b') := by
  simp only [delayHead, Option.bind_eq_bind, Option.bind_eq_some_iff]
  constructor
  · rintro ⟨m, hm, he⟩
    obtain ⟨rest, hrest⟩ := List.head?_eq_some_iff.mp hm
    exact ⟨m, rest, hrest, by rwa [hrest, List.tail_cons] at he⟩
  · rintro ⟨m, rest, hrest, he⟩
    exact ⟨m, by rw [hrest, List.head?_cons], by rwa [hrest, List.tail_cons]⟩

theorem stallMessage_iff {addr : Addr} : b.stallMessage p addr now = some b' ↔
    b.isReady p now = some true ∧ ∃ m rest, b.m_prio_heap = m :: rest ∧
      b' = { b.countPop now with
        m_prio_heap := rest
        m_stall_msg_map := b.m_stall_msg_map.set addr
          (b.m_stall_msg_map.queue addr ++ [m.delayed now])
        m_stall_map_size := b.m_stall_map_size + 1 } := by
  have hmap : (b.countPop now).m_stall_msg_map = b.m_stall_msg_map := by
    unfold countPop
    split_ifs <;> rfl
  have hsize : (b.countPop now).m_stall_map_size = b.m_stall_map_size := by
    unfold countPop
    split_ifs <;> rfl
  simp only [stallMessage, Option.bind_eq_bind, Option.bind_eq_some_iff, Prod.exists, dequeue_iff,
    Option.pure_def, Option.some.injEq]
  constructor
  · rintro ⟨_, _, ⟨hr, m, rest, hrest, rfl, rfl⟩, rfl⟩
    exact ⟨hr, m, rest, hrest, by simp only [hmap, hsize]⟩
  · rintro ⟨hr, m, rest, hrest, rfl⟩
    exact ⟨_, _, ⟨hr, m, rest, hrest, rfl, rfl⟩, by simp only [hmap, hsize]⟩

/-- The heap with the messages of a list back in it. -/
def putBack (heap lt : List (Message μ)) : List (Message μ) :=
  lt.foldl (fun h m => h.orderedInsert Message.le m) heap

theorem putBack_perm (heap lt : List (Message μ)) : putBack heap lt ~ lt ++ heap := by
  induction lt generalizing heap with
  | nil => exact .refl heap
  | cons m lt ih =>
      exact (ih _).trans (((List.perm_orderedInsert _ m heap).append_left lt).trans
        List.perm_middle)

theorem putBack_sorted {heap : List (Message μ)} (h : heap.Pairwise Message.le)
    (lt : List (Message μ)) : (putBack heap lt).Pairwise Message.le := by
  induction lt generalizing heap with
  | nil => exact h
  | cons m lt ih => exact ih (h.orderedInsert m)

/-- Messages that are due are put back into the heap. -/
theorem reanalyzeList_iff {lt : List (Message μ)} : b.reanalyzeList now lt = some b' ↔
    (∀ m ∈ lt, m.m_LastEnqueueTime ≤ now) ∧
      b' = { b with m_prio_heap := putBack b.m_prio_heap lt } := by
  induction lt generalizing b with
  | nil => simp [reanalyzeList, putBack, eq_comm]
  | cons m lt ih =>
      rw [reanalyzeList]
      split_ifs with hm
      · rw [ih]
        simp [push, putBack, hm]
      · simp [hm]

theorem reanalyzeMessages_iff {addr : Addr} {lt : List (Message μ)} :
    b.reanalyzeMessages addr now = some (lt, b') ↔ b.hasStalledMsg addr = true ∧
      lt = b.m_stall_msg_map.queue addr ∧ (lt.length : ℤ) ≤ b.m_stall_map_size ∧
      (∀ m ∈ lt, m.m_LastEnqueueTime ≤ now) ∧
      b' = { b with
        m_prio_heap := putBack b.m_prio_heap lt
        m_stall_msg_map := b.m_stall_msg_map.set addr []
        m_stall_map_size := b.m_stall_map_size - lt.length } := by
  simp only [reanalyzeMessages, Option.bind_eq_bind, Option.bind_eq_some_iff,
    Option.guard_eq_some', Option.pure_def, Option.some.injEq, Prod.mk.injEq, reanalyzeList_iff]
  constructor
  · rintro ⟨_, hs, _, hn, _, ⟨hd, rfl⟩, rfl, rfl⟩
    exact ⟨hs, rfl, by omega, hd, rfl⟩
  · rintro ⟨hs, rfl, hn, hd, rfl⟩
    exact ⟨(), hs, (), by omega, _, ⟨hd, rfl⟩, rfl, rfl⟩

/-! ### The sizes and the order -/

/-- What holds of a buffer at a tick. -/
structure Wf (p : Params) (now : ℕ) (b : MessageBuffer μ) : Prop where
  sorted : b.m_prio_heap.Pairwise Message.le
  stalled : b.m_stall_map_size = b.m_stall_msg_map.total
  due : ∀ m ∈ b.m_stall_msg_map.elems, m.m_LastEnqueueTime ≤ now
  enqueued : b.m_time_last_time_enqueue ≤ now
  popped : b.m_time_last_time_pop ≤ now
  visible : b.m_time_last_time_pop = now → b.contents.length ≤
    b.m_size_at_cycle_start + b.m_stalled_at_cycle_start +
      if b.m_time_last_time_enqueue = now then b.m_msgs_this_cycle else 0
  room : p.buffer_size = 0 ∨ b.contents.length ≤ p.buffer_size
  counters : (b.contents.map Message.m_msg_counter).Nodup
  counted : ∀ c ∈ b.contents.map Message.m_msg_counter, c ≤ b.m_msg_counter

theorem length_contents (b : MessageBuffer μ) :
    b.contents.length = b.m_prio_heap.length + b.m_stall_msg_map.total := by
  rw [contents, List.length_append, Lib.Table.total_eq]

theorem Wf.init : Wf p now ({} : MessageBuffer μ) where
  sorted := .nil
  stalled := rfl
  due := by simp [Lib.Table.elems, Lib.Table.empty]
  enqueued := Nat.zero_le now
  popped := Nat.zero_le now
  visible := by simp [length_contents]
  room := .inr (by simp [length_contents])
  counters := by simp [contents, Lib.Table.elems, Lib.Table.empty]
  counted := by simp [contents, Lib.Table.elems, Lib.Table.empty]

/-- The buffer is no fuller than its senders see it. -/
theorem Wf.le_visibleSize (h : Wf p now b) : b.contents.length ≤ b.visibleSize now := by
  have hv := h.visible
  have hp := h.popped
  have he := h.enqueued
  unfold visibleSize
  split_ifs with hlt hle
  · rw [length_contents, h.stalled, Int.toNat_natCast]
  · have hv := hv (by omega)
    rw [if_neg (by omega)] at hv
    omega
  · have hv := hv (by omega)
    rw [if_pos (by omega)] at hv
    omega

theorem fits_iff (hs : b.m_stall_map_size = b.m_stall_msg_map.total) :
    b.fits p = true ↔ p.buffer_size = 0 ∨ b.contents.length ≤ p.buffer_size := by
  rw [fits, length_contents, hs]
  simp only [Bool.or_eq_true, beq_iff_eq, decide_eq_true_eq]
  omega

/-- Time passes. -/
theorem Wf.tick (h : Wf p now b) {t : ℕ} (ht : now ≤ t) : Wf p t b := by
  refine { h with
    due := fun m hm => (h.due m hm).trans ht
    enqueued := h.enqueued.trans ht
    popped := h.popped.trans ht
    visible := fun he => ?_ }
  obtain rfl : now = t := le_antisymm ht (he ▸ h.popped)
  exact h.visible he

/-- The messages of the heap and those set aside change places. -/
theorem Wf.replace (h : Wf p now b) {heap : List (Message μ)} {map : Lib.Table Addr (Message μ)}
    {size : ℤ} (hsorted : heap.Pairwise Message.le) (hsize : size = map.total)
    (hdue : ∀ m ∈ map.elems, m.m_LastEnqueueTime ≤ now)
    (hperm : (heap ++ map.elems).map Message.m_msg_counter ~
      b.contents.map Message.m_msg_counter) :
    Wf p now { b with
      m_prio_heap := heap, m_stall_msg_map := map, m_stall_map_size := size } := by
  have hlen : (heap ++ map.elems).length = b.contents.length := by simpa using hperm.length_eq
  exact {
    sorted := hsorted
    stalled := hsize
    due := hdue
    enqueued := h.enqueued
    popped := h.popped
    visible := fun he => hlen.trans_le (h.visible he)
    room := h.room.imp_right hlen.trans_le
    counters := hperm.nodup_iff.mpr h.counters
    counted := fun c hc => h.counted c (hperm.mem_iff.mp hc) }

/-- The message in front is taken away. -/
theorem Wf.tail (h : Wf p now b) {rest : List (Message μ)} (hrest : b.m_prio_heap = m :: rest) :
    Wf p now { b with m_prio_heap := rest } := by
  have hc : b.contents = m :: (rest ++ b.m_stall_msg_map.elems) := by
    rw [contents, hrest, List.cons_append]
  have hlen : (rest ++ b.m_stall_msg_map.elems).length ≤ b.contents.length := by simp [hc]
  exact { h with
    sorted := (List.pairwise_cons.mp (hrest ▸ h.sorted)).2
    visible := fun he => hlen.trans (h.visible he)
    room := h.room.imp_right hlen.trans
    counters := (List.nodup_cons.mp (List.map_cons .. ▸ hc ▸ h.counters)).2
    counted := fun c hm => h.counted c (by rw [hc, List.map_cons]; exact .tail _ hm) }

theorem Wf.countPop (h : Wf p now b) : Wf p now (b.countPop now) := by
  unfold MessageBuffer.countPop
  split_ifs with hlt
  · refine { h with popped := le_rfl, visible := fun _ => ?_ }
    show b.contents.length ≤ b.m_prio_heap.length + b.m_stall_map_size.toNat + _
    rw [length_contents, h.stalled, Int.toNat_natCast]
    exact Nat.le_add_right _ _
  · exact { h with }

theorem beforePush_eq (p : Params) (b : MessageBuffer μ) (now delta : ℕ) (o : Options) :
    ∃ last, b.beforePush p now delta o = { b with
    m_msg_counter := b.m_msg_counter + 1
    m_time_last_time_enqueue := max b.m_time_last_time_enqueue now
    m_msgs_this_cycle :=
      (if b.m_time_last_time_enqueue < now then 0 else b.m_msgs_this_cycle) + 1
    m_last_arrival_time := last
    m_last_message_strict_fifo_bypassed := o.bypassStrictFIFO } := by
  refine ⟨(b.beforePush p now delta o).m_last_arrival_time, ?_⟩
  unfold beforePush raiseLastArrival countEnqueue
  split_ifs with h <;> simp [max_def] <;> omega

theorem stamped_counter : (b.stamped p m now delta o).m_msg_counter = b.m_msg_counter + 1 := by
  unfold stamped raiseLastArrival countEnqueue
  split_ifs <;> rfl

@[simp] theorem contents_push : (b.push m).contents ~ m :: b.contents :=
  (List.perm_orderedInsert _ m b.m_prio_heap).append_right _

/-- What `enqueue` adds. -/
theorem contents_enqueue (h : b.enqueue p m now delta o = some (m', b')) :
    b'.contents ~ m' :: b.contents := by
  obtain ⟨-, -, rfl, rfl⟩ := enqueue_iff.mp h
  obtain ⟨last, heq⟩ := beforePush_eq p b now delta o
  rw [heq]
  exact contents_push

/-- The message is the only one that `enqueue` puts into the heap. -/
theorem heap_enqueue (h : b.enqueue p m now delta o = some (m', b')) :
    b'.m_prio_heap = b.m_prio_heap.orderedInsert Message.le m' := by
  obtain ⟨-, -, rfl, rfl⟩ := enqueue_iff.mp h
  obtain ⟨last, heq⟩ := beforePush_eq p b now delta o
  rw [heq]
  rfl

theorem body_enqueue (h : b.enqueue p m now delta o = some (m', b')) :
    m'.body = m.body ∧ b'.m_stall_msg_map = b.m_stall_msg_map := by
  obtain ⟨-, -, rfl, rfl⟩ := enqueue_iff.mp h
  obtain ⟨last, heq⟩ := beforePush_eq p b now delta o
  rw [heq]
  exact ⟨rfl, rfl⟩

theorem pop_enqueue (h : b.enqueue p m now delta o = some (m', b')) :
    b'.m_time_last_time_pop = b.m_time_last_time_pop ∧
      b'.m_dequeues_this_cy = b.m_dequeues_this_cy := by
  obtain ⟨-, -, rfl, rfl⟩ := enqueue_iff.mp h
  obtain ⟨last, heq⟩ := beforePush_eq p b now delta o
  rw [heq]
  exact ⟨rfl, rfl⟩

theorem tag_enqueue (h : b.enqueue p m now delta o = some (m', b')) :
    m'.tag = (m.body, b.m_msg_counter + 1) ∧ b'.m_msg_counter = b.m_msg_counter + 1 := by
  obtain ⟨-, -, rfl, rfl⟩ := enqueue_iff.mp h
  obtain ⟨last, heq⟩ := beforePush_eq p b now delta o
  rw [heq, Message.tag, stamped_counter]
  exact ⟨rfl, rfl⟩

theorem le_time_enqueue (h : b.enqueue p m now delta o = some (m', b')) :
    now ≤ m'.m_LastEnqueueTime := by
  obtain ⟨-, -, rfl, -⟩ := enqueue_iff.mp h
  exact le_arrivalTime

theorem Wf.enqueue (h : Wf p now b) (he : b.enqueue p m now delta o = some (m', b')) :
    Wf p now b' := by
  have hc := contents_enqueue he
  obtain ⟨-, hfits, rfl, rfl⟩ := enqueue_iff.mp he
  have hcounter : (b.stamped p m now delta o).m_msg_counter = b.m_msg_counter + 1 := stamped_counter
  obtain ⟨last, heq⟩ := beforePush_eq p b now delta o
  rw [heq] at hfits hc ⊢
  rw [fits_iff (by exact h.stalled)] at hfits
  have hn := h.enqueued
  refine {
    sorted := h.sorted.orderedInsert _
    stalled := h.stalled
    due := h.due
    enqueued := max_le hn le_rfl
    popped := h.popped
    visible := fun hp => ?_
    room := hfits
    counters := (hc.map _).nodup_iff.mpr (List.nodup_cons.mpr ⟨fun hm => ?_, h.counters⟩)
    counted := fun c hm => ?_ }
  · have hv := h.visible hp
    rw [hc.length_eq, List.length_cons]
    simp only [push, max_eq_right hn, if_true]
    split_ifs at hv ⊢ <;> omega
  · have := h.counted _ hm
    omega
  · rcases List.mem_cons.mp (((hc.map _).mem_iff).mp hm) with rfl | hm
    · exact hcounter.le
    · exact (h.counted c hm).trans (Nat.le_succ _)

@[simp] theorem contents_countPop : (b.countPop now).contents = b.contents := by
  unfold MessageBuffer.countPop
  split_ifs <;> rfl

@[simp] theorem heap_countPop : (b.countPop now).m_prio_heap = b.m_prio_heap := by
  unfold MessageBuffer.countPop
  split_ifs <;> rfl

@[simp] theorem map_countPop : (b.countPop now).m_stall_msg_map = b.m_stall_msg_map := by
  unfold MessageBuffer.countPop
  split_ifs <;> rfl

theorem order_countPop :
    (b.countPop now).m_last_message_strict_fifo_bypassed = b.m_last_message_strict_fifo_bypassed ∧
      (b.countPop now).m_last_arrival_time = b.m_last_arrival_time ∧
      (b.countPop now).m_msg_counter = b.m_msg_counter := by
  unfold MessageBuffer.countPop
  split_ifs <;> exact ⟨rfl, rfl, rfl⟩

theorem counters_of_tags {l l' : List (Message μ)} (h : l.map Message.tag ~ l'.map Message.tag) :
    l.map Message.m_msg_counter ~ l'.map Message.m_msg_counter := by
  have h := h.map Prod.snd
  rwa [List.map_map, List.map_map] at h

theorem bodies_of_tags {l l' : List (Message μ)} (h : l.map Message.tag ~ l'.map Message.tag) :
    l.map Message.body ~ l'.map Message.body := by
  have h := h.map Prod.fst
  rwa [List.map_map, List.map_map] at h

/-- The message in front and the rest. -/
theorem contents_cons {rest : List (Message μ)} (h : b.m_prio_heap = m :: rest) :
    b.contents = m :: (rest ++ b.m_stall_msg_map.elems) := by
  rw [contents, h, List.cons_append]

theorem Wf.dequeue (h : Wf p now b) (hd : b.dequeue p now = some (m', b')) : Wf p now b' ∧
    ∀ {β : Type} (f : Message μ → β), (∀ m, f (m.delayed now) = f m) →
      b.contents.map f = f m' :: b'.contents.map f := by
  obtain ⟨-, m, rest, hrest, rfl, rfl⟩ := dequeue_iff.mp hd
  refine ⟨h.countPop.tail (heap_countPop.trans hrest), fun f hf => ?_⟩
  rw [contents_cons hrest, List.map_cons, hf]
  simp [contents]

theorem Wf.recycle (h : Wf p now b) {latency : ℕ} (hr : b.recycle p now latency = some (m', b')) :
    Wf p now b' ∧ b'.contents.map Message.tag ~ b.contents.map Message.tag := by
  obtain ⟨-, m, rest, hrest, rfl, rfl⟩ := recycle_iff.mp hr
  have ht : b.contents.map Message.tag ~ (({ m with m_LastEnqueueTime := now + latency } ::
      (rest ++ b.m_stall_msg_map.elems)).map Message.tag) := by
    rw [contents_cons hrest]
    rfl
  have ht := ht.trans (((List.perm_orderedInsert Message.le _ rest).append_right
    b.m_stall_msg_map.elems).map Message.tag).symm
  refine ⟨h.replace ?_ h.stalled h.due (counters_of_tags ht.symm), ht.symm⟩
  exact ((List.pairwise_cons.mp (hrest ▸ h.sorted)).2).orderedInsert _

theorem Wf.stallMessage (h : Wf p now b) {addr : Addr}
    (hs : b.stallMessage p addr now = some b') : Wf p now b' ∧
      ∀ {β : Type} (f : Message μ → β), (∀ m, f (m.delayed now) = f m) →
        b'.contents.map f ~ b.contents.map f := by
  obtain ⟨hready, m, rest, hrest, rfl⟩ := stallMessage_iff.mp hs
  obtain ⟨-, -, _, _, hrest', hdue⟩ := isReady_iff.mp hready
  obtain ⟨rfl, rfl⟩ := List.cons_eq_cons.mp (hrest.symm.trans hrest')
  have hel := b.m_stall_msg_map.elems_snoc addr (m.delayed now)
  have hf {β : Type} (f : Message μ → β) (hf : ∀ m, f (m.delayed now) = f m) :
      (rest ++ (b.m_stall_msg_map.set addr (b.m_stall_msg_map.queue addr ++
        [m.delayed now])).elems).map f ~ b.contents.map f := by
    rw [contents_cons hrest, List.map_cons, ← hf, ← List.map_cons]
    exact ((hel.append_left rest).trans List.perm_middle).map f
  refine ⟨h.countPop.replace (List.pairwise_cons.mp (hrest ▸ h.sorted)).2 ?_ ?_ ?_, hf⟩
  · rw [h.stalled, Lib.Table.total_eq, Lib.Table.total_eq, hel.length_eq, List.length_cons]
    rfl
  · intro x hx
    rcases List.mem_cons.mp (hel.mem_iff.mp hx) with rfl | hx
    · exact hdue
    · exact h.due x hx
  · rw [contents_countPop]
    exact hf _ fun _ => rfl

theorem Wf.reanalyzeMessages (h : Wf p now b) {addr : Addr} {lt : List (Message μ)}
    (hr : b.reanalyzeMessages addr now = some (lt, b')) :
    Wf p now b' ∧ b'.contents ~ b.contents := by
  obtain ⟨-, rfl, -, -, rfl⟩ := reanalyzeMessages_iff.mp hr
  have hel := b.m_stall_msg_map.elems_clear addr
  have hp : putBack b.m_prio_heap (b.m_stall_msg_map.queue addr) ++
      (b.m_stall_msg_map.set addr []).elems ~ b.contents := by
    refine ((putBack_perm _ _).append_right _).trans ?_
    rw [List.append_assoc]
    exact (List.perm_append_comm_assoc _ _ _).trans (hel.append_left _)
  refine ⟨h.replace (putBack_sorted h.sorted _) ?_ (fun x hx => h.due x ?_) (hp.map _), hp⟩
  · have hn := hel.length_eq
    rw [List.length_append, ← Lib.Table.total_eq, ← Lib.Table.total_eq] at hn
    rw [h.stalled, ← hn]
    push_cast
    omega
  · exact hel.mem_iff.mp (List.mem_append_right _ hx)

theorem Wf.delayHead (h : Wf p now b) (hd : b.delayHead p now delta o = some (m', b')) :
    Wf p now b' ∧ b'.contents.map Message.body ~ b.contents.map Message.body := by
  obtain ⟨m, rest, hrest, he⟩ := delayHead_iff.mp hd
  refine ⟨(h.tail hrest).enqueue he, ?_⟩
  rw [contents_cons hrest, List.map_cons, ← (body_enqueue he).1, ← List.map_cons]
  exact (contents_enqueue he).map _

/-! ### The order of an ordered buffer -/

/-- A message that comes after all the others is put at the end. -/
theorem orderedInsert_of_forall : ∀ {l : List (Message μ)}, (∀ x ∈ l, ¬ m.le x) →
    l.orderedInsert Message.le m = l ++ [m]
  | [], _ => rfl
  | x :: l, h => by
      rw [List.orderedInsert_of_not_le _ _ (h x (by simp)),
        orderedInsert_of_forall fun y hy => h y (by simp [hy]), List.cons_append]

/-- In an ordered buffer, the later number has the later time. -/
structure Ordered (b : MessageBuffer μ) : Prop where
  bypassed : b.m_last_message_strict_fifo_bypassed = false
  last : ∀ k ∈ b.contents.map Message.key, k.1 ≤ b.m_last_arrival_time
  mono : ∀ k ∈ b.contents.map Message.key, ∀ k' ∈ b.contents.map Message.key,
    k.2 < k'.2 → k.1 ≤ k'.1

theorem Ordered.init : Ordered ({} : MessageBuffer μ) := by
  constructor <;> simp [contents, Lib.Table.elems, Lib.Table.empty]

theorem Ordered.congr (h : b.Ordered)
    (hb : b'.m_last_message_strict_fifo_bypassed = b.m_last_message_strict_fifo_bypassed)
    (hl : b'.m_last_arrival_time = b.m_last_arrival_time)
    (hk : b'.contents.map Message.key ⊆ b.contents.map Message.key) : b'.Ordered where
  bypassed := hb.trans h.bypassed
  last := fun k hm => hl ▸ h.last k (hk hm)
  mono := fun k hm k' hm' => h.mono k (hk hm) k' (hk hm')

/-- The message arrives after all that is in the buffer. -/
theorem Ordered.enqueue (hw : Wf p now b) (h : b.Ordered) (hor : p.ordered = true)
    (hwarm : o.ruby_warmup = false) (hby : o.bypassStrictFIFO = false)
    (he : b.enqueue p m now delta o = some (m', b')) :
    b'.Ordered ∧ ∀ x ∈ b.contents, ¬ m'.le x := by
  have hc := contents_enqueue he
  obtain ⟨ha, -, rfl, rfl⟩ := enqueue_iff.mp he
  have hcounter : (b.stamped p m now delta o).m_msg_counter = b.m_msg_counter + 1 := stamped_counter
  have hcount : ∀ x ∈ b.contents, x.m_msg_counter ≤ b.m_msg_counter :=
    fun x hx => hw.counted _ (List.mem_map_of_mem hx)
  -- the last arrival before, and the arrival of the message
  have hlast : b.m_last_arrival_time ≤ (b.stamped p m now delta o).m_LastEnqueueTime := by
    have ho := ha.order
    have hraise : b.m_last_arrival_time ≤
        ((b.countEnqueue now).raiseLastArrival p now o).m_last_arrival_time := by
      unfold raiseLastArrival countEnqueue
      split_ifs <;> simp_all <;> omega
    have hflag : ((b.countEnqueue now).raiseLastArrival p now o).m_last_message_strict_fifo_bypassed
        = false := by
      unfold raiseLastArrival countEnqueue
      split_ifs <;> exact h.bypassed
    rw [inOrder, hor, hby, hflag] at ho
    exact hraise.trans (of_decide_eq_true ho)
  have hle : ∀ x ∈ b.contents,
      x.m_LastEnqueueTime ≤ (b.stamped p m now delta o).m_LastEnqueueTime := fun x hx =>
    (h.last _ (List.mem_map_of_mem hx)).trans hlast
  refine ⟨⟨hby, fun k hk => ?_, fun k hk k' hk' hlt => ?_⟩, fun x hx hmx => ?_⟩
  · have htime :
        ((b.beforePush p now delta o).push (b.stamped p m now delta o)).m_last_arrival_time =
        (b.stamped p m now delta o).m_LastEnqueueTime := by
      simp [push, beforePush, stamped, hwarm]
    obtain ⟨x, hx, rfl⟩ := List.mem_map.mp hk
    rw [htime]
    rcases List.mem_cons.mp (hc.mem_iff.mp hx) with rfl | hx
    · exact le_rfl
    · exact hle x hx
  · obtain ⟨x, hx, rfl⟩ := List.mem_map.mp hk
    obtain ⟨y, hy, rfl⟩ := List.mem_map.mp hk'
    rcases List.mem_cons.mp (hc.mem_iff.mp hx) with rfl | hx <;>
      rcases List.mem_cons.mp (hc.mem_iff.mp hy) with rfl | hy
    · exact le_rfl
    · have := hcount y hy
      simp only [Message.key, hcounter] at hlt
      omega
    · exact hle x hx
    · exact h.mono _ (List.mem_map_of_mem hx) _ (List.mem_map_of_mem hy) hlt
  · have := hle x hx
    have := hcount x hx
    rw [Message.le_iff, hcounter] at hmx
    omega

/-- The message in front has the least number in the heap. -/
theorem Ordered.front (hw : Wf p now b) (h : b.Ordered) {rest : List (Message μ)}
    (hrest : b.m_prio_heap = m :: rest) (hm : m' ∈ b.m_prio_heap) :
    m.m_msg_counter ≤ m'.m_msg_counter := by
  rw [hrest] at hm
  rcases List.mem_cons.mp hm with rfl | hm'
  · exact le_rfl
  · have hsorted := hw.sorted
    rw [hrest, List.pairwise_cons] at hsorted
    have hle := Message.le_iff.mp (hsorted.1 m' hm')
    by_contra hlt
    have hmem : ∀ x ∈ m :: rest, x.key ∈ b.contents.map Message.key := fun x hx =>
      List.mem_map_of_mem (List.mem_append_left _ (hrest ▸ hx))
    have := h.mono _ (hmem m' hm) _ (hmem m (by simp)) (by simpa [Message.key] using hlt)
    simp only [Message.key] at this
    omega

/-! ### Room -/

/-- What a message needs to be in order, whatever is enqueued with the same latency before it. -/
theorem accepts_of (hl : delta ≠ 0 ∨ p.allow_zero_latency = true) (hd : m.m_LastEnqueueTime ≤ now)
    (ho : p.ordered = true → randomizes p o = false → b.m_last_arrival_time ≤ now + delta) :
    b.Accepts p m now delta o := by
  have hcount : (b.countEnqueue now).m_last_arrival_time = b.m_last_arrival_time := by
    unfold countEnqueue
    split_ifs <;> rfl
  refine ⟨hl, ?_, hd⟩
  unfold inOrder arrivalTime
  cases hor : p.ordered with
  | false => rfl
  | true =>
      cases hr : randomizes p o with
      | true => simp
      | false => simp [raiseLastArrival, hr, hcount, ho hor hr]

theorem visibleSize_enqueue (h : Wf p now b) (he : b.enqueue p m now delta o = some (m', b')) :
    b'.visibleSize now = b.visibleSize now + 1 := by
  obtain ⟨-, -, rfl, rfl⟩ := enqueue_iff.mp he
  obtain ⟨last, heq⟩ := beforePush_eq p b now delta o
  rw [heq]
  have hn := h.enqueued
  simp only [visibleSize, push, max_eq_right hn, List.orderedInsert_length, lt_irrefl, if_false]
  split_ifs <;> omega

theorem Wf.enqueue_of_room (h : Wf p now b) (ha : b.Accepts p m now delta o)
    (hroom : p.buffer_size = 0 ∨ b.contents.length + 1 ≤ p.buffer_size) :
    ∃ m' b', b.enqueue p m now delta o = some (m', b') := by
  refine ⟨_, _, enqueue_iff.mpr ⟨ha, ?_, rfl, rfl⟩⟩
  obtain ⟨last, heq⟩ := beforePush_eq p b now delta o
  rw [heq, fits_iff (by exact h.stalled), contents_push.length_eq, List.length_cons]
  exact hroom

/-- A free slot is room. -/
theorem Wf.enqueue_of_slot (h : Wf p now b) (ha : b.Accepts p m now delta o)
    (hn : b.areNSlotsAvailable p 1 now = true) :
    ∃ m' b', b.enqueue p m now delta o = some (m', b') := by
  simp only [areNSlotsAvailable, Bool.or_eq_true, beq_iff_eq, decide_eq_true_eq] at hn
  exact h.enqueue_of_room ha (hn.imp_right (Nat.succ_le_succ h.le_visibleSize).trans)

theorem areNSlotsAvailable_enqueue (h : Wf p now b)
    (he : b.enqueue p m now delta o = some (m', b')) {n : ℕ}
    (hn : b.areNSlotsAvailable p (n + 1) now = true) : b'.areNSlotsAvailable p n now = true := by
  simp only [areNSlotsAvailable, Bool.or_eq_true, beq_iff_eq, decide_eq_true_eq] at hn ⊢
  rw [visibleSize_enqueue h he]
  omega

/-- Messages enqueued one after another. -/
def enqueueAll (p : Params) (now delta : ℕ) (o : Options) :
    List (Message μ) → MessageBuffer μ → Option (MessageBuffer μ)
  | [], b => some b
  | m :: ms, b => (b.enqueue p m now delta o).bind fun x => enqueueAll p now delta o ms x.2

theorem last_enqueue (hr : randomizes p o = false) (hl : b.m_last_arrival_time ≤ now + delta)
    (he : b.enqueue p m now delta o = some (m', b')) : b'.m_last_arrival_time ≤ now + delta := by
  obtain ⟨-, -, rfl, rfl⟩ := enqueue_iff.mp he
  have hcount : (b.countEnqueue now).m_last_arrival_time = b.m_last_arrival_time := by
    unfold countEnqueue
    split_ifs <;> rfl
  simp only [push, beforePush, arrivalTime, raiseLastArrival, hr]
  split_ifs <;> simp_all

/-- The messages for which there are slots are enqueued. -/
theorem Wf.enqueueAll (hl : delta ≠ 0 ∨ p.allow_zero_latency = true) {ms : List (Message μ)} :
    ∀ {b : MessageBuffer μ}, Wf p now b → (∀ m ∈ ms, m.m_LastEnqueueTime ≤ now) →
      (p.ordered = true → randomizes p o = false → b.m_last_arrival_time ≤ now + delta) →
      b.areNSlotsAvailable p ms.length now = true →
      ∃ b', b.enqueueAll p now delta o ms = some b' ∧ Wf p now b' := by
  induction ms with
  | nil => exact fun h _ _ _ => ⟨_, rfl, h⟩
  | cons m ms ih =>
      intro b h hd ho hn
      rw [List.length_cons] at hn
      have hone : b.areNSlotsAvailable p 1 now = true := by
        simp only [areNSlotsAvailable, Bool.or_eq_true, beq_iff_eq, decide_eq_true_eq] at hn ⊢
        omega
      obtain ⟨m', b₁, he⟩ := h.enqueue_of_slot (accepts_of hl (hd m (by simp)) ho) hone
      obtain ⟨b', hb', hw⟩ := ih (h.enqueue he) (fun x hx => hd x (by simp [hx]))
        (fun hor hr => last_enqueue hr (ho hor hr) he) (areNSlotsAvailable_enqueue h he hn)
      exact ⟨b', by rw [MessageBuffer.enqueueAll, he]; exact hb', hw⟩

end MessageBuffer

end SttRuby.Network
