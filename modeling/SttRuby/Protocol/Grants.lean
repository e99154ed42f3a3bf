import SttRuby.Protocol.AckCount
import SttRuby.Protocol.Coherence

/-!
# Protocol — Grants

The acknowledgements of a store to a shared line, over whole runs.  The L2 that serves it in `SS`
answers the requestor and has every other sharer invalidate its copy and acknowledge it to the
requestor; the messages may come in any order, with any steps of the others in between.

`Sys.heard` is the response an L1 takes in a step.  While the requestor `i` waits for the messages
of `O`, the L2 is granting the line to it, and its counter agrees with `O` (`Sys.Awaits`).  A step
either is no news to `i` or takes a sender out of `O`, and it triggers an event of all acks exactly
if none is left (`Sys.Awaits.step`).  `acks_counted` follows a run from the request on.

It has to be excluded that a write-back was taken for the answer to a recall earlier in the run:
then the L2 may have forgotten a sharer, and answers its upgrade with data (`upgrade_stuck`).
-/

namespace SttRuby.Protocol

section

variable {n B : ℕ}

/-- A response that an L1 takes, the state it finds and the event it triggers there. -/
structure Heard (n B : ℕ) where
  msg : ResponseMsg n B
  state : L1Cache.State
  event : L1Cache.Event

/-- The response that `i` takes in a step. -/
def Sys.heard (i : Fin n) (g : Sys n B) : Label n B → List (Heard n B)
  | .l1 k (.response m _) | .l1 k (.responseFromL1 _ m _) =>
      if k = i then
        ((L1Cache.responseEvent (g.node i).line m).map fun e =>
          ⟨m, (g.node i).line.getState, e⟩).toList
      else []
  | _ => []

/-- Who sends a message to the requestor, if the other sharers are `S`. -/
def answerers (S : Finset (Fin n)) : Finset (MachineID n) :=
  insert .L2Cache (S.image .L1Cache)

/-- The message of `a` is on its way to `i`, or `a` is still asked for it. -/
def Sys.OnTheWay (i : Fin n) (g : Sys n B) : MachineID n → Prop
  | .L2Cache => ∃ r, r ∈ (g.node i).responseToL1Cache
  | .L1Cache j => request .INV (.L1Cache i) ∈ (g.node j).requestToL1Cache ∨
      (i, invAck j) ∈ (g.node j).responseBetweenL1s
  | .Directory | .DMA _ => False

/-- The events of the responses `xs`: all acks with the last of `S.card + 1` and with no other. -/
structure Tally (S : Finset (Fin n)) (xs : List (Heard n B)) : Prop where
  last : ∀ k x, xs[k]? = some x → (x.event.allAcks = true ↔ k = S.card)
  data : ∀ x ∈ xs, x.state = .IM → x.event ≠ .Ack_all ∧ x.event ≠ .LLSC_Ack_all
  once : (xs.map (·.msg.Sender)).Nodup
  senders : ∀ x ∈ xs, x.msg.Sender ∈ answerers S

/-- `i` has taken the responses `xs` to its request.  Until it has taken all, the others are on
their way, and `i` takes any that arrives. -/
structure Counted (i : Fin n) (S : Finset (Fin n)) (xs : List (Heard n B)) (g : Sys n B) : Prop
    extends Tally S xs where
  rest : xs.length ≤ S.card → ∀ a ∈ answerers S, (∃ x ∈ xs, x.msg.Sender = a) ∨ g.OnTheWay i a
  takes : xs.length ≤ S.card →
    (∀ m ∈ (g.node i).responseToL1Cache, ∀ w, (step g (.l1 i (.response m w))).isSome = true) ∧
    ∀ j m, (i, m) ∈ (g.node j).responseBetweenL1s →
      ∀ w, (step g (.l1 i (.responseFromL1 j m w))).isSome = true

/-! ### The requestor -/

/-- The kinds of a requestor with `d` acks to come, and whether the answer of the L2 is due. -/
def Kind.awaits (d : ℕ) (due : Bool) : Kind → Bool
  | .granted d' | .upgraded d' => due && d' == d
  | .collecting d' => !due && d' == d
  | _ => false

theorem Kind.acquiring_of_awaits {k : Kind} {d : ℕ} {due : Bool} (h : k.awaits d due = true) :
    k.acquiring d = true := by
  cases k <;> cases due <;> simp_all [Kind.awaits, Kind.acquiring]

/-- The node of a requestor. -/
inductive Expects (i : Fin n) (d : ℕ) (due : Bool) : Node n B → Prop where
  | mk {k : Kind} {l : L1Cache.Line B} {r : Option (ResponseMsg n B)} (hk : k.awaits d due = true)
      (h : k.Is (fun _ => True) True i l none r) :
      Expects i d due (.of l none r none none none none)

namespace Expects

variable {i j : Fin n} {d : ℕ} {due : Bool} {nd : Node n B} {m : ResponseMsg n B}
  {w : DataBlock B → DataBlock B} {e : L1Cache.Event} {c : L1Cache.Ctx n B}

/-- The answer of the L2 has been sent. -/
theorem of_ok (h : (Role.acquirer d).Ok (fun _ => True) True i nd)
    (hm : m ∈ nd.responseToL1Cache) (ht : m.type = .DATA ∨ m.type = .ACK) :
    Expects i d true nd := by
  obtain ⟨hP, hk, h⟩ := h
  rename_i P k l sent due asked reply unblock peer
  obtain rfl : due = some m := Option.mem_toList.mp hm
  cases hP with
  | acquiring =>
      cases h with
      | granted hle x t b hb hc =>
          exact ⟨by simpa [Kind.awaits, Kind.acquiring] using hk, .granted hle x t b hb hc⟩
      | upgraded hle x hx t hc =>
          exact ⟨by simpa [Kind.awaits, Kind.acquiring] using hk, .upgraded hle x hx t hc⟩
      | grantedE => simp at ht
      | _ => cases hk
  | acquired => cases h <;> cases hk

/-- A requestor is asked for nothing, and has not unblocked the L2. -/
theorem quiet (h : Expects i d due nd) : nd.requestToL1Cache = [] ∧ nd.unblockToL2Cache = [] := by
  obtain ⟨-, -⟩ := h
  exact ⟨rfl, rfl⟩

theorem due_mem (h : Expects i d true nd) : ∃ m, m ∈ nd.responseToL1Cache := by
  obtain ⟨hk, h⟩ := h
  cases h with
  | granted | upgraded => exact ⟨_, List.mem_singleton_self _⟩
  | collecting => simp [Kind.awaits] at hk
  | _ => cases hk

/-- The core waits. -/
theorem core (h : Expects i d due nd) (he : e ∈ coreEvents)
    (hc : L1Cache.doTransition i { store := w } e nd.line = some c) :
    Expects i d due (nd.afterL1 c) := by
  obtain ⟨hk, h⟩ := h
  rename_i k l r
  have hs : l.getState ∈ L1Cache.State.waiting := by
    cases h <;> first | cases hk | simp [L1Cache.Line.getState, L1Cache.State.waiting]
  obtain rfl := L1Cache.core_waits hs he hc
  rw [Node.afterL1_quiet rfl rfl rfl]
  exact ⟨hk, h.restated hs⟩

/-- The answer of the L2. -/
theorem answer (h : Expects i d due nd) (hm : m ∈ nd.responseToL1Cache)
    (he : L1Cache.responseEvent nd.line m = some e)
    (hc : L1Cache.doTransition i { response := some m, store := w } e nd.line = some c) :
    due = true ∧ m.Sender = .L2Cache ∧ (e.allAcks = true ↔ d = 0) ∧
      (nd.line.getState = .IM → e ≠ .Ack_all ∧ e ≠ .LLSC_Ack_all) ∧
      (d ≠ 0 → Expects i d false ((nd.takeResponse c.popped m).afterL1 c)) := by
  obtain ⟨hk, h⟩ := h
  rename_i k l r
  obtain rfl : r = some m := Option.mem_toList.mp hm
  obtain ⟨ll, hev, -⟩ := h.answer_event
  obtain rfl : k.answer ll = e := Option.some.inj (hev.symm.trans he)
  obtain ⟨-, hpop, hq, hr, hu, -, hkind⟩ :=
    h.answered (v := m.DataBlk) Values.any.store he hc
  have hrest (hne : k.filled ≠ .owned) (hf : k.filled.awaits d false = true) :
      Expects i d false (((Node.of l none (some m) none none none none).takeResponse c.popped
        m).afterL1 c) := by
    rw [if_neg hne] at hu
    rw [hpop, Node.takeResponse_of, Node.afterL1_quiet hq hr hu]
    exact ⟨hf, hkind True fun _ _ => trivial⟩
  cases h with
  | @granted d' a =>
      obtain ⟨rfl, rfl⟩ : due = true ∧ d' = d := by simpa [Kind.awaits] using hk
      refine ⟨rfl, rfl, ?_, fun _ => ?_, fun hd => hrest ?_ ?_⟩
      · by_cases hd : d' = 0 <;> cases ll <;> simp [Kind.answer, hd, L1Cache.Event.allAcks]
      · by_cases hd : d' = 0 <;> cases ll <;> simp [Kind.answer, hd]
      · simp [Kind.filled, hd]
      · simp [Kind.filled, hd, Kind.awaits]
  | @upgraded d' a =>
      obtain ⟨rfl, rfl⟩ : due = true ∧ d' = d := by simpa [Kind.awaits] using hk
      refine ⟨rfl, rfl, ?_, fun hIM => ?_, fun hd => hrest ?_ ?_⟩
      · by_cases hd : d' = 0 <;> cases ll <;> simp [Kind.answer, hd, L1Cache.Event.allAcks]
      · cases hIM
      · simp [Kind.filled, hd]
      · simp [Kind.filled, hd, Kind.awaits]
  | _ => cases hk

/-- An ack of another L1. -/
theorem ack (h : Expects i (d + 1) due nd)
    (he : L1Cache.responseEvent nd.line (invAck j : ResponseMsg n B) = some e)
    (hc : L1Cache.doTransition i { response := some (invAck j), store := w } e nd.line = some c) :
    (e.allAcks = true ↔ d = 0 ∧ due = false) ∧
      (nd.line.getState = .IM → e ≠ .Ack_all ∧ e ≠ .LLSC_Ack_all) ∧
      (¬ (d = 0 ∧ due = false) → Expects i d due (nd.afterL1 c)) := by
  obtain ⟨hk, h⟩ := h
  rename_i k l r
  have hacq := Kind.acquiring_of_awaits hk
  obtain ⟨ll, hev, -⟩ := h.ack_event (j := j) hacq
  obtain rfl : k.ackEvent ll = e := Option.some.inj (hev.symm.trans he)
  obtain ⟨-, hq, hr, hu, -, hkind⟩ :=
    h.ack (v := fun _ => 0) Values.any.store hacq he hc
  have hrest (hne : k.acked ≠ .owned) (hf : k.acked.awaits d due = true) :
      Expects i d due ((Node.of l none r none none none none).afterL1 c) := by
    rw [if_neg hne] at hu
    rw [Node.afterL1_quiet hq hr hu]
    exact ⟨hf, hkind True fun _ _ => trivial⟩
  cases h with
  | @granted d' a | @upgraded d' a =>
      obtain ⟨rfl, rfl⟩ : due = true ∧ d' = d + 1 := by simpa [Kind.awaits] using hk
      exact ⟨by simp [Kind.ackEvent, L1Cache.Event.allAcks], fun _ => by simp [Kind.ackEvent],
        fun _ => hrest (by simp [Kind.acked]) (by simp [Kind.acked, Kind.awaits])⟩
  | @collecting d' hd =>
      obtain ⟨rfl, rfl⟩ : due = false ∧ d' = d + 1 := by simpa [Kind.awaits] using hk
      refine ⟨?_, fun hIM => ?_, fun hne => hrest ?_ ?_⟩
      · cases d <;> cases ll <;> simp [Kind.ackEvent, L1Cache.Event.allAcks]
      · cases hIM
      · simpa [Kind.acked] using hne
      · have hd : d ≠ 0 := by simpa using hne
        simp [Kind.acked, hd, Kind.awaits]
  | _ => cases hk

/-! A requestor takes the answer, and it takes an ack. -/

theorem takes_answer (h : Expects i d due nd) (hm : m ∈ nd.responseToL1Cache)
    (w : DataBlock B → DataBlock B) : ∃ e c, L1Cache.responseEvent nd.line m = some e ∧
      L1Cache.doTransition i { response := some m, store := w } e nd.line = some c := by
  obtain ⟨hk, h⟩ := h
  rename_i k l r
  obtain rfl : r = some m := Option.mem_toList.mp hm
  obtain ⟨ll, hev, -⟩ := h.answer_event
  cases h with
  | @granted d' | @upgraded d' => cases d' <;> cases ll <;> exact ⟨_, _, hev, rfl⟩
  | _ => cases hk

theorem takes_ack (h : Expects i (d + 1) due nd) (j : Fin n) (w : DataBlock B → DataBlock B) :
    ∃ e c, L1Cache.responseEvent nd.line (invAck j : ResponseMsg n B) = some e ∧
      L1Cache.doTransition i { response := some (invAck j), store := w } e nd.line = some c := by
  obtain ⟨hk, h⟩ := h
  rename_i k l r
  obtain ⟨ll, hev, -⟩ := h.ack_event (j := j) (Kind.acquiring_of_awaits hk)
  cases h with
  | @granted d' | @upgraded d' => exact ⟨_, _, hev, rfl⟩
  | @collecting d' hd =>
      obtain rfl : d' = d + 1 := by simpa [Kind.awaits] using (Bool.and_eq_true_iff.mp hk).2
      cases d <;> cases ll <;> exact ⟨_, _, hev, rfl⟩
  | _ => cases hk

end Expects

/-! ### What the requestor waits for -/

/-- The senders that `i` waits for, with the acks of `D` to come. -/
def waitedFor (D : Finset (Fin n)) (due : Bool) : Finset (MachineID n) :=
  if due then answerers D else D.image .L1Cache

theorem mem_waitedFor {D : Finset (Fin n)} {due : Bool} {a : MachineID n} :
    a ∈ waitedFor D due ↔ due = true ∧ a = .L2Cache ∨ ∃ j ∈ D, .L1Cache j = a := by
  cases due <;> simp [waitedFor, answerers]

theorem waitedFor_erase_L2Cache (D : Finset (Fin n)) :
    (waitedFor D true).erase .L2Cache = waitedFor D false := by
  ext a
  simp only [Finset.mem_erase, mem_waitedFor]
  grind

theorem waitedFor_erase_L1Cache (D : Finset (Fin n)) (due : Bool) (j : Fin n) :
    (waitedFor D due).erase (.L1Cache j) = waitedFor (D.erase j) due := by
  ext a
  simp only [Finset.mem_erase, mem_waitedFor]
  grind

theorem waitedFor_eq_empty {D : Finset (Fin n)} {due : Bool} :
    waitedFor D due = ∅ ↔ D.card = 0 ∧ due = false := by
  cases due <;> simp [waitedFor, answerers]

/-- `i` waits for the messages of `O`: the L2 grants it the line, and its counter agrees. -/
inductive Sys.Awaits (i : Fin n) (O : Finset (MachineID n)) (g : Sys n B) : Prop where
  | mk {D : Finset (Fin n)} {due : Bool} (hO : O = waitedFor D due)
      (phase : g.Agree .any (.granting i D)) (requestor : Expects i D.card due (g.node i))

/-- What `i` hears while it waits for the messages of `O`. -/
structure Heard.News (O : Finset (MachineID n)) (x : Heard n B) : Prop where
  sender : x.msg.Sender ∈ O
  last : x.event.allAcks = true ↔ O.erase x.msg.Sender = ∅
  data : x.state = .IM → x.event ≠ .Ack_all ∧ x.event ≠ .LLSC_Ack_all

/-- The requestor does not wait for itself. -/
theorem Phase.L2.notMem {ok clean : DataBlock B → Prop} {d : DataBlock B} {i : Fin n}
    {D : Finset (Fin n)} {l : L2Cache.Line n B} (h : (Phase.granting i D).L2 ok clean d l) :
    i ∉ D := by
  cases h with
  | ssMB hr | mtMB hr => exact hr

/-- A node that is to invalidate its copy is asked to, or has acknowledged it. -/
theorem Role.Ok.invalidating {ok : DataBlock B → Prop} {cur : Prop} {i r : Fin n} {nd : Node n B}
    (h : (Role.invalidatee (.L1Cache r)).Ok ok cur i nd) :
    request .INV (.L1Cache r) ∈ nd.requestToL1Cache ∨ (r, invAck i) ∈ nd.responseBetweenL1s := by
  obtain ⟨hP, -, -⟩ := h
  cases hP with
  | invPending => exact .inl (List.mem_singleton_self _)
  | invAcked => exact .inr (List.mem_singleton_self _)

namespace Sys.Awaits

variable {i j : Fin n} {O : Finset (MachineID n)} {g g' : Sys n B}

/-- While it grants the line, the L2 waits for the unblock message. -/
theorem l2_waits {ok clean : DataBlock B → Prop} {d : DataBlock B} {D : Finset (Fin n)}
    {l : L2Cache.Line n B} {inp : L2Cache.In n B} {e : L2Cache.Event} {c : L2Cache.Ctx n B}
    (hl : (Phase.granting i D).L2 ok clean d l) (he : e ≠ .Exclusive_Unblock)
    (hc : L2Cache.doTransition inp e l = some c) : c = { line := l } := by
  cases hl <;> cases e <;>
    first | exact absurd rfl he | (cases hc; done) | exact (Option.some.inj hc).symm

/-- The event of an unblock message has no other cause. -/
theorem unblock_of_event {l : L2Label n B} {inp : L2Cache.In n B}
    (he : g.l2Event l = some (inp, .Exclusive_Unblock)) :
    ∃ k, ∃ m ∈ (g.node k).unblockToL2Cache, l = .unblock k m := by
  cases l with
  | unblock k m =>
      simp only [Sys.l2Event, Option.ite_none_right_eq_some] at he
      exact ⟨k, m, he.1, rfl⟩
  | request k m =>
      simp only [Sys.l2Event, Option.ite_none_right_eq_some, Option.map_eq_some_iff] at he
      obtain ⟨-, e, he, heq⟩ := he
      obtain ⟨a, -, he⟩ := Option.bind_eq_some_iff.mp he
      have hty (b : Bool) : L2Cache.L1Cache_request_type_to_event m.type b ≠
          some .Exclusive_Unblock := by
        cases m.type <;> cases b <;> decide
      grind [L2Cache.replacementEvent]
  | response k m =>
      simp only [Sys.l2Event, Option.ite_none_right_eq_some, Option.map_eq_some_iff] at he
      grind [L2Cache.responseEvent]
  | responseFromDir m =>
      simp only [Sys.l2Event, Option.ite_none_right_eq_some, Option.map_eq_some_iff] at he
      grind [L2Cache.responseEvent]
  | replacement =>
      simp only [Sys.l2Event, Option.ite_none_left_eq_some, Option.map_eq_some_iff] at he
      grind [L2Cache.replacementEvent]

theorem l2Step (h : g.Awaits i O) {l : L2Label n B} (hs : g.l2Step l = some g') : g' = g := by
  obtain ⟨inp, e, c, he, hc, rfl⟩ := Sys.l2Step_some hs
  obtain ⟨-, ⟨d, hl2, hn⟩, hr⟩ := h
  have hne : e ≠ .Exclusive_Unblock := by
    rintro rfl
    obtain ⟨k, m, hm, rfl⟩ := unblock_of_event he
    -- the one who unblocks the L2 is the requestor
    rcases (hn k).unblocked hm with ⟨hρ, -⟩ | ⟨hρ, -⟩
    · cases Phase.of_acquirer hρ
      rw [hr.quiet.2] at hm
      cases hm
    · obtain ⟨x, wb, hφ, -⟩ := Phase.of_reader hρ
      cases hφ
  obtain rfl := l2_waits hl2 hne hc
  cases l <;>
    simp [Sys.l2Dequeue, dequeue, Sys.setNode, Sys.afterL2, Node.receive, Home.receive]

/-- A response that another L1 has sent is an ack for the requestor. -/
theorem peer {D : Finset (Fin n)} {d : DataBlock B} {m : ResponseMsg n B} {k : Fin n}
    (hn : ∀ i', ((Phase.granting i D).role i').Ok (Values.any.ok g.latest)
      (Values.any.ok g.latest d) i' (g.node i'))
    (hm : (j, m) ∈ (g.node k).responseBetweenL1s) :
    j = i ∧ k ∈ D ∧ k ≠ i ∧ m = invAck k ∧ Role.bystander.Ok (Values.any.ok g.latest)
      (Values.any.ok g.latest d) k ((g.node k).takePeer true (j, m)) := by
  rcases (hn k).sent hm with ⟨hρ, rfl, hk⟩ | ⟨-, ⟨hρ, -⟩ | ⟨wb, hρ, -⟩⟩
  · obtain ⟨D', hφ, hD, hne⟩ := Phase.of_invalidatee hρ
    cases hφ
    exact ⟨rfl, hD, hne, rfl, hk⟩
  · cases Phase.of_handing hρ
  · obtain ⟨u, hφ⟩ := Phase.of_sharing hρ
    cases hφ

/-- What another node does on its own is no news to `i`. -/
theorem node_of_ne {l : L1Label n B} {c : L1Cache.Ctx n B} (hl : ∀ k m w, l ≠ .responseFromL1 k m w)
    (hj : i ≠ j) : ((g.l1Dequeue j c.popped l).afterL1 j c).node i = g.node i := by
  cases l with
  | responseFromL1 k m w => exact absurd rfl (hl k m w)
  | _ => simp [Sys.l1Dequeue, Sys.afterL1, Sys.setNode, Function.update_of_ne hj]

theorem heard_of_ne {l : L1Label n B} (hj : j ≠ i) : g.heard i (.l1 j l) = [] := by
  cases l <;> simp [Sys.heard, hj]

/-- What the requestor does on its own. -/
theorem own (h : g.Awaits i O) {l : L1Label n B} {inp : L1Cache.In n B} {e : L1Cache.Event}
    {c : L1Cache.Ctx n B} (hl : ∀ k m w, l ≠ .responseFromL1 k m w)
    (he : g.l1Event i l = some (inp, e))
    (hc : L1Cache.doTransition i inp e (g.node i).line = some c) :
    g.heard i (.l1 i l) = [] ∧ ((g.l1Dequeue i c.popped l).afterL1 i c).Awaits i O ∨
      ∃ x, g.heard i (.l1 i l) = [x] ∧ x.News O ∧ (O.erase x.msg.Sender ≠ ∅ →
        ((g.l1Dequeue i c.popped l).afterL1 i c).Awaits i (O.erase x.msg.Sender)) := by
  obtain ⟨rfl, hφ, hr⟩ := h
  rename_i D due
  have hφ' := (hφ.l1Own hl (.inr fun _ _ => trivial) he hc).1
  have hcore {w : DataBlock B → DataBlock B} {e : L1Cache.Event} (he : e ∈ coreEvents)
      (hc : L1Cache.doTransition i { store := w } e (g.node i).line = some c)
      (h : (g.afterL1 i c).Agree .any (.granting i D)) :
      (g.afterL1 i c).Awaits i (waitedFor D due) := by
    refine ⟨rfl, h, ?_⟩
    simpa [Sys.afterL1, Sys.setNode] using hr.core he hc
  cases l with
  | responseFromL1 k m w => exact absurd rfl (hl k m w)
  | cpu t w =>
      cases he
      exact .inl ⟨rfl, hcore (L1Cache.mandatoryEvent_mem _ t) hc hφ'⟩
  | replacement =>
      simp only [Sys.l1Event, Option.ite_none_right_eq_some] at he
      obtain ⟨-, heq⟩ := he
      cases heq
      exact .inl ⟨rfl, hcore (by decide) hc hφ'⟩
  | llscTimeout =>
      simp only [Sys.l1Event, Option.ite_none_right_eq_some] at he
      obtain ⟨-, heq⟩ := he
      cases heq
      exact .inl ⟨rfl, hcore (by decide) hc hφ'⟩
  | request m =>
      simp [Sys.l1Event, hr.quiet.1] at he
  | response m w =>
      simp only [Sys.l1Event, Option.ite_none_right_eq_some, Option.map_eq_some_iff] at he
      obtain ⟨hm, e, he, heq⟩ := he
      cases heq
      obtain ⟨rfl, hsend, hall, hdata, hrest⟩ := hr.answer hm he hc
      have herase : (waitedFor D true).erase m.Sender = waitedFor D false := by
        rw [hsend, waitedFor_erase_L2Cache]
      refine .inr ⟨⟨m, (g.node i).line.getState, e⟩, by simp [Sys.heard, he], ⟨?_, ?_, hdata⟩,
        fun hne => ⟨herase, hφ', ?_⟩⟩
      · exact mem_waitedFor.mpr (.inl ⟨rfl, hsend⟩)
      · rw [herase, waitedFor_eq_empty]
        simpa using hall
      · rw [herase, ne_eq, waitedFor_eq_empty] at hne
        simpa [Sys.l1Dequeue, Sys.afterL1, Sys.setNode, Node.takeResponse] using
          hrest (by simpa using hne)

/-- An ack that another L1 has sent. -/
theorem ack (h : g.Awaits i O) {k : Fin n} {m : ResponseMsg n B} {w : DataBlock B → DataBlock B}
    {inp : L1Cache.In n B} {e : L1Cache.Event} {c : L1Cache.Ctx n B}
    (he : g.l1Event j (.responseFromL1 k m w) = some (inp, e))
    (hc : L1Cache.doTransition j inp e (g.node j).line = some c) :
    ∃ x, g.heard i (.l1 j (.responseFromL1 k m w)) = [x] ∧ x.News O ∧ (O.erase x.msg.Sender ≠ ∅ →
      ((g.l1Dequeue j c.popped (.responseFromL1 k m w)).afterL1 j c).Awaits i
        (O.erase x.msg.Sender)) := by
  simp only [Sys.l1Event, Option.ite_none_right_eq_some, Option.map_eq_some_iff] at he
  obtain ⟨hm, e, he, heq⟩ := he
  cases heq
  obtain ⟨rfl, ⟨d, hl2, hn⟩, hr⟩ := h
  rename_i D due
  obtain ⟨rfl, hD, hk, rfl, hbyst⟩ := peer hn hm
  have hcard : D.card = (D.erase k).card + 1 := (Finset.card_erase_add_one hD).symm
  rw [hcard] at hr
  obtain ⟨hall, hdata, hrest⟩ := hr.ack he hc
  have herase : (waitedFor D due).erase (invAck k : ResponseMsg n B).Sender =
      waitedFor (D.erase k) due := waitedFor_erase_L1Cache D due k
  refine ⟨⟨invAck k, (g.node j).line.getState, e⟩, by simp [Sys.heard, he], ⟨?_, ?_, hdata⟩,
    fun hne => ⟨herase, (Sys.Agree.ack hl2 hn hbyst hD hk he hc).1, ?_⟩⟩
  · exact mem_waitedFor.mpr (.inr ⟨k, hD, rfl⟩)
  · rw [herase, waitedFor_eq_empty]
    exact hall
  · rw [herase, ne_eq, waitedFor_eq_empty] at hne
    simpa [Sys.l1Dequeue, Sys.afterL1, Sys.setNode, Function.update_of_ne hk.symm] using hrest hne

/-- **A step of the system** is no news to the requestor, or one of the messages it waits for. -/
theorem step (h : g.Awaits i O) {l : Label n B} (hs : step g l = some g') :
    g.heard i l = [] ∧ g'.Awaits i O ∨
      ∃ x, g.heard i l = [x] ∧ x.News O ∧
        (O.erase x.msg.Sender ≠ ∅ → g'.Awaits i (O.erase x.msg.Sender)) := by
  cases l with
  | home l =>
      obtain ⟨h', -, rfl⟩ := Option.map_eq_some_iff.mp hs
      obtain ⟨hO, hφ, hr⟩ := h
      exact .inl ⟨rfl, hO, hφ, hr⟩
  | l2 l =>
      obtain rfl := h.l2Step hs
      exact .inl ⟨rfl, h⟩
  | l1 j l =>
      obtain ⟨inp, e, c, he, hc, rfl⟩ := Sys.l1Step_some hs
      by_cases hl : ∃ k m w, l = .responseFromL1 k m w
      · obtain ⟨k, m, w, rfl⟩ := hl
        exact .inr (h.ack he hc)
      · have hl' : ∀ k m w, l ≠ .responseFromL1 k m w := fun k m w h => hl ⟨k, m, w, h⟩
        by_cases hj : j = i
        · subst hj
          exact h.own hl' he hc
        · obtain ⟨hO, hφ, hr⟩ := h
          refine .inl ⟨heard_of_ne hj, hO, (hφ.l1Own hl' (.inr fun _ _ => trivial) he hc).1, ?_⟩
          rwa [node_of_ne hl' (Ne.symm hj)]

/-- Whoever is waited for has its message on its way, or is asked for it. -/
theorem onTheWay (h : g.Awaits i O) {a : MachineID n} (ha : a ∈ O) : g.OnTheWay i a := by
  obtain ⟨rfl, ⟨d, hl2, hn⟩, hr⟩ := h
  rename_i D due
  rcases mem_waitedFor.mp ha with ⟨rfl, rfl⟩ | ⟨j, hD, rfl⟩
  · exact hr.due_mem
  · have hj := hn j
    have hne : j ≠ i := by
      rintro rfl
      exact hl2.notMem hD
    simp only [Phase.role, if_neg hne, if_pos hD] at hj
    exact hj.invalidating

/-- The requestor takes every response that is on its way to it. -/
theorem takes (h : g.Awaits i O) (w : DataBlock B → DataBlock B) :
    (∀ m ∈ (g.node i).responseToL1Cache,
      (Protocol.step g (.l1 i (.response m w))).isSome = true) ∧
    ∀ j m, (i, m) ∈ (g.node j).responseBetweenL1s →
      (Protocol.step g (.l1 i (.responseFromL1 j m w))).isSome = true := by
  obtain ⟨-, ⟨d, hl2, hn⟩, hr⟩ := h
  rename_i D due
  constructor
  · intro m hm
    obtain ⟨e, c, he, hc⟩ := hr.takes_answer hm w
    simp [Protocol.step, Sys.l1Step, Sys.l1Event, hm, he, hc]
  · intro j m hm
    obtain ⟨-, hD, -, rfl, -⟩ := peer hn hm
    rw [← Finset.card_erase_add_one hD] at hr
    obtain ⟨e, c, he, hc⟩ := hr.takes_ack j w
    simp [Protocol.step, Sys.l1Step, Sys.l1Event, hm, he, hc]

/-- The request is served. -/
theorem of_request (hg : g.Coherent .any) {e : L2Cache.Entry n B} {m : RequestMsg n B}
    (hSS : g.l2.getState = .SS) (he : g.l2.entry = some e)
    (hm : m.type = .GETX ∨ m.type = .UPGRADE)
    (hs : Protocol.step g (.l2 (.request i m)) = some g') :
    g'.Awaits i (answerers (e.Sharers.erase i)) := by
  obtain ⟨φ, d, hl2, hn⟩ := hg
  have hφ : φ = .shared e.Sharers := by
    generalize g.l2 = l at hl2 hSS he
    cases hl2 <;> first | (cases hSS; done) | (cases he; rfl)
  obtain ⟨inp, ev, c, hev, hc, rfl⟩ := Sys.l2Step_some hs
  simp only [Sys.l2Event, Option.ite_none_right_eq_some, Option.map_eq_some_iff] at hev
  obtain ⟨hq, ev, hev, heq⟩ := hev
  cases heq
  obtain ⟨hreq, -⟩ := (hn i).requested hq
  have hserved : ((g.setNode i ((g.node i).takeRequest c.popped m)).afterL2 c).Agree .any
      (.granting i (e.Sharers.erase i)) ∧
      ∃ r ∈ c.responseToL1 i, r.type = .DATA ∨ r.type = .ACK := by
    obtain ⟨ty, r, dq, bq, o, ln⟩ := m
    obtain rfl : r = .L1Cache i := hreq
    rcases hl2.write_event rfl hm hev with hx | ⟨ht, hx⟩
    · obtain ⟨h, -, r, hr, ht⟩ := Sys.Agree.getX hl2 hn hq hev hc hφ hm hx
      exact ⟨h, r, hr, .inl ht⟩
    · obtain ⟨h, -, r, hr, ht⟩ := Sys.Agree.upgrade hl2 hn hq hev hc hφ ht hx
      exact ⟨h, r, hr, .inr ht⟩
  obtain ⟨hagree, r, hr, ht⟩ := hserved
  refine ⟨(if_pos rfl).symm, hagree, ?_⟩
  obtain ⟨d', -, hn'⟩ := hagree
  have hi := hn' i
  simp only [Phase.role, if_true] at hi
  exact .of_ok hi (m := r) (by simp [Sys.afterL2, Node.receive, hr]) ht

end Sys.Awaits

/-! ### Runs -/

theorem card_answerers (S : Finset (Fin n)) : (answerers S).card = S.card + 1 := by
  have hinj : Function.Injective (MachineID.L1Cache : Fin n → MachineID n) := by
    rintro a b ⟨⟩
    rfl
  rw [answerers, Finset.card_insert_of_notMem (by simp), Finset.card_image_of_injective S hinj]

/-- Those whose message is not among `xs`. -/
def remaining (S : Finset (Fin n)) (xs : List (Heard n B)) : Finset (MachineID n) :=
  answerers S \ (xs.map (·.msg.Sender)).toFinset

theorem remaining_snoc (S : Finset (Fin n)) (xs : List (Heard n B)) (x : Heard n B) :
    remaining S (xs ++ [x]) = (remaining S xs).erase x.msg.Sender := by
  ext a
  simp [remaining]
  tauto

namespace Tally

variable {S : Finset (Fin n)} {xs : List (Heard n B)} {x : Heard n B}

theorem nil : Tally S ([] : List (Heard n B)) := ⟨by simp, by simp, by simp, by simp⟩

theorem card_remaining (h : Tally S xs) : (remaining S xs).card + xs.length = S.card + 1 := by
  have hsub : (xs.map (·.msg.Sender)).toFinset ⊆ answerers S := by
    intro a ha
    obtain ⟨x, hx, rfl⟩ := List.mem_map.mp (List.mem_toFinset.mp ha)
    exact h.senders x hx
  have hcard := Finset.card_sdiff_add_card_eq_card hsub
  rwa [List.toFinset_card_of_nodup h.once, List.length_map, card_answerers] at hcard

/-- One more response. -/
theorem hear (h : Tally S xs) (hx : x.News (remaining S xs)) : Tally S (xs ++ [x]) := by
  have hcard := h.card_remaining
  have herase := Finset.card_erase_add_one hx.sender
  obtain ⟨hans, hnew⟩ := Finset.mem_sdiff.mp hx.sender
  constructor
  · intro k y hy
    rcases lt_or_ge k xs.length with hk | hk
    · rw [List.getElem?_append_left hk] at hy
      exact h.last k y hy
    · obtain rfl : k = xs.length := by
        have := (List.getElem?_eq_some_iff.mp hy).1
        simp at this
        omega
      obtain rfl : x = y := by simpa using hy
      rw [hx.last, ← Finset.card_eq_zero]
      omega
  · intro y hy
    rcases List.mem_append.mp hy with hy | hy
    · exact h.data y hy
    · obtain rfl := List.mem_singleton.mp hy
      exact hx.data
  · rw [List.map_append, List.nodup_append]
    refine ⟨h.once, by simp, ?_⟩
    rintro a ha b hb rfl
    obtain rfl : a = x.msg.Sender := by simpa using hb
    exact hnew (List.mem_toFinset.mpr ha)
  · intro y hy
    rcases List.mem_append.mp hy with hy | hy
    · exact h.senders y hy
    · obtain rfl := List.mem_singleton.mp hy
      exact hans

end Tally

section

variable {i : Fin n} {S : Finset (Fin n)} {g g₁ g₂ : Sys n B} {ls : List (Label n B)}

/-- The first responses of a run, and what is waited for after them. -/
theorem Sys.Awaits.run (h : g₁.Awaits i (answerers S))
    (hrun : (protocol n B).Run (fun _ _ => True) g₁ ls g₂) :
    Tally S (((protocol n B).observe (Sys.heard i) g₁ ls).take (S.card + 1)) ∧
      (((protocol n B).observe (Sys.heard i) g₁ ls).length ≤ S.card →
        g₂.Awaits i (remaining S ((protocol n B).observe (Sys.heard i) g₁ ls))) := by
  induction hrun with
  | refl => exact ⟨.nil, fun _ => by simpa [remaining, Lib.Machine.observe] using h⟩
  | @snoc ls g g' a hrun _ hs ih =>
      rw [hrun.observe_snoc]
      generalize (protocol n B).observe (Sys.heard i) g₁ ls = xs at ih
      obtain ⟨ht, hw⟩ := ih
      rcases le_or_gt xs.length S.card with hlen | hlen
      · rw [List.take_of_length_le (by omega)] at ht
        rcases (hw hlen).step hs with ⟨hx, hg⟩ | ⟨x, hx, hnews, hg⟩
        · rw [hx, List.append_nil, List.take_of_length_le (by omega)]
          exact ⟨ht, fun _ => hg⟩
        · have ht' := ht.hear hnews
          rw [hx, List.take_of_length_le (by simp; omega), remaining_snoc]
          refine ⟨ht', fun hle => hg fun hempty => ?_⟩
          have hcard := ht'.card_remaining
          rw [remaining_snoc, hempty, Finset.card_empty] at hcard
          omega
      · -- all have come
        rw [List.take_append_of_le_length (by omega)]
        refine ⟨ht, fun hle => ?_⟩
        rw [List.length_append] at hle
        omega

/-- **Acks are counted in any order.**  The L2 serves in `SS` a GETX or an UPGRADE of `i`, and `S`
are the other sharers.  Along every run from there, with any steps of any controller in between, the
first `S.card + 1` responses that `i` takes are the one of the L2 and one ack of each of `S`, in
whatever order; the last of them and no other triggers an event of all acks, and no `Ack_all` is
triggered in `IM`.  Until all have been taken, each of the others is on its way or its sender is
still asked for it, and `i` takes any that arrives. -/
theorem acks_counted {e : L2Cache.Entry n B} {m : RequestMsg n B}
    (hg : (protocol n B).Reach (fun g l => recallsAlone g l = true) g)
    (hSS : g.l2.getState = .SS) (he : g.l2.entry = some e) (hS : e.Sharers.erase i = S)
    (hm : m.type = .GETX ∨ m.type = .UPGRADE)
    (hs : step g (.l2 (.request i m)) = some g₁)
    (hrun : (protocol n B).Run (fun _ _ => True) g₁ ls g₂) :
    Counted i S (((protocol n B).observe (Sys.heard i) g₁ ls).take (S.card + 1)) g₂ := by
  have hw := Sys.Awaits.of_request (coherent_of_reach hg).1 hSS he hm hs
  rw [hS] at hw
  obtain ⟨ht, hw⟩ := hw.run hrun
  generalize (protocol n B).observe (Sys.heard i) g₁ ls = xs at ht hw
  have hlen (h : (xs.take (S.card + 1)).length ≤ S.card) :
      xs.take (S.card + 1) = xs ∧ g₂.Awaits i (remaining S xs) := by
    rw [List.length_take] at h
    exact ⟨List.take_of_length_le (by omega), hw (by omega)⟩
  refine ⟨ht, fun h a ha => ?_, fun h => ?_⟩
  · obtain ⟨heq, hw⟩ := hlen h
    rw [heq]
    by_cases hx : ∃ x ∈ xs, x.msg.Sender = a
    · exact .inl hx
    · refine .inr (hw.onTheWay (Finset.mem_sdiff.mpr ⟨ha, fun hmem => hx ?_⟩))
      simpa using hmem
  · obtain ⟨-, hw⟩ := hlen h
    exact ⟨fun m hm w => (hw.takes w).1 m hm, fun j m hm w => (hw.takes w).2 j m hm⟩

end

/-- L1s 1 and 2 fetch the line, and 0 is about to store to it. -/
def sharedByTwo : List (Label 3 1) :=
  List.flatten [
    [.l1 1 (.cpu .IFETCH id), .l2 (.request 1 (request .GET_INSTR (.L1Cache 1)))],
    fetchZeros .GET_INSTR,
    [.l1 1 (.response (response .DATA .L2Cache) id),
      .l1 2 (.cpu .IFETCH id), .l2 (.request 2 (request .GET_INSTR (.L1Cache 2))),
      .l1 2 (.response (response .DATA .L2Cache) id),
      .l1 0 (.cpu .ST id)]]

/-- The data comes between the acks, and the L2 looks at another request meanwhile. -/
def dataBetweenAcks : List (Label 3 1) :=
  [.l1 2 (.request (request .INV (.L1Cache 0))),
    .l1 0 (.responseFromL1 2 (invAck 2) id),
    .l1 2 (.cpu .IFETCH id), .l2 (.request 2 (request .GET_INSTR (.L1Cache 2))),
    .l1 0 (.response { type := .DATA, Sender := .L2Cache, AckCount := -2 } id),
    .l1 1 (.request (request .INV (.L1Cache 0))),
    .l1 0 (.responseFromL1 1 (invAck 1) id)]

theorem acks_counted_dataBetweenAcks :
    ∃ g g₁ g₂ : Sys 3 1, (protocol 3 1).Reach (fun g l => recallsAlone g l = true) g ∧
      (protocol 3 1).Run (fun _ _ => True) g₁ dataBetweenAcks g₂ ∧
      (((protocol 3 1).observe (Sys.heard 0) g₁ dataBetweenAcks).map (·.event)) =
        [.Ack, .Data, .Ack_all] ∧
      Counted 0 {1, 2} (((protocol 3 1).observe (Sys.heard 0) g₁ dataBetweenAcks).take 3) g₂ := by
  have h : (((protocol 3 1).trace (fun g l => recallsAlone g l = true) (start fun _ => 0)
      sharedByTwo).any fun g => decide (g.l2.getState = .SS ∧
        g.l2.entry.any (fun e => decide (e.Sharers.erase 0 = {1, 2})) = true ∧
        (step g (.l2 (.request 0 (request .GETX (.L1Cache 0))))).any (fun g₁ =>
          decide (((protocol 3 1).observe (Sys.heard 0) g₁ dataBetweenAcks).map (·.event) =
            [.Ack, .Data, .Ack_all]) &&
          ((protocol 3 1).trace (fun _ _ => True) g₁ dataBetweenAcks).isSome) = true)) = true := by
    decide +kernel
  obtain ⟨g, hreach, hSS, he, hs⟩ := Lib.Machine.trace_reaches (started _) h
  obtain ⟨e, he, hS⟩ := (Option.any_eq_true _ _).mp he
  obtain ⟨g₁, hs, h₁⟩ := (Option.any_eq_true _ _).mp hs
  obtain ⟨hx, h₂⟩ := Bool.and_eq_true_iff.mp h₁
  obtain ⟨g₂, h₂⟩ := Option.isSome_iff_exists.mp h₂
  have hrun := Lib.Machine.trace_run h₂
  exact ⟨g, g₁, g₂, hreach, hrun, of_decide_eq_true hx,
    acks_counted hreach hSS he (of_decide_eq_true hS) (.inl rfl) hs hrun⟩

/-- The L2 takes the write-back of L1 0 for the answer to its recall, and the INV of the recall
stays on its way.  Both L1s read the line again and the L2 recalls it; L1 0 answers both INVs, and
the L2 takes its two acks for one of each.  L1 1 still has its copy and upgrades it, when the L2
has fetched the line for L1 0 only. -/
def forgottenSharer : List (Label 2 1) :=
  List.flatten [
    [.l1 0 (.cpu .LD id), .l2 (.request 0 (request .GETS (.L1Cache 0)))],
    fetchZeros .GETS,
    [.l1 0 (.response (response .DATA_EXCLUSIVE .L2Cache) id),
      .l2 (.unblock 0 (response .EXCLUSIVE_UNBLOCK (.L1Cache 0))),
      .l1 0 .replacement,
      .l2 .replacement,
      .l2 (.request 0 (request .PUTX (.L1Cache 0))),
      .l1 0 (.response (response .WB_ACK .L2Cache) id)],
    writeZeros,
    [.l1 0 (.cpu .IFETCH id), .l2 (.request 0 (request .GET_INSTR (.L1Cache 0)))],
    fetchZeros .GET_INSTR,
    [.l1 0 (.response (response .DATA .L2Cache) id),
      .l1 1 (.cpu .LD id), .l2 (.request 1 (request .GETS (.L1Cache 1))),
      .l1 1 (.response (response .DATA .L2Cache) id),
      .l2 .replacement,
      .l1 0 (.request (request .INV .L2Cache)), .l1 0 (.request (request .INV .L2Cache)),
      .l2 (.response 0 (invAck 0)), .l2 (.response 0 (invAck 0)),
      .home (.response (response .ACK .L2Cache)),
      .l2 (.responseFromDir (response .MEMORY_ACK .Directory)),
      .l1 1 (.cpu .ST id),
      .l1 0 (.cpu .IFETCH id), .l2 (.request 0 (request .GET_INSTR (.L1Cache 0)))],
    fetchZeros .GET_INSTR,
    [.l1 0 (.response (response .DATA .L2Cache) id)]]

/-- L1 0 acknowledges the upgrade of L1 1. -/
def upgradeAcked : List (Label 2 1) :=
  [.l1 0 (.request (request .INV (.L1Cache 1))), .l1 1 (.responseFromL1 0 (invAck 0) id)]

/-- A response of the L2 is on its way to L1 1, which has no transition for it. -/
def Sys.stuck (g : Sys 2 1) : Bool :=
  (g.node 1).responseToL1Cache.any fun r => (step g (.l1 1 (.response r id))).isNone

theorem not_counted_of_stuck {g : Sys 2 1} (h : g.stuck = true) {S : Finset (Fin 2)}
    {xs : List (Heard 2 1)} (hlen : xs.length ≤ S.card) : ¬ Counted 1 S xs g := by
  intro hc
  obtain ⟨r, hr, hnone⟩ := List.any_eq_true.mp h
  have hsome := (hc.takes hlen).1 r hr id
  rw [Option.isNone_iff_eq_none.mp hnone] at hsome
  cases hsome

/-- The L2 answers the upgrade of a sharer it has forgotten with data, which the requestor takes
neither before the ack nor after it: no event of all acks comes. -/
theorem upgrade_stuck : ∃ (g g₁ g₂ : Sys 2 1) (e : L2Cache.Entry 2 1),
    (protocol 2 1).Reach (fun _ _ => True) g ∧ g.l2.getState = .SS ∧ g.l2.entry = some e ∧
    e.Sharers.erase 1 = {0} ∧
    step g (.l2 (.request 1 (request .UPGRADE (.L1Cache 1)))) = some g₁ ∧
    (protocol 2 1).Run (fun _ _ => True) g₁ upgradeAcked g₂ ∧
    ((protocol 2 1).observe (Sys.heard 1) g₁ upgradeAcked).map (·.event) = [.Ack] ∧
    ¬ Counted 1 {0} [] g₁ ∧
    ¬ Counted 1 {0} ((protocol 2 1).observe (Sys.heard 1) g₁ upgradeAcked) g₂ := by
  have h : (((protocol 2 1).trace (fun _ _ => True) (start fun _ => 0) forgottenSharer).any
      fun g => decide (g.l2.getState = .SS ∧
        g.l2.entry.any (fun e => decide (e.Sharers.erase 1 = {0})) = true ∧
        (step g (.l2 (.request 1 (request .UPGRADE (.L1Cache 1))))).any (fun g₁ => g₁.stuck &&
          decide (((protocol 2 1).observe (Sys.heard 1) g₁ upgradeAcked).map (·.event) = [.Ack]) &&
          ((protocol 2 1).trace (fun _ _ => True) g₁ upgradeAcked).any fun g₂ => g₂.stuck) =
            true)) = true := by
    decide +kernel
  obtain ⟨g, hreach, hSS, he, hs⟩ := Lib.Machine.trace_reaches (started _) h
  obtain ⟨e, he, hS⟩ := (Option.any_eq_true _ _).mp he
  obtain ⟨g₁, hs, h₁⟩ := (Option.any_eq_true _ _).mp hs
  simp only [Bool.and_eq_true, decide_eq_true_eq] at h₁
  obtain ⟨⟨hstuck₁, hx⟩, h₂⟩ := h₁
  obtain ⟨g₂, h₂, hstuck₂⟩ := (Option.any_eq_true _ _).mp h₂
  have hlen := congrArg List.length hx
  rw [List.length_map] at hlen
  exact ⟨g, g₁, g₂, e, hreach, hSS, he, of_decide_eq_true hS, hs, Lib.Machine.trace_run h₂, hx,
    not_counted_of_stuck hstuck₁ (Nat.zero_le _), not_counted_of_stuck hstuck₂ hlen.le⟩

end

end SttRuby.Protocol
