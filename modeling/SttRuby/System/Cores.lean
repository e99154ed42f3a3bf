import SttRuby.Protocol.DataValue
import SttRuby.System.Sequencer

/-!
# System — Cores

The protocol for one line with the sequencers of its L1s.  What the core of an L1 has under way is
in its sequencer's queue for the line (`Core`); the first packet is a request in the mandatory
queue, or the L1 is at work on it.  A transition of the L1 calls the sequencer back in the actions
that serve a request, and what a store does to the block is what the callback makes of the packets
that wait.  `history` are the packets answered so far, in the order in which they were.

A locked read-modify-write blocks the L1 on the line: while it does, only its own mandatory queue is
served, and the line is no victim.

The L1 and its sequencer agree on what the L1 is at work on (`Matches`), so that

* no assertion of the sequencer fails in a callback (`callbacks_taken`);
* the packets of each core are answered in order, each once (`cores_in_order`);
* a run of the cores is a run of the protocol (`sys_reach`), and what holds along the latter's runs
  holds along theirs.
-/

namespace SttRuby.System

open Protocol

/-! ### A core and its L1 -/

/-- What a sequencer and its controller have of the line. -/
structure Core (B : ℕ) where
  m_RequestTable : List (SequencerRequest B) := []
  mandatoryQueue : List RubyRequestType := []
  monitor : Bool := false
  blocked : Bool := false

/-- The request types that the in_port of the mandatory queue knows. -/
def RubyRequestType.toL1 : RubyRequestType → Option L1Cache.RubyRequestType
  | LD => some .LD
  | ST => some .ST
  | IFETCH => some .IFETCH
  | Load_Linked => some .Load_Linked
  | _ => none

/-- What an L1 acts on. -/
inductive Stimulus (n B : ℕ) where
  | cpu (t : RubyRequestType)
  | replacement
  | llscTimeout
  | request (m : RequestMsg n B)
  | response (m : ResponseMsg n B)
  | responseFromL1 (j : Fin n) (m : ResponseMsg n B)

section

variable {n B : ℕ}

/-- The label of the protocol, where a store does `w`. -/
def Stimulus.label (w : DataBlock B → DataBlock B) : Stimulus n B → Option (L1Label n B)
  | .cpu t => t.toL1.map fun t => .cpu t w
  | .replacement => some .replacement
  | .llscTimeout => some .llscTimeout
  | .request m => some (.request m)
  | .response m => some (.response m w)
  | .responseFromL1 j m => some (.responseFromL1 j m w)

namespace Core

variable (k : Core B)

/-- The callback on the entry of the line, and the packets it answers. -/
def callback (a : Answer) (e : L1Cache.Entry B) : Option (Core B × List (Hit B)) :=
  if k.m_RequestTable.isEmpty then none
  else
    (a.loop (!e.icache) true k.m_RequestTable
      ⟨e.DataBlk, k.monitor && !e.icache, k.blocked, [], []⟩).map fun (rest, c) =>
        (⟨rest, k.mandatoryQueue ++ c.issued, c.monitor, c.blocked⟩, c.hits)

/-- What `writeCallback` does to the block. -/
def store (entry : Option (L1Cache.Entry B)) (d : DataBlock B) : DataBlock B :=
  match entry with
  | some e =>
      ((writeLoop false (!e.icache) true k.m_RequestTable
        ⟨d, k.monitor && !e.icache, k.blocked, [], []⟩).map fun r => r.2.data).getD d
  | none => d

/-- An entry that becomes invalid loses its lock. -/
def changePermission (next : L1Cache.State) : Core B :=
  match next with
  | .NP | .I => { k with monitor := false }
  | _ => k

/-- `makeRequest`, as far as the line is concerned; the packet is accepted unless the line is
blocked. -/
def makeRequest (pkt : Packet B) (primary_type secondary_type : RubyRequestType) : Core B :=
  { k with
    m_RequestTable := k.m_RequestTable ++ [⟨pkt, primary_type, secondary_type⟩]
    mandatoryQueue := k.mandatoryQueue ++
      if k.m_RequestTable.isEmpty then [secondary_type] else [] }

/-- The in_ports that are served: while the line is blocked, the mandatory queue and the timer
only. -/
def allows (k : Core B) : Stimulus n B → Bool
  | .cpu t => t ∈ k.mandatoryQueue
  | .llscTimeout => true
  | .replacement | .request _ | .response _ | .responseFromL1 _ _ => !k.blocked

end Core

/-- A transition of an L1 under way, with its sequencer. -/
structure Turn (n B : ℕ) where
  ctx : L1Cache.Ctx n B
  core : Core B
  hits : List (Hit B) := []

/-- The next state is set, and the permission of the entry with it. -/
def Turn.setState (next : L1Cache.State) (x : Turn n B) : Turn n B :=
  ⟨{ x.ctx with line := x.ctx.line.setState next }, x.core.changePermission next, x.hits⟩

/-- The callback that an action makes. -/
def callbackOf : L1Cache.Action → Option Answer
  | .h_load_hit | .h_ifetch_hit | .hx_load_hit => some .read
  | .hh_store_hit | .hhx_store_hit => some (.write false)
  | _ => none

/-- What an action that calls no one back does to the sequencer's side: `evictionCallback`, the loss
of the entry with its lock, and the mandatory queue, from which `t` was served. -/
def Core.act (send_evictions : Bool) (t : Option RubyRequestType) (a : L1Cache.Action)
    (k : Core B) : Core B :=
  match a with
  | .forward_eviction_to_cpu => { k with monitor := k.monitor && !send_evictions }
  | .ff_deallocateL1CacheBlock => { k with monitor := false }
  | .k_popMandatoryQueue =>
      { k with mandatoryQueue := t.elim k.mandatoryQueue k.mandatoryQueue.erase }
  | _ => k

/-- An action of the L1 with its callback. -/
def Turn.exec (send_evictions : Bool) (me : Fin n) (inp : L1Cache.In n B)
    (t : Option RubyRequestType) (a : L1Cache.Action) (x : Turn n B) : Option (Turn n B) :=
  (L1Cache.exec me inp a x.ctx).bind fun ctx =>
    match callbackOf a with
    | some ans => x.ctx.line.entry.bind fun e => (x.core.callback ans e).map fun (core, hits) =>
        ⟨ctx, core, x.hits ++ hits⟩
    | none => some ⟨ctx, x.core.act send_evictions t a, x.hits⟩

/-! ### The system -/

/-- The protocol's state, the cores, what they have accepted, and what has been answered. -/
structure Cores (n B : ℕ) where
  sys : Sys n B
  core : Fin n → Core B := fun _ => {}
  accepted : Fin n → List (Packet B) := fun _ => []
  history : List (Fin n × Hit B) := []

inductive CoresLabel (n B : ℕ) where
  | makeRequest (i : Fin n) (pkt : Packet B)
  | l1 (i : Fin n) (s : Stimulus n B)
  | l2 (l : L2Label n B)
  | home (l : HomeLabel n B)

/-- The message of the mandatory queue that a stimulus is. -/
def Stimulus.type : Stimulus n B → Option RubyRequestType
  | .cpu t => some t
  | _ => none

namespace Cores

variable (g : Cores n B)

/-- What a store of the core `i` would do to the block. -/
def store (i : Fin n) : DataBlock B → DataBlock B := (g.core i).store (g.sys.node i).line.entry

/-- A packet other than a command of hardware transactional memory, for which the in_port of the
mandatory queue has no event. -/
def makeRequest (i : Fin n) (pkt : Packet B) : Option (Cores n B) :=
  if pkt.isMemMgmt then none
  else pkt.requestTypes.map fun (primary_type, secondary_type) =>
    if (g.core i).blocked && primary_type ≠ .Locked_RMW_Write then g
    else
      { g with
        core := Function.update g.core i ((g.core i).makeRequest pkt primary_type secondary_type)
        accepted := Function.update g.accepted i (g.accepted i ++ [pkt]) }

/-- The actions of an event, with their callbacks. -/
def doTransition (send_evictions : Bool) (i : Fin n) (inp : L1Cache.In n B)
    (t : Option RubyRequestType) (e : L1Cache.Event) (line : L1Cache.Line B) (k : Core B) :
    Option (Turn n B) :=
  (L1Cache.transition line.getState e).bind fun (next, actions) =>
    (Lib.perform (Turn.exec send_evictions i inp t) actions ⟨{ line := line }, k, []⟩).map
      (Turn.setState next)

/-- The state after a transition of the L1 `i`. -/
def after (i : Fin n) (l : L1Label n B) (x : Turn n B) : Cores n B :=
  { g with
    sys := (g.sys.l1Dequeue i x.ctx.popped l).afterL1 i x.ctx
    core := Function.update g.core i x.core
    history := g.history ++ x.hits.map fun h => (i, h) }

def l1Step (send_evictions : Bool) (i : Fin n) (s : Stimulus n B) : Option (Cores n B) :=
  if (g.core i).allows s then
    (s.label (g.store i)).bind fun l =>
      (g.sys.l1Event i l).bind fun (inp, e) =>
        (doTransition send_evictions i inp s.type e (g.sys.node i).line (g.core i)).map
          (g.after i l)
  else none

def step (send_evictions : Bool) : CoresLabel n B → Option (Cores n B)
  | .makeRequest i pkt => g.makeRequest i pkt
  | .l1 i s => g.l1Step send_evictions i s
  | .l2 l => (g.sys.l2Step l).map fun sys => { g with sys := sys }
  | .home l => (g.sys.home.step l).map fun h => { g with sys := { g.sys with home := h } }

/-- The step of the protocol that a step of the cores makes, if it makes one. -/
def label : CoresLabel n B → Option (Protocol.Label n B)
  | .makeRequest _ _ => none
  | .l1 i s => (s.label (g.store i)).map (.l1 i)
  | .l2 l => some (.l2 l)
  | .home l => some (.home l)

end Cores

/-- The cores, the caches and the memory of one line. -/
def cores (n B : ℕ) (send_evictions : Bool) : Lib.Machine (Cores n B) (CoresLabel n B) where
  start g := ∃ memory, g = { sys := start memory }
  step g := g.step send_evictions

theorem cores_start (send_evictions : Bool) (memory : DataBlock B) :
    (cores n B send_evictions).start { sys := start memory } := ⟨memory, rfl⟩

/-- A condition on the steps of the protocol, as one on those of the cores. -/
def along (G : Sys n B → Protocol.Label n B → Bool) (g : Cores n B) (l : CoresLabel n B) : Prop :=
  ∀ pl ∈ g.label l, G g.sys pl = true

instance (G : Sys n B → Protocol.Label n B → Bool) (g : Cores n B) (l : CoresLabel n B) :
    Decidable (along G g l) := by
  unfold along
  infer_instance

/-! ### Runs of the cores are runs of the protocol -/

variable {g g' : Cores n B} {se : Bool}

theorem Turn.exec_ctx {i : Fin n} {inp : L1Cache.In n B} {t : Option RubyRequestType}
    {a : L1Cache.Action} {x x' : Turn n B} (h : Turn.exec se i inp t a x = some x') :
    L1Cache.exec i inp a x.ctx = some x'.ctx := by
  obtain ⟨ctx, hc, h⟩ := Option.bind_eq_some_iff.mp h
  cases ha : callbackOf a with
  | none =>
      rw [ha] at h
      cases h
      exact hc
  | some ans =>
      rw [ha] at h
      obtain ⟨e, -, h⟩ := Option.bind_eq_some_iff.mp h
      obtain ⟨r, -, rfl⟩ := Option.map_eq_some_iff.mp h
      exact hc

/-- The L1 does what it does in the protocol. -/
theorem Cores.doTransition_ctx {i : Fin n} {inp : L1Cache.In n B} {t : Option RubyRequestType}
    {e : L1Cache.Event} {line : L1Cache.Line B} {k : Core B} {x : Turn n B}
    (h : Cores.doTransition se i inp t e line k = some x) :
    L1Cache.doTransition i inp e line = some x.ctx := by
  obtain ⟨⟨next, actions⟩, htr, h⟩ := Option.bind_eq_some_iff.mp h
  obtain ⟨y, hy, rfl⟩ := Option.map_eq_some_iff.mp h
  refine Option.bind_eq_some_iff.mpr ⟨(next, actions), htr, ?_⟩
  exact Option.map_eq_some_iff.mpr
    ⟨y.ctx, Lib.perform_map (f := Turn.ctx) (fun _ _ _ => Turn.exec_ctx) hy, rfl⟩

theorem Cores.l1Step_some {i : Fin n} {s : Stimulus n B} (h : g.l1Step se i s = some g') :
    ∃ l inp e x, (g.core i).allows s = true ∧ s.label (g.store i) = some l ∧
      g.sys.l1Event i l = some (inp, e) ∧
      Cores.doTransition se i inp s.type e (g.sys.node i).line (g.core i) = some x ∧
      g' = g.after i l x := by
  simp only [Cores.l1Step, Option.ite_none_right_eq_some, Option.bind_eq_some_iff,
    Option.map_eq_some_iff] at h
  obtain ⟨ha, l, hl, ⟨inp, e⟩, he, x, hx, rfl⟩ := h
  exact ⟨l, inp, e, x, ha, hl, he, hx, rfl⟩

/-- A packet is refused, or goes to the end of its core's queue. -/
theorem Cores.makeRequest_cases {i : Fin n} {pkt : Packet B} (h : g.makeRequest i pkt = some g') :
    g' = g ∨ ∃ p t, pkt.requestTypes = some (p, t) ∧
      ¬ ((g.core i).blocked && p ≠ .Locked_RMW_Write) = true ∧
      g' = { g with
        core := Function.update g.core i ((g.core i).makeRequest pkt p t)
        accepted := Function.update g.accepted i (g.accepted i ++ [pkt]) } := by
  simp only [Cores.makeRequest, Option.ite_none_left_eq_some, Option.map_eq_some_iff] at h
  obtain ⟨-, ⟨p, t⟩, hp, rfl⟩ := h
  dsimp only
  split_ifs with hb
  · exact .inl rfl
  · exact .inr ⟨p, t, hp, hb, rfl⟩

/-- A step of the cores is a step of the protocol, or none of its. -/
theorem Cores.step_sys {l : CoresLabel n B} (h : g.step se l = some g') :
    (g.label l = none ∧ g'.sys = g.sys) ∨
      ∃ pl, g.label l = some pl ∧ Protocol.step g.sys pl = some g'.sys := by
  cases l with
  | makeRequest i pkt =>
      obtain rfl | ⟨p, t, -, -, rfl⟩ := Cores.makeRequest_cases h
      · exact .inl ⟨rfl, rfl⟩
      · exact .inl ⟨rfl, rfl⟩
  | l1 i s =>
      obtain ⟨l, inp, e, x, -, hl, he, hx, rfl⟩ := Cores.l1Step_some h
      refine .inr ⟨.l1 i l, by simp [Cores.label, hl], ?_⟩
      exact Option.bind_eq_some_iff.mpr ⟨(inp, e), he,
        Option.map_eq_some_iff.mpr ⟨x.ctx, Cores.doTransition_ctx hx, rfl⟩⟩
  | l2 l =>
      obtain ⟨sys, hs, rfl⟩ := Option.map_eq_some_iff.mp h
      exact .inr ⟨.l2 l, rfl, hs⟩
  | home l =>
      obtain ⟨h', hh, rfl⟩ := Option.map_eq_some_iff.mp h
      exact .inr ⟨.home l, rfl, Option.map_eq_some_iff.mpr ⟨h', hh, rfl⟩⟩

/-- **A run of the cores is a run of the protocol.** -/
theorem sys_reach {G : Sys n B → Protocol.Label n B → Bool}
    (h : (cores n B se).Reach (along G) g) :
    (protocol n B).Reach (fun g l => G g l = true) g.sys := by
  refine h.invariant (I := fun g => (protocol n B).Reach (fun g l => G g l = true) g.sys) ?_ ?_
  · rintro _ ⟨memory, rfl⟩
    exact .init (started memory)
  · intro g l g' hg hl hs
    obtain ⟨-, heq⟩ | ⟨pl, hpl, hstep⟩ := Cores.step_sys hs
    · exact heq ▸ hg
    · exact hg.snoc (hl pl hpl) hstep

/-! ### Actions without a callback -/

section

variable {i : Fin n} {inp : L1Cache.In n B} {t : Option RubyRequestType} {as : List L1Cache.Action}
  {x x' : Turn n B}

/-- Without a callback the sequencer's side is what the actions make of it one by one. -/
theorem perform_quiet (hq : ∀ a ∈ as, callbackOf a = none) :
    Lib.perform (Turn.exec se i inp t) as x =
      (Lib.perform (L1Cache.exec i inp) as x.ctx).map fun ctx =>
        ⟨ctx, as.foldl (fun k a => k.act se t a) x.core, x.hits⟩ := by
  induction as generalizing x with
  | nil => rfl
  | cons a as ih =>
      obtain ⟨ha, has⟩ := List.forall_mem_cons.mp hq
      simp only [Lib.perform, Turn.exec, ha, List.foldl_cons]
      cases L1Cache.exec i inp a x.ctx with
      | none => rfl
      | some ctx => exact ih has

theorem perform_quiet_some (se : Bool) (t : Option RubyRequestType) (k : Core B)
    {line : L1Cache.Line B} {c : L1Cache.Ctx n B}
    (hq : ∀ a ∈ as, callbackOf a = none)
    (hc : Lib.perform (L1Cache.exec i inp) as { line := line } = some c) :
    Lib.perform (Turn.exec se i inp t) as ⟨{ line := line }, k, []⟩ =
      some ⟨c, as.foldl (fun k a => k.act se t a) k, []⟩ := by
  rw [perform_quiet hq, hc]
  rfl

theorem Core.foldl_act (k : Core B) (se : Bool) (t : Option RubyRequestType)
    (as : List L1Cache.Action) :
    (as.foldl (fun k a => k.act se t a) k).m_RequestTable = k.m_RequestTable ∧
      (as.foldl (fun k a => k.act se t a) k).blocked = k.blocked ∧
      ((as.foldl (fun k a => k.act se t a) k).monitor = true → k.monitor = true) := by
  induction as generalizing k with
  | nil => exact ⟨rfl, rfl, id⟩
  | cons a as ih =>
      obtain ⟨h₁, h₂, h₃⟩ := ih (k.act se t a)
      refine ⟨h₁.trans ?_, h₂.trans ?_, fun h => ?_⟩
      · cases a <;> rfl
      · cases a <;> rfl
      · have h := h₃ h
        cases a <;> first | exact h | (simp [Core.act] at h; try exact h.1)

/-- The mandatory queue loses the message at its port if it is popped. -/
theorem Core.foldl_act_queue (k : Core B) (as : List L1Cache.Action)
    (has : as.count .k_popMandatoryQueue ≤ 1) :
    (as.foldl (fun k a => k.act se t a) k).mandatoryQueue =
      if .k_popMandatoryQueue ∈ as then t.elim k.mandatoryQueue k.mandatoryQueue.erase
      else k.mandatoryQueue := by
  induction as generalizing k with
  | nil => rfl
  | cons a as ih =>
      rw [List.count_cons] at has
      rw [List.foldl_cons, ih _ (by omega)]
      by_cases ha : a = .k_popMandatoryQueue
      · subst ha
        have hn : L1Cache.Action.k_popMandatoryQueue ∉ as :=
          List.count_eq_zero.mp (by simpa using has)
        simp [hn, Core.act]
      · have hk : (k.act se t a).mandatoryQueue = k.mandatoryQueue := by
          cases a <;> first | rfl | exact absurd rfl ha
        simp [hk, Ne.symm ha]

end

/-! ### What an L1 is at work on -/

/-- What an L1 with a miss is at work on for its core. -/
inductive Ticket where
  | load | linked | store
  deriving DecidableEq

def Ticket.serves : Ticket → RubyRequestType → Bool
  | load, t => t = .LD ∨ t = .IFETCH
  | linked, t => t = .Load_Linked
  | store, t => t = .ST

/-- The events by which it is taken from the mandatory queue. -/
def Ticket.events : Ticket → List L1Cache.Event
  | load => [.Load, .Ifetch]
  | linked => [.Load_Linked]
  | store => [.Store]

/-- The callback it ends with. -/
def Ticket.answer : Ticket → Answer
  | load | linked => .read
  | store => .write false

/-- The states with a TBE. -/
def busy : L1Cache.State → Bool
  | .IS | .IS_I | .IM | .SM | .M_I | .SINK_WB_ACK => true
  | _ => false

def prefetching : L1Cache.State → Bool
  | .PF_IS | .PF_IM | .PF_SM | .PF_IS_I => true
  | _ => false

/-- The ticket of a state, with the mark of its TBE. -/
def ticketOf (s : L1Cache.State) (isLoadLinked : Bool) : Option Ticket :=
  match s with
  | .IS | .IS_I => some .load
  | .IM | .SM => some (if isLoadLinked then .linked else .store)
  | _ => none

/-- A line without prefetches has a TBE in the busy states, and no load miss is marked. -/
def Regular (s : L1Cache.State) (mark : Option Bool) : Bool :=
  mark.isSome == busy s && !prefetching s &&
    !(mark == some true && ticketOf s true == some .load)

/-- The mark of the TBE after an action. -/
def markAfter : L1Cache.Action → Option Bool → Option (Option Bool)
  | .i_allocateTBE, none => some (some false)
  | .i_allocateTBE, some _ => none
  | .s_deallocateTBE, none => none
  | .s_deallocateTBE, some _ => some none
  | .ll_markLoadLinked, none => none
  | .ll_markLoadLinked, some _ => some (some true)
  | _, mark => some mark

/-- The events of the core. -/
def cpuEvents : List L1Cache.Event := [.Load, .Ifetch, .Store, .Load_Linked]

def prefetchEvents : List L1Cache.Event := [.PF_L1_Replacement, .PF_Load, .PF_Ifetch, .PF_Store]

/-- The event is one of the mark: the last ack of a load-linked is told from others by it. -/
def suits : L1Cache.Event → Option Bool → Bool
  | .LLSC_Data_all_Acks, mark | .LLSC_Ack_all, mark => mark = some true
  | .Data_all_Acks, mark | .Ack_all, mark => mark ≠ some true
  | _, _ => true

/-- How a transition moves the ticket: nothing happens to it, a miss takes it, a hit answers the
core at once, or the miss is answered. -/
inductive Moves (e : L1Cache.Event) :
    Option Ticket → List Answer → Bool → Option Ticket → Prop where
  | keep (T : Option Ticket) : Moves e T [] false T
  | miss {T : Ticket} (he : e ∈ T.events) : Moves e none [] true (some T)
  | hit {T : Ticket} (he : e ∈ T.events) : Moves e none [T.answer] true none
  | answer (T : Ticket) : Moves e (some T) [T.answer] false none

/-- A decision of `Moves`. -/
def moves (e : L1Cache.Event) : Option Ticket → List Answer → Bool → Option Ticket → Bool
  | T, [], false, T' => T = T'
  | none, [], true, some T => e ∈ T.events
  | none, [a], true, none =>
      [Ticket.load, .linked, .store].any fun T => e ∈ T.events && a = T.answer
  | some T, [a], false, none => a = T.answer
  | _, _, _, _ => false

theorem Moves.of_moves {e : L1Cache.Event} {T T' : Option Ticket} {as : List Answer} {b : Bool}
    (h : moves e T as b T' = true) : Moves e T as b T' := by
  unfold moves at h
  split at h
  · obtain rfl := of_decide_eq_true h
    exact .keep _
  · exact .miss (of_decide_eq_true h)
  · simp only [List.any_cons, List.any_nil, Bool.or_false, Bool.or_eq_true, Bool.and_eq_true,
      decide_eq_true_eq] at h
    obtain ⟨he, rfl⟩ | ⟨he, rfl⟩ | ⟨he, rfl⟩ := h <;> exact .hit he
  · obtain rfl := of_decide_eq_true h
    exact .answer _
  · cases h

/-- What the table does to marks and tickets. -/
def ticketCheck (s : L1Cache.State) (e : L1Cache.Event) (s' : L1Cache.State)
    (as : List L1Cache.Action) : Bool :=
  prefetchEvents.contains e || [none, some false, some true].all fun mark =>
    !Regular s mark || !suits e mark || match Lib.perform markAfter as mark with
      | none => true
      | some mark' => Regular s' mark' && as.count .k_popMandatoryQueue ≤ 1 &&
          moves e (mark.bind (ticketOf s)) (as.filterMap callbackOf)
            (as.contains .k_popMandatoryQueue) (mark'.bind (ticketOf s'))

theorem table_tickets : (L1Cache.table.all fun r => r.states.all fun s => r.events.all fun e =>
    ticketCheck s e (r.next.getD s) r.actions) = true := by decide +kernel

/-- The mark of the TBE of a line. -/
def mark (l : L1Cache.Line B) : Option Bool := l.tbe.map L1Cache.TBE.isLoadLinked

theorem isLoadLinked_newTBE (e : Option (L1Cache.Entry B)) :
    (L1Cache.newTBE e).isLoadLinked = false := by
  unfold L1Cache.newTBE
  split
  · split_ifs <;> rfl
  · rfl

theorem exec_mark {i : Fin n} {inp : L1Cache.In n B} {a : L1Cache.Action} {c c' : L1Cache.Ctx n B}
    (h : L1Cache.exec i inp a c = some c') : markAfter a (mark c.line) = some (mark c'.line) := by
  cases a <;>
    simp only [L1Cache.exec, Option.bind_eq_some_iff, Option.map_eq_some_iff, Option.some.injEq,
      Option.ite_none_left_eq_some, Option.ite_none_right_eq_some] at h
  case i_allocateTBE =>
    obtain ⟨hn, rfl⟩ := h
    have hc : c.line.tbe = none := by simpa using hn
    simp [mark, hc, markAfter, L1Cache.Ctx.setTBE, isLoadLinked_newTBE]
  case s_deallocateTBE | ll_markLoadLinked =>
    obtain ⟨t, ht, rfl⟩ := h
    simp [mark, ht, markAfter, L1Cache.Ctx.setTBE]
  case q_updateAckCount =>
    obtain ⟨m, -, t, ht, rfl⟩ := h
    simp [mark, ht, markAfter, L1Cache.Ctx.setTBE]
  all_goals grind [mark, markAfter, L1Cache.Ctx.setEntry, L1Cache.Ctx.setLock,
    L1Cache.Ctx.respond, L1Cache.Ctx.request, L1Cache.Ctx.unblock]

/-- The ticket of a line. -/
def ticket (l : L1Cache.Line B) : Option Ticket := (mark l).bind (ticketOf l.getState)

theorem mark_setState (l : L1Cache.Line B) (s : L1Cache.State) : mark (l.setState s) = mark l := by
  unfold mark L1Cache.Line.setState
  cases l.tbe <;> rfl

theorem getState_setState (l : L1Cache.Line B) (s : L1Cache.State) :
    (l.setState s).getState = s ∨ mark l = none ∧ (l.setState s).getState = .NP := by
  obtain ⟨_ | e, _ | t, b⟩ := l
  · exact .inr ⟨rfl, rfl⟩
  all_goals exact .inl rfl

theorem getState_setState_of_entry {l : L1Cache.Line B} (h : l.entry.isSome = true)
    (s : L1Cache.State) : (l.setState s).getState = s := by
  obtain ⟨_ | e, _ | t, b⟩ := l
  · cases h
  · cases h
  all_goals rfl

theorem regular_setState {l : L1Cache.Line B} {s : L1Cache.State}
    (h : Regular s (mark l) = true) :
    Regular (l.setState s).getState (mark (l.setState s)) = true := by
  rw [mark_setState]
  rcases getState_setState l s with hs | ⟨hm, hs⟩
  · rwa [hs]
  · rw [hs, hm]
    rfl

theorem ticket_setState (l : L1Cache.Line B) (s : L1Cache.State) :
    ticket (l.setState s) = (mark l).bind (ticketOf s) := by
  unfold ticket
  rw [mark_setState]
  rcases getState_setState l s with hs | ⟨hm, -⟩
  · rw [hs]
  · rw [hm]
    rfl

/-! ### The events of a stimulus -/

theorem Ticket.serves_of_event {T : Ticket} {t : RubyRequestType} {t' : L1Cache.RubyRequestType}
    (ht : t.toL1 = some t') (h : L1Cache.mandatory_request_type_to_event t' ∈ T.events) :
    T.serves t = true := by
  cases t <;> cases ht <;> cases T <;> revert h <;> decide

theorem Ticket.answers_of_serves {T : Ticket} {t : RubyRequestType} (h : T.serves t = true) :
    T.answer.answers t = true := by
  cases T <;> cases t <;> first | rfl | (exfalso; revert h; decide)

theorem Ticket.mem_cpuEvents {T : Ticket} {e : L1Cache.Event} (h : e ∈ T.events) :
    e ∈ cpuEvents := by
  cases T <;> simp [events, cpuEvents] at h ⊢ <;> tauto

theorem response_event {l : L1Cache.Line B} {m : ResponseMsg n B} {e : L1Cache.Event}
    (h : L1Cache.responseEvent l m = some e) :
    e ∉ prefetchEvents ∧ suits e (mark l) = true ∧ e ∉ cpuEvents := by
  unfold L1Cache.responseEvent at h
  split at h
  · cases h
    exact ⟨by decide, rfl, by decide⟩
  · split_ifs at h
    · cases h
      exact ⟨by decide, rfl, by decide⟩
    · obtain ⟨t, ht, rfl⟩ := Option.map_eq_some_iff.mp h
      split_ifs with h₁ h₂ <;> refine ⟨by decide, ?_, by decide⟩ <;> simp [suits, mark, *]
  · obtain ⟨t, ht, rfl⟩ := Option.map_eq_some_iff.mp h
    split_ifs with h₁ h₂ <;> refine ⟨by decide, ?_, by decide⟩ <;> simp [suits, mark, *]
  · cases h
    exact ⟨by decide, rfl, by decide⟩
  all_goals cases h

theorem cpu_event {sys : Sys n B} {i : Fin n} {t : RubyRequestType} {w : DataBlock B → DataBlock B}
    {l : L1Label n B} {inp : L1Cache.In n B} {e : L1Cache.Event}
    (hl : (Stimulus.cpu t : Stimulus n B).label w = some l)
    (he : sys.l1Event i l = some (inp, e)) :
    ∃ t', t.toL1 = some t' ∧ e = L1Cache.mandatoryEvent (sys.node i).line t' := by
  obtain ⟨t', ht, rfl⟩ := Option.map_eq_some_iff.mp hl
  have h : { store := w } = inp ∧ L1Cache.mandatoryEvent (sys.node i).line t' = e := by
    simpa [Sys.l1Event] using he
  exact ⟨t', ht, h.2.symm⟩

theorem event_cases {sys : Sys n B} {i : Fin n} {s : Stimulus n B} {w : DataBlock B → DataBlock B}
    {l : L1Label n B} {inp : L1Cache.In n B} {e : L1Cache.Event} (hl : s.label w = some l)
    (he : sys.l1Event i l = some (inp, e)) :
    e ∉ prefetchEvents ∧ suits e (mark (sys.node i).line) = true ∧
      (e ∉ cpuEvents ∨ ∃ t t', s = .cpu t ∧ t.toL1 = some t' ∧
        e = L1Cache.mandatory_request_type_to_event t') := by
  cases s with
  | cpu t =>
      obtain ⟨t', ht, rfl⟩ := cpu_event hl he
      have hev : L1Cache.mandatoryEvent (sys.node i).line t' = .L1_Replacement ∨
          L1Cache.mandatoryEvent (sys.node i).line t' =
            L1Cache.mandatory_request_type_to_event t' := by
        unfold L1Cache.mandatoryEvent
        split
        · split_ifs <;> simp
        · simp
      rcases hev with hev | hev
      · rw [hev]
        exact ⟨by decide, rfl, .inl (by decide)⟩
      · rw [hev]
        refine ⟨?_, ?_, .inr ⟨t, t', rfl, ht, rfl⟩⟩
        · cases t' <;> decide
        · cases t' <;> rfl
  | replacement | llscTimeout =>
      cases hl
      simp only [Sys.l1Event, Option.ite_none_right_eq_some, Option.some.injEq,
        Prod.mk.injEq] at he
      obtain ⟨-, -, rfl⟩ := he
      exact ⟨by decide, rfl, .inl (by decide)⟩
  | request m =>
      cases hl
      simp only [Sys.l1Event, Option.ite_none_right_eq_some, Option.map_eq_some_iff,
        Prod.mk.injEq] at he
      obtain ⟨-, e', he', -, rfl⟩ := he
      unfold L1Cache.requestEvent at he'
      split at he' <;> cases he' <;> exact ⟨by decide, rfl, .inl (by decide)⟩
  | response m | responseFromL1 j m =>
      cases hl
      simp only [Sys.l1Event, Option.ite_none_right_eq_some, Option.map_eq_some_iff,
        Prod.mk.injEq] at he
      obtain ⟨-, e', he', -, rfl⟩ := he
      obtain ⟨h₁, h₂, h₃⟩ := response_event he'
      exact ⟨h₁, h₂, .inl h₃⟩

/-! ### The L1 and its sequencer agree -/

/-- The type of the request that stands for the packet in front. -/
def Core.front (k : Core B) : Option RubyRequestType :=
  k.m_RequestTable.head?.map SequencerRequest.m_second_type

/-- The request for the packet in front is in the mandatory queue, or the L1 is at work on it. -/
def Core.Due (k : Core B) : Option Ticket → Prop
  | none => k.mandatoryQueue = k.front.toList
  | some T => k.mandatoryQueue = [] ∧ ∃ t, k.front = some t ∧ T.serves t = true

structure Matches (l : L1Cache.Line B) (k : Core B) : Prop where
  typed : ∀ r ∈ k.m_RequestTable, r.pkt.requestTypes = some (r.m_type, r.m_second_type)
  regular : Regular l.getState (mark l) = true
  due : k.Due (ticket l)

/-- A callback that answers the request for the packet in front is taken. -/
theorem Core.callback_of_front {k : Core B} {a : Answer} {t : RubyRequestType}
    (htyped : ∀ r ∈ k.m_RequestTable, r.pkt.requestTypes = some (r.m_type, r.m_second_type))
    (hf : k.front = some t) (ha : a.answers t = true) (e : L1Cache.Entry B) :
    ∃ k' hits, k.callback a e = some (k', hits) ∧
      k.m_RequestTable = hits.map Hit.request ++ k'.m_RequestTable ∧
      k'.mandatoryQueue = k.mandatoryQueue ++ k'.front.toList := by
  obtain ⟨r, hr, rfl⟩ := Option.map_eq_some_iff.mp hf
  obtain ⟨rs, hq⟩ := List.head?_eq_some_iff.mp hr
  have hfront : a.front r.m_type = true :=
    Packet.front_of_answers (htyped r (by simp [hq])) ha
  obtain ⟨c₁, hc₁, hl⟩ := Answer.loop_true (!e.icache) rs hfront
    ⟨e.DataBlk, k.monitor && !e.icache, k.blocked, [], []⟩
  obtain ⟨⟨rest, c⟩, hc⟩ := Option.isSome_iff_exists.mp (a.loop_false (!e.icache) rs c₁)
  obtain ⟨done, hdone, hhits, hissued⟩ := Answer.loop_served (hl.trans hc)
  refine ⟨⟨rest, k.mandatoryQueue ++ c.issued, c.monitor, c.blocked⟩, c.hits, ?_, ?_, ?_⟩
  · simp [Core.callback, hq, hl, hc]
  · rw [hq, hdone, hhits]
    rfl
  · rw [hissued]
    rfl

/-- The actions that call back act on an entry. -/
theorem exec_callback {i : Fin n} {inp : L1Cache.In n B} {a : L1Cache.Action} {ans : Answer}
    (ha : callbackOf a = some ans) {c c' : L1Cache.Ctx n B}
    (h : L1Cache.exec i inp a c = some c') : ∃ e, c.line.entry = some e := by
  cases a with
  | h_load_hit | h_ifetch_hit | hx_load_hit | hh_store_hit | hhx_store_hit =>
      obtain ⟨e, he, -⟩ := Option.map_eq_some_iff.mp h
      exact ⟨e, he⟩
  | _ => cases ha

/-- A sequence of actions with one callback. -/
theorem perform_callback (se : Bool) (t : Option RubyRequestType) (k : Core B) {i : Fin n}
    {inp : L1Cache.In n B}
    {as : List L1Cache.Action} {ans : Answer} {line : L1Cache.Line B}
    {c : L1Cache.Ctx n B} (has : as.filterMap callbackOf = [ans])
    (hc : Lib.perform (L1Cache.exec i inp) as { line := line } = some c) :
    ∃ pre a post c₁ e, as = pre ++ a :: post ∧ (∀ a ∈ pre, callbackOf a = none) ∧
      (∀ a ∈ post, callbackOf a = none) ∧ callbackOf a = some ans ∧
      Lib.perform (L1Cache.exec i inp) pre { line := line } = some c₁ ∧ c₁.line.entry = some e ∧
      ((L1Cache.exec i inp a c₁).bind (Lib.perform (L1Cache.exec i inp) post)) = some c ∧
      Lib.perform (Turn.exec se i inp t) as ⟨{ line := line }, k, []⟩ =
        ((pre.foldl (fun k a => k.act se t a) k).callback ans e).map fun r =>
          ⟨c, post.foldl (fun k a => k.act se t a) r.1, r.2⟩ := by
  obtain ⟨pre, a, post, rfl, hpre, ha, hpost⟩ := List.filterMap_eq_cons_iff.mp has
  rw [List.filterMap_eq_nil_iff] at hpost
  rw [Lib.perform_append] at hc
  obtain ⟨c₁, hc₁, hc⟩ := Option.bind_eq_some_iff.mp hc
  obtain ⟨c₂, hc₂, hc₃⟩ := Option.bind_eq_some_iff.mp hc
  obtain ⟨e, he⟩ := exec_callback ha hc₂
  refine ⟨pre, a, post, c₁, e, rfl, hpre, hpost, ha, hc₁, he, hc, ?_⟩
  rw [Lib.perform_append, perform_quiet hpre, hc₁, Option.map_some, Option.bind_some, Lib.perform]
  simp only [Turn.exec, ha, hc₂, he, Option.bind_some]
  cases (pre.foldl (fun k a => k.act se t a) k).callback ans e with
  | none => rfl
  | some r => simp [perform_quiet hpost, hc₃]

theorem Core.changePermission_eq (k : Core B) (s : L1Cache.State) :
    (k.changePermission s).m_RequestTable = k.m_RequestTable ∧
      (k.changePermission s).mandatoryQueue = k.mandatoryQueue ∧
      (k.changePermission s).blocked = k.blocked := by
  cases s <;> exact ⟨rfl, rfl, rfl⟩

theorem Core.Due.congr {k k' : Core B} {T : Option Ticket} (h : k.Due T)
    (hr : k'.m_RequestTable = k.m_RequestTable) (hq : k'.mandatoryQueue = k.mandatoryQueue) :
    k'.Due T := by
  cases T with
  | none => simpa [Core.Due, Core.front, hr, hq] using h
  | some T => simpa [Core.Due, Core.front, hr, hq] using h

/-- A sequence of actions that calls back for the packet in front leaves the L1 idle, with the
request for the next packet in the mandatory queue. -/
theorem perform_answered (se : Bool) {i : Fin n} {inp : L1Cache.In n B} {u : Option RubyRequestType}
    {as : List L1Cache.Action} {a : Answer} {line : L1Cache.Line B} {k : Core B}
    {c : L1Cache.Ctx n B} {t : RubyRequestType}
    (htyped : ∀ r ∈ k.m_RequestTable, r.pkt.requestTypes = some (r.m_type, r.m_second_type))
    (has : as.filterMap callbackOf = [a])
    (hc : Lib.perform (L1Cache.exec i inp) as { line := line } = some c)
    (hf : k.front = some t) (ha : a.answers t = true)
    (hpops : as.count .k_popMandatoryQueue ≤ 1)
    (hq : k.mandatoryQueue = if as.contains .k_popMandatoryQueue then [t] else [])
    (hu : as.contains .k_popMandatoryQueue = true → u = some t) :
    ∃ k' hits, Lib.perform (Turn.exec se i inp u) as ⟨{ line := line }, k, []⟩ =
        some ⟨c, k', hits⟩ ∧
      k.m_RequestTable = hits.map Hit.request ++ k'.m_RequestTable ∧ k'.Due none := by
  obtain ⟨pre, b, post, c₂, e, rfl, -, -, hb, -, -, -, hp⟩ :=
    perform_callback se u k has hc
  have hne : .k_popMandatoryQueue ≠ b := by
    rintro rfl
    cases hb
  rw [List.count_append, List.count_cons] at hpops
  obtain ⟨h₁, -, -⟩ := k.foldl_act se u pre
  obtain ⟨k₂, hits, hk₂, hreq, hq₂⟩ := Core.callback_of_front (a := a) (t := t)
    (k := pre.foldl (fun k a => k.act se u a) k) (by rw [h₁]; exact htyped)
    (by rw [← hf, Core.front, h₁]; rfl) ha e
  rw [hk₂, Option.map_some] at hp
  obtain ⟨h₃, -, -⟩ := k₂.foldl_act se u post
  refine ⟨_, hits, hp, by rw [h₃, ← hreq, h₁], ?_⟩
  have hfront : (post.foldl (fun k a => k.act se u a) k₂).front = k₂.front := by
    rw [Core.front, h₃]
    rfl
  change _ = _
  rw [hfront, Core.foldl_act_queue k₂ post (by omega), hq₂,
    Core.foldl_act_queue k pre (by omega), hq]
  -- the request leaves the queue before the callback, after it, or not at all
  by_cases hpre : .k_popMandatoryQueue ∈ pre
  · have hn : .k_popMandatoryQueue ∉ post := by
      have := List.count_pos_iff.mpr hpre
      exact List.count_eq_zero.mp (by omega)
    simp [hu (by simp [hpre]), hpre, hn]
  · by_cases hpost : .k_popMandatoryQueue ∈ post
    · simp [hu (by simp [hpost]), hpre, hpost]
    · simp [hpre, hpost, hne]

/-- **One step.**  Where the L1 does not fail, its callbacks are taken, they answer packets from the
front of the queue, and the two go on to agree. -/
theorem Matches.transition (se : Bool) {sys : Sys n B} {i : Fin n} {k : Core B} {s : Stimulus n B}
    {w : DataBlock B → DataBlock B} {l : L1Label n B} {inp : L1Cache.In n B} {e : L1Cache.Event}
    {c : L1Cache.Ctx n B} (hm : Matches (sys.node i).line k) (ha : k.allows s = true)
    (hl : s.label w = some l) (he : sys.l1Event i l = some (inp, e))
    (hc : L1Cache.doTransition i inp e (sys.node i).line = some c) :
    ∃ x, Cores.doTransition se i inp s.type e (sys.node i).line k = some x ∧
      Matches x.ctx.line x.core ∧
      k.m_RequestTable = x.hits.map Hit.request ++ x.core.m_RequestTable := by
  obtain ⟨hpf, hsuits, hcpu⟩ := event_cases hl he
  obtain ⟨⟨next, actions⟩, htr, hc⟩ := Option.bind_eq_some_iff.mp hc
  obtain ⟨c₁, hperform, rfl⟩ := Option.map_eq_some_iff.mp hc
  have hmark := Lib.perform_map (x := L1Cache.exec i inp) (y := markAfter)
    (f := fun c => mark c.line) (fun _ _ _ => exec_mark) hperform
  dsimp only at hmark
  -- what the table says of the transition
  have hcheck := Lib.declared_check table_tickets htr
  obtain ⟨hreg, hpops, hmoves⟩ : Regular next (mark c₁.line) = true ∧
      actions.count .k_popMandatoryQueue ≤ 1 ∧
      Moves e (ticket (sys.node i).line) (actions.filterMap callbackOf)
        (actions.contains .k_popMandatoryQueue) ((mark c₁.line).bind (ticketOf next)) := by
    have hmem : mark (sys.node i).line ∈ [none, some false, some true] := by
      rcases mark (sys.node i).line with _ | _ | _ <;> decide
    simp only [ticketCheck, Bool.or_eq_true, List.contains_iff_mem, hpf, false_or] at hcheck
    have hcheck := List.all_eq_true.mp hcheck _ hmem
    rw [hm.regular, hsuits, hmark] at hcheck
    simp only [Bool.not_true, Bool.false_or, Bool.and_eq_true, decide_eq_true_eq] at hcheck
    exact ⟨hcheck.1.1, hcheck.1.2, .of_moves hcheck.2⟩
  -- a request is popped only where it was the stimulus, in front of an idle L1
  have hpopped : ∀ {T : Ticket}, e ∈ T.events → ticket (sys.node i).line = none →
      ∃ t, s.type = some t ∧ T.serves t = true ∧ k.front = some t ∧ k.mandatoryQueue = [t] := by
    intro T hT hnone
    rcases hcpu with hcpu | ⟨t, t', rfl, ht, rfl⟩
    · exact absurd (Ticket.mem_cpuEvents hT) hcpu
    · have hdue := hm.due
      rw [hnone] at hdue
      have hmem : t ∈ k.mandatoryQueue := of_decide_eq_true ha
      rw [show k.mandatoryQueue = k.front.toList from hdue, Option.mem_toList] at hmem
      exact ⟨t, rfl, Ticket.serves_of_event ht hT, hmem, by
        rw [show k.mandatoryQueue = k.front.toList from hdue, hmem]; rfl⟩
  have hdone : ∀ {k' : Core B} {hits : List (Hit B)},
      Lib.perform (Turn.exec se i inp s.type) actions ⟨{ line := (sys.node i).line }, k, []⟩ =
        some ⟨c₁, k', hits⟩ →
      k.m_RequestTable = hits.map Hit.request ++ k'.m_RequestTable →
      k'.Due ((mark c₁.line).bind (ticketOf next)) →
      ∃ x, Cores.doTransition se i inp s.type e (sys.node i).line k = some x ∧
        Matches x.ctx.line x.core ∧
        k.m_RequestTable = x.hits.map Hit.request ++ x.core.m_RequestTable := by
    intro k' hits hp hreq hdue
    obtain ⟨h₁, h₂, -⟩ := k'.changePermission_eq next
    refine ⟨Turn.setState next ⟨c₁, k', hits⟩, ?_, ⟨?_, regular_setState hreg, ?_⟩, ?_⟩
    · exact Option.bind_eq_some_iff.mpr ⟨(next, actions), htr,
        Option.map_eq_some_iff.mpr ⟨_, hp, rfl⟩⟩
    · intro r hr
      exact hm.typed r (hreq ▸ List.mem_append_right _ (h₁ ▸ hr))
    · exact (ticket_setState c₁.line next).symm ▸ hdue.congr h₁ h₂
    · exact hreq.trans (congrArg _ h₁.symm)
  have hdue := hm.due
  generalize hT : ticket (sys.node i).line = T at hmoves hpopped hdue
  generalize hA : actions.filterMap callbackOf = A at hmoves
  generalize hb : actions.contains .k_popMandatoryQueue = b at hmoves
  generalize (mark c₁.line).bind (ticketOf next) = T' at hmoves hdone
  cases hmoves with
  | keep =>
      have hp := perform_quiet_some se s.type k (List.filterMap_eq_nil_iff.mp hA) hperform
      obtain ⟨h₁, -, -⟩ := k.foldl_act se s.type actions
      refine hdone hp h₁.symm (hdue.congr h₁ ?_)
      rw [Core.foldl_act_queue k actions hpops, if_neg (by simpa using hb)]
  | @miss T he =>
      have hp := perform_quiet_some se s.type k (List.filterMap_eq_nil_iff.mp hA) hperform
      obtain ⟨h₁, -, -⟩ := k.foldl_act se s.type actions
      obtain ⟨t, ht, hT, hf, hq⟩ := hpopped he rfl
      refine hdone hp h₁.symm ⟨?_, t, ?_, hT⟩
      · rw [Core.foldl_act_queue k actions hpops, if_pos (by simpa using hb), ht, hq]
        simp
      · rw [← hf, Core.front, h₁]
        rfl
  | @hit T he =>
      obtain ⟨t, ht, hT, hf, hq⟩ := hpopped he rfl
      obtain ⟨k', hits, hp, hreq, hdue'⟩ := perform_answered se hm.typed hA hperform hf
        (Ticket.answers_of_serves hT) hpops (by rw [hq, hb]; rfl) fun _ => ht
      exact hdone hp hreq hdue'
  | answer T =>
      obtain ⟨hq, t, hf, hT⟩ := hdue
      obtain ⟨k', hits, hp, hreq, hdue'⟩ := perform_answered se hm.typed (u := s.type) hA
        hperform hf (Ticket.answers_of_serves hT) hpops (by rw [hq, hb]; rfl)
        (by rw [hb]; rintro ⟨⟩)
      exact hdone hp hreq hdue'

/-! ### The callback of a transition -/

/-- The callback of a sequence of actions is made on the entry `e`, with the monitor as it is
then. -/
def CalledOn (se : Bool) (i : Fin n) (inp : L1Cache.In n B) (t : Option RubyRequestType)
    (line : L1Cache.Line B) (k : Core B) (as : List L1Cache.Action) (e : L1Cache.Entry B)
    (monitor : Bool) : Prop :=
  ∃ pre a post c, as = pre ++ a :: post ∧ (∀ a ∈ pre, callbackOf a = none) ∧
    (callbackOf a).isSome = true ∧
    Lib.perform (L1Cache.exec i inp) pre { line := line } = some c ∧ c.line.entry = some e ∧
    monitor = ((pre.foldl (fun k a => k.act se t a) k).monitor && !e.icache)

/-- What the actions of a transition do for the core: nothing, or one callback, on an entry and
with a monitor of which `C` holds. -/
inductive Core.Calls (C : L1Cache.Entry B → Bool → Prop) (k k' : Core B) (hits : List (Hit B)) :
    List Answer → Prop where
  | none (hr : k'.m_RequestTable = k.m_RequestTable) (hb : k'.blocked = k.blocked)
      (hm : k'.monitor = true → k.monitor = true) (hh : hits = []) : Calls C k k' hits []
  | one {a : Answer} {e : L1Cache.Entry B} {monitor : Bool} {c : Callback B} (hC : C e monitor)
      (hl : a.loop (!e.icache) true k.m_RequestTable ⟨e.DataBlk, monitor, k.blocked, [], []⟩ =
        some (k'.m_RequestTable, c))
      (hk : monitor = true → k.monitor = true) (hb : k'.blocked = c.blocked)
      (hm : k'.monitor = true → c.monitor = true) (hh : hits = c.hits) : Calls C k k' hits [a]

theorem table_callbacks : (L1Cache.table.all fun r => r.states.all fun _ => r.events.all fun _ =>
    decide ((r.actions.filterMap callbackOf).length ≤ 1)) = true := by decide +kernel

theorem Core.changePermission_monitor {k : Core B} {s : L1Cache.State}
    (h : (k.changePermission s).monitor = true) : k.monitor = true := by
  cases s <;> first | exact h | cases h

theorem Core.callback_some {k k' : Core B} {a : Answer} {e : L1Cache.Entry B}
    {hits : List (Hit B)} (h : k.callback a e = some (k', hits)) :
    ∃ c, a.loop (!e.icache) true k.m_RequestTable
        ⟨e.DataBlk, k.monitor && !e.icache, k.blocked, [], []⟩ = some (k'.m_RequestTable, c) ∧
      k'.blocked = c.blocked ∧ k'.monitor = c.monitor ∧ hits = c.hits := by
  unfold Core.callback at h
  split_ifs at h
  obtain ⟨⟨rest, c⟩, hl, heq⟩ := Option.map_eq_some_iff.mp h
  cases heq
  exact ⟨c, hl, rfl, rfl, rfl⟩

theorem callbacks_cases (as : List L1Cache.Action) :
    ∀ ans ∈ as.filterMap callbackOf, ans = .read ∨ ans = .write false := by
  intro ans hans
  obtain ⟨a, -, ha⟩ := List.mem_filterMap.mp hans
  cases a <;> cases ha <;> simp

/-- **The inversion of a transition**: what it does for the core. -/
theorem Cores.doTransition_calls {i : Fin n} {inp : L1Cache.In n B}
    {t : Option RubyRequestType} {e : L1Cache.Event} {line : L1Cache.Line B} {k : Core B}
    {x : Turn n B} (h : Cores.doTransition se i inp t e line k = some x) :
    ∃ next actions, L1Cache.transition line.getState e = some (next, actions) ∧
      k.Calls (CalledOn se i inp t line k actions) x.core x.hits
        (actions.filterMap callbackOf) := by
  obtain ⟨⟨next, actions⟩, htr, h⟩ := Option.bind_eq_some_iff.mp h
  obtain ⟨⟨ctx, k₁, hits⟩, hy, rfl⟩ := Option.map_eq_some_iff.mp h
  refine ⟨next, actions, htr, ?_⟩
  have hctx := Lib.perform_map (f := Turn.ctx) (fun _ _ _ => Turn.exec_ctx) hy
  have hlen := Lib.declared_check (P := fun _ _ _ as => (as.filterMap callbackOf).length ≤ 1)
    table_callbacks htr
  obtain ⟨hreq, -, hperm⟩ := k₁.changePermission_eq next
  cases hA : actions.filterMap callbackOf with
  | nil =>
      have hp := perform_quiet_some se t k (List.filterMap_eq_nil_iff.mp hA) hctx
      cases Option.some.inj (hy.symm.trans hp)
      obtain ⟨h₁, h₂, h₃⟩ := k.foldl_act se t actions
      exact .none (hreq.trans h₁) (hperm.trans h₂)
        (fun hm => h₃ (Core.changePermission_monitor hm)) rfl
  | cons a as =>
      obtain rfl : as = [] :=
        List.length_eq_zero_iff.mp (by simpa [hA] using of_decide_eq_true hlen)
      obtain ⟨pre, b, post, c₁, e, hsplit, hpre, -, hb', hc₁, he, -, hp⟩ :=
        perform_callback se t k hA hctx
      rw [hp] at hy
      obtain ⟨⟨k₂, hits⟩, hk₂, heq⟩ := Option.map_eq_some_iff.mp hy
      cases heq
      obtain ⟨c, hl, hb, hm, rfl⟩ := Core.callback_some hk₂
      obtain ⟨h₁, h₂, h₃⟩ := k.foldl_act se t pre
      obtain ⟨h₁', h₂', h₃'⟩ := k₂.foldl_act se t post
      rw [h₁, h₂, ← hreq.trans h₁'] at hl
      refine .one ⟨pre, b, post, c₁, hsplit, hpre, by rw [hb']; rfl, hc₁, he, rfl⟩ hl
        (fun hk => h₃ (Bool.and_eq_true_iff.mp hk).1) (hperm.trans (h₂'.trans hb))
        (fun hk => ?_) rfl
      rw [← hm]
      exact h₃' (Core.changePermission_monitor hk)

/-! ### Runs -/

/-- A node keeps its line whatever leaves and enters its buffers. -/
theorem Cores.after_line (g : Cores n B) (i j : Fin n) (l : L1Label n B) (x : Turn n B) :
    ((g.after i l x).sys.node j).line =
      if j = i then x.ctx.line else (g.sys.node j).line := by
  unfold Cores.after Sys.afterL1
  by_cases hj : j = i
  · subst hj
    simp [Sys.setNode, Node.afterL1]
  · cases l <;> simp [Sys.l1Dequeue, Sys.setNode, hj, Function.update_apply]
    split_ifs <;> simp_all

/-- The packets that a core has been answered. -/
def Cores.answered (g : Cores n B) (i : Fin n) : List (Hit B) :=
  (g.history.filter fun h => h.1 = i).map Prod.snd

/-- Each L1 agrees with its sequencer, and the packets of a core are answered in their order. -/
structure Cores.Agree (g : Cores n B) : Prop where
  same : ∀ i, Matches (g.sys.node i).line (g.core i)
  order : ∀ i, g.accepted i = (g.answered i).map (·.request.pkt) ++
    (g.core i).m_RequestTable.map SequencerRequest.pkt

theorem Cores.Agree.init (memory : DataBlock B) :
    ({ sys := start memory } : Cores n B).Agree :=
  ⟨fun _ => ⟨by simp, rfl, rfl⟩, fun _ => rfl⟩

theorem Matches.makeRequest {l : L1Cache.Line B} {k : Core B} (h : Matches l k) {pkt : Packet B}
    {p t : RubyRequestType} (hp : pkt.requestTypes = some (p, t)) :
    Matches l (k.makeRequest pkt p t) := by
  refine ⟨fun r hr => ?_, h.regular, ?_⟩
  · rcases List.mem_append.mp hr with hr | hr
    · exact h.typed r hr
    · obtain rfl := List.mem_singleton.mp hr
      exact hp
  · have hdue := h.due
    cases hT : ticket l with
    | none =>
        rw [hT] at hdue
        have hdue : k.mandatoryQueue = k.front.toList := hdue
        cases hq : k.m_RequestTable <;>
          simp [Core.Due, Core.makeRequest, Core.front, hq, hdue]
    | some T =>
        rw [hT] at hdue
        obtain ⟨hq, u, hf, hu⟩ := hdue
        obtain ⟨r, hr, rfl⟩ := Option.map_eq_some_iff.mp hf
        obtain ⟨rs, hrs⟩ := List.head?_eq_some_iff.mp hr
        exact ⟨by simp [Core.makeRequest, hq, hrs], _,
          by simp [Core.front, Core.makeRequest, hrs], hu⟩

theorem Cores.answered_after (g : Cores n B) (i j : Fin n) (l : L1Label n B) (x : Turn n B) :
    (g.after i l x).answered j = g.answered j ++ if j = i then x.hits else [] := by
  have hmap : ((x.hits.map fun h => (i, h)).filter fun h => h.1 = j).map Prod.snd =
      if j = i then x.hits else [] := by
    by_cases hj : j = i
    · subst hj
      simp [List.filter_map, Function.comp_def]
    · simp [List.filter_map, Function.comp_def, hj, Ne.symm hj]
  simp [Cores.answered, Cores.after, hmap]

theorem Cores.Agree.l1Step (hg : g.Agree) {i : Fin n} {s : Stimulus n B}
    (h : g.l1Step se i s = some g') : g'.Agree := by
  obtain ⟨l, inp, e, x, ha, hl, he, hx, rfl⟩ := Cores.l1Step_some h
  obtain ⟨x', hx', hm, hreq⟩ :=
    (hg.same i).transition se ha hl he (Cores.doTransition_ctx hx)
  obtain rfl : x = x' := Option.some.inj (hx.symm.trans hx')
  refine ⟨fun j => ?_, fun j => ?_⟩
  · rw [Cores.after_line]
    by_cases hj : j = i
    · subst hj
      simpa [Cores.after] using hm
    · simpa [Cores.after, hj] using hg.same j
  · rw [Cores.answered_after]
    by_cases hj : j = i
    · subst hj
      simp [Cores.after, hg.order, hreq]
    · simp [Cores.after, hj, hg.order]

theorem Cores.Agree.step (hg : g.Agree) {l : CoresLabel n B} (h : g.step se l = some g') :
    g'.Agree := by
  cases l with
  | makeRequest i pkt =>
      obtain rfl | ⟨p, t, hp, -, rfl⟩ := Cores.makeRequest_cases h
      · exact hg
      · refine ⟨fun j => ?_, fun j => ?_⟩
        · by_cases hj : j = i
          · subst hj
            simpa using (hg.same j).makeRequest hp
          · simpa [hj] using hg.same j
        · change Function.update g.accepted i _ j = (g.answered j).map _ ++
            (Function.update g.core i _ j).m_RequestTable.map _
          by_cases hj : j = i
          · subst hj
            simp [hg.order, Core.makeRequest]
          · simp [hj, hg.order]
  | l1 i s => exact hg.l1Step h
  | l2 l =>
      obtain ⟨sys, hs, rfl⟩ := Option.map_eq_some_iff.mp h
      exact ⟨fun j => (Sys.l2Step_node hs j).1.symm ▸ hg.same j, hg.order⟩
  | home l =>
      obtain ⟨h', -, rfl⟩ := Option.map_eq_some_iff.mp h
      exact ⟨hg.same, hg.order⟩

theorem agree_of_reach {G : Cores n B → CoresLabel n B → Prop} (h : (cores n B se).Reach G g) :
    g.Agree := by
  refine h.invariant ?_ fun _ _ _ hg _ => hg.step
  rintro _ ⟨memory, rfl⟩
  exact .init memory

/-- **No callback fails.**  Wherever an L1 takes a step of the protocol that its blocked lines
allow, its sequencer takes the callbacks that the step makes. -/
theorem callbacks_taken (h : (cores n B se).Reach (fun _ _ => True) g) {i : Fin n}
    {s : Stimulus n B} {l : L1Label n B} (ha : (g.core i).allows s = true)
    (hl : s.label (g.store i) = some l) (hs : (g.sys.l1Step i l).isSome = true) :
    (g.l1Step se i s).isSome = true := by
  obtain ⟨sys', hs⟩ := Option.isSome_iff_exists.mp hs
  obtain ⟨⟨inp, e⟩, he, hs⟩ := Option.bind_eq_some_iff.mp hs
  obtain ⟨c, hc, -⟩ := Option.map_eq_some_iff.mp hs
  obtain ⟨x, hx, -⟩ := ((agree_of_reach h).same i).transition se ha hl he hc
  simp [Cores.l1Step, ha, hl, he, hx]

/-! A byte of the line, and the packets for it. -/

theorem byte_of_line : 0 % 1 + 1 ≤ 1 := by decide

def theByte : Packet 1 := { addr := 0, size := 1, fits := byte_of_line }

def loads : Packet 1 := { theByte with isRead := true }

def stores (v : UInt8) : Packet 1 := { theByte with isWrite := true, data := fun _ => v }

def loadLinked : Packet 1 := { loads with isLLSC := true }

def storeConditional (v : UInt8) : Packet 1 := { stores v with isLLSC := true }

def lockedRead : Packet 1 := { loads with isLockedRMW := true }

def lockedWrite (v : UInt8) : Packet 1 := { stores v with isLockedRMW := true }

/-- What the L2 and the directory do in a run of the protocol. -/
def beneath : Protocol.Label n B → Option (CoresLabel n B)
  | .l1 _ _ => none
  | .l2 l => some (.l2 l)
  | .home l => some (.home l)

/-- A load-linked of the first core, for which the line is fetched. -/
def linking : List (CoresLabel 2 1) :=
  [.makeRequest 0 loadLinked, .l1 0 (.cpu .Load_Linked),
    .l2 (.request 0 (request .GETX (.L1Cache 0)))] ++
  (fetchZeros .GETX).filterMap beneath

theorem callbacks_taken_linking : ∃ g, (cores 2 1 true).Reach (fun _ _ => True) g ∧
    (g.l1Step true 0 (.response (response .DATA .L2Cache))).isSome = true := by
  have h : (((cores 2 1 true).trace (fun _ _ => True) { sys := start fun _ => 0 } linking).any
      fun g => decide (
        (g.core 0).allows (.response (response .DATA .L2Cache) : Stimulus 2 1) = true ∧
        (g.sys.l1Step 0 (.response (response .DATA .L2Cache) (g.store 0))).isSome = true)) =
          true := by
    decide +kernel
  obtain ⟨g, hreach, ha, hs⟩ := Lib.Machine.trace_reaches (cores_start true _) h
  exact ⟨g, hreach, callbacks_taken hreach ha rfl hs⟩

/-- **In order, and once.**  The packets that a core has sent are those that it has been answered
and those that wait, in the order in which they were sent. -/
theorem cores_in_order (h : (cores n B se).Reach (fun _ _ => True) g) (i : Fin n) :
    g.accepted i = (g.answered i).map (·.request.pkt) ++
      (g.core i).m_RequestTable.map SequencerRequest.pkt :=
  (agree_of_reach h).order i

/-- The first core's load-linked, and its store conditional. -/
def linked : List (CoresLabel 2 1) :=
  linking ++ [.l1 0 (.response (response .DATA .L2Cache)), .makeRequest 0 (storeConditional 5),
    .l1 0 (.cpu .ST)]

theorem cores_in_order_linked : ∃ g, (cores 2 1 true).Reach (fun _ _ => True) g ∧
    (g.answered 0).length = 2 ∧
    g.accepted 0 = (g.answered 0).map (·.request.pkt) ++
      (g.core 0).m_RequestTable.map SequencerRequest.pkt := by
  have h : (((cores 2 1 true).trace (fun _ _ => True) { sys := start fun _ => 0 } linked).any
      fun g => decide ((g.answered 0).length = 2)) = true := by decide +kernel
  obtain ⟨g, hreach, hg⟩ := Lib.Machine.trace_reaches (cores_start true _) h
  exact ⟨g, hreach, hg, cores_in_order hreach 0⟩

end

end SttRuby.System
