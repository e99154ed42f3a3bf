import SttRuby.Cache.Index
import SttRuby.Protocol.L1Cache
import SttRuby.Protocol.Stalls
import SttRuby.Lib.Runs

/-!
# Protocol — L1Stalls

An L1 controller with the buffers of its in_ports and the timer of its LL/SC locks, for every
line.  The two caches are taken as one map from addresses to lines; a request for a line that
neither has, and whose set has no room, replaces another line, whichever the replacement policy
chooses; and so does one for a line of the other cache that cannot be replaced for want of a TBE.

Requests of the core, forwarded requests and prefetches are stalled, at the ranks 0, 1 and 3.  The
wake-ups come from the port of the responses, at rank 2, and from the timer, at rank 4.  A prefetch
that is stalled by a locked line is woken up by the timer.  One that has to replace a line in the
middle of a transaction (`Controller.strands`) is not woken up by the response that ends the
transaction, and its note is lost (`prefetch_orphaned`).  In runs without such a prefetch every
stalled message is noted, under a line that is busy, and back in its buffer when the line is
stable again (`stalled_messages_noted`).
-/

namespace SttRuby.Protocol.L1Cache

open Cache (Addr)

/-! ### The controller and its buffers -/

inductive Buffer where
  | mandatoryQueue | requestToL1Cache | responseToL1Cache | optionalQueue
  deriving DecidableEq

/-- The ranks of the in_ports; that of the timer is 4. -/
def Buffer.rank : Buffer → ℕ
  | .mandatoryQueue => 0
  | .requestToL1Cache => 1
  | .responseToL1Cache => 2
  | .optionalQueue => 3

theorem Buffer.rank_injective : Function.Injective Buffer.rank := by
  intro a b h
  cases a <;> cases b <;> first | rfl | cases h

def prefetch_request_type_to_event : RubyRequestType → Event
  | .LD => .PF_Load
  | .IFETCH => .PF_Ifetch
  | .ST | .ATOMIC | .Load_Linked => .PF_Store

inductive Msg (n B : ℕ) where
  | mandatory (t : RubyRequestType)
  | optional (t : RubyRequestType)
  | request (m : RequestMsg n B)
  | response (m : ResponseMsg n B)
  deriving DecidableEq

/-- A message for an address at its port.  `victim` is the line to be replaced if the cache of the
message does not hold the line and its set has no room, `slots` says whether the TBE table has a
free slot, and `store` is what a store that completes does to the block. -/
structure Arrival (n B : ℕ) where
  address : Addr
  msg : Msg n B
  victim : Option Addr := none
  slots : Bool := true
  store : DataBlock B → DataBlock B := id

section

variable {n B : ℕ}

def Msg.buffer : Msg n B → Buffer
  | .mandatory _ => .mandatoryQueue
  | .optional _ => .optionalQueue
  | .request _ => .requestToL1Cache
  | .response _ => .responseToL1Cache

def Arrival.inp (x : Arrival n B) : In n B :=
  match x.msg with
  | .mandatory _ | .optional _ => { store := x.store }
  | .request m => { request := some m, store := x.store }
  | .response m => { response := some m, store := x.store }

/-- What an action does to the buffers. -/
def Action.queueOp : Action → Option (QueueOp Buffer)
  | .k_popMandatoryQueue => some (.pop .mandatoryQueue)
  | .l_popRequestQueue => some (.pop .requestToL1Cache)
  | .o_popIncomingResponseQueue => some (.pop .responseToL1Cache)
  | .pq_popPrefetchQueue => some (.pop .optionalQueue)
  | .z_stallAndWaitMandatoryQueue => some (.stall .mandatoryQueue)
  | .z_stallAndWaitL1RequestQueue => some (.stall .requestToL1Cache)
  | .z_stallAndWaitOptionalQueue => some (.stall .optionalQueue)
  | .kd_wakeUpDependents => some .wake
  | _ => none

/-- An action of a transition at `address`, for the message `m` at the port. -/
def Action.queue (m_cur_in_port : ℕ) (address : Addr) (m : Option (Addr × Msg n B)) (a : Action)
    (q : Queues Buffer (Addr × Msg n B)) : Option (Queues Buffer (Addr × Msg n B)) :=
  a.queueOp.elim (some q) fun op => q.run m_cur_in_port address m op

end

structure Controller (n B : ℕ) where
  lines : Addr → Line B
  queues : Queues Buffer (Addr × Msg n B)

namespace Controller

variable {n B : ℕ} (me : Fin n) (k : Controller n B)

/-- An event at an address, from a port with or without a message. -/
def trigger (m_cur_in_port : ℕ) (m : Option (Addr × Msg n B)) (inp : In n B) (slots : Bool)
    (e : Event) (a : Addr) : Option (Controller n B) :=
  (transition (k.lines a).getState e).bind fun (next, actions) =>
    if .i_allocateTBE ∈ actions ∧ slots = false then some k
    else (Lib.perform (exec me inp) actions { line := k.lines a }).bind fun c =>
      (Lib.perform (Action.queue m_cur_in_port a m) actions k.queues).map fun q =>
        ⟨Function.update k.lines a (c.line.setState next), q⟩

/-- The transition for the event waits for a slot in the TBE table. -/
def lacksSlot (slots : Bool) (e : Event) (a : Addr) : Bool :=
  !slots && (transition (k.lines a).getState e).any fun (_, actions) =>
    actions.contains .i_allocateTBE

/-- The line that the port of a queue replaces, where the event `e` is for the line of the request
itself.  A line that neither cache holds makes room in its set.  So does one that the other cache
holds, if its own event waits for a slot: the port goes on to the next statement.  (Where the set
has room, that is a miss, which waits for the slot too.) -/
def replaced (x : Arrival n B) (t : RubyRequestType) (e : Event) : Option Addr :=
  match (k.lines x.address).entry with
  | none => x.victim
  | some ent =>
      if ent.icache ≠ decide (t = .IFETCH) ∧ k.lacksSlot x.slots e x.address = true then x.victim
      else none

/-- The in_ports: the event a message triggers, with its address. -/
def portIn (x : Arrival n B) : Option (Event × Addr) :=
  match x.msg with
  | .mandatory t =>
      let e := mandatoryEvent (k.lines x.address) t
      match k.replaced x t e with
      | some victim => some (.L1_Replacement, victim)
      | none => some (e, x.address)
  | .optional t =>
      let e := prefetch_request_type_to_event t
      match k.replaced x t e with
      | some victim => some (.PF_L1_Replacement, victim)
      | none => some (e, x.address)
  | .request m => (requestEvent m).map (·, x.address)
  | .response m => (responseEvent (k.lines x.address) m).map (·, x.address)

def serve (x : Arrival n B) : Option (Controller n B) :=
  if (x.address, x.msg) ∈ k.queues.m_prio_heap x.msg.buffer then
    (k.portIn x).bind fun (e, a) =>
      k.trigger me x.msg.buffer.rank (some (x.address, x.msg)) x.inp x.slots e a
  else none

/-- `llscLockTimerTable_in`. -/
def timeout (a : Addr) : Option (Controller n B) :=
  if (k.lines a).llscLock then k.trigger me 4 none {} true .LLSC_Timeout a else none

end Controller

/-- A message arrives, one is served, or the lock of a line times out. -/
inductive Activity (n B : ℕ) where
  | arrive (a : Addr) (m : Msg n B)
  | serve (x : Arrival n B)
  | timeout (a : Addr)

/-- The runs of the controller over any messages, its ports served in any order. -/
def controller {n : ℕ} (me : Fin n) (B : ℕ) : Lib.Machine (Controller n B) (Activity n B) where
  start k := k = ⟨fun _ => {}, {}⟩
  step k
    | .arrive a m => some ⟨k.lines, k.queues.enqueue m.buffer (a, m)⟩
    | .serve x => k.serve me x
    | .timeout a => k.timeout me a

/-! ### The table -/

/-- The states in the middle of a transaction, and those with a lock. -/
def State.busy : State → Bool
  | .NP | .I | .S | .E | .M => false
  | _ => true

/-- The buffer of the message that triggers an event, none for the timer. -/
def Event.buffer : Event → Option Buffer
  | .Load | .Ifetch | .Store | .L1_Replacement | .Load_Linked => some .mandatoryQueue
  | .Inv | .Fwd_GETX | .Fwd_GETS | .Fwd_GET_INSTR => some .requestToL1Cache
  | .Data | .Data_Exclusive | .DataS_fromL1 | .Data_all_Acks | .Ack | .Ack_all | .WB_Ack
  | .LLSC_Data_all_Acks | .LLSC_Ack_all => some .responseToL1Cache
  | .PF_L1_Replacement | .PF_Load | .PF_Ifetch | .PF_Store => some .optionalQueue
  | .LLSC_Timeout => none

/-- The rank of its port. -/
def Event.rank (e : Event) : ℕ := (e.buffer.map Buffer.rank).getD 4

/-- How a transition may handle the buffers: messages are stalled in busy states, prefetches by
replacements only; a wake-up comes from the responses, for a line that is not locked, or from the
timer. -/
def allowed (s : State) (e : Event) : Handling Buffer → Bool
  | .keep => true
  | .stall buf => decide (e.buffer = some buf) && s.busy && decide (buf ≠ .responseToL1Cache) &&
      (decide (buf ≠ .optionalQueue) || decide (e = .PF_L1_Replacement))
  | .pop buf => decide (e.buffer = some buf)
  | .popWake buf => decide (e.buffer = some buf) && decide (buf = .responseToL1Cache) && !s.locked
  | .wake => decide (e.buffer = none)

/-- The actions keep the line present, and the next state is as busy and as locked as this. -/
def staysBusy (s s' : State) (actions : List Action) : Bool :=
  !actions.contains .s_deallocateTBE && !actions.contains .ff_deallocateL1CacheBlock &&
    s'.busy && (!s.locked || s'.locked)

/-- One declared transition: how it handles the buffers, and that without a wake-up it keeps a
busy line busy. -/
def handles (s : State) (e : Event) (s' : State) (actions : List Action) (h : Handling Buffer) :
    Bool :=
  decide (actions.filterMap Action.queueOp = h.ops) && allowed s e h &&
    (h.wakes || !s.busy || staysBusy s s' actions)

def handlings (e : Event) : List (Handling Buffer) :=
  match e.buffer with
  | none => [.keep, .wake]
  | some buf => [.keep, .stall buf, .pop buf, .popWake buf]

def handled (s : State) (e : Event) (s' : State) (actions : List Action) : Bool :=
  (handlings e).any (handles s e s' actions)

theorem table_handled : (table.all fun r => r.states.all fun s => r.events.all fun e =>
    handled s e (r.next.getD s) r.actions) = true := by
  decide +kernel

section

variable {n B : ℕ} {me : Fin n} {st next : State} {e : Event} {actions : List Action}

theorem transition_handles (htr : transition st e = some (next, actions)) :
    ∃ h : Handling Buffer, actions.filterMap Action.queueOp = h.ops ∧ allowed st e h = true ∧
      (h.wakes = false → st.busy = true → staysBusy st next actions = true) := by
  obtain ⟨h, -, hh⟩ := List.any_eq_true.mp (Lib.declared_check table_handled htr)
  rw [handles, Bool.and_eq_true, Bool.and_eq_true, decide_eq_true_eq] at hh
  obtain ⟨⟨hops, hall⟩, hend⟩ := hh
  exact ⟨h, hops, hall, fun hne hst => by simpa [hne, hst] using hend⟩

/-! ### Lines -/

/-- A line with an entry or a TBE. -/
def Line.present (l : Line B) : Bool := l.entry.isSome || l.tbe.isSome

theorem Line.getState_setState (l : Line B) (s : State) :
    (l.setState s).getState = if l.present then s else .NP := by
  obtain ⟨entry, tbe, lock⟩ := l
  cases entry <;> cases tbe <;> rfl

theorem Line.present_of_busy {l : Line B} (h : l.getState.busy = true) : l.present = true := by
  obtain ⟨entry, tbe, lock⟩ := l
  cases entry <;> cases tbe <;> first | rfl | cases h

theorem exec_present {inp : In n B} {a : Action} {c c' : Ctx n B}
    (hs : a ≠ .s_deallocateTBE) (hf : a ≠ .ff_deallocateL1CacheBlock)
    (hp : c.line.present = true) (h : exec me inp a c = some c') : c'.line.present = true := by
  cases a <;> simp only [exec, Option.bind_eq_some_iff, Option.map_eq_some_iff,
    Option.some.injEq, ne_eq, not_true] at h hs hf <;>
  grind [Line.present, Ctx.request, Ctx.respond, Ctx.unblock, Ctx.setEntry, Ctx.setTBE,
    Ctx.setLock]

/-- A line that stays busy is in the next state. -/
theorem perform_staysBusy {inp : In n B} {l : Line B} {c : Ctx n B}
    (hend : staysBusy l.getState next actions = true) (hbusy : l.getState.busy = true)
    (h : Lib.perform (exec me inp) actions { line := l } = some c) :
    (c.line.setState next).getState = next := by
  simp only [staysBusy, Bool.and_eq_true, Bool.not_eq_true', List.contains_eq_mem,
    decide_eq_false_iff_not] at hend
  have hp : c.line.present = true :=
    Lib.perform_induct_mem (P := fun c : Ctx n B => c.line.present = true)
      (fun a ha c c' hc hx => exec_present (fun heq => hend.1.1.1 (heq ▸ ha))
        (fun heq => hend.1.1.2 (heq ▸ ha)) hc hx) (Line.present_of_busy hbusy) h
  rw [Line.getState_setState, if_pos hp]

/-! ### The buffers -/

/-- Messages are stalled under busy lines; responses are not stalled, and prefetches under locked
lines only. -/
structure Controller.Kept (k : Controller n B) : Prop where
  kept : k.queues.Kept Buffer.rank fun a => (k.lines a).getState.busy
  stalls : ∀ buf a, k.queues.m_stall_msg_map buf a ≠ [] → buf ≠ .responseToL1Cache ∧
    (buf = .optionalQueue → (k.lines a).getState.locked = true)

/-- The event is triggered by a message in the heap of its port, or by the timer. -/
def Controller.AtPort (k : Controller n B) (e : Event) (cur : ℕ) (m : Option (Addr × Msg n B)) :
    Prop :=
  match e.buffer with
  | none => cur = 4
  | some buf => cur = buf.rank ∧ ∃ x, m = some x ∧ x ∈ k.queues.m_prio_heap buf

variable {k k' : Controller n B} {a : Addr} {cur : ℕ} {m : Option (Addr × Msg n B)} {inp : In n B}
  {slots : Bool}

/-- The actions of a transition on the buffers: none of their assertions fails. -/
theorem Controller.Kept.perform {h : Handling Buffer} (hk : k.Kept) (hp : k.AtPort e cur m)
    (hops : actions.filterMap Action.queueOp = h.ops)
    (hall : allowed (k.lines a).getState e h = true) :
    ∃ q', Lib.perform (Action.queue cur a m) actions k.queues = some q' ∧
      Queues.Handled Buffer.rank h a k.queues q' := by
  rw [Lib.perform_filterMap (Action.queue cur a m) (Queues.run cur a m) Action.queueOp
    (fun _ _ => rfl), hops]
  refine Queues.perform_run Buffer.rank_injective hk.kept.recorded (fun buf hbuf => ?_)
    fun hw buf hne => ?_
  · have heq : e.buffer = some buf := by
      cases h <;> cases hbuf <;> simp_all [allowed]
    rwa [Controller.AtPort, heq] at hp
  · obtain ⟨hresp, hopt⟩ := hk.stalls buf a hne
    cases h with
    | popWake buf' =>
        -- a response: the line is not locked, so that no prefetch is stalled under it
        simp only [allowed, Bool.and_eq_true, decide_eq_true_eq, Bool.not_eq_true'] at hall
        obtain ⟨⟨he, rfl⟩, hlock⟩ := hall
        rw [Controller.AtPort, he] at hp
        obtain ⟨rfl, -⟩ := hp
        cases buf with
        | mandatoryQueue => decide
        | requestToL1Cache => decide
        | responseToL1Cache => exact absurd rfl hresp
        | optionalQueue => rw [hopt rfl] at hlock; cases hlock
    | wake =>
        rw [Controller.AtPort, of_decide_eq_true hall] at hp
        subst hp
        cases buf <;> decide
    | keep => cases hw
    | stall buf' => cases hw
    | pop buf' => cases hw

/-! ### Runs -/

/-- An event leaves the controller as it is, for want of a TBE, or triggers a transition that
handles the buffers. -/
theorem Controller.trigger_cases (h : k.trigger me cur m inp slots e a = some k') :
    k' = k ∨ ∃ next actions c, transition (k.lines a).getState e = some (next, actions) ∧
      Lib.perform (exec me inp) actions { line := k.lines a } = some c ∧
      k'.lines = Function.update k.lines a (c.line.setState next) ∧
      Lib.perform (Action.queue cur a m) actions k.queues = some k'.queues := by
  obtain ⟨⟨next, actions⟩, htr, h⟩ := Option.bind_eq_some_iff.mp h
  dsimp only at h
  split_ifs at h
  · cases h
    exact .inl rfl
  · obtain ⟨c, hc, h⟩ := Option.bind_eq_some_iff.mp h
    obtain ⟨q, hq, rfl⟩ := Option.map_eq_some_iff.mp h
    exact .inr ⟨next, actions, c, htr, hc, rfl, hq⟩

/-- A step of the controller. -/
structure Controller.Follows (k k' : Controller n B) : Prop where
  kept : k'.Kept
  follows : Queues.Follows Buffer.rank (fun a => (k'.lines a).getState.busy) k.queues k'.queues

theorem Controller.Kept.trigger (hk : k.Kept) (hp : k.AtPort e cur m)
    (hpf : e = .PF_L1_Replacement → (k.lines a).getState.busy = true →
      (k.lines a).getState.locked = true)
    (h : k.trigger me cur m inp slots e a = some k') : k.Follows k' := by
  rcases Controller.trigger_cases h with rfl | ⟨next, actions, c, htr, hc, hlines, hq⟩
  · exact ⟨hk, hk.kept.same rfl rfl⟩
  · obtain ⟨hd, hops, hall, hend⟩ := transition_handles htr
    obtain ⟨q', hq', hhandled⟩ := hk.perform hp hops hall
    obtain rfl : q' = k'.queues := Option.some.inj (hq'.symm.trans hq)
    have hother : ∀ y, y ≠ a → k'.lines y = k.lines y := fun y hy => by
      rw [hlines, Function.update_of_ne hy]
    -- without a wake-up, a busy line is in the next state
    have hnext : hd.wakes = false → (k.lines a).getState.busy = true →
        (k'.lines a).getState = next ∧ staysBusy (k.lines a).getState next actions = true := by
      intro hw hbusy
      rw [hlines, Function.update_self]
      exact ⟨perform_staysBusy (hend hw hbusy) hbusy hc, hend hw hbusy⟩
    have hstall : ∀ buf, hd = .stall buf → (k.lines a).getState.busy = true := by
      rintro buf rfl
      simp only [allowed, Bool.and_eq_true] at hall
      exact hall.1.1.2
    have hf : Queues.Follows Buffer.rank (fun a => (k'.lines a).getState.busy) k.queues
        k'.queues := by
      refine hk.kept.step hhandled (fun y hy => by rw [hother y hy]) (fun hw hbusy => ?_) hstall
      obtain ⟨hst, hstays⟩ := hnext hw hbusy
      rw [hst]
      simp only [staysBusy, Bool.and_eq_true] at hstays
      exact hstays.1.2
    refine ⟨⟨hf.kept, fun buf y hne => ?_⟩, hf⟩
    by_cases hy : y = a
    · subst hy
      obtain ⟨hw, hbefore⟩ := hhandled.stalled buf hne
      have hbusy : (k.lines y).getState.busy = true :=
        hbefore.elim (fun hne => hk.kept.busy buf y hne) (hstall buf)
      have hold : buf ≠ .responseToL1Cache ∧
          (buf = .optionalQueue → (k.lines y).getState.locked = true) := by
        rcases hbefore with hbefore | rfl
        · exact hk.stalls buf y hbefore
        · simp only [allowed, Bool.and_eq_true, Bool.or_eq_true, decide_eq_true_eq] at hall
          refine ⟨hall.1.2, fun hopt => ?_⟩
          exact hpf (hall.2.resolve_left fun hno => hno hopt) hbusy
      obtain ⟨hst, hstays⟩ := hnext hw hbusy
      refine ⟨hold.1, fun hopt => ?_⟩
      simp only [staysBusy, Bool.and_eq_true, hold.2 hopt] at hstays
      rw [hst]
      exact hstays.2
    · rw [hhandled.elsewhere buf y hy] at hne
      rw [hother y hy]
      exact hk.stalls buf y hne

/-- A prefetch is about to replace a line in the middle of a transaction. -/
def Controller.strands (k : Controller n B) : Activity n B → Bool
  | .serve x =>
      match k.portIn x with
      | some (.PF_L1_Replacement, victim) =>
          (k.lines victim).getState.busy && !(k.lines victim).getState.locked
      | _ => false
  | _ => false

theorem mandatoryEvent_buffer (l : Line B) (t : RubyRequestType) :
    (mandatoryEvent l t).buffer = some .mandatoryQueue := by
  unfold mandatoryEvent
  cases t <;> grind [mandatory_request_type_to_event, Event.buffer]

theorem responseEvent_buffer {l : Line B} {m : ResponseMsg n B} (h : responseEvent l m = some e) :
    e.buffer = some .responseToL1Cache := by
  unfold responseEvent at h
  split at h
  · cases h; rfl
  · split_ifs at h
    · cases h; rfl
    · obtain ⟨t, -, rfl⟩ := Option.map_eq_some_iff.mp h
      split_ifs <;> rfl
  · obtain ⟨t, -, rfl⟩ := Option.map_eq_some_iff.mp h
    split_ifs <;> rfl
  · cases h; rfl
  all_goals cases h

/-- The port of an event. -/
theorem Controller.portIn_buffer {x : Arrival n B} (h : k.portIn x = some (e, a)) :
    e.buffer = some x.msg.buffer := by
  unfold Controller.portIn at h
  split at h
  · next t ht =>
      rw [ht]
      dsimp only at h
      split at h <;> cases h
      · rfl
      · exact mandatoryEvent_buffer _ t
  · next t ht =>
      rw [ht]
      dsimp only at h
      split at h <;> cases h
      · rfl
      · cases t <;> rfl
  · next r hr =>
      rw [hr]
      obtain ⟨ev, hev, heq⟩ := Option.map_eq_some_iff.mp h
      cases heq
      grind [requestEvent, Event.buffer, Msg.buffer]
  · next r hr =>
      rw [hr]
      obtain ⟨ev, hev, heq⟩ := Option.map_eq_some_iff.mp h
      cases heq
      exact responseEvent_buffer hev

/-- A message that is served is at its port. -/
theorem Controller.atPort {x : Arrival n B}
    (hm : (x.address, x.msg) ∈ k.queues.m_prio_heap x.msg.buffer)
    (h : k.portIn x = some (e, a)) :
    k.AtPort e x.msg.buffer.rank (some (x.address, x.msg)) := by
  rw [Controller.AtPort, Controller.portIn_buffer h]
  exact ⟨rfl, _, rfl, hm⟩

theorem Controller.Kept.step {y : Activity n B} (hk : k.Kept) (hno : k.strands y = false)
    (h : (controller me B).step k y = some k') : k.Follows k' := by
  cases y with
  | arrive a m =>
      cases h
      have hf : Queues.Follows Buffer.rank (fun a => (k.lines a).getState.busy) k.queues
          (k.queues.enqueue m.buffer (a, m)) := hk.kept.same rfl rfl
      exact ⟨⟨hf.kept, hk.stalls⟩, hf⟩
  | serve x =>
      change k.serve me x = some k' at h
      unfold Controller.serve at h
      split_ifs at h with hm
      obtain ⟨⟨e, a⟩, hport, h⟩ := Option.bind_eq_some_iff.mp h
      refine hk.trigger (Controller.atPort hm hport) ?_ h
      rintro rfl hbusy
      simpa [Controller.strands, hport, hbusy] using hno
  | timeout a =>
      change k.timeout me a = some k' at h
      unfold Controller.timeout at h
      split_ifs at h
      exact hk.trigger (e := .LLSC_Timeout) rfl nofun h

theorem kept_of_reach (h : (controller me B).Reach (fun k y => k.strands y = false) k) :
    k.Kept := by
  refine h.invariant ?_ fun k y k' hk hno hs => (hk.step hno hs).kept
  rintro k rfl
  exact ⟨⟨.init _, fun _ _ hne => absurd rfl hne⟩, fun _ _ hne => absurd rfl hne⟩

/-- An event whose transition the line can make does not fail at the buffers. -/
theorem Controller.Kept.triggers (hk : k.Kept) (hp : k.AtPort e cur m)
    (h : (doTransition me inp e (k.lines a)).isSome = true) :
    (k.trigger me cur m inp slots e a).isSome = true := by
  obtain ⟨c, h⟩ := Option.isSome_iff_exists.mp h
  obtain ⟨⟨next, actions⟩, htr, h⟩ := Option.bind_eq_some_iff.mp h
  obtain ⟨c, hc, -⟩ := Option.map_eq_some_iff.mp h
  obtain ⟨hd, hops, hall, -⟩ := transition_handles htr
  obtain ⟨q', hq', -⟩ := hk.perform hp hops hall
  simp only [Controller.trigger, htr, Option.bind_some]
  split_ifs
  · rfl
  · rw [hc, Option.bind_some, hq']
    rfl

/-- **No orphaned message.**  In every run without a prefetch that has to replace a line in the
middle of a transaction, a message stalled under an address is noted there, at the rank of its
port, and the line of the address is in a transient state or locked.  A step that makes the line
stable puts the message back in its buffer.  No assertion of the buffers fails, and a wake-up
forgets what is noted while it leaves the buffers that do not rank below its port alone. -/
theorem stalled_messages_noted
    (h : (controller me B).Reach (fun k y => k.strands y = false) k) :
    (∀ buf a, k.queues.m_stall_msg_map buf a ≠ [] → (k.lines a).getState.busy = true ∧
      ∃ v, k.queues.m_waiting_buffers a = some v ∧ v buf.rank = some buf) ∧
    (∀ y k' buf a m, k.strands y = false → (controller me B).step k y = some k' →
      m ∈ k.queues.m_stall_msg_map buf a → (k'.lines a).getState.busy = false →
      m ∈ k'.queues.m_prio_heap buf) ∧
    (∀ (x : Arrival n B) (e : Event) (a : Addr),
      (x.address, x.msg) ∈ k.queues.m_prio_heap x.msg.buffer → k.portIn x = some (e, a) →
      (doTransition me x.inp e (k.lines a)).isSome = true → (k.serve me x).isSome = true) ∧
    (∀ a, (k.lines a).llscLock = true →
      (doTransition me {} .LLSC_Timeout (k.lines a)).isSome = true →
      (k.timeout me a).isSome = true) ∧
    ∀ cur a q', k.queues.wakeUpBuffers cur a = some q' → q'.m_waiting_buffers a = none ∧
      ∀ buf : Buffer, cur ≤ buf.rank → q'.m_stall_msg_map buf = k.queues.m_stall_msg_map buf ∧
        q'.m_prio_heap buf = k.queues.m_prio_heap buf := by
  have hk := kept_of_reach h
  refine ⟨fun buf a hne => ⟨hk.kept.busy _ a hne, hk.kept.recorded.noted _ a hne⟩, ?_, ?_, ?_,
    fun cur a q' => Queues.wakeUpBuffers_above hk.kept.recorded⟩
  · intro y k' buf a m hno hs hm hst
    rcases (hk.step hno hs).follows.back _ a (List.ne_nil_of_mem hm) with hbusy | hback
    · rw [hst] at hbusy
      cases hbusy
    · exact hback m hm
  · intro x e a hm hport hx
    rw [Controller.serve, if_pos hm, hport]
    exact hk.triggers (Controller.atPort hm hport) hx
  · intro a hlock hx
    rw [Controller.timeout, if_pos hlock]
    exact hk.triggers rfl hx

end

/-- A load of the line at address 0, and a store to it while it is fetched. -/
def loadThenStore : List (Activity 1 1) :=
  [.arrive 0 (.mandatory .LD), .serve { address := 0, msg := .mandatory .LD },
    .arrive 0 (.mandatory .ST), .serve { address := 0, msg := .mandatory .ST }]

/-- The store waits for the load. -/
theorem stalled_messages_noted_store : ∃ k,
    (controller (0 : Fin 1) 1).Reach (fun k y => k.strands y = false) k ∧
    k.queues.m_stall_msg_map .mandatoryQueue 0 ≠ [] ∧ (k.lines 0).getState.busy = true ∧
    ∃ v, k.queues.m_waiting_buffers 0 = some v ∧
      v Buffer.mandatoryQueue.rank = some .mandatoryQueue := by
  obtain ⟨k, hk, hst⟩ := Lib.Machine.trace_reaches (M := controller (0 : Fin 1) 1)
    (G := fun k y => k.strands y = false) (l := loadThenStore)
    (P := fun k => k.queues.m_stall_msg_map .mandatoryQueue 0 ≠ []) rfl (by decide +kernel)
  exact ⟨k, hk, hst, (stalled_messages_noted hk).1 _ 0 hst⟩

/-- A load of the line at address 0, a prefetch of another line of its set that has to replace it,
and the data for the load. -/
def loadThenPrefetch : List (Activity 1 1) :=
  let data : Msg 1 1 := .response { type := .DATA, Sender := .L2Cache }
  [.arrive 0 (.mandatory .LD), .serve { address := 0, msg := .mandatory .LD },
    .arrive 256 (.optional .LD), .serve { address := 256, msg := .optional .LD, victim := some 0 },
    .arrive 0 data, .serve { address := 0, msg := data }]

/-- A one-way cache that holds the line at address 0. -/
def heldLine : List (Cache.Tick × Cache.Op Unit) :=
  [(1, .allocate 0 ()), (2, .changePermission 0 .Busy)]

/-- **An orphaned prefetch.**  The prefetch is stalled under the line it has to replace, at rank 3.
The data for the load ends the transaction from the port of rank 2: the note of the prefetch is
gone, and the prefetch stays in the stall map of its queue under a line that is stable.  In a
one-way cache the line at address 0 is the one to be replaced for address 256, also while it is
fetched. -/
theorem prefetch_orphaned :
    (∃ k, (controller (0 : Fin 1) 1).Reach (fun _ _ => True) k ∧
      k.queues.m_stall_msg_map .optionalQueue 0 = [(256, .optional .LD)] ∧
      k.queues.m_waiting_buffers 0 = none ∧ (k.lines 0).getState = .S) ∧
    ∃ s : Cache.CacheMemory Unit Unit,
      (Cache.calls Cache.fourSets Cache.firstWay ()).Reach (fun _ _ => True) s ∧
      s.cacheAvail Cache.fourSets 256 = false ∧
      s.cacheProbe Cache.fourSets Cache.firstWay 3 256 = some 0 := by
  constructor
  · obtain ⟨k, hk, hst, hnote, hline⟩ := Lib.Machine.trace_reaches
      (M := controller (0 : Fin 1) 1) (G := fun _ _ => True) (l := loadThenPrefetch)
      (P := fun k => k.queues.m_stall_msg_map .optionalQueue 0 = [(256, .optional .LD)] ∧
        (k.queues.m_waiting_buffers 0).isNone ∧ (k.lines 0).getState = .S) rfl (by decide +kernel)
    exact ⟨k, hk, hst, Option.isNone_iff_eq_none.mp hnote, hline⟩
  · exact Lib.Machine.trace_reaches (M := Cache.calls Cache.fourSets Cache.firstWay ())
      (G := fun _ _ => True) (l := heldLine)
      (P := fun s : Cache.CacheMemory Unit Unit => s.cacheAvail Cache.fourSets 256 = false ∧
        s.cacheProbe Cache.fourSets Cache.firstWay 3 256 = some 0) rfl (by decide +kernel)

end SttRuby.Protocol.L1Cache
