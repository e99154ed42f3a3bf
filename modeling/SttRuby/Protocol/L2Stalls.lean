import SttRuby.Protocol.Representation
import SttRuby.Protocol.Stalls

/-!
# Protocol — L2Stalls

The L2 controller with the buffers of its in_ports: messages arrive at any time, the ports are
served in any order, and a request that finds its line, or the victim it has to replace, in the
middle of a transaction is stalled under the address of that line.

The table is checked for what its transitions do to the buffers (`table_handled`): a request is
stalled in a transient state only, by a transition that leaves the state as it is; a wake-up
comes from the ports of the responses and the unblocks, which rank above that of the requests; and
every transition from a transient state to another has one, or ends in a transient state.  A
stalled request is therefore always noted, under a line in a transient state, and back in its
buffer when the line is stable again (`stalled_requests_noted`).
-/

namespace SttRuby.Protocol.L2Cache

open Cache CacheMemory

/-! ### The controller and its buffers -/

/-- The buffers of the in_ports. -/
inductive Buffer where
  | L1RequestToL2Cache | responseToL2Cache | unblockToL2Cache
  deriving DecidableEq

/-- The ranks of the in_ports. -/
def Buffer.rank : Buffer → ℕ
  | .unblockToL2Cache => 2
  | .responseToL2Cache => 1
  | .L1RequestToL2Cache => 0

theorem Buffer.rank_injective : Function.Injective Buffer.rank := by
  intro a b h
  cases a <;> cases b <;> first | rfl | cases h

deriving instance DecidableEq for Port

section

variable {n B : ℕ}

def Port.buffer : Port n B → Buffer
  | .request _ => .L1RequestToL2Cache
  | .response _ => .responseToL2Cache
  | .unblock _ => .unblockToL2Cache

/-- A message with its address. -/
abbrev Msg (n B : ℕ) := Addr × Port n B

/-- What an action does to the buffers.  A recycled message stays in its heap, for a later
time. -/
def Action.queueOp : Action → Option (QueueOp Buffer)
  | .jj_popL1RequestQueue => some (.pop .L1RequestToL2Cache)
  | .o_popIncomingResponseQueue => some (.pop .responseToL2Cache)
  | .k_popUnblockQueue => some (.pop .unblockToL2Cache)
  | .zz_stallAndWaitL1RequestQueue => some (.stall .L1RequestToL2Cache)
  | .kd_wakeUpDependents => some .wake
  | _ => none

/-- An action of a transition at `address`, for the message `m` at the port. -/
def Action.queue (address : Addr) (m : Msg n B) (a : Action) (q : Queues Buffer (Msg n B)) :
    Option (Queues Buffer (Msg n B)) :=
  a.queueOp.elim (some q) fun op => q.run m.2.buffer.rank address (some m) op

end

structure Controller (n B : ℕ) (ρ : Type) where
  bank : Bank n B ρ
  queues : Queues Buffer (Msg n B)

section

variable {n B : ℕ} {ρ : Type} (p : Params) (rp : ReplacementPolicy ρ)

/-- A message in the heap of a port is served. -/
def Controller.serve (k : Controller n B ρ) (x : Arrival n B) : Option (Controller n B ρ) :=
  let m := (x.address, x.port)
  if m ∈ k.queues.m_prio_heap x.port.buffer then
    (k.bank.portIn p rp x).bind fun (b, triggered) =>
      match triggered with
      | none => some ⟨b, k.queues⟩
      | some (e, a) =>
          (b.doTransition p rp x.now x.slots x.port.inp e a).bind fun (b', done) =>
            match done, transition (b.line a).getState e with
            | some _, some (_, actions) =>
                (Lib.perform (Action.queue a m) actions k.queues).map fun q => ⟨b', q⟩
            | _, _ => some ⟨b', k.queues⟩
  else none

/-- A message arrives, or one is served. -/
inductive Activity (n B : ℕ) where
  | arrive (a : Addr) (port : Port n B)
  | serve (x : Arrival n B)

/-- The runs of the controller over any messages, its ports served in any order. -/
def controller (n B : ℕ) (r : ρ) : Lib.Machine (Controller n B ρ) (Activity n B) where
  start k := k = ⟨⟨CacheMemory.init p r, fun _ => none⟩, {}⟩
  step k
    | .arrive a port => some ⟨k.bank, k.queues.enqueue port.buffer (a, port)⟩
    | .serve x => k.serve p rp x

end

/-! ### The table -/

/-- The states in the middle of a transaction. -/
def State.transient : State → Bool
  | .NP | .SS | .M | .MT => false
  | _ => true

/-- The buffer of the message that triggers an event; requests replace lines. -/
def Event.buffer (e : Event) : Buffer :=
  match e.source with
  | some .response => .responseToL2Cache
  | some .unblock => .unblockToL2Cache
  | some .request | none => .L1RequestToL2Cache

/-- How a transition may handle the buffers: requests are stalled, in transient states, and
wake-ups come from other ports. -/
def allowed (s : State) (buf : Buffer) : Handling Buffer → Bool
  | .keep => true
  | .stall buf' => decide (buf' = buf) && s.transient && decide (buf = .L1RequestToL2Cache)
  | .pop buf' => decide (buf' = buf)
  | .popWake buf' => decide (buf' = buf) && decide (buf ≠ .L1RequestToL2Cache)
  | .wake => false

/-- The actions lead to a transient state, from each way the line can be present. -/
def endsTransient (s' : State) (actions : List Action) : Bool :=
  !actions.contains .qq_allocateL2CacheBlock &&
  decide (∀ entry tbe : Bool, (entry || tbe) = true →
    ∀ x ∈ Lib.perform Action.effect actions { entry := entry, tbe := tbe },
      (if x.entry || x.tbe then s' else .NP).transient = true)

/-- One declared transition: how it handles the buffers, and that without a wake-up it stays in
the transient states. -/
def handles (s : State) (e : Event) (s' : State) (actions : List Action) (h : Handling Buffer) :
    Bool :=
  decide (actions.filterMap Action.queueOp = h.ops) && allowed s e.buffer h &&
    (h.wakes || !s.transient || endsTransient s' actions)

def handled (s : State) (e : Event) (s' : State) (actions : List Action) : Bool :=
  [.keep, .stall e.buffer, .pop e.buffer, .popWake e.buffer].any (handles s e s' actions)

theorem table_handled : (table.all fun r => r.states.all fun s => r.events.all fun e =>
    handled s e (r.next.getD s) r.actions) = true := by
  decide +kernel

section

variable {n B : ℕ} {ρ : Type} {p : Params} {rp : ReplacementPolicy ρ} {st next : State} {e : Event}
  {actions : List Action}

theorem transition_handles (htr : transition st e = some (next, actions)) :
    ∃ h : Handling Buffer, actions.filterMap Action.queueOp = h.ops ∧
      allowed st e.buffer h = true ∧
      (h.wakes = false → st.transient = true → endsTransient next actions = true) := by
  obtain ⟨h, -, hh⟩ := List.any_eq_true.mp (Lib.declared_check table_handled htr)
  rw [handles, Bool.and_eq_true, Bool.and_eq_true, decide_eq_true_eq] at hh
  obtain ⟨⟨hops, hall⟩, hend⟩ := hh
  exact ⟨h, hops, hall, fun hne hst => by simpa [hne, hst] using hend⟩

/-- A transition without a wake-up leaves a transient line transient. -/
theorem Bank.doTransition_transient {b b' : Bank n B ρ} {a : Addr} {now : Tick} {slots : Bool}
    {inp : In n B} {k : Ctx n B} (htr : transition (b.line a).getState e = some (next, actions))
    (hst : (b.line a).getState.transient = true) (hend : endsTransient next actions = true)
    (h : b.doTransition p rp now slots inp e a = some (b', some k)) :
    (b'.line a).getState.transient = true := by
  rw [endsTransient, Bool.and_eq_true, decide_eq_true_eq] at hend
  have hno : .qq_allocateL2CacheBlock ∉ actions := by simpa using hend.1
  obtain ⟨hperf, hline⟩ := Bank.doTransition_line htr (fun hal => absurd hal hno) h
  have heff := Lib.perform_map (x := L2Cache.exec inp) (f := Ctx.effect)
    (fun _ _ _ => exec_effect) hperf
  have hpres : ((b.line a).entry.isSome || (b.line a).tbe.isSome) = true := by
    have := (b.line a).present
    rw [Bool.or_eq_true] at this
    rcases this with hp | hnp
    · exact hp
    · rw [of_decide_eq_true hnp] at hst
      cases hst
  rw [hline, Line.getState_setState]
  exact hend.2 _ _ hpres _ heff

/-- The port of an event. -/
theorem Bank.portIn_buffer {b b' : Bank n B ρ} {x : Arrival n B} {a : Addr}
    (h : b.portIn p rp x = some (b', some (e, a))) : e.buffer = x.port.buffer := by
  unfold Bank.portIn at h
  cases hport : x.port with
  | request m =>
      rw [hport] at h
      rcases (Bank.requestIn_event h).2 with hno | ⟨hsrc, -⟩
      · rw [Event.buffer, hno]; rfl
      · rw [Event.buffer, hsrc]; rfl
  | response m =>
      rw [hport] at h
      simp only [Bank.responseIn] at h
      split at h
      · cases h
      · obtain ⟨ev, hev, h⟩ := Option.map_eq_some_iff.mp h
        cases h
        rw [Event.buffer, response_event_source hev]; rfl
  | unblock m =>
      rw [hport] at h
      obtain ⟨ev, hev, h⟩ := Option.map_eq_some_iff.mp h
      cases h
      rw [Event.buffer, unblock_event_source hev]; rfl

/-! ### The buffers -/

/-- Requests only are stalled, and under lines in transient states. -/
structure Controller.Kept (k : Controller n B ρ) : Prop where
  kept : k.queues.Kept Buffer.rank fun a => (k.bank.line a).getState.transient
  requests : ∀ buf a, k.queues.m_stall_msg_map buf a ≠ [] → buf = .L1RequestToL2Cache

variable {k k' : Controller n B ρ} {x : Arrival n B} {a : Addr}

/-- The actions of a transition on the buffers: none of their assertions fails. -/
theorem Controller.Kept.perform {h : Handling Buffer} (hk : k.Kept)
    (hm : (x.address, x.port) ∈ k.queues.m_prio_heap x.port.buffer)
    (hops : actions.filterMap Action.queueOp = h.ops) (hall : allowed st x.port.buffer h = true) :
    ∃ q', Lib.perform (Action.queue a (x.address, x.port)) actions k.queues = some q' ∧
      Queues.Handled Buffer.rank h a k.queues q' := by
  rw [Lib.perform_filterMap (Action.queue a (x.address, x.port))
    (Queues.run x.port.buffer.rank a (some (x.address, x.port))) Action.queueOp
    (fun _ _ => rfl), hops]
  refine Queues.perform_run Buffer.rank_injective hk.kept.recorded (fun buf hbuf => ?_)
    fun hw buf hne => ?_
  · have heq : buf = x.port.buffer := by
      cases h <;> cases hbuf <;> simp_all [allowed]
    subst heq
    exact ⟨rfl, _, rfl, hm⟩
  · -- requests only are stalled, and a wake-up is not from their port
    rw [hk.requests buf a hne]
    cases h with
    | popWake buf' =>
        simp only [allowed, Bool.and_eq_true, decide_eq_true_eq] at hall
        cases hb : x.port.buffer with
        | L1RequestToL2Cache => exact absurd hb hall.2
        | responseToL2Cache => decide
        | unblockToL2Cache => decide
    | wake => cases hall
    | keep => cases hw
    | stall buf' => cases hw
    | pop buf' => cases hw

/-! ### Runs -/

/-- A message that is served triggers nothing and stays, or triggers a transition that handles the
buffers. -/
theorem Controller.serve_cases (h : k.serve p rp x = some k') :
    (k'.bank.line = k.bank.line ∧ k'.queues = k.queues) ∨
    ∃ b e a next actions c, k.bank.portIn p rp x = some (b, some (e, a)) ∧
      (x.address, x.port) ∈ k.queues.m_prio_heap x.port.buffer ∧
      transition (b.line a).getState e = some (next, actions) ∧
      b.doTransition p rp x.now x.slots x.port.inp e a = some (k'.bank, some c) ∧
      Lib.perform (Action.queue a (x.address, x.port)) actions k.queues = some k'.queues := by
  simp only [Controller.serve] at h
  split_ifs at h with hm
  obtain ⟨⟨b, t⟩, hport, h⟩ := Option.bind_eq_some_iff.mp h
  cases t with
  | none =>
      cases h
      exact .inl ⟨Bank.portIn_line hport, rfl⟩
  | some t =>
      obtain ⟨e, a⟩ := t
      obtain ⟨⟨b', done⟩, hb, h⟩ := Option.bind_eq_some_iff.mp h
      cases done with
      | none =>
          cases h
          exact .inl ⟨by rw [Bank.doTransition_stall hb]; exact Bank.portIn_line hport, rfl⟩
      | some c =>
          cases htr : transition (b.line a).getState e with
          | none => simp [Bank.doTransition, htr] at hb
          | some t =>
              obtain ⟨next, actions⟩ := t
              rw [htr] at h
              obtain ⟨q, hq, rfl⟩ := Option.map_eq_some_iff.mp h
              exact .inr ⟨b, e, a, next, actions, c, hport, hm, htr, hb, hq⟩

/-- A step of the controller. -/
structure Controller.Follows (k k' : Controller n B ρ) : Prop where
  kept : k'.Kept
  follows : Queues.Follows Buffer.rank (fun a => (k'.bank.line a).getState.transient)
    k.queues k'.queues

theorem Controller.Kept.serve (hk : k.Kept) (h : k.serve p rp x = some k') : k.Follows k' := by
  rcases Controller.serve_cases h with ⟨hline, hqueues⟩ |
      ⟨b, e, a, next, actions, c, hport, hm, htr, hb, hq⟩
  · have hf : Queues.Follows Buffer.rank (fun a => (k'.bank.line a).getState.transient) k.queues
        k'.queues := by
      rw [hline, hqueues]
      exact hk.kept.same rfl rfl
    exact ⟨⟨hf.kept, by rw [hqueues]; exact hk.requests⟩, hf⟩
  · have hline := Bank.portIn_line hport
    obtain ⟨hd, hops, hall, hend⟩ := transition_handles htr
    rw [Bank.portIn_buffer hport] at hall
    obtain ⟨q', hq', hhandled⟩ := hk.perform (a := a) hm hops hall
    obtain rfl : q' = k'.queues := Option.some.inj (hq'.symm.trans hq)
    have hf : Queues.Follows Buffer.rank (fun a => (k'.bank.line a).getState.transient) k.queues
        k'.queues := by
      refine hk.kept.step hhandled (fun y hy => ?_) (fun hw hst => ?_) fun buf hst => ?_
      · rw [Bank.doTransition_line_of_ne hb hy, hline]
      · rw [← hline] at hst
        exact Bank.doTransition_transient htr hst (hend hw hst) hb
      · subst hst
        simp only [allowed, Bool.and_eq_true] at hall
        rw [← hline]
        exact hall.1.2
    refine ⟨⟨hf.kept, fun buf y hne => ?_⟩, hf⟩
    by_cases hy : y = a
    · subst hy
      rcases (hhandled.stalled buf hne).2 with hbefore | rfl
      · exact hk.requests buf y hbefore
      · simp only [allowed, Bool.and_eq_true, decide_eq_true_eq] at hall
        exact hall.1.1.trans hall.2
    · rw [hhandled.elsewhere buf y hy] at hne
      exact hk.requests buf y hne

theorem Controller.Kept.step {r : ρ} {y : Activity n B} (hk : k.Kept)
    (h : (controller p rp n B r).step k y = some k') : k.Follows k' := by
  cases y with
  | arrive a port =>
      cases h
      have hf : Queues.Follows Buffer.rank (fun a => (k.bank.line a).getState.transient) k.queues
          (k.queues.enqueue port.buffer (a, port)) := hk.kept.same rfl rfl
      exact ⟨⟨hf.kept, hk.requests⟩, hf⟩
  | serve x => exact hk.serve h

theorem kept_of_reach {r : ρ} (h : (controller p rp n B r).Reach (fun _ _ => True) k) : k.Kept := by
  refine h.invariant ?_ fun k y k' hk _ hs => (hk.step hs).kept
  rintro k rfl
  exact ⟨⟨.init _, fun _ _ hne => absurd rfl hne⟩, fun _ _ hne => absurd rfl hne⟩

/-- A message that the bank can process can be served: no assertion of the buffers fails. -/
theorem Controller.Kept.serves (hk : k.Kept)
    (hm : (x.address, x.port) ∈ k.queues.m_prio_heap x.port.buffer)
    (h : (k.bank.process p rp x).isSome = true) : (k.serve p rp x).isSome = true := by
  obtain ⟨⟨b', o⟩, h⟩ := Option.isSome_iff_exists.mp h
  obtain ⟨⟨b, t⟩, hport, h⟩ := Option.bind_eq_some_iff.mp h
  simp only [Controller.serve, if_pos hm, hport, Option.bind_some]
  cases t with
  | none => rfl
  | some t =>
      obtain ⟨e, a⟩ := t
      dsimp only at h ⊢
      rw [h, Option.bind_some]
      cases o with
      | none => rfl
      | some c =>
          cases htr : L2Cache.transition (b.line a).getState e with
          | none => rfl
          | some t =>
              obtain ⟨next, actions⟩ := t
              obtain ⟨hd, hops, hall, -⟩ := transition_handles htr
              rw [Bank.portIn_buffer hport] at hall
              obtain ⟨q', hq', -⟩ := hk.perform (a := a) hm hops hall
              simp [hq']

/-- **No orphaned request.**  In every run of the controller, a request stalled under an address is
noted there, at the rank of its port, and the line of the address is in a transient state.  A step
that makes the line stable puts the request back in its buffer.  No assertion of the buffers
fails, and a wake-up forgets what is noted while it leaves the buffers that do not rank below
its port alone. -/
theorem stalled_requests_noted {r : ρ}
    (h : (controller p rp n B r).Reach (fun _ _ => True) k) :
    (∀ a, k.queues.m_stall_msg_map .L1RequestToL2Cache a ≠ [] →
      (k.bank.line a).getState.transient = true ∧
      ∃ v, k.queues.m_waiting_buffers a = some v ∧
        v Buffer.L1RequestToL2Cache.rank = some .L1RequestToL2Cache) ∧
    (∀ y k' a m, (controller p rp n B r).step k y = some k' →
      m ∈ k.queues.m_stall_msg_map .L1RequestToL2Cache a →
      (k'.bank.line a).getState.transient = false →
      m ∈ k'.queues.m_prio_heap .L1RequestToL2Cache) ∧
    (∀ x : Arrival n B, (x.address, x.port) ∈ k.queues.m_prio_heap x.port.buffer →
      (k.bank.process p rp x).isSome = true → (k.serve p rp x).isSome = true) ∧
    ∀ cur a q', k.queues.wakeUpBuffers cur a = some q' → q'.m_waiting_buffers a = none ∧
      ∀ buf : Buffer, cur ≤ buf.rank → q'.m_stall_msg_map buf = k.queues.m_stall_msg_map buf ∧
        q'.m_prio_heap buf = k.queues.m_prio_heap buf := by
  have hk := kept_of_reach h
  refine ⟨fun a hne => ⟨hk.kept.busy _ a hne, hk.kept.recorded.noted _ a hne⟩, ?_,
    fun x hm hx => hk.serves hm hx, fun cur a q' => Queues.wakeUpBuffers_above hk.kept.recorded⟩
  intro y k' a m hs hm hst
  rcases (hk.step hs).follows.back _ a (List.ne_nil_of_mem hm) with htransient | hback
  · rw [hst] at htransient
    cases htransient
  · exact hback m hm

end

/-- A load of the line at address 0, and a store by another L1 while it is fetched. -/
def loadThenStore : List (Activity 2 1) :=
  let load : Port 2 1 := .request { type := .GETS, Requestor := .L1Cache 0 }
  let store : Port 2 1 := .request { type := .GETX, Requestor := .L1Cache 1 }
  [.arrive 0 load, .serve { now := 1, address := 0, port := load },
    .arrive 0 store, .serve { now := 10, address := 0, port := store }]

/-- The store waits for the fetch. -/
theorem stalled_requests_noted_store : ∃ k,
    (controller fourSets firstWay 2 1 ()).Reach (fun _ _ => True) k ∧
    k.queues.m_stall_msg_map .L1RequestToL2Cache 0 ≠ [] ∧
    (k.bank.line 0).getState.transient = true ∧ ∃ v, k.queues.m_waiting_buffers 0 = some v ∧
      v Buffer.L1RequestToL2Cache.rank = some .L1RequestToL2Cache := by
  obtain ⟨k, hk, hne⟩ := Lib.Machine.trace_reaches (M := controller fourSets firstWay 2 1 ())
    (G := fun _ _ => True) (l := loadThenStore)
    (P := fun k => k.queues.m_stall_msg_map .L1RequestToL2Cache 0 ≠ []) rfl (by decide +kernel)
  exact ⟨k, hk, hne, (stalled_requests_noted hk).1 0 hne⟩

end SttRuby.Protocol.L2Cache
