import SttRuby.Cache.Frame
import SttRuby.Protocol.L1Stalls

/-!
# Protocol — L1Caches

An L1 controller over its two arrays, `L1Icache` and `L1Dcache`, which share one transition table
and one TBE table.  A transition is triggered with a pointer to an entry of one of them, or with a
null pointer while the other may hold the line.

A trigger that finds no free TBE or no slot in an output buffer does nothing, and the in_port goes
on to its next trigger.  So a request for a line that the other cache holds may reach the trigger
that allocates the line, without the replacement before it.  What keeps the line out of both caches
is that the two need the same resources (`Short`): the replacement of the other cache's line stalls
for want of a TBE or of a request slot only, and every transition that allocates needs one of each.

* `Exclusive.doTransition`: what one transition keeps, if no other cache holds the line it
  allocates;
* `Exclusive.serve`: every in_port, whatever its triggers find;
* `l1_caches_exclusive`: no line is ever in both caches, and the assertion of `getState` and
  `setState` never fails.
-/

namespace SttRuby.Protocol.L1Cache

open Cache

/-! ### The two arrays -/

inductive CacheName where
  | L1Icache | L1Dcache
  deriving DecidableEq

def CacheName.other : CacheName → CacheName
  | .L1Icache => .L1Dcache
  | .L1Dcache => .L1Icache

/-- The cache of a request. -/
def RubyRequestType.cache (t : RubyRequestType) : CacheName :=
  if t = .IFETCH then .L1Icache else .L1Dcache

/-- `L1Cache_State_to_permission`. -/
def State.permission : State → AccessPermission
  | .NP | .I => .Invalid
  | .S | .E | .SM | .LLSC_E => .Read_Only
  | .M | .LLSC_M => .Read_Write
  | .IS | .IM | .IS_I | .M_I | .SINK_WB_ACK | .PF_IS | .PF_IM | .PF_SM | .PF_IS_I => .Busy

/-- A way of one of the caches. -/
abbrev Slot := CacheName × ℕ × ℕ

/-- The controller: its caches, its TBEs and the timers of its locks. -/
structure Caches (B : ℕ) (ρ : Type) where
  caches : CacheName → CacheMemory (Entry B) ρ
  TBEs : Addr → Option (TBE B)
  llscLockTimerTable : Addr → Bool

/-- The line has a tag in both caches. -/
def both {B : ℕ} {ρ : Type} (caches : CacheName → CacheMemory (Entry B) ρ) (a : Addr) : Bool :=
  (caches .L1Dcache).isTagPresent a && (caches .L1Icache).isTagPresent a

/-! ### Resources -/

/-- Slots of the TBE table and of the output buffers. -/
structure Resources where
  TBEs : ℕ
  requestL1Network_out : ℕ
  responseL1Network_out : ℕ
  unblockNetwork_out : ℕ

/-- The slots an action takes: `check_allocate(TBEs)` and each `enqueue`. -/
def Action.resources : Action → Resources
  | .i_allocateTBE => ⟨1, 0, 0, 0⟩
  | .a_issueGETS | .pa_issuePfGETS | .ai_issueGETINSTR | .pai_issuePfGETINSTR | .b_issueGETX
  | .pb_issuePfGETX | .c_issueUPGRADE | .g_issuePUTX => ⟨0, 1, 0, 0⟩
  | .d_sendDataToRequestor | .d2_sendDataToL2 | .dt_sendDataToRequestor_fromTBE
  | .d2t_sendDataToL2_fromTBE | .f_sendDataToL2 | .ft_sendDataToL2_fromTBE | .fi_sendInvAck =>
      ⟨0, 0, 1, 0⟩
  | .j_sendUnblock | .jj_sendExclusiveUnblock => ⟨0, 0, 0, 1⟩
  | _ => ⟨0, 0, 0, 0⟩

/-- The slots a transition needs: those of its actions together. -/
def needs (actions : List Action) : Resources where
  TBEs := (actions.map (·.resources.TBEs)).sum
  requestL1Network_out := (actions.map (·.resources.requestL1Network_out)).sum
  responseL1Network_out := (actions.map (·.resources.responseL1Network_out)).sum
  unblockNetwork_out := (actions.map (·.resources.unblockNetwork_out)).sum

/-- The free slots are enough, each kind by itself. -/
def Resources.areNSlotsAvailable (free n : Resources) : Bool :=
  decide (n.TBEs ≤ free.TBEs) && decide (n.requestL1Network_out ≤ free.requestL1Network_out) &&
    decide (n.responseL1Network_out ≤ free.responseL1Network_out) &&
    decide (n.unblockNetwork_out ≤ free.unblockNetwork_out)

/-! ### Transitions -/

/-- What a trigger, or an in_port, comes to. -/
inductive Outcome (σ : Type) where
  /-- A valid transition. -/
  | done (s : σ)
  /-- No transition: a resource stall, or a message that is delayed. -/
  | stalled (s : σ)
  /-- No declared transition. -/
  | invalid
  /-- An assertion or a null pointer in an action or in the port. -/
  | failed
  /-- The assertion of `getState` and `setState`. -/
  | doubled

/-- The next statement of the in_port, unless the trigger before it was a valid transition. -/
def Outcome.fallThrough {σ : Type} : Outcome σ → (σ → Outcome σ) → Outcome σ
  | .stalled s, next => next s
  | o, _ => o

/-- The controller afterwards, if it goes on. -/
def Outcome.after {σ : Type} : Outcome σ → Option σ
  | .done s | .stalled s => some s
  | .invalid | .failed | .doubled => none

/-- A transition under way at an address; `cache_entry` is where the controller's pointer to the
entry points. -/
structure CachesCtx (n B : ℕ) (ρ : Type) where
  caches : CacheName → CacheMemory (Entry B) ρ
  cache_entry : Option Slot
  ctx : Ctx n B

/-- The cache in which an action allocates. -/
def Action.allocates : Action → Option CacheName
  | .oo_allocateL1DCacheBlock => some .L1Dcache
  | .pp_allocateL1ICacheBlock => some .L1Icache
  | _ => none

/-- The cache whose `setMRU` an action calls on the entry. -/
def Action.setsMRU : Action → Option CacheName
  | .h_load_hit | .hh_store_hit => some .L1Dcache
  | .h_ifetch_hit => some .L1Icache
  | _ => none

section

variable {n B : ℕ} {ρ : Type}

/-- An update of one way of one of the caches. -/
def modifySlot (caches : CacheName → CacheMemory (Entry B) ρ) (slot : Slot)
    (f : AbstractCacheEntry (Entry B) → AbstractCacheEntry (Entry B)) :
    CacheName → CacheMemory (Entry B) ρ :=
  Function.update caches slot.1 ((caches slot.1).modify slot.2.1 slot.2.2 f)

/-- The fields of the `.sm` file in the entry that a pointer points to. -/
def pointedEntry (caches : CacheName → CacheMemory (Entry B) ρ) (cache_entry : Option Slot) :
    Option (Entry B) :=
  cache_entry.bind fun (w, i, j) => ((caches w).m_cache i j).map (·.ext)

variable (me : Fin n) (p : CacheName → Params) (rp : CacheName → ReplacementPolicy ρ)

namespace CachesCtx

variable (c : CachesCtx n B ρ)

/-- Writes the fields of the entry through the pointer. -/
def write (x : Option (Entry B)) : CachesCtx n B ρ :=
  match x, c.cache_entry with
  | some x, some slot => { c with caches := modifySlot c.caches slot fun e => { e with ext := x } }
  | _, _ => c

/-- `setMRU(cache_entry)` of the cache `w`: its policy touches the replacement data of the entry,
whichever cache the entry is in. -/
def setMRU (now : Tick) (w : CacheName) : CachesCtx n B ρ :=
  match c.cache_entry with
  | some (v, i, j) =>
      { c with caches := Function.update c.caches v ((c.caches v).touch (rp w) now i j) }
  | none => c

/-- `set_cache_entry(allocate(address, new Entry))` in the cache `w`, if the pointer is null. -/
def allocate (now : Tick) (address : Addr) (w : CacheName) : Option (CachesCtx n B ρ) :=
  if c.cache_entry.isSome then some c
  else ((c.caches w).allocate (p w) (rp w) now address
      { icache := decide (w = .L1Icache) }).map fun s =>
    let caches := Function.update c.caches w s
    let slot := (CacheMemory.allocatedWay (p w) (c.caches w) address).map (w, ·)
    ⟨caches, slot, c.ctx.setEntry (pointedEntry caches slot)⟩

end CachesCtx

/-- An action with its calls on the caches. -/
def Caches.exec (now : Tick) (address : Addr) (inp : In n B) (a : Action) (c : CachesCtx n B ρ) :
    Option (CachesCtx n B ρ) :=
  match a with
  | .oo_allocateL1DCacheBlock => c.allocate p rp now address .L1Dcache
  | .pp_allocateL1ICacheBlock => c.allocate p rp now address .L1Icache
  | .ff_deallocateL1CacheBlock =>
      some ⟨fun w => (c.caches w).deallocate (rp w) address, none, c.ctx.setEntry none⟩
  | a => (L1Cache.exec me inp a c.ctx).map fun ctx =>
      let c' := CachesCtx.write ⟨c.caches, c.cache_entry, ctx⟩ ctx.line.entry
      a.setsMRU.elim c' (c'.setMRU rp now)

namespace Caches

variable (k : Caches B ρ)

/-- What a transition with the pointer `cache_entry` sees of the line. -/
def line (cache_entry : Option Slot) (address : Addr) : Line B where
  entry := pointedEntry k.caches cache_entry
  tbe := k.TBEs address
  llscLock := k.llscLockTimerTable address

/-- The end of a valid transition: `setState` and `setAccessPermission`. -/
def commit (address : Addr) (next : State) (c : CachesCtx n B ρ) : Caches B ρ :=
  let line := c.ctx.line.setState next
  let c' := c.write line.entry
  { caches := c'.cache_entry.elim c'.caches fun slot =>
      modifySlot c'.caches slot fun e => { e with m_Permission := next.permission }
    TBEs := Function.update k.TBEs address line.tbe
    llscLockTimerTable := Function.update k.llscLockTimerTable address line.llscLock }

/-- `trigger`: an event at an address, with a pointer to its entry. -/
def doTransition (now : Tick) (free : Resources) (inp : In n B) (e : Event)
    (cache_entry : Option Slot) (address : Addr) : Outcome (Caches B ρ) :=
  if both k.caches address then .doubled else
    match transition (k.line cache_entry address).getState e with
    | none => .invalid
    | some (next, actions) =>
        if free.areNSlotsAvailable (needs actions) = false then .stalled k else
          match Lib.perform (exec me p rp now address inp) actions
              ⟨k.caches, cache_entry, { line := k.line cache_entry address }⟩ with
          | none => .failed
          | some c =>
              if both c.caches address then .doubled else .done (k.commit address next c)

/-! ### The in_ports -/

/-- The caches after a lookup in one of them. -/
def lookup (now : Tick) (w : CacheName) (address : Addr) : Caches B ρ :=
  { k with caches := Function.update k.caches w ((k.caches w).lookup now address).1 }

/-- The entry that the lookup finds. -/
def entry? (now : Tick) (w : CacheName) (address : Addr) : Option (Entry B) :=
  ((k.caches w).lookup now address).2.map (·.ext)

/-- The pointer to it. -/
def slot (w : CacheName) (address : Addr) : Option Slot :=
  ((k.caches w).findTagInSet address).map (w, ·)

/-- `getCacheEntry`: the caches after its lookups, and its pointer. -/
def getCacheEntry (now : Tick) (address : Addr) : Caches B ρ × Option Slot :=
  let k₁ := k.lookup now .L1Dcache address
  if (k.entry? now .L1Dcache address).isSome then (k₁, k₁.slot .L1Dcache address)
  else
    let k₂ := k₁.lookup now .L1Icache address
    (k₂, k₂.slot .L1Icache address)

end Caches

/-- A message at one of the in_ports, or a lock that has timed out. -/
inductive Port (n B : ℕ) where
  | mandatoryQueue_in (t : RubyRequestType)
  | optionalQueue_in (t : RubyRequestType)
  | responseL1Network_in (m : ResponseMsg n B)
  | requestL1Network_in (m : RequestMsg n B)
  | llscLockTimerTable_in

/-- An in_port at a tick.  `free` are the slots it finds, which no statement of the port changes
before its transition; `blocked` are the addresses that `check_on_cache_probe` finds blocked; and
`store` is what a store that completes does to the block. -/
structure Visit (n B : ℕ) where
  now : Tick
  address : Addr
  port : Port n B
  free : Resources
  blocked : Addr → Bool := fun _ => false
  store : DataBlock B → DataBlock B := id

def Visit.inp (x : Visit n B) : In n B :=
  match x.port with
  | .mandatoryQueue_in _ | .optionalQueue_in _ | .llscLockTimerTable_in => { store := x.store }
  | .responseL1Network_in m => { response := some m, store := x.store }
  | .requestL1Network_in m => { request := some m, store := x.store }

namespace Caches

variable (x : Visit n B) (k : Caches B ρ)

/-- A trigger of the in_port. -/
def trigger (e : Event) (cache_entry : Option Slot) (address : Addr) : Outcome (Caches B ρ) :=
  k.doTransition me p rp x.now x.free x.inp e cache_entry address

/-- The end of both queues' ports: the line is allocated in the cache `w` if there is room, and
else another line is replaced; `checked` says whether the victim is checked for a block. -/
def makeRoom (w : CacheName) (e replacement : Event) (checked : Bool) (cache_entry : Option Slot) :
    Outcome (Caches B ρ) :=
  if (k.caches w).cacheAvail (p w) x.address then k.trigger me p rp x e cache_entry x.address
  else
    match (k.caches w).cacheProbe (p w) (rp w) x.now x.address with
    | none => .failed
    | some victim =>
        if checked && x.blocked victim then .stalled k
        else
          let k' := k.lookup x.now w victim
          k'.trigger me p rp x replacement (k'.slot w victim) victim

/-- `mandatoryQueue_in`, with the cache `w` of the request. -/
def mandatoryQueue_in (t : RubyRequestType) : Outcome (Caches B ρ) :=
  let w := t.cache
  let e := mandatory_request_type_to_event t
  let k₁ := k.lookup x.now w x.address
  match k.entry? x.now w x.address with
  | some entry =>
      k₁.trigger me p rp x (if entry.m_is_expired then .L1_Replacement else e)
        (k₁.slot w x.address) x.address
  | none =>
      -- check to see if it is in the other L1
      let k₂ := k₁.lookup x.now w.other x.address
      Outcome.fallThrough
        (match k₁.entry? x.now w.other x.address with
          | some _ =>
              k₂.trigger me p rp x .L1_Replacement (k₂.slot w.other x.address) x.address
          | none => .stalled k₂)
        fun k => k.makeRoom me p rp x w e .L1_Replacement true none

/-- `optionalQueue_in`: a line that either cache has is triggered with its entry, and if that
stalls, the port goes on as if neither had it. -/
def optionalQueue_in (t : RubyRequestType) : Outcome (Caches B ρ) :=
  let w := t.cache
  let e := prefetch_request_type_to_event t
  let k₁ := k.lookup x.now w x.address
  let cache_entry := k₁.slot w x.address
  Outcome.fallThrough
    (match k.entry? x.now w x.address with
      | some _ => k₁.trigger me p rp x e cache_entry x.address
      | none => .stalled k₁)
    fun k =>
      let k₂ := k.lookup x.now w.other x.address
      Outcome.fallThrough
        (match k.entry? x.now w.other x.address with
          | some _ => k₂.trigger me p rp x e (k₂.slot w.other x.address) x.address
          | none => .stalled k₂)
        fun k => k.makeRoom me p rp x w e .PF_L1_Replacement false cache_entry

/-- The ports of the network and of the timer: one trigger, with the entry of either cache. -/
def networkIn (event : Line B → Option Event) : Outcome (Caches B ρ) :=
  let (k₁, cache_entry) := k.getCacheEntry x.now x.address
  match event (k₁.line cache_entry x.address) with
  | none => .failed
  | some e => k₁.trigger me p rp x e cache_entry x.address

def serve : Outcome (Caches B ρ) :=
  match x.port with
  | .mandatoryQueue_in t => k.mandatoryQueue_in me p rp x t
  | .optionalQueue_in t => k.optionalQueue_in me p rp x t
  | .responseL1Network_in m => k.networkIn me p rp x fun l => responseEvent l m
  | .requestL1Network_in m => k.networkIn me p rp x fun _ => requestEvent m
  | .llscLockTimerTable_in =>
      if k.llscLockTimerTable x.address then k.networkIn me p rp x fun _ => some .LLSC_Timeout
      else .stalled k

end Caches

/-- The runs of the controller over any messages, with any resources at each of them; a run ends
at an event without a declared transition. -/
def l1Caches (B : ℕ) (r : CacheName → ρ) : Lib.Machine (Caches B ρ) (Visit n B) where
  start k := k = ⟨fun w => CacheMemory.init (p w) (r w), fun _ => none, fun _ => false⟩
  step k x := (k.serve me p rp x).after

end

/-! ### The table -/

/-- The cache in which the transitions of an event may allocate. -/
def Event.cache : Event → Option CacheName
  | .Load | .Store | .Load_Linked | .PF_Load | .PF_Store => some .L1Dcache
  | .Ifetch | .PF_Ifetch => some .L1Icache
  | _ => none

/-- The events an in_port may trigger before one that allocates: the replacement of a line of the
other cache, and a prefetch of a line that one of the caches has. -/
def Event.precedes : Event → Bool
  | .L1_Replacement | .PF_Load | .PF_Ifetch | .PF_Store => true
  | _ => false

/-- A transition that allocates does so in the cache of its event, and needs a TBE and a request
slot; one that may stall before it needs no more than these. -/
def provident (e : Event) (actions : List Action) : Bool :=
  (actions.all fun a => a.allocates.all fun w => decide (e.cache = some w) &&
    decide (1 ≤ (needs actions).TBEs) && decide (1 ≤ (needs actions).requestL1Network_out)) &&
  (!e.precedes || Resources.areNSlotsAvailable ⟨1, 1, 0, 0⟩ (needs actions))

theorem table_provident : (table.all fun r => r.states.all fun _ => r.events.all fun e =>
    provident e r.actions) = true := by
  decide +kernel

/-- No free TBE, or no free request slot. -/
def Short (free : Resources) : Prop := ¬ (1 ≤ free.TBEs ∧ 1 ≤ free.requestL1Network_out)

section

variable {st next : State} {e : Event} {actions : List Action} {free : Resources}

theorem transition_allocates (htr : transition st e = some (next, actions)) {a : Action}
    (ha : a ∈ actions) {w : CacheName} (hw : a.allocates = some w) :
    e.cache = some w ∧ 1 ≤ (needs actions).TBEs ∧ 1 ≤ (needs actions).requestL1Network_out := by
  have h := Lib.declared_check (P := fun _ e _ as => provident e as) table_provident htr
  rw [provident, Bool.and_eq_true] at h
  have hall := List.all_eq_true.mp h.1 a ha
  rw [hw] at hall
  simpa [and_assoc] using hall

/-- What stalls before an allocation stalls for want of what the allocation needs. -/
theorem short_of_stall (htr : transition st e = some (next, actions)) (he : e.precedes = true)
    (hfree : free.areNSlotsAvailable (needs actions) = false) : Short free := by
  have h := Lib.declared_check (P := fun _ e _ as => provident e as) table_provident htr
  rw [provident, Bool.and_eq_true, he] at h
  rintro ⟨htbe, hreq⟩
  simp only [Resources.areNSlotsAvailable, Bool.and_eq_true, Bool.and_eq_false_iff,
    decide_eq_true_eq, decide_eq_false_iff_not, Bool.not_true, Bool.false_or] at h hfree
  omega

theorem no_allocation_of_short (htr : transition st e = some (next, actions)) (hs : Short free)
    (hfree : free.areNSlotsAvailable (needs actions) = true) {a : Action} (ha : a ∈ actions) :
    a.allocates = none := by
  cases hw : a.allocates with
  | none => rfl
  | some w =>
      obtain ⟨-, htbe, hreq⟩ := transition_allocates htr ha hw
      simp only [Resources.areNSlotsAvailable, Bool.and_eq_true, decide_eq_true_eq] at hfree
      exact absurd ⟨htbe.trans hfree.1.1.1, hreq.trans hfree.1.1.2⟩ hs

end

/-! ### Tags and pointers -/

section

variable {n B : ℕ} {ρ : Type} {caches caches' : CacheName → CacheMemory (Entry B) ρ}

/-- No line has a tag in both caches. -/
def Exclusive (caches : CacheName → CacheMemory (Entry B) ρ) : Prop :=
  ∀ a, both caches a = false

theorem both_eq (w : CacheName) (a : Addr) :
    both caches a = ((caches w).isTagPresent a && (caches w.other).isTagPresent a) := by
  cases w with
  | L1Icache => exact Bool.and_comm ..
  | L1Dcache => rfl

/-- The same tags are present. -/
def SameTags (caches caches' : CacheName → CacheMemory (Entry B) ρ) : Prop :=
  ∀ w a, (caches' w).isTagPresent a = (caches w).isTagPresent a

theorem SameTags.exclusive (h : SameTags caches caches') (hx : Exclusive caches) :
    Exclusive caches' := by
  intro a
  rw [both, h, h]
  exact hx a

theorem SameTags.update {w : CacheName} {s : CacheMemory (Entry B) ρ}
    (h : ∀ a, s.isTagPresent a = (caches w).isTagPresent a) :
    SameTags caches (Function.update caches w s) := by
  intro v a
  by_cases hv : v = w
  · subst hv
    rw [Function.update_self, h]
  · rw [Function.update_of_ne hv]

/-- The pointer is to an entry that is present. -/
def Points (caches : CacheName → CacheMemory (Entry B) ρ) (cache_entry : Option Slot) : Prop :=
  ∀ w i j, cache_entry = some (w, i, j) →
    ∃ e, (caches w).m_cache i j = some e ∧ e.m_Permission ≠ .NotPresent

theorem points_none : Points caches none := nofun

theorem points_find (w : CacheName) (a : Addr) :
    Points caches (((caches w).findTagInSet a).map (w, ·)) := by
  intro v i j h
  obtain ⟨u, hu, ⟨⟩⟩ := Option.map_eq_some_iff.mp h
  obtain ⟨e, he⟩ := CacheMemory.findTagInSet_iff.mp hu
  exact ⟨e, he.entry, he.present⟩

/-- An update of one way that makes no entry absent keeps a pointer. -/
theorem Points.update {cache_entry : Option Slot} (h : Points caches cache_entry) {w : CacheName}
    {i j : ℕ} {f : AbstractCacheEntry (Entry B) → AbstractCacheEntry (Entry B)}
    {s : CacheMemory (Entry B) ρ} (hs : s.m_cache = ((caches w).modify i j f).m_cache)
    (hf : ∀ e, (f e).m_Permission = e.m_Permission) :
    Points (Function.update caches w s) cache_entry := by
  intro v i' j' hv
  obtain ⟨e, he, hn⟩ := h v i' j' hv
  by_cases hvw : v = w
  · subst hvw
    rw [Function.update_self, hs]
    by_cases hij : i' = i ∧ j' = j
    · obtain ⟨rfl, rfl⟩ := hij
      exact ⟨f e, by simp [CacheMemory.modify, he], by rwa [hf]⟩
    · exact ⟨e, by simp only [CacheMemory.modify, if_neg hij, he], hn⟩
  · rw [Function.update_of_ne hvw]
    exact ⟨e, he, hn⟩

/-! ### Actions -/

variable {me : Fin n} {p : CacheName → Params} {rp : CacheName → ReplacementPolicy ρ} {now : Tick}
  {address : Addr} {inp : In n B} {actions : List Action} {c c' : CachesCtx n B ρ}

/-- A transition under way: no line is in both caches, and if the pointer is null, the line is not
in the cache beside one that an action allocates in. -/
structure Safe (actions : List Action) (address : Addr) (c : CachesCtx n B ρ) : Prop where
  exclusive : Exclusive c.caches
  points : Points c.caches c.cache_entry
  clear : c.cache_entry = none → ∀ a ∈ actions, ∀ w, a.allocates = some w →
    (c.caches w.other).isTagPresent address = false

theorem Safe.same (h : Safe actions address c) (ht : SameTags c.caches c'.caches)
    (hp : Points c'.caches c'.cache_entry) (he : c'.cache_entry = c.cache_entry) :
    Safe actions address c' where
  exclusive := ht.exclusive h.exclusive
  points := hp
  clear hn a ha w hw := (ht _ _).trans (h.clear (he ▸ hn) a ha w hw)

theorem Safe.write (h : Safe actions address c) (x : Option (Entry B)) :
    Safe actions address (c.write x) := by
  unfold CachesCtx.write
  split
  · next x slot _ =>
      exact h.same (.update (CacheMemory.isTagPresent_modify (fun _ _ => rfl) fun _ _ => .rfl))
        (h.points.update rfl fun _ => rfl) rfl
  · exact h

theorem Safe.setMRU (h : Safe actions address c) (w : CacheName) :
    Safe actions address (c.setMRU rp now w) := by
  unfold CachesCtx.setMRU
  split
  · next v i j _ =>
      exact h.same (.update (CacheMemory.touch_quiet now i j).isTagPresent)
        (h.points.update (i := i) (j := j) (f := fun e => { e with m_last_touch_tick := now }) rfl
          fun _ => rfl) rfl
  · exact h

/-- The line is allocated in one cache, and the other does not have it. -/
theorem Safe.allocate (h : Safe actions address c) {a : Action} (ha : a ∈ actions) {w : CacheName}
    (hw : a.allocates = some w) (hs : c.allocate p rp now address w = some c') :
    Safe actions address c' := by
  unfold CachesCtx.allocate at hs
  split_ifs at hs with hptr
  · cases hs
    exact h
  · obtain ⟨s, hall, hc⟩ := Option.map_eq_some_iff.mp hs
    dsimp only at hc
    rw [Bool.not_eq_true, Option.isSome_eq_false_iff, Option.isNone_iff_eq_none] at hptr
    have hclear := h.clear hptr a ha w hw
    obtain ⟨way, e, hway, he, -, hperm⟩ := CacheMemory.allocate_way hall
    have hother : w.other ≠ w := by cases w <;> decide
    rw [hway, Option.map_some] at hc
    subst hc
    refine ⟨fun b => ?_, fun v i j hv => ?_, nofun⟩
    · dsimp only
      rw [both_eq w, Function.update_self, Function.update_of_ne hother]
      by_cases hb : b = address
      · rw [hb, hclear, Bool.and_false]
      · rw [CacheMemory.isTagPresent_allocate hall hb, ← both_eq]
        exact h.exclusive b
    · cases hv
      exact ⟨e, by dsimp only; rw [Function.update_self]; exact he, by rw [hperm]; decide⟩

/-- The line is taken from both caches. -/
theorem Safe.deallocate (h : Safe actions address c) :
    Safe actions address
      ⟨fun w => (c.caches w).deallocate (rp w) address, none, c.ctx.setEntry none⟩ where
  exclusive b := by
    have hb := h.exclusive b
    unfold both at hb ⊢
    simp only [CacheMemory.isTagPresent_deallocate]
    grind
  points := points_none
  clear _ _ _ w _ := by simp [CacheMemory.isTagPresent_deallocate]

theorem Safe.exec (h : Safe actions address c) {a : Action} (ha : a ∈ actions)
    (hx : Caches.exec me p rp now address inp a c = some c') : Safe actions address c' := by
  unfold Caches.exec at hx
  split at hx
  · exact h.allocate ha rfl hx
  · exact h.allocate ha rfl hx
  · cases hx
    exact h.deallocate
  · obtain ⟨ctx, -, rfl⟩ := Option.map_eq_some_iff.mp hx
    have hctx : Safe actions address ⟨c.caches, c.cache_entry, ctx⟩ :=
      ⟨h.exclusive, h.points, h.clear⟩
    cases hm : a.setsMRU with
    | none => exact hctx.write _
    | some w => exact (hctx.write _).setMRU w

/-! ### Transitions -/

/-- What an in_port leaves has the property, and the assertion of `getState` and `setState` has
not failed. -/
def Outcome.Keeps {σ : Type} (P : σ → Prop) : Outcome σ → Prop
  | .done s | .stalled s => P s
  | .invalid | .failed => True
  | .doubled => False

theorem Outcome.Keeps.fallThrough {σ : Type} {P : σ → Prop} {o : Outcome σ} {next : σ → Outcome σ}
    (h : o.Keeps P) (hnext : ∀ s, o = .stalled s → P s → (next s).Keeps P) :
    (o.fallThrough next).Keeps P := by
  cases o with
  | stalled s => exact hnext s rfl h
  | done s => exact h
  | invalid => trivial
  | failed => trivial
  | doubled => exact h

theorem permission_ne (s : State) : s.permission ≠ .NotPresent := by cases s <;> decide

theorem Safe.commit (h : Safe actions address c) (k : Caches B ρ) (next : State) :
    Exclusive (k.commit address next c).caches := by
  have hw := h.write (c.ctx.line.setState next).entry
  unfold Caches.commit
  dsimp only
  cases hs : (c.write (c.ctx.line.setState next).entry).cache_entry with
  | none => exact hw.exclusive
  | some slot =>
      obtain ⟨e, he, hn⟩ := hw.points slot.1 slot.2.1 slot.2.2 hs
      refine SameTags.exclusive (.update (CacheMemory.isTagPresent_modify (fun _ _ => rfl) ?_))
        hw.exclusive
      intro e' he'
      obtain rfl : e = e' := Option.some.inj (he.symm.trans he')
      exact iff_of_false (permission_ne next) hn

variable {k k' : Caches B ρ} {free : Resources} {e : Event} {cache_entry : Option Slot}

/-- **One transition.**  It keeps the caches exclusive, if no other cache holds the line that it
allocates. -/
theorem Exclusive.doTransition (h : Exclusive k.caches) (hp : Points k.caches cache_entry)
    (hclear : cache_entry = none → ∀ w, e.cache = some w → Short free ∨
      (k.caches w.other).isTagPresent address = false) :
    (k.doTransition me p rp now free inp e cache_entry address).Keeps
      fun k => Exclusive k.caches := by
  unfold Caches.doTransition
  rw [if_neg (by simp [h address])]
  split
  · trivial
  · next next actions htr =>
      split_ifs with hfree
      · exact h
      · rw [Bool.not_eq_false] at hfree
        have hsafe : Safe actions address
            (⟨k.caches, cache_entry, { line := k.line cache_entry address }⟩ :
              CachesCtx n B ρ) := by
          refine ⟨h, hp, fun hn a ha w hw => ?_⟩
          rcases hclear hn w (transition_allocates htr ha hw).1 with hs | hs
          · rw [no_allocation_of_short htr hs hfree ha] at hw
            cases hw
          · exact hs
        split
        · trivial
        · next c hc =>
            have hc := Lib.perform_induct_mem (P := Safe actions address)
              (fun a ha _ _ hs hx => hs.exec ha hx) hsafe hc
            rw [if_neg (by simp [hc.exclusive address])]
            exact hc.commit k next

theorem doTransition_stalled
    (h : k.doTransition me p rp now free inp e cache_entry address = .stalled k') :
    k' = k ∧ (e.precedes = true → Short free) := by
  unfold Caches.doTransition at h
  split_ifs at h
  split at h
  · cases h
  · next next actions htr =>
      split_ifs at h with hfree
      · cases h
        exact ⟨rfl, fun he => short_of_stall htr he hfree⟩
      · split at h
        · cases h
        · split_ifs at h

/-! ### The in_ports -/

theorem lookup_tags (k : Caches B ρ) (now : Tick) (w : CacheName) (a : Addr) :
    SameTags k.caches (k.lookup now w a).caches :=
  .update (CacheMemory.lookup_quiet now a).isTagPresent

theorem Exclusive.lookup (h : Exclusive k.caches) (now : Tick) (w : CacheName) (a : Addr) :
    Exclusive (k.lookup now w a).caches := (lookup_tags k now w a).exclusive h

theorem Points.lookup (h : Points k.caches cache_entry) (now : Tick) (w : CacheName) (a : Addr) :
    Points (k.lookup now w a).caches cache_entry := by
  unfold Caches.lookup CacheMemory.lookup
  cases (k.caches w).findTagInSet a with
  | none => rwa [Function.update_eq_self]
  | some v => exact h.update rfl fun e => (CacheMemory.expire_fields now e).2.2

/-- A lookup finds an entry exactly when the tag is present. -/
theorem entry?_isSome (k : Caches B ρ) (now : Tick) (w : CacheName) (a : Addr) :
    (k.entry? now w a).isSome = (k.caches w).isTagPresent a := by
  rw [Caches.entry?, CacheMemory.lookup_ext, CacheMemory.contents, Option.isSome_map]
  rfl

theorem slot_ne_none {w : CacheName} {a : Addr} (h : (k.caches w).isTagPresent a = true) :
    k.slot w a ≠ none := by
  obtain ⟨v, e, hv⟩ := CacheMemory.isTagPresent_iff.mp h
  simp [Caches.slot, CacheMemory.findTagInSet_iff.mpr ⟨e, hv⟩]

/-- The pointer to the entry that a lookup finds. -/
theorem lookup_slot_ne_none {w : CacheName} {a : Addr} {entry : Entry B}
    (h : k.entry? now w a = some entry) : (k.lookup now w a).slot w a ≠ none := by
  refine slot_ne_none ?_
  rw [lookup_tags, ← entry?_isSome k now, h]
  rfl

variable {x : Visit n B}

/-- The end of a queue's port: if the pointer is null, either the other cache does not have the
line, or the trigger before has stalled. -/
theorem Exclusive.makeRoom {w : CacheName} {replacement : Event} {checked : Bool}
    (h : Exclusive k.caches) (hp : Points k.caches cache_entry) (he : e.cache = some w)
    (hr : replacement.cache = none) (hclear : cache_entry = none →
      Short x.free ∨ (k.caches w.other).isTagPresent x.address = false) :
    (k.makeRoom me p rp x w e replacement checked cache_entry).Keeps
      fun k => Exclusive k.caches := by
  unfold Caches.makeRoom
  split_ifs
  · refine h.doTransition hp fun hn v hv => ?_
    obtain rfl : w = v := Option.some.inj (he.symm.trans hv)
    exact hclear hn
  · split
    · trivial
    · next victim _ =>
        split_ifs
        · exact h
        · refine (h.lookup x.now w victim).doTransition (points_find w victim) fun _ v hv => ?_
          rw [hr] at hv
          cases hv

theorem mandatory_event_cache (t : RubyRequestType) :
    (mandatory_request_type_to_event t).cache = some t.cache := by cases t <;> rfl

theorem prefetch_event_cache (t : RubyRequestType) :
    (prefetch_request_type_to_event t).cache = some t.cache := by cases t <;> rfl

theorem prefetch_event_precedes (t : RubyRequestType) :
    (prefetch_request_type_to_event t).precedes = true := by cases t <;> rfl

/-- The check of the other cache, in both queues' ports: afterwards the line is not there, or the
resources of an allocation are missing. -/
theorem Exclusive.other {w : CacheName} {o : Outcome (Caches B ρ)} (h : Exclusive k.caches)
    (he : e.precedes = true) (ho : o = match k.entry? x.now w x.address with
      | some _ => (k.lookup x.now w x.address).trigger me p rp x e
          ((k.lookup x.now w x.address).slot w x.address) x.address
      | none => .stalled (k.lookup x.now w x.address)) :
    (o.Keeps fun k => Exclusive k.caches) ∧
      ∀ k', o = .stalled k' → k' = k.lookup x.now w x.address ∧
        (Short x.free ∨ (k'.caches w).isTagPresent x.address = false) := by
  subst ho
  have hl := h.lookup x.now w x.address
  cases hentry : k.entry? x.now w x.address with
  | some entry =>
      refine ⟨hl.doTransition (points_find w x.address) fun hn => ?_, fun k' hs => ?_⟩
      · exact absurd hn (lookup_slot_ne_none hentry)
      · obtain ⟨rfl, hshort⟩ := doTransition_stalled hs
        exact ⟨rfl, .inl (hshort he)⟩
  | none =>
      refine ⟨hl, fun k' hs => ?_⟩
      cases hs
      refine ⟨rfl, .inr ?_⟩
      rw [lookup_tags, ← entry?_isSome k x.now, hentry]
      rfl

theorem Exclusive.mandatoryQueue_in (h : Exclusive k.caches) (t : RubyRequestType) :
    (k.mandatoryQueue_in me p rp x t).Keeps fun k => Exclusive k.caches := by
  have h₁ := h.lookup x.now t.cache x.address
  unfold Caches.mandatoryQueue_in
  dsimp only
  cases hentry : k.entry? x.now t.cache x.address with
  | some entry =>
      exact h₁.doTransition (points_find _ _) fun hn => absurd hn (lookup_slot_ne_none hentry)
  | none =>
      obtain ⟨hkeeps, hstall⟩ := h₁.other (e := .L1_Replacement) rfl rfl
      refine hkeeps.fallThrough fun k' hs hk' => ?_
      exact hk'.makeRoom points_none (mandatory_event_cache t) rfl fun _ => (hstall k' hs).2

theorem Exclusive.optionalQueue_in (h : Exclusive k.caches) (t : RubyRequestType) :
    (k.optionalQueue_in me p rp x t).Keeps fun k => Exclusive k.caches := by
  unfold Caches.optionalQueue_in
  dsimp only
  obtain ⟨hkeeps, hstall⟩ := h.other (prefetch_event_precedes t) rfl
  refine hkeeps.fallThrough fun k₁ hs₁ hk₁ => ?_
  obtain ⟨rfl, -⟩ := hstall k₁ hs₁
  obtain ⟨hkeeps', hstall'⟩ := hk₁.other (prefetch_event_precedes t) rfl
  refine hkeeps'.fallThrough fun k₂ hs₂ hk₂ => ?_
  obtain ⟨rfl, hclear⟩ := hstall' k₂ hs₂
  exact hk₂.makeRoom ((points_find t.cache x.address).lookup _ _ _) (prefetch_event_cache t) rfl
    fun _ => hclear

theorem Exclusive.getCacheEntry (h : Exclusive k.caches) (now : Tick) (a : Addr) :
    Exclusive (k.getCacheEntry now a).1.caches ∧
      Points (k.getCacheEntry now a).1.caches (k.getCacheEntry now a).2 := by
  unfold Caches.getCacheEntry
  dsimp only
  split_ifs
  · exact ⟨h.lookup _ _ _, points_find _ _⟩
  · exact ⟨(h.lookup _ _ _).lookup _ _ _, points_find _ _⟩

/-- The events of the network and of the timer allocate nothing. -/
theorem Exclusive.networkIn (h : Exclusive k.caches) {event : Line B → Option Event}
    (hevent : ∀ l e, event l = some e → e.cache = none) :
    (k.networkIn me p rp x event).Keeps fun k => Exclusive k.caches := by
  obtain ⟨hx, hp⟩ := h.getCacheEntry x.now x.address
  unfold Caches.networkIn
  dsimp only
  split
  · trivial
  · next e he =>
      refine hx.doTransition hp fun _ w hw => ?_
      rw [hevent _ e he] at hw
      cases hw

theorem requestEvent_cache {m : RequestMsg n B} {e : Event} (h : requestEvent m = some e) :
    e.cache = none := by
  unfold requestEvent at h
  split at h <;> cases h <;> rfl

theorem responseEvent_cache {l : Line B} {m : ResponseMsg n B} {e : Event}
    (h : responseEvent l m = some e) : e.cache = none := by
  unfold responseEvent at h
  split at h
  · cases h
    rfl
  · split_ifs at h
    · cases h
      rfl
    · obtain ⟨t, -, rfl⟩ := Option.map_eq_some_iff.mp h
      split_ifs <;> rfl
  · obtain ⟨t, -, rfl⟩ := Option.map_eq_some_iff.mp h
    split_ifs <;> rfl
  · cases h
    rfl
  all_goals cases h

/-- **One in_port**, whatever its triggers find. -/
theorem Exclusive.serve (h : Exclusive k.caches) (x : Visit n B) :
    (k.serve me p rp x).Keeps fun k => Exclusive k.caches := by
  unfold Caches.serve
  split
  · exact h.mandatoryQueue_in _
  · exact h.optionalQueue_in _
  · exact h.networkIn fun _ _ => responseEvent_cache
  · exact h.networkIn fun _ _ => requestEvent_cache
  · split_ifs
    · exact h.networkIn fun _ _ he => by cases he; rfl
    · exact h

theorem Outcome.Keeps.after {σ : Type} {P : σ → Prop} {o : Outcome σ} {s : σ} (h : o.Keeps P)
    (hs : o.after = some s) : P s := by
  cases o <;> cases hs <;> exact h

/-- **A line is never in both L1 caches.**  In every run of the controller over any requests,
prefetches, messages and timeouts, with any resources at each of them, no address is resident in
both caches, and no trigger fails the assertion of `getState` and `setState`. -/
theorem l1_caches_exclusive {r : CacheName → ρ}
    (h : (l1Caches me p rp B r).Reach (fun _ _ => True) k) :
    (∀ a, ¬ ((k.caches .L1Icache).isTagPresent a = true ∧
      (k.caches .L1Dcache).isTagPresent a = true)) ∧
    ∀ x, k.serve me p rp x ≠ .doubled := by
  have hx : Exclusive k.caches := by
    refine h.invariant (I := fun k => Exclusive k.caches) ?_ ?_
    · rintro _ rfl a
      simp [both, CacheMemory.isTagPresent, CacheMemory.lookupConst, CacheMemory.findTagInSet,
        CacheMemory.findTag, CacheMemory.init, CacheMemory.entryAt]
    · intro k x k' hk _ hstep
      exact (hk.serve x).after hstep
  refine ⟨?_, fun x hd => ?_⟩
  · rintro a ⟨hi, hd⟩
    have ha := hx a
    rw [both, hi, hd] at ha
    cases ha
  · have hs : (k.serve me p rp x).Keeps fun k => Exclusive k.caches := hx.serve x
    rw [hd] at hs
    exact hs

end

/-- A line is fetched and then loaded.  The first load finds no free TBE: neither the replacement
of the fetched line nor the load itself goes through.  The second replaces the line, and the one
after the write-back has been acknowledged allocates it in the other cache. -/
def fetchThenLoad : List (Visit 1 1) :=
  [⟨1, 0x40, .mandatoryQueue_in .IFETCH, ⟨1, 1, 1, 1⟩, fun _ => false, id⟩,
    ⟨2, 0x40, .responseL1Network_in { type := .DATA_EXCLUSIVE, Sender := .L2Cache }, ⟨1, 1, 1, 1⟩,
      fun _ => false, id⟩,
    ⟨3, 0x40, .mandatoryQueue_in .LD, ⟨0, 1, 1, 1⟩, fun _ => false, id⟩,
    ⟨4, 0x40, .mandatoryQueue_in .LD, ⟨1, 1, 1, 1⟩, fun _ => false, id⟩,
    ⟨5, 0x40, .responseL1Network_in { type := .WB_ACK, Sender := .L2Cache }, ⟨1, 1, 1, 1⟩,
      fun _ => false, id⟩,
    ⟨6, 0x40, .mandatoryQueue_in .LD, ⟨1, 1, 1, 1⟩, fun _ => false, id⟩]

theorem l1_caches_exclusive_fetchThenLoad :
    ∃ k, (l1Caches (0 : Fin 1) (fun _ => fourSets) (fun _ => firstWay) 1 fun _ => ()).Reach
        (fun _ _ => True) k ∧
      (k.caches .L1Dcache).isTagPresent 0x40 = true ∧
      ∀ a, ¬ ((k.caches .L1Icache).isTagPresent a = true ∧
        (k.caches .L1Dcache).isTagPresent a = true) := by
  obtain ⟨k, hk, hd⟩ := Lib.Machine.trace_reaches
    (M := l1Caches (0 : Fin 1) (fun _ => fourSets) (fun _ => firstWay) 1 fun _ => ())
    (G := fun _ _ => True) (l := fetchThenLoad)
    (P := fun k => (k.caches .L1Dcache).isTagPresent 0x40 = true) rfl (by decide +kernel)
  exact ⟨k, hk, hd, (l1_caches_exclusive hk).1⟩

end SttRuby.Protocol.L1Cache
