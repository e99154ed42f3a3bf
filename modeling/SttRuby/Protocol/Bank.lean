import SttRuby.Cache.Retention
import SttRuby.Protocol.L2Cache

/-!
# Protocol — Bank

The L2 controller over its STT-RAM array: the in_ports and the transitions of
`MESI_Two_Level-L2cache.sm` with the calls they make on `L2cache`, for every line of the bank and
at any tick.

`CacheMemory::lookup` marks an entry that is past its retention limit in the member
`m_is_expired` of `AbstractCacheEntry`.  The in_port of the L1 requests tests the field
`m_is_expired` that the `.sm` file declares in `Entry`, and SLICC compiles an access to a field
`f` to the C++ member `m_f` (`sliccMember`): it reads `m_m_is_expired`, another member of the
same object.  No transition writes that one (`Bank.Unmarked`), so the test never succeeds, and a
request for an expired line is served like any other (`expired_served`).
-/

namespace SttRuby.Protocol.L2Cache

open Cache

/-! ### The array under the controller -/

/-- `L2Cache_State_to_permission`. -/
def State.permission : State → AccessPermission
  | .NP => .Invalid
  | .SS => .Read_Only
  | .M => .Read_Write
  | .MT => .Maybe_Stale
  | .M_I | .MT_I | .MCT_I | .I_I | .S_I | .ISS | .IS | .IM | .SS_MB | .MT_MB | .MT_IIB | .MT_IB
  | .MT_SB => .Busy

/-- The accesses an action records. -/
def Action.records : Action → List CacheRequestType
  | .a_issueFetchToMemory | .b_forwardRequestToExclusive | .c_exclusiveCleanReplacement
  | .f_sendInvToSharers | .fwm_sendFwdInvToSharersMinusRequestor => [.TagArrayRead]
  | .c_exclusiveReplacement | .d_sendDataToRequestor | .dd_sendExclusiveDataToRequestor
  | .ds_sendSharedDataToRequestor | .e_sendDataToGetSRequestors
  | .ex_sendExclusiveDataToGetSRequestors | .ee_sendDataToGetXRequestor =>
      [.TagArrayRead, .DataArrayRead]
  | .m_writeDataToCache => [.TagArrayRead, .DataArrayWrite]
  | .t_sendWBAck | .jj_popL1RequestQueue | .zz_stallAndWaitL1RequestQueue
  | .zn_recycleResponseNetwork | .o_popIncomingResponseQueue | .qq_allocateL2CacheBlock
  | .ll_clearSharers | .nn_addSharer | .i_allocateTBE | .ss_recordGetSL1ID | .uu_profileMiss
  | .xx_recordGetXL1ID | .s_deallocateTBE | .kd_wakeUpDependents | .set_setMRU | .uu_profileHit
  | .ts_sendInvAckToUpgrader | .rr_deallocateL2CacheBlock | .mr_writeDataToCacheFromRequest
  | .mmu_markExclusiveFromUnblock | .k_popUnblockQueue | .nnu_addSharerFromUnblock | .q_updateAck
  | .qq_writeDataToTBE | .ct_exclusiveReplacementFromTBE | .qqr_writeDataToTBEFromPUTX => []

/-- The C++ member that SLICC's `MemberExprAST` and `Type` make of a field. -/
def sliccMember (field : String) : String := "m_" ++ field

/-- The Boolean members of an `L2Cache_Entry` by their C++ names: the one it inherits from
`AbstractCacheEntry`, and those of the structure declared in the `.sm` file. -/
def member {n B : ℕ} (e : AbstractCacheEntry (Entry n B)) (name : String) : Option Bool :=
  if name = "m_is_expired" then some e.m_is_expired
  else if name = "m_m_is_expired" then some e.ext.m_is_expired
  else if name = "m_Dirty" then some e.ext.Dirty
  else none

/-- The bank: its array and its TBE table. -/
structure Bank (n B : ℕ) (ρ : Type) where
  L2cache : CacheMemory (Entry n B) ρ
  TBEs : Addr → Option (TBE n B)

/-- A transition under way at an address of the bank; `cache_entry` is where the controller's
pointer to the entry points. -/
structure BankCtx (n B : ℕ) (ρ : Type) where
  L2cache : CacheMemory (Entry n B) ρ
  cache_entry : Option (ℕ × ℕ)
  ctx : Ctx n B

section

variable {n B : ℕ} {ρ : Type} (p : Params) (rp : ReplacementPolicy ρ)

/-- The fields of the `.sm` file in the entry that a pointer points to. -/
def slotEntry (s : CacheMemory (Entry n B) ρ) (cache_entry : Option (ℕ × ℕ)) :
    Option (Entry n B) :=
  (s.entryAt cache_entry).map (·.ext)

/-- Writes through the pointer. -/
def setSlot (s : CacheMemory (Entry n B) ρ) (cache_entry : Option (ℕ × ℕ))
    (x : Option (Entry n B)) : CacheMemory (Entry n B) ρ :=
  match x, cache_entry with
  | some x, some (cacheSet, way) => s.modify cacheSet way fun e => { e with ext := x }
  | _, _ => s

/-- `cache_entry.changePermission`. -/
def setPermission (s : CacheMemory (Entry n B) ρ) (cache_entry : Option (ℕ × ℕ))
    (perm : AccessPermission) : CacheMemory (Entry n B) ρ :=
  match cache_entry with
  | some (cacheSet, way) => s.modify cacheSet way fun e => { e with m_Permission := perm }
  | none => s

/-- Where the entry lies that `allocate` returns a pointer to. -/
def allocated (s : CacheMemory (Entry n B) ρ) (address : Addr) : Option (ℕ × ℕ) :=
  match s.findTagInSetIgnorePermissions address with
  | some slot => some slot
  | none => (s.freeWay p (s.addressToCacheSet p address)).map (s.addressToCacheSet p address, ·)

/-- An action with its calls on the array. -/
def Bank.exec (now : Tick) (address : Addr) (inp : In n B) (a : Action) (c : BankCtx n B ρ) :
    Option (BankCtx n B ρ) :=
  match a with
  | .qq_allocateL2CacheBlock =>
      if c.ctx.line.entry.isSome then some c
      else (c.L2cache.allocate p rp now address {}).map fun s =>
        ⟨s, allocated p c.L2cache address,
          c.ctx.setEntry (slotEntry s (allocated p c.L2cache address))⟩
  | .rr_deallocateL2CacheBlock =>
      some ⟨c.L2cache.deallocate rp address, none, c.ctx.setEntry none⟩
  | .set_setMRU => some { c with L2cache := c.L2cache.setMRU p rp now address }
  | a => (L2Cache.exec inp a c.ctx).map fun ctx =>
      ⟨setSlot (a.records.foldl (fun s t => s.recordRequestType p now t address) c.L2cache)
        c.cache_entry ctx.line.entry, c.cache_entry, ctx⟩

namespace Bank

variable (b : Bank n B ρ)

def line (address : Addr) : Line n B where
  entry := (b.L2cache.lookupConst address).map (·.ext)
  tbe := b.TBEs address

/-- The end of a valid transition: `setState` and `setAccessPermission`. -/
def commit (address : Addr) (next : State) (c : BankCtx n B ρ) : Bank n B ρ :=
  let line := c.ctx.line.setState next
  { L2cache := setPermission (setSlot c.L2cache c.cache_entry line.entry) c.cache_entry
      next.permission
    TBEs := Function.update b.TBEs address line.tbe }

/-- An event at an address: the bank after it, and what the transition has done unless it stalls
for want of a slot in the TBE table. -/
def doTransition (now : Tick) (slots : Bool) (inp : In n B) (e : Event) (address : Addr) :
    Option (Bank n B ρ × Option (Ctx n B)) :=
  (transition (b.line address).getState e).bind fun (next, actions) =>
    if .i_allocateTBE ∈ actions ∧ slots = false then some (b, none)
    else (Lib.perform (Bank.exec p rp now address inp) actions
        ⟨b.L2cache, b.L2cache.findTagInSet address, { line := b.line address }⟩).map fun c =>
      (b.commit address next c, some c.ctx)

/-! ### The in_ports -/

/-- `L1RequestL2Network_in`: the bank after its lookups, and the event it triggers with its
address, none if the message is recycled. -/
def requestIn (now : Tick) (address : Addr) (m : RequestMsg n B) :
    Option (Bank n B ρ × Option (Event × Addr)) :=
  let (s₀, available) := b.L2cache.checkResourceAvailable p now .DataArray address
  if available = false then some ({ b with L2cache := s₀ }, none) else
    let (s, cache_entry) := s₀.lookup now address
    m.Requestor.l1Cache.bind fun i =>
      match cache_entry with
      | some e =>
          if member e (sliccMember "m_is_expired") = some true then
            some ({ b with L2cache := s }, some (replacementEvent e.ext, address))
          else (L1Cache_request_type_to_event m.type (decide (i ∈ e.ext.Sharers))).map fun ev =>
            ({ b with L2cache := s }, some (ev, address))
      | none =>
          if s.cacheAvail p address then
            (L1Cache_request_type_to_event m.type false).map fun ev =>
              ({ b with L2cache := s }, some (ev, address))
          else (s.cacheProbe p rp now address).bind fun victim =>
            let (s', victim_entry) := s.lookup now victim
            if (b.TBEs victim).isSome then some ({ b with L2cache := s' }, none)
            else victim_entry.map fun e =>
              ({ b with L2cache := s' }, some (replacementEvent e.ext, victim))

/-- `responseL2Network_in`. -/
def responseIn (now : Tick) (address : Addr) (m : ResponseMsg n B) :
    Option (Bank n B ρ × Option (Event × Addr)) :=
  let (s₀, available) := b.L2cache.checkResourceAvailable p now .DataArray address
  if available = false then some ({ b with L2cache := s₀ }, none) else
    (responseEvent (b.line address) m).map fun ev =>
      ({ b with L2cache := (s₀.lookup now address).1 }, some (ev, address))

/-- `L1unblockNetwork_in`. -/
def unblockIn (now : Tick) (address : Addr) (m : ResponseMsg n B) :
    Option (Bank n B ρ × Option (Event × Addr)) :=
  (unblockEvent m).map fun ev =>
    ({ b with L2cache := (b.L2cache.lookup now address).1 }, some (ev, address))

end Bank

/-- A message at one of the ports. -/
inductive Port (n B : ℕ) where
  | request (m : RequestMsg n B)
  | response (m : ResponseMsg n B)
  | unblock (m : ResponseMsg n B)

/-- A message for an address at a tick; `slots` says whether the TBE table has a free slot. -/
structure Arrival (n B : ℕ) where
  now : Tick
  address : Addr
  port : Port n B
  slots : Bool := true

def Port.inp : Port n B → In n B
  | .request m => { request := some m }
  | .response m => { response := some m }
  | .unblock m => { unblock := some m }

def Bank.portIn (b : Bank n B ρ) (x : Arrival n B) :
    Option (Bank n B ρ × Option (Event × Addr)) :=
  match x.port with
  | .request m => b.requestIn p rp x.now x.address m
  | .response m => b.responseIn p x.now x.address m
  | .unblock m => b.unblockIn x.now x.address m

/-- A message is taken from its port: the bank after it, and what the transition it triggers has
done. -/
def Bank.process (b : Bank n B ρ) (x : Arrival n B) : Option (Bank n B ρ × Option (Ctx n B)) :=
  (b.portIn p rp x).bind fun (b', triggered) =>
    match triggered with
    | none => some (b', none)
    | some (e, address) => b'.doTransition p rp x.now x.slots x.port.inp e address

/-- The runs of the controller over any messages at any ticks. -/
def bank (n B : ℕ) (r : ρ) : Lib.Machine (Bank n B ρ) (Arrival n B) where
  start b := b = ⟨CacheMemory.init p r, fun _ => none⟩
  step b x := (b.process p rp x).map (·.1)

end

/-! ### The field of the .sm file is never set -/

section

variable {n B : ℕ} {ρ : Type} {p : Params} {rp : ReplacementPolicy ρ}

/-- No entry of the array has the field set. -/
def Unmarked (s : CacheMemory (Entry n B) ρ) : Prop :=
  s.Everywhere fun _ e => e.ext.m_is_expired = false

/-- Nor has the entry of the line at hand. -/
def Ctx.Unmarked (c : Ctx n B) : Prop := ∀ e ∈ c.line.entry, e.m_is_expired = false

theorem exec_unmarked {inp : In n B} {a : Action} {c c' : Ctx n B} (h : c.Unmarked)
    (hx : L2Cache.exec inp a c = some c') : c'.Unmarked := by
  unfold Ctx.Unmarked at *
  rcases he : c.line.entry with _ | e₀ <;> cases a <;>
    simp only [L2Cache.exec, Option.bind_eq_some_iff, Option.map_eq_some_iff, Option.some.injEq]
      at hx <;>
    grind [Ctx.forward, Ctx.respond, Ctx.fetch, Ctx.writeBack, Ctx.setEntry, Ctx.setTBE]

/-- The array's own operations do not touch the field. -/
theorem Unmarked.call {s s' : CacheMemory (Entry n B) ρ} (h : Unmarked s) (rp : ReplacementPolicy ρ)
    (now : Tick) (op : Op (Entry n B)) (hop : ∀ a x, op = .allocate a x → x.m_is_expired = false)
    (hs : s.call p rp now op = some s') : Unmarked s' := by
  refine CacheMemory.Everywhere.call h (fun _ _ hq => hq) (fun _ _ _ hq => hq)
    (fun _ _ _ e _ _ _ hq => ?_) (fun _ _ _ _ _ _ hq => hq) (fun _ _ hq => hq)
    (fun a x hx => hop a x hx) hs
  obtain ⟨mark, he⟩ := CacheMemory.expire_eq now e
  rw [he]
  exact hq

theorem Unmarked.lookup {s : CacheMemory (Entry n B) ρ} (h : Unmarked s) (now : Tick) (a : Addr) :
    Unmarked (s.lookup now a).1 := by
  refine CacheMemory.Everywhere.lookup h fun _ _ e _ _ hq => ?_
  obtain ⟨mark, he⟩ := CacheMemory.expire_eq now e
  rw [he]
  exact hq

theorem Unmarked.setSlot {s : CacheMemory (Entry n B) ρ} (h : Unmarked s) {w : Option (ℕ × ℕ)}
    {x : Option (Entry n B)} (hx : ∀ e ∈ x, e.m_is_expired = false) :
    Unmarked (setSlot s w x) := by
  unfold L2Cache.setSlot
  split
  · next x i j => exact h.modify fun _ _ _ => hx x rfl
  · exact h

theorem Unmarked.slotEntry {s : CacheMemory (Entry n B) ρ} (h : Unmarked s) {w : Option (ℕ × ℕ)} :
    ∀ e ∈ slotEntry s w, e.m_is_expired = false := by
  intro e he
  obtain ⟨x, hx, rfl⟩ := Option.map_eq_some_iff.mp he
  cases w with
  | none => cases hx
  | some w => exact h w.1 w.2 x hx

theorem Unmarked.records {s : CacheMemory (Entry n B) ρ} (h : Unmarked s)
    (rp : ReplacementPolicy ρ) (now : Tick) (a : Addr) (ts : List CacheRequestType) :
    Unmarked (ts.foldl (fun s t => s.recordRequestType p now t a) s) := by
  induction ts generalizing s with
  | nil => exact h
  | cons t ts ih =>
      exact ih (h.call (p := p) rp now (.recordRequestType t a) nofun rfl)

/-- An action leaves the field alone, in the array and in the line. -/
theorem Bank.exec_unmarked {now : Tick} {address : Addr} {inp : In n B} {a : Action}
    {c c' : BankCtx n B ρ} (h : Unmarked c.L2cache ∧ c.ctx.Unmarked)
    (hx : Bank.exec p rp now address inp a c = some c') :
    Unmarked c'.L2cache ∧ c'.ctx.Unmarked := by
  unfold Bank.exec at hx
  split at hx
  · split_ifs at hx
    · cases hx
      exact h
    · obtain ⟨s, hs, rfl⟩ := Option.map_eq_some_iff.mp hx
      have hu : Unmarked s := h.1.call rp now (.allocate address {}) (by rintro _ _ ⟨⟩; rfl) hs
      exact ⟨hu, hu.slotEntry⟩
  · cases hx
    exact ⟨h.1.call (p := p) rp now (.deallocate address) nofun rfl, nofun⟩
  · cases hx
    exact ⟨h.1.call rp now (.setMRU address) nofun rfl, h.2⟩
  · obtain ⟨ctx, hctx, rfl⟩ := Option.map_eq_some_iff.mp hx
    have hu := L2Cache.exec_unmarked h.2 hctx
    exact ⟨(h.1.records rp now address _).setSlot hu, hu⟩

theorem Unmarked.line {b : Bank n B ρ} (h : Unmarked b.L2cache) (address : Addr) :
    Ctx.Unmarked { line := b.line address } := by
  intro e he
  obtain ⟨x, hx, rfl⟩ := Option.map_eq_some_iff.mp he
  unfold CacheMemory.lookupConst CacheMemory.entryAt at hx
  split at hx
  · cases hx
  · exact h _ _ x hx

theorem Unmarked.commit {b : Bank n B ρ} {address : Addr} {next : State} {c : BankCtx n B ρ}
    (h : Unmarked c.L2cache ∧ c.ctx.Unmarked) : Unmarked (b.commit address next c).L2cache := by
  have hs :
      Unmarked (L2Cache.setSlot c.L2cache c.cache_entry (c.ctx.line.setState next).entry) := by
    refine h.1.setSlot fun e he => ?_
    obtain ⟨e₀, he₀, rfl⟩ := Option.map_eq_some_iff.mp he
    exact h.2 e₀ he₀
  unfold Bank.commit setPermission
  dsimp only
  split
  · exact hs.modify fun _ _ hq => hq
  · exact hs

/-- A transition stalls and does nothing, or performs its actions and sets the next state. -/
theorem Bank.doTransition_cases {b b' : Bank n B ρ} {now : Tick} {slots : Bool} {inp : In n B}
    {e : Event} {address : Addr} {o : Option (Ctx n B)}
    (h : b.doTransition p rp now slots inp e address = some (b', o)) :
    (b' = b ∧ o = none) ∨ ∃ next actions c,
      transition (b.line address).getState e = some (next, actions) ∧
      Lib.perform (Bank.exec p rp now address inp) actions
        ⟨b.L2cache, b.L2cache.findTagInSet address, { line := b.line address }⟩ = some c ∧
      b' = b.commit address next c ∧ o = some c.ctx := by
  obtain ⟨⟨next, actions⟩, htr, hx⟩ := Option.bind_eq_some_iff.mp h
  dsimp only at hx
  split_ifs at hx
  · cases hx
    exact .inl ⟨rfl, rfl⟩
  · obtain ⟨c, hc, hx⟩ := Option.map_eq_some_iff.mp hx
    cases hx
    exact .inr ⟨next, actions, c, htr, hc, rfl, rfl⟩

theorem Unmarked.doTransition {b b' : Bank n B ρ} {now : Tick} {slots : Bool} {inp : In n B}
    {e : Event} {address : Addr} {o : Option (Ctx n B)} (h : Unmarked b.L2cache)
    (hb : b.doTransition p rp now slots inp e address = some (b', o)) : Unmarked b'.L2cache := by
  obtain ⟨rfl, -⟩ | ⟨next, actions, c, -, hc, rfl, -⟩ := Bank.doTransition_cases hb
  · exact h
  · exact Unmarked.commit (Lib.perform_induct
      (P := fun c : BankCtx n B ρ => Unmarked c.L2cache ∧ c.ctx.Unmarked)
      (fun _ _ _ h hx => Bank.exec_unmarked h hx) ⟨h, h.line address⟩ hc)

theorem checkResourceAvailable_cache (s : CacheMemory (Entry n B) ρ) (now : Tick)
    (res : CacheResourceType) (a : Addr) :
    (s.checkResourceAvailable p now res a).1.m_cache = s.m_cache := by
  unfold CacheMemory.checkResourceAvailable
  cases res <;> split_ifs <;> rfl

/-- The in_ports ask for a bank of the data array and look up, and do no more to the array. -/
theorem Bank.portIn_induct {b b' : Bank n B ρ} {x : Arrival n B} {o : Option (Event × Addr)}
    {P : CacheMemory (Entry n B) ρ → Prop} (h : P b.L2cache)
    (hcheck : ∀ s a, P s → P (s.checkResourceAvailable p x.now .DataArray a).1)
    (hlookup : ∀ s a, P s → P (s.lookup x.now a).1)
    (hx : b.portIn p rp x = some (b', o)) : P b'.L2cache ∧ b'.TBEs = b.TBEs := by
  have h₀ := hcheck b.L2cache x.address h
  have hl := hlookup _ x.address h₀
  unfold Bank.portIn at hx
  split at hx
  · simp only [Bank.requestIn] at hx
    split at hx
    · cases hx
      exact ⟨h₀, rfl⟩
    · obtain ⟨i, -, hx⟩ := Option.bind_eq_some_iff.mp hx
      split at hx
      · split at hx
        · cases hx
          exact ⟨hl, rfl⟩
        · obtain ⟨ev, -, hx⟩ := Option.map_eq_some_iff.mp hx
          cases hx
          exact ⟨hl, rfl⟩
      · split at hx
        · obtain ⟨ev, -, hx⟩ := Option.map_eq_some_iff.mp hx
          cases hx
          exact ⟨hl, rfl⟩
        · -- no room: the victim is looked up as well
          obtain ⟨victim, -, hx⟩ := Option.bind_eq_some_iff.mp hx
          split at hx
          · cases hx
            exact ⟨hlookup _ _ hl, rfl⟩
          · obtain ⟨e, -, hx⟩ := Option.map_eq_some_iff.mp hx
            cases hx
            exact ⟨hlookup _ _ hl, rfl⟩
  · simp only [Bank.responseIn] at hx
    split at hx
    · cases hx
      exact ⟨h₀, rfl⟩
    · obtain ⟨ev, -, hx⟩ := Option.map_eq_some_iff.mp hx
      cases hx
      exact ⟨hl, rfl⟩
  · obtain ⟨ev, -, hx⟩ := Option.map_eq_some_iff.mp hx
    cases hx
    exact ⟨hlookup _ _ h, rfl⟩

theorem Unmarked.portIn {b b' : Bank n B ρ} {x : Arrival n B} {o : Option (Event × Addr)}
    (h : Unmarked b.L2cache) (hx : b.portIn p rp x = some (b', o)) : Unmarked b'.L2cache :=
  (Bank.portIn_induct h (fun _ _ hs => hs.congr (checkResourceAvailable_cache _ _ _ _))
    (fun _ a hs => hs.lookup x.now a) hx).1

theorem unmarked_of_reach {r : ρ} {b : Bank n B ρ}
    (h : (bank p rp n B r).Reach (fun _ _ => True) b) : Unmarked b.L2cache := by
  refine h.invariant (I := fun b => Unmarked b.L2cache) ?_ ?_
  · rintro b rfl i j e ⟨⟩
  · rintro b x b' hb - hx
    obtain ⟨⟨b', o⟩, hp, rfl⟩ := Option.map_eq_some_iff.mp hx
    obtain ⟨⟨b₁, t⟩, h₁, h₂⟩ := Option.bind_eq_some_iff.mp hp
    have hb₁ := hb.portIn h₁
    cases t with
    | none => cases h₂; exact hb₁
    | some t => exact hb₁.doTransition h₂

/-! ### Requests for expired lines -/

/-- The line of `a` lies in the bank, stable, and is past its retention limit at `now`. -/
structure Bank.Late (b : Bank n B ρ) (now : Tick) (a : Addr)
    (e : AbstractCacheEntry (Entry n B)) : Prop where
  resident : b.L2cache.lookupConst a = some e
  stable : (b.line a).getState = .SS ∨ (b.line a).getState = .M
  late : now > e.m_last_refresh_tick + e.m_retention_limit

/-- The request triggers the replacement of its line. -/
def Bank.Evicts (p : Params) (rp : ReplacementPolicy ρ) (b : Bank n B ρ) (now : Tick) (a : Addr)
    (m : RequestMsg n B) : Prop :=
  ∃ b', b.requestIn p rp now a m = some (b', some (.L2_Replacement, a)) ∨
    b.requestIn p rp now a m = some (b', some (.L2_Replacement_clean, a))

/-- The request is answered with the data of the entry. -/
def Bank.Serves (p : Params) (rp : ReplacementPolicy ρ) (b : Bank n B ρ) (now : Tick) (a : Addr)
    (m : RequestMsg n B) (d : DataBlock B) : Prop :=
  ∃ b' c, b.process p rp { now := now, address := a, port := .request m } = some (b', some c) ∧
    ∃ i, ∃ r ∈ c.responseToL1 i, (r.type = .DATA ∨ r.type = .DATA_EXCLUSIVE) ∧ r.DataBlk = d

/-- The test of the in_port reads the field of the `.sm` file. -/
theorem member_expired (e : AbstractCacheEntry (Entry n B)) :
    member e (sliccMember "m_is_expired") = some e.ext.m_is_expired := by
  have h : sliccMember "m_is_expired" = "m_m_is_expired" := by decide
  rw [h]
  rfl

theorem lookup_of_const {s : CacheMemory (Entry n B) ρ} {a : Addr} (now : Tick)
    {e : AbstractCacheEntry (Entry n B)} (h : s.lookupConst a = some e) :
    (s.lookup now a).2 = some (CacheMemory.expire now e) ∧
      (s.lookup now a).1.lookupConst a = some (CacheMemory.expire now e) := by
  unfold CacheMemory.lookupConst at h
  cases hf : s.findTagInSet a with
  | none => rw [hf] at h; cases h
  | some w =>
      obtain ⟨i, j⟩ := w
      rw [hf] at h
      have he : s.m_cache i j = some e := h
      have hm : (s.modify i j (CacheMemory.expire now)).m_cache i j =
          some (CacheMemory.expire now e) := by simp [CacheMemory.modify, he]
      have hf' : (s.modify i j (CacheMemory.expire now)).findTagInSet a = some (i, j) := by
        obtain ⟨ha, -, hp⟩ := CacheMemory.expire_fields now e
        unfold CacheMemory.findTagInSet CacheMemory.findTag at hf ⊢
        rw [show (s.modify i j (CacheMemory.expire now)).m_tag_index = s.m_tag_index from rfl]
        grind
      have hl : s.lookup now a = (s.modify i j (CacheMemory.expire now),
          (s.modify i j (CacheMemory.expire now)).m_cache i j) := by
        unfold CacheMemory.lookup
        rw [hf]
      rw [hl]
      exact ⟨hm, by rw [CacheMemory.lookupConst, hf']; exact hm⟩

/-- Actions that keep the entry where it is act on the line as the L2 does. -/
theorem Bank.perform_ctx (p : Params) (rp : ReplacementPolicy ρ) (now : Tick) (address : Addr)
    {inp : In n B} : ∀ {actions : List Action} {c : BankCtx n B ρ} {x : Ctx n B},
      .qq_allocateL2CacheBlock ∉ actions → .rr_deallocateL2CacheBlock ∉ actions →
      Lib.perform (L2Cache.exec inp) actions c.ctx = some x →
      ∃ c', Lib.perform (Bank.exec p rp now address inp) actions c = some c' ∧ c'.ctx = x
  | [], c, x, _, _, hx => by
      cases hx
      exact ⟨c, rfl, rfl⟩
  | a :: actions, c, x, hq, hr, hx => by
      obtain ⟨x₁, h₁, h₂⟩ := Option.bind_eq_some_iff.mp hx
      obtain ⟨c₁, hc₁, rfl⟩ : ∃ c₁, Bank.exec p rp now address inp a c = some c₁ ∧ c₁.ctx = x₁ := by
        rw [List.mem_cons, not_or] at hq hr
        unfold Bank.exec
        split
        · exact absurd rfl hq.1
        · exact absurd rfl hr.1
        · cases h₁
          exact ⟨_, rfl, rfl⟩
        · rw [h₁]
          exact ⟨_, rfl, rfl⟩
      obtain ⟨c', hc', rfl⟩ := Bank.perform_ctx p rp now address
        (fun h => hq (List.mem_cons_of_mem _ h)) (fun h => hr (List.mem_cons_of_mem _ h)) h₂
      exact ⟨c', Option.bind_eq_some_iff.mpr ⟨c₁, hc₁, hc'⟩, rfl⟩

theorem checkResourceAvailable_const (s : CacheMemory (Entry n B) ρ) (now : Tick)
    (res : CacheResourceType) (a b : Addr) :
    (s.checkResourceAvailable p now res a).1.lookupConst b = s.lookupConst b := by
  unfold CacheMemory.checkResourceAvailable
  cases res <;> split_ifs <;> rfl

/-- A request for a line that is late triggers the event of its type. -/
theorem Bank.Late.requestIn {b : Bank n B ρ} {now : Tick} {a : Addr}
    {e : AbstractCacheEntry (Entry n B)} {m : RequestMsg n B} {i : Fin n} (rp : ReplacementPolicy ρ)
    (h : b.Late now a e) (hu : Unmarked b.L2cache) (hm : m.Requestor = .L1Cache i)
    (hav : (b.L2cache.checkResourceAvailable p now .DataArray a).2 = true) :
    ∃ b', b'.line a = b.line a ∧ b.requestIn p rp now a m =
      (L1Cache_request_type_to_event m.type (decide (i ∈ e.ext.Sharers))).map fun ev =>
        (b', some (ev, a)) := by
  have hc := h.resident
  rw [← checkResourceAvailable_const (p := p) b.L2cache now .DataArray a a] at hc
  obtain ⟨hl, hl'⟩ := lookup_of_const now hc
  have hext := (CacheMemory.expire_fields now e).2.1
  have hflag : e.ext.m_is_expired = false :=
    hu.line a e.ext (by simp [Bank.line, h.resident])
  refine ⟨{ b with L2cache :=
    ((b.L2cache.checkResourceAvailable p now .DataArray a).1.lookup now a).1 }, ?_, ?_⟩
  · simp [Bank.line, hl', hext, h.resident]
  · simp [Bank.requestIn, hav, hl, hm, MachineID.l1Cache, member_expired, hext, hflag]

/-- A request whose transition leaves the entry in its slot is answered as the L2 answers it. -/
theorem Bank.serves_of {b b' : Bank n B ρ} {now : Tick} {a : Addr} {m : RequestMsg n B} {ev : Event}
    (hreq : b.requestIn p rp now a m = some (b', some (ev, a))) {next : State}
    {actions : List Action} (ht : transition (b'.line a).getState ev = some (next, actions))
    (hq : .qq_allocateL2CacheBlock ∉ actions) (hr : .rr_deallocateL2CacheBlock ∉ actions)
    {x : Ctx n B} (hx : Lib.perform (L2Cache.exec { request := some m }) actions
      { line := b'.line a } = some x) {i : Fin n} {r : ResponseMsg n B} (hi : r ∈ x.responseToL1 i)
    (hty : r.type = .DATA ∨ r.type = .DATA_EXCLUSIVE) : b.Serves p rp now a m r.DataBlk := by
  obtain ⟨c, hc, rfl⟩ := Bank.perform_ctx p rp now a
    (c := ⟨b'.L2cache, b'.L2cache.findTagInSet a, { line := b'.line a }⟩) hq hr hx
  refine ⟨b'.commit a next c, c.ctx, ?_, i, r, hi, hty, rfl⟩
  simp [Bank.process, Bank.portIn, hreq, Bank.doTransition, ht, Port.inp, hc]

/-- The L2 answers a fetch of a stable line with the entry's data, and keeps the entry. -/
theorem request_answered {e : Entry n B} {t : Option (TBE n B)} {s : State}
    (hs : s = .SS ∨ s = .M) {m : RequestMsg n B} {i : Fin n} (hm : m.Requestor = .L1Cache i)
    (ht : m.type = .GETS ∨ m.type = .GET_INSTR ∨ m.type = .GETX) (sharer : Bool) :
    ∃ ev next actions x, L1Cache_request_type_to_event m.type sharer = some ev ∧
      transition s ev = some (next, actions) ∧ .qq_allocateL2CacheBlock ∉ actions ∧
      .rr_deallocateL2CacheBlock ∉ actions ∧
      Lib.perform (L2Cache.exec { request := some m }) actions { line := ⟨some e, t⟩ } = some x ∧
      ∃ r ∈ x.responseToL1 i, (r.type = .DATA ∨ r.type = .DATA_EXCLUSIVE) ∧
        r.DataBlk = e.DataBlk := by
  obtain ⟨ty, q, d, dirty, off, len⟩ := m
  obtain rfl : q = .L1Cache i := hm
  rcases hs with rfl | rfl <;> rcases ht with ht | ht | ht <;> dsimp only at ht <;> subst ht <;>
    exact ⟨_, _, _, _, rfl, rfl, by decide, by decide, rfl, _,
      by simp [Ctx.respond, Ctx.setEntry, Ctx.forward]; rfl, by simp, rfl⟩

theorem request_event_ne {t : CoherenceRequestType} {sharer : Bool} {ev : Event}
    (h : L1Cache_request_type_to_event t sharer = some ev) :
    ev ≠ .L2_Replacement ∧ ev ≠ .L2_Replacement_clean := by
  unfold L1Cache_request_type_to_event at h
  cases t <;> cases sharer <;> cases h <;> decide

theorem Bank.Late.not_evicts {b : Bank n B ρ} {now : Tick} {a : Addr}
    {e : AbstractCacheEntry (Entry n B)} {m : RequestMsg n B} {i : Fin n} (h : b.Late now a e)
    (hu : Unmarked b.L2cache) (hm : m.Requestor = .L1Cache i)
    (hav : (b.L2cache.checkResourceAvailable p now .DataArray a).2 = true) :
    ¬ b.Evicts p rp now a m := by
  obtain ⟨b', -, hreq⟩ := h.requestIn rp hu hm hav
  rintro ⟨b'', hev | hev⟩ <;> rw [hreq] at hev <;>
    obtain ⟨ev, hty, heq⟩ := Option.map_eq_some_iff.mp hev <;> cases heq
  · exact (request_event_ne hty).1 rfl
  · exact (request_event_ne hty).2 rfl

theorem Bank.Late.serves {b : Bank n B ρ} {now : Tick} {a : Addr}
    {e : AbstractCacheEntry (Entry n B)} {m : RequestMsg n B} {i : Fin n} (h : b.Late now a e)
    (hu : Unmarked b.L2cache) (hm : m.Requestor = .L1Cache i)
    (ht : m.type = .GETS ∨ m.type = .GET_INSTR ∨ m.type = .GETX)
    (hav : (b.L2cache.checkResourceAvailable p now .DataArray a).2 = true) :
    b.Serves p rp now a m e.ext.DataBlk := by
  obtain ⟨b', hline, hreq⟩ := h.requestIn rp hu hm hav
  have hline' : b'.line a = ⟨some e.ext, b.TBEs a⟩ := by
    rw [hline]
    simp [Bank.line, h.resident]
  have hst := h.stable
  rw [← hline] at hst
  obtain ⟨ev, next, actions, x, hev, htr, hq, hd, hx, y, hy, hty, hdata⟩ :=
    request_answered (e := e.ext) (t := b.TBEs a) hst hm ht (decide (i ∈ e.ext.Sharers))
  rw [hev] at hreq
  rw [← hdata]
  exact Bank.serves_of hreq htr hq hd (by rwa [hline']) hy hty

/-- An L1 fetches the line at address 0 and puts it back: the L2 holds it in `M`. -/
def fetchThenPut : List (Arrival 1 1) :=
  [{ now := 1, address := 0, port := .request { type := .GETS, Requestor := .L1Cache 0 } },
    { now := 2, address := 0
      port := .response { type := .MEMORY_DATA, Sender := .Directory, DataBlk := fun _ => 7 } },
    { now := 3, address := 0
      port := .unblock { type := .EXCLUSIVE_UNBLOCK, Sender := .L1Cache 0 } },
    { now := 4, address := 0, port := .request { type := .PUTX, Requestor := .L1Cache 0 } }]

/-- The L1's next load of the line. -/
def reload : RequestMsg 1 1 := { type := .GETS, Requestor := .L1Cache 0 }

/-- At tick 20 the line, refreshed at tick 2 for 10 ticks, is late; `lookup` marks it. -/
theorem fetchThenPut_late : ∃ b e, (bank fourSets firstWay 1 1 ()).Reach (fun _ _ => True) b ∧
    b.Late 20 0 e ∧ (CacheMemory.expire 20 e).m_is_expired = true ∧
    (b.L2cache.checkResourceAvailable fourSets 20 .DataArray 0).2 = true := by
  obtain ⟨b, hb, hav, hst, he⟩ := Lib.Machine.trace_reaches
    (M := bank fourSets firstWay 1 1 ()) (G := fun _ _ => True) (l := fetchThenPut)
    (P := fun b => (b.L2cache.checkResourceAvailable fourSets 20 .DataArray 0).2 = true ∧
      (b.line 0).getState = .M ∧ (b.L2cache.lookupConst 0).any (fun e =>
        decide (20 > e.m_last_refresh_tick + e.m_retention_limit) &&
          (CacheMemory.expire 20 e).m_is_expired) = true) rfl (by decide +kernel)
  obtain ⟨e, he, hlate⟩ := (Option.any_eq_true _ _).mp he
  rw [Bool.and_eq_true, decide_eq_true_eq] at hlate
  exact ⟨b, e, hb, ⟨he, .inr hst, hlate.1⟩, hlate.2, hav⟩

/-- **Expired lines are served.**  In every run of the controller, a request of an L1 that is
processed for a stable line past its retention limit does not trigger the replacement of the
line; unless it is an upgrade, it is answered with the line's data. -/
theorem expired_served {r : ρ} {b : Bank n B ρ} (hb : (bank p rp n B r).Reach (fun _ _ => True) b)
    {now : Tick} {a : Addr} {e : AbstractCacheEntry (Entry n B)} (h : b.Late now a e)
    {m : RequestMsg n B} {i : Fin n} (hm : m.Requestor = .L1Cache i)
    (ht : m.type = .GETS ∨ m.type = .GET_INSTR ∨ m.type = .GETX ∨ m.type = .UPGRADE)
    (hav : (b.L2cache.checkResourceAvailable p now .DataArray a).2 = true) :
    ¬ b.Evicts p rp now a m ∧ (m.type ≠ .UPGRADE → b.Serves p rp now a m e.ext.DataBlk) := by
  have hu := unmarked_of_reach hb
  refine ⟨h.not_evicts hu hm hav, fun hup => h.serves hu hm ?_ hav⟩
  simpa [hup] using ht

theorem expired_served_reload : ∃ b e, (bank fourSets firstWay 1 1 ()).Reach (fun _ _ => True) b ∧
    b.Late 20 0 e ∧ ¬ b.Evicts fourSets firstWay 20 0 reload ∧
    b.Serves fourSets firstWay 20 0 reload e.ext.DataBlk := by
  obtain ⟨b, e, hb, hlate, -, hav⟩ := fetchThenPut_late
  obtain ⟨hev, hs⟩ := expired_served hb hlate (m := reload) rfl (.inl rfl) hav
  exact ⟨b, e, hb, hlate, hev, hs (by decide)⟩

/-- A load that finds the line expired, and marked, is answered with the line. -/
theorem expired_line_sent : ∃ b e, (bank fourSets firstWay 1 1 ()).Reach (fun _ _ => True) b ∧
    fourSets.m_is_sttram = true ∧ b.Late 20 0 e ∧ (CacheMemory.expire 20 e).m_is_expired = true ∧
    ¬ b.Evicts fourSets firstWay 20 0 reload ∧
    b.Serves fourSets firstWay 20 0 reload e.ext.DataBlk := by
  obtain ⟨b, e, hb, hlate, hmark, hav⟩ := fetchThenPut_late
  have hu := unmarked_of_reach hb
  exact ⟨b, e, hb, rfl, hlate, hmark, hlate.not_evicts (m := reload) hu rfl hav,
    hlate.serves (m := reload) hu rfl (.inl rfl) hav⟩

end

end SttRuby.Protocol.L2Cache
