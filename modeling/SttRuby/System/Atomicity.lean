import SttRuby.Lib.Histories
import SttRuby.System.Cores

/-!
# System — Atomicity

What the protocol gives to the cores that use the line to synchronise.  The history of the answers
tells when each store took effect.

* **Load-linked and store-conditional** (`store_conditional_atomic`).  Between a store conditional
  that succeeds and the last load-linked of its core, no core has stored to the line.  The L1s have
  to tell their sequencers of evictions; otherwise an upgrade that has lost its copy keeps the
  monitor, and a store conditional succeeds that should not.
* **Locked read-modify-writes** (`locked_rmw_atomic`).  Between the two halves of a locked
  read-modify-write, no other core has stored to the line, whether the L1s tell of evictions or
  not.  A store of the same core may: one that waits behind the first half is completed with it.

Both rest on there being a single writer, and so on its condition (`recallsAlone`), and on two facts
about one L1 alone (`Kept`): it has a copy of the line as long as the monitor is set, and the only
copy as long as the line is blocked.
-/

namespace SttRuby.System

open Protocol
open Protocol.L1Cache.State (holds)

section

variable {n B : ℕ}

/-- The packet stored to the line, or may have. -/
def Hit.stores (h : Hit B) : Bool := !h.request.m_type.isLoad && h.success

/-- The core has read the line with a load-linked, and no one has stored to it since. -/
def Reserved (i : Fin n) : List (Fin n × Hit B) → Prop :=
  Lib.Since (fun x => x.1 = i ∧ x.2.request.m_type = .Load_Linked) fun x => x.2.stores = false

/-- The core is between the halves of a locked read-modify-write. -/
def Between (i : Fin n) : List (Fin n × Hit B) → Prop :=
  Lib.Since (fun x => x.1 = i ∧ x.2.request.m_type = .Locked_RMW_Read) fun x =>
    x.1 = i → x.2.request.m_type ≠ .Locked_RMW_Write

/-- Store conditionals succeed where the line has not been stored to since the load-linked. -/
def LLSCAtomic : List (Fin n × Hit B) → Prop :=
  Lib.Each fun h x => x.2.request.m_type = .Store_Conditional → x.2.success = true →
    Reserved x.1 h

/-- No core stores while another is between the halves of a locked read-modify-write. -/
def RMWAtomic : List (Fin n × Hit B) → Prop :=
  Lib.Each fun h x => x.2.stores = true → ∀ i, i ≠ x.1 → ¬ Between i h

instance (i : Fin n) (h : List (Fin n × Hit B)) : Decidable (Reserved i h) := by
  unfold Reserved
  infer_instance

instance (h : List (Fin n × Hit B)) : Decidable (LLSCAtomic h) := by
  unfold LLSCAtomic
  infer_instance

/-! ### One callback -/

/-- The history during a callback of the core `i`. -/
def during (h : List (Fin n × Hit B)) (i : Fin n) (c : Callback B) : List (Fin n × Hit B) :=
  h ++ c.hits.map fun x => (i, x)

/-- The monitor is set only where the line is reserved, if the L1s tell of evictions, and the line
is blocked wherever a read-modify-write is under way. -/
structure Watched (se : Bool) (h : List (Fin n × Hit B)) (i : Fin n) (c : Callback B) : Prop where
  reserved : se = true → c.monitor = true → Reserved i (during h i c)
  atomic : se = true → LLSCAtomic (during h i c)
  blocked : Between i (during h i c) → c.blocked = true

variable {se : Bool} {h : List (Fin n × Hit B)} {i : Fin n} {c : Callback B} {dcache : Bool}
  {r : SequencerRequest B}

theorem during_hitCallback (h : List (Fin n × Hit B)) (i : Fin n) (c : Callback B)
    (dcache : Bool) (r : SequencerRequest B) (b : Bool) :
    during h i (c.hitCallback dcache r b) =
      during h i c ++ [(i, ⟨r, b, (hitData r b c.data).2⟩)] := by
  simp [during, Callback.hitCallback]

/-- A load leaves the line as it is, and a load-linked reserves it. -/
theorem Watched.hit (hw : Watched se h i c) (hr : r.m_type.isLoad = true) :
    Watched se h i (c.hitCallback dcache r true) := by
  have hns : r.m_type ≠ .Store_Conditional := by
    rintro hs
    rw [hs] at hr
    cases hr
  have hnr : r.m_type ≠ .Locked_RMW_Read := by
    rintro hs
    rw [hs] at hr
    cases hr
  refine ⟨fun hse hm => ?_, fun hse => ?_, fun hb => ?_⟩
  · rw [during_hitCallback, Reserved, Lib.since_snoc]
    by_cases hll : r.m_type = .Load_Linked
    · exact .inl ⟨rfl, hll⟩
    · rw [Callback.hitCallback, if_neg hll] at hm
      exact .inr ⟨hw.reserved hse hm, by simp [Hit.stores, hr]⟩
  · rw [during_hitCallback, LLSCAtomic, Lib.each_snoc]
    exact ⟨hw.atomic hse, fun hs => absurd hs hns⟩
  · rw [during_hitCallback, Between, Lib.since_snoc] at hb
    rcases hb with ⟨-, hb⟩ | ⟨hb, -⟩
    · exact absurd hb hnr
    · exact hw.blocked hb

/-- A write clears the monitor, and succeeds as a store conditional only if it was set. -/
theorem Watched.write (hw : Watched se h i c) (hr : r.m_type.isLoad = false) :
    Watched se h i (c.write dcache r) := by
  have hnl : r.m_type ≠ .Load_Linked := by
    rintro hl
    rw [hl] at hr
    cases hr
  refine ⟨fun _ hm => ?_, fun hse => ?_, fun hb => ?_⟩
  · simp [Callback.write, Callback.hitCallback, hnl] at hm
  · rw [Callback.write, during_hitCallback, LLSCAtomic, Lib.each_snoc]
    refine ⟨hw.atomic hse, fun hs hsucc => ?_⟩
    have hs : r.m_type = .Store_Conditional := hs
    exact hw.reserved hse (by simpa [hs] using hsucc)
  · rw [Callback.write, during_hitCallback, Between, Lib.since_snoc] at hb
    rcases hb with ⟨-, hb⟩ | ⟨hb, hn⟩
    · have hb : r.m_type = .Locked_RMW_Read := hb
      simp [Callback.write, Callback.hitCallback, hb]
    · have hn : r.m_type ≠ .Locked_RMW_Write := hn rfl
      have hc := hw.blocked hb
      simp only [Callback.write, Callback.hitCallback]
      split
      · rfl
      · exact absurd ‹_› hn
      · exact hc

/-- **One callback** of the core `i`. -/
theorem Watched.loop {a : Answer} (ha : a = .read ∨ a = .write false)
    {rs rest : List (SequencerRequest B)} {c' : Callback B} (hw : Watched se h i c)
    (htyped : ∀ r ∈ rs, r.pkt.requestTypes = some (r.m_type, r.m_second_type))
    (hl : a.loop dcache true rs c = some (rest, c')) : Watched se h i c' := by
  have hissue : ∀ (c : Callback B) r, Watched se h i c → Watched se h i (c.issueRequest r) :=
    fun _ _ hw => ⟨hw.reserved, hw.atomic, hw.blocked⟩
  rcases ha with rfl | rfl
  · exact readLoop_keeps (fun _ _ hr hw => hw.hit hr) hissue
      (fun r hr => (Packet.type_of_requestTypes (htyped r hr)).1) hw hl
  · exact writeLoop_keeps (fun _ _ hr hw => hw.hit hr) (fun _ _ hr hw => hw.write hr) hissue hw hl

/-- A read callback stores nothing. -/
theorem readLoop_stores {rs rest : List (SequencerRequest B)} {c' : Callback B}
    (htyped : ∀ r ∈ rs, r.pkt.requestTypes = some (r.m_type, r.m_second_type))
    (hc : ∀ x ∈ c.hits, x.stores = false) (hl : readLoop dcache true rs c = some (rest, c')) :
    ∀ x ∈ c'.hits, x.stores = false := by
  refine readLoop_keeps (J := fun c => ∀ x ∈ c.hits, x.stores = false) ?_ (fun _ _ hc => hc)
    (fun r hr => (Packet.type_of_requestTypes (htyped r hr)).1) hc hl
  intro c r hr hc x hx
  rcases List.mem_append.mp hx with hx | hx
  · exact hc x hx
  · obtain rfl := List.mem_singleton.mp hx
    simp [Hit.stores, hr]

/-! ### One L1 -/

/-- The states that a store leaves the line in. -/
def written : L1Cache.State → Bool
  | .M | .LLSC_M => true
  | _ => false

/-- The cache that has the entry: `some true` for the instruction cache. -/
def place (l : L1Cache.Line B) : Option Bool := l.entry.map L1Cache.Entry.icache

/-- A copy or a miss has an entry, in the data cache if it is or will be written. -/
def Placed (s : L1Cache.State) (p : Option Bool) : Bool :=
  (!(holds s || s = .IS || s = .IS_I) || p.isSome) &&
    (!(written s || s = .IM || s = .SM) || p = some false)

/-- The place of the entry after an action. -/
def placeAfter : L1Cache.Action → Option Bool → Option (Option Bool)
  | .ff_deallocateL1CacheBlock, _ => some none
  | .oo_allocateL1DCacheBlock, p => some (p <|> some false)
  | .pp_allocateL1ICacheBlock, p => some (p <|> some true)
  | _, p => some p

/-- The mandatory queue is served from the right cache. -/
def fits : L1Cache.Event → Option Bool → Bool
  | .Load, p | .Store, p | .Load_Linked, p => p ≠ some true
  | .Ifetch, p => p ≠ some false
  | _, _ => true

/-- Whether the monitor may be set after an action, of L1s that tell of evictions. -/
def watchAfter (a : L1Cache.Action) (b : Bool) : Option Bool :=
  if callbackOf a ≠ none then some true
  else match a with
    | .forward_eviction_to_cpu | .ff_deallocateL1CacheBlock => some false
    | _ => some b

/-- What the table does to the place of the entry. -/
def placeCheck (s : L1Cache.State) (e : L1Cache.Event) (s' : L1Cache.State)
    (as : List L1Cache.Action) : Bool :=
  prefetching s || prefetchEvents.contains e || [none, some false, some true].all fun p =>
    !Placed s p || !fits e p || (Lib.perform placeAfter as p).any (Placed s')

/-- What it does to the monitor and to a blocked line: the monitor is not left set without a copy
of the line, a store leaves the line written, and so does what a blocked line allows. -/
def copyCheck (s : L1Cache.State) (e : L1Cache.Event) (s' : L1Cache.State)
    (as : List L1Cache.Action) : Bool :=
  ((Lib.perform watchAfter as (holds s)).any fun b => !b || holds s' || s' = .NP || s' = .I) &&
    (!(as.filterMap callbackOf).contains (.write false) || written s') &&
    (!(written s && (e = .Store || e = .LLSC_Timeout)) ||
      written s' && !(as.filterMap callbackOf).contains .read)

theorem table_places : (L1Cache.table.all fun r => r.states.all fun s => r.events.all fun e =>
    placeCheck s e (r.next.getD s) r.actions) = true := by decide +kernel

theorem table_copies : (L1Cache.table.all fun r => r.states.all fun s => r.events.all fun e =>
    copyCheck s e (r.next.getD s) r.actions) = true := by decide +kernel

section

variable {i : Fin n} {inp : L1Cache.In n B} {a : L1Cache.Action}

theorem exec_place {c c' : L1Cache.Ctx n B} (h : L1Cache.exec i inp a c = some c') :
    placeAfter a (place c.line) = some (place c'.line) := by
  cases a <;>
    simp only [L1Cache.exec, Option.bind_eq_some_iff, Option.map_eq_some_iff, Option.some.injEq,
      Option.ite_none_left_eq_some, Option.ite_none_right_eq_some] at h
  case oo_allocateL1DCacheBlock | pp_allocateL1ICacheBlock =>
    subst h
    cases hc : c.line.entry <;> simp [place, placeAfter, L1Cache.Ctx.setEntry, hc]
  all_goals grind [place, placeAfter, L1Cache.Ctx.setEntry, L1Cache.Ctx.setLock, L1Cache.Ctx.setTBE,
    L1Cache.Ctx.respond, L1Cache.Ctx.request, L1Cache.Ctx.unblock, L1Cache.storeHit]

/-- No entry is marked expired. -/
theorem exec_fresh {c c' : L1Cache.Ctx n B} (hc : ∀ e ∈ c.line.entry, e.m_is_expired = false)
    (h : L1Cache.exec i inp a c = some c') : ∀ e ∈ c'.line.entry, e.m_is_expired = false := by
  cases a <;>
    simp only [L1Cache.exec, Option.bind_eq_some_iff, Option.map_eq_some_iff, Option.some.injEq,
      Option.ite_none_left_eq_some, Option.ite_none_right_eq_some] at h
  case oo_allocateL1DCacheBlock | pp_allocateL1ICacheBlock =>
    subst h
    cases hc' : c.line.entry <;> simp_all [L1Cache.Ctx.setEntry]
  all_goals grind [L1Cache.Ctx.setEntry, L1Cache.Ctx.setLock, L1Cache.Ctx.setTBE,
    L1Cache.Ctx.respond, L1Cache.Ctx.request, L1Cache.Ctx.unblock, L1Cache.storeHit]

theorem exec_watch {t : Option RubyRequestType} {x x' : Turn n B} {b b' : Bool}
    (hx : x.core.monitor = true → b = true) (hb : watchAfter a b = some b')
    (h : Turn.exec true i inp t a x = some x') : x'.core.monitor = true → b' = true := by
  obtain ⟨ctx, -, h⟩ := Option.bind_eq_some_iff.mp h
  unfold watchAfter at hb
  cases ha : callbackOf a with
  | some ans =>
      rw [ha] at hb
      intro _
      simpa using hb.symm
  | none =>
      rw [ha] at h hb
      cases h
      cases a <;> simp [Core.act] at hb ⊢ <;> grind

end

/-- What holds of an L1 and its sequencer: the monitor is set for a copy, if the L1 tells of
evictions, and a blocked line is written and waits for the second half of the read-modify-write
only. -/
structure Kept (se : Bool) (l : L1Cache.Line B) (k : Core B) : Prop where
  fresh : ∀ e ∈ l.entry, e.m_is_expired = false
  placed : Placed l.getState (place l) = true
  monitor : se = true → k.monitor = true → holds l.getState = true
  blocked : k.blocked = true → written l.getState = true ∧
    ∀ r ∈ k.m_RequestTable, r.m_type = .Locked_RMW_Write

section

variable {sys : Sys n B} {i : Fin n} {k : Core B} {s : Stimulus n B}
  {w : DataBlock B → DataBlock B} {l : L1Label n B} {inp : L1Cache.In n B} {e : L1Cache.Event}

theorem fits_of_not_cpu (h : e ∉ cpuEvents) (p : Option Bool) : fits e p = true := by
  cases e <;> first | rfl | exact absurd (by decide) h

theorem event_fits (hl : s.label w = some l) (he : sys.l1Event i l = some (inp, e)) :
    fits e (place (sys.node i).line) = true := by
  obtain ⟨-, -, h | ⟨t, -, rfl, -⟩⟩ := event_cases hl he
  · exact fits_of_not_cpu h _
  · obtain ⟨t', -, rfl⟩ := cpu_event hl he
    unfold L1Cache.mandatoryEvent place
    cases (sys.node i).line.entry with
    | none => cases t' <;> rfl
    | some ent =>
        dsimp only [Option.map_some]
        split_ifs with h₁ h₂
        · rfl
        · rw [h₁]
          cases t' <;> rfl
        · rfl

theorem place_of_written {s : L1Cache.State} {p : Option Bool} (h : Placed s p = true)
    (hs : written s = true) : p = some false := by
  simp only [Placed, hs, Bool.true_or, Bool.not_true, Bool.false_or, Bool.and_eq_true,
    decide_eq_true_eq] at h
  exact h.2

theorem isSome_of_holds {s : L1Cache.State} {p : Option Bool} (h : Placed s p = true)
    (hs : holds s = true) : p.isSome = true := by
  simp only [Placed, hs, Bool.true_or, Bool.not_true, Bool.false_or, Bool.and_eq_true] at h
  exact h.1

theorem holds_of_written {s : L1Cache.State} (hs : written s = true) : holds s = true := by
  cases s <;> first | rfl | cases hs

theorem place_setState (l : L1Cache.Line B) (s : L1Cache.State) :
    place (l.setState s) = place l := by
  unfold place L1Cache.Line.setState
  cases l.entry <;> rfl

theorem placed_setState {l : L1Cache.Line B} {s : L1Cache.State}
    (h : Placed s (place l) = true) :
    Placed (l.setState s).getState (place (l.setState s)) = true := by
  rw [place_setState]
  rcases getState_setState l s with hs | ⟨-, hs⟩
  · rwa [hs]
  · rw [hs]
    rfl

/-- A blocked line sees the second half of the read-modify-write, and the timer. -/
theorem Kept.blocked_event (hk : Kept se (sys.node i).line k) (hm : Matches (sys.node i).line k)
    (hb : k.blocked = true) (ha : k.allows s = true) (hl : s.label w = some l)
    (he : sys.l1Event i l = some (inp, e)) : e = .Store ∨ e = .LLSC_Timeout := by
  obtain ⟨hw, hwrite⟩ := hk.blocked hb
  cases s with
  | cpu t =>
      obtain ⟨t', ht, rfl⟩ := cpu_event hl he
      -- a line that is written has no miss under way, so the request is for the packet in front
      have hnone : ticket (sys.node i).line = none := by
        unfold ticket
        cases mark (sys.node i).line with
        | none => rfl
        | some b => revert hw; cases (sys.node i).line.getState <;> first | (intro; rfl) | nofun
      have hdue := hm.due
      rw [hnone] at hdue
      have hmem : t ∈ k.mandatoryQueue := of_decide_eq_true ha
      rw [show k.mandatoryQueue = k.front.toList from hdue, Option.mem_toList] at hmem
      obtain ⟨r, hr, rfl⟩ := Option.map_eq_some_iff.mp hmem
      have hr := List.mem_of_mem_head? hr
      have hst : r.m_second_type = .ST := Packet.second_of_locked (hwrite r hr ▸ hm.typed r hr)
      rw [hst] at ht
      cases ht
      obtain ⟨ent, hent, hic⟩ := Option.map_eq_some_iff.mp (place_of_written hk.placed hw)
      exact .inl (by simp [L1Cache.mandatoryEvent, hent, hic, hk.fresh ent hent,
        L1Cache.mandatory_request_type_to_event])
  | llscTimeout =>
      cases hl
      simp only [Sys.l1Event, Option.ite_none_right_eq_some, Option.some.injEq,
        Prod.mk.injEq] at he
      exact .inr he.2.2.symm
  | replacement | request | response | responseFromL1 =>
      simp [Core.allows, hb] at ha

theorem Core.Calls.of_read {C : L1Cache.Entry B → Bool → Prop} {k' : Core B}
    {hits : List (Hit B)} (h : k.Calls C k' hits [.read])
    (htyped : ∀ r ∈ k.m_RequestTable, r.pkt.requestTypes = some (r.m_type, r.m_second_type)) :
    k'.blocked = k.blocked ∧ ∀ x ∈ hits, x.stores = false := by
  cases h with
  | @one _ e m c _ hl _ hb _ hh =>
      refine ⟨hb.trans ?_, ?_⟩
      · exact readLoop_keeps (J := fun c => c.blocked = k.blocked) (fun _ _ _ h => h)
          (fun _ _ h => h) (fun r hr => (Packet.type_of_requestTypes (htyped r hr)).1) rfl hl
      · rw [hh]
        exact readLoop_stores htyped (by simp) hl

theorem Core.Calls.of_write {C : L1Cache.Entry B → Bool → Prop} {k' : Core B}
    {hits : List (Hit B)} (h : k.Calls C k' hits [.write false])
    (htyped : ∀ r ∈ k.m_RequestTable, r.pkt.requestTypes = some (r.m_type, r.m_second_type)) :
    k'.m_RequestTable = [] := by
  cases h with
  | one _ hl =>
      exact writeLoop_all (fun r hr => (Packet.type_of_requestTypes (htyped r hr)).2) hl

/-- **One step** of an L1 and its sequencer: a store leaves the line written. -/
theorem Kept.transition {x : Turn n B} (hk : Kept se (sys.node i).line k)
    (hm : Matches (sys.node i).line k) (ha : k.allows s = true) (hl : s.label w = some l)
    (he : sys.l1Event i l = some (inp, e))
    (hx : Cores.doTransition se i inp s.type e (sys.node i).line k = some x) :
    Kept se x.ctx.line x.core ∧
      ((∃ h ∈ x.hits, h.stores = true) → written x.ctx.line.getState = true) := by
  obtain ⟨next, actions, htr, hcalls⟩ := Cores.doTransition_calls hx
  obtain ⟨⟨next', actions'⟩, htr', hx⟩ := Option.bind_eq_some_iff.mp hx
  cases Option.some.inj (htr.symm.trans htr')
  obtain ⟨y, hy, rfl⟩ := Option.map_eq_some_iff.mp hx
  have hctx := Lib.perform_map (f := Turn.ctx) (fun _ _ _ => Turn.exec_ctx) hy
  have hanswer := callbacks_cases actions
  -- what the table says of the transition
  have hplaced : Placed next (place y.ctx.line) = true := by
    have hcheck := Lib.declared_check table_places htr
    have hplace := Lib.perform_map (x := L1Cache.exec i inp) (y := placeAfter)
      (f := fun c => place c.line) (fun _ _ _ => exec_place) hctx
    have hpf : prefetching (sys.node i).line.getState = false := by
      have := hm.regular
      simp only [Regular, Bool.and_eq_true, Bool.not_eq_true'] at this
      exact this.1.2
    have hmem : place (sys.node i).line ∈ [none, some false, some true] := by
      rcases place (sys.node i).line with _ | _ | _ <;> decide
    simp only [placeCheck, hpf, Bool.false_or, Bool.or_eq_true, List.contains_iff_mem,
      (event_cases hl he).1, false_or] at hcheck
    have hcheck := List.all_eq_true.mp hcheck _ hmem
    dsimp only at hplace
    rw [hk.placed, event_fits hl he, hplace] at hcheck
    simpa using hcheck
  have hcheck := Lib.declared_check table_copies htr
  simp only [copyCheck, Bool.and_eq_true] at hcheck
  obtain ⟨⟨hwatch, hwrites⟩, hblocks⟩ := hcheck
  have hstate : holds next = true → (y.ctx.line.setState next).getState = next := fun h =>
    getState_setState_of_entry (by simpa [place] using isSome_of_holds hplaced h) next
  have hwritten : written next = true → written (y.ctx.line.setState next).getState = true := by
    intro h
    rwa [hstate (holds_of_written h)]
  have hblocked : k.blocked = true → written next = true ∧
      .read ∉ actions.filterMap callbackOf := by
    intro hb
    have hev : (e = .Store || e = .LLSC_Timeout) = true := by
      simpa using hk.blocked_event hm hb ha hl he
    simpa [(hk.blocked hb).1, hev] using hblocks
  have hmonitor : se = true → (y.core.changePermission next).monitor = true →
      holds next = true := by
    rintro rfl hmon
    obtain ⟨b, hb, hcheck⟩ := (Option.any_eq_true _ _).mp hwatch
    have hb : b = true := Lib.perform_sound
      (R := fun (x : Turn n B) b => x.core.monitor = true → b = true)
      (x := Turn.exec true i inp s.type) (fun _ _ _ _ _ hR hd => exec_watch hR hd)
      (hk.monitor rfl) hb hy (Core.changePermission_monitor hmon)
    subst hb
    cases next <;> first | rfl | exact absurd hcheck (by decide) | cases hmon
  -- and what the callback does, if there is one
  have hserved : ((Turn.setState next y).core.blocked = true → written next = true ∧
      ∀ r ∈ (Turn.setState next y).core.m_RequestTable, r.m_type = .Locked_RMW_Write) ∧
      ((∃ h ∈ (Turn.setState next y).hits, h.stores = true) → written next = true) := by
    generalize actions.filterMap callbackOf = A at hcalls hwrites hblocked hanswer
    rcases A with _ | ⟨ans, A⟩
    · cases hcalls with
      | none hr hb hm' hh =>
          refine ⟨fun hb' => ⟨(hblocked (hb ▸ hb')).1, ?_⟩, ?_⟩
          · rw [hr]
            exact (hk.blocked (hb ▸ hb')).2
          · rintro ⟨h, hh', -⟩
            simp [hh] at hh'
    · obtain rfl : A = [] := by cases hcalls; rfl
      rcases hanswer ans (by simp) with rfl | rfl
      · obtain ⟨hb, hst⟩ := hcalls.of_read hm.typed
        refine ⟨fun hb' => absurd (by simp) (hblocked (hb ▸ hb')).2, ?_⟩
        rintro ⟨h, hh, hs⟩
        simp [hst h hh] at hs
      · have hw : written next = true := by simpa using hwrites
        exact ⟨fun _ => ⟨hw, by simp [hcalls.of_write hm.typed]⟩, fun _ => hw⟩
  refine ⟨⟨?_, placed_setState hplaced, ?_, fun hb => ?_⟩, fun h => hwritten (hserved.2 h)⟩
  · intro e' he'
    obtain ⟨e₀, h₀, rfl⟩ := Option.map_eq_some_iff.mp he'
    exact Lib.perform_induct (P := fun c => ∀ e ∈ c.line.entry, e.m_is_expired = false)
      (fun _ _ _ => exec_fresh) hk.fresh hctx e₀ h₀
  · intro hse hmon
    rw [show (Turn.setState next y).ctx.line.getState = next from hstate (hmonitor hse hmon)]
    exact hmonitor hse hmon
  · exact ⟨hwritten (hserved.1 hb).1, (hserved.1 hb).2⟩

end

/-! ### Runs -/

variable {g g' : Cores n B}

/-- A single writer or many readers, along the runs of the protocol. -/
theorem one_writer {sys : Sys n B}
    (h : (protocol n B).Reach (fun g l => recallsAlone g l = true) sys) : sys.SingleWriter := by
  obtain ⟨⟨φ, d, -, hn⟩, -⟩ := coherent_of_reach h
  intro i j hj hi
  exact (hn j).not_holds (Phase.free_of_writer ((hn i).writer_of_owns hi) hj)

/-- Where one L1 has written the line, no other has a copy. -/
theorem SingleWriter.alone {sys : Sys n B} (h : sys.SingleWriter) {i j : Fin n} (hj : j ≠ i)
    (hi : written (sys.node i).line.getState = true) :
    holds (sys.node j).line.getState = false := by
  have hi' : (sys.node i).line.getState ∈ [L1Cache.State.E, .M, .LLSC_E, .LLSC_M] := by
    revert hi
    cases (sys.node i).line.getState <;> decide
  have := h i j hj hi'
  revert this
  cases (sys.node j).line.getState <;> decide

structure Cores.Atomic (se : Bool) (g : Cores n B) : Prop where
  kept : ∀ i, Kept se (g.sys.node i).line (g.core i)
  reserved : se = true → ∀ i, (g.core i).monitor = true → Reserved i g.history
  between : ∀ i, Between i g.history → (g.core i).blocked = true
  llsc : se = true → LLSCAtomic g.history
  rmw : RMWAtomic g.history

theorem Cores.Atomic.init (memory : DataBlock B) :
    ({ sys := start memory } : Cores n B).Atomic se := by
  refine ⟨fun _ => ⟨?_, rfl, ?_, ?_⟩, ?_, ?_, fun _ => Lib.each_nil, Lib.each_nil⟩
  · rintro _ ⟨⟩
  · rintro - ⟨⟩
  · rintro ⟨⟩
  · rintro - _ ⟨⟩
  · exact fun _ h => absurd h Lib.not_since_nil

/-- The core whose L1 takes a step. -/
theorem Core.Calls.watched {C : L1Cache.Entry B → Bool → Prop} {k k' : Core B}
    {hits : List (Hit B)} {as : List Answer} (hc : k.Calls C k' hits as)
    (has : ∀ a ∈ as, a = .read ∨ a = .write false)
    (htyped : ∀ r ∈ k.m_RequestTable, r.pkt.requestTypes = some (r.m_type, r.m_second_type))
    (hres : se = true → k.monitor = true → Reserved i h) (hat : se = true → LLSCAtomic h)
    (hbet : Between i h → k.blocked = true) :
    (se = true → k'.monitor = true → Reserved i (h ++ hits.map (i, ·))) ∧
      (se = true → LLSCAtomic (h ++ hits.map (i, ·))) ∧
      (Between i (h ++ hits.map (i, ·)) → k'.blocked = true) := by
  cases hc with
  | none hr hb hm hh =>
      subst hh
      rw [List.map_nil, List.append_nil, hb]
      exact ⟨fun hse hk => hres hse (hm hk), hat, hbet⟩
  | one _ hl hk hb hm hh =>
      have hw : Watched se h i _ := Watched.loop (has _ (by simp))
        ⟨fun hse hm => by simpa [during] using hres hse (hk hm), by simpa [during] using hat,
          fun hb => hbet (by simpa [during] using hb)⟩ htyped hl
      rw [hh, hb]
      exact ⟨fun hse hk => hw.reserved hse (hm hk), hw.atomic, hw.blocked⟩

theorem Cores.Atomic.l1Step (hg : g.Atomic se) (hagree : g.Agree) {s : Stimulus n B}
    (hstep : g.l1Step se i s = some g') (hone : g'.sys.SingleWriter) : g'.Atomic se := by
  obtain ⟨l, inp, e, x, ha, hl, he, hx, rfl⟩ := Cores.l1Step_some hstep
  obtain ⟨hkept, hstores⟩ := (hg.kept i).transition (hagree.same i) ha hl he hx
  obtain ⟨next, actions, -, hcalls⟩ := Cores.doTransition_calls hx
  obtain ⟨hres, hllsc, hbet⟩ := hcalls.watched (callbacks_cases actions) (hagree.same i).typed
    (fun hse => hg.reserved hse i) hg.llsc (hg.between i)
  -- a store leaves no copy with the others
  have halone : (∃ h ∈ x.hits, h.stores = true) → ∀ j, j ≠ i →
      holds (g.sys.node j).line.getState = false := by
    intro hst j hj
    have := SingleWriter.alone hone hj (by rw [Cores.after_line, if_pos rfl]; exact hstores hst)
    rwa [Cores.after_line, if_neg hj] at this
  have hother : ∀ {j} {q : List (Hit B)}, j ≠ i → Between j (g.history ++ q.map (i, ·)) →
      (g.core j).blocked = true := by
    intro j q hj hb
    refine hg.between j (Lib.Since.of_append ?_ hb)
    rintro _ hy ⟨hy', -⟩
    obtain ⟨x, -, rfl⟩ := List.mem_map.mp hy
    exact hj hy'.symm
  refine ⟨fun j => ?_, fun hse j hmon => ?_, fun j hb => ?_, hllsc, hg.rmw.append ?_⟩
  · rw [Cores.after_line]
    by_cases hj : j = i
    · subst hj
      simpa [Cores.after] using hkept
    · simpa [Cores.after, hj] using hg.kept j
  · by_cases hj : j = i
    · subst hj
      exact hres hse (by simpa [Cores.after] using hmon)
    · have hmon : (g.core j).monitor = true := by simpa [Cores.after, hj] using hmon
      refine (hg.reserved hse j hmon).append fun y hy => ?_
      obtain ⟨h, hh, rfl⟩ := List.mem_map.mp hy
      by_contra hst
      have := halone ⟨h, hh, by simpa using hst⟩ j hj
      rw [(hg.kept j).monitor hse hmon] at this
      cases this
  · by_cases hj : j = i
    · subst hj
      simpa [Cores.after] using hbet hb
    · simpa [Cores.after, hj] using hother hj hb
  · intro p y q heq hst j hj hb
    obtain ⟨p', q', hq, rfl, hq'⟩ := List.map_eq_append_iff.mp heq
    obtain ⟨h, q'', rfl, rfl, -⟩ := List.map_eq_cons_iff.mp hq'
    have hj : j ≠ i := hj
    have hw := (hg.kept j).blocked (hother hj hb)
    have := halone ⟨h, by simp [hq], hst⟩ j hj
    rw [holds_of_written hw.1] at this
    cases this

theorem Kept.makeRequest {l : L1Cache.Line B} {k : Core B} (h : Kept se l k) {pkt : Packet B}
    {p t : RubyRequestType} (hp : ¬ (k.blocked && p ≠ .Locked_RMW_Write) = true) :
    Kept se l (k.makeRequest pkt p t) := by
  refine { h with blocked := fun hb => ⟨(h.blocked hb).1, fun r hr => ?_⟩ }
  have hb : k.blocked = true := hb
  rcases List.mem_append.mp hr with hr | hr
  · exact (h.blocked hb).2 r hr
  · obtain rfl := List.mem_singleton.mp hr
    simpa [hb] using hp

theorem Cores.Atomic.step (hg : g.Atomic se) (hagree : g.Agree) {l : CoresLabel n B}
    (hstep : g.step se l = some g') (hone : g'.sys.SingleWriter) : g'.Atomic se := by
  cases l with
  | makeRequest i pkt =>
      obtain rfl | ⟨p, t, -, hb, rfl⟩ := Cores.makeRequest_cases hstep
      · exact hg
      · refine { hg with
          kept := fun j => ?_
          reserved := fun hse j hj => hg.reserved hse j ?_
          between := fun j hj => ?_ }
        · by_cases hj : j = i
          · subst hj
            simpa using (hg.kept j).makeRequest hb
          · simpa [hj] using hg.kept j
        · by_cases hji : j = i
          · subst hji
            simpa [Core.makeRequest] using hj
          · simpa [hji] using hj
        · have := hg.between j hj
          by_cases hji : j = i
          · subst hji
            simpa [Core.makeRequest] using this
          · simpa [hji] using this
  | l1 i s => exact hg.l1Step hagree hstep hone
  | l2 l =>
      obtain ⟨sys, hs, rfl⟩ := Option.map_eq_some_iff.mp hstep
      exact { hg with kept := fun j => (Sys.l2Step_node hs j).1.symm ▸ hg.kept j }
  | home l =>
      obtain ⟨h', -, rfl⟩ := Option.map_eq_some_iff.mp hstep
      exact { hg with }

theorem atomic_of_reach (h : (cores n B se).Reach (along recallsAlone) g) : g.Atomic se := by
  refine (h.invariant (I := fun g => (cores n B se).Reach (along recallsAlone) g ∧ g.Atomic se)
    ?_ ?_).2
  · rintro _ ⟨memory, rfl⟩
    exact ⟨.init (cores_start se memory), .init memory⟩
  · rintro g l g' ⟨hreach, hg⟩ hl hs
    have hreach' := hreach.snoc hl hs
    exact ⟨hreach', hg.step (agree_of_reach hreach) hs (one_writer (sys_reach hreach'))⟩

/-- **Store conditionals are atomic.**  Where one succeeds, no core has stored to the line since
its core's last load-linked. -/
theorem store_conditional_atomic (h : (cores n B true).Reach (along recallsAlone) g) :
    LLSCAtomic g.history :=
  (atomic_of_reach h).llsc rfl

theorem store_conditional_atomic_linked : ∃ g, (cores 2 1 true).Reach (along recallsAlone) g ∧
    g.history.map (fun x => (x.2.request.m_type, x.2.success)) =
      [(.Load_Linked, true), (.Store_Conditional, true)] ∧ LLSCAtomic g.history := by
  have h : (((cores 2 1 true).trace (along recallsAlone) { sys := start fun _ => 0 } linked).any
      fun g => decide (g.history.map (fun x => (x.2.request.m_type, x.2.success)) =
        [(.Load_Linked, true), (.Store_Conditional, true)])) = true := by decide +kernel
  obtain ⟨g, hreach, hg⟩ := Lib.Machine.trace_reaches (cores_start true _) h
  exact ⟨g, hreach, hg, store_conditional_atomic hreach⟩

/-- Both cores load the line, the first one linked.  Its store conditional is to upgrade its copy,
but the store of the second core comes first and takes the copy away. -/
def upgradeLost : List (CoresLabel 2 1) :=
  [.makeRequest 1 loads, .l1 1 (.cpu .LD), .l2 (.request 1 (request .GETS (.L1Cache 1)))] ++
  (fetchZeros .GETS).filterMap beneath ++
  [.l1 1 (.response (response .DATA_EXCLUSIVE .L2Cache)),
    .l2 (.unblock 1 (response .EXCLUSIVE_UNBLOCK (.L1Cache 1))),
    .makeRequest 0 loads, .makeRequest 0 loadLinked, .l1 0 (.cpu .LD),
    .l2 (.request 0 (request .GETS (.L1Cache 0))),
    .l1 1 (.request (request .GETS (.L1Cache 0))),
    .l1 0 (.responseFromL1 1 (response .DATA (.L1Cache 1))),
    .l2 (.response 1 (response .DATA (.L1Cache 1))),
    .l2 (.unblock 0 (response .UNBLOCK (.L1Cache 0))),
    .makeRequest 0 (storeConditional 5), .l1 0 (.cpu .ST),
    .makeRequest 1 (stores 7), .l1 1 (.cpu .ST),
    .l2 (.request 1 (request .UPGRADE (.L1Cache 1))),
    .l1 0 (.request (request .INV (.L1Cache 1))),
    .l1 1 (.response { type := .ACK, Sender := .L2Cache, AckCount := -1 }),
    .l1 1 (.responseFromL1 0 (invAck 0)),
    .l2 (.unblock 1 (response .EXCLUSIVE_UNBLOCK (.L1Cache 1))),
    .l2 (.request 0 (request .UPGRADE (.L1Cache 0))),
    .l1 1 (.request (request .UPGRADE (.L1Cache 0))),
    .l1 0 (.responseFromL1 1
      { type := .DATA, Sender := .L1Cache 1, DataBlk := fun _ => 7, Dirty := true })]

/-- Without the eviction messages the store conditional of such a run succeeds. -/
theorem upgradeLost_succeeds : ∃ g, (cores 2 1 false).Reach (along recallsAlone) g ∧
    ¬ LLSCAtomic g.history := by
  have h : (((cores 2 1 false).trace (along recallsAlone) { sys := start fun _ => 0 }
      upgradeLost).any fun g => decide (¬ LLSCAtomic g.history)) = true := by decide +kernel
  exact Lib.Machine.trace_reaches (cores_start false _) h

/-- **Locked read-modify-writes are atomic.**  No other core has stored to the line between the
halves of one. -/
theorem locked_rmw_atomic (h : (cores n B se).Reach (along recallsAlone) g) :
    RMWAtomic g.history :=
  (atomic_of_reach h).rmw

/-- A locked read-modify-write of the first core, which the store of the second one waits for. -/
def lockedFirst : List (CoresLabel 2 1) :=
  [.makeRequest 0 lockedRead, .makeRequest 1 (stores 9), .l1 0 (.cpu .ST), .l1 1 (.cpu .ST),
    .l2 (.request 0 (request .GETX (.L1Cache 0)))] ++
  (fetchZeros .GETX).filterMap beneath ++
  [.l1 0 (.response (response .DATA .L2Cache)),
    .l2 (.unblock 0 (response .EXCLUSIVE_UNBLOCK (.L1Cache 0))),
    .l2 (.request 1 (request .GETX (.L1Cache 1))),
    .makeRequest 0 (lockedWrite 5), .l1 0 (.cpu .ST),
    .l1 0 (.request (request .GETX (.L1Cache 1))),
    .l1 1 (.responseFromL1 0
      { type := .DATA, Sender := .L1Cache 0, DataBlk := fun _ => 5, Dirty := true })]

theorem locked_rmw_atomic_lockedFirst : ∃ g, (cores 2 1 true).Reach (along recallsAlone) g ∧
    g.history.map (fun x => (x.1, x.2.request.m_type)) =
      [(0, .Locked_RMW_Read), (0, .Locked_RMW_Write), (1, .ST)] ∧ RMWAtomic g.history := by
  have h : (((cores 2 1 true).trace (along recallsAlone) { sys := start fun _ => 0 }
      lockedFirst).any fun g => decide (g.history.map (fun x => (x.1, x.2.request.m_type)) =
        [(0, .Locked_RMW_Read), (0, .Locked_RMW_Write), (1, .ST)])) = true := by decide +kernel
  obtain ⟨g, hreach, hg⟩ := Lib.Machine.trace_reaches (cores_start true _) h
  exact ⟨g, hreach, hg, locked_rmw_atomic hreach⟩

end

end SttRuby.System
