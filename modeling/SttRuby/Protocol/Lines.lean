import SttRuby.Cache.Frame
import SttRuby.Protocol.Bank

/-!
# Protocol — Lines

The bank as a family of lines.  A transition at an address leaves every other line alone, in a
bank of any geometry (`Bank.doTransition_elsewhere`).  `Tracks` says that the controller's
pointer is to the entry that the tag index finds, and that the line at hand is what is held there;
every action keeps it that does not fill a way (`Bank.exec_tracks`), so that a transition without
such an action does to its line what the L2 does to a line by itself (`Bank.doTransition_line`).
-/

namespace SttRuby.Protocol.L2Cache

open Cache CacheMemory

variable {n B : ℕ} {ρ : Type} {p : Params} {rp : ReplacementPolicy ρ}
  {s s' : CacheMemory (Entry n B) ρ} {a : Addr} {now : Tick}

/-! ### Writes through the pointer -/

/-- The pointer is to an entry of the address. -/
def PointsTo (s : CacheMemory (Entry n B) ρ) (cache_entry : Option (ℕ × ℕ)) (a : Addr) : Prop :=
  ∀ w, cache_entry = some w → s.addressAt w.1 w.2 = some a

theorem PointsTo.congr {w : Option (ℕ × ℕ)} (h : PointsTo s w a)
    (hs : ∀ v : ℕ × ℕ, s'.addressAt v.1 v.2 = s.addressAt v.1 v.2) : PointsTo s' w a :=
  fun v hv => (hs v).trans (h v hv)

theorem pointsTo_find (s : CacheMemory (Entry n B) ρ) (a : Addr) :
    PointsTo s (s.findTagInSet a) a := by
  intro w hw
  obtain ⟨e, he⟩ := findTagInSet_iff.mp hw
  rw [addressAt, he.entry, Option.map_some, he.address]

theorem PointsTo.address {w : ℕ × ℕ} (h : PointsTo s (some w) a) :
    ∀ e, s.m_cache w.1 w.2 = some e → e.m_Address = a := by
  intro e he
  have := h w rfl
  rw [addressAt, he] at this
  exact Option.some.inj this

theorem setSlot_elsewhere {w : Option (ℕ × ℕ)} (h : PointsTo s w a) (x : Option (Entry n B)) :
    Elsewhere a s (setSlot s w x) ∧
      ∀ v : ℕ × ℕ, (setSlot s w x).addressAt v.1 v.2 = s.addressAt v.1 v.2 := by
  unfold setSlot
  split
  · exact ⟨fun b hb => modify_held_of_ne hb h.address fun _ => rfl, addressAt_modify fun _ => rfl⟩
  · exact ⟨fun _ _ => rfl, fun _ => rfl⟩

theorem setPermission_elsewhere {w : Option (ℕ × ℕ)} (h : PointsTo s w a)
    (perm : AccessPermission) : Elsewhere a s (setPermission s w perm) := by
  unfold setPermission
  split
  · exact fun b hb => modify_held_of_ne hb h.address fun _ => rfl
  · exact fun _ _ => rfl

/-- The write of an entry that the index finds. -/
theorem setSlot_held {t : Tick} {x : Option (Entry n B)}
    (hx : x.isSome = (s.held a).isSome) (ht : ∀ y ∈ s.held a, y.2 = t) :
    (setSlot s (s.findTagInSet a) x).findTagInSet a = s.findTagInSet a ∧
      (setSlot s (s.findTagInSet a) x).held a = x.map (·, t) := by
  cases hf : s.findTagInSet a with
  | none =>
      have hnone : s.held a = none := by simp [held, lookupConst, hf, entryAt]
      rw [hnone] at hx
      obtain rfl : x = none := by simpa using hx
      exact ⟨hf, hnone⟩
  | some w =>
      obtain ⟨e, he⟩ := findTagInSet_iff.mp hf
      rw [he.held_eq] at hx ht
      obtain ⟨x, rfl⟩ := Option.isSome_iff_exists.mp hx
      have he' := he.modify (f := fun e => { e with ext := x }) rfl he.present
      refine ⟨findTagInSet_iff.mpr ⟨_, he'⟩, he'.held_eq.trans ?_⟩
      rw [Option.map_some, ← ht _ rfl]

theorem setPermission_held {perm : AccessPermission} (hp : perm ≠ .NotPresent) :
    (setPermission s (s.findTagInSet a) perm).held a = s.held a := by
  cases hf : s.findTagInSet a with
  | none => rfl
  | some w =>
      obtain ⟨e, he⟩ := findTagInSet_iff.mp hf
      have he' := he.modify (f := fun e => { e with m_Permission := perm }) rfl hp
      exact he'.held_eq.trans he.held_eq.symm

/-! ### Recorded accesses -/

/-- The accesses recorded for the address, with a data write among them if `wr`. -/
structure Recorded (now : Tick) (a : Addr) (wr : Bool) (s s' : CacheMemory (Entry n B) ρ) :
    Prop where
  elsewhere : Elsewhere a s s'
  held : s'.held a = (s.held a).map fun x => (x.1, if wr then now else x.2)
  find : ∀ b, s'.findTagInSet b = s.findTagInSet b
  address : ∀ w : ℕ × ℕ, s'.addressAt w.1 w.2 = s.addressAt w.1 w.2
  ignore : ∀ b, s'.findTagInSetIgnorePermissions b = s.findTagInSetIgnorePermissions b
  free : ∀ w : ℕ × ℕ, s'.isFree w.1 w.2 = s.isFree w.1 w.2

theorem Recorded.of_quiet (h : s.Quiet s') : Recorded now a false s s' where
  elsewhere := h.elsewhere a
  held := by simp [h.held]
  find := h.find
  address := h.address
  ignore := h.ignore
  free := h.free

theorem Recorded.trans {wr wr' : Bool} {s'' : CacheMemory (Entry n B) ρ}
    (h : Recorded now a wr s s') (h' : Recorded now a wr' s' s'') :
    Recorded now a (wr || wr') s s'' where
  elsewhere := h.elsewhere.trans h'.elsewhere
  held := by
    rw [h'.held, h.held, Option.map_map]
    cases wr <;> cases wr' <;> rfl
  find b := (h'.find b).trans (h.find b)
  address w := (h'.address w).trans (h.address w)
  ignore b := (h'.ignore b).trans (h.ignore b)
  free w := (h'.free w).trans (h.free w)

theorem records_recorded (p : Params) (s : CacheMemory (Entry n B) ρ) (a : Addr) (now : Tick)
    {ts : List CacheRequestType} (hts : .TagArrayWrite ∉ ts) :
    Recorded now a (ts.contains .DataArrayWrite) s
      (ts.foldl (fun s t => s.recordRequestType p now t a) s) := by
  induction ts generalizing s with
  | nil => exact .of_quiet .refl
  | cons t ts ih =>
      rw [List.mem_cons, not_or] at hts
      have hstep : Recorded now a (t == .DataArrayWrite) s (s.recordRequestType p now t a) := by
        by_cases ht : t = .DataArrayWrite
        · subst ht
          obtain ⟨he, hh, hf, ha, hi, hw⟩ := record_writes (p := p) (s := s) now a
          exact ⟨he, by simpa using hh, hf, ha, hi, hw⟩
        · rw [beq_false_of_ne ht]
          exact .of_quiet (record_quiet now ht (Ne.symm hts.1) a)
      have h := hstep.trans (ih (s := s.recordRequestType p now t a) hts.2)
      rw [List.foldl_cons, List.contains_cons]
      rwa [Bool.beq_comm] at h

theorem no_tag_writes (x : Action) : .TagArrayWrite ∉ x.records := by cases x <;> decide

/-! ### Actions -/

variable {inp : In n B} {x : Action} {c c' : BankCtx n B ρ}

/-- An action on the line alone, with the accesses it records and the write of the entry. -/
theorem Bank.exec_eq (hq : x ≠ .qq_allocateL2CacheBlock) (hr : x ≠ .rr_deallocateL2CacheBlock)
    (hm : x ≠ .set_setMRU) :
    Bank.exec p rp now a inp x c = (L2Cache.exec inp x c.ctx).map fun ctx =>
      ⟨setSlot (x.records.foldl (fun s t => s.recordRequestType p now t a) c.L2cache)
        c.cache_entry ctx.line.entry, c.cache_entry, ctx⟩ := by
  unfold Bank.exec
  split
  · exact absurd rfl hq
  · exact absurd rfl hr
  · exact absurd rfl hm
  · rfl

/-- The entry that `allocate` returns is one of the address. -/
theorem pointsTo_allocated {y : Entry n B} (h : s.allocate p rp now a y = some s') :
    PointsTo s' (allocated p s a) a := by
  rintro ⟨i, j⟩ hw
  unfold allocated at hw
  unfold allocate at h
  cases hf : s.findTagInSetIgnorePermissions a with
  | some v =>
      rw [hf] at h hw
      cases h
      cases hw
      obtain ⟨e, he, ha⟩ := findIgnore_some hf
      simp [addressAt, reuse, CacheMemory.modify, he, ha]
  | none =>
      rw [hf] at h hw
      obtain ⟨way, hway, rfl⟩ := Option.map_eq_some_iff.mp h
      rw [hway] at hw
      cases hw
      simp [addressAt, fill]

/-- An action changes what is held at the address only. -/
theorem Bank.exec_elsewhere (h : PointsTo c.L2cache c.cache_entry a)
    (hx : Bank.exec p rp now a inp x c = some c') :
    PointsTo c'.L2cache c'.cache_entry a ∧ Elsewhere a c.L2cache c'.L2cache := by
  by_cases hq : x = .qq_allocateL2CacheBlock
  · subst hq
    simp only [Bank.exec] at hx
    split_ifs at hx
    · cases hx
      exact ⟨h, fun _ _ => rfl⟩
    · obtain ⟨s, hs, rfl⟩ := Option.map_eq_some_iff.mp hx
      exact ⟨pointsTo_allocated hs, allocate_elsewhere hs⟩
  by_cases hr : x = .rr_deallocateL2CacheBlock
  · subst hr
    cases hx
    exact ⟨nofun, (deallocate_held a).1⟩
  by_cases hm : x = .set_setMRU
  · subst hm
    cases hx
    have hmru : c.L2cache.Quiet (c.L2cache.setMRU p rp now a) := setMRU_quiet now a
    exact ⟨h.congr hmru.address, hmru.elsewhere a⟩
  rw [Bank.exec_eq hq hr hm] at hx
  obtain ⟨ctx, -, rfl⟩ := Option.map_eq_some_iff.mp hx
  have hrec := records_recorded p c.L2cache a now (no_tag_writes x)
  have hset := setSlot_elsewhere (h.congr hrec.address) ctx.line.entry
  exact ⟨(h.congr hrec.address).congr hset.2, hrec.elsewhere.trans hset.1⟩

/-- The pointer is to the entry that the index finds, and the line at hand is what is held there,
last refreshed at `t`. -/
structure Tracks (a : Addr) (t : Tick) (c : BankCtx n B ρ) : Prop where
  pointer : c.cache_entry = c.L2cache.findTagInSet a
  held : c.L2cache.held a = c.ctx.line.entry.map (·, t)

/-- The actions that keep an entry where it is. -/
theorem exec_entry_isSome {k k' : Ctx n B} (hq : x ≠ .qq_allocateL2CacheBlock)
    (hr : x ≠ .rr_deallocateL2CacheBlock) (hx : L2Cache.exec inp x k = some k') :
    k'.line.entry.isSome = k.line.entry.isSome := by
  rcases he : k.line.entry with _ | e₀ <;> cases x <;>
    simp only [L2Cache.exec, Option.bind_eq_some_iff, Option.map_eq_some_iff, Option.some.injEq]
      at hx <;>
    grind [Ctx.forward, Ctx.respond, Ctx.fetch, Ctx.writeBack, Ctx.setEntry, Ctx.setTBE]

/-- An action that fills no way does to the line what it does to a line by itself. -/
theorem Bank.exec_tracks {t : Tick} (h : Tracks a t c)
    (hq : x = .qq_allocateL2CacheBlock → c.ctx.line.entry.isSome = true)
    (hx : Bank.exec p rp now a inp x c = some c') :
    Tracks a (if .DataArrayWrite ∈ x.records then now else t) c' ∧
      L2Cache.exec inp x c.ctx = some c'.ctx := by
  by_cases hal : x = .qq_allocateL2CacheBlock
  · subst hal
    obtain ⟨e, he⟩ := Option.isSome_iff_exists.mp (hq rfl)
    rw [Bank.exec, if_pos (hq rfl)] at hx
    cases hx
    have hor : (c.ctx.line.entry <|> some ({} : Entry n B)) = c.ctx.line.entry := by rw [he]; rfl
    refine ⟨h, ?_⟩
    simp only [L2Cache.exec, hor]
    rfl
  by_cases hr : x = .rr_deallocateL2CacheBlock
  · subst hr
    cases hx
    obtain ⟨-, hh, hf⟩ := @deallocate_held _ _ rp c.L2cache a
    exact ⟨⟨hf.symm, hh⟩, rfl⟩
  by_cases hm : x = .set_setMRU
  · subst hm
    cases hx
    have hmru : c.L2cache.Quiet (c.L2cache.setMRU p rp now a) := setMRU_quiet now a
    exact ⟨⟨h.pointer.trans (hmru.find a).symm, (hmru.held a).trans h.held⟩, rfl⟩
  rw [Bank.exec_eq hal hr hm] at hx
  obtain ⟨ctx, hctx, rfl⟩ := Option.map_eq_some_iff.mp hx
  refine ⟨?_, hctx⟩
  have hrec := records_recorded p c.L2cache a now (no_tag_writes x)
  have hheld := hrec.held
  rw [h.held, Option.map_map] at hheld
  have hset := setSlot_held (a := a) (s := x.records.foldl
      (fun s t => s.recordRequestType p now t a) c.L2cache)
    (t := if .DataArrayWrite ∈ x.records then now else t) (x := ctx.line.entry)
    (by rw [hheld, Option.isSome_map, exec_entry_isSome hal hr hctx]) (by
      rintro y hy
      rw [hheld] at hy
      obtain ⟨e, -, rfl⟩ := Option.map_eq_some_iff.mp hy
      simp)
  rw [hrec.find, ← h.pointer] at hset
  exact ⟨hset.1.symm, hset.2⟩

/-! ### Transitions -/

/-- A transition's actions record a data write. -/
def writesData (actions : List Action) : Bool := actions.any (·.records.contains .DataArrayWrite)

theorem Bank.perform_tracks : ∀ {actions : List Action} {t : Tick} {c c' : BankCtx n B ρ},
    (.qq_allocateL2CacheBlock ∈ actions →
      c.ctx.line.entry.isSome = true ∧ .rr_deallocateL2CacheBlock ∉ actions) → Tracks a t c →
    Lib.perform (Bank.exec p rp now a inp) actions c = some c' →
    Tracks a (if writesData actions then now else t) c' ∧
      Lib.perform (L2Cache.exec inp) actions c.ctx = some c'.ctx
  | [], _, _, _, _, h, hx => by
      cases hx
      exact ⟨h, rfl⟩
  | x :: actions, t, c, c', hq, h, hx => by
      obtain ⟨c₁, h₁, h₂⟩ := Option.bind_eq_some_iff.mp hx
      obtain ⟨ht₁, hx₁⟩ := Bank.exec_tracks h (fun hal => (hq (hal ▸ List.mem_cons_self)).1) h₁
      have hq₁ : .qq_allocateL2CacheBlock ∈ actions →
          c₁.ctx.line.entry.isSome = true ∧ .rr_deallocateL2CacheBlock ∉ actions := by
        intro hal
        obtain ⟨hsome, hr⟩ := hq (List.mem_cons_of_mem x hal)
        rw [List.mem_cons, not_or] at hr
        by_cases hal' : x = .qq_allocateL2CacheBlock
        · subst hal'
          rw [Bank.exec, if_pos hsome] at h₁
          cases h₁
          exact ⟨hsome, hr.2⟩
        · exact ⟨(exec_entry_isSome hal' (Ne.symm hr.1) hx₁).trans hsome, hr.2⟩
      obtain ⟨ht', hx'⟩ := Bank.perform_tracks hq₁ ht₁ h₂
      refine ⟨?_, Option.bind_eq_some_iff.mpr ⟨_, hx₁, hx'⟩⟩
      have htick : (if writesData actions then now
          else if .DataArrayWrite ∈ x.records then now else t) =
          if writesData (x :: actions) then now else t := by
        simp only [writesData, List.any_cons]
        grind
      exact htick ▸ ht'

theorem permission_present (next : State) : next.permission ≠ .NotPresent := by
  cases next <;> decide

/-- The lines of a bank are what is held and the TBEs. -/
theorem Bank.line_eq (b : Bank n B ρ) (x : Addr) :
    b.line x = ⟨(b.L2cache.held x).map Prod.fst, b.TBEs x⟩ := by
  simp [Bank.line, held, Function.comp_def]

theorem Bank.commit_elsewhere (b : Bank n B ρ) (next : State)
    (h : PointsTo c.L2cache c.cache_entry a) :
    Elsewhere a c.L2cache (b.commit a next c).L2cache := by
  have hset := setSlot_elsewhere h (c.ctx.line.setState next).entry
  exact hset.1.trans (setPermission_elsewhere (h.congr hset.2) _)

theorem Bank.commit_held (b : Bank n B ρ) (next : State) {t : Tick} (h : Tracks a t c) :
    (b.commit a next c).L2cache.held a = (c.ctx.line.setState next).entry.map (·, t) := by
  have hset := setSlot_held (s := c.L2cache) (a := a) (t := t)
    (x := (c.ctx.line.setState next).entry) (by simp [h.held, Line.setState]) (by
      rintro y hy
      rw [h.held] at hy
      obtain ⟨e, -, rfl⟩ := Option.map_eq_some_iff.mp hy
      rfl)
  rw [← h.pointer] at hset
  have hperm := setPermission_held (a := a) (permission_present next)
    (s := setSlot c.L2cache c.cache_entry (c.ctx.line.setState next).entry)
  rw [hset.1] at hperm
  exact hperm.trans hset.2

variable {b b' : Bank n B ρ} {e : Event} {slots : Bool} {o : Option (Ctx n B)} {k : Ctx n B}

/-- **Frame.**  A transition at an address leaves every other line alone. -/
theorem Bank.doTransition_elsewhere (h : b.doTransition p rp now slots inp e a = some (b', o)) :
    Elsewhere a b.L2cache b'.L2cache ∧ ∀ x, x ≠ a → b'.TBEs x = b.TBEs x := by
  obtain ⟨rfl, -⟩ | ⟨next, actions, c, -, hc, rfl, -⟩ := Bank.doTransition_cases h
  · exact ⟨fun _ _ => rfl, fun _ _ => rfl⟩
  · have hp := Lib.perform_induct (P := fun c : BankCtx n B ρ =>
        PointsTo c.L2cache c.cache_entry a ∧ Elsewhere a b.L2cache c.L2cache)
      (fun x c c' h hx => by
        obtain ⟨h₁, h₂⟩ := Bank.exec_elsewhere h.1 hx
        exact ⟨h₁, h.2.trans h₂⟩)
      ⟨pointsTo_find b.L2cache a, fun _ _ => rfl⟩ hc
    exact ⟨hp.2.trans (Bank.commit_elsewhere b next hp.1),
      fun x hx => Function.update_of_ne hx _ _⟩

theorem Bank.doTransition_line_of_ne (h : b.doTransition p rp now slots inp e a = some (b', o))
    {x : Addr} (hx : x ≠ a) : b'.line x = b.line x := by
  obtain ⟨hheld, htbe⟩ := Bank.doTransition_elsewhere h
  rw [Bank.line_eq, Bank.line_eq, hheld x hx, htbe x hx]

/-- The line at hand when a transition starts. -/
theorem Bank.tracks_start {t : Tick} (ht : ∀ y ∈ b.L2cache.held a, y.2 = t) :
    Tracks a t ⟨b.L2cache, b.L2cache.findTagInSet a, { line := b.line a }⟩ := by
  refine ⟨rfl, ?_⟩
  rw [Bank.line_eq]
  cases hh : b.L2cache.held a with
  | none => rfl
  | some y => rw [← ht y hh]; rfl

/-- No transition both allocates and deallocates. -/
theorem no_realloc {st next : State} {actions : List Action}
    (htr : transition st e = some (next, actions)) (hq : .qq_allocateL2CacheBlock ∈ actions) :
    .rr_deallocateL2CacheBlock ∉ actions := by
  have hc := Lib.declared_check (P := fun _ _ _ as =>
    !(as.contains .qq_allocateL2CacheBlock && as.contains .rr_deallocateL2CacheBlock))
    (by decide +kernel) htr
  simpa [hq] using hc

/-- What a transition that fills no way does to its line, which was last refreshed at `t`. -/
theorem Bank.doTransition_held {next : State} {actions : List Action} {t : Tick}
    (ht : ∀ y ∈ b.L2cache.held a, y.2 = t)
    (htr : transition (b.line a).getState e = some (next, actions))
    (hq : .qq_allocateL2CacheBlock ∈ actions → (b.line a).entry.isSome = true)
    (h : b.doTransition p rp now slots inp e a = some (b', some k)) :
    Lib.perform (L2Cache.exec inp) actions { line := b.line a } = some k ∧
    b'.line a = k.line.setState next ∧
    ∀ y ∈ b'.L2cache.held a, y.2 = if writesData actions then now else t := by
  obtain ⟨-, ho⟩ | ⟨next', actions', c, htr', hc, rfl, ho⟩ := Bank.doTransition_cases h
  · cases ho
  rw [htr] at htr'
  cases htr'
  cases ho
  obtain ⟨htracks, hperf⟩ := Bank.perform_tracks
    (fun hal => ⟨hq hal, no_realloc htr hal⟩) (Bank.tracks_start ht) hc
  have hheld := Bank.commit_held b next htracks
  refine ⟨hperf, ?_, fun y hy => ?_⟩
  · rw [Bank.line_eq, hheld]
    simp [Bank.commit, Function.comp_def]
  · rw [hheld] at hy
    obtain ⟨e, -, rfl⟩ := Option.map_eq_some_iff.mp hy
    rfl

theorem Bank.held_tick (b : Bank n B ρ) (a : Addr) : ∃ t, ∀ y ∈ b.L2cache.held a, y.2 = t := by
  cases hh : b.L2cache.held a with
  | none => exact ⟨0, nofun⟩
  | some y => exact ⟨y.2, fun z hz => by rw [Option.some.inj hz]⟩

/-- What a transition that fills no way does to its line. -/
theorem Bank.doTransition_line {next : State} {actions : List Action}
    (htr : transition (b.line a).getState e = some (next, actions))
    (hq : .qq_allocateL2CacheBlock ∈ actions → (b.line a).entry.isSome = true)
    (h : b.doTransition p rp now slots inp e a = some (b', some k)) :
    Lib.perform (L2Cache.exec inp) actions { line := b.line a } = some k ∧
      b'.line a = k.line.setState next := by
  obtain ⟨t, ht⟩ := b.held_tick a
  obtain ⟨hperf, hline, -⟩ := Bank.doTransition_held ht htr hq h
  exact ⟨hperf, hline⟩

/-- A transition for which there is no room in the TBE table does nothing. -/
theorem Bank.doTransition_stall (h : b.doTransition p rp now slots inp e a = some (b', none)) :
    b' = b := by
  obtain ⟨hb, -⟩ | ⟨_, _, c, -, -, -, ho⟩ := Bank.doTransition_cases h
  · exact hb
  · cases ho

/-! ### The in_ports -/

/-- The in_ports only look up. -/
theorem Bank.portIn_quiet {x : Arrival n B} {t : Option (Event × Addr)}
    (hx : b.portIn p rp x = some (b', t)) :
    b.L2cache.Quiet b'.L2cache ∧ b'.TBEs = b.TBEs :=
  Bank.portIn_induct .refl
    (fun _ a hs => hs.trans (checkResourceAvailable_quiet x.now .DataArray a))
    (fun _ a hs => hs.trans (lookup_quiet x.now a)) hx

theorem Bank.portIn_line {x : Arrival n B} {t : Option (Event × Addr)}
    (hx : b.portIn p rp x = some (b', t)) : b'.line = b.line := by
  obtain ⟨hq, ht⟩ := Bank.portIn_quiet hx
  funext y
  rw [Bank.line_eq, Bank.line_eq, hq.held, ht]

end SttRuby.Protocol.L2Cache
