import SttRuby.Cache.Packed
import SttRuby.Protocol.Lines
import SttRuby.Protocol.Shape

/-!
# Protocol — Representation

The representation invariant of the L2 controller: which of TBE and entry a line has, by its
state, and what the entry and the TBE say of sharers and requestors (`Line.Represented`).

Every transition of the bank does to the line at hand what the L2 does to a line by itself
(`Bank.doTransition_atHand`), so no assertion fails in a declared transition and an eviction starts
with an ack pending.  Whether the line can be found again is another matter.  A miss fills a way of
its set; if the packed code can name set and way (`Bank.packs`), the entry is found, and the line
of the bank is the line at hand (`Bank.doTransition_packed`).  If not, the entry is lost: the line
has a TBE and no entry (`Bank.doTransition_lost`), and the data of memory meet a failing assertion
(`fill_lost`).  So a step keeps the representation exactly if it packs (`lines_represented`).
-/

namespace SttRuby.Protocol.L2Cache

open Cache CacheMemory

variable {n B : ℕ} {ρ : Type} {p : Params} {rp : ReplacementPolicy ρ}
  {s s' : CacheMemory (Entry n B) ρ} {a : Addr} {now : Tick}

/-! ### Actions on the line at hand -/

section Actions

variable {inp : In n B} {x : Action} {c c' : BankCtx n B ρ} {t : Tick}

/-- A miss fills a free way of its set, points to it and goes on with a new entry. -/
theorem Bank.exec_allocate (hi : c.L2cache.findTagInSetIgnorePermissions a = none)
    (he : c.ctx.line.entry = none)
    (hx : Bank.exec p rp now a inp .qq_allocateL2CacheBlock c = some c') :
    ∃ way, c.L2cache.freeWay p (c.L2cache.addressToCacheSet p a) = some way ∧
      c'.L2cache = c.L2cache.fill p rp now a {} (c.L2cache.addressToCacheSet p a) way ∧
      c'.cache_entry = some (c.L2cache.addressToCacheSet p a, way) ∧
      L2Cache.exec inp .qq_allocateL2CacheBlock c.ctx = some c'.ctx := by
  simp only [Bank.exec, he, Option.isSome_none, Bool.false_eq_true, if_false] at hx
  obtain ⟨s, hs, rfl⟩ := Option.map_eq_some_iff.mp hx
  rw [CacheMemory.allocate, hi] at hs
  obtain ⟨way, hway, rfl⟩ := Option.map_eq_some_iff.mp hs
  have hptr : allocated p c.L2cache a = some (c.L2cache.addressToCacheSet p a, way) := by
    rw [allocated, hi, hway]
    rfl
  refine ⟨way, hway, rfl, hptr, ?_⟩
  rw [L2Cache.exec, he, hptr]
  simp [slotEntry, entryAt, CacheMemory.fill, AbstractCacheEntry.new]

/-- An action does to the line at hand what it does to a line by itself. -/
theorem Bank.exec_line
    (hal : x = .qq_allocateL2CacheBlock → c.ctx.line.entry = none →
      c.L2cache.findTagInSetIgnorePermissions a = none)
    (hx : Bank.exec p rp now a inp x c = some c') : L2Cache.exec inp x c.ctx = some c'.ctx := by
  by_cases hq : x = .qq_allocateL2CacheBlock
  · subst hq
    cases he : c.ctx.line.entry with
    | none =>
        obtain ⟨-, -, -, -, hex⟩ := Bank.exec_allocate (hal rfl he) he hx
        exact hex
    | some y =>
        rw [Bank.exec, if_pos (by rw [he]; rfl)] at hx
        cases hx
        have hor : (c.ctx.line.entry <|> some ({} : Entry n B)) = c.ctx.line.entry := by
          rw [he]; rfl
        rw [L2Cache.exec, hor]
        rfl
  by_cases hr : x = .rr_deallocateL2CacheBlock
  · subst hr
    cases hx
    rfl
  by_cases hm : x = .set_setMRU
  · subst hm
    cases hx
    rfl
  rw [Bank.exec_eq hq hr hm] at hx
  obtain ⟨ctx, hctx, rfl⟩ := Option.map_eq_some_iff.mp hx
  exact hctx

/-- The same for a sequence, whose first action alone may allocate. -/
theorem Bank.perform_line : ∀ {actions : List Action} {c c' : BankCtx n B ρ},
    .qq_allocateL2CacheBlock ∉ actions.tail →
    (actions.head? = some .qq_allocateL2CacheBlock → c.ctx.line.entry = none →
      c.L2cache.findTagInSetIgnorePermissions a = none) →
    Lib.perform (Bank.exec p rp now a inp) actions c = some c' →
    Lib.perform (L2Cache.exec inp) actions c.ctx = some c'.ctx
  | [], _, _, _, _, hx => by
      cases hx
      rfl
  | x :: actions, c, c', htail, hal, hx => by
      obtain ⟨c₁, h₁, h₂⟩ := Option.bind_eq_some_iff.mp hx
      have hno : .qq_allocateL2CacheBlock ∉ actions := htail
      have hex₁ := Bank.exec_line (fun hq => hal (by rw [hq]; rfl)) h₁
      have hperf := Bank.perform_line (fun hmem => hno (List.mem_of_mem_tail hmem))
        (fun hhead => absurd (List.mem_of_mem_head? hhead) hno) h₂
      exact Option.bind_eq_some_iff.mpr ⟨_, hex₁, hperf⟩

/-- An action that goes through on the line goes through in the bank, if there is room for an
entry that it allocates. -/
theorem Bank.exec_of_line {k : Ctx n B}
    (hroom : x = .qq_allocateL2CacheBlock → c.ctx.line.entry = none →
      (c.L2cache.allocate p rp now a {}).isSome = true)
    (hk : L2Cache.exec inp x c.ctx = some k) : ∃ c', Bank.exec p rp now a inp x c = some c' := by
  by_cases hal : x = .qq_allocateL2CacheBlock
  · subst hal
    simp only [Bank.exec]
    split_ifs with he
    · exact ⟨c, rfl⟩
    · obtain ⟨s, hs⟩ := Option.isSome_iff_exists.mp (hroom rfl (by simpa using he))
      exact ⟨_, by rw [hs]; rfl⟩
  by_cases hr : x = .rr_deallocateL2CacheBlock
  · subst hr
    exact ⟨_, rfl⟩
  by_cases hm : x = .set_setMRU
  · subst hm
    exact ⟨_, rfl⟩
  · exact ⟨_, by rw [Bank.exec_eq hal hr hm, hk]; rfl⟩

theorem Bank.perform_of_line : ∀ {actions : List Action} {c : BankCtx n B ρ} {k : Ctx n B},
    .qq_allocateL2CacheBlock ∉ actions.tail →
    (actions.head? = some .qq_allocateL2CacheBlock → c.ctx.line.entry = none →
      c.L2cache.findTagInSetIgnorePermissions a = none ∧
        (c.L2cache.allocate p rp now a {}).isSome = true) →
    Lib.perform (L2Cache.exec inp) actions c.ctx = some k →
    ∃ c', Lib.perform (Bank.exec p rp now a inp) actions c = some c'
  | [], c, _, _, _, _ => ⟨c, rfl⟩
  | x :: actions, c, k, htail, hroom, hk => by
      obtain ⟨k₁, hk₁, hk₂⟩ := Option.bind_eq_some_iff.mp hk
      have hfirst (hx : x = .qq_allocateL2CacheBlock) := hroom (by rw [hx]; rfl)
      obtain ⟨c₁, hc₁⟩ : ∃ c₁, Bank.exec p rp now a inp x c = some c₁ :=
        Bank.exec_of_line (fun hx he => (hfirst hx he).2) hk₁
      have hex₁ := Bank.exec_line (fun hx he => (hfirst hx he).1) hc₁
      obtain rfl : k₁ = c₁.ctx := Option.some.inj (hk₁.symm.trans hex₁)
      have hno : .qq_allocateL2CacheBlock ∉ actions := htail
      obtain ⟨c', hc'⟩ := Bank.perform_of_line (fun hmem => hno (List.mem_of_mem_tail hmem))
        (fun hhead => absurd (List.mem_of_mem_head? hhead) hno) hk₂
      exact ⟨c', Option.bind_eq_some_iff.mpr ⟨c₁, hc₁, hc'⟩⟩

/-! ### The entries of the bank -/

/-- The index leads to the present entries and nowhere else. -/
structure Exact (s : CacheMemory (Entry n B) ρ) : Prop where
  tight : s.Tight
  found : s.Found

theorem Exact.quiet (h : Exact s) (hq : s.Quiet s') : Exact s' :=
  ⟨h.tight.quiet hq, h.found.quiet hq⟩

/-- A write through the pointer changes no tag, address or permission. -/
theorem setSlot_index (s : CacheMemory (Entry n B) ρ) (w : Option (ℕ × ℕ))
    (y : Option (Entry n B)) :
    (∀ b, (setSlot s w y).findTagInSet b = s.findTagInSet b) ∧
      (∀ b, (setSlot s w y).findTagInSetIgnorePermissions b =
        s.findTagInSetIgnorePermissions b) ∧
      (∀ v : ℕ × ℕ, (setSlot s w y).addressAt v.1 v.2 = s.addressAt v.1 v.2) ∧
      ∀ v : ℕ × ℕ, (setSlot s w y).isFree v.1 v.2 = s.isFree v.1 v.2 := by
  unfold setSlot
  split
  · exact ⟨findTagInSet_modify (fun _ => rfl) fun _ => rfl, findIgnore_modify fun _ => rfl,
      addressAt_modify fun _ => rfl, isFree_modify fun _ => rfl⟩
  · exact ⟨fun _ => rfl, fun _ => rfl, fun _ => rfl, fun _ => rfl⟩

theorem Exact.setSlot (h : Exact s) (w : Option (ℕ × ℕ)) (y : Option (Entry n B)) :
    Exact (setSlot s w y) := by
  obtain ⟨hf, hi, ha, hw⟩ := setSlot_index s w y
  exact ⟨h.tight.congr hf hi, h.found.congr hf ha hw⟩

/-- The end of a transition whose pointer is to the entry that is found. -/
theorem Exact.setPermission (h : Exact s) {perm : AccessPermission}
    (hp : perm ≠ .NotPresent) : Exact (setPermission s (s.findTagInSet a) perm) := by
  cases hf : s.findTagInSet a with
  | none => exact h
  | some w =>
      obtain ⟨e, he⟩ := findTagInSet_iff.mp hf
      exact ⟨h.tight.modify (fun _ => rfl) fun _ _ => hp,
        h.found.modify (fun _ => rfl) (by simp [isFree, he.entry, he.present]) fun _ _ => hp⟩

theorem Tracks.find_none (h : Tracks a t c) (he : c.ctx.line.entry = none) :
    c.L2cache.findTagInSet a = none := by
  cases hf : c.L2cache.findTagInSet a with
  | none => rfl
  | some w =>
      obtain ⟨e, hold⟩ := findTagInSet_iff.mp hf
      have := h.held
      rw [hold.held_eq, he] at this
      cases this

/-- A miss fills a way that the code can name, and the pointer is to the entry that is found. -/
theorem Bank.allocate_tracks (h : Tracks a t c) (hE : Exact c.L2cache)
    (hfit : c.L2cache.fillFits p a = true) (he : c.ctx.line.entry = none)
    (hx : Bank.exec p rp now a inp .qq_allocateL2CacheBlock c = some c') :
    Tracks a now c' ∧ Exact c'.L2cache := by
  have hnone := h.find_none he
  obtain ⟨way, hway, hs, hptr, hex⟩ :=
    Bank.exec_allocate (hE.tight.findIgnore_none hnone) he hx
  obtain ⟨hset, hlt⟩ := of_decide_eq_true ((Option.all_eq_true _ _).mp hfit way hway)
  obtain ⟨e, hold, hext, htick⟩ :=
    @fill_holds _ _ p rp c.L2cache _ _ hset hlt now a ({} : Entry n B)
  have hentry : c'.ctx.line.entry = some {} := by
    rw [L2Cache.exec, he, Option.some.injEq] at hex
    rw [← hex]
    rfl
  rw [← hs] at hold
  refine ⟨⟨?_, ?_⟩, ?_⟩
  · rw [hptr]
    exact (findTagInSet_iff.mpr ⟨e, hold⟩).symm
  · rw [hold.held_eq, hext, htick, hentry]
    rfl
  · rw [hs]
    exact ⟨hE.tight.fill hset hlt now a {}, hE.found.fill hset hlt now hnone {}⟩

theorem Bank.exec_packed (h : Tracks a t c) (hE : Exact c.L2cache)
    (hfit : x = .qq_allocateL2CacheBlock → c.ctx.line.entry = none →
      c.L2cache.fillFits p a = true)
    (hx : Bank.exec p rp now a inp x c = some c') : (∃ t', Tracks a t' c') ∧ Exact c'.L2cache := by
  by_cases hfill : x = .qq_allocateL2CacheBlock ∧ c.ctx.line.entry = none
  · obtain ⟨rfl, he⟩ := hfill
    obtain ⟨htr, hE'⟩ := Bank.allocate_tracks h hE (hfit rfl he) he hx
    exact ⟨⟨now, htr⟩, hE'⟩
  have hsome : x = .qq_allocateL2CacheBlock → c.ctx.line.entry.isSome = true := by
    intro hal
    rw [Option.isSome_iff_ne_none]
    exact fun he => hfill ⟨hal, he⟩
  refine ⟨⟨_, (Bank.exec_tracks h hsome hx).1⟩, ?_⟩
  by_cases hal : x = .qq_allocateL2CacheBlock
  · subst hal
    rw [Bank.exec, if_pos (hsome rfl)] at hx
    cases hx
    exact hE
  by_cases hr : x = .rr_deallocateL2CacheBlock
  · subst hr
    cases hx
    exact ⟨hE.tight.deallocate a, hE.found.deallocate hE.tight a⟩
  by_cases hm : x = .set_setMRU
  · subst hm
    cases hx
    exact hE.quiet (setMRU_quiet now a)
  rw [Bank.exec_eq hal hr hm] at hx
  obtain ⟨ctx, -, rfl⟩ := Option.map_eq_some_iff.mp hx
  have hrec := records_recorded p c.L2cache a now (no_tag_writes x)
  exact Exact.setSlot ⟨hE.tight.congr hrec.find hrec.ignore,
    hE.found.congr hrec.find hrec.address hrec.free⟩ _ _

theorem Bank.perform_packed : ∀ {actions : List Action} {t : Tick} {c c' : BankCtx n B ρ},
    Tracks a t c → Exact c.L2cache → .qq_allocateL2CacheBlock ∉ actions.tail →
    (actions.head? = some .qq_allocateL2CacheBlock → c.ctx.line.entry = none →
      c.L2cache.fillFits p a = true) →
    Lib.perform (Bank.exec p rp now a inp) actions c = some c' →
    (∃ t', Tracks a t' c') ∧ Exact c'.L2cache
  | [], t, _, _, h, hE, _, _, hx => by
      cases hx
      exact ⟨⟨t, h⟩, hE⟩
  | x :: actions, _, c, c', h, hE, htail, hfit, hx => by
      obtain ⟨c₁, h₁, h₂⟩ := Option.bind_eq_some_iff.mp hx
      have hno : .qq_allocateL2CacheBlock ∉ actions := htail
      obtain ⟨⟨t₁, htr₁⟩, hE₁⟩ := Bank.exec_packed h hE (fun hq => hfit (by rw [hq]; rfl)) h₁
      exact Bank.perform_packed htr₁ hE₁ (fun hmem => hno (List.mem_of_mem_tail hmem))
        (fun hhead => absurd (List.mem_of_mem_head? hhead) hno) h₂

/-! ### Entries that are lost -/

/-- The pointer is to a way that the code cannot name, and the index finds nothing. -/
structure Lost (a : Addr) (c : BankCtx n B ρ) : Prop where
  find : c.L2cache.findTagInSet a = none
  pointer : ∀ w ∈ c.cache_entry, ¬ (w.1 < 65536 ∧ w.2 < 65536)

/-- A change of such an entry is not seen. -/
theorem findTagInSet_modify_far {i j : ℕ} (hij : ¬ (i < 65536 ∧ j < 65536))
    (f : AbstractCacheEntry (Entry n B) → AbstractCacheEntry (Entry n B)) (b : Addr) :
    (s.modify i j f).findTagInSet b = s.findTagInSet b := by
  refine (lookup_congr fun w e => ?_).1
  have hw (ht : ∃ c, s.m_tag_index b = some c ∧ w = (decodeSet c, decodeWay c)) :
      (s.modify i j f).m_cache w.1 w.2 = s.m_cache w.1 w.2 := by
    obtain ⟨c, -, rfl⟩ := ht
    rw [modify_apply, if_neg (decode_ne c hij).symm]
  constructor
  · rintro ⟨ht, he, ha, hn⟩
    exact ⟨ht, (hw ht).symm.trans he, ha, hn⟩
  · rintro ⟨ht, he, ha, hn⟩
    exact ⟨ht, (hw ht).trans he, ha, hn⟩

theorem Bank.exec_lost (h : Lost a c) (hal : x ≠ .qq_allocateL2CacheBlock)
    (hx : Bank.exec p rp now a inp x c = some c') : Lost a c' := by
  by_cases hr : x = .rr_deallocateL2CacheBlock
  · subst hr
    cases hx
    exact ⟨(@deallocate_held _ _ rp c.L2cache a).2.2, by rintro w ⟨⟩⟩
  by_cases hm : x = .set_setMRU
  · subst hm
    cases hx
    have hmru : c.L2cache.Quiet (c.L2cache.setMRU p rp now a) := setMRU_quiet now a
    exact ⟨(hmru.find a).trans h.find, h.pointer⟩
  rw [Bank.exec_eq hal hr hm] at hx
  obtain ⟨ctx, -, rfl⟩ := Option.map_eq_some_iff.mp hx
  have hrec := records_recorded p c.L2cache a now (no_tag_writes x)
  exact ⟨((setSlot_index _ _ _).1 a).trans ((hrec.find a).trans h.find), h.pointer⟩

/-- A miss that fills a way the code cannot name loses its entry. -/
theorem Bank.perform_lost {actions : List Action} (hE : Exact c.L2cache)
    (hnone : c.L2cache.findTagInSet a = none) (he : c.ctx.line.entry = none)
    (hfit : c.L2cache.fillFits p a = false) (htail : .qq_allocateL2CacheBlock ∉ actions)
    (hx : Lib.perform (Bank.exec p rp now a inp) (.qq_allocateL2CacheBlock :: actions) c =
      some c') : Lost a c' := by
  obtain ⟨c₁, h₁, h₂⟩ := Option.bind_eq_some_iff.mp hx
  obtain ⟨way, hway, hs, hptr, -⟩ :=
    Bank.exec_allocate (hE.tight.findIgnore_none hnone) he h₁
  have hfar : ¬ (c.L2cache.addressToCacheSet p a < 65536 ∧ way < 65536) := by
    simpa [fillFits, hway] using hfit
  refine Lib.perform_induct_mem (P := Lost a)
    (fun x hmem _ _ hl hx => Bank.exec_lost hl (fun hq => htail (hq ▸ hmem)) hx) ⟨?_, ?_⟩ h₂
  · rw [hs]
    exact hE.found.fill_unfound hfar now hnone {}
  · rw [hptr]
    rintro w ⟨⟩
    exact hfar

end Actions

/-! ### Transitions of the bank -/

section Transitions

variable {b b' : Bank n B ρ} {inp : In n B} {e : Event} {slots : Bool} {k : Ctx n B}
  {next : State} {actions : List Action} {a' : Addr}

/-- The transitions that allocate are misses in `NP`, with a TBE; they allocate once, first. -/
theorem allocate_rules {st : State} (htr : transition st e = some (next, actions)) :
    .qq_allocateL2CacheBlock ∉ actions.tail ∧
    (.qq_allocateL2CacheBlock ∈ actions → actions.head? = some .qq_allocateL2CacheBlock ∧
      .i_allocateTBE ∈ actions ∧ e.source = some .request ∧ st = .NP ∧
      next ∈ [State.ISS, .IS, .IM]) := by
  have hc := Lib.declared_check (P := fun st e next as =>
    !as.tail.contains .qq_allocateL2CacheBlock &&
    (!as.contains .qq_allocateL2CacheBlock || as.head? == some .qq_allocateL2CacheBlock &&
      as.contains .i_allocateTBE && e.source == some .request && st == .NP &&
      [State.ISS, .IS, .IM].contains next))
    (by decide +kernel) htr
  simpa [imp_iff_not_or, and_assoc] using hc

/-- A transition does to the line at hand what the L2 does to a line by itself. -/
theorem Bank.doTransition_atHand (ht : b.L2cache.Tight)
    (htr : transition (b.line a).getState e = some (next, actions))
    (h : b.doTransition p rp now slots inp e a = some (b', some k)) :
    Lib.perform (L2Cache.exec inp) actions { line := b.line a } = some k ∧
      b'.TBEs a = (k.line.setState next).tbe := by
  obtain ⟨-, ho⟩ | ⟨next', actions', c, htr', hc, rfl, ho⟩ := Bank.doTransition_cases h
  · cases ho
  rw [htr] at htr'
  cases htr'
  cases ho
  obtain ⟨t, htick⟩ := b.held_tick a
  have hstart := Bank.tracks_start htick
  refine ⟨Bank.perform_line (allocate_rules htr).1
    (fun _ he => ht.findIgnore_none (hstart.find_none he)) hc, ?_⟩
  simp [Bank.commit]

/-- If the way that a miss fills fits the code, the line of the bank is the line at hand. -/
theorem Bank.doTransition_packed (hE : Exact b.L2cache)
    (htr : transition (b.line a).getState e = some (next, actions))
    (hfit : actions.head? = some .qq_allocateL2CacheBlock → b.L2cache.fillFits p a = true)
    (h : b.doTransition p rp now slots inp e a = some (b', some k)) :
    Exact b'.L2cache ∧ b'.line a = k.line.setState next := by
  obtain ⟨-, ho⟩ | ⟨next', actions', c, htr', hc, rfl, ho⟩ := Bank.doTransition_cases h
  · cases ho
  rw [htr] at htr'
  cases htr'
  cases ho
  obtain ⟨t, htick⟩ := b.held_tick a
  obtain ⟨⟨t', htracks⟩, hE'⟩ := Bank.perform_packed (Bank.tracks_start htick) hE
    (allocate_rules htr).1 (fun hhead _ => hfit hhead) hc
  refine ⟨?_, ?_⟩
  · have hset := hE'.setSlot c.cache_entry (c.ctx.line.setState next).entry
    have hptr := htracks.pointer.trans ((setSlot_index c.L2cache c.cache_entry
      (c.ctx.line.setState next).entry).1 a).symm
    have hperm := hset.setPermission (a := a) (permission_present next)
    rw [← hptr] at hperm
    exact hperm
  · rw [Bank.line_eq, Bank.commit_held b next htracks]
    simp [Bank.commit, Function.comp_def]

/-- If it does not, the line has no entry. -/
theorem Bank.doTransition_lost (hE : Exact b.L2cache)
    (htr : transition (b.line a).getState e = some (next, actions))
    (hhead : actions.head? = some .qq_allocateL2CacheBlock) (he : (b.line a).entry = none)
    (hfit : b.L2cache.fillFits p a = false)
    (h : b.doTransition p rp now slots inp e a = some (b', some k)) :
    (b'.line a).entry = none := by
  obtain ⟨-, ho⟩ | ⟨next', actions', c, htr', hc, rfl, ho⟩ := Bank.doTransition_cases h
  · cases ho
  rw [htr] at htr'
  cases htr'
  cases ho
  obtain ⟨t, htick⟩ := b.held_tick a
  have htail := (allocate_rules htr).1
  obtain ⟨actions, rfl⟩ : ∃ tl, actions = .qq_allocateL2CacheBlock :: tl :=
    List.head?_eq_some_iff.mp hhead
  obtain ⟨hfind, hptr⟩ := Bank.perform_lost hE ((Bank.tracks_start htick).find_none he) he hfit
    htail hc
  have hnone : (b.commit a next c).L2cache.findTagInSet a = none := by
    rw [← hfind, ← (setSlot_index c.L2cache c.cache_entry (c.ctx.line.setState next).entry).1 a]
    unfold Bank.commit setPermission
    dsimp only
    split
    · next i j hw => exact findTagInSet_modify_far (hptr (i, j) hw) _ a
    · rfl
  simp [Bank.line, lookupConst, hnone, entryAt]

/-! ### The in_ports -/

theorem lookup_isSome (s : CacheMemory (Entry n B) ρ) (now : Tick) (a : Addr) :
    ((s.lookup now a).1.lookupConst a).isSome = (s.lookup now a).2.isSome := by
  have hext := congrArg Option.isSome (lookup_ext s now a)
  have hheld := congrArg Option.isSome ((lookup_quiet (s := s) now a).held a)
  simp only [held, contents, Option.isSome_map] at hext hheld
  rw [hheld, hext]

theorem request_event_source {ty : CoherenceRequestType} {sharer : Bool} {ev : Event}
    (h : L1Cache_request_type_to_event ty sharer = some ev) : ev.source = some .request := by
  cases ty <;> cases sharer <;> cases h <;> rfl

theorem replacementEvent_source (x : Entry n B) : (replacementEvent x).source = none := by
  unfold replacementEvent
  split_ifs <;> rfl

theorem response_event_source {l : Line n B} {m : ResponseMsg n B} {ev : Event}
    (h : responseEvent l m = some ev) : ev.source = some .response := by
  unfold responseEvent at h
  split at h <;> split at h
  · cases h
    split_ifs <;> rfl
  · split at h
    · cases h
      split_ifs <;> rfl
    · cases h
      rfl
  all_goals cases h; try rfl

theorem unblock_event_source {m : ResponseMsg n B} {ev : Event} (h : unblockEvent m = some ev) :
    ev.source = some .unblock := by
  unfold unblockEvent at h
  split at h <;> cases h <;> rfl

/-- Unblock messages come from an L1. -/
def Port.Unblocked : Port n B → Prop
  | .unblock m => m.Sender.l1Cache.isSome = true
  | .request _ | .response _ => True

/-- An event of a request: its requestor is an L1, and a line without an entry has room for
one. -/
theorem Bank.requestIn_event {m : RequestMsg n B}
    (h : b.requestIn p rp now a m = some (b', some (e, a'))) :
    m.Requestor.l1Cache.isSome = true ∧ (e.source = none ∨ e.source = some .request ∧
      ((b'.line a').entry = none → b'.L2cache.cacheAvail p a' = true)) := by
  simp only [Bank.requestIn] at h
  split at h
  · cases h
  obtain ⟨i, hi, h⟩ := Option.bind_eq_some_iff.mp h
  refine ⟨by rw [hi]; rfl, ?_⟩
  split at h
  · next x hx =>
      split at h
      · cases h
        exact .inl (replacementEvent_source _)
      · obtain ⟨ev, hev, h⟩ := Option.map_eq_some_iff.mp h
        cases h
        refine .inr ⟨request_event_source hev, fun hnone => ?_⟩
        have hsome := lookup_isSome (b.L2cache.checkResourceAvailable p now .DataArray a).1 now a
        rw [hx, Option.isSome_some] at hsome
        rw [Bank.line, Option.map_eq_none_iff] at hnone
        rw [hnone] at hsome
        cases hsome
  · next hx =>
      split at h
      · next hav =>
          obtain ⟨ev, hev, h⟩ := Option.map_eq_some_iff.mp h
          cases h
          exact .inr ⟨request_event_source hev, fun _ => hav⟩
      · obtain ⟨victim, -, h⟩ := Option.bind_eq_some_iff.mp h
        split at h
        · cases h
        · obtain ⟨x, -, h⟩ := Option.map_eq_some_iff.mp h
          cases h
          exact .inl (replacementEvent_source _)

/-- The event of a port: its message is there to be read, and a miss has room for its entry. -/
theorem Bank.portIn_event {x : Arrival n B} (hun : x.port.Unblocked)
    (h : b.portIn p rp x = some (b', some (e, a'))) :
    (∀ s, e.source = some s → s.Given x.port.inp) ∧
    (e.source = some .request → (b'.line a').entry = none → b'.L2cache.cacheAvail p a' = true) := by
  unfold Bank.portIn at h
  cases hport : x.port with
  | request m =>
      rw [hport] at h
      obtain ⟨hreq, hsrc⟩ := Bank.requestIn_event h
      rcases hsrc with hno | ⟨hsrc, hav⟩
      · rw [hno]
        exact ⟨by rintro s ⟨⟩, by rintro ⟨⟩⟩
      · refine ⟨fun s hs => ?_, fun _ => hav⟩
        rw [hsrc] at hs
        cases hs
        exact hreq
  | response m =>
      rw [hport] at h
      simp only [Bank.responseIn] at h
      split at h
      · cases h
      · obtain ⟨ev, hev, h⟩ := Option.map_eq_some_iff.mp h
        cases h
        rw [response_event_source hev]
        exact ⟨by rintro s ⟨⟩; rfl, by rintro ⟨⟩⟩
  | unblock m =>
      rw [hport] at h hun
      obtain ⟨ev, hev, h⟩ := Option.map_eq_some_iff.mp h
      cases h
      rw [unblock_event_source hev]
      exact ⟨by rintro s ⟨⟩; exact hun, by rintro ⟨⟩⟩

/-! ### The representation invariant -/

/-- The representation of a line, by its state. -/
structure Line.Represented (l : Line n B) : Prop where
  tbe : l.tbe.isSome = true ↔
    l.getState ∈ [State.ISS, .IS, .IM, .I_I, .S_I, .M_I, .MT_I, .MCT_I]
  resident : l.entry.isSome = true ↔ l.getState ∈
    [State.SS, .M, .MT, .ISS, .IS, .IM, .SS_MB, .MT_MB, .MT_IIB, .MT_IB, .MT_SB]
  shared : l.getState = .SS → ∀ x ∈ l.entry, x.Sharers.Nonempty
  unshared : l.getState = .M → ∀ x ∈ l.entry, x.Sharers = ∅
  owned : l.getState = .MT → ∀ x ∈ l.entry, ∃ i, x.Sharers = {i} ∧ x.Exclusive = some i
  reader : l.getState = .ISS → ∀ t ∈ l.tbe, t.L1_GetS_IDs.card = 1
  readers : l.getState = .IS → ∀ t ∈ l.tbe, 1 ≤ t.L1_GetS_IDs.card

theorem Line.WellFormed.represented {l : Line n B} (h : l.WellFormed) : l.Represented := by
  obtain ⟨he, ht⟩ := h
  generalize hst : l.getState = st at he ht
  obtain ⟨entry, tbe⟩ := l
  cases st <;> cases he <;> cases ht <;>
    constructor <;> simp_all [Sharing.Holds, Readers.Holds, Pending.holds_iff]

/-- Every line has the shape of its state, and the index leads to the present entries. -/
structure Bank.Represented (b : Bank n B ρ) : Prop where
  exact : Exact b.L2cache
  lines : ∀ a, (b.line a).WellFormed

theorem Bank.Represented.portIn {x : Arrival n B} {o : Option (Event × Addr)}
    (h : b.Represented) (hx : b.portIn p rp x = some (b', o)) : b'.Represented := by
  obtain ⟨hq, -⟩ := Bank.portIn_quiet hx
  exact ⟨h.exact.quiet hq, by rw [Bank.portIn_line hx]; exact h.lines⟩

/-- The transition for the event fills no way, or one that the packed code can name. -/
def Bank.fits (p : Params) (b : Bank n B ρ) (slots : Bool) (e : Event) (a : Addr) : Bool :=
  (transition (b.line a).getState e).all fun (_, actions) =>
    !actions.contains .qq_allocateL2CacheBlock || !slots || b.L2cache.fillFits p a

/-- So does the transition that the message triggers. -/
def Bank.packs (p : Params) (rp : ReplacementPolicy ρ) (b : Bank n B ρ) (x : Arrival n B) : Bool :=
  (b.portIn p rp x).all fun (b', triggered) => triggered.all fun (e, a) => b'.fits p x.slots e a

/-- A bank whose geometry fits the code packs always. -/
theorem Bank.packs_always (hp : p.Fits) (rp : ReplacementPolicy ρ) (b : Bank n B ρ)
    (x : Arrival n B) : b.packs p rp x = true := by
  simp [Bank.packs, Bank.fits, fillFits_of_fits hp]

/-- A miss is made if there is a slot for its TBE, and stalls otherwise. -/
theorem Bank.doTransition_slots {o : Option (Ctx n B)}
    (htr : transition (b.line a).getState e = some (next, actions))
    (hal : .qq_allocateL2CacheBlock ∈ actions)
    (h : b.doTransition p rp now slots inp e a = some (b', o)) : o.isSome = slots := by
  have htbe := ((allocate_rules htr).2 hal).2.1
  rw [Bank.doTransition, htr, Option.bind_some] at h
  cases slots with
  | false =>
      dsimp only at h
      rw [if_pos ⟨htbe, rfl⟩] at h
      cases h
      rfl
  | true =>
      dsimp only at h
      rw [if_neg (by simp)] at h
      obtain ⟨c, -, hc⟩ := Option.map_eq_some_iff.mp h
      cases hc
      rfl

theorem Bank.Represented.doTransition {o : Option (Ctx n B)} (h : b.Represented)
    (hfit : b.fits p slots e a = true)
    (hx : b.doTransition p rp now slots inp e a = some (b', o)) : b'.Represented := by
  cases o with
  | none =>
      rw [Bank.doTransition_stall hx]
      exact h
  | some k =>
      obtain ⟨⟨next, actions⟩, htr, -⟩ := Option.bind_eq_some_iff.mp hx
      have hhead : actions.head? = some .qq_allocateL2CacheBlock →
          b.L2cache.fillFits p a = true := by
        intro hhead
        have hal := List.mem_of_mem_head? hhead
        have hslots := Bank.doTransition_slots htr hal hx
        rw [Option.isSome_some] at hslots
        simpa [Bank.fits, htr, hal, ← hslots] using hfit
      obtain ⟨hexact, hline⟩ := Bank.doTransition_packed h.exact htr hhead hx
      obtain ⟨hperf, -⟩ := Bank.doTransition_atHand h.exact.tight htr hx
      refine ⟨hexact, fun y => ?_⟩
      by_cases hy : y = a
      · subst hy
        rw [hline]
        exact ((h.lines y).transition htr hperf).1
      · rw [Bank.doTransition_line_of_ne hx hy]
        exact h.lines y

theorem represented_of_reach {r : ρ}
    (h : (bank p rp n B r).Reach (fun b x => b.packs p rp x = true) b) : b.Represented := by
  refine h.invariant ?_ ?_
  · rintro b rfl
    exact ⟨⟨.init r, .init r⟩, fun _ => Line.wellFormed_empty⟩
  · rintro b x b' hb hpacks hx
    obtain ⟨⟨b', o⟩, hproc, rfl⟩ := Option.map_eq_some_iff.mp hx
    obtain ⟨⟨b₁, o₁⟩, hport, hstep⟩ := Option.bind_eq_some_iff.mp hproc
    have hb₁ := hb.portIn hport
    cases o₁ with
    | none => cases hstep; exact hb₁
    | some t =>
        have hfit : b₁.fits p x.slots t.1 t.2 = true := by
          simpa [Bank.packs, hport] using hpacks
        exact hb₁.doTransition hfit hstep

/-- A miss whose way the code cannot name leaves a line that is not represented. -/
theorem Bank.Represented.lost {o : Option (Ctx n B)} (h : b.Represented)
    (hfit : b.fits p slots e a = false)
    (hx : b.doTransition p rp now slots inp e a = some (b', o)) : ¬ (b'.line a).Represented := by
  obtain ⟨⟨next, actions⟩, htr, -⟩ := Option.bind_eq_some_iff.mp hx
  obtain ⟨⟨hal, hslots⟩, hlost⟩ : (.qq_allocateL2CacheBlock ∈ actions ∧ slots = true) ∧
      b.L2cache.fillFits p a = false := by
    simpa [Bank.fits, htr] using hfit
  obtain ⟨hhead, -, -, hnp, hnext⟩ := (allocate_rules htr).2 hal
  have hmade := Bank.doTransition_slots htr hal hx
  rw [hslots] at hmade
  obtain ⟨k, rfl⟩ := Option.isSome_iff_exists.mp hmade
  have hempty : (b.line a).entry = none := by
    have hres := (h.lines a).represented.resident
    rw [hnp] at hres
    simpa using hres
  have hentry := Bank.doTransition_lost h.exact htr hhead hempty hlost hx
  have hwaits : [State.ISS, .IS, .IM] ⊆ [.ISS, .IS, .IM, .I_I, .S_I, .M_I, .MT_I, .MCT_I] := by
    decide
  have hfilled : [State.ISS, .IS, .IM] ⊆
      [.SS, .M, .MT, .ISS, .IS, .IM, .SS_MB, .MT_MB, .MT_IIB, .MT_IB, .MT_SB] := by
    decide
  -- the TBE says that the line waits for memory, with an entry
  obtain ⟨hperf, htbe⟩ := Bank.doTransition_atHand h.exact.tight htr hx
  obtain ⟨hwf, hst, -⟩ := (h.lines a).transition htr hperf
  have hsome : (k.line.setState next).tbe.isSome = true := by
    refine hwf.represented.tbe.mpr ?_
    rw [hst]
    exact hwaits hnext
  have hstate : (b'.line a).getState = next := by
    obtain ⟨t, ht⟩ := Option.isSome_iff_exists.mp hsome
    have hline : (b'.line a).tbe = some t := htbe.trans ht
    rw [← hst, Line.getState, Line.getState, hline, ht]
  intro hrep
  have hres := hrep.resident.mpr (by rw [hstate]; exact hfilled hnext)
  rw [hentry] at hres
  cases hres

/-- A step keeps the representation of the lines exactly if it packs. -/
theorem Bank.Represented.step_iff {x : Arrival n B} {r : ρ} (h : b.Represented)
    (hx : (bank p rp n B r).step b x = some b') :
    (∀ a, (b'.line a).Represented) ↔ b.packs p rp x = true := by
  obtain ⟨⟨b', o⟩, hproc, rfl⟩ := Option.map_eq_some_iff.mp hx
  obtain ⟨⟨b₁, o₁⟩, hport, hstep⟩ := Option.bind_eq_some_iff.mp hproc
  have hb₁ := h.portIn hport
  cases o₁ with
  | none =>
      cases hstep
      exact iff_of_true (fun a => (hb₁.lines a).represented) (by simp [Bank.packs, hport])
  | some t =>
      have hpacks : b.packs p rp x = b₁.fits p x.slots t.1 t.2 := by simp [Bank.packs, hport]
      rw [hpacks]
      cases hfit : b₁.fits p x.slots t.1 t.2 with
      | true =>
          exact iff_of_true (fun a => ((hb₁.doTransition hfit hstep).lines a).represented) rfl
      | false => exact iff_of_false (fun hall => hb₁.lost hfit hstep (hall t.2)) Bool.false_ne_true

/-- A declared transition goes through. -/
theorem Bank.Represented.progress {x : Arrival n B} (h : b.Represented)
    (hun : x.port.Unblocked) (hx : b.portIn p rp x = some (b', some (e, a)))
    (htr : transition (b'.line a).getState e = some (next, actions)) :
    (b'.doTransition p rp x.now x.slots x.port.inp e a).isSome = true := by
  have hb' := h.portIn hx
  obtain ⟨hgiven, hroom⟩ := Bank.portIn_event hun hx
  obtain ⟨k, hk⟩ := (hb'.lines a).performs htr hgiven
  obtain ⟨htail, hrules⟩ := allocate_rules htr
  obtain ⟨t, htick⟩ := b'.held_tick a
  have hstart := Bank.tracks_start htick
  -- an allocation comes first, with room in the set
  have hal : actions.head? = some .qq_allocateL2CacheBlock → (b'.line a).entry = none →
      b'.L2cache.findTagInSetIgnorePermissions a = none ∧
        (b'.L2cache.allocate p rp x.now a {}).isSome = true := by
    intro hfirst hnone
    obtain ⟨-, -, hsrc, -⟩ := hrules (List.mem_of_mem_head? hfirst)
    have hav := hroom hsrc hnone
    have hfind := hb'.exact.tight.findIgnore_none (hstart.find_none hnone)
    simp only [cacheAvail, hfind, Option.isSome_none, Bool.false_or] at hav
    exact ⟨hfind, by simpa [CacheMemory.allocate, hfind] using hav⟩
  obtain ⟨c, hc⟩ := Bank.perform_of_line
    (c := ⟨b'.L2cache, b'.L2cache.findTagInSet a, { line := b'.line a }⟩) htail hal hk
  rw [Bank.doTransition, htr, Option.bind_some]
  dsimp only
  split_ifs
  · rfl
  · rw [hc]
    rfl

/-- **The representation invariant.**  In every run of a bank over any messages whose misses fill
ways that the packed code can name, every line has the representation of its state; a further
step keeps this exactly if it fills no other way; a declared transition fails no assertion,
whatever port it comes from; and a transition to a state that waits for acks leaves at least one
pending. -/
theorem lines_represented {r : ρ}
    (h : (bank p rp n B r).Reach (fun b x => b.packs p rp x = true) b) :
    (∀ a, (b.line a).Represented) ∧
    (∀ x b', (bank p rp n B r).step b x = some b' →
      ((∀ a, (b'.line a).Represented) ↔ b.packs p rp x = true)) ∧
    ∀ x b₁ e a next actions, b.portIn p rp x = some (b₁, some (e, a)) →
      transition (b₁.line a).getState e = some (next, actions) →
      (x.port.Unblocked → (b₁.doTransition p rp x.now x.slots x.port.inp e a).isSome = true) ∧
      ∀ b' k, b₁.doTransition p rp x.now x.slots x.port.inp e a = some (b', some k) →
        next.awaitsAcks = true → next ≠ (b₁.line a).getState →
        ∃ t, b'.TBEs a = some t ∧ 1 ≤ t.pendingAcks := by
  have hrep := represented_of_reach h
  refine ⟨fun a => (hrep.lines a).represented, fun x b' hx => hrep.step_iff hx, ?_⟩
  intro x b₁ e a next actions hport htr
  refine ⟨fun hun => hrep.progress hun hport htr, fun b' k hx haw hne => ?_⟩
  have hb₁ := hrep.portIn hport
  obtain ⟨hperf, htbes⟩ := Bank.doTransition_atHand hb₁.exact.tight htr hx
  obtain ⟨-, -, hacks⟩ := (hb₁.lines a).transition htr hperf
  obtain ⟨t, htbe, hpos⟩ := hacks haw hne
  refine ⟨{ t with TBEState := next }, ?_, hpos⟩
  rw [htbes, Line.setState, htbe]
  rfl

end Transitions

/-- A line that an L1 has fetched for itself is owned by it. -/
theorem lines_represented_fetched : fourSets.Fits ∧ ∃ b : Bank 1 1 Unit,
    (bank fourSets firstWay 1 1 ()).Reach (fun b x => b.packs fourSets firstWay x = true) b ∧
      (b.line 0).getState = .MT ∧
      ∀ x ∈ (b.line 0).entry, ∃ i, x.Sharers = {i} ∧ x.Exclusive = some i := by
  obtain ⟨b, hb, hst⟩ := Lib.Machine.trace_reaches (M := bank fourSets firstWay 1 1 ())
    (G := fun _ _ => True) (l := fetchThenPut.take 3)
    (P := fun b => (b.line 0).getState = .MT) rfl (by decide +kernel)
  have hb := hb.mono (H := fun b x => b.packs fourSets firstWay x = true) fun b x _ =>
    Bank.packs_always fourSets_fits firstWay b x
  exact ⟨fourSets_fits, b, hb, hst, ((lines_represented hb).1 0).owned hst⟩

/-- 64 MB in 131072 sets of eight 64-byte lines. -/
def largeBank : Params where
  m_cache_size := 67108864
  m_cache_assoc := 8
  m_block_size := 64
  m_start_index_bit := 6
  m_resource_stalls := false
  m_is_sttram := true
  m_lazy_redirection_scheme := false
  m_num_of_retention_zones := 1
  m_low_retention := ⟨⟨1, 1⟩, ⟨1, 1⟩, 10⟩
  m_mediumlow_retention := ⟨⟨1, 2⟩, ⟨1, 1⟩, 100⟩
  m_mediumhigh_retention := ⟨⟨1, 3⟩, ⟨1, 1⟩, 1000⟩
  m_high_retention := ⟨⟨1, 4⟩, ⟨1, 1⟩, 10000⟩
  dataArrayBanks := 1
  tagArrayBanks := 1
  clockPeriod := 1
  block_size_ne := fourSets.block_size_ne
  num_sets_gt := by decide
  lazy_sttram := Params.no_redirection
  zones_pos := Params.one_zone_pos
  zones_le := Params.one_zone_le

/-- The load of a line of set 65536. -/
def farLoad : Arrival 1 1 :=
  { now := 1, address := 4194304, port := .request { type := .GETS, Requestor := .L1Cache 0 } }

/-- The data of memory for it. -/
def farData : Arrival 1 1 :=
  { now := 2, address := 4194304, port := .response { type := .MEMORY_DATA, Sender := .Directory } }

/-- The code of set 65536 wraps to that of set 0: the load leaves the line in `ISS` with no entry
to be found, and the actions of the declared transition for its data fail. -/
theorem fill_lost : ∃ b : Bank 1 1 Unit,
    (bank largeBank firstWay 1 1 ()).Reach (fun _ _ => True) b ∧
    (b.line 4194304).getState = .ISS ∧ (b.line 4194304).entry.isSome = false ∧
    ¬ (b.line 4194304).Represented ∧
    ∃ b₁, b.portIn largeBank firstWay farData = some (b₁, some (.Mem_Data, 4194304)) ∧
      (transition (b₁.line 4194304).getState .Mem_Data).isSome = true ∧
      b₁.doTransition largeBank firstWay farData.now farData.slots farData.port.inp .Mem_Data
        4194304 = none := by
  obtain ⟨b, hb, hst, hent, hport⟩ := Lib.Machine.trace_reaches
    (M := bank largeBank firstWay 1 1 ()) (G := fun _ _ => True) (l := [farLoad])
    (P := fun b => (b.line 4194304).getState = .ISS ∧ (b.line 4194304).entry.isSome = false ∧
      (b.portIn largeBank firstWay farData).any (fun r =>
        decide (r.2 = some (.Mem_Data, 4194304)) &&
        (transition (r.1.line 4194304).getState .Mem_Data).isSome &&
        (r.1.doTransition largeBank firstWay farData.now farData.slots farData.port.inp .Mem_Data
          4194304).isNone) = true) rfl (by decide +kernel)
  obtain ⟨⟨b₁, o⟩, hport, hall⟩ := (Option.any_eq_true _ _).mp hport
  rw [Bool.and_eq_true, Bool.and_eq_true, decide_eq_true_eq] at hall
  obtain ⟨⟨rfl, htr⟩, hfail⟩ := hall
  refine ⟨b, hb, hst, hent, fun hrep => ?_, b₁, hport, htr, by simpa using hfail⟩
  have := hrep.resident.mpr (by rw [hst]; decide)
  rw [hent] at this
  cases this

end SttRuby.Protocol.L2Cache
