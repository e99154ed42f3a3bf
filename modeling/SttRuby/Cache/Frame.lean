import SttRuby.Cache.Retention

/-!
# Cache — Frame

What an operation at one address does to the others: nothing, in a cache of any geometry.
`s.held b` is what the tag index finds at an address that is present, the derived class's part of
the entry and the tick of its last refresh.

* An update in place of a way keeps what is held at every address but that of the way's entry
  (`modify_held_of_ne`); `Quiet` calls keep what is held at all of them;
* `deallocate` and `allocate` keep what is held at every other address
  (`deallocate_held_of_ne`, `allocate_held_of_ne`): the way that `allocate` takes is free, so that
  no tag of a present entry leads to it;
* `Holds` is an address whose entry the tag index finds at a known way.
-/

namespace SttRuby.Cache.CacheMemory

variable {ε ρ : Type*} {p : Params} {rp : ReplacementPolicy ρ} {s s' : CacheMemory ε ρ}

/-- The derived class's part and the last refresh of the entry that `lookup` finds. -/
def held (s : CacheMemory ε ρ) (b : Addr) : Option (ε × Tick) :=
  (s.lookupConst b).map fun e => (e.ext, e.m_last_refresh_tick)

/-- The tag of `b` leads to the way `w`, whose entry `e` is for `b` and present. -/
structure Holds (s : CacheMemory ε ρ) (b : Addr) (w : ℕ × ℕ) (e : AbstractCacheEntry ε) : Prop where
  tag : ∃ c, s.m_tag_index b = some c ∧ w = (decodeSet c, decodeWay c)
  entry : s.m_cache w.1 w.2 = some e
  address : e.m_Address = b
  present : e.m_Permission ≠ .NotPresent

theorem findTagInSet_iff {b : Addr} {w : ℕ × ℕ} :
    s.findTagInSet b = some w ↔ ∃ e, s.Holds b w e := by
  constructor
  · intro h
    unfold findTagInSet findTag at h
    split at h
    · cases h
    · next c hc =>
        split at h
        · cases h
        · next e he =>
            split_ifs at h with hok
            cases h
            exact ⟨e, ⟨c, hc, rfl⟩, he, hok.1, by simpa using hok.2⟩
  · rintro ⟨e, ⟨c, hc, rfl⟩, he, rfl, hn⟩
    simp [findTagInSet, findTag, hc, he, hn]

theorem Holds.unique {b : Addr} {w w' : ℕ × ℕ} {e e' : AbstractCacheEntry ε} (h : s.Holds b w e)
    (h' : s.Holds b w' e') : w = w' ∧ e = e' := by
  obtain ⟨c, hc, rfl⟩ := h.tag
  obtain ⟨c', hc', rfl⟩ := h'.tag
  obtain rfl : c = c' := Option.some.inj (hc.symm.trans hc')
  exact ⟨rfl, Option.some.inj (h.entry.symm.trans h'.entry)⟩

theorem lookupConst_iff {b : Addr} {e : AbstractCacheEntry ε} :
    s.lookupConst b = some e ↔ ∃ w, s.Holds b w e := by
  unfold lookupConst
  constructor
  · intro h
    cases hf : s.findTagInSet b with
    | none => rw [hf] at h; cases h
    | some w =>
        obtain ⟨e', he'⟩ := findTagInSet_iff.mp hf
        rw [hf] at h
        obtain rfl : e' = e := Option.some.inj (he'.entry.symm.trans h)
        exact ⟨w, he'⟩
  · rintro ⟨w, h⟩
    rw [findTagInSet_iff.mpr ⟨e, h⟩]
    exact h.entry

theorem held_iff {b : Addr} {x : ε × Tick} :
    s.held b = some x ↔ ∃ w e, s.Holds b w e ∧ (e.ext, e.m_last_refresh_tick) = x := by
  simp only [held, Option.map_eq_some_iff, lookupConst_iff]
  grind

theorem Holds.held_eq {b : Addr} {w : ℕ × ℕ} {e : AbstractCacheEntry ε} (h : s.Holds b w e) :
    s.held b = some (e.ext, e.m_last_refresh_tick) := held_iff.mpr ⟨w, e, h, rfl⟩

/-- Two caches that hold the same entry for an address at the same way. -/
theorem lookup_congr {b : Addr} (h : ∀ w e, s'.Holds b w e ↔ s.Holds b w e) :
    s'.findTagInSet b = s.findTagInSet b ∧ s'.lookupConst b = s.lookupConst b := by
  refine ⟨Option.ext fun w => ?_, Option.ext fun e => ?_⟩
  · rw [findTagInSet_iff, findTagInSet_iff]
    exact exists_congr (h w)
  · rw [lookupConst_iff, lookupConst_iff]
    exact exists_congr fun w => h w e

/-! ### Updates in place -/

section Modify

variable {i j : ℕ} {f : AbstractCacheEntry ε → AbstractCacheEntry ε}

theorem modify_apply (w : ℕ × ℕ) : (s.modify i j f).m_cache w.1 w.2 =
    if w = (i, j) then (s.m_cache w.1 w.2).map f else s.m_cache w.1 w.2 := by
  simp only [modify, Prod.ext_iff]

theorem addressAt_modify (ha : ∀ e, (f e).m_Address = e.m_Address) (w : ℕ × ℕ) :
    (s.modify i j f).addressAt w.1 w.2 = s.addressAt w.1 w.2 := by
  unfold addressAt
  rw [modify_apply]
  split_ifs
  · simp [Function.comp_def, ha]
  · rfl

/-- An update of another address's way. -/
theorem modify_lookup_of_ne {a b : Addr} (hb : b ≠ a)
    (he : ∀ e, s.m_cache i j = some e → e.m_Address = a)
    (ha : ∀ e, (f e).m_Address = e.m_Address) :
    (s.modify i j f).findTagInSet b = s.findTagInSet b ∧
      (s.modify i j f).lookupConst b = s.lookupConst b := by
  refine lookup_congr fun w e => ?_
  by_cases hw : w = (i, j)
  · subst hw
    constructor
    · rintro ⟨-, hent, rfl, -⟩
      rw [modify_apply, if_pos rfl] at hent
      obtain ⟨e₀, he₀, rfl⟩ := Option.map_eq_some_iff.mp hent
      exact absurd ((ha e₀).trans (he e₀ he₀)) hb
    · rintro ⟨-, hent, rfl, -⟩
      exact absurd (he e hent) hb
  · constructor
    · rintro ⟨ht, hent, hadr, hn⟩
      rw [modify_apply, if_neg hw] at hent
      exact ⟨ht, hent, hadr, hn⟩
    · rintro ⟨ht, hent, hadr, hn⟩
      exact ⟨ht, by rw [modify_apply, if_neg hw, hent], hadr, hn⟩

theorem modify_held_of_ne {a b : Addr} (hb : b ≠ a)
    (he : ∀ e, s.m_cache i j = some e → e.m_Address = a)
    (ha : ∀ e, (f e).m_Address = e.m_Address) : (s.modify i j f).held b = s.held b := by
  unfold held
  rw [(modify_lookup_of_ne hb he ha).2]

/-- An update of the way that holds the address. -/
theorem Holds.modify {b : Addr} {e : AbstractCacheEntry ε} (h : s.Holds b (i, j) e)
    (ha : (f e).m_Address = e.m_Address) (hn : (f e).m_Permission ≠ .NotPresent) :
    (s.modify i j f).Holds b (i, j) (f e) :=
  ⟨h.tag, by rw [modify_apply, if_pos rfl, h.entry]; rfl, ha.trans h.address, hn⟩

/-- An update that keeps address and permission. -/
theorem modify_holds_iff (ha : ∀ e, (f e).m_Address = e.m_Address)
    (hn : ∀ e, (f e).m_Permission = e.m_Permission) {b : Addr} {w : ℕ × ℕ}
    {e' : AbstractCacheEntry ε} : (s.modify i j f).Holds b w e' ↔
      ∃ e, s.Holds b w e ∧ e' = if w = (i, j) then f e else e := by
  constructor
  · rintro ⟨htag, hent, hadr, hpr⟩
    rw [modify_apply] at hent
    split_ifs at hent with hw
    · obtain ⟨e, he, rfl⟩ := Option.map_eq_some_iff.mp hent
      exact ⟨e, ⟨htag, he, (ha e).symm.trans hadr, by rwa [hn] at hpr⟩, by rw [if_pos hw]⟩
    · exact ⟨e', ⟨htag, hent, hadr, hpr⟩, by rw [if_neg hw]⟩
  · rintro ⟨e, h, rfl⟩
    split_ifs with hw
    · subst hw
      exact h.modify (ha e) (by rw [hn]; exact h.present)
    · exact ⟨h.tag, by rw [modify_apply, if_neg hw]; exact h.entry, h.address, h.present⟩

theorem isFree_modify (hn : ∀ e, (f e).m_Permission = e.m_Permission) (w : ℕ × ℕ) :
    (s.modify i j f).isFree w.1 w.2 = s.isFree w.1 w.2 := by
  unfold isFree
  rw [modify_apply]
  split_ifs
  · cases s.m_cache w.1 w.2 <;> simp [hn]
  · rfl

theorem findIgnore_modify (ha : ∀ e, (f e).m_Address = e.m_Address) (b : Addr) :
    (s.modify i j f).findTagInSetIgnorePermissions b = s.findTagInSetIgnorePermissions b := by
  unfold findTagInSetIgnorePermissions findTag
  rw [show (s.modify i j f).m_tag_index = s.m_tag_index from rfl]
  cases s.m_tag_index b with
  | none => rfl
  | some c =>
      simp only [modify_apply (s := s) (f := f) (decodeSet c, decodeWay c)]
      split_ifs with hw
      · cases s.m_cache (decodeSet c) (decodeWay c) <;> simp [ha]
      · rfl

theorem findTagInSet_modify (ha : ∀ e, (f e).m_Address = e.m_Address)
    (hn : ∀ e, (f e).m_Permission = e.m_Permission) (b : Addr) :
    (s.modify i j f).findTagInSet b = s.findTagInSet b := by
  ext w
  rw [findTagInSet_iff, findTagInSet_iff]
  simp only [modify_holds_iff ha hn]
  grind

/-- What an update of both does to what is held. -/
theorem held_modify (ha : ∀ e, (f e).m_Address = e.m_Address)
    (hn : ∀ e, (f e).m_Permission = e.m_Permission) {g : ε × Tick → ε × Tick}
    (hg : ∀ e, ((f e).ext, (f e).m_last_refresh_tick) = g (e.ext, e.m_last_refresh_tick))
    (b : Addr) : (s.modify i j f).held b =
      if s.findTagInSet b = some (i, j) then (s.held b).map g else s.held b := by
  cases hf : s.findTagInSet b with
  | none =>
      have hnone : (s.modify i j f).findTagInSet b = none := by rw [findTagInSet_modify ha hn, hf]
      simp [held, lookupConst, hf, hnone, entryAt]
  | some w =>
      obtain ⟨e, he⟩ := findTagInSet_iff.mp hf
      have he' := (modify_holds_iff (i := i) (j := j) ha hn).mpr ⟨e, he, rfl⟩
      rw [he'.held_eq, he.held_eq]
      by_cases hw : w = (i, j)
      · simp [hw, hg]
      · simp [hw]

end Modify

/-! ### The calls -/

/-- What every call but `allocate`, `deallocate` and a recorded write does: nothing to what is
held. -/
structure Quiet (s s' : CacheMemory ε ρ) : Prop where
  held : ∀ b, s'.held b = s.held b
  find : ∀ b, s'.findTagInSet b = s.findTagInSet b
  address : ∀ w : ℕ × ℕ, s'.addressAt w.1 w.2 = s.addressAt w.1 w.2
  ignore : ∀ b, s'.findTagInSetIgnorePermissions b = s.findTagInSetIgnorePermissions b
  free : ∀ w : ℕ × ℕ, s'.isFree w.1 w.2 = s.isFree w.1 w.2

theorem Quiet.refl : s.Quiet s :=
  ⟨fun _ => rfl, fun _ => rfl, fun _ => rfl, fun _ => rfl, fun _ => rfl⟩

theorem Quiet.trans {s'' : CacheMemory ε ρ} (h : s.Quiet s') (h' : s'.Quiet s'') : s.Quiet s'' :=
  ⟨fun b => (h'.held b).trans (h.held b), fun b => (h'.find b).trans (h.find b),
    fun w => (h'.address w).trans (h.address w), fun b => (h'.ignore b).trans (h.ignore b),
    fun w => (h'.free w).trans (h.free w)⟩

theorem Quiet.of_eq (hc : s'.m_cache = s.m_cache) (hi : s'.m_tag_index = s.m_tag_index) :
    s.Quiet s' := by
  have h : ∀ b w e, s'.Holds b w e ↔ s.Holds b w e := by
    intro b w e
    constructor
    · rintro ⟨ht, he, ha, hn⟩
      exact ⟨hi ▸ ht, hc ▸ he, ha, hn⟩
    · rintro ⟨ht, he, ha, hn⟩
      exact ⟨hi.symm ▸ ht, hc.symm ▸ he, ha, hn⟩
  refine ⟨fun b => ?_, fun b => (lookup_congr (h b)).1, fun w => by simp only [addressAt, hc],
    fun b => by simp only [findTagInSetIgnorePermissions, findTag, hc, hi],
    fun w => by simp only [isFree, hc]⟩
  unfold CacheMemory.held
  rw [(lookup_congr (h b)).2]

theorem Quiet.modify {i j : ℕ} {f : AbstractCacheEntry ε → AbstractCacheEntry ε}
    (ha : ∀ e, (f e).m_Address = e.m_Address) (hx : ∀ e, (f e).ext = e.ext)
    (ht : ∀ e, (f e).m_last_refresh_tick = e.m_last_refresh_tick)
    (hn : ∀ e, (f e).m_Permission = e.m_Permission) : s.Quiet (s.modify i j f) := by
  refine ⟨fun b => ?_, findTagInSet_modify ha hn, addressAt_modify ha, findIgnore_modify ha,
    isFree_modify hn⟩
  rw [held_modify ha hn (g := id) (fun e => by rw [hx, ht]; rfl), Option.map_id, id, ite_self]

theorem expire_refresh (now : Tick) (e : AbstractCacheEntry ε) :
    (expire now e).m_last_refresh_tick = e.m_last_refresh_tick := by
  obtain ⟨mark, he⟩ := expire_eq now e
  rw [he]

theorem lookup_quiet (now : Tick) (a : Addr) : s.Quiet (s.lookup now a).1 := by
  unfold lookup
  split
  · exact .refl
  · exact .modify (fun e => (expire_fields now e).1) (fun e => (expire_fields now e).2.1)
      (expire_refresh now) fun e => (expire_fields now e).2.2

theorem touch_quiet (now : Tick) (i j : ℕ) : s.Quiet (s.touch rp now i j) :=
  (Quiet.modify (i := i) (j := j) (f := fun e => { e with m_last_touch_tick := now })
    (fun _ => rfl) (fun _ => rfl) (fun _ => rfl) fun _ => rfl).trans (.of_eq rfl rfl)

theorem setMRU_quiet (now : Tick) (a : Addr) : s.Quiet (s.setMRU p rp now a) := by
  unfold setMRU
  simp only
  split
  · exact (lookup_quiet now _).trans (touch_quiet now _ _)
  · exact lookup_quiet now _

theorem checkResourceAvailable_quiet (now : Tick) (res : CacheResourceType) (a : Addr) :
    s.Quiet (s.checkResourceAvailable p now res a).1 := by
  unfold checkResourceAvailable
  cases res <;> split_ifs <;> exact .of_eq rfl rfl

/-- What is held is where the index leads, whatever the permission. -/
theorem Holds.findIgnore {a : Addr} {w : ℕ × ℕ} {e : AbstractCacheEntry ε} (h : s.Holds a w e) :
    s.findTagInSetIgnorePermissions a = some w := by
  obtain ⟨⟨c, hc, rfl⟩, he, ha, -⟩ := h
  simp [findTagInSetIgnorePermissions, findTag, hc, he, ha]

theorem findIgnore_iff {b : Addr} {w : ℕ × ℕ} : s.findTagInSetIgnorePermissions b = some w ↔
    (∃ c, s.m_tag_index b = some c ∧ w = (decodeSet c, decodeWay c)) ∧
      ∃ e, s.m_cache w.1 w.2 = some e ∧ e.m_Address = b := by
  unfold findTagInSetIgnorePermissions findTag
  constructor
  · intro h
    split at h
    · cases h
    · next c hc =>
        split at h
        · cases h
        · next e he =>
            split_ifs at h with hok
            cases h
            exact ⟨⟨c, hc, rfl⟩, e, he, hok.1⟩
  · rintro ⟨⟨c, hc, rfl⟩, e, he, rfl⟩
    simp [hc, he]

theorem findIgnore_some {a : Addr} {i j : ℕ} (h : s.findTagInSetIgnorePermissions a = some (i, j)) :
    ∃ e, s.m_cache i j = some e ∧ e.m_Address = a := (findIgnore_iff.mp h).2

theorem held_none_of_findIgnore {a : Addr} (h : s.findTagInSetIgnorePermissions a = none) :
    s.held a = none ∧ s.findTagInSet a = none := by
  have hno : ∀ w e, ¬ s.Holds a w e := fun w e hw => by rw [hw.findIgnore] at h; cases h
  refine ⟨Option.eq_none_iff_forall_ne_some.mpr fun x hx => ?_,
    Option.eq_none_iff_forall_ne_some.mpr fun w hw => ?_⟩
  · obtain ⟨w, e, hw, -⟩ := held_iff.mp hx
    exact hno w e hw
  · obtain ⟨e, he⟩ := findTagInSet_iff.mp hw
    exact hno w e he

/-- The reads that a controller records move no data. -/
theorem record_quiet (now : Tick) {t : CacheRequestType} (ht : t ≠ .DataArrayWrite)
    (ht' : t ≠ .TagArrayWrite) (a : Addr) : s.Quiet (s.recordRequestType p now t a) := by
  have hentry : (s.countAccess p a).Quiet
      ((s.countAccess p a).recordEntry p now t a (s.addressToCacheSet p a)) := by
    unfold recordEntry
    split
    · exact .refl
    · next i j _ =>
        have htouch : (s.countAccess p a).Quiet ((s.countAccess p a).modify i j
            fun e => { e with m_last_touch_tick := now }) :=
          .modify (fun _ => rfl) (fun _ => rfl) (fun _ => rfl) fun _ => rfl
        cases t with
        | DataArrayWrite => exact absurd rfl ht
        | TagArrayWrite => exact absurd rfl ht'
        | DataArrayRead => exact htouch
        | TagArrayRead => exact htouch
        | AtomicALUOperation => exact htouch
  have huse := recordUse_frame (p := p)
    ((s.countAccess p a).recordEntry p now t a (s.addressToCacheSet p a)) now t a
    (s.addressToCacheSet p a)
  have hcount : s.Quiet (s.countAccess p a) := .of_eq rfl rfl
  exact (hcount.trans hentry).trans (.of_eq huse.cache huse.tags)

/-- What a call at the address `a` does: nothing to what is held elsewhere. -/
def Elsewhere (a : Addr) (s s' : CacheMemory ε ρ) : Prop := ∀ b, b ≠ a → s'.held b = s.held b

theorem Elsewhere.trans {a : Addr} {s'' : CacheMemory ε ρ} (h : Elsewhere a s s')
    (h' : Elsewhere a s' s'') : Elsewhere a s s'' :=
  fun b hb => (h' b hb).trans (h b hb)

theorem Quiet.elsewhere (h : s.Quiet s') (a : Addr) : Elsewhere a s s' := fun b _ => h.held b

/-- The data write of `a` at `now`: what is held there is refreshed. -/
structure Writes (now : Tick) (a : Addr) (s s' : CacheMemory ε ρ) : Prop where
  elsewhere : Elsewhere a s s'
  held : s'.held a = (s.held a).map fun x => (x.1, now)
  find : ∀ b, s'.findTagInSet b = s.findTagInSet b
  address : ∀ w : ℕ × ℕ, s'.addressAt w.1 w.2 = s.addressAt w.1 w.2
  ignore : ∀ b, s'.findTagInSetIgnorePermissions b = s.findTagInSetIgnorePermissions b
  free : ∀ w : ℕ × ℕ, s'.isFree w.1 w.2 = s.isFree w.1 w.2

theorem Writes.between {now : Tick} {a : Addr} {s₀ s₁ : CacheMemory ε ρ} (h₀ : s₀.Quiet s)
    (h : Writes now a s s') (h₁ : s'.Quiet s₁) : Writes now a s₀ s₁ where
  elsewhere := ((h₀.elsewhere a).trans h.elsewhere).trans (h₁.elsewhere a)
  held := by rw [h₁.held, h.held, h₀.held]
  find b := by rw [h₁.find, h.find, h₀.find]
  address w := by rw [h₁.address, h.address, h₀.address]
  ignore b := by rw [h₁.ignore, h.ignore, h₀.ignore]
  free w := by rw [h₁.free, h.free, h₀.free]

theorem refresh_writes (now : Tick) {a : Addr} {i j : ℕ}
    (hf : s.findTagInSetIgnorePermissions a = some (i, j)) (target : ℕ) :
    Writes now a s (s.refresh p now i j target) := by
  obtain ⟨e, he, ha⟩ := findIgnore_some hf
  have hown : ∀ e', s.m_cache i j = some e' → e'.m_Address = a := fun e' he' => by
    rw [he] at he'; cases he'; exact ha
  unfold refresh
  refine ⟨fun b hb => modify_held_of_ne hb hown fun _ => rfl, ?_, ?_, ?_, ?_, ?_⟩
  · refine (held_modify (g := fun x => (x.1, now)) ?_ ?_ ?_ a).trans ?_
    iterate 3 exact fun _ => rfl
    cases hs : s.findTagInSet a with
    | none =>
        have hnone : s.held a = none := by simp [CacheMemory.held, lookupConst, hs, entryAt]
        rw [hnone]
        rfl
    | some w =>
        obtain ⟨e', he'⟩ := findTagInSet_iff.mp hs
        have hw := he'.findIgnore
        rw [hf] at hw
        rw [if_pos hw.symm]
  · refine findTagInSet_modify ?_ ?_ <;> exact fun _ => rfl
  · refine addressAt_modify ?_
    exact fun _ => rfl
  · refine findIgnore_modify ?_
    exact fun _ => rfl
  · refine isFree_modify ?_
    exact fun _ => rfl

theorem countWrite_quiet (a : Addr) : s.Quiet (s.countWrite p a) := by
  obtain ⟨counters, table, jumps, hw⟩ := countWrite_eq (p := p) s a
  rw [hw]
  exact .of_eq rfl rfl

/-- A recorded data write refreshes what is held at its address. -/
theorem record_writes (now : Tick) (a : Addr) :
    Writes now a s (s.recordRequestType p now .DataArrayWrite a) := by
  have hcount : s.Quiet (s.countAccess p a) := .of_eq rfl rfl
  have huse := recordUse_frame (p := p)
    ((s.countAccess p a).recordEntry p now .DataArrayWrite a (s.addressToCacheSet p a)) now
    .DataArrayWrite a (s.addressToCacheSet p a)
  refine Writes.between hcount ?_ (.of_eq huse.cache huse.tags)
  generalize s.countAccess p a = s₁
  generalize s.addressToCacheSet p a = target
  unfold recordEntry
  split
  · next hf =>
      obtain ⟨hh, -⟩ := held_none_of_findIgnore hf
      exact ⟨fun _ _ => rfl, by rw [hh]; rfl, fun _ => rfl, fun _ => rfl, fun _ => rfl,
        fun _ => rfl⟩
  · next i j hf =>
      have htouch : s₁.Quiet (s₁.modify i j fun e => { e with m_last_touch_tick := now }) :=
        .modify (fun _ => rfl) (fun _ => rfl) (fun _ => rfl) fun _ => rfl
      have hf' := (findIgnore_modify (s := s₁) (i := i) (j := j)
        (f := fun e => { e with m_last_touch_tick := now }) (fun _ => rfl) a).trans hf
      simp only [dataWrite]
      split_ifs
      · exact .between htouch (refresh_writes now hf' target) (countWrite_quiet a)
      · exact .between htouch (refresh_writes now hf' target) .refl

/-! ### Allocation and deallocation -/

theorem held_of_agree {b : Addr} (ht : s'.m_tag_index b = s.m_tag_index b)
    (hc : s'.m_cache = s.m_cache) : s'.held b = s.held b := by
  have h : ∀ w e, s'.Holds b w e ↔ s.Holds b w e := by
    intro w e
    constructor
    · rintro ⟨htag, he, ha, hn⟩
      exact ⟨ht ▸ htag, hc ▸ he, ha, hn⟩
    · rintro ⟨htag, he, ha, hn⟩
      exact ⟨ht.symm ▸ htag, hc.symm ▸ he, ha, hn⟩
  unfold held
  rw [(lookup_congr h).2]

theorem held_of_no_tag {b : Addr} (ht : s.m_tag_index b = none) :
    s.held b = none ∧ s.findTagInSet b = none :=
  held_none_of_findIgnore (by simp [findTagInSetIgnorePermissions, findTag, ht])

/-- Deallocating takes what is held at the address away, and nothing else. -/
theorem deallocate_held (a : Addr) :
    Elsewhere a s (s.deallocate rp a) ∧ (s.deallocate rp a).held a = none ∧
      (s.deallocate rp a).findTagInSet a = none := by
  unfold deallocate
  split
  · next hf =>
      obtain ⟨hh, hfind⟩ := held_none_of_findIgnore hf
      exact ⟨fun _ _ => rfl, hh, hfind⟩
  · next i j hf =>
      obtain ⟨e, he, ha⟩ := findIgnore_some hf
      have hown : ∀ e', s.m_cache i j = some e' → e'.m_Address = a := fun e' he' => by
        rw [he] at he'; cases he'; exact ha
      refine ⟨fun b hb => ?_, held_of_no_tag (Function.update_self ..)⟩
      have hmod : (s.modify i j fun e => { e with m_Permission := .NotPresent }).held b =
          s.held b := modify_held_of_ne hb hown fun _ => rfl
      rw [← hmod]
      exact held_of_agree (Function.update_of_ne hb _ _) rfl

theorem eraseOldTag_some {i j : ℕ} {b : Addr} {c : BitVec 32}
    (h : s.eraseOldTag i j b = some c) : s.m_tag_index b = some c := by
  cases he : s.m_cache i j with
  | none => simpa [eraseOldTag, he] using h
  | some e =>
      cases hc : s.m_tag_index e.m_Address with
      | none => simpa [eraseOldTag, he, hc] using h
      | some c' =>
          simp only [eraseOldTag, he, hc] at h
          split_ifs at h
          · by_cases hb : b = e.m_Address
            · rw [hb, Function.update_self] at h
              cases h
            · rwa [Function.update_of_ne hb] at h
          · exact h

/-- No tag that leads to another way is erased. -/
theorem eraseOldTag_of_ne {i j : ℕ} {b : Addr} {c : BitVec 32} (h : s.m_tag_index b = some c)
    (hne : (decodeSet c, decodeWay c) ≠ (i, j)) : s.eraseOldTag i j b = some c := by
  cases he : s.m_cache i j with
  | none => simpa [eraseOldTag, he] using h
  | some e =>
      cases hc : s.m_tag_index e.m_Address with
      | none => simpa [eraseOldTag, he, hc] using h
      | some c' =>
          simp only [eraseOldTag, he, hc]
          split_ifs with hd
          · by_cases hb : b = e.m_Address
            · subst hb
              obtain rfl : c = c' := Option.some.inj (h.symm.trans hc)
              exact absurd (Prod.ext hd.2 hd.1) hne
            · rwa [Function.update_of_ne hb]
          · exact h

/-- Filling a free way changes what is held at the address it is filled for only. -/
theorem fill_elsewhere {i j : ℕ} (hfree : s.isFree i j = true) (now : Tick) (a : Addr) (x : ε) :
    Elsewhere a s (s.fill p rp now a x i j) := by
  intro b hb
  have hget (w : ℕ × ℕ) (hw : w ≠ (i, j)) :
      (s.fill p rp now a x i j).m_cache w.1 w.2 = s.m_cache w.1 w.2 :=
    if_neg fun h => hw (Prod.ext h.1 h.2)
  have htag : (s.fill p rp now a x i j).m_tag_index b = s.eraseOldTag i j b :=
    Function.update_of_ne hb _ _
  have h : ∀ w e, (s.fill p rp now a x i j).Holds b w e ↔ s.Holds b w e := by
    intro w e
    constructor
    · rintro ⟨⟨c, hc, rfl⟩, he, ha, hn⟩
      -- the filled way has another address
      have hw : (decodeSet c, decodeWay c) ≠ (i, j) := by
        intro hw
        rw [hw] at he
        simp only [fill, and_self, if_true, Option.some.injEq] at he
        exact hb (by rw [← ha, ← he])
      exact ⟨⟨c, eraseOldTag_some (htag ▸ hc), rfl⟩, by rw [← hget _ hw]; exact he, ha, hn⟩
    · rintro ⟨⟨c, hc, rfl⟩, he, ha, hn⟩
      -- the way to be filled was not present
      have hw : (decodeSet c, decodeWay c) ≠ (i, j) := by
        intro hw
        rw [hw] at he
        simp [isFree, he, hn] at hfree
      exact ⟨⟨c, htag.trans (eraseOldTag_of_ne hc hw), rfl⟩, by rw [hget _ hw]; exact he, ha, hn⟩
  unfold held
  rw [(lookup_congr h).2]

theorem isFree_of_freeWay {i j : ℕ} (h : s.freeWay p i = some j) : s.isFree i j = true :=
  List.find?_some h

/-- Allocating changes what is held at its address only. -/
theorem allocate_elsewhere {now : Tick} {a : Addr} {x : ε}
    (h : s.allocate p rp now a x = some s') : Elsewhere a s s' := by
  unfold allocate at h
  split at h
  · next i j hf =>
      cases h
      obtain ⟨e, he, ha⟩ := findIgnore_some hf
      have hown : ∀ e', s.m_cache i j = some e' → e'.m_Address = a := fun e' he' => by
        rw [he] at he'; cases he'; exact ha
      intro b hb
      have hmod : (s.modify i j fun e => { e with
          m_is_expired := false, m_Permission := .Invalid, m_retention_limit := p.zoneTime i
          m_last_touch_tick := now, m_last_refresh_tick := now }).held b = s.held b :=
        modify_held_of_ne hb hown fun _ => rfl
      rw [← hmod]
      exact held_of_agree (Function.update_of_ne hb _ _) rfl
  · obtain ⟨way, hway, rfl⟩ := Option.map_eq_some_iff.mp h
    exact fill_elsewhere (isFree_of_freeWay hway) now a x

/-- Where the entry lies that `allocate` returns a pointer to. -/
def allocatedWay (p : Params) (s : CacheMemory ε ρ) (address : Addr) : Option (ℕ × ℕ) :=
  match s.findTagInSetIgnorePermissions address with
  | some w => some w
  | none => (s.freeWay p (s.addressToCacheSet p address)).map (s.addressToCacheSet p address, ·)

theorem allocate_way {now : Tick} {a : Addr} {x : ε} (h : s.allocate p rp now a x = some s') :
    ∃ w e, s.allocatedWay p a = some w ∧ s'.m_cache w.1 w.2 = some e ∧
      e.m_Address = a ∧ e.m_Permission = .Invalid := by
  unfold allocatedWay
  unfold allocate at h
  cases hf : s.findTagInSetIgnorePermissions a with
  | some w =>
      rw [hf] at h
      cases h
      obtain ⟨e, he, ha⟩ := findIgnore_some hf
      exact ⟨w, { e with
        m_is_expired := false, m_Permission := .Invalid, m_retention_limit := p.zoneTime w.1
        m_last_touch_tick := now, m_last_refresh_tick := now },
        rfl, by simp [reuse, modify, he], ha, rfl⟩
  | none =>
      rw [hf] at h
      obtain ⟨way, hway, rfl⟩ := Option.map_eq_some_iff.mp h
      exact ⟨_, _, by rw [hway]; rfl, by simp [fill]; rfl, rfl, rfl⟩

/-! ### Presence -/

theorem isTagPresent_iff {b : Addr} : s.isTagPresent b = true ↔ ∃ w e, s.Holds b w e := by
  rw [isTagPresent, Option.isSome_iff_exists]
  simp only [lookupConst_iff]
  exact exists_comm

theorem isTagPresent_eq_held (b : Addr) : s.isTagPresent b = (s.held b).isSome := by
  simp [isTagPresent, held]

theorem Quiet.isTagPresent (h : s.Quiet s') (b : Addr) : s'.isTagPresent b = s.isTagPresent b := by
  rw [isTagPresent_eq_held, isTagPresent_eq_held, h.held]

/-- An update in place that keeps the address of the entry, and whether it is present. -/
theorem isTagPresent_modify {i j : ℕ} {f : AbstractCacheEntry ε → AbstractCacheEntry ε}
    (ha : ∀ e, s.m_cache i j = some e → (f e).m_Address = e.m_Address)
    (hn : ∀ e, s.m_cache i j = some e →
      ((f e).m_Permission = .NotPresent ↔ e.m_Permission = .NotPresent)) (b : Addr) :
    (s.modify i j f).isTagPresent b = s.isTagPresent b := by
  refine Bool.eq_iff_iff.mpr ?_
  rw [isTagPresent_iff, isTagPresent_iff]
  constructor
  · rintro ⟨w, e', htag, hent, hadr, hpr⟩
    rw [modify_apply] at hent
    split_ifs at hent with hw
    · subst hw
      obtain ⟨e, he, rfl⟩ := Option.map_eq_some_iff.mp hent
      exact ⟨(i, j), e, htag, he, (ha e he).symm.trans hadr, fun h => hpr ((hn e he).mpr h)⟩
    · exact ⟨w, e', htag, hent, hadr, hpr⟩
  · rintro ⟨w, e, h⟩
    by_cases hw : w = (i, j)
    · subst hw
      exact ⟨(i, j), f e, h.modify (ha e h.entry) fun h' => h.present ((hn e h.entry).mp h')⟩
    · exact ⟨w, e, h.tag, by rw [modify_apply, if_neg hw]; exact h.entry, h.address, h.present⟩

/-- Deallocating an address makes it absent, and no other present. -/
theorem isTagPresent_deallocate (a b : Addr) :
    (s.deallocate rp a).isTagPresent b = (decide (b ≠ a) && s.isTagPresent b) := by
  obtain ⟨helse, hnone, -⟩ : Elsewhere a s (s.deallocate rp a) ∧
      (s.deallocate rp a).held a = none ∧ _ := deallocate_held a
  rw [isTagPresent_eq_held, isTagPresent_eq_held]
  by_cases hb : b = a
  · simp [hb, hnone]
  · simp [hb, helse b hb]

theorem isTagPresent_allocate {now : Tick} {a : Addr} {x : ε}
    (h : s.allocate p rp now a x = some s') {b : Addr} (hb : b ≠ a) :
    s'.isTagPresent b = s.isTagPresent b := by
  rw [isTagPresent_eq_held, isTagPresent_eq_held, allocate_elsewhere h b hb]

end SttRuby.Cache.CacheMemory
