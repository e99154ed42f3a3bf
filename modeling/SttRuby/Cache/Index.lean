import SttRuby.Cache.Routing

/-!
# Cache — Index

`CacheMemory` refines a finite map from line addresses to entries.  `Live s i j a x` says that
way `j` of set `i` holds the object `x` for the address `a` with a permission other than
`NotPresent`; `Indexed` says that the tag index and the live ways agree: every tag leads to the
live way of its address, and every live way is the one its tag leads to.  Ways that
`deallocate` left behind are not live, and no tag leads to them.

* `Kept` is what every call but `allocate` and `deallocate` does to this correspondence: the
  index and the live ways stay as they are (`record_kept` for the recorded accesses, whatever
  the counters and the redirection table make of the routing);
* `fill_indexed` and `deallocate_indexed` are the two calls that change it;
* `lookup_refines_map` is the refinement along every sequence of calls that the protocol makes.
-/

namespace SttRuby.Cache

namespace CacheMemory

variable {ε ρ : Type*} {p : Params} {rp : ReplacementPolicy ρ} {s s' s'' : CacheMemory ε ρ}

/-- Way `j` of set `i` holds `x` for the address `a`, and is present. -/
def Live (s : CacheMemory ε ρ) (i j : ℕ) (a : Addr) (x : ε) : Prop :=
  ∃ e, s.m_cache i j = some e ∧ e.m_Address = a ∧ e.m_Permission ≠ .NotPresent ∧ e.ext = x

/-- The tag index and the live ways agree. -/
structure Indexed (p : Params) (s : CacheMemory ε ρ) : Prop where
  index_live : ∀ {a c}, s.m_tag_index a = some c →
    ∃ i j x, c = encode i j ∧ s.Live i j a x
  live_index : ∀ {i j a x}, s.Live i j a x →
    s.m_tag_index a = some (encode i j) ∧ i < p.usedSets ∧ j < p.m_cache_assoc

/-- What `lookup` finds at an address: the derived class's part of the entry. -/
def contents (s : CacheMemory ε ρ) (a : Addr) : Option ε := (s.lookupConst a).map (·.ext)

/-- One way holds one address. -/
theorem Live.address_eq {i j : ℕ} {a b : Addr} {x y : ε} (h : s.Live i j a x)
    (h' : s.Live i j b y) : a = b := by
  obtain ⟨e, he, rfl, -⟩ := h
  obtain ⟨e', he', rfl, -⟩ := h'
  rw [he] at he'
  cases he'
  rfl

theorem indexed_init (r : ρ) : (init p r : CacheMemory ε ρ).Indexed p where
  index_live h := by simp [init] at h
  live_index h := by
    obtain ⟨e, he, -⟩ := h
    simp [init] at he

/-! ### Finding a tag -/

/-- A found tag is a live way of the address, whichever permissions are looked at. -/
theorem Indexed.find_iff (hp : p.Fits) (h : s.Indexed p) {ok : AbstractCacheEntry ε → Bool}
    (hok : ∀ e, e.m_Permission ≠ .NotPresent → ok e = true) {a : Addr} {i j : ℕ} :
    s.findTag ok a = some (i, j) ↔ ∃ x, s.Live i j a x := by
  have hfind : ∀ {i j x}, s.Live i j a x → s.findTag ok a = some (i, j) := by
    intro i j x hl
    obtain ⟨hi, hs, hw⟩ := h.live_index hl
    obtain ⟨e, he, ha, hp', -⟩ := hl
    have hs' := decodeSet_encode (hs.trans_le hp.sets_le) (hw.trans_le hp.assoc_le)
    have hw' := decodeWay_encode (hs.trans_le hp.sets_le) (hw.trans_le hp.assoc_le)
    simp [findTag, hi, hs', hw', he, ha, hok e hp']
  refine ⟨fun hf => ?_, fun ⟨x, hl⟩ => hfind hl⟩
  cases hi : s.m_tag_index a with
  | none => simp [findTag, hi] at hf
  | some c =>
      obtain ⟨i', j', x, -, hl⟩ := h.index_live hi
      rw [hfind hl] at hf
      cases hf
      exact ⟨x, hl⟩

theorem Indexed.findTagInSet_iff (hp : p.Fits) (h : s.Indexed p) {a : Addr} {i j : ℕ} :
    s.findTagInSet a = some (i, j) ↔ ∃ x, s.Live i j a x :=
  h.find_iff hp fun e he => by simpa using he

theorem Indexed.findIgnore_iff (hp : p.Fits) (h : s.Indexed p) {a : Addr} {i j : ℕ} :
    s.findTagInSetIgnorePermissions a = some (i, j) ↔ ∃ x, s.Live i j a x :=
  h.find_iff hp fun _ _ => rfl

/-- No present way leads a double life: the two searches agree. -/
theorem Indexed.findIgnore_eq (hp : p.Fits) (h : s.Indexed p) (a : Addr) :
    s.findTagInSetIgnorePermissions a = s.findTagInSet a := by
  ext ⟨i, j⟩
  exact (h.findIgnore_iff hp).trans (h.findTagInSet_iff hp).symm

theorem Indexed.find_none_iff (hp : p.Fits) (h : s.Indexed p) {a : Addr} :
    s.findTagInSet a = none ↔ s.m_tag_index a = none := by
  refine ⟨fun hf => ?_, fun hi => by simp [findTagInSet, findTag, hi]⟩
  by_contra hne
  obtain ⟨c, hc⟩ := Option.ne_none_iff_exists'.mp hne
  obtain ⟨i, j, x, -, hl⟩ := h.index_live hc
  rw [(h.findTagInSet_iff hp).mpr ⟨x, hl⟩] at hf
  cases hf

/-- One address has one live way. -/
theorem Indexed.live_unique (hp : p.Fits) (h : s.Indexed p) {i j i' j' : ℕ} {a : Addr} {x x' : ε}
    (hl : s.Live i j a x) (hl' : s.Live i' j' a x') : i = i' ∧ j = j' := by
  have h₁ := (h.findTagInSet_iff hp).mpr ⟨x, hl⟩
  have h₂ := (h.findTagInSet_iff hp).mpr ⟨x', hl'⟩
  rw [h₁] at h₂
  simpa using h₂

theorem Indexed.contents_iff (hp : p.Fits) (h : s.Indexed p) {a : Addr} {x : ε} :
    s.contents a = some x ↔ ∃ i j, s.Live i j a x := by
  constructor
  · intro hc
    cases hf : s.findTagInSet a with
    | none => simp [contents, lookupConst, hf, entryAt] at hc
    | some ij =>
        obtain ⟨i, j⟩ := ij
        obtain ⟨y, e, he, ha, hn, rfl⟩ := (h.findTagInSet_iff hp).mp hf
        have hx : e.ext = x := by simpa [contents, lookupConst, hf, entryAt, he] using hc
        exact ⟨i, j, e, he, ha, hn, hx⟩
  · rintro ⟨i, j, hl⟩
    have hf := (h.findTagInSet_iff hp).mpr ⟨x, hl⟩
    obtain ⟨e, he, -, -, rfl⟩ := hl
    simp [contents, lookupConst, hf, entryAt, he]

/-- A late lookup touches the mark of its entry only. -/
theorem expire_eq (now : Tick) (e : AbstractCacheEntry ε) :
    ∃ mark, expire now e = { e with m_is_expired := mark } := by
  unfold expire
  split_ifs
  · exact ⟨true, rfl⟩
  · exact ⟨e.m_is_expired, rfl⟩

/-- The entry that the non-const `lookup` returns is the one that is there, expiry aside. -/
theorem lookup_ext (s : CacheMemory ε ρ) (now : Tick) (a : Addr) :
    (s.lookup now a).2.map (·.ext) = s.contents a := by
  have hx (e : AbstractCacheEntry ε) : (expire now e).ext = e.ext := by
    obtain ⟨mark, he⟩ := expire_eq now e
    rw [he]
  cases hf : s.findTagInSet a with
  | none => simp [lookup, contents, lookupConst, hf, entryAt]
  | some ij =>
      cases he : s.m_cache ij.1 ij.2 <;>
        simp [lookup, contents, lookupConst, hf, entryAt, modify, he, hx]

/-! ### Calls that keep every block where it is -/

/-- The index and the live ways of `s'` are those of `s`. -/
structure Kept (s s' : CacheMemory ε ρ) : Prop where
  index : s'.m_tag_index = s.m_tag_index
  live : ∀ i j a x, s'.Live i j a x ↔ s.Live i j a x

theorem Kept.rfl : s.Kept s := ⟨.refl _, fun _ _ _ _ => .rfl⟩

theorem Kept.trans (h : s.Kept s') (h' : s'.Kept s'') : s.Kept s'' :=
  ⟨h'.index.trans h.index, fun i j a x => (h'.live i j a x).trans (h.live i j a x)⟩

/-- Counters, tables, banks and statistics are no part of the correspondence. -/
theorem Kept.of_eq (hi : s'.m_tag_index = s.m_tag_index) (hc : s'.m_cache = s.m_cache) :
    s.Kept s' :=
  ⟨hi, fun _ _ _ _ => by simp only [Live, hc]⟩

theorem Kept.indexed (h : s.Kept s') (hi : s.Indexed p) : s'.Indexed p where
  index_live hc := by
    rw [h.index] at hc
    obtain ⟨i, j, x, he, hl⟩ := hi.index_live hc
    exact ⟨i, j, x, he, (h.live _ _ _ _).mpr hl⟩
  live_index hl := by
    rw [h.index]
    exact hi.live_index ((h.live _ _ _ _).mp hl)

theorem Kept.contents (hp : p.Fits) (h : s.Kept s') (hi : s.Indexed p) :
    s'.contents = s.contents := by
  funext a
  ext x
  rw [(h.indexed hi).contents_iff hp, hi.contents_iff hp]
  simp only [h.live]

/-- An update in place that leaves address, object and presence alone. -/
theorem modify_kept (cacheSet way : ℕ) {f : AbstractCacheEntry ε → AbstractCacheEntry ε}
    (ha : ∀ e, (f e).m_Address = e.m_Address) (hx : ∀ e, (f e).ext = e.ext)
    (hn : ∀ e, (f e).m_Permission = .NotPresent ↔ e.m_Permission = .NotPresent) :
    s.Kept (s.modify cacheSet way f) := by
  refine ⟨rfl, fun i j a x => ?_⟩
  by_cases hij : i = cacheSet ∧ j = way
  · simp only [Live, modify, if_pos hij, Option.map_eq_some_iff]
    constructor
    · rintro ⟨_, ⟨e, he, rfl⟩, h₁, h₂, h₃⟩
      exact ⟨e, he, ha e ▸ h₁, fun h => h₂ ((hn e).mpr h), hx e ▸ h₃⟩
    · rintro ⟨e, he, h₁, h₂, h₃⟩
      exact ⟨f e, ⟨e, he, .refl _⟩, (ha e).trans h₁, fun h => h₂ ((hn e).mp h), (hx e).trans h₃⟩
  · simp only [Live, modify, if_neg hij]

theorem expire_fields (now : Tick) (e : AbstractCacheEntry ε) :
    (expire now e).m_Address = e.m_Address ∧ (expire now e).ext = e.ext ∧
      (expire now e).m_Permission = e.m_Permission := by
  obtain ⟨mark, he⟩ := expire_eq now e
  rw [he]
  exact ⟨rfl, rfl, rfl⟩

theorem lookup_kept (now : Tick) (a : Addr) : s.Kept (s.lookup now a).1 := by
  unfold lookup
  split
  · exact .rfl
  · exact modify_kept _ _ (fun e => (expire_fields now e).1) (fun e => (expire_fields now e).2.1)
      fun e => by rw [(expire_fields now e).2.2]

theorem touch_kept (now : Tick) (cacheSet way : ℕ) : s.Kept (s.touch rp now cacheSet way) :=
  (modify_kept cacheSet way (f := fun e => { e with m_last_touch_tick := now })
    (fun _ => rfl) (fun _ => rfl) fun _ => .rfl).trans (.of_eq rfl rfl)

theorem setMRU_kept (now : Tick) (a : Addr) : s.Kept (s.setMRU p rp now a) := by
  unfold setMRU
  simp only
  split
  · exact (lookup_kept now _).trans (touch_kept now _ _)
  · exact lookup_kept now _

theorem setMRUEntry_kept (now : Tick) (a : Addr) : s.Kept (s.setMRUEntry rp now a) := by
  unfold setMRUEntry
  split
  · exact .rfl
  · exact touch_kept now _ _

theorem tryCacheAccess_kept (now : Tick) (a : Addr) (r : Bool) :
    s.Kept (s.tryCacheAccess rp now a r).1 := by
  unfold tryCacheAccess
  split
  · exact (lookup_kept now a).trans (touch_kept now _ _)
  · exact lookup_kept now a

/-- A change of permission keeps the blocks, unless it is to or from `NotPresent`. -/
theorem changePermission_kept (hp : p.Fits) (h : s.Indexed p) (a : Addr) {perm : AccessPermission}
    (hperm : perm ≠ .NotPresent) : s.Kept (s.changePermission a perm) := by
  unfold changePermission
  split
  · exact .rfl
  · next i j hf =>
      refine ⟨rfl, fun i' j' b y => ?_⟩
      obtain ⟨x, e, he, -, hn, -⟩ := (h.findTagInSet_iff hp).mp hf
      by_cases hij : i' = i ∧ j' = j
      · obtain ⟨rfl, rfl⟩ := hij
        simp [Live, modify, he, hperm, hn]
      · simp only [Live, modify, if_neg hij]

/-! ### Recorded accesses -/

/-- A counted write touches the counter of its page, the redirection table and the count of the
jumps. -/
theorem countWrite_eq (s : CacheMemory ε ρ) (a : Addr) : ∃ counters table jumps,
    s.countWrite p a = { s with
      m_chunk_counters := counters
      m_chunk_redirection_table := table
      stats := { s.stats with m_inter_zone_jumps := jumps } } := by
  simp only [countWrite]
  split
  · exact ⟨_, _, _, rfl⟩
  · split_ifs <;> exact ⟨_, _, _, rfl⟩

/-- What a recorded access does to its entry leaves the banks and the chunks alone, and of the
statistics all but the count of the jumps. -/
theorem recordEntry_frame (s : CacheMemory ε ρ) (now : Tick) (t : CacheRequestType) (a : Addr)
    (target : ℕ) :
    (s.recordEntry p now t a target).dataArray = s.dataArray ∧
      (s.recordEntry p now t a target).tagArray = s.tagArray ∧
      (s.recordEntry p now t a target).m_chunk = s.m_chunk ∧
      ∃ jumps, (s.recordEntry p now t a target).stats =
        { s.stats with m_inter_zone_jumps := jumps } := by
  unfold recordEntry
  split
  · exact ⟨rfl, rfl, rfl, _, rfl⟩
  · next i j _ =>
      cases t with
      | DataArrayWrite =>
          simp only [dataWrite]
          split_ifs
          · obtain ⟨counters, table, jumps, hw⟩ := countWrite_eq (p := p)
              ((s.modify i j fun e => { e with m_last_touch_tick := now }).refresh p now i j
                target) a
            rw [hw]
            exact ⟨rfl, rfl, rfl, jumps, rfl⟩
          · exact ⟨rfl, rfl, rfl, _, rfl⟩
      | TagArrayWrite | DataArrayRead | TagArrayRead | AtomicALUOperation =>
          exact ⟨rfl, rfl, rfl, _, rfl⟩

/-- What the bank, chunk and type counters of a recorded access leave alone. -/
structure UseFrame (s s' : CacheMemory ε ρ) : Prop where
  cache : s'.m_cache = s.m_cache
  tags : s'.m_tag_index = s.m_tag_index
  counters : s'.m_chunk_counters = s.m_chunk_counters
  table : s'.m_chunk_redirection_table = s.m_chunk_redirection_table
  jumps : s'.stats.m_inter_zone_jumps = s.stats.m_inter_zone_jumps
  walks : s'.stats.m_intra_zone_walks = s.stats.m_intra_zone_walks
  zombies : s'.stats.m_zombies_collected = s.stats.m_zombies_collected

theorem recordUse_frame (s : CacheMemory ε ρ) (now : Tick) (t : CacheRequestType) (a : Addr)
    (target : ℕ) : s.UseFrame (s.recordUse p now t a target) := by
  cases t with
  | DataArrayRead | DataArrayWrite =>
      simp only [recordUse, reserveData]
      split_ifs <;> exact ⟨rfl, rfl, rfl, rfl, rfl, rfl, rfl⟩
  | TagArrayRead | TagArrayWrite =>
      simp only [recordUse, reserveTag]
      split_ifs <;> exact ⟨rfl, rfl, rfl, rfl, rfl, rfl, rfl⟩
  | AtomicALUOperation => exact ⟨rfl, rfl, rfl, rfl, rfl, rfl, rfl⟩

theorem countAccess_kept (a : Addr) : s.Kept (s.countAccess p a) := .of_eq rfl rfl

theorem countWrite_kept (a : Addr) : s.Kept (s.countWrite p a) := by
  obtain ⟨counters, table, jumps, hw⟩ := countWrite_eq (p := p) s a
  rw [hw]
  exact .of_eq rfl rfl

theorem refresh_kept (now : Tick) (cacheSet way target : ℕ) :
    s.Kept (s.refresh p now cacheSet way target) :=
  modify_kept _ _ (fun _ => rfl) (fun _ => rfl) fun _ => .rfl

theorem dataWrite_kept (now : Tick) (a : Addr) (target cacheSet way : ℕ) :
    s.Kept (s.dataWrite p now a target cacheSet way) := by
  unfold dataWrite
  split_ifs
  · exact (refresh_kept now _ _ _).trans (countWrite_kept a)
  · exact refresh_kept now _ _ _

/-- A tag write restores a way to `Invalid` only if the way is not present. -/
theorem tagWrite_kept {cacheSet way : ℕ} {a : Addr} {x : ε} (hl : s.Live cacheSet way a x)
    (now : Tick) : s.Kept (s.tagWrite p now cacheSet way) := by
  refine ⟨rfl, fun i j b y => ?_⟩
  obtain ⟨e, he, -, hn, -⟩ := hl
  by_cases hij : i = cacheSet ∧ j = way
  · obtain ⟨rfl, rfl⟩ := hij
    simp [tagWrite, Live, refresh, modify, he, hn]
  · simp only [tagWrite, Live, refresh, modify, if_neg hij]

theorem recordEntry_kept (hp : p.Fits) (h : s.Indexed p) (now : Tick) (t : CacheRequestType)
    (a : Addr) (target : ℕ) : s.Kept (s.recordEntry p now t a target) := by
  unfold recordEntry
  split
  · exact .rfl
  · next i j hf =>
      obtain ⟨x, hl⟩ := (h.findIgnore_iff hp).mp hf
      have htouch := modify_kept (s := s) i j (f := fun e => { e with m_last_touch_tick := now })
        (fun _ => rfl) (fun _ => rfl) fun _ => .rfl
      cases t with
      | DataArrayWrite => exact htouch.trans (dataWrite_kept now a target i j)
      | TagArrayWrite => exact htouch.trans (tagWrite_kept ((htouch.live i j a x).mpr hl) now)
      | DataArrayRead => exact htouch
      | TagArrayRead => exact htouch
      | AtomicALUOperation => exact htouch

/-- A recorded access keeps every block where it is, although it may change the routing of the
page it writes. -/
theorem record_kept (hp : p.Fits) (h : s.Indexed p) (now : Tick) (t : CacheRequestType)
    (a : Addr) : s.Kept (s.recordRequestType p now t a) := by
  have hcount := countAccess_kept (p := p) (s := s) a
  have hentry := recordEntry_kept hp (hcount.indexed h) now t a (s.addressToCacheSet p a)
  have huse := recordUse_frame (p := p)
    ((s.countAccess p a).recordEntry p now t a (s.addressToCacheSet p a)) now t a
    (s.addressToCacheSet p a)
  exact (hcount.trans hentry).trans (.of_eq huse.tags huse.cache)

/-! ### Allocation and deallocation -/

theorem freeWay_spec {cacheSet way : ℕ} (h : s.freeWay p cacheSet = some way) :
    way < p.m_cache_assoc ∧ ∀ a x, ¬ s.Live cacheSet way a x := by
  have hlt := List.mem_range.mp (List.mem_of_find?_eq_some h)
  have hfree := List.find?_some h
  refine ⟨hlt, fun a x hl => ?_⟩
  obtain ⟨e, he, -, hn, -⟩ := hl
  simp [isFree, he, hn] at hfree

/-- No tag leads to a way that is not live, so the conditional erasure never erases. -/
theorem Indexed.eraseOldTag_eq (hp : p.Fits) (h : s.Indexed p) {cacheSet way : ℕ}
    (hfree : ∀ a x, ¬ s.Live cacheSet way a x) : s.eraseOldTag cacheSet way = s.m_tag_index := by
  unfold eraseOldTag
  split
  · rfl
  · next e he =>
      split
      · rfl
      · next c hc =>
          split_ifs with hd
          · obtain ⟨i, j, x, rfl, hl⟩ := h.index_live hc
            obtain ⟨-, hs, hw⟩ := h.live_index hl
            rw [decodeWay_encode (hs.trans_le hp.sets_le) (hw.trans_le hp.assoc_le),
              decodeSet_encode (hs.trans_le hp.sets_le) (hw.trans_le hp.assoc_le)] at hd
            obtain ⟨rfl, rfl⟩ := hd
            exact absurd hl (hfree _ _)
          · rfl

theorem fill_live {cacheSet way : ℕ} (now : Tick) (a : Addr) (x : ε) {i j : ℕ} {b : Addr} {y : ε} :
    (s.fill p rp now a x cacheSet way).Live i j b y ↔
      if i = cacheSet ∧ j = way then a = b ∧ x = y else s.Live i j b y := by
  by_cases hij : i = cacheSet ∧ j = way
  · simp [Live, fill, hij, AbstractCacheEntry.new]
  · simp only [Live, fill, if_neg hij]

/-- Filling a way that is not live, for an address without a tag. -/
theorem fill_indexed (hp : p.Fits) (h : s.Indexed p) {cacheSet way : ℕ} {a : Addr}
    (hset : cacheSet < p.usedSets) (hway : way < p.m_cache_assoc)
    (hfree : ∀ b y, ¬ s.Live cacheSet way b y) (ha : s.m_tag_index a = none) (now : Tick)
    (x : ε) : (s.fill p rp now a x cacheSet way).Indexed p := by
  have hidx : (s.fill p rp now a x cacheSet way).m_tag_index =
      Function.update s.m_tag_index a (some (encode cacheSet way)) := by
    simp only [fill, h.eraseOldTag_eq hp hfree]
  constructor
  · intro b c hc
    rw [hidx] at hc
    by_cases hb : b = a
    · subst hb
      rw [Function.update_self] at hc
      cases hc
      exact ⟨cacheSet, way, x, rfl, (fill_live now b x).mpr (by simp)⟩
    · rw [Function.update_of_ne hb] at hc
      obtain ⟨i, j, y, rfl, hl⟩ := h.index_live hc
      refine ⟨i, j, y, rfl, (fill_live now a x).mpr ?_⟩
      rw [if_neg (fun hij => hfree b y (by rwa [hij.1, hij.2] at hl))]
      exact hl
  · intro i j b y hl
    rw [hidx]
    rw [fill_live] at hl
    split_ifs at hl with hij
    · obtain ⟨rfl, rfl⟩ := hij
      obtain ⟨rfl, -⟩ := hl
      exact ⟨Function.update_self .., hset, hway⟩
    · obtain ⟨hb, hs, hw⟩ := h.live_index hl
      have hne : b ≠ a := fun hba => by rw [hba, ha] at hb; cases hb
      exact ⟨by rw [Function.update_of_ne hne, hb], hs, hw⟩

theorem deallocate_eq_self {a : Addr} (hf : s.findTagInSetIgnorePermissions a = none) :
    s.deallocate rp a = s := by
  unfold deallocate; rw [hf]

theorem deallocate_live {a : Addr} {i j i' j' : ℕ}
    (hf : s.findTagInSetIgnorePermissions a = some (i, j)) {b : Addr} {y : ε} :
    (s.deallocate rp a).Live i' j' b y ↔ ¬ (i' = i ∧ j' = j) ∧ s.Live i' j' b y := by
  by_cases hij : i' = i ∧ j' = j
  · simp [Live, deallocate, hf, modify, hij]
  · simp [Live, deallocate, hf, modify, hij]

/-- Deallocating takes the live way of the address, and its tag, away. -/
theorem deallocate_indexed (hp : p.Fits) (h : s.Indexed p) (a : Addr) :
    (s.deallocate rp a).Indexed p := by
  cases hf : s.findTagInSetIgnorePermissions a with
  | none => rwa [deallocate_eq_self hf]
  | some ij =>
      obtain ⟨i, j⟩ := ij
      obtain ⟨x, hl⟩ := (h.findIgnore_iff hp).mp hf
      have hidx : (s.deallocate rp a).m_tag_index = Function.update s.m_tag_index a none := by
        simp only [deallocate, hf]
      constructor
      · intro b c hc
        rw [hidx] at hc
        have hb : b ≠ a := fun hba => by rw [hba, Function.update_self] at hc; cases hc
        rw [Function.update_of_ne hb] at hc
        obtain ⟨i', j', y, rfl, hl'⟩ := h.index_live hc
        refine ⟨i', j', y, rfl, (deallocate_live hf).mpr ⟨fun hij => hb ?_, hl'⟩⟩
        rw [hij.1, hij.2] at hl'
        exact hl'.address_eq hl
      · intro i' j' b y hl'
        obtain ⟨hij, hl'⟩ := (deallocate_live hf).mp hl'
        obtain ⟨hb, hs, hw⟩ := h.live_index hl'
        have hne : b ≠ a := fun hba => hij (h.live_unique hp (hba ▸ hl') hl)
        exact ⟨by rw [hidx, Function.update_of_ne hne, hb], hs, hw⟩

end CacheMemory

/-! ### Refinement of a map -/

section Refinement

variable {ε ρ : Type*} {p : Params} {rp : ReplacementPolicy ρ} {s s' : CacheMemory ε ρ}

/-- The finite map a cache stands for, under one call. -/
def blockMap (m : Addr → Option ε) : Tick × Op ε → Addr → Option ε
  | (_, .allocate a x) => Function.update m a (some x)
  | (_, .deallocate a) => Function.update m a none
  | _ => m

/-- The calls the protocol makes: it allocates an address only when `lookup` returns null for it
and `cacheAvail` holds, and it never sets a permission to `NotPresent`. -/
def ProtocolCall (p : Params) (s : CacheMemory ε ρ) : Tick × Op ε → Prop
  | (now, .allocate a _) => (s.lookup now a).2.isNone = true ∧ s.cacheAvail p a = true
  | (_, .changePermission _ perm) => perm ≠ .NotPresent
  | _ => True

instance (p : Params) (s : CacheMemory ε ρ) : (c : Tick × Op ε) → Decidable (ProtocolCall p s c)
  | (now, .allocate a _) =>
      inferInstanceAs (Decidable ((s.lookup now a).2.isNone = true ∧ s.cacheAvail p a = true))
  | (_, .changePermission _ perm) => inferInstanceAs (Decidable (perm ≠ .NotPresent))
  | (_, .deallocate _) | (_, .lookup _) | (_, .setMRU _) | (_, .setMRUEntry _)
  | (_, .tryCacheAccess _ _) | (_, .recordRequestType _ _) => inferInstanceAs (Decidable True)

/-- `s` stands for the map `m`. -/
def Refines (p : Params) (s : CacheMemory ε ρ) (m : Addr → Option ε) : Prop :=
  s.Indexed p ∧ s.contents = m

open CacheMemory

theorem Refines.of_kept (hp : p.Fits) {m : Addr → Option ε} (h : Refines p s m) (hk : s.Kept s') :
    Refines p s' m :=
  ⟨hk.indexed h.1, (hk.contents hp h.1).trans h.2⟩

theorem Refines.allocate (hp : p.Fits) {m : Addr → Option ε} (h : Refines p s m) {now : Tick}
    {a : Addr} {x : ε} (hnull : (s.lookup now a).2.isNone = true)
    (hs : s.allocate p rp now a x = some s') : Refines p s' (Function.update m a (some x)) := by
  obtain ⟨hi, rfl⟩ := h
  have hcont : s.contents a = none := by
    rw [← s.lookup_ext now a, Option.isNone_iff_eq_none.mp hnull]; rfl
  have hnolive : ∀ i j y, ¬ s.Live i j a y := fun i j y hl => by
    rw [(hi.contents_iff hp).mpr ⟨i, j, hl⟩] at hcont; cases hcont
  have hfind : s.findTagInSetIgnorePermissions a = none := by
    by_contra hne
    obtain ⟨⟨i, j⟩, hij⟩ := Option.ne_none_iff_exists'.mp hne
    obtain ⟨y, hl⟩ := (hi.findIgnore_iff hp).mp hij
    exact hnolive i j y hl
  have hidx : s.m_tag_index a = none := by
    rwa [hi.findIgnore_eq hp, hi.find_none_iff hp] at hfind
  simp only [CacheMemory.allocate, hfind, Option.map_eq_some_iff] at hs
  obtain ⟨way, hw, rfl⟩ := hs
  obtain ⟨hlt, hfree⟩ := freeWay_spec hw
  have hind : (s.fill p rp now a x (s.addressToCacheSet p a) way).Indexed p :=
    fill_indexed hp hi (s.addressToCacheSet_lt_used a hp) hlt hfree hidx now x
  refine ⟨hind, funext fun b => Option.ext fun y => ?_⟩
  rw [hind.contents_iff hp]
  simp only [fill_live]
  by_cases hb : b = a
  · subst hb
    rw [Function.update_self]
    constructor
    · rintro ⟨i, j, hl⟩
      split_ifs at hl with hij
      · exact congrArg some hl.2
      · exact absurd hl (hnolive i j y)
    · rintro ⟨⟩
      exact ⟨s.addressToCacheSet p b, way, by simp⟩
  · rw [Function.update_of_ne hb, hi.contents_iff hp]
    constructor
    · rintro ⟨i, j, hl⟩
      split_ifs at hl with hij
      · exact absurd hl.1.symm hb
      · exact ⟨i, j, hl⟩
    · rintro ⟨i, j, hl⟩
      refine ⟨i, j, ?_⟩
      rw [if_neg (fun hij => hfree b y (by rwa [hij.1, hij.2] at hl))]
      exact hl

theorem Refines.deallocate (hp : p.Fits) {m : Addr → Option ε} (h : Refines p s m) (a : Addr) :
    Refines p (s.deallocate rp a) (Function.update m a none) := by
  obtain ⟨hi, rfl⟩ := h
  have hind : (s.deallocate rp a).Indexed p := deallocate_indexed hp hi a
  refine ⟨hind, funext fun b => Option.ext fun y => ?_⟩
  rw [hind.contents_iff hp]
  cases hf : s.findTagInSetIgnorePermissions a with
  | none =>
      have hnone : ∀ i j z, ¬ s.Live i j a z := fun i j z hl => by
        rw [(hi.findIgnore_iff hp).mpr ⟨z, hl⟩] at hf; cases hf
      rw [deallocate_eq_self hf]
      by_cases hb : b = a
      · subst hb
        simp [hnone]
      · rw [Function.update_of_ne hb, hi.contents_iff hp]
  | some ij =>
      obtain ⟨i, j⟩ := ij
      obtain ⟨x, hl⟩ := (hi.findIgnore_iff hp).mp hf
      simp only [deallocate_live hf]
      by_cases hb : b = a
      · subst hb
        simp only [Function.update_self, reduceCtorEq, iff_false]
        rintro ⟨i', j', hij, hl'⟩
        exact hij (hi.live_unique hp hl' hl)
      · rw [Function.update_of_ne hb, hi.contents_iff hp]
        refine ⟨fun ⟨i', j', _, hl'⟩ => ⟨i', j', hl'⟩, fun ⟨i', j', hl'⟩ => ⟨i', j', ?_, hl'⟩⟩
        rintro ⟨rfl, rfl⟩
        exact hb (hl'.address_eq hl)

theorem call_refines (hp : p.Fits) {m : Addr → Option ε} {r : ρ} {c : Tick × Op ε}
    (h : Refines p s m) (hc : ProtocolCall p s c) (hs : (calls p rp r).step s c = some s') :
    Refines p s' (blockMap m c) := by
  obtain ⟨now, op⟩ := c
  cases op with
  | allocate a x => exact h.allocate hp hc.1 hs
  | deallocate a => cases hs; exact h.deallocate hp a
  | lookup a => cases hs; exact h.of_kept hp (lookup_kept now a)
  | setMRU a => cases hs; exact h.of_kept hp (setMRU_kept now a)
  | setMRUEntry a => cases hs; exact h.of_kept hp (setMRUEntry_kept now a)
  | tryCacheAccess a b => cases hs; exact h.of_kept hp (tryCacheAccess_kept now a b)
  | recordRequestType t a => cases hs; exact h.of_kept hp (record_kept hp h.1 now t a)
  | changePermission a perm => cases hs; exact h.of_kept hp (changePermission_kept hp h.1 a hc)

theorem refines_init (hp : p.Fits) (r : ρ) :
    Refines p (CacheMemory.init p r : CacheMemory ε ρ) fun _ => none := by
  refine ⟨indexed_init r, funext fun a => ?_⟩
  rw [contents, lookupConst, ((indexed_init r).find_none_iff hp).mpr rfl]
  rfl

/-- **No block is lost or duplicated.**  After any sequence of the protocol's calls on a cache
with 4 to 65536 sets and at most 65536 ways, whatever the zones and the redirection scheme:
`lookup` returns the entry last allocated for the address and not deallocated since, and null
if there is none; no two ways hold one address; deallocating an address that is not resident
changes nothing; and no recorded access, counter step and redirection included, changes what
any `lookup` returns. -/
theorem lookup_refines_map (hp : p.Fits) {r : ρ} {l : List (Tick × Op ε)}
    (hr : (calls p rp r).Run (ProtocolCall p) (CacheMemory.init p r) l s) :
    (∀ now b, (s.lookup now b).2.map (·.ext) = l.foldl blockMap (fun _ => none) b) ∧
    (∀ i j i' j' e e', s.m_cache i j = some e → s.m_cache i' j' = some e' →
      e.m_Permission ≠ .NotPresent → e'.m_Permission ≠ .NotPresent →
      e.m_Address = e'.m_Address → i = i' ∧ j = j') ∧
    (∀ now b, (s.lookup now b).2 = none → s.deallocate rp b = s) ∧
    (∀ now t a now' b, ((s.recordRequestType p now t a).lookup now' b).2.map (·.ext) =
      (s.lookup now' b).2.map (·.ext)) := by
  obtain ⟨hi, hm⟩ := hr.refines (R := Refines p) (f := blockMap) (refines_init hp r)
    fun _ _ _ _ h hc hs => call_refines hp h hc hs
  refine ⟨fun now b => ?_, fun i j i' j' e e' he he' hn hn' ha => ?_, fun now b hb => ?_,
    fun now t a now' b => ?_⟩
  · rw [lookup_ext, hm]
  · exact hi.live_unique hp ⟨e, he, ha, hn, rfl⟩ ⟨e', he', rfl, hn', rfl⟩
  · refine deallocate_eq_self ?_
    by_contra hne
    obtain ⟨⟨i, j⟩, hij⟩ := Option.ne_none_iff_exists'.mp hne
    obtain ⟨y, hl⟩ := (hi.findIgnore_iff hp).mp hij
    have hc := (hi.contents_iff hp).mpr ⟨i, j, hl⟩
    rw [← s.lookup_ext now b, hb] at hc
    cases hc
  · rw [lookup_ext, lookup_ext, (record_kept hp hi now t a).contents hp hi]

/-! ### A small cache -/

/-- Four sets of one way, one set a zone, with lazy redirection. -/
def fourSets : Params where
  m_cache_size := 256
  m_cache_assoc := 1
  m_block_size := 64
  m_start_index_bit := 6
  m_resource_stalls := true
  m_is_sttram := true
  m_lazy_redirection_scheme := true
  m_num_of_retention_zones := 4
  m_low_retention := ⟨⟨1, 1⟩, ⟨1, 1⟩, 10⟩
  m_mediumlow_retention := ⟨⟨1, 2⟩, ⟨1, 1⟩, 100⟩
  m_mediumhigh_retention := ⟨⟨1, 3⟩, ⟨1, 1⟩, 1000⟩
  m_high_retention := ⟨⟨1, 4⟩, ⟨1, 1⟩, 10000⟩
  dataArrayBanks := 1
  tagArrayBanks := 1
  clockPeriod := 1
  block_size_ne := by decide
  num_sets_gt := by decide
  lazy_sttram := by decide
  zones_pos := by decide
  zones_le := by decide

/-- Always the first way. -/
def firstWay : ReplacementPolicy Unit where
  touch r _ _ _ := r
  reset r _ _ _ := r
  invalidate r _ _ := r
  getVictim _ _ _ := 0
  getVictim_lt _ _ _ h := h

theorem fourSets_fits : fourSets.Fits := by constructor <;> decide

/-- The block at `0xC0`, of the last zone, is written until its page is redirected; the block is
still found, and a block of the same page allocated afterwards does not hide it. -/
theorem lookup_refines_map_redirected :
    ∃ s, (calls fourSets firstWay ()).Run (ProtocolCall fourSets) (CacheMemory.init fourSets ())
        ((1, .allocate 0xC0 7) :: List.replicate 15 (2, .recordRequestType .DataArrayWrite 0xC0) ++
          [(3, .allocate 0x80 8)]) s ∧
      ∀ now, (s.lookup now 0xC0).2.map (·.ext) = some 7 := by
  have h : ((calls fourSets firstWay ()).trace (ProtocolCall fourSets)
      (CacheMemory.init fourSets ()) ((1, .allocate 0xC0 7) ::
        List.replicate 15 (2, .recordRequestType .DataArrayWrite 0xC0) ++
          [(3, .allocate 0x80 8)])).isSome = true := by
    decide +kernel
  obtain ⟨s, hs⟩ := Option.isSome_iff_exists.mp h
  have hr := Lib.Machine.trace_run hs
  refine ⟨s, hr, fun now => ?_⟩
  rw [(lookup_refines_map fourSets_fits hr).1]
  decide

end Refinement

end SttRuby.Cache
