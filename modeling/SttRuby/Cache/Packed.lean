import SttRuby.Cache.Frame

/-!
# Cache — Packed

A cache whose locations fit the packed code.  The code gives back the sets and ways below `2 ^ 16`
(`location_code_roundtrip`), and no others: it holds 32 bits, and `init()` accepts caches with more
locations (`packed_of_roundtrip`, `location_code_collides`).

The index is `Tight` if every tag that leads to an entry of its address leads to a present one, and
entries are `Found` if every present one is where the tag of its address leads; every call keeps
both (`Tight.modify`, `Tight.deallocate`, `Tight.fill`), so that `allocate` for an address that is
not held fills a free way.  If set and way fit the code (`fillFits`), the way it fills is the one
the index leads to (`fill_holds`); if not, the code wraps, and the entry is filled but not found
(`Found.fill_unfound`).
-/

namespace SttRuby.Cache

/-! ### The round trip -/

/-- **The location code.**  In a cache of up to `2 ^ 16` sets of up to `2 ^ 16` ways, the code that
`allocate` stores for a set and a way gives both back. -/
theorem location_code_roundtrip (p : Params)
    (h : p.m_cache_num_sets ≤ 65536 ∧ p.m_cache_assoc ≤ 65536) {cacheSet way : ℕ}
    (hs : cacheSet < p.m_cache_num_sets) (hw : way < p.m_cache_assoc) :
    decodeSet (encode cacheSet way) = cacheSet ∧ decodeWay (encode cacheSet way) = way :=
  ⟨decodeSet_encode (hs.trans_le h.1) (hw.trans_le h.2),
    decodeWay_encode (hs.trans_le h.1) (hw.trans_le h.2)⟩

theorem location_code_roundtrip_four_sets :
    decodeSet (encode 3 0) = 3 ∧ decodeWay (encode 3 0) = 0 :=
  location_code_roundtrip fourSets (by decide) (by decide) (by decide)

/-- Sets `2 ^ 16` apart have the same codes, and so have ways. -/
theorem encode_wraps (cacheSet way : ℕ) :
    encode (cacheSet + 65536) way = encode cacheSet way ∧
      encode cacheSet (way + 65536) = encode cacheSet way := by
  constructor <;> refine BitVec.eq_of_toNat_eq ?_ <;> rw [encode_toNat_mod, encode_toNat_mod] <;>
    omega

/-- The code gives every location back in no larger cache. -/
theorem packed_of_roundtrip (p : Params) (h : ∀ cacheSet way, cacheSet < p.m_cache_num_sets →
    way < p.m_cache_assoc →
      decodeSet (encode cacheSet way) = cacheSet ∧ decodeWay (encode cacheSet way) = way) :
    p.m_cache_num_sets ≤ 65536 ∧ p.m_cache_assoc ≤ 65536 := by
  have hsets := p.num_sets_gt
  have hassoc := assoc_pos p
  constructor
  · by_contra hlt
    have hback := (h (0 + 65536) 0 (Nat.not_le.mp hlt) hassoc).1
    rw [(encode_wraps 0 0).1] at hback
    exact absurd hback (by decide)
  · by_contra hlt
    have hback := (h 0 (0 + 65536) (Nat.zero_lt_of_lt hsets) (Nat.not_le.mp hlt)).2
    rw [(encode_wraps 0 0).2] at hback
    exact absurd hback (by decide)

/-- A direct-mapped cache of 8 MiB in lines of 64 bytes. -/
def manySets : Params := { fourSets with m_cache_size := 8388608, num_sets_gt := by decide }

/-- **A collision.**  Set 65536 of the large cache has the code of set 0. -/
theorem location_code_collides :
    manySets.m_cache_num_sets = 131072 ∧ 65536 < manySets.m_cache_num_sets ∧
      0 < manySets.m_cache_assoc ∧ encode 65536 0 = encode 0 0 ∧
      decodeSet (encode 65536 0) = 0 := by
  decide

namespace CacheMemory

variable {ε ρ : Type*} {p : Params} {rp : ReplacementPolicy ρ} {s s' : CacheMemory ε ρ}

/-- The set and the way that `allocate` would fill for the address fit the packed code. -/
def fillFits (p : Params) (s : CacheMemory ε ρ) (a : Addr) : Bool :=
  (s.freeWay p (s.addressToCacheSet p a)).all fun way =>
    decide (s.addressToCacheSet p a < 65536 ∧ way < 65536)

theorem fillFits_of_fits (hp : p.Fits) (s : CacheMemory ε ρ) (a : Addr) :
    s.fillFits p a = true := by
  refine (Option.all_eq_true _ _).mpr fun way hway => decide_eq_true ⟨?_, ?_⟩
  · exact (s.addressToCacheSet_lt_used a hp).trans_le hp.sets_le
  · exact (freeWay_spec hway).1.trans_le hp.assoc_le

/-- Every tag that leads to an entry of its address leads to a present one. -/
def Tight (s : CacheMemory ε ρ) : Prop :=
  ∀ b w, s.findTagInSetIgnorePermissions b = some w → s.findTagInSet b = some w

theorem Tight.init (r : ρ) : (CacheMemory.init p r : CacheMemory ε ρ).Tight := nofun

theorem Tight.congr (h : s.Tight) (hf : ∀ b, s'.findTagInSet b = s.findTagInSet b)
    (hi : ∀ b, s'.findTagInSetIgnorePermissions b = s.findTagInSetIgnorePermissions b) :
    s'.Tight := by
  intro b w hw
  rw [hi] at hw
  rw [hf]
  exact h b w hw

theorem Tight.quiet (h : s.Tight) (hq : s.Quiet s') : s'.Tight := h.congr hq.find hq.ignore

/-- What is not held has no slot to be reused. -/
theorem Tight.findIgnore_none (h : s.Tight) {a : Addr} (ha : s.findTagInSet a = none) :
    s.findTagInSetIgnorePermissions a = none := by
  cases hi : s.findTagInSetIgnorePermissions a with
  | none => rfl
  | some w => rw [h a w hi] at ha; cases ha

/-- An update in place that keeps the addresses, and leaves present what is present. -/
theorem Tight.modify {i j : ℕ} {f : AbstractCacheEntry ε → AbstractCacheEntry ε} (h : s.Tight)
    (ha : ∀ e, (f e).m_Address = e.m_Address)
    (hn : ∀ e, e.m_Permission ≠ .NotPresent → (f e).m_Permission ≠ .NotPresent) :
    (s.modify i j f).Tight := by
  intro b w hw
  rw [findIgnore_modify ha] at hw
  obtain ⟨e, he⟩ := findTagInSet_iff.mp (h b w hw)
  refine findTagInSet_iff.mpr ?_
  by_cases hij : w = (i, j)
  · subst hij
    exact ⟨f e, he.modify (ha e) (hn e he.present)⟩
  · exact ⟨e, he.tag, by rw [modify_apply, if_neg hij]; exact he.entry, he.address, he.present⟩

theorem Tight.deallocate (h : s.Tight) (a : Addr) : (s.deallocate rp a).Tight := by
  unfold CacheMemory.deallocate
  split
  · exact h
  · next i j hf =>
      obtain ⟨-, e, he, ha⟩ := findIgnore_iff.mp hf
      intro b w hw
      obtain ⟨⟨c, hc, rfl⟩, e', he', hb⟩ := findIgnore_iff.mp hw
      have hba : b ≠ a := by
        rintro rfl
        have := hc.symm.trans (Function.update_self ..)
        cases this
      have hidx : s.m_tag_index b = some c := (Function.update_of_ne hba _ _).symm.trans hc
      -- the way that is freed was of the other address
      have hij : (decodeSet c, decodeWay c) ≠ (i, j) := by
        intro hij
        have := (modify_apply (decodeSet c, decodeWay c)).symm.trans he'
        rw [if_pos hij] at this
        rw [hij, he] at this
        cases this
        exact hba (hb.symm.trans ha)
      have hsame (v : ℕ × ℕ) (hv : v ≠ (i, j)) : (s.modify i j fun e => { e with
          m_Permission := .NotPresent }).m_cache v.1 v.2 = s.m_cache v.1 v.2 := by
        rw [modify_apply, if_neg hv]
      have hfind := h b _ (findIgnore_iff.mpr
        ⟨⟨c, hidx, rfl⟩, e', (hsame _ hij).symm.trans he', hb⟩)
      obtain ⟨e'', hold⟩ := findTagInSet_iff.mp hfind
      exact findTagInSet_iff.mpr ⟨e'', ⟨c, hc, rfl⟩, (hsame _ hij).trans hold.entry, hold.address,
        hold.present⟩

/-- The way that is filled is where the index leads. -/
theorem fill_holds {i j : ℕ} (hi : i < 65536) (hj : j < 65536) (now : Tick) (a : Addr) (x : ε) :
    ∃ e, (s.fill p rp now a x i j).Holds a (i, j) e ∧ e.ext = x ∧ e.m_last_refresh_tick = now := by
  refine ⟨_, ⟨⟨encode i j, Function.update_self .., ?_⟩, if_pos ⟨rfl, rfl⟩, rfl, by simp⟩, rfl, rfl⟩
  rw [decodeSet_encode hi hj, decodeWay_encode hi hj]

theorem fill_apply {i j : ℕ} (now : Tick) (a : Addr) (x : ε) {w : ℕ × ℕ} (hw : w ≠ (i, j)) :
    (s.fill p rp now a x i j).m_cache w.1 w.2 = s.m_cache w.1 w.2 :=
  if_neg fun hij => hw (Prod.ext hij.1 hij.2)

theorem Tight.fill (h : s.Tight) {i j : ℕ} (hi : i < 65536) (hj : j < 65536) (now : Tick)
    (a : Addr) (x : ε) : (s.fill p rp now a x i j).Tight := by
  intro b w hw
  by_cases hba : b = a
  · subst hba
    obtain ⟨e, hold, -⟩ := @fill_holds _ _ p rp s _ _ hi hj now b x
    rw [findTagInSet_iff.mpr ⟨e, hold⟩, ← hw, hold.findIgnore]
  obtain ⟨⟨c, hc, rfl⟩, e', he', hb⟩ := findIgnore_iff.mp hw
  have hidx : s.m_tag_index b = some c :=
    eraseOldTag_some ((Function.update_of_ne hba _ _).symm.trans hc)
  -- the way that is filled is of the other address
  have hij : (decodeSet c, decodeWay c) ≠ (i, j) := by
    intro hij
    rw [hij] at he'
    simp only [CacheMemory.fill, and_self, if_true, Option.some.injEq] at he'
    exact hba (by rw [← hb, ← he'])
  have hsame := @fill_apply _ _ p rp s _ _ now a x _ hij
  have hfind := h b _ (findIgnore_iff.mpr ⟨⟨c, hidx, rfl⟩, e', hsame.symm.trans he', hb⟩)
  obtain ⟨e'', hold⟩ := findTagInSet_iff.mp hfind
  exact findTagInSet_iff.mpr ⟨e'', ⟨c, hc, rfl⟩, hsame.trans hold.entry, hold.address,
    hold.present⟩

/-! ### Present entries -/

/-- Every present entry is where the tag of its address leads. -/
def Found (s : CacheMemory ε ρ) : Prop :=
  ∀ (w : ℕ × ℕ) (b : Addr), s.addressAt w.1 w.2 = some b → s.isFree w.1 w.2 = false →
    s.findTagInSet b = some w

theorem Found.init (r : ρ) : (CacheMemory.init p r : CacheMemory ε ρ).Found := by
  intro w b hb
  cases hb

theorem Found.congr (h : s.Found) (hf : ∀ b, s'.findTagInSet b = s.findTagInSet b)
    (ha : ∀ w : ℕ × ℕ, s'.addressAt w.1 w.2 = s.addressAt w.1 w.2)
    (hw : ∀ w : ℕ × ℕ, s'.isFree w.1 w.2 = s.isFree w.1 w.2) : s'.Found := by
  intro w b hb hfree
  rw [ha] at hb
  rw [hw] at hfree
  rw [hf]
  exact h w b hb hfree

theorem Found.quiet (h : s.Found) (hq : s.Quiet s') : s'.Found := h.congr hq.find hq.address hq.free

/-- An update of a way that is present, and stays so. -/
theorem Found.modify {i j : ℕ} {f : AbstractCacheEntry ε → AbstractCacheEntry ε} (h : s.Found)
    (ha : ∀ e, (f e).m_Address = e.m_Address) (hfree : s.isFree i j = false)
    (hn : ∀ e, e.m_Permission ≠ .NotPresent → (f e).m_Permission ≠ .NotPresent) :
    (s.modify i j f).Found := by
  intro w b hb hw
  rw [addressAt_modify ha] at hb
  have hold : s.isFree w.1 w.2 = false := by
    by_cases hij : w = (i, j)
    · rw [hij]
      exact hfree
    · rw [← hw, isFree, isFree, modify_apply, if_neg hij]
  obtain ⟨e, he⟩ := findTagInSet_iff.mp (h w b hb hold)
  refine findTagInSet_iff.mpr ?_
  by_cases hij : w = (i, j)
  · subst hij
    exact ⟨f e, he.modify (ha e) (hn e he.present)⟩
  · exact ⟨e, he.tag, by rw [modify_apply, if_neg hij]; exact he.entry, he.address, he.present⟩

theorem Found.deallocate (h : s.Found) (ht : s.Tight) (a : Addr) : (s.deallocate rp a).Found := by
  unfold CacheMemory.deallocate
  split
  · exact h
  · next i j hf =>
      have hfind := ht a _ hf
      intro w b hb hw
      have hij : w ≠ (i, j) := by
        rintro rfl
        obtain ⟨e, he⟩ := findTagInSet_iff.mp hfind
        simp [isFree, CacheMemory.modify, he.entry] at hw
      have hsame : (s.modify i j fun e => { e with m_Permission := .NotPresent }).m_cache w.1 w.2 =
          s.m_cache w.1 w.2 := by rw [modify_apply, if_neg hij]
      simp only [addressAt, isFree, hsame] at hb hw
      have hbw := h w b hb hw
      have hba : b ≠ a := by
        rintro rfl
        exact hij (Option.some.inj (hbw.symm.trans hfind))
      obtain ⟨e, ⟨c, hc, hcw⟩, he, hadr, hn⟩ := findTagInSet_iff.mp hbw
      exact findTagInSet_iff.mpr
        ⟨e, ⟨c, (Function.update_of_ne hba _ _).trans hc, hcw⟩, hsame.trans he, hadr, hn⟩

theorem Found.fill (h : s.Found) {i j : ℕ} (hi : i < 65536) (hj : j < 65536) (now : Tick)
    {a : Addr} (ha : s.findTagInSet a = none) (x : ε) : (s.fill p rp now a x i j).Found := by
  intro w b hb hw
  by_cases hij : w = (i, j)
  · subst hij
    obtain ⟨e, hold, -⟩ := @fill_holds _ _ p rp s _ _ hi hj now a x
    obtain rfl : a = b := by simpa [addressAt, hold.entry, hold.address] using hb
    exact findTagInSet_iff.mpr ⟨e, hold⟩
  · have hsame := @fill_apply _ _ p rp s _ _ now a x _ hij
    simp only [addressAt, isFree, hsame] at hb hw
    have hbw := h w b hb hw
    have hba : b ≠ a := by
      rintro rfl
      rw [ha] at hbw
      cases hbw
    obtain ⟨e, ⟨c, hc, hcw⟩, he, hadr, hn⟩ := findTagInSet_iff.mp hbw
    have htag : (s.fill p rp now a x i j).m_tag_index b = some c :=
      (Function.update_of_ne hba _ _).trans (eraseOldTag_of_ne hc (hcw ▸ hij))
    exact findTagInSet_iff.mpr ⟨e, ⟨c, htag, hcw⟩, hsame.trans he, hadr, hn⟩

/-- The code leads to sets and ways below `2 ^ 16` only. -/
theorem decode_ne {i j : ℕ} (c : BitVec 32) (hij : ¬ (i < 65536 ∧ j < 65536)) :
    (i, j) ≠ (decodeSet c, decodeWay c) := by
  rintro ⟨⟩
  refine hij ⟨?_, ?_⟩
  · rw [decodeSet_eq]
    have := c.isLt
    omega
  · rw [decodeWay, BitVec.toNat_and, show (0xFFFF#32).toNat = 2 ^ 16 - 1 from rfl,
      Nat.and_two_pow_sub_one_eq_mod]
    omega

/-- An entry that is filled where the code cannot lead is not found. -/
theorem Found.fill_unfound (h : s.Found) {i j : ℕ} (hij : ¬ (i < 65536 ∧ j < 65536)) (now : Tick)
    {a : Addr} (ha : s.findTagInSet a = none) (x : ε) :
    (s.fill p rp now a x i j).findTagInSet a = none := by
  refine Option.eq_none_iff_forall_ne_some.mpr fun w hw => ?_
  obtain ⟨e, ⟨c, -, rfl⟩, he, hadr, hn⟩ := findTagInSet_iff.mp hw
  rw [fill_apply now a x (decode_ne c hij).symm] at he
  -- the entry was there before, and found
  have hold := h (decodeSet c, decodeWay c) a (by simp [addressAt, he, hadr])
    (by simp [isFree, he, hn])
  rw [ha] at hold
  cases hold

end CacheMemory

end SttRuby.Cache
