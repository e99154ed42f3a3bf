import SttRuby.Cache.Index

/-!
# Cache — Retention

What the calls do to the retention fields of the entries.  `Everywhere Q s` says that every
entry of the array satisfies `Q` at its set; `Everywhere.call` is the one rule by which a call
keeps it, with a premise for each way in which a call can change an entry.

* A cache whose lookups all come in time never holds an expired entry (`in_time_unexpired`),
  and then `cacheProbe` asks the replacement policy.  `expire` does not read the limit 0 of an
  SRAM cache as "never": a single late lookup is enough (`sram_lookup_expires`).
* An STT-RAM entry has the limit of the zone that holds it as long as every data write of it is
  routed to a set of the same retention time (`limit_of_zone`).  `recordRequestType` takes the
  limit from the set the address is routed to, not from the set the entry lies in, so a block
  left behind by its redirected page gets the limit of another zone (`redirected_write_limit`).
-/

namespace SttRuby.Cache

open CacheMemory

variable {ε ρ : Type*} {p : Params} {rp : ReplacementPolicy ρ} {s s' : CacheMemory ε ρ}

/-- The address whose entry a call looks up with the non-const `lookup`. -/
def Op.looksUp (p : Params) : Op ε → Option Addr
  | .lookup a => some a
  | .setMRU a => some (p.makeLineAddress a)
  | .tryCacheAccess a _ => some a
  | .allocate _ _ | .deallocate _ | .setMRUEntry _ | .recordRequestType _ _
  | .changePermission _ _ => none

/-! ### A property of every entry -/

namespace CacheMemory

/-- Every entry of the array satisfies `Q` at its set. -/
def Everywhere (Q : ℕ → AbstractCacheEntry ε → Prop) (s : CacheMemory ε ρ) : Prop :=
  ∀ i j e, s.m_cache i j = some e → Q i e

variable {Q : ℕ → AbstractCacheEntry ε → Prop}

theorem Everywhere.congr (h : s.Everywhere Q) (hc : s'.m_cache = s.m_cache) :
    s'.Everywhere Q := by
  intro i j e he
  rw [hc] at he
  exact h i j e he

theorem Everywhere.modify (h : s.Everywhere Q) {i j : ℕ}
    {f : AbstractCacheEntry ε → AbstractCacheEntry ε}
    (hf : ∀ e, s.m_cache i j = some e → Q i e → Q i (f e)) : (s.modify i j f).Everywhere Q := by
  intro i' j' e he
  by_cases hij : i' = i ∧ j' = j
  · obtain ⟨rfl, rfl⟩ := hij
    simp only [CacheMemory.modify, and_self, if_true, Option.map_eq_some_iff] at he
    obtain ⟨e₀, he₀, rfl⟩ := he
    exact hf e₀ he₀ (h _ _ _ he₀)
  · simp only [CacheMemory.modify, if_neg hij] at he
    exact h _ _ _ he

theorem Everywhere.lookup (h : s.Everywhere Q) {now : Tick} {a : Addr}
    (hexp : ∀ i j e, s.findTagInSet a = some (i, j) → s.m_cache i j = some e → Q i e →
      Q i (expire now e)) : (s.lookup now a).1.Everywhere Q := by
  unfold CacheMemory.lookup
  split
  · exact h
  · next i j hf => exact h.modify fun e he hq => hexp i j e hf he hq

theorem Everywhere.touch (h : s.Everywhere Q) {now : Tick} (i j : ℕ)
    (ht : ∀ i e, Q i e → Q i { e with m_last_touch_tick := now }) :
    (s.touch rp now i j).Everywhere Q :=
  (h.modify fun e _ hq => ht i e hq).congr rfl

theorem countWrite_cache (a : Addr) : (s.countWrite p a).m_cache = s.m_cache := by
  obtain ⟨counters, table, jumps, hw⟩ := countWrite_eq (p := p) s a
  rw [hw]

/-- What a recorded access may do to the entry of its address. -/
theorem Everywhere.recordEntry (h : s.Everywhere Q) {now : Tick} {t : CacheRequestType}
    {a : Addr} {target : ℕ}
    (ht : ∀ i e, Q i e → Q i { e with m_last_touch_tick := now })
    (hp : ∀ i e perm, Q i e → Q i { e with m_Permission := perm })
    (hdata : ∀ i j e, t = .DataArrayWrite → s.findTagInSetIgnorePermissions a = some (i, j) →
      Q i e → Q i { e with
        m_last_refresh_tick := now, m_is_expired := false, m_retention_limit := p.zoneTime target })
    (htag : ∀ i e, Q i e → Q i { e with
      m_last_refresh_tick := now, m_is_expired := false, m_retention_limit := p.zoneTime i }) :
    (s.recordEntry p now t a target).Everywhere Q := by
  unfold CacheMemory.recordEntry
  split
  · exact h
  · next i j hf =>
      have htouch := h.modify (i := i) (j := j)
        (f := fun e => { e with m_last_touch_tick := now }) fun e _ hq => ht i e hq
      cases t with
      | DataArrayWrite =>
          have hr := htouch.modify (i := i) (j := j) (f := fun e => { e with
            m_last_refresh_tick := now, m_is_expired := false,
            m_retention_limit := p.zoneTime target }) fun e _ hq => hdata i j e rfl hf hq
          simp only [dataWrite]
          split_ifs
          · exact hr.congr (countWrite_cache a)
          · exact hr
      | TagArrayWrite =>
          refine Everywhere.modify (htouch.modify fun e _ hq => htag i e hq) fun e _ hq => ?_
          split_ifs
          · exact hp i e _ hq
          · exact hq
      | DataArrayRead => exact htouch
      | TagArrayRead => exact htouch
      | AtomicALUOperation => exact htouch

theorem Everywhere.fill (h : s.Everywhere Q) {now : Tick} {a : Addr} {x : ε} {i j : ℕ}
    (hfill : Q i { AbstractCacheEntry.new now x with
      m_Address := a, m_Permission := .Invalid, m_last_touch_tick := now
      m_retention_limit := if p.m_is_sttram = false then 0 else p.zoneTime i }) :
    (s.fill p rp now a x i j).Everywhere Q := by
  intro i' j' e he
  by_cases hij : i' = i ∧ j' = j
  · obtain ⟨rfl, rfl⟩ := hij
    simp only [CacheMemory.fill, and_self, if_true, Option.some.injEq] at he
    exact he ▸ hfill
  · simp only [CacheMemory.fill, if_neg hij] at he
    exact h _ _ _ he

/-- **One call, every entry.**  A call keeps a property of all entries if each change it can
make to an entry does: the last access, the permission, the mark of a late lookup, the refresh
of a data or tag write, the reset of a reused slot and the entry a free way is filled with. -/
theorem Everywhere.call (h : s.Everywhere Q) {now : Tick} {op : Op ε}
    (ht : ∀ i e, Q i e → Q i { e with m_last_touch_tick := now })
    (hp : ∀ i e perm, Q i e → Q i { e with m_Permission := perm })
    (hexp : ∀ a i j e, op.looksUp p = some a → s.findTagInSet a = some (i, j) →
      s.m_cache i j = some e → Q i e → Q i (expire now e))
    (hdata : ∀ a i j e, op = .recordRequestType .DataArrayWrite a →
      s.findTagInSetIgnorePermissions a = some (i, j) → Q i e → Q i { e with
        m_last_refresh_tick := now, m_is_expired := false
        m_retention_limit := p.zoneTime (s.addressToCacheSet p a) })
    (htag : ∀ i e, Q i e → Q i { e with
      m_last_refresh_tick := now, m_is_expired := false, m_retention_limit := p.zoneTime i })
    (hfill : ∀ a x, op = .allocate a x → Q (s.addressToCacheSet p a)
      { AbstractCacheEntry.new now x with
        m_Address := a, m_Permission := .Invalid, m_last_touch_tick := now
        m_retention_limit :=
          if p.m_is_sttram = false then 0 else p.zoneTime (s.addressToCacheSet p a) })
    (hs : s.call p rp now op = some s') : s'.Everywhere Q := by
  cases op with
  | allocate a x =>
      simp only [CacheMemory.call, CacheMemory.allocate] at hs
      split at hs
      · next i j hf =>
          cases hs
          refine Everywhere.congr (s := s.modify i j fun e => { e with
            m_is_expired := false, m_Permission := .Invalid, m_retention_limit := p.zoneTime i
            m_last_touch_tick := now, m_last_refresh_tick := now }) ?_ rfl
          exact h.modify fun e _ hq => ht i _ (hp i _ .Invalid (htag i e hq))
      · obtain ⟨way, -, rfl⟩ := Option.map_eq_some_iff.mp hs
        exact h.fill (hfill a x rfl)
  | deallocate a =>
      cases hs
      unfold CacheMemory.deallocate
      split
      · exact h
      · next i j _ =>
          exact (h.modify (f := fun e => { e with m_Permission := .NotPresent })
            fun e _ hq => hp i e _ hq).congr rfl
  | lookup a => cases hs; exact h.lookup fun i j e => hexp a i j e rfl
  | setMRU a =>
      cases hs
      have hl := h.lookup fun i j e => hexp (p.makeLineAddress a) i j e rfl
      simp only [CacheMemory.setMRU]
      split
      · exact hl.touch _ _ ht
      · exact hl
  | setMRUEntry a =>
      cases hs
      unfold CacheMemory.setMRUEntry
      split
      · exact h
      · exact h.touch _ _ ht
  | tryCacheAccess a r =>
      cases hs
      have hl := h.lookup fun i j e => hexp a i j e rfl
      unfold CacheMemory.tryCacheAccess
      split
      · exact hl.touch _ _ ht
      · exact hl
  | recordRequestType t a =>
      cases hs
      have hcount : (s.countAccess p a).Everywhere Q := h.congr rfl
      refine Everywhere.congr ?_ (recordUse_frame _ now t a _).cache
      refine hcount.recordEntry ht hp (fun i j e ht' hf hq => ?_) htag
      subst ht'
      exact hdata a i j e rfl hf hq
  | changePermission a perm =>
      cases hs
      unfold CacheMemory.changePermission
      split
      · exact h
      · next i j _ => exact h.modify fun e _ hq => hp i e perm hq

end CacheMemory

/-! ### Expiry -/

/-- The call looks up no entry past its retention limit, `Busy` and `Maybe_Stale` ones aside. -/
def InTime (p : Params) (s : CacheMemory ε ρ) (c : Tick × Op ε) : Prop :=
  ∀ e ∈ (c.2.looksUp p).bind s.lookupConst, e.m_Permission = .Busy ∨
    e.m_Permission = .Maybe_Stale ∨ c.1 ≤ e.m_last_refresh_tick + e.m_retention_limit

instance (p : Params) (s : CacheMemory ε ρ) (c : Tick × Op ε) : Decidable (InTime p s c) :=
  inferInstanceAs (Decidable (∀ e ∈ (c.2.looksUp p).bind s.lookupConst, _))

theorem expire_in_time {now : Tick} {e : AbstractCacheEntry ε}
    (h : e.m_Permission = .Busy ∨ e.m_Permission = .Maybe_Stale ∨
      now ≤ e.m_last_refresh_tick + e.m_retention_limit) : expire now e = e := by
  unfold expire
  rw [if_neg]
  rintro ⟨-, hb, hm, hlate⟩
  rcases h with h | h | h
  · exact hb h
  · exact hm h
  · exact absurd hlate (Nat.not_lt.mpr h)

/-- No entry of the array is marked. -/
def NoneExpired (s : CacheMemory ε ρ) : Prop := s.Everywhere fun _ e => e.m_is_expired = false

theorem call_noneExpired {now : Tick} {op : Op ε} (h : NoneExpired s) (hg : InTime p s (now, op))
    (hs : s.call p rp now op = some s') : NoneExpired s' := by
  refine h.call (fun _ _ hq => hq) (fun _ _ _ hq => hq) (fun a i j e hop hf he hq => ?_)
    (fun _ _ _ _ _ _ _ => rfl) (fun _ _ _ => rfl) (fun _ _ _ => rfl) hs
  have hmem : e ∈ (op.looksUp p).bind s.lookupConst := by
    simp [hop, lookupConst, hf, entryAt, he]
  rwa [expire_in_time (hg e hmem)]

theorem assoc_pos (p : Params) : 0 < p.m_cache_assoc := by
  by_contra h
  have hz : p.m_cache_assoc = 0 := by omega
  have hsets := p.num_sets_gt
  rw [hz, Nat.div_zero, Nat.zero_div] at hsets
  omega

/-- With nothing expired, a full set is left to the replacement policy. -/
theorem cacheProbe_victim (h : NoneExpired s) (now : Tick) {a : Addr}
    (hfull : s.cacheAvail p a = false) :
    ∃ e, s.m_cache (s.addressToCacheSet p a)
        (rp.getVictim s.repl (s.addressToCacheSet p a) p.m_cache_assoc) = some e ∧
      (e.m_Permission ≠ .Busy → s.cacheProbe p rp now a = some e.m_Address) := by
  have hlt := rp.getVictim_lt s.repl (s.addressToCacheSet p a) p.m_cache_assoc (assoc_pos p)
  have hfree : s.freeWay p (s.addressToCacheSet p a) = none := by
    simpa using (Bool.or_eq_false_iff.mp hfull).2
  have hway := List.find?_eq_none.mp hfree _ (List.mem_range.mpr hlt)
  cases he : s.m_cache (s.addressToCacheSet p a)
      (rp.getVictim s.repl (s.addressToCacheSet p a) p.m_cache_assoc) with
  | none => simp [isFree, he] at hway
  | some e =>
      refine ⟨e, rfl, fun hb => ?_⟩
      have hexp : s.expiredWay p (s.addressToCacheSet p a) = none := by
        refine List.find?_eq_none.mpr fun i _ => ?_
        cases hi : s.m_cache (s.addressToCacheSet p a) i with
        | none => simp
        | some e' => simp [h _ _ _ hi]
      simp only [cacheProbe, hexp, he, if_neg hb]

/-- **Nothing expires in time.**  After any sequence of calls none of which looks up a resident
entry past its retention limit, no entry is marked, and `cacheProbe` returns the address of the
way that the replacement policy chooses, unless that way is `Busy`. -/
theorem in_time_unexpired {r : ρ} (h : (calls p rp r).Reach (InTime p) s) :
    (∀ i j e, s.m_cache i j = some e → e.m_Permission ≠ .NotPresent → e.m_is_expired = false) ∧
    ∀ now a, s.cacheAvail p a = false →
      ∃ e, s.m_cache (s.addressToCacheSet p a)
          (rp.getVictim s.repl (s.addressToCacheSet p a) p.m_cache_assoc) = some e ∧
        (e.m_Permission ≠ .Busy → s.cacheProbe p rp now a = some e.m_Address) := by
  have hnone : NoneExpired s := by
    refine h.invariant (fun s hs => ?_) fun s c s' hs hg hstep => call_noneExpired hs hg hstep
    subst hs
    intro i j e he
    simp [CacheMemory.init] at he
  exact ⟨fun i j e he _ => hnone i j e he, fun now a => cacheProbe_victim hnone now⟩

/-- An SRAM cache of two sets of two ways. -/
def sramTwoWays : Params where
  m_cache_size := 256
  m_cache_assoc := 2
  m_block_size := 64
  m_start_index_bit := 6
  m_resource_stalls := true
  m_is_sttram := false
  m_lazy_redirection_scheme := false
  m_num_of_retention_zones := 1
  m_low_retention := ⟨⟨1, 1⟩, ⟨1, 1⟩, 0⟩
  m_mediumlow_retention := ⟨⟨1, 1⟩, ⟨1, 1⟩, 0⟩
  m_mediumhigh_retention := ⟨⟨1, 1⟩, ⟨1, 1⟩, 0⟩
  m_high_retention := ⟨⟨1, 1⟩, ⟨1, 1⟩, 0⟩
  dataArrayBanks := 1
  tagArrayBanks := 1
  clockPeriod := 1
  block_size_ne := fourSets.block_size_ne
  num_sets_gt := by decide
  lazy_sttram := Params.no_redirection
  zones_pos := Params.one_zone_pos
  zones_le := Params.one_zone_le

/-- Always the last way. -/
def lastWay : ReplacementPolicy Unit where
  touch r _ _ _ := r
  reset r _ _ _ := r
  invalidate r _ _ := r
  getVictim _ _ n := n - 1
  getVictim_lt _ _ _ h := Nat.sub_lt h Nat.one_pos

theorem in_time_unexpired_two_ways :
    ∃ s, (calls sramTwoWays lastWay ()).Run (InTime sramTwoWays) (CacheMemory.init sramTwoWays ())
        [(1, .allocate 0x0 'a'), (1, .lookup 0x0), (2, .allocate 0x80 'b'), (2, .lookup 0x80)] s ∧
      (∀ e, s.m_cache 0 0 = some e → e.m_Permission ≠ .NotPresent → e.m_is_expired = false) ∧
      s.cacheAvail sramTwoWays 0x100 = false ∧
      ∃ e, s.m_cache 0 1 = some e ∧
        (e.m_Permission ≠ .Busy → s.cacheProbe sramTwoWays lastWay 3 0x100 = some e.m_Address) := by
  obtain ⟨s, hr, hfull⟩ := Lib.Machine.trace_exists
    (M := calls sramTwoWays lastWay ()) (G := InTime sramTwoWays)
    (s := CacheMemory.init sramTwoWays ())
    (l := [(1, .allocate 0x0 'a'), (1, .lookup 0x0), (2, .allocate 0x80 'b'), (2, .lookup 0x80)])
    (P := fun s => s.cacheAvail sramTwoWays 0x100 = false) (by decide +kernel)
  have h := in_time_unexpired ⟨_, _, rfl, hr⟩
  exact ⟨s, hr, fun e => h.1 0 0 e, hfull, h.2 3 0x100 hfull⟩

/-- A lookup one tick after the allocation marks the entry of an SRAM cache: its limit is 0, and
`lookup` takes that for a limit.  The marked way is then evicted, whatever the replacement
policy says. -/
theorem sram_lookup_expires :
    sramTwoWays.m_is_sttram = false ∧
    ∃ s, (calls sramTwoWays lastWay ()).Run (fun _ _ => True) (CacheMemory.init sramTwoWays ())
        [(1, .allocate 0x0 'a'), (1, .allocate 0x80 'b'), (2, .lookup 0x0)] s ∧
      ((s.m_cache 0 0).map fun e => (e.m_Permission, e.m_is_expired)) = some (.Invalid, true) ∧
      s.cacheAvail sramTwoWays 0x100 = false ∧
      s.addressToCacheSet sramTwoWays 0x100 = 0 ∧
      lastWay.getVictim s.repl 0 sramTwoWays.m_cache_assoc = 1 ∧
      ((s.m_cache 0 1).map fun e => (e.m_Address, e.m_Permission)) = some (0x80, .Invalid) ∧
      s.cacheProbe sramTwoWays lastWay 2 0x100 = some 0x0 := by
  refine ⟨rfl, Lib.Machine.trace_exists (by decide +kernel)⟩

/-! ### Limits and zones -/

/-- The address whose data a call writes. -/
def Op.dataWrites : Op ε → Option Addr
  | .recordRequestType .DataArrayWrite a => some a
  | _ => none

/-- A data write of a resident address is routed to a set with the retention time of the set
that holds it. -/
def WritesAtHome (p : Params) (s : CacheMemory ε ρ) (c : Tick × Op ε) : Prop :=
  ∀ a ∈ c.2.dataWrites, ∀ ij ∈ s.findTagInSetIgnorePermissions a,
    p.zoneTime (s.addressToCacheSet p a) = p.zoneTime ij.1

instance (p : Params) (s : CacheMemory ε ρ) (c : Tick × Op ε) : Decidable (WritesAtHome p s c) :=
  inferInstanceAs (Decidable (∀ a ∈ c.2.dataWrites, _))

/-- Every entry has the limit of the zone of its set. -/
def LimitsAtHome (p : Params) (s : CacheMemory ε ρ) : Prop :=
  s.Everywhere fun i e => e.m_retention_limit = p.zoneTime i

theorem call_limitsAtHome (hst : p.m_is_sttram = true) {now : Tick} {op : Op ε}
    (h : LimitsAtHome p s) (hg : WritesAtHome p s (now, op))
    (hs : s.call p rp now op = some s') : LimitsAtHome p s' := by
  refine h.call (fun _ _ hq => hq) (fun _ _ _ hq => hq) (fun a i j e _ _ _ hq => ?_)
    (fun a i j e hop hf _ => ?_) (fun _ _ _ => rfl) (fun _ _ _ => by simp [hst]) hs
  · obtain ⟨mark, he⟩ := expire_eq now e
    rw [he]
    exact hq
  · subst hop
    exact hg a rfl (i, j) hf

/-- **The limit is the zone's.**  In an STT-RAM cache, after any sequence of calls whose data
writes are all routed to sets of the retention time of the set that holds the block, each
resident entry has the retention limit of the zone whose cells hold it. -/
theorem limit_of_zone (hst : p.m_is_sttram = true) {r : ρ}
    (h : (calls p rp r).Reach (WritesAtHome p) s) :
    ∀ i j e, s.m_cache i j = some e → e.m_Permission ≠ .NotPresent →
      e.m_retention_limit = (p.retention (p.getRetentionZone i)).time := by
  have hall : LimitsAtHome p s := by
    refine h.invariant (fun s hs => ?_) fun s c s' hs hg hstep =>
      call_limitsAtHome hst hs hg hstep
    subst hs
    intro i j e he
    simp [CacheMemory.init] at he
  exact fun i j e he _ => hall i j e he

/-- Fifteen writes of a block of the last zone are all at home. -/
theorem limit_of_zone_fifteen_writes :
    ∃ s e, (calls fourSets firstWay ()).Run (WritesAtHome fourSets) (CacheMemory.init fourSets ())
        ((1, .allocate 0xC0 'a') :: List.replicate 15 (2, .recordRequestType .DataArrayWrite 0xC0))
        s ∧
      s.m_cache 3 0 = some e ∧
      e.m_retention_limit = (fourSets.retention (fourSets.getRetentionZone 3)).time := by
  obtain ⟨s, hr, hres⟩ := Lib.Machine.trace_exists
    (M := calls fourSets firstWay ()) (G := WritesAtHome fourSets)
    (s := CacheMemory.init fourSets ())
    (l := (1, .allocate 0xC0 'a') ::
      List.replicate 15 (2, .recordRequestType .DataArrayWrite 0xC0))
    (P := fun s => ((s.m_cache 3 0).map fun e => e.m_Permission) = some .Invalid)
    (by decide +kernel)
  obtain ⟨e, he, hperm⟩ := Option.map_eq_some_iff.mp hres
  exact ⟨s, e, hr, he, limit_of_zone rfl ⟨_, _, rfl, hr⟩ 3 0 e he (by rw [hperm]; decide)⟩

/-- The sixteenth write finds its page redirected: the block still lies in set 3, of the last
zone, and gets the limit of the second zone, which holds the set it is routed to now. -/
theorem redirected_write_limit :
    ∃ s, (calls fourSets firstWay ()).Run (fun _ _ => True) (CacheMemory.init fourSets ())
        ((1, .allocate 0xC0 'a') :: List.replicate 16 (2, .recordRequestType .DataArrayWrite 0xC0))
        s ∧
      ((s.m_cache 3 0).map fun e => (e.m_Address, e.m_Permission, e.m_retention_limit)) =
        some (0xC0, .Invalid, 100) ∧
      (fourSets.retention (fourSets.getRetentionZone 3)).time = 10000 :=
  Lib.Machine.trace_exists (by decide +kernel)

end SttRuby.Cache
