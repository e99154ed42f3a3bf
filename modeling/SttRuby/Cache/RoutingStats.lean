import SttRuby.Cache.Charging

/-!
# Cache — RoutingStats

The statistics of lazy redirection, against the routing they are meant to report.  A recorded
access adds to `m_inter_zone_jumps` when it puts its page in the redirection table (`record_jumps`),
and to `m_intra_zone_walks` when half the page's write count is not zero (`record_walks`).  The
routing looks at neither unless there are four zones, and a block whose default set lies in the
first two zones never leaves its zone.

* `routing_statistics`: the statistics of an access move with the routing of its block exactly if
  pages are redirected with four zones only, by blocks of the last two, and walks are made with
  four zones only;
* `jumps_without_routing`: with two zones both are counted and nothing moves; with four, so is the
  jump of a page of the first zone.
-/

namespace SttRuby.Cache

namespace CacheMemory

variable {ε ρ : Type*} {p : Params} {s : CacheMemory ε ρ}

/-- The page of the block is not in the redirection table, and its next write saturates its
counter. -/
def saturates (s : CacheMemory ε ρ) (a : Addr) : Bool :=
  (s.m_chunk_redirection_table (a >>> 12)).isNone &&
    ((s.m_chunk_counters (a >>> 12)).getD (SatCounter8.ofBits 4)).incr.isSaturated

/-- The access puts the page of the block in the redirection table. -/
def redirectsPage (s : CacheMemory ε ρ) (t : CacheRequestType) (a : Addr) : Bool :=
  (s.countedPage (.recordRequestType t a)).isSome && s.saturates a

/-- The set a block starts its walk from. -/
def walkBase (p : Params) (s : CacheMemory ε ρ) (a : Addr) : ℕ :=
  if p.m_lazy_redirection_scheme = false ∨ p.m_num_of_retention_zones ≠ 4 then p.getDefaultSet a
  else s.baseSet p a

/-- The retention zone a block is routed to. -/
def routedZone (p : Params) (s : CacheMemory ε ρ) (a : Addr) : ℕ :=
  p.getRetentionZone (s.addressToCacheSet p a)

/-! ### What a recorded access counts -/

theorem countWrite_jumps (s : CacheMemory ε ρ) (a : Addr) :
    (s.countWrite p a).stats.m_inter_zone_jumps =
      s.stats.m_inter_zone_jumps + if s.saturates a then 1 else 0 := by
  unfold countWrite saturates
  dsimp only
  cases s.m_chunk_redirection_table (a >>> 12) with
  | some offset => rfl
  | none => split_ifs <;> simp_all

theorem countWrite_redirected (s : CacheMemory ε ρ) (a b : Addr) :
    (s.countWrite p a).redirected b =
      (s.redirected b || (decide (b >>> 12 = a >>> 12) && s.saturates a)) := by
  unfold redirected countWrite saturates
  dsimp only
  cases hq : s.m_chunk_redirection_table (a >>> 12) with
  | some offset => simp
  | none =>
      split_ifs with hsat
      · by_cases hb : b >>> 12 = a >>> 12
        · simp [hb, hsat]
        · simp [hb]
      · simp [Bool.eq_false_iff.mpr hsat]

theorem recordEntry_jumps (hl : p.m_lazy_redirection_scheme = true) (now : Tick)
    (t : CacheRequestType) (a : Addr) (target : ℕ) :
    (s.recordEntry p now t a target).stats.m_inter_zone_jumps =
      s.stats.m_inter_zone_jumps + if s.redirectsPage t a then 1 else 0 := by
  unfold recordEntry
  cases hf : s.findTagInSetIgnorePermissions a with
  | none =>
      have hno : s.redirectsPage t a = false := by
        cases t <;> simp [redirectsPage, countedPage, hf]
      rw [hno]
      rfl
  | some w =>
      cases t with
      | DataArrayWrite =>
          have hyes : s.redirectsPage .DataArrayWrite a = s.saturates a := by
            simp [redirectsPage, countedPage, hf]
          rw [hyes]
          simp only [dataWrite, hl, if_true, countWrite_jumps]
          rfl
      | DataArrayRead | TagArrayRead | TagArrayWrite | AtomicALUOperation => rfl

/-- A jump is counted when the page is put in the table. -/
theorem record_jumps (hl : p.m_lazy_redirection_scheme = true) (s : CacheMemory ε ρ) (now : Tick)
    (t : CacheRequestType) (a : Addr) :
    (s.recordRequestType p now t a).stats.m_inter_zone_jumps =
      s.stats.m_inter_zone_jumps + if s.redirectsPage t a then 1 else 0 :=
  (recordUse_frame _ now t a _).jumps.trans
    (recordEntry_jumps hl (s := s.countAccess p a) now t a _)

/-- A walk is counted when the walk offset is not zero, whatever the number of zones. -/
theorem record_walks (s : CacheMemory ε ρ) (now : Tick) (t : CacheRequestType) (a : Addr) :
    (s.recordRequestType p now t a).stats.m_intra_zone_walks =
      s.stats.m_intra_zone_walks + if 0 < s.intraOffset a then 1 else 0 := by
  obtain ⟨-, -, -, jumps, hstats⟩ :=
    recordEntry_frame (p := p) (s.countAccess p a) now t a (s.addressToCacheSet p a)
  refine (recordUse_frame _ now t a _).walks.trans ?_
  rw [hstats]
  unfold countAccess intraOffset
  dsimp only
  cases s.m_chunk_counters (a >>> 12) with
  | none => rfl
  | some c =>
      have hclamp : 0 < min (c.counter / 2) 7 ↔ c.counter / 2 > 0 := by omega
      simp only [hclamp]

theorem record_redirected (hl : p.m_lazy_redirection_scheme = true) (s : CacheMemory ε ρ)
    (now : Tick) (t : CacheRequestType) (a b : Addr) :
    (s.recordRequestType p now t a).redirected b =
      (s.redirected b || (decide (b >>> 12 = a >>> 12) && s.redirectsPage t a)) := by
  have htable := (record_pages hl (s := s) now t a).2
  unfold redirectsPage
  cases hc : s.countedPage (.recordRequestType t a) with
  | none =>
      rw [hc, if_pos rfl] at htable
      unfold redirected
      rw [htable]
      simp
  | some q =>
      rw [hc, if_neg nofun] at htable
      have hcount := countWrite_redirected (p := p) s a b
      unfold redirected at hcount ⊢
      rw [htable, hcount]
      simp

/-! ### What moves -/

/-- With fewer than four zones nothing is routed elsewhere. -/
theorem routedZone_default (h : p.m_num_of_retention_zones ≠ 4) (s : CacheMemory ε ρ) (a : Addr) :
    s.routedZone p a = p.getRetentionZone (p.getDefaultSet a) := by
  rw [routedZone, addressToCacheSet_default (.inr h)]

/-- With four, a block of the last two zones is two zones down once its page is redirected. -/
theorem routedZone_eq (h : p.Redirects) (s : CacheMemory ε ρ) (a : Addr) :
    s.routedZone p a = if s.redirected a ∧ 2 ≤ p.getDefaultSet a / p.m_thresholds 0 then
      p.getDefaultSet a / p.m_thresholds 0 - 2 else p.getDefaultSet a / p.m_thresholds 0 := by
  rw [routedZone, h.zone_eq (s.addressToCacheSet_lt_zones a h), s.addressToCacheSet_div a h,
    s.baseSet_div a h]

/-- The zones of a page change only when it is put in the table. -/
theorem routedZone_record (hl : p.m_lazy_redirection_scheme = true)
    (h4 : 4 ≤ p.m_cache_num_sets) {t : CacheRequestType} {a : Addr}
    (hno : s.redirectsPage t a = false) (now : Tick) (b : Addr) :
    (s.recordRequestType p now t a).routedZone p b = s.routedZone p b := by
  by_cases hz : p.m_num_of_retention_zones = 4
  · rw [routedZone_eq ⟨hl, hz, h4⟩, routedZone_eq ⟨hl, hz, h4⟩, record_redirected hl, hno,
      Bool.and_false, Bool.or_false]
  · rw [routedZone_default hz, routedZone_default hz]

/-- When its page is put in the table, a block moves exactly if it is of the last two of four
zones. -/
theorem routedZone_jump (hl : p.m_lazy_redirection_scheme = true) (h4 : 4 ≤ p.m_cache_num_sets)
    {t : CacheRequestType} {a : Addr} (hyes : s.redirectsPage t a = true) (now : Tick) :
    (s.recordRequestType p now t a).routedZone p a ≠ s.routedZone p a ↔
      p.m_num_of_retention_zones = 4 ∧ p.m_thresholds 1 ≤ p.getDefaultSet a := by
  by_cases hz : p.m_num_of_retention_zones = 4
  · have h : p.Redirects := ⟨hl, hz, h4⟩
    have hbefore : s.redirected a = false := by
      simp only [redirectsPage, saturates, Bool.and_eq_true, Option.isNone_iff_eq_none] at hyes
      rw [redirected, hyes.2.1]
      rfl
    have hzone : p.m_thresholds 1 ≤ p.getDefaultSet a ↔
        2 ≤ p.getDefaultSet a / p.m_thresholds 0 := by
      rw [p.m_thresholds_eq, Nat.le_div_iff_mul_le h.pos]
    rw [routedZone_eq h, routedZone_eq h, record_redirected hl, hbefore, hyes, hzone]
    by_cases hhigh : 2 ≤ p.getDefaultSet a / p.m_thresholds 0
    · rw [if_pos ⟨by simp, hhigh⟩, if_neg (by simp)]
      exact iff_of_true (by omega) ⟨hz, hhigh⟩
    · rw [if_neg fun hc => hhigh hc.2, if_neg fun hc => hhigh hc.2]
      exact iff_of_false (fun hne => hne rfl) fun hc => hhigh hc.2
  · rw [routedZone_default hz, routedZone_default hz]
    exact iff_of_false (fun hne => hne rfl) fun hc => hz hc.1

/-- The walk moves a block exactly when its offset is not zero. -/
theorem walk_moves_iff (h : p.Redirects) (h8 : 8 ≤ p.m_thresholds 0) (s : CacheMemory ε ρ)
    (a : Addr) : s.addressToCacheSet p a ≠ s.walkBase p a ↔ 0 < s.intraOffset a := by
  have hoff : s.intraOffset a < p.m_thresholds 0 := by
    unfold intraOffset
    split <;> omega
  rw [walkBase, if_neg (by simp [h.lazy, h.zones]), s.addressToCacheSet_eq a h, ne_eq,
    Lib.rotate_eq_self_iff hoff, Nat.pos_iff_ne_zero]

end CacheMemory

open CacheMemory

/-- **The routing statistics.**  With zones of at least eight sets, in any state and for any access:
a jump is counted exactly when the access changes the zone its block is routed to, if and only if
the page is put in the table with four zones and by a block of the last two, or not at all; the
block then moves if any block of the page does.  A walk is counted exactly when the walk moves the
block away from its base set, if and only if there are four zones or the write count is below
two. -/
theorem routing_statistics {ε ρ : Type*} {p : Params} (hl : p.m_lazy_redirection_scheme = true)
    (h8 : 8 ≤ p.m_thresholds 0) (s : CacheMemory ε ρ) (now : Tick) (t : CacheRequestType)
    (a : Addr) :
    let s' := s.recordRequestType p now t a
    ((s'.stats.m_inter_zone_jumps =
      s.stats.m_inter_zone_jumps + if s'.routedZone p a ≠ s.routedZone p a then 1 else 0) ↔
      (s.redirectsPage t a = true →
        p.m_num_of_retention_zones = 4 ∧ p.m_thresholds 1 ≤ p.getDefaultSet a)) ∧
    ((s.redirectsPage t a = true →
        p.m_num_of_retention_zones = 4 ∧ p.m_thresholds 1 ≤ p.getDefaultSet a) →
      (s'.routedZone p a ≠ s.routedZone p a ↔
        ∃ b, b >>> 12 = a >>> 12 ∧ s'.routedZone p b ≠ s.routedZone p b)) ∧
    (s'.stats.m_intra_zone_walks = s.stats.m_intra_zone_walks +
      (if s.addressToCacheSet p a ≠ s.walkBase p a then 1 else 0) ↔
      (0 < s.intraOffset a → p.m_num_of_retention_zones = 4)) := by
  intro s'
  have h4 : 4 ≤ p.m_cache_num_sets := by
    have hle := Nat.div_le_self p.m_cache_num_sets p.m_num_of_retention_zones
    rw [Params.m_thresholds, Nat.zero_add, Nat.one_mul] at h8
    omega
  have hstays (hno : ¬ s.redirectsPage t a = true) (b : Addr) :
      s'.routedZone p b = s.routedZone p b :=
    routedZone_record hl h4 (Bool.eq_false_iff.mpr hno) now b
  refine ⟨?_, fun hjump => ⟨fun hne => ⟨a, rfl, hne⟩, ?_⟩, ?_⟩
  · rw [record_jumps hl s now t a, Nat.add_left_cancel_iff]
    by_cases hyes : s.redirectsPage t a = true
    · have hmoves := routedZone_jump hl h4 hyes now
      simp only [hyes, if_true, forall_const, ← hmoves, s']
      split_ifs with hne <;> simp [hne]
    · simp [hyes, hstays hyes a]
  · rintro ⟨b, -, hne⟩
    by_cases hyes : s.redirectsPage t a = true
    · exact (routedZone_jump hl h4 hyes now).mpr (hjump hyes)
    · exact absurd (hstays hyes b) hne
  · rw [record_walks s now t a, Nat.add_left_cancel_iff]
    by_cases hz : p.m_num_of_retention_zones = 4
    · simp only [walk_moves_iff ⟨hl, hz, h4⟩ h8 s a, hz, implies_true]
    · have hstill : s.addressToCacheSet p a = s.walkBase p a := by
        rw [walkBase, if_pos (.inr hz), addressToCacheSet_default (.inr hz)]
      simp [hstill, hz]

/-- A block, and the first fourteen data writes of its page. -/
def fourteenWrites (a : Addr) : List (Tick × Op Char) :=
  (1, .allocate a 'a') :: List.replicate 14 (2, .recordRequestType .DataArrayWrite a)

/-- The fifteenth write of a page of the last zone. -/
theorem routing_statistics_fifteenth_write :
    ∃ s : CacheMemory Char Unit, (calls wideSets firstWay ()).Reach (fun _ _ => True) s ∧
      s.redirectsPage .DataArrayWrite 0x3000 = true ∧ 0 < s.intraOffset 0x3000 ∧
      let s' := s.recordRequestType wideSets 3 .DataArrayWrite 0x3000
      s'.stats.m_inter_zone_jumps = s.stats.m_inter_zone_jumps +
        if s'.routedZone wideSets 0x3000 ≠ s.routedZone wideSets 0x3000 then 1 else 0 := by
  obtain ⟨s, hs, hyes, hoff⟩ := Lib.Machine.trace_reaches
    (M := calls wideSets firstWay ()) (G := fun _ _ => True)
    (s := CacheMemory.init wideSets ()) (l := fourteenWrites 0x3000)
    (P := fun s => s.redirectsPage .DataArrayWrite 0x3000 = true ∧ 0 < s.intraOffset 0x3000)
    rfl (by decide +kernel)
  exact ⟨s, hs, hyes, hoff, (routing_statistics rfl (by decide) s 3 .DataArrayWrite 0x3000).1.mpr
    fun _ => ⟨rfl, by decide⟩⟩

/-- The cache with two retention zones. -/
def twoZones : Params :=
  { wideSets with m_num_of_retention_zones := 2, zones_pos := by decide, zones_le := by decide }

/-- **Statistics without routing.**  The fifteenth write of a page counts a jump and a walk.  With
two zones nothing is routed elsewhere; with four, a block of the first zone stays in its zone. -/
theorem jumps_without_routing :
    (∃ s : CacheMemory Char Unit, (calls twoZones firstWay ()).Reach (fun _ _ => True) s ∧
      let s' := s.recordRequestType twoZones 3 .DataArrayWrite 0x3000
      s'.stats.m_inter_zone_jumps = s.stats.m_inter_zone_jumps + 1 ∧
      (∀ b, s'.routedZone twoZones b = s.routedZone twoZones b) ∧
      s'.stats.m_intra_zone_walks = s.stats.m_intra_zone_walks + 1 ∧
      s.addressToCacheSet twoZones 0x3000 = s.walkBase twoZones 0x3000) ∧
    ∃ s : CacheMemory Char Unit, (calls wideSets firstWay ()).Reach (fun _ _ => True) s ∧
      let s' := s.recordRequestType wideSets 3 .DataArrayWrite 0x0
      s'.stats.m_inter_zone_jumps = s.stats.m_inter_zone_jumps + 1 ∧
      s'.routedZone wideSets 0x0 = s.routedZone wideSets 0x0 := by
  have htwo : twoZones.m_num_of_retention_zones ≠ 4 := by decide
  constructor
  · obtain ⟨s, hs, hyes, hoff⟩ := Lib.Machine.trace_reaches
      (M := calls twoZones firstWay ()) (G := fun _ _ => True)
      (s := CacheMemory.init twoZones ()) (l := fourteenWrites 0x3000)
      (P := fun s => s.redirectsPage .DataArrayWrite 0x3000 = true ∧ 0 < s.intraOffset 0x3000)
      rfl (by decide +kernel)
    refine ⟨s, hs, ?_, fun b => ?_, ?_, ?_⟩
    · rw [record_jumps rfl, if_pos hyes]
    · rw [routedZone_default htwo, routedZone_default htwo]
    · rw [record_walks, if_pos hoff]
    · rw [walkBase, if_pos (.inr htwo), addressToCacheSet_default (.inr htwo)]
  · obtain ⟨s, hs, hyes⟩ := Lib.Machine.trace_reaches
      (M := calls wideSets firstWay ()) (G := fun _ _ => True)
      (s := CacheMemory.init wideSets ()) (l := fourteenWrites 0x0)
      (P := fun s => s.redirectsPage .DataArrayWrite 0x0 = true) rfl (by decide +kernel)
    have hr : wideSets.Redirects := ⟨rfl, rfl, by decide⟩
    have hlow : ¬ 2 ≤ wideSets.getDefaultSet 0x0 / wideSets.m_thresholds 0 := by decide
    refine ⟨s, hs, ?_, ?_⟩
    · rw [record_jumps rfl, if_pos hyes]
    · rw [routedZone_eq hr, routedZone_eq hr, if_neg fun h => hlow h.2, if_neg fun h => hlow h.2]

end SttRuby.Cache
