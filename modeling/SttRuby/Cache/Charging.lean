import SttRuby.Cache.Frame
import SttRuby.Cache.Redirection

/-!
# Cache — Charging

Where `recordRequestType` charges an access.  The call computes the zone, the chunk and the per-set
counter from the set the address is routed to when it starts, then looks the block up where it
lies, and reserves the bank of the set the address is routed to after the page's write has been
counted.  A block stays in the set it was filled in, while the routing of its page moves on.

* `access_charged`: without redirection every access is charged to the set that holds the block;
  with it, exactly the accesses to a block that lies where the page counter routes its address to
  when the call starts, of a bank that the next count of the page does not change;
* `charged_elsewhere`: after the fifteenth write of a page, zone, chunk, counter and bank are all
  those of other sets than the one that holds the block.
-/

namespace SttRuby.Cache

/-! ### What is charged -/

namespace CacheRequestType

def isWrite : CacheRequestType → Bool
  | .DataArrayWrite | .TagArrayWrite => true
  | .DataArrayRead | .TagArrayRead | .AtomicALUOperation => false

/-- The array an access reserves a bank of. -/
def resource : CacheRequestType → Option CacheResourceType
  | .DataArrayRead | .DataArrayWrite => some .DataArray
  | .TagArrayRead | .TagArrayWrite => some .TagArray
  | .AtomicALUOperation => none

end CacheRequestType

/-- The latency of an access in a zone. -/
def LatencyType.latency (z : LatencyType) : CacheRequestType → Cycles
  | .DataArrayRead => z.data.read_latency
  | .DataArrayWrite => z.data.write_latency
  | .TagArrayRead => z.tag.read_latency
  | .TagArrayWrite => z.tag.write_latency
  | .AtomicALUOperation => 0

def ChunkInfo.count (c : ChunkInfo) (t : CacheRequestType) : ChunkInfo :=
  if t.isWrite then { c with writes := c.writes + 1 } else { c with reads := c.reads + 1 }

namespace CacheMemory

variable {ε ρ : Type*} {p : Params} {rp : ReplacementPolicy ρ} {s s' : CacheMemory ε ρ}

def array (s : CacheMemory ε ρ) : CacheResourceType → BankedArray
  | .DataArray => s.dataArray
  | .TagArray => s.tagArray

/-- The access is charged to the set: to its counter, to its chunk, which exists, and to its bank,
for the latency of its zone. -/
structure Charged (p : Params) (now : Tick) (t : CacheRequestType) (cacheSet : ℕ)
    (s s' : CacheMemory ε ρ) : Prop where
  accesses : s'.stats.m_accesses_per_set = Function.update s.stats.m_accesses_per_set cacheSet
    (s.stats.m_accesses_per_set cacheSet + 1)
  chunk_lt : getChunkId cacheSet < p.m_cache_num_sets / 4
  chunk : s'.m_chunk = Function.update s.m_chunk (getChunkId cacheSet)
    ((s.m_chunk (getChunkId cacheSet)).count t)
  reads : s'.stats.m_chunk_reads = if t.isWrite then s.stats.m_chunk_reads else
    Function.update s.stats.m_chunk_reads (getChunkId cacheSet)
      (s.stats.m_chunk_reads (getChunkId cacheSet) + 1)
  writes : s'.stats.m_chunk_writes = if t.isWrite then
    Function.update s.stats.m_chunk_writes (getChunkId cacheSet)
      (s.stats.m_chunk_writes (getChunkId cacheSet) + 1) else s.stats.m_chunk_writes
  reserved : ∀ res, if p.m_resource_stalls = true ∧ t.resource = some res then
      ∃ idx, (s.array res).mapIndexToBank idx = (s.array res).mapIndexToBank cacheSet ∧
        s'.array res = (s.array res).reserve now idx
          ((p.retention (p.getRetentionZone cacheSet)).latency t)
    else s'.array res = s.array res

/-! ### The parts of the call -/

/-- The routing reads the counters and the table only. -/
theorem addressToCacheSet_congr (hc : s'.m_chunk_counters = s.m_chunk_counters)
    (ht : s'.m_chunk_redirection_table = s.m_chunk_redirection_table) (a : Addr) :
    s'.addressToCacheSet p a = s.addressToCacheSet p a := by
  have hbase : s'.baseSet p a = s.baseSet p a := by
    unfold baseSet
    rw [ht]
  have hoffset : s'.intraOffset a = s.intraOffset a := by
    unfold intraOffset
    rw [hc]
  simp only [addressToCacheSet, hbase, hoffset]

/-- The set the address of a resident block is routed to when the access has been counted. -/
def routeAfter (p : Params) (s : CacheMemory ε ρ) (t : CacheRequestType) (a : Addr) : ℕ :=
  if t = .DataArrayWrite then (s.countWrite p a).addressToCacheSet p a else s.addressToCacheSet p a

theorem addressToCacheSet_default
    (h : p.m_lazy_redirection_scheme = false ∨ p.m_num_of_retention_zones ≠ 4)
    (s : CacheMemory ε ρ) (a : Addr) : s.addressToCacheSet p a = p.getDefaultSet a :=
  if_pos h

/-- The routing after a counted write depends on the pages only. -/
theorem countWrite_route (hc : s'.m_chunk_counters = s.m_chunk_counters)
    (ht : s'.m_chunk_redirection_table = s.m_chunk_redirection_table) (a : Addr) :
    (s'.countWrite p a).addressToCacheSet p a = (s.countWrite p a).addressToCacheSet p a := by
  obtain ⟨hc', ht'⟩ := countWrite_pages (p := p) hc ht a
  exact addressToCacheSet_congr hc' ht' a

/-- Counting the access leaves the routing alone. -/
theorem countAccess_route (t : CacheRequestType) (a : Addr) :
    (s.countAccess p a).routeAfter p t a = s.routeAfter p t a := by
  unfold routeAfter
  split_ifs
  · exact countWrite_route (by rfl) (by rfl) a
  · exact addressToCacheSet_congr rfl rfl a

theorem recordEntry_route {a : Addr} {w : ℕ × ℕ}
    (hf : s.findTagInSetIgnorePermissions a = some w) (now : Tick) (t : CacheRequestType)
    (target : ℕ) : (s.recordEntry p now t a target).addressToCacheSet p a = s.routeAfter p t a := by
  unfold recordEntry routeAfter
  rw [hf]
  cases t with
  | DataArrayWrite =>
      rw [if_pos rfl]
      simp only [dataWrite]
      split_ifs with hl
      · exact countWrite_route (by rfl) (by rfl) a
      · have hno : p.m_lazy_redirection_scheme = false ∨ p.m_num_of_retention_zones ≠ 4 :=
          .inl (Bool.eq_false_iff.mpr hl)
        rw [addressToCacheSet_default hno, addressToCacheSet_default hno]
  | TagArrayWrite | DataArrayRead | TagArrayRead | AtomicALUOperation =>
      rw [if_neg (by decide)]
      exact addressToCacheSet_congr rfl rfl a

/-- What the bank, chunk and type counters of an access do to the parts that are charged. -/
theorem recordUse_parts (now : Tick) {t : CacheRequestType} (ht : t ≠ .AtomicALUOperation)
    (a : Addr) (target : ℕ) :
    (s.recordUse p now t a target).stats.m_accesses_per_set = s.stats.m_accesses_per_set ∧
    (s.recordUse p now t a target).m_chunk = Function.update s.m_chunk (getChunkId target)
      ((s.m_chunk (getChunkId target)).count t) ∧
    (s.recordUse p now t a target).stats.m_chunk_reads =
      (if t.isWrite then s.stats.m_chunk_reads else
        Function.update s.stats.m_chunk_reads (getChunkId target)
          (s.stats.m_chunk_reads (getChunkId target) + 1)) ∧
    (s.recordUse p now t a target).stats.m_chunk_writes =
      (if t.isWrite then Function.update s.stats.m_chunk_writes (getChunkId target)
          (s.stats.m_chunk_writes (getChunkId target) + 1) else s.stats.m_chunk_writes) ∧
    ∀ res, (s.recordUse p now t a target).array res =
      if p.m_resource_stalls = true ∧ t.resource = some res then
        (s.array res).reserve now (s.addressToCacheSet p a)
          ((p.retention (p.getRetentionZone target)).latency t)
      else s.array res := by
  cases t with
  | AtomicALUOperation => exact absurd rfl ht
  | DataArrayRead | DataArrayWrite =>
      by_cases hst : p.m_resource_stalls = true
      · simp only [recordUse, reserveData, if_pos hst]
        refine ⟨rfl, rfl, rfl, rfl, fun res => ?_⟩
        cases res
        · exact (if_pos ⟨hst, rfl⟩).symm
        · exact (if_neg (by rintro ⟨-, ⟨⟩⟩)).symm
      · simp only [recordUse, reserveData, if_neg hst]
        exact ⟨rfl, rfl, rfl, rfl, fun res => by cases res <;> exact (if_neg (hst ·.1)).symm⟩
  | TagArrayRead | TagArrayWrite =>
      by_cases hst : p.m_resource_stalls = true
      · simp only [recordUse, reserveTag, if_pos hst]
        refine ⟨rfl, rfl, rfl, rfl, fun res => ?_⟩
        cases res
        · exact (if_neg (by rintro ⟨-, ⟨⟩⟩)).symm
        · exact (if_pos ⟨hst, rfl⟩).symm
      · simp only [recordUse, reserveTag, if_neg hst]
        exact ⟨rfl, rfl, rfl, rfl, fun res => by cases res <;> exact (if_neg (hst ·.1)).symm⟩

/-- What the call does to the parts that are charged, wherever the block lies. -/
theorem record_parts {t : CacheRequestType} {a : Addr} {w : ℕ × ℕ} (ht : t ≠ .AtomicALUOperation)
    (hf : s.findTagInSetIgnorePermissions a = some w) (now : Tick) :
    let target := s.addressToCacheSet p a
    let s' := s.recordRequestType p now t a
    s'.stats.m_accesses_per_set = Function.update s.stats.m_accesses_per_set target
      (s.stats.m_accesses_per_set target + 1) ∧
    s'.m_chunk = Function.update s.m_chunk (getChunkId target)
      ((s.m_chunk (getChunkId target)).count t) ∧
    s'.stats.m_chunk_reads = (if t.isWrite then s.stats.m_chunk_reads else
      Function.update s.stats.m_chunk_reads (getChunkId target)
        (s.stats.m_chunk_reads (getChunkId target) + 1)) ∧
    s'.stats.m_chunk_writes = (if t.isWrite then
      Function.update s.stats.m_chunk_writes (getChunkId target)
        (s.stats.m_chunk_writes (getChunkId target) + 1) else s.stats.m_chunk_writes) ∧
    ∀ res, s'.array res = if p.m_resource_stalls = true ∧ t.resource = some res then
        (s.array res).reserve now (s.routeAfter p t a)
          ((p.retention (p.getRetentionZone target)).latency t)
      else s.array res := by
  intro target s'
  have hroute := recordEntry_route (p := p) (s := s.countAccess p a) hf now t target
  obtain ⟨hdata, htag, hchunk, jumps, hstats⟩ :=
    recordEntry_frame (p := p) (s.countAccess p a) now t a target
  have harr (res : CacheResourceType) :
      ((s.countAccess p a).recordEntry p now t a target).array res = s.array res := by
    cases res with
    | DataArray => exact hdata
    | TagArray => exact htag
  obtain ⟨hacc', hchunk', hreads', hwrites', harr'⟩ := recordUse_parts (p := p)
    (s := (s.countAccess p a).recordEntry p now t a target) now ht a target
  rw [hchunk] at hchunk'
  rw [hstats] at hacc' hreads' hwrites'
  refine ⟨hacc', hchunk', hreads', hwrites', fun res => ?_⟩
  have hres := harr' res
  rw [harr res, hroute, countAccess_route] at hres
  exact hres

/-- The routing of `t` and `a` agrees with the set, before the call and for the bank after it. -/
structure RoutedTo (p : Params) (s : CacheMemory ε ρ) (t : CacheRequestType) (a : Addr)
    (cacheSet : ℕ) : Prop where
  target : s.addressToCacheSet p a = cacheSet
  bank : ∀ res, p.m_resource_stalls = true → t.resource = some res →
    (s.array res).mapIndexToBank (s.routeAfter p t a) = (s.array res).mapIndexToBank cacheSet

section

variable {t : CacheRequestType} {a : Addr} {cacheSet : ℕ} {w : ℕ × ℕ}

/-- An access is charged to the set its address is routed to, wherever the block lies. -/
theorem RoutedTo.charged (h : s.RoutedTo p t a cacheSet)
    (hlt : getChunkId cacheSet < p.m_cache_num_sets / 4) (ht : t ≠ .AtomicALUOperation)
    (hf : s.findTagInSetIgnorePermissions a = some w) (now : Tick) :
    Charged p now t cacheSet s (s.recordRequestType p now t a) := by
  obtain ⟨rfl, hbank⟩ := h
  obtain ⟨hacc, hchunk, hreads, hwrites, harr⟩ := record_parts (p := p) ht hf now
  refine ⟨hacc, hlt, hchunk, hreads, hwrites, fun res => ?_⟩
  have hres := harr res
  split_ifs with hst
  · rw [if_pos hst] at hres
    exact ⟨_, hbank res hst.1 hst.2, hres⟩
  · rw [if_neg hst] at hres
    exact hres

/-- And to no other: no other counter has moved. -/
theorem Charged.target {now : Tick}
    (h : Charged p now t cacheSet s (s.recordRequestType p now t a))
    (ht : t ≠ .AtomicALUOperation) (hf : s.findTagInSetIgnorePermissions a = some w) :
    s.addressToCacheSet p a = cacheSet := by
  obtain ⟨hacc, -⟩ := record_parts (p := p) ht hf now
  by_contra hne
  have hsame := congrFun (h.accesses.symm.trans hacc) cacheSet
  rw [Function.update_self, Function.update_of_ne (Ne.symm hne)] at hsame
  omega

/-- The bank of a reservation that takes longer than a cycle is seen. -/
theorem bank_of_reserve_eq {b : BankedArray} {now : Tick} {i j : ℕ} {accessLatency : Cycles}
    (h : b.reserve now i accessLatency = b.reserve now j accessLatency) (h2 : 2 ≤ accessLatency)
    (hclk : 0 < b.clockPeriod) : b.mapIndexToBank i = b.mapIndexToBank j := by
  by_contra hne
  have hlat : accessLatency ≠ 0 := Nat.ne_of_gt (Nat.zero_lt_two.trans_le h2)
  have hpos : 0 < (accessLatency - 1) * b.clockPeriod := Nat.mul_pos (Nat.sub_pos_of_lt h2) hclk
  rw [BankedArray.reserve, BankedArray.reserve, if_neg hlat, if_neg hlat] at h
  have hrec := congrFun (congrArg BankedArray.busyBanks h) (b.mapIndexToBank i)
  dsimp only at hrec
  rw [Function.update_self, Function.update_of_ne hne] at hrec
  have hend := congrArg AccessRecord.endAccess hrec
  dsimp only at hend
  have hmax := le_max_right now (b.busyBanks (b.mapIndexToBank i)).endAccess
  exact absurd hend (hmax.trans_lt (Nat.lt_add_of_pos_right hpos)).ne'

/-- So an access that is charged to a set is routed to it, before and after. -/
theorem Charged.routedTo {now : Tick}
    (h : Charged p now t cacheSet s (s.recordRequestType p now t a))
    (ht : t ≠ .AtomicALUOperation) (hf : s.findTagInSetIgnorePermissions a = some w)
    (h2 : 2 ≤ (p.retention (p.getRetentionZone cacheSet)).latency t)
    (hclk : ∀ res, 0 < (s.array res).clockPeriod) : s.RoutedTo p t a cacheSet := by
  obtain rfl := h.target ht hf
  refine ⟨rfl, fun res hst hres => ?_⟩
  have harr := (record_parts (p := p) ht hf now).2.2.2.2 res
  have hidx := h.reserved res
  rw [if_pos ⟨hst, hres⟩] at harr hidx
  obtain ⟨idx, hbank, hidx⟩ := hidx
  rw [← hbank]
  exact bank_of_reserve_eq (harr.symm.trans hidx) h2 (hclk res)

end

/-! ### Where the page counter routes to -/

/-- The block lies in the set that the counter of its page routes it to, and the next count of the
page leaves it with the bank of that set. -/
structure Settled (p : Params) (s : CacheMemory ε ρ) (t : CacheRequestType) (a : Addr)
    (cacheSet : ℕ) : Prop where
  lies : p.routeAfter (s.pageCount (a >>> 12)) a = cacheSet
  bank : p.m_resource_stalls = true → t = .DataArrayWrite →
    s.dataArray.mapIndexToBank (p.routeAfter (s.pageCount (a >>> 12) + 1) a) =
      s.dataArray.mapIndexToBank cacheSet

/-- Counts from 15 on route alike. -/
theorem routeAfter_congr {n m : ℕ} (h : min n 15 = min m 15) (a : Addr) :
    p.routeAfter n a = p.routeAfter m a := by
  have hlt : n < 15 ↔ m < 15 := by omega
  simp only [Params.routeAfter, h, hlt]

theorem settled_iff (hr : p.Redirects) {n : Addr → ℕ} (h : Paged p s n)
    {t : CacheRequestType} {a : Addr} {cacheSet : ℕ} :
    s.Settled p t a cacheSet ↔ s.RoutedTo p t a cacheSet := by
  have hcount := h.count (a >>> 12)
  have hroute : s.addressToCacheSet p a = p.routeAfter (s.pageCount (a >>> 12)) a := by
    rw [h.route hr]
    exact routeAfter_congr (by omega) a
  have hnext : (s.countWrite p a).addressToCacheSet p a =
      p.routeAfter (s.pageCount (a >>> 12) + 1) a := by
    rw [(h.countWrite a).route hr, if_pos rfl]
    exact routeAfter_congr (by omega) a
  constructor
  · rintro ⟨hlies, hbank⟩
    refine ⟨hroute.trans hlies, fun res hst hres => ?_⟩
    by_cases ht : t = .DataArrayWrite
    · subst ht
      cases hres
      rw [routeAfter, if_pos rfl, hnext]
      exact hbank hst rfl
    · rw [routeAfter, if_neg ht, hroute, hlies]
  · rintro ⟨htarget, hbank⟩
    refine ⟨hroute.symm.trans htarget, fun hst ht => ?_⟩
    subst ht
    have hres := hbank .DataArray hst rfl
    rw [routeAfter, if_pos rfl, hnext] at hres
    exact hres

/-! ### Blocks that stay where they are routed to -/

/-- Every entry lies in the default set of its address. -/
def AtDefault (p : Params) (s : CacheMemory ε ρ) : Prop :=
  s.Everywhere fun i e => i = p.getDefaultSet e.m_Address

theorem AtDefault.call (h : s.AtDefault p)
    (hno : p.m_lazy_redirection_scheme = false ∨ p.m_num_of_retention_zones ≠ 4) {now : Tick}
    {op : Op ε} (hs : s.call p rp now op = some s') : s'.AtDefault p := by
  refine Everywhere.call h (fun _ _ hq => hq) (fun _ _ _ hq => hq) (fun _ _ _ e _ _ _ hq => ?_)
    (fun _ _ _ _ _ _ hq => hq) (fun _ _ hq => hq)
    (fun a _ _ => addressToCacheSet_default hno s a) hs
  obtain ⟨mark, he⟩ := expire_eq now e
  rw [he]
  exact hq

end CacheMemory

open CacheMemory

/-- Sets that addresses are routed to have a chunk, in a cache of four sets or more. -/
theorem chunk_of_target {ε ρ : Type*} {p : Params} (h4 : 4 ≤ p.m_cache_num_sets)
    (s : CacheMemory ε ρ) (a : Addr) :
    getChunkId (s.addressToCacheSet p a) < p.m_cache_num_sets / 4 := by
  have hlt : s.addressToCacheSet p a < 4 * (p.m_cache_num_sets / 4) := by
    by_cases hno : p.m_lazy_redirection_scheme = false ∨ p.m_num_of_retention_zones ≠ 4
    · rw [addressToCacheSet_default hno]
      exact (p.getDefaultSet_lt a).trans_le (Params.two_pow_bits_le_zones h4)
    · rw [not_or, Bool.not_eq_false, not_not] at hno
      have hr : p.Redirects := ⟨hno.1, hno.2, h4⟩
      rw [← hr.size_eq]
      exact s.addressToCacheSet_lt_zones a hr
  unfold getChunkId
  omega

theorem paged_of_reach {ε ρ : Type*} {p : Params} {rp : ReplacementPolicy ρ} {r : ρ}
    {s : CacheMemory ε ρ} (hl : p.m_lazy_redirection_scheme = true)
    (h : (calls p rp r).Reach (fun _ _ => True) s) : ∃ n, Paged p s n := by
  refine h.invariant (I := fun s => ∃ n, Paged p s n) ?_ ?_
  · rintro s rfl
    exact ⟨_, paged_init r⟩
  · rintro s c s' ⟨n, hn⟩ - hs
    rcases call_pages hl hs with ⟨-, hc, ht⟩ | ⟨a, -, hc, ht⟩
    · exact ⟨n, hn.congr hc ht⟩
    · exact ⟨_, (hn.countWrite a).congr hc ht⟩

/-- **Accesses are charged where the block lies.**  In every state that calls reach, an access to a
resident block is charged to the set that holds it if redirection is off, or if the block lies in
the set that its page's counter routes it to and the next count of the page does not move it to
another bank.  With redirection it is charged there in no other case, as far as the bank's record
tells: a reservation of one cycle may leave it as it was. -/
theorem access_charged {ε ρ : Type*} {p : Params} {rp : ReplacementPolicy ρ} {r : ρ}
    {s : CacheMemory ε ρ} (h : (calls p rp r).Reach (fun _ _ => True) s)
    (h4 : 4 ≤ p.m_cache_num_sets) {a : Addr} {cacheSet way : ℕ} {e : AbstractCacheEntry ε}
    (hr : s.Holds a (cacheSet, way) e) {t : CacheRequestType} (ht : t ≠ .AtomicALUOperation)
    (now : Tick) :
    ((p.m_lazy_redirection_scheme = false ∨ p.m_num_of_retention_zones ≠ 4) ∨
      s.Settled p t a cacheSet → Charged p now t cacheSet s (s.recordRequestType p now t a)) ∧
    (p.Redirects → Charged p now t cacheSet s (s.recordRequestType p now t a) →
      p.routeAfter (s.pageCount (a >>> 12)) a = cacheSet ∧
      (2 ≤ (p.retention (p.getRetentionZone cacheSet)).latency t →
        (∀ res, 0 < (s.array res).clockPeriod) → s.Settled p t a cacheSet)) := by
  have hf := hr.findIgnore
  constructor
  · intro hc
    have hto : s.RoutedTo p t a cacheSet := by
      by_cases hno : p.m_lazy_redirection_scheme = false ∨ p.m_num_of_retention_zones ≠ 4
      · have hat : s.AtDefault p := by
          refine h.invariant ?_ fun s c s' hs _ hstep => hs.call hno hstep
          rintro s rfl
          exact nofun
        have hset : p.getDefaultSet a = cacheSet := by
          rw [← hr.address]
          exact (hat _ _ e hr.entry).symm
        refine ⟨(addressToCacheSet_default hno s a).trans hset, fun res _ _ => ?_⟩
        unfold routeAfter
        split_ifs <;> rw [addressToCacheSet_default hno, hset]
      · have hset := hc.resolve_left hno
        rw [not_or, Bool.not_eq_false, not_not] at hno
        obtain ⟨n, hn⟩ := paged_of_reach hno.1 h
        exact (settled_iff ⟨hno.1, hno.2, h4⟩ hn).mp hset
    exact hto.charged (hto.target ▸ chunk_of_target h4 s a) ht hf now
  · intro hred hc
    obtain ⟨n, hn⟩ := paged_of_reach hred.lazy h
    refine ⟨?_, fun h2 hclk => (settled_iff hred hn).mpr (hc.routedTo ht hf h2 hclk)⟩
    rw [← hc.target ht hf, hn.route hred]
    have hcount := hn.count (a >>> 12)
    exact routeAfter_congr (by omega) a

/-- A block that has been written once is read where it was filled. -/
theorem access_charged_first_read :
    ∃ s : CacheMemory Char Unit, (calls wideSets firstWay ()).Reach (fun _ _ => True) s ∧
      s.Settled wideSets .DataArrayRead 0x3000 192 ∧
      Charged wideSets 3 .DataArrayRead 192 s
        (s.recordRequestType wideSets 3 .DataArrayRead 0x3000) := by
  obtain ⟨s, hs, hfind, hcount⟩ := Lib.Machine.trace_reaches
    (M := calls wideSets firstWay ()) (G := fun _ _ => True)
    (s := CacheMemory.init wideSets ())
    (l := [(1, .allocate 0x3000 'a'), (2, .recordRequestType .DataArrayWrite 0x3000)])
    (P := fun s => s.findTagInSet 0x3000 = some (192, 0) ∧ s.pageCount 3 = 1)
    rfl (by decide +kernel)
  obtain ⟨e, he⟩ := findTagInSet_iff.mp hfind
  have hset : s.Settled wideSets .DataArrayRead 0x3000 192 := by
    refine ⟨?_, by rintro - ⟨⟩⟩
    change wideSets.routeAfter (s.pageCount 3) 0x3000 = 192
    rw [hcount]
    decide +kernel
  exact ⟨s, hs, hset, (access_charged hs (by decide) he (by decide) 3).1 (.inr hset)⟩

/-- The cache with four banks in its data array. -/
def bankedSets : Params := { wideSets with dataArrayBanks := 4 }

/-- **Charged elsewhere.**  The block at `0x3000` lies in set 192.  After fifteen writes its page is
routed to set 74, and the next write is charged to that set: to another counter, chunk and bank, and
for the latency of another zone. -/
theorem charged_elsewhere :
    (∃ s : CacheMemory Char Unit, (calls bankedSets firstWay ()).Reach (fun _ _ => True) s ∧
      s.findTagInSet 0x3000 = some (192, 0) ∧
      let s' := s.recordRequestType bankedSets 100 .DataArrayWrite 0x3000
      Charged bankedSets 100 .DataArrayWrite 74 s s' ∧
      ¬ Charged bankedSets 100 .DataArrayWrite 192 s s') ∧
    getChunkId 192 = 48 ∧ getChunkId 74 = 18 ∧ 192 % bankedSets.dataArrayBanks = 0 ∧
    74 % bankedSets.dataArrayBanks = 2 ∧
    (bankedSets.retention (bankedSets.getRetentionZone 192)).data.write_latency = 4 ∧
    (bankedSets.retention (bankedSets.getRetentionZone 74)).data.write_latency = 2 := by
  refine ⟨?_, by decide, by decide, by decide, by decide, by decide, by decide⟩
  obtain ⟨s, hs, hfind, htarget, hafter⟩ := Lib.Machine.trace_reaches
    (M := calls bankedSets firstWay ()) (G := fun _ _ => True)
    (s := CacheMemory.init bankedSets ())
    (l := (1, .allocate 0x3000 'a') ::
      List.replicate 15 (2, .recordRequestType .DataArrayWrite 0x3000))
    (P := fun s => s.findTagInSet 0x3000 = some (192, 0) ∧
      s.addressToCacheSet bankedSets 0x3000 = 74 ∧
      s.routeAfter bankedSets .DataArrayWrite 0x3000 = 74) rfl (by decide +kernel)
  obtain ⟨e, he⟩ := findTagInSet_iff.mp hfind
  have hto : s.RoutedTo bankedSets .DataArrayWrite 0x3000 74 :=
    ⟨htarget, fun res _ _ => congrArg _ hafter⟩
  have hc := hto.charged (by decide) (by decide) he.findIgnore 100
  refine ⟨s, hs, hfind, hc, fun hc' => ?_⟩
  have hsame := (hc'.target (by decide) he.findIgnore).symm.trans htarget
  exact absurd hsame (by decide)

end SttRuby.Cache
