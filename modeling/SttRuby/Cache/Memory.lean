import Mathlib.Algebra.Group.Nat.Defs
import Mathlib.Data.Nat.Basic
import Mathlib.Logic.Function.Basic
import SttRuby.Lib.Runs

/-!
# Cache — Memory

`CacheMemory`: the set-associative array of Ruby cache entries with its packed tag index, the
retention zones of an STT-RAM array and the lazy redirection of pages that are written often.

The array is indexed by set and way, the current tick is an argument of every operation that
reads `curTick()`, and an operation that reaches a `panic` has no successor.  An entry carries
the fields of `AbstractCacheEntry` that `CacheMemory` touches, and in `ext` the fields its
derived class adds, which `CacheMemory` never touches: two entries with different `ext` are
different objects.
-/

namespace SttRuby.Cache

abbrev Addr := ℕ
abbrev Tick := ℕ
abbrev Cycles := ℕ

inductive AccessPermission where
  | Read_Only | Read_Write | Maybe_Stale | Backing_Store | Backing_Store_Busy
  | Invalid | NotPresent | Busy
  deriving DecidableEq, Repr

inductive CacheRequestType where
  | DataArrayRead | DataArrayWrite | TagArrayRead | TagArrayWrite | AtomicALUOperation
  deriving DecidableEq, Repr

inductive CacheResourceType where
  | DataArray | TagArray
  deriving DecidableEq, Repr

/-! ### Saturating counters and banked arrays -/

/-- `SatCounter8`: a counter that never passes its maximum. -/
structure SatCounter8 where
  maxVal : ℕ
  counter : ℕ
  counter_le : counter ≤ maxVal

/-- `SatCounter8(bits)`: initial value 0. -/
def SatCounter8.ofBits (bits : ℕ) : SatCounter8 := ⟨2 ^ bits - 1, 0, Nat.zero_le _⟩

/-- `operator++`. -/
def SatCounter8.incr (c : SatCounter8) : SatCounter8 :=
  if h : c.counter < c.maxVal then ⟨c.maxVal, c.counter + 1, h⟩ else c

def SatCounter8.isSaturated (c : SatCounter8) : Bool := c.counter == c.maxVal

structure AccessRecord where
  idx : ℕ := 0
  startAccess : Tick := 0
  endAccess : Tick := 0

/-- `BankedArray`, with the clock period it is given by `setClockPeriod`. -/
structure BankedArray where
  banks : ℕ
  clockPeriod : Tick
  busyBanks : ℕ → AccessRecord

namespace BankedArray

def mapIndexToBank (b : BankedArray) (idx : ℕ) : ℕ := if b.banks = 1 then 0 else idx % b.banks

def tryAccess (b : BankedArray) (now : Tick) (idx : ℕ) : Bool :=
  !decide ((b.busyBanks (b.mapIndexToBank idx)).endAccess ≥ now)

def reserve (b : BankedArray) (now : Tick) (idx : ℕ) (accessLatency : Cycles) : BankedArray :=
  if accessLatency = 0 then b else
    let bank := b.mapIndexToBank idx
    let startTime := max now (b.busyBanks bank).endAccess
    { b with
      busyBanks := Function.update b.busyBanks bank
        ⟨idx, startTime, startTime + (accessLatency - 1) * b.clockPeriod⟩ }

end BankedArray

/-! ### Configuration -/

structure AccessLatency where
  read_latency : Cycles
  write_latency : Cycles

structure LatencyType where
  data : AccessLatency
  tag : AccessLatency
  time : Tick

/-- The parameters of a `CacheMemory` that passes the constructor's `fatal` checks and the
assertions of `init()`. -/
structure Params where
  m_cache_size : ℕ
  m_cache_assoc : ℕ
  m_block_size : ℕ
  m_start_index_bit : ℕ
  m_resource_stalls : Bool
  m_is_sttram : Bool
  m_lazy_redirection_scheme : Bool
  m_num_of_retention_zones : ℕ
  m_low_retention : LatencyType
  m_mediumlow_retention : LatencyType
  m_mediumhigh_retention : LatencyType
  m_high_retention : LatencyType
  dataArrayBanks : ℕ
  tagArrayBanks : ℕ
  clockPeriod : Tick
  block_size_ne : m_block_size ≠ 0
  num_sets_gt : 1 < m_cache_size / m_cache_assoc / m_block_size
  lazy_sttram : m_lazy_redirection_scheme = true → m_is_sttram = true
  zones_pos : 1 ≤ m_num_of_retention_zones
  zones_le : m_num_of_retention_zones ≤ 4

namespace Params

/-! The checks of a cache of one zone that does not redirect. -/

theorem one_zone_pos : 1 ≤ 1 := Nat.le_refl 1

theorem one_zone_le : 1 ≤ 4 := by decide

theorem no_redirection {sttram : Bool} : false = true → sttram = true := by rintro ⟨⟩

variable (p : Params)

def m_cache_num_sets : ℕ := p.m_cache_size / p.m_cache_assoc / p.m_block_size

def m_cache_num_set_bits : ℕ := Nat.log2 p.m_cache_num_sets

/-- `m_thresholds[i]`: `init()` pushes the multiples of one zone's size. -/
def m_thresholds (i : ℕ) : ℕ := (i + 1) * (p.m_cache_num_sets / p.m_num_of_retention_zones)

def m_retention_table : List LatencyType :=
  if p.m_num_of_retention_zones = 1 then [p.m_low_retention]
  else if p.m_num_of_retention_zones = 2 then [p.m_low_retention, p.m_high_retention]
  else if p.m_num_of_retention_zones = 3 then
    [p.m_low_retention, p.m_mediumlow_retention, p.m_high_retention]
  else
    [p.m_low_retention, p.m_mediumlow_retention, p.m_mediumhigh_retention, p.m_high_retention]

/-- `m_retention_table[z]`, for the zones `getRetentionZone` returns. -/
def retention (z : ℕ) : LatencyType := p.m_retention_table.getD z p.m_high_retention

/-- The first zone whose threshold lies above the set, else the last zone. -/
def getRetentionZone (cacheSet : ℕ) : ℕ :=
  ((List.range p.m_num_of_retention_zones).find? fun i => cacheSet < p.m_thresholds i).getD
    (p.m_num_of_retention_zones - 1)

/-- `m_retention_table[getRetentionZone(s)].time`. -/
def zoneTime (cacheSet : ℕ) : Tick := (p.retention (p.getRetentionZone cacheSet)).time

/-- `bitSelect(address, m_start_index_bit, m_start_index_bit + m_cache_num_set_bits - 1)`. -/
def getDefaultSet (address : Addr) : ℕ :=
  (address >>> p.m_start_index_bit) % 2 ^ p.m_cache_num_set_bits

def makeLineAddress (address : Addr) : Addr :=
  (address >>> Nat.log2 p.m_block_size) <<< Nat.log2 p.m_block_size

end Params

def getChunkId (cacheSet : ℕ) : ℕ := cacheSet / 4

/-! ### The packed location code -/

/-- `(int)((cacheSet << 16) | (way & 0xFFFF))`. -/
def encode (cacheSet way : ℕ) : BitVec 32 :=
  BitVec.ofNat 32 ((cacheSet <<< 16) ||| (way &&& 0xFFFF))

/-- `encoded & 0xFFFF`. -/
def decodeWay (encoded : BitVec 32) : ℕ := (encoded &&& 0xFFFF#32).toNat

/-- `(encoded >> 16) & 0xFFFF`, the shift of a signed `int`. -/
def decodeSet (encoded : BitVec 32) : ℕ := (encoded.sshiftRight 16 &&& 0xFFFF#32).toNat

/-! ### Entries and state -/

/-- `AbstractCacheEntry`, with the derived class's fields in `ext`. -/
structure AbstractCacheEntry (ε : Type*) where
  m_Address : Addr
  m_Permission : AccessPermission
  m_last_touch_tick : Tick
  m_last_refresh_tick : Tick
  m_retention_limit : Tick
  m_is_expired : Bool
  ext : ε

/-- `new Entry` at tick `now`, before `allocate` has placed it. -/
def AbstractCacheEntry.new {ε : Type*} (now : Tick) (x : ε) : AbstractCacheEntry ε :=
  { m_Address := 0
    m_Permission := .NotPresent
    m_last_touch_tick := 0
    m_last_refresh_tick := now
    m_retention_limit := 2000000000000
    m_is_expired := false
    ext := x }

/-- The replacement policy, over the replacement data of the ways of each set.  `getVictim`
returns one of its candidates, the ways below `assoc`. -/
structure ReplacementPolicy (ρ : Type*) where
  touch : ρ → Tick → ℕ → ℕ → ρ
  reset : ρ → Tick → ℕ → ℕ → ρ
  invalidate : ρ → ℕ → ℕ → ρ
  getVictim : ρ → ℕ → ℕ → ℕ
  getVictim_lt : ∀ r cacheSet assoc, 0 < assoc → getVictim r cacheSet assoc < assoc

structure ChunkInfo where
  reads : ℕ := 0
  writes : ℕ := 0

structure CacheMemoryStats where
  numDataArrayReads : ℕ := 0
  numDataArrayWrites : ℕ := 0
  numTagArrayReads : ℕ := 0
  numTagArrayWrites : ℕ := 0
  numTagArrayStalls : ℕ := 0
  numDataArrayStalls : ℕ := 0
  numAtomicALUOperations : ℕ := 0
  m_accesses_per_set : ℕ → ℕ := fun _ => 0
  m_chunk_reads : ℕ → ℕ := fun _ => 0
  m_chunk_writes : ℕ → ℕ := fun _ => 0
  m_zombies_collected : ℕ := 0
  m_inter_zone_jumps : ℕ := 0
  m_intra_zone_walks : ℕ := 0

/-- The state of a `CacheMemory` over entries `ε` and replacement data `ρ`. -/
structure CacheMemory (ε ρ : Type*) where
  m_tag_index : Addr → Option (BitVec 32)
  m_cache : ℕ → ℕ → Option (AbstractCacheEntry ε)
  repl : ρ
  m_chunk : ℕ → ChunkInfo
  m_chunk_counters : Addr → Option SatCounter8
  m_chunk_redirection_table : Addr → Option ℕ
  dataArray : BankedArray
  tagArray : BankedArray
  stats : CacheMemoryStats

namespace CacheMemory

variable {ε ρ : Type*} (p : Params) (rp : ReplacementPolicy ρ)

/-- The cache after `init()`. -/
def init (r : ρ) : CacheMemory ε ρ :=
  { m_tag_index := fun _ => none
    m_cache := fun _ _ => none
    repl := r
    m_chunk := fun _ => {}
    m_chunk_counters := fun _ => none
    m_chunk_redirection_table := fun _ => none
    dataArray := ⟨p.dataArrayBanks, p.clockPeriod, fun _ => {}⟩
    tagArray := ⟨p.tagArrayBanks, p.clockPeriod, fun _ => {}⟩
    stats := {} }

variable (s : CacheMemory ε ρ)

/-! ### Routing and tag lookup -/

/-- The set a redirected page's block is scattered to, by the zone of its default set. -/
def baseSet (address : Addr) : ℕ :=
  let default_set := p.getDefaultSet address
  let zone_size := p.m_thresholds 0
  match s.m_chunk_redirection_table (address >>> 12) with
  | none => default_set
  | some offset =>
      let block_offset := (address >>> 6) &&& 0x3F
      let scatter_offset := (offset + block_offset * 7) % zone_size
      if default_set ≥ p.m_thresholds 2 then p.m_thresholds 0 + scatter_offset
      else if default_set ≥ p.m_thresholds 1 then scatter_offset
      else default_set

/-- The intra-zone walk: half the page's write count, clamped to 7. -/
def intraOffset (address : Addr) : ℕ :=
  match s.m_chunk_counters (address >>> 12) with
  | none => 0
  | some c => min (c.counter / 2) 7

def addressToCacheSet (address : Addr) : ℕ :=
  if p.m_lazy_redirection_scheme = false ∨ p.m_num_of_retention_zones ≠ 4 then
    p.getDefaultSet address
  else
    let zone_size := p.m_thresholds 0
    let base_set := s.baseSet p address
    let intra_offset := s.intraOffset address
    if 0 < intra_offset then
      base_set / zone_size * zone_size + (base_set % zone_size + intra_offset) % zone_size
    else base_set

/-- The set and way the index gives for `tag`, when that way's entry satisfies `ok`. -/
def findTag (ok : AbstractCacheEntry ε → Bool) (tag : Addr) : Option (ℕ × ℕ) :=
  match s.m_tag_index tag with
  | none => none
  | some encoded =>
      match s.m_cache (decodeSet encoded) (decodeWay encoded) with
      | none => none
      | some e =>
          if e.m_Address = tag ∧ ok e then some (decodeSet encoded, decodeWay encoded) else none

/-- `findTagInSet`: the set (returned by reference in the source) and the way of a tag whose
entry is present. -/
def findTagInSet (tag : Addr) : Option (ℕ × ℕ) :=
  s.findTag (fun e => decide (e.m_Permission ≠ .NotPresent)) tag

def findTagInSetIgnorePermissions (tag : Addr) : Option (ℕ × ℕ) :=
  s.findTag (fun _ => true) tag

/-- Updates the entry of one way in place. -/
def modify (cacheSet way : ℕ) (f : AbstractCacheEntry ε → AbstractCacheEntry ε) :
    CacheMemory ε ρ :=
  { s with m_cache := fun i j =>
      if i = cacheSet ∧ j = way then (s.m_cache i j).map f else s.m_cache i j }

/-- `m_replacementPolicy_ptr->touch` and `setLastAccess`, on the entry of one way. -/
def touch (now : Tick) (cacheSet way : ℕ) : CacheMemory ε ρ :=
  { s.modify cacheSet way fun e => { e with m_last_touch_tick := now } with
    repl := rp.touch s.repl now cacheSet way }

/-! ### Lookups -/

/-- What the non-const `lookup` does to the entry it finds: an entry past its retention limit
is marked, unless it is `Busy` or `Maybe_Stale`. -/
def expire (now : Tick) (e : AbstractCacheEntry ε) : AbstractCacheEntry ε :=
  if e.m_is_expired = false ∧ e.m_Permission ≠ .Busy ∧ e.m_Permission ≠ .Maybe_Stale ∧
      now > e.m_last_refresh_tick + e.m_retention_limit
  then { e with m_is_expired := true } else e

/-- The entry at a location. -/
def entryAt : Option (ℕ × ℕ) → Option (AbstractCacheEntry ε)
  | none => none
  | some (cacheSet, way) => s.m_cache cacheSet way

/-- `lookup`, the non-const one: the cache after it and the entry it returns. -/
def lookup (now : Tick) (address : Addr) :
    CacheMemory ε ρ × Option (AbstractCacheEntry ε) :=
  match s.findTagInSet address with
  | none => (s, none)
  | some (cacheSet, way) =>
      let s' := s.modify cacheSet way (expire now)
      (s', s'.m_cache cacheSet way)

/-- `lookup() const`. -/
def lookupConst (address : Addr) : Option (AbstractCacheEntry ε) :=
  s.entryAt (s.findTagInSet address)

def isTagPresent (address : Addr) : Bool := (s.lookupConst address).isSome

/-- `setMRU(Addr)`. -/
def setMRU (now : Tick) (address : Addr) : CacheMemory ε ρ :=
  let line := p.makeLineAddress address
  match (s.lookup now line).2, s.findTagInSet line with
  | some _, some (cacheSet, way) => (s.lookup now line).1.touch rp now cacheSet way
  | _, _ => (s.lookup now line).1

/-- `setMRU(AbstractCacheEntry*)`, on the resident entry of `address`. -/
def setMRUEntry (now : Tick) (address : Addr) : CacheMemory ε ρ :=
  match s.findTagInSet address with
  | none => s
  | some (cacheSet, way) => s.touch rp now cacheSet way

/-- `tryCacheAccess`: whether the entry permits the request, a load or fetch if `isRead`. -/
def tryCacheAccess (now : Tick) (address : Addr) (isRead : Bool) : CacheMemory ε ρ × Bool :=
  match (s.lookup now address).2, s.findTagInSet address with
  | some e, some (cacheSet, way) =>
      ((s.lookup now address).1.touch rp now cacheSet way,
        e.m_Permission == .Read_Write || (e.m_Permission == .Read_Only && isRead))
  | _, _ => ((s.lookup now address).1, false)

/-- `changePermission` on the resident entry of `address`. -/
def changePermission (address : Addr) (perm : AccessPermission) : CacheMemory ε ρ :=
  match s.findTagInSet address with
  | none => s
  | some (cacheSet, way) => s.modify cacheSet way fun e => { e with m_Permission := perm }

/-! ### Allocation -/

/-- A way that `allocate` may fill. -/
def isFree (cacheSet way : ℕ) : Bool :=
  match s.m_cache cacheSet way with
  | none => true
  | some e => decide (e.m_Permission = .NotPresent)

/-- The first way of the set that `allocate` may fill. -/
def freeWay (cacheSet : ℕ) : Option ℕ :=
  (List.range p.m_cache_assoc).find? fun i => s.isFree cacheSet i

def cacheAvail (address : Addr) : Bool :=
  (s.findTagInSetIgnorePermissions address).isSome ||
    (s.freeWay p (s.addressToCacheSet p address)).isSome

/-- One more collected zombie if the entry leaving a way has expired. -/
def collect (e : Option (AbstractCacheEntry ε)) : CacheMemoryStats :=
  match e with
  | some e =>
      if e.m_is_expired then
        { s.stats with m_zombies_collected := s.stats.m_zombies_collected + 1 }
      else s.stats
  | none => s.stats

/-- The index without the old entry's tag, when the tag points at this very way. -/
def eraseOldTag (cacheSet way : ℕ) : Addr → Option (BitVec 32) :=
  match s.m_cache cacheSet way with
  | none => s.m_tag_index
  | some e =>
      match s.m_tag_index e.m_Address with
      | none => s.m_tag_index
      | some encoded =>
          if decodeWay encoded = way ∧ decodeSet encoded = cacheSet then
            Function.update s.m_tag_index e.m_Address none
          else s.m_tag_index

/-- The slot of `address` is reused: its entry is reset in place, the entry passed is deleted. -/
def reuse (now : Tick) (address : Addr) (cacheSet way : ℕ) : CacheMemory ε ρ :=
  { s.modify cacheSet way fun e =>
      { e with
        m_is_expired := false
        m_Permission := .Invalid
        m_retention_limit := p.zoneTime cacheSet
        m_last_touch_tick := now
        m_last_refresh_tick := now } with
    stats := s.collect (s.m_cache cacheSet way)
    repl := rp.reset s.repl now cacheSet way
    m_tag_index := Function.update s.m_tag_index address (some (encode cacheSet way)) }

/-- A free way is filled with the entry passed. -/
def fill (now : Tick) (address : Addr) (x : ε) (cacheSet way : ℕ) : CacheMemory ε ρ :=
  { s with
    stats := s.collect (s.m_cache cacheSet way)
    m_cache := fun i j =>
      if i = cacheSet ∧ j = way then
        some { AbstractCacheEntry.new now x with
          m_Address := address
          m_is_expired := false
          m_Permission := .Invalid
          m_retention_limit := if p.m_is_sttram = false then 0 else p.zoneTime cacheSet
          m_last_touch_tick := now
          m_last_refresh_tick := now }
      else s.m_cache i j
    repl := rp.reset s.repl now cacheSet way
    m_tag_index := Function.update (s.eraseOldTag cacheSet way) address
      (some (encode cacheSet way)) }

/-- `allocate`: the slot of the address if the index has one, else the first free way of its
target set, else `panic`. -/
def allocate (now : Tick) (address : Addr) (x : ε) : Option (CacheMemory ε ρ) :=
  match s.findTagInSetIgnorePermissions address with
  | some (cacheSet, way) => some (s.reuse p rp now address cacheSet way)
  | none =>
      let cacheSet := s.addressToCacheSet p address
      (s.freeWay p cacheSet).map fun way => s.fill p rp now address x cacheSet way

def deallocate (address : Addr) : CacheMemory ε ρ :=
  match s.findTagInSetIgnorePermissions address with
  | none => s
  | some (cacheSet, way) =>
      { s.modify cacheSet way fun e => { e with m_Permission := .NotPresent } with
        stats := s.collect (s.m_cache cacheSet way)
        repl := rp.invalidate s.repl cacheSet way
        m_tag_index := Function.update s.m_tag_index address none }

/-! ### Victim selection -/

/-- The first way of the set that holds an expired entry which is not `Busy`. -/
def expiredWay (cacheSet : ℕ) : Option ℕ :=
  (List.range p.m_cache_assoc).find? fun i =>
    match s.m_cache cacheSet i with
    | none => false
    | some e => e.m_is_expired && decide (e.m_Permission ≠ .Busy)

/-- One round of the scan for the oldest way that is not `Busy`: the oldest tick seen and its
way so far. -/
def olderWay (cacheSet : ℕ) (best : Tick × Option ℕ) (i : ℕ) : Tick × Option ℕ :=
  match s.m_cache cacheSet i with
  | none => best
  | some e =>
      if e.m_Permission ≠ .Busy ∧ e.m_last_touch_tick < best.1 then (e.m_last_touch_tick, some i)
      else best

/-- The way with the oldest last access among those that are not `Busy`. -/
def safeWay (now : Tick) (cacheSet : ℕ) : Option ℕ :=
  ((List.range p.m_cache_assoc).foldl (s.olderWay cacheSet) (now + 1, none)).2

/-- `m_cache[set][way]->m_Address`, `none` for a null pointer. -/
def addressAt (cacheSet way : ℕ) : Option Addr := (s.m_cache cacheSet way).map (·.m_Address)

/-- `cacheProbe`: the address to evict from a full set. -/
def cacheProbe (now : Tick) (address : Addr) : Option Addr :=
  let cacheSet := s.addressToCacheSet p address
  match s.expiredWay p cacheSet with
  | some i => s.addressAt cacheSet i
  | none =>
      let victim_way := rp.getVictim s.repl cacheSet p.m_cache_assoc
      match s.m_cache cacheSet victim_way with
      | none => none
      | some e =>
          if e.m_Permission = .Busy then
            match s.safeWay p now cacheSet with
            | none => s.addressAt cacheSet 0
            | some safe_way => s.addressAt cacheSet safe_way
          else some e.m_Address

/-! ### Recording accesses -/

/-- The write of a data block to a resident entry: refreshed, its limit that of the zone of
`target`. -/
def refresh (now : Tick) (cacheSet way target : ℕ) : CacheMemory ε ρ :=
  s.modify cacheSet way fun e =>
    { e with
      m_last_refresh_tick := now
      m_is_expired := false
      m_retention_limit := p.zoneTime target }

/-- The page counter of a data write, and the redirection of a page whose counter saturates. -/
def countWrite (addr : Addr) : CacheMemory ε ρ :=
  let addr_chunk_ID := addr >>> 12
  let counter := (s.m_chunk_counters addr_chunk_ID).getD (SatCounter8.ofBits 4)
  match s.m_chunk_redirection_table addr_chunk_ID with
  | some _ =>
      { s with m_chunk_counters := Function.update s.m_chunk_counters addr_chunk_ID counter }
  | none =>
      let s' := { s with
        m_chunk_counters := Function.update s.m_chunk_counters addr_chunk_ID counter.incr }
      if counter.incr.isSaturated then
        { s' with
          m_chunk_redirection_table := Function.update s.m_chunk_redirection_table addr_chunk_ID
            (some (addr_chunk_ID % p.m_thresholds 0))
          stats := { s.stats with m_inter_zone_jumps := s.stats.m_inter_zone_jumps + 1 } }
      else s'

/-- The per-set and walk statistics every recorded access updates, whatever its type. -/
def countAccess (addr : Addr) : CacheMemory ε ρ :=
  let cacheSet := s.addressToCacheSet p addr
  { s with
    stats := { s.stats with
      m_accesses_per_set := Function.update s.stats.m_accesses_per_set cacheSet
        (s.stats.m_accesses_per_set cacheSet + 1)
      m_intra_zone_walks := s.stats.m_intra_zone_walks +
        match s.m_chunk_counters (addr >>> 12) with
        | none => 0
        | some c => if c.counter / 2 > 0 then 1 else 0 } }

/-- The reads counted for a chunk. -/
def countChunkRead (chunkID : ℕ) : CacheMemory ε ρ :=
  { s with
    m_chunk := Function.update s.m_chunk chunkID
      { s.m_chunk chunkID with reads := (s.m_chunk chunkID).reads + 1 }
    stats := { s.stats with
      m_chunk_reads := Function.update s.stats.m_chunk_reads chunkID
        (s.stats.m_chunk_reads chunkID + 1) } }

/-- The writes counted for a chunk. -/
def countChunkWrite (chunkID : ℕ) : CacheMemory ε ρ :=
  { s with
    m_chunk := Function.update s.m_chunk chunkID
      { s.m_chunk chunkID with writes := (s.m_chunk chunkID).writes + 1 }
    stats := { s.stats with
      m_chunk_writes := Function.update s.stats.m_chunk_writes chunkID
        (s.stats.m_chunk_writes chunkID + 1) } }

/-- Reserves the bank of the address's target set, when the cache models bank contention. -/
def reserveData (now : Tick) (addr : Addr) (latency : Cycles) : CacheMemory ε ρ :=
  if p.m_resource_stalls then
    { s with dataArray := s.dataArray.reserve now (s.addressToCacheSet p addr) latency }
  else s

def reserveTag (now : Tick) (addr : Addr) (latency : Cycles) : CacheMemory ε ρ :=
  if p.m_resource_stalls then
    { s with tagArray := s.tagArray.reserve now (s.addressToCacheSet p addr) latency }
  else s

/-- The `DataArrayWrite` case on a resident entry. -/
def dataWrite (now : Tick) (addr : Addr) (target cacheSet way : ℕ) : CacheMemory ε ρ :=
  if p.m_lazy_redirection_scheme then (s.refresh p now cacheSet way target).countWrite p addr
  else s.refresh p now cacheSet way target

/-- The `TagArrayWrite` case on a resident entry: the limit is that of the zone of the set that
holds it. -/
def tagWrite (now : Tick) (cacheSet way : ℕ) : CacheMemory ε ρ :=
  (s.refresh p now cacheSet way cacheSet).modify cacheSet way fun e =>
    if e.m_Permission = .NotPresent then { e with m_Permission := .Invalid } else e

/-- What a recorded access does to the entry the tag index finds for the address, wherever it
lies; `target` is the set the address is routed to. -/
def recordEntry (now : Tick) (requestType : CacheRequestType) (addr : Addr) (target : ℕ) :
    CacheMemory ε ρ :=
  match s.findTagInSetIgnorePermissions addr with
  | none => s
  | some (cacheSet, way) =>
      let s' := s.modify cacheSet way fun e => { e with m_last_touch_tick := now }
      match requestType with
      | .DataArrayWrite => s'.dataWrite p now addr target cacheSet way
      | .TagArrayWrite => s'.tagWrite p now cacheSet way
      | _ => s'

/-- The bank, chunk and type counters of a recorded access; `target` is the set the address was
routed to before the access. -/
def recordUse (now : Tick) (requestType : CacheRequestType) (addr : Addr) (target : ℕ) :
    CacheMemory ε ρ :=
  let zone := p.retention (p.getRetentionZone target)
  let chunkID := getChunkId target
  match requestType with
  | .DataArrayRead =>
      let s' := (s.reserveData p now addr zone.data.read_latency).countChunkRead chunkID
      { s' with stats := { s'.stats with numDataArrayReads := s'.stats.numDataArrayReads + 1 } }
  | .DataArrayWrite =>
      let s' := (s.reserveData p now addr zone.data.write_latency).countChunkWrite chunkID
      { s' with stats := { s'.stats with numDataArrayWrites := s'.stats.numDataArrayWrites + 1 } }
  | .TagArrayRead =>
      let s' := (s.reserveTag p now addr zone.tag.read_latency).countChunkRead chunkID
      { s' with stats := { s'.stats with numTagArrayReads := s'.stats.numTagArrayReads + 1 } }
  | .TagArrayWrite =>
      let s' := (s.reserveTag p now addr zone.tag.write_latency).countChunkWrite chunkID
      { s' with stats := { s'.stats with numTagArrayWrites := s'.stats.numTagArrayWrites + 1 } }
  | .AtomicALUOperation =>
      { s with
        stats := { s.stats with numAtomicALUOperations := s.stats.numAtomicALUOperations + 1 } }

/-- `recordRequestType`.  The zone and the chunk are those of the set the address is routed to
when the call starts. -/
def recordRequestType (now : Tick) (requestType : CacheRequestType) (addr : Addr) :
    CacheMemory ε ρ :=
  let target := s.addressToCacheSet p addr
  ((s.countAccess p addr).recordEntry p now requestType addr target).recordUse p now
    requestType addr target

/-- `checkResourceAvailable`: the cache after it, with the stall counted, and the answer. -/
def checkResourceAvailable (now : Tick) (res : CacheResourceType) (addr : Addr) :
    CacheMemory ε ρ × Bool :=
  if p.m_resource_stalls = false then (s, true) else
    match res with
    | .TagArray =>
        if s.tagArray.tryAccess now (s.addressToCacheSet p addr) then (s, true)
        else ({ s with stats :=
          { s.stats with numTagArrayStalls := s.stats.numTagArrayStalls + 1 } }, false)
    | .DataArray =>
        if s.dataArray.tryAccess now (s.addressToCacheSet p addr) then (s, true)
        else ({ s with stats :=
          { s.stats with numDataArrayStalls := s.stats.numDataArrayStalls + 1 } }, false)

end CacheMemory

/-! ### Sequences of calls -/

/-- The calls a controller makes, each at the tick it is made. -/
inductive Op (ε : Type*) where
  | allocate (address : Addr) (x : ε)
  | deallocate (address : Addr)
  | lookup (address : Addr)
  | setMRU (address : Addr)
  | setMRUEntry (address : Addr)
  | tryCacheAccess (address : Addr) (isRead : Bool)
  | recordRequestType (requestType : CacheRequestType) (addr : Addr)
  | changePermission (address : Addr) (perm : AccessPermission)

section Calls

variable {ε ρ : Type*} (p : Params) (rp : ReplacementPolicy ρ)

/-- The cache after one call, `none` if the call panics. -/
def CacheMemory.call (s : CacheMemory ε ρ) (now : Tick) : Op ε → Option (CacheMemory ε ρ)
  | .allocate a x => s.allocate p rp now a x
  | .deallocate a => some (s.deallocate rp a)
  | .lookup a => some (s.lookup now a).1
  | .setMRU a => some (s.setMRU p rp now a)
  | .setMRUEntry a => some (s.setMRUEntry rp now a)
  | .tryCacheAccess a r => some (s.tryCacheAccess rp now a r).1
  | .recordRequestType t a => some (s.recordRequestType p now t a)
  | .changePermission a perm => some (s.changePermission a perm)

/-- The machine whose runs are the finite sequences of calls, from the initialised cache. -/
def calls (r : ρ) : Lib.Machine (CacheMemory ε ρ) (Tick × Op ε) where
  start s := s = CacheMemory.init p r
  step s c := s.call p rp c.1 c.2

end Calls

end SttRuby.Cache
