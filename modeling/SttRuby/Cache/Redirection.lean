import SttRuby.Cache.Index
import SttRuby.Lib.Zones

/-!
# Cache — Redirection

Lazy redirection over four retention zones.  A set is routed in two moves: the base set, which a
page in the redirection table scatters two zones down, and the walk, a rotation inside the base
set's zone (`addressToCacheSet_eq`).

* `redirection_respects_tiers`: for any counters and any table, the target lies in the four
  zones, in the zone of the default set or, for a redirected page of the last two zones, two
  zones below it;
* `page_lines_apart`: the lines of one page have distinct targets;
* `routing_of_writes`: after any calls, a page's counter, its table entry and the targets of its
  lines are functions of the number of its recorded data writes.
-/

namespace SttRuby.Cache

/-- Lazy redirection is in effect, and every zone has a set. -/
structure Params.Redirects (p : Params) : Prop where
  lazy : p.m_lazy_redirection_scheme = true
  zones : p.m_num_of_retention_zones = 4
  four_le : 4 ≤ p.m_cache_num_sets

/-! ### Zones -/

theorem Params.m_thresholds_eq (p : Params) (i : ℕ) :
    p.m_thresholds i = (i + 1) * p.m_thresholds 0 := by
  simp [m_thresholds]

namespace Params.Redirects

variable {p : Params}

theorem size_eq (h : p.Redirects) : p.m_thresholds 0 = p.m_cache_num_sets / 4 := by
  simp [m_thresholds, h.zones]

theorem pos (h : p.Redirects) : 0 < p.m_thresholds 0 := by
  have := h.four_le
  rw [h.size_eq]
  omega

theorem default_lt (h : p.Redirects) (a : Addr) : p.getDefaultSet a < 4 * p.m_thresholds 0 := by
  rw [h.size_eq]
  exact (p.getDefaultSet_lt a).trans_le (two_pow_bits_le_zones h.four_le)

/-- The zone of a set below the last threshold. -/
theorem zone_eq (h : p.Redirects) {t : ℕ} (ht : t < 4 * p.m_thresholds 0) :
    p.getRetentionZone t = t / p.m_thresholds 0 := by
  have hz := h.pos
  have hrange : List.range p.m_num_of_retention_zones = [0, 1, 2, 3] := by rw [h.zones]; rfl
  have hlt (i : ℕ) : (t < p.m_thresholds i) ↔ t / p.m_thresholds 0 ≤ i := by
    rw [p.m_thresholds_eq, ← Nat.div_lt_iff_lt_mul hz, Nat.lt_succ_iff]
  have hq : t / p.m_thresholds 0 < 4 := (Nat.div_lt_iff_lt_mul hz).mpr ht
  simp only [getRetentionZone, hrange, hlt]
  generalize t / p.m_thresholds 0 = q at hq
  match q, hq with
  | 0, _ | 1, _ | 2, _ | 3, _ => rfl

end Params.Redirects

/-! ### The two moves -/

namespace CacheMemory

variable {ε ρ : Type*} {p : Params} {rp : ReplacementPolicy ρ} (s : CacheMemory ε ρ) (a : Addr)

theorem addressToCacheSet_eq (h : p.Redirects) :
    s.addressToCacheSet p a = Lib.rotate (p.m_thresholds 0) (s.baseSet p a) (s.intraOffset a) := by
  unfold addressToCacheSet
  rw [if_neg (by simp [h.lazy, h.zones])]
  dsimp only
  split_ifs with hoff
  · rfl
  · rw [Nat.eq_zero_of_not_pos hoff, Lib.rotate_zero h.pos]

/-- The place in its new zone of a line whose page has the table entry `offset`. -/
def scatter (p : Params) (offset : ℕ) (a : Addr) : ℕ :=
  (offset + ((a >>> 6) &&& 0x3F) * 7) % p.m_thresholds 0

/-- The base set, by the zone of the default set. -/
theorem baseSet_eq (h : p.Redirects) :
    s.baseSet p a = match s.m_chunk_redirection_table (a >>> 12) with
      | none => p.getDefaultSet a
      | some offset =>
          if 3 ≤ p.getDefaultSet a / p.m_thresholds 0 then p.m_thresholds 0 + scatter p offset a
          else if 2 ≤ p.getDefaultSet a / p.m_thresholds 0 then scatter p offset a
          else p.getDefaultSet a := by
  have hle (i : ℕ) : p.getDefaultSet a ≥ p.m_thresholds i ↔
      i + 1 ≤ p.getDefaultSet a / p.m_thresholds 0 := by
    rw [p.m_thresholds_eq, Nat.le_div_iff_mul_le h.pos]
  simp only [baseSet, hle]
  rfl

theorem scatter_lt (h : p.Redirects) (offset : ℕ) : scatter p offset a < p.m_thresholds 0 :=
  Nat.mod_lt _ h.pos

/-- The page of the line is redirected. -/
def redirected (a : Addr) : Bool := (s.m_chunk_redirection_table (a >>> 12)).isSome

theorem baseSet_div (h : p.Redirects) :
    s.baseSet p a / p.m_thresholds 0 =
      if s.redirected a ∧ 2 ≤ p.getDefaultSet a / p.m_thresholds 0 then
        p.getDefaultSet a / p.m_thresholds 0 - 2
      else p.getDefaultSet a / p.m_thresholds 0 := by
  have hz : p.getDefaultSet a / p.m_thresholds 0 < 4 :=
    (Nat.div_lt_iff_lt_mul h.pos).mpr (h.default_lt a)
  rw [s.baseSet_eq a h, redirected]
  cases s.m_chunk_redirection_table (a >>> 12) with
  | none => simp
  | some offset =>
      have hplace : scatter p offset a / p.m_thresholds 0 = 0 :=
        Nat.div_eq_of_lt (scatter_lt a h offset)
      have hnext : (p.m_thresholds 0 + scatter p offset a) / p.m_thresholds 0 = 1 := by
        rw [Nat.add_div_left _ h.pos, hplace]
      simp only [Option.isSome_some, true_and]
      split_ifs <;> omega

theorem addressToCacheSet_div (h : p.Redirects) :
    s.addressToCacheSet p a / p.m_thresholds 0 = s.baseSet p a / p.m_thresholds 0 := by
  rw [s.addressToCacheSet_eq a h, Lib.rotate_div h.pos]

theorem addressToCacheSet_lt_zones (h : p.Redirects) :
    s.addressToCacheSet p a < 4 * p.m_thresholds 0 := by
  rw [s.addressToCacheSet_eq a h]
  exact Lib.rotate_lt h.pos (s.baseSet_lt a h.four_le h.zones) _

end CacheMemory

open CacheMemory

/-- **Tiers.**  The target of a line lies in the four zones, so that sets and chunks are indexed in
bounds; its zone is that of the default set, or two below it if the page is redirected and the
default set is in one of the last two zones; the walk keeps the base set's zone. -/
theorem redirection_respects_tiers {ε ρ : Type*} {p : Params} (h : p.Redirects)
    (s : CacheMemory ε ρ) (a : Addr) :
    0 < p.m_thresholds 0 ∧ s.addressToCacheSet p a < 4 * p.m_thresholds 0 ∧
    4 * p.m_thresholds 0 ≤ p.m_cache_num_sets ∧
    getChunkId (s.addressToCacheSet p a) < p.m_cache_num_sets / 4 ∧
    p.getRetentionZone (s.addressToCacheSet p a) =
      (if s.redirected a ∧ 2 ≤ p.getRetentionZone (p.getDefaultSet a) then
        p.getRetentionZone (p.getDefaultSet a) - 2
      else p.getRetentionZone (p.getDefaultSet a)) ∧
    p.getRetentionZone (s.addressToCacheSet p a) = p.getRetentionZone (s.baseSet p a) := by
  have hlt := s.addressToCacheSet_lt_zones a h
  have hsize := h.size_eq
  refine ⟨h.pos, hlt, by omega, ?_, ?_, ?_⟩
  · unfold getChunkId
    omega
  · rw [h.zone_eq hlt, h.zone_eq (h.default_lt a), s.addressToCacheSet_div a h, s.baseSet_div a h]
  · rw [h.zone_eq hlt, h.zone_eq (s.baseSet_lt a h.four_le h.zones), s.addressToCacheSet_div a h]

theorem fourSets_redirects : fourSets.Redirects := by constructor <;> decide

/-- The block at `0xC0` of the last zone, after fifteen writes, is routed to the second zone. -/
theorem redirection_respects_tiers_jump :
    ∃ s, (calls fourSets firstWay ()).Run (fun _ _ => True) (CacheMemory.init fourSets ())
        ((1, .allocate 0xC0 'a') :: List.replicate 15 (2, .recordRequestType .DataArrayWrite 0xC0))
        s ∧
      fourSets.getRetentionZone (fourSets.getDefaultSet 0xC0) = 3 ∧ s.redirected 0xC0 = true ∧
      fourSets.getRetentionZone (s.addressToCacheSet fourSets 0xC0) = 1 := by
  obtain ⟨s, hr, hred⟩ := Lib.Machine.trace_exists
    (M := calls fourSets firstWay ()) (G := fun _ _ => True) (s := CacheMemory.init fourSets ())
    (l := (1, .allocate 0xC0 'a') ::
      List.replicate 15 (2, .recordRequestType .DataArrayWrite 0xC0))
    (P := fun s => s.redirected 0xC0 = true) (by decide +kernel)
  have hz : fourSets.getRetentionZone (fourSets.getDefaultSet 0xC0) = 3 := by decide
  obtain ⟨-, -, -, -, hzone, -⟩ := redirection_respects_tiers fourSets_redirects s 0xC0
  rw [hz, hred] at hzone
  exact ⟨s, hr, hz, hred, hzone⟩

/-! ### The lines of one page -/

/-- Lines of 64 bytes indexed from bit 6, in a power of two of at least 256 sets. -/
structure Params.PageIndexed (p : Params) : Prop extends p.Redirects where
  block : p.m_block_size = 64
  start : p.m_start_index_bit = 6
  sets : ∃ k, p.m_cache_num_sets = 256 * 2 ^ k

namespace Params.PageIndexed

variable {p : Params}

/-- The default sets of a page's lines are 64 consecutive sets of one zone, in the lines' order. -/
theorem default_eq (h : p.PageIndexed) : ∃ k, p.m_thresholds 0 = 64 * 2 ^ k ∧ ∀ a : Addr,
    p.getDefaultSet a = 64 * (a >>> 12 % (4 * 2 ^ k)) + a >>> 6 % 64 := by
  obtain ⟨k, hk⟩ := h.sets
  refine ⟨k, by rw [h.size_eq, hk]; omega, fun a => ?_⟩
  have hbits : 2 ^ p.m_cache_num_set_bits = 64 * (4 * 2 ^ k) := by
    have hpow : p.m_cache_num_sets = 2 ^ (k + 8) := by rw [hk, pow_add]; omega
    rw [m_cache_num_set_bits, hpow, Nat.log2_two_pow, pow_add]
    omega
  have hpage : a >>> 12 = a >>> 6 / 64 := by
    rw [Nat.shiftRight_eq_div_pow, Nat.shiftRight_eq_div_pow, Nat.div_div_eq_div_mul]
  rw [getDefaultSet, h.start, hbits, Nat.mod_mul, hpage, Nat.add_comm]

end Params.PageIndexed

namespace CacheMemory

variable {ε ρ : Type*} {p : Params} (s : CacheMemory ε ρ) {a b : Addr}

theorem blockOffset_eq (a : Addr) : (a >>> 6) &&& 0x3F = a >>> 6 % 64 :=
  Nat.and_two_pow_sub_one_eq_mod _ 6

/-- The base sets of two lines of a page lie in one zone and are distinct. -/
theorem baseSet_page (h : p.PageIndexed) (hab : a >>> 12 = b >>> 12) :
    s.baseSet p a / p.m_thresholds 0 = s.baseSet p b / p.m_thresholds 0 ∧
      (s.baseSet p a = s.baseSet p b → a >>> 6 % 64 = b >>> 6 % 64) := by
  obtain ⟨k, hz, hdef⟩ := h.default_eq
  have hpos : 0 < 2 ^ k := Nat.two_pow_pos k
  have hzone (c : Addr) :
      p.getDefaultSet c / p.m_thresholds 0 = c >>> 12 % (4 * 2 ^ k) / 2 ^ k := by
    rw [hdef, hz, ← Nat.div_div_eq_div_mul, Nat.mul_add_div (by omega),
      Nat.div_eq_of_lt (Nat.mod_lt _ (by omega)), Nat.add_zero]
  have hda : p.getDefaultSet a / p.m_thresholds 0 = p.getDefaultSet b / p.m_thresholds 0 := by
    rw [hzone, hzone, hab]
  have hred : s.redirected a = s.redirected b := by rw [redirected, redirected, hab]
  constructor
  · rw [s.baseSet_div a h.toRedirects, s.baseSet_div b h.toRedirects, hda, hred]
  · intro hbase
    rw [s.baseSet_eq a h.toRedirects, s.baseSet_eq b h.toRedirects, hab, hda] at hbase
    have hdefault : p.getDefaultSet a = p.getDefaultSet b → a >>> 6 % 64 = b >>> 6 % 64 := by
      intro he
      rw [hdef a, hdef b, hab] at he
      exact Nat.add_left_cancel he
    have hscatter (o : ℕ) : scatter p o a = scatter p o b → a >>> 6 % 64 = b >>> 6 % 64 := by
      intro he
      have hle : 64 ≤ p.m_thresholds 0 := by omega
      have hco : Nat.Coprime (p.m_thresholds 0) 7 := by
        have hpow : p.m_thresholds 0 = 2 ^ (6 + k) := by rw [hz, pow_add]; norm_num
        rw [hpow]
        exact Nat.Coprime.pow_left _ (by decide)
      rw [scatter, scatter, blockOffset_eq, blockOffset_eq] at he
      exact Lib.stride_inj hco ((Nat.mod_lt _ (by omega)).trans_le hle)
        ((Nat.mod_lt _ (by omega)).trans_le hle) he
    cases ht : s.m_chunk_redirection_table (b >>> 12) with
    | none =>
        rw [ht] at hbase
        exact hdefault hbase
    | some o =>
        rw [ht] at hbase
        dsimp only at hbase
        split_ifs at hbase
        · exact hscatter o (Nat.add_left_cancel hbase)
        · exact hscatter o hbase
        · exact hdefault hbase

end CacheMemory

/-- **Pages do not compete with themselves.**  Whatever the counters and the table hold, distinct
lines of a page have distinct targets. -/
theorem page_lines_apart {ε ρ : Type*} {p : Params} (h : p.PageIndexed) (s : CacheMemory ε ρ)
    {a b : Addr} (ha : p.makeLineAddress a = a) (hb : p.makeLineAddress b = b)
    (hab : a >>> 12 = b >>> 12) (heq : s.addressToCacheSet p a = s.addressToCacheSet p b) :
    a = b := by
  have hwalk : s.intraOffset a = s.intraOffset b := by rw [intraOffset, intraOffset, hab]
  obtain ⟨hdiv, hinj⟩ := s.baseSet_page h hab
  rw [s.addressToCacheSet_eq a h.toRedirects, s.addressToCacheSet_eq b h.toRedirects, hwalk] at heq
  have hline := hinj (Lib.rotate_inj hdiv heq)
  have hlog : Nat.log2 p.m_block_size = 6 := by rw [h.block]; decide
  rw [Params.makeLineAddress, hlog] at ha hb
  have hpage (c : Addr) : c >>> 12 = c >>> 6 / 64 := by
    rw [Nat.shiftRight_eq_div_pow, Nat.shiftRight_eq_div_pow, Nat.div_div_eq_div_mul]
  rw [hpage, hpage] at hab
  have hblock : a >>> 6 = b >>> 6 := by
    rw [← Nat.div_add_mod (a >>> 6) 64, hab, hline, Nat.div_add_mod]
  rw [← ha, ← hb, hblock]

/-- The same cache with 256 sets. -/
def wideSets : Params := { fourSets with m_cache_size := 16384, num_sets_gt := by decide }

theorem wideSets_pageIndexed : wideSets.PageIndexed where
  lazy := rfl
  zones := rfl
  four_le := by decide
  block := rfl
  start := rfl
  sets := ⟨0, by decide⟩

/-- Two lines of a redirected page. -/
theorem page_lines_apart_redirected :
    ∃ s, (calls wideSets firstWay ()).Run (fun _ _ => True) (CacheMemory.init wideSets ())
        ((1, .allocate 0x3000 'a') ::
          List.replicate 15 (2, .recordRequestType .DataArrayWrite 0x3000)) s ∧
      s.redirected 0x3000 = true ∧
      s.addressToCacheSet wideSets 0x3000 ≠ s.addressToCacheSet wideSets 0x3040 := by
  obtain ⟨s, hr, hred⟩ := Lib.Machine.trace_exists
    (M := calls wideSets firstWay ()) (G := fun _ _ => True) (s := CacheMemory.init wideSets ())
    (l := (1, .allocate 0x3000 'a') ::
      List.replicate 15 (2, .recordRequestType .DataArrayWrite 0x3000))
    (P := fun s => s.redirected 0x3000 = true) (by decide +kernel)
  refine ⟨s, hr, hred, fun h => absurd ?_ (show (0x3000 : Addr) ≠ 0x3040 by decide)⟩
  exact page_lines_apart wideSets_pageIndexed s (by decide) (by decide) (by decide) h

/-! ### Routing and the writes of a page -/

section Writes

variable {ε ρ : Type*} {p : Params} {rp : ReplacementPolicy ρ} {s s' : CacheMemory ε ρ}

/-- The page whose writes a call counts: a data write recorded for a resident block. -/
def CacheMemory.countedPage (s : CacheMemory ε ρ) : Op ε → Option Addr
  | .recordRequestType .DataArrayWrite a =>
      if (s.findTagInSetIgnorePermissions a).isSome then some (a >>> 12) else none
  | _ => none

/-- The calls, with the number of counted writes of each page. -/
def countedCalls (p : Params) (rp : ReplacementPolicy ρ) (r : ρ) :
    Lib.Machine (CacheMemory ε ρ × (Addr → ℕ)) (Tick × Op ε) where
  start x := x = (CacheMemory.init p r, fun _ => 0)
  step x c := (x.1.call p rp c.1 c.2).map fun s' =>
    (s', fun q => if x.1.countedPage c.2 = some q then x.2 q + 1 else x.2 q)

/-- The set of a line whose page has been written `n` times: from the fifteenth write on a line of
the last two zones is scattered two zones down, and every second write up to then walks the line
one set on. -/
def Params.routeAfter (p : Params) (n : ℕ) (a : Addr) : ℕ :=
  let size := p.m_thresholds 0
  let default_set := p.getDefaultSet a
  let place := (a >>> 12 % size + ((a >>> 6) &&& 0x3F) * 7) % size
  let base_set :=
    if n < 15 then default_set
    else if 3 * size ≤ default_set then size + place
    else if 2 * size ≤ default_set then place
    else default_set
  Lib.rotate size base_set (min n 15 / 2)

/-- The writes counted for a page, 0 for a page without a counter. -/
def CacheMemory.pageCount (s : CacheMemory ε ρ) (q : Addr) : ℕ :=
  match s.m_chunk_counters q with
  | none => 0
  | some c => c.counter

/-- The counters and the table, for pages that have been written `n q` times each. -/
structure Paged (p : Params) (s : CacheMemory ε ρ) (n : Addr → ℕ) : Prop where
  width : ∀ q c, s.m_chunk_counters q = some c → c.maxVal = 15
  count : ∀ q, s.pageCount q = min (n q) 15
  table : ∀ q, s.m_chunk_redirection_table q =
    if 15 ≤ n q then some (q % p.m_thresholds 0) else none

theorem Paged.congr {n : Addr → ℕ} (h : Paged p s n)
    (hc : s'.m_chunk_counters = s.m_chunk_counters)
    (ht : s'.m_chunk_redirection_table = s.m_chunk_redirection_table) : Paged p s' n where
  width := by rw [hc]; exact h.width
  count q := by
    rw [← h.count q]
    simp only [CacheMemory.pageCount, hc]
  table := by rw [ht]; exact h.table

/-- The page `q₀` has one more write, its counter is now `c`, the table is up to date. -/
theorem Paged.write {n : Addr → ℕ} (h : Paged p s n) {q₀ : Addr} {c : SatCounter8}
    (hs : s'.m_chunk_counters = Function.update s.m_chunk_counters q₀ (some c))
    (hm : c.maxVal = 15) (hc : c.counter = min (n q₀ + 1) 15)
    (ht : ∀ q, s'.m_chunk_redirection_table q =
      if 15 ≤ (if q₀ = q then n q + 1 else n q) then some (q % p.m_thresholds 0) else none) :
    Paged p s' fun q => if q₀ = q then n q + 1 else n q := by
  refine ⟨fun q d hd => ?_, fun q => ?_, ht⟩
  · rw [hs] at hd
    by_cases hq : q = q₀
    · subst hq
      rw [Function.update_self] at hd
      cases hd
      exact hm
    · rw [Function.update_of_ne hq] at hd
      exact h.width q d hd
  · unfold CacheMemory.pageCount
    rw [hs]
    by_cases hq : q = q₀
    · subst hq
      simp [hc]
    · rw [Function.update_of_ne hq, if_neg (Ne.symm hq)]
      exact h.count q

/-- One more write of the page of `a`. -/
theorem Paged.countWrite {n : Addr → ℕ} (h : Paged p s n) (a : Addr) :
    Paged p (s.countWrite p a) fun q => if a >>> 12 = q then n q + 1 else n q := by
  obtain ⟨c, hc⟩ : ∃ c, (s.m_chunk_counters (a >>> 12)).getD (SatCounter8.ofBits 4) = c := ⟨_, rfl⟩
  have hcount : c.maxVal = 15 ∧ c.counter = min (n (a >>> 12)) 15 := by
    have hw := h.width (a >>> 12)
    have hn := h.count (a >>> 12)
    unfold CacheMemory.pageCount at hn
    cases hs : s.m_chunk_counters (a >>> 12) with
    | none =>
        rw [hs] at hn hc
        subst hc
        exact ⟨rfl, hn⟩
    | some c' =>
        rw [hs] at hn hc
        subst hc
        exact ⟨hw c' hs, hn⟩
  have htable := h.table (a >>> 12)
  have hkeep (hiff : 15 ≤ n (a >>> 12) + 1 ↔ 15 ≤ n (a >>> 12)) (q : Addr) :
      s.m_chunk_redirection_table q = if 15 ≤ (if a >>> 12 = q then n q + 1 else n q) then
        some (q % p.m_thresholds 0) else none := by
    rw [h.table q]
    by_cases hq : a >>> 12 = q
    · subst hq
      simp [hiff]
    · simp [hq]
  unfold CacheMemory.countWrite
  dsimp only
  rw [hc]
  split
  · next o ho =>
      -- a redirected page keeps its saturated counter
      have hn : 15 ≤ n (a >>> 12) := by
        by_contra hn
        rw [htable, if_neg hn] at ho
        cases ho
      exact h.write rfl hcount.1 (by omega) (hkeep (by omega))
  · next ho =>
      have hn : n (a >>> 12) < 15 := by
        by_contra hn
        rw [htable, if_pos (by omega)] at ho
        cases ho
      have hincr : c.incr.maxVal = 15 ∧ c.incr.counter = n (a >>> 12) + 1 := by
        unfold SatCounter8.incr
        rw [dif_pos (by omega)]
        exact ⟨hcount.1, by dsimp only; omega⟩
      split_ifs with hsat
      · have h15 : n (a >>> 12) = 14 := by
          simp only [SatCounter8.isSaturated, hincr.1, hincr.2, beq_iff_eq] at hsat
          omega
        refine h.write rfl hincr.1 (by omega) fun q => ?_
        by_cases hq : q = a >>> 12
        · subst hq
          simp [h15]
        · dsimp only
          rw [Function.update_of_ne hq, h.table q, if_neg (Ne.symm hq)]
      · have h15 : n (a >>> 12) ≠ 14 := by
          simp only [SatCounter8.isSaturated, hincr.1, hincr.2, beq_iff_eq] at hsat
          omega
        exact h.write rfl hincr.1 (by omega) (hkeep (by omega))

/-- Counting a write reads the counters and the table only. -/
theorem countWrite_pages (hc : s'.m_chunk_counters = s.m_chunk_counters)
    (ht : s'.m_chunk_redirection_table = s.m_chunk_redirection_table) (a : Addr) :
    (s'.countWrite p a).m_chunk_counters = (s.countWrite p a).m_chunk_counters ∧
      (s'.countWrite p a).m_chunk_redirection_table =
        (s.countWrite p a).m_chunk_redirection_table := by
  simp only [countWrite, hc, ht]
  split
  · exact ⟨rfl, rfl⟩
  · split_ifs <;> exact ⟨rfl, rfl⟩

/-- What a recorded access does to the pages is what counting its write does. -/
theorem record_pages (hl : p.m_lazy_redirection_scheme = true) (now : Tick) (t : CacheRequestType)
    (a : Addr) :
    (s.recordRequestType p now t a).m_chunk_counters =
        (if s.countedPage (.recordRequestType t a) = none then s.m_chunk_counters
        else (s.countWrite p a).m_chunk_counters) ∧
      (s.recordRequestType p now t a).m_chunk_redirection_table =
        (if s.countedPage (.recordRequestType t a) = none then s.m_chunk_redirection_table
        else (s.countWrite p a).m_chunk_redirection_table) := by
  unfold recordRequestType
  dsimp only
  rw [(recordUse_frame _ now t a _).counters, (recordUse_frame _ now t a _).table]
  unfold recordEntry
  have hfind : (s.countAccess p a).findTagInSetIgnorePermissions a =
      s.findTagInSetIgnorePermissions a := rfl
  rw [hfind]
  cases hf : s.findTagInSetIgnorePermissions a with
  | none =>
      have hn : s.countedPage (.recordRequestType t a) = none := by
        cases t <;> simp [countedPage, hf]
      rw [if_pos hn, if_pos hn]
      exact ⟨rfl, rfl⟩
  | some w =>
      cases t with
      | DataArrayWrite =>
          have hn : s.countedPage (.recordRequestType .DataArrayWrite a) ≠ none := by
            simp [countedPage, hf]
          rw [if_neg hn, if_neg hn]
          simp only [dataWrite, hl, if_true]
          refine countWrite_pages ?_ ?_ a <;> rfl
      | DataArrayRead => exact ⟨rfl, rfl⟩
      | TagArrayRead => exact ⟨rfl, rfl⟩
      | TagArrayWrite => exact ⟨rfl, rfl⟩
      | AtomicALUOperation => exact ⟨rfl, rfl⟩

/-- A call changes the counters and the table only by counting a write. -/
theorem call_pages (hl : p.m_lazy_redirection_scheme = true) {now : Tick} {op : Op ε}
    (hs : s.call p rp now op = some s') :
    (s.countedPage op = none ∧ s'.m_chunk_counters = s.m_chunk_counters ∧
      s'.m_chunk_redirection_table = s.m_chunk_redirection_table) ∨
    ∃ a, s.countedPage op = some (a >>> 12) ∧
      s'.m_chunk_counters = (s.countWrite p a).m_chunk_counters ∧
      s'.m_chunk_redirection_table = (s.countWrite p a).m_chunk_redirection_table := by
  have hlookup (a : Addr) : (s.lookup now a).1.m_chunk_counters = s.m_chunk_counters ∧
      (s.lookup now a).1.m_chunk_redirection_table = s.m_chunk_redirection_table := by
    unfold lookup
    split <;> exact ⟨rfl, rfl⟩
  cases op with
  | allocate a x =>
      simp only [CacheMemory.call, CacheMemory.allocate] at hs
      split at hs
      · cases hs
        exact .inl ⟨rfl, rfl, rfl⟩
      · obtain ⟨way, -, rfl⟩ := Option.map_eq_some_iff.mp hs
        exact .inl ⟨rfl, rfl, rfl⟩
  | deallocate a =>
      cases hs
      unfold deallocate
      split <;> exact .inl ⟨rfl, rfl, rfl⟩
  | lookup a => cases hs; exact .inl ⟨rfl, hlookup a⟩
  | setMRU a =>
      cases hs
      simp only [setMRU]
      split <;> exact .inl ⟨rfl, hlookup _⟩
  | setMRUEntry a =>
      cases hs
      unfold setMRUEntry
      split <;> exact .inl ⟨rfl, rfl, rfl⟩
  | tryCacheAccess a b =>
      cases hs
      unfold tryCacheAccess
      split <;> exact .inl ⟨rfl, hlookup _⟩
  | recordRequestType t a =>
      cases hs
      obtain ⟨hc, ht⟩ := record_pages (s := s) hl now t a
      by_cases hn : s.countedPage (.recordRequestType t a) = none
      · rw [if_pos hn] at hc ht
        exact .inl ⟨hn, hc, ht⟩
      · rw [if_neg hn] at hc ht
        refine .inr ⟨a, ?_, hc, ht⟩
        cases t with
        | DataArrayWrite =>
            by_cases hf : (s.findTagInSetIgnorePermissions a).isSome = true
            · exact if_pos hf
            · exact absurd (if_neg hf) hn
        | DataArrayRead | TagArrayRead | TagArrayWrite | AtomicALUOperation => exact absurd rfl hn
  | changePermission a perm =>
      cases hs
      unfold changePermission
      split <;> exact .inl ⟨rfl, rfl, rfl⟩

theorem Paged.step (hl : p.m_lazy_redirection_scheme = true) {r : ρ} {n n' : Addr → ℕ}
    {c : Tick × Op ε} (h : Paged p s n)
    (hs : (countedCalls p rp r).step (s, n) c = some (s', n')) :
    Paged p s' n' ∧ ∀ q, n q ≤ n' q := by
  obtain ⟨s₁, hcall, heq⟩ := Option.map_eq_some_iff.mp hs
  cases heq
  refine ⟨?_, fun q => by dsimp only; split_ifs <;> omega⟩
  rcases call_pages hl hcall with ⟨hn, hc, ht⟩ | ⟨a, hn, hc, ht⟩
  · simpa [hn] using h.congr hc ht
  · simpa [hn] using (h.countWrite a).congr hc ht

theorem Paged.run (hl : p.m_lazy_redirection_scheme = true) {r : ρ}
    {x y : CacheMemory ε ρ × (Addr → ℕ)} {l : List (Tick × Op ε)} (h : Paged p x.1 x.2)
    (hr : (countedCalls p rp r).Run (fun _ _ => True) x l y) :
    Paged p y.1 y.2 ∧ ∀ q, x.2 q ≤ y.2 q := by
  induction hr with
  | refl => exact ⟨h, fun _ => le_rfl⟩
  | snoc _ _ hs ih =>
      obtain ⟨hp, hle⟩ := ih.1.step hl hs
      exact ⟨hp, fun q => (ih.2 q).trans (hle q)⟩

theorem Paged.route (h : p.Redirects) {n : Addr → ℕ} (hp : Paged p s n) (a : Addr) :
    s.addressToCacheSet p a = p.routeAfter (n (a >>> 12)) a := by
  have hwalk : s.intraOffset a = min (n (a >>> 12)) 15 / 2 := by
    have hc := hp.count (a >>> 12)
    unfold pageCount at hc
    unfold intraOffset
    cases hs : s.m_chunk_counters (a >>> 12) with
    | none =>
        rw [hs] at hc
        dsimp only at hc ⊢
        omega
    | some c =>
        rw [hs] at hc
        dsimp only at hc ⊢
        omega
  rw [s.addressToCacheSet_eq a h, hwalk]
  simp only [Params.routeAfter]
  congr 1
  rw [baseSet, hp.table, p.m_thresholds_eq 2, p.m_thresholds_eq 1]
  by_cases hn : 15 ≤ n (a >>> 12)
  · rw [if_pos hn, if_neg (by omega)]
  · rw [if_neg hn, if_pos (by omega)]

theorem paged_init (r : ρ) : Paged p (CacheMemory.init p r : CacheMemory ε ρ) fun _ => 0 where
  width _ _ hc := by cases hc
  count _ := rfl
  table _ := rfl

end Writes

/-- **Routing depends on the page's own writes.**  After any calls on any addresses, with `n q`
data writes recorded for resident blocks of each page `q`: the counter of a page is `n q` up to
15, the table holds the page from the fifteenth write on, with its number modulo the zone's size,
and the target of a line is `routeAfter` of the writes of its page.  Further calls never lower a
counter, and never move a line of a redirected page. -/
theorem routing_of_writes {ε ρ : Type*} {p : Params} (h : p.Redirects) {rp : ReplacementPolicy ρ}
    {r : ρ} {x : CacheMemory ε ρ × (Addr → ℕ)}
    (hx : (countedCalls p rp r).Reach (fun _ _ => True) x) :
    (∀ q, x.1.pageCount q = min (x.2 q) 15 ∧ x.1.m_chunk_redirection_table q =
      if 15 ≤ x.2 q then some (q % p.m_thresholds 0) else none) ∧
    (∀ a, x.1.addressToCacheSet p a = p.routeAfter (x.2 (a >>> 12)) a) ∧
    ∀ l y, (countedCalls p rp r).Run (fun _ _ => True) x l y →
      (∀ q, x.1.pageCount q ≤ y.1.pageCount q) ∧
      ∀ a, x.1.redirected a = true → y.1.addressToCacheSet p a = x.1.addressToCacheSet p a := by
  have hp : Paged p x.1 x.2 := by
    obtain ⟨x₀, l, rfl, hr⟩ := hx
    exact (Paged.run h.lazy (paged_init r) hr).1
  refine ⟨fun q => ⟨hp.count q, hp.table q⟩, fun a => hp.route h a, fun l y hr => ?_⟩
  obtain ⟨hy, hle⟩ := Paged.run h.lazy hp hr
  refine ⟨fun q => ?_, fun a ha => ?_⟩
  · have := hle q
    rw [hp.count, hy.count]
    omega
  · have hn : 15 ≤ x.2 (a >>> 12) := by
      by_contra hn
      rw [redirected, hp.table, if_neg hn] at ha
      cases ha
    have hn' : 15 ≤ y.2 (a >>> 12) := hn.trans (hle _)
    rw [hp.route h, hy.route h]
    simp only [Params.routeAfter, if_neg (Nat.not_lt.mpr hn), if_neg (Nat.not_lt.mpr hn'),
      min_eq_right hn, min_eq_right hn']

/-- Fifteen writes of a block, and one of a block of another page. -/
theorem routing_of_writes_fifteen :
    ∃ x : CacheMemory Char Unit × (Addr → ℕ),
      (countedCalls fourSets firstWay ()).Reach (fun _ _ => True) x ∧ x.2 0 = 15 ∧
      x.1.pageCount 0 = 15 ∧ x.1.m_chunk_redirection_table 0 = some 0 ∧
      x.1.addressToCacheSet fourSets 0xC0 = fourSets.routeAfter 15 0xC0 ∧
      x.1.addressToCacheSet fourSets 0x1080 = fourSets.routeAfter 1 0x1080 := by
  obtain ⟨x, hx, h₀, h₁⟩ := Lib.Machine.trace_reaches
    (M := countedCalls fourSets firstWay ()) (G := fun _ _ => True)
    (s := (CacheMemory.init fourSets (), fun _ => 0))
    (l := (1, .allocate 0xC0 'a') :: (1, .allocate 0x1080 'b') ::
      (2, .recordRequestType .DataArrayWrite 0x1080) ::
      List.replicate 15 (2, .recordRequestType .DataArrayWrite 0xC0))
    (P := fun x => x.2 0 = 15 ∧ x.2 1 = 1) rfl (by decide +kernel)
  obtain ⟨hpage, hroute, -⟩ := routing_of_writes fourSets_redirects hx
  have hc := hpage 0
  rw [h₀] at hc
  refine ⟨x, hx, h₀, hc.1, hc.2, ?_, ?_⟩
  · rw [hroute, ← h₀]
    rfl
  · rw [hroute, ← h₁]
    rfl

end SttRuby.Cache
