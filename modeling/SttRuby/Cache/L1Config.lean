import Mathlib
import SttRuby.Cache.Routing

/-!
# Cache — L1Config

The caches of an L1 controller, as `L1Cache.__init__` configures them.  `start_index_bit` is given
the line size, a number of bytes, where `CacheMemory` takes it for a bit position.  The index bits
then start `2 ^ k - k` bits above the offset of a line of `2 ^ k` bytes, so that a line of even
number shares its set with the next one (`shift_line`).

From 64-byte lines on the shift count is not below the width of an address, which the language
leaves undefined.  `getDefaultSetMod64` is the set on a machine that takes the count modulo 64;
there the index bits start inside the line offset (`shift_mod_line`).
-/

namespace SttRuby.Cache

/-- The instruction or the data cache of an `L1Cache`, over the defaults of `RubyCache`. -/
def l1Cache (cache_line_size size assoc : ℕ) (clockPeriod : Tick) (hline : cache_line_size ≠ 0)
    (hsets : 1 < size / assoc / cache_line_size) : Params where
  m_cache_size := size
  m_cache_assoc := assoc
  m_block_size := cache_line_size
  m_start_index_bit := cache_line_size
  m_resource_stalls := true
  m_is_sttram := false
  m_lazy_redirection_scheme := false
  m_num_of_retention_zones := 1
  m_low_retention := ⟨⟨1, 1⟩, ⟨1, 1⟩, 0⟩
  m_mediumlow_retention := ⟨⟨1, 1⟩, ⟨1, 1⟩, 0⟩
  m_mediumhigh_retention := ⟨⟨1, 1⟩, ⟨1, 1⟩, 0⟩
  m_high_retention := ⟨⟨1, 1⟩, ⟨1, 1⟩, 0⟩
  dataArrayBanks := 1
  tagArrayBanks := 1
  clockPeriod := clockPeriod
  block_size_ne := hline
  num_sets_gt := hsets
  lazy_sttram := Params.no_redirection
  zones_pos := Params.one_zone_pos
  zones_le := Params.one_zone_le

/-- `getDefaultSet` with the shift count taken modulo 64. -/
def Params.getDefaultSetMod64 (p : Params) (address : Addr) : ℕ :=
  (address >>> (p.m_start_index_bit % 64)) % 2 ^ p.m_cache_num_set_bits

/-- Shifted by the line size, an even line and the next one are the same. -/
theorem shift_line (k n : ℕ) :
    (2 * n * 2 ^ k) >>> 2 ^ k = ((2 * n + 1) * 2 ^ k) >>> 2 ^ k := by
  obtain ⟨m, hm⟩ : ∃ m, 2 ^ k = k + (1 + m) :=
    ⟨2 ^ k - k - 1, by have := k.lt_two_pow_self; omega⟩
  have hdrop (i : ℕ) : (i * 2 ^ k) >>> 2 ^ k = i / 2 / 2 ^ m := by
    conv_lhs => arg 2; rw [hm]
    rw [Nat.shiftRight_eq_div_pow, pow_add, Nat.mul_comm i,
      Nat.mul_div_mul_left _ _ (Nat.two_pow_pos k), pow_add, pow_one, Nat.div_div_eq_div_mul]
  rw [hdrop, hdrop]
  congr 1
  omega

/-- From 64-byte lines on, the masked shift is none, and the lines half a cache apart agree on the
bits below `2 ^ b`. -/
theorem shift_mod_line {k : ℕ} (hk : 6 ≤ k) (b n : ℕ) :
    ((n * 2 ^ k) >>> (2 ^ k % 64)) % 2 ^ (b + 1) =
      (((n + 2 ^ b) * 2 ^ k) >>> (2 ^ k % 64)) % 2 ^ (b + 1) := by
  obtain ⟨m, rfl⟩ := Nat.exists_eq_add_of_le hk
  have hmask : 2 ^ (6 + m) % 64 = 0 := by
    rw [pow_add]
    exact Nat.mul_mod_right 64 _
  have hhalf : 2 ^ b * 2 ^ (6 + m) = 2 ^ (b + 1) * 2 ^ (5 + m) := by
    rw [← pow_add, ← pow_add]
    congr 1
    omega
  rw [hmask, Nat.shiftRight_zero, Nat.shiftRight_zero, Nat.add_mul, hhalf,
    Nat.add_mul_mod_self_left]

/-- The L1 redirects nothing. -/
theorem addressToCacheSet_l1Cache {ε ρ : Type*} {line size assoc clk : ℕ} (hline : line ≠ 0)
    (hsets : 1 < size / assoc / line) (s : CacheMemory ε ρ) (a : Addr) :
    s.addressToCacheSet (l1Cache line size assoc clk hline hsets) a =
      (l1Cache line size assoc clk hline hsets).getDefaultSet a := by
  unfold CacheMemory.addressToCacheSet
  rw [if_pos (.inl rfl)]

/-- **L1 sets collide.**  In every L1 cache, whatever its line size, size and associativity, two of
any `m_cache_num_sets` consecutive lines that start at an even one have the same set; and so have
two of them on a machine that takes shift counts modulo 64. -/
theorem l1_lines_collide {ε ρ : Type*} (k : ℕ) {size assoc clk : ℕ}
    (hsets : 1 < size / assoc / 2 ^ k) (s : CacheMemory ε ρ) (n : ℕ) :
    let p := l1Cache (2 ^ k) size assoc clk (by positivity) hsets
    ¬ Set.InjOn (fun i => s.addressToCacheSet p ((2 * n + i) * 2 ^ k))
        (Set.Iio p.m_cache_num_sets) ∧
    ¬ Set.InjOn (fun i => p.getDefaultSetMod64 ((2 * n + i) * 2 ^ k))
        (Set.Iio p.m_cache_num_sets) := by
  intro p
  have h1 : 1 < p.m_cache_num_sets := p.num_sets_gt
  have h0 : 0 < p.m_cache_num_sets := Nat.zero_lt_one.trans h1
  have hnext : p.getDefaultSet ((2 * n + 0) * 2 ^ k) = p.getDefaultSet ((2 * n + 1) * 2 ^ k) :=
    congrArg (· % 2 ^ p.m_cache_num_set_bits) (shift_line k n)
  refine ⟨fun hinj => ?_, fun hinj => ?_⟩
  · refine absurd (hinj h0 h1 ?_) (by decide)
    simpa only [addressToCacheSet_l1Cache, p] using hnext
  · rcases Nat.lt_or_ge k 6 with hk | hk
    · -- the count is below 64, and the machine's shift is the one above
      have hcount : 2 ^ k % 64 = 2 ^ k :=
        Nat.mod_eq_of_lt (Nat.pow_lt_pow_right (by decide) hk)
      have hsame (a : Addr) : p.getDefaultSetMod64 a = p.getDefaultSet a := by
        unfold Params.getDefaultSetMod64 Params.getDefaultSet
        rw [show p.m_start_index_bit % 64 = p.m_start_index_bit from hcount]
      refine absurd (hinj h0 h1 ?_) (by decide)
      simpa only [hsame] using hnext
    · have hbits : 1 ≤ p.m_cache_num_set_bits := (Nat.le_log2 h0.ne').mpr h1
      obtain ⟨b, hb⟩ := Nat.exists_eq_add_of_le' hbits
      have hhalf : 2 ^ b ∈ Set.Iio p.m_cache_num_sets := by
        refine (Nat.pow_lt_pow_right (by decide) (Nat.lt_succ_self b)).trans_le ?_
        rw [Nat.succ_eq_add_one, ← hb]
        exact p.two_pow_bits_le
      refine absurd (hinj h0 hhalf ?_) (Nat.two_pow_pos b).ne
      simp only [Params.getDefaultSetMod64, hb]
      exact shift_mod_line hk b (2 * n)

/-- 16 KiB in eight ways of 64-byte lines: 32 sets, of which the lines 0 to 31 use one. -/
theorem l1_lines_collide_16kB :
    ¬ Set.InjOn (fun i => (CacheMemory.init (l1Cache 64 16384 8 500 (by decide) (by decide)) () :
        CacheMemory Char Unit).addressToCacheSet
          (l1Cache 64 16384 8 500 (by decide) (by decide)) ((2 * 0 + i) * 64)) (Set.Iio 32) :=
  (@l1_lines_collide Char Unit 6 16384 8 500 (by decide) _ 0).1

/-- With 32-byte lines the shift by 32 is defined, and the lines 0 and 1 of a cache of 64 sets both
lie in set 0. -/
theorem l1_first_lines_share_set :
    let p := l1Cache 32 16384 8 500 (by decide) (by decide)
    let s : CacheMemory Char Unit := .init p ()
    p.m_cache_num_sets = 64 ∧ s.addressToCacheSet p (0 * 32) = 0 ∧
      s.addressToCacheSet p (1 * 32) = 0 := by
  decide

end SttRuby.Cache
