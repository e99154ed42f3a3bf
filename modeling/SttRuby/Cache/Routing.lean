import Mathlib.Tactic.NormNum
import SttRuby.Cache.Memory

/-!
# Cache — Routing

Where `CacheMemory` puts a block.  The location code packs a set and a way below `2 ^ 16` and
gives both back (`decodeSet_encode`, `decodeWay_encode`).  With at least four sets the routing
function stays inside the array for any contents of the counters and the redirection table
(`addressToCacheSet_lt`): a scattered page lands in the first two zones, and an intra-zone walk
wraps inside the zone of its base set.  Without redirection it stays among the sets that the index
bits reach (`addressToCacheSet_lt_used`), which may be fewer.
-/

namespace SttRuby.Cache

/-- The sets that addresses are routed to: those that the index bits reach, or all of them if lazy
redirection runs over four zones. -/
def Params.usedSets (p : Params) : ℕ :=
  if p.m_lazy_redirection_scheme = false ∨ p.m_num_of_retention_zones ≠ 4 then
    2 ^ p.m_cache_num_set_bits
  else p.m_cache_num_sets

/-- The geometries whose locations fit the packed code.  Redirection has a set for every zone: it
divides by the size of one. -/
structure Params.Fits (p : Params) : Prop where
  four_le : p.m_lazy_redirection_scheme = true → p.m_num_of_retention_zones = 4 →
    4 ≤ p.m_cache_num_sets
  sets_le : p.usedSets ≤ 65536
  assoc_le : p.m_cache_assoc ≤ 65536

/-! ### The location code -/

theorem encode_toNat_mod (cacheSet way : ℕ) :
    (encode cacheSet way).toNat = (cacheSet * 65536 + way % 65536) % 2 ^ 32 := by
  have hmask : way &&& 0xFFFF = way % 65536 := Nat.and_two_pow_sub_one_eq_mod way 16
  have hor : (cacheSet <<< 16) ||| (way % 65536) = cacheSet * 65536 + way % 65536 := by
    rw [← Nat.shiftLeft_add_eq_or_of_lt (Nat.mod_lt way (Nat.two_pow_pos 16)), Nat.shiftLeft_eq]
  rw [encode, BitVec.toNat_ofNat, hmask, hor]

theorem encode_toNat {cacheSet way : ℕ} (hs : cacheSet < 65536) (hw : way < 65536) :
    (encode cacheSet way).toNat = cacheSet * 65536 + way := by
  rw [encode_toNat_mod]
  omega

theorem decodeWay_encode {cacheSet way : ℕ} (hs : cacheSet < 65536) (hw : way < 65536) :
    decodeWay (encode cacheSet way) = way := by
  have h := encode_toNat hs hw
  rw [decodeWay, BitVec.toNat_and, h, show (0xFFFF#32).toNat = 2 ^ 16 - 1 from rfl,
    Nat.and_two_pow_sub_one_eq_mod]
  omega

/-- The sign bit that the arithmetic shift copies is masked away again. -/
theorem decodeSet_eq (c : BitVec 32) : decodeSet c = c.toNat / 65536 := by
  have h : c.sshiftRight 16 &&& 0xFFFF#32 = c >>> 16 := by
    ext i hi
    have hm : (0xFFFF#32)[i] = decide (i < 16) := by
      rw [BitVec.getElem_eq_testBit_toNat, show (0xFFFF#32).toNat = 2 ^ 16 - 1 from rfl,
        Nat.testBit_two_pow_sub_one]
    simp only [BitVec.getElem_and, BitVec.getElem_sshiftRight, BitVec.getElem_ushiftRight, hm]
    by_cases h16 : i < 16
    · rw [dif_pos (by omega), decide_eq_true h16, Bool.and_true,
        BitVec.getLsbD_eq_getElem (by omega)]
    · rw [decide_eq_false h16, Bool.and_false, BitVec.getLsbD_of_ge c _ (by omega)]
  rw [decodeSet, h, BitVec.toNat_ushiftRight, Nat.shiftRight_eq_div_pow]

theorem decodeSet_encode {cacheSet way : ℕ} (hs : cacheSet < 65536) (hw : way < 65536) :
    decodeSet (encode cacheSet way) = cacheSet := by
  rw [decodeSet_eq, encode_toNat hs hw]
  omega

/-! ### The target set is in range -/

namespace Params

variable {p : Params}

theorem getDefaultSet_lt (p : Params) (a : Addr) :
    p.getDefaultSet a < 2 ^ p.m_cache_num_set_bits :=
  Nat.mod_lt _ (Nat.two_pow_pos _)

theorem two_pow_bits_le (p : Params) : 2 ^ p.m_cache_num_set_bits ≤ p.m_cache_num_sets :=
  Nat.log2_self_le (Nat.ne_of_gt (Nat.lt_of_lt_of_le Nat.zero_lt_one p.num_sets_gt.le))

/-- With four zones, the sets that the index bits reach all lie below the last threshold. -/
theorem two_pow_bits_le_zones (h4 : 4 ≤ p.m_cache_num_sets) :
    2 ^ p.m_cache_num_set_bits ≤ 4 * (p.m_cache_num_sets / 4) := by
  have hlog : 2 ≤ p.m_cache_num_set_bits :=
    (Nat.le_log2 (by omega)).mpr h4
  obtain ⟨k, hk⟩ := Nat.exists_eq_add_of_le hlog
  have hpow : 2 ^ p.m_cache_num_set_bits = 4 * 2 ^ k := by rw [hk, pow_add]; norm_num
  have hle := p.two_pow_bits_le
  omega

end Params

namespace CacheMemory

variable {ε ρ : Type*} {p : Params} (s : CacheMemory ε ρ) (a : Addr)

/-- A base set lies in the four zones. -/
theorem baseSet_lt (h4 : 4 ≤ p.m_cache_num_sets) (hz : p.m_num_of_retention_zones = 4) :
    s.baseSet p a < 4 * p.m_thresholds 0 := by
  have hth : ∀ i, p.m_thresholds i = (i + 1) * (p.m_cache_num_sets / 4) := by
    intro i; rw [Params.m_thresholds, hz]
  have hdef : p.getDefaultSet a < 4 * p.m_thresholds 0 := by
    have h₁ := p.getDefaultSet_lt a
    have h₂ := Params.two_pow_bits_le_zones h4
    rw [hth]; omega
  have hpos : 0 < p.m_thresholds 0 := by rw [hth]; omega
  rw [baseSet]
  split
  · exact hdef
  · next offset _ =>
      have hmod := Nat.mod_lt (offset + ((a >>> 6) &&& 0x3F) * 7) hpos
      simp only
      split_ifs
      · omega
      · omega
      · exact hdef

theorem addressToCacheSet_lt (h4 : 4 ≤ p.m_cache_num_sets) :
    s.addressToCacheSet p a < p.m_cache_num_sets := by
  rw [addressToCacheSet]
  split_ifs with hlazy
  · exact (p.getDefaultSet_lt a).trans_le p.two_pow_bits_le
  · have hz : p.m_num_of_retention_zones = 4 := by
      by_contra h; exact hlazy (.inr h)
    have hzs : p.m_thresholds 0 = p.m_cache_num_sets / 4 := by
      simp [Params.m_thresholds, hz]
    have hbase := s.baseSet_lt a h4 hz
    have hpos : 0 < p.m_thresholds 0 := by omega
    simp only
    split_ifs
    · -- the walk stays in the zone of the base set
      have hdiv : s.baseSet p a / p.m_thresholds 0 < 4 := Nat.div_lt_of_lt_mul (by omega)
      have hmod := Nat.mod_lt (s.baseSet p a % p.m_thresholds 0 + s.intraOffset a) hpos
      have hmul : s.baseSet p a / p.m_thresholds 0 * p.m_thresholds 0 ≤ 3 * p.m_thresholds 0 :=
        Nat.mul_le_mul_right _ (by omega)
      omega
    · omega

theorem addressToCacheSet_lt_used (hp : p.Fits) : s.addressToCacheSet p a < p.usedSets := by
  by_cases hno : p.m_lazy_redirection_scheme = false ∨ p.m_num_of_retention_zones ≠ 4
  · rw [addressToCacheSet, if_pos hno, Params.usedSets, if_pos hno]
    exact p.getDefaultSet_lt a
  · rw [Params.usedSets, if_neg hno]
    rw [not_or, Bool.not_eq_false, not_not] at hno
    exact s.addressToCacheSet_lt a (hp.four_le hno.1 hno.2)

end CacheMemory

end SttRuby.Cache
