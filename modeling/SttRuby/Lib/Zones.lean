import Mathlib.Data.Nat.ModEq
import Mathlib.Tactic.NormNum

/-!
# Lib — Zones

Indices cut into zones of one size.  `i / z` is the zone of the index `i` and `i % z` its place
in it.  `rotate z i k` moves an index `k` places on inside its zone, and round to the zone's start
when it passes the end (`rotate_div`, `rotate_eq_self_iff`, `rotate_inj`); the places of a stride
that is coprime to the size are distinct (`stride_inj`).
-/

namespace SttRuby.Lib

variable {z : ℕ}

/-- `i` moved `k` places on inside its zone. -/
def rotate (z i k : ℕ) : ℕ := i / z * z + (i % z + k) % z

theorem rotate_zero (hz : 0 < z) (i : ℕ) : rotate z i 0 = i := by
  rw [rotate, Nat.add_zero, Nat.mod_eq_of_lt (Nat.mod_lt i hz), Nat.mul_comm, Nat.div_add_mod]

theorem rotate_div (hz : 0 < z) (i k : ℕ) : rotate z i k / z = i / z := by
  rw [rotate, Nat.add_comm, Nat.add_mul_div_right _ _ hz, Nat.div_eq_of_lt (Nat.mod_lt _ hz),
    Nat.zero_add]

theorem rotate_lt (hz : 0 < z) {i m : ℕ} (h : i < m * z) (k : ℕ) : rotate z i k < m * z := by
  rw [← Nat.div_lt_iff_lt_mul hz, rotate_div hz, Nat.div_lt_iff_lt_mul hz]
  exact h

/-- Less than a whole round moves an index away, unless it is no place at all. -/
theorem rotate_eq_self_iff {i k : ℕ} (hk : k < z) : rotate z i k = i ↔ k = 0 := by
  have hz : 0 < z := Nat.zero_lt_of_lt hk
  refine ⟨fun h => ?_, fun h => by rw [h, rotate_zero hz]⟩
  have hmod : (i % z + k) % z = i % z := by
    have hi := Nat.div_add_mod i z
    rw [rotate, Nat.mul_comm] at h
    exact Nat.add_left_cancel (h.trans hi.symm)
  have hlt := Nat.mod_lt i hz
  by_contra hne
  rcases Nat.lt_or_ge (i % z + k) z with hlow | hhigh
  · rw [Nat.mod_eq_of_lt hlow] at hmod
    omega
  · rw [Nat.mod_eq_sub_mod hhigh, Nat.mod_eq_of_lt (by omega)] at hmod
    omega

/-- Two indices of one zone stay apart. -/
theorem rotate_inj {i j k : ℕ} (hd : i / z = j / z)
    (h : rotate z i k = rotate z j k) : i = j := by
  have hmod : i % z + k ≡ j % z + k [MOD z] := by
    rw [rotate, rotate, hd] at h
    exact Nat.add_left_cancel h
  have hij : i % z = j % z := by
    have := Nat.ModEq.add_right_cancel' k hmod
    rwa [Nat.ModEq, Nat.mod_mod, Nat.mod_mod] at this
  rw [← Nat.div_add_mod i z, ← Nat.div_add_mod j z, hd, hij]

/-- Places of a stride coprime to the size of the zone are distinct. -/
theorem stride_inj {o c i j : ℕ} (hc : Nat.Coprime z c) (hi : i < z) (hj : j < z)
    (h : (o + i * c) % z = (o + j * c) % z) : i = j := by
  have hmul : i * c ≡ j * c [MOD z] := Nat.ModEq.add_left_cancel' o h
  have hij : i ≡ j [MOD z] := Nat.ModEq.cancel_right_of_coprime hc hmul
  rwa [Nat.ModEq, Nat.mod_eq_of_lt hi, Nat.mod_eq_of_lt hj] at hij

end SttRuby.Lib
