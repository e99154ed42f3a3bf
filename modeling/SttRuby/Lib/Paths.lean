import Mathlib.Algebra.Group.Hom.Defs
import Mathlib.Algebra.GroupWithZero.Nat
import Mathlib.Algebra.Order.Monoid.NatCast
import Mathlib.Tactic.Common

/-!
# Lib — Paths

Walks in a graph whose links have costs in an additive monoid, and distances over ℕ.  `Walk e i j c`
says that there is a walk from `i` to `j` along the links `e` whose costs add up to `c`.

A matrix `D` gives the distances up to a cap (`Shortest`) when no walk is shorter than it says, and
below the cap some walk is as short as it says.  A matrix that is realised by walks, is not above
the links and satisfies the triangle inequality is such a matrix (`Shortest.of_triangle`).  Where it
is below the cap, it is the weight of a link and what it says of the way on (`Shortest.next`).
-/

namespace SttRuby.Lib

variable {V M N : Type*} [AddMonoid M] [AddMonoid N]

/-- A walk and its cost. -/
inductive Walk (e : V → V → M → Prop) : V → V → M → Prop where
  | nil (i : V) : Walk e i i 0
  | cons {i k j : V} {w c : M} (h : e i k w) (t : Walk e k j c) : Walk e i j (w + c)

namespace Walk

variable {e : V → V → M → Prop} {i j k : V} {a b : M}

theorem single (h : e i j a) : Walk e i j a := by
  have hw := cons h (nil j)
  rwa [add_zero] at hw

theorem append (h : Walk e i k a) (h' : Walk e k j b) : Walk e i j (a + b) := by
  induction h with
  | nil => rwa [zero_add]
  | cons hw _ ih => rw [add_assoc]; exact cons hw (ih h')

/-- A walk is empty or has a first link. -/
theorem first (h : Walk e i j a) :
    (i = j ∧ a = 0) ∨ ∃ k w c, e i k w ∧ Walk e k j c ∧ a = w + c := by
  cases h with
  | nil => exact .inl ⟨rfl, rfl⟩
  | cons hw t => exact .inr ⟨_, _, _, hw, t, rfl⟩

/-- A walk under a change of costs. -/
theorem map (f : M →+ N) {e' : V → V → N → Prop} (he : ∀ i j w, e i j w → e' i j (f w))
    (h : Walk e i j a) : Walk e' i j (f a) := by
  induction h with
  | nil => rw [map_zero]; exact nil _
  | cons hw _ ih => rw [map_add]; exact cons (he _ _ _ hw) ih

end Walk

/-! ### Distances -/

variable {e : V → V → ℕ → Prop} {cap : ℕ} {D : V → V → ℕ}

/-- `D` gives the length of the shortest walks that are shorter than `cap`. -/
structure Shortest (e : V → V → ℕ → Prop) (cap : ℕ) (D : V → V → ℕ) : Prop where
  le_cap : ∀ i j, D i j ≤ cap
  le_walk : ∀ {i j d}, Walk e i j d → D i j ≤ d
  walk : ∀ {i j}, D i j < cap → Walk e i j (D i j)

theorem Shortest.of_triangle (hcap : ∀ i j, D i j ≤ cap) (hdiag : ∀ i, D i i = 0)
    (hedge : ∀ {i j w}, e i j w → D i j ≤ w) (htri : ∀ i k j, D i j ≤ D i k + D k j)
    (hwalk : ∀ {i j}, D i j < cap → Walk e i j (D i j)) : Shortest e cap D where
  le_cap := hcap
  walk := hwalk
  le_walk := by
    intro i j d h
    induction h with
    | nil i => exact (hdiag i).le
    | @cons i k j w c hw _ ih => exact (htri i k j).trans (Nat.add_le_add (hedge hw) ih)

variable {i j k : V} {w : ℕ}

/-- A link and the way on from its end. -/
theorem Shortest.le_link (h : Shortest e cap D) (hw : e i k w) (hk : D k j < cap) :
    D i j ≤ w + D k j :=
  h.le_walk (.cons hw (h.walk hk))

/-- A shortest walk to somewhere else has a first link. -/
theorem Shortest.next (h : Shortest e cap D) (hij : i ≠ j) (hlt : D i j < cap) :
    ∃ k w, e i k w ∧ w + D k j = D i j := by
  obtain ⟨hij', -⟩ | ⟨k, w, c, hw, ht, heq⟩ := (h.walk hlt).first
  · exact absurd hij' hij
  · have hle := h.le_walk ht
    exact ⟨k, w, hw, le_antisymm (by omega) (h.le_link hw (by omega))⟩

end SttRuby.Lib
