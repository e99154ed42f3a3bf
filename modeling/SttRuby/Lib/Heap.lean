import Mathlib.Data.Nat.Basic
import Mathlib.Logic.Function.Basic
import Mathlib.Tactic.SplitIfs

/-!
# Lib — Heap

Binary trees in heap numbering: the root is 0, and the children of the node `i` are `2 * i + 1`
and `2 * i + 2`.  The nodes below `m` are inner nodes and carry a bit that points to one of their
children; the nodes from `m` to `2 * m` are the leaves.

`descend` follows the bits from a node to a leaf (`descend_leaf`), and the bit of the leaf's parent
points to the leaf (`descend_points`).  `climb` goes from a node up to the root and rewrites the
bits on its way (`climb_above`, `climb_path`).  The two are inverse: when every bit on the way up
from a leaf points down that way, the descent from the root ends in the leaf (`descend_path`).
-/

namespace SttRuby.Lib.Heap

def parent (i : ℕ) : ℕ := (i - 1) / 2

/-- Whether a node is the right child of its parent. -/
def isRight (i : ℕ) : Bool := i % 2 == 0

/-- The left or the right child of a node. -/
def child (i : ℕ) (right : Bool) : ℕ := if right then 2 * i + 2 else 2 * i + 1

theorem parent_lt {i : ℕ} (h : 0 < i) : parent i < i := by
  unfold parent
  omega

theorem child_parent {i : ℕ} (h : 0 < i) : child (parent i) (isRight i) = i := by
  simp only [child, parent, isRight, beq_iff_eq]
  split_ifs <;> omega

theorem lt_child (i : ℕ) (right : Bool) : i < child i right := by
  unfold child
  split_ifs <;> omega

theorem parent_child (i : ℕ) (right : Bool) : parent (child i right) = i := by
  unfold parent child
  split_ifs <;> omega

theorem isRight_child (i : ℕ) (right : Bool) : isRight (child i right) = right := by
  cases right <;> simp [isRight, child]

theorem child_le {i m : ℕ} (h : i < m) (right : Bool) : child i right ≤ 2 * m := by
  unfold child
  split_ifs <;> omega

/-! ### The way up -/

/-- The nodes on the way from `ℓ` up to the root. -/
inductive Path (ℓ : ℕ) : ℕ → Prop where
  | start : Path ℓ ℓ
  | up {j : ℕ} (h : Path ℓ j) (hj : 0 < j) : Path ℓ (parent j)

theorem Path.le {ℓ i : ℕ} (h : Path ℓ i) : i ≤ ℓ := by
  induction h with
  | start => exact le_rfl
  | up _ hj ih => exact Nat.le_trans (Nat.le_of_lt (parent_lt hj)) ih

theorem Path.root {ℓ i : ℕ} (h : Path ℓ i) : Path ℓ 0 := by
  induction i using Nat.strongRecOn with
  | ind i ih =>
      rcases Nat.eq_zero_or_pos i with rfl | hi
      · exact h
      · exact ih (parent i) (parent_lt hi) (h.up hi)

/-- A node on the way that is not where it starts was reached from one of its children. -/
theorem Path.from_child {ℓ i : ℕ} (h : Path ℓ i) (hi : i ≠ ℓ) :
    ∃ j, Path ℓ j ∧ 0 < j ∧ parent j = i := by
  cases h with
  | start => exact absurd rfl hi
  | up h hj => exact ⟨_, h, hj, rfl⟩

/-- The bits after the way up from `i`: `f` of the side each node is on, in its parent. -/
def climb (f : Bool → Bool) (bits : ℕ → Bool) (i : ℕ) : ℕ → Bool :=
  if 0 < i then climb f (Function.update bits (parent i) (f (isRight i))) (parent i) else bits
termination_by i
decreasing_by exact parent_lt ‹_›

variable {f : Bool → Bool} {m : ℕ}

/-- Only nodes below the start are rewritten. -/
theorem climb_above {i k : ℕ} (h : i ≤ k) : ∀ bits, climb f bits i k = bits k := by
  induction i using Nat.strongRecOn with
  | ind i ih =>
      intro bits
      rw [climb]
      split_ifs with hi
      · have hlt := parent_lt hi
        rw [ih (parent i) hlt (by omega), Function.update_of_ne (by omega)]
      · rfl

/-- The bit of each node on the way up is rewritten by the side it was reached from. -/
theorem climb_path {i j : ℕ} (h : Path i j) (hj : 0 < j) :
    ∀ bits, climb f bits i (parent j) = f (isRight j) := by
  induction i using Nat.strongRecOn generalizing j with
  | ind i ih =>
      intro bits
      have hi : 0 < i := Nat.lt_of_lt_of_le hj h.le
      rw [climb, if_pos hi]
      by_cases hji : j = i
      · subst hji
        rw [climb_above le_rfl, Function.update_self]
      · -- the way from `i` to another node passes through the parent of `i`
        have hpath : Path (parent i) j := by
          clear ih
          induction h with
          | start => exact absurd rfl hji
          | @up k hk hk0 ihk =>
              by_cases hki : k = i
              · subst hki
                exact .start
              · exact (ihk hk0 hki).up hk0
        exact ih (parent i) (parent_lt hi) hpath hj _

/-! ### The way down -/

/-- From a node down to a leaf, along the bits. -/
def descend (m : ℕ) (bits : ℕ → Bool) (i : ℕ) : ℕ :=
  if i < m then descend m bits (child i (bits i)) else i
termination_by m - i
decreasing_by have := lt_child i (bits i); omega

variable {bits : ℕ → Bool}

theorem descend_of_ge {i : ℕ} (h : m ≤ i) : descend m bits i = i := by
  rw [descend, if_neg (by omega)]

theorem descend_of_lt {i : ℕ} (h : i < m) :
    descend m bits i = descend m bits (child i (bits i)) := by
  rw [descend, if_pos h]

/-- The descent ends in a leaf. -/
theorem descend_leaf {i : ℕ} (h : i ≤ 2 * m) :
    m ≤ descend m bits i ∧ descend m bits i ≤ 2 * m := by
  induction i using descend.induct m bits with
  | case1 i hi ih =>
      rw [descend_of_lt hi]
      exact ih (child_le hi _)
  | case2 i hi =>
      rw [descend_of_ge (by omega)]
      exact ⟨by omega, h⟩

/-- The bit of the parent of the leaf it ends in points to the leaf. -/
theorem descend_points {i : ℕ} (h : i < m) :
    bits (parent (descend m bits i)) = isRight (descend m bits i) := by
  induction i using descend.induct m bits with
  | case1 i hi ih =>
      rw [descend_of_lt hi]
      by_cases hc : child i (bits i) < m
      · exact ih hc
      · rw [descend_of_ge (by omega), parent_child, isRight_child]
  | case2 i hi => exact absurd h hi

/-- A descent along bits that point to the leaf `ℓ`, from a node on the way up from `ℓ`. -/
theorem descend_path {ℓ i : ℕ} (hm : m ≤ ℓ) (hl : ℓ ≤ 2 * m)
    (hbits : ∀ j, Path ℓ j → 0 < j → bits (parent j) = isRight j) (h : Path ℓ i) :
    descend m bits i = ℓ := by
  induction i using descend.induct m bits with
  | case1 i hi ih =>
      rw [descend_of_lt hi]
      obtain ⟨j, hj, hj0, rfl⟩ := h.from_child (by omega)
      rw [hbits j hj hj0, child_parent hj0] at ih ⊢
      exact ih hj
  | case2 i hi =>
      rw [descend_of_ge (by omega)]
      by_contra hne
      -- the nodes above a leaf are inner nodes
      obtain ⟨j, hj, hj0, rfl⟩ := h.from_child hne
      have hjl := hj.le
      unfold parent at hi
      omega

end SttRuby.Lib.Heap
