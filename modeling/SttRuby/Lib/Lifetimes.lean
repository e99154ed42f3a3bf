import Mathlib.Data.List.Nodup
import Mathlib.Logic.Function.Basic

/-!
# Lib — Lifetimes

The lifetimes of the occupants of a set of slots.  Every lifetime has a number of its own; a
`History` keeps the lifetime last begun in each slot, the lifetimes that have ended, each with a
flag of its end, and the lifetimes some counter has been charged for, in the order of the charges.

`Sound h live` relates a history to the slots that are occupied: an occupied slot's lifetime has
not ended, no two occupied slots share one, no lifetime ends twice, and the charges are the ends
whose flag was set.  `Sound.close` and `Sound.begin` are its rules for an occupant that leaves and
is charged by its flag, and for a new one.
-/

namespace SttRuby.Lib

/-- The lifetimes of the occupants of the slots `κ`. -/
structure History (κ : Type*) where
  lifetime : κ → ℕ
  begun : ℕ
  ended : List (ℕ × Bool)
  charged : List ℕ

namespace History

variable {κ : Type*} {h : History κ} {live live' : κ → Prop} {k : κ}

/-- Nothing has begun. -/
def empty : History κ := ⟨fun _ => 0, 0, [], []⟩

/-- The lifetimes that have ended, in the order of their ends. -/
def past (h : History κ) : List ℕ := h.ended.map (·.1)

/-- Those that ended with their flag set. -/
def flagged (h : History κ) : List ℕ := (h.ended.filter (·.2)).map (·.1)

/-- The lifetime last begun in the slot is charged, if the flag is set. -/
def charge (h : History κ) (k : κ) (flag : Bool) : History κ :=
  { h with charged := h.charged ++ if flag then [h.lifetime k] else [] }

theorem charge_length (h : History κ) (k : κ) (flag : Bool) :
    (h.charge k flag).charged.length = h.charged.length + if flag then 1 else 0 := by
  cases flag <;> simp [charge]

/-- The lifetime last begun in the slot ends. -/
def close (h : History κ) (k : κ) (flag : Bool) : History κ :=
  { h with ended := h.ended ++ [(h.lifetime k, flag)] }

/-- A lifetime begins in the slot. -/
def begin [DecidableEq κ] (h : History κ) (k : κ) : History κ :=
  { h with lifetime := Function.update h.lifetime k h.begun, begun := h.begun + 1 }

/-- The history of slots of which the `live` ones are occupied. -/
structure Sound (h : History κ) (live : κ → Prop) : Prop where
  lt : ∀ {k}, live k → h.lifetime k < h.begun
  unended : ∀ {k}, live k → h.lifetime k ∉ h.past
  injective : ∀ {k k'}, live k → live k' → h.lifetime k = h.lifetime k' → k = k'
  past_lt : ∀ {n}, n ∈ h.past → n < h.begun
  nodup : h.past.Nodup
  charged : h.charged = h.flagged

theorem Sound.empty : (empty : History κ).Sound fun _ => False where
  lt h := h.elim
  unended h := h.elim
  injective h := h.elim
  past_lt h := by simp [History.empty, past] at h
  nodup := by simp [History.empty, past]
  charged := rfl

theorem Sound.congr (hs : h.Sound live) (hl : ∀ k, live' k ↔ live k) : h.Sound live' := by
  obtain rfl : live' = live := funext fun k => propext (hl k)
  exact hs

/-- No lifetime is charged twice. -/
theorem Sound.charged_nodup (hs : h.Sound live) : h.charged.Nodup := by
  rw [hs.charged]
  exact hs.nodup.sublist (List.filter_sublist.map _)

/-- An occupant leaves, and is charged for if its flag is set. -/
theorem Sound.close (hs : h.Sound live) (hk : live k) (flag : Bool) :
    ((h.charge k flag).close k flag).Sound fun k' => k' ≠ k ∧ live k' := by
  have hpast : ((h.charge k flag).close k flag).past = h.past ++ [h.lifetime k] := by
    simp [History.close, charge, past]
  refine ⟨fun h' => hs.lt h'.2, fun h' hmem => ?_, fun h₁ h₂ => hs.injective h₁.2 h₂.2,
    fun hmem => ?_, ?_, ?_⟩
  · rw [hpast] at hmem
    rcases List.mem_append.mp hmem with hold | hnew
    · exact hs.unended h'.2 hold
    · exact h'.1 (hs.injective h'.2 hk (List.mem_singleton.mp hnew))
  · rw [hpast] at hmem
    rcases List.mem_append.mp hmem with hold | hnew
    · exact hs.past_lt hold
    · rw [List.mem_singleton.mp hnew]
      exact hs.lt hk
  · rw [hpast, ← List.concat_eq_append]
    exact hs.nodup.concat (hs.unended hk)
  · have hc := hs.charged
    unfold flagged at hc ⊢
    cases flag <;> simp [History.close, charge, hc]

/-- A slot that is not occupied gets an occupant. -/
theorem Sound.begin [DecidableEq κ] (hs : h.Sound live) (hk : ¬ live k) :
    (h.begin k).Sound fun k' => k' = k ∨ live k' := by
  have hself : (h.begin k).lifetime k = h.begun := Function.update_self ..
  have hother : ∀ {k'}, live k' → (h.begin k).lifetime k' = h.lifetime k' := fun {k'} h' =>
    Function.update_of_ne (fun he : k' = k => hk (he ▸ h')) ..
  constructor
  · rintro k' (rfl | h')
    · rw [hself]
      exact Nat.lt_succ_self _
    · rw [hother h']
      exact Nat.lt_succ_of_lt (hs.lt h')
  · rintro k' (rfl | h')
    · rw [hself]
      exact fun hmem => Nat.lt_irrefl _ (hs.past_lt hmem)
    · rw [hother h']
      exact hs.unended h'
  · rintro k₁ k₂ (rfl | h₁) (rfl | h₂) he
    · rfl
    · rw [hself, hother h₂] at he
      exact absurd (hs.lt h₂) (he ▸ Nat.lt_irrefl _)
    · rw [hself, hother h₁] at he
      exact absurd (hs.lt h₁) (he ▸ Nat.lt_irrefl _)
    · rw [hother h₁, hother h₂] at he
      exact hs.injective h₁ h₂ he
  · exact fun hmem => Nat.lt_succ_of_lt (hs.past_lt hmem)
  · exact hs.nodup
  · exact hs.charged

end History

end SttRuby.Lib
