import Mathlib.Algebra.BigOperators.Group.List.Basic
import Mathlib.Algebra.GroupWithZero.Nat
import Mathlib.Data.List.AList

/-!
# Lib — Tables

Tables of queues: finite maps from keys to lists, in which an entry that becomes empty is erased.
`queue` reads a queue, `set` replaces it, `has` asks for an entry, and `total` counts what all the
queues hold (`elems`).
-/

namespace SttRuby.Lib

open scoped List

/-- A table of queues, none of which is empty. -/
structure Table (κ α : Type*) [DecidableEq κ] where
  map : AList fun _ : κ => List α
  ne_nil : ∀ k, some [] ≠ map.lookup k

namespace Table

variable {κ α : Type*} [DecidableEq κ]

def empty : Table κ α := ⟨∅, fun _ => by simp⟩

variable (t : Table κ α) (k k' : κ) (l : List α)

/-- The queue at a key; without an entry, nothing is queued. -/
def queue : List α := (t.map.lookup k).getD []

def has : Bool := (t.map.lookup k).isSome

/-- The queue at `k` becomes `l`; an empty queue has no entry. -/
def set : Table κ α :=
  if h : l = [] then
    ⟨t.map.erase k, fun k' => by
      rcases eq_or_ne k' k with rfl | hk
      · simp
      · simpa [AList.lookup_erase_ne hk] using t.ne_nil k'⟩
  else
    ⟨t.map.insert k l, fun k' => by
      rcases eq_or_ne k' k with rfl | hk
      · simpa using Ne.symm h
      · simpa [AList.lookup_insert_ne hk] using t.ne_nil k'⟩

/-- What all the queues hold. -/
def elems : List α := t.map.entries.flatMap fun e => e.2

/-- The number of elements of all the queues. -/
def total : ℕ := (t.map.entries.map fun e => e.2.length).sum

/-- A check of everything in the queues. -/
def all (p : α → Bool) : Bool := t.map.entries.all fun e => e.2.all p

@[simp] theorem queue_empty : (empty : Table κ α).queue k = [] := by simp [queue, empty]

@[simp] theorem total_empty : (empty : Table κ α).total = 0 := rfl

/-- An entry is one with something in it. -/
theorem has_iff : t.has k = true ↔ t.queue k ≠ [] := by
  have h := t.ne_nil k
  unfold has queue
  cases hl : t.map.lookup k with
  | none => simp
  | some l =>
      rw [hl] at h
      simpa using Ne.symm fun he => h (congrArg some he)

theorem queue_set : (t.set k l).queue k' = if k' = k then l else t.queue k' := by
  unfold queue set
  rcases eq_or_ne k' k with rfl | hk
  · rw [if_pos rfl]
    split_ifs with hl <;> simp [hl]
  · rw [if_neg hk]
    split_ifs <;> simp [AList.lookup_erase_ne hk, AList.lookup_insert_ne hk]

@[simp] theorem queue_set_self : (t.set k l).queue k = l := by simp [queue_set]

theorem queue_set_of_ne {k k' : κ} (h : k' ≠ k) : (t.set k l).queue k' = t.queue k' := by
  simp [queue_set, h]

/-- Erasing the entry at a key takes its elements away. -/
theorem flatMap_kerase : ∀ es : List (Sigma fun _ : κ => List α),
    (es.flatMap fun e => e.2) ~ (es.dlookup k).getD [] ++ (es.kerase k).flatMap fun e => e.2
  | [] => .refl _
  | ⟨k', l'⟩ :: es => by
      by_cases h : k = k'
      · subst h
        simp
      · rw [List.kerase_cons_ne h, List.dlookup_cons_ne _ _ h, List.flatMap_cons, List.flatMap_cons]
        exact ((flatMap_kerase es).append_left l').trans (List.perm_append_comm_assoc _ _ _)

/-- Replacing a queue exchanges its elements. -/
theorem elems_set : t.queue k ++ (t.set k l).elems ~ l ++ t.elems := by
  have h : t.elems ~ t.queue k ++ (t.map.entries.kerase k).flatMap fun e => e.2 :=
    flatMap_kerase k t.map.entries
  have hset : (t.set k l).elems ~ l ++ (t.map.entries.kerase k).flatMap fun e => e.2 := by
    unfold set
    split_ifs with hl
    · subst hl
      exact .refl _
    · exact .refl _
  exact (hset.append_left _).trans
    ((List.perm_append_comm_assoc _ _ _).trans (h.symm.append_left l))

theorem elems_snoc (x : α) : (t.set k (t.queue k ++ [x])).elems ~ x :: t.elems := by
  have h := t.elems_set k (t.queue k ++ [x])
  rw [List.append_assoc] at h
  exact (List.perm_append_left_iff _).mp h

theorem elems_clear : t.queue k ++ (t.set k []).elems ~ t.elems := t.elems_set k []

theorem total_eq : t.total = t.elems.length := (List.length_flatMap ..).symm

/-- Replacing a queue changes the total by the difference of the two. -/
theorem total_set : (t.set k l).total + (t.queue k).length = t.total + l.length := by
  have h := (t.elems_set k l).length_eq
  rw [List.length_append, List.length_append, ← total_eq, ← total_eq] at h
  omega

theorem of_all {t : Table κ α} {p : α → Bool} (h : t.all p = true) {k : κ} {x : α}
    (hx : x ∈ t.queue k) : p x = true := by
  unfold queue at hx
  cases hl : t.map.lookup k with
  | none => rw [hl] at hx; cases hx
  | some l =>
      rw [hl, Option.getD_some] at hx
      exact List.all_eq_true.mp (List.all_eq_true.mp h ⟨k, l⟩ (List.of_mem_dlookup hl)) x hx

theorem length_queue_le : (t.queue k).length ≤ t.total := by
  have h := t.total_set k []
  rw [List.length_nil] at h
  omega

/-- Where something is queued, there is a key with it. -/
theorem exists_queue {t : Table κ α} (h : 0 < t.total) : ∃ k, t.queue k ≠ [] := by
  rcases t with ⟨⟨_ | ⟨⟨k, l⟩, es⟩, hnd⟩, hne⟩
  · simp [total] at h
  · refine ⟨k, fun hq => hne k ?_⟩
    have hl : AList.lookup k ⟨⟨k, l⟩ :: es, hnd⟩ = some l := List.dlookup_cons_eq es k l
    rw [queue, hl, Option.getD_some] at hq
    rw [hl, hq]

end Table

end SttRuby.Lib
