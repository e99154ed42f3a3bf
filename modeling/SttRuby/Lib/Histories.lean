import Mathlib.Data.Fintype.Basic

/-!
# Lib — Histories

Past-time operators on the history of a run, a list that grows at its end.  `Since P Q h` says that
something in `h` had `P` and everything after it has had `Q`; `Each P h` says that every element of
`h` had `P` together with what was before it.  Both are settled by the last element and what they
were without it (`since_snoc`, `each_snoc`).
-/

namespace SttRuby.Lib

variable {α : Type*} {P Q : α → Prop} {R : List α → α → Prop} {h : List α} {x : α}

/-- Something had `P`, and `Q` has held since. -/
def Since (P Q : α → Prop) (h : List α) : Prop :=
  ∃ p x q, h = p ++ x :: q ∧ P x ∧ ∀ y ∈ q, Q y

/-- Each element had `R` when it was added. -/
def Each (R : List α → α → Prop) (h : List α) : Prop := ∀ p x q, h = p ++ x :: q → R p x

/-- Where an element of a history with `x` at its end is. -/
theorem snoc_eq_append_cons {p q : List α} {y : α} (heq : h ++ [x] = p ++ y :: q) :
    (p = h ∧ y = x) ∨ ∃ q', h = p ++ y :: q' ∧ q = q' ++ [x] := by
  rcases List.eq_nil_or_concat q with rfl | ⟨q', z, rfl⟩
  · obtain ⟨rfl, hxy⟩ := List.append_inj' heq rfl
    exact .inl ⟨rfl, by simpa using hxy.symm⟩
  · rw [List.concat_eq_append, ← List.cons_append, ← List.append_assoc] at heq
    obtain ⟨rfl, hxz⟩ := List.append_inj' heq rfl
    obtain rfl : x = z := by simpa using hxz
    exact .inr ⟨q', rfl, by simp⟩

theorem not_since_nil : ¬ Since P Q [] := by
  rintro ⟨p, x, q, h, -⟩
  exact absurd h.symm (by simp)

theorem since_snoc : Since P Q (h ++ [x]) ↔ P x ∨ Since P Q h ∧ Q x := by
  constructor
  · rintro ⟨p, y, q, heq, hy, hq⟩
    obtain ⟨rfl, rfl⟩ | ⟨q', rfl, rfl⟩ := snoc_eq_append_cons heq
    · exact .inl hy
    · exact .inr ⟨⟨p, y, q', rfl, hy, fun w hw => hq w (by simp [hw])⟩, hq x (by simp)⟩
  · rintro (hx | ⟨⟨p, y, q, rfl, hy, hq⟩, hx⟩)
    · exact ⟨h, x, [], rfl, hx, by simp⟩
    · refine ⟨p, y, q ++ [x], by simp, hy, fun w hw => ?_⟩
      rcases List.mem_append.mp hw with hw | hw
      · exact hq w hw
      · obtain rfl := List.mem_singleton.mp hw
        exact hx

theorem each_nil : Each R [] := by
  intro p x q h
  exact absurd h.symm (by simp)

theorem each_snoc : Each R (h ++ [x]) ↔ Each R h ∧ R h x := by
  constructor
  · intro hR
    exact ⟨fun p y q hq => hR p y (q ++ [x]) (by simp [hq]), hR h x [] rfl⟩
  · rintro ⟨hR, hx⟩ p y q heq
    obtain ⟨rfl, rfl⟩ | ⟨q', rfl, -⟩ := snoc_eq_append_cons heq
    · exact hx
    · exact hR p y q' rfl

theorem since_iff : Since P Q h ↔ ∃ k : Fin h.length, P (h.get k) ∧ ∀ y ∈ h.drop (k + 1), Q y := by
  constructor
  · rintro ⟨p, x, q, rfl, hx, hq⟩
    refine ⟨⟨p.length, by simp⟩, by simpa using hx, fun y hy => hq y ?_⟩
    simpa using hy
  · rintro ⟨k, hk, hq⟩
    exact ⟨h.take k, h.get k, h.drop (k + 1), by simp, hk, hq⟩

theorem each_iff : Each R h ↔ ∀ k : Fin h.length, R (h.take k) (h.get k) := by
  constructor
  · intro hR k
    exact hR _ _ (h.drop (k + 1)) (by simp)
  · rintro hR p x q rfl
    simpa using hR ⟨p.length, by simp⟩

instance [DecidablePred P] [DecidablePred Q] : Decidable (Since P Q h) :=
  decidable_of_iff _ since_iff.symm

instance [∀ p x, Decidable (R p x)] : Decidable (Each R h) := decidable_of_iff _ each_iff.symm

theorem Since.append {h' : List α} (hs : Since P Q h) (hQ : ∀ y ∈ h', Q y) :
    Since P Q (h ++ h') := by
  obtain ⟨p, x, q, rfl, hx, hq⟩ := hs
  refine ⟨p, x, q ++ h', by simp, hx, fun y hy => ?_⟩
  rcases List.mem_append.mp hy with hy | hy
  · exact hq y hy
  · exact hQ y hy

/-- What has no `P` does not start anything. -/
theorem Since.of_append {h' : List α} (hP : ∀ y ∈ h', ¬ P y) (hs : Since P Q (h ++ h')) :
    Since P Q h := by
  obtain ⟨p, x, q, heq, hx, hq⟩ := hs
  rcases List.append_eq_append_iff.mp heq with ⟨a, rfl, rfl⟩ | ⟨a, rfl, ha⟩
  · exact absurd hx (hP x (by simp))
  · rcases a with _ | ⟨y, a⟩
    · have hx' : x ∈ h' := by
        rw [List.nil_append] at ha
        simp [← ha]
      exact absurd hx (hP x hx')
    · obtain ⟨rfl, rfl⟩ := List.cons_eq_cons.mp ha
      exact ⟨p, x, a, rfl, hx, fun z hz => hq z (by simp [hz])⟩

theorem Each.append {h' : List α} (hR : Each R h)
    (hR' : ∀ p x q, h' = p ++ x :: q → R (h ++ p) x) : Each R (h ++ h') := by
  intro p x q heq
  rcases List.append_eq_append_iff.mp heq with ⟨a, rfl, rfl⟩ | ⟨a, rfl, ha⟩
  · exact hR' a x q rfl
  · rcases a with _ | ⟨y, a⟩
    · rw [List.nil_append] at ha
      simpa using hR' [] x q ha.symm
    · obtain ⟨rfl, rfl⟩ := List.cons_eq_cons.mp ha
      exact hR p x a rfl

end SttRuby.Lib
