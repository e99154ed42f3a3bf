import Mathlib.Logic.Basic

/-!
# Lib — Runs

Partial-step machines and their runs.  A machine's step is a partial function of the state and
a label; a step that the modelled program refuses or does not survive has no successor.
`M.Run G s l s'` is a run from `s` to `s'` along the labels `l`, all of whose steps meet the
guard `G` in the state they leave; `M.Reach G s` says that some such run from a start state
ends in `s`.

* `Reach.invariant`: what the start states have and each guarded step keeps, every reached
  state has;
* `Reach.strengthen`: a guard may be replaced by what follows from it and an invariant;
* `Run.refines`: a relation to an abstract state that each step keeps relates the end of a run
  to the fold of the abstract step over its labels;
* `Run.simulates`: if every step is matched by a run of another machine, so is every run;
* `observe` lists what the steps of a run show; what a longer run shows is appended
  (`Run.observe_append`);
* `trace` runs a list of labels and checks the guard on the way; `trace_run` makes a run of
  what it computes.
-/

namespace SttRuby.Lib

/-- A machine: its start states and its partial step. -/
structure Machine (σ : Type*) (α : Type*) where
  start : σ → Prop
  step : σ → α → Option σ

namespace Machine

variable {σ α τ : Type*} {M : Machine σ α} {G H : σ → α → Prop}

/-- A run from `s₀` along a list of labels, every step of which meets `G`. -/
inductive Run (M : Machine σ α) (G : σ → α → Prop) (s₀ : σ) : List α → σ → Prop where
  | refl : Run M G s₀ [] s₀
  | snoc {l : List α} {s s' : σ} {a : α}
      (t : Run M G s₀ l s) (hg : G s a) (h : M.step s a = some s') : Run M G s₀ (l ++ [a]) s'

/-- `s` ends a run from a start state, every step of which meets `G`. -/
def Reach (M : Machine σ α) (G : σ → α → Prop) (s : σ) : Prop :=
  ∃ s₀ l, M.start s₀ ∧ Run M G s₀ l s

theorem Reach.init {s : σ} (h : M.start s) : M.Reach G s := ⟨s, [], h, .refl⟩

theorem Reach.snoc {s s' : σ} {a : α} (t : M.Reach G s) (hg : G s a)
    (h : M.step s a = some s') : M.Reach G s' := by
  obtain ⟨s₀, l, h₀, r⟩ := t
  exact ⟨s₀, l ++ [a], h₀, r.snoc hg h⟩

/-- **Invariants.**  A property of the start states that every step meeting `G` keeps holds in
every state reached by such steps. -/
theorem Reach.invariant {I : σ → Prop} (h₀ : ∀ s, M.start s → I s)
    (hs : ∀ s a s', I s → G s a → M.step s a = some s' → I s') {s : σ} (h : M.Reach G s) :
    I s := by
  obtain ⟨s₀, l, hst, r⟩ := h
  induction r with
  | refl => exact h₀ _ hst
  | snoc _ hg h ih => exact hs _ _ _ ih hg h

/-- A guard that follows from another with the help of an invariant. -/
theorem Reach.strengthen {I : σ → Prop} (h₀ : ∀ s, M.start s → I s)
    (hs : ∀ s a s', I s → G s a → M.step s a = some s' → I s')
    (hGH : ∀ s a, I s → G s a → H s a) {s : σ} (h : M.Reach G s) : M.Reach H s := by
  obtain ⟨s₀, l, hst, r⟩ := h
  induction r with
  | refl => exact .init hst
  | snoc t hg h ih =>
      exact ih.snoc (hGH _ _ (Reach.invariant h₀ hs ⟨s₀, _, hst, t⟩) hg) h

/-- **Refinement.**  A relation between states and abstract states that every step keeps, the
abstract side moving by `f`, relates the end of a run to the fold of `f` over its labels. -/
theorem Run.refines {R : σ → τ → Prop} {f : τ → α → τ} {s₀ s : σ} {t₀ : τ} {l : List α}
    (h₀ : R s₀ t₀) (hs : ∀ s a s' t, R s t → G s a → M.step s a = some s' → R s' (f t a))
    (r : M.Run G s₀ l s) : R s (l.foldl f t₀) := by
  induction r with
  | refl => exact h₀
  | snoc _ hg h ih => rw [List.foldl_append]; exact hs _ _ _ _ ih hg h

theorem Run.mono {s₀ s : σ} {l : List α} (hGH : ∀ s a, G s a → H s a) (r : M.Run G s₀ l s) :
    M.Run H s₀ l s := by
  induction r with
  | refl => exact .refl
  | snoc _ hg h ih => exact ih.snoc (hGH _ _ hg) h

theorem Reach.mono {s : σ} (hGH : ∀ s a, G s a → H s a) (h : M.Reach G s) : M.Reach H s := by
  obtain ⟨s₀, l, hst, r⟩ := h
  exact ⟨s₀, l, hst, r.mono hGH⟩

theorem Run.append {s₀ s₁ s : σ} {l l' : List α} (r : M.Run G s₀ l s₁) (r' : M.Run G s₁ l' s) :
    M.Run G s₀ (l ++ l') s := by
  induction r' with
  | refl => rwa [List.append_nil]
  | snoc _ hg h ih => rw [← List.append_assoc]; exact ih.snoc hg h

/-- **Simulation.**  If every step is matched by a run of another machine, so is every run; the
relation may speak of the labels of the matching run. -/
theorem Run.simulates {β : Type*} {N : Machine τ β} {K : τ → β → Prop}
    {R : σ → List β → τ → Prop} {s₀ s : σ} {t₀ : τ} {l : List α} (h₀ : R s₀ [] t₀)
    (hs : ∀ s a s' k t, R s k t → G s a → M.step s a = some s' →
      ∃ k' t', N.Run K t k' t' ∧ R s' (k ++ k') t')
    (r : M.Run G s₀ l s) : ∃ k t, N.Run K t₀ k t ∧ R s k t := by
  induction r with
  | refl => exact ⟨[], t₀, .refl, h₀⟩
  | snoc _ hg h ih =>
      obtain ⟨k, t, hk, hR⟩ := ih
      obtain ⟨k', t', hk', hR'⟩ := hs _ _ _ _ _ hR hg h
      exact ⟨k ++ k', t', hk.append hk', hR'⟩

/-! ### Observations -/

/-- What the steps along a list of labels show. -/
def observe {β : Type*} (M : Machine σ α) (obs : σ → α → List β) : σ → List α → List β
  | _, [] => []
  | s, a :: l => obs s a ++ (M.step s a).elim [] fun s' => M.observe obs s' l

theorem Run.observe_append {β : Type*} (obs : σ → α → List β) {s₀ s : σ} {l : List α}
    (r : M.Run G s₀ l s) (l' : List α) :
    M.observe obs s₀ (l ++ l') = M.observe obs s₀ l ++ M.observe obs s l' := by
  induction r generalizing l' with
  | refl => rfl
  | @snoc l s s' a _ _ h ih =>
      have hone (k : List α) : M.observe obs s (a :: k) = obs s a ++ M.observe obs s' k := by
        rw [observe, h]
        rfl
      rw [List.append_assoc, List.singleton_append, ih, ih, hone, hone, observe]
      simp

theorem Run.observe_snoc {β : Type*} (obs : σ → α → List β) {s₀ s : σ} {l : List α}
    (r : M.Run G s₀ l s) (a : α) :
    M.observe obs s₀ (l ++ [a]) = M.observe obs s₀ l ++ obs s a := by
  rw [r.observe_append]
  cases h : M.step s a <;> simp [observe, h]

/-! ### Running a list of labels -/

/-- Runs the labels in order, `none` as soon as one does not meet `G` or has no step. -/
def trace (M : Machine σ α) (G : σ → α → Prop) [∀ s a, Decidable (G s a)] :
    σ → List α → Option σ
  | s, [] => some s
  | s, a :: l => if G s a then (M.step s a).bind fun s' => M.trace G s' l else none

theorem trace_run [∀ s a, Decidable (G s a)] {l : List α} {s s' : σ}
    (h : M.trace G s l = some s') : M.Run G s l s' := by
  induction l generalizing s with
  | nil =>
      obtain rfl : s = s' := by simpa [trace] using h
      exact .refl
  | cons a l ih =>
      rw [trace] at h
      split at h
      · next hg =>
          obtain ⟨s₁, h₁, h₂⟩ := Option.bind_eq_some_iff.mp h
          exact Run.append (l := [a]) (Run.refl.snoc hg h₁) (ih h₂)
      · cases h

/-- A property of the state a list of labels leads to, checked by running them. -/
theorem trace_exists [∀ s a, Decidable (G s a)] {P : σ → Prop} [DecidablePred P] {l : List α}
    {s : σ} (h : (M.trace G s l).any (fun s' => decide (P s')) = true) :
    ∃ s', M.Run G s l s' ∧ P s' := by
  cases hs : M.trace G s l with
  | none => rw [hs] at h; cases h
  | some s' => rw [hs] at h; exact ⟨s', trace_run hs, of_decide_eq_true h⟩

theorem trace_reaches [∀ s a, Decidable (G s a)] {P : σ → Prop} [DecidablePred P] {l : List α}
    {s : σ} (h₀ : M.start s) (h : (M.trace G s l).any (fun s' => decide (P s')) = true) :
    ∃ s', M.Reach G s' ∧ P s' := by
  obtain ⟨s', hr, hp⟩ := trace_exists h
  exact ⟨s', ⟨s, l, h₀, hr⟩, hp⟩

end Machine

end SttRuby.Lib
