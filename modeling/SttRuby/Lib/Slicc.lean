import Mathlib.Logic.Basic

/-!
# Lib — Slicc

Controllers in the form the SLICC language gives them: a table of transitions, each from some
states on some events to a next state with a list of actions, and actions that are performed in
order and may fail.  `declared` is what a table says of a state and an event, `none` where the
generated code panics with an invalid transition; `perform` is the generated code's sequence of
actions, `none` where an assertion in one of them fails.
-/

namespace SttRuby.Lib

/-- One `transition(states, events, next) { actions }`; without a `next`, the state stays. -/
structure Rule (S E A : Type) where
  states : List S
  events : List E
  next : Option S
  actions : List A

section

variable {S E A C : Type} [DecidableEq S] [DecidableEq E]

/-- The next state and the actions a table declares. -/
def declared (table : List (Rule S E A)) (s : S) (e : E) : Option (S × List A) :=
  (table.find? fun r => r.states.contains s && r.events.contains e).map fun r =>
    (r.next.getD s, r.actions)

/-- A check of every state and event of every rule of a table is a check of what it declares. -/
theorem declared_check {table : List (Rule S E A)} {P : S → E → S → List A → Bool}
    (h : (table.all fun r => r.states.all fun s => r.events.all fun e =>
      P s e (r.next.getD s) r.actions) = true)
    {s s' : S} {e : E} {as : List A} (hd : declared table s e = some (s', as)) :
    P s e s' as = true := by
  obtain ⟨r, hr, heq⟩ := Option.map_eq_some_iff.mp hd
  obtain ⟨rfl, rfl⟩ := Prod.mk.injEq _ _ _ _ ▸ heq
  have hse := List.find?_some hr
  rw [Bool.and_eq_true, List.contains_iff_mem, List.contains_iff_mem] at hse
  have hall := List.all_eq_true.mp (List.all_eq_true.mp h r (List.mem_of_find?_eq_some hr)) s hse.1
  exact List.all_eq_true.mp hall e hse.2

/-- The actions in order, each on the context the ones before it left. -/
def perform (exec : A → C → Option C) : List A → C → Option C
  | [], c => some c
  | a :: as, c => (exec a c).bind (perform exec as)

theorem perform_append (exec : A → C → Option C) : ∀ (as bs : List A) (c : C),
    perform exec (as ++ bs) c = (perform exec as c).bind (perform exec bs)
  | [], _, _ => rfl
  | a :: as, bs, c => by
      rw [List.cons_append, perform, perform, Option.bind_assoc]
      exact congrArg (exec a c).bind (funext fun c' => perform_append exec as bs c')

/-- What every action of a sequence keeps, the sequence keeps. -/
theorem perform_induct_mem {P : C → Prop} {exec : A → C → Option C} :
    ∀ {as : List A} {c c' : C}, (∀ a ∈ as, ∀ c c', P c → exec a c = some c' → P c') → P c →
      perform exec as c = some c' → P c'
  | [], _, _, _, hc, hp => by cases hp; exact hc
  | a :: _, _, _, h, hc, hp => by
      obtain ⟨c₁, h₁, h₂⟩ := Option.bind_eq_some_iff.mp hp
      obtain ⟨ha, has⟩ := List.forall_mem_cons.mp h
      exact perform_induct_mem has (ha _ _ hc h₁) h₂

/-- What every action keeps, a sequence of actions keeps. -/
theorem perform_induct {P : C → Prop} {exec : A → C → Option C}
    (h : ∀ a c c', P c → exec a c = some c' → P c') {as : List A} {c c' : C} (hc : P c)
    (hp : perform exec as c = some c') : P c' :=
  perform_induct_mem (fun a _ => h a) hc hp

/-- An abstraction that commutes with every action commutes with a sequence of actions. -/
theorem perform_map {D : Type} {x : A → C → Option C} {y : A → D → Option D} {f : C → D}
    (h : ∀ a c c', x a c = some c' → y a (f c) = some (f c')) :
    ∀ {as : List A} {c c' : C}, perform x as c = some c' → perform y as (f c) = some (f c')
  | [], _, _, hp => by cases hp; rfl
  | _ :: _, _, _, hp => by
      obtain ⟨c₁, h₁, h₂⟩ := Option.bind_eq_some_iff.mp hp
      exact Option.bind_eq_some_iff.mpr ⟨f c₁, h _ _ _ h₁, perform_map h h₂⟩

/-- Actions that do nothing may be left out, and the others named by what they do. -/
theorem perform_filterMap {O : Type} (exec : A → C → Option C) (run : O → C → Option C)
    (op : A → Option O) (h : ∀ a c, exec a c = (op a).elim (some c) (run · c)) :
    ∀ (as : List A) (c : C), perform exec as c = perform run (as.filterMap op) c
  | [], _ => rfl
  | a :: as, c => by
      rw [perform, h]
      cases ha : op a with
      | none =>
          rw [List.filterMap_cons_none ha]
          exact perform_filterMap exec run op h as c
      | some o =>
          rw [List.filterMap_cons_some ha]
          exact congrArg (run o c).bind (funext fun c' => perform_filterMap exec run op h as c')

/-! ### Abstract interpretation

`R c d` says that `d` describes `c`, and `y` is an interpretation of the actions on descriptions. -/

/-- What a sequence leaves is described by what its interpretation leaves, if that is so of every
action. -/
theorem perform_sound {D : Type} {x : A → C → Option C} {y : A → D → Option D}
    {R : C → D → Prop} (h : ∀ a c c' d d', R c d → y a d = some d' → x a c = some c' → R c' d') :
    ∀ {as : List A} {c c' : C} {d d' : D}, R c d → perform y as d = some d' →
      perform x as c = some c' → R c' d'
  | [], _, _, _, _, hR, hy, hx => by cases hy; cases hx; exact hR
  | _ :: _, _, _, _, _, hR, hy, hx => by
      obtain ⟨c₁, hc₁, hc₂⟩ := Option.bind_eq_some_iff.mp hx
      obtain ⟨d₁, hd₁, hd₂⟩ := Option.bind_eq_some_iff.mp hy
      exact perform_sound h (h _ _ _ _ _ hR hd₁ hc₁) hd₂ hc₂

/-- A sequence whose interpretation goes through goes through, if that is so of every action. -/
theorem perform_total {D : Type} {x : A → C → Option C} {y : A → D → Option D}
    {R : C → D → Prop} :
    ∀ {as : List A} {c : C} {d d' : D},
      (∀ a ∈ as, ∀ c d d', R c d → y a d = some d' → ∃ c', x a c = some c' ∧ R c' d') → R c d →
      perform y as d = some d' → ∃ c', perform x as c = some c' ∧ R c' d'
  | [], c, _, _, _, hR, hy => by cases hy; exact ⟨c, rfl, hR⟩
  | _ :: _, _, _, _, h, hR, hy => by
      obtain ⟨d₁, hd₁, hd₂⟩ := Option.bind_eq_some_iff.mp hy
      obtain ⟨ha, has⟩ := List.forall_mem_cons.mp h
      obtain ⟨c₁, hc₁, hR₁⟩ := ha _ _ _ hR hd₁
      obtain ⟨c', hc', hR'⟩ := perform_total has hR₁ hd₂
      exact ⟨c', Option.bind_eq_some_iff.mpr ⟨c₁, hc₁, hc'⟩, hR'⟩

end

end SttRuby.Lib
