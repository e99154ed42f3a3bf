import SttRuby.Protocol.Lines

/-!
# Protocol — Refresh

The stores to the data array of the L2 and the refreshes of its cells.  `stores` runs the
controller with, for each address, the tick of the last transition that has overwritten the
`DataBlk` of the entry resident there.

Of the two actions that store to `DataBlk`, `m_writeDataToCache` records a `DataArrayWrite` and
`mr_writeDataToCacheFromRequest` does not.  The second is taken for an `L1_PUTX` in `MT`, and stores
if the message is dirty (`Bank.putsBack`).  In a run without such a message every resident entry was
refreshed when its data were last overwritten, or later (`refresh_covers_stores`); with one, the
entry keeps the decay timer of the data it no longer holds (`put_not_refreshed`).
-/

namespace SttRuby.Protocol.L2Cache

open Cache CacheMemory

variable {n B : ℕ} {ρ : Type} {p : Params} {rp : ReplacementPolicy ρ}

/-- The action overwrites the data of the entry. -/
def Action.storesData (inp : In n B) : Action → Bool
  | .m_writeDataToCache => true
  | .mr_writeDataToCacheFromRequest => inp.request.any (·.Dirty)
  | _ => false

/-- The tick of the last store to a line's entry, after a transition at `now` and given the tick
before it; an entry that has just been allocated has none. -/
def lastStore (now : Tick) (inp : In n B) (l : Line n B) (actions : List Action) (t : Tick) :
    Tick :=
  if actions.any (·.storesData inp) then now
  else if .qq_allocateL2CacheBlock ∈ actions ∧ l.entry.isNone then 0 else t

/-- The controller, with the last store to each resident entry. -/
def stores (p : Params) (rp : ReplacementPolicy ρ) (n B : ℕ) (r : ρ) :
    Lib.Machine (Bank n B ρ × (Addr → Tick)) (Arrival n B) where
  start s := s = (⟨CacheMemory.init p r, fun _ => none⟩, fun _ => 0)
  step s x := (s.1.portIn p rp x).bind fun (b, triggered) =>
    match triggered with
    | none => some (b, s.2)
    | some (e, a) => (b.doTransition p rp x.now x.slots x.port.inp e a).map fun (b', done) =>
        (b', match done, transition (b.line a).getState e with
          | some _, some (_, actions) =>
              Function.update s.2 a (lastStore x.now x.port.inp (b.line a) actions (s.2 a))
          | _, _ => s.2)

/-- The ticks are an account of the controller's run, and have no part in it. -/
theorem stores_step {r : ρ} {b : Bank n B ρ} {w : Addr → Tick} {x : Arrival n B} :
    ((stores p rp n B r).step (b, w) x).map Prod.fst = (bank p rp n B r).step b x := by
  simp only [stores, bank, Bank.process]
  cases b.portIn p rp x with
  | none => rfl
  | some t =>
      obtain ⟨b', _ | ⟨e, a⟩⟩ := t
      · rfl
      · simp [Function.comp_def]

/-- The message is a dirty PUTX of a sharer, for a line in `MT`. -/
def Bank.putsBack (p : Params) (rp : ReplacementPolicy ρ) (b : Bank n B ρ) (x : Arrival n B) :
    Bool :=
  x.port.inp.request.any (·.Dirty) &&
    match b.portIn p rp x with
    | some (_, some (.L1_PUTX, a)) => decide ((b.line a).getState = .MT)
    | _ => false

/-- Where the table has the two actions that are no match: the store that is not recorded, and the
allocation. -/
theorem store_rules {st next : State} {e : Event} {actions : List Action}
    (htr : transition st e = some (next, actions)) :
    (.mr_writeDataToCacheFromRequest ∈ actions → st = .MT ∧ e = .L1_PUTX) ∧
    (.qq_allocateL2CacheBlock ∈ actions → writesData actions = false) := by
  have hc := Lib.declared_check (P := fun st e _ as =>
    (!as.contains .mr_writeDataToCacheFromRequest || (st == .MT && e == .L1_PUTX)) &&
    (!as.contains .qq_allocateL2CacheBlock || !writesData as)) (by decide +kernel) htr
  simp only [Bool.and_eq_true, Bool.or_eq_true, Bool.not_eq_true', List.contains_eq_mem,
    decide_eq_false_iff_not, beq_iff_eq] at hc
  tauto

/-- Every resident entry was refreshed at its last store or later. -/
def Refreshed (s : Bank n B ρ × (Addr → Tick)) : Prop :=
  ∀ a, ∀ y ∈ s.1.L2cache.held a, s.2 a ≤ y.2

/-- Unless it puts a dirty block back, a transition stores if and only if it records a data
write. -/
theorem stores_iff_writes {inp : In n B} {actions : List Action}
    (hclean : .mr_writeDataToCacheFromRequest ∈ actions → inp.request.any (·.Dirty) = false) :
    actions.any (·.storesData inp) = writesData actions := by
  rw [Bool.eq_iff_iff, writesData, List.any_eq_true, List.any_eq_true]
  constructor
  · rintro ⟨x, hx, hst⟩
    cases x <;> simp only [Action.storesData, Bool.false_eq_true] at hst
    case m_writeDataToCache => exact ⟨_, hx, by decide⟩
    case mr_writeDataToCacheFromRequest => rw [hclean hx] at hst; cases hst
  · rintro ⟨x, hx, hrec⟩
    obtain rfl : x = .m_writeDataToCache := by revert hrec; cases x <;> decide
    exact ⟨_, hx, rfl⟩

/-- A transition keeps every entry's refresh at or after its last store. -/
theorem Refreshed.doTransition {b b' : Bank n B ρ} {w : Addr → Tick} {now : Tick} {slots : Bool}
    {inp : In n B} {e : Event} {a : Addr} {k : Ctx n B} {next : State} {actions : List Action}
    (h : Refreshed (b, w)) (htr : transition (b.line a).getState e = some (next, actions))
    (hclean : .mr_writeDataToCacheFromRequest ∈ actions → inp.request.any (·.Dirty) = false)
    (hb : b.doTransition p rp now slots inp e a = some (b', some k)) :
    Refreshed (b', Function.update w a (lastStore now inp (b.line a) actions (w a))) := by
  intro x y hy
  by_cases hx : x = a
  · subst hx
    simp only [Function.update_self, lastStore, stores_iff_writes hclean]
    by_cases hfill : .qq_allocateL2CacheBlock ∈ actions ∧ (b.line x).entry.isNone = true
    · -- the entry is new, and its transition stores no data
      simp [(store_rules htr).2 hfill.1, hfill]
    · -- the refresh of the entry before the transition, if there was one
      obtain ⟨t, ht, hle⟩ : ∃ t, (∀ y ∈ b.L2cache.held x, y.2 = t) ∧ w x ≤ t := by
        cases hh : b.L2cache.held x with
        | none => exact ⟨w x, nofun, le_refl _⟩
        | some z => exact ⟨z.2, fun y hy => by rw [Option.some.inj hy], h x z hh⟩
      have hent : .qq_allocateL2CacheBlock ∈ actions → (b.line x).entry.isSome = true :=
        fun hal => by
          by_contra hnone
          exact hfill ⟨hal, by simpa using hnone⟩
      obtain ⟨-, -, htick⟩ := Bank.doTransition_held ht htr hent hb
      rw [htick y hy]
      split_ifs
      · exact le_refl _
      · exact hle
  · dsimp only at hy ⊢
    rw [Function.update_of_ne hx]
    rw [(Bank.doTransition_elsewhere hb).1 x hx] at hy
    exact h x y hy

theorem refreshed_of_reach {r : ρ} {s : Bank n B ρ × (Addr → Tick)}
    (h : (stores p rp n B r).Reach (fun s x => s.1.putsBack p rp x = false) s) : Refreshed s := by
  refine h.invariant ?_ ?_
  · rintro s rfl a y hy
    exact Nat.zero_le _
  · rintro ⟨b, w⟩ x s' hI hclean hs
    obtain ⟨⟨b₁, t⟩, hport, hs⟩ := Option.bind_eq_some_iff.mp hs
    obtain ⟨hquiet, -⟩ := Bank.portIn_quiet hport
    have h₁ : Refreshed (b₁, w) := fun a y hy => hI a y (hquiet.held a ▸ hy)
    cases t with
    | none =>
        cases hs
        exact h₁
    | some t =>
        obtain ⟨e, a⟩ := t
        obtain ⟨⟨b', done⟩, hb, hs⟩ := Option.map_eq_some_iff.mp hs
        cases done with
        | none =>
            cases hs
            rw [Bank.doTransition_stall hb]
            exact h₁
        | some k =>
            cases htr : transition (b₁.line a).getState e with
            | none => simp [Bank.doTransition, htr] at hb
            | some t =>
                obtain ⟨next, actions⟩ := t
                rw [htr] at hs
                cases hs
                refine h₁.doTransition htr (fun hput => ?_) hb
                obtain ⟨hst, rfl⟩ := (store_rules htr).1 hput
                rw [Bank.portIn_line hport] at hst
                simpa [Bank.putsBack, hport, hst] using hclean

/-- **Every recorded store refreshes.**  In a run of the controller without a dirty PUTX for a line
in `MT`, every resident entry was refreshed when its data were last overwritten, or later.  Every
transition that stores data records a data write, except an `L1_PUTX` in `MT`. -/
theorem refresh_covers_stores {r : ρ} {b : Bank n B ρ} {w : Addr → Tick}
    (h : (stores p rp n B r).Reach (fun s x => s.1.putsBack p rp x = false) (b, w)) :
    (∀ a e, b.L2cache.lookupConst a = some e → w a ≤ e.m_last_refresh_tick) ∧
    ∀ st ev next actions, transition st ev = some (next, actions) →
      (.m_writeDataToCache ∈ actions ∨ .mr_writeDataToCacheFromRequest ∈ actions) →
      writesData actions = true ∨ st = .MT ∧ ev = .L1_PUTX := by
  refine ⟨fun a e he => ?_, fun st ev next actions htr hst => ?_⟩
  · exact refreshed_of_reach h a (e.ext, e.m_last_refresh_tick) (by simp [held, he])
  · rcases hst with hm | hmr
    · exact .inl (List.any_eq_true.mpr ⟨_, hm, by decide⟩)
    · exact .inr ((store_rules htr).1 hmr)

/-- A line fetched and put back clean. -/
theorem refresh_covers_stores_clean :
    ∃ b w, (stores fourSets firstWay 1 1 ()).Reach
        (fun s x => s.1.putsBack fourSets firstWay x = false) (b, w) ∧ w 0 = 2 ∧
      ∃ e, b.L2cache.lookupConst 0 = some e ∧ w 0 ≤ e.m_last_refresh_tick := by
  obtain ⟨⟨b, w⟩, hb, hw, he⟩ := Lib.Machine.trace_reaches
    (M := stores fourSets firstWay 1 1 ())
    (G := fun s x => s.1.putsBack fourSets firstWay x = false) (l := fetchThenPut)
    (P := fun s => s.2 0 = 2 ∧ (s.1.L2cache.lookupConst 0).isSome = true) rfl (by decide +kernel)
  obtain ⟨e, he⟩ := Option.isSome_iff_exists.mp he
  exact ⟨b, w, hb, hw, e, he, (refresh_covers_stores hb).1 0 e he⟩

/-- The L1 puts the line back with data of its own. -/
def dirtyPut : RequestMsg 1 1 :=
  { type := .PUTX, Requestor := .L1Cache 0, DataBlk := fun _ => 8, Dirty := true }

/-- The same with the block dirty: the data of tick 4 have the refresh of tick 2. -/
theorem put_not_refreshed :
    ∃ b w, (stores fourSets firstWay 1 1 ()).Reach (fun _ _ => True) (b, w) ∧
      ∃ e, b.L2cache.lookupConst 0 = some e ∧ w 0 = 4 ∧ e.m_last_refresh_tick = 2 := by
  obtain ⟨⟨b, w⟩, hb, hw, he⟩ := Lib.Machine.trace_reaches
    (M := stores fourSets firstWay 1 1 ()) (G := fun _ _ => True)
    (l := fetchThenPut.take 3 ++ [{ now := 4, address := 0, port := .request dirtyPut }])
    (P := fun s => s.2 0 = 4 ∧ (s.1.L2cache.lookupConst 0).any
      (fun e => decide (e.m_last_refresh_tick = 2)) = true) rfl (by decide +kernel)
  obtain ⟨e, he, ht⟩ := (Option.any_eq_true _ _).mp he
  exact ⟨b, w, hb, e, he, hw, of_decide_eq_true ht⟩

end SttRuby.Protocol.L2Cache
