import Mathlib.Tactic.SplitIfs
import SttRuby.Cache.Index
import SttRuby.Lib.Lifetimes

/-!
# Cache — Zombies

`m_zombies_collected`, against the lifetimes of the blocks.  A lifetime begins when `allocate`
places an address in a way, and ends when `deallocate` takes the address away or a second
`allocate` of it reuses the way.  The counter goes up in three places: in both of these when the
entry is marked expired, and when `allocate` fills a way with an entry that `deallocate` left
there, marked or not since.

`lifetimes` runs a cache with the history of its lifetimes beside it, charged wherever the counter
goes up (`Accounted.call`).

* `zombies_collected_once`: as long as no way is filled while its old entry is still marked, the
  counter is the number of lifetimes that ended expired, each charged once;
* `zombie_collected_twice`: `deallocate` counts an expired block and leaves it marked, and the
  `allocate` that fills its way counts it again.
-/

namespace SttRuby.Cache

open Lib (History)

namespace CacheMemory

variable {ε ρ : Type*} {p : Params} {rp : ReplacementPolicy ρ} {s s' : CacheMemory ε ρ}

/-- The entry in the way is marked expired. -/
def expiredAt (s : CacheMemory ε ρ) (slot : ℕ × ℕ) : Bool :=
  (s.m_cache slot.1 slot.2).any (·.m_is_expired)

/-- The way holds a block. -/
def Occupied (s : CacheMemory ε ρ) (slot : ℕ × ℕ) : Prop := ∃ a x, s.Live slot.1 slot.2 a x

theorem Kept.occupied (h : s.Kept s') (slot : ℕ × ℕ) : s'.Occupied slot ↔ s.Occupied slot :=
  exists_congr fun a => exists_congr fun x => h.live slot.1 slot.2 a x

/-! ### The counter -/

theorem collect_zombies (s : CacheMemory ε ρ) (i j : ℕ) :
    (s.collect (s.m_cache i j)).m_zombies_collected =
      s.stats.m_zombies_collected + if s.expiredAt (i, j) then 1 else 0 := by
  unfold collect expiredAt
  cases he : s.m_cache i j with
  | none => simp
  | some e => by_cases hx : e.m_is_expired <;> simp [hx]

theorem record_zombies (s : CacheMemory ε ρ) (now : Tick) (t : CacheRequestType) (a : Addr) :
    (s.recordRequestType p now t a).stats.m_zombies_collected = s.stats.m_zombies_collected := by
  obtain ⟨-, -, -, jumps, hstats⟩ :=
    recordEntry_frame (p := p) (s.countAccess p a) now t a (s.addressToCacheSet p a)
  refine (recordUse_frame _ now t a _).zombies.trans ?_
  rw [hstats]
  rfl

theorem lookup_stats (s : CacheMemory ε ρ) (now : Tick) (a : Addr) :
    (s.lookup now a).1.stats = s.stats := by
  unfold lookup; split <;> rfl

theorem setMRU_stats (s : CacheMemory ε ρ) (now : Tick) (a : Addr) :
    (s.setMRU p rp now a).stats = s.stats := by
  simp only [setMRU]
  split <;> exact lookup_stats s now _

theorem setMRUEntry_stats (s : CacheMemory ε ρ) (now : Tick) (a : Addr) :
    (s.setMRUEntry rp now a).stats = s.stats := by
  unfold setMRUEntry; split <;> rfl

theorem tryCacheAccess_stats (s : CacheMemory ε ρ) (now : Tick) (a : Addr) (r : Bool) :
    (s.tryCacheAccess rp now a r).1.stats = s.stats := by
  unfold tryCacheAccess
  split <;> exact lookup_stats s now a

theorem changePermission_stats (s : CacheMemory ε ρ) (a : Addr) (perm : AccessPermission) :
    (s.changePermission a perm).stats = s.stats := by
  unfold changePermission; split <;> rfl

/-- A reused way holds the block it held. -/
theorem reuse_kept (h : s.Indexed p) {i j : ℕ} {a : Addr} {x : ε} (hl : s.Live i j a x)
    (now : Tick) : s.Kept (s.reuse p rp now a i j) := by
  refine ⟨?_, fun i' j' b y => ?_⟩
  · simp only [reuse]
    rw [← (h.live_index hl).1, Function.update_eq_self]
  · obtain ⟨e, he, -, hn, -⟩ := hl
    by_cases hij : i' = i ∧ j' = j
    · obtain ⟨rfl, rfl⟩ := hij
      simp [Live, reuse, modify, he, hn]
    · simp only [Live, reuse, modify, if_neg hij]

end CacheMemory

open CacheMemory

variable {ε ρ : Type*} {p : Params} {rp : ReplacementPolicy ρ} {s s' : CacheMemory ε ρ}

/-! ### A cache and the history of its lifetimes -/

/-- The history after a call on the cache `s`: `allocate` ends and charges the lifetime of the
address if its way is reused, charges the entry it finds in the way it fills, and begins a new
lifetime in either case; `deallocate` ends and charges the lifetime of the address. -/
def historyAfter (p : Params) (s : CacheMemory ε ρ) (h : History (ℕ × ℕ)) :
    Op ε → History (ℕ × ℕ)
  | .allocate a _ =>
      match s.findTagInSetIgnorePermissions a with
      | some slot => ((h.charge slot (s.expiredAt slot)).close slot (s.expiredAt slot)).begin slot
      | none =>
          match s.freeWay p (s.addressToCacheSet p a) with
          | some way =>
              let slot := (s.addressToCacheSet p a, way)
              (h.charge slot (s.expiredAt slot)).begin slot
          | none => h
  | .deallocate a =>
      match s.findTagInSetIgnorePermissions a with
      | some slot => (h.charge slot (s.expiredAt slot)).close slot (s.expiredAt slot)
      | none => h
  | _ => h

/-- The machine of the calls, with the history of the lifetimes beside the cache. -/
def lifetimes (p : Params) (rp : ReplacementPolicy ρ) (r : ρ) :
    Lib.Machine (CacheMemory ε ρ × History (ℕ × ℕ)) (Tick × Op ε) where
  start g := g = (CacheMemory.init p r, .empty)
  step g c := (g.1.call p rp c.1 c.2).map fun s' => (s', historyAfter p g.1 g.2 c.2)

/-- The call fills no way whose old entry is still marked expired, and sets no permission to
`NotPresent`. -/
def FillsUnmarked (p : Params) (s : CacheMemory ε ρ) : Tick × Op ε → Prop
  | (_, .allocate a _) => s.findTagInSetIgnorePermissions a = none →
      ∀ way ∈ s.freeWay p (s.addressToCacheSet p a),
        s.expiredAt (s.addressToCacheSet p a, way) = false
  | (_, .changePermission _ perm) => perm ≠ .NotPresent
  | _ => True

instance (p : Params) (s : CacheMemory ε ρ) : (c : Tick × Op ε) → Decidable (FillsUnmarked p s c)
  | (_, .allocate a _) => inferInstanceAs (Decidable (s.findTagInSetIgnorePermissions a = none →
      ∀ way ∈ s.freeWay p (s.addressToCacheSet p a),
        s.expiredAt (s.addressToCacheSet p a, way) = false))
  | (_, .changePermission _ perm) => inferInstanceAs (Decidable (perm ≠ .NotPresent))
  | (_, .deallocate _) | (_, .lookup _) | (_, .setMRU _) | (_, .setMRUEntry _)
  | (_, .tryCacheAccess _ _) | (_, .recordRequestType _ _) => inferInstanceAs (Decidable True)

/-- The counter and the history agree, and the history is that of the ways that hold a block. -/
structure Accounted (p : Params) (s : CacheMemory ε ρ) (h : History (ℕ × ℕ)) : Prop where
  indexed : s.Indexed p
  sound : h.Sound s.Occupied
  counted : s.stats.m_zombies_collected = h.charged.length

variable {h : History (ℕ × ℕ)}

theorem Accounted.init (r : ρ) : Accounted p (CacheMemory.init p r : CacheMemory ε ρ) .empty where
  indexed := indexed_init r
  sound := Lib.History.Sound.empty.congr fun slot => by simp [Occupied, Live, CacheMemory.init]
  counted := rfl

theorem Accounted.counted_flagged (hh : Accounted p s h) :
    s.stats.m_zombies_collected = (h.ended.filter (·.2)).length := by
  rw [hh.counted, hh.sound.charged, Lib.History.flagged, List.length_map]

/-- A call that keeps every block and counts no zombie. -/
theorem Accounted.kept (hh : Accounted p s h) (hk : s.Kept s')
    (hz : s'.stats.m_zombies_collected = s.stats.m_zombies_collected) : Accounted p s' h :=
  ⟨hk.indexed hh.indexed, hh.sound.congr hk.occupied, hz.trans hh.counted⟩

theorem Accounted.reuse (hh : Accounted p s h) {i j : ℕ} {a : Addr} {x : ε} (hl : s.Live i j a x)
    (now : Tick) :
    Accounted p (s.reuse p rp now a i j)
      (((h.charge (i, j) (s.expiredAt (i, j))).close (i, j) (s.expiredAt (i, j))).begin
        (i, j)) := by
  have hk : s.Kept (s.reuse p rp now a i j) := reuse_kept hh.indexed hl now
  refine ⟨hk.indexed hh.indexed, ?_, ?_⟩
  · refine ((hh.sound.close ⟨a, x, hl⟩ _).begin (fun hc => hc.1 rfl)).congr fun slot => ?_
    rw [hk.occupied]
    by_cases he : slot = (i, j)
    · simp [he, show s.Occupied (i, j) from ⟨a, x, hl⟩]
    · simp [he]
  · exact (s.collect_zombies i j).trans (by rw [hh.counted]; exact (h.charge_length _ _).symm)

/-- Filling a way whose old entry, if there is one, is not marked charges nothing. -/
theorem Accounted.fill (hp : p.Fits) (hh : Accounted p s h) {i j : ℕ} {a : Addr} (x : ε)
    (hi : i < p.usedSets) (hj : j < p.m_cache_assoc)
    (hfree : ∀ b y, ¬ s.Live i j b y) (ha : s.m_tag_index a = none)
    (hmark : s.expiredAt (i, j) = false) (now : Tick) :
    Accounted p (s.fill p rp now a x i j)
      ((h.charge (i, j) (s.expiredAt (i, j))).begin (i, j)) := by
  have hcharge : h.charge (i, j) (s.expiredAt (i, j)) = h := by simp [History.charge, hmark]
  rw [hcharge]
  refine ⟨fill_indexed hp hh.indexed hi hj hfree ha now x, ?_, ?_⟩
  · have hempty : ¬ s.Occupied (i, j) := by
      rintro ⟨b, y, hl⟩
      exact hfree b y hl
    refine (hh.sound.begin hempty).congr fun slot => ?_
    by_cases he : slot = (i, j)
    · subst he
      simp [Occupied, fill_live]
    · have hne : ¬ (slot.1 = i ∧ slot.2 = j) := fun hc => he (Prod.ext hc.1 hc.2)
      simp only [Occupied, fill_live, if_neg hne, he, false_or]
  · have hz := s.collect_zombies i j
    rw [hmark] at hz
    exact hz.trans hh.counted

theorem Accounted.deallocate (hp : p.Fits) (hh : Accounted p s h) {i j : ℕ} {a : Addr}
    (hf : s.findTagInSetIgnorePermissions a = some (i, j)) :
    Accounted p (s.deallocate rp a)
      ((h.charge (i, j) (s.expiredAt (i, j))).close (i, j) (s.expiredAt (i, j))) := by
  obtain ⟨x, hl⟩ := (hh.indexed.findIgnore_iff hp).mp hf
  refine ⟨deallocate_indexed hp hh.indexed a, ?_, ?_⟩
  · refine (hh.sound.close ⟨a, x, hl⟩ _).congr fun slot => ?_
    simp only [Occupied, deallocate_live hf, Prod.ext_iff, ne_eq, exists_and_left]
  · have hs : (s.deallocate rp a).stats = s.collect (s.m_cache i j) := by
      simp only [CacheMemory.deallocate, hf]
    rw [hs, s.collect_zombies i j, hh.counted]
    exact (h.charge_length _ _).symm

/-- **One call.**  The history charges what the counter counts. -/
theorem Accounted.call (hp : p.Fits) (hh : Accounted p s h) {now : Tick} {op : Op ε}
    (hc : FillsUnmarked p s (now, op)) (hs : s.call p rp now op = some s') :
    Accounted p s' (historyAfter p s h op) := by
  cases op with
  | allocate a x =>
      simp only [CacheMemory.call, CacheMemory.allocate] at hs
      cases hf : s.findTagInSetIgnorePermissions a with
      | some slot =>
          obtain ⟨y, hl⟩ := (hh.indexed.findIgnore_iff hp).mp hf
          simp only [hf, Option.some.injEq] at hs
          subst hs
          simp only [historyAfter, hf]
          exact hh.reuse hl now
      | none =>
          simp only [hf, Option.map_eq_some_iff] at hs
          obtain ⟨way, hw, rfl⟩ := hs
          obtain ⟨hlt, hfree⟩ := freeWay_spec hw
          have hidx : s.m_tag_index a = none := by
            rwa [hh.indexed.findIgnore_eq hp, hh.indexed.find_none_iff hp] at hf
          simp only [historyAfter, hf, hw]
          exact hh.fill hp x (s.addressToCacheSet_lt_used a hp) hlt hfree hidx (hc hf way hw) now
  | deallocate a =>
      cases hs
      cases hf : s.findTagInSetIgnorePermissions a with
      | some slot =>
          simp only [historyAfter, hf]
          exact hh.deallocate hp hf
      | none =>
          simp only [historyAfter, hf]
          rwa [deallocate_eq_self hf]
  | lookup a => cases hs; exact hh.kept (lookup_kept now a) (by rw [lookup_stats])
  | setMRU a => cases hs; exact hh.kept (setMRU_kept now a) (by rw [setMRU_stats])
  | setMRUEntry a => cases hs; exact hh.kept (setMRUEntry_kept now a) (by rw [setMRUEntry_stats])
  | tryCacheAccess a b =>
      cases hs
      exact hh.kept (tryCacheAccess_kept now a b) (by rw [tryCacheAccess_stats])
  | recordRequestType t a =>
      cases hs
      exact hh.kept (record_kept hp hh.indexed now t a) (record_zombies s now t a)
  | changePermission a perm =>
      cases hs
      exact hh.kept (changePermission_kept hp hh.indexed a hc) (by rw [changePermission_stats])

/-! ### Runs -/

/-- The history is beside the cache only: every run of the calls is one with a history. -/
theorem run_lifetimes {G : CacheMemory ε ρ → Tick × Op ε → Prop} {r : ρ}
    {l : List (Tick × Op ε)} (hr : (calls p rp r).Run G (CacheMemory.init p r) l s) :
    ∃ h, (lifetimes p rp r).Run (fun g c => G g.1 c) (CacheMemory.init p r, .empty) l (s, h) := by
  induction hr with
  | refl => exact ⟨.empty, .refl⟩
  | @snoc l s s' c _ hg hstep ih =>
      obtain ⟨h, ih⟩ := ih
      have hstep' : (lifetimes p rp r).step (s, h) c = some (s', historyAfter p s h c.2) :=
        Option.map_eq_some_iff.mpr ⟨s', hstep, rfl⟩
      exact ⟨_, ih.snoc hg hstep'⟩

/-- An `allocate` that fills a marked way counts, and ends no lifetime. -/
theorem Accounted.overcounts (hh : Accounted p s h) {now : Tick} {a : Addr} {x : ε}
    (hc : ¬ FillsUnmarked p s (now, .allocate a x))
    (hs : s.call p rp now (.allocate a x) = some s') :
    (historyAfter p s h (.allocate a x)).ended = h.ended ∧
      s'.stats.m_zombies_collected = h.flagged.length + 1 := by
  simp only [FillsUnmarked, Classical.not_imp, not_forall, Bool.not_eq_false] at hc
  obtain ⟨hf, way, hw, hmark⟩ := hc
  simp only [CacheMemory.call, CacheMemory.allocate, hf, Option.map_eq_some_iff] at hs
  obtain ⟨way', hw', rfl⟩ := hs
  obtain rfl : way = way' := Option.some.inj (hw.symm.trans hw')
  refine ⟨by simp only [historyAfter, hf, hw']; rfl, ?_⟩
  have hz := s.collect_zombies (s.addressToCacheSet p a) way
  rw [hmark, if_pos rfl, hh.counted, hh.sound.charged] at hz
  exact hz

/-- **Each zombie is collected once.**  In a cache whose locations fit the packed code, along any
sequence of calls none of which fills a way whose old entry is still marked expired,
`m_zombies_collected` is the number of lifetimes that ended while their entry was marked; the
lifetimes it was incremented for are these, and none of them twice.  A further `allocate` keeps the
counter right exactly if it fills no such way either. -/
theorem zombies_collected_once (hp : p.Fits) {r : ρ} {l : List (Tick × Op ε)}
    (hr : (calls p rp r).Run (FillsUnmarked p) (CacheMemory.init p r) l s) :
    ∃ h, (lifetimes p rp r).Run (fun g c => FillsUnmarked p g.1 c) (CacheMemory.init p r, .empty)
        l (s, h) ∧
      s.stats.m_zombies_collected = (h.ended.filter (·.2)).length ∧
      h.charged = (h.ended.filter (·.2)).map (·.1) ∧ h.charged.Nodup ∧
      (h.ended.map (·.1)).Nodup ∧
      ∀ now a x s', s.call p rp now (.allocate a x) = some s' →
        (s'.stats.m_zombies_collected =
          ((historyAfter p s h (.allocate a x)).ended.filter (·.2)).length ↔
        FillsUnmarked p s (now, .allocate a x)) := by
  obtain ⟨h, hrun⟩ := run_lifetimes hr
  have hacc : Accounted p s h := by
    refine Lib.Machine.Reach.invariant (I := fun g => Accounted p g.1 g.2) ?_ ?_
      ⟨_, l, rfl, hrun⟩
    · rintro _ rfl
      exact .init r
    · rintro ⟨s₁, h₁⟩ ⟨now, op⟩ g' hh hg hstep
      obtain ⟨s₂, hs₂, rfl⟩ := Option.map_eq_some_iff.mp hstep
      exact hh.call hp hg hs₂
  refine ⟨h, hrun, hacc.counted_flagged, hacc.sound.charged, hacc.sound.charged_nodup,
    hacc.sound.nodup, fun now a x s' hs => ?_⟩
  by_cases hc : FillsUnmarked p s (now, .allocate a x)
  · exact iff_of_true (hacc.call hp hc hs).counted_flagged hc
  · obtain ⟨hended, hover⟩ := hacc.overcounts hc hs
    rw [hended, hover, Lib.History.flagged, List.length_map]
    exact iff_of_false (Nat.succ_ne_self _) hc

/-- A block expires, is looked up, and is collected when its address is allocated again; it is
then deallocated unexpired, and its way is filled by another block. -/
theorem zombies_collected_once_reused :
    ∃ s h, (lifetimes fourSets firstWay ()).Run (fun g c => FillsUnmarked fourSets g.1 c)
        (CacheMemory.init fourSets (), .empty)
        [(1, .allocate 0xC0 7), (20000, .lookup 0xC0), (20000, .allocate 0xC0 8),
          (20001, .deallocate 0xC0), (20002, .allocate 0x1C0 9)] (s, h) ∧
      h.charged = (h.ended.filter (·.2)).map (·.1) ∧ h.charged.Nodup ∧
      s.stats.m_zombies_collected = (h.ended.filter (·.2)).length := by
  obtain ⟨s, hr, -⟩ := Lib.Machine.trace_exists (M := calls fourSets firstWay ())
    (G := FillsUnmarked fourSets) (s := CacheMemory.init fourSets ()) (P := fun _ => True)
    (l := [(1, .allocate 0xC0 7), (20000, .lookup 0xC0), (20000, .allocate 0xC0 8),
      (20001, .deallocate 0xC0), (20002, .allocate 0x1C0 9)]) (by decide +kernel)
  obtain ⟨h, hrun, hz, hcharged, hnodup, -⟩ := zombies_collected_once fourSets_fits hr
  exact ⟨s, h, hrun, hcharged, hnodup, hz⟩

/-- A block expires, is looked up and deallocated, and its way is filled by another block: one
lifetime has ended, and it has been collected twice. -/
theorem zombie_collected_twice :
    ∃ g, (lifetimes fourSets firstWay ()).Run (fun _ _ => True)
        (CacheMemory.init fourSets (), .empty)
        [(1, .allocate 0xC0 7), (20000, .lookup 0xC0), (20001, .deallocate 0xC0),
          (20002, .allocate 0x1C0 9)] g ∧
      g.2.ended = [(0, true)] ∧ g.2.charged = [0, 0] ∧ g.1.stats.m_zombies_collected = 2 :=
  Lib.Machine.trace_exists (M := lifetimes fourSets firstWay ())
    (P := fun g => g.2.ended = [(0, true)] ∧ g.2.charged = [0, 0] ∧
      g.1.stats.m_zombies_collected = 2) (by decide +kernel)

end SttRuby.Cache
