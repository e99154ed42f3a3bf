import SttRuby.Cache.Retention

/-!
# Cache — Victim

The functions that make room: `cacheAvail`, `allocate`, `cacheProbe` and `deallocate` scan one set
with different conditions.  They agree because the tag index and the live ways do (`Indexed`): in
a set without a free way every way is live, so whichever way `cacheProbe` settles on, its address
leads back to that way (`Full.resident`), and deallocating it frees the way.
-/

namespace SttRuby.Cache

namespace CacheMemory

variable {ε ρ : Type*} {p : Params} {rp : ReplacementPolicy ρ} {s : CacheMemory ε ρ} {a : Addr}

/-- No way of the target set of `a` is free, and no tag leads to `a`. -/
structure Full (p : Params) (s : CacheMemory ε ρ) (a : Addr) : Prop where
  absent : s.findTagInSetIgnorePermissions a = none
  taken : ∀ j, j < p.m_cache_assoc → ∃ e,
    s.m_cache (s.addressToCacheSet p a) j = some e ∧ e.m_Permission ≠ .NotPresent

theorem full_of_not_avail (h : s.cacheAvail p a = false) : s.Full p a := by
  rw [cacheAvail, Bool.or_eq_false_iff] at h
  refine ⟨by simpa using h.1, fun j hj => ?_⟩
  have hfree : s.freeWay p (s.addressToCacheSet p a) = none := by simpa using h.2
  have hway := List.find?_eq_none.mp hfree j (List.mem_range.mpr hj)
  unfold isFree at hway
  cases he : s.m_cache (s.addressToCacheSet p a) j with
  | none => simp [he] at hway
  | some e => exact ⟨e, rfl, by simpa [he] using hway⟩

/-! ### The way `cacheProbe` settles on -/

/-- What the scan for the oldest way has found among the first `n` ways of the set, from the limit
it starts with. -/
structure Oldest (s : CacheMemory ε ρ) (cacheSet : ℕ) (limit : Tick) (n : ℕ)
    (best : Tick × Option ℕ) : Prop where
  least : ∀ i e, i < n → s.m_cache cacheSet i = some e → e.m_Permission ≠ .Busy →
    best.1 ≤ e.m_last_touch_tick
  unfound : best.2 = none → best.1 = limit
  found : ∀ w, best.2 = some w → w < n ∧ ∃ e, s.m_cache cacheSet w = some e ∧
    e.m_Permission ≠ .Busy ∧ e.m_last_touch_tick = best.1

theorem Oldest.next {cacheSet n : ℕ} {limit : Tick} {best : Tick × Option ℕ}
    (h : s.Oldest cacheSet limit n best) :
    s.Oldest cacheSet limit (n + 1) (s.olderWay cacheSet best n) := by
  -- a way that does not replace the one found so far adds nothing to what is known
  have keep (hn : ∀ e, s.m_cache cacheSet n = some e → e.m_Permission ≠ .Busy →
      best.1 ≤ e.m_last_touch_tick) : s.Oldest cacheSet limit (n + 1) best := by
    refine ⟨fun i e hi he hb => ?_, h.unfound, fun w hw => ?_⟩
    · rcases Nat.lt_succ_iff_lt_or_eq.mp hi with hi | rfl
      · exact h.least i e hi he hb
      · exact hn e he hb
    · obtain ⟨hlt, he⟩ := h.found w hw
      exact ⟨Nat.lt_succ_of_lt hlt, he⟩
  unfold olderWay
  split
  · next hnone =>
      refine keep fun e he => ?_
      rw [hnone] at he
      cases he
  · next e he =>
      split_ifs with holder
      · refine ⟨fun i e' hi he' hb => ?_, nofun, ?_⟩
        · rcases Nat.lt_succ_iff_lt_or_eq.mp hi with hi | rfl
          · exact holder.2.le.trans (h.least i e' hi he' hb)
          · rw [he] at he'
            cases he'
            exact le_rfl
        · rintro w ⟨⟩
          exact ⟨Nat.lt_succ_self n, e, he, holder.1, rfl⟩
      · refine keep fun e' he' hb => ?_
        rw [he] at he'
        cases he'
        exact Nat.not_lt.mp fun hlt => holder ⟨hb, hlt⟩

theorem oldest_scan (s : CacheMemory ε ρ) (cacheSet : ℕ) (limit : Tick) (n : ℕ) :
    s.Oldest cacheSet limit n ((List.range n).foldl (s.olderWay cacheSet) (limit, none)) := by
  induction n with
  | zero => exact ⟨fun _ _ hi => absurd hi (Nat.not_lt_zero _), fun _ => rfl, nofun⟩
  | succ n ih =>
      rw [List.range_succ, List.foldl_append]
      exact ih.next

theorem safeWay_lt {now : Tick} {cacheSet w : ℕ} (h : s.safeWay p now cacheSet = some w) :
    w < p.m_cache_assoc :=
  ((s.oldest_scan cacheSet (now + 1) p.m_cache_assoc).found w h).1

theorem expiredWay_lt {cacheSet w : ℕ} (h : s.expiredWay p cacheSet = some w) :
    w < p.m_cache_assoc :=
  List.mem_range.mp (List.mem_of_find?_eq_some h)

/-- The way is in the target set of the address and holds the entry. -/
def TargetWay (p : Params) (s : CacheMemory ε ρ) (a : Addr) (j : ℕ) (e : AbstractCacheEntry ε) :
    Prop :=
  j < p.m_cache_assoc ∧ s.m_cache (s.addressToCacheSet p a) j = some e

theorem TargetWay.unique {j : ℕ} {e e' : AbstractCacheEntry ε} (h : s.TargetWay p a j e)
    (h' : s.TargetWay p a j e') : e = e' :=
  Option.some.inj (h.2.symm.trans h'.2)

theorem Full.way (h : s.Full p a) {j : ℕ} (hj : j < p.m_cache_assoc) :
    ∃ e, s.TargetWay p a j e ∧ e.m_Permission ≠ .NotPresent := by
  obtain ⟨e, he, hn⟩ := h.taken j hj
  exact ⟨e, ⟨hj, he⟩, hn⟩

/-- The three stages of `cacheProbe` in a full set: the first expired way that is not `Busy`, the
policy's victim, or, if that is `Busy`, the oldest way that is not, else the first. -/
theorem Full.cacheProbe_cases (h : s.Full p a) (policy : ReplacementPolicy ρ) (now : Tick) :
    (∃ j e, s.expiredWay p (s.addressToCacheSet p a) = some j ∧ s.TargetWay p a j e ∧
      s.cacheProbe p policy now a = some e.m_Address) ∨
    s.expiredWay p (s.addressToCacheSet p a) = none ∧ ∃ v,
      s.TargetWay p a (policy.getVictim s.repl (s.addressToCacheSet p a) p.m_cache_assoc) v ∧
      (v.m_Permission ≠ .Busy ∧ s.cacheProbe p policy now a = some v.m_Address ∨
        v.m_Permission = .Busy ∧ ∃ j e, s.TargetWay p a j e ∧
          (s.safeWay p now (s.addressToCacheSet p a)).getD 0 = j ∧
          s.cacheProbe p policy now a = some e.m_Address) := by
  cases hx : s.expiredWay p (s.addressToCacheSet p a) with
  | some j =>
      obtain ⟨e, he, -⟩ := h.way (expiredWay_lt hx)
      refine .inl ⟨j, e, rfl, he, ?_⟩
      simp only [CacheMemory.cacheProbe, hx, addressAt, he.2, Option.map_some]
  | none =>
      obtain ⟨v, hv, -⟩ := h.way
        (policy.getVictim_lt s.repl (s.addressToCacheSet p a) p.m_cache_assoc (assoc_pos p))
      refine .inr ⟨rfl, v, hv, ?_⟩
      by_cases hbusy : v.m_Permission = .Busy
      · refine .inr ⟨hbusy, ?_⟩
        cases hsafe : s.safeWay p now (s.addressToCacheSet p a) with
        | some j =>
            obtain ⟨e, he, -⟩ := h.way (safeWay_lt hsafe)
            refine ⟨j, e, he, rfl, ?_⟩
            simp only [CacheMemory.cacheProbe, hx, hv.2, if_pos hbusy, hsafe, addressAt, he.2,
              Option.map_some]
        | none =>
            obtain ⟨e, he, -⟩ := h.way (assoc_pos p)
            refine ⟨0, e, he, rfl, ?_⟩
            simp only [CacheMemory.cacheProbe, hx, hv.2, if_pos hbusy, hsafe, addressAt, he.2,
              Option.map_some]
      · refine .inl ⟨hbusy, ?_⟩
        simp only [CacheMemory.cacheProbe, hx, hv.2, if_neg hbusy]

/-- In a full set, whatever victim the policy names, `cacheProbe` returns the address of one of
the set's ways. -/
theorem Full.cacheProbe (h : s.Full p a) (rp : ReplacementPolicy ρ) (now : Tick) :
    ∃ j e, s.TargetWay p a j e ∧ e.m_Permission ≠ .NotPresent ∧
      s.cacheProbe p rp now a = some e.m_Address := by
  obtain ⟨j, e, he, hprobe⟩ : ∃ j e, s.TargetWay p a j e ∧
      s.cacheProbe p rp now a = some e.m_Address := by
    rcases h.cacheProbe_cases rp now with ⟨j, e, -, he, hp⟩ |
      ⟨-, v, hv, ⟨-, hp⟩ | ⟨-, j, e, he, -, hp⟩⟩
    · exact ⟨j, e, he, hp⟩
    · exact ⟨_, v, hv, hp⟩
    · exact ⟨j, e, he, hp⟩
  obtain ⟨e', he', hn⟩ := h.way he.1
  rw [he'.unique he] at hn
  exact ⟨j, e, he, hn, hprobe⟩

/-! ### Busy ways are spared -/

/-- The first expired way that is not `Busy`. -/
theorem expiredWay_eq {cacheSet i : ℕ} {e : AbstractCacheEntry ε} (hi : i < p.m_cache_assoc)
    (he : s.m_cache cacheSet i = some e) (hx : e.m_is_expired = true)
    (hb : e.m_Permission ≠ .Busy)
    (hfirst : ∀ i' e', i' < i → s.m_cache cacheSet i' = some e' → e'.m_is_expired = true →
      e'.m_Permission = .Busy) : s.expiredWay p cacheSet = some i := by
  refine List.find?_range_eq_some.mpr
    ⟨by simp [he, hx, hb], List.mem_range.mpr hi, fun i' hi' => ?_⟩
  cases he' : s.m_cache cacheSet i' with
  | none => rfl
  | some e' =>
      cases hx' : e'.m_is_expired with
      | false => simp [hx']
      | true => simp [hx', hfirst i' e' hi' he' hx']

theorem expiredWay_some {cacheSet i : ℕ} (h : s.expiredWay p cacheSet = some i) :
    ∃ e, s.m_cache cacheSet i = some e ∧ e.m_is_expired = true ∧ e.m_Permission ≠ .Busy := by
  have hsome := List.find?_some h
  cases he : s.m_cache cacheSet i with
  | none => simp [he] at hsome
  | some e => exact ⟨e, rfl, by simpa [he] using hsome⟩

theorem expiredWay_none {cacheSet : ℕ} (h : ∀ i e, i < p.m_cache_assoc →
    s.m_cache cacheSet i = some e → e.m_is_expired = true → e.m_Permission = .Busy) :
    s.expiredWay p cacheSet = none := by
  cases hx : s.expiredWay p cacheSet with
  | none => rfl
  | some i =>
      obtain ⟨e, he, hexp, hb⟩ := expiredWay_some hx
      exact absurd (h i e (expiredWay_lt hx) he hexp) hb

/-- No entry was accessed after `now`. -/
def TouchedBy (now : Tick) (s : CacheMemory ε ρ) : Prop :=
  s.Everywhere fun _ e => e.m_last_touch_tick ≤ now

theorem TouchedBy.call {now t : Tick} {s' : CacheMemory ε ρ} {op : Op ε} (h : TouchedBy now s)
    (ht : t ≤ now) (hs : s.call p rp t op = some s') : TouchedBy now s' := by
  refine Everywhere.call h (fun _ _ _ => ht) (fun _ _ _ hq => hq) (fun _ _ _ e _ _ _ hq => ?_)
    (fun _ _ _ _ _ _ hq => hq) (fun _ _ hq => hq) (fun _ _ _ => ht) hs
  obtain ⟨mark, he⟩ := expire_eq t e
  rw [he]
  exact hq

/-- The scan for the oldest way passes over the ways that are not `Busy` only if there is none. -/
theorem TouchedBy.safeWay {now : Tick} (h : TouchedBy now s) {j : ℕ} {e : AbstractCacheEntry ε}
    (he : s.TargetWay p a j e) (hb : e.m_Permission ≠ .Busy) :
    ∃ w e', s.safeWay p now (s.addressToCacheSet p a) = some w ∧ s.TargetWay p a w e' ∧
      e'.m_Permission ≠ .Busy ∧ ∀ i e'', s.TargetWay p a i e'' → e''.m_Permission ≠ .Busy →
        e'.m_last_touch_tick ≤ e''.m_last_touch_tick := by
  have hscan := s.oldest_scan (s.addressToCacheSet p a) (now + 1) p.m_cache_assoc
  cases hw : s.safeWay p now (s.addressToCacheSet p a) with
  | none =>
      have hle := hscan.least j e he.1 he.2 hb
      rw [hscan.unfound hw] at hle
      exact absurd (h _ j e he.2) (Nat.not_le.mpr hle)
  | some w =>
      obtain ⟨hlt, e', he', hb', hlast⟩ := hscan.found w hw
      refine ⟨w, e', rfl, ⟨hlt, he'⟩, hb', fun i e'' hi hbi => ?_⟩
      rw [hlast]
      exact hscan.least i e'' hi.1 hi.2 hbi

/-- A `Busy` way is returned only if all ways of the set are. -/
theorem Full.spares_busy (h : s.Full p a) {now : Tick} (ht : TouchedBy now s)
    (policy : ReplacementPolicy ρ) :
    ∃ j e, s.TargetWay p a j e ∧ s.cacheProbe p policy now a = some e.m_Address ∧
      (e.m_Permission = .Busy → ∀ i e', s.TargetWay p a i e' → e'.m_Permission = .Busy) := by
  rcases h.cacheProbe_cases policy now with
    ⟨j, e, hx, he, hprobe⟩ | ⟨-, v, hv, ⟨hb, hprobe⟩ | ⟨-, j, e, he, hsafe, hprobe⟩⟩
  · obtain ⟨e', he', -, hb⟩ := expiredWay_some hx
    obtain rfl := he.unique ⟨he.1, he'⟩
    exact ⟨j, e, he, hprobe, fun hbusy => absurd hbusy hb⟩
  · exact ⟨_, v, hv, hprobe, fun hbusy => absurd hbusy hb⟩
  · refine ⟨j, e, he, hprobe, fun hbusy i e' hi => ?_⟩
    by_contra hb
    obtain ⟨w, e'', hw, he'', hb'', -⟩ := ht.safeWay hi hb
    rw [hw, Option.getD_some] at hsafe
    subst hsafe
    exact hb'' ((he''.unique he).symm ▸ hbusy)

/-! ### The four functions together -/

/-- The address of a way of a full set leads to that way, and is not the address in need. -/
theorem Full.resident (hp : p.Fits) (hi : s.Indexed p) (h : s.Full p a) {j : ℕ}
    {e : AbstractCacheEntry ε} (he : s.m_cache (s.addressToCacheSet p a) j = some e)
    (hn : e.m_Permission ≠ .NotPresent) :
    s.findTagInSet e.m_Address = some (s.addressToCacheSet p a, j) ∧ e.m_Address ≠ a := by
  have hlive : s.Live (s.addressToCacheSet p a) j e.m_Address e.ext := ⟨e, he, rfl, hn, rfl⟩
  refine ⟨(hi.findTagInSet_iff hp).mpr ⟨_, hlive⟩, fun ha => ?_⟩
  have hfind := (hi.findIgnore_iff hp).mpr ⟨_, hlive⟩
  rw [ha, h.absent] at hfind
  cases hfind

theorem lookup_isSome {i j : ℕ} {e : AbstractCacheEntry ε} (hf : s.findTagInSet a = some (i, j))
    (he : s.m_cache i j = some e) (now : Tick) : (s.lookup now a).2.isSome = true := by
  simp [lookup, hf, modify, he]

/-- Deallocating the block of a way of the target set makes room there. -/
theorem cacheAvail_deallocate {b : Addr} {j : ℕ} (hj : j < p.m_cache_assoc)
    (hf : s.findTagInSetIgnorePermissions b = some (s.addressToCacheSet p a, j)) :
    (s.deallocate rp b).cacheAvail p a = true := by
  have hset : (s.deallocate rp b).addressToCacheSet p a = s.addressToCacheSet p a := by
    simp only [deallocate, hf]
    rfl
  have hfree : (s.deallocate rp b).isFree (s.addressToCacheSet p a) j = true := by
    simp only [isFree, deallocate, hf, modify, and_self, if_true]
    cases s.m_cache (s.addressToCacheSet p a) j <;> simp
  rw [cacheAvail, hset, Bool.or_eq_true]
  refine .inr (List.find?_isSome.mpr ⟨j, List.mem_range.mpr hj, hfree⟩)

theorem allocate_isSome (h : s.cacheAvail p a = true) (now : Tick) (x : ε) :
    (s.allocate p rp now a x).isSome = true := by
  unfold allocate
  split
  · rfl
  · next hf =>
      rw [cacheAvail, hf, Option.isSome_none, Bool.false_or] at h
      simpa using h

end CacheMemory

open CacheMemory

theorem indexed_of_reach {ε ρ : Type*} {p : Params} {rp : ReplacementPolicy ρ}
    {s : CacheMemory ε ρ} (hp : p.Fits) {r : ρ} (h : (calls p rp r).Reach (ProtocolCall p) s) :
    s.Indexed p := by
  obtain ⟨_, l, rfl, hr⟩ := h
  exact (hr.refines (R := Refines p) (f := blockMap) (refines_init hp r)
    fun _ _ _ _ h hc hs => call_refines hp h hc hs).1

/-- **Room can be made.**  In every state the protocol's calls reach: `allocate` succeeds where
`cacheAvail` says so; where it does not, `cacheProbe` names, whatever victim the replacement
policy returns, another address that is resident in the very set in need of room, and
deallocating it makes `cacheAvail` true. -/
theorem victim_makes_room {ε ρ : Type*} {p : Params} {rp : ReplacementPolicy ρ}
    {s : CacheMemory ε ρ} (hp : p.Fits) {r : ρ} (h : (calls p rp r).Reach (ProtocolCall p) s)
    (a : Addr) :
    (s.cacheAvail p a = true → ∀ now x, (s.allocate p rp now a x).isSome = true) ∧
    (s.cacheAvail p a = false → ∀ (policy : ReplacementPolicy ρ) now, ∃ v,
      s.cacheProbe p policy now a = some v ∧ v ≠ a ∧
      (∀ now', (s.lookup now' v).2.isSome = true) ∧
      (∃ j, s.findTagInSet v = some (s.addressToCacheSet p a, j)) ∧
      (s.deallocate rp v).cacheAvail p a = true) := by
  have hi := indexed_of_reach hp h
  refine ⟨fun hav => allocate_isSome hav, fun hav policy now => ?_⟩
  have hfull := full_of_not_avail hav
  obtain ⟨j, e, ⟨hj, he⟩, hn, hprobe⟩ := hfull.cacheProbe policy now
  obtain ⟨hfind, hne⟩ := hfull.resident hp hi he hn
  refine ⟨e.m_Address, hprobe, hne, lookup_isSome hfind he, ⟨j, hfind⟩, ?_⟩
  exact cacheAvail_deallocate hj (by rw [hi.findIgnore_eq hp]; exact hfind)

/-- One block fills a set of one way; another block of the set evicts it. -/
theorem victim_makes_room_one_way :
    ∃ s : CacheMemory Char Unit, (calls fourSets firstWay ()).Reach (ProtocolCall fourSets) s ∧
      s.cacheAvail fourSets 0x1C0 = false ∧ ∃ v, s.cacheProbe fourSets firstWay 2 0x1C0 = some v ∧
        v ≠ 0x1C0 ∧ (s.lookup 2 v).2.isSome = true ∧
        (s.deallocate firstWay v).cacheAvail fourSets 0x1C0 = true := by
  obtain ⟨s, hs, hav⟩ := Lib.Machine.trace_reaches
    (M := calls fourSets firstWay ()) (G := ProtocolCall fourSets)
    (s := CacheMemory.init fourSets ()) (l := [(1, .allocate 0xC0 'a')])
    (P := fun s => s.cacheAvail fourSets 0x1C0 = false) rfl (by decide +kernel)
  obtain ⟨v, hprobe, hne, hres, -, hfree⟩ :=
    (victim_makes_room fourSets_fits hs 0x1C0).2 hav firstWay 2
  exact ⟨s, hs, hav, v, hprobe, hne, hres 2, hfree⟩

/-- **Busy ways are spared.**  In every state reached by calls at ticks up to `now`, for an address
whose target set is full and whatever victim the policy names: `cacheProbe` returns the address of a
`Busy` way only if all ways are `Busy`; it returns that of the first expired way that is not `Busy`;
and when there is none and the victim is `Busy`, it returns that of a way with the oldest access
among those that are not. -/
theorem probe_spares_busy {ε ρ : Type*} {p : Params} {rp : ReplacementPolicy ρ} {r : ρ}
    {s : CacheMemory ε ρ} {now : Tick} (h : (calls p rp r).Reach (fun _ c => c.1 ≤ now) s)
    {a : Addr} (hfull : s.cacheAvail p a = false) (policy : ReplacementPolicy ρ) :
    (∃ j e, s.TargetWay p a j e ∧ s.cacheProbe p policy now a = some e.m_Address ∧
      (e.m_Permission = .Busy → ∀ i e', s.TargetWay p a i e' → e'.m_Permission = .Busy)) ∧
    (∀ j e, s.TargetWay p a j e → e.m_is_expired = true → e.m_Permission ≠ .Busy →
      (∀ i e', i < j → s.TargetWay p a i e' → e'.m_is_expired = true → e'.m_Permission = .Busy) →
      s.cacheProbe p policy now a = some e.m_Address) ∧
    ((∀ i e, s.TargetWay p a i e → e.m_is_expired = true → e.m_Permission = .Busy) →
      ∀ v, s.TargetWay p a (policy.getVictim s.repl (s.addressToCacheSet p a) p.m_cache_assoc) v →
      v.m_Permission = .Busy → (∃ i e, s.TargetWay p a i e ∧ e.m_Permission ≠ .Busy) →
      ∃ j e, s.TargetWay p a j e ∧ e.m_Permission ≠ .Busy ∧
        s.cacheProbe p policy now a = some e.m_Address ∧
        ∀ i e', s.TargetWay p a i e' → e'.m_Permission ≠ .Busy →
          e.m_last_touch_tick ≤ e'.m_last_touch_tick) := by
  have ht : TouchedBy now s := by
    refine h.invariant ?_ fun s c s' hs hc hstep => hs.call hc hstep
    rintro s rfl
    exact nofun
  have hf := full_of_not_avail hfull
  refine ⟨hf.spares_busy ht policy, fun j e he hx hb hfirst => ?_,
    fun hnone v hv hvb ⟨i, e, hi, hb⟩ => ?_⟩
  · have hway := expiredWay_eq he.1 he.2 hx hb fun i e' hi he' =>
      hfirst i e' hi ⟨hi.trans he.1, he'⟩
    rcases hf.cacheProbe_cases policy now with ⟨j', e', hx', he', hprobe⟩ | ⟨hx', -⟩
    · obtain rfl : j = j' := Option.some.inj (hway.symm.trans hx')
      rwa [he.unique he']
    · rw [hway] at hx'
      cases hx'
  · have hway := expiredWay_none fun i e hi he => hnone i e ⟨hi, he⟩
    obtain ⟨w, e', hw, he', hb', hold⟩ := ht.safeWay hi hb
    rcases hf.cacheProbe_cases policy now with
      ⟨j', e'', hx', -⟩ | ⟨-, v', hv', ⟨hvn, -⟩ | ⟨-, j, e'', he'', hsafe, hprobe⟩⟩
    · rw [hway] at hx'
      cases hx'
    · exact absurd (hv'.unique hv ▸ hvb) hvn
    · rw [hw, Option.getD_some] at hsafe
      subst hsafe
      rw [he''.unique he'] at hprobe
      exact ⟨w, e', he', hb', hprobe, hold⟩

/-- Two blocks fill a set of two ways; the second, which the policy names, is in flight. -/
theorem probe_spares_busy_two_ways :
    ∃ s : CacheMemory Char Unit,
      (calls sramTwoWays lastWay ()).Reach (fun _ c => c.1 ≤ 5) s ∧
      s.cacheAvail sramTwoWays 0x100 = false ∧
      ∃ j e, s.TargetWay sramTwoWays 0x100 j e ∧
        s.cacheProbe sramTwoWays lastWay 5 0x100 = some e.m_Address ∧
        (e.m_Permission = .Busy → ∀ i e', s.TargetWay sramTwoWays 0x100 i e' →
          e'.m_Permission = .Busy) := by
  obtain ⟨s, hs, hav⟩ := Lib.Machine.trace_reaches
    (M := calls sramTwoWays lastWay ()) (G := fun _ c => c.1 ≤ 5)
    (s := CacheMemory.init sramTwoWays ())
    (l := [(1, .allocate 0x0 'a'), (2, .allocate 0x80 'b'), (3, .changePermission 0x80 .Busy)])
    (P := fun s => s.cacheAvail sramTwoWays 0x100 = false) rfl (by decide +kernel)
  exact ⟨s, hs, hav, (probe_spares_busy hs hav lastWay).1⟩

end SttRuby.Cache
