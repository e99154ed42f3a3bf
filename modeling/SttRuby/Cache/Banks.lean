import Mathlib
import SttRuby.Cache.Memory

/-!
# Cache — Banks

The reservations of a `BankedArray` over time.  `endAccess` is the tick of the last cycle of a
reservation: `tryAccess` refuses a bank up to and including it, and a reservation of one cycle ends
where it starts.  A reservation that is issued while the bank is taken starts at `endAccess` too,
in the last cycle of the one before it, so that the two overlap (`reservations_overlap`).

In runs in which every reservation finds its bank idle (`Reserved.Idle`) the reservations of a bank
are disjoint, and the bank stays busy for as many cycles as were reserved at one tick
(`reservations_disjoint`).  Reservations on clock edges that `tryAccess` has granted are such
(`idle_of_checked`); the second access of a transition that makes two is not.
-/

namespace SttRuby.Cache

theorem BankedArray.reserve_busyBanks (b : BankedArray) (now : Tick) (idx : ℕ)
    {accessLatency : Cycles}
    (h : 1 ≤ accessLatency) : (b.reserve now idx accessLatency).busyBanks =
      Function.update b.busyBanks (b.mapIndexToBank idx)
        ⟨idx, max now (b.busyBanks (b.mapIndexToBank idx)).endAccess,
          max now (b.busyBanks (b.mapIndexToBank idx)).endAccess +
            (accessLatency - 1) * b.clockPeriod⟩ := by
  rw [reserve, if_neg (Nat.one_le_iff_ne_zero.mp h)]

/-- A reservation as it was granted. -/
structure Reservation where
  bank : ℕ
  issued : Tick
  startAccess : Tick
  accessLatency : Cycles
  deriving DecidableEq

/-- The ticks a reservation takes. -/
def Reservation.ticks (r : Reservation) (clockPeriod : Tick) : Set Tick :=
  Set.Ico r.startAccess (r.startAccess + r.accessLatency * clockPeriod)

/-- An array with the reservations granted so far. -/
structure Reserved where
  array : BankedArray
  granted : List Reservation

/-- A call of `reserve` at a tick. -/
structure Request where
  now : Tick
  idx : ℕ
  accessLatency : Cycles

namespace Reserved

/-- `reserve`; the start of the access is what it stores in the bank's record. -/
def reserve (s : Reserved) (c : Request) : Reserved :=
  let array := s.array.reserve c.now c.idx c.accessLatency
  let bank := s.array.mapIndexToBank c.idx
  ⟨array, s.granted ++ [⟨bank, c.now, (array.busyBanks bank).startAccess, c.accessLatency⟩]⟩

/-- A call with a latency of at least one cycle, not before those made so far. -/
def InOrder (s : Reserved) (c : Request) : Prop :=
  1 ≤ c.accessLatency ∧ ∀ r ∈ s.granted, r.issued ≤ c.now

/-- The bank of the call has not been reserved before, or the last cycle of its reservation is
over. -/
def Idle (s : Reserved) (c : Request) : Prop :=
  (∀ r ∈ s.granted, r.bank ≠ s.array.mapIndexToBank c.idx) ∨
    (s.array.busyBanks (s.array.mapIndexToBank c.idx)).endAccess + s.array.clockPeriod ≤ c.now

instance (s : Reserved) (c : Request) : Decidable (s.InOrder c) :=
  inferInstanceAs (Decidable (_ ∧ _))

instance (s : Reserved) (c : Request) : Decidable (s.Idle c) :=
  inferInstanceAs (Decidable (_ ∨ _))

/-- The cycles reserved of a bank by the calls of one tick. -/
def burst (s : Reserved) (bank : ℕ) (now : Tick) : Cycles :=
  ((s.granted.filter fun r => r.bank = bank ∧ r.issued = now).map (·.accessLatency)).sum

end Reserved

/-- The runs of an array over calls of `reserve`. -/
def reservations (banks : ℕ) (clockPeriod : Tick) : Lib.Machine Reserved Request where
  start s := s = ⟨⟨banks, clockPeriod, fun _ => {}⟩, []⟩
  step s c := some (s.reserve c)

namespace Reserved

/-- The reservations of a bank follow one another, its record is that of the last, and the bank is
taken for the cycles reserved at any one tick. -/
structure Spaced (clockPeriod : Tick) (s : Reserved) : Prop where
  clock : s.array.clockPeriod = clockPeriod
  follows : s.granted.Pairwise fun r r' => r.bank = r'.bank →
    r.startAccess + r.accessLatency * clockPeriod ≤ r'.startAccess
  last : ∀ r ∈ s.granted, r.startAccess + r.accessLatency * clockPeriod ≤
    (s.array.busyBanks r.bank).endAccess + clockPeriod
  record : ∀ r ∈ s.granted, ∃ r' ∈ s.granted, r'.bank = r.bank ∧
    r'.startAccess ≤ (s.array.busyBanks r.bank).endAccess ∧
    r'.startAccess + r'.accessLatency * clockPeriod =
      (s.array.busyBanks r.bank).endAccess + clockPeriod
  taken : ∀ bank now, 0 < s.burst bank now →
    now + s.burst bank now * clockPeriod ≤ (s.array.busyBanks bank).endAccess + clockPeriod

variable {clk : Tick} {s : Reserved} {c : Request}

theorem burst_reserve (bank : ℕ) (now : Tick) : (s.reserve c).burst bank now = s.burst bank now +
    if s.array.mapIndexToBank c.idx = bank ∧ c.now = now then c.accessLatency else 0 := by
  unfold burst reserve
  rw [List.filter_append, List.map_append, List.sum_append]
  split_ifs with h <;> simp [h]

theorem burst_eq_zero {bank : ℕ} (h : ∀ r ∈ s.granted, r.bank ≠ bank) (now : Tick) :
    s.burst bank now = 0 := by
  have hnone : s.granted.filter (fun r => r.bank = bank ∧ r.issued = now) = [] := by
    rw [List.filter_eq_nil_iff]
    intro r hr hb
    exact h r hr (of_decide_eq_true hb).1
  rw [burst, hnone]
  rfl

/-- The record of the call's bank. -/
theorem reserve_record (h : 1 ≤ c.accessLatency) :
    let bank := s.array.mapIndexToBank c.idx
    let start := max c.now (s.array.busyBanks bank).endAccess
    (s.reserve c).array.busyBanks bank =
      ⟨c.idx, start, start + (c.accessLatency - 1) * s.array.clockPeriod⟩ := by
  simp only [reserve, BankedArray.reserve_busyBanks _ _ _ h, Function.update_self]

theorem reserve_busyBanks_of_ne (h : 1 ≤ c.accessLatency) {bank : ℕ}
    (hb : bank ≠ s.array.mapIndexToBank c.idx) :
    (s.reserve c).array.busyBanks bank = s.array.busyBanks bank := by
  simp only [reserve, BankedArray.reserve_busyBanks _ _ _ h, Function.update_of_ne hb]

/-- The record of another bank stays, and that of the call's is moved on. -/
theorem endAccess_le (h : 1 ≤ c.accessLatency) (bank : ℕ) :
    (s.array.busyBanks bank).endAccess ≤ ((s.reserve c).array.busyBanks bank).endAccess := by
  rcases eq_or_ne bank (s.array.mapIndexToBank c.idx) with rfl | hb
  · rw [reserve_record h]
    exact (le_max_right _ _).trans (Nat.le_add_right _ _)
  · rw [reserve_busyBanks_of_ne h hb]

theorem reserve_clock : (s.reserve c).array.clockPeriod = s.array.clockPeriod := by
  unfold reserve BankedArray.reserve
  dsimp only
  split_ifs <;> rfl

/-- No cycle of an idle bank has been reserved at the tick of the call. -/
theorem Spaced.burst_idle (h : s.Spaced clk) (hclk : 0 < clk) (hi : s.Idle c) :
    s.burst (s.array.mapIndexToBank c.idx) c.now = 0 := by
  rcases hi with hnone | hend
  · exact burst_eq_zero hnone c.now
  · by_contra hb
    have htaken := h.taken (s.array.mapIndexToBank c.idx) c.now (Nat.pos_of_ne_zero hb)
    have hcycle : 0 < s.burst (s.array.mapIndexToBank c.idx) c.now * clk :=
      Nat.mul_pos (Nat.pos_of_ne_zero hb) hclk
    rw [h.clock] at hend
    exact absurd (htaken.trans hend) (Nat.not_le.mpr (Nat.lt_add_of_pos_right hcycle))

theorem Spaced.reserve (h : s.Spaced clk) (hclk : 0 < clk) (ho : s.InOrder c) (hi : s.Idle c) :
    (s.reserve c).Spaced clk := by
  have hrec := reserve_record (s := s) ho.1
  have hb0 := h.burst_idle hclk hi
  have hcycles : (c.accessLatency - 1) * clk + clk = c.accessLatency * clk := by
    rw [← Nat.succ_mul, Nat.succ_eq_add_one, Nat.sub_add_cancel ho.1]
  rw [h.clock] at hrec
  dsimp only at hrec
  refine ⟨reserve_clock.trans h.clock, ?_, fun r hr => ?_, fun r hr => ?_, fun bank now hpos => ?_⟩
  · -- the new reservation starts after the earlier ones of its bank
    refine List.pairwise_append.mpr ⟨h.follows, List.pairwise_singleton _ _, fun r hr r' hr' => ?_⟩
    obtain rfl := List.mem_singleton.mp hr'
    intro hbank
    dsimp only at hbank ⊢
    have hlast := h.last r hr
    rcases hi with hnone | hend
    · exact absurd hbank (hnone r hr)
    · rw [h.clock, ← hbank] at hend
      change _ ≤ ((s.reserve c).array.busyBanks (s.array.mapIndexToBank c.idx)).startAccess
      rw [hrec]
      exact (hlast.trans hend).trans (le_max_left _ _)
  · rcases List.mem_append.mp hr with hr | hr
    · exact (h.last r hr).trans (Nat.add_le_add_right (endAccess_le ho.1 r.bank) clk)
    · obtain rfl := List.mem_singleton.mp hr
      change ((s.reserve c).array.busyBanks (s.array.mapIndexToBank c.idx)).startAccess + _ ≤
        ((s.reserve c).array.busyBanks (s.array.mapIndexToBank c.idx)).endAccess + _
      rw [hrec]
      dsimp only
      rw [Nat.add_assoc, hcycles]
  · -- the record of the call's bank is that of the call
    rcases eq_or_ne r.bank (s.array.mapIndexToBank c.idx) with hb | hb
    · refine ⟨_, List.mem_append_right _ (List.mem_singleton_self _), hb.symm, ?_, ?_⟩
      · change ((s.reserve c).array.busyBanks (s.array.mapIndexToBank c.idx)).startAccess ≤ _
        rw [hb, hrec]
        exact Nat.le_add_right _ _
      · change ((s.reserve c).array.busyBanks (s.array.mapIndexToBank c.idx)).startAccess + _ = _
        rw [hb, hrec]
        dsimp only
        rw [Nat.add_assoc, hcycles]
    · have hold : r ∈ s.granted := (List.mem_append.mp hr).resolve_right fun hnew =>
        hb (by rw [List.mem_singleton.mp hnew])
      obtain ⟨r', hr', hsame, hlast⟩ := h.record r hold
      refine ⟨r', List.mem_append_left _ hr', hsame, ?_⟩
      rw [reserve_busyBanks_of_ne ho.1 hb]
      exact hlast
  · rw [burst_reserve] at hpos ⊢
    split_ifs at hpos ⊢ with heq
    · obtain ⟨rfl, rfl⟩ := heq
      rw [hb0, hrec, Nat.zero_add, Nat.add_assoc, hcycles]
      exact Nat.add_le_add_right (le_max_left _ _) _
    · exact (h.taken bank now hpos).trans (Nat.add_le_add_right (endAccess_le ho.1 bank) clk)

theorem Spaced.disjoint (h : s.Spaced clk) : s.granted.Pairwise fun r r' => r.bank = r'.bank →
    Disjoint (r.ticks clk) (r'.ticks clk) :=
  h.follows.imp fun hlt hbank => Set.Ico_disjoint_Ico.mpr
    ((min_le_left _ _).trans ((hlt hbank).trans (le_max_right _ _)))

/-- A call that finds its bank taken overlaps the reservation before it. -/
theorem Spaced.overlaps (h : s.Spaced clk) (hclk : 0 < clk) (ho : s.InOrder c)
    (hi : ¬ s.Idle c) : ¬ (s.reserve c).granted.Pairwise fun r r' => r.bank = r'.bank →
      Disjoint (r.ticks clk) (r'.ticks clk) := by
  have hrec := reserve_record (s := s) ho.1
  simp only [Idle, not_or, not_forall, not_not, h.clock, Nat.not_le] at hi
  obtain ⟨⟨r, hr, hbank⟩, hbusy⟩ := hi
  obtain ⟨r', hr', hsame, hstart, hend⟩ := h.record r hr
  rw [hbank] at hsame hstart hend
  intro hall
  have hdisj := (List.pairwise_append.mp hall).2.2 r' hr' _ (List.mem_singleton_self _) hsame
  -- the tick at which it starts is in both
  have hnew : ((s.reserve c).array.busyBanks (s.array.mapIndexToBank c.idx)).startAccess =
      max c.now (s.array.busyBanks (s.array.mapIndexToBank c.idx)).endAccess := by
    rw [hrec]
  have hfirst : ((s.reserve c).array.busyBanks (s.array.mapIndexToBank c.idx)).startAccess ∈
      r'.ticks clk := by
    rw [hnew]
    refine ⟨hstart.trans (le_max_right _ _), ?_⟩
    rw [hend]
    exact max_lt hbusy (Nat.lt_add_of_pos_right hclk)
  exact Set.disjoint_left.mp hdisj hfirst
    ⟨le_rfl, Nat.lt_add_of_pos_right (Nat.mul_pos ho.1 hclk)⟩

end Reserved

open Reserved

theorem spaced_of_reach {banks : ℕ} {clk : Tick} (hclk : 0 < clk) {s : Reserved}
    (h : (reservations banks clk).Reach (fun s c => s.InOrder c ∧ s.Idle c) s) : s.Spaced clk := by
  refine h.invariant ?_ ?_
  · rintro s rfl
    exact ⟨rfl, .nil, nofun, nofun, fun bank now hpos => absurd hpos (Nat.lt_irrefl 0)⟩
  · rintro s c s' hs ⟨ho, hi⟩ hstep
    cases hstep
    exact hs.reserve hclk ho hi

/-- **Disjoint reservations.**  In every run in which each reservation finds its bank idle, the
ticks of the reservations of a bank are pairwise disjoint, and the bank stays busy for the sum of
the latencies reserved at one tick.  A further reservation keeps them disjoint exactly if it finds
its bank idle too. -/
theorem reservations_disjoint {banks : ℕ} {clk : Tick} (hclk : 0 < clk) {s : Reserved}
    (h : (reservations banks clk).Reach (fun s c => s.InOrder c ∧ s.Idle c) s) :
    (s.granted.Pairwise fun r r' => r.bank = r'.bank → Disjoint (r.ticks clk) (r'.ticks clk)) ∧
    (∀ idx now k, k < s.burst (s.array.mapIndexToBank idx) now →
      s.array.tryAccess (now + k * clk) idx = false) ∧
    ∀ c, s.InOrder c → (((s.reserve c).granted.Pairwise fun r r' => r.bank = r'.bank →
      Disjoint (r.ticks clk) (r'.ticks clk)) ↔ s.Idle c) := by
  have hs := spaced_of_reach hclk h
  refine ⟨hs.disjoint, fun idx now k hk => ?_, fun c ho => ⟨fun hall => ?_, fun hi => ?_⟩⟩
  · have htaken := hs.taken _ now (Nat.zero_lt_of_lt hk)
    have hcycle : k * clk + clk ≤ s.burst (s.array.mapIndexToBank idx) now * clk := by
      rw [← Nat.succ_mul]
      exact Nat.mul_le_mul_right clk hk
    rw [BankedArray.tryAccess, Bool.not_eq_false', decide_eq_true_eq]
    refine Nat.le_of_add_le_add_right (b := clk) ?_
    calc now + k * clk + clk
      _ = now + (k * clk + clk) := Nat.add_assoc ..
      _ ≤ now + s.burst (s.array.mapIndexToBank idx) now * clk := Nat.add_le_add_left hcycle now
      _ ≤ _ := htaken
  · by_contra hi
    exact hs.overlaps hclk ho hi hall
  · exact (hs.reserve hclk ho hi).disjoint

/-- Two reservations of one bank, the second when the first is over. -/
theorem reservations_disjoint_in_turn :
    ∃ s, (reservations 1 1).Reach (fun s c => s.InOrder c ∧ s.Idle c) s ∧
      s.granted = [⟨0, 0, 0, 2⟩, ⟨0, 2, 2, 3⟩] ∧ s.array.tryAccess 4 0 = false := by
  obtain ⟨s, hs, hg, hb⟩ := Lib.Machine.trace_reaches (M := reservations 1 1)
    (G := fun s c => s.InOrder c ∧ s.Idle c) (l := [⟨0, 0, 2⟩, ⟨2, 0, 3⟩])
    (P := fun s => s.granted = [⟨0, 0, 0, 2⟩, ⟨0, 2, 2, 3⟩] ∧
      2 < s.burst (s.array.mapIndexToBank 0) 2) rfl (by decide)
  exact ⟨s, hs, hg, (reservations_disjoint (by decide) hs).2.1 0 2 2 hb⟩

/-- **An overlap.**  Two reservations of two cycles each, issued at one tick: the second starts in
the last cycle of the first, and the bank is free again after three cycles. -/
theorem reservations_overlap :
    ∃ s, (reservations 1 1).Reach InOrder s ∧ s.granted = [⟨0, 0, 0, 2⟩, ⟨0, 0, 1, 2⟩] ∧
      ¬ Disjoint (Reservation.ticks ⟨0, 0, 0, 2⟩ 1) (Reservation.ticks ⟨0, 0, 1, 2⟩ 1) ∧
      3 < s.burst 0 0 ∧ s.array.tryAccess (0 + 3 * 1) 0 = true := by
  obtain ⟨s, hs, hg, hb, hfree⟩ := Lib.Machine.trace_reaches (M := reservations 1 1)
    (G := InOrder) (l := [⟨0, 0, 2⟩, ⟨0, 0, 2⟩])
    (P := fun s => s.granted = [⟨0, 0, 0, 2⟩, ⟨0, 0, 1, 2⟩] ∧ 3 < s.burst 0 0 ∧
      s.array.tryAccess (0 + 3 * 1) 0 = true) rfl (by decide)
  refine ⟨s, hs, hg, fun hd => ?_, hb, hfree⟩
  have hfirst : 1 ∈ Reservation.ticks ⟨0, 0, 0, 2⟩ 1 := ⟨by decide, by decide⟩
  have hsecond : 1 ∈ Reservation.ticks ⟨0, 0, 1, 2⟩ 1 := ⟨by decide, by decide⟩
  exact Set.disjoint_left.mp hd hfirst hsecond

/-! ### Checked reservations -/

/-- The call is made on a clock edge, after `tryAccess` has granted it. -/
def Reserved.Checked (s : Reserved) (c : Request) : Prop :=
  s.array.clockPeriod ∣ c.now ∧ s.array.tryAccess c.now c.idx = true

/-- The records end on clock edges. -/
def Reserved.Aligned (s : Reserved) : Prop :=
  ∀ bank, s.array.clockPeriod ∣ (s.array.busyBanks bank).endAccess

theorem Reserved.Aligned.reserve {s : Reserved} {c : Request} (h : s.Aligned)
    (ho : 1 ≤ c.accessLatency) (hc : s.Checked c) : (s.reserve c).Aligned := by
  intro bank
  rw [reserve_clock]
  rcases eq_or_ne bank (s.array.mapIndexToBank c.idx) with rfl | hb
  · rw [reserve_record ho]
    refine Nat.dvd_add ?_ (Nat.dvd_mul_left _ _)
    rcases max_choice c.now (s.array.busyBanks (s.array.mapIndexToBank c.idx)).endAccess
      with hm | hm
    · rw [hm]
      exact hc.1
    · rw [hm]
      exact h _
  · rw [reserve_busyBanks_of_ne ho hb]
    exact h bank

/-- Between two clock edges lies a cycle. -/
theorem Reserved.Aligned.idle {s : Reserved} {c : Request} (h : s.Aligned) (hc : s.Checked c) :
    s.Idle c := by
  obtain ⟨hedge, htry⟩ := hc
  rw [BankedArray.tryAccess, Bool.not_eq_true', decide_eq_false_iff_not] at htry
  obtain ⟨m, hm⟩ := hedge
  obtain ⟨k, hk⟩ := h (s.array.mapIndexToBank c.idx)
  right
  rw [hk, hm] at htry ⊢
  have hlt : k < m := Nat.lt_of_mul_lt_mul_left (Nat.not_le.mp htry)
  exact Nat.mul_le_mul_left s.array.clockPeriod hlt

/-- Reservations that `tryAccess` has granted on clock edges find their banks idle. -/
theorem idle_of_checked {banks : ℕ} {clk : Tick} {s : Reserved}
    (h : (reservations banks clk).Reach (fun s c => s.InOrder c ∧ s.Checked c) s) :
    (reservations banks clk).Reach (fun s c => s.InOrder c ∧ s.Idle c) s := by
  refine h.strengthen (I := Aligned) ?_ ?_ fun s c hs ⟨ho, hc⟩ => ⟨ho, hs.idle hc⟩
  · rintro s rfl bank
    exact Nat.dvd_zero _
  · rintro s c s' hs ⟨ho, hc⟩ hstep
    cases hstep
    exact hs.reserve ho.1 hc

end SttRuby.Cache
