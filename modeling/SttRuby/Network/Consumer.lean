import Mathlib
import SttRuby.Lib.Runs

/-!
# Network — Consumer

`Consumer`: the wake-ups that the buffers of a component ask for.  The ticks asked for are kept in a
set, rounded up to an edge of the component's clock, and one event of the event queue stands at the
first of them.  The time `⊤` is that of an event that is not scheduled.

`Consumer.Timely` says that no tick in the set has passed and that the event stands at the first.
Asking for a tick keeps it (`Timely.scheduleEventAbsolute`), time that passes up to the event keeps
it (`Timely.tick`), and at the event the assertion of `processCurrentEvent` holds
(`Timely.processCurrentEvent`).
-/

namespace SttRuby.Network

/-! ### Clock edges -/

/-- `divCeil(t, P) * P`: the first edge of a clock of period `P` that is not before `t`. -/
def edge (P t : ℕ) : ℕ := (t + P - 1) / P * P

theorem le_edge {P : ℕ} (hP : 0 < P) (t : ℕ) : t ≤ edge P t := by
  have h := Nat.lt_div_mul_add hP (a := t + P - 1)
  unfold edge
  omega

theorem edge_le {P t k : ℕ} (hP : 0 < P) (h : t ≤ k) (hk : P ∣ k) : edge P t ≤ k := by
  obtain ⟨j, rfl⟩ := hk
  rw [edge, Nat.mul_comm P j]
  refine Nat.mul_le_mul_right P (Nat.lt_succ_iff.mp ((Nat.div_lt_iff_lt_mul hP).mpr ?_))
  rw [Nat.succ_mul, Nat.mul_comm j P]
  omega

theorem dvd_edge (P t : ℕ) : P ∣ edge P t := Nat.dvd_mul_left P _

theorem edge_mono {P t t' : ℕ} (hP : 0 < P) (h : t ≤ t') : edge P t ≤ edge P t' :=
  edge_le hP (h.trans (le_edge hP t')) (dvd_edge P t')

/-! ### The consumer -/

structure Consumer where
  m_wakeup_ticks : Finset ℕ := ∅
  m_wakeup_event : WithTop ℕ := ⊤

namespace Consumer

variable (P curTick : ℕ) (c : Consumer)

/-- Puts the event at the first tick that is not in the past, if it is not there or earlier. -/
def scheduleNextWakeup : Consumer :=
  let when := (c.m_wakeup_ticks.filter (edge P curTick ≤ ·)).min
  if c.m_wakeup_event = ⊤ ∨ when < c.m_wakeup_event then { c with m_wakeup_event := when } else c

def scheduleEventAbsolute (evt_time : ℕ) : Consumer :=
  scheduleNextWakeup P curTick
    { c with m_wakeup_ticks := insert (edge P evt_time) c.m_wakeup_ticks }

/-- `none` if the first tick is not the present one.  What `wakeup` asks for is asked for after it
here: the event ends up at the first tick either way. -/
def processCurrentEvent : Option Consumer :=
  if c.m_wakeup_ticks.min = edge P curTick then
    some (scheduleNextWakeup P curTick
      { m_wakeup_ticks := c.m_wakeup_ticks.erase (edge P curTick), m_wakeup_event := ⊤ })
  else none

/-- No tick asked for has passed, and the event is at the first. -/
structure Timely : Prop where
  edges : ∀ t ∈ c.m_wakeup_ticks, edge P curTick ≤ t ∧ P ∣ t
  event : c.m_wakeup_event = c.m_wakeup_ticks.min

variable {P curTick c}

theorem Timely.init : Timely P curTick {} := ⟨by simp, rfl⟩

@[simp] theorem scheduleNextWakeup_ticks :
    (scheduleNextWakeup P curTick c).m_wakeup_ticks = c.m_wakeup_ticks := by
  simp only [scheduleNextWakeup]
  split_ifs <;> rfl

/-- The event is put at the first tick from wherever it was behind it. -/
theorem Timely.scheduleNextWakeup (h : ∀ t ∈ c.m_wakeup_ticks, edge P curTick ≤ t ∧ P ∣ t)
    (he : c.m_wakeup_ticks.min ≤ c.m_wakeup_event) :
    Timely P curTick (scheduleNextWakeup P curTick c) := by
  refine ⟨by simpa using h, ?_⟩
  have hf : c.m_wakeup_ticks.filter (edge P curTick ≤ ·) = c.m_wakeup_ticks :=
    Finset.filter_true_of_mem fun t ht => (h t ht).1
  rw [scheduleNextWakeup_ticks]
  simp only [Consumer.scheduleNextWakeup, hf]
  split_ifs with hw
  · rfl
  · rw [not_or, not_lt] at hw
    exact le_antisymm hw.2 he

/-- Asking for a tick that has not passed. -/
theorem Timely.scheduleEventAbsolute (hP : 0 < P) (h : Timely P curTick c) {evt_time : ℕ}
    (ht : curTick ≤ evt_time) : Timely P curTick (c.scheduleEventAbsolute P curTick evt_time) := by
  refine .scheduleNextWakeup (fun t hm => ?_) ?_
  · rcases Finset.mem_insert.mp hm with rfl | hm
    · exact ⟨edge_mono hP ht, dvd_edge P evt_time⟩
    · exact h.edges t hm
  · exact (Finset.min_mono (Finset.subset_insert _ _)).trans h.event.ge

theorem mem_scheduleEventAbsolute {evt_time t : ℕ} :
    t ∈ (c.scheduleEventAbsolute P curTick evt_time).m_wakeup_ticks ↔
      t = edge P evt_time ∨ t ∈ c.m_wakeup_ticks := by
  rw [Consumer.scheduleEventAbsolute, scheduleNextWakeup_ticks, Finset.mem_insert]

/-- Time passes up to the event. -/
theorem Timely.tick (hP : 0 < P) (h : Timely P curTick c) {t : ℕ} (ht : t ≤ c.m_wakeup_event) :
    Timely P t c := by
  refine ⟨fun u hu => ⟨edge_le hP ?_ (h.edges u hu).2, (h.edges u hu).2⟩, h.event⟩
  have hle : (t : WithTop ℕ) ≤ u := ht.trans (h.event ▸ Finset.min_le hu)
  exact WithTop.coe_le_coe.mp hle

/-- **The event comes when it is asked for**: the first tick is the present one, and it is taken out
of the set. -/
theorem Timely.processCurrentEvent (hP : 0 < P) (h : Timely P curTick c)
    (he : c.m_wakeup_event = curTick) : ∃ c', c.processCurrentEvent P curTick = some c' ∧
      Timely P curTick c' ∧ c'.m_wakeup_ticks = c.m_wakeup_ticks.erase curTick := by
  have hmin : c.m_wakeup_ticks.min = (curTick : WithTop ℕ) := h.event ▸ he
  have hedge : edge P curTick = curTick :=
    le_antisymm (h.edges curTick (Finset.mem_of_min hmin)).1 (le_edge hP curTick)
  refine ⟨_, if_pos (by rw [hmin, hedge]), .scheduleNextWakeup (fun t ht => ?_) le_top, ?_⟩
  · exact h.edges t (Finset.mem_of_mem_erase ht)
  · rw [scheduleNextWakeup_ticks, hedge]

end Consumer

end SttRuby.Network
