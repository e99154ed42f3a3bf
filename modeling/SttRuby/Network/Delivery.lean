import SttRuby.Network.SimpleNetwork

/-!
# Network — Delivery

What is sent through the simple network arrives.

* `exactly_once`: what was sent to a node is on its way to it or has been received by it, once.
* `network_delivers`: the network comes to rest after a number of steps that is known beforehand,
  and then everything that was sent has been received.

The invariant is that every node in the destination of a message can be reached from where the
message is (`Routed`).  Every step then brings some message closer to its nodes, and none of them
fails.
-/

namespace SttRuby.Network

variable {N R : ℕ} {μ : Type}

/-! ### What the steps do -/

namespace Topology

variable {t : Topology N R} {r : Fin R} {place : Place N R}

open SwitchID

theorem leadsTo_of_consumer (h : t.consumer place = some r) :
    t.leadsTo place = some (router r) := by
  cases place with
  | toNet d =>
      have h : t.attached d = some r := h
      rw [leadsTo, h]
      rfl
  | port => cases h
  | wire r' link =>
      rw [consumer] at h
      rw [leadsTo]
      cases hn : (t.outPorts r')[link]?.map (·.next) with
      | none => rw [hn] at h; cases h
      | some p =>
          rw [hn] at h
          cases p with
          | into | out => cases h
          | router => cases h; rfl
  | fromNet => cases h

end Topology

namespace SimpleNetwork

variable [DecidableEq μ] {t : Topology N R} {s s' : SimpleNetwork N R μ} {place : Place N R}
  {m : NetMsg N μ} {r : Fin R}

open SwitchID

/-- A quantity of what is in the buffers. -/
def tally {M : Type*} [AddCommMonoid M] (f : Place N R → NetMsg N μ → M)
    (l : List (Place N R × NetMsg N μ)) : M :=
  (l.map fun x => f x.1 x.2).sum

/-- The parts of a message that go to the out ports of a router. -/
def distribute (t : Topology N R) (r : Fin R) (m : NetMsg N μ)
    (outs : List (Finset (Fin N) × ℕ)) (s : SimpleNetwork N R μ) : SimpleNetwork N R μ :=
  outs.foldl (fun s o => s.enqueue t (.port r o.2) { m with destination := o.1 }) s

/-- The ports, which no switch consumes, with the parts. -/
def parts (r : Fin R) (m : NetMsg N μ) (outs : List (Finset (Fin N) × ℕ)) :
    List (Place N R × NetMsg N μ) :=
  (outs.map fun o => (Place.port r o.2, { m with destination := o.1 })).reverse

omit [DecidableEq μ] in
theorem distribute_eq (t : Topology N R) (r : Fin R) (m : NetMsg N μ)
    (outs : List (Finset (Fin N) × ℕ)) (s : SimpleNetwork N R μ) :
    distribute t r m outs s = { s with buffers := parts r m outs ++ s.buffers } := by
  induction outs generalizing s with
  | nil => rfl
  | cons o outs ih =>
      rw [distribute, List.foldl_cons]
      exact (ih _).trans (by simp [enqueue, parts])

section Tally

variable {M : Type*} [AddCommMonoid M] (f : Place N R → NetMsg N μ → M)
  {l : List (Place N R × NetMsg N μ)}

omit [DecidableEq μ] in
theorem tally_cons : tally f ((place, m) :: l) = f place m + tally f l := by simp [tally]

theorem tally_erase (h : (place, m) ∈ l) :
    f place m + tally f (l.erase (place, m)) = tally f l := by
  have hperm := (List.perm_cons_erase h).map fun x => f x.1 x.2
  exact hperm.sum_eq.symm

omit [DecidableEq μ] in
theorem tally_parts {outs : List (Finset (Fin N) × ℕ)} : tally f (parts r m outs ++ l) =
    (outs.map fun o => f (.port r o.2) { m with destination := o.1 }).sum + tally f l := by
  simp [tally, parts, List.sum_reverse, Function.comp_def]

end Tally

/-- What a step of the network can do. -/
inductive Stepped (t : Topology N R) (s : SimpleNetwork N R μ) :
    NetCall N R μ → SimpleNetwork N R μ → Prop where
  | send {r : Fin R} {d : Fin N} {m : NetMsg N μ} (ha : t.attached d = some r) :
      Stepped t s (.send d m) { s.enqueue t (.toNet d) m with sent := s.sent + m.deliveries }
  | operate {r : Fin R} {place : Place N R} {m : NetMsg N μ} {m_links : List (LinkInfo N R)}
      {outs : List (Finset (Fin N) × ℕ)} (hr : t.consumer place = some r)
      (hm : (place, m) ∈ s.buffers) (hperm : m_links.Perm (t.outPorts r))
      (ho : findRoute m_links m.destination = some outs) :
      Stepped t s (.operateMessageBuffer place m m_links) (distribute t r m outs { s with
        buffers := s.buffers.erase (place, m)
        m_pending_message_count := Function.update s.m_pending_message_count r
          (s.m_pending_message_count r - 1) })
  | throttle {r : Fin R} {link : ℕ} {m : NetMsg N μ} {place : Place N R}
      (hm : (Place.port r link, m) ∈ s.buffers) (hto : t.leadsTo place = t.leadsTo (.port r link))
      (hplace : (∃ r', place = .wire r link ∧ t.consumer place = some r') ∨
        ∃ d, place = .fromNet d) :
      Stepped t s (.throttle r link m)
        (enqueue t place m { s with buffers := s.buffers.erase (.port r link, m) })
  | receive {d : Fin N} {m : NetMsg N μ} (hm : (Place.fromNet d, m) ∈ s.buffers) :
      Stepped t s (.receive d m) { s with
        buffers := s.buffers.erase (.fromNet d, m)
        received := s.received + {(m.body, d)} }

theorem stepped {c : NetCall N R μ} (h : s.step t c = some s') : Stepped t s c s' := by
  cases c with
  | send d m =>
      obtain ⟨r, ha, rfl⟩ := Option.map_eq_some_iff.mp h
      exact .send ha
  | operateMessageBuffer place m m_links =>
      rw [step] at h
      cases hr : t.consumer place with
      | none => rw [hr] at h; cases h
      | some r =>
          rw [hr] at h
          obtain ⟨⟨hm, hperm, -⟩, h⟩ := Option.ite_none_right_eq_some.mp h
          obtain ⟨outs, ho, rfl⟩ := Option.map_eq_some_iff.mp h
          exact .operate hr hm hperm ho
  | throttle r link m =>
      obtain ⟨hm, h⟩ := Option.ite_none_right_eq_some.mp h
      cases hn : (t.outPorts r)[link]?.map (·.next) with
      | none => simp only [hn] at h; cases h
      | some p =>
          simp only [hn] at h
          cases p with
          | into => cases h
          | out d =>
              cases h
              exact .throttle hm hn.symm (.inr ⟨d, rfl⟩)
          | router r' =>
              cases h
              have hc : t.consumer (.wire r link) = some r' := by rw [Topology.consumer, hn]
              exact .throttle hm rfl (.inl ⟨r', rfl, hc⟩)
  | receive d m =>
      obtain ⟨hm, h⟩ := Option.ite_none_right_eq_some.mp h
      cases h
      exact .receive hm

/-! ### The invariant -/

/-- A message is where every node it is for can be reached from; a wire leads to a router. -/
structure Placed (t : Topology N R) (place : Place N R) (m : NetMsg N μ) : Prop where
  nonempty : m.destination.Nonempty
  near : ∃ p, t.leadsTo place = some p ∧ ∀ d ∈ m.destination, t.dist 0 p (out d) < INFINITE_LATENCY
  wire : ∀ r link, place = .wire r link → ∃ r', t.consumer place = some r'

/-- Every message is on its way, each switch knows how many come to it, and what was sent is in the
buffers or was received. -/
structure Routed (t : Topology N R) (s : SimpleNetwork N R μ) : Prop where
  placed : ∀ x ∈ s.buffers, Placed t x.1 x.2
  counted : ∀ r, s.m_pending_message_count r =
    tally (fun place _ => if t.consumer place = some r then 1 else 0) s.buffers
  conserved : s.sent = tally (fun _ m => m.deliveries) s.buffers + s.received

omit [DecidableEq μ] in
theorem Placed.dist_router (h : Placed t place m) (hr : t.consumer place = some r) {d : Fin N}
    (hd : d ∈ m.destination) : t.dist 0 (router r) (out d) < INFINITE_LATENCY := by
  obtain ⟨p, hp, hlt⟩ := h.near
  rw [Topology.leadsTo_of_consumer hr, Option.some.injEq] at hp
  exact hp ▸ hlt d hd

omit [DecidableEq μ] in
/-- What is in the queue of a node is for that node alone. -/
theorem Placed.deliveries_fromNet (ht : t.Sane) {d : Fin N} (h : Placed t (.fromNet d) m) :
    m.deliveries = {(m.body, d)} := by
  obtain ⟨p, hp, hlt⟩ := h.near
  cases hp
  have hdest : m.destination = {d} := by
    refine Finset.eq_singleton_iff_nonempty_unique_mem.mpr ⟨h.nonempty, fun d' hd' => ?_⟩
    exact ht.eq_of_dist_out (hlt d' hd')
  rw [NetMsg.deliveries, hdest]
  rfl

omit [DecidableEq μ] in
/-- The port that a part of a message goes to leads closer to its nodes. -/
theorem port_closer (ht : t.Sane) {m_links : List (LinkInfo N R)}
    {outs : List (Finset (Fin N) × ℕ)} (hperm : m_links.Perm (t.outPorts r))
    (ho : findRoute m_links m.destination = some outs) {o : Finset (Fin N) × ℕ} (h : o ∈ outs) :
    ∃ p, t.leadsTo (.port r o.2) = some p ∧
      ∀ d ∈ o.1, t.dist 0 p (out d) < t.dist 0 (router r) (out d) := by
  obtain ⟨-, -, link, hl, hid, hsub⟩ := findRoute_mem ho h
  have hmem := hperm.mem_iff.mp hl
  refine ⟨link.next, ?_, fun d hd => ht.entry_closer (Topology.outPorts_entry hmem (hsub hd))⟩
  rw [Topology.leadsTo, ← hid, Topology.outPorts_get hmem]
  rfl

theorem Routed.placed_stepped (h : Routed t s) (ht : t.Wired) {c : NetCall N R μ}
    (hg : Reachable t s c) (hs : Stepped t s c s') : ∀ x ∈ s'.buffers, Placed t x.1 x.2 := by
  intro x hx
  cases hs with
  | @send _ src m ha =>
      rcases List.mem_cons.mp hx with rfl | hx
      · obtain ⟨hne, hlt⟩ := hg
        refine ⟨hne, ⟨_, by rw [Topology.leadsTo, ha]; rfl, fun d hd => ?_⟩, by simp⟩
        obtain ⟨r, har, hr⟩ := ht.attached (hlt d hd)
        obtain rfl := Option.some.inj (ha.symm.trans har)
        exact hr
      · exact h.placed x hx
  | @operate r place m _ outs hr hm hperm ho =>
      rw [distribute_eq] at hx
      rcases List.mem_append.mp hx with hx | hx
      · obtain ⟨o, hmem, rfl⟩ := List.mem_map.mp (List.mem_reverse.mp hx)
        obtain ⟨hne, hsub, -⟩ := findRoute_mem ho hmem
        obtain ⟨p, hp, hlt⟩ := port_closer ht.toSane hperm ho hmem
        refine ⟨hne, ⟨p, hp, fun d hd => ?_⟩, by simp⟩
        exact (hlt d hd).trans ((h.placed _ hm).dist_router hr (hsub hd))
      · exact h.placed x (List.mem_of_mem_erase hx)
  | @throttle r link m place hm hto hplace =>
      rcases List.mem_cons.mp hx with rfl | hx
      · have hp := h.placed _ hm
        refine ⟨hp.nonempty, ?_, fun r₁ l₁ heq => ?_⟩
        · dsimp only
          rw [hto]
          exact hp.near
        · obtain ⟨r', -, hc⟩ | ⟨d, rfl⟩ := hplace
          · exact ⟨r', hc⟩
          · cases heq
      · exact h.placed x (List.mem_of_mem_erase hx)
  | receive hm => exact h.placed x (List.mem_of_mem_erase hx)

theorem Routed.counted_stepped (h : Routed t s) {c : NetCall N R μ} (hs : Stepped t s c s')
    (r : Fin R) : s'.m_pending_message_count r =
      tally (fun place _ => if t.consumer place = some r then 1 else 0) s'.buffers := by
  have hcount := h.counted r
  cases hs with
  | send ha =>
      dsimp only [enqueue]
      rw [tally_cons, hcount, add_comm]
  | @operate r' place m _ outs hr hm hperm ho =>
      have herase := tally_erase (fun place _ => if t.consumer place = some r then 1 else 0) hm
      rw [distribute_eq, tally_parts]
      by_cases hrr : r = r'
      · subst hrr
        simp [hr] at herase ⊢
        omega
      · have hne : r' ≠ r := Ne.symm hrr
        simp [hr, hne, hrr] at herase ⊢
        omega
  | @throttle r' link m place hm hto hplace =>
      have herase := tally_erase (fun place _ => if t.consumer place = some r then 1 else 0) hm
      dsimp only [enqueue]
      rw [tally_cons, hcount, ← herase]
      simp [add_comm]
  | @receive d m hm =>
      have herase := tally_erase (fun place _ => if t.consumer place = some r then 1 else 0) hm
      rw [hcount, ← herase]
      simp

theorem Routed.conserved_stepped (h : Routed t s) (ht : t.Sane) {c : NetCall N R μ}
    (hs : Stepped t s c s') :
    s'.sent = tally (fun _ m => m.deliveries) s'.buffers + s'.received := by
  have hsent := h.conserved
  cases hs with
  | send ha =>
      dsimp only [enqueue]
      rw [tally_cons, hsent]
      abel
  | @operate r' place m _ outs hr hm hperm ho =>
      rw [distribute_eq, tally_parts]
      dsimp only
      rw [hsent, ← tally_erase _ hm]
      exact congrArg (· + _ + _) (findRoute_partition (m.body, ·) ho).symm
  | throttle hm hto hplace =>
      dsimp only [enqueue]
      rw [tally_cons, tally_erase (fun _ m => m.deliveries) hm, hsent]
  | receive hm =>
      dsimp only
      rw [hsent, ← tally_erase _ hm, (h.placed _ hm).deliveries_fromNet ht]
      abel

theorem routed_reach (ht : t.Wired) (h : (simpleNetwork μ t).Reach (Reachable t) s) :
    Routed t s := by
  refine h.invariant (I := Routed t) ?_ ?_
  · rintro _ rfl
    exact ⟨by simp, by simp [tally], by simp [tally]⟩
  · intro s c s' hr hg hs
    have hs := stepped hs
    exact ⟨hr.placed_stepped ht hg hs, hr.counted_stepped hs, hr.conserved_stepped ht.toSane hs⟩

/-- What has been sent and not received. -/
def inFlight (s : SimpleNetwork N R μ) : Multiset (μ × Fin N) :=
  tally (fun _ m => m.deliveries) s.buffers

/-- **Exactly once.**  What was sent to a node is on its way to it or was received by it, as often
as it was sent, however its messages were split. -/
theorem exactly_once (ht : t.Wired) (h : (simpleNetwork μ t).Reach (Reachable t) s) :
    s.sent = s.inFlight + s.received :=
  (routed_reach ht h).conserved

theorem twoRouters_wired : twoRouters.Wired :=
  { Topology.twoRouters_sane with single := by decide +kernel }

/-- A message for both nodes, of which the first has received it. -/
def halfDelivered : List (NetCall 2 2 ℕ) :=
  [.send left ⟨7, {left, right}⟩,
   .operateMessageBuffer (.toNet left) ⟨7, {left, right}⟩ (twoRouters.outPorts left).reverse,
   .throttle left 0 ⟨7, {left}⟩, .receive left ⟨7, {left}⟩]

theorem exactly_once_halfDelivered : ∃ s : SimpleNetwork 2 2 ℕ, s.received = {(7, left)} ∧
    s.inFlight = {(7, right)} ∧ s.sent = s.inFlight + s.received := by
  obtain ⟨s, hs, hr, hf⟩ := Lib.Machine.trace_reaches (M := simpleNetwork ℕ twoRouters)
    (G := Reachable twoRouters) (l := halfDelivered)
    (P := fun s => s.received = {(7, left)} ∧ s.inFlight = {(7, right)}) rfl (by decide +kernel)
  exact ⟨s, hr, hf, exactly_once twoRouters_wired hs⟩

theorem Routed.exists_step (h : Routed t s) (ht : t.Sane) {m_links : List (LinkInfo N R)}
    (hm : (place, m) ∈ s.buffers) (hr : t.consumer place = some r)
    (hperm : m_links.Perm (t.outPorts r)) :
    ∃ s', s.step t (.operateMessageBuffer place m m_links) = some s' := by
  have hcover : ∀ d ∈ m.destination, ∃ link ∈ m_links, d ∈ link.m_routing_entry := by
    intro d hd
    obtain ⟨j, hj⟩ := ht.exists_entry (by simp) ((h.placed _ hm).dist_router hr hd)
    obtain ⟨link, hl, hdl⟩ := ht.exists_port hj
    exact ⟨link, hperm.mem_iff.mpr hl, hdl⟩
  obtain ⟨outs, ho⟩ := findRoute_of_cover hcover
  have hpos : s.m_pending_message_count r ≠ 0 := by
    rw [h.counted r, ← tally_erase _ hm, if_pos hr]
    omega
  rw [step, hr]
  dsimp only
  rw [if_pos ⟨hm, hperm, hpos⟩, ho]
  exact ⟨_, rfl⟩

/-- **Every message has a way.**  A switch that finds a message counts on one, and the links take
all of its nodes, in whatever order they are tried. -/
theorem all_routed (ht : t.Wired) (h : (simpleNetwork μ t).Reach (Reachable t) s)
    {m_links : List (LinkInfo N R)} (hm : (place, m) ∈ s.buffers) (hr : t.consumer place = some r)
    (hperm : m_links.Perm (t.outPorts r)) :
    ∃ s', s.step t (.operateMessageBuffer place m m_links) = some s' :=
  (routed_reach ht h).exists_step ht.toSane hm hr hperm

theorem all_routed_reverse : ∃ s s' : SimpleNetwork 2 2 ℕ,
    (Place.toNet left, ⟨7, {left, right}⟩) ∈ s.buffers ∧ s.step twoRouters (.operateMessageBuffer
      (.toNet left) ⟨7, {left, right}⟩ (twoRouters.outPorts left).reverse) = some s' := by
  obtain ⟨s, hs, hm⟩ := Lib.Machine.trace_reaches (M := simpleNetwork ℕ twoRouters)
    (G := Reachable twoRouters) (l := halfDelivered.take 1)
    (P := fun s => (Place.toNet left, ⟨7, {left, right}⟩) ∈ s.buffers) rfl (by decide +kernel)
  obtain ⟨s', hs'⟩ := all_routed (r := left) twoRouters_wired hs hm (by decide +kernel)
    (List.reverse_perm _)
  exact ⟨s, s', hm, hs'⟩

/-! ### Steps that remain -/

/-- A throttle is between a port and the next switch. -/
def stage : Place N R → ℕ
  | .port _ _ => 2
  | _ => 1

/-- Two steps for each unit of distance, and those of the stage. -/
def height (t : Topology N R) (place : Place N R) (d : Fin N) : ℕ :=
  2 * (t.leadsTo place).elim 0 (t.dist 0 · (out d)) + stage place

theorem stage_pos : 0 < stage place := by
  cases place <;> simp [stage]

/-- A bound for the number of steps that can still be taken. -/
def remaining (t : Topology N R) (s : SimpleNetwork N R μ) : ℕ :=
  tally (fun place m => ∑ d ∈ m.destination, height t place d) s.buffers

theorem height_of_leadsTo {p : SwitchID N R} {d : Fin N} (h : t.leadsTo place = some p) :
    height t place d = 2 * t.dist 0 p (out d) + stage place := by
  rw [height, h]
  rfl

omit [DecidableEq μ] in
/-- The parts of a message are lower than it was. -/
theorem parts_lower (ht : t.Sane) (hne : m.destination.Nonempty) (hr : t.consumer place = some r)
    {m_links : List (LinkInfo N R)} {outs : List (Finset (Fin N) × ℕ)}
    (hperm : m_links.Perm (t.outPorts r)) (ho : findRoute m_links m.destination = some outs) :
    (outs.map fun o => ∑ d ∈ o.1, height t (.port r o.2) d).sum <
      ∑ d ∈ m.destination, height t place d := by
  calc (outs.map fun o => ∑ d ∈ o.1, height t (.port r o.2) d).sum
      ≤ (outs.map fun o => ∑ d ∈ o.1, 2 * t.dist 0 (router r) (out d)).sum := by
        refine List.sum_le_sum fun o h => Finset.sum_le_sum fun d hd => ?_
        obtain ⟨p, hp, hlt⟩ := port_closer ht hperm ho h
        have := hlt d hd
        rw [height_of_leadsTo hp, stage]
        omega
    _ = ∑ d ∈ m.destination, 2 * t.dist 0 (router r) (out d) := findRoute_sum _ ho
    _ < ∑ d ∈ m.destination, height t place d := by
        refine Finset.sum_lt_sum_of_nonempty hne fun d _ => ?_
        rw [height_of_leadsTo (Topology.leadsTo_of_consumer hr)]
        exact Nat.lt_add_of_pos_right stage_pos

/-- Every move makes what remains smaller. -/
theorem Routed.remaining_lt (h : Routed t s) (ht : t.Sane) {c : NetCall N R μ}
    (hc : c.isMove = true) (hs : Stepped t s c s') : remaining t s' < remaining t s := by
  unfold remaining
  cases hs with
  | send => cases hc
  | operate hr hm hperm ho =>
      rw [distribute_eq, tally_parts, ← tally_erase _ hm]
      exact Nat.add_lt_add_right (parts_lower ht (h.placed _ hm).nonempty hr hperm ho) _
  | throttle hm hto hplace =>
      dsimp only [enqueue]
      rw [tally_cons, ← tally_erase _ hm]
      refine Nat.add_lt_add_right (Finset.sum_lt_sum_of_nonempty (h.placed _ hm).nonempty ?_) _
      intro d _
      rw [height, height, hto]
      obtain ⟨_, rfl, -⟩ | ⟨_, rfl⟩ := hplace <;> simp [stage]
  | receive hm =>
      dsimp only
      rw [← tally_erase _ hm]
      refine Nat.lt_add_of_pos_left (Finset.sum_pos (fun d _ => ?_) (h.placed _ hm).nonempty)
      exact Nat.add_pos_right _ stage_pos

theorem step_sent {c : NetCall N R μ} (hc : c.isMove = true) (hs : Stepped t s c s') :
    s'.sent = s.sent := by
  cases hs with
  | send => cases hc
  | operate => rw [distribute_eq]
  | throttle | receive => rfl

omit [DecidableEq μ] in
theorem reachable_of_isMove {c : NetCall N R μ} (hc : c.isMove = true) : Reachable t s c := by
  cases c with
  | send => cases hc
  | _ => trivial

/-- While there are messages, one can be moved. -/
theorem Routed.exists_move (h : Routed t s) (ht : t.Sane) (hm : (place, m) ∈ s.buffers) :
    ∃ c s', c.isMove = true ∧ s.step t c = some s' := by
  have hp := h.placed _ hm
  obtain ⟨p, hto, -⟩ := hp.near
  cases place with
  | toNet d =>
      obtain ⟨r, hr, -⟩ := Option.map_eq_some_iff.mp hto
      obtain ⟨s', hs⟩ := h.exists_step ht hm hr (.refl _)
      exact ⟨_, s', rfl, hs⟩
  | port r link =>
      obtain ⟨x, hx, hnext⟩ := Option.map_eq_some_iff.mp hto
      have hinto : ∀ d, p ≠ into d := fun d =>
        hnext ▸ Topology.outPorts_next (List.mem_of_getElem? hx)
      have hto : (t.outPorts r)[link]?.map (·.next) = some p := hto
      refine ⟨.throttle r link m, ?_⟩
      rw [step, if_pos hm, hto]
      cases p with
      | into d => exact absurd rfl (hinto d)
      | out | router => exact ⟨_, rfl, rfl⟩
  | wire r link =>
      obtain ⟨r', hr⟩ := hp.wire r link rfl
      obtain ⟨s', hs⟩ := h.exists_step ht hm hr (.refl _)
      exact ⟨_, s', rfl, hs⟩
  | fromNet d => exact ⟨.receive d m, _, rfl, by rw [step, if_pos hm]⟩

/-- **The network delivers.**  The steps that move messages come to an end, and when none is left
every node has received what was sent to it. -/
theorem network_delivers (ht : t.Wired) (h : (simpleNetwork μ t).Reach (Reachable t) s)
    {cs : List (NetCall N R μ)}
    (hrun : (simpleNetwork μ t).Run (fun _ c => c.isMove = true) s cs s') :
    cs.length ≤ remaining t s ∧
      ((∀ c, c.isMove = true → s'.step t c = none) → s'.received = s.sent) := by
  have hmoved : (simpleNetwork μ t).Reach (Reachable t) s' ∧ s'.sent = s.sent ∧
      cs.length + remaining t s' ≤ remaining t s := by
    induction hrun with
    | refl => exact ⟨h, rfl, by simp⟩
    | @snoc cs s₁ s₂ c _ hc hs ih =>
        obtain ⟨hreach, hsent, hle⟩ := ih
        have hlt := (routed_reach ht hreach).remaining_lt ht.toSane hc (stepped hs)
        refine ⟨hreach.snoc (reachable_of_isMove hc) hs,
          (step_sent hc (stepped hs)).trans hsent, ?_⟩
        rw [List.length_append, List.length_singleton]
        omega
  obtain ⟨hreach, hsent, hle⟩ := hmoved
  refine ⟨by omega, fun hstuck => ?_⟩
  have hnil : s'.buffers = [] := List.eq_nil_iff_forall_not_mem.mpr fun x hx => by
    obtain ⟨c, s₂, hc, hs⟩ := (routed_reach ht hreach).exists_move ht.toSane hx
    rw [hstuck c hc] at hs
    cases hs
  rw [← hsent, (routed_reach ht hreach).conserved, hnil]
  simp [tally]

/-- The state after the first of these calls, and the steps to the end. -/
def justSent : SimpleNetwork 2 2 ℕ :=
  { enqueue twoRouters (.toNet left) ⟨7, {left, right}⟩ {} with sent := {(7, left), (7, right)} }

def delivered : List (NetCall 2 2 ℕ) :=
  halfDelivered.drop 1 ++
    [.throttle left 1 ⟨7, {right}⟩,
     .operateMessageBuffer (.wire left 1) ⟨7, {right}⟩ (twoRouters.outPorts right),
     .throttle right 0 ⟨7, {right}⟩, .receive right ⟨7, {right}⟩]

theorem network_delivers_twoRouters : ∃ s : SimpleNetwork 2 2 ℕ, s.buffers = [] ∧
    delivered.length ≤ remaining twoRouters justSent ∧ s.received = justSent.sent := by
  have hreach : (simpleNetwork ℕ twoRouters).Reach (Reachable twoRouters) justSent :=
    Lib.Machine.Reach.snoc (a := .send left ⟨7, {left, right}⟩) (.init rfl) (by decide +kernel) rfl
  obtain ⟨s, hrun, hnil⟩ := Lib.Machine.trace_exists (M := simpleNetwork ℕ twoRouters)
    (G := fun _ c => c.isMove = true) (s := justSent) (l := delivered)
    (P := fun s => s.buffers = []) (by decide +kernel)
  obtain ⟨hle, hall⟩ := network_delivers twoRouters_wired hreach hrun
  refine ⟨s, hnil, hle, hall fun c hc => ?_⟩
  cases c with
  | send => cases hc
  | operateMessageBuffer place => cases hr : twoRouters.consumer place <;> simp [step, hnil, hr]
  | throttle | receive => simp [step, hnil]

end SimpleNetwork

end SttRuby.Network
