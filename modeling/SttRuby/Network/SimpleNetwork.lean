import SttRuby.Lib.Runs
import SttRuby.Network.Topology

/-!
# Network — Simple network

The simple network on one virtual network: the routers that `Topology` connects, each with a
`PerfectSwitch` that distributes a message over its out ports by the routing entries (`findRoute`)
and a `Throttle` for each out port that moves it on.  A message for several nodes is split where
their ways part.  The buffers are without bounds, as they are by default, and any message of a
buffer may be the next; the order of the ports, the priorities and the bandwidth only choose among
these steps.
-/

namespace SttRuby.Network

/-! ### The out ports of a router -/

/-- `LinkInfo`, with the switch that the link leads to. -/
structure LinkInfo (N R : ℕ) where
  m_link_id : ℕ
  m_routing_entry : Finset (Fin N)
  next : SwitchID N R
  deriving DecidableEq

/-- `WeightBased::findRoute`: the destinations of a message for each of the out links that take part
in it, by their numbers; `none` if some destination is left. -/
def findRoute {N R : ℕ} : List (LinkInfo N R) → Finset (Fin N) → Option (List (Finset (Fin N) × ℕ))
  | [], msg_dsts => if msg_dsts.card = 0 then some [] else none
  | link :: m_links, msg_dsts =>
      if (msg_dsts ∩ link.m_routing_entry).Nonempty then
        (findRoute m_links (msg_dsts \ link.m_routing_entry)).map
          ((msg_dsts ∩ link.m_routing_entry, link.m_link_id) :: ·)
      else findRoute m_links msg_dsts

section FindRoute

variable {N R : ℕ} {links : List (LinkInfo N R)} {D : Finset (Fin N)}

/-- Destinations that the entries cover are all routed. -/
theorem findRoute_of_cover (h : ∀ d ∈ D, ∃ link ∈ links, d ∈ link.m_routing_entry) :
    ∃ outs, findRoute links D = some outs := by
  induction links generalizing D with
  | nil =>
      have hD : D = ∅ := Finset.eq_empty_of_forall_notMem fun d hd => by
        obtain ⟨_, hm, -⟩ := h d hd
        cases hm
      exact ⟨[], by simp [findRoute, hD]⟩
  | cons link links ih =>
      rw [findRoute]
      split_ifs with hne
      · obtain ⟨outs, ho⟩ := ih (D := D \ link.m_routing_entry) fun d hd => by
          obtain ⟨hd, hnot⟩ := Finset.mem_sdiff.mp hd
          obtain ⟨l, hl, hdl⟩ := h d hd
          rcases List.mem_cons.mp hl with rfl | hl
          · exact absurd hdl hnot
          · exact ⟨l, hl, hdl⟩
        exact ⟨_, by rw [ho]; rfl⟩
      · refine ih fun d hd => ?_
        obtain ⟨l, hl, hdl⟩ := h d hd
        rcases List.mem_cons.mp hl with rfl | hl
        · exact absurd ⟨d, Finset.mem_inter.mpr ⟨hd, hdl⟩⟩ hne
        · exact ⟨l, hl, hdl⟩

/-- The parts make up the whole, whatever is computed of them. -/
theorem findRoute_partition {β : Type} (f : Fin N → β) {outs : List (Finset (Fin N) × ℕ)}
    (h : findRoute links D = some outs) :
    (outs.map fun o => o.1.val.map f).sum = D.val.map f := by
  induction links generalizing D outs with
  | nil =>
      rw [findRoute] at h
      split_ifs at h with hD
      cases h
      simp [Finset.card_eq_zero.mp hD]
  | cons link links ih =>
      rw [findRoute] at h
      split_ifs at h with hne
      · obtain ⟨outs', ho, rfl⟩ := Option.map_eq_some_iff.mp h
        rw [List.map_cons, List.sum_cons, ih ho, ← Multiset.map_add]
        congr 1
        rw [← Finset.disjUnion_val _ _ (Finset.disjoint_sdiff_inter D link.m_routing_entry).symm]
        congr 1
        rw [Finset.disjUnion_eq_union, Finset.union_comm, Finset.sdiff_union_inter]
      · exact ih h

theorem findRoute_sum (f : Fin N → ℕ) {outs : List (Finset (Fin N) × ℕ)}
    (h : findRoute links D = some outs) :
    (outs.map fun o => ∑ d ∈ o.1, f d).sum = ∑ d ∈ D, f d := by
  have hsum := congrArg Multiset.sumAddMonoidHom (findRoute_partition f h)
  rw [map_list_sum, List.map_map] at hsum
  exact hsum

/-- Each part is not empty, and is for a link that has it in its entry. -/
theorem findRoute_mem {outs : List (Finset (Fin N) × ℕ)} (h : findRoute links D = some outs)
    {o : Finset (Fin N) × ℕ} (ho : o ∈ outs) : o.1.Nonempty ∧ o.1 ⊆ D ∧
      ∃ link ∈ links, link.m_link_id = o.2 ∧ o.1 ⊆ link.m_routing_entry := by
  induction links generalizing D outs with
  | nil =>
      rw [findRoute] at h
      split_ifs at h
      cases h
      cases ho
  | cons link links ih =>
      rw [findRoute] at h
      split_ifs at h with hne
      · obtain ⟨outs', ho', rfl⟩ := Option.map_eq_some_iff.mp h
        rcases List.mem_cons.mp ho with rfl | ho
        · exact ⟨hne, Finset.inter_subset_left, link, by simp, rfl, Finset.inter_subset_right⟩
        · obtain ⟨hn, hs, l, hl, hid⟩ := ih ho' ho
          exact ⟨hn, hs.trans Finset.sdiff_subset, l, by simp [hl], hid⟩
      · obtain ⟨hn, hs, l, hl, hid⟩ := ih h ho
        exact ⟨hn, hs, l, by simp [hl], hid⟩

end FindRoute

namespace Topology

variable {N R : ℕ} (t : Topology N R)

open SwitchID

/-- The links from a router to another switch that `makeLink` hands to the network.  The network
uses the routing entry of the first virtual network, which a link has only if it carries it. -/
def portsTo (src dest : SwitchID N R) : List (Finset (Fin N) × SwitchID N R) :=
  if (List.range t.m_vnets).any fun v => t.topology_weights v src dest > 0 ∧
      t.topology_weights v src dest ≠ INFINITE_LATENCY then
    (t.linkGroup src dest).map fun link =>
      (if 0 ∈ link.vnets t.m_vnets then t.routingMap 0 src dest else ∅, dest)
  else []

/-- The out ports of a router, numbered as they are added. -/
def outPorts (r : Fin R) : List (LinkInfo N R) :=
  ((SwitchID.all N R).flatMap (t.portsTo (router r))).mapIdx fun k x =>
    { m_link_id := k, m_routing_entry := x.1, next := x.2 }

/-- The router that a node is connected to. -/
def attached (d : Fin N) : Option (Fin R) := (t.ext_links.find? (·.1 = d)).map (·.2.1)

variable {t} {r : Fin R} {d : Fin N} {link : LinkInfo N R}

/-- A port is found under its number. -/
theorem outPorts_get (h : link ∈ t.outPorts r) : (t.outPorts r)[link.m_link_id]? = some link := by
  obtain ⟨k, hk, rfl⟩ := List.mem_iff_getElem.mp h
  simp only [outPorts, List.getElem_mapIdx]
  simp [outPorts] at hk
  simp [hk]

theorem mem_outPorts (h : link ∈ t.outPorts r) :
    ∃ x ∈ t.portsTo (router r) link.next, link.m_routing_entry = x.1 := by
  obtain ⟨k, hk, rfl⟩ := List.mem_iff_getElem.mp h
  simp only [outPorts, List.getElem_mapIdx]
  have hk' : k < ((SwitchID.all N R).flatMap (t.portsTo (router r))).length := by
    simpa [outPorts] using hk
  obtain ⟨j, -, hx⟩ := List.mem_flatMap.mp (List.getElem_mem hk')
  generalize ((SwitchID.all N R).flatMap (t.portsTo (router r)))[k] = x at hx ⊢
  have hnext : x.2 = j := by
    unfold portsTo at hx
    split_ifs at hx
    · obtain ⟨_, -, rfl⟩ := List.mem_map.mp hx
      rfl
    · cases hx
  exact ⟨x, hnext ▸ hx, rfl⟩

/-- What a port has in its entry, the link has. -/
theorem outPorts_entry (h : link ∈ t.outPorts r) (hd : d ∈ link.m_routing_entry) :
    d ∈ t.routingMap 0 (router r) link.next := by
  obtain ⟨x, hx, heq⟩ := mem_outPorts h
  unfold portsTo at hx
  split_ifs at hx
  · obtain ⟨l, -, rfl⟩ := List.mem_map.mp hx
    rw [heq] at hd
    dsimp only at hd
    split_ifs at hd with hv
    · exact hd
    · exact absurd hd (Finset.notMem_empty d)
  · cases hx

/-- A port leads to a router or to a node. -/
theorem outPorts_next (h : link ∈ t.outPorts r) : link.next ≠ into d := by
  intro hnext
  obtain ⟨x, hx, -⟩ := mem_outPorts h
  unfold portsTo at hx
  split_ifs at hx
  · obtain ⟨l, hl, -⟩ := List.mem_map.mp hx
    simp [linkGroup, links, hnext] at hl
  · cases hx

/-- The links of the routing map have ports. -/
theorem Sane.exists_port (h : t.Sane) {j : SwitchID N R} (hd : d ∈ t.routingMap 0 (router r) j) :
    ∃ link ∈ t.outPorts r, d ∈ link.m_routing_entry := by
  obtain ⟨w, ⟨l, hc, rfl⟩, -, -⟩ := h.mem_routingMap.mp hd
  obtain ⟨hmem, hv⟩ := (carrier_iff h.accepted).mp hc
  have hw := h.weight _ hmem
  have heq : t.topology_weights 0 (router r) j = l.m_weight := by rw [topology_weights, hc]
  have hx : (t.routingMap 0 (router r) j, j) ∈ t.portsTo (router r) j := by
    rw [portsTo, if_pos]
    · refine List.mem_map.mpr ⟨l, ?_, by rw [if_pos hv]⟩
      simpa [linkGroup] using hmem
    · refine List.any_eq_true.mpr ⟨0, List.mem_range.mpr h.vnets, decide_eq_true ?_⟩
      exact ⟨heq ▸ hw.1, heq ▸ hw.2.ne⟩
  obtain ⟨k, hk, hget⟩ := List.mem_iff_getElem.mp
    (List.mem_flatMap.mpr ⟨j, SwitchID.mem_all j, hx⟩)
  refine ⟨{ m_link_id := k, m_routing_entry := t.routingMap 0 (router r) j, next := j },
    List.mem_iff_getElem.mpr ⟨k, by simpa [outPorts] using hk, ?_⟩, hd⟩
  simp only [outPorts, List.getElem_mapIdx, hget]

/-- Configurations in which every node is connected once: a queue has one consumer. -/
structure Wired (t : Topology N R) : Prop extends t.Sane where
  single : (t.ext_links.map (·.1)).Nodup

/-- The way of a message begins at the router of its node. -/
theorem Wired.attached (h : t.Wired) {src : Fin N}
    (hlt : t.dist 0 (into src) (out d) < INFINITE_LATENCY) :
    ∃ r, t.attached src = some r ∧ t.dist 0 (router r) (out d) < INFINITE_LATENCY := by
  have hne : (into src : SwitchID N R) ≠ out d := by simp
  obtain ⟨j, w, ⟨l, hc, rfl⟩, heq⟩ := h.dist.next hne hlt
  have hmem := ((carrier_iff h.accepted).mp hc).1
  obtain ⟨r, hext, rfl⟩ : ∃ r, (src, r, l) ∈ t.ext_links ∧ router r = j := by
    rcases List.mem_append.mp hmem with hm | hm
    · obtain ⟨⟨e, r, l'⟩, hext, hm⟩ := List.mem_flatMap.mp hm
      simp only [List.mem_cons, List.not_mem_nil, or_false, Prod.mk.injEq, into.injEq,
        reduceCtorEq, false_and] at hm
      obtain ⟨⟨rfl, rfl⟩, rfl⟩ := hm
      exact ⟨r, hext, rfl⟩
    · obtain ⟨x, -, hm⟩ := List.mem_map.mp hm
      simp at hm
  refine ⟨r, ?_, by omega⟩
  -- the first link of the node is its only one
  have hsome : (t.ext_links.find? (·.1 = src)).isSome = true :=
    List.find?_isSome.mpr ⟨_, hext, by simp⟩
  obtain ⟨y, hy⟩ := Option.isSome_iff_exists.mp hsome
  have hy1 : y.1 = src := by simpa using List.find?_some hy
  have hyx : y = (src, r, l) :=
    List.inj_on_of_nodup_map h.single (List.mem_of_find?_eq_some hy) hext hy1
  rw [Topology.attached, hy, hyx]
  rfl

end Topology

/-! ### The network -/

/-- A message of the network: the rest of it, and the nodes that it is still for. -/
structure NetMsg (N : ℕ) (μ : Type) where
  body : μ
  destination : Finset (Fin N)
  deriving DecidableEq

/-- The buffers: from a node into the network, from a switch to the throttle of an out port, from
that to the next switch, and from the network to a node. -/
inductive Place (N R : ℕ) where
  | toNet (d : Fin N)
  | port (r : Fin R) (link : ℕ)
  | wire (r : Fin R) (link : ℕ)
  | fromNet (d : Fin N)
  deriving DecidableEq

/-- What is in the buffers, how many messages each switch expects, and what was sent to and received
by each node. -/
structure SimpleNetwork (N R : ℕ) (μ : Type) where
  buffers : List (Place N R × NetMsg N μ) := []
  m_pending_message_count : Fin R → ℕ := fun _ => 0
  sent : Multiset (μ × Fin N) := 0
  received : Multiset (μ × Fin N) := 0

/-- What happens in the network. -/
inductive NetCall (N R : ℕ) (μ : Type) where
  /-- A node enqueues a message. -/
  | send (d : Fin N) (m : NetMsg N μ)
  /-- A switch distributes a message, with its links in the order `m_links`. -/
  | operateMessageBuffer (place : Place N R) (m : NetMsg N μ) (m_links : List (LinkInfo N R))
  /-- A throttle moves a message on. -/
  | throttle (r : Fin R) (link : ℕ) (m : NetMsg N μ)
  /-- A node dequeues a message. -/
  | receive (d : Fin N) (m : NetMsg N μ)

/-- Whether the call moves a message that is in the network. -/
def NetCall.isMove {N R : ℕ} {μ : Type} : NetCall N R μ → Bool
  | .send _ _ => false
  | _ => true

variable {N R : ℕ} {μ : Type}

/-- The nodes that a message is for, each with the message. -/
def NetMsg.deliveries (m : NetMsg N μ) : Multiset (μ × Fin N) := m.destination.val.map (m.body, ·)

namespace Topology

variable (t : Topology N R)

open SwitchID

/-- The switch that the messages of a buffer go to. -/
def leadsTo : Place N R → Option (SwitchID N R)
  | .toNet d => (t.attached d).map router
  | .port r link | .wire r link => (t.outPorts r)[link]?.map (·.next)
  | .fromNet d => some (out d)

/-- The router whose `PerfectSwitch` consumes a buffer. -/
def consumer : Place N R → Option (Fin R)
  | .toNet d => t.attached d
  | .wire r link => match (t.outPorts r)[link]?.map (·.next) with
      | some (router r') => some r'
      | _ => none
  | _ => none

@[simp] theorem consumer_port (r : Fin R) (link : ℕ) : t.consumer (.port r link) = none := rfl

@[simp] theorem consumer_fromNet (d : Fin N) : t.consumer (.fromNet d) = none := rfl

end Topology

namespace SimpleNetwork

variable [DecidableEq μ] (t : Topology N R)

open SwitchID

/-- A message is enqueued, and the switch that consumes the buffer counts it. -/
def enqueue (place : Place N R) (m : NetMsg N μ) (s : SimpleNetwork N R μ) : SimpleNetwork N R μ :=
  { s with
    buffers := (place, m) :: s.buffers
    m_pending_message_count := fun r =>
      s.m_pending_message_count r + if t.consumer place = some r then 1 else 0 }

/-- `none` where an assertion fails, and for messages that are not there. -/
def step (s : SimpleNetwork N R μ) : NetCall N R μ → Option (SimpleNetwork N R μ)
  | .send d m => (t.attached d).map fun _ =>
      { s.enqueue t (.toNet d) m with sent := s.sent + m.deliveries }
  | .operateMessageBuffer place m m_links =>
      match t.consumer place with
      | none => none
      | some r =>
          if (place, m) ∈ s.buffers ∧ m_links.Perm (t.outPorts r) ∧
              s.m_pending_message_count r ≠ 0 then
            (findRoute m_links m.destination).map fun output_links =>
              output_links.foldl
                (fun s o => s.enqueue t (.port r o.2) { m with destination := o.1 })
                { s with
                  buffers := s.buffers.erase (place, m)
                  m_pending_message_count := Function.update s.m_pending_message_count r
                    (s.m_pending_message_count r - 1) }
          else none
  | .throttle r link m =>
      if (Place.port r link, m) ∈ s.buffers then
        let s := { s with buffers := s.buffers.erase (.port r link, m) }
        match (t.outPorts r)[link]?.map (·.next) with
        | some (router _) => some (s.enqueue t (.wire r link) m)
        | some (out d) => some (s.enqueue t (.fromNet d) m)
        | _ => none
      else none
  | .receive d m =>
      if (Place.fromNet d, m) ∈ s.buffers then
        some { s with
          buffers := s.buffers.erase (.fromNet d, m)
          received := s.received + {(m.body, d)} }
      else none

end SimpleNetwork

/-- The simple network of a topology. -/
def simpleNetwork (μ : Type) [DecidableEq μ] (t : Topology N R) :
    Lib.Machine (SimpleNetwork N R μ) (NetCall N R μ) where
  start s := s = {}
  step := SimpleNetwork.step t

/-- Messages are sent to nodes that are not too far. -/
def Reachable (t : Topology N R) (_ : SimpleNetwork N R μ) : NetCall N R μ → Prop
  | .send d m => m.destination.Nonempty ∧
      ∀ d' ∈ m.destination, t.dist 0 (.into d) (.out d') < INFINITE_LATENCY
  | _ => True

instance (t : Topology N R) (s : SimpleNetwork N R μ) : DecidablePred (Reachable t s)
  | .send _ _ => inferInstanceAs (Decidable (_ ∧ _))
  | .operateMessageBuffer _ _ _ | .throttle _ _ _ | .receive _ _ => .isTrue trivial

end SttRuby.Network
