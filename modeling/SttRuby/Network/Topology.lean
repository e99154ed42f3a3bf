import Mathlib
import SttRuby.Lib.Paths

/-!
# Network — Topology

`Topology`: from the links of a configuration to the routing table of each link.  The weights of the
links are put into a matrix, `extend_shortest_path` makes the distances of all pairs from it, and
the routing entry of a link has the nodes to which it is the first link of a shortest path.

The distances are those of the walks along the links, up to `INFINITE_LATENCY`, and the two matrices
that are computed along with them, which the code does not use, are the latency and the intermediate
switches of one such walk (`shortest_path_spec`).  The routing entries cover every node that can be
reached (`Sane.exists_entry`), and each of them leads closer to its nodes (`Sane.entry_closer`).
-/

namespace SttRuby.Network

/-! ### Shortest paths -/

def INFINITE_LATENCY : ℕ := 10000

/-- A matrix with one entry replaced. -/
def setAt {V α : Type} [DecidableEq V] (f : V → V → α) (i j : V) (v : α) : V → V → α :=
  fun a b => if a = i ∧ b = j then v else f a b

section SetAt

variable {V α : Type} [DecidableEq V] (f : V → V → α) (i j : V) (v : α)

@[simp] theorem setAt_self : setAt f i j v i j = v := by simp [setAt]

theorem setAt_of_ne {a b : V} (h : ¬ (a = i ∧ b = j)) : setAt f i j v a b = f a b := by
  rw [setAt, if_neg h]

@[simp] theorem setAt_setAt (w : α) : setAt (setAt f i j v) i j w = setAt f i j w := by
  funext a b
  unfold setAt
  split_ifs <;> rfl

end SetAt

/-- The matrices of `extend_shortest_path`, for one virtual network. -/
structure PathInfo (V : Type) where
  dist : V → V → ℕ
  latencies : V → V → ℤ
  inter_switches : V → V → ℕ

/-- The variables of its innermost loop. -/
structure Via (V : Type) where
  minimum : ℕ
  intermediate_switch : Option V
  inter_switches : V → V → ℕ

namespace PathInfo

variable {V : Type} [DecidableEq V] (vs : List V)

/-- The innermost loop: the way from `i` to `j` over `k`. -/
def viaSwitch (x : PathInfo V) (i j : V) (y : Via V) (k : V) : Via V :=
  let minimum := min y.minimum (x.dist i k + x.dist k j)
  if y.minimum ≠ minimum then
    { minimum := minimum
      intermediate_switch := some k
      inter_switches :=
        setAt y.inter_switches i j (y.inter_switches i k + y.inter_switches k j + 1) }
  else { y with minimum := minimum }

/-- The matrices after the pair `i`, `j`, and whether its distance has changed; `none` if there is
no intermediate switch for a new distance. -/
def relax (x : PathInfo V) (i j : V) : Option (PathInfo V × Bool) :=
  let y := vs.foldl (x.viaSwitch i j)
    { minimum := x.dist i j, intermediate_switch := none, inter_switches := x.inter_switches }
  if x.dist i j ≠ y.minimum then
    y.intermediate_switch.map fun k =>
      ({ dist := setAt x.dist i j y.minimum
         latencies := setAt x.latencies i j (x.latencies i k + x.latencies k j)
         inter_switches := y.inter_switches }, true)
  else some ({ x with inter_switches := y.inter_switches }, false)

/-- All pairs, in order. -/
def relaxAll : List (V × V) → PathInfo V → Bool → Option (PathInfo V × Bool)
  | [], x, change => some (x, change)
  | (i, j) :: l, x, change =>
      (x.relax vs i j).bind fun (x', c) => relaxAll l x' (change || c)

/-- Passes over all pairs until one changes nothing; `none` if the fuel is used up. -/
def extend_shortest_path : ℕ → PathInfo V → Option (PathInfo V)
  | 0, _ => none
  | fuel + 1, x => (relaxAll vs (vs ×ˢ vs) x false).bind fun (x', change) =>
      if change then extend_shortest_path fuel x' else some x'

variable {vs} {x x' : PathInfo V} {i j : V} {e : V → V → ℕ × ℤ × ℕ → Prop}

/-- The matrices are those of walks along the links, whose costs are their weights, their latencies
and one for each. -/
structure Sound (e : V → V → ℕ × ℤ × ℕ → Prop) (x : PathInfo V) : Prop where
  diag : ∀ i, x.dist i i = 0
  cap : ∀ i j, x.dist i j ≤ INFINITE_LATENCY
  edge : ∀ {i j c}, e i j c → x.dist i j ≤ c.1
  walk : ∀ {i j}, i ≠ j → x.dist i j < INFINITE_LATENCY →
    Lib.Walk e i j (x.dist i j, x.latencies i j, x.inter_switches i j + 1)

/-- The innermost loop after the switches `ks`. -/
structure Visited (x : PathInfo V) (i j : V) (ks : List V) (y : Via V) : Prop where
  lower : ∀ k ∈ ks, y.minimum ≤ x.dist i k + x.dist k j
  found : (y.minimum = x.dist i j ∧ y.inter_switches = x.inter_switches) ∨
    ∃ k, k ≠ i ∧ k ≠ j ∧ y.intermediate_switch = some k ∧ y.minimum < x.dist i j ∧
      y.minimum = x.dist i k + x.dist k j ∧
      y.inter_switches =
        setAt x.inter_switches i j (x.inter_switches i k + x.inter_switches k j + 1)

theorem Visited.le {ks : List V} {y : Via V} (h : Visited x i j ks y) :
    y.minimum ≤ x.dist i j := by
  obtain ⟨heq, -⟩ | ⟨k, -, -, -, hlt, -⟩ := h.found
  · exact heq.le
  · exact hlt.le

theorem Visited.snoc (hdiag : ∀ i, x.dist i i = 0) {ks : List V} {y : Via V}
    (h : Visited x i j ks y) (k : V) : Visited x i j (ks ++ [k]) (x.viaSwitch i j y k) := by
  unfold viaSwitch
  simp only
  split_ifs with hmin
  · have hlt : x.dist i k + x.dist k j < y.minimum := by
      by_contra hle
      exact hmin (min_eq_left (not_lt.mp hle)).symm
    have hle := h.le
    rw [min_eq_right hlt.le]
    -- a way over one of the ends is no shorter
    have hki : k ≠ i := by
      rintro rfl
      have := hdiag k
      omega
    have hkj : k ≠ j := by
      rintro rfl
      have := hdiag k
      omega
    refine ⟨fun k' hk' => ?_, .inr ⟨k, hki, hkj, rfl, hlt.trans_le hle, rfl, ?_⟩⟩
    · rcases List.mem_append.mp hk' with hk' | hk'
      · exact hlt.le.trans (h.lower k' hk')
      · rw [List.mem_singleton.mp hk']
    · obtain ⟨-, heq⟩ | ⟨l, -, -, -, -, -, heq⟩ := h.found
      · rw [heq]
      · -- the entries that are read are not the one that was written
        rw [heq, setAt_of_ne _ _ _ _ (fun hc => hkj hc.2), setAt_of_ne _ _ _ _ (fun hc => hki hc.1)]
        exact setAt_setAt _ _ _ _ _
  · rw [ne_eq, not_not] at hmin
    rw [← hmin]
    refine ⟨fun k' hk' => ?_, h.found⟩
    rcases List.mem_append.mp hk' with hk' | hk'
    · exact h.lower k' hk'
    · rw [List.mem_singleton.mp hk', hmin]
      exact min_le_right _ _

theorem visited_foldl (hdiag : ∀ i, x.dist i i = 0) (ks : List V) :
    Visited x i j ks (ks.foldl (x.viaSwitch i j)
      { minimum := x.dist i j
        intermediate_switch := none
        inter_switches := x.inter_switches }) := by
  induction ks using List.reverseRecOn with
  | nil => exact ⟨by simp, .inl ⟨rfl, rfl⟩⟩
  | append_singleton ks k ih =>
      rw [List.foldl_concat]
      exact ih.snoc hdiag k

/-- A pair keeps the matrices sound: its distance gets shorter, or it was no longer than over any
switch. -/
theorem Sound.relax (h : Sound e x) (vs : List V) (i j : V) :
    ∃ x' change, x.relax vs i j = some (x', change) ∧
    Sound e x' ∧ (∀ a b, x'.dist a b ≤ x.dist a b) ∧
    (change = true → x'.dist i j < x.dist i j) ∧
    (change = false → x' = x ∧ ∀ k ∈ vs, x.dist i j ≤ x.dist i k + x.dist k j) := by
  have hv := visited_foldl (i := i) (j := j) h.diag vs
  unfold PathInfo.relax
  simp only
  generalize vs.foldl (x.viaSwitch i j) _ = y at hv
  obtain ⟨heq, hinter⟩ | ⟨k, hki, hkj, hk, hlt, heq, hinter⟩ := hv.found
  · rw [if_neg (not_not.mpr heq.symm), hinter]
    exact ⟨x, false, rfl, h, fun _ _ => le_rfl, by simp, fun _ => ⟨rfl, heq ▸ hv.lower⟩⟩
  · rw [if_pos hlt.ne', hk]
    have hij : i ≠ j := by
      rintro rfl
      have := h.diag i
      omega
    have hcap := h.cap i j
    have hle : ∀ a b, setAt x.dist i j y.minimum a b ≤ x.dist a b := by
      intro a b
      unfold setAt
      split_ifs with hab
      · obtain ⟨rfl, rfl⟩ := hab
        exact hlt.le
      · exact le_rfl
    refine ⟨_, true, rfl, ⟨fun a => ?_, fun a b => (hle a b).trans (h.cap a b),
      fun he => (hle _ _).trans (h.edge he), fun {a b} hab hd => ?_⟩, hle, fun _ => ?_, by simp⟩
    · exact Nat.le_zero.mp ((hle a a).trans (h.diag a).le)
    · by_cases hc : a = i ∧ b = j
      · obtain ⟨rfl, rfl⟩ := hc
        have hw := (h.walk (Ne.symm hki) (by omega)).append (h.walk hkj (by omega))
        simpa [hinter, heq, add_assoc, add_comm, add_left_comm] using hw
      · simp only [hinter, setAt_of_ne _ _ _ _ hc] at hd ⊢
        exact h.walk hab hd
    · simpa using hlt

/-- A pass keeps the matrices sound: a distance gets shorter, or the triangle inequality holds. -/
theorem Sound.relaxAll (vs : List V) : ∀ (l : List (V × V)) {x : PathInfo V} (c : Bool), Sound e x →
    ∃ x' change, relaxAll vs l x c = some (x', change) ∧ Sound e x' ∧
      (∀ a b, x'.dist a b ≤ x.dist a b) ∧
      (change = true → c = true ∨ ∃ p ∈ l, x'.dist p.1 p.2 < x.dist p.1 p.2) ∧
      (change = false → x' = x ∧ c = false ∧
        ∀ p ∈ l, ∀ k ∈ vs, x.dist p.1 p.2 ≤ x.dist p.1 k + x.dist k p.2)
  | [], x, c, h => ⟨x, c, rfl, h, fun _ _ => le_rfl, .inl, fun hc => ⟨rfl, hc, by simp⟩⟩
  | (i, j) :: l, x, c, h => by
      obtain ⟨x₁, c₁, h₁, hs₁, hle₁, ht₁, hf₁⟩ := h.relax vs i j
      obtain ⟨x', change, h₂, hs₂, hle₂, ht₂, hf₂⟩ := Sound.relaxAll vs l (c || c₁) hs₁
      refine ⟨x', change, ?_, hs₂, fun a b => (hle₂ a b).trans (hle₁ a b), fun hc => ?_,
        fun hc => ?_⟩
      · rw [PathInfo.relaxAll, h₁]
        exact h₂
      · rcases ht₂ hc with hc | ⟨p, hp, hlt⟩
        · rcases Bool.or_eq_true_iff.mp hc with hc | hc
          · exact .inl hc
          · exact .inr ⟨(i, j), by simp, (hle₂ i j).trans_lt (ht₁ hc)⟩
        · exact .inr ⟨p, by simp [hp], hlt.trans_le (hle₁ _ _)⟩
      · obtain ⟨rfl, hor, htri⟩ := hf₂ hc
        obtain ⟨rfl, rfl⟩ := Bool.or_eq_false_iff.mp hor
        obtain ⟨rfl, htri₁⟩ := hf₁ rfl
        refine ⟨rfl, rfl, fun p hp => ?_⟩
        rcases List.mem_cons.mp hp with rfl | hp
        · exact htri₁
        · exact htri p hp

/-- The sum of the distances, which every pass but the last makes smaller. -/
def total (vs : List V) (x : PathInfo V) : ℕ := ((vs ×ˢ vs).map fun p => x.dist p.1 p.2).sum

/-- The passes come to an end, with distances that satisfy the triangle inequality. -/
theorem Sound.extend_shortest_path (vs : List V) (h : Sound e x) {fuel : ℕ}
    (hf : x.total vs < fuel) :
    ∃ x', extend_shortest_path vs fuel x = some x' ∧ Sound e x' ∧
      ∀ i ∈ vs, ∀ j ∈ vs, ∀ k ∈ vs, x'.dist i j ≤ x'.dist i k + x'.dist k j := by
  induction fuel generalizing x with
  | zero => omega
  | succ fuel ih =>
      obtain ⟨x₁, change, h₁, hs₁, hle, ht, hn⟩ := h.relaxAll vs (vs ×ˢ vs) false
      rw [PathInfo.extend_shortest_path, h₁, Option.bind_some]
      cases change with
      | true =>
          obtain ⟨p, hp, hlt⟩ := (ht rfl).resolve_left Bool.false_ne_true
          have hsum : x₁.total vs < x.total vs :=
            List.sum_lt_sum _ _ (fun q _ => hle q.1 q.2) ⟨p, hp, hlt⟩
          exact ih hs₁ (by omega)
      | false =>
          obtain ⟨rfl, -, htri⟩ := hn rfl
          exact ⟨x₁, rfl, hs₁, fun i hi j hj => htri (i, j) (List.mem_product.mpr ⟨hi, hj⟩)⟩

end PathInfo

/-! ### The links of a configuration -/

/-- The switches of the component network.  The link of a node into the network and its queue out of
it count as switches; the code numbers the former first, then the latter, then the routers. -/
inductive SwitchID (N R : ℕ) where
  | into (d : Fin N)
  | out (d : Fin N)
  | router (r : Fin R)
  deriving DecidableEq

namespace SwitchID

/-- All switches, in the order of their numbers. -/
def all (N R : ℕ) : List (SwitchID N R) :=
  (List.finRange N).map .into ++ (List.finRange N).map .out ++ (List.finRange R).map .router

theorem mem_all {N R : ℕ} (s : SwitchID N R) : s ∈ all N R := by
  cases s <;> simp [all]

end SwitchID

structure BasicLink where
  mVnets : List ℕ := []
  m_weight : ℕ := 1
  m_latency : ℕ := 1
  deriving DecidableEq

/-- The links of one pair of switches: which virtual networks are done, and who carries them. -/
structure Carried where
  vnet_done : List ℕ := []
  carrier : ℕ → Option BasicLink := fun _ => none

namespace Carried

/-- `none` for two links that carry the same virtual network. -/
def setVnet (link : BasicLink) (x : Carried) (v : ℕ) : Option Carried :=
  if v ∈ x.vnet_done then none
  else some ⟨v :: x.vnet_done, Function.update x.carrier v (some link)⟩

/-- A link without a list carries all virtual networks. -/
def setLink (m_vnets : ℕ) (x : Carried) (link : BasicLink) : Option Carried :=
  if link.mVnets = [] then (List.range m_vnets).foldlM (setVnet link) x
  else link.mVnets.foldlM (fun x v => if m_vnets ≤ v then none else setVnet link x v) x

end Carried

/-- `none` where `createLinks` is fatal. -/
def carriers (m_vnets : ℕ) (links : List BasicLink) : Option Carried :=
  links.foldlM (Carried.setLink m_vnets) {}

/-- The virtual networks that a link carries. -/
def BasicLink.vnets (m_vnets : ℕ) (link : BasicLink) : List ℕ :=
  if link.mVnets = [] then List.range m_vnets else link.mVnets

namespace Carried

variable {m_vnets : ℕ} {link : BasicLink} {x x' : Carried}

/-- A link is made the carrier of virtual networks that none was done of. -/
theorem setVnets {f : Carried → ℕ → Option Carried}
    (hf : ∀ x v x', f x v = some x' → setVnet link x v = some x') {vs : List ℕ}
    (h : vs.foldlM f x = some x') : (∀ v ∈ vs, v ∉ x.vnet_done) ∧
      (∀ v, v ∈ x'.vnet_done ↔ v ∈ vs ∨ v ∈ x.vnet_done) ∧
      ∀ v, x'.carrier v = if v ∈ vs then some link else x.carrier v := by
  induction vs generalizing x with
  | nil =>
      cases h
      simp
  | cons v vs ih =>
      obtain ⟨x₁, h₁, h⟩ := Option.bind_eq_some_iff.mp h
      have h₁ := hf _ _ _ h₁
      unfold setVnet at h₁
      split_ifs at h₁ with hv
      cases h₁
      obtain ⟨hnot, hdone, hcar⟩ := ih h
      refine ⟨fun u hu => ?_, fun u => ?_, fun u => ?_⟩
      · rcases List.mem_cons.mp hu with rfl | hu
        · exact hv
        · exact fun hc => hnot u hu (List.mem_cons_of_mem _ hc)
      · rw [hdone, List.mem_cons, List.mem_cons]
        tauto
      · rw [hcar]
        by_cases huv : u = v
        · subst huv
          simp
        · simp [huv]

theorem setLink_eq (h : setLink m_vnets x link = some x') :
    (∀ v ∈ link.vnets m_vnets, v ∉ x.vnet_done) ∧
      (∀ v, v ∈ x'.vnet_done ↔ v ∈ link.vnets m_vnets ∨ v ∈ x.vnet_done) ∧
      ∀ v, x'.carrier v = if v ∈ link.vnets m_vnets then some link else x.carrier v := by
  unfold setLink at h
  unfold BasicLink.vnets
  split_ifs at h ⊢ with hall
  · exact setVnets (fun _ _ _ => id) h
  · refine setVnets (fun y v y' hy => ?_) h
    split_ifs at hy
    exact hy

/-- Each virtual network has the one link that carries it. -/
structure Of (m_vnets : ℕ) (links : List BasicLink) (x : Carried) : Prop where
  done : ∀ v, v ∈ x.vnet_done ↔ ∃ link ∈ links, v ∈ link.vnets m_vnets
  carrier : ∀ v link, x.carrier v = some link ↔ link ∈ links ∧ v ∈ link.vnets m_vnets

theorem Of.snoc {links : List BasicLink} (hx : Of m_vnets links x)
    (h : setLink m_vnets x link = some x') : Of m_vnets (links ++ [link]) x' := by
  obtain ⟨hnot, hdone, hcar⟩ := setLink_eq h
  refine ⟨fun v => ?_, fun v l => ?_⟩
  · rw [hdone, hx.done]
    constructor
    · rintro (hv | ⟨l, hl, hv⟩)
      · exact ⟨link, by simp, hv⟩
      · exact ⟨l, by simp [hl], hv⟩
    · rintro ⟨l, hl, hv⟩
      rcases List.mem_append.mp hl with hl | hl
      · exact .inr ⟨l, hl, hv⟩
      · exact .inl (List.mem_singleton.mp hl ▸ hv)
  · rw [hcar]
    split_ifs with hv
    · -- no link before this one carries the virtual network
      have hno : ∀ l ∈ links, v ∉ l.vnets m_vnets := fun l hl hc =>
        hnot v hv ((hx.done v).mpr ⟨l, hl, hc⟩)
      rw [Option.some.injEq, List.mem_append, List.mem_singleton]
      constructor
      · rintro rfl
        exact ⟨.inr rfl, hv⟩
      · rintro ⟨hl | rfl, hc⟩
        · exact absurd hc (hno l hl)
        · rfl
    · rw [hx.carrier, List.mem_append, List.mem_singleton]
      constructor
      · rintro ⟨hl, hc⟩
        exact ⟨.inl hl, hc⟩
      · rintro ⟨hl | rfl, hc⟩
        · exact ⟨hl, hc⟩
        · exact absurd hc hv

end Carried

/-- A configuration that is not fatal has one carrier for each virtual network, if any. -/
theorem carriers_of {m_vnets : ℕ} : ∀ {links : List BasicLink} {x : Carried},
    carriers m_vnets links = some x → x.Of m_vnets links := by
  intro links
  induction links using List.reverseRecOn with
  | nil =>
      intro x h
      cases h
      exact ⟨by simp, by simp⟩
  | append_singleton links link ih =>
      intro x h
      rw [carriers, List.foldlM_append] at h
      obtain ⟨x₁, h₁, h⟩ := Option.bind_eq_some_iff.mp h
      rw [List.foldlM_cons] at h
      obtain ⟨x₂, h₂, h⟩ := Option.bind_eq_some_iff.mp h
      cases h
      exact (ih h₁).snoc h₂

/-- The links of a network of `N` nodes and `R` routers. -/
structure Topology (N R : ℕ) where
  m_vnets : ℕ
  ext_links : List (Fin N × Fin R × BasicLink)
  int_links : List (Fin R × Fin R × BasicLink)

def left : Fin 2 := 0

def right : Fin 2 := 1

/-- Two nodes with a router each, and a link between the routers in either direction. -/
def twoRouters : Topology 2 2 where
  m_vnets := 1
  ext_links := [(left, left, {}), (right, right, {})]
  int_links := [(left, right, {}), (right, left, { m_weight := 5 })]

namespace Topology

variable {N R : ℕ} (t : Topology N R) (v : ℕ)

open SwitchID

/-- The calls of `addLink`. -/
def links : List ((SwitchID N R × SwitchID N R) × BasicLink) :=
  t.ext_links.flatMap (fun (d, r, link) =>
    [((into d, router r), link), ((router r, out d), link)]) ++
  t.int_links.map fun (src, dst, link) => ((router src, router dst), link)

/-- An entry of `m_link_map`. -/
def linkGroup (src dest : SwitchID N R) : List BasicLink :=
  (t.links.filter (·.1 = (src, dest))).map (·.2)

def carrier (src dest : SwitchID N R) : Option BasicLink :=
  (carriers t.m_vnets (t.linkGroup src dest)).bind (·.carrier v)

/-- `createLinks` is not fatal. -/
def accepted : Bool :=
  (SwitchID.all N R ×ˢ SwitchID.all N R).all fun p =>
    (carriers t.m_vnets (t.linkGroup p.1 p.2)).isSome

def topology_weights (src dest : SwitchID N R) : ℕ :=
  match t.carrier v src dest with
  | some link => link.m_weight
  | none => if src = dest then 0 else INFINITE_LATENCY

def component_latencies (src dest : SwitchID N R) : ℤ :=
  match t.carrier v src dest with
  | some link => link.m_latency
  | none => -1

/-- The matrices before the first pass. -/
def pathInfo : PathInfo (SwitchID N R) where
  dist := t.topology_weights v
  latencies := t.component_latencies v
  inter_switches := fun _ _ => 0

/-- There are no more passes than the sum of the weights. -/
def shortest_path : Option (PathInfo (SwitchID N R)) :=
  PathInfo.extend_shortest_path (SwitchID.all N R)
    ((t.pathInfo v).total (SwitchID.all N R) + 1) (t.pathInfo v)

def dist : SwitchID N R → SwitchID N R → ℕ := ((t.shortest_path v).getD (t.pathInfo v)).dist

def link_is_shortest_path_to_node (src next final : SwitchID N R) : Bool :=
  t.topology_weights v src next + t.dist v next final == t.dist v src final

def shortest_path_to_node (src next : SwitchID N R) : Finset (Fin N) :=
  Finset.univ.filter fun d => t.link_is_shortest_path_to_node v src next (out d) = true

/-- The entry of the routing map: of links that are there. -/
def routingMap (src dest : SwitchID N R) : Finset (Fin N) :=
  let weight := t.topology_weights v src dest
  if weight > 0 ∧ weight ≠ INFINITE_LATENCY then t.shortest_path_to_node v src dest else ∅

/-- Configurations that the code accepts, whose links have weights that it takes for weights and
lead somewhere else. -/
structure Sane : Prop where
  vnets : 0 < t.m_vnets
  accepted : t.accepted = true
  weight : ∀ x ∈ t.links, 0 < x.2.m_weight ∧ x.2.m_weight < INFINITE_LATENCY
  loopless : ∀ x ∈ t.links, x.1.1 ≠ x.1.2

/-- The links that carry a virtual network, with their weights, latencies and one for each. -/
def carries (i j : SwitchID N R) (c : ℕ × ℤ × ℕ) : Prop :=
  ∃ link, t.carrier v i j = some link ∧ c = ((link.m_weight : ℕ), (link.m_latency : ℤ), 1)

/-- The links that carry a virtual network, with their weights. -/
def weighs (i j : SwitchID N R) (w : ℕ) : Prop :=
  ∃ link, t.carrier v i j = some link ∧ w = link.m_weight

variable {t v} {i j : SwitchID N R} {d : Fin N}

/-- The carrier of a virtual network is the link of the configuration that carries it. -/
theorem carrier_iff (hacc : t.accepted = true) {link : BasicLink} :
    t.carrier v i j = some link ↔ ((i, j), link) ∈ t.links ∧ v ∈ link.vnets t.m_vnets := by
  have hsome := List.all_eq_true.mp hacc (i, j)
    (List.mem_product.mpr ⟨SwitchID.mem_all i, SwitchID.mem_all j⟩)
  obtain ⟨x, hx⟩ := Option.isSome_iff_exists.mp hsome
  have hmem : link ∈ t.linkGroup i j ↔ ((i, j), link) ∈ t.links := by
    simp [linkGroup, List.mem_filter]
  rw [carrier, hx, Option.bind_some, (carriers_of hx).carrier, hmem]

/-- The links between a switch and another are all that the matrices start from. -/
theorem Sane.sound (h : t.Sane) : (t.pathInfo v).Sound (t.carries v) where
  diag := by
    intro i
    show t.topology_weights v i i = 0
    unfold topology_weights
    cases hc : t.carrier v i i with
    | none => simp
    | some link => exact absurd rfl (h.loopless _ ((carrier_iff h.accepted).mp hc).1)
  cap := by
    intro i j
    show t.topology_weights v i j ≤ INFINITE_LATENCY
    unfold topology_weights
    cases hc : t.carrier v i j with
    | none => dsimp only; split_ifs <;> simp [INFINITE_LATENCY]
    | some link => exact (h.weight _ ((carrier_iff h.accepted).mp hc).1).2.le
  edge := by
    rintro i j _ ⟨link, hc, rfl⟩
    show t.topology_weights v i j ≤ link.m_weight
    rw [topology_weights, hc]
  walk := by
    intro i j hij hlt
    change t.topology_weights v i j < INFINITE_LATENCY at hlt
    refine .single ?_
    show t.carries v i j (t.topology_weights v i j, t.component_latencies v i j, 1)
    unfold topology_weights component_latencies at *
    cases hc : t.carrier v i j with
    | none => simp [hc, hij] at hlt
    | some link => exact ⟨link, hc, rfl⟩

theorem Sane.shortest_path (h : t.Sane) (v : ℕ) : ∃ x, t.shortest_path v = some x ∧
    Lib.Shortest (t.weighs v) INFINITE_LATENCY x.dist ∧
    ∀ i j, i ≠ j → x.dist i j < INFINITE_LATENCY →
      Lib.Walk (t.carries v) i j (x.dist i j, x.latencies i j, x.inter_switches i j + 1) := by
  obtain ⟨x, hx, hs, htri⟩ := (h.sound (v := v)).extend_shortest_path
    (SwitchID.all N R) (Nat.lt_succ_self _)
  refine ⟨x, hx, .of_triangle hs.cap hs.diag ?_ ?_ ?_, fun i j => hs.walk⟩
  · rintro i j w ⟨link, hc, rfl⟩
    exact hs.edge ⟨link, hc, rfl⟩
  · exact fun i k j => htri i (mem_all i) j (mem_all j) k (mem_all k)
  · intro i j hlt
    by_cases hij : i = j
    · subst hij
      rw [hs.diag]
      exact .nil i
    · refine (hs.walk hij hlt).map (AddMonoidHom.fst ℕ (ℤ × ℕ)) ?_
      rintro i j _ ⟨link, hc, rfl⟩
      exact ⟨link, hc, rfl⟩

/-- **Shortest paths.**  The passes of `extend_shortest_path` come to an end, and what they leave
are the lengths of the shortest walks along the links, where these are shorter than
`INFINITE_LATENCY`; the latency and the number of intermediate switches are those of one of them. -/
theorem shortest_path_spec (h : t.Sane) (v : ℕ) : ∃ x, t.shortest_path v = some x ∧
    Lib.Shortest (t.weighs v) INFINITE_LATENCY x.dist ∧
    ∀ i j, i ≠ j → x.dist i j < INFINITE_LATENCY →
      Lib.Walk (t.carries v) i j (x.dist i j, x.latencies i j, x.inter_switches i j + 1) :=
  h.shortest_path v

theorem twoRouters_sane : twoRouters.Sane where
  vnets := by decide
  accepted := by decide +kernel
  weight := by decide +kernel
  loopless := by decide +kernel

theorem shortest_path_spec_twoRouters : ∃ x, twoRouters.shortest_path 0 = some x ∧
    x.dist (into right) (out left) = 7 ∧
    Lib.Shortest (twoRouters.weighs 0) INFINITE_LATENCY x.dist ∧
    ∀ i j, i ≠ j → x.dist i j < INFINITE_LATENCY →
      Lib.Walk (twoRouters.carries 0) i j
        (x.dist i j, x.latencies i j, x.inter_switches i j + 1) := by
  have h : ((twoRouters.shortest_path 0).any fun x =>
      x.dist (into right) (out left) == 7) = true := by
    decide +kernel
  obtain ⟨x, hx, hs⟩ := shortest_path_spec twoRouters_sane 0
  rw [hx, Option.any_some, beq_iff_eq] at h
  exact ⟨x, hx, h, hs⟩

theorem Sane.dist (h : t.Sane) : Lib.Shortest (t.weighs v) INFINITE_LATENCY (t.dist v) := by
  obtain ⟨x, hx, hs, -⟩ := h.shortest_path v
  rw [Topology.dist, hx]
  exact hs

/-- The routing map is of the links that carry the virtual network. -/
theorem Sane.mem_routingMap (h : t.Sane) : d ∈ t.routingMap v i j ↔
    ∃ w, t.weighs v i j w ∧ 0 < w ∧ w + t.dist v j (out d) = t.dist v i (out d) := by
  unfold routingMap
  simp only
  cases hc : t.carrier v i j with
  | none =>
      have hno :
          ¬ (t.topology_weights v i j > 0 ∧ t.topology_weights v i j ≠ INFINITE_LATENCY) := by
        rw [topology_weights, hc]
        dsimp only
        split_ifs <;> simp
      rw [if_neg hno]
      simp [weighs, hc]
  | some link =>
      have hw := h.weight _ ((carrier_iff h.accepted).mp hc).1
      have heq : t.topology_weights v i j = link.m_weight := by rw [topology_weights, hc]
      rw [if_pos ⟨heq ▸ hw.1, heq ▸ hw.2.ne⟩]
      simp only [shortest_path_to_node, link_is_shortest_path_to_node, Finset.mem_filter,
        Finset.mem_univ, true_and, beq_iff_eq, heq]
      constructor
      · exact fun hd => ⟨link.m_weight, ⟨link, hc, rfl⟩, hw.1, hd⟩
      · rintro ⟨w, ⟨link', hc', rfl⟩, -, hd⟩
        obtain rfl : link = link' := Option.some.inj (hc.symm.trans hc')
        exact hd

/-- **A way to every node.**  A node that is not too far is in the entry of some link. -/
theorem Sane.exists_entry (h : t.Sane) (hne : i ≠ out d)
    (hlt : t.dist v i (out d) < INFINITE_LATENCY) : ∃ j, d ∈ t.routingMap v i j := by
  obtain ⟨j, w, hw, heq⟩ := h.dist.next hne hlt
  obtain ⟨link, hc, rfl⟩ := hw
  exact ⟨j, h.mem_routingMap.mpr
    ⟨_, ⟨link, hc, rfl⟩, (h.weight _ ((carrier_iff h.accepted).mp hc).1).1, heq⟩⟩

/-- **Every entry leads closer.** -/
theorem Sane.entry_closer (h : t.Sane) (hd : d ∈ t.routingMap v i j) :
    t.dist v j (out d) < t.dist v i (out d) := by
  obtain ⟨w, -, hpos, heq⟩ := h.mem_routingMap.mp hd
  omega

/-- **Routing entries.**  A node that is not too far is in the entry of some link, and every link
that has it in its entry carries the virtual network and is the first of a shortest way to it. -/
theorem routing_entries (h : t.Sane) (hne : i ≠ out d)
    (hlt : t.dist v i (out d) < INFINITE_LATENCY) :
    (∃ j, d ∈ t.routingMap v i j) ∧ ∀ j, d ∈ t.routingMap v i j → ∃ link,
      ((i, j), link) ∈ t.links ∧ v ∈ link.vnets t.m_vnets ∧
        Lib.Walk (t.weighs v) j (out d) (t.dist v j (out d)) ∧
        ∀ c, Lib.Walk (t.weighs v) i (out d) c → link.m_weight + t.dist v j (out d) ≤ c := by
  refine ⟨h.exists_entry hne hlt, fun j hj => ?_⟩
  have hcloser := h.entry_closer hj
  obtain ⟨w, ⟨link, hc, rfl⟩, -, heq⟩ := h.mem_routingMap.mp hj
  obtain ⟨hmem, hv⟩ := (carrier_iff h.accepted).mp hc
  exact ⟨link, hmem, hv, h.dist.walk (hcloser.trans hlt), fun c hw => heq ▸ h.dist.le_walk hw⟩

theorem routing_entries_twoRouters : left ∈ twoRouters.routingMap 0 (router right) (router left) ∧
    ∃ link, ((router right, router left), link) ∈ twoRouters.links ∧
      ∀ c, Lib.Walk (twoRouters.weighs 0) (router right) (out left) c →
        link.m_weight + twoRouters.dist 0 (router left) (out left) ≤ c := by
  have hj : left ∈ twoRouters.routingMap 0 (router right) (router left) := by decide +kernel
  obtain ⟨-, hall⟩ := routing_entries (v := 0) (i := router right) (d := left) twoRouters_sane
    (by decide) (by decide +kernel)
  obtain ⟨link, hmem, -, -, hle⟩ := hall _ hj
  exact ⟨hj, link, hmem, hle⟩

/-- No link leads out of the queue of a node. -/
theorem Sane.out_no_link (h : t.Sane) {w : ℕ} : ¬ t.weighs v (out d) j w := by
  rintro ⟨link, hc, -⟩
  have hmem := ((carrier_iff h.accepted).mp hc).1
  simp [links] at hmem

/-- The queue of a node is on the way to no other. -/
theorem Sane.eq_of_dist_out (h : t.Sane) {d' : Fin N}
    (hlt : t.dist v (out d') (out d) < INFINITE_LATENCY) : d = d' := by
  obtain ⟨heq, -⟩ | ⟨k, w, c, hw, -⟩ := (h.dist.walk hlt).first
  · cases heq
    rfl
  · exact absurd hw h.out_no_link

end Topology

end SttRuby.Network
