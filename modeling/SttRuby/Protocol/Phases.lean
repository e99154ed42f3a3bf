import SttRuby.Protocol.Roles

/-!
# Protocol — Phases

What the L2 is doing with the line, and the role each node has in it.  A `Phase` is idle, a fetch,
a set of sharers, a grant with the sharers that are still to be invalidated, an owner, one of the
two ways to get the line from its owner, or a recall.  It gives every node its role
(`Phase.role`), and `Phase.L2` says what the line of the L2 looks like in it.

The system is coherent when the L2 and all nodes agree on a phase (`Sys.Agree`, `Sys.Coherent`).
Where a node may own the line, nothing is said about the values of the others
(`Phase.free_of_writer`), so a store is no news to them.  What a node does on its own leaves the
phase as it is (`Sys.Agree.l1Own`), and an ack takes its sender out of those that are still to be
invalidated (`Sys.Agree.ack`).  The steps of the L1s keep the system coherent
(`Sys.Coherent.l1Step`).
-/

namespace SttRuby.Protocol

/-- What is said about values: which blocks are up to date when the stores so far have made `v` of
the line, and which are the memory's. -/
structure Values (B : ℕ) where
  ok : DataBlock B → DataBlock B → Prop
  clean : DataBlock B → Prop
  store : ∀ (w : DataBlock B → DataBlock B) v d, ok v d → ok (w v) (w d)
  clean_of_ok : ∀ {v d d'}, ok v d → ok v d' → clean d → clean d'

namespace Values

variable {B : ℕ}

/-- Nothing. -/
def any : Values B := ⟨fun _ _ => True, fun _ => True, fun _ _ _ _ => trivial, fun _ _ _ => trivial⟩

/-- The block is the one the stores have made. -/
def exact (memory : DataBlock B) : Values B where
  ok v d := d = v
  clean d := d = memory
  store := fun w _ _ h => congrArg w h
  clean_of_ok := fun h h' hc => (h'.trans h.symm).trans hc

end Values

inductive Phase (n : ℕ) where
  | idle
  /-- The line is fetched for the readers `W`, or for the writer `r`. -/
  | fetchS (W : Finset (Fin n))
  | fetchX (r : Fin n)
  | shared (S : Finset (Fin n))
  /-- `r` gets the line; the sharers `D` are still to be invalidated. -/
  | granting (r : Fin n) (D : Finset (Fin n))
  | owned (x : Fin n)
  /-- `r` gets the line from `x`. -/
  | handoverX (x r : Fin n)
  /-- `r` is to share the line of `x`: whether the data is not with `r` yet, not with the L2 yet,
  and whether `r` has not unblocked the L2 yet. -/
  | handoverS (x r : Fin n) (peer wb u : Bool)
  /-- The line is taken back from the sharers `D`, or from its owner. -/
  | recallS (D : Finset (Fin n))
  | recallX (x : Fin n)

section

variable {n B : ℕ}

namespace Phase

/-- The role of a node. -/
def role : Phase n → Fin n → Role n
  | idle, _ => .bystander
  | fetchS W, i => if i ∈ W then .readServed else .bystander
  | fetchX r, i => if i = r then .writeServed else .bystander
  | shared S, i => if i ∈ S then .sharer else .bystander
  | granting r D, i =>
      if i = r then .acquirer D.card
      else if i ∈ D then .invalidatee (.L1Cache r) else .bystander
  | owned x, i => if i = x then .owner else .bystander
  | handoverX x r, i =>
      if i = x then .handing r else if i = r then .writeServed else .bystander
  | handoverS x r peer wb u, i =>
      if i = x then .sharing r peer wb
      else if i = r then if peer then .readServed else .reader u
      else .bystander
  | recallS D, i => if i ∈ D then .invalidatee .L2Cache else .bystander
  | recallX x, i => if i = x then .recalled else .bystander

/-- The line of the L2; `d` is its block. -/
inductive L2 (ok clean : DataBlock B → Prop) (d : DataBlock B) :
    Phase n → L2Cache.Line n B → Prop where
  | np : L2 ok clean d .idle ⟨none, none⟩
  | m (x : Option (Fin n)) (b : Bool) (hd : ok d) (hc : b = false → clean d) :
      L2 ok clean d .idle ⟨some ⟨.M, ∅, x, d, b, false⟩, none⟩
  | mI (d' : DataBlock B) (b : Bool) (ids : Finset (Fin n)) (r : Option (Fin n)) (p : ℤ) :
      L2 ok clean d .idle ⟨none, some ⟨.M_I, d', b, ids, r, p⟩⟩
  | iss (i : Fin n) (x : Option (Fin n)) (d₁ d₂ : DataBlock B) (b₁ b₂ : Bool)
      (r : Option (Fin n)) (p : ℤ) : L2 ok clean d (.fetchS {i})
        ⟨some ⟨.ISS, {i}, x, d₁, b₁, false⟩, some ⟨.ISS, d₂, b₂, {i}, r, p⟩⟩
  | is (W : Finset (Fin n)) (x : Option (Fin n)) (d₁ d₂ : DataBlock B) (b₁ b₂ : Bool)
      (r : Option (Fin n)) (p : ℤ) : L2 ok clean d (.fetchS W)
        ⟨some ⟨.IS, W, x, d₁, b₁, false⟩, some ⟨.IS, d₂, b₂, W, r, p⟩⟩
  | im (r : Fin n) (x : Option (Fin n)) (d₁ d₂ : DataBlock B) (b₁ b₂ : Bool)
      (ids : Finset (Fin n)) (p : ℤ) : L2 ok clean d (.fetchX r)
        ⟨some ⟨.IM, ∅, x, d₁, b₁, false⟩, some ⟨.IM, d₂, b₂, ids, some r, p⟩⟩
  | ss (S : Finset (Fin n)) (x : Option (Fin n)) (b : Bool) (hd : ok d) (hc : b = false → clean d) :
      L2 ok clean d (.shared S) ⟨some ⟨.SS, S, x, d, b, false⟩, none⟩
  | ssMB {r : Fin n} {D : Finset (Fin n)} (hr : r ∉ D) (S : Finset (Fin n)) (x : Option (Fin n))
      (b : Bool) (hc : b = false → clean d) :
      L2 ok clean d (.granting r D) ⟨some ⟨.SS_MB, S, x, d, b, false⟩, none⟩
  | mtMB {r : Fin n} {D : Finset (Fin n)} (hr : r ∉ D) (S : Finset (Fin n)) (x : Option (Fin n))
      (b : Bool) (hc : b = false → clean d) :
      L2 ok clean d (.granting r D) ⟨some ⟨.MT_MB, S, x, d, b, false⟩, none⟩
  | mt (x : Fin n) (b : Bool) (hc : b = false → clean d) :
      L2 ok clean d (.owned x) ⟨some ⟨.MT, {x}, some x, d, b, false⟩, none⟩
  | mtMBX {x r : Fin n} (hx : r ≠ x) (b : Bool) (hc : b = false → clean d) :
      L2 ok clean d (.handoverX x r) ⟨some ⟨.MT_MB, {x}, some x, d, b, false⟩, none⟩
  | mtIIB {x r : Fin n} (hx : r ≠ x) (peer b : Bool) (hc : b = false → clean d) :
      L2 ok clean d (.handoverS x r peer true true)
        ⟨some ⟨.MT_IIB, {x}, some x, d, b, false⟩, none⟩
  | mtIB {x r : Fin n} (hx : r ≠ x) (b : Bool) (hc : b = false → clean d) :
      L2 ok clean d (.handoverS x r false true false)
        ⟨some ⟨.MT_IB, insert r {x}, some x, d, b, false⟩, none⟩
  | mtSB {x r : Fin n} (hx : r ≠ x) (peer b : Bool) (hd : ok d) (hc : b = false → clean d) :
      L2 ok clean d (.handoverS x r peer false true)
        ⟨some ⟨.MT_SB, {x}, some x, d, b, false⟩, none⟩
  | sI (D : Finset (Fin n)) (b : Bool) (ids : Finset (Fin n)) (r : Option (Fin n)) (hd : ok d) :
      L2 ok clean d (.recallS D) ⟨none, some ⟨.S_I, d, b, ids, r, D.card⟩⟩
  | iI (D : Finset (Fin n)) (b : Bool) (ids : Finset (Fin n)) (r : Option (Fin n)) (hd : ok d)
      (hc : clean d) : L2 ok clean d (.recallS D) ⟨none, some ⟨.I_I, d, b, ids, r, D.card⟩⟩
  | mtI (x : Fin n) (b : Bool) (ids : Finset (Fin n)) (r : Option (Fin n)) :
      L2 ok clean d (.recallX x) ⟨none, some ⟨.MT_I, d, b, ids, r, 1⟩⟩
  | mctI (x : Fin n) (b : Bool) (ids : Finset (Fin n)) (r : Option (Fin n)) (hc : clean d) :
      L2 ok clean d (.recallX x) ⟨none, some ⟨.MCT_I, d, b, ids, r, 1⟩⟩

variable {φ : Phase n} {i j : Fin n}

/-- Where a node may own the line, nothing is said about the values of the others. -/
theorem free_of_writer (h : (φ.role i).writer = true) (hj : j ≠ i) : (φ.role j).free = true := by
  cases φ with
  | granting r D =>
      -- all sharers have been invalidated
      have hD : i = r ∧ D = ∅ := by grind [role, Role.writer, Finset.card_eq_zero]
      obtain ⟨rfl, rfl⟩ := hD
      simp [role, hj, Role.free]
  | _ => grind [role, Role.writer, Role.free]

/-- A store does not matter to the L2. -/
theorem L2.of_writer {ok ok' clean : DataBlock B → Prop} {d : DataBlock B} {l : L2Cache.Line n B}
    (h : φ.L2 ok clean d l) (hw : (φ.role i).writer = true) : φ.L2 ok' clean d l := by
  cases h with
  | ssMB hr S x b hc => exact .ssMB hr S x b hc
  | mtMB hr S x b hc => exact .mtMB hr S x b hc
  | mt x b hc => exact .mt x b hc
  | mtMBX hx b hc => exact .mtMBX hx b hc
  | mtIIB hx peer b hc => exact .mtIIB hx peer b hc
  | mtI x b ids r => exact .mtI x b ids r
  | mctI x b ids r hc => exact .mctI x b ids r hc
  | _ => grind [role, Role.writer]

/-- A store happens during a tenure of the L2. -/
theorem L2.holding {ok clean : DataBlock B → Prop} {d : DataBlock B} {l : L2Cache.Line n B}
    (h : φ.L2 ok clean d l) (hw : (φ.role i).writer = true) : l.getState.mode = .holding := by
  cases h with
  | ssMB | mtMB | mt | mtMBX | mtIIB | mtI | mctI => rfl
  | _ => grind [role, Role.writer]

/-! The messages between the nodes do not change the line of the L2. -/

theorem L2.acked {ok ok' clean : DataBlock B → Prop} {d : DataBlock B} {l : L2Cache.Line n B}
    {D : Finset (Fin n)} (h : (granting i D).L2 ok clean d l) :
    (granting i (D.erase j)).L2 ok' clean d l := by
  cases h with
  | ssMB hr S x b hc => exact .ssMB (fun h => hr (Finset.mem_of_mem_erase h)) S x b hc
  | mtMB hr S x b hc => exact .mtMB (fun h => hr (Finset.mem_of_mem_erase h)) S x b hc

theorem L2.handed {ok ok' clean : DataBlock B → Prop} {d : DataBlock B} {l : L2Cache.Line n B}
    (h : (handoverX j i).L2 ok clean d l) : i ≠ j ∧ (granting i ∅).L2 ok' clean d l := by
  cases h with
  | mtMBX hx b hc => exact ⟨hx, .mtMB (Finset.notMem_empty i) {j} (some j) b hc⟩

theorem L2.read {ok clean : DataBlock B → Prop} {d : DataBlock B} {l : L2Cache.Line n B}
    {wb u : Bool} (h : (handoverS j i true wb u).L2 ok clean d l) :
    i ≠ j ∧ u = true ∧ (handoverS j i false wb true).L2 ok clean d l := by
  cases h with
  | mtIIB hx _ b hc => exact ⟨hx, rfl, .mtIIB hx false b hc⟩
  | mtSB hx _ b hd hc => exact ⟨hx, rfl, .mtSB hx false b hd hc⟩

/-- Who invalidates for whom. -/
theorem of_invalidatee (h : φ.role j = .invalidatee (.L1Cache i)) :
    ∃ D, φ = .granting i D ∧ j ∈ D ∧ j ≠ i := by
  cases φ <;> grind [role]

theorem of_handing (h : φ.role j = .handing i) : φ = .handoverX j i := by
  cases φ <;> grind [role]

theorem of_sharing {peer wb : Bool} (h : φ.role j = .sharing i peer wb) :
    ∃ u, φ = .handoverS j i peer wb u := by
  cases φ <;> grind [role]

end Phase

/-- The L2 and the nodes agree on the phase `φ`. -/
def Sys.Agree (V : Values B) (φ : Phase n) (g : Sys n B) : Prop :=
  ∃ d : DataBlock B, φ.L2 (V.ok g.latest) V.clean d g.l2 ∧
    ∀ i, (φ.role i).Ok (V.ok g.latest) (V.ok g.latest d) i (g.node i)

/-- **Coherence.**  The L2 and the nodes agree on a phase. -/
def Sys.Coherent (V : Values B) (g : Sys n B) : Prop := ∃ φ, g.Agree V φ

theorem Sys.Coherent.start (V : Values B) (memory : DataBlock B) :
    (start memory : Sys n B).Coherent V :=
  ⟨.idle, memory, .np, fun _ => ⟨.bystander, rfl, .absent⟩⟩

/-! ### Steps of the L1s -/

section

variable {V : Values B} {g g' : Sys n B} {i j : Fin n} {c : L1Cache.Ctx n B}

/-- The step does not acknowledge an invalidation of a dirty line without its data. -/
def dirtyAnswered (g : Sys n B) : Label n B → Bool
  | .l1 i (.request m) => m.type ≠ .INV || (g.node i).line.getState ≠ .E ||
      (g.node i).line.entry.all fun e => !e.Dirty
  | _ => true

theorem Sys.afterL1_setNode (nd : Node n B) : (g.setNode i nd).afterL1 i c =
    { g.setNode i (nd.afterL1 c) with
      latest := c.stores.foldl (fun d w => w d) g.latest } := by
  simp [Sys.afterL1, Sys.setNode]

/-- The nodes that the step does not touch. -/
theorem Role.Ok.store {ρ : Role n} {nd : Node n B} {v d : DataBlock B}
    {stores : List (DataBlock B → DataBlock B)} (h : ρ.Ok (V.ok v) (V.ok v d) j nd)
    (hst : stores = [] ∨ ρ.free = true) :
    ρ.Ok (V.ok (stores.foldl (fun d w => w d) v)) (V.ok (stores.foldl (fun d w => w d) v) d) j
      nd := by
  rcases hst with rfl | hf
  · exact h
  · exact h.of_free hf

/-- A node that stays in its role. -/
theorem Sys.Agree.own {φ : Phase n} {d : DataBlock B} {nd : Node n B}
    (hl2 : φ.L2 (V.ok g.latest) V.clean d g.l2)
    (hn : ∀ i, (φ.role i).Ok (V.ok g.latest) (V.ok g.latest d) i (g.node i))
    (hst : c.stores = [] ∨ (φ.role i).writer = true)
    (hnd : ∀ cur' : Prop, (c.stores = [] → V.ok g.latest d → cur') →
      (φ.role i).Ok (V.ok (c.stores.foldl (fun d w => w d) g.latest)) cur' i nd) :
    Sys.Agree V φ { g.setNode i nd with
      latest := c.stores.foldl (fun d w => w d) g.latest } := by
  refine ⟨d, ?_, fun j => ?_⟩
  · rcases hst with hst | hw
    · rw [hst]
      exact hl2
    · exact hl2.of_writer hw
  · by_cases hj : j = i
    · subst hj
      simp only [Sys.setNode, Function.update_self]
      refine hnd _ fun hst h => ?_
      rwa [hst]
    · simp only [Sys.setNode, Function.update_of_ne hj]
      exact (hn j).store (hst.imp_right fun hw => Phase.free_of_writer hw hj)

/-- A message of `j` reaches `i`, and both have new roles. -/
theorem Sys.Agree.pair {φ φ' : Phase n} {d : DataBlock B} {ndj ndi : Node n B}
    (hl2 : φ'.L2 (V.ok (c.stores.foldl (fun d w => w d) g.latest)) V.clean d g.l2)
    (hn : ∀ i, (φ.role i).Ok (V.ok g.latest) (V.ok g.latest d) i (g.node i))
    (hj : (φ'.role j).Ok (V.ok g.latest) (V.ok g.latest d) j ndj)
    (hi : ∀ cur' : Prop, (c.stores = [] → V.ok g.latest d → cur') →
      (φ'.role i).Ok (V.ok (c.stores.foldl (fun d w => w d) g.latest)) cur' i ndi)
    (hrole : ∀ k, k ≠ i → k ≠ j → φ'.role k = φ.role k)
    (hst : c.stores = [] ∨ (φ'.role i).writer = true) :
    Sys.Agree V φ' { (g.setNode j ndj).setNode i ndi with
      latest := c.stores.foldl (fun d w => w d) g.latest } := by
  have hfree : ∀ k, k ≠ i → c.stores = [] ∨ (φ'.role k).free = true := fun k hk =>
    hst.imp_right fun hw => Phase.free_of_writer hw hk
  refine ⟨d, hl2, fun k => ?_⟩
  by_cases hki : k = i
  · subst hki
    simp only [Sys.setNode, Function.update_self]
    refine hi _ fun hst h => ?_
    rwa [hst]
  by_cases hkj : k = j
  · subst hkj
    simp only [Sys.setNode, Function.update_of_ne hki, Function.update_self]
    exact hj.store (hfree k hki)
  · simp only [Sys.setNode, Function.update_of_ne hki, Function.update_of_ne hkj]
    refine Role.Ok.store ?_ (hfree k hki)
    rw [hrole k hki hkj]
    exact hn k

theorem L1Cache.mandatoryEvent_mem (l : L1Cache.Line B) (t : L1Cache.RubyRequestType) :
    L1Cache.mandatoryEvent l t ∈ coreEvents := by
  have ht : L1Cache.mandatory_request_type_to_event t ∈ coreEvents := by
    cases t <;> decide
  have hr : L1Cache.Event.L1_Replacement ∈ coreEvents := by decide
  unfold L1Cache.mandatoryEvent
  split
  · split_ifs <;> assumption
  · exact ht

/-- A message of `j` leaves its buffer and is taken by `i`. -/
theorem Sys.afterL1_setNode_of_ne (hij : i ≠ j) (nd : Node n B) : (g.setNode j nd).afterL1 i c =
    { (g.setNode j nd).setNode i ((g.node i).afterL1 c) with
      latest := c.stores.foldl (fun d w => w d) g.latest } := by
  simp [Sys.afterL1, Sys.setNode, Function.update_of_ne hij]

/-- An ack for the node that gets the line. -/
theorem Sys.Agree.ack {D : Finset (Fin n)} {w : DataBlock B → DataBlock B} {e : L1Cache.Event}
    {d : DataBlock B} (hl2 : (Phase.granting i D).L2 (V.ok g.latest) V.clean d g.l2)
    (hn : ∀ k, ((Phase.granting i D).role k).Ok (V.ok g.latest) (V.ok g.latest d) k (g.node k))
    (hj : Role.bystander.Ok (V.ok g.latest) (V.ok g.latest d) j
      ((g.node j).takePeer true (i, invAck j)))
    (hD : j ∈ D) (hji : j ≠ i)
    (he : L1Cache.responseEvent (g.node i).line (invAck j : ResponseMsg n B) = some e)
    (hc : L1Cache.doTransition i { response := some (invAck j), store := w } e (g.node i).line =
      some c) :
    Sys.Agree V (.granting i (D.erase j))
        ((g.setNode j ((g.node j).takePeer c.popped (i, invAck j))).afterL1 i c) ∧
      (c.stores = [] ∨ g.l2.getState.mode = .holding) := by
  have hcard : D.card = (D.erase j).card + 1 := (Finset.card_erase_add_one hD).symm
  have hi := hn i
  simp only [Phase.role, if_true, hcard] at hi
  obtain ⟨hpop, hst, hnd⟩ := hi.ack V.store he hc
  have hst' : c.stores = [] ∨ ((Phase.granting i (D.erase j)).role i).writer = true := by
    simpa [Phase.role, Role.writer] using hst
  have hl2' : (Phase.granting i (D.erase j)).L2 (V.ok g.latest) V.clean d g.l2 := hl2.acked
  rw [hpop, afterL1_setNode_of_ne hji.symm]
  refine ⟨.pair hl2.acked hn ?_ ?_ ?_ hst', hst'.imp_right hl2'.holding⟩
  · simpa [Phase.role, hji] using hj
  · simpa [Phase.role] using hnd
  · intro k hki hkj
    simp [Phase.role, hki, hkj]

/-- A message of another L1. -/
theorem Sys.Coherent.peer {m : ResponseMsg n B} {w : DataBlock B → DataBlock B}
    {e : L1Cache.Event} (hg : g.Coherent V) (hm : (i, m) ∈ (g.node j).responseBetweenL1s)
    (he : L1Cache.responseEvent (g.node i).line m = some e)
    (hc : L1Cache.doTransition i { response := some m, store := w } e (g.node i).line = some c) :
    Sys.Coherent V ((g.setNode j ((g.node j).takePeer c.popped (i, m))).afterL1 i c) ∧
      (c.stores = [] ∨ g.l2.getState.mode = .holding) := by
  obtain ⟨φ, d, hl2, hn⟩ := hg
  rcases (hn j).sent hm with ⟨hρ, rfl, hj⟩ | ⟨hd, ⟨hρ, hj⟩ | ⟨wb, hρ, hj⟩⟩
  · obtain ⟨D, rfl, hD, hji⟩ := Phase.of_invalidatee hρ
    obtain ⟨h, hst⟩ := Sys.Agree.ack hl2 hn hj hD hji he hc
    exact ⟨⟨_, h⟩, hst⟩
  · -- the owner's data, for a write
    obtain rfl := Phase.of_handing hρ
    have hold := hl2.holding (i := j) (by simp [Phase.role, Role.writer])
    obtain ⟨hx, hl2⟩ := hl2.handed
    have hi := hn i
    simp only [Phase.role, if_neg hx, if_true] at hi
    obtain ⟨hpop, hnd⟩ := hi.take V.store hd he hc
    rw [hpop, afterL1_setNode_of_ne hx]
    refine ⟨⟨.granting i ∅, .pair hl2 hn ?_ ?_ ?_ (.inr ?_)⟩, .inr hold⟩
    · simpa [Phase.role, hx.symm] using hj
    · simpa [Phase.role] using hnd
    · intro k hki hkj
      simp [Phase.role, hki, hkj]
    · simp [Phase.role, Role.writer]
  · -- the owner's data, for a read
    obtain ⟨u, rfl⟩ := Phase.of_sharing hρ
    obtain ⟨hx, rfl, hl2'⟩ := hl2.read
    have hi := hn i
    simp only [Phase.role, if_neg hx, if_true] at hi
    obtain ⟨hpop, hst, hnd⟩ := hi.read hd he hc
    rw [hpop, afterL1_setNode_of_ne hx]
    refine ⟨⟨.handoverS j i false wb true, .pair ?_ hn ?_ ?_ ?_ (.inl hst)⟩, .inl hst⟩
    · rw [hst]
      exact hl2'
    · simpa [Phase.role] using hj
    · intro cur' hcur
      rw [hst]
      simpa [Phase.role, hx] using hnd.mono (hcur hst)
    · intro k hki hkj
      simp [Phase.role, hki, hkj]

/-- **What a node does on its own** leaves the phase as it is, and it stores only while the L2 has
the line. -/
theorem Sys.Agree.l1Own {φ : Phase n} (hg : g.Agree V φ) {l : L1Label n B} {inp : L1Cache.In n B}
    {e : L1Cache.Event} (hl : ∀ j m w, l ≠ .responseFromL1 j m w)
    (hC : dirtyAnswered g (.l1 i l) = true ∨ ∀ v d, V.ok v d)
    (he : g.l1Event i l = some (inp, e))
    (hc : L1Cache.doTransition i inp e (g.node i).line = some c) :
    ((g.l1Dequeue i c.popped l).afterL1 i c).Agree V φ ∧
      (c.stores = [] ∨ g.l2.getState.mode = .holding) := by
  obtain ⟨d, hl2, hn⟩ := hg
  have hcore {w : DataBlock B → DataBlock B} {e : L1Cache.Event} (he : e ∈ coreEvents)
      (hc : L1Cache.doTransition i { store := w } e (g.node i).line = some c) :
      (g.afterL1 i c).Agree V φ ∧ (c.stores = [] ∨ g.l2.getState.mode = .holding) := by
    obtain ⟨hst, hnd⟩ := (hn i).core V.store he hc
    exact ⟨.own hl2 hn hst hnd, hst.imp_right hl2.holding⟩
  cases l with
  | responseFromL1 j m w => exact absurd rfl (hl j m w)
  | cpu t w =>
      cases he
      exact hcore (L1Cache.mandatoryEvent_mem _ t) hc
  | replacement =>
      simp only [Sys.l1Event, Option.ite_none_right_eq_some] at he
      obtain ⟨-, heq⟩ := he
      cases heq
      exact hcore (by decide) hc
  | llscTimeout =>
      simp only [Sys.l1Event, Option.ite_none_right_eq_some] at he
      obtain ⟨-, heq⟩ := he
      cases heq
      exact hcore (by decide) hc
  | request m =>
      simp only [Sys.l1Event, Option.ite_none_right_eq_some, Option.map_eq_some_iff] at he
      obtain ⟨hm, e, he, heq⟩ := he
      cases heq
      have hE : ∀ x : L1Cache.Entry B, (g.node i).line = .stable .E x → x.Dirty = true →
          m.type = .INV → V.ok g.latest d := by
        intro x hx hdx ht
        rcases hC with hC | hC
        · simp [dirtyAnswered, ht, hx, L1Cache.Line.getState, hdx] at hC
        · exact hC _ _
      obtain ⟨hst, hnd⟩ := (hn i).ask hm hE he hc
      rw [Sys.l1Dequeue, Sys.afterL1_setNode]
      refine ⟨.own hl2 hn (.inl hst) fun cur' hcur => ?_, .inl hst⟩
      rw [hst]
      exact hnd.mono (hcur hst)
  | response m w =>
      simp only [Sys.l1Event, Option.ite_none_right_eq_some, Option.map_eq_some_iff] at he
      obtain ⟨hm, e, he, heq⟩ := he
      cases heq
      obtain ⟨hst, hnd⟩ := (hn i).answer V.store hm he hc
      rw [Sys.l1Dequeue, Sys.afterL1_setNode]
      exact ⟨.own hl2 hn hst hnd, hst.imp_right hl2.holding⟩

/-- **A step of an L1 keeps the system coherent**, and a store completes only while the L2 has the
line. -/
theorem Sys.Coherent.l1Step (hg : g.Coherent V) {l : L1Label n B} {inp : L1Cache.In n B}
    {e : L1Cache.Event} (hC : dirtyAnswered g (.l1 i l) = true ∨ ∀ v d, V.ok v d)
    (he : g.l1Event i l = some (inp, e))
    (hc : L1Cache.doTransition i inp e (g.node i).line = some c) :
    ((g.l1Dequeue i c.popped l).afterL1 i c).Coherent V ∧
      (c.stores = [] ∨ g.l2.getState.mode = .holding) := by
  by_cases hl : ∃ j m w, l = .responseFromL1 j m w
  · obtain ⟨j, m, w, rfl⟩ := hl
    simp only [Sys.l1Event, Option.ite_none_right_eq_some, Option.map_eq_some_iff] at he
    obtain ⟨hm, e, he, heq⟩ := he
    cases heq
    exact hg.peer hm he hc
  · obtain ⟨φ, hg⟩ := hg
    obtain ⟨h, hst⟩ := hg.l1Own (fun j m w h => hl ⟨j, m, w, h⟩) hC he hc
    exact ⟨⟨φ, h⟩, hst⟩

end

end

end SttRuby.Protocol
