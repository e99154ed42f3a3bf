import SttRuby.Protocol.Phases

/-!
# Protocol — Serving

The steps of the L2 keep the system coherent (`Sys.Coherent.l2Step`), one lemma for each kind of
message: a read, a write and an upgrade lead from phase to phase or wait, a write-back ends an
ownership or is acknowledged, the replies and unblock messages of the nodes end what the L2 has
started, and a replacement or an invalidation by the directory begins a recall.  What the L2
sends to the directory is up to date, and it sends a clean acknowledgement only when its block is
up to date and the memory's.

One thing has to be excluded: the L2 must not take a write-back for the answer to its recall,
as it does in `MT_I` and `MCT_I` (`recallsAlone`).
-/

namespace SttRuby.Protocol

section

variable {n B : ℕ}

/-- The step does not serve a write-back during the recall of an owner. -/
def recallsAlone (g : Sys n B) : Label n B → Bool
  | .l2 (.request _ m) => m.type ≠ .PUTX || g.l2.getState ∉ [.MT_I, .MCT_I]
  | _ => true

/-- A message to each of the nodes `D`. -/
def toNodes {α : Type} (D : Finset (Fin n)) (m : α) : Fin n → List α :=
  fun j => if j ∈ D then [m] else []

theorem toNodes_self {α : Type} (i : Fin n) (m : α) : toNodes {i} m i = [m] := by simp [toNodes]

theorem mem_toNodes_self {α : Type} (i : Fin n) (m : α) : m ∈ toNodes {i} m i := by simp [toNodes]

theorem toNodes_of_ne {α : Type} {i j : Fin n} (m : α) (h : j ≠ i) : toNodes {i} m j = [] := by
  simp [toNodes, h]

variable {V : Values B} {g : Sys n B} {i : Fin n} {φ : Phase n} {d : DataBlock B}
  {q : RequestMsg n B} {e : L2Cache.Event} {c : L2Cache.Ctx n B}

/-- A message that waits. -/
theorem Sys.Coherent.wait (hg : g.Coherent V) (nd : Bool → Node n B)
    (hnd : nd false = g.node i) (hc : c = { line := g.l2 }) :
    ((g.setNode i (nd c.popped)).afterL2 c).Coherent V := by
  subst hc
  obtain ⟨φ, d, hl2, hn⟩ := hg
  refine ⟨φ, d, hl2, fun j => ?_⟩
  simp only [Sys.afterL2, Sys.setNode, hnd, Function.update_eq_self, Node.receive_nil]
  exact hn j

/-- The L2 has acted on a message of `i`. -/
theorem Sys.Agree.serve {nd : Node n B} (d : DataBlock B)
    (hl2 : φ.L2 (V.ok g.latest) V.clean d c.line)
    (hi : (φ.role i).Ok (V.ok g.latest) (V.ok g.latest d) i
      (nd.receive (c.requestToL1 i) (c.responseToL1 i)))
    (hj : ∀ j, j ≠ i → (φ.role j).Ok (V.ok g.latest) (V.ok g.latest d) j
      ((g.node j).receive (c.requestToL1 j) (c.responseToL1 j))) :
    ((g.setNode i nd).afterL2 c).Agree V φ := by
  refine ⟨d, hl2, fun j => ?_⟩
  by_cases h : j = i
  · subst h
    simpa [Sys.afterL2, Sys.setNode] using hi
  · simpa [Sys.afterL2, Sys.setNode, h] using hj j h

theorem Sys.Coherent.serve {nd : Node n B} (φ : Phase n) (d : DataBlock B)
    (hl2 : φ.L2 (V.ok g.latest) V.clean d c.line)
    (hi : (φ.role i).Ok (V.ok g.latest) (V.ok g.latest d) i
      (nd.receive (c.requestToL1 i) (c.responseToL1 i)))
    (hj : ∀ j, j ≠ i → (φ.role j).Ok (V.ok g.latest) (V.ok g.latest d) j
      ((g.node j).receive (c.requestToL1 j) (c.responseToL1 j))) :
    ((g.setNode i nd).afterL2 c).Coherent V :=
  ⟨φ, .serve d hl2 hi hj⟩

/-! ### Requests -/

/-- A node whose request the L2 has taken has no other. -/
theorem Role.Ok.not_served {ok : DataBlock B → Prop} {cur : Prop} {ρ : Role n} {nd : Node n B}
    (h : ρ.Ok ok cur i nd) (hq : q ∈ nd.L1RequestToL2Cache) :
    ρ ≠ .readServed ∧ ρ ≠ .writeServed := by
  obtain ⟨hP, hk, h⟩ := h
  rename_i P k l sent due asked reply unblock peer
  obtain rfl : sent = some q := Option.mem_toList.mp hq
  constructor <;> rintro rfl <;> cases hP <;> cases h <;> cases hk

/-- The sharers are asked to invalidate their copies for `i`. -/
theorem Sys.Coherent.invalidated {S : Finset (Fin n)} {j : Fin n}
    (hn : ∀ j, ((Phase.shared S).role j).Ok (V.ok g.latest) (V.ok g.latest d) j (g.node j))
    (hj : j ≠ i) {m : ResponseMsg n B} :
    ((Phase.granting i (S.erase i)).role j).Ok (V.ok g.latest) (V.ok g.latest d) j
      ((g.node j).receive (toNodes (S.erase i) (request .INV (.L1Cache i)) j)
        (toNodes {i} m j)) := by
  have h := hn j
  by_cases hS : j ∈ S
  · simp only [Phase.role, if_pos hS] at h
    simpa [Phase.role, toNodes, hj, hS] using h.invalidate.1 i
  · simpa [Phase.role, toNodes, hj, hS, Node.receive_nil] using h

/-- The readers of a line wait for its data together. -/
theorem Sys.Coherent.joined {W : Finset (Fin n)} {x r : Option (Fin n)} {d₁ d₂ : DataBlock B}
    {b₁ b₂ : Bool} {p : ℤ} {nd : Node n B}
    (hn : ∀ j, ((Phase.fetchS W).role j).Ok (V.ok g.latest) (V.ok g.latest d) j (g.node j))
    (hi : Role.readServed.Ok (V.ok g.latest) (V.ok g.latest d) i nd) :
    ((g.setNode i nd).afterL2 ⟨⟨some ⟨.IS, insert i W, x, d₁, b₁, false⟩,
      some ⟨.IS, d₂, b₂, insert i W, r, p⟩⟩, fun _ => [], fun _ => [], [], [],
      true⟩).Coherent V := by
  refine .serve (.fetchS (insert i W)) d (.is _ _ _ _ _ _ _ _) ?_ fun j hj => ?_
  · simpa [Phase.role, Node.receive_nil] using hi
  · simpa [Phase.role, hj, Node.receive_nil] using hn j

/-- What the owner sends is a write-back. -/
theorem Sys.Coherent.not_owner {x : Fin n}
    (hn : ∀ j, ((Phase.owned x).role j).Ok (V.ok g.latest) (V.ok g.latest d) j (g.node j))
    (hq : q ∈ (g.node i).L1RequestToL2Cache) (ht : q.type ≠ .PUTX) : i ≠ x := by
  rintro rfl
  have ho := hn i
  simp only [Phase.role, if_true] at ho
  exact ht (ho.put hq).1

section

variable {ty : CoherenceRequestType} {dq : DataBlock B} {bq : Bool} {o ln : ℕ}
  (hl2 : φ.L2 (V.ok g.latest) V.clean d g.l2)
  (hn : ∀ j, (φ.role j).Ok (V.ok g.latest) (V.ok g.latest d) j (g.node j))
  (hq : ⟨ty, .L1Cache i, dq, bq, o, ln⟩ ∈ (g.node i).L1RequestToL2Cache)
  (he : L2Cache.requestEvent g.l2 ⟨ty, .L1Cache i, dq, bq, o, ln⟩ = some e)
  (hc : L2Cache.doTransition { request := some ⟨ty, .L1Cache i, dq, bq, o, ln⟩ } e g.l2 = some c)

include hl2 hn hq he hc

/-- A write request for a shared line, or an upgrade of a node that is no sharer: the other sharers
are invalidated, and their acks go to the requestor. -/
theorem Sys.Agree.getX {S : Finset (Fin n)} (hφ : φ = .shared S) (ht : ty = .GETX ∨ ty = .UPGRADE)
    (hx : e = .L1_GETX) :
    ((g.setNode i ((g.node i).takeRequest c.popped ⟨ty, .L1Cache i, dq, bq, o, ln⟩)).afterL2
      c).Agree V (.granting i (S.erase i)) ∧ c.responseToDir = [] ∧
      ∃ r ∈ c.responseToL1 i, r.type = .DATA := by
  subst hx hφ
  have hserve := fun hρ => (hn i).serveWrite hρ hq ht
  generalize g.l2 = l at hl2 he hc
  cases hl2 with
  | ss S x b hd hcl =>
      have hi := hserve (by
        rcases ht with rfl | rfl
        · by_cases h : i ∈ S <;> simp [Phase.role, h]
        · have h : i ∉ S := by
            rintro h
            simp [L2Cache.requestEvent, MachineID.l1Cache, L2Cache.L1Cache_request_type_to_event,
              h] at he
          exact .inl (if_neg h))
      obtain rfl : c = ⟨⟨some ⟨.SS_MB, S, x, d, b, false⟩, none⟩,
          toNodes (S.erase i) (request .INV (.L1Cache i)),
          toNodes {i} ⟨.DATA, .L2Cache, d, false, L2Cache.ackCount S i⟩, [], [], true⟩ :=
        (Option.some.inj hc).symm
      refine ⟨.serve d (.ssMB (Finset.notMem_erase i S) S x b hcl) ?_ fun j hj => ?_, rfl,
        _, mem_toNodes_self i _, rfl⟩
      · simpa [Phase.role, toNodes, L2Cache.ackCount_eq] using hi.grant (S.erase i).card hd hd
      · exact Coherent.invalidated hn hj

/-- An upgrade of a sharer. -/
theorem Sys.Agree.upgrade {S : Finset (Fin n)} (hφ : φ = .shared S) (ht : ty = .UPGRADE)
    (hx : e = .L1_UPGRADE) :
    ((g.setNode i ((g.node i).takeRequest c.popped ⟨ty, .L1Cache i, dq, bq, o, ln⟩)).afterL2
      c).Agree V (.granting i (S.erase i)) ∧ c.responseToDir = [] ∧
      ∃ r ∈ c.responseToL1 i, r.type = .ACK := by
  subst hx hφ ht
  generalize g.l2 = l at hl2 he hc
  cases hl2 with
  | ss S x b hd hcl =>
      have h : i ∈ S := by
        by_contra h
        simp [L2Cache.requestEvent, MachineID.l1Cache, L2Cache.L1Cache_request_type_to_event,
          h] at he
      have hi := hn i
      simp only [Phase.role, if_pos h] at hi
      have hcard := Finset.card_erase_add_one h
      have hack : -(S.card : ℤ) + 1 = -((S.erase i).card : ℤ) := by omega
      obtain rfl : c = ⟨⟨some ⟨.SS_MB, S, x, d, b, false⟩, none⟩,
          toNodes (S.erase i) (request .INV (.L1Cache i)),
          toNodes {i} ⟨.ACK, .L2Cache, fun _ => 0, false, 0 - (S.card : ℤ) + 1⟩, [], [], true⟩ :=
        (Option.some.inj hc).symm
      refine ⟨.serve d (.ssMB (Finset.notMem_erase i S) S x b hcl) ?_ fun j hj => ?_, rfl,
        _, mem_toNodes_self i _, rfl⟩
      · simpa [Phase.role, toNodes, hack] using hi.upgrade hq rfl hd (S.erase i).card
      · exact Coherent.invalidated hn hj

/-- A read request. -/
theorem Sys.Coherent.getS (ht : ty = .GETS ∨ ty = .GET_INSTR) :
    ((g.setNode i ((g.node i).takeRequest c.popped ⟨ty, .L1Cache i, dq, bq, o, ln⟩)).afterL2
      c).Coherent V ∧ c.responseToDir = [] := by
  have hwait := Sys.Coherent.wait (i := i) (c := c) ⟨φ, d, hl2, hn⟩
    (fun b => (g.node i).takeRequest b ⟨ty, .L1Cache i, dq, bq, o, ln⟩) rfl
  have hserve := fun hρ => (hn i).serveRead hρ hq ht
  have hnot := ((hn i).not_served hq).1
  generalize g.l2 = l at hl2 he hc hwait
  cases hl2 with
  | np =>
      have hi := hserve (.inl rfl)
      rcases ht with rfl | rfl
      · cases he
        obtain rfl : c = ⟨⟨some ⟨.ISS, {i}, _, _, _, false⟩, some ⟨.ISS, _, _, {i}, _, _⟩⟩,
            fun _ => [], fun _ => [], [request .GETS .L2Cache], [], true⟩ :=
          (Option.some.inj hc).symm
        refine ⟨.serve (.fetchS {i}) d (.iss i _ _ _ _ _ _ _) ?_ fun j hj => ?_, rfl⟩
        · simpa [Phase.role, Node.receive_nil] using hi
        · simpa [Phase.role, hj, Node.receive_nil] using hn j
      · cases he
        obtain rfl : c = ⟨⟨some ⟨.IS, {i}, _, _, _, false⟩, some ⟨.IS, _, _, {i}, _, _⟩⟩,
            fun _ => [], fun _ => [], [request .GET_INSTR .L2Cache], [], true⟩ :=
          (Option.some.inj hc).symm
        refine ⟨.serve (.fetchS {i}) d (.is {i} _ _ _ _ _ _ _) ?_ fun j hj => ?_, rfl⟩
        · simpa [Phase.role, Node.receive_nil] using hi
        · simpa [Phase.role, hj, Node.receive_nil] using hn j
  | m x b hd hcl =>
      have hi := hserve (.inl rfl)
      rcases ht with rfl | rfl
      · -- nobody else has the line: it is given exclusively
        cases he
        obtain rfl : c = ⟨⟨some ⟨.MT_MB, ∅, x, d, b, false⟩, none⟩, fun _ => [],
            toNodes {i} ⟨.DATA_EXCLUSIVE, .L2Cache, d, false, L2Cache.ackCount ∅ i⟩, [], [],
            true⟩ := (Option.some.inj hc).symm
        refine ⟨.serve (.granting i ∅) d (.mtMB (Finset.notMem_empty i) ∅ x b hcl) ?_
          fun j hj => ?_, rfl⟩
        · simpa [Phase.role, toNodes_self] using hi.sendExclusive _ hd hd
        · simpa [Phase.role, hj, toNodes_of_ne, Node.receive_nil] using hn j
      · cases he
        obtain rfl : c = ⟨⟨some ⟨.SS, {i}, x, d, b, false⟩, none⟩, fun _ => [],
            toNodes {i} ⟨.DATA, .L2Cache, d, false, L2Cache.ackCount ∅ i⟩, [], [], true⟩ :=
          (Option.some.inj hc).symm
        refine ⟨.serve (.shared {i}) d (.ss {i} x b hd hcl) ?_ fun j hj => ?_, rfl⟩
        · simpa [Phase.role, toNodes_self, L2Cache.ackCount] using hi.sendData hd
        · simpa [Phase.role, hj, toNodes_of_ne, Node.receive_nil] using hn j
  | iss k x d₁ d₂ b₁ b₂ r p =>
      -- the readers wait for the data together
      have hi := hserve (.inl (by grind [Phase.role]))
      obtain rfl : c = ⟨⟨some ⟨.IS, insert i {k}, x, d₁, b₁, false⟩,
          some ⟨.IS, d₂, b₂, insert i {k}, r, p⟩⟩, fun _ => [], fun _ => [], [], [], true⟩ := by
        rcases ht with rfl | rfl <;> cases he <;> exact (Option.some.inj hc).symm
      exact ⟨.joined hn hi, rfl⟩
  | is W x d₁ d₂ b₁ b₂ r p =>
      have hi := hserve (.inl (by grind [Phase.role]))
      obtain rfl : c = ⟨⟨some ⟨.IS, insert i W, x, d₁, b₁, false⟩,
          some ⟨.IS, d₂, b₂, insert i W, r, p⟩⟩, fun _ => [], fun _ => [], [], [], true⟩ := by
        rcases ht with rfl | rfl <;> cases he <;> exact (Option.some.inj hc).symm
      exact ⟨.joined hn hi, rfl⟩
  | ss S x b hd hcl =>
      have hi := hserve (by by_cases h : i ∈ S <;> simp [Phase.role, h])
      obtain rfl : c = ⟨⟨some ⟨.SS, insert i S, x, d, b, false⟩, none⟩, fun _ => [],
          toNodes {i} ⟨.DATA, .L2Cache, d, false, 0⟩, [], [], true⟩ := by
        rcases ht with rfl | rfl <;> cases he <;> exact (Option.some.inj hc).symm
      refine ⟨.serve (.shared (insert i S)) d (.ss _ x b hd hcl) ?_ fun j hj => ?_, rfl⟩
      · simpa [Phase.role, toNodes_self] using hi.sendData hd
      · simpa [Phase.role, hj, toNodes_of_ne, Node.receive_nil] using hn j
  | mt x b hcl =>
      have ho := hn x
      simp only [Phase.role, if_true] at ho
      have hx : i ≠ x := Sys.Coherent.not_owner hn hq (by rcases ht with rfl | rfl <;> simp)
      have hi := hserve (.inl (if_neg hx))
      obtain rfl : c = ⟨⟨some ⟨.MT_IIB, {x}, some x, d, b, false⟩, none⟩,
          toNodes {x} (request ty (.L1Cache i)), fun _ => [], [], [], true⟩ := by
        rcases ht with rfl | rfl <;> cases he <;> exact (Option.some.inj hc).symm
      refine ⟨.serve (.handoverS x i true true true) d (.mtIIB hx true b hcl) ?_ fun j hj => ?_,
        rfl⟩
      · simpa [Phase.role, hx, toNodes_of_ne, Node.receive_nil] using hi
      · by_cases hjx : j = x
        · subst hjx
          simpa [Phase.role, toNodes_self] using ho.forward.2.1 i ty ht
        · simpa [Phase.role, hj, hjx, toNodes_of_ne, Node.receive_nil] using hn j
  | _ =>
      rcases ht with rfl | rfl <;> cases he <;>
        exact ⟨hwait (Option.some.inj hc).symm, by cases hc; rfl⟩

/-- A write request, or an upgrade of a node that is no sharer. -/
theorem Sys.Coherent.getX (ht : ty = .GETX ∨ ty = .UPGRADE) (hx : e = .L1_GETX) :
    ((g.setNode i ((g.node i).takeRequest c.popped ⟨ty, .L1Cache i, dq, bq, o, ln⟩)).afterL2
      c).Coherent V ∧ c.responseToDir = [] := by
  have hwait := Sys.Coherent.wait (i := i) (c := c) ⟨φ, d, hl2, hn⟩
    (fun b => (g.node i).takeRequest b ⟨ty, .L1Cache i, dq, bq, o, ln⟩) rfl
  have hserve := fun hρ => (hn i).serveWrite hρ hq ht
  have hshared {S : Finset (Fin n)} (hφ : φ = .shared S) :=
    Sys.Agree.getX hl2 hn hq he hc hφ ht hx
  subst hx
  generalize g.l2 = l at hl2 he hc hwait
  cases hl2 with
  | np =>
      have hi := hserve (.inl rfl)
      obtain rfl : c = ⟨⟨some ⟨.IM, ∅, _, _, _, false⟩, some ⟨.IM, _, _, _, some i, _⟩⟩,
          fun _ => [], fun _ => [], [request ty .L2Cache], [], true⟩ := (Option.some.inj hc).symm
      refine ⟨.serve (.fetchX i) d (.im i _ _ _ _ _ _ _) ?_ fun j hj => ?_, rfl⟩
      · simpa [Phase.role, Node.receive_nil] using hi
      · simpa [Phase.role, hj, Node.receive_nil] using hn j
  | m x b hd hcl =>
      have hi := hserve (.inl rfl)
      obtain rfl : c = ⟨⟨some ⟨.MT_MB, ∅, x, d, b, false⟩, none⟩, fun _ => [],
          toNodes {i} ⟨.DATA, .L2Cache, d, false, L2Cache.ackCount ∅ i⟩, [], [], true⟩ :=
        (Option.some.inj hc).symm
      refine ⟨.serve (.granting i ∅) d (.mtMB (Finset.notMem_empty i) ∅ x b hcl) ?_
        fun j hj => ?_, rfl⟩
      · simpa [Phase.role, toNodes_self, L2Cache.ackCount] using hi.grant 0 hd hd
      · simpa [Phase.role, hj, toNodes_of_ne, Node.receive_nil] using hn j
  | ss =>
      obtain ⟨h, hout, -⟩ := hshared rfl
      exact ⟨⟨_, h⟩, hout⟩
  | mt x b hcl =>
      have ho := hn x
      simp only [Phase.role, if_true] at ho
      have hx : i ≠ x := Sys.Coherent.not_owner hn hq (by rcases ht with rfl | rfl <;> simp)
      have hi := hserve (.inl (if_neg hx))
      obtain rfl : c = ⟨⟨some ⟨.MT_MB, {x}, some x, d, b, false⟩, none⟩,
          toNodes {x} (request ty (.L1Cache i)), fun _ => [], [], [], true⟩ :=
        (Option.some.inj hc).symm
      refine ⟨.serve (.handoverX x i) d (.mtMBX hx b hcl) ?_ fun j hj => ?_, rfl⟩
      · simpa [Phase.role, hx, toNodes_of_ne, Node.receive_nil] using hi
      · by_cases hjx : j = x
        · subst hjx
          simpa [Phase.role, toNodes_self] using ho.forward.1 i ty ht
        · simpa [Phase.role, hj, hjx, toNodes_of_ne, Node.receive_nil] using hn j
  | _ => exact ⟨hwait (Option.some.inj hc).symm, by cases hc; rfl⟩

/-- An upgrade of a sharer. -/
theorem Sys.Coherent.upgrade (ht : ty = .UPGRADE) (hx : e = .L1_UPGRADE) :
    ((g.setNode i ((g.node i).takeRequest c.popped ⟨ty, .L1Cache i, dq, bq, o, ln⟩)).afterL2
      c).Coherent V ∧ c.responseToDir = [] := by
  have hwait := Sys.Coherent.wait (i := i) (c := c) ⟨φ, d, hl2, hn⟩
    (fun b => (g.node i).takeRequest b ⟨ty, .L1Cache i, dq, bq, o, ln⟩) rfl
  have hshared {S : Finset (Fin n)} (hφ : φ = .shared S) :=
    Sys.Agree.upgrade hl2 hn hq he hc hφ ht hx
  subst hx ht
  generalize g.l2 = l at hl2 he hc hwait
  cases hl2 with
  | ss =>
      obtain ⟨h, hout, -⟩ := hshared rfl
      exact ⟨⟨_, h⟩, hout⟩
  | mI | ssMB | mtMB | mtMBX | mtIIB | mtIB | mtSB | sI | iI | mtI | mctI =>
      exact ⟨hwait (Option.some.inj hc).symm, by cases hc; rfl⟩
  | _ => cases hc

/-- A write-back. -/
theorem Sys.Coherent.putX (ht : ty = .PUTX) (hA : g.l2.getState ∉ [.MT_I, .MCT_I]) :
    ((g.setNode i ((g.node i).takeRequest c.popped ⟨ty, .L1Cache i, dq, bq, o, ln⟩)).afterL2
      c).Coherent V ∧ c.responseToDir = [] := by
  subst ht
  have hwait := Sys.Coherent.wait (i := i) (c := c) ⟨φ, d, hl2, hn⟩
    (fun b => (g.node i).takeRequest b ⟨.PUTX, .L1Cache i, dq, bq, o, ln⟩) rfl
  -- what is not the owner's is only acknowledged
  have hold : (φ.role i).writer = false → c = ⟨g.l2, fun _ => [],
      toNodes {i} (response .WB_ACK .L2Cache), [], [], true⟩ →
      ((g.setNode i ((g.node i).takeRequest c.popped ⟨.PUTX, .L1Cache i, dq, bq, o, ln⟩)).afterL2
        c).Coherent V ∧ c.responseToDir = [] := by
    rintro hw rfl
    refine ⟨.serve φ d hl2 ?_ fun j hj => ?_, rfl⟩
    · simpa [toNodes_self] using (hn i).putOld hw hq rfl
    · simpa [toNodes_of_ne, hj, Node.receive_nil] using hn j
  generalize g.l2 = l at hl2 he hc hwait hold hA
  have hev : e = .L1_PUTX ∨ e = .L1_PUTX_old := by
    cases hl2 <;> grind [L2Cache.requestEvent, MachineID.l1Cache,
      L2Cache.L1Cache_request_type_to_event]
  cases hl2 with
  | mt x b hcl =>
      by_cases hx : i = x
      · -- the owner gives the line up
        subst hx
        have hi := hn i
        simp only [Phase.role, if_true] at hi
        obtain ⟨-, hok, hdirty, hi⟩ := hi.put hq
        have hj (j : Fin n) (hj : j ≠ i) : Role.bystander.Ok (V.ok g.latest) (V.ok g.latest d) j
            (g.node j) := by
          simpa [Phase.role, hj] using hn j
        obtain rfl : e = .L1_PUTX := by
          simpa [L2Cache.requestEvent, MachineID.l1Cache, L2Cache.L1Cache_request_type_to_event]
            using he.symm
        cases bq with
        | true =>
            obtain rfl : c = ⟨⟨some ⟨.M, ∅, some i, dq, true, false⟩, none⟩, fun _ => [],
                toNodes {i} (response .WB_ACK .L2Cache), [], [], true⟩ := (Option.some.inj hc).symm
            refine ⟨.serve .idle dq (.m (some i) true hok (by rintro ⟨⟩)) ?_ fun j h => ?_, rfl⟩
            · simpa [Phase.role, toNodes_self] using hi.of_free rfl
            · simpa [Phase.role, toNodes_of_ne, h, Node.receive_nil] using (hj j h).of_free rfl
        | false =>
            obtain rfl : c = ⟨⟨some ⟨.M, ∅, some i, d, b, false⟩, none⟩, fun _ => [],
                toNodes {i} (response .WB_ACK .L2Cache), [], [], true⟩ := (Option.some.inj hc).symm
            refine ⟨.serve .idle d (.m (some i) b (hdirty rfl) hcl) ?_ fun j h => ?_, rfl⟩
            · simpa [Phase.role, toNodes_self] using hi
            · simpa [Phase.role, toNodes_of_ne, h, Node.receive_nil] using hj j h
      · obtain rfl : e = .L1_PUTX_old := by
          simpa [L2Cache.requestEvent, MachineID.l1Cache, L2Cache.L1Cache_request_type_to_event, hx]
            using he.symm
        exact hold (by simp [Phase.role, hx, Role.writer]) (Option.some.inj hc).symm
  | mtI | mctI => exact absurd (by simp [L2Cache.Line.getState]) hA
  | ssMB | mtMB | mtMBX | mtIIB =>
      rcases hev with rfl | rfl <;> exact ⟨hwait (Option.some.inj hc).symm, by cases hc; rfl⟩
  | _ =>
      rcases hev with rfl | rfl <;>
        exact hold (by grind [Phase.role, Role.writer]) (Option.some.inj hc).symm

end

/-- The event of a write request or of an upgrade. -/
theorem Phase.L2.write_event {ok clean : DataBlock B → Prop} {l : L2Cache.Line n B}
    (h : φ.L2 ok clean d l) (hr : q.Requestor = .L1Cache i)
    (ht : q.type = .GETX ∨ q.type = .UPGRADE) (he : L2Cache.requestEvent l q = some e) :
    e = .L1_GETX ∨ q.type = .UPGRADE ∧ e = .L1_UPGRADE := by
  cases h <;> grind [L2Cache.requestEvent, MachineID.l1Cache, L2Cache.L1Cache_request_type_to_event]

/-- **A request keeps the system coherent**, and nothing is sent to the directory. -/
theorem Sys.Coherent.l2Request (hg : g.Coherent V) (hq : q ∈ (g.node i).L1RequestToL2Cache)
    (hA : q.type ≠ .PUTX ∨ g.l2.getState ∉ [.MT_I, .MCT_I])
    (he : L2Cache.requestEvent g.l2 q = some e)
    (hc : L2Cache.doTransition { request := some q } e g.l2 = some c) :
    ((g.setNode i ((g.node i).takeRequest c.popped q)).afterL2 c).Coherent V ∧
      c.responseToDir = [] := by
  obtain ⟨φ, d, hl2, hn⟩ := hg
  obtain ⟨hr, ht⟩ := (hn i).requested hq
  obtain ⟨ty, r, dq, bq, o, ln⟩ := q
  obtain rfl : r = .L1Cache i := hr
  simp only [List.mem_cons, List.not_mem_nil, or_false] at ht
  rcases ht with rfl | rfl | rfl | rfl | rfl
  · exact getS hl2 hn hq he hc (.inl rfl)
  · exact getS hl2 hn hq he hc (.inr rfl)
  · rcases hl2.write_event rfl (.inl rfl) he with hx | ⟨ht, -⟩
    · exact getX hl2 hn hq he hc (.inl rfl) hx
    · cases ht
  · rcases hl2.write_event rfl (.inr rfl) he with hx | ⟨-, hx⟩
    · exact getX hl2 hn hq he hc (.inr rfl) hx
    · exact upgrade hl2 hn hq he hc rfl hx
  · exact putX hl2 hn hq he hc rfl (hA.resolve_left fun h => h rfl)

/-! ### Replies and unblock messages -/

/-- What the L2 may send to the directory: data that is up to date, or an acknowledgement if the
memory is. -/
def Values.Sends (V : Values B) (v : DataBlock B) (l : List (ResponseMsg n B)) : Prop :=
  ∀ r ∈ l, (r.type = .MEMORY_DATA → V.ok v r.DataBlk) ∧
    (r.type = .ACK → ∃ d, V.ok v d ∧ V.clean d)

theorem Values.sends_nil (V : Values B) (v : DataBlock B) :
    V.Sends v ([] : List (ResponseMsg n B)) :=
  fun _ h => absurd h List.not_mem_nil

theorem Values.sends_data {v d : DataBlock B} (b : Bool) (h : V.ok v d) :
    V.Sends v [(⟨.MEMORY_DATA, .L2Cache, d, b, 0⟩ : ResponseMsg n B)] := by
  intro r hr
  rw [List.mem_singleton.mp hr]
  exact ⟨fun _ => h, nofun⟩

theorem Values.sends_ack {v d d' : DataBlock B} (h : V.ok v d) (hc : V.clean d) :
    V.Sends v [(⟨.ACK, .L2Cache, d', false, 0⟩ : ResponseMsg n B)] := by
  intro r hr
  rw [List.mem_singleton.mp hr]
  exact ⟨nofun, fun _ => ⟨d, h, hc⟩⟩

theorem Phase.of_invalidatee_l2 (h : φ.role i = .invalidatee .L2Cache) :
    ∃ D, φ = .recallS D ∧ i ∈ D := by
  cases φ <;> grind [Phase.role]

theorem Phase.of_recalled (h : φ.role i = .recalled) : φ = .recallX i := by
  cases φ <;> grind [Phase.role]

theorem Phase.of_acquirer (h : φ.role i = .acquirer 0) : φ = .granting i ∅ := by
  cases φ <;> grind [Phase.role, Finset.card_eq_zero]

theorem Phase.of_reader (h : φ.role i = .reader true) :
    ∃ x wb, φ = .handoverS x i false wb true ∧ i ≠ x := by
  cases φ <;> grind [Phase.role]

section

variable {m : ResponseMsg n B}

/-- A sharer has invalidated its copy for the L2. -/
theorem Sys.Coherent.sharerReply {D : Finset (Fin n)} (hD : i ∈ D)
    (hl2 : (Phase.recallS D).L2 (V.ok g.latest) V.clean d g.l2)
    (hn : ∀ j, ((Phase.recallS D).role j).Ok (V.ok g.latest) (V.ok g.latest d) j (g.node j))
    (hi : Role.bystander.Ok (V.ok g.latest) (V.ok g.latest d) i
      ((g.node i).takeReply true (invAck i)))
    (he : L2Cache.responseEvent g.l2 (invAck i : ResponseMsg n B) = some e)
    (hc : L2Cache.doTransition { response := some (invAck i) } e g.l2 = some c) :
    ((g.setNode i ((g.node i).takeReply c.popped (invAck i))).afterL2 c).Coherent V ∧
      V.Sends g.latest c.responseToDir := by
  have hcard := Finset.card_erase_add_one hD
  have hsub : (D.card : ℤ) - 1 = (D.erase i).card := by omega
  have hj (j : Fin n) (hj : j ≠ i) : ((Phase.recallS (D.erase i)).role j).Ok (V.ok g.latest)
      (V.ok g.latest d) j (g.node j) := by
    simpa [Phase.role, hj] using hn j
  -- the last sharer
  have hlast (h : (D.card : ℤ) - 1 = 0) : D.erase i = ∅ := Finset.card_eq_zero.mp (by omega)
  generalize g.l2 = l at hl2 he hc
  by_cases h1 : (D.card : ℤ) - 1 = 0
  · have hidle (j : Fin n) (h : j ≠ i) : Role.bystander.Ok (V.ok g.latest) (V.ok g.latest d) j
        (g.node j) := by
      simpa [Phase.role, hlast h1] using hj j h
    obtain rfl : e = .Ack_all := by
      cases hl2 <;> simpa [L2Cache.responseEvent, invAck, h1] using he.symm
    cases hl2 with
    | sI _ b ids r hd =>
        obtain rfl : c = ⟨⟨none, some ⟨.M_I, d, b, ids, r, D.card⟩⟩, fun _ => [], fun _ => [], [],
            [⟨.MEMORY_DATA, .L2Cache, d, b, 0⟩], true⟩ := (Option.some.inj hc).symm
        refine ⟨.serve .idle d (.mI d b ids r _) ?_ fun j h => ?_, V.sends_data b hd⟩
        · simpa [Phase.role, Node.receive_nil] using hi
        · simpa [Phase.role, Node.receive_nil] using hidle j h
    | iI _ b ids r hd hcl =>
        obtain rfl : c = ⟨⟨none, some ⟨.M_I, d, b, ids, r, D.card⟩⟩, fun _ => [], fun _ => [], [],
            [⟨.ACK, .L2Cache, fun _ => 0, false, 0⟩], true⟩ := (Option.some.inj hc).symm
        refine ⟨.serve .idle d (.mI d b ids r _) ?_ fun j h => ?_, V.sends_ack hd hcl⟩
        · simpa [Phase.role, Node.receive_nil] using hi
        · simpa [Phase.role, Node.receive_nil] using hidle j h
  · obtain rfl : e = .Ack := by
      cases hl2 <;> simpa [L2Cache.responseEvent, invAck, h1] using he.symm
    cases hl2 with
    | sI _ b ids r hd =>
        obtain rfl : c = ⟨⟨none, some ⟨.S_I, d, b, ids, r, (D.card : ℤ) - 1⟩⟩, fun _ => [],
            fun _ => [], [], [], true⟩ := (Option.some.inj hc).symm
        rw [hsub]
        refine ⟨.serve (.recallS (D.erase i)) d (.sI _ b ids r hd) ?_ fun j h => ?_, V.sends_nil _⟩
        · simpa [Phase.role, Node.receive_nil] using hi
        · simpa [Node.receive_nil] using hj j h
    | iI _ b ids r hd hcl =>
        obtain rfl : c = ⟨⟨none, some ⟨.I_I, d, b, ids, r, (D.card : ℤ) - 1⟩⟩, fun _ => [],
            fun _ => [], [], [], true⟩ := (Option.some.inj hc).symm
        rw [hsub]
        refine ⟨.serve (.recallS (D.erase i)) d (.iI _ b ids r hd hcl) ?_ fun j h => ?_,
          V.sends_nil _⟩
        · simpa [Phase.role, Node.receive_nil] using hi
        · simpa [Node.receive_nil] using hj j h

/-- The owner has given the line back. -/
theorem Sys.Coherent.ownerReply
    (hl2 : (Phase.recallX i).L2 (V.ok g.latest) V.clean d g.l2)
    (hn : ∀ j, ((Phase.recallX i).role j).Ok (V.ok g.latest) (V.ok g.latest d) j (g.node j))
    (hm : m = invAck i ∧ V.ok g.latest d ∨ Carries (V.ok g.latest) (V.ok g.latest d) i m)
    (hi : Role.bystander.Ok (V.ok g.latest) (V.ok g.latest d) i ((g.node i).takeReply true m))
    (he : L2Cache.responseEvent g.l2 m = some e)
    (hc : L2Cache.doTransition { response := some m } e g.l2 = some c) :
    ((g.setNode i ((g.node i).takeReply c.popped m)).afterL2 c).Coherent V ∧
      V.Sends g.latest c.responseToDir := by
  have hleave (d' : DataBlock B) (b : Bool) (ids : Finset (Fin n)) (r : Option (Fin n))
      (out : List (ResponseMsg n B)) (hout : V.Sends g.latest out)
      (h : c = ⟨⟨none, some ⟨.M_I, d', b, ids, r, 1⟩⟩, fun _ => [], fun _ => [], [], out, true⟩) :
      ((g.setNode i ((g.node i).takeReply c.popped m)).afterL2 c).Coherent V ∧
        V.Sends g.latest c.responseToDir := by
    subst h
    refine ⟨.serve .idle d (.mI d' b ids r 1) ?_ fun j hj => ?_, hout⟩
    · simpa [Phase.role, Node.receive_nil] using hi
    · simpa [Phase.role, hj, Node.receive_nil] using hn j
  generalize g.l2 = l at hl2 he hc
  rcases hm with ⟨rfl, hcur⟩ | ⟨d', b', hd', hb'⟩
  · cases hl2 with
    | mtI _ b ids r =>
        cases he
        exact hleave d b ids r _ (V.sends_data b hcur) (Option.some.inj hc).symm
    | mctI _ b ids r hcl =>
        cases he
        exact hleave d b ids r _ (V.sends_ack hcur hcl) (Option.some.inj hc).symm
  · cases hl2 with
    | mtI _ b ids r =>
        cases b' <;> cases he
        · exact hleave d b ids r _ (V.sends_data b (hb' rfl)) (Option.some.inj hc).symm
        · exact hleave d' true ids r _ (V.sends_data true hd') (Option.some.inj hc).symm
    | mctI _ b ids r hcl =>
        cases b' <;> cases he
        · exact hleave d b ids r _ (V.sends_ack (hb' rfl) hcl) (Option.some.inj hc).symm
        · exact hleave d' true ids r _ (V.sends_data true hd') (Option.some.inj hc).symm

/-- The owner has shared the line, and the L2 has its data now. -/
theorem Sys.Coherent.sharedReply {r : Fin n} {peer u : Bool}
    (hl2 : (Phase.handoverS i r peer true u).L2 (V.ok g.latest) V.clean d g.l2)
    (hn : ∀ j, ((Phase.handoverS i r peer true u).role j).Ok (V.ok g.latest) (V.ok g.latest d) j
      (g.node j))
    (hm : Carries (V.ok g.latest) (V.ok g.latest d) i m)
    (hi : (Role.sharing r peer false).Ok (V.ok g.latest) (V.ok g.latest d) i
      ((g.node i).takeReply true m))
    (he : L2Cache.responseEvent g.l2 m = some e)
    (hc : L2Cache.doTransition { response := some m } e g.l2 = some c) :
    ((g.setNode i ((g.node i).takeReply c.popped m)).afterL2 c).Coherent V ∧
      V.Sends g.latest c.responseToDir := by
  obtain ⟨d', b', hd', hb'⟩ := hm
  have hi' := hi.mono fun _ => hd'
  have hn' := fun j => (hn j).mono fun _ => hd'
  -- the L2 is clean only if both were
  have hcl' {b : Bool} (hcl : b = false → V.clean d) (h : (b' || b) = false) : V.clean d' := by
    obtain ⟨hb₁, hb₂⟩ := Bool.or_eq_false_iff.mp h
    exact V.clean_of_ok (hb' hb₁) hd' (hcl hb₂)
  generalize g.l2 = l at hl2 he hc
  cases hl2 with
  | mtIIB hx _ b hcl =>
      obtain rfl : c = ⟨⟨some ⟨.MT_SB, {i}, some i, d', b' || b, false⟩, none⟩, fun _ => [],
          fun _ => [], [], [], true⟩ := by
        cases b' <;> cases he <;> exact (Option.some.inj hc).symm
      refine ⟨.serve (.handoverS i r peer false true) d' (.mtSB hx peer _ hd' (hcl' hcl)) ?_
        fun j hj => ?_, V.sends_nil _⟩
      · simpa [Phase.role, Node.receive_nil] using hi'
      · simpa [Phase.role, hj, Node.receive_nil] using hn' j
  | mtIB hx b hcl =>
      obtain rfl : c = ⟨⟨some ⟨.SS, insert r {i}, some i, d', b' || b, false⟩, none⟩, fun _ => [],
          fun _ => [], [], [], true⟩ := by
        cases b' <;> cases he <;> exact (Option.some.inj hc).symm
      refine ⟨.serve (.shared (insert r {i})) d' (.ss _ _ _ hd' (hcl' hcl)) ?_ fun j hj => ?_,
        V.sends_nil _⟩
      · simpa [Phase.role, Node.receive_nil] using hi'.sharer_of_sharing
      · by_cases hjr : j = r
        · subst hjr
          have hr := hn' j
          simp only [Phase.role, if_neg hj, if_true, Bool.false_eq_true, if_false] at hr
          simpa [Phase.role, Node.receive_nil] using hr.sharer_of_reader
        · simpa [Phase.role, hj, hjr, Node.receive_nil] using hn' j

/-- **A reply of an L1 keeps the system coherent.** -/
theorem Sys.Coherent.l2Response (hg : g.Coherent V) (hm : m ∈ (g.node i).responseToL2Cache)
    (he : L2Cache.responseEvent g.l2 m = some e)
    (hc : L2Cache.doTransition { response := some m } e g.l2 = some c) :
    ((g.setNode i ((g.node i).takeReply c.popped m)).afterL2 c).Coherent V ∧
      V.Sends g.latest c.responseToDir := by
  obtain ⟨φ, d, hl2, hn⟩ := hg
  rcases (hn i).replied hm with ⟨hρ, rfl, hi⟩ | ⟨hρ, hm', hi⟩ | ⟨r, peer, hρ, hm', hi⟩
  · obtain ⟨D, rfl, hD⟩ := Phase.of_invalidatee_l2 hρ
    exact sharerReply hD hl2 hn hi he hc
  · obtain rfl := Phase.of_recalled hρ
    exact ownerReply hl2 hn hm' hi he hc
  · obtain ⟨u, rfl⟩ := Phase.of_sharing hρ
    exact sharedReply hl2 hn hm' hi he hc

/-- **An unblock message keeps the system coherent.** -/
theorem Sys.Coherent.l2Unblock (hg : g.Coherent V) (hm : m ∈ (g.node i).unblockToL2Cache)
    (he : L2Cache.unblockEvent m = some e)
    (hc : L2Cache.doTransition { unblock := some m } e g.l2 = some c) :
    ((g.setNode i ((g.node i).takeUnblock c.popped m)).afterL2 c).Coherent V ∧
      c.responseToDir = [] := by
  obtain ⟨φ, d, hl2, hn⟩ := hg
  generalize g.l2 = l at hl2 hc
  rcases (hn i).unblocked hm with ⟨hρ, rfl, hi⟩ | ⟨hρ, rfl, hi⟩
  · obtain rfl := Phase.of_acquirer hρ
    cases he
    cases hl2 with
    | ssMB hr S x b hcl | mtMB hr S x b hcl =>
        obtain rfl : c = ⟨⟨some ⟨.MT, {i}, some i, d, b, false⟩, none⟩, fun _ => [], fun _ => [],
            [], [], true⟩ := (Option.some.inj hc).symm
        refine ⟨.serve (.owned i) d (.mt i b hcl) ?_ fun j hj => ?_, rfl⟩
        · simpa [Phase.role, Node.receive_nil] using hi
        · simpa [Phase.role, hj, Node.receive_nil] using hn j
  · obtain ⟨x, wb, rfl, hx⟩ := Phase.of_reader hρ
    cases he
    cases hl2 with
    | mtIIB _ _ b hcl =>
        obtain rfl : c = ⟨⟨some ⟨.MT_IB, insert i {x}, some x, d, b, false⟩, none⟩, fun _ => [],
            fun _ => [], [], [], true⟩ := (Option.some.inj hc).symm
        refine ⟨.serve (.handoverS x i false true false) d (.mtIB hx b hcl) ?_ fun j hj => ?_, rfl⟩
        · simpa [Phase.role, hx, Node.receive_nil] using hi
        · simpa [Phase.role, hj, Node.receive_nil] using hn j
    | mtSB _ _ b hd hcl =>
        obtain rfl : c = ⟨⟨some ⟨.SS, insert i {x}, some x, d, b, false⟩, none⟩, fun _ => [],
            fun _ => [], [], [], true⟩ := (Option.some.inj hc).symm
        refine ⟨.serve (.shared (insert i {x})) d (.ss _ _ b hd hcl) ?_ fun j hj => ?_, rfl⟩
        · simpa [Phase.role, Node.receive_nil] using hi.sharer_of_reader
        · by_cases hjx : j = x
          · subst hjx
            have ho := hn j
            simp only [Phase.role, if_true] at ho
            simpa [Phase.role, Node.receive_nil] using ho.sharer_of_sharing
          · simpa [Phase.role, hj, hjx, Node.receive_nil] using hn j

/-! ### The directory and replacements -/

/-- The line is given up, for a replacement or for the directory. -/
theorem Sys.Coherent.evict {inp : L2Cache.In n B} (hg : g.Coherent V)
    (he : e = .MEM_Inv ∧ g.l2.getState ∉ [.NP, .IM, .IS, .ISS] ∨
      g.l2.tbe = none ∧ ∃ x, g.l2.entry = some x ∧ e = L2Cache.replacementEvent x)
    (hc : L2Cache.doTransition inp e g.l2 = some c) :
    (g.afterL2 c).Coherent V ∧ V.Sends g.latest c.responseToDir := by
  obtain ⟨φ, d, hl2, hn⟩ := hg
  have hstay (b : Bool) (h : c = ⟨g.l2, fun _ => [], fun _ => [], [], [], b⟩) :
      (g.afterL2 c).Coherent V ∧ V.Sends g.latest c.responseToDir := by
    subst h
    refine ⟨⟨φ, d, hl2, fun j => ?_⟩, V.sends_nil _⟩
    simpa [Sys.afterL2, Node.receive_nil] using hn j
  generalize hl : g.l2 = l at hl2 hc he hstay
  cases hl2 with
  | np =>
      rcases he with ⟨-, hs⟩ | ⟨-, y, hy, -⟩
      · exact absurd (by simp [L2Cache.Line.getState]) hs
      · cases hy
  | iss | is | im =>
      rcases he with ⟨-, hs⟩ | ⟨ht, -⟩
      · exact absurd (by simp [L2Cache.Line.getState]) hs
      · cases ht
  | mI | sI | iI | mtI | mctI =>
      rcases he with ⟨rfl, -⟩ | ⟨-, y, hy, -⟩
      · exact hstay true (Option.some.inj hc).symm
      · cases hy
  | m x b hd hcl =>
      have hleave (out : List (ResponseMsg n B)) (hout : V.Sends g.latest out)
          (h : c = ⟨⟨none, some ⟨.M_I, d, b, ∅, none, ((∅ : Finset (Fin n)).card : ℤ)⟩⟩,
            fun _ => [], fun _ => [], [], out, false⟩) :
          (g.afterL2 c).Coherent V ∧ V.Sends g.latest c.responseToDir := by
        subst h
        refine ⟨⟨.idle, d, .mI d b _ _ _, fun j => ?_⟩, hout⟩
        simpa [Sys.afterL2, Node.receive_nil] using hn j
      rcases he with ⟨rfl, -⟩ | ⟨-, y, hy, rfl⟩
      · exact hleave _ (V.sends_data b hd) (Option.some.inj hc).symm
      · cases hy
        cases b
        · exact hleave _ (V.sends_ack hd (hcl rfl)) (Option.some.inj hc).symm
        · exact hleave _ (V.sends_data true hd) (Option.some.inj hc).symm
  | ss S x b hd hcl =>
      have hrecall (s : L2Cache.State) (h : c = ⟨⟨none, some ⟨s, d, b, ∅, none, S.card⟩⟩,
            toNodes S (request .INV .L2Cache), fun _ => [], [], [], false⟩)
          (hs : (Phase.recallS S).L2 (V.ok g.latest) V.clean d
            ⟨none, some ⟨s, d, b, ∅, none, S.card⟩⟩) :
          (g.afterL2 c).Coherent V ∧ V.Sends g.latest c.responseToDir := by
        subst h
        refine ⟨⟨.recallS S, d, hs, fun j => ?_⟩, V.sends_nil _⟩
        have hj := hn j
        by_cases hS : j ∈ S
        · simp only [Phase.role, if_pos hS] at hj
          simpa [Sys.afterL2, Phase.role, toNodes, hS] using hj.invalidate.2
        · simpa [Sys.afterL2, Phase.role, toNodes, hS, Node.receive_nil] using hj
      rcases he with ⟨rfl, -⟩ | ⟨-, y, hy, rfl⟩
      · exact hrecall .S_I (Option.some.inj hc).symm (.sI S b _ _ hd)
      · cases hy
        cases b
        · exact hrecall .I_I (Option.some.inj hc).symm (.iI S _ _ _ hd (hcl rfl))
        · exact hrecall .S_I (Option.some.inj hc).symm (.sI S _ _ _ hd)
  | mt x b hcl =>
      have hrecall (s : L2Cache.State) (h : c = ⟨⟨none, some ⟨s, d, b, ∅, none, 1⟩⟩,
            toNodes {x} (request .INV .L2Cache), fun _ => [], [], [], false⟩)
          (hs : (Phase.recallX x).L2 (V.ok g.latest) V.clean d
            ⟨none, some ⟨s, d, b, ∅, none, 1⟩⟩) :
          (g.afterL2 c).Coherent V ∧ V.Sends g.latest c.responseToDir := by
        subst h
        refine ⟨⟨.recallX x, d, hs, fun j => ?_⟩, V.sends_nil _⟩
        have hj := hn j
        by_cases hx : j = x
        · subst hx
          simp only [Phase.role, if_true] at hj
          simpa [Sys.afterL2, Phase.role, toNodes] using hj.forward.2.2
        · simpa [Sys.afterL2, Phase.role, toNodes, hx, Node.receive_nil] using hj
      rcases he with ⟨rfl, -⟩ | ⟨-, y, hy, rfl⟩
      · exact hrecall .MT_I (Option.some.inj hc).symm (.mtI x b _ _)
      · cases hy
        cases b
        · exact hrecall .MCT_I (Option.some.inj hc).symm (.mctI x _ _ _ (hcl rfl))
        · exact hrecall .MT_I (Option.some.inj hc).symm (.mtI x _ _ _)
  | ssMB hr S x b | mtMB hr S x b | mtMBX hx b | mtIIB hx peer b | mtIB hx b | mtSB hx peer b =>
      rcases he with ⟨rfl, -⟩ | ⟨-, y, hy, rfl⟩
      · exact hstay false (Option.some.inj hc).symm
      · cases hy
        cases b <;> exact hstay false (Option.some.inj hc).symm

/-- The data that the L2 has fetched. -/
theorem Sys.Coherent.memData (hg : g.Coherent V) (hok : V.ok g.latest m.DataBlk)
    (hcl : V.clean m.DataBlk)
    (hc : L2Cache.doTransition { response := some m } .Mem_Data g.l2 = some c) :
    (g.afterL2 c).Coherent V ∧ c.responseToDir = [] := by
  obtain ⟨φ, d, hl2, hn⟩ := hg
  have hn := fun j => (hn j).mono fun _ => hok
  generalize g.l2 = l at hl2 hc
  cases hl2 with
  | iss k x d₁ d₂ b₁ b₂ r p =>
      obtain rfl : c = ⟨⟨some ⟨.MT_MB, {k}, x, m.DataBlk, m.Dirty || b₁, false⟩, none⟩, fun _ => [],
          toNodes {k} ⟨.DATA_EXCLUSIVE, .L2Cache, m.DataBlk, false, 0⟩, [], [], true⟩ :=
        (Option.some.inj hc).symm
      refine ⟨⟨.granting k ∅, m.DataBlk, .mtMB (Finset.notMem_empty k) _ _ _ fun _ => hcl,
        fun j => ?_⟩, rfl⟩
      have hj := hn j
      by_cases h : j = k
      · subst h
        simp only [Phase.role, Finset.mem_singleton, if_true] at hj
        simpa [Sys.afterL2, Phase.role, toNodes] using hj.sendExclusive 0 hok hok
      · simp only [Phase.role, Finset.mem_singleton, if_neg h] at hj
        simpa [Sys.afterL2, Phase.role, toNodes, h, Node.receive_nil] using hj
  | is W x d₁ d₂ b₁ b₂ r p =>
      have htr : L2Cache.transition .IS .Mem_Data = some (.SS, [.m_writeDataToCache,
        .e_sendDataToGetSRequestors, .s_deallocateTBE, .o_popIncomingResponseQueue,
        .kd_wakeUpDependents]) := rfl
      by_cases hW : W.Nonempty
      · obtain rfl : c = ⟨⟨some ⟨.SS, W, x, m.DataBlk, m.Dirty || b₁, false⟩, none⟩, fun _ => [],
            toNodes W ⟨.DATA, .L2Cache, m.DataBlk, false, 0⟩, [], [], true⟩ := by
          simp [L2Cache.doTransition, L2Cache.Line.getState, htr, Lib.perform, L2Cache.exec, hW,
            L2Cache.Ctx.setEntry, L2Cache.Ctx.setTBE, L2Cache.Ctx.respond,
            L2Cache.Line.setState] at hc
          exact hc.symm
        refine ⟨⟨.shared W, m.DataBlk, .ss W _ _ hok fun _ => hcl, fun j => ?_⟩, rfl⟩
        have hj := hn j
        by_cases h : j ∈ W
        · simp only [Phase.role, if_pos h] at hj
          simpa [Sys.afterL2, Phase.role, toNodes, h] using hj.sendData hok
        · simp only [Phase.role, if_neg h] at hj
          simpa [Sys.afterL2, Phase.role, toNodes, h, Node.receive_nil] using hj
      · simp [L2Cache.doTransition, L2Cache.Line.getState, htr, Lib.perform, L2Cache.exec, hW,
          L2Cache.Ctx.setEntry] at hc
  | im k x d₁ d₂ b₁ b₂ ids p =>
      obtain rfl : c = ⟨⟨some ⟨.MT_MB, ∅, x, m.DataBlk, m.Dirty || b₁, false⟩, none⟩, fun _ => [],
          toNodes {k} ⟨.DATA, .L2Cache, m.DataBlk, false, 0⟩, [], [], true⟩ :=
        (Option.some.inj hc).symm
      refine ⟨⟨.granting k ∅, m.DataBlk, .mtMB (Finset.notMem_empty k) _ _ _ fun _ => hcl,
        fun j => ?_⟩, rfl⟩
      have hj := hn j
      by_cases h : j = k
      · subst h
        simp only [Phase.role, if_true] at hj
        simpa [Sys.afterL2, Phase.role, toNodes] using hj.grant 0 hok hok
      · simp only [Phase.role, if_neg h] at hj
        simpa [Sys.afterL2, Phase.role, toNodes, h, Node.receive_nil] using hj
  | _ => cases hc

/-- An ack of the directory, and an invalidation of a line that the L2 does not have. -/
theorem Sys.Coherent.memAck (hg : g.Coherent V) (he : e = .Mem_Ack ∨
      e = .MEM_Inv ∧ g.l2.getState ∈ [.NP, .IM, .IS, .ISS])
    (hc : L2Cache.doTransition { response := some m } e g.l2 = some c) :
    (g.afterL2 c).Coherent V ∧ (e = .Mem_Ack → c.responseToDir = []) := by
  obtain ⟨φ, d, hl2, hn⟩ := hg
  have hstay {l : L2Cache.Line n B} {out : List (ResponseMsg n B)}
      (h : c = ⟨l, fun _ => [], fun _ => [], [], out, true⟩)
      (hl : φ.L2 (V.ok g.latest) V.clean d l) : (g.afterL2 c).Coherent V := by
    subst h
    refine ⟨φ, d, hl, fun j => ?_⟩
    simpa [Sys.afterL2, Node.receive_nil] using hn j
  generalize g.l2 = l at hl2 hc he
  have hl2' := hl2
  cases hl2 with
  | np | iss | is | im =>
      rcases he with rfl | ⟨rfl, -⟩
      · exact ⟨hstay (Option.some.inj hc).symm hl2', fun _ => by cases hc; rfl⟩
      · exact ⟨hstay (Option.some.inj hc).symm hl2', by rintro ⟨⟩⟩
  | mI =>
      rcases he with rfl | ⟨-, hs⟩
      · exact ⟨hstay (Option.some.inj hc).symm .np, fun _ => by cases hc; rfl⟩
      · simp [L2Cache.Line.getState] at hs
  | _ =>
      rcases he with rfl | ⟨-, hs⟩
      · cases hc
      · simp [L2Cache.Line.getState] at hs

end

/-- **A step of the L2 keeps the system coherent**, if write-backs do not end the recall of an
owner and the data of the directory is up to date.  If moreover an invalidation finds the L2 with
the line, what goes to the directory is up to date. -/
theorem Sys.Coherent.l2Step {l : L2Label n B} {inp : L2Cache.In n B} (hg : g.Coherent V)
    (hA : recallsAlone g (.l2 l) = true)
    (hdir : ∀ m ∈ g.home.responseToL2Cache, m.Sender = .Directory ∧
      (m.type = .MEMORY_DATA → V.ok g.latest m.DataBlk ∧ V.clean m.DataBlk))
    (he : g.l2Event l = some (inp, e)) (hc : L2Cache.doTransition inp e g.l2 = some c) :
    ((g.l2Dequeue c.popped l).afterL2 c).Coherent V ∧
      (meetsLine g (.l2 l) = true → V.Sends g.latest c.responseToDir) := by
  cases l with
  | request i q =>
      simp only [Sys.l2Event, Option.ite_none_right_eq_some, Option.map_eq_some_iff] at he
      obtain ⟨hq, e, he, heq⟩ := he
      cases heq
      have hA : q.type ≠ .PUTX ∨ g.l2.getState ∉ [.MT_I, .MCT_I] := by
        simpa [recallsAlone] using hA
      obtain ⟨h, hout⟩ := hg.l2Request hq hA he hc
      exact ⟨h, fun _ => hout ▸ V.sends_nil _⟩
  | response i m =>
      simp only [Sys.l2Event, Option.ite_none_right_eq_some, Option.map_eq_some_iff] at he
      obtain ⟨hm, e, he, heq⟩ := he
      cases heq
      obtain ⟨h, hout⟩ := hg.l2Response hm he hc
      exact ⟨h, fun _ => hout⟩
  | unblock i m =>
      simp only [Sys.l2Event, Option.ite_none_right_eq_some, Option.map_eq_some_iff] at he
      obtain ⟨hm, e, he, heq⟩ := he
      cases heq
      obtain ⟨h, hout⟩ := hg.l2Unblock hm he hc
      exact ⟨h, fun _ => hout ▸ V.sends_nil _⟩
  | responseFromDir m =>
      simp only [Sys.l2Event, Option.ite_none_right_eq_some, Option.map_eq_some_iff] at he
      obtain ⟨hm, e, he, heq⟩ := he
      cases heq
      obtain ⟨hs, hdata⟩ := hdir m hm
      have hev : m.type = .MEMORY_DATA ∧ e = .Mem_Data ∨ e = .Mem_Ack ∨
          m.type = .INV ∧ e = .MEM_Inv := by
        cases ht : m.type <;> simp [L2Cache.responseEvent, hs, ht] at he <;> simp [he]
      rcases hev with ⟨ht, rfl⟩ | rfl | ⟨ht, rfl⟩
      · obtain ⟨h, hout⟩ := hg.memData (hdata ht).1 (hdata ht).2 hc
        exact ⟨h, fun _ => hout ▸ V.sends_nil _⟩
      · obtain ⟨h, hout⟩ := hg.memAck (.inl rfl) hc
        exact ⟨h, fun _ => hout rfl ▸ V.sends_nil _⟩
      · by_cases hl : g.l2.getState ∈ [.NP, .IM, .IS, .ISS]
        · refine ⟨(hg.memAck (.inr ⟨rfl, hl⟩) hc).1, fun hB => ?_⟩
          simp [meetsLine, ht] at hB
          simp_all
        · obtain ⟨h, hout⟩ := hg.evict (.inl ⟨rfl, hl⟩) hc
          exact ⟨h, fun _ => hout⟩
  | replacement =>
      simp only [Sys.l2Event, Option.ite_none_left_eq_some, Option.map_eq_some_iff] at he
      obtain ⟨ht, x, hx, heq⟩ := he
      cases heq
      obtain ⟨h, hout⟩ := hg.evict (.inr ⟨by simpa using ht, x, hx, rfl⟩) hc
      exact ⟨h, fun _ => hout⟩

end

end SttRuby.Protocol
