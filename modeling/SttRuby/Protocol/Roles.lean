import SttRuby.Protocol.Kinds

/-!
# Protocol — Roles

What a node has to do with the others while the L2 is in the middle of something: it looks on, it
shares the line or owns it, its request has been taken, it is asked to invalidate its copy, or it
gives the line to another node.  `Role.Has` says which kinds of nodes can have a role, and what
they have in flight beside their request and its answer: the question of the L2, the reply to
it, an unblock message, and a message to another L1.

A role is kept by whatever the node does on its own: what its core asks for (`Role.Ok.core`), the
answers of the L2 (`Role.Ok.answer`) and its questions (`Role.Ok.ask`).  A message between two
nodes changes the roles of both (`Role.Ok.peer` and the lemmas after it).
-/

namespace SttRuby.Protocol

inductive Role (n : ℕ) where
  | bystander
  | sharer
  /-- The L2 has taken its read request, or its write request. -/
  | readServed | writeServed
  /-- It is asked for its copy, and its ack goes to `tgt`. -/
  | invalidatee (tgt : MachineID n)
  /-- It is about to own the line, with `d` acks to come, or owns it and has not unblocked the
  L2. -/
  | acquirer (d : ℕ)
  | owner
  /-- It hands the line over to `r`. -/
  | handing (r : Fin n)
  /-- It shares the line with `r`; whether its data is not with `r` yet, and not with the L2. -/
  | sharing (r : Fin n) (peer wb : Bool)
  /-- It has got the line from its owner; whether it has not unblocked the L2 yet. -/
  | reader (u : Bool)
  /-- It is asked for the line by the L2. -/
  | recalled

section

variable {n B : ℕ}

namespace Node

/-! A message leaves a buffer of a node, if it is dequeued. -/

def takeRequest (nd : Node n B) (b : Bool) (m : RequestMsg n B) : Node n B :=
  { nd with L1RequestToL2Cache := dequeue b nd.L1RequestToL2Cache m }

def takeReply (nd : Node n B) (b : Bool) (m : ResponseMsg n B) : Node n B :=
  { nd with responseToL2Cache := dequeue b nd.responseToL2Cache m }

def takeUnblock (nd : Node n B) (b : Bool) (m : ResponseMsg n B) : Node n B :=
  { nd with unblockToL2Cache := dequeue b nd.unblockToL2Cache m }

def takeAsked (nd : Node n B) (b : Bool) (m : RequestMsg n B) : Node n B :=
  { nd with requestToL1Cache := dequeue b nd.requestToL1Cache m }

def takeResponse (nd : Node n B) (b : Bool) (m : ResponseMsg n B) : Node n B :=
  { nd with responseToL1Cache := dequeue b nd.responseToL1Cache m }

def takePeer (nd : Node n B) (b : Bool) (x : Fin n × ResponseMsg n B) : Node n B :=
  { nd with responseBetweenL1s := dequeue b nd.responseBetweenL1s x }

variable {l : L1Cache.Line B} {sent asked : Option (RequestMsg n B)}
  {due reply unblock : Option (ResponseMsg n B)} {peer : Option (Fin n × ResponseMsg n B)}
  {q : RequestMsg n B} {m : ResponseMsg n B} {x : Fin n × ResponseMsg n B}

@[simp] theorem takeRequest_of : (Node.of l (some q) due asked reply unblock peer).takeRequest
    true q = .of l none due asked reply unblock peer := by
  simp [Node.of, takeRequest, dequeue]

@[simp] theorem takeReply_of : (Node.of l sent due asked (some m) unblock peer).takeReply
    true m = .of l sent due asked none unblock peer := by
  simp [Node.of, takeReply, dequeue]

@[simp] theorem takeUnblock_of : (Node.of l sent due asked reply (some m) peer).takeUnblock
    true m = .of l sent due asked reply none peer := by
  simp [Node.of, takeUnblock, dequeue]

@[simp] theorem takeAsked_of : (Node.of l sent due (some q) reply unblock peer).takeAsked
    true q = .of l sent due none reply unblock peer := by
  simp [Node.of, takeAsked, dequeue]

@[simp] theorem takeResponse_of : (Node.of l sent (some m) asked reply unblock peer).takeResponse
    true m = .of l sent none asked reply unblock peer := by
  simp [Node.of, takeResponse, dequeue]

@[simp] theorem takePeer_of : (Node.of l sent due asked reply unblock (some x)).takePeer
    true x = .of l sent due asked reply unblock none := by
  simp [Node.of, takePeer, dequeue]

variable {c : L1Cache.Ctx n B}

/-- A node whose L1 has sent at most a request. -/
theorem afterL1_request {sent' : Option (RequestMsg n B)}
    (hq : sent.toList ++ c.requestFromL1Cache = sent'.toList) (hr : c.responseFromL1Cache = [])
    (hu : c.unblockFromL1Cache = []) : (Node.of l sent due asked reply unblock peer).afterL1 c =
      .of c.line sent' due asked reply unblock peer := by
  simp [afterL1, Node.of, hq, hr, hu]

/-- A node whose L1 has sent nothing. -/
theorem afterL1_quiet (hq : c.requestFromL1Cache = []) (hr : c.responseFromL1Cache = [])
    (hu : c.unblockFromL1Cache = []) : (Node.of l sent due asked reply unblock peer).afterL1 c =
      .of c.line sent due asked reply unblock peer := by
  simp [afterL1, Node.of, hq, hr, hu]

/-- A node whose L1 has unblocked the L2. -/
theorem afterL1_unblock (hq : c.requestFromL1Cache = []) (hr : c.responseFromL1Cache = [])
    (hu : c.unblockFromL1Cache = [m]) : (Node.of l sent due asked reply none peer).afterL1 c =
      .of c.line sent due asked reply (some m) peer := by
  simp [afterL1, Node.of, hq, hr, hu]

/-- A node whose L1 has answered the L2. -/
theorem afterL1_reply (hq : c.requestFromL1Cache = [])
    (hr : c.responseFromL1Cache = [(.L2Cache, m)]) (hu : c.unblockFromL1Cache = []) :
    (Node.of l sent due asked none unblock peer).afterL1 c =
      .of c.line sent due asked (some m) unblock peer := by
  simp [afterL1, Node.of, hq, hr, hu, MachineID.l1Cache]

/-- A node whose L1 has answered another. -/
theorem afterL1_peer {r : Fin n} (hq : c.requestFromL1Cache = [])
    (hr : c.responseFromL1Cache = [(.L1Cache r, m)]) (hu : c.unblockFromL1Cache = []) :
    (Node.of l sent due asked reply unblock none).afterL1 c =
      .of c.line sent due asked reply unblock (some (r, m)) := by
  simp [afterL1, Node.of, hq, hr, hu, MachineID.l1Cache]

/-- A node whose L1 has answered another and the L2. -/
theorem afterL1_share {r : Fin n} (hq : c.requestFromL1Cache = [])
    (hr : c.responseFromL1Cache = [(.L1Cache r, m), (.L2Cache, m)])
    (hu : c.unblockFromL1Cache = []) : (Node.of l sent due asked none unblock none).afterL1 c =
      .of c.line sent due asked (some m) unblock (some (r, m)) := by
  simp [afterL1, Node.of, hq, hr, hu, MachineID.l1Cache]

end Node

/-- The kinds of a role, and what is in flight. -/
inductive Role.Has (ok : DataBlock B → Prop) (cur : Prop) (i : Fin n) : Role n → (Kind → Bool) →
    Option (RequestMsg n B) → Option (ResponseMsg n B) → Option (ResponseMsg n B) →
    Option (Fin n × ResponseMsg n B) → Prop where
  | bystander : Has ok cur i .bystander Kind.outside none none none none
  | sharer : Has ok cur i .sharer Kind.sharing none none none none
  | readServed : Has ok cur i .readServed (· == .readServed) none none none none
  | writeServed : Has ok cur i .writeServed (· == .writeServed) none none none none
  | invPending (r : Fin n) : Has ok cur i (.invalidatee (.L1Cache r)) Kind.sharing
      (some (request .INV (.L1Cache r))) none none none
  | invPendingL2 : Has ok cur i (.invalidatee .L2Cache) Kind.sharing
      (some (request .INV .L2Cache)) none none none
  | invAcked (r : Fin n) :
      Has ok cur i (.invalidatee (.L1Cache r)) Kind.outside none none none (some (r, invAck i))
  | invAckedL2 : Has ok cur i (.invalidatee .L2Cache) Kind.outside none (some (invAck i)) none none
  | acquiring (d : ℕ) : Has ok cur i (.acquirer d) (Kind.acquiring d) none none none none
  | acquired : Has ok cur i (.acquirer 0) Kind.owning none none
      (some (response .EXCLUSIVE_UNBLOCK (.L1Cache i))) none
  | owner : Has ok cur i .owner Kind.owning none none none none
  | handPending (r : Fin n) {ty : CoherenceRequestType} (ht : ty = .GETX ∨ ty = .UPGRADE) :
      Has ok cur i (.handing r) Kind.owning (some (request ty (.L1Cache r))) none none none
  | handed (r : Fin n) {m : ResponseMsg n B} (hm : Carries ok cur i m) :
      Has ok cur i (.handing r) Kind.outside none none none (some (r, m))
  | sharePending (r : Fin n) {ty : CoherenceRequestType} (ht : ty = .GETS ∨ ty = .GET_INSTR) :
      Has ok cur i (.sharing r true true) Kind.owning (some (request ty (.L1Cache r))) none none
        none
  | shared (r : Fin n) (peer wb : Bool) {m : ResponseMsg n B} (hm : Carries ok cur i m) :
      Has ok cur i (.sharing r peer wb) Kind.sharing none (if wb then some m else none) none
        (if peer then some (r, m) else none)
  | reader (u : Bool) : Has ok cur i (.reader u) Kind.sharing none none
      (if u then some (response .UNBLOCK (.L1Cache i)) else none) none
  | recallPending :
      Has ok cur i .recalled Kind.owning (some (request .INV .L2Cache)) none none none
  | recallAcked (hc : cur) : Has ok cur i .recalled Kind.outside none (some (invAck i)) none none
  | recallData {m : ResponseMsg n B} (hm : Carries ok cur i m) :
      Has ok cur i .recalled Kind.outside none (some m) none none

/-- A node in a role. -/
inductive Role.Ok (ok : DataBlock B → Prop) (cur : Prop) (i : Fin n) (ρ : Role n) :
    Node n B → Prop where
  | mk {P : Kind → Bool} {k : Kind} {l : L1Cache.Line B} {sent : Option (RequestMsg n B)}
      {due : Option (ResponseMsg n B)} {asked : Option (RequestMsg n B)}
      {reply unblock : Option (ResponseMsg n B)} {peer : Option (Fin n × ResponseMsg n B)}
      (hP : ρ.Has ok cur i P asked reply unblock peer) (hk : P k = true)
      (h : k.Is ok cur i l sent due) : Ok ok cur i ρ (.of l sent due asked reply unblock peer)

/-- The roles in which a node may own the line, and store to it. -/
def Role.writer : Role n → Bool
  | .acquirer d => d = 0
  | .owner | .handing _ | .recalled => true
  | .sharing _ peer wb => peer && wb
  | _ => false

/-- The roles of which nothing is said about values. -/
def Role.free : Role n → Bool
  | .bystander | .readServed | .writeServed => true
  | _ => false

/-! ### Kinds of a role -/

section

variable {ok ok' : DataBlock B → Prop} {cur cur' : Prop} {i : Fin n} {ρ : Role n} {P : Kind → Bool}
  {asked : Option (RequestMsg n B)} {reply unblock : Option (ResponseMsg n B)}
  {peer : Option (Fin n × ResponseMsg n B)} {k k' : Kind} {nd : Node n B}

theorem Role.Has.mono (h : ρ.Has ok cur i P asked reply unblock peer) (hc : cur → cur') :
    ρ.Has ok cur' i P asked reply unblock peer := by
  cases h with
  | handed r hm => exact .handed r (hm.mono hc)
  | shared r peer wb hm => exact .shared r peer wb (hm.mono hc)
  | recallAcked h => exact .recallAcked (hc h)
  | recallData hm => exact .recallData (hm.mono hc)
  | _ => constructor <;> assumption

theorem Role.Ok.mono (h : ρ.Ok ok cur i nd) (hc : cur → cur') : ρ.Ok ok cur' i nd := by
  obtain ⟨hP, hk, h⟩ := h
  exact ⟨hP.mono hc, hk, h.mono hc⟩

/-- While a node owns the line, the values are its own. -/
theorem Role.Has.of_owned (h : ρ.Has ok cur i P asked reply unblock peer)
    (hk : P .owned = true) : ρ.writer = true ∧
      ∀ (ok' : DataBlock B → Prop) (cur' : Prop), ρ.Has ok' cur' i P asked reply unblock peer := by
  cases h with
  | acquired | owner | handPending | sharePending | recallPending =>
      refine ⟨rfl, fun _ _ => ?_⟩
      constructor <;> assumption
  | _ => cases hk

theorem Role.Ok.of_free (h : ρ.Ok ok cur i nd) (hf : ρ.free = true) : ρ.Ok ok' cur' i nd := by
  obtain ⟨hP, hk, h⟩ := h
  cases hP with
  | bystander => exact ⟨.bystander, hk, h.of_outside hk⟩
  | readServed =>
      cases h with
      | readServed hs entry t hl => exact ⟨.readServed, hk, .readServed hs entry t hl⟩
      | _ => cases hk
  | writeServed =>
      cases h with
      | writeServed entry t => exact ⟨.writeServed, hk, .writeServed entry t⟩
      | _ => cases hk
  | _ => cases hf

/-- The core stays within a role. -/
theorem Role.Has.next (h : ρ.Has ok cur i P asked reply unblock peer) (hk : P k = true)
    (hk' : k' ∈ k.next) : P k' = true := by
  cases k <;> simp only [Kind.next, List.mem_cons, List.not_mem_nil, or_false] at hk' <;>
    first
    | (subst hk'; exact hk)
    | (rcases hk' with rfl | rfl | rfl <;> cases h <;> first | rfl | cases hk)

/-- An answer of the L2 stays within a role, if it does not make the node the owner. -/
theorem Role.Has.filled (h : ρ.Has ok cur i P asked reply unblock peer) (hk : P k = true)
    (hne : k.filled ≠ .owned) : P k.filled = true := by
  cases h with
  | acquiring d =>
      cases k with
      | granted d' | upgraded d' =>
          cases d' with
          | zero => exact absurd rfl hne
          | succ d' => exact hk
      | grantedE => exact absurd rfl hne
      | collecting d' => exact hk
      | _ => cases hk
  | _ => cases k <;> first | exact hk | rfl | cases hk

/-- The answer that makes a node the owner. -/
theorem Role.Has.filled_owned (h : ρ.Has ok cur i P asked reply unblock peer) (hk : P k = true)
    (heq : k.filled = .owned) (hne : k ≠ .owned) :
    ρ = .acquirer 0 ∧ asked = none ∧ reply = none ∧ unblock = none ∧ peer = none := by
  cases h with
  | acquiring d =>
      refine ⟨?_, rfl, rfl, rfl, rfl⟩
      cases k with
      | granted d' | upgraded d' =>
          cases d' with
          | zero => rw [← of_decide_eq_true hk]
          | succ d' => cases heq
      | grantedE => rw [of_decide_eq_true hk]
      | collecting d' => cases heq
      | _ => cases hk
  | _ =>
      exfalso
      cases k <;> first | exact hne rfl | (cases hk <;> cases heq)

end

/-! ### What a node does on its own -/

section

variable {ok : DataBlock B → DataBlock B → Prop} {cur : Prop} {i : Fin n} {ρ : Role n}
  {nd : Node n B} {v : DataBlock B} {w : DataBlock B → DataBlock B} {e : L1Cache.Event}
  {c : L1Cache.Ctx n B}

/-- **The core.**  Whatever the core asks for, a replacement and the timer leave a node in its
role. -/
theorem Role.Ok.core (hok : ∀ (w : DataBlock B → DataBlock B) v d, ok v d → ok (w v) (w d))
    (h : ρ.Ok (ok v) cur i nd) (he : e ∈ coreEvents)
    (hc : L1Cache.doTransition i { store := w } e nd.line = some c) :
    (c.stores = [] ∨ ρ.writer = true) ∧ ∀ cur' : Prop, (c.stores = [] → cur → cur') →
      ρ.Ok (ok (c.stores.foldl (fun d w => w d) v)) cur' i (nd.afterL1 c) := by
  obtain ⟨hP, hk, h⟩ := h
  obtain ⟨k', hk', sent', hq, hr, hu, hst, hkind⟩ := h.core hok he hc
  rw [Node.afterL1_request hq hr hu]
  rcases hst with hst | rfl
  · refine ⟨.inl hst, fun cur' hcur => ?_⟩
    have hkind := hkind cur' hcur
    rw [hst] at hkind ⊢
    exact ⟨hP.mono (hcur hst), hP.next hk hk', hkind⟩
  · obtain ⟨hw, hP'⟩ := hP.of_owned hk
    exact ⟨.inr hw, fun cur' hcur => ⟨hP' _ _, hP.next hk hk', hkind cur' hcur⟩⟩

/-- **The answer of the L2** leaves a node in its role. -/
theorem Role.Ok.answer (hok : ∀ (w : DataBlock B → DataBlock B) v d, ok v d → ok (w v) (w d))
    {m : ResponseMsg n B} (h : ρ.Ok (ok v) cur i nd) (hm : m ∈ nd.responseToL1Cache)
    (he : L1Cache.responseEvent nd.line m = some e)
    (hc : L1Cache.doTransition i { response := some m, store := w } e nd.line = some c) :
    (c.stores = [] ∨ ρ.writer = true) ∧ ∀ cur' : Prop, (c.stores = [] → cur → cur') →
      ρ.Ok (ok (c.stores.foldl (fun d w => w d) v)) cur' i
        ((nd.takeResponse c.popped m).afterL1 c) := by
  obtain ⟨hP, hk, h⟩ := h
  rename_i P k l sent due asked reply unblock peer
  obtain rfl : due = some m := Option.mem_toList.mp hm
  have hne : k ≠ .owned := by
    rintro rfl
    cases h
  obtain ⟨rfl, hpop, hq, hr, hu, hst, hkind⟩ := h.answered hok he hc
  rw [hpop, Node.takeResponse_of]
  by_cases hown : k.filled = .owned
  · -- the node owns the line now and says so
    obtain ⟨rfl, rfl, rfl, rfl, rfl⟩ := hP.filled_owned hk hown hne
    refine ⟨.inr rfl, fun cur' hcur => ?_⟩
    have hkind := hkind cur' hcur
    rw [hown] at hkind
    rw [if_pos hown] at hu
    rw [Node.afterL1_unblock hq hr hu]
    exact ⟨.acquired, rfl, hkind⟩
  · rw [if_neg hown] at hu
    have hst := hst.resolve_right hown
    refine ⟨.inl hst, fun cur' hcur => ?_⟩
    have hkind := hkind cur' hcur
    rw [Node.afterL1_quiet hq hr hu]
    rw [hst] at hkind ⊢
    exact ⟨hP.mono (hcur hst), hP.filled hk hown, hkind⟩

end

section

variable {ok : DataBlock B → Prop} {cur : Prop} {i j : Fin n} {ρ : Role n} {nd : Node n B}
  {w : DataBlock B → DataBlock B} {e : L1Cache.Event} {c : L1Cache.Ctx n B}

/-- A question of the L2 that has to wait. -/
theorem Role.Ok.wait (h : ρ.Ok ok cur i nd) {m : RequestMsg n B} (hc : c = { line := nd.line }) :
    ρ.Ok ok cur i ((nd.takeAsked c.popped m).afterL1 c) := by
  subst hc
  simpa [Node.takeAsked, dequeue, Node.afterL1] using h

/-- **The question of the L2** leaves a node in its role.  An exclusive line is acknowledged
without its data, so it must not be dirty. -/
theorem Role.Ok.ask {m : RequestMsg n B} (h : ρ.Ok ok cur i nd) (hm : m ∈ nd.requestToL1Cache)
    (hE : ∀ x : L1Cache.Entry B, nd.line = .stable .E x → x.Dirty = true → m.type = .INV → cur)
    (he : L1Cache.requestEvent m = some e)
    (hc : L1Cache.doTransition i { request := some m } e nd.line = some c) :
    c.stores = [] ∧ ρ.Ok ok cur i ((nd.takeAsked c.popped m).afterL1 c) := by
  have hwait := fun hc => h.wait (c := c) (m := m) hc
  obtain ⟨hP, hk, h⟩ := h
  rename_i P k l sent due asked reply unblock peer
  obtain rfl : asked = some m := Option.mem_toList.mp hm
  cases hP with
  | invPending r =>
      cases he
      obtain ⟨hpop, hq, hr, hu, hst, hkind⟩ := h.invalidate hk hc
      rw [hpop, Node.takeAsked_of, Node.afterL1_peer hq hr hu]
      refine ⟨hst, .invAcked r, ?_, hkind⟩
      cases k <;> first | rfl | cases hk
  | invPendingL2 =>
      cases he
      obtain ⟨hpop, hq, hr, hu, hst, hkind⟩ := h.invalidate hk hc
      rw [hpop, Node.takeAsked_of, Node.afterL1_reply hq hr hu]
      refine ⟨hst, .invAckedL2, ?_, hkind⟩
      cases k <;> first | rfl | cases hk
  | @handPending r ty ht =>
      obtain rfl : L1Cache.Event.Fwd_GETX = e := by
        rcases ht with rfl | rfl <;> exact Option.some.inj he
      rcases h.handOver hk hc with hw | ⟨hpop, hq, hu, hst, ⟨k', hk', hkind⟩, r', hr', hr⟩
      · exact ⟨by rw [hw], hwait hw⟩
      · rw [hpop, Node.takeAsked_of, Node.afterL1_peer hq hr hu]
        exact ⟨hst, .handed r hr', hk', hkind⟩
  | @sharePending r ty ht =>
      have he' : e = .Fwd_GETS ∨ e = .Fwd_GET_INSTR := by
        rcases ht with rfl | rfl
        · exact .inl (Option.some.inj he).symm
        · exact .inr (Option.some.inj he).symm
      rcases h.share hk he' hc with hw | ⟨hpop, hq, hu, hst, ⟨k', hk', hkind⟩, r', hr', hr⟩
      · exact ⟨by rw [hw], hwait hw⟩
      · rw [hpop, Node.takeAsked_of, Node.afterL1_share hq hr hu]
        exact ⟨hst, .shared r true true hr', hk', hkind⟩
  | recallPending =>
      cases he
      rcases h.recall hk (fun x hx hd => hE x hx hd rfl) hc with
        hw | ⟨hpop, hq, hu, hst, ⟨k', hk', hkind⟩, ⟨hr, hcur⟩ | ⟨r', hr', hr⟩⟩
      · exact ⟨by rw [hw], hwait hw⟩
      · rw [hpop, Node.takeAsked_of, Node.afterL1_reply hq hr hu]
        exact ⟨hst, .recallAcked hcur, hk', hkind⟩
      · rw [hpop, Node.takeAsked_of, Node.afterL1_reply hq hr hu]
        exact ⟨hst, .recallData hr', hk', hkind⟩

/-! ### Messages between two nodes -/

/-- What a node has sent to another, and the role it is left in. -/
theorem Role.Ok.sent {m : ResponseMsg n B} (h : ρ.Ok ok cur j nd)
    (hm : (i, m) ∈ nd.responseBetweenL1s) :
    ρ = .invalidatee (.L1Cache i) ∧ m = invAck j ∧
        Role.bystander.Ok ok cur j (nd.takePeer true (i, m)) ∨
      Carries ok cur j m ∧ (ρ = .handing i ∧ Role.bystander.Ok ok cur j (nd.takePeer true (i, m)) ∨
        ∃ wb, ρ = .sharing i true wb ∧
          (Role.sharing i false wb).Ok ok cur j (nd.takePeer true (i, m))) := by
  obtain ⟨hP, hk, h⟩ := h
  rename_i P k l sent due asked reply unblock peer
  obtain rfl : peer = some (i, m) := Option.mem_toList.mp hm
  rw [Node.takePeer_of]
  generalize hx : some (i, m) = x at hP
  cases hP with
  | invAcked r =>
      cases hx
      exact .inl ⟨rfl, rfl, .bystander, hk, h⟩
  | handed r hd =>
      cases hx
      exact .inr ⟨hd, .inl ⟨rfl, .bystander, hk, h⟩⟩
  | shared r peer wb hd =>
      cases peer <;> cases hx
      exact .inr ⟨hd, .inr ⟨wb, rfl, .shared i false wb hd, hk, h⟩⟩
  | _ => cases hx

end

section

variable {ok : DataBlock B → DataBlock B → Prop} {cur : Prop} {i j : Fin n}
  {nd : Node n B} {v : DataBlock B} {w : DataBlock B → DataBlock B} {e : L1Cache.Event}
  {c : L1Cache.Ctx n B}

/-- The last ack makes a node the owner. -/
theorem Kind.acked_owned {k : Kind} {d : ℕ} (hk : k.acquiring (d + 1) = true)
    (h : k.acked = .owned) : d = 0 := by
  cases k with
  | collecting d' =>
      obtain rfl : d' = d + 1 := of_decide_eq_true hk
      by_contra hd
      simp [Kind.acked, hd] at h
  | granted | upgraded | grantedE => cases h
  | _ => cases hk

theorem Kind.acquiring_acked {k : Kind} {d : ℕ} (hk : k.acquiring (d + 1) = true)
    (h : k.acked ≠ .owned) : k.acked.acquiring d = true := by
  cases k with
  | granted d' | upgraded d' =>
      obtain rfl : d' = d + 1 := of_decide_eq_true hk
      exact decide_eq_true rfl
  | collecting d' =>
      obtain rfl : d' = d + 1 := of_decide_eq_true hk
      by_cases hd : d = 0
      · simp [Kind.acked, hd] at h
      · simp [Kind.acked, Kind.acquiring, hd]
  | grantedE => simp [Kind.acquiring] at hk
  | _ => cases hk

/-- An ack reaches a node that collects them. -/
theorem Role.Ok.ack (hok : ∀ (w : DataBlock B → DataBlock B) v d, ok v d → ok (w v) (w d)) {d : ℕ}
    (h : (Role.acquirer (d + 1)).Ok (ok v) cur i nd)
    (he : L1Cache.responseEvent nd.line (invAck j : ResponseMsg n B) = some e)
    (hc : L1Cache.doTransition i { response := some (invAck j), store := w } e nd.line = some c) :
    c.popped = true ∧ (c.stores = [] ∨ d = 0) ∧ ∀ cur' : Prop, (c.stores = [] → cur → cur') →
      (Role.acquirer d).Ok (ok (c.stores.foldl (fun d w => w d) v)) cur' i (nd.afterL1 c) := by
  obtain ⟨hP, hk, h⟩ := h
  rename_i P k l sent due asked reply unblock peer
  cases hP with
  | acquiring =>
  obtain ⟨hpop, hq, hr, hu, hst, hkind⟩ := h.ack hok hk he hc
  refine ⟨hpop, ?_⟩
  by_cases hown : k.acked = .owned
  · obtain rfl := Kind.acked_owned hk hown
    refine ⟨.inr rfl, fun cur' hcur => ?_⟩
    have hkind := hkind cur' hcur
    rw [hown] at hkind
    rw [if_pos hown] at hu
    rw [Node.afterL1_unblock hq hr hu]
    exact ⟨.acquired, rfl, hkind⟩
  · rw [if_neg hown] at hu
    have hst := hst.resolve_right hown
    refine ⟨.inl hst, fun cur' hcur => ?_⟩
    rw [Node.afterL1_quiet hq hr hu]
    exact ⟨.acquiring d, Kind.acquiring_acked hk hown, hkind cur' hcur⟩

/-- The data of the owner reaches a node that writes. -/
theorem Role.Ok.take (hok : ∀ (w : DataBlock B → DataBlock B) v d, ok v d → ok (w v) (w d))
    {m : ResponseMsg n B} (h : Role.writeServed.Ok (ok v) cur i nd) (hm : Carries (ok v) cur j m)
    (he : L1Cache.responseEvent nd.line m = some e)
    (hc : L1Cache.doTransition i { response := some m, store := w } e nd.line = some c) :
    c.popped = true ∧ ∀ cur' : Prop, (c.stores = [] → cur → cur') →
      (Role.acquirer 0).Ok (ok (c.stores.foldl (fun d w => w d) v)) cur' i (nd.afterL1 c) := by
  obtain ⟨hP, hk, h⟩ := h
  rename_i P k l sent due asked reply unblock peer
  cases hP with
  | writeServed =>
  obtain rfl : k = .writeServed := by simpa using hk
  obtain ⟨hpop, hq, hr, hu, hkind⟩ := h.take hok hm he hc
  refine ⟨hpop, fun cur' hcur => ?_⟩
  rw [Node.afterL1_unblock hq hr hu]
  exact ⟨.acquired, rfl, hkind cur' hcur⟩

end

/-- The data of the owner reaches a node that reads. -/
theorem Role.Ok.read {ok : DataBlock B → Prop} {cur : Prop} {i j : Fin n} {nd : Node n B}
    {w : DataBlock B → DataBlock B} {e : L1Cache.Event} {c : L1Cache.Ctx n B}
    {m : ResponseMsg n B} (h : Role.readServed.Ok ok cur i nd) (hm : Carries ok cur j m)
    (he : L1Cache.responseEvent nd.line m = some e)
    (hc : L1Cache.doTransition i { response := some m, store := w } e nd.line = some c) :
    c.popped = true ∧ c.stores = [] ∧ (Role.reader true).Ok ok cur i (nd.afterL1 c) := by
  obtain ⟨hP, hk, h⟩ := h
  rename_i P k l sent due asked reply unblock peer
  cases hP with
  | readServed =>
  obtain rfl : k = .readServed := by simpa using hk
  obtain ⟨hpop, hq, hr, hu, hst, k', hk', hkind⟩ := h.read hm he hc
  refine ⟨hpop, hst, ?_⟩
  rw [Node.afterL1_unblock hq hr hu]
  exact ⟨.reader true, hk', hkind⟩

/-! ### What the L2 does -/

namespace Node

theorem receive_nil (nd : Node n B) : nd.receive [] [] = nd := by
  simp [receive]

variable {l : L1Cache.Line B} {sent asked : Option (RequestMsg n B)}
  {due reply unblock : Option (ResponseMsg n B)} {peer : Option (Fin n × ResponseMsg n B)}

@[simp] theorem receive_request (q : RequestMsg n B) :
    (Node.of l sent due none reply unblock peer).receive [q] [] =
      .of l sent due (some q) reply unblock peer := by
  simp [Node.of, receive]

@[simp] theorem receive_response (m : ResponseMsg n B) :
    (Node.of l sent none asked reply unblock peer).receive [] [m] =
      .of l sent (some m) asked reply unblock peer := by
  simp [Node.of, receive]

end Node

namespace Role.Ok

variable {ok : DataBlock B → Prop} {cur : Prop} {i : Fin n} {ρ : Role n} {nd : Node n B}

/-- What a node asks the L2 for. -/
theorem requested {q : RequestMsg n B} (h : ρ.Ok ok cur i nd) (hq : q ∈ nd.L1RequestToL2Cache) :
    q.Requestor = .L1Cache i ∧ q.type ∈ [CoherenceRequestType.GETS, .GET_INSTR, .GETX, .UPGRADE,
      .PUTX] := by
  obtain ⟨hP, hk, h⟩ := h
  rename_i P k l sent due asked reply unblock peer
  obtain rfl : sent = some q := Option.mem_toList.mp hq
  cases h with
  | reading hs ht =>
      refine ⟨rfl, ?_⟩
      rcases ht with rfl | rfl <;> simp [request]
  | _ => exact ⟨rfl, by simp [request]⟩

/-- The L2 takes a read request. -/
theorem serveRead {q : RequestMsg n B} (h : ρ.Ok ok cur i nd) (hρ : ρ = .bystander ∨ ρ = .sharer)
    (hq : q ∈ nd.L1RequestToL2Cache) (ht : q.type = .GETS ∨ q.type = .GET_INSTR) :
    Role.readServed.Ok ok cur i (nd.takeRequest true q) := by
  obtain ⟨hP, hk, h⟩ := h
  rename_i P k l sent due asked reply unblock peer
  obtain rfl : sent = some q := Option.mem_toList.mp hq
  cases h with
  | reading hs _ entry t hl =>
      rw [Node.takeRequest_of]
      rcases hρ with rfl | rfl <;> cases hP <;> exact ⟨.readServed, rfl, .readServed hs entry t hl⟩
  | writing | lostUpgrade | sinkPut | upgrading | putting => simp [request] at ht

/-- The L2 takes a write request, or an upgrade of a node that has lost its copy. -/
theorem serveWrite {q : RequestMsg n B} (h : ρ.Ok ok cur i nd)
    (hρ : ρ = .bystander ∨ ρ = .sharer ∧ q.type = .GETX)
    (hq : q ∈ nd.L1RequestToL2Cache) (ht : q.type = .GETX ∨ q.type = .UPGRADE) :
    Role.writeServed.Ok ok cur i (nd.takeRequest true q) := by
  obtain ⟨hP, hk, h⟩ := h
  rename_i P k l sent due asked reply unblock peer
  obtain rfl : sent = some q := Option.mem_toList.mp hq
  rw [Node.takeRequest_of]
  cases h with
  | writing entry t | lostUpgrade entry t =>
      rcases hρ with rfl | ⟨rfl, -⟩ <;> cases hP <;> exact ⟨.writeServed, rfl, .writeServed entry t⟩
  | upgrading =>
      rcases hρ with rfl | ⟨rfl, ht'⟩
      · cases hP; cases hk
      · cases ht'
  | reading _ ht' => rcases ht' with rfl | rfl <;> simp [request] at ht
  | sinkPut | putting => simp at ht

/-- The L2 grants an upgrade, and says how many acks are to come. -/
theorem upgrade {q : RequestMsg n B} (h : Role.sharer.Ok ok cur i nd)
    (hq : q ∈ nd.L1RequestToL2Cache) (ht : q.type = .UPGRADE) (hc : cur) (d : ℕ) :
    (Role.acquirer d).Ok ok cur i ((nd.takeRequest true q).receive []
      [{ type := .ACK, Sender := .L2Cache, AckCount := -d }]) := by
  obtain ⟨hP, hk, h⟩ := h
  rename_i P k l sent due asked reply unblock peer
  obtain rfl : sent = some q := Option.mem_toList.mp hq
  cases hP with
  | sharer =>
  cases h with
  | upgrading e he t =>
      rw [Node.takeRequest_of, Node.receive_response]
      have hu := Kind.Is.upgraded (i := i) (le_refl d) e he t hc
      rw [Int.sub_self] at hu
      exact ⟨.acquiring d, by simp [Kind.acquiring], hu⟩
  | lostUpgrade => cases hk
  | reading _ ht' => rcases ht' with rfl | rfl <;> cases ht
  | writing | sinkPut | putting => cases ht

/-- A write-back of a node that does not own the line is acknowledged. -/
theorem putOld {q : RequestMsg n B} (h : ρ.Ok ok cur i nd) (hρ : ρ.writer = false)
    (hq : q ∈ nd.L1RequestToL2Cache) (ht : q.type = .PUTX) :
    ρ.Ok ok cur i ((nd.takeRequest true q).receive [] [response .WB_ACK .L2Cache]) := by
  obtain ⟨hP, hk, h⟩ := h
  rename_i P k l sent due asked reply unblock peer
  obtain rfl : sent = some q := Option.mem_toList.mp hq
  cases h with
  | sinkPut p entry t d b =>
      rw [Node.takeRequest_of, Node.receive_response]
      refine ⟨hP, ?_, .sinkDone p entry t⟩
      cases hP <;> first | rfl | cases hk
  | putting =>
      exfalso
      cases hP <;> first | (cases hk; done) | cases hρ
  | reading _ ht' => rcases ht' with rfl | rfl <;> cases ht
  | writing | lostUpgrade | upgrading => cases ht

/-- The write-back of the owner. -/
theorem put {q : RequestMsg n B} (h : Role.owner.Ok ok cur i nd) (hq : q ∈ nd.L1RequestToL2Cache) :
    q.type = .PUTX ∧ ok q.DataBlk ∧ (q.Dirty = false → cur) ∧
      Role.bystander.Ok ok cur i
        ((nd.takeRequest true q).receive [] [response .WB_ACK .L2Cache]) := by
  obtain ⟨hP, hk, h⟩ := h
  rename_i P k l sent due asked reply unblock peer
  obtain rfl : sent = some q := Option.mem_toList.mp hq
  cases hP with
  | owner =>
  cases h with
  | putting p entry t ht hc =>
      rw [Node.takeRequest_of, Node.receive_response]
      exact ⟨rfl, ht, hc, .bystander, rfl, .putDone p entry t⟩
  | _ => cases hk

/-- Shared data is sent to a node. -/
theorem sendData (h : Role.readServed.Ok ok cur i nd) {d : DataBlock B} (hd : ok d) :
    Role.sharer.Ok ok cur i
      (nd.receive [] [{ type := .DATA, Sender := .L2Cache, DataBlk := d }]) := by
  obtain ⟨hP, hk, h⟩ := h
  cases hP with
  | readServed =>
  cases h with
  | @readServed s hs entry t hl =>
      rw [Node.receive_response]
      cases s <;> cases hs
      · exact ⟨.sharer, rfl, .filling entry t hl d hd⟩
      · exact ⟨.sharer, rfl, .readOnce entry t hl d⟩
  | _ => cases hk

/-- Exclusive data is sent to a node. -/
theorem sendExclusive (h : Role.readServed.Ok ok cur i nd) {d : DataBlock B} (k : ℤ) (hd : ok d)
    (hc : cur) : (Role.acquirer 0).Ok ok cur i (nd.receive []
      [{ type := .DATA_EXCLUSIVE, Sender := .L2Cache, DataBlk := d, AckCount := k }]) := by
  obtain ⟨hP, hk, h⟩ := h
  cases hP with
  | readServed =>
  cases h with
  | readServed hs entry t hl =>
      rw [Node.receive_response]
      exact ⟨.acquiring 0, rfl, .grantedE hs entry t d k hd hc⟩
  | _ => cases hk

/-- Data to write is sent to a node, with the number of acks to come. -/
theorem grant (h : Role.writeServed.Ok ok cur i nd) {d : DataBlock B} (k : ℕ) (hd : ok d)
    (hc : cur) : (Role.acquirer k).Ok ok cur i (nd.receive []
      [{ type := .DATA, Sender := .L2Cache, DataBlk := d, AckCount := -k }]) := by
  obtain ⟨hP, hk, h⟩ := h
  cases hP with
  | writeServed =>
  cases h with
  | writeServed entry t =>
      rw [Node.receive_response]
      have hg := Kind.Is.granted (i := i) (le_refl k) entry t d hd hc
      rw [Int.sub_self] at hg
      exact ⟨.acquiring k, by simp [Kind.acquiring], hg⟩
  | _ => cases hk

/-- A sharer is asked to invalidate its copy, for another L1 or for the L2. -/
theorem invalidate (h : Role.sharer.Ok ok cur i nd) :
    (∀ r, (Role.invalidatee (.L1Cache r)).Ok ok cur i
      (nd.receive [request .INV (.L1Cache r)] [])) ∧
    (Role.invalidatee .L2Cache).Ok ok cur i (nd.receive [request .INV .L2Cache] []) := by
  obtain ⟨hP, hk, h⟩ := h
  cases hP with
  | sharer =>
  simp only [Node.receive_request]
  exact ⟨fun r => ⟨.invPending r, hk, h⟩, .invPendingL2, hk, h⟩

/-- The owner is asked for the line, for another L1 or for the L2. -/
theorem forward (h : Role.owner.Ok ok cur i nd) :
    (∀ r ty, ty = .GETX ∨ ty = .UPGRADE →
      (Role.handing r).Ok ok cur i (nd.receive [request ty (.L1Cache r)] [])) ∧
    (∀ r ty, ty = .GETS ∨ ty = .GET_INSTR →
      (Role.sharing r true true).Ok ok cur i (nd.receive [request ty (.L1Cache r)] [])) ∧
    Role.recalled.Ok ok cur i (nd.receive [request .INV .L2Cache] []) := by
  obtain ⟨hP, hk, h⟩ := h
  cases hP with
  | owner =>
  simp only [Node.receive_request]
  exact ⟨fun r ty ht => ⟨.handPending r ht, hk, h⟩, fun r ty ht => ⟨.sharePending r ht, hk, h⟩,
    .recallPending, hk, h⟩

/-- An unblock message leaves for the L2. -/
theorem unblocked {m : ResponseMsg n B} (h : ρ.Ok ok cur i nd) (hm : m ∈ nd.unblockToL2Cache) :
    ρ = .acquirer 0 ∧ m = response .EXCLUSIVE_UNBLOCK (.L1Cache i) ∧
        Role.owner.Ok ok cur i (nd.takeUnblock true m) ∨
      ρ = .reader true ∧ m = response .UNBLOCK (.L1Cache i) ∧
        (Role.reader false).Ok ok cur i (nd.takeUnblock true m) := by
  obtain ⟨hP, hk, h⟩ := h
  rename_i P k l sent due asked reply unblock peer
  obtain rfl : unblock = some m := Option.mem_toList.mp hm
  rw [Node.takeUnblock_of]
  generalize hx : some m = x at hP
  cases hP with
  | acquired =>
      cases hx
      exact .inl ⟨rfl, rfl, .owner, hk, h⟩
  | reader u =>
      cases u <;> cases hx
      exact .inr ⟨rfl, rfl, .reader false, hk, h⟩
  | _ => cases hx

/-- A reply leaves for the L2. -/
theorem replied {m : ResponseMsg n B} (h : ρ.Ok ok cur i nd) (hm : m ∈ nd.responseToL2Cache) :
    ρ = .invalidatee .L2Cache ∧ m = invAck i ∧
        Role.bystander.Ok ok cur i (nd.takeReply true m) ∨
      ρ = .recalled ∧ (m = invAck i ∧ cur ∨ Carries ok cur i m) ∧
        Role.bystander.Ok ok cur i (nd.takeReply true m) ∨
      ∃ r peer, ρ = .sharing r peer true ∧ Carries ok cur i m ∧
        (Role.sharing r peer false).Ok ok cur i (nd.takeReply true m) := by
  obtain ⟨hP, hk, h⟩ := h
  rename_i P k l sent due asked reply unblock peer
  obtain rfl : reply = some m := Option.mem_toList.mp hm
  rw [Node.takeReply_of]
  generalize hx : some m = x at hP
  cases hP with
  | invAckedL2 =>
      cases hx
      exact .inl ⟨rfl, rfl, .bystander, hk, h⟩
  | recallAcked hc =>
      cases hx
      exact .inr (.inl ⟨rfl, .inl ⟨rfl, hc⟩, .bystander, hk, h⟩)
  | recallData hd =>
      cases hx
      exact .inr (.inl ⟨rfl, .inr hd, .bystander, hk, h⟩)
  | shared r peer wb hd =>
      cases wb <;> cases hx
      exact .inr (.inr ⟨r, peer, rfl, hd, .shared r peer false hd, hk, h⟩)
  | _ => cases hx

/-- A node that has shared its line is a sharer. -/
theorem sharer_of_sharing {r : Fin n} (h : (Role.sharing r false false).Ok ok cur i nd) :
    Role.sharer.Ok ok cur i nd := by
  obtain ⟨hP, hk, h⟩ := h
  rename_i P k l sent due asked reply unblock peer
  generalize hx : Role.sharing r false false = x at hP
  cases hP with
  | shared =>
      cases hx
      exact ⟨.sharer, hk, h⟩
  | _ => cases hx

/-- A reader that has unblocked the L2 is a sharer. -/
theorem sharer_of_reader (h : (Role.reader false).Ok ok cur i nd) : Role.sharer.Ok ok cur i nd := by
  obtain ⟨hP, hk, h⟩ := h
  cases hP with
  | reader => exact ⟨.sharer, hk, h⟩

end Role.Ok

end

end SttRuby.Protocol
