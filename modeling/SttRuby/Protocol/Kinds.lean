import SttRuby.Protocol.Tenure

/-!
# Protocol — Kinds

What an L1 is about with the line, together with its request to the L2 and the answer of the L2 to
it.  A node has at most one message in each of its buffers (`Node.of`), and a `Kind` says what the
state of the line, the request and the answer are together: nothing, a request that is on its
way, an answer that is due, a copy that is shared or owned, or one that is written back.

`Kind.Is` also follows the value: with `ok` for the blocks that are up to date, a copy that is
shared or owned is `ok`, and one that is owned and clean is the copy of the L2, which is then up
to date too (`cur`).  One lemma for each kind of stimulus says what the L1 does: what the core
asks for (`Kind.Is.core`), the answer of the L2 (`Kind.Is.answered`), an invalidation
(`Kind.Is.invalidate`), and the messages of the other L1s.
-/

namespace SttRuby.Protocol

/-- The states with the only copy. -/
def L1Cache.State.owns : L1Cache.State → Bool
  | .E | .M | .LLSC_E | .LLSC_M => true
  | _ => false

/-- The states of a load miss. -/
def L1Cache.State.reads : L1Cache.State → Bool
  | .IS | .IS_I => true
  | _ => false

/-! ### Nodes -/

section

variable {n B : ℕ}

/-- A line in a stable state; the LL/SC timer runs in the locked ones. -/
abbrev L1Cache.Line.stable (s : L1Cache.State) (e : L1Cache.Entry B) : L1Cache.Line B :=
  ⟨some { e with CacheState := s }, none, s.locked⟩

/-- A line with a TBE. -/
abbrev L1Cache.Line.busy (s : L1Cache.State) (p : ℤ) (entry : Option (L1Cache.Entry B))
    (t : L1Cache.TBE B) : L1Cache.Line B :=
  ⟨entry, some { t with TBEState := s, pendingAcks := p }, false⟩

/-- A node with at most one message in each of its buffers: its request and the answer of the L2,
what the L2 asks and what it replies, its unblock message, and its message to another L1. -/
def Node.of (line : L1Cache.Line B) (sent : Option (RequestMsg n B))
    (due : Option (ResponseMsg n B)) (asked : Option (RequestMsg n B))
    (reply unblock : Option (ResponseMsg n B)) (peer : Option (Fin n × ResponseMsg n B)) :
    Node n B where
  line := line
  L1RequestToL2Cache := sent.toList
  responseToL2Cache := reply.toList
  unblockToL2Cache := unblock.toList
  requestToL1Cache := asked.toList
  responseToL1Cache := due.toList
  responseBetweenL1s := peer.toList

/-- Data from an L1: up to date, and the L2's if it is clean. -/
inductive Carries (ok : DataBlock B → Prop) (cur : Prop) (i : Fin n) : ResponseMsg n B → Prop where
  | mk (d : DataBlock B) (b : Bool) (hd : ok d) (hc : b = false → cur) :
      Carries ok cur i { type := .DATA, Sender := .L1Cache i, DataBlk := d, Dirty := b }

theorem Carries.mono {ok : DataBlock B → Prop} {cur cur' : Prop} {i : Fin n}
    {m : ResponseMsg n B} (h : Carries ok cur i m) (hc : cur → cur') : Carries ok cur' i m := by
  obtain ⟨d, b, hd, hb⟩ := h
  exact ⟨d, b, hd, hc ∘ hb⟩

end

/-! ### Kinds -/

inductive Kind where
  /-- Nothing is held or asked for. -/
  | idle
  /-- A read request, a write request or an upgrade that has lost its copy is on its way. -/
  | reading | writing | lostUpgrade
  /-- A write-back is acknowledged; a write-back of a line that was taken away meanwhile is
  acknowledged, or on its way. -/
  | putDone | sinkDone | sinkPut
  /-- Data is due that is used for one load only. -/
  | readOnce
  /-- A shared copy; one to be upgraded; one that is due. -/
  | shared | upgrading | filling
  /-- The line is owned; it is written back. -/
  | owned | putting
  /-- A request has been taken by the L2. -/
  | readServed | writeServed
  /-- The data, or the permission, to write is due, and `d` acks are still to come. -/
  | granted (d : ℕ) | upgraded (d : ℕ)
  /-- `d` acks are still to come. -/
  | collecting (d : ℕ)
  /-- Exclusive data is due. -/
  | grantedE
  deriving DecidableEq

namespace Kind

/-- The kinds without a copy, of which the L2 need not know. -/
def outside : Kind → Bool
  | idle | reading | writing | lostUpgrade | putDone | sinkDone | sinkPut | readOnce => true
  | _ => false

/-- The kinds of an L1 in the list of sharers: it may have dropped its copy. -/
def sharing : Kind → Bool
  | shared | upgrading | filling | idle | reading | writing | sinkDone | sinkPut | readOnce => true
  | _ => false

def owning : Kind → Bool
  | owned | putting => true
  | _ => false

/-- The kinds of an L1 that is about to own the line, with `d` acks to come. -/
def acquiring (d : ℕ) : Kind → Bool
  | granted d' | upgraded d' => d' = d
  | collecting d' => d' = d
  | grantedE => d = 0
  | _ => false

/-- Where the core may lead. -/
def next : Kind → List Kind
  | idle => [idle, reading, writing]
  | shared => [shared, idle, upgrading]
  | owned => [owned, putting]
  | k => [k]

/-- Where the answer of the L2 leads. -/
def filled : Kind → Kind
  | putDone | sinkDone | readOnce => idle
  | filling => shared
  | granted d | upgraded d => if d = 0 then owned else collecting d
  | grantedE => owned
  | k => k

/-- Where an invalidation of a shared copy leads. -/
def invalidated : Kind → Kind
  | shared => idle
  | upgrading => lostUpgrade
  | filling => readOnce
  | k => k

/-- Where an ack of another L1 leads. -/
def acked : Kind → Kind
  | granted d => granted (d - 1)
  | upgraded d => upgraded (d - 1)
  | collecting d => if d = 1 then owned else collecting (d - 1)
  | k => k

end Kind

section

variable {n B : ℕ}

/-- The line, the request and the answer of a kind. -/
inductive Kind.Is (ok : DataBlock B → Prop) (cur : Prop) (i : Fin n) : Kind → L1Cache.Line B →
    Option (RequestMsg n B) → Option (ResponseMsg n B) → Prop where
  | absent : Is ok cur i .idle ⟨none, none, false⟩ none none
  | invalid (e : L1Cache.Entry B) : Is ok cur i .idle (.stable .I e) none none
  | reading {s : L1Cache.State} (hs : s.reads = true) {ty : CoherenceRequestType}
      (ht : ty = .GETS ∨ ty = .GET_INSTR) (entry : Option (L1Cache.Entry B)) (t : L1Cache.TBE B)
      (hl : t.isLoadLinked = false) :
      Is ok cur i .reading (.busy s 0 entry t) (some (request ty (.L1Cache i))) none
  | writing (e : L1Cache.Entry B) (t : L1Cache.TBE B) :
      Is ok cur i .writing (.busy .IM 0 (some e) t) (some (request .GETX (.L1Cache i))) none
  | lostUpgrade (e : L1Cache.Entry B) (t : L1Cache.TBE B) :
      Is ok cur i .lostUpgrade (.busy .IM 0 (some e) t) (some (request .UPGRADE (.L1Cache i)))
        none
  | putDone (p : ℤ) (entry : Option (L1Cache.Entry B)) (t : L1Cache.TBE B) :
      Is ok cur i .putDone (.busy .M_I p entry t) none (some (response .WB_ACK .L2Cache))
  | sinkDone (p : ℤ) (entry : Option (L1Cache.Entry B)) (t : L1Cache.TBE B) :
      Is ok cur i .sinkDone (.busy .SINK_WB_ACK p entry t) none (some (response .WB_ACK .L2Cache))
  | sinkPut (p : ℤ) (entry : Option (L1Cache.Entry B)) (t : L1Cache.TBE B) (d : DataBlock B)
      (b : Bool) : Is ok cur i .sinkPut (.busy .SINK_WB_ACK p entry t)
        (some { type := .PUTX, Requestor := .L1Cache i, DataBlk := d, Dirty := b }) none
  | readOnce (entry : Option (L1Cache.Entry B)) (t : L1Cache.TBE B) (hl : t.isLoadLinked = false)
      (d : DataBlock B) :
      Is ok cur i .readOnce (.busy .IS_I 0 entry t) none
        (some { type := .DATA, Sender := .L2Cache, DataBlk := d })
  | shared (e : L1Cache.Entry B) (he : ok e.DataBlk) : Is ok cur i .shared (.stable .S e) none none
  | upgrading (e : L1Cache.Entry B) (he : ok e.DataBlk) (t : L1Cache.TBE B) :
      Is ok cur i .upgrading (.busy .SM 0 (some e) t) (some (request .UPGRADE (.L1Cache i))) none
  | filling (entry : Option (L1Cache.Entry B)) (t : L1Cache.TBE B) (hl : t.isLoadLinked = false)
      (d : DataBlock B) (hd : ok d) :
      Is ok cur i .filling (.busy .IS 0 entry t) none
        (some { type := .DATA, Sender := .L2Cache, DataBlk := d })
  | owned {s : L1Cache.State} (hs : s.owns = true)
      (e : L1Cache.Entry B) (he : ok e.DataBlk) (hc : e.Dirty = false → cur) :
      Is ok cur i .owned (.stable s e) none none
  | putting (p : ℤ) (entry : Option (L1Cache.Entry B)) (t : L1Cache.TBE B) (ht : ok t.DataBlk)
      (hc : t.Dirty = false → cur) : Is ok cur i .putting (.busy .M_I p entry t)
        (some { type := .PUTX, Requestor := .L1Cache i, DataBlk := t.DataBlk, Dirty := t.Dirty })
        none
  | readServed {s : L1Cache.State} (hs : s.reads = true) (entry : Option (L1Cache.Entry B))
      (t : L1Cache.TBE B) (hl : t.isLoadLinked = false) :
      Is ok cur i .readServed (.busy s 0 entry t) none none
  | writeServed (e : L1Cache.Entry B) (t : L1Cache.TBE B) :
      Is ok cur i .writeServed (.busy .IM 0 (some e) t) none none
  | granted {d k : ℕ} (hk : d ≤ k) (e : L1Cache.Entry B) (t : L1Cache.TBE B)
      (b : DataBlock B) (hb : ok b) (hc : cur) :
      Is ok cur i (.granted d) (.busy .IM (d - k) (some e) t) none
        (some { type := .DATA, Sender := .L2Cache, DataBlk := b, AckCount := -k })
  | upgraded {d k : ℕ} (hk : d ≤ k) (e : L1Cache.Entry B) (he : ok e.DataBlk)
      (t : L1Cache.TBE B) (hc : cur) :
      Is ok cur i (.upgraded d) (.busy .SM (d - k) (some e) t) none
        (some { type := .ACK, Sender := .L2Cache, AckCount := -k })
  | collecting {d : ℕ} (hd : 0 < d) (e : L1Cache.Entry B) (he : ok e.DataBlk)
      (hc : e.Dirty = false → cur) (t : L1Cache.TBE B) :
      Is ok cur i (.collecting d) (.busy .SM d (some e) t) none none
  | grantedE {s : L1Cache.State} (hs : s.reads = true) (entry : Option (L1Cache.Entry B))
      (t : L1Cache.TBE B) (b : DataBlock B) (k : ℤ) (hb : ok b) (hc : cur) :
      Is ok cur i .grantedE (.busy s 0 entry t) none
        (some { type := .DATA_EXCLUSIVE, Sender := .L2Cache, DataBlk := b, AckCount := k })

namespace Kind.Is

variable {ok : DataBlock B → Prop} {cur cur' : Prop} {i : Fin n} {k : Kind} {l : L1Cache.Line B}
  {sent : Option (RequestMsg n B)} {due : Option (ResponseMsg n B)}

theorem mono (h : k.Is ok cur i l sent due) (hc : cur → cur') : k.Is ok cur' i l sent due := by
  cases h with
  | owned hs e he hd => exact .owned hs e he (hc ∘ hd)
  | putting p entry t ht hd => exact .putting p entry t ht (hc ∘ hd)
  | granted hk e t b hb hd => exact .granted hk e t b hb (hc hd)
  | upgraded hk e he t hd => exact .upgraded hk e he t (hc hd)
  | collecting hd e he hd' t => exact .collecting hd e he (hc ∘ hd') t
  | grantedE hs entry t b k hb hd => exact .grantedE hs entry t b k hb (hc hd)
  | _ => constructor <;> assumption

/-- Without a copy, nothing is said about values. -/
theorem of_outside {ok' : DataBlock B → Prop} (h : k.Is ok cur i l sent due)
    (hk : k.outside = true) : k.Is ok' cur' i l sent due := by
  cases h <;> first | (constructor <;> assumption) | cases hk

end Kind.Is

/-! ### The core -/

/-- The events of the core, of a replacement and of the timer. -/
def coreEvents : List L1Cache.Event :=
  [.Load, .Ifetch, .Store, .Load_Linked, .L1_Replacement, .LLSC_Timeout]

/-- The states in the middle of a transaction. -/
def L1Cache.State.waiting : List L1Cache.State := [.IS, .IS_I, .IM, .SM, .M_I, .SINK_WB_ACK]

theorem L1Cache.core_stalls : ∀ s ∈ State.waiting, ∀ e ∈ coreEvents, transition s e = none ∨
    transition s e = some (s, [.z_stallAndWaitMandatoryQueue]) := by
  decide +kernel

theorem L1Cache.waiting_of_reads {s : State} (hs : s.reads = true) : s ∈ State.waiting := by
  revert hs
  cases s <;> decide

/-- In the middle of a transaction the core waits. -/
theorem L1Cache.core_waits {i : Fin n} {inp : In n B} {l : Line B} {e : Event} {c : Ctx n B}
    (hs : l.getState ∈ State.waiting) (he : e ∈ coreEvents)
    (hc : doTransition i inp e l = some c) : c = { line := l.setState l.getState } := by
  rw [doTransition] at hc
  rcases core_stalls _ hs e he with htr | htr
  · rw [htr] at hc
    cases hc
  · rw [htr] at hc
    cases hc
    rfl

/-- The entry of a line in the middle of a transaction may be given its state again. -/
theorem Kind.Is.restated {ok : DataBlock B → Prop} {cur : Prop} {i : Fin n} {k : Kind}
    {l : L1Cache.Line B} {sent : Option (RequestMsg n B)} {due : Option (ResponseMsg n B)}
    (h : k.Is ok cur i l sent due) (hs : l.getState ∈ L1Cache.State.waiting) :
    k.Is ok cur i (l.setState l.getState) sent due := by
  cases h with
  | absent | invalid | shared => simp [L1Cache.Line.getState, L1Cache.State.waiting] at hs
  | @owned s ho =>
      have hs : s ∈ L1Cache.State.waiting := hs
      revert hs ho
      cases s <;> simp [L1Cache.State.owns, L1Cache.State.waiting]
  | reading hr ht entry t hl => exact .reading hr ht _ t hl
  | writing x t => exact .writing { x with CacheState := .IM } t
  | lostUpgrade x t => exact .lostUpgrade { x with CacheState := .IM } t
  | putDone p entry t => exact .putDone p _ t
  | sinkDone p entry t => exact .sinkDone p _ t
  | sinkPut p entry t d b => exact .sinkPut p _ t d b
  | readOnce entry t hl d => exact .readOnce _ t hl d
  | upgrading x hx t => exact .upgrading { x with CacheState := .SM } hx t
  | filling entry t hl d hd => exact .filling _ t hl d hd
  | putting p entry t ht hcl => exact .putting p _ t ht hcl
  | readServed hr entry t hl => exact .readServed hr _ t hl
  | writeServed x t => exact .writeServed { x with CacheState := .IM } t
  | granted hk x t b hb hcl => exact .granted hk { x with CacheState := .IM } t b hb hcl
  | upgraded hk x hx t hcl => exact .upgraded hk { x with CacheState := .SM } hx t hcl
  | collecting hd x hx hcl t => exact .collecting hd { x with CacheState := .SM } hx hcl t
  | grantedE hr entry t b k hb hcl => exact .grantedE hr _ t b k hb hcl

theorem Kind.mem_next (k : Kind) : k ∈ k.next := by
  cases k <;> simp [Kind.next]

/-- What the core, a replacement or the timer leads to.  A store completes in an owned line only,
and leaves it dirty. -/
theorem Kind.Is.core {ok : DataBlock B → DataBlock B → Prop}
    (hok : ∀ (w : DataBlock B → DataBlock B) v d, ok v d → ok (w v) (w d)) {cur : Prop} {i : Fin n}
    {k : Kind} {l : L1Cache.Line B} {sent : Option (RequestMsg n B)}
    {due : Option (ResponseMsg n B)} {v : DataBlock B} {w : DataBlock B → DataBlock B}
    {e : L1Cache.Event} {c : L1Cache.Ctx n B}
    (h : k.Is (ok v) cur i l sent due) (he : e ∈ coreEvents)
    (hc : L1Cache.doTransition i { store := w } e l = some c) :
    ∃ k' ∈ k.next, ∃ sent', sent.toList ++ c.requestFromL1Cache = sent'.toList ∧
      c.responseFromL1Cache = [] ∧ c.unblockFromL1Cache = [] ∧ (c.stores = [] ∨ k = .owned) ∧
      ∀ cur' : Prop, (c.stores = [] → cur → cur') →
        k'.Is (ok (c.stores.foldl (fun d w => w d) v)) cur' i c.line sent' due := by
  by_cases hs : l.getState ∈ L1Cache.State.waiting
  · obtain rfl := L1Cache.core_waits hs he hc
    exact ⟨k, k.mem_next, sent, List.append_nil _, rfl, rfl, .inl rfl, fun _ hcur =>
      (h.restated hs).mono (hcur rfl)⟩
  cases h with
  | absent | invalid =>
      simp only [coreEvents, List.mem_cons, List.not_mem_nil, or_false] at he
      rcases he with rfl | rfl | rfl | rfl | rfl | rfl <;> cases hc
      · exact ⟨.reading, by decide, _, rfl, rfl, rfl, .inl rfl, fun _ _ =>
          .reading rfl (.inl rfl) _ _ rfl⟩
      · exact ⟨.reading, by decide, _, rfl, rfl, rfl, .inl rfl, fun _ _ =>
          .reading rfl (.inr rfl) _ _ rfl⟩
      · exact ⟨.writing, by decide, _, rfl, rfl, rfl, .inl rfl, fun _ _ => .writing _ _⟩
      · exact ⟨.writing, by decide, _, rfl, rfl, rfl, .inl rfl, fun _ _ => .writing _ _⟩
      · exact ⟨.idle, by decide, none, rfl, rfl, rfl, .inl rfl, fun _ _ => .absent⟩
  | shared x hx =>
      simp only [coreEvents, List.mem_cons, List.not_mem_nil, or_false] at he
      rcases he with rfl | rfl | rfl | rfl | rfl | rfl <;> cases hc
      · exact ⟨.shared, by decide, none, rfl, rfl, rfl, .inl rfl, fun _ _ =>
          .shared { x with isPrefetch := false } hx⟩
      · exact ⟨.shared, by decide, none, rfl, rfl, rfl, .inl rfl, fun _ _ =>
          .shared { x with isPrefetch := false } hx⟩
      · exact ⟨.upgrading, by decide, _, rfl, rfl, rfl, .inl rfl, fun _ _ =>
          .upgrading { x with CacheState := .SM } hx _⟩
      · exact ⟨.upgrading, by decide, _, rfl, rfl, rfl, .inl rfl, fun _ _ =>
          .upgrading { x with CacheState := .SM } hx _⟩
      · exact ⟨.idle, by decide, none, rfl, rfl, rfl, .inl rfl, fun _ _ => .absent⟩
  | owned ho x hx hcl =>
      simp only [coreEvents, List.mem_cons, List.not_mem_nil, or_false] at he
      rename_i s
      cases s <;> cases ho <;> rcases he with rfl | rfl | rfl | rfl | rfl | rfl <;> cases hc
      -- a hit, a store, a replacement; a replacement that waits for the lock, and its end
      all_goals first
        | exact ⟨.owned, by decide, none, rfl, rfl, rfl, .inl rfl, fun _ hcur =>
            .owned rfl { x with isPrefetch := false } hx (hcur rfl ∘ hcl)⟩
        | exact ⟨.owned, by decide, none, rfl, rfl, rfl, .inr rfl, fun _ _ =>
            .owned rfl { L1Cache.storeHit w x with isPrefetch := false } (hok w v _ hx)
              nofun⟩
        | exact ⟨.putting, by decide, _, rfl, rfl, rfl, .inl rfl, fun _ hcur =>
            .putting _ _ { DataBlk := x.DataBlk, Dirty := x.Dirty } hx (hcur rfl ∘ hcl)⟩
        | exact ⟨.owned, by decide, none, rfl, rfl, rfl, .inl rfl, fun _ hcur =>
            .owned rfl x hx (hcur rfl ∘ hcl)⟩
  | reading hr | readServed hr | grantedE hr => exact absurd (L1Cache.waiting_of_reads hr) hs
  | _ => simp [L1Cache.Line.getState, L1Cache.State.waiting] at hs

/-! ### The answer of the L2 -/

/-- The event of the answer; `ll` for a load-linked. -/
def Kind.answer (ll : Bool) : Kind → L1Cache.Event
  | .granted d =>
      if d = 0 then if ll then .LLSC_Data_all_Acks else .Data_all_Acks else .Data
  | .upgraded d => if d = 0 then if ll then .LLSC_Ack_all else .Ack_all else .Ack
  | .grantedE => .Data_Exclusive
  | .putDone | .sinkDone => .WB_Ack
  | _ => .Data_all_Acks

theorem Kind.Is.answer_event {ok : DataBlock B → Prop} {cur : Prop} {i : Fin n} {k : Kind}
    {l : L1Cache.Line B} {sent : Option (RequestMsg n B)} {m : ResponseMsg n B}
    (h : k.Is ok cur i l sent (some m)) :
    ∃ ll, L1Cache.responseEvent l m = some (k.answer ll) ∧
      (L1Cache.transition l.getState (k.answer ll)).isSome = true := by
  cases h with
  | putDone | sinkDone => exact ⟨false, rfl, rfl⟩
  | readOnce entry t hl d => exact ⟨false, by simp [L1Cache.responseEvent, hl, Kind.answer], rfl⟩
  | filling entry t hl d hd =>
      exact ⟨false, by simp [L1Cache.responseEvent, hl, Kind.answer], rfl⟩
  | @granted d k hk e t b hb hc =>
      refine ⟨t.isLoadLinked, ?_, ?_⟩
      · simp [L1Cache.responseEvent, Kind.answer, L1Cache.Line.getState]
      · cases t.isLoadLinked <;> cases d <;> rfl
  | @upgraded d k hk e he t hc =>
      refine ⟨t.isLoadLinked, ?_, ?_⟩
      · simp [L1Cache.responseEvent, Kind.answer]
      · cases t.isLoadLinked <;> cases d <;> rfl
  | @grantedE s hs entry t b k hb hc =>
      refine ⟨false, rfl, ?_⟩
      revert hs
      cases s <;> first | exact fun _ => rfl | (intro hs; cases hs)

/-- What the answer of the L2 leads to.  A store completes if the line is owned now. -/
theorem Kind.Is.answered {ok : DataBlock B → DataBlock B → Prop}
    (hok : ∀ (w : DataBlock B → DataBlock B) v d, ok v d → ok (w v) (w d)) {cur : Prop} {i : Fin n}
    {k : Kind} {l : L1Cache.Line B} {sent : Option (RequestMsg n B)} {m : ResponseMsg n B}
    {v : DataBlock B} {w : DataBlock B → DataBlock B} {e : L1Cache.Event} {c : L1Cache.Ctx n B}
    (h : k.Is (ok v) cur i l sent (some m)) (he : L1Cache.responseEvent l m = some e)
    (hc : L1Cache.doTransition i { response := some m, store := w } e l = some c) :
    sent = none ∧ c.popped = true ∧ c.requestFromL1Cache = [] ∧ c.responseFromL1Cache = [] ∧
      c.unblockFromL1Cache = (if k.filled = .owned then
        [response .EXCLUSIVE_UNBLOCK (.L1Cache i)] else []) ∧
      (c.stores = [] ∨ k.filled = .owned) ∧
      ∀ cur' : Prop, (c.stores = [] → cur → cur') →
        k.filled.Is (ok (c.stores.foldl (fun d w => w d) v)) cur' i c.line none none := by
  obtain ⟨ll, hev, -⟩ := h.answer_event
  obtain rfl : k.answer ll = e := Option.some.inj (hev.symm.trans he)
  cases h with
  | putDone p entry t =>
      cases entry <;> cases hc
      · exact ⟨rfl, rfl, rfl, rfl, rfl, .inl rfl, fun _ _ => .absent⟩
      · exact ⟨rfl, rfl, rfl, rfl, rfl, .inl rfl, fun _ _ => .invalid _⟩
  | sinkDone p entry t =>
      cases entry <;> cases hc
      · exact ⟨rfl, rfl, rfl, rfl, rfl, .inl rfl, fun _ _ => .absent⟩
      · exact ⟨rfl, rfl, rfl, rfl, rfl, .inl rfl, fun _ _ => .invalid _⟩
  | readOnce entry t hl d =>
      cases entry with
      | none => cases hc
      | some x =>
          cases hc
          exact ⟨rfl, rfl, rfl, rfl, rfl, .inl rfl, fun _ _ =>
            .invalid { x with DataBlk := d, Dirty := false }⟩
  | filling entry t hl d hd =>
      cases entry with
      | none => cases hc
      | some x =>
          cases hc
          exact ⟨rfl, rfl, rfl, rfl, rfl, .inl rfl, fun _ _ =>
            .shared { x with DataBlk := d, Dirty := false } hd⟩
  | @granted d k hk x t b hb hcl =>
      cases d with
      | zero =>
          cases ll <;> cases hc
          · exact ⟨rfl, rfl, rfl, rfl, rfl, .inr rfl, fun _ _ =>
              .owned rfl (L1Cache.storeHit w { x with DataBlk := b }) (hok w v b hb) nofun⟩
          · exact ⟨rfl, rfl, rfl, rfl, rfl, .inl rfl, fun _ hcur =>
              .owned rfl { x with DataBlk := b, Dirty := false } hb fun _ => hcur rfl hcl⟩
      | succ d =>
          -- the data is there, and the acks are counted down from now on
          have hp : ((d + 1 : ℕ) : ℤ) - k - -k = (d + 1 : ℕ) := by omega
          cases hc
          refine ⟨rfl, rfl, rfl, rfl, rfl, .inl rfl, fun cur' hcur => ?_⟩
          have hcoll : Kind.Is (ok v) cur' i (.collecting (d + 1)) (.busy .SM (d + 1 : ℕ)
              (some { x with CacheState := .SM, DataBlk := b, Dirty := false }) t) none none :=
            .collecting d.succ_pos _ hb (fun _ => hcur rfl hcl) t
          rwa [← hp] at hcoll
  | @upgraded d k hk x hx t hcl =>
      cases d with
      | zero =>
          cases ll <;> cases hc
          · exact ⟨rfl, rfl, rfl, rfl, rfl, .inr rfl, fun _ _ =>
              .owned rfl (L1Cache.storeHit w x) (hok w v _ hx) nofun⟩
          · exact ⟨rfl, rfl, rfl, rfl, rfl, .inl rfl, fun _ hcur =>
              .owned rfl x hx fun _ => hcur rfl hcl⟩
      | succ d =>
          have hp : ((d + 1 : ℕ) : ℤ) - k - -k = (d + 1 : ℕ) := by omega
          cases hc
          refine ⟨rfl, rfl, rfl, rfl, rfl, .inl rfl, fun cur' hcur => ?_⟩
          have hcoll : Kind.Is (ok v) cur' i (.collecting (d + 1)) (.busy .SM (d + 1 : ℕ)
              (some { x with CacheState := .SM }) t) none none :=
            .collecting d.succ_pos { x with CacheState := .SM } hx (fun _ => hcur rfl hcl) t
          rwa [← hp] at hcoll
  | @grantedE s hs entry t b k hb hcl =>
      cases entry with
      | none => cases s <;> cases hs <;> cases hc
      | some x =>
          cases s <;> cases hs <;> cases hc <;>
            exact ⟨rfl, rfl, rfl, rfl, rfl, .inl rfl, fun _ hcur =>
              .owned rfl { x with DataBlk := b, Dirty := false } hb fun _ => hcur rfl hcl⟩

/-! ### What the L2 asks -/

section

variable {ok : DataBlock B → Prop} {cur : Prop} {i : Fin n} {k : Kind} {l : L1Cache.Line B}
  {sent : Option (RequestMsg n B)} {due : Option (ResponseMsg n B)} {m : RequestMsg n B}
  {c : L1Cache.Ctx n B}

/-- An L1 that may share the line acknowledges an invalidation and has no copy any more. -/
theorem Kind.Is.invalidate (h : k.Is ok cur i l sent due) (hk : k.sharing = true)
    (hc : L1Cache.doTransition i { request := some m } .Inv l = some c) :
    c.popped = true ∧ c.requestFromL1Cache = [] ∧
      c.responseFromL1Cache = [(m.Requestor, invAck i)] ∧ c.unblockFromL1Cache = [] ∧
      c.stores = [] ∧ k.invalidated.Is ok cur i c.line sent due := by
  cases h with
  | absent => cases hc; exact ⟨rfl, rfl, rfl, rfl, rfl, .absent⟩
  | invalid e => cases hc; exact ⟨rfl, rfl, rfl, rfl, rfl, .invalid e⟩
  | @reading s hs ty ht entry t hl =>
      cases s <;> cases hs <;> cases hc <;> exact ⟨rfl, rfl, rfl, rfl, rfl, .reading rfl ht _ t hl⟩
  | writing e t =>
      cases hc
      exact ⟨rfl, rfl, rfl, rfl, rfl, .writing { e with CacheState := .IM } t⟩
  | sinkDone p entry t => cases hc; exact ⟨rfl, rfl, rfl, rfl, rfl, .sinkDone _ _ t⟩
  | sinkPut p entry t d b => cases hc; exact ⟨rfl, rfl, rfl, rfl, rfl, .sinkPut _ _ t d b⟩
  | readOnce entry t hl d => cases hc; exact ⟨rfl, rfl, rfl, rfl, rfl, .readOnce _ t hl d⟩
  | shared e he => cases hc; exact ⟨rfl, rfl, rfl, rfl, rfl, .invalid e⟩
  | upgrading e he t => cases hc; exact ⟨rfl, rfl, rfl, rfl, rfl, .lostUpgrade _ t⟩
  | filling entry t hl d hd => cases hc; exact ⟨rfl, rfl, rfl, rfl, rfl, .readOnce _ t hl d⟩
  | _ => cases hk

/-- An L1 that owns the line waits for its lock, or answers an invalidation with an ack, if the
line is exclusive, or with the data. -/
theorem Kind.Is.recall (h : k.Is ok cur i l sent due) (hk : k.owning = true)
    (hE : ∀ x : L1Cache.Entry B, l = .stable .E x → x.Dirty = true → cur)
    (hc : L1Cache.doTransition i { request := some m } .Inv l = some c) :
    c = { line := l } ∨ c.popped = true ∧ c.requestFromL1Cache = [] ∧
      c.unblockFromL1Cache = [] ∧ c.stores = [] ∧
      (∃ k' : Kind, k'.outside = true ∧ k'.Is ok cur i c.line sent due) ∧
      (c.responseFromL1Cache = [(m.Requestor, invAck i)] ∧ cur ∨
        ∃ r, Carries ok cur i r ∧ c.responseFromL1Cache = [(.L2Cache, r)]) := by
  cases h with
  | @owned s hs e he hcl =>
      cases s <;> cases hs <;> cases hc
      · refine .inr ⟨rfl, rfl, rfl, rfl, ⟨.idle, rfl, .invalid e⟩, .inl ⟨rfl, ?_⟩⟩
        cases hd : e.Dirty with
        | false => exact hcl hd
        | true => exact hE e rfl hd
      · exact .inr ⟨rfl, rfl, rfl, rfl, ⟨.idle, rfl, .invalid e⟩, .inr ⟨_, ⟨_, _, he, hcl⟩, rfl⟩⟩
      · exact .inl rfl
      · exact .inl rfl
  | putting p entry t ht hcl =>
      cases hc
      exact .inr ⟨rfl, rfl, rfl, rfl, ⟨.sinkPut, rfl, .sinkPut p _ t _ _⟩,
        .inr ⟨_, ⟨_, _, ht, hcl⟩, rfl⟩⟩
  | _ => cases hk

/-- An L1 that owns the line gives it up for a write of another. -/
theorem Kind.Is.handOver (h : k.Is ok cur i l sent due) (hk : k.owning = true)
    (hc : L1Cache.doTransition i { request := some m } .Fwd_GETX l = some c) :
    c = { line := l } ∨ c.popped = true ∧ c.requestFromL1Cache = [] ∧
      c.unblockFromL1Cache = [] ∧ c.stores = [] ∧
      (∃ k' : Kind, k'.outside = true ∧ k'.Is ok cur i c.line sent due) ∧
      ∃ r, Carries ok cur i r ∧ c.responseFromL1Cache = [(m.Requestor, r)] := by
  cases h with
  | @owned s hs e he hcl =>
      cases s <;> cases hs <;> cases hc
      · exact .inr ⟨rfl, rfl, rfl, rfl, ⟨.idle, rfl, .invalid e⟩, _, ⟨_, _, he, hcl⟩, rfl⟩
      · exact .inr ⟨rfl, rfl, rfl, rfl, ⟨.idle, rfl, .invalid e⟩, _, ⟨_, _, he, hcl⟩, rfl⟩
      · exact .inl rfl
      · exact .inl rfl
  | putting p entry t ht hcl =>
      cases hc
      exact .inr ⟨rfl, rfl, rfl, rfl, ⟨.sinkPut, rfl, .sinkPut p _ t _ _⟩, _, ⟨_, _, ht, hcl⟩, rfl⟩
  | _ => cases hk

/-- An L1 that owns the line shares it with a reader and with the L2. -/
theorem Kind.Is.share {e : L1Cache.Event} (h : k.Is ok cur i l sent due) (hk : k.owning = true)
    (he : e = .Fwd_GETS ∨ e = .Fwd_GET_INSTR)
    (hc : L1Cache.doTransition i { request := some m } e l = some c) :
    c = { line := l } ∨ c.popped = true ∧ c.requestFromL1Cache = [] ∧
      c.unblockFromL1Cache = [] ∧ c.stores = [] ∧
      (∃ k' : Kind, k'.sharing = true ∧ k'.Is ok cur i c.line sent due) ∧
      ∃ r, Carries ok cur i r ∧ c.responseFromL1Cache = [(m.Requestor, r), (.L2Cache, r)] := by
  cases h with
  | @owned s hs x hx hcl =>
      cases s <;> cases hs <;> rcases he with rfl | rfl <;> cases hc <;>
        first
        | exact .inr ⟨rfl, rfl, rfl, rfl, ⟨.shared, rfl, .shared x hx⟩, _, ⟨_, _, hx, hcl⟩, rfl⟩
        | exact .inl rfl
  | putting p entry t ht hcl =>
      rcases he with rfl | rfl <;> cases hc <;>
        exact .inr ⟨rfl, rfl, rfl, rfl, ⟨.sinkPut, rfl, .sinkPut p _ t _ _⟩, _, ⟨_, _, ht, hcl⟩,
          rfl⟩
  | _ => cases hk

end

/-! ### Messages of other L1s -/

/-- The event of an ack. -/
def Kind.ackEvent (ll : Bool) : Kind → L1Cache.Event
  | .collecting 1 => if ll then .LLSC_Ack_all else .Ack_all
  | _ => .Ack

theorem Kind.Is.ack_event {ok : DataBlock B → Prop} {cur : Prop} {i j : Fin n} {k : Kind}
    {l : L1Cache.Line B} {sent : Option (RequestMsg n B)} {due : Option (ResponseMsg n B)} {d : ℕ}
    (h : k.Is ok cur i l sent due) (hk : k.acquiring (d + 1) = true) :
    ∃ ll, L1Cache.responseEvent l (invAck j) = some (k.ackEvent ll) ∧
      (L1Cache.transition l.getState (k.ackEvent ll)).isSome = true := by
  cases h with
  | @granted d' k hk' e t b hb hc =>
      refine ⟨false, ?_, rfl⟩
      have hne : (d' : ℤ) - k - 1 ≠ 0 := by omega
      simp [L1Cache.responseEvent, invAck, Kind.ackEvent, hne]
  | @upgraded d' k hk' e he t hc =>
      refine ⟨false, ?_, rfl⟩
      have hne : (d' : ℤ) - k - 1 ≠ 0 := by omega
      simp [L1Cache.responseEvent, invAck, Kind.ackEvent, hne]
  | @collecting d' hd e he hc t =>
      refine ⟨t.isLoadLinked, ?_, ?_⟩
      · by_cases h1 : d' = 1
        · subst h1
          simp [L1Cache.responseEvent, invAck, Kind.ackEvent]
        · have hne : (d' : ℤ) - 1 ≠ 0 := by omega
          simp [L1Cache.responseEvent, invAck, Kind.ackEvent, hne, h1]
      · cases t.isLoadLinked <;> unfold Kind.ackEvent <;> split <;> rfl
  | _ => cases hk

/-- What an ack leads to, while acks are still to come. -/
theorem Kind.Is.ack {ok : DataBlock B → DataBlock B → Prop}
    (hok : ∀ (w : DataBlock B → DataBlock B) v d, ok v d → ok (w v) (w d)) {cur : Prop}
    {i j : Fin n} {k : Kind} {l : L1Cache.Line B} {sent : Option (RequestMsg n B)}
    {due : Option (ResponseMsg n B)} {v : DataBlock B} {w : DataBlock B → DataBlock B} {d : ℕ}
    {e : L1Cache.Event} {c : L1Cache.Ctx n B}
    (h : k.Is (ok v) cur i l sent due) (hk : k.acquiring (d + 1) = true)
    (he : L1Cache.responseEvent l (invAck j) = some e)
    (hc : L1Cache.doTransition i { response := some (invAck j), store := w } e l = some c) :
    c.popped = true ∧ c.requestFromL1Cache = [] ∧ c.responseFromL1Cache = [] ∧
      c.unblockFromL1Cache = (if k.acked = .owned then
        [response .EXCLUSIVE_UNBLOCK (.L1Cache i)] else []) ∧
      (c.stores = [] ∨ k.acked = .owned) ∧
      ∀ cur' : Prop, (c.stores = [] → cur → cur') →
        k.acked.Is (ok (c.stores.foldl (fun d w => w d) v)) cur' i c.line sent due := by
  obtain ⟨ll, hev, -⟩ := h.ack_event (j := j) hk
  obtain rfl : k.ackEvent ll = e := Option.some.inj (hev.symm.trans he)
  cases h with
  | @granted d' a ha x t b hb hcl =>
      obtain rfl : d' = d + 1 := of_decide_eq_true hk
      have hp : ((d + 1 : ℕ) : ℤ) - a - 1 = (d : ℕ) - a := by omega
      cases hc
      refine ⟨rfl, rfl, rfl, rfl, .inl rfl, fun cur' hcur => ?_⟩
      have hg : Kind.Is (ok v) cur' i (.granted d) (.busy .IM ((d : ℕ) - a)
          (some { x with CacheState := .IM }) t) none _ :=
        .granted (Nat.le_of_succ_le ha) { x with CacheState := .IM } t b hb (hcur rfl hcl)
      rwa [← hp] at hg
  | @upgraded d' a ha x hx t hcl =>
      obtain rfl : d' = d + 1 := of_decide_eq_true hk
      have hp : ((d + 1 : ℕ) : ℤ) - a - 1 = (d : ℕ) - a := by omega
      cases hc
      refine ⟨rfl, rfl, rfl, rfl, .inl rfl, fun cur' hcur => ?_⟩
      have hu : Kind.Is (ok v) cur' i (.upgraded d) (.busy .SM ((d : ℕ) - a)
          (some { x with CacheState := .SM }) t) none _ :=
        .upgraded (Nat.le_of_succ_le ha) { x with CacheState := .SM } hx t (hcur rfl hcl)
      rwa [← hp] at hu
  | @collecting d' hd x hx hcl t =>
      obtain rfl : d' = d + 1 := of_decide_eq_true hk
      cases d with
      | zero =>
          -- the last ack
          cases ll <;> cases hc
          · exact ⟨rfl, rfl, rfl, rfl, .inr rfl, fun _ _ =>
              .owned rfl (L1Cache.storeHit w x) (hok w v _ hx) nofun⟩
          · exact ⟨rfl, rfl, rfl, rfl, .inl rfl, fun _ hcur =>
              .owned rfl x hx (hcur rfl ∘ hcl)⟩
      | succ d =>
          have hp : ((d + 1 + 1 : ℕ) : ℤ) - 1 = (d + 1 : ℕ) := by omega
          cases hc
          refine ⟨rfl, rfl, rfl, rfl, .inl rfl, fun cur' hcur => ?_⟩
          have hcoll : Kind.Is (ok v) cur' i (.collecting (d + 1)) (.busy .SM (d + 1 : ℕ)
              (some { x with CacheState := .SM }) t) none none :=
            .collecting d.succ_pos { x with CacheState := .SM } hx (hcur rfl ∘ hcl) t
          rwa [← hp] at hcoll
  | _ => cases hk

/-- The data of the owner, for a write. -/
theorem Kind.Is.take {ok : DataBlock B → DataBlock B → Prop}
    (hok : ∀ (w : DataBlock B → DataBlock B) v d, ok v d → ok (w v) (w d)) {cur : Prop}
    {i j : Fin n} {l : L1Cache.Line B} {sent : Option (RequestMsg n B)}
    {due : Option (ResponseMsg n B)} {v : DataBlock B} {w : DataBlock B → DataBlock B}
    {m : ResponseMsg n B} {e : L1Cache.Event} {c : L1Cache.Ctx n B}
    (h : Kind.Is (ok v) cur i .writeServed l sent due) (hm : Carries (ok v) cur j m)
    (he : L1Cache.responseEvent l m = some e)
    (hc : L1Cache.doTransition i { response := some m, store := w } e l = some c) :
    c.popped = true ∧ c.requestFromL1Cache = [] ∧ c.responseFromL1Cache = [] ∧
      c.unblockFromL1Cache = [response .EXCLUSIVE_UNBLOCK (.L1Cache i)] ∧
      ∀ cur' : Prop, (c.stores = [] → cur → cur') →
        Kind.Is (ok (c.stores.foldl (fun d w => w d) v)) cur' i .owned c.line sent due := by
  obtain ⟨d, b, hd, hb⟩ := hm
  cases h with
  | writeServed x t =>
      have hev : e = if t.isLoadLinked then .LLSC_Data_all_Acks else .Data_all_Acks := by
        simpa [L1Cache.responseEvent, L1Cache.Line.getState] using he.symm
      cases ht : t.isLoadLinked <;> rw [ht] at hev <;> subst hev <;> cases hc
      · exact ⟨rfl, rfl, rfl, rfl, fun _ _ =>
          .owned rfl (L1Cache.storeHit w { x with DataBlk := d, Dirty := b }) (hok w v d hd) nofun⟩
      · exact ⟨rfl, rfl, rfl, rfl, fun _ hcur =>
          .owned rfl { x with DataBlk := d, Dirty := b } hd (hcur rfl ∘ hb)⟩

/-- The data of the owner, for a read. -/
theorem Kind.Is.read {ok : DataBlock B → Prop} {cur : Prop} {i j : Fin n} {l : L1Cache.Line B}
    {sent : Option (RequestMsg n B)} {due : Option (ResponseMsg n B)}
    {w : DataBlock B → DataBlock B} {m : ResponseMsg n B} {e : L1Cache.Event}
    {c : L1Cache.Ctx n B} (h : Kind.Is ok cur i .readServed l sent due) (hm : Carries ok cur j m)
    (he : L1Cache.responseEvent l m = some e)
    (hc : L1Cache.doTransition i { response := some m, store := w } e l = some c) :
    c.popped = true ∧ c.requestFromL1Cache = [] ∧ c.responseFromL1Cache = [] ∧
      c.unblockFromL1Cache = [response .UNBLOCK (.L1Cache i)] ∧ c.stores = [] ∧
      ∃ k : Kind, k.sharing = true ∧ k.Is ok cur i c.line sent due := by
  obtain ⟨d, b, hd, hb⟩ := hm
  cases h with
  | @readServed s hs entry t hl =>
      obtain rfl : e = .DataS_fromL1 := by
        cases s <;> cases hs <;> simpa [L1Cache.responseEvent, L1Cache.Line.getState] using he.symm
      cases entry with
      | none => cases s <;> cases hs <;> cases hc
      | some x =>
          cases s <;> cases hs <;> cases hc
          · exact ⟨rfl, rfl, rfl, rfl, rfl, .shared, rfl,
              .shared { x with DataBlk := d, Dirty := b } hd⟩
          · exact ⟨rfl, rfl, rfl, rfl, rfl, .idle, rfl,
              .invalid { x with DataBlk := d, Dirty := b }⟩

end

end SttRuby.Protocol
