import SttRuby.Protocol.Serving

/-!
# Protocol — Coherence

What the phases give over whole runs.  As long as no write-back is taken for the answer to a
recall (`recallsAlone`):

* there is a single writer or there are many readers (`single_writer`);
* if moreover every invalidation finds the L2 with the line, no cache controller meets an event
  that its table does not declare (`no_invalid_transition`);
* if moreover no dirty line is given up without its data and no DMA controller writes, no update
  is lost: what the L2 sends to the directory is what the stores have made of the line, and so is
  what the directory sends back (`no_lost_update`).

Each of the three fails without the first condition.
-/

namespace SttRuby.Protocol

section

variable {n B : ℕ} {g g' : Sys n B}

/-! ### The messages of the directory -/

theorem Directory.exec_signed {inp : Directory.In n B} {a : Directory.Action}
    {c c' : Directory.Ctx n B} (hc : ∀ r ∈ c.responseFromDir, r.2.Sender = .Directory)
    (h : Directory.exec inp a c = some c') :
    ∀ r ∈ c'.responseFromDir, r.2.Sender = .Directory := by
  cases a <;>
    simp only [Directory.exec, Option.bind_eq_some_iff, Option.map_eq_some_iff,
      Option.some.injEq] at h <;>
    grind [Directory.Ctx.respond, Directory.Ctx.queueMemory, Directory.Ctx.setTBE]

theorem Directory.doTransition_signed {inp : Directory.In n B} {e : Directory.Event}
    {l : Directory.Line n B} {c : Directory.Ctx n B}
    (h : Directory.doTransition inp e l = some c) :
    ∀ r ∈ c.responseFromDir, r.2.Sender = .Directory := by
  obtain ⟨⟨s', actions⟩, -, hm⟩ := Option.bind_eq_some_iff.mp h
  obtain ⟨c₁, hp, rfl⟩ := Option.map_eq_some_iff.mp hm
  exact Lib.perform_induct (P := fun c => ∀ r ∈ c.responseFromDir, r.2.Sender = .Directory)
    (fun _ _ _ => exec_signed) (by simp) hp

/-- What reaches the L2 from the directory names it as its sender. -/
def Home.Signed (h : Home n B) : Prop := ∀ r ∈ h.responseToL2Cache, r.Sender = .Directory

theorem Home.Signed.afterDir {h : Home n B} (hs : h.Signed) {inp : Directory.In n B}
    {e : Directory.Event} {l : Directory.Line n B} {c : Directory.Ctx n B}
    (hc : Directory.doTransition inp e l = some c) : (h.afterDir c).Signed := by
  intro r hr
  rcases List.mem_append.mp hr with hr | hr
  · exact hs r hr
  · obtain ⟨x, hx, hxr⟩ := List.mem_filterMap.mp hr
    have := Directory.doTransition_signed hc x hx
    split at hxr <;> simp_all

theorem Home.Signed.step {h h' : Home n B} (hs : h.Signed) {l : HomeLabel n B}
    (hl : h.step l = some h') : h'.Signed := by
  cases l with
  | request m | response m =>
      simp only [Home.step, Option.ite_none_right_eq_some, Option.bind_eq_some_iff,
        Option.map_eq_some_iff] at hl
      obtain ⟨-, e, -, c, hc, rfl⟩ := hl
      exact Home.Signed.afterDir hs hc
  | memoryResponse m =>
      simp only [Home.step, Option.ite_none_right_eq_some, Option.map_eq_some_iff] at hl
      obtain ⟨-, c, hc, rfl⟩ := hl
      exact Home.Signed.afterDir hs hc
  | memory m =>
      simp only [Home.step, Option.ite_none_right_eq_some, Option.map_eq_some_iff] at hl
      obtain ⟨-, ⟨memory, r⟩, -, rfl⟩ := hl
      exact hs
  | dma m =>
      simp only [Home.step, Option.ite_none_right_eq_some, Option.some.injEq] at hl
      obtain ⟨-, rfl⟩ := hl
      exact hs

theorem Home.Signed.l2Step (hs : g.home.Signed) (b : Bool) (l : L2Label n B)
    (c : L2Cache.Ctx n B) : ((g.l2Dequeue b l).afterL2 c).home.Signed := by
  cases l with
  | responseFromDir m => exact fun r hr => hs r (mem_of_mem_dequeue hr)
  | _ => exact hs

/-! ### A single writer or many readers -/

/-- Coherence over runs, where nothing is said about values. -/
theorem coherent_of_reach (h : (protocol n B).Reach (fun g l => recallsAlone g l = true) g) :
    g.Coherent .any ∧ g.home.Signed := by
  refine h.invariant (I := fun g => g.Coherent .any ∧ g.home.Signed) ?_ ?_
  · rintro g ⟨memory, rfl⟩
    exact ⟨.start _ memory, fun _ h => absurd h List.not_mem_nil⟩
  · rintro g l g' ⟨hg, hs⟩ hA h
    cases l with
    | l1 i l =>
        obtain ⟨inp, e, c, he, hc, rfl⟩ := Sys.l1Step_some h
        refine ⟨(hg.l1Step (.inr fun _ _ => trivial) he hc).1, ?_⟩
        simpa [Sys.afterL1, Sys.setNode] using hs
    | l2 l =>
        obtain ⟨inp, e, c, he, hc, rfl⟩ := Sys.l2Step_some h
        exact ⟨(hg.l2Step hA (fun m hm => ⟨hs m hm, fun _ => ⟨trivial, trivial⟩⟩) he hc).1,
          hs.l2Step _ _ _⟩
    | home l =>
        obtain ⟨h', hl, rfl⟩ := Option.map_eq_some_iff.mp h
        exact ⟨hg, hs.step hl⟩

/-- If an L1 may write the line, no other may read or write it. -/
def Sys.SingleWriter (g : Sys n B) : Prop :=
  ∀ i j, j ≠ i → (g.node i).line.getState ∈ [L1Cache.State.E, .M, .LLSC_E, .LLSC_M] →
    (g.node j).line.getState ∉ [L1Cache.State.S, .SM, .E, .M, .LLSC_E, .LLSC_M]

instance : DecidablePred (Sys.SingleWriter (n := n) (B := B)) := fun g => by
  unfold Sys.SingleWriter; infer_instance

/-- The states of a kind. -/
def Kind.states : Kind → List L1Cache.State
  | .idle => [.NP, .I]
  | .reading | .readServed | .grantedE => [.IS, .IS_I]
  | .writing | .lostUpgrade | .writeServed | .granted _ => [.IM]
  | .putDone | .putting => [.M_I]
  | .sinkDone | .sinkPut => [.SINK_WB_ACK]
  | .readOnce => [.IS_I]
  | .filling => [.IS]
  | .shared => [.S]
  | .upgrading | .upgraded _ | .collecting _ => [.SM]
  | .owned => [.E, .M, .LLSC_E, .LLSC_M]

theorem Kind.Is.state {ok : DataBlock B → Prop} {cur : Prop} {i : Fin n} {k : Kind}
    {l : L1Cache.Line B} {sent : Option (RequestMsg n B)} {due : Option (ResponseMsg n B)}
    (h : k.Is ok cur i l sent due) : l.getState ∈ k.states := by
  cases h with
  | @owned s hs | @reading s hs | @readServed s hs | @grantedE s hs =>
      cases s <;> first | (cases hs; done) | simp [Kind.states, L1Cache.Line.getState]
  | _ => simp [Kind.states, L1Cache.Line.getState]

section

variable {ok : DataBlock B → Prop} {cur : Prop} {i : Fin n} {ρ : Role n} {nd : Node n B}

/-- Only a writer owns the line. -/
theorem Role.Ok.writer_of_owns (h : ρ.Ok ok cur i nd)
    (hs : nd.line.getState ∈ [L1Cache.State.E, .M, .LLSC_E, .LLSC_M]) : ρ.writer = true := by
  obtain ⟨hP, hk, h⟩ := h
  rename_i P k l sent due asked reply unblock peer
  have hst : l.getState ∈ k.states := h.state
  obtain rfl : k = .owned := by
    cases k <;> grind [Kind.states, Node.of]
  exact (hP.of_owned hk).1

/-- A node of which nothing is said has no copy. -/
theorem Role.Ok.not_holds (h : ρ.Ok ok cur i nd) (hf : ρ.free = true) :
    nd.line.getState ∉ [L1Cache.State.S, .SM, .E, .M, .LLSC_E, .LLSC_M] := by
  obtain ⟨hP, hk, h⟩ := h
  rename_i P k l sent due asked reply unblock peer
  have hst : l.getState ∈ k.states := h.state
  have hk' : k.outside = true ∨ k = .readServed ∨ k = .writeServed := by
    cases hP with
    | bystander => exact .inl hk
    | readServed => exact .inr (.inl (by simpa using hk))
    | writeServed => exact .inr (.inr (by simpa using hk))
    | _ => cases hf
  cases k <;> grind [Kind.states, Node.of, Kind.outside]

end

/-- **A single writer or many readers**, where no write-back is taken for the answer to a
recall. -/
theorem single_writer (h : (protocol n B).Reach (fun g l => recallsAlone g l = true) g) :
    g.SingleWriter := by
  obtain ⟨⟨φ, d, -, hn⟩, -⟩ := coherent_of_reach h
  intro i j hj hi
  have hw := (hn i).writer_of_owns hi
  exact (hn j).not_holds (Phase.free_of_writer hw hj)

/-- One L1 reads the line, and the other takes it over to write it. -/
def handedOver : List (Label 2 1) :=
  [.l1 0 (.cpu .LD id), .l1 1 (.cpu .ST id),
    .l2 (.request 0 (request .GETS (.L1Cache 0)))] ++
  fetchZeros .GETS ++
  [.l1 0 (.response (response .DATA_EXCLUSIVE .L2Cache) id),
    .l1 0 .replacement,
    .l2 (.unblock 0 (response .EXCLUSIVE_UNBLOCK (.L1Cache 0))),
    .l2 (.request 1 (request .GETX (.L1Cache 1))),
    .l1 0 (.request (request .GETX (.L1Cache 1))),
    .l1 1 (.responseFromL1 0 (response .DATA (.L1Cache 0)) id),
    .l2 (.unblock 1 (response .EXCLUSIVE_UNBLOCK (.L1Cache 1)))]

theorem single_writer_handedOver :
    ∃ g, (protocol 2 1).Reach (fun g l => recallsAlone g l = true) g ∧
      (g.node 1).line.getState = .M ∧ g.SingleWriter := by
  have h : (((protocol 2 1).trace (fun g l => recallsAlone g l = true) (start fun _ => 0)
      handedOver).any fun g => decide ((g.node 1).line.getState = .M)) = true := by
    decide +kernel
  obtain ⟨g, hreach, hg⟩ := Lib.Machine.trace_reaches (started _) h
  exact ⟨g, hreach, hg, single_writer hreach⟩

/-- The L2 recalls the line from its new owner and takes the old write-back of the other L1 for
the answer; then it gives the line away once more. -/
def takenForAnswer : List (Label 2 1) :=
  handedOver ++
  [.l2 .replacement,
    .l2 (.request 0 (request .PUTX (.L1Cache 0))),
    .l1 0 (.response (response .WB_ACK .L2Cache) id),
    .l1 0 (.cpu .LD id)] ++
  writeZeros ++
  [.l2 (.request 0 (request .GETS (.L1Cache 0)))] ++
  fetchZeros .GETS ++
  [.l1 0 (.response (response .DATA_EXCLUSIVE .L2Cache) id)]

theorem two_owners : ∃ g, (protocol 2 1).Reach (fun _ _ => True) g ∧ ¬ g.SingleWriter := by
  have h : (((protocol 2 1).trace (fun _ _ => True) (start fun _ => 0) takenForAnswer).any
      fun g => decide (¬ g.SingleWriter)) = true := by decide +kernel
  exact Lib.Machine.trace_reaches (started _) h

/-! ### No invalid transition -/

/-- Every event that the in_ports of the caches can trigger has a declared transition. -/
def Sys.Declares (g : Sys n B) : Prop :=
  (∀ i l r, g.l1Event i l = some r →
    (L1Cache.transition (g.node i).line.getState r.2).isSome = true) ∧
  ∀ l r, g.l2Event l = some r → (L2Cache.transition g.l2.getState r.2).isSome = true

section

variable {ok : DataBlock B → Prop} {cur : Prop} {i j : Fin n} {ρ : Role n} {nd : Node n B}

theorem L1Cache.core_declared : ∀ s ∈ [State.NP, .I, .S, .E, .M, .IS, .IM, .SM, .IS_I, .M_I,
    .SINK_WB_ACK, .LLSC_E, .LLSC_M], ∀ e ∈ [Event.Load, .Ifetch, .Store, .Load_Linked,
    .L1_Replacement], (transition s e).isSome = true := by
  decide +kernel

theorem L1Cache.mandatoryEvent_declared (l : L1Cache.Line B) (t : L1Cache.RubyRequestType) :
    L1Cache.mandatoryEvent l t ∈ [Event.Load, .Ifetch, .Store, .Load_Linked,
      .L1_Replacement] := by
  have ht : L1Cache.mandatory_request_type_to_event t ∈ [Event.Load, .Ifetch, .Store,
      .Load_Linked, .L1_Replacement] := by
    cases t <;> decide
  unfold L1Cache.mandatoryEvent
  split
  · split_ifs <;> first | exact ht | decide
  · exact ht

/-- What the core asks for. -/
theorem Role.Ok.core_declared (h : ρ.Ok ok cur i nd) {e : L1Cache.Event}
    (he : e ∈ [L1Cache.Event.Load, .Ifetch, .Store, .Load_Linked, .L1_Replacement]) :
    (L1Cache.transition nd.line.getState e).isSome = true := by
  obtain ⟨-, -, h⟩ := h
  rename_i P k l sent due asked reply unblock peer
  have hsub : k.states ⊆ [.NP, .I, .S, .E, .M, .IS, .IM, .SM, .IS_I, .M_I, .SINK_WB_ACK, .LLSC_E,
      .LLSC_M] := by
    cases k <;> simp [Kind.states]
  exact L1Cache.core_declared l.getState (hsub h.state) e he

/-- The timer runs only in a locked state. -/
theorem Role.Ok.timeout_declared (h : ρ.Ok ok cur i nd) (hl : nd.line.llscLock = true) :
    (L1Cache.transition nd.line.getState .LLSC_Timeout).isSome = true := by
  obtain ⟨-, -, h⟩ := h
  cases h with
  | @owned s hs =>
      cases s <;> first | rfl | cases hl
  | _ => cases hl

theorem L1Cache.invalidation_declared : ∀ s ∈ [State.NP, .I, .S, .IS, .IM, .SM, .IS_I,
    .SINK_WB_ACK], (transition s .Inv).isSome = true := by
  decide +kernel

theorem L1Cache.question_declared : ∀ s ∈ [State.E, .M, .LLSC_E, .LLSC_M, .M_I],
    ∀ e ∈ [Event.Inv, .Fwd_GETX, .Fwd_GETS, .Fwd_GET_INSTR], (transition s e).isSome = true := by
  decide +kernel

theorem Kind.states_of_sharing {k : Kind} (hk : k.sharing = true) :
    k.states ⊆ [.NP, .I, .S, .IS, .IM, .SM, .IS_I, .SINK_WB_ACK] := by
  cases k <;> first | (cases hk; done) | simp [Kind.states]

theorem Kind.states_of_owning {k : Kind} (hk : k.owning = true) :
    k.states ⊆ [.E, .M, .LLSC_E, .LLSC_M, .M_I] := by
  cases k <;> first | (cases hk; done) | simp [Kind.states]

/-- The questions of the L2. -/
theorem Role.Ok.ask_declared {m : RequestMsg n B} (h : ρ.Ok ok cur i nd)
    (hm : m ∈ nd.requestToL1Cache) {e : L1Cache.Event} (he : L1Cache.requestEvent m = some e) :
    (L1Cache.transition nd.line.getState e).isSome = true := by
  obtain ⟨hP, hk, h⟩ := h
  rename_i P k l sent due asked reply unblock peer
  obtain rfl : asked = some m := Option.mem_toList.mp hm
  cases hP with
  | invPending | invPendingL2 =>
      cases he
      exact L1Cache.invalidation_declared l.getState (Kind.states_of_sharing hk h.state)
  | recallPending =>
      cases he
      exact L1Cache.question_declared l.getState (Kind.states_of_owning hk h.state) _ (by decide)
  | handPending r ht | sharePending r ht =>
      refine L1Cache.question_declared l.getState (Kind.states_of_owning hk h.state) e ?_
      rcases ht with rfl | rfl <;> cases he <;> decide

/-- The answers of the L2. -/
theorem Role.Ok.answer_declared {m : ResponseMsg n B} (h : ρ.Ok ok cur i nd)
    (hm : m ∈ nd.responseToL1Cache) {e : L1Cache.Event}
    (he : L1Cache.responseEvent nd.line m = some e) :
    (L1Cache.transition nd.line.getState e).isSome = true := by
  obtain ⟨-, -, h⟩ := h
  rename_i P k l sent due asked reply unblock peer
  obtain rfl : due = some m := Option.mem_toList.mp hm
  obtain ⟨ll, hev, hdecl⟩ := h.answer_event
  obtain rfl : k.answer ll = e := Option.some.inj (hev.symm.trans he)
  exact hdecl

/-- The acks of the other L1s. -/
theorem Role.Ok.ack_declared {d : ℕ} (h : (Role.acquirer (d + 1)).Ok ok cur i nd)
    {e : L1Cache.Event}
    (he : L1Cache.responseEvent nd.line (invAck j : ResponseMsg n B) = some e) :
    (L1Cache.transition nd.line.getState e).isSome = true := by
  obtain ⟨hP, hk, h⟩ := h
  rename_i P k l sent due asked reply unblock peer
  cases hP with
  | acquiring =>
      obtain ⟨ll, hev, hdecl⟩ := h.ack_event (j := j) hk
      obtain rfl : k.ackEvent ll = e := Option.some.inj (hev.symm.trans he)
      exact hdecl

/-- The data of the owner. -/
theorem Role.Ok.data_declared {m : ResponseMsg n B} (h : ρ.Ok ok cur i nd)
    (hρ : ρ = .readServed ∨ ρ = .writeServed) (hm : Carries ok cur j m) {e : L1Cache.Event}
    (he : L1Cache.responseEvent nd.line m = some e) :
    (L1Cache.transition nd.line.getState e).isSome = true := by
  obtain ⟨hP, hk, h⟩ := h
  obtain ⟨b, dirty, hb, hc⟩ := hm
  rcases hρ with rfl | rfl <;> cases hP
  · cases h with
    | @readServed s hs entry t hl =>
        obtain rfl : e = .DataS_fromL1 := by
          cases s <;> cases hs <;>
            simpa [L1Cache.responseEvent, Node.of, L1Cache.Line.getState] using he.symm
        cases s <;> first | rfl | cases hs
    | _ => cases hk
  · cases h with
    | writeServed entry t =>
        have he' : e = if t.isLoadLinked then .LLSC_Data_all_Acks else .Data_all_Acks := by
          simpa [L1Cache.responseEvent, Node.of, L1Cache.Line.getState] using he.symm
        rw [he']
        cases t.isLoadLinked <;> rfl
    | _ => cases hk

end

/-- The events of the L1s are declared. -/
theorem Sys.Coherent.l1_declares {V : Values B} (hg : g.Coherent V) {i : Fin n} {l : L1Label n B}
    {r : L1Cache.In n B × L1Cache.Event} (he : g.l1Event i l = some r) :
    (L1Cache.transition (g.node i).line.getState r.2).isSome = true := by
  obtain ⟨φ, d, hl2, hn⟩ := hg
  cases l with
  | cpu t w =>
      cases he
      exact (hn i).core_declared (L1Cache.mandatoryEvent_declared _ t)
  | replacement =>
      simp only [Sys.l1Event, Option.ite_none_right_eq_some, Option.some.injEq] at he
      obtain ⟨-, rfl⟩ := he
      exact (hn i).core_declared (by simp)
  | llscTimeout =>
      simp only [Sys.l1Event, Option.ite_none_right_eq_some, Option.some.injEq] at he
      obtain ⟨hl, rfl⟩ := he
      exact (hn i).timeout_declared hl
  | request m =>
      simp only [Sys.l1Event, Option.ite_none_right_eq_some, Option.map_eq_some_iff] at he
      obtain ⟨hm, e, he, rfl⟩ := he
      exact (hn i).ask_declared hm he
  | response m w =>
      simp only [Sys.l1Event, Option.ite_none_right_eq_some, Option.map_eq_some_iff] at he
      obtain ⟨hm, e, he, rfl⟩ := he
      exact (hn i).answer_declared hm he
  | responseFromL1 j m w =>
      simp only [Sys.l1Event, Option.ite_none_right_eq_some, Option.map_eq_some_iff] at he
      obtain ⟨hm, e, he, rfl⟩ := he
      have hi := hn i
      rcases (hn j).sent hm with ⟨hρ, rfl, -⟩ | ⟨hd, ⟨hρ, -⟩ | ⟨wb, hρ, -⟩⟩
      · obtain ⟨D, rfl, hD, -⟩ := Phase.of_invalidatee hρ
        simp only [Phase.role, if_true, ← Finset.card_erase_add_one hD] at hi
        exact hi.ack_declared he
      · obtain rfl := Phase.of_handing hρ
        obtain ⟨hx, -⟩ : i ≠ j ∧ (Phase.granting i ∅).L2 (V.ok g.latest) V.clean d g.l2 :=
          hl2.handed
        exact hi.data_declared (.inr (by simp [Phase.role, hx])) hd he
      · obtain ⟨u, rfl⟩ := Phase.of_sharing hρ
        obtain ⟨hx, -⟩ := hl2.read
        exact hi.data_declared (.inl (by simp [Phase.role, hx])) hd he

/-- A request is declared, unless it is an upgrade that the L2 takes for one of a sharer. -/
theorem L2Cache.request_declared (s : L2Cache.State) {ty : CoherenceRequestType} {b : Bool}
    {e : L2Cache.Event} (he : L2Cache.L1Cache_request_type_to_event ty b = some e)
    (hb : ty = .UPGRADE → b = true → s ∉ [.NP, .M, .MT, .ISS, .IS, .IM]) :
    (L2Cache.transition s e).isSome = true := by
  revert hb
  cases ty <;> cases b <;> cases he <;> cases s <;> decide +kernel

theorem Sys.Coherent.request_declared {V : Values B} (hg : g.Coherent V) {i : Fin n}
    {q : RequestMsg n B} (hq : q ∈ (g.node i).L1RequestToL2Cache) {e : L2Cache.Event}
    (he : L2Cache.requestEvent g.l2 q = some e) :
    (L2Cache.transition g.l2.getState e).isSome = true := by
  obtain ⟨φ, d, hl2, hn⟩ := hg
  have hi := hn i
  obtain ⟨hr, -⟩ := hi.requested hq
  obtain ⟨hnot, -⟩ := hi.not_served hq
  obtain ⟨ty, r, dq, bq, o, ln⟩ := q
  obtain rfl : r = .L1Cache i := hr
  have hput (hρ : φ.role i = .owner) : ty = .PUTX := by
    rw [hρ] at hi
    exact (hi.put hq).1
  generalize g.l2 = l at hl2 he
  cases hl2 with
  | np | mI | sI | iI | mtI | mctI => exact L2Cache.request_declared _ he nofun
  | m | im => exact L2Cache.request_declared _ he fun _ h => by simp at h
  | iss | is =>
      refine L2Cache.request_declared _ he fun _ h => absurd ?_ hnot
      simpa [Phase.role] using h
  | mt x =>
      refine L2Cache.request_declared _ he fun ht h => ?_
      cases ht
      cases hput (by simpa [Phase.role] using h)
  | _ => exact L2Cache.request_declared _ he fun _ _ => by simp [L2Cache.Line.getState]

/-- The replies of the L1s are declared. -/
theorem Sys.Coherent.response_declared {V : Values B} (hg : g.Coherent V) {i : Fin n}
    {m : ResponseMsg n B} (hm : m ∈ (g.node i).responseToL2Cache) {e : L2Cache.Event}
    (he : L2Cache.responseEvent g.l2 m = some e) :
    (L2Cache.transition g.l2.getState e).isSome = true := by
  obtain ⟨φ, d, hl2, hn⟩ := hg
  generalize g.l2 = l at hl2 he
  rcases (hn i).replied hm with ⟨hρ, rfl, -⟩ | ⟨hρ, hm', -⟩ | ⟨r, peer, hρ, hm', -⟩
  · obtain ⟨D, rfl, -⟩ := Phase.of_invalidatee_l2 hρ
    have hev : e = .Ack ∨ e = .Ack_all := by
      cases hl2 <;> grind [L2Cache.responseEvent, invAck]
    cases hl2 <;> rcases hev with rfl | rfl <;> rfl
  · obtain rfl := Phase.of_recalled hρ
    rcases hm' with ⟨rfl, -⟩ | ⟨b, dirty, -, -⟩
    · cases hl2 <;> cases he <;> rfl
    · cases hl2 <;> cases dirty <;> cases he <;> rfl
  · obtain ⟨u, rfl⟩ := Phase.of_sharing hρ
    obtain ⟨b, dirty, -, -⟩ := hm'
    cases hl2 <;> cases dirty <;> cases he <;> rfl

/-- The unblock messages are declared. -/
theorem Sys.Coherent.unblock_declared {V : Values B} (hg : g.Coherent V) {i : Fin n}
    {m : ResponseMsg n B} (hm : m ∈ (g.node i).unblockToL2Cache) {e : L2Cache.Event}
    (he : L2Cache.unblockEvent m = some e) :
    (L2Cache.transition g.l2.getState e).isSome = true := by
  obtain ⟨φ, d, hl2, hn⟩ := hg
  generalize g.l2 = l at hl2
  rcases (hn i).unblocked hm with ⟨hρ, rfl, -⟩ | ⟨hρ, rfl, -⟩
  · obtain rfl := Phase.of_acquirer hρ
    cases he
    cases hl2 <;> rfl
  · obtain ⟨x, wb, rfl, -⟩ := Phase.of_reader hρ
    cases he
    cases hl2 <;> rfl

/-- A replacement is declared in the states with an entry and no TBE. -/
theorem Sys.Coherent.replacement_declared {V : Values B} (hg : g.Coherent V)
    (ht : g.l2.tbe = none) {x : L2Cache.Entry n B} (hx : g.l2.entry = some x) :
    (L2Cache.transition g.l2.getState (L2Cache.replacementEvent x)).isSome = true := by
  obtain ⟨φ, d, hl2, -⟩ := hg
  generalize g.l2 = l at hl2 ht hx
  have hev : L2Cache.replacementEvent x = .L2_Replacement ∨
      L2Cache.replacementEvent x = .L2_Replacement_clean := by
    unfold L2Cache.replacementEvent
    split <;> simp
  cases hl2 with
  | np | mI | sI | iI | mtI | mctI => cases hx
  | iss | is | im => cases ht
  | _ => rcases hev with h | h <;> rw [h] <;> rfl

/-- The messages of the directory are declared where it and the L2 are at one stage. -/
theorem Sys.Homed.dir_declared {ok : DataBlock B → Prop} (hH : g.Homed ok) {m : ResponseMsg n B}
    (hm : m ∈ g.home.responseToL2Cache) {e : L2Cache.Event}
    (he : L2Cache.responseEvent g.l2 m = some e) :
    (L2Cache.transition g.l2.getState e).isSome = true := by
  obtain ⟨st, s, hA, hmode⟩ := hH
  rw [Home.responseEvent_fromDir (hA.toL2 m hm)] at he
  by_cases hdata : m.type = .MEMORY_DATA
  · rw [if_pos hdata] at he
    cases he
    have hfill : 0 < st.fills := hA.fills ▸ List.countP_pos_iff.mpr ⟨m, hm, by simpa using hdata⟩
    have hf : g.l2.getState.mode = .fetching := by
      rw [hmode]
      revert hfill
      cases st <;> decide
    revert hf
    cases g.l2.getState <;> decide +kernel
  by_cases hack : m.type = .MEMORY_ACK
  · rw [if_neg hdata, if_pos hack] at he
    cases he
    have hacked : 0 < st.acks := hA.acks ▸ List.countP_pos_iff.mpr ⟨m, hm, by simpa using hack⟩
    have hl : g.l2.getState.mode = .leaving := by
      rw [hmode]
      revert hacked
      cases st <;> decide
    revert hl
    cases g.l2.getState <;> decide +kernel
  · rw [if_neg hdata, if_neg hack] at he
    cases he
    cases g.l2.getState <;> rfl

/-- **No invalid transition**, where no write-back is taken for the answer to a recall and every
invalidation finds the L2 with the line. -/
theorem no_invalid_transition
    (h : (protocol n B).Reach (fun g l => recallsAlone g l = true ∧ meetsLine g l = true) g) :
    g.Declares := by
  obtain ⟨hg, -⟩ := coherent_of_reach (h.mono fun _ _ h => h.1)
  obtain ⟨hH, -⟩ := homed_of_reach (h.mono fun _ _ h => h.2)
  refine ⟨fun i l r he => hg.l1_declares he, fun l r he => ?_⟩
  cases l with
  | request i q =>
      simp only [Sys.l2Event, Option.ite_none_right_eq_some, Option.map_eq_some_iff] at he
      obtain ⟨hq, e, he, rfl⟩ := he
      exact hg.request_declared hq he
  | response i m =>
      simp only [Sys.l2Event, Option.ite_none_right_eq_some, Option.map_eq_some_iff] at he
      obtain ⟨hm, e, he, rfl⟩ := he
      exact hg.response_declared hm he
  | unblock i m =>
      simp only [Sys.l2Event, Option.ite_none_right_eq_some, Option.map_eq_some_iff] at he
      obtain ⟨hm, e, he, rfl⟩ := he
      exact hg.unblock_declared hm he
  | responseFromDir m =>
      simp only [Sys.l2Event, Option.ite_none_right_eq_some, Option.map_eq_some_iff] at he
      obtain ⟨hm, e, he, rfl⟩ := he
      exact hH.dir_declared hm he
  | replacement =>
      simp only [Sys.l2Event, Option.ite_none_left_eq_some, Option.map_eq_some_iff] at he
      obtain ⟨ht, x, hx, rfl⟩ := he
      exact hg.replacement_declared (by simpa using ht) hx

theorem no_invalid_transition_handedOver :
    ∃ g, (protocol 2 1).Reach (fun g l => recallsAlone g l = true ∧ meetsLine g l = true) g ∧
      g.l2.getState = .MT ∧ g.Declares := by
  have h : (((protocol 2 1).trace (fun g l => recallsAlone g l = true ∧ meetsLine g l = true)
      (start fun _ => 0) handedOver).any fun g => decide (g.l2.getState = .MT)) = true := by
    decide +kernel
  obtain ⟨g, hreach, hg⟩ := Lib.Machine.trace_reaches (started _) h
  exact ⟨g, hreach, hg, no_invalid_transition hreach⟩

/-- The L2 recalls a line that its owner is writing back, and takes the write-back for the answer;
the data that the L1 sends in answer to the recall is still on its way when the L2 fetches the
line again. -/
def lateAnswer : List (Label 1 1) :=
  [.l1 0 (.cpu .LD id), .l2 (.request 0 (request .GETS (.L1Cache 0)))] ++
  fetchZeros .GETS ++
  [.l1 0 (.response (response .DATA_EXCLUSIVE .L2Cache) id),
    .l1 0 .replacement,
    .l2 (.unblock 0 (response .EXCLUSIVE_UNBLOCK (.L1Cache 0))),
    .l2 .replacement,
    .l2 (.request 0 (request .PUTX (.L1Cache 0))),
    .l1 0 (.request (request .INV .L2Cache)),
    .l1 0 (.response (response .WB_ACK .L2Cache) id),
    .l1 0 (.cpu .LD id)] ++
  writeZeros ++
  [.l2 (.request 0 (request .GETS (.L1Cache 0)))]

theorem late_answer_undeclared :
    ∃ g, (protocol 1 1).Reach (fun _ _ => True) g ∧ ¬ g.Declares := by
  have h : (((protocol 1 1).trace (fun _ _ => True) (start fun _ => 0) lateAnswer).any fun g =>
      decide ((g.l2Event (.response 0 (response .DATA (.L1Cache 0)))).any fun r =>
        (L2Cache.transition g.l2.getState r.2).isNone)) = true := by decide +kernel
  obtain ⟨g, hreach, hg⟩ := Lib.Machine.trace_reaches (started _) h
  refine ⟨g, hreach, fun hD => ?_⟩
  cases hev : g.l2Event (.response 0 (response .DATA (.L1Cache 0))) with
  | none =>
      rw [hev] at hg
      cases hg
  | some r =>
      rw [hev, Option.any_some, Option.isNone_iff_eq_none] at hg
      have hdecl := hD.2 _ r hev
      rw [hg] at hdecl
      cases hdecl

-- an invalidation that finds the L2 fetching has the directory acknowledge a write-back that was
-- none, and the ack finds the L2 with the line
example : (((protocol 1 1).trace (fun g l => recallsAlone g l = true) (start fun _ => 0)
    (lateInvalidation ++ [.l2 (.responseFromDir (response .MEMORY_DATA .Directory))])).any fun g =>
      (g.l2Event (.responseFromDir (response .MEMORY_ACK .Directory))).any fun r =>
        (L2Cache.transition g.l2.getState r.2).isNone) = true := by
  decide +kernel

/-! ### No update is lost -/

/-- What the L2 has sent to the directory, what is about to be written to the memory, what the
memory holds while the directory is idle, and what the directory has sent to the L2 is what the
stores have made of the line. -/
def Sys.UpToDate (g : Sys n B) : Prop :=
  (∀ r ∈ g.home.responseToDir, (r.type = .MEMORY_DATA → r.DataBlk = g.latest) ∧
    (r.type = .ACK → g.home.memory = g.latest)) ∧
  (∀ m ∈ g.home.requestToMemory, m.type = .MEMORY_WB →
    Directory.overwrite g.home.memory m.DataBlk m.offset (Directory.requestSize m) = g.latest) ∧
  (g.home.dir.getState = .I → g.home.memory = g.latest) ∧
  ∀ r ∈ g.home.responseToL2Cache, r.type = .MEMORY_DATA → r.DataBlk = g.latest

instance : DecidablePred (Sys.UpToDate (n := n) (B := B)) := fun g => by
  unfold Sys.UpToDate; infer_instance

/-- The conditions under which no update is lost. -/
def careful (g : Sys n B) (l : Label n B) : Bool :=
  recallsAlone g l && meetsLine g l && dirtyAnswered g l && noDMAWrite l

theorem Stage.held_of_holding {st : Stage} (h : st.mode = .holding) : st = .held := by
  revert h
  cases st <;> decide

/-- During a tenure of the L2 the home side has no say in the value. -/
theorem Home.At.of_held {ok ok' : DataBlock B → Prop} {s : Directory.State} {h : Home n B}
    (hA : h.At ok .held s) (hall : (∀ d, ok d) → ∀ d, ok' d) : h.At ok' .held s := by
  have hs := hA.state
  have hs' : s = .I ∨ s = .M ∨ s = .M_DRD ∨ s = .M_DWR := by
    revert hs
    cases s <;> decide
  obtain ⟨hq, hr⟩ := hA.pending.empty hs'
  have hnil : h.responseToDir = [] := List.length_eq_zero_iff.mp hA.responses
  exact { hA with
    pending := .none (by revert hs; cases s <;> decide) hq hr
    stored := nofun
    back := by simp [hnil]
    writing := fun h => hall (hA.writing h)
    writes := fun m hm ht => hall (hA.writes m hm ht) }

/-- During a tenure of the L2 the memory stays as it is. -/
theorem Home.At.memory_step {ok : DataBlock B → Prop} {s : Directory.State} {h h' : Home n B}
    (hA : h.At ok .held s) {l : HomeLabel n B} (hl : h.step l = some h') :
    h'.memory = h.memory := by
  cases l with
  | request m | response m =>
      simp only [Home.step, Option.ite_none_right_eq_some, Option.bind_eq_some_iff,
        Option.map_eq_some_iff] at hl
      obtain ⟨-, e, -, c, -, rfl⟩ := hl
      rfl
  | memoryResponse m =>
      simp only [Home.step, Option.ite_none_right_eq_some, Option.map_eq_some_iff] at hl
      obtain ⟨-, c, -, rfl⟩ := hl
      rfl
  | memory m =>
      simp only [Home.step, Option.ite_none_right_eq_some, Option.map_eq_some_iff] at hl
      obtain ⟨hm, -⟩ := hl
      have hs := hA.state
      have hs' : s = .I ∨ s = .M ∨ s = .M_DRD ∨ s = .M_DWR := by
        revert hs
        cases s <;> decide
      rw [(hA.pending.empty hs').1] at hm
      cases hm
  | dma m =>
      simp only [Home.step, Option.ite_none_right_eq_some, Option.some.injEq] at hl
      obtain ⟨-, rfl⟩ := hl
      rfl

/-- Outside a tenure of the L2 nothing is said about its block. -/
theorem Phase.L2.of_not_holding {ok ok' clean clean' : DataBlock B → Prop} {d : DataBlock B}
    {φ : Phase n} {l : L2Cache.Line n B} (h : φ.L2 ok clean d l)
    (hm : l.getState.mode ≠ .holding) : φ.L2 ok' clean' d l := by
  cases h with
  | np => exact .np
  | mI d' b ids r p => exact .mI d' b ids r p
  | iss i x d₁ d₂ b₁ b₂ r p => exact .iss i x d₁ d₂ b₁ b₂ r p
  | is W x d₁ d₂ b₁ b₂ r p => exact .is W x d₁ d₂ b₁ b₂ r p
  | im r x d₁ d₂ b₁ b₂ ids p => exact .im r x d₁ d₂ b₁ b₂ ids p
  | _ => exact absurd rfl hm

/-- The caches and the home side agree on the value of the line. -/
structure Sys.Faithful (g : Sys n B) : Prop where
  coherent : g.Coherent (.exact g.home.memory)
  homed : g.Homed (· = g.latest)
  signed : g.Signed

/-- Data on its way to the L2 is the memory's and up to date. -/
theorem Home.At.filled_ok {ok : DataBlock B → Prop} {st : Stage} {s : Directory.State}
    {h : Home n B} (hA : h.At ok st s) {m : ResponseMsg n B} (hm : m ∈ h.responseToL2Cache)
    (ht : m.type = .MEMORY_DATA) : ok h.memory ∧ m.DataBlk = h.memory := by
  have hfill : 0 < st.fills := hA.fills ▸ List.countP_pos_iff.mpr ⟨m, hm, by simpa using ht⟩
  refine ⟨hA.stored ?_, hA.filled m hm ht⟩
  revert hfill
  cases st <;> decide

theorem Sys.Faithful.l1Step (hg : g.Faithful) {i : Fin n} {l : L1Label n B}
    (hC : dirtyAnswered g (.l1 i l) = true) (h : g.l1Step i l = some g') : g'.Faithful := by
  have hS : g'.Signed := hg.signed.step (l := .l1 i l) h
  obtain ⟨inp, e, c, he, hc, rfl⟩ := Sys.l1Step_some h
  obtain ⟨hco, hst⟩ := hg.coherent.l1Step (.inl hC) he hc
  refine ⟨by simpa [Sys.afterL1, Sys.setNode] using hco, ?_, hS⟩
  obtain ⟨st, s, hA, hmode⟩ := hg.homed
  rcases hst with hst | hhold
  · refine ⟨st, s, ?_, by simpa [Sys.afterL1, Sys.setNode] using hmode⟩
    simpa [Sys.afterL1, Sys.setNode, hst] using hA
  · obtain rfl := Stage.held_of_holding (hmode.symm.trans hhold)
    refine ⟨.held, s, ?_, by simpa [Sys.afterL1, Sys.setNode] using hmode⟩
    have hA' : g.home.At (· = c.stores.foldl (fun d w => w d) g.latest) .held s :=
      hA.of_held fun hall d => (hall d).trans (hall _).symm
    simpa [Sys.afterL1, Sys.setNode] using hA'

theorem Sys.Faithful.l2Step (hg : g.Faithful) {l : L2Label n B}
    (hA : recallsAlone g (.l2 l) = true) (hB : meetsLine g (.l2 l) = true)
    (h : g.l2Step l = some g') : g'.Faithful := by
  have hS : g'.Signed := hg.signed.step (l := .l2 l) h
  obtain ⟨inp, e, c, he, hc, rfl⟩ := Sys.l2Step_some h
  have hdir : ∀ m ∈ g.home.responseToL2Cache, m.Sender = .Directory ∧ (m.type = .MEMORY_DATA →
      m.DataBlk = g.latest ∧ m.DataBlk = g.home.memory) := by
    obtain ⟨st, s, hAt, -⟩ := hg.homed
    intro m hm
    refine ⟨(hAt.toL2 m hm).1, fun ht => ?_⟩
    obtain ⟨hok, hmem⟩ := hAt.filled_ok hm ht
    exact ⟨hmem.trans hok, hmem⟩
  obtain ⟨hco, hout⟩ := hg.coherent.l2Step hA hdir he hc
  have hmem : ((g.l2Dequeue c.popped l).afterL2 c).home.memory = g.home.memory := by
    cases l <;> rfl
  have hlat : ((g.l2Dequeue c.popped l).afterL2 c).latest = g.latest := by
    cases l <;> rfl
  refine ⟨hmem ▸ hco, hlat ▸ hg.homed.l2Step hg.signed he hc hB fun r hr => ?_, hS⟩
  obtain ⟨hdata, hack⟩ := hout hB r hr
  refine ⟨hdata, fun ht => ?_⟩
  obtain ⟨d, hd, hcl⟩ := hack ht
  exact hcl.symm.trans hd

theorem Sys.Faithful.homeStep (hg : g.Faithful) {l : HomeLabel n B}
    (hw : noDMAWrite (.home l : Label n B) = true) {h' : Home n B}
    (hl : g.home.step l = some h') : ({ g with home := h' } : Sys n B).Faithful := by
  refine ⟨?_, hg.homed.homeStep hl (.inl hw), hg.signed⟩
  obtain ⟨φ, d, hl2, hn⟩ := hg.coherent
  by_cases hm : g.l2.getState.mode = .holding
  · obtain ⟨st, s, hA, hmode⟩ := hg.homed
    obtain rfl := Stage.held_of_holding (hmode.symm.trans hm)
    have hmem := hA.memory_step hl
    exact ⟨φ, d, by simpa [hmem] using hl2, hn⟩
  · exact ⟨φ, d, hl2.of_not_holding hm, hn⟩

theorem faithful_of_reach (h : (protocol n B).Reach (fun g l => careful g l = true) g) :
    g.Faithful := by
  refine h.invariant (I := Sys.Faithful) ?_ ?_
  · rintro g ⟨memory, rfl⟩
    exact ⟨.start _ memory, .start memory _ rfl, fun _ _ h => absurd h List.not_mem_nil⟩
  · intro g l g' hg hG h
    simp only [careful, Bool.and_eq_true] at hG
    obtain ⟨⟨⟨hA, hB⟩, hC⟩, hW⟩ := hG
    cases l with
    | l1 i l => exact hg.l1Step hC h
    | l2 l => exact hg.l2Step hA hB h
    | home l =>
        obtain ⟨h', hl, rfl⟩ := Option.map_eq_some_iff.mp h
        exact hg.homeStep hW hl

/-- **No update is lost**, where no write-back is taken for the answer to a recall, every
invalidation finds the L2 with the line, no dirty line is acknowledged without its data, and no
DMA controller writes. -/
theorem no_lost_update (h : (protocol n B).Reach (fun g l => careful g l = true) g) :
    g.UpToDate := by
  obtain ⟨st, s, hA, -⟩ := (faithful_of_reach h).homed
  refine ⟨hA.back, fun m hm ht => ?_, fun hI => ?_, fun r hr ht => ?_⟩
  · cases hA.pending with
    | none _ hq | readDone _ _ _ _ hq | writeDone _ _ _ _ hq => rw [hq] at hm; cases hm
    | read _ hty _ hq =>
        rw [hq] at hm
        rw [List.mem_singleton.mp hm, hty] at ht
        cases ht
    | write _ _ _ hd hq =>
        rw [hq] at hm
        rw [List.mem_singleton.mp hm]
        exact hd
  · refine hA.stored ?_
    have hst := hA.state
    rw [hA.dir.getState] at hI
    subst hI
    revert hst
    cases st <;> decide
  · obtain ⟨hok, hmem⟩ := hA.filled_ok hr ht
    exact hmem.trans hok

/-- A block of equal bytes. -/
def block (v : UInt8) : DataBlock B := fun _ => v

/-- The L2's write-back of a dirty line of bytes `v` is served. -/
def writeBack (v : UInt8) : List (Label n B) :=
  [.home (.response
      { type := .MEMORY_DATA, Sender := .L2Cache, DataBlk := block v, Dirty := true }),
    .home (.memory { type := .MEMORY_WB, Sender := .L2Cache, DataBlk := block v }),
    .home (.memoryResponse (access .MEMORY_WB))]

/-- An L1 stores to the line; both caches give it up. -/
def storedAndWritten : List (Label 1 1) :=
  [.l1 0 (.cpu .ST id), .l2 (.request 0 (request .GETX (.L1Cache 0)))] ++
  fetchZeros .GETX ++
  [.l1 0 (.response (response .DATA .L2Cache) fun _ => block 1),
    .l2 (.unblock 0 (response .EXCLUSIVE_UNBLOCK (.L1Cache 0))),
    .l1 0 .replacement,
    .l2 (.request 0 { type := .PUTX, Requestor := .L1Cache 0, DataBlk := block 1, Dirty := true }),
    .l2 .replacement] ++
  writeBack 1

theorem no_lost_update_storedAndWritten :
    ∃ g, (protocol 1 1).Reach (fun g l => careful g l = true) g ∧
      g.home.dir.getState = .I ∧ g.latest = block 1 ∧ g.UpToDate := by
  have h : (((protocol 1 1).trace (fun g l => careful g l = true) (start fun _ => 0)
      storedAndWritten).any fun g => decide (g.home.dir.getState = .I ∧
        g.latest = block 1)) = true := by
    decide +kernel
  obtain ⟨g, hreach, hI, hl⟩ := Lib.Machine.trace_reaches (started _) h
  exact ⟨g, hreach, hI, hl, no_lost_update hreach⟩

/-- One L1 stores 1 and gives the line up; before its write-back arrives, the other has taken the
line over and stored 2.  The L2 recalls the line and takes the old write-back for the answer. -/
def oldValueWritten : List (Label 2 1) :=
  [.l1 1 (.cpu .ST id), .l1 0 (.cpu .ST id),
    .l2 (.request 1 (request .GETX (.L1Cache 1)))] ++
  fetchZeros .GETX ++
  [.l1 1 (.response (response .DATA .L2Cache) fun _ => block 1),
    .l2 (.unblock 1 (response .EXCLUSIVE_UNBLOCK (.L1Cache 1))),
    .l1 1 .replacement,
    .l2 (.request 0 (request .GETX (.L1Cache 0))),
    .l1 1 (.request (request .GETX (.L1Cache 0))),
    .l1 0 (.responseFromL1 1
      { type := .DATA, Sender := .L1Cache 1, DataBlk := block 1, Dirty := true } fun _ => block 2),
    .l2 (.unblock 0 (response .EXCLUSIVE_UNBLOCK (.L1Cache 0))),
    .l2 .replacement,
    .l2 (.request 1
      { type := .PUTX, Requestor := .L1Cache 1, DataBlk := block 1, Dirty := true })] ++
  writeBack 1

/-- The memory ends up with the old value. -/
theorem old_value_written : ∃ g, (protocol 2 1).Reach (fun _ l => noDMAWrite l = true) g ∧
    g.home.memory = block 1 ∧ g.latest = block 2 ∧ ¬ g.UpToDate := by
  have h : (((protocol 2 1).trace (fun _ l => noDMAWrite l = true) (start fun _ => 0)
      oldValueWritten).any fun g => decide (g.home.memory = block 1 ∧ g.latest = block 2 ∧
        ¬ g.UpToDate)) = true := by decide +kernel
  exact Lib.Machine.trace_reaches (started _) h

-- the line is dirty and exclusive after a load-linked has taken it over from a writer, and is then
-- acknowledged without its data
example : (((protocol 2 1).trace
    (fun g l => recallsAlone g l = true ∧ meetsLine g l = true ∧ noDMAWrite l = true)
    (start fun _ => 0)
    ([.l1 0 (.cpu .ST id), .l1 1 (.cpu .Load_Linked id),
      .l2 (.request 0 (request .GETX (.L1Cache 0)))] ++
    fetchZeros .GETX ++
    [.l1 0 (.response (response .DATA .L2Cache) fun _ => block 1),
      .l2 (.unblock 0 (response .EXCLUSIVE_UNBLOCK (.L1Cache 0))),
      .l2 (.request 1 (request .GETX (.L1Cache 1))),
      .l1 0 (.request (request .GETX (.L1Cache 1))),
      .l1 1 (.responseFromL1 0
        { type := .DATA, Sender := .L1Cache 0, DataBlk := block 1, Dirty := true } id),
      .l2 (.unblock 1 (response .EXCLUSIVE_UNBLOCK (.L1Cache 1))),
      .l1 1 .llscTimeout,
      .l2 .replacement,
      .l1 1 (.request (request .INV .L2Cache)),
      .l2 (.response 1 (invAck 1))])).any fun g => decide (¬ g.UpToDate)) = true := by
  decide +kernel

end

end SttRuby.Protocol
