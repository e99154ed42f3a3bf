import Mathlib.Data.Finset.Card
import Mathlib.Data.Multiset.MapFold
import SttRuby.Protocol.L1Cache
import SttRuby.Protocol.L2Cache

/-!
# Protocol — AckCount

The acknowledgements of a store that the L2 serves in `SS`.  The requestor's counter starts at 0;
the L2's response carries the negative of the number of acknowledgements to come, each of which
carries 1, and whichever message brings the counter to 0 is taken for the last.

`Collecting s p l` is a requestor in state `s` with the counter at `p`.  Its four steps are
`Collecting.ack`, `Collecting.data` and their final forms; `acks_before` and `acks_after` follow a
list of messages up to the L2's response and from it on.  `Waits` is a requestor from its request
on, and `responses_counted` puts requestor, bank and sharers together, for a requestor in any
state, prefetches included, that takes the responses one after the other.  They are counted right
exactly if the bank answers an upgrade as one when the requestor still has its copy; otherwise they
end in `IM` (`acks_refused`) or in `SM` (`data_refused`) without the last event.
-/

namespace SttRuby.Protocol.L1Cache

variable {n B : ℕ} {me : Fin n} {w : DataBlock B → DataBlock B} {l l' : Line B} {s : State} {p : ℤ}
  {m : ResponseMsg n B}

/-- The events of the last message of a transaction. -/
def Event.allAcks : Event → Bool
  | .Data_all_Acks | .Ack_all | .LLSC_Data_all_Acks | .LLSC_Ack_all => true
  | _ => false

/-- A response at an L1: the state it finds and the event it triggers there, and the line after. -/
def receive (me : Fin n) (store : DataBlock B → DataBlock B) (l : Line B) (m : ResponseMsg n B) :
    Option ((State × Event) × Line B) :=
  (responseEvent l m).bind fun e =>
    (doTransition me { response := some m, store := store } e l).map fun c =>
      ((l.getState, e), c.line)

/-- Responses in the order of their arrival, with the event of each. -/
def receiveAll (me : Fin n) (store : DataBlock B → DataBlock B) :
    Line B → List (ResponseMsg n B) → Option (List (State × Event) × Line B)
  | l, [] => some ([], l)
  | l, m :: ms =>
      (receive me store l m).bind fun (x, l') =>
        (receiveAll me store l' ms).map fun (xs, l'') => (x :: xs, l'')

/-! ### The requestor -/

/-- A requestor in state `s` whose counter is at `p`. -/
structure Collecting (s : State) (p : ℤ) (l : Line B) : Prop where
  entry : ∃ e, l.entry = some e
  tbe : ∃ t, l.tbe = some t ∧ t.TBEState = s ∧ t.pendingAcks = p ∧
    (t.isLoadLinked = true → l.llscLock = false ∧ (s = .IM ∨ s = .SM))

/-- The requestor waits for its data, or has them. -/
def State.lacksData (s : State) : Prop := s = .IM ∨ s = .PF_IM

def State.hasData (s : State) : Prop := s = .SM ∨ s = .PF_SM

theorem receive_eq (me : Fin n) (w : DataBlock B → DataBlock B) {e : Event} {s' : State}
    {as : List Action} {c : Ctx n B} (hs : l.getState = s) (hev : responseEvent l m = some e)
    (htr : transition s e = some (s', as))
    (hp : Lib.perform (exec me { response := some m, store := w }) as { line := l } = some c) :
    receive me w l m = some ((s, e), c.line.setState s') := by
  subst hs
  simp [receive, doTransition, hev, htr, hp]

theorem receive_none (me : Fin n) (w : DataBlock B → DataBlock B) {e : Event}
    (hs : l.getState = s) (hev : responseEvent l m = some e) (htr : transition s e = none) :
    receive me w l m = none := by
  subst hs
  simp [receive, doTransition, hev, htr]

section Steps

variable (me : Fin n) (w : DataBlock B → DataBlock B)

/-- An acknowledgement that is not the last. -/
theorem Collecting.ack (h : Collecting s p l) (hs : s.lacksData ∨ s.hasData)
    (hm : m.type = .ACK) (hp : p - m.AckCount ≠ 0) :
    ∃ l', receive me w l m = some ((s, .Ack), l') ∧ Collecting s (p - m.AckCount) l' := by
  obtain ⟨en, tb, lk⟩ := l
  obtain ⟨⟨e, rfl⟩, t, rfl, rfl, rfl, hll⟩ := h
  have hev : responseEvent ⟨some e, some t, lk⟩ m = some .Ack := by simp [responseEvent, hm, hp]
  have htr : transition t.TBEState .Ack =
      some (t.TBEState, [.q_updateAckCount, .o_popIncomingResponseQueue]) := by
    rcases hs with (hs | hs) | (hs | hs) <;> rw [hs] <;> rfl
  exact ⟨_, receive_eq me w rfl hev htr rfl, ⟨_, rfl⟩, _, rfl, rfl, rfl, hll⟩

/-- Data that are not the last message. -/
theorem Collecting.data (h : Collecting s p l) (hs : s.lacksData) (hm : m.type = .DATA)
    (hp : p - m.AckCount ≠ 0) :
    ∃ s' l', receive me w l m = some ((s, .Data), l') ∧ Collecting s' (p - m.AckCount) l' ∧
      s'.hasData := by
  obtain ⟨en, tb, lk⟩ := l
  obtain ⟨⟨e, rfl⟩, t, rfl, hst, rfl, hll⟩ := h
  rcases hs with rfl | rfl
  · have hr := receive_eq me w (l := ⟨some e, some t, lk⟩) (m := m) (e := .Data) hst
      (by simp [responseEvent, hm, hp, Line.getState, hst]) rfl rfl
    exact ⟨.SM, _, hr, ⟨⟨_, rfl⟩, _, rfl, rfl, rfl, fun h => ⟨(hll h).1, .inr rfl⟩⟩, .inl rfl⟩
  · have hr := receive_eq me w (l := ⟨some e, some t, lk⟩) (m := m) (e := .Data) hst
      (by simp [responseEvent, hm, hp, Line.getState, hst]) rfl rfl
    -- a prefetch is not load-linked
    exact ⟨.PF_SM, _, hr, ⟨⟨_, rfl⟩, _, rfl, rfl, rfl, fun h => by simpa using (hll h).2⟩, .inr rfl⟩

/-- The transaction ends with the message: all acks have come, and the TBE is gone. -/
def Ends (l : Line B) (m : ResponseMsg n B) : Prop :=
  ∃ x l', receive me w l m = some (x, l') ∧ x.2.allAcks = true ∧
    (x.1 = .IM → x.2 ≠ .Ack_all ∧ x.2 ≠ .LLSC_Ack_all) ∧ l'.tbe = none

/-- Data that are the last message. -/
theorem Collecting.data_last (h : Collecting s p l) (hs : s.lacksData) (hm : m.type = .DATA)
    (hp : p - m.AckCount = 0) : Ends me w l m := by
  obtain ⟨en, tb, lk⟩ := l
  obtain ⟨⟨e, rfl⟩, t, rfl, hst, rfl, hll⟩ := h
  have hev : responseEvent ⟨some e, some t, lk⟩ m =
      some (if t.isLoadLinked then .LLSC_Data_all_Acks else .Data_all_Acks) := by
    rcases hs with rfl | rfl <;> simp [responseEvent, hm, hp, Line.getState, hst]
  cases hlk : t.isLoadLinked with
  | false =>
      rw [hlk] at hev
      rcases hs with rfl | rfl
      · exact ⟨_, _, receive_eq me w hst hev rfl rfl, rfl, by simp, rfl⟩
      · exact ⟨_, _, receive_eq me w hst hev rfl rfl, rfl, by simp, rfl⟩
  | true =>
      rw [hlk] at hev
      obtain ⟨hlock, hlinked⟩ := hll hlk
      obtain rfl : lk = false := hlock
      rcases hs with rfl | rfl
      · exact ⟨_, _, receive_eq me w hst hev rfl rfl, rfl, by simp, rfl⟩
      · simp at hlinked

/-- An acknowledgement that is the last message. -/
theorem Collecting.ack_last (h : Collecting s p l) (hs : s.hasData) (hm : m.type = .ACK)
    (hp : p - m.AckCount = 0) : Ends me w l m := by
  obtain ⟨en, tb, lk⟩ := l
  obtain ⟨⟨e, rfl⟩, t, rfl, hst, rfl, hll⟩ := h
  have hev : responseEvent ⟨some e, some t, lk⟩ m =
      some (if t.isLoadLinked then .LLSC_Ack_all else .Ack_all) := by simp [responseEvent, hm, hp]
  cases hlk : t.isLoadLinked with
  | false =>
      rw [hlk] at hev
      rcases hs with rfl | rfl
      · exact ⟨_, _, receive_eq me w hst hev rfl rfl, rfl, nofun, rfl⟩
      · exact ⟨_, _, receive_eq me w hst hev rfl rfl, rfl, nofun, rfl⟩
  | true =>
      rw [hlk] at hev
      obtain ⟨hlock, hlinked⟩ := hll hlk
      obtain rfl : lk = false := hlock
      rcases hs with rfl | rfl
      · exact ⟨_, _, receive_eq me w hst hev rfl rfl, rfl, nofun, rfl⟩
      · simp at hlinked

end Steps

/-! ### Lists of responses -/

/-- The last of `ms`, and no message before it, triggers an event of all acks; none triggers one
of `Ack` in `IM`. -/
def LastEnds (me : Fin n) (w : DataBlock B → DataBlock B) (l : Line B)
    (ms : List (ResponseMsg n B)) : Prop :=
  ∃ xs x l', receiveAll me w l ms = some (xs ++ [x], l') ∧ (∀ y ∈ xs, y.2.allAcks = false) ∧
    x.2.allAcks = true ∧ (∀ y ∈ xs ++ [x], y.1 = .IM → y.2 ≠ .Ack_all ∧ y.2 ≠ .LLSC_Ack_all) ∧
    l'.tbe = none

theorem Ends.singleton (h : Ends me w l m) : LastEnds me w l [m] := by
  obtain ⟨x, l', hr, hx, him, ht⟩ := h
  exact ⟨[], x, l', by simp [receiveAll, hr], by simp, hx, by simpa using him, ht⟩

theorem LastEnds.cons {x : State × Event} {ms : List (ResponseMsg n B)}
    (hr : receive me w l m = some (x, l')) (hx : x.2 = .Ack ∨ x.2 = .Data)
    (h : LastEnds me w l' ms) : LastEnds me w l (m :: ms) := by
  obtain ⟨xs, z, l'', hall, hxs, hz, him, ht⟩ := h
  refine ⟨x :: xs, z, l'', by simp [receiveAll, hr, hall], ?_, hz, ?_, ht⟩
  · rw [List.forall_mem_cons]
    exact ⟨by rcases hx with hx | hx <;> rw [hx] <;> rfl, hxs⟩
  · rw [List.cons_append, List.forall_mem_cons]
    exact ⟨fun _ => by rcases hx with hx | hx <;> simp [hx], him⟩

/-- An invalidation acknowledgement. -/
def IsAck (m : ResponseMsg n B) : Prop := m.type = .ACK ∧ m.AckCount = 1

/-- From the L2's response on, the counter is the number of acknowledgements left. -/
theorem acks_after (hs : s.hasData) {ms : List (ResponseMsg n B)} (hms : ∀ m ∈ ms, IsAck m)
    (hne : ms ≠ []) (h : Collecting s ms.length l) : LastEnds me w l ms := by
  induction ms generalizing l with
  | nil => exact absurd rfl hne
  | cons m ms ih =>
      obtain ⟨⟨hm, hcount⟩, hms⟩ := List.forall_mem_cons.mp hms
      have hleft : ((m :: ms).length : ℤ) - m.AckCount = ms.length := by
        rw [hcount, List.length_cons]; omega
      rcases eq_or_ne ms [] with rfl | hne
      · exact (h.ack_last me w hs hm hleft).singleton
      · have hpos : 0 < ms.length := List.length_pos_of_ne_nil hne
        obtain ⟨l', hr, h'⟩ := h.ack me w (.inr hs) hm (by omega)
        exact (ih hms hne (hleft ▸ h')).cons hr (.inl rfl)

/-- Up to the L2's response, the counter is not above 0. -/
theorem acks_before {r : ResponseMsg n B} {N : ℕ} (hN : r.AckCount = -N)
    (hkind : s.lacksData ∧ r.type = .DATA ∨ s.hasData ∧ r.type = .ACK)
    {pre post : List (ResponseMsg n B)} (hpre : ∀ m ∈ pre, IsAck m) (hpost : ∀ m ∈ post, IsAck m)
    (hle : pre.length + post.length ≤ N)
    (h : Collecting s (pre.length + post.length - N) l) : LastEnds me w l (pre ++ r :: post) := by
  induction pre generalizing l with
  | nil =>
      have hleft : (([] : List (ResponseMsg n B)).length : ℤ) + post.length - N - r.AckCount =
          post.length := by rw [hN, List.length_nil]; omega
      rcases eq_or_ne post [] with rfl | hne
      · rcases hkind with ⟨hs, ht⟩ | ⟨hs, ht⟩
        · exact (h.data_last me w hs ht hleft).singleton
        · exact (h.ack_last me w hs ht hleft).singleton
      · have hpos : 0 < post.length := List.length_pos_of_ne_nil hne
        rcases hkind with ⟨hs, ht⟩ | ⟨hs, ht⟩
        · obtain ⟨s', l', hr, h', hs'⟩ := h.data me w hs ht (by omega)
          exact (acks_after hs' hpost hne (hleft ▸ h')).cons hr (.inr rfl)
        · obtain ⟨l', hr, h'⟩ := h.ack me w (.inr hs) ht (by omega)
          exact (acks_after hs hpost hne (hleft ▸ h')).cons hr (.inl rfl)
  | cons m pre ih =>
      obtain ⟨⟨hm, hcount⟩, hpre⟩ := List.forall_mem_cons.mp hpre
      rw [List.length_cons] at hle h
      have hs : s.lacksData ∨ s.hasData := hkind.imp And.left And.left
      obtain ⟨l', hr, h'⟩ := h.ack me w hs hm (by omega)
      refine (ih hpre (by omega) ?_).cons hr (.inl rfl)
      convert h' using 1
      omega

/-! ### An answer of the other kind -/

/-- An upgrade that has lost its copy takes acks only: the last is refused. -/
theorem acks_refused {ms : List (ResponseMsg n B)} (hms : ∀ m ∈ ms, m.type = .ACK)
    (h : Collecting .IM p l) {xs : List (State × Event)}
    (hr : receiveAll me w l ms = some (xs, l')) : ∀ x ∈ xs, x.2.allAcks = false := by
  induction ms generalizing l p xs with
  | nil =>
      cases hr
      exact nofun
  | cons m ms ih =>
      obtain ⟨hm, hms⟩ := List.forall_mem_cons.mp hms
      obtain ⟨⟨y, l₁⟩, hy, hr⟩ := Option.bind_eq_some_iff.mp hr
      obtain ⟨⟨ys, l₂⟩, hys, heq⟩ := Option.map_eq_some_iff.mp hr
      cases heq
      rcases eq_or_ne (p - m.AckCount) 0 with hp | hp
      · -- an event of all acks has no transition in `IM`
        obtain ⟨en, tb, lk⟩ := l
        obtain ⟨-, t, rfl, hst, rfl, -⟩ := h
        have hev : responseEvent ⟨en, some t, lk⟩ m =
            some (if t.isLoadLinked then .LLSC_Ack_all else .Ack_all) := by
          simp [responseEvent, hm, hp]
        have htr : transition .IM (if t.isLoadLinked then .LLSC_Ack_all else .Ack_all) = none := by
          cases t.isLoadLinked <;> rfl
        have hnone : receive me w ⟨en, some t, lk⟩ m = none := receive_none me w hst hev htr
        cases hnone.symm.trans hy
      · obtain ⟨l₃, hr₃, h₃⟩ := h.ack me w (.inl (.inl rfl)) hm hp
        cases hr₃.symm.trans hy
        exact List.forall_mem_cons.mpr ⟨rfl, ih hms h₃ hys⟩

/-- An upgrade that has kept its copy takes no data. -/
theorem data_refused {r : ResponseMsg n B} (hr : r.type = .DATA)
    {pre post : List (ResponseMsg n B)} (hpre : ∀ m ∈ pre, IsAck m) (h : Collecting .SM p l)
    (hp : p ≤ 0) : receiveAll me w l (pre ++ r :: post) = none := by
  induction pre generalizing l p with
  | nil =>
      obtain ⟨en, tb, lk⟩ := l
      obtain ⟨-, t, rfl, hst, rfl, -⟩ := h
      obtain ⟨e, hev, htr⟩ : ∃ e, responseEvent ⟨en, some t, lk⟩ r = some e ∧
          transition .SM e = none := by
        simp only [responseEvent, hr, Line.getState, hst, Option.map_some]
        refine ⟨_, rfl, ?_⟩
        split_ifs <;> rfl
      have hnone : receive me w ⟨en, some t, lk⟩ r = none := receive_none me w hst hev htr
      rw [List.nil_append, receiveAll, hnone, Option.bind_none]
  | cons m pre ih =>
      obtain ⟨⟨hm, hcount⟩, hpre⟩ := List.forall_mem_cons.mp hpre
      obtain ⟨l₁, hr₁, h₁⟩ := h.ack me w (.inr (.inl rfl)) hm (by omega)
      simp [receiveAll, hr₁, ih hpre h₁ (by omega)]

/-! ### The sharers -/

/-- The actions of an invalidation. -/
theorem inv_actions {s' : State} {as : List Action} (h : transition s .Inv = some (s', as)) :
    ∀ a ∈ as, a ∈ [.forward_eviction_to_cpu, .fi_sendInvAck, .f_sendDataToL2,
      .ft_sendDataToL2_fromTBE, .l_popRequestQueue, .z_stallAndWaitL1RequestQueue] := by
  have hc := Lib.declared_check (P := fun _ e _ as => e != .Inv || as.all
    ([.forward_eviction_to_cpu, .fi_sendInvAck, .f_sendDataToL2, .ft_sendDataToL2_fromTBE,
      .l_popRequestQueue, .z_stallAndWaitL1RequestQueue].contains ·)) (by decide +kernel) h
  simpa [List.all_eq_true] using hc

/-- What an invalidated L1 answers to an L1 is an acknowledgement. -/
theorem inv_answer {inp : In n B} {c : Ctx n B} (h : doTransition me inp .Inv l = some c)
    {i : Fin n} {a : ResponseMsg n B} (ha : (.L1Cache i, a) ∈ c.responseFromL1Cache) :
    IsAck a := by
  obtain ⟨⟨s', as⟩, htr, hmap⟩ := Option.bind_eq_some_iff.mp h
  obtain ⟨c', hp, rfl⟩ := Option.map_eq_some_iff.mp hmap
  have hall : ∀ x ∈ c'.responseFromL1Cache, x.1 ≠ .L2Cache → IsAck x.2 := by
    refine Lib.perform_induct_mem
      (P := fun c : Ctx n B => ∀ x ∈ c.responseFromL1Cache, x.1 ≠ .L2Cache → IsAck x.2)
      (fun a ha c c' hc he => ?_) (by simp) hp
    have ha := inv_actions htr a ha
    simp only [List.mem_cons, List.not_mem_nil, or_false] at ha
    rcases ha with rfl | rfl | rfl | rfl | rfl | rfl <;>
      simp only [exec, Option.map_eq_some_iff, Option.some.injEq] at he <;>
      grind [Ctx.respond, IsAck]
  exact hall _ ha (by simp)

/-! ### From the request on -/

/-- The events of responses. -/
def Event.fromResponse : Event → Bool
  | .Data | .Data_Exclusive | .DataS_fromL1 | .Data_all_Acks | .Ack | .Ack_all | .WB_Ack
  | .LLSC_Data_all_Acks | .LLSC_Ack_all => true
  | _ => false

/-- The L1 has sent the request `m`, and no response has come since. -/
inductive Waits (me : Fin n) (m : RequestMsg n B) : Line B → Prop where
  | issue {inp : In n B} {e : Event} {l : Line B} {c : Ctx n B} (hlock : l.llscLock = false)
      (h : doTransition me inp e l = some c) (hm : m ∈ c.requestFromL1Cache) : Waits me m c.line
  | wait {inp : In n B} {e : Event} {l : Line B} {c : Ctx n B} (hw : Waits me m l)
      (he : e.fromResponse = false) (h : doTransition me inp e l = some c) : Waits me m c.line

/-- The states of an L1 that waits for an answer to a request for ownership. -/
def State.waits (t : CoherenceRequestType) (s : State) : Bool :=
  match t with
  | .GETX => s == .IM || s == .PF_IM
  | .UPGRADE => s == .IM || s == .SM
  | _ => false

/-- The actions that issue a request for ownership. -/
def Action.issues : Action → Option CoherenceRequestType
  | .b_issueGETX | .pb_issuePfGETX => some .GETX
  | .c_issueUPGRADE => some .UPGRADE
  | _ => none

/-- The actions of an L1 that waits. -/
def Action.idle (a : Action) : Bool :=
  [.z_stallAndWaitMandatoryQueue, .z_stallAndWaitOptionalQueue, .pq_popPrefetchQueue,
    .fi_sendInvAck, .l_popRequestQueue, .forward_eviction_to_cpu, .uu_profileDataMiss,
    .ppm_observePfMiss, .ll_markLoadLinked, .k_popMandatoryQueue].contains a

/-- What a rule that issues a request for ownership does. -/
theorem issue_actions {e : Event} {s' : State} {as : List Action}
    (h : transition s e = some (s', as)) :
    (∀ a ∈ as, a.issues = none) ∨
    (s', as) ∈ [(State.IM, [.oo_allocateL1DCacheBlock, .i_allocateTBE, .b_issueGETX,
        .uu_profileDataMiss, .po_observeMiss, .k_popMandatoryQueue]),
      (.IM, [.oo_allocateL1DCacheBlock, .i_allocateTBE, .ll_markLoadLinked, .b_issueGETX,
        .uu_profileDataMiss, .po_observeMiss, .k_popMandatoryQueue]),
      (.PF_IM, [.oo_allocateL1DCacheBlock, .i_allocateTBE, .pb_issuePfGETX,
        .pq_popPrefetchQueue])] ∨
    s = .S ∧ (s', as) ∈ [(State.SM, [.i_allocateTBE, .c_issueUPGRADE, .uu_profileDataMiss,
        .k_popMandatoryQueue]),
      (.SM, [.i_allocateTBE, .ll_markLoadLinked, .c_issueUPGRADE, .uu_profileDataMiss,
        .k_popMandatoryQueue])] := by
  have hc := Lib.declared_check (P := fun s _ s' as => as.all (·.issues.isNone) ||
    ([(State.IM, [.oo_allocateL1DCacheBlock, .i_allocateTBE, .b_issueGETX,
        .uu_profileDataMiss, .po_observeMiss, .k_popMandatoryQueue]),
      (.IM, [.oo_allocateL1DCacheBlock, .i_allocateTBE, .ll_markLoadLinked, .b_issueGETX,
        .uu_profileDataMiss, .po_observeMiss, .k_popMandatoryQueue]),
      (.PF_IM, [.oo_allocateL1DCacheBlock, .i_allocateTBE, .pb_issuePfGETX,
        .pq_popPrefetchQueue])].contains (s', as)) ||
    s == .S && [(State.SM, [.i_allocateTBE, .c_issueUPGRADE, .uu_profileDataMiss,
        .k_popMandatoryQueue]),
      (.SM, [.i_allocateTBE, .ll_markLoadLinked, .c_issueUPGRADE, .uu_profileDataMiss,
        .k_popMandatoryQueue])].contains (s', as)) (by decide +kernel) h
  simpa [List.all_eq_true, or_assoc] using hc

/-- What an event other than a response does to an L1 that waits. -/
theorem wait_actions {t : CoherenceRequestType} {e : Event} {s' : State} {as : List Action}
    (hs : s.waits t = true) (he : e.fromResponse = false) (h : transition s e = some (s', as)) :
    (∀ a ∈ as, a.idle = true) ∧ s'.waits t = true ∧
      (.ll_markLoadLinked ∈ as ∨ s ≠ .PF_IM → s' ≠ .PF_IM) := by
  have hc := Lib.declared_check (P := fun s e s' as =>
    [CoherenceRequestType.GETX, .UPGRADE].all fun t => !s.waits t || e.fromResponse ||
      (as.all Action.idle && s'.waits t && (!(as.contains .ll_markLoadLinked || s != .PF_IM) ||
        s' != .PF_IM))) (by decide +kernel) h
  have ht : t = .GETX ∨ t = .UPGRADE := by cases t <;> simp [State.waits] at hs ⊢
  rcases ht with rfl | rfl <;> simp [hs, he] at hc <;> grind

/-- The L1 that waits: its entry and its TBE, with the counter at 0. -/
structure Pending (t : CoherenceRequestType) (l : Line B) : Prop where
  entry : ∃ e, l.entry = some e
  lock : l.llscLock = false
  tbe : ∃ b, l.tbe = some b ∧ b.TBEState.waits t = true ∧ b.pendingAcks = 0 ∧
    (b.isLoadLinked = true → b.TBEState ≠ .PF_IM)

theorem newTBE_fresh (e : Option (Entry B)) :
    (newTBE e).pendingAcks = 0 ∧ (newTBE e).isLoadLinked = false := by
  unfold newTBE
  split
  · split_ifs <;> exact ⟨rfl, rfl⟩
  · exact ⟨rfl, rfl⟩

theorem issue_pending {r : RequestMsg n B} (ht : r.type = .GETX ∨ r.type = .UPGRADE) {inp : In n B}
    {e : Event} {c : Ctx n B} (hlock : l.llscLock = false) (h : doTransition me inp e l = some c)
    (hr : r ∈ c.requestFromL1Cache) : Pending r.type c.line := by
  obtain ⟨⟨s', as⟩, htr, hmap⟩ := Option.bind_eq_some_iff.mp h
  obtain ⟨c', hp, rfl⟩ := Option.map_eq_some_iff.mp hmap
  obtain ⟨en, tb, lk⟩ := l
  rcases issue_actions htr with hnone | hget | ⟨hS, hup⟩
  · -- no request for ownership is sent
    have hall : ∀ x ∈ c'.requestFromL1Cache, x.type ≠ .GETX ∧ x.type ≠ .UPGRADE := by
      refine Lib.perform_induct_mem
        (P := fun c : Ctx n B => ∀ x ∈ c.requestFromL1Cache, x.type ≠ .GETX ∧ x.type ≠ .UPGRADE)
        (fun a ha c c' hc he => ?_) (by simp) hp
      have ha := hnone a ha
      cases a <;> simp only [Action.issues, reduceCtorEq] at ha <;>
        simp only [exec, Option.bind_eq_some_iff, Option.map_eq_some_iff,
          Option.some.injEq] at he <;>
        grind [Ctx.request, Ctx.respond, Ctx.unblock, Ctx.setEntry, Ctx.setTBE, Ctx.setLock]
    have := hall r hr
    tauto
  · obtain rfl : lk = false := hlock
    simp only [List.mem_cons, List.not_mem_nil, or_false, Prod.mk.injEq] at hget
    rcases tb with _ | t
    · rcases hget with ⟨rfl, rfl⟩ | ⟨rfl, rfl⟩ | ⟨rfl, rfl⟩ <;> cases hp <;>
        obtain rfl := List.mem_singleton.mp hr
      · exact ⟨by cases en <;> exact ⟨_, rfl⟩, rfl, _, rfl, rfl, (newTBE_fresh _).1, nofun⟩
      · exact ⟨by cases en <;> exact ⟨_, rfl⟩, rfl, _, rfl, rfl, (newTBE_fresh _).1, nofun⟩
      · exact ⟨by cases en <;> exact ⟨_, rfl⟩, rfl, _, rfl, rfl, (newTBE_fresh _).1,
          fun hl => absurd ((newTBE_fresh _).2.symm.trans hl) (by decide)⟩
    · rcases hget with ⟨rfl, rfl⟩ | ⟨rfl, rfl⟩ | ⟨rfl, rfl⟩ <;> cases hp
  · obtain rfl : lk = false := hlock
    simp only [List.mem_cons, List.not_mem_nil, or_false, Prod.mk.injEq] at hup
    rcases tb with _ | t
    · rcases en with _ | e
      · cases hS
      · rcases hup with ⟨rfl, rfl⟩ | ⟨rfl, rfl⟩ <;> cases hp <;>
          obtain rfl := List.mem_singleton.mp hr <;>
          exact ⟨⟨_, rfl⟩, rfl, _, rfl, rfl, (newTBE_fresh _).1, nofun⟩
    · rcases hup with ⟨rfl, rfl⟩ | ⟨rfl, rfl⟩ <;> cases hp

theorem wait_pending {t : CoherenceRequestType} (hl : Pending t l) {inp : In n B} {e : Event}
    {c : Ctx n B} (he : e.fromResponse = false) (h : doTransition me inp e l = some c) :
    Pending t c.line := by
  obtain ⟨⟨s', as⟩, htr, hmap⟩ := Option.bind_eq_some_iff.mp h
  obtain ⟨c', hp, rfl⟩ := Option.map_eq_some_iff.mp hmap
  obtain ⟨hen, hlock, b, hb, hw, hacks, hll⟩ := hl
  have hst : l.getState = b.TBEState := by simp [Line.getState, hb]
  rw [hst] at htr
  obtain ⟨hidle, hw', hpf⟩ := wait_actions hw he htr
  obtain ⟨⟨e', he'⟩, hlock', b', hb', hacks', hll'⟩ := Lib.perform_induct_mem
    (P := fun c : Ctx n B => (∃ e, c.line.entry = some e) ∧ c.line.llscLock = false ∧
      ∃ b', c.line.tbe = some b' ∧ b'.pendingAcks = 0 ∧
        (b'.isLoadLinked = true → .ll_markLoadLinked ∈ as ∨ b.isLoadLinked = true))
    (fun a ha c c' hc he => by
      have hidle := hidle a ha
      simp only [Action.idle, List.contains_iff_mem, List.mem_cons, List.not_mem_nil,
        or_false] at hidle
      rcases hidle with rfl | rfl | rfl | rfl | rfl | rfl | rfl | rfl | rfl | rfl <;>
        simp only [exec, Option.map_eq_some_iff, Option.some.injEq] at he <;>
        grind [Ctx.respond, Ctx.setTBE])
    ⟨hen, hlock, b, hb, hacks, .inr⟩ hp
  refine ⟨⟨_, by simp [Line.setState, he']; rfl⟩, hlock', { b' with TBEState := s' },
    by simp [Line.setState, hb'], hw', hacks', fun hl => hpf ((hll' hl).imp_right hll)⟩

/-- A request for ownership that waits has its counter at 0. -/
theorem Waits.pending {r : RequestMsg n B} (ht : r.type = .GETX ∨ r.type = .UPGRADE)
    (h : Waits me r l) : Pending r.type l := by
  induction h with
  | issue hlock h hr => exact issue_pending ht hlock h hr
  | wait _ he h ih => exact wait_pending ih he h

theorem Pending.collecting {t : CoherenceRequestType} (h : Pending t l) :
    Collecting l.getState 0 l ∧ l.getState.waits t = true := by
  obtain ⟨hen, hlock, b, hb, hw, hacks, hll⟩ := h
  have hst : l.getState = b.TBEState := by simp [Line.getState, hb]
  rw [hst]
  refine ⟨⟨hen, b, hb, rfl, hacks, fun h => ⟨hlock, ?_⟩⟩, hw⟩
  have hne := hll h
  cases t <;> simp [State.waits] at hw <;> tauto

end SttRuby.Protocol.L1Cache

namespace SttRuby.Protocol

variable {n B : ℕ}

/-! ### The bank -/

/-- What the bank answers a request for ownership that it serves in `SS`. -/
theorem L2Cache.serve_ownership {l : Line n B} {m : RequestMsg n B} {i : Fin n} {ev : Event}
    {c : Ctx n B} (hs : l.getState = .SS) (hm : m.Requestor = .L1Cache i)
    (hev : requestEvent l m = some ev) (hserve : ev = .L1_GETX ∨ ev = .L1_UPGRADE)
    (h : doTransition { request := some m } ev l = some c) {e : Entry n B} (he : l.entry = some e) :
    (m.type = .GETX ∨ m.type = .UPGRADE) ∧ (ev = .L1_UPGRADE → m.type = .UPGRADE) ∧
    ∃ r, c.responseToL1 i = [r] ∧ r.AckCount = -((e.Sharers.erase i).card : ℤ) ∧
      r.type = if ev = .L1_UPGRADE then .ACK else .DATA := by
  have htype : (m.type = .GETX ∨ m.type = .UPGRADE) ∧
      (ev = .L1_UPGRADE → m.type = .UPGRADE ∧ i ∈ e.Sharers) := by
    simp only [requestEvent, hm, MachineID.l1Cache, Option.bind_some, he, replacementEvent] at hev
    cases ht : m.type <;> simp [L1Cache_request_type_to_event, ht] at hev <;> grind
  obtain ⟨hty, hmem⟩ := htype
  refine ⟨hty, fun h => (hmem h).1, ?_⟩
  rcases hserve with rfl | rfl
  · have htr : transition l.getState .L1_GETX = some (.SS_MB, [.d_sendDataToRequestor,
        .fwm_sendFwdInvToSharersMinusRequestor, .set_setMRU, .uu_profileHit,
        .jj_popL1RequestQueue]) := by rw [hs]; rfl
    simp [doTransition, htr, Lib.perform, exec, In.requestor, hm, MachineID.l1Cache, he,
      Ctx.respond, Ctx.forward] at h
    subst h
    exact ⟨_, if_pos rfl, ackCount_eq _ _, rfl⟩
  · have htr : transition l.getState .L1_UPGRADE = some (.SS_MB,
        [.fwm_sendFwdInvToSharersMinusRequestor, .ts_sendInvAckToUpgrader, .set_setMRU,
         .uu_profileHit, .jj_popL1RequestQueue]) := by rw [hs]; rfl
    have hcard := Finset.card_erase_add_one (hmem rfl).2
    simp [doTransition, htr, Lib.perform, exec, In.requestor, hm, MachineID.l1Cache, he,
      Ctx.respond, Ctx.forward] at h
    subst h
    refine ⟨_, if_pos rfl, ?_, rfl⟩
    simp only
    omega

/-! ### Requestor, bank and sharers -/

/-- An L1 that is sent one of the requests `invs` answers `i` with `a`. -/
def L1Cache.Answers (me : Fin n) (invs : List (RequestMsg n B)) (i : Fin n)
    (a : ResponseMsg n B) : Prop :=
  ∃ inv ∈ invs, ∃ l c, L1Cache.doTransition me { request := some inv } .Inv l = some c ∧
    (.L1Cache i, a) ∈ c.responseFromL1Cache

/-- **Responses are counted in any order.**  The bank serves in `SS` the GETX or UPGRADE that L1 `i`
has sent, and `i` receives the bank's response and an answer from each other sharer, whatever the
sharers and in whatever order.  The last message and no other triggers an event of all acks, no
`Ack_all` is triggered in `IM`, every transition succeeds and the transaction is over, exactly if
the bank answers an upgrade as one when the requestor has kept its copy. -/
theorem responses_counted {l₂ : L2Cache.Line n B} {e : L2Cache.Entry n B} {m : RequestMsg n B}
    {i : Fin n} {ev : L2Cache.Event} {c₂ : L2Cache.Ctx n B} {l : L1Cache.Line B}
    {acks : Fin n → ResponseMsg n B} {ms : List (ResponseMsg n B)}
    (hSS : l₂.getState = .SS) (he : l₂.entry = some e) (hm : m.Requestor = .L1Cache i)
    (hev : L2Cache.requestEvent l₂ m = some ev) (hserve : ev = .L1_GETX ∨ ev = .L1_UPGRADE)
    (h₂ : L2Cache.doTransition { request := some m } ev l₂ = some c₂) (hl : L1Cache.Waits i m l)
    (hacks : ∀ j ∈ e.Sharers.erase i, L1Cache.Answers j (c₂.requestToL1 j) i (acks j))
    (hms : (ms : Multiset (ResponseMsg n B)) =
      (c₂.responseToL1 i : Multiset (ResponseMsg n B)) + (e.Sharers.erase i).val.map acks)
    (w : DataBlock B → DataBlock B) :
    L1Cache.LastEnds i w l ms ↔ (ev = .L1_UPGRADE ↔ l.getState = .SM) := by
  obtain ⟨htype, hup, r, hr, hcount, hrtype⟩ :=
    L2Cache.serve_ownership hSS hm hev hserve h₂ he
  obtain ⟨hcoll, hwaits⟩ := (hl.pending htype).collecting
  have hmem : r ∈ ms := by
    rw [← Multiset.mem_coe, hms, hr]
    simp
  obtain ⟨pre, post, rfl⟩ := List.append_of_mem hmem
  have hrest : ((pre ++ post : List (ResponseMsg n B)) : Multiset (ResponseMsg n B)) =
      (e.Sharers.erase i).val.map acks := by
    rw [hr, ← Multiset.coe_add, ← Multiset.cons_coe, Multiset.coe_singleton,
      Multiset.singleton_add, Multiset.add_cons, Multiset.cons_inj_right] at hms
    rw [← hms, Multiset.coe_add]
  have hall : ∀ a ∈ pre ++ post, L1Cache.IsAck a := by
    intro a ha
    rw [← Multiset.mem_coe, hrest, Multiset.mem_map] at ha
    obtain ⟨j, hj, rfl⟩ := ha
    obtain ⟨inv, -, l', c, hinv, hans⟩ := hacks j hj
    exact L1Cache.inv_answer hinv hans
  have hlen : pre.length + post.length = (e.Sharers.erase i).card := by
    rw [← List.length_append, ← Multiset.coe_card, hrest, Multiset.card_map, Finset.card_val]
  obtain ⟨hpre, hpost⟩ := List.forall_mem_append.mp hall
  constructor
  · rintro ⟨xs, x, l', hreceive, -, hx, -, -⟩
    constructor
    · intro hu
      -- the upgrader has lost its copy, and gets no data
      by_contra hne
      simp only [hup hu, L1Cache.State.waits, Bool.or_eq_true, beq_iff_eq] at hwaits
      rw [hwaits.resolve_right hne] at hcoll
      have hack : ∀ a ∈ pre ++ r :: post, a.type = .ACK := by
        simp only [List.forall_mem_append, List.forall_mem_cons]
        exact ⟨fun a ha => (hpre a ha).1, by rw [hrtype, if_pos hu], fun a ha => (hpost a ha).1⟩
      have hf := L1Cache.acks_refused hack hcoll hreceive x (by simp)
      rw [hf] at hx
      cases hx
    · intro hs
      -- the upgrader has its copy, and gets data
      by_contra hu
      rw [if_neg hu] at hrtype
      rw [hs] at hcoll
      rw [L1Cache.data_refused hrtype hpre hcoll le_rfl] at hreceive
      cases hreceive
  · intro hlisted
    have hkind : l.getState.lacksData ∧ r.type = .DATA ∨ l.getState.hasData ∧ r.type = .ACK := by
      by_cases hu : ev = .L1_UPGRADE
      · exact .inr ⟨.inl (hlisted.mp hu), by rw [hrtype, if_pos hu]⟩
      · refine .inl ⟨?_, by rw [hrtype, if_neg hu]⟩
        have hne : l.getState ≠ .SM := fun h => hu (hlisted.mpr h)
        rcases htype with ht | ht <;> simp [ht, L1Cache.State.waits] at hwaits
        · exact hwaits
        · exact .inl (hwaits.resolve_right hne)
    refine L1Cache.acks_before hcount hkind hpre hpost hlen.le ?_
    rw [← hlen]
    simpa using hcoll

/-- L1 0 stores to a line that 1 and 2 share; the bank's data come between their two acks. -/
theorem responses_counted_between :
    ∃ l : L1Cache.Line 1, L1Cache.Waits (0 : Fin 3) { type := .GETX, Requestor := .L1Cache 0 } l ∧
      L1Cache.LastEnds (0 : Fin 3) id l
        [{ type := .ACK, Sender := .L1Cache 2, AckCount := 1 },
          { type := .DATA, Sender := .L2Cache, AckCount := -2 },
          { type := .ACK, Sender := .L1Cache 1, AckCount := 1 }] := by
  let m : RequestMsg 3 1 := { type := .GETX, Requestor := .L1Cache 0 }
  let e : L2Cache.Entry 3 1 := { CacheState := .SS, Sharers := {1, 2} }
  obtain ⟨c, hc, hmc, hIM⟩ : ∃ c, L1Cache.doTransition (0 : Fin 3) {} .Store ({} : L1Cache.Line 1) =
      some c ∧ m ∈ c.requestFromL1Cache ∧ c.line.getState = .IM :=
    ⟨_, rfl, List.mem_singleton.mpr rfl, rfl⟩
  obtain ⟨c₂, h₂, hresp, hreq⟩ : ∃ c₂, L2Cache.doTransition { request := some m } .L1_GETX
        ⟨some e, none⟩ = some c₂ ∧
      c₂.responseToL1 0 = [{ type := .DATA, Sender := .L2Cache, AckCount := -2 }] ∧
      ∀ j ∈ e.Sharers.erase 0, c₂.requestToL1 j = [{ type := .INV, Requestor := .L1Cache 0 }] :=
    ⟨_, rfl, rfl, by decide⟩
  have hl : L1Cache.Waits 0 m c.line := .issue rfl hc hmc
  have hacks : ∀ j ∈ e.Sharers.erase 0, L1Cache.Answers j (c₂.requestToL1 j) 0
      { type := .ACK, Sender := .L1Cache j, AckCount := 1 } := fun j hj =>
    ⟨_, hreq j hj ▸ List.mem_singleton.mpr rfl, {}, _, rfl, List.mem_singleton.mpr rfl⟩
  refine ⟨c.line, hl, (responses_counted rfl rfl rfl rfl (.inl rfl) h₂ hl hacks ?_ id).mpr ?_⟩
  · rw [hresp]
    decide
  · simp [hIM]

end SttRuby.Protocol
