import Mathlib.Data.Option.Basic
import SttRuby.Protocol.L2Effect

/-!
# Protocol — Shape

The representation of a line at the L2, state by state.  A `Shape` says whether the line has an
entry and a TBE, and what is known of the sharers, the recorded requestors and the pending acks;
`State.shape` is the shape of every line in a state.  `Action.shape` is `exec` on shapes: what an
action leaves has the shape it computes (`exec_describes`), and an action that it lets through
fails no assertion on a line of that shape (`exec_succeeds`).

The table is then checked once (`table_shapes`): from the shape of its state every transition
goes through and leaves the shape of its next state, and one that starts an eviction with acks
leaves at least one pending.
-/

namespace SttRuby.Protocol.L2Cache

/-- What is known of the sharers of an entry. -/
inductive Sharing where
  | unknown | nobody | somebody | owner
  deriving DecidableEq

/-- What is known of the L1s recorded for a read. -/
inductive Readers where
  | unknown | nobody | one | somebody
  deriving DecidableEq

/-- What is known of a TBE: whether there is a writer recorded for sure, and a pending ack. -/
structure Pending where
  readers : Readers := .unknown
  writer : Bool := false
  acks : Bool := false
  deriving DecidableEq

structure Shape where
  entry : Option Sharing := none
  tbe : Option Pending := none
  deriving DecidableEq

/-- The shape of every line in a state. -/
def State.shape : State → Shape
  | .NP => {}
  | .SS => { entry := some .somebody }
  | .M => { entry := some .nobody }
  | .MT => { entry := some .owner }
  | .ISS => { entry := some .somebody, tbe := some { readers := .one } }
  | .IS => { entry := some .somebody, tbe := some { readers := .somebody } }
  | .IM => { entry := some .unknown, tbe := some { writer := true } }
  | .M_I | .MT_I | .MCT_I | .I_I | .S_I => { tbe := some {} }
  | .SS_MB | .MT_MB | .MT_IIB | .MT_SB => { entry := some .unknown }
  | .MT_IB => { entry := some .somebody }

/-- The states that wait for the acks of an eviction. -/
def State.awaitsAcks : State → Bool
  | .I_I | .S_I | .MT_I | .MCT_I => true
  | _ => false

/-- What is known of one is known of the other. -/
def Sharing.le (k k' : Sharing) : Bool :=
  k' = .unknown || k = k' || k = .owner && k' = .somebody

def Readers.le (k k' : Readers) : Bool :=
  k' = .unknown || k = k' || k = .one && k' = .somebody

def Pending.le (x y : Pending) : Bool :=
  x.readers.le y.readers && (!y.writer || x.writer) && (!y.acks || x.acks)

def Shape.le (x y : Shape) : Bool :=
  (match x.entry, y.entry with
    | none, none => true
    | some k, some k' => k.le k'
    | _, _ => false) &&
  match x.tbe, y.tbe with
    | none, none => true
    | some t, some t' => t.le t'
    | _, _ => false

/-! ### Actions on shapes -/

namespace Shape

def needEntry (x : Shape) : Option Shape := if x.entry.isSome then some x else none

def needTBE (x : Shape) : Option Shape := if x.tbe.isSome then some x else none

def share (x : Shape) (k : Sharing) : Option Shape :=
  x.entry.map fun _ => { x with entry := some k }

end Shape

def Readers.record : Readers → Readers
  | .nobody => .one
  | .unknown | .one | .somebody => .somebody

/-- An action on shapes, `none` if it might fail. -/
def Action.shape (a : Action) (x : Shape) : Option Shape :=
  match a with
  | .b_forwardRequestToExclusive => if x.entry = some .owner then some x else none
  | .c_exclusiveReplacement | .d_sendDataToRequestor | .dd_sendExclusiveDataToRequestor
  | .ds_sendSharedDataToRequestor | .f_sendInvToSharers | .fwm_sendFwdInvToSharersMinusRequestor
  | .m_writeDataToCache | .mr_writeDataToCacheFromRequest | .ts_sendInvAckToUpgrader => x.needEntry
  | .ct_exclusiveReplacementFromTBE | .qq_writeDataToTBE | .qqr_writeDataToTBEFromPUTX => x.needTBE
  | .e_sendDataToGetSRequestors =>
      x.tbe.bind fun t =>
        if t.readers = .one ∨ t.readers = .somebody then x.needEntry else none
  | .ex_sendExclusiveDataToGetSRequestors =>
      x.tbe.bind fun t => if t.readers = .one then x.needEntry else none
  | .ee_sendDataToGetXRequestor => x.tbe.bind fun t => if t.writer then x.needEntry else none
  | .i_allocateTBE =>
      x.entry.bind fun k =>
        if x.tbe.isSome then none
        else some { x with
          tbe := some { readers := .nobody, acks := decide (k = .somebody ∨ k = .owner) } }
  | .s_deallocateTBE => x.tbe.map fun _ => { x with tbe := none }
  | .q_updateAck => x.tbe.map fun t => { x with tbe := some { t with acks := false } }
  | .ss_recordGetSL1ID =>
      x.tbe.map fun t => { x with tbe := some { t with readers := t.readers.record } }
  | .xx_recordGetXL1ID => x.tbe.map fun t => { x with tbe := some { t with writer := true } }
  | .qq_allocateL2CacheBlock => some { x with entry := x.entry <|> some .nobody }
  | .rr_deallocateL2CacheBlock => some { x with entry := none }
  | .nn_addSharer | .nnu_addSharerFromUnblock => x.share .somebody
  | .ll_clearSharers => x.share .nobody
  | .mmu_markExclusiveFromUnblock => x.share .owner
  | .a_issueFetchToMemory | .c_exclusiveCleanReplacement | .t_sendWBAck | .jj_popL1RequestQueue
  | .k_popUnblockQueue | .o_popIncomingResponseQueue | .zz_stallAndWaitL1RequestQueue
  | .zn_recycleResponseNetwork | .kd_wakeUpDependents | .uu_profileMiss | .uu_profileHit
  | .set_setMRU => some x

section

variable {n B : ℕ}

def Sharing.Holds : Sharing → Entry n B → Prop
  | .unknown, _ => True
  | .nobody, e => e.Sharers = ∅
  | .somebody, e => e.Sharers.Nonempty
  | .owner, e => ∃ i, e.Sharers = {i} ∧ e.Exclusive = some i

def Readers.Holds : Readers → TBE n B → Prop
  | .unknown, _ => True
  | .nobody, t => t.L1_GetS_IDs = ∅
  | .one, t => t.L1_GetS_IDs.card = 1
  | .somebody, t => 0 < t.L1_GetS_IDs.card

@[mk_iff]
structure Pending.Holds (x : Pending) (t : TBE n B) : Prop where
  readers : x.readers.Holds t
  writer : x.writer = true → t.L1_GetX_ID.isSome = true
  acks : x.acks = true → 1 ≤ t.pendingAcks

/-- A line of the shape. -/
structure Shape.Describes (x : Shape) (l : Line n B) : Prop where
  entry : Option.Rel Sharing.Holds x.entry l.entry
  tbe : Option.Rel Pending.Holds x.tbe l.tbe

/-! ### Soundness -/

/-- The message an action or an event reads. -/
inductive Source where
  | request | response | unblock
  deriving DecidableEq

/-- The message is at the port; requests and unblocks come from an L1. -/
def Source.Given (inp : In n B) : Source → Prop
  | .request => inp.requestor.isSome = true
  | .response => inp.response.isSome = true
  | .unblock => inp.unblocker.isSome = true

def Action.source : Action → Option Source
  | .a_issueFetchToMemory | .b_forwardRequestToExclusive | .d_sendDataToRequestor
  | .dd_sendExclusiveDataToRequestor | .ds_sendSharedDataToRequestor
  | .fwm_sendFwdInvToSharersMinusRequestor | .mr_writeDataToCacheFromRequest
  | .qqr_writeDataToTBEFromPUTX | .ss_recordGetSL1ID | .xx_recordGetXL1ID | .t_sendWBAck
  | .ts_sendInvAckToUpgrader | .nn_addSharer => some .request
  | .m_writeDataToCache | .q_updateAck | .qq_writeDataToTBE => some .response
  | .nnu_addSharerFromUnblock | .mmu_markExclusiveFromUnblock => some .unblock
  | .jj_popL1RequestQueue | .zz_stallAndWaitL1RequestQueue | .zn_recycleResponseNetwork
  | .c_exclusiveCleanReplacement | .o_popIncomingResponseQueue | .qq_allocateL2CacheBlock
  | .ll_clearSharers | .i_allocateTBE | .uu_profileMiss | .ex_sendExclusiveDataToGetSRequestors
  | .s_deallocateTBE | .e_sendDataToGetSRequestors | .kd_wakeUpDependents
  | .ee_sendDataToGetXRequestor | .set_setMRU | .uu_profileHit | .f_sendInvToSharers
  | .rr_deallocateL2CacheBlock | .c_exclusiveReplacement | .k_popUnblockQueue
  | .ct_exclusiveReplacementFromTBE => none

def Event.source : Event → Option Source
  | .L1_GET_INSTR | .L1_GETS | .L1_GETX | .L1_UPGRADE | .L1_PUTX | .L1_PUTX_old => some .request
  | .L2_Replacement | .L2_Replacement_clean => none
  | .Mem_Data | .Mem_Ack | .WB_Data | .WB_Data_clean | .Ack | .Ack_all | .MEM_Inv =>
      some .response
  | .Unblock | .Exclusive_Unblock => some .unblock

variable {inp : In n B} {a : Action} {c c' : Ctx n B} {x x' : Shape}

theorem Shape.describes_iff {k : Option Sharing} {t : Option Pending} {l : Line n B} :
    Shape.Describes ⟨k, t⟩ l ↔ Option.Rel Sharing.Holds k l.entry ∧
      Option.Rel Pending.Holds t l.tbe :=
  ⟨fun h => ⟨h.entry, h.tbe⟩, fun h => ⟨h.1, h.2⟩⟩

theorem Sharing.somebody_insert (e : Entry n B) (i : Fin n) :
    Sharing.somebody.Holds { e with Sharers := insert i e.Sharers } :=
  Finset.insert_nonempty i e.Sharers

theorem Sharing.Holds.congr {k : Sharing} {e e' : Entry n B} (h : k.Holds e)
    (hs : e'.Sharers = e.Sharers) (hx : e'.Exclusive = e.Exclusive) : k.Holds e' := by
  cases k <;> simp_all only [Sharing.Holds]

theorem Sharing.Holds.write {k : Sharing} {e : Entry n B} (h : k.Holds e) (d : DataBlock B)
    (dirty : Bool) : k.Holds { e with DataBlk := d, Dirty := dirty } := h.congr rfl rfl

theorem Readers.Holds.congr {k : Readers} {t t' : TBE n B} (h : k.Holds t)
    (hr : t'.L1_GetS_IDs = t.L1_GetS_IDs) : k.Holds t' := by
  cases k <;> simp_all only [Readers.Holds]

theorem Readers.Holds.record {k : Readers} {t : TBE n B} (h : k.Holds t) (i : Fin n) :
    k.record.Holds { t with L1_GetS_IDs := insert i t.L1_GetS_IDs } := by
  have hpos : 0 < (insert i t.L1_GetS_IDs).card := Finset.card_pos.mpr (Finset.insert_nonempty ..)
  cases k with
  | nobody => simp [Readers.Holds, Readers.record, show t.L1_GetS_IDs = ∅ from h]
  | unknown => exact hpos
  | one => exact hpos
  | somebody => exact hpos

theorem Pending.Holds.record {x : Pending} {t : TBE n B} (h : x.Holds t) (i : Fin n) :
    Pending.Holds { x with readers := x.readers.record }
      { t with L1_GetS_IDs := insert i t.L1_GetS_IDs } :=
  ⟨h.readers.record i, h.writer, h.acks⟩

theorem Pending.Holds.write {x : Pending} {t : TBE n B} (h : x.Holds t) (d : DataBlock B)
    (dirty : Bool) : x.Holds { t with DataBlk := d, Dirty := dirty } :=
  ⟨h.readers.congr rfl, h.writer, h.acks⟩

theorem Pending.Holds.setWriter {x : Pending} {t : TBE n B} (h : x.Holds t) (i : Fin n) :
    Pending.Holds { x with writer := true } { t with L1_GetX_ID := some i } :=
  ⟨h.readers.congr rfl, fun _ => rfl, h.acks⟩

theorem Pending.Holds.updateAck {x : Pending} {t : TBE n B} (h : x.Holds t) (z : ℤ) :
    Pending.Holds { x with acks := false } { t with pendingAcks := z } :=
  ⟨h.readers.congr rfl, h.writer, nofun⟩

theorem newTBE_holds {k : Sharing} {e : Entry n B} (h : k.Holds e) :
    Pending.Holds { readers := .nobody, acks := decide (k = .somebody ∨ k = .owner) }
      (newTBE e) := by
  have hacks : (newTBE e).pendingAcks = e.Sharers.card := by unfold newTBE; split_ifs <;> rfl
  refine ⟨by unfold newTBE; split_ifs <;> rfl, nofun, fun hk => ?_⟩
  have hpos : 0 < e.Sharers.card := by
    rcases of_decide_eq_true hk with rfl | rfl
    · exact Finset.card_pos.mpr h
    · obtain ⟨i, hi, -⟩ := h
      simp [hi]
  omega

/-- The actions that change the line. -/
def Action.writesLine : Action → Bool
  | .i_allocateTBE | .s_deallocateTBE | .m_writeDataToCache | .mr_writeDataToCacheFromRequest
  | .q_updateAck | .qq_writeDataToTBE | .qqr_writeDataToTBEFromPUTX | .ss_recordGetSL1ID
  | .xx_recordGetXL1ID | .qq_allocateL2CacheBlock | .rr_deallocateL2CacheBlock | .nn_addSharer
  | .nnu_addSharerFromUnblock | .ll_clearSharers | .mmu_markExclusiveFromUnblock => true
  | _ => false

theorem exec_line_of_reads (ha : a.writesLine = false) (hc : exec inp a c = some c') :
    c'.line = c.line := by
  cases a <;> cases ha
  all_goals
    simp only [exec, Option.bind_eq_some_iff, Option.map_eq_some_iff, Option.some.injEq] at hc
    grind [Ctx.fetch, Ctx.writeBack, Ctx.respond, Ctx.forward]

theorem shape_of_reads (ha : a.writesLine = false) (hx : a.shape x = some x') : x' = x := by
  cases a <;> cases ha
  all_goals
    simp only [Action.shape, Shape.needEntry, Shape.needTBE, Option.bind_eq_some_iff,
      Option.some.injEq] at hx
    grind

theorem exec_describes (h : x.Describes c.line) (hx : a.shape x = some x')
    (hc : exec inp a c = some c') : x'.Describes c'.line := by
  cases ha : a.writesLine with
  | false =>
      rw [exec_line_of_reads ha hc, shape_of_reads ha hx]
      exact h
  | true =>
      obtain ⟨⟨entry, tbe⟩, q₁, q₂, q₃, q₄, popped⟩ := c
      obtain ⟨k, t⟩ := x
      obtain ⟨he, ht⟩ := h
      cases he <;> cases ht <;> cases a <;> cases ha
      all_goals
        simp only [exec, Option.bind_eq_some_iff, Option.some.injEq, Option.bind_none,
          Option.map_none, Option.bind_some, Option.map_some, reduceCtorEq, Action.shape,
          Shape.needEntry, Shape.needTBE, Shape.share, Option.isSome_some, Option.isSome_none,
          if_true, Bool.false_eq_true, if_false] at hx hc <;>
        grind [Shape.describes_iff, Option.Rel, Sharing.Holds, Sharing.somebody_insert,
          Sharing.Holds.write, Pending.Holds.record, Pending.Holds.write, Pending.Holds.setWriter,
          Pending.Holds.updateAck, newTBE_holds, Ctx.setEntry, Ctx.setTBE]

theorem In.request_of_requestor (h : inp.requestor.isSome = true) : inp.request.isSome = true := by
  cases hm : inp.request with
  | none => simp [In.requestor, hm] at h
  | some m => rfl

theorem exec_succeeds (h : x.Describes c.line) (hx : a.shape x = some x')
    (hin : ∀ s, a.source = some s → s.Given inp) : (exec inp a c).isSome = true := by
  have hreq : inp.requestor.isSome = true → inp.request.isSome = true := In.request_of_requestor
  obtain ⟨⟨entry, tbe⟩, q₁, q₂, q₃, q₄, popped⟩ := c
  obtain ⟨k, t⟩ := x
  obtain ⟨he, ht⟩ := h
  cases a <;>
    simp only [Action.source, Option.some.injEq, forall_eq', Source.Given,
      Option.isSome_iff_exists] at hin hreq <;>
    cases he <;> cases ht <;>
    simp only [exec, Option.isSome_bind, Option.isSome_map, Option.bind_none, Option.map_none,
      Option.bind_some, Option.map_some, reduceCtorEq, Option.isSome_some, Option.isSome_none,
      Action.shape, Shape.needEntry, Shape.needTBE, Shape.share, if_true, Bool.false_eq_true,
      if_false] at hx ⊢ <;>
    grind [Sharing.Holds, Readers.Holds, Pending.Holds]

/-! ### Transitions -/

variable {l : Line n B} {y : Shape}

theorem Sharing.Holds.mono {k k' : Sharing} {e : Entry n B} (h : k.Holds e)
    (hle : k.le k' = true) : k'.Holds e := by
  cases k' with
  | unknown => trivial
  | nobody => cases k <;> first | exact h | cases hle
  | owner => cases k <;> first | exact h | cases hle
  | somebody =>
      cases k with
      | somebody => exact h
      | owner =>
          obtain ⟨i, hi, -⟩ := h
          exact ⟨i, hi ▸ Finset.mem_singleton_self i⟩
      | unknown => cases hle
      | nobody => cases hle

theorem Readers.Holds.mono {k k' : Readers} {t : TBE n B} (h : k.Holds t)
    (hle : k.le k' = true) : k'.Holds t := by
  cases k' with
  | unknown => trivial
  | nobody => cases k <;> first | exact h | cases hle
  | one => cases k <;> first | exact h | cases hle
  | somebody =>
      cases k with
      | somebody => exact h
      | one => exact Nat.lt_of_lt_of_eq Nat.zero_lt_one (Eq.symm h)
      | unknown => cases hle
      | nobody => cases hle

theorem Pending.Holds.mono {p q : Pending} {t : TBE n B} (h : p.Holds t)
    (hle : p.le q = true) : q.Holds t := by
  simp only [Pending.le, Bool.and_eq_true, Bool.or_eq_true, Bool.not_eq_true'] at hle
  obtain ⟨⟨hr, hw⟩, ha⟩ := hle
  refine ⟨h.readers.mono hr, fun hq => h.writer ?_, fun hq => h.acks ?_⟩
  · simpa [hq] using hw
  · simpa [hq] using ha

theorem Shape.Describes.mono (h : x.Describes l) (hle : x.le y = true) : y.Describes l := by
  obtain ⟨k, t⟩ := x
  obtain ⟨k', t'⟩ := y
  obtain ⟨entry, tbe⟩ := l
  obtain ⟨he, ht⟩ := h
  rw [Shape.le, Bool.and_eq_true] at hle
  refine ⟨?_, ?_⟩
  · cases he <;> cases k' <;> first | cases hle.1 | skip
    · next h _ => exact .some (h.mono hle.1)
    · exact .none
  · cases ht <;> cases t' <;> first | cases hle.2 | skip
    · next h _ => exact .some (h.mono hle.2)
    · exact .none

theorem Shape.Describes.setState (h : x.Describes l) (s : State) : x.Describes (l.setState s) := by
  obtain ⟨k, t⟩ := x
  obtain ⟨entry, tbe⟩ := l
  obtain ⟨he, ht⟩ := h
  refine ⟨?_, ?_⟩
  · cases he with
    | none => exact .none
    | some h => exact .some (h.congr rfl rfl)
  · cases ht with
    | none => exact .none
    | some h => exact .some ⟨h.readers.congr rfl, h.writer, h.acks⟩

/-- A line of the shape of its state. -/
def Line.WellFormed (l : Line n B) : Prop := l.getState.shape.Describes l

theorem Line.wellFormed_empty : (⟨none, none⟩ : Line n B).WellFormed := ⟨.none, .none⟩

theorem Shape.Describes.getState_setState {s : State} (h : s.shape.Describes l) :
    (l.setState s).getState = s := by
  obtain ⟨entry, tbe⟩ := l
  obtain ⟨he, ht⟩ := h
  rw [Line.getState_setState]
  cases s <;> cases he <;> cases ht <;> rfl

/-- A line of the shape of a state, once the state is set. -/
theorem Shape.Describes.wellFormed {s : State} (h : s.shape.Describes l) :
    (l.setState s).WellFormed := by
  unfold Line.WellFormed
  rw [h.getState_setState]
  exact h.setState s

/-- One declared transition, from the shape of its state. -/
def keepsShape (s : State) (e : Event) (s' : State) (actions : List Action) : Bool :=
  (Lib.perform Action.shape actions s.shape).any (fun x => x.le s'.shape &&
    (!s'.awaitsAcks || decide (s' = s) || x.tbe.any (·.acks))) &&
  actions.all fun a => a.source = none || a.source = e.source

theorem table_shapes : (table.all fun r => r.states.all fun s => r.events.all fun e =>
    keepsShape s e (r.next.getD s) r.actions) = true := by
  decide +kernel

section

variable {st next : State} {e : Event} {actions : List Action}

/-- What the check of the table says of a declared transition. -/
theorem transition_shape (htr : transition st e = some (next, actions)) :
    (∃ x, Lib.perform Action.shape actions st.shape = some x ∧ x.le next.shape = true ∧
      (next.awaitsAcks = true → next ≠ st → ∃ t, x.tbe = some t ∧ t.acks = true)) ∧
    ∀ a ∈ actions, a.source = none ∨ a.source = e.source := by
  have h := Lib.declared_check table_shapes htr
  rw [keepsShape, Bool.and_eq_true, Option.any_eq_true, List.all_eq_true] at h
  obtain ⟨⟨x, hx, hok⟩, hsrc⟩ := h
  rw [Bool.and_eq_true] at hok
  refine ⟨⟨x, hx, hok.1, fun haw hne => ?_⟩, fun a ha => by simpa using hsrc a ha⟩
  have hacks : x.tbe.any (·.acks) = true := by simpa [haw, hne] using hok.2
  exact (Option.any_eq_true ..).mp hacks

/-- **A transition keeps the representation** of its line; the acks of an eviction that it starts
are at least one. -/
theorem Line.WellFormed.transition (h : l.WellFormed)
    (htr : transition l.getState e = some (next, actions))
    (hc : Lib.perform (exec inp) actions { line := l } = some c) :
    (c.line.setState next).WellFormed ∧ (c.line.setState next).getState = next ∧
      (next.awaitsAcks = true → next ≠ l.getState →
        ∃ t, c.line.tbe = some t ∧ 1 ≤ t.pendingAcks) := by
  obtain ⟨⟨x, hx, hle, hacks⟩, -⟩ := transition_shape htr
  have hdesc := Lib.perform_sound (x := exec inp)
    (R := fun (c : Ctx n B) (x : Shape) => x.Describes c.line)
    (fun _ _ _ _ _ => exec_describes) (c := { line := l }) h hx hc
  refine ⟨(hdesc.mono hle).wellFormed, (hdesc.mono hle).getState_setState, fun haw hne => ?_⟩
  obtain ⟨t, ht, ha⟩ := hacks haw hne
  have htbe := hdesc.tbe
  rw [ht] at htbe
  generalize c.line.tbe = o at htbe ⊢
  cases htbe with
  | some hp => exact ⟨_, rfl, hp.acks ha⟩

/-- **No assertion fails.**  Whatever transition is declared for the line's state goes through, for
the message that its event is about. -/
theorem Line.WellFormed.performs (h : l.WellFormed)
    (htr : L2Cache.transition l.getState e = some (next, actions))
    (hin : ∀ s, e.source = some s → s.Given inp) :
    ∃ c, Lib.perform (exec inp) actions { line := l } = some c := by
  obtain ⟨⟨x, hx, -⟩, hsrc⟩ := transition_shape htr
  obtain ⟨c, hc, -⟩ := Lib.perform_total (x := exec inp)
    (R := fun (c : Ctx n B) (x : Shape) => x.Describes c.line)
    (fun a ha c d d' hd hy => by
      have hs : ∀ s, a.source = some s → s.Given inp := by
        intro s hs
        rcases hsrc a ha with hno | heq
        · rw [hno] at hs; cases hs
        · exact hin s (heq ▸ hs)
      obtain ⟨c', hc'⟩ := Option.isSome_iff_exists.mp (exec_succeeds hd hy hs)
      exact ⟨c', hc', exec_describes hd hy hc'⟩)
    (c := { line := l }) h hx
  exact ⟨c, hc⟩

end

end

end SttRuby.Protocol.L2Cache
