import SttRuby.Protocol.L2Cache

/-!
# Protocol — L2Effect

What the L2's table does to the rest of the system, read off the table itself.  `Effect` keeps
of a transition under way only how many fetches and which write-backs it has sent to the
directory, whether it has dequeued its message, and whether the line has an entry and a TBE;
`Action.effect` is `exec` on effects.  A transition is then one of a finite number, and
`doTransition_effect` lists what it can do to the directory, by the L2's `Mode` before and
after.
-/

namespace SttRuby.Protocol.L2Cache

/-- A transition under way, as the directory sees it. -/
structure Effect where
  fetches : ℕ := 0
  responses : List CoherenceResponseType := []
  popped : Bool := false
  entry : Bool
  tbe : Bool
  deriving DecidableEq

namespace Effect

def needEntry (x : Effect) : Option Effect := if x.entry then some x else none

def needTBE (x : Effect) : Option Effect := if x.tbe then some x else none

def send (t : CoherenceResponseType) (x : Effect) : Effect :=
  { x with responses := x.responses ++ [t] }

end Effect

/-- An action on effects. -/
def Action.effect (a : Action) (x : Effect) : Option Effect :=
  match a with
  | .a_issueFetchToMemory => some { x with fetches := x.fetches + 1 }
  | .c_exclusiveReplacement => x.needEntry.map (·.send .MEMORY_DATA)
  | .c_exclusiveCleanReplacement => some (x.send .ACK)
  | .ct_exclusiveReplacementFromTBE => x.needTBE.map (·.send .MEMORY_DATA)
  | .i_allocateTBE =>
      x.needEntry.bind fun x => if x.tbe then none else some { x with tbe := true }
  | .s_deallocateTBE => x.needTBE.map fun x => { x with tbe := false }
  | .qq_allocateL2CacheBlock => some { x with entry := true }
  | .rr_deallocateL2CacheBlock => some { x with entry := false }
  | .jj_popL1RequestQueue | .k_popUnblockQueue | .o_popIncomingResponseQueue =>
      some { x with popped := true }
  | .b_forwardRequestToExclusive | .d_sendDataToRequestor | .dd_sendExclusiveDataToRequestor
  | .ds_sendSharedDataToRequestor | .f_sendInvToSharers | .fwm_sendFwdInvToSharersMinusRequestor
  | .m_writeDataToCache | .mr_writeDataToCacheFromRequest | .ts_sendInvAckToUpgrader
  | .nn_addSharer | .nnu_addSharerFromUnblock | .ll_clearSharers
  | .mmu_markExclusiveFromUnblock => x.needEntry
  | .e_sendDataToGetSRequestors | .ex_sendExclusiveDataToGetSRequestors
  | .ee_sendDataToGetXRequestor => x.needTBE.bind (·.needEntry)
  | .q_updateAck | .qq_writeDataToTBE | .qqr_writeDataToTBEFromPUTX | .ss_recordGetSL1ID
  | .xx_recordGetXL1ID => x.needTBE
  | .t_sendWBAck | .zz_stallAndWaitL1RequestQueue | .zn_recycleResponseNetwork
  | .kd_wakeUpDependents | .uu_profileMiss | .uu_profileHit | .set_setMRU => some x

section

variable {n B : ℕ}

def Ctx.effect (c : Ctx n B) : Effect where
  fetches := c.requestToDir.length
  responses := c.responseToDir.map (·.type)
  popped := c.popped
  entry := c.line.entry.isSome
  tbe := c.line.tbe.isSome

theorem exec_effect {inp : In n B} {a : Action} {c c' : Ctx n B} (h : exec inp a c = some c') :
    a.effect c.effect = some c'.effect := by
  cases a <;>
    simp only [exec, Option.bind_eq_some_iff, Option.map_eq_some_iff, Option.some.injEq] at h <;>
    grind [Action.effect, Ctx.effect, Effect.needEntry, Effect.needTBE, Effect.send, Ctx.fetch,
      Ctx.writeBack, Ctx.respond, Ctx.forward, Ctx.setEntry, Ctx.setTBE]

/-- Everything sent to the directory is sent in the L2's name, and a fetch has the type of the
request at the port. -/
def Ctx.Signed (inp : In n B) (c : Ctx n B) : Prop :=
  (∀ f ∈ c.requestToDir, f.Requestor = .L2Cache ∧ ∃ m, inp.request = some m ∧ f.type = m.type) ∧
  ∀ r ∈ c.responseToDir, r.Sender = .L2Cache

theorem exec_signed {inp : In n B} {a : Action} {c c' : Ctx n B} (hc : c.Signed inp)
    (h : exec inp a c = some c') : c'.Signed inp := by
  cases a <;>
    simp only [exec, Option.bind_eq_some_iff, Option.map_eq_some_iff, Option.some.injEq] at h <;>
    grind [Ctx.Signed, Ctx.fetch, Ctx.writeBack, Ctx.respond, Ctx.forward, Ctx.setEntry,
      Ctx.setTBE]

theorem Line.getState_setState (l : Line n B) (s : State) :
    (l.setState s).getState = if l.entry.isSome || l.tbe.isSome then s else .NP := by
  obtain ⟨e, t⟩ := l
  cases e <;> cases t <;> rfl

theorem Ctx.effect_setState (c : Ctx n B) (s : State) :
    Ctx.effect { c with line := c.line.setState s } = c.effect := by
  simp [Ctx.effect, Line.setState]

theorem Line.present (l : Line n B) :
    (l.entry.isSome || l.tbe.isSome || decide (l.getState = .NP)) = true := by
  obtain ⟨e, t⟩ := l
  cases e <;> cases t <;> rfl

end

/-! ### The table -/

/-- How far the L2 is with the line, as the directory sees it: it has nothing, it has sent a
fetch, it has the line (perhaps recalling it from its L1s), or it has written the line back. -/
inductive Mode where
  | absent | fetching | holding | leaving
  deriving DecidableEq

def State.mode : State → Mode
  | .NP => .absent
  | .ISS | .IS | .IM => .fetching
  | .M_I => .leaving
  | .SS | .M | .MT | .MT_I | .MCT_I | .I_I | .S_I | .SS_MB | .MT_MB | .MT_IIB | .MT_IB
  | .MT_SB => .holding

/-- The events of messages from the directory. -/
def Event.fromDir : Event → Bool
  | .Mem_Data | .Mem_Ack | .MEM_Inv => true
  | _ => false

/-- What a transition can do at the directory, by the mode before and after. -/
def Move (e : Event) (md md' : Mode) (x : Effect) : Prop :=
  -- nothing is sent; the data and the acks that are waited for are not consumed
  (md' = md ∧ x.fetches = 0 ∧ x.responses = [] ∧ e ≠ .Mem_Data ∧ e ≠ .Mem_Ack) ∨
  -- a miss
  (md = .absent ∧ md' = .fetching ∧ x.fetches = 1 ∧ x.responses = [] ∧
    (e = .L1_GETS ∨ e = .L1_GET_INSTR ∨ e = .L1_GETX)) ∨
  (md = .fetching ∧ md' = .holding ∧ x.fetches = 0 ∧ x.responses = [] ∧ e = .Mem_Data ∧
    x.popped = true) ∨
  -- a write-back, of data or clean; an invalidation that starts it is not consumed yet
  (md = .holding ∧ md' = .leaving ∧ x.fetches = 0 ∧
    (x.responses = [.MEMORY_DATA] ∨ x.responses = [.ACK]) ∧ e ≠ .Mem_Data ∧ e ≠ .Mem_Ack) ∨
  (md = .leaving ∧ md' = .absent ∧ x.fetches = 0 ∧ x.responses = [] ∧ e = .Mem_Ack ∧
    x.popped = true) ∨
  -- an invalidation of a line the L2 does not have, and an ack nobody waits for
  ((md = .absent ∨ md = .fetching) ∧ md' = md ∧ x.fetches = 0 ∧ x.popped = true ∧
    (x.responses = [.ACK] ∧ e = .MEM_Inv ∨ x.responses = [] ∧ e = .Mem_Ack))

instance (e : Event) (md md' : Mode) (x : Effect) : Decidable (Move e md md' x) := by
  unfold Move; infer_instance

/-- The transition answers the directory with a clean-replacement ack. -/
def cleanAck (s : State) (e : Event) : Bool :=
  (transition s e).any fun r => r.2.contains .c_exclusiveCleanReplacement

/-- One declared transition, from each way the line can be present. -/
def moves (s : State) (e : Event) (s' : State) (actions : List Action) : Bool :=
  decide (∀ entry tbe : Bool, (entry || tbe || decide (s = .NP)) = true →
    ∀ x ∈ Lib.perform Action.effect actions { entry := entry, tbe := tbe },
      Move e s.mode (if x.entry || x.tbe then s' else .NP).mode x ∧
      (.ACK ∈ x.responses → actions.contains .c_exclusiveCleanReplacement = true))

theorem table_moves : (table.all fun r => r.states.all fun s => r.events.all fun e =>
    moves s e (r.next.getD s) r.actions) = true := by
  decide +kernel

section

variable {n B : ℕ} {inp : In n B} {e : Event} {l : Line n B} {c : Ctx n B}

/-- **What a transition of the L2 does at the directory.** -/
theorem doTransition_effect (h : doTransition inp e l = some c) :
    Move e l.getState.mode c.line.getState.mode c.effect ∧ c.Signed inp ∧
      (.ACK ∈ c.effect.responses → cleanAck l.getState e = true) := by
  obtain ⟨⟨s', actions⟩, ht, hm⟩ := Option.bind_eq_some_iff.mp h
  obtain ⟨c₁, hp, rfl⟩ := Option.map_eq_some_iff.mp hm
  have hx := Lib.perform_map (x := exec inp) (f := Ctx.effect) (fun _ _ _ => exec_effect) hp
  have hs : c₁.Signed inp :=
    Lib.perform_induct (fun _ _ _ => exec_signed) ⟨by simp, by simp⟩ hp
  have hmv := of_decide_eq_true (Lib.declared_check table_moves ht)
  obtain ⟨h₁, h₂⟩ := hmv _ _ l.present _ hx
  rw [Ctx.effect_setState, Line.getState_setState]
  refine ⟨h₁, hs, fun hack => ?_⟩
  rw [cleanAck, ht]
  exact h₂ hack

end

end SttRuby.Protocol.L2Cache
