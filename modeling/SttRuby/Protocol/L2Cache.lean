import Mathlib.Data.Finset.Card
import SttRuby.Protocol.Messages

/-!
# Protocol — L2Cache

`MESI_Two_Level-L2cache.sm` for one line of the bank.  Stalled and recycled messages stay in
flight.  The calls an action makes on the cache array itself (`recordRequestType`, `setMRU`)
do not change the line and are left to the model of the bank over its array.
-/

namespace SttRuby.Protocol.L2Cache

inductive State where
  | NP | SS | M | MT | M_I | MT_I | MCT_I | I_I | S_I | ISS | IS | IM | SS_MB | MT_MB | MT_IIB
  | MT_IB | MT_SB
  deriving DecidableEq

inductive Event where
  | L1_GET_INSTR | L1_GETS | L1_GETX | L1_UPGRADE | L1_PUTX | L1_PUTX_old | L2_Replacement
  | L2_Replacement_clean | Mem_Data | Mem_Ack | WB_Data | WB_Data_clean | Ack | Ack_all
  | Unblock | Exclusive_Unblock | MEM_Inv
  deriving DecidableEq

inductive Action where
  | t_sendWBAck | jj_popL1RequestQueue | zz_stallAndWaitL1RequestQueue
  | zn_recycleResponseNetwork | c_exclusiveCleanReplacement | o_popIncomingResponseQueue
  | qq_allocateL2CacheBlock | ll_clearSharers | nn_addSharer | i_allocateTBE
  | ss_recordGetSL1ID | a_issueFetchToMemory | uu_profileMiss | xx_recordGetXL1ID
  | m_writeDataToCache | ex_sendExclusiveDataToGetSRequestors | s_deallocateTBE
  | e_sendDataToGetSRequestors | kd_wakeUpDependents | ee_sendDataToGetXRequestor
  | ds_sendSharedDataToRequestor | set_setMRU | uu_profileHit | d_sendDataToRequestor
  | fwm_sendFwdInvToSharersMinusRequestor | ts_sendInvAckToUpgrader | f_sendInvToSharers
  | rr_deallocateL2CacheBlock | dd_sendExclusiveDataToRequestor | c_exclusiveReplacement
  | b_forwardRequestToExclusive | mr_writeDataToCacheFromRequest | mmu_markExclusiveFromUnblock
  | k_popUnblockQueue | nnu_addSharerFromUnblock | q_updateAck | qq_writeDataToTBE
  | ct_exclusiveReplacementFromTBE | qqr_writeDataToTBEFromPUTX
  deriving DecidableEq

def table : List (Lib.Rule State Event Action) := [
    ⟨[.NP, .IS, .ISS, .IM, .SS, .M, .M_I, .I_I, .S_I, .MT_IB, .MT_SB], [.L1_PUTX], none,
      [.t_sendWBAck, .jj_popL1RequestQueue]⟩,
    ⟨[.NP, .SS, .M, .MT, .M_I, .I_I, .S_I, .IS, .ISS, .IM, .MT_IB, .MT_SB], [.L1_PUTX_old], none,
      [.t_sendWBAck, .jj_popL1RequestQueue]⟩,
    ⟨[.IM, .IS, .ISS, .SS_MB, .MT_MB, .MT_IIB, .MT_IB, .MT_SB], [.L2_Replacement,
       .L2_Replacement_clean], none,
      [.zz_stallAndWaitL1RequestQueue]⟩,
    ⟨[.SS_MB, .MT_MB, .MT_IIB, .MT_IB, .MT_SB], [.MEM_Inv], none, [.zn_recycleResponseNetwork]⟩,
    ⟨[.NP, .IM, .IS, .ISS], [.MEM_Inv], none,
      [.c_exclusiveCleanReplacement, .o_popIncomingResponseQueue]⟩,
    ⟨[.I_I, .S_I, .M_I, .MT_I, .MCT_I], [.MEM_Inv], none, [.o_popIncomingResponseQueue]⟩,
    ⟨[.NP, .IM, .IS, .ISS], [.Mem_Ack], none, [.o_popIncomingResponseQueue]⟩,
    ⟨[.SS_MB, .MT_MB, .MT_IIB, .MT_IB, .MT_SB], [.L1_GETS, .L1_GET_INSTR, .L1_GETX, .L1_UPGRADE],
       none,
      [.zz_stallAndWaitL1RequestQueue]⟩,
    ⟨[.NP], [.L1_GETS], some .ISS,
      [.qq_allocateL2CacheBlock, .ll_clearSharers, .nn_addSharer, .i_allocateTBE,
       .ss_recordGetSL1ID, .a_issueFetchToMemory, .uu_profileMiss, .jj_popL1RequestQueue]⟩,
    ⟨[.NP], [.L1_GET_INSTR], some .IS,
      [.qq_allocateL2CacheBlock, .ll_clearSharers, .nn_addSharer, .i_allocateTBE,
       .ss_recordGetSL1ID, .a_issueFetchToMemory, .uu_profileMiss, .jj_popL1RequestQueue]⟩,
    ⟨[.NP], [.L1_GETX], some .IM,
      [.qq_allocateL2CacheBlock, .ll_clearSharers, .i_allocateTBE, .xx_recordGetXL1ID,
       .a_issueFetchToMemory, .uu_profileMiss, .jj_popL1RequestQueue]⟩,
    ⟨[.ISS], [.Mem_Data], some .MT_MB,
      [.m_writeDataToCache, .ex_sendExclusiveDataToGetSRequestors, .s_deallocateTBE,
       .o_popIncomingResponseQueue]⟩,
    ⟨[.IS], [.Mem_Data], some .SS,
      [.m_writeDataToCache, .e_sendDataToGetSRequestors, .s_deallocateTBE,
       .o_popIncomingResponseQueue, .kd_wakeUpDependents]⟩,
    ⟨[.IM], [.Mem_Data], some .MT_MB,
      [.m_writeDataToCache, .ee_sendDataToGetXRequestor, .s_deallocateTBE,
       .o_popIncomingResponseQueue]⟩,
    ⟨[.IS, .ISS], [.L1_GETS, .L1_GET_INSTR], some .IS,
      [.nn_addSharer, .ss_recordGetSL1ID, .uu_profileMiss, .jj_popL1RequestQueue]⟩,
    ⟨[.IS, .ISS], [.L1_GETX], none, [.zz_stallAndWaitL1RequestQueue]⟩,
    ⟨[.IM], [.L1_GETX, .L1_GETS, .L1_GET_INSTR], none, [.zz_stallAndWaitL1RequestQueue]⟩,
    ⟨[.SS], [.L1_GETS, .L1_GET_INSTR], none,
      [.ds_sendSharedDataToRequestor, .nn_addSharer, .set_setMRU, .uu_profileHit,
       .jj_popL1RequestQueue]⟩,
    ⟨[.SS], [.L1_GETX], some .SS_MB,
      [.d_sendDataToRequestor, .fwm_sendFwdInvToSharersMinusRequestor, .set_setMRU,
       .uu_profileHit, .jj_popL1RequestQueue]⟩,
    ⟨[.SS], [.L1_UPGRADE], some .SS_MB,
      [.fwm_sendFwdInvToSharersMinusRequestor, .ts_sendInvAckToUpgrader, .set_setMRU,
       .uu_profileHit, .jj_popL1RequestQueue]⟩,
    ⟨[.SS], [.L2_Replacement_clean], some .I_I,
      [.i_allocateTBE, .f_sendInvToSharers, .rr_deallocateL2CacheBlock]⟩,
    ⟨[.SS], [.L2_Replacement, .MEM_Inv], some .S_I,
      [.i_allocateTBE, .f_sendInvToSharers, .rr_deallocateL2CacheBlock]⟩,
    ⟨[.M], [.L1_GETX], some .MT_MB,
      [.d_sendDataToRequestor, .set_setMRU, .uu_profileHit, .jj_popL1RequestQueue]⟩,
    ⟨[.M], [.L1_GET_INSTR], some .SS,
      [.d_sendDataToRequestor, .nn_addSharer, .set_setMRU, .uu_profileHit, .jj_popL1RequestQueue]⟩,
    ⟨[.M], [.L1_GETS], some .MT_MB,
      [.dd_sendExclusiveDataToRequestor, .set_setMRU, .uu_profileHit, .jj_popL1RequestQueue]⟩,
    ⟨[.M], [.L2_Replacement, .MEM_Inv], some .M_I,
      [.i_allocateTBE, .c_exclusiveReplacement, .rr_deallocateL2CacheBlock]⟩,
    ⟨[.M], [.L2_Replacement_clean], some .M_I,
      [.i_allocateTBE, .c_exclusiveCleanReplacement, .rr_deallocateL2CacheBlock]⟩,
    ⟨[.MT], [.L1_GETX], some .MT_MB,
      [.b_forwardRequestToExclusive, .uu_profileMiss, .set_setMRU, .jj_popL1RequestQueue]⟩,
    ⟨[.MT], [.L1_GETS, .L1_GET_INSTR], some .MT_IIB,
      [.b_forwardRequestToExclusive, .uu_profileMiss, .set_setMRU, .jj_popL1RequestQueue]⟩,
    ⟨[.MT], [.L2_Replacement, .MEM_Inv], some .MT_I,
      [.i_allocateTBE, .f_sendInvToSharers, .rr_deallocateL2CacheBlock]⟩,
    ⟨[.MT], [.L2_Replacement_clean], some .MCT_I,
      [.i_allocateTBE, .f_sendInvToSharers, .rr_deallocateL2CacheBlock]⟩,
    ⟨[.MT], [.L1_PUTX], some .M,
      [.ll_clearSharers, .mr_writeDataToCacheFromRequest, .t_sendWBAck, .jj_popL1RequestQueue]⟩,
    ⟨[.SS_MB, .MT_MB], [.Exclusive_Unblock], some .MT,
      [.mmu_markExclusiveFromUnblock, .k_popUnblockQueue, .kd_wakeUpDependents]⟩,
    ⟨[.MT_IIB], [.L1_PUTX, .L1_PUTX_old], none, [.zz_stallAndWaitL1RequestQueue]⟩,
    ⟨[.MT_IIB], [.Unblock], some .MT_IB, [.nnu_addSharerFromUnblock, .k_popUnblockQueue]⟩,
    ⟨[.MT_IIB], [.WB_Data, .WB_Data_clean], some .MT_SB,
      [.m_writeDataToCache, .o_popIncomingResponseQueue]⟩,
    ⟨[.MT_IB], [.WB_Data, .WB_Data_clean], some .SS,
      [.m_writeDataToCache, .o_popIncomingResponseQueue, .kd_wakeUpDependents]⟩,
    ⟨[.MT_SB], [.Unblock], some .SS,
      [.nnu_addSharerFromUnblock, .k_popUnblockQueue, .kd_wakeUpDependents]⟩,
    ⟨[.I_I, .S_I, .MT_I, .MCT_I, .M_I], [.L1_GETX, .L1_UPGRADE, .L1_GETS, .L1_GET_INSTR], none,
      [.zz_stallAndWaitL1RequestQueue]⟩,
    ⟨[.I_I], [.Ack], none, [.q_updateAck, .o_popIncomingResponseQueue]⟩,
    ⟨[.I_I], [.Ack_all], some .M_I, [.c_exclusiveCleanReplacement, .o_popIncomingResponseQueue]⟩,
    ⟨[.MT_I, .MCT_I], [.WB_Data], some .M_I,
      [.qq_writeDataToTBE, .ct_exclusiveReplacementFromTBE, .o_popIncomingResponseQueue]⟩,
    ⟨[.MCT_I], [.WB_Data_clean, .Ack_all], some .M_I,
      [.c_exclusiveCleanReplacement, .o_popIncomingResponseQueue]⟩,
    ⟨[.MCT_I], [.L1_PUTX, .L1_PUTX_old], some .M_I,
      [.qqr_writeDataToTBEFromPUTX, .ct_exclusiveReplacementFromTBE, .t_sendWBAck,
       .jj_popL1RequestQueue]⟩,
    ⟨[.MT_I], [.L1_PUTX, .L1_PUTX_old], some .M_I,
      [.qqr_writeDataToTBEFromPUTX, .ct_exclusiveReplacementFromTBE, .t_sendWBAck,
       .jj_popL1RequestQueue]⟩,
    ⟨[.MT_MB, .SS_MB], [.L1_PUTX, .L1_PUTX_old], none, [.zz_stallAndWaitL1RequestQueue]⟩,
    ⟨[.S_I], [.Ack], none, [.q_updateAck, .o_popIncomingResponseQueue]⟩,
    ⟨[.S_I], [.Ack_all], some .M_I,
      [.ct_exclusiveReplacementFromTBE, .o_popIncomingResponseQueue]⟩,
    ⟨[.M_I], [.Mem_Ack], some .NP,
      [.s_deallocateTBE, .o_popIncomingResponseQueue, .kd_wakeUpDependents]⟩,
    ⟨[.M_I], [.Ack, .Ack_all], none, [.o_popIncomingResponseQueue]⟩,
    ⟨[.NP], [.WB_Data, .WB_Data_clean], none, [.o_popIncomingResponseQueue]⟩,
    ⟨[.NP], [.Ack, .Ack_all], none, [.o_popIncomingResponseQueue]⟩,
    ⟨[.M_I], [.WB_Data, .WB_Data_clean], none, [.o_popIncomingResponseQueue]⟩,
    ⟨[.NP], [.Exclusive_Unblock, .Unblock], none, [.k_popUnblockQueue]⟩,
    ⟨[.MT_I], [.WB_Data_clean, .Ack_all], some .M_I,
      [.ct_exclusiveReplacementFromTBE, .o_popIncomingResponseQueue]⟩,
    ⟨[.MT_I], [.Ack], none, [.q_updateAck, .o_popIncomingResponseQueue]⟩]

/-- The next state and the actions of a state and an event, `none` for an invalid transition. -/
def transition (s : State) (e : Event) : Option (State × List Action) := Lib.declared table s e

/-! ### The line -/

structure Entry (n B : ℕ) where
  CacheState : State := .NP
  Sharers : Finset (Fin n) := ∅
  Exclusive : Option (Fin n) := none
  DataBlk : DataBlock B := fun _ => 0
  Dirty : Bool := false
  m_is_expired : Bool := false

structure TBE (n B : ℕ) where
  TBEState : State := .NP
  DataBlk : DataBlock B := fun _ => 0
  Dirty : Bool := false
  L1_GetS_IDs : Finset (Fin n) := ∅
  L1_GetX_ID : Option (Fin n) := none
  pendingAcks : ℤ := 0

structure Line (n B : ℕ) where
  entry : Option (Entry n B) := none
  tbe : Option (TBE n B) := none

namespace Line

variable {n B : ℕ}

def getState (l : Line n B) : State :=
  match l.tbe, l.entry with
  | some t, _ => t.TBEState
  | none, some e => e.CacheState
  | none, none => .NP

def setState (l : Line n B) (s : State) : Line n B where
  tbe := l.tbe.map fun t => { t with TBEState := s }
  entry := l.entry.map fun e => { e with CacheState := s }

end Line

/-! ### Actions -/

/-- The message at the port of the event. -/
structure In (n B : ℕ) where
  request : Option (RequestMsg n B) := none
  response : Option (ResponseMsg n B) := none
  unblock : Option (ResponseMsg n B) := none

namespace In

variable {n B : ℕ} (inp : In n B)

/-- The L1 that sent the request at the port. -/
def requestor : Option (Fin n) := inp.request.bind fun m => m.Requestor.l1Cache

/-- The L1 that sent the unblock message at the port. -/
def unblocker : Option (Fin n) := inp.unblock.bind fun m => m.Sender.l1Cache

end In

/-- A transition under way: the line, the messages sent so far to each L1 and to the directory,
and whether the message at the port has been dequeued. -/
structure Ctx (n B : ℕ) where
  line : Line n B
  requestToL1 : Fin n → List (RequestMsg n B) := fun _ => []
  responseToL1 : Fin n → List (ResponseMsg n B) := fun _ => []
  requestToDir : List (RequestMsg n B) := []
  responseToDir : List (ResponseMsg n B) := []
  popped : Bool := false

namespace Ctx

variable {n B : ℕ} (c : Ctx n B)

def forward (destination : Finset (Fin n)) (m : RequestMsg n B) : Ctx n B :=
  { c with requestToL1 := fun i =>
      if i ∈ destination then c.requestToL1 i ++ [m] else c.requestToL1 i }

def respond (destination : Finset (Fin n)) (m : ResponseMsg n B) : Ctx n B :=
  { c with responseToL1 := fun i =>
      if i ∈ destination then c.responseToL1 i ++ [m] else c.responseToL1 i }

def fetch (m : RequestMsg n B) : Ctx n B := { c with requestToDir := c.requestToDir ++ [m] }

def writeBack (m : ResponseMsg n B) : Ctx n B := { c with responseToDir := c.responseToDir ++ [m] }

def setEntry (e : Option (Entry n B)) : Ctx n B :=
  { c with line := { c.line with entry := e } }

def setTBE (t : Option (TBE n B)) : Ctx n B := { c with line := { c.line with tbe := t } }

end Ctx

section Exec

variable {n B : ℕ}

/-- The acknowledgements a requestor is told to collect: one from each other sharer, counted
down from their negative. -/
def ackCount (sharers : Finset (Fin n)) (i : Fin n) : ℤ :=
  if i ∈ sharers then 0 - (sharers.card : ℤ) + 1 else 0 - sharers.card

/-- The acknowledgements to come are one from each other sharer. -/
theorem ackCount_eq (S : Finset (Fin n)) (i : Fin n) :
    ackCount S i = -((S.erase i).card : ℤ) := by
  unfold ackCount
  split_ifs with h
  · have := Finset.card_erase_add_one h
    omega
  · rw [Finset.erase_eq_of_notMem h]
    omega

/-- The TBE for an entry; a new entry has no data to copy. -/
def newTBE (e : Entry n B) : TBE n B :=
  if e.CacheState ≠ .NP then
    { DataBlk := e.DataBlk, Dirty := e.Dirty, pendingAcks := e.Sharers.card }
  else { pendingAcks := e.Sharers.card }

def exec (inp : In n B) (a : Action) (c : Ctx n B) : Option (Ctx n B) :=
  match a with
  | .a_issueFetchToMemory =>
      inp.request.map fun m => c.fetch { type := m.type, Requestor := .L2Cache }
  | .b_forwardRequestToExclusive =>
      inp.request.bind fun m => c.line.entry.bind fun e => e.Exclusive.map fun x =>
        c.forward {x} { type := m.type, Requestor := m.Requestor }
  | .c_exclusiveReplacement =>
      c.line.entry.map fun e => c.writeBack
        { type := .MEMORY_DATA, Sender := .L2Cache, DataBlk := e.DataBlk, Dirty := e.Dirty }
  | .c_exclusiveCleanReplacement => some (c.writeBack { type := .ACK, Sender := .L2Cache })
  | .ct_exclusiveReplacementFromTBE =>
      c.line.tbe.map fun t => c.writeBack
        { type := .MEMORY_DATA, Sender := .L2Cache, DataBlk := t.DataBlk, Dirty := t.Dirty }
  | .d_sendDataToRequestor =>
      inp.requestor.bind fun i => c.line.entry.map fun e => c.respond {i}
        { type := .DATA, Sender := .L2Cache, DataBlk := e.DataBlk,
          AckCount := ackCount e.Sharers i }
  | .dd_sendExclusiveDataToRequestor =>
      inp.requestor.bind fun i => c.line.entry.map fun e => c.respond {i}
        { type := .DATA_EXCLUSIVE, Sender := .L2Cache, DataBlk := e.DataBlk,
          AckCount := ackCount e.Sharers i }
  | .ds_sendSharedDataToRequestor =>
      inp.requestor.bind fun i => c.line.entry.map fun e => c.respond {i}
        { type := .DATA, Sender := .L2Cache, DataBlk := e.DataBlk }
  | .e_sendDataToGetSRequestors =>
      c.line.tbe.bind fun t => c.line.entry.bind fun e =>
        if 0 < t.L1_GetS_IDs.card then
          some (c.respond t.L1_GetS_IDs { type := .DATA, Sender := .L2Cache, DataBlk := e.DataBlk })
        else none
  | .ex_sendExclusiveDataToGetSRequestors =>
      c.line.tbe.bind fun t => c.line.entry.bind fun e =>
        if t.L1_GetS_IDs.card = 1 then
          some (c.respond t.L1_GetS_IDs
            { type := .DATA_EXCLUSIVE, Sender := .L2Cache, DataBlk := e.DataBlk })
        else none
  | .ee_sendDataToGetXRequestor =>
      c.line.tbe.bind fun t => c.line.entry.bind fun e => t.L1_GetX_ID.map fun i =>
        c.respond {i} { type := .DATA, Sender := .L2Cache, DataBlk := e.DataBlk }
  | .f_sendInvToSharers =>
      c.line.entry.map fun e => c.forward e.Sharers { type := .INV, Requestor := .L2Cache }
  | .fwm_sendFwdInvToSharersMinusRequestor =>
      inp.requestor.bind fun i => c.line.entry.map fun e =>
        c.forward (e.Sharers.erase i) { type := .INV, Requestor := .L1Cache i }
  | .i_allocateTBE =>
      -- the TBE table asserts that the line has no TBE yet, and in `deallocate` that it has one
      c.line.entry.bind fun e =>
        if c.line.tbe.isSome then none else some (c.setTBE (some (newTBE e)))
  | .s_deallocateTBE => c.line.tbe.map fun _ => c.setTBE none
  | .m_writeDataToCache =>
      inp.response.bind fun m => c.line.entry.map fun e => c.setEntry
        (some { e with DataBlk := m.DataBlk, Dirty := m.Dirty || e.Dirty })
  | .mr_writeDataToCacheFromRequest =>
      inp.request.bind fun m => c.line.entry.map fun e =>
        if m.Dirty then c.setEntry (some { e with DataBlk := m.DataBlk, Dirty := m.Dirty }) else c
  | .q_updateAck =>
      inp.response.bind fun m => c.line.tbe.map fun t =>
        c.setTBE (some { t with pendingAcks := t.pendingAcks - m.AckCount })
  | .qq_writeDataToTBE =>
      inp.response.bind fun m => c.line.tbe.map fun t =>
        c.setTBE (some { t with DataBlk := m.DataBlk, Dirty := m.Dirty })
  | .qqr_writeDataToTBEFromPUTX =>
      inp.request.bind fun m => c.line.tbe.map fun t =>
        if m.Dirty then c.setTBE (some { t with DataBlk := m.DataBlk, Dirty := true }) else c
  | .ss_recordGetSL1ID =>
      inp.requestor.bind fun i => c.line.tbe.map fun t =>
        c.setTBE (some { t with L1_GetS_IDs := insert i t.L1_GetS_IDs })
  | .xx_recordGetXL1ID =>
      inp.requestor.bind fun i => c.line.tbe.map fun t =>
        c.setTBE (some { t with L1_GetX_ID := some i })
  | .qq_allocateL2CacheBlock => some (c.setEntry (c.line.entry <|> some {}))
  | .rr_deallocateL2CacheBlock => some (c.setEntry none)
  | .t_sendWBAck =>
      inp.requestor.map fun i => c.respond {i} { type := .WB_ACK, Sender := .L2Cache }
  | .ts_sendInvAckToUpgrader =>
      inp.requestor.bind fun i => c.line.entry.map fun e => c.respond {i}
        { type := .ACK, Sender := .L2Cache, AckCount := 0 - (e.Sharers.card : ℤ) + 1 }
  | .nn_addSharer =>
      inp.requestor.bind fun i => c.line.entry.map fun e =>
        c.setEntry (some { e with Sharers := insert i e.Sharers })
  | .nnu_addSharerFromUnblock =>
      inp.unblocker.bind fun i => c.line.entry.map fun e =>
        c.setEntry (some { e with Sharers := insert i e.Sharers })
  | .ll_clearSharers => c.line.entry.map fun e => c.setEntry (some { e with Sharers := ∅ })
  | .mmu_markExclusiveFromUnblock =>
      inp.unblocker.bind fun i => c.line.entry.map fun e =>
        c.setEntry (some { e with Sharers := {i}, Exclusive := some i })
  | .jj_popL1RequestQueue | .k_popUnblockQueue | .o_popIncomingResponseQueue =>
      some { c with popped := true }
  -- the message stays in flight; profiling, the replacement policy and the wake-up of stalled
  -- messages do not change the line
  | .zz_stallAndWaitL1RequestQueue | .zn_recycleResponseNetwork | .kd_wakeUpDependents
  | .uu_profileMiss | .uu_profileHit | .set_setMRU => some c

/-- An event at the L2 controller: the outcome of its transition, `none` if the transition is
invalid or an assertion in its actions fails. -/
def doTransition (inp : In n B) (e : Event) (l : Line n B) : Option (Ctx n B) :=
  (transition l.getState e).bind fun (next, actions) =>
    (Lib.perform (exec inp) actions { line := l }).map fun c =>
      { c with line := c.line.setState next }

/-! ### The in_ports -/

/-- `none` for an invalid forwarded request type. -/
def L1Cache_request_type_to_event (t : CoherenceRequestType) (sharer : Bool) : Option Event :=
  match t with
  | .GETS => some .L1_GETS
  | .GET_INSTR => some .L1_GET_INSTR
  | .GETX => some .L1_GETX
  | .UPGRADE => some (if sharer then .L1_UPGRADE else .L1_GETX)
  | .PUTX => some (if sharer then .L1_PUTX else .L1_PUTX_old)
  | .INV | .WB_ACK | .DMA_READ | .DMA_WRITE => none

/-- The replacement event of an entry. -/
def replacementEvent (e : Entry n B) : Event :=
  if e.Dirty then .L2_Replacement else .L2_Replacement_clean

/-- `L1RequestL2Network_in`, for a request the banks have time for.  A line with no entry is
served when its set has room; otherwise another line is replaced. -/
def requestEvent (l : Line n B) (m : RequestMsg n B) : Option Event :=
  m.Requestor.l1Cache.bind fun i =>
    match l.entry with
    | some e =>
        if e.m_is_expired then some (replacementEvent e)
        else L1Cache_request_type_to_event m.type (decide (i ∈ e.Sharers))
    | none => L1Cache_request_type_to_event m.type false

/-- `responseL2Network_in`, for a response the banks have time for. -/
def responseEvent (l : Line n B) (m : ResponseMsg n B) : Option Event :=
  match m.Sender with
  | .L1Cache _ =>
      match m.type with
      | .DATA => some (if m.Dirty then .WB_Data else .WB_Data_clean)
      | .ACK =>
          match l.tbe with
          | some t => some (if t.pendingAcks - m.AckCount = 0 then .Ack_all else .Ack)
          -- a stray ack for a block that has been evicted
          | none => some .Ack
      | .MEMORY_ACK | .DATA_EXCLUSIVE | .MEMORY_DATA | .WB_ACK | .UNBLOCK | .EXCLUSIVE_UNBLOCK
      | .INV => none
  | .L2Cache | .Directory | .DMA _ =>
      match m.type with
      | .MEMORY_DATA => some .Mem_Data
      | .MEMORY_ACK => some .Mem_Ack
      | .INV => some .MEM_Inv
      | .DATA | .DATA_EXCLUSIVE | .ACK | .WB_ACK | .UNBLOCK | .EXCLUSIVE_UNBLOCK => none

/-- `L1unblockNetwork_in`. -/
def unblockEvent (m : ResponseMsg n B) : Option Event :=
  match m.type with
  | .EXCLUSIVE_UNBLOCK => some .Exclusive_Unblock
  | .UNBLOCK => some .Unblock
  | .MEMORY_ACK | .DATA | .DATA_EXCLUSIVE | .MEMORY_DATA | .ACK | .WB_ACK | .INV => none

end Exec

end SttRuby.Protocol.L2Cache
