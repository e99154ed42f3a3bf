import SttRuby.Protocol.Messages

/-!
# Protocol — L1Cache

`MESI_Two_Level-L1cache.sm` for one line: its states, events and transition table, the actions,
and the events that its in_ports trigger.  The line is held in at most one of the two L1 caches;
`icache` says which.  An action that peeks at a message, or uses an entry or a TBE, that is not
there fails like the assertion or the null pointer it stands for.  What the sequencer does to
the block in `writeCallback` is a parameter of the step, and the stores that complete are
listed in the outcome.  Stalled and recycled messages stay in flight.
-/

namespace SttRuby.Protocol.L1Cache

inductive State where
  | NP | I | S | E | M | IS | IM | SM | IS_I | M_I | SINK_WB_ACK | PF_IS | PF_IM | PF_SM
  | PF_IS_I | LLSC_E | LLSC_M
  deriving DecidableEq

/-- The states with an LL/SC lock. -/
def State.locked : State → Bool
  | .LLSC_E | .LLSC_M => true
  | _ => false

inductive Event where
  | Load | Ifetch | Store | Inv | L1_Replacement | PF_L1_Replacement | Fwd_GETX | Fwd_GETS
  | Fwd_GET_INSTR | Data | Data_Exclusive | DataS_fromL1 | Data_all_Acks | Ack | Ack_all
  | WB_Ack | PF_Load | PF_Ifetch | PF_Store | Load_Linked | LLSC_Data_all_Acks | LLSC_Ack_all
  | LLSC_Timeout
  deriving DecidableEq

inductive Action where
  | z_stallAndWaitMandatoryQueue | z_stallAndWaitL1RequestQueue | z_stallAndWaitOptionalQueue
  | ff_deallocateL1CacheBlock | pq_popPrefetchQueue | oo_allocateL1DCacheBlock | i_allocateTBE
  | a_issueGETS | uu_profileDataMiss | po_observeMiss | k_popMandatoryQueue | ll_markLoadLinked
  | b_issueGETX | pa_issuePfGETS | ppm_observePfMiss | uu_profileInstMiss
  | pp_allocateL1ICacheBlock | ai_issueGETINSTR | pai_issuePfGETINSTR | pb_issuePfGETX
  | fi_sendInvAck | l_popRequestQueue | h_load_hit | uu_profileDataHit | po_observeHit
  | h_ifetch_hit | uu_profileInstHit | c_issueUPGRADE | forward_eviction_to_cpu | hh_store_hit
  | g_issuePUTX | d_sendDataToRequestor | d2_sendDataToL2 | ll_scheduleLoadLinkedLockTimeout
  | s_deallocateTBE | o_popIncomingResponseQueue | kd_wakeUpDependents | f_sendDataToL2
  | ft_sendDataToL2_fromTBE | dt_sendDataToRequestor_fromTBE | d2t_sendDataToL2_fromTBE
  | u_writeDataToL1Cache | hx_load_hit | mp_markPrefetched | j_sendUnblock
  | jj_sendExclusiveUnblock | q_updateAckCount | hhx_store_hit | ll_unsetLoadLinkedLockTimer
  deriving DecidableEq

def table : List (Lib.Rule State Event Action) := [
    ⟨[.IS, .IM, .IS_I, .M_I, .SM, .SINK_WB_ACK], [.Load, .Ifetch, .Store, .L1_Replacement,
       .Load_Linked], none,
      [.z_stallAndWaitMandatoryQueue]⟩,
    ⟨[.LLSC_E, .LLSC_M], [.L1_Replacement], none, [.z_stallAndWaitMandatoryQueue]⟩,
    ⟨[.LLSC_E, .LLSC_M], [.Fwd_GETS, .Fwd_GETX, .Fwd_GET_INSTR, .Inv], none,
      [.z_stallAndWaitL1RequestQueue]⟩,
    ⟨[.PF_IS, .PF_IS_I], [.Store, .Load_Linked, .L1_Replacement], none,
      [.z_stallAndWaitMandatoryQueue]⟩,
    ⟨[.PF_IM, .PF_SM], [.Load, .Ifetch, .L1_Replacement], none, [.z_stallAndWaitMandatoryQueue]⟩,
    ⟨[.IS, .IM, .IS_I, .M_I, .SM, .SINK_WB_ACK, .PF_IS, .PF_IS_I, .PF_IM, .PF_SM, .LLSC_E,
       .LLSC_M], [.PF_L1_Replacement], none,
      [.z_stallAndWaitOptionalQueue]⟩,
    ⟨[.NP, .I], [.L1_Replacement, .PF_L1_Replacement], none, [.ff_deallocateL1CacheBlock]⟩,
    ⟨[.S, .E, .M, .IS, .IM, .SM, .IS_I, .PF_IS_I, .M_I, .SINK_WB_ACK, .PF_IS, .PF_IM, .LLSC_E,
       .LLSC_M], [.PF_Load, .PF_Store, .PF_Ifetch], none,
      [.pq_popPrefetchQueue]⟩,
    ⟨[.NP, .I], [.Load], some .IS,
      [.oo_allocateL1DCacheBlock, .i_allocateTBE, .a_issueGETS, .uu_profileDataMiss,
       .po_observeMiss, .k_popMandatoryQueue]⟩,
    ⟨[.NP, .I], [.Load_Linked], some .IM,
      [.oo_allocateL1DCacheBlock, .i_allocateTBE, .ll_markLoadLinked, .b_issueGETX,
       .uu_profileDataMiss, .po_observeMiss, .k_popMandatoryQueue]⟩,
    ⟨[.NP, .I], [.PF_Load], some .PF_IS,
      [.oo_allocateL1DCacheBlock, .i_allocateTBE, .pa_issuePfGETS, .pq_popPrefetchQueue]⟩,
    ⟨[.PF_IS], [.Load], some .IS,
      [.uu_profileDataMiss, .ppm_observePfMiss, .k_popMandatoryQueue]⟩,
    ⟨[.PF_IS_I], [.Load], some .IS_I,
      [.uu_profileDataMiss, .ppm_observePfMiss, .k_popMandatoryQueue]⟩,
    ⟨[.PF_IS_I], [.Ifetch], some .IS_I,
      [.uu_profileInstMiss, .ppm_observePfMiss, .k_popMandatoryQueue]⟩,
    ⟨[.NP, .I], [.Ifetch], some .IS,
      [.pp_allocateL1ICacheBlock, .i_allocateTBE, .ai_issueGETINSTR, .uu_profileInstMiss,
       .po_observeMiss, .k_popMandatoryQueue]⟩,
    ⟨[.NP, .I], [.PF_Ifetch], some .PF_IS,
      [.pp_allocateL1ICacheBlock, .i_allocateTBE, .pai_issuePfGETINSTR, .pq_popPrefetchQueue]⟩,
    ⟨[.PF_IS], [.Ifetch], some .IS,
      [.uu_profileDataMiss, .ppm_observePfMiss, .k_popMandatoryQueue]⟩,
    ⟨[.NP, .I], [.Store], some .IM,
      [.oo_allocateL1DCacheBlock, .i_allocateTBE, .b_issueGETX, .uu_profileDataMiss,
       .po_observeMiss, .k_popMandatoryQueue]⟩,
    ⟨[.NP, .I], [.PF_Store], some .PF_IM,
      [.oo_allocateL1DCacheBlock, .i_allocateTBE, .pb_issuePfGETX, .pq_popPrefetchQueue]⟩,
    ⟨[.PF_IM], [.Store], some .IM,
      [.uu_profileDataMiss, .ppm_observePfMiss, .k_popMandatoryQueue]⟩,
    ⟨[.PF_IM], [.Load_Linked], some .IM,
      [.uu_profileDataMiss, .ppm_observePfMiss, .ll_markLoadLinked, .k_popMandatoryQueue]⟩,
    ⟨[.PF_SM], [.Store], some .SM,
      [.uu_profileDataMiss, .ppm_observePfMiss, .k_popMandatoryQueue]⟩,
    ⟨[.PF_SM], [.Load_Linked], some .SM,
      [.uu_profileDataMiss, .ppm_observePfMiss, .ll_markLoadLinked, .k_popMandatoryQueue]⟩,
    ⟨[.NP, .I], [.Inv], none, [.fi_sendInvAck, .l_popRequestQueue]⟩,
    ⟨[.S, .E, .M], [.Load], none,
      [.h_load_hit, .uu_profileDataHit, .po_observeHit, .k_popMandatoryQueue]⟩,
    ⟨[.S, .E, .M], [.Ifetch], none,
      [.h_ifetch_hit, .uu_profileInstHit, .po_observeHit, .k_popMandatoryQueue]⟩,
    ⟨[.S], [.Load_Linked], some .SM,
      [.i_allocateTBE, .ll_markLoadLinked, .c_issueUPGRADE, .uu_profileDataMiss,
       .k_popMandatoryQueue]⟩,
    ⟨[.S], [.Store], some .SM,
      [.i_allocateTBE, .c_issueUPGRADE, .uu_profileDataMiss, .k_popMandatoryQueue]⟩,
    ⟨[.S], [.L1_Replacement, .PF_L1_Replacement], some .I,
      [.forward_eviction_to_cpu, .ff_deallocateL1CacheBlock]⟩,
    ⟨[.S], [.Inv], some .I, [.forward_eviction_to_cpu, .fi_sendInvAck, .l_popRequestQueue]⟩,
    ⟨[.E, .M], [.Store], some .M,
      [.hh_store_hit, .uu_profileDataHit, .po_observeHit, .k_popMandatoryQueue]⟩,
    ⟨[.E], [.L1_Replacement, .PF_L1_Replacement], some .M_I,
      [.forward_eviction_to_cpu, .i_allocateTBE, .g_issuePUTX, .ff_deallocateL1CacheBlock]⟩,
    ⟨[.E], [.Inv], some .I, [.forward_eviction_to_cpu, .fi_sendInvAck, .l_popRequestQueue]⟩,
    ⟨[.E], [.Fwd_GETX], some .I,
      [.forward_eviction_to_cpu, .d_sendDataToRequestor, .l_popRequestQueue]⟩,
    ⟨[.E], [.Fwd_GETS, .Fwd_GET_INSTR], some .S,
      [.d_sendDataToRequestor, .d2_sendDataToL2, .l_popRequestQueue]⟩,
    ⟨[.E], [.Load_Linked], some .LLSC_E,
      [.h_load_hit, .uu_profileDataHit, .po_observeHit, .ll_scheduleLoadLinkedLockTimeout,
       .k_popMandatoryQueue]⟩,
    ⟨[.M], [.L1_Replacement, .PF_L1_Replacement], some .M_I,
      [.forward_eviction_to_cpu, .i_allocateTBE, .g_issuePUTX, .ff_deallocateL1CacheBlock]⟩,
    ⟨[.M_I], [.WB_Ack], some .I,
      [.s_deallocateTBE, .o_popIncomingResponseQueue, .kd_wakeUpDependents]⟩,
    ⟨[.M], [.Inv], some .I, [.forward_eviction_to_cpu, .f_sendDataToL2, .l_popRequestQueue]⟩,
    ⟨[.M_I], [.Inv], some .SINK_WB_ACK, [.ft_sendDataToL2_fromTBE, .l_popRequestQueue]⟩,
    ⟨[.M], [.Fwd_GETX], some .I,
      [.forward_eviction_to_cpu, .d_sendDataToRequestor, .l_popRequestQueue]⟩,
    ⟨[.M], [.Fwd_GETS, .Fwd_GET_INSTR], some .S,
      [.d_sendDataToRequestor, .d2_sendDataToL2, .l_popRequestQueue]⟩,
    ⟨[.M], [.Load_Linked], some .LLSC_M,
      [.h_load_hit, .uu_profileDataHit, .po_observeHit, .ll_scheduleLoadLinkedLockTimeout,
       .k_popMandatoryQueue]⟩,
    ⟨[.M_I], [.Fwd_GETX], some .SINK_WB_ACK,
      [.dt_sendDataToRequestor_fromTBE, .l_popRequestQueue]⟩,
    ⟨[.M_I], [.Fwd_GETS, .Fwd_GET_INSTR], some .SINK_WB_ACK,
      [.dt_sendDataToRequestor_fromTBE, .d2t_sendDataToL2_fromTBE, .l_popRequestQueue]⟩,
    ⟨[.IS, .IS_I], [.Inv], some .IS_I, [.fi_sendInvAck, .l_popRequestQueue]⟩,
    ⟨[.PF_IS, .PF_IS_I], [.Inv], some .PF_IS_I, [.fi_sendInvAck, .l_popRequestQueue]⟩,
    ⟨[.IS], [.Data_all_Acks], some .S,
      [.u_writeDataToL1Cache, .hx_load_hit, .s_deallocateTBE, .o_popIncomingResponseQueue,
       .kd_wakeUpDependents]⟩,
    ⟨[.PF_IS], [.Data_all_Acks], some .S,
      [.u_writeDataToL1Cache, .s_deallocateTBE, .mp_markPrefetched, .o_popIncomingResponseQueue,
       .kd_wakeUpDependents]⟩,
    ⟨[.IS_I], [.Data_all_Acks], some .I,
      [.u_writeDataToL1Cache, .hx_load_hit, .s_deallocateTBE, .o_popIncomingResponseQueue,
       .kd_wakeUpDependents]⟩,
    ⟨[.PF_IS_I], [.Data_all_Acks], some .I,
      [.s_deallocateTBE, .o_popIncomingResponseQueue, .kd_wakeUpDependents]⟩,
    ⟨[.IS], [.DataS_fromL1], some .S,
      [.u_writeDataToL1Cache, .j_sendUnblock, .hx_load_hit, .s_deallocateTBE,
       .o_popIncomingResponseQueue, .kd_wakeUpDependents]⟩,
    ⟨[.PF_IS], [.DataS_fromL1], some .S,
      [.u_writeDataToL1Cache, .j_sendUnblock, .s_deallocateTBE, .o_popIncomingResponseQueue,
       .kd_wakeUpDependents]⟩,
    ⟨[.IS_I], [.DataS_fromL1], some .I,
      [.u_writeDataToL1Cache, .j_sendUnblock, .hx_load_hit, .s_deallocateTBE,
       .o_popIncomingResponseQueue, .kd_wakeUpDependents]⟩,
    ⟨[.PF_IS_I], [.DataS_fromL1], some .I,
      [.j_sendUnblock, .s_deallocateTBE, .o_popIncomingResponseQueue, .kd_wakeUpDependents]⟩,
    ⟨[.IS_I], [.Data_Exclusive], some .E,
      [.u_writeDataToL1Cache, .hx_load_hit, .jj_sendExclusiveUnblock, .s_deallocateTBE,
       .o_popIncomingResponseQueue, .kd_wakeUpDependents]⟩,
    ⟨[.PF_IS_I], [.Data_Exclusive], some .E,
      [.u_writeDataToL1Cache, .jj_sendExclusiveUnblock, .s_deallocateTBE,
       .o_popIncomingResponseQueue, .kd_wakeUpDependents]⟩,
    ⟨[.IS], [.Data_Exclusive], some .E,
      [.u_writeDataToL1Cache, .hx_load_hit, .jj_sendExclusiveUnblock, .s_deallocateTBE,
       .o_popIncomingResponseQueue, .kd_wakeUpDependents]⟩,
    ⟨[.PF_IS], [.Data_Exclusive], some .E,
      [.u_writeDataToL1Cache, .jj_sendExclusiveUnblock, .s_deallocateTBE, .mp_markPrefetched,
       .o_popIncomingResponseQueue, .kd_wakeUpDependents]⟩,
    ⟨[.IM], [.Inv], some .IM, [.fi_sendInvAck, .l_popRequestQueue]⟩,
    ⟨[.PF_IM, .PF_SM], [.Inv], some .PF_IM, [.fi_sendInvAck, .l_popRequestQueue]⟩,
    ⟨[.IM], [.Data], some .SM,
      [.u_writeDataToL1Cache, .q_updateAckCount, .o_popIncomingResponseQueue]⟩,
    ⟨[.PF_IM], [.Data], some .PF_SM,
      [.u_writeDataToL1Cache, .q_updateAckCount, .o_popIncomingResponseQueue]⟩,
    ⟨[.IM], [.Data_all_Acks], some .M,
      [.u_writeDataToL1Cache, .hhx_store_hit, .jj_sendExclusiveUnblock, .s_deallocateTBE,
       .o_popIncomingResponseQueue, .kd_wakeUpDependents]⟩,
    ⟨[.IM], [.LLSC_Data_all_Acks], some .LLSC_E,
      [.u_writeDataToL1Cache, .hx_load_hit, .jj_sendExclusiveUnblock, .s_deallocateTBE,
       .o_popIncomingResponseQueue, .ll_scheduleLoadLinkedLockTimeout, .kd_wakeUpDependents]⟩,
    ⟨[.PF_IM], [.Data_all_Acks], some .M,
      [.u_writeDataToL1Cache, .jj_sendExclusiveUnblock, .s_deallocateTBE, .mp_markPrefetched,
       .o_popIncomingResponseQueue, .kd_wakeUpDependents]⟩,
    ⟨[.SM], [.Inv], some .IM, [.forward_eviction_to_cpu, .fi_sendInvAck, .l_popRequestQueue]⟩,
    ⟨[.SM, .IM, .PF_SM, .PF_IM], [.Ack], none, [.q_updateAckCount, .o_popIncomingResponseQueue]⟩,
    ⟨[.SM], [.Ack_all], some .M,
      [.jj_sendExclusiveUnblock, .hhx_store_hit, .s_deallocateTBE, .o_popIncomingResponseQueue,
       .kd_wakeUpDependents]⟩,
    ⟨[.SM], [.LLSC_Ack_all], some .LLSC_E,
      [.jj_sendExclusiveUnblock, .hx_load_hit, .s_deallocateTBE, .o_popIncomingResponseQueue,
       .ll_scheduleLoadLinkedLockTimeout, .kd_wakeUpDependents]⟩,
    ⟨[.PF_SM], [.Ack_all], some .M,
      [.jj_sendExclusiveUnblock, .s_deallocateTBE, .mp_markPrefetched,
       .o_popIncomingResponseQueue, .kd_wakeUpDependents]⟩,
    ⟨[.SINK_WB_ACK], [.Inv], none, [.fi_sendInvAck, .l_popRequestQueue]⟩,
    ⟨[.SINK_WB_ACK], [.WB_Ack], some .I,
      [.s_deallocateTBE, .o_popIncomingResponseQueue, .kd_wakeUpDependents]⟩,
    ⟨[.LLSC_E, .LLSC_M], [.Load, .Load_Linked], none,
      [.h_load_hit, .uu_profileDataHit, .po_observeHit, .k_popMandatoryQueue]⟩,
    ⟨[.LLSC_E, .LLSC_M], [.Store], some .LLSC_M,
      [.hh_store_hit, .uu_profileDataHit, .po_observeHit, .k_popMandatoryQueue]⟩,
    ⟨[.LLSC_E, .LLSC_M], [.Ifetch], none,
      [.h_ifetch_hit, .uu_profileInstHit, .po_observeHit, .k_popMandatoryQueue]⟩,
    ⟨[.LLSC_E], [.LLSC_Timeout], some .E, [.ll_unsetLoadLinkedLockTimer, .kd_wakeUpDependents]⟩,
    ⟨[.LLSC_M], [.LLSC_Timeout], some .M, [.ll_unsetLoadLinkedLockTimer, .kd_wakeUpDependents]⟩]

/-- The next state and the actions of a state and an event, `none` for an invalid transition. -/
def transition (s : State) (e : Event) : Option (State × List Action) := Lib.declared table s e

/-! ### The line -/

structure Entry (B : ℕ) where
  CacheState : State := .I
  DataBlk : DataBlock B := fun _ => 0
  Dirty : Bool := false
  isPrefetch : Bool := false
  m_is_expired : Bool := false
  icache : Bool

structure TBE (B : ℕ) where
  TBEState : State := .I
  DataBlk : DataBlock B := fun _ => 0
  Dirty : Bool := false
  isPrefetch : Bool := false
  pendingAcks : ℤ := 0
  isLoadLinked : Bool := false

/-- What an L1 controller holds of the line: its entry, its TBE, and whether the LL/SC lock
timer of the line is set. -/
structure Line (B : ℕ) where
  entry : Option (Entry B) := none
  tbe : Option (TBE B) := none
  llscLock : Bool := false

namespace Line

variable {B : ℕ}

def getState (l : Line B) : State :=
  match l.tbe, l.entry with
  | some t, _ => t.TBEState
  | none, some e => e.CacheState
  | none, none => .NP

def setState (l : Line B) (s : State) : Line B :=
  { l with
    tbe := l.tbe.map fun t => { t with TBEState := s }
    entry := l.entry.map fun e => { e with CacheState := s } }

end Line

/-! ### Actions -/

/-- The message at the port of the event, and what a completing store does to the block. -/
structure In (n B : ℕ) where
  request : Option (RequestMsg n B) := none
  response : Option (ResponseMsg n B) := none
  store : DataBlock B → DataBlock B := id

/-- A transition under way: the line, the messages sent so far, the stores completed, and
whether the message at the port has been dequeued. -/
structure Ctx (n B : ℕ) where
  line : Line B
  requestFromL1Cache : List (RequestMsg n B) := []
  responseFromL1Cache : List (MachineID n × ResponseMsg n B) := []
  unblockFromL1Cache : List (ResponseMsg n B) := []
  stores : List (DataBlock B → DataBlock B) := []
  popped : Bool := false

namespace Ctx

variable {n B : ℕ} (c : Ctx n B)

def request (m : RequestMsg n B) : Ctx n B :=
  { c with requestFromL1Cache := c.requestFromL1Cache ++ [m] }

def respond (destination : MachineID n) (m : ResponseMsg n B) : Ctx n B :=
  { c with responseFromL1Cache := c.responseFromL1Cache ++ [(destination, m)] }

def unblock (m : ResponseMsg n B) : Ctx n B :=
  { c with unblockFromL1Cache := c.unblockFromL1Cache ++ [m] }

def setEntry (e : Option (Entry B)) : Ctx n B := { c with line := { c.line with entry := e } }

def setTBE (t : Option (TBE B)) : Ctx n B := { c with line := { c.line with tbe := t } }

def setLock (b : Bool) : Ctx n B := { c with line := { c.line with llscLock := b } }

end Ctx

section Exec

variable {n B : ℕ}

/-- The data of a new TBE: the entry's, unless the entry is idle. -/
def newTBE (e : Option (Entry B)) : TBE B :=
  match e with
  | some e =>
      if e.CacheState ≠ .I ∧ e.CacheState ≠ .NP then { DataBlk := e.DataBlk, Dirty := e.Dirty }
      else {}
  | none => {}

/-- The entry after the sequencer has stored to it. -/
def storeHit (w : DataBlock B → DataBlock B) (e : Entry B) : Entry B :=
  { e with DataBlk := w e.DataBlk, Dirty := true }

def exec (me : Fin n) (inp : In n B) (a : Action) (c : Ctx n B) : Option (Ctx n B) :=
  match a with
  | .a_issueGETS | .pa_issuePfGETS =>
      some (c.request { type := .GETS, Requestor := .L1Cache me })
  | .ai_issueGETINSTR | .pai_issuePfGETINSTR =>
      some (c.request { type := .GET_INSTR, Requestor := .L1Cache me })
  | .b_issueGETX | .pb_issuePfGETX =>
      some (c.request { type := .GETX, Requestor := .L1Cache me })
  | .c_issueUPGRADE => some (c.request { type := .UPGRADE, Requestor := .L1Cache me })
  | .d_sendDataToRequestor =>
      inp.request.bind fun m => c.line.entry.map fun e =>
        c.respond m.Requestor
          { type := .DATA, Sender := .L1Cache me, DataBlk := e.DataBlk, Dirty := e.Dirty }
  | .d2_sendDataToL2 | .f_sendDataToL2 =>
      c.line.entry.map fun e => c.respond .L2Cache
        { type := .DATA, Sender := .L1Cache me, DataBlk := e.DataBlk, Dirty := e.Dirty }
  | .dt_sendDataToRequestor_fromTBE =>
      inp.request.bind fun m => c.line.tbe.map fun t =>
        c.respond m.Requestor
          { type := .DATA, Sender := .L1Cache me, DataBlk := t.DataBlk, Dirty := t.Dirty }
  | .d2t_sendDataToL2_fromTBE | .ft_sendDataToL2_fromTBE =>
      c.line.tbe.map fun t => c.respond .L2Cache
        { type := .DATA, Sender := .L1Cache me, DataBlk := t.DataBlk, Dirty := t.Dirty }
  | .fi_sendInvAck =>
      inp.request.map fun m =>
        c.respond m.Requestor { type := .ACK, Sender := .L1Cache me, AckCount := 1 }
  | .g_issuePUTX =>
      c.line.entry.map fun e => c.request
        { type := .PUTX, Requestor := .L1Cache me, DataBlk := e.DataBlk, Dirty := e.Dirty }
  | .j_sendUnblock => some (c.unblock { type := .UNBLOCK, Sender := .L1Cache me })
  | .jj_sendExclusiveUnblock =>
      some (c.unblock { type := .EXCLUSIVE_UNBLOCK, Sender := .L1Cache me })
  | .h_load_hit | .h_ifetch_hit | .hx_load_hit => c.line.entry.map fun _ => c
  | .hh_store_hit | .hhx_store_hit =>
      c.line.entry.map fun e =>
        { c.setEntry (some (storeHit inp.store e)) with stores := c.stores ++ [inp.store] }
  | .i_allocateTBE =>
      -- the TBE table asserts that the line has no TBE yet, and in `deallocate` that it has one
      if c.line.tbe.isSome then none else some (c.setTBE (some (newTBE c.line.entry)))
  | .s_deallocateTBE => c.line.tbe.map fun _ => c.setTBE none
  | .u_writeDataToL1Cache =>
      inp.response.bind fun m => c.line.entry.map fun e =>
        c.setEntry (some { e with DataBlk := m.DataBlk, Dirty := m.Dirty })
  | .q_updateAckCount =>
      inp.response.bind fun m => c.line.tbe.map fun t =>
        c.setTBE (some { t with pendingAcks := t.pendingAcks - m.AckCount })
  | .ff_deallocateL1CacheBlock => some (c.setEntry none)
  | .oo_allocateL1DCacheBlock =>
      some (c.setEntry (c.line.entry <|> some { icache := false }))
  | .pp_allocateL1ICacheBlock =>
      some (c.setEntry (c.line.entry <|> some { icache := true }))
  | .po_observeHit => c.line.entry.map fun e => c.setEntry (some { e with isPrefetch := false })
  | .mp_markPrefetched =>
      c.line.entry.map fun e => c.setEntry (some { e with isPrefetch := true })
  -- the timer table asserts that the timer is not set yet, and that it is set
  | .ll_scheduleLoadLinkedLockTimeout => if c.line.llscLock then none else some (c.setLock true)
  | .ll_unsetLoadLinkedLockTimer => if c.line.llscLock then some (c.setLock false) else none
  | .ll_markLoadLinked => c.line.tbe.map fun t => c.setTBE (some { t with isLoadLinked := true })
  | .k_popMandatoryQueue | .l_popRequestQueue | .o_popIncomingResponseQueue
  | .pq_popPrefetchQueue => some { c with popped := true }
  -- the message stays in flight; profiling, the prefetcher's view of demand misses, the
  -- notification of the core and the wake-up of stalled messages do not change the line
  | .z_stallAndWaitMandatoryQueue | .z_stallAndWaitOptionalQueue | .z_stallAndWaitL1RequestQueue
  | .forward_eviction_to_cpu | .kd_wakeUpDependents | .uu_profileInstMiss | .uu_profileInstHit
  | .uu_profileDataMiss | .uu_profileDataHit | .po_observeMiss | .ppm_observePfMiss => some c

/-- An event at an L1 controller: the outcome of its transition, `none` if the transition is
invalid or an assertion in its actions fails. -/
def doTransition (me : Fin n) (inp : In n B) (e : Event) (l : Line B) : Option (Ctx n B) :=
  (transition l.getState e).bind fun (next, actions) =>
    (Lib.perform (exec me inp) actions { line := l }).map fun c =>
      { c with line := c.line.setState next }

/-! ### The in_ports -/

inductive RubyRequestType where
  | LD | ST | ATOMIC | IFETCH | Load_Linked
  deriving DecidableEq

/-- The default of the machine's parameter. -/
def use_llsc_lock : Bool := true

def mandatory_request_type_to_event : RubyRequestType → Event
  | .LD => .Load
  | .Load_Linked => if use_llsc_lock then .Load_Linked else .Load
  | .IFETCH => .Ifetch
  | .ST | .ATOMIC => .Store

/-- `mandatoryQueue_in`: a request for a line held by the right cache is served, unless the
entry has expired; a line held by the other cache is replaced first.  A line held by neither is
served when its set has room; otherwise another line is replaced. -/
def mandatoryEvent (l : Line B) (t : RubyRequestType) : Event :=
  match l.entry with
  | some e =>
      if e.icache = decide (t = .IFETCH) then
        if e.m_is_expired then .L1_Replacement else mandatory_request_type_to_event t
      else .L1_Replacement
  | none => mandatory_request_type_to_event t

/-- `requestL1Network_in`, `none` for an invalid forwarded request type. -/
def requestEvent (m : RequestMsg n B) : Option Event :=
  match m.type with
  | .INV => some .Inv
  | .GETX | .UPGRADE => some .Fwd_GETX
  | .GETS => some .Fwd_GETS
  | .GET_INSTR => some .Fwd_GET_INSTR
  | .PUTX | .WB_ACK | .DMA_READ | .DMA_WRITE => none

/-- `responseL1Network_in`, `none` for an invalid response type or the pending acks of a TBE
that is not there. -/
def responseEvent (l : Line B) (m : ResponseMsg n B) : Option Event :=
  match m.type with
  | .DATA_EXCLUSIVE => some .Data_Exclusive
  | .DATA =>
      if (l.getState = .IS ∨ l.getState = .IS_I ∨ l.getState = .PF_IS ∨ l.getState = .PF_IS_I) ∧
          ∃ i, m.Sender = .L1Cache i then
        some .DataS_fromL1
      else l.tbe.map fun t =>
        if t.pendingAcks - m.AckCount = 0 then
          if t.isLoadLinked then .LLSC_Data_all_Acks else .Data_all_Acks
        else .Data
  | .ACK => l.tbe.map fun t =>
      if t.pendingAcks - m.AckCount = 0 then
        if t.isLoadLinked then .LLSC_Ack_all else .Ack_all
      else .Ack
  | .WB_ACK => some .WB_Ack
  | .MEMORY_ACK | .MEMORY_DATA | .UNBLOCK | .EXCLUSIVE_UNBLOCK | .INV => none

end Exec

end SttRuby.Protocol.L1Cache
