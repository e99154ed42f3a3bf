import SttRuby.Protocol.Messages

/-!
# Protocol — Directory

`MESI_Two_Level-dir.sm` for one line, and the memory behind it.  A DMA request may name an
address inside the line: the directory handles it at the line's address and keeps the full
address in the TBE.  The response of the memory carries the address of the memory request, and
the TBE is looked up at that address, so a response for an address inside the line finds no TBE.
-/

namespace SttRuby.Protocol.Directory

inductive State where
  | I | ID | ID_W | M | IM | MI | M_DRD | M_DRDI | M_DWR | M_DWRI
  deriving DecidableEq

inductive Event where
  | Fetch | Data | Memory_Data | Memory_Ack | DMA_READ | DMA_WRITE | CleanReplacement
  deriving DecidableEq

inductive Action where
  | qf_queueMemoryFetchRequest | j_popIncomingRequestQueue | inv_sendCacheInvalidate
  | z_stallAndWaitRequest | d_sendData | l_popMemQueue | kd_wakeUpDependents | a_sendAck
  | k_popIncomingResponseQueue | qw_queueMemoryWBRequest | aa_sendAck | v_allocateTBE
  | qf_queueMemoryFetchRequestDMA | dr_sendDMAData | w_deallocateTBE
  | qw_queueMemoryWBRequest_partial | da_sendDMAAck | zz_recycleDMAQueue | drp_sendDMAData
  | qw_queueMemoryWBRequest_partialTBE
  deriving DecidableEq

open SttRuby.Protocol.Directory.Action in
def table : List (Lib.Rule State Event Action) := [
    ⟨[.I], [.Fetch], some .IM, [.qf_queueMemoryFetchRequest, .j_popIncomingRequestQueue]⟩,
    ⟨[.M], [.Fetch], none, [.inv_sendCacheInvalidate, .z_stallAndWaitRequest]⟩,
    ⟨[.IM], [.Memory_Data], some .M, [.d_sendData, .l_popMemQueue, .kd_wakeUpDependents]⟩,
    ⟨[.M], [.CleanReplacement], some .I,
      [.a_sendAck, .k_popIncomingResponseQueue, .kd_wakeUpDependents]⟩,
    ⟨[.M], [.Data], some .MI, [.qw_queueMemoryWBRequest, .k_popIncomingResponseQueue]⟩,
    ⟨[.MI], [.Memory_Ack], some .I, [.aa_sendAck, .l_popMemQueue, .kd_wakeUpDependents]⟩,
    ⟨[.I], [.DMA_READ], some .ID,
      [.v_allocateTBE, .qf_queueMemoryFetchRequestDMA, .j_popIncomingRequestQueue]⟩,
    ⟨[.ID], [.Memory_Data], some .I,
      [.dr_sendDMAData, .w_deallocateTBE, .l_popMemQueue, .kd_wakeUpDependents]⟩,
    ⟨[.I], [.DMA_WRITE], some .ID_W,
      [.v_allocateTBE, qw_queueMemoryWBRequest_partial, .j_popIncomingRequestQueue]⟩,
    ⟨[.ID_W], [.Memory_Ack], some .I,
      [.da_sendDMAAck, .w_deallocateTBE, .l_popMemQueue, .kd_wakeUpDependents]⟩,
    ⟨[.ID, .ID_W, .M_DRDI, .M_DWRI, .IM, .MI], [.Fetch, .Data], none, [.z_stallAndWaitRequest]⟩,
    ⟨[.ID, .ID_W, .M_DRD, .M_DRDI, .M_DWR, .M_DWRI, .IM, .MI], [.DMA_WRITE, .DMA_READ], none,
      [.zz_recycleDMAQueue]⟩,
    ⟨[.M], [.DMA_READ], some .M_DRD,
      [.v_allocateTBE, .inv_sendCacheInvalidate, .j_popIncomingRequestQueue]⟩,
    ⟨[.M_DRD], [.Data], some .M_DRDI,
      [.drp_sendDMAData, .w_deallocateTBE, .qw_queueMemoryWBRequest, .k_popIncomingResponseQueue]⟩,
    ⟨[.M_DRDI], [.Memory_Ack], some .I, [.aa_sendAck, .l_popMemQueue, .kd_wakeUpDependents]⟩,
    ⟨[.M], [.DMA_WRITE], some .M_DWR,
      [.v_allocateTBE, .inv_sendCacheInvalidate, .j_popIncomingRequestQueue]⟩,
    ⟨[.M_DWR], [.Data], some .M_DWRI,
      [.qw_queueMemoryWBRequest_partialTBE, .k_popIncomingResponseQueue]⟩,
    ⟨[.M_DWRI], [.Memory_Ack], some .I,
      [.aa_sendAck, .da_sendDMAAck, .w_deallocateTBE, .l_popMemQueue, .kd_wakeUpDependents]⟩,
    ⟨[.I], [.CleanReplacement], none,
      [.a_sendAck, .k_popIncomingResponseQueue, .kd_wakeUpDependents]⟩,
    ⟨[.MI], [.CleanReplacement], none, [.k_popIncomingResponseQueue]⟩]

/-- The next state and the actions of a state and an event, `none` for an invalid transition. -/
def transition (s : State) (e : Event) : Option (State × List Action) := Lib.declared table s e

/-! ### The line -/

structure TBE (n B : ℕ) where
  offset : ℕ
  TBEState : State := .I
  DataBlk : DataBlock B
  Len : ℕ
  Requestor : MachineID n

structure Line (n B : ℕ) where
  DirectoryState : State := .I
  Owner : Option (MachineID n) := none
  tbe : Option (TBE n B) := none

namespace Line

variable {n B : ℕ}

def getState (l : Line n B) : State :=
  match l.tbe with
  | some t => t.TBEState
  | none => l.DirectoryState

def setState (l : Line n B) (s : State) : Line n B :=
  { l with
    DirectoryState := s
    tbe := l.tbe.map fun t => { t with TBEState := s } }

/-- The line as a memory response at an offset sees it: `TBEs[in_msg.addr]`. -/
def seenAt (l : Line n B) (offset : ℕ) : Line n B :=
  if offset = 0 then l else { l with tbe := none }

end Line

/-! ### Actions -/

/-- The message at the port of the event. -/
structure In (n B : ℕ) where
  request : Option (RequestMsg n B) := none
  response : Option (ResponseMsg n B) := none
  memory : Option (MemoryMsg n B) := none

structure Ctx (n B : ℕ) where
  line : Line n B
  responseFromDir : List (MachineID n × ResponseMsg n B) := []
  requestToMemory : List (MemoryMsg n B) := []
  popped : Bool := false

namespace Ctx

variable {n B : ℕ} (c : Ctx n B)

def respond (destination : MachineID n) (m : ResponseMsg n B) : Ctx n B :=
  { c with responseFromDir := c.responseFromDir ++ [(destination, m)] }

def queueMemory (m : MemoryMsg n B) : Ctx n B :=
  { c with requestToMemory := c.requestToMemory ++ [m] }

def setTBE (t : Option (TBE n B)) : Ctx n B := { c with line := { c.line with tbe := t } }

end Ctx

section Exec

variable {n B : ℕ}

open SttRuby.Protocol.Directory.Action in
/-- The source leaves the sender of the messages to DMA controllers unset. -/
def exec (inp : In n B) (a : Action) (c : Ctx n B) : Option (Ctx n B) :=
  match a with
  | .a_sendAck =>
      inp.response.map fun m => c.respond m.Sender { type := .MEMORY_ACK, Sender := .Directory }
  | .d_sendData =>
      inp.memory.map fun m =>
        { c.respond m.Sender
            { type := .MEMORY_DATA, Sender := .Directory, DataBlk := m.DataBlk } with
          line := { c.line with Owner := some m.Sender } }
  | .aa_sendAck =>
      inp.memory.map fun m => c.respond m.Sender { type := .MEMORY_ACK, Sender := .Directory }
  | .qf_queueMemoryFetchRequest | .qf_queueMemoryFetchRequestDMA =>
      inp.request.map fun m => c.queueMemory { type := .MEMORY_READ, Sender := m.Requestor }
  | .qw_queueMemoryWBRequest =>
      inp.response.map fun m =>
        c.queueMemory { type := .MEMORY_WB, Sender := m.Sender, DataBlk := m.DataBlk }
  | .dr_sendDMAData =>
      inp.memory.bind fun m => c.line.tbe.map fun t =>
        c.respond t.Requestor { type := .DATA, Sender := .Directory, DataBlk := m.DataBlk }
  | qw_queueMemoryWBRequest_partial =>
      inp.request.map fun m => c.queueMemory
        { type := .MEMORY_WB, Sender := .Directory, DataBlk := m.DataBlk, offset := m.offset,
          Len := m.Len }
  | .da_sendDMAAck =>
      c.line.tbe.map fun t => c.respond t.Requestor { type := .ACK, Sender := .Directory }
  | .inv_sendCacheInvalidate =>
      c.line.Owner.map fun o => c.respond o { type := .INV, Sender := .Directory }
  | .drp_sendDMAData =>
      inp.response.bind fun m => c.line.tbe.map fun t =>
        c.respond t.Requestor { type := .DATA, Sender := .Directory, DataBlk := m.DataBlk }
  | .v_allocateTBE =>
      inp.request.bind fun m =>
        if c.line.tbe.isSome then none
        else some (c.setTBE (some
          { offset := m.offset, DataBlk := m.DataBlk, Len := m.Len, Requestor := m.Requestor }))
  | .qw_queueMemoryWBRequest_partialTBE =>
      inp.response.bind fun m => c.line.tbe.map fun t => c.queueMemory
        { type := .MEMORY_WB, Sender := m.Sender, DataBlk := t.DataBlk, offset := t.offset,
          Len := t.Len }
  | .w_deallocateTBE => c.line.tbe.map fun _ => c.setTBE none
  | .j_popIncomingRequestQueue | .k_popIncomingResponseQueue | .l_popMemQueue =>
      some { c with popped := true }
  -- the message stays in flight; on `Data` the table stalls the request queue instead of the
  -- response, which stays where it is just the same
  | .z_stallAndWaitRequest | .zz_recycleDMAQueue | .kd_wakeUpDependents => some c

/-- An event at the directory: the outcome of its transition, `none` if the transition is
invalid or an assertion in its actions fails. -/
def doTransition (inp : In n B) (e : Event) (l : Line n B) : Option (Ctx n B) :=
  (transition l.getState e).bind fun (next, actions) =>
    (Lib.perform (exec inp) actions { line := l }).map fun c =>
      { c with line := c.line.setState next }

/-! ### The in_ports -/

def isGETRequest (t : CoherenceRequestType) : Bool :=
  t = .GETS || t = .GET_INSTR || t = .GETX

/-- `requestNetwork_in`, `none` for an invalid message. -/
def requestEvent (m : RequestMsg n B) : Option Event :=
  if isGETRequest m.type then some .Fetch
  else if m.type = .DMA_READ then some .DMA_READ
  else if m.type = .DMA_WRITE then some .DMA_WRITE
  else none

/-- `responseNetwork_in`, `none` for an invalid message. -/
def responseEvent (m : ResponseMsg n B) : Option Event :=
  match m.type with
  | .MEMORY_DATA => some .Data
  | .ACK => some .CleanReplacement
  | .MEMORY_ACK | .DATA | .DATA_EXCLUSIVE | .WB_ACK | .UNBLOCK | .EXCLUSIVE_UNBLOCK | .INV => none

/-- `memQueue_in`. -/
def memoryEvent (m : MemoryMsg n B) : Event :=
  match m.type with
  | .MEMORY_READ => .Memory_Data
  | .MEMORY_WB => .Memory_Ack

/-! ### The memory -/

/-- A block overwritten with another in a window of bytes. -/
def overwrite (old new : DataBlock B) (offset len : ℕ) : DataBlock B := fun k =>
  if offset ≤ k.val ∧ k.val < offset + len then new k else old k

/-- The bytes of a memory request: the whole block unless it has a length. -/
def requestSize (m : MemoryMsg n B) : ℕ := if 0 < m.Len then m.Len else B

/-- `serviceMemoryQueue` and `recvTimingResp`: the memory after a request, and the response.
The packet is made of the request's bytes, which must lie in the block. -/
def serviceMemoryQueue (memory : DataBlock B) (m : MemoryMsg n B) :
    Option (DataBlock B × MemoryMsg n B) :=
  if m.offset + requestSize m ≤ B then
    match m.type with
    | .MEMORY_READ =>
        some (memory, { type := .MEMORY_READ, Sender := m.Sender, DataBlk := memory,
                        offset := m.offset })
    | .MEMORY_WB =>
        some (overwrite memory m.DataBlk m.offset (requestSize m),
          { type := .MEMORY_WB, Sender := m.Sender, offset := m.offset })
  else none

end Exec

end SttRuby.Protocol.Directory
