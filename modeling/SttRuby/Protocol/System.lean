import SttRuby.Lib.Runs
import SttRuby.Protocol.Directory
import SttRuby.Protocol.L1Cache
import SttRuby.Protocol.L2Cache

/-!
# Protocol — System

The controllers of one line together, with the messages between them.  A buffer is a list from
which any message may be delivered next: the buffers are created unordered.  Each L1 is kept
with the buffers between it and the L2 and with what it has sent to other L1s (`Node`); the
directory with the memory and the buffers between it and the L2 (`Home`).

A label names the controller that acts and the message it acts on.  A step delivers the message
to its in_port; the transition that fires says whether the message is dequeued.  Some in_ports
first ask a cache whether a bank is free or a set has room: a message sent round again by such
a test is not delivered, and a line that has to make room is replaced by a step of its own.
`latest` is the block after the stores completed so far, in their order.
-/

namespace SttRuby.Protocol

/-- An L1, the buffers between it and the L2, and its messages to other L1s, by destination. -/
structure Node (n B : ℕ) where
  line : L1Cache.Line B := {}
  L1RequestToL2Cache : List (RequestMsg n B) := []
  responseToL2Cache : List (ResponseMsg n B) := []
  unblockToL2Cache : List (ResponseMsg n B) := []
  requestToL1Cache : List (RequestMsg n B) := []
  responseToL1Cache : List (ResponseMsg n B) := []
  responseBetweenL1s : List (Fin n × ResponseMsg n B) := []

/-- The directory, the memory, and the buffers between the directory and the L2. -/
structure Home (n B : ℕ) where
  dir : Directory.Line n B := {}
  requestToDir : List (RequestMsg n B) := []
  responseToDir : List (ResponseMsg n B) := []
  responseToL2Cache : List (ResponseMsg n B) := []
  responseToDMA : List (ℕ × ResponseMsg n B) := []
  requestToMemory : List (MemoryMsg n B) := []
  responseFromMemory : List (MemoryMsg n B) := []
  memory : DataBlock B

structure Sys (n B : ℕ) where
  node : Fin n → Node n B := fun _ => {}
  l2 : L2Cache.Line n B := {}
  home : Home n B
  latest : DataBlock B

section

variable {n B : ℕ}

namespace Node

/-- The node after a transition of its L1. -/
def afterL1 (nd : Node n B) (c : L1Cache.Ctx n B) : Node n B :=
  { nd with
    line := c.line
    L1RequestToL2Cache := nd.L1RequestToL2Cache ++ c.requestFromL1Cache
    responseToL2Cache := nd.responseToL2Cache ++
      c.responseFromL1Cache.filterMap fun r => if r.1 = .L2Cache then some r.2 else none
    responseBetweenL1s := nd.responseBetweenL1s ++
      c.responseFromL1Cache.filterMap fun r => r.1.l1Cache.map fun j => (j, r.2)
    unblockToL2Cache := nd.unblockToL2Cache ++ c.unblockFromL1Cache }

/-- The node after the L2 has sent it messages. -/
def receive (nd : Node n B) (requests : List (RequestMsg n B))
    (responses : List (ResponseMsg n B)) : Node n B :=
  { nd with
    requestToL1Cache := nd.requestToL1Cache ++ requests
    responseToL1Cache := nd.responseToL1Cache ++ responses }

end Node

namespace Home

def toDMA : MachineID n → Option ℕ
  | .DMA k => some k
  | .L1Cache _ | .L2Cache | .Directory => none

/-- The home side after a transition of the directory. -/
def afterDir (h : Home n B) (c : Directory.Ctx n B) : Home n B :=
  { h with
    dir := c.line
    requestToMemory := h.requestToMemory ++ c.requestToMemory
    responseToL2Cache := h.responseToL2Cache ++
      c.responseFromDir.filterMap fun r => if r.1 = .L2Cache then some r.2 else none
    responseToDMA := h.responseToDMA ++
      c.responseFromDir.filterMap fun r => (toDMA r.1).map fun k => (k, r.2) }

/-- The home side after the L2 has sent it messages. -/
def receive (h : Home n B) (requests : List (RequestMsg n B)) (responses : List (ResponseMsg n B)) :
    Home n B :=
  { h with
    requestToDir := h.requestToDir ++ requests
    responseToDir := h.responseToDir ++ responses }

end Home

/-- A buffer after the message `m` at its port has been handled. -/
def dequeue {α : Type} [DecidableEq α] (popped : Bool) (l : List α) (m : α) : List α :=
  if popped then l.erase m else l

/-! ### Steps of an L1 -/

/-- What an L1 acts on.  A store that completes does `w` to the block. -/
inductive L1Label (n B : ℕ) where
  | cpu (t : L1Cache.RubyRequestType) (w : DataBlock B → DataBlock B)
  | replacement
  | llscTimeout
  | request (m : RequestMsg n B)
  | response (m : ResponseMsg n B) (w : DataBlock B → DataBlock B)
  /-- A response from the L1 `j`. -/
  | responseFromL1 (j : Fin n) (m : ResponseMsg n B) (w : DataBlock B → DataBlock B)

namespace Sys

def setNode (g : Sys n B) (i : Fin n) (nd : Node n B) : Sys n B :=
  { g with node := Function.update g.node i nd }

/-- The event that the in_ports of the L1 `i` trigger. -/
def l1Event (g : Sys n B) (i : Fin n) : L1Label n B → Option (L1Cache.In n B × L1Cache.Event)
  | .cpu t w => some ({ store := w }, L1Cache.mandatoryEvent (g.node i).line t)
  | .replacement =>
      if (g.node i).line.entry.isSome then some ({}, .L1_Replacement) else none
  | .llscTimeout => if (g.node i).line.llscLock then some ({}, .LLSC_Timeout) else none
  | .request m =>
      if m ∈ (g.node i).requestToL1Cache then
        (L1Cache.requestEvent m).map fun e => ({ request := some m }, e)
      else none
  | .response m w =>
      if m ∈ (g.node i).responseToL1Cache then
        (L1Cache.responseEvent (g.node i).line m).map fun e =>
          ({ response := some m, store := w }, e)
      else none
  | .responseFromL1 j m w =>
      if (i, m) ∈ (g.node j).responseBetweenL1s then
        (L1Cache.responseEvent (g.node i).line m).map fun e =>
          ({ response := some m, store := w }, e)
      else none

/-- The message the L1 `i` acted on leaves its buffer, if it was dequeued. -/
def l1Dequeue (g : Sys n B) (i : Fin n) (popped : Bool) : L1Label n B → Sys n B
  | .cpu _ _ | .replacement | .llscTimeout => g
  | .request m => g.setNode i
      { g.node i with requestToL1Cache := dequeue popped (g.node i).requestToL1Cache m }
  | .response m _ => g.setNode i
      { g.node i with responseToL1Cache := dequeue popped (g.node i).responseToL1Cache m }
  | .responseFromL1 j m _ => g.setNode j
      { g.node j with
        responseBetweenL1s := dequeue popped (g.node j).responseBetweenL1s (i, m) }

/-- The state after a transition of the L1 `i`. -/
def afterL1 (g : Sys n B) (i : Fin n) (c : L1Cache.Ctx n B) : Sys n B :=
  { g.setNode i ((g.node i).afterL1 c) with
    latest := c.stores.foldl (fun d w => w d) g.latest }

def l1Step (g : Sys n B) (i : Fin n) (l : L1Label n B) : Option (Sys n B) :=
  (g.l1Event i l).bind fun (inp, e) =>
    (L1Cache.doTransition i inp e (g.node i).line).map fun c =>
      (g.l1Dequeue i c.popped l).afterL1 i c

end Sys

/-! ### Steps of the L2 -/

/-- What the L2 acts on: a message of the L1 `i` or of the directory, or a request for another
line that needs the room. -/
inductive L2Label (n B : ℕ) where
  | request (i : Fin n) (m : RequestMsg n B)
  | response (i : Fin n) (m : ResponseMsg n B)
  | unblock (i : Fin n) (m : ResponseMsg n B)
  | responseFromDir (m : ResponseMsg n B)
  | replacement

namespace Sys

/-- The event that the in_ports of the L2 trigger.  A victim that is already talking to memory is
left alone. -/
def l2Event (g : Sys n B) : L2Label n B → Option (L2Cache.In n B × L2Cache.Event)
  | .request i m =>
      if m ∈ (g.node i).L1RequestToL2Cache then
        (L2Cache.requestEvent g.l2 m).map fun e => ({ request := some m }, e)
      else none
  | .response i m =>
      if m ∈ (g.node i).responseToL2Cache then
        (L2Cache.responseEvent g.l2 m).map fun e => ({ response := some m }, e)
      else none
  | .unblock i m =>
      if m ∈ (g.node i).unblockToL2Cache then
        (L2Cache.unblockEvent m).map fun e => ({ unblock := some m }, e)
      else none
  | .responseFromDir m =>
      if m ∈ g.home.responseToL2Cache then
        (L2Cache.responseEvent g.l2 m).map fun e => ({ response := some m }, e)
      else none
  | .replacement =>
      if g.l2.tbe.isSome then none
      else g.l2.entry.map fun e => ({}, L2Cache.replacementEvent e)

/-- The message the L2 acted on leaves its buffer, if it was dequeued. -/
def l2Dequeue (g : Sys n B) (popped : Bool) : L2Label n B → Sys n B
  | .request i m => g.setNode i
      { g.node i with L1RequestToL2Cache := dequeue popped (g.node i).L1RequestToL2Cache m }
  | .response i m => g.setNode i
      { g.node i with responseToL2Cache := dequeue popped (g.node i).responseToL2Cache m }
  | .unblock i m => g.setNode i
      { g.node i with unblockToL2Cache := dequeue popped (g.node i).unblockToL2Cache m }
  | .responseFromDir m =>
      { g with home :=
        { g.home with responseToL2Cache := dequeue popped g.home.responseToL2Cache m } }
  | .replacement => g

/-- The state after a transition of the L2. -/
def afterL2 (g : Sys n B) (c : L2Cache.Ctx n B) : Sys n B :=
  { g with
    l2 := c.line
    node := fun j => (g.node j).receive (c.requestToL1 j) (c.responseToL1 j)
    home := g.home.receive c.requestToDir c.responseToDir }

def l2Step (g : Sys n B) (l : L2Label n B) : Option (Sys n B) :=
  (g.l2Event l).bind fun (inp, e) =>
    (L2Cache.doTransition inp e g.l2).map fun c => (g.l2Dequeue c.popped l).afterL2 c

end Sys

/-! ### Steps of the directory, the memory and the DMA controllers -/

inductive HomeLabel (n B : ℕ) where
  | request (m : RequestMsg n B)
  | response (m : ResponseMsg n B)
  | memoryResponse (m : MemoryMsg n B)
  /-- The memory serves a request. -/
  | memory (m : MemoryMsg n B)
  /-- A DMA controller sends a request. -/
  | dma (m : RequestMsg n B)

def Home.step (h : Home n B) : HomeLabel n B → Option (Home n B)
  | .request m =>
      if m ∈ h.requestToDir then
        (Directory.requestEvent m).bind fun e =>
          (Directory.doTransition { request := some m } e h.dir).map fun c =>
            { h with requestToDir := dequeue c.popped h.requestToDir m }.afterDir c
      else none
  | .response m =>
      if m ∈ h.responseToDir then
        (Directory.responseEvent m).bind fun e =>
          (Directory.doTransition { response := some m } e h.dir).map fun c =>
            { h with responseToDir := dequeue c.popped h.responseToDir m }.afterDir c
      else none
  | .memoryResponse m =>
      if m ∈ h.responseFromMemory then
        (Directory.doTransition { memory := some m } (Directory.memoryEvent m)
            (h.dir.seenAt m.offset)).map fun c =>
          { h with responseFromMemory := dequeue c.popped h.responseFromMemory m }.afterDir c
      else none
  | .memory m =>
      if m ∈ h.requestToMemory then
        (Directory.serviceMemoryQueue h.memory m).map fun (memory, response) =>
          { h with
            memory := memory
            requestToMemory := h.requestToMemory.erase m
            responseFromMemory := h.responseFromMemory ++ [response] }
      else none
  | .dma m =>
      if (m.type = .DMA_READ ∨ m.type = .DMA_WRITE) ∧ (Home.toDMA m.Requestor).isSome then
        some { h with requestToDir := h.requestToDir ++ [m] }
      else none

/-! ### The system -/

inductive Label (n B : ℕ) where
  | l1 (i : Fin n) (l : L1Label n B)
  | l2 (l : L2Label n B)
  | home (l : HomeLabel n B)

def step (g : Sys n B) : Label n B → Option (Sys n B)
  | .l1 i l => g.l1Step i l
  | .l2 l => g.l2Step l
  | .home l => (g.home.step l).map fun h => { g with home := h }

/-- Nothing is cached and nothing is in flight. -/
def start (memory : DataBlock B) : Sys n B := { home := { memory := memory }, latest := memory }

/-- The protocol for one line, `n` L1 controllers and blocks of `B` bytes. -/
def protocol (n B : ℕ) : Lib.Machine (Sys n B) (Label n B) where
  start g := ∃ memory, g = start memory
  step := step

theorem started (memory : DataBlock B) : (protocol n B).start (start memory) := ⟨memory, rfl⟩

end

end SttRuby.Protocol
