import Mathlib.Algebra.GroupWithZero.Nat
import Mathlib.Data.Finset.Basic
import Mathlib.Data.Fintype.Basic
import SttRuby.Lib.Slicc

/-!
# Protocol — Messages

The messages of `MESI_Two_Level` about one line, between `n` L1 controllers, one L2 bank, one
directory and the DMA controllers.  A message's address is the line's, plus an offset in the
requests of a DMA controller and in the memory requests made for them; its destination is the
buffer it lies in.
-/

namespace SttRuby.Protocol

/-- A block of `B` bytes. -/
abbrev DataBlock (B : ℕ) := Fin B → UInt8

/-! In systems of one and of two L1s, an L1 is named by its number. -/

instance neZero_oneL1 : NeZero 1 := ⟨by decide⟩

instance neZero_twoL1s : NeZero 2 := ⟨by decide⟩

/-- A controller that can be named as the sender or the requestor of a message. -/
inductive MachineID (n : ℕ) where
  | L1Cache (i : Fin n)
  | L2Cache
  | Directory
  | DMA (k : ℕ)
  deriving DecidableEq

/-- The L1 a machine is, if it is one. -/
def MachineID.l1Cache {n : ℕ} : MachineID n → Option (Fin n)
  | .L1Cache i => some i
  | .L2Cache | .Directory | .DMA _ => none

inductive CoherenceRequestType where
  | GETX | UPGRADE | GETS | GET_INSTR | INV | PUTX | WB_ACK | DMA_READ | DMA_WRITE
  deriving DecidableEq

inductive CoherenceResponseType where
  | MEMORY_ACK | DATA | DATA_EXCLUSIVE | MEMORY_DATA | ACK | WB_ACK | UNBLOCK
  | EXCLUSIVE_UNBLOCK | INV
  deriving DecidableEq

inductive MemoryRequestType where
  | MEMORY_READ | MEMORY_WB
  deriving DecidableEq

structure RequestMsg (n B : ℕ) where
  type : CoherenceRequestType
  Requestor : MachineID n
  DataBlk : DataBlock B := fun _ => 0
  Dirty : Bool := false
  offset : ℕ := 0
  Len : ℕ := 0

structure ResponseMsg (n B : ℕ) where
  type : CoherenceResponseType
  Sender : MachineID n
  DataBlk : DataBlock B := fun _ => 0
  Dirty : Bool := false
  AckCount : ℤ := 0

/-- A request to the memory controller, or its response; `Sender` is the request's sender, which
the response carries as `OriginalRequestorMachId`. -/
structure MemoryMsg (n B : ℕ) where
  type : MemoryRequestType
  Sender : MachineID n
  DataBlk : DataBlock B := fun _ => 0
  offset : ℕ := 0
  Len : ℕ := 0

/-! Blocks are compared byte by byte, so that the comparison evaluates on blocks that are given by
a computation. -/

section

variable {n B : ℕ}

instance : DecidableEq (RequestMsg n B) := fun a b =>
  decidable_of_iff (a.type = b.type ∧ a.Requestor = b.Requestor ∧ a.DataBlk = b.DataBlk ∧
    a.Dirty = b.Dirty ∧ a.offset = b.offset ∧ a.Len = b.Len) (by cases a; cases b; simp)

instance : DecidableEq (ResponseMsg n B) := fun a b =>
  decidable_of_iff (a.type = b.type ∧ a.Sender = b.Sender ∧ a.DataBlk = b.DataBlk ∧
    a.Dirty = b.Dirty ∧ a.AckCount = b.AckCount) (by cases a; cases b; simp)

instance : DecidableEq (MemoryMsg n B) := fun a b =>
  decidable_of_iff (a.type = b.type ∧ a.Sender = b.Sender ∧ a.DataBlk = b.DataBlk ∧
    a.offset = b.offset ∧ a.Len = b.Len) (by cases a; cases b; simp)

end

end SttRuby.Protocol
