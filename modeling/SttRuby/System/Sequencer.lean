import SttRuby.Cache.Memory
import SttRuby.Lib.Runs
import SttRuby.Lib.Tables
import SttRuby.Protocol.Messages

/-!
# System — Sequencer

The sequencer of a core: it takes the packets of the core, gives the first packet for a line to
the L1 controller as a request, keeps those that follow it, and completes them when the controller
calls back.  `m_RequestTable` holds the packets under way by line, the one the controller works on
in front.  A callback for a write completes all of them, the controller having the line to itself;
a callback for a read completes those up to the first one that is not a read, which is issued next.

The controller is seen through what it is given and what it answers: `issued` are the requests
it has been given and not answered.  `Ordered` says how they fit the table:

* the count of outstanding requests is that of the table, and beyond its limit by the HTM aborts at
  most, which alone are accepted there (`outstanding`);
* per line, the packets that are complete and those in the table are those that were accepted, in
  their order (`in_order`);
* each line in the table has one request with the controller, for the packet in front, so that no
  assertion of a callback fails and each answer completes a packet (`answered`).

Left out are the packets for which the sequencer keeps other tables than this one: TLB maintenance,
in `m_UnaddressedRequestTable`, and `MemSyncReq`, which `invL1` turns into replacements.
-/

namespace SttRuby.System

open Cache (Addr)
open Protocol (DataBlock)

inductive RubyRequestType where
  | LD | ST | ATOMIC_RETURN | ATOMIC_NO_RETURN | IFETCH | REPLACEMENT | Load_Linked
  | Store_Conditional | RMW_Read | Locked_RMW_Read | Locked_RMW_Write | FLUSH | hasNoAddr
  | HTM_Start | HTM_Commit | HTM_Cancel | HTM_Abort
  deriving DecidableEq

namespace RubyRequestType

/-- The types that a write callback does not find in front. -/
def isLoad : RubyRequestType → Bool
  | LD | Load_Linked | IFETCH => true
  | _ => false

def isAtomic : RubyRequestType → Bool
  | ATOMIC_RETURN | ATOMIC_NO_RETURN => true
  | _ => false

/-- The types that the controllers of the protocol answer. -/
def isServed : RubyRequestType → Bool
  | LD | Load_Linked | IFETCH | ST => true
  | _ => false

/-- The types that are given the block's bytes and leave the block alone. -/
def reads : RubyRequestType → Bool
  | LD | IFETCH | RMW_Read | Locked_RMW_Read | Load_Linked | ATOMIC_RETURN => true
  | _ => false

end RubyRequestType

/-- The commands of hardware transactional memory. -/
inductive HtmCmd where
  | HTMStart | HTMCommit | HTMCancel | HTMAbort
  deriving DecidableEq

def HtmCmd.toRubyRequestType : HtmCmd → RubyRequestType
  | HTMStart => .HTM_Start
  | HTMCommit => .HTM_Commit
  | HTMCancel => .HTM_Cancel
  | HTMAbort => .HTM_Abort

/-- A packet of the core, within one line of `B` bytes.  The bytes of a store are `data`, those
that are disabled are left out; an atomic operation is a function of the bytes at the packet. -/
structure Packet (B : ℕ) where
  addr : ℕ
  size : ℕ
  fits : addr % B + size ≤ B
  isRead : Bool := false
  isWrite : Bool := false
  isLLSC : Bool := false
  isLockedRMW : Bool := false
  isInstFetch : Bool := false
  isReadModifyWrite : Bool := false
  isFlush : Bool := false
  hasNoAddr : Bool := false
  isSwap : Bool := false
  htmCmd : Option HtmCmd := none
  data : ℕ → UInt8 := fun _ => 0
  byteEnable : ℕ → Bool := fun _ => true
  atomicOp : Option ((ℕ → UInt8) → ℕ → UInt8) := none

namespace Packet

variable {B : ℕ} (pkt : Packet B)

def getOffset : ℕ := pkt.addr % B

def makeLineAddress : Addr := pkt.addr - pkt.addr % B

def isHTMAbort : Bool := pkt.htmCmd = some .HTMAbort

/-- Of the commands that `isMemMgmt` is about, TLB maintenance is left out. -/
def isMemMgmt : Bool := pkt.htmCmd.isSome

/-- The type under which the sequencer keeps a packet, and that of the request it issues for it;
`none` for a packet that is not one of a core. -/
def requestTypes : Option (RubyRequestType × RubyRequestType) :=
  if pkt.isLLSC then
    -- the protocol has load-linked requests of its own, and no store-conditional ones
    if pkt.isWrite then some (.Store_Conditional, .ST)
    else if pkt.isRead then some (.Load_Linked, .Load_Linked) else none
  else if pkt.isLockedRMW then
    if pkt.isWrite then some (.Locked_RMW_Write, .ST)
    else if pkt.isRead then some (.Locked_RMW_Read, .ST) else none
  else if pkt.hasNoAddr then some (.hasNoAddr, .hasNoAddr)
  else if pkt.isWrite then some (.ST, .ST)
  else if pkt.isRead then
    match pkt.htmCmd with
    | some c => some (c.toRubyRequestType, c.toRubyRequestType)
    | none =>
        if pkt.isInstFetch then some (.IFETCH, .IFETCH)
        else if pkt.isReadModifyWrite then some (.RMW_Read, .ST)
        else some (.LD, .LD)
  else if pkt.isFlush then some (.FLUSH, .FLUSH)
  else none

/-- `data.getData(offset, size)`. -/
def getData (d : DataBlock B) : List UInt8 :=
  List.ofFn fun k : Fin pkt.size => d ⟨pkt.getOffset + k, by
    have := pkt.fits
    unfold getOffset
    omega⟩

/-- The block with the bytes of the packet replaced by `f`. -/
def write (f : ℕ → UInt8) (d : DataBlock B) : DataBlock B := fun j =>
  if pkt.getOffset ≤ j.val ∧ j.val < pkt.getOffset + pkt.size then f (j.val - pkt.getOffset)
  else d j

/-- `data.setData(pkt)`. -/
def setData (d : DataBlock B) : DataBlock B := fun j =>
  if pkt.byteEnable (j.val - pkt.getOffset) then pkt.write pkt.data d j else d j

/-- The bytes of the block from the packet's on. -/
def bytes (d : DataBlock B) : ℕ → UInt8 := fun k =>
  if h : pkt.getOffset + k < B then d ⟨pkt.getOffset + k, h⟩ else 0

end Packet

structure SequencerRequest (B : ℕ) where
  pkt : Packet B
  m_type : RubyRequestType
  m_second_type : RubyRequestType

/-- A packet that has been answered: whether it succeeded, which only a store conditional may not,
and the bytes it was given. -/
structure Hit (B : ℕ) where
  request : SequencerRequest B
  success : Bool
  data : Option (List UInt8)

/-! ### Callbacks -/

section

variable {B : ℕ}

/-- A callback under way: the block, the LL/SC monitor of the line and whether the controller is
blocked on it, what has been answered, and what has been issued. -/
structure Callback (B : ℕ) where
  data : DataBlock B
  monitor : Bool
  blocked : Bool
  hits : List (Hit B) := []
  issued : List RubyRequestType := []

/-- What `hitCallback` does to the block, and the bytes it gives to the packet. -/
def hitData (r : SequencerRequest B) (llscSuccess : Bool) (d : DataBlock B) :
    DataBlock B × Option (List UInt8) :=
  if r.pkt.isFlush then (d, none)
  else if r.m_type.reads then (d, some (r.pkt.getData d))
  else if r.pkt.isSwap then (r.pkt.write r.pkt.data d, some (r.pkt.getData d))
  else match r.pkt.atomicOp with
    | some f => (r.pkt.write (f (r.pkt.bytes d)) d, some (r.pkt.getData d))
    | none =>
        if r.m_type ≠ .Store_Conditional ∨ llscSuccess then (r.pkt.setData d, none) else (d, none)

namespace Callback

variable (c : Callback B)

/-- A load-linked sets the monitor if the data cache has the line. -/
def hitCallback (dcache : Bool) (r : SequencerRequest B) (llscSuccess : Bool) : Callback B :=
  { c with
    data := (hitData r llscSuccess c.data).1
    monitor := if r.m_type = .Load_Linked then dcache else c.monitor
    hits := c.hits ++ [⟨r, llscSuccess, (hitData r llscSuccess c.data).2⟩] }

/-- A write: a store conditional succeeds if the monitor is still set, and each write clears it;
the two halves of a locked read-modify-write block the controller on the line and unblock it. -/
def write (dcache : Bool) (r : SequencerRequest B) : Callback B :=
  let success := r.m_type ≠ .Store_Conditional ∨ c.monitor
  let blocked := match r.m_type with
    | .Locked_RMW_Read => true
    | .Locked_RMW_Write => false
    | _ => c.blocked
  { c with monitor := false, blocked := blocked }.hitCallback dcache r success

/-- An atomic operation clears the monitor too. -/
def atomic (dcache : Bool) (r : SequencerRequest B) : Callback B :=
  { c with monitor := false }.hitCallback dcache r true

def issueRequest (r : SequencerRequest B) : Callback B :=
  { c with issued := c.issued ++ [r.m_second_type] }

end Callback

/-- The loop of `writeCallback`, `none` where an assertion fails. -/
def writeLoop (noCoales dcache : Bool) : Bool → List (SequencerRequest B) → Callback B →
    Option (List (SequencerRequest B) × Callback B)
  | _, [], c => some ([], c)
  | ruby_request, r :: rs, c =>
      if (noCoales || r.m_type.isAtomic) && !ruby_request then some (r :: rs, c.issueRequest r)
      else if ruby_request && (r.m_type.isLoad || r.m_type.isAtomic) then none
      else if r.m_type.isLoad then
        writeLoop noCoales dcache false rs (c.hitCallback dcache r true)
      else writeLoop noCoales dcache false rs (c.write dcache r)

/-- The loop of `readCallback`, with `processReadCallback`. -/
def readLoop (dcache : Bool) : Bool → List (SequencerRequest B) → Callback B →
    Option (List (SequencerRequest B) × Callback B)
  | _, [], c => some ([], c)
  | ruby_request, r :: rs, c =>
      if ruby_request && !r.m_type.isLoad then none
      else if !r.m_type.isLoad && r.m_type ≠ .REPLACEMENT then some (r :: rs, c.issueRequest r)
      else readLoop dcache false rs (c.hitCallback dcache r true)

/-- The loop of `atomicCallback`. -/
def atomicLoop (dcache : Bool) : Bool → List (SequencerRequest B) → Callback B →
    Option (List (SequencerRequest B) × Callback B)
  | _, [], c => some ([], c)
  | ruby_request, r :: rs, c =>
      if !ruby_request then some (r :: rs, c.issueRequest r)
      else if !r.m_type.isAtomic then none
      else atomicLoop dcache false rs (c.atomic dcache r)

end

/-! ### The sequencer -/

/-- What the controller answers, with the block it has. -/
inductive Answer where
  | read
  | write (noCoales : Bool)
  | atomic
  deriving DecidableEq

/-- The loop of a callback. -/
def Answer.loop {B : ℕ} (dcache : Bool) : Answer → Bool → List (SequencerRequest B) → Callback B →
    Option (List (SequencerRequest B) × Callback B)
  | .read => readLoop dcache
  | .write noCoales => writeLoop noCoales dcache
  | .atomic => atomicLoop dcache

/-- The requests that a controller answers with a callback. -/
def Answer.answers : Answer → RubyRequestType → Bool
  | .read, t => t.isLoad
  | .write _, t => t = .ST
  | .atomic, t => t.isAtomic

/-- The sequencer, what the controller has to answer, the monitors of the data cache, and the
controller's block map; and what has been accepted and answered so far, by line. -/
structure Sequencer (B : ℕ) where
  m_max_outstanding_requests : ℕ
  m_RequestTable : Lib.Table Addr (SequencerRequest B) := .empty
  m_outstanding_count : ℤ := 0
  issued : Addr → List RubyRequestType := fun _ => []
  monitor : Addr → Bool := fun _ => false
  m_block_map : Addr → Bool := fun _ => false
  accepted : Addr → List (Packet B) := fun _ => []
  hits : Addr → List (Hit B) := fun _ => []

inductive RequestStatus where
  | Ready | Issued | BufferFull | Aliased
  deriving DecidableEq

namespace Sequencer

variable {B : ℕ} (s : Sequencer B)

def insertRequest (pkt : Packet B) (primary_type secondary_type : RubyRequestType) :
    RequestStatus × Sequencer B :=
  let line_addr := pkt.makeLineAddress
  let seq_req_list := s.m_RequestTable.queue line_addr ++ [⟨pkt, primary_type, secondary_type⟩]
  (if 1 < seq_req_list.length then .Aliased else .Ready,
    { s with
      m_RequestTable := s.m_RequestTable.set line_addr seq_req_list
      m_outstanding_count := s.m_outstanding_count + 1
      accepted := Function.update s.accepted line_addr (s.accepted line_addr ++ [pkt]) })

def issueRequest (pkt : Packet B) (secondary_type : RubyRequestType) : Sequencer B :=
  let line_addr := pkt.makeLineAddress
  { s with issued := Function.update s.issued line_addr (s.issued line_addr ++ [secondary_type]) }

/-- `none` for a packet that is not one of a core. -/
def makeRequest (pkt : Packet B) : Option (RequestStatus × Sequencer B) :=
  if s.m_max_outstanding_requests ≤ s.m_outstanding_count ∧ pkt.isHTMAbort = false then
    some (.BufferFull, s)
  else pkt.requestTypes.map fun (primary_type, secondary_type) =>
    if !pkt.isMemMgmt && s.m_block_map pkt.makeLineAddress &&
        primary_type ≠ .Locked_RMW_Write then (.Aliased, s)
    else
      let (status, s) := s.insertRequest pkt primary_type secondary_type
      (.Issued, if status ≠ .Aliased then s.issueRequest pkt secondary_type else s)

/-- The sequencer once the loop of a callback has left `rest` in the queue. -/
def finish (address : Addr) (rest : List (SequencerRequest B)) (c : Callback B) : Sequencer B :=
  { s with
    m_RequestTable := s.m_RequestTable.set address rest
    m_outstanding_count := s.m_outstanding_count - c.hits.length
    issued := Function.update s.issued address (s.issued address ++ c.issued)
    monitor := Function.update s.monitor address c.monitor
    m_block_map := Function.update s.m_block_map address c.blocked
    hits := Function.update s.hits address (s.hits address ++ c.hits) }

/-- A callback of the controller: the sequencer and the block after it. -/
def callback (a : Answer) (address : Addr) (dcache : Bool) (data : DataBlock B) :
    Option (Sequencer B × DataBlock B) :=
  if s.m_RequestTable.has address then
    (a.loop dcache true (s.m_RequestTable.queue address)
      ⟨data, s.monitor address && dcache, s.m_block_map address, [], []⟩).map fun (rest, c) =>
        (s.finish address rest c, c.data)
  else none

def evictionCallback (address : Addr) : Sequencer B :=
  { s with monitor := Function.update s.monitor address false }

/-- The HTM aborts in the table. -/
def aborts : ℕ := s.m_RequestTable.elems.countP (·.pkt.isHTMAbort)

/-- The assertion of `wakeup`. -/
def countsTable : Bool := s.m_outstanding_count = s.m_RequestTable.total

/-- What the core and the controller do. -/
inductive Label (B : ℕ) where
  | makeRequest (pkt : Packet B)
  /-- The controller answers a request of type `t`. -/
  | callback (a : Answer) (address : Addr) (t : RubyRequestType) (dcache : Bool)
      (data : DataBlock B)
  | evictionCallback (address : Addr)

/-- The controller has answered a request of type `t`. -/
def answer (address : Addr) (t : RubyRequestType) : Sequencer B :=
  { s with issued := Function.update s.issued address ((s.issued address).erase t) }

/-- The controller answers what it has been given, once and by the callback of its type. -/
def step (s : Sequencer B) : Label B → Option (Sequencer B)
  | .makeRequest pkt => (s.makeRequest pkt).map Prod.snd
  | .callback a address t dcache data =>
      if t ∈ s.issued address ∧ a.answers t = true then
        ((s.answer address t).callback a address dcache data).map Prod.fst
      else none
  | .evictionCallback address => some (s.evictionCallback address)

end Sequencer

/-- The sequencer from its construction on. -/
def sequencer (B : ℕ) : Lib.Machine (Sequencer B) (Sequencer.Label B) where
  start s := ∃ max, s = { m_max_outstanding_requests := max }
  step := Sequencer.step

theorem sequencer_start {B : ℕ} (max : ℕ) :
    (sequencer B).start { m_max_outstanding_requests := max } := ⟨max, rfl⟩

/-! ### What a callback does to the queue of its line -/

section

variable {B : ℕ} {dcache : Bool} {a : Answer} {b : Bool} {r : SequencerRequest B}
  {rs rest : List (SequencerRequest B)} {c c₁ c' : Callback B}

/-- `r` is answered and nothing is issued. -/
structure Callback.Answers (c : Callback B) (r : SequencerRequest B) (c' : Callback B) : Prop where
  hits : c'.hits.map Hit.request = c.hits.map Hit.request ++ [r]
  issued : c'.issued = c.issued

theorem Callback.answers_hitCallback (c : Callback B) (r : SequencerRequest B)
    (dcache llsc : Bool) :
    c.Answers r (c.hitCallback dcache r llsc) :=
  ⟨by simp [hitCallback], rfl⟩

theorem Callback.answers_write (c : Callback B) (r : SequencerRequest B) (dcache : Bool) :
    c.Answers r (c.write dcache r) :=
  ⟨by simp [write, hitCallback], rfl⟩

theorem Callback.answers_atomic (c : Callback B) (r : SequencerRequest B) (dcache : Bool) :
    c.Answers r (c.atomic dcache r) :=
  ⟨by simp [atomic, hitCallback], rfl⟩

/-- The first packets are answered, and the one left in front is issued. -/
def Served (rs rest : List (SequencerRequest B)) (c c' : Callback B) : Prop :=
  ∃ done, rs = done ++ rest ∧ c'.hits.map Hit.request = c.hits.map Hit.request ++ done ∧
    c'.issued = c.issued ++ (rest.head?.map SequencerRequest.m_second_type).toList

theorem Served.nil (c : Callback B) : Served [] [] c c := ⟨[], by simp⟩

theorem Served.stop (r : SequencerRequest B) (rs : List (SequencerRequest B)) (c : Callback B) :
    Served (r :: rs) (r :: rs) c (c.issueRequest r) :=
  ⟨[], by simp [Callback.issueRequest]⟩

theorem Served.cons (ha : c.Answers r c₁) (h : Served rs rest c₁ c') :
    Served (r :: rs) rest c c' := by
  obtain ⟨done, rfl, hh, hi⟩ := h
  exact ⟨r :: done, by simp, by simp [hh, ha.hits], by rw [hi, ha.issued]⟩

theorem writeLoop_served {noCoales : Bool} : ∀ {b : Bool} {rs : List (SequencerRequest B)}
    {c : Callback B}, writeLoop noCoales dcache b rs c = some (rest, c') → Served rs rest c c'
  | _, [], _, h => by cases h; exact .nil _
  | b, r :: rs, c, h => by
      unfold writeLoop at h
      split_ifs at h
      · cases h; exact .stop r rs c
      · exact .cons (c.answers_hitCallback r dcache true) (writeLoop_served h)
      · exact .cons (c.answers_write r dcache) (writeLoop_served h)

theorem readLoop_served : ∀ {b : Bool} {rs : List (SequencerRequest B)}
    {c : Callback B}, readLoop dcache b rs c = some (rest, c') → Served rs rest c c'
  | _, [], _, h => by cases h; exact .nil _
  | b, r :: rs, c, h => by
      unfold readLoop at h
      split_ifs at h
      · cases h; exact .stop r rs c
      · exact .cons (c.answers_hitCallback r dcache true) (readLoop_served h)

theorem atomicLoop_served : ∀ {b : Bool} {rs : List (SequencerRequest B)}
    {c : Callback B}, atomicLoop dcache b rs c = some (rest, c') → Served rs rest c c'
  | _, [], _, h => by cases h; exact .nil _
  | b, r :: rs, c, h => by
      unfold atomicLoop at h
      split_ifs at h
      · cases h; exact .stop r rs c
      · exact .cons (c.answers_atomic r dcache) (atomicLoop_served h)

theorem Answer.loop_served (h : a.loop dcache b rs c = some (rest, c')) : Served rs rest c c' := by
  cases a with
  | read => exact readLoop_served h
  | write noCoales => exact writeLoop_served h
  | atomic => exact atomicLoop_served h

/-- What answering a load keeps, a read callback keeps. -/
theorem readLoop_keeps {J : Callback B → Prop}
    (hit : ∀ c r, r.m_type.isLoad = true → J c → J (c.hitCallback dcache r true))
    (issue : ∀ c r, J c → J (c.issueRequest r)) :
    ∀ {b : Bool} {rs : List (SequencerRequest B)} {c : Callback B},
      (∀ r ∈ rs, r.m_type ≠ .REPLACEMENT) → J c →
      readLoop dcache b rs c = some (rest, c') → J c'
  | _, [], _, _, hc, h => by cases h; exact hc
  | b, r :: rs, c, hrs, hc, h => by
      obtain ⟨hr, hrs⟩ := List.forall_mem_cons.mp hrs
      unfold readLoop at h
      split_ifs at h with h₁ h₂
      · cases h
        exact issue _ _ hc
      · have hload : r.m_type.isLoad = true := by simpa [hr] using h₂
        exact readLoop_keeps hit issue hrs (hit _ _ hload hc) h

/-- What answering a load or a write keeps, a write callback keeps. -/
theorem writeLoop_keeps {J : Callback B → Prop} {noCoales : Bool}
    (hit : ∀ c r, r.m_type.isLoad = true → J c → J (c.hitCallback dcache r true))
    (write : ∀ c r, r.m_type.isLoad = false → J c → J (c.write dcache r))
    (issue : ∀ c r, J c → J (c.issueRequest r)) :
    ∀ {b : Bool} {rs : List (SequencerRequest B)} {c : Callback B}, J c →
      writeLoop noCoales dcache b rs c = some (rest, c') → J c'
  | _, [], _, hc, h => by cases h; exact hc
  | b, r :: rs, c, hc, h => by
      unfold writeLoop at h
      split_ifs at h with h₁ h₂ h₃
      · cases h
        exact issue _ _ hc
      · exact writeLoop_keeps hit write issue (hit _ _ h₃ hc) h
      · exact writeLoop_keeps hit write issue (write _ _ (by simpa using h₃) hc) h

/-- A write callback that may coalesce answers everything. -/
theorem writeLoop_all : ∀ {b : Bool} {rs : List (SequencerRequest B)} {c : Callback B},
    (∀ r ∈ rs, r.m_type.isAtomic = false) →
      writeLoop false dcache b rs c = some (rest, c') → rest = []
  | _, [], _, _, h => by cases h; rfl
  | b, r :: rs, c, hrs, h => by
      obtain ⟨hr, hrs⟩ := List.forall_mem_cons.mp hrs
      unfold writeLoop at h
      rw [hr] at h
      split_ifs at h with h₁
      · simp at h₁
      all_goals exact writeLoop_all hrs h

/-- After the first packet no assertion is left. -/
theorem Answer.loop_false (a : Answer) (dcache : Bool) : ∀ (rs : List (SequencerRequest B))
    (c : Callback B), (a.loop dcache false rs c).isSome = true
  | [], c => by cases a <;> rfl
  | r :: rs, c => by
      cases a with
      | read =>
          simp only [loop, readLoop, Bool.false_and, Bool.false_eq_true, if_false]
          split_ifs
          · rfl
          · exact loop_false .read dcache rs _
      | write noCoales =>
          simp only [loop, writeLoop, Bool.false_and, Bool.false_eq_true, if_false]
          split_ifs
          · rfl
          · exact loop_false (.write noCoales) dcache rs _
          · exact loop_false (.write noCoales) dcache rs _
      | atomic => simp [loop, atomicLoop]

/-- The packets that may be in front of the queue when the controller answers. -/
def Answer.front : Answer → RubyRequestType → Bool
  | .read, t => t.isLoad
  | .write _, t => !t.isLoad && !t.isAtomic
  | .atomic, t => t.isAtomic

/-- An answer to the packet in front is taken, and completes it. -/
theorem Answer.loop_true (dcache : Bool) (rs : List (SequencerRequest B))
    (hr : a.front r.m_type = true) (c : Callback B) :
    ∃ c₁, c.Answers r c₁ ∧ a.loop dcache true (r :: rs) c = a.loop dcache false rs c₁ := by
  cases a with
  | read =>
      have hl : r.m_type.isLoad = true := hr
      exact ⟨_, c.answers_hitCallback r dcache true, by simp [loop, readLoop, hl]⟩
  | write noCoales =>
      have hl : r.m_type.isLoad = false ∧ r.m_type.isAtomic = false := by
        simpa [front] using hr
      exact ⟨_, c.answers_write r dcache, by simp [loop, writeLoop, hl.1, hl.2]⟩
  | atomic =>
      have hl : r.m_type.isAtomic = true := hr
      exact ⟨_, c.answers_atomic r dcache, by simp [loop, atomicLoop, hl]⟩

theorem Answer.exists_of_isServed {t : RubyRequestType} (h : t.isServed = true) :
    ∃ a : Answer, a.answers t = true := by
  cases t with
  | LD | Load_Linked | IFETCH => exact ⟨.read, rfl⟩
  | ST => exact ⟨.write false, rfl⟩
  | _ => cases h

/-- The types of the packets, each with that of the request issued for it. -/
def packetTypes : List (RubyRequestType × RubyRequestType) :=
  [(.Store_Conditional, .ST), (.Load_Linked, .Load_Linked), (.Locked_RMW_Write, .ST),
    (.Locked_RMW_Read, .ST), (.hasNoAddr, .hasNoAddr), (.ST, .ST), (.HTM_Start, .HTM_Start),
    (.HTM_Commit, .HTM_Commit), (.HTM_Cancel, .HTM_Cancel), (.HTM_Abort, .HTM_Abort),
    (.IFETCH, .IFETCH), (.RMW_Read, .ST), (.LD, .LD), (.FLUSH, .FLUSH)]

theorem Packet.requestTypes_mem {pkt : Packet B} {x : RubyRequestType × RubyRequestType}
    (h : pkt.requestTypes = some x) : x ∈ packetTypes := by
  unfold requestTypes at h
  cases hc : pkt.htmCmd with
  | none =>
      rw [hc] at h
      split_ifs at h <;> cases h <;> decide
  | some c =>
      rw [hc] at h
      split_ifs at h <;> cases h <;> cases c <;> decide

/-- The types that are no packet's. -/
theorem Packet.type_of_requestTypes {pkt : Packet B} {primary_type secondary_type : RubyRequestType}
    (h : pkt.requestTypes = some (primary_type, secondary_type)) :
    primary_type ≠ .REPLACEMENT ∧ primary_type.isAtomic = false := by
  have hall : ∀ x ∈ packetTypes, x.1 ≠ .REPLACEMENT ∧ x.1.isAtomic = false := by decide
  exact hall _ (requestTypes_mem h)

theorem Packet.second_of_locked {pkt : Packet B} {secondary_type : RubyRequestType}
    (h : pkt.requestTypes = some (.Locked_RMW_Write, secondary_type)) : secondary_type = .ST := by
  have hall : ∀ x ∈ packetTypes, x.1 = .Locked_RMW_Write → x.2 = .ST := by decide
  exact hall _ (requestTypes_mem h) rfl

/-- The type of a request tells the callback that answers it what is in front. -/
theorem Packet.front_of_answers {pkt : Packet B} {primary_type secondary_type : RubyRequestType}
    (h : pkt.requestTypes = some (primary_type, secondary_type))
    (ha : a.answers secondary_type = true) : a.front primary_type = true := by
  have hmem := requestTypes_mem h
  cases a with
  | read =>
      have hall : ∀ x ∈ packetTypes, Answer.read.answers x.2 = true →
        Answer.read.front x.1 = true := by decide
      exact hall _ hmem ha
  | write noCoales =>
      have hall : ∀ x ∈ packetTypes, (Answer.write noCoales).answers x.2 = true →
        (Answer.write noCoales).front x.1 = true := by cases noCoales <;> decide
      exact hall _ hmem ha
  | atomic =>
      have hall : ∀ x ∈ packetTypes, Answer.atomic.answers x.2 = true →
        Answer.atomic.front x.1 = true := by decide
      exact hall _ hmem ha

end

/-! ### Runs -/

namespace Sequencer

section

variable {B : ℕ} {s s' : Sequencer B}

/-- The table, the counter, the requests with the controller and what has been answered fit
together. -/
structure Ordered (s : Sequencer B) : Prop where
  count : s.m_outstanding_count = s.m_RequestTable.total
  limit : s.m_outstanding_count ≤ s.m_max_outstanding_requests + s.aborts
  order : ∀ a, s.accepted a =
    (s.hits a).map (·.request.pkt) ++ (s.m_RequestTable.queue a).map SequencerRequest.pkt
  issue : ∀ a, s.issued a =
    ((s.m_RequestTable.queue a).head?.map SequencerRequest.m_second_type).toList
  typed : ∀ a, ∀ r ∈ s.m_RequestTable.queue a,
    r.pkt.requestTypes = some (r.m_type, r.m_second_type)

theorem Ordered.init (max : ℕ) :
    ({ m_max_outstanding_requests := max } : Sequencer B).Ordered :=
  ⟨by simp, by dsimp only; omega, by simp, by simp, by simp⟩

/-- Replacing a queue exchanges its HTM aborts. -/
theorem aborts_set (t : Lib.Table Addr (SequencerRequest B)) (address : Addr)
    (l : List (SequencerRequest B)) :
    (t.queue address).countP (·.pkt.isHTMAbort) +
        (t.set address l).elems.countP (·.pkt.isHTMAbort) =
      l.countP (·.pkt.isHTMAbort) + t.elems.countP (·.pkt.isHTMAbort) := by
  rw [← List.countP_append, ← List.countP_append]
  exact (t.elems_set address l).countP_eq _

/-- What an accepted packet changes: it goes to the end of its queue, and is issued if it is alone
there. -/
theorem makeRequest_cases {pkt : Packet B} {status : RequestStatus}
    (h : s.makeRequest pkt = some (status, s')) :
    s' = s ∨ ∃ p t, pkt.requestTypes = some (p, t) ∧
      (s.m_outstanding_count < s.m_max_outstanding_requests ∨ pkt.isHTMAbort = true) ∧
      s' = { s with
        m_RequestTable := s.m_RequestTable.set pkt.makeLineAddress
          (s.m_RequestTable.queue pkt.makeLineAddress ++ [⟨pkt, p, t⟩])
        m_outstanding_count := s.m_outstanding_count + 1
        accepted := Function.update s.accepted pkt.makeLineAddress
          (s.accepted pkt.makeLineAddress ++ [pkt])
        issued := Function.update s.issued pkt.makeLineAddress (s.issued pkt.makeLineAddress ++
          if s.m_RequestTable.queue pkt.makeLineAddress = [] then [t] else []) } := by
  unfold makeRequest at h
  split_ifs at h with hmax
  · cases h; exact .inl rfl
  · obtain ⟨⟨p, t⟩, hp, h⟩ := Option.map_eq_some_iff.mp h
    dsimp only at h
    by_cases hb : !pkt.isMemMgmt && s.m_block_map pkt.makeLineAddress && p ≠ .Locked_RMW_Write
    · rw [if_pos hb] at h
      cases h
      exact .inl rfl
    · rw [if_neg hb, Prod.mk.injEq] at h
      refine .inr ⟨p, t, hp, ?_, ?_⟩
      · by_cases hab : pkt.isHTMAbort = true
        · exact .inr hab
        · exact .inl (by simpa [hab] using hmax)
      rw [← h.2]
      cases hq : s.m_RequestTable.queue pkt.makeLineAddress with
      | nil => simp [insertRequest, issueRequest, hq]
      | cons r rs => simp [insertRequest, hq]

theorem Ordered.makeRequest (hs : s.Ordered) {pkt : Packet B} {status : RequestStatus}
    (h : s.makeRequest pkt = some (status, s')) : s'.Ordered := by
  obtain rfl | ⟨p, t, hp, hlt, rfl⟩ := makeRequest_cases h
  · exact hs
  have htotal := s.m_RequestTable.total_set pkt.makeLineAddress
    (s.m_RequestTable.queue pkt.makeLineAddress ++ [⟨pkt, p, t⟩])
  rw [List.length_append, List.length_singleton] at htotal
  refine ⟨?_, ?_, fun a => ?_, fun a => ?_, fun a r hr => ?_⟩
  · have := hs.count
    dsimp only
    omega
  · have haborts := aborts_set s.m_RequestTable pkt.makeLineAddress
      (s.m_RequestTable.queue pkt.makeLineAddress ++ [⟨pkt, p, t⟩])
    have hlimit := hs.limit
    rw [List.countP_append, List.countP_singleton] at haborts
    dsimp only [aborts] at hlimit ⊢
    split_ifs at haborts with hab
    · omega
    · have := hlt.resolve_right hab
      omega
  · by_cases ha : a = pkt.makeLineAddress
    · subst ha
      simp [hs.order]
    · simp [ha, Lib.Table.queue_set_of_ne, hs.order]
  · by_cases ha : a = pkt.makeLineAddress
    · subst ha
      cases hq : s.m_RequestTable.queue pkt.makeLineAddress <;> simp [hs.issue, hq]
    · simp [ha, Lib.Table.queue_set_of_ne, hs.issue]
  · dsimp only at hr
    rw [Lib.Table.queue_set] at hr
    split_ifs at hr with ha
    · subst ha
      rcases List.mem_append.mp hr with hr | hr
      · exact hs.typed _ r hr
      · obtain rfl := List.mem_singleton.mp hr
        exact hp
    · exact hs.typed a r hr

theorem Ordered.callback (hs : s.Ordered) {a : Answer} {address : Addr} {t : RubyRequestType}
    {dcache : Bool} {data : DataBlock B}
    (h : s.step (.callback a address t dcache data) = some s') : s'.Ordered := by
  simp only [step, Sequencer.callback, Option.ite_none_right_eq_some, Option.map_eq_some_iff] at h
  obtain ⟨ht, -, ⟨-, ⟨rest, c⟩, hl, rfl⟩, rfl⟩ := h
  dsimp only [answer] at hl
  obtain ⟨done, hq, hhits, hissued⟩ := Answer.loop_served hl
  simp only [List.map_nil, List.nil_append] at hhits hissued
  have hlen : c.hits.length = done.length := by rw [← hhits, List.length_map]
  have hissue : (s.issued address).erase t = [] := by
    have hi := hs.issue address
    cases hqa : s.m_RequestTable.queue address with
    | nil => simp [hi, hqa]
    | cons r rs =>
        rw [hqa] at hi
        rw [hi] at ht ⊢
        obtain rfl : t = r.m_second_type := by simpa using ht.1
        simp
  have htotal := s.m_RequestTable.total_set address rest
  rw [hq, List.length_append] at htotal
  refine ⟨?_, ?_, fun x => ?_, fun x => ?_, fun x r hr => ?_⟩
  · have := hs.count
    dsimp only [finish, answer]
    omega
  · -- of the packets that leave, the aborts are a part
    have haborts := aborts_set s.m_RequestTable address rest
    have hpart := List.countP_le_length (p := (·.pkt.isHTMAbort)) (l := done)
    have hlimit := hs.limit
    rw [hq, List.countP_append] at haborts
    dsimp only [finish, answer, aborts] at hlimit ⊢
    omega
  · by_cases hx : x = address
    · subst hx
      have hpkt : c.hits.map (·.request.pkt) = done.map SequencerRequest.pkt := by
        rw [← hhits, List.map_map]
        rfl
      simp [finish, answer, hs.order, hq, hpkt]
    · simp [finish, answer, hx, Lib.Table.queue_set_of_ne, hs.order]
  · by_cases hx : x = address
    · subst hx
      simp [finish, answer, hissue, hissued]
    · simp [finish, answer, hx, Lib.Table.queue_set_of_ne, hs.issue]
  · dsimp only [finish, answer] at hr
    rw [Lib.Table.queue_set] at hr
    split_ifs at hr with hx
    · subst hx
      exact hs.typed _ r (hq ▸ List.mem_append_right done hr)
    · exact hs.typed x r hr

theorem Ordered.step (hs : s.Ordered) {l : Label B} (h : s.step l = some s') : s'.Ordered := by
  cases l with
  | makeRequest pkt =>
      obtain ⟨⟨status, s₁⟩, hm, rfl⟩ := Option.map_eq_some_iff.mp h
      exact hs.makeRequest hm
  | callback a address t dcache data => exact hs.callback h
  | evictionCallback address =>
      cases h
      exact { hs with }

theorem ordered_of_reach (h : (sequencer B).Reach (fun _ _ => True) s) : s.Ordered :=
  h.invariant (fun _ ⟨max, hs⟩ => hs ▸ Ordered.init max) fun _ _ _ hs _ => hs.step

/-- **The count of outstanding requests** is the number of packets in the table, as `wakeup`
asserts, and stays within its limit but for the HTM aborts in the table. -/
theorem outstanding (h : (sequencer B).Reach (fun _ _ => True) s) :
    s.countsTable = true ∧ s.m_outstanding_count ≤ s.m_max_outstanding_requests + s.aborts :=
  ⟨decide_eq_true (ordered_of_reach h).count, (ordered_of_reach h).limit⟩

theorem byte_fits (addr : ℕ) : addr % 2 + 1 ≤ 2 := by omega

/-- A load of a byte, and a store. -/
def loadByte (addr : ℕ) : Packet 2 :=
  { addr := addr, size := 1, fits := byte_fits addr, isRead := true }

def storeByte (addr : ℕ) (v : UInt8) : Packet 2 :=
  { addr := addr, size := 1, fits := byte_fits addr, isWrite := true, data := fun _ => v }

/-- A load, a store and a load of one line, and a store conditional of another; the first load is
answered. -/
def mixed : List (Label 2) :=
  [.makeRequest (loadByte 0), .makeRequest (storeByte 1 7), .makeRequest (loadByte 1),
    .makeRequest { storeByte 2 5 with isLLSC := true },
    .callback .read 0 .LD true fun _ => 1]

/-- A sequencer that takes one packet refuses a second load, and takes an HTM abort. -/
theorem outstanding_abort : ∃ s, (sequencer 2).Reach (fun _ _ => True) s ∧
    s.m_max_outstanding_requests = 1 ∧ s.m_outstanding_count = 2 ∧
    s.countsTable = true ∧ s.m_outstanding_count ≤ s.m_max_outstanding_requests + s.aborts := by
  have h : (((sequencer 2).trace (fun _ _ => True) { m_max_outstanding_requests := 1 }
      [.makeRequest (loadByte 0), .makeRequest (loadByte 1),
        .makeRequest { loadByte 0 with htmCmd := some .HTMAbort }]).any fun s =>
      decide (s.m_max_outstanding_requests = 1 ∧ s.m_outstanding_count = 2)) = true := by
    decide +kernel
  obtain ⟨s, hreach, hmax, hs⟩ := Lib.Machine.trace_reaches (sequencer_start 1) h
  exact ⟨s, hreach, hmax, hs, outstanding hreach⟩

/-- **In order, and once.**  The packets accepted for a line are those that have been answered and
those in the table, in the order in which they came. -/
theorem in_order (h : (sequencer B).Reach (fun _ _ => True) s) (address : Addr) :
    s.accepted address = (s.hits address).map (·.request.pkt) ++
      (s.m_RequestTable.queue address).map SequencerRequest.pkt :=
  (ordered_of_reach h).order address

theorem in_order_mixed : ∃ s, (sequencer 2).Reach (fun _ _ => True) s ∧
    (s.hits 0).length = 1 ∧
    s.accepted 0 = (s.hits 0).map (·.request.pkt) ++
      (s.m_RequestTable.queue 0).map SequencerRequest.pkt := by
  have h : (((sequencer 2).trace (fun _ _ => True) { m_max_outstanding_requests := 16 }
      mixed).any fun s => decide ((s.hits 0).length = 1)) = true := by decide +kernel
  obtain ⟨s, hreach, hs⟩ := Lib.Machine.trace_reaches (sequencer_start 16) h
  exact ⟨s, hreach, hs, in_order hreach 0⟩

/-- An answer is taken, and completes a packet. -/
theorem Ordered.answered (hs : s.Ordered) {a : Answer} {address : Addr} {t : RubyRequestType}
    (ht : t ∈ s.issued address) (ha : a.answers t = true) (dcache : Bool) (data : DataBlock B) :
    ∃ s', s.step (.callback a address t dcache data) = some s' ∧
      (s.hits address).length < (s'.hits address).length ∧
      s'.m_outstanding_count < s.m_outstanding_count ∧ s'.accepted = s.accepted ∧
      ∀ x, s'.m_RequestTable.queue x <:+ s.m_RequestTable.queue x := by
  have hi := hs.issue address
  obtain ⟨r, rs, hq⟩ : ∃ r rs, s.m_RequestTable.queue address = r :: rs := by
    cases hq : s.m_RequestTable.queue address with
    | nil => simp [hi, hq] at ht
    | cons r rs => exact ⟨r, rs, rfl⟩
  obtain rfl : t = r.m_second_type := by simpa [hi, hq] using ht
  have hfront : a.front r.m_type = true :=
    Packet.front_of_answers (hs.typed address r (by simp [hq])) ha
  obtain ⟨c₁, hc₁, hl⟩ := Answer.loop_true dcache rs hfront
    ⟨data, s.monitor address && dcache, s.m_block_map address, [], []⟩
  obtain ⟨⟨rest, c⟩, hc⟩ := Option.isSome_iff_exists.mp (a.loop_false dcache rs c₁)
  obtain ⟨done, hdone, hhits, -⟩ := Answer.loop_served hc
  have hpos : 0 < c.hits.length := by
    rw [← List.length_map Hit.request, hhits, hc₁.hits]
    simp
  have hhas : s.m_RequestTable.has address = true := by simp [Lib.Table.has_iff, hq]
  refine ⟨(s.answer address r.m_second_type).finish address rest c, ?_, ?_, ?_, rfl, fun x => ?_⟩
  · simp [Sequencer.step, Sequencer.callback, answer, hhas, hq, hl, hc, ht, ha]
  · simp only [finish, answer, Function.update_self, List.length_append]
    omega
  · dsimp only [finish, answer]
    omega
  · dsimp only [finish, answer]
    rw [Lib.Table.queue_set]
    split_ifs with hx
    · rw [hx, hq, hdone, ← List.cons_append]
      exact List.suffix_append (r :: done) rest
    · exact List.suffix_rfl

/-- **One request at a time.**  The controller has one request for each line in the table, and
whatever answers it is taken by the sequencer and completes a packet of the line. -/
theorem one_request (h : (sequencer B).Reach (fun _ _ => True) s) (address : Addr) :
    (s.issued address).length = (if s.m_RequestTable.has address then 1 else 0) ∧
      ∀ t ∈ s.issued address, ∀ a : Answer, a.answers t = true → ∀ dcache data, ∃ s',
        s.step (.callback a address t dcache data) = some s' ∧
          (s.hits address).length < (s'.hits address).length := by
  have hs := ordered_of_reach h
  refine ⟨?_, fun t ht a ha dcache data => ?_⟩
  · have hhas := s.m_RequestTable.has_iff address
    rw [hs.issue address]
    cases hq : s.m_RequestTable.queue address <;> simp [hq, hhas]
  · obtain ⟨s', hstep, hlt, -⟩ := hs.answered ht ha dcache data
    exact ⟨s', hstep, hlt⟩

theorem one_request_mixed : ∃ s s', (sequencer 2).Reach (fun _ _ => True) s ∧
    (s.issued 0).length = 1 ∧ s.step (.callback (.write false) 0 .ST true fun _ => 1) = some s' ∧
      (s.hits 0).length < (s'.hits 0).length := by
  have h : (((sequencer 2).trace (fun _ _ => True) { m_max_outstanding_requests := 16 }
      mixed).any fun s => decide (s.m_RequestTable.has 0 = true ∧ .ST ∈ s.issued 0)) = true := by
    decide +kernel
  obtain ⟨s, hreach, hhas, hst⟩ := Lib.Machine.trace_reaches (sequencer_start 16) h
  obtain ⟨hlen, hans⟩ := one_request hreach 0
  obtain ⟨s', hstep, hlt⟩ := hans .ST hst (.write false) rfl true fun _ => 1
  exact ⟨s, s', hreach, by rw [hlen, if_pos hhas], hstep, hlt⟩

/-- The label is an answer of the controller. -/
def Label.isAnswer : Label B → Bool
  | .callback .. => true
  | .makeRequest _ | .evictionCallback _ => false

/-- The answers lead to an empty table. -/
theorem Ordered.drains : ∀ {k : ℕ} {s : Sequencer B}, s.Ordered → s.m_RequestTable.total = k →
    (∀ address, ∀ r ∈ s.m_RequestTable.queue address, r.m_second_type.isServed = true) →
    ∃ l s', (sequencer B).Run (fun _ l => l.isAnswer = true) s l s' ∧ l.length ≤ k ∧
      s'.m_outstanding_count = 0 ∧
      ∀ address, (s'.hits address).map (·.request.pkt) = s.accepted address := by
  intro k
  induction k using Nat.strong_induction_on with
  | _ k ih =>
    intro s hs hk hserved
    rcases Nat.eq_zero_or_pos k with rfl | hpos
    · refine ⟨[], s, .refl, le_rfl, by rw [hs.count, hk]; rfl, fun address => ?_⟩
      have hq : s.m_RequestTable.queue address = [] :=
        List.length_eq_zero_iff.mp (by have := s.m_RequestTable.length_queue_le address; omega)
      rw [hs.order, hq, List.map_nil, List.append_nil]
    · obtain ⟨address, hne⟩ := Lib.Table.exists_queue (t := s.m_RequestTable) (by omega)
      obtain ⟨r, rs, hq⟩ := List.exists_cons_of_ne_nil hne
      obtain ⟨a, ha⟩ := Answer.exists_of_isServed (hserved address r (by simp [hq]))
      obtain ⟨s₁, hstep, -, hlt, hacc, hsuf⟩ := hs.answered
        (show r.m_second_type ∈ s.issued address by simp [hs.issue, hq]) ha true fun _ => 0
      have hs₁ := hs.step hstep
      have hlt' : s₁.m_RequestTable.total < k := by
        have h := hs.count
        have h₁ := hs₁.count
        omega
      obtain ⟨l, s', hrun, hlen, hzero, hall⟩ := ih _ hlt' hs₁ rfl fun x r' hr' =>
        hserved x r' ((hsuf x).subset hr')
      have hone : (sequencer B).Run (fun _ l => l.isAnswer = true) s
          [.callback a address r.m_second_type true fun _ => 0] s₁ :=
        Lib.Machine.Run.refl.snoc rfl hstep
      refine ⟨_, s', hone.append hrun, ?_, hzero, fun x => (hall x).trans (congrFun hacc x)⟩
      rw [List.length_append, List.length_singleton]
      omega

/-- **No packet is left behind.**  Where the protocol answers what is in the table, as many answers
as there are packets complete all that was accepted. -/
theorem drained (h : (sequencer B).Reach (fun _ _ => True) s)
    (hserved : s.m_RequestTable.all (fun r => r.m_second_type.isServed) = true) :
    ∃ l s', (sequencer B).Run (fun _ l => l.isAnswer = true) s l s' ∧
      l.length ≤ s.m_outstanding_count ∧ s'.m_outstanding_count = 0 ∧
      ∀ address, (s'.hits address).map (·.request.pkt) = s.accepted address := by
  have hs := ordered_of_reach h
  obtain ⟨l, s', hrun, hlen, hzero, hall⟩ := hs.drains rfl fun _ _ hr =>
    Lib.Table.of_all hserved hr
  exact ⟨l, s', hrun, by rw [hs.count]; exact_mod_cast hlen, hzero, hall⟩

theorem drained_mixed : ∃ s l s', (sequencer 2).Reach (fun _ _ => True) s ∧
    s.m_outstanding_count = 3 ∧ (sequencer 2).Run (fun _ l => l.isAnswer = true) s l s' ∧
      s'.m_outstanding_count = 0 := by
  have h : (((sequencer 2).trace (fun _ _ => True) { m_max_outstanding_requests := 16 }
      mixed).any fun s => decide (s.m_outstanding_count = 3 ∧
        s.m_RequestTable.all (fun r => r.m_second_type.isServed) = true)) = true := by
    decide +kernel
  obtain ⟨s, hreach, hcount, hserved⟩ := Lib.Machine.trace_reaches (sequencer_start 16) h
  obtain ⟨l, s', hrun, -, hzero, -⟩ := drained hreach hserved
  exact ⟨s, l, s', hreach, hcount, hrun, hzero⟩

end

end Sequencer

end SttRuby.System
