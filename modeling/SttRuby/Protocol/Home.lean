import SttRuby.Protocol.L2Effect
import SttRuby.Protocol.System

/-!
# Protocol — Home

The conversation between the L2 and the directory.  As long as no invalidation finds the L2
without the line, the two go through one cycle of stages: the L2 sends a fetch, the directory
reads the memory and answers, the L2 holds the line and later writes it back, the directory
writes the memory and acknowledges.  `Home.At` says, for a stage, in which states the directory
may be and what is in flight; invalidations and DMA requests may be in flight at any time.

The values on the way are described by a predicate `ok`: outside the L2's tenure the memory is
`ok`, and so is everything written back.  With a predicate that is true of every block this says
nothing about values, and DMA writes are allowed; with a proper one there are no DMA writes.
-/

namespace SttRuby.Protocol

/-- The stages of a tenure of the L2. -/
inductive Stage where
  | idle | fetch | read | fill | held | back | write | acked
  deriving DecidableEq

namespace Stage

/-- What the L2 is doing at a stage. -/
def mode : Stage → L2Cache.Mode
  | .idle => .absent
  | .fetch | .read | .fill => .fetching
  | .held => .holding
  | .back | .write | .acked => .leaving

/-- The states the directory may be in: a DMA request may take it aside. -/
def dirStates : Stage → List Directory.State
  | .idle | .fetch | .acked => [.I, .ID, .ID_W]
  | .read => [.IM]
  | .fill | .held | .back => [.M, .M_DRD, .M_DWR]
  | .write => [.MI, .M_DRDI, .M_DWRI]

/-- Fetches in flight. -/
def fetches (st : Stage) : ℕ := if st = .fetch then 1 else 0

/-- Write-backs in flight. -/
def responses (st : Stage) : ℕ := if st = .back then 1 else 0

/-- Data in flight to the L2. -/
def fills (st : Stage) : ℕ := if st = .fill then 1 else 0

/-- Acknowledgements in flight to the L2. -/
def acks (st : Stage) : ℕ := if st = .acked then 1 else 0

/-- The memory holds the line's value. -/
def stored : Stage → Bool
  | .idle | .fetch | .read | .fill | .acked => true
  | .held | .back | .write => false

end Stage

/-- The states in which the directory has a TBE for a DMA request. -/
def Directory.State.hasTBE : Directory.State → Bool
  | .ID | .ID_W | .M_DRD | .M_DWR | .M_DWRI => true
  | .I | .M | .IM | .MI | .M_DRDI => false

/-- The states of a DMA write. -/
def Directory.State.writing : Directory.State → Bool
  | .ID_W | .M_DWR | .M_DWRI => true
  | .I | .M | .IM | .MI | .M_DRDI | .ID | .M_DRD => false

section

variable {n B : ℕ}

/-- The directory's line in state `s`: with a TBE for a DMA controller, or without one, and with
the L2 as owner while the L2 may be asked for the line. -/
inductive Directory.Line.Is : Directory.State → Directory.Line n B → Prop where
  | free {s : Directory.State} {o : Option (MachineID n)} (hs : s.hasTBE = false)
      (ho : s = .M → o = some .L2Cache) : Is s ⟨s, o, none⟩
  | busy {s : Directory.State} {o : Option (MachineID n)} {k off len : ℕ} {d : DataBlock B}
      (hs : s.hasTBE = true) (ho : s = .M_DRD ∨ s = .M_DWR → o = some .L2Cache) :
      Is s ⟨s, o, some ⟨off, s, d, len, .DMA k⟩⟩

/-- The request of an L2, not of a DMA controller. -/
def RequestMsg.isFetch (m : RequestMsg n B) : Bool := m.type ≠ .DMA_READ ∧ m.type ≠ .DMA_WRITE

/-- A request at the directory is a fetch of the L2 or comes from a DMA controller. -/
def RequestMsg.AtDir (m : RequestMsg n B) : Prop :=
  if m.isFetch then m.Requestor = .L2Cache else ∃ k, m.Requestor = .DMA k

/-- What the directory sends to the L2. -/
def ResponseMsg.FromDir (r : ResponseMsg n B) : Prop :=
  r.Sender = .Directory ∧ (r.type = .MEMORY_DATA ∨ r.type = .MEMORY_ACK ∨ r.type = .INV)

namespace Home

/-- What is under way at the memory in state `s`: nothing, a read for the L2 or for a DMA
controller, or a write; each as a request or as a response. -/
inductive Pending (ok : DataBlock B → Prop) (s : Directory.State) (memory : DataBlock B)
    (requests responses : List (MemoryMsg n B)) : Prop where
  | none (hs : s ∈ [Directory.State.I, .M, .M_DRD, .M_DWR]) (hq : requests = [])
      (hr : responses = [])
  | read (hs : s ∈ [Directory.State.IM, .ID]) {m : MemoryMsg n B} (hm : m.type = .MEMORY_READ)
      (hl : s = .IM → m.Sender = .L2Cache) (hq : requests = [m]) (hr : responses = [])
  | readDone (hs : s ∈ [Directory.State.IM, .ID]) {m : MemoryMsg n B}
      (hm : m.type = .MEMORY_READ) (hl : s = .IM → m.Sender = .L2Cache)
      (hd : m.DataBlk = memory) (hq : requests = []) (hr : responses = [m])
  | write (hs : s ∈ [Directory.State.ID_W, .MI, .M_DRDI, .M_DWRI]) {m : MemoryMsg n B}
      (hm : m.type = .MEMORY_WB) (hl : s ≠ .ID_W → m.Sender = .L2Cache)
      (hd : ok (Directory.overwrite memory m.DataBlk m.offset (Directory.requestSize m)))
      (hq : requests = [m]) (hr : responses = [])
  | writeDone (hs : s ∈ [Directory.State.ID_W, .MI, .M_DRDI, .M_DWRI]) {m : MemoryMsg n B}
      (hm : m.type = .MEMORY_WB) (hl : s ≠ .ID_W → m.Sender = .L2Cache) (hd : ok memory)
      (hq : requests = []) (hr : responses = [m])

/-- The home side at a stage, the directory in state `s`. -/
structure At (ok : DataBlock B → Prop) (st : Stage) (s : Directory.State) (h : Home n B) :
    Prop where
  state : s ∈ st.dirStates
  dir : h.dir.Is s
  fetches : h.requestToDir.countP RequestMsg.isFetch = st.fetches
  requests : ∀ m ∈ h.requestToDir, m.AtDir
  responses : h.responseToDir.length = st.responses
  senders : ∀ r ∈ h.responseToDir, r.Sender = .L2Cache
  fills : h.responseToL2Cache.countP (fun r => r.type = .MEMORY_DATA) = st.fills
  acks : h.responseToL2Cache.countP (fun r => r.type = .MEMORY_ACK) = st.acks
  toL2 : ∀ r ∈ h.responseToL2Cache, r.FromDir
  pending : Pending ok s h.memory h.requestToMemory h.responseFromMemory
  stored : st.stored = true → ok h.memory
  filled : ∀ r ∈ h.responseToL2Cache, r.type = .MEMORY_DATA → r.DataBlk = h.memory
  back : ∀ r ∈ h.responseToDir,
    (r.type = .MEMORY_DATA → ok r.DataBlk) ∧ (r.type = .ACK → ok h.memory)
  writing : s.writing = true → ∀ d, ok d
  writes : ∀ m ∈ h.requestToDir, m.type = .DMA_WRITE → ∀ d, ok d

end Home

theorem mem_of_mem_dequeue {α : Type} [DecidableEq α] {b : Bool} {l : List α} {a x : α}
    (h : x ∈ dequeue b l a) : x ∈ l := by
  unfold dequeue at h
  split at h
  · exact List.mem_of_mem_erase h
  · exact h

/-! ### Steps of the directory -/

namespace Home

open Directory (doTransition)

variable {ok : DataBlock B → Prop} {st : Stage} {s : Directory.State} {h : Home n B}

theorem countP_fetch_erase {m : RequestMsg n B} {l : List (RequestMsg n B)} (hm : m ∈ l)
    (hf : m.isFetch = true) :
    (l.erase m).countP RequestMsg.isFetch = l.countP RequestMsg.isFetch - 1 := by
  simp [List.countP_erase, hm, hf]

theorem countP_dma_erase {m : RequestMsg n B} (l : List (RequestMsg n B))
    (hf : m.isFetch = false) :
    (l.erase m).countP RequestMsg.isFetch = l.countP RequestMsg.isFetch := by
  simp [List.countP_erase, hf]

/-- A message that is stalled or recycled changes nothing. -/
theorem At.stall (hA : h.At ok st s) : (h.afterDir { line := h.dir }).At ok st s := by
  simpa [afterDir] using hA

/-- A DMA request leaves its buffer. -/
theorem At.takeDMA (hA : h.At ok st s) {m : RequestMsg n B} (hf : m.isFetch = false) :
    Home.At ok st s { h with requestToDir := h.requestToDir.erase m } :=
  { hA with
    fetches := (countP_dma_erase _ hf).trans hA.fetches
    requests := fun x hx => hA.requests x (List.mem_of_mem_erase hx)
    writes := fun x hx => hA.writes x (List.mem_of_mem_erase hx) }

/-- An invalidation is sent to the L2. -/
theorem At.invalidate (hA : h.At ok st s) :
    Home.At ok st s { h with
      responseToL2Cache := h.responseToL2Cache ++ [{ type := .INV, Sender := .Directory }] } :=
  { hA with
    fills := by simpa using hA.fills
    acks := by simpa using hA.acks
    toL2 := by
      intro r hr
      rcases List.mem_append.mp hr with hr | hr
      · exact hA.toL2 r hr
      · rw [List.mem_singleton.mp hr]; exact ⟨rfl, .inr (.inr rfl)⟩
    filled := by
      intro r hr ht
      rcases List.mem_append.mp hr with hr | hr
      · exact hA.filled r hr ht
      · rw [List.mem_singleton.mp hr] at ht; cases ht }

/-- No memory access is under way in a state that waits for none. -/
theorem Pending.empty {memory : DataBlock B} {rq rs : List (MemoryMsg n B)}
    (hp : Pending ok s memory rq rs) (hs : s = .I ∨ s = .M ∨ s = .M_DRD ∨ s = .M_DWR) :
    rq = [] ∧ rs = [] := by
  cases hp with
  | none _ hq hr => exact ⟨hq, hr⟩
  | read hs' | readDone hs' | write hs' | writeDone hs' =>
      rcases hs with rfl | rfl | rfl | rfl <;> simp at hs'

theorem At.dirFetch (hA : h.At ok st s) {m : RequestMsg n B} (hm : m ∈ h.requestToDir)
    (hf : m.isFetch = true) {c : Directory.Ctx n B}
    (hc : doTransition { request := some m } .Fetch h.dir = some c) :
    ∃ st' s', st'.mode = st.mode ∧
      ({ h with requestToDir := dequeue c.popped h.requestToDir m }.afterDir c).At ok st' s' := by
  have hpos : 0 < h.requestToDir.countP RequestMsg.isFetch := List.countP_pos_iff.mpr ⟨m, hm, hf⟩
  obtain rfl : st = .fetch := by
    rw [hA.fetches, Stage.fetches] at hpos
    split at hpos
    · assumption
    · omega
  obtain ⟨d, rq, rs, tl, dma, rm, fm, mem⟩ := h
  have hs := hA.state
  have hd : Directory.Line.Is s d := hA.dir
  simp only [Stage.dirStates, List.mem_cons, List.not_mem_nil, or_false] at hs
  rcases hs with rfl | rfl | rfl <;> cases hd <;> try contradiction
  · obtain rfl : c = ⟨⟨.IM, _, none⟩, [], [{ type := .MEMORY_READ, Sender := m.Requestor }],
        true⟩ := (Option.some.inj hc).symm
    obtain ⟨rfl, rfl⟩ := hA.pending.empty (.inl rfl)
    have hreq : m.Requestor = .L2Cache := by
      simpa [RequestMsg.AtDir, hf] using hA.requests m hm
    refine ⟨.read, .IM, rfl, ?_⟩
    simp only [afterDir, dequeue, if_true, List.filterMap_nil, List.append_nil]
    exact { hA with
      state := by decide
      dir := .free rfl (by simp)
      fetches := by
        rw [countP_fetch_erase hm hf]
        exact congrArg (· - 1) hA.fetches
      requests := fun x hx => hA.requests x (List.mem_of_mem_erase hx)
      pending := .read (by decide) rfl (fun _ => hreq) rfl rfl
      writing := by simp [Directory.State.writing]
      writes := fun x hx => hA.writes x (List.mem_of_mem_erase hx) }
  · cases hc
    exact ⟨.fetch, .ID, rfl, hA.stall⟩
  · cases hc
    exact ⟨.fetch, .ID_W, rfl, hA.stall⟩

theorem At.dirDMA (hA : h.At ok st s) {m : RequestMsg n B} (hm : m ∈ h.requestToDir)
    {e : Directory.Event} (he : e = .DMA_READ ∧ m.type = .DMA_READ ∨
      e = .DMA_WRITE ∧ m.type = .DMA_WRITE) {c : Directory.Ctx n B}
    (hc : doTransition { request := some m } e h.dir = some c) :
    ∃ st' s', st'.mode = st.mode ∧
      ({ h with requestToDir := dequeue c.popped h.requestToDir m }.afterDir c).At ok st' s' := by
  have hf : m.isFetch = false := by
    rcases he with ⟨-, ht⟩ | ⟨-, ht⟩ <;> simp [RequestMsg.isFetch, ht]
  obtain ⟨k, hk⟩ : ∃ k, m.Requestor = .DMA k := by
    simpa [RequestMsg.AtDir, hf] using hA.requests m hm
  have hA' := hA.takeDMA hf
  have hw : m.type = .DMA_WRITE → ∀ d, ok d := hA.writes m hm
  obtain ⟨d, rq, rs, tl, dma, rm, fm, mem⟩ := h
  have hd : Directory.Line.Is s d := hA.dir
  by_cases hI : s = .I
  · subst hI
    cases hd with
    | busy => contradiction
    | @free o _ ho =>
    obtain ⟨rfl, rfl⟩ := hA.pending.empty (.inl rfl)
    have hst : ∀ s' ∈ [Directory.State.ID, .ID_W], s' ∈ st.dirStates := by
      have := hA.state
      revert this
      cases st <;> decide
    rcases he with ⟨rfl, ht⟩ | ⟨rfl, ht⟩
    · obtain rfl : c = ⟨⟨.ID, o, some ⟨m.offset, .ID, m.DataBlk, m.Len, m.Requestor⟩⟩, [],
          [{ type := .MEMORY_READ, Sender := m.Requestor }], true⟩ := (Option.some.inj hc).symm
      refine ⟨st, .ID, rfl, ?_⟩
      simp only [afterDir, dequeue, if_true, List.filterMap_nil, List.append_nil, hk]
      exact { hA' with
        state := hst _ (by decide)
        dir := .busy rfl (by simp)
        pending := .read (by decide) rfl (by simp) rfl rfl
        writing := by simp [Directory.State.writing] }
    · obtain rfl : c = ⟨⟨.ID_W, o, some ⟨m.offset, .ID_W, m.DataBlk, m.Len, m.Requestor⟩⟩, [],
          [{ type := .MEMORY_WB, Sender := .Directory, DataBlk := m.DataBlk, offset := m.offset,
             Len := m.Len }], true⟩ := (Option.some.inj hc).symm
      refine ⟨st, .ID_W, rfl, ?_⟩
      simp only [afterDir, dequeue, if_true, List.filterMap_nil, List.append_nil, hk]
      exact { hA' with
        state := hst _ (by decide)
        dir := .busy rfl (by simp)
        pending := .write (by decide) rfl (by simp) (hw ht _) rfl rfl
        writing := fun _ => hw ht }
  by_cases hM : s = .M
  · subst hM
    cases hd with
    | busy => contradiction
    | free _ ho =>
    cases ho rfl
    obtain ⟨rfl, rfl⟩ := hA.pending.empty (.inr (.inl rfl))
    have hst : ∀ s' ∈ [Directory.State.M_DRD, .M_DWR], s' ∈ st.dirStates := by
      have := hA.state
      revert this
      cases st <;> decide
    have hinv := hA'.invalidate
    rcases he with ⟨rfl, ht⟩ | ⟨rfl, ht⟩
    · obtain rfl : c = ⟨⟨.M_DRD, some .L2Cache, some ⟨m.offset, .M_DRD, m.DataBlk, m.Len,
          m.Requestor⟩⟩, [(.L2Cache, { type := .INV, Sender := .Directory })], [], true⟩ :=
        (Option.some.inj hc).symm
      refine ⟨st, .M_DRD, rfl, ?_⟩
      simp only [afterDir, dequeue, if_true, List.filterMap_cons, List.filterMap_nil,
        List.append_nil, hk, toDMA, Option.map_none]
      exact { hinv with
        state := hst _ (by decide)
        dir := .busy rfl (by simp)
        pending := .none (by decide) rfl rfl
        writing := by simp [Directory.State.writing] }
    · obtain rfl : c = ⟨⟨.M_DWR, some .L2Cache, some ⟨m.offset, .M_DWR, m.DataBlk, m.Len,
          m.Requestor⟩⟩, [(.L2Cache, { type := .INV, Sender := .Directory })], [], true⟩ :=
        (Option.some.inj hc).symm
      refine ⟨st, .M_DWR, rfl, ?_⟩
      simp only [afterDir, dequeue, if_true, List.filterMap_cons, List.filterMap_nil,
        List.append_nil, hk, toDMA, Option.map_none]
      exact { hinv with
        state := hst _ (by decide)
        dir := .busy rfl (by simp)
        pending := .none (by decide) rfl rfl
        writing := fun _ => hw ht }
  · -- the directory is busy: the request goes round again
    refine ⟨st, s, rfl, ?_⟩
    rcases he with ⟨rfl, -⟩ | ⟨rfl, -⟩ <;> cases hd <;> cases s <;>
      first | contradiction | (cases hc; exact hA.stall)

/-- A DMA controller is done and the directory is idle again. -/
theorem At.doneDMA (hA : h.At ok st s) (hs : s = .ID ∨ s = .ID_W)
    (hmem : st.stored = true → ok h.memory)
    (o : Option (MachineID n)) (dma : List (ℕ × ResponseMsg n B)) :
    Home.At ok st .I { h with
      dir := ⟨.I, o, none⟩
      responseToDMA := dma
      requestToMemory := []
      responseFromMemory := [] } :=
  { hA with
    state := by
      have := hA.state
      revert this
      rcases hs with rfl | rfl <;> cases st <;> decide
    dir := .free rfl (by simp)
    pending := .none (by decide) rfl rfl
    stored := hmem
    writing := nofun }

theorem overwrite_all (old new : DataBlock B) : Directory.overwrite old new 0 B = new := by
  funext k
  simp [Directory.overwrite]

/-- A write-back in flight is the only one. -/
theorem At.only_response (hA : h.At ok st s) {r : ResponseMsg n B} (hr : r ∈ h.responseToDir) :
    st = .back ∧ h.responseToDir = [r] := by
  have hpos := List.length_pos_of_mem hr
  by_cases hst : st = .back
  · refine ⟨hst, ?_⟩
    have hlen : h.responseToDir.length = 1 := by rw [hA.responses, hst]; rfl
    obtain ⟨x, hx⟩ := List.length_eq_one_iff.mp hlen
    rw [hx] at hr ⊢
    rw [List.mem_singleton.mp hr]
  · rw [hA.responses, Stage.responses, if_neg hst] at hpos
    cases hpos

/-- The directory ends the L2's tenure and acknowledges it. -/
theorem At.acknowledge (hA : h.At ok st s) (hst : st = .back ∨ st = .write) (hmem : ok h.memory)
    (o : Option (MachineID n)) (dma : List (ℕ × ResponseMsg n B)) :
    Home.At ok .acked .I { h with
      dir := ⟨.I, o, none⟩, responseToDir := [], responseToDMA := dma
      responseToL2Cache := h.responseToL2Cache ++ [{ type := .MEMORY_ACK, Sender := .Directory }]
      requestToMemory := [], responseFromMemory := [] } where
  state := by decide
  dir := .free rfl (by simp)
  fetches := by rcases hst with rfl | rfl <;> exact hA.fetches
  requests := hA.requests
  responses := rfl
  senders := by simp
  fills := by
    rw [List.countP_append, hA.fills]
    rcases hst with rfl | rfl <;> rfl
  acks := by
    rw [List.countP_append, hA.acks]
    rcases hst with rfl | rfl <;> rfl
  toL2 := by
    intro r hr
    rcases List.mem_append.mp hr with hr | hr
    · exact hA.toL2 r hr
    · rw [List.mem_singleton.mp hr]; exact ⟨rfl, .inr (.inl rfl)⟩
  pending := .none (by decide) rfl rfl
  stored := fun _ => hmem
  filled := by
    intro r hr ht
    rcases List.mem_append.mp hr with hr | hr
    · exact hA.filled r hr ht
    · rw [List.mem_singleton.mp hr] at ht; cases ht
  back := by simp
  writing := nofun
  writes := hA.writes

/-- The directory sends the L2's data on to the memory, or what a DMA controller writes over it. -/
theorem At.queueWrite (hA : h.At ok .back s) {s' : Directory.State}
    (hs : s' ∈ Stage.write.dirStates) {d : Directory.Line n B} (hd : d.Is s')
    {m : MemoryMsg n B} (hm : m.type = .MEMORY_WB) (hl : m.Sender = .L2Cache)
    (hok : ok (Directory.overwrite h.memory m.DataBlk m.offset (Directory.requestSize m)))
    (hall : s'.writing = true → ∀ d, ok d) (dma : List (ℕ × ResponseMsg n B)) :
    Home.At ok .write s' { h with
      dir := d, responseToDir := [], responseToDMA := dma
      requestToMemory := [m], responseFromMemory := [] } :=
  { hA with
    state := hs
    dir := hd
    responses := rfl
    senders := by simp
    pending := .write (List.mem_cons_of_mem _ hs) hm (fun _ => hl) hok rfl rfl
    stored := nofun
    back := by simp
    writing := hall }

theorem At.dirResponse (hA : h.At ok st s) {r : ResponseMsg n B} (hr : r ∈ h.responseToDir)
    {e : Directory.Event} (he : Directory.responseEvent r = some e) {c : Directory.Ctx n B}
    (hc : doTransition { response := some r } e h.dir = some c) :
    ∃ st' s', st'.mode = st.mode ∧
      ({ h with responseToDir := dequeue c.popped h.responseToDir r }.afterDir c).At ok st' s' := by
  obtain ⟨rfl, hr1⟩ := hA.only_response hr
  have hsend : r.Sender = .L2Cache := hA.senders r hr
  have hback := hA.back r hr
  obtain ⟨d, rq, rs, tl, dma, rm, fm, mem⟩ := h
  have hd : Directory.Line.Is s d := hA.dir
  cases hr1
  have hs := hA.state
  simp only [Stage.dirStates, List.mem_cons, List.not_mem_nil, or_false] at hs
  obtain ⟨rfl, rfl⟩ := hA.pending.empty (.inr hs)
  have hety : e = .Data ∧ r.type = .MEMORY_DATA ∨ e = .CleanReplacement ∧ r.type = .ACK := by
    unfold Directory.responseEvent at he
    split at he <;> simp_all
  rcases hety with ⟨rfl, ht⟩ | ⟨rfl, ht⟩
  · -- the data is queued for the memory
    have hok : ok (Directory.overwrite mem r.DataBlk 0 B) := by
      rw [overwrite_all]; exact hback.1 ht
    rcases hs with rfl | rfl | rfl <;> cases hd <;> try contradiction
    · obtain rfl : c = ⟨⟨.MI, _, none⟩, [],
          [{ type := .MEMORY_WB, Sender := r.Sender, DataBlk := r.DataBlk }], true⟩ :=
        (Option.some.inj hc).symm
      refine ⟨.write, .MI, rfl, ?_⟩
      simp only [afterDir, dequeue, if_true, List.filterMap_nil, List.append_nil,
        List.erase_cons_head]
      exact hA.queueWrite (by decide) (.free rfl (by simp)) rfl hsend hok (by rintro ⟨⟩) _
    · obtain rfl : c = ⟨⟨.M_DRDI, _, none⟩,
          [(_, { type := .DATA, Sender := .Directory, DataBlk := r.DataBlk })],
          [{ type := .MEMORY_WB, Sender := r.Sender, DataBlk := r.DataBlk }], true⟩ :=
        (Option.some.inj hc).symm
      refine ⟨.write, .M_DRDI, rfl, ?_⟩
      simp only [afterDir, dequeue, if_true, List.filterMap_cons, List.filterMap_nil,
        List.append_nil, List.erase_cons_head, reduceCtorEq, if_false]
      exact hA.queueWrite (by decide) (.free rfl (by simp)) rfl hsend hok (by rintro ⟨⟩) _
    · have hall := hA.writing rfl
      obtain rfl : c = ⟨⟨.M_DWRI, _, some ⟨_, .M_DWRI, _, _, _⟩⟩, [],
          [{ type := .MEMORY_WB, Sender := r.Sender, DataBlk := _, offset := _, Len := _ }],
          true⟩ := (Option.some.inj hc).symm
      refine ⟨.write, .M_DWRI, rfl, ?_⟩
      simp only [afterDir, dequeue, if_true, List.filterMap_nil, List.append_nil,
        List.erase_cons_head]
      exact hA.queueWrite (by decide) (.busy rfl (by simp)) rfl hsend (hall _) (fun _ => hall) _
  · -- the L2 had nothing to write; taken aside by a DMA request, the directory refuses
    rcases hs with rfl | rfl | rfl <;> cases hd <;> try contradiction
    · obtain rfl : c = ⟨⟨.I, _, none⟩,
          [(r.Sender, { type := .MEMORY_ACK, Sender := .Directory })], [], true⟩ :=
        (Option.some.inj hc).symm
      refine ⟨.acked, .I, rfl, ?_⟩
      simp only [afterDir, dequeue, if_true, List.filterMap_cons, List.filterMap_nil,
        List.append_nil, List.erase_cons_head, hsend, toDMA, Option.map_none]
      exact hA.acknowledge (.inl rfl) (hback.2 ht) _ _

/-- Where the memory is written, no data is on its way to the L2 or back. -/
theorem At.still (hA : h.At ok st s) (hs : s ∈ [Directory.State.ID_W, .MI, .M_DRDI, .M_DWRI]) :
    (∀ r ∈ h.responseToL2Cache, r.type ≠ .MEMORY_DATA) ∧ h.responseToDir = [] := by
  have hst : st.fills = 0 ∧ st.responses = 0 := by
    have := hA.state
    revert this hs
    cases st <;> cases s <;> decide
  constructor
  · have := hA.fills
    rw [hst.1, List.countP_eq_zero] at this
    exact fun r hr => by simpa using this r hr
  · have := hA.responses
    rw [hst.2] at this
    exact List.length_eq_zero_iff.mp this

theorem At.service (hA : h.At ok st s) {m : MemoryMsg n B} (hm : m ∈ h.requestToMemory)
    {memory : DataBlock B} {r : MemoryMsg n B}
    (hsv : Directory.serviceMemoryQueue h.memory m = some (memory, r)) :
    Home.At ok st s { h with
      memory := memory, requestToMemory := h.requestToMemory.erase m
      responseFromMemory := h.responseFromMemory ++ [r] } := by
  unfold Directory.serviceMemoryQueue at hsv
  split at hsv
  case isFalse => cases hsv
  cases hA.pending with
  | none _ hq | readDone _ _ _ _ hq | writeDone _ _ _ _ hq => rw [hq] at hm; cases hm
  | read hs hty hl hq hr =>
      rw [hq] at hm ⊢
      obtain rfl := List.mem_singleton.mp hm
      rw [hty] at hsv
      cases hsv
      exact { hA with
        pending := .readDone hs (m := ⟨.MEMORY_READ, m.Sender, h.memory, m.offset, 0⟩) rfl hl rfl
          (List.erase_cons_head ..) (by rw [hr]; rfl) }
  | write hs hty hl hd hq hr =>
      rw [hq] at hm ⊢
      obtain rfl := List.mem_singleton.mp hm
      rw [hty] at hsv
      cases hsv
      obtain ⟨hfill, hback⟩ := hA.still hs
      exact { hA with
        pending := .writeDone hs (m := ⟨.MEMORY_WB, m.Sender, fun _ => 0, m.offset, 0⟩) rfl hl hd
          (List.erase_cons_head ..) (by rw [hr]; rfl)
        stored := fun _ => hd
        filled := fun r hr ht => absurd ht (hfill r hr)
        back := by simp [hback] }

theorem seenAt_free (s : Directory.State) (o : Option (MachineID n)) (k : ℕ) :
    (⟨s, o, none⟩ : Directory.Line n B).seenAt k = ⟨s, o, none⟩ := by
  unfold Directory.Line.seenAt
  split <;> rfl

/-- The directory gives the line to the L2. -/
theorem At.provide {m : MemoryMsg n B} (hA : h.At ok .read s) (hm : m.DataBlk = h.memory) :
    Home.At ok .fill .M { h with
      dir := ⟨.M, some .L2Cache, none⟩
      responseToL2Cache := h.responseToL2Cache ++
        [{ type := .MEMORY_DATA, Sender := .Directory, DataBlk := m.DataBlk }]
      requestToMemory := [], responseFromMemory := [] } :=
  { hA with
    state := by decide
    dir := .free rfl (fun _ => rfl)
    fills := by rw [List.countP_append, hA.fills]; rfl
    acks := by rw [List.countP_append, hA.acks]; rfl
    toL2 := by
      intro r hr
      rcases List.mem_append.mp hr with hr | hr
      · exact hA.toL2 r hr
      · rw [List.mem_singleton.mp hr]; exact ⟨rfl, .inl rfl⟩
    pending := .none (by decide) rfl rfl
    filled := by
      intro r hr ht
      rcases List.mem_append.mp hr with hr | hr
      · exact hA.filled r hr ht
      · rw [List.mem_singleton.mp hr]; exact hm
    writing := nofun }

/-- A response at an offset finds no TBE, and the DMA controller cannot be answered. -/
theorem seenAt_busy {s : Directory.State} {o : Option (MachineID n)} {t : Directory.TBE n B}
    {m : MemoryMsg n B} {c : Directory.Ctx n B}
    (hs : s = .ID ∧ m.type = .MEMORY_READ ∨ (s = .ID_W ∨ s = .M_DWRI) ∧ m.type = .MEMORY_WB)
    (hc : doTransition { memory := some m } (Directory.memoryEvent m)
      ((⟨s, o, some t⟩ : Directory.Line n B).seenAt m.offset) = some c) :
    m.offset = 0 := by
  by_contra hoff
  rw [Directory.Line.seenAt, if_neg hoff, Directory.memoryEvent] at hc
  rcases hs with ⟨rfl, ht⟩ | ⟨rfl | rfl, ht⟩ <;> rw [ht] at hc <;> cases hc

theorem At.dirMemory (hA : h.At ok st s) {m : MemoryMsg n B} (hm : m ∈ h.responseFromMemory)
    {c : Directory.Ctx n B}
    (hc : doTransition { memory := some m } (Directory.memoryEvent m) (h.dir.seenAt m.offset) =
      some c) :
    ∃ st' s', st'.mode = st.mode ∧
      ({ h with
        responseFromMemory :=
          dequeue c.popped h.responseFromMemory m }.afterDir c).At ok st' s' := by
  obtain ⟨d, rq, rs, tl, dma, rm, fm, mem⟩ := h
  have hd : Directory.Line.Is s d := hA.dir
  have hst := hA.state
  cases hA.pending with
  | none _ _ hr | read _ _ _ _ hr | write _ _ _ _ _ hr => cases hr; cases hm
  | readDone hs hty hl hdat hq hr =>
      cases hq; cases hr
      obtain rfl := List.mem_singleton.mp hm
      simp only [List.mem_cons, List.not_mem_nil, or_false] at hs
      rcases hs with rfl | rfl <;> cases hd <;> try contradiction
      · -- the data goes to the L2, which owns the line from now on
        rw [seenAt_free, Directory.memoryEvent, hty] at hc
        obtain rfl : c = ⟨⟨.M, some m.Sender, none⟩,
            [(m.Sender, { type := .MEMORY_DATA, Sender := .Directory, DataBlk := m.DataBlk })], [],
            true⟩ := (Option.some.inj hc).symm
        obtain rfl : st = .read := by
          revert hst
          cases st <;> decide
        refine ⟨.fill, .M, rfl, ?_⟩
        simp only [afterDir, dequeue, if_true, List.filterMap_cons, List.filterMap_nil,
          List.append_nil, List.erase_cons_head, hl rfl, toDMA, Option.map_none]
        exact hA.provide hdat
      · have hoff := seenAt_busy (.inl ⟨rfl, hty⟩) hc
        rw [Directory.Line.seenAt, if_pos hoff, Directory.memoryEvent, hty] at hc
        obtain rfl : c = ⟨⟨.I, _, none⟩,
            [(_, { type := .DATA, Sender := .Directory, DataBlk := m.DataBlk })], [], true⟩ :=
          (Option.some.inj hc).symm
        refine ⟨st, .I, rfl, ?_⟩
        simp only [afterDir, dequeue, if_true, List.filterMap_cons, List.filterMap_nil,
          List.append_nil, List.erase_cons_head, reduceCtorEq, if_false]
        exact hA.doneDMA (.inl rfl) hA.stored _ _
  | writeDone hs hty hl hdat hq hr =>
      cases hq; cases hr
      obtain rfl := List.mem_singleton.mp hm
      simp only [List.mem_cons, List.not_mem_nil, or_false] at hs
      by_cases hID : s = .ID_W
      · subst hID
        cases hd with
        | free => contradiction
        | busy =>
        have hoff := seenAt_busy (.inr ⟨.inl rfl, hty⟩) hc
        rw [Directory.Line.seenAt, if_pos hoff, Directory.memoryEvent, hty] at hc
        obtain rfl : c = ⟨⟨.I, _, none⟩, [(_, { type := .ACK, Sender := .Directory })], [], true⟩ :=
          (Option.some.inj hc).symm
        refine ⟨st, .I, rfl, ?_⟩
        simp only [afterDir, dequeue, if_true, List.filterMap_cons, List.filterMap_nil,
          List.append_nil, List.erase_cons_head, reduceCtorEq, if_false]
        exact hA.doneDMA (.inr rfl) hA.stored _ _
      · -- the L2's write-back is in memory
        obtain rfl : st = .write := by
          revert hst hs hID
          cases st <;> cases s <;> decide
        obtain rfl : rs = [] := List.length_eq_zero_iff.mp hA.responses
        have hl2 : m.Sender = .L2Cache := hl hID
        refine ⟨.acked, .I, rfl, ?_⟩
        rcases hs with rfl | rfl | rfl | rfl <;> cases hd <;> try contradiction
        · rw [seenAt_free, Directory.memoryEvent, hty] at hc
          obtain rfl : c = ⟨⟨.I, _, none⟩,
              [(m.Sender, { type := .MEMORY_ACK, Sender := .Directory })], [], true⟩ :=
            (Option.some.inj hc).symm
          simp only [afterDir, dequeue, if_true, List.filterMap_cons, List.filterMap_nil,
            List.append_nil, List.erase_cons_head, hl2, toDMA, Option.map_none]
          exact hA.acknowledge (.inr rfl) hdat _ _
        · rw [seenAt_free, Directory.memoryEvent, hty] at hc
          obtain rfl : c = ⟨⟨.I, _, none⟩,
              [(m.Sender, { type := .MEMORY_ACK, Sender := .Directory })], [], true⟩ :=
            (Option.some.inj hc).symm
          simp only [afterDir, dequeue, if_true, List.filterMap_cons, List.filterMap_nil,
            List.append_nil, List.erase_cons_head, hl2, toDMA, Option.map_none]
          exact hA.acknowledge (.inr rfl) hdat _ _
        · have hoff := seenAt_busy (.inr ⟨.inr rfl, hty⟩) hc
          rw [Directory.Line.seenAt, if_pos hoff, Directory.memoryEvent, hty] at hc
          obtain rfl : c = ⟨⟨.I, _, none⟩,
              [(m.Sender, { type := .MEMORY_ACK, Sender := .Directory }),
                (_, { type := .ACK, Sender := .Directory })], [], true⟩ :=
            (Option.some.inj hc).symm
          simp only [afterDir, dequeue, if_true, List.filterMap_cons, List.filterMap_nil,
            List.append_nil, List.erase_cons_head, hl2, reduceCtorEq, if_false]
          exact hA.acknowledge (.inr rfl) hdat _ _

theorem At.dma (hA : h.At ok st s) {m : RequestMsg n B}
    (hm : (m.type = .DMA_READ ∨ m.type = .DMA_WRITE) ∧ (toDMA m.Requestor).isSome)
    (hw : m.type = .DMA_WRITE → ∀ d, ok d) :
    Home.At ok st s { h with requestToDir := h.requestToDir ++ [m] } := by
  have hf : m.isFetch = false := by
    rcases hm.1 with ht | ht <;> simp [RequestMsg.isFetch, ht]
  have hk : m.AtDir := by
    have := hm.2
    rw [RequestMsg.AtDir, if_neg (by simp [hf])]
    cases hr : m.Requestor with
    | DMA k => exact ⟨k, rfl⟩
    | L1Cache | L2Cache | Directory => rw [hr] at this; cases this
  exact { hA with
    fetches := by simpa [List.countP_append, hf] using hA.fetches
    requests := by
      intro x hx
      rcases List.mem_append.mp hx with hx | hx
      · exact hA.requests x hx
      · rwa [List.mem_singleton.mp hx]
    writes := by
      intro x hx ht
      rcases List.mem_append.mp hx with hx | hx
      · exact hA.writes x hx ht
      · rw [List.mem_singleton.mp hx] at ht; exact hw ht }

/-- **A step of the directory, the memory or a DMA controller** stays in the L2's mode. -/
theorem At.step (hA : h.At ok st s) {l : HomeLabel n B} {h' : Home n B} (hl : h.step l = some h')
    (hw : ∀ m, l = .dma m → m.type = .DMA_WRITE → ∀ d, ok d) :
    ∃ st' s', st'.mode = st.mode ∧ h'.At ok st' s' := by
  cases l with
  | request m =>
      simp only [Home.step, Option.ite_none_right_eq_some, Option.bind_eq_some_iff,
        Option.map_eq_some_iff] at hl
      obtain ⟨hm, e, he, c, hc, rfl⟩ := hl
      unfold Directory.requestEvent at he
      split at he
      · next ht =>
          cases he
          refine hA.dirFetch hm ?_ hc
          revert ht
          unfold Directory.isGETRequest RequestMsg.isFetch
          cases m.type <;> decide
      split at he
      · next ht => cases he; exact hA.dirDMA hm (.inl ⟨rfl, ht⟩) hc
      split at he
      · next ht => cases he; exact hA.dirDMA hm (.inr ⟨rfl, ht⟩) hc
      · cases he
  | response r =>
      simp only [Home.step, Option.ite_none_right_eq_some, Option.bind_eq_some_iff,
        Option.map_eq_some_iff] at hl
      obtain ⟨hr, e, he, c, hc, rfl⟩ := hl
      exact hA.dirResponse hr he hc
  | memoryResponse m =>
      simp only [Home.step, Option.ite_none_right_eq_some, Option.map_eq_some_iff] at hl
      obtain ⟨hm, c, hc, rfl⟩ := hl
      exact hA.dirMemory hm hc
  | memory m =>
      simp only [Home.step, Option.ite_none_right_eq_some, Option.map_eq_some_iff] at hl
      obtain ⟨hm, ⟨memory, r⟩, hsv, rfl⟩ := hl
      exact ⟨st, s, rfl, hA.service hm hsv⟩
  | dma m =>
      simp only [Home.step, Option.ite_none_right_eq_some, Option.some.injEq] at hl
      obtain ⟨hm, rfl⟩ := hl
      exact ⟨st, s, rfl, hA.dma hm (hw m rfl)⟩

/-! ### Steps of the L2 -/

/-- What the L2 writes back is `ok`, and it writes nothing back only if the memory is. -/
def Written (ok : DataBlock B → Prop) (memory : DataBlock B) (l : List (ResponseMsg n B)) : Prop :=
  ∀ r ∈ l, (r.type = .MEMORY_DATA → ok r.DataBlk) ∧ (r.type = .ACK → ok memory)

/-- A transition of the L2 that consumes neither the data nor the ack it waits for, and does not
answer for a line it does not have. -/
theorem At.afterL2 (hA : h.At ok st s) {inp : L2Cache.In n B} {e : L2Cache.Event}
    {l : L2Cache.Line n B} {c : L2Cache.Ctx n B} (hmode : l.getState.mode = st.mode)
    (hc : L2Cache.doTransition inp e l = some c) (hd : e ≠ .Mem_Data) (ha : e ≠ .Mem_Ack)
    (hi : e = .MEM_Inv → st.mode ≠ .absent ∧ st.mode ≠ .fetching)
    (hreq : ∀ m, inp.request = some m → e = .L1_GETS ∨ e = .L1_GET_INSTR ∨ e = .L1_GETX →
      m.isFetch = true)
    (hout : Written ok h.memory c.responseToDir) :
    ∃ st', c.line.getState.mode = st'.mode ∧
      (h.receive c.requestToDir c.responseToDir).At ok st' s := by
  obtain ⟨hmove, ⟨hsf, hsr⟩, -⟩ := L2Cache.doTransition_effect hc
  rw [hmode] at hmove
  rcases hmove with ⟨hm', hf, hr, -⟩ | ⟨hm, hm', hf, hr, hget⟩ | ⟨-, -, -, -, he, -⟩ |
    ⟨hm, hm', hf, hr, -⟩ | ⟨-, -, -, -, he, -⟩ | ⟨hm, -, -, -, he⟩
  · -- nothing is sent
    have hf : c.requestToDir = [] := List.length_eq_zero_iff.mp hf
    have hr : c.responseToDir = [] := List.map_eq_nil_iff.mp hr
    refine ⟨st, hm', ?_⟩
    simpa [Home.receive, hf, hr] using hA
  · -- a fetch
    obtain rfl : st = .idle := by revert hm; cases st <;> decide
    obtain ⟨f, hf⟩ := List.length_eq_one_iff.mp hf
    have hr : c.responseToDir = [] := List.map_eq_nil_iff.mp hr
    obtain ⟨hfr, m, hm1, hm2⟩ := hsf f (by simp [hf])
    have hff : f.isFetch = true := by
      have := hreq m hm1 hget
      simpa only [RequestMsg.isFetch, hm2] using this
    refine ⟨.fetch, hm', ?_⟩
    simp only [Home.receive, hf, hr, List.append_nil]
    exact { hA with
      fetches := by rw [List.countP_append, hA.fetches]; simp [hff]; rfl
      requests := by
        intro x hx
        rcases List.mem_append.mp hx with hx | hx
        · exact hA.requests x hx
        · rw [List.mem_singleton.mp hx, RequestMsg.AtDir, if_pos hff]; exact hfr
      writes := by
        intro x hx ht
        rcases List.mem_append.mp hx with hx | hx
        · exact hA.writes x hx ht
        · rw [List.mem_singleton.mp hx] at ht
          simp [RequestMsg.isFetch, ht] at hff }
  · exact absurd he hd
  · -- a write-back
    obtain rfl : st = .held := by revert hm; cases st <;> decide
    have hf : c.requestToDir = [] := List.length_eq_zero_iff.mp hf
    have hnil : h.responseToDir = [] := List.length_eq_zero_iff.mp hA.responses
    have hlen : c.responseToDir.length = 1 := by
      rcases hr with hr | hr <;> simpa [L2Cache.Ctx.effect] using congrArg List.length hr
    refine ⟨.back, hm', ?_⟩
    simp only [Home.receive, hf, hnil, List.append_nil, List.nil_append]
    exact { hA with
      responses := hlen
      senders := hsr
      stored := by rintro ⟨⟩
      back := hout }
  · exact absurd he ha
  · rcases he with ⟨-, he⟩ | ⟨-, he⟩
    · exact absurd hm (by simpa using (hi he))
    · exact absurd he ha

theorem countP_erase_one {α : Type} [DecidableEq α] {p : α → Bool} {l : List α} {a : α}
    (ha : a ∈ l) (hp : p a = true) (hl : l.countP p = 1) : ∀ b ∈ l.erase a, p b = false := by
  have h0 : (l.erase a).countP p = 0 := by simp [List.countP_erase, ha, hp, hl]
  exact fun b hb => by simpa using List.countP_eq_zero.mp h0 b hb

/-- The event of a message from the directory. -/
theorem responseEvent_fromDir {l : L2Cache.Line n B} {r : ResponseMsg n B} (hr : r.FromDir) :
    L2Cache.responseEvent l r = some
      (if r.type = .MEMORY_DATA then .Mem_Data else if r.type = .MEMORY_ACK then .Mem_Ack
        else .MEM_Inv) := by
  obtain ⟨hs, ht | ht | ht⟩ := hr <;> simp [L2Cache.responseEvent, hs, ht]

/-- An invalidation leaves its buffer, or stays. -/
theorem At.takeInv (hA : h.At ok st s) {r : ResponseMsg n B} (ht : r.type = .INV) (b : Bool) :
    Home.At ok st s { h with responseToL2Cache := dequeue b h.responseToL2Cache r } := by
  cases b with
  | false => exact hA
  | true =>
  exact { hA with
    fills := by simpa [dequeue, List.countP_erase, ht] using hA.fills
    acks := by simpa [dequeue, List.countP_erase, ht] using hA.acks
    toL2 := fun x hx => hA.toL2 x (List.mem_of_mem_erase hx)
    filled := fun x hx => hA.filled x (List.mem_of_mem_erase hx) }

/-- **A message of the directory reaches the L2**: the data it fetched, the ack of its
write-back, or an invalidation of a line it has. -/
theorem At.fromDir (hA : h.At ok st s) {r : ResponseMsg n B} {e : L2Cache.Event}
    {l : L2Cache.Line n B} {c : L2Cache.Ctx n B} (hmode : l.getState.mode = st.mode)
    (hr : r ∈ h.responseToL2Cache) (he : L2Cache.responseEvent l r = some e)
    (hc : L2Cache.doTransition { response := some r } e l = some c)
    (hi : e = .MEM_Inv → st.mode ≠ .absent ∧ st.mode ≠ .fetching)
    (hout : Written ok h.memory c.responseToDir) :
    ∃ st', c.line.getState.mode = st'.mode ∧
      ({ h with responseToL2Cache := dequeue c.popped h.responseToL2Cache r }.receive
        c.requestToDir c.responseToDir).At ok st' s := by
  have hr' := hA.toL2 r hr
  rw [responseEvent_fromDir hr'] at he
  obtain ⟨hmove, -, -⟩ := L2Cache.doTransition_effect hc
  rw [hmode] at hmove
  by_cases hdata : r.type = .MEMORY_DATA
  · rw [if_pos hdata] at he
    cases he
    obtain ⟨-, hm', hf, hrs, -, hpop⟩ : st.mode = .fetching ∧
        c.line.getState.mode = .holding ∧ c.effect.fetches = 0 ∧ c.effect.responses = [] ∧
          L2Cache.Event.Mem_Data = .Mem_Data ∧ c.effect.popped = true := by
      simpa [L2Cache.Move] using hmove
    have hf : c.requestToDir = [] := List.length_eq_zero_iff.mp hf
    have hrs : c.responseToDir = [] := List.map_eq_nil_iff.mp hrs
    have hpop : c.popped = true := hpop
    obtain rfl : st = .fill := by
      have : 0 < st.fills := hA.fills ▸ List.countP_pos_iff.mpr ⟨r, hr, by simpa using hdata⟩
      revert this
      cases st <;> decide
    have hnone := countP_erase_one hr (by simpa using hdata) hA.fills
    refine ⟨.held, hm', ?_⟩
    simp only [Home.receive, hf, hrs, hpop, dequeue, if_true, List.append_nil]
    exact { hA with
      fills := List.countP_eq_zero.mpr fun x hx => by simpa using hnone x hx
      acks := Eq.trans (by simp [List.countP_erase, hdata]) hA.acks
      toL2 := fun x hx => hA.toL2 x (List.mem_of_mem_erase hx)
      stored := nofun
      filled := fun x hx => hA.filled x (List.mem_of_mem_erase hx) }
  by_cases hack : r.type = .MEMORY_ACK
  · rw [if_neg hdata, if_pos hack] at he
    cases he
    obtain rfl : st = .acked := by
      have : 0 < st.acks := hA.acks ▸ List.countP_pos_iff.mpr ⟨r, hr, by simpa using hack⟩
      revert this
      cases st <;> decide
    obtain ⟨hm', hf, hrs, hpop⟩ : c.line.getState.mode = .absent ∧ c.effect.fetches = 0 ∧
        c.effect.responses = [] ∧ c.effect.popped = true := by
      simpa [L2Cache.Move, Stage.mode] using hmove
    have hf : c.requestToDir = [] := List.length_eq_zero_iff.mp hf
    have hrs : c.responseToDir = [] := List.map_eq_nil_iff.mp hrs
    have hpop : c.popped = true := hpop
    have hnone := countP_erase_one hr (by simpa using hack) hA.acks
    refine ⟨.idle, hm', ?_⟩
    simp only [Home.receive, hf, hrs, hpop, dequeue, if_true, List.append_nil]
    exact { hA with
      fills := Eq.trans (by simp [List.countP_erase, hack]) hA.fills
      acks := List.countP_eq_zero.mpr fun x hx => by simpa using hnone x hx
      toL2 := fun x hx => hA.toL2 x (List.mem_of_mem_erase hx)
      filled := fun x hx => hA.filled x (List.mem_of_mem_erase hx) }
  · rw [if_neg hdata, if_neg hack] at he
    cases he
    have hinv : r.type = .INV := by rcases hr'.2 with h | h | h <;> first | contradiction | exact h
    exact (hA.takeInv hinv c.popped).afterL2 hmode hc nofun nofun hi nofun hout

end Home

end

end SttRuby.Protocol
