import SttRuby.Protocol.Tenure

/-!
# Protocol — DMAWrite

A DMA write to a line the L2 holds.  The directory goes from `M` to `M_DWR`, keeps the request
in its TBE and asks the L2 for the line; the L2's answer takes it to `M_DWRI` with a memory
request, and the memory's acknowledgement back to `I`.  `Home.Writing` follows the write through
every other step of the system in between.  What the directory queues is the TBE's window alone:
the line that the L2 has returned is dropped, so the memory ends up with its old contents
overwritten in the window (`Finishes.memory_eq`).
-/

namespace SttRuby.Protocol

section

variable {n B : ℕ}

/-! ### One memory access at a time -/

namespace Directory

/-- The states in which no memory access is under way. -/
def State.quiet : State → Bool
  | .I | .M | .M_DRD | .M_DWR => true
  | .ID | .ID_W | .IM | .MI | .M_DRDI | .M_DWRI => false

open SttRuby.Protocol.Directory.Action in
/-- What an action does to the queues of the memory: requests queued, a message dequeued. -/
def Action.memory (a : Action) (x : ℕ × Bool) : Option (ℕ × Bool) :=
  match a with
  | .qf_queueMemoryFetchRequest | .qf_queueMemoryFetchRequestDMA | .qw_queueMemoryWBRequest
  | qw_queueMemoryWBRequest_partial | .qw_queueMemoryWBRequest_partialTBE => some (x.1 + 1, x.2)
  | .j_popIncomingRequestQueue | .k_popIncomingResponseQueue | .l_popMemQueue => some (x.1, true)
  | _ => some x

theorem exec_memory {inp : In n B} {a : Action} {c c' : Ctx n B} (h : exec inp a c = some c') :
    a.memory (c.requestToMemory.length, c.popped) =
      some (c'.requestToMemory.length, c'.popped) := by
  cases a <;>
    simp only [exec, Option.bind_eq_some_iff, Option.map_eq_some_iff, Option.some.injEq] at h <;>
    grind [Action.memory, Ctx.respond, Ctx.queueMemory, Ctx.setTBE]

/-- The table queues one request where no access is under way, and waits for its response. -/
theorem doTransition_memory {inp : In n B} {e : Event} {l : Line n B} {c : Ctx n B}
    (h : doTransition inp e l = some c) :
    (c.line.getState.quiet = l.getState.quiet ∧ c.requestToMemory = [] ∧
      e ≠ .Memory_Data ∧ e ≠ .Memory_Ack) ∨
    (l.getState.quiet = true ∧ c.line.getState.quiet = false ∧ c.requestToMemory.length = 1 ∧
      e ≠ .Memory_Data ∧ e ≠ .Memory_Ack) ∨
    (l.getState.quiet = false ∧ c.line.getState.quiet = true ∧ c.requestToMemory = [] ∧
      c.popped = true ∧ (e = .Memory_Data ∨ e = .Memory_Ack)) := by
  obtain ⟨⟨s', actions⟩, ht, hm⟩ := Option.bind_eq_some_iff.mp h
  obtain ⟨c₁, hp, rfl⟩ := Option.map_eq_some_iff.mp hm
  have hx := Lib.perform_map (x := exec inp) (y := Action.memory)
    (f := fun c => (c.requestToMemory.length, c.popped)) (fun _ _ _ => exec_memory) hp
  have hc := Lib.declared_check (P := fun s e s' actions => decide (
    ∀ x ∈ Lib.perform Action.memory actions (0, false),
      (s'.quiet = s.quiet ∧ x.1 = 0 ∧ e ≠ .Memory_Data ∧ e ≠ .Memory_Ack) ∨
      (s.quiet = true ∧ s'.quiet = false ∧ x.1 = 1 ∧ e ≠ .Memory_Data ∧ e ≠ .Memory_Ack) ∨
      (s.quiet = false ∧ s'.quiet = true ∧ x.1 = 0 ∧ x.2 = true ∧
        (e = .Memory_Data ∨ e = .Memory_Ack)))) (by decide +kernel) ht
  rw [Line.getState_setState]
  simpa only [List.length_eq_zero_iff] using of_decide_eq_true hc _ hx

end Directory

namespace Home

/-- The directory's records agree on its state, and it has at most one memory access under way. -/
structure Quiet (h : Home n B) : Prop where
  tbe : ∀ t, h.dir.tbe = some t → t.TBEState = h.dir.DirectoryState
  count : h.requestToMemory.length + h.responseFromMemory.length =
    if h.dir.getState.quiet then 0 else 1

theorem tbe_of_doTransition {inp : Directory.In n B} {e : Directory.Event}
    {l : Directory.Line n B} {c : Directory.Ctx n B} (h : Directory.doTransition inp e l = some c) :
    ∀ t, c.line.tbe = some t → t.TBEState = c.line.DirectoryState := by
  obtain ⟨⟨s', actions⟩, -, hm⟩ := Option.bind_eq_some_iff.mp h
  obtain ⟨c₁, -, rfl⟩ := Option.map_eq_some_iff.mp hm
  intro t ht
  obtain ⟨t', -, rfl⟩ := Option.map_eq_some_iff.mp ht
  rfl

theorem Quiet.seenAt {h : Home n B} (hq : h.Quiet) (k : ℕ) :
    (h.dir.seenAt k).getState = h.dir.getState := by
  unfold Directory.Line.seenAt
  split
  · rfl
  · cases ht : h.dir.tbe with
    | none => simp [Directory.Line.getState, ht]
    | some t => simp [Directory.Line.getState, ht, hq.tbe t ht]

/-- The accesses under way, after a transition that the memory did not trigger. -/
theorem Quiet.afterDir {h : Home n B} (hq : h.Quiet) {inp : Directory.In n B}
    {e : Directory.Event} {c : Directory.Ctx n B} (hc : Directory.doTransition inp e h.dir = some c)
    (he : e ≠ .Memory_Data ∧ e ≠ .Memory_Ack) :
    (h.requestToMemory ++ c.requestToMemory).length + h.responseFromMemory.length =
      if c.line.getState.quiet then 0 else 1 := by
  have hcount := hq.count
  rw [List.length_append]
  rcases Directory.doTransition_memory hc with ⟨hs, hr, -⟩ | ⟨h₁, h₂, h₃, -⟩ | ⟨-, -, -, -, h⟩
  · rw [hs, hr, List.length_nil]
    omega
  · rw [h₁] at hcount
    rw [h₂, h₃]
    simp only [if_true, Bool.false_eq_true, if_false] at hcount ⊢
    omega
  · rcases h with h | h
    · exact absurd h he.1
    · exact absurd h he.2

theorem Quiet.step {h h' : Home n B} (hq : h.Quiet) {l : HomeLabel n B} (hl : h.step l = some h') :
    h'.Quiet := by
  cases l with
  | request m =>
      simp only [Home.step, Option.ite_none_right_eq_some, Option.bind_eq_some_iff,
        Option.map_eq_some_iff] at hl
      obtain ⟨-, e, he, c, hc, rfl⟩ := hl
      refine ⟨tbe_of_doTransition hc, hq.afterDir hc ?_⟩
      unfold Directory.requestEvent at he
      constructor <;> rintro rfl <;> grind
  | response r =>
      simp only [Home.step, Option.ite_none_right_eq_some, Option.bind_eq_some_iff,
        Option.map_eq_some_iff] at hl
      obtain ⟨-, e, he, c, hc, rfl⟩ := hl
      refine ⟨tbe_of_doTransition hc, hq.afterDir hc ?_⟩
      unfold Directory.responseEvent at he
      constructor <;> rintro rfl <;> grind
  | memoryResponse m =>
      simp only [Home.step, Option.ite_none_right_eq_some, Option.map_eq_some_iff] at hl
      obtain ⟨hm, c, hc, rfl⟩ := hl
      refine ⟨tbe_of_doTransition hc, ?_⟩
      have hcount := hq.count
      have hpos := List.length_pos_of_mem hm
      have herase := List.length_erase_of_mem hm
      have he : Directory.memoryEvent m = .Memory_Data ∨ Directory.memoryEvent m = .Memory_Ack := by
        unfold Directory.memoryEvent
        cases m.type <;> simp
      rcases Directory.doTransition_memory hc with h | h | ⟨hs, hs', hr, hpop, -⟩
      · exact absurd he (by simp [h.2.2.1, h.2.2.2])
      · exact absurd he (by simp [h.2.2.2.1, h.2.2.2.2])
      · rw [hq.seenAt] at hs
        simp only [Home.afterDir, hr, hpop, hs, hs', dequeue, if_true, List.append_nil, herase,
          Bool.false_eq_true, if_false] at hcount ⊢
        omega
  | memory m =>
      simp only [Home.step, Option.ite_none_right_eq_some, Option.map_eq_some_iff] at hl
      obtain ⟨hm, ⟨memory, r⟩, hsv, rfl⟩ := hl
      refine ⟨hq.tbe, ?_⟩
      have hcount := hq.count
      have hpos := List.length_pos_of_mem hm
      rw [List.length_erase_of_mem hm, List.length_append, List.length_singleton]
      simp only at hcount ⊢
      omega
  | dma m =>
      simp only [Home.step, Option.ite_none_right_eq_some, Option.some.injEq] at hl
      obtain ⟨-, rfl⟩ := hl
      exact ⟨hq.tbe, hq.count⟩

/-! ### The write -/

/-- The bytes a DMA write covers. -/
def window (m : RequestMsg n B) : ℕ := if 0 < m.Len then m.Len else B

/-- How far the write `m` to a line whose memory held `old` has come. -/
inductive Writing (m : RequestMsg n B) (old : DataBlock B) (h : Home n B) : Prop where
  | waiting {o : Option (MachineID n)}
      (hd : h.dir = ⟨.M_DWR, o, some ⟨m.offset, .M_DWR, m.DataBlk, m.Len, m.Requestor⟩⟩)
      (hq : h.requestToMemory = []) (hr : h.responseFromMemory = []) (hm : h.memory = old)
  | queued {o : Option (MachineID n)} {x : MachineID n}
      (hd : h.dir = ⟨.M_DWRI, o, some ⟨m.offset, .M_DWRI, m.DataBlk, m.Len, m.Requestor⟩⟩)
      (hq : h.requestToMemory = [⟨.MEMORY_WB, x, m.DataBlk, m.offset, m.Len⟩])
      (hr : h.responseFromMemory = []) (hm : h.memory = old)
  | written {o : Option (MachineID n)} {x : MachineID n}
      (hd : h.dir = ⟨.M_DWRI, o, some ⟨m.offset, .M_DWRI, m.DataBlk, m.Len, m.Requestor⟩⟩)
      (hq : h.requestToMemory = []) (hr : h.responseFromMemory = [⟨.MEMORY_WB, x, fun _ => 0,
        m.offset, 0⟩])
      (hm : h.memory = Directory.overwrite old m.DataBlk m.offset (window m))
  | done (hd : h.dir.getState = .I) (ho : m.offset = 0)
      (hm : h.memory = Directory.overwrite old m.DataBlk m.offset (window m))

/-- The L2's answer: the directory queues the TBE's window and forgets the answer. -/
theorem answer_eq {r : ResponseMsg n B} (o : Option (MachineID n)) (k len : ℕ) (d : DataBlock B)
    (q : MachineID n) :
    Directory.doTransition { response := some r } .Data ⟨.M_DWR, o, some ⟨k, .M_DWR, d, len, q⟩⟩ =
      some ⟨⟨.M_DWRI, o, some ⟨k, .M_DWRI, d, len, q⟩⟩, [],
        [⟨.MEMORY_WB, r.Sender, d, k, len⟩], true⟩ := rfl

/-- The memory's acknowledgement, where it finds the TBE. -/
theorem ack_eq {x : MemoryMsg n B} (o : Option (MachineID n)) (d : DataBlock B) (len : ℕ)
    (q : MachineID n) :
    Directory.doTransition { memory := some x } .Memory_Ack
        ⟨.M_DWRI, o, some ⟨0, .M_DWRI, d, len, q⟩⟩ =
      some ⟨⟨.I, o, none⟩, [(x.Sender, { type := .MEMORY_ACK, Sender := .Directory }),
        (q, { type := .ACK, Sender := .Directory })], [], true⟩ := rfl

theorem Writing.request {m x : RequestMsg n B} {old : DataBlock B} {h h' : Home n B}
    (hw : h.Writing m old) (hs : h.dir.getState ≠ .I) (hl : h.step (.request x) = some h') :
    h'.Writing m old := by
  simp only [Home.step, Option.ite_none_right_eq_some, Option.bind_eq_some_iff,
    Option.map_eq_some_iff] at hl
  obtain ⟨-, e, he, c, hc, rfl⟩ := hl
  have hev : e = .Fetch ∨ e = .DMA_READ ∨ e = .DMA_WRITE := by
    unfold Directory.requestEvent at he
    grind
  -- everything but the answer to the write is refused or goes round again
  cases hw with
  | waiting hd hq hr hm =>
      rw [hd] at hc
      rcases hev with rfl | rfl | rfl <;> cases hc
      · exact .waiting rfl (by simpa [afterDir] using hq) hr hm
      · exact .waiting rfl (by simpa [afterDir] using hq) hr hm
  | queued hd hq hr hm =>
      rw [hd] at hc
      rcases hev with rfl | rfl | rfl <;> cases hc <;>
        exact .queued rfl (by simpa [afterDir] using hq) hr hm
  | written hd hq hr hm =>
      rw [hd] at hc
      rcases hev with rfl | rfl | rfl <;> cases hc <;>
        exact .written rfl (by simpa [afterDir] using hq) hr hm
  | done hd => exact absurd hd hs

theorem Writing.response {m : RequestMsg n B} {r : ResponseMsg n B} {old : DataBlock B}
    {h h' : Home n B} (hw : h.Writing m old) (hs : h.dir.getState ≠ .I)
    (hl : h.step (.response r) = some h') : h'.Writing m old := by
  simp only [Home.step, Option.ite_none_right_eq_some, Option.bind_eq_some_iff,
    Option.map_eq_some_iff] at hl
  obtain ⟨-, e, he, c, hc, rfl⟩ := hl
  have hev : e = .Data ∨ e = .CleanReplacement := by
    unfold Directory.responseEvent at he
    grind
  cases hw with
  | waiting hd hq hr hm =>
      rw [hd] at hc
      rcases hev with rfl | rfl
      · rw [answer_eq] at hc
        cases hc
        exact .queued (x := r.Sender) rfl (by simp [afterDir, hq]) hr hm
      · cases hc
  | queued hd hq hr hm =>
      rw [hd] at hc
      rcases hev with rfl | rfl <;> cases hc
      exact .queued rfl (by simpa [afterDir] using hq) hr hm
  | written hd hq hr hm =>
      rw [hd] at hc
      rcases hev with rfl | rfl <;> cases hc
      exact .written rfl (by simpa [afterDir] using hq) hr hm
  | done hd => exact absurd hd hs

theorem Writing.memoryResponse {m : RequestMsg n B} {x : MemoryMsg n B} {old : DataBlock B}
    {h h' : Home n B} (hw : h.Writing m old) (hs : h.dir.getState ≠ .I)
    (hl : h.step (.memoryResponse x) = some h') : h'.Writing m old := by
  simp only [Home.step, Option.ite_none_right_eq_some, Option.map_eq_some_iff] at hl
  obtain ⟨hx, c, hc, rfl⟩ := hl
  cases hw with
  | waiting _ _ hr | queued _ _ hr => rw [hr] at hx; cases hx
  | written hd hq hr hm =>
      rw [hr] at hx
      obtain rfl := List.mem_singleton.mp hx
      rw [hd] at hc
      have hoff := seenAt_busy (.inr ⟨.inr rfl, rfl⟩) hc
      rw [Directory.Line.seenAt, if_pos hoff] at hc
      cases hc
      exact .done rfl hoff hm
  | done hd => exact absurd hd hs

theorem Writing.memory {m : RequestMsg n B} {x : MemoryMsg n B} {old : DataBlock B}
    {h h' : Home n B} (hw : h.Writing m old) (hs : h.dir.getState ≠ .I)
    (hl : h.step (.memory x) = some h') : h'.Writing m old := by
  simp only [Home.step, Option.ite_none_right_eq_some, Option.map_eq_some_iff] at hl
  obtain ⟨hx, ⟨memory, r⟩, hsv, rfl⟩ := hl
  cases hw with
  | waiting _ hq | written _ hq => rw [hq] at hx; cases hx
  | @queued o x hd hq hr hm =>
      rw [hq] at hx
      obtain rfl := List.mem_singleton.mp hx
      simp only [Directory.serviceMemoryQueue, Option.ite_none_right_eq_some] at hsv
      obtain ⟨-, hsv⟩ := hsv
      cases hsv
      exact .written (x := x) hd (by simp [hq]) (by simp [hr]) (by rw [hm]; rfl)
  | done hd => exact absurd hd hs

end Home

/-- **The write over a step**, whatever else the step is. -/
theorem Home.Writing.step {m : RequestMsg n B} {old : DataBlock B} {g g' : Sys n B} {l : Label n B}
    (hw : g.home.Writing m old) (hs : g.home.dir.getState ≠ .I) (h : Protocol.step g l = some g') :
    g'.home.Writing m old := by
  cases l with
  | l1 i l =>
      obtain ⟨inp, e, c, -, -, rfl⟩ := Sys.l1Step_some h
      simpa [Sys.afterL1, Sys.setNode] using hw
  | l2 l =>
      obtain ⟨inp, e, c, -, -, rfl⟩ := Sys.l2Step_some h
      cases hw with
      | waiting hd hq hr hm => cases l <;> exact .waiting hd hq hr hm
      | queued hd hq hr hm => cases l <;> exact .queued hd hq hr hm
      | written hd hq hr hm => cases l <;> exact .written hd hq hr hm
      | done hd => exact absurd hd hs
  | home l =>
      obtain ⟨h', hl, rfl⟩ := Option.map_eq_some_iff.mp h
      cases l with
      | request x => exact hw.request hs hl
      | response r => exact hw.response hs hl
      | memoryResponse x => exact hw.memoryResponse hs hl
      | memory x => exact hw.memory hs hl
      | dma x =>
          simp only [Home.step, Option.ite_none_right_eq_some, Option.some.injEq] at hl
          obtain ⟨-, rfl⟩ := hl
          cases hw with
          | waiting hd hq hr hm => exact .waiting hd hq hr hm
          | queued hd hq hr hm => exact .queued hd hq hr hm
          | written hd hq hr hm => exact .written hd hq hr hm
          | done hd => exact absurd hd hs

theorem Home.Writing.run {m : RequestMsg n B} {old : DataBlock B} {g g' : Sys n B}
    {l : List (Label n B)} (hw : g.home.Writing m old)
    (hr : (protocol n B).Run (fun g _ => g.home.dir.getState ≠ .I) g l g') :
    g'.home.Writing m old := by
  induction hr with
  | refl => exact hw
  | snoc _ hs h ih => exact ih.step hs h

/-- Reached states have at most one memory access under way. -/
theorem quiet_of_reach {g : Sys n B} (h : (protocol n B).Reach (fun _ _ => True) g) :
    g.home.Quiet := by
  refine h.invariant (I := fun g => g.home.Quiet) ?_ ?_
  · rintro g ⟨memory, rfl⟩
    exact ⟨nofun, rfl⟩
  · rintro g l g' hq - h
    cases l with
    | l1 i l =>
        obtain ⟨inp, e, c, -, -, rfl⟩ := Sys.l1Step_some h
        simpa [Sys.afterL1, Sys.setNode] using hq
    | l2 l =>
        obtain ⟨inp, e, c, -, -, rfl⟩ := Sys.l2Step_some h
        cases l <;> exact ⟨hq.tbe, hq.count⟩
    | home l =>
        obtain ⟨h', hl, rfl⟩ := Option.map_eq_some_iff.mp h
        exact hq.step hl

/-! ### The result of a write -/

/-- The directory takes the DMA write `m` in `M` and waits, over whatever steps that meet `G`, for
the L2's answer until `g'`. -/
structure AwaitsLine (G : Sys n B → Label n B → Prop) (g : Sys n B) (m : RequestMsg n B)
    (g' : Sys n B) : Prop where
  held : g.home.dir.getState = .M
  write : m.type = .DMA_WRITE
  waits : ∃ g₁ l, step g (.home (.request m)) = some g₁ ∧
    (protocol n B).Run (fun g l => g.home.dir.getState = .M_DWR ∧ G g l) g₁ l g'
  waiting : g'.home.dir.getState = .M_DWR

/-- The directory takes the answer `r` in `g` and, after whatever steps, is back in `I`. -/
def Finishes (g : Sys n B) (r : ResponseMsg n B) (g' : Sys n B) : Prop :=
  ∃ g₁ l, step g (.home (.response r)) = some g₁ ∧
    (protocol n B).Run (fun g _ => g.home.dir.getState ≠ .I) g₁ l g' ∧
    g'.home.dir.getState = .I

/-- The directory has the write in its TBE and nothing else under way. -/
theorem Home.Quiet.takeWrite {h h' : Home n B} {m : RequestMsg n B} (hq : h.Quiet)
    (hs : h.dir.getState = .M) (hw : m.type = .DMA_WRITE) (hl : h.step (.request m) = some h') :
    h'.Writing m h.memory := by
  obtain ⟨hreq, hresp⟩ : h.requestToMemory = [] ∧ h.responseFromMemory = [] := by
    have hcount := hq.count
    rw [hs] at hcount
    simpa [Directory.State.quiet] using hcount
  simp only [Home.step, Option.ite_none_right_eq_some, Option.bind_eq_some_iff,
    Option.map_eq_some_iff] at hl
  obtain ⟨-, e, he, c, hc, rfl⟩ := hl
  rw [Directory.requestEvent, hw] at he
  cases he
  have htbe := hq.tbe
  rcases hd : h.dir with ⟨s, o, _ | ⟨k, s', d, len, q⟩⟩
  · rw [hd] at hs hc
    obtain rfl : s = .M := hs
    cases o with
    | none => cases hc
    | some o =>
        cases hc
        exact .waiting rfl ((List.append_nil _).trans hreq) hresp rfl
  · -- a TBE left over would make the allocation fail
    rw [hd] at hs hc htbe
    obtain rfl : s' = .M := hs
    obtain rfl : .M = s := htbe _ rfl
    cases hc

theorem AwaitsLine.writing {G : Sys n B → Label n B → Prop} {g g' : Sys n B} {m : RequestMsg n B}
    (hq : g.home.Quiet) (h : AwaitsLine G g m g') : g'.home.Writing m g.home.memory := by
  obtain ⟨g₁, l, hs, hr⟩ := h.waits
  obtain ⟨h₁, hl, rfl⟩ := Option.map_eq_some_iff.mp hs
  refine Home.Writing.run (hq.takeWrite h.held h.write hl) (hr.mono fun g l hG => ?_)
  rw [hG.1]
  decide

/-- A write that is over began with the line and has put its window over what the memory held
before. -/
theorem Finishes.memory_eq {g g' : Sys n B} {m : RequestMsg n B} {r : ResponseMsg n B}
    {old : DataBlock B} (hw : g.home.Writing m old) (hs : g.home.dir.getState = .M_DWR)
    (h : Finishes g r g') : m.offset = 0 ∧
      g'.home.memory = Directory.overwrite old m.DataBlk m.offset (Home.window m) := by
  obtain ⟨g₁, l, hstep, hrun, hend⟩ := h
  have hw' := (hw.step (by rw [hs]; decide) hstep).run hrun
  cases hw' with
  | waiting hd | queued hd | written hd =>
      rw [hd] at hend
      cases hend
  | done _ ho hm => exact ⟨ho, hm⟩

theorem step_home {g : Sys n B} {h h' : Home n B} {l : HomeLabel n B} (hl : h.step l = some h') :
    (protocol n B).step { g with home := h } (.home l) = some { g with home := h' } := by
  simp [protocol, step, hl]

/-- A write at the start of the line that waits for the answer `r` can be completed. -/
theorem Home.Writing.finishes {g : Sys n B} {m : RequestMsg n B} {r : ResponseMsg n B}
    {old : DataBlock B} (hw : g.home.Writing m old) (hs : g.home.dir.getState = .M_DWR)
    (hr : r ∈ g.home.responseToDir) (ht : r.type = .MEMORY_DATA) (ho : m.offset = 0)
    (hB : Home.window m ≤ B) : ∃ g', Finishes g r g' := by
  cases hw with
  | queued hd | written hd => rw [hd] at hs; cases hs
  | done hd => rw [hd] at hs; cases hs
  | @waiting o hd hq hp hm =>
      have he : Directory.responseEvent r = some .Data := by rw [Directory.responseEvent, ht]
      obtain ⟨h₁, hl₁, hd₁, hq₁, hp₁⟩ : ∃ h₁, g.home.step (.response r) = some h₁ ∧
          h₁.dir = ⟨.M_DWRI, o, some ⟨m.offset, .M_DWRI, m.DataBlk, m.Len, m.Requestor⟩⟩ ∧
          h₁.requestToMemory = [⟨.MEMORY_WB, r.Sender, m.DataBlk, m.offset, m.Len⟩] ∧
          h₁.responseFromMemory = [] := by
        simp [Home.step, hr, he, hd, answer_eq, afterDir, hq, hp]
      obtain ⟨h₂, hl₂, hd₂, hp₂⟩ : ∃ h₂,
          h₁.step (.memory ⟨.MEMORY_WB, r.Sender, m.DataBlk, m.offset, m.Len⟩) = some h₂ ∧
          h₂.dir = h₁.dir ∧
          h₂.responseFromMemory = [⟨.MEMORY_WB, r.Sender, fun _ => 0, m.offset, 0⟩] := by
        have hfit : m.offset + Home.window m ≤ B := by omega
        simp [Home.step, hq₁, hp₁, Directory.serviceMemoryQueue, Directory.requestSize,
          ← Home.window.eq_def, hfit]
      obtain ⟨h₃, hl₃, hd₃⟩ : ∃ h₃,
          h₂.step (.memoryResponse ⟨.MEMORY_WB, r.Sender, fun _ => 0, m.offset, 0⟩) = some h₃ ∧
          h₃.dir.getState = .I := by
        simp [Home.step, hp₂, hd₂, hd₁, ho, Directory.memoryEvent, Directory.Line.seenAt, ack_eq,
          afterDir, Directory.Line.getState]
      have hi {h' : Home n B} (hd' : h'.dir = h₁.dir) : h'.dir.getState ≠ .I := by
        rw [hd', hd₁]
        rintro ⟨⟩
      have hrun₂ : (protocol n B).Run (fun g _ => g.home.dir.getState ≠ .I)
          { g with home := h₁ } _ { g with home := h₂ } :=
        Lib.Machine.Run.refl.snoc (hi rfl) (step_home (g := g) hl₂)
      have hrun := hrun₂.snoc (hi hd₂) (step_home (g := g) hl₃)
      exact ⟨_, _, _, step_home hl₁, hrun, hd₃⟩

/-- Overwriting the window hides what two blocks differ in there, and nothing else. -/
theorem overwrite_eq_iff {d d' new : DataBlock B} {offset len : ℕ} :
    Directory.overwrite d new offset len = Directory.overwrite d' new offset len ↔
      ∀ k : Fin B, ¬ (offset ≤ k.val ∧ k.val < offset + len) → d k = d' k := by
  constructor
  · intro h k hk
    have hk' := congrFun h k
    rwa [Directory.overwrite, Directory.overwrite, if_neg hk, if_neg hk] at hk'
  · intro h
    funext k
    unfold Directory.overwrite
    split
    · rfl
    · next hk => exact h k hk

end

end SttRuby.Protocol
