import SttRuby.Protocol.Home

/-!
# Protocol — Tenure

The L2 and the directory over whole runs.  The stages of `Home.At` carry through every step of
the system, as long as no invalidation reaches the L2 in a state in which it answers for a line
it does not have (`meetsLine`).  Two consequences: the directory never forgets that the L2 has
the line, and, when moreover upgrades and clean write-backs do not cross certain other messages,
everything that reaches the directory is accepted there.
-/

namespace SttRuby.Protocol

section

variable {n B : ℕ} {g g' : Sys n B}

/-! ### What a step is -/

theorem Sys.l1Step_some {i : Fin n} {l : L1Label n B} (h : g.l1Step i l = some g') :
    ∃ inp e c, g.l1Event i l = some (inp, e) ∧
      L1Cache.doTransition i inp e (g.node i).line = some c ∧
      g' = (g.l1Dequeue i c.popped l).afterL1 i c := by
  obtain ⟨⟨inp, e⟩, he, h⟩ := Option.bind_eq_some_iff.mp h
  obtain ⟨c, hc, rfl⟩ := Option.map_eq_some_iff.mp h
  exact ⟨inp, e, c, he, hc, rfl⟩

theorem Sys.l2Step_some {l : L2Label n B} (h : g.l2Step l = some g') :
    ∃ inp e c, g.l2Event l = some (inp, e) ∧ L2Cache.doTransition inp e g.l2 = some c ∧
      g' = (g.l2Dequeue c.popped l).afterL2 c := by
  obtain ⟨⟨inp, e⟩, he, h⟩ := Option.bind_eq_some_iff.mp h
  obtain ⟨c, hc, rfl⟩ := Option.map_eq_some_iff.mp h
  exact ⟨inp, e, c, he, hc, rfl⟩

@[simp] theorem Sys.l1Dequeue_home (i : Fin n) (b : Bool) (l : L1Label n B) :
    (g.l1Dequeue i b l).home = g.home := by cases l <;> rfl

@[simp] theorem Sys.l1Dequeue_l2 (i : Fin n) (b : Bool) (l : L1Label n B) :
    (g.l1Dequeue i b l).l2 = g.l2 := by cases l <;> rfl

@[simp] theorem Sys.l1Dequeue_latest (i : Fin n) (b : Bool) (l : L1Label n B) :
    (g.l1Dequeue i b l).latest = g.latest := by cases l <;> rfl

theorem Sys.l1Dequeue_responseToL2Cache (i j : Fin n) (b : Bool) (l : L1Label n B) :
    ((g.l1Dequeue i b l).node j).responseToL2Cache = (g.node j).responseToL2Cache := by
  cases l <;> simp only [l1Dequeue, setNode, Function.update_apply] <;> split <;> simp_all

theorem Sys.mem_l2Dequeue_responseToL2Cache {j : Fin n} {b : Bool} {l : L2Label n B}
    {r : ResponseMsg n B} (hr : r ∈ ((g.l2Dequeue b l).node j).responseToL2Cache) :
    r ∈ (g.node j).responseToL2Cache := by
  cases l <;> simp only [l2Dequeue, setNode, Function.update_apply] at hr <;>
    grind [mem_of_mem_dequeue]

/-! ### Responses of the L1s bear their names -/

theorem L1Cache.exec_signed {i : Fin n} {inp : L1Cache.In n B} {a : L1Cache.Action}
    {c c' : L1Cache.Ctx n B} (hc : ∀ r ∈ c.responseFromL1Cache, r.2.Sender = .L1Cache i)
    (h : L1Cache.exec i inp a c = some c') :
    ∀ r ∈ c'.responseFromL1Cache, r.2.Sender = .L1Cache i := by
  cases a <;>
    simp only [L1Cache.exec, Option.bind_eq_some_iff, Option.map_eq_some_iff,
      Option.some.injEq] at h <;>
    grind [L1Cache.Ctx.request, L1Cache.Ctx.respond, L1Cache.Ctx.unblock, L1Cache.Ctx.setEntry,
      L1Cache.Ctx.setTBE, L1Cache.Ctx.setLock]

theorem L1Cache.doTransition_signed {i : Fin n} {inp : L1Cache.In n B} {e : L1Cache.Event}
    {l : L1Cache.Line B} {c : L1Cache.Ctx n B} (h : L1Cache.doTransition i inp e l = some c) :
    ∀ r ∈ c.responseFromL1Cache, r.2.Sender = .L1Cache i := by
  obtain ⟨⟨s', actions⟩, -, hm⟩ := Option.bind_eq_some_iff.mp h
  obtain ⟨c₁, hp, rfl⟩ := Option.map_eq_some_iff.mp hm
  exact Lib.perform_induct (P := fun c => ∀ r ∈ c.responseFromL1Cache, r.2.Sender = .L1Cache i)
    (fun _ _ _ => exec_signed) (by simp) hp

/-- A response between an L1 and the L2 names the L1 as its sender. -/
def Sys.Signed (g : Sys n B) : Prop :=
  ∀ i, ∀ r ∈ (g.node i).responseToL2Cache, r.Sender = .L1Cache i

theorem Sys.Signed.step (hg : g.Signed) {l : Label n B} (h : step g l = some g') : g'.Signed := by
  cases l with
  | l1 i l =>
      obtain ⟨inp, e, c, -, hc, rfl⟩ := Sys.l1Step_some h
      intro j r hr
      by_cases hj : j = i
      · subst hj
        simp only [afterL1, setNode, Function.update_self, Node.afterL1, List.mem_append,
          l1Dequeue_responseToL2Cache] at hr
        rcases hr with hr | hr
        · exact hg j r hr
        · obtain ⟨x, hx, hxr⟩ := List.mem_filterMap.mp hr
          have := L1Cache.doTransition_signed hc x hx
          split at hxr <;> simp_all
      · simp only [afterL1, setNode, Function.update_of_ne hj, l1Dequeue_responseToL2Cache] at hr
        exact hg j r hr
  | l2 l =>
      obtain ⟨inp, e, c, -, -, rfl⟩ := Sys.l2Step_some h
      exact fun j r hr => hg j r (mem_l2Dequeue_responseToL2Cache hr)
  | home l =>
      obtain ⟨h', -, rfl⟩ := Option.map_eq_some_iff.mp h
      exact hg

/-! ### The events of the L2 -/

/-- The requests that miss. -/
theorem L2Cache.requestEvent_get {l : L2Cache.Line n B} {m : RequestMsg n B} {e : L2Cache.Event}
    (h : L2Cache.requestEvent l m = some e)
    (he : e = .L1_GETS ∨ e = .L1_GET_INSTR ∨ e = .L1_GETX) :
    m.type = .GETS ∨ m.type = .GET_INSTR ∨ m.type = .GETX ∨ m.type = .UPGRADE := by
  obtain ⟨i, -, h⟩ := Option.bind_eq_some_iff.mp h
  cases ht : m.type <;> rcases he with rfl | rfl | rfl <;>
    grind [L2Cache.L1Cache_request_type_to_event, L2Cache.replacementEvent]

theorem L2Cache.requestEvent_fromDir {l : L2Cache.Line n B} {m : RequestMsg n B}
    {e : L2Cache.Event} (h : L2Cache.requestEvent l m = some e) : e.fromDir = false := by
  obtain ⟨i, -, h⟩ := Option.bind_eq_some_iff.mp h
  cases ht : m.type <;>
    grind [L2Cache.L1Cache_request_type_to_event, L2Cache.replacementEvent,
      L2Cache.Event.fromDir]

theorem l2Event_request {l : L2Label n B} {inp : L2Cache.In n B} {e : L2Cache.Event}
    (h : g.l2Event l = some (inp, e)) {m : RequestMsg n B} (hm : inp.request = some m) :
    (∃ i, l = .request i m) ∧ L2Cache.requestEvent g.l2 m = some e := by
  cases l with
  | request i m' =>
      simp only [Sys.l2Event, Option.ite_none_right_eq_some, Option.map_eq_some_iff] at h
      obtain ⟨-, e, he, heq⟩ := h
      cases heq
      cases hm
      exact ⟨⟨i, rfl⟩, he⟩
  | response | unblock | responseFromDir | replacement =>
      simp only [Sys.l2Event, Option.ite_none_right_eq_some, Option.ite_none_left_eq_some,
        Option.map_eq_some_iff] at h
      obtain ⟨-, e, he, heq⟩ := h
      cases heq
      cases hm

/-- A message that is not the directory's does not trigger the directory's events. -/
theorem l2Event_fromDir (hg : g.Signed) {l : L2Label n B} (hl : ∀ m, l ≠ .responseFromDir m)
    {inp : L2Cache.In n B} {e : L2Cache.Event} (h : g.l2Event l = some (inp, e)) :
    e.fromDir = false := by
  cases l with
  | request i m =>
      simp only [Sys.l2Event, Option.ite_none_right_eq_some, Option.map_eq_some_iff] at h
      obtain ⟨-, e, he, heq⟩ := h
      cases heq
      exact L2Cache.requestEvent_fromDir he
  | response i m =>
      simp only [Sys.l2Event, Option.ite_none_right_eq_some, Option.map_eq_some_iff] at h
      obtain ⟨hm, e, he, heq⟩ := h
      cases heq
      rw [L2Cache.responseEvent, hg i m hm] at he
      grind [L2Cache.Event.fromDir]
  | unblock i m =>
      simp only [Sys.l2Event, Option.ite_none_right_eq_some, Option.map_eq_some_iff] at h
      obtain ⟨-, e, he, heq⟩ := h
      cases heq
      unfold L2Cache.unblockEvent at he
      split at he <;> cases he <;> rfl
  | responseFromDir m => exact absurd rfl (hl m)
  | replacement =>
      simp only [Sys.l2Event, Option.ite_none_left_eq_some, Option.map_eq_some_iff] at h
      obtain ⟨-, e, -, heq⟩ := h
      cases heq
      unfold L2Cache.replacementEvent
      split <;> rfl

/-! ### The stages over runs -/

/-- The L2 and the directory are at one stage. -/
def Sys.Homed (ok : DataBlock B → Prop) (g : Sys n B) : Prop :=
  ∃ st s, g.home.At ok st s ∧ g.l2.getState.mode = st.mode

/-- The step is not an invalidation that finds the L2 without the line. -/
def meetsLine (g : Sys n B) : Label n B → Bool
  | .l2 (.responseFromDir m) => m.type ≠ .INV || g.l2.getState ∉ [.NP, .IM, .IS, .ISS]
  | _ => true

/-- No DMA controller writes. -/
def noDMAWrite : Label n B → Bool
  | .home (.dma m) => m.type ≠ .DMA_WRITE
  | _ => true

theorem Sys.Homed.start (memory : DataBlock B) (ok : DataBlock B → Prop) (h : ok memory) :
    (start memory : Sys n B).Homed ok := by
  refine ⟨.idle, .I, ?_, rfl⟩
  exact {
    state := by decide
    dir := .free rfl nofun
    fetches := rfl
    requests := fun _ h => absurd h List.not_mem_nil
    responses := rfl
    senders := fun _ h => absurd h List.not_mem_nil
    fills := rfl
    acks := rfl
    toL2 := fun _ h => absurd h List.not_mem_nil
    pending := .none (by decide) rfl rfl
    stored := fun _ => h
    filled := fun _ h => absurd h List.not_mem_nil
    back := fun _ h => absurd h List.not_mem_nil
    writing := nofun
    writes := fun _ h => absurd h List.not_mem_nil }

theorem mode_of_holding {s : L2Cache.State} (h : s ∉ [.NP, .IM, .IS, .ISS]) :
    s.mode ≠ .absent ∧ s.mode ≠ .fetching := by
  revert h
  cases s <;> decide

/-- A step of the L2 keeps the stages, if what it writes back is `ok`. -/
theorem Sys.Homed.l2Step {ok : DataBlock B → Prop} (hH : g.Homed ok) (hS : g.Signed)
    {l : L2Label n B} {inp : L2Cache.In n B} {e : L2Cache.Event} {c : L2Cache.Ctx n B}
    (he : g.l2Event l = some (inp, e)) (hc : L2Cache.doTransition inp e g.l2 = some c)
    (hB : meetsLine g (.l2 l) = true) (hout : Home.Written ok g.home.memory c.responseToDir) :
    ((g.l2Dequeue c.popped l).afterL2 c).Homed ok := by
  obtain ⟨st, s, hA, hmode⟩ := hH
  by_cases hl : ∃ m, l = .responseFromDir m
  · obtain ⟨m, rfl⟩ := hl
    simp only [Sys.l2Event, Option.ite_none_right_eq_some, Option.map_eq_some_iff] at he
    obtain ⟨hm, e, he, heq⟩ := he
    cases heq
    have hi : e = .MEM_Inv → st.mode ≠ .absent ∧ st.mode ≠ .fetching := by
      intro h
      have hty : m.type = .INV := by
        rw [Home.responseEvent_fromDir (hA.toL2 m hm)] at he
        have := (hA.toL2 m hm).2
        grind
      rw [← hmode]
      refine mode_of_holding ?_
      simpa [meetsLine, hty] using hB
    obtain ⟨st', hm', hA'⟩ := hA.fromDir hmode hm he hc hi hout
    exact ⟨st', s, hA', hm'⟩
  · simp only [not_exists] at hl
    have hdir := l2Event_fromDir hS hl he
    have hhome : (g.l2Dequeue c.popped l).home = g.home := by
      cases l <;> first | rfl | exact absurd rfl (hl _)
    have hreq : ∀ m, inp.request = some m → e = .L1_GETS ∨ e = .L1_GET_INSTR ∨ e = .L1_GETX →
        m.isFetch = true := by
      intro m hm hget
      obtain ⟨-, hreq⟩ := l2Event_request he hm
      rcases L2Cache.requestEvent_get hreq hget with ht | ht | ht | ht <;>
        simp [RequestMsg.isFetch, ht]
    obtain ⟨st', hm', hA'⟩ := hA.afterL2 hmode hc (by rintro rfl; cases hdir)
      (by rintro rfl; cases hdir) (by rintro rfl; cases hdir) hreq hout
    refine ⟨st', s, ?_, hm'⟩
    rw [Sys.afterL2, hhome]
    exact hA'

/-- A step of the directory, the memory or a DMA controller keeps the stages. -/
theorem Sys.Homed.homeStep {ok : DataBlock B → Prop} (hH : g.Homed ok) {l : HomeLabel n B}
    {h' : Home n B} (hl : g.home.step l = some h')
    (hw : noDMAWrite (.home l : Label n B) = true ∨ ∀ d, ok d) :
    ({ g with home := h' } : Sys n B).Homed ok := by
  obtain ⟨st, s, hA, hmode⟩ := hH
  obtain ⟨st', s', hm', hA'⟩ := hA.step hl (by
    rintro m rfl ht
    rcases hw with hw | hw
    · simp [noDMAWrite, ht] at hw
    · exact hw)
  exact ⟨st', s', hA', hmode.trans hm'.symm⟩

/-- The stages and the names on the responses, where nothing is said about values. -/
theorem homed_of_reach (h : (protocol n B).Reach (fun g l => meetsLine g l = true) g) :
    g.Homed (fun _ => True) ∧ g.Signed := by
  refine h.invariant (I := fun g => g.Homed (fun _ => True) ∧ g.Signed) ?_ ?_
  · rintro g ⟨memory, rfl⟩
    exact ⟨.start memory _ trivial, fun _ _ h => absurd h List.not_mem_nil⟩
  · rintro g l g' ⟨hH, hS⟩ hB h
    refine ⟨?_, hS.step h⟩
    cases l with
    | l1 i l =>
        obtain ⟨inp, e, c, -, -, rfl⟩ := Sys.l1Step_some h
        simpa [Sys.Homed, Sys.afterL1, Sys.setNode] using hH
    | l2 l =>
        obtain ⟨inp, e, c, he, hc, rfl⟩ := Sys.l2Step_some h
        exact hH.l2Step hS he hc hB fun _ _ => ⟨fun _ => trivial, fun _ => trivial⟩
    | home l =>
        obtain ⟨h', hl, rfl⟩ := Option.map_eq_some_iff.mp h
        exact hH.homeStep hl (.inr fun _ => trivial)

/-! ### Messages and exchanges for runs on zeros -/

def request (t : CoherenceRequestType) (r : MachineID n) : RequestMsg n B :=
  { type := t, Requestor := r }

def response (t : CoherenceResponseType) (s : MachineID n) : ResponseMsg n B :=
  { type := t, Sender := s }

def invAck (i : Fin n) : ResponseMsg n B := { type := .ACK, Sender := .L1Cache i, AckCount := 1 }

def access (t : MemoryRequestType) : MemoryMsg n B := { type := t, Sender := .L2Cache }

/-- The L2's fetch of a line of zeros is served. -/
def fetchZeros (t : CoherenceRequestType) : List (Label n B) :=
  [.home (.request (request t .L2Cache)),
    .home (.memory (access .MEMORY_READ)),
    .home (.memoryResponse (access .MEMORY_READ)),
    .l2 (.responseFromDir (response .MEMORY_DATA .Directory))]

/-- The L2's write-back of a line of zeros is served. -/
def writeZeros : List (Label n B) :=
  [.home (.response (response .MEMORY_DATA .L2Cache)),
    .home (.memory (access .MEMORY_WB)),
    .home (.memoryResponse (access .MEMORY_WB)),
    .l2 (.responseFromDir (response .MEMORY_ACK .Directory))]

/-! ### The directory does not forget an owner -/

/-- While the directory is idle, the L2 does not hold the line and is not about to get it. -/
def Sys.OwnerKnown (g : Sys n B) : Prop :=
  g.home.dir.getState = .I →
    g.l2.getState ∉ [.SS, .M, .MT, .SS_MB, .MT_MB, .MT_IIB, .MT_IB, .MT_SB] ∧
    ∀ r ∈ g.home.responseToL2Cache, r.type ≠ .MEMORY_DATA

instance : DecidablePred (Sys.OwnerKnown (n := n) (B := B)) := fun g => by
  unfold Sys.OwnerKnown; infer_instance

theorem Directory.Line.Is.getState {s : Directory.State} {l : Directory.Line n B} (h : l.Is s) :
    l.getState = s := by
  cases h <;> rfl

/-- An L1 fetches an instruction, and a DMA controller reads the line from under it. -/
def fetchThenDMA : List (Label 1 1) :=
  [.l1 0 (.cpu .IFETCH id), .l2 (.request 0 (request .GET_INSTR (.L1Cache 0)))] ++
  fetchZeros .GET_INSTR ++
  [.l1 0 (.response (response .DATA .L2Cache) id),
    .home (.dma (request .DMA_READ (.DMA 0))),
    .home (.request (request .DMA_READ (.DMA 0))),
    .l2 (.responseFromDir (response .INV .Directory)),
    .l1 0 (.request (request .INV .L2Cache))]

/-- The L1 fetches the line again: the invalidation of the first tenure stays at the L2 and is
answered in the second. -/
def lateInvalidation : List (Label 1 1) :=
  fetchThenDMA ++
  [.l1 0 (.cpu .IFETCH id),
    .l2 (.response 0 (invAck 0))] ++
  writeZeros ++
  [.l2 (.request 0 (request .GET_INSTR (.L1Cache 0))),
    .l2 (.responseFromDir (response .INV .Directory)),
    .home (.request (request .GET_INSTR .L2Cache)),
    .home (.memory (access .MEMORY_READ)),
    .home (.memoryResponse (access .MEMORY_READ)),
    .home (.response (response .ACK .L2Cache))]

/-- The L2 consumes the invalidation while it recalls the line, and writes the line back. -/
def invalidated : List (Label 1 1) :=
  fetchThenDMA ++
  [.l2 (.responseFromDir (response .INV .Directory)),
    .l2 (.response 0 (invAck 0))]

/-- Every message at the directory's ports triggers an event with a declared transition. -/
def Home.Accepts (h : Home n B) : Prop :=
  (∀ m ∈ h.requestToDir, ∃ e ∈ Directory.requestEvent m,
    (Directory.transition h.dir.getState e).isSome) ∧
  (∀ r ∈ h.responseToDir, ∃ e ∈ Directory.responseEvent r,
    (Directory.transition h.dir.getState e).isSome) ∧
  ∀ m ∈ h.responseFromMemory,
    (Directory.transition (h.dir.seenAt m.offset).getState (Directory.memoryEvent m)).isSome

instance : DecidablePred (Home.Accepts (n := n) (B := B)) := fun h => by
  unfold Home.Accepts; infer_instance

/-- The step does not serve an upgrade whose line the L2 has lost. -/
def upgradesHeld (g : Sys n B) : Label n B → Bool
  | .l2 (.request _ m) => m.type ≠ .UPGRADE || g.l2.getState ≠ .NP
  | _ => true

/-- The step does not let a clean write-back and a DMA request for the held line cross. -/
def uncrossed (g : Sys n B) : Label n B → Bool
  | .home (.request m) =>
      m.isFetch || g.home.dir.getState ≠ .M || g.home.responseToDir.all fun r => r.type ≠ .ACK
  | .l2 l => (g.l2Event l).all fun r =>
      !L2Cache.cleanAck g.l2.getState r.2 || g.home.dir.getState ∉ [.M_DRD, .M_DWR]
  | _ => true

/-- What the directory can rely on: fetches have a type it knows, write-backs are data or clean,
and none is clean while a DMA request waits for the line. -/
structure Home.Polite (h : Home n B) : Prop where
  gets : ∀ m ∈ h.requestToDir, m.isFetch = true → Directory.isGETRequest m.type = true
  types : ∀ r ∈ h.responseToDir, r.type = .MEMORY_DATA ∨ r.type = .ACK
  clean : h.dir.getState = .M_DRD ∨ h.dir.getState = .M_DWR → ∀ r ∈ h.responseToDir, r.type ≠ .ACK

theorem Directory.Line.getState_setState (l : Directory.Line n B) (s : Directory.State) :
    (l.setState s).getState = s := by
  obtain ⟨_, _, t⟩ := l
  cases t <;> rfl

/-- A directory that waits for the L2 on behalf of a DMA controller was waiting already, or has
just taken the DMA request. -/
theorem Directory.doTransition_waits {inp : Directory.In n B} {e : Directory.Event}
    {l : Directory.Line n B} {c : Directory.Ctx n B} (h : Directory.doTransition inp e l = some c)
    (hs : c.line.getState = .M_DRD ∨ c.line.getState = .M_DWR) :
    c.line.getState = l.getState ∨ l.getState = .M ∧ (e = .DMA_READ ∨ e = .DMA_WRITE) := by
  obtain ⟨⟨s', actions⟩, ht, hm⟩ := Option.bind_eq_some_iff.mp h
  obtain ⟨c₁, -, rfl⟩ := Option.map_eq_some_iff.mp hm
  rw [Directory.Line.getState_setState] at hs ⊢
  have := Lib.declared_check (P := fun s e s' _ => decide (s' = .M_DRD ∨ s' = .M_DWR →
    s' = s ∨ s = .M ∧ (e = .DMA_READ ∨ e = .DMA_WRITE))) (by decide +kernel) ht
  exact of_decide_eq_true this hs

theorem Directory.Line.Is.seenAt {s : Directory.State} {l : Directory.Line n B} (h : l.Is s)
    (k : ℕ) : (l.seenAt k).getState = s := by
  unfold Directory.Line.seenAt
  cases h <;> split <;> rfl

theorem Home.Polite.step {ok : DataBlock B → Prop} {st : Stage} {s : Directory.State}
    {h h' : Home n B} (hp : h.Polite) (hA : h.At ok st s) {l : HomeLabel n B}
    (hl : h.step l = some h')
    (hK : ∀ m, l = .request m → m.isFetch = false → h.dir.getState = .M →
      ∀ r ∈ h.responseToDir, r.type ≠ .ACK) : h'.Polite := by
  cases l with
  | request m =>
      simp only [Home.step, Option.ite_none_right_eq_some, Option.bind_eq_some_iff,
        Option.map_eq_some_iff] at hl
      obtain ⟨hm, e, he, c, hc, rfl⟩ := hl
      refine ⟨fun x hx => hp.gets x (mem_of_mem_dequeue hx), hp.types, fun hs r hr => ?_⟩
      rcases Directory.doTransition_waits hc hs with hs' | ⟨hM, hdma⟩
      · exact hp.clean (hs' ▸ hs) r hr
      · refine hK m rfl ?_ hM r hr
        revert he
        unfold Directory.requestEvent Directory.isGETRequest RequestMsg.isFetch
        rcases hdma with rfl | rfl <;> cases m.type <;> decide
  | response x =>
      simp only [Home.step, Option.ite_none_right_eq_some, Option.bind_eq_some_iff,
        Option.map_eq_some_iff] at hl
      obtain ⟨hm, e, he, c, hc, rfl⟩ := hl
      refine ⟨hp.gets, fun r hr => hp.types r (mem_of_mem_dequeue hr), fun hs r hr => ?_⟩
      rcases Directory.doTransition_waits hc hs with hs' | ⟨-, hdma⟩
      · exact hp.clean (hs' ▸ hs) r (mem_of_mem_dequeue hr)
      · revert he
        unfold Directory.responseEvent
        rcases hdma with rfl | rfl <;> cases x.type <;> simp
  | memoryResponse m =>
      simp only [Home.step, Option.ite_none_right_eq_some, Option.map_eq_some_iff] at hl
      obtain ⟨hm, c, hc, rfl⟩ := hl
      refine ⟨hp.gets, hp.types, fun hs r hr => ?_⟩
      rcases Directory.doTransition_waits hc hs with hs' | ⟨-, hdma⟩
      · rw [hA.dir.seenAt, ← hA.dir.getState] at hs'
        exact hp.clean (hs' ▸ hs) r hr
      · revert hdma
        unfold Directory.memoryEvent
        cases m.type <;> simp
  | memory m =>
      simp only [Home.step, Option.ite_none_right_eq_some, Option.map_eq_some_iff] at hl
      obtain ⟨hm, ⟨memory, r⟩, hsv, rfl⟩ := hl
      exact ⟨hp.gets, hp.types, hp.clean⟩
  | dma m =>
      simp only [Home.step, Option.ite_none_right_eq_some, Option.some.injEq] at hl
      obtain ⟨hm, rfl⟩ := hl
      refine ⟨fun x hx hf => ?_, hp.types, hp.clean⟩
      rcases List.mem_append.mp hx with hx | hx
      · exact hp.gets x hx hf
      · rw [List.mem_singleton.mp hx] at hf
        rcases hm.1 with ht | ht <;> simp [RequestMsg.isFetch, ht] at hf

theorem mode_absent {s : L2Cache.State} (h : s.mode = .absent) : s = .NP := by
  revert h
  cases s <;> decide

theorem Home.Polite.l2Step (hp : g.home.Polite) {l : L2Label n B} {inp : L2Cache.In n B}
    {e : L2Cache.Event} {c : L2Cache.Ctx n B} (he : g.l2Event l = some (inp, e))
    (hc : L2Cache.doTransition inp e g.l2 = some c) (hU : upgradesHeld g (.l2 l) = true)
    (hK : uncrossed g (.l2 l) = true) : ((g.l2Dequeue c.popped l).afterL2 c).home.Polite := by
  obtain ⟨hmove, ⟨hsf, -⟩, hack⟩ := L2Cache.doTransition_effect hc
  have hrq : (g.l2Dequeue c.popped l).home.requestToDir = g.home.requestToDir := by cases l <;> rfl
  have hrs : (g.l2Dequeue c.popped l).home.responseToDir = g.home.responseToDir := by
    cases l <;> rfl
  have hdir : (g.l2Dequeue c.popped l).home.dir = g.home.dir := by cases l <;> rfl
  have hty : ∀ r ∈ c.responseToDir, r.type ∈ c.effect.responses :=
    fun r hr => List.mem_map_of_mem hr
  refine ⟨fun f hf hfetch => ?_, fun r hr => ?_, fun hs r hr => ?_⟩
  · simp only [Sys.afterL2, Home.receive, hrq, List.mem_append] at hf
    rcases hf with hf | hf
    · exact hp.gets f hf hfetch
    -- a new fetch has the type of the L1's request, and that is not an upgrade
    obtain ⟨-, m, hm, htype⟩ := hsf f hf
    obtain ⟨⟨i, rfl⟩, hreq⟩ := l2Event_request he hm
    have hlen : 0 < c.effect.fetches := List.length_pos_of_mem hf
    obtain ⟨habs, hget⟩ : g.l2.getState.mode = .absent ∧
        (e = .L1_GETS ∨ e = .L1_GET_INSTR ∨ e = .L1_GETX) := by
      rcases hmove with h | h | h | h | h | h <;> first | exact ⟨h.1, h.2.2.2.2⟩ | omega
    have hup : m.type ≠ .UPGRADE := by
      simpa [upgradesHeld, mode_absent habs] using hU
    rw [htype]
    rcases L2Cache.requestEvent_get hreq hget with ht | ht | ht | ht <;>
      first | exact absurd ht hup | (rw [ht]; rfl)
  · simp only [Sys.afterL2, Home.receive, hrs, List.mem_append] at hr
    rcases hr with hr | hr
    · exact hp.types r hr
    have := hty r hr
    rcases hmove with h | h | h | h | h | h <;> grind
  · simp only [Sys.afterL2, Home.receive, hrs, hdir, List.mem_append] at hr hs
    rcases hr with hr | hr
    · exact hp.clean hs r hr
    intro ht
    have hclean := hack (ht ▸ hty r hr)
    have : g.home.dir.getState ∉ [.M_DRD, .M_DWR] := by
      simpa [uncrossed, he, hclean] using hK
    simp only [List.mem_cons, List.not_mem_nil, or_false] at this
    exact this hs

/-- At every stage, what the directory can rely on is enough. -/
theorem Home.At.accepts {ok : DataBlock B → Prop} {st : Stage} {s : Directory.State}
    {h : Home n B} (hA : h.At ok st s) (hp : h.Polite) : h.Accepts := by
  have hst := hA.state
  refine ⟨fun m hm => ?_, fun r hr => ?_, fun m hm => ?_⟩
  · rw [hA.dir.getState]
    by_cases hf : m.isFetch = true
    · refine ⟨.Fetch, by rw [Directory.requestEvent, if_pos (hp.gets m hm hf)]; rfl, ?_⟩
      have hpos : 0 < st.fetches := hA.fetches ▸ List.countP_pos_iff.mpr ⟨m, hm, hf⟩
      revert hpos hst
      cases st <;> cases s <;> decide
    · have hdma : Directory.requestEvent m = some .DMA_READ ∨
          Directory.requestEvent m = some .DMA_WRITE := by
        revert hf
        unfold RequestMsg.isFetch Directory.requestEvent Directory.isGETRequest
        cases m.type <;> decide
      rcases hdma with he | he
      · exact ⟨_, he, by cases s <;> rfl⟩
      · exact ⟨_, he, by cases s <;> rfl⟩
  · obtain ⟨rfl, -⟩ := hA.only_response hr
    have hclean := hp.clean
    rw [hA.dir.getState] at hclean ⊢
    rcases hp.types r hr with ht | ht
    · refine ⟨.Data, by rw [Directory.responseEvent, ht]; rfl, ?_⟩
      revert hst
      cases s <;> decide
    · refine ⟨.CleanReplacement, by rw [Directory.responseEvent, ht]; rfl, ?_⟩
      have hs : s ≠ .M_DRD ∧ s ≠ .M_DWR :=
        ⟨fun h => hclean (.inl h) r hr ht, fun h => hclean (.inr h) r hr ht⟩
      revert hst hs
      cases s <;> decide
  · rw [hA.dir.seenAt]
    cases hA.pending with
    | none _ _ h | read _ _ _ _ h | write _ _ _ _ _ h => rw [h] at hm; cases hm
    | readDone hs hty _ _ _ h =>
        rw [h] at hm
        rw [List.mem_singleton.mp hm, Directory.memoryEvent, hty]
        revert hs
        cases s <;> decide
    | writeDone hs hty _ _ _ h =>
        rw [h] at hm
        rw [List.mem_singleton.mp hm, Directory.memoryEvent, hty]
        revert hs
        cases s <;> decide

/-- The conditions under which the directory is asked only what it answers. -/
def orderly (g : Sys n B) (l : Label n B) : Bool :=
  meetsLine g l && upgradesHeld g l && uncrossed g l

/-- **Every message that reaches the directory is accepted**, where every invalidation finds the
L2 with the line, no upgrade finds it without, and clean write-backs and DMA requests do not
cross. -/
theorem dir_accepts (h : (protocol n B).Reach (fun g l => orderly g l = true) g) :
    g.home.Accepts := by
  have hB : ∀ (g : Sys n B) l, orderly g l = true → meetsLine g l = true := by
    intro g l h
    simp only [orderly, Bool.and_eq_true] at h
    exact h.1.1
  suffices hI : (g.Homed (fun _ => True) ∧ g.Signed) ∧ g.home.Polite by
    obtain ⟨⟨⟨st, s, hA, -⟩, -⟩, hp⟩ := hI
    exact hA.accepts hp
  refine ⟨homed_of_reach (h.mono hB), ?_⟩
  obtain ⟨-, hp⟩ : (protocol n B).Reach (fun g l => meetsLine g l = true) g ∧ g.home.Polite := by
    refine h.invariant (I := fun g => (protocol n B).Reach (fun g l => meetsLine g l = true) g ∧
      g.home.Polite) ?_ ?_
    · rintro g ⟨memory, rfl⟩
      have hnil {α : Type} {P : α → Prop} : ∀ x ∈ ([] : List α), P x :=
        fun _ h => absurd h List.not_mem_nil
      exact ⟨.init (started memory), hnil, hnil, fun _ => hnil⟩
    · rintro g l g' ⟨hr, hp⟩ ho hstep
      refine ⟨hr.snoc (hB g l ho) hstep, ?_⟩
      simp only [orderly, Bool.and_eq_true] at ho
      cases l with
      | l1 i l =>
          obtain ⟨inp, e, c, -, -, rfl⟩ := Sys.l1Step_some hstep
          simpa [Sys.afterL1, Sys.setNode] using hp
      | l2 l =>
          obtain ⟨inp, e, c, he, hc, rfl⟩ := Sys.l2Step_some hstep
          exact hp.l2Step he hc ho.1.2 ho.2
      | home l =>
          obtain ⟨h', hl, rfl⟩ := Option.map_eq_some_iff.mp hstep
          obtain ⟨⟨st, s, hA, -⟩, -⟩ := homed_of_reach hr
          refine hp.step hA hl ?_
          rintro m rfl hf hM
          simpa [uncrossed, hf, hM] using ho.2
  exact hp

theorem dir_accepts_invalidated :
    ∃ g, (protocol 1 1).Reach (fun g l => orderly g l = true) g ∧
      g.home.dir.getState = .M_DRD ∧ g.home.responseToDir.length = 1 ∧ g.home.Accepts := by
  have h : (((protocol 1 1).trace (fun g l => orderly g l = true) (start fun _ => 0)
      invalidated).any fun g => decide (g.home.dir.getState = .M_DRD ∧
        g.home.responseToDir.length = 1)) = true := by
    decide +kernel
  obtain ⟨g, hreach, hs, hr⟩ := Lib.Machine.trace_reaches (started _) h
  exact ⟨g, hreach, hs, hr, dir_accepts hreach⟩

/-- Two L1s share the line and one asks to write it; the L2 replaces the line before it serves
the request. -/
def lostUpgrade : List (Label 2 1) :=
  [.l1 0 (.cpu .LD id), .l1 1 (.cpu .LD id),
    .l2 (.request 0 (request .GETS (.L1Cache 0))),
    .l2 (.request 1 (request .GETS (.L1Cache 1)))] ++
  fetchZeros .GETS ++
  [.l1 0 (.response (response .DATA .L2Cache) id),
    .l1 1 (.response (response .DATA .L2Cache) id),
    .l1 0 (.cpu .ST id),
    .l2 .replacement,
    .l1 0 (.request (request .INV .L2Cache)),
    .l1 1 (.request (request .INV .L2Cache)),
    .l2 (.response 0 (invAck 0)),
    .l2 (.response 1 (invAck 1)),
    .home (.response (response .ACK .L2Cache)),
    .l2 (.responseFromDir (response .MEMORY_ACK .Directory)),
    .l2 (.request 0 (request .UPGRADE (.L1Cache 0)))]

/-- The L2 passes the upgrade on to the directory, which knows no such message. -/
theorem lost_upgrade_refused :
    ∃ g, (protocol 2 1).Reach (fun _ _ => True) g ∧ ¬ g.home.Accepts := by
  have h : (((protocol 2 1).trace (fun _ _ => True) (start fun _ => 0) lostUpgrade).any
      fun g => decide (¬ g.home.Accepts)) = true := by decide +kernel
  exact Lib.Machine.trace_reaches (started _) h

end

end SttRuby.Protocol
