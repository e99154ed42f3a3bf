import SttRuby.Protocol.DataValue
import SttRuby.Protocol.DMAWrite

/-!
# Protocol — DMAMerge

A DMA write to a line that some cache holds dirty, over whole runs.  While the directory waits in
`M_DWR` the L2 takes the line back from its L1s and returns it; what it returns is the dirty line
with the stores that have completed meanwhile, as long as no write-back is taken for the answer to
a recall, every invalidation finds the L2 with the line and no dirty line is acknowledged without
its data (`returns`).

DMA writes change the memory without the caches, so `latest` is not what the caches hold after
one.  The caches agree on a value all the same: `Sys.Agreed` says that it is `latest`, and every
reached state agrees on some value (`agreed_of_reach`), since a value matters only during a tenure
of the L2, which begins with what the memory then holds.

The directory drops what the L2 returns, so the write merges with the dirty line exactly when that
line and the memory agree outside the written bytes (`dma_write_merges`).
-/

namespace SttRuby.Protocol

section

variable {n B : ℕ} {g g' : Sys n B}

/-! ### A value for the caches to agree on -/

/-- The conditions under which the L2 returns what the stores have made of the line. -/
def returns (g : Sys n B) (l : Label n B) : Bool :=
  recallsAlone g l && meetsLine g l && dirtyAnswered g l

/-- The caches, and the line on its way to the directory, agree on the value `latest`; the memory
may be changed by DMA controllers. -/
structure Sys.Agreed (g : Sys n B) : Prop where
  coherent : g.Coherent (.exact g.home.memory)
  homed : g.Homed (fun _ => True)
  signed : g.Signed
  returned : ∀ r ∈ g.home.responseToDir, r.type = .MEMORY_DATA → r.DataBlk = g.latest

theorem Sys.Agreed.start (memory : DataBlock B) : (start memory : Sys n B).Agreed where
  coherent := .start _ memory
  homed := .start memory _ trivial
  signed := fun _ _ h => absurd h List.not_mem_nil
  returned := fun _ h => absurd h List.not_mem_nil

/-- During a tenure of the L2 nothing is on its way back. -/
theorem Sys.Homed.responseToDir_eq_nil {ok : DataBlock B → Prop} (hH : g.Homed ok)
    (hm : g.l2.getState.mode ≠ .leaving) : g.home.responseToDir = [] := by
  obtain ⟨st, s, hA, hmode⟩ := hH
  refine List.length_eq_zero_iff.mp (hA.responses.trans (if_neg ?_))
  rintro rfl
  exact hm hmode

/-- Data is on its way to the L2 only while it is fetching. -/
theorem Sys.Homed.fetching {ok : DataBlock B → Prop} (hH : g.Homed ok) {m : ResponseMsg n B}
    (hm : m ∈ g.home.responseToL2Cache) (ht : m.type = .MEMORY_DATA) :
    g.l2.getState.mode = .fetching ∧ m.DataBlk = g.home.memory := by
  obtain ⟨st, s, hA, hmode⟩ := hH
  have hfill : 0 < st.fills := hA.fills ▸ List.countP_pos_iff.mpr ⟨m, hm, by simpa using ht⟩
  refine ⟨hmode.trans ?_, hA.filled m hm ht⟩
  revert hfill
  cases st <;> decide

theorem Sys.Agreed.l1Step (hg : g.Agreed) {i : Fin n} {l : L1Label n B}
    (hC : dirtyAnswered g (.l1 i l) = true) (h : g.l1Step i l = some g') : g'.Agreed := by
  have hS : g'.Signed := hg.signed.step (l := .l1 i l) h
  obtain ⟨inp, e, c, he, hc, rfl⟩ := Sys.l1Step_some h
  obtain ⟨hco, hst⟩ := hg.coherent.l1Step (.inl hC) he hc
  refine ⟨by simpa [Sys.afterL1, Sys.setNode] using hco,
    by simpa [Sys.Homed, Sys.afterL1, Sys.setNode] using hg.homed, hS, ?_⟩
  rcases hst with hst | hhold
  · simpa [Sys.afterL1, Sys.setNode, hst] using hg.returned
  · have hnil := hg.homed.responseToDir_eq_nil (by rw [hhold]; decide)
    simp [Sys.afterL1, Sys.setNode, hnil]

theorem Sys.Agreed.l2Step (hg : g.Agreed) {l : L2Label n B}
    (hA : recallsAlone g (.l2 l) = true) (hB : meetsLine g (.l2 l) = true)
    (hfill : ∀ m ∈ g.home.responseToL2Cache, m.type = .MEMORY_DATA → m.DataBlk = g.latest)
    (h : g.l2Step l = some g') : g'.Agreed := by
  have hS : g'.Signed := hg.signed.step (l := .l2 l) h
  obtain ⟨inp, e, c, he, hc, rfl⟩ := Sys.l2Step_some h
  have hdir : ∀ m ∈ g.home.responseToL2Cache, m.Sender = .Directory ∧ (m.type = .MEMORY_DATA →
      m.DataBlk = g.latest ∧ m.DataBlk = g.home.memory) := by
    obtain ⟨st, s, hAt, -⟩ := hg.homed
    exact fun m hm => ⟨(hAt.toL2 m hm).1, fun ht => ⟨hfill m hm ht, hAt.filled m hm ht⟩⟩
  obtain ⟨hco, hout⟩ := hg.coherent.l2Step hA hdir he hc
  have hmem : ((g.l2Dequeue c.popped l).afterL2 c).home.memory = g.home.memory := by
    cases l <;> rfl
  have hlat : ((g.l2Dequeue c.popped l).afterL2 c).latest = g.latest := by
    cases l <;> rfl
  have hresp : ((g.l2Dequeue c.popped l).afterL2 c).home.responseToDir =
      g.home.responseToDir ++ c.responseToDir := by
    cases l <;> rfl
  refine ⟨hmem ▸ hco, hg.homed.l2Step hg.signed he hc hB fun _ _ => ⟨fun _ => trivial,
    fun _ => trivial⟩, hS, fun r hr ht => ?_⟩
  rw [hlat]
  rw [hresp, List.mem_append] at hr
  rcases hr with hr | hr
  · exact hg.returned r hr ht
  · exact (hout hB r hr).1 ht

theorem Home.mem_responseToDir {h h' : Home n B} {l : HomeLabel n B} (hl : h.step l = some h')
    {r : ResponseMsg n B} (hr : r ∈ h'.responseToDir) : r ∈ h.responseToDir := by
  cases l with
  | request m =>
      simp only [Home.step, Option.ite_none_right_eq_some, Option.bind_eq_some_iff,
        Option.map_eq_some_iff] at hl
      obtain ⟨-, e, -, c, -, rfl⟩ := hl
      exact hr
  | response m =>
      simp only [Home.step, Option.ite_none_right_eq_some, Option.bind_eq_some_iff,
        Option.map_eq_some_iff] at hl
      obtain ⟨-, e, -, c, -, rfl⟩ := hl
      exact mem_of_mem_dequeue hr
  | memoryResponse m | memory m =>
      simp only [Home.step, Option.ite_none_right_eq_some, Option.map_eq_some_iff] at hl
      obtain ⟨-, c, -, rfl⟩ := hl
      exact hr
  | dma m =>
      simp only [Home.step, Option.ite_none_right_eq_some, Option.some.injEq] at hl
      obtain ⟨-, rfl⟩ := hl
      exact hr

theorem Sys.Agreed.homeStep (hg : g.Agreed) {l : HomeLabel n B} {h' : Home n B}
    (hl : g.home.step l = some h') : ({ g with home := h' } : Sys n B).Agreed := by
  refine ⟨?_, hg.homed.homeStep hl (.inr fun _ => trivial), hg.signed,
    fun r hr => hg.returned r (Home.mem_responseToDir hl hr)⟩
  obtain ⟨φ, d, hl2, hn⟩ := hg.coherent
  by_cases hm : g.l2.getState.mode = .holding
  · obtain ⟨st, s, hA, hmode⟩ := hg.homed
    obtain rfl := Stage.held_of_holding (hmode.symm.trans hm)
    have hmem := hA.memory_step hl
    exact ⟨φ, d, by simpa [hmem] using hl2, hn⟩
  · exact ⟨φ, d, hl2.of_not_holding hm, hn⟩

/-- **A step keeps the agreement**, if the data on its way to the L2 is the value agreed on. -/
theorem Sys.Agreed.step (hg : g.Agreed) {l : Label n B} (hG : returns g l = true)
    (hfill : ∀ m ∈ g.home.responseToL2Cache, m.type = .MEMORY_DATA → m.DataBlk = g.latest)
    (h : step g l = some g') : g'.Agreed := by
  simp only [returns, Bool.and_eq_true] at hG
  obtain ⟨⟨hA, hB⟩, hC⟩ := hG
  cases l with
  | l1 i l => exact hg.l1Step hC h
  | l2 l => exact hg.l2Step hA hB hfill h
  | home l =>
      obtain ⟨h', hl, rfl⟩ := Option.map_eq_some_iff.mp h
      exact hg.homeStep hl

/-! ### Another value -/

/-- Outside a tenure of the L2 no node has a copy. -/
theorem Phase.L2.free_of_not_holding {ok clean : DataBlock B → Prop} {d : DataBlock B}
    {φ : Phase n} {l : L2Cache.Line n B} (h : φ.L2 ok clean d l)
    (hm : l.getState.mode ≠ .holding) (j : Fin n) : (φ.role j).free = true := by
  cases h with
  | np | mI => rfl
  | iss i => by_cases hj : j ∈ ({i} : Finset (Fin n)) <;> simp [Phase.role, Role.free, hj]
  | is W => by_cases hj : j ∈ W <;> simp [Phase.role, Role.free, hj]
  | im r => by_cases hj : j = r <;> simp [Phase.role, Role.free, hj]
  | _ => exact absurd rfl hm

/-- Before a tenure of the L2 the caches agree on any value. -/
theorem Sys.Agreed.reset (hg : g.Agreed) (hm : g.l2.getState.mode = .fetching)
    (v : DataBlock B) : ({ g with latest := v } : Sys n B).Agreed := by
  have hne : g.l2.getState.mode ≠ .holding := by rw [hm]; decide
  have hnil := hg.homed.responseToDir_eq_nil (by rw [hm]; decide)
  obtain ⟨φ, d, hl2, hn⟩ := hg.coherent
  exact ⟨⟨φ, d, hl2.of_not_holding hne, fun i => (hn i).of_free (hl2.free_of_not_holding hne i)⟩,
    hg.homed, hg.signed, by simp [hnil]⟩

/-- The value agreed on may be taken to be what is on its way to the L2. -/
theorem Sys.Agreed.exists_fill (hg : g.Agreed) : ∃ v, ({ g with latest := v } : Sys n B).Agreed ∧
    ∀ m ∈ g.home.responseToL2Cache, m.type = .MEMORY_DATA → m.DataBlk = v := by
  by_cases hm : g.l2.getState.mode = .fetching
  · exact ⟨g.home.memory, hg.reset hm _, fun m hmem ht => (hg.homed.fetching hmem ht).2⟩
  · exact ⟨g.latest, hg, fun m hmem ht => absurd (hg.homed.fetching hmem ht).1 hm⟩

/-- The steps of the system do not depend on `latest`. -/
theorem step_latest {l : Label n B} (h : step g l = some g') (v : DataBlock B) :
    ∃ v', step { g with latest := v } l = some { g' with latest := v' } := by
  cases l with
  | l1 i l =>
      obtain ⟨inp, e, c, he, hc, rfl⟩ := Sys.l1Step_some h
      have he' : ({ g with latest := v } : Sys n B).l1Event i l = some (inp, e) := by
        cases l <;> exact he
      refine ⟨c.stores.foldl (fun d w => w d) v, ?_⟩
      simp only [step, Sys.l1Step, he', hc, Option.bind_some, Option.map_some]
      cases l <;> rfl
  | l2 l =>
      obtain ⟨inp, e, c, he, hc, rfl⟩ := Sys.l2Step_some h
      have he' : ({ g with latest := v } : Sys n B).l2Event l = some (inp, e) := by
        cases l <;> exact he
      refine ⟨v, ?_⟩
      simp only [step, Sys.l2Step, he', hc, Option.bind_some, Option.map_some]
      cases l <;> rfl
  | home l =>
      obtain ⟨h', hl, rfl⟩ := Option.map_eq_some_iff.mp h
      exact ⟨v, by simp [step, hl]⟩

theorem returns_latest (g : Sys n B) (v : DataBlock B) (l : Label n B) :
    returns { g with latest := v } l = returns g l := by
  rcases l with ⟨i, l⟩ | l | l <;> cases l <;> rfl

/-- **The caches agree on some value**, whatever DMA controllers write. -/
theorem agreed_of_reach (h : (protocol n B).Reach (fun g l => returns g l = true) g) :
    ∃ v, ({ g with latest := v } : Sys n B).Agreed := by
  refine h.invariant (I := fun g => ∃ v, ({ g with latest := v } : Sys n B).Agreed) ?_ ?_
  · rintro g ⟨memory, rfl⟩
    exact ⟨memory, .start memory⟩
  · rintro g l g' ⟨v, hg⟩ hG h
    obtain ⟨v₁, hg₁, hfill⟩ := hg.exists_fill
    obtain ⟨v', h'⟩ := step_latest h v₁
    exact ⟨v', hg₁.step ((returns_latest g v₁ l).trans hG) hfill h'⟩

/-! ### The dirty line -/

/-- The L2's grant of the line is on its way to the node. -/
def Node.granted (nd : Node n B) : Bool :=
  nd.responseToL1Cache.any fun m =>
    m.type = .DATA_EXCLUSIVE || nd.line.getState = .IM || nd.line.getState = .SM

/-- Some cache holds the line dirty, with the contents `d`. -/
inductive Sys.HoldsDirty (g : Sys n B) (d : DataBlock B) : Prop where
  | l1 {i : Fin n} {e : L1Cache.Entry B} (hs : (g.node i).line.getState.holds = true)
      (he : (g.node i).line.entry = some e) (hb : e.Dirty = true) (hd : e.DataBlk = d)
  /-- An L1 is writing the line back. -/
  | putting {i : Fin n} {q : RequestMsg n B} (hs : (g.node i).line.getState = .M_I)
      (hq : q ∈ (g.node i).L1RequestToL2Cache) (hb : q.Dirty = true) (hd : q.DataBlk = d)
  /-- The L2 has the line, and no L1 may have changed it. -/
  | l2 {e : L2Cache.Entry n B} (he : g.l2.entry = some e) (hb : e.Dirty = true)
      (hs : g.l2.getState ∈ [.SS, .M, .MT_SB] ∨ ∃ i, (g.node i).granted = true)
      (hd : e.DataBlk = d)
  /-- The L2 is taking the line back from its sharers. -/
  | recalling {t : L2Cache.TBE n B} (ht : g.l2.tbe = some t) (hs : g.l2.getState = .S_I)
      (hb : t.Dirty = true) (hd : t.DataBlk = d)

section

variable {ok : DataBlock B → Prop} {cur : Prop} {i : Fin n} {k : Kind} {ρ : Role n}
  {nd : Node n B} {l : L1Cache.Line B} {sent : Option (RequestMsg n B)}
  {due : Option (ResponseMsg n B)} {d : DataBlock B}

/-- A line that an L1 is writing back has not been taken away. -/
theorem Kind.Is.put_ok {q : RequestMsg n B} (h : k.Is ok cur i l (some q) due)
    (hs : l.getState = .M_I) : k = .putting ∧ ok q.DataBlk := by
  cases h with
  | putting p entry t ht => exact ⟨rfl, ht⟩
  | @reading s hr =>
      obtain rfl : s = .M_I := hs
      cases hr
  | writing | lostUpgrade | sinkPut | upgrading => cases hs

/-- While its grant is on the way, the L2's block is up to date. -/
theorem Kind.Is.granted_cur {m : ResponseMsg n B} (h : k.Is ok cur i l sent (some m))
    (hm : m.type = .DATA_EXCLUSIVE ∨ l.getState = .IM ∨ l.getState = .SM) :
    k.outside = false ∧ k.sharing = false ∧ cur := by
  cases h with
  | granted _ _ _ _ _ hc | upgraded _ _ _ _ hc | grantedE _ _ _ _ _ _ hc =>
      exact ⟨rfl, rfl, hc⟩
  | putDone | sinkDone | readOnce | filling => rcases hm with hm | hm | hm <;> cases hm

theorem Role.Ok.put_ok {q : RequestMsg n B} (h : ρ.Ok ok cur i nd)
    (hq : q ∈ nd.L1RequestToL2Cache) (hs : nd.line.getState = .M_I) :
    ρ.free = false ∧ ok q.DataBlk := by
  obtain ⟨hP, hk, h⟩ := h
  rename_i sent due asked reply unblock peer
  obtain rfl := Option.mem_toList.mp hq
  obtain ⟨rfl, hok⟩ := h.put_ok hs
  refine ⟨?_, hok⟩
  cases hP <;> first | rfl | cases hk

/-- Only the node that acquires the line is granted it. -/
theorem Role.Ok.granted_cur (h : ρ.Ok ok cur i nd) (hd : nd.granted = true) :
    (∃ d, ρ = .acquirer d) ∧ cur := by
  obtain ⟨m, hm, hty⟩ := List.any_eq_true.mp hd
  simp only [Bool.or_eq_true, decide_eq_true_eq, or_assoc] at hty
  obtain ⟨hP, hk, h⟩ := h
  rename_i P k l sent due asked reply unblock peer
  obtain rfl := Option.mem_toList.mp hm
  obtain ⟨hout, hsh, hcur⟩ := h.granted_cur hty
  refine ⟨?_, hcur⟩
  cases hP with
  | acquiring d => exact ⟨d, rfl⟩
  | acquired => exact ⟨0, rfl⟩
  | bystander | invAcked | invAckedL2 | handed | recallAcked | recallData =>
      rw [hk] at hout
      cases hout
  | sharer | invPending | invPendingL2 | shared | reader =>
      rw [hk] at hsh
      cases hsh
  | _ => cases h <;> cases hk

end

section

variable {ok clean : DataBlock B → Prop} {d : DataBlock B} {φ : Phase n} {l : L2Cache.Line n B}

/-- The block of an L2 that no L1 may have gone beyond. -/
theorem Phase.L2.entry_ok (h : φ.L2 ok clean d l) {e : L2Cache.Entry n B} (he : l.entry = some e)
    (hs : l.getState ∈ [.SS, .M, .MT_SB]) : ok e.DataBlk := by
  cases h with
  | m _ _ hd | ss _ _ _ hd | mtSB _ _ _ hd =>
      cases he
      exact hd
  | _ => simp [L2Cache.Line.getState] at hs

theorem Phase.L2.tbe_ok (h : φ.L2 ok clean d l) {t : L2Cache.TBE n B} (ht : l.tbe = some t)
    (hs : l.getState = .S_I) : ok t.DataBlk := by
  cases h with
  | sI _ _ _ _ hd =>
      cases ht
      exact hd
  | _ => simp [L2Cache.Line.getState] at hs

theorem Phase.L2.entry_of_acquirer (h : φ.L2 ok clean d l) {e : L2Cache.Entry n B} {i : Fin n}
    {k : ℕ} (hρ : φ.role i = .acquirer k) (he : l.entry = some e) : e.DataBlk = d := by
  cases h with
  | ssMB | mtMB =>
      cases he
      rfl
  | _ => grind [Phase.role]

end

/-- A dirty line is the value the caches agree on, during a tenure of the L2. -/
theorem Sys.Agreed.holdsDirty (hg : g.Agreed) {d : DataBlock B} (h : g.HoldsDirty d) :
    d = g.latest ∧ g.l2.getState.mode = .holding := by
  obtain ⟨φ, d', hl2, hn⟩ := hg.coherent
  have hhold {i : Fin n} (hi : (φ.role i).free = false) : g.l2.getState.mode = .holding := by
    by_contra hm
    rw [hl2.free_of_not_holding hm i] at hi
    cases hi
  cases h with
  | @l1 i e hs he _ hd =>
      subst hd
      refine ⟨(hn i).held hs he, hhold (i := i) ?_⟩
      by_contra hf
      have hnot := (hn i).not_holds (Bool.not_eq_false _ ▸ hf)
      revert hnot hs
      cases (g.node i).line.getState <;> decide
  | @putting i q hs hq _ hd =>
      subst hd
      obtain ⟨hf, hok⟩ := (hn i).put_ok hq hs
      exact ⟨hok, hhold hf⟩
  | @l2 e he _ hs hd =>
      subst hd
      rcases hs with hs | ⟨i, hi⟩
      · exact ⟨hl2.entry_ok he hs, by revert hs; cases g.l2.getState <;> decide⟩
      · obtain ⟨⟨k, hρ⟩, hcur⟩ := (hn i).granted_cur hi
        exact ⟨(hl2.entry_of_acquirer hρ he).trans hcur, hhold (i := i) (by rw [hρ]; rfl)⟩
  | @recalling t ht hs _ hd =>
      subst hd
      exact ⟨hl2.tbe_ok ht hs, by rw [hs]; rfl⟩

/-! ### While the directory waits -/

/-- The L2 has the line, or has returned it. -/
def Sys.Tenured (g : Sys n B) : Prop :=
  g.l2.getState.mode = .holding ∨ g.l2.getState.mode = .leaving

theorem Sys.Homed.not_absent {ok : DataBlock B → Prop} (hH : g.Homed ok)
    (hM : g.home.dir.getState = .M_DWR) : g.l2.getState.mode ≠ .absent := by
  obtain ⟨st, s, hA, hmode⟩ := hH
  obtain rfl : s = .M_DWR := hA.dir.getState.symm.trans hM
  have hst := hA.state
  rw [hmode]
  revert hst
  cases st <;> decide

theorem Sys.Tenured.step (ht : g.Tenured) (hM : g.home.dir.getState = .M_DWR) {l : Label n B}
    (h : step g l = some g') (hg' : g'.Agreed) : g'.Tenured := by
  cases l with
  | l1 i l =>
      obtain ⟨inp, e, c, -, -, rfl⟩ := Sys.l1Step_some h
      simpa [Sys.Tenured, Sys.afterL1, Sys.setNode] using ht
  | l2 l =>
      obtain ⟨inp, e, c, -, hc, rfl⟩ := Sys.l2Step_some h
      -- only the directory's acknowledgement would end the tenure, and it is still waiting
      have hne := hg'.homed.not_absent (by cases l <;> exact hM)
      have hline : ((g.l2Dequeue c.popped l).afterL2 c).l2 = c.line := rfl
      obtain ⟨hmove, -⟩ := L2Cache.doTransition_effect hc
      unfold Sys.Tenured at ht ⊢
      rw [hline] at hne ⊢
      unfold L2Cache.Move at hmove
      grind
  | home l =>
      obtain ⟨h', -, rfl⟩ := Option.map_eq_some_iff.mp h
      exact ht

/-- While the directory waits, the caches keep to the value they agree on. -/
theorem Sys.Agreed.run (hg : g.Agreed) (ht : g.Tenured) {ls : List (Label n B)}
    (hr : (protocol n B).Run
      (fun g l => g.home.dir.getState = .M_DWR ∧ returns g l = true) g ls g') :
    g'.Agreed ∧ g'.Tenured := by
  induction hr with
  | refl => exact ⟨hg, ht⟩
  | @snoc _ g₁ g₂ l _ hG h ih =>
      obtain ⟨hg₁, ht₁⟩ := ih
      have hfill : ∀ m ∈ g₁.home.responseToL2Cache, m.type = .MEMORY_DATA →
          m.DataBlk = g₁.latest := by
        intro m hm hty
        have hf := (hg₁.homed.fetching hm hty).1
        rcases ht₁ with ht₁ | ht₁ <;> rw [ht₁] at hf <;> cases hf
      have hg₂ := hg₁.step hG.2 hfill h
      exact ⟨hg₂, ht₁.step hG.1 h hg₂⟩

/-- **The L2 returns the dirty line**, with the stores that have completed since the directory
took the write. -/
theorem AwaitsLine.returned_latest {d : DataBlock B} {m : RequestMsg n B} {r : ResponseMsg n B}
    (hg : (protocol n B).Reach (fun g l => returns g l = true) g) (hd : g.HoldsDirty d)
    (h : AwaitsLine (fun g l => returns g l = true) { g with latest := d } m g')
    (hr : r ∈ g'.home.responseToDir) (ht : r.type = .MEMORY_DATA) : r.DataBlk = g'.latest := by
  obtain ⟨v, hv⟩ := agreed_of_reach hg
  have hd' : ({ g with latest := v } : Sys n B).HoldsDirty d := by
    cases hd with
    | l1 hs he hb hd => exact .l1 hs he hb hd
    | putting hs hq hb hd => exact .putting hs hq hb hd
    | l2 he hb hs hd => exact .l2 he hb hs hd
    | recalling ht hs hb hd => exact .recalling ht hs hb hd
  obtain ⟨rfl, hhold⟩ := hv.holdsDirty hd'
  obtain ⟨g₁, ls, hstep, hrun⟩ := h.waits
  obtain ⟨h₁, hl, rfl⟩ := Option.map_eq_some_iff.mp hstep
  exact ((hv.homeStep hl).run (.inl hhold) hrun).1.returned r hr ht

/-- The DMA controller's write of the first `len` bytes. -/
def dmaWrite (len : ℕ) : RequestMsg n B :=
  { type := .DMA_WRITE, Requestor := .DMA 0, DataBlk := fun _ => 9, Len := len }

/-- The line an L1 has written. -/
def stored : DataBlock 2 := fun k => if k = 0 then 5 else 6

/-- An L1 writes the line, and a DMA write of its first `len` bytes reaches the directory. -/
def storeThenDMA (len : ℕ) : List (Label 1 2) :=
  [.l1 0 (.cpu .ST fun _ => stored), .l2 (.request 0 (request .GETX (.L1Cache 0)))] ++
  fetchZeros .GETX ++
  [.l1 0 (.response (response .DATA .L2Cache) fun _ => stored),
    .l2 (.unblock 0 (response .EXCLUSIVE_UNBLOCK (.L1Cache 0))),
    .home (.dma (dmaWrite len))]

/-- The line the L2 returns, dirty as the L1 has left it. -/
def returned : ResponseMsg 1 2 :=
  { type := .MEMORY_DATA, Sender := .L2Cache, DataBlk := stored, Dirty := true }

/-- The L2 recalls the line from the L1 and returns it. -/
def recallLine : List (Label 1 2) :=
  [.l2 (.responseFromDir (response .INV .Directory)),
    .l1 0 (.request (request .INV .L2Cache)),
    .l2 (.response 0 { returned with type := .DATA, Sender := .L1Cache 0 })]

/-- The L1 holds what it has written, dirty. -/
def holdsStored (g : Sys 1 2) : Prop :=
  (g.node 0).line.getState.holds = true ∧
    ∃ e ∈ (g.node 0).line.entry, e.Dirty = true ∧ e.DataBlk = stored

instance : DecidablePred holdsStored := fun g => by unfold holdsStored; infer_instance

theorem holdsDirty_stored {g : Sys 1 2} (h : holdsStored g) : g.HoldsDirty stored := by
  obtain ⟨hs, e, he, hb, hd⟩ := h
  exact .l1 hs he hb hd

/-- The L1 has written the line, and the directory waits for it. -/
theorem awaitsLine_stored (len : ℕ)
    (h : (((protocol 1 2).trace (fun g l => returns g l = true) (start fun _ => 0)
        (storeThenDMA len)).any fun g =>
      (step { g with latest := stored } (.home (.request (dmaWrite len)))).any fun g₁ =>
        ((protocol 1 2).trace (fun g l => g.home.dir.getState = .M_DWR ∧ returns g l = true) g₁
            recallLine).any fun g' =>
          decide (g.home.dir.getState = .M ∧ holdsStored g ∧ g.home.memory = (fun _ => 0) ∧
            g'.home.dir.getState = .M_DWR ∧ returned ∈ g'.home.responseToDir ∧
            g'.latest = stored)) = true) :
    ∃ g g', (protocol 1 2).Reach (fun g l => returns g l = true) g ∧ g.HoldsDirty stored ∧
      AwaitsLine (fun g l => returns g l = true) { g with latest := stored } (dmaWrite len) g' ∧
      returned ∈ g'.home.responseToDir ∧ g.home.memory = (fun _ => 0) ∧
      g'.latest = stored := by
  obtain ⟨g, hg, h⟩ := (Option.any_eq_true _ _).mp h
  obtain ⟨g₁, h₁, h⟩ := (Option.any_eq_true _ _).mp h
  obtain ⟨g', hr, hs, hd, hmem, hs', hret, hlat⟩ := Lib.Machine.trace_exists h
  exact ⟨g, g', ⟨_, _, started _, Lib.Machine.trace_run hg⟩, holdsDirty_stored hd,
    ⟨hs, rfl, ⟨g₁, recallLine, h₁, hr⟩, hs'⟩, hret, hmem, hlat⟩

end

end SttRuby.Protocol
