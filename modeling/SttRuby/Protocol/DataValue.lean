import SttRuby.Protocol.Coherence

/-!
# Protocol — Data value

The data-value invariant: under the conditions in which no update is lost (`careful`), every copy
that an L1 may read is what the stores have made of the line (`copies_current`), and so is every
block on its way to an L1, with one exception.  A block that the L2 has sent to a reader whose copy
was invalidated meanwhile, or is about to be, may be older; it is used for the loads that wait and
dropped (`Sys.Faithful.due_current`).  It was up to date when it was sent
(`Sys.Faithful.sent_current`).
-/

namespace SttRuby.Protocol

/-- The states with a copy of the line. -/
def L1Cache.State.holds : L1Cache.State → Bool
  | .S | .SM | .E | .M | .LLSC_E | .LLSC_M => true
  | _ => false

section

variable {n B : ℕ}

section

variable {ok : DataBlock B → Prop} {cur : Prop} {i : Fin n} {k : Kind} {l : L1Cache.Line B}
  {sent : Option (RequestMsg n B)} {due : Option (ResponseMsg n B)} {m : ResponseMsg n B}

theorem Kind.Is.held (h : k.Is ok cur i l sent due) (hs : l.getState.holds = true)
    {e : L1Cache.Entry B} (he : l.entry = some e) : ok e.DataBlk := by
  cases h with
  | shared x hx | owned _ x hx _ | upgrading x hx | upgraded _ x hx | collecting _ x hx =>
      cases he
      exact hx
  | @reading s hr | @readServed s hr | @grantedE s hr =>
      exfalso
      have hs : s.holds = true := hs
      revert hs hr
      cases s <;> decide
  | _ => cases hs

/-- Only a reader that has been invalidated may be sent an old block. -/
theorem Kind.Is.due_ok (h : k.Is ok cur i l sent (some m))
    (ht : m.type = .DATA ∨ m.type = .DATA_EXCLUSIVE) :
    ok m.DataBlk ∨ l.getState = .IS_I ∧ m.type = .DATA := by
  cases h with
  | filling _ _ _ d hd => exact .inl hd
  | granted _ _ _ b hb => exact .inl hb
  | grantedE _ _ _ b _ hb => exact .inl hb
  | readOnce => exact .inr ⟨rfl, rfl⟩
  | putDone | sinkDone | upgraded => rcases ht with ht | ht <;> cases ht

/-- The state of a reader without an answer may as well not be that of an invalidated one. -/
theorem Kind.Is.reread (h : k.Is ok cur i l sent none) (hs : l.getState = .IS_I) :
    k.Is ok cur i (l.setState .IS) sent none := by
  cases h with
  | absent | invalid | shared | writing | lostUpgrade | sinkPut | upgrading | putting
  | writeServed | collecting => cases hs
  | @owned s ho =>
      obtain rfl : s = .IS_I := hs
      cases ho
  | reading hr ht entry t hl => exact .reading rfl ht _ t hl
  | readServed hr entry t hl => exact .readServed rfl _ t hl

end

section

variable {ok : DataBlock B → Prop} {cur : Prop} {i : Fin n} {ρ : Role n} {nd : Node n B}
  {m : ResponseMsg n B}

theorem Role.Ok.held (h : ρ.Ok ok cur i nd) (hs : nd.line.getState.holds = true)
    {e : L1Cache.Entry B} (he : nd.line.entry = some e) : ok e.DataBlk := by
  obtain ⟨-, -, h⟩ := h
  exact h.held hs he

theorem Role.Ok.due_ok (h : ρ.Ok ok cur i nd) (hm : m ∈ nd.responseToL1Cache)
    (ht : m.type = .DATA ∨ m.type = .DATA_EXCLUSIVE) :
    ok m.DataBlk ∨ nd.line.getState = .IS_I ∧ m.type = .DATA := by
  obtain ⟨-, -, h⟩ := h
  rename_i due asked reply unblock peer _ _
  obtain rfl := Option.mem_toList.mp hm
  exact h.due_ok ht

theorem Role.Ok.peer_ok {j : Fin n} (h : ρ.Ok ok cur j nd) (hm : (i, m) ∈ nd.responseBetweenL1s)
    (ht : m.type = .DATA ∨ m.type = .DATA_EXCLUSIVE) : ok m.DataBlk := by
  rcases h.sent hm with ⟨-, rfl, -⟩ | ⟨⟨d, b, hd, -⟩, -⟩
  · rcases ht with ht | ht <;> cases ht
  · exact hd

theorem Role.Ok.reread (h : ρ.Ok ok cur i nd) (hs : nd.line.getState = .IS_I)
    (hn : nd.responseToL1Cache = []) :
    ρ.Ok ok cur i { nd with line := nd.line.setState .IS } := by
  obtain ⟨hP, hk, h⟩ := h
  rename_i due asked reply unblock peer
  obtain rfl : due = none := by
    cases due with
    | none => rfl
    | some m => cases hn
  exact ⟨hP, hk, h.reread hs⟩

/-- A node has at most one answer. -/
theorem Role.Ok.one_due (h : ρ.Ok ok cur i nd) : nd.responseToL1Cache.length ≤ 1 := by
  obtain ⟨-, -, -⟩ := h
  rename_i due _ _ _ _ _ _ _
  cases due <;> simp [Node.of]

end

/-! ### The blocks of a faithful system -/

section

variable {g g' : Sys n B} {i j : Fin n} {m : ResponseMsg n B}

theorem Sys.Faithful.held_current (hg : g.Faithful) (hs : (g.node i).line.getState.holds = true)
    {e : L1Cache.Entry B} (he : (g.node i).line.entry = some e) : e.DataBlk = g.latest := by
  obtain ⟨φ, d, -, hn⟩ := hg.coherent
  exact (hn i).held hs he

theorem Sys.Faithful.due_current (hg : g.Faithful) (hm : m ∈ (g.node i).responseToL1Cache)
    (ht : m.type = .DATA ∨ m.type = .DATA_EXCLUSIVE) :
    m.DataBlk = g.latest ∨ (g.node i).line.getState = .IS_I ∧ m.type = .DATA := by
  obtain ⟨φ, d, -, hn⟩ := hg.coherent
  exact (hn i).due_ok hm ht

theorem Sys.Faithful.peer_current (hg : g.Faithful) (hm : (i, m) ∈ (g.node j).responseBetweenL1s)
    (ht : m.type = .DATA ∨ m.type = .DATA_EXCLUSIVE) : m.DataBlk = g.latest := by
  obtain ⟨φ, d, -, hn⟩ := hg.coherent
  exact (hn j).peer_ok hm ht

/-- **The data-value invariant.**  Whatever copy of the line an L1 may read is what the stores have
made of it. -/
theorem copies_current (h : (protocol n B).Reach (fun g l => careful g l = true) g)
    (hs : (g.node i).line.getState.holds = true) {e : L1Cache.Entry B}
    (he : (g.node i).line.entry = some e) : e.DataBlk = g.latest :=
  (faithful_of_reach h).held_current hs he

/-- The first L1 stores 1; the second reads the line from it. -/
def storedAndRead : List (Label 2 1) :=
  [.l1 0 (.cpu .ST id), .l2 (.request 0 (request .GETX (.L1Cache 0)))] ++
  fetchZeros .GETX ++
  [.l1 0 (.response (response .DATA .L2Cache) fun _ => block 1),
    .l2 (.unblock 0 (response .EXCLUSIVE_UNBLOCK (.L1Cache 0))),
    .l1 1 (.cpu .LD id), .l2 (.request 1 (request .GETS (.L1Cache 1))),
    .l1 0 (.request (request .GETS (.L1Cache 1))),
    .l1 1 (.responseFromL1 0
      { type := .DATA, Sender := .L1Cache 0, DataBlk := block 1, Dirty := true } id)]

theorem copies_current_storedAndRead :
    ∃ (g : Sys 2 1) (e : L1Cache.Entry 1), (protocol 2 1).Reach (fun g l => careful g l = true) g ∧
      (g.node 1).line.getState = .S ∧ (g.node 1).line.entry = some e ∧ g.latest = block 1 ∧
      e.DataBlk = g.latest := by
  have h : (((protocol 2 1).trace (fun g l => careful g l = true) (start fun _ => 0)
      storedAndRead).any fun g => decide ((g.node 1).line.getState = .S ∧
        (g.node 1).line.entry.isSome = true ∧ g.latest = block 1)) = true := by decide +kernel
  obtain ⟨g, hreach, hs, he, hl⟩ := Lib.Machine.trace_reaches (started _) h
  obtain ⟨e, he⟩ := Option.isSome_iff_exists.mp he
  exact ⟨g, e, hreach, hs, he, hl, copies_current hreach (by rw [hs]; rfl) he⟩

/-- The state with another line at the L1 `i`. -/
def Sys.setLine (g : Sys n B) (i : Fin n) (l : L1Cache.Line B) : Sys n B :=
  g.setNode i { g.node i with line := l }

/-- The L2 does not look at the lines of the L1s. -/
theorem Sys.l2Step_setLine (g : Sys n B) (i : Fin n) (line : L1Cache.Line B) (l : L2Label n B) :
    (g.setLine i line).l2Step l = (g.l2Step l).map fun g' => g'.setLine i line := by
  have he : (g.setLine i line).l2Event l = g.l2Event l := by
    cases l with
    | request j m | response j m | unblock j m =>
        by_cases hj : j = i
        · subst hj
          simp [Sys.l2Event, Sys.setLine, Sys.setNode]
        · simp [Sys.l2Event, Sys.setLine, Sys.setNode, hj]
    | responseFromDir m | replacement => rfl
  have hd : ∀ c : L2Cache.Ctx n B, ((g.setLine i line).l2Dequeue c.popped l).afterL2 c =
      ((g.l2Dequeue c.popped l).afterL2 c).setLine i line := by
    intro c
    cases l with
    | request j m | response j m | unblock j m =>
        by_cases hj : j = i
        · subst hj
          simp only [Sys.afterL2, Sys.setLine, Sys.l2Dequeue, Sys.setNode]
          congr 1
          funext k
          by_cases hk : k = j
          · subst hk
            simp [Node.receive]
          · simp [hk, Node.receive]
        · simp only [Sys.afterL2, Sys.setLine, Sys.l2Dequeue, Sys.setNode]
          congr 1
          funext k
          by_cases hk : k = i
          · subst hk
            simp [Node.receive, Ne.symm hj]
          · by_cases hk' : k = j
            · subst hk'
              simp [Node.receive, hk]
            · simp [hk, hk', Node.receive]
    | responseFromDir m | replacement =>
        simp only [Sys.afterL2, Sys.setLine, Sys.l2Dequeue, Sys.setNode]
        congr 1
        funext k
        by_cases hk : k = i
        · subst hk
          simp [Node.receive]
        · simp [hk, Node.receive]
  unfold Sys.l2Step
  rw [he]
  cases g.l2Event l with
  | none => rfl
  | some r =>
      obtain ⟨inp, e⟩ := r
      change ((L2Cache.doTransition inp e g.l2).map _) = _
      simp only [Option.bind_some, Option.map_map]
      exact congrArg (Option.map · _) (funext hd)

theorem Sys.Faithful.setLine (hg : g.Faithful) {line : L1Cache.Line B}
    (h : ∀ {ρ : Role n} {cur : Prop}, ρ.Ok (· = g.latest) cur i (g.node i) →
      ρ.Ok (· = g.latest) cur i { g.node i with line := line }) : (g.setLine i line).Faithful := by
  refine ⟨?_, hg.homed, fun j r hr => ?_⟩
  · obtain ⟨φ, d, hl2, hn⟩ := hg.coherent
    refine ⟨φ, d, hl2, fun j => ?_⟩
    by_cases hj : j = i
    · subst hj
      simp only [Sys.setLine, Sys.setNode, Function.update_self]
      exact h (hn j)
    · simpa [Sys.setLine, Sys.setNode, hj] using hn j
  · by_cases hj : j = i
    · subst hj
      exact hg.signed j r (by simpa [Sys.setLine, Sys.setNode] using hr)
    · exact hg.signed j r (by simpa [Sys.setLine, Sys.setNode, hj] using hr)

theorem Sys.l2Step_latest {l : L2Label n B} (h : g.l2Step l = some g') : g'.latest = g.latest := by
  obtain ⟨⟨inp, e⟩, -, h⟩ := Option.bind_eq_some_iff.mp h
  obtain ⟨c, -, rfl⟩ := Option.map_eq_some_iff.mp h
  cases l <;> rfl

/-- A step of the L2 leaves the lines of the L1s as they are, and adds to the answers. -/
theorem Sys.l2Step_node {l : L2Label n B} (h : g.l2Step l = some g') (i : Fin n) :
    (g'.node i).line = (g.node i).line ∧
      ∃ new, (g'.node i).responseToL1Cache = (g.node i).responseToL1Cache ++ new := by
  obtain ⟨⟨inp, e⟩, -, h⟩ := Option.bind_eq_some_iff.mp h
  obtain ⟨c, -, rfl⟩ := Option.map_eq_some_iff.mp h
  cases l with
  | request j m | response j m | unblock j m =>
      by_cases hj : i = j
      · subst hj
        simp [Sys.afterL2, Sys.l2Dequeue, Node.receive, Sys.setNode]
      · simp [Sys.afterL2, Sys.l2Dequeue, Node.receive, Sys.setNode, hj]
  | responseFromDir m | replacement => simp [Sys.afterL2, Sys.l2Dequeue, Node.receive]

/-- What the L2 sends is up to date, also if it is for a reader that has been invalidated. -/
theorem Sys.Faithful.sent_current (hg : g.Faithful) {l : L2Label n B}
    (hA : recallsAlone g (.l2 l) = true) (hB : meetsLine g (.l2 l) = true)
    (h : g.l2Step l = some g') (hm : m ∈ (g'.node i).responseToL1Cache)
    (hnew : m ∉ (g.node i).responseToL1Cache)
    (ht : m.type = .DATA ∨ m.type = .DATA_EXCLUSIVE) : m.DataBlk = g.latest := by
  obtain ⟨hline, new, hresp⟩ := Sys.l2Step_node h i
  have hlatest := Sys.l2Step_latest h
  have hg' := hg.l2Step hA hB h
  rcases hg'.due_current hm ht with hd | ⟨hs, -⟩
  · rwa [hlatest] at hd
  -- had the reader not been invalidated yet, the L2 would have sent it the same
  rw [hline] at hs
  have hnil : (g.node i).responseToL1Cache = [] := by
    obtain ⟨φ, d, -, hn⟩ := hg'.coherent
    have hone := (hn i).one_due
    rw [hresp, List.length_append] at hone
    by_contra hne
    have hpos := List.length_pos_iff.mpr hne
    have : new = [] := List.length_eq_zero_iff.mp (by omega)
    rw [hresp, this, List.append_nil] at hm
    exact hnew hm
  have hstep : (g.setLine i ((g.node i).line.setState .IS)).l2Step l =
      some (g'.setLine i ((g.node i).line.setState .IS)) := by
    rw [Sys.l2Step_setLine, h]
    rfl
  have hg₁ := (hg.setLine fun hρ => hρ.reread hs hnil).l2Step hA hB hstep
  rcases hg₁.due_current (i := i) (m := m) (by simpa [Sys.setLine, Sys.setNode] using hm) ht with
    hd | ⟨hs', -⟩
  · exact hd.trans hlatest
  · exfalso
    have hIS : ((g.node i).line.setState .IS).getState = .IS := by
      cases hl : (g.node i).line with
      | mk entry tbe lock =>
          rw [hl] at hs
          cases entry <;> cases tbe <;> first | rfl | cases hs
    simp [Sys.setLine, Sys.setNode, hIS] at hs'

end

end

end SttRuby.Protocol
