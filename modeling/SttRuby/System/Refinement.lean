import SttRuby.System.Cores

/-!
# System — Refinement

What the cores see of a line is a single block that all of them share.  `Versions` is such a block:
the values it has had, and how far each core has seen them.  A packet that is no load acts on the
current value and makes a new one; a load may be answered with an older value, but not with one
older than what its core has seen.

* **The cores are coherent** (`cores_coherent`).  Under the conditions in which no update is lost,
  the packets of all the cores are answered as by the block, in the order of their answers.
* **The cores are atomic** (`cores_atomic`).  If moreover no load is answered with a block that was
  invalidated on its way, every packet acts on the current value.

The simulation relates the block's current value to what the stores have made of the line, and
follows the blocks that are on their way to readers that have been invalidated (`Sim`).
-/

namespace SttRuby.System

open Protocol

section

variable {n B : ℕ}

/-! ### The block -/

structure Versions (n B : ℕ) where
  past : List (DataBlock B) := []
  current : DataBlock B
  seen : Fin n → ℕ := fun _ => 0

namespace Versions

variable (v : Versions n B)

def value (k : ℕ) : Option (DataBlock B) := (v.past ++ [v.current])[k]?

/-- The packet of the core `i` is answered from the `k`-th value. -/
def answer (i : Fin n) (h : Hit B) (k : ℕ) : Option (Versions n B) :=
  (v.value k).bind fun d =>
    if v.seen i ≤ k ∧ h.data = (hitData h.request h.success d).2 then
      if h.request.m_type.isLoad then some { v with seen := Function.update v.seen i k }
      else if k = v.past.length then
        some
          { past := v.past ++ [v.current]
            current := (hitData h.request h.success d).1
            seen := Function.update v.seen i (k + 1) }
      else none
    else none

/-- The packet acts on the current value, unless it may be late. -/
def Fresh (late : Bool) (v : Versions n B) (x : (Fin n × Hit B) × ℕ) : Prop :=
  late = true ∨ x.2 = v.past.length

end Versions

/-- The block, from its value in memory on. -/
def sharedBlock (n B : ℕ) : Lib.Machine (Versions n B) ((Fin n × Hit B) × ℕ) where
  start v := ∃ memory, v = { current := memory }
  step v x := v.answer x.1.1 x.1.2 x.2

variable {v v' : Versions n B} {i : Fin n} {c c' : Callback B} {r : SequencerRequest B}
  {dcache : Bool}

theorem Versions.value_current (v : Versions n B) : v.value v.past.length = some v.current := by
  simp [Versions.value]

theorem Versions.le_of_value {k : ℕ} {d : DataBlock B} (h : v.value k = some d) :
    k ≤ v.past.length := by
  have := (List.getElem?_eq_some_iff.mp h).1
  rw [List.length_append, List.length_singleton] at this
  omega

/-- What a load is given, and what it leaves. -/
theorem hitData_load (hr : r.m_type.isLoad = true) (b : Bool) (d : DataBlock B) :
    (hitData r b d).1 = d := by
  have : r.m_type.reads = true := by
    revert hr
    cases r.m_type <;> decide
  unfold hitData
  split_ifs <;> rfl

/-- A read callback leaves the block as it is. -/
theorem readLoop_data {rs rest : List (SequencerRequest B)}
    (htyped : ∀ r ∈ rs, r.pkt.requestTypes = some (r.m_type, r.m_second_type))
    (hl : readLoop dcache true rs c = some (rest, c')) : c'.data = c.data :=
  readLoop_keeps (J := fun c' => c'.data = c.data)
    (fun c' _ hr hc => (hitData_load hr true c'.data).trans hc) (fun _ _ hc => hc)
    (fun r hr => (Packet.type_of_requestTypes (htyped r hr)).1) rfl hl

/-! ### One callback -/

/-- The packets of the core `i` that have been answered, as answered by the block. -/
structure Replays (late : Bool) (v : Versions n B) (i : Fin n) (hits : List (Hit B))
    (ks : List ((Fin n × Hit B) × ℕ)) (v' : Versions n B) : Prop where
  run : (sharedBlock n B).Run (Versions.Fresh late) v ks v'
  answers : ks.map Prod.fst = hits.map (i, ·)
  others : ∀ j, j ≠ i → v'.seen j = v.seen j
  keeps : ∀ k d, v.value k = some d → v'.value k = some d
  seen : v'.seen i ≤ v'.past.length
  unseen : hits = [] → v'.seen i = v.seen i

/-- Nothing has been answered yet. -/
theorem Replays.nil {late : Bool} (hv : v.seen i ≤ v.past.length) : Replays late v i [] [] v :=
  ⟨.refl, rfl, fun _ _ => rfl, fun _ _ h => h, hv, fun _ => rfl⟩

theorem Replays.mono {late : Bool} {hits : List (Hit B)} {ks : List ((Fin n × Hit B) × ℕ)}
    (h : Replays false v i hits ks v') : Replays late v i hits ks v' :=
  ⟨h.run.mono fun _ _ => .inr ∘ (·.resolve_left (by decide)), h.answers, h.others, h.keeps, h.seen,
    h.unseen⟩

/-- One more load, from the `k`-th value. -/
theorem Replays.hit {late : Bool} {ks : List ((Fin n × Hit B) × ℕ)} {k : ℕ}
    (h : Replays late v i c.hits ks v') (hr : r.m_type.isLoad = true)
    (hk : v'.value k = some c.data) (hseen : v'.seen i ≤ k)
    (hl : late = true ∨ k = v'.past.length) :
    Replays late v i (c.hitCallback dcache r true).hits
      (ks ++ [((i, ⟨r, true, (hitData r true c.data).2⟩), k)])
      { v' with seen := Function.update v'.seen i k } := by
  refine ⟨h.run.snoc hl ?_, ?_, fun j hj => ?_, h.keeps, ?_, ?_⟩
  · simp [sharedBlock, Versions.answer, hk, hseen, hr]
  · simp [h.answers, Callback.hitCallback]
  · simpa [hj] using h.others j hj
  · simpa using Versions.le_of_value hk
  · simp [Callback.hitCallback]

/-- One more write, to the current value. -/
theorem Replays.write {late : Bool} {ks : List ((Fin n × Hit B) × ℕ)}
    (h : Replays late v i c.hits ks v') (hr : r.m_type.isLoad = false) (hd : v'.current = c.data) :
    ∃ ks' v'', Replays late v i (c.write dcache r).hits ks' v'' ∧
      v''.current = (c.write dcache r).data := by
  let success : Bool := r.m_type ≠ .Store_Conditional ∨ c.monitor
  refine ⟨ks ++ [((i, ⟨r, success, (hitData r success c.data).2⟩), v'.past.length)],
    { past := v'.past ++ [v'.current], current := (hitData r success c.data).1,
      seen := Function.update v'.seen i (v'.past.length + 1) },
    ⟨h.run.snoc (.inr rfl) ?_, ?_, fun j hj => ?_, fun k d hk => ?_, ?_, ?_⟩, rfl⟩
  · simp [sharedBlock, Versions.answer, Versions.value_current, h.seen, hr, hd]
  · simp [h.answers, Callback.write, Callback.hitCallback, success]
  · simpa [hj] using h.others j hj
  · have hk := h.keeps k d hk
    have hlt := (List.getElem?_eq_some_iff.mp hk).1
    change ((v'.past ++ [v'.current]) ++ [_])[k]? = some d
    rw [List.getElem?_append_left hlt]
    exact hk
  · simp
  · simp [Callback.write, Callback.hitCallback]

/-- A callback on the current value. -/
theorem Replays.loop {a : Answer} (ha : a = .read ∨ a = .write false)
    {rs rest : List (SequencerRequest B)}
    (htyped : ∀ r ∈ rs, r.pkt.requestTypes = some (r.m_type, r.m_second_type))
    (hv : v.seen i ≤ v.past.length) (hc : c.hits = []) (hd : v.current = c.data)
    (hl : a.loop dcache true rs c = some (rest, c')) :
    ∃ ks v', Replays false v i c'.hits ks v' ∧ v'.current = c'.data := by
  let J : Callback B → Prop := fun c =>
    ∃ ks v', Replays false v i c.hits ks v' ∧ v'.current = c.data
  have hit : ∀ c r, r.m_type.isLoad = true → J c → J (c.hitCallback dcache r true) := by
    rintro c r hr ⟨ks, v', h, hd⟩
    refine ⟨_, _, h.hit hr (hd ▸ v'.value_current) h.seen (.inr rfl), ?_⟩
    exact hd.trans (hitData_load hr true c.data).symm
  have write : ∀ c r, r.m_type.isLoad = false → J c → J (c.write dcache r) := by
    rintro c r hr ⟨ks, v', h, hd⟩
    exact h.write hr hd
  have issue : ∀ c r, J c → J (c.issueRequest r) := fun _ _ h => h
  have hJ : J c := ⟨[], v, hc ▸ .nil hv, hd⟩
  rcases ha with rfl | rfl
  · exact readLoop_keeps hit issue (fun r hr => (Packet.type_of_requestTypes (htyped r hr)).1) hJ hl
  · exact writeLoop_keeps hit write issue hJ hl

/-- A read callback on an older value, which leaves the current one alone. -/
theorem Replays.late {k : ℕ} {rs rest : List (SequencerRequest B)}
    (htyped : ∀ r ∈ rs, r.pkt.requestTypes = some (r.m_type, r.m_second_type))
    (hv : v.seen i ≤ k) (hk : v.value k = some c.data) (hc : c.hits = [])
    (hl : readLoop dcache true rs c = some (rest, c')) :
    ∃ ks v', Replays true v i c'.hits ks v' ∧ v'.current = v.current := by
  let J : Callback B → Prop := fun c' => ∃ ks v', Replays true v i c'.hits ks v' ∧
    v'.current = v.current ∧ v'.seen i ≤ k ∧ v'.value k = some c'.data
  have hit : ∀ c r, r.m_type.isLoad = true → J c → J (c.hitCallback dcache r true) := by
    rintro c r hr ⟨ks, v', h, hcur, hseen, hval⟩
    refine ⟨_, _, h.hit hr hval hseen (.inl rfl), hcur, by simp, ?_⟩
    exact hval.trans (congrArg some (hitData_load hr true c.data).symm)
  have issue : ∀ c r, J c → J (c.issueRequest r) := fun _ _ h => h
  have hJ : J c := ⟨[], v, hc ▸ .nil (hv.trans (Versions.le_of_value hk)), rfl, hv, hk⟩
  obtain ⟨ks, v', h, hcur, -⟩ := readLoop_keeps hit issue
    (fun r hr => (Packet.type_of_requestTypes (htyped r hr)).1) hJ hl
  exact ⟨ks, v', h, hcur⟩

/-! ### The block of a callback -/

/-- The events that call the core back, and those of them that bring a block. -/
def callEvents : List L1Cache.Event :=
  [.Load, .Ifetch, .Store, .Load_Linked, .Data_all_Acks, .DataS_fromL1, .Data_Exclusive,
    .LLSC_Data_all_Acks, .Ack_all, .LLSC_Ack_all]

def dataEvents : List L1Cache.Event :=
  [.Data_all_Acks, .DataS_fromL1, .Data_Exclusive, .LLSC_Data_all_Acks]

/-- Where the table has a callback, and where a reader that is invalidated comes from.  Before the
callback the block is written, or the L1 has it. -/
def calledCheck (s : L1Cache.State) (e : L1Cache.Event) (s' : L1Cache.State)
    (as : List L1Cache.Action) : Bool :=
  (as.all (fun a => callbackOf a = none) || (callEvents.contains e && s' ≠ .IS_I &&
    let pre := as.takeWhile fun a => callbackOf a = none
    ((pre = [] || pre = [.jj_sendExclusiveUnblock]) && s.holds ||
      (pre = [.u_writeDataToL1Cache] || pre = [.u_writeDataToL1Cache, .j_sendUnblock]) &&
        dataEvents.contains e))) &&
    (s' ≠ .IS_I || prefetching s || s = .IS_I || s = .IS && e = .Inv) &&
    (s ≠ .IS_I || !(as.filterMap callbackOf).contains (.write false))

theorem table_called : (L1Cache.table.all fun r => r.states.all fun s => r.events.all fun e =>
    calledCheck s e (r.next.getD s) r.actions) = true := by decide +kernel

section

variable {se : Bool} {inp : L1Cache.In n B} {t : Option RubyRequestType} {e : L1Cache.Event}
  {line : L1Cache.Line B} {k : Core B} {next : L1Cache.State} {actions : List L1Cache.Action}
  {ent : L1Cache.Entry B} {monitor : Bool}

/-- The entry of a callback: it is where it was, and its block is the L1's or the message's. -/
theorem CalledOn.block (htr : L1Cache.transition line.getState e = some (next, actions))
    (h : CalledOn se i inp t line k actions ent monitor) :
    e ∈ callEvents ∧ next ≠ .IS_I ∧ ∃ e₀, line.entry = some e₀ ∧ ent.icache = e₀.icache ∧
      monitor = (k.monitor && !e₀.icache) ∧
      (line.getState.holds = true ∧ ent.DataBlk = e₀.DataBlk ∨
        e ∈ dataEvents ∧ ∃ m, inp.response = some m ∧ ent.DataBlk = m.DataBlk) := by
  obtain ⟨pre, a, post, c, rfl, hpre, ha, hc, hent, rfl⟩ := h
  have hcheck := Lib.declared_check table_called htr
  have htake : (pre ++ a :: post).takeWhile (fun a => callbackOf a = none) = pre := by
    rw [List.takeWhile_append_of_pos (by simpa using hpre), List.takeWhile_cons_of_neg,
      List.append_nil]
    simpa [Option.isSome_iff_ne_none] using ha
  have hall : (pre ++ a :: post).all (fun a => callbackOf a = none) = false := by
    rw [List.all_eq_false]
    exact ⟨a, by simp, by simpa [Option.isSome_iff_ne_none] using ha⟩
  simp only [calledCheck, hall, htake, Bool.false_or, Bool.and_eq_true, List.contains_iff_mem,
    Bool.or_eq_true, decide_eq_true_eq] at hcheck
  obtain ⟨⟨⟨⟨hev, hnext⟩, hcases⟩, -⟩, -⟩ := hcheck
  refine ⟨hev, hnext, ?_⟩
  rcases hcases with ⟨rfl | rfl, hs⟩ | ⟨rfl | rfl, hs⟩
  · cases hc
    exact ⟨ent, hent, rfl, rfl, .inl ⟨hs, rfl⟩⟩
  · cases hc
    exact ⟨ent, hent, rfl, rfl, .inl ⟨hs, rfl⟩⟩
  · simp only [Lib.perform, L1Cache.exec, Option.bind_eq_some_iff, Option.map_eq_some_iff] at hc
    obtain ⟨c₁, ⟨m, hm, e₀, he₀, rfl⟩, hc⟩ := hc
    cases hc
    cases hent
    exact ⟨e₀, he₀, rfl, rfl, .inr ⟨hs, m, hm, rfl⟩⟩
  · simp only [Lib.perform, L1Cache.exec, Option.bind_eq_some_iff, Option.map_eq_some_iff,
      Option.some.injEq] at hc
    obtain ⟨c₁, ⟨m, hm, e₀, he₀, rfl⟩, c₂, rfl, rfl⟩ := hc
    cases hent
    exact ⟨e₀, he₀, rfl, rfl, .inr ⟨hs, m, hm, rfl⟩⟩

/-- The stores of an answer that does `w` to the block. -/
def Answer.stores (w : DataBlock B → DataBlock B) : Answer → List (DataBlock B → DataBlock B)
  | .write _ => [w]
  | _ => []

theorem exec_stores {a : L1Cache.Action} {x x' : L1Cache.Ctx n B}
    (h : L1Cache.exec i inp a x = some x') :
    x'.stores = x.stores ++ ((callbackOf a).toList.flatMap (Answer.stores inp.store)) := by
  cases a <;>
    simp only [L1Cache.exec, Option.bind_eq_some_iff, Option.map_eq_some_iff, Option.some.injEq,
      Option.ite_none_left_eq_some, Option.ite_none_right_eq_some] at h
  all_goals grind [callbackOf, Answer.stores, L1Cache.Ctx.setEntry, L1Cache.Ctx.setLock,
    L1Cache.Ctx.setTBE, L1Cache.Ctx.respond, L1Cache.Ctx.request, L1Cache.Ctx.unblock]

theorem perform_stores : ∀ {as : List L1Cache.Action} {x x' : L1Cache.Ctx n B},
    Lib.perform (L1Cache.exec i inp) as x = some x' →
    x'.stores = x.stores ++ (as.filterMap callbackOf).flatMap (Answer.stores inp.store)
  | [], _, _, h => by cases h; simp
  | a :: as, x, x', h => by
      obtain ⟨x₁, h₁, h₂⟩ := Option.bind_eq_some_iff.mp h
      rw [perform_stores h₂, exec_stores h₁]
      cases ha : callbackOf a <;> simp [ha]

variable {sys : Sys n B} {s : Stimulus n B} {w : DataBlock B → DataBlock B} {l : L1Label n B}

theorem response_data {m : ResponseMsg n B} (h : L1Cache.responseEvent line m = some e)
    (hev : e ∈ dataEvents) : m.type = .DATA ∨ m.type = .DATA_EXCLUSIVE := by
  unfold L1Cache.responseEvent at h
  split at h
  · exact .inr ‹_›
  · exact .inl ‹_›
  · obtain ⟨t, -, rfl⟩ := Option.map_eq_some_iff.mp h
    split_ifs at hev <;> exact absurd hev (by decide)
  · cases h
    exact absurd hev (by decide)
  all_goals cases h

/-- The stimulus of a callback: the store is the core's, and a block has come from the L2 or from
another L1. -/
theorem call_event (hl : s.label w = some l) (he : sys.l1Event i l = some (inp, e))
    (hev : e ∈ callEvents) : inp.store = w ∧ ∀ m, inp.response = some m → e ∈ dataEvents →
      (m.type = .DATA ∨ m.type = .DATA_EXCLUSIVE) ∧
        (s = .response m ∧ m ∈ (sys.node i).responseToL1Cache ∨
          ∃ j, (i, m) ∈ (sys.node j).responseBetweenL1s) := by
  cases s with
  | cpu t =>
      obtain ⟨t', -, rfl⟩ := Option.map_eq_some_iff.mp hl
      cases he
      exact ⟨rfl, by rintro m ⟨⟩⟩
  | replacement | llscTimeout =>
      cases hl
      simp only [Sys.l1Event, Option.ite_none_right_eq_some, Option.some.injEq,
        Prod.mk.injEq] at he
      obtain ⟨-, -, rfl⟩ := he
      exact absurd hev (by decide)
  | request m =>
      cases hl
      simp only [Sys.l1Event, Option.ite_none_right_eq_some, Option.map_eq_some_iff,
        Prod.mk.injEq] at he
      obtain ⟨-, e', he', -, rfl⟩ := he
      unfold L1Cache.requestEvent at he'
      split at he' <;> cases he' <;> exact absurd hev (by decide)
  | response m =>
      cases hl
      simp only [Sys.l1Event, Option.ite_none_right_eq_some, Option.map_eq_some_iff,
        Prod.mk.injEq] at he
      obtain ⟨hm, e', he', rfl, rfl⟩ := he
      refine ⟨rfl, ?_⟩
      rintro _ ⟨⟩ hd
      exact ⟨response_data he' hd, .inl ⟨rfl, hm⟩⟩
  | responseFromL1 j m =>
      cases hl
      simp only [Sys.l1Event, Option.ite_none_right_eq_some, Option.map_eq_some_iff,
        Prod.mk.injEq] at he
      obtain ⟨hm, e', he', rfl, rfl⟩ := he
      refine ⟨rfl, ?_⟩
      rintro _ ⟨⟩ hd
      exact ⟨response_data he' hd, .inr ⟨j, hm⟩⟩

/-- The block of a callback is up to date, unless it has come too late. -/
theorem CalledOn.current (hf : sys.Faithful)
    (htr : L1Cache.transition (sys.node i).line.getState e = some (next, actions))
    (hl : s.label w = some l) (he : sys.l1Event i l = some (inp, e))
    (h : CalledOn se i inp t (sys.node i).line k actions ent monitor) :
    ent.DataBlk = sys.latest ∨ (sys.node i).line.getState = .IS_I ∧
      ∃ m, s = .response m ∧ m ∈ (sys.node i).responseToL1Cache ∧ m.type = .DATA ∧
        ent.DataBlk = m.DataBlk := by
  obtain ⟨hev, -, e₀, he₀, -, -, ⟨hs, hd⟩ | ⟨hdata, m, hm, hd⟩⟩ := h.block htr
  · exact .inl (hd.trans (hf.held_current hs he₀))
  · obtain ⟨ht, ⟨hsm, hmem⟩ | ⟨j, hmem⟩⟩ := (call_event hl he hev).2 m hm hdata
    · rcases hf.due_current hmem ht with hok | ⟨hs, ht⟩
      · exact .inl (hd.trans hok)
      · exact .inr ⟨hs, m, hsm, hmem, ht, hd⟩
    · exact .inl (hd.trans (hf.peer_current hmem ht))

end

/-! ### Runs -/

/-- No load is answered with a block that was invalidated on its way. -/
def timely (g : Sys n B) : Label n B → Bool
  | .l1 i (.response m _) => m.type ≠ .DATA || (g.node i).line.getState ≠ .IS_I
  | _ => true

/-- What the block has to do with the system. -/
structure Sim (g : Cores n B) (ks : List ((Fin n × Hit B) × ℕ)) (v : Versions n B) : Prop where
  history : ks.map Prod.fst = g.history
  current : v.current = g.sys.latest
  seen : ∀ i, v.seen i ≤ v.past.length
  due : ∀ i, (g.sys.node i).line.getState = .IS_I → ∀ m ∈ (g.sys.node i).responseToL1Cache,
    m.type = .DATA → ∃ k, v.seen i ≤ k ∧ v.value k = some m.DataBlk

variable {g g' : Cores n B} {ks : List ((Fin n × Hit B) × ℕ)} {late se : Bool}

theorem Sim.init (memory : DataBlock B) :
    Sim ({ sys := start memory } : Cores n B) [] { current := memory } := by
  refine ⟨rfl, rfl, fun _ => le_rfl, ?_⟩
  rintro i hs
  cases hs

/-- The answers of the L2 are taken from their buffer by the L1 only. -/
theorem Cores.after_due {j : Fin n} {l : L1Label n B} {x : Turn n B} {m : ResponseMsg n B}
    (hm : m ∈ ((g.after i l x).sys.node j).responseToL1Cache) :
    m ∈ (g.sys.node j).responseToL1Cache := by
  unfold Cores.after Sys.afterL1 at hm
  by_cases hj : j = i
  · subst hj
    cases l with
    | response m' w =>
        simp only [Sys.l1Dequeue, Sys.setNode, Function.update_self, Node.afterL1] at hm
        exact mem_of_mem_dequeue hm
    | responseFromL1 j' m' w =>
        by_cases hj' : j = j'
        · subst hj'
          simpa [Sys.l1Dequeue, Sys.setNode, Node.afterL1] using hm
        · simpa [Sys.l1Dequeue, Sys.setNode, Node.afterL1, hj'] using hm
    | _ => simpa [Sys.l1Dequeue, Sys.setNode, Node.afterL1] using hm
  · cases l with
    | responseFromL1 j' m' w =>
        by_cases hj' : j = j'
        · subst hj'
          simpa [Sys.l1Dequeue, Sys.setNode, Node.afterL1, hj] using hm
        · simpa [Sys.l1Dequeue, Sys.setNode, Node.afterL1, hj, hj'] using hm
    | _ => simpa [Sys.l1Dequeue, Sys.setNode, Node.afterL1, hj] using hm

theorem Cores.after_latest (g : Cores n B) (i : Fin n) (l : L1Label n B) (x : Turn n B) :
    (g.after i l x).sys.latest = x.ctx.stores.foldl (fun d w => w d) g.sys.latest := by
  cases l <;> rfl

/-- What a write callback makes of the block is what its core's store does. -/
theorem Core.store_eq {k : Core B} {e₀ : L1Cache.Entry B} {d : DataBlock B}
    {rest : List (SequencerRequest B)} {c : Callback B}
    (h : writeLoop false (!e₀.icache) true k.m_RequestTable
      ⟨d, k.monitor && !e₀.icache, k.blocked, [], []⟩ = some (rest, c)) :
    k.store (some e₀) d = c.data := by
  simp [Core.store, h]

theorem doTransition_stores {inp : L1Cache.In n B} {e : L1Cache.Event} {line : L1Cache.Line B}
    {next : L1Cache.State} {actions : List L1Cache.Action} {x : L1Cache.Ctx n B}
    (htr : L1Cache.transition line.getState e = some (next, actions))
    (h : L1Cache.doTransition i inp e line = some x) :
    x.stores = (actions.filterMap callbackOf).flatMap (Answer.stores inp.store) := by
  obtain ⟨r, htr', h⟩ := Option.bind_eq_some_iff.mp h
  cases Option.some.inj (htr.symm.trans htr')
  obtain ⟨x₁, hx₁, rfl⟩ := Option.map_eq_some_iff.mp h
  exact perform_stores hx₁

/-- The answers of a transition, by the block. -/
theorem Sim.answered (hR : Sim g ks v) (hf : g.sys.Faithful) (hagree : g.Agree) {s : Stimulus n B}
    {l : L1Label n B} {inp : L1Cache.In n B} {e : L1Cache.Event} {x : Turn n B}
    {next : L1Cache.State} {actions : List L1Cache.Action}
    (hlate : late = true ∨ along timely g (.l1 i s)) (hl : s.label (g.store i) = some l)
    (he : g.sys.l1Event i l = some (inp, e))
    (hx : Cores.doTransition se i inp s.type e (g.sys.node i).line (g.core i) = some x)
    (htr : L1Cache.transition (g.sys.node i).line.getState e = some (next, actions))
    (hcalls : (g.core i).Calls (CalledOn se i inp s.type (g.sys.node i).line (g.core i) actions)
      x.core x.hits (actions.filterMap callbackOf)) :
    ∃ ks' v', Replays late v i x.hits ks' v' ∧
      v'.current = x.ctx.stores.foldl (fun d w => w d) g.sys.latest := by
  have htyped := (hagree.same i).typed
  rw [doTransition_stores htr (Cores.doTransition_ctx hx)]
  have hcases := callbacks_cases actions
  have hcheck := Lib.declared_check table_called htr
  generalize hA : actions.filterMap callbackOf = A at hcalls hcases
  cases hcalls with
  | none hr hb hm hh => exact ⟨[], v, hh ▸ .nil (hR.seen i), hR.current⟩
  | @one a ent monitor c hC hloop hk hb hm hh =>
      rw [hh]
      rcases hC.current hf htr hl he with hd | ⟨hs, m, rfl, hmem, ht, hd⟩
      · obtain ⟨ks', v', hrep, hcur⟩ := Replays.loop (hcases a (by simp)) htyped (hR.seen i)
          (c := ⟨ent.DataBlk, monitor, (g.core i).blocked, [], []⟩) rfl (hR.current.trans hd.symm)
          hloop
        refine ⟨ks', v', hrep.mono, hcur.trans ?_⟩
        obtain ⟨hev, -, e₀, he₀, hic, hmon, -⟩ := hC.block htr
        rcases hcases a (by simp) with rfl | rfl
        · exact (readLoop_data htyped hloop).trans hd
        · have hstore : inp.store = g.store i := (call_event hl he hev).1
          have hw : g.store i ent.DataBlk = c.data := by
            rw [hic, hmon] at hloop
            rw [Cores.store, he₀]
            exact Core.store_eq hloop
          simp [Answer.stores, hstore, ← hd, hw]
      · -- the block has come too late, and is used for loads only
        obtain rfl : late = true := by
          refine hlate.resolve_right fun hin => ?_
          have := hin (.l1 i (.response m (g.store i))) rfl
          simp [timely, ht, hs] at this
        obtain rfl : a = .read := by
          refine (hcases a (by simp)).resolve_right ?_
          rintro rfl
          simp [calledCheck, hs, hA] at hcheck
        obtain ⟨k, hseen, hval⟩ := hR.due i hs m hmem ht
        obtain ⟨ks', v', hrep, hcur⟩ := Replays.late htyped hseen
          (c := ⟨ent.DataBlk, monitor, (g.core i).blocked, [], []⟩) (hd ▸ hval) rfl hloop
        exact ⟨ks', v', hrep, hcur.trans hR.current⟩

/-- A reader that has been invalidated was one before, or is invalidated now; its core is not
called back. -/
theorem becomes_late {line : L1Cache.Line B} {k : Core B} {inp : L1Cache.In n B}
    {t : Option RubyRequestType} {e : L1Cache.Event} {x : Turn n B} {next : L1Cache.State}
    {actions : List L1Cache.Action} (hreg : Regular line.getState (mark line) = true)
    (hx : Cores.doTransition se i inp t e line k = some x)
    (htr : L1Cache.transition line.getState e = some (next, actions))
    (hcalls : k.Calls (CalledOn se i inp t line k actions) x.core x.hits
      (actions.filterMap callbackOf)) (hs : x.ctx.line.getState = .IS_I) :
    x.hits = [] ∧ (line.getState = .IS_I ∨ line.getState = .IS) := by
  obtain ⟨r, htr', hx⟩ := Option.bind_eq_some_iff.mp hx
  cases Option.some.inj (htr.symm.trans htr')
  obtain ⟨y, -, rfl⟩ := Option.map_eq_some_iff.mp hx
  obtain rfl : next = .IS_I := by
    rcases getState_setState y.ctx.line next with h | ⟨-, h⟩
    · exact h.symm.trans hs
    · cases h.symm.trans hs
  constructor
  · cases hcalls' : actions.filterMap callbackOf with
    | nil =>
        rw [hcalls'] at hcalls
        cases hcalls with
        | none _ _ _ hh => exact hh
    | cons a as =>
        rw [hcalls'] at hcalls
        cases hcalls with
        | one hC => exact absurd rfl (hC.block htr).2.1
  · have hcheck := Lib.declared_check table_called htr
    have hpf : prefetching line.getState = false := by
      simp only [Regular, Bool.and_eq_true, Bool.not_eq_true'] at hreg
      exact hreg.1.2
    simp only [calledCheck, hpf, Bool.and_eq_true, Bool.or_eq_true, decide_eq_true_eq] at hcheck
    rcases hcheck.1.2 with ((h | h) | h) | h
    · exact absurd rfl h
    · cases h
    · exact .inl h
    · exact .inr h.1

/-- **One step of an L1** is matched by the block. -/
theorem Sim.l1Step (hR : Sim g ks v) (hf : g.sys.Faithful) (hagree : g.Agree) {s : Stimulus n B}
    (hlate : late = true ∨ along timely g (.l1 i s)) (h : g.l1Step se i s = some g') :
    ∃ ks' v', (sharedBlock n B).Run (Versions.Fresh late) v ks' v' ∧ Sim g' (ks ++ ks') v' := by
  obtain ⟨l, inp, e, x, -, hl, he, hx, rfl⟩ := Cores.l1Step_some h
  obtain ⟨next, actions, htr, hcalls⟩ := Cores.doTransition_calls hx
  obtain ⟨ks', v', hrep, hcur⟩ := hR.answered hf hagree hlate hl he hx htr hcalls
  refine ⟨ks', v', hrep.run, ?_, by rw [hcur, Cores.after_latest], fun j => ?_,
    fun j hs m hm ht => ?_⟩
  · rw [List.map_append, hR.history, hrep.answers]
    rfl
  · by_cases hj : j = i
    · exact hj ▸ hrep.seen
    · rw [hrep.others j hj]
      exact (hR.seen j).trans (Versions.le_of_value (hrep.keeps _ _ v.value_current))
  · rw [Cores.after_line] at hs
    have hm' := Cores.after_due hm
    by_cases hj : j = i
    · subst hj
      rw [if_pos rfl] at hs
      obtain ⟨hits, hfrom⟩ := becomes_late (hagree.same j).regular hx htr hcalls hs
      rw [hrep.unseen hits]
      rcases hfrom with hfrom | hfrom
      · obtain ⟨k, hk, hval⟩ := hR.due j hfrom m hm' ht
        exact ⟨k, hk, hrep.keeps k _ hval⟩
      · -- the block on its way was still up to date when its reader was invalidated
        rcases hf.due_current hm' (.inl ht) with hd | ⟨hd, -⟩
        · exact ⟨v.past.length, hR.seen j,
            hrep.keeps _ _ (by rw [hd, ← hR.current]; exact v.value_current)⟩
        · rw [hfrom] at hd
          cases hd
    · rw [if_neg hj] at hs
      obtain ⟨k, hk, hval⟩ := hR.due j hs m hm' ht
      exact ⟨k, hrep.others j hj ▸ hk, hrep.keeps k _ hval⟩

theorem Sim.step (hR : Sim g ks v) (hf : g.sys.Faithful) (hagree : g.Agree) {l : CoresLabel n B}
    (hc : along careful g l) (hlate : late = true ∨ along timely g l)
    (h : g.step se l = some g') :
    ∃ ks' v', (sharedBlock n B).Run (Versions.Fresh late) v ks' v' ∧ Sim g' (ks ++ ks') v' := by
  cases l with
  | l1 i s => exact hR.l1Step hf hagree hlate h
  | makeRequest i pkt =>
      refine ⟨[], v, .refl, ?_⟩
      rw [List.append_nil]
      obtain rfl | ⟨p, t, -, -, rfl⟩ := Cores.makeRequest_cases h
      · exact hR
      · exact { hR with }
  | home l =>
      obtain ⟨h', -, rfl⟩ := Option.map_eq_some_iff.mp h
      exact ⟨[], v, .refl, by rw [List.append_nil]; exact { hR with }⟩
  | l2 l =>
      obtain ⟨sys, hs, rfl⟩ := Option.map_eq_some_iff.mp h
      have hc := hc (.l2 l) rfl
      simp only [careful, Bool.and_eq_true] at hc
      refine ⟨[], v, .refl, by rw [List.append_nil]; exact hR.history,
        hR.current.trans (Sys.l2Step_latest hs).symm, hR.seen, fun j hj m hm ht => ?_⟩
      rw [(Sys.l2Step_node hs j).1] at hj
      by_cases hold : m ∈ (g.sys.node j).responseToL1Cache
      · exact hR.due j hj m hold ht
      · have hd := hf.sent_current hc.1.1.1 hc.1.1.2 hs hm hold (.inl ht)
        exact ⟨v.past.length, hR.seen j, by rw [hd, ← hR.current]; exact v.value_current⟩

/-- The block follows the cores. -/
theorem simulated (late : Bool) {memory : DataBlock B} {ls : List (CoresLabel n B)}
    (h : (cores n B se).Run (fun g l => along careful g l ∧ (late = true ∨ along timely g l))
      { sys := start memory } ls g) :
    ∃ ks v, (sharedBlock n B).Run (Versions.Fresh late) { current := memory } ks v ∧
      Sim g ks v ∧ (cores n B se).Reach (along careful) g := by
  refine h.simulates (R := fun g ks v => Sim g ks v ∧ (cores n B se).Reach (along careful) g)
    ⟨.init memory, .init (cores_start se memory)⟩ ?_
  rintro g l g' ks v ⟨hR, hreach⟩ ⟨hc, hlate⟩ hstep
  obtain ⟨ks', v', hrun, hR'⟩ := hR.step (faithful_of_reach (sys_reach hreach))
    (agree_of_reach hreach) hc hlate hstep
  exact ⟨ks', v', hrun, hR', hreach.snoc hc hstep⟩

/-- **The cores are coherent.**  Where no update is lost, the packets of all the cores are answered
as by one block, and no core sees an older value after a newer one. -/
theorem cores_coherent {memory : DataBlock B} {ls : List (CoresLabel n B)}
    (h : (cores n B se).Run (along careful) { sys := start memory } ls g) :
    ∃ ks v, (sharedBlock n B).Run (fun _ _ => True) { current := memory } ks v ∧
      ks.map Prod.fst = g.history ∧ v.current = g.sys.latest := by
  obtain ⟨ks, v, hrun, hR, -⟩ := simulated true (h.mono fun _ _ hc => ⟨hc, .inl rfl⟩)
  exact ⟨ks, v, hrun.mono fun _ _ _ => trivial, hR.history, hR.current⟩

/-- Both cores load the line, the first one twice.  Before the second block is with it, the second
core has stored to the line. -/
def lateLoad : List (CoresLabel 2 1) :=
  [.makeRequest 1 loads, .l1 1 (.cpu .LD), .l2 (.request 1 (request .GETS (.L1Cache 1)))] ++
  (fetchZeros .GETS).filterMap beneath ++
  [.l1 1 (.response (response .DATA_EXCLUSIVE .L2Cache)),
    .l2 (.unblock 1 (response .EXCLUSIVE_UNBLOCK (.L1Cache 1))),
    .makeRequest 0 loads, .l1 0 (.cpu .LD),
    .l2 (.request 0 (request .GETS (.L1Cache 0))),
    .l1 1 (.request (request .GETS (.L1Cache 0))),
    .l1 0 (.responseFromL1 1 (response .DATA (.L1Cache 1))),
    .l2 (.response 1 (response .DATA (.L1Cache 1))),
    .l2 (.unblock 0 (response .UNBLOCK (.L1Cache 0))),
    .l1 0 .replacement, .makeRequest 0 loads, .l1 0 (.cpu .LD),
    .l2 (.request 0 (request .GETS (.L1Cache 0))),
    .makeRequest 1 (stores 7), .l1 1 (.cpu .ST),
    .l2 (.request 1 (request .UPGRADE (.L1Cache 1))),
    .l1 0 (.request (request .INV (.L1Cache 1))),
    .l1 1 (.response { type := .ACK, Sender := .L2Cache, AckCount := -1 }),
    .l1 1 (.responseFromL1 0 (invAck 0)),
    .l1 0 (.response (response .DATA .L2Cache))]

theorem cores_coherent_lateLoad : ∃ g ks v,
    (cores 2 1 true).Run (along careful) { sys := start fun _ => 0 } lateLoad g ∧
    g.history.map (fun x => (x.1, x.2.data)) =
      [(1, some [0]), (0, some [0]), (1, none), (0, some [0])] ∧ g.sys.latest 0 = 7 ∧
    (sharedBlock 2 1).Run (fun _ _ => True) { current := fun _ => 0 } ks v ∧
      ks.map Prod.fst = g.history ∧ v.current = g.sys.latest := by
  have h : (((cores 2 1 true).trace (along careful) { sys := start fun _ => 0 } lateLoad).any
      fun g => decide (g.history.map (fun x => (x.1, x.2.data)) =
        [(1, some [0]), (0, some [0]), (1, none), (0, some [0])] ∧ g.sys.latest 0 = 7)) = true := by
    decide +kernel
  obtain ⟨g, hrun, hg, hl⟩ := Lib.Machine.trace_exists h
  obtain ⟨ks, v, hv⟩ := cores_coherent hrun
  exact ⟨g, ks, v, hrun, hg, hl, hv⟩

/-- **The cores are atomic.**  If moreover no load is answered with a block that was invalidated on
its way, each packet acts on the current value. -/
theorem cores_atomic {memory : DataBlock B} {ls : List (CoresLabel n B)}
    (h : (cores n B se).Run (fun g l => along careful g l ∧ along timely g l)
      { sys := start memory } ls g) :
    ∃ ks v, (sharedBlock n B).Run (fun v x => x.2 = v.past.length) { current := memory } ks v ∧
      ks.map Prod.fst = g.history ∧ v.current = g.sys.latest := by
  obtain ⟨ks, v, hrun, hR, -⟩ := simulated false (h.mono fun _ _ hc => ⟨hc.1, .inr hc.2⟩)
  exact ⟨ks, v, hrun.mono fun _ _ hf => hf.resolve_left (by decide), hR.history, hR.current⟩

theorem cores_atomic_linked : ∃ g ks v,
    (cores 2 1 true).Run (fun g l => along careful g l ∧ along timely g l)
      { sys := start fun _ => 0 } linked g ∧
    g.history.map (fun x => (x.1, x.2.data)) = [(0, some [0]), (0, none)] ∧ g.sys.latest 0 = 5 ∧
    (sharedBlock 2 1).Run (fun v x => x.2 = v.past.length) { current := fun _ => 0 } ks v ∧
      ks.map Prod.fst = g.history ∧ v.current = g.sys.latest := by
  have h : (((cores 2 1 true).trace (fun g l => along careful g l ∧ along timely g l)
      { sys := start fun _ => 0 } linked).any fun g => decide
        (g.history.map (fun x => (x.1, x.2.data)) = [(0, some [0]), (0, none)] ∧
          g.sys.latest 0 = 5)) = true := by
    decide +kernel
  obtain ⟨g, hrun, hg, hl⟩ := Lib.Machine.trace_exists h
  obtain ⟨ks, v, hv⟩ := cores_atomic hrun
  exact ⟨g, ks, v, hrun, hg, hl, hv⟩

end

end SttRuby.System
