import Mathlib.Data.List.Basic
import Mathlib.Logic.Function.Basic
import SttRuby.Cache.Memory
import SttRuby.Lib.Slicc

/-!
# Protocol — Stalls

The stalled messages of a controller: the part of `AbstractController` and of its
`MessageBuffer`s that sets a message aside under an address and puts it back.  `stall_and_wait`
moves the message at a port from the heap of its buffer to the buffer's stall map, and notes the
buffer in `m_waiting_buffers` under the address, at the rank of the port.  `wakeUpBuffers` puts
back what is stalled under an address in the buffers noted at the ranks below the port at hand,
and then forgets all that is noted there, at the higher ranks too.

`Recorded` says that the notes are right: what is stalled is noted, and what is noted is stalled.
A wake-up from above every buffer with messages under the address finds them all
(`wakeUpBuffers_woken`).
-/

namespace SttRuby.Protocol

open Cache (Addr)

/-- The buffers of a controller.  A port may find any message of its heap in front; it is served
before or after the others by their times of arrival, which are not modelled. -/
structure Queues (β μ : Type) where
  m_prio_heap : β → List μ := fun _ => []
  m_stall_msg_map : β → Addr → List μ := fun _ _ => []
  m_waiting_buffers : Addr → Option (ℕ → Option β) := fun _ => none

namespace Queues

section Calls

variable {β μ : Type} [DecidableEq β] [DecidableEq μ] (q : Queues β μ)

def enqueue (buf : β) (m : μ) : Queues β μ :=
  { q with m_prio_heap := Function.update q.m_prio_heap buf (q.m_prio_heap buf ++ [m]) }

/-- `none` if the message is not there. -/
def dequeue (buf : β) (m : μ) : Option (Queues β μ) :=
  if m ∈ q.m_prio_heap buf then
    some { q with
      m_prio_heap := Function.update q.m_prio_heap buf ((q.m_prio_heap buf).erase m) }
  else none

/-- Notes the buffer under the address, at the rank of the port at hand. -/
def stallBuffer (m_cur_in_port : ℕ) (buf : β) (addr : Addr) : Queues β μ :=
  let msgVec := (q.m_waiting_buffers addr).getD fun _ => none
  { q with
    m_waiting_buffers := Function.update q.m_waiting_buffers addr
      (some (Function.update msgVec m_cur_in_port (some buf))) }

def stallMessage (buf : β) (addr : Addr) (m : μ) : Option (Queues β μ) :=
  (q.dequeue buf m).map fun q =>
    { q with
      m_stall_msg_map := Function.update q.m_stall_msg_map buf
        (Function.update (q.m_stall_msg_map buf) addr (q.m_stall_msg_map buf addr ++ [m])) }

/-- What SLICC makes of `stall_and_wait`. -/
def stall_and_wait (m_cur_in_port : ℕ) (buf : β) (addr : Addr) (m : μ) : Option (Queues β μ) :=
  (q.stallBuffer m_cur_in_port buf addr).stallMessage buf addr m

/-- `none` if nothing is stalled under the address: the buffer asserts that something is. -/
def reanalyzeMessages (buf : β) (addr : Addr) : Option (Queues β μ) :=
  if (q.m_stall_msg_map buf addr).isEmpty then none
  else some { q with
    m_prio_heap := Function.update q.m_prio_heap buf
      (q.m_prio_heap buf ++ q.m_stall_msg_map buf addr)
    m_stall_msg_map := Function.update q.m_stall_msg_map buf
      (Function.update (q.m_stall_msg_map buf) addr []) }

/-- One round of the loop of `wakeUpBuffers`. -/
def wakeUpRank (addr : Addr) (msgVec : ℕ → Option β) (in_port_rank : ℕ) (q : Queues β μ) :
    Option (Queues β μ) :=
  match msgVec in_port_rank with
  | none => some q
  | some buf => q.reanalyzeMessages buf addr

def wakeUpBuffers (m_cur_in_port : ℕ) (addr : Addr) : Option (Queues β μ) :=
  match q.m_waiting_buffers addr with
  | none => some q
  | some msgVec =>
      (Lib.perform (wakeUpRank addr msgVec) (List.range m_cur_in_port).reverse q).map fun q =>
        { q with m_waiting_buffers := Function.update q.m_waiting_buffers addr none }

end Calls

/-! ### The notes -/

variable {β μ : Type} {rank : β → ℕ} {q q' : Queues β μ} {buf : β} {m : μ} {addr : Addr}

/-- Every buffer is noted, at its rank, under the addresses it has messages stalled under, and
under no others. -/
structure Recorded (rank : β → ℕ) (q : Queues β μ) : Prop where
  noted : ∀ buf a, q.m_stall_msg_map buf a ≠ [] →
    ∃ v, q.m_waiting_buffers a = some v ∧ v (rank buf) = some buf
  stalled : ∀ a v r buf, q.m_waiting_buffers a = some v → v r = some buf →
    r = rank buf ∧ q.m_stall_msg_map buf a ≠ []

theorem Recorded.init (rank : β → ℕ) : Recorded rank ({} : Queues β μ) := ⟨nofun, nofun⟩

/-- The heaps have no part in it. -/
theorem Recorded.congr (h : q.Recorded rank) (hs : q'.m_stall_msg_map = q.m_stall_msg_map)
    (hw : q'.m_waiting_buffers = q.m_waiting_buffers) : q'.Recorded rank := by
  refine ⟨fun buf a hne => ?_, fun a v r buf hv hr => ?_⟩
  · rw [hs] at hne
    rw [hw]
    exact h.noted buf a hne
  · rw [hw] at hv
    rw [hs]
    exact h.stalled a v r buf hv hr

section

variable [DecidableEq β] [DecidableEq μ]

theorem dequeue_eq (h : q.dequeue buf m = some q') :
    q'.m_stall_msg_map = q.m_stall_msg_map ∧ q'.m_waiting_buffers = q.m_waiting_buffers := by
  unfold dequeue at h
  split_ifs at h
  cases h
  exact ⟨rfl, rfl⟩

/-- A message that is there can be stalled. -/
theorem stall_and_wait_of_mem (hm : m ∈ q.m_prio_heap buf) (cur : ℕ) (addr : Addr) :
    ∃ q', q.stall_and_wait cur buf addr m = some q' := by
  simp [Queues.stall_and_wait, stallMessage, Queues.dequeue, stallBuffer, hm]

/-- What `stall_and_wait` leaves. -/
theorem stall_and_wait_eq {cur : ℕ} (h : q.stall_and_wait cur buf addr m = some q') :
    (∀ b a, q'.m_stall_msg_map b a =
      if b = buf ∧ a = addr then q.m_stall_msg_map buf addr ++ [m] else q.m_stall_msg_map b a) ∧
    ∀ a, q'.m_waiting_buffers a = if a = addr then
      some (Function.update ((q.m_waiting_buffers addr).getD fun _ => none) cur (some buf))
      else q.m_waiting_buffers a := by
  obtain ⟨q₁, h₁, rfl⟩ := Option.map_eq_some_iff.mp h
  obtain ⟨hs, hw⟩ := dequeue_eq h₁
  refine ⟨fun b a => ?_, fun a => ?_⟩
  · dsimp only
    rw [hs]
    by_cases hb : b = buf
    · subst hb
      by_cases ha : a = addr <;> simp [ha, stallBuffer]
    · simp [hb, stallBuffer]
  · dsimp only
    rw [hw]
    simp [stallBuffer, Function.update_apply]

theorem Recorded.stall_and_wait (hinj : Function.Injective rank) (h : q.Recorded rank)
    (hs : q.stall_and_wait (rank buf) buf addr m = some q') : q'.Recorded rank := by
  obtain ⟨hmap, hwait⟩ := stall_and_wait_eq hs
  refine ⟨fun b a hne => ?_, fun a v r b hv hr => ?_⟩
  · rw [hwait]
    split_ifs with ha
    · subst ha
      refine ⟨_, rfl, ?_⟩
      by_cases hb : b = buf
      · rw [hb, Function.update_self]
      · rw [hmap, if_neg fun hba => hb hba.1] at hne
        obtain ⟨v, hv, hvb⟩ := h.noted b a hne
        rw [Function.update_of_ne (hinj.ne hb), hv]
        exact hvb
    · rw [hmap, if_neg fun hba => ha hba.2] at hne
      exact h.noted b a hne
  · rw [hwait] at hv
    rw [hmap]
    split_ifs at hv with ha
    · subst ha
      cases hv
      by_cases hrr : r = rank buf
      · subst hrr
        rw [Function.update_self] at hr
        cases hr
        exact ⟨rfl, by simp⟩
      · rw [Function.update_of_ne hrr] at hr
        cases hv : q.m_waiting_buffers a with
        | none => rw [hv] at hr; cases hr
        | some v =>
            rw [hv] at hr
            obtain ⟨rfl, hne⟩ := h.stalled a v r b hv hr
            exact ⟨rfl, by rwa [if_neg fun hba => hrr (congrArg rank hba.1)]⟩
    · rw [if_neg fun hba => ha hba.2]
      exact h.stalled a v r b hv hr

end

/-! ### Wake-ups -/

/-- All that was stalled under the address is back, and its note is gone. -/
structure Woken (addr : Addr) (q q' : Queues β μ) : Prop where
  stalled : ∀ b a, q'.m_stall_msg_map b a = if a = addr then [] else q.m_stall_msg_map b a
  waiting : ∀ a, q'.m_waiting_buffers a = if a = addr then none else q.m_waiting_buffers a
  heap : ∀ b x, x ∈ q'.m_prio_heap b ↔
    x ∈ q.m_prio_heap b ∨ x ∈ q.m_stall_msg_map b addr

theorem Woken.recorded (h : q.Recorded rank) (hw : Woken addr q q') : q'.Recorded rank := by
  refine ⟨fun b a hne => ?_, fun a v r b hv hr => ?_⟩
  · rw [hw.stalled] at hne
    split_ifs at hne with ha
    · exact absurd rfl hne
    · rw [hw.waiting, if_neg ha]
      exact h.noted b a hne
  · rw [hw.waiting] at hv
    split_ifs at hv with ha
    rw [hw.stalled, if_neg ha]
    exact h.stalled a v r b hv hr

variable [DecidableEq β]

theorem reanalyzeMessages_eq (hne : q.m_stall_msg_map buf addr ≠ []) :
    ∃ q', q.reanalyzeMessages buf addr = some q' ∧
      q'.m_waiting_buffers = q.m_waiting_buffers ∧
      (∀ b a, q'.m_stall_msg_map b a =
        if b = buf ∧ a = addr then [] else q.m_stall_msg_map b a) ∧
      ∀ b x, x ∈ q'.m_prio_heap b ↔
        x ∈ q.m_prio_heap b ∨ b = buf ∧ x ∈ q.m_stall_msg_map b addr := by
  rw [reanalyzeMessages, if_neg (by simpa using hne)]
  refine ⟨_, rfl, rfl, fun b a => ?_, fun b x => ?_⟩
  · by_cases hb : b = buf
    · subst hb
      simp [Function.update_apply]
    · simp [hb]
  · by_cases hb : b = buf
    · subst hb
      simp
    · simp [hb]

/-- The rounds for a list of ranks, under right notes. -/
theorem wakeUpRanks {v : ℕ → Option β} : ∀ {rs : List ℕ} {q : Queues β μ}, rs.Nodup →
    (∀ r buf, v r = some buf → r = rank buf) →
    (∀ buf, rank buf ∈ rs → (q.m_stall_msg_map buf addr ≠ [] ↔ v (rank buf) = some buf)) →
    ∃ q', Lib.perform (wakeUpRank addr v) rs q = some q' ∧
      q'.m_waiting_buffers = q.m_waiting_buffers ∧
      (∀ b a, q'.m_stall_msg_map b a =
        if a = addr ∧ rank b ∈ rs then [] else q.m_stall_msg_map b a) ∧
      ∀ b x, x ∈ q'.m_prio_heap b ↔
        x ∈ q.m_prio_heap b ∨ rank b ∈ rs ∧ x ∈ q.m_stall_msg_map b addr
  | [], q, _, _, _ => ⟨q, rfl, rfl, by simp, by simp⟩
  | r :: rs, q, hnd, hv, hn => by
      obtain ⟨hr, hnd'⟩ := List.nodup_cons.mp hnd
      cases hvr : v r with
      | none =>
          -- no buffer of this rank has a message under the address
          have hempty : ∀ b, rank b = r → q.m_stall_msg_map b addr = [] := by
            intro b hb
            by_contra hne
            have := (hn b (by simp [hb])).mp hne
            rw [hb, hvr] at this
            cases this
          obtain ⟨q', hq', hw, hs, hh⟩ := wakeUpRanks (q := q) hnd' hv
            fun b hb => hn b (List.mem_cons_of_mem r hb)
          refine ⟨q', ?_, hw, fun b a => ?_, fun b x => ?_⟩
          · rw [Lib.perform, wakeUpRank, hvr]
            exact hq'
          · rw [hs]
            grind
          · rw [hh]
            grind
      | some buf =>
          obtain rfl := hv r buf hvr
          have hne := (hn buf (by simp)).mpr hvr
          obtain ⟨q₁, hq₁, hw₁, hs₁, hh₁⟩ := reanalyzeMessages_eq hne
          have hrank : ∀ b, rank b ∈ rs → b ≠ buf := fun b hb heq => hr (heq ▸ hb)
          obtain ⟨q', hq', hw, hs, hh⟩ := wakeUpRanks (q := q₁) hnd' hv fun b hb => by
            rw [hs₁, if_neg fun hba => hrank b hb hba.1]
            exact hn b (List.mem_cons_of_mem _ hb)
          -- the note of a rank is for one buffer, so that no other of the rank has messages
          have hother : ∀ b, rank b = rank buf → b ≠ buf → q.m_stall_msg_map b addr = [] := by
            intro b hb hne'
            by_contra hne''
            have := (hn b (by simp [hb])).mp hne''
            rw [hb, hvr] at this
            exact hne' (Option.some.inj this).symm
          refine ⟨q', ?_, hw.trans hw₁, fun b a => ?_, fun b x => ?_⟩
          · rw [Lib.perform, wakeUpRank, hvr]
            exact Option.bind_eq_some_iff.mpr ⟨q₁, hq₁, hq'⟩
          · rw [hs, hs₁]
            grind
          · rw [hh, hh₁, hs₁]
            grind

/-- **A wake-up from above.**  From a port above all the buffers with messages under the address,
a wake-up fails no assertion and puts all of them back. -/
theorem wakeUpBuffers_woken {cur : ℕ} (h : q.Recorded rank)
    (hcur : ∀ buf, q.m_stall_msg_map buf addr ≠ [] → rank buf < cur) :
    ∃ q', q.wakeUpBuffers cur addr = some q' ∧ Woken addr q q' := by
  cases hv : q.m_waiting_buffers addr with
  | none =>
      have hempty : ∀ b, q.m_stall_msg_map b addr = [] := by
        intro b
        by_contra hne
        obtain ⟨v, hv', -⟩ := h.noted b addr hne
        rw [hv] at hv'
        cases hv'
      refine ⟨q, by rw [wakeUpBuffers, hv], fun b a => ?_, fun a => ?_, fun b x => ?_⟩
      · grind
      · grind
      · simp [hempty]
  | some v =>
      have hlt : ∀ buf, q.m_stall_msg_map buf addr ≠ [] ↔ v (rank buf) = some buf := by
        intro buf
        refine ⟨fun hne => ?_, fun hb => (h.stalled addr v _ buf hv hb).2⟩
        obtain ⟨v', hv', hb⟩ := h.noted buf addr hne
        rw [hv] at hv'
        cases hv'
        exact hb
      obtain ⟨q', hq', hw, hs, hh⟩ := wakeUpRanks (q := q) (v := v)
        ((List.range cur).reverse_perm.nodup_iff.mpr List.nodup_range)
        (fun r buf hr => (h.stalled addr v r buf hv hr).1) fun buf _ => hlt buf
      refine ⟨_, by rw [wakeUpBuffers, hv]; exact Option.map_eq_some_iff.mpr ⟨q', hq', rfl⟩,
        fun b a => ?_, fun a => ?_, fun b x => ?_⟩
      · rw [hs]
        by_cases hne : q.m_stall_msg_map b addr = []
        · grind
        · simp [hcur b hne]
      · simp [hw, Function.update_apply]
      · rw [hh]
        by_cases hne : q.m_stall_msg_map b addr = []
        · simp [hne]
        · simp [hcur b hne]

theorem reanalyzeMessages_of_ne {b : β} (h : q.reanalyzeMessages buf addr = some q')
    (hb : b ≠ buf) : q'.m_stall_msg_map b = q.m_stall_msg_map b ∧
      q'.m_prio_heap b = q.m_prio_heap b := by
  unfold reanalyzeMessages at h
  split_ifs at h
  cases h
  exact ⟨Function.update_of_ne hb _ _, Function.update_of_ne hb _ _⟩

/-- **A wake-up forgets.**  Nothing is noted under the address any more, and the buffers that do
not rank below the port have their messages where they were. -/
theorem wakeUpBuffers_above {cur : ℕ} (h : q.Recorded rank)
    (hw : q.wakeUpBuffers cur addr = some q') :
    q'.m_waiting_buffers addr = none ∧ ∀ buf, cur ≤ rank buf →
      q'.m_stall_msg_map buf = q.m_stall_msg_map buf ∧ q'.m_prio_heap buf = q.m_prio_heap buf := by
  unfold wakeUpBuffers at hw
  split at hw
  · next hnone =>
      cases hw
      exact ⟨hnone, fun _ _ => ⟨rfl, rfl⟩⟩
  · next v hv =>
      obtain ⟨q₁, hq₁, rfl⟩ := Option.map_eq_some_iff.mp hw
      refine ⟨Function.update_self .., fun buf hbuf => ?_⟩
      show q₁.m_stall_msg_map buf = _ ∧ q₁.m_prio_heap buf = _
      refine Lib.perform_induct_mem (P := fun q₁ : Queues β μ =>
        q₁.m_stall_msg_map buf = q.m_stall_msg_map buf ∧ q₁.m_prio_heap buf = q.m_prio_heap buf)
        (fun r hr c c' hc hx => ?_) ⟨rfl, rfl⟩ hq₁
      have hlt : r < cur := by simpa using hr
      unfold wakeUpRank at hx
      split at hx
      · cases hx
        exact hc
      · next b hb =>
          have hne : buf ≠ b := by
            rintro rfl
            rw [(h.stalled addr v r buf hv hb).1] at hlt
            exact absurd hbuf (Nat.not_le.mpr hlt)
          obtain ⟨h₁, h₂⟩ := reanalyzeMessages_of_ne hx hne
          exact ⟨h₁.trans hc.1, h₂.trans hc.2⟩

/-! ### Transitions

A transition dequeues its message, sets it aside or leaves it where it is, and it may end with a
wake-up. -/

end Queues

/-- What an action does to the buffers. -/
inductive QueueOp (β : Type) where
  | pop (buf : β)
  | stall (buf : β)
  | wake
  deriving DecidableEq

/-- What the actions of a transition do to the buffers. -/
inductive Handling (β : Type) where
  | keep
  | stall (buf : β)
  | pop (buf : β)
  | popWake (buf : β)
  | wake
  deriving DecidableEq

namespace Handling

variable {β : Type}

def ops : Handling β → List (QueueOp β)
  | .keep => []
  | .stall buf => [.stall buf]
  | .pop buf => [.pop buf]
  | .popWake buf => [.pop buf, .wake]
  | .wake => [.wake]

/-- The buffer whose message is handled. -/
def buffer : Handling β → Option β
  | .stall buf | .pop buf | .popWake buf => some buf
  | .keep | .wake => none

def wakes : Handling β → Bool
  | .popWake _ | .wake => true
  | .keep | .stall _ | .pop _ => false

end Handling

namespace Queues

/-- An action of a transition at `addr`, for the message at the port at hand; a timer has none. -/
def run {β μ : Type} [DecidableEq β] [DecidableEq μ] (m_cur_in_port : ℕ) (addr : Addr)
    (m : Option μ) (op : QueueOp β) (q : Queues β μ) : Option (Queues β μ) :=
  match op with
  | .pop buf => m.bind fun m => q.dequeue buf m
  | .stall buf => m.bind fun m => q.stall_and_wait m_cur_in_port buf addr m
  | .wake => q.wakeUpBuffers m_cur_in_port addr

variable {β μ : Type} {rank : β → ℕ} {q q' : Queues β μ} {a : Addr} {h : Handling β}

/-- What a transition at `a` does to the stalled messages. -/
structure Handled (rank : β → ℕ) (h : Handling β) (a : Addr) (q q' : Queues β μ) : Prop where
  recorded : q'.Recorded rank
  elsewhere : ∀ buf y, y ≠ a → q'.m_stall_msg_map buf y = q.m_stall_msg_map buf y
  stalled : ∀ buf, q'.m_stall_msg_map buf a ≠ [] →
    h.wakes = false ∧ (q.m_stall_msg_map buf a ≠ [] ∨ h = .stall buf)
  woken : h.wakes = true → ∀ buf, ∀ y ∈ q.m_stall_msg_map buf a, y ∈ q'.m_prio_heap buf

theorem Handled.of_same (hr : q.Recorded rank) (hw : h.wakes = false)
    (hs : q'.m_stall_msg_map = q.m_stall_msg_map)
    (hv : q'.m_waiting_buffers = q.m_waiting_buffers) : Handled rank h a q q' where
  recorded := hr.congr hs hv
  elsewhere _ _ _ := by rw [hs]
  stalled _ hne := ⟨hw, .inl (by rwa [hs] at hne)⟩
  woken hw' := by rw [hw] at hw'; cases hw'

theorem Handled.of_woken (hr : q.Recorded rank) (hq : Woken a q q') :
    Handled rank h a q q' where
  recorded := hq.recorded hr
  elsewhere _ _ hy := by rw [hq.stalled, if_neg hy]
  stalled buf hne := by rw [hq.stalled, if_pos rfl] at hne; exact absurd rfl hne
  woken _ buf y hy := (hq.heap buf y).mpr (.inr hy)

variable [DecidableEq β] [DecidableEq μ] {m : Option μ} {cur : ℕ}

theorem dequeue_of_mem {x : μ} {buf : β} (hx : x ∈ q.m_prio_heap buf) :
    ∃ q', q.dequeue buf x = some q' := by
  rw [dequeue, if_pos hx]
  exact ⟨_, rfl⟩

/-- **A transition on the buffers.**  If its message is in the heap of the port at hand, and a
wake-up of it comes from above all that is stalled under the address, no assertion fails. -/
theorem perform_run (hinj : Function.Injective rank) (hq : q.Recorded rank)
    (hm : ∀ buf, h.buffer = some buf → cur = rank buf ∧ ∃ x, m = some x ∧ x ∈ q.m_prio_heap buf)
    (hcur : h.wakes = true → ∀ buf, q.m_stall_msg_map buf a ≠ [] → rank buf < cur) :
    ∃ q', Lib.perform (run cur a m) h.ops q = some q' ∧ Handled rank h a q q' := by
  cases h with
  | keep => exact ⟨q, rfl, .of_same hq rfl rfl rfl⟩
  | stall buf =>
      obtain ⟨rfl, x, rfl, hx⟩ := hm buf rfl
      obtain ⟨q', hq'⟩ := stall_and_wait_of_mem hx (rank buf) a
      obtain ⟨hmap, -⟩ := stall_and_wait_eq hq'
      refine ⟨q', Option.bind_eq_some_iff.mpr ⟨q', hq', rfl⟩, hq.stall_and_wait hinj hq',
        fun b y hy => ?_, fun b hne => ⟨rfl, ?_⟩, nofun⟩
      · rw [hmap, if_neg fun hb => hy hb.2]
      · by_cases hb : b = buf
        · exact .inr (by rw [hb])
        · rw [hmap, if_neg fun hba => hb hba.1] at hne
          exact .inl hne
  | pop buf =>
      obtain ⟨-, x, rfl, hx⟩ := hm buf rfl
      obtain ⟨q', hq'⟩ := dequeue_of_mem hx
      obtain ⟨hs, hv⟩ := dequeue_eq hq'
      exact ⟨q', Option.bind_eq_some_iff.mpr ⟨q', hq', rfl⟩, .of_same hq rfl hs hv⟩
  | popWake buf =>
      obtain ⟨-, x, rfl, hx⟩ := hm buf rfl
      obtain ⟨q₁, hq₁⟩ := dequeue_of_mem hx
      obtain ⟨hs, hv⟩ := dequeue_eq hq₁
      have hr₁ := hq.congr hs hv
      obtain ⟨q', hq', hw⟩ : ∃ q', q₁.wakeUpBuffers cur a = some q' ∧ Woken a q₁ q' :=
        wakeUpBuffers_woken hr₁ fun b hne => hcur rfl b (by rwa [hs] at hne)
      have hd : Handled rank (.popWake buf) a q₁ q' := .of_woken hr₁ hw
      refine ⟨q', Option.bind_eq_some_iff.mpr
        ⟨q₁, hq₁, Option.bind_eq_some_iff.mpr ⟨q', hq', rfl⟩⟩, hd.recorded, ?_, ?_, ?_⟩
      · rw [← hs]; exact hd.elsewhere
      · rw [← hs]; exact hd.stalled
      · rw [← hs]; exact hd.woken
  | wake =>
      obtain ⟨q', hq', hw⟩ := wakeUpBuffers_woken hq (hcur rfl)
      exact ⟨q', Option.bind_eq_some_iff.mpr ⟨q', hq', rfl⟩, .of_woken hq hw⟩

/-! ### Lines

`busy` says which lines are in the middle of a transaction. -/

variable {busy busy' : Addr → Bool}

omit [DecidableEq β] [DecidableEq μ]

/-- The notes are right, and messages are stalled under busy lines only. -/
structure Kept (rank : β → ℕ) (busy : Addr → Bool) (q : Queues β μ) : Prop where
  recorded : q.Recorded rank
  busy : ∀ buf a, q.m_stall_msg_map buf a ≠ [] → busy a = true

/-- What a step does to a line with stalled messages: it stays busy, or they are back in their
buffers. -/
structure Follows (rank : β → ℕ) (busy' : Addr → Bool) (q q' : Queues β μ) : Prop where
  kept : q'.Kept rank busy'
  back : ∀ buf a, q.m_stall_msg_map buf a ≠ [] →
    busy' a = true ∨ ∀ y ∈ q.m_stall_msg_map buf a, y ∈ q'.m_prio_heap buf

theorem Kept.same (hk : q.Kept rank busy) (hs : q'.m_stall_msg_map = q.m_stall_msg_map)
    (hv : q'.m_waiting_buffers = q.m_waiting_buffers) : Follows rank busy q q' where
  kept := ⟨hk.recorded.congr hs hv, by rw [hs]; exact hk.busy⟩
  back buf a hne := .inl (hk.busy buf a hne)

/-- **A step at one line.**  The other lines are as before; the line at hand stays busy unless it
is woken up, and a message is stalled under it when it is busy only. -/
theorem Kept.step (hk : q.Kept rank busy) (hd : Handled rank h a q q')
    (hother : ∀ y, y ≠ a → busy' y = busy y)
    (hstay : h.wakes = false → busy a = true → busy' a = true)
    (hstall : ∀ buf, h = .stall buf → busy a = true) : Follows rank busy' q q' := by
  refine ⟨⟨hd.recorded, fun buf y hne => ?_⟩, fun buf y hne => ?_⟩
  · by_cases hy : y = a
    · subst hy
      obtain ⟨hw, hbefore | hst⟩ := hd.stalled buf hne
      · exact hstay hw (hk.busy buf y hbefore)
      · exact hstay hw (hstall buf hst)
    · rw [hd.elsewhere buf y hy] at hne
      rw [hother y hy]
      exact hk.busy buf y hne
  · have hbusy := hk.busy buf y hne
    by_cases hy : y = a
    · subst hy
      cases hw : h.wakes with
      | true => exact .inr (hd.woken hw buf)
      | false => exact .inl (hstay hw hbusy)
    · exact .inl (by rw [hother y hy]; exact hbusy)

end Queues

end SttRuby.Protocol
