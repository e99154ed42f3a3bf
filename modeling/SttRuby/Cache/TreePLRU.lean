import SttRuby.Cache.Memory
import SttRuby.Lib.Heap

/-!
# Cache — TreePLRU

`tree_plru_rp.cc`, the replacement policy `CacheMemory` is configured with: for each set a tree of
bits in heap numbering, whose inner nodes are stored and whose leaves stand for the ways.  `touch`
and `invalidate` walk from a leaf up to the root, `getVictim` walks down from the root, and an
access past the stored nodes throws.

The parent of a node is computed in `uint64_t` and rounded to a `double` by `std::floor`.  With two
ways or more both are exact (`parentIndex_eq`), the walk up is the climb of the heap
(`walk_eq_climb`) and the walk down its descent (`victimLoop_eq_descend`).  In a tree of one leaf
the leaf is the root: its parent wraps round, and every `touch`, `reset` and `invalidate` throws
(`single_leaf_out_of_range`).
-/

namespace SttRuby.Cache

/-! ### Indices -/

/-- The `double` nearest to an integer, ties to even: 53 significant bits. -/
def toDouble (n : ℕ) : ℕ :=
  let ulp := 2 ^ (Nat.log2 n - 52)
  let q := n / ulp
  let r := n % ulp
  (if 2 * r > ulp ∨ 2 * r = ulp ∧ q % 2 = 1 then q + 1 else q) * ulp

/-- `std::floor((index-1)/2)`, of a `uint64_t`. -/
def parentIndex (index : ℕ) : ℕ := toDouble ((index + (2 ^ 64 - 1)) % 2 ^ 64 / 2)

def leftSubtreeIndex (index : ℕ) : ℕ := (2 * index + 1) % 2 ^ 64

def rightSubtreeIndex (index : ℕ) : ℕ := (2 * index + 2) % 2 ^ 64

def isRightSubtree (index : ℕ) : Bool := index % 2 == 0

theorem toDouble_of_lt {n : ℕ} (h : n < 2 ^ 53) : toDouble n = n := by
  have hlog : Nat.log2 n - 52 = 0 := by
    rcases Nat.eq_zero_or_pos n with rfl | hn
    · rfl
    · have := (Nat.log2_lt (by omega)).mpr h
      omega
  simp [toDouble, hlog, Nat.mod_one]

theorem parentIndex_eq {index : ℕ} (h₀ : 0 < index) (h : index < 2 ^ 53) :
    parentIndex index = Lib.Heap.parent index := by
  have hwrap : (index + (2 ^ 64 - 1)) % 2 ^ 64 = index - 1 := by omega
  rw [parentIndex, hwrap, toDouble_of_lt (by omega), Lib.Heap.parent]

/-- The parent of the root: `(0 - 1) / 2` wraps, and is rounded up. -/
theorem parentIndex_zero : parentIndex 0 = 2 ^ 63 := by decide

theorem parentIndex_lt {index : ℕ} (h : parentIndex index < 2 ^ 31) :
    parentIndex index < index := by
  rcases Nat.eq_zero_or_pos index with rfl | h₀
  · rw [parentIndex_zero] at h
    omega
  · by_cases hi : index < 2 ^ 53
    · rw [parentIndex_eq h₀ hi]
      exact Lib.Heap.parent_lt h₀
    · omega

/-! ### The policy -/

/-- A `TreePLRU` that its constructor accepts; `num_leaves` is a `Param.Int`. -/
structure TreePLRU where
  numLeaves : ℕ
  numLeaves_pos : 1 ≤ numLeaves
  numLeaves_lt : numLeaves < 2 ^ 31

namespace TreePLRU

variable (t : TreePLRU)

/-- The bits of the inner nodes. -/
abbrev PLRUTree : Type := Vector Bool (t.numLeaves - 1)

/-- A tree of a new set, from `instantiateEntry`. -/
def newTree : t.PLRUTree := Vector.replicate _ false

/-- The index of the entry that `instantiateEntry` creates when it has created `count` before; it
shares the tree of the entries with the same `count / numLeaves`. -/
def index (count : ℕ) : ℕ := count % t.numLeaves + t.numLeaves - 1

variable {t}

/-- The loop of `touch` and `invalidate`: `f` of the side it comes from is stored in each node on
the way up, `none` if an access is out of range. -/
def walk (f : Bool → Bool) (tree : t.PLRUTree) (tree_index : ℕ) : Option t.PLRUTree :=
  if h : parentIndex tree_index < t.numLeaves - 1 then
    let tree' := tree.set (parentIndex tree_index) (f (isRightSubtree tree_index)) h
    if parentIndex tree_index = 0 then some tree' else walk f tree' (parentIndex tree_index)
  else none
termination_by tree_index
decreasing_by exact parentIndex_lt (by have := t.numLeaves_lt; omega)

/-- The bits point to the entry. -/
def invalidate (tree : t.PLRUTree) (way : ℕ) : Option t.PLRUTree := walk id tree (t.index way)

/-- The bits point away from the entry. -/
def touch (tree : t.PLRUTree) (way : ℕ) : Option t.PLRUTree := walk not tree (t.index way)

def reset (tree : t.PLRUTree) (way : ℕ) : Option t.PLRUTree := touch tree way

/-- The loop of `getVictim`. -/
def victimLoop (tree : t.PLRUTree) (tree_index : ℕ) : ℕ :=
  if h : tree_index < t.numLeaves - 1 then
    if tree[tree_index] then victimLoop tree (rightSubtreeIndex tree_index)
    else victimLoop tree (leftSubtreeIndex tree_index)
  else tree_index
termination_by t.numLeaves - 1 - tree_index
decreasing_by
  all_goals
    have := t.numLeaves_lt
    simp only [rightSubtreeIndex, leftSubtreeIndex]
    omega

/-- `getVictim`, with the ways of the set for candidates; `none` if the way it computes is not one
of them. -/
def getVictim (tree : t.PLRUTree) : Option ℕ :=
  let way := victimLoop tree 0 - (t.numLeaves - 1)
  if way < t.numLeaves then some way else none

/-- A call on one of the leaves. -/
inductive Call where
  | touch (way : ℕ) | reset (way : ℕ) | invalidate (way : ℕ)

def Call.way : Call → ℕ
  | .touch way | .reset way | .invalidate way => way

def call (tree : t.PLRUTree) : Call → Option t.PLRUTree
  | .touch way => touch tree way
  | .reset way => reset tree way
  | .invalidate way => invalidate tree way

variable (t) in
/-- The tree after a sequence of calls, `none` if an access of one of them is out of range. -/
def run (calls : List Call) : Option t.PLRUTree := calls.foldlM call t.newTree

/-! ### The walks are those of the heap -/

/-- The bits of a tree by node. -/
def bits (tree : t.PLRUTree) (i : ℕ) : Bool := tree[i]?.getD false

theorem bits_of_lt (tree : t.PLRUTree) {i : ℕ} (h : i < t.numLeaves - 1) :
    bits tree i = tree[i] := by
  simp [bits, h]

theorem bits_set (tree : t.PLRUTree) {i : ℕ} (h : i < t.numLeaves - 1) (b : Bool) :
    bits (tree.set i b h) = Function.update (bits tree) i b := by
  funext j
  rcases eq_or_ne j i with rfl | hj
  · simp [bits, h]
  · simp [bits, hj, hj.symm]

/-- From a node below the root the walk up is the climb, and in range. -/
theorem walk_eq_climb (f : Bool → Bool) {i : ℕ} (h₀ : 0 < i) (hi : i ≤ 2 * (t.numLeaves - 1)) :
    ∀ tree : t.PLRUTree, ∃ tree', walk f tree i = some tree' ∧
      bits tree' = Lib.Heap.climb f (bits tree) i := by
  induction i using Nat.strongRecOn with
  | ind i ih =>
      intro tree
      have hlt := t.numLeaves_lt
      have hp : parentIndex i = Lib.Heap.parent i := parentIndex_eq h₀ (by omega)
      have hrange : Lib.Heap.parent i < t.numLeaves - 1 := by
        unfold Lib.Heap.parent
        omega
      have hbits := bits_set tree hrange (f (isRightSubtree i))
      rw [walk, Lib.Heap.climb, if_pos h₀]
      simp only [hp, hrange, dif_pos]
      by_cases hroot : Lib.Heap.parent i = 0
      · refine ⟨_, if_pos hroot, ?_⟩
        rw [hbits, hroot, Lib.Heap.climb, if_neg (by omega)]
        rfl
      · obtain ⟨tree', hw, hc⟩ := ih (Lib.Heap.parent i) (Lib.Heap.parent_lt h₀) (by omega)
          (by omega) (tree.set _ (f (isRightSubtree i)) hrange)
        refine ⟨tree', (if_neg hroot).trans hw, ?_⟩
        rw [hc, hbits]
        rfl

theorem victimLoop_eq_descend (tree : t.PLRUTree) (i : ℕ) :
    victimLoop tree i = Lib.Heap.descend (t.numLeaves - 1) (bits tree) i := by
  induction i using Lib.Heap.descend.induct (t.numLeaves - 1) (bits tree) with
  | case1 i hi ih =>
      have hlt := t.numLeaves_lt
      rw [Lib.Heap.descend_of_lt hi, ← ih, victimLoop, dif_pos hi, bits_of_lt tree hi]
      cases tree[i]
      · rw [if_neg (by simp), leftSubtreeIndex, Nat.mod_eq_of_lt (by omega)]
        rfl
      · rw [if_pos rfl, rightSubtreeIndex, Nat.mod_eq_of_lt (by omega)]
        rfl
  | case2 i hi =>
      rw [Lib.Heap.descend_of_ge (by omega), victimLoop, dif_neg hi]

/-! ### Leaves -/

theorem index_eq {x : ℕ} (hx : x < t.numLeaves) : t.index x = x + (t.numLeaves - 1) := by
  have := t.numLeaves_pos
  rw [index, Nat.mod_eq_of_lt hx]
  omega

/-- A walk up from a leaf of a tree of two leaves or more. -/
theorem walk_leaf (h2 : 2 ≤ t.numLeaves) (f : Bool → Bool) (tree : t.PLRUTree) {x : ℕ}
    (hx : x < t.numLeaves) : ∃ tree', walk f tree (t.index x) = some tree' ∧
      bits tree' = Lib.Heap.climb f (bits tree) (t.index x) := by
  rw [index_eq hx]
  exact walk_eq_climb f (by omega) (by omega) tree

theorem call_isSome (h2 : 2 ≤ t.numLeaves) (tree : t.PLRUTree) (c : Call)
    (hc : c.way < t.numLeaves) : ∃ tree', call tree c = some tree' := by
  cases c with
  | touch way | reset way =>
      obtain ⟨tree', hw, -⟩ := walk_leaf h2 not tree hc
      exact ⟨tree', hw⟩
  | invalidate way =>
      obtain ⟨tree', hw, -⟩ := walk_leaf h2 id tree hc
      exact ⟨tree', hw⟩

/-- The calls of a sequence follow one another without an access out of range. -/
theorem run_isSome (h2 : 2 ≤ t.numLeaves) (calls : List Call)
    (hc : ∀ c ∈ calls, c.way < t.numLeaves) : ∃ tree, t.run calls = some tree := by
  suffices h : ∀ tree : t.PLRUTree, ∃ tree', calls.foldlM call tree = some tree' from h _
  induction calls with
  | nil => exact fun tree => ⟨tree, rfl⟩
  | cons c calls ih =>
      intro tree
      obtain ⟨tree₁, h₁⟩ := call_isSome h2 tree c (hc c List.mem_cons_self)
      obtain ⟨tree', h'⟩ := ih (fun d hd => hc d (List.mem_cons_of_mem c hd)) tree₁
      exact ⟨tree', by rw [List.foldlM_cons, h₁]; exact h'⟩

/-- The victim is the way of the leaf that the descent from the root ends in. -/
theorem getVictim_eq (tree : t.PLRUTree) : ∃ v, v < t.numLeaves ∧ getVictim tree = some v ∧
    v + (t.numLeaves - 1) = Lib.Heap.descend (t.numLeaves - 1) (bits tree) 0 := by
  have hpos := t.numLeaves_pos
  have hleaf : t.numLeaves - 1 ≤ Lib.Heap.descend (t.numLeaves - 1) (bits tree) 0 ∧
      Lib.Heap.descend (t.numLeaves - 1) (bits tree) 0 ≤ 2 * (t.numLeaves - 1) :=
    Lib.Heap.descend_leaf (Nat.zero_le _)
  refine ⟨Lib.Heap.descend (t.numLeaves - 1) (bits tree) 0 - (t.numLeaves - 1), by omega, ?_,
    by omega⟩
  rw [getVictim, victimLoop_eq_descend]
  exact if_pos (by omega)

/-- After `invalidate` the bits above the entry point to it. -/
theorem getVictim_invalidate (h2 : 2 ≤ t.numLeaves) (tree : t.PLRUTree) {x : ℕ}
    (hx : x < t.numLeaves) :
    ∃ tree', invalidate tree x = some tree' ∧ getVictim tree' = some x := by
  obtain ⟨tree', hw, hbits⟩ := walk_leaf h2 id tree hx
  refine ⟨tree', hw, ?_⟩
  obtain ⟨v, -, hv, hdesc⟩ := getVictim_eq tree'
  have hleaf := index_eq hx
  have hdown : Lib.Heap.descend (t.numLeaves - 1) (bits tree') 0 = t.index x := by
    refine Lib.Heap.descend_path (by omega) (by omega) (fun j hj hj0 => ?_) Lib.Heap.Path.start.root
    rw [hbits]
    exact Lib.Heap.climb_path hj hj0 _
  rw [hv, show v = x by omega]

/-- After `touch` the bit of the entry's parent points away from it. -/
theorem getVictim_touch (h2 : 2 ≤ t.numLeaves) (tree : t.PLRUTree) {x : ℕ}
    (hx : x < t.numLeaves) : ∃ tree', touch tree x = some tree' ∧ getVictim tree' ≠ some x := by
  obtain ⟨tree', hw, hbits⟩ := walk_leaf h2 not tree hx
  refine ⟨tree', hw, fun hvx => ?_⟩
  obtain ⟨v, -, hv, hdesc⟩ := getVictim_eq tree'
  have hleaf := index_eq hx
  obtain rfl : v = x := Option.some.inj (hv.symm.trans hvx)
  have hto : bits tree' (Lib.Heap.parent (Lib.Heap.descend (t.numLeaves - 1) (bits tree') 0)) =
      Lib.Heap.isRight (Lib.Heap.descend (t.numLeaves - 1) (bits tree') 0) :=
    Lib.Heap.descend_points (by omega)
  rw [← hdesc, ← hleaf, hbits, Lib.Heap.climb_path .start (by omega)] at hto
  cases hside : Lib.Heap.isRight (t.index v) <;> rw [hside] at hto <;> cases hto

end TreePLRU

open TreePLRU

/-- **Tree-PLRU.**  In a tree of two leaves or more, after any sequence of calls on its leaves: no
access was out of range, `getVictim` returns one of the ways, `invalidate` makes its way the victim,
and after `touch` and `reset` the victim is another way. -/
theorem tree_plru_sound (t : TreePLRU) (h2 : 2 ≤ t.numLeaves) (calls : List Call)
    (hc : ∀ c ∈ calls, c.way < t.numLeaves) :
    ∃ tree, t.run calls = some tree ∧ (∃ v < t.numLeaves, getVictim tree = some v) ∧
      ∀ x < t.numLeaves,
        (∃ tree', invalidate tree x = some tree' ∧ getVictim tree' = some x) ∧
        (∃ tree', touch tree x = some tree' ∧ getVictim tree' ≠ some x) ∧
        ∃ tree', reset tree x = some tree' ∧ getVictim tree' ≠ some x := by
  obtain ⟨tree, hrun⟩ := run_isSome h2 calls hc
  obtain ⟨v, hlt, hv, -⟩ := getVictim_eq tree
  exact ⟨tree, hrun, ⟨v, hlt, hv⟩, fun x hx =>
    ⟨getVictim_invalidate h2 tree hx, getVictim_touch h2 tree hx, getVictim_touch h2 tree hx⟩⟩

/-- A policy for three ways, whose trees are not complete. -/
def threeLeaves : TreePLRU := ⟨3, by decide, by decide⟩

theorem tree_plru_sound_three_leaves :
    ∃ tree, threeLeaves.run [.touch 0, .invalidate 2, .reset 1] = some tree ∧
      ∃ tree', invalidate tree 0 = some tree' ∧ getVictim tree' = some 0 := by
  obtain ⟨tree, hrun, -, h⟩ := tree_plru_sound threeLeaves (by decide)
    [.touch 0, .invalidate 2, .reset 1] (by decide)
  exact ⟨tree, hrun, (h 0 (by decide)).1⟩

/-- The policy of a direct-mapped cache. -/
def oneLeaf : TreePLRU := ⟨1, Nat.one_pos, by decide⟩

/-- **The tree of one leaf.**  It has no inner node, and the parent of its leaf is far out of range:
the first call throws, whichever it is. -/
theorem single_leaf_out_of_range :
    parentIndex (oneLeaf.index 0) = 2 ^ 63 ∧
      ∀ c : Call, c.way < oneLeaf.numLeaves → oneLeaf.run [c] = none := by
  have hwalk (f : Bool → Bool) : walk f oneLeaf.newTree (oneLeaf.index 0) = none := by
    rw [walk]
    exact dif_neg (by decide)
  refine ⟨parentIndex_zero, fun c hc => ?_⟩
  cases c with
  | touch way | reset way =>
      obtain rfl : way = 0 := Nat.lt_one_iff.mp hc
      exact congrArg (· >>= _) (hwalk not)
  | invalidate way =>
      obtain rfl : way = 0 := Nat.lt_one_iff.mp hc
      exact congrArg (· >>= _) (hwalk id)

end SttRuby.Cache
