import Mathlib
import RpcNetwork.Lib.ExceptRun
import RpcNetwork.Lib.WeightedPick
import RpcNetwork.Les.WeightedSelect

/-!
# The `wrsNode` tree invariant

A well-formed `wrsNode` at level `L` (`NodeOk`), its `entries`, and what the
three recursive methods do to it: `insert` adds an entry without its
`panic(nil)`, `setWeight` changes one, `choose` lands on each for its weight.

## Design notes

The invariant recurses on the level, not on the tree: a node at level `L + 1`
asks its nodes to be well formed at level `L`, and every proof here is an
induction on `L`.  Sums hold in `uint64` arithmetic, and exactly below `2 ^ 64`.
-/

namespace RpcNetwork.Les

namespace WrsSlot

variable {α : Type}

/-- A sum over the slots with one slot changed moves by the change. -/
theorem sum_update {β : Type*} [AddCommGroup β] (f : Fin wrsBranches → β) (b : Fin wrsBranches) (y : β) :
    ∑ i, Function.update f b y i = ∑ i, f i + (y - f b) := by
  rw [Fintype.sum_eq_add_sum_compl b, Fintype.sum_eq_add_sum_compl b f, Function.update_self]
  have hrest : ∑ i ∈ {b}ᶜ, Function.update f b y i = ∑ i ∈ {b}ᶜ, f i := by
    apply Finset.sum_congr rfl
    intro i hi
    rw [Function.update_of_ne (by simpa using hi)]
  rw [hrest]
  abel

/-! ### Entries -/

/-- What slot `i`, holding `s` with weight `w`, adds to the entries of its node,
given the entries below `s`: an item at index `i`, or the entries below a node
with their indexes moved past the `i` nodes of its size before it, as `insert`
computes them. -/
def block (s : WrsSlot α) (w : UInt64) (i : ℕ) (below : List (ℕ × α × UInt64)) :
    List (ℕ × α × UInt64) :=
  match s with
  | nil => []
  | item a => [(i, a, w)]
  | node _ _ _ _ _ maxItems => below.map fun e => (maxItems * i + e.1, e.2)

/-- The items below a slot, slot by slot, each with its index and its stored
weight. -/
def entries : WrsSlot α → List (ℕ × α × UInt64)
  | node items weights _ _ _ _ =>
    (List.finRange wrsBranches).flatMap fun i => block (items i) (weights i) i (items i).entries
  | _ => []

theorem entries_node (items : Fin wrsBranches → WrsSlot α) (weights : Fin wrsBranches → UInt64)
    (sumWeight : UInt64) (level itemCnt maxItems : ℕ) :
    (node items weights sumWeight level itemCnt maxItems).entries =
      (List.finRange wrsBranches).flatMap fun i => block (items i) (weights i) i (items i).entries := by
  rw [entries]

@[simp] theorem block_nil (w : UInt64) (i : ℕ) (below : List (ℕ × α × UInt64)) :
    block nil w i below = [] := rfl

@[simp] theorem block_item (a : α) (w : UInt64) (i : ℕ) (below : List (ℕ × α × UInt64)) :
    block (item a) w i below = [(i, a, w)] := rfl

@[simp] theorem block_node {items : Fin wrsBranches → WrsSlot α} {weights : Fin wrsBranches → UInt64}
    {sumWeight : UInt64} {level itemCnt maxItems : ℕ} (w : UInt64) (i : ℕ) (below : List (ℕ × α × UInt64)) :
    block (node items weights sumWeight level itemCnt maxItems) w i below =
      below.map fun e => (maxItems * i + e.1, e.2) := rfl

@[simp] theorem entries_fresh (level maxItems : ℕ) : (fresh level maxItems : WrsSlot α).entries = [] := by
  simp [fresh, entries_node, block]

/-! ### The invariant -/

/-- What a node at level `L` keeps besides its slots: its level, its capacity
`8 ^ (L + 1)`, its weight the sum of its slots' weights, and its count the
number of items below it. -/
structure Header (L : ℕ) (items : Fin wrsBranches → WrsSlot α) (weights : Fin wrsBranches → UInt64)
    (sumWeight : UInt64) (level itemCnt maxItems : ℕ) : Prop where
  level_eq : level = L
  maxItems_eq : maxItems = wrsBranches ^ (L + 1)
  sumWeight_eq : sumWeight = ∑ i, weights i
  itemCnt_eq : itemCnt = (node items weights sumWeight level itemCnt maxItems).entries.length

/-- A well-formed `wrsNode` at level `L`.  At level `0` each slot is nil with
weight zero or an item with a weight that is not zero; above it each slot is
nil with weight zero or a well-formed node a level lower, with its `sumWeight`
beside it. -/
def NodeOk : ℕ → WrsSlot α → Prop
  | _, nil => False
  | _, item _ => False
  | 0, node items weights sumWeight level itemCnt maxItems =>
    Header 0 items weights sumWeight level itemCnt maxItems ∧
      ∀ i, (items i = nil ∧ weights i = 0) ∨ ∃ a, items i = item a ∧ weights i ≠ 0
  | L + 1, node items weights sumWeight level itemCnt maxItems =>
    Header (L + 1) items weights sumWeight level itemCnt maxItems ∧
      ∀ i, (items i = nil ∧ weights i = 0) ∨ (NodeOk L (items i) ∧ weights i = (items i).sumWeight)

section NodeOk

variable {items : Fin wrsBranches → WrsSlot α} {weights : Fin wrsBranches → UInt64}
  {sumWeight : UInt64} {level itemCnt maxItems L : ℕ}

@[simp] theorem nodeOk_nil : ¬ NodeOk L (nil : WrsSlot α) := by
  rw [NodeOk]
  exact not_false

@[simp] theorem nodeOk_item (a : α) : ¬ NodeOk L (item a) := by
  rw [NodeOk]
  exact not_false

theorem nodeOk_zero :
    NodeOk 0 (node items weights sumWeight level itemCnt maxItems) ↔
      Header 0 items weights sumWeight level itemCnt maxItems ∧
        ∀ i, (items i = nil ∧ weights i = 0) ∨ ∃ a, items i = item a ∧ weights i ≠ 0 := by
  rw [NodeOk]

theorem nodeOk_succ :
    NodeOk (L + 1) (node items weights sumWeight level itemCnt maxItems) ↔
      Header (L + 1) items weights sumWeight level itemCnt maxItems ∧
        ∀ i, (items i = nil ∧ weights i = 0) ∨ (NodeOk L (items i) ∧ weights i = (items i).sumWeight) := by
  rw [NodeOk]

/-- A well-formed node at level `L` is a node at level `L`. -/
theorem NodeOk.eq_node {s : WrsSlot α} (h : NodeOk L s) :
    ∃ items weights sumWeight itemCnt maxItems, s = node items weights sumWeight L itemCnt maxItems := by
  cases L with
  | zero =>
    cases s with
    | node items weights sumWeight level itemCnt maxItems =>
      obtain ⟨hd, -⟩ := nodeOk_zero.mp h
      exact ⟨items, weights, sumWeight, itemCnt, maxItems, by rw [hd.level_eq]⟩
    | nil => exact absurd h nodeOk_nil
    | item a => exact absurd h (nodeOk_item a)
  | succ L =>
    cases s with
    | node items weights sumWeight level itemCnt maxItems =>
      obtain ⟨hd, -⟩ := nodeOk_succ.mp h
      exact ⟨items, weights, sumWeight, itemCnt, maxItems, by rw [hd.level_eq]⟩
    | nil => exact absurd h nodeOk_nil
    | item a => exact absurd h (nodeOk_item a)

/-- The header of a well-formed node. -/
theorem NodeOk.header (h : NodeOk L (node items weights sumWeight level itemCnt maxItems)) :
    Header L items weights sumWeight level itemCnt maxItems := by
  cases L with
  | zero => exact (nodeOk_zero.mp h).1
  | succ L => exact (nodeOk_succ.mp h).1

/-- The block of a slot holding a well-formed node. -/
theorem NodeOk.block_eq {s : WrsSlot α} (h : NodeOk L s) (w : UInt64) (i : ℕ) (below : List (ℕ × α × UInt64)) :
    block s w i below = below.map fun e => (s.maxItems * i + e.1, e.2) := by
  obtain ⟨_, _, _, _, _, rfl⟩ := h.eq_node
  rfl

/-- A node with empty slots at level `L` and of the size of that level is well
formed. -/
theorem nodeOk_fresh (L : ℕ) : NodeOk L (fresh L (wrsBranches ^ (L + 1)) : WrsSlot α) := by
  have hd : Header L (fun _ => (nil : WrsSlot α)) (fun _ => 0) 0 L 0 (wrsBranches ^ (L + 1)) :=
    ⟨rfl, rfl, by simp, by simp [entries_node, block]⟩
  cases L with
  | zero => exact nodeOk_zero.mpr ⟨hd, fun _ => .inl ⟨rfl, rfl⟩⟩
  | succ L => exact nodeOk_succ.mpr ⟨hd, fun _ => .inl ⟨rfl, rfl⟩⟩

end NodeOk

/-! ### Indexes -/

section Indexes

/-- An index in the run of `M` indexes of slot `i` tells the slot by division. -/
theorem div_eq_of_mem_run {M i x : ℕ} (h : M * i ≤ x ∧ x < M * (i + 1)) : x / M = i :=
  Nat.div_eq_of_lt_le (by rw [Nat.mul_comm]; exact h.1) (by rw [Nat.mul_comm]; exact h.2)

/-- Blocks of entries whose indexes lie in consecutive runs of `M`, one run per
slot, and are distinct within each block, have distinct indexes below `M * 8`. -/
theorem indexes_flatMap {β : Type*} {M : ℕ} {f : Fin wrsBranches → List (ℕ × β)}
    (hf : ∀ i, ((f i).map Prod.fst).Nodup ∧ ∀ e ∈ f i, M * i ≤ e.1 ∧ e.1 < M * (i + 1)) :
    (((List.finRange wrsBranches).flatMap f).map Prod.fst).Nodup ∧
      ∀ e ∈ (List.finRange wrsBranches).flatMap f, e.1 < M * wrsBranches := by
  refine ⟨?_, ?_⟩
  · rw [List.map_flatMap, List.nodup_flatMap]
    refine ⟨fun i _ => (hf i).1, (List.nodup_finRange _).pairwise_of_forall_ne ?_⟩
    -- the runs of two slots do not meet
    intro i _ j _ hij x hx hx'
    obtain ⟨e, he, rfl⟩ := List.mem_map.mp hx
    obtain ⟨e', he', heq⟩ := List.mem_map.mp hx'
    have hi := div_eq_of_mem_run ((hf i).2 e he)
    have hj := div_eq_of_mem_run ((hf j).2 e' he')
    rw [heq] at hj
    exact hij (Fin.ext (hi.symm.trans hj))
  · intro e he
    obtain ⟨i, -, hei⟩ := List.mem_flatMap.mp he
    have hlt := ((hf i).2 e hei).2
    have hle : M * (i + 1) ≤ M * wrsBranches := Nat.mul_le_mul_left M i.isLt
    omega

variable {items : Fin wrsBranches → WrsSlot α} {weights : Fin wrsBranches → UInt64}
  {sumWeight : UInt64} {level itemCnt maxItems : ℕ}

/-- At level `0` the block of slot `j` is at most its item, at index `j`. -/
theorem NodeOk.block_indexes_zero (h : NodeOk 0 (node items weights sumWeight level itemCnt maxItems))
    (j : Fin wrsBranches) :
    ((block (items j) (weights j) j (items j).entries).map Prod.fst).Nodup ∧
      ∀ e ∈ block (items j) (weights j) j (items j).entries, 1 * j ≤ e.1 ∧ e.1 < 1 * (j + 1) := by
  rcases (nodeOk_zero.mp h).2 j with ⟨hj, -⟩ | ⟨a, hj, -⟩ <;> simp [hj]

/-- Above level `0` the block of slot `j` is the entries of the node below, with
distinct indexes once that node's are, moved into the `j`-th run of its size. -/
theorem NodeOk.block_indexes_succ
    (hbelow : ∀ {c : WrsSlot α}, NodeOk L c → (c.entries.map Prod.fst).Nodup ∧ ∀ e ∈ c.entries, e.1 < c.maxItems)
    (h : NodeOk (L + 1) (node items weights sumWeight level itemCnt maxItems)) (j : Fin wrsBranches) :
    ((block (items j) (weights j) j (items j).entries).map Prod.fst).Nodup ∧
      ∀ e ∈ block (items j) (weights j) j (items j).entries,
        wrsBranches ^ (L + 1) * j ≤ e.1 ∧ e.1 < wrsBranches ^ (L + 1) * (j + 1) := by
  rcases (nodeOk_succ.mp h).2 j with ⟨hj, -⟩ | ⟨hok, -⟩
  · simp [hj]
  · obtain ⟨hnd, hlt⟩ := hbelow hok
    obtain ⟨items', weights', sumWeight', itemCnt', maxItems', hc⟩ := hok.eq_node
    rw [hc] at hok hnd hlt ⊢
    have hmax := hok.header.maxItems_eq
    rw [maxItems_node] at hlt
    subst hmax
    rw [block_node]
    refine ⟨?_, ?_⟩
    · have hshift := hnd.map (f := fun x => wrsBranches ^ (L + 1) * j + x) fun x y hxy => by simpa using hxy
      simpa [List.map_map, Function.comp_def] using hshift
    · intro e he
      obtain ⟨e', he', rfl⟩ := List.mem_map.mp he
      have := hlt e' he'
      constructor
      · simp
      · simp only [Nat.mul_succ]
        omega

/-- **Indexes.**  The entries below a well-formed node have distinct indexes,
all below its `maxItems`. -/
theorem NodeOk.indexes : ∀ {L : ℕ} {s : WrsSlot α}, NodeOk L s →
    (s.entries.map Prod.fst).Nodup ∧ ∀ e ∈ s.entries, e.1 < s.maxItems := by
  intro L
  induction L with
  | zero =>
    intro s h
    obtain ⟨items, weights, sumWeight, itemCnt, maxItems, rfl⟩ := h.eq_node
    have hf := indexes_flatMap h.block_indexes_zero
    rw [entries_node, maxItems_node, h.header.maxItems_eq]
    simpa using hf
  | succ L ih =>
    intro s h
    obtain ⟨items, weights, sumWeight, itemCnt, maxItems, rfl⟩ := h.eq_node
    have hf := indexes_flatMap (h.block_indexes_succ ih)
    rw [entries_node, maxItems_node, h.header.maxItems_eq, pow_succ]
    exact hf

/-- The entries of slot `j` of a well-formed node at level `L` have their
indexes in the `j`-th run of `8 ^ L`. -/
theorem NodeOk.block_run {L : ℕ} (h : NodeOk L (node items weights sumWeight level itemCnt maxItems))
    (j : Fin wrsBranches) :
    ∀ e ∈ block (items j) (weights j) j (items j).entries,
      wrsBranches ^ L * j ≤ e.1 ∧ e.1 < wrsBranches ^ L * (j + 1) := by
  cases L with
  | zero => simpa using (h.block_indexes_zero j).2
  | succ L => exact (h.block_indexes_succ (fun hc => hc.indexes) j).2

/-- A well-formed node holds at most `maxItems` items: `itemCnt ≤ maxItems`. -/
theorem NodeOk.length_le {L : ℕ} {s : WrsSlot α} (h : NodeOk L s) : s.entries.length ≤ s.maxItems := by
  obtain ⟨hnd, hlt⟩ := h.indexes
  have hsub : (s.entries.map Prod.fst).toFinset ⊆ Finset.range s.maxItems := by
    intro x hx
    obtain ⟨e, he, rfl⟩ := List.mem_map.mp (List.mem_toFinset.mp hx)
    exact Finset.mem_range.mpr (hlt e he)
  have hcard := Finset.card_le_card hsub
  rwa [List.toFinset_card_of_nodup hnd, List.length_map, Finset.card_range] at hcard

end Indexes

/-! ### Changing one slot -/

section Blocks

variable {β : Type*}

/-- Appending an entry to the block of one slot appends it to the entries, up to
order. -/
theorem perm_flatMap_append {f g : Fin wrsBranches → List β} {b : Fin wrsBranches} {x : β}
    (hb : (g b).Perm (f b ++ [x])) (hother : ∀ i, i ≠ b → g i = f i) :
    ((List.finRange wrsBranches).flatMap g).Perm ((List.finRange wrsBranches).flatMap f ++ [x]) := by
  -- over any list of slots that holds `b` once
  suffices h : ∀ l : List (Fin wrsBranches), l.Nodup → b ∈ l → (l.flatMap g).Perm (l.flatMap f ++ [x]) from
    h _ (List.nodup_finRange _) (List.mem_finRange b)
  intro l hl hbl
  induction l with
  | nil => cases hbl
  | cons c l ih =>
    rw [List.flatMap_cons, List.flatMap_cons]
    by_cases hc : c = b
    · subst hc
      have hrest : l.flatMap g = l.flatMap f :=
        List.flatMap_congr fun i hi => hother i fun he => (List.nodup_cons.mp hl).1 (he ▸ hi)
      rw [hrest, List.append_assoc]
      exact (hb.append_right _).trans (by rw [List.append_assoc]; exact List.perm_append_comm.append_left _)
    · rw [hother c hc, List.append_assoc]
      exact (ih (List.nodup_cons.mp hl).2 ((List.mem_cons.mp hbl).resolve_left (Ne.symm hc))).append_left _

/-- Changing every block by `filterMap u` changes the entries by it. -/
theorem flatMap_filterMap {f g : Fin wrsBranches → List β} {u : β → Option β}
    (hg : ∀ i, g i = (f i).filterMap u) :
    (List.finRange wrsBranches).flatMap g = ((List.finRange wrsBranches).flatMap f).filterMap u := by
  rw [List.filterMap_flatMap]
  exact List.flatMap_congr fun i _ => hg i

/-- A sum over the entries is the sum of the blocks' sums. -/
theorem sum_map_flatMap {f : Fin wrsBranches → List β} (g : β → ℕ) :
    (((List.finRange wrsBranches).flatMap f).map g).sum = ∑ i, ((f i).map g).sum := by
  rw [Fin.sum_univ_def]
  induction List.finRange wrsBranches with
  | nil => rfl
  | cons i l ih => rw [List.flatMap_cons, List.map_append, List.sum_append, ih, List.map_cons, List.sum_cons]

/-- `filterMap u` keeps a block none of whose entries `u` touches. -/
theorem filterMap_of_forall {l : List β} {u : β → Option β} (h : ∀ e ∈ l, u e = some e) :
    l.filterMap u = l := by
  rw [List.filterMap_congr h, List.filterMap_some]

end Blocks

/-! ### `insert` -/

section Insert

variable {items : Fin wrsBranches → WrsSlot α} {weights : Fin wrsBranches → UInt64}
  {sumWeight : UInt64} {level itemCnt maxItems L : ℕ} {a : α} {weight : UInt64}

/-- The number of entries of a node is the sum of its blocks' lengths. -/
theorem length_entries_node :
    (node items weights sumWeight level itemCnt maxItems).entries.length =
      ∑ i, (block (items i) (weights i) i (items i).entries).length := by
  rw [entries_node, List.length_flatMap, Fin.sum_univ_def]

/-- No slot of a well-formed node fails the type assertion of `insert`'s loop. -/
theorem NodeOk.taken_ok (h : NodeOk L (node items weights sumWeight level itemCnt maxItems))
    (j : Fin wrsBranches) : ∃ t, (items j).taken L = .ok t := by
  cases L with
  | zero =>
    rcases (nodeOk_zero.mp h).2 j with ⟨hj, -⟩ | ⟨x, hj, -⟩ <;> simp [hj, taken]
  | succ L =>
    rcases (nodeOk_succ.mp h).2 j with ⟨hj, -⟩ | ⟨hok, -⟩
    · simp [hj, taken]
    · obtain ⟨_, _, _, _, _, hc⟩ := hok.eq_node
      simp [hc, taken]

/-- A well-formed node that is not full has a slot that `insert`'s loop does not
pass over: if every slot were taken, every slot would hold a full share of
`maxItems`. -/
theorem NodeOk.exists_free (h : NodeOk L (node items weights sumWeight level itemCnt maxItems))
    (hlt : itemCnt < maxItems) : ∃ j, (items j).taken L = .ok false := by
  by_contra hnone
  have hall : ∀ j, (items j).taken L ≠ .ok false := fun j hj => hnone ⟨j, hj⟩
  have hd := h.header
  have hfull : ∀ j, (block (items j) (weights j) j (items j).entries).length = wrsBranches ^ L := by
    intro j
    obtain ⟨t, ht⟩ := h.taken_ok j
    cases t with
    | false => exact absurd ht (hall j)
    | true =>
      cases L with
      | zero =>
        rcases (nodeOk_zero.mp h).2 j with ⟨hj, -⟩ | ⟨x, hj, -⟩
        · simp [hj, taken] at ht
        · simp [hj]
      | succ L =>
        rcases (nodeOk_succ.mp h).2 j with ⟨hj, -⟩ | ⟨hok, -⟩
        · simp [hj, taken] at ht
        · obtain ⟨items', weights', sumWeight', itemCnt', maxItems', hc⟩ := hok.eq_node
          rw [hc] at hok ht
          have hdc := hok.header
          simp [taken] at ht
          rw [hc, block_node, List.length_map, ← hdc.itemCnt_eq, ht, hdc.maxItems_eq]
  have hcount : itemCnt = maxItems := by
    rw [hd.itemCnt_eq, length_entries_node, Finset.sum_congr rfl fun j _ => hfull j, hd.maxItems_eq]
    simp [pow_succ, Nat.mul_comm]
  omega

/-- **The loop of `insert`** stops at a free slot from `branch` on when there is
one, and no slot fails its type assertion. -/
theorem findBranch_free (hok : ∀ j, ∃ t, (items j).taken L = .ok t) :
    ∀ (branch : ℕ) (j : Fin wrsBranches), branch ≤ j → (items j).taken L = .ok false →
      ∃ b, findBranch items L branch = .ok b ∧ (items b).taken L = .ok false
  | branch, j, hj, hfree => by
    have hb : branch < wrsBranches := lt_of_le_of_lt hj j.isLt
    obtain ⟨t, ht⟩ := hok ⟨branch, hb⟩
    rw [findBranch, dif_pos hb, ht, Except.ok_bind]
    cases t with
    | false => exact ⟨⟨branch, hb⟩, rfl, ht⟩
    | true =>
      -- the slot is taken, so the free slot lies further on
      have hne : branch ≠ j := fun he => by
        rw [show (⟨branch, hb⟩ : Fin wrsBranches) = j from Fin.ext he, hfree] at ht
        cases ht
      have hnext : ¬ branch + 1 = wrsBranches := by omega
      rw [if_neg (by decide), if_neg hnext]
      exact findBranch_free hok (branch + 1) j (by omega) hfree
termination_by branch => wrsBranches - branch

/-- The node `insert` goes down into from a free slot of a well-formed node
above level `0`: well formed a level lower, not full, with the slot's weight as
its weight, and the slot's block its entries moved into the slot's run. -/
theorem NodeOk.subNode_spec (h : NodeOk (L + 1) (node items weights sumWeight level itemCnt maxItems))
    {b : Fin wrsBranches} (hb : (items b).taken (L + 1) = .ok false) :
    ∃ sub, (items b).subNode level maxItems = .ok sub ∧ NodeOk L sub ∧ sub.itemCnt < sub.maxItems ∧
      weights b = sub.sumWeight ∧
      block (items b) (weights b) b (items b).entries = sub.entries.map fun e => (sub.maxItems * b + e.1, e.2) := by
  obtain ⟨hd, hslots⟩ := nodeOk_succ.mp h
  rcases hslots b with ⟨hnil, hw⟩ | ⟨hok, hw⟩
  · -- a nil slot: a new node a level lower, of that level's size
    have hmax : maxItems / wrsBranches = wrsBranches ^ (L + 1) := by
      rw [hd.maxItems_eq, pow_succ, Nat.mul_div_cancel _ (by decide)]
    refine ⟨fresh L (wrsBranches ^ (L + 1)), ?_, nodeOk_fresh L, ?_, ?_, ?_⟩
    · rw [hnil, subNode, hmax, hd.level_eq, Nat.add_sub_cancel]
      rfl
    · simp only [fresh, itemCnt_node, maxItems_node]
      positivity
    · rw [hw]
      rfl
    · simp [hnil]
  · -- a node that is not full
    obtain ⟨items', weights', sumWeight', itemCnt', maxItems', hc⟩ := hok.eq_node
    rw [hc] at hb hok hw ⊢
    have hdc := hok.header
    have hne : itemCnt' ≠ maxItems' := by simpa [taken] using hb
    have hle : itemCnt' ≤ maxItems' := by
      have := hok.length_le
      rw [maxItems_node, ← hdc.itemCnt_eq] at this
      exact this
    exact ⟨_, rfl, hok, by simp only [itemCnt_node, maxItems_node]; omega, hw, rfl⟩

/-- **`insert` on a node that is not full.**  It succeeds (its `panic(nil)` is
never reached), keeps the node well formed, adds `weight` to its weight, and
adds one entry, at the index it returns, to its entries. -/
theorem NodeOk.insert_spec : ∀ {L : ℕ} {s : WrsSlot α}, NodeOk L s → s.itemCnt < s.maxItems → weight ≠ 0 →
    ∃ s' p, s.insert a weight = .ok (s', p) ∧ NodeOk L s' ∧ s'.sumWeight = s.sumWeight + weight ∧
      s'.maxItems = s.maxItems ∧ s'.entries.Perm (s.entries ++ [(p, a, weight)]) := by
  intro L
  induction L with
  | zero =>
    intro s h hlt hw
    obtain ⟨items, weights, sumWeight, itemCnt, maxItems, rfl⟩ := h.eq_node
    obtain ⟨hd, hslots⟩ := nodeOk_zero.mp h
    obtain ⟨j, hj⟩ := h.exists_free hlt
    obtain ⟨b, hfind, hb⟩ := findBranch_free h.taken_ok 0 j (Nat.zero_le _) hj
    -- at level `0` the free slot is nil
    have hnil : items b = nil ∧ weights b = 0 := by
      rcases hslots b with hnil | ⟨x, hx, -⟩
      · exact hnil
      · simp [hx, taken] at hb
    have hperm : (node (Function.update items b (item a)) (Function.update weights b (weights b + weight))
        (sumWeight + weight) 0 (itemCnt + 1) maxItems).entries.Perm
          ((node items weights sumWeight 0 itemCnt maxItems).entries ++ [((b : ℕ), a, weight)]) := by
      rw [entries_node, entries_node]
      refine perm_flatMap_append (b := b) ?_ fun i hi => ?_
      · simp [hnil.1, hnil.2]
      · simp only [Function.update_of_ne hi]
    refine ⟨node (Function.update items b (item a)) (Function.update weights b (weights b + weight))
        (sumWeight + weight) 0 (itemCnt + 1) maxItems, b, ?_, ?_, rfl, rfl, hperm⟩
    · rw [WrsSlot.insert, hfind, Except.ok_bind, dif_pos rfl]
      rfl
    · refine nodeOk_zero.mpr ⟨⟨rfl, hd.maxItems_eq, ?_, ?_⟩, fun i => ?_⟩
      · rw [sum_update, hd.sumWeight_eq, hnil.2]
        abel
      · rw [hperm.length_eq, List.length_append, ← hd.itemCnt_eq, List.length_singleton]
      · by_cases hi : i = b
        · subst hi
          exact .inr ⟨a, by simp, by simpa [hnil.2] using hw⟩
        · simpa only [Function.update_of_ne hi] using hslots i
  | succ L ih =>
    intro s h hlt hw
    obtain ⟨items, weights, sumWeight, itemCnt, maxItems, rfl⟩ := h.eq_node
    obtain ⟨hd, hslots⟩ := nodeOk_succ.mp h
    obtain ⟨j, hj⟩ := h.exists_free hlt
    obtain ⟨b, hfind, hb⟩ := findBranch_free h.taken_ok 0 j (Nat.zero_le _) hj
    obtain ⟨sub, hsub, hok, hsublt, hwb, hblock⟩ := h.subNode_spec hb
    -- the item goes into the node below the free slot
    obtain ⟨sub', p, hins, hok', hsum', hmax', hperm'⟩ := ih hok hsublt hw
    have hperm : (node (Function.update items b sub') (Function.update weights b (weights b + weight))
        (sumWeight + weight) (L + 1) (itemCnt + 1) maxItems).entries.Perm
          ((node items weights sumWeight (L + 1) itemCnt maxItems).entries ++
            [(sub.maxItems * b + p, a, weight)]) := by
      rw [entries_node, entries_node]
      refine perm_flatMap_append (b := b) ?_ fun i hi => ?_
      · simp only [Function.update_self, hblock]
        rw [hok'.block_eq, hmax']
        have := hperm'.map fun e : ℕ × α × UInt64 => (sub.maxItems * b + e.1, e.2)
        simpa using this
      · simp only [Function.update_of_ne hi]
    refine ⟨node (Function.update items b sub') (Function.update weights b (weights b + weight))
        (sumWeight + weight) (L + 1) (itemCnt + 1) maxItems, sub.maxItems * b + p, ?_, ?_, rfl, rfl, hperm⟩
    · rw [WrsSlot.insert, hfind, Except.ok_bind, dif_neg (by omega)]
      split
      · next e he =>
        rw [hsub] at he
        cases he
      · next sub₀ he =>
        rw [hsub] at he
        cases he
        rw [hins, Except.ok_bind]
        rfl
    · refine nodeOk_succ.mpr ⟨⟨rfl, hd.maxItems_eq, ?_, ?_⟩, fun i => ?_⟩
      · rw [sum_update, hd.sumWeight_eq]
        abel
      · rw [hperm.length_eq, List.length_append, ← hd.itemCnt_eq, List.length_singleton]
      · by_cases hi : i = b
        · subst hi
          exact .inr ⟨by simpa using hok', by simp [hsum', hwb]⟩
        · simpa only [Function.update_of_ne hi] using hslots i

end Insert

/-! ### `setWeight` -/

section SetWeight

variable {items : Fin wrsBranches → WrsSlot α} {weights : Fin wrsBranches → UInt64}
  {sumWeight : UInt64} {level itemCnt maxItems L : ℕ} {weight : UInt64}

/-- The entry at index `p` after `setWeight` there: it takes `weight`, or leaves
at weight zero.  Every other entry stays. -/
def setAt (p : ℕ) (weight : UInt64) (e : ℕ × α × UInt64) : Option (ℕ × α × UInt64) :=
  if e.1 = p then (if weight = 0 then none else some (p, e.2.1, weight)) else some e

theorem mem_entries_node {e : ℕ × α × UInt64} :
    e ∈ (node items weights sumWeight level itemCnt maxItems).entries ↔
      ∃ i, e ∈ block (items i) (weights i) i (items i).entries := by
  simp [entries_node, List.mem_flatMap]

/-- `setAt` leaves a list without an entry at `p` alone. -/
theorem filterMap_setAt_of_forall {p : ℕ} {l : List (ℕ × α × UInt64)} (h : ∀ e ∈ l, e.1 ≠ p) :
    l.filterMap (setAt p weight) = l :=
  filterMap_of_forall fun e he => if_neg (h e he)

/-- `setAt` at the index of one entry, among entries with distinct indexes,
removes one entry at weight zero and none otherwise. -/
theorem length_filterMap_setAt {p : ℕ} {x : α} {old : UInt64} :
    ∀ {l : List (ℕ × α × UInt64)}, (l.map Prod.fst).Nodup → (p, x, old) ∈ l →
      (l.filterMap (setAt p weight)).length = if weight = 0 then l.length - 1 else l.length
  | [], _, hp => by cases hp
  | e :: l, hnd, hp => by
    rw [List.map_cons, List.nodup_cons] at hnd
    by_cases he : e.1 = p
    · -- the entry at `p`; no other entry is there
      have hrest : l.filterMap (setAt p weight) = l :=
        filterMap_setAt_of_forall fun e' he' hp' => hnd.1 (he ▸ hp' ▸ List.mem_map_of_mem he')
      by_cases hw : weight = 0
      · rw [List.filterMap_cons_none (by simp [setAt, he, hw]), hrest, if_pos hw, List.length_cons,
          Nat.add_sub_cancel]
      · rw [List.filterMap_cons_some (b := (p, e.2.1, weight)) (by simp [setAt, he, hw]), hrest, if_neg hw,
          List.length_cons]
        rfl
    · have hpl : (p, x, old) ∈ l := by
        rcases List.mem_cons.mp hp with hpe | hpl
        · exact absurd (by rw [← hpe]) he
        · exact hpl
      have hpos : 0 < l.length := List.length_pos_of_mem hpl
      rw [List.filterMap_cons_some (show setAt p weight e = some e from if_neg he), List.length_cons,
        length_filterMap_setAt hnd.2 hpl, List.length_cons]
      split_ifs <;> omega

/-- `setAt` at an index in the run of slot `i` leaves the block of any other
slot alone. -/
theorem NodeOk.filterMap_setAt_block (h : NodeOk L (node items weights sumWeight level itemCnt maxItems))
    {i j : Fin wrsBranches} (hji : j ≠ i) {p : ℕ}
    (hp : wrsBranches ^ L * i ≤ p ∧ p < wrsBranches ^ L * (i + 1)) :
    (block (items j) (weights j) j (items j).entries).filterMap (setAt p weight) =
      block (items j) (weights j) j (items j).entries := by
  apply filterMap_setAt_of_forall
  intro e he hep
  have hj := div_eq_of_mem_run (h.block_run j e he)
  rw [hep, div_eq_of_mem_run hp] at hj
  exact hji (Fin.ext hj.symm)

/-- `setAt` commutes with moving the indexes into a run. -/
theorem filterMap_setAt_map_shift (M i q : ℕ) (l : List (ℕ × α × UInt64)) :
    (l.filterMap (setAt q weight)).map (fun e => (M * i + e.1, e.2)) =
      (l.map fun e => (M * i + e.1, e.2)).filterMap (setAt (M * i + q) weight) := by
  rw [List.map_filterMap, List.filterMap_map]
  apply List.filterMap_congr
  intro e _
  simp only [setAt, Function.comp_apply, Nat.add_left_cancel_iff]
  split_ifs <;> rfl

/-- **`setWeight` at the index of an entry.**  It succeeds, keeps the node well
formed, moves its weight by the change of the entry's weight, which it returns,
and changes that entry only: the entry takes the new weight, or goes at weight
zero. -/
theorem NodeOk.setWeight_spec : ∀ {L : ℕ} {s : WrsSlot α} {p : ℕ} {x : α} {old : UInt64},
    NodeOk L s → (p, x, old) ∈ s.entries →
      ∃ s', s.setWeight p weight = .ok (s', weight - old) ∧ NodeOk L s' ∧
        s'.sumWeight = s.sumWeight + (weight - old) ∧ s'.maxItems = s.maxItems ∧
        s'.entries = s.entries.filterMap (setAt p weight) := by
  intro L
  induction L with
  | zero =>
    intro s p x old h hp
    obtain ⟨items, weights, sumWeight, itemCnt, maxItems, rfl⟩ := h.eq_node
    obtain ⟨hd, hslots⟩ := nodeOk_zero.mp h
    -- at level `0` the entry is the item of slot `p`
    obtain ⟨i, hi⟩ := mem_entries_node.mp hp
    obtain ⟨hx, hw0⟩ : items i = item x ∧ weights i = old ∧ p = i := by
      rcases hslots i with ⟨hnil, -⟩ | ⟨a, ha, -⟩
      · simp [hnil] at hi
      · simp only [ha, block_item, List.mem_singleton, Prod.mk.injEq] at hi
        obtain ⟨rfl, rfl, rfl⟩ := hi
        exact ⟨ha, rfl, rfl⟩
    obtain ⟨rfl, rfl⟩ := hw0
    have hrun : wrsBranches ^ 0 * i ≤ (i : ℕ) ∧ (i : ℕ) < wrsBranches ^ 0 * (i + 1) := by simp
    have hentries : (node (if weight = 0 then Function.update items i nil else items)
        (Function.update weights i weight) (sumWeight + (weight - weights i)) 0
        (if weight = 0 then itemCnt - 1 else itemCnt) maxItems).entries =
          (node items weights sumWeight 0 itemCnt maxItems).entries.filterMap (setAt i weight) := by
      rw [entries_node, entries_node]
      apply flatMap_filterMap
      intro j
      by_cases hj : j = i
      · subst hj
        by_cases hw : weight = 0 <;> simp [hw, hx, setAt]
      · rw [h.filterMap_setAt_block hj hrun]
        by_cases hw : weight = 0 <;> simp [hw, Function.update_of_ne hj]
    refine ⟨node (if weight = 0 then Function.update items i nil else items)
        (Function.update weights i weight) (sumWeight + (weight - weights i)) 0
        (if weight = 0 then itemCnt - 1 else itemCnt) maxItems, ?_, ?_, rfl, rfl, hentries⟩
    · rw [WrsSlot.setWeight, if_pos rfl, dif_pos i.isLt]
      rfl
    · refine nodeOk_zero.mpr ⟨⟨rfl, hd.maxItems_eq, ?_, ?_⟩, fun j => ?_⟩
      · rw [sum_update, hd.sumWeight_eq]
      · rw [hentries, length_filterMap_setAt h.indexes.1 hp, ← hd.itemCnt_eq]
      · by_cases hj : j = i
        · subst hj
          by_cases hw : weight = 0
          · exact .inl ⟨by simp [hw], by simp [hw]⟩
          · exact .inr ⟨x, by simp [hw, hx], by simpa using hw⟩
        · by_cases hw : weight = 0 <;> simpa [hw, Function.update_of_ne hj] using hslots j
  | succ L ih =>
    intro s p x old h hp
    obtain ⟨items, weights, sumWeight, itemCnt, maxItems, rfl⟩ := h.eq_node
    obtain ⟨hd, hslots⟩ := nodeOk_succ.mp h
    obtain ⟨i, hi⟩ := mem_entries_node.mp hp
    have hrun := h.block_run i _ hi
    -- the entry is one of the node below slot `i`, moved into the slot's run
    obtain ⟨hok, hwc⟩ : NodeOk L (items i) ∧ weights i = (items i).sumWeight := by
      rcases hslots i with ⟨hnil, -⟩ | hok
      · simp [hnil] at hi
      · exact hok
    rw [hok.block_eq] at hi
    obtain ⟨⟨q, y, w⟩, hq, heq⟩ := List.mem_map.mp hi
    simp only [Prod.mk.injEq] at heq
    obtain ⟨hpq, hy, hw⟩ := heq
    subst y w
    obtain ⟨c', hset, hok', hsum', hmax', hent'⟩ := ih hok hq
    have hmaxc : (items i).maxItems = wrsBranches ^ (L + 1) := by
      obtain ⟨_, _, _, _, _, hc⟩ := hok.eq_node
      rw [hc] at hok ⊢
      exact hok.header.maxItems_eq
    -- `setWeight` finds slot `i` and index `q` by division
    have hM : maxItems / wrsBranches = wrsBranches ^ (L + 1) := by
      rw [hd.maxItems_eq, pow_succ, Nat.mul_div_cancel _ (by decide)]
    have hdiv : p / (maxItems / wrsBranches) = i := by
      rw [hM]
      exact div_eq_of_mem_run hrun
    have hsub : p - p / (maxItems / wrsBranches) * (maxItems / wrsBranches) = q := by
      rw [hdiv, hM, ← hpq, hmaxc, Nat.mul_comm]
      omega
    have hentries : (node (Function.update items i c') (Function.update weights i (weights i + (weight - old)))
        (sumWeight + (weight - old)) (L + 1) (if weight = 0 then itemCnt - 1 else itemCnt) maxItems).entries =
          (node items weights sumWeight (L + 1) itemCnt maxItems).entries.filterMap (setAt p weight) := by
      rw [entries_node, entries_node]
      apply flatMap_filterMap
      intro j
      by_cases hj : j = i
      · subst hj
        simp only [Function.update_self]
        rw [hok'.block_eq, hok.block_eq, hent', hmax', ← hpq, filterMap_setAt_map_shift]
      · simp only [Function.update_of_ne hj]
        rw [h.filterMap_setAt_block hj hrun]
    refine ⟨node (Function.update items i c') (Function.update weights i (weights i + (weight - old)))
        (sumWeight + (weight - old)) (L + 1) (if weight = 0 then itemCnt - 1 else itemCnt) maxItems,
        ?_, ?_, rfl, rfl, hentries⟩
    · have hfin : (⟨p / (maxItems / wrsBranches), hdiv ▸ i.isLt⟩ : Fin wrsBranches) = i := Fin.ext hdiv
      obtain ⟨items', weights', sumWeight', itemCnt', maxItems', hc⟩ := hok.eq_node
      rw [WrsSlot.setWeight, if_neg (Nat.succ_ne_zero L), if_neg (by rw [hM]; positivity),
        dif_pos (hdiv ▸ i.isLt), hfin, hsub, hc]
      dsimp only
      rw [← hc, hset, Except.ok_bind]
      rfl
    · refine nodeOk_succ.mpr ⟨⟨rfl, hd.maxItems_eq, ?_, ?_⟩, fun j => ?_⟩
      · rw [sum_update, hd.sumWeight_eq]
        abel
      · rw [hentries, length_filterMap_setAt h.indexes.1 hp, ← hd.itemCnt_eq]
      · by_cases hj : j = i
        · subst hj
          exact .inr ⟨by simpa using hok', by simp [hsum', hwc]⟩
        · simpa only [Function.update_of_ne hj] using hslots j

end SetWeight

/-! ### A new root -/

/-- **A new root above a full root.**  It is well formed a level up, holds the
same entries at the same indexes, and has the old root's weight. -/
theorem NodeOk.grow {L : ℕ} {s : WrsSlot α} (h : NodeOk L s) :
    NodeOk (L + 1) s.grow ∧ s.grow.entries = s.entries ∧ s.grow.sumWeight = s.sumWeight ∧
      s.grow.itemCnt = s.itemCnt ∧ s.grow.maxItems = s.maxItems * wrsBranches := by
  obtain ⟨items, weights, sumWeight, itemCnt, maxItems, rfl⟩ := h.eq_node
  have hd := h.header
  -- the old root is slot `0`, whose run starts at index `0`; the other slots are nil
  have hentries : (node items weights sumWeight L itemCnt maxItems).grow.entries =
      (node items weights sumWeight L itemCnt maxItems).entries := by
    rw [WrsSlot.grow, entries_node, List.finRange_succ, List.flatMap_cons, List.flatMap_map]
    simp [Fin.succ_ne_zero]
  refine ⟨nodeOk_succ.mpr ⟨⟨?_, ?_, ?_, ?_⟩, fun j => ?_⟩, hentries, rfl, rfl, rfl⟩
  · simp
  · rw [maxItems_node, hd.maxItems_eq]
    ring
  · rw [sum_update, sumWeight_node]
    simp
  · rw [← WrsSlot.grow, hentries, ← hd.itemCnt_eq]
    rfl
  · by_cases hj : j = 0
    · subst hj
      exact .inr ⟨by simpa using h, by simp⟩
    · exact .inl ⟨by simp [hj], by simp [hj]⟩

/-! ### Exact sums -/

/-- The total weight below a slot, as a natural number. -/
def total (s : WrsSlot α) : ℕ := (s.entries.map fun e => e.2.2.toNat).sum

section Exact

variable {items : Fin wrsBranches → WrsSlot α} {weights : Fin wrsBranches → UInt64}
  {sumWeight : UInt64} {level itemCnt maxItems L : ℕ}

/-- The total of a node is the sum of its blocks' totals. -/
theorem total_node :
    (node items weights sumWeight level itemCnt maxItems).total =
      ∑ j, ((block (items j) (weights j) j (items j).entries).map fun e => e.2.2.toNat).sum := by
  rw [total, entries_node, sum_map_flatMap]

/-- The total below a slot of a node is at most the node's total. -/
theorem total_block_le (j : Fin wrsBranches) :
    ((block (items j) (weights j) j (items j).entries).map fun e => e.2.2.toNat).sum ≤
      (node items weights sumWeight level itemCnt maxItems).total := by
  rw [total_node]
  exact Finset.single_le_sum (f := fun j => ((block (items j) (weights j) j (items j).entries).map
    fun e => e.2.2.toNat).sum) (fun _ _ => Nat.zero_le _) (Finset.mem_univ j)

/-- The entries of a node below a slot have the node's total. -/
theorem total_block_of_nodeOk {s : WrsSlot α} (h : NodeOk L s) (w : UInt64) (j : ℕ) :
    ((block s w j s.entries).map fun e => e.2.2.toNat).sum = s.total := by
  rw [h.block_eq, List.map_map, total]
  rfl

/-- At level `0` the weight of a slot is its block's total. -/
theorem NodeOk.weight_toNat_zero (h : NodeOk 0 (node items weights sumWeight level itemCnt maxItems))
    (j : Fin wrsBranches) :
    (weights j).toNat = ((block (items j) (weights j) j (items j).entries).map fun e => e.2.2.toNat).sum := by
  rcases (nodeOk_zero.mp h).2 j with ⟨hj, hw⟩ | ⟨a, hj, -⟩
  · simp [hj, hw]
  · simp [hj]

/-- Above level `0` the weight of a slot is its block's total, once the nodes
below have exact sums. -/
theorem NodeOk.weight_toNat_succ
    (hbelow : ∀ {c : WrsSlot α}, NodeOk L c → c.total < 2 ^ 64 → c.sumWeight.toNat = c.total)
    (h : NodeOk (L + 1) (node items weights sumWeight level itemCnt maxItems))
    (htot : (node items weights sumWeight level itemCnt maxItems).total < 2 ^ 64) (j : Fin wrsBranches) :
    (weights j).toNat = ((block (items j) (weights j) j (items j).entries).map fun e => e.2.2.toNat).sum := by
  rcases (nodeOk_succ.mp h).2 j with ⟨hj, hw⟩ | ⟨hok, hw⟩
  · simp [hj, hw]
  · have hle : ((block (items j) (weights j) j (items j).entries).map fun e => e.2.2.toNat).sum ≤
        (node items weights sumWeight level itemCnt maxItems).total := total_block_le j
    rw [total_block_of_nodeOk hok] at hle ⊢
    rw [hw, hbelow hok (lt_of_le_of_lt hle htot)]

/-- The `uint64` sum of a node is its total, when the block totals are the
slots' weights and the total is below `2 ^ 64`. -/
theorem sumWeight_toNat_of (hd : Header L items weights sumWeight level itemCnt maxItems)
    (htot : (node items weights sumWeight level itemCnt maxItems).total < 2 ^ 64)
    (hw : ∀ j, (weights j).toNat =
      ((block (items j) (weights j) j (items j).entries).map fun e => e.2.2.toNat).sum) :
    sumWeight.toNat = (node items weights sumWeight level itemCnt maxItems).total := by
  rw [total_node] at htot ⊢
  rw [hd.sumWeight_eq, WeightedPick.toNat_sum, Finset.sum_congr rfl fun j _ => hw j, Nat.mod_eq_of_lt htot]

/-- **Exact sums.**  While the total below a well-formed node is below `2 ^ 64`,
its `uint64` weight is that total. -/
theorem NodeOk.sumWeight_toNat : ∀ {L : ℕ} {s : WrsSlot α}, NodeOk L s → s.total < 2 ^ 64 →
    s.sumWeight.toNat = s.total := by
  intro L
  induction L with
  | zero =>
    intro s h htot
    obtain ⟨items, weights, sumWeight, itemCnt, maxItems, rfl⟩ := h.eq_node
    exact sumWeight_toNat_of h.header htot h.weight_toNat_zero
  | succ L ih =>
    intro s h htot
    obtain ⟨items, weights, sumWeight, itemCnt, maxItems, rfl⟩ := h.eq_node
    exact sumWeight_toNat_of h.header htot (h.weight_toNat_succ ih htot)

/-- While the total below a well-formed node is below `2 ^ 64`, the weight of
each slot is the total of its block. -/
theorem NodeOk.weight_toNat (h : NodeOk L (node items weights sumWeight level itemCnt maxItems))
    (htot : (node items weights sumWeight level itemCnt maxItems).total < 2 ^ 64) (j : Fin wrsBranches) :
    (weights j).toNat = ((block (items j) (weights j) j (items j).entries).map fun e => e.2.2.toNat).sum := by
  cases L with
  | zero => exact h.weight_toNat_zero j
  | succ L => exact h.weight_toNat_succ (fun hc => hc.sumWeight_toNat) htot j

end Exact

/-! ### `choose` -/

/-- **The loop of `choose` is `locate`** over the slots' weights: from slot `i`
on, it finds the slot and the remaining value that `locate` finds in the
weights from `i` on. -/
theorem pickBranch_map (weights : Fin wrsBranches → UInt64) :
    ∀ (val : UInt64) (i : ℕ), (pickBranch weights val i).map (fun r => ((r.1 : ℕ), r.2.toNat)) =
      (WeightedPick.locate ((List.ofFn fun j => (weights j).toNat).drop i) val.toNat).map
        fun r => (r.1 + i, r.2)
  | val, i => by
    rw [pickBranch]
    by_cases h : i < wrsBranches
    · rw [dif_pos h, List.drop_eq_getElem_cons (by simpa using h), List.getElem_ofFn,
        WeightedPick.locate_cons]
      by_cases hv : val < weights ⟨i, h⟩
      · rw [if_pos hv, if_pos (UInt64.lt_iff_toNat_lt.mp hv)]
        simp
      · -- past slot `i`: the value less its weight, searched for from `i + 1`
        have hle : weights ⟨i, h⟩ ≤ val :=
          UInt64.le_iff_toNat_le.mpr (Nat.le_of_not_lt fun h' => hv (UInt64.lt_iff_toNat_lt.mpr h'))
        rw [if_neg hv, if_neg (fun h' => hv (UInt64.lt_iff_toNat_lt.mpr h')), pickBranch_map weights _ (i + 1),
          UInt64.toNat_sub_of_le _ _ hle, Option.map_map]
        congr 1
        funext r
        simp only [Function.comp_apply, Prod.mk.injEq, and_true]
        omega
    · rw [dif_neg h, List.drop_of_length_le (by rw [List.length_ofFn]; exact Nat.le_of_not_lt h)]
      rfl
termination_by _ i => wrsBranches - i

/-- A value below `2 ^ 64` is searched for by `locate` over the slots' weights. -/
theorem pickBranch_ofNat (weights : Fin wrsBranches → UInt64) {v : ℕ} (hv : v < 2 ^ 64) :
    (pickBranch weights (UInt64.ofNat v) 0).map (fun r => ((r.1 : ℕ), r.2.toNat)) =
      WeightedPick.locate (List.ofFn fun j => (weights j).toNat) v := by
  rw [pickBranch_map, List.drop_zero, UInt64.toNat_ofNat', Nat.mod_eq_of_lt hv]
  simp

section Choose

variable {items : Fin wrsBranches → WrsSlot α} {weights : Fin wrsBranches → UInt64}
  {sumWeight : UInt64} {level itemCnt maxItems L : ℕ}

/-- The slots' weights of a well-formed node with an exact sum add up to its total. -/
theorem NodeOk.sum_ofFn_weights (h : NodeOk L (node items weights sumWeight level itemCnt maxItems))
    (htot : (node items weights sumWeight level itemCnt maxItems).total < 2 ^ 64) :
    (List.ofFn fun j => (weights j).toNat).sum = (node items weights sumWeight level itemCnt maxItems).total := by
  rw [List.sum_ofFn, total_node]
  exact Finset.sum_congr rfl fun j _ => h.weight_toNat htot j

/-- Below the total of a well-formed node with an exact sum, the loop of
`choose` stops at a slot whose weight is above the remaining value. -/
theorem NodeOk.pickBranch_lt (h : NodeOk L (node items weights sumWeight level itemCnt maxItems))
    (htot : (node items weights sumWeight level itemCnt maxItems).total < 2 ^ 64) {v : ℕ}
    (hv : v < (node items weights sumWeight level itemCnt maxItems).total) :
    ∃ i r, pickBranch weights (UInt64.ofNat v) 0 = some (i, r) ∧ r.toNat < (weights i).toNat := by
  have hmap := pickBranch_ofNat weights (lt_trans hv htot)
  have hsome : WeightedPick.locate (List.ofFn fun j => (weights j).toNat) v ≠ none := by
    rw [Ne, WeightedPick.locate_eq_none_iff, h.sum_ofFn_weights htot]
    omega
  cases hp : pickBranch weights (UInt64.ofNat v) 0 with
  | none =>
    rw [hp] at hmap
    exact absurd hmap.symm hsome
  | some q =>
    obtain ⟨i, r⟩ := q
    rw [hp] at hmap
    obtain ⟨-, hr, -⟩ := WeightedPick.locate_eq_some_iff.mp hmap.symm
    refine ⟨i, r, rfl, ?_⟩
    rw [List.getD_eq_getElem?_getD, List.getElem?_ofFn, dif_pos i.isLt] at hr
    exact hr

/-- **`choose` does not panic.**  Below the total of a well-formed node with an
exact sum, `choose` returns an entry's item and stored weight. -/
theorem NodeOk.choose_ok : ∀ {L : ℕ} {s : WrsSlot α}, NodeOk L s → s.total < 2 ^ 64 → ∀ {v : ℕ}, v < s.total →
    ∃ p a w, s.choose (UInt64.ofNat v) = .ok (a, w) ∧ (p, a, w) ∈ s.entries := by
  intro L
  induction L with
  | zero =>
    intro s h htot v hv
    obtain ⟨items, weights, sumWeight, itemCnt, maxItems, rfl⟩ := h.eq_node
    obtain ⟨i, r, hpick, hr⟩ := h.pickBranch_lt htot hv
    -- the slot has weight, so it holds an item
    rcases (nodeOk_zero.mp h).2 i with ⟨-, hw⟩ | ⟨b, hb, -⟩
    · rw [hw] at hr
      exact absurd hr (Nat.not_lt_zero _)
    · refine ⟨i, b, weights i, by simp [choose, hpick, hb, pure, Except.pure], ?_⟩
      exact mem_entries_node.mpr ⟨i, by simp [hb]⟩
  | succ L ih =>
    intro s h htot v hv
    obtain ⟨items, weights, sumWeight, itemCnt, maxItems, rfl⟩ := h.eq_node
    obtain ⟨i, r, hpick, hr⟩ := h.pickBranch_lt htot hv
    -- the slot has weight, so it holds a node, whose total is that weight
    rcases (nodeOk_succ.mp h).2 i with ⟨-, hw⟩ | ⟨hok, -⟩
    · rw [hw] at hr
      exact absurd hr (Nat.not_lt_zero _)
    · have hwi := h.weight_toNat htot i
      rw [total_block_of_nodeOk hok] at hwi
      have hle : ((block (items i) (weights i) i (items i).entries).map fun e => e.2.2.toNat).sum ≤
          (node items weights sumWeight (L + 1) itemCnt maxItems).total := total_block_le i
      rw [total_block_of_nodeOk hok] at hle
      obtain ⟨q, b, w, hch, hq⟩ := ih hok (lt_of_le_of_lt hle htot) (v := r.toNat) (by omega)
      rw [UInt64.ofNat_toNat] at hch
      obtain ⟨_, _, _, _, _, hc⟩ := hok.eq_node
      refine ⟨(items i).maxItems * i + q, b, w, ?_, ?_⟩
      · rw [hc] at hch
        simp [choose, hpick, hc, hch]
      · exact mem_entries_node.mpr ⟨i, by rw [hok.block_eq]; exact List.mem_map.mpr ⟨(q, b, w), hq, rfl⟩⟩

end Choose

variable [DecidableEq α]

/-- Whether a slot holds the item `a`. -/
def isItem (a : α) : WrsSlot α → Bool
  | item b => b == a
  | _ => false

/-- Whether `choose` lands on the item `a` from the value `v`. -/
def landsOn (s : WrsSlot α) (v : ℕ) (a : α) : Bool :=
  match s.choose (UInt64.ofNat v) with
  | .ok r => r.1 == a
  | .error _ => false

/-- The weight stored for the item `a` below a slot. -/
def weightOf (s : WrsSlot α) (a : α) : ℕ :=
  ((s.entries.filter fun e => e.2.1 == a).map fun e => e.2.2.toNat).sum

section Count

variable {items : Fin wrsBranches → WrsSlot α} {weights : Fin wrsBranches → UInt64}
  {sumWeight : UInt64} {level itemCnt maxItems L : ℕ}

/-- `choose` on a node lands where its loop stops: on the item of that slot at
level `0`, and where the node below lands from the remaining value above. -/
theorem landsOn_node (v : ℕ) (a : α) :
    (node items weights sumWeight level itemCnt maxItems).landsOn v a =
      (pickBranch weights (UInt64.ofNat v) 0).any fun q =>
        if level = 0 then isItem a (items q.1) else (items q.1).landsOn q.2.toNat a := by
  cases hp : pickBranch weights (UInt64.ofNat v) 0 with
  | none => simp [landsOn, choose, hp, throw, throwThe, MonadExceptOf.throw]
  | some q =>
    obtain ⟨i, r⟩ := q
    by_cases hl : level = 0
    · cases hi : items i <;>
        simp [landsOn, choose, hp, hl, hi, isItem, throw, throwThe, MonadExceptOf.throw, pure, Except.pure]
    · cases hi : items i <;> simp [landsOn, choose, hp, hl, hi, throw, throwThe, MonadExceptOf.throw]

/-- The weight stored for an item below a node is the sum over its blocks. -/
theorem weightOf_node (a : α) :
    (node items weights sumWeight level itemCnt maxItems).weightOf a =
      ∑ j, (((block (items j) (weights j) j (items j).entries).filter fun e => e.2.1 == a).map
        fun e => e.2.2.toNat).sum := by
  rw [weightOf, entries_node, List.filter_flatMap, sum_map_flatMap]

/-- The block of a well-formed node stores what the node stores. -/
theorem weightOf_block_of_nodeOk {s : WrsSlot α} (h : NodeOk L s) (w : UInt64) (j : ℕ) (a : α) :
    (((block s w j s.entries).filter fun e => e.2.1 == a).map fun e => e.2.2.toNat).sum = s.weightOf a := by
  rw [h.block_eq, List.filter_map, List.map_map, weightOf]
  rfl

/-- Counting over a node from the counts in its slots: the values below the
node's total are cut by `locate` into one run per slot, and the run of each
slot lands as the slot does. -/
theorem NodeOk.card_landsOn_node (h : NodeOk L (node items weights sumWeight L itemCnt maxItems))
    (htot : (node items weights sumWeight L itemCnt maxItems).total < 2 ^ 64) (a : α)
    (hslot : ∀ j, ((Finset.range (weights j).toNat).filter fun r =>
        if L = 0 then isItem a (items j) else (items j).landsOn r a).card =
      (((block (items j) (weights j) j (items j).entries).filter fun e => e.2.1 == a).map
        fun e => e.2.2.toNat).sum) :
    ((Finset.range (node items weights sumWeight L itemCnt maxItems).total).filter fun v =>
        (node items weights sumWeight L itemCnt maxItems).landsOn v a).card =
      (node items weights sumWeight L itemCnt maxItems).weightOf a := by
  -- where a slot's run lands, as a function of the slot's number and the offset
  let q : ℕ → ℕ → Bool := fun j r =>
    if hj : j < wrsBranches then
      (if L = 0 then isItem a (items ⟨j, hj⟩) else (items ⟨j, hj⟩).landsOn r a)
    else false
  have hland : ∀ v ∈ Finset.range (node items weights sumWeight L itemCnt maxItems).total,
      (node items weights sumWeight L itemCnt maxItems).landsOn v a =
        (WeightedPick.locate (List.ofFn fun j => (weights j).toNat) v).any fun p => q p.1 p.2 := by
    intro v hv
    rw [Finset.mem_range] at hv
    rw [landsOn_node, ← pickBranch_ofNat weights (lt_trans hv htot), Option.any_map]
    congr 1
    funext r
    simp only [q, dif_pos r.1.isLt, Fin.eta]
  rw [Finset.filter_congr fun v hv => by rw [hland v hv], ← h.sum_ofFn_weights htot, WeightedPick.card_filter_locate,
    weightOf_node, List.length_ofFn, Finset.sum_range]
  refine Finset.sum_congr rfl fun j _ => ?_
  rw [← hslot j, List.getD_eq_getElem?_getD, List.getElem?_ofFn, dif_pos j.isLt, Option.getD_some]
  congr 1
  apply Finset.filter_congr
  intro r _
  simp only [q, dif_pos j.isLt, Fin.eta]

/-- **`choose` picks each item as often as its stored weight.**  Below the
total of a well-formed node with an exact sum, the values from which `choose`
lands on `a` are exactly as many as the weight stored for `a`. -/
theorem NodeOk.card_landsOn : ∀ {L : ℕ} {s : WrsSlot α}, NodeOk L s → s.total < 2 ^ 64 → ∀ a : α,
    ((Finset.range s.total).filter fun v => s.landsOn v a).card = s.weightOf a := by
  intro L
  induction L with
  | zero =>
    intro s h htot a
    obtain ⟨items, weights, sumWeight, itemCnt, maxItems, rfl⟩ := h.eq_node
    refine h.card_landsOn_node htot a fun j => ?_
    -- a leaf slot is empty, or holds an item with its weight
    rcases (nodeOk_zero.mp h).2 j with ⟨hj, hw⟩ | ⟨b, hb, -⟩
    · simp [hj, hw]
    · by_cases hba : b = a <;> simp [hb, hba, isItem, Finset.filter_true_of_mem, Finset.filter_false_of_mem]
  | succ L ih =>
    intro s h htot a
    obtain ⟨items, weights, sumWeight, itemCnt, maxItems, rfl⟩ := h.eq_node
    refine h.card_landsOn_node htot a fun j => ?_
    -- an inner slot is empty, or holds a well-formed node of its weight
    rcases (nodeOk_succ.mp h).2 j with ⟨hj, hw⟩ | ⟨hok, -⟩
    · simp [hj, hw]
    · have hwj := h.weight_toNat htot j
      rw [total_block_of_nodeOk hok] at hwj
      have hle : ((block (items j) (weights j) j (items j).entries).map fun e => e.2.2.toNat).sum ≤
          (node items weights sumWeight (L + 1) itemCnt maxItems).total := total_block_le j
      rw [total_block_of_nodeOk hok] at hle
      simp only [Nat.add_one_ne_zero, if_false]
      rw [weightOf_block_of_nodeOk hok, hwj]
      exact ih hok (lt_of_le_of_lt hle htot) a

end Count

end WrsSlot

end RpcNetwork.Les
