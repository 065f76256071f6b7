import Mathlib
import RpcNetwork.Lib.ExceptRun
import RpcNetwork.Les.WeightedSelectTree

/-!
# `WeightedRandomSelect` over every run

`Inv`: the root is a well-formed node at its level, `idx` gives exactly the
stored items the index of their entry, and no item is stored twice.  Every
call keeps it, so every state reached from `NewWeightedRandomSelect` has it.

## Design notes

The entries of the new root are described up to order (`List.Perm`), through
`WrsSlot.setEntry`: what the callers need is which entries there are.  The
random draws are parameters of `chooseRound`.
-/

namespace RpcNetwork.Les

namespace WrsSlot

variable {α : Type} {L : ℕ} {s : WrsSlot α}

/-! ### Reading the invariant -/

theorem NodeOk.level_eq (h : NodeOk L s) : s.level = L := by
  obtain ⟨_, _, _, _, _, rfl⟩ := h.eq_node
  rfl

theorem NodeOk.itemCnt_eq (h : NodeOk L s) : s.itemCnt = s.entries.length := by
  obtain ⟨_, _, _, _, _, rfl⟩ := h.eq_node
  exact h.header.itemCnt_eq

theorem NodeOk.maxItems_eq (h : NodeOk L s) : s.maxItems = wrsBranches ^ (L + 1) := by
  obtain ⟨_, _, _, _, _, rfl⟩ := h.eq_node
  exact h.header.maxItems_eq

/-- A well-formed node is well formed at its own level. -/
theorem NodeOk.self (h : NodeOk L s) : NodeOk s.level s := by
  rw [h.level_eq]
  exact h

/-- Every entry below a well-formed node has a weight that is not zero. -/
theorem NodeOk.weight_ne_zero : ∀ {L : ℕ} {s : WrsSlot α}, NodeOk L s → ∀ e ∈ s.entries, e.2.2 ≠ 0 := by
  intro L
  induction L with
  | zero =>
    intro s h e he
    obtain ⟨items, weights, sumWeight, itemCnt, maxItems, rfl⟩ := h.eq_node
    obtain ⟨i, hi⟩ := mem_entries_node.mp he
    -- a leaf's entry is the item of a slot with a weight
    rcases (nodeOk_zero.mp h).2 i with ⟨hn, -⟩ | ⟨b, hb, hw⟩
    · simp [hn] at hi
    · rw [hb, block_item, List.mem_singleton] at hi
      rw [hi]
      exact hw
  | succ L ih =>
    intro s h e he
    obtain ⟨items, weights, sumWeight, itemCnt, maxItems, rfl⟩ := h.eq_node
    obtain ⟨i, hi⟩ := mem_entries_node.mp he
    rcases (nodeOk_succ.mp h).2 i with ⟨hn, -⟩ | ⟨hok, -⟩
    · simp [hn] at hi
    · rw [hok.block_eq] at hi
      obtain ⟨e', he', rfl⟩ := List.mem_map.mp hi
      exact ih hok e' he'

/-- An entry's weight is at most the total. -/
theorem toNat_le_total {e : ℕ × α × UInt64} (he : e ∈ s.entries) : e.2.2.toNat ≤ s.total :=
  List.le_sum_of_mem (List.mem_map_of_mem he)

/-! ### Setting the entry of an item -/

section SetEntry

variable [DecidableEq α] {l : List (ℕ × α × UInt64)} {a : α} {p : ℕ} {weight : UInt64}

/-- The entries after the weight of `a` is set to `weight`: the other items'
entries, and an entry of `a` at `p` unless `weight` is zero. -/
def setEntry (l : List (ℕ × α × UInt64)) (a : α) (p : ℕ) (weight : UInt64) : List (ℕ × α × UInt64) :=
  l.filter (fun e => e.2.1 != a) ++ if weight = 0 then [] else [(p, a, weight)]

theorem setEntry_cons_of_ne {e : ℕ × α × UInt64} (he : e.2.1 ≠ a) :
    setEntry (e :: l) a p weight = e :: setEntry l a p weight := by
  simp [setEntry, he]

/-- Setting an item that has no entry only adds one. -/
theorem setEntry_of_forall (h : ∀ e ∈ l, e.2.1 ≠ a) :
    setEntry l a p weight = l ++ if weight = 0 then [] else [(p, a, weight)] := by
  rw [setEntry, List.filter_eq_self.mpr fun e he => by simpa using h e he]

theorem mem_setEntry {e : ℕ × α × UInt64} :
    e ∈ setEntry l a p weight ↔ (e ∈ l ∧ e.2.1 ≠ a) ∨ (weight ≠ 0 ∧ e = (p, a, weight)) := by
  by_cases hw : weight = 0 <;> simp [setEntry, hw]

/-- Setting an item keeps the items distinct. -/
theorem nodup_setEntry (h : (l.map fun e => e.2.1).Nodup) :
    ((setEntry l a p weight).map fun e => e.2.1).Nodup := by
  have hfilter : ((l.filter fun e => e.2.1 != a).map fun e => e.2.1).Nodup :=
    h.sublist ((List.filter_sublist).map _)
  by_cases hw : weight = 0
  · simpa [setEntry, hw] using hfilter
  · rw [setEntry, if_neg hw, List.map_append, List.nodup_append]
    refine ⟨hfilter, List.nodup_singleton _, ?_⟩
    intro b hb c hc
    obtain ⟨e, he, rfl⟩ := List.mem_map.mp hb
    rw [List.map_singleton, List.mem_singleton] at hc
    rw [hc]
    simpa using (List.mem_filter.mp he).2

/-- `setAt` at the index of `a`'s entry, among entries with distinct indexes
and distinct items, sets `a`'s entry. -/
theorem filterMap_setAt_perm {old : UInt64} :
    ∀ {l : List (ℕ × α × UInt64)}, (l.map Prod.fst).Nodup → (l.map fun e => e.2.1).Nodup → (p, a, old) ∈ l →
      (l.filterMap (setAt p weight)).Perm (setEntry l a p weight)
  | [], _, _, hp => by cases hp
  | e :: l, hnd, hni, hp => by
    rw [List.map_cons, List.nodup_cons] at hnd hni
    by_cases he : e.1 = p
    · -- `e` is `a`'s entry, and the rest has neither its index nor its item
      have hea : e = (p, a, old) := by
        rcases List.mem_cons.mp hp with hpe | hpl
        · exact hpe.symm
        · exact absurd (he ▸ List.mem_map_of_mem (f := Prod.fst) hpl) hnd.1
      subst hea
      have hrest : l.filterMap (setAt p weight) = l :=
        filterMap_setAt_of_forall fun e' he' hp' =>
          hnd.1 (by show p ∈ l.map Prod.fst; rw [← hp']; exact List.mem_map_of_mem he')
      have hnot : ∀ e' ∈ l, e'.2.1 ≠ a := fun e' he' ha' =>
        hni.1 (by show a ∈ l.map fun e => e.2.1; rw [← ha']; exact List.mem_map_of_mem he')
      rw [setEntry, List.filter_cons_of_neg (by simp),
        List.filter_eq_self.mpr fun e' he' => by simpa using hnot e' he']
      by_cases hw : weight = 0
      · rw [List.filterMap_cons_none (by simp [setAt, hw]), hrest, if_pos hw, List.append_nil]
      · rw [List.filterMap_cons_some (b := (p, a, weight)) (by simp [setAt, hw]), hrest, if_neg hw]
        exact (List.perm_append_comm : ([(p, a, weight)] ++ l).Perm (l ++ [(p, a, weight)]))
    · -- `e` is another item's entry, and `a`'s entry is in the rest
      have hpl : (p, a, old) ∈ l := by
        rcases List.mem_cons.mp hp with hpe | hpl
        · exact absurd (by rw [← hpe]) he
        · exact hpl
      have hea : e.2.1 ≠ a := fun ha => hni.1 (ha ▸ List.mem_map_of_mem (f := fun e => e.2.1) hpl)
      rw [List.filterMap_cons_some (show setAt p weight e = some e from if_neg he), setEntry_cons_of_ne hea]
      exact (filterMap_setAt_perm hnd.2 hni.2 hpl).cons e

/-- The weights stored after setting `a`'s: the new one for `a`, the old one for
every other item. -/
theorem weightOf_of_perm_setEntry {s s' : WrsSlot α} (h : s'.entries.Perm (setEntry s.entries a p weight)) :
    s'.weightOf = Function.update s.weightOf a weight.toNat := by
  funext b
  rw [weightOf, ((h.filter _).map _).sum_eq, setEntry, List.filter_append, List.map_append, List.sum_append,
    List.filter_filter]
  by_cases hb : b = a
  · -- only the new entry, if any, is `a`'s
    subst hb
    have hnone : (s.entries.filter fun e => (e.2.1 == b) && (e.2.1 != b)) = [] :=
      List.filter_eq_nil_iff.mpr fun e _ => by simp
    by_cases hw : weight = 0 <;> simp [hw, hnone]
  · rw [Function.update_of_ne hb, weightOf]
    have hfilter : (s.entries.filter fun e => (e.2.1 == b) && (e.2.1 != a)) = s.entries.filter fun e => e.2.1 == b := by
      apply List.filter_congr
      intro e _
      by_cases heb : e.2.1 = b
      · simp [heb, hb]
      · simp [heb]
    rw [hfilter]
    by_cases hw : weight = 0 <;> simp [hw, Ne.symm hb]

/-- With distinct items, the weight stored for an item with an entry is that
entry's. -/
theorem weightOf_eq_of_mem {s : WrsSlot α} (hnd : (s.entries.map fun e => e.2.1).Nodup) {e : ℕ × α × UInt64}
    (he : e ∈ s.entries) : s.weightOf e.2.1 = e.2.2.toNat := by
  have hperm := List.perm_cons_erase he
  have hnd' := (hperm.map fun e => e.2.1).nodup_iff.mp hnd
  rw [List.map_cons, List.nodup_cons] at hnd'
  -- no other entry is of the same item
  have hrest : ((s.entries.erase e).filter fun e' => e'.2.1 == e.2.1) = [] :=
    List.filter_eq_nil_iff.mpr fun e' he' h => hnd'.1 (List.mem_map.mpr ⟨e', he', by simpa using h⟩)
  rw [weightOf, ((hperm.filter _).map _).sum_eq, List.filter_cons_of_pos (by simp), hrest]
  simp

end SetEntry

end WrsSlot

namespace WeightedRandomSelect

open WrsSlot

variable {α : Type} {w w' : WeightedRandomSelect α}

/-! ### The invariant -/

/-- The invariant of a `WeightedRandomSelect`: the root is a well-formed node at
its level, `idx` gives each stored item the index of its entry and any other
item none, and no item is stored twice. -/
structure Inv (w : WeightedRandomSelect α) : Prop where
  root : NodeOk w.root.level w.root
  idx_iff : ∀ a p, w.idx a = some p ↔ ∃ weight, (p, a, weight) ∈ w.root.entries
  nodup : (w.root.entries.map fun e => e.2.1).Nodup

theorem inv_newWeightedRandomSelect : Inv (newWeightedRandomSelect : WeightedRandomSelect α) := by
  have hroot : (newWeightedRandomSelect : WeightedRandomSelect α).root = fresh 0 (wrsBranches ^ (0 + 1)) := rfl
  refine ⟨nodeOk_fresh 0, fun a p => ?_, ?_⟩
  · rw [hroot, entries_fresh]
    simp [newWeightedRandomSelect]
  · rw [hroot, entries_fresh]
    exact List.nodup_nil

/-- An item without an index has no entry. -/
theorem Inv.not_mem (hw : Inv w) {a : α} (h : w.idx a = none) : ∀ e ∈ w.root.entries, e.2.1 ≠ a := by
  intro e he hea
  have hsome := (hw.idx_iff a e.1).mpr ⟨e.2.2, by rw [← hea]; exact he⟩
  rw [h] at hsome
  cases hsome

/-! ### `setWeight` -/

/-- The root `setWeight` inserts a new item under: the root itself, or a new
root above it when it is full.  It is well formed, holds the same entries and
has room. -/
theorem Inv.exists_room (hw : Inv w) :
    ∃ L, NodeOk L (if w.root.itemCnt = w.root.maxItems then w.root.grow else w.root) ∧
      (if w.root.itemCnt = w.root.maxItems then w.root.grow else w.root).entries = w.root.entries ∧
      (if w.root.itemCnt = w.root.maxItems then w.root.grow else w.root).itemCnt <
        (if w.root.itemCnt = w.root.maxItems then w.root.grow else w.root).maxItems := by
  have hpos : 0 < w.root.maxItems := by
    rw [hw.root.maxItems_eq]
    positivity
  split_ifs with hfull
  · obtain ⟨hok, hentries, -, hcnt, hmax⟩ := hw.root.grow
    refine ⟨_, hok, hentries, ?_⟩
    rw [hcnt, hmax, hfull]
    show w.root.maxItems < w.root.maxItems * 8
    omega
  · refine ⟨_, hw.root, rfl, ?_⟩
    have hle := hw.root.length_le
    rw [← hw.root.itemCnt_eq] at hle
    omega

variable [DecidableEq α]

/-- **`setWeight` returns.**  From a state with the invariant, `setWeight`
succeeds (its `insert` never reaches `panic(nil)`), leaves a well-formed root,
sets the entry of `a` at some index `p`, and gives `a` that index, or none at
weight zero. -/
theorem Inv.setWeight_eq (hw : Inv w) (a : α) (weight : UInt64) :
    ∃ w' p, w.setWeight a weight = .ok w' ∧ NodeOk w'.root.level w'.root ∧
      w'.root.entries.Perm (setEntry w.root.entries a p weight) ∧
      w'.idx = Function.update w.idx a (if weight = 0 then none else some p) := by
  cases hidx : w.idx a with
  | some p =>
    -- the item has an entry at `p`, which `wrsNode.setWeight` changes
    obtain ⟨old, hold⟩ := (hw.idx_iff a p).mp hidx
    obtain ⟨s', hset, hok, -, -, hentries⟩ := @NodeOk.setWeight_spec _ weight _ _ _ _ _ hw.root hold
    refine ⟨⟨s', if weight = 0 then Function.update w.idx a none else w.idx⟩, p, ?_, hok.self, ?_, ?_⟩
    · simp [WeightedRandomSelect.setWeight, hidx, hset, Except.ok_bind, pure, Except.pure]
    · rw [hentries]
      exact filterMap_setAt_perm hw.root.indexes.1 hw.nodup hold
    · dsimp only
      split_ifs with h0
      · rfl
      · exact (Function.update_eq_self_iff (f := w.idx)).mpr hidx.symm |>.symm
  | none =>
    have hnot := hw.not_mem hidx
    by_cases h0 : weight = 0
    · -- nothing to remove
      refine ⟨w, 0, by simp [WeightedRandomSelect.setWeight, hidx, h0, pure, Except.pure], hw.root, ?_, ?_⟩
      · rw [setEntry_of_forall hnot, if_pos h0, List.append_nil]
      · rw [if_pos h0]
        exact (Function.update_eq_self_iff (f := w.idx)).mpr hidx.symm |>.symm
    · -- a new item, inserted under a root with room
      obtain ⟨L, hok, hentries, hroom⟩ := hw.exists_room
      obtain ⟨s', p, hins, hok', -, -, hperm⟩ := hok.insert_spec (a := a) hroom h0
      refine ⟨⟨s', Function.update w.idx a (some p)⟩, p, ?_, hok'.self, ?_, by rw [if_neg h0]⟩
      · simp only [WeightedRandomSelect.setWeight, hidx, if_neg h0]
        rw [hins, Except.ok_bind]
        rfl
      · rw [setEntry_of_forall hnot, if_neg h0, ← hentries]
        exact hperm

/-- `setWeight` keeps the invariant. -/
theorem Inv.setWeight {a : α} {weight : UInt64} (hw : Inv w) (hset : w.setWeight a weight = .ok w') : Inv w' := by
  obtain ⟨w'', p, hset', hok, hperm, hidx⟩ := hw.setWeight_eq a weight
  rw [hset'] at hset
  cases hset
  refine ⟨hok, fun b q => ?_, (hperm.map _).nodup_iff.mpr (nodup_setEntry hw.nodup)⟩
  simp only [hidx, hperm.mem_iff, mem_setEntry]
  by_cases hb : b = a
  · subst hb
    by_cases h0 : weight = 0 <;> simp [h0, eq_comm]
  · rw [Function.update_of_ne hb, hw.idx_iff]
    simp [hb]

/-- **What `setWeight` stores.**  The weight stored for `a` is the new one, and
for every other item the old one. -/
theorem Inv.weightOf_setWeight {a : α} {weight : UInt64} (hw : Inv w) (hset : w.setWeight a weight = .ok w') :
    w'.root.weightOf = Function.update w.root.weightOf a weight.toNat := by
  obtain ⟨w'', p, hset', -, hperm, -⟩ := hw.setWeight_eq a weight
  rw [hset'] at hset
  cases hset
  exact weightOf_of_perm_setEntry hperm

/-! ### A round of `Choose` -/

/-- A round of `Choose` that returns leaves the state as it was, or as
`setWeight` leaves it. -/
theorem chooseRound_ok_cases {wfn : α → UInt64} {val coin : UInt64} {r : Round α}
    (h : w.chooseRound wfn val coin = .ok (r, w')) : w' = w ∨ ∃ a weight, w.setWeight a weight = .ok w' := by
  rw [chooseRound] at h
  by_cases h0 : w.root.sumWeight = 0
  · -- the set is empty
    rw [if_pos h0, Except.pure_eq_ok, Prod.mk.injEq] at h
    exact .inl h.2.symm
  rw [if_neg h0, Except.ite_throw_eq_ok] at h
  obtain ⟨⟨a, old⟩, -, h⟩ := Except.bind_eq_ok.mp h.2
  dsimp only at h
  -- the round passes on the state after the weight is set, or the state as it
  -- is, and every way it ends returns the state it is passed
  by_cases hne : wfn a ≠ old
  · rw [if_pos hne] at h
    obtain ⟨w'', hset, h⟩ := Except.bind_eq_ok.mp h
    have hw' : w' = w'' := by
      split_ifs at h <;> simp only [Except.pure_eq_ok, Prod.mk.injEq] at h
      all_goals exact h.2.symm
    exact .inr ⟨a, wfn a, hw' ▸ hset⟩
  · rw [if_neg hne] at h
    obtain ⟨w'', hpure, h⟩ := Except.bind_eq_ok.mp h
    have hw' : w' = w'' := by
      split_ifs at h <;> simp only [Except.pure_eq_ok, Prod.mk.injEq] at h
      all_goals exact h.2.symm
    exact .inl (hw'.trans (Except.pure_eq_ok.mp hpure).symm)

/-- **A round of `Choose` returns.**  While the total weight is below `2 ^ 63`,
a round at a value below the root's weight lands on an item, stores its new
weight if it changed, and accepts it if the weight did not drop or the coin
falls below the new weight. -/
theorem Inv.chooseRound_ok (hw : Inv w) (htot : w.root.total < 2 ^ 63) (wfn : α → UInt64) {val : UInt64}
    (hval : val < w.root.sumWeight) (coin : UInt64) :
    ∃ a old w', w.root.landsOn val.toNat a ∧ w.root.weightOf a = old.toNat ∧
      (if wfn a ≠ old then w.setWeight a (wfn a) else pure w) = .ok w' ∧
      w.chooseRound wfn val coin = .ok (if old ≤ wfn a ∨ coin < wfn a then .chosen a else .again, w') := by
  have hsum : w.root.sumWeight.toNat = w.root.total := hw.root.sumWeight_toNat (by omega)
  have hv : val.toNat < w.root.total := by
    rw [← hsum]
    exact UInt64.lt_iff_toNat_lt.mp hval
  obtain ⟨p, a, old, hch, hmem⟩ := hw.root.choose_ok (by omega) hv
  rw [UInt64.ofNat_toNat] at hch
  -- the stored weight passes `rand.Int63n`'s check, being at most the total
  have hold : old.toNat < 2 ^ 63 := lt_of_le_of_lt (toNat_le_total hmem) htot
  obtain ⟨w', hset⟩ : ∃ w', (if wfn a ≠ old then w.setWeight a (wfn a) else pure w) = .ok w' := by
    split_ifs
    · obtain ⟨w', _, hset, -⟩ := hw.setWeight_eq a (wfn a)
      exact ⟨w', hset⟩
    · exact ⟨w, rfl⟩
  refine ⟨a, old, w', ?_, weightOf_eq_of_mem hw.nodup hmem, hset, ?_⟩
  · simp [landsOn, UInt64.ofNat_toNat, hch]
  · have h0 : w.root.sumWeight ≠ 0 := by
      intro h0
      rw [h0, UInt64.toNat_zero] at hsum
      omega
    have hbig : ¬ 2 ^ 63 ≤ w.root.sumWeight.toNat := by omega
    rw [chooseRound, if_neg h0, if_neg hbig, hch, Except.ok_bind]
    dsimp only
    -- the state after the weight was set is passed on
    have hpass : ∀ f : WeightedRandomSelect α → Except String (Round α × WeightedRandomSelect α),
        (if wfn a ≠ old then w.setWeight a (wfn a) >>= f else pure w >>= f) = f w' := by
      intro f
      split_ifs at hset ⊢ <;> rw [hset, Except.ok_bind]
    rw [hpass]
    -- and the round ends by the stored weight and the coin
    by_cases hle : old ≤ wfn a
    · simp [hle]
    · have hc : ¬ 2 ^ 63 ≤ old.toNat := by omega
      rw [if_neg hle, if_neg hc]
      by_cases hcoin : coin < wfn a <;> simp [hle, hcoin]

/-! ### Every run -/

/-- Every call that returns keeps the invariant. -/
theorem Inv.apply {op : Op α} (hw : Inv w) (h : w.apply op = .ok w') : Inv w' := by
  cases op with
  | update wfn a => exact hw.setWeight h
  | remove a => exact hw.setWeight h
  | chooseRound wfn val coin =>
    obtain ⟨⟨r, w''⟩, hround, rfl⟩ := Except.map_eq_ok.mp h
    rcases chooseRound_ok_cases hround with rfl | ⟨a, weight, hset⟩
    · exact hw
    · exact hw.setWeight hset

/-- **The invariant of every run.**  Every state that calls reach from
`NewWeightedRandomSelect` has the invariant. -/
theorem Reachable.inv {w : WeightedRandomSelect α} (h : Reachable w) : Inv w := by
  induction h with
  | init => exact inv_newWeightedRandomSelect
  | step op _ hstep ih => exact ih.apply hstep

/-! ### What every reachable state guarantees -/

/-- What a state of `WeightedRandomSelect` guarantees its callers: a
well-formed tree whose entries `idx` indexes, calls that return, and, while
the total weight is below `2 ^ 63`, a `Choose` that lands on each item for as
many values as its stored weight and then corrects for a weight that dropped. -/
structure Guarantees (w : WeightedRandomSelect α) : Prop where
  /-- Every node is well formed: `sumWeight` the sum of its weights, `itemCnt`
  the number of items below it, `maxItems = 8 ^ (level + 1)`, a leaf slot's
  weight zero exactly when it is nil, an inner slot's weight its node's
  `sumWeight`. -/
  root : NodeOk w.root.level w.root
  itemCnt_le : w.root.itemCnt ≤ w.root.maxItems
  /-- `idx` gives exactly the stored items the index of their entry. -/
  idx_iff : ∀ a p, w.idx a = some p ↔ ∃ weight, (p, a, weight) ∈ w.root.entries
  /-- Each item is stored once, with a weight that is not zero. -/
  nodup : (w.root.entries.map fun e => e.2.1).Nodup
  weight_ne_zero : ∀ e ∈ w.root.entries, e.2.2 ≠ 0
  /-- `Update` and `Remove` return: `insert` never reaches `panic(nil)`. -/
  update_ok : ∀ wfn a, ∃ w', w.update wfn a = .ok w'
  remove_ok : ∀ a, ∃ w', w.remove a = .ok w'
  /-- Below a total of `2 ^ 63`, `sumWeight` is the total, `choose` returns an
  entry from every value below it, and lands on each item from as many values
  as the item's stored weight. -/
  sumWeight_toNat : w.root.total < 2 ^ 63 → w.root.sumWeight.toNat = w.root.total
  choose_ok : w.root.total < 2 ^ 63 → ∀ v < w.root.total,
    ∃ p a weight, w.root.choose (UInt64.ofNat v) = .ok (a, weight) ∧ (p, a, weight) ∈ w.root.entries
  card_landsOn : w.root.total < 2 ^ 63 →
    ∀ a, ((Finset.range w.root.total).filter fun v => w.root.landsOn v a).card = w.root.weightOf a
  /-- A round of `Choose` returns, and accepts the item it lands on when its
  weight did not drop or the coin falls below the new weight. -/
  chooseRound_ok : w.root.total < 2 ^ 63 → ∀ wfn val coin, val < w.root.sumWeight →
    ∃ a old w', w.root.landsOn val.toNat a ∧ w.root.weightOf a = old.toNat ∧
      w.chooseRound wfn val coin = .ok (if old ≤ wfn a ∨ coin < wfn a then .chosen a else .again, w')

end WeightedRandomSelect

end RpcNetwork.Les
