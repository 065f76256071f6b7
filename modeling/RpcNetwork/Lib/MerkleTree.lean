import Mathlib

/-!
# Simple Merkle trees

The simple Merkle tree of a list of items splits the list at `(n + 1) / 2`,
builds a tree on each half and joins the two roots with `node`; a single item
is its `leaf` hash.  The *trail* of an item is the list of sibling hashes on
the way from the item up to the root, bottom up.  Recomputing the root from an
item's leaf hash and its trail goes the other way, from the root down.

## Design notes

The tree is built by recursion on the halves, which are shorter than the list
but not structurally smaller.  `trailsUpTo` takes a bound on the depth as fuel,
and `trails` passes the length, which is always enough; the definitions stay
structurally recursive, so concrete trees evaluate by `decide`.  A list has a
root exactly when it is not empty.
-/

namespace MerkleTree

variable {α β : Type*} (leaf : α → β) (node : β → β → β)

/-- The leaf hash and trail of every item, and the root; `fuel` bounds the depth
of the recursion. -/
def trailsUpTo : ℕ → List α → List (β × List β) × Option β
  | _, [] => ([], none)
  | _, [x] => ([(leaf x, [])], some (leaf x))
  | 0, _ :: _ :: _ => ([], none)
  | fuel + 1, items@(_ :: _ :: _) =>
      let numLeft := (items.length + 1) / 2
      let lefts := trailsUpTo fuel (items.take numLeft)
      let rights := trailsUpTo fuel (items.drop numLeft)
      match lefts.2, rights.2 with
      | some leftRoot, some rightRoot =>
          -- each side's trails climb on through the other side's root
          (lefts.1.map (fun t => (t.1, t.2 ++ [rightRoot])) ++
              rights.1.map (fun t => (t.1, t.2 ++ [leftRoot])),
            some (node leftRoot rightRoot))
      | _, _ => ([], none)

/-- The leaf hash and trail of every item, and the root. -/
def trails (items : List α) : List (β × List β) × Option β :=
  trailsUpTo leaf node items.length items

/-- The root recomputed from the leaf hash of item `index` of `total` and the
item's trail listed from the top down; `none` when they do not fit. -/
def rootOfTopDown : ℕ → ℕ → β → List β → Option β
  | index, total, leafHash, [] => if index < total ∧ total = 1 then some leafHash else none
  | index, total, leafHash, aunt :: aunts =>
      if total ≤ index ∨ total ≤ 1 then none
      else if index < (total + 1) / 2 then
        (rootOfTopDown index ((total + 1) / 2) leafHash aunts).map fun h => node h aunt
      else
        (rootOfTopDown (index - (total + 1) / 2) (total - (total + 1) / 2) leafHash aunts).map
          fun h => node aunt h

/-- The root recomputed from a leaf hash, its position and its trail, listed
bottom up as `trails` lists it. -/
def computeFromAunts (index total : ℕ) (leafHash : β) (aunts : List β) : Option β :=
  rootOfTopDown node index total leafHash aunts.reverse

/-- The depth of item `index` in the tree over `total` items: the number of
splits on the way from the root down to it. -/
def leafDepth (index total : ℕ) : ℕ :=
  if total ≤ 1 then 0
  else if index < (total + 1) / 2 then leafDepth index ((total + 1) / 2) + 1
  else leafDepth (index - (total + 1) / 2) (total - (total + 1) / 2) + 1
termination_by total
decreasing_by all_goals omega

/-- An empty list has no trails and no root. -/
@[simp] theorem trailsUpTo_nil (fuel : ℕ) : trailsUpTo leaf node fuel [] = ([], none) := by
  cases fuel <;> rfl

/-- A single item is a leaf with an empty trail. -/
@[simp] theorem trailsUpTo_single (fuel : ℕ) (x : α) :
    trailsUpTo leaf node fuel [x] = ([(leaf x, [])], some (leaf x)) := by
  cases fuel <;> rfl

/-! ### One level of the recomputation -/

/-- A single item is its own root. -/
@[simp] theorem computeFromAunts_single (leafHash : β) :
    computeFromAunts node 0 1 leafHash [] = some leafHash := by
  simp [computeFromAunts, rootOfTopDown]

/-- An item left of the split climbs through the top aunt on its right. -/
theorem computeFromAunts_append_left {index total : ℕ} (htotal : 1 < total)
    (hindex : index < (total + 1) / 2) (leafHash : β) (aunts : List β) (aunt : β) :
    computeFromAunts node index total leafHash (aunts ++ [aunt]) =
      (computeFromAunts node index ((total + 1) / 2) leafHash aunts).map fun h => node h aunt := by
  have hguard : ¬ (total ≤ index ∨ total ≤ 1) := by omega
  simp only [computeFromAunts, List.reverse_append, List.reverse_singleton, List.singleton_append,
    rootOfTopDown, hguard, if_false, hindex, if_true]

/-- An item right of the split climbs through the top aunt on its left. -/
theorem computeFromAunts_append_right {index total : ℕ} (hlt : index < total)
    (hindex : (total + 1) / 2 ≤ index) (leafHash : β) (aunts : List β) (aunt : β) :
    computeFromAunts node index total leafHash (aunts ++ [aunt]) =
      (computeFromAunts node (index - (total + 1) / 2) (total - (total + 1) / 2) leafHash
        aunts).map fun h => node aunt h := by
  have hguard : ¬ (total ≤ index ∨ total ≤ 1) := by omega
  have hright : ¬ index < (total + 1) / 2 := by omega
  simp only [computeFromAunts, List.reverse_append, List.reverse_singleton, List.singleton_append,
    rootOfTopDown, hguard, if_false, hright]

/-! ### Trails of the wrong length -/

/-- A recomputation that succeeds used one aunt per level: as many as the
item is deep. -/
theorem length_of_rootOfTopDown {index total : ℕ} {leafHash root : β} {aunts : List β}
    (h : rootOfTopDown node index total leafHash aunts = some root) :
    aunts.length = leafDepth index total := by
  induction aunts generalizing index total root with
  | nil =>
      simp only [rootOfTopDown] at h
      split at h
      · rename_i hfit
        rw [leafDepth, if_pos (by omega)]
        rfl
      · cases h
  | cons aunt aunts ih =>
      simp only [rootOfTopDown] at h
      split at h
      · cases h
      · rename_i hguard
        rw [leafDepth, if_neg (by omega), List.length_cons]
        split at h
        · rename_i hleft
          obtain ⟨h', hh', -⟩ := Option.map_eq_some_iff.mp h
          rw [if_pos hleft, ih hh']
        · rename_i hright
          obtain ⟨h', hh', -⟩ := Option.map_eq_some_iff.mp h
          rw [if_neg hright, ih hh']

/-- **Wrong trail length.**  The recomputation is `none` for a trail whose
length is not the item's depth. -/
theorem computeFromAunts_eq_none {index total : ℕ} {aunts : List β}
    (h : aunts.length ≠ leafDepth index total) (leafHash : β) :
    computeFromAunts node index total leafHash aunts = none := by
  cases hc : computeFromAunts node index total leafHash aunts with
  | none => rfl
  | some root =>
      have := length_of_rootOfTopDown node hc
      rw [List.length_reverse] at this
      exact absurd this h

/-! ### Every trail recomputes the root -/

/-- The halves of a list of at least two items: the left one has
`(n + 1) / 2` items, the right one the rest, and both are shorter. -/
theorem length_halves {items : List α} (h : 2 ≤ items.length) :
    (items.take ((items.length + 1) / 2)).length = (items.length + 1) / 2 ∧
      (items.drop ((items.length + 1) / 2)).length = items.length - (items.length + 1) / 2 ∧
      1 ≤ (items.length + 1) / 2 ∧ (items.length + 1) / 2 < items.length := by
  refine ⟨List.length_take_of_le (by omega), List.length_drop, by omega, by omega⟩

/-- What a tree over `n` items provides: one trail per item, each starting from
the item's leaf hash and recomputing the root. -/
def Spec (items : List α) (result : List (β × List β) × Option β) : Prop :=
  result.1.length = items.length ∧
    (items ≠ [] → ∃ root, result.2 = some root ∧
      ∀ i (hi : i < items.length), ∃ t, result.1[i]? = some t ∧ t.1 = leaf items[i] ∧
        computeFromAunts node i items.length t.1 t.2 = some root)

/-- **The trails of a tree.**  With enough fuel, `trailsUpTo` meets `Spec`; the
induction follows the recursion, and each level adds the other side's root to
the top of every trail. -/
theorem trailsUpTo_spec :
    ∀ (fuel : ℕ) (items : List α), items.length ≤ fuel + 1 →
      Spec leaf node items (trailsUpTo leaf node fuel items)
  | fuel, [], _ => by
      rw [trailsUpTo_nil]
      exact ⟨rfl, fun h => absurd rfl h⟩
  | fuel, [x], _ => by
      rw [trailsUpTo_single]
      refine ⟨rfl, fun _ => ⟨leaf x, rfl, fun i hi => ?_⟩⟩
      obtain rfl : i = 0 := by simpa using hi
      exact ⟨(leaf x, []), rfl, rfl, computeFromAunts_single node (leaf x)⟩
  | 0, _ :: _ :: _, h => by simp at h
  | fuel + 1, a :: b :: rest, hfuel => by
      set items := a :: b :: rest with hitems
      have hn : 2 ≤ items.length := by simp [hitems]
      obtain ⟨hlenL, hlenR, hm1, hmn⟩ := length_halves hn
      set m := (items.length + 1) / 2 with hm
      obtain ⟨hlL, hL⟩ := trailsUpTo_spec fuel (items.take m) (by omega)
      obtain ⟨hlR, hR⟩ := trailsUpTo_spec fuel (items.drop m) (by omega)
      obtain ⟨l, hl, hLtrail⟩ := hL (List.ne_nil_of_length_pos (by omega))
      obtain ⟨r, hr, hRtrail⟩ := hR (List.ne_nil_of_length_pos (by omega))
      -- the recursion step, with both halves rooted
      have hstep : trailsUpTo leaf node (fuel + 1) items =
          ((trailsUpTo leaf node fuel (items.take m)).1.map (fun t => (t.1, t.2 ++ [r])) ++
              (trailsUpTo leaf node fuel (items.drop m)).1.map (fun t => (t.1, t.2 ++ [l])),
            some (node l r)) := by
        rw [hitems, trailsUpTo]
        simp only [← hitems, ← hm, hl, hr]
      rw [hstep]
      refine ⟨?_, fun _ => ⟨node l r, rfl, fun i hi => ?_⟩⟩
      · simp only [List.length_append, List.length_map, hlL, hlR, hlenL, hlenR]
        omega
      · by_cases hleft : i < m
        · -- an item of the left half
          obtain ⟨t, ht, hleaf, hroot⟩ := hLtrail i (by omega)
          refine ⟨(t.1, t.2 ++ [r]), ?_, ?_, ?_⟩
          · rw [List.getElem?_append_left (by simp [hlL, hlenL]; omega), List.getElem?_map, ht]
            rfl
          · simp [hleaf]
          · rw [computeFromAunts_append_left node (by omega) hleft]
            dsimp only
            rw [← hm, ← hlenL, hroot]
            rfl
        · -- an item of the right half
          obtain ⟨t, ht, hleaf, hroot⟩ := hRtrail (i - m) (by omega)
          refine ⟨(t.1, t.2 ++ [l]), ?_, ?_, ?_⟩
          · rw [List.getElem?_append_right (by simp [hlL, hlenL]; omega), List.getElem?_map]
            simp only [List.length_map, hlL, hlenL, ht]
            rfl
          · simp only [hleaf, List.getElem_drop]
            congr 2
            omega
          · rw [computeFromAunts_append_right node hi (by omega)]
            dsimp only
            rw [← hm, ← hlenR, hroot]
            rfl

/-- **The trails of a tree**: one per item, each from the item's leaf hash, each
recomputing the root. -/
theorem trails_spec (items : List α) : Spec leaf node items (trails leaf node items) :=
  trailsUpTo_spec leaf node _ items (Nat.le_succ _)

end MerkleTree
