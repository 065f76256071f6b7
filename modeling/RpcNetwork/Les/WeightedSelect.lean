import Mathlib

/-!
# Weighted random selection (`les/utils/weighted_select.go`)

`WeightedRandomSelect` keeps items with `uint64` weights in a tree of
`wrsNode`s of eight slots: items at level `0`, nodes above, each slot's weight
beside it.  `insert` takes the first free slot and returns an index from which
`setWeight` finds the item by division; `choose` walks down by running sums;
a full root gets a new root above it.

`Choose` draws below the root's `sumWeight`, refreshes the weight of the item
it lands on, and returns it (if the weight fell, with chance new over old).

## Design notes

A Go panic is an error of `Except String`, with the text the runtime prints.
The `interface{}` slots become `WrsSlot`; a type assertion to `*wrsNode` fails
on nil and on an item.  `choose` at level `0` asserts the slot to `WrsItem`,
which in Go accepts a node too; here it accepts only an item, and no run puts
a node at level `0`.  `level`, `itemCnt` and `maxItems` are naturals: no run takes
`itemCnt` below zero or makes a count wrap.  `insert` recurses on a node below, or on a
node it has just made one level lower, so it terminates by `rank`.

The weight function is an argument of each call, any function each time: Go's
`wfn` may answer differently from one call to the next.  The random values of
`Choose` are arguments too.
-/

namespace RpcNetwork.Les

/-- `wrsBranches`: the number of slots of a `wrsNode`. -/
abbrev wrsBranches : ℕ := 8

/-- `panic(nil)`, as Go 1.14 prints it. -/
def panicNil : String := "panic: nil"

/-- A failed type assertion of a slot to `*wrsNode`. -/
def interfaceConversion : String := "interface conversion: interface {} is not *utils.wrsNode"

/-- An index past the eight slots of a node. -/
def indexOutOfRange : String := "runtime error: index out of range"

/-- `idx / branchItems` with `branchItems` zero. -/
def divideByZero : String := "runtime error: integer divide by zero"

/-- A field read through a nil `*wrsNode`. -/
def nilDereference : String := "runtime error: invalid memory address or nil pointer dereference"

/-- `rand.Int63n` of a number that is not positive as an `int64`. -/
def int63nInvalid : String := "invalid argument to Int63n"

/-- The value of a slot of `wrsNode.items`, an `interface{}`: nil, a
`WrsItem`, or a `*wrsNode` with its fields `items`, `weights`, `sumWeight`,
`level`, `itemCnt` and `maxItems`.  The root of the tree is a slot of the last
kind. -/
inductive WrsSlot (α : Type) where
  | nil
  | item (a : α)
  | node (items : Fin wrsBranches → WrsSlot α) (weights : Fin wrsBranches → UInt64)
      (sumWeight : UInt64) (level itemCnt maxItems : ℕ)

namespace WrsSlot

variable {α : Type}

/-! ### The fields of a node -/

/-- `sumWeight` of a node. -/
def sumWeight : WrsSlot α → UInt64
  | node _ _ sumWeight _ _ _ => sumWeight
  | _ => 0

/-- `level` of a node. -/
def level : WrsSlot α → ℕ
  | node _ _ _ level _ _ => level
  | _ => 0

/-- `itemCnt` of a node. -/
def itemCnt : WrsSlot α → ℕ
  | node _ _ _ _ itemCnt _ => itemCnt
  | _ => 0

/-- `maxItems` of a node. -/
def maxItems : WrsSlot α → ℕ
  | node _ _ _ _ _ maxItems => maxItems
  | _ => 0

section Fields

variable {items : Fin wrsBranches → WrsSlot α} {weights : Fin wrsBranches → UInt64}
  {sumWeight : UInt64} {level itemCnt maxItems : ℕ}

@[simp] theorem sumWeight_node : (node items weights sumWeight level itemCnt maxItems).sumWeight = sumWeight :=
  rfl

@[simp] theorem level_node : (node items weights sumWeight level itemCnt maxItems).level = level := rfl

@[simp] theorem itemCnt_node : (node items weights sumWeight level itemCnt maxItems).itemCnt = itemCnt := rfl

@[simp] theorem maxItems_node : (node items weights sumWeight level itemCnt maxItems).maxItems = maxItems :=
  rfl

end Fields

/-- `&wrsNode{maxItems: maxItems, level: level}`: a node with empty slots. -/
def fresh (level maxItems : ℕ) : WrsSlot α :=
  node (fun _ => nil) (fun _ => 0) 0 level 0 maxItems

/-! ### `insert` -/

/-- Whether the loop of `insert` passes over a slot: at level `0` a slot that
holds something, above it a slot that holds a full node.  Above level `0` the
slot is asserted to be a `*wrsNode`. -/
def taken (level : ℕ) : WrsSlot α → Except String Bool
  | nil => pure false
  | item _ => if level = 0 then pure true else throw interfaceConversion
  | node _ _ _ _ itemCnt maxItems => pure (level == 0 || itemCnt == maxItems)

/-- The loop of `insert` from `branch` on: the first slot it does not pass
over, or `panic(nil)` when it passes over the last one. -/
def findBranch (items : Fin wrsBranches → WrsSlot α) (level branch : ℕ) :
    Except String (Fin wrsBranches) :=
  if h : branch < wrsBranches then do
    let isTaken ← (items ⟨branch, h⟩).taken level
    if !isTaken then pure ⟨branch, h⟩
    else if branch + 1 = wrsBranches then throw panicNil
    else findBranch items level (branch + 1)
  else throw panicNil
termination_by wrsBranches - branch

/-- The node `insert` goes down into from a node at `level` with `maxItems`: the
slot's node, or a new one a level lower when the slot is nil. -/
def subNode (level maxItems : ℕ) : WrsSlot α → Except String (WrsSlot α)
  | nil => pure (fresh (level - 1) (maxItems / wrsBranches))
  | item _ => throw interfaceConversion
  | node items weights sumWeight level' itemCnt maxItems' =>
    pure (node items weights sumWeight level' itemCnt maxItems')

/-- How deep `insert` can go below a slot: one more than the larger of the
node's level and the ranks of its slots. -/
def rank : WrsSlot α → ℕ
  | node items _ _ level _ _ => 1 + max level (Finset.univ.sup fun i => (items i).rank)
  | _ => 0

/-- The node `insert` goes down into has a lower rank. -/
theorem rank_lt_of_subNode {items : Fin wrsBranches → WrsSlot α} {weights : Fin wrsBranches → UInt64}
    {sumWeight : UInt64} {level itemCnt maxItems : ℕ} {b : Fin wrsBranches} {s : WrsSlot α}
    (hl : ¬ level = 0) (hs : (items b).subNode level maxItems = .ok s) :
    s.rank < (node items weights sumWeight level itemCnt maxItems).rank := by
  have hle : (items b).rank ≤ Finset.univ.sup fun i => (items i).rank :=
    Finset.le_sup (f := fun i => (items i).rank) (Finset.mem_univ b)
  rw [rank]
  cases h : items b with
  | nil =>
    -- a new node, one level lower, with nothing below it
    rw [h, subNode] at hs
    cases hs
    have h0 : (Finset.univ.sup fun _ : Fin wrsBranches => (0 : ℕ)) = 0 := by simp
    have hlev := le_max_left level (Finset.univ.sup fun i => (items i).rank)
    simp only [fresh, rank, h0]
    omega
  | item a =>
    rw [h, subNode] at hs
    cases hs
  | node items' weights' sumWeight' level' itemCnt' maxItems' =>
    rw [h, subNode] at hs
    cases hs
    rw [h] at hle
    omega

/-- `wrsNode.insert`: the node with the item added below it at `weight`, and
the item's index. -/
def insert : WrsSlot α → α → UInt64 → Except String (WrsSlot α × ℕ)
  | node items weights sumWeight level itemCnt maxItems, a, weight => do
    let branch ← findBranch items level 0
    let weights := Function.update weights branch (weights branch + weight)
    if hl : level = 0 then
      pure (node (Function.update items branch (item a)) weights (sumWeight + weight) level
        (itemCnt + 1) maxItems, branch)
    else
      match _hs : (items branch).subNode level maxItems with
      | .error e => throw e
      | .ok sub => do
        let r ← sub.insert a weight
        pure (node (Function.update items branch r.1) weights (sumWeight + weight) level
          (itemCnt + 1) maxItems, sub.maxItems * branch + r.2)
  | _, _, _ => throw nilDereference
termination_by s => s.rank
decreasing_by exact rank_lt_of_subNode hl _hs

/-! ### `setWeight` -/

/-- `wrsNode.setWeight`: the node with the item at `idx` given `weight`, taken
out when `weight` is zero, and the change of its stored weight. -/
def setWeight : WrsSlot α → ℕ → UInt64 → Except String (WrsSlot α × UInt64)
  | node items weights sumWeight level itemCnt maxItems, idx, weight =>
    if level = 0 then
      if h : idx < wrsBranches then
        let diff := weight - weights ⟨idx, h⟩
        pure (node (if weight = 0 then Function.update items ⟨idx, h⟩ nil else items)
          (Function.update weights ⟨idx, h⟩ weight) (sumWeight + diff) level
          (if weight = 0 then itemCnt - 1 else itemCnt) maxItems, diff)
      else throw indexOutOfRange
    else
      let branchItems := maxItems / wrsBranches
      if branchItems = 0 then throw divideByZero
      else if h : idx / branchItems < wrsBranches then
        match items ⟨idx / branchItems, h⟩ with
        | node .. => do
          let r ← (items ⟨idx / branchItems, h⟩).setWeight (idx - idx / branchItems * branchItems) weight
          pure (node (Function.update items ⟨idx / branchItems, h⟩ r.1)
            (Function.update weights ⟨idx / branchItems, h⟩ (weights ⟨idx / branchItems, h⟩ + r.2))
            (sumWeight + r.2) level (if weight = 0 then itemCnt - 1 else itemCnt) maxItems, r.2)
        | _ => throw interfaceConversion
      else throw indexOutOfRange
  | _, _, _ => throw nilDereference

/-! ### `choose` -/

/-- The loop of `choose` from slot `i` on: the first slot whose weight is above
`val`, with `val` less the weights of the slots before it. -/
def pickBranch (weights : Fin wrsBranches → UInt64) (val : UInt64) (i : ℕ) :
    Option (Fin wrsBranches × UInt64) :=
  if h : i < wrsBranches then
    if val < weights ⟨i, h⟩ then some (⟨i, h⟩, val)
    else pickBranch weights (val - weights ⟨i, h⟩) (i + 1)
  else none
termination_by wrsBranches - i

/-- `wrsNode.choose`: the item `val` lands on below the node, with its weight. -/
def choose : WrsSlot α → UInt64 → Except String (α × UInt64)
  | node items weights _ level _ _, val =>
    match pickBranch weights val 0 with
    | none => throw panicNil
    | some (i, val) =>
      if level = 0 then
        match items i with
        | item a => pure (a, weights i)
        | _ => throw interfaceConversion
      else
        match items i with
        | node .. => (items i).choose val
        | _ => throw interfaceConversion
  | _, _ => throw nilDereference

/-- The new root `setWeight` puts above a full root: a level up, with the old
root in its first slot. -/
def grow (root : WrsSlot α) : WrsSlot α :=
  node (Function.update (fun _ => nil) 0 root) (Function.update (fun _ => 0) 0 root.sumWeight)
    root.sumWeight (root.level + 1) root.itemCnt (root.maxItems * wrsBranches)

end WrsSlot

/-- `WeightedRandomSelect`: the root of the tree, and the index of each item
stored in it (`idx`). -/
structure WeightedRandomSelect (α : Type) where
  root : WrsSlot α
  idx : α → Option ℕ

namespace WeightedRandomSelect

variable {α : Type} [DecidableEq α]

/-- `NewWeightedRandomSelect`: an empty root at level `0`. -/
def newWeightedRandomSelect : WeightedRandomSelect α :=
  ⟨.node (fun _ => .nil) (fun _ => 0) 0 0 0 wrsBranches, fun _ => none⟩

/-- `setWeight`: an item with an index is given the weight, and loses its index
at weight zero; an item without one is inserted if the weight is not zero,
under a new root if the root is full. -/
def setWeight (w : WeightedRandomSelect α) (a : α) (weight : UInt64) :
    Except String (WeightedRandomSelect α) :=
  match w.idx a with
  | some idx => do
    let r ← w.root.setWeight idx weight
    pure ⟨r.1, if weight = 0 then Function.update w.idx a none else w.idx⟩
  | none =>
    if weight = 0 then pure w
    else do
      let root := if w.root.itemCnt = w.root.maxItems then w.root.grow else w.root
      let r ← root.insert a weight
      pure ⟨r.1, Function.update w.idx a (some r.2)⟩

/-- `Update`: the item takes the weight the weight function gives it now. -/
def update (w : WeightedRandomSelect α) (wfn : α → UInt64) (a : α) :
    Except String (WeightedRandomSelect α) :=
  w.setWeight a (wfn a)

/-- `Remove`. -/
def remove (w : WeightedRandomSelect α) (a : α) : Except String (WeightedRandomSelect α) :=
  w.setWeight a 0

/-- `IsEmpty`. -/
def isEmpty (w : WeightedRandomSelect α) : Bool :=
  w.root.sumWeight == 0

/-- How a round of the loop of `Choose` ends. -/
inductive Round (α : Type) where
  /-- The set is empty, and `Choose` returns nil. -/
  | empty
  /-- `Choose` returns the item. -/
  | chosen (a : α)
  /-- The item was turned down, and the loop draws again. -/
  | again

/-- One round of the loop of `Choose`, where `rand.Int63n` drew `val` below
`sumWeight` and, if asked, `coin` below the chosen item's stored weight. -/
def chooseRound (w : WeightedRandomSelect α) (wfn : α → UInt64) (val coin : UInt64) :
    Except String (Round α × WeightedRandomSelect α) :=
  if w.root.sumWeight = 0 then pure (.empty, w)
  else if 2 ^ 63 ≤ w.root.sumWeight.toNat then throw int63nInvalid
  else do
    let r ← w.root.choose val
    let weight := wfn r.1
    let w ← if weight ≠ r.2 then w.setWeight r.1 weight else pure w
    if r.2 ≤ weight then pure (.chosen r.1, w)
    else if 2 ^ 63 ≤ r.2.toNat then throw int63nInvalid
    else if coin < weight then pure (.chosen r.1, w)
    else pure (.again, w)

/-- The calls a client makes, each with the weight function's answers and the
random values of the moment. -/
inductive Op (α : Type) where
  | update (wfn : α → UInt64) (a : α)
  | remove (a : α)
  | chooseRound (wfn : α → UInt64) (val coin : UInt64)

/-- The state after a call. -/
def apply (w : WeightedRandomSelect α) : Op α → Except String (WeightedRandomSelect α)
  | .update wfn a => w.update wfn a
  | .remove a => w.remove a
  | .chooseRound wfn val coin => (w.chooseRound wfn val coin).map Prod.snd

/-- The states a `WeightedRandomSelect` reaches from `NewWeightedRandomSelect`
by calls that return. -/
inductive Reachable : WeightedRandomSelect α → Prop
  | init : Reachable newWeightedRandomSelect
  | step {w w' : WeightedRandomSelect α} (op : Op α) :
      Reachable w → w.apply op = .ok w' → Reachable w'

end WeightedRandomSelect

end RpcNetwork.Les
