import RpcNetwork.Lib.MerkleTree
import RpcNetwork.Tbft.Types.Vote

/-!
# Simple Merkle proofs (`help/simple_proof.go`)

`SimpleProofsFromByteSlices` builds the simple Merkle tree of a list of byte
strings and returns its root and, for every item, a `SimpleProof`: the number
of items, the item's index, its leaf hash and its aunts.  `SimpleProof.Verify`
checks a proof against a root and a leaf hash.

## Design notes

`help.RlpHash` is Keccak-256 of the RLP encoding; the tree applies it to a byte
string and to a pair of hashes, and both are uninterpreted here.

The pointer-linked `SimpleProofNode`s and `FlattenAunts` become
`MerkleTree.trails`: every item's leaf hash and siblings bottom up.  `computeHashFromAunts` drops the last inner
hash at each level; `MerkleTree.computeFromAunts` walks the reversed list
instead, one aunt per level.  A nil hash is `none`, and `bytes.Equal` treats it
as the empty string.
-/

namespace RpcNetwork.Tbft.Help

open RpcNetwork.Tbft.Types (HexBytes)

/-- `help.RlpHash` on the values the simple Merkle tree hashes: the bytes of an
item, and a pair of hashes (`[][]byte{left, right}`). -/
structure RlpHasher where
  bytes : HexBytes → HexBytes
  pair : HexBytes → HexBytes → HexBytes

/-- `SimpleProof`: the number of items, the item's index, its leaf hash, and the
hashes from the leaf's sibling to a child of the root. -/
structure SimpleProof where
  total : ℤ
  index : ℤ
  leafHash : HexBytes
  aunts : List HexBytes
  deriving DecidableEq, Repr

/-- `simpleHashFromTwoHashes(left, right)`. -/
def simpleHashFromTwoHashes (rlp : RlpHasher) (left right : HexBytes) : HexBytes :=
  rlp.pair left right

/-- `computeHashFromAunts(index, total, leafHash, innerHashes)`: `none` is Go's
nil.  The guard `index < 0` is Go's; the guards `index >= total` and
`total <= 0` are those of `MerkleTree.rootOfTopDown` on the naturals, since a
nonpositive `total` becomes `0`. -/
def computeHashFromAunts (rlp : RlpHasher) (index total : ℤ) (leafHash : HexBytes)
    (innerHashes : List HexBytes) : Option HexBytes :=
  if index < 0 then none
  else MerkleTree.computeFromAunts (simpleHashFromTwoHashes rlp) index.toNat total.toNat leafHash
    innerHashes

/-- `SimpleProof.ComputeRootHash()`. -/
def SimpleProof.computeRootHash (rlp : RlpHasher) (sp : SimpleProof) : Option HexBytes :=
  computeHashFromAunts rlp sp.index sp.total sp.leafHash sp.aunts

/-- The errors of `SimpleProof.Verify`, with the values their texts print. -/
inductive SimpleProofError where
  /-- `proof total must be positive` -/
  | totalNegative
  /-- `proof index cannot be negative` -/
  | indexNegative
  /-- `invalid leaf hash: wanted %X got %X` -/
  | invalidLeafHash (wanted got : HexBytes)
  /-- `invalid root hash: wanted %X got %X` -/
  | invalidRootHash (wanted got : HexBytes)
  deriving DecidableEq, Repr

/-- `SimpleProof.Verify(rootHash, leafHash)`: `none` when the proof proves the
root. -/
def SimpleProof.verify (rlp : RlpHasher) (sp : SimpleProof) (rootHash leafHash : HexBytes) :
    Option SimpleProofError :=
  if sp.total < 0 then some .totalNegative
  else if sp.index < 0 then some .indexNegative
  else if sp.leafHash ≠ leafHash then some (.invalidLeafHash leafHash sp.leafHash)
  else
    -- `bytes.Equal` compares a nil hash as the empty string
    let computedHash := (sp.computeRootHash rlp).getD []
    if computedHash ≠ rootHash then some (.invalidRootHash rootHash computedHash)
    else none

/-- `trailsFromByteSlices(items)`: for every item its leaf hash and its aunts,
and the root hash, nil for no items. -/
def trailsFromByteSlices (rlp : RlpHasher) (items : List HexBytes) :
    List (HexBytes × List HexBytes) × Option HexBytes :=
  MerkleTree.trails rlp.bytes (simpleHashFromTwoHashes rlp) items

/-- `SimpleProofsFromByteSlices(items)`: the root hash and one proof per item.
Reading the hash of the nil root of an empty list panics. -/
def simpleProofsFromByteSlices (rlp : RlpHasher) (items : List HexBytes) :
    Except String (HexBytes × List SimpleProof) :=
  match trailsFromByteSlices rlp items with
  | (_, none) => throw "runtime error: invalid memory address or nil pointer dereference"
  | (trails, some rootHash) =>
      pure (rootHash, trails.mapIdx fun i trail => ⟨items.length, i, trail.1, trail.2⟩)

/-- A proof with nonnegative fields verifies when its leaf hash is the given one
and its aunts recompute the root. -/
theorem SimpleProof.verify_eq_none {rlp : RlpHasher} {sp : SimpleProof} {rootHash leafHash : HexBytes}
    (htotal : 0 ≤ sp.total) (hindex : 0 ≤ sp.index) (hleaf : sp.leafHash = leafHash)
    (hroot : sp.computeRootHash rlp = some rootHash) : sp.verify rlp rootHash leafHash = none := by
  have h₁ : ¬ sp.total < 0 := not_lt.mpr htotal
  have h₂ : ¬ sp.index < 0 := not_lt.mpr hindex
  simp [verify, h₁, h₂, hleaf, hroot]

/-- **The proofs of a tree verify.**  On a nonempty list, `SimpleProofsFromByteSlices`
returns one proof per item, with the item's index, the number of items and the
item's leaf hash, whose aunts recompute the root, and that verifies against
the root and the item's leaf hash. -/
theorem simpleProofsFromByteSlices_spec (rlp : RlpHasher) {items : List HexBytes} (hne : items ≠ []) :
    ∃ rootHash proofs, simpleProofsFromByteSlices rlp items = .ok (rootHash, proofs) ∧
      proofs.length = items.length ∧
      ∀ i (hi : i < items.length), ∃ sp, proofs[i]? = some sp ∧ sp.index = i ∧
        sp.total = items.length ∧ sp.leafHash = rlp.bytes items[i] ∧
        sp.computeRootHash rlp = some rootHash ∧ sp.verify rlp rootHash (rlp.bytes items[i]) = none := by
  obtain ⟨hlen, hspec⟩ := MerkleTree.trails_spec rlp.bytes (simpleHashFromTwoHashes rlp) items
  obtain ⟨root, hroot, htrail⟩ := hspec hne
  have htrails : trailsFromByteSlices rlp items =
      ((MerkleTree.trails rlp.bytes (simpleHashFromTwoHashes rlp) items).1, some root) := by
    rw [trailsFromByteSlices, ← hroot]
  refine ⟨root, _, by rw [simpleProofsFromByteSlices, htrails]; rfl, by simp [hlen], fun i hi => ?_⟩
  obtain ⟨t, ht, hleaf, hcompute⟩ := htrail i hi
  have hrecompute : (⟨items.length, i, t.1, t.2⟩ : SimpleProof).computeRootHash rlp = some root := by
    simpa [SimpleProof.computeRootHash, computeHashFromAunts] using hcompute
  refine ⟨⟨items.length, i, t.1, t.2⟩, by simp [List.getElem?_mapIdx, ht], rfl, rfl, hleaf,
    hrecompute, ?_⟩
  exact SimpleProof.verify_eq_none (by positivity) (by positivity) hleaf hrecompute

/-- `computeHashFromAunts` is nil for inner hashes whose number is not the depth
of the leaf in the tree. -/
theorem computeHashFromAunts_eq_none (rlp : RlpHasher) {index total : ℤ}
    {innerHashes : List HexBytes} (h : innerHashes.length ≠ MerkleTree.leafDepth index.toNat total.toNat)
    (leafHash : HexBytes) : computeHashFromAunts rlp index total leafHash innerHashes = none := by
  unfold computeHashFromAunts
  split
  · rfl
  · exact MerkleTree.computeFromAunts_eq_none _ h leafHash

end RpcNetwork.Tbft.Help
