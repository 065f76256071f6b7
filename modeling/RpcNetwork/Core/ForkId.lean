import Mathlib
import RpcNetwork.Lib.ExchangeSort

/-!
# EIP-2124 fork identifiers

A model of `core/forkid`: the fork blocks of a chain configuration
(`gatherForks`), the fork ID a node announces for its head (`newID`), and the
filter a node runs on a remote's ID (`newFilter`).

## Design notes

The results hold for every checksum function, so `newID` and `newFilter` take
the `Crc32` they call as an argument.  A `[4]byte` and the genesis hash are
lists of bytes.  `newFilter` returns its closure applied: a filter reads its
head once per call, from `headfn`.
-/

namespace RpcNetwork.Core.ForkId

/-- `uint64`'s order as a linear order, keeping the core `≤`, `<`, `min`, `max`
and `compare`. -/
instance instLinearOrderUInt64 : LinearOrder UInt64 :=
  Function.Injective.linearOrder UInt64.toNat (fun _ _ h => UInt64.toNat_inj.mp h) Iff.rfl Iff.rfl
    (fun x y => by
      show (if x ≤ y then x else y).toNat = min x.toNat y.toNat
      split_ifs with h
      · exact (min_eq_left h).symm
      · exact (min_eq_right (Nat.le_of_lt (Nat.lt_of_not_le h))).symm)
    (fun x y => by
      show (if x ≤ y then y else x).toNat = max x.toNat y.toNat
      split_ifs with h
      · exact (max_eq_right h).symm
      · exact (max_eq_left (Nat.le_of_lt (Nat.lt_of_not_le h))).symm)
    (fun x y => by
      show compareOfLessAndEq x.toNat y.toNat = compareOfLessAndEq x y
      simp only [compareOfLessAndEq, UInt64.lt_iff_toNat_lt, UInt64.toNat_inj])

/-- The fields of `params.ChainConfig` that `gatherForks` reads: the `*big.Int`
fields whose names end in `Block`, `nil` as `none`. -/
structure ChainConfig where
  homesteadBlock : Option ℤ
  daoForkBlock : Option ℤ
  eip150Block : Option ℤ
  eip155Block : Option ℤ
  eip158Block : Option ℤ
  byzantiumBlock : Option ℤ
  constantinopleBlock : Option ℤ
  petersburgBlock : Option ℤ
  istanbulBlock : Option ℤ
  muirGlacierBlock : Option ℤ
  yoloV1Block : Option ℤ
  ewasmBlock : Option ℤ

/-- The fork rules in field order, as reflection visits them. -/
def ChainConfig.blockFields (c : ChainConfig) : List (Option ℤ) :=
  [c.homesteadBlock, c.daoForkBlock, c.eip150Block, c.eip155Block, c.eip158Block,
    c.byzantiumBlock, c.constantinopleBlock, c.petersburgBlock, c.istanbulBlock,
    c.muirGlacierBlock, c.yoloV1Block, c.ewasmBlock]

/-- `(*big.Int).Uint64`: the low 64 bits of the absolute value. -/
def bigUint64 (x : ℤ) : UInt64 := UInt64.ofNat x.natAbs

/-- `gatherForks`: the fork blocks, sorted, deduplicated, without block 0. -/
def gatherForks (config : ChainConfig) : List UInt64 :=
  let forks := config.blockFields.filterMap fun rule => rule.map bigUint64
  let forks := ExchangeSort.dedupAdjacent (ExchangeSort.exchangeSort forks)
  -- skip any forks in block 0, that's the genesis ruleset
  match forks with
  | first :: rest => if first = 0 then rest else forks
  | [] => forks

/-- The calls to `hash/crc32` with the IEEE table: `ChecksumIEEE` and
`Update`. -/
structure Crc32 where
  checksumIEEE : List UInt8 → UInt32
  update : UInt32 → List UInt8 → UInt32

/-- One byte of the reflected CRC-32 with the IEEE polynomial `0xedb88320`,
bit by bit as the table is built. -/
def ieeeByte (crc : UInt32) (b : UInt8) : UInt32 :=
  (List.range 8).foldl (fun c _ => if c &&& 1 = 1 then (c >>> 1) ^^^ 0xedb88320 else c >>> 1)
    (crc ^^^ b.toUInt32)

/-- `crc32.Update(crc, IEEETable, p)`. -/
def ieeeUpdate (crc : UInt32) (p : List UInt8) : UInt32 := ~~~(p.foldl ieeeByte (~~~crc))

/-- `hash/crc32` with the IEEE table. -/
def ieee : Crc32 := ⟨ieeeUpdate 0, ieeeUpdate⟩

set_option maxRecDepth 20000 in
example : ieee.checksumIEEE [0x31, 0x32, 0x33, 0x34, 0x35, 0x36, 0x37, 0x38, 0x39] = 0xcbf43926 := by
  decide

/-- `binary.BigEndian.PutUint64`. -/
def putUint64 (x : UInt64) : List UInt8 :=
  [x >>> 56, x >>> 48, x >>> 40, x >>> 32, x >>> 24, x >>> 16, x >>> 8, x].map UInt64.toUInt8

/-- `binary.BigEndian.PutUint32`. -/
def putUint32 (x : UInt32) : List UInt8 :=
  [x >>> 24, x >>> 16, x >>> 8, x].map UInt32.toUInt8

variable (crc : Crc32)

/-- `checksumUpdate`: the checksum of the previous blob followed by the fork
number. -/
def checksumUpdate (hash : UInt32) (fork : UInt64) : UInt32 := crc.update hash (putUint64 fork)

/-- `checksumToBytes`. -/
def checksumToBytes (hash : UInt32) : List UInt8 := putUint32 hash

/-- `ID`: the checksum's four bytes and the next fork. -/
structure ID where
  hash : List UInt8
  next : UInt64
  deriving DecidableEq

/-- The loop of `newID`: fold the passed forks into the checksum, and stop at
the first fork past the head. -/
def newIDLoop (head : UInt64) : UInt32 → List UInt64 → UInt32 × UInt64
  | hash, [] => (hash, 0)
  | hash, fork :: forks =>
    if fork ≤ head then newIDLoop head (checksumUpdate crc hash fork) forks else (hash, fork)

/-- `newID`. -/
def newID (config : ChainConfig) (genesis : List UInt8) (head : UInt64) : ID :=
  let (hash, next) := newIDLoop crc head (crc.checksumIEEE genesis) (gatherForks config)
  ⟨checksumToBytes hash, next⟩

/-- `ErrRemoteStale` and `ErrLocalIncompatibleOrStale`. -/
inductive FilterError where
  | remoteStale
  | localIncompatibleOrStale
  deriving DecidableEq, Repr

/-- `math.MaxUint64`, the sentry fork that is never passed. -/
def maxUint64 : UInt64 := 0xffffffffffffffff

/-- `sums`: the checksum of the genesis and of each prefix of the forks. -/
def sums (forks : List UInt64) (genesis : List UInt8) : List (List UInt8) :=
  (forks.scanl (checksumUpdate crc) (crc.checksumIEEE genesis)).map checksumToBytes

/-- The rules for the first fork the head has not passed, at position `i`;
`forks` carries the sentry. -/
def filterAt (sums : List (List UInt8)) (forks : List UInt64) (head : UInt64) (id : ID)
    (i : ℕ) : Option FilterError :=
  -- rule 1: the same fork state; 1a: the remote's next fork has passed locally
  if sums[i]? = some id.hash then
    if id.next > 0 ∧ head ≥ id.next then some .localIncompatibleOrStale else none
  else
    -- rule 2: the remote's checksum is a subset, its next fork must be ours
    match (List.range i).find? (fun j => sums[j]? = some id.hash) with
    | some j => if forks[j]? ≠ some id.next then some .remoteStale else none
    | none =>
      -- rule 3: the remote's checksum is a superset
      if (List.range' (i + 1) (sums.length - (i + 1))).any (fun j => sums[j]? = some id.hash) then
        none
      else some .localIncompatibleOrStale

/-- The scan of the filter: skip the forks the head is past, and apply the rules
at the first other one. -/
def filterLoop (sums : List (List UInt8)) (forks : List UInt64) (head : UInt64) (id : ID) :
    ℕ → List UInt64 → Option FilterError
  | _, [] => none
  | i, fork :: rest =>
    if head > fork then filterLoop sums forks head id (i + 1) rest
    else filterAt sums forks head id i

/-- `newFilter`, applied to the remote's ID. -/
def newFilter (config : ChainConfig) (genesis : List UInt8) (headfn : Unit → UInt64) (id : ID) :
    Option FilterError :=
  let forks := gatherForks config
  let sums := sums crc forks genesis
  -- add the sentry so that the last fork needs no special case
  let forks := forks ++ [maxUint64]
  filterLoop sums forks (headfn ()) id 0 forks

/-! ### Mainnet -/

/-- The fork blocks of `params.MainnetChainConfig`. -/
def mainnetChainConfig : ChainConfig where
  homesteadBlock := some 1150000
  daoForkBlock := some 1920000
  eip150Block := some 2463000
  eip155Block := some 2675000
  eip158Block := some 2675000
  byzantiumBlock := some 4370000
  constantinopleBlock := some 7280000
  petersburgBlock := some 7280000
  istanbulBlock := some 9069000
  muirGlacierBlock := some 9200000
  yoloV1Block := none
  ewasmBlock := none

/-- `params.MainnetGenesisHash`. -/
def mainnetGenesisHash : List UInt8 :=
  [0xd4, 0xe5, 0x67, 0x40, 0xf8, 0x76, 0xae, 0xf8, 0xc0, 0x10, 0xb8, 0x6a, 0x40, 0xd5, 0xf5, 0x67,
    0x45, 0xa1, 0x18, 0xd0, 0x90, 0x6a, 0x34, 0xe6, 0x9a, 0xec, 0x8c, 0x0d, 0xb1, 0xcb, 0x8f, 0xa3]

-- `TestCreation`: the unsynced and the first Homestead block.
set_option maxRecDepth 20000 in
example : newID ieee mainnetChainConfig mainnetGenesisHash 0 = ⟨putUint32 0xfc64ec04, 1150000⟩ := by
  decide

set_option maxRecDepth 20000 in
example : newID ieee mainnetChainConfig mainnetGenesisHash 1150000 =
    ⟨putUint32 0x97c2c34c, 1920000⟩ := by
  decide

-- `TestValidation`: a remote in Byzantium that does not know of Petersburg.
set_option maxRecDepth 80000 in
example : newFilter ieee mainnetChainConfig mainnetGenesisHash (fun _ => 7987396)
    ⟨putUint32 0xa00bc324, 0⟩ = some .remoteStale := by
  decide

/-! ### The forks -/

section Forks

variable {config : ChainConfig}

/-- **`gatherForks`** is strictly increasing: the sort and the deduplication,
and block 0 dropped from the front. -/
theorem gatherForks_sorted (config : ChainConfig) :
    (gatherForks config).Pairwise (· < ·) := by
  obtain ⟨hsorted, -⟩ := ExchangeSort.dedupAdjacent_spec (ExchangeSort.exchangeSort_sorted
    (config.blockFields.filterMap fun rule => rule.map bigUint64))
  unfold gatherForks
  dsimp only
  generalize ExchangeSort.dedupAdjacent (ExchangeSort.exchangeSort
    (config.blockFields.filterMap fun rule => rule.map bigUint64)) = D at hsorted ⊢
  cases D with
  | nil => exact List.Pairwise.nil
  | cons first rest =>
    dsimp only
    split_ifs
    · exact (List.pairwise_cons.mp hsorted).2
    · exact hsorted

/-- **`gatherForks`** holds the nonzero fork blocks. -/
theorem mem_gatherForks {f : UInt64} :
    f ∈ gatherForks config ↔ f ≠ 0 ∧ ∃ rule ∈ config.blockFields, rule.map bigUint64 = some f := by
  obtain ⟨hsorted, hmem⟩ := ExchangeSort.dedupAdjacent_spec (ExchangeSort.exchangeSort_sorted
    (config.blockFields.filterMap fun rule => rule.map bigUint64))
  have hraw : ∀ x, x ∈ ExchangeSort.dedupAdjacent (ExchangeSort.exchangeSort
      (config.blockFields.filterMap fun rule => rule.map bigUint64)) ↔
      ∃ rule ∈ config.blockFields, rule.map bigUint64 = some x := by
    intro x
    rw [hmem, (ExchangeSort.exchangeSort_perm _).mem_iff, List.mem_filterMap]
  unfold gatherForks
  dsimp only
  generalize ExchangeSort.dedupAdjacent (ExchangeSort.exchangeSort
    (config.blockFields.filterMap fun rule => rule.map bigUint64)) = D at hsorted hraw ⊢
  cases D with
  | nil =>
    simp only [List.not_mem_nil, false_iff] at hraw
    simp only [List.not_mem_nil, false_iff, not_and]
    exact fun _ => hraw f
  | cons first rest =>
    dsimp only
    split_ifs with h0
    · -- block 0 was first, and nothing after it is 0
      subst h0
      constructor
      · intro hf
        exact ⟨ne_of_gt ((List.pairwise_cons.mp hsorted).1 f hf),
          (hraw f).mp (List.mem_cons_of_mem _ hf)⟩
      · rintro ⟨hne, hf⟩
        rcases List.mem_cons.mp ((hraw f).mpr hf) with rfl | hf'
        · exact absurd rfl hne
        · exact hf'
    · -- the least fork is not 0, so none is
      constructor
      · intro hf
        refine ⟨?_, (hraw f).mp hf⟩
        rcases List.mem_cons.mp hf with rfl | hf'
        · exact h0
        · exact ne_of_gt (lt_of_le_of_lt (show (0 : UInt64) ≤ first from UInt64.zero_le)
            ((List.pairwise_cons.mp hsorted).1 f hf'))
      · rintro ⟨-, hf⟩
        exact (hraw f).mpr hf

theorem pos_of_mem_gatherForks {f : UInt64} (h : f ∈ gatherForks config) : 0 < f := by
  have hne := (mem_gatherForks.mp h).1
  rw [UInt64.lt_iff_toNat_lt, UInt64.toNat_zero]
  exact Nat.pos_of_ne_zero fun h0 => hne (UInt64.toNat_inj.mp (by simpa using h0))

end Forks

/-! ### The two scans -/

/-- `newID`'s loop checksums the forks up to the head and reports the first
fork after them. -/
theorem newIDLoop_eq (head : UInt64) : ∀ (hash : UInt32) (forks : List UInt64),
    newIDLoop crc head hash forks =
      ((forks.takeWhile fun f => decide (f ≤ head)).foldl (checksumUpdate crc) hash,
        (forks.dropWhile fun f => decide (f ≤ head)).headD 0)
  | hash, [] => rfl
  | hash, fork :: forks => by
    unfold newIDLoop
    split_ifs with h
    · rw [List.takeWhile_cons_of_pos (by simpa using h), List.dropWhile_cons_of_pos (by simpa using h),
        List.foldl_cons]
      exact newIDLoop_eq head _ forks
    · rw [List.takeWhile_cons_of_neg (by simpa using h), List.dropWhile_cons_of_neg (by simpa using h)]
      rfl

/-- The filter's scan applies the rules at the first fork the head is not past,
after the forks it is past. -/
theorem filterLoop_eq (sums : List (List UInt8)) (forks : List UInt64) (head : UInt64) (id : ID) :
    ∀ (i : ℕ) (fs : List UInt64), filterLoop sums forks head id i fs =
      match fs.dropWhile fun f => decide (f < head) with
      | [] => none
      | _ :: _ => filterAt sums forks head id (i + (fs.takeWhile fun f => decide (f < head)).length)
  | i, [] => rfl
  | i, fork :: rest => by
    unfold filterLoop
    split_ifs with h
    · rw [List.dropWhile_cons_of_pos (by simpa using h), List.takeWhile_cons_of_pos (by simpa using h),
        List.length_cons, filterLoop_eq sums forks head id (i + 1) rest]
      split <;> simp only [Nat.add_assoc, Nat.add_comm 1]
    · rw [List.dropWhile_cons_of_neg (by simpa using h), List.takeWhile_cons_of_neg (by simpa using h)]
      rfl

/-- `sums[k]` is the checksum of the genesis and the first `k` forks. -/
theorem getElem?_sums {forks : List UInt64} {genesis : List UInt8} {k : ℕ} (hk : k ≤ forks.length) :
    (sums crc forks genesis)[k]? =
      some (checksumToBytes ((forks.take k).foldl (checksumUpdate crc) (crc.checksumIEEE genesis))) := by
  rw [sums, List.getElem?_map, List.getElem?_scanl, if_pos hk, Option.map_some]

/-! ### The filter's rules -/

section Rules

variable {sums : List (List UInt8)} {forks : List UInt64} {head : UInt64} {id : ID} {i k : ℕ}

/-- Under distinct checksums, the remote's checksum sits at one position only. -/
theorem getElem?_eq_hash_iff (hnd : sums.Nodup) (hk : sums[k]? = some id.hash) (j : ℕ) :
    sums[j]? = some id.hash ↔ j = k := by
  obtain ⟨hklt, -⟩ := List.getElem?_eq_some_iff.mp hk
  constructor
  · intro hj
    exact ((List.getElem?_inj hklt hnd).mp (hk.trans hj.symm)).symm
  · rintro rfl
    exact hk

/-- Rule 1: the checksum at the first unpassed fork is the remote's. -/
theorem filterAt_of_eq (h : sums[i]? = some id.hash) :
    filterAt sums forks head id i =
      if id.next > 0 ∧ head ≥ id.next then some .localIncompatibleOrStale else none := by
  rw [filterAt, if_pos h]

/-- Rule 2: the remote's checksum is an earlier one of ours, and its next fork
is checked against ours. -/
theorem filterAt_of_lt (hnd : sums.Nodup) (hk : sums[k]? = some id.hash) (hki : k < i) :
    filterAt sums forks head id i =
      if forks[k]? ≠ some id.next then some .remoteStale else none := by
  have hiff := getElem?_eq_hash_iff hnd hk
  have hfind : (List.range i).find? (fun j => decide (sums[j]? = some id.hash)) = some k := by
    have hsome : ((List.range i).find? fun j => decide (sums[j]? = some id.hash)).isSome :=
      List.find?_isSome.mpr ⟨k, List.mem_range.mpr hki, decide_eq_true hk⟩
    obtain ⟨j, hj⟩ := Option.isSome_iff_exists.mp hsome
    have hpj := List.find?_some hj
    have hjk : j = k := (hiff j).mp (of_decide_eq_true hpj)
    rw [hj, hjk]
  rw [filterAt, if_neg (fun h => Nat.ne_of_gt hki ((hiff i).mp h)), hfind]

/-- Rule 3: the remote's checksum is a later one of ours. -/
theorem filterAt_of_gt (hnd : sums.Nodup) (hk : sums[k]? = some id.hash) (hik : i < k) :
    filterAt sums forks head id i = none := by
  have hiff := getElem?_eq_hash_iff hnd hk
  have hklt : k < sums.length := (List.getElem?_eq_some_iff.mp hk).1
  have hfind : (List.range i).find? (fun j => decide (sums[j]? = some id.hash)) = none := by
    rw [List.find?_eq_none]
    intro j hj
    simpa [hiff] using Nat.ne_of_lt (Nat.lt_trans (List.mem_range.mp hj) hik)
  have hany : (List.range' (i + 1) (sums.length - (i + 1))).any
      (fun j => decide (sums[j]? = some id.hash)) = true := by
    rw [List.any_eq_true]
    exact ⟨k, List.mem_range'_1.mpr ⟨hik, by omega⟩, by simpa using hk⟩
  rw [filterAt, if_neg (fun h => Nat.ne_of_lt hik ((hiff i).mp h)), hfind]
  simp only [hany, if_true]

/-- Rule 4: a checksum that is none of ours is rejected. -/
theorem filterAt_of_notMem (h : id.hash ∉ sums) :
    filterAt sums forks head id i = some .localIncompatibleOrStale := by
  have hnot : ∀ j, sums[j]? ≠ some id.hash := fun j hj => h (List.mem_of_getElem? hj)
  have hfind : (List.range i).find? (fun j => decide (sums[j]? = some id.hash)) = none := by
    rw [List.find?_eq_none]
    intro j _
    simpa using hnot j
  have hany : (List.range' (i + 1) (sums.length - (i + 1))).any
      (fun j => decide (sums[j]? = some id.hash)) = false := by
    rw [List.any_eq_false]
    intro j _
    simpa using hnot j
  rw [filterAt, if_neg (hnot i), hfind]
  simp only [hany, Bool.false_eq_true, if_false]

end Rules

/-! ### The filter against `newID` -/

section Agreement

variable {config : ChainConfig} {genesis : List UInt8}

theorem le_maxUint64 (x : UInt64) : x ≤ maxUint64 := by
  rw [UInt64.le_iff_toNat_le]
  have := x.toNat_lt
  simp only [maxUint64, UInt64.reduceToNat]
  omega

/-- `newID` by position: for `k` the first fork past the head, the ID is
`sums[k]` and `forks[k]`, or `0` past the last fork. -/
theorem newID_eq_sums (head : UInt64) :
    (sums crc (gatherForks config) genesis)[(gatherForks config).findIdx fun f => decide (head < f)]? =
        some (newID crc config genesis head).hash ∧
      (newID crc config genesis head).next =
        ((gatherForks config)[(gatherForks config).findIdx fun f => decide (head < f)]?).getD 0 := by
  have hp : (fun f : UInt64 => !decide (f ≤ head)) = fun f => decide (head < f) := by
    funext f
    simp only [← decide_not, not_le]
  unfold newID
  rw [newIDLoop_eq]
  dsimp only
  rw [List.takeWhile_eq_take_findIdx_not, List.dropWhile_eq_drop_findIdx_not, hp]
  exact ⟨getElem?_sums crc List.findIdx_le_length,
    by rw [List.headD_eq_head?_getD, List.head?_drop]⟩

/-- The filter by position: it applies the rules at the first fork the head has
not passed, counted with `head > fork`. -/
theorem newFilter_eq_filterAt (head : UInt64) (id : ID) :
    newFilter crc config genesis (fun _ => head) id =
      filterAt (sums crc (gatherForks config) genesis) (gatherForks config ++ [maxUint64]) head id
        ((gatherForks config).findIdx fun f => decide (head ≤ f)) := by
  have hp : (fun f : UInt64 => !decide (f < head)) = fun f => decide (head ≤ f) := by
    funext f
    simp only [← decide_not, not_lt]
  -- the sentry stops the scan
  have hstop : (gatherForks config ++ [maxUint64]).dropWhile (fun f => decide (f < head)) ≠ [] := by
    rw [Ne, List.dropWhile_eq_nil_iff]
    intro h
    have := h maxUint64 (List.mem_append_right _ (List.mem_singleton_self _))
    exact absurd (le_maxUint64 head) (by simpa using this)
  have hidx : ((gatherForks config ++ [maxUint64]).takeWhile fun f => decide (f < head)).length =
      (gatherForks config).findIdx fun f => decide (head ≤ f) := by
    rw [List.takeWhile_eq_take_findIdx_not, hp, List.length_take, List.findIdx_append]
    split_ifs with h
    · simp only [List.length_append, List.length_singleton]
      omega
    · have hle : (gatherForks config).findIdx (fun f => decide (head ≤ f)) = (gatherForks config).length :=
        Nat.le_antisymm List.findIdx_le_length (Nat.le_of_not_lt h)
      simp [List.findIdx_cons, le_maxUint64, hle]
  unfold newFilter
  dsimp only
  rw [filterLoop_eq]
  split
  · exact absurd ‹_› hstop
  · rw [Nat.zero_add, hidx]

/-- A checksum that is none of the local ones is rejected, at every head. -/
theorem newFilter_of_hash_notMem (head : UInt64) {id : ID}
    (h : id.hash ∉ sums crc (gatherForks config) genesis) :
    newFilter crc config genesis (fun _ => head) id = some .localIncompatibleOrStale := by
  rw [newFilter_eq_filterAt]
  exact filterAt_of_notMem h

/-- The remote has passed every fork below the local head, and the local head is
itself a fork the remote has not reached: the pairs of one chain that the
filter's `head > fork` scan stops one fork early for. -/
def StaleAtFork (forks : List UInt64) (hl hr : UInt64) : Prop :=
  hl ∈ forks ∧ hr < hl ∧ ∀ f ∈ forks, f < hl → f ≤ hr

section Sorted

variable {forks : List UInt64} (hs : forks.Pairwise (· < ·))
include hs

theorem getElem_le_getElem_of_le {j k : ℕ} (hj : j < forks.length) (hk : k < forks.length)
    (hjk : j ≤ k) : forks[j] ≤ forks[k] := by
  rcases Nat.lt_or_eq_of_le hjk with h | rfl
  · exact le_of_lt (List.pairwise_iff_getElem.mp hs j k hj hk h)
  · exact le_refl _

theorem lt_of_getElem_lt_getElem {j k : ℕ} (hj : j < forks.length) (hk : k < forks.length)
    (h : forks[j] < forks[k]) : j < k :=
  Nat.lt_of_not_le fun hkj => not_le_of_gt h (getElem_le_getElem_of_le hs hk hj hkj)

/-- On sorted forks, `StaleAtFork` says that the remote's first fork past `hr`
and the local first fork at or past `hl` are one position, holding `hl`. -/
theorem staleAtFork_iff {hl hr : UInt64} :
    StaleAtFork forks hl hr ↔
      (forks.findIdx fun f => decide (hr < f)) = (forks.findIdx fun f => decide (hl ≤ f)) ∧
        ∃ h : (forks.findIdx fun f => decide (hr < f)) < forks.length,
          forks[forks.findIdx fun f => decide (hr < f)] = hl := by
  constructor
  · rintro ⟨hmem, hlt, hpassed⟩
    obtain ⟨m, hm, rfl⟩ := List.getElem_of_mem hmem
    -- both scans stop at the position of `hl`
    have hk : (forks.findIdx fun f => decide (hr < f)) = m := by
      rw [List.findIdx_eq hm]
      refine ⟨decide_eq_true hlt, fun j hjm => decide_eq_false ?_⟩
      exact not_lt_of_ge (hpassed _ (List.getElem_mem _)
        (List.pairwise_iff_getElem.mp hs j m _ hm hjm))
    have hi : (forks.findIdx fun f => decide (forks[m] ≤ f)) = m := by
      rw [List.findIdx_eq hm]
      refine ⟨decide_eq_true (le_refl _), fun j hjm => decide_eq_false ?_⟩
      exact not_le_of_gt (List.pairwise_iff_getElem.mp hs j m _ hm hjm)
    refine ⟨hk.trans hi.symm, hk ▸ hm, ?_⟩
    simp only [hk]
  · rintro ⟨hki, hk, hkl⟩
    have hr_lt : hr < hl := hkl ▸ of_decide_eq_true (List.findIdx_getElem (w := hk))
    refine ⟨hkl ▸ List.getElem_mem hk, hr_lt, fun f hf hfl => ?_⟩
    obtain ⟨j, hj, rfl⟩ := List.getElem_of_mem hf
    -- a fork below `hl` sits before the remote's next fork
    have hjk : j < forks.findIdx fun f => decide (hr < f) :=
      lt_of_getElem_lt_getElem hs hj hk (hkl ▸ hfl)
    exact le_of_not_gt (of_decide_eq_false (List.not_of_lt_findIdx hjk))

end Sorted

/-- **The boundary bug.**  When the local head is a fork block the remote has
not reached, and the remote has passed every earlier fork, the filter rejects
the remote's own `newID`: its scan stops at the fork equal to the head, where
the checksum matches and rule 1a sees the remote's next fork passed. -/
theorem newFilter_rejects_at_fork {hl hr : UInt64} (h : StaleAtFork (gatherForks config) hl hr) :
    newFilter crc config genesis (fun _ => hl) (newID crc config genesis hr) =
      some .localIncompatibleOrStale := by
  obtain ⟨hsum, hnext⟩ := @newID_eq_sums crc config genesis hr
  obtain ⟨hki, hk, hkl⟩ := (staleAtFork_iff (gatherForks_sorted config)).mp h
  have hnext' : (newID crc config genesis hr).next = hl := by
    rw [hnext, List.getElem?_eq_getElem hk, Option.getD_some, hkl]
  rw [newFilter_eq_filterAt, ← hki, filterAt_of_eq hsum, hnext',
    if_pos ⟨pos_of_mem_gatherForks (hkl ▸ List.getElem_mem hk), le_refl _⟩]

set_option maxRecDepth 20000 in
theorem mainnet_filter_rejects_unsynced_peer :
    newFilter ieee mainnetChainConfig mainnetGenesisHash (fun _ => 1150000)
      (newID ieee mainnetChainConfig mainnetGenesisHash 0) = some .localIncompatibleOrStale :=
  -- the bounded quantifier is decided over the list, not over all of `UInt64`
  newFilter_rejects_at_fork ieee ⟨by decide, by decide,
    @of_decide_eq_true _ (List.decidableBAll _ _) (by decide)⟩

/-- **The filter against `newID`.**  Under distinct checksums, a remote on the
same chain is rejected exactly in the `StaleAtFork` case: behind the local head
it is accepted by rule 2, ahead of it by rule 3, and at the same position by
rule 1 unless its next fork is the local head. -/
theorem newFilter_newID_eq_none_iff {hl hr : UInt64}
    (hnd : (sums crc (gatherForks config) genesis).Nodup) :
    newFilter crc config genesis (fun _ => hl) (newID crc config genesis hr) = none ↔
      ¬ StaleAtFork (gatherForks config) hl hr := by
  obtain ⟨hsum, hnext⟩ := @newID_eq_sums crc config genesis hr
  rw [newFilter_eq_filterAt, staleAtFork_iff (gatherForks_sorted config)]
  rcases lt_trichotomy ((gatherForks config).findIdx fun f => decide (hr < f))
      ((gatherForks config).findIdx fun f => decide (hl ≤ f)) with hki | hki | hik
  · -- rule 2: the remote's next fork is the local fork after its checksum
    have hklen := Nat.lt_of_lt_of_le hki List.findIdx_le_length
    have hfork : (gatherForks config ++ [maxUint64])[(gatherForks config).findIdx
        fun f => decide (hr < f)]? = some (newID crc config genesis hr).next := by
      rw [List.getElem?_append_left hklen, hnext, List.getElem?_eq_getElem hklen, Option.getD_some]
    rw [filterAt_of_lt hnd hsum hki, if_neg (not_not.mpr hfork)]
    exact iff_of_true rfl fun h => Nat.ne_of_lt hki h.1
  · -- rule 1: the same position; 1a fires only when the next fork is the head
    rw [← hki, filterAt_of_eq hsum, hnext, ite_eq_right_iff]
    simp only [reduceCtorEq, imp_false, true_and]
    by_cases hklen : ((gatherForks config).findIdx fun f => decide (hr < f)) < (gatherForks config).length
    · have hge := List.findIdx_getElem (p := fun f => decide (hl ≤ f)) (w := hki ▸ hklen)
      simp only [← hki, decide_eq_true_eq] at hge
      have hpos := pos_of_mem_gatherForks (List.getElem_mem hklen)
      rw [List.getElem?_eq_getElem hklen, Option.getD_some]
      exact not_congr ⟨fun h => ⟨hklen, le_antisymm h.2 hge⟩,
        fun ⟨_, h⟩ => ⟨hpos, h.symm ▸ le_refl _⟩⟩
    · rw [List.getElem?_eq_none (Nat.le_of_not_lt hklen), Option.getD_none]
      exact iff_of_true (fun h => lt_irrefl _ h.1) fun ⟨h, _⟩ => hklen h
  · -- rule 3: the remote's checksum is a later local one
    rw [filterAt_of_gt hnd hsum hik]
    exact iff_of_true rfl fun h => Nat.ne_of_gt hik h.1

end Agreement

end RpcNetwork.Core.ForkId
