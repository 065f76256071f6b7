import Mathlib
import RpcNetwork.Lib.RlpStream
import RpcNetwork.Lib.SortedMap

/-!
# Node records (`p2p/enr/enr.go`)

A node record holds a sequence number, signature, raw encoding and pairs
sorted by key; `Set` writes at the index binary search gives, and modifying a
signed record drops the signature and bumps the sequence number.  `SetSig` encodes the record as the RLP list
`[sig, seq, k1, v1, ..., kn, vn]` and keeps the bytes when they are within
`SizeLimit`; `decodeRecord` reads such a list back, value by value from a
stream, and refuses keys that do not increase.

## Design notes

Keys are Go strings, compared byte by byte, so a key is a `List UInt8` with the
lexicographic order of its bytes; a value is the `rlp.RawValue` of its
encoding.  An `Entry` is its key with its encoder and decoder; a value whose
encoding fails is not modelled.  A nil signature is `none`,
and a nil `raw` the empty list.  The identity scheme is its `Verify`, which
returns the scheme's error message.  `SetSig` panics on a nil scheme with a
signature or the other way round: a panic is the outer `Except String`.  The
decoder reads the record at the top of a stream, as `rlp.DecodeBytes` does.
-/

namespace RpcNetwork.P2p.Enr

open Rlp SortedMap

/-- Keys are ordered as Go orders strings, byte by byte. -/
instance isTrans_keyLt : IsTrans (List UInt8) (· < ·) := ⟨fun _ _ _ => List.lt_trans⟩

instance isStrictTotalOrder_keyLt : IsStrictTotalOrder (List UInt8) (· < ·) := {}

/-- `SizeLimit`: the largest encoded record, in bytes. -/
def sizeLimit : ℕ := 300

/-- `pair`: a key, and its value's encoding. -/
structure Pair where
  k : List UInt8
  v : List UInt8
  deriving DecidableEq, Repr

/-- `Record`. -/
structure Record where
  seq : UInt64
  signature : Option (List UInt8)
  raw : List UInt8
  pairs : List Pair
  deriving DecidableEq, Repr

/-- The errors of the package, and those of the rlp package it passes on. -/
inductive Err where
  | rlp (e : StreamError)
  /-- The error of the identity scheme's `Verify`. -/
  | scheme (msg : String)
  /-- `errNotSorted`. -/
  | notSorted
  /-- `errDuplicateKey`. -/
  | duplicateKey
  /-- `errIncompletePair`. -/
  | incompletePair
  /-- `errTooBig`. -/
  | tooBig
  /-- `errEncodeUnsigned`. -/
  | encodeUnsigned
  /-- `errNotFound`. -/
  | notFound
  deriving DecidableEq, Repr

/-- `KeyError`: the key of a failed `Load`, and why it failed. -/
structure KeyError where
  key : List UInt8
  err : Err
  deriving DecidableEq, Repr

/-- `IdentityScheme.Verify`: whether `sig` signs the record, or the scheme's error. -/
structure IdentityScheme where
  verify : Record → List UInt8 → Except String Unit

namespace Record

/-- The zero value, an empty record. -/
def empty : Record := ⟨0, none, [], []⟩

/-- `SetSeq`: a new sequence number, which invalidates the signature. -/
def setSeq (r : Record) (s : UInt64) : Record :=
  { r with signature := none, raw := [], seq := s }

/-- `Load` of the entry of key `key` whose value is decoded by `f`. -/
def load {α : Type} (r : Record) (key : List UInt8) (f : Item → Except Error α) :
    Except KeyError α :=
  match r.pairs[search (· < ·) Pair.k r.pairs key]? with
  | some p =>
    if p.k = key then (decodeBytesValue f p.v).mapError fun err => ⟨key, .rlp err⟩
    else .error ⟨key, .notFound⟩
  | none => .error ⟨key, .notFound⟩

/-- `invalidate`: a signed record counts its sequence number up and drops its
signature and raw bytes. -/
def invalidate (r : Record) : Record :=
  { r with seq := if r.signature.isSome then r.seq + 1 else r.seq, signature := none, raw := [] }

/-- `Set` of the entry of key `key` whose value is written as `item`. -/
def set (r : Record) (key : List UInt8) (item : Item) : Record :=
  let blob := encode item
  let r := r.invalidate
  let pairs := r.pairs
  let i := search (· < ·) Pair.k pairs key
  match pairs[i]? with
  | some p =>
    if p.k = key then
      -- element is present at r.pairs[i]
      { r with pairs := pairs.set i { p with v := blob } }
    else
      -- insert pair before i-th elem: `append`, `copy` and the write at `i`
      { r with pairs := pairs.take i ++ ⟨key, blob⟩ :: pairs.drop i }
  | none =>
    -- element should be placed at the end of r.pairs
    { r with pairs := pairs ++ [⟨key, blob⟩] }

/-- `AppendElements`: the sequence number, then each key and value, every
element as its encoding. -/
def appendElements (r : Record) (list : List (List UInt8)) : List (List UInt8) :=
  list ++ encodeUint r.seq.toNat :: r.pairs.flatMap fun p => [Rlp.encode (.bytes p.k), p.v]

/-- `encode`: the record signed with `sig`, as RLP. -/
def encode (r : Record) (sig : List UInt8) : Except Err (List UInt8) :=
  let raw := encodeRaws (r.appendElements [Rlp.encode (.bytes sig)])
  if sizeLimit < raw.length then .error .tooBig else .ok raw

/-- `SetSig`: a signature the scheme accepts, with the record's bytes; or no
signature. -/
def setSig (r : Record) (s : Option IdentityScheme) (sig : Option (List UInt8)) :
    Except String (Except Err Record) :=
  match s, sig with
  -- Prevent storing invalid data.
  | none, some _ => .error "enr: invalid call to SetSig with non-nil signature but nil scheme"
  | some _, none => .error "enr: invalid call to SetSig with nil signature but non-nil scheme"
  -- Verify if we have a scheme.
  | some s, some sig => .ok do
    (s.verify r sig).mapError .scheme
    let raw ← r.encode sig
    pure { r with signature := some sig, raw := raw }
  -- Reset otherwise.
  | none, none => .ok (.ok { r with signature := none, raw := [] })

/-- `EncodeRLP`: the raw bytes of a signed record. -/
def encodeRLP (r : Record) : Except Err (List UInt8) :=
  match r.signature with
  | none => .error .encodeUnsigned
  | some _ => .ok r.raw

end Record

/-! ### Decoding -/

/-- The check of the loop of `decodeRecord` after its first pair: the key is
neither the one before nor below it. -/
def checkOrder (prev : Option (List UInt8)) (k : List UInt8) : Except Err Unit :=
  match prev with
  | some p => if k = p then .error .duplicateKey else if k < p then .error .notSorted else .ok ()
  | none => .ok ()

/-- The `for` loop of `decodeRecord`, after the key `prev` (none before the
first pair), until the list ends.  Each pair takes two bytes at least, so the
length of the list's payload is fuel enough. -/
def readPairs : ℕ → Option (List UInt8) → List UInt8 → Except Err (List Pair)
  | fuel, prev, payload =>
    match listBytes payload with
    | .error .eol => .ok []
    | .error e => .error (.rlp e)
    | .ok (k, payload) =>
      match listRaw payload with
      | .error .eol => .error .incompletePair
      | .error e => .error (.rlp e)
      | .ok (v, payload) => do
        checkOrder prev k
        match fuel with
        | 0 => throw .incompletePair
        | fuel + 1 => return ⟨k, v⟩ :: (← readPairs fuel (some k) payload)

/-- `decodeRecord`: the record, its raw bytes, and the input after them. -/
def decodeRecord (input : List UInt8) : Except Err (Record × List UInt8 × List UInt8) := do
  let (raw, rest) ← (topRaw input).mapError fun e => .rlp (.rlp e)
  if sizeLimit < raw.length then throw .tooBig
  -- Decode the RLP container.
  let (kind, size, body) ← (topKind raw).mapError fun e => .rlp (.rlp e)
  if kind ≠ .list then throw (.rlp (.rlp .expectedList))
  let (signature, payload) ← (listBytes (body.take size)).mapError .rlp
  let (seq, payload) ← (listUint payload).mapError .rlp
  -- The rest of the record contains sorted k/v pairs.
  let pairs ← readPairs payload.length none payload
  pure (⟨seq.toUInt64, some signature, [], pairs⟩, raw, rest)

/-- `DecodeRLP`: the decoded record keeps its raw bytes. -/
def decodeRLP (input : List UInt8) : Except Err (Record × List UInt8) := do
  let (dec, raw, rest) ← decodeRecord input
  pure ({ dec with raw := raw }, rest)

/-- The records the package's functions make: the empty one, and what `Set`,
`SetSeq`, a `SetSig` that succeeds and `DecodeRLP` give. -/
inductive Reachable : Record → Prop
  | empty : Reachable .empty
  | set {r : Record} (key : List UInt8) (item : Item) : Reachable r → Reachable (r.set key item)
  | setSeq {r : Record} (s : UInt64) : Reachable r → Reachable (r.setSeq s)
  | setSig {r r' : Record} (s : Option IdentityScheme) (sig : Option (List UInt8)) :
      Reachable r → r.setSig s sig = .ok (.ok r') → Reachable r'
  | decodeRLP {input rest : List UInt8} {r : Record} : decodeRLP input = .ok (r, rest) → Reachable r

/-! ### `Set` and `Load` -/

namespace Record

variable {r : Record} {key : List UInt8} {item : Item}

@[simp] theorem invalidate_pairs (r : Record) : r.invalidate.pairs = r.pairs := rfl

/-- `Set` changes the pairs of the invalidated record. -/
theorem set_eq (r : Record) (key : List UInt8) (item : Item) :
    r.set key item = { r.invalidate with pairs := (r.set key item).pairs } := by
  dsimp only [set]
  split
  · split <;> rfl
  · rfl

/-- **`Set` keeps the keys strictly increasing**, in each of its three cases. -/
theorem sorted_set (hs : Sorted (· < ·) Pair.k r.pairs) (key : List UInt8) (item : Item) :
    Sorted (· < ·) Pair.k (r.set key item).pairs := by
  unfold set
  simp only [invalidate_pairs]
  split
  · next q hq =>
    have hi := (List.getElem?_eq_some_iff.mp hq).1
    split_ifs with hk
    · -- the key is there: its value is replaced
      refine hs.set hi ?_
      rw [(List.getElem?_eq_some_iff.mp hq).2]
    · -- the entry at the index is above the key: the pair goes in before it
      exact hs.insert (x := ⟨key, Rlp.encode item⟩) fun y hy hyk => hk (by rw [hq] at hy; cases hy; exact hyk)
  · next hnone =>
    -- every key is below: the pair goes at the end
    have hlen : r.pairs.length ≤ search (· < ·) Pair.k r.pairs key := List.getElem?_eq_none_iff.mp hnone
    have hins := hs.insert (x := ⟨key, Rlp.encode item⟩) fun y hy => by rw [hnone] at hy; cases hy
    rwa [List.take_of_length_le hlen, List.drop_of_length_le hlen] at hins

/-- **The pairs after `Set`** are the new pair and the old pairs with other keys. -/
theorem mem_set_pairs (hs : Sorted (· < ·) Pair.k r.pairs) {p : Pair} :
    p ∈ (r.set key item).pairs ↔ p = ⟨key, Rlp.encode item⟩ ∨ (p ∈ r.pairs ∧ p.k ≠ key) := by
  -- no pair has the key unless the one at the search index does
  have habsent : ∀ q, r.pairs[search (· < ·) Pair.k r.pairs key]? = some q → q.k ≠ key →
      ∀ p ∈ r.pairs, p.k ≠ key := fun q hq hk p hp hpk =>
    hk (by
      obtain ⟨x, hx, hxk⟩ := (exists_search_iff hs key).mpr ⟨p, hp, hpk⟩
      rw [hq] at hx
      cases hx
      exact hxk)
  unfold set
  simp only [invalidate_pairs]
  split
  · next q hq =>
    obtain ⟨hi, hqi⟩ := List.getElem?_eq_some_iff.mp hq
    split_ifs with hk
    · -- the pair at the index is replaced, the others are where they were
      have hx : ({ q with v := Rlp.encode item } : Pair) = ⟨key, Rlp.encode item⟩ := by rw [← hk]
      rw [hx]
      constructor
      · intro hp
        obtain ⟨j, hj, rfl⟩ := List.mem_iff_getElem.mp hp
        by_cases hji : search (· < ·) Pair.k r.pairs key = j
        · subst hji
          exact Or.inl (List.getElem_set_self _)
        · -- another index: an old pair, with another key
          have hj' : j < r.pairs.length := by simpa using hj
          right
          rw [List.getElem_set_ne hji]
          refine ⟨List.getElem_mem _, fun hjk => hji ?_⟩
          exact hs.index_eq_of_key_eq hi hj' (by rw [hqi, hk, hjk])
      · rintro (rfl | ⟨hp, hpk⟩)
        · have hmem := List.getElem_mem (l := r.pairs.set (search (· < ·) Pair.k r.pairs key)
            ⟨key, Rlp.encode item⟩) (by simpa using hi)
          rwa [List.getElem_set_self] at hmem
        · obtain ⟨j, hj, rfl⟩ := List.mem_iff_getElem.mp hp
          have hji : search (· < ·) Pair.k r.pairs key ≠ j := fun hij => hpk (by subst hij; rw [hqi, hk])
          have hmem := List.getElem_mem (l := r.pairs.set (search (· < ·) Pair.k r.pairs key)
            ⟨key, Rlp.encode item⟩) (by simpa using hj)
          rwa [List.getElem_set_ne hji] at hmem
    · -- no pair has the key: the new one goes in among them
      have hno := habsent q hq hk
      simp only [List.mem_append, List.mem_cons]
      constructor
      · rintro (hp | rfl | hp)
        · exact Or.inr ⟨List.mem_of_mem_take hp, hno p (List.mem_of_mem_take hp)⟩
        · exact Or.inl rfl
        · exact Or.inr ⟨List.mem_of_mem_drop hp, hno p (List.mem_of_mem_drop hp)⟩
      · rintro (rfl | ⟨hp, -⟩)
        · exact Or.inr (Or.inl rfl)
        · rw [← List.take_append_drop (search (· < ·) Pair.k r.pairs key) r.pairs, List.mem_append] at hp
          rcases hp with hp | hp
          · exact Or.inl hp
          · exact Or.inr (Or.inr hp)
  · next hnone =>
    have hno : ∀ p ∈ r.pairs, p.k ≠ key := fun p hp hpk => by
      obtain ⟨x, hx, -⟩ := (exists_search_iff hs key).mpr ⟨p, hp, hpk⟩
      rw [hnone] at hx
      cases hx
    simp only [List.mem_append, List.mem_singleton]
    constructor
    · rintro (hp | rfl)
      · exact Or.inr ⟨hp, hno p hp⟩
      · exact Or.inl rfl
    · rintro (rfl | ⟨hp, -⟩)
      · exact Or.inr rfl
      · exact Or.inl hp

/-- On sorted pairs, `Load` of a key present decodes its value. -/
theorem load_of_mem {α : Type} (hs : Sorted (· < ·) Pair.k r.pairs) {p : Pair} (hp : p ∈ r.pairs)
    (f : Item → Except Error α) :
    r.load p.k f = (decodeBytesValue f p.v).mapError fun err => ⟨p.k, .rlp err⟩ := by
  obtain ⟨j, hj, rfl⟩ := List.mem_iff_getElem.mp hp
  rw [load, search_getElem hs hj, List.getElem?_eq_getElem hj]
  exact if_pos rfl

/-- `Load` of a key no pair has is `errNotFound`. -/
theorem load_of_not_mem {α : Type} (h : ∀ p ∈ r.pairs, p.k ≠ key) (f : Item → Except Error α) :
    r.load key f = .error ⟨key, .notFound⟩ := by
  unfold load
  split
  · next p hp => exact if_neg (h p (List.mem_of_getElem? hp))
  · rfl

variable (hs : Sorted (· < ·) Pair.k r.pairs)
include hs

/-- **`Load` after `Set` decodes the value set.** -/
theorem load_set_self {α : Type} (f : Item → Except Error α) :
    (r.set key item).load key f =
      (decodeBytesValue f (Rlp.encode item)).mapError fun err => ⟨key, .rlp err⟩ :=
  load_of_mem (sorted_set hs key item) ((mem_set_pairs hs).mpr (Or.inl rfl)) f

/-- **`Set` leaves what `Load` returns for every other key.** -/
theorem load_set_of_ne {α : Type} {key' : List UInt8} (hne : key' ≠ key) (f : Item → Except Error α) :
    (r.set key item).load key' f = r.load key' f := by
  by_cases hk : ∃ p ∈ r.pairs, p.k = key'
  · obtain ⟨p, hp, rfl⟩ := hk
    have hp' : p ∈ (r.set key item).pairs := (mem_set_pairs hs).mpr (Or.inr ⟨hp, hne⟩)
    rw [load_of_mem (sorted_set hs key item) hp', load_of_mem hs hp]
  · push Not at hk
    rw [load_of_not_mem hk, load_of_not_mem]
    intro p hp
    rcases (mem_set_pairs hs).mp hp with rfl | ⟨hp, -⟩
    · exact Ne.symm hne
    · exact hk p hp

end Record

/-! ### The records' invariant -/

/-- What every record the package makes satisfies: its keys strictly increase,
and each value is a raw value or an item's encoding. -/
structure Valid (r : Record) : Prop where
  sorted : Sorted (· < ·) Pair.k r.pairs
  values : ∀ p ∈ r.pairs, IsRaw p.v ∨ ∃ item, p.v = Rlp.encode item

namespace Valid

variable {r : Record}

theorem empty : Valid .empty := ⟨List.Pairwise.nil, fun _ h => by cases h⟩

/-- **`Set` keeps the invariant.** -/
theorem set (h : Valid r) (key : List UInt8) (item : Item) : Valid (r.set key item) where
  sorted := Record.sorted_set h.sorted key item
  values := by
    intro p hp
    rcases (Record.mem_set_pairs h.sorted).mp hp with rfl | ⟨hp, -⟩
    · exact Or.inr ⟨item, rfl⟩
    · exact h.values p hp

theorem setSeq (h : Valid r) (s : UInt64) : Valid (r.setSeq s) := ⟨h.sorted, h.values⟩

/-- `SetSig` changes the signature and the raw bytes only. -/
theorem setSig (h : Valid r) {r' : Record} {s : Option IdentityScheme} {sig : Option (List UInt8)}
    (hsig : r.setSig s sig = .ok (.ok r')) : Valid r' := by
  unfold Record.setSig at hsig
  split at hsig
  · cases hsig
  · cases hsig
  · obtain ⟨-, -, hsig⟩ := Except.bind_eq_ok.mp (Except.ok.inj hsig)
    obtain ⟨raw, -, hsig⟩ := Except.bind_eq_ok.mp hsig
    cases Except.ok.inj hsig
    exact ⟨h.sorted, h.values⟩
  · cases Except.ok.inj (Except.ok.inj hsig)
    exact ⟨h.sorted, h.values⟩

end Valid

end RpcNetwork.P2p.Enr
