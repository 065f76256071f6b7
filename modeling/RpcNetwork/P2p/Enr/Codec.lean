import Mathlib
import RpcNetwork.P2p.Enr.Record

/-!
# Node records as RLP

What `decodeRecord` accepts, and that it takes back what `SetSig` writes.  The
record's list is `[sig, seq, k1, v1, ..., kn, vn]`; the decoder reads its
elements one at a time from a stream, and its loop checks each key against the
one before.  A well-formed list is described by its elements: the signature's
encoding, the sequence number's, and the pairs' keys and values with the keys
increasing (`KeysAbove`).
-/

namespace RpcNetwork.P2p.Enr

open Rlp SortedMap

/-- The elements the pairs are written as: each key, then its value. -/
def pairElems (pairs : List Pair) : List (List UInt8) :=
  pairs.flatMap fun p => [Rlp.encode (.bytes p.k), p.v]

/-- The keys increase from the key `prev` on: each pair passes the loop's check. -/
def KeysAbove : Option (List UInt8) → List Pair → Prop
  | _, [] => True
  | prev, p :: ps => checkOrder prev p.k = .ok () ∧ KeysAbove (some p.k) ps

/-- The last key of the pairs, or `prev` if there are none. -/
def lastKey (prev : Option (List UInt8)) (pairs : List Pair) : Option (List UInt8) :=
  pairs.foldl (fun _ p => some p.k) prev

theorem lastKey_cons (prev : Option (List UInt8)) (p : Pair) (ps : List Pair) :
    lastKey prev (p :: ps) = lastKey (some p.k) ps := rfl

/-- The loop's check passes exactly on a key above the one before. -/
theorem checkOrder_eq_ok_iff {prev : Option (List UInt8)} {k : List UInt8} :
    checkOrder prev k = .ok () ↔ ∀ q, prev = some q → q < k := by
  cases prev with
  | none => exact iff_of_true rfl fun _ h => by cases h
  | some q =>
    dsimp only [checkOrder]
    constructor
    · intro h q' hq'
      cases hq'
      split_ifs at h with heq hlt
      rcases Std.lt_trichotomy k q with h' | h' | h'
      · exact absurd h' hlt
      · exact absurd h' heq
      · exact h'
    · intro h
      have hqk := h q rfl
      rw [if_neg fun heq => List.lt_irrefl _ (heq ▸ hqk),
        if_neg fun hlt => List.lt_irrefl _ (List.lt_trans hlt hqk)]

/-- Keys that increase from `prev` on are sorted, and above `prev`. -/
theorem keysAbove_iff : ∀ {prev : Option (List UInt8)} {pairs : List Pair},
    KeysAbove prev pairs ↔ Sorted (· < ·) Pair.k pairs ∧ ∀ q, prev = some q → ∀ p ∈ pairs, q < p.k
  | prev, [] => by simp [KeysAbove, Sorted]
  | prev, p :: ps => by
    rw [KeysAbove, checkOrder_eq_ok_iff, keysAbove_iff]
    unfold Sorted
    rw [List.map_cons, List.pairwise_cons]
    constructor
    · rintro ⟨hprev, hs, hp⟩
      refine ⟨⟨fun k hk => ?_, hs⟩, fun q hq x hx => ?_⟩
      · obtain ⟨x, hx, rfl⟩ := List.mem_map.mp hk
        exact hp p.k rfl x hx
      · rcases List.mem_cons.mp hx with rfl | hx
        · exact hprev q hq
        · exact List.lt_trans (hprev q hq) (hp p.k rfl x hx)
    · rintro ⟨⟨hp, hs⟩, hprev⟩
      refine ⟨fun q hq => hprev q hq p List.mem_cons_self, hs, fun q hq x hx => ?_⟩
      cases hq
      exact hp x.k (List.mem_map_of_mem hx)

/-! ### The loop -/

/-- At the list's end the loop stops with no pair. -/
theorem readPairs_nil (fuel : ℕ) (prev : Option (List UInt8)) : readPairs fuel prev [] = .ok [] :=
  (readPairs.eq_1 fuel prev []).trans rfl

/-- One pass of the loop: a key and a value are read, the key passes the check,
and the loop goes on after them. -/
theorem readPairs_succ_of_read {fuel : ℕ} {prev : Option (List UInt8)} {payload rest₁ rest k v : List UInt8}
    (hk : listBytes payload = .ok (k, rest₁)) (hv : listRaw rest₁ = .ok (v, rest))
    (hcheck : checkOrder prev k = .ok ()) :
    readPairs (fuel + 1) prev payload = (⟨k, v⟩ :: ·) <$> readPairs fuel (some k) rest := by
  rw [readPairs, hk]
  dsimp only
  rw [hv]
  dsimp only
  rw [hcheck, Except.ok_bind]
  cases readPairs fuel (some k) rest <;> rfl

/-- A key and a value are read, and the check refuses the key: the loop fails as
the check does. -/
theorem readPairs_of_checkOrder_error {fuel : ℕ} {prev : Option (List UInt8)}
    {payload rest₁ rest k v : List UInt8} {e : Err}
    (hk : listBytes payload = .ok (k, rest₁)) (hv : listRaw rest₁ = .ok (v, rest))
    (hcheck : checkOrder prev k = .error e) : readPairs fuel prev payload = .error e := by
  rw [readPairs, hk]
  dsimp only
  rw [hv]
  dsimp only
  rw [hcheck]
  rfl

/-- A key with nothing after it is a dangling key. -/
theorem readPairs_of_dangling {fuel : ℕ} {prev : Option (List UInt8)} {payload k : List UInt8}
    (hk : listBytes payload = .ok (k, [])) : readPairs fuel prev payload = .error .incompletePair := by
  rw [readPairs, hk]
  dsimp only
  rw [listRaw, listKind_nil]
  rfl

/-- A key, its value, and as many pairs after them. -/
theorem flatten_pairElems_cons (p : Pair) (ps : List Pair) (tail : List UInt8) :
    (pairElems (p :: ps)).flatten ++ tail =
      Rlp.encode (.bytes p.k) ++ (p.v ++ ((pairElems ps).flatten ++ tail)) := by
  simp [pairElems]

/-- Each pair takes two bytes at least. -/
theorem two_mul_length_le {pairs : List Pair} (hv : ∀ p ∈ pairs, IsRaw p.v) :
    2 * pairs.length ≤ (pairElems pairs).flatten.length := by
  induction pairs with
  | nil => simp [pairElems]
  | cons p ps ih =>
    have hvp : p.v ≠ [] := by
      obtain ⟨kind, payload, -, hv⟩ := hv p List.mem_cons_self
      rw [hv]
      exact List.append_ne_nil_of_left_ne_nil (header_ne_nil _ _) _
    have hk := encode_ne_nil (.bytes p.k)
    have := ih fun x hx => hv x (List.mem_cons_of_mem _ hx)
    have hlen := congrArg List.length (flatten_pairElems_cons p ps [])
    simp only [List.append_nil, List.length_append] at hlen
    have := List.length_pos_of_ne_nil hvp
    have := List.length_pos_of_ne_nil hk
    rw [hlen, List.length_cons]
    omega

/-- **The loop reads well-formed pairs**, and goes on after the last key with
the fuel they leave. -/
theorem readPairs_append : ∀ (pairs : List Pair) (fuel : ℕ) (prev : Option (List UInt8))
    (tail : List UInt8), (∀ p ∈ pairs, p.k.length < 2 ^ 64 ∧ IsRaw p.v) → KeysAbove prev pairs →
    pairs.length ≤ fuel →
    readPairs fuel prev ((pairElems pairs).flatten ++ tail) =
      (pairs ++ ·) <$> readPairs (fuel - pairs.length) (lastKey prev pairs) tail
  | [], fuel, prev, tail, _, _, _ => by
    simp only [pairElems, List.flatMap_nil, List.flatten_nil, List.nil_append, List.length_nil,
      Nat.sub_zero, lastKey, List.foldl_nil]
    cases readPairs fuel prev tail <;> rfl
  | p :: ps, fuel, prev, tail, hp, hkeys, hfuel => by
    obtain ⟨fuel, rfl⟩ : ∃ f, fuel = f + 1 := ⟨fuel - 1, by simp at hfuel; omega⟩
    obtain ⟨hk, hv⟩ := hp p List.mem_cons_self
    have hbytes : listBytes (Rlp.encode (.bytes p.k) ++ (p.v ++ ((pairElems ps).flatten ++ tail))) =
        .ok (p.k, p.v ++ ((pairElems ps).flatten ++ tail)) := listBytes_eq_ok_iff.mpr ⟨hk, rfl⟩
    have hraw : listRaw (p.v ++ ((pairElems ps).flatten ++ tail)) = .ok (p.v, (pairElems ps).flatten ++ tail) :=
      listRaw_eq_ok_iff.mpr ⟨hv, rfl⟩
    have hrest := readPairs_append ps fuel (some p.k) tail (fun x hx => hp x (List.mem_cons_of_mem _ hx))
      hkeys.2 (by simp at hfuel; omega)
    rw [flatten_pairElems_cons, readPairs_succ_of_read hbytes hraw hkeys.1, hrest, List.length_cons,
      Nat.add_sub_add_right, lastKey_cons]
    cases readPairs (fuel - ps.length) (lastKey (some p.k) ps) tail <;> rfl

/-- Only an empty payload ends the loop: a read that fails on a value never
says `EOL`. -/
theorem listBytes_eq_eol {payload : List UInt8} (h : listBytes payload = .error .eol) : payload = [] := by
  cases payload with
  | nil => rfl
  | cons b bs =>
    rw [listBytes, listKind_of_ne_nil (List.cons_ne_nil b bs)] at h
    cases hk : topKind (b :: bs) with
    | error e => rw [hk] at h; cases h
    | ok k =>
      rw [hk] at h
      change (bytes k).mapError StreamError.rlp = .error .eol at h
      cases hb : bytes k <;> rw [hb] at h <;> cases h

/-- **Whatever the loop accepts is well-formed pairs**: their keys increase
from `prev` on, and the payload is their encoding. -/
theorem readPairs_eq_ok : ∀ (fuel : ℕ) (prev : Option (List UInt8)) (payload : List UInt8)
    (pairs : List Pair), readPairs fuel prev payload = .ok pairs →
    payload = (pairElems pairs).flatten ∧ KeysAbove prev pairs ∧
      ∀ p ∈ pairs, p.k.length < 2 ^ 64 ∧ IsRaw p.v := by
  intro fuel
  induction fuel with
  | zero =>
    intro prev payload pairs h
    rw [readPairs] at h
    split at h
    · next heol =>
      cases h
      exact ⟨listBytes_eq_eol heol, trivial, by simp⟩
    · cases h
    · split at h
      · cases h
      · cases h
      · obtain ⟨-, -, h⟩ := Except.bind_eq_ok.mp h
        cases h
  | succ fuel ih =>
    intro prev payload pairs h
    rw [readPairs] at h
    split at h
    · next heol =>
      cases h
      exact ⟨listBytes_eq_eol heol, trivial, by simp⟩
    · cases h
    · next k rest₁ hk =>
      split at h
      · cases h
      · cases h
      · next v rest hv =>
        -- a key, its value, and the pairs the loop reads after them
        obtain ⟨u, hcheck, h⟩ := Except.bind_eq_ok.mp h
        obtain ⟨ps, hps, h⟩ := Except.bind_eq_ok.mp h
        cases h
        obtain ⟨hklen, rfl⟩ := listBytes_eq_ok_iff.mp hk
        obtain ⟨hraw, rfl⟩ := listRaw_eq_ok_iff.mp hv
        obtain ⟨rfl, hkeys, hrest⟩ := ih (some k) rest ps hps
        refine ⟨by simp [pairElems], ⟨hcheck, hkeys⟩, fun p hp => ?_⟩
        rcases List.mem_cons.mp hp with rfl | hp
        · exact ⟨hklen, hraw⟩
        · exact hrest p hp

/-! ### The decoder -/

/-- **The decoder on a record's list**: the signature and the sequence number
are read, and the loop reads the rest. -/
theorem decodeRecord_encodeRaws {sig : List UInt8} {seq : ℕ} {elems : List (List UInt8)}
    (hseq : seq < 2 ^ 64)
    (hsize : (encodeRaws (Rlp.encode (.bytes sig) :: encodeUint seq :: elems)).length ≤ sizeLimit)
    (rest : List UInt8) :
    decodeRecord (encodeRaws (Rlp.encode (.bytes sig) :: encodeUint seq :: elems) ++ rest) =
      (readPairs elems.flatten.length none elems.flatten).map fun pairs =>
        (⟨seq.toUInt64, some sig, [], pairs⟩,
          encodeRaws (Rlp.encode (.bytes sig) :: encodeUint seq :: elems), rest) := by
  set E := Rlp.encode (.bytes sig) :: encodeUint seq :: elems with hE
  have hflat : E.flatten = Rlp.encode (.bytes sig) ++ (encodeUint seq ++ elems.flatten) := by
    simp [hE]
  have hlen : E.flatten.length < 2 ^ 64 := by
    have : E.flatten.length ≤ (encodeRaws E).length := by simp [encodeRaws]
    unfold sizeLimit at hsize
    omega
  have hsig : sig.length < 2 ^ 64 := by
    have := length_le_encode_bytes sig
    rw [hflat, List.length_append] at hlen
    omega
  have hraw : (topRaw (encodeRaws E ++ rest)).mapError (fun e => Err.rlp (.rlp e)) =
      .ok (encodeRaws E, rest) := by
    have h : topRaw (encodeRaws E ++ rest) = .ok (encodeRaws E, rest) :=
      topRaw_eq_ok_iff.mpr ⟨⟨.list, E.flatten, hlen, rfl⟩, rfl⟩
    rw [h]
    rfl
  have hkind : (topKind (encodeRaws E)).mapError (fun e => Err.rlp (.rlp e)) =
      .ok (.list, E.flatten.length, E.flatten) := by
    have := topKind_encodeRaws hlen []
    rw [List.append_nil, List.append_nil] at this
    rw [this]
    rfl
  have hbytes : (listBytes (E.flatten.take E.flatten.length)).mapError Err.rlp =
      .ok (sig, encodeUint seq ++ elems.flatten) := by
    rw [List.take_length, hflat, listBytes_eq_ok_iff.mpr ⟨hsig, rfl⟩]
    rfl
  have huint : (listUint (encodeUint seq ++ elems.flatten)).mapError Err.rlp = .ok (seq, elems.flatten) := by
    rw [listUint_eq_ok_iff.mpr ⟨hseq, rfl⟩]
    rfl
  rw [decodeRecord, hraw, Except.ok_bind]
  dsimp only
  rw [if_neg (by omega), hkind, Except.ok_bind]
  dsimp only
  rw [if_neg (by decide), hbytes, Except.ok_bind]
  dsimp only
  rw [huint, Except.ok_bind]
  dsimp only
  cases readPairs elems.flatten.length none elems.flatten <;> rfl

/-- **Whatever the decoder accepts is a record's list** within `SizeLimit` whose
keys increase; it returns the list's fields and its bytes. -/
theorem decodeRecord_eq_ok {input raw rest : List UInt8} {dec : Record}
    (h : decodeRecord input = .ok (dec, raw, rest)) :
    ∃ sig seq pairs, seq < 2 ^ 64 ∧ KeysAbove none pairs ∧
      (∀ p ∈ pairs, p.k.length < 2 ^ 64 ∧ IsRaw p.v) ∧
      raw = encodeRaws (Rlp.encode (.bytes sig) :: encodeUint seq :: pairElems pairs) ∧
      raw.length ≤ sizeLimit ∧ input = raw ++ rest ∧ dec = ⟨seq.toUInt64, some sig, [], pairs⟩ := by
  rw [decodeRecord, Except.bind_eq_ok] at h
  obtain ⟨⟨raw', rest'⟩, hraw, h⟩ := h
  obtain ⟨⟨kind', payload, hok', rfl⟩, rfl⟩ := topRaw_eq_ok_iff.mp (Except.mapError_eq_ok.mp hraw)
  dsimp only at h
  split_ifs at h with hbig
  · cases h
  -- the container is a list, whose payload is the value's
  obtain ⟨⟨kind, size, body⟩, hkind, h⟩ := Except.bind_eq_ok.mp h
  obtain ⟨hok, hbody, -⟩ := topKind_eq_ok_iff.mp (Except.mapError_eq_ok.mp hkind)
  obtain ⟨rfl, rfl, rfl⟩ := header_append_inj hok' hok hbody
  dsimp only at h
  split_ifs at h with hlist
  · cases h
  rw [not_not] at hlist
  subst hlist
  rw [List.take_length] at h
  -- the signature, the sequence number, and the pairs
  obtain ⟨⟨sig, payload₁⟩, hsig, h⟩ := Except.bind_eq_ok.mp h
  obtain ⟨hsiglen, rfl⟩ := listBytes_eq_ok_iff.mp (Except.mapError_eq_ok.mp hsig)
  obtain ⟨⟨seq, payload₂⟩, hseq, h⟩ := Except.bind_eq_ok.mp h
  obtain ⟨hseqlt, rfl⟩ := listUint_eq_ok_iff.mp (Except.mapError_eq_ok.mp hseq)
  obtain ⟨pairs, hpairs, h⟩ := Except.bind_eq_ok.mp h
  obtain ⟨rfl, hkeys, hvals⟩ := readPairs_eq_ok _ none _ pairs hpairs
  cases Except.ok.inj h
  refine ⟨sig, seq, pairs, hseqlt, hkeys, hvals, ?_, by omega, rfl, rfl⟩
  simp [encodeRaws, header, pairElems]

/-- **The decoder accepts exactly the records within `SizeLimit` whose keys
strictly increase**, and returns their signature, sequence number and pairs,
with the bytes of the list. -/
theorem decodeRecord_eq_ok_iff {input raw rest : List UInt8} {dec : Record} :
    decodeRecord input = .ok (dec, raw, rest) ↔
      ∃ sig seq pairs, seq < 2 ^ 64 ∧ Sorted (· < ·) Pair.k pairs ∧ (∀ p ∈ pairs, IsRaw p.v) ∧
        raw = encodeRaws (Rlp.encode (.bytes sig) :: encodeUint seq :: pairElems pairs) ∧
        raw.length ≤ sizeLimit ∧ input = raw ++ rest ∧ dec = ⟨seq.toUInt64, some sig, [], pairs⟩ := by
  constructor
  · intro h
    obtain ⟨sig, seq, pairs, hseq, hkeys, hvals, hraw, hsize, hinput, hdec⟩ := decodeRecord_eq_ok h
    exact ⟨sig, seq, pairs, hseq, (keysAbove_iff.mp hkeys).1, fun p hp => (hvals p hp).2, hraw, hsize,
      hinput, hdec⟩
  · rintro ⟨sig, seq, pairs, hseq, hs, hvals, rfl, hsize, rfl, rfl⟩
    -- every key is written within the list, so its size fits a header
    have hkeys : ∀ p ∈ pairs, p.k.length < 2 ^ 64 ∧ IsRaw p.v := by
      intro p hp
      have hmem : Rlp.encode (.bytes p.k) ∈ Rlp.encode (.bytes sig) :: encodeUint seq :: pairElems pairs :=
        List.mem_cons_of_mem _ (List.mem_cons_of_mem _ (List.mem_flatMap.mpr ⟨p, hp, by simp⟩))
      have h1 := (List.sublist_flatten_of_mem hmem).length_le
      have h2 := length_le_encode_bytes p.k
      have h3 : (List.flatten (Rlp.encode (.bytes sig) :: encodeUint seq :: pairElems pairs)).length ≤
          (encodeRaws (Rlp.encode (.bytes sig) :: encodeUint seq :: pairElems pairs)).length := by
        simp [encodeRaws]
      unfold sizeLimit at hsize
      exact ⟨by omega, hvals p hp⟩
    have hfuel : pairs.length ≤ (pairElems pairs).flatten.length := by
      have := two_mul_length_le hvals
      omega
    have hloop := readPairs_append pairs _ none [] hkeys (keysAbove_iff.mpr ⟨hs, fun _ h => by cases h⟩) hfuel
    rw [List.append_nil, readPairs_nil] at hloop
    have hpairs : readPairs (pairElems pairs).flatten.length none (pairElems pairs).flatten = .ok pairs := by
      rw [hloop]
      exact congrArg Except.ok (List.append_nil pairs)
    rw [decodeRecord_encodeRaws hseq hsize rest, hpairs]
    rfl

/-! ### What the decoder refuses -/

theorem lastKey_append_singleton (prev : Option (List UInt8)) (ps : List Pair) (q : Pair) :
    lastKey prev (ps ++ [q]) = some q.k := by
  rw [lastKey, List.foldl_append, List.foldl_cons, List.foldl_nil]

/-- After the last pair `q`, a key, a raw value and anything else, which the
check refuses: the loop fails as the check does. -/
theorem readPairs_after (q : Pair) {k v more : List UInt8} (hk : k.length < 2 ^ 64) (hv : IsRaw v)
    (fuel : ℕ) {e : Err} (hcheck : checkOrder (some q.k) k = .error e) :
    readPairs fuel (some q.k) (Rlp.encode (.bytes k) ++ v ++ more) = .error e :=
  readPairs_of_checkOrder_error (listBytes_eq_ok_iff.mpr ⟨hk, List.append_assoc _ _ _⟩)
    (listRaw_eq_ok_iff.mpr ⟨hv, rfl⟩) hcheck

section Refused

variable {sig : List UInt8} {seq : ℕ} {pairs : List Pair} (hseq : seq < 2 ^ 64)
  (hs : Sorted (· < ·) Pair.k pairs) (hvals : ∀ p ∈ pairs, IsRaw p.v)
include hseq hs hvals

/-- A record's list whose pairs are well formed up to `tail` fails as the loop
fails on `tail`. -/
theorem decodeRecord_of_readPairs_error {tail : List UInt8} {e : Err}
    (hsize : (encodeRaws (Rlp.encode (.bytes sig) :: encodeUint seq :: (pairElems pairs ++ [tail]))).length ≤
      sizeLimit)
    (htail : ∀ fuel, readPairs fuel (lastKey none pairs) tail = .error e) (rest : List UInt8) :
    decodeRecord (encodeRaws (Rlp.encode (.bytes sig) :: encodeUint seq :: (pairElems pairs ++ [tail])) ++
      rest) = .error e := by
  have hkeys : ∀ p ∈ pairs, p.k.length < 2 ^ 64 ∧ IsRaw p.v := by
    intro p hp
    have hmem : Rlp.encode (.bytes p.k) ∈
        Rlp.encode (.bytes sig) :: encodeUint seq :: (pairElems pairs ++ [tail]) :=
      List.mem_cons_of_mem _ (List.mem_cons_of_mem _
        (List.mem_append_left _ (List.mem_flatMap.mpr ⟨p, hp, by simp⟩)))
    have h1 := length_le_encodeRaws hmem
    have h2 := length_le_encode_bytes p.k
    unfold sizeLimit at hsize
    exact ⟨by omega, hvals p hp⟩
  have hfuel : pairs.length ≤ (pairElems pairs ++ [tail]).flatten.length := by
    have := two_mul_length_le hvals
    simp only [List.flatten_append, List.flatten_cons, List.flatten_nil, List.append_nil,
      List.length_append]
    omega
  have hloop := readPairs_append pairs (pairElems pairs ++ [tail]).flatten.length none tail hkeys
    (keysAbove_iff.mpr ⟨hs, fun _ h => by cases h⟩) hfuel
  rw [decodeRecord_encodeRaws hseq hsize rest]
  simp only [List.flatten_append, List.flatten_cons, List.flatten_nil, List.append_nil] at hloop ⊢
  rw [hloop, htail]
  rfl

/-- **A dangling key** is refused with `errIncompletePair`. -/
theorem decodeRecord_incompletePair (k : List UInt8)
    (hsize : (encodeRaws (Rlp.encode (.bytes sig) :: encodeUint seq ::
      (pairElems pairs ++ [Rlp.encode (.bytes k)]))).length ≤ sizeLimit) (rest : List UInt8) :
    decodeRecord (encodeRaws (Rlp.encode (.bytes sig) :: encodeUint seq ::
      (pairElems pairs ++ [Rlp.encode (.bytes k)])) ++ rest) = .error .incompletePair := by
  have hk : k.length < 2 ^ 64 := by
    have h1 : (Rlp.encode (.bytes k)).length ≤ (encodeRaws (Rlp.encode (.bytes sig) :: encodeUint seq ::
        (pairElems pairs ++ [Rlp.encode (.bytes k)]))).length := length_le_encodeRaws (by simp)
    have h2 := length_le_encode_bytes k
    unfold sizeLimit at hsize
    omega
  refine decodeRecord_of_readPairs_error hseq hs hvals hsize (fun fuel => ?_) rest
  have hread : listBytes (Rlp.encode (.bytes k)) = .ok (k, []) := by
    rw [← List.append_nil (Rlp.encode (.bytes k))]
    exact listBytes_eq_ok_iff.mpr ⟨hk, rfl⟩
  exact readPairs_of_dangling hread

end Refused

/-- The key of an offending pair after the last well-formed one fits a header,
for a list within `SizeLimit`. -/
theorem length_lt_of_encodeRaws {sig : List UInt8} {seq : ℕ} {pairs : List Pair} {k v more : List UInt8}
    (hsize : (encodeRaws (Rlp.encode (.bytes sig) :: encodeUint seq ::
      (pairElems pairs ++ [Rlp.encode (.bytes k) ++ v ++ more]))).length ≤ sizeLimit) :
    k.length < 2 ^ 64 := by
  have h1 : (Rlp.encode (.bytes k) ++ v ++ more).length ≤ (encodeRaws (Rlp.encode (.bytes sig) ::
      encodeUint seq :: (pairElems pairs ++ [Rlp.encode (.bytes k) ++ v ++ more]))).length :=
    length_le_encodeRaws (by simp)
  have h2 := length_le_encode_bytes k
  simp only [List.length_append] at h1
  unfold sizeLimit at hsize
  omega

section Order

variable {sig : List UInt8} {seq : ℕ} {ps : List Pair} {q : Pair} (hseq : seq < 2 ^ 64)
  (hs : Sorted (· < ·) Pair.k (ps ++ [q])) (hvals : ∀ p ∈ ps ++ [q], IsRaw p.v)
include hseq hs hvals

/-- **A key equal to the one before** is refused with `errDuplicateKey`. -/
theorem decodeRecord_duplicateKey {v more : List UInt8} (hv : IsRaw v)
    (hsize : (encodeRaws (Rlp.encode (.bytes sig) :: encodeUint seq ::
      (pairElems (ps ++ [q]) ++ [Rlp.encode (.bytes q.k) ++ v ++ more]))).length ≤ sizeLimit)
    (rest : List UInt8) :
    decodeRecord (encodeRaws (Rlp.encode (.bytes sig) :: encodeUint seq ::
      (pairElems (ps ++ [q]) ++ [Rlp.encode (.bytes q.k) ++ v ++ more])) ++ rest) =
      .error .duplicateKey := by
  refine decodeRecord_of_readPairs_error hseq hs hvals hsize (fun fuel => ?_) rest
  have hcheck : checkOrder (some q.k) q.k = .error .duplicateKey := if_pos rfl
  rw [lastKey_append_singleton]
  exact readPairs_after q (length_lt_of_encodeRaws hsize) hv fuel hcheck

/-- **A key below the one before** is refused with `errNotSorted`. -/
theorem decodeRecord_notSorted {k v more : List UInt8} (hk : k < q.k) (hv : IsRaw v)
    (hsize : (encodeRaws (Rlp.encode (.bytes sig) :: encodeUint seq ::
      (pairElems (ps ++ [q]) ++ [Rlp.encode (.bytes k) ++ v ++ more]))).length ≤ sizeLimit)
    (rest : List UInt8) :
    decodeRecord (encodeRaws (Rlp.encode (.bytes sig) :: encodeUint seq ::
      (pairElems (ps ++ [q]) ++ [Rlp.encode (.bytes k) ++ v ++ more])) ++ rest) =
      .error .notSorted := by
  refine decodeRecord_of_readPairs_error hseq hs hvals hsize (fun fuel => ?_) rest
  have hne : k ≠ q.k := fun h => List.lt_irrefl _ (h ▸ hk)
  have hcheck : checkOrder (some q.k) k = .error .notSorted := by
    rw [checkOrder, if_neg hne, if_pos hk]
  rw [lastKey_append_singleton]
  exact readPairs_after q (length_lt_of_encodeRaws hsize) hv fuel hcheck

end Order

/-! ### Signed records -/

/-- The list `encode` writes is the signature, the sequence number, the pairs. -/
theorem appendElements_sig (r : Record) (sig : List UInt8) :
    r.appendElements [Rlp.encode (.bytes sig)] =
      Rlp.encode (.bytes sig) :: encodeUint r.seq.toNat :: pairElems r.pairs := rfl

/-- A record `DecodeRLP` gives satisfies the invariant. -/
theorem Valid.of_decodeRLP {input rest : List UInt8} {r : Record} (h : decodeRLP input = .ok (r, rest)) :
    Valid r := by
  rw [decodeRLP, Except.bind_eq_ok] at h
  obtain ⟨⟨dec, raw, rest'⟩, hdec, h⟩ := h
  cases Except.ok.inj h
  obtain ⟨sig, seq, pairs, -, hs, hvals, -, -, -, rfl⟩ := decodeRecord_eq_ok_iff.mp hdec
  exact ⟨hs, fun p hp => Or.inl (hvals p hp)⟩

/-- **Run lemma**: every record the package makes satisfies the invariant. -/
theorem Reachable.valid {r : Record} (h : Reachable r) : Valid r := by
  induction h with
  | empty => exact Valid.empty
  | set key item _ ih => exact ih.set key item
  | setSeq s _ ih => exact ih.setSeq s
  | setSig s sig _ hsig ih => exact ih.setSig hsig
  | decodeRLP hdec => exact Valid.of_decodeRLP hdec

/-- **A signed record decodes back from its raw bytes**, with the same sequence
number, signature, pairs and bytes. -/
theorem decodeRLP_raw_setSig {r r' : Record} (hr : Valid r) {s : IdentityScheme} {sig : List UInt8}
    (h : r.setSig (some s) (some sig) = .ok (.ok r')) : decodeRLP r'.raw = .ok (r', []) := by
  -- `SetSig` keeps the record, with the signature and the bytes `encode` made
  obtain ⟨raw, henc, rfl⟩ : ∃ raw, r.encode sig = .ok raw ∧
      r' = { r with signature := some sig, raw := raw } := by
    obtain ⟨-, -, h⟩ := Except.bind_eq_ok.mp (Except.ok.inj h)
    obtain ⟨raw, henc, h⟩ := Except.bind_eq_ok.mp h
    exact ⟨raw, henc, (Except.ok.inj h).symm⟩
  unfold Record.encode at henc
  rw [appendElements_sig] at henc
  dsimp only at henc
  split_ifs at henc with hbig
  cases henc
  -- the values are written within the list, so each is a raw value
  have hvals : ∀ p ∈ r.pairs, IsRaw p.v := by
    intro p hp
    rcases hr.values p hp with hraw | ⟨item, hitem⟩
    · exact hraw
    · have hlen : p.v.length ≤ (encodeRaws (Rlp.encode (.bytes sig) :: encodeUint r.seq.toNat ::
          pairElems r.pairs)).length :=
        length_le_encodeRaws (List.mem_cons_of_mem _ (List.mem_cons_of_mem _
          (List.mem_flatMap.mpr ⟨p, hp, by simp⟩)))
      rw [hitem] at hlen ⊢
      unfold sizeLimit at hbig
      exact isRaw_encode item (by omega)
  have hdec : decodeRecord (_ ++ []) = .ok (⟨r.seq.toNat.toUInt64, some sig, [], r.pairs⟩, _, []) :=
    decodeRecord_eq_ok_iff.mpr ⟨sig, r.seq.toNat, r.pairs, r.seq.toNat_lt, hr.sorted, hvals,
      rfl, by omega, rfl, rfl⟩
  rw [List.append_nil] at hdec
  rw [decodeRLP, hdec, Except.ok_bind]
  simp only [Nat.toUInt64_eq, UInt64.ofNat_toNat]
  rfl

/-- `EncodeRLP` fails exactly on an unsigned record. -/
theorem encodeRLP_eq_error_iff (r : Record) : (∃ e, r.encodeRLP = .error e) ↔ r.signature = none := by
  obtain ⟨seq, signature, raw, pairs⟩ := r
  cases signature with
  | none => exact iff_of_true ⟨.encodeUnsigned, rfl⟩ rfl
  | some sig => exact iff_of_false (fun ⟨e, he⟩ => by cases he) (by simp)

/-! ### The record discipline -/

end RpcNetwork.P2p.Enr
