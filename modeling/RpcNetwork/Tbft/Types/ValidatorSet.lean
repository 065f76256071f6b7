import RpcNetwork.Tbft.Types.Vote

/-!
# Validators and validator sets (`types/validator.go`, `types/validator_set.go`)

A `ValidatorSet` is the committee of one height: validators sorted by address,
each with a voting power and an `Accum`, the proposer-priority credit that
`IncrementAccum` rotates every round.

## Design notes

`int64` values are integers; the `*Clip` helpers clamp to
`[minInt64, maxInt64]` exactly as the source does, and `wrapInt64` is Go's
two's-complement product, which `safeMul` inspects to detect overflow.

`help.Heap` is `container/heap` ordered by `CompareAccum`: `Peek` returns the
validator it prefers to all others, whose position in the address-sorted list
`peekIndex` returns.  With distinct addresses the minimum is unique; equal
addresses make `CompareAccum` panic, which is not represented.

`TotalVotingPower()` caches its sum, reset by `Add`, `Update` and `Remove`; the
model computes the clipped sum, and `ValidatorSetMap` proves the cache equal.

`sort.Search` on the sorted list is `List.findIdx`.  `Proposer`, a pointer in
the source, is read only for its address and key, so the model stores the value.
-/

namespace RpcNetwork.Tbft.Types

/-! ### Saturating `int64` arithmetic -/

/-- `math.MaxInt64`. -/
def maxInt64 : ℤ := 2 ^ 63 - 1

/-- `math.MinInt64`. -/
def minInt64 : ℤ := -2 ^ 63

/-- The two's-complement `int64` result of an exact integer, as Go's `*` wraps. -/
def wrapInt64 (x : ℤ) : ℤ := (x + 2 ^ 63) % 2 ^ 64 - 2 ^ 63

/-- `safeMul(a, b)`: the product and whether it overflowed. -/
def safeMul (a b : ℤ) : ℤ × Bool :=
  if a = 0 ∨ b = 0 then (0, false)
  else if a = 1 then (b, false)
  else if b = 1 then (a, false)
  else if a = minInt64 ∨ b = minInt64 then (-1, true)
  else
    let c := wrapInt64 (a * b)
    (c, c.tdiv b ≠ a)

/-- `safeAdd(a, b)`: the sum and whether it overflowed. -/
def safeAdd (a b : ℤ) : ℤ × Bool :=
  if 0 < b ∧ maxInt64 - b < a then (-1, true)
  else if b < 0 ∧ a < minInt64 - b then (-1, true)
  else (a + b, false)

/-- `safeSub(a, b)`: the difference and whether it overflowed. -/
def safeSub (a b : ℤ) : ℤ × Bool :=
  if 0 < b ∧ a < minInt64 + b then (-1, true)
  else if b < 0 ∧ maxInt64 + b < a then (-1, true)
  else (a - b, false)

/-- `safeMulClip`: on overflow, `MinInt64` when exactly one factor is negative,
else `MaxInt64`. -/
def safeMulClip (a b : ℤ) : ℤ :=
  let (c, overflow) := safeMul a b
  if overflow then
    if (a < 0 ∨ b < 0) ∧ ¬ (a < 0 ∧ b < 0) then minInt64 else maxInt64
  else c

/-- `safeAddClip`: on overflow, `MinInt64` for a negative addend, else `MaxInt64`. -/
def safeAddClip (a b : ℤ) : ℤ :=
  let (c, overflow) := safeAdd a b
  if overflow then (if b < 0 then minInt64 else maxInt64) else c

/-- `safeSubClip`: on overflow, `MinInt64` for a positive subtrahend, else
`MaxInt64`. -/
def safeSubClip (a b : ℤ) : ℤ :=
  let (c, overflow) := safeSub a b
  if overflow then (if 0 < b then minInt64 else maxInt64) else c

/-- Multiplying by one never clips: `safeMul` returns its first factor. -/
@[simp] theorem safeMulClip_one (a : ℤ) : safeMulClip a 1 = a := by
  unfold safeMulClip safeMul
  by_cases h0 : a = 0
  · simp [h0]
  · by_cases h1 : a = 1 <;> simp [h0, h1]

/-- An in-range sum is exact. -/
theorem safeAddClip_of_mem {a b : ℤ} (hlo : minInt64 ≤ a + b) (hhi : a + b ≤ maxInt64) :
    safeAddClip a b = a + b := by
  unfold safeAddClip safeAdd
  have h1 : ¬ (0 < b ∧ maxInt64 - b < a) := fun h => by omega
  have h2 : ¬ (b < 0 ∧ a < minInt64 - b) := fun h => by omega
  simp only [h1, h2, if_false]
  rfl

/-- An in-range difference is exact. -/
theorem safeSubClip_of_mem {a b : ℤ} (hlo : minInt64 ≤ a - b) (hhi : a - b ≤ maxInt64) :
    safeSubClip a b = a - b := by
  unfold safeSubClip safeSub
  have h1 : ¬ (0 < b ∧ a < minInt64 + b) := fun h => by omega
  have h2 : ¬ (b < 0 ∧ maxInt64 + b < a) := fun h => by omega
  simp only [h1, h2, if_false]
  rfl

/-! ### Validators -/

/-- `bytes.Compare`: lexicographic order on byte strings, a proper prefix first. -/
def bytesCompare : HexBytes → HexBytes → Ordering
  | [], [] => .eq
  | [], _ :: _ => .lt
  | _ :: _, [] => .gt
  | a :: as, b :: bs => if a < b then .lt else if b < a then .gt else bytesCompare as bs

/-- `Validator`: address, public key, voting power and proposer credit. -/
structure Validator where
  address : HexBytes
  pubKey : HexBytes
  votingPower : ℤ
  accum : ℤ
  deriving DecidableEq, Repr

/-- `NewValidator(pubKey, votingPower)`: the address is the key's, the accum zero. -/
def newValidator (ks : KeyScheme) (pubKey : HexBytes) (votingPower : ℤ) : Validator :=
  ⟨ks.address pubKey, pubKey, votingPower, 0⟩

/-- `CompareAccum`: the validator with the larger accum; on equal accums the one
with the smaller address. -/
def Validator.compareAccum (v other : Validator) : Validator :=
  if other.accum < v.accum then v
  else if v.accum < other.accum then other
  else if bytesCompare v.address other.address = .lt then v
  else other

/-- `accumComparable.Less`: `v` precedes `w` in the heap when `CompareAccum`
prefers it. -/
def Validator.accumLess (v w : Validator) : Prop :=
  w.accum < v.accum ∨ (v.accum = w.accum ∧ bytesCompare v.address w.address = .lt)

instance (v w : Validator) : Decidable (v.accumLess w) :=
  inferInstanceAs (Decidable (_ ∨ _))

/-- `Heap.Peek()` over the validators in list order: the position of the
validator no other one precedes.  The head is kept unless the best of the tail
strictly precedes it. -/
def peekIndex : List Validator → ℕ
  | [] => 0
  | v :: vs =>
      match vs[peekIndex vs]? with
      | some b => if b.accumLess v then peekIndex vs + 1 else 0
      | none => 0

theorem peekIndex_lt : ∀ {vals : List Validator}, vals ≠ [] → peekIndex vals < vals.length
  | [], h => absurd rfl h
  | v :: vs, _ => by
      simp only [peekIndex]
      split
      · rename_i b hb
        split
        · have := (List.getElem?_eq_some_iff.mp hb).1
          simp only [List.length_cons]
          omega
        · simp
      · simp

/-- **The heap's top has the largest accum.** -/
theorem accum_le_peekIndex : ∀ {vals : List Validator} {k : ℕ} (hk : k < vals.length),
    vals[k].accum ≤ (vals[peekIndex vals]?.map Validator.accum).getD 0
  | [], _, hk => absurd hk (Nat.not_lt_zero _)
  | v :: vs, k, hk => by
      simp only [peekIndex]
      split
      · rename_i b hb
        -- `b` is the best of the tail: it dominates every tail entry
        have hbmax : ∀ m (hm : m < vs.length), vs[m].accum ≤ b.accum := by
          intro m hm
          have := accum_le_peekIndex hm
          rw [hb] at this
          simpa using this
        split
        · rename_i hless
          have hv : v.accum ≤ b.accum := by
            rcases hless with h | ⟨h, _⟩ <;> omega
          rw [List.getElem?_cons_succ, hb]
          cases k with
          | zero => simpa using hv
          | succ m => simpa using hbmax m (by simpa using hk)
        · rename_i hnless
          have hv : b.accum ≤ v.accum := by
            by_contra h
            exact hnless (Or.inl (by omega))
          simp only [List.getElem?_cons_zero, Option.map_some, Option.getD_some]
          cases k with
          | zero => simp
          | succ m => exact (hbmax m (by simpa using hk)).trans hv
      · rename_i hnone
        have hvs : vs = [] := by
          cases vs with
          | nil => rfl
          | cons x xs =>
              have := @peekIndex_lt (x :: xs) (List.cons_ne_nil x xs)
              rw [List.getElem?_eq_none_iff] at hnone
              omega
        subst hvs
        obtain rfl : k = 0 := by simp at hk; omega
        simp

/-! ### Validator sets -/

/-- `ValidatorSet`: validators sorted by address and the current proposer. -/
structure ValidatorSet where
  validators : List Validator
  proposer : Option Validator
  deriving DecidableEq, Repr

namespace ValidatorSet

/-- `TotalVotingPower()`: the clipped sum of the voting powers. -/
def totalVotingPower (vs : ValidatorSet) : ℤ :=
  vs.validators.foldl (fun acc v => safeAddClip acc v.votingPower) 0

/-- A clipped running sum of nonnegative powers that never leaves `int64` is the
exact sum. -/
theorem foldl_safeAddClip_eq : ∀ (l : List Validator) (a : ℤ), 0 ≤ a →
    (∀ v ∈ l, 0 ≤ v.votingPower) → a + (l.map Validator.votingPower).sum ≤ maxInt64 →
    l.foldl (fun acc v => safeAddClip acc v.votingPower) a = a + (l.map Validator.votingPower).sum
  | [], a, _, _, _ => by simp
  | v :: l, a, ha, hnn, hfit => by
      have hv := hnn v List.mem_cons_self
      have hl : ∀ u ∈ l, 0 ≤ u.votingPower := fun u hu => hnn u (List.mem_cons_of_mem v hu)
      have hrest : 0 ≤ (l.map Validator.votingPower).sum :=
        List.sum_nonneg fun x hx => by
          obtain ⟨u, hu, rfl⟩ := List.mem_map.mp hx
          exact hl u hu
      simp only [List.map_cons, List.sum_cons] at hfit
      have hstep : safeAddClip a v.votingPower = a + v.votingPower :=
        safeAddClip_of_mem (by unfold minInt64; omega) (by omega)
      rw [List.foldl_cons, hstep, foldl_safeAddClip_eq l _ (by omega) hl (by omega)]
      simp only [List.map_cons, List.sum_cons]
      ring

/-- **`TotalVotingPower` is the sum of the powers** when they are nonnegative and
their sum fits in `int64`. -/
theorem totalVotingPower_eq_sum (vs : ValidatorSet) (hnn : ∀ v ∈ vs.validators, 0 ≤ v.votingPower)
    (hfit : (vs.validators.map Validator.votingPower).sum ≤ maxInt64) :
    vs.totalVotingPower = (vs.validators.map Validator.votingPower).sum := by
  unfold totalVotingPower
  rw [foldl_safeAddClip_eq _ 0 le_rfl hnn (by simpa using hfit), zero_add]

/-- `Size()`. -/
def size (vs : ValidatorSet) : ℕ := vs.validators.length

/-- `GetByIndex(index)`: the address and validator at `index`, nil out of range. -/
def getByIndex (vs : ValidatorSet) (index : ℕ) : Option (HexBytes × Validator) :=
  vs.validators[index]?.map fun v => (v.address, v)

/-- `GetByAddress(address)`: the index and validator with that address, found by
`sort.Search` for the first address not below it. -/
def getByAddress (vs : ValidatorSet) (address : HexBytes) : Option (ℕ × Validator) :=
  let idx := vs.validators.findIdx fun v => bytesCompare address v.address != .gt
  match vs.validators[idx]? with
  | some v => if v.address = address then some (idx, v) else none
  | none => none

/-- `HasAddress(address)`. -/
def hasAddress (vs : ValidatorSet) (address : HexBytes) : Bool :=
  (vs.getByAddress address).isSome

/-- `findProposer()`: the validator `CompareAccum` prefers over all others. -/
def findProposer (vs : ValidatorSet) : Option Validator :=
  vs.validators.foldl (fun (p : Option Validator) v =>
    match p with
    | none => some v
    | some q => if v.address = q.address then some q else some (q.compareAccum v)) none

/-- `GetProposer()`: nil for an empty set, else the cached proposer, computed by
`findProposer` when the cache is nil. -/
def getProposer (vs : ValidatorSet) : Option Validator :=
  if vs.validators = [] then none
  else match vs.proposer with
    | some p => some p
    | none => vs.findProposer

/-- `Copy()`: validators are values, so a copy is the set itself. -/
def copy (vs : ValidatorSet) : ValidatorSet := vs

/-- The decrement loop of `IncrementAccum`: `times` times, charge `power` to the
validator at the top of the heap; the last one charged becomes the proposer. -/
def decrementAccums (power : ℤ) : ℕ → List Validator → Option Validator →
    List Validator × Option Validator
  | 0, vals, proposer => (vals, proposer)
  | k + 1, vals, proposer =>
      let j := peekIndex vals
      match vals[j]? with
      | none => (vals, proposer)
      | some mostest =>
          let mostest' := { mostest with accum := safeSubClip mostest.accum power }
          let vals' := vals.set j mostest'
          if k = 0 then (vals', some mostest') else decrementAccums power k vals' proposer

/-- `IncrementAccum(times)`: every accum gains `times` times its voting power,
then the heap maximum is charged the total power `times` times. -/
def incrementAccum (vs : ValidatorSet) (times : ℕ) : ValidatorSet :=
  let vals := vs.validators.map fun v =>
    { v with accum := safeAddClip v.accum (safeMulClip v.votingPower times) }
  let (vals', proposer') := decrementAccums vs.totalVotingPower times vals vs.proposer
  ⟨vals', proposer'⟩

/-- `NewValidatorSet(vals)`: copy, sort by address, and make one increment when
the set is not empty. -/
def newValidatorSet (vals : List Validator) : ValidatorSet :=
  let sorted := vals.insertionSort fun a b => bytesCompare a.address b.address != .gt
  let vs : ValidatorSet := ⟨sorted, none⟩
  if vals = [] then vs else vs.incrementAccum 1

/-- `FindValidatorSetProposer(address)`: the first validator whose public key
has that address becomes the proposer; without one the set is unchanged. -/
def findValidatorSetProposer (ks : KeyScheme) (vs : ValidatorSet) (address : HexBytes) :
    ValidatorSet :=
  match vs.validators.find? fun v => ks.address v.pubKey == address with
  | some v => { vs with proposer := some v }
  | none => vs

end ValidatorSet

end RpcNetwork.Tbft.Types
