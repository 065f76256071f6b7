import RpcNetwork.Tbft.Types.ValidatorSet
import RpcNetwork.Lib.SortedMap

/-!
# Validator sets as maps keyed by address (`types/validator_set.go`)

`Validators` is sorted by address and searched by binary search, a map from
addresses.  `TotalVotingPower()` caches its sum in `totalVotingPower`, zero
meaning stale.

## Design notes

`IncrementAccum(0)` never reads the heap and leaves the proposer as it was:
nil after `Add`, `Update` or `Remove`.  On an empty set `IncrementAccum` with
`times > 0` panics at `Peek().(*Validator)`; the model returns
`IncrementAccumPanic.emptyHeap`.  `GetByAddress` and `HasAddress` do not
change the set; `GetProposer` fills a nil proposer.
-/

namespace RpcNetwork.Tbft.Types

open SortedMap

/-! ### `bytes.Compare` is a strict total order -/

theorem bytesCompare_eq_iff : ∀ {a b : HexBytes}, bytesCompare a b = .eq ↔ a = b
  | [], [] => by simp [bytesCompare]
  | [], _ :: _ => by simp [bytesCompare]
  | _ :: _, [] => by simp [bytesCompare]
  | x :: a, y :: b => by
      simp only [bytesCompare, List.cons.injEq, UInt8.lt_iff_toNat_lt, ← UInt8.toNat_inj]
      split_ifs with hxy hyx
      · simp only [false_iff, not_and]
        omega
      · simp only [false_iff, not_and]
        omega
      · simp only [show x.toNat = y.toNat by omega, true_and]
        exact bytesCompare_eq_iff

theorem bytesCompare_swap : ∀ (a b : HexBytes), bytesCompare b a = (bytesCompare a b).swap
  | [], [] => rfl
  | [], _ :: _ => rfl
  | _ :: _, [] => rfl
  | x :: a, y :: b => by
      simp only [bytesCompare, UInt8.lt_iff_toNat_lt]
      split_ifs <;> first | rfl | omega | exact bytesCompare_swap a b

theorem bytesCompare_lt_trans : ∀ {a b c : HexBytes}, bytesCompare a b = .lt →
    bytesCompare b c = .lt → bytesCompare a c = .lt
  | [], _ :: _, _ :: _, _, _ => rfl
  | [], [], _, h, _ => by simp [bytesCompare] at h
  | _, _ :: _, [], _, h => by simp [bytesCompare] at h
  | _ :: _, [], _, h, _ => by simp [bytesCompare] at h
  | x :: a, y :: b, z :: c, hab, hbc => by
      simp only [bytesCompare, UInt8.lt_iff_toNat_lt] at hab hbc ⊢
      split_ifs at hab hbc ⊢ <;> first | rfl | omega | cases hab | cases hbc |
        exact bytesCompare_lt_trans hab hbc

/-- `a` is above `b` exactly when `b` is below `a`. -/
theorem bytesCompare_eq_gt_iff {a b : HexBytes} :
    bytesCompare a b = .gt ↔ bytesCompare b a = .lt := by
  rw [bytesCompare_swap a b]
  cases bytesCompare a b <;> simp [Ordering.swap]

/-- `bytes.Compare(a, b) < 0`: the order `ValidatorsByAddress.Less` sorts by. -/
def bytesLt (a b : HexBytes) : Prop :=
  bytesCompare a b = .lt

instance : DecidableRel bytesLt :=
  fun a b => inferInstanceAs (Decidable (bytesCompare a b = .lt))

instance : IsStrictTotalOrder HexBytes bytesLt where
  trichotomous a b hab hba := by
    -- neither below the other: the comparison is neither `lt` nor `gt`
    have hgt : bytesCompare a b ≠ .gt := fun h => hba (bytesCompare_eq_gt_iff.mp h)
    apply bytesCompare_eq_iff.mp
    cases h : bytesCompare a b
    · exact absurd h hab
    · rfl
    · exact absurd h hgt
  irrefl a h := by
    have := bytesCompare_eq_iff.mpr (rfl : a = a)
    simp only [bytesLt, this] at h
    cases h
  trans _ _ _ := bytesCompare_lt_trans

/-! ### Search by address -/

/-- `sort.Search(len(Validators), func(i int) bool { return
bytes.Compare(address, Validators[i].Address) <= 0 })`. -/
def searchAddress (vals : List Validator) (address : HexBytes) : ℕ :=
  vals.findIdx fun v => bytesCompare address v.address != .gt

/-- The search of the source is the library's search under `bytesLt`. -/
theorem searchAddress_eq_search (vals : List Validator) (address : HexBytes) :
    searchAddress vals address = search bytesLt Validator.address vals address := by
  unfold searchAddress search
  congr 1
  funext v
  by_cases h : bytesCompare address v.address = .gt
  · have hlt : bytesLt v.address address := bytesCompare_eq_gt_iff.mp h
    simp [h, hlt]
  · have hlt : ¬ bytesLt v.address address := fun hlt => h (bytesCompare_eq_gt_iff.mpr hlt)
    simp [h, hlt]

/-- **`GetByAddress` on a sorted set** returns a validator of the set with the
address, at its index, and returns one exactly when some validator has the
address. -/
theorem ValidatorSet.getByAddress_spec {vs : ValidatorSet}
    (hs : Sorted bytesLt Validator.address vs.validators) (address : HexBytes) :
    (∀ i v, vs.getByAddress address = some (i, v) →
        vs.validators[i]? = some v ∧ v.address = address) ∧
      ((vs.getByAddress address).isSome ↔ ∃ v ∈ vs.validators, v.address = address) := by
  rw [← exists_search_iff hs, ← searchAddress_eq_search]
  -- the index `GetByAddress` searches is `searchAddress`
  have hidx : (vs.validators.findIdx fun v => bytesCompare address v.address != .gt) =
      searchAddress vs.validators address := rfl
  unfold ValidatorSet.getByAddress
  simp only [hidx]
  constructor
  · intro i v h
    split at h
    · rename_i w hw
      split at h
      · cases h
        exact ⟨hw, by assumption⟩
      · cases h
    · cases h
  · split
    · rename_i w hw
      by_cases ha : w.address = address <;> simp [ha, hw]
    · rename_i hw
      simp [hw]

/-- `TotalVotingPower()` reads the powers only. -/
theorem ValidatorSet.totalVotingPower_eq_of_map {vs vs' : ValidatorSet}
    (h : vs.validators.map Validator.votingPower = vs'.validators.map Validator.votingPower) :
    vs.totalVotingPower = vs'.totalVotingPower := by
  unfold totalVotingPower
  rw [← List.foldl_map (f := Validator.votingPower), h, List.foldl_map]

/-- The decrement loop changes accums only: what does not read an accum stays. -/
theorem ValidatorSet.map_decrementAccums {β : Type*} (f : Validator → β)
    (hf : ∀ v a, f { v with accum := a } = f v) (power : ℤ) :
    ∀ (k : ℕ) (vals : List Validator) (proposer : Option Validator),
      (decrementAccums power k vals proposer).1.map f = vals.map f
  | 0, _, _ => rfl
  | k + 1, vals, proposer => by
      simp only [decrementAccums]
      split
      · rfl
      · rename_i mostest hm
        obtain ⟨hj, rfl⟩ := List.getElem?_eq_some_iff.mp hm
        -- the charged validator keeps everything `f` reads
        have hset : (vals.set (peekIndex vals)
            { vals[peekIndex vals] with
              accum := safeSubClip vals[peekIndex vals].accum power }).map f = vals.map f := by
          rw [List.map_set, hf, ← List.getElem_map (f := f), List.set_getElem_self]
          simpa using hj
        split
        · exact hset
        · rw [map_decrementAccums f hf power k, hset]

/-- **The decrement loop names a proposer of the list**: after `times > 0`
charges on a nonempty list, the proposer is the last validator charged. -/
theorem ValidatorSet.proposer_mem_decrementAccums (power : ℤ) :
    ∀ (k : ℕ) (vals : List Validator) (proposer : Option Validator), k ≠ 0 → vals ≠ [] →
      ∃ p, (decrementAccums power k vals proposer).2 = some p ∧
        p ∈ (decrementAccums power k vals proposer).1
  | 0, _, _, hk, _ => absurd rfl hk
  | k + 1, vals, proposer, _, hne => by
      have hj := peekIndex_lt hne
      simp only [decrementAccums, List.getElem?_eq_getElem hj]
      split
      · exact ⟨_, rfl, List.mem_of_getElem (List.getElem_set_self (by simpa using hj))⟩
      · rename_i hk
        refine proposer_mem_decrementAccums power k _ proposer hk ?_
        rw [← List.length_pos_iff, List.length_set]
        exact List.length_pos_iff.mpr hne

/-- The first loop of `IncrementAccum`: every accum gains `times` times its
voting power. -/
def creditAccums (times : ℕ) (vals : List Validator) : List Validator :=
  vals.map fun v => { v with accum := safeAddClip v.accum (safeMulClip v.votingPower times) }

/-- The first loop changes accums only. -/
theorem map_creditAccums {β : Type*} (f : Validator → β)
    (hf : ∀ v a, f { v with accum := a } = f v) (times : ℕ) (vals : List Validator) :
    (creditAccums times vals).map f = vals.map f := by
  unfold creditAccums
  rw [List.map_map]
  congr 1
  funext v
  exact hf v _

/-- No rounds, no credit: `IncrementAccum(0)` leaves every accum as it is. -/
theorem creditAccums_zero (vals : List Validator) : creditAccums 0 vals = vals := by
  have hv : ∀ v : Validator,
      { v with accum := safeAddClip v.accum (safeMulClip v.votingPower (0 : ℕ)) } = v := by
    intro v
    simp [safeMulClip, safeMul, safeAddClip, safeAdd]
  unfold creditAccums
  simp only [hv, List.map_id']

/-- `ValidatorSet.incrementAccum` is the decrement loop after the first loop. -/
theorem ValidatorSet.incrementAccum_eq (vs : ValidatorSet) (times : ℕ) :
    vs.incrementAccum times =
      ⟨(decrementAccums vs.totalVotingPower times (creditAccums times vs.validators)
          vs.proposer).1,
        (decrementAccums vs.totalVotingPower times (creditAccums times vs.validators)
          vs.proposer).2⟩ := rfl

/-! ### The set with its power cache -/

/-- `ValidatorSet` with its unexported cache `totalVotingPower`, zero when
stale. -/
structure CachedValidatorSet where
  validators : List Validator
  proposer : Option Validator
  totalVotingPowerCache : ℤ
  deriving DecidableEq, Repr

/-- `IncrementAccum` on an empty set: `Peek()` returns nil and the assertion
`.(*Validator)` panics. -/
inductive IncrementAccumPanic where
  | emptyHeap
  deriving DecidableEq, Repr

namespace CachedValidatorSet

/-- The exported fields. -/
def toValidatorSet (s : CachedValidatorSet) : ValidatorSet :=
  ⟨s.validators, s.proposer⟩

/-- `TotalVotingPower()`: the cache, refilled with the clipped sum of the powers
when it is zero. -/
def totalVotingPower (s : CachedValidatorSet) : ℤ × CachedValidatorSet :=
  if s.totalVotingPowerCache = 0 then
    let t := s.validators.foldl (fun acc v => safeAddClip acc v.votingPower)
      s.totalVotingPowerCache
    (t, { s with totalVotingPowerCache := t })
  else (s.totalVotingPowerCache, s)

/-- `Add(val)`: inserted at the index `sort.Search` finds, or rejected when the
validator there has its address; a change clears the proposer and the cache. -/
def add (s : CachedValidatorSet) : Option Validator → Bool × CachedValidatorSet
  | none => (false, s)
  | some val =>
      let idx := searchAddress s.validators val.address
      match s.validators[idx]? with
      | none => (true, ⟨s.validators ++ [val], none, 0⟩)
      | some v =>
          if v.address = val.address then (false, s)
          else (true, ⟨s.validators.take idx ++ val :: s.validators.drop idx, none, 0⟩)

/-- `Update(val)`: the validator with `val`'s address replaced by `val`. -/
def update (s : CachedValidatorSet) (val : Validator) : Bool × CachedValidatorSet :=
  match s.toValidatorSet.getByAddress val.address with
  | none => (false, s)
  | some (index, _) => (true, ⟨s.validators.set index val, none, 0⟩)

/-- `Remove(address)`: the removed validator, nil when no validator has the
address.  The source appends `Validators[idx+1:]` only when it is not empty,
which changes nothing. -/
def remove (s : CachedValidatorSet) (address : HexBytes) :
    Option Validator × CachedValidatorSet :=
  let idx := searchAddress s.validators address
  match s.validators[idx]? with
  | some v =>
      if v.address = address then
        (some v, ⟨s.validators.take idx ++ s.validators.drop (idx + 1), none, 0⟩)
      else (none, s)
  | none => (none, s)

/-- `IncrementAccum(times)`.  On an empty set the first `Peek` panics. -/
def incrementAccum (s : CachedValidatorSet) (times : ℕ) :
    Except IncrementAccumPanic CachedValidatorSet :=
  let vals := creditAccums times s.validators
  if times = 0 then pure { s with validators := vals }
  else if vals = [] then throw .emptyHeap
  else
    -- every round reads `TotalVotingPower()`; the loop changes accums only, so
    -- every read after the first returns what the first one did
    let (power, s') := { s with validators := vals }.totalVotingPower
    let (vals', proposer') := ValidatorSet.decrementAccums power times vals s.proposer
    pure ⟨vals', proposer', s'.totalVotingPowerCache⟩

/-- `GetProposer()`: nil on an empty set, else the proposer, found and stored
when it is nil. -/
def getProposer (s : CachedValidatorSet) : Option Validator × CachedValidatorSet :=
  if s.validators = [] then (none, s)
  else match s.proposer with
    | some p => (some p, s)
    | none =>
        let p := s.toValidatorSet.findProposer
        (p, { s with proposer := p })

/-- `NewValidatorSet(vals)`: sorted by address, with one increment when not
empty. -/
def newValidatorSet (vals : List Validator) : Except IncrementAccumPanic CachedValidatorSet :=
  let vs : CachedValidatorSet :=
    ⟨vals.insertionSort fun a b => bytesCompare a.address b.address != .gt, none, 0⟩
  if vals = [] then pure vs else vs.incrementAccum 1

/-- The calls that change a set. -/
inductive Op where
  | add (val : Option Validator)
  | update (val : Validator)
  | remove (address : HexBytes)
  | incrementAccum (times : ℕ)
  | totalVotingPower
  | getProposer

/-- One call, its result dropped. -/
def apply (s : CachedValidatorSet) : Op → Except IncrementAccumPanic CachedValidatorSet
  | .add val => pure (s.add val).2
  | .update val => pure (s.update val).2
  | .remove address => pure (s.remove address).2
  | .incrementAccum times => s.incrementAccum times
  | .totalVotingPower => pure s.totalVotingPower.2
  | .getProposer => pure s.getProposer.2

/-- The sets `NewValidatorSet` builds over distinct addresses, followed by any
calls that do not panic. -/
inductive Reachable : CachedValidatorSet → Prop
  | newValidatorSet {vals : List Validator} {s : CachedValidatorSet} :
      (vals.map Validator.address).Nodup → CachedValidatorSet.newValidatorSet vals = .ok s →
        Reachable s
  | apply {s s' : CachedValidatorSet} (op : Op) : Reachable s → s.apply op = .ok s' → Reachable s'

/-- What every reachable set keeps: addresses strictly increasing, and a cache
that is stale or right. -/
structure Inv (s : CachedValidatorSet) : Prop where
  sorted : Sorted bytesLt Validator.address s.validators
  cache : s.totalVotingPowerCache = 0 ∨
    s.totalVotingPowerCache = s.toValidatorSet.totalVotingPower

/-! ### One lemma per call -/

/-- The getter stores what it returns. -/
theorem totalVotingPower_snd (s : CachedValidatorSet) :
    s.totalVotingPower.2 = { s with totalVotingPowerCache := s.totalVotingPower.1 } := by
  unfold totalVotingPower
  split <;> rfl

/-- With a stale or right cache the getter returns the clipped sum of the
powers. -/
theorem totalVotingPower_fst_of_cache {s : CachedValidatorSet}
    (hc : s.totalVotingPowerCache = 0 ∨
      s.totalVotingPowerCache = s.toValidatorSet.totalVotingPower) :
    s.totalVotingPower.1 = s.toValidatorSet.totalVotingPower := by
  unfold totalVotingPower
  split
  · rename_i h0
    show s.validators.foldl _ s.totalVotingPowerCache = _
    rw [h0]
    rfl
  · rename_i h0
    exact hc.resolve_left h0

/-- What `IncrementAccum` does when it does not panic: with `times = 0` only the
first loop; else, on a nonempty set, the decrement loop with the getter's power,
which the cache then holds. -/
theorem incrementAccum_eq_ok {s s' : CachedValidatorSet} {times : ℕ}
    (h : s.incrementAccum times = .ok s') :
    (times = 0 ∧ s' = { s with validators := creditAccums times s.validators }) ∨
      (0 < times ∧ s.validators ≠ [] ∧
        s' = ⟨(ValidatorSet.decrementAccums
                ({ s with validators := creditAccums times s.validators }).totalVotingPower.1
                times (creditAccums times s.validators) s.proposer).1,
              (ValidatorSet.decrementAccums
                ({ s with validators := creditAccums times s.validators }).totalVotingPower.1
                times (creditAccums times s.validators) s.proposer).2,
              ({ s with validators := creditAccums times s.validators }).totalVotingPower.1⟩) := by
  unfold incrementAccum at h
  by_cases h0 : times = 0
  · rw [if_pos h0] at h
    cases h
    exact .inl ⟨h0, rfl⟩
  · rw [if_neg h0] at h
    by_cases hne : creditAccums times s.validators = []
    · rw [if_pos hne] at h
      cases h
    · rw [if_neg hne] at h
      refine .inr ⟨Nat.pos_of_ne_zero h0, fun hs => hne (by simp [creditAccums, hs]), ?_⟩
      simp only [pure, Except.pure, Except.ok.injEq] at h
      rw [← h, totalVotingPower_snd]

/-- `IncrementAccum` panics exactly on an empty set with `times > 0`. -/
theorem incrementAccum_eq_error {s : CachedValidatorSet} {times : ℕ} {e : IncrementAccumPanic} :
    s.incrementAccum times = .error e ↔ 0 < times ∧ s.validators = [] := by
  rw [Nat.pos_iff_ne_zero]
  unfold incrementAccum
  by_cases h0 : times = 0
  · simp [h0, pure, Except.pure]
  · by_cases hne : s.validators = []
    · cases e
      simp [h0, hne, creditAccums, throw, throwThe, MonadExceptOf.throw]
    · have hc : creditAccums times s.validators ≠ [] := by simpa [creditAccums] using hne
      simp [h0, hne, hc, pure, Except.pure]

/-- The getter keeps the invariant: it fills a stale cache with the sum. -/
theorem Inv.totalVotingPower {s : CachedValidatorSet} (hi : Inv s) : Inv s.totalVotingPower.2 := by
  rw [CachedValidatorSet.totalVotingPower_snd]
  exact ⟨hi.sorted, Or.inr (totalVotingPower_fst_of_cache hi.cache)⟩

/-- **The power cache never lies**: the getter returns the clipped sum of the
current powers. -/
theorem Inv.totalVotingPower_fst {s : CachedValidatorSet} (hi : Inv s) :
    s.totalVotingPower.1 = s.toValidatorSet.totalVotingPower :=
  totalVotingPower_fst_of_cache hi.cache

theorem Inv.add {s : CachedValidatorSet} (hi : Inv s) (val : Option Validator) :
    Inv (s.add val).2 := by
  cases val with
  | none => exact hi
  | some val =>
    simp only [CachedValidatorSet.add]
    split
    · -- past every validator: appending is inserting at the end
      rename_i hnone
      have hlen : s.validators.length ≤ searchAddress s.validators val.address :=
        List.getElem?_eq_none_iff.mp hnone
      have hins := hi.sorted.insert (x := val) (by
        rw [← searchAddress_eq_search, hnone]
        intro y hy
        cases hy)
      rw [← searchAddress_eq_search, List.take_of_length_le hlen,
        List.drop_of_length_le hlen] at hins
      exact ⟨hins, Or.inl rfl⟩
    · rename_i v hv
      split
      · exact hi
      · rename_i hne
        have hins := hi.sorted.insert (x := val) (by
          rw [← searchAddress_eq_search, hv]
          intro y hy
          cases hy
          exact hne)
        rw [← searchAddress_eq_search] at hins
        exact ⟨hins, Or.inl rfl⟩

theorem Inv.update {s : CachedValidatorSet} (hi : Inv s) (val : Validator) :
    Inv (s.update val).2 := by
  unfold CachedValidatorSet.update
  split
  · exact hi
  · rename_i index w hw
    obtain ⟨hget, haddr⟩ := (ValidatorSet.getByAddress_spec hi.sorted val.address).1 index w hw
    obtain ⟨hidx, rfl⟩ := List.getElem?_eq_some_iff.mp hget
    exact ⟨hi.sorted.set hidx haddr.symm, Or.inl rfl⟩

theorem Inv.remove {s : CachedValidatorSet} (hi : Inv s) (address : HexBytes) :
    Inv (s.remove address).2 := by
  simp only [CachedValidatorSet.remove]
  split
  · split
    · exact ⟨hi.sorted.eraseIdx _, Or.inl rfl⟩
    · exact hi
  · exact hi

/-- The rounds of `IncrementAccum` read the total power of the set before
them. -/
theorem totalVotingPower_creditAccums {s : CachedValidatorSet}
    (hc : s.totalVotingPowerCache = 0 ∨
      s.totalVotingPowerCache = s.toValidatorSet.totalVotingPower) (times : ℕ) :
    ({ s with validators := creditAccums times s.validators } :
      CachedValidatorSet).totalVotingPower.1 = s.toValidatorSet.totalVotingPower := by
  -- the credited set has the powers, hence the total, of `s`
  have htotal : ({ s with validators := creditAccums times s.validators } :
      CachedValidatorSet).toValidatorSet.totalVotingPower = s.toValidatorSet.totalVotingPower :=
    ValidatorSet.totalVotingPower_eq_of_map
      (map_creditAccums Validator.votingPower (fun _ _ => rfl) times s.validators)
  rw [totalVotingPower_fst_of_cache (by rw [htotal]; exact hc), htotal]

theorem Inv.incrementAccum {s s' : CachedValidatorSet} (hi : Inv s) {times : ℕ}
    (h : s.incrementAccum times = .ok s') : Inv s' := by
  have haddr := map_creditAccums Validator.address (fun _ _ => rfl) times s.validators
  have hpow := map_creditAccums Validator.votingPower (fun _ _ => rfl) times s.validators
  rcases incrementAccum_eq_ok h with ⟨-, rfl⟩ | ⟨-, -, rfl⟩
  · refine ⟨hi.sorted.of_map_eq haddr, ?_⟩
    rcases hi.cache with h0 | hc
    · exact Or.inl h0
    · exact Or.inr (hc.trans (ValidatorSet.totalVotingPower_eq_of_map hpow).symm)
  · refine ⟨hi.sorted.of_map_eq ?_, Or.inr ?_⟩
    · rw [ValidatorSet.map_decrementAccums _ (fun _ _ => rfl), haddr]
    · rw [totalVotingPower_creditAccums hi.cache]
      exact ValidatorSet.totalVotingPower_eq_of_map (by
        simp only [toValidatorSet]
        rw [ValidatorSet.map_decrementAccums _ (fun _ _ => rfl), hpow])

theorem Inv.getProposer {s : CachedValidatorSet} (hi : Inv s) : Inv s.getProposer.2 := by
  unfold CachedValidatorSet.getProposer
  split
  · exact hi
  · split
    · exact hi
    · exact ⟨hi.sorted, hi.cache⟩

theorem Inv.apply {s s' : CachedValidatorSet} (hi : Inv s) {op : Op}
    (h : s.apply op = .ok s') : Inv s' := by
  cases op with
  | add val => cases h; exact hi.add val
  | update val => cases h; exact hi.update val
  | remove address => cases h; exact hi.remove address
  | incrementAccum times => exact hi.incrementAccum h
  | totalVotingPower => cases h; exact hi.totalVotingPower
  | getProposer => cases h; exact hi.getProposer

/-- `NewValidatorSet` never panics. -/
theorem exists_newValidatorSet (vals : List Validator) :
    ∃ s, newValidatorSet vals = .ok s := by
  unfold newValidatorSet
  split
  · exact ⟨_, rfl⟩
  · rename_i hne
    cases h : CachedValidatorSet.incrementAccum _ 1 with
    | ok s => exact ⟨s, rfl⟩
    | error e =>
      -- sorting keeps the validators, so the set is not empty
      have hsorted : vals.insertionSort (fun a b => bytesCompare a.address b.address != .gt) = [] :=
        (incrementAccum_eq_error.mp h).2
      have hperm := List.perm_insertionSort
        (fun a b : Validator => (bytesCompare a.address b.address != .gt) = true) vals
      rw [hsorted] at hperm
      exact absurd hperm.nil_eq.symm hne

theorem inv_newValidatorSet {vals : List Validator} {s : CachedValidatorSet}
    (hn : (vals.map Validator.address).Nodup) (h : newValidatorSet vals = .ok s) : Inv s := by
  have hsorted : Sorted bytesLt Validator.address
      (vals.insertionSort fun a b => bytesCompare a.address b.address != .gt) := by
    refine sorted_insertionSort (fun a b => ?_) hn
    show (bytesCompare a.address b.address != .gt) = true ↔
      ¬ bytesCompare b.address a.address = .lt
    rw [← bytesCompare_eq_gt_iff]
    simp
  have hi : Inv ⟨vals.insertionSort fun a b => bytesCompare a.address b.address != .gt, none, 0⟩ :=
    ⟨hsorted, Or.inl rfl⟩
  unfold newValidatorSet at h
  split at h
  · cases h
    exact hi
  · exact hi.incrementAccum h

/-- **Every reachable set keeps the invariant.** -/
theorem Reachable.inv {s : CachedValidatorSet} (hs : Reachable s) : Inv s := by
  induction hs with
  | newValidatorSet hn h => exact inv_newValidatorSet hn h
  | apply op _ h ih => exact ih.apply h

/-! ### What the calls return -/

/-- `Add(val)` returns false exactly when a validator has `val`'s address. -/
theorem Inv.add_eq_false_iff {s : CachedValidatorSet} (hi : Inv s) (val : Validator) :
    (s.add (some val)).1 = false ↔ ∃ v ∈ s.validators, v.address = val.address := by
  rw [← exists_search_iff hi.sorted, ← searchAddress_eq_search]
  simp only [CachedValidatorSet.add]
  split
  · rename_i hnone
    simp [hnone]
  · rename_i v hv
    by_cases ha : v.address = val.address <;> simp [hv, ha]

/-- `Remove(address)` removes a validator exactly when one has the address. -/
theorem Inv.remove_isSome_iff {s : CachedValidatorSet} (hi : Inv s) (address : HexBytes) :
    (s.remove address).1.isSome ↔ ∃ v ∈ s.validators, v.address = address := by
  rw [← exists_search_iff hi.sorted, ← searchAddress_eq_search]
  simp only [CachedValidatorSet.remove]
  split
  · rename_i v hv
    by_cases ha : v.address = address <;> simp [hv, ha]
  · rename_i hnone
    simp [hnone]

/-- **After `IncrementAccum(times)` with `times > 0` the proposer is a validator
of the set.** -/
theorem incrementAccum_proposer_mem {s s' : CachedValidatorSet} {times : ℕ} (h0 : 0 < times)
    (h : s.incrementAccum times = .ok s') : ∃ p, s'.proposer = some p ∧ p ∈ s'.validators := by
  rcases incrementAccum_eq_ok h with ⟨h0', -⟩ | ⟨-, hne, rfl⟩
  · omega
  · have hcne : creditAccums times s.validators ≠ [] := by simpa [creditAccums] using hne
    exact ValidatorSet.proposer_mem_decrementAccums _ times _ s.proposer (by omega) hcne

/-- **The cache is invisible**: with a stale or right cache, `IncrementAccum` is
`ValidatorSet.incrementAccum`, the model without cache. -/
theorem incrementAccum_toValidatorSet {s s' : CachedValidatorSet}
    (hc : s.totalVotingPowerCache = 0 ∨
      s.totalVotingPowerCache = s.toValidatorSet.totalVotingPower) {times : ℕ}
    (h : s.incrementAccum times = .ok s') :
    s'.toValidatorSet = s.toValidatorSet.incrementAccum times := by
  rw [ValidatorSet.incrementAccum_eq]
  rcases incrementAccum_eq_ok h with ⟨rfl, rfl⟩ | ⟨-, -, rfl⟩
  · rfl
  · rw [totalVotingPower_creditAccums hc]
    rfl

/-- `NewValidatorSet` with its cache is `ValidatorSet.newValidatorSet`. -/
theorem newValidatorSet_toValidatorSet {vals : List Validator} {s : CachedValidatorSet}
    (h : newValidatorSet vals = .ok s) :
    s.toValidatorSet = ValidatorSet.newValidatorSet vals := by
  unfold newValidatorSet at h
  unfold ValidatorSet.newValidatorSet
  split at h
  · rename_i hv
    cases h
    rw [if_pos hv]
    rfl
  · rename_i hv
    rw [if_neg hv, incrementAccum_toValidatorSet (Or.inl rfl) h]
    rfl

end CachedValidatorSet

end RpcNetwork.Tbft.Types
