import RpcNetwork.Lib.RoundRobin
import RpcNetwork.Tbft.Types.ValidatorSet

/-!
# Proposer rotation is smooth weighted round-robin

`IncrementAccum(1)` on an address-sorted validator list is one round of the
scheduler of `RpcNetwork.Lib.RoundRobin`, ties going to the smaller address.  This module proves the refinement and
reads the scheduler's theorems back onto the validator set.

## Design notes

The scheduler is indexed by `Fin L.length`, the positions of the sorted list
`L`; `withAccums L c` is `L` with the credits `c` written into the `Accum`
fields, and `heapPick` is `peekIndex` read as a choice of position.  Clipping
is excluded by `credit_add_le`: from zero credits every bumped credit is at
most `T * w i`, which the hypothesis `T * max power < 2^63` keeps in range.
-/

namespace RpcNetwork.Tbft.Types

open SmoothRoundRobin Finset

namespace ValidatorSet

/-- The validators of `L`, in order, carrying the accums `c`. -/
def withAccums (L : List Validator) (c : Fin L.length → ℤ) : List Validator :=
  List.ofFn fun i => { L.get i with accum := c i }

/-- The voting power at each position of `L`. -/
def powers (L : List Validator) : Fin L.length → ℤ := fun i => (L.get i).votingPower

@[simp] theorem length_withAccums (L : List Validator) (c : Fin L.length → ℤ) :
    (withAccums L c).length = L.length := by
  simp [withAccums]

theorem getElem_withAccums (L : List Validator) (c : Fin L.length → ℤ) (i : ℕ)
    (hi : i < (withAccums L c).length) :
    (withAccums L c)[i] = { L.get ⟨i, by simpa using hi⟩ with accum := c ⟨i, by simpa using hi⟩ } := by
  simp [withAccums]

theorem withAccums_ne_nil {L : List Validator} (hne : L ≠ []) (c : Fin L.length → ℤ) :
    withAccums L c ≠ [] := by
  intro h
  have := congrArg List.length h
  simp only [length_withAccums, List.length_nil] at this
  exact hne (List.length_eq_zero_iff.mp this)

/-- The heap's choice, as a function of the credits of `L`'s validators. -/
def heapPick (L : List Validator) (hne : L ≠ []) (c : Fin L.length → ℤ) : Fin L.length :=
  ⟨peekIndex (withAccums L c), by simpa using peekIndex_lt (withAccums_ne_nil hne c)⟩

/-- The heap picks a maximal credit. -/
theorem le_heapPick {L : List Validator} (hne : L ≠ []) (c : Fin L.length → ℤ)
    (i : Fin L.length) : c i ≤ c (heapPick L hne c) := by
  have hi : i.1 < (withAccums L c).length := by simp
  have hmax := accum_le_peekIndex hi
  have hj : peekIndex (withAccums L c) < (withAccums L c).length :=
    peekIndex_lt (withAccums_ne_nil hne c)
  rw [List.getElem?_eq_getElem hj, Option.map_some, Option.getD_some,
    getElem_withAccums, getElem_withAccums] at hmax
  exact hmax

/-- The scheduler's total weight is the sum of the powers. -/
theorem total_powers (L : List Validator) : total (powers L) = (L.map Validator.votingPower).sum := by
  unfold total powers
  rw [← List.sum_ofFn]
  congr 1
  apply List.ext_getElem (by simp)
  intro n h₁ h₂
  simp

/-- `TotalVotingPower` reads the powers only, so it is the scheduler's `T`. -/
theorem totalVotingPower_withAccums {L : List Validator} (c : Fin L.length → ℤ)
    (p : Option Validator) (hnn : ∀ v ∈ L, 0 ≤ v.votingPower)
    (hfit : (L.map Validator.votingPower).sum ≤ maxInt64) :
    totalVotingPower ⟨withAccums L c, p⟩ = total (powers L) := by
  have hmap : (withAccums L c).map Validator.votingPower = L.map Validator.votingPower := by
    apply List.ext_getElem (by simp)
    intro n h₁ h₂
    simp [getElem_withAccums]
  rw [total_powers, totalVotingPower_eq_sum _ (by
      intro v hv
      obtain ⟨i, rfl⟩ := List.mem_ofFn.mp hv
      exact hnn (L.get i) (List.get_mem L i)) (by simpa [hmap] using hfit)]
  exact congrArg List.sum hmap

section Refinement

variable {L : List Validator} (hne : L ≠ [])

/-- The credit phase of `IncrementAccum(1)` adds each power exactly when the sums
stay in range. -/
theorem map_bump_withAccums (c : Fin L.length → ℤ)
    (hlo : ∀ i, minInt64 ≤ c i + powers L i) (hhi : ∀ i, c i + powers L i ≤ maxInt64) :
    (withAccums L c).map (fun v => { v with accum := safeAddClip v.accum (safeMulClip v.votingPower ((1 : ℕ) : ℤ)) }) =
      withAccums L (c + powers L) := by
  apply List.ext_getElem (by simp)
  intro n h₁ h₂
  simp only [List.getElem_map, getElem_withAccums, Nat.cast_one, safeMulClip_one, Pi.add_apply]
  congr 1
  exact safeAddClip_of_mem (hlo _) (hhi _)

/-- Writing one accum into `withAccums` is updating its credit function. -/
theorem withAccums_set (c : Fin L.length → ℤ) (i : Fin L.length) (a : ℤ) :
    (withAccums L c).set i { L.get i with accum := a } = withAccums L (Function.update c i a) := by
  apply List.ext_getElem (by simp)
  intro n h₁ h₂
  simp only [length_withAccums] at h₂
  rw [List.getElem_set, getElem_withAccums, getElem_withAccums]
  by_cases hn : i.1 = n
  · subst hn
    simp
  · have : (⟨n, h₂⟩ : Fin L.length) ≠ i := fun h => hn (congrArg Fin.val h).symm
    simp [hn, this]

/-- The validator set after one scheduler round from the credits `c`: the new
credits in the accums, and the chosen validator, charged, as proposer. -/
def afterRound (L : List Validator) (hne : L ≠ []) (c : Fin L.length → ℤ) : ValidatorSet :=
  ⟨withAccums L (step (powers L) (heapPick L hne) c),
    some { L.get (chosen (powers L) (heapPick L hne) c) with
      accum := step (powers L) (heapPick L hne) c (chosen (powers L) (heapPick L hne) c) }⟩

/-- **The refinement step.**  On validators carrying balanced credits whose
bumped values fit in `int64`, `IncrementAccum(1)` is one scheduler round, and
the proposer is the validator the round chose. -/
theorem incrementAccum_withAccums (c : Fin L.length → ℤ)
    (p : Option Validator) (hpos : ∀ v ∈ L, 0 < v.votingPower)
    (hfit : (L.map Validator.votingPower).sum ≤ maxInt64)
    (hbal : Balanced (powers L) c) (hhi : ∀ i, c i + powers L i ≤ maxInt64) :
    incrementAccum ⟨withAccums L c, p⟩ 1 = afterRound L hne c := by
  have hw : ∀ i, 0 < powers L i := fun i => hpos _ (List.get_mem L i)
  have hT := totalVotingPower_withAccums c p (fun v hv => (hpos v hv).le) hfit
  have hTfit : total (powers L) ≤ maxInt64 := total_powers L ▸ hfit
  have : Nonempty (Fin L.length) := ⟨⟨0, List.length_pos_iff.mpr hne⟩⟩
  have hTpos := total_pos hw
  have hlo : ∀ i, minInt64 ≤ c i + powers L i := by
    intro i
    have := hbal.2 i
    have := hw i
    unfold minInt64
    unfold maxInt64 at hTfit
    omega
  -- the heap's top is the chosen position, and its charge is exact
  set j := chosen (powers L) (heapPick L hne) c with hj
  have hjpos : 0 < c j + powers L j := hbal.chosen_pos hw (le_heapPick hne)
  have hlt : j.1 < (withAccums L (c + powers L)).length := by simp
  have hget : (withAccums L (c + powers L))[peekIndex (withAccums L (c + powers L))]? =
      some { L.get j with accum := (c + powers L) j } := by
    rw [show peekIndex (withAccums L (c + powers L)) = j.1 from rfl, List.getElem?_eq_getElem hlt,
      getElem_withAccums]
  have hcharge : safeSubClip ((c + powers L) j) (total (powers L)) =
      (c + powers L) j - total (powers L) := by
    apply safeSubClip_of_mem
    · simp only [Pi.add_apply]
      unfold minInt64
      unfold maxInt64 at hTfit
      omega
    · have := hhi j
      simp only [Pi.add_apply]
      omega
  simp only [incrementAccum, hT, map_bump_withAccums c hlo hhi, decrementAccums, hget, hcharge,
    if_true]
  rw [show peekIndex (withAccums L (c + powers L)) = j.1 from rfl, withAccums_set, afterRound,
    step_apply, if_pos rfl]
  rfl

end Refinement

/-! ### The run from zero accums -/

section Run

variable {L : List Validator} (hne : L ≠ []) (hpos : ∀ v ∈ L, 0 < v.votingPower)
  (hbound : ∀ v ∈ L, (L.map Validator.votingPower).sum * v.votingPower ≤ maxInt64)

include hpos in
theorem powers_pos (i : Fin L.length) : 0 < powers L i :=
  hpos _ (List.get_mem L i)

include hne hpos hbound

/-- The total power fits in `int64` when `T` times every power does. -/
theorem sum_votingPower_le : (L.map Validator.votingPower).sum ≤ maxInt64 := by
  obtain ⟨v, hv⟩ := List.exists_mem_of_ne_nil L hne
  have hT : 0 ≤ (L.map Validator.votingPower).sum :=
    List.sum_nonneg fun x hx => by
      obtain ⟨u, hu, rfl⟩ := List.mem_map.mp hx
      exact (hpos u hu).le
  calc (L.map Validator.votingPower).sum
      ≤ (L.map Validator.votingPower).sum * v.votingPower :=
        le_mul_of_one_le_right hT (by have := hpos v hv; omega)
    _ ≤ maxInt64 := hbound v hv

/-- Every credit reached from zero, plus one more power, fits in `int64`. -/
theorem credit_add_powers_le (t : ℕ) (i : Fin L.length) :
    credit (powers L) (heapPick L hne) 0 t i + powers L i ≤ maxInt64 :=
  calc credit (powers L) (heapPick L hne) 0 t i + powers L i
      ≤ total (powers L) * powers L i := credit_add_le (powers_pos hpos) (le_heapPick hne) t i
    _ = (L.map Validator.votingPower).sum * (L.get i).votingPower := by rw [total_powers]; rfl
    _ ≤ maxInt64 := hbound _ (List.get_mem L i)

/-- **The refinement run.**  From the credits of any round reached from zero,
`IncrementAccum(1)` performs the next scheduler round. -/
theorem incrementAccum_credit (t : ℕ) (p : Option Validator) :
    incrementAccum ⟨withAccums L (credit (powers L) (heapPick L hne) 0 t), p⟩ 1 =
      afterRound L hne (credit (powers L) (heapPick L hne) 0 t) :=
  incrementAccum_withAccums hne _ p hpos (sum_votingPower_le hne hpos hbound)
    (balanced_credit (powers_pos hpos) (le_heapPick hne) t) (credit_add_powers_le hne hpos hbound t)

end Run

/-! ### The rotation of `NewValidatorSet` -/

/-- The order `NewValidatorSet` sorts by: ascending address. -/
def sortByAddress (vals : List Validator) : List Validator :=
  vals.insertionSort fun a b => bytesCompare a.address b.address != .gt

theorem perm_sortByAddress (vals : List Validator) : (sortByAddress vals).Perm vals :=
  List.perm_insertionSort _ vals

theorem newValidatorSet_of_ne_nil {vals : List Validator} (hne : vals ≠ []) :
    newValidatorSet vals = incrementAccum ⟨sortByAddress vals, none⟩ 1 := by
  simp only [newValidatorSet, if_neg hne]
  rfl

/-- Validators whose accums are all zero carry the zero credits. -/
theorem withAccums_zero {L : List Validator} (hzero : ∀ v ∈ L, v.accum = 0) :
    withAccums L 0 = L := by
  apply List.ext_getElem (by simp)
  intro n h₁ h₂
  rw [getElem_withAccums, Pi.zero_apply, ← hzero _ (List.getElem_mem h₂)]
  rfl

/-- The validator sets a node walks through at one height when it enters every
round in turn: `NewValidatorSet(vals)` followed by `k` calls of `IncrementAccum(1)`. -/
def rotation (vals : List Validator) (k : ℕ) : ValidatorSet :=
  (fun vs => vs.incrementAccum 1)^[k] (newValidatorSet vals)

/-- The address of the proposer of the `k`-th set of the rotation. -/
def proposerAt (vals : List Validator) (k : ℕ) : Option HexBytes :=
  (rotation vals k).proposer.map Validator.address

/-- The sum of the accums of a validator set. -/
def accumSum (vs : ValidatorSet) : ℤ :=
  (vs.validators.map Validator.accum).sum

theorem accumSum_afterRound {L : List Validator} (hne : L ≠ []) (c : Fin L.length → ℤ) :
    accumSum (afterRound L hne c) = ∑ i, c i := by
  rw [afterRound, accumSum, withAccums, List.map_ofFn, List.sum_ofFn]
  exact sum_step (powers L) (heapPick L hne) c

section Rotation

variable {vals L : List Validator} (hsort : sortByAddress vals = L) (hne : L ≠ [])
  (hpos : ∀ v ∈ L, 0 < v.votingPower) (hzero : ∀ v ∈ L, v.accum = 0)
  (hbound : ∀ v ∈ L, (L.map Validator.votingPower).sum * v.votingPower ≤ maxInt64)
include hsort hne hpos hzero hbound

/-- **The rotation is the scheduler.**  The `k`-th set of the rotation is round
`k` of smooth weighted round-robin over the address-sorted validators, from
zero credits. -/
theorem rotation_eq (k : ℕ) :
    rotation vals k = afterRound L hne (credit (powers L) (heapPick L hne) 0 k) := by
  induction k with
  | zero =>
      have hvals : vals ≠ [] := by
        rintro rfl
        exact hne hsort.symm
      have hL : sortByAddress vals = withAccums L (credit (powers L) (heapPick L hne) 0 0) := by
        rw [credit_zero, withAccums_zero hzero, hsort]
      rw [rotation, Function.iterate_zero_apply, newValidatorSet_of_ne_nil hvals, hL]
      exact incrementAccum_credit hne hpos hbound 0 none
  | succ k ih =>
      -- the set of round `k` carries the credits of round `k + 1`
      have hnext := incrementAccum_credit hne hpos hbound (k + 1)
        (afterRound L hne (credit (powers L) (heapPick L hne) 0 k)).proposer
      rw [credit_succ] at hnext
      rw [rotation, Function.iterate_succ_apply', ← rotation, ih, credit_succ]
      exact hnext

/-- The `k`-th proposer is the validator at the position round `k` selects. -/
theorem proposerAt_eq (k : ℕ) :
    proposerAt vals k = some (L.get (selected (powers L) (heapPick L hne) 0 k)).address := by
  rw [proposerAt, rotation_eq hsort hne hpos hzero hbound]
  rfl

/-- The whole validator set, accums and proposer, repeats after `T` rounds. -/
theorem rotation_add_period (k : ℕ) :
    rotation vals (k + period (powers L)) = rotation vals k := by
  rw [rotation_eq hsort hne hpos hzero hbound, rotation_eq hsort hne hpos hzero hbound,
    credit_add_period (powers_pos hpos) (le_heapPick hne)]

/-- Every call of `IncrementAccum(1)` along the rotation keeps the sum of the accums. -/
theorem accumSum_incrementAccum_rotation (k : ℕ) :
    accumSum ((rotation vals k).incrementAccum 1) = accumSum (rotation vals k) := by
  have hsucc : (rotation vals k).incrementAccum 1 = rotation vals (k + 1) := by
    rw [rotation, rotation, Function.iterate_succ_apply']
  rw [hsucc, rotation_eq hsort hne hpos hzero hbound, rotation_eq hsort hne hpos hzero hbound,
    accumSum_afterRound, accumSum_afterRound, credit_succ, sum_step]

end Rotation

/-- Distinct addresses name distinct positions. -/
theorem address_get_inj {L : List Validator} (h : (L.map Validator.address).Nodup)
    {i j : Fin L.length} : (L.get i).address = (L.get j).address ↔ i = j := by
  have key := @List.Nodup.getElem_inj_iff _ _ h i.1 (by simp) j.1 (by simp)
  simp only [List.getElem_map] at key
  rw [List.get_eq_getElem, List.get_eq_getElem, key, Fin.val_inj]

/-- **Weighted round-robin fairness of `NewValidatorSet` and `IncrementAccum(1)`.**
For distinct addresses, positive powers, zero accums and `T * power < 2^63`, the
proposers repeat with period `T`, every `T` consecutive ones hold each
validator its power many times, and no `IncrementAccum` changes the accum sum. -/
theorem proposer_rotation_fair (vals : List Validator) (hne : vals ≠ [])
    (hnodup : (vals.map Validator.address).Nodup) (hpos : ∀ v ∈ vals, 0 < v.votingPower)
    (hzero : ∀ v ∈ vals, v.accum = 0)
    (hfit : ∀ v ∈ vals, (vals.map Validator.votingPower).sum * v.votingPower < 2 ^ 63) :
    (∀ k, proposerAt vals (k + (vals.map Validator.votingPower).sum.toNat) = proposerAt vals k) ∧
    (∀ a, ∀ v ∈ vals,
      (#{s ∈ Ico a (a + (vals.map Validator.votingPower).sum.toNat) |
        proposerAt vals s = some v.address} : ℤ) = v.votingPower) ∧
    accumSum (newValidatorSet vals) = (vals.map Validator.accum).sum ∧
    ∀ k, accumSum ((rotation vals k).incrementAccum 1) = accumSum (rotation vals k) := by
  -- carry every hypothesis over to the sorted list the scheduler runs on
  obtain ⟨L, hsort⟩ : ∃ L, sortByAddress vals = L := ⟨_, rfl⟩
  have hperm : L.Perm vals := hsort ▸ perm_sortByAddress vals
  have hneL : L ≠ [] := fun h => hne (List.Perm.eq_nil (h ▸ hperm.symm))
  have hposL : ∀ v ∈ L, 0 < v.votingPower := fun v hv => hpos v (hperm.mem_iff.mp hv)
  have hzeroL : ∀ v ∈ L, v.accum = 0 := fun v hv => hzero v (hperm.mem_iff.mp hv)
  have hsum : (L.map Validator.votingPower).sum = (vals.map Validator.votingPower).sum :=
    (hperm.map _).sum_eq
  have hboundL : ∀ v ∈ L, (L.map Validator.votingPower).sum * v.votingPower ≤ maxInt64 := by
    intro v hv
    have := hfit v (hperm.mem_iff.mp hv)
    rw [hsum]
    unfold maxInt64
    omega
  have hnodupL : (L.map Validator.address).Nodup := (hperm.map _).nodup_iff.mpr hnodup
  have hperiod : (vals.map Validator.votingPower).sum.toNat = period (powers L) := by
    rw [period, total_powers, hsum]
  have hw := powers_pos hposL
  refine ⟨fun k => ?_, fun a v hv => ?_, ?_, accumSum_incrementAccum_rotation hsort hneL hposL hzeroL hboundL⟩
  · -- periodicity
    rw [hperiod, proposerAt_eq hsort hneL hposL hzeroL hboundL,
      proposerAt_eq hsort hneL hposL hzeroL hboundL, selected_add_period hw (le_heapPick hneL)]
  · -- `v` sits at one position `i`, and the proposer is `v` exactly when `i` is selected
    obtain ⟨i, rfl⟩ := List.get_of_mem (hperm.mem_iff.mpr hv)
    have hfilter : {s ∈ Ico a (a + period (powers L)) | proposerAt vals s = some (L.get i).address} =
        {s ∈ Ico a (a + period (powers L)) | selected (powers L) (heapPick L hneL) 0 s = i} := by
      refine filter_congr fun s _ => ?_
      rw [proposerAt_eq hsort hneL hposL hzeroL hboundL, Option.some_inj, address_get_inj hnodupL]
    rw [hperiod, hfilter]
    exact card_window_selected hw (le_heapPick hneL) a i
  · -- the first call: the rotation's set `0` is `NewValidatorSet`
    have hsum0 : (vals.map Validator.accum).sum = 0 :=
      List.sum_eq_zero fun x hx => by
        obtain ⟨u, hu, rfl⟩ := List.mem_map.mp hx
        exact hzero u hu
    have h0 := rotation_eq hsort hneL hposL hzeroL hboundL 0
    rw [rotation, Function.iterate_zero_apply] at h0
    rw [h0, accumSum_afterRound, credit_zero, hsum0]
    simp

/-- The fairness theorem at two validators of powers `1` and `3`. -/
theorem proposer_rotation_fair_one_three :
    ([⟨[0], [10], 1, 0⟩, ⟨[1], [11], 3, 0⟩] : List Validator) ≠ [] ∧
    (([⟨[0], [10], 1, 0⟩, ⟨[1], [11], 3, 0⟩] : List Validator).map Validator.address).Nodup ∧
    (∀ v ∈ ([⟨[0], [10], 1, 0⟩, ⟨[1], [11], 3, 0⟩] : List Validator), 0 < v.votingPower) ∧
    (∀ v ∈ ([⟨[0], [10], 1, 0⟩, ⟨[1], [11], 3, 0⟩] : List Validator), v.accum = 0) ∧
    (∀ v ∈ ([⟨[0], [10], 1, 0⟩, ⟨[1], [11], 3, 0⟩] : List Validator),
      (([⟨[0], [10], 1, 0⟩, ⟨[1], [11], 3, 0⟩] : List Validator).map Validator.votingPower).sum *
        v.votingPower < 2 ^ 63) ∧
    ∀ k, proposerAt [⟨[0], [10], 1, 0⟩, ⟨[1], [11], 3, 0⟩] (k + 4) =
      proposerAt [⟨[0], [10], 1, 0⟩, ⟨[1], [11], 3, 0⟩] k :=
  ⟨by decide, by decide, by decide, by decide, by decide,
    (proposer_rotation_fair [⟨[0], [10], 1, 0⟩, ⟨[1], [11], 3, 0⟩] (by decide) (by decide)
      (by decide) (by decide) (by decide)).1⟩

/-- **Skipping rounds is not stepping through them.**  From `NewValidatorSet`
of powers `1` and `3`, `IncrementAccum(2)` (a jump from round `0` to `2`) and
two `IncrementAccum(1)` reach the same accums but different proposers. -/
theorem incrementAccum_two_ne_rotation_two :
    ((newValidatorSet [⟨[0], [10], 1, 0⟩, ⟨[1], [11], 3, 0⟩]).copy.incrementAccum 2).validators =
      (rotation [⟨[0], [10], 1, 0⟩, ⟨[1], [11], 3, 0⟩] 2).validators ∧
    ((newValidatorSet [⟨[0], [10], 1, 0⟩, ⟨[1], [11], 3, 0⟩]).copy.incrementAccum 2).proposer.map
      Validator.address = some [0] ∧
    proposerAt [⟨[0], [10], 1, 0⟩, ⟨[1], [11], 3, 0⟩] 2 = some [1] := by
  decide

end ValidatorSet

end RpcNetwork.Tbft.Types
