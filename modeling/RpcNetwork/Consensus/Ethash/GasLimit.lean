import Mathlib

/-!
# The block gas limit (`core/block_validator.go`, `consensus/ethash/consensus.go`)

A miner picks the gas limit of its next block with `CalcGasLimit`: the
parent's limit less `1/1024` of it, plus `3/2048` of the parent's gas used, so
that it rises when the parent was more than two thirds full; then kept at
`MinGasLimit` and moved toward the miner's floor and ceiling.  A validator
accepts the limit in `verifyHeader` when it is at most `2^63 - 1`, at least
`MinGasLimit`, and less than `parent.GasLimit / 1024` away from the parent's.

Both compute in `uint64`, and `verifyHeader` takes the distance in `int64`;
the model keeps the machine types.
-/

namespace RpcNetwork.Consensus.Ethash

/-- `params.GasLimitBoundDivisor`. -/
def gasLimitBoundDivisor : UInt64 := 1024

/-- `params.MinGasLimit`. -/
def minGasLimit : UInt64 := 5000

/-- The fields of a header that the gas checks read. -/
structure GasHeader where
  gasLimit : UInt64
  gasUsed : UInt64

/-- `CalcGasLimit(parent, gasFloor, gasCeil)`. -/
def calcGasLimit (parent : GasHeader) (gasFloor gasCeil : UInt64) : UInt64 :=
  let contrib := (parent.gasUsed + parent.gasUsed / 2) / gasLimitBoundDivisor
  let decay := parent.gasLimit / gasLimitBoundDivisor - 1
  let limit := parent.gasLimit - decay + contrib
  let limit := if limit < minGasLimit then minGasLimit else limit
  if limit < gasFloor then
    let limit := parent.gasLimit + decay
    if limit > gasFloor then gasFloor else limit
  else if limit > gasCeil then
    let limit := parent.gasLimit - decay
    if limit < gasCeil then gasCeil else limit
  else limit

/-- The errors of the gas checks of `verifyHeader`, with the values they print. -/
inductive GasLimitError where
  /-- `invalid gasLimit: have %v, max %v` -/
  | gasLimitAboveCap (gasLimit cap : UInt64)
  /-- `invalid gasUsed: have %d, gasLimit %d` -/
  | gasUsedAboveLimit (gasUsed gasLimit : UInt64)
  /-- `invalid gas limit: have %d, want %d += %d` -/
  | gasLimitOutOfBounds (gasLimit parentGasLimit limit : UInt64)
  deriving DecidableEq, Repr

/-- `diff := int64(a) - int64(b); if diff < 0 { diff *= -1 }`. -/
def absDiff (a b : UInt64) : Int64 :=
  let diff := a.toInt64 - b.toInt64
  if diff < 0 then diff * -1 else diff

/-- The gas checks of `verifyHeader(chain, header, parent, uncle, seal)`. -/
def verifyGasLimit (header parent : GasHeader) : Except GasLimitError Unit :=
  let cap : UInt64 := 0x7fffffffffffffff
  if header.gasLimit > cap then .error (.gasLimitAboveCap header.gasLimit cap)
  else if header.gasUsed > header.gasLimit then
    .error (.gasUsedAboveLimit header.gasUsed header.gasLimit)
  else
    let limit := parent.gasLimit / gasLimitBoundDivisor
    if (absDiff parent.gasLimit header.gasLimit).toUInt64 ≥ limit || header.gasLimit < minGasLimit then
      .error (.gasLimitOutOfBounds header.gasLimit parent.gasLimit limit)
    else .ok ()

/-! ### The distance in `int64` -/

theorem toInt_toInt64_of_lt {a : UInt64} (h : a.toNat < 2 ^ 63) : a.toInt64.toInt = a.toNat := by
  show a.toBitVec.toInt = _
  rw [BitVec.toInt_eq_toNat_of_lt (by rw [UInt64.toNat_toBitVec]; omega), UInt64.toNat_toBitVec]

/-- Below `2^63` the `int64` distance is the distance. -/
theorem absDiff_toNat {a b : UInt64} (ha : a.toNat < 2 ^ 63) (hb : b.toNat < 2 ^ 63) :
    (absDiff a b).toUInt64.toNat = max (a.toNat - b.toNat) (b.toNat - a.toNat) := by
  have hd : (a.toInt64 - b.toInt64).toInt = (a.toNat : ℤ) - b.toNat := by
    rw [Int64.toInt_sub, toInt_toInt64_of_lt ha, toInt_toInt64_of_lt hb]
    exact Int.bmod_eq_of_le (by omega) (by omega)
  -- a nonnegative `int64` reads back as the same `uint64`
  have hnat : ∀ x : Int64, 0 ≤ x.toInt → x.toUInt64.toNat = x.toInt.toNat := fun x hx =>
    Int64.toNat_toUInt64_of_le (Int64.le_iff_toInt_le.mpr (by rw [Int64.toInt_zero]; exact hx))
  dsimp only [absDiff]
  split
  · rename_i hneg
    rw [Int64.lt_iff_toInt_lt, hd, Int64.toInt_zero] at hneg
    have hneg' : ((a.toInt64 - b.toInt64) * -1).toInt = (b.toNat : ℤ) - a.toNat := by
      rw [Int64.toInt_mul, hd, show (-1 : Int64).toInt = -1 from rfl,
        show ((a.toNat : ℤ) - b.toNat) * -1 = (b.toNat : ℤ) - a.toNat by ring]
      exact Int.bmod_eq_of_le (by omega) (by omega)
    rw [hnat _ (by omega), hneg']
    omega
  · rename_i hpos
    rw [Int64.lt_iff_toInt_lt, hd, Int64.toInt_zero] at hpos
    rw [hnat _ (by omega), hd]
    omega

/-! ### The limit the miner picks -/

section CalcGasLimit

variable (parent : GasHeader) (gasFloor gasCeil : UInt64)
  (hlo : 5120 ≤ parent.gasLimit.toNat) (hhi : parent.gasLimit.toNat < 2 ^ 63)
  (hused : parent.gasUsed ≤ parent.gasLimit) (hceil : gasCeil.toNat < 2 ^ 63)
  (hfloor : gasFloor.toNat < 2 ^ 63)

include hlo hhi hused hceil hfloor in
/-- For a parent of at least `5120` gas with its gas used within its limit,
and a floor and a ceiling below `2^63`, `CalcGasLimit` stays at `MinGasLimit`
or above, below `2^63`, and less than `parent.GasLimit / 1024` from the
parent's limit. -/
theorem calcGasLimit_bounds {L : UInt64} (hL : calcGasLimit parent gasFloor gasCeil = L) :
    5000 ≤ L.toNat ∧ L.toNat < 2 ^ 63 ∧
      max (parent.gasLimit.toNat - L.toNat) (L.toNat - parent.gasLimit.toNat) <
        parent.gasLimit.toNat / 1024 := by
  subst hL
  have hU := UInt64.le_iff_toNat_le.mp hused
  have hmin : minGasLimit.toNat = 5000 := rfl
  -- the decay and the contribution of the parent's use, as numbers
  have hq : (parent.gasLimit / gasLimitBoundDivisor).toNat = parent.gasLimit.toNat / 1024 :=
    UInt64.toNat_div _ _
  have hD : (parent.gasLimit / gasLimitBoundDivisor - 1).toNat = parent.gasLimit.toNat / 1024 - 1 := by
    rw [UInt64.toNat_sub_of_le _ _ (UInt64.le_iff_toNat_le.mpr (by rw [hq]; change 1 ≤ _; omega)), hq]
    rfl
  have hK : ((parent.gasUsed + parent.gasUsed / 2) / gasLimitBoundDivisor).toNat =
      (parent.gasUsed.toNat + parent.gasUsed.toNat / 2) / 1024 := by
    rw [UInt64.toNat_div, UInt64.toNat_add, UInt64.toNat_div, show (2 : UInt64).toNat = 2 from rfl,
      Nat.mod_eq_of_lt (by omega)]
    rfl
  dsimp only [calcGasLimit]
  generalize parent.gasLimit / gasLimitBoundDivisor - 1 = D at hD ⊢
  generalize (parent.gasUsed + parent.gasUsed / 2) / gasLimitBoundDivisor = K at hK ⊢
  have hDle : D ≤ parent.gasLimit := UInt64.le_iff_toNat_le.mpr (by omega)
  have hdown : (parent.gasLimit - D).toNat = parent.gasLimit.toNat - D.toNat :=
    UInt64.toNat_sub_of_le _ _ hDle
  have hup : (parent.gasLimit + D).toNat = parent.gasLimit.toNat + D.toNat := by
    rw [UInt64.toNat_add, Nat.mod_eq_of_lt (by omega)]
  have hbase : (parent.gasLimit - D + K).toNat = parent.gasLimit.toNat - D.toNat + K.toNat := by
    rw [UInt64.toNat_add, hdown, Nat.mod_eq_of_lt (by omega)]
  -- the contribution of a parent at most full is below twice the decay
  have hKD : K.toNat ≤ 2 * D.toNat := by omega
  generalize parent.gasLimit - D + K = B at hbase ⊢
  -- a smaller context keeps `omega`'s certificates small
  clear hq hK hU hused hDle
  simp only [gt_iff_lt, UInt64.lt_iff_toNat_lt, hbase, hup, hdown, hmin]
  split_ifs <;> simp only [hbase, hup, hdown, hmin] at * <;> omega

include hlo hhi hused hceil hfloor in
/-- **The miner's gas limit passes the validator's checks.**  For a parent of
at least `5120` gas with its gas used within its limit, and a floor and a
ceiling below `2^63`, a header with the limit `CalcGasLimit` picks, and any gas
used within it, passes the gas checks of `verifyHeader`. -/
theorem verifyGasLimit_calcGasLimit (gasUsed : UInt64)
    (hgas : gasUsed ≤ calcGasLimit parent gasFloor gasCeil) :
    verifyGasLimit ⟨calcGasLimit parent gasFloor gasCeil, gasUsed⟩ parent = .ok () := by
  obtain ⟨hmin, hcap, hdist⟩ :=
    calcGasLimit_bounds parent gasFloor gasCeil hlo hhi hused hceil hfloor rfl
  generalize calcGasLimit parent gasFloor gasCeil = L at *
  have habs := absDiff_toNat hhi hcap
  have hcapL : ¬L > 0x7fffffffffffffff :=
    UInt64.not_lt.mpr (UInt64.le_iff_toNat_le.mpr (by change _ ≤ 2 ^ 63 - 1; omega))
  have hbound : ¬((absDiff parent.gasLimit L).toUInt64 ≥ parent.gasLimit / gasLimitBoundDivisor ||
      decide (L < minGasLimit)) = true := by
    have h1024 : gasLimitBoundDivisor.toNat = 1024 := rfl
    have h5000 : minGasLimit.toNat = 5000 := rfl
    simp only [ge_iff_le, Bool.or_eq_true, decide_eq_true_eq, not_or, UInt64.lt_iff_toNat_lt,
      UInt64.le_iff_toNat_le, habs, UInt64.toNat_div, h1024, h5000]
    omega
  dsimp only [verifyGasLimit]
  rw [if_neg hcapL, if_neg (UInt64.not_lt.mpr hgas), if_neg hbound]

theorem verifyGasLimit_calcGasLimit_full :
    5120 ≤ (8000000 : UInt64).toNat ∧ (8000000 : UInt64).toNat < 2 ^ 63 ∧
      (8000000 : UInt64) ≤ 8000000 ∧
      verifyGasLimit ⟨calcGasLimit ⟨8000000, 8000000⟩ 0 8000000, 8000000⟩ ⟨8000000, 8000000⟩ = .ok () :=
  ⟨by decide, by decide, by decide, verifyGasLimit_calcGasLimit ⟨8000000, 8000000⟩ 0 8000000
    (by decide) (by decide) (by decide) (by decide) (by decide) 8000000 (by decide)⟩

/-- Below `5120` gas the bound fails: a full parent at `5000` moves the limit
up by `4`, which is `5000 / 1024`, and `verifyHeader` rejects it. -/
example : verifyGasLimit ⟨calcGasLimit ⟨5000, 5000⟩ 5000 8000000, 0⟩ ⟨5000, 5000⟩ =
    .error (.gasLimitOutOfBounds 5004 5000 4) := by decide

end CalcGasLimit

end RpcNetwork.Consensus.Ethash
