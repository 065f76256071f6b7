import Mathlib

/-!
# Ethash difficulty adjustment (`consensus/ethash/consensus.go`)

The difficulty of a new block is the parent's moved by a whole number of
steps of `parent.Difficulty / 2048`, kept at `MinimumDifficulty`, plus the
exponential "bomb".  Three rules choose the number of steps: Byzantium and
later (EIP-100, with the bomb delays of EIP-649/1234/2384) from the block
time and the parent's uncles, Homestead (EIP-2) from the block time, and
Frontier one step up or down.  `CalcDifficulty` picks the rule of the first
fork active at the new block.

The arithmetic of the source is `big.Int`'s: integers, with `Div` the
Euclidean division, which is `Int`'s `/`.  Block times are `uint64`.
-/

namespace RpcNetwork.Consensus.Ethash

/-! ## The model -/

/-- `params.DifficultyBoundDivisor`. -/
def difficultyBoundDivisor : ℤ := 2048

/-- `params.MinimumDifficulty`. -/
def minimumDifficulty : ℤ := 131072

/-- `params.DurationLimit`. -/
def durationLimit : ℤ := 13

/-- `expDiffPeriod`: the blocks of one period of the bomb. -/
def expDiffPeriod : ℤ := 100000

/-- `types.EmptyUncleHash`, the hash of an empty uncle list. -/
def emptyUncleHash : List UInt8 :=
  [0x1d, 0xcc, 0x4d, 0xe8, 0xde, 0xc7, 0x5d, 0x7a, 0xab, 0x85, 0xb5, 0x67, 0xb6, 0xcc, 0xd4, 0x1a,
   0xd3, 0x12, 0x45, 0x1b, 0x94, 0x8a, 0x74, 0x13, 0xf0, 0xa1, 0x42, 0xfd, 0x40, 0xd4, 0x93, 0x47]

/-- The fields of a parent header the difficulty reads. -/
structure Header where
  number : ℤ
  time : ℕ
  difficulty : ℤ
  uncleHash : List UInt8

/-- `makeDifficultyCalculator(bombDelay)`: the Byzantium rule with the bomb
delayed by `bombDelay` blocks. -/
def makeDifficultyCalculator (bombDelay : ℤ) (time : ℕ) (parent : Header) : ℤ :=
  let bombDelayFromParent := bombDelay - 1
  let x := ((time : ℤ) - parent.time) / 9
  let x := if parent.uncleHash = emptyUncleHash then 1 - x else 2 - x
  let x := if x < -99 then -99 else x
  let y := parent.difficulty / difficultyBoundDivisor
  let x := parent.difficulty + y * x
  let x := if x < minimumDifficulty then minimumDifficulty else x
  let fakeBlockNumber := if parent.number ≥ bombDelayFromParent then parent.number - bombDelayFromParent else 0
  let periodCount := fakeBlockNumber / expDiffPeriod
  if periodCount > 1 then x + 2 ^ (periodCount - 2).toNat else x

/-- `calcDifficultyEip2384`. -/
def calcDifficultyEip2384 : ℕ → Header → ℤ := makeDifficultyCalculator 9000000

/-- `calcDifficultyConstantinople`. -/
def calcDifficultyConstantinople : ℕ → Header → ℤ := makeDifficultyCalculator 5000000

/-- `calcDifficultyByzantium`. -/
def calcDifficultyByzantium : ℕ → Header → ℤ := makeDifficultyCalculator 3000000

/-- `calcDifficultyHomestead`: the EIP-2 rule. -/
def calcDifficultyHomestead (time : ℕ) (parent : Header) : ℤ :=
  let x := ((time : ℤ) - parent.time) / 10
  let x := 1 - x
  let x := if x < -99 then -99 else x
  let y := parent.difficulty / difficultyBoundDivisor
  let x := parent.difficulty + y * x
  let x := if x < minimumDifficulty then minimumDifficulty else x
  let periodCount := (parent.number + 1) / expDiffPeriod
  if periodCount > 1 then x + 2 ^ (periodCount - 2).toNat else x

/-- `calcDifficultyFrontier`: one step up for a block within `DurationLimit`
seconds, one step down otherwise. -/
def calcDifficultyFrontier (time : ℕ) (parent : Header) : ℤ :=
  let adjust := parent.difficulty / difficultyBoundDivisor
  let diff := if (time : ℤ) - parent.time < durationLimit then parent.difficulty + adjust
    else parent.difficulty - adjust
  let diff := if diff < minimumDifficulty then minimumDifficulty else diff
  let periodCount := (parent.number + 1) / expDiffPeriod
  if periodCount > 1 then max (diff + 2 ^ (periodCount - 2).toNat) minimumDifficulty else diff

/-- The fork blocks of a chain configuration; `none` is a fork that never
comes. -/
structure ChainConfig where
  homesteadBlock : Option ℤ
  byzantiumBlock : Option ℤ
  constantinopleBlock : Option ℤ
  muirGlacierBlock : Option ℤ

/-- `isForked(s, head)`: the fork at `s` is active at block `head`. -/
def isForked : Option ℤ → ℤ → Bool
  | none, _ => false
  | some s, head => decide (s ≤ head)

/-- `CalcDifficulty(config, time, parent)`. -/
def calcDifficulty (config : ChainConfig) (time : ℕ) (parent : Header) : ℤ :=
  let next := parent.number + 1
  if isForked config.muirGlacierBlock next then calcDifficultyEip2384 time parent
  else if isForked config.constantinopleBlock next then calcDifficultyConstantinople time parent
  else if isForked config.byzantiumBlock next then calcDifficultyByzantium time parent
  else if isForked config.homesteadBlock next then calcDifficultyHomestead time parent
  else calcDifficultyFrontier time parent

/-! ## The parts of every rule -/

/-- The parent's difficulty moved by `k` steps of `pd / 2048`, kept at the
minimum. -/
def adjusted (pd k : ℤ) : ℤ := max (pd + pd / difficultyBoundDivisor * k) minimumDifficulty

/-- The bomb of a period count: `2^(periodCount - 2)` past the first two
periods. -/
def bomb (periodCount : ℤ) : ℤ := if 1 < periodCount then 2 ^ (periodCount - 2).toNat else 0

/-- The steps of the Byzantium rule: one, or two for a parent with uncles,
less one for every nine seconds, and never below `-99`. -/
def byzantiumSteps (time : ℕ) (parent : Header) : ℤ :=
  max ((if parent.uncleHash = emptyUncleHash then 1 else 2) - ((time : ℤ) - parent.time) / 9) (-99)

/-- The steps of the Homestead rule: one less one for every ten seconds, and
never below `-99`. -/
def homesteadSteps (time : ℕ) (parent : Header) : ℤ := max (1 - ((time : ℤ) - parent.time) / 10) (-99)

/-- The step of the Frontier rule: up within the duration limit, down past it. -/
def frontierSteps (time : ℕ) (parent : Header) : ℤ :=
  if (time : ℤ) - parent.time < durationLimit then 1 else -1

/-! ## Each rule is its formula -/

section Formulas

/-- The source's clamp, `if x < c { x = c }`. -/
theorem clamp_eq_max (x c : ℤ) : (if x < c then c else x) = max x c := by
  by_cases h : x < c
  · rw [if_pos h, max_eq_right h.le]
  · rw [if_neg h, max_eq_left (not_lt.mp h)]

theorem bomb_of_lt {periodCount : ℤ} (h : 1 < periodCount) :
    bomb periodCount = 2 ^ (periodCount - 2).toNat := if_pos h

theorem bomb_of_le {periodCount : ℤ} (h : periodCount ≤ 1) : bomb periodCount = 0 :=
  if_neg (not_lt.mpr h)

/-- Adding the bomb as the source does, only past the first two periods. -/
theorem add_bomb (x periodCount : ℤ) :
    (if periodCount > 1 then x + 2 ^ (periodCount - 2).toNat else x) = x + bomb periodCount := by
  by_cases h : 1 < periodCount
  · rw [if_pos h, bomb_of_lt h]
  · rw [if_neg h, bomb_of_le (not_lt.mp h), add_zero]

theorem le_adjusted (pd k : ℤ) : minimumDifficulty ≤ adjusted pd k := le_max_right _ _

theorem bomb_nonneg (periodCount : ℤ) : 0 ≤ bomb periodCount := by
  unfold bomb
  split_ifs
  · exact pow_nonneg (by decide) _
  · exact le_rfl

/-- **The Byzantium rule is its formula** (EIP-100), with the bomb counted
from `bombDelay` blocks later (EIP-649/1234/2384). -/
theorem makeDifficultyCalculator_eq (bombDelay : ℤ) (time : ℕ) (parent : Header) :
    makeDifficultyCalculator bombDelay time parent =
      adjusted parent.difficulty (byzantiumSteps time parent) +
        bomb (max (parent.number - (bombDelay - 1)) 0 / expDiffPeriod) := by
  have hfake : (if parent.number ≥ bombDelay - 1 then parent.number - (bombDelay - 1) else 0) =
      max (parent.number - (bombDelay - 1)) 0 := by
    by_cases h : parent.number ≥ bombDelay - 1
    · rw [if_pos h, max_eq_left (by omega)]
    · rw [if_neg h, max_eq_right (by omega)]
  have hsteps : (if (if parent.uncleHash = emptyUncleHash then 1 - ((time : ℤ) - parent.time) / 9
        else 2 - ((time : ℤ) - parent.time) / 9) < -99 then -99
      else if parent.uncleHash = emptyUncleHash then 1 - ((time : ℤ) - parent.time) / 9
        else 2 - ((time : ℤ) - parent.time) / 9) = byzantiumSteps time parent := by
    rw [clamp_eq_max, byzantiumSteps, apply_ite (· - ((time : ℤ) - parent.time) / 9)]
  simp only [makeDifficultyCalculator]
  rw [hsteps, clamp_eq_max, hfake, add_bomb]
  rfl

/-- **The Homestead rule is its formula** (EIP-2). -/
theorem calcDifficultyHomestead_eq (time : ℕ) (parent : Header) :
    calcDifficultyHomestead time parent =
      adjusted parent.difficulty (homesteadSteps time parent) +
        bomb ((parent.number + 1) / expDiffPeriod) := by
  simp only [calcDifficultyHomestead]
  rw [clamp_eq_max, clamp_eq_max, add_bomb]
  rfl

/-- **The Frontier rule is its formula**: one step up or down; the last
`BigMax` never bites, the bomb being positive. -/
theorem calcDifficultyFrontier_eq (time : ℕ) (parent : Header) :
    calcDifficultyFrontier time parent =
      adjusted parent.difficulty (frontierSteps time parent) +
        bomb ((parent.number + 1) / expDiffPeriod) := by
  have hdiff : (if (time : ℤ) - parent.time < durationLimit then
        parent.difficulty + parent.difficulty / difficultyBoundDivisor
      else parent.difficulty - parent.difficulty / difficultyBoundDivisor) =
      parent.difficulty + parent.difficulty / difficultyBoundDivisor * frontierSteps time parent := by
    unfold frontierSteps
    split_ifs <;> omega
  simp only [calcDifficultyFrontier]
  rw [hdiff, clamp_eq_max]
  by_cases h : 1 < (parent.number + 1) / expDiffPeriod
  · -- the bomb keeps the sum above the minimum
    rw [if_pos h, bomb_of_lt h, max_eq_left]
    · rfl
    · have := le_adjusted parent.difficulty (frontierSteps time parent)
      have : (0 : ℤ) ≤ 2 ^ ((parent.number + 1) / expDiffPeriod - 2).toNat := pow_nonneg (by decide) _
      unfold adjusted at *
      omega
  · rw [if_neg h, bomb_of_le (not_lt.mp h), add_zero]
    rfl

end Formulas

/-! ## A clamped step -/

section Adjusted

variable {pd : ℤ}

theorem step_nonneg (hpd : 0 ≤ pd) : 0 ≤ pd / difficultyBoundDivisor :=
  Int.ediv_nonneg hpd (by decide)

/-- More steps, more difficulty. -/
theorem adjusted_mono (hpd : 0 ≤ pd) {k₁ k₂ : ℤ} (hk : k₁ ≤ k₂) : adjusted pd k₁ ≤ adjusted pd k₂ :=
  max_le_max (add_le_add le_rfl (mul_le_mul_of_nonneg_left hk (step_nonneg hpd))) le_rfl

/-- **A clamped step moves the difficulty by at most its size**, for a parent
at or above the minimum: the clamp only ever brings it back towards the
parent. -/
theorem abs_adjusted_sub_le (hpd : minimumDifficulty ≤ pd) (k : ℤ) :
    |adjusted pd k - pd| ≤ pd / difficultyBoundDivisor * |k| := by
  have hstep : 0 ≤ pd / difficultyBoundDivisor := step_nonneg (le_trans (by decide) hpd)
  unfold adjusted
  by_cases h : minimumDifficulty ≤ pd + pd / difficultyBoundDivisor * k
  · rw [max_eq_left h, add_sub_cancel_left, abs_mul, abs_of_nonneg hstep]
  · -- clamped: the minimum lies between the stepped value and the parent, so the
    -- step was down
    rw [max_eq_right (not_le.mp h).le]
    have hk : k < 0 := by
      by_contra hk
      have := mul_nonneg hstep (not_lt.mp hk)
      omega
    rw [abs_of_neg hk, mul_neg, abs_of_nonpos (by omega)]
    omega

/-- Away from the clamp the change is exactly the step. -/
theorem abs_adjusted_sub_eq (hstep : 0 ≤ pd / difficultyBoundDivisor) {k : ℤ}
    (h : minimumDifficulty ≤ pd + pd / difficultyBoundDivisor * k) :
    |adjusted pd k - pd| = pd / difficultyBoundDivisor * |k| := by
  rw [adjusted, max_eq_left h, add_sub_cancel_left, abs_mul, abs_of_nonneg hstep]

end Adjusted

/-! ## The steps of each rule -/

section Steps

variable {time₁ time₂ : ℕ} (parent : Header)

theorem byzantiumSteps_antitone (h : time₁ ≤ time₂) :
    byzantiumSteps time₂ parent ≤ byzantiumSteps time₁ parent := by
  have hdiv : ((time₁ : ℤ) - parent.time) / 9 ≤ ((time₂ : ℤ) - parent.time) / 9 :=
    Int.ediv_le_ediv (by decide) (by omega)
  unfold byzantiumSteps
  split_ifs <;> omega

theorem homesteadSteps_antitone (h : time₁ ≤ time₂) :
    homesteadSteps time₂ parent ≤ homesteadSteps time₁ parent := by
  have hdiv : ((time₁ : ℤ) - parent.time) / 10 ≤ ((time₂ : ℤ) - parent.time) / 10 :=
    Int.ediv_le_ediv (by decide) (by omega)
  unfold homesteadSteps
  omega

theorem frontierSteps_antitone (h : time₁ ≤ time₂) :
    frontierSteps time₂ parent ≤ frontierSteps time₁ parent := by
  unfold frontierSteps
  split_ifs <;> omega

/-- Forward in time, the steps never go below `-99` nor, for a block at or
after its parent, above two. -/
theorem abs_byzantiumSteps_le (time : ℕ) (h : parent.time ≤ time) :
    |byzantiumSteps time parent| ≤ 99 := by
  have hdiv : 0 ≤ ((time : ℤ) - parent.time) / 9 := Int.ediv_nonneg (by omega) (by decide)
  unfold byzantiumSteps
  rw [abs_le]
  split_ifs <;> omega

theorem abs_homesteadSteps_le (time : ℕ) (h : parent.time ≤ time) :
    |homesteadSteps time parent| ≤ 99 := by
  have hdiv : 0 ≤ ((time : ℤ) - parent.time) / 10 := Int.ediv_nonneg (by omega) (by decide)
  unfold homesteadSteps
  rw [abs_le]
  omega

theorem abs_frontierSteps (time : ℕ) : |frontierSteps time parent| = 1 := by
  unfold frontierSteps
  split_ifs <;> rfl

end Steps

/-! ## The rules together -/

section Rules

variable {pd : ℤ}

/-- Every rule ends at or above the minimum. -/
theorem le_adjusted_add_bomb (pd k periodCount : ℤ) :
    minimumDifficulty ≤ adjusted pd k + bomb periodCount :=
  le_add_of_le_of_nonneg (le_adjusted pd k) (bomb_nonneg periodCount)

/-- Fewer steps, less difficulty, for the same bomb. -/
theorem adjusted_add_bomb_le (hpd : 0 ≤ pd) {k₁ k₂ : ℤ} (hk : k₁ ≤ k₂) (periodCount : ℤ) :
    adjusted pd k₁ + bomb periodCount ≤ adjusted pd k₂ + bomb periodCount :=
  add_le_add (adjusted_mono hpd hk) le_rfl

/-- Without its bomb, a rule moves the difficulty by at most `bound` steps. -/
theorem abs_adjusted_add_bomb_sub_le (hpd : minimumDifficulty ≤ pd) {k bound : ℤ} (hk : |k| ≤ bound)
    (periodCount : ℤ) :
    |adjusted pd k + bomb periodCount - bomb periodCount - pd| ≤ pd / difficultyBoundDivisor * bound := by
  rw [add_sub_cancel_right]
  exact (abs_adjusted_sub_le hpd k).trans
    (mul_le_mul_of_nonneg_left hk (step_nonneg (le_trans (by decide) hpd)))

/-- The rules of `CalcDifficulty` in the order it tries them, each with the
fork that enables it. -/
def forkRules (config : ChainConfig) : List (Option ℤ × (ℕ → Header → ℤ)) :=
  [(config.muirGlacierBlock, calcDifficultyEip2384),
   (config.constantinopleBlock, calcDifficultyConstantinople),
   (config.byzantiumBlock, calcDifficultyByzantium),
   (config.homesteadBlock, calcDifficultyHomestead)]

/-- `CalcDifficulty` applies the rule of the first fork active at the new
block, and Frontier's when none is. -/
theorem calcDifficulty_eq_first (config : ChainConfig) (time : ℕ) (parent : Header) :
    calcDifficulty config time parent =
      (((forkRules config).find? fun rule => isForked rule.1 (parent.number + 1)).map
        fun rule => rule.2 time parent).getD (calcDifficultyFrontier time parent) := by
  unfold calcDifficulty forkRules
  dsimp only
  split_ifs <;> simp_all

/-- **The ethash difficulty rules.**  For a parent at or above the minimum:
each rule is its EIP formula; every result is at least the minimum; a later
block never gets a higher difficulty; before the bomb a result is at most `99`
steps of `pd / 2048` from the parent's (Frontier: one); and `CalcDifficulty`
takes the rule of the first active fork. -/
theorem difficulty_rules (config : ChainConfig) (bombDelay : ℤ) (parent : Header)
    (hpd : minimumDifficulty ≤ parent.difficulty) :
    (∀ time : ℕ, makeDifficultyCalculator bombDelay time parent =
      max (parent.difficulty + parent.difficulty / 2048 *
          max ((if parent.uncleHash = emptyUncleHash then 1 else 2) - ((time : ℤ) - parent.time) / 9) (-99))
        minimumDifficulty + bomb (max (parent.number - (bombDelay - 1)) 0 / 100000)) ∧
    (∀ time : ℕ, calcDifficultyHomestead time parent =
      max (parent.difficulty + parent.difficulty / 2048 * max (1 - ((time : ℤ) - parent.time) / 10) (-99))
        minimumDifficulty + bomb ((parent.number + 1) / 100000)) ∧
    (∀ time : ℕ, calcDifficultyFrontier time parent =
      max (parent.difficulty + parent.difficulty / 2048 * (if (time : ℤ) - parent.time < 13 then 1 else -1))
        minimumDifficulty + bomb ((parent.number + 1) / 100000)) ∧
    (∀ time : ℕ, minimumDifficulty ≤ makeDifficultyCalculator bombDelay time parent ∧
      minimumDifficulty ≤ calcDifficultyHomestead time parent ∧
      minimumDifficulty ≤ calcDifficultyFrontier time parent) ∧
    (∀ time₁ time₂ : ℕ, time₁ ≤ time₂ →
      makeDifficultyCalculator bombDelay time₂ parent ≤ makeDifficultyCalculator bombDelay time₁ parent ∧
      calcDifficultyHomestead time₂ parent ≤ calcDifficultyHomestead time₁ parent ∧
      calcDifficultyFrontier time₂ parent ≤ calcDifficultyFrontier time₁ parent) ∧
    (∀ time : ℕ, parent.time ≤ time →
      |makeDifficultyCalculator bombDelay time parent -
          bomb (max (parent.number - (bombDelay - 1)) 0 / 100000) - parent.difficulty| ≤
        parent.difficulty / 2048 * 99 ∧
      |calcDifficultyHomestead time parent - bomb ((parent.number + 1) / 100000) - parent.difficulty| ≤
        parent.difficulty / 2048 * 99 ∧
      |calcDifficultyFrontier time parent - bomb ((parent.number + 1) / 100000) - parent.difficulty| ≤
        parent.difficulty / 2048 ∧
      (minimumDifficulty ≤ parent.difficulty - parent.difficulty / 2048 →
        |calcDifficultyFrontier time parent - bomb ((parent.number + 1) / 100000) - parent.difficulty| =
          parent.difficulty / 2048)) ∧
    (∀ time : ℕ, calcDifficulty config time parent =
      (((forkRules config).find? fun rule => isForked rule.1 (parent.number + 1)).map
        fun rule => rule.2 time parent).getD (calcDifficultyFrontier time parent)) := by
  have hpd0 : 0 ≤ parent.difficulty := le_trans (by decide) hpd
  have hstep := step_nonneg hpd0
  refine ⟨fun time => makeDifficultyCalculator_eq bombDelay time parent,
    fun time => calcDifficultyHomestead_eq time parent,
    fun time => calcDifficultyFrontier_eq time parent, fun time => ?_, fun time₁ time₂ h => ?_,
    fun time h => ?_, fun time => calcDifficulty_eq_first config time parent⟩
  · -- the minimum
    rw [makeDifficultyCalculator_eq, calcDifficultyHomestead_eq, calcDifficultyFrontier_eq]
    exact ⟨le_adjusted_add_bomb _ _ _, le_adjusted_add_bomb _ _ _, le_adjusted_add_bomb _ _ _⟩
  · -- monotone in time: each rule's steps are
    rw [makeDifficultyCalculator_eq, makeDifficultyCalculator_eq, calcDifficultyHomestead_eq,
      calcDifficultyHomestead_eq, calcDifficultyFrontier_eq, calcDifficultyFrontier_eq]
    exact ⟨adjusted_add_bomb_le hpd0 (byzantiumSteps_antitone parent h) _,
      adjusted_add_bomb_le hpd0 (homesteadSteps_antitone parent h) _,
      adjusted_add_bomb_le hpd0 (frontierSteps_antitone parent h) _⟩
  · -- the change before the bomb
    rw [makeDifficultyCalculator_eq, calcDifficultyHomestead_eq, calcDifficultyFrontier_eq]
    refine ⟨abs_adjusted_add_bomb_sub_le hpd (abs_byzantiumSteps_le parent time h) _,
      abs_adjusted_add_bomb_sub_le hpd (abs_homesteadSteps_le parent time h) _,
      (abs_adjusted_add_bomb_sub_le hpd (abs_frontierSteps parent time).le _).trans_eq (mul_one _),
      fun hmin => ?_⟩
    -- away from the clamp, Frontier moves by exactly one step
    have hclear : minimumDifficulty ≤ parent.difficulty +
        parent.difficulty / difficultyBoundDivisor * frontierSteps time parent := by
      unfold frontierSteps
      split_ifs <;> unfold difficultyBoundDivisor at * <;> omega
    have hperiod : bomb ((parent.number + 1) / expDiffPeriod) = bomb ((parent.number + 1) / 100000) := rfl
    rw [hperiod, add_sub_cancel_right, abs_adjusted_sub_eq hstep hclear, abs_frontierSteps, mul_one]
    rfl

/-- A parent at the minimum difficulty and a slow block: Frontier's step down
falls below the minimum and is clamped, so the difficulty does not move by
`pd / 2048 = 64`. -/
theorem frontier_clamped_at_minimum :
    calcDifficultyFrontier 13 ⟨0, 0, 131072, emptyUncleHash⟩ - bomb ((0 + 1) / 100000) - 131072 = 0 ∧
      (131072 : ℤ) / 2048 = 64 := by
  decide

/-- A slow block on a Constantinople parent: fifteen minutes after it, the
difficulty falls by at most `99` steps before the bomb. -/
theorem difficulty_rules_slow_block :
    minimumDifficulty ≤ (⟨4000000, 1000, 2 ^ 40, emptyUncleHash⟩ : Header).difficulty ∧
      |makeDifficultyCalculator 5000000 1900 ⟨4000000, 1000, 2 ^ 40, emptyUncleHash⟩ -
          bomb (max ((4000000 : ℤ) - (5000000 - 1)) 0 / 100000) - 2 ^ 40| ≤ 2 ^ 40 / 2048 * 99 := by
  have hpd : minimumDifficulty ≤ (⟨4000000, 1000, 2 ^ 40, emptyUncleHash⟩ : Header).difficulty := by
    decide
  exact ⟨hpd, ((difficulty_rules ⟨none, none, none, none⟩ 5000000 _ hpd).2.2.2.2.2.1 1900
    (by decide)).1⟩

end Rules

end RpcNetwork.Consensus.Ethash
