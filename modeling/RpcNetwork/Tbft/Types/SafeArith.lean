import Mathlib
import RpcNetwork.Tbft.Types.ValidatorSet

/-!
# Saturating `int64` arithmetic (`types/validator_set.go`)

`safeAdd`, `safeSub` and `safeMul` compute in `int64` and report overflow;
`safeAdd` and `safeSub` compare against `MaxInt64 - b` and `MinInt64 - b`
before adding, `safeMul` multiplies with wrap-around and checks that dividing
back gives the first factor.  The `*Clip` helpers saturate on overflow, in the
direction a separate sign test picks.  Over all pairs of `int64` values, the
flags are exactly overflow of the mathematical result, and the clipped values
are the mathematical results clamped to `[MinInt64, MaxInt64]`.
-/

namespace RpcNetwork.Tbft.Types

/-- `x` is a value of `int64`. -/
def InInt64 (x : ℤ) : Prop := minInt64 ≤ x ∧ x ≤ maxInt64

instance (x : ℤ) : Decidable (InInt64 x) := inferInstanceAs (Decidable (_ ∧ _))

/-- The value of `int64` nearest to `x`. -/
def clampInt64 (x : ℤ) : ℤ := max minInt64 (min x maxInt64)

section clamp

variable {x : ℤ}

theorem clampInt64_of_mem (h : InInt64 x) : clampInt64 x = x := by
  unfold clampInt64
  rw [min_eq_left h.2, max_eq_right h.1]

theorem clampInt64_of_lt (h : x < minInt64) : clampInt64 x = minInt64 := by
  unfold clampInt64 minInt64 maxInt64 at *
  omega

theorem clampInt64_of_gt (h : maxInt64 < x) : clampInt64 x = maxInt64 := by
  unfold clampInt64 minInt64 maxInt64 at *
  omega

theorem wrapInt64_of_mem (h : InInt64 x) : wrapInt64 x = x := by
  unfold wrapInt64
  unfold InInt64 minInt64 maxInt64 at h
  omega

theorem wrapInt64_mem (x : ℤ) : InInt64 (wrapInt64 x) := by
  unfold InInt64 wrapInt64 minInt64 maxInt64
  omega

/-- Wrapping moves a value by a multiple of `2^64`. -/
theorem wrapInt64_eq_add_mul (x : ℤ) : ∃ k : ℤ, wrapInt64 x = x + k * 2 ^ 64 := by
  refine ⟨-((x + 2 ^ 63) / 2 ^ 64), ?_⟩
  unfold wrapInt64
  omega

end clamp

variable {a b : ℤ}

/-! ### Addition and subtraction -/

theorem safeAdd_overflow_iff (ha : InInt64 a) (hb : InInt64 b) :
    (safeAdd a b).2 = true ↔ ¬ InInt64 (a + b) := by
  unfold InInt64 at *
  unfold safeAdd
  unfold minInt64 maxInt64 at *
  split_ifs <;> simp <;> omega

theorem safeSub_overflow_iff (ha : InInt64 a) (hb : InInt64 b) :
    (safeSub a b).2 = true ↔ ¬ InInt64 (a - b) := by
  unfold InInt64 at *
  unfold safeSub
  unfold minInt64 maxInt64 at *
  split_ifs <;> simp <;> omega

theorem safeAdd_fst (h : (safeAdd a b).2 = false) : (safeAdd a b).1 = a + b := by
  unfold safeAdd at h ⊢
  split_ifs at h ⊢
  rfl

theorem safeSub_fst (h : (safeSub a b).2 = false) : (safeSub a b).1 = a - b := by
  unfold safeSub at h ⊢
  split_ifs at h ⊢
  rfl

theorem safeAddClip_def (a b : ℤ) :
    safeAddClip a b =
      if (safeAdd a b).2 then (if b < 0 then minInt64 else maxInt64) else (safeAdd a b).1 := by
  unfold safeAddClip
  rcases safeAdd a b with ⟨c, overflow⟩
  rfl

theorem safeSubClip_def (a b : ℤ) :
    safeSubClip a b =
      if (safeSub a b).2 then (if 0 < b then minInt64 else maxInt64) else (safeSub a b).1 := by
  unfold safeSubClip
  rcases safeSub a b with ⟨c, overflow⟩
  rfl

theorem safeAddClip_eq (ha : InInt64 a) (hb : InInt64 b) : safeAddClip a b = clampInt64 (a + b) := by
  rw [safeAddClip_def]
  cases hov : (safeAdd a b).2
  · -- no overflow: the exact sum, which is a value of `int64`
    have hmem : InInt64 (a + b) := by
      by_contra hout
      rw [← safeAdd_overflow_iff ha hb, hov] at hout
      exact Bool.false_ne_true hout
    rw [if_neg Bool.false_ne_true, safeAdd_fst hov, clampInt64_of_mem hmem]
  · -- the sign of `b` tells on which side the sum left `int64`
    have hout := (safeAdd_overflow_iff ha hb).mp hov
    unfold InInt64 at ha hb hout
    rw [if_pos rfl]
    split_ifs with hneg
    · exact (clampInt64_of_lt (by unfold minInt64 maxInt64 at *; omega)).symm
    · exact (clampInt64_of_gt (by unfold minInt64 maxInt64 at *; omega)).symm

theorem safeSubClip_eq (ha : InInt64 a) (hb : InInt64 b) : safeSubClip a b = clampInt64 (a - b) := by
  rw [safeSubClip_def]
  cases hov : (safeSub a b).2
  · have hmem : InInt64 (a - b) := by
      by_contra hout
      rw [← safeSub_overflow_iff ha hb, hov] at hout
      exact Bool.false_ne_true hout
    rw [if_neg Bool.false_ne_true, safeSub_fst hov, clampInt64_of_mem hmem]
  · have hout := (safeSub_overflow_iff ha hb).mp hov
    unfold InInt64 at ha hb hout
    rw [if_pos rfl]
    split_ifs with hpos
    · exact (clampInt64_of_lt (by unfold minInt64 maxInt64 at *; omega)).symm
    · exact (clampInt64_of_gt (by unfold minInt64 maxInt64 at *; omega)).symm

/-! ### Multiplication -/

/-- Dividing the wrapped product by `b` gives `a` back only if nothing
wrapped: otherwise the remainder would be a nonzero multiple of `2^64`, which
no divisor of `int64` exceeds. -/
theorem tdiv_wrap_ne_of_not_mem (hb : InInt64 b) (hb0 : b ≠ 0) (hout : ¬ InInt64 (a * b)) :
    (wrapInt64 (a * b)).tdiv b ≠ a := by
  intro hdiv
  obtain ⟨k, hk⟩ := wrapInt64_eq_add_mul (a * b)
  have hmod : (wrapInt64 (a * b)).tmod b = k * 2 ^ 64 := by
    rw [Int.tmod_def, hdiv, hk]
    ring
  have hlt : ((wrapInt64 (a * b)).tmod b).natAbs < b.natAbs := by
    rw [Int.natAbs_tmod]
    exact Nat.mod_lt _ (Int.natAbs_pos.mpr hb0)
  have hk0 : k = 0 := by
    rw [hmod] at hlt
    unfold InInt64 minInt64 maxInt64 at hb
    omega
  apply hout
  have hmem := wrapInt64_mem (a * b)
  rwa [hk, hk0, zero_mul, add_zero] at hmem

theorem safeMul_overflow_iff (ha : InInt64 a) (hb : InInt64 b) :
    (safeMul a b).2 = true ↔ ¬ InInt64 (a * b) := by
  unfold safeMul
  split_ifs with h0 h1 h2 hmin
  · -- a zero factor
    rcases h0 with rfl | rfl <;> simp [InInt64, minInt64, maxInt64]
  · subst h1
    simpa using hb
  · subst h2
    simpa using ha
  · -- `MinInt64` times anything but zero or one leaves `int64`
    unfold InInt64 minInt64 maxInt64 at *
    simp only [true_iff]
    rcases hmin with rfl | rfl <;> omega
  · have hb0 : b ≠ 0 := fun h => h0 (.inr h)
    simp only [decide_eq_true_eq]
    constructor
    · intro hne hmem
      exact hne (by rw [wrapInt64_of_mem hmem, Int.mul_tdiv_cancel _ hb0])
    · exact tdiv_wrap_ne_of_not_mem hb hb0

theorem safeMul_fst (ha : InInt64 a) (hb : InInt64 b) (h : (safeMul a b).2 = false) :
    (safeMul a b).1 = a * b := by
  have hmem : InInt64 (a * b) := by
    by_contra hout
    rw [← safeMul_overflow_iff ha hb, h] at hout
    exact Bool.false_ne_true hout
  unfold safeMul at h ⊢
  split_ifs at h ⊢ with h0 h1 h2
  · rcases h0 with rfl | rfl <;> simp
  · rw [h1, one_mul]
  · rw [h2, mul_one]
  · exact wrapInt64_of_mem hmem

/-- An overflowing product has two nonzero factors. -/
theorem safeMul_ne_zero (h : (safeMul a b).2 = true) : a ≠ 0 ∧ b ≠ 0 := by
  unfold safeMul at h
  split_ifs at h with h0
  all_goals exact not_or.mp h0

theorem safeMulClip_def (a b : ℤ) :
    safeMulClip a b =
      if (safeMul a b).2 then
        (if (a < 0 ∨ b < 0) ∧ ¬ (a < 0 ∧ b < 0) then minInt64 else maxInt64)
      else (safeMul a b).1 := by
  unfold safeMulClip
  rcases safeMul a b with ⟨c, overflow⟩
  rfl

/-- The product of two nonzero factors is negative exactly when one of them is. -/
theorem mul_neg_iff_one_neg (ha : a ≠ 0) (hb : b ≠ 0) :
    a * b < 0 ↔ (a < 0 ∨ b < 0) ∧ ¬ (a < 0 ∧ b < 0) := by
  rcases lt_or_gt_of_ne ha with ha' | ha' <;> rcases lt_or_gt_of_ne hb with hb' | hb'
  · simp [ha', hb', (Int.mul_pos_of_neg_of_neg ha' hb').le.not_gt]
  · simp [ha', hb'.le.not_gt, Int.mul_neg_of_neg_of_pos ha' hb']
  · simp [ha'.le.not_gt, hb', Int.mul_neg_of_pos_of_neg ha' hb']
  · simp [ha'.le.not_gt, hb'.le.not_gt, (Int.mul_pos ha' hb').le.not_gt]

theorem safeMulClip_eq (ha : InInt64 a) (hb : InInt64 b) : safeMulClip a b = clampInt64 (a * b) := by
  rw [safeMulClip_def]
  cases hov : (safeMul a b).2
  · have hmem : InInt64 (a * b) := by
      by_contra hout
      rw [← safeMul_overflow_iff ha hb, hov] at hout
      exact Bool.false_ne_true hout
    rw [if_neg Bool.false_ne_true, safeMul_fst ha hb hov, clampInt64_of_mem hmem]
  · -- the sign test picks the side the product left `int64` on
    have hout := (safeMul_overflow_iff ha hb).mp hov
    obtain ⟨ha0, hb0⟩ := safeMul_ne_zero hov
    have hsign := mul_neg_iff_one_neg ha0 hb0
    unfold InInt64 at hout
    rw [if_pos rfl]
    split_ifs with hneg
    · exact (clampInt64_of_lt (by unfold minInt64 maxInt64 at *; have := hsign.mpr hneg; omega)).symm
    · exact (clampInt64_of_gt (by
        unfold minInt64 maxInt64 at *
        have := mt hsign.mp hneg
        omega)).symm

/-! ### The three helpers together -/

/-- Over all pairs of `int64` values, `safeAddClip`, `safeSubClip` and
`safeMulClip` are the mathematical results clamped to `[MinInt64, MaxInt64]`,
and the overflow flags of `safeAdd`, `safeSub` and `safeMul` are set exactly
when the mathematical result lies outside that range. -/
theorem safe_arith_clamps (a b : ℤ) (ha : InInt64 a) (hb : InInt64 b) :
    safeAddClip a b = clampInt64 (a + b) ∧ safeSubClip a b = clampInt64 (a - b) ∧
      safeMulClip a b = clampInt64 (a * b) ∧
      ((safeAdd a b).2 = true ↔ ¬ InInt64 (a + b)) ∧
      ((safeSub a b).2 = true ↔ ¬ InInt64 (a - b)) ∧
      ((safeMul a b).2 = true ↔ ¬ InInt64 (a * b)) :=
  ⟨safeAddClip_eq ha hb, safeSubClip_eq ha hb, safeMulClip_eq ha hb, safeAdd_overflow_iff ha hb,
    safeSub_overflow_iff ha hb, safeMul_overflow_iff ha hb⟩

/-- The helpers at `MinInt64` and `-1`, where `safeMul` must report the
product `2^63` as overflow. -/
theorem safe_arith_clamps_min_neg_one :
    (InInt64 minInt64 ∧ InInt64 (-1)) ∧
      safeAddClip minInt64 (-1) = clampInt64 (minInt64 + -1) ∧
      safeSubClip minInt64 (-1) = clampInt64 (minInt64 - -1) ∧
      safeMulClip minInt64 (-1) = clampInt64 (minInt64 * -1) ∧
      ((safeAdd minInt64 (-1)).2 = true ↔ ¬ InInt64 (minInt64 + -1)) ∧
      ((safeSub minInt64 (-1)).2 = true ↔ ¬ InInt64 (minInt64 - -1)) ∧
      ((safeMul minInt64 (-1)).2 = true ↔ ¬ InInt64 (minInt64 * -1)) := by
  have ha : InInt64 minInt64 := by decide
  have hb : InInt64 (-1) := by decide
  exact ⟨⟨ha, hb⟩, safe_arith_clamps minInt64 (-1) ha hb⟩

end RpcNetwork.Tbft.Types
