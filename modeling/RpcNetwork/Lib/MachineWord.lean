import Mathlib

/-!
# Single-bit masks in 64-bit words

Packed bit sets store bit `i` of a set as bit `i % 64` of word `i / 64`, and
touch it with the mask `1 <<< k`.  This module says once what the three
mask operations do to the bits of a `UInt64`, in terms of `BitVec.getLsbD`:

* `toBitVec_mask` — the mask is `BitVec.twoPow 64 k`;
* `and_mask_pos` — testing `x &&& mask > 0` reads bit `k`;
* `getLsbD_or_mask`, `getLsbD_and_not_mask` — setting and clearing bit `k`
  leave every other bit alone;
* `eq_zero_iff_getLsbD`, `not_eq_zero_iff_getLsbD`, `succ_and_lowMask_eq_zero`
  — the whole-word tests `x == 0`, `^x == 0` and `(x + 1) & (1 << k - 1) == 0`
  read as "no bit", "every bit" and "every bit below `k`".

`shl` is Go's shift on `uint64`, which gives zero for a shift of 64 or more;
Lean's `<<<` shifts by the amount modulo 64, so the two differ exactly there.

Nothing here names a particular bit set: the lemmas are the word-level half
of any packed representation.
-/

namespace MachineWord

/-- The mask `1 <<< k` as a natural number. -/
theorem toNat_mask (k : ℕ) (hk : k < 64) : ((1 : UInt64) <<< k.toUInt64).toNat = 2 ^ k := by
  rw [UInt64.toNat_shiftLeft, UInt64.toNat_one, Nat.toUInt64_eq]
  simp only [UInt64.toNat_ofNat']
  rw [show k % 2 ^ 64 % 64 = k by omega, Nat.one_shiftLeft,
    Nat.mod_eq_of_lt (Nat.pow_lt_pow_right Nat.one_lt_two hk)]

/-- The mask `1 <<< k` is the bit vector with only bit `k` set. -/
theorem toBitVec_mask (k : ℕ) (hk : k < 64) :
    ((1 : UInt64) <<< k.toUInt64).toBitVec = BitVec.twoPow 64 k := by
  apply BitVec.eq_of_toNat_eq
  rw [UInt64.toNat_toBitVec, toNat_mask k hk, BitVec.toNat_twoPow,
    Nat.mod_eq_of_lt (Nat.pow_lt_pow_right Nat.one_lt_two hk)]

/-- **Reading a bit.**  `x &&& (1 <<< k)` is positive exactly when bit `k` of
`x` is set. -/
theorem and_mask_pos (x : UInt64) (k : ℕ) (hk : k < 64) :
    x &&& ((1 : UInt64) <<< k.toUInt64) > 0 ↔ x.toBitVec.getLsbD k = true := by
  rw [gt_iff_lt, UInt64.lt_iff_toNat_lt, UInt64.toNat_and, toNat_mask k hk, Nat.and_two_pow,
    ← UInt64.toNat_toBitVec x, BitVec.testBit_toNat]
  cases x.toBitVec.getLsbD k
  · simp
  · simp only [UInt64.toNat_zero, Bool.toNat_true, Nat.one_mul, iff_true]
    exact Nat.two_pow_pos k

/-- **Setting a bit** sets bit `k` and keeps every other bit. -/
theorem getLsbD_or_mask (x : UInt64) (j k : ℕ) (hk : k < 64) :
    (x ||| ((1 : UInt64) <<< k.toUInt64)).toBitVec.getLsbD j =
      (x.toBitVec.getLsbD j || decide (k = j)) := by
  rw [UInt64.toBitVec_or, toBitVec_mask k hk, BitVec.getLsbD_or, BitVec.getLsbD_twoPow]
  by_cases h : k = j
  · subst h
    simp [hk]
  · simp [h]

/-- **Clearing a bit** clears bit `k` and keeps every other bit below 64. -/
theorem getLsbD_and_not_mask (x : UInt64) (j k : ℕ) (hj : j < 64) (hk : k < 64) :
    (x &&& ~~~((1 : UInt64) <<< k.toUInt64)).toBitVec.getLsbD j =
      (x.toBitVec.getLsbD j && !decide (k = j)) := by
  rw [UInt64.toBitVec_and, UInt64.toBitVec_not, toBitVec_mask k hk, BitVec.getLsbD_and,
    BitVec.getLsbD_not, BitVec.getLsbD_twoPow]
  simp [hj, hk]

/-- Go's `x << s` on a `uint64`: a shift by 64 or more gives zero, where
Lean's `<<<` would shift by `s % 64`. -/
def shl (x : UInt64) (s : ℕ) : UInt64 :=
  if s < 64 then x <<< s.toUInt64 else 0

/-- A word is zero exactly when none of its 64 bits is set. -/
theorem eq_zero_iff_getLsbD (x : UInt64) : x = 0 ↔ ∀ j < 64, x.toBitVec.getLsbD j = false := by
  constructor
  · rintro rfl j _
    simp
  · intro h
    apply UInt64.toBitVec_inj.mp
    apply BitVec.eq_of_getLsbD_eq
    intro j hj
    simp [h j hj]

/-- `^x == 0` exactly when all 64 bits of `x` are set. -/
theorem not_eq_zero_iff_getLsbD (x : UInt64) :
    ~~~x = 0 ↔ ∀ j < 64, x.toBitVec.getLsbD j = true := by
  rw [eq_zero_iff_getLsbD]
  simp only [UInt64.toBitVec_not, BitVec.getLsbD_not]
  constructor
  · intro h j hj
    simpa [hj] using h j hj
  · intro h j hj
    simp [hj, h j hj]

/-- The mask `(1 << k) - 1` of the low `k` bits, for every `k ≤ 64`: at
`k = 64` Go's shift gives zero and the subtraction wraps to all ones. -/
theorem toNat_lowMask {k : ℕ} (hk : k ≤ 64) : (shl 1 k - 1).toNat = 2 ^ k - 1 := by
  unfold shl
  split
  · rename_i hlt
    have hpos : 0 < 2 ^ k := Nat.two_pow_pos k
    have hlt' : 2 ^ k < 2 ^ 64 := Nat.pow_lt_pow_right Nat.one_lt_two hlt
    rw [UInt64.toNat_sub, toNat_mask k hlt, UInt64.toNat_one]
    omega
  · have : k = 64 := by omega
    subst this
    rfl

/-- The low `k` bits of `x` are all set exactly when `x % 2^k` is the all-ones
value below `2^k`. -/
theorem mod_two_pow_eq_iff (x k : ℕ) : x % 2 ^ k = 2 ^ k - 1 ↔ ∀ j < k, x.testBit j = true := by
  constructor
  · intro h j hj
    have := congrArg (Nat.testBit · j) h
    simpa [Nat.testBit_mod_two_pow, Nat.testBit_two_pow_sub_one, hj] using this
  · intro h
    apply Nat.eq_of_testBit_eq
    intro j
    rw [Nat.testBit_mod_two_pow, Nat.testBit_two_pow_sub_one]
    by_cases hj : j < k
    · simp [hj, h j hj]
    · simp [hj]

/-- **`IsFull`'s test of the last word.**  `(x + 1) & ((1 << k) - 1) == 0`
holds exactly when the low `k` bits of `x` are all set, for `1 ≤ k ≤ 64`. -/
theorem succ_and_lowMask_eq_zero (x : UInt64) {k : ℕ} (h0 : 0 < k) (hk : k ≤ 64) :
    (x + 1) &&& (shl 1 k - 1) = 0 ↔ ∀ j < k, x.toBitVec.getLsbD j = true := by
  have hdvd : 2 ^ k ∣ 2 ^ 64 := Nat.pow_dvd_pow 2 hk
  have hk2 : 2 ≤ 2 ^ k := by
    calc 2 = 2 ^ 1 := rfl
      _ ≤ 2 ^ k := Nat.pow_le_pow_right (by decide) h0
  -- on naturals: `(x + 1) % 2^k = 0` is `x % 2^k = 2^k - 1`
  have hsucc : (x.toNat + 1) % 2 ^ k = 0 ↔ x.toNat % 2 ^ k = 2 ^ k - 1 := by
    have hlt := Nat.mod_lt x.toNat (Nat.two_pow_pos k)
    rw [Nat.add_mod, Nat.mod_eq_of_lt (show 1 < 2 ^ k by omega)]
    constructor
    · intro h
      by_contra hne
      rw [Nat.mod_eq_of_lt (by omega)] at h
      omega
    · intro h
      rw [h, Nat.sub_add_cancel (by omega), Nat.mod_self]
  rw [← UInt64.toNat_inj, UInt64.toNat_and, toNat_lowMask hk, Nat.and_two_pow_sub_one_eq_mod,
    UInt64.toNat_add, UInt64.toNat_one, Nat.mod_mod_of_dvd _ hdvd, UInt64.toNat_zero, hsucc,
    mod_two_pow_eq_iff]
  simp only [← UInt64.toNat_toBitVec, BitVec.testBit_toNat]

end MachineWord
