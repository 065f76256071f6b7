import RpcNetwork.Core.Bloombits.Matcher

/-!
# The blocks `Start` sends for a section

The result loop of `Matcher.Start` walks the blocks of a section from
`first` to `last`, reads each block's bit in the section's vector, and skips
a whole byte when it is zero and the block is at its start.  This module
shows that, when `last + 8` does not wrap, the loop sends exactly the blocks
of `[first, last]` whose bit is set (`emitLoop_eq`), in increasing order.
-/

namespace RpcNetwork.Core.Bloombits

open ByteBitmap

/-! ## `uint64` arithmetic below the wrap -/

section Words

theorem toNat_add_one_of_lt {i : UInt64} (h : i.toNat + 1 < 2 ^ 64) : (i + 1).toNat = i.toNat + 1 := by
  rw [UInt64.toNat_add, UInt64.toNat_one, Nat.mod_eq_of_lt h]

theorem toNat_add_eight_of_lt {i : UInt64} (h : i.toNat + 8 < 2 ^ 64) :
    (i + 7 + 1).toNat = i.toNat + 8 := by
  have h7 : (i + 7).toNat = i.toNat + 7 := by
    rw [UInt64.toNat_add]
    exact Nat.mod_eq_of_lt (by simp only [UInt64.toNat_ofNat]; omega)
  rw [UInt64.toNat_add, h7, UInt64.toNat_one, Nat.mod_eq_of_lt (by omega)]

theorem mod_eight_eq_zero_iff (i : UInt64) : i % 8 = 0 ↔ i.toNat % 8 = 0 := by
  rw [← UInt64.toNat_inj, UInt64.toNat_mod, UInt64.toNat_ofNat, UInt64.toNat_zero]

-- The shift amount `7 - i%8` of `Start`, as a byte.
theorem toUInt8_seven_sub (i : UInt64) : (7 - i % 8).toUInt8 = (7 - i.toNat % 8).toUInt8 := by
  apply UInt8.toNat_inj.mp
  have hle : i % 8 ≤ 7 := by
    rw [UInt64.le_iff_toNat_le, UInt64.toNat_mod]
    exact Nat.le_of_lt_succ (Nat.mod_lt _ (by decide))
  rw [UInt64.toNat_toUInt8, UInt64.toNat_sub_of_le _ _ hle, UInt64.toNat_mod, Nat.toUInt8_eq,
    UInt8.toNat_ofNat']
  rfl

end Words

/-! ## The blocks whose bit is set -/

/-- The blocks of `[first, last]` whose bit is set in the vector of the
section starting at `sectionStart`. -/
def setBlocks (bitset : List UInt8) (sectionStart first last : ℕ) : List ℕ :=
  (List.range' first (last + 1 - first)).filter fun k => test bitset (k - sectionStart)

section SetBlocks

variable {bitset : List UInt8} {sectionStart first last : ℕ}

theorem setBlocks_of_lt (h : last < first) : setBlocks bitset sectionStart first last = [] := by
  rw [setBlocks, show last + 1 - first = 0 by omega, List.range'_zero, List.filter_nil]

theorem setBlocks_cons (h : first ≤ last) :
    setBlocks bitset sectionStart first last =
      (if test bitset (first - sectionStart) then [first] else []) ++
        setBlocks bitset sectionStart (first + 1) last := by
  rw [setBlocks, show last + 1 - first = (last + 1 - (first + 1)) + 1 by omega, List.range'_succ,
    List.filter_cons]
  split_ifs <;> rfl

/-- A byte whose eight blocks have no bit set holds no block of `setBlocks`. -/
theorem setBlocks_skip_byte (hzero : ∀ k, first ≤ k → k < first + 8 → test bitset (k - sectionStart) = false) :
    setBlocks bitset sectionStart first last = setBlocks bitset sectionStart (first + 8) last := by
  -- split off the (at most) eight blocks of the byte
  have hsplit : List.range' first (last + 1 - first) =
      List.range' first (min 8 (last + 1 - first)) ++
        List.range' (first + 8) (last + 1 - (first + 8)) := by
    by_cases h8 : 8 ≤ last + 1 - first
    · rw [Nat.min_eq_left h8, show first + 8 = first + 1 * 8 by omega, List.range'_append]
      congr 1
      omega
    · rw [Nat.min_eq_right (by omega), show last + 1 - (first + 8) = 0 by omega, List.range'_zero,
        List.append_nil]
  rw [setBlocks, hsplit, List.filter_append, setBlocks]
  have hnil : (List.range' first (min 8 (last + 1 - first))).filter
      (fun k => test bitset (k - sectionStart)) = [] := by
    rw [List.filter_eq_nil_iff]
    intro k hk
    rw [List.mem_range'_1] at hk
    simp [hzero k hk.1 (by omega)]
  rw [hnil, List.nil_append]

end SetBlocks

/-! ## The loop -/

/-- **The loop of `Start`** sends, in order, the blocks of `[i, last]` whose bit
is set, when the section starts byte-aligned, its vector covers `last`, and
`last + 8` does not wrap.  By induction on the fuel: a zero byte at its start
is skipped whole, any other block is tested on its own. -/
theorem emitLoop_eq {v : List UInt8} {S L : UInt64} (hS : S.toNat % 8 = 0)
    (hL : L.toNat + 8 < 2 ^ 64) (hlen : L.toNat < S.toNat + 8 * v.length) :
    ∀ (fuel : ℕ) (i : UInt64), S.toNat ≤ i.toNat → L.toNat + 1 - i.toNat < fuel →
      emitLoop v S L fuel i = .ok ((setBlocks v S.toNat i.toNat L.toNat).map Nat.toUInt64)
  | 0, _, _, hfuel => absurd hfuel (Nat.not_lt_zero _)
  | fuel + 1, i, hSi, hfuel => by
    rw [emitLoop]
    by_cases hi : i ≤ L
    swap
    · rw [if_neg hi, setBlocks_of_lt (by rw [UInt64.le_iff_toNat_le] at hi; omega)]
      rfl
    rw [if_pos hi]
    have hi' : i.toNat ≤ L.toNat := UInt64.le_iff_toNat_le.mp hi
    -- the byte of block `i`, in range
    have hidx : ((i - S) / 8).toNat = (i.toNat - S.toNat) / 8 := by
      rw [UInt64.toNat_div, UInt64.toNat_sub_of_le _ _ (UInt64.le_iff_toNat_le.mpr hSi)]
      rfl
    have hlt : (i.toNat - S.toNat) / 8 < v.length := by omega
    rw [hidx, List.getElem?_eq_getElem hlt]
    dsimp only
    have hbyte : ∀ k, i.toNat - S.toNat ≤ k - S.toNat → (k - S.toNat) / 8 = (i.toNat - S.toNat) / 8 →
        test v (k - S.toNat) = bitOf v[(i.toNat - S.toNat) / 8] ((k - S.toNat) % 8) := by
      intro k _ hk
      rw [test, hk, List.getD_eq_getElem?_getD, List.getElem?_eq_getElem hlt, Option.getD_some]
    have hi1 : (i + 1).toNat = i.toNat + 1 := toNat_add_one_of_lt (by omega)
    by_cases hzero : v[(i.toNat - S.toNat) / 8] = 0
    · rw [if_pos hzero]
      by_cases halign : i % 8 = 0
      · -- a zero byte at its start: its eight blocks are skipped
        rw [if_pos halign]
        have halign' := (mod_eight_eq_zero_iff i).mp halign
        have hi8 := toNat_add_eight_of_lt (i := i) (by omega)
        have hskip : setBlocks v S.toNat i.toNat L.toNat = setBlocks v S.toNat (i.toNat + 8) L.toNat :=
          setBlocks_skip_byte fun k hk hk8 => by rw [hbyte k (by omega) (by omega), hzero, bitOf_zero]
        rw [emitLoop_eq hS hL hlen fuel (i + 7 + 1) (by omega) (by omega), hi8, hskip]
      · rw [if_neg halign, emitLoop_eq hS hL hlen fuel (i + 1) (by omega) (by omega), hi1,
          setBlocks_cons hi', hbyte _ le_rfl rfl, hzero, bitOf_zero]
        rfl
    · rw [if_neg hzero]
      -- the source's mask for block `i` is the bitmap's
      have hmask : (1 : UInt8) <<< (7 - i % 8).toUInt8 = mask ((i.toNat - S.toNat) % 8) := by
        rw [toUInt8_seven_sub, show (i.toNat - S.toNat) % 8 = i.toNat % 8 by omega]
        exact Generator.shiftLeft_eq_mask (Nat.mod_lt _ (by omega))
      have hbit : test v (i.toNat - S.toNat) = true ↔
          v[(i.toNat - S.toNat) / 8] &&& 1 <<< (7 - i % 8).toUInt8 ≠ 0 := by
        rw [hbyte _ le_rfl rfl, hmask, bitOf, bne_iff_ne]
      rw [emitLoop_eq hS hL hlen fuel (i + 1) (by omega) (by omega), hi1, setBlocks_cons hi']
      by_cases hset : v[(i.toNat - S.toNat) / 8] &&& 1 <<< (7 - i % 8).toUInt8 ≠ 0
      · -- a set bit sends block `i`
        rw [if_pos hset, if_pos (hbit.mpr hset), List.singleton_append, List.map_cons,
          Nat.toUInt64_eq, UInt64.ofNat_toNat]
        rfl
      · rw [if_neg hset, if_neg (mt hbit.mp hset), List.nil_append]

end RpcNetwork.Core.Bloombits
