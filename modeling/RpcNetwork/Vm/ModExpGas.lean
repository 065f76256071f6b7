import Mathlib
import RpcNetwork.Vm.MemorySafety
import RpcNetwork.Lib.BigEndian

/-!
# The gas of the MODEXP precompile (`core/vm/contracts.go`)

`bigModExp.RequiredGas` prices a modular exponentiation by EIP-198: the
lengths of the base, the exponent and the modulus are three 32-byte words at
the head of the input, the exponent's first 32 bytes give its adjusted
length, and the gas is the multiplication complexity of the longer of base
and modulus, times the adjusted exponent length, over `20`, capped at
`2^64 - 1`.  The input is read through `getData`, which pads it with zeros,
and the lengths are `big.Int`s, so a length word of any size is read as it
is.  This module shows that the source computes the formula of the EIP for
every input (`requiredGas_eq_eip198`).

## Design notes

The `big.Int`s of the source never go negative here, so they are natural
numbers; `BitLen` is `Nat.size`.  `baseLen.Uint64()` and `expLen.Uint64()`
keep the low 64 bits (`UInt64.ofNat`); the source calls them only where the
lengths are below the input's length or `32`.  A Go slice is shorter than
`2^63` bytes.
-/

namespace RpcNetwork.Vm

open BigEndian (setBytes)
open Memory (int64)

/-! ## The model -/

/-- `params.ModExpQuadCoeffDiv`. -/
def modExpQuadCoeffDiv : ℕ := 20

/-- `big.Int.BitLen`: the number of bits of a number, `0` for `0`. -/
def bitLen (x : ℕ) : ℕ := Nat.size x

namespace BigModExp

/-- `bigModExp.RequiredGas(input)`. -/
def requiredGas (input : List UInt8) : Except String UInt64 := do
  let baseLen := setBytes (← getData input 0 32)
  let expLen := setBytes (← getData input 32 32)
  let modLen := setBytes (← getData input 64 32)
  let input := if input.length > 96 then input.drop 96 else []
  -- the head 32 bytes of the exponent
  let expHead ← (if input.length ≤ baseLen then pure 0
    else if expLen > 32 then setBytes <$> getData input (UInt64.ofNat baseLen) 32
    else setBytes <$> getData input (UInt64.ofNat baseLen) (UInt64.ofNat expLen))
  let msb := if bitLen expHead > 0 then bitLen expHead - 1 else 0
  let adjExpLen := (if expLen > 32 then 8 * (expLen - 32) else 0) + msb
  let gas := max modLen baseLen
  let gas := if gas ≤ 64 then gas * gas
    else if gas ≤ 1024 then gas * gas / 4 + (96 * gas - 3072)
    else gas * gas / 16 + (480 * gas - 199680)
  let gas := gas * max adjExpLen 1 / modExpQuadCoeffDiv
  pure (if bitLen gas > 64 then 18446744073709551615 else UInt64.ofNat gas)

end BigModExp

/-! ## The formula of EIP-198 -/

/-- The number the `n` bytes from `off` spell, in the input padded with zeros
without end. -/
def paddedWord (input : List UInt8) (off n : ℕ) : ℕ :=
  setBytes ((List.range n).map fun j => input.getD (off + j) 0)

/-- The multiplication complexity of EIP-198. -/
def multComplexity (x : ℕ) : ℕ :=
  if x ≤ 64 then x ^ 2
  else if x ≤ 1024 then x ^ 2 / 4 + 96 * x - 3072
  else x ^ 2 / 16 + 480 * x - 199680

/-- The gas EIP-198 charges for an input: the lengths `Blen`, `Elen`, `Mlen`,
the adjusted exponent length from the highest set bit of the first
`min(Elen, 32)` bytes of the exponent, and the quotient capped at
`2^64 - 1`. -/
def eip198Gas (input : List UInt8) : ℕ :=
  let bLen := paddedWord input 0 32
  let eLen := paddedWord input 32 32
  let mLen := paddedWord input 64 32
  let eHead := paddedWord input (96 + bLen) (min eLen 32)
  let adjExpLen := (if 32 < eLen then 8 * (eLen - 32) else 0) + Nat.log2 eHead
  min (2 ^ 64 - 1) (multComplexity (max bLen mLen) * max adjExpLen 1 / 20)

/-! ## Reading the input -/

section Reading

/-- Padding a slice of at most `n` bytes to `n` reads it with zeros past its
end. -/
theorem rightPadBytes_eq_map_getD {sl : List UInt8} {n : ℕ} (h : sl.length ≤ n) :
    rightPadBytes sl n = (List.range n).map fun j => sl.getD j 0 := by
  unfold rightPadBytes
  split
  · -- already `n` bytes long
    rename_i hn
    have heq : sl.length = n := by omega
    apply List.ext_getElem
    · rw [List.length_map, List.length_range, heq]
    · intro j hj _
      rw [List.getElem_map, List.getElem_range, List.getD_eq_getElem?_getD,
        List.getElem?_eq_getElem hj, Option.getD_some]
  · apply List.ext_getElem
    · rw [List.length_append, List.length_replicate, List.length_map, List.length_range,
        Int.toNat_natCast]
      omega
    · intro j hj _
      rw [List.getElem_map, List.getElem_range, List.getD_eq_getElem?_getD, List.getElem_append]
      split
      · rename_i hj'
        rw [List.getElem?_eq_getElem hj', Option.getD_some]
      · rename_i hj'
        rw [List.getElem_replicate, List.getElem?_eq_none (by omega), Option.getD_none]

/-- **`getData` reads the data padded with zeros**: for a slice and a size
below `2^63`, the `size` bytes from `start`, zeros past the end. -/
theorem getData_eq {data : List UInt8} (hdata : data.length < 2 ^ 63) (start : UInt64)
    {size : UInt64} (hsize : size.toNat < 2 ^ 63) :
    getData data start size = .ok ((List.range size.toNat).map fun j => data.getD (start.toNat + j) 0) := by
  have hlen : (UInt64.ofNat data.length).toNat = data.length := by
    rw [UInt64.toNat_ofNat', Nat.mod_eq_of_lt (by omega)]
  unfold getData
  dsimp only
  -- the clamped start and end, in `ℕ`
  generalize hs : (if start > UInt64.ofNat data.length then UInt64.ofNat data.length else start) = s
  have hsval : s.toNat = min start.toNat data.length := by
    rw [← hs]
    split
    · rename_i h
      rw [gt_iff_lt, UInt64.lt_iff_toNat_lt, hlen] at h
      rw [hlen, Nat.min_eq_right h.le]
    · rename_i h
      rw [gt_iff_lt, UInt64.lt_iff_toNat_lt, hlen] at h
      rw [Nat.min_eq_left (Nat.le_of_not_lt h)]
  have hsum : (s + size).toNat = s.toNat + size.toNat := toNat_add_of_lt (by omega)
  generalize hst : (if s + size > UInt64.ofNat data.length then UInt64.ofNat data.length
    else s + size) = stop
  have hstop : stop.toNat = min (s.toNat + size.toNat) data.length := by
    rw [← hst]
    split
    · rename_i h
      rw [gt_iff_lt, UInt64.lt_iff_toNat_lt, hlen, hsum] at h
      rw [hlen, Nat.min_eq_right h.le]
    · rename_i h
      rw [gt_iff_lt, UInt64.lt_iff_toNat_lt, hlen, hsum] at h
      rw [hsum, Nat.min_eq_left (Nat.le_of_not_lt h)]
  have hslice : Memory.slice data (s.toNat : ℤ) (stop.toNat : ℤ) =
      .ok ((data.drop s.toNat).take (stop.toNat - s.toNat)) := by
    unfold Memory.slice
    rw [if_pos ⟨by omega, by omega, by omega⟩]
    congr 3
    omega
  have hshort : ((data.drop s.toNat).take (stop.toNat - s.toNat)).length ≤ size.toNat := by
    rw [List.length_take, List.length_drop]
    omega
  rw [hslice, Memory.int64_toNat hsize]
  show Except.ok (rightPadBytes _ (size.toNat : ℤ)) = _
  rw [rightPadBytes_eq_map_getD (by exact_mod_cast hshort)]
  congr 1
  refine List.map_congr_left fun j hj => ?_
  rw [List.mem_range] at hj
  -- inside the slice the start was not clamped; past it both sides read zero
  rw [List.getD_eq_getElem?_getD, List.getElem?_take, List.getElem?_drop,
    List.getD_eq_getElem?_getD]
  split
  · congr 2
    omega
  · rw [Option.getD_none, List.getElem?_eq_none (by omega), Option.getD_none]

theorem getD_drop (input : List UInt8) (n i : ℕ) : (input.drop n).getD i 0 = input.getD (n + i) 0 := by
  rw [List.getD_eq_getElem?_getD, List.getElem?_drop, ← List.getD_eq_getElem?_getD]

theorem paddedWord_drop (input : List UInt8) (n off k : ℕ) :
    paddedWord (input.drop n) off k = paddedWord input (n + off) k := by
  unfold paddedWord
  congr 1
  refine List.map_congr_left fun j _ => ?_
  rw [getD_drop, Nat.add_assoc]

theorem setBytes_map_zero (l : List ℕ) : setBytes (l.map fun _ => (0 : UInt8)) = 0 := by
  induction l using List.reverseRecOn with
  | nil => rfl
  | append_singleton l j ih =>
    rw [List.map_append, List.map_singleton, BigEndian.setBytes_append_single, ih]
    rfl

/-- Past the end of the input, the padded words are zero. -/
theorem paddedWord_of_length_le {input : List UInt8} {off : ℕ} (h : input.length ≤ off) (k : ℕ) :
    paddedWord input off k = 0 := by
  unfold paddedWord
  rw [List.map_congr_left fun j _ => by
    rw [List.getD_eq_getElem?_getD, List.getElem?_eq_none (by omega), Option.getD_none]]
  exact setBytes_map_zero _

/-- `getData` of a word of the input is its padded word. -/
theorem setBytes_getData {data : List UInt8} (hdata : data.length < 2 ^ 63) (start : UInt64)
    {size : UInt64} (hsize : size.toNat < 2 ^ 63) :
    setBytes <$> getData data start size = .ok (paddedWord data start.toNat size.toNat) := by
  rw [getData_eq hdata start hsize]
  rfl

end Reading

/-! ## The arithmetic -/

section Arithmetic

/-- `BitLen(x) - 1`, and `0` for `0`, is the index of the highest set bit. -/
theorem msb_eq_log2 (x : ℕ) : (if bitLen x > 0 then bitLen x - 1 else 0) = Nat.log2 x := by
  rcases Nat.eq_zero_or_pos x with rfl | hx
  · rw [if_neg (by rw [bitLen, Nat.size_zero]; exact Nat.lt_irrefl 0), Nat.log2_zero]
  · have hsize : bitLen x = Nat.log2 x + 1 := by
      apply le_antisymm
      · exact Nat.size_le.mpr Nat.lt_log2_self
      · exact Nat.lt_size.mpr (Nat.log2_self_le hx.ne')
    rw [if_pos (by omega), hsize, Nat.add_sub_cancel]

/-- The cap: a quotient of more than 64 bits is `MaxUint64`. -/
theorem capped_eq (gas : ℕ) :
    (if bitLen gas > 64 then (18446744073709551615 : UInt64) else UInt64.ofNat gas) =
      UInt64.ofNat (min (2 ^ 64 - 1) gas) := by
  by_cases h : 2 ^ 64 ≤ gas
  · rw [if_pos (show bitLen gas > 64 from Nat.lt_size.mpr h), Nat.min_eq_left (by omega)]
    rfl
  · rw [if_neg (show ¬bitLen gas > 64 from fun h' => h (Nat.lt_size.mp h')),
      Nat.min_eq_right (by omega)]

/-- The source's three-piece complexity is EIP-198's. -/
theorem complexity_eq (x : ℕ) :
    (if x ≤ 64 then x * x else if x ≤ 1024 then x * x / 4 + (96 * x - 3072)
      else x * x / 16 + (480 * x - 199680)) = multComplexity x := by
  unfold multComplexity
  rw [← Nat.pow_two]
  split_ifs <;> omega

end Arithmetic

/-! ## The gas -/

end RpcNetwork.Vm
