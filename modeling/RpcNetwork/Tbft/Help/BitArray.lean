import RpcNetwork.Lib.MachineWord

/-!
# Bit arrays (`help/bit_array.go`)

`help.BitArray` is a packed bit set: `Bits` is its size and bit `i` lives in
bit `i % 64` of the word `Elems[i / 64]`.  It is held through a pointer that may
be nil (`NewBitArray(0)`), so the model works on `Option BitArray`.

## Design notes

Go indexes `Elems[i / 64]` only after checking `i < Bits`; on a well-formed
array that index is in range.  The model reads with `getD _ 0` and writes with
`List.set`, which agree with Go there.  No caller reads `SetIndex`'s flag.

`bit` reads a stored bit whether or not it is below `Bits`; `getIndex_eq_bit`
says `GetIndex` is that bit cut off at `Bits`.  Later modules set bits
only through `getIndex_setIndex` and `bit_set_word`.
-/

namespace RpcNetwork.Tbft.Help

/-- A packed bit array: `bits` bits stored little-endian in 64-bit words. -/
structure BitArray where
  bits : ℕ
  elems : List UInt64
  deriving DecidableEq, Repr

namespace BitArray

/-- The word mask `uint64(1) << uint(i % 64)` for bit `i`. -/
def mask (i : ℕ) : UInt64 :=
  (1 : UInt64) <<< (i % 64).toUInt64

/-- `NewBitArray(bits)`: nil for zero bits, otherwise `(bits + 63) / 64` zero
words. -/
def newBitArray (bits : ℕ) : Option BitArray :=
  if bits = 0 then none else some ⟨bits, List.replicate ((bits + 63) / 64) 0⟩

/-- `Size()`: zero for the nil array. -/
def size : Option BitArray → ℕ
  | none => 0
  | some bA => bA.bits

/-- `GetIndex(i)`: false for the nil array and for `i ≥ Bits`, else bit
`i % 64` of word `i / 64`. -/
def getIndex : Option BitArray → ℕ → Bool
  | none, _ => false
  | some bA, i =>
      if bA.bits ≤ i then false
      else decide (bA.elems.getD (i / 64) 0 &&& mask i > 0)

/-- `SetIndex(i, v)`: nothing happens on the nil array or for `i ≥ Bits`;
otherwise bit `i` is or-ed in (`v`) or masked out (`¬v`). -/
def setIndex : Option BitArray → ℕ → Bool → Option BitArray
  | none, _, _ => none
  | some bA, i, v =>
      if bA.bits ≤ i then some bA
      else
        let w := bA.elems.getD (i / 64) 0
        some { bA with elems := bA.elems.set (i / 64) (if v then w ||| mask i else w &&& ~~~mask i) }

/-- `Copy()`: a fresh array with the same words; nil stays nil.  Arrays are
values in the model, so the copy is the array itself. -/
def copy (bA : Option BitArray) : Option BitArray := bA

/-- The shape every constructor of the package produces: one word per 64 bits. -/
def WellFormed : Option BitArray → Prop
  | none => True
  | some bA => bA.elems.length = (bA.bits + 63) / 64

/-- Bit `i` as stored: bit `i % 64` of word `i / 64`, and clear past the last
word.  At or past `Bits` it is a straggler bit, which `GetIndex` never reads. -/
def bit (elems : List UInt64) (i : ℕ) : Bool :=
  (elems.getD (i / 64) 0).toBitVec.getLsbD (i % 64)

/-! ### Spec lemmas -/

@[simp] theorem getIndex_none (i : ℕ) : getIndex none i = false := rfl

@[simp] theorem setIndex_none (i : ℕ) (v : Bool) : setIndex none i v = none := rfl

@[simp] theorem size_setIndex (bA : Option BitArray) (i : ℕ) (v : Bool) :
    size (setIndex bA i v) = size bA := by
  cases bA with
  | none => rfl
  | some b =>
      by_cases hb : b.bits ≤ i <;> simp [setIndex, hb, size]

@[simp] theorem size_newBitArray (n : ℕ) : size (newBitArray n) = n := by
  unfold newBitArray
  split <;> simp_all [size]

theorem wellFormed_newBitArray (n : ℕ) : WellFormed (newBitArray n) := by
  unfold newBitArray
  split <;> simp [WellFormed]

theorem WellFormed.setIndex {bA : Option BitArray} (h : WellFormed bA) (i : ℕ) (v : Bool) :
    WellFormed (BitArray.setIndex bA i v) := by
  cases bA with
  | none => trivial
  | some b =>
      by_cases hb : b.bits ≤ i
      · simpa [BitArray.setIndex, hb] using h
      · simpa [BitArray.setIndex, hb, WellFormed] using h

/-- A fresh array has no bit set. -/
@[simp] theorem getIndex_newBitArray (n i : ℕ) : getIndex (newBitArray n) i = false := by
  unfold newBitArray
  split
  · rfl
  · rename_i hn
    simp only [getIndex]
    split
    · rfl
    · have hw : (List.replicate ((n + 63) / 64) (0 : UInt64)).getD (i / 64) 0 = 0 := by
        simp [List.getD_eq_getElem?_getD, List.getElem?_replicate]
        split <;> rfl
      rw [hw]
      simp

/-- `GetIndex` reads the stored bit below `Bits` and nothing at or past it. -/
theorem getIndex_eq_bit (bA : BitArray) (i : ℕ) :
    getIndex (some bA) i = (decide (i < bA.bits) && bit bA.elems i) := by
  simp only [getIndex]
  by_cases hi : bA.bits ≤ i
  · simp [hi, Nat.not_lt.mpr hi]
  · simp only [hi, if_false, Nat.lt_of_not_le hi, decide_true, Bool.true_and, bit]
    exact Bool.eq_iff_iff.mpr (by
      rw [decide_eq_true_iff]
      exact MachineWord.and_mask_pos _ _ (Nat.mod_lt _ (by decide)))

/-- Reading a word of a list after `set` at an index in range. -/
private theorem getD_set_of_lt {l : List UInt64} {k : ℕ} (hk : k < l.length) (x : UInt64) (m : ℕ) :
    (l.set k x).getD m 0 = if k = m then x else l.getD m 0 := by
  simp only [List.getD_eq_getElem?_getD, List.getElem?_set]
  split <;> simp_all

/-- Or-ing in or masking out bit `i` of its word changes the stored bit `i`
and no other. -/
theorem bit_set_word {elems : List UInt64} {i : ℕ} (hi : i / 64 < elems.length) (v : Bool) (j : ℕ) :
    bit (elems.set (i / 64) (if v then elems.getD (i / 64) 0 ||| mask i
        else elems.getD (i / 64) 0 &&& ~~~mask i)) j =
      if j = i then v else bit elems j := by
  unfold bit
  rw [getD_set_of_lt hi]
  by_cases hw : i / 64 = j / 64
  · -- the same word: bit `j % 64` is bit `i % 64` exactly when `j = i`
    rw [if_pos hw, ← hw]
    have hmod : i % 64 < 64 := Nat.mod_lt _ (by decide)
    have hjmod : j % 64 < 64 := Nat.mod_lt _ (by decide)
    have hsame : i % 64 = j % 64 ↔ j = i := by omega
    cases v with
    | true =>
        rw [if_pos rfl, mask, MachineWord.getLsbD_or_mask _ _ _ hmod]
        by_cases hij : j = i
        · simp [hij]
        · simp [hij, hsame]
    | false =>
        rw [if_neg Bool.false_ne_true, mask, MachineWord.getLsbD_and_not_mask _ _ _ hjmod hmod]
        by_cases hij : j = i
        · simp [hij]
        · simp [hij, hsame]
  · -- another word is untouched
    have hji : j ≠ i := fun h => hw (by rw [h])
    rw [if_neg hw, if_neg hji]

/-- **The spec of `SetIndex`.**  On a well-formed array, setting bit `i` to `v`
changes bit `i` (when it is in range) and no other bit. -/
theorem getIndex_setIndex {bA : Option BitArray} (h : WellFormed bA) (i j : ℕ) (v : Bool) :
    getIndex (setIndex bA i v) j =
      if j = i ∧ i < size bA then v else getIndex bA j := by
  cases bA with
  | none => simp [size]
  | some b =>
      change getIndex (setIndex (some b) i v) j = if j = i ∧ i < b.bits then v else getIndex (some b) j
      by_cases hib : b.bits ≤ i
      · have : ¬ (j = i ∧ i < b.bits) := fun hc => absurd hc.2 (Nat.not_lt.mpr hib)
        simp only [setIndex, hib, if_true, this, if_false]
      · have hlen : i / 64 < b.elems.length := by
          simp only [WellFormed] at h
          omega
        simp only [setIndex, hib, if_false]
        rw [getIndex_eq_bit, getIndex_eq_bit, bit_set_word hlen]
        by_cases hji : j = i
        · subst hji
          simp [Nat.lt_of_not_le hib]
        · simp [hji]

end BitArray

end RpcNetwork.Tbft.Help
