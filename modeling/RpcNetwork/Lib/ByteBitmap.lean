import Mathlib

/-!
# Bitmaps packed most-significant-bit first into bytes

A bitmap over positions `0, 1, 2, …` stored in a byte list keeps position
`pos` in byte `pos / 8`, at bit `pos % 8` counted from the top: the mask is
`0x80 >>> (pos % 8)`.  Two writes are common in such code:

* `setBit` — or the single mask into its byte;
* `setRun8` — set the eight positions `pos, …, pos + 7` at once, which
  straddle two bytes unless `pos` is byte aligned: the low `8 - pos % 8`
  bits of byte `pos / 8` (`0xFF >>> k`) and the high `pos % 8` bits of the
  next byte (`~~~(0xFF >>> k)`).

The lemmas say what a read sees after each write (`test_setBit`,
`test_setRun8`), given that the bytes written exist.  The byte-level facts
under them are decided once over the eight bit positions.

`andBytes`, `orBytes`, `testBytes` and `copyBytes` are `common/bitutil`'s,
read back bit by bit (`test_andBytes`, `test_orBytes`,
`testBytes_eq_false_iff`).

`Represents n p v` says that `v` is a bitmap of `n` bytes whose bit `s` is
`p s`; the combinations above then act on the predicates, `andBytes` as `&&`
and `orBytes` as `||`, which is how a pipeline of them is read.
-/

namespace ByteBitmap

/-- The mask selecting bit `j` of a byte, counted from the most significant
end. -/
def mask (j : ℕ) : UInt8 := 0x80 >>> j.toUInt8

/-- Whether byte `x` has bit `j`, counted from the top, set. -/
def bitOf (x : UInt8) (j : ℕ) : Bool := x &&& mask j != 0

/-- Bit `pos` of a bitmap; bytes past the end read as zero. -/
def test (bits : List UInt8) (pos : ℕ) : Bool := bitOf (bits.getD (pos / 8) 0) (pos % 8)

/-- Set bit `pos`. -/
def setBit (bits : List UInt8) (pos : ℕ) : List UInt8 :=
  bits.modify (pos / 8) (· ||| mask (pos % 8))

/-- Set the eight bits `pos, …, pos + 7`. -/
def setRun8 (bits : List UInt8) (pos : ℕ) : List UInt8 :=
  (bits.modify (pos / 8) (· ||| 0xFF >>> (pos % 8).toUInt8)).modify (pos / 8 + 1)
    (· ||| ~~~(0xFF >>> (pos % 8).toUInt8))

/-- `ANDBytes(a, a, b)`: and `b` into `a` over their common length; the rest of
`a` stays. -/
def andBytes : List UInt8 → List UInt8 → List UInt8
  | x :: a, y :: b => (x &&& y) :: andBytes a b
  | a, _ => a

/-- `ORBytes(a, a, b)`: or `b` into `a` over their common length; the rest of
`a` stays. -/
def orBytes : List UInt8 → List UInt8 → List UInt8
  | x :: a, y :: b => (x ||| y) :: orBytes a b
  | a, _ => a

/-- `TestBytes(p)`: whether any bit is set. -/
def testBytes (bits : List UInt8) : Bool := bits.any (· != 0)

/-- `make([]byte, n)` with `data` copied in. -/
def copyBytes (n : ℕ) (data : List UInt8) : List UInt8 := (data ++ List.replicate n 0).take n

/-! ### Bytes -/

theorem bitOf_or (x y : UInt8) (j : ℕ) : bitOf (x ||| y) j = (bitOf x j || bitOf y j) := by
  have h : (x ||| y) &&& mask j = (x &&& mask j) ||| (y &&& mask j) := by
    apply UInt8.toBitVec_inj.mp
    simp only [UInt8.toBitVec_and, UInt8.toBitVec_or, BitVec.and_or_distrib_right]
  rw [bitOf, bitOf, bitOf, h, Bool.eq_iff_iff]
  simp only [bne_iff_ne, ne_eq, UInt8.or_eq_zero_iff, not_and_or, Bool.or_eq_true]

@[simp] theorem bitOf_zero (j : ℕ) : bitOf 0 j = false := by
  simp [bitOf]

-- The mask of bit `j` from the top is bit `7 - j` from the bottom.
theorem toBitVec_mask {j : ℕ} (hj : j < 8) : (mask j).toBitVec = BitVec.twoPow 8 (7 - j) := by
  have : ∀ j : Fin 8, (mask j).toBitVec = BitVec.twoPow 8 (7 - j.val) := by decide
  exact this ⟨j, hj⟩

theorem bitOf_eq_getLsbD (x : UInt8) {j : ℕ} (hj : j < 8) :
    bitOf x j = x.toBitVec.getLsbD (7 - j) := by
  have hbv : (x &&& mask j).toBitVec =
      if x.toBitVec.getLsbD (7 - j) then BitVec.twoPow 8 (7 - j) else 0#8 := by
    rw [UInt8.toBitVec_and, toBitVec_mask hj, BitVec.and_twoPow]
  rw [bitOf, Bool.eq_iff_iff, bne_iff_ne, ne_eq, ← UInt8.toBitVec_inj, hbv]
  split_ifs with h
  · simp only [h, iff_true]
    intro h0
    have := congrArg (fun v => v.getLsbD (7 - j)) h0
    simp [BitVec.getLsbD_twoPow] at this
    omega
  · simp [h]

theorem bitOf_and (x y : UInt8) {j : ℕ} (hj : j < 8) :
    bitOf (x &&& y) j = (bitOf x j && bitOf y j) := by
  rw [bitOf_eq_getLsbD _ hj, bitOf_eq_getLsbD _ hj, bitOf_eq_getLsbD _ hj, UInt8.toBitVec_and,
    BitVec.getLsbD_and]

/-- A byte is zero exactly when none of its eight bits is set. -/
theorem eq_zero_iff_bitOf {x : UInt8} : x = 0 ↔ ∀ j < 8, bitOf x j = false := by
  constructor
  · rintro rfl j -
    exact bitOf_zero j
  · intro hx
    apply UInt8.toBitVec_inj.mp
    apply BitVec.eq_of_getLsbD_eq
    intro i hi
    have := hx (7 - i) (by omega)
    rw [bitOf_eq_getLsbD _ (by omega), show 7 - (7 - i) = i by omega] at this
    simp [this]

-- The three constant masks, decided over the eight positions of a byte.
theorem bitOf_mask {k j : ℕ} (hk : k < 8) (hj : j < 8) : bitOf (mask k) j = (k == j) := by
  have : ∀ k j : Fin 8, bitOf (mask k) j = (k.val == j.val) := by decide
  exact this ⟨k, hk⟩ ⟨j, hj⟩

theorem bitOf_low {k j : ℕ} (hk : k < 8) (hj : j < 8) :
    bitOf (0xFF >>> k.toUInt8) j = decide (k ≤ j) := by
  have : ∀ k j : Fin 8, bitOf (0xFF >>> k.val.toUInt8) j = decide (k.val ≤ j.val) := by
    decide
  exact this ⟨k, hk⟩ ⟨j, hj⟩

theorem bitOf_high {k j : ℕ} (hk : k < 8) (hj : j < 8) :
    bitOf (~~~(0xFF >>> k.toUInt8)) j = decide (j < k) := by
  have : ∀ k j : Fin 8, bitOf (~~~(0xFF >>> k.val.toUInt8)) j = decide (j.val < k.val) := by
    decide
  exact this ⟨k, hk⟩ ⟨j, hj⟩

/-! ### Byte lists -/

theorem getD_modify_self {l : List UInt8} {i : ℕ} (f : UInt8 → UInt8) (h : i < l.length) :
    (l.modify i f).getD i 0 = f (l.getD i 0) := by
  simp [List.getD_eq_getElem?_getD, h]

theorem getD_modify_ne (l : List UInt8) {i j : ℕ} (f : UInt8 → UInt8) (h : i ≠ j) :
    (l.modify i f).getD j 0 = l.getD j 0 := by
  simp [List.getD_eq_getElem?_getD, h]

@[simp] theorem length_setBit (bits : List UInt8) (pos : ℕ) :
    (setBit bits pos).length = bits.length := by
  simp [setBit]

@[simp] theorem length_setRun8 (bits : List UInt8) (pos : ℕ) :
    (setRun8 bits pos).length = bits.length := by
  simp [setRun8]

@[simp] theorem test_replicate_zero (n pos : ℕ) : test (List.replicate n 0) pos = false := by
  simp [test, List.getD_eq_getElem?_getD, List.getElem?_replicate]
  split <;> simp

/-- **Setting one bit** sets bit `pos` and keeps every other bit. -/
theorem test_setBit {bits : List UInt8} {pos : ℕ} (h : pos / 8 < bits.length) (q : ℕ) :
    test (setBit bits pos) q = (test bits q || q == pos) := by
  unfold test setBit
  by_cases hq : pos / 8 = q / 8
  · rw [hq, getD_modify_self _ (hq ▸ h), bitOf_or, bitOf_mask (by omega) (by omega)]
    congr 1
    rw [Bool.eq_iff_iff]
    simp only [beq_iff_eq]
    omega
  · rw [getD_modify_ne _ _ hq]
    have : q ≠ pos := fun h => hq (h ▸ rfl)
    simp [this]

/-- **Setting eight bits** sets `pos, …, pos + 7` and keeps every other bit,
whether or not the run straddles a byte boundary. -/
theorem test_setRun8 {bits : List UInt8} {pos : ℕ} (h : pos / 8 + 1 < bits.length) (q : ℕ) :
    test (setRun8 bits pos) q = (test bits q || decide (pos ≤ q ∧ q < pos + 8)) := by
  unfold test setRun8
  by_cases hlo : pos / 8 = q / 8
  · -- the first byte holds the run's positions from `pos % 8` on
    rw [getD_modify_ne _ _ (by omega), hlo, getD_modify_self _ (by omega), bitOf_or,
      bitOf_low (by omega) (by omega)]
    congr 1
    simp only [decide_eq_decide]
    omega
  · by_cases hhi : pos / 8 + 1 = q / 8
    · -- the second byte holds the rest, below `pos % 8`
      rw [hhi, getD_modify_self _ (by simp; omega), getD_modify_ne _ _ hlo, bitOf_or,
        bitOf_high (by omega) (by omega)]
      congr 1
      simp only [decide_eq_decide]
      omega
    · rw [getD_modify_ne _ _ hhi, getD_modify_ne _ _ hlo]
      have : ¬ (pos ≤ q ∧ q < pos + 8) := by omega
      simp [this]

/-! ### Byte-wise operations -/

@[simp] theorem length_andBytes : ∀ a b : List UInt8, (andBytes a b).length = a.length
  | _ :: a, _ :: b => by simp [andBytes, length_andBytes a b]
  | [], _ => rfl
  | _ :: _, [] => rfl

@[simp] theorem length_orBytes : ∀ a b : List UInt8, (orBytes a b).length = a.length
  | _ :: a, _ :: b => by simp [orBytes, length_orBytes a b]
  | [], _ => rfl
  | _ :: _, [] => rfl

theorem getD_andBytes : ∀ {a b : List UInt8}, a.length ≤ b.length → ∀ i,
    (andBytes a b).getD i 0 = a.getD i 0 &&& b.getD i 0
  | [], _, _, i => by simp [andBytes]
  | _ :: _, [], h, _ => absurd h (by simp)
  | x :: a, y :: b, h, 0 => rfl
  | x :: a, y :: b, h, i + 1 => by
    simp only [andBytes, List.getD_cons_succ]
    exact getD_andBytes (by simpa using h) i

theorem getD_orBytes : ∀ {a b : List UInt8}, b.length ≤ a.length → ∀ i,
    (orBytes a b).getD i 0 = a.getD i 0 ||| b.getD i 0
  | _, [], _, i => by cases ‹List UInt8› <;> simp [orBytes]
  | [], _ :: _, h, _ => absurd h (by simp)
  | x :: a, y :: b, h, 0 => rfl
  | x :: a, y :: b, h, i + 1 => by
    simp only [orBytes, List.getD_cons_succ]
    exact getD_orBytes (by simpa using h) i

/-- Anding bitmaps ands their bits, where the first is no longer. -/
theorem test_andBytes {a b : List UInt8} (h : a.length ≤ b.length) (pos : ℕ) :
    test (andBytes a b) pos = (test a pos && test b pos) := by
  rw [test, getD_andBytes h, bitOf_and _ _ (Nat.mod_lt _ (by omega))]
  rfl

/-- Oring bitmaps ors their bits, where the second is no longer. -/
theorem test_orBytes {a b : List UInt8} (h : b.length ≤ a.length) (pos : ℕ) :
    test (orBytes a b) pos = (test a pos || test b pos) := by
  rw [test, getD_orBytes h, bitOf_or]
  rfl

/-- A bitmap tests empty exactly when none of its bits is set. -/
theorem testBytes_eq_false_iff {bits : List UInt8} :
    testBytes bits = false ↔ ∀ pos, test bits pos = false := by
  rw [testBytes, List.any_eq_false]
  constructor
  · intro h pos
    rw [test]
    have hbyte : bits.getD (pos / 8) 0 = 0 := by
      rw [List.getD_eq_getElem?_getD]
      cases hget : bits[pos / 8]? with
      | none => rfl
      | some x => simpa using h x (List.mem_of_getElem? hget)
    rw [hbyte]
    exact bitOf_zero _
  · intro h x hx
    obtain ⟨i, hi, rfl⟩ := List.getElem_of_mem hx
    have hzero : bits[i] = 0 := eq_zero_iff_bitOf.mpr fun j hj => by
      have := h (8 * i + j)
      rwa [test, show (8 * i + j) / 8 = i by omega, show (8 * i + j) % 8 = j by omega,
        List.getD_eq_getElem?_getD, List.getElem?_eq_getElem hi, Option.getD_some] at this
    simp [hzero]

theorem copyBytes_of_length {n : ℕ} {data : List UInt8} (h : data.length = n) :
    copyBytes n data = data := by
  rw [copyBytes, ← h, List.take_left']
  rfl

/-- A bitmap of `n` full bytes has its first `8 * n` bits set. -/
theorem test_replicate_ff (n pos : ℕ) : test (List.replicate n 0xFF) pos = decide (pos < 8 * n) := by
  have hff : ∀ j : Fin 8, bitOf 0xFF j = true := by decide
  rw [test, List.getD_eq_getElem?_getD, List.getElem?_replicate]
  by_cases hpos : pos < 8 * n
  · rw [if_pos (by omega), Option.getD_some, hff ⟨pos % 8, Nat.mod_lt _ (by omega)⟩, decide_eq_true hpos]
  · rw [if_neg (by omega), Option.getD_none, bitOf_zero, decide_eq_false hpos]

/-- Bytes past the end of a bitmap read as zero. -/
theorem test_of_length_le {bits : List UInt8} {pos : ℕ} (h : 8 * bits.length ≤ pos) :
    test bits pos = false := by
  rw [test, List.getD_eq_getElem?_getD, List.getElem?_eq_none (by omega), Option.getD_none,
    bitOf_zero]

/-! ### Bitmaps of a predicate -/

/-- `v` is a bitmap of `n` bytes whose bit `s` is `p s`, for every position
it holds. -/
structure Represents (n : ℕ) (p : ℕ → Bool) (v : List UInt8) : Prop where
  length_eq : v.length = n
  test_eq : ∀ s < 8 * n, test v s = p s

namespace Represents

variable {n : ℕ} {p q : ℕ → Bool} {a b : List UInt8}

theorem of_length (h : a.length = n) : Represents n (test a) a := ⟨h, fun _ _ => rfl⟩

theorem congr (ha : Represents n p a) (hpq : ∀ s < 8 * n, p s = q s) : Represents n q a :=
  ⟨ha.length_eq, fun s hs => (ha.test_eq s hs).trans (hpq s hs)⟩

theorem andBytes (ha : Represents n p a) (hb : Represents n q b) :
    Represents n (fun s => p s && q s) (ByteBitmap.andBytes a b) where
  length_eq := by rw [length_andBytes, ha.length_eq]
  test_eq s hs := by
    rw [test_andBytes (by rw [ha.length_eq, hb.length_eq]), ha.test_eq s hs, hb.test_eq s hs]

theorem orBytes (ha : Represents n p a) (hb : Represents n q b) :
    Represents n (fun s => p s || q s) (ByteBitmap.orBytes a b) where
  length_eq := by rw [length_orBytes, ha.length_eq]
  test_eq s hs := by
    rw [test_orBytes (by rw [ha.length_eq, hb.length_eq]), ha.test_eq s hs, hb.test_eq s hs]

theorem copyBytes (ha : Represents n p a) : Represents n p (ByteBitmap.copyBytes n a) := by
  rw [copyBytes_of_length ha.length_eq]
  exact ha

/-- A bitmap of `p` tests empty exactly when `p` holds nowhere in it. -/
theorem testBytes_eq_false_iff (ha : Represents n p a) :
    testBytes a = false ↔ ∀ s < 8 * n, p s = false := by
  rw [ByteBitmap.testBytes_eq_false_iff]
  constructor
  · intro h s hs
    rw [← ha.test_eq s hs]
    exact h s
  · intro h s
    by_cases hs : s < 8 * n
    · rw [ha.test_eq s hs]
      exact h s hs
    · exact test_of_length_le (by rw [ha.length_eq]; omega)

end Represents

theorem represents_replicate_zero (n : ℕ) : Represents n (fun _ => false) (List.replicate n 0) :=
  ⟨List.length_replicate, fun s _ => test_replicate_zero n s⟩

end ByteBitmap
