import Mathlib

/-!
# Big-endian byte order

`encoding/binary`'s `BigEndian` for 16-, 32- and 64-bit words: the `Put` functions
write the bytes most significant first, and the readers `or` the shifted bytes
back together.  For wider words, `putNat n` writes the low `n` bytes of a
number and `setBytes` (`big.Int.SetBytes`) reads any number of bytes back.

## Design notes

A byte slice is a `List UInt8`.  The readers take `getD _ 0` where Go indexes
the slice: the callers always pass a long enough buffer, where the two agree.
The round trips go through `toNat`: the shifted bytes occupy disjoint bit
ranges, so their `or` is their sum (`Nat.shiftLeft_add_eq_or_of_lt`).
-/

namespace RpcNetwork.BigEndian

/-- `binary.BigEndian.PutUint16`. -/
def putUint16 (v : UInt16) : List UInt8 := [(v >>> 8).toUInt8, v.toUInt8]

/-- `binary.BigEndian.Uint16`. -/
def uint16 (b : List UInt8) : UInt16 := (b.getD 1 0).toUInt16 ||| (b.getD 0 0).toUInt16 <<< 8

/-- `binary.BigEndian.PutUint32`. -/
def putUint32 (v : UInt32) : List UInt8 :=
  [(v >>> 24).toUInt8, (v >>> 16).toUInt8, (v >>> 8).toUInt8, v.toUInt8]

/-- `binary.BigEndian.Uint32`. -/
def uint32 (b : List UInt8) : UInt32 :=
  (b.getD 3 0).toUInt32 ||| (b.getD 2 0).toUInt32 <<< 8 ||| (b.getD 1 0).toUInt32 <<< 16 |||
    (b.getD 0 0).toUInt32 <<< 24

/-- `binary.BigEndian.PutUint64`. -/
def putUint64 (v : UInt64) : List UInt8 :=
  [(v >>> 56).toUInt8, (v >>> 48).toUInt8, (v >>> 40).toUInt8, (v >>> 32).toUInt8,
    (v >>> 24).toUInt8, (v >>> 16).toUInt8, (v >>> 8).toUInt8, v.toUInt8]

/-- `binary.BigEndian.Uint64`. -/
def uint64 (b : List UInt8) : UInt64 :=
  (b.getD 7 0).toUInt64 ||| (b.getD 6 0).toUInt64 <<< 8 ||| (b.getD 5 0).toUInt64 <<< 16 |||
    (b.getD 4 0).toUInt64 <<< 24 ||| (b.getD 3 0).toUInt64 <<< 32 ||| (b.getD 2 0).toUInt64 <<< 40 |||
    (b.getD 1 0).toUInt64 <<< 48 ||| (b.getD 0 0).toUInt64 <<< 56

@[simp] theorem length_putUint16 (v : UInt16) : (putUint16 v).length = 2 := rfl

@[simp] theorem length_putUint32 (v : UInt32) : (putUint32 v).length = 4 := rfl

/-- Or-ing a word below `2 ^ k` with a word shifted by `k` adds them. -/
theorem or_shiftLeft_eq_add {a b k : ℕ} (h : a < 2 ^ k) : a ||| b <<< k = b * 2 ^ k + a := by
  rw [Nat.or_comm, ← Nat.shiftLeft_add_eq_or_of_lt h, Nat.shiftLeft_eq]

theorem uint16_putUint16 (v : UInt16) : uint16 (putUint16 v) = v := by
  apply UInt16.toNat_inj.mp
  simp only [uint16, putUint16, List.getD_cons_succ, List.getD_cons_zero, UInt16.toNat_or,
    UInt16.toNat_shiftLeft, UInt8.toNat_toUInt16, UInt16.toNat_toUInt8, UInt16.toNat_shiftRight,
    UInt16.reduceToNat, Nat.reduceMod, Nat.shiftRight_eq_div_pow]
  have hv := v.toNat_lt
  have h1 : (v.toNat / 2 ^ 8 % 2 ^ 8) <<< 8 % 2 ^ 16 = (v.toNat / 2 ^ 8 % 2 ^ 8) <<< 8 := by
    rw [Nat.shiftLeft_eq]; omega
  rw [h1, or_shiftLeft_eq_add (Nat.mod_lt _ (by decide))]
  omega

theorem uint32_putUint32 (v : UInt32) : uint32 (putUint32 v) = v := by
  apply UInt32.toNat_inj.mp
  simp only [uint32, putUint32, List.getD_cons_succ, List.getD_cons_zero, UInt32.toNat_or,
    UInt32.toNat_shiftLeft, UInt8.toNat_toUInt32, UInt32.toNat_toUInt8, UInt32.toNat_shiftRight,
    UInt32.reduceToNat, Nat.reduceMod, Nat.shiftRight_eq_div_pow]
  have hv := v.toNat_lt
  have h1 : (v.toNat / 2 ^ 8 % 2 ^ 8) <<< 8 % 2 ^ 32 = (v.toNat / 2 ^ 8 % 2 ^ 8) <<< 8 := by
    rw [Nat.shiftLeft_eq]; omega
  have h2 : (v.toNat / 2 ^ 16 % 2 ^ 8) <<< 16 % 2 ^ 32 = (v.toNat / 2 ^ 16 % 2 ^ 8) <<< 16 := by
    rw [Nat.shiftLeft_eq]; omega
  have h3 : (v.toNat / 2 ^ 24 % 2 ^ 8) <<< 24 % 2 ^ 32 = (v.toNat / 2 ^ 24 % 2 ^ 8) <<< 24 := by
    rw [Nat.shiftLeft_eq]; omega
  -- each lane lies below the next, so the `or`s are sums, innermost first
  rw [h1, h2, h3, or_shiftLeft_eq_add (a := v.toNat % 2 ^ 8) (by omega),
    or_shiftLeft_eq_add (a := v.toNat / 2 ^ 8 % 2 ^ 8 * 2 ^ 8 + v.toNat % 2 ^ 8) (by omega),
    or_shiftLeft_eq_add (by omega)]
  omega

/-- The `n`-byte big-endian encoding of `x`, cut to its low `n` bytes. -/
def putNat : ℕ → ℕ → List UInt8
  | 0, _ => []
  | n + 1, x => putNat n (x / 256) ++ [(x % 256).toUInt8]

/-- Big-endian bytes read as a number (`new(big.Int).SetBytes`). -/
def setBytes (b : List UInt8) : ℕ := b.foldl (fun acc x => acc * 256 + x.toNat) 0

@[simp] theorem length_putNat (n x : ℕ) : (putNat n x).length = n := by
  induction n generalizing x with
  | zero => rfl
  | succ n ih => rw [putNat, List.length_append, ih, List.length_singleton]

theorem setBytes_append_single (b : List UInt8) (y : UInt8) :
    setBytes (b ++ [y]) = setBytes b * 256 + y.toNat := by
  rw [setBytes, List.foldl_append, List.foldl_cons, List.foldl_nil, ← setBytes]

/-- Reading on from an accumulator: the bytes read so far shift past the rest. -/
theorem foldl_setBytes (acc : ℕ) (b : List UInt8) :
    b.foldl (fun acc x => acc * 256 + x.toNat) acc = acc * 256 ^ b.length + setBytes b := by
  induction b generalizing acc with
  | nil => simp [setBytes]
  | cons y b ih =>
    have hy : setBytes (y :: b) = y.toNat * 256 ^ b.length + setBytes b := by
      rw [setBytes, List.foldl_cons, ih, Nat.zero_mul, Nat.zero_add]
    rw [List.foldl_cons, ih, hy, List.length_cons, Nat.pow_succ, Nat.add_mul, Nat.mul_assoc,
      Nat.mul_comm 256, Nat.add_assoc]

/-- The leading byte weighs `256` to the number of bytes after it. -/
theorem setBytes_cons (x : UInt8) (b : List UInt8) :
    setBytes (x :: b) = x.toNat * 256 ^ b.length + setBytes b := by
  rw [setBytes, List.foldl_cons, foldl_setBytes, Nat.zero_mul, Nat.zero_add]

theorem setBytes_lt (b : List UInt8) : setBytes b < 256 ^ b.length := by
  induction b with
  | nil => simp [setBytes]
  | cons x b ih =>
    have hx : x.toNat + 1 ≤ 256 := x.toNat_lt
    calc setBytes (x :: b) = x.toNat * 256 ^ b.length + setBytes b := setBytes_cons x b
      _ < (x.toNat + 1) * 256 ^ b.length := by rw [Nat.succ_mul]; omega
      _ ≤ 256 * 256 ^ b.length := Nat.mul_le_mul_right _ hx
      _ = 256 ^ (x :: b).length := by rw [List.length_cons, Nat.pow_succ, Nat.mul_comm]

/-- Of two numbers of one width, the one with the smaller leading byte is smaller. -/
theorem setBytes_cons_lt_of_lt {x y : UInt8} (hxy : x < y) {b c : List UInt8}
    (hlen : b.length = c.length) : setBytes (x :: b) < setBytes (y :: c) := by
  have hxy' : x.toNat + 1 ≤ y.toNat := UInt8.lt_iff_toNat_lt.mp hxy
  calc setBytes (x :: b) = x.toNat * 256 ^ b.length + setBytes b := setBytes_cons x b
    _ < (x.toNat + 1) * 256 ^ b.length := by rw [Nat.succ_mul]; have := setBytes_lt b; omega
    _ ≤ y.toNat * 256 ^ c.length := by rw [hlen]; exact Nat.mul_le_mul_right _ hxy'
    _ ≤ setBytes (y :: c) := by rw [setBytes_cons]; omega

theorem setBytes_putNat (n x : ℕ) : setBytes (putNat n x) = x % 256 ^ n := by
  induction n generalizing x with
  | zero => rw [Nat.pow_zero, Nat.mod_one]; rfl
  | succ n ih =>
    have hbyte : (x % 256).toUInt8.toNat = x % 256 := by
      rw [Nat.toUInt8_eq, UInt8.toNat_ofNat', show (2 : ℕ) ^ 8 = 256 from rfl, Nat.mod_mod]
    rw [putNat, setBytes_append_single, ih, hbyte, Nat.pow_succ, Nat.mul_comm (256 ^ n), Nat.mod_mul]
    omega

/-- Bytes read as a number and written back in as many bytes are the bytes. -/
theorem putNat_setBytes (b : List UInt8) : putNat b.length (setBytes b) = b := by
  induction b using List.reverseRecOn with
  | nil => rfl
  | append_singleton b y ih =>
    have hy := y.toNat_lt
    have hdiv : (setBytes b * 256 + y.toNat) / 256 = setBytes b := by omega
    have hmod : (setBytes b * 256 + y.toNat) % 256 = y.toNat := by omega
    rw [List.length_append, List.length_singleton, putNat, setBytes_append_single, hdiv, hmod, ih,
      Nat.toUInt8_eq, UInt8.ofNat_toNat]

/-- A leading byte that is not zero puts the number at least at `256` to the
number of bytes after it. -/
theorem pow_le_setBytes_cons {x : UInt8} (hx : x ≠ 0) (b : List UInt8) :
    256 ^ b.length ≤ setBytes (x :: b) := by
  have hpos : 1 ≤ x.toNat := Nat.one_le_iff_ne_zero.mpr fun h => hx (UInt8.toNat_inj.mp h)
  rw [setBytes_cons]
  calc 256 ^ b.length = 1 * 256 ^ b.length := (Nat.one_mul _).symm
    _ ≤ x.toNat * 256 ^ b.length := Nat.mul_le_mul_right _ hpos
    _ ≤ x.toNat * 256 ^ b.length + setBytes b := Nat.le_add_right _ _

end RpcNetwork.BigEndian
