import Mathlib
import RpcNetwork.Lib.BigEndian

/-!
# Node identifiers and their XOR distance

`enode.ID` is a 32-byte array, and `DistCmp(target, a, b)` in `p2p/enode/node.go`
compares the distances of `a` and `b` to `target` byte by byte, the first
differing byte of `a ^ target` and `b ^ target` deciding.  The distance the
discovery table means is the XOR metric: `a ^ target` read as a 256-bit number.

## Design notes

The byte loop is `distCmpBytes`, over the three byte lists; `for i := range
target` visits as many bytes as the arrays have, and the three lists have the
same length.  The comparison is proved by induction on that loop, with the
leading byte of a big-endian number outweighing all the bytes after it
(`BigEndian.setBytes_cons_lt_of_lt`).
-/

namespace RpcNetwork.P2p.Enode

open BigEndian

/-- `enode.ID`: a node identifier, `[32]byte`. -/
abbrev ID := Vector UInt8 32

/-- The loop of `DistCmp` over the bytes of `target`, `a` and `b`. -/
def distCmpBytes : List UInt8 → List UInt8 → List UInt8 → ℤ
  | t :: ts, a :: as, b :: bs =>
    let da := a ^^^ t
    let db := b ^^^ t
    if da > db then 1
    else if da < db then -1
    else distCmpBytes ts as bs
  | _, _, _ => 0

/-- `DistCmp`: compares the distances `target ^ a` and `target ^ b`. -/
def distCmp (target a b : ID) : ℤ := distCmpBytes target.toList a.toList b.toList

/-- The XOR distance of `a` to `target`: the bytes of `a ^ target` read as a number. -/
def dist (target a : ID) : ℕ := setBytes (List.zipWith (· ^^^ ·) a.toList target.toList)

/-- The byte loop compares the two XOR distances of byte lists of one length. -/
theorem distCmpBytes_eq_sign : ∀ (ts as bs : List UInt8), as.length = ts.length →
    bs.length = ts.length →
    distCmpBytes ts as bs = Int.sign ((setBytes (List.zipWith (· ^^^ ·) as ts) : ℤ) -
      setBytes (List.zipWith (· ^^^ ·) bs ts))
  | [], [], [], _, _ => rfl
  | t :: ts, a :: as, b :: bs, ha, hb => by
    simp only [List.length_cons, Nat.add_right_cancel_iff] at ha hb
    have hlen : (List.zipWith (· ^^^ ·) as ts).length = (List.zipWith (· ^^^ ·) bs ts).length := by
      rw [List.length_zipWith, List.length_zipWith, ha, hb]
    simp only [distCmpBytes, List.zipWith_cons_cons]
    -- the first differing byte decides; equal bytes pass the comparison on
    split_ifs with hgt hlt
    · symm
      apply Int.sign_eq_one_of_pos
      have := setBytes_cons_lt_of_lt hgt hlen.symm
      omega
    · symm
      apply Int.sign_eq_neg_one_of_neg
      have := setBytes_cons_lt_of_lt hlt hlen
      omega
    · have heq : a ^^^ t = b ^^^ t := UInt8.le_antisymm (UInt8.not_lt.mp hgt) (UInt8.not_lt.mp hlt)
      rw [distCmpBytes_eq_sign ts as bs ha hb, setBytes_cons, setBytes_cons, heq, hlen]
      congr 1
      omega
  | [], _ :: _, _, h, _ | _ :: _, [], _, h, _ => by simp at h
  | [], [], _ :: _, _, h | _ :: _, _ :: _, [], _, h => by simp at h

theorem distCmp_eq_sign (target a b : ID) :
    distCmp target a b = Int.sign ((dist target a : ℤ) - dist target b) :=
  distCmpBytes_eq_sign _ _ _ (by simp) (by simp)

theorem distCmp_pos_iff {target a b : ID} : 0 < distCmp target a b ↔ dist target b < dist target a := by
  rw [distCmp_eq_sign, Int.sign_pos_iff, sub_pos, Nat.cast_lt]

theorem distCmp_neg_iff {target a b : ID} : distCmp target a b < 0 ↔ dist target a < dist target b := by
  rw [distCmp_eq_sign, Int.sign_neg_iff, sub_neg, Nat.cast_lt]

/-- The byte loop finds no difference only between equal identifiers. -/
theorem distCmpBytes_eq_zero_iff : ∀ (ts as bs : List UInt8), as.length = ts.length →
    bs.length = ts.length → (distCmpBytes ts as bs = 0 ↔ as = bs)
  | [], [], [], _, _ => by simp [distCmpBytes]
  | t :: ts, a :: as, b :: bs, ha, hb => by
    simp only [List.length_cons, Nat.add_right_cancel_iff] at ha hb
    simp only [distCmpBytes, List.cons.injEq]
    split_ifs with hgt hlt
    · simp only [one_ne_zero, false_iff, not_and]
      rintro rfl
      exact absurd hgt (UInt8.lt_irrefl _)
    · simp only [false_iff, not_and]
      rintro rfl
      exact absurd hlt (UInt8.lt_irrefl _)
    · have heq : a = b :=
        (UInt8.xor_left_inj t).mp (UInt8.le_antisymm (UInt8.not_lt.mp hgt) (UInt8.not_lt.mp hlt))
      simp [heq, distCmpBytes_eq_zero_iff ts as bs ha hb]
  | [], _ :: _, _, h, _ | _ :: _, [], _, h, _ => by simp at h
  | [], [], _ :: _, _, h | _ :: _, _ :: _, [], _, h => by simp at h

theorem distCmp_eq_zero_iff {target a b : ID} : distCmp target a b = 0 ↔ a = b := by
  rw [distCmp, distCmpBytes_eq_zero_iff _ _ _ (by simp) (by simp), Vector.toList_inj]

theorem dist_injective (target : ID) : Function.Injective (dist target) := by
  intro a b h
  rw [← distCmp_eq_zero_iff, distCmp_eq_sign, h, sub_self, Int.sign_zero]

/-! ### Logarithmic distance -/

/-- `bits.LeadingZeros8`: the zero bits above the highest one bit of `x`, eight for zero. -/
def leadingZeros8 (x : UInt8) : ℕ :=
  ((List.range 8).reverse.takeWhile fun i => !x.toNat.testBit i).length

/-- The loop of `LogDist`: the leading zero bits of `a ^ b`, a byte at a time
until the first byte that differs. -/
def logDistZeros : List UInt8 → List UInt8 → ℕ
  | x :: as, y :: bs => if x ^^^ y = 0 then 8 + logDistZeros as bs else leadingZeros8 (x ^^^ y)
  | _, _ => 0

/-- `LogDist`: the logarithmic distance of two identifiers. -/
def logDist (a b : ID) : ℕ := 32 * 8 - logDistZeros a.toList b.toList

theorem logDist_le (a b : ID) : logDist a b ≤ 256 := Nat.sub_le _ _

end RpcNetwork.P2p.Enode
