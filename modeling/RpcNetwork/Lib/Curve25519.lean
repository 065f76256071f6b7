import Mathlib

/-!
# X25519 and the Montgomery ladder

The x-only Montgomery ladder of X25519, over any commutative ring and curve
constant `a24`: one differential addition and one doubling per scalar bit,
with the conditional swap deferred.

On the input `x₁ = 0`, the point of order two, every step of the ladder sends
both `z` coordinates to zero: the doubling's `z` is a multiple of
`(x + z)² - (x - z)² = 4xz`, and the addition's `z` is a multiple of `x₁`.
The final `x₂ · z₂^e` is then zero for every scalar.

`Curve25519.scalarMult` is the ladder over `ZMod (2^255 - 19)` with the byte
conventions of `golang.org/x/crypto/curve25519`.  No point is rejected, so the all-zero key is
read as the point of order two and every scalar sends it to the all-zero key
(`scalarMult_zero`).
-/

namespace MontgomeryLadder

variable {R : Type*} [CommRing R]

/-- The state of the ladder: the two points and the swap pending from the last
bit. -/
structure LadderState (R : Type*) where
  x2 : R
  z2 : R
  x3 : R
  z3 : R
  swap : Bool

/-- The start of the ladder on `x₁`: the point at infinity `(1 : 0)` and `x₁`. -/
def init (x1 : R) : LadderState R := ⟨1, 0, x1, 1, false⟩

/-- Swap the two points when `b` is set. -/
def cswap (b : Bool) (s : LadderState R) : LadderState R :=
  if b then { s with x2 := s.x3, z2 := s.z3, x3 := s.x2, z3 := s.z2 } else s

/-- One bit of the ladder, in the order of the reference loop: `swap ^= k_t`,
the conditional swap, then the differential addition into `(x₃ : z₃)` and the
doubling into `(x₂ : z₂)`, with `z₂ = E · (BB + a24 · E)`. -/
def ladderStep (a24 x1 : R) (s : LadderState R) (kt : Bool) : LadderState R :=
  let s' := cswap (s.swap ^^ kt) s
  let tmp0 := s'.x3 - s'.z3
  let tmp1 := s'.x2 - s'.z2
  let x2 := s'.x2 + s'.z2
  let z2 := s'.x3 + s'.z3
  let z3 := tmp0 * x2
  let z2 := z2 * tmp1
  let tmp0 := tmp1 ^ 2
  let tmp1 := x2 ^ 2
  let x3 := z3 + z2
  let z2 := z3 - z2
  let x2 := tmp1 * tmp0
  let tmp1 := tmp1 - tmp0
  let z2 := z2 ^ 2
  let z3 := a24 * tmp1
  let x3 := x3 ^ 2
  let tmp0 := tmp0 + z3
  let z3 := x1 * z2
  let z2 := tmp1 * tmp0
  { x2, z2, x3, z3, swap := kt }

/-- The ladder over the scalar's bits, most significant first. -/
def ladder (a24 x1 : R) (s : LadderState R) (bits : List Bool) : LadderState R :=
  bits.foldl (ladderStep a24 x1) s

/-- The last swap and the affine `x₂ · z₂^e`, where `z₂^e` is the field's
inverse of `z₂` (`e = p - 2`). -/
def finish (s : LadderState R) (e : ℕ) : R :=
  let s := cswap s.swap s
  s.x2 * s.z2 ^ e

/-- On the point of order two, one of `x`, `z` is zero in each point. -/
def Degenerate (s : LadderState R) : Prop :=
  (s.x2 = 0 ∨ s.z2 = 0) ∧ (s.x3 = 0 ∨ s.z3 = 0)

theorem degenerate_init : Degenerate (init (0 : R)) :=
  ⟨Or.inr rfl, Or.inl rfl⟩

theorem Degenerate.cswap {s : LadderState R} (h : Degenerate s) (b : Bool) : Degenerate (cswap b s) := by
  cases b with
  | false => exact h
  | true => exact ⟨h.2, h.1⟩

/-- **One step on the point of order two** sends both `z`s to zero: the
doubling's `z` is a multiple of `4 · x₂ · z₂` and the addition's a multiple of
`x₁ = 0`. -/
theorem ladderStep_zero (a24 : R) {s : LadderState R} (h : Degenerate s) (kt : Bool) :
    (ladderStep a24 0 s kt).z2 = 0 ∧ (ladderStep a24 0 s kt).z3 = 0 := by
  obtain ⟨h2, -⟩ := h.cswap (s.swap ^^ kt)
  set s' := cswap (s.swap ^^ kt) s
  -- `AA - BB = 4 · x₂ · z₂`, zero on a degenerate point
  have hE : (s'.x2 + s'.z2) ^ 2 - (s'.x2 - s'.z2) ^ 2 = 0 := by
    have h4 : (s'.x2 + s'.z2) ^ 2 - (s'.x2 - s'.z2) ^ 2 = 4 * s'.x2 * s'.z2 := by ring
    rcases h2 with h2 | h2 <;> rw [h4, h2] <;> ring
  refine ⟨?_, zero_mul _⟩
  show ((s'.x2 + s'.z2) ^ 2 - (s'.x2 - s'.z2) ^ 2) * _ = 0
  rw [hE, zero_mul]

/-- After a step on the point of order two the state is degenerate again. -/
theorem Degenerate.ladderStep (a24 : R) {s : LadderState R} (h : Degenerate s) (kt : Bool) :
    Degenerate (ladderStep a24 0 s kt) :=
  ⟨Or.inr (ladderStep_zero a24 h kt).1, Or.inr (ladderStep_zero a24 h kt).2⟩

/-- The ladder on the point of order two keeps the state degenerate. -/
theorem Degenerate.ladder (a24 : R) {s : LadderState R} (h : Degenerate s) (bits : List Bool) :
    Degenerate (ladder a24 0 s bits) := by
  induction bits generalizing s with
  | nil => exact h
  | cons b bits ih => exact ih (h.ladderStep a24 b)

/-- After at least one bit, both `z`s of the ladder on the point of order two
are zero. -/
theorem ladder_zero (a24 : R) {s : LadderState R} (h : Degenerate s) {bits : List Bool} (hb : bits ≠ []) :
    (ladder a24 0 s bits).z2 = 0 ∧ (ladder a24 0 s bits).z3 = 0 := by
  obtain ⟨bits, b, rfl⟩ := List.eq_nil_or_concat bits |>.resolve_left hb
  rw [ladder, List.concat_eq_append, List.foldl_append, List.foldl_cons, List.foldl_nil]
  exact ladderStep_zero a24 (h.ladder a24 bits) b

/-- **The ladder on the point of order two returns zero** for every scalar of
at least one bit. -/
theorem finish_ladder_zero (a24 : R) {bits : List Bool} (hb : bits ≠ []) {e : ℕ} (he : e ≠ 0) :
    finish (ladder a24 0 (init 0) bits) e = 0 := by
  obtain ⟨hz2, hz3⟩ := ladder_zero a24 degenerate_init hb
  unfold finish cswap
  split
  · show _ * (ladder a24 0 (init 0) bits).z3 ^ e = 0
    rw [hz3, zero_pow he, mul_zero]
  · show _ * (ladder a24 0 (init 0) bits).z2 ^ e = 0
    rw [hz2, zero_pow he, mul_zero]

end MontgomeryLadder

namespace Curve25519

open MontgomeryLadder

/-- The field prime `2^255 - 19`. -/
def p : ℕ := 2 ^ 255 - 19

/-- The number a byte string spells little-endian. -/
def leValue (b : List UInt8) : ℕ := b.foldr (fun x acc => x.toNat + 256 * acc) 0

/-- `Element.SetBytes`: the point read little-endian, its top bit ignored. -/
def feFromBytes (u : Vector UInt8 32) : ZMod p := ((leValue u.toList % 2 ^ 255 : ℕ) : ZMod p)

/-- `Element.Bytes`: the canonical value written little-endian. -/
def feToBytes (x : ZMod p) : Vector UInt8 32 := Vector.ofFn fun i => (x.val / 256 ^ i.val % 256).toUInt8

/-- The clamped scalar: the low three bits cleared, bit `255` cleared and bit
`254` set. -/
def clamp (k : Vector UInt8 32) : Vector UInt8 32 :=
  (k.set 0 (k[0] &&& 248)).set 31 ((k[31] &&& 127) ||| 64)

/-- Bit `pos` of the scalar: `e[pos/8] >> (pos&7) & 1`. -/
def scalarBit (e : Vector UInt8 32) (pos : ℕ) : Bool :=
  (e.toList.getD (pos / 8) 0 >>> (pos % 8).toUInt8) &&& 1 == 1

/-- `curve25519.ScalarMult(dst, scalar, point)`: the ladder over bits `254`
down to `0` of the clamped scalar, with `a24 = 121666`, and the inverse as
`z^(p - 2)`. -/
def scalarMult (scalar point : Vector UInt8 32) : Vector UInt8 32 :=
  let e := clamp scalar
  let x1 := feFromBytes point
  let bits := (List.range 255).reverse.map (scalarBit e)
  feToBytes (finish (ladder 121666 x1 (init x1) bits) (p - 2))

/-- The base point `u = 9`. -/
def basepoint : Vector UInt8 32 := (Vector.replicate 32 0).set 0 9

/-- `curve25519.ScalarBaseMult`. -/
def scalarBaseMult (scalar : Vector UInt8 32) : Vector UInt8 32 := scalarMult scalar basepoint

/-- The all-zero key. -/
def zeroKey : Vector UInt8 32 := Vector.replicate 32 0

/-- **X25519 of the all-zero key is the all-zero key**, for every scalar: the
key is read as the point of order two, on which the ladder returns zero. -/
theorem scalarMult_zero (scalar : Vector UInt8 32) : scalarMult scalar zeroKey = zeroKey := by
  have hx1 : feFromBytes zeroKey = 0 := by decide
  have hbits : (List.range 255).reverse.map (scalarBit (clamp scalar)) ≠ [] := by simp
  have hp : p - 2 ≠ 0 := by decide
  unfold scalarMult
  dsimp only
  rw [hx1, finish_ladder_zero 121666 hbits hp]
  decide

end Curve25519
