import RpcNetwork.Lib.ByteBitmap
import RpcNetwork.Lib.ExceptRun

/-!
# Rotated bloom bits (`core/bloombits/generator.go`)

A header's log bloom has 2048 bits.  To filter many headers at once, the
blooms of a section of `sections` headers are rotated: for each of the 2048
bloom bits the generator keeps a bit vector over the section, whose bit `s`
(byte `s / 8`, counted from the top) is that bloom bit of the `s`-th header
added.

## Design notes

A bloom is a byte list: `types.Bloom` is `[256]byte`, and every read below
is in range when it has 256 bytes; a shorter list reads as zeros.  The
section count and indexes are `uint` in Go and natural numbers here: the
generator never computes past `sections`.  The loop of `AddBloom` over the
2048 bits touches only `blooms[i]` in round `i`, so it is a `mapIdx`.
-/

namespace RpcNetwork.Core.Bloombits

open ByteBitmap

/-- `types.BloomByteLength`. -/
def bloomByteLength : ℕ := 256

/-- `types.BloomBitLength`. -/
def bloomBitLength : ℕ := 8 * bloomByteLength

/-- Bit `k` of a bloom: `bloom[BloomByteLength-1-k/8] & (1 << (k%8)) != 0`. -/
def bloomBit (bloom : List UInt8) (k : ℕ) : Bool :=
  bloom.getD (bloomByteLength - 1 - k / 8) 0 &&& 1 <<< (k % 8).toUInt8 != 0

/-- The errors of the generator. -/
inductive GeneratorError where
  /-- `section count not multiple of 8` -/
  | sectionCountNotMultipleOf8
  /-- `errSectionOutOfBounds`: more blooms than the section holds. -/
  | sectionOutOfBounds
  /-- `bloom filter with unexpected index` -/
  | unexpectedIndex
  /-- `bloom not fully generated yet` -/
  | notFullyGenerated
  /-- `errBloomBitOutOfBounds` -/
  | bloomBitOutOfBounds
  deriving DecidableEq, Repr

/-- `Generator`: the rotated blooms, one bit vector per bloom bit. -/
structure Generator where
  blooms : List (List UInt8)
  sections : ℕ
  nextSec : ℕ

/-- `NewGenerator(sections)`. -/
def newGenerator (sections : ℕ) : Except GeneratorError Generator :=
  if sections % 8 ≠ 0 then .error .sectionCountNotMultipleOf8
  else .ok ⟨List.replicate bloomBitLength (List.replicate (sections / 8) 0), sections, 0⟩

namespace Generator

/-- `AddBloom(index, bloom)`: set bit `nextSec` of every vector whose bloom bit
is set in `bloom`. -/
def addBloom (b : Generator) (index : ℕ) (bloom : List UInt8) : Except GeneratorError Generator :=
  if b.nextSec ≥ b.sections then .error .sectionOutOfBounds
  else if b.nextSec ≠ index then .error .unexpectedIndex
  else
    let byteIndex := b.nextSec / 8
    let bitMask : UInt8 := 1 <<< (7 - b.nextSec % 8).toUInt8
    .ok { b with
      blooms := b.blooms.mapIdx fun i v =>
        let bloomByteIndex := bloomByteLength - 1 - i / 8
        let bloomBitMask : UInt8 := 1 <<< (i % 8).toUInt8
        if bloom.getD bloomByteIndex 0 &&& bloomBitMask != 0 then v.modify byteIndex (· ||| bitMask)
        else v
      nextSec := b.nextSec + 1 }

/-- `Bitset(idx)`: the vector of bloom bit `idx`, once the section is full. -/
def bitset (b : Generator) (idx : ℕ) : Except GeneratorError (List UInt8) :=
  if b.nextSec ≠ b.sections then .error .notFullyGenerated
  else if idx ≥ bloomBitLength then .error .bloomBitOutOfBounds
  else .ok (b.blooms.getD idx [])

end Generator

/-- The generator of section `sec`: `AddBloom(s, blooms(sec * sections + s))`
for `s = 0, 1, …, sections - 1`. -/
def sectionGenerator (blooms : ℕ → List UInt8) (sections sec : ℕ) :
    Except GeneratorError Generator := do
  let g ← newGenerator sections
  (List.range sections).foldlM (fun g s => g.addBloom s (blooms (sec * sections + s))) g

namespace Generator

/-! ## The invariant -/

/-- **The rotated blooms.**  With the blooms added so far given by `added`,
each of the 2048 vectors has `sections / 8` bytes, and its bit `s` is set
exactly when bloom `s` has been added and has that bit. -/
structure Rotated (added : ℕ → List UInt8) (b : Generator) : Prop where
  sections_mod : b.sections % 8 = 0
  nextSec_le : b.nextSec ≤ b.sections
  length_blooms : b.blooms.length = bloomBitLength
  length_vector : ∀ k < bloomBitLength, (b.blooms.getD k []).length = b.sections / 8
  test_vector : ∀ k < bloomBitLength, ∀ s,
    test (b.blooms.getD k []) s = (decide (s < b.nextSec) && bloomBit (added s) k)

-- The source's mask `1 << (7 - s % 8)` is the bitmap's mask of bit `s % 8`.
theorem shiftLeft_eq_mask {j : ℕ} (hj : j < 8) : (1 : UInt8) <<< (7 - j).toUInt8 = mask j := by
  have : ∀ j : Fin 8, (1 : UInt8) <<< (7 - j.val).toUInt8 = mask j := by decide
  exact this ⟨j, hj⟩

theorem rotated_newGenerator {sections : ℕ} {b : Generator} (h : newGenerator sections = .ok b)
    (added : ℕ → List UInt8) : b.Rotated added := by
  unfold newGenerator at h
  split_ifs at h with hmod
  cases h
  refine ⟨by simpa using hmod, Nat.zero_le _, by simp, fun k hk => ?_, fun k hk s => ?_⟩
  · simp [List.getD_eq_getElem?_getD, hk]
  · simp [List.getD_eq_getElem?_getD, hk]

/-- What `addBloom` does when it succeeds. -/
theorem addBloom_eq_ok {b b' : Generator} {index : ℕ} {bloom : List UInt8}
    (h : b.addBloom index bloom = .ok b') :
    b.nextSec < b.sections ∧ index = b.nextSec ∧
      b' = { b with
        blooms := b.blooms.mapIdx fun i v => if bloomBit bloom i then setBit v b.nextSec else v
        nextSec := b.nextSec + 1 } := by
  unfold addBloom at h
  split_ifs at h with hge hne
  cases h
  refine ⟨by omega, by omega, ?_⟩
  have hmask : (1 : UInt8) <<< (7 - b.nextSec % 8).toUInt8 = mask (b.nextSec % 8) :=
    shiftLeft_eq_mask (Nat.mod_lt _ (by omega))
  simp only [hmask]
  rfl

/-- **The step lemma**: adding the next bloom sets its bit in exactly the
vectors of the bits it has. -/
theorem Rotated.addBloom {added : ℕ → List UInt8} {b b' : Generator} {index : ℕ}
    {bloom : List UInt8} (hb : b.Rotated added) (hadd : bloom = added b.nextSec)
    (h : b.addBloom index bloom = .ok b') : b'.Rotated added := by
  obtain ⟨hlt, -, rfl⟩ := addBloom_eq_ok h
  -- the byte of the new bit exists in every vector
  have hbyte : b.nextSec / 8 < b.sections / 8 := by
    have := hb.sections_mod
    omega
  have hget : ∀ k < bloomBitLength, (b.blooms.mapIdx fun i v =>
      if bloomBit bloom i then setBit v b.nextSec else v).getD k [] =
        if bloomBit bloom k then setBit (b.blooms.getD k []) b.nextSec else b.blooms.getD k [] := by
    intro k hk
    have hk' : k < b.blooms.length := hb.length_blooms ▸ hk
    simp [List.getD_eq_getElem?_getD, hk']
  refine ⟨hb.sections_mod, hlt, by simpa using hb.length_blooms, fun k hk => ?_, fun k hk s => ?_⟩
  · rw [hget k hk]
    split_ifs
    · rw [length_setBit, hb.length_vector k hk]
    · exact hb.length_vector k hk
  · rw [hget k hk]
    split_ifs with hbit
    · rw [test_setBit (by rw [hb.length_vector k hk]; exact hbyte), hb.test_vector k hk s]
      by_cases hs : s = b.nextSec
      · subst hs
        simp [← hadd, hbit]
      · have : (s < b.nextSec + 1) = (s < b.nextSec) := by
          apply propext
          omega
        simp [hs, this]
    · rw [hb.test_vector k hk s]
      by_cases hs : s = b.nextSec
      · subst hs
        simp [← hadd, hbit]
      · have : (s < b.nextSec + 1) = (s < b.nextSec) := by
          apply propext
          omega
        simp [this]

theorem exists_addBloom {b : Generator} (hlt : b.nextSec < b.sections) (bloom : List UInt8) :
    ∃ b', b.addBloom b.nextSec bloom = .ok b' := by
  unfold addBloom
  rw [if_neg (by omega), if_neg (by omega)]
  exact ⟨_, rfl⟩

end Generator

open Generator

/-- **The run lemma**: fed the next `n` blooms in index order, a rotated
generator succeeds, stays rotated and counts them all. -/
theorem foldlM_addBloom (added : ℕ → List UInt8) :
    ∀ (n : ℕ) (b : Generator), b.Rotated added → b.nextSec + n ≤ b.sections →
      ∃ b', (List.range' b.nextSec n).foldlM (fun g s => g.addBloom s (added s)) b = .ok b' ∧
        b'.Rotated added ∧ b'.nextSec = b.nextSec + n ∧ b'.sections = b.sections
  | 0, b, hb, _ => ⟨b, rfl, hb, rfl, rfl⟩
  | n + 1, b, hb, hn => by
    obtain ⟨b₁, h₁⟩ := exists_addBloom (b := b) (by omega) (added b.nextSec)
    have hb₁ := hb.addBloom rfl h₁
    have hnext : b₁.nextSec = b.nextSec + 1 := by
      obtain ⟨-, -, rfl⟩ := addBloom_eq_ok h₁
      rfl
    have hsections : b₁.sections = b.sections := by
      obtain ⟨-, -, rfl⟩ := addBloom_eq_ok h₁
      rfl
    obtain ⟨b', hfold, hb', hnext', hsections'⟩ := foldlM_addBloom added n b₁ hb₁ (by omega)
    refine ⟨b', ?_, hb', by omega, hsections'.trans hsections⟩
    rw [List.range'_succ, List.foldlM_cons, h₁, ← hnext]
    exact hfold

/-- **The generator half of matching**: once a section's blooms are added in
order, `Bitset(k)` has `sections / 8` bytes, and its bit `s` is bit `k` of the
`s`-th bloom of the section. -/
theorem bitset_sectionGenerator (blooms : ℕ → List UInt8) {sections : ℕ} (hmod : sections % 8 = 0)
    (sec : ℕ) {k : ℕ} (hk : k < bloomBitLength) :
    ∃ v, (sectionGenerator blooms sections sec >>= (·.bitset k)) = .ok v ∧
      v.length = sections / 8 ∧
      ∀ s < sections, test v s = bloomBit (blooms (sec * sections + s)) k := by
  have hnew : newGenerator sections =
      .ok ⟨List.replicate bloomBitLength (List.replicate (sections / 8) 0), sections, 0⟩ := by
    rw [newGenerator, if_neg (by omega)]
  obtain ⟨b, hfold, hb, hnext, hsections⟩ := foldlM_addBloom (fun s => blooms (sec * sections + s))
    sections _ (rotated_newGenerator hnew _) (by simp)
  have hgen : sectionGenerator blooms sections sec = .ok b := by
    rw [sectionGenerator, hnew, List.range_eq_range']
    exact hfold
  have hsections' : b.sections = sections := hsections
  refine ⟨b.blooms.getD k [], ?_, hsections' ▸ hb.length_vector k hk, fun s hs => ?_⟩
  · rw [hgen]
    show b.bitset k = _
    rw [bitset, if_neg (by simp [hnext, hsections']), if_neg (by omega)]
  · rw [hb.test_vector k hk s, hnext]
    simp [hs]

end RpcNetwork.Core.Bloombits
