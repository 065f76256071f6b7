import RpcNetwork.Vm.Analysis

/-!
# The contract under execution

The parts of `Contract` (`contract.go`) that the interpreter loop reads and
writes: the code and its hash, the cached jump analyses, the input and the
gas left.  Jump validation asks `isCode`, which looks for an analysis in the
contract, then in the `jumpdests` map shared by the contracts of one call tree
(for a contract with a code hash), and otherwise runs `codeBitmap` and caches
the result.

## Design notes

The map is keyed by code hash and filled by contracts of the whole call tree,
so that a cached entry is the bitmap of this contract's code is an
assumption about hashes, not something this file can prove:
`AnalysisSound` states it, and `isCode` keeps it.
-/

namespace RpcNetwork.Vm

/-- `JUMPDEST`. -/
def JUMPDEST : OpCode := 0x5b
/-- `BEGINSUB`. -/
def BEGINSUB : OpCode := 0x5c

/-- A `uint256.Int`. -/
abbrev Word := BitVec 256

namespace Word

/-- `Uint64()`: the low 64 bits. -/
def uint64 (w : Word) : UInt64 := UInt64.ofNat w.toNat

/-- `IsUint64()`. -/
def isUint64 (w : Word) : Bool := w.toNat < 2 ^ 64

/-- `Uint64WithOverflow()`. -/
def uint64WithOverflow (w : Word) : UInt64 × Bool := (w.uint64, !w.isUint64)

theorem toNat_uint64 {w : Word} (h : w.isUint64 = true) : w.uint64.toNat = w.toNat := by
  simp only [isUint64, decide_eq_true_eq] at h
  rw [uint64, UInt64.toNat_ofNat', Nat.mod_eq_of_lt h]

end Word

/-- A `common.Hash`; the zero hash marks code without one. -/
abbrev Hash := BitVec 256

/-- The fields of `Contract` the interpreter loop uses. -/
structure Contract where
  code : List UInt8
  codeHash : Hash
  input : List UInt8
  gas : UInt64
  /-- Locally cached result of the JUMPDEST analysis. -/
  analysis : Option Bitvec
  /-- Analyses shared by the contracts of one call tree, by code hash. -/
  jumpdests : Hash → Option Bitvec

namespace Contract

/-- `isCode`: whether `udest` is an opcode and not push data, from the first
analysis found, caching the one it computes. -/
def isCode (c : Contract) (udest : UInt64) : Bool × Contract :=
  match c.analysis with
  | some analysis => (analysis.codeSegment udest.toNat, c)
  | none =>
    if c.codeHash ≠ 0 then
      match c.jumpdests c.codeHash with
      | some analysis => (analysis.codeSegment udest.toNat, { c with analysis := some analysis })
      | none =>
        let analysis := codeBitmap c.code
        (analysis.codeSegment udest.toNat,
          { c with analysis := some analysis,
                   jumpdests := Function.update c.jumpdests c.codeHash (some analysis) })
    else
      let analysis := codeBitmap c.code
      (analysis.codeSegment udest.toNat, { c with analysis := some analysis })

/-- `validJumpdest`: a jump target must fit in 64 bits, lie inside the code,
hold `JUMPDEST` and be an opcode. -/
def validJumpdest (c : Contract) (dest : Word) : Bool × Contract :=
  let (udest, overflow) := dest.uint64WithOverflow
  if overflow || c.code.length ≤ udest.toNat then (false, c)
  else if c.code[udest.toNat]? ≠ some JUMPDEST then (false, c)
  else c.isCode udest

/-- `validJumpSubdest`: a subroutine target must be below `2^63`, lie inside
the code, hold `BEGINSUB` and be an opcode. -/
def validJumpSubdest (c : Contract) (udest : UInt64) : Bool × Contract :=
  if 2 ^ 63 ≤ udest.toNat || c.code.length ≤ udest.toNat then (false, c)
  else if c.code[udest.toNat]? ≠ some BEGINSUB then (false, c)
  else c.isCode udest

/-- `GetOp`: the byte at `n`, and `STOP` past the end of the code. -/
def getOp (c : Contract) (n : UInt64) : OpCode :=
  if h : n.toNat < c.code.length then c.code[n.toNat] else 0

/-- `UseGas`. -/
def useGas (c : Contract) (gas : UInt64) : Option Contract :=
  if c.gas < gas then none else some { c with gas := c.gas - gas }

/-- Every analysis the contract can read is the bitmap of its own code. -/
def AnalysisSound (c : Contract) : Prop :=
  (∀ a, c.analysis = some a → a = codeBitmap c.code) ∧
  (c.codeHash ≠ 0 → ∀ a, c.jumpdests c.codeHash = some a → a = codeBitmap c.code)

/-- What `isCode` may change: only the two caches. -/
def SameCode (c c' : Contract) : Prop :=
  c'.code = c.code ∧ c'.codeHash = c.codeHash ∧ c'.input = c.input ∧ c'.gas = c.gas

theorem SameCode.refl (c : Contract) : SameCode c c := ⟨rfl, rfl, rfl, rfl⟩

/-- `isCode` changes only the caches. -/
theorem isCode_sameCode (c : Contract) (udest : UInt64) : SameCode c (c.isCode udest).2 := by
  unfold isCode
  split
  · exact SameCode.refl c
  · split
    · split <;> exact ⟨rfl, rfl, rfl, rfl⟩
    · exact ⟨rfl, rfl, rfl, rfl⟩

theorem validJumpdest_sameCode (c : Contract) (dest : Word) :
    SameCode c (c.validJumpdest dest).2 := by
  unfold validJumpdest
  dsimp only
  split
  · exact SameCode.refl c
  · split
    · exact SameCode.refl c
    · exact isCode_sameCode c _

theorem validJumpSubdest_sameCode (c : Contract) (udest : UInt64) :
    SameCode c (c.validJumpSubdest udest).2 := by
  unfold validJumpSubdest
  split
  · exact SameCode.refl c
  · split
    · exact SameCode.refl c
    · exact isCode_sameCode c _

/-- **`isCode` answers from the code's bitmap** when the caches are sound, and
keeps them sound. -/
theorem isCode_spec {c : Contract} (hs : c.AnalysisSound) (udest : UInt64) :
    (c.isCode udest).1 = (codeBitmap c.code).codeSegment udest.toNat ∧
    (c.isCode udest).2.AnalysisSound ∧ SameCode c (c.isCode udest).2 := by
  obtain ⟨hloc, hmap⟩ := hs
  unfold isCode
  rcases ha : c.analysis with _ | a
  · dsimp only
    by_cases hh : c.codeHash ≠ 0
    · rw [if_pos hh]
      rcases hj : c.jumpdests c.codeHash with _ | a
      · -- computed afresh and stored in both caches
        dsimp only
        refine ⟨rfl, ⟨fun _ h => (Option.some.inj h).symm, fun _ a h => ?_⟩, SameCode.refl c⟩
        simpa using h.symm
      · -- found in the shared map
        have := hmap hh a hj
        subst this
        dsimp only
        exact ⟨rfl, ⟨fun _ h => (Option.some.inj h).symm, hmap⟩, SameCode.refl c⟩
    · rw [if_neg hh]
      dsimp only
      exact ⟨rfl, ⟨fun _ h => (Option.some.inj h).symm, fun h => absurd h hh⟩, SameCode.refl c⟩
  · have := hloc a ha
    subst this
    exact ⟨rfl, ⟨hloc, hmap⟩, SameCode.refl c⟩

/-- An opcode check that passes the code's bitmap is a decoding boundary. -/
theorem reaches_of_isCode {c : Contract} (hs : c.AnalysisSound) {udest : UInt64}
    (hlt : udest.toNat < c.code.length) (h : (c.isCode udest).1 = true) :
    Reaches c.code udest.toNat := by
  rw [(isCode_spec hs udest).1] at h
  exact (codeSegment_codeBitmap c.code hlt).mp h

/-- **An accepted jump target** fits in 64 bits, lies inside the code, holds
`JUMPDEST` and is reached by decoding; the check keeps the caches sound and
the code as it was. -/
theorem validJumpdest_spec {c : Contract} (hs : c.AnalysisSound) (dest : Word) :
    ((c.validJumpdest dest).1 = true →
      ∃ h : dest.toNat < c.code.length, dest.isUint64 = true ∧
        c.code[dest.toNat] = JUMPDEST ∧ Reaches c.code dest.toNat) ∧
    (c.validJumpdest dest).2.AnalysisSound ∧ SameCode c (c.validJumpdest dest).2 := by
  unfold validJumpdest Word.uint64WithOverflow
  dsimp only
  split
  · exact ⟨by simp, hs, SameCode.refl c⟩
  · rename_i hin
    simp only [Bool.or_eq_true, Bool.not_eq_eq_eq_not, Bool.not_true, decide_eq_true_eq, not_or,
      Bool.not_eq_false, not_le] at hin
    obtain ⟨hfit, hlt⟩ := hin
    have hnat := Word.toNat_uint64 hfit
    split
    · exact ⟨by simp, hs, SameCode.refl c⟩
    · rename_i hop
      obtain ⟨-, hs', hsame⟩ := isCode_spec hs dest.uint64
      refine ⟨fun h => ?_, hs', hsame⟩
      have := reaches_of_isCode hs hlt h
      simp only [hnat, not_not, List.getElem?_eq_some_iff] at hop hlt this
      exact ⟨hlt, hfit, hop.2, this⟩

/-- **An accepted subroutine target** is below `2^63`, lies inside the code,
holds `BEGINSUB` and is reached by decoding. -/
theorem validJumpSubdest_spec {c : Contract} (hs : c.AnalysisSound) (udest : UInt64) :
    ((c.validJumpSubdest udest).1 = true →
      ∃ h : udest.toNat < c.code.length, c.code[udest.toNat] = BEGINSUB ∧
        Reaches c.code udest.toNat) ∧
    (c.validJumpSubdest udest).2.AnalysisSound ∧ SameCode c (c.validJumpSubdest udest).2 := by
  unfold validJumpSubdest
  split
  · exact ⟨by simp, hs, SameCode.refl c⟩
  · rename_i hin
    simp only [Bool.or_eq_true, decide_eq_true_eq, not_or, not_le] at hin
    have hlt : udest.toNat < c.code.length := hin.2
    split
    · exact ⟨by simp, hs, SameCode.refl c⟩
    · rename_i hop
      obtain ⟨-, hs', hsame⟩ := isCode_spec hs udest
      rw [not_not, List.getElem?_eq_some_iff] at hop
      exact ⟨fun h => ⟨hlt, hop.2, reaches_of_isCode hs hlt h⟩, hs', hsame⟩

/-- **A reached `JUMPDEST` is accepted**, the converse of
`validJumpdest_spec`: the check ends in `isCode`, which says yes. -/
theorem validJumpdest_of_reaches {c : Contract} (hs : c.AnalysisSound) {dest : Word}
    (hfit : dest.isUint64 = true) (hop : c.code[dest.toNat]? = some JUMPDEST)
    (hreach : Reaches c.code dest.toNat) :
    c.validJumpdest dest = (true, (c.isCode dest.uint64).2) := by
  have hlt : dest.toNat < c.code.length := (List.getElem?_eq_some_iff.mp hop).1
  have hnat := Word.toNat_uint64 hfit
  have hcode : (c.isCode dest.uint64).1 = true := by
    rw [(isCode_spec hs _).1, hnat]
    exact (codeSegment_codeBitmap c.code hlt).mpr hreach
  unfold validJumpdest Word.uint64WithOverflow
  simp only [hfit, hnat, hop, Bool.not_true, Bool.false_or, Nat.not_le.mpr hlt, decide_false,
    Bool.false_eq_true, if_false, ne_eq, not_true_eq_false]
  rw [← hcode]

/-- **A reached `BEGINSUB` below `2^63` is accepted**, the converse of
`validJumpSubdest_spec`. -/
theorem validJumpSubdest_of_reaches {c : Contract} (hs : c.AnalysisSound) {udest : UInt64}
    (hfit : udest.toNat < 2 ^ 63) (hop : c.code[udest.toNat]? = some BEGINSUB)
    (hreach : Reaches c.code udest.toNat) :
    c.validJumpSubdest udest = (true, (c.isCode udest).2) := by
  have hlt : udest.toNat < c.code.length := (List.getElem?_eq_some_iff.mp hop).1
  have hcode : (c.isCode udest).1 = true := by
    rw [(isCode_spec hs _).1]
    exact (codeSegment_codeBitmap c.code hlt).mpr hreach
  unfold validJumpSubdest
  simp only [Nat.not_le.mpr hfit, Nat.not_le.mpr hlt, decide_false, Bool.or_false,
    Bool.false_eq_true, if_false, hop, ne_eq, not_true_eq_false]
  rw [← hcode]

end Contract

end RpcNetwork.Vm
