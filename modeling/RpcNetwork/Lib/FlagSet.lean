import Mathlib

/-!
# A 64-bit word as a set of flags

A `uint64` used as a bit mask is a set of at most 64 flags: bit `i` set means
flag `i` is in the set.  `flags` reads a word as that set, and the word
operations are then the set operations: `&` is intersection, `|` union, `^`
the symmetric difference, `&^` (`a & ^b`) the difference, and `0` the empty set.
Reasoning about masks is done on the sets, where `Finset`'s lattice lemmas
apply, and carried back to the words by `flags_injective`.
-/

namespace FlagSet

/-- The flags a word holds: the positions of its one bits. -/
def flags (a : UInt64) : Finset (Fin 64) := Finset.univ.filter fun i => a.toBitVec.getLsbD i

theorem mem_flags {a : UInt64} {i : Fin 64} : i ∈ flags a ↔ a.toBitVec.getLsbD i = true := by
  simp [flags]

theorem flags_injective : Function.Injective flags := by
  intro a b h
  apply UInt64.toBitVec_inj.mp
  apply BitVec.eq_of_getLsbD_eq
  intro i hi
  have hmem := congrArg (⟨i, hi⟩ ∈ ·) h
  simpa [mem_flags] using hmem

theorem flags_inj {a b : UInt64} : flags a = flags b ↔ a = b := flags_injective.eq_iff

@[simp] theorem flags_and (a b : UInt64) : flags (a &&& b) = flags a ∩ flags b := by
  ext i
  simp [mem_flags]

@[simp] theorem flags_or (a b : UInt64) : flags (a ||| b) = flags a ∪ flags b := by
  ext i
  simp [mem_flags]

@[simp] theorem flags_not (a : UInt64) : flags (~~~a) = (flags a)ᶜ := by
  ext i
  simp [mem_flags]

@[simp] theorem flags_xor (a b : UInt64) : flags (a ^^^ b) = symmDiff (flags a) (flags b) := by
  ext i
  simp only [mem_flags, Finset.mem_symmDiff, UInt64.toBitVec_xor, BitVec.getLsbD_xor]
  cases a.toBitVec.getLsbD i <;> cases b.toBitVec.getLsbD i <;> simp

@[simp] theorem flags_zero : flags 0 = ∅ := by
  ext i
  simp [mem_flags]

@[simp] theorem flags_eq_empty {a : UInt64} : flags a = ∅ ↔ a = 0 := by
  rw [← flags_zero, flags_inj]

/-- `a & ^b`: the flags of `a` that are not in `b`. -/
theorem flags_and_not (a b : UInt64) : flags (a &&& ~~~b) = flags a \ flags b := by
  rw [flags_and, flags_not, Finset.sdiff_eq_inter_compl]

/-- Subtracting the part of `a` inside `b` is the same as masking `b` out:
the bits subtracted are all set in `a`, so no borrow occurs. -/
theorem sub_and_self (a b : UInt64) : a - (a &&& b) = a &&& ~~~b := by
  apply UInt64.toBitVec_inj.mp
  -- `a` is the sum of its two disjoint halves, inside and outside `b`
  have hdis : (a.toBitVec &&& b.toBitVec) &&& (a.toBitVec &&& ~~~b.toBitVec) = 0#64 := by
    apply BitVec.eq_of_getLsbD_eq
    intro i hi
    simp only [BitVec.getLsbD_and, BitVec.getLsbD_not, BitVec.getLsbD_zero]
    cases a.toBitVec.getLsbD i <;> cases b.toBitVec.getLsbD i <;> simp
  have hor : (a.toBitVec &&& b.toBitVec) ||| (a.toBitVec &&& ~~~b.toBitVec) = a.toBitVec := by
    apply BitVec.eq_of_getLsbD_eq
    intro i hi
    simp only [BitVec.getLsbD_or, BitVec.getLsbD_and, BitVec.getLsbD_not, hi, decide_true,
      Bool.true_and]
    cases a.toBitVec.getLsbD i <;> cases b.toBitVec.getLsbD i <;> simp
  simp only [UInt64.toBitVec_sub, UInt64.toBitVec_and, UInt64.toBitVec_not]
  rw [sub_eq_iff_eq_add, add_comm, BitVec.add_eq_or_of_and_eq_zero _ _ hdis, hor]

theorem and_eq_zero_iff_disjoint {a b : UInt64} : a &&& b = 0 ↔ Disjoint (flags a) (flags b) := by
  rw [← flags_eq_empty, flags_and, Finset.disjoint_iff_inter_eq_empty]

/-- Masking out flags that `a` does not have leaves `a` as it is. -/
theorem and_not_eq_self {a b : UInt64} (h : a &&& b = 0) : a &&& ~~~b = a := by
  rw [← flags_inj, flags_and_not]
  exact Finset.sdiff_eq_self_of_disjoint (and_eq_zero_iff_disjoint.mp h)

/-- The changed bits under a mask are none exactly when both words agree under it. -/
theorem xor_and_eq_zero_iff {a b m : UInt64} : (a ^^^ b) &&& m = 0 ↔ a &&& m = b &&& m := by
  rw [← flags_eq_empty, ← flags_inj, flags_and, flags_and, flags_and, flags_xor]
  constructor
  · intro h
    ext i
    have hi : i ∉ symmDiff (flags a) (flags b) ∩ flags m := by simp [h]
    simp only [Finset.mem_inter, Finset.mem_symmDiff, not_and] at hi ⊢
    tauto
  · intro h
    ext i
    have hi := congrArg (i ∈ ·) h
    simp only [Finset.mem_inter, eq_iff_iff] at hi
    simp only [Finset.mem_inter, Finset.mem_symmDiff, Finset.notMem_empty, iff_false]
    tauto

end FlagSet
