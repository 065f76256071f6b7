import Mathlib

/-!
# Weighted quorums

Byzantine quorum systems count voters by weight: a quorum is a set of voters
whose weight exceeds two thirds of the total `T`.  This module proves the fact
every such protocol rests on, for weights in any finite index set:

* `sum_add_sum_le` — two sets of voters weigh at most the total plus their
  overlap;
* `quorum_inter` — **quorum intersection**: two sets that each reach
  `T * 2 / 3 + 1` overlap in more than a third of the total;
* `sum_eq_of_eq_off` — how a weighted count changes when one voter's summand
  changes, the step of every run argument over a tally.

Weights are integers and are assumed nonnegative where it matters; the quorum
is written with integer division as the implementations compute it.
-/

namespace Quorum

open Finset

variable {ι : Type*} [DecidableEq ι]

/-- Two sets of voters inside `s` weigh at most all of `s` plus their overlap. -/
theorem sum_add_sum_le {s s₁ s₂ : Finset ι} {w : ι → ℤ} (hw : ∀ i ∈ s, 0 ≤ w i)
    (h₁ : s₁ ⊆ s) (h₂ : s₂ ⊆ s) :
    ∑ i ∈ s₁, w i + ∑ i ∈ s₂, w i ≤ ∑ i ∈ s, w i + ∑ i ∈ s₁ ∩ s₂, w i := by
  rw [← sum_union_inter]
  have hunion : ∑ i ∈ s₁ ∪ s₂, w i ≤ ∑ i ∈ s, w i :=
    sum_le_sum_of_subset_of_nonneg (union_subset h₁ h₂) fun i hi _ => hw i hi
  linarith

/-- **Quorum intersection.**  If two sets of voters each weigh at least
`T * 2 / 3 + 1`, where `T` is the weight of all voters, their overlap weighs
more than a third of `T`. -/
theorem quorum_inter {s s₁ s₂ : Finset ι} {w : ι → ℤ} (hw : ∀ i ∈ s, 0 ≤ w i)
    (h₁ : s₁ ⊆ s) (h₂ : s₂ ⊆ s)
    (hq₁ : (∑ i ∈ s, w i) * 2 / 3 + 1 ≤ ∑ i ∈ s₁, w i)
    (hq₂ : (∑ i ∈ s, w i) * 2 / 3 + 1 ≤ ∑ i ∈ s₂, w i) :
    ∑ i ∈ s, w i < 3 * ∑ i ∈ s₁ ∩ s₂, w i := by
  have hle := sum_add_sum_le hw h₁ h₂
  omega

/-- A sum in which one summand changes: the new sum is the old one plus the
difference at that summand. -/
theorem sum_eq_of_eq_off {s : Finset ι} {f g : ι → ℤ} {i : ι} (hi : i ∈ s)
    (hoff : ∀ j ∈ s, j ≠ i → g j = f j) :
    ∑ j ∈ s, g j = ∑ j ∈ s, f j + (g i - f i) := by
  rw [← add_sum_erase s g hi, ← add_sum_erase s f hi,
    sum_congr rfl fun j hj => hoff j (mem_of_mem_erase hj) (ne_of_mem_erase hj)]
  ring

end Quorum
