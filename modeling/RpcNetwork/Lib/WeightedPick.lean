import Mathlib

/-!
# Picking an entry by running sums of weights

Weighted random selection draws `v` uniformly below the total weight and takes
the first entry whose running sum of weights passes `v`.  Entry `i` then owns
the values from the weights before it up to, not including, those weights plus
its own: the values below the total are cut into consecutive runs, one per
entry, as long as the entry's weight.  `locate` is that search over a list of
weights.  It also returns `v` less the weights before the entry found, the
value a search one level down continues with when the entries are themselves
weighted collections.
-/

namespace WeightedPick

/-- The first index whose running sum of weights passes `v`, with `v` less the
weights before that index. -/
def locate : List ℕ → ℕ → Option (ℕ × ℕ)
  | [], _ => none
  | w :: ws, v => if v < w then some (0, v) else (locate ws (v - w)).map fun p => (p.1 + 1, p.2)

@[simp] theorem locate_nil (v : ℕ) : locate [] v = none := rfl

theorem locate_cons (w : ℕ) (ws : List ℕ) (v : ℕ) :
    locate (w :: ws) v =
      if v < w then some (0, v) else (locate ws (v - w)).map fun p => (p.1 + 1, p.2) := rfl

/-- A value past the first weight is searched for in the rest. -/
theorem locate_cons_add (w : ℕ) (ws : List ℕ) (u : ℕ) :
    locate (w :: ws) (w + u) = (locate ws u).map fun p => (p.1 + 1, p.2) := by
  rw [locate_cons, if_neg (by omega), Nat.add_sub_cancel_left]

/-- The search finds nothing exactly when `v` is not below the total weight. -/
theorem locate_eq_none_iff {ws : List ℕ} {v : ℕ} : locate ws v = none ↔ ws.sum ≤ v := by
  induction ws generalizing v with
  | nil => simp
  | cons w ws ih =>
    rw [locate_cons, List.sum_cons]
    split_ifs with hv
    · simp only [false_iff, not_le]
      omega
    · rw [Option.map_eq_none_iff, ih]
      omega

/-- Entry `i` at offset `r` is found exactly for the weights before `i` plus
`r`, with `r` below the weight of `i`. -/
theorem locate_eq_some_iff {ws : List ℕ} {v i r : ℕ} :
    locate ws v = some (i, r) ↔ i < ws.length ∧ r < ws.getD i 0 ∧ v = (ws.take i).sum + r := by
  induction ws generalizing v i with
  | nil => simp
  | cons w ws ih =>
    rw [locate_cons]
    split_ifs with hv
    · -- `v` falls in the first entry
      cases i with
      | zero =>
        simp only [Option.some.injEq, Prod.mk.injEq, true_and, List.length_cons, Nat.zero_lt_succ,
          List.getD_cons_zero, List.take_zero, List.sum_nil, Nat.zero_add]
        constructor
        · rintro rfl
          exact ⟨hv, rfl⟩
        · rintro ⟨-, rfl⟩
          rfl
      | succ i =>
        simp only [Option.some.injEq, Prod.mk.injEq, Nat.right_eq_add, Nat.add_eq_zero_iff,
          one_ne_zero, and_false, false_and, false_iff, List.take_succ_cons, List.sum_cons]
        omega
    · -- `v` is past the first entry
      cases i with
      | zero =>
        simp only [Option.map_eq_some_iff, Prod.mk.injEq, Nat.add_eq_zero_iff, one_ne_zero, and_false,
          false_and, exists_false, List.getD_cons_zero, List.take_zero, List.sum_nil, Nat.zero_add,
          false_iff, not_and]
        omega
      | succ i =>
        simp only [Option.map_eq_some_iff, Prod.mk.injEq, Nat.add_right_cancel_iff, Prod.exists,
          exists_eq_right_right, exists_eq_right, ih, List.length_cons, Nat.add_lt_add_iff_right,
          List.getD_cons_succ, List.take_succ_cons, List.sum_cons]
        omega

/-- **Counting by where the values land.**  Among the values below the total,
those that land in some entry `i` at an offset `r` with `q i r` are as many as
the pairs of an entry and an offset below its weight with `q`. -/
theorem card_filter_locate (ws : List ℕ) (q : ℕ → ℕ → Bool) :
    ((Finset.range ws.sum).filter fun v => (locate ws v).any fun p => q p.1 p.2).card =
      ∑ i ∈ Finset.range ws.length, ((Finset.range (ws.getD i 0)).filter fun r => q i r).card := by
  induction ws generalizing q with
  | nil => simp
  | cons w ws ih =>
    rw [List.sum_cons, Finset.range_add, Finset.filter_union, Finset.card_union_of_disjoint,
      Finset.filter_map, Finset.card_map, List.length_cons, Finset.sum_range_succ', add_comm]
    · -- the first `w` values land in the first entry, the others in the rest
      have hfirst : ((Finset.range w).filter fun v => (locate (w :: ws) v).any fun p => q p.1 p.2) =
          (Finset.range w).filter fun r => q 0 r := by
        apply Finset.filter_congr
        intro v hv
        rw [Finset.mem_range] at hv
        rw [locate_cons, if_pos hv]
        rfl
      have hrest : ((Finset.range ws.sum).filter
            ((fun v => (locate (w :: ws) v).any fun p => q p.1 p.2) ∘ addLeftEmbedding w)) =
          (Finset.range ws.sum).filter fun u => (locate ws u).any fun p => q (p.1 + 1) p.2 := by
        apply Finset.filter_congr
        intro u _
        simp only [Function.comp_apply, addLeftEmbedding_apply, locate_cons_add, Option.any_map]
      rw [hfirst, hrest, ih fun i r => q (i + 1) r]
      simp only [List.getD_cons_succ, List.getD_cons_zero]
    · -- the two runs of values do not meet
      rw [Finset.disjoint_left]
      intro v hv hv'
      rw [Finset.mem_filter, Finset.mem_range] at hv
      obtain ⟨u, -, rfl⟩ := Finset.mem_map.mp (Finset.mem_filter.mp hv').1
      simp only [addLeftEmbedding_apply] at hv
      omega

/-! ## Sums of 64-bit words -/

/-- A sum of words is the sum of their values, modulo `2 ^ 64`. -/
theorem toNat_sum {ι : Type*} (s : Finset ι) (f : ι → UInt64) :
    (∑ i ∈ s, f i).toNat = (∑ i ∈ s, (f i).toNat) % 2 ^ 64 := by
  classical
  induction s using Finset.induction_on with
  | empty => simp
  | insert a s ha ih =>
    rw [Finset.sum_insert ha, Finset.sum_insert ha, UInt64.toNat_add, ih, Nat.add_mod_mod]

end WeightedPick
