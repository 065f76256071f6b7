import Mathlib

/-!
# Smooth weighted round-robin

Smooth weighted round-robin serves `n` clients with positive integer weights
`w`.  Every client holds a credit; a round adds each client's weight to its
credit, selects a client whose credit is now maximal, and charges the selected
client the total weight `T = ∑ w`.  This module proves, for any way of breaking
ties, the fairness theorem of the scheme: started from zero credits,

* the credits return to zero after exactly `T` rounds (`credit_period`), so the
  selections are periodic with period `T` (`selected_add_period`);
* every window of `T` consecutive rounds selects each client exactly `w i`
  times (`card_window_selected`);
* a round never changes the total credit (`sum_step`).

## The argument

The invariant is `Balanced`: total credit zero and every credit above `-T`
(the maximal credit is positive once the weights are added).  The closed form `credit_apply` writes the credit after `t` rounds
as `t * w i - T * (selections of i)`, which after `T` rounds is a multiple of
`T`; above `-T` it is at least zero, and credits summing to zero that are all
nonnegative are all zero.

Ties are broken by an arbitrary `pick` of a maximal credit.
-/

namespace SmoothRoundRobin

open Finset

variable {ι : Type*} [Fintype ι] [DecidableEq ι]

/-- The total weight `T`. -/
def total (w : ι → ℤ) : ℤ := ∑ i, w i

/-- The client selected in a round from credits `c`: the pick among the credits
after the weights are added. -/
def chosen (w : ι → ℤ) (pick : (ι → ℤ) → ι) (c : ι → ℤ) : ι :=
  pick (c + w)

/-- One round: add the weights, then charge the chosen client the total weight. -/
def step (w : ι → ℤ) (pick : (ι → ℤ) → ι) (c : ι → ℤ) : ι → ℤ :=
  Function.update (c + w) (chosen w pick c) ((c + w) (chosen w pick c) - total w)

/-- The credits after `t` rounds from `c₀`. -/
def credit (w : ι → ℤ) (pick : (ι → ℤ) → ι) (c₀ : ι → ℤ) (t : ℕ) : ι → ℤ :=
  (step w pick)^[t] c₀

/-- The client selected in round `t` (counting from zero). -/
def selected (w : ι → ℤ) (pick : (ι → ℤ) → ι) (c₀ : ι → ℤ) (t : ℕ) : ι :=
  chosen w pick (credit w pick c₀ t)

/-- How often `i` was selected in the first `t` rounds. -/
def count (w : ι → ℤ) (pick : (ι → ℤ) → ι) (c₀ : ι → ℤ) (t : ℕ) (i : ι) : ℕ :=
  #{s ∈ range t | selected w pick c₀ s = i}

/-- The invariant: credits sum to zero and each exceeds `-T`. -/
def Balanced (w : ι → ℤ) (c : ι → ℤ) : Prop :=
  ∑ i, c i = 0 ∧ ∀ i, -total w < c i

variable (w : ι → ℤ) (pick : (ι → ℤ) → ι)

theorem step_apply (c : ι → ℤ) (i : ι) :
    step w pick c i = c i + w i - if i = chosen w pick c then total w else 0 := by
  unfold step
  by_cases h : i = chosen w pick c
  · subst h
    simp
  · simp [h]

@[simp] theorem credit_zero (c₀ : ι → ℤ) : credit w pick c₀ 0 = c₀ := rfl

theorem credit_succ (c₀ : ι → ℤ) (t : ℕ) :
    credit w pick c₀ (t + 1) = step w pick (credit w pick c₀ t) :=
  Function.iterate_succ_apply' _ _ _

theorem credit_add (c₀ : ι → ℤ) (s t : ℕ) :
    credit w pick c₀ (t + s) = credit w pick (credit w pick c₀ s) t :=
  Function.iterate_add_apply _ _ _ _

theorem count_succ (c₀ : ι → ℤ) (t : ℕ) (i : ι) :
    count w pick c₀ (t + 1) i =
      count w pick c₀ t i + if selected w pick c₀ t = i then 1 else 0 := by
  unfold count
  rw [range_add_one, filter_insert]
  split_ifs with h
  · rw [card_insert_of_notMem (by simp)]
  · rfl

/-- **A round keeps the total credit**: it adds `T` and charges `T`. -/
theorem sum_step (c : ι → ℤ) : ∑ i, step w pick c i = ∑ i, c i := by
  simp only [step_apply, sum_sub_distrib, sum_add_distrib, sum_ite_eq', mem_univ, if_true]
  unfold total
  ring

/-- **The closed form**: after `t` rounds, credit `i` has gained `t` weights and
paid `T` once per selection. -/
theorem credit_apply (c₀ : ι → ℤ) (t : ℕ) (i : ι) :
    credit w pick c₀ t i = c₀ i + t * w i - total w * count w pick c₀ t i := by
  induction t with
  | zero => simp [count]
  | succ t ih =>
      rw [credit_succ, step_apply, ih, count_succ]
      -- the selection of round `t` is the client charged in that round
      by_cases h : selected w pick c₀ t = i
      · have hc : i = chosen w pick (credit w pick c₀ t) := h.symm
        rw [if_pos hc, if_pos h]
        push_cast
        ring
      · have hc : ¬ i = chosen w pick (credit w pick c₀ t) := fun hc => h hc.symm
        rw [if_neg hc, if_neg h]
        push_cast
        ring

section Fair

variable {w pick}

omit [DecidableEq ι] in
/-- The total weight of positive weights over a nonempty index type is positive. -/
theorem total_pos [Nonempty ι] (hw : ∀ i, 0 < w i) : 0 < total w :=
  sum_pos (fun i _ => hw i) univ_nonempty

omit [DecidableEq ι] in
/-- In a balanced state the chosen client's bumped credit is positive: the
bumped credits sum to `T > 0`, and the chosen one is maximal among them. -/
theorem Balanced.chosen_pos (hw : ∀ i, 0 < w i) (hpick : ∀ (c : ι → ℤ) i, c i ≤ c (pick c))
    {c : ι → ℤ} (hc : Balanced w c) : 0 < c (chosen w pick c) + w (chosen w pick c) := by
  have : Nonempty ι := ⟨pick c⟩
  have hT := total_pos hw
  have hbump : ∑ k, (c + w) k = total w := by
    simp [Pi.add_apply, sum_add_distrib, hc.1, total]
  have hmax : ∀ k, (c + w) k ≤ (c + w) (chosen w pick c) := fun k => hpick (c + w) k
  by_contra hle
  have hle' : ∑ k, (c + w) k ≤ 0 :=
    sum_nonpos fun k _ => le_trans (hmax k) (not_lt.mp hle)
  omega

/-- **The step lemma**: a round keeps credits balanced, whenever weights are
positive and the pick returns a maximal credit. -/
theorem Balanced.step (hw : ∀ i, 0 < w i) (hpick : ∀ (c : ι → ℤ) i, c i ≤ c (pick c))
    {c : ι → ℤ} (hc : Balanced w c) : Balanced w (SmoothRoundRobin.step w pick c) := by
  refine ⟨(sum_step w pick c).trans hc.1, fun i => ?_⟩
  rw [step_apply]
  by_cases hi : i = chosen w pick c
  · -- the chosen client pays `T` out of a positive credit
    rw [if_pos hi, hi]
    have := hc.chosen_pos hw hpick
    omega
  · -- every other client only gains its weight
    rw [if_neg hi]
    have := hc.2 i
    have := hw i
    omega

/-- **The run lemma**: from zero credits every reachable credit vector is
balanced. -/
theorem balanced_credit (hw : ∀ i, 0 < w i) (hpick : ∀ (c : ι → ℤ) i, c i ≤ c (pick c)) (t : ℕ) :
    Balanced w (credit w pick 0 t) := by
  induction t with
  | zero =>
      refine ⟨by simp, fun i => ?_⟩
      have : Nonempty ι := ⟨i⟩
      simpa using total_pos hw
  | succ t ih =>
      rw [credit_succ]
      exact ih.step hw hpick

/-- The period: the total weight as a number of rounds. -/
def period (w : ι → ℤ) : ℕ := (total w).toNat

omit [DecidableEq ι] in
theorem period_cast (hw : ∀ i, 0 < w i) : (period w : ℤ) = total w := by
  unfold period
  exact Int.toNat_of_nonneg (sum_nonneg fun i _ => (hw i).le)

/-- **Credits return to zero after `T` rounds**, and in those rounds every
client was selected exactly its weight many times. -/
theorem credit_period (hw : ∀ i, 0 < w i) (hpick : ∀ (c : ι → ℤ) i, c i ≤ c (pick c)) :
    credit w pick 0 (period w) = 0 ∧ ∀ i, (count w pick 0 (period w) i : ℤ) = w i := by
  obtain ⟨hsum, hlow⟩ := balanced_credit hw hpick (period w)
  have hP := period_cast hw
  -- each credit is `T * (w i - count)`, a multiple of `T` above `-T`
  have hform : ∀ i, credit w pick 0 (period w) i =
      total w * (w i - count w pick 0 (period w) i) := by
    intro i
    rw [credit_apply, hP]
    simp only [Pi.zero_apply, zero_add]
    ring
  have hnonneg : ∀ i, 0 ≤ credit w pick 0 (period w) i := by
    intro i
    have hT : 0 < total w := by
      have : Nonempty ι := ⟨i⟩
      exact total_pos hw
    have hlo := hlow i
    rw [hform i] at hlo ⊢
    have hfac : -1 < w i - count w pick 0 (period w) i := by
      by_contra hle
      have : total w * (w i - count w pick 0 (period w) i) ≤ total w * (-1) :=
        mul_le_mul_of_nonneg_left (not_lt.mp hle) hT.le
      linarith
    exact mul_nonneg hT.le (by omega)
  have hzero : ∀ i, credit w pick 0 (period w) i = 0 :=
    fun i => (sum_eq_zero_iff_of_nonneg fun k _ => hnonneg k).mp hsum i (mem_univ i)
  refine ⟨funext hzero, fun i => ?_⟩
  have hT : total w ≠ 0 := by
    have : Nonempty ι := ⟨i⟩
    exact (total_pos hw).ne'
  have := hzero i
  rw [hform i] at this
  rcases mul_eq_zero.mp this with h | h
  · exact absurd h hT
  · omega

/-- **Selections are periodic** with the total weight as period. -/
theorem credit_add_period (hw : ∀ i, 0 < w i) (hpick : ∀ (c : ι → ℤ) i, c i ≤ c (pick c)) (t : ℕ) :
    credit w pick 0 (t + period w) = credit w pick 0 t := by
  rw [credit_add, (credit_period hw hpick).1]

theorem selected_add_period (hw : ∀ i, 0 < w i) (hpick : ∀ (c : ι → ℤ) i, c i ≤ c (pick c)) (t : ℕ) :
    selected w pick 0 (t + period w) = selected w pick 0 t := by
  unfold selected
  rw [credit_add_period hw hpick]

/-- Credits are periodic, so every credit is one of the first period. -/
theorem credit_mod_period (hw : ∀ i, 0 < w i) (hpick : ∀ (c : ι → ℤ) i, c i ≤ c (pick c)) (t : ℕ) :
    credit w pick 0 t = credit w pick 0 (t % period w) := by
  induction t using Nat.strong_induction_on with
  | _ t ih =>
      by_cases ht : t < period w
      · rw [Nat.mod_eq_of_lt ht]
      · have hle : period w ≤ t := not_lt.mp ht
        obtain ⟨s, rfl⟩ := Nat.exists_eq_add_of_le' hle
        have : Nonempty ι := ⟨pick 0⟩
        have hpos : 0 < period w := by
          have := total_pos hw
          have := period_cast hw
          omega
        rw [credit_add_period hw hpick, Nat.add_mod_right]
        exact ih s (by omega)

/-- **The credit bound**: from zero credits, a credit plus its weight never
exceeds `T` weights — the value a scheduler must be able to represent. -/
theorem credit_add_le (hw : ∀ i, 0 < w i) (hpick : ∀ (c : ι → ℤ) i, c i ≤ c (pick c))
    (t : ℕ) (i : ι) : credit w pick 0 t i + w i ≤ total w * w i := by
  have : Nonempty ι := ⟨i⟩
  have hT := total_pos hw
  have hP := period_cast hw
  have hlt : t % period w < period w := Nat.mod_lt _ (by omega)
  -- within the first period the credit is at most `(t % T) * w i`
  rw [credit_mod_period hw hpick, credit_apply]
  simp only [Pi.zero_apply, zero_add]
  have hcount : 0 ≤ total w * (count w pick 0 (t % period w) i : ℤ) :=
    mul_nonneg hT.le (Nat.cast_nonneg _)
  have hmod : ((t % period w : ℕ) : ℤ) + 1 ≤ total w := by omega
  have := mul_le_mul_of_nonneg_right hmod (hw i).le
  linarith

/-- Inserting a fresh element into a finset adds one to a filtered count exactly
when the element passes the filter. -/
private theorem card_filter_insert {s : Finset ℕ} {y : ℕ} (hy : y ∉ s) (p : ℕ → Prop)
    [DecidablePred p] : #{x ∈ insert y s | p x} = #{x ∈ s | p x} + if p y then 1 else 0 := by
  rw [filter_insert]
  split_ifs with h
  · rw [card_insert_of_notMem (fun hm => hy (mem_filter.mp hm).1)]
  · rfl

/-- **Fairness in every window**: any `T` consecutive rounds select client `i`
exactly `w i` times. -/
theorem card_window_selected (hw : ∀ i, 0 < w i) (hpick : ∀ (c : ι → ℤ) i, c i ≤ c (pick c))
    (a : ℕ) (i : ι) :
    (#{s ∈ Ico a (a + period w) | selected w pick 0 s = i} : ℤ) = w i := by
  induction a with
  | zero =>
      rw [zero_add, ← range_eq_Ico]
      exact (credit_period hw hpick).2 i
  | succ a ih =>
      -- the window `[a, a + T]` is the next window plus round `a`, and the current
      -- window plus round `a + T`; those two rounds select the same client
      have e₁ : Ico a (a + 1 + period w) = insert a (Ico (a + 1) (a + 1 + period w)) := by
        ext x
        simp only [mem_Ico, mem_insert]
        omega
      have e₂ : Ico a (a + 1 + period w) = insert (a + period w) (Ico a (a + period w)) := by
        ext x
        simp only [mem_Ico, mem_insert]
        omega
      have h₁ := card_filter_insert (show a ∉ Ico (a + 1) (a + 1 + period w) by simp)
        (fun s => selected w pick 0 s = i)
      have h₂ := card_filter_insert (show a + period w ∉ Ico a (a + period w) by simp)
        (fun s => selected w pick 0 s = i)
      rw [← e₁] at h₁
      rw [← e₂, selected_add_period hw hpick] at h₂
      have hshift : #{s ∈ Ico (a + 1) (a + 1 + period w) | selected w pick 0 s = i} =
          #{s ∈ Ico a (a + period w) | selected w pick 0 s = i} := by
        omega
      rw [hshift]
      exact ih

end Fair

end SmoothRoundRobin
