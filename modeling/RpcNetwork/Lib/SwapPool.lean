import Mathlib

/-!
# Pools with back-pointers

A pool is a list whose members record their own positions, so that a member
can be removed without a search: the last member moves into its place and the
list gets one shorter.  `Indexed` says that every member records its position;
`Tracked` says that a value is in the pool or is marked `-1`.  Appending and
swap-removal keep both.
-/

namespace RpcNetwork.SwapPool

variable {α : Type*}

/-- Every member of `pool` records its own position in `index`. -/
def Indexed (pool : List α) (index : α → ℤ) : Prop :=
  ∀ i (h : i < pool.length), index pool[i] = i

/-- `a` is a member of `pool`, or is marked `-1`. -/
def Tracked (pool : List α) (index : α → ℤ) (a : α) : Prop :=
  index a = -1 ∨ a ∈ pool

section Indexed

variable {pool : List α} {index : α → ℤ}

/-- Members at different positions are different. -/
theorem Indexed.getElem_ne (hI : Indexed pool index) {i j : ℕ} (hi : i < pool.length)
    (hj : j < pool.length) (hij : i ≠ j) : pool[i] ≠ pool[j] := by
  intro heq
  have hi' := hI i hi
  rw [heq, hI j hj] at hi'
  omega

theorem Indexed.nodup (hI : Indexed pool index) : pool.Nodup := by
  rw [List.nodup_iff_injective_get]
  intro ⟨i, hi⟩ ⟨j, hj⟩ heq
  simp only [List.get_eq_getElem] at heq
  by_contra hne
  exact hI.getElem_ne hi hj (fun hij => hne (Fin.ext hij)) heq

/-- A member sits at the position it records. -/
theorem Indexed.getElem_index (hI : Indexed pool index) {a : α} (ha : a ∈ pool) :
    ∃ h : (index a).toNat < pool.length, 0 ≤ index a ∧ pool[(index a).toNat] = a := by
  obtain ⟨i, hi, rfl⟩ := List.getElem_of_mem ha
  have := hI i hi
  rw [this]
  exact ⟨by simpa using hi, by omega, by simp⟩

end Indexed

variable [DecidableEq α]

/-- Append `a`, recording its position. -/
def push (pool : List α) (index : α → ℤ) (a : α) : List α × (α → ℤ) :=
  (pool ++ [a], Function.update index a pool.length)

/-- Remove the member at `i`: the last member moves to `i`, the list loses its
last place, and the removed member is marked `-1`. -/
def swapRemove (pool : List α) (index : α → ℤ) (i : ℕ) (h : i < pool.length) :
    List α × (α → ℤ) :=
  let last := pool[pool.length - 1]
  ((pool.set i last).take (pool.length - 1),
    Function.update (Function.update index last i) pool[i] (-1))

section Ops

variable {pool : List α} {index : α → ℤ}

theorem Indexed.push (hI : Indexed pool index) {a : α} (ha : a ∉ pool) :
    Indexed (push pool index a).1 (push pool index a).2 := by
  intro i h
  simp only [SwapPool.push, List.length_append, List.length_singleton] at h ⊢
  rcases Nat.lt_or_ge i pool.length with hi | hi
  · -- an old member keeps its position
    rw [List.getElem_append_left hi]
    have hne : pool[i] ≠ a := fun heq => ha (heq ▸ List.getElem_mem hi)
    rw [Function.update_of_ne hne, hI i hi]
  · -- the new member is last
    have hi' : i = pool.length := by omega
    subst hi'
    simp

theorem length_swapRemove {i : ℕ} (h : i < pool.length) :
    (swapRemove pool index i h).1.length = pool.length - 1 := by
  simp only [swapRemove, List.length_take, List.length_set]
  omega

/-- The last member lands at the removed position, -/
theorem getElem_swapRemove_self {i : ℕ} (h : i < pool.length)
    (hi : i < (swapRemove pool index i h).1.length) :
    (swapRemove pool index i h).1[i] = pool[pool.length - 1] := by
  simp only [swapRemove, List.getElem_take, List.getElem_set_self]

/-- and every other member stays where it was. -/
theorem getElem_swapRemove_of_ne {i j : ℕ} (h : i < pool.length)
    (hj : j < (swapRemove pool index i h).1.length) (hj' : j < pool.length) (hji : j ≠ i) :
    (swapRemove pool index i h).1[j] = pool[j] := by
  simp only [swapRemove, List.getElem_take]
  exact List.getElem_set_ne (Ne.symm hji) _

theorem Indexed.swapRemove (hI : Indexed pool index) {i : ℕ} (h : i < pool.length) :
    Indexed (swapRemove pool index i h).1 (swapRemove pool index i h).2 := by
  intro j hj
  have hlen := @length_swapRemove _ _ pool index i h
  by_cases hji : j = i
  · -- the last member, moved to `i`, now records `i`
    subst hji
    rw [getElem_swapRemove_self]
    have hne : pool[pool.length - 1] ≠ pool[j] := hI.getElem_ne _ _ (by omega)
    simp only [SwapPool.swapRemove]
    rw [Function.update_of_ne hne, Function.update_self]
  · have hj' : j < pool.length := by omega
    rw [getElem_swapRemove_of_ne h hj hj' hji]
    -- every other member keeps its position
    have hne₁ : pool[j] ≠ pool[i] := hI.getElem_ne _ _ hji
    have hne₂ : pool[j] ≠ pool[pool.length - 1] := hI.getElem_ne _ _ (by omega)
    simp only [SwapPool.swapRemove]
    rw [Function.update_of_ne hne₁, Function.update_of_ne hne₂, hI j]

theorem mem_swapRemove (hI : Indexed pool index) {i : ℕ} (h : i < pool.length) {b : α} :
    b ∈ (swapRemove pool index i h).1 ↔ b ∈ pool ∧ b ≠ pool[i] := by
  have hlen := @length_swapRemove _ _ pool index i h
  constructor
  · intro hb
    obtain ⟨j, hj, rfl⟩ := List.getElem_of_mem hb
    by_cases hji : j = i
    · subst hji
      rw [getElem_swapRemove_self]
      exact ⟨List.getElem_mem _, hI.getElem_ne _ _ (by omega)⟩
    · rw [getElem_swapRemove_of_ne h hj (by omega) hji]
      exact ⟨List.getElem_mem _, hI.getElem_ne _ _ hji⟩
  · rintro ⟨hb, hne⟩
    obtain ⟨k, hk, rfl⟩ := List.getElem_of_mem hb
    have hki : k ≠ i := fun hki => hne (by simp [hki])
    by_cases hlast : k = pool.length - 1
    · -- the last member now sits at `i`
      have hi : i < (swapRemove pool index i h).1.length := by omega
      have hget := @getElem_swapRemove_self _ _ pool index i h hi
      simp only [hlast]
      exact hget ▸ List.getElem_mem hi
    · have hk' : k < (swapRemove pool index i h).1.length := by omega
      exact getElem_swapRemove_of_ne h hk' hk hki ▸ List.getElem_mem hk'

theorem Tracked.push {a b : α} (hb : Tracked pool index b) :
    Tracked (push pool index a).1 (push pool index a).2 b := by
  by_cases hba : b = a
  · subst hba
    exact .inr (by simp [SwapPool.push])
  · rcases hb with hb | hb
    · exact .inl (by simp [SwapPool.push, Function.update_of_ne hba, hb])
    · exact .inr (by simp [SwapPool.push, hb])

theorem Tracked.swapRemove (hI : Indexed pool index) {i : ℕ} (h : i < pool.length) {b : α}
    (hb : Tracked pool index b) :
    Tracked (swapRemove pool index i h).1 (swapRemove pool index i h).2 b := by
  by_cases hbi : b = pool[i]
  · -- the removed member is marked
    exact .inl (by simp [SwapPool.swapRemove, hbi])
  · rcases hb with hb | hb
    · by_cases hlast : b = pool[pool.length - 1]
      · -- the moved member is still in the pool
        refine .inr ((mem_swapRemove hI h).mpr ⟨?_, hbi⟩)
        exact hlast ▸ List.getElem_mem _
      · exact .inl (by simp [SwapPool.swapRemove, Function.update_of_ne hbi,
          Function.update_of_ne hlast, hb])
    · exact .inr ((mem_swapRemove hI h).mpr ⟨hb, hbi⟩)

end Ops

end RpcNetwork.SwapPool
