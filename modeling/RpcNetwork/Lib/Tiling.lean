import Mathlib

/-!
# Blocks laid end to end in key order

A finite set of keys, each with a length, is laid out from a base position in
increasing order of key: the block of `k` starts after the blocks of all keys
below `k`.  The blocks are disjoint, lie in `[base, base + Σ len)` and cover it
with no gap.  A loop that assigns the blocks one key at a time, in increasing
order and reassigning the greatest key when it comes again, keeps this layout
(`offsetOf_insert_of_not_lt`, `offsetOf_insert_self`).
-/

namespace RpcNetwork.Tiling

variable {κ : Type*} [LinearOrder κ]

/-- Where the block of `k` starts: after the blocks of the keys of `s` below `k`. -/
def offsetOf (s : Finset κ) (len : κ → ℕ) (base : ℕ) (k : κ) : ℕ :=
  base + ∑ m ∈ s with m < k, len m

variable {s : Finset κ} {len len' : κ → ℕ} {base : ℕ}

/-- **Order**: a block ends before the block of every greater key starts. -/
theorem offsetOf_add_le {j k : κ} (hj : j ∈ s) (hjk : j < k) :
    offsetOf s len base j + len j ≤ offsetOf s len base k := by
  have hsub : insert j (s.filter (· < j)) ⊆ s.filter (· < k) := by
    intro m hm
    rcases Finset.mem_insert.mp hm with rfl | hm
    · exact Finset.mem_filter.mpr ⟨hj, hjk⟩
    · obtain ⟨hms, hmj⟩ := Finset.mem_filter.mp hm
      exact Finset.mem_filter.mpr ⟨hms, hmj.trans hjk⟩
  have hle := Finset.sum_le_sum_of_subset (f := len) hsub
  rw [Finset.sum_insert (by simp)] at hle
  unfold offsetOf
  omega

/-- Two distinct keys have disjoint blocks. -/
theorem offsetOf_disjoint {j k : κ} (hj : j ∈ s) (hk : k ∈ s) (hne : j ≠ k) :
    offsetOf s len base j + len j ≤ offsetOf s len base k ∨
      offsetOf s len base k + len k ≤ offsetOf s len base j := by
  rcases lt_or_gt_of_ne hne with h | h
  · exact Or.inl (offsetOf_add_le hj h)
  · exact Or.inr (offsetOf_add_le hk h)

/-- Every block ends by `base + Σ len`. -/
theorem offsetOf_add_le_total {k : κ} (hk : k ∈ s) :
    offsetOf s len base k + len k ≤ base + ∑ m ∈ s, len m := by
  have hsub : insert k (s.filter (· < k)) ⊆ s := by
    intro m hm
    rcases Finset.mem_insert.mp hm with rfl | hm
    · exact hk
    · exact (Finset.mem_filter.mp hm).1
  have hle := Finset.sum_le_sum_of_subset (f := len) hsub
  rw [Finset.sum_insert (by simp)] at hle
  unfold offsetOf
  omega

/-- Adding a key that is not below `k` leaves the block of `k` where it was,
whatever the new key's length. -/
theorem offsetOf_insert_of_not_lt {a k : κ} (hak : ¬ a < k)
    (hlen : ∀ m ∈ s, m < k → len' m = len m) :
    offsetOf (insert a s) len' base k = offsetOf s len base k := by
  unfold offsetOf
  rw [Finset.filter_insert, if_neg hak]
  congr 1
  exact Finset.sum_congr rfl fun m hm => hlen m (Finset.mem_filter.mp hm).1 (Finset.mem_filter.mp hm).2

/-- A key at least as great as all others starts after all the others. -/
theorem offsetOf_insert_self {a : κ} (hmax : ∀ m ∈ s, m ≤ a)
    (hlen : ∀ m ∈ s, m ≠ a → len' m = len m) :
    offsetOf (insert a s) len' base a = base + ∑ m ∈ s.erase a, len m := by
  have hfilter : (insert a s).filter (· < a) = s.erase a := by
    ext m
    simp only [Finset.mem_filter, Finset.mem_insert, Finset.mem_erase]
    constructor
    · rintro ⟨rfl | hm, hlt⟩
      · exact absurd hlt (lt_irrefl _)
      · exact ⟨ne_of_lt hlt, hm⟩
    · rintro ⟨hne, hm⟩
      exact ⟨Or.inr hm, lt_of_le_of_ne (hmax m hm) hne⟩
  unfold offsetOf
  rw [hfilter]
  congr 1
  exact Finset.sum_congr rfl fun m hm => hlen m (Finset.mem_of_mem_erase hm) (Finset.ne_of_mem_erase hm)

/-- **No gap**: every position of `[base, base + Σ len)` lies in some block. -/
theorem exists_offsetOf_le_lt (s : Finset κ) {c : ℕ} (hc : base ≤ c)
    (hc' : c < base + ∑ m ∈ s, len m) :
    ∃ k ∈ s, offsetOf s len base k ≤ c ∧ c < offsetOf s len base k + len k := by
  induction s using Finset.induction_on_max with
  | empty => simp at hc'; omega
  | insert a t hlt ih =>
    have hat : a ∉ t := fun ha => lt_irrefl a (hlt a ha)
    rw [Finset.sum_insert hat] at hc'
    by_cases hlow : c < base + ∑ m ∈ t, len m
    · -- the position lies in a block of the smaller keys, which the new key leaves in place
      obtain ⟨k, hk, hkc⟩ := ih hlow
      have hoff : offsetOf (insert a t) len base k = offsetOf t len base k :=
        offsetOf_insert_of_not_lt (not_lt.mpr (hlt k hk).le) fun _ _ _ => rfl
      exact ⟨k, Finset.mem_insert_of_mem hk, by rw [hoff]; exact hkc⟩
    · -- the position lies in the block of the greatest key, laid last
      have hoff : offsetOf (insert a t) len base a = base + ∑ m ∈ t, len m := by
        rw [offsetOf_insert_self (fun m hm => (hlt m hm).le) fun _ _ _ => rfl,
          Finset.erase_eq_of_notMem hat]
      exact ⟨a, Finset.mem_insert_self a t, by rw [hoff]; omega⟩

end RpcNetwork.Tiling
