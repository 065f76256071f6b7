import Mathlib

/-!
# Exchange sort and adjacent deduplication

Two in-place loops on a slice, written as they run:

* the exchange sort `for i { for j > i { if a[i] > a[j] { swap } } }`, each
  pass of which leaves at `i` the least of `a[i:]`;
* the loop that deletes `a[i]` when it equals `a[i-1]` and otherwise moves on,
  which on a sorted slice leaves a strictly increasing one.

Positions are read with `xs[k]?`, so that the invariants need no bounds.
-/

namespace RpcNetwork.ExchangeSort

variable {α : Type*} [LinearOrder α]

/-- `if a[i] > a[j] { a[i], a[j] = a[j], a[i] }`. -/
def exchange (xs : List α) (i j : ℕ) : List α :=
  if h : i < xs.length ∧ j < xs.length then
    if xs[j] < xs[i] then (xs.set i xs[j]).set j xs[i] else xs
  else xs

/-- The inner loop of pass `i`: an exchange with each later `j`. -/
def innerLoop (i : ℕ) (js : List ℕ) (xs : List α) : List α :=
  js.foldl (fun ys j => exchange ys i j) xs

/-- `for i := 0; i < n; i++ { for j := i + 1; j < n; j++ { … } }`. -/
def exchangeSort (xs : List α) : List α :=
  (List.range xs.length).foldl
    (fun ys i => innerLoop i (List.range' (i + 1) (xs.length - (i + 1))) ys) xs

/-- `xs[a] ≤ xs[b]`, where both are present. -/
def LeAt (xs : List α) (a b : ℕ) : Prop :=
  ∀ x y, xs[a]? = some x → xs[b]? = some y → x ≤ y

/-- Every position below `i` holds a value below everything after it. -/
def Settled (xs : List α) (i : ℕ) : Prop :=
  ∀ a b, a < i → a < b → LeAt xs a b

section Exchange

variable {xs : List α} {i j : ℕ}

@[simp] theorem length_exchange (xs : List α) (i j : ℕ) :
    (exchange xs i j).length = xs.length := by
  unfold exchange
  split_ifs <;> simp

theorem exchange_perm (xs : List α) (i j : ℕ) : (exchange xs i j).Perm xs := by
  unfold exchange
  split_ifs with h
  · exact List.set_set_perm h.1 h.2
  · exact List.Perm.refl _
  · exact List.Perm.refl _

/-- Away from `i` and `j` nothing moves. -/
theorem getElem?_exchange_of_ne {k : ℕ} (hi : k ≠ i) (hj : k ≠ j) :
    (exchange xs i j)[k]? = xs[k]? := by
  unfold exchange
  split_ifs <;> simp [Ne.symm hi, Ne.symm hj]

/-- The exchange leaves the smaller of the two values at `i` and the larger at
`j`. -/
theorem getElem?_exchange (hij : i ≠ j) (hi : i < xs.length) (hj : j < xs.length) :
    (exchange xs i j)[i]? = some (min xs[i] xs[j]) ∧
      (exchange xs i j)[j]? = some (max xs[i] xs[j]) := by
  unfold exchange
  rw [dif_pos ⟨hi, hj⟩]
  split_ifs with hlt
  · -- swapped
    simp [Ne.symm hij, hi, hj, min_eq_right hlt.le, max_eq_left hlt.le]
  · have hle : xs[i] ≤ xs[j] := not_lt.mp hlt
    simp [List.getElem?_eq_getElem hi, List.getElem?_eq_getElem hj, min_eq_left hle,
      max_eq_right hle]

/-- **One exchange of pass `i`** keeps the settled prefix, and extends by `j`
the positions after `i` known to be above `xs[i]`. -/
theorem exchange_settled (hset : Settled xs i) (hinner : ∀ k, i < k → k < j → LeAt xs i k)
    (hij : i < j) :
    Settled (exchange xs i j) i ∧ ∀ k, i < k → k < j + 1 → LeAt (exchange xs i j) i k := by
  by_cases hin : i < xs.length ∧ j < xs.length
  · obtain ⟨hi, hj⟩ := hin
    obtain ⟨hxi, hxj⟩ := getElem?_exchange (Nat.ne_of_lt hij) hi hj
    have hxi' := List.getElem?_eq_getElem hi
    have hxj' := List.getElem?_eq_getElem hj
    constructor
    · -- the prefix is untouched, and both moved values are above it
      intro a b ha hab x y hx hy
      rw [getElem?_exchange_of_ne (by omega) (by omega)] at hx
      by_cases hbi : b = i
      · subst hbi
        rw [hxi, Option.some.injEq] at hy
        subst hy
        exact le_min (hset a _ ha hab x _ hx hxi') (hset a j ha (by omega) x _ hx hxj')
      · by_cases hbj : b = j
        · subst hbj
          rw [hxj, Option.some.injEq] at hy
          subst hy
          exact (hset a i ha (by omega) x _ hx hxi').trans (le_max_left _ _)
        · rw [getElem?_exchange_of_ne hbi hbj] at hy
          exact hset a b ha hab x y hx hy
    · -- `i` now holds the least of what it held and what `j` held
      intro k hik hkj x y hx hy
      rw [hxi, Option.some.injEq] at hx
      subst hx
      by_cases hk : k = j
      · subst hk
        rw [hxj, Option.some.injEq] at hy
        subst hy
        exact (min_le_left _ _).trans (le_max_left _ _)
      · rw [getElem?_exchange_of_ne (by omega) hk] at hy
        exact (min_le_left _ _).trans (hinner k hik (by omega) _ y hxi' hy)
  · -- out of range, nothing moves and `xs[j]` is absent
    have hid : exchange xs i j = xs := by
      unfold exchange
      rw [dif_neg hin]
    rw [hid]
    refine ⟨hset, fun k hik hkj x y hx hy => ?_⟩
    by_cases hk : k = j
    · subst hk
      exact absurd ⟨(List.getElem?_eq_some_iff.mp hx).1, (List.getElem?_eq_some_iff.mp hy).1⟩ hin
    · exact hinner k hik (by omega) x y hx hy

end Exchange

section Sorting

@[simp] theorem length_innerLoop (i : ℕ) (js : List ℕ) (xs : List α) :
    (innerLoop i js xs).length = xs.length := by
  induction js generalizing xs with
  | nil => rfl
  | cons j js ih =>
    show (innerLoop i js (exchange xs i j)).length = xs.length
    rw [ih, length_exchange]

theorem innerLoop_perm (i : ℕ) (js : List ℕ) (xs : List α) : (innerLoop i js xs).Perm xs := by
  induction js generalizing xs with
  | nil => exact List.Perm.refl _
  | cons j js ih => exact (ih (exchange xs i j)).trans (exchange_perm xs i j)

/-- **Pass `i`** over `j = i + 1, …, i + m` keeps the settled prefix and puts
at `i` a value below every one of those positions. -/
theorem innerLoop_settled {xs : List α} {i : ℕ} (hset : Settled xs i) (m : ℕ) :
    Settled (innerLoop i (List.range' (i + 1) m) xs) i ∧
      ∀ k, i < k → k < i + 1 + m → LeAt (innerLoop i (List.range' (i + 1) m) xs) i k := by
  induction m with
  | zero => exact ⟨hset, fun k hik hk => absurd hk (by omega)⟩
  | succ m ih =>
    have hlast : innerLoop i (List.range' (i + 1) (m + 1)) xs =
        exchange (innerLoop i (List.range' (i + 1) m) xs) i (i + 1 + m) := by
      rw [innerLoop, List.range'_1_concat, List.foldl_append]
      rfl
    rw [hlast]
    have := exchange_settled ih.1 ih.2 (by omega : i < i + 1 + m)
    refine ⟨this.1, fun k hik hk => this.2 k hik (by omega)⟩

theorem settled_zero (xs : List α) : Settled xs 0 := fun _ _ ha => absurd ha (Nat.not_lt_zero _)

/-- After pass `i` the prefix up to `i` is settled. -/
theorem settled_succ {xs : List α} {i : ℕ} (hset : Settled xs i) :
    Settled (innerLoop i (List.range' (i + 1) (xs.length - (i + 1))) xs) (i + 1) := by
  obtain ⟨hbefore, hpass⟩ := innerLoop_settled hset (xs.length - (i + 1))
  intro a b ha hab x y hx hy
  rcases Nat.lt_or_ge a i with ha' | ha'
  · exact hbefore a b ha' hab x y hx hy
  · have hai : a = i := by omega
    subst hai
    -- past the end there is nothing to compare with
    by_cases hb : b < xs.length
    · exact hpass b hab (by omega) x y hx hy
    · have : (innerLoop a (List.range' (a + 1) (xs.length - (a + 1))) xs)[b]? = none := by
        rw [List.getElem?_eq_none_iff, length_innerLoop]
        omega
      rw [this] at hy
      cases hy

theorem exchangeSort_perm (xs : List α) : (exchangeSort xs).Perm xs := by
  unfold exchangeSort
  generalize xs.length = n
  induction (List.range n) generalizing xs with
  | nil => exact List.Perm.refl _
  | cons i is ih =>
    simp only [List.foldl_cons]
    exact (ih _).trans (innerLoop_perm _ _ _)

theorem length_foldl_passes (n : ℕ) (is : List ℕ) (ys : List α) :
    (is.foldl (fun ys i => innerLoop i (List.range' (i + 1) (n - (i + 1))) ys) ys).length =
      ys.length := by
  induction is generalizing ys with
  | nil => rfl
  | cons i is ih =>
    rw [List.foldl_cons, ih, length_innerLoop]

/-- The passes `0, …, p - 1` settle the prefix of length `p`. -/
theorem foldl_passes_settled (xs : List α) (p : ℕ) :
    Settled ((List.range p).foldl
      (fun ys i => innerLoop i (List.range' (i + 1) (xs.length - (i + 1))) ys) xs) p := by
  induction p with
  | zero => exact settled_zero xs
  | succ p ih =>
    rw [List.range_succ, List.foldl_append, List.foldl_cons, List.foldl_nil]
    have hlen := length_foldl_passes xs.length (List.range p) xs
    have := settled_succ ih
    rwa [hlen] at this

/-- **The exchange sort sorts.** -/
theorem exchangeSort_sorted (xs : List α) : (exchangeSort xs).Pairwise (· ≤ ·) := by
  have hset := foldl_passes_settled xs xs.length
  rw [List.pairwise_iff_getElem]
  intro a b ha hb hab
  have hlen : (exchangeSort xs).length = xs.length := (exchangeSort_perm xs).length_eq
  exact hset a b (by omega) hab _ _ (List.getElem?_eq_getElem ha) (List.getElem?_eq_getElem hb)

end Sorting

section Dedup

/-- `for i := 1; i < len(a); i++ { if a[i] == a[i-1] { a = append(a[:i], a[i+1:]...); i-- } }`,
for at most `fuel` more passes: a deletion keeps `i`, a kept element moves it on. -/
def dedupLoop : ℕ → ℕ → List α → List α
  | 0, _, xs => xs
  | fuel + 1, i, xs =>
    if h : i < xs.length then
      if xs[i] = xs[i - 1] then dedupLoop fuel i (xs.eraseIdx i) else dedupLoop fuel (i + 1) xs
    else xs

/-- The whole loop: each pass deletes an element or moves on, so the length
bounds the passes. -/
def dedupAdjacent (xs : List α) : List α := dedupLoop xs.length 1 xs

/-- The prefix of length `i` is strictly increasing. -/
def StrictBelow (xs : List α) (i : ℕ) : Prop := (xs.take i).Pairwise (· < ·)

/-- **One pass** of the loop keeps the list nondecreasing with the same
members, and the prefix strictly increasing; the run ends with the whole list
strictly increasing. -/
theorem dedupLoop_spec : ∀ (fuel i : ℕ) (xs : List α), 1 ≤ i → xs.length ≤ fuel + i →
    xs.Pairwise (· ≤ ·) → StrictBelow xs i →
    (dedupLoop fuel i xs).Pairwise (· < ·) ∧ ∀ x, x ∈ dedupLoop fuel i xs ↔ x ∈ xs
  | 0, i, xs, _, hfuel, _, hstrict => by
    refine ⟨?_, fun x => Iff.rfl⟩
    rw [StrictBelow, List.take_of_length_le (by omega)] at hstrict
    exact hstrict
  | fuel + 1, i, xs, hi, hfuel, hsorted, hstrict => by
    unfold dedupLoop
    split_ifs with hlt heq
    · -- `xs[i]` repeats `xs[i - 1]`: delete it
      have hlen : (xs.eraseIdx i).length = xs.length - 1 := List.length_eraseIdx_of_lt hlt
      have hsorted' : (xs.eraseIdx i).Pairwise (· ≤ ·) := hsorted.sublist (List.eraseIdx_sublist _ _)
      have hstrict' : StrictBelow (xs.eraseIdx i) i := by
        unfold StrictBelow
        rw [List.take_eraseIdx_eq_take_of_le _ _ _ (Nat.le_refl i)]
        exact hstrict
      obtain ⟨hres, hmem⟩ := dedupLoop_spec fuel i (xs.eraseIdx i) hi (by omega) hsorted' hstrict'
      refine ⟨hres, fun x => (hmem x).trans ?_⟩
      -- the deleted value is still there, one place before
      constructor
      · exact fun hx => (List.eraseIdx_sublist _ _).subset hx
      · intro hx
        obtain ⟨k, hk, rfl⟩ := List.getElem_of_mem hx
        rw [List.mem_iff_getElem]
        rcases Nat.lt_trichotomy k i with hki | rfl | hki
        · exact ⟨k, by omega, List.getElem_eraseIdx_of_lt (by omega) hki⟩
        · exact ⟨k - 1, by omega, by rw [List.getElem_eraseIdx_of_lt (by omega) (by omega), heq]⟩
        · refine ⟨k - 1, by omega, ?_⟩
          rw [List.getElem_eraseIdx_of_ge (by omega) (by omega)]
          congr 1
          omega
    · -- a new value, above the one before it: the prefix grows
      have hprev : xs[i - 1] < xs[i] :=
        lt_of_le_of_ne (List.pairwise_iff_getElem.mp hsorted (i - 1) i (by omega) hlt (by omega))
          (fun h => heq h.symm)
      have hstrict' : StrictBelow xs (i + 1) := by
        unfold StrictBelow
        rw [List.take_add_one, List.getElem?_eq_getElem hlt, Option.toList_some,
          List.pairwise_append]
        refine ⟨hstrict, List.pairwise_singleton _ _, fun a ha b hb => ?_⟩
        rw [List.mem_singleton] at hb
        subst hb
        obtain ⟨k, hk, rfl⟩ := List.getElem_of_mem ha
        rw [List.length_take] at hk
        rw [List.getElem_take]
        -- everything before `i - 1` is at most `xs[i - 1]`
        have hle : xs[k] ≤ xs[i - 1] := by
          rcases Nat.lt_or_ge k (i - 1) with hk' | hk'
          · exact List.pairwise_iff_getElem.mp hsorted k (i - 1) (by omega) (by omega) hk'
          · have hki : k = i - 1 := by omega
            simp only [hki, le_refl]
        exact lt_of_le_of_lt hle hprev
      exact dedupLoop_spec fuel (i + 1) xs (by omega) (by omega) hsorted hstrict'
    · -- past the end: the prefix is the whole list
      refine ⟨?_, fun x => Iff.rfl⟩
      rw [StrictBelow, List.take_of_length_le (by omega)] at hstrict
      exact hstrict

theorem dedupAdjacent_spec {xs : List α} (h : xs.Pairwise (· ≤ ·)) :
    (dedupAdjacent xs).Pairwise (· < ·) ∧ ∀ x, x ∈ dedupAdjacent xs ↔ x ∈ xs := by
  refine dedupLoop_spec xs.length 1 xs (Nat.le_refl 1) (by omega) h ?_
  -- a prefix of one element is strictly increasing
  unfold StrictBelow
  cases xs with
  | nil => simp
  | cons x xs => simp

end Dedup

end RpcNetwork.ExchangeSort
