import Mathlib

/-!
# Lists sorted by a key as finite maps

A list whose keys strictly increase under a strict total order `lt` is a finite
map from keys to entries.  Such a map is read with binary search (`sort.Search`
in Go): `search` returns the first index whose key is not below the key sought.
An entry is added at that index, removed from it, or replaced there in place.
-/

namespace RpcNetwork.SortedMap

variable {α κ : Type*} (lt : κ → κ → Prop) (key : α → κ)

/-- The keys strictly increase: the list is a map from keys to entries. -/
def Sorted (l : List α) : Prop :=
  (l.map key).Pairwise lt

/-- `sort.Search` for `k`: the first index whose key is not below `k`. -/
def search [DecidableRel lt] (l : List α) (k : κ) : ℕ :=
  l.findIdx fun x => !decide (lt (key x) k)

variable {lt key} {l l' : List α}

theorem Sorted.lt_getElem (hs : Sorted lt key l) {i j : ℕ} (hij : i < j) (hj : j < l.length) :
    lt (key l[i]) (key l[j]) := by
  have := List.pairwise_iff_getElem.mp hs i j (by simp; omega) (by simpa using hj) hij
  simpa using this

theorem Sorted.sublist (hs : Sorted lt key l) (h : l'.Sublist l) : Sorted lt key l' :=
  List.Pairwise.sublist (h.map key) hs

/-- Lists with the same keys are sorted together. -/
theorem Sorted.of_map_eq (hs : Sorted lt key l) (h : l'.map key = l.map key) :
    Sorted lt key l' := by
  unfold Sorted
  rw [h]
  exact hs

/-- In a sorted list, what a cut keeps lies below what it drops. -/
theorem Sorted.lt_of_mem_take_of_mem_drop (hs : Sorted lt key l) {m : ℕ} {z y : α}
    (hz : z ∈ l.take m) (hy : y ∈ l.drop m) : lt (key z) (key y) := by
  have hsplit : ((l.take m).map key ++ (l.drop m).map key).Pairwise lt := by
    rw [← List.map_append, List.take_append_drop]
    exact hs
  exact (List.pairwise_append.mp hsplit).2.2 _ (List.mem_map_of_mem hz) _ (List.mem_map_of_mem hy)

/-- In a sorted list two entries with one key are at one index. -/
theorem Sorted.index_eq_of_key_eq [Std.Irrefl lt] (hs : Sorted lt key l) {i j : ℕ} (hi : i < l.length)
    (hj : j < l.length) (h : key l[i] = key l[j]) : i = j := by
  rcases Nat.lt_trichotomy i j with hij | rfl | hij
  · exact absurd (h ▸ hs.lt_getElem hij hj) (Std.Irrefl.irrefl _)
  · rfl
  · exact absurd (h ▸ hs.lt_getElem hij hi) (Std.Irrefl.irrefl _)

/-- The entries of a sorted list are distinct. -/
theorem Sorted.nodup [Std.Irrefl lt] (hs : Sorted lt key l) : l.Nodup := by
  refine List.Nodup.of_map key (hs.imp ?_)
  rintro a b hab rfl
  exact Std.Irrefl.irrefl a hab

/-- Removing the entry at `i` keeps the keys increasing. -/
theorem Sorted.eraseIdx (hs : Sorted lt key l) (i : ℕ) :
    Sorted lt key (l.take i ++ l.drop (i + 1)) := by
  rw [← List.eraseIdx_eq_take_drop_succ]
  exact hs.sublist (List.eraseIdx_sublist l i)

/-- Replacing the entry at `i` by one with its key keeps the keys increasing. -/
theorem Sorted.set (hs : Sorted lt key l) {i : ℕ} (hi : i < l.length) {x : α}
    (hx : key x = key l[i]) : Sorted lt key (l.set i x) := by
  refine hs.of_map_eq ?_
  rw [List.map_set, hx, ← List.getElem_map (f := key), List.set_getElem_self]
  simpa using hi

section Search

variable [DecidableRel lt] {k : κ}

/-- Every entry before the search index is below the key. -/
theorem lt_of_lt_search {j : ℕ} (hj : j < search lt key l k) (hjl : j < l.length) :
    lt (key l[j]) k := by
  have := List.not_of_lt_findIdx hj
  simpa using this

/-- The entry at the search index is not below the key. -/
theorem not_lt_search (h : search lt key l k < l.length) :
    ¬ lt (key l[search lt key l k]) k := by
  unfold search at h ⊢
  have := List.findIdx_getElem (w := h)
  simpa using this

variable [IsStrictTotalOrder κ lt]

/-- **Search on a sorted list** finds the index of every key present. -/
theorem search_getElem (hs : Sorted lt key l) {i : ℕ} (hi : i < l.length) :
    search lt key l (key l[i]) = i := by
  rw [search, List.findIdx_eq hi]
  refine ⟨by simp [irrefl_of lt], fun j hji => ?_⟩
  simpa using hs.lt_getElem hji hi

/-- On a sorted list the entry at the search index has the key exactly when
some entry has it. -/
theorem exists_search_iff (hs : Sorted lt key l) (k : κ) :
    (∃ x, l[search lt key l k]? = some x ∧ key x = k) ↔ ∃ x ∈ l, key x = k := by
  constructor
  · rintro ⟨x, hx, rfl⟩
    exact ⟨x, List.mem_of_getElem? hx, rfl⟩
  · rintro ⟨x, hx, rfl⟩
    obtain ⟨i, hi, rfl⟩ := List.mem_iff_getElem.mp hx
    rw [search_getElem hs hi]
    exact ⟨l[i], List.getElem?_eq_getElem hi, rfl⟩

/-- Every entry from the search index on is above a key that the entry there
does not have. -/
theorem lt_of_search_le (hs : Sorted lt key l)
    (hk : ∀ y, l[search lt key l k]? = some y → key y ≠ k) {j : ℕ} (hj : search lt key l k ≤ j)
    (hjl : j < l.length) : lt k (key l[j]) := by
  have hn : search lt key l k < l.length := lt_of_le_of_lt hj hjl
  -- the entry at the search index is not below `k` and is not `k`: it is above
  have hat : lt k (key l[search lt key l k]) := by
    rcases trichotomous_of lt k (key l[search lt key l k]) with h | h | h
    · exact h
    · exact absurd h.symm (hk _ (List.getElem?_eq_getElem hn))
    · exact absurd h (not_lt_search hn)
  rcases Nat.eq_or_lt_of_le hj with h | h
  · subst h
    exact hat
  · exact trans_of lt hat (hs.lt_getElem h hjl)

/-- **Inserting at the search index** an entry whose key is not there keeps the
keys increasing. -/
theorem Sorted.insert (hs : Sorted lt key l) {x : α}
    (hx : ∀ y, l[search lt key l (key x)]? = some y → key y ≠ key x) :
    Sorted lt key (l.take (search lt key l (key x)) ++ x :: l.drop (search lt key l (key x))) := by
  set n := search lt key l (key x) with hn
  have hsplit : ((l.take n).map key ++ (l.drop n).map key).Pairwise lt := by
    rw [← List.map_append, List.take_append_drop]
    exact hs
  obtain ⟨htake, hdrop, hcross⟩ := List.pairwise_append.mp hsplit
  have hbefore : ∀ y ∈ l.take n, lt (key y) (key x) := by
    intro y hy
    obtain ⟨j, hj, rfl⟩ := List.mem_take_iff_getElem.mp hy
    exact lt_of_lt_search (lt_of_lt_of_le hj (min_le_left _ _)) _
  have hafter : ∀ y ∈ l.drop n, lt (key x) (key y) := by
    intro y hy
    obtain ⟨j, hj, rfl⟩ := List.mem_drop_iff_getElem.mp hy
    exact lt_of_search_le hs hx (Nat.le_add_right n j) _
  unfold Sorted
  rw [List.map_append, List.map_cons, List.pairwise_append, List.pairwise_cons]
  refine ⟨htake, ⟨?_, hdrop⟩, ?_⟩
  · intro b hb
    obtain ⟨y, hy, rfl⟩ := List.mem_map.mp hb
    exact hafter y hy
  · intro a ha b hb
    obtain ⟨y, hy, rfl⟩ := List.mem_map.mp ha
    rcases List.mem_cons.mp hb with rfl | hb
    · exact hbefore y hy
    · exact hcross _ (List.mem_map_of_mem hy) _ hb

/-- **Sorting entries with distinct keys** by the order "not above" makes the
keys strictly increase. -/
theorem sorted_insertionSort {r : α → α → Prop} [DecidableRel r]
    (hr : ∀ a b, r a b ↔ ¬ lt (key b) (key a)) (hn : (l.map key).Nodup) :
    Sorted lt key (l.insertionSort r) := by
  have : Std.Total r := ⟨fun a b => by
    rw [hr, hr]
    by_contra h
    push Not at h
    exact asymm_of lt h.1 h.2⟩
  have : IsTrans α r := ⟨fun a b c hab hbc => by
    rw [hr] at hab hbc ⊢
    intro hca
    -- place `c` against `b`: each position contradicts one hypothesis
    rcases trichotomous_of lt (key c) (key b) with h | h | h
    · exact hbc h
    · exact hab (h ▸ hca)
    · exact hab (trans_of lt h hca)⟩
  have hperm := List.perm_insertionSort r l
  have hne : ((l.insertionSort r).map key).Pairwise (· ≠ ·) :=
    List.nodup_iff_pairwise_ne.mp ((hperm.map key).nodup_iff.mpr hn)
  unfold Sorted
  refine List.pairwise_map.mpr (((List.pairwise_insertionSort r l).and
    (List.pairwise_map.mp hne)).imp ?_)
  rintro a b ⟨hab, hne⟩
  rw [hr] at hab
  rcases trichotomous_of lt (key a) (key b) with h | h | h
  · exact h
  · exact absurd h hne
  · exact absurd h hab

end Search

end RpcNetwork.SortedMap
