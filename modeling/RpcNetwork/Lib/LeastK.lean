import Mathlib
import RpcNetwork.Lib.SortedMap

/-!
# Keeping the `k` least entries of a stream

A bounded list offered one entry at a time keeps, of all the entries offered to
it, the `k` whose keys are least, in increasing order of key.  An entry is
offered by inserting it at the search index of its key and cutting the list to
its bound: one longer while the list has room, its old length once it is full.
The keys of the entries offered are distinct.
-/

namespace RpcNetwork.LeastK

open SortedMap

variable {α κ : Type*}

/-- Two predicates that agree on a list's members find the same index. -/
theorem findIdx_congr {p q : α → Bool} : ∀ {l : List α}, (∀ x ∈ l, p x = q x) →
    l.findIdx p = l.findIdx q
  | [], _ => rfl
  | x :: l, h => by
    rw [List.findIdx_cons, List.findIdx_cons, h x List.mem_cons_self,
      findIdx_congr fun y hy => h y (List.mem_cons_of_mem x hy)]

variable [LinearOrder κ] (key : α → κ)

/-- `E` holds the `k` entries of `p` with the least keys, in increasing order of
key: every entry of `p` left out is above every entry kept. -/
structure Least (k : ℕ) (p E : List α) : Prop where
  sorted : Sorted (· < ·) key E
  subset : E ⊆ p
  length_eq : E.length = min k p.length
  lt_of_not_mem : ∀ y ∈ p, y ∉ E → ∀ e ∈ E, key e < key y

/-- `x` inserted at the search index of its key. -/
def insertAt (E : List α) (x : α) : List α :=
  E.take (search (· < ·) key E (key x)) ++ x :: E.drop (search (· < ·) key E (key x))

/-- Offering `x` to a list of bound `k`: insert it, cut to the bound. -/
def offer (k : ℕ) (E : List α) (x : α) : List α :=
  (insertAt key E x).take (if E.length < k then E.length + 1 else E.length)

variable {key} {k : ℕ} {p E : List α} {x : α}

theorem Least.nil : Least key k [] [] :=
  ⟨List.Pairwise.nil, List.Subset.refl _, by simp, by simp⟩

theorem perm_insertAt : (insertAt key E x).Perm (x :: E) := by
  unfold insertAt
  exact List.perm_middle.trans (by rw [List.take_append_drop])

@[simp] theorem mem_insertAt {z : α} : z ∈ insertAt key E x ↔ z = x ∨ z ∈ E := by
  rw [perm_insertAt.mem_iff, List.mem_cons]

theorem length_insertAt : (insertAt key E x).length = E.length + 1 := by
  rw [perm_insertAt.length_eq, List.length_cons]

omit [LinearOrder κ] in
theorem key_ne_of_nodup (hp : ((p ++ [x]).map key).Nodup) : ∀ y ∈ p, key y ≠ key x := by
  intro y hy hxy
  rw [List.map_append, List.nodup_append] at hp
  exact hp.2.2 _ (List.mem_map_of_mem hy) _ (List.mem_singleton_self _) hxy

section Offer

variable (h : Least key k p E) (hp : ((p ++ [x]).map key).Nodup)
include h hp

/-- The inserted entry finds its place: the keys still increase. -/
theorem Least.sorted_insertAt : Sorted (· < ·) key (insertAt key E x) := by
  refine h.sorted.insert fun y hy => key_ne_of_nodup hp y (h.subset (List.mem_of_getElem? hy))

theorem Least.subset_insertAt : insertAt key E x ⊆ p ++ [x] := by
  intro z hz
  rcases mem_insertAt.mp hz with rfl | hz
  · exact List.mem_append_right _ (List.mem_singleton_self _)
  · exact List.mem_append_left _ (h.subset hz)

/-- While the list has room it has kept every entry offered. -/
theorem Least.perm_of_length_lt (hk : E.length < k) : E.Perm p := by
  have hnodup : p.Nodup := List.Nodup.of_map key (List.Nodup.of_append_left (by simpa using hp))
  refine (List.subperm_of_subset h.sorted.nodup h.subset).perm_of_length_le ?_
  have := h.length_eq
  omega

/-- An offer to a list with room keeps everything. -/
theorem Least.offer_of_lt (hk : E.length < k) : Least key k (p ++ [x]) (insertAt key E x) where
  sorted := h.sorted_insertAt hp
  subset := h.subset_insertAt hp
  length_eq := by
    rw [length_insertAt, List.length_append, List.length_singleton]
    have := h.length_eq
    omega
  lt_of_not_mem := by
    intro y hy hyI
    -- nothing offered is left out: `E` holds all of `p`, and `x` is inserted
    exfalso
    rcases List.mem_append.mp hy with hy | hy
    · exact hyI (mem_insertAt.mpr (Or.inr ((h.perm_of_length_lt hp hk).mem_iff.mpr hy)))
    · exact hyI (mem_insertAt.mpr (Or.inl (List.mem_singleton.mp hy)))

/-- An offer to a full list drops the entry with the greatest key. -/
theorem Least.offer_of_le (hk : k ≤ E.length) :
    Least key k (p ++ [x]) ((insertAt key E x).take E.length) where
  sorted := (h.sorted_insertAt hp).sublist (List.take_sublist _ _)
  subset := fun _ hz => h.subset_insertAt hp (List.mem_of_mem_take hz)
  length_eq := by
    rw [List.length_take, length_insertAt, List.length_append, List.length_singleton]
    have := h.length_eq
    omega
  lt_of_not_mem := by
    intro y hy hyR e he
    have hsI := h.sorted_insertAt hp
    by_cases hyI : y ∈ insertAt key E x
    · -- `y` is the entry the cut drops
      refine hsI.lt_of_mem_take_of_mem_drop he ?_
      rw [← List.take_append_drop E.length (insertAt key E x)] at hyI
      exact (List.mem_append.mp hyI).resolve_left hyR
    · -- `y` was left out before: it lies above all of `E`, and above `x` through
      -- the entry the cut drops
      have hyE : y ∉ E := fun hyE => hyI (mem_insertAt.mpr (Or.inr hyE))
      have hyp : y ∈ p := (List.mem_append.mp hy).resolve_right fun hyx =>
        hyI (mem_insertAt.mpr (Or.inl (List.mem_singleton.mp hyx)))
      rcases mem_insertAt.mp (List.mem_of_mem_take he) with rfl | heE
      · obtain ⟨w, hw⟩ : ∃ w, w ∈ (insertAt key E e).drop E.length := by
          refine List.exists_mem_of_ne_nil _ ?_
          rw [← List.length_pos_iff, List.length_drop, length_insertAt]
          omega
        have hew : key e < key w := hsI.lt_of_mem_take_of_mem_drop he hw
        have hwE : w ∈ E := by
          rcases mem_insertAt.mp (List.mem_of_mem_drop hw) with rfl | hwE
          · exact absurd hew (lt_irrefl _)
          · exact hwE
        exact hew.trans (h.lt_of_not_mem y hyp hyE w hwE)
      · exact h.lt_of_not_mem y hyp hyE e heE

/-- **One offer** keeps the `k` least of the entries offered so far. -/
theorem Least.offer : Least key k (p ++ [x]) (offer key k E x) := by
  unfold LeastK.offer
  split_ifs with hk
  · rw [List.take_of_length_le (le_of_eq length_insertAt)]
    exact h.offer_of_lt hp hk
  · exact h.offer_of_le hp (not_lt.mp hk)

end Offer

end RpcNetwork.LeastK
