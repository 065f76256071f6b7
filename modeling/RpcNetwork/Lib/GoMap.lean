import Mathlib

/-!
# Go maps as association lists

A Go map is a finite map whose `range` loop visits its entries in an order the
runtime picks.  Kept as an `AList`, its entries list is one such order, and a
statement quantified over every `AList` covers every order.  A map built by a
loop of assignments `m[k] = v` is a fold of `AList.insert`: a later assignment
to a key replaces the earlier one.

Writing a map out in its iteration order and rebuilding it by assignments
gives back the same lookups, whatever the order (`lookup_foldl_insert_entries`).
-/

namespace RpcNetwork.GoMap

variable {α β γ : Type*} [DecidableEq α]

/-- **A map built by assignments over distinct keys** answers a key from the
list when the list has it, and as the starting map otherwise. -/
theorem lookup_foldl_insert (f : α → β → γ) :
    ∀ (l : List (Σ _ : α, β)), l.NodupKeys → ∀ (acc : AList fun _ : α => γ) (k : α),
      (l.foldl (fun m e => m.insert e.1 (f e.1 e.2)) acc).lookup k =
        ((l.dlookup k).map (f k)).or (acc.lookup k)
  | [], _, acc, k => by
    rw [List.foldl_nil, List.dlookup_nil, Option.map_none, Option.none_or]
  | ⟨a, b⟩ :: l, hl, acc, k => by
    obtain ⟨ha, hl⟩ := List.nodupKeys_cons.mp hl
    rw [List.foldl_cons, lookup_foldl_insert f l hl]
    by_cases hk : k = a
    · -- the key is assigned here and nowhere after
      subst hk
      rw [List.dlookup_eq_none.mpr ha, List.dlookup_cons_eq, AList.lookup_insert]
      rfl
    · rw [List.dlookup_cons_ne _ _ hk, AList.lookup_insert_ne hk]

/-- **Rebuilding a map from its entries** by assignments gives back its lookups,
with the values passed through `f`. -/
theorem lookup_foldl_insert_entries (f : α → β → γ) (m : AList fun _ : α => β) (k : α) :
    (m.entries.foldl (fun (acc : AList fun _ : α => γ) e => acc.insert e.1 (f e.1 e.2)) ∅).lookup k =
      (m.lookup k).map (f k) := by
  rw [lookup_foldl_insert f m.entries m.nodupKeys, AList.lookup_empty, Option.or_none]
  rfl

end RpcNetwork.GoMap
