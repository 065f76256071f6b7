import Mathlib

/-!
# Counting the entries of a finite map

`countBy p m` is the number of keys of `m` whose value satisfies `p`.  A counter
kept beside a map agrees with it as long as it moves by one exactly when an
entry satisfying `p` is inserted under a fresh key or erased.
-/

namespace RpcNetwork.FinmapCount

variable {α β : Type*} [DecidableEq α]

/-- The number of entries of `m` whose value satisfies `p`. -/
def countBy (p : β → Bool) (m : Finmap fun _ : α => β) : ℕ :=
  (m.keys.filter fun a => (m.lookup a).any p).card

variable {p : β → Bool}

@[simp] theorem countBy_empty : countBy p (∅ : Finmap fun _ : α => β) = 0 := by
  simp [countBy]

/-- The count reads `p` only on the values of the map. -/
theorem countBy_congr {p' : β → Bool} {m : Finmap fun _ : α => β}
    (h : ∀ a b, m.lookup a = some b → p' b = p b) : countBy p' m = countBy p m := by
  unfold countBy
  congr 1
  refine Finset.filter_congr fun a _ => ?_
  cases hl : m.lookup a with
  | none => rfl
  | some b => simp [h a b hl]

theorem countBy_insert_of_notMem {m : Finmap fun _ : α => β} {a : α} (b : β) (h : a ∉ m) :
    countBy p (m.insert a b) = countBy p m + if p b then 1 else 0 := by
  have hkeys : (m.insert a b).keys = insert a m.keys := by
    ext k
    simp [Finmap.mem_keys, Finmap.mem_insert]
  -- the old keys keep their values
  have hold : (m.keys.filter fun k => ((m.insert a b).lookup k).any p) =
      m.keys.filter fun k => (m.lookup k).any p := by
    refine Finset.filter_congr fun k hk => ?_
    have hka : k ≠ a := fun hka => h (hka ▸ Finmap.mem_keys.mp hk)
    rw [Finmap.lookup_insert_of_ne _ hka]
  have hnot : a ∉ m.keys.filter fun k => (m.lookup k).any p :=
    fun ha => h (Finmap.mem_keys.mp (Finset.mem_filter.mp ha).1)
  unfold countBy
  rw [hkeys, Finset.filter_insert, hold, Finmap.lookup_insert]
  cases hb : p b
  · simp [hb]
  · simp [hb, Finset.card_insert_of_notMem hnot]

theorem countBy_erase_of_lookup {m : Finmap fun _ : α => β} {a : α} {b : β}
    (h : m.lookup a = some b) :
    countBy p (m.erase a) + (if p b then 1 else 0) = countBy p m := by
  have ha : a ∈ m.keys := Finmap.mem_keys.mpr (Finmap.mem_of_lookup_eq_some h)
  -- the remaining keys keep their values
  have hfilter : ((m.erase a).keys.filter fun k => ((m.erase a).lookup k).any p) =
      (m.keys.filter fun k => (m.lookup k).any p).erase a := by
    ext k
    by_cases hka : k = a
    · simp [hka]
    · simp [Finmap.keys_erase, Finmap.lookup_erase_ne hka, hka]
  unfold countBy
  rw [hfilter]
  cases hb : p b
  · have hnot : a ∉ m.keys.filter fun k => (m.lookup k).any p := by simp [h, hb]
    simp [Finset.erase_eq_of_notMem hnot]
  · have hmem : a ∈ m.keys.filter fun k => (m.lookup k).any p := by simp [ha, h, hb]
    simp only [if_true]
    exact Finset.card_erase_add_one hmem

end RpcNetwork.FinmapCount
