import RpcNetwork.Core.Rawdb.FreezerLayout

/-!
# The freezer table over whole runs

The tables a client reaches from an empty directory by the table's own calls:
open, `Append` of the next item, `truncate`, and `Close` followed by a reopen
over the same files.  Along every such run the table serves exactly the items
appended and not truncated away.

## Design notes

Nothing in these runs deletes from the tail, so `itemOffset` stays zero: the
tail-pruned tables of `TestOffset` are not reached here, and
`testOffset_truncate_loses_items` shows that `truncate` breaks on them.  The
bounds on `Append` are those of the index format: file numbers are stored in
16 bits, offsets in 32, and item numbers must keep their index offsets below
`2 ^ 63` for the `int64` conversions.
-/

namespace RpcNetwork.Core.Rawdb

/-- The tables reached from an empty directory with the compression setting
`nc`, serving the items `vs`. -/
inductive Reachable (snappy : Snappy) (nc : Bool) : FreezerTable → List (List UInt8) → Prop
  /-- `newCustomTable` over an empty directory. -/
  | init {m : UInt32} {t : FreezerTable} :
      newCustomTable Disk.empty m nc = .ok t → Reachable snappy nc t []
  /-- `Append(items, blob)`, with room for one more item, one more file and the blob. -/
  | append {t t' : FreezerTable} {vs : List (List UInt8)} (blob : List UInt8) :
      Reachable snappy nc t vs → t.items.toNat + 1 < 2 ^ 60 → t.headId.toNat + 1 < 2 ^ 16 →
      (stored snappy nc blob).length < 2 ^ 32 →
      t.append snappy t.items blob = .ok t' → Reachable snappy nc t' (vs ++ [blob])
  /-- `truncate(n)`. -/
  | truncate {t t' : FreezerTable} {vs : List (List UInt8)} (n : UInt64) :
      Reachable snappy nc t vs → t.truncate n = .ok t' → Reachable snappy nc t' (vs.take n.toNat)
  /-- `Close`, then `newCustomTable` over the files left behind. -/
  | reopen {t t₁ t' : FreezerTable} {vs : List (List UInt8)} (m : UInt32) :
      Reachable snappy nc t vs → t.close = .ok t₁ → newCustomTable t₁.disk m nc = .ok t' →
      Reachable snappy nc t' vs

namespace Reachable

variable {snappy : Snappy} {nc : Bool} {t t' : FreezerTable} {vs : List (List UInt8)}

/-- A reachable table lays out the kept items as `Append` stored them, from an
untouched tail. -/
structure Inv (snappy : Snappy) (nc : Bool) (t : FreezerTable) (vs : List (List UInt8)) : Prop where
  layout : ∃ es, Layout t (vs.map (stored snappy nc)) es
  noCompression_eq : t.noCompression = nc
  itemOffset_eq : t.itemOffset = 0

theorem inv_init {m : UInt32} (h : newCustomTable Disk.empty m nc = .ok t) : Inv snappy nc t [] := by
  obtain ⟨t₀, h₀, L, hnc, -, -, hoff⟩ := layout_newCustomTable_empty m nc
  rw [h, Except.ok.injEq] at h₀
  subst h₀
  exact ⟨⟨[], L⟩, hnc, hoff⟩

theorem inv_append (I : Inv snappy nc t vs) (blob : List UInt8) (hroom : t.items.toNat + 1 < 2 ^ 60)
    (hfile : t.headId.toNat + 1 < 2 ^ 16) (hlen : (stored snappy nc blob).length < 2 ^ 32)
    (h : t.append snappy t.items blob = .ok t') : Inv snappy nc t' (vs ++ [blob]) := by
  obtain ⟨es, L⟩ := I.layout
  have hnc₀ := I.noCompression_eq
  rw [← hnc₀] at hlen L
  obtain ⟨t'', h', L', hnc, -, -, hoff⟩ := L.append snappy blob hroom hfile hlen
  rw [h, Except.ok.injEq] at h'
  subst h'
  rw [hnc₀, ← List.map_singleton (f := stored snappy nc), ← List.map_append] at L'
  exact ⟨⟨_, L'⟩, hnc.trans hnc₀, hoff.trans I.itemOffset_eq⟩

theorem inv_truncate (I : Inv snappy nc t vs) (n : UInt64) (h : t.truncate n = .ok t') :
    Inv snappy nc t' (vs.take n.toNat) := by
  obtain ⟨es, L⟩ := I.layout
  by_cases hn : t.items ≤ n
  · -- nothing to cut: the table is as it was, and so are the items
    rw [FreezerTable.truncate_of_items_le hn, Except.ok.injEq] at h
    subst h
    have hlen : vs.length ≤ n.toNat := by
      have hitems := L.items_eq
      rw [UInt64.le_iff_toNat_le] at hn
      rw [I.itemOffset_eq, List.length_map] at hitems
      simp only [UInt32.toNat_zero] at hitems
      omega
    rw [List.take_of_length_le hlen]
    exact I
  · obtain ⟨t'', h', L', hnc, -, -, hoff⟩ := L.truncate I.itemOffset_eq (UInt64.not_le.mp hn)
    rw [h, Except.ok.injEq] at h'
    subst h'
    rw [← List.map_take] at L'
    exact ⟨⟨_, L'⟩, hnc.trans I.noCompression_eq, hoff.trans I.itemOffset_eq⟩

theorem inv_reopen (I : Inv snappy nc t vs) {t₁ : FreezerTable} (m : UInt32) (hclose : t.close = .ok t₁)
    (h : newCustomTable t₁.disk m nc = .ok t') : Inv snappy nc t' vs := by
  obtain ⟨es, L⟩ := I.layout
  -- `Close` leaves the files as they were
  have hdisk : t₁.disk = t.disk := by
    rw [FreezerTable.close, L.not_closed, if_neg Bool.false_ne_true, Except.ok.injEq] at hclose
    rw [← hclose]
  rw [hdisk] at h
  obtain ⟨t'', h', L', hnc, -, -, hoff⟩ := L.reopen (Or.inr I.itemOffset_eq) m nc
  rw [h, Except.ok.injEq] at h'
  subst h'
  exact ⟨⟨es, L'⟩, hnc, hoff.trans I.itemOffset_eq⟩

/-- **Every reachable table keeps the invariant**, by induction on the run. -/
theorem inv (h : Reachable snappy nc t vs) : Inv snappy nc t vs := by
  induction h with
  | init h => exact inv_init h
  | append blob _ hroom hfile hlen happ ih => exact inv_append ih blob hroom hfile hlen happ
  | truncate n _ htr ih => exact inv_truncate ih n htr
  | reopen m _ hclose hopen ih => exact inv_reopen ih m hclose hopen

/-- **`Retrieve`** of a reachable table returns the `i`-th kept item, and
`errOutOfBounds` past the last. -/
theorem retrieve (h : Reachable snappy nc t vs) (hs : snappy.Lawful) (i : UInt64) :
    t.retrieve snappy i = if hi : i.toNat < vs.length then .ok vs[i.toNat] else .error .outOfBounds := by
  obtain ⟨⟨es, L⟩, hnc, hoff⟩ := h.inv
  have hitems := L.items_eq
  rw [hoff, List.length_map] at hitems
  simp only [UInt32.toNat_zero, Nat.zero_add] at hitems
  split_ifs with hi
  · rw [← hnc] at L
    exact L.retrieve_eq rfl hs (by rw [hoff, UInt32.toNat_zero]; exact Nat.zero_le _)
      (by rw [hoff, UInt32.toNat_zero, Nat.sub_zero]; exact List.getElem?_eq_getElem hi)
  · exact L.retrieve_out snappy (Or.inr (by omega))

end Reachable

end RpcNetwork.Core.Rawdb
