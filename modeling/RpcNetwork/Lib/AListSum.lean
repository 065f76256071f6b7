import Mathlib

/-!
# Running totals over association lists

A finite map kept as an association list often comes with a running total of
some quantity over its entries, updated by hand as entries come and go.  The
total is a sum over `entries`.  These lemmas say how it moves when an entry is
inserted or erased, in any commutative monoid, so also in wrapping machine
words.
-/

namespace RpcNetwork

section AList

variable {α : Type*} {β : α → Type*} [DecidableEq α]

/-- The entry `lookup` finds stands beside the rest of the list. -/
theorem AList.entries_perm_erase {s : AList β} {a : α} {b : β a} (h : s.lookup a = some b) :
    s.entries.Perm (⟨a, b⟩ :: (s.erase a).entries) := by
  have hmem : (⟨a, b⟩ : Sigma β) ∈ s.entries := List.of_mem_dlookup h
  obtain ⟨b', l₁, l₂, -, he, hk⟩ := List.exists_of_kerase (List.mem_keys_of_mem hmem)
  have hb : b = b' := s.nodupKeys.eq_of_mk_mem hmem (by rw [he]; exact List.mem_append_right _ List.mem_cons_self)
  subst hb
  show s.entries.Perm (⟨a, b⟩ :: s.entries.kerase a)
  rw [hk, he]
  exact List.perm_middle

variable {M : Type*} [AddCommMonoid M] (f : Sigma β → M)

/-- Erasing an entry takes its term out of a sum over the entries. -/
theorem AList.sum_map_erase {s : AList β} {a : α} {b : β a} (h : s.lookup a = some b) :
    (s.entries.map f).sum = f ⟨a, b⟩ + ((s.erase a).entries.map f).sum := by
  rw [((AList.entries_perm_erase h).map f).sum_eq, List.map_cons, List.sum_cons]

/-- Inserting an entry puts its term in, in place of the key's old one. -/
theorem AList.sum_map_insert (s : AList β) (a : α) (b : β a) :
    ((s.insert a b).entries.map f).sum = f ⟨a, b⟩ + ((s.erase a).entries.map f).sum := by
  rw [AList.entries_insert, List.map_cons, List.sum_cons]
  rfl

end AList

section List

variable {α M : Type*} [DecidableEq α] [AddCommGroup M]

/-- Terms that differ only at `a`, which the list holds once, sum over it to
totals that differ by their difference at `a`. -/
theorem List.sum_map_eq_add_sub {l : List α} (hl : l.Nodup) {a : α} (ha : a ∈ l)
    {u v : α → M} (huv : ∀ x ∈ l, x ≠ a → u x = v x) :
    (l.map u).sum = (l.map v).sum + (u a - v a) := by
  have hp := List.perm_cons_erase ha
  have hrest : (l.erase a).map u = (l.erase a).map v :=
    List.map_congr_left fun x hx =>
      huv x (List.mem_of_mem_erase hx) fun hxa => hl.not_mem_erase (hxa ▸ hx)
  rw [(hp.map u).sum_eq, (hp.map v).sum_eq, List.map_cons, List.map_cons, List.sum_cons,
    List.sum_cons, hrest]
  abel

end List

end RpcNetwork
