import RpcNetwork.Lib.LeastK
import RpcNetwork.P2p.Enode.Node

/-!
# Nodes ordered by distance

`nodesByDistance` in `p2p/discover/table.go` collects the nodes closest to a
target; `findnodeByID` and the lookups push node after node into it with a bound
`maxElems`.  `push` finds the first entry farther from the target than the node
(`sort.Search` over `DistCmp`), appends the node while the list is below its
bound, and then, unless the node falls past the end, slides the entries from
that index one place down over the slice and writes the node there.

## Design notes

A node is any type with an ID (`node.ID()`); `push` reads nothing else of it.
`copy(h.entries[ix+1:], h.entries[ix:])` is `shiftDown`: it copies as many
entries as the shorter slice holds, so the last entry falls off.  The bound is
an `int`, compared with the length as an integer.
-/

namespace RpcNetwork.P2p.Discover

open Enode LeastK SortedMap

/-- `nodesByDistance`: a list of nodes, ordered by distance to `target`. -/
structure NodesByDistance (α : Type) where
  entries : List α
  target : ID

variable {α : Type}

/-- `copy(s[i+1:], s[i:])`: the entries from `i` on move one place down, and the
last one falls off. -/
def shiftDown (s : List α) (i : ℕ) : List α := s.take (i + 1) ++ (s.drop i).dropLast

/-- Writing at the index the entries were shifted from inserts there, one entry
falling off the end. -/
theorem set_shiftDown {s : List α} {i : ℕ} (hi : i < s.length) (n : α) :
    (shiftDown s i).set i n = s.take i ++ n :: (s.drop i).dropLast := by
  have htake : s.take (i + 1) = s.take i ++ [s[i]] := by
    rw [List.take_add_one, List.getElem?_eq_getElem hi, Option.toList_some]
  rw [shiftDown, htake, List.set_append, if_pos (by simp; omega), List.set_append,
    if_neg (by simp)]
  simp [Nat.min_eq_left hi.le]

variable (nodeID : α → ID)

/-- `nodesByDistance.push`: adds `n`, keeping the list below `maxElems`. -/
def push (h : NodesByDistance α) (n : α) (maxElems : ℤ) : NodesByDistance α :=
  let ix := h.entries.findIdx fun e => decide (0 < distCmp h.target (nodeID e) (nodeID n))
  let entries := if (h.entries.length : ℤ) < maxElems then h.entries ++ [n] else h.entries
  if ix = entries.length then
    -- farther away than all nodes we already have; if there was room, it is now last
    { h with entries := entries }
  else
    -- slide existing entries down to make room, over the entry just appended
    { h with entries := (shiftDown entries ix).set ix n }

@[simp] theorem push_target (h : NodesByDistance α) (n : α) (maxElems : ℤ) :
    (push nodeID h n maxElems).target = h.target := by
  unfold push
  dsimp only
  split_ifs <;> rfl

/-- A node's XOR distance to the target, the key the entries are ordered by. -/
def distTo (target : ID) (e : α) : ℕ := dist target (nodeID e)

variable {nodeID}

/-- Searching for the first entry farther than `n` is `sort.Search` for `n`'s
distance, as long as no entry has `n`'s ID. -/
theorem findIdx_distCmp_eq_search {target : ID} {E : List α} {n : α}
    (hE : ∀ e ∈ E, nodeID e ≠ nodeID n) :
    E.findIdx (fun e => decide (0 < distCmp target (nodeID e) (nodeID n))) =
      search (· < ·) (distTo nodeID target) E (distTo nodeID target n) := by
  refine findIdx_congr fun e he => ?_
  have hne : distTo nodeID target e ≠ distTo nodeID target n :=
    fun hd => hE e he (dist_injective target hd)
  simp only [distCmp_pos_iff]
  unfold distTo at hne ⊢
  rcases Nat.lt_or_gt_of_ne hne with hlt | hgt
  · simp [hlt, Nat.lt_asymm hlt]
  · simp [hgt, hgt.le]

/-- Inserting into a full list and cutting it to its length drops its last entry. -/
theorem take_insert_of_lt {E : List α} {i : ℕ} (hi : i < E.length) (n : α) :
    (E.take i ++ n :: E.drop i).take E.length = E.take i ++ n :: (E.drop i).dropLast := by
  have hlen : (E.take i).length = i := by simp; omega
  obtain ⟨m, hm⟩ : ∃ m, E.length - i = m + 1 := ⟨E.length - i - 1, by omega⟩
  rw [List.take_append, List.take_take, Nat.min_eq_right hi.le, hlen, List.dropLast_eq_take,
    List.length_drop, hm, List.take_succ_cons, Nat.add_sub_cancel]

/-- **A push is an offer** of the node to the `k`-least list keyed by distance. -/
theorem push_entries (h : NodesByDistance α) (n : α) (k : ℕ)
    (hE : ∀ e ∈ h.entries, nodeID e ≠ nodeID n) :
    (push nodeID h n k).entries = offer (distTo nodeID h.target) k h.entries n := by
  have hix := @findIdx_distCmp_eq_search α nodeID h.target h.entries n hE
  have hle : search (· < ·) (distTo nodeID h.target) h.entries (distTo nodeID h.target n) ≤
      h.entries.length := List.findIdx_le_length
  unfold push offer insertAt
  simp only [hix]
  set ix := search (· < ·) (distTo nodeID h.target) h.entries (distTo nodeID h.target n)
  by_cases hroom : h.entries.length < k
  · -- the node is appended: the shift moves it to its place
    have hroom' : (h.entries.length : ℤ) < k := by exact_mod_cast hroom
    rw [if_pos hroom', if_neg (by simp; omega), if_pos hroom,
      List.take_of_length_le (by simp; omega), set_shiftDown (by simp; omega),
      List.take_append_of_le_length hle, List.drop_append_of_le_length hle,
      List.dropLast_concat]
  · have hfull : ¬ (h.entries.length : ℤ) < k := by exact_mod_cast hroom
    rw [if_neg hfull, if_neg hroom]
    split_ifs with hend
    · -- past the end of a full list: the node is dropped
      rw [hend, List.take_length, List.drop_length, List.take_left']
      simp
    · rw [set_shiftDown (by omega), take_insert_of_lt (by omega)]

/-- **Run lemma**: pushing nodes keeps the `k` closest of all the nodes pushed. -/
theorem foldl_push_least (k : ℕ) : ∀ (ns p : List α) (h : NodesByDistance α),
    Least (distTo nodeID h.target) k p h.entries →
    ((p ++ ns).map (distTo nodeID h.target)).Nodup →
    Least (distTo nodeID h.target) k (p ++ ns)
      (ns.foldl (fun h n => push nodeID h n k) h).entries
  | [], p, h, hl, _ => by simpa using hl
  | n :: ns, p, h, hl, hnd => by
    have hnd' : ((p ++ [n]).map (distTo nodeID h.target)).Nodup :=
      hnd.sublist (List.Sublist.map _ (by simp))
    have hE : ∀ e ∈ h.entries, nodeID e ≠ nodeID n := by
      intro e he hid
      exact key_ne_of_nodup hnd' e (hl.subset he) (by rw [distTo, distTo, hid])
    have hstep : Least (distTo nodeID (push nodeID h n k).target) k (p ++ [n])
        (push nodeID h n k).entries := by
      rw [push_target, push_entries h n k hE]
      exact hl.offer hnd'
    have hrun := foldl_push_least k ns (p ++ [n]) (push nodeID h n k) hstep
      (by simpa using hnd)
    simpa using hrun

/-- After pushing nodes with distinct IDs into an empty list with bound `k`,
the entries are the `min k n` pushed nodes closest to the target, in increasing
order of distance: no node left out is closer than one kept. -/
theorem push_keeps_closest (target : ID) (k : ℕ) (ns : List α) (hns : (ns.map nodeID).Nodup) :
    let E := (ns.foldl (fun h n => push nodeID h n k) ⟨[], target⟩).entries
    E.Pairwise (fun a b => distCmp target (nodeID a) (nodeID b) < 0) ∧
      E.length = min k ns.length ∧ E ⊆ ns ∧ E.Nodup ∧
      ∀ y ∈ ns, y ∉ E → ∀ e ∈ E, dist target (nodeID e) < dist target (nodeID y) := by
  intro E
  have hnd : (ns.map (distTo nodeID target)).Nodup := by
    have := hns.map (dist_injective target)
    rwa [List.map_map] at this
  have hl : Least (distTo nodeID target) k ns E :=
    foldl_push_least k ns [] ⟨[], target⟩ Least.nil hnd
  refine ⟨?_, hl.length_eq, hl.subset, hl.sorted.nodup, hl.lt_of_not_mem⟩
  exact (List.pairwise_map.mp hl.sorted).imp fun hab => distCmp_neg_iff.mpr hab

/-- Three identifiers pushed toward the zero target with bound two keep two. -/
theorem push_keeps_closest_three :
    ([Vector.replicate 32 3, Vector.replicate 32 1, Vector.replicate 32 2].map (id : ID → ID)).Nodup ∧
      ([Vector.replicate 32 3, Vector.replicate 32 1, Vector.replicate 32 2].foldl
        (fun h n => push id h n 2) ⟨[], Vector.replicate 32 0⟩).entries.length =
        min 2 [(Vector.replicate 32 3 : ID), Vector.replicate 32 1, Vector.replicate 32 2].length :=
  have hnd : ([Vector.replicate 32 3, Vector.replicate 32 1, Vector.replicate 32 2].map
      (id : ID → ID)).Nodup := by decide
  ⟨hnd, (push_keeps_closest (Vector.replicate 32 0) 2 _ hnd).2.1⟩

end RpcNetwork.P2p.Discover
