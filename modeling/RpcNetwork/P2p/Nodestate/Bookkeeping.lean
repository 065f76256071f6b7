import Mathlib
import RpcNetwork.P2p.Nodestate.Machine

/-!
# Bookkeeping of nodes and timeouts

What `SetState`, `AddTimeout` and `SetField` keep true of `nodes` and of the
timeouts their timers share with the nodes, between any two steps of any run,
however the callbacks nest.
-/

namespace RpcNetwork.P2p.Nodestate

open FlagSet

variable {NodeId V : Type}

/-- A timeout without the flags of `mask`. -/
def Timeout.clear (mask : BitMask) (t : Timeout NodeId) : Timeout NodeId :=
  { t with mask := t.mask &&& ~~~mask }

@[simp] theorem Timeout.clear_node (mask : BitMask) (t : Timeout NodeId) :
    (t.clear mask).node = t.node := rfl

@[simp] theorem Timeout.clear_mask (mask : BitMask) (t : Timeout NodeId) :
    (t.clear mask).mask = t.mask &&& ~~~mask := rfl

section removeTimeouts

variable {mask : BitMask} {timers : ℕ → Option (Timeout NodeId)} {σ : ℕ} {rest : List ℕ}

theorem removeTimeouts_cons_none (h : timers σ = none) :
    removeTimeouts mask timers (σ :: rest) =
      ((removeTimeouts mask timers rest).1, σ :: (removeTimeouts mask timers rest).2) := by
  rw [removeTimeouts, h]

theorem removeTimeouts_cons_miss {t : Timeout NodeId} (h : timers σ = some t)
    (hit : t.mask &&& mask = 0) :
    removeTimeouts mask timers (σ :: rest) =
      ((removeTimeouts mask timers rest).1, σ :: (removeTimeouts mask timers rest).2) := by
  rw [removeTimeouts, h]
  simp only [hit, if_true]

theorem removeTimeouts_cons_hit {t : Timeout NodeId} (h : timers σ = some t)
    (hit : t.mask &&& mask ≠ 0) :
    removeTimeouts mask timers (σ :: rest) =
      if (t.clear mask).mask ≠ 0 then
        ((removeTimeouts mask (Function.update timers σ (some (t.clear mask))) rest).1,
          σ :: (removeTimeouts mask (Function.update timers σ (some (t.clear mask))) rest).2)
      else removeTimeouts mask (Function.update timers σ (some (t.clear mask))) rest := by
  rw [removeTimeouts, h]
  simp only [hit, if_false, sub_and_self]
  rfl

/-- The timers of the list lose the flags of `mask`; the others are left alone. -/
theorem removeTimeouts_fst {l : List ℕ} (hl : l.Nodup) (timers : ℕ → Option (Timeout NodeId)) :
    (removeTimeouts mask timers l).1 =
      fun τ => if τ ∈ l then (timers τ).map (Timeout.clear mask) else timers τ := by
  induction l generalizing timers with
  | nil => rfl
  | cons σ rest ih =>
    obtain ⟨hσ, hrest⟩ := List.nodup_cons.mp hl
    funext τ
    cases ht : timers σ with
    | none =>
      rw [removeTimeouts_cons_none ht, ih hrest]
      by_cases hτ : τ = σ
      · subst hτ
        simp [hσ, ht]
      · simp [hτ]
    | some t =>
      by_cases hit : t.mask &&& mask = 0
      · rw [removeTimeouts_cons_miss ht hit, ih hrest]
        by_cases hτ : τ = σ
        · subst hτ
          simp [hσ, ht, Timeout.clear, and_not_eq_self hit]
        · simp [hτ]
      · have hfst : (removeTimeouts mask timers (σ :: rest)).1 =
            (removeTimeouts mask (Function.update timers σ (some (t.clear mask))) rest).1 := by
          rw [removeTimeouts_cons_hit ht hit]
          split_ifs <;> rfl
        rw [hfst, ih hrest]
        by_cases hτ : τ = σ
        · subst hτ
          simp [hσ, ht]
        · by_cases hτr : τ ∈ rest <;> simp [hτ, hτr]

theorem removeTimeouts_snd_sublist (l : List ℕ) (timers : ℕ → Option (Timeout NodeId)) :
    (removeTimeouts mask timers l).2.Sublist l := by
  induction l generalizing timers with
  | nil => exact List.Sublist.slnil
  | cons σ rest ih =>
    cases ht : timers σ with
    | none =>
      rw [removeTimeouts_cons_none ht]
      exact (ih timers).cons_cons σ
    | some t =>
      by_cases hit : t.mask &&& mask = 0
      · rw [removeTimeouts_cons_miss ht hit]
        exact (ih timers).cons_cons σ
      · rw [removeTimeouts_cons_hit ht hit]
        split_ifs
        · exact (ih _).cons_cons σ
        · exact (ih _).cons σ

/-- A timeout stays in the list unless `mask` took flags from it and left none. -/
theorem mem_removeTimeouts_snd {l : List ℕ} (hl : l.Nodup) (timers : ℕ → Option (Timeout NodeId))
    {τ : ℕ} :
    τ ∈ (removeTimeouts mask timers l).2 ↔
      τ ∈ l ∧ ∀ t, timers τ = some t → t.mask &&& mask = 0 ∨ (t.clear mask).mask ≠ 0 := by
  induction l generalizing timers with
  | nil => simp [removeTimeouts]
  | cons σ rest ih =>
    obtain ⟨hσ, hrest⟩ := List.nodup_cons.mp hl
    cases ht : timers σ with
    | none =>
      rw [removeTimeouts_cons_none ht]
      by_cases hτ : τ = σ
      · subst hτ
        simp [ht]
      · simp [hτ, ih hrest]
    | some t =>
      by_cases hit : t.mask &&& mask = 0
      · rw [removeTimeouts_cons_miss ht hit]
        by_cases hτ : τ = σ
        · subst hτ
          simp [ht, hit]
        · simp [hτ, ih hrest]
      · rw [removeTimeouts_cons_hit ht hit]
        -- the timer itself was handled: the rest of the run does not see it
        have hσ' : σ ∉ (removeTimeouts mask (Function.update timers σ (some (t.clear mask))) rest).2 :=
          fun h => hσ ((removeTimeouts_snd_sublist rest _).subset h)
        by_cases hτ : τ = σ
        · subst hτ
          split_ifs with hc
          · simpa [hσ', ht, hit] using hc
          · simpa [hσ', ht, hit] using hc
        · split_ifs <;> simp [hτ, ih hrest]

theorem removeTimeouts_fst_of_not_mem {l : List ℕ} (hl : l.Nodup) {τ : ℕ} (hτ : τ ∉ l) :
    (removeTimeouts mask timers l).1 τ = timers τ := by
  rw [removeTimeouts_fst hl]
  exact if_neg hτ

theorem removeTimeouts_fst_of_mem {l : List ℕ} (hl : l.Nodup) {τ : ℕ} (hτ : τ ∈ l) :
    (removeTimeouts mask timers l).1 τ = (timers τ).map (Timeout.clear mask) := by
  rw [removeTimeouts_fst hl]
  exact if_pos hτ

end removeTimeouts

/-! ### The bookkeeping -/

/-- What holds of one node's record against the timers: its timeouts are
distinct timers of this node, each with flags left and only flags the node has,
and no flag is held by two of them. -/
structure NodeOk (timers : ℕ → Option (Timeout NodeId)) (n : NodeId) (node : NodeInfo V) : Prop where
  nodup : node.timeouts.Nodup
  live : ∀ τ ∈ node.timeouts, ∃ t, timers τ = some t ∧ t.node = n ∧ t.mask ≠ 0 ∧
    flags t.mask ⊆ flags node.state
  disjoint : node.timeouts.Pairwise fun τ τ' =>
    ∀ t t', timers τ = some t → timers τ' = some t' → Disjoint (flags t.mask) (flags t'.mask)

/-- The bookkeeping: a node is kept only with a flag set, and its record is
`NodeOk`; a timer with flags left is a timeout of its node; no timer is numbered
from `nextTimer` on. -/
structure Inv (m : Machine NodeId V) : Prop where
  state_ne_zero : ∀ n node, m.nodes n = some node → node.state ≠ 0
  nodeOk : ∀ n node, m.nodes n = some node → NodeOk m.timers n node
  stale : ∀ τ t, m.timers τ = some t → t.mask ≠ 0 →
    ∃ node, m.nodes t.node = some node ∧ τ ∈ node.timeouts
  fresh : ∀ τ, m.nextTimer ≤ τ → m.timers τ = none

variable {timers timers' : ℕ → Option (Timeout NodeId)} {n : NodeId} {node : NodeInfo V}

/-- A record is `NodeOk` against any timers that agree on its timeouts. -/
theorem NodeOk.congr (h : NodeOk timers n node) (heq : ∀ τ ∈ node.timeouts, timers' τ = timers τ) :
    NodeOk timers' n node where
  nodup := h.nodup
  live τ hτ := by
    rw [heq τ hτ]
    exact h.live τ hτ
  disjoint := h.disjoint.imp_of_mem fun hτ hτ' hd t t' ht ht' => by
    rw [heq _ hτ] at ht
    rw [heq _ hτ'] at ht'
    exact hd t t' ht ht'

/-- A new node's record has no timeout. -/
theorem nodeOk_newNode (timers : ℕ → Option (Timeout NodeId)) (n : NodeId) :
    NodeOk timers n (newNode : NodeInfo V) :=
  ⟨List.nodup_nil, fun _ h => absurd h List.not_mem_nil, List.Pairwise.nil⟩

/-- The timeouts left after `removeTimeouts` hold the flags the node had
outside `mask`. -/
theorem NodeOk.removeTimeouts {mask s : BitMask} (h : NodeOk timers n node)
    (hsub : flags node.state \ flags mask ⊆ flags s) :
    NodeOk (removeTimeouts mask timers node.timeouts).1 n
      { node with state := s, timeouts := (removeTimeouts mask timers node.timeouts).2 } where
  nodup := h.nodup.sublist (removeTimeouts_snd_sublist _ _)
  live τ hτ := by
    obtain ⟨hmem, hkeep⟩ := (mem_removeTimeouts_snd h.nodup timers).mp hτ
    obtain ⟨t, ht, hn, hne, hst⟩ := h.live τ hmem
    refine ⟨t.clear mask, by rw [removeTimeouts_fst_of_mem h.nodup hmem, ht]; rfl, hn, ?_, ?_⟩
    · rcases hkeep t ht with hit | hclear
      · rwa [Timeout.clear_mask, and_not_eq_self hit]
      · exact hclear
    · rw [Timeout.clear_mask, flags_and_not]
      exact (Finset.sdiff_subset_sdiff hst le_rfl).trans hsub
  disjoint := by
    refine (h.disjoint.sublist (removeTimeouts_snd_sublist _ _)).imp_of_mem ?_
    intro τ τ' hτ hτ' hd t t' ht ht'
    have hmem := ((mem_removeTimeouts_snd h.nodup timers).mp hτ).1
    have hmem' := ((mem_removeTimeouts_snd h.nodup timers).mp hτ').1
    rw [removeTimeouts_fst_of_mem h.nodup hmem, Option.map_eq_some_iff] at ht
    rw [removeTimeouts_fst_of_mem h.nodup hmem', Option.map_eq_some_iff] at ht'
    obtain ⟨u, hu, rfl⟩ := ht
    obtain ⟨u', hu', rfl⟩ := ht'
    simp only [Timeout.clear_mask, flags_and_not]
    exact (hd u u' hu hu').mono Finset.sdiff_subset Finset.sdiff_subset

/-- A timeout of the list is, after `removeTimeouts`, its timer's timeout
without the flags of `mask`. -/
theorem NodeOk.cleared (h : NodeOk timers n node) {mask : BitMask} {τ : ℕ} {t : Timeout NodeId}
    (hτ : τ ∈ node.timeouts) (ht : (Nodestate.removeTimeouts mask timers node.timeouts).1 τ = some t) :
    ∃ u, timers τ = some u ∧ t = u.clear mask ∧ u.node = n ∧ flags u.mask ⊆ flags node.state := by
  rw [removeTimeouts_fst_of_mem h.nodup hτ, Option.map_eq_some_iff] at ht
  obtain ⟨u, hu, rfl⟩ := ht
  obtain ⟨u', hu', hn, -, hsub⟩ := h.live τ hτ
  rw [hu] at hu'
  cases hu'
  exact ⟨u, hu, rfl, hn, hsub⟩

namespace Inv

variable {m : Machine NodeId V}

/-- A timer with flags left that belongs to `n` is a timeout of `n`'s record. -/
theorem owns (hm : Inv m) (h : m.nodes n = some node) {τ : ℕ} {t : Timeout NodeId}
    (ht : m.timers τ = some t) (hne : t.mask ≠ 0) (hn : t.node = n) : τ ∈ node.timeouts := by
  obtain ⟨node', h', hmem⟩ := hm.stale τ t ht hne
  rw [hn, h] at h'
  cases h'
  exact hmem

/-- A node that is not there has no timer with flags left. -/
theorem not_owns (hm : Inv m) (h : m.nodes n = none) {τ : ℕ} {t : Timeout NodeId}
    (ht : m.timers τ = some t) (hne : t.mask ≠ 0) (hn : t.node = n) : False := by
  obtain ⟨node', h', -⟩ := hm.stale τ t ht hne
  rw [hn, h] at h'
  cases h'

/-- The timeouts of two nodes are different timers. -/
theorem not_mem_of_ne (hm : Inv m) (hok : NodeOk m.timers n node) {n' : NodeId} {node' : NodeInfo V}
    (h' : m.nodes n' = some node') (hne : n' ≠ n) {τ : ℕ} (hτ : τ ∈ node'.timeouts) :
    τ ∉ node.timeouts := by
  intro hτn
  obtain ⟨t, ht, hn, -⟩ := hok.live τ hτn
  obtain ⟨t', ht', hn', -⟩ := (hm.nodeOk n' node' h').live τ hτ
  rw [ht] at ht'
  cases ht'
  exact hne (hn'.symm.trans hn)

theorem empty : Inv (Machine.empty : Machine NodeId V) where
  state_ne_zero _ _ h := nomatch h
  nodeOk _ _ h := nomatch h
  stale _ _ h := nomatch h
  fresh _ _ := rfl

/-- A fact of every record holds after `n`'s record is replaced by `x` when it
holds of `x` and of the other nodes' records. -/
theorem forall_update_nodes [DecidableEq NodeId] {nodes : NodeId → Option (NodeInfo V)}
    {x : Option (NodeInfo V)} {P : NodeId → NodeInfo V → Prop}
    (hx : ∀ node', x = some node' → P n node')
    (ho : ∀ n', n' ≠ n → ∀ node', nodes n' = some node' → P n' node') :
    ∀ n' node', Function.update nodes n x n' = some node' → P n' node' :=
  (Function.forall_update_iff nodes fun n' (o : Option (NodeInfo V)) =>
    ∀ node', o = some node' → P n' node').mpr ⟨hx, ho⟩

section clear

variable (hm : Inv m) (hok : NodeOk m.timers n node)
  (hown : ∀ τ t, m.timers τ = some t → t.mask ≠ 0 → t.node = n → τ ∈ node.timeouts)
  {mask : BitMask}
include hm hok

/-- Clearing `n`'s timeouts leaves the records of the other nodes `NodeOk`. -/
theorem nodeOk_other {n' : NodeId} {node' : NodeInfo V} (hn : n' ≠ n) (h' : m.nodes n' = some node') :
    NodeOk (removeTimeouts mask m.timers node.timeouts).1 n' node' :=
  (hm.nodeOk n' node' h').congr fun _ hτ =>
    removeTimeouts_fst_of_not_mem hok.nodup (hm.not_mem_of_ne hok h' hn hτ)

theorem fresh_removeTimeouts {τ : ℕ} (hτ : m.nextTimer ≤ τ) :
    (removeTimeouts mask m.timers node.timeouts).1 τ = none := by
  rw [removeTimeouts_fst hok.nodup]
  simp [hm.fresh τ hτ]

include hown

/-- A timer with flags left that is not one of `n`'s belongs to another node. -/
theorem stale_other {τ : ℕ} {t : Timeout NodeId} (hτ : τ ∉ node.timeouts)
    (ht : (removeTimeouts mask m.timers node.timeouts).1 τ = some t) (hne : t.mask ≠ 0) :
    t.node ≠ n ∧ ∃ node', m.nodes t.node = some node' ∧ τ ∈ node'.timeouts := by
  rw [removeTimeouts_fst_of_not_mem hok.nodup hτ] at ht
  exact ⟨fun hn => hτ (hown τ t ht hne hn), hm.stale τ t ht hne⟩

variable [DecidableEq NodeId]

/-- `n`'s record takes the state `s`, which keeps every flag outside `mask`,
and its timeouts lose the flags of `mask`. -/
theorem updateNode {s : BitMask} (hs : s ≠ 0) (hsub : flags node.state \ flags mask ⊆ flags s) :
    Inv { m with
      nodes := Function.update m.nodes n
        (some { node with state := s, timeouts := (removeTimeouts mask m.timers node.timeouts).2 })
      timers := (removeTimeouts mask m.timers node.timeouts).1 } where
  state_ne_zero := by
    refine forall_update_nodes ?_ fun n' _ => hm.state_ne_zero n'
    rintro _ ⟨⟩
    exact hs
  nodeOk := by
    refine forall_update_nodes ?_ fun _ hn _ => hm.nodeOk_other hok hn
    rintro _ ⟨⟩
    exact hok.removeTimeouts hsub
  stale τ t ht hne := by
    dsimp only at ht ⊢
    by_cases hτ : τ ∈ node.timeouts
    · -- a cleared timeout with flags left stays in `n`'s list
      obtain ⟨u, hu, rfl, hn, -⟩ := hok.cleared hτ ht
      refine ⟨_, by rw [Timeout.clear_node, hn, Function.update_self], ?_⟩
      refine (mem_removeTimeouts_snd hok.nodup _).mpr ⟨hτ, fun u' hu' => .inr ?_⟩
      rw [hu] at hu'
      cases hu'
      exact hne
    · obtain ⟨hn, node', h', hmem⟩ := hm.stale_other hok hown hτ ht hne
      exact ⟨node', by rw [Function.update_of_ne hn]; exact h', hmem⟩
  fresh _ hτ := hm.fresh_removeTimeouts hok hτ

/-- `n` is discarded after `mask` cleared every flag it had. -/
theorem discard (hall : flags node.state ⊆ flags mask) :
    Inv { m with
      nodes := Function.update m.nodes n none
      timers := (removeTimeouts mask m.timers node.timeouts).1 } where
  state_ne_zero := forall_update_nodes (by rintro _ ⟨⟩) fun n' _ => hm.state_ne_zero n'
  nodeOk := forall_update_nodes (by rintro _ ⟨⟩) fun _ hn _ => hm.nodeOk_other hok hn
  stale τ t ht hne := by
    dsimp only at ht ⊢
    by_cases hτ : τ ∈ node.timeouts
    · -- every timeout of `n` lost all its flags
      obtain ⟨u, -, rfl, -, hsub⟩ := hok.cleared hτ ht
      refine absurd ?_ hne
      rw [← flags_eq_empty, Timeout.clear_mask, flags_and_not, Finset.sdiff_eq_empty_iff_subset]
      exact hsub.trans hall
    · obtain ⟨hn, node', h', hmem⟩ := hm.stale_other hok hown hτ ht hne
      exact ⟨node', by rw [Function.update_of_ne hn]; exact h', hmem⟩
  fresh _ hτ := hm.fresh_removeTimeouts hok hτ

end clear

/-- The timer `nextTimer` is not a timeout of any node. -/
theorem nextTimer_not_mem (hm : Inv m) {n : NodeId} {node : NodeInfo V} (h : m.nodes n = some node) :
    m.nextTimer ∉ node.timeouts := fun hmem => by
  obtain ⟨t, ht, -⟩ := (hm.nodeOk n node h).live _ hmem
  rw [hm.fresh _ le_rfl] at ht
  cases ht

variable [DecidableEq NodeId]

/-- A new timer for flags `n` has and no other timeout of `n` holds. -/
theorem pushTimer (hm : Inv m) (h : m.nodes n = some node) {mask : BitMask} (hne : mask ≠ 0)
    (hsub : flags mask ⊆ flags node.state)
    (hdis : ∀ τ ∈ node.timeouts, ∀ t, m.timers τ = some t → Disjoint (flags t.mask) (flags mask)) :
    Inv { nodes := Function.update m.nodes n
            (some { node with timeouts := node.timeouts ++ [m.nextTimer] })
          timers := Function.update m.timers m.nextTimer (some ⟨n, mask⟩)
          nextTimer := m.nextTimer + 1 } where
  state_ne_zero := by
    refine forall_update_nodes ?_ fun n' _ => hm.state_ne_zero n'
    rintro _ ⟨⟩
    exact hm.state_ne_zero n node h
  nodeOk := by
    -- the other records keep their timers, none of which is the new one
    refine forall_update_nodes ?_ fun n' _ node' h' => (hm.nodeOk n' node' h').congr fun τ hτ =>
      Function.update_of_ne (fun he : τ = m.nextTimer => hm.nextTimer_not_mem h' (he ▸ hτ)) _ _
    rintro _ ⟨⟩
    have hok := hm.nodeOk n node h
    have hold : ∀ τ ∈ node.timeouts, τ ≠ m.nextTimer := fun τ hτ he =>
      hm.nextTimer_not_mem h (he ▸ hτ)
    dsimp only
    refine ⟨?_, ?_, ?_⟩
    · exact hok.nodup.append (List.nodup_singleton _)
        (List.disjoint_singleton.mpr (hm.nextTimer_not_mem h))
    · intro τ hτ
      rcases List.mem_append.mp hτ with hτ | hτ
      · rw [Function.update_of_ne (hold τ hτ)]
        exact hok.live τ hτ
      · rw [List.mem_singleton.mp hτ, Function.update_self]
        exact ⟨_, rfl, rfl, hne, hsub⟩
    · rw [List.pairwise_append]
      refine ⟨?_, List.pairwise_singleton _ _, ?_⟩
      · refine hok.disjoint.imp_of_mem fun hτ hτ' hd t t' ht ht' => ?_
        rw [Function.update_of_ne (hold _ hτ)] at ht
        rw [Function.update_of_ne (hold _ hτ')] at ht'
        exact hd t t' ht ht'
      · intro τ hτ τ' hτ' t t' ht ht'
        rw [Function.update_of_ne (hold τ hτ)] at ht
        rw [List.mem_singleton.mp hτ', Function.update_self] at ht'
        cases ht'
        exact hdis τ hτ t ht
  stale τ t ht hne' := by
    dsimp only at ht ⊢
    by_cases hτ : τ = m.nextTimer
    · subst hτ
      rw [Function.update_self] at ht
      cases ht
      exact ⟨_, Function.update_self _ _ _, List.mem_append_right _ (List.mem_singleton_self _)⟩
    · rw [Function.update_of_ne hτ] at ht
      obtain ⟨node', h', hmem⟩ := hm.stale τ t ht hne'
      by_cases hn : t.node = n
      · rw [hn, h] at h'
        cases h'
        exact ⟨_, by rw [hn, Function.update_self], List.mem_append_left _ hmem⟩
      · exact ⟨node', by rw [Function.update_of_ne hn]; exact h', hmem⟩
  fresh τ hτ := by
    dsimp only at hτ ⊢
    rw [Function.update_of_ne (by omega)]
    exact hm.fresh τ (by omega)

/-- A record that keeps the state and the timeouts, as `SetField` writes. -/
theorem setRecord (hm : Inv m) (h : m.nodes n = some node) {node' : NodeInfo V}
    (hs : node'.state = node.state) (ht : node'.timeouts = node.timeouts) :
    Inv { m with nodes := Function.update m.nodes n (some node') } where
  state_ne_zero := by
    refine forall_update_nodes ?_ fun n' _ => hm.state_ne_zero n'
    rintro _ ⟨⟩
    rw [hs]
    exact hm.state_ne_zero n node h
  nodeOk := by
    refine forall_update_nodes ?_ fun n' _ => hm.nodeOk n'
    rintro _ ⟨⟩
    obtain ⟨state, timeouts, fields⟩ := node'
    dsimp only at hs ht ⊢
    subst hs ht
    have hok := hm.nodeOk n node h
    exact ⟨hok.nodup, hok.live, hok.disjoint⟩
  stale τ t ht' hne := by
    dsimp only at ht' ⊢
    obtain ⟨node'', h', hmem⟩ := hm.stale τ t ht' hne
    by_cases hn : t.node = n
    · rw [hn, h] at h'
      cases h'
      exact ⟨node', by rw [hn, Function.update_self], ht ▸ hmem⟩
    · exact ⟨node'', by rw [Function.update_of_ne hn]; exact h', hmem⟩
  fresh := hm.fresh

/-! ### The calls keep the bookkeeping -/

/-- `addTimeout` keeps the bookkeeping: the older timeouts give up the flags,
then the new timer holds them. -/
theorem addTimeout (hm : Inv m) (n : NodeId) (mask : BitMask) : Inv (m.addTimeout n mask) := by
  unfold Machine.addTimeout
  cases h : m.nodes n with
  | none => exact hm
  | some node =>
    dsimp only
    split_ifs with hzero
    · exact hm
    · have hok := hm.nodeOk n node h
      have h1 := hm.updateNode hok (fun τ t ht hne hn => hm.owns h ht hne hn)
        (hm.state_ne_zero n node h) (Finset.sdiff_subset (t := flags (mask &&& node.state)))
      have hdis : ∀ τ ∈ (removeTimeouts (mask &&& node.state) m.timers node.timeouts).2, ∀ t,
          (removeTimeouts (mask &&& node.state) m.timers node.timeouts).1 τ = some t →
          Disjoint (flags t.mask) (flags (mask &&& node.state)) := by
        intro τ hτ t ht
        have hmem := ((mem_removeTimeouts_snd hok.nodup _).mp hτ).1
        obtain ⟨u, -, rfl, -⟩ := hok.cleared hmem ht
        rw [Timeout.clear_mask, flags_and_not]
        exact Finset.sdiff_disjoint
      have h2 := h1.pushTimer (Function.update_self _ _ _) hzero
        (by rw [flags_and]; exact Finset.inter_subset_right) hdis
      simpa only [Function.update_idem] using h2

/-- `SetState` under the lock keeps the bookkeeping, from a record that is
`NodeOk`, holds every live timer of the node, and is not empty unless flags
are set. -/
theorem updateState (hm : Inv m) (hok : NodeOk m.timers n node)
    (hown : ∀ τ t, m.timers τ = some t → t.mask ≠ 0 → t.node = n → τ ∈ node.timeouts)
    {set reset : BitMask} (hnode : node.state ≠ 0 ∨ set ≠ 0) (timeout : ℕ) :
    Inv (updateState m n node set reset timeout).1 := by
  unfold Nodestate.updateState
  dsimp only
  by_cases hnew : (node.state &&& ~~~reset) ||| set = 0
  · -- no flag is left: the node is discarded
    have hset : set = 0 := by
      rw [← flags_eq_empty, flags_or] at hnew
      exact flags_eq_empty.mp (Finset.union_eq_empty.mp hnew).2
    have hold : node.state ≠ 0 := hnode.resolve_right (not_not.mpr hset)
    have hall : flags node.state ⊆ flags (set ||| reset) := by
      rw [← flags_eq_empty, flags_or, flags_and_not] at hnew
      rw [flags_or]
      exact (Finset.sdiff_eq_empty_iff_subset.mp (Finset.union_eq_empty.mp hnew).1).trans
        Finset.subset_union_right
    simp only [hnew, ne_eq, not_true_eq_false, and_false, if_false, if_true, if_neg (Ne.symm hold),
      Function.update_idem]
    exact hm.discard hok hown hall
  · have hsub : flags node.state \ flags (set ||| reset) ⊆ flags ((node.state &&& ~~~reset) ||| set) := by
      rw [flags_or, flags_or, flags_and_not]
      intro i hi
      simp only [Finset.mem_sdiff, Finset.mem_union] at hi
      exact Finset.mem_union_left _ (Finset.mem_sdiff.mpr ⟨hi.1, fun h => hi.2 (.inr h)⟩)
    have h1 := hm.updateNode hok hown hnew hsub
    -- whether a timeout is added or not, the node is kept
    split_ifs <;> first | exact h1 | exact h1.addTimeout n set

/-- `SetState` under the lock keeps the bookkeeping. -/
theorem setStateLocked (hm : Inv m) (n : NodeId) (set reset : BitMask) (timeout : ℕ) :
    Inv (setStateLocked m n set reset timeout).1 := by
  unfold Nodestate.setStateLocked
  cases h : m.nodes n with
  | none =>
    dsimp only
    split_ifs with hset
    · exact hm
    · exact hm.updateState (nodeOk_newNode _ n)
        (fun τ t ht hne hn => (hm.not_owns h ht hne hn).elim) (.inr hset) timeout
  | some node =>
    exact hm.updateState (hm.nodeOk n node h) (fun τ t ht hne hn => hm.owns h ht hne hn)
      (.inl (hm.state_ne_zero n node h)) timeout

/-- `SetField` under the lock keeps the bookkeeping: it writes a field only. -/
theorem setFieldLocked [DecidableEq V] (hm : Inv m) {subs : Subscriptions NodeId V} {n : NodeId}
    {field : ℕ} {value : Option V} {m' : Machine NodeId V} {x : Option (BitMask × Option V)}
    (h : Nodestate.setFieldLocked subs m n field value = .ok (m', x)) : Inv m' := by
  unfold Nodestate.setFieldLocked at h
  cases hn : m.nodes n with
  | none =>
    rw [hn] at h
    cases h
    exact hm
  | some node =>
    rw [hn] at h
    dsimp only at h
    split_ifs at h
    · cases h
      exact hm
    · cases h
      exact hm.setRecord hn rfl rfl

end Inv

/-! ### The state a call leaves -/

section getState

variable {m : Machine NodeId V}

theorem Machine.getState_eq (m : Machine NodeId V) (n : NodeId) :
    m.getState n = ((m.nodes n).map NodeInfo.state).getD 0 := by
  unfold Machine.getState
  cases m.nodes n <;> rfl

theorem Machine.getState_of_some (h : m.nodes n = some node) : m.getState n = node.state := by
  rw [Machine.getState, h]

theorem Machine.getState_of_none (h : m.nodes n = none) : m.getState n = 0 := by
  rw [Machine.getState, h]

/-- A node is kept exactly while it has a flag. -/
theorem Inv.isSome_iff (hm : Inv m) (n : NodeId) : (m.nodes n).isSome ↔ m.getState n ≠ 0 := by
  cases h : m.nodes n with
  | none => simp [Machine.getState_of_none h]
  | some node => simpa [Machine.getState_of_some h] using hm.state_ne_zero n node h

variable [DecidableEq NodeId]

/-- `addTimeout` changes no state. -/
@[simp] theorem Machine.getState_addTimeout (m : Machine NodeId V) (n : NodeId) (mask : BitMask)
    (n' : NodeId) : (m.addTimeout n mask).getState n' = m.getState n' := by
  unfold Machine.addTimeout
  cases h : m.nodes n with
  | none => rfl
  | some node =>
    dsimp only
    split_ifs
    · rfl
    · by_cases hn : n' = n
      · subst hn
        simp [Machine.getState_eq, h]
      · simp [Machine.getState_eq, Function.update_of_ne hn]

/-- `SetState` gives `n` the state `(state & ^reset) | set` and leaves the
other nodes' states alone. -/
theorem getState_updateState (m : Machine NodeId V) (n : NodeId) (node : NodeInfo V)
    (set reset : BitMask) (timeout : ℕ) (n' : NodeId) :
    (updateState m n node set reset timeout).1.getState n' =
      if n' = n then (node.state &&& ~~~reset) ||| set else m.getState n' := by
  unfold updateState
  dsimp only
  -- a new timeout changes no state, so only the record written matters
  by_cases hn : n' = n
  · subst hn
    split_ifs <;> (try rw [Machine.getState_addTimeout]) <;> simp_all [Machine.getState_eq]
  · split_ifs <;> (try rw [Machine.getState_addTimeout]) <;> simp_all [Machine.getState_eq]

theorem getState_setStateLocked (m : Machine NodeId V) (n : NodeId) (set reset : BitMask)
    (timeout : ℕ) (n' : NodeId) :
    (setStateLocked m n set reset timeout).1.getState n' =
      if n' = n then (m.getState n &&& ~~~reset) ||| set else m.getState n' := by
  unfold setStateLocked
  cases h : m.nodes n with
  | none =>
    dsimp only
    split_ifs with hset hn
    · subst hn hset
      simp [Machine.getState_of_none h]
    · rfl
    · rw [getState_updateState, if_pos ‹_›, Machine.getState_of_none h]
      rfl
    · rw [getState_updateState, if_neg ‹_›]
  | some node =>
    dsimp only
    rw [getState_updateState, Machine.getState_of_some h]

/-- `SetState` reports a change exactly when the state changed, from the
node's state to the new one. -/
theorem updateState_snd (m : Machine NodeId V) (n : NodeId) (node : NodeInfo V)
    (set reset : BitMask) (timeout : ℕ) :
    (updateState m n node set reset timeout).2 =
      if (node.state &&& ~~~reset) ||| set = node.state then none
      else some ⟨node.state, (node.state &&& ~~~reset) ||| set, node.fields⟩ := by
  unfold updateState
  dsimp only
  split_ifs <;> rfl

theorem setStateLocked_snd (m : Machine NodeId V) (n : NodeId) (set reset : BitMask)
    (timeout : ℕ) :
    (setStateLocked m n set reset timeout).2.map (fun ch => (ch.oldState, ch.newState)) =
      if (m.getState n &&& ~~~reset) ||| set = m.getState n then none
      else some (m.getState n, (m.getState n &&& ~~~reset) ||| set) := by
  unfold setStateLocked
  cases h : m.nodes n with
  | none =>
    dsimp only
    rw [Machine.getState_of_none h]
    by_cases hset : set = 0
    · rw [if_pos hset, hset]
      simp
    · rw [if_neg hset, updateState_snd]
      simp only [newNode]
      split_ifs <;> simp_all
  | some node =>
    dsimp only
    rw [updateState_snd, Machine.getState_of_some h]
    split_ifs <;> rfl

/-- `SetField` changes no state. -/
theorem getState_setFieldLocked [DecidableEq V] {subs : Subscriptions NodeId V} {n : NodeId}
    {field : ℕ} {value : Option V} {m' : Machine NodeId V} {x : Option (BitMask × Option V)}
    (h : setFieldLocked subs m n field value = .ok (m', x)) (n' : NodeId) :
    m'.getState n' = m.getState n' := by
  unfold setFieldLocked at h
  cases hn : m.nodes n with
  | none =>
    rw [hn] at h
    cases h
    rfl
  | some node =>
    rw [hn] at h
    dsimp only at h
    split_ifs at h
    · cases h
      rfl
    · cases h
      by_cases he : n' = n
      · subst he
        simp [Machine.getState_eq, hn]
      · simp [Machine.getState_eq, Function.update_of_ne he]

end getState

/-! ### Timers and flags set without a timeout -/

section timers

variable [DecidableEq NodeId] {m : Machine NodeId V}

/-- A firing timer resets exactly the flags it still holds, which are flags
of its node that no other timeout of the node holds, or none at all. -/
theorem fire_resets (hm : Inv m) {τ : ℕ} {t : Timeout NodeId} (ht : m.timers τ = some t) :
    (t.mask = 0 ∨ ∃ node, m.nodes t.node = some node ∧ τ ∈ node.timeouts ∧
      flags t.mask ⊆ flags node.state) ∧
    ∀ n', (setStateLocked m t.node 0 t.mask 0).1.getState n' =
      if n' = t.node then m.getState n' &&& ~~~t.mask else m.getState n' := by
  refine ⟨?_, fun n' => ?_⟩
  · by_cases hzero : t.mask = 0
    · exact .inl hzero
    · obtain ⟨node, h, hτ⟩ := hm.stale τ t ht hzero
      obtain ⟨t', ht', -, -, hsub⟩ := (hm.nodeOk _ node h).live τ hτ
      rw [ht] at ht'
      cases ht'
      exact .inr ⟨node, h, hτ, hsub⟩
  · rw [getState_setStateLocked, UInt64.or_zero]
    split_ifs with hn
    · rw [hn]
    · rfl

/-- After `SetState` with no timeout, no timeout of the node holds a flag that
was set or reset. -/
theorem updateState_clears (hok : NodeOk m.timers n node) {set reset : BitMask} {node' : NodeInfo V}
    (h : (updateState m n node set reset 0).1.nodes n = some node') {τ : ℕ} (hτ : τ ∈ node'.timeouts)
    {t : Timeout NodeId} (ht : (updateState m n node set reset 0).1.timers τ = some t) :
    Disjoint (flags t.mask) (flags (set ||| reset)) := by
  unfold updateState at h ht
  simp only [ne_eq, not_true_eq_false, false_and, if_false] at h ht
  split_ifs at h ht
  · -- the node kept: its timeouts are those `removeTimeouts` left
    simp only [Function.update_self, Option.some.injEq] at h
    rw [← h] at hτ
    have hmem := ((mem_removeTimeouts_snd hok.nodup _).mp hτ).1
    obtain ⟨u, -, rfl, -⟩ := hok.cleared hmem ht
    rw [Timeout.clear_mask, flags_and_not]
    exact Finset.sdiff_disjoint
  · simp at h
  · simp only [Function.update_self, Option.some.injEq] at h
    rw [← h] at hτ
    have hmem := ((mem_removeTimeouts_snd hok.nodup _).mp hτ).1
    obtain ⟨u, -, rfl, -⟩ := hok.cleared hmem ht
    rw [Timeout.clear_mask, flags_and_not]
    exact Finset.sdiff_disjoint

theorem setStateLocked_clears (hm : Inv m) (n : NodeId) (set reset : BitMask) {node' : NodeInfo V}
    (h : (setStateLocked m n set reset 0).1.nodes n = some node') {τ : ℕ} (hτ : τ ∈ node'.timeouts)
    {t : Timeout NodeId} (ht : (setStateLocked m n set reset 0).1.timers τ = some t) :
    Disjoint (flags t.mask) (flags (set ||| reset)) := by
  unfold setStateLocked at h ht
  cases hn : m.nodes n with
  | none =>
    rw [hn] at h ht
    dsimp only at h ht
    split_ifs at h ht
    · rw [hn] at h
      cases h
    · exact updateState_clears (nodeOk_newNode _ n) h hτ ht
  | some node =>
    rw [hn] at h ht
    exact updateState_clears (hm.nodeOk n node hn) h hτ ht

end timers

/-! ### Runs keep the bookkeeping -/

section runs

variable [DecidableEq NodeId] [DecidableEq V] {subs : Subscriptions NodeId V} {c c' : Config NodeId V}

/-- What one step does to the machine: nothing, or one call under the lock. -/
theorem Config.step_machine (h : c.step subs = some c') :
    c'.machine = c.machine ∨
      (∃ n set reset timeout, c'.machine = (setStateLocked c.machine n set reset timeout).1) ∨
      (∃ n field value x, setFieldLocked subs c.machine n field value = .ok (c'.machine, x)) ∨
      (∃ n mask, c'.machine = c.machine.addTimeout n mask) := by
  unfold Config.step at h
  split at h
  · cases h
  · dsimp only at h
    split at h <;>
    · cases h
      exact .inr (.inl ⟨_, _, _, _, rfl⟩)
  · split at h
    · cases h
      exact .inr (.inr (.inl ⟨_, _, _, _, ‹_›⟩))
    · cases h
      exact .inr (.inr (.inl ⟨_, _, _, _, ‹_›⟩))
    · cases h
      exact .inl rfl
  · cases h
    exact .inr (.inr (.inr ⟨_, _, rfl⟩))
  · cases h
    exact .inl rfl

theorem Inv.step (hm : Inv c.machine) (h : c.step subs = some c') : Inv c'.machine := by
  rcases Config.step_machine h with heq | ⟨n, set, reset, timeout, heq⟩ | ⟨n, field, value, x, hf⟩ |
      ⟨n, mask, heq⟩
  · rw [heq]
    exact hm
  · rw [heq]
    exact hm.setStateLocked n set reset timeout
  · exact hm.setFieldLocked hf
  · rw [heq]
    exact hm.addTimeout n mask

/-- A run of `k` steps from a reachable configuration reaches its end. -/
theorem Reachable.steps (h : Reachable subs c) {k : ℕ} (hk : c.steps subs k = some c') :
    Reachable subs c' := by
  induction k generalizing c with
  | zero =>
    cases hk
    exact h
  | succ k ih =>
    rw [Config.steps, Option.bind_eq_some_iff] at hk
    obtain ⟨c₁, h₁, hk⟩ := hk
    exact ih (h.step h₁) hk

/-- Every configuration a run reaches keeps the bookkeeping, between any two
steps of any nesting of callbacks. -/
theorem Reachable.inv (h : Reachable subs c) : Inv c.machine := by
  induction h with
  | init => exact Inv.empty
  | step _ hs ih => exact ih.step hs
  | event _ _ _ ih => exact ih

end runs

end RpcNetwork.P2p.Nodestate
