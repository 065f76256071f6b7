import RpcNetwork.Tbft.Types.VoteSetInvariant

/-!
# When a vote set sets `maj23`

`addVerifiedVote` makes a block `maj23` at the vote that takes the block's
store across the quorum `q = TotalVotingPower()*2/3 + 1`, if no block is
`maj23` yet.  This module shows that this is the only way `maj23` is set, and
that it is never missed.

## Design notes

The quorum is `twoThirds vs.valSet.totalVotingPower + 1`, the value Go
computes.  It need not be positive: when `TotalVotingPower()*2` overflows it
can be zero or negative, and then no store ever crosses it.
-/

namespace RpcNetwork.Tbft.Types

open Help Finset

namespace VoteSet

/-! ### What no call changes -/

/-- Two vote sets made with the same arguments of `NewVoteSet`. -/
structure SameParams (vs vs' : VoteSet) : Prop where
  chainID : vs'.chainID = vs.chainID
  height : vs'.height = vs.height
  round : vs'.round = vs.round
  typeB : vs'.typeB = vs.typeB
  valSet : vs'.valSet = vs.valSet

theorem SameParams.refl (vs : VoteSet) : SameParams vs vs := ⟨rfl, rfl, rfl, rfl, rfl⟩

theorem SameParams.trans {vs vs' vs'' : VoteSet} (h : SameParams vs vs') (h' : SameParams vs' vs'') :
    SameParams vs vs'' :=
  ⟨h'.chainID.trans h.chainID, h'.height.trans h.height, h'.round.trans h.round,
    h'.typeB.trans h.typeB, h'.valSet.trans h.valSet⟩

/-- The canonical phase touches neither the parameters nor the stores. -/
theorem recordVote_sameParams {vs vs₁ : VoteSet} {vote : Vote} {k : BlockID} {p : ℤ}
    {c : Option Vote} (h : vs.recordVote vote k p = .ok (c, vs₁)) :
    SameParams vs vs₁ ∧ vs₁.votesByBlock = vs.votesByBlock := by
  unfold recordVote at h
  split at h
  · split at h
    · cases h
    · split at h <;> cases h <;> exact ⟨⟨rfl, rfl, rfl, rfl, rfl⟩, rfl⟩
  · cases h
    exact ⟨⟨rfl, rfl, rfl, rfl, rfl⟩, rfl⟩

/-- The per-block phase writes the store of the block, and sets `maj23` exactly
when that store crosses the quorum while no block is `maj23`. -/
theorem addToBlock_stores (vs : VoteSet) (vote : Vote) (k : BlockID) (p : ℤ) (bv : BlockVotes) :
    SameParams vs (vs.addToBlock vote k p bv) ∧
    (vs.addToBlock vote k p bv).votesByBlock =
      Function.update vs.votesByBlock k (some (bv.addVerifiedVote vote p)) ∧
    (vs.addToBlock vote k p bv).maj23 =
      if bv.sum < twoThirds vs.valSet.totalVotingPower + 1 ∧
          twoThirds vs.valSet.totalVotingPower + 1 ≤ (bv.addVerifiedVote vote p).sum ∧
          vs.maj23 = none
      then some vote.blockID else vs.maj23 := by
  unfold addToBlock
  dsimp only
  by_cases hc : bv.sum < twoThirds vs.valSet.totalVotingPower + 1 ∧
      twoThirds vs.valSet.totalVotingPower + 1 ≤ (bv.addVerifiedVote vote p).sum ∧
      vs.maj23 = none
  · rw [if_pos hc, if_pos hc]
    exact ⟨⟨rfl, rfl, rfl, rfl, rfl⟩, rfl, rfl⟩
  · rw [if_neg hc, if_neg hc]
    exact ⟨⟨rfl, rfl, rfl, rfl, rfl⟩, rfl, rfl⟩

/-- The per-block phase leaves the canonical votes, or copies the votes of the
block's store over them. -/
theorem addToBlock_votes (vs : VoteSet) (vote : Vote) (k : BlockID) (p : ℤ) (bv : BlockVotes) :
    (vs.addToBlock vote k p bv).votes = vs.votes ∨
      (vs.addToBlock vote k p bv).votes = overwriteVotes vs.votes (bv.addVerifiedVote vote p).votes := by
  unfold addToBlock
  dsimp only
  split
  · exact .inr rfl
  · exact .inl rfl

/-- **No call changes the parameters** of a vote set. -/
theorem addVote_sameParams {ks : KeyScheme} {vs vs' : VoteSet} {v : Option Vote}
    {r : Bool × Option VoteError} (h : vs.addVote ks v = .ok (r, vs')) : SameParams vs vs' := by
  rcases addVote_cases h with rfl | ⟨vote, -, -, -, r', hadd⟩
  · exact SameParams.refl _
  · obtain ⟨c, vs₁, hrec, hcase⟩ := addVerifiedVote_eq hadd
    rcases hcase with ⟨-, rfl⟩ | ⟨bv, -, rfl⟩
    · exact (recordVote_sameParams hrec).1
    · exact (recordVote_sameParams hrec).1.trans (addToBlock_stores ..).1

theorem setPeerMaj23_sameParams (vs : VoteSet) (peerID : P2PID) (blockID : BlockID) :
    SameParams vs (vs.setPeerMaj23 peerID blockID).2 := by
  obtain ⟨ps, g, heq, -⟩ := setPeerMaj23_eq vs peerID blockID
  rw [heq]
  exact ⟨rfl, rfl, rfl, rfl, rfl⟩

/-- The checks of `AddVote` read only the parameters of a vote set. -/
theorem Accepts.of_sameParams {ks : KeyScheme} {vs vs' : VoteSet} (h : SameParams vs vs') {i : ℕ}
    {v : Vote} (ha : vs.Accepts ks i v) : vs'.Accepts ks i v := by
  unfold Accepts
  rw [h.height, h.round, h.typeB, h.valSet, h.chainID]
  exact ha

/-- `NewVoteSet` refuses height zero, so every reachable vote set has a
positive height. -/
theorem Reachable.height_pos {ks : KeyScheme} {vs : VoteSet} (h : vs.Reachable ks) :
    0 < vs.height := by
  induction h with
  | newVoteSet h =>
      unfold Types.newVoteSet at h
      split at h
      · cases h
      · rename_i hh
        cases h
        exact Nat.pos_of_ne_zero hh
  | addVote _ hres ih =>
      rw [(addVote_sameParams hres).height]
      exact ih
  | @setPeerMaj23 vs peerID blockID _ ih =>
      rw [(setPeerMaj23_sameParams vs peerID blockID).height]
      exact ih

/-! ### What `AddVote` does to the stores -/

/-- The store a vote goes into: the tracked one, or a fresh one. -/
theorem trackedBlockVotes_cases {vs : VoteSet} {k : BlockID} {c : Option Vote} {bv₀ : BlockVotes}
    (h : vs.trackedBlockVotes k c = some bv₀) :
    vs.votesByBlock k = some bv₀ ∨
      (vs.votesByBlock k = none ∧ bv₀ = newBlockVotes false vs.valSet.size) := by
  cases c with
  | none => exact trackedBlockVotes_none h
  | some e => exact .inl (trackedBlockVotes_some h)

/-- **What `AddVote` does to the stores and to `maj23`**: nothing, or the vote
goes into the store `bv₀` of its block (the existing one or a fresh one), and
`maj23` becomes that block when the store crosses the quorum while `maj23` is
unset. -/
theorem addVote_stores {ks : KeyScheme} {vs vs' : VoteSet} {v : Option Vote}
    {r : Bool × Option VoteError} (h : vs.addVote ks v = .ok (r, vs')) :
    (vs'.votesByBlock = vs.votesByBlock ∧ vs'.maj23 = vs.maj23) ∨
      ∃ vote bv₀, (vs.votesByBlock vote.blockID = some bv₀ ∨
          (vs.votesByBlock vote.blockID = none ∧ bv₀ = newBlockVotes false vs.valSet.size)) ∧
        vs'.votesByBlock = Function.update vs.votesByBlock vote.blockID
          (some (bv₀.addVerifiedVote vote (vs.powerAt vote.validatorIndex))) ∧
        vs'.maj23 =
          if bv₀.sum < twoThirds vs.valSet.totalVotingPower + 1 ∧
              twoThirds vs.valSet.totalVotingPower + 1 ≤
                (bv₀.addVerifiedVote vote (vs.powerAt vote.validatorIndex)).sum ∧
              vs.maj23 = none
          then some vote.blockID else vs.maj23 := by
  rcases addVote_cases h with rfl | ⟨vote, -, -, -, r', hadd⟩
  · exact .inl ⟨rfl, rfl⟩
  · obtain ⟨c, vs₁, hrec, hcase⟩ := addVerifiedVote_eq hadd
    obtain ⟨hsame, hstores⟩ := recordVote_sameParams hrec
    have hmaj := maj23_recordVote hrec
    rcases hcase with ⟨-, rfl⟩ | ⟨bv₀, ht, rfl⟩
    · exact .inl ⟨hstores, hmaj⟩
    · right
      obtain ⟨-, hstores', hmaj'⟩ := addToBlock_stores vs₁ vote vote.blockID
        (vs.powerAt vote.validatorIndex) bv₀
      refine ⟨vote, bv₀, ?_, ?_, ?_⟩
      · rw [← hstores, ← hsame.valSet]
        exact trackedBlockVotes_cases ht
      · rw [hstores', hstores]
      · rw [hmaj', hmaj, hsame.valSet]

/-! ### `maj23` is set exactly at the crossing -/

/-- With nonnegative powers, every store's sum is nonnegative. -/
theorem Inv.store_sum_nonneg {ks : KeyScheme} {vs : VoteSet} (h : Inv ks vs)
    (hnn : ∀ v ∈ vs.valSet.validators, 0 ≤ v.votingPower) {k : BlockID} {bv : BlockVotes}
    (hk : vs.votesByBlock k = some bv) : 0 ≤ bv.sum := by
  rw [(h.blocks k bv hk).store.sum_eq]
  apply sum_nonneg
  intro i _
  split
  · exact powerAt_nonneg hnn i
  · exact le_rfl

/-- **How `maj23` follows the quorum.**  While `maj23` is unset, every store is
below the quorum, when the quorum is positive; and with nonnegative powers,
`maj23` can only have been set if the quorum is positive. -/
structure MajInv (vs : VoteSet) : Prop where
  below : vs.maj23 = none → 0 < twoThirds vs.valSet.totalVotingPower + 1 →
    ∀ k bv, vs.votesByBlock k = some bv → bv.sum < twoThirds vs.valSet.totalVotingPower + 1
  positive : (∀ v ∈ vs.valSet.validators, 0 ≤ v.votingPower) → vs.maj23.isSome →
    0 < twoThirds vs.valSet.totalVotingPower + 1

theorem majInv_newVoteSet {chainID : String} {height round : ℕ} {typeB : UInt8}
    {valSet : ValidatorSet} {vs : VoteSet}
    (h : newVoteSet chainID height round typeB valSet = .ok vs) : MajInv vs := by
  unfold newVoteSet at h
  split at h
  · cases h
  · cases h
    refine ⟨fun _ _ k bv hk => ?_, fun _ hs => ?_⟩
    · cases hk
    · cases hs

/-- `AddVote` keeps `MajInv`: a store that reaches the quorum while `maj23` is
unset is exactly the crossing that sets it. -/
theorem MajInv.addVote {ks : KeyScheme} {vs vs' : VoteSet} (h : Inv ks vs) (hm : MajInv vs)
    {v : Option Vote} {r : Bool × Option VoteError} (hres : vs.addVote ks v = .ok (r, vs')) :
    MajInv vs' := by
  have hval := (addVote_sameParams hres).valSet
  rcases addVote_stores hres with ⟨hstores, hmaj⟩ | ⟨vote, bv₀, hbv₀, hstores, hmaj⟩
  · refine ⟨fun hnone hq k bv hk => ?_, fun hnn hs => ?_⟩
    · rw [hval] at hq ⊢
      rw [hstores] at hk
      exact hm.below (hmaj ▸ hnone) hq k bv hk
    · rw [hval] at hnn ⊢
      exact hm.positive hnn (hmaj ▸ hs)
  · refine ⟨fun hnone hq k bv hk => ?_, fun hnn hs => ?_⟩
    · rw [hval] at hq ⊢
      -- no crossing happened, and `maj23` was unset before
      by_cases hc : bv₀.sum < twoThirds vs.valSet.totalVotingPower + 1 ∧
          twoThirds vs.valSet.totalVotingPower + 1 ≤
            (bv₀.addVerifiedVote vote (vs.powerAt vote.validatorIndex)).sum ∧
          vs.maj23 = none
      · rw [if_pos hc] at hmaj
        rw [hmaj] at hnone
        cases hnone
      · rw [if_neg hc] at hmaj
        have hnone₀ : vs.maj23 = none := hmaj ▸ hnone
        have hlt₀ : bv₀.sum < twoThirds vs.valSet.totalVotingPower + 1 := by
          rcases hbv₀ with hbv₀ | ⟨-, rfl⟩
          · exact hm.below hnone₀ hq _ bv₀ hbv₀
          · exact hq
        rw [hstores] at hk
        by_cases hk' : k = vote.blockID
        · subst hk'
          rw [Function.update_self, Option.some.injEq] at hk
          subst hk
          exact lt_of_not_ge fun hge => hc ⟨hlt₀, hge, hnone₀⟩
        · rw [Function.update_of_ne hk'] at hk
          exact hm.below hnone₀ hq k bv hk
    · rw [hval] at hnn ⊢
      by_cases hc : bv₀.sum < twoThirds vs.valSet.totalVotingPower + 1 ∧
          twoThirds vs.valSet.totalVotingPower + 1 ≤
            (bv₀.addVerifiedVote vote (vs.powerAt vote.validatorIndex)).sum ∧
          vs.maj23 = none
      · -- the crossing store started from a nonnegative sum below the quorum
        have hsum : 0 ≤ bv₀.sum := by
          rcases hbv₀ with hbv₀ | ⟨-, rfl⟩
          · exact h.store_sum_nonneg hnn hbv₀
          · exact le_rfl
        exact lt_of_le_of_lt hsum hc.1
      · rw [if_neg hc] at hmaj
        exact hm.positive hnn (hmaj ▸ hs)

/-- `SetPeerMaj23` keeps `MajInv`: it only adds empty stores and raises flags. -/
theorem MajInv.setPeerMaj23 {vs : VoteSet} (hm : MajInv vs) (peerID : P2PID) (blockID : BlockID) :
    MajInv (vs.setPeerMaj23 peerID blockID).2 := by
  obtain ⟨ps, g, heq, hg⟩ := setPeerMaj23_eq vs peerID blockID
  rw [heq]
  refine ⟨fun hnone hq k bv hk => ?_, hm.positive⟩
  have hk' : g k = some bv := hk
  rcases FlagStep.to_some (hk' ▸ hg k) with ⟨-, rfl⟩ | ⟨bv₁, h₁, -, -, hs⟩
  · exact hq
  · exact hs ▸ hm.below hnone hq k bv₁ h₁

/-- **The run lemma for `maj23`**: every reachable vote set satisfies `MajInv`. -/
theorem Reachable.majInv {ks : KeyScheme} {vs : VoteSet} (h : vs.Reachable ks) : MajInv vs := by
  induction h with
  | newVoteSet h => exact majInv_newVoteSet h
  | addVote hR hres ih => exact ih.addVote hR.inv hres
  | setPeerMaj23 peerID blockID _ ih => exact ih.setPeerMaj23 peerID blockID

/-! ### A first vote is added -/

/-- `AddVote` on a vote that passes its checks and that `getVote` does not
find is the verified add and the check of its answer. -/
theorem addVote_of_accepts {ks : KeyScheme} {vs : VoteSet} {vote : Vote}
    (hacc : vs.Accepts ks vote.validatorIndex vote)
    (hget : vs.getVote vote.validatorIndex vote.blockID = none) :
    vs.addVote ks (some vote) = (do
      let ((added, conflicting), vs') ←
        vs.addVerifiedVote vote vote.blockID (vs.powerAt vote.validatorIndex)
      if conflicting.isSome then pure ((added, some VoteError.conflictingVotes), vs')
      else if !added then throw "Expected to add non-conflicting vote"
      else pure ((added, none), vs')) := by
  obtain ⟨-, haddr, hh, hr, ht, val, hval, hlook, hver⟩ := hacc
  have hbyIndex : vs.valSet.getByIndex vote.validatorIndex = some (val.address, val) := by
    simp [ValidatorSet.getByIndex, hval]
  have hpow : vs.powerAt vote.validatorIndex = val.votingPower := by
    simp [powerAt, hval]
  -- the address check reads the address after `hlook` has rewritten it
  have hempty : val.address.isEmpty = false := hlook ▸ List.isEmpty_eq_false_iff.mpr haddr
  rw [hpow]
  simp only [addVote, hh, hr, ht, hbyIndex, hlook, hget, hver, hempty, ne_eq, not_true_eq_false,
    or_self, if_false, Bool.false_eq_true]

/-- The verified add of a first vote: the canonical phase records it, and the
vote always goes into its block's store. -/
theorem addVerifiedVote_first {vs : VoteSet} {vote : Vote} {p : ℤ}
    (hslot : vs.getByIndex vote.validatorIndex = none) :
    ∃ vs₁ bv₀, vs.recordVote vote vote.blockID p = .ok (none, vs₁) ∧
      (vs.votesByBlock vote.blockID = some bv₀ ∨
        (vs.votesByBlock vote.blockID = none ∧ bv₀ = newBlockVotes false vs.valSet.size)) ∧
      vs.addVerifiedVote vote vote.blockID p =
        .ok ((true, none), vs₁.addToBlock vote vote.blockID p bv₀) := by
  cases hk : vs.votesByBlock vote.blockID with
  | none =>
      refine ⟨_, newBlockVotes false vs.valSet.size, recordVote_of_none hslot, .inr ⟨rfl, rfl⟩, ?_⟩
      simp [addVerifiedVote, recordVote_of_none hslot, trackedBlockVotes, hk, bind, Except.bind,
        pure, Except.pure]
  | some bv =>
      refine ⟨_, bv, recordVote_of_none hslot, .inl rfl, ?_⟩
      simp [addVerifiedVote, recordVote_of_none hslot, trackedBlockVotes, hk, bind, Except.bind,
        pure, Except.pure]

/-- **A first vote is added.**  A vote that passes every check of `AddVote`, at
a validator without a vote and not yet in its block's store, is recorded in
the canonical store and in its block's store: `AddVote` answers `added = true`
with no error. -/
theorem addVote_first {ks : KeyScheme} {vs : VoteSet} {vote : Vote}
    (hacc : vs.Accepts ks vote.validatorIndex vote)
    (hslot : vs.getByIndex vote.validatorIndex = none)
    (hfree : BlockVotes.getByIndex (vs.votesByBlock vote.blockID) vote.validatorIndex = none) :
    ∃ vs₁ bv₀, vs.recordVote vote vote.blockID (vs.powerAt vote.validatorIndex) = .ok (none, vs₁) ∧
      (vs.votesByBlock vote.blockID = some bv₀ ∨
        (vs.votesByBlock vote.blockID = none ∧ bv₀ = newBlockVotes false vs.valSet.size)) ∧
      vs.addVote ks (some vote) = .ok ((true, none),
        vs₁.addToBlock vote vote.blockID (vs.powerAt vote.validatorIndex) bv₀) := by
  have hget : vs.getVote vote.validatorIndex vote.blockID = none := by
    unfold getVote
    unfold getByIndex at hslot
    rw [hslot]
    exact hfree
  obtain ⟨vs₁, bv₀, hrec, hbv₀, hadd⟩ :=
    @addVerifiedVote_first vs vote (vs.powerAt vote.validatorIndex) hslot
  refine ⟨vs₁, bv₀, hrec, hbv₀, ?_⟩
  rw [addVote_of_accepts hacc hget, hadd]
  rfl

end VoteSet

end RpcNetwork.Tbft.Types
