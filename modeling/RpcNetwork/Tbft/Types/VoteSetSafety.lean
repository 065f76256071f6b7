import RpcNetwork.Tbft.Types.VoteSetInvariant

/-!
# What a vote set guarantees

The invariant of `VoteSetInvariant.lean`, read as the properties consensus
relies on.

## Design notes

The concrete runs use `tagScheme`, in which a key is its own address and the
signature of a message is the key followed by the hash the message names; the
votes of the runs carry exactly those signatures, so every check of `AddVote`
passes as it would with real keys.
-/

namespace RpcNetwork.Tbft.Types

open Help Finset

namespace VoteSet

/-! ### Concrete runs -/

/-- A key scheme for concrete runs: a key is its own address, and a signature
is the key followed by the hash the signed message names. -/
def tagScheme : KeyScheme where
  address pk := pk
  verifyBytes pk msg sig := sig == pk ++ (match msg with
    | .vote cv => cv.blockID.hash
    | .proposal cp => cp.blockPartsHeader.hash)

/-- The agreeing precommit, signed under `tagScheme`, of validator `i` with
address `[a]` for block `b` at height one, round zero. -/
def precommitOf (a : UInt8) (i : ℕ) (b : BlockID) : Vote :=
  ⟨[a], i, 1, 0, voteAgree, 0, voteTypePrecommit, b, [a] ++ b.hash, []⟩

/-- Two blocks of one part each. -/
def blockA : BlockID := ⟨[0xA], ⟨1, [0xA]⟩⟩

def blockB : BlockID := ⟨[0xB], ⟨1, [0xB]⟩⟩

/-- Four validators of power one, sorted by address. -/
def fourValidators : ValidatorSet :=
  ⟨[⟨[1], [1], 1, 0⟩, ⟨[2], [2], 1, 0⟩, ⟨[3], [3], 1, 0⟩, ⟨[4], [4], 1, 0⟩], none⟩

/-- A run with two equivocating validators.  A peer vouches for `B`; validators
`0`, `1` and `2` precommit `A`, which becomes `maj23`; validators `0` and `1`
then precommit `B` as well, and so does validator `3`. -/
def equivocationRun : Except String VoteSet :=
  newVoteSet "chain" 1 0 voteTypePrecommit fourValidators >>= fun vs =>
    runOps tagScheme vs
      [.setPeerMaj23 "peer" blockB, .addVote (some (precommitOf 1 0 blockA)),
        .addVote (some (precommitOf 2 1 blockA)), .addVote (some (precommitOf 3 2 blockA)),
        .addVote (some (precommitOf 1 0 blockB)), .addVote (some (precommitOf 2 1 blockB)),
        .addVote (some (precommitOf 4 3 blockB))]

/-- The vote set `equivocationRun` ends with. -/
def equivocationSet : VoteSet :=
  match equivocationRun with
  | .ok vs => vs
  | .error _ => ⟨"", 0, 0, 0, ⟨[], none⟩, none, [], 0, 0, none, fun _ => none, fun _ => none⟩

theorem equivocationSet_reachable : equivocationSet.Reachable tagScheme :=
  reachable_of_run (show equivocationRun = .ok equivocationSet from rfl)

/-! ### The representation invariant -/

/-- Three validators of powers `2`, `2` and `-2`. -/
def negativePowerValidators : ValidatorSet :=
  ⟨[⟨[1], [1], 2, 0⟩, ⟨[2], [2], 2, 0⟩, ⟨[3], [3], -2, 0⟩], none⟩

/-- **Quorum intersection.**  Over nonnegative powers of total `T`, if the
stores of two blocks both reach `T * 2 / 3 + 1`, the validators with a vote in
both stores (for two different blocks: validators that signed conflicting
votes) have more than `T / 3` of the power. -/
theorem quorum_intersection {ks : KeyScheme} {vs : VoteSet} (hR : vs.Reachable ks)
    (hnn : ∀ v ∈ vs.valSet.validators, 0 ≤ v.votingPower) {k₁ k₂ : BlockID}
    {bv₁ bv₂ : BlockVotes} (h₁ : vs.votesByBlock k₁ = some bv₁) (h₂ : vs.votesByBlock k₂ = some bv₂)
    (hq₁ : (vs.valSet.validators.map Validator.votingPower).sum * 2 / 3 + 1 ≤ bv₁.sum)
    (hq₂ : (vs.valSet.validators.map Validator.votingPower).sum * 2 / 3 + 1 ≤ bv₂.sum) :
    (vs.valSet.validators.map Validator.votingPower).sum <
      3 * ∑ i ∈ range vs.valSet.size with
        ((bv₁.votes.getD i none).isSome ∧ (bv₂.votes.getD i none).isSome), vs.powerAt i :=
  hR.inv.quorum_inter hnn h₁ h₂ hq₁ hq₂

/-- Quorum intersection on the run with two equivocating validators: `A` and
`B` both reach three of the four votes, and validators `0` and `1` are in both. -/
theorem quorum_intersection_equivocation :
    equivocationSet.Reachable tagScheme ∧
    (∀ v ∈ equivocationSet.valSet.validators, 0 ≤ v.votingPower) ∧
    equivocationSet.votesByBlock blockA =
      some ((equivocationSet.votesByBlock blockA).getD (newBlockVotes false 0)) ∧
    equivocationSet.votesByBlock blockB =
      some ((equivocationSet.votesByBlock blockB).getD (newBlockVotes false 0)) ∧
    (equivocationSet.valSet.validators.map Validator.votingPower).sum * 2 / 3 + 1 ≤
      ((equivocationSet.votesByBlock blockA).getD (newBlockVotes false 0)).sum ∧
    (equivocationSet.valSet.validators.map Validator.votingPower).sum * 2 / 3 + 1 ≤
      ((equivocationSet.votesByBlock blockB).getD (newBlockVotes false 0)).sum ∧
    (equivocationSet.valSet.validators.map Validator.votingPower).sum <
      3 * ∑ i ∈ range equivocationSet.valSet.size with
        ((((equivocationSet.votesByBlock blockA).getD (newBlockVotes false 0)).votes.getD i
            none).isSome ∧
          (((equivocationSet.votesByBlock blockB).getD (newBlockVotes false 0)).votes.getD i
            none).isSome), equivocationSet.powerAt i := by
  have hnn : ∀ v ∈ equivocationSet.valSet.validators, 0 ≤ v.votingPower := by decide
  have h₁ : equivocationSet.votesByBlock blockA =
      some ((equivocationSet.votesByBlock blockA).getD (newBlockVotes false 0)) := by decide
  have h₂ : equivocationSet.votesByBlock blockB =
      some ((equivocationSet.votesByBlock blockB).getD (newBlockVotes false 0)) := by decide
  have hq₁ : (equivocationSet.valSet.validators.map Validator.votingPower).sum * 2 / 3 + 1 ≤
      ((equivocationSet.votesByBlock blockA).getD (newBlockVotes false 0)).sum := by decide
  have hq₂ : (equivocationSet.valSet.validators.map Validator.votingPower).sum * 2 / 3 + 1 ≤
      ((equivocationSet.votesByBlock blockB).getD (newBlockVotes false 0)).sum := by decide
  exact ⟨equivocationSet_reachable, hnn, h₁, h₂, hq₁, hq₂,
    quorum_intersection equivocationSet_reachable hnn h₁ h₂ hq₁ hq₂⟩

/-! ### Canonical votes and their blocks -/

/-- **Every canonical vote is tracked by its block.**  The store of the block a
canonical vote names exists, and holds that vote, unless the vote is for
`maj23`: a conflicting vote for `maj23` replaces the canonical one but enters
the store of `maj23` only when a peer vouched for it. -/
theorem canonical_vote_tracked {ks : KeyScheme} {vs : VoteSet} (hR : vs.Reachable ks) (i : ℕ)
    (v : Vote) (hv : vs.getByIndex i = some v) :
    ∃ bv, vs.votesByBlock v.blockID = some bv ∧
      (bv.votes.getD i none = some v ∨ vs.maj23 = some v.blockID) :=
  hR.inv.tracked i v hv

/-- Canonical votes are tracked on the run with two equivocating validators. -/
theorem canonical_vote_tracked_equivocation :
    equivocationSet.Reachable tagScheme ∧
    equivocationSet.getByIndex 3 = some (precommitOf 4 3 blockB) ∧
    ∃ bv, equivocationSet.votesByBlock blockB = some bv ∧
      (bv.votes.getD 3 none = some (precommitOf 4 3 blockB) ∨
        equivocationSet.maj23 = some blockB) := by
  have hv : equivocationSet.getByIndex 3 = some (precommitOf 4 3 blockB) := by decide
  exact ⟨equivocationSet_reachable, hv,
    canonical_vote_tracked equivocationSet_reachable 3 (precommitOf 4 3 blockB) hv⟩

/-- **A replaced canonical vote is not in its block's store.**  Of four
validators of power one, `0` precommits `A`, `1`-`3` make `B` the `maj23`, and
`0` then precommits `B`: the vote replaces the canonical one, but with no peer
vouching for `B` it never enters `B`'s store. -/
theorem replaced_vote_untracked :
    ¬ ∀ (ks : KeyScheme) (vs : VoteSet), vs.Reachable ks → ∀ i v, vs.getByIndex i = some v →
      ∃ bv, vs.votesByBlock v.blockID = some bv ∧ bv.votes.getD i none = some v := by
  intro h
  have key : ((newVoteSet "chain" 1 0 voteTypePrecommit fourValidators >>= fun vs =>
      runOps tagScheme vs
        [.addVote (some (precommitOf 1 0 blockA)), .addVote (some (precommitOf 2 1 blockB)),
          .addVote (some (precommitOf 3 2 blockB)), .addVote (some (precommitOf 4 3 blockB)),
          .addVote (some (precommitOf 1 0 blockB))]).map
      fun vs => (vs.getByIndex 0, (vs.votesByBlock blockB).map fun bv => bv.votes.getD 0 none)) =
      .ok (some (precommitOf 1 0 blockB), some none) := by
    decide
  cases hrun : (newVoteSet "chain" 1 0 voteTypePrecommit fourValidators >>= fun vs =>
      runOps tagScheme vs
        [.addVote (some (precommitOf 1 0 blockA)), .addVote (some (precommitOf 2 1 blockB)),
          .addVote (some (precommitOf 3 2 blockB)), .addVote (some (precommitOf 4 3 blockB)),
          .addVote (some (precommitOf 1 0 blockB))]) with
  | error msg =>
      rw [hrun] at key
      cases key
  | ok vs =>
      rw [hrun] at key
      simp only [Except.map, Except.ok.injEq, Prod.mk.injEq] at key
      obtain ⟨hv, hslot⟩ := key
      obtain ⟨bv, hbv, hbv0⟩ := h tagScheme vs (reachable_of_run hrun) 0 _ hv
      change vs.votesByBlock blockB = some bv at hbv
      rw [hbv, Option.map_some, Option.some.injEq, hbv0] at hslot
      cases hslot

end VoteSet

end RpcNetwork.Tbft.Types
