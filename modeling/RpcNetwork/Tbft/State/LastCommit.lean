import RpcNetwork.Tbft.Types.Commit
import RpcNetwork.Tbft.Types.VoteSetSafety

/-!
# Reconstructing the last commit

`ConsensusState.reconstructLastCommit` (`state.go`) rebuilds the precommit vote
set of the last height from the commit saved with its block: it adds every
non-nil precommit to a fresh vote set, and panics unless each one is added
without error and the set ends with a two-thirds majority.

## Design notes

The panic of the loop formats the error of `AddVote` after its text; the
model keeps the text and leaves the error out.  `reconstructLastCommit` sets
`cs.LastCommit`; the model returns the vote set, and `none` where the source
returns early and leaves `LastCommit` as it was.
-/

namespace RpcNetwork.Tbft

open Finset RpcNetwork.Tbft.Types RpcNetwork.Tbft.Types.VoteSet

/-- The loop of `reconstructLastCommit`: add every non-nil precommit, and panic
unless each one is added without error. -/
def addPrecommits (ks : KeyScheme) : VoteSet → List (Option Vote) → Except String VoteSet
  | lastPrecommits, [] => pure lastPrecommits
  | lastPrecommits, none :: precommits => addPrecommits ks lastPrecommits precommits
  | lastPrecommits, some precommit :: precommits => do
      let ((added, err), lastPrecommits) ← lastPrecommits.addVote ks (some precommit)
      if !added || err.isSome then throw "Failed to reconstruct LastCommit"
      else addPrecommits ks lastPrecommits precommits

/-- `reconstructLastCommit()`, with the block store's answers as arguments: the
height of the last block, the commit saved with it and the last validators.
`none` is the early return that leaves `LastCommit` unset. -/
def reconstructLastCommit (ks : KeyScheme) (chainID : String) (lastBlockHeight : ℕ)
    (seenCommit : Option Commit) (lastValidators : ValidatorSet) : Except String (Option VoteSet) :=
  match seenCommit with
  | none => pure none
  | some seenCommit =>
      if lastBlockHeight = 0 then pure none
      else do
        let lastPrecommits ← newVoteSet chainID lastBlockHeight seenCommit.round voteTypePrecommit
          lastValidators
        let lastPrecommits ← addPrecommits ks lastPrecommits seenCommit.precommits
        if !lastPrecommits.hasTwoThirdsMajority then
          throw "Failed to reconstruct LastCommit: Does not have +2/3 maj"
        else pure (some lastPrecommits)

/-- `TwoThirdsMajority()` answers `(B, true)` exactly when `maj23` is `B`. -/
theorem twoThirdsMajority_eq_true {vs : VoteSet} {b : BlockID} :
    vs.twoThirdsMajority = (b, true) ↔ vs.maj23 = some b := by
  unfold twoThirdsMajority
  cases vs.maj23 with
  | none => simp
  | some b' => simp

/-! ### The replay invariant -/

/-- The vote set `W` after the loop has added the first `j` canonical votes of
`V`: reachable, with `V`'s parameters and `V`'s canonical votes below `j` and
none from `j` on, and every block's store holding exactly the canonical votes
for that block. -/
structure ReplayInv (ks : KeyScheme) (V W : VoteSet) (j : ℕ) : Prop where
  reachable : W.Reachable ks
  params : SameParams V W
  votes : ∀ i, W.getByIndex i = if i < j then V.getByIndex i else none
  exact : ∀ k i v, BlockVotes.getByIndex (W.votesByBlock k) i = some v ↔
    W.getByIndex i = some v ∧ v.blockID = k

section Replay

variable {ks : KeyScheme} {V W : VoteSet} {j : ℕ}

/-- The fresh vote set of the loop starts the replay. -/
theorem replayInv_newVoteSet (htype : V.typeB = voteTypePrecommit)
    (h : newVoteSet V.chainID V.height V.round voteTypePrecommit V.valSet = .ok W) :
    ReplayInv ks V W 0 := by
  have hR : W.Reachable ks := .newVoteSet h
  unfold newVoteSet at h
  split at h
  · cases h
  · cases h
    refine ⟨hR, ⟨rfl, rfl, rfl, htype.symm, rfl⟩, fun i => ?_, fun k i v => ?_⟩
    · simp [getByIndex]
    · simp [getByIndex, BlockVotes.getByIndex]

/-- A nil precommit moves the replay on without touching the vote set. -/
theorem ReplayInv.skip (hW : ReplayInv ks V W j) (hnone : V.getByIndex j = none) :
    ReplayInv ks V W (j + 1) := by
  refine ⟨hW.reachable, hW.params, fun i => ?_, hW.exact⟩
  rw [hW.votes i]
  by_cases hij : i = j
  · subst hij
    simp [hnone]
  · by_cases hlt : i < j
    · rw [if_pos hlt, if_pos (by omega)]
    · rw [if_neg hlt, if_neg (by omega)]

/-- No store of a replayed vote set holds a vote where the canonical slot is
empty. -/
theorem ReplayInv.store_none (hW : ReplayInv ks V W j) {i : ℕ} (hslot : W.getByIndex i = none)
    (k : BlockID) : BlockVotes.getByIndex (W.votesByBlock k) i = none := by
  cases hs : BlockVotes.getByIndex (W.votesByBlock k) i with
  | none => rfl
  | some u =>
      rw [((hW.exact k i u).mp hs).1] at hslot
      cases hslot

/-- The store a first vote goes into holds, at every index, what the block's
store held: the existing store, or a fresh one where there was none. -/
theorem getD_tracked {bv₀ : BlockVotes} {k : BlockID}
    (hbv₀ : W.votesByBlock k = some bv₀ ∨
      (W.votesByBlock k = none ∧ bv₀ = newBlockVotes false W.valSet.size)) (i : ℕ) :
    bv₀.votes.getD i none = BlockVotes.getByIndex (W.votesByBlock k) i := by
  rcases hbv₀ with hbv₀ | ⟨hnone, rfl⟩
  · rw [hbv₀]
    rfl
  · rw [hnone]
    simp [newBlockVotes, BlockVotes.getByIndex]

/-- The canonical phase on an empty slot writes the vote there and leaves the
stores. -/
theorem recordVote_none_eq {vs vs₁ : VoteSet} {vote : Vote} {k : BlockID} {p : ℤ} {c : Option Vote}
    (hslot : vs.getByIndex vote.validatorIndex = none) (h : vs.recordVote vote k p = .ok (c, vs₁)) :
    vs₁.votes = vs.votes.set vote.validatorIndex (some vote) ∧ vs₁.votesByBlock = vs.votesByBlock := by
  rw [recordVote_of_none hslot, Except.ok.injEq, Prod.mk.injEq] at h
  obtain ⟨-, rfl⟩ := h
  exact ⟨rfl, rfl⟩

section Step

variable {v : Vote} {bv₀ : BlockVotes} {p : ℤ}

/-- The store a first vote goes into, after the vote: the vote at its index, and
what the block's store held elsewhere. -/
theorem ReplayInv.getD_addVerifiedVote (hW : ReplayInv ks V W j)
    (hbv₀ : W.votesByBlock v.blockID = some bv₀ ∨
      (W.votesByBlock v.blockID = none ∧ bv₀ = newBlockVotes false W.valSet.size))
    (hslot : W.getByIndex v.validatorIndex = none) (hi : v.validatorIndex < W.valSet.size) :
    (bv₀.addVerifiedVote v p).votes.length = W.valSet.size ∧
      ∀ i, (bv₀.addVerifiedVote v p).votes.getD i none =
        if i = v.validatorIndex then some v else BlockVotes.getByIndex (W.votesByBlock v.blockID) i := by
  have hfree : bv₀.votes.getD v.validatorIndex none = none :=
    (getD_tracked hbv₀ _).trans (hW.store_none hslot _)
  have hlen : bv₀.votes.length = W.valSet.size := by
    rcases hbv₀ with h | ⟨-, rfl⟩
    · exact (hW.reachable.inv.blocks _ _ h).store.length_eq
    · simp [newBlockVotes]
  rw [BlockVotes.addVerifiedVote_eq hfree]
  refine ⟨by rw [List.length_set, hlen], fun i => ?_⟩
  rw [getD_set_none (hlen ▸ hi), getD_tracked hbv₀]

/-- The canonical votes after a first vote: the vote at its index, the old ones
elsewhere.  When the vote takes its block across the quorum, the copy-over
only copies votes that are already canonical. -/
theorem ReplayInv.getByIndex_addToBlock (hW : ReplayInv ks V W j) {W₁ : VoteSet}
    (hbv₀ : W.votesByBlock v.blockID = some bv₀ ∨
      (W.votesByBlock v.blockID = none ∧ bv₀ = newBlockVotes false W.valSet.size))
    (hslot : W.getByIndex v.validatorIndex = none) (hi : v.validatorIndex < W.valSet.size)
    (hvotes : W₁.votes = W.votes.set v.validatorIndex (some v)) (i : ℕ) :
    (W₁.addToBlock v v.blockID p bv₀).getByIndex i =
      if i = v.validatorIndex then some v else W.getByIndex i := by
  have hlenW : W.votes.length = W.valSet.size := hW.reachable.inv.canonical.length_eq
  have hW₁ : ∀ i', W₁.votes.getD i' none = if i' = v.validatorIndex then some v else W.getByIndex i' :=
    fun i' => by rw [hvotes, getD_set_none (hlenW ▸ hi)]; rfl
  obtain ⟨hlen, hget⟩ := @ReplayInv.getD_addVerifiedVote ks V W j v bv₀ p hW hbv₀ hslot hi
  show (W₁.addToBlock v v.blockID p bv₀).votes.getD i none = _
  rcases addToBlock_votes W₁ v v.blockID p bv₀ with h | h
  · rw [h, hW₁]
  · rw [h, getD_overwriteVotes _ _ (by rw [hlen, hvotes, List.length_set, hlenW]), hget, hW₁]
    by_cases hij : i = v.validatorIndex
    · simp [hij]
    · rw [if_neg hij, if_neg hij]
      -- a vote the store holds is already the canonical one
      cases hs : BlockVotes.getByIndex (W.votesByBlock v.blockID) i with
      | none => rfl
      | some u => rw [((hW.exact _ i u).mp hs).1]; rfl

/-- The stores after a first vote: the vote in its block's store at its index,
everything else as before. -/
theorem storeAt_addToBlock (hW : ReplayInv ks V W j) {W₁ : VoteSet}
    (hbv₀ : W.votesByBlock v.blockID = some bv₀ ∨
      (W.votesByBlock v.blockID = none ∧ bv₀ = newBlockVotes false W.valSet.size))
    (hslot : W.getByIndex v.validatorIndex = none) (hi : v.validatorIndex < W.valSet.size)
    (hstores : W₁.votesByBlock = W.votesByBlock) (k : BlockID) (i : ℕ) :
    BlockVotes.getByIndex ((W₁.addToBlock v v.blockID p bv₀).votesByBlock k) i =
      if k = v.blockID ∧ i = v.validatorIndex then some v
      else BlockVotes.getByIndex (W.votesByBlock k) i := by
  rw [(addToBlock_stores W₁ v v.blockID p bv₀).2.1, hstores]
  by_cases hk : k = v.blockID
  · subst hk
    rw [Function.update_self]
    show (bv₀.addVerifiedVote v p).votes.getD i none = _
    rw [(@ReplayInv.getD_addVerifiedVote ks V W j v bv₀ p hW hbv₀ hslot hi).2 i]
    by_cases hij : i = v.validatorIndex <;> simp [hij]
  · rw [Function.update_of_ne hk, if_neg fun h => hk h.1]

end Step

/-- **The step of the replay.**  The next canonical vote of `V` is added with
`added = true` and no error, and the replay invariant moves one index on. -/
theorem ReplayInv.addVote (hV : Inv ks V) (hW : ReplayInv ks V W j) {v : Vote}
    (hv : V.getByIndex j = some v) :
    ∃ W', W.addVote ks (some v) = .ok ((true, none), W') ∧ ReplayInv ks V W' (j + 1) := by
  have hacc := hV.accepts j v hv
  have hidx : v.validatorIndex = j := hacc.1
  have hi : j < W.valSet.size := hW.params.valSet ▸ hacc.lt_size
  have hslot : W.getByIndex j = none := by simp [hW.votes j]
  subst hidx
  obtain ⟨W₁, bv₀, hrec, hbv₀, hadd⟩ :=
    addVote_first (hacc.of_sameParams hW.params) hslot (hW.store_none hslot v.blockID)
  obtain ⟨hvotes, hstores⟩ := recordVote_none_eq hslot hrec
  have hcanon := @ReplayInv.getByIndex_addToBlock ks V W v.validatorIndex v bv₀ (W.powerAt v.validatorIndex) hW W₁
    hbv₀ hslot hi hvotes
  refine ⟨_, hadd, hW.reachable.addVote hadd, hW.params.trans (addVote_sameParams hadd),
    fun i => ?_, fun k i u => ?_⟩
  · -- the replayed prefix grows by the vote
    rw [hcanon i]
    by_cases hij : i = v.validatorIndex
    · rw [if_pos hij, if_pos (by omega), hij, hv]
    · rw [if_neg hij, hW.votes i]
      by_cases hlt : i < v.validatorIndex
      · rw [if_pos hlt, if_pos (by omega)]
      · rw [if_neg hlt, if_neg (by omega)]
  · -- the vote is in the store of its block and nowhere else
    rw [storeAt_addToBlock hW hbv₀ hslot hi hstores k i, hcanon i]
    by_cases hij : i = v.validatorIndex
    · subst hij
      rw [if_pos rfl, hW.store_none hslot k]
      by_cases hk : k = v.blockID
      · subst hk
        simp only [and_self, if_true, Option.some.injEq]
        exact ⟨fun h => ⟨h, h ▸ rfl⟩, fun h => h.1⟩
      · rw [if_neg fun h => hk h.1]
        simp only [reduceCtorEq, false_iff, not_and, Option.some.injEq]
        rintro rfl
        exact Ne.symm hk
    · rw [if_neg fun h => hij h.2, if_neg hij]
      exact hW.exact k i u

/-- **The run of the replay.**  From the replay state at `j`, the loop over the
canonical votes of `V` from `j` on never panics, and replays all of them. -/
theorem addPrecommits_replay (hV : Inv ks V) :
    ∀ (rest : List (Option Vote)) (j : ℕ) (W : VoteSet), V.votes.drop j = rest →
      ReplayInv ks V W j → ∃ W', addPrecommits ks W rest = .ok W' ∧
        ReplayInv ks V W' (j + rest.length)
  | [], j, W, _, hW => ⟨W, rfl, hW⟩
  | o :: rest, j, W, hdrop, hW => by
      -- the head of the suffix is the canonical vote at `j`
      have hj : V.getByIndex j = o := by
        have hhead := congrArg List.head? hdrop
        rw [List.head?_drop] at hhead
        simp [getByIndex, List.getD_eq_getElem?_getD, hhead]
      have hdrop' : V.votes.drop (j + 1) = rest := by
        rw [← List.tail_drop, hdrop, List.tail_cons]
      have hlen : j + (o :: rest).length = j + 1 + rest.length := by
        rw [List.length_cons]
        omega
      rw [hlen]
      cases o with
      | none =>
          exact addPrecommits_replay hV rest (j + 1) W hdrop' (hW.skip hj)
      | some v =>
          obtain ⟨W₁, hadd, hW₁⟩ := hW.addVote hV hj
          obtain ⟨W', hrun, hW'⟩ := addPrecommits_replay hV rest (j + 1) W₁ hdrop' hW₁
          refine ⟨W', ?_, hW'⟩
          simp only [addPrecommits, hadd, bind, Except.bind, Bool.not_true, Option.isSome_none,
            Bool.or_self, Bool.false_eq_true, if_false, hrun]

/-- A replayed store counts exactly the agree-power of the canonical votes for
its block. -/
theorem ReplayInv.sum_eq_agreePower (hW : ReplayInv ks V W j) {k : BlockID} {bv : BlockVotes}
    (hk : W.votesByBlock k = some bv) : bv.sum = W.agreePower k := by
  rw [(hW.reachable.inv.blocks k bv hk).store.sum_eq, agreePower]
  refine sum_congr rfl fun i _ => ?_
  have hexact := hW.exact k i
  rw [hk] at hexact
  change ∀ u, bv.votes.getD i none = some u ↔ _ at hexact
  cases hs : bv.votes.getD i none with
  | some u =>
      obtain ⟨hu, hub⟩ := (hexact u).mp hs
      simp [isAgree, agreesOn, hu, hub]
  | none =>
      -- no canonical vote for the block at `i`
      cases hu : W.getByIndex i with
      | none => simp [isAgree, agreesOn]
      | some u =>
          have hub : u.blockID ≠ k := fun hub => by
            have := (hexact u).mpr ⟨hu, hub⟩
            rw [hs] at this
            cases this
          simp [isAgree, agreesOn, hub]

/-- **The replayed majority.**  With nonnegative powers whose doubled total fits
in `int64`, replaying the canonical votes of a reachable set with `maj23 = B`
ends with `maj23 = B`: only `B` has a quorum of them. -/
theorem ReplayInv.maj23_eq (hR : V.Reachable ks)
    (hnn : ∀ v ∈ V.valSet.validators, 0 ≤ v.votingPower)
    (hfit : 2 * (V.valSet.validators.map Validator.votingPower).sum ≤ maxInt64) {B : BlockID}
    (hb : V.maj23 = some B) (hW : ReplayInv ks V W V.valSet.size) : W.maj23 = some B := by
  have hlenV : V.votes.length = V.valSet.size := hR.inv.canonical.length_eq
  have hsame : ∀ i, W.getByIndex i = V.getByIndex i := by
    intro i
    rw [hW.votes i]
    split
    · rfl
    · rename_i hi
      simp [getByIndex, List.getD_eq_getElem?_getD, List.getElem?_eq_none (by omega : V.votes.length ≤ i)]
  have hpower : ∀ k, W.agreePower k = V.agreePower k := fun k => by
    simp only [agreePower, powerAt, hsame, hW.params.valSet]
  have hnnW : ∀ v ∈ W.valSet.validators, 0 ≤ v.votingPower := hW.params.valSet ▸ hnn
  obtain ⟨hq, hquorum⟩ := quorum_le_agreePower hR hnn hb
  rw [← hW.params.valSet] at hq hquorum
  rw [← hpower] at hquorum
  cases hm : W.maj23 with
  | none =>
      -- `B`'s store would have reached the quorum without setting `maj23`
      exfalso
      obtain ⟨i, u, hu, hub⟩ := exists_vote_of_agreePower_pos (lt_of_lt_of_le hq hquorum)
      have hstore := (hW.exact B i u).mpr ⟨hu, hub⟩
      cases hbv : W.votesByBlock B with
      | none =>
          rw [hbv] at hstore
          cases hstore
      | some bv =>
          have hbelow := hW.reachable.majInv.below hm hq B bv hbv
          rw [hW.sum_eq_agreePower hbv] at hbelow
          omega
  | some k =>
      obtain ⟨bv, hbv⟩ := Option.isSome_iff_exists.mp (hW.reachable.inv.maj23_tracked k hm)
      have hk := hW.reachable.inv.maj23_quorum hnnW k bv hm hbv
      rw [hW.sum_eq_agreePower hbv, hpower, hW.params.valSet] at hk
      rw [hW.params.valSet, hpower] at hquorum
      rw [agreePower_eq_of_quorum V hnn hfit hk hquorum]

end Replay

/-! ### The round trip -/

/-- Over the powers `2, 2, -2`: validator `1` precommits `B`, which becomes
`maj23`; validator `0` then precommits `A`. -/
def negativeCommitRun : Except String VoteSet :=
  newVoteSet "chain" 1 0 voteTypePrecommit negativePowerValidators >>= fun vs =>
    runOps tagScheme vs
      [.addVote (some (precommitOf 2 1 blockB)), .addVote (some (precommitOf 1 0 blockA))]

/-- The vote set `negativeCommitRun` ends with. -/
def negativeCommitSet : VoteSet :=
  match negativeCommitRun with
  | .ok vs => vs
  | .error _ => ⟨"", 0, 0, 0, ⟨[], none⟩, none, [], 0, 0, none, fun _ => none, fun _ => none⟩

theorem negativeCommitSet_reachable : negativeCommitSet.Reachable tagScheme :=
  reachable_of_run (show negativeCommitRun = .ok negativeCommitSet from rfl)

end RpcNetwork.Tbft
