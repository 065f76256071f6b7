import RpcNetwork.Tbft.Types.VoteSetMaj23

/-!
# Commits

A `Commit` (`types/datas.go`) is the evidence that a block was committed: the
block and one precommit slot per validator.  `VoteSet.MakeCommit` builds it
from a precommit vote set with a two-thirds majority, and
`ValidatorSet.VerifyCommit` checks it against a validator set.

## Design notes

The volatile fields of `Commit` (the cached first precommit, hash and bit
array) depend only on the precommits and are recomputed, not stored.  The
errors of `VerifyCommit` are `fmt.Errorf` texts; each is a constructor carrying
the values its text prints.  After the size check, `GetByIndex(idx)` is the
validator at that position, so `tallyPrecommits` walks both lists side by side.  The tally is an unbounded integer, as the sums of `VoteSet` are.
-/

namespace RpcNetwork.Tbft.Types

open Finset

/-- `Commit`, without its volatile caches. -/
structure Commit where
  blockID : BlockID
  precommits : List (Option Vote)
  deriving DecidableEq, Repr

namespace Commit

/-- `&Vote{Type: VoteTypePrecommit}`, what `FirstPrecommit` returns when every
precommit is nil. -/
def emptyPrecommit : Vote :=
  ⟨[], 0, 0, 0, 0, 0, voteTypePrecommit, default, [], []⟩

/-- `FirstPrecommit()`: nil for a commit without precommits, else its first
non-nil precommit, else the empty precommit. -/
def firstPrecommit (commit : Commit) : Option Vote :=
  if commit.precommits.isEmpty then none
  else some ((commit.precommits.findSome? id).getD emptyPrecommit)

/-- `Height()`: zero without precommits, else the height of the first one. -/
def height (commit : Commit) : ℕ :=
  match commit.firstPrecommit with
  | none => 0
  | some precommit => precommit.height

/-- `Round()`: zero without precommits, else the round of the first one. -/
def round (commit : Commit) : ℕ :=
  match commit.firstPrecommit with
  | none => 0
  | some precommit => precommit.round

/-- A commit with a vote among its precommits starts with one of its votes. -/
theorem firstPrecommit_of_mem {commit : Commit} {i : ℕ} {v : Vote}
    (hv : commit.precommits.getD i none = some v) :
    ∃ j u, commit.firstPrecommit = some u ∧ commit.precommits.getD j none = some u := by
  have hmem : some v ∈ commit.precommits := by
    rw [List.getD_eq_getElem?_getD] at hv
    cases hi : commit.precommits[i]? with
    | none => simp [hi] at hv
    | some o =>
        rw [hi, Option.getD_some] at hv
        exact List.mem_of_getElem? (hv ▸ hi)
  have hne : commit.precommits.isEmpty = false := List.isEmpty_eq_false_iff.mpr (List.ne_nil_of_mem hmem)
  cases hfind : commit.precommits.findSome? id with
  | none => exact absurd (List.findSome?_eq_none_iff.mp hfind _ hmem) (by simp)
  | some u =>
      obtain ⟨o, ho, hou⟩ := List.exists_of_findSome?_eq_some hfind
      obtain ⟨j, hj⟩ := List.mem_iff_getElem?.mp ho
      refine ⟨j, u, by simp [firstPrecommit, hne, hfind], ?_⟩
      rw [List.getD_eq_getElem?_getD, hj, Option.getD_some]
      exact hou

end Commit

namespace VoteSet

/-- `MakeCommit()`: the canonical votes, for `maj23`.  Panics unless the set is
a precommit set with a two-thirds majority. -/
def makeCommit (voteSet : VoteSet) : Except String Commit :=
  if voteSet.typeB ≠ voteTypePrecommit then
    throw "Cannot MakeCommit() unless VoteSet.Type is VoteTypePrecommit"
  else
    match voteSet.maj23 with
    | none => throw "Cannot MakeCommit() unless a blockhash has +2/3"
    | some maj23 => pure ⟨maj23, voteSet.votes⟩

/-- What `MakeCommit` returns when it does not panic. -/
theorem makeCommit_eq {vs : VoteSet} {commit : Commit} (h : vs.makeCommit = .ok commit) :
    vs.typeB = voteTypePrecommit ∧ vs.maj23 = some commit.blockID ∧ commit.precommits = vs.votes := by
  unfold makeCommit at h
  split at h
  · cases h
  · rename_i htype
    split at h
    · cases h
    · rename_i b hb
      cases h
      exact ⟨not_not.mp htype, hb, rfl⟩

end VoteSet

/-- The errors of `VerifyCommit`, with the values their texts print. -/
inductive CommitError where
  /-- `invalid commit -- wrong set size: %v vs %v` -/
  | wrongSetSize (size precommits : ℕ)
  /-- `invalid commit -- wrong height: %v vs %v` -/
  | wrongHeight (height other : ℕ)
  /-- `invalid commit -- wrong round: %v vs %v` -/
  | wrongRound (round other : ℕ)
  /-- `invalid commit -- not precommit @ index %v` -/
  | notPrecommit (idx : ℕ)
  /-- `invalid commit -- invalid signature: %v` -/
  | invalidSignature (precommit : Vote)
  /-- `invalid commit -- insufficient voting power: got %v, needed %v` -/
  | insufficientVotingPower (got needed : ℤ)
  deriving DecidableEq, Repr

/-- The loop of `VerifyCommit` from index `idx` on: check every non-nil
precommit against the validator at its position, and add the power of those
for `blockID` that agree to `tallied`. -/
def tallyPrecommits (ks : KeyScheme) (chainID : String) (blockID : BlockID) (height round : ℕ) :
    ℕ → List Validator → List (Option Vote) → ℤ → Except CommitError ℤ
  | _, [], _, tallied => pure tallied
  | _, _ :: _, [], tallied => pure tallied
  | idx, _ :: vals, none :: precommits, tallied =>
      tallyPrecommits ks chainID blockID height round (idx + 1) vals precommits tallied
  | idx, val :: vals, some precommit :: precommits, tallied =>
      if precommit.height ≠ height then throw (.wrongHeight height precommit.height)
      else if precommit.round ≠ round then throw (.wrongRound round precommit.round)
      else if precommit.type ≠ voteTypePrecommit then throw (.notPrecommit idx)
      else if !ks.verifyBytes val.pubKey (precommit.signBytes chainID) precommit.signature then
        throw (.invalidSignature precommit)
      -- a precommit for another block is not an error, but does not count
      else if blockID ≠ precommit.blockID then
        tallyPrecommits ks chainID blockID height round (idx + 1) vals precommits tallied
      else
        tallyPrecommits ks chainID blockID height round (idx + 1) vals precommits
          (if precommit.result = voteAgree then tallied + val.votingPower else tallied)

/-- `ValidatorSet.VerifyCommit(chainID, blockID, height, commit)`: `none` when
more than two thirds of the power signed precommits for `blockID`. -/
def ValidatorSet.verifyCommit (ks : KeyScheme) (valSet : ValidatorSet) (chainID : String)
    (blockID : BlockID) (height : ℕ) (commit : Commit) : Option CommitError :=
  if valSet.size ≠ commit.precommits.length then
    some (.wrongSetSize valSet.size commit.precommits.length)
  else if height ≠ commit.height then some (.wrongHeight height commit.height)
  else
    match tallyPrecommits ks chainID blockID height commit.round 0 valSet.validators
        commit.precommits 0 with
    | .error err => some err
    | .ok tallied =>
        if tallied > twoThirds valSet.totalVotingPower then none
        else some (.insufficientVotingPower tallied (twoThirds valSet.totalVotingPower + 1))

/-! ### The tally -/

/-- A precommit slot that `VerifyCommit` counts for `blockID`: a vote for that
block that agrees. -/
def agreesOn (blockID : BlockID) (o : Option Vote) : Bool :=
  o.any fun v => v.blockID = blockID ∧ v.result = voteAgree

/-- The checks `VerifyCommit` makes of a non-nil precommit against the validator
at its position. -/
def PassesChecks (ks : KeyScheme) (chainID : String) (height round : ℕ) (val : Validator)
    (precommit : Vote) : Prop :=
  precommit.height = height ∧ precommit.round = round ∧ precommit.type = voteTypePrecommit ∧
    ks.verifyBytes val.pubKey (precommit.signBytes chainID) precommit.signature = true

/-- **The loop lemma of `VerifyCommit`.**  When every precommit passes the
checks against the validator at its position, the loop returns the power of
the precommits for the block that agree. -/
theorem tallyPrecommits_eq (ks : KeyScheme) (chainID : String) (blockID : BlockID)
    (height round : ℕ) :
    ∀ (idx : ℕ) (vals : List Validator) (precommits : List (Option Vote)) (tallied : ℤ),
      vals.length = precommits.length →
      (∀ j pc val, precommits.getD j none = some pc → vals[j]? = some val →
        PassesChecks ks chainID height round val pc) →
      tallyPrecommits ks chainID blockID height round idx vals precommits tallied =
        .ok (tallied + ∑ j ∈ range precommits.length,
          if agreesOn blockID (precommits.getD j none) then
            ((vals[j]?).map Validator.votingPower).getD 0 else 0) := by
  intro idx vals precommits
  induction precommits generalizing idx vals with
  | nil =>
      intro tallied hlen _
      rw [List.length_eq_zero_iff.mp hlen]
      simp [tallyPrecommits, pure, Except.pure]
  | cons o precommits ih =>
      intro tallied hlen hpass
      obtain ⟨val, vals, rfl⟩ := List.exists_cons_of_length_eq_add_one hlen
      have hpass' : ∀ j pc val', precommits.getD j none = some pc → vals[j]? = some val' →
          PassesChecks ks chainID height round val' pc :=
        fun j pc val' hpc hval => hpass (j + 1) pc val' hpc hval
      -- the first slot contributes its term, the rest is the loop from `idx + 1`
      rw [List.length_cons, sum_range_succ']
      simp only [List.getD_cons_succ, List.getElem?_cons_succ, List.getD_cons_zero,
        List.getElem?_cons_zero, Option.map_some, Option.getD_some]
      cases o with
      | none =>
          rw [tallyPrecommits, ih (idx + 1) vals tallied (by simpa using hlen) hpass']
          simp [agreesOn]
      | some pc =>
          obtain ⟨hh, hr, ht, hsig⟩ := hpass 0 pc val rfl rfl
          simp only [tallyPrecommits, hh, hr, ht, hsig, ne_eq, not_true_eq_false, if_false,
            Bool.not_true, Bool.false_eq_true]
          by_cases hb : blockID = pc.blockID
          · rw [if_neg (not_not.mpr hb), ih (idx + 1) vals _ (by simpa using hlen) hpass']
            by_cases ha : pc.result = voteAgree
            · simp [agreesOn, hb, ha]
              ring
            · simp [agreesOn, ha]
          · rw [if_pos hb, ih (idx + 1) vals tallied (by simpa using hlen) hpass']
            simp [agreesOn, Ne.symm hb]

namespace VoteSet

/-- The power of the canonical votes for `blockID` that agree. -/
def agreePower (vs : VoteSet) (blockID : BlockID) : ℤ :=
  ∑ i ∈ range vs.valSet.size, if agreesOn blockID (vs.getByIndex i) then vs.powerAt i else 0

/-- A positive agree-power needs a canonical vote. -/
theorem exists_vote_of_agreePower_pos {vs : VoteSet} {blockID : BlockID}
    (h : 0 < vs.agreePower blockID) : ∃ i v, vs.getByIndex i = some v ∧ v.blockID = blockID := by
  obtain ⟨i, -, hi⟩ := exists_ne_zero_of_sum_ne_zero (ne_of_gt h)
  cases hv : vs.getByIndex i with
  | none => simp [hv, agreesOn] at hi
  | some v =>
      have hag : agreesOn blockID (some v) = true := by
        by_contra hf
        rw [hv, if_neg hf] at hi
        exact hi rfl
      simp only [agreesOn, Option.any_some, decide_eq_true_eq] at hag
      exact ⟨i, v, hv, hag.1⟩

/-- **The quorum of `maj23` is in the canonical votes.**  Every vote of the
store of `maj23` is canonical, so with nonnegative powers the canonical votes
for `maj23` agree with at least the power the store counts. -/
theorem Inv.sum_le_agreePower {ks : KeyScheme} {vs : VoteSet} (h : Inv ks vs)
    (hnn : ∀ v ∈ vs.valSet.validators, 0 ≤ v.votingPower) {b : BlockID} {bv : BlockVotes}
    (hb : vs.maj23 = some b) (hbv : vs.votesByBlock b = some bv) : bv.sum ≤ vs.agreePower b := by
  rw [(h.blocks b bv hbv).store.sum_eq]
  apply sum_le_sum
  intro i _
  cases hslot : bv.votes.getD i none with
  | none =>
      rw [if_neg (by simp [isAgree])]
      split
      · exact powerAt_nonneg hnn i
      · exact le_rfl
  | some u =>
      have hcanon := h.maj23_canonical b bv hb hbv i u hslot
      have hblock := ((h.blocks b bv hbv).vote i u hslot).1
      by_cases ha : u.result = voteAgree
      · rw [if_pos (by simp [isAgree, ha]), hcanon, if_pos (by simp [agreesOn, hblock, ha])]
      · rw [if_neg (by simp [isAgree, ha])]
        split
        · exact powerAt_nonneg hnn i
        · exact le_rfl

/-- With nonnegative powers, the canonical votes of two different blocks share
the total power: each validator has one canonical vote. -/
theorem agreePower_add_le (vs : VoteSet) (hnn : ∀ v ∈ vs.valSet.validators, 0 ≤ v.votingPower)
    {k k' : BlockID} (hne : k ≠ k') :
    vs.agreePower k + vs.agreePower k' ≤ (vs.valSet.validators.map Validator.votingPower).sum := by
  rw [agreePower, agreePower, ← sum_add_distrib, ← sum_powerAt]
  apply sum_le_sum
  intro i _
  have hw := powerAt_nonneg hnn i
  cases hv : vs.getByIndex i with
  | none => simpa [agreesOn] using hw
  | some v =>
      -- one canonical vote agrees on at most one of the two blocks
      have hboth : ¬ (agreesOn k (some v) = true ∧ agreesOn k' (some v) = true) := by
        rintro ⟨h₁, h₂⟩
        simp only [agreesOn, Option.any_some, decide_eq_true_eq] at h₁ h₂
        exact hne (h₁.1.symm.trans h₂.1)
      split
      · rename_i h₁
        rw [if_neg fun h₂ => hboth ⟨h₁, h₂⟩, add_zero]
      · split <;> omega

/-- Without overflow, `TotalVotingPower()*2/3` is the quotient of the exact
product. -/
theorem twoThirds_of_fit {t : ℤ} (ht : 0 ≤ t) (hfit : 2 * t ≤ maxInt64) :
    twoThirds t = t * 2 / 3 := by
  have hwrap : wrapInt64 (t * 2) = t * 2 := by
    unfold wrapInt64
    unfold maxInt64 at hfit
    rw [Int.emod_eq_of_lt (by omega) (by omega)]
    ring
  rw [twoThirds, hwrap, Int.tdiv_eq_ediv_of_nonneg (by omega)]

/-- **One quorum of canonical votes.**  With nonnegative powers whose doubled
total fits in `int64`, two blocks whose canonical votes both reach the quorum
are the same block. -/
theorem agreePower_eq_of_quorum (vs : VoteSet)
    (hnn : ∀ v ∈ vs.valSet.validators, 0 ≤ v.votingPower)
    (hfit : 2 * (vs.valSet.validators.map Validator.votingPower).sum ≤ maxInt64) {k k' : BlockID}
    (hk : twoThirds vs.valSet.totalVotingPower + 1 ≤ vs.agreePower k)
    (hk' : twoThirds vs.valSet.totalVotingPower + 1 ≤ vs.agreePower k') : k = k' := by
  by_contra hne
  have htotal : 0 ≤ (vs.valSet.validators.map Validator.votingPower).sum :=
    List.sum_nonneg fun x hx => by
      obtain ⟨v, hv, rfl⟩ := List.mem_map.mp hx
      exact hnn v hv
  have hT := vs.valSet.totalVotingPower_eq_sum hnn (by omega)
  rw [hT, twoThirds_of_fit htotal hfit] at hk hk'
  have hle := agreePower_add_le vs hnn hne
  omega

/-! ### A commit made by a vote set verifies -/

/-- Every canonical vote passes the checks of `VerifyCommit` against the
validator at its index, for the height and round of the set. -/
theorem Inv.passesChecks {ks : KeyScheme} {vs : VoteSet} (h : Inv ks vs)
    (htype : vs.typeB = voteTypePrecommit) (j : ℕ) (pc : Vote) (val : Validator)
    (hpc : vs.votes.getD j none = some pc) (hval : vs.valSet.validators[j]? = some val) :
    PassesChecks ks vs.chainID vs.height vs.round val pc := by
  obtain ⟨-, -, hh, hr, ht, val', hval', -, hver⟩ := h.accepts j pc hpc
  rw [hval, Option.some.injEq] at hval'
  subst hval'
  exact ⟨hh, hr, ht.trans htype, (Vote.verify_eq_none.mp hver).2⟩

/-- **The quorum of `maj23` is in the canonical votes.**  On a reachable vote
set with nonnegative powers, the quorum is positive and the canonical votes
for `maj23` reach it. -/
theorem quorum_le_agreePower {ks : KeyScheme} {vs : VoteSet} (hR : vs.Reachable ks)
    (hnn : ∀ v ∈ vs.valSet.validators, 0 ≤ v.votingPower) {b : BlockID} (hb : vs.maj23 = some b) :
    0 < twoThirds vs.valSet.totalVotingPower + 1 ∧
      twoThirds vs.valSet.totalVotingPower + 1 ≤ vs.agreePower b := by
  have h := hR.inv
  obtain ⟨bv, hbv⟩ := Option.isSome_iff_exists.mp (h.maj23_tracked _ hb)
  exact ⟨hR.majInv.positive hnn (by simp [hb]),
    (h.maj23_quorum hnn _ bv hb hbv).trans (h.sum_le_agreePower hnn hb hbv)⟩

/-- A commit made by a reachable vote set with nonnegative powers has the
height and round of the set: it holds a vote, and every vote has them. -/
theorem makeCommit_height_round {ks : KeyScheme} {vs : VoteSet} (hR : vs.Reachable ks)
    (hnn : ∀ v ∈ vs.valSet.validators, 0 ≤ v.votingPower) {commit : Commit}
    (hc : vs.makeCommit = .ok commit) : commit.height = vs.height ∧ commit.round = vs.round := by
  obtain ⟨-, hb, hpre⟩ := makeCommit_eq hc
  obtain ⟨hq, hquorum⟩ := quorum_le_agreePower hR hnn hb
  obtain ⟨i, v, hv, -⟩ := exists_vote_of_agreePower_pos (lt_of_lt_of_le hq hquorum)
  obtain ⟨j, u, hfirst, hu⟩ :=
    Commit.firstPrecommit_of_mem (show commit.precommits.getD i none = some v by rw [hpre]; exact hv)
  rw [hpre] at hu
  obtain ⟨-, -, hh, hr, -⟩ := hR.inv.accepts j u hu
  exact ⟨by simp [Commit.height, hfirst, hh], by simp [Commit.round, hfirst, hr]⟩

/-- **A commit made by a vote set verifies.**  On a reachable vote set with
nonnegative powers, the commit `MakeCommit` returns passes `VerifyCommit` for
its block, at the height of the set: the canonical votes pass every check, and
those for `maj23` carry at least the quorum its store counts. -/
theorem verifyCommit_makeCommit {ks : KeyScheme} {vs : VoteSet} (hR : vs.Reachable ks)
    (hnn : ∀ v ∈ vs.valSet.validators, 0 ≤ v.votingPower) {commit : Commit}
    (hc : vs.makeCommit = .ok commit) :
    vs.valSet.verifyCommit ks vs.chainID commit.blockID vs.height commit = none := by
  have h := hR.inv
  obtain ⟨htype, hb, hpre⟩ := makeCommit_eq hc
  have hquorum := (quorum_le_agreePower hR hnn hb).2
  obtain ⟨hheight, hround⟩ := makeCommit_height_round hR hnn hc
  have hlen : commit.precommits.length = vs.valSet.size := hpre ▸ h.canonical.length_eq
  -- the loop passes every canonical vote and tallies the agree-power of the block
  have htally := tallyPrecommits_eq ks vs.chainID commit.blockID vs.height commit.round 0
    vs.valSet.validators commit.precommits 0 hlen.symm (fun j' pc val hpc hval =>
      hround ▸ h.passesChecks htype j' pc val (by rw [← hpre]; exact hpc) hval)
  rw [hlen, zero_add] at htally
  have hsum : (∑ j ∈ range vs.valSet.size, if agreesOn commit.blockID (commit.precommits.getD j none)
      then ((vs.valSet.validators[j]?).map Validator.votingPower).getD 0 else 0) =
      vs.agreePower commit.blockID := by
    rw [hpre]
    rfl
  unfold ValidatorSet.verifyCommit
  rw [if_neg (by omega), if_neg (by omega), htally, hsum]
  exact if_pos (by omega)

end VoteSet

end RpcNetwork.Tbft.Types
