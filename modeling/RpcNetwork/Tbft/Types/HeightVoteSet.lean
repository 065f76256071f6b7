import RpcNetwork.Tbft.Types.VoteSet
import RpcNetwork.Tbft.Types.PrivValidator

/-!
# The vote sets of one height (`types/height_vote_set.go`)

A `HeightVoteSet` keeps a prevote set and a precommit set for every round from
0 up to `round`, and lets each peer open at most two rounds beyond it, so that
the precommits of a commit round can arrive before the node gets there.

## Design notes

The map `roundVoteSets` is a function from rounds to an optional pair of vote
sets, and `peerCatchupRounds` a function from peers to their list of rounds.
Rounds are naturals; a caller's round of `-1` reads `none`, as Go's lookup
returns nil.  The vote sets are mutated in place in
Go; the model writes the changed set back (`setVoteSet`).  `panic(0)` is a
panic with message `"0"`.

The hash copies of `KeepBlockSign` and `PbftSign` are the 32-byte hash itself;
`Result` holds the vote's result modulo `2^32`.
-/

namespace RpcNetwork.Tbft.Help

open RpcNetwork.Tbft.Types (HexBytes)

/-- `EqualHashes(hash1, hash2)` (`help/common.go`): equal and both nonempty. -/
def equalHashes (hash1 hash2 : HexBytes) : Bool :=
  !hash1.isEmpty && !hash2.isEmpty && hash1 == hash2

/-- Equal hashes are equal. -/
theorem equalHashes_eq {hash1 hash2 : HexBytes} (h : equalHashes hash1 hash2 = true) :
    hash1 = hash2 := by
  simp only [equalHashes, Bool.and_eq_true, Bool.not_eq_true', beq_iff_eq] at h
  exact h.2

end RpcNetwork.Tbft.Help

namespace RpcNetwork.Tbft.Types

open Help

/-- `PbftSign`: one validator's signed verdict on a committed block. -/
structure PbftSign where
  fastHash : HexBytes
  fastHeight : ℕ
  result : ℕ
  sign : HexBytes
  deriving DecidableEq, Repr

namespace VoteSet

/-- `GetByAddress(address)`: the canonical vote of the validator with that
address; an address outside the validator set panics. -/
def getByAddress (voteSet : VoteSet) (address : HexBytes) : Except String (Option Vote) :=
  match voteSet.valSet.getByAddress address with
  | none => throw "GetByAddress(address) returned nil"
  | some (valIndex, _) => pure (voteSet.votes.getD valIndex none)

/-- `GetSignByAddress(addr)`: the verdict and verdict signature of that
validator's vote, with the hash of the block it names. -/
def getSignByAddress (voteSet : VoteSet) (addr : HexBytes) : Except String (Option KeepBlockSign) := do
  match ← voteSet.getByAddress addr with
  | none => pure none
  | some vote => pure (some ⟨vote.result, vote.resultSign, vote.blockID.hash⟩)

/-- `HasAll()`: every validator's power voted. -/
def hasAll (voteSet : VoteSet) : Bool :=
  voteSet.sum == voteSet.valSet.totalVotingPower

/-- The loop of `MakePbftSigns` from index `i`: the sign of every vote the
block's bit array marks; a marked nil vote panics. -/
def pbftSignsFrom (hash : HexBytes) (bits : Option BitArray) : ℕ → List (Option Vote) →
    Except String (List PbftSign)
  | _, [] => pure []
  | i, vote :: votes =>
      if BitArray.getIndex bits i then
        match vote with
        | none => throw "runtime error: invalid memory address or nil pointer dereference"
        | some vote => do
            let signs ← pbftSignsFrom hash bits (i + 1) votes
            pure (⟨hash, vote.height, vote.result % 2 ^ 32, vote.resultSign⟩ :: signs)
      else pbftSignsFrom hash bits (i + 1) votes

/-- `MakePbftSigns(thash)`: the signs of the two-thirds majority's votes, when
the majority is for `thash`; the inner `Except` is Go's returned error, with its
format string in place of the formatted text. -/
def makePbftSigns (voteSet : VoteSet) (thash : HexBytes) :
    Except String (Except String (List PbftSign)) :=
  match voteSet.maj23 with
  | none => pure (throw "there was no pok")
  | some blockid =>
      if !equalHashes thash blockid.hash then pure (throw "hash:%s,blockid:%s")
      else match voteSet.votesByBlock blockid with
        | none => pure (throw "none blockhash was vote,hash=%s")
        | some voteByBlock => .ok <$> pbftSignsFrom blockid.hash voteByBlock.bitArray 0 voteByBlock.votes

end VoteSet

/-- `TwoThirdsMajority()` on a possibly nil set. -/
def twoThirdsMajorityOf : Option VoteSet → BlockID × Bool
  | some voteSet => voteSet.twoThirdsMajority
  | none => (default, false)

/-- `HasTwoThirdsMajority()` on a possibly nil set. -/
def hasTwoThirdsMajorityOf : Option VoteSet → Bool
  | some voteSet => voteSet.hasTwoThirdsMajority
  | none => false

/-- `HasTwoThirdsAny()` on a possibly nil set. -/
def hasTwoThirdsAnyOf : Option VoteSet → Bool
  | some voteSet => voteSet.hasTwoThirdsAny
  | none => false

/-- `MakePbftSigns(thash)` on a possibly nil set. -/
def makePbftSignsOf : Option VoteSet → HexBytes → Except String (Except String (List PbftSign))
  | some voteSet, thash => voteSet.makePbftSigns thash
  | none, _ => pure (throw "no voteset")

/-- `RoundVoteSet`: the prevotes and precommits of one round. -/
structure RoundVoteSet where
  prevotes : VoteSet
  precommits : VoteSet

/-- `HeightVoteSet`, without its mutex. -/
structure HeightVoteSet where
  chainID : String
  height : ℕ
  valSet : ValidatorSet
  round : ℕ
  roundVoteSets : ℕ → Option RoundVoteSet
  peerCatchupRounds : P2PID → List ℕ

/-- The errors of `HeightVoteSet.AddVote`: one of its own, or one of
`VoteSet.AddVote`. -/
inductive HeightVoteSetError where
  /-- `ErrorGotVoteFromUnwantedRound` -/
  | gotVoteFromUnwantedRound
  | vote (err : VoteError)
  deriving DecidableEq, Repr

namespace HeightVoteSet

/-- `addRound(round)`: a fresh prevote and precommit set for the round; an
existing round panics. -/
def addRound (hvs : HeightVoteSet) (round : ℕ) : Except String HeightVoteSet :=
  if (hvs.roundVoteSets round).isSome then throw "0"
  else do
    let prevotes ← newVoteSet hvs.chainID hvs.height round voteTypePrevote hvs.valSet
    let precommits ← newVoteSet hvs.chainID hvs.height round voteTypePrecommit hvs.valSet
    pure { hvs with
      roundVoteSets := Function.update hvs.roundVoteSets round (some ⟨prevotes, precommits⟩) }

/-- `Reset(height, valSet)`: only round 0. -/
def reset (hvs : HeightVoteSet) (height : ℕ) (valSet : ValidatorSet) : Except String HeightVoteSet := do
  let hvs ← ({ hvs with height, valSet, roundVoteSets := fun _ => none,
                        peerCatchupRounds := fun _ => [] } : HeightVoteSet).addRound 0
  pure { hvs with round := 0 }

end HeightVoteSet

/-- `NewHeightVoteSet(chainID, height, valSet)`. -/
def newHeightVoteSet (chainID : String) (height : ℕ) (valSet : ValidatorSet) :
    Except String HeightVoteSet :=
  HeightVoteSet.reset ⟨chainID, 0, valSet, 0, fun _ => none, fun _ => []⟩ height valSet

namespace HeightVoteSet

/-- `SetRound(round)`: open every round up to `round`; moving back panics. -/
def setRound (hvs : HeightVoteSet) (round : ℕ) : Except String HeightVoteSet :=
  if hvs.round ≠ 0 ∧ round < hvs.round + 1 then throw "0"
  else do
    let hvs' ← (List.range' (hvs.round + 1) (round - hvs.round)).foldlM
      (fun (h : HeightVoteSet) r =>
        -- a round a peer opened for catch-up is already there
        if (h.roundVoteSets r).isSome then pure h else h.addRound r) hvs
    pure { hvs' with round }

/-- `getVoteSet(round, typeB)`. -/
def getVoteSet (hvs : HeightVoteSet) (round : ℕ) (typeB : UInt8) : Option VoteSet :=
  (hvs.roundVoteSets round).bind fun rvs =>
    if typeB = voteTypePrevote then some rvs.prevotes
    else if typeB = voteTypePrecommit then some rvs.precommits
    else none

/-- Write a changed vote set back into its round. -/
def setVoteSet (hvs : HeightVoteSet) (round : ℕ) (typeB : UInt8) (voteSet : VoteSet) :
    HeightVoteSet :=
  { hvs with
    roundVoteSets := Function.update hvs.roundVoteSets round
      ((hvs.roundVoteSets round).map fun rvs =>
        if typeB = voteTypePrevote then { rvs with prevotes := voteSet }
        else { rvs with precommits := voteSet }) }

/-- Add a vote to the vote set of its round and type. -/
def addToVoteSet (ks : KeyScheme) (hvs : HeightVoteSet) (voteSet : VoteSet) (vote : Vote) :
    Except String ((Bool × Option HeightVoteSetError) × HeightVoteSet) := do
  let ((added, err), voteSet') ← voteSet.addVote ks (some vote)
  pure ((added, err.map .vote), hvs.setVoteSet vote.round vote.type voteSet')

/-- `AddVote(vote, peerID)`: duplicates return `(false, nil)`; a vote for a
round that is not open opens it, at most twice per peer. -/
def addVote (ks : KeyScheme) (hvs : HeightVoteSet) (vote : Vote) (peerID : P2PID) :
    Except String ((Bool × Option HeightVoteSetError) × HeightVoteSet) :=
  if !isVoteTypeValid vote.type then pure ((false, none), hvs)
  else
    match hvs.getVoteSet vote.round vote.type with
    | some voteSet => hvs.addToVoteSet ks voteSet vote
    | none =>
        let rndz := hvs.peerCatchupRounds peerID
        if rndz.length < 2 then do
          let hvs ← hvs.addRound vote.round
          let hvs := { hvs with
            peerCatchupRounds := Function.update hvs.peerCatchupRounds peerID (rndz ++ [vote.round]) }
          match hvs.getVoteSet vote.round vote.type with
          | some voteSet => hvs.addToVoteSet ks voteSet vote
          | none => pure ((false, none), hvs)
        else pure ((false, some .gotVoteFromUnwantedRound), hvs)

/-- `SetPeerMaj23(round, typeB, peerID, blockID)`: a peer's claimed majority,
recorded in the vote set of the round; a round not held is ignored. -/
def setPeerMaj23 (hvs : HeightVoteSet) (round : ℕ) (typeB : UInt8) (peerID : P2PID)
    (blockID : BlockID) : Option String × HeightVoteSet :=
  if !isVoteTypeValid typeB then (some "SetPeerMaj23: Invalid vote type %v", hvs)
  else
    match hvs.getVoteSet round typeB with
    | none => (none, hvs)
    | some voteSet =>
        let (err, voteSet') := voteSet.setPeerMaj23 peerID blockID
        (err, hvs.setVoteSet round typeB voteSet')

/-- `Prevotes(round)`. -/
def prevotes (hvs : HeightVoteSet) (round : ℕ) : Option VoteSet :=
  hvs.getVoteSet round voteTypePrevote

/-- `Precommits(round)`. -/
def precommits (hvs : HeightVoteSet) (round : ℕ) : Option VoteSet :=
  hvs.getVoteSet round voteTypePrecommit

/-- The `POLInfo` loop over the rounds below `n`, from the top. -/
def polInfoBelow (hvs : HeightVoteSet) : ℕ → ℤ × BlockID
  | 0 => (-1, default)
  | n + 1 =>
      match (hvs.prevotes n).map VoteSet.twoThirdsMajority with
      | some (polBlockID, true) => (n, polBlockID)
      | _ => hvs.polInfoBelow n

/-- `POLInfo()`: the last round with a two-thirds prevote majority, and its
block, or `-1`. -/
def polInfo (hvs : HeightVoteSet) : ℤ × BlockID :=
  hvs.polInfoBelow (hvs.round + 1)

/-- The `GetSignsFromVote` loop over the rounds below `n`, from the top. -/
def getSignsBelow (hvs : HeightVoteSet) (hash addr : HexBytes) :
    ℕ → Except String (Option KeepBlockSign)
  | 0 => pure none
  | n + 1 =>
      match hvs.prevotes n with
      | none => hvs.getSignsBelow hash addr n
      | some prevote => do
          match ← prevote.getSignByAddress addr with
          | some keepsign =>
              if hash = keepsign.hash then pure (some keepsign)
              else hvs.getSignsBelow hash addr n
          | none => hvs.getSignsBelow hash addr n

/-- `GetSignsFromVote(round, hash, addr)`: the validator's verdict on the block
from its latest prevote for it at a round up to `round`. -/
def getSignsFromVote (hvs : HeightVoteSet) (round : ℕ) (hash addr : HexBytes) :
    Except String (Option KeepBlockSign) :=
  hvs.getSignsBelow hash addr (round + 1)

end HeightVoteSet

end RpcNetwork.Tbft.Types
