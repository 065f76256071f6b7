import RpcNetwork.Tbft.Help.BitArray
import RpcNetwork.Tbft.Types.ValidatorSet

/-!
# Vote sets (`types/vote_set.go`)

A `VoteSet` collects the prevotes or precommits of one height and round.  It
keeps three stores: the canonical vote of each validator (`votes`, with the
bit array `votesBitArray` and the power sum `sum`), the votes per block
(`votesByBlock`, each a `BlockVotes` with its own bit array and agree-power
sum), and the first block that reached a two-thirds quorum (`maj23`).

## Design notes

`addVerifiedVote` is the composition of its three phases, `recordVote`,
`trackedBlockVotes` and `addToBlock`.

A panic (`help.PanicSanity`) is the `error` of `Except String`, carrying its
message; a returned Go `error` is a `VoteError` next to the new state.  The
state returned with an error is the state after the call: `addVerifiedVote`
may change `votes` before it reports a conflict.

Go indexes `votes[valIndex]` after checking it, so the model reads with
`getD _ none`.  The maps keyed by `BlockID.Key()` and by peer id are functions (`Key` is injective, see
`Vote.lean`).  Sums of voting power are integers: they count each validator at
most once, so on validator sets whose total fits in `int64` they never wrap.
The quorum `TotalVotingPower()*2/3 + 1` is computed as Go computes it: the
product wraps at 64 bits and the division truncates (`twoThirds`).
-/

namespace RpcNetwork.Tbft.Types

open Help

/-- `P2PID`, the id of a peer. -/
abbrev P2PID := String

/-- `blockVotes`: the votes for one block, by validator index, and the voting
power of those that agree. -/
structure BlockVotes where
  peerMaj23 : Bool
  bitArray : Option BitArray
  votes : List (Option Vote)
  sum : ℤ
  deriving DecidableEq, Repr

/-- `newBlockVotes(peerMaj23, numValidators)`. -/
def newBlockVotes (peerMaj23 : Bool) (numValidators : ℕ) : BlockVotes :=
  ⟨peerMaj23, BitArray.newBitArray numValidators, List.replicate numValidators none, 0⟩

namespace BlockVotes

/-- `blockVotes.addVerifiedVote`: record the vote at its index unless one is
there, and count its power when it agrees. -/
def addVerifiedVote (vs : BlockVotes) (vote : Vote) (votingPower : ℤ) : BlockVotes :=
  match vs.votes.getD vote.validatorIndex none with
  | some _ => vs
  | none =>
      { vs with
        bitArray := BitArray.setIndex vs.bitArray vote.validatorIndex true
        votes := vs.votes.set vote.validatorIndex (some vote)
        sum := if vote.result = voteAgree then vs.sum + votingPower else vs.sum }

/-- `blockVotes.getByIndex`, nil-safe. -/
def getByIndex : Option BlockVotes → ℕ → Option Vote
  | none, _ => none
  | some vs, index => vs.votes.getD index none

end BlockVotes

/-- `VoteSet`, without its mutex. -/
structure VoteSet where
  chainID : String
  height : ℕ
  round : ℕ
  typeB : UInt8
  valSet : ValidatorSet
  votesBitArray : Option BitArray
  votes : List (Option Vote)
  sum : ℤ
  vsum : ℤ
  maj23 : Option BlockID
  votesByBlock : BlockID → Option BlockVotes
  peerMaj23s : P2PID → Option BlockID

/-- `NewVoteSet(chainID, height, round, typeB, valSet)`. -/
def newVoteSet (chainID : String) (height round : ℕ) (typeB : UInt8) (valSet : ValidatorSet) :
    Except String VoteSet :=
  if height = 0 then throw "Cannot make VoteSet for height == 0, doesn't make sense."
  else
    pure
      { chainID, height, round, typeB, valSet
        votesBitArray := BitArray.newBitArray valSet.size
        votes := List.replicate valSet.size none
        sum := 0
        vsum := 0
        maj23 := none
        votesByBlock := fun _ => none
        peerMaj23s := fun _ => none }

/-- `total*2/3` as Go evaluates it on `int64`: the product wraps, the quotient
truncates toward zero. -/
def twoThirds (total : ℤ) : ℤ :=
  Int.tdiv (wrapInt64 (total * 2)) 3

namespace VoteSet

/-- `getVote(valIndex, blockKey)`: the canonical vote if it is for `blockKey`,
else the vote recorded for `blockKey` at that index. -/
def getVote (voteSet : VoteSet) (valIndex : ℕ) (blockKey : BlockID) : Option Vote :=
  match voteSet.votes.getD valIndex none with
  | some existing =>
      if existing.blockID = blockKey then some existing
      else BlockVotes.getByIndex (voteSet.votesByBlock blockKey) valIndex
  | none => BlockVotes.getByIndex (voteSet.votesByBlock blockKey) valIndex

/-- The copy-over loop `for i, vote := range votesByBlock.votes { if vote != nil
{ voteSet.votes[i] = vote } }`. -/
def overwriteVotes : List (Option Vote) → List (Option Vote) → List (Option Vote)
  | votes, [] => votes
  | [], _ :: _ => []
  | old :: votes, new :: src => new.or old :: overwriteVotes votes src

/-- The first phase of `addVerifiedVote`: the canonical store.  A first vote is
recorded and counted; a vote conflicting with the canonical one replaces it
only when it is for `maj23`.  Returns the conflicting vote, if any. -/
def recordVote (voteSet : VoteSet) (vote : Vote) (blockKey : BlockID) (votingPower : ℤ) :
    Except String (Option Vote × VoteSet) :=
  match voteSet.votes.getD vote.validatorIndex none with
  | some existing =>
      if existing.blockID = vote.blockID then
        throw "addVerifiedVote does not expect duplicate votes"
      else if voteSet.maj23 = some blockKey then
        pure (some existing,
          { voteSet with
            votes := voteSet.votes.set vote.validatorIndex (some vote)
            votesBitArray := BitArray.setIndex voteSet.votesBitArray vote.validatorIndex true })
      else pure (some existing, voteSet)
  | none =>
      pure (none,
        { voteSet with
          votes := voteSet.votes.set vote.validatorIndex (some vote)
          votesBitArray := BitArray.setIndex voteSet.votesBitArray vote.validatorIndex true
          sum := voteSet.sum + votingPower
          vsum := if vote.result = voteAgree then voteSet.vsum + votingPower else voteSet.vsum })

/-- The second phase: the per-block store the vote goes into, or `none` when a
conflicting vote is for a block no peer vouched for. -/
def trackedBlockVotes (voteSet : VoteSet) (blockKey : BlockID) (conflicting : Option Vote) :
    Option BlockVotes :=
  match voteSet.votesByBlock blockKey with
  | some votesByBlock =>
      if conflicting.isSome && !votesByBlock.peerMaj23 then none else some votesByBlock
  | none => if conflicting.isSome then none else some (newBlockVotes false voteSet.valSet.size)

/-- The third phase: add the vote to its block's store and, when that store
just crossed the quorum and no block had, make it `maj23` and copy its votes
into the canonical store. -/
def addToBlock (voteSet : VoteSet) (vote : Vote) (blockKey : BlockID) (votingPower : ℤ)
    (votesByBlock : BlockVotes) : VoteSet :=
  let origSum := votesByBlock.sum
  let quorum := twoThirds voteSet.valSet.totalVotingPower + 1
  let votesByBlock' := votesByBlock.addVerifiedVote vote votingPower
  let voteSet' :=
    { voteSet with votesByBlock := Function.update voteSet.votesByBlock blockKey (some votesByBlock') }
  if origSum < quorum ∧ quorum ≤ votesByBlock'.sum ∧ voteSet'.maj23 = none then
    { voteSet' with
      maj23 := some vote.blockID
      votes := overwriteVotes voteSet'.votes votesByBlock'.votes }
  else voteSet'

/-- `addVerifiedVote(vote, blockKey, votingPower)`: returns whether the vote was
added and the conflicting canonical vote, if any. -/
def addVerifiedVote (voteSet : VoteSet) (vote : Vote) (blockKey : BlockID) (votingPower : ℤ) :
    Except String ((Bool × Option Vote) × VoteSet) := do
  let (conflicting, voteSet) ← voteSet.recordVote vote blockKey votingPower
  match voteSet.trackedBlockVotes blockKey conflicting with
  | none => pure ((false, conflicting), voteSet)
  | some votesByBlock =>
      pure ((true, conflicting), voteSet.addToBlock vote blockKey votingPower votesByBlock)

/-- `addVote(vote)`: validate as much as possible, then check the signature and
add.  `ValidatorIndex` is unsigned, so Go's `valIndex < 0` branch is dead and
absent here. -/
def addVote (ks : KeyScheme) (voteSet : VoteSet) :
    Option Vote → Except String ((Bool × Option VoteError) × VoteSet)
  | none => pure ((false, some .voteNil), voteSet)
  | some vote =>
      if vote.validatorAddress.isEmpty then pure ((false, some .invalidValidatorAddress), voteSet)
      else if vote.height ≠ voteSet.height ∨ vote.round ≠ voteSet.round ∨ vote.type ≠ voteSet.typeB then
        pure ((false, some .unexpectedStep), voteSet)
      else
        match voteSet.valSet.getByIndex vote.validatorIndex with
        | none => pure ((false, some .invalidValidatorIndex), voteSet)
        | some (lookupAddr, val) =>
            if vote.validatorAddress ≠ lookupAddr then
              pure ((false, some .invalidValidatorAddress), voteSet)
            else
              match voteSet.getVote vote.validatorIndex vote.blockID with
              | some existing =>
                  if existing.signature = vote.signature then pure ((false, none), voteSet)
                  else pure ((false, some .nonDeterministicSignature), voteSet)
              | none =>
                  match vote.verify ks voteSet.chainID val.pubKey with
                  | some err => pure ((false, some err), voteSet)
                  | none => do
                      let ((added, conflicting), voteSet') ←
                        voteSet.addVerifiedVote vote vote.blockID val.votingPower
                      if conflicting.isSome then pure ((added, some .conflictingVotes), voteSet')
                      else if !added then throw "Expected to add non-conflicting vote"
                      else pure ((added, none), voteSet')

/-- `SetPeerMaj23(peerID, blockID)`: remember the peer's claim and make sure the
block is tracked.  A second, different claim of the same peer is an error. -/
def setPeerMaj23 (voteSet : VoteSet) (peerID : P2PID) (blockID : BlockID) :
    Option String × VoteSet :=
  match voteSet.peerMaj23s peerID with
  | some existing =>
      if existing = blockID then (none, voteSet)
      else (some "SetPeerMaj23: Received conflicting blockID from peer", voteSet)
  | none =>
      let voteSet := { voteSet with peerMaj23s := Function.update voteSet.peerMaj23s peerID (some blockID) }
      match voteSet.votesByBlock blockID with
      | some votesByBlock =>
          if votesByBlock.peerMaj23 then (none, voteSet)
          else
            (none, { voteSet with
              votesByBlock := Function.update voteSet.votesByBlock blockID
                (some { votesByBlock with peerMaj23 := true }) })
      | none =>
          (none, { voteSet with
            votesByBlock := Function.update voteSet.votesByBlock blockID
              (some (newBlockVotes true voteSet.valSet.size)) })

/-- `GetByIndex(valIndex)`: the canonical vote. -/
def getByIndex (voteSet : VoteSet) (valIndex : ℕ) : Option Vote :=
  voteSet.votes.getD valIndex none

/-- `HasTwoThirdsMajority()`. -/
def hasTwoThirdsMajority (voteSet : VoteSet) : Bool :=
  voteSet.maj23.isSome

/-- `HasTwoThirdsAny()`: more than two thirds of the power voted for anything. -/
def hasTwoThirdsAny (voteSet : VoteSet) : Bool :=
  decide (voteSet.sum > twoThirds voteSet.valSet.totalVotingPower)

/-- `TwoThirdsMajority()`: `maj23` and `true`, or the zero `BlockID` and `false`. -/
def twoThirdsMajority (voteSet : VoteSet) : BlockID × Bool :=
  match voteSet.maj23 with
  | some blockID => (blockID, true)
  | none => (default, false)

end VoteSet

end RpcNetwork.Tbft.Types
