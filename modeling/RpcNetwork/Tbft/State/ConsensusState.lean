import RpcNetwork.Tbft.Types.HeightVoteSet
import RpcNetwork.Tbft.Types.PartSetRoundTrip

/-!
# The consensus state machine (`state.go`)

A `ConsensusState` runs one node's side of TBFT: rounds of propose, prevote
and precommit per height, locking on two thirds of prevotes and committing on
two thirds of precommits.  Every change happens in the receive routine, on a
message, a timeout of its ticker, or a tick of the task ticker.

## Design notes

Each handler is a function `ConsensusState → Except String ConsensusState`; the
error is a panic, which stops the receive routine.  Go's `defer` blocks run
after the body, so the model applies them last.  The time a handler reads
(`time.Now()`) is its argument `now`.

The agent behind `StateAgentImpl` is not in this repository; `Agent` gives its
answers as functions (`VerifyFastBlock` covers `switchVerify` and the health
manager).  `GetLastBlockHeight` reads `StateAgent.lastHeight`, which a commit
sets and the environment may move before a task tick.  `MakeBlockFromPartSet` decodes the bytes of the parts in order,
which the reader delivers (`PartSetReader.readToEOF_spec`).

`sent` is every message the node queues for itself and its peers, in order,
and `timeouts` every timeout it schedules; a timeout the routine handles is one
of them.  `committed` lists the blocks handed to `ConsensusCommit`.  The
mutexes, events, metrics, block store, `svs` and timing fields are left out.  `cs.Validators` and `cs.state.Validators` are one pointer between
`updateToState` and the next copy in `enterNewRound`, so `FindValidatorSetProposer`
at round 0 changes both.
-/

namespace RpcNetwork.Tbft

open RpcNetwork.Tbft.Types RpcNetwork.Tbft.Help

/-- `RoundStepType`, ordered by its numeric value. -/
inductive RoundStepType where
  | newHeight
  | newRound
  | propose
  | prevote
  | prevoteWait
  | precommit
  | precommitWait
  | commit
  | blockSync
  deriving DecidableEq, Repr

namespace RoundStepType

/-- The numeric value of a step: `0x01` to `0x08`, and `0xee` for block sync. -/
def toNat : RoundStepType → ℕ
  | newHeight => 0x01
  | newRound => 0x02
  | propose => 0x03
  | prevote => 0x04
  | prevoteWait => 0x05
  | precommit => 0x06
  | precommitWait => 0x07
  | commit => 0x08
  | blockSync => 0xee

instance : LE RoundStepType := ⟨fun a b => a.toNat ≤ b.toNat⟩

instance : LT RoundStepType := ⟨fun a b => a.toNat < b.toNat⟩

instance (a b : RoundStepType) : Decidable (a ≤ b) :=
  inferInstanceAs (Decidable (a.toNat ≤ b.toNat))

instance (a b : RoundStepType) : Decidable (a < b) :=
  inferInstanceAs (Decidable (a.toNat < b.toNat))

end RoundStepType

/-- What consensus reads of a `core/types.Block`: its hash, its number and the
number of its committee switch infos. -/
structure Block where
  hash : HexBytes
  number : ℕ
  switchInfos : ℕ
  deriving DecidableEq, Repr

/-- The messages of the receive routine: `ProposalMessage`, `BlockPartMessage`,
`VoteMessage` and `ValidatorUpdateMessage`. -/
inductive ConsensusMessage where
  | proposal (proposal : Proposal)
  | blockPart (height round : ℕ) (part : Option Part)
  | vote (vote : Vote)
  | validatorUpdate (vset : ValidatorSet) (uHeight eHeight : ℕ)
  deriving DecidableEq, Repr

/-- `timeoutInfo`, without its duration. -/
structure TimeoutInfo where
  height : ℕ
  round : ℕ
  step : RoundStepType
  wait : ℕ
  deriving DecidableEq, Repr

/-- `StateAgentImpl`: the signer, the committee, the agent's chain height and
the heights the committee serves. -/
structure StateAgent where
  priv : PrivValidator
  validators : ValidatorSet
  lastHeight : ℕ
  beginHeight : ℕ
  endHeight : ℕ

namespace StateAgent

/-- The height check of `MakeBlock` and `ValidateBlock`: not above a set end
height, and not below the begin height. -/
def heightInRange (sa : StateAgent) (number : ℕ) : Bool :=
  !(0 < sa.endHeight && sa.endHeight < number) && !(number < sa.beginHeight)

/-- `SetBeginHeight(h)`: only below a set end height. -/
def setBeginHeight (sa : StateAgent) (h : ℕ) : StateAgent :=
  if 0 < sa.endHeight ∧ h < sa.endHeight then { sa with beginHeight := h } else sa

end StateAgent

/-- The agent and the configuration the node runs against. -/
structure Agent where
  ks : KeyScheme
  rlp : RlpHasher
  chainID : String
  /-- `FetchFastBlock`, asked at a height and a round; `none` for an error -/
  fetchFastBlock : ℕ → ℕ → Option Block
  /-- `VerifyFastBlock`: the agent's signed verdict, `none` for a nil sign -/
  verifyFastBlock : Block → Option KeepBlockSign
  /-- the bytes `MakePartSet` cuts into parts -/
  encodeBlock : Block → HexBytes
  /-- the decoding of `MakeBlockFromPartSet`; `none` for an error -/
  decodeBlock : HexBytes → Option Block
  /-- `GetFastLastProposer`, at the agent's chain height -/
  lastProposer : ℕ → HexBytes
  /-- whether `tryEnterProposal` waits for transactions at round 0, for a block
  and the number of waits so far (`CreateEmptyBlocks`, `WaitForEmptyBlocks`) -/
  waitForTxs : Block → ℕ → Bool
  /-- `CommitteeInfo.StartHeight` -/
  startHeight : ℕ
  /-- `config.SkipTimeoutCommit` -/
  skipTimeoutCommit : Bool

/-- `ConsensusState`, as far as the handlers read and write it, with the
messages it sent, the timeouts it scheduled and the blocks it committed. -/
structure ConsensusState where
  height : ℕ
  round : ℕ
  step : RoundStepType
  validators : ValidatorSet
  proposal : Option Proposal
  proposalBlock : Option Block
  proposalBlockParts : Option PartSet
  lockedRound : ℕ
  lockedBlock : Option Block
  lockedBlockParts : Option PartSet
  validRound : ℕ
  validBlock : Option Block
  validBlockParts : Option PartSet
  votes : HeightVoteSet
  commitRound : Option ℕ
  lastCommit : Option VoteSet
  proposalForCatchup : Option Proposal
  state : StateAgent
  sent : List ConsensusMessage
  timeouts : List TimeoutInfo
  committed : List (Block × List PbftSign)

/-- The text of a nil pointer dereference. -/
def nilDeref : String := "runtime error: invalid memory address or nil pointer dereference"

/-- Whether a possibly nil block has the given hash (`EqualHashes`). -/
def hasBlockHash : Option Block → HexBytes → Bool
  | some block, hash => equalHashes block.hash hash
  | none, _ => false

/-- `BlockPartSizeBytes`: 64 kB. -/
def blockPartSizeBytes : ℕ := 65536

namespace ConsensusState

section Handlers

variable (ag : Agent) (now : ℕ)

/-! ### Small steps -/

/-- `sendInternalMessage(mi)`. -/
def sendInternalMessage (msg : ConsensusMessage) (cs : ConsensusState) : ConsensusState :=
  { cs with sent := cs.sent ++ [msg] }

/-- `scheduleTimeout(duration, height, round, step)`. -/
def scheduleTimeout (height round : ℕ) (step : RoundStepType) (cs : ConsensusState) :
    ConsensusState :=
  { cs with timeouts := cs.timeouts ++ [⟨height, round, step, 1⟩] }

/-- `scheduleRound0(rs)`: the timeout that starts round 0. -/
def scheduleRound0 (cs : ConsensusState) : ConsensusState :=
  scheduleTimeout cs.height 0 .newHeight cs

/-- The guard of the `enter` handlers for `step`: another height, an earlier
round, or this round at `step` or later. -/
def invalidArgs (height round : ℕ) (step : RoundStepType) (cs : ConsensusState) : Prop :=
  cs.height ≠ height ∨ round < cs.round ∨ (cs.round = round ∧ step ≤ cs.step)

instance (height round : ℕ) (step : RoundStepType) (cs : ConsensusState) :
    Decidable (invalidArgs height round step cs) :=
  inferInstanceAs (Decidable (_ ∨ _))

/-- Drop the lock: `LockedRound, LockedBlock, LockedBlockParts,
proposalForCatchup = 0, nil, nil, nil`. -/
def unlock (cs : ConsensusState) : ConsensusState :=
  { cs with lockedRound := 0, lockedBlock := none, lockedBlockParts := none,
            proposalForCatchup := none }

/-- `isProposer()`: the proposer of the validator set has the node's address. -/
def isProposer (cs : ConsensusState) : Bool :=
  match cs.validators.getProposer with
  | some proposer => proposer.address == cs.state.priv.getAddress ag.ks
  | none => false

/-- `isProposalComplete()`: the proposal and its block are here, and so are two
thirds of the prevotes of its proof-of-lock round when it names one. -/
def isProposalComplete (cs : ConsensusState) : Bool :=
  match cs.proposal, cs.proposalBlock with
  | some proposal, some _ =>
      if wrapInt64 proposal.polRound < 0 then true
      else hasTwoThirdsMajorityOf (cs.votes.prevotes (wrapInt64 proposal.polRound).toNat)
  | _, _ => false

/-- `validateBlock(block)`: the agent's verdict, or nil outside the committee's
heights.  `ValidateBlock` logs `sign.FastHeight` before it looks at `sign`, so
a nil verdict panics. -/
def validateBlock (block : Block) (cs : ConsensusState) : Except String (Option KeepBlockSign) :=
  if !cs.state.heightInRange block.number then pure none
  else match ag.verifyFastBlock block with
    | some ksign => pure (some ksign)
    | none => throw nilDeref

/-- A verdict of `validateBlock` is the agent's verdict on the block. -/
theorem validateBlock_eq_some {block : Block} {cs : ConsensusState} {ksign : KeepBlockSign}
    (h : validateBlock ag block cs = .ok (some ksign)) : ag.verifyFastBlock block = some ksign := by
  unfold validateBlock at h
  split at h
  · simp at h
  · split at h
    · simp_all
    · exact absurd h Except.throw_ne_ok

/-- `StateAgentImpl.MakeBlock(v)`: the agent's block, refused outside the
committee's heights. -/
def makeBlock (round : ℕ) (cs : ConsensusState) : Option Block :=
  (ag.fetchFastBlock cs.height round).bind fun block =>
    if cs.state.heightInRange block.number then some block else none

/-- `MakePartSet(partSize, block)`. -/
def makePartSet (block : Block) : Except String PartSet :=
  newPartSetFromData ag.rlp (ag.encodeBlock block) blockPartSizeBytes

/-- `createProposalBlock(round)`: the block to propose and its parts. -/
def createProposalBlock (round : ℕ) (cs : ConsensusState) :
    Except String (Option (Block × PartSet)) :=
  match makeBlock ag round cs with
  | none => pure none
  | some block => do
      let parts ← makePartSet ag block
      pure (some (block, parts))

/-- `MakeBlockFromPartSet(partSet)`: the block decoded from a complete set. -/
def makeBlockFromPartSet (ps : PartSet) : Option Block :=
  if ps.isComplete then ag.decodeBlock (joinedBytes ps.parts) else none

/-! ### Signing -/

/-- `signVote(typeB, hash, header)`: the node's vote at its height and round for
the block `hash` names (nil for `none`), passed to the signer. -/
def signVote (typeB : UInt8) (hash : Option HexBytes) (header : PartSetHeader)
    (cs : ConsensusState) : Except String (Except String Vote × PrivValidator) :=
  let addr := cs.state.priv.getAddress ag.ks
  cs.state.priv.signVote ag.chainID
    { validatorAddress := addr
      validatorIndex := ((cs.validators.getByAddress addr).map Prod.fst).getD 0
      height := cs.height
      round := cs.round
      result := voteAgree
      timestamp := now
      type := typeB
      blockID := ⟨hash.getD [], header⟩
      signature := []
      resultSign := [] }

/-- The verdict `signAddVote` writes into a signed vote: the agent's, when it is
about the block the vote names. -/
def withKeepSign (hash : Option HexBytes) (keepsign : Option KeepBlockSign) (vote : Vote) : Vote :=
  match hash, keepsign with
  | some hash, some keepsign =>
      if hash = keepsign.hash then { vote with result := keepsign.result, resultSign := keepsign.sign }
      else vote
  | _, _ => vote

/-- `signAddVote(typeB, hash, header, keepsign)`: sign a vote and queue it.
Nothing happens when the node is not in the validator set or the signer
refuses.  Without a verdict, the node's latest prevote for the block gives
one. -/
def signAddVote (typeB : UInt8) (hash : Option HexBytes) (header : PartSetHeader)
    (keepsign : Option KeepBlockSign) (cs : ConsensusState) : Except String ConsensusState :=
  if !cs.validators.hasAddress (cs.state.priv.getAddress ag.ks) then pure cs
  else do
    let (signed, priv) ← signVote ag now typeB hash header cs
    let cs := { cs with state := { cs.state with priv } }
    match signed with
    | .error _ => pure cs
    | .ok vote =>
        let keepsign ← (match hash, keepsign with
          | some hash, none => cs.votes.getSignsFromVote cs.round hash (cs.state.priv.getAddress ag.ks)
          | _, keepsign => pure keepsign)
        pure (cs.sendInternalMessage (.vote (withKeepSign hash keepsign vote)))

/-! ### Prevote -/

/-- `defaultDoPrevote(height, round)`: prevote the locked block, else the
proposal block, when the agent gives a verdict on it; otherwise nil. -/
def doPrevote (cs : ConsensusState) : Except String ConsensusState :=
  match cs.lockedBlock with
  | some locked => do
      match ← validateBlock ag locked cs with
      | none => signAddVote ag now voteTypePrevote none default none cs
      | some ksign =>
          signAddVote ag now voteTypePrevote (some locked.hash) (PartSet.headerOf cs.lockedBlockParts)
            (some ksign) cs
  | none =>
      match cs.proposalBlock with
      | none => signAddVote ag now voteTypePrevote none default none cs
      | some block => do
          match ← validateBlock ag block cs with
          | none => signAddVote ag now voteTypePrevote none default none cs
          | some ksign =>
              signAddVote ag now voteTypePrevote (some block.hash)
                (PartSet.headerOf cs.proposalBlockParts) (some ksign) cs

/-- `enterPrevote(height, round)`. -/
def enterPrevote (height round : ℕ) (cs : ConsensusState) : Except String ConsensusState :=
  if invalidArgs height round .prevote cs then pure cs
  else do
    let cs ← doPrevote ag now cs
    pure { cs with round, step := .prevote }

/-- `enterPrevoteWait(height, round)`: wait for more prevotes once two thirds of
the power prevoted. -/
def enterPrevoteWait (height round : ℕ) (cs : ConsensusState) : Except String ConsensusState :=
  if invalidArgs height round .prevoteWait cs then pure cs
  else if !hasTwoThirdsAnyOf (cs.votes.prevotes round) then
    throw "enterPrevoteWait(%v/%v), but Prevotes does not have any +2/3 votes"
  else pure { scheduleTimeout height round .prevoteWait cs with round, step := .prevoteWait }

/-! ### Precommit -/

/-- The relock branch of `enterPrecommit`: two thirds prevoted the locked block,
which is precommitted when the agent gives a verdict on it. -/
def relock (round : ℕ) (locked : Block) (blockID : BlockID) (cs : ConsensusState) :
    Except String ConsensusState := do
  let cs := { cs with lockedRound := round }
  match ← validateBlock ag locked cs with
  | none => signAddVote ag now voteTypePrecommit none default none cs
  | some ksign => signAddVote ag now voteTypePrecommit (some blockID.hash) blockID.partsHeader (some ksign) cs

/-- The tail of `enterPrecommit` for a polka on a block the node does not have:
unlock, fetch that block, and precommit nil. -/
def precommitUnknown (blockID : BlockID) (cs : ConsensusState) : Except String ConsensusState :=
  let cs := unlock cs
  let cs :=
    if !PartSet.hasHeader cs.proposalBlockParts blockID.partsHeader then
      { cs with proposalBlock := none,
                proposalBlockParts := some (newPartSetFromHeader blockID.partsHeader) }
    else cs
  signAddVote ag now voteTypePrecommit none default none cs

/-- The proposal branch of `enterPrecommit`: two thirds prevoted the proposal
block, which is locked when the agent agrees with it and precommitted with the
agent's verdict. -/
def precommitProposal (round : ℕ) (blockID : BlockID) (cs : ConsensusState) :
    Except String ConsensusState :=
  match cs.proposalBlock with
  | some block =>
      if equalHashes block.hash blockID.hash then do
        match ← validateBlock ag block cs with
        | some ksign =>
            let cs :=
              if ksign.result = voteAgree then
                { cs with lockedRound := round, lockedBlock := cs.proposalBlock,
                          lockedBlockParts := cs.proposalBlockParts, proposalForCatchup := cs.proposal }
              else cs
            signAddVote ag now voteTypePrecommit (some blockID.hash) blockID.partsHeader (some ksign) cs
        | none => signAddVote ag now voteTypePrecommit none default none cs
      else precommitUnknown ag now blockID cs
  | none => precommitUnknown ag now blockID cs

/-- The body of `enterPrecommit(height, round)`, before its deferred step
update. -/
def doPrecommit (round : ℕ) (cs : ConsensusState) : Except String ConsensusState :=
  match twoThirdsMajorityOf (cs.votes.prevotes round) with
  | (_, false) => signAddVote ag now voteTypePrecommit none default none cs
  | (blockID, true) =>
      if cs.votes.polInfo.1 < round then throw "This POLRound should be %v but got %v"
      else if blockID.hash.isEmpty then
        -- two thirds prevoted nil
        let cs := if cs.lockedBlock.isSome then unlock cs else cs
        signAddVote ag now voteTypePrecommit none default none cs
      else
        match cs.lockedBlock with
        | some locked =>
            if equalHashes locked.hash blockID.hash then relock ag now round locked blockID cs
            else precommitProposal ag now round blockID cs
        | none => precommitProposal ag now round blockID cs

/-- `enterPrecommit(height, round)`. -/
def enterPrecommit (height round : ℕ) (cs : ConsensusState) : Except String ConsensusState :=
  if invalidArgs height round .precommit cs then pure cs
  else do
    let cs ← doPrecommit ag now round cs
    pure { cs with round, step := .precommit }

/-- `enterPrecommitWait(height, round)`: wait for more precommits once two
thirds of the power precommitted. -/
def enterPrecommitWait (height round : ℕ) (cs : ConsensusState) : Except String ConsensusState :=
  if invalidArgs height round .precommitWait cs then pure cs
  else if !hasTwoThirdsAnyOf (cs.votes.precommits round) then
    throw "enterPrecommitWait(%v/%v), but Precommits does not have any +2/3 votes"
  else pure { scheduleTimeout height round .precommitWait cs with round, step := .precommitWait }

/-! ### Propose -/

/-- `defaultDecideProposal(height, round, blk, bparts)`: propose the locked
block, else the valid block, else the new one, and queue the signed proposal
and the block's parts.  The new block itself is only logged. -/
def decideProposal (height round : ℕ) (bparts : PartSet) (cs : ConsensusState) :
    Except String ConsensusState := do
  let blockParts :=
    match cs.lockedBlock, cs.validBlock with
    | some _, _ => cs.lockedBlockParts
    | none, some _ => cs.validBlockParts
    | none, none => some bparts
  let (polRound, polBlockID) := cs.votes.polInfo
  let proposal := newProposal height round now (PartSet.headerOf blockParts)
    (polRound % 2 ^ 64).toNat polBlockID
  let (signed, priv) ← cs.state.priv.signProposal ag.chainID proposal
  let cs := { cs with state := { cs.state with priv } }
  match signed with
  | .error _ => pure cs
  | .ok proposal =>
      let parts := match blockParts with
        | some ps => (List.range ps.total).map fun i => ps.parts.getD i none
        | none => []
      pure { cs with
        sent := cs.sent ++ (.proposal proposal :: parts.map (.blockPart cs.height cs.round)) }

/-- The end of `enterPropose`, and of `tryEnterProposal` when the node does not
propose: move to `RoundStepPropose`, and on to prevote when the proposal is
complete. -/
def finishPropose (height round : ℕ) (cs : ConsensusState) : Except String ConsensusState :=
  let cs := { cs with round, step := .propose }
  if isProposalComplete cs then enterPrevote ag now height cs.round cs else pure cs

/-- `enterPropose(height, round, blk, bparts)`. -/
def enterPropose (height round : ℕ) (bparts : PartSet) (cs : ConsensusState) :
    Except String ConsensusState :=
  if invalidArgs height round .propose cs then pure cs
  else do
    let cs := scheduleTimeout height round .propose cs
    let cs ← (if isProposer ag cs then decideProposal ag now height round bparts cs else pure cs)
    finishPropose ag now height round cs

/-- `tryEnterProposal(height, round, wait)`: a validator that is the proposer
fetches a block and proposes it, or waits for transactions at round 0; any
other node only moves to `RoundStepPropose`. -/
def tryEnterProposal (height round wait : ℕ) (cs : ConsensusState) : Except String ConsensusState :=
  if invalidArgs height round .propose cs then pure cs
  else do
    let made ←
      (if cs.validators.hasAddress (cs.state.priv.getAddress ag.ks) && isProposer ag cs then
        createProposalBlock ag round cs
      else pure none)
    match made with
    | some (block, parts) =>
        if height = block.number then
          if round = 0 ∧ ag.waitForTxs block wait then
            pure { cs with timeouts := cs.timeouts ++ [⟨height, round, .newRound, wait + 1⟩] }
          else enterPropose ag now height round parts cs
        else finishPropose ag now height round (scheduleTimeout height round .propose cs)
    | none => finishPropose ag now height round (scheduleTimeout height round .propose cs)

/-- `enterNewRound(height, round)`: move the proposer on by the rounds skipped,
take the last block's proposer at round 0 and drop the proposal at a later
round, open the next round's vote sets, and try to propose. -/
def enterNewRound (height round : ℕ) (cs : ConsensusState) : Except String ConsensusState :=
  if cs.height ≠ height ∨ round < cs.round ∨ (cs.round = round ∧ cs.step ≠ .newHeight) then pure cs
  else do
    let validators :=
      if cs.round < round then cs.validators.copy.incrementAccum (round - cs.round) else cs.validators
    let cs := { cs with round, step := .newRound, validators }
    let cs :=
      if round = 0 then
        -- the set is still the one of `cs.state`
        let validators :=
          cs.validators.findValidatorSetProposer ag.ks (ag.lastProposer cs.state.lastHeight)
        { cs with validators, state := { cs.state with validators } }
      else { cs with proposal := none, proposalBlock := none, proposalBlockParts := none }
    let votes ← cs.votes.setRound (round + 1)
    tryEnterProposal ag now height round 1 { cs with votes }

/-! ### Commit -/

/-- `updateToState(state)`: start the height after the agent's chain, with the
commit round's precommits as the last commit, and everything else cleared. -/
def updateToState (cs : ConsensusState) : Except String ConsensusState := do
  let validators := cs.state.validators
  let lastPrecommits ←
    (match cs.commitRound with
    | some commitRound =>
        if !hasTwoThirdsMajorityOf (cs.votes.precommits commitRound) then
          throw "updateToState(state) called but last Precommit round didn't have +2/3"
        else pure (cs.votes.precommits commitRound)
    | none => pure none)
  let height := cs.state.lastHeight + 1
  let votes ← newHeightVoteSet ag.chainID height validators
  pure { cs with
    height, round := 0, step := .newHeight, validators, proposalForCatchup := none,
    proposal := none, proposalBlock := none, proposalBlockParts := none,
    lockedRound := 0, lockedBlock := none, lockedBlockParts := none,
    validRound := 0, validBlock := none, validBlockParts := none,
    votes, commitRound := none, lastCommit := lastPrecommits }

/-- `swithResult(block)`, as far as it changes consensus: a block with a
committee switch of two entries ends the committee's heights at its own. -/
def swithResult (block : Block) (cs : ConsensusState) : ConsensusState :=
  if cs.state.lastHeight + 1 = ag.startHeight ∨ 2 < block.switchInfos then cs
  else if block.switchInfos < 2 then cs
  else { cs with state := { cs.state with endHeight := block.number } }

/-- `finalizeCommit(height)`: hand the committed block with its signs to the
agent and start the next height. -/
def finalizeCommit (height : ℕ) (cs : ConsensusState) : Except String ConsensusState :=
  if cs.height ≠ height ∨ cs.step ≠ .commit then pure cs
  else do
    let voteset := cs.commitRound.bind cs.votes.precommits
    let (blockID, ok) := twoThirdsMajorityOf voteset
    let block ← (match cs.proposalBlock with
      | some block => pure block
      | none => throw nilDeref)
    let signs ← makePbftSignsOf voteset block.hash
    if !ok then throw "Cannot finalizeCommit, commit does not have two thirds majority"
    else if !PartSet.hasHeader cs.proposalBlockParts blockID.partsHeader then
      throw "Expected ProposalBlockParts header to be commit header"
    else match signs with
      | .error err => throw ("Cannot finalizeCommit, make signs error=" ++ err)
      | .ok signs =>
          if !equalHashes block.hash blockID.hash then
            throw "Cannot finalizeCommit, ProposalBlock does not hash to commit hash"
          else do
            let cs := swithResult ag block cs
            -- `ConsensusCommit`: the agent's chain now ends with the block
            let cs := { cs with committed := cs.committed ++ [(block, signs)],
                                state := { cs.state with lastHeight := block.number } }
            let cs ← updateToState ag cs
            pure (scheduleRound0 cs)

/-- `tryFinalizeCommit(height)`: finalize once the block two thirds precommitted
is the proposal block. -/
def tryFinalizeCommit (height : ℕ) (cs : ConsensusState) : Except String ConsensusState :=
  if cs.height ≠ height then throw "tryFinalizeCommit() cs.Height: %v vs height: %v"
  else
    let (blockID, ok) := twoThirdsMajorityOf (cs.commitRound.bind cs.votes.precommits)
    if !ok || blockID.hash.isEmpty then pure cs
    else if !hasBlockHash cs.proposalBlock blockID.hash then pure cs
    else finalizeCommit ag height cs

/-- `enterCommit(height, commitRound)`: take the locked block as the proposal
block when it is the one committed, set up to fetch the committed block when
the node does not have it, and try to finalize. -/
def enterCommit (height commitRound : ℕ) (cs : ConsensusState) : Except String ConsensusState :=
  if cs.height ≠ height ∨ RoundStepType.commit ≤ cs.step then pure cs
  else
    let (blockID, ok) := twoThirdsMajorityOf (cs.votes.precommits commitRound)
    if !ok then throw "RunActionCommit() expects +2/3 precommits"
    else
      let cs :=
        if hasBlockHash cs.lockedBlock blockID.hash then
          { cs with proposalBlock := cs.lockedBlock, proposalBlockParts := cs.lockedBlockParts }
        else cs
      let cs :=
        match cs.proposalBlock with
        | some block =>
            if !equalHashes block.hash blockID.hash &&
                !PartSet.hasHeader cs.proposalBlockParts blockID.partsHeader then
              { cs with proposalBlock := none,
                        proposalBlockParts := some (newPartSetFromHeader blockID.partsHeader) }
            else cs
        | none => cs
      tryFinalizeCommit ag height { cs with step := .commit, commitRound := some commitRound }

/-! ### Messages -/

/-- `defaultSetProposal(proposal)`: take a proposal for this height and round,
signed by the proposer, with a proof-of-lock round of `-1` or below its
round.  A refused proposal is only logged. -/
def setProposal (proposal : Proposal) (cs : ConsensusState) : Except String ConsensusState :=
  if cs.proposal.isSome then pure cs
  else if proposal.height ≠ cs.height ∨ proposal.round ≠ cs.round then pure cs
  else if RoundStepType.commit ≤ cs.step then pure cs
  else if wrapInt64 proposal.polRound ≠ -1 ∧
      (wrapInt64 proposal.polRound < 0 ∨ proposal.round ≤ proposal.polRound) then pure cs
  else match cs.validators.getProposer with
    | none => throw nilDeref
    | some proposer =>
        if !ag.ks.verifyBytes proposer.pubKey (proposal.signBytes ag.chainID) proposal.signature then
          pure cs
        else
          pure { cs with proposal := some proposal,
                         proposalBlockParts := some (newPartSetFromHeader proposal.blockPartsHeader) }

/-- `addProposalBlockPart(msg, peerID)`: add a part of the proposal block; once
the block is complete, update the valid block, and prevote or finalize. -/
def addProposalBlockPart (height _round : ℕ) (part : Option Part) (cs : ConsensusState) :
    Except String ConsensusState :=
  if cs.height ≠ height then pure cs
  else match cs.proposalBlockParts, part with
    | _, none => throw nilDeref
    | none, some _ => pure cs
    | some ps, some part =>
        let ((added, err), ps) := ps.addPart ag.rlp part
        let cs := { cs with proposalBlockParts := some ps }
        if err.isSome || !(added && ps.isComplete) then pure cs
        else
          let cs := { cs with proposalBlock := makeBlockFromPartSet ag ps }
          match cs.proposalBlock with
          | none => pure cs
          | some block =>
              let (blockID, hasTwoThirds) := twoThirdsMajorityOf (cs.votes.prevotes cs.round)
              let cs :=
                if hasTwoThirds && !blockID.isZero && decide (cs.validRound < cs.round) &&
                    equalHashes block.hash blockID.hash then
                  { cs with validRound := cs.round, validBlock := cs.proposalBlock,
                            validBlockParts := cs.proposalBlockParts }
                else cs
              if cs.step ≤ .propose && isProposalComplete cs then enterPrevote ag now height cs.round cs
              else if cs.step = .commit then tryFinalizeCommit ag height cs
              else pure cs

/-- The prevote case of `addVote`: on a polka, unlock for a newer one on another
block and update the valid block; then skip ahead on two thirds of any
prevotes, or prevote once the proposal's proof of lock is complete. -/
def onPrevote (height : ℕ) (vote : Vote) (cs : ConsensusState) : Except String ConsensusState := do
  let prevotes := cs.votes.prevotes vote.round
  let cs :=
    match twoThirdsMajorityOf prevotes with
    | (blockID, true) =>
        let cs :=
          if cs.lockedBlock.isSome && decide (cs.lockedRound < vote.round) &&
              decide (vote.round ≤ cs.round) && !hasBlockHash cs.lockedBlock blockID.hash then
            unlock cs
          else cs
        if !blockID.isZero && decide (cs.validRound < vote.round) && decide (vote.round ≤ cs.round) &&
            hasBlockHash cs.proposalBlock blockID.hash then
          { cs with validRound := vote.round, validBlock := cs.proposalBlock,
                    validBlockParts := cs.proposalBlockParts }
        else cs
    | (_, false) => cs
  if cs.round ≤ vote.round ∧ hasTwoThirdsAnyOf prevotes then do
    let cs ← enterNewRound ag now height vote.round cs
    if hasTwoThirdsMajorityOf prevotes then enterPrecommit ag now height vote.round cs
    else do
      let cs ← enterPrevote ag now height vote.round cs
      enterPrevoteWait height vote.round cs
  else
    match cs.proposal with
    | some proposal =>
        if 0 ≤ wrapInt64 proposal.polRound ∧ proposal.polRound = vote.round ∧ isProposalComplete cs then
          enterPrevote ag now height cs.round cs
        else pure cs
    | none => pure cs

/-- The precommit case of `addVote`: commit on a two-thirds majority for a block,
go to the next round on one for nil or when all precommitted, and skip ahead on
two thirds of any precommits.  `HasAll` on a nil set panics. -/
def onPrecommit (height : ℕ) (vote : Vote) (cs : ConsensusState) : Except String ConsensusState :=
  match cs.votes.precommits vote.round with
  | none => throw nilDeref
  | some precommits =>
      match precommits.twoThirdsMajority with
      | (blockID, true) =>
          if blockID.hash.isEmpty then enterNewRound ag now height (vote.round + 1) cs
          else do
            let cs ← enterNewRound ag now height vote.round cs
            let cs ← enterPrecommit ag now height vote.round cs
            let cs ← enterCommit ag height vote.round cs
            if ag.skipTimeoutCommit && precommits.hasAll then enterNewRound ag now cs.height 0 cs
            else pure cs
      | (_, false) =>
          if precommits.hasAll then enterNewRound ag now height (cs.round + 1) cs
          else if cs.round ≤ vote.round ∧ precommits.hasTwoThirdsAny then do
            let cs ← enterNewRound ag now height vote.round cs
            let cs ← enterPrecommit ag now height vote.round cs
            enterPrecommitWait height vote.round cs
          else pure cs

/-- `addVote(vote, peerID)`: a precommit of the last height goes to the last
commit while the node waits at `RoundStepNewHeight`; a vote of this height goes
to the height's vote sets and may move the node on. -/
def addVote (vote : Vote) (peerID : P2PID) (cs : ConsensusState) : Except String ConsensusState :=
  if vote.height + 1 = cs.height then
    if !(cs.step = .newHeight ∧ vote.type = voteTypePrecommit) then pure cs
    else match cs.lastCommit with
      | none => pure cs
      | some lastCommit => do
          let ((added, _), lastCommit) ← lastCommit.addVote ag.ks (some vote)
          let cs := { cs with lastCommit := some lastCommit }
          if !added then pure cs
          else if ag.skipTimeoutCommit && lastCommit.hasAll then enterNewRound ag now cs.height 0 cs
          else pure cs
  else if vote.height ≠ cs.height then pure cs
  else do
    let height := cs.height
    let ((added, _), votes) ← cs.votes.addVote ag.ks vote peerID
    let cs := { cs with votes }
    if !added then pure cs
    else if vote.type = voteTypePrevote then onPrevote ag now height vote cs
    else if vote.type = voteTypePrecommit then onPrecommit ag now height vote cs
    else throw "Unexpected vote type %X"

/-- `validatorUpdate(msg)`: take the new committee, start the height after the
agent's chain again, reset the signer, and enter round 0, or the round after
the current one when the height is the same and the round was not 0. -/
def validatorUpdate (vset : ValidatorSet) (uHeight eHeight : ℕ) (cs : ConsensusState) :
    Except String ConsensusState := do
  let round := cs.round
  let oldHeight := cs.height
  let cs ← updateToState ag { cs with state := { cs.state with validators := vset } }
  let cs := { cs with state := { cs.state with priv := cs.state.priv.reset, endHeight := eHeight } }
  let cs := { cs with state := cs.state.setBeginHeight uHeight }
  let round := if cs.height = oldHeight ∧ 0 < round then round + 1 else 0
  enterNewRound ag now cs.height round cs

/-- `updateStateForSync()`: when the agent's chain moved to another height,
start the height after it, reset the signer and schedule round 0 at once. -/
def updateStateForSync (cs : ConsensusState) : Except String ConsensusState :=
  if cs.height ≠ cs.state.lastHeight + 1 then do
    let cs ← updateToState ag cs
    let cs := { cs with state := { cs.state with priv := cs.state.priv.reset } }
    pure (scheduleTimeout cs.height 0 .newHeight cs)
  else pure cs

/-! ### The receive routine -/

/-- `handleMsg(mi)`. -/
def handleMsg (msg : ConsensusMessage) (peerID : P2PID) (cs : ConsensusState) :
    Except String ConsensusState :=
  match msg with
  | .proposal proposal => setProposal ag proposal cs
  | .blockPart height round part => addProposalBlockPart ag now height round part cs
  | .vote vote => addVote ag now vote peerID cs
  | .validatorUpdate vset uHeight eHeight => validatorUpdate ag now vset uHeight eHeight cs

/-- `handleTimeout(ti, rs)`: a timeout for the current height, round and step or
a later one moves the node on. -/
def handleTimeout (ti : TimeoutInfo) (cs : ConsensusState) : Except String ConsensusState :=
  if ti.height ≠ cs.height ∨ ti.round < cs.round ∨ (ti.round = cs.round ∧ ti.step < cs.step) then
    pure cs
  else match ti.step with
    | .newHeight => enterNewRound ag now ti.height 0 cs
    | .newRound => tryEnterProposal ag now ti.height 0 ti.wait cs
    | .propose => enterPrevote ag now ti.height ti.round cs
    | .prevoteWait => enterPrecommit ag now ti.height ti.round cs
    | .precommitWait => enterNewRound ag now ti.height (ti.round + 1) cs
    | _ => throw "Invalid timeout step: %v"

/-- `handleTimeoutForTask(ti, rs)`, once the agent's chain is at `agentHeight`. -/
def handleTimeoutForTask (agentHeight : ℕ) (cs : ConsensusState) : Except String ConsensusState :=
  updateStateForSync ag { cs with state := { cs.state with lastHeight := agentHeight } }

end Handlers

/-- What the receive routine takes next. -/
inductive Input where
  /-- a message from a peer or from the node's own queue -/
  | msg (msg : ConsensusMessage) (peerID : P2PID)
  /-- a timeout of the timeout ticker -/
  | timeout (ti : TimeoutInfo)
  /-- a tick of the task ticker, once the agent's chain is at `agentHeight` -/
  | task (agentHeight : ℕ)
  deriving DecidableEq, Repr

/-- One turn of `receiveRoutine`, at time `now`. -/
def receive (ag : Agent) (now : ℕ) (input : Input) (cs : ConsensusState) :
    Except String ConsensusState :=
  match input with
  | .msg msg peerID => handleMsg ag now msg peerID cs
  | .timeout ti => handleTimeout ag now ti cs
  | .task agentHeight => handleTimeoutForTask ag agentHeight cs

/-- The inputs the routine can take: any message and any task tick, and the
timeouts the node scheduled. -/
def Input.Enabled (cs : ConsensusState) : Input → Prop
  | .timeout ti => ti ∈ cs.timeouts
  | _ => True

instance (cs : ConsensusState) (input : Input) : Decidable (input.Enabled cs) :=
  match input with
  | .timeout ti => inferInstanceAs (Decidable (ti ∈ cs.timeouts))
  | .msg _ _ => isTrue trivial
  | .task _ => isTrue trivial

/-- One step of the receive routine that does not panic. -/
def Step (ag : Agent) (cs cs' : ConsensusState) : Prop :=
  ∃ now input, input.Enabled cs ∧ receive ag now input cs = .ok cs'

/-- The receive routine over timed inputs; a panic stops it, and so does a
timeout the node did not schedule. -/
def run (ag : Agent) : List (ℕ × Input) → ConsensusState → Except String ConsensusState
  | [], cs => pure cs
  | (now, input) :: inputs, cs =>
      if input.Enabled cs then do run ag inputs (← receive ag now input cs)
      else throw "timeout not scheduled"

/-- A run that does not panic is a sequence of steps. -/
theorem run_steps {ag : Agent} {inputs : List (ℕ × Input)} {cs cs' : ConsensusState}
    (h : run ag inputs cs = .ok cs') : Relation.ReflTransGen (Step ag) cs cs' := by
  induction inputs generalizing cs with
  | nil =>
      obtain rfl := Except.pure_eq_ok.mp h
      exact .refl
  | cons ni inputs ih =>
      obtain ⟨now, input⟩ := ni
      simp only [run] at h
      split at h
      · rename_i hen
        obtain ⟨cs₁, h₁, h⟩ := Except.bind_eq_ok.mp h
        exact .head ⟨now, input, hen, h₁⟩ (ih h)
      · exact absurd h Except.throw_ne_ok

/-- `NewConsensusState(config, state, store)` and `OnStart()`: the height after
the agent's chain, with the last commit `reconstructLastCommit` rebuilt, and
round 0 scheduled. -/
def newConsensusState (ag : Agent) (sa : StateAgent) (lastCommit : Option VoteSet) :
    Except String ConsensusState := do
  let cs ← updateToState ag
    { height := 0, round := 0, step := .newHeight, validators := sa.validators,
      proposal := none, proposalBlock := none, proposalBlockParts := none,
      lockedRound := 0, lockedBlock := none, lockedBlockParts := none,
      validRound := 0, validBlock := none, validBlockParts := none,
      votes := ⟨ag.chainID, 0, sa.validators, 0, fun _ => none, fun _ => []⟩,
      commitRound := none, lastCommit := none, proposalForCatchup := none,
      state := sa, sent := [], timeouts := [], committed := [] }
  pure (scheduleRound0 { cs with lastCommit })

end ConsensusState

end RpcNetwork.Tbft
