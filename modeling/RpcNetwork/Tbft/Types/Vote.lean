import Mathlib

/-!
# Votes and what their signatures cover (`types/vote.go`, `types/canonical_json.go`)

A `Vote` is a validator's prevote or precommit at one height and round.  It is
signed over `SignBytes(chainID) = RlpHash(JSON(CanonicalVote(chainID, vote)))`,
and `Vote.Verify` checks the signature against the validator's public key.

## Design notes

`SignBytes` hashes the JSON of the canonical record.  The model keeps the record
itself as the signed message (`SignBytes.vote`): the JSON encoding is injective
on canonical records and the hash is treated as collision free, so two votes
have equal sign bytes exactly when their canonical records agree.  Proposals
are signed over their own canonical record, the second constructor.

`BlockID.Key()` is `hex(Hash) ++ hex(amino(PartsHeader))`, which is
injective, so maps keyed by `Key()` are keyed by the `BlockID`, and `Equals`
is `=`.

Timestamps are signed through `CanonicalTime`, the RFC 3339 form of the UTC
instant; the model keeps the instant as a natural number.
-/

namespace RpcNetwork.Tbft.Types

/-- `help.HexBytes`, the byte strings of addresses, hashes and signatures. -/
abbrev HexBytes := List UInt8

/-- `PartSetHeader`: the number of parts of a block and the Merkle root over them. -/
structure PartSetHeader where
  total : ℕ
  hash : HexBytes
  deriving DecidableEq, Repr, Inhabited

/-- `BlockID`: the block hash and the header of its part set.  The zero value
is the id of a nil vote. -/
structure BlockID where
  hash : HexBytes
  partsHeader : PartSetHeader
  deriving DecidableEq, Repr, Inhabited

/-- `BlockID.IsZero`: an empty hash and a zero part count. -/
def BlockID.isZero (b : BlockID) : Bool :=
  b.hash.isEmpty && b.partsHeader.total == 0

/-- `VoteTypePrevote = 0x01`. -/
def voteTypePrevote : UInt8 := 0x01

/-- `VoteTypePrecommit = 0x02`. -/
def voteTypePrecommit : UInt8 := 0x02

/-- `IsVoteTypeValid`: only the two vote types. -/
def isVoteTypeValid (typeB : UInt8) : Bool :=
  typeB == voteTypePrevote || typeB == voteTypePrecommit

/-- `VoteAgreeAgainst = 0` (`core/types/committee.go`). -/
def voteAgreeAgainst : ℕ := 0

/-- `VoteAgree = 1` (`core/types/committee.go`). -/
def voteAgree : ℕ := 1

/-- `Vote`, field for field.  `Result` says whether the signer's agent accepted
the block, and `ResultSign` is the agent's signature over that verdict. -/
structure Vote where
  validatorAddress : HexBytes
  validatorIndex : ℕ
  height : ℕ
  round : ℕ
  result : ℕ
  timestamp : ℕ
  type : UInt8
  blockID : BlockID
  signature : HexBytes
  resultSign : HexBytes
  deriving DecidableEq, Repr

/-- `CanonicalJSONVote`: what a vote signature covers.  The `@type` field is the
constant `"vote"` and is carried by the `SignBytes.vote` constructor. -/
structure CanonicalVote where
  chainID : String
  blockID : BlockID
  height : ℕ
  round : ℕ
  timestamp : ℕ
  voteType : UInt8
  deriving DecidableEq, Repr

/-- `CanonicalJSONProposal`: what a proposal signature covers. -/
structure CanonicalProposal where
  chainID : String
  blockPartsHeader : PartSetHeader
  height : ℕ
  polBlockID : BlockID
  polRound : ℕ
  round : ℕ
  timestamp : ℕ
  deriving DecidableEq, Repr

/-- The messages the package signs, one constructor per canonical record. -/
inductive SignBytes where
  | vote (cv : CanonicalVote)
  | proposal (cp : CanonicalProposal)
  deriving DecidableEq, Repr

/-- `CanonicalVote(chainID, vote)`; `Result` and `ResultSign` are left out, as in
the source. -/
def canonicalVote (chainID : String) (vote : Vote) : CanonicalVote where
  chainID := chainID
  blockID := vote.blockID
  height := vote.height
  round := vote.round
  timestamp := vote.timestamp
  voteType := vote.type

/-- `Vote.SignBytes(chainID)`. -/
def Vote.signBytes (vote : Vote) (chainID : String) : SignBytes :=
  .vote (canonicalVote chainID vote)

/-- The public-key operations behind `crypto.PubKey`: the address of a key and
signature verification.  Keys are their serialized bytes. -/
structure KeyScheme where
  address : HexBytes → HexBytes
  verifyBytes : HexBytes → SignBytes → HexBytes → Bool

/-- The errors of `types/vote.go` that vote handling returns.  The source wraps
some of them with formatted context; the context is not modelled. -/
inductive VoteError where
  | unexpectedStep
  | invalidValidatorIndex
  | invalidValidatorAddress
  | invalidSignature
  | nonDeterministicSignature
  | conflictingVotes
  | voteNil
  deriving DecidableEq, Repr

/-- `Vote.Verify(chainID, pubKey)`: the vote's address must be the key's address,
and the signature must verify over the sign bytes. -/
def Vote.verify (ks : KeyScheme) (vote : Vote) (chainID : String) (pubKey : HexBytes) :
    Option VoteError :=
  if ks.address pubKey ≠ vote.validatorAddress then some .invalidValidatorAddress
  else if !ks.verifyBytes pubKey (vote.signBytes chainID) vote.signature then some .invalidSignature
  else none

/-- Two votes have the same sign bytes exactly when they agree on every field the
canonical record copies. -/
theorem Vote.signBytes_eq_iff {v w : Vote} {c : String} :
    v.signBytes c = w.signBytes c ↔
      v.blockID = w.blockID ∧ v.height = w.height ∧ v.round = w.round ∧
        v.timestamp = w.timestamp ∧ v.type = w.type := by
  simp only [signBytes, canonicalVote, SignBytes.vote.injEq, CanonicalVote.mk.injEq, true_and]

/-- `Verify` succeeds only for a vote that names the key's address and carries a
signature the key scheme accepts. -/
theorem Vote.verify_eq_none {ks : KeyScheme} {vote : Vote} {c : String} {pk : HexBytes} :
    vote.verify ks c pk = none ↔
      ks.address pk = vote.validatorAddress ∧
        ks.verifyBytes pk (vote.signBytes c) vote.signature = true := by
  unfold verify
  by_cases ha : ks.address pk = vote.validatorAddress <;>
    by_cases hs : ks.verifyBytes pk (vote.signBytes c) vote.signature = true <;>
    simp [ha, hs]

end RpcNetwork.Tbft.Types
