import Mathlib

/-!
# Clique voting snapshots (`consensus/clique/snapshot.go`)

A `Snapshot` is the state of the authorization voting of a clique chain at one
block: the authorized signers, the signers of the last few blocks (`Recents`,
who may not seal again yet), the votes cast since the last checkpoint, and
their tally.  `apply` replays a run of headers over a snapshot.

## Design notes

Go's maps become Mathlib's finite maps: `Signers` a `Finset`, `Recents` and
`Tally` association lists, whose `insert` overwrites a key as Go's assignment
does.  Block numbers are the `uint64` values `Number.Uint64()` reads, so they
wrap as Go's do.  `ecrecover` is a parameter: the signer recovered from a
header, or an error.  The nonce is read big-endian; `Hash()` is the field
`hash`.

`apply` sets `snap.Number` and `snap.Hash` once after its loop, so the loop
threads only `Voting`; `copy` is the identity on values.  `number % s.config.Epoch` with a zero epoch is a run-time panic in
Go; `applyHeader` returns `ApplyError.divideByZero` there.  `clique.New` never
builds a zero epoch.
-/

namespace RpcNetwork.Consensus.Clique

/-- `Vote`: one authorized signer's vote on another account's authorization. -/
structure Vote (α : Type) where
  signer : α
  block : UInt64
  address : α
  authorize : Bool
  deriving DecidableEq, Repr

/-- `Tally`: the direction of the votes on an account and how many there are. -/
structure Tally where
  authorize : Bool
  votes : ℕ
  deriving DecidableEq, Repr

/-- What `apply` reads of a header. -/
structure Header (α H : Type) where
  number : UInt64
  coinbase : α
  nonce : UInt64
  hash : H
  deriving DecidableEq, Repr

/-- The errors of `apply`; `divideByZero` is the panic of `number % 0`. -/
inductive ApplyError (E : Type) where
  | invalidVotingChain
  | unauthorizedSigner
  | recentlySigned
  | invalidVote
  | ecrecover (err : E)
  | divideByZero
  deriving DecidableEq, Repr

/-- `nonceAuthVote`: the nonce of a vote to authorize the coinbase. -/
def nonceAuthVote : UInt64 := 0xffffffffffffffff

/-- `nonceDropVote`: the nonce of a vote to deauthorize the coinbase. -/
def nonceDropVote : UInt64 := 0

/-- The `switch` on the nonce: a vote to authorize, to deauthorize, or neither. -/
def nonceAuthorize (nonce : UInt64) : Option Bool :=
  if nonce = nonceAuthVote then some true
  else if nonce = nonceDropVote then some false
  else none

/-- The voting state of a snapshot: `Signers`, `Recents`, `Votes`, `Tally`. -/
structure Voting (α : Type) where
  signers : Finset α
  recents : AList (fun _ : UInt64 => α)
  votes : List (Vote α)
  tally : AList (fun _ : α => Tally)

/-- `Snapshot`, without its config and signature cache. -/
structure Snapshot (α H : Type) extends Voting α where
  number : UInt64
  hash : H

namespace Voting

variable {α : Type} [DecidableEq α]

/-- `validVote(address, authorize)`: a vote that would change the account's
authorization. -/
def validVote (s : Voting α) (address : α) (authorize : Bool) : Bool :=
  let signer := decide (address ∈ s.signers)
  (signer && !authorize) || (!signer && authorize)

/-- `cast(address, authorize)`: count a meaningful vote into the tally. -/
def cast (s : Voting α) (address : α) (authorize : Bool) : Bool × Voting α :=
  if !s.validVote address authorize then (false, s)
  else
    match s.tally.lookup address with
    | some old => (true, { s with tally := s.tally.insert address { old with votes := old.votes + 1 } })
    | none => (true, { s with tally := s.tally.insert address ⟨authorize, 1⟩ })

/-- `uncast(address, authorize)`: take a counted vote back out of the tally. -/
def uncast (s : Voting α) (address : α) (authorize : Bool) : Bool × Voting α :=
  match s.tally.lookup address with
  | none => (false, s)
  | some tally =>
      if tally.authorize ≠ authorize then (false, s)
      else if tally.votes > 1 then
        (true, { s with tally := s.tally.insert address { tally with votes := tally.votes - 1 } })
      else (true, { s with tally := s.tally.erase address })

/-- `if limit := uint64(len(snap.Signers)/2 + 1); number >= limit
{ delete(snap.Recents, number-limit) }`: the oldest recent signer may sign
again. -/
def forgetRecent (s : Voting α) (number : UInt64) : Voting α :=
  let limit : UInt64 := (s.signers.card / 2 + 1).toUInt64
  if number ≥ limit then { s with recents := s.recents.erase (number - limit) } else s

/-- `snap.Recents[number] = signer`: the signer sealed this block. -/
def recordRecent (s : Voting α) (number : UInt64) (signer : α) : Voting α :=
  { s with recents := s.recents.insert number signer }

/-- The loop that discards a signer's earlier vote on `address`: the first such
vote is uncast and removed (`List.erase` removes that first match). -/
def discardVote (s : Voting α) (signer address : α) : Voting α :=
  match s.votes.find? (fun v => v.signer == signer && v.address == address) with
  | some vote => { (s.uncast vote.address vote.authorize).2 with votes := s.votes.erase vote }
  | none => s

/-- The tally side of the loop that discards a deauthorized signer's votes:
each of its votes, in order, is uncast. -/
def uncastVotesBy (signer : α) : List (Vote α) → Voting α → Voting α
  | [], s => s
  | v :: vs, s =>
      if v.signer = signer then uncastVotesBy signer vs (s.uncast v.address v.authorize).2
      else uncastVotesBy signer vs s

/-- The loop over `Votes` that uncasts and removes every vote of `signer`. -/
def discardVotesBy (s : Voting α) (signer : α) : Voting α :=
  { uncastVotesBy signer s.votes s with votes := s.votes.filter fun v => v.signer != signer }

/-- The update of the signers after a passed vote on `coinbase`: authorized, or
deauthorized with its recent slot and all its votes dropped. -/
def passVote (s : Voting α) (coinbase : α) (authorize : Bool) (number : UInt64) : Voting α :=
  let s :=
    if authorize then { s with signers := insert coinbase s.signers }
    else (({ s with signers := s.signers.erase coinbase } : Voting α).forgetRecent number).discardVotesBy
      coinbase
  -- discard any previous votes around the just changed account
  let s := { s with votes := s.votes.filter fun v => v.address != coinbase }
  { s with tally := s.tally.erase coinbase }

/-- The votes and tally are dropped on checkpoint blocks. -/
def checkpoint (s : Voting α) (epoch number : UInt64) : Voting α :=
  if number % epoch = 0 then { s with votes := [], tally := ∅ } else s

/-- `cast` followed by recording the counted vote in `Votes`. -/
def tallyVote (s : Voting α) (signer : α) (number : UInt64) (address : α) (authorize : Bool) :
    Voting α :=
  let (counted, s) := s.cast address authorize
  if counted then { s with votes := s.votes ++ [⟨signer, number, address, authorize⟩] } else s

/-- `if tally := snap.Tally[header.Coinbase]; tally.Votes > len(snap.Signers)/2`: a
vote on `coinbase` that has passed changes the signers.  A missing tally reads
as Go's zero value. -/
def updateSigners (s : Voting α) (coinbase : α) (number : UInt64) : Voting α :=
  let tally := (s.tally.lookup coinbase).getD ⟨false, 0⟩
  if tally.votes > s.signers.card / 2 then s.passVote coinbase tally.authorize number else s

/-- One iteration of `apply`'s loop over the headers. -/
def applyHeader {H E : Type} (ecrecover : Header α H → Except E α) (epoch : UInt64)
    (snap : Voting α) (header : Header α H) : Except (ApplyError E) (Voting α) := do
  let number := header.number
  if epoch = 0 then throw .divideByZero
  -- remove any votes on checkpoint blocks, then let the oldest recent signer sign again
  let snap := (snap.checkpoint epoch number).forgetRecent number
  let signer ← match ecrecover header with
    | .ok signer => pure signer
    | .error err => throw (.ecrecover err)
  if signer ∉ snap.signers then throw .unauthorizedSigner
  if snap.recents.entries.any (fun r => r.2 == signer) then throw .recentlySigned
  let snap := snap.recordRecent number signer
  -- header authorized, discard any previous votes from the signer
  let snap := snap.discardVote signer header.coinbase
  let some authorize := nonceAuthorize header.nonce | throw .invalidVote
  pure ((snap.tallyVote signer number header.coinbase authorize).updateSigners header.coinbase number)

end Voting

/-- The sanity check of `apply`: each header's number is one above the last. -/
def consecutive {α H : Type} : List (Header α H) → Bool
  | h₁ :: h₂ :: hs => h₂.number == h₁.number + 1 && consecutive (h₂ :: hs)
  | _ => true

namespace Snapshot

variable {α H E : Type} [DecidableEq α]

/-- `apply(headers)`: check that the headers follow the snapshot's block, replay
them, and move the snapshot to the last one. -/
def apply (ecrecover : Header α H → Except E α) (epoch : UInt64) (s : Snapshot α H) :
    List (Header α H) → Except (ApplyError E) (Snapshot α H)
  | [] => pure s
  | first :: rest =>
      if !consecutive (first :: rest) then throw .invalidVotingChain
      else if first.number ≠ s.number + 1 then throw .invalidVotingChain
      else do
        let snap ← (first :: rest).foldlM (Voting.applyHeader ecrecover epoch) s.toVoting
        pure { snap with
          number := s.number + (first :: rest).length.toUInt64
          hash := ((first :: rest).getLast (List.cons_ne_nil first rest)).hash }

end Snapshot

/-- `newSnapshot(config, sigcache, number, hash, signers)`. -/
def newSnapshot {α H : Type} [DecidableEq α] (number : UInt64) (hash : H) (signers : List α) :
    Snapshot α H :=
  { signers := signers.toFinset, recents := ∅, votes := [], tally := ∅, number, hash }

end RpcNetwork.Consensus.Clique
