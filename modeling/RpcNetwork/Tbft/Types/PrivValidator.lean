import RpcNetwork.Tbft.Types.ValidatorSet
import RpcNetwork.Lib.ExceptRun
import RpcNetwork.Lib.SignGuard

/-!
# The signer and its double-sign guard (`types/priv_validator.go`, `types/proposal.go`)

A `privValidator` remembers the height, round and step it last signed, with
the sign bytes and signature.  `checkHRS` refuses any request below that
point, and at it answers with the last signature when the sign bytes agree.
`Reset` forgets all of it.

## Design notes

A panic is the `error` of the outer `Except String`; a returned Go `error` is
the `error` of the inner one, next to the signer's new state.

`SignBytes` is the Keccak hash of the canonical JSON, and the model keeps the
canonical record in its place (see `Vote.lean`).  `checkVotesOnlyDifferByTimestamp`
and `checkProposalsOnlyDifferByTimestamp` unmarshal `LastSignBytes` as JSON,
and a 32-byte hash is not the JSON of a canonical record, so both panic with
"LastSignBytes cannot be unmarshalled into …" whenever they are reached: a
request at the last signed height, round and step with other sign bytes ends in
that panic, never in the "conflicting data" error after it.

`PrivKey.Sign` is a function of the message.  `Proposal.POLRound` is a Go
`uint` (`-1` is `2^64 - 1`) that consensus reads through `wrapInt64`.
`checkHRS` compares rounds as `int`s, so a round of `2^63` or more counts as
negative; the model compares `wrapInt64` of both sides.
-/

namespace RpcNetwork.Tbft.Types

/-! ### Proposals -/

/-- `Proposal`: a block proposal, naming the block by its part set header, with
the round of its proof of lock. -/
structure Proposal where
  height : ℕ
  round : ℕ
  timestamp : ℕ
  blockPartsHeader : PartSetHeader
  polRound : ℕ
  polBlockID : BlockID
  signature : HexBytes
  deriving DecidableEq, Repr

/-- `NewProposal(height, round, blockPartsHeader, polRound, polBlockID)`, stamped
with the time `now`. -/
def newProposal (height round now : ℕ) (blockPartsHeader : PartSetHeader) (polRound : ℕ)
    (polBlockID : BlockID) : Proposal :=
  ⟨height, round, now, blockPartsHeader, polRound, polBlockID, []⟩

/-- `CanonicalProposal(chainID, proposal)`. -/
def canonicalProposal (chainID : String) (p : Proposal) : CanonicalProposal where
  chainID := chainID
  blockPartsHeader := p.blockPartsHeader
  height := p.height
  polBlockID := p.polBlockID
  polRound := p.polRound
  round := p.round
  timestamp := p.timestamp

/-- `Proposal.SignBytes(chainID)`. -/
def Proposal.signBytes (p : Proposal) (chainID : String) : SignBytes :=
  .proposal (canonicalProposal chainID p)

/-- `KeepBlockSign`: the agent's verdict on a block, its signature over the
verdict, and the block hash. -/
structure KeepBlockSign where
  result : ℕ
  sign : HexBytes
  hash : HexBytes
  deriving DecidableEq, Repr

/-! ### The guard -/

/-- `stepNone`: nothing signed yet. -/
def stepNone : ℕ := 0

/-- `stepPropose`. -/
def stepPropose : ℕ := 1

/-- `stepPrevote`. -/
def stepPrevote : ℕ := 2

/-- `stepPrecommit`. -/
def stepPrecommit : ℕ := 3

/-- `voteToStep(vote)`; any other vote type panics. -/
def voteToStep (vote : Vote) : Except String ℕ :=
  if vote.type = voteTypePrevote then pure stepPrevote
  else if vote.type = voteTypePrecommit then pure stepPrecommit
  else throw "Unknown vote type"

/-- A private key: the public key it belongs to and its signature on a message. -/
structure PrivKey where
  pubKey : HexBytes
  sign : SignBytes → HexBytes

/-- `privValidator`, without its mutex.  A nil `LastSignature` or
`LastSignBytes` is `none`. -/
structure PrivValidator where
  privKey : PrivKey
  lastHeight : ℕ
  lastRound : ℕ
  lastStep : ℕ
  lastSignature : Option HexBytes
  lastSignBytes : Option SignBytes

/-- `NewPrivValidator(priv)`: nothing signed. -/
def newPrivValidator (privKey : PrivKey) : PrivValidator :=
  ⟨privKey, 0, 0, stepNone, none, none⟩

namespace PrivValidator

/-- `GetAddress()`: the address of the public key. -/
def getAddress (ks : KeyScheme) (pv : PrivValidator) : HexBytes :=
  ks.address pv.privKey.pubKey

/-- `Reset()`: forget everything signed. -/
def reset (pv : PrivValidator) : PrivValidator :=
  { pv with lastHeight := 0, lastRound := 0, lastStep := 0, lastSignature := none,
            lastSignBytes := none }

/-- `saveSigned(height, round, step, signBytes, sig)`. -/
def saveSigned (pv : PrivValidator) (height round step : ℕ) (signBytes : SignBytes)
    (sig : HexBytes) : PrivValidator :=
  { pv with lastHeight := height, lastRound := round, lastStep := step,
            lastSignature := some sig, lastSignBytes := some signBytes }

/-- `checkHRS(height, round, step)`: whether the request is at the last signed
height, round and step; an error for a request below it. -/
def checkHRS (pv : PrivValidator) (height round step : ℕ) : Except String (Except String Bool) :=
  if height < pv.lastHeight then pure (throw "height regression")
  else if pv.lastHeight = height then
    -- `int(Validator.LastRound) > round`, with `round` itself `int(vote.Round)`
    if wrapInt64 round < wrapInt64 pv.lastRound then pure (throw "round regression")
    else if wrapInt64 pv.lastRound = wrapInt64 round then
      if step < pv.lastStep then pure (throw "step regression")
      else if pv.lastStep = step then
        if pv.lastSignBytes.isSome then
          if pv.lastSignature.isNone then
            throw "Validator: LastSignature is nil but LastSignBytes is not!"
          else pure (pure true)
        else pure (throw "no LastSignature found")
      else pure (pure false)
    else pure (pure false)
  else pure (pure false)

/-- `signVote(chainID, vote)`: the signed vote and the new signer, or the error.
At the last signed point the last signature is reused for the same sign bytes;
other sign bytes reach `checkVotesOnlyDifferByTimestamp`, which panics. -/
def signVote (pv : PrivValidator) (chainID : String) (vote : Vote) :
    Except String (Except String Vote × PrivValidator) := do
  let step ← voteToStep vote
  let signBytes := vote.signBytes chainID
  match ← pv.checkHRS vote.height vote.round step with
  | .error err => pure (.error err, pv)
  | .ok true =>
      if pv.lastSignBytes = some signBytes then
        pure (.ok { vote with signature := pv.lastSignature.getD [] }, pv)
      else throw "LastSignBytes cannot be unmarshalled into vote"
  | .ok false =>
      let sig := pv.privKey.sign signBytes
      pure (.ok { vote with signature := sig }, pv.saveSigned vote.height vote.round step signBytes sig)

/-- `signProposal(chainID, proposal)`, the same guard at `stepPropose`. -/
def signProposal (pv : PrivValidator) (chainID : String) (proposal : Proposal) :
    Except String (Except String Proposal × PrivValidator) := do
  let signBytes := proposal.signBytes chainID
  match ← pv.checkHRS proposal.height proposal.round stepPropose with
  | .error err => pure (.error err, pv)
  | .ok true =>
      if pv.lastSignBytes = some signBytes then
        pure (.ok { proposal with signature := pv.lastSignature.getD [] }, pv)
      else throw "LastSignBytes cannot be unmarshalled into proposal"
  | .ok false =>
      let sig := pv.privKey.sign signBytes
      pure (.ok { proposal with signature := sig },
        pv.saveSigned proposal.height proposal.round stepPropose signBytes sig)

end PrivValidator

/-! ### The signer is a double-sign guard -/

/-- The guard's points: height, round as Go's `int` reads it, and step, in
lexicographic order. -/
abbrev HRS := ℕ ×ₗ ℤ ×ₗ ℕ

/-- The point `(height, int(round), step)`. -/
def hrs (height round step : ℕ) : HRS :=
  toLex (height, toLex (wrapInt64 round, step))

/-- The step of a vote of type `typeB` once `voteToStep` accepted it. -/
def stepOf (typeB : UInt8) : ℕ :=
  if typeB = voteTypePrevote then stepPrevote else stepPrecommit

/-- `voteToStep` gives the step of the vote's type. -/
theorem voteToStep_eq {vote : Vote} {step : ℕ} (h : voteToStep vote = .ok step) :
    step = stepOf vote.type := by
  unfold voteToStep at h
  unfold stepOf
  split_ifs at h ⊢ <;> simp_all

/-- `hrs` is lexicographic. -/
theorem hrs_lt_hrs {h r s h' r' s' : ℕ} :
    hrs h r s < hrs h' r' s' ↔
      h < h' ∨ h = h' ∧ (wrapInt64 r < wrapInt64 r' ∨ wrapInt64 r = wrapInt64 r' ∧ s < s') := by
  simp only [hrs, Prod.Lex.toLex_lt_toLex]

namespace PrivValidator

variable {pv pv' : PrivValidator} {chainID : String}

/-- The last point the signer signed at. -/
def lastPoint (pv : PrivValidator) : HRS :=
  hrs pv.lastHeight pv.lastRound pv.lastStep

/-- The last sign bytes with their signature, when the signer has both. -/
def lastMsg (pv : PrivValidator) : Option (SignBytes × HexBytes) :=
  match pv.lastSignBytes, pv.lastSignature with
  | some sb, some sig => some (sb, sig)
  | _, _ => none

/-- A request `checkHRS` finds new is above the last point. -/
theorem lastPoint_lt_of_checkHRS {height round step : ℕ}
    (h : pv.checkHRS height round step = .ok (.ok false)) :
    pv.lastPoint < hrs height round step := by
  unfold checkHRS at h
  rw [lastPoint, hrs_lt_hrs]
  split_ifs at h <;> (try cases h) <;> omega

/-- A request `checkHRS` finds repeated is at the last point, and the signer
holds its last sign bytes and signature. -/
theorem checkHRS_eq_true {height round step : ℕ}
    (h : pv.checkHRS height round step = .ok (.ok true)) :
    hrs height round step = pv.lastPoint ∧ ∃ sb sig, pv.lastSignBytes = some sb ∧
      pv.lastSignature = some sig := by
  unfold checkHRS at h
  split_ifs at h with h₁ h₂ h₃ h₄ h₅ h₆ h₇ h₈ <;> try cases h
  refine ⟨by rw [lastPoint, hrs, hrs, h₂, h₄, h₆], ?_⟩
  obtain ⟨sb, hsb⟩ := Option.isSome_iff_exists.mp h₇
  obtain ⟨sig, hsig⟩ := Option.ne_none_iff_exists'.mp (by simpa using h₈)
  exact ⟨sb, sig, hsb, hsig⟩

/-- **What `signVote` can do.**  Either `checkHRS` finds the vote above the last
point, and the signer signs it afresh and saves it; or the signer is left as it
was, and a vote it answers with carries the last signature, for the last sign
bytes at the last point. -/
theorem signVote_cases {vote : Vote} {signed : Except String Vote}
    (h : pv.signVote chainID vote = .ok (signed, pv')) :
    (pv.checkHRS vote.height vote.round (stepOf vote.type) = .ok (.ok false) ∧
      pv.lastPoint < hrs vote.height vote.round (stepOf vote.type) ∧
      signed = .ok { vote with signature := pv.privKey.sign (vote.signBytes chainID) } ∧
      pv' = pv.saveSigned vote.height vote.round (stepOf vote.type) (vote.signBytes chainID)
        (pv.privKey.sign (vote.signBytes chainID))) ∨
    (pv.checkHRS vote.height vote.round (stepOf vote.type) ≠ .ok (.ok false) ∧ pv' = pv ∧
      ∀ m, signed = .ok m → hrs vote.height vote.round (stepOf vote.type) = pv.lastPoint ∧
        pv.lastSignBytes = some (vote.signBytes chainID) ∧
        ∃ sig, pv.lastSignature = some sig ∧ m = { vote with signature := sig }) := by
  obtain ⟨step, hstep, h⟩ := Except.bind_eq_ok.mp h
  rw [voteToStep_eq hstep] at h
  obtain ⟨r, hr, h⟩ := Except.bind_eq_ok.mp h
  rw [hr]
  rcases r with e | _ | _
  · -- refused
    simp only [Except.pure_eq_ok, Prod.mk.injEq] at h
    obtain ⟨rfl, rfl⟩ := h
    exact .inr ⟨by simp, rfl, fun m hm => by simp at hm⟩
  · -- a new point: the signer saves it
    simp only [Except.pure_eq_ok, Prod.mk.injEq] at h
    obtain ⟨rfl, rfl⟩ := h
    exact .inl ⟨rfl, lastPoint_lt_of_checkHRS hr, rfl, rfl⟩
  · -- the last point again: only the same sign bytes get the last signature;
    -- other sign bytes panic, and `split_ifs` closes that branch
    split_ifs at h with hsb
    simp only [Except.pure_eq_ok, Prod.mk.injEq] at h
    obtain ⟨rfl, rfl⟩ := h
    obtain ⟨hpt, -, sig, -, hsig⟩ := checkHRS_eq_true hr
    refine .inr ⟨by simp, rfl, fun m hm => ⟨hpt, hsb, sig, hsig, ?_⟩⟩
    rw [← Except.ok.inj hm, hsig, Option.getD_some]

/-- A refused request leaves the signer as it is. -/
theorem signVote_refused {vote : Vote} {err : String}
    (h : pv.signVote chainID vote = .ok (.error err, pv')) : pv' = pv := by
  rcases signVote_cases h with ⟨-, -, hok, -⟩ | ⟨-, rfl, -⟩
  · cases hok
  · rfl

/-- **The signer keeps the guard, for votes.**  A vote it signs is the vote
asked for with a signature, and adding its point, sign bytes and signature to a
guarded log keeps the log guarded. -/
theorem signVote_guarded {vote vote' : Vote} {log : List (HRS × (SignBytes × HexBytes))}
    (hG : SignGuard.Guarded pv.lastPoint pv.lastMsg log)
    (h : pv.signVote chainID vote = .ok (.ok vote', pv')) :
    ∃ sig, vote' = { vote with signature := sig } ∧
      SignGuard.Guarded pv'.lastPoint pv'.lastMsg
        (log ++ [(hrs vote.height vote.round (stepOf vote.type), (vote.signBytes chainID, sig))]) := by
  rcases signVote_cases h with ⟨-, hlt, hok, rfl⟩ | ⟨-, rfl, hagain⟩
  · obtain rfl := Except.ok.inj hok
    exact ⟨_, rfl, hG.sign_above hlt _⟩
  · obtain ⟨hpt, hsb, sig, hsig, rfl⟩ := hagain vote' rfl
    refine ⟨sig, rfl, ?_⟩
    rw [hpt]
    exact hG.sign_again (by rw [lastMsg, hsb, hsig])

/-- **What `signProposal` can do**, as `signVote_cases` at `stepPropose`. -/
theorem signProposal_cases {proposal : Proposal} {signed : Except String Proposal}
    (h : pv.signProposal chainID proposal = .ok (signed, pv')) :
    (pv.checkHRS proposal.height proposal.round stepPropose = .ok (.ok false) ∧
      pv.lastPoint < hrs proposal.height proposal.round stepPropose ∧
      signed = .ok { proposal with signature := pv.privKey.sign (proposal.signBytes chainID) } ∧
      pv' = pv.saveSigned proposal.height proposal.round stepPropose (proposal.signBytes chainID)
        (pv.privKey.sign (proposal.signBytes chainID))) ∨
    (pv.checkHRS proposal.height proposal.round stepPropose ≠ .ok (.ok false) ∧ pv' = pv ∧
      ∀ m, signed = .ok m → hrs proposal.height proposal.round stepPropose = pv.lastPoint ∧
        pv.lastSignBytes = some (proposal.signBytes chainID) ∧
        ∃ sig, pv.lastSignature = some sig ∧ m = { proposal with signature := sig }) := by
  obtain ⟨r, hr, h⟩ := Except.bind_eq_ok.mp h
  rw [hr]
  rcases r with e | _ | _
  · simp only [Except.pure_eq_ok, Prod.mk.injEq] at h
    obtain ⟨rfl, rfl⟩ := h
    exact .inr ⟨by simp, rfl, fun m hm => by simp at hm⟩
  · simp only [Except.pure_eq_ok, Prod.mk.injEq] at h
    obtain ⟨rfl, rfl⟩ := h
    exact .inl ⟨rfl, lastPoint_lt_of_checkHRS hr, rfl, rfl⟩
  · split_ifs at h with hsb
    simp only [Except.pure_eq_ok, Prod.mk.injEq] at h
    obtain ⟨rfl, rfl⟩ := h
    obtain ⟨hpt, -, sig, -, hsig⟩ := checkHRS_eq_true hr
    refine .inr ⟨by simp, rfl, fun m hm => ⟨hpt, hsb, sig, hsig, ?_⟩⟩
    rw [← Except.ok.inj hm, hsig, Option.getD_some]

/-- A refused proposal leaves the signer as it is. -/
theorem signProposal_refused {proposal : Proposal} {err : String}
    (h : pv.signProposal chainID proposal = .ok (.error err, pv')) : pv' = pv := by
  rcases signProposal_cases h with ⟨-, -, hok, -⟩ | ⟨-, rfl, -⟩
  · cases hok
  · rfl

/-- **The signer keeps the guard, for proposals**, at `stepPropose`. -/
theorem signProposal_guarded {proposal proposal' : Proposal}
    {log : List (HRS × (SignBytes × HexBytes))}
    (hG : SignGuard.Guarded pv.lastPoint pv.lastMsg log)
    (h : pv.signProposal chainID proposal = .ok (.ok proposal', pv')) :
    ∃ sig, proposal' = { proposal with signature := sig } ∧
      SignGuard.Guarded pv'.lastPoint pv'.lastMsg
        (log ++ [(hrs proposal.height proposal.round stepPropose, (proposal.signBytes chainID, sig))]) := by
  rcases signProposal_cases h with ⟨-, hlt, hok, rfl⟩ | ⟨-, rfl, hagain⟩
  · obtain rfl := Except.ok.inj hok
    exact ⟨_, rfl, hG.sign_above hlt _⟩
  · obtain ⟨hpt, hsb, sig, hsig, rfl⟩ := hagain proposal' rfl
    refine ⟨sig, rfl, ?_⟩
    rw [hpt]
    exact hG.sign_again (by rw [lastMsg, hsb, hsig])

end PrivValidator

end RpcNetwork.Tbft.Types
