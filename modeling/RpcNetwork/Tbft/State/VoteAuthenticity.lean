import RpcNetwork.Tbft.State.ConsensusState

/-!
# What a vote signature covers

A vote's signature is over its canonical record: chain, block id, height,
round, timestamp and type.  `Result` and `ResultSign` are not in it (they are
commented out of `CanonicalVote`), and `signAddVote` writes them after the
signer returns.  So anyone who relays a vote can change its verdict, and
`VoteSet.addVote` accepts the changed vote as the validator's.  What the
signature does bind is the rest: under unforgeable keys, an accepted vote
agrees with a vote its validator produced on every signed field, and its
index names that validator.
-/

namespace RpcNetwork.Tbft

open RpcNetwork.Tbft.Types RpcNetwork.Tbft.Help RpcNetwork.Tbft.Types.VoteSet

/-- The equivalence of votes the reactor would need: every field consensus
counts. -/
def VoteEquivalent (v w : Vote) : Prop :=
  v.validatorAddress = w.validatorAddress ∧ v.validatorIndex = w.validatorIndex ∧
    v.height = w.height ∧ v.round = w.round ∧ v.type = w.type ∧ v.blockID = w.blockID ∧
    v.result = w.result ∧ v.resultSign = w.resultSign

instance (v w : Vote) : Decidable (VoteEquivalent v w) :=
  inferInstanceAs (Decidable (_ ∧ _ ∧ _ ∧ _ ∧ _ ∧ _ ∧ _ ∧ _))

/-- Agreement on the address and on every field the signature covers. -/
def SignedAgree (v w : Vote) : Prop :=
  v.validatorAddress = w.validatorAddress ∧ v.height = w.height ∧ v.round = w.round ∧
    v.type = w.type ∧ v.blockID = w.blockID ∧ v.timestamp = w.timestamp

/-- Only the holder of a key signs with it: a signature that verifies under `pk`
is on the sign bytes of a produced vote of the validator with `pk`'s address. -/
def Unforgeable (ks : KeyScheme) (chainID : String) (produced : List Vote) : Prop :=
  ∀ pk sb sig, ks.verifyBytes pk sb sig = true →
    ∃ w ∈ produced, w.validatorAddress = ks.address pk ∧ w.signBytes chainID = sb

/-! ### The verdict is written after signing -/

/-- The verdict does not change what is signed. -/
@[simp] theorem Vote.signBytes_withVerdict (v : Vote) (result : ℕ) (resultSign : HexBytes)
    (c : String) : ({ v with result, resultSign } : Vote).signBytes c = v.signBytes c :=
  rfl

/-- `withKeepSign` only writes the verdict. -/
theorem ConsensusState.withKeepSign_eq (hash : Option HexBytes) (keepsign : Option KeepBlockSign) (vote : Vote) :
    ∃ result resultSign, withKeepSign hash keepsign vote = { vote with result, resultSign } := by
  unfold ConsensusState.withKeepSign
  split
  · split
    · exact ⟨_, _, rfl⟩
    · exact ⟨vote.result, vote.resultSign, rfl⟩
  · exact ⟨vote.result, vote.resultSign, rfl⟩

namespace ConsensusState

variable {ag : Agent} {now : ℕ} {typeB : UInt8} {hash : Option HexBytes} {header : PartSetHeader}
  {keepsign : Option KeepBlockSign} {cs cs' : ConsensusState}

/-- **What `signAddVote` queues.**  It leaves the state as it is, or it takes
the signer's answer: on a refusal only the signer changes, and on a signed vote
the vote is queued with a verdict written into it. -/
theorem signAddVote_sent (h : signAddVote ag now typeB hash header keepsign cs = .ok cs') :
    cs' = cs ∨ ∃ signed priv, signVote ag now typeB hash header cs = .ok (signed, priv) ∧
      ((∃ err, signed = .error err ∧ cs' = { cs with state := { cs.state with priv } }) ∨
        ∃ vote result resultSign, signed = .ok vote ∧
          cs' = { cs with state := { cs.state with priv },
                          sent := cs.sent ++ [.vote { vote with result, resultSign }] }) := by
  unfold signAddVote at h
  split at h
  · exact .inl (Except.pure_eq_ok.mp h).symm
  · right
    obtain ⟨⟨signed, priv⟩, hsign, h⟩ := Except.bind_eq_ok.mp h
    refine ⟨signed, priv, hsign, ?_⟩
    cases signed with
    | error err => exact .inl ⟨err, rfl, (Except.pure_eq_ok.mp h).symm⟩
    | ok vote =>
        right
        obtain ⟨keepsign', -, h⟩ := Except.bind_eq_ok.mp h
        obtain ⟨result, resultSign, hks⟩ := withKeepSign_eq hash keepsign' vote
        refine ⟨vote, result, resultSign, rfl, ?_⟩
        rw [← Except.pure_eq_ok.mp h, sendInternalMessage, hks]

end ConsensusState

/-! ### An added vote passed every check -/

/-- **An added vote passed every check** of `addVote`, the signature included. -/
theorem VoteSet.addVote_accepts_of_added {ks : KeyScheme} {vs vs' : VoteSet} {v : Vote}
    {err : Option VoteError} (h : vs.addVote ks (some v) = .ok ((true, err), vs')) :
    vs.Accepts ks v.validatorIndex v := by
  simp only [addVote] at h
  -- every early return answers `added = false`
  split at h
  · simp at h
  · rename_i haddr
    split at h
    · simp at h
    · rename_i hstep
      split at h
      · simp at h
      · rename_i lookupAddr val hval
        split at h
        · simp at h
        · rename_i hlook
          split at h
          · split at h <;> simp at h
          · split at h
            · simp at h
            · rename_i hver
              -- every check passed; the index names `val`
              have hval' : vs.valSet.validators[v.validatorIndex]? = some val := by
                unfold ValidatorSet.getByIndex at hval
                cases hv : vs.valSet.validators[v.validatorIndex]? with
                | none => simp [hv] at hval
                | some v' =>
                    simp only [hv, Option.map_some, Option.some.injEq, Prod.mk.injEq] at hval
                    rw [hval.2]
              have hlook' : v.validatorAddress = val.address := by
                unfold ValidatorSet.getByIndex at hval
                simp only [hval', Option.map_some, Option.some.injEq, Prod.mk.injEq] at hval
                rw [hval.1]
                exact not_not.mp hlook
              simp only [not_or, not_not] at hstep
              exact ⟨rfl, fun he => by simp [he] at haddr, hstep.1, hstep.2.1, hstep.2.2, val, hval',
                hlook', hver⟩

/-! ### A concrete node -/

/-- What a signature of the concrete key scheme says about its message: height,
round, timestamp and type, then the block hash. -/
def toyDigest : SignBytes → HexBytes
  | .vote cv => [cv.height.toUInt8, cv.round.toUInt8, cv.timestamp.toUInt8, cv.voteType] ++
      cv.blockID.hash
  | .proposal cp => [cp.height.toUInt8, cp.round.toUInt8, cp.timestamp.toUInt8, 0] ++
      cp.blockPartsHeader.hash

/-- A key scheme for runs on concrete data: a key is its own address, and the
signature of a message is the key followed by its digest. -/
def toyKeys : KeyScheme :=
  ⟨id, fun pk sb sig => sig == pk ++ toyDigest sb⟩

/-- The private key of `toyKeys` for a public key. -/
def toyPrivKey (pubKey : HexBytes) : PrivKey :=
  ⟨pubKey, fun sb => pubKey ++ toyDigest sb⟩

/-- The block the concrete agent offers at a height and round. -/
def toyBlock (height round : ℕ) : Block :=
  ⟨[height.toUInt8, round.toUInt8], height, 0⟩

/-- An agent for runs on concrete data: it offers `toyBlock` and agrees with
every block; a block is encoded as its number followed by its hash. -/
def toyAgent : Agent where
  ks := toyKeys
  rlp := concatHasher
  chainID := "tbft"
  fetchFastBlock := fun height round => some (toyBlock height round)
  verifyFastBlock := fun block => some ⟨voteAgree, [0], block.hash⟩
  encodeBlock := fun block => block.number.toUInt8 :: block.hash
  decodeBlock := fun
    | n :: hash => some ⟨hash, n.toNat, 0⟩
    | [] => none
  lastProposer := fun _ => [1]
  waitForTxs := fun _ _ => false
  startHeight := 0
  skipTimeoutCommit := false

/-- Validator `[1]` alone, with power 10. -/
def toyValidators : ValidatorSet :=
  ValidatorSet.newValidatorSet [newValidator toyKeys [1] 10]

/-- The agent state of validator `[1]` at the start of the chain. -/
def toyStateAgent : StateAgent :=
  ⟨newPrivValidator (toyPrivKey [1]), toyValidators, 0, 0, 0⟩

/-- The prevote validator `[1]` signs at time 5 for block `[1, 0]`, agreeing. -/
def honestPrevote : Vote where
  validatorAddress := [1]
  validatorIndex := 0
  height := 1
  round := 0
  result := voteAgree
  timestamp := 5
  type := voteTypePrevote
  blockID := ⟨[1, 0], ⟨1, [1, 0]⟩⟩
  signature := [1, 1, 0, 5, 1, 1, 0]
  resultSign := [9]

/-- `honestPrevote` with its verdict flipped by a relay. -/
def forgedPrevote : Vote :=
  { honestPrevote with result := voteAgreeAgainst }

/-- **A relay can flip a verdict.**  The vote validator `[1]` signs agrees with
block `[1, 0]`; flipped to disagree it is still added without error, and the
block's store counts none of its power. -/
theorem forged_result_accepted :
    ∃ cs₀ cs₁ vs vs' vsHonest, ConsensusState.newConsensusState toyAgent toyStateAgent none = .ok cs₀ ∧
      ConsensusState.signAddVote toyAgent 5 voteTypePrevote (some [1, 0]) ⟨1, [1, 0]⟩
        (some ⟨voteAgree, [9], [1, 0]⟩) cs₀ = .ok cs₁ ∧
      cs₁.sent = [.vote honestPrevote] ∧
      newVoteSet toyAgent.chainID 1 0 voteTypePrevote toyValidators = .ok vs ∧
      vs.addVote toyKeys (some forgedPrevote) = .ok ((true, none), vs') ∧
      vs.addVote toyKeys (some honestPrevote) = .ok ((true, none), vsHonest) ∧
      (vs'.votesByBlock honestPrevote.blockID).map BlockVotes.sum = some 0 ∧
      (vsHonest.votesByBlock honestPrevote.blockID).map BlockVotes.sum = some 10 ∧
      ∀ w, .vote w ∈ cs₁.sent → ¬ VoteEquivalent forgedPrevote w := by
  refine ⟨_, _, _, _, _, rfl, rfl, rfl, rfl, rfl, rfl, rfl, rfl, ?_⟩
  intro w hw
  change ConsensusMessage.vote w ∈ [ConsensusMessage.vote honestPrevote] at hw
  simp only [List.mem_singleton, ConsensusMessage.vote.injEq] at hw
  subst hw
  decide

/-! ### What the signature binds -/

/-- The key scheme of a signing oracle for the votes `produced`: a key is its own
address, and a signature verifies exactly when a produced vote of that address
carries it over those sign bytes. -/
def idealKeys (chainID : String) (produced : List Vote) : KeyScheme :=
  ⟨id, fun pk sb sig => produced.any fun w =>
    w.validatorAddress == pk && w.signBytes chainID == sb && w.signature == sig⟩

/-- Under the signing oracle only produced votes' signatures verify. -/
theorem idealKeys_unforgeable (chainID : String) (produced : List Vote) :
    Unforgeable (idealKeys chainID produced) chainID produced := by
  intro pk sb sig h
  simp only [idealKeys, List.any_eq_true, Bool.and_eq_true, beq_iff_eq] at h
  obtain ⟨w, hw, ⟨ha, hsb⟩, -⟩ := h
  exact ⟨w, hw, ha, hsb⟩

/-- **What a vote signature binds.**  Under unforgeable keys, a vote a set adds
without error agrees with one its validator produced on address, height,
round, type, block id and timestamp; the verdict is not among them. -/
theorem accepted_vote_signed_by_validator {ks : KeyScheme} {chainID : String}
    {produced : List Vote} {vs vs' : VoteSet} {v : Vote}
    (hU : Unforgeable ks chainID produced) (hchain : vs.chainID = chainID)
    (hadd : vs.addVote ks (some v) = .ok ((true, none), vs')) :
    (∃ w ∈ produced, SignedAgree v w) ∧
      ∃ val, vs.valSet.validators[v.validatorIndex]? = some val ∧
        val.address = v.validatorAddress ∧ ks.address val.pubKey = v.validatorAddress := by
  obtain ⟨-, -, -, -, -, val, hval, haddr, hver⟩ := VoteSet.addVote_accepts_of_added hadd
  obtain ⟨hpk, hsig⟩ := Vote.verify_eq_none.mp hver
  rw [hchain] at hsig
  -- the signature is a produced vote's, over the same sign bytes
  obtain ⟨w, hw, hwaddr, hsb⟩ := hU _ _ _ hsig
  obtain ⟨hb, hh, hr, ht, hty⟩ := Vote.signBytes_eq_iff.mp hsb
  refine ⟨⟨w, hw, ?_, hh.symm, hr.symm, hty.symm, hb.symm, ht.symm⟩, val, hval, haddr.symm, hpk⟩
  rw [hwaddr, hpk]

/-- The forged prevote, under the signing oracle of the honest one, is added,
and agrees with the honest prevote on every signed field. -/
theorem accepted_vote_signed_by_validator_forged :
    ∃ vs vs', newVoteSet "tbft" 1 0 voteTypePrevote toyValidators = .ok vs ∧
      vs.addVote (idealKeys "tbft" [honestPrevote]) (some forgedPrevote) = .ok ((true, none), vs') ∧
      (∃ w ∈ [honestPrevote], SignedAgree forgedPrevote w) ∧
      ∃ val, vs.valSet.validators[forgedPrevote.validatorIndex]? = some val ∧
        val.address = forgedPrevote.validatorAddress ∧
        (idealKeys "tbft" [honestPrevote]).address val.pubKey = forgedPrevote.validatorAddress :=
  ⟨_, _, rfl, rfl, accepted_vote_signed_by_validator (idealKeys_unforgeable _ _) rfl rfl⟩

end RpcNetwork.Tbft
