import RpcNetwork.Tbft.State.ConsensusState

/-!
# What every handler preserves

The handlers of `ConsensusState` change the node's state in three ways only:
record updates that leave the signer and the outgoing messages alone,
`signAddVote`, which signs a vote and queues it, and `decideProposal`, which
signs a proposal and queues it with its block's parts.  A relation between
states that is reflexive, transitive and holds across each of the three holds
across every handler, and so across every step of the receive routine that does
not reset the signer.  The guard against double signing (`Equivocation.lean`)
and the agreement of votes with the agent's verdicts (`VoteValidation.lean`) are
two such relations.

## Design notes

Each handler is peeled with the bind lemmas of `Lib/ExceptRun.lean`.  A state
built along a handler by record updates is named with `extract_lets`, and the
relation reaches it through `Preserved.frame`.
-/

namespace RpcNetwork.Tbft

open RpcNetwork.Tbft.Types RpcNetwork.Tbft.Help

namespace ConsensusState

/-- The arguments `signAddVote` is called with: a prevote or a precommit, nil
and without a verdict, or for the hash of a block the agent gave the verdict
`keepsign` on. -/
def SignArgs (ag : Agent) (typeB : UInt8) (hash : Option HexBytes)
    (keepsign : Option KeepBlockSign) : Prop :=
  (typeB = voteTypePrevote ∨ typeB = voteTypePrecommit) ∧
    (hash = none ∧ keepsign = none ∨
      ∃ block ksign, hash = some block.hash ∧ ag.verifyFastBlock block = some ksign ∧
        keepsign = some ksign)

section SignArgs

variable {ag : Agent}

theorem signArgs_nil {typeB : UInt8} (ht : typeB = voteTypePrevote ∨ typeB = voteTypePrecommit) :
    SignArgs ag typeB none none :=
  ⟨ht, .inl ⟨rfl, rfl⟩⟩

theorem signArgs_block {typeB : UInt8} {block : Block} {ksign : KeepBlockSign}
    (ht : typeB = voteTypePrevote ∨ typeB = voteTypePrecommit)
    (hv : ag.verifyFastBlock block = some ksign) :
    SignArgs ag typeB (some block.hash) (some ksign) :=
  ⟨ht, .inr ⟨block, ksign, rfl, hv, rfl⟩⟩

end SignArgs

/-- A relation between states that holds across every record update leaving the
signer and the outgoing messages alone, across every call of `signAddVote` with
the arguments the handlers give it, and across every `decideProposal`. -/
structure Preserved (ag : Agent) (R : ConsensusState → ConsensusState → Prop) : Prop where
  refl : ∀ cs, R cs cs
  trans : ∀ {cs₁ cs₂ cs₃}, R cs₁ cs₂ → R cs₂ cs₃ → R cs₁ cs₃
  frame : ∀ {cs c}, c.state.priv = cs.state.priv → c.sent = cs.sent → R cs c
  signAddVote : ∀ {now typeB hash header keepsign cs cs'}, SignArgs ag typeB hash keepsign →
    signAddVote ag now typeB hash header keepsign cs = .ok cs' → R cs cs'
  decideProposal : ∀ {now height round bparts cs cs'},
    decideProposal ag now height round bparts cs = .ok cs' → R cs cs'

namespace Preserved

variable {ag : Agent} {R : ConsensusState → ConsensusState → Prop} {now height round : ℕ}
  {cs cs' : ConsensusState}

/-! ### Glue -/

/-- A handler that answers `pure` on its own state. -/
theorem of_pure (hR : Preserved ag R) (h : (pure cs : Except String ConsensusState) = .ok cs') :
    R cs cs' := by
  obtain rfl := Except.pure_eq_ok.mp h
  exact hR.refl cs

/-- A handler that answers `pure` on a state with the same signer and messages. -/
theorem of_pure_eq (hR : Preserved ag R) {c : ConsensusState}
    (h : (pure c : Except String ConsensusState) = .ok cs')
    (hp : c.state.priv = cs.state.priv) (hs : c.sent = cs.sent) : R cs cs' := by
  obtain rfl := Except.pure_eq_ok.mp h
  exact hR.frame hp hs

/-- A record update leaving the signer and the messages alone, followed by a
step the relation holds across. -/
theorem congr_left (hR : Preserved ag R) {c : ConsensusState} (h : R c cs')
    (hp : c.state.priv = cs.state.priv) (hs : c.sent = cs.sent) : R cs cs' :=
  hR.trans (hR.frame hp hs) h

/-! ### Prevote -/

theorem of_doPrevote (hR : Preserved ag R) (h : doPrevote ag now cs = .ok cs') : R cs cs' := by
  unfold doPrevote at h
  split at h
  · -- the locked block, when the agent gives a verdict on it
    obtain ⟨v, hv, h⟩ := Except.bind_eq_ok.mp h
    rcases v with _ | ksign
    · exact hR.signAddVote (signArgs_nil (.inl rfl)) h
    · exact hR.signAddVote (signArgs_block (.inl rfl) (validateBlock_eq_some ag hv)) h
  · split at h
    · exact hR.signAddVote (signArgs_nil (.inl rfl)) h
    · -- the proposal block, when the agent gives a verdict on it
      obtain ⟨v, hv, h⟩ := Except.bind_eq_ok.mp h
      rcases v with _ | ksign
      · exact hR.signAddVote (signArgs_nil (.inl rfl)) h
      · exact hR.signAddVote (signArgs_block (.inl rfl) (validateBlock_eq_some ag hv)) h

theorem of_enterPrevote (hR : Preserved ag R) (h : enterPrevote ag now height round cs = .ok cs') :
    R cs cs' := by
  unfold enterPrevote at h
  split at h
  · exact hR.of_pure h
  · obtain ⟨cs₁, h₁, h⟩ := Except.bind_eq_ok.mp h
    exact hR.trans (hR.of_doPrevote h₁) (hR.of_pure_eq h rfl rfl)

theorem of_enterPrevoteWait (hR : Preserved ag R) (h : enterPrevoteWait height round cs = .ok cs') :
    R cs cs' := by
  unfold enterPrevoteWait at h
  split at h
  · exact hR.of_pure h
  · split at h
    · exact absurd h Except.throw_ne_ok
    · exact hR.of_pure_eq h rfl rfl

/-! ### Precommit -/

theorem of_relock (hR : Preserved ag R) {locked : Block} {blockID : BlockID}
    (he : locked.hash = blockID.hash) (h : relock ag now round locked blockID cs = .ok cs') :
    R cs cs' := by
  unfold relock at h
  obtain ⟨v, hv, h⟩ := Except.bind_eq_ok.mp h
  rcases v with _ | ksign
  · exact hR.congr_left (hR.signAddVote (signArgs_nil (.inr rfl)) h) rfl rfl
  · -- the locked block is the one two thirds prevoted
    rw [← he] at h
    exact hR.congr_left
      (hR.signAddVote (signArgs_block (.inr rfl) (validateBlock_eq_some ag hv)) h) rfl rfl

theorem of_precommitUnknown (hR : Preserved ag R) {blockID : BlockID}
    (h : precommitUnknown ag now blockID cs = .ok cs') : R cs cs' := by
  unfold precommitUnknown at h
  dsimp only at h
  split at h <;> exact hR.congr_left (hR.signAddVote (signArgs_nil (.inr rfl)) h) rfl rfl

theorem of_precommitProposal (hR : Preserved ag R) {blockID : BlockID}
    (h : precommitProposal ag now round blockID cs = .ok cs') : R cs cs' := by
  unfold precommitProposal at h
  dsimp only at h
  split at h
  · rename_i block _
    split at h
    · rename_i he
      obtain ⟨v, hv, h⟩ := Except.bind_eq_ok.mp h
      rcases v with _ | ksign
      · exact hR.signAddVote (signArgs_nil (.inr rfl)) h
      · -- the proposal block is the one two thirds prevoted; it is locked on an
        -- agreeing verdict, which changes neither the signer nor the messages
        dsimp only at h
        rw [← equalHashes_eq he] at h
        have hargs := signArgs_block (.inr rfl) (validateBlock_eq_some ag hv)
        split at h <;> exact hR.congr_left (hR.signAddVote hargs h) rfl rfl
    · exact hR.of_precommitUnknown h
  · exact hR.of_precommitUnknown h

theorem of_doPrecommit (hR : Preserved ag R) (h : doPrecommit ag now round cs = .ok cs') :
    R cs cs' := by
  unfold doPrecommit at h
  split at h
  · exact hR.signAddVote (signArgs_nil (.inr rfl)) h
  · split at h
    · exact absurd h Except.throw_ne_ok
    · split at h
      · -- two thirds prevoted nil
        split at h <;> exact hR.congr_left (hR.signAddVote (signArgs_nil (.inr rfl)) h) rfl rfl
      · split at h
        · split at h
          · exact hR.of_relock (equalHashes_eq ‹_›) h
          · exact hR.of_precommitProposal h
        · exact hR.of_precommitProposal h

theorem of_enterPrecommit (hR : Preserved ag R) (h : enterPrecommit ag now height round cs = .ok cs') :
    R cs cs' := by
  unfold enterPrecommit at h
  split at h
  · exact hR.of_pure h
  · obtain ⟨cs₁, h₁, h⟩ := Except.bind_eq_ok.mp h
    exact hR.trans (hR.of_doPrecommit h₁) (hR.of_pure_eq h rfl rfl)

theorem of_enterPrecommitWait (hR : Preserved ag R)
    (h : enterPrecommitWait height round cs = .ok cs') : R cs cs' := by
  unfold enterPrecommitWait at h
  split at h
  · exact hR.of_pure h
  · split at h
    · exact absurd h Except.throw_ne_ok
    · exact hR.of_pure_eq h rfl rfl

/-! ### Propose and new round -/

theorem of_finishPropose (hR : Preserved ag R) (h : finishPropose ag now height round cs = .ok cs') :
    R cs cs' := by
  unfold finishPropose at h
  dsimp only at h
  split at h
  · exact hR.congr_left (hR.of_enterPrevote h) rfl rfl
  · exact hR.of_pure_eq h rfl rfl

theorem of_enterPropose (hR : Preserved ag R) {bparts : PartSet}
    (h : enterPropose ag now height round bparts cs = .ok cs') : R cs cs' := by
  unfold enterPropose at h
  split at h
  · exact hR.of_pure h
  · obtain ⟨cs₁, h₁, h⟩ := Except.bind_eq_ok.mp h
    -- only the proposer signs, and the timeout it schedules changes neither
    -- the signer nor the messages
    have h₁' : R (scheduleTimeout height round .propose cs) cs₁ := by
      split at h₁
      · exact hR.decideProposal h₁
      · exact hR.of_pure h₁
    exact hR.trans (hR.congr_left h₁' rfl rfl) (hR.of_finishPropose h)

theorem of_tryEnterProposal (hR : Preserved ag R) {wait : ℕ}
    (h : tryEnterProposal ag now height round wait cs = .ok cs') : R cs cs' := by
  unfold tryEnterProposal at h
  split at h
  · exact hR.of_pure h
  · obtain ⟨made, -, h⟩ := Except.bind_eq_ok.mp h
    split at h
    · split at h
      · split at h
        · exact hR.of_pure_eq h rfl rfl
        · exact hR.of_enterPropose h
      · exact hR.congr_left (hR.of_finishPropose h) rfl rfl
    · exact hR.congr_left (hR.of_finishPropose h) rfl rfl

theorem of_enterNewRound (hR : Preserved ag R) (h : enterNewRound ag now height round cs = .ok cs') :
    R cs cs' := by
  unfold enterNewRound at h
  dsimp only at h
  split at h
  · exact hR.of_pure h
  · obtain ⟨votes, -, h⟩ := Except.bind_eq_ok.mp h
    split at h <;> exact hR.congr_left (hR.of_tryEnterProposal h) rfl rfl

/-! ### Commit -/

theorem of_updateToState (hR : Preserved ag R) (h : updateToState ag cs = .ok cs') : R cs cs' := by
  unfold updateToState at h
  obtain ⟨lastPrecommits, -, h⟩ := Except.bind_eq_ok.mp h
  obtain ⟨votes, -, h⟩ := Except.bind_eq_ok.mp h
  exact hR.of_pure_eq h rfl rfl

theorem of_finalizeCommit (hR : Preserved ag R) (h : finalizeCommit ag height cs = .ok cs') :
    R cs cs' := by
  unfold finalizeCommit at h
  split at h
  · exact hR.of_pure h
  · obtain ⟨block, -, h⟩ := Except.bind_eq_ok.mp h
    obtain ⟨signs, -, h⟩ := Except.bind_eq_ok.mp h
    obtain ⟨-, h⟩ := Except.ite_throw_eq_ok.mp h
    obtain ⟨-, h⟩ := Except.ite_throw_eq_ok.mp h
    rcases signs with err | signs
    · exact absurd h Except.throw_ne_ok
    obtain ⟨-, h⟩ := Except.ite_throw_eq_ok.mp h
    obtain ⟨cs₁, h₁, h⟩ := Except.bind_eq_ok.mp h
    -- `swithResult` and the commit itself touch neither the signer nor the queue
    have hsw : (swithResult ag block cs).state.priv = cs.state.priv ∧
        (swithResult ag block cs).sent = cs.sent := by
      unfold swithResult
      split_ifs <;> exact ⟨rfl, rfl⟩
    exact hR.trans (hR.congr_left (hR.of_updateToState h₁) hsw.1 hsw.2) (hR.of_pure_eq h rfl rfl)

theorem of_tryFinalizeCommit (hR : Preserved ag R) (h : tryFinalizeCommit ag height cs = .ok cs') :
    R cs cs' := by
  unfold tryFinalizeCommit at h
  split at h
  · exact absurd h Except.throw_ne_ok
  · dsimp only at h
    split at h
    · exact hR.of_pure h
    split at h
    · exact hR.of_pure h
    exact hR.of_finalizeCommit h

theorem of_enterCommit (hR : Preserved ag R) {commitRound : ℕ}
    (h : enterCommit ag height commitRound cs = .ok cs') : R cs cs' := by
  unfold enterCommit at h
  split at h
  · exact hR.of_pure h
  · dsimp only at h
    split at h
    · exact absurd h Except.throw_ne_ok
    -- the proposal block is taken from the lock, or dropped for the committed one
    split at h <;> split at h <;> (try split at h) <;>
      exact hR.congr_left (hR.of_tryFinalizeCommit h) rfl rfl

/-! ### Messages -/

theorem of_setProposal (hR : Preserved ag R) {proposal : Proposal}
    (h : setProposal ag proposal cs = .ok cs') : R cs cs' := by
  unfold setProposal at h
  split at h
  · exact hR.of_pure h
  split at h
  · exact hR.of_pure h
  split at h
  · exact hR.of_pure h
  split at h
  · exact hR.of_pure h
  split at h
  · exact absurd h Except.throw_ne_ok
  split at h
  · exact hR.of_pure h
  · exact hR.of_pure_eq h rfl rfl

theorem of_addProposalBlockPart (hR : Preserved ag R) {round' : ℕ} {part : Option Part}
    (h : addProposalBlockPart ag now height round' part cs = .ok cs') : R cs cs' := by
  unfold addProposalBlockPart at h
  split at h
  · exact hR.of_pure h
  split at h
  · exact absurd h Except.throw_ne_ok
  · exact hR.of_pure h
  split at h
  extract_lets c₁ c₂ at h
  rcases Except.ite_eq_ok.mp h with ⟨-, h⟩ | ⟨-, h⟩
  · exact hR.of_pure_eq h rfl rfl
  split at h
  · exact hR.of_pure_eq h rfl rfl
  split at h
  extract_lets c₃ at h
  -- the valid block is all that moved
  have hc₃ : R cs c₃ := hR.frame (by simp only [c₃]; split <;> rfl) (by simp only [c₃]; split <;> rfl)
  clear_value c₃
  refine hR.trans hc₃ ?_
  split at h
  · exact hR.of_enterPrevote h
  split at h
  · exact hR.of_tryFinalizeCommit h
  · exact hR.of_pure h

theorem of_onPrevote (hR : Preserved ag R) {vote : Vote}
    (h : onPrevote ag now height vote cs = .ok cs') : R cs cs' := by
  unfold onPrevote at h
  extract_lets prevotes c at h
  -- the polka moves the lock and the valid block only
  have hc : R cs c := hR.frame (by simp only [c]; grind [unlock]) (by simp only [c]; grind [unlock])
  clear_value c
  refine hR.trans hc ?_
  split at h
  · obtain ⟨c₁, h₁, h⟩ := Except.bind_eq_ok.mp h
    refine hR.trans (hR.of_enterNewRound h₁) ?_
    split at h
    · exact hR.of_enterPrecommit h
    · obtain ⟨c₂, h₂, h⟩ := Except.bind_eq_ok.mp h
      exact hR.trans (hR.of_enterPrevote h₂) (hR.of_enterPrevoteWait h)
  · split at h
    · split at h
      · exact hR.of_enterPrevote h
      · exact hR.of_pure h
    · exact hR.of_pure h

theorem of_onPrecommit (hR : Preserved ag R) {vote : Vote}
    (h : onPrecommit ag now height vote cs = .ok cs') : R cs cs' := by
  unfold onPrecommit at h
  split at h
  · exact absurd h Except.throw_ne_ok
  · split at h
    · -- two thirds precommitted one thing
      split at h
      · exact hR.of_enterNewRound h
      · obtain ⟨c₁, h₁, h⟩ := Except.bind_eq_ok.mp h
        obtain ⟨c₂, h₂, h⟩ := Except.bind_eq_ok.mp h
        obtain ⟨c₃, h₃, h⟩ := Except.bind_eq_ok.mp h
        have h₃' : R cs c₃ :=
          hR.trans (hR.trans (hR.of_enterNewRound h₁) (hR.of_enterPrecommit h₂)) (hR.of_enterCommit h₃)
        split at h
        · exact hR.trans h₃' (hR.of_enterNewRound h)
        · exact hR.trans h₃' (hR.of_pure h)
    · split at h
      · exact hR.of_enterNewRound h
      · split at h
        · obtain ⟨c₁, h₁, h⟩ := Except.bind_eq_ok.mp h
          obtain ⟨c₂, h₂, h⟩ := Except.bind_eq_ok.mp h
          exact hR.trans (hR.trans (hR.of_enterNewRound h₁) (hR.of_enterPrecommit h₂))
            (hR.of_enterPrecommitWait h)
        · exact hR.of_pure h

theorem of_addVote (hR : Preserved ag R) {vote : Vote} {peerID : P2PID}
    (h : addVote ag now vote peerID cs = .ok cs') : R cs cs' := by
  unfold addVote at h
  split at h
  · -- a precommit of the last height
    split at h
    · exact hR.of_pure h
    · split at h
      · exact hR.of_pure h
      · obtain ⟨⟨⟨added, err⟩, lastCommit⟩, -, h⟩ := Except.bind_eq_ok.mp h
        dsimp only at h
        split at h
        · exact hR.of_pure_eq h rfl rfl
        · split at h
          · exact hR.congr_left (hR.of_enterNewRound h) rfl rfl
          · exact hR.of_pure_eq h rfl rfl
  · split at h
    · exact hR.of_pure h
    · obtain ⟨⟨⟨added, err⟩, votes⟩, -, h⟩ := Except.bind_eq_ok.mp h
      dsimp only at h
      split at h
      · exact hR.of_pure_eq h rfl rfl
      · split at h
        · exact hR.congr_left (hR.of_onPrevote h) rfl rfl
        · split at h
          · exact hR.congr_left (hR.of_onPrecommit h) rfl rfl
          · exact absurd h Except.throw_ne_ok

/-! ### The receive routine -/

/-- Every message but a committee update. -/
theorem of_handleMsg (hR : Preserved ag R) {msg : ConsensusMessage} {peerID : P2PID}
    (hmsg : ∀ vset uHeight eHeight, msg ≠ .validatorUpdate vset uHeight eHeight)
    (h : handleMsg ag now msg peerID cs = .ok cs') : R cs cs' := by
  unfold handleMsg at h
  cases msg with
  | proposal proposal => exact hR.of_setProposal h
  | blockPart height round part => exact hR.of_addProposalBlockPart h
  | vote vote => exact hR.of_addVote h
  | validatorUpdate vset uHeight eHeight => exact absurd rfl (hmsg vset uHeight eHeight)

theorem of_handleTimeout (hR : Preserved ag R) {ti : TimeoutInfo}
    (h : handleTimeout ag now ti cs = .ok cs') : R cs cs' := by
  unfold handleTimeout at h
  split at h
  · exact hR.of_pure h
  · split at h
    · exact hR.of_enterNewRound h
    · exact hR.of_tryEnterProposal h
    · exact hR.of_enterPrevote h
    · exact hR.of_enterPrecommit h
    · exact hR.of_enterNewRound h
    · exact absurd h Except.throw_ne_ok

/-! ### The handlers that reset the signer -/

theorem of_validatorUpdate (hR : Preserved ag R)
    (hreset : ∀ {cs c : ConsensusState}, c.sent = cs.sent → R cs c) {vset : ValidatorSet}
    {uHeight eHeight : ℕ} (h : validatorUpdate ag now vset uHeight eHeight cs = .ok cs') :
    R cs cs' := by
  unfold validatorUpdate at h
  obtain ⟨cs₁, h₁, h⟩ := Except.bind_eq_ok.mp h
  have h₁' := hR.of_updateToState h₁
  have h' := hR.of_enterNewRound h
  -- the new committee, the reset signer and the new heights send nothing
  exact hR.trans (hR.trans (hreset (by rfl)) h₁') (hR.trans (hreset (by rfl)) h')

theorem of_updateStateForSync (hR : Preserved ag R)
    (hreset : ∀ {cs c : ConsensusState}, c.sent = cs.sent → R cs c)
    (h : updateStateForSync ag cs = .ok cs') : R cs cs' := by
  unfold updateStateForSync at h
  split at h
  · obtain ⟨cs₁, h₁, h⟩ := Except.bind_eq_ok.mp h
    obtain rfl := Except.pure_eq_ok.mp h
    exact hR.trans (hR.of_updateToState h₁) (hreset (by rfl))
  · exact hR.of_pure h

end Preserved

end ConsensusState

end RpcNetwork.Tbft
