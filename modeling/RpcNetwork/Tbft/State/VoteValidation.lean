import RpcNetwork.Tbft.State.Preserved
import RpcNetwork.Tbft.State.VoteAuthenticity

/-!
# Votes and the agent's verdicts

A node prevotes or precommits a block only after `validateBlock` asked the
agent for its verdict, and `signAddVote` writes that verdict into the vote when
it names the block's hash.  A vote keeps the `VoteAgree` that `signVote` starts
it with when the verdict names another hash, and it carries whatever result the
agent gave when it names the same one.  `StateAgentImpl.ValidateBlock` logs
`sign.FastHeight` before it looks at `sign`, so a nil verdict panics.

## Design notes

The agent's `VerifyFastBlock(block, res)` is `Agent.verifyFastBlock`: the switch
argument `res` comes from state the model does not keep, and the verdict is a
function of the block.
-/

namespace RpcNetwork.Tbft

open RpcNetwork.Tbft.Types RpcNetwork.Tbft.Help

namespace ConsensusState

/-! ### What a run sends -/

/-- `cs'` follows `cs`: it sent the messages of `cs` and then only messages
satisfying `P`. -/
def SentWithin (P : ConsensusMessage → Prop) (cs cs' : ConsensusState) : Prop :=
  ∃ new, cs'.sent = cs.sent ++ new ∧ ∀ m ∈ new, P m

namespace SentWithin

variable {P : ConsensusMessage → Prop} {cs cs₁ cs' : ConsensusState}

theorem refl (cs : ConsensusState) : SentWithin P cs cs :=
  ⟨[], by simp, by simp⟩

theorem trans (h₁ : SentWithin P cs cs₁) (h₂ : SentWithin P cs₁ cs') : SentWithin P cs cs' := by
  obtain ⟨new₁, hs₁, hP₁⟩ := h₁
  obtain ⟨new₂, hs₂, hP₂⟩ := h₂
  refine ⟨new₁ ++ new₂, by rw [hs₂, hs₁, List.append_assoc], fun m hm => ?_⟩
  rcases List.mem_append.mp hm with hm | hm
  · exact hP₁ m hm
  · exact hP₂ m hm

/-- A change that sends nothing. -/
theorem of_sent_eq (hs : cs'.sent = cs.sent) : SentWithin P cs cs' :=
  ⟨[], by simp [hs], by simp⟩

end SentWithin

/-! ### Votes that follow the verdict -/

/-- A vote follows the agent's verdicts: a prevote or a precommit that is nil,
agreeing and without a verdict sign, or for the hash of a block the agent gave
a verdict on, carrying the verdict and its sign when the verdict names the
block's hash and `VoteAgree` without a sign when it names another. -/
def VoteFollowsVerdict (ag : Agent) (w : Vote) : Prop :=
  (w.type = voteTypePrevote ∨ w.type = voteTypePrecommit) ∧
    ((w.blockID.hash = [] ∧ w.result = voteAgree ∧ w.resultSign = []) ∨
      ∃ block ksign, w.blockID.hash = block.hash ∧ ag.verifyFastBlock block = some ksign ∧
        (ksign.hash = block.hash → w.result = ksign.result ∧ w.resultSign = ksign.sign) ∧
        (ksign.hash ≠ block.hash → w.result = voteAgree ∧ w.resultSign = []))

/-- A message that is a vote follows the verdicts. -/
def MsgFollowsVerdict (ag : Agent) (m : ConsensusMessage) : Prop :=
  ∀ w, m = .vote w → VoteFollowsVerdict ag w

section Signing

variable {ag : Agent} {now : ℕ} {cs cs' : ConsensusState}

/-- The vote `signVote` answers with is the one it asked for: its type, its
block and the `VoteAgree` it starts with, without a verdict sign. -/
theorem signVote_fields {typeB : UInt8} {hash : Option HexBytes} {header : PartSetHeader}
    {vote : Vote} {priv : PrivValidator}
    (h : signVote ag now typeB hash header cs = .ok (.ok vote, priv)) :
    vote.type = typeB ∧ vote.blockID = ⟨hash.getD [], header⟩ ∧ vote.result = voteAgree ∧
      vote.resultSign = [] := by
  rcases PrivValidator.signVote_cases h with ⟨-, -, hok, -⟩ | ⟨-, -, hagain⟩
  · obtain rfl := Except.ok.inj hok
    exact ⟨rfl, rfl, rfl, rfl⟩
  · obtain ⟨-, -, sig, -, rfl⟩ := hagain vote rfl
    exact ⟨rfl, rfl, rfl, rfl⟩

/-- **What `signAddVote` queues follows the verdict it is given.** -/
theorem signAddVote_sentWithin {typeB : UInt8} {hash : Option HexBytes} {header : PartSetHeader}
    {keepsign : Option KeepBlockSign} (hargs : SignArgs ag typeB hash keepsign)
    (h : signAddVote ag now typeB hash header keepsign cs = .ok cs') :
    SentWithin (MsgFollowsVerdict ag) cs cs' := by
  unfold signAddVote at h
  split at h
  · exact .of_sent_eq (Except.pure_eq_ok.mp h ▸ rfl)
  obtain ⟨⟨signed, priv⟩, hsign, h⟩ := Except.bind_eq_ok.mp h
  rcases signed with err | vote
  · exact .of_sent_eq (Except.pure_eq_ok.mp h ▸ rfl)
  obtain ⟨htype, hblock, hresult, hsign'⟩ := signVote_fields hsign
  obtain ⟨ht, ⟨rfl, rfl⟩ | ⟨block, ksign, rfl, hv, rfl⟩⟩ := hargs
  · -- a nil vote: no verdict is written into it
    obtain ⟨keepsign', hks, h⟩ := Except.bind_eq_ok.mp h
    obtain rfl := Except.pure_eq_ok.mp hks
    obtain rfl := Except.pure_eq_ok.mp h
    refine ⟨_, rfl, fun m hm w hw => ?_⟩
    simp only [List.mem_singleton] at hm
    subst hm
    cases hw
    refine ⟨htype ▸ ht, .inl ⟨?_, hresult, hsign'⟩⟩
    simp [withKeepSign, hblock]
  · -- a vote for the block: the verdict is written in when it names the block
    obtain ⟨keepsign', hks, h⟩ := Except.bind_eq_ok.mp h
    obtain rfl := Except.pure_eq_ok.mp hks
    obtain rfl := Except.pure_eq_ok.mp h
    refine ⟨_, rfl, fun m hm w hw => ?_⟩
    simp only [List.mem_singleton] at hm
    subst hm
    cases hw
    refine ⟨by simpa [withKeepSign, apply_ite Vote.type] using htype ▸ ht, .inr ⟨block, ksign, ?_, hv, ?_, ?_⟩⟩
    · simp [withKeepSign, apply_ite Vote.blockID, hblock]
    · intro heq
      simp [withKeepSign, heq]
    · intro hne
      simp [withKeepSign, Ne.symm hne, hresult, hsign']

/-- `decideProposal` queues a proposal and block parts, and no vote. -/
theorem decideProposal_sentWithin {height round : ℕ} {bparts : PartSet}
    (h : decideProposal ag now height round bparts cs = .ok cs') :
    SentWithin (MsgFollowsVerdict ag) cs cs' := by
  unfold decideProposal at h
  rcases hpol : cs.votes.polInfo with ⟨polRound, polBlockID⟩
  simp only [hpol] at h
  obtain ⟨⟨signed, priv⟩, -, h⟩ := Except.bind_eq_ok.mp h
  cases signed with
  | error err => exact .of_sent_eq (Except.pure_eq_ok.mp h ▸ rfl)
  | ok proposal =>
      obtain rfl := Except.pure_eq_ok.mp h
      refine ⟨_, rfl, fun m hm w hw => ?_⟩
      subst hw
      simp at hm

/-- **Every handler sends only votes that follow the verdicts.** -/
theorem followsVerdict_preserved (ag : Agent) : Preserved ag (SentWithin (MsgFollowsVerdict ag)) where
  refl := SentWithin.refl
  trans := SentWithin.trans
  frame _ hs := .of_sent_eq hs
  signAddVote hargs h := signAddVote_sentWithin hargs h
  decideProposal := decideProposal_sentWithin

end Signing

/-- **Every step of the receive routine**, the committee updates and the task
ticks included, sends only votes that follow the verdicts. -/
theorem receive_sentWithin {ag : Agent} {now : ℕ} {input : Input} {cs cs' : ConsensusState}
    (h : receive ag now input cs = .ok cs') : SentWithin (MsgFollowsVerdict ag) cs cs' := by
  have hP := followsVerdict_preserved ag
  -- resetting the signer sends nothing
  have hreset : ∀ {cs c : ConsensusState}, c.sent = cs.sent → SentWithin (MsgFollowsVerdict ag) cs c :=
    fun hs => .of_sent_eq hs
  unfold receive at h
  cases input with
  | msg msg peerID =>
      cases msg with
      | validatorUpdate vset uHeight eHeight => exact hP.of_validatorUpdate hreset h
      | proposal proposal => exact hP.of_handleMsg (fun _ _ _ => by simp) h
      | blockPart height round part => exact hP.of_handleMsg (fun _ _ _ => by simp) h
      | vote vote => exact hP.of_handleMsg (fun _ _ _ => by simp) h
  | timeout ti => exact hP.of_handleTimeout h
  | task agentHeight =>
      -- the task tick notes the agent's height, then syncs
      have h' := hP.of_updateStateForSync hreset (by simpa only [handleTimeoutForTask] using h)
      exact hP.trans (hreset (by rfl)) h'

/-! ### Validation and locking -/

section Validation

variable {ag : Agent} {now height round : ℕ} {cs cs' : ConsensusState}

/-- `validateBlock` answers without a panic whenever the agent gives a verdict. -/
theorem validateBlock_ok {block : Block} (hv : (ag.verifyFastBlock block).isSome) :
    ∃ r, validateBlock ag block cs = .ok r := by
  unfold validateBlock
  split
  · exact ⟨_, rfl⟩
  · obtain ⟨ksign, hk⟩ := Option.isSome_iff_exists.mp hv
    rw [hk]
    exact ⟨_, rfl⟩

/-- `cs'` holds the lock of `cs`, no lock, or a lock on a block the agent
agreed with. -/
def LocksOnAgreement (ag : Agent) (cs cs' : ConsensusState) : Prop :=
  cs'.lockedBlock = cs.lockedBlock ∨ cs'.lockedBlock = none ∨
    ∃ B ksign, cs'.lockedBlock = some B ∧ ag.verifyFastBlock B = some ksign ∧
      ksign.result = voteAgree

/-- `signAddVote` leaves the lock alone. -/
theorem signAddVote_lockedBlock {typeB : UInt8} {hash : Option HexBytes} {header : PartSetHeader}
    {keepsign : Option KeepBlockSign} (h : signAddVote ag now typeB hash header keepsign cs = .ok cs') :
    cs'.lockedBlock = cs.lockedBlock := by
  rcases signAddVote_sent h with rfl | ⟨_, _, _, ⟨_, _, rfl⟩ | ⟨_, _, _, _, rfl⟩⟩ <;> rfl

theorem precommitUnknown_lockedBlock {blockID : BlockID}
    (h : precommitUnknown ag now blockID cs = .ok cs') : cs'.lockedBlock = none := by
  unfold precommitUnknown at h
  dsimp only at h
  split at h <;> exact signAddVote_lockedBlock h

theorem relock_lockedBlock {locked : Block} {blockID : BlockID}
    (h : relock ag now round locked blockID cs = .ok cs') : cs'.lockedBlock = cs.lockedBlock := by
  unfold relock at h
  obtain ⟨v, -, h⟩ := Except.bind_eq_ok.mp h
  -- only the lock round moved
  rcases v with _ | ksign
  · have h' := signAddVote_lockedBlock h
    exact h'
  · have h' := signAddVote_lockedBlock h
    exact h'

/-- The proposal branch of `enterPrecommit` locks the proposal block on an
agreeing verdict only. -/
theorem precommitProposal_locks {blockID : BlockID}
    (h : precommitProposal ag now round blockID cs = .ok cs') : LocksOnAgreement ag cs cs' := by
  unfold precommitProposal at h
  rcases hpb : cs.proposalBlock with _ | block
  · simp only [hpb] at h
    exact .inr (.inl (precommitUnknown_lockedBlock h))
  simp only [hpb] at h
  split at h
  · obtain ⟨v, hv, h⟩ := Except.bind_eq_ok.mp h
    rcases v with _ | ksign
    · exact .inl (signAddVote_lockedBlock h)
    · dsimp only at h
      split at h
      · -- an agreeing verdict: the proposal block is locked
        rename_i hagree
        exact .inr (.inr ⟨block, ksign, signAddVote_lockedBlock h, validateBlock_eq_some ag hv, hagree⟩)
      · exact .inl (signAddVote_lockedBlock h)
  · exact .inr (.inl (precommitUnknown_lockedBlock h))

theorem doPrecommit_locks (h : doPrecommit ag now round cs = .ok cs') :
    LocksOnAgreement ag cs cs' := by
  unfold doPrecommit at h
  split at h
  · exact .inl (signAddVote_lockedBlock h)
  · split at h
    · exact absurd h Except.throw_ne_ok
    · split at h
      · -- two thirds prevoted nil: the lock is dropped
        split at h
        · exact .inr (.inl (signAddVote_lockedBlock h))
        · exact .inl (signAddVote_lockedBlock h)
      · split at h
        · split at h
          · exact .inl (relock_lockedBlock h)
          · exact precommitProposal_locks h
        · exact precommitProposal_locks h

/-- **`enterPrecommit` locks a new block only on an agreeing verdict.** -/
theorem enterPrecommit_locks_agreed (h : enterPrecommit ag now height round cs = .ok cs') :
    LocksOnAgreement ag cs cs' := by
  unfold enterPrecommit at h
  split at h
  · obtain rfl := Except.pure_eq_ok.mp h
    exact .inl rfl
  · obtain ⟨cs₁, h₁, h⟩ := Except.bind_eq_ok.mp h
    obtain rfl := Except.pure_eq_ok.mp h
    -- the deferred step update leaves the lock alone
    have h₁' := doPrecommit_locks h₁
    exact h₁'

end Validation

/-! ### Over a run -/

/-- A run sends only votes that follow the verdicts. -/
theorem sentWithin_of_run {ag : Agent} {cs₀ cs : ConsensusState}
    (hrun : Relation.ReflTransGen (Step ag) cs₀ cs) : SentWithin (MsgFollowsVerdict ag) cs₀ cs :=
  Relation.ReflTransGen.of_preorder SentWithin.refl (fun _ _ _ => SentWithin.trans)
    (fun _ _ ⟨_, _, _, h⟩ => receive_sentWithin h) hrun

/-- An agent that disagrees with every block, by a verdict that names the hash
`[9, 9]`. -/
def againstAgent : Agent :=
  { toyAgent with verifyFastBlock := fun _ => some ⟨voteAgreeAgainst, [5], [9, 9]⟩ }

/-- An agent that gives no verdict. -/
def silentAgent : Agent :=
  { toyAgent with verifyFastBlock := fun _ => none }

/-- The proposal validator `[1]` makes at time `1` for `toyBlock 1 0`. -/
def toyProposal : Proposal :=
  ⟨1, 0, 1, ⟨1, [1, 1, 0]⟩, 2 ^ 64 - 1, ⟨[], ⟨0, []⟩⟩, [1, 1, 0, 1, 0, 1, 1, 0]⟩

/-- The one part of `toyBlock 1 0`. -/
def toyPart : Part :=
  ⟨0, [1, 1, 0], ⟨1, 0, [1, 1, 0], []⟩⟩

/-- Round `0` of height `1` for validator `[1]` alone: it proposes `toyBlock 1 0`,
receives its proposal and the block's part, and prevotes. -/
def proposeAndPrevote : List (ℕ × Input) :=
  [(1, .timeout ⟨1, 0, .newHeight, 1⟩), (2, .msg (.proposal toyProposal) ""),
    (3, .msg (.blockPart 1 0 (some toyPart)) "")]

end ConsensusState

end RpcNetwork.Tbft
