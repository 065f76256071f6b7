import RpcNetwork.Tbft.State.Preserved
import RpcNetwork.Tbft.State.VoteAuthenticity
import RpcNetwork.Tbft.State.VoteValidation

/-!
# One signature per height, round and step

The signer of a node refuses to sign below the last height, round and step it
signed at, and at that very point only repeats itself (`signVote_guarded`).
The handlers of the consensus state reach the signer through `signAddVote` and
`decideProposal` only, so every handler keeps that guard (`Preserved.lean`),
and over any run in which the signer is not reset the votes and proposals the
node sends hold one signed message per point.  `validatorUpdate` and a task
tick that finds the agent's chain moved reset the signer.
-/

namespace RpcNetwork.Tbft

open RpcNetwork.Tbft.Types RpcNetwork.Tbft.Help

namespace ConsensusState

/-! ### What the node signs -/

/-- The point, sign bytes and signature of each vote and proposal among `msgs`. -/
def signedEntries (chainID : String) (msgs : List ConsensusMessage) :
    List (HRS × (SignBytes × HexBytes)) :=
  msgs.filterMap fun
    | .vote v => some (hrs v.height v.round (stepOf v.type), (v.signBytes chainID, v.signature))
    | .proposal p => some (hrs p.height p.round stepPropose, (p.signBytes chainID, p.signature))
    | _ => none

@[simp] theorem signedEntries_nil (chainID : String) : signedEntries chainID [] = [] := rfl

@[simp] theorem signedEntries_append (chainID : String) (a b : List ConsensusMessage) :
    signedEntries chainID (a ++ b) = signedEntries chainID a ++ signedEntries chainID b :=
  List.filterMap_append

/-- `cs'` follows `cs`: it sent the messages of `cs` and then `new`, and any log
the signer of `cs` guards stays guarded by the signer of `cs'` with what `new`
signs. -/
def KeepsGuard (chainID : String) (cs cs' : ConsensusState) : Prop :=
  ∃ new, cs'.sent = cs.sent ++ new ∧
    ∀ log, SignGuard.Guarded cs.state.priv.lastPoint cs.state.priv.lastMsg log →
      SignGuard.Guarded cs'.state.priv.lastPoint cs'.state.priv.lastMsg
        (log ++ signedEntries chainID new)

namespace KeepsGuard

variable {chainID : String} {cs cs₁ cs' : ConsensusState}

theorem refl (cs : ConsensusState) : KeepsGuard chainID cs cs :=
  ⟨[], by simp, fun log h => by simpa using h⟩

theorem trans (h₁ : KeepsGuard chainID cs cs₁) (h₂ : KeepsGuard chainID cs₁ cs') :
    KeepsGuard chainID cs cs' := by
  obtain ⟨new₁, hs₁, hg₁⟩ := h₁
  obtain ⟨new₂, hs₂, hg₂⟩ := h₂
  refine ⟨new₁ ++ new₂, by rw [hs₂, hs₁, List.append_assoc], fun log h => ?_⟩
  rw [signedEntries_append, ← List.append_assoc]
  exact hg₂ _ (hg₁ _ h)

/-- A change that leaves the signer and the sent messages alone. -/
theorem of_eq (hp : cs'.state.priv = cs.state.priv) (hs : cs'.sent = cs.sent) :
    KeepsGuard chainID cs cs' :=
  ⟨[], by simp [hs], fun log h => by simpa [hp] using h⟩

end KeepsGuard

/-! ### The two places that sign -/

section Signing

variable {ag : Agent} {now : ℕ} {cs cs' : ConsensusState}

/-- **`signAddVote` keeps the guard.** -/
theorem signAddVote_keepsGuard {typeB : UInt8} {hash : Option HexBytes} {header : PartSetHeader}
    {keepsign : Option KeepBlockSign} (h : signAddVote ag now typeB hash header keepsign cs = .ok cs') :
    KeepsGuard ag.chainID cs cs' := by
  rcases signAddVote_sent h with rfl | ⟨signed, priv, hsign, ⟨err, rfl, rfl⟩ | ⟨vote, result, resultSign, rfl, rfl⟩⟩
  · exact .refl _
  · -- a refusal leaves the signer as it was
    exact .of_eq (PrivValidator.signVote_refused hsign) rfl
  · refine ⟨_, rfl, fun log hG => ?_⟩
    obtain ⟨sig, rfl, hG'⟩ := PrivValidator.signVote_guarded hG hsign
    simpa [signedEntries, Vote.signBytes, canonicalVote] using hG'

/-- **`decideProposal` keeps the guard**: it signs one proposal, and the block
parts it queues are not signed. -/
theorem decideProposal_keepsGuard {height round : ℕ} {bparts : PartSet}
    (h : decideProposal ag now height round bparts cs = .ok cs') : KeepsGuard ag.chainID cs cs' := by
  unfold decideProposal at h
  rcases hpol : cs.votes.polInfo with ⟨polRound, polBlockID⟩
  simp only [hpol] at h
  obtain ⟨⟨signed, priv⟩, hsign, h⟩ := Except.bind_eq_ok.mp h
  cases signed with
  | error err =>
      obtain rfl := Except.pure_eq_ok.mp h
      exact .of_eq (PrivValidator.signProposal_refused hsign) rfl
  | ok proposal =>
      obtain rfl := Except.pure_eq_ok.mp h
      refine ⟨_, rfl, fun log hG => ?_⟩
      obtain ⟨sig, rfl, hG'⟩ := PrivValidator.signProposal_guarded hG hsign
      -- the block parts sign nothing
      have hparts : ∀ parts : List (Option Part),
          signedEntries ag.chainID (parts.map (.blockPart cs.height cs.round)) = [] := by
        intro parts
        simp [signedEntries]
      simpa [signedEntries, hparts, Proposal.signBytes, canonicalProposal] using hG'

end Signing

/-- **Every handler keeps the guard.** -/
theorem keepsGuard_preserved (ag : Agent) : Preserved ag (KeepsGuard ag.chainID) where
  refl := KeepsGuard.refl
  trans := KeepsGuard.trans
  frame := KeepsGuard.of_eq
  signAddVote _ h := signAddVote_keepsGuard h
  decideProposal := decideProposal_keepsGuard

/-! ### Runs without a reset -/

/-- Whether an input resets the signer: a committee update, and a task tick
that finds the agent's chain at another height than the one below the node's. -/
def Input.resets (cs : ConsensusState) : Input → Bool
  | .msg (.validatorUpdate _ _ _) _ => true
  | .msg _ _ => false
  | .timeout _ => false
  | .task agentHeight => cs.height != agentHeight + 1

/-- One step of the receive routine on an input that does not reset the
signer. -/
def StepWithoutReset (ag : Agent) (cs cs' : ConsensusState) : Prop :=
  ∃ now input, input.Enabled cs ∧ input.resets cs = false ∧ receive ag now input cs = .ok cs'

section Runs

variable {ag : Agent} {cs cs' : ConsensusState}

/-- **A step that does not reset the signer keeps the guard.** -/
theorem receive_keepsGuard {now : ℕ} {input : Input} (hr : input.resets cs = false)
    (h : receive ag now input cs = .ok cs') : KeepsGuard ag.chainID cs cs' := by
  have hP := keepsGuard_preserved ag
  cases input with
  | msg msg peerID =>
      refine hP.of_handleMsg (fun vset uHeight eHeight hmsg => ?_) h
      subst hmsg
      simp [Input.resets] at hr
  | timeout ti => exact hP.of_handleTimeout h
  | task agentHeight =>
      -- the agent's chain is still below the node: only its height is noted
      simp only [receive, handleTimeoutForTask, updateStateForSync] at h
      simp only [Input.resets, bne_eq_false_iff_eq] at hr
      rw [if_neg (by simpa using hr)] at h
      exact hP.of_pure_eq h rfl rfl

/-- **A run without a reset keeps the guard.** -/
theorem keepsGuard_of_run (hrun : Relation.ReflTransGen (StepWithoutReset ag) cs cs') :
    KeepsGuard ag.chainID cs cs' :=
  Relation.ReflTransGen.of_preorder KeepsGuard.refl (fun _ _ _ => KeepsGuard.trans)
    (fun _ _ ⟨_, _, _, hr, h⟩ => receive_keepsGuard hr h) hrun

/-- A vote or proposal among `msgs` has its entry among the entries of `msgs`. -/
theorem mem_signedEntries_of_vote {chainID : String} {msgs : List ConsensusMessage} {v : Vote}
    (hv : .vote v ∈ msgs) :
    (hrs v.height v.round (stepOf v.type), (v.signBytes chainID, v.signature)) ∈
      signedEntries chainID msgs :=
  List.mem_filterMap.mpr ⟨_, hv, rfl⟩

theorem mem_signedEntries_of_proposal {chainID : String} {msgs : List ConsensusMessage}
    {p : Proposal} (hp : .proposal p ∈ msgs) :
    (hrs p.height p.round stepPropose, (p.signBytes chainID, p.signature)) ∈
      signedEntries chainID msgs :=
  List.mem_filterMap.mpr ⟨_, hp, rfl⟩

/-- **One signature per point.**  Over a run in which the signer is not reset,
two votes the node sends of one height, round and type carry the same sign
bytes and signature, and so do two proposals of one height and round. -/
theorem one_signature_per_point (hrun : Relation.ReflTransGen (StepWithoutReset ag) cs cs') :
    ∃ new, cs'.sent = cs.sent ++ new ∧
      (∀ v w, .vote v ∈ new → .vote w ∈ new → v.height = w.height → v.round = w.round →
        v.type = w.type →
          v.signBytes ag.chainID = w.signBytes ag.chainID ∧ v.signature = w.signature) ∧
      (∀ p q, .proposal p ∈ new → .proposal q ∈ new → p.height = q.height →
        p.round = q.round →
          p.signBytes ag.chainID = q.signBytes ag.chainID ∧ p.signature = q.signature) := by
  obtain ⟨new, hsent, hG⟩ := keepsGuard_of_run hrun
  -- the entries of what the run sent form a guarded log, with one entry per point
  have hU := (hG [] (SignGuard.guarded_nil _ _)).unique
  simp only [List.nil_append] at hU
  refine ⟨new, hsent, fun v w hv hw hh hr ht => ?_, fun p q hp hq hh hr => ?_⟩
  · have := hU _ (mem_signedEntries_of_vote hv) _ (mem_signedEntries_of_vote hw) (by simp [hh, hr, ht])
    simpa using this
  · have := hU _ (mem_signedEntries_of_proposal hp) _ (mem_signedEntries_of_proposal hq)
      (by simp [hh, hr])
    simpa using this

end Runs

section Reset

/-! ### A validator update resets the signer

`validatorUpdate` at the node's own height and round `0` clears the round state
and calls `PrivReset`, which zeroes the signer's last height, round and step,
and then enters round `0` again.  The signer's guard no longer remembers what
it signed there, so the node proposes and prevotes a second time. -/

/-- The proposal validator `[1]` signs again, at time `4`, after the update. -/
def reproposal : Proposal :=
  ⟨1, 0, 4, ⟨1, [1, 1, 0]⟩, 2 ^ 64 - 1, ⟨[], ⟨0, []⟩⟩, [1, 1, 0, 4, 0, 1, 1, 0]⟩

/-- `proposeAndPrevote`, then a validator update to the same committee with
begin and end height `0`, the node's new proposal, and the block's part again.
The agent's chain stays at height `0`, so the node stays at height `1`. -/
def updateAndPrevoteAgain : List (ℕ × Input) :=
  proposeAndPrevote ++ [(4, .msg (.validatorUpdate toyValidators 0 0) ""),
    (5, .msg (.proposal reproposal) ""), (6, .msg (.blockPart 1 0 (some toyPart)) "")]

/-- The prevote of validator `[1]` for `toyBlock 1 0` at round `0` of height `1`. -/
def prevoteAt (timestamp : ℕ) : Vote :=
  ⟨[1], 0, 1, 0, voteAgree, timestamp, voteTypePrevote, ⟨[1, 0], ⟨1, [1, 1, 0]⟩⟩,
    [1, 1, 0, timestamp.toUInt8, 1, 1, 0], [0]⟩

/-- **A validator update lets the node equivocate.**  Contrary to
`one_signature_per_point`, whose runs do not reset the signer, the node sends
two proposals and two prevotes for round `0` of height `1` with different sign
bytes. -/
theorem validator_update_equivocates :
    ∃ cs₀ cs, newConsensusState toyAgent toyStateAgent none = .ok cs₀ ∧
      run toyAgent updateAndPrevoteAgain cs₀ = .ok cs ∧
      (∃ p q, .proposal p ∈ cs.sent ∧ .proposal q ∈ cs.sent ∧ p.height = q.height ∧
        p.round = q.round ∧ p.signBytes toyAgent.chainID ≠ q.signBytes toyAgent.chainID) ∧
      (∃ v w, .vote v ∈ cs.sent ∧ .vote w ∈ cs.sent ∧ v.height = w.height ∧ v.round = w.round ∧
        v.type = w.type ∧ v.signBytes toyAgent.chainID ≠ w.signBytes toyAgent.chainID) := by
  refine ⟨_, _, rfl, rfl, ⟨toyProposal, reproposal, ?_, ?_, rfl, rfl, by decide⟩,
    ⟨prevoteAt 3, prevoteAt 6, ?_, ?_, rfl, rfl, rfl, by decide⟩⟩ <;> decide

end Reset

end ConsensusState

end RpcNetwork.Tbft
