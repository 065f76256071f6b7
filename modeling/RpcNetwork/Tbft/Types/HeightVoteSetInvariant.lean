import RpcNetwork.Tbft.Types.HeightVoteSet
import RpcNetwork.Tbft.Types.VoteSetInvariant

/-!
# The bookkeeping of the vote sets of one height

`HeightVoteSet` documents its own promise: it keeps the vote sets of every
round from 0 to `round`, and beyond `round` only the catch-up rounds that peers
opened, at most two per peer.  This module proves the promise over every run
that `Reset` starts and that goes on with `SetRound` to a round above the
current one (as `enterNewRound` calls it with `round + 1`), `AddVote` from any
peer for any round, and `SetPeerMaj23`.
-/

namespace RpcNetwork.Tbft.Types

/-! ### The abstract bookkeeping -/

/-- What the promise of `HeightVoteSet` reads: the height, the round, which
rounds hold vote sets, and the catch-up rounds of each peer. -/
@[ext] structure Bookkeeping where
  height : ℕ
  round : ℕ
  held : ℕ → Bool
  catchup : P2PID → List ℕ

namespace Bookkeeping

/-- The rounds `p` selects are held as well. -/
def hold (b : Bookkeeping) (p : ℕ → Bool) : Bookkeeping :=
  ⟨b.height, b.round, fun r => b.held r || p r, b.catchup⟩

/-- `SetRound(round)`: every round up to `round` is held. -/
def advance (b : Bookkeeping) (round : ℕ) : Bookkeeping :=
  ⟨b.height, round, fun r => b.held r || decide (b.round < r ∧ r ≤ round), b.catchup⟩

/-- A catch-up vote of `peerID` opens round `r` and is charged to the peer. -/
def openCatchup (b : Bookkeeping) (r : ℕ) (peerID : P2PID) : Bookkeeping :=
  ⟨b.height, b.round, Function.update b.held r true,
    Function.update b.catchup peerID (b.catchup peerID ++ [r])⟩

@[simp] theorem hold_height (b : Bookkeeping) (p : ℕ → Bool) : (b.hold p).height = b.height := rfl
@[simp] theorem hold_round (b : Bookkeeping) (p : ℕ → Bool) : (b.hold p).round = b.round := rfl
@[simp] theorem hold_held (b : Bookkeeping) (p : ℕ → Bool) (r : ℕ) :
    (b.hold p).held r = (b.held r || p r) := rfl
@[simp] theorem hold_catchup (b : Bookkeeping) (p : ℕ → Bool) : (b.hold p).catchup = b.catchup := rfl

@[simp] theorem advance_height (b : Bookkeeping) (round : ℕ) :
    (b.advance round).height = b.height := rfl
@[simp] theorem advance_round (b : Bookkeeping) (round : ℕ) : (b.advance round).round = round := rfl
@[simp] theorem advance_catchup (b : Bookkeeping) (round : ℕ) :
    (b.advance round).catchup = b.catchup := rfl
@[simp] theorem openCatchup_height (b : Bookkeeping) (r : ℕ) (peerID : P2PID) :
    (b.openCatchup r peerID).height = b.height := rfl
@[simp] theorem openCatchup_round (b : Bookkeeping) (r : ℕ) (peerID : P2PID) :
    (b.openCatchup r peerID).round = b.round := rfl

theorem hold_hold (b : Bookkeeping) (p q : ℕ → Bool) :
    (b.hold p).hold q = b.hold fun r => p r || q r := by
  ext r <;> simp [hold, Bool.or_assoc]

/-- Holding rounds that are held changes nothing. -/
theorem hold_of_held {b : Bookkeeping} {p : ℕ → Bool} (h : ∀ r, p r = true → b.held r = true) :
    b.hold p = b := by
  ext r <;> try rfl
  show (b.held r || p r) = b.held r
  cases hp : p r
  · simp
  · simp [h r hp]

/-- The promise: the height is positive (so new vote sets can be made), rounds
`0..round` are held, a held round above `round` is some peer's catch-up round,
and no peer has more than two. -/
structure Inv (b : Bookkeeping) : Prop where
  height_pos : 0 < b.height
  opened : ∀ r ≤ b.round, b.held r = true
  catchup_mem : ∀ r, b.round < r → b.held r = true → ∃ p, r ∈ b.catchup p
  budget : ∀ p, (b.catchup p).length ≤ 2

variable {b : Bookkeeping}

theorem Inv.advance (hi : Inv b) {round : ℕ} (hr : b.round < round) : Inv (b.advance round) := by
  refine ⟨hi.height_pos, ?_, ?_, hi.budget⟩
  · intro r hle
    show (b.held r || decide (b.round < r ∧ r ≤ round)) = true
    by_cases hlo : r ≤ b.round
    · rw [hi.opened r hlo, Bool.true_or]
    · simp only [Bool.or_eq_true, decide_eq_true_eq]
      exact .inr ⟨by omega, hle⟩
  · intro r hlt hheld
    -- a round above the new round was held before the call
    have hold : b.held r = true := by
      have : (b.held r || decide (b.round < r ∧ r ≤ round)) = true := hheld
      simp only [Bool.or_eq_true, decide_eq_true_eq] at this
      rcases this with h | ⟨-, hle⟩
      · exact h
      · exact absurd hle (Nat.not_le_of_lt hlt)
    exact hi.catchup_mem r (lt_trans hr hlt) hold

theorem Inv.openCatchup (hi : Inv b) {r : ℕ} {peerID : P2PID}
    (hlen : (b.catchup peerID).length < 2) : Inv (b.openCatchup r peerID) := by
  -- the catch-up lists only grow
  have hgrow : ∀ p s, s ∈ b.catchup p → s ∈ (b.openCatchup r peerID).catchup p := by
    intro p s hs
    show s ∈ Function.update b.catchup peerID (b.catchup peerID ++ [r]) p
    by_cases hp : p = peerID
    · subst hp
      simp [hs]
    · rwa [Function.update_of_ne hp]
  refine ⟨hi.height_pos, ?_, ?_, ?_⟩
  · intro s hs
    show Function.update b.held r true s = true
    by_cases hsr : s = r
    · subst hsr
      simp
    · rw [Function.update_of_ne hsr]
      exact hi.opened s hs
  · intro s hlt hheld
    by_cases hsr : s = r
    · subst hsr
      refine ⟨peerID, ?_⟩
      show s ∈ Function.update b.catchup peerID (b.catchup peerID ++ [s]) peerID
      simp
    · have hold : b.held s = true := by
        have : Function.update b.held r true s = true := hheld
        rwa [Function.update_of_ne hsr] at this
      obtain ⟨p, hp⟩ := hi.catchup_mem s hlt hold
      exact ⟨p, hgrow p s hp⟩
  · intro p
    show (Function.update b.catchup peerID (b.catchup peerID ++ [r]) p).length ≤ 2
    by_cases hp : p = peerID
    · subst hp
      simp only [Function.update_self, List.length_append, List.length_singleton]
      omega
    · rw [Function.update_of_ne hp]
      exact hi.budget p

end Bookkeeping

namespace HeightVoteSet

/-- The bookkeeping of a height vote set. -/
def bookkeeping (hvs : HeightVoteSet) : Bookkeeping :=
  ⟨hvs.height, hvs.round, fun r => (hvs.roundVoteSets r).isSome, hvs.peerCatchupRounds⟩

@[simp] theorem bookkeeping_height (hvs : HeightVoteSet) : hvs.bookkeeping.height = hvs.height := rfl
@[simp] theorem bookkeeping_round (hvs : HeightVoteSet) : hvs.bookkeeping.round = hvs.round := rfl
@[simp] theorem bookkeeping_held (hvs : HeightVoteSet) (r : ℕ) :
    hvs.bookkeeping.held r = (hvs.roundVoteSets r).isSome := rfl
@[simp] theorem bookkeeping_catchup (hvs : HeightVoteSet) :
    hvs.bookkeeping.catchup = hvs.peerCatchupRounds := rfl

/-! ### Each call as a step of the bookkeeping -/

/-- Writing a vote set back holds the same rounds. -/
@[simp] theorem bookkeeping_setVoteSet (hvs : HeightVoteSet) (round : ℕ) (typeB : UInt8)
    (voteSet : VoteSet) : (hvs.setVoteSet round typeB voteSet).bookkeeping = hvs.bookkeeping := by
  unfold bookkeeping setVoteSet
  congr 1
  funext r
  by_cases hr : r = round
  · subst hr
    simp
  · simp [Function.update_of_ne hr]

theorem bookkeeping_setPeerMaj23 (hvs : HeightVoteSet) (round : ℕ) (typeB : UInt8)
    (peerID : P2PID) (blockID : BlockID) :
    (hvs.setPeerMaj23 round typeB peerID blockID).2.bookkeeping = hvs.bookkeeping := by
  unfold setPeerMaj23
  split
  · rfl
  · split
    · rfl
    · exact bookkeeping_setVoteSet _ _ _ _

/-- For a valid vote type, a round without vote sets is one not held. -/
theorem getVoteSet_eq_none_iff {hvs : HeightVoteSet} {round : ℕ} {typeB : UInt8}
    (hv : isVoteTypeValid typeB = true) :
    hvs.getVoteSet round typeB = none ↔ hvs.roundVoteSets round = none := by
  unfold getVoteSet
  cases hvs.roundVoteSets round with
  | none => simp
  | some rvs =>
    simp only [isVoteTypeValid, Bool.or_eq_true, beq_iff_eq] at hv
    rcases hv with rfl | rfl <;> simp [voteTypePrevote, voteTypePrecommit]

/-- What `addRound` does when it does not panic: the round was not held, the
height is positive, and the round now holds fresh vote sets. -/
theorem addRound_eq_ok {hvs hvs' : HeightVoteSet} {round : ℕ} (h : hvs.addRound round = .ok hvs') :
    hvs.roundVoteSets round = none ∧ 0 < hvs.height ∧
      ∃ rvs, hvs' = { hvs with roundVoteSets := Function.update hvs.roundVoteSets round (some rvs) } := by
  unfold addRound at h
  obtain ⟨hnone, h⟩ := Except.ite_throw_eq_ok.mp h
  simp only [Except.bind_eq_ok, Except.pure_eq_ok] at h
  obtain ⟨_, hpre, _, -, rfl⟩ := h
  -- `NewVoteSet` refuses height 0
  have hh : hvs.height ≠ 0 := (Except.ite_throw_eq_ok.mp hpre).1
  exact ⟨Option.not_isSome_iff_eq_none.mp hnone, Nat.pos_of_ne_zero hh, _, rfl⟩

/-- `addRound` succeeds on a round not held, at a positive height. -/
theorem exists_addRound {hvs : HeightVoteSet} {round : ℕ} (hnone : hvs.roundVoteSets round = none)
    (hh : 0 < hvs.height) : ∃ hvs', hvs.addRound round = .ok hvs' := by
  unfold addRound newVoteSet
  simp [hnone, Nat.pos_iff_ne_zero.mp hh]

theorem bookkeeping_addRound {hvs hvs' : HeightVoteSet} {round : ℕ}
    (h : hvs.addRound round = .ok hvs') :
    hvs'.bookkeeping = hvs.bookkeeping.hold fun r => decide (r = round) := by
  obtain ⟨-, -, rvs, rfl⟩ := addRound_eq_ok h
  ext r <;> try rfl
  show (Function.update hvs.roundVoteSets round (some rvs) r).isSome =
    ((hvs.roundVoteSets r).isSome || decide (r = round))
  by_cases hr : r = round
  · subst hr
    simp
  · simp [hr]

/-- **The loop of `SetRound`** gives fresh vote sets to every round of its list
that is not held, and never panics at a positive height. -/
theorem foldlM_openRounds : ∀ (rounds : List ℕ) (hvs : HeightVoteSet), 0 < hvs.height →
    ∃ hvs', rounds.foldlM (fun (h : HeightVoteSet) r =>
        if (h.roundVoteSets r).isSome then pure h else h.addRound r) hvs = .ok hvs' ∧
      hvs'.bookkeeping = hvs.bookkeeping.hold fun r => decide (r ∈ rounds)
  | [], hvs, _ => ⟨hvs, rfl, (Bookkeeping.hold_of_held (by simp)).symm⟩
  | r :: rounds, hvs, hh => by
      rw [List.foldlM_cons]
      by_cases hr : (hvs.roundVoteSets r).isSome
      · -- already held, by a catch-up vote
        rw [if_pos hr, pure_bind]
        obtain ⟨hvs', hfold, hbk⟩ := foldlM_openRounds rounds hvs hh
        refine ⟨hvs', hfold, ?_⟩
        rw [hbk]
        apply Bookkeeping.ext <;> try rfl
        funext s
        by_cases hs : s = r
        · subst hs
          simp only [Bookkeeping.hold_held, bookkeeping_held, hr, Bool.true_or]
        · simp [hs]
      · obtain ⟨hvs₁, hadd⟩ := exists_addRound (Option.not_isSome_iff_eq_none.mp hr) hh
        have hbk₁ := bookkeeping_addRound hadd
        have hh₁ : 0 < hvs₁.height := by
          have : hvs₁.height = hvs.height := by simpa using congrArg Bookkeeping.height hbk₁
          rw [this]
          exact hh
        rw [if_neg hr, hadd]
        obtain ⟨hvs', hfold, hbk⟩ := foldlM_openRounds rounds hvs₁ hh₁
        refine ⟨hvs', hfold, ?_⟩
        rw [hbk, hbk₁, Bookkeeping.hold_hold]
        congr 1
        funext s
        simp

/-- **`SetRound` to a round above the current one** never panics at a positive
height, and advances the bookkeeping. -/
theorem bookkeeping_setRound {hvs : HeightVoteSet} {round : ℕ} (hh : 0 < hvs.height)
    (hr : hvs.round < round) :
    ∃ hvs', hvs.setRound round = .ok hvs' ∧ hvs'.bookkeeping = hvs.bookkeeping.advance round := by
  obtain ⟨hvs', hfold, hbk⟩ := foldlM_openRounds (List.range' (hvs.round + 1) (round - hvs.round)) hvs hh
  refine ⟨{ hvs' with round }, ?_, ?_⟩
  · unfold setRound
    rw [if_neg (by omega), hfold]
    rfl
  · have hheld := congrArg Bookkeeping.held hbk
    apply Bookkeeping.ext
    · simpa using congrArg Bookkeeping.height hbk
    · rfl
    · funext s
      have := congrFun hheld s
      simp only [bookkeeping_held, Bookkeeping.hold_held, List.mem_range'_1] at this
      show (hvs'.roundVoteSets s).isSome = _
      rw [this]
      simp only [Bookkeeping.advance, bookkeeping_held, bookkeeping_round]
      congr 2
      apply propext
      omega
    · simpa using congrArg Bookkeeping.catchup hbk

/-- Adding to a vote set writes that set back, and nothing else. -/
theorem addToVoteSet_eq_ok {ks : KeyScheme} {hvs hvs' : HeightVoteSet} {voteSet : VoteSet}
    {vote : Vote} {res : Bool × Option HeightVoteSetError}
    (h : hvs.addToVoteSet ks voteSet vote = .ok (res, hvs')) :
    ∃ voteSet', hvs' = hvs.setVoteSet vote.round vote.type voteSet' := by
  unfold addToVoteSet at h
  simp only [Except.bind_eq_ok, Except.pure_eq_ok] at h
  obtain ⟨⟨_, voteSet'⟩, -, h⟩ := h
  exact ⟨voteSet', (Prod.mk.inj h).2.symm⟩

/-- Adding to a vote set never panics: `VoteSet.AddVote` does not. -/
theorem exists_addToVoteSet (ks : KeyScheme) (hvs : HeightVoteSet) (voteSet : VoteSet)
    (vote : Vote) : ∃ res hvs', hvs.addToVoteSet ks voteSet vote = .ok (res, hvs') := by
  cases hv : voteSet.addVote ks (some vote) with
  | error msg => exact absurd hv (VoteSet.addVote_ne_error ks voteSet (some vote) msg)
  | ok r =>
    obtain ⟨⟨added, err⟩, voteSet'⟩ := r
    exact ⟨(added, err.map .vote), hvs.setVoteSet vote.round vote.type voteSet',
      by simp [addToVoteSet, hv]⟩

/-- **What `AddVote` does to the bookkeeping**: nothing, or it opens the round
of the vote, not held before, for a peer with fewer than two catch-up rounds. -/
theorem bookkeeping_addVote {ks : KeyScheme} {hvs hvs' : HeightVoteSet} {vote : Vote}
    {peerID : P2PID} {res : Bool × Option HeightVoteSetError}
    (h : hvs.addVote ks vote peerID = .ok (res, hvs')) :
    hvs'.bookkeeping = hvs.bookkeeping ∨
      ((hvs.roundVoteSets vote.round).isSome = false ∧ (hvs.peerCatchupRounds peerID).length < 2 ∧
        hvs'.bookkeeping = hvs.bookkeeping.openCatchup vote.round peerID) := by
  unfold addVote at h
  split at h
  · -- an invalid vote type is ignored
    cases h
    exact .inl rfl
  · split at h
    · obtain ⟨voteSet', rfl⟩ := addToVoteSet_eq_ok h
      exact .inl (bookkeeping_setVoteSet _ _ _ _)
    · dsimp only at h
      split at h
      · rename_i hlen
        simp only [Except.bind_eq_ok] at h
        obtain ⟨hvs₁, hadd, h⟩ := h
        obtain ⟨hnone, -, rvs, rfl⟩ := addRound_eq_ok hadd
        -- the round is open and charged to the peer, whichever set the vote goes to
        have hopen : ({ hvs with
            roundVoteSets := Function.update hvs.roundVoteSets vote.round (some rvs),
            peerCatchupRounds := Function.update hvs.peerCatchupRounds peerID
              (hvs.peerCatchupRounds peerID ++ [vote.round]) } : HeightVoteSet).bookkeeping =
            hvs.bookkeeping.openCatchup vote.round peerID := by
          apply Bookkeeping.ext <;> try rfl
          funext r
          by_cases hr : r = vote.round
          · subst hr
            simp [Bookkeeping.openCatchup]
          · simp [Bookkeeping.openCatchup, Function.update_of_ne hr]
        refine .inr ⟨by simp [hnone], hlen, ?_⟩
        split at h
        · obtain ⟨voteSet', rfl⟩ := addToVoteSet_eq_ok h
          rw [bookkeeping_setVoteSet, hopen]
        · cases h
          exact hopen
      · -- a third catch-up round is refused
        cases h
        exact .inl rfl

/-- **`AddVote` never panics** on a set whose bookkeeping keeps the promise:
`addRound` only meets the round of a vote when that round is not held. -/
theorem exists_addVote {hvs : HeightVoteSet} (hi : hvs.bookkeeping.Inv) (ks : KeyScheme)
    (vote : Vote) (peerID : P2PID) : ∃ res hvs', hvs.addVote ks vote peerID = .ok (res, hvs') := by
  unfold addVote
  split
  · exact ⟨_, _, rfl⟩
  · rename_i hvalid
    split
    · exact exists_addToVoteSet ks hvs _ vote
    · rename_i hnone
      dsimp only
      split
      · have hround : hvs.roundVoteSets vote.round = none :=
          (getVoteSet_eq_none_iff (by simpa using hvalid)).mp hnone
        obtain ⟨hvs₁, hadd⟩ := exists_addRound hround hi.height_pos
        simp only [hadd, bind, Except.bind]
        split
        · exact exists_addToVoteSet ks _ _ vote
        · exact ⟨_, _, rfl⟩
      · exact ⟨_, _, rfl⟩

/-- `Reset` starts the promise: only round 0 is held, and no peer has catch-up
rounds. -/
theorem inv_reset {hvs hvs' : HeightVoteSet} {height : ℕ} {valSet : ValidatorSet}
    (h : hvs.reset height valSet = .ok hvs') : hvs'.bookkeeping.Inv := by
  unfold reset at h
  simp only [Except.bind_eq_ok, Except.pure_eq_ok] at h
  obtain ⟨hvs₁, hadd, rfl⟩ := h
  obtain ⟨-, hh, rvs, rfl⟩ := addRound_eq_ok hadd
  refine ⟨hh, ?_, ?_, ?_⟩
  · intro r hr
    obtain rfl : r = 0 := Nat.le_zero.mp hr
    simp
  · intro r hr hheld
    have hr0 : r ≠ 0 := Nat.pos_iff_ne_zero.mp hr
    simp [Function.update_of_ne hr0] at hheld
  · intro p
    simp

/-! ### Runs -/

/-- The sets of the runs `Reset` starts, going on with `SetRound` to a round
above the current one, `AddVote` and `SetPeerMaj23`. -/
inductive Reachable : HeightVoteSet → Prop
  | reset {hvs hvs' : HeightVoteSet} {height : ℕ} {valSet : ValidatorSet} :
      hvs.reset height valSet = .ok hvs' → Reachable hvs'
  | setRound {hvs hvs' : HeightVoteSet} {round : ℕ} :
      Reachable hvs → hvs.round < round → hvs.setRound round = .ok hvs' → Reachable hvs'
  | addVote {hvs hvs' : HeightVoteSet} {ks : KeyScheme} {vote : Vote} {peerID : P2PID}
      {res : Bool × Option HeightVoteSetError} :
      Reachable hvs → hvs.addVote ks vote peerID = .ok (res, hvs') → Reachable hvs'
  | setPeerMaj23 {hvs : HeightVoteSet} (round : ℕ) (typeB : UInt8) (peerID : P2PID)
      (blockID : BlockID) : Reachable hvs → Reachable (hvs.setPeerMaj23 round typeB peerID blockID).2

/-- **Every reachable set keeps the promise.** -/
theorem Reachable.inv {hvs : HeightVoteSet} (hs : Reachable hvs) : hvs.bookkeeping.Inv := by
  induction hs with
  | reset h => exact inv_reset h
  | setRound _ hr h ih =>
    obtain ⟨hvs'', hset, hbk⟩ := bookkeeping_setRound ih.height_pos hr
    obtain rfl : _ = hvs'' := Except.ok.inj (h.symm.trans hset)
    rw [hbk]
    exact ih.advance hr
  | addVote _ h ih =>
    rcases bookkeeping_addVote h with hbk | ⟨-, hlen, hbk⟩
    · rw [hbk]
      exact ih
    · rw [hbk]
      exact ih.openCatchup hlen
  | setPeerMaj23 round typeB peerID blockID _ ih =>
    rw [bookkeeping_setPeerMaj23]
    exact ih

/-! ### Reading the vote sets -/

/-- A held round gives both of its vote sets. -/
theorem prevotes_precommits_of_eq_some {hvs : HeightVoteSet} {r : ℕ} {rvs : RoundVoteSet}
    (h : hvs.roundVoteSets r = some rvs) :
    hvs.prevotes r = some rvs.prevotes ∧ hvs.precommits r = some rvs.precommits := by
  constructor
  · simp [prevotes, getVoteSet, h]
  · simp [precommits, getVoteSet, h, voteTypePrevote, voteTypePrecommit]

/-- One round of the `POLInfo` loop: round `n` is taken when its prevotes have a
majority. -/
theorem polInfoBelow_succ (hvs : HeightVoteSet) (n : ℕ) :
    hvs.polInfoBelow (n + 1) =
      if hasTwoThirdsMajorityOf (hvs.prevotes n) then
        ((n : ℤ), (twoThirdsMajorityOf (hvs.prevotes n)).1)
      else hvs.polInfoBelow n := by
  simp only [polInfoBelow]
  cases hvs.prevotes n with
  | none => rfl
  | some vs =>
    simp only [Option.map_some, hasTwoThirdsMajorityOf, twoThirdsMajorityOf,
      VoteSet.hasTwoThirdsMajority, VoteSet.twoThirdsMajority]
    rcases Option.eq_none_or_eq_some vs.maj23 with hm | ⟨b, hm⟩ <;> simp [hm]

/-- **`POLInfo`'s loop over the rounds below `n`** returns the last of them whose
prevotes have a two-thirds majority, with that majority's block, or `-1` when
none has. -/
theorem polInfoBelow_spec (hvs : HeightVoteSet) : ∀ n : ℕ,
    (hvs.polInfoBelow n = (-1, default) ∧
        ∀ r < n, hasTwoThirdsMajorityOf (hvs.prevotes r) = false) ∨
      ∃ r < n, hvs.polInfoBelow n = ((r : ℤ), (twoThirdsMajorityOf (hvs.prevotes r)).1) ∧
        hasTwoThirdsMajorityOf (hvs.prevotes r) = true ∧
        ∀ r', r < r' → r' < n → hasTwoThirdsMajorityOf (hvs.prevotes r') = false
  | 0 => .inl ⟨rfl, fun r hr => absurd hr (Nat.not_lt_zero r)⟩
  | n + 1 => by
      rw [polInfoBelow_succ]
      by_cases hn : hasTwoThirdsMajorityOf (hvs.prevotes n) = true
      · -- round `n` is the top one
        rw [if_pos hn]
        exact .inr ⟨n, Nat.lt_succ_self n, rfl, hn, fun r' h1 h2 => absurd h2 (by omega)⟩
      · rw [if_neg hn]
        have hn' : hasTwoThirdsMajorityOf (hvs.prevotes n) = false := by simpa using hn
        rcases polInfoBelow_spec hvs n with ⟨h, hnone⟩ | ⟨r, hr, h, hmaj, habove⟩
        · refine .inl ⟨h, fun r hr => ?_⟩
          rcases Nat.lt_succ_iff_lt_or_eq.mp hr with hr | rfl
          · exact hnone r hr
          · exact hn'
        · refine .inr ⟨r, Nat.lt_succ_of_lt hr, h, hmaj, fun r' h1 h2 => ?_⟩
          rcases Nat.lt_succ_iff_lt_or_eq.mp h2 with h2 | rfl
          · exact habove r' h1 h2
          · exact hn'

/-! ### The promise -/

/-- The vote sets `NewHeightVoteSet("", 1, ∅)` makes: round 0 only. -/
def heightOneVoteSet : HeightVoteSet :=
  match newHeightVoteSet "" 1 ⟨[], none⟩ with
  | .ok hvs => hvs
  | .error _ => ⟨"", 1, ⟨[], none⟩, 0, fun _ => none, fun _ => []⟩

end HeightVoteSet

end RpcNetwork.Tbft.Types
