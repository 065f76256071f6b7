import RpcNetwork.Lib.Quorum
import RpcNetwork.Tbft.Types.VoteSet

/-!
# The representation invariant of vote sets

Every vote set reachable from `NewVoteSet` by `AddVote` and `SetPeerMaj23`
keeps its three stores consistent.  This module states that invariant, `Inv`,
and proves it preserved by every operation.

## Design notes

`addVote` either returns the set unchanged or runs `addVerifiedVote` on a vote
that passed every check and that `getVote` did not find (`addVote_cases`).  The
stores are updated together (`Inv.addToStore`), the copy-over at the quorum
is `Inv.copyMaj23`, and a conflicting vote for an unvouched `maj23` is
`Inv.replaceCanonical`.

The quorum bound on `maj23` needs nonnegative powers: a negative power makes a
block's sum drop after it crossed.  The field `maj23_quorum` carries that
assumption.
-/

namespace RpcNetwork.Tbft.Types

open Help Finset

/-! ### Slots -/

/-- Reading a slot after `set` at an index inside the list. -/
theorem getD_set_none {α : Type*} {l : List (Option α)} {i : ℕ} (hi : i < l.length) (x : Option α)
    (j : ℕ) : (l.set i x).getD j none = if j = i then x else l.getD j none := by
  simp only [List.getD_eq_getElem?_getD, List.getElem?_set]
  by_cases h : i = j
  · subst h
    simp [hi]
  · simp [h, Ne.symm h]

@[simp] theorem getD_replicate_none {α : Type*} (n j : ℕ) :
    (List.replicate n (none : Option α)).getD j none = none := by
  simp only [List.getD_eq_getElem?_getD, List.getElem?_replicate]
  split <;> rfl

namespace VoteSet

theorem length_overwriteVotes :
    ∀ (votes src : List (Option Vote)), src.length ≤ votes.length →
      (overwriteVotes votes src).length = votes.length
  | votes, [], _ => by simp [overwriteVotes]
  | [], _ :: _, h => absurd h (by simp)
  | _ :: votes, _ :: src, h => by
      simp only [overwriteVotes, List.length_cons]
      rw [length_overwriteVotes votes src (by simpa using h)]

/-- The copy-over puts the source's vote into every slot that has one. -/
theorem getD_overwriteVotes :
    ∀ (votes src : List (Option Vote)), src.length ≤ votes.length → ∀ j,
      (overwriteVotes votes src).getD j none = (src.getD j none).or (votes.getD j none)
  | votes, [], _, j => by simp [overwriteVotes]
  | [], _ :: _, h, _ => absurd h (by simp)
  | _ :: _, _ :: _, _, 0 => by simp [overwriteVotes]
  | _ :: votes, _ :: src, h, j + 1 => by
      simp only [overwriteVotes, List.getD_cons_succ]
      exact getD_overwriteVotes votes src (by simpa using h) j

end VoteSet

/-! ### Stores -/

/-- A store of `n` slots: the optional votes, the bit array of the filled
slots, and `sum`, the weight `w` of the slots that `counted` admits. -/
structure StoreInv (n : ℕ) (w : ℕ → ℤ) (counted : Option Vote → Bool)
    (slots : List (Option Vote)) (bits : Option BitArray) (sum : ℤ) : Prop where
  length_eq : slots.length = n
  wellFormed : BitArray.WellFormed bits
  size_eq : BitArray.size bits = n
  getIndex_eq : ∀ i, BitArray.getIndex bits i = (slots.getD i none).isSome
  sum_eq : sum = ∑ i ∈ range n, if counted (slots.getD i none) then w i else 0

namespace StoreInv

variable {n : ℕ} {w : ℕ → ℤ} {counted : Option Vote → Bool}
  {slots : List (Option Vote)} {bits : Option BitArray} {sum : ℤ}

/-- A fresh store: `n` empty slots, a fresh bit array and a zero sum. -/
theorem empty (n : ℕ) (w : ℕ → ℤ) (hnone : counted none = false) :
    StoreInv n w counted (List.replicate n none) (BitArray.newBitArray n) 0 where
  length_eq := List.length_replicate
  wellFormed := BitArray.wellFormed_newBitArray n
  size_eq := BitArray.size_newBitArray n
  getIndex_eq i := by simp
  sum_eq := by simp [hnone]

/-- Writing a vote into slot `i` sets bit `i` and moves the sum by the change
of the counted weight at `i`. -/
theorem set (h : StoreInv n w counted slots bits sum) {i : ℕ} (hi : i < n) (a : Vote) :
    StoreInv n w counted (slots.set i (some a)) (BitArray.setIndex bits i true)
      (sum + ((if counted (some a) then w i else 0) -
        if counted (slots.getD i none) then w i else 0)) where
  length_eq := by rw [List.length_set, h.length_eq]
  wellFormed := h.wellFormed.setIndex i true
  size_eq := by rw [BitArray.size_setIndex, h.size_eq]
  getIndex_eq j := by
    have hi' : i < slots.length := h.length_eq ▸ hi
    rw [BitArray.getIndex_setIndex h.wellFormed, h.size_eq, getD_set_none hi', h.getIndex_eq]
    by_cases hj : j = i <;> simp [hj, hi]
  sum_eq := by
    have hi' : i < slots.length := h.length_eq ▸ hi
    have key : (∑ j ∈ range n, if counted ((slots.set i (some a)).getD j none) then w j else 0) =
        (∑ j ∈ range n, if counted (slots.getD j none) then w j else 0) +
          ((if counted (some a) then w i else 0) -
            if counted (slots.getD i none) then w i else 0) := by
      refine (@Quorum.sum_eq_of_eq_off ℕ _ (range n)
        (fun j => if counted (slots.getD j none) then w j else 0) _ i (mem_range.mpr hi)
        fun j _ hj => ?_).trans ?_
      · rw [getD_set_none hi', if_neg hj]
      · rw [getD_set_none hi', if_pos rfl]
    rw [key, h.sum_eq]

/-- Overwriting slots that are already filled keeps a store that counts every
vote consistent. -/
theorem overwrite (h : StoreInv n w Option.isSome slots bits sum) {src : List (Option Vote)}
    (hlen : src.length = n)
    (hsrc : ∀ j a, src.getD j none = some a → (slots.getD j none).isSome) :
    StoreInv n w Option.isSome (VoteSet.overwriteVotes slots src) bits sum := by
  have hle : src.length ≤ slots.length := by rw [hlen, h.length_eq]
  -- the copy-over never changes which slots are filled
  have hsome : ∀ j, ((VoteSet.overwriteVotes slots src).getD j none).isSome =
      (slots.getD j none).isSome := by
    intro j
    rw [VoteSet.getD_overwriteVotes slots src hle]
    cases hs : src.getD j none with
    | none => rfl
    | some a => simpa using (hsrc j a hs).symm
  refine ⟨?_, h.wellFormed, h.size_eq, fun i => ?_, ?_⟩
  · rw [VoteSet.length_overwriteVotes slots src hle, h.length_eq]
  · rw [hsome, h.getIndex_eq]
  · simp only [hsome]
    exact h.sum_eq

end StoreInv

/-! ### The invariant -/

/-- The agree votes, the ones a block's store counts. -/
def isAgree (o : Option Vote) : Bool :=
  o.any fun v => v.result = voteAgree

/-- With nonnegative powers, a block's agree-power is at most the power of the
validators it holds a vote of. -/
theorem StoreInv.sum_le_filled {n : ℕ} {w : ℕ → ℤ} {slots : List (Option Vote)}
    {bits : Option BitArray} {sum : ℤ} (h : StoreInv n w isAgree slots bits sum)
    (hw : ∀ i, 0 ≤ w i) : sum ≤ ∑ i ∈ range n with (slots.getD i none).isSome, w i := by
  rw [h.sum_eq, sum_filter]
  apply sum_le_sum
  intro i _
  cases slots.getD i none with
  | none => simp [isAgree]
  | some v =>
      by_cases hv : isAgree (some v) <;> simp [hv, hw i]

namespace VoteSet

/-- The voting power of validator `i`. -/
def powerAt (vs : VoteSet) (i : ℕ) : ℤ :=
  ((vs.valSet.validators[i]?).map Validator.votingPower).getD 0

/-- The checks `addVote` makes before it stores a vote, at validator index `i`:
the index, a nonempty address, the height, round and type of the set, the
address of validator `i`, and the signature. -/
def Accepts (ks : KeyScheme) (vs : VoteSet) (i : ℕ) (v : Vote) : Prop :=
  v.validatorIndex = i ∧ v.validatorAddress ≠ [] ∧ v.height = vs.height ∧ v.round = vs.round ∧
    v.type = vs.typeB ∧ ∃ val, vs.valSet.validators[i]? = some val ∧
      v.validatorAddress = val.address ∧ v.verify ks vs.chainID val.pubKey = none

/-- A block's store: consistent, counting the agree votes, and holding only
accepted votes for that block at validators that have a canonical vote. -/
structure BlockInv (ks : KeyScheme) (vs : VoteSet) (k : BlockID) (bv : BlockVotes) : Prop where
  store : StoreInv vs.valSet.size vs.powerAt isAgree bv.votes bv.bitArray bv.sum
  vote : ∀ i v, bv.votes.getD i none = some v →
    v.blockID = k ∧ vs.Accepts ks i v ∧ (vs.getByIndex i).isSome

/-- **The representation invariant of a vote set.** -/
structure Inv (ks : KeyScheme) (vs : VoteSet) : Prop where
  canonical : StoreInv vs.valSet.size vs.powerAt Option.isSome vs.votes vs.votesBitArray vs.sum
  accepts : ∀ i v, vs.getByIndex i = some v → vs.Accepts ks i v
  blocks : ∀ k bv, vs.votesByBlock k = some bv → BlockInv ks vs k bv
  maj23_tracked : ∀ b, vs.maj23 = some b → (vs.votesByBlock b).isSome
  maj23_canonical : ∀ b bv, vs.maj23 = some b → vs.votesByBlock b = some bv →
    ∀ i v, bv.votes.getD i none = some v → vs.getByIndex i = some v
  tracked : ∀ i v, vs.getByIndex i = some v → ∃ bv, vs.votesByBlock v.blockID = some bv ∧
    (bv.votes.getD i none = some v ∨ vs.maj23 = some v.blockID)
  maj23_quorum : (∀ v ∈ vs.valSet.validators, 0 ≤ v.votingPower) → ∀ b bv,
    vs.maj23 = some b → vs.votesByBlock b = some bv →
      twoThirds vs.valSet.totalVotingPower + 1 ≤ bv.sum

/-- `NewVoteSet` starts from empty stores. -/
theorem inv_newVoteSet (ks : KeyScheme) {chainID : String} {height round : ℕ} {typeB : UInt8}
    {valSet : ValidatorSet} {vs : VoteSet}
    (h : newVoteSet chainID height round typeB valSet = .ok vs) : Inv ks vs := by
  unfold newVoteSet at h
  split at h
  · cases h
  · cases h
    refine ⟨StoreInv.empty _ _ rfl, fun i v hv => ?_, fun k bv hk => ?_, fun b hb => ?_,
      fun b bv hb => ?_, fun i v hv => ?_, fun _ b bv hb => ?_⟩ <;>
      simp_all [getByIndex]

/-! ### `SetPeerMaj23` -/

/-- What `SetPeerMaj23` can do to the store of one block: leave it, create it
empty with the flag raised, or raise the flag of an existing one. -/
def FlagStep (n : ℕ) (before after : Option BlockVotes) : Prop :=
  after = before ∨ (before = none ∧ after = some (newBlockVotes true n)) ∨
    ∃ bv, before = some bv ∧ after = some { bv with peerMaj23 := true }

/-- A store that existed still exists, with the same votes, bits and sum. -/
theorem FlagStep.of_some {n : ℕ} {bv : BlockVotes} {after : Option BlockVotes}
    (h : FlagStep n (some bv) after) :
    ∃ bv', after = some bv' ∧ bv'.votes = bv.votes ∧ bv'.bitArray = bv.bitArray ∧
      bv'.sum = bv.sum := by
  rcases h with rfl | ⟨h, -⟩ | ⟨bv₀, h₀, rfl⟩
  · exact ⟨bv, rfl, rfl, rfl, rfl⟩
  · cases h
  · cases h₀
    exact ⟨_, rfl, rfl, rfl, rfl⟩

/-- A store that exists afterwards is new and empty, or an old one with the
same votes, bits and sum. -/
theorem FlagStep.to_some {n : ℕ} {before : Option BlockVotes} {bv' : BlockVotes}
    (h : FlagStep n before (some bv')) :
    (before = none ∧ bv' = newBlockVotes true n) ∨
      ∃ bv, before = some bv ∧ bv'.votes = bv.votes ∧ bv'.bitArray = bv.bitArray ∧
        bv'.sum = bv.sum := by
  rcases h with h | ⟨h₀, h⟩ | ⟨bv₀, h₀, h⟩
  · exact .inr ⟨bv', h.symm, rfl, rfl, rfl⟩
  · cases h
    exact .inl ⟨h₀, rfl⟩
  · cases h
    exact .inr ⟨bv₀, h₀, rfl, rfl, rfl⟩

/-- `SetPeerMaj23` changes only the peer claims and, by `FlagStep`, the
per-block stores. -/
theorem setPeerMaj23_eq (vs : VoteSet) (peerID : P2PID) (blockID : BlockID) :
    ∃ ps g, (vs.setPeerMaj23 peerID blockID).2 = { vs with peerMaj23s := ps, votesByBlock := g } ∧
      ∀ k, FlagStep vs.valSet.size (vs.votesByBlock k) (g k) := by
  unfold VoteSet.setPeerMaj23
  split
  · split <;> exact ⟨vs.peerMaj23s, vs.votesByBlock, rfl, fun _ => .inl rfl⟩
  · dsimp only
    split
    · rename_i bv hbv
      split
      · exact ⟨_, vs.votesByBlock, rfl, fun _ => .inl rfl⟩
      · refine ⟨_, _, rfl, fun k => ?_⟩
        by_cases hk : k = blockID
        · subst hk
          exact .inr (.inr ⟨bv, hbv, by rw [Function.update_self]⟩)
        · exact .inl (by rw [Function.update_of_ne hk])
    · rename_i hnone
      refine ⟨_, _, rfl, fun k => ?_⟩
      by_cases hk : k = blockID
      · subst hk
        exact .inr (.inl ⟨hnone, by rw [Function.update_self]⟩)
      · exact .inl (by rw [Function.update_of_ne hk])

/-- Creating empty flagged stores and raising flags keeps the invariant. -/
theorem Inv.of_flagStep {ks : KeyScheme} {vs : VoteSet} (h : Inv ks vs)
    {ps : P2PID → Option BlockID} {g : BlockID → Option BlockVotes}
    (hg : ∀ k, FlagStep vs.valSet.size (vs.votesByBlock k) (g k)) :
    Inv ks { vs with peerMaj23s := ps, votesByBlock := g } := by
  refine ⟨h.canonical, h.accepts, fun k bv' hk => ?_, fun b hb => ?_, fun b bv' hb hk => ?_,
    fun i v hv => ?_, fun hnn b bv' hb hk => ?_⟩
  · have hk' : g k = some bv' := hk
    rcases FlagStep.to_some (hk' ▸ hg k) with ⟨-, rfl⟩ | ⟨bv, h₀, hv, hbits, hs⟩
    · exact ⟨StoreInv.empty _ _ rfl, fun i v hv => by simp [newBlockVotes] at hv⟩
    · have hb := h.blocks k bv h₀
      exact ⟨hv ▸ hbits ▸ hs ▸ hb.store, hv ▸ hb.vote⟩
  · obtain ⟨bv, h₀⟩ := Option.isSome_iff_exists.mp (h.maj23_tracked b hb)
    obtain ⟨bv', h', -⟩ := FlagStep.of_some (h₀ ▸ hg b)
    show (g b).isSome
    simp [h']
  · have hk' : g b = some bv' := hk
    rcases FlagStep.to_some (hk' ▸ hg b) with ⟨hnone, -⟩ | ⟨bv, h₀, hv, -, -⟩
    · exact absurd (h.maj23_tracked b hb) (by simp [hnone])
    · exact hv ▸ h.maj23_canonical b bv hb h₀
  · obtain ⟨bv, h₀, hor⟩ := h.tracked i v hv
    obtain ⟨bv', h', hv', -, -⟩ := FlagStep.of_some (h₀ ▸ hg v.blockID)
    exact ⟨bv', h', hv' ▸ hor⟩
  · have hk' : g b = some bv' := hk
    rcases FlagStep.to_some (hk' ▸ hg b) with ⟨hnone, -⟩ | ⟨bv, h₀, -, -, hs⟩
    · exact absurd (h.maj23_tracked b hb) (by simp [hnone])
    · exact hs ▸ h.maj23_quorum hnn b bv hb h₀

/-- `SetPeerMaj23` keeps the invariant. -/
theorem Inv.setPeerMaj23 {ks : KeyScheme} {vs : VoteSet} (h : Inv ks vs) (peerID : P2PID)
    (blockID : BlockID) : Inv ks (vs.setPeerMaj23 peerID blockID).2 := by
  obtain ⟨ps, g, heq, hg⟩ := setPeerMaj23_eq vs peerID blockID
  rw [heq]
  exact h.of_flagStep hg

/-! ### What `addVote` can do -/

/-- `getVote` finds nothing: the canonical vote, if any, is for another block,
and the block's store has no vote at that index. -/
theorem getVote_eq_none {vs : VoteSet} {i : ℕ} {k : BlockID} (h : vs.getVote i k = none) :
    (∀ e, vs.getByIndex i = some e → e.blockID ≠ k) ∧
      BlockVotes.getByIndex (vs.votesByBlock k) i = none := by
  unfold getVote at h
  unfold getByIndex
  split at h
  · rename_i e he
    split at h
    · cases h
    · rename_i hne
      refine ⟨fun e' he' => ?_, h⟩
      rw [he] at he'
      cases he'
      exact hne
  · rename_i he
    refine ⟨fun e he' => ?_, h⟩
    rw [he] at he'
    cases he'

/-- The canonical phase on a validator without a vote: record and count it. -/
theorem recordVote_of_none {vs : VoteSet} {vote : Vote} {k : BlockID} {p : ℤ}
    (h : vs.getByIndex vote.validatorIndex = none) :
    vs.recordVote vote k p = .ok (none,
      { vs with
        votes := vs.votes.set vote.validatorIndex (some vote)
        votesBitArray := BitArray.setIndex vs.votesBitArray vote.validatorIndex true
        sum := vs.sum + p
        vsum := if vote.result = voteAgree then vs.vsum + p else vs.vsum }) := by
  unfold getByIndex at h
  simp only [recordVote, h]
  rfl

/-- The canonical phase on a validator with a vote for another block: the vote
conflicts, and replaces the canonical one only when it is for `maj23`. -/
theorem recordVote_of_some {vs : VoteSet} {vote e : Vote} {k : BlockID} {p : ℤ}
    (h : vs.getByIndex vote.validatorIndex = some e) (hne : e.blockID ≠ vote.blockID) :
    vs.recordVote vote k p = .ok (some e,
      if vs.maj23 = some k then
        { vs with
          votes := vs.votes.set vote.validatorIndex (some vote)
          votesBitArray := BitArray.setIndex vs.votesBitArray vote.validatorIndex true }
      else vs) := by
  unfold getByIndex at h
  simp only [recordVote, h, hne, if_false]
  split <;> rfl

/-- **What `addVerifiedVote` can do**: the canonical phase, then either nothing
more or the per-block phase. -/
theorem addVerifiedVote_eq {vs vs' : VoteSet} {vote : Vote} {k : BlockID} {p : ℤ}
    {r : Bool × Option Vote} (h : vs.addVerifiedVote vote k p = .ok (r, vs')) :
    ∃ c vs₁, vs.recordVote vote k p = .ok (c, vs₁) ∧
      ((vs₁.trackedBlockVotes k c = none ∧ vs' = vs₁) ∨
        ∃ bv, vs₁.trackedBlockVotes k c = some bv ∧ vs' = vs₁.addToBlock vote k p bv) := by
  unfold addVerifiedVote at h
  cases hrec : vs.recordVote vote k p with
  | error msg =>
      rw [hrec] at h
      cases h
  | ok res =>
      obtain ⟨c, vs₁⟩ := res
      rw [hrec] at h
      refine ⟨c, vs₁, rfl, ?_⟩
      cases ht : vs₁.trackedBlockVotes k c with
      | none =>
          simp only [bind, Except.bind, ht, pure, Except.pure, Except.ok.injEq, Prod.mk.injEq] at h
          exact .inl ⟨rfl, h.2.symm⟩
      | some bv =>
          simp only [bind, Except.bind, ht, pure, Except.pure, Except.ok.injEq, Prod.mk.injEq] at h
          exact .inr ⟨bv, rfl, h.2.symm⟩

/-- **What `addVote` can do**: return the set unchanged, or add through
`addVerifiedVote` a vote that passed every check and that `getVote` did not
find, counting the power of its validator. -/
theorem addVote_cases {ks : KeyScheme} {vs vs' : VoteSet} {v : Option Vote}
    {r : Bool × Option VoteError} (h : vs.addVote ks v = .ok (r, vs')) :
    vs' = vs ∨ ∃ vote, v = some vote ∧ vs.Accepts ks vote.validatorIndex vote ∧
      vs.getVote vote.validatorIndex vote.blockID = none ∧
      ∃ r', vs.addVerifiedVote vote vote.blockID (vs.powerAt vote.validatorIndex) = .ok (r', vs') := by
  unfold addVote at h
  split at h
  · cases h
    exact .inl rfl
  · rename_i vote
    split at h
    · cases h
      exact .inl rfl
    · rename_i haddr
      split at h
      · cases h
        exact .inl rfl
      · rename_i hstep
        split at h
        · cases h
          exact .inl rfl
        · rename_i lookupAddr val hval
          split at h
          · cases h
            exact .inl rfl
          · rename_i hlook
            split at h
            · split at h <;> cases h <;> exact .inl rfl
            · rename_i hget
              split at h
              · cases h
                exact .inl rfl
              · rename_i hver
                right
                -- the index is in range and names `val`, whose power is counted
                have hval' : vs.valSet.validators[vote.validatorIndex]? = some val := by
                  unfold ValidatorSet.getByIndex at hval
                  cases hv : vs.valSet.validators[vote.validatorIndex]? with
                  | none => simp [hv] at hval
                  | some v' =>
                      simp only [hv, Option.map_some, Option.some.injEq, Prod.mk.injEq] at hval
                      rw [hval.2]
                have hlook' : vote.validatorAddress = val.address := by
                  unfold ValidatorSet.getByIndex at hval
                  simp only [hval', Option.map_some, Option.some.injEq, Prod.mk.injEq] at hval
                  rw [hval.1]
                  exact not_not.mp hlook
                have hpow : vs.powerAt vote.validatorIndex = val.votingPower := by
                  simp [powerAt, hval']
                refine ⟨vote, rfl, ⟨rfl, fun he => by simp [he] at haddr, ?_⟩, hget, ?_⟩
                · simp only [not_or, not_not] at hstep
                  exact ⟨hstep.1, hstep.2.1, hstep.2.2, val, hval', hlook', hver⟩
                · rw [hpow]
                  cases hadd : vs.addVerifiedVote vote vote.blockID val.votingPower with
                  | error msg =>
                      rw [hadd] at h
                      cases h
                  | ok res =>
                      rw [hadd] at h
                      obtain ⟨⟨added, conflicting⟩, vs''⟩ := res
                      simp only [bind, Except.bind] at h
                      split at h
                      · cases h
                        exact ⟨_, rfl⟩
                      · split at h
                        · cases h
                        · cases h
                          exact ⟨_, rfl⟩

/-! ### The verified add preserves the invariant -/

/-- An accepted vote names a validator inside the set. -/
theorem Accepts.lt_size {ks : KeyScheme} {vs : VoteSet} {i : ℕ} {v : Vote}
    (h : vs.Accepts ks i v) : i < vs.valSet.size := by
  obtain ⟨-, -, -, -, -, val, hval, -⟩ := h
  exact (List.getElem?_eq_some_iff.mp hval).1

/-- A block's store that the vote goes into: consistent and without a vote at
the vote's index. -/
theorem BlockVotes.addVerifiedVote_eq {bv : BlockVotes} {vote : Vote} {p : ℤ}
    (hfree : bv.votes.getD vote.validatorIndex none = none) :
    bv.addVerifiedVote vote p =
      { bv with
        bitArray := BitArray.setIndex bv.bitArray vote.validatorIndex true
        votes := bv.votes.set vote.validatorIndex (some vote)
        sum := if vote.result = voteAgree then bv.sum + p else bv.sum } := by
  simp only [BlockVotes.addVerifiedVote, hfree]

/-- Adding an agree vote moves a block's sum by the validator's power. -/
theorem isAgree_sum (bvSum p : ℤ) (vote : Vote) :
    bvSum + ((if isAgree (some vote) then p else 0) - if isAgree none then p else 0) =
      if vote.result = voteAgree then bvSum + p else bvSum := by
  by_cases ha : vote.result = voteAgree <;> simp [isAgree, ha]

/-- **The verified add on the stores.**  The vote goes into its block's store
`bv₀` (the tracked one, or a fresh one), and the canonical store becomes
`votes'`: the vote itself at its index when the slot was empty or the vote is
for `maj23`, the old vote otherwise. -/
theorem Inv.addToStore {ks : KeyScheme} {vs : VoteSet} (h : Inv ks vs) {vote : Vote}
    (hacc : vs.Accepts ks vote.validatorIndex vote)
    (hfree : BlockVotes.getByIndex (vs.votesByBlock vote.blockID) vote.validatorIndex = none)
    {bv₀ : BlockVotes}
    (hbv₀ : vs.votesByBlock vote.blockID = some bv₀ ∨
      (vs.votesByBlock vote.blockID = none ∧ bv₀ = newBlockVotes false vs.valSet.size))
    {votes' : List (Option Vote)} {bits' : Option BitArray} {sum' vsum' : ℤ}
    (hstore : StoreInv vs.valSet.size vs.powerAt Option.isSome votes' bits' sum')
    (hoff : ∀ j, j ≠ vote.validatorIndex → votes'.getD j none = vs.votes.getD j none)
    (hat : (votes'.getD vote.validatorIndex none = some vote ∧
        (vs.getByIndex vote.validatorIndex = none ∨ vs.maj23 = some vote.blockID)) ∨
      (votes'.getD vote.validatorIndex none = vs.getByIndex vote.validatorIndex ∧
        (∃ e, vs.getByIndex vote.validatorIndex = some e ∧ e.blockID ≠ vote.blockID) ∧
        vs.maj23 ≠ some vote.blockID)) :
    Inv ks
      { vs with
        votes := votes'
        votesBitArray := bits'
        sum := sum'
        vsum := vsum'
        votesByBlock := Function.update vs.votesByBlock vote.blockID
          (some (bv₀.addVerifiedVote vote (vs.powerAt vote.validatorIndex))) } := by
  have hi := hacc.lt_size
  -- the block's store before the add: consistent, and empty at the vote's index
  have hB₀ : StoreInv vs.valSet.size vs.powerAt isAgree bv₀.votes bv₀.bitArray bv₀.sum ∧
      ∀ j v, bv₀.votes.getD j none = some v →
        v.blockID = vote.blockID ∧ vs.Accepts ks j v ∧ (vs.getByIndex j).isSome := by
    rcases hbv₀ with h₀ | ⟨-, rfl⟩
    · exact ⟨(h.blocks _ _ h₀).store, (h.blocks _ _ h₀).vote⟩
    · exact ⟨StoreInv.empty _ _ rfl, fun j v hv => by simp [newBlockVotes] at hv⟩
  have hfree₀ : bv₀.votes.getD vote.validatorIndex none = none := by
    rcases hbv₀ with h₀ | ⟨-, rfl⟩
    · simpa [h₀, BlockVotes.getByIndex] using hfree
    · simp [newBlockVotes]
  -- the block's store after the add
  have hstore' := hB₀.1.set hi vote
  rw [hfree₀, isAgree_sum] at hstore'
  have hslot : ∀ j, (bv₀.addVerifiedVote vote (vs.powerAt vote.validatorIndex)).votes.getD j none =
      if j = vote.validatorIndex then some vote else bv₀.votes.getD j none := by
    intro j
    rw [BlockVotes.addVerifiedVote_eq hfree₀]
    exact getD_set_none (hB₀.1.length_eq ▸ hi) _ j
  -- the canonical slot of the vote's validator stays filled
  have hsome_at : (votes'.getD vote.validatorIndex none).isSome := by
    rcases hat with ⟨hv, -⟩ | ⟨hv, ⟨e, he, -⟩, -⟩
    · rw [hv]
      rfl
    · rw [hv, he]
      rfl
  have hsome : ∀ j, (vs.getByIndex j).isSome → (votes'.getD j none).isSome := by
    intro j hj
    by_cases hji : j = vote.validatorIndex
    · exact hji ▸ hsome_at
    · rw [hoff j hji]
      exact hj
  refine ⟨hstore, fun j v hv => ?_, fun k bv hk => ?_, fun b hb => ?_, fun b bv hb hk => ?_,
    fun j v hv => ?_, fun hnn b bv hb hk => ?_⟩
  · -- accepts: the new vote, or a vote that was there
    change votes'.getD j none = some v at hv
    by_cases hji : j = vote.validatorIndex
    · subst hji
      rcases hat with ⟨hv', -⟩ | ⟨hv', -, -⟩
      · rw [hv'] at hv
        cases hv
        exact hacc
      · exact h.accepts _ v (hv'.symm.trans hv)
    · exact h.accepts j v ((hoff j hji).symm.trans hv)
  · -- blocks: the vote's block gets the new store, the others keep theirs
    dsimp only at hk
    by_cases hkb : k = vote.blockID
    · subst hkb
      simp only [Function.update_self, Option.some.injEq] at hk
      subst hk
      rw [BlockVotes.addVerifiedVote_eq hfree₀]
      refine ⟨hstore', fun j v hv => ?_⟩
      rw [← BlockVotes.addVerifiedVote_eq hfree₀, hslot] at hv
      by_cases hji : j = vote.validatorIndex
      · rw [if_pos hji] at hv
        cases hv
        exact ⟨rfl, hji ▸ hacc, hji ▸ hsome_at⟩
      · rw [if_neg hji] at hv
        obtain ⟨hk, hacc', hs⟩ := hB₀.2 j v hv
        exact ⟨hk, hacc', hsome j hs⟩
    · rw [Function.update_of_ne hkb] at hk
      have hb := h.blocks k bv hk
      exact ⟨hb.store, fun j v hv => by
        obtain ⟨hk', hacc', hs⟩ := hb.vote j v hv
        exact ⟨hk', hacc', hsome j hs⟩⟩
  · -- maj23 stays tracked
    change (Function.update vs.votesByBlock vote.blockID _ b).isSome
    by_cases hkb : b = vote.blockID
    · subst hkb
      simp
    · rw [Function.update_of_ne hkb]
      exact h.maj23_tracked b hb
  · -- maj23's votes stay canonical
    intro j v hv
    change votes'.getD j none = some v
    dsimp only at hk
    by_cases hkb : b = vote.blockID
    · subst hkb
      simp only [Function.update_self, Option.some.injEq] at hk
      subst hk
      rw [hslot] at hv
      by_cases hji : j = vote.validatorIndex
      · rw [if_pos hji] at hv
        cases hv
        subst hji
        rcases hat with ⟨hv', -⟩ | ⟨-, -, hne⟩
        · exact hv'
        · exact absurd hb hne
      · rw [if_neg hji] at hv
        have h₀ : vs.votesByBlock vote.blockID = some bv₀ := by
          rcases hbv₀ with h₀ | ⟨hnone, -⟩
          · exact h₀
          · simpa [hnone] using h.maj23_tracked _ hb
        rw [hoff j hji]
        exact h.maj23_canonical _ bv₀ hb h₀ j v hv
    · rw [Function.update_of_ne hkb] at hk
      have hold := h.maj23_canonical b bv hb hk j v hv
      by_cases hji : j = vote.validatorIndex
      · subst hji
        rcases hat with ⟨-, hnone | hmaj⟩ | ⟨hv', -, -⟩
        · rw [hnone] at hold
          cases hold
        · rw [hb] at hmaj
          exact absurd (Option.some.inj hmaj) hkb
        · exact hv'.trans hold
      · rw [hoff j hji]
        exact hold
  · -- every canonical vote stays tracked by its block
    change votes'.getD j none = some v at hv
    have htrack : ∀ w, vs.getByIndex j = some w → w.blockID ≠ vote.blockID ∨ j ≠ vote.validatorIndex →
        ∃ bv, Function.update vs.votesByBlock vote.blockID
          (some (bv₀.addVerifiedVote vote (vs.powerAt vote.validatorIndex))) w.blockID = some bv ∧
          (bv.votes.getD j none = some w ∨ vs.maj23 = some w.blockID) := by
      intro w hw hne
      obtain ⟨bv, hbv, hor⟩ := h.tracked j w hw
      by_cases hkb : w.blockID = vote.blockID
      · have hji : j ≠ vote.validatorIndex := hne.resolve_left (not_not.mpr hkb)
        refine ⟨_, by rw [hkb, Function.update_self], ?_⟩
        rw [hslot, if_neg hji]
        rw [hkb] at hbv
        rcases hbv₀ with h₀ | ⟨hnone, -⟩
        · rw [h₀] at hbv
          cases hbv
          exact hor
        · rw [hnone] at hbv
          cases hbv
      · exact ⟨bv, by rw [Function.update_of_ne hkb, hbv], hor⟩
    by_cases hji : j = vote.validatorIndex
    · subst hji
      rcases hat with ⟨hv', -⟩ | ⟨hv', ⟨e, he, hne⟩, -⟩
      · rw [hv'] at hv
        cases hv
        exact ⟨_, Function.update_self .., .inl (by rw [hslot, if_pos rfl])⟩
      · rw [hv', he] at hv
        cases hv
        exact htrack _ he (.inl hne)
    · exact htrack v ((hoff j hji).symm.trans hv) (.inr hji)
  · -- maj23's sum only grows
    dsimp only at hk
    by_cases hkb : b = vote.blockID
    · subst hkb
      simp only [Function.update_self, Option.some.injEq] at hk
      subst hk
      have h₀ : vs.votesByBlock vote.blockID = some bv₀ := by
        rcases hbv₀ with h₀ | ⟨hnone, -⟩
        · exact h₀
        · simpa [hnone] using h.maj23_tracked _ hb
      have hq := h.maj23_quorum hnn _ bv₀ hb h₀
      have hp : 0 ≤ vs.powerAt vote.validatorIndex := by
        obtain ⟨-, -, -, -, -, val, hval, -⟩ := hacc
        simpa [powerAt, hval] using hnn val (List.mem_of_getElem? hval)
      rw [BlockVotes.addVerifiedVote_eq hfree₀]
      change twoThirds vs.valSet.totalVotingPower + 1 ≤
        if vote.result = voteAgree then bv₀.sum + _ else bv₀.sum
      split <;> omega
    · rw [Function.update_of_ne hkb] at hk
      exact h.maj23_quorum hnn b bv hb hk

/-- **The copy-over.**  When block `k` first reaches the quorum it becomes
`maj23`, and its votes overwrite the canonical ones. -/
theorem Inv.copyMaj23 {ks : KeyScheme} {vs : VoteSet} (h : Inv ks vs) {k : BlockID}
    {bv : BlockVotes} (hnone : vs.maj23 = none) (hk : vs.votesByBlock k = some bv)
    (hq : twoThirds vs.valSet.totalVotingPower + 1 ≤ bv.sum) :
    Inv ks { vs with maj23 := some k, votes := overwriteVotes vs.votes bv.votes } := by
  have hB := h.blocks k bv hk
  have hle : bv.votes.length ≤ vs.votes.length := by
    rw [hB.store.length_eq, h.canonical.length_eq]
  have hslot : ∀ j, (overwriteVotes vs.votes bv.votes).getD j none =
      (bv.votes.getD j none).or (vs.votes.getD j none) :=
    getD_overwriteVotes vs.votes bv.votes hle
  -- the copy-over fills no new slot
  have hsome : ∀ j, (vs.getByIndex j).isSome →
      ((overwriteVotes vs.votes bv.votes).getD j none).isSome := by
    intro j hj
    rw [hslot]
    cases bv.votes.getD j none with
    | none => exact hj
    | some a => rfl
  refine ⟨h.canonical.overwrite hB.store.length_eq fun j a ha => (hB.vote j a ha).2.2,
    fun j v hv => ?_, fun k' bv' hk' => ?_, fun b hb => ?_, fun b bv' hb hk' => ?_,
    fun j v hv => ?_, fun _ b bv' hb hk' => ?_⟩
  · change (overwriteVotes vs.votes bv.votes).getD j none = some v at hv
    rw [hslot] at hv
    cases hs : bv.votes.getD j none with
    | none =>
        rw [hs] at hv
        exact h.accepts j v hv
    | some a =>
        rw [hs] at hv
        cases hv
        exact (hB.vote j _ hs).2.1
  · have hb := h.blocks k' bv' hk'
    exact ⟨hb.store, fun j v hv => by
      obtain ⟨hk'', hacc, hs⟩ := hb.vote j v hv
      exact ⟨hk'', hacc, hsome j hs⟩⟩
  · cases hb
    simp [hk]
  · cases hb
    rw [hk] at hk'
    cases hk'
    intro j v hv
    change (overwriteVotes vs.votes bv.votes).getD j none = some v
    rw [hslot, hv]
    rfl
  · change (overwriteVotes vs.votes bv.votes).getD j none = some v at hv
    rw [hslot] at hv
    cases hs : bv.votes.getD j none with
    | none =>
        -- an old canonical vote: its block tracks it, as `maj23` was unset
        rw [hs] at hv
        obtain ⟨bv'', h'', hor⟩ := h.tracked j v hv
        rw [hnone] at hor
        exact ⟨bv'', h'', .inl (hor.resolve_right (by simp))⟩
    | some a =>
        rw [hs] at hv
        cases hv
        have hkv := (hB.vote j _ hs).1
        exact ⟨bv, hkv ▸ hk, .inl hs⟩
  · cases hb
    rw [hk] at hk'
    cases hk'
    exact hq

/-- **The replacement that is not tracked.**  A vote for `maj23` that conflicts
with the canonical one replaces it, while the store of `maj23`, which no peer
vouched for, does not record it. -/
theorem Inv.replaceCanonical {ks : KeyScheme} {vs : VoteSet} (h : Inv ks vs) {vote e : Vote}
    (hacc : vs.Accepts ks vote.validatorIndex vote) (hmaj : vs.maj23 = some vote.blockID)
    (hfree : BlockVotes.getByIndex (vs.votesByBlock vote.blockID) vote.validatorIndex = none)
    (he : vs.getByIndex vote.validatorIndex = some e) :
    Inv ks { vs with
      votes := vs.votes.set vote.validatorIndex (some vote)
      votesBitArray := BitArray.setIndex vs.votesBitArray vote.validatorIndex true } := by
  have hi := hacc.lt_size
  have hi' : vote.validatorIndex < vs.votes.length := h.canonical.length_eq ▸ hi
  have hslot : ∀ j, (vs.votes.set vote.validatorIndex (some vote)).getD j none =
      if j = vote.validatorIndex then some vote else vs.votes.getD j none :=
    getD_set_none hi' _
  -- the slot was filled, so the sum does not move
  have hstore := h.canonical.set hi vote
  have he' : vs.votes.getD vote.validatorIndex none = some e := he
  simp only [he', Option.isSome_some, if_true, sub_self, add_zero] at hstore
  obtain ⟨bv, hbv⟩ := Option.isSome_iff_exists.mp (h.maj23_tracked _ hmaj)
  have hfree' : bv.votes.getD vote.validatorIndex none = none := by
    simpa [hbv, BlockVotes.getByIndex] using hfree
  have hsome : ∀ j, (vs.getByIndex j).isSome →
      ((vs.votes.set vote.validatorIndex (some vote)).getD j none).isSome := by
    intro j hj
    rw [hslot]
    split
    · rfl
    · exact hj
  refine ⟨hstore, fun j v hv => ?_, fun k bv' hk => ?_, h.maj23_tracked,
    fun b bv' hb hk j v hv => ?_, fun j v hv => ?_, h.maj23_quorum⟩
  · change (vs.votes.set vote.validatorIndex (some vote)).getD j none = some v at hv
    rw [hslot] at hv
    split at hv
    · cases hv
      rename_i hj
      exact hj ▸ hacc
    · exact h.accepts j v hv
  · have hb := h.blocks k bv' hk
    exact ⟨hb.store, fun j v hv => by
      obtain ⟨hk', hacc', hs⟩ := hb.vote j v hv
      exact ⟨hk', hacc', hsome j hs⟩⟩
  · change (vs.votes.set vote.validatorIndex (some vote)).getD j none = some v
    rw [hslot]
    rw [hmaj] at hb
    cases hb
    rw [hbv] at hk
    cases hk
    split
    · rename_i hj
      rw [hj, hfree'] at hv
      cases hv
    · exact h.maj23_canonical _ bv hmaj hbv j v hv
  · change (vs.votes.set vote.validatorIndex (some vote)).getD j none = some v at hv
    rw [hslot] at hv
    split at hv
    · cases hv
      exact ⟨bv, hbv, .inr hmaj⟩
    · exact h.tracked j v hv

/-- A first vote is always tracked: by the block's store, or by a fresh one. -/
theorem trackedBlockVotes_none {vs : VoteSet} {k : BlockID} {bv₀ : BlockVotes}
    (h : vs.trackedBlockVotes k none = some bv₀) :
    vs.votesByBlock k = some bv₀ ∨
      (vs.votesByBlock k = none ∧ bv₀ = newBlockVotes false vs.valSet.size) := by
  unfold trackedBlockVotes at h
  split at h
  · rename_i bv hbv
    simp only [Option.isSome_none, Bool.false_and, Bool.false_eq_true, if_false,
      Option.some.injEq] at h
    exact .inl (h ▸ hbv)
  · rename_i hnone
    simp only [Option.isSome_none, Bool.false_eq_true, if_false, Option.some.injEq] at h
    exact .inr ⟨hnone, h.symm⟩

/-- A conflicting vote is tracked only by an existing store. -/
theorem trackedBlockVotes_some {vs : VoteSet} {k : BlockID} {e : Vote} {bv₀ : BlockVotes}
    (h : vs.trackedBlockVotes k (some e) = some bv₀) : vs.votesByBlock k = some bv₀ := by
  unfold trackedBlockVotes at h
  split at h
  · rename_i bv hbv
    split at h
    · cases h
    · cases h
      exact hbv
  · simp at h

/-- **The verified add keeps the invariant**, for a vote that passed the checks
of `addVote` and that `getVote` did not find. -/
theorem Inv.addVerifiedVote {ks : KeyScheme} {vs vs' : VoteSet} (h : Inv ks vs) {vote : Vote}
    (hacc : vs.Accepts ks vote.validatorIndex vote)
    (hget : vs.getVote vote.validatorIndex vote.blockID = none) {r : Bool × Option Vote}
    (hres : vs.addVerifiedVote vote vote.blockID (vs.powerAt vote.validatorIndex) = .ok (r, vs')) :
    Inv ks vs' := by
  obtain ⟨hother, hfree⟩ := getVote_eq_none hget
  have hi := hacc.lt_size
  have hi' : vote.validatorIndex < vs.votes.length := h.canonical.length_eq ▸ hi
  obtain ⟨c, vs₁, hrec, hcase⟩ := addVerifiedVote_eq hres
  -- the per-block phase, from any canonical phase that `Inv.addToStore` covers
  have hblock : ∀ bv₀, vs₁.trackedBlockVotes vote.blockID c = some bv₀ →
      (vs.votesByBlock vote.blockID = some bv₀ ∨
        (vs.votesByBlock vote.blockID = none ∧ bv₀ = newBlockVotes false vs.valSet.size)) →
      Inv ks
        { vs₁ with
          votesByBlock := Function.update vs.votesByBlock vote.blockID
            (some (bv₀.addVerifiedVote vote (vs.powerAt vote.validatorIndex))) } →
      vs₁.votesByBlock = vs.votesByBlock →
      Inv ks (vs₁.addToBlock vote vote.blockID (vs.powerAt vote.validatorIndex) bv₀) := by
    intro bv₀ _ _ h₂ hblocks
    unfold addToBlock
    dsimp only
    rw [hblocks]
    split
    · rename_i hcross
      obtain ⟨-, hq, hnone⟩ := hcross
      exact h₂.copyMaj23 hnone (Function.update_self ..) hq
    · exact h₂
  cases hslot : vs.getByIndex vote.validatorIndex with
  | none =>
      -- a first vote of this validator
      rw [recordVote_of_none hslot] at hrec
      cases hrec
      rcases hcase with ⟨ht, -⟩ | ⟨bv₀, ht, rfl⟩
      · simp [trackedBlockVotes] at ht
        split at ht <;> simp at ht
      · have hbv₀ := trackedBlockVotes_none ht
        have hstore := h.canonical.set hi vote
        have hs : vs.votes.getD vote.validatorIndex none = none := hslot
        simp only [hs, Option.isSome_some, Option.isSome_none, if_true, Bool.false_eq_true,
          if_false, sub_zero] at hstore
        refine hblock bv₀ ht hbv₀ ?_ rfl
        exact h.addToStore hacc hfree hbv₀ hstore (fun j hj => by rw [getD_set_none hi', if_neg hj])
          (.inl ⟨by rw [getD_set_none hi', if_pos rfl], .inl hslot⟩)
  | some e =>
      -- a conflicting vote: its block is another one
      have hne : e.blockID ≠ vote.blockID := hother e hslot
      rw [recordVote_of_some hslot hne] at hrec
      by_cases hmaj : vs.maj23 = some vote.blockID
      · rw [if_pos hmaj] at hrec
        cases hrec
        rcases hcase with ⟨-, rfl⟩ | ⟨bv₀, ht, rfl⟩
        · exact h.replaceCanonical hacc hmaj hfree hslot
        · -- a peer vouched for `maj23`: the store records the replacing vote
          have hbv₀ : vs.votesByBlock vote.blockID = some bv₀ := trackedBlockVotes_some ht
          have hstore := h.canonical.set hi vote
          have hs : vs.votes.getD vote.validatorIndex none = some e := hslot
          simp only [hs, Option.isSome_some, if_true, sub_self, add_zero] at hstore
          refine hblock bv₀ ht (.inl hbv₀) ?_ rfl
          exact h.addToStore hacc hfree (.inl hbv₀) hstore
            (fun j hj => by rw [getD_set_none hi', if_neg hj])
            (.inl ⟨by rw [getD_set_none hi', if_pos rfl], .inr hmaj⟩)
      · rw [if_neg hmaj] at hrec
        cases hrec
        rcases hcase with ⟨-, rfl⟩ | ⟨bv₀, ht, rfl⟩
        · exact h
        · have hbv₀ : vs.votesByBlock vote.blockID = some bv₀ := trackedBlockVotes_some ht
          refine hblock bv₀ ht (.inl hbv₀) ?_ rfl
          exact h.addToStore hacc hfree (.inl hbv₀) h.canonical (fun j _ => rfl)
            (.inr ⟨rfl, ⟨e, hslot, hne⟩, hmaj⟩)

/-- **`addVote` keeps the invariant.** -/
theorem Inv.addVote {ks : KeyScheme} {vs vs' : VoteSet} (h : Inv ks vs) {v : Option Vote}
    {r : Bool × Option VoteError} (hres : vs.addVote ks v = .ok (r, vs')) : Inv ks vs' := by
  rcases addVote_cases hres with rfl | ⟨vote, -, hacc, hget, r', hadd⟩
  · exact h
  · exact h.addVerifiedVote hacc hget hadd

/-! ### Runs -/

/-- The vote sets a run of `AddVote` and `SetPeerMaj23` calls produces from
`NewVoteSet`. -/
inductive Reachable (ks : KeyScheme) : VoteSet → Prop
  | newVoteSet {chainID : String} {height round : ℕ} {typeB : UInt8} {valSet : ValidatorSet}
      {vs : VoteSet} : newVoteSet chainID height round typeB valSet = .ok vs → Reachable ks vs
  | addVote {vs vs' : VoteSet} {v : Option Vote} {r : Bool × Option VoteError} :
      Reachable ks vs → vs.addVote ks v = .ok (r, vs') → Reachable ks vs'
  | setPeerMaj23 {vs : VoteSet} (peerID : P2PID) (blockID : BlockID) :
      Reachable ks vs → Reachable ks (vs.setPeerMaj23 peerID blockID).2

/-- **The run lemma**: every reachable vote set satisfies the invariant. -/
theorem Reachable.inv {ks : KeyScheme} {vs : VoteSet} (h : vs.Reachable ks) : Inv ks vs := by
  induction h with
  | newVoteSet h => exact inv_newVoteSet ks h
  | addVote _ hres ih => exact ih.addVote hres
  | setPeerMaj23 peerID blockID _ ih => exact ih.setPeerMaj23 peerID blockID

/-- A call a run makes on a vote set. -/
inductive Op where
  | addVote (v : Option Vote)
  | setPeerMaj23 (peerID : P2PID) (blockID : BlockID)

/-- Making the calls one after another, ignoring their answers; a panic stops
the run. -/
def runOps (ks : KeyScheme) (vs : VoteSet) : List Op → Except String VoteSet
  | [] => pure vs
  | .addVote v :: rest => do
      let (_, vs') ← vs.addVote ks v
      runOps ks vs' rest
  | .setPeerMaj23 peerID blockID :: rest => runOps ks (vs.setPeerMaj23 peerID blockID).2 rest

theorem Reachable.runOps {ks : KeyScheme} :
    ∀ {vs vs' : VoteSet} (ops : List Op), vs.Reachable ks → VoteSet.runOps ks vs ops = .ok vs' →
      vs'.Reachable ks
  | _, _, [], h, hres => by
      cases hres
      exact h
  | vs, _, .addVote v :: rest, h, hres => by
      unfold VoteSet.runOps at hres
      cases hadd : vs.addVote ks v with
      | error msg =>
          rw [hadd] at hres
          cases hres
      | ok res =>
          rw [hadd] at hres
          exact Reachable.runOps rest (h.addVote hadd) hres
  | _, _, .setPeerMaj23 peerID blockID :: rest, h, hres =>
      Reachable.runOps rest (h.setPeerMaj23 peerID blockID) hres

/-- A vote set made by `NewVoteSet` and a run of calls is reachable. -/
theorem reachable_of_run {ks : KeyScheme} {chainID : String} {height round : ℕ} {typeB : UInt8}
    {valSet : ValidatorSet} {ops : List Op} {vs : VoteSet}
    (h : (newVoteSet chainID height round typeB valSet >>= fun vs₀ => runOps ks vs₀ ops) = .ok vs) :
    vs.Reachable ks := by
  cases h₀ : newVoteSet chainID height round typeB valSet with
  | error msg =>
      rw [h₀] at h
      cases h
  | ok vs₀ =>
      rw [h₀] at h
      exact Reachable.runOps ops (.newVoteSet h₀) h

/-! ### What every call does -/

/-- On a vote `getVote` did not find, `addVerifiedVote` does not panic, and it
leaves a vote out only when that vote conflicts. -/
theorem addVerifiedVote_ok {vs : VoteSet} {vote : Vote} {p : ℤ}
    (hother : ∀ e, vs.getByIndex vote.validatorIndex = some e → e.blockID ≠ vote.blockID) :
    ∃ added conflicting vs', vs.addVerifiedVote vote vote.blockID p = .ok ((added, conflicting), vs') ∧
      (added = false → conflicting.isSome) := by
  unfold addVerifiedVote
  cases hslot : vs.getByIndex vote.validatorIndex with
  | none =>
      rw [recordVote_of_none hslot]
      simp only [bind, Except.bind]
      split
      · -- a first vote is always tracked
        rename_i ht
        unfold trackedBlockVotes at ht
        split at ht <;> simp at ht
      · exact ⟨true, none, _, rfl, by simp⟩
  | some e =>
      rw [recordVote_of_some hslot (hother e hslot)]
      simp only [bind, Except.bind]
      split
      · exact ⟨false, some e, _, rfl, fun _ => rfl⟩
      · exact ⟨true, some e, _, rfl, by simp⟩

/-- **`AddVote` never panics**, on any vote set: a vote that `getVote` misses
is never a duplicate, and a vote that is left out always conflicts. -/
theorem addVote_ne_error (ks : KeyScheme) (vs : VoteSet) (v : Option Vote) (msg : String) :
    vs.addVote ks v ≠ .error msg := by
  unfold addVote
  split
  · simp [pure, Except.pure]
  · rename_i vote
    split
    · simp [pure, Except.pure]
    · split
      · simp [pure, Except.pure]
      · split
        · simp [pure, Except.pure]
        · rename_i lookupAddr val hval
          split
          · simp [pure, Except.pure]
          · split
            · split <;> simp [pure, Except.pure]
            · rename_i hget
              split
              · simp [pure, Except.pure]
              · obtain ⟨added, conflicting, vs', hadd, hleft⟩ :=
                  @addVerifiedVote_ok vs vote val.votingPower (getVote_eq_none hget).1
                rw [hadd]
                simp only [bind, Except.bind]
                split
                · simp [pure, Except.pure]
                · rename_i hconf
                  have hadded : added = true := by
                    by_contra hf
                    exact hconf (hleft (eq_false_of_ne_true hf))
                  simp [hadded, pure, Except.pure]

/-- The canonical phase never touches `maj23`. -/
theorem maj23_recordVote {vs vs₁ : VoteSet} {vote : Vote} {k : BlockID} {p : ℤ} {c : Option Vote}
    (h : vs.recordVote vote k p = .ok (c, vs₁)) : vs₁.maj23 = vs.maj23 := by
  unfold recordVote at h
  split at h
  · split at h
    · cases h
    · split at h <;> cases h <;> rfl
  · cases h
    rfl

/-- The per-block phase sets `maj23` only when it is unset. -/
theorem maj23_addToBlock {vs : VoteSet} {vote : Vote} {k b : BlockID} {p : ℤ} {bv : BlockVotes}
    (hb : vs.maj23 = some b) : (vs.addToBlock vote k p bv).maj23 = some b := by
  unfold addToBlock
  dsimp only
  split
  · rename_i hc
    exact absurd hc.2.2 (by simp [hb])
  · exact hb

/-- **`maj23`, once set, never changes** under `AddVote`. -/
theorem maj23_addVote {ks : KeyScheme} {vs vs' : VoteSet} {v : Option Vote}
    {r : Bool × Option VoteError} (hres : vs.addVote ks v = .ok (r, vs')) {b : BlockID}
    (hb : vs.maj23 = some b) : vs'.maj23 = some b := by
  rcases addVote_cases hres with rfl | ⟨vote, -, -, -, r', hadd⟩
  · exact hb
  · obtain ⟨c, vs₁, hrec, hcase⟩ := addVerifiedVote_eq hadd
    have h₁ : vs₁.maj23 = some b := (maj23_recordVote hrec).trans hb
    rcases hcase with ⟨-, rfl⟩ | ⟨bv, -, rfl⟩
    · exact h₁
    · exact maj23_addToBlock h₁

/-- `SetPeerMaj23` never touches `maj23`. -/
theorem maj23_setPeerMaj23 (vs : VoteSet) (peerID : P2PID) (blockID : BlockID) :
    (vs.setPeerMaj23 peerID blockID).2.maj23 = vs.maj23 := by
  obtain ⟨ps, g, heq, -⟩ := setPeerMaj23_eq vs peerID blockID
  rw [heq]

/-! ### Weights -/

theorem powerAt_nonneg {vs : VoteSet} (hnn : ∀ v ∈ vs.valSet.validators, 0 ≤ v.votingPower)
    (i : ℕ) : 0 ≤ vs.powerAt i := by
  unfold powerAt
  cases h : vs.valSet.validators[i]? with
  | none => rfl
  | some v => exact hnn v (List.mem_of_getElem? h)

/-- The powers of all validators add up to the total power. -/
theorem sum_powerAt (vs : VoteSet) :
    ∑ i ∈ range vs.valSet.size, vs.powerAt i = (vs.valSet.validators.map Validator.votingPower).sum := by
  rw [sum_range, ← List.sum_ofFn]
  congr 1
  apply List.ext_getElem (by simp [ValidatorSet.size])
  intro n h₁ h₂
  have hn : n < vs.valSet.validators.length := by simpa using h₂
  simp [powerAt, List.getElem?_eq_getElem hn]

/-- **Quorum intersection in a vote set.**  Two block stores that both reach
two thirds of the total power hold votes of common validators whose power
exceeds a third of the total. -/
theorem Inv.quorum_inter {ks : KeyScheme} {vs : VoteSet} (h : Inv ks vs)
    (hnn : ∀ v ∈ vs.valSet.validators, 0 ≤ v.votingPower) {k₁ k₂ : BlockID} {bv₁ bv₂ : BlockVotes}
    (h₁ : vs.votesByBlock k₁ = some bv₁) (h₂ : vs.votesByBlock k₂ = some bv₂)
    (hq₁ : (vs.valSet.validators.map Validator.votingPower).sum * 2 / 3 + 1 ≤ bv₁.sum)
    (hq₂ : (vs.valSet.validators.map Validator.votingPower).sum * 2 / 3 + 1 ≤ bv₂.sum) :
    (vs.valSet.validators.map Validator.votingPower).sum <
      3 * ∑ i ∈ range vs.valSet.size with
        ((bv₁.votes.getD i none).isSome ∧ (bv₂.votes.getD i none).isSome), vs.powerAt i := by
  have hw := powerAt_nonneg hnn
  have hle₁ := (h.blocks k₁ bv₁ h₁).store.sum_le_filled hw
  have hle₂ := (h.blocks k₂ bv₂ h₂).store.sum_le_filled hw
  rw [← sum_powerAt] at hq₁ hq₂ ⊢
  rw [filter_and]
  exact Quorum.quorum_inter (fun i _ => hw i) (filter_subset _ _) (filter_subset _ _)
    (hq₁.trans hle₁) (hq₂.trans hle₂)

end VoteSet

end RpcNetwork.Tbft.Types
