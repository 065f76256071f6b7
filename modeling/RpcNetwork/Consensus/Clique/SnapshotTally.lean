import RpcNetwork.Consensus.Clique.Snapshot
import RpcNetwork.Lib.ExceptRun

/-!
# The tally of a clique snapshot

`Snapshot.Tally` caches the direction and count of each account's pending
votes, which `apply` keeps in step with `Votes` by hand.  This module proves
the cache right after every header, with the other facts the loop relies on.

## Design notes

`Counts` takes the direction as a parameter rather than reading it off the
signers.  While a deauthorized signer's votes are uncast the tally is right for
the old signers; the erasure that follows restores it for the new.
-/

namespace RpcNetwork.Consensus.Clique

/-- What a signer votes on at most once: itself and the account. -/
def Vote.key {α : Type} (w : Vote α) : α × α :=
  (w.signer, w.address)

namespace Voting

variable {α : Type}

/-! ## What each stage touches -/

section Reset

variable (s : Voting α)

@[simp] theorem checkpoint_signers (epoch number : UInt64) :
    (s.checkpoint epoch number).signers = s.signers := by
  unfold checkpoint; split_ifs <;> rfl

@[simp] theorem checkpoint_recents (epoch number : UInt64) :
    (s.checkpoint epoch number).recents = s.recents := by
  unfold checkpoint; split_ifs <;> rfl

@[simp] theorem forgetRecent_signers (number : UInt64) :
    (s.forgetRecent number).signers = s.signers := by
  unfold forgetRecent; dsimp only; split_ifs <;> rfl

@[simp] theorem forgetRecent_votes (number : UInt64) :
    (s.forgetRecent number).votes = s.votes := by
  unfold forgetRecent; dsimp only; split_ifs <;> rfl

@[simp] theorem forgetRecent_tally (number : UInt64) :
    (s.forgetRecent number).tally = s.tally := by
  unfold forgetRecent; dsimp only; split_ifs <;> rfl

theorem votes_subset_checkpoint (epoch number : UInt64) :
    (s.checkpoint epoch number).votes ⊆ s.votes := by
  unfold checkpoint
  split_ifs
  · exact List.nil_subset _
  · exact List.Subset.refl _

@[simp] theorem recordRecent_signers (number : UInt64) (σ : α) :
    (s.recordRecent number σ).signers = s.signers := rfl

@[simp] theorem recordRecent_votes (number : UInt64) (σ : α) :
    (s.recordRecent number σ).votes = s.votes := rfl

@[simp] theorem recordRecent_tally (number : UInt64) (σ : α) :
    (s.recordRecent number σ).tally = s.tally := rfl

/-- Forgetting a recent signer keeps the recent signers distinct. -/
theorem nodup_recents_forgetRecent (h : (s.recents.entries.map Sigma.snd).Nodup)
    (number : UInt64) :
    ((s.forgetRecent number).recents.entries.map Sigma.snd).Nodup := by
  unfold forgetRecent
  dsimp only
  split_ifs
  · exact h.sublist ((List.kerase_sublist _ _).map _)
  · exact h

end Reset

variable [DecidableEq α]

section Stages

variable (s : Voting α) (a : α) (b : Bool)

@[simp] theorem uncast_signers : (s.uncast a b).2.signers = s.signers := by
  unfold uncast; split <;> (try split_ifs) <;> rfl

@[simp] theorem uncast_votes : (s.uncast a b).2.votes = s.votes := by
  unfold uncast; split <;> (try split_ifs) <;> rfl

@[simp] theorem uncast_recents : (s.uncast a b).2.recents = s.recents := by
  unfold uncast; split <;> (try split_ifs) <;> rfl

@[simp] theorem cast_signers : (s.cast a b).2.signers = s.signers := by
  unfold cast; split_ifs <;> (try split) <;> rfl

@[simp] theorem cast_votes : (s.cast a b).2.votes = s.votes := by
  unfold cast; split_ifs <;> (try split) <;> rfl

@[simp] theorem cast_recents : (s.cast a b).2.recents = s.recents := by
  unfold cast; split_ifs <;> (try split) <;> rfl

@[simp] theorem uncastVotesBy_signers (σ : α) :
    ∀ (l : List (Vote α)) (s : Voting α), (uncastVotesBy σ l s).signers = s.signers
  | [], _ => rfl
  | v :: l, s => by
    unfold uncastVotesBy
    split_ifs
    · rw [uncastVotesBy_signers σ l, uncast_signers]
    · exact uncastVotesBy_signers σ l s

@[simp] theorem uncastVotesBy_recents (σ : α) :
    ∀ (l : List (Vote α)) (s : Voting α), (uncastVotesBy σ l s).recents = s.recents
  | [], _ => rfl
  | v :: l, s => by
    unfold uncastVotesBy
    split_ifs
    · rw [uncastVotesBy_recents σ l, uncast_recents]
    · exact uncastVotesBy_recents σ l s

@[simp] theorem discardVote_signers (σ : α) : (s.discardVote σ a).signers = s.signers := by
  unfold discardVote; split <;> simp

@[simp] theorem discardVote_recents (σ : α) : (s.discardVote σ a).recents = s.recents := by
  unfold discardVote; split <;> simp

end Stages

/-! ## `cast` and `uncast` -/

/-- The way a meaningful vote on `a` goes: to add it when it is not a signer,
to drop it when it is. -/
def direction (s : Voting α) (a : α) : Bool :=
  decide (a ∉ s.signers)

@[simp] theorem validVote_eq_true_iff {s : Voting α} {a : α} {b : Bool} :
    s.validVote a b = true ↔ b = s.direction a := by
  unfold validVote direction
  by_cases h : a ∈ s.signers <;> cases b <;> simp [h]

theorem direction_congr {s t : Voting α} (h : s.signers = t.signers) : s.direction = t.direction := by
  unfold direction
  rw [h]

/-- `uncast` of a vote that the tally counts takes one off its count, and drops
the entry with the last one. -/
theorem lookup_uncast {s : Voting α} {a : α} {t : Tally} (h : s.tally.lookup a = some t) (x : α) :
    (s.uncast a t.authorize).2.tally.lookup x =
      if x = a then (if t.votes > 1 then some { t with votes := t.votes - 1 } else none)
      else s.tally.lookup x := by
  unfold uncast
  rw [h]
  dsimp only
  rw [if_neg (not_not.mpr rfl)]
  by_cases hx : x = a
  · subst hx
    rw [if_pos rfl]
    split_ifs <;> simp
  · rw [if_neg hx]
    split_ifs <;> simp [AList.lookup_insert_ne hx, AList.lookup_erase_ne hx]

/-- `cast` of a meaningful vote adds one to the count of its address, starting a
new entry in the vote's direction if there was none. -/
theorem lookup_cast {s : Voting α} {a : α} {b : Bool} (hv : s.validVote a b = true) (x : α) :
    (s.cast a b).2.tally.lookup x =
      if x = a then some ((s.tally.lookup a).elim ⟨b, 1⟩ fun old => { old with votes := old.votes + 1 })
      else s.tally.lookup x := by
  unfold cast
  rw [if_neg (by simp [hv])]
  by_cases hx : x = a
  · subst hx
    split <;> simp_all
  · split <;> simp [AList.lookup_insert_ne hx, hx]

@[simp] theorem cast_fst (s : Voting α) (a : α) (b : Bool) : (s.cast a b).1 = s.validVote a b := by
  unfold cast; split_ifs with h <;> (try split) <;> simp_all

theorem cast_of_validVote_eq_false {s : Voting α} {a : α} {b : Bool} (hv : s.validVote a b = false) :
    (s.cast a b).2 = s := by
  unfold cast; rw [if_pos (by simp [hv])]

/-- `tallyVote` records a meaningful vote and counts it, and ignores any other. -/
theorem tallyVote_eq (s : Voting α) (σ : α) (number : UInt64) (a : α) (b : Bool) :
    s.tallyVote σ number a b =
      if s.validVote a b then { (s.cast a b).2 with votes := s.votes ++ [⟨σ, number, a, b⟩] }
      else s := by
  unfold tallyVote
  split
  rename_i counted t hcast
  have hc : counted = s.validVote a b := by rw [← cast_fst, hcast]
  have ht : t = (s.cast a b).2 := by rw [hcast]
  subst hc ht
  split_ifs with hv
  · simp
  · exact cast_of_validVote_eq_false (Bool.eq_false_iff.mpr hv)

@[simp] theorem tallyVote_signers (s : Voting α) (a : α) (b : Bool) (σ : α) (number : UInt64) :
    (s.tallyVote σ number a b).signers = s.signers := by
  rw [tallyVote_eq]; split_ifs <;> simp

@[simp] theorem tallyVote_recents (s : Voting α) (a : α) (b : Bool) (σ : α) (number : UInt64) :
    (s.tallyVote σ number a b).recents = s.recents := by
  rw [tallyVote_eq]; split_ifs <;> simp

@[simp] theorem discardVotesBy_signers (s : Voting α) (σ : α) :
    (s.discardVotesBy σ).signers = s.signers := by
  simp [discardVotesBy]

@[simp] theorem discardVotesBy_recents (s : Voting α) (σ : α) :
    (s.discardVotesBy σ).recents = s.recents := by
  simp [discardVotesBy]

@[simp] theorem discardVotesBy_votes (s : Voting α) (σ : α) :
    (s.discardVotesBy σ).votes = s.votes.filter fun w => w.signer != σ := rfl

/-- A vote that passes adds its account to the signers or drops it from them. -/
theorem passVote_signers (s : Voting α) (c : α) (b : Bool) (number : UInt64) :
    (s.passVote c b number).signers = if b then insert c s.signers else s.signers.erase c := by
  cases b <;> simp [passVote]

/-! ## The tally counts the votes -/

/-- How many of `votes` are on `a`. -/
def votesOn (votes : List (Vote α)) (a : α) : ℕ :=
  votes.countP fun w => w.address == a

theorem votesOn_pos {votes : List (Vote α)} {w : Vote α} (hw : w ∈ votes) :
    0 < votesOn votes w.address :=
  List.countP_pos_iff.mpr ⟨w, hw, by simp⟩

/-- **The tally counts the votes.**  Every vote goes the way `dir` gives its
address, and the tally holds, for each address with votes, that direction and
their number, and nothing for the others. -/
structure Counts (dir : α → Bool) (tally : AList fun _ : α => Tally) (votes : List (Vote α)) :
    Prop where
  /-- Every vote goes the way `dir` gives. -/
  authorize : ∀ w ∈ votes, w.authorize = dir w.address
  /-- The entry of each address. -/
  lookup : ∀ a, tally.lookup a =
    if votesOn votes a = 0 then none else some ⟨dir a, votesOn votes a⟩

namespace Counts

variable {dir : α → Bool} {tally : AList fun _ : α => Tally} {votes votes' : List (Vote α)}

theorem nil (dir : α → Bool) : Counts dir ∅ [] where
  authorize := by simp
  lookup := by simp [votesOn]

/-- Only how many votes there are on each address matters, not their order. -/
theorem perm (hc : Counts dir tally votes) (h : votes.Perm votes') : Counts dir tally votes' where
  authorize w hw := hc.authorize w (h.mem_iff.mpr hw)
  lookup a := by rw [hc.lookup, votesOn, votesOn, h.countP_eq]

/-- An account has an entry exactly when some vote is on it. -/
theorem isSome_lookup_iff (hc : Counts dir tally votes) (a : α) :
    (tally.lookup a).isSome ↔ ∃ w ∈ votes, w.address = a := by
  rw [hc.lookup a]
  split_ifs with h0
  · simp only [Option.isSome_none, Bool.false_eq_true, false_iff, not_exists, not_and]
    intro w hw hwa
    exact absurd h0 (hwa ▸ (votesOn_pos hw).ne')
  · simp only [Option.isSome_some, true_iff]
    obtain ⟨w, hw, hwa⟩ := List.countP_pos_iff.mp (Nat.pos_of_ne_zero h0)
    exact ⟨w, hw, by simpa using hwa⟩

/-- An entry holds the direction and the number of the votes on its account. -/
theorem eq_of_lookup (hc : Counts dir tally votes) {a : α} {t : Tally}
    (h : tally.lookup a = some t) : t = ⟨dir a, votesOn votes a⟩ := by
  rw [hc.lookup a] at h
  split_ifs at h
  exact (Option.some.inj h).symm

theorem lookup_of_mem (hc : Counts dir tally votes) {w : Vote α} (hw : w ∈ votes) :
    tally.lookup w.address = some ⟨dir w.address, votesOn votes w.address⟩ := by
  rw [hc.lookup, if_neg (votesOn_pos hw).ne']

/-- **Uncasting a counted vote** and removing it from the list keep the count. -/
theorem uncast {s : Voting α} (hc : Counts dir s.tally votes) {w : Vote α} (hw : w ∈ votes) :
    Counts dir (s.uncast w.address w.authorize).2.tally (votes.erase w) := by
  have hpos := votesOn_pos hw
  have herase : ∀ a, votesOn (votes.erase w) a =
      votesOn votes a - if w.address = a then 1 else 0 := by
    intro a
    simp [votesOn, List.countP_erase, hw]
  refine ⟨fun v hv => hc.authorize v (List.erase_sublist.subset hv), fun a => ?_⟩
  rw [hc.authorize w hw, lookup_uncast (hc.lookup_of_mem hw) a, herase a]
  by_cases ha : a = w.address
  · -- the count of the vote's address drops by one, and the entry goes with the last vote
    subst ha
    rw [if_pos rfl, if_pos rfl]
    dsimp only
    split_ifs <;> first | rfl | omega
  · rw [if_neg ha, if_neg (Ne.symm ha), hc.lookup a, Nat.sub_zero]

/-- **Casting a meaningful vote** and appending it to the list keep the count. -/
theorem cast {s : Voting α} (hc : Counts dir s.tally votes) {w : Vote α}
    (hv : s.validVote w.address w.authorize = true) (hdir : w.authorize = dir w.address) :
    Counts dir (s.cast w.address w.authorize).2.tally (votes ++ [w]) := by
  have happend : ∀ a, votesOn (votes ++ [w]) a = votesOn votes a + if w.address = a then 1 else 0 := by
    intro a
    simp [votesOn, List.countP_append]
  refine ⟨fun v hv' => ?_, fun a => ?_⟩
  · rcases List.mem_append.mp hv' with hv' | hv'
    · exact hc.authorize v hv'
    · rw [List.mem_singleton.mp hv']
      exact hdir
  · rw [lookup_cast hv a, happend a]
    by_cases ha : a = w.address
    · -- a first vote opens the entry in its own direction, a later one adds to it
      subst ha
      rw [if_pos rfl, if_pos rfl, if_neg (Nat.succ_ne_zero _), hc.lookup]
      split_ifs with h0
      · simp [hdir, h0]
      · simp
    · rw [if_neg ha, if_neg (Ne.symm ha), hc.lookup a, Nat.add_zero]

/-- **Dropping an account's entry with all the votes on it** keeps the count,
for any direction that agrees off that account. -/
theorem erase (hc : Counts dir tally votes) {dir' : α → Bool} {c : α}
    (hd : ∀ a, a ≠ c → dir' a = dir a) :
    Counts dir' (tally.erase c) (votes.filter fun w => w.address != c) := by
  refine ⟨fun w hw => ?_, fun a => ?_⟩
  · obtain ⟨hw, hne⟩ := List.mem_filter.mp hw
    rw [hd _ (by simpa using hne)]
    exact hc.authorize w hw
  · by_cases ha : a = c
    · subst ha
      have h0 : votesOn (votes.filter fun w => w.address != a) a = 0 := by
        simp [votesOn, List.countP_filter]
      rw [AList.lookup_erase, h0, if_pos rfl]
    · have hsame : votesOn (votes.filter fun w => w.address != c) a = votesOn votes a := by
        rw [votesOn, votesOn, List.countP_filter]
        congr 1
        funext w
        by_cases hw : w.address = a
        · simp [hw, ha]
        · simp [hw]
      rw [AList.lookup_erase_ne ha, hc.lookup a, hd a ha, hsame]

/-- **Uncasting every vote of a signer**, one after the other, keeps the count
of the votes left.  The votes before the ones uncast so far are carried in
`others`. -/
theorem uncastVotesBy (σ : α) : ∀ (l others : List (Vote α)) (s : Voting α),
    Counts dir s.tally (others ++ l) →
    Counts dir (Voting.uncastVotesBy σ l s).tally (others ++ l.filter fun w => w.signer != σ)
  | [], others, s, hc => by simpa [Voting.uncastVotesBy] using hc
  | v :: l, others, s, hc => by
    unfold Voting.uncastVotesBy
    by_cases hv : v.signer = σ
    · rw [if_pos hv]
      have hmem : v ∈ others ++ v :: l := by simp
      have hperm : ((others ++ v :: l).erase v).Perm (others ++ l) :=
        (List.perm_cons v).mp ((List.perm_cons_erase hmem).symm.trans List.perm_middle)
      have := uncastVotesBy σ l others _ ((hc.uncast hmem).perm hperm)
      simpa [List.filter_cons, hv] using this
    · rw [if_neg hv]
      have := uncastVotesBy σ l (others ++ [v]) s (by simpa using hc)
      simpa [List.filter_cons, hv] using this

theorem discardVotesBy {s : Voting α} (hc : Counts dir s.tally s.votes) (σ : α) :
    Counts dir (s.discardVotesBy σ).tally (s.discardVotesBy σ).votes := by
  have := uncastVotesBy σ s.votes [] s (by simpa using hc)
  simpa [Voting.discardVotesBy] using this

theorem discardVote {s : Voting α} (hc : Counts dir s.tally s.votes) (σ c : α) :
    Counts dir (s.discardVote σ c).tally (s.discardVote σ c).votes := by
  unfold Voting.discardVote
  split
  · rename_i w hw
    simpa using hc.uncast (List.mem_of_find?_eq_some hw)
  · exact hc

end Counts

theorem discardVote_votes_sublist (s : Voting α) (σ c : α) :
    (s.discardVote σ c).votes.Sublist s.votes := by
  unfold discardVote
  split
  · exact List.erase_sublist
  · exact List.Sublist.refl _

/-- **`discardVote` leaves the signer no vote on the account**, when it had at
most one. -/
theorem key_ne_of_mem_discardVote {s : Voting α} (hn : (s.votes.map Vote.key).Nodup) (σ c : α) :
    ∀ w ∈ (s.discardVote σ c).votes, w.key ≠ (σ, c) := by
  unfold discardVote
  split
  · rename_i v hv
    obtain ⟨hpv, pre, post, hsplit, hpre⟩ := List.find?_eq_some_iff_append.mp hv
    have hvkey : v.key = (σ, c) := by simpa [Vote.key] using hpv
    have hvpre : v ∉ pre := fun h => by simpa [hpv] using hpre v h
    intro w hw hkey
    simp only [hsplit, List.erase_append_right _ hvpre, List.erase_cons_head] at hw
    rcases List.mem_append.mp hw with hw | hw
    · -- no vote before the one found matches
      have := hpre w hw
      simp_all [Vote.key]
    · -- and none after it has its key, as keys are unique
      rw [hsplit] at hn
      have hn2 := List.nodup_cons.mp (hn.sublist ((List.sublist_append_right pre (v :: post)).map _))
      exact hn2.1 (List.mem_map.mpr ⟨w, hw, hkey.trans hvkey.symm⟩)
  · rename_i hnone
    intro w hw hkey
    have := List.find?_eq_none.mp hnone w hw
    simp_all [Vote.key]

/-! ## The invariant -/

/-- **The voting invariant** of the state between two headers. -/
structure Inv (s : Voting α) : Prop where
  /-- The tally counts the votes, which go the way the signers give. -/
  counts : Counts s.direction s.tally s.votes
  /-- A signer has at most one vote on each account. -/
  nodup : (s.votes.map Vote.key).Nodup
  /-- Only signers have votes. -/
  signer_mem : ∀ w ∈ s.votes, w.signer ∈ s.signers
  /-- No signer is recent twice. -/
  recents_nodup : (s.recents.entries.map Sigma.snd).Nodup

namespace Inv

variable {s : Voting α}

theorem checkpoint (hi : s.Inv) (epoch number : UInt64) : (s.checkpoint epoch number).Inv := by
  unfold Voting.checkpoint
  split_ifs
  · exact ⟨Counts.nil _, List.nodup_nil, by simp, hi.recents_nodup⟩
  · exact hi

theorem forgetRecent (hi : s.Inv) (number : UInt64) : (s.forgetRecent number).Inv := by
  refine ⟨?_, by simpa using hi.nodup, by simpa using hi.signer_mem,
    nodup_recents_forgetRecent s hi.recents_nodup number⟩
  rw [direction_congr (forgetRecent_signers s number)]
  simpa using hi.counts

theorem recordRecent (hi : s.Inv) {σ : α} (hσ : σ ∉ s.recents.entries.map Sigma.snd)
    (number : UInt64) : (s.recordRecent number σ).Inv := by
  refine ⟨hi.counts, hi.nodup, hi.signer_mem, ?_⟩
  have hsub := (List.kerase_sublist number s.recents.entries).map Sigma.snd
  show ((s.recents.insert number σ).entries.map Sigma.snd).Nodup
  rw [AList.entries_insert, List.map_cons, List.nodup_cons]
  exact ⟨fun h => hσ (hsub.subset h), hi.recents_nodup.sublist hsub⟩

theorem discardVote (hi : s.Inv) (σ c : α) : (s.discardVote σ c).Inv := by
  have hsub := discardVote_votes_sublist s σ c
  refine ⟨?_, hi.nodup.sublist (hsub.map _), fun w hw => ?_, by simpa using hi.recents_nodup⟩
  · rw [direction_congr (discardVote_signers s c σ)]
    exact hi.counts.discardVote σ c
  · simpa using hi.signer_mem w (hsub.subset hw)

/-- Recording a signer's vote on an account it has no vote on keeps the
invariant. -/
theorem tallyVote (hi : s.Inv) {σ c : α} (hσ : σ ∈ s.signers)
    (hfree : ∀ w ∈ s.votes, w.key ≠ (σ, c)) (number : UInt64) (b : Bool) :
    (s.tallyVote σ number c b).Inv := by
  rw [tallyVote_eq]
  split_ifs with hv
  · have hdir := validVote_eq_true_iff.mp hv
    set t : Voting α := { (s.cast c b).2 with votes := s.votes ++ [⟨σ, number, c, b⟩] } with ht
    have hsig : t.signers = s.signers := by simp [ht]
    have hrec : t.recents = s.recents := by simp [ht]
    refine ⟨?_, ?_, fun w hw => ?_, by rw [hrec]; exact hi.recents_nodup⟩
    · rw [direction_congr hsig]
      exact hi.counts.cast (w := ⟨σ, number, c, b⟩) hv hdir
    · rw [List.map_append, List.nodup_append]
      refine ⟨hi.nodup, List.nodup_singleton _, ?_⟩
      intro k hk k' hk'
      obtain ⟨w, hw, rfl⟩ := List.mem_map.mp hk
      rw [List.map_singleton, List.mem_singleton] at hk'
      rw [hk']
      exact hfree w hw
    · rw [hsig]
      rcases List.mem_append.mp hw with hw | hw
      · exact hi.signer_mem w hw
      · rw [List.mem_singleton.mp hw]
        exact hσ
  · exact hi

/-- A passed vote keeps the invariant, in either direction. -/
theorem passVote (hi : s.Inv) (c : α) (b : Bool) (number : UInt64) :
    (s.passVote c b number).Inv := by
  cases b
  · -- the account is dropped: its recent slot, its votes and the votes on it go
    set u := (({ s with signers := s.signers.erase c } : Voting α).forgetRecent number).discardVotesBy c
      with hu_def
    have hpass : s.passVote c false number =
        { u with votes := u.votes.filter fun w => w.address != c, tally := u.tally.erase c } := rfl
    have hsig : u.signers = s.signers.erase c := by simp [hu_def]
    have hvotes : u.votes = s.votes.filter fun w => w.signer != c := by simp [hu_def]
    have hu : Counts s.direction u.tally u.votes := Counts.discardVotesBy (by simpa using hi.counts) c
    rw [hpass]
    refine ⟨?_, ?_, fun w hw => ?_, ?_⟩
    · refine hu.erase fun a ha => ?_
      show decide (a ∉ u.signers) = decide (a ∉ s.signers)
      simp [hsig, ha]
    · rw [hvotes]
      exact hi.nodup.sublist ((List.filter_sublist.trans List.filter_sublist).map _)
    · obtain ⟨hw, -⟩ := List.mem_filter.mp hw
      rw [hvotes] at hw
      obtain ⟨hw, hne⟩ := List.mem_filter.mp hw
      show w.signer ∈ u.signers
      rw [hsig]
      exact Finset.mem_erase.mpr ⟨by simpa using hne, hi.signer_mem w hw⟩
    · show (u.recents.entries.map Sigma.snd).Nodup
      simpa [hu_def] using nodup_recents_forgetRecent (s := { s with signers := s.signers.erase c })
        hi.recents_nodup number
  · -- the account is added, and the votes on it go
    have hpass : s.passVote c true number =
        { signers := insert c s.signers, recents := s.recents,
          votes := s.votes.filter fun w => w.address != c, tally := s.tally.erase c } := rfl
    rw [hpass]
    refine ⟨?_, hi.nodup.sublist (List.filter_sublist.map _), fun w hw => ?_, hi.recents_nodup⟩
    · refine hi.counts.erase fun a ha => ?_
      show decide (a ∉ insert c s.signers) = decide (a ∉ s.signers)
      simp [ha]
    · exact Finset.mem_insert_of_mem (hi.signer_mem w (List.mem_filter.mp hw).1)

theorem updateSigners (hi : s.Inv) (c : α) (number : UInt64) : (s.updateSigners c number).Inv := by
  unfold Voting.updateSigners
  dsimp only
  split_ifs
  · exact hi.passVote c _ number
  · exact hi

end Inv

/-! ## Changes of the signers -/

/-- The signers with a vote on an account are as many as the votes on it, when
no signer votes twice on one account. -/
theorem card_voters {votes : List (Vote α)} (hn : (votes.map Vote.key).Nodup) (c : α) :
    ((votes.filter fun w => w.address == c).map Vote.signer).toFinset.card = votesOn votes c := by
  have hsub := hn.sublist ((List.filter_sublist (p := fun w => w.address == c)).map Vote.key)
  -- on the votes on `c` the key is the signer paired with `c`
  have hmap : (votes.filter fun w => w.address == c).map Vote.key =
      ((votes.filter fun w => w.address == c).map Vote.signer).map fun σ => (σ, c) := by
    rw [List.map_map]
    refine List.map_congr_left fun w hw => ?_
    have hc : w.address = c := by simpa using (List.mem_filter.mp hw).2
    simp [Vote.key, hc]
  rw [hmap] at hsub
  rw [List.toFinset_card_of_nodup (hsub.of_map _), List.length_map, votesOn,
    List.countP_eq_length_filter]

/-- **A change of signers was voted for by more than half of them.**  After
`updateSigners` the signers are the same, or more than half of them have a
vote on the account in its direction and the account has changed sides. -/
theorem Inv.exists_voters_of_updateSigners {s : Voting α} (hi : s.Inv) (c : α) (number : UInt64) :
    (s.updateSigners c number).signers = s.signers ∨
      (∃ voters : Finset α, voters ⊆ s.signers ∧ s.signers.card / 2 < voters.card ∧
        ∀ σ ∈ voters, ∃ w ∈ s.votes, w.signer = σ ∧ w.address = c ∧ w.authorize = s.direction c) ∧
      (s.updateSigners c number).signers =
        if c ∈ s.signers then s.signers.erase c else insert c s.signers := by
  unfold Voting.updateSigners
  dsimp only
  by_cases hpass : ((s.tally.lookup c).getD ⟨false, 0⟩).votes > s.signers.card / 2
  · right
    rw [if_pos hpass]
    -- a passing tally is the count of the votes on the account
    have hn : votesOn s.votes c ≠ 0 := by
      intro h0
      rw [hi.counts.lookup c, if_pos h0] at hpass
      simp at hpass
    have ht : (s.tally.lookup c).getD ⟨false, 0⟩ = ⟨s.direction c, votesOn s.votes c⟩ := by
      rw [hi.counts.lookup c, if_neg hn]
      rfl
    rw [ht] at hpass ⊢
    refine ⟨⟨((s.votes.filter fun w => w.address == c).map Vote.signer).toFinset, ?_, ?_, ?_⟩, ?_⟩
    · intro σ hσ
      obtain ⟨w, hw, rfl⟩ := List.mem_map.mp (List.mem_toFinset.mp hσ)
      exact hi.signer_mem w (List.mem_filter.mp hw).1
    · rw [card_voters hi.nodup c]
      exact hpass
    · intro σ hσ
      obtain ⟨w, hw, rfl⟩ := List.mem_map.mp (List.mem_toFinset.mp hσ)
      obtain ⟨hw, hc⟩ := List.mem_filter.mp hw
      have hc : w.address = c := by simpa using hc
      refine ⟨w, hw, rfl, hc, ?_⟩
      rw [← hc]
      exact hi.counts.authorize w hw
    · rw [passVote_signers]
      by_cases hc : c ∈ s.signers <;> simp [direction, hc]
  · left
    rw [if_neg hpass]

theorem mem_tallyVote_votes {s : Voting α} {σ c : α} {number : UInt64} {b : Bool} {w : Vote α}
    (hw : w ∈ (s.tallyVote σ number c b).votes) : w ∈ s.votes ∨ w = ⟨σ, number, c, b⟩ := by
  rw [tallyVote_eq] at hw
  split_ifs at hw
  · simpa using hw
  · exact Or.inl hw

/-! ## One header -/

section Header

variable {H E : Type} {ecrecover : Header α H → Except E α} {epoch : UInt64}

/-- **What an accepted header did.**  The epoch is not zero, the header's signer
is recovered, is a signer and is not among the recent ones once the oldest is
forgotten, the nonce is a vote, and the state is the one the stages build. -/
theorem applyHeader_eq_ok {s s' : Voting α} {header : Header α H}
    (h : applyHeader ecrecover epoch s header = .ok s') :
    ∃ σ b, epoch ≠ 0 ∧ ecrecover header = .ok σ ∧ σ ∈ s.signers ∧
      σ ∉ ((s.checkpoint epoch header.number).forgetRecent header.number).recents.entries.map
        Sigma.snd ∧
      nonceAuthorize header.nonce = some b ∧
      s' = (((((s.checkpoint epoch header.number).forgetRecent header.number).recordRecent
        header.number σ).discardVote σ header.coinbase).tallyVote σ header.number header.coinbase
          b).updateSigners header.coinbase header.number := by
  revert h
  unfold applyHeader
  dsimp only
  split_ifs with h0
  · simp
  rcases hrec : ecrecover header with err | σ
  · simp
  -- the signer is recovered: the two guards on it, then the nonce
  simp only [pure_bind, forgetRecent_signers, checkpoint_signers]
  by_cases hmem : σ ∈ s.signers
  swap
  · simp [hmem]
  by_cases hrecent : (((s.checkpoint epoch header.number).forgetRecent header.number).recents.entries.any
      fun r => r.snd == σ) = true
  · simp [hrecent, hmem]
  rw [if_neg (not_not.mpr hmem), if_neg hrecent]
  rcases hb : nonceAuthorize header.nonce with _ | b
  · simp
  intro h
  refine ⟨σ, b, h0, rfl, hmem, ?_, rfl, (Except.pure_eq_ok.mp h).symm⟩
  simpa using hrecent

/-- **Every accepted header keeps the invariant.** -/
theorem Inv.applyHeader {s s' : Voting α} (hi : s.Inv) {header : Header α H}
    (h : Voting.applyHeader ecrecover epoch s header = .ok s') : s'.Inv := by
  obtain ⟨σ, b, -, -, hσ, hrecent, -, rfl⟩ := applyHeader_eq_ok h
  have h1 := (hi.checkpoint epoch header.number).forgetRecent header.number
  have h2 := h1.recordRecent hrecent header.number
  have h3 := h2.discardVote σ header.coinbase
  have h4 := h3.tallyVote (by simpa using hσ) (key_ne_of_mem_discardVote h2.nodup σ header.coinbase)
    header.number b
  exact h4.updateSigners header.coinbase header.number

/-- **The signers change only by a vote that passed.**  After a header the
signers are the same, or more than half of them voted to move the header's
account to the other side: in the votes held before it, or, for its own
signer, in the header itself. -/
theorem Inv.signers_applyHeader {s s' : Voting α} (hi : s.Inv) {header : Header α H}
    (h : Voting.applyHeader ecrecover epoch s header = .ok s') :
    s'.signers = s.signers ∨
      (∃ voters : Finset α, voters ⊆ s.signers ∧ s.signers.card / 2 < voters.card ∧
        ∀ σ ∈ voters,
          (ecrecover header = .ok σ ∧
            nonceAuthorize header.nonce = some (s.direction header.coinbase)) ∨
          ∃ w ∈ s.votes, w.signer = σ ∧ w.address = header.coinbase ∧
            w.authorize = s.direction header.coinbase) ∧
      s'.signers = if header.coinbase ∈ s.signers then s.signers.erase header.coinbase
        else insert header.coinbase s.signers := by
  obtain ⟨σ, b, -, hrec, hσ, hrecent, hb, rfl⟩ := applyHeader_eq_ok h
  set t := (((s.checkpoint epoch header.number).forgetRecent header.number).recordRecent
    header.number σ).discardVote σ header.coinbase with ht
  have h2 := ((hi.checkpoint epoch header.number).forgetRecent header.number).recordRecent hrecent
    header.number
  have hu := (h2.discardVote σ header.coinbase).tallyVote (by simpa using hσ)
    (key_ne_of_mem_discardVote h2.nodup σ header.coinbase) header.number b
  have hsig : (t.tallyVote σ header.number header.coinbase b).signers = s.signers := by simp [ht]
  -- every vote held after counting was held before, or is the header's own
  have hvotes : ∀ w ∈ (t.tallyVote σ header.number header.coinbase b).votes,
      w ∈ s.votes ∨ w = ⟨σ, header.number, header.coinbase, b⟩ := by
    intro w hw
    rcases mem_tallyVote_votes hw with hw | hw
    · left
      have hw := (discardVote_votes_sublist _ σ header.coinbase).subset hw
      simp only [recordRecent_votes, forgetRecent_votes] at hw
      exact votes_subset_checkpoint s epoch header.number hw
    · exact Or.inr hw
  rcases hu.exists_voters_of_updateSigners header.coinbase header.number with hsame | ⟨hvoters, hnew⟩
  · left
    rw [hsame, hsig]
  · right
    rw [hsig] at hvoters hnew
    rw [direction_congr hsig] at hvoters
    refine ⟨?_, hnew⟩
    obtain ⟨voters, hsub, hcard, hmem⟩ := hvoters
    refine ⟨voters, hsub, hcard, fun σ' hσ' => ?_⟩
    obtain ⟨w, hw, hsw, hcw, haw⟩ := hmem σ' hσ'
    rcases hvotes w hw with hw | rfl
    · exact Or.inr ⟨w, hw, hsw, hcw, haw⟩
    · left
      subst hsw
      exact ⟨hrec, hb.trans (congrArg some haw)⟩

end Header

end Voting

end RpcNetwork.Consensus.Clique
