import RpcNetwork.Consensus.Clique.SnapshotTally

/-!
# Runs of clique snapshots

`apply` replays headers over a snapshot, and a node builds its snapshots by
replaying the chain from a checkpoint, cached snapshot by cached snapshot.
This module proves what makes that sound and what every snapshot so built
satisfies.

## Design notes

The window is stated on `Nat`: a block number is read through `toNat` and the
limit `len(Signers)/2 + 1` is a natural number.  Go computes it in `uint64`,
where it can only wrap with `2^64` signers; where it does the window in `Nat`
holds for every block, so the proofs split on whether the limit is below
`2^64`.
-/

namespace RpcNetwork.Consensus.Clique

variable {α H E : Type}

/-- The headers number the blocks right after `n`, one by one. -/
def follows (n : UInt64) : List (Header α H) → Bool
  | [] => true
  | h :: hs => h.number == n + 1 && follows h.number hs

theorem consecutive_cons (h : Header α H) : ∀ hs : List (Header α H),
    consecutive (h :: hs) = follows h.number hs
  | [] => rfl
  | h₂ :: hs => by
    rw [consecutive, follows, consecutive_cons h₂ hs]

/-- Two runs follow `n` together when the first does and the second follows
the first's last block. -/
theorem follows_append (n : UInt64) (l₁ l₂ : List (Header α H)) :
    follows n (l₁ ++ l₂) = (follows n l₁ && follows (n + l₁.length.toUInt64) l₂) := by
  induction l₁ generalizing n with
  | nil => simp [follows]
  | cons h l₁ ih =>
    rw [List.cons_append, follows, follows, ih, Bool.and_assoc]
    by_cases hn : h.number = n + 1
    · rw [hn, List.length_cons]
      congr 3
      simp [UInt64.add_assoc, UInt64.add_comm 1]
    · have hf : (h.number == n + 1) = false := by simpa using hn
      rw [hf, Bool.false_and, Bool.false_and]

/-! ## The window of recent signers -/

namespace Voting

/-- **The recent signers sealed the last blocks.**  Every block in `Recents`
is one of the last `len(Signers)/2 + 1` blocks up to `number`. -/
def RecentsWindow (s : Voting α) (number : UInt64) : Prop :=
  ∀ k ∈ s.recents.keys, number.toNat < k.toNat + (s.signers.card / 2 + 1) ∧ k ≤ number

namespace RecentsWindow

variable {s : Voting α} {number : UInt64}

theorem congr {t : Voting α} (h : s.RecentsWindow number) (hs : t.signers = s.signers)
    (hr : t.recents = s.recents) : t.RecentsWindow number := by
  unfold RecentsWindow
  rw [hs, hr]
  exact h

/-- More signers make the window wider. -/
theorem mono {t : Voting α} (h : s.RecentsWindow number) (hs : s.signers.card ≤ t.signers.card)
    (hr : t.recents = s.recents) : t.RecentsWindow number := by
  intro k hk
  rw [hr] at hk
  obtain ⟨hlt, hle⟩ := h k hk
  exact ⟨by omega, hle⟩

/-- The block just sealed is the top of the window. -/
theorem recordRecent (h : s.RecentsWindow number) (σ : α) :
    (s.recordRecent number σ).RecentsWindow number := by
  intro k hk
  rcases (AList.mem_insert _).mp (AList.mem_keys.mpr hk) with rfl | hk
  · exact ⟨by omega, UInt64.le_iff_toNat_le.mpr (le_refl _)⟩
  · exact h k (AList.mem_keys.mp hk)

end RecentsWindow

/-- `forgetRecent` drops the block that falls out of the window.  Before it the
block about to be sealed may be one past the window; after it, it is in. -/
theorem recentsWindow_forgetRecent {s : Voting α} {number : UInt64}
    (h : ∀ k ∈ s.recents.keys, number.toNat ≤ k.toNat + (s.signers.card / 2 + 1) ∧ k ≤ number) :
    (s.forgetRecent number).RecentsWindow number := by
  intro k hk
  rw [forgetRecent_signers]
  have hN : number.toNat < 2 ^ 64 := UInt64.toNat_lt number
  -- below `2^64` the `uint64` limit is the limit; above, the window is every block
  have hlim : s.signers.card / 2 + 1 < 2 ^ 64 →
      (s.signers.card / 2 + 1).toUInt64.toNat = s.signers.card / 2 + 1 := by
    intro hL
    rw [Nat.toUInt64_eq, UInt64.toNat_ofNat']
    exact Nat.mod_eq_of_lt hL
  unfold forgetRecent at hk
  dsimp only at hk
  split_ifs at hk with hge
  · obtain ⟨hne, hk⟩ := AList.mem_erase.mp (AList.mem_keys.mpr hk)
    obtain ⟨hle, hkn⟩ := h k (AList.mem_keys.mp hk)
    refine ⟨?_, hkn⟩
    by_cases hL : s.signers.card / 2 + 1 < 2 ^ 64
    · have hsub : (number - (s.signers.card / 2 + 1).toUInt64).toNat =
          number.toNat - (s.signers.card / 2 + 1) := by
        rw [UInt64.toNat_sub_of_le _ _ hge, hlim hL]
      have hne' : k.toNat ≠ number.toNat - (s.signers.card / 2 + 1) :=
        fun heq => hne (UInt64.toNat_inj.mp (heq.trans hsub.symm))
      have hge' := UInt64.le_iff_toNat_le.mp hge
      rw [hlim hL] at hge'
      omega
    · omega
  · obtain ⟨hle, hkn⟩ := h k hk
    refine ⟨?_, hkn⟩
    by_cases hL : s.signers.card / 2 + 1 < 2 ^ 64
    · have hlt : ¬ (s.signers.card / 2 + 1).toUInt64.toNat ≤ number.toNat :=
        fun hle => hge (UInt64.le_iff_toNat_le.mpr hle)
      rw [hlim hL] at hlt
      omega
    · omega

end Voting

variable [DecidableEq α]

/-! ## The fold law -/

namespace Snapshot

variable {ecrecover : Header α H → Except E α} {epoch : UInt64}

theorem apply_nil (s : Snapshot α H) : s.apply ecrecover epoch [] = .ok s := rfl

/-- `apply` of a non-empty run: the run follows the snapshot's block, the loop
succeeds, and the snapshot moves to the run's last block. -/
theorem apply_eq_ok_iff {s : Snapshot α H} {headers : List (Header α H)} (hne : headers ≠ [])
    {t : Snapshot α H} :
    s.apply ecrecover epoch headers = .ok t ↔ follows s.number headers = true ∧
      ∃ v, headers.foldlM (Voting.applyHeader ecrecover epoch) s.toVoting = .ok v ∧
        t = { v with number := s.number + headers.length.toUInt64,
                     hash := (headers.getLast hne).hash } := by
  obtain ⟨first, rest, rfl⟩ := List.exists_cons_of_ne_nil hne
  have hf : follows s.number (first :: rest) =
      (first.number == s.number + 1 && consecutive (first :: rest)) := by
    rw [follows, consecutive_cons]
  rw [hf]
  simp only [Snapshot.apply, Except.ite_throw_eq_ok, Except.bind_eq_ok, Except.pure_eq_ok,
    Bool.and_eq_true, beq_iff_eq, Bool.not_eq_eq_eq_not, Bool.not_true, Bool.not_eq_false, ne_eq,
    not_not]
  constructor
  · rintro ⟨hc, hn, v, hv, rfl⟩
    exact ⟨⟨hn, hc⟩, v, hv, rfl⟩
  · rintro ⟨⟨hn, hc⟩, v, hv, rfl⟩
    exact ⟨hc, hn, v, hv, rfl⟩

/-- **The fold law.**  Replaying `h₁ ++ h₂` succeeds exactly when replaying
`h₁` and then, from its result, `h₂` does, and the two end in the same
snapshot. -/
theorem apply_append (s : Snapshot α H) (h₁ h₂ : List (Header α H)) (t : Snapshot α H) :
    s.apply ecrecover epoch (h₁ ++ h₂) = .ok t ↔
      ∃ t₁, s.apply ecrecover epoch h₁ = .ok t₁ ∧ t₁.apply ecrecover epoch h₂ = .ok t := by
  rcases eq_or_ne h₁ [] with rfl | hne₁
  · simp [apply_nil]
  rcases eq_or_ne h₂ [] with rfl | hne₂
  · simp [apply_nil]
  have hne : h₁ ++ h₂ ≠ [] := by simp [hne₁]
  simp only [apply_eq_ok_iff hne, apply_eq_ok_iff hne₁, apply_eq_ok_iff hne₂, follows_append,
    Bool.and_eq_true, List.foldlM_append, Except.bind_eq_ok]
  -- the run over both lists ends where the second run, from the end of the first, ends
  have hnumber : s.number + (h₁ ++ h₂).length.toUInt64 =
      s.number + h₁.length.toUInt64 + h₂.length.toUInt64 := by
    simp [UInt64.add_assoc]
  have hhash : (h₁ ++ h₂).getLast hne = h₂.getLast hne₂ := List.getLast_append_of_ne_nil hne hne₂
  constructor
  · rintro ⟨⟨hf₁, hf₂⟩, v, ⟨v₁, hv₁, hv⟩, rfl⟩
    refine ⟨_, ⟨hf₁, v₁, hv₁, rfl⟩, hf₂, v, hv, ?_⟩
    rw [hnumber, hhash]
  · rintro ⟨t₁, ⟨hf₁, v₁, hv₁, rfl⟩, hf₂, v, hv, rfl⟩
    refine ⟨⟨hf₁, hf₂⟩, v, ⟨v₁, hv₁, hv⟩, ?_⟩
    rw [hnumber, hhash]

/-- A replayed run keeps the voting invariant. -/
theorem inv_apply {s t : Snapshot α H} {headers : List (Header α H)} (hi : s.toVoting.Inv)
    (h : s.apply ecrecover epoch headers = .ok t) : t.toVoting.Inv := by
  rcases eq_or_ne headers [] with rfl | hne
  · rw [apply_nil, Except.ok.injEq] at h
    exact h ▸ hi
  · obtain ⟨-, v, hv, rfl⟩ := (apply_eq_ok_iff hne).mp h
    exact Except.foldlM_inv (fun _ _ _ hs hstep => hs.applyHeader hstep) headers _ _ hi hv

/-- `apply` of one header is that header's step. -/
theorem apply_singleton_eq_ok {s t : Snapshot α H} {header : Header α H}
    (h : s.apply ecrecover epoch [header] = .ok t) :
    Voting.applyHeader ecrecover epoch s.toVoting header = .ok t.toVoting := by
  obtain ⟨-, v, hv, rfl⟩ := (apply_eq_ok_iff (List.cons_ne_nil header [])).mp h
  simp only [List.foldlM_cons, List.foldlM_nil, bind_pure] at hv
  exact hv

end Snapshot

/-! ## Headers and the window -/

namespace Voting

namespace RecentsWindow

variable {s : Voting α} {number : UInt64}

theorem discardVote (h : s.RecentsWindow number) (σ c : α) :
    (s.discardVote σ c).RecentsWindow number :=
  h.congr (discardVote_signers s c σ) (discardVote_recents s c σ)

theorem tallyVote (h : s.RecentsWindow number) (σ c : α) (b : Bool) :
    (s.tallyVote σ number c b).RecentsWindow number :=
  h.congr (tallyVote_signers s c b σ number) (tallyVote_recents s c b σ number)

/-- A passed vote keeps the window: one more signer widens it, one fewer
narrows it by at most one block, which the second `forgetRecent` drops. -/
theorem passVote (h : s.RecentsWindow number) (c : α) (b : Bool) :
    (s.passVote c b number).RecentsWindow number := by
  cases b
  · set w : Voting α := { s with signers := s.signers.erase c }
    have hcard : s.signers.card - 1 ≤ w.signers.card := by
      show s.signers.card - 1 ≤ (s.signers.erase c).card
      by_cases hc : c ∈ s.signers
      · rw [Finset.card_erase_of_mem hc]
      · rw [Finset.erase_eq_of_notMem hc]
        omega
    have hw : ∀ k ∈ w.recents.keys,
        number.toNat ≤ k.toNat + (w.signers.card / 2 + 1) ∧ k ≤ number := by
      intro k hk
      obtain ⟨hlt, hle⟩ := h k hk
      exact ⟨by omega, hle⟩
    refine (recentsWindow_forgetRecent hw).congr ?_ ?_
    · rw [passVote_signers]
      simp [w]
    · show ((w.forgetRecent number).discardVotesBy c).recents = (w.forgetRecent number).recents
      exact discardVotesBy_recents _ c
  · exact h.mono (by simpa [passVote_signers] using Finset.card_le_card (Finset.subset_insert c s.signers))
      rfl

theorem updateSigners (h : s.RecentsWindow number) (c : α) :
    (s.updateSigners c number).RecentsWindow number := by
  unfold Voting.updateSigners
  dsimp only
  split_ifs
  · exact h.passVote c _
  · exact h

variable {ecrecover : Header α H → Except E α} {epoch : UInt64}

/-- **One header moves the window up by one block.** -/
theorem applyHeader {s' : Voting α} (h : s.RecentsWindow number) {header : Header α H}
    (hn : header.number.toNat = number.toNat + 1)
    (happ : Voting.applyHeader ecrecover epoch s header = .ok s') :
    s'.RecentsWindow header.number := by
  obtain ⟨σ, b, -, -, -, -, -, rfl⟩ := applyHeader_eq_ok happ
  have h0 : ∀ k ∈ (s.checkpoint epoch header.number).recents.keys,
      header.number.toNat ≤ k.toNat + ((s.checkpoint epoch header.number).signers.card / 2 + 1) ∧
        k ≤ header.number := by
    intro k hk
    rw [checkpoint_recents] at hk
    rw [checkpoint_signers]
    obtain ⟨hlt, hle⟩ := h k hk
    have hle' := UInt64.le_iff_toNat_le.mp hle
    exact ⟨by omega, UInt64.le_iff_toNat_le.mpr (by omega)⟩
  exact ((((recentsWindow_forgetRecent h0).recordRecent σ).discardVote σ header.coinbase).tallyVote
    σ header.coinbase b).updateSigners header.coinbase

/-- **A run of headers that does not wrap moves the window to its last
block.** -/
theorem foldlM : ∀ (headers : List (Header α H)) (s s' : Voting α) (n : UInt64),
    follows n headers = true → n.toNat + headers.length < 2 ^ 64 → s.RecentsWindow n →
    headers.foldlM (Voting.applyHeader ecrecover epoch) s = .ok s' →
    s'.RecentsWindow (n + headers.length.toUInt64)
  | [], s, s', n, _, _, h, happ => by
    rw [List.foldlM_nil, Except.pure_eq_ok] at happ
    subst happ
    simpa using h
  | header :: hs, s, s', n, hf, hlen, h, happ => by
    rw [follows, Bool.and_eq_true, beq_iff_eq] at hf
    rw [List.foldlM_cons, Except.bind_eq_ok] at happ
    obtain ⟨t, ht, hrest⟩ := happ
    rw [List.length_cons] at hlen
    -- the header's number is one above `n`, with no wrap
    have hnum : header.number.toNat = n.toNat + 1 := by
      rw [hf.1, UInt64.toNat_add, UInt64.toNat_one]
      exact Nat.mod_eq_of_lt (by omega)
    have hrun := foldlM hs t s' header.number hf.2 (by omega) (h.applyHeader hnum ht) hrest
    have hend : n + (header :: hs).length.toUInt64 = header.number + hs.length.toUInt64 := by
      rw [hf.1, List.length_cons]
      simp [UInt64.add_assoc, UInt64.add_comm 1]
    rw [hend]
    exact hrun

end RecentsWindow

end Voting

/-- A replayed run that does not wrap keeps the window. -/
theorem Snapshot.recentsWindow_apply {ecrecover : Header α H → Except E α} {epoch : UInt64}
    {s t : Snapshot α H} {headers : List (Header α H)} (h : s.toVoting.RecentsWindow s.number)
    (hlen : s.number.toNat + headers.length < 2 ^ 64) (happ : s.apply ecrecover epoch headers = .ok t) :
    t.toVoting.RecentsWindow t.number := by
  rcases eq_or_ne headers [] with rfl | hne
  · rw [Snapshot.apply_nil, Except.ok.injEq] at happ
    exact happ ▸ h
  · obtain ⟨hf, v, hv, rfl⟩ := (Snapshot.apply_eq_ok_iff hne).mp happ
    exact Voting.RecentsWindow.foldlM headers _ _ _ hf hlen h hv

/-! ## Snapshots a node builds -/

/-- The snapshots built from `newSnapshot` by `apply`, each run replayed being
one that `allowed` lets through. -/
inductive Reachable (ecrecover : Header α H → Except E α) (epoch : UInt64)
    (allowed : Snapshot α H → List (Header α H) → Prop) : Snapshot α H → Prop
  | newSnapshot (number : UInt64) (hash : H) (signers : List α) :
      Reachable ecrecover epoch allowed (newSnapshot number hash signers)
  | apply {s t : Snapshot α H} {headers : List (Header α H)} :
      Reachable ecrecover epoch allowed s → allowed s headers →
        s.apply ecrecover epoch headers = .ok t → Reachable ecrecover epoch allowed t

theorem inv_newSnapshot (number : UInt64) (hash : H) (signers : List α) :
    (newSnapshot number hash signers).toVoting.Inv where
  counts := Voting.Counts.nil _
  nodup := List.nodup_nil
  signer_mem := by simp [newSnapshot]
  recents_nodup := by simp [newSnapshot]

namespace Reachable

variable {ecrecover : Header α H → Except E α} {epoch : UInt64}
  {allowed : Snapshot α H → List (Header α H) → Prop} {s : Snapshot α H}

/-- **Every snapshot built satisfies the voting invariant.** -/
theorem inv (hs : Reachable ecrecover epoch allowed s) : s.toVoting.Inv := by
  induction hs with
  | newSnapshot number hash signers => exact inv_newSnapshot number hash signers
  | apply _ _ happ ih => exact Snapshot.inv_apply ih happ

/-- **The window of recent signers holds on runs that do not wrap.** -/
theorem recentsWindow (hs : Reachable ecrecover epoch allowed s)
    (hallowed : ∀ t headers, allowed t headers → t.number.toNat + headers.length < 2 ^ 64) :
    s.toVoting.RecentsWindow s.number := by
  induction hs with
  | newSnapshot number hash signers =>
    intro k hk
    exact absurd hk List.not_mem_nil
  | apply _ hal happ ih => exact Snapshot.recentsWindow_apply ih (hallowed _ _ hal) happ

end Reachable

/-- A run across the wrap of `uint64` block numbers: three signers seal the
blocks `2^64 - 2`, `2^64 - 1` and `0`. -/
def wrapRun : List (Header ℕ ℕ) :=
  [⟨18446744073709551614, 0, 0, 1⟩, ⟨18446744073709551615, 0, 0, 2⟩, ⟨0, 0, 0, 3⟩]

end RpcNetwork.Consensus.Clique
