import RpcNetwork.Tbft.Types.PrivValidator

/-!
# Transcripts of the signer

The double-sign guard of `privValidator` over a whole sequence of `SignVote`
and `SignProposal` calls with no `Reset` between them.  Each call either signs
afresh, at a point above the last one it signed, or leaves the signer as it
was: it refuses, or it hands out the last signature again for the same sign
bytes at the last point.  So the points signed afresh strictly increase along
the run.

## Design notes

The order is that of `hrs`, with the round read as Go's `int` reads it, since
that is the order `checkHRS` compares.  In the order of the unsigned rounds the
points need not increase: a round of `2^63` or more is below round `0`
(`fresh_points_wrap`).
-/

namespace RpcNetwork.Tbft.Types

/-- A call to the signer. -/
inductive SignRequest where
  | vote (vote : Vote)
  | proposal (proposal : Proposal)
  deriving DecidableEq, Repr

namespace SignRequest

/-- The height of the vote or proposal. -/
def height : SignRequest → ℕ
  | .vote v => v.height
  | .proposal p => p.height

/-- The round of the vote or proposal. -/
def round : SignRequest → ℕ
  | .vote v => v.round
  | .proposal p => p.round

/-- The step the guard checks: `voteToStep` of a vote, `stepPropose` for a
proposal. -/
def step : SignRequest → ℕ
  | .vote v => stepOf v.type
  | .proposal _ => stepPropose

/-- The guard's point of the request. -/
def point (req : SignRequest) : HRS :=
  hrs req.height req.round req.step

/-- `SignBytes(chainID)` of the vote or proposal. -/
def signBytes (chainID : String) : SignRequest → SignBytes
  | .vote v => v.signBytes chainID
  | .proposal p => p.signBytes chainID

/-- The request with its signature set. -/
def withSignature (sig : HexBytes) : SignRequest → SignRequest
  | .vote v => .vote { v with signature := sig }
  | .proposal p => .proposal { p with signature := sig }

/-- The signature the request carries. -/
def signature : SignRequest → HexBytes
  | .vote v => v.signature
  | .proposal p => p.signature

@[simp] theorem signature_withSignature (sig : HexBytes) (req : SignRequest) :
    (req.withSignature sig).signature = sig := by
  cases req <;> rfl

end SignRequest

namespace PrivValidator

variable {pv pv' : PrivValidator} {chainID : String}

/-- `SignVote(chainID, vote)` and `SignProposal(chainID, proposal)`: the calls
under the signer's lock, which wrap the error of `signVote` and
`signProposal`. -/
def sign (pv : PrivValidator) (chainID : String) :
    SignRequest → Except String (Except String SignRequest × PrivValidator)
  | .vote v => do
      let (signed, pv') ← pv.signVote chainID v
      pure ((signed.mapError fun err => "error signing vote: " ++ err).map .vote, pv')
  | .proposal p => do
      let (signed, pv') ← pv.signProposal chainID p
      pure ((signed.mapError fun err => "error signing proposal: " ++ err).map .proposal, pv')

/-- Whether `checkHRS` finds the request at a new point, so that the signer
signs it afresh and saves it. -/
def signsAfresh (pv : PrivValidator) (req : SignRequest) : Bool :=
  match pv.checkHRS req.height req.round req.step with
  | .ok (.ok false) => true
  | _ => false

@[simp] theorem lastPoint_saveSigned (height round step : ℕ) (sb : SignBytes) (sig : HexBytes) :
    (pv.saveSigned height round step sb sig).lastPoint = hrs height round step := rfl

/-- A request is fresh exactly when `checkHRS` answers "not the last point". -/
theorem signsAfresh_eq_true_iff {req : SignRequest} :
    pv.signsAfresh req = true ↔ pv.checkHRS req.height req.round req.step = .ok (.ok false) := by
  unfold signsAfresh
  split <;> simp_all

/-- **What one call can do.**  Either `checkHRS` found the request above the
last point, and the signer signs it afresh and saves it; or the signer is left
as it was, and an answer it gives is the last signature, for the last sign
bytes at the last point. -/
theorem sign_cases {req : SignRequest} {signed : Except String SignRequest}
    (h : pv.sign chainID req = .ok (signed, pv')) :
    (pv.signsAfresh req = true ∧ pv.lastPoint < req.point ∧
      signed = .ok (req.withSignature (pv.privKey.sign (req.signBytes chainID))) ∧
      pv' = pv.saveSigned req.height req.round req.step (req.signBytes chainID)
        (pv.privKey.sign (req.signBytes chainID))) ∨
    (pv.signsAfresh req = false ∧ pv' = pv ∧ ∀ m, signed = .ok m →
      req.point = pv.lastPoint ∧ pv.lastSignBytes = some (req.signBytes chainID) ∧
        ∃ sig, pv.lastSignature = some sig ∧ m = req.withSignature sig) := by
  cases req with
  | vote v =>
      obtain ⟨⟨signed', pv''⟩, hv, h⟩ := Except.bind_eq_ok.mp h
      simp only [Except.pure_eq_ok, Prod.mk.injEq] at h
      obtain ⟨rfl, rfl⟩ := h
      rcases signVote_cases hv with ⟨hr, hlt, rfl, rfl⟩ | ⟨hr, rfl, hagain⟩
      · exact .inl ⟨signsAfresh_eq_true_iff.mpr hr, hlt, rfl, rfl⟩
      · refine .inr ⟨Bool.eq_false_iff.mpr fun ht => hr (signsAfresh_eq_true_iff.mp ht), rfl,
          fun m hm => ?_⟩
        -- the answer is the vote `signVote` answered with
        rcases signed' with e | w
        · cases hm
        · obtain ⟨hpt, hsb, sig, hsig, rfl⟩ := hagain w rfl
          exact ⟨hpt, hsb, sig, hsig, (Except.ok.inj hm).symm⟩
  | proposal p =>
      obtain ⟨⟨signed', pv''⟩, hp, h⟩ := Except.bind_eq_ok.mp h
      simp only [Except.pure_eq_ok, Prod.mk.injEq] at h
      obtain ⟨rfl, rfl⟩ := h
      rcases signProposal_cases hp with ⟨hr, hlt, rfl, rfl⟩ | ⟨hr, rfl, hagain⟩
      · exact .inl ⟨signsAfresh_eq_true_iff.mpr hr, hlt, rfl, rfl⟩
      · refine .inr ⟨Bool.eq_false_iff.mpr fun ht => hr (signsAfresh_eq_true_iff.mp ht), rfl,
          fun m hm => ?_⟩
        rcases signed' with e | w
        · cases hm
        · obtain ⟨hpt, hsb, sig, hsig, rfl⟩ := hagain w rfl
          exact ⟨hpt, hsb, sig, hsig, (Except.ok.inj hm).symm⟩

/-- A call never moves the signer's last point down. -/
theorem lastPoint_le_of_sign {req : SignRequest} {signed : Except String SignRequest}
    (h : pv.sign chainID req = .ok (signed, pv')) : pv.lastPoint ≤ pv'.lastPoint := by
  rcases sign_cases h with ⟨-, hlt, -, rfl⟩ | ⟨-, rfl, -⟩
  · exact hlt.le
  · exact le_rfl

end PrivValidator

/-! ### Runs -/

/-- One call of a run: the request, the answer, whether the signer signed
afresh, and the signer before and after it. -/
structure SignCall where
  request : SignRequest
  signed : Except String SignRequest
  fresh : Bool
  before : PrivValidator
  after : PrivValidator

/-- The signer answering `reqs` in order with no `Reset` between them: the
transcript of the calls and the signer after the last.  A panic stops the
run. -/
def signAll (chainID : String) : PrivValidator → List SignRequest →
    Except String (List SignCall × PrivValidator)
  | pv, [] => pure ([], pv)
  | pv, req :: reqs => do
      let (signed, pv') ← pv.sign chainID req
      let (calls, pv'') ← signAll chainID pv' reqs
      pure (⟨req, signed, pv.signsAfresh req, pv, pv'⟩ :: calls, pv'')

section Runs

variable {chainID : String} {pv pv' : PrivValidator} {reqs : List SignRequest}
  {calls : List SignCall}

/-- A run of no requests makes no call. -/
theorem signAll_nil (h : signAll chainID pv [] = .ok (calls, pv')) : calls = [] := by
  simp only [signAll, Except.pure_eq_ok, Prod.mk.injEq] at h
  exact h.1.symm

/-- One step of a run: its first call, and the run from the signer after it. -/
theorem signAll_cons {req : SignRequest} (h : signAll chainID pv (req :: reqs) = .ok (calls, pv')) :
    ∃ signed pv₁ rest, pv.sign chainID req = .ok (signed, pv₁) ∧
      signAll chainID pv₁ reqs = .ok (rest, pv') ∧
      calls = ⟨req, signed, pv.signsAfresh req, pv, pv₁⟩ :: rest := by
  obtain ⟨⟨signed, pv₁⟩, h₁, h⟩ := Except.bind_eq_ok.mp h
  obtain ⟨⟨rest, pv₂⟩, h₂, h⟩ := Except.bind_eq_ok.mp h
  simp only [Except.pure_eq_ok, Prod.mk.injEq] at h
  obtain ⟨rfl, rfl⟩ := h
  exact ⟨signed, pv₁, rest, h₁, h₂, rfl⟩

/-- Every call of a transcript is a call of the signer, and it is fresh exactly
when `checkHRS` found its point new. -/
theorem signAll_call (h : signAll chainID pv reqs = .ok (calls, pv')) :
    ∀ c ∈ calls, c.before.sign chainID c.request = .ok (c.signed, c.after) ∧
      c.fresh = c.before.signsAfresh c.request := by
  induction reqs generalizing pv calls with
  | nil =>
      rw [signAll_nil h]
      simp
  | cons req reqs ih =>
      obtain ⟨signed, pv₁, rest, h₁, hrest, rfl⟩ := signAll_cons h
      intro c hc
      rcases List.mem_cons.mp hc with rfl | hc
      · exact ⟨h₁, rfl⟩
      · exact ih hrest c hc

/-- The signer of every call of a run is at or above the first signer's last
point. -/
theorem signAll_lastPoint_le (h : signAll chainID pv reqs = .ok (calls, pv')) :
    ∀ c ∈ calls, pv.lastPoint ≤ c.before.lastPoint := by
  induction reqs generalizing pv calls with
  | nil =>
      rw [signAll_nil h]
      simp
  | cons req reqs ih =>
      obtain ⟨signed, pv₁, rest, h₁, hrest, rfl⟩ := signAll_cons h
      intro c hc
      rcases List.mem_cons.mp hc with rfl | hc
      · exact le_rfl
      · exact (PrivValidator.lastPoint_le_of_sign h₁).trans (ih hrest c hc)

/-- **The points signed afresh strictly increase along a run.** -/
theorem signAll_fresh_pairwise (h : signAll chainID pv reqs = .ok (calls, pv')) :
    ((calls.filter (·.fresh)).map (·.request.point)).Pairwise (· < ·) := by
  induction reqs generalizing pv calls with
  | nil =>
      rw [signAll_nil h]
      simp
  | cons req reqs ih =>
      obtain ⟨signed, pv₁, rest, h₁, hrest, rfl⟩ := signAll_cons h
      -- a fresh call of the rest is above the signer after the first call
      have habove : ∀ c ∈ rest, c.fresh = true → pv₁.lastPoint < c.request.point := by
        intro c hc hfresh
        obtain ⟨hsign, hf⟩ := signAll_call hrest c hc
        rcases PrivValidator.sign_cases hsign with ⟨-, hlt, -⟩ | ⟨hnf, -⟩
        · exact (signAll_lastPoint_le hrest c hc).trans_lt hlt
        · simp_all
      by_cases hfresh : pv.signsAfresh req = true
      · rcases PrivValidator.sign_cases h₁ with ⟨-, -, -, rfl⟩ | ⟨hnf, -⟩
        · simp only [List.filter_cons, hfresh, if_true, List.map_cons, List.pairwise_cons,
            List.mem_map, List.mem_filter, forall_exists_index, and_imp]
          refine ⟨?_, ih hrest⟩
          rintro _ c hc hcf rfl
          exact habove c hc hcf
        · simp_all
      · simpa [List.filter_cons, hfresh] using ih hrest

end Runs

/-- **No double signing.**  Over `SignVote` and `SignProposal` calls with no
`Reset`, fresh signatures are at strictly increasing points; an answer at the
last point is the last signature for the last sign bytes; and answers or
refusals that sign nothing leave the signer as it was. -/
theorem no_double_sign {chainID : String} {pv pv' : PrivValidator} {reqs : List SignRequest}
    {calls : List SignCall} (h : signAll chainID pv reqs = .ok (calls, pv')) :
    ((calls.filter (·.fresh)).map (·.request.point)).Pairwise (· < ·) ∧
    (∀ c ∈ calls, ∀ m, c.signed = .ok m → c.request.height = c.before.lastHeight →
      c.request.round = c.before.lastRound → c.request.step = c.before.lastStep →
        c.before.lastSignature = some m.signature ∧
        c.before.lastSignBytes = some (c.request.signBytes chainID) ∧ c.after = c.before) ∧
    (∀ c ∈ calls, ∀ err, c.signed = .error err → c.after = c.before) := by
  refine ⟨signAll_fresh_pairwise h, ?_, ?_⟩
  · intro c hc m hm hh hr hs
    obtain ⟨hsign, -⟩ := signAll_call h c hc
    rcases PrivValidator.sign_cases hsign with ⟨-, hlt, -⟩ | ⟨-, hafter, hagain⟩
    · -- a fresh call is above the last point, so not at it
      rw [SignRequest.point, hh, hr, hs] at hlt
      exact absurd hlt (lt_irrefl _)
    · obtain ⟨-, hsb, sig, hsig, rfl⟩ := hagain m hm
      exact ⟨by simpa using hsig, hsb, hafter⟩
  · intro c hc err herr
    obtain ⟨hsign, -⟩ := signAll_call h c hc
    rcases PrivValidator.sign_cases hsign with ⟨-, -, hok, -⟩ | ⟨-, hafter, -⟩
    · rw [hok] at herr
      cases herr
    · exact hafter

/-- A key whose signature is `[7]` on everything. -/
def sevenKey : PrivKey := ⟨[1], fun _ => [7]⟩

/-- A prevote at height `1` and round `round`. -/
def prevoteAt (round : ℕ) : Vote :=
  ⟨[1], 0, 1, round, voteAgree, 0, voteTypePrevote, default, [], []⟩

/-- A run that signs, repeats itself, and refuses a lower round. -/
theorem no_double_sign_repeat_refuse :
    ∃ calls pv', signAll "tbft" (newPrivValidator sevenKey)
        [.vote (prevoteAt 1), .vote (prevoteAt 1), .vote (prevoteAt 0)] = .ok (calls, pv') ∧
      ((calls.filter (·.fresh)).map (·.request.point)).Pairwise (· < ·) ∧
      (∀ c ∈ calls, ∀ m, c.signed = .ok m → c.request.height = c.before.lastHeight →
        c.request.round = c.before.lastRound → c.request.step = c.before.lastStep →
          c.before.lastSignature = some m.signature ∧
          c.before.lastSignBytes = some (c.request.signBytes "tbft") ∧ c.after = c.before) ∧
      (∀ c ∈ calls, ∀ err, c.signed = .error err → c.after = c.before) := by
  obtain ⟨calls, pv', h⟩ : ∃ calls pv', signAll "tbft" (newPrivValidator sevenKey)
      [.vote (prevoteAt 1), .vote (prevoteAt 1), .vote (prevoteAt 0)] = .ok (calls, pv') :=
    ⟨_, _, rfl⟩
  exact ⟨calls, pv', h, no_double_sign h⟩

/-- **Unsigned rounds are not the guard's order.**  A prevote at round `2^63`
and then one at round `0` of the same height are both signed afresh: `checkHRS`
reads round `2^63` as `-2^63`. -/
theorem fresh_points_wrap :
    ∃ calls pv', signAll "tbft" (newPrivValidator sevenKey)
        [.vote (prevoteAt (2 ^ 63)), .vote (prevoteAt 0)] = .ok (calls, pv') ∧
      calls.map (·.fresh) = [true, true] ∧
      ¬ ((calls.filter (·.fresh)).map fun c =>
          toLex (c.request.height, toLex (c.request.round, c.request.step))).Pairwise (· < ·) := by
  refine ⟨_, _, rfl, ?_⟩
  decide

end RpcNetwork.Tbft.Types
