import Mathlib
import RpcNetwork.Tbft.State.ConsensusState

/-!
# The timeout ticker (`ticker.go`)

`ScheduleTimeout` puts a `timeoutInfo` on the buffered `tickChan`;
`timeoutRoutine` drops a `Wait = 1` timeout not after the current one and
resets the timer to any other; a fired timer's goroutine sends it on
`tockChan`.

The ticker is a state machine whose steps are its goroutines', in any order.
`ScheduleTimeout` on a full `tickChan` drops the timeout, the sender goroutines
race (`run_deliver_swap`), and a timeout of another `Wait` replaces a pending
one (`step_tick_of_wait_ne_one`).  The routine's filter holds for `Wait = 1`.

## Design notes

Time is not modelled: the timer may fire at any moment after it is set.
A fire is the routine's step that takes it.  The routine's `ti` starts as the zero
`timeoutInfo`, whose step `0` no step of consensus has: it is `none`, and no
timeout is ignored after it.  `Quit` and the logging are left out.
-/

namespace RpcNetwork.Tbft

/-- `tickTockBufferSize`, the capacity of `tickChan` and `tockChan`. -/
def tickTockBufferSize : ℕ := 10

/-- Whether `timeoutRoutine` ignores `newti` after `ti`: a `Wait = 1` timeout
for an earlier height, an earlier round, or a step not after the current one. -/
def ignores (ti : Option TimeoutInfo) (newti : TimeoutInfo) : Bool :=
  match ti with
  | none => false
  | some ti =>
    newti.wait == 1 &&
      (newti.height < ti.height ||
        newti.height == ti.height && (newti.round < ti.round || newti.round == ti.round && newti.step ≤ ti.step))

/-- The ticker: the two channels, the routine's current timeout, whether the
timer is set, and the sender goroutines on their way to `tockChan`. -/
structure Ticker where
  tickChan : List TimeoutInfo
  ti : Option TimeoutInfo
  timerSet : Bool
  senders : List TimeoutInfo
  tockChan : List TimeoutInfo
  deriving DecidableEq, Repr

/-- `NewTimeoutTicker`: empty channels, the timer stopped. -/
def newTimeoutTicker : Ticker := ⟨[], none, false, [], []⟩

/-- One step of one goroutine. -/
inductive Action where
  /-- Consensus calls `ScheduleTimeout(ti)`. -/
  | schedule (ti : TimeoutInfo)
  /-- `timeoutRoutine` takes the head of `tickChan`. -/
  | tick
  /-- The timer fires and `timeoutRoutine` starts a sender for its timeout. -/
  | fire
  /-- Sender `i` puts its timeout on `tockChan`. -/
  | deliver (i : ℕ)
  /-- The receive routine of consensus takes the head of `tockChan`. -/
  | receive
  deriving DecidableEq, Repr

/-- `ScheduleTimeout(ti)`: a send on `tickChan` with a `default` branch, so a
full channel drops `ti`. -/
def schedule (t : Ticker) (ti : TimeoutInfo) : Ticker :=
  if t.tickChan.length < tickTockBufferSize then { t with tickChan := t.tickChan ++ [ti] } else t

/-- What a step does, `none` when it cannot be taken. -/
def step (t : Ticker) : Action → Option Ticker
  | .schedule ti => some (schedule t ti)
  | .tick => match t.tickChan with
    | [] => none
    | newti :: rest =>
      if ignores t.ti newti then some { t with tickChan := rest }
      -- `stopTimer`, then `ti = newti` and `timer.Reset`
      else some { t with tickChan := rest, ti := some newti, timerSet := true }
  | .fire => match t.timerSet, t.ti with
    | true, some ti => some { t with timerSet := false, senders := t.senders ++ [ti] }
    | _, _ => none
  | .deliver i => match t.senders[i]? with
    | some toi =>
      if t.tockChan.length < tickTockBufferSize then
        some { t with senders := t.senders.eraseIdx i, tockChan := t.tockChan ++ [toi] }
      else none
    | none => none
  | .receive => match t.tockChan with
    | [] => none
    | _ :: rest => some { t with tockChan := rest }

/-- A run of steps, `none` when one of them cannot be taken. -/
def run (t : Ticker) : List Action → Option Ticker
  | [] => some t
  | a :: as => (step t a).bind fun t' => run t' as

/-! ## Dropped timeouts -/

/-- **`ScheduleTimeout` on a full `tickChan` drops the timeout.** -/
theorem schedule_of_full {t : Ticker} (h : tickTockBufferSize ≤ t.tickChan.length) (ti : TimeoutInfo) :
    schedule t ti = t := by
  rw [schedule, if_neg (Nat.not_lt.mpr h)]

/-- A timeout is somewhere in the ticker: on a channel, the routine's current
one, or with a sender. -/
def Holds (t : Ticker) (x : TimeoutInfo) : Prop :=
  x ∈ t.tickChan ∨ t.ti = some x ∨ x ∈ t.senders ∨ x ∈ t.tockChan

instance (t : Ticker) (x : TimeoutInfo) : Decidable (Holds t x) := by
  unfold Holds
  infer_instance

/-- A step that does not schedule `x` brings `x` into the ticker only if it was
there. -/
theorem step_holds {t t' : Ticker} {a : Action} (hs : step t a = some t') {x : TimeoutInfo}
    (ha : a ≠ .schedule x) (hx : Holds t' x) : Holds t x := by
  cases a with
  | schedule ti =>
    rw [step, Option.some.injEq] at hs
    subst hs
    unfold schedule at hx
    split at hx
    · rcases hx with h | h | h | h
      · rcases List.mem_append.mp h with h | h
        · exact Or.inl h
        · exact absurd (congrArg Action.schedule (List.mem_singleton.mp h)).symm ha
      · exact Or.inr (Or.inl h)
      · exact Or.inr (Or.inr (Or.inl h))
      · exact Or.inr (Or.inr (Or.inr h))
    · exact hx
  | tick =>
    rw [step] at hs
    split at hs
    · exact nomatch hs
    · rename_i newti rest htick
      split at hs <;> rw [Option.some.injEq] at hs <;> subst hs
      · rcases hx with h | h | h | h
        · exact Or.inl (htick ▸ List.mem_cons_of_mem newti h)
        all_goals simp_all [Holds]
      · rcases hx with h | h | h | h
        · exact Or.inl (htick ▸ List.mem_cons_of_mem newti h)
        · rw [Option.some.injEq] at h
          exact Or.inl (htick ▸ h ▸ List.mem_cons_self)
        all_goals simp_all [Holds]
  | fire =>
    rw [step] at hs
    split at hs
    · rename_i ti hset hti
      rw [Option.some.injEq] at hs
      subst hs
      rcases hx with h | h | h | h
      · exact Or.inl h
      · exact Or.inr (Or.inl h)
      · rcases List.mem_append.mp h with h | h
        · exact Or.inr (Or.inr (Or.inl h))
        · rw [List.mem_singleton.mp h]
          exact Or.inr (Or.inl hti)
      · exact Or.inr (Or.inr (Or.inr h))
    · exact nomatch hs
  | deliver i =>
    rw [step] at hs
    split at hs
    · rename_i toi hi
      split at hs
      · rw [Option.some.injEq] at hs
        subst hs
        rcases hx with h | h | h | h
        · exact Or.inl h
        · exact Or.inr (Or.inl h)
        · exact Or.inr (Or.inr (Or.inl (List.mem_of_mem_eraseIdx h)))
        · rcases List.mem_append.mp h with h | h
          · exact Or.inr (Or.inr (Or.inr h))
          · rw [List.mem_singleton.mp h]
            exact Or.inr (Or.inr (Or.inl (List.mem_of_getElem? hi)))
      · exact nomatch hs
    · exact nomatch hs
  | receive =>
    rw [step] at hs
    split at hs
    · exact nomatch hs
    · rename_i y rest htock
      rw [Option.some.injEq] at hs
      subst hs
      rcases hx with h | h | h | h
      · exact Or.inl h
      · exact Or.inr (Or.inl h)
      · exact Or.inr (Or.inr (Or.inl h))
      · exact Or.inr (Or.inr (Or.inr (htock ▸ List.mem_cons_of_mem y h)))

/-- **A timeout that is nowhere in the ticker is never delivered** along a run
that does not schedule it again. -/
theorem Run.not_holds {x : TimeoutInfo} :
    ∀ {t t' : Ticker} {as : List Action}, run t as = some t' → Action.schedule x ∉ as →
      ¬ Holds t x → ¬ Holds t' x
  | t, t', [], h, _, hx => by
    rw [run, Option.some.injEq] at h
    exact h ▸ hx
  | t, t', a :: as, h, has, hx => by
    rw [run] at h
    obtain ⟨t₁, hs, hrun⟩ := Option.bind_eq_some_iff.mp h
    have ha : a ≠ .schedule x := fun he => has (he ▸ List.mem_cons_self)
    exact Run.not_holds hrun (fun hm => has (List.mem_cons_of_mem a hm))
      (fun h₁ => hx (step_holds hs ha h₁))

theorem Run.not_mem_tockChan {x : TimeoutInfo} {t t' : Ticker} {as : List Action} (h : run t as = some t')
    (has : Action.schedule x ∉ as) (hx : ¬ Holds t x) : x ∉ t'.tockChan :=
  fun hm => Run.not_holds h has hx (Or.inr (Or.inr (Or.inr hm)))

/-- `ScheduleTimeout` over a list: `tickChan` keeps what fits and drops the
rest. -/
theorem run_schedule (xs : List TimeoutInfo) (t : Ticker) :
    run t (xs.map .schedule) =
      some { t with tickChan := t.tickChan ++ xs.take (tickTockBufferSize - t.tickChan.length) } := by
  induction xs generalizing t with
  | nil => rw [List.map_nil, run, List.take_nil, List.append_nil]
  | cons x xs ih =>
    rw [List.map_cons, run, step, Option.bind_some, ih]
    unfold schedule
    split
    · rename_i hlt
      have hk : tickTockBufferSize - t.tickChan.length = (tickTockBufferSize - (t.tickChan ++ [x]).length) + 1 := by
        rw [List.length_append, List.length_singleton]
        omega
      rw [hk, List.take_succ_cons, List.append_assoc, List.singleton_append]
    · rename_i hge
      have hk : tickTockBufferSize - t.tickChan.length = 0 := by omega
      rw [hk, List.take_zero, List.take_zero]

/-! ## The routine's filter -/

/-- Where a timeout stands: its height, round and step, in that order. -/
def TimeoutInfo.hrs (x : TimeoutInfo) : ℕ ×ₗ ℕ ×ₗ ℕ :=
  toLex (x.height, toLex (x.round, x.step.toNat))

/-- After a timeout of its own, the routine ignores exactly the `Wait = 1`
timeouts that stand at or before it. -/
theorem ignores_some_iff (ti newti : TimeoutInfo) :
    ignores (some ti) newti = true ↔ newti.wait = 1 ∧ newti.hrs ≤ ti.hrs := by
  simp only [ignores, TimeoutInfo.hrs, Prod.Lex.toLex_le_toLex, Bool.and_eq_true, Bool.or_eq_true,
    beq_iff_eq, decide_eq_true_eq]
  rfl

/-- A timeout of another `Wait` is never ignored: taking it up replaces the
routine's timeout, pending or not. -/
theorem step_tick_of_wait_ne_one {t : Ticker} {newti : TimeoutInfo} {rest : List TimeoutInfo}
    (htick : t.tickChan = newti :: rest) (hw : newti.wait ≠ 1) :
    step t .tick = some { t with tickChan := rest, ti := some newti, timerSet := true } := by
  have hign : ignores t.ti newti = false := by
    cases hti : t.ti with
    | none => rfl
    | some ti =>
      rw [Bool.eq_false_iff, ne_eq, ignores_some_iff]
      exact fun h => hw h.1
  rw [step, htick]
  dsimp only
  rw [if_neg (by rw [hign]; exact Bool.false_ne_true)]

/-- Only the routine's step on `tickChan` changes its timeout. -/
theorem step_ti_of_ne_tick {t t' : Ticker} {a : Action} (hs : step t a = some t') (ha : a ≠ .tick) :
    t'.ti = t.ti := by
  cases a with
  | schedule ti =>
    rw [step, Option.some.injEq] at hs
    subst hs
    unfold schedule
    split <;> rfl
  | tick => exact absurd rfl ha
  | fire =>
    rw [step] at hs
    split at hs
    · rw [Option.some.injEq] at hs
      subst hs
      rfl
    · exact nomatch hs
  | deliver i =>
    rw [step] at hs
    split at hs
    · split at hs
      · rw [Option.some.injEq] at hs
        subst hs
        rfl
      · exact nomatch hs
    · exact nomatch hs
  | receive =>
    rw [step] at hs
    split at hs
    · exact nomatch hs
    · rw [Option.some.injEq] at hs
      subst hs
      rfl

/-- What enters `tickChan` is what consensus schedules. -/
theorem step_tickChan {t t' : Ticker} {a : Action} (hs : step t a = some t') {x : TimeoutInfo}
    (hx : x ∈ t'.tickChan) : x ∈ t.tickChan ∨ a = .schedule x := by
  cases a with
  | schedule ti =>
    rw [step, Option.some.injEq] at hs
    subst hs
    unfold schedule at hx
    split at hx
    · rcases List.mem_append.mp hx with h | h
      · exact Or.inl h
      · exact Or.inr (congrArg Action.schedule (List.mem_singleton.mp h)).symm
    · exact Or.inl hx
  | tick =>
    rw [step] at hs
    split at hs
    · exact nomatch hs
    · rename_i newti rest htick
      have hrest : x ∈ rest → x ∈ t.tickChan := fun h => htick ▸ List.mem_cons_of_mem newti h
      split at hs <;> rw [Option.some.injEq] at hs <;> subst hs <;> exact Or.inl (hrest hx)
  | fire =>
    rw [step] at hs
    split at hs
    · rw [Option.some.injEq] at hs
      subst hs
      exact Or.inl hx
    · exact nomatch hs
  | deliver i =>
    rw [step] at hs
    split at hs
    · split at hs
      · rw [Option.some.injEq] at hs
        subst hs
        exact Or.inl hx
      · exact nomatch hs
    · exact nomatch hs
  | receive =>
    rw [step] at hs
    split at hs
    · exact nomatch hs
    · rw [Option.some.injEq] at hs
      subst hs
      exact Or.inl hx

/-- Consensus schedules only `Wait = 1` timeouts in these actions. -/
def WaitOne (as : List Action) : Prop :=
  ∀ y, Action.schedule y ∈ as → y.wait = 1

/-- **One step never moves the routine's timeout back** while `tickChan` holds
only `Wait = 1` timeouts. -/
theorem step_hrs_mono {t t' : Ticker} {a : Action} (hs : step t a = some t')
    (hw : ∀ x ∈ t.tickChan, x.wait = 1) {old : TimeoutInfo} (hold : t.ti = some old) :
    ∃ new, t'.ti = some new ∧ old.hrs ≤ new.hrs := by
  by_cases ha : a = .tick
  · subst ha
    rw [step] at hs
    split at hs
    · exact nomatch hs
    · rename_i newti rest htick
      split at hs <;> rw [Option.some.injEq] at hs <;> subst hs
      · exact ⟨old, hold, le_rfl⟩
      · -- taken up: a `Wait = 1` timeout the filter let through stands later
        rename_i hign
        rw [hold, ignores_some_iff, not_and] at hign
        have hlt : old.hrs < newti.hrs := not_le.mp (hign (hw newti (htick ▸ List.mem_cons_self)))
        exact ⟨newti, rfl, le_of_lt hlt⟩
  · exact ⟨old, (step_ti_of_ne_tick hs ha).trans hold, le_rfl⟩

/-- **Along a run that schedules only `Wait = 1` timeouts, the routine's
timeout only moves forward** in height, round and step. -/
theorem Run.hrs_mono :
    ∀ {t t' : Ticker} {as : List Action}, run t as = some t' → (∀ x ∈ t.tickChan, x.wait = 1) →
      WaitOne as → ∀ {old : TimeoutInfo}, t.ti = some old → ∃ new, t'.ti = some new ∧ old.hrs ≤ new.hrs
  | t, t', [], h, _, _, old, hold => by
    rw [run, Option.some.injEq] at h
    exact ⟨old, h ▸ hold, le_rfl⟩
  | t, t', a :: as, h, hw, has, old, hold => by
    rw [run] at h
    obtain ⟨t₁, hs, hrun⟩ := Option.bind_eq_some_iff.mp h
    -- the invariant on `tickChan` carries over the step
    have hw₁ : ∀ x ∈ t₁.tickChan, x.wait = 1 := fun x hx =>
      (step_tickChan hs hx).elim (hw x) fun he => has x (he ▸ List.mem_cons_self)
    obtain ⟨mid, hmid, hle⟩ := step_hrs_mono hs hw hold
    obtain ⟨new, hnew, hle'⟩ :=
      Run.hrs_mono hrun hw₁ (fun y hy => has y (List.mem_cons_of_mem a hy)) hmid
    exact ⟨new, hnew, le_trans hle hle'⟩

/-! ## Racing senders -/

/-- **Two senders can deliver in either order**: the later fire reaches
`tockChan` first when its goroutine runs first. -/
theorem run_deliver_swap {t : Ticker} {x y : TimeoutInfo} (hs : t.senders = [x, y])
    (hc : t.tockChan.length + 2 ≤ tickTockBufferSize) :
    run t [.deliver 1, .deliver 0] = some { t with senders := [], tockChan := t.tockChan ++ [y, x] } := by
  have hc₁ : t.tockChan.length < tickTockBufferSize := by omega
  have hc₂ : (t.tockChan ++ [y]).length < tickTockBufferSize := by
    rw [List.length_append, List.length_singleton]
    omega
  simp only [run, step, hs, List.getElem?_cons_succ, List.getElem?_cons_zero, if_pos hc₁, Option.bind_some,
    List.eraseIdx_cons_succ, List.eraseIdx_zero]
  simp only [if_pos hc₂, List.append_assoc, List.singleton_append, List.tail_cons, Option.bind_some]

/-- **Timeouts are lost and reordered.**  Of eleven proposal timeouts scheduled
before the routine runs, the latest never reaches `tockChan`; the propose and
prevote-wait timeouts of a round reach it swapped when their senders run the
other way round; and a `Wait = 2` timeout replaces a pending propose timeout. -/
theorem ticker_loses_and_reorders :
    (∃ t, run newTimeoutTicker (((List.range 11).map fun r => (⟨1, r, .propose, 1⟩ : TimeoutInfo)).map .schedule) =
        some t ∧
      ∀ as t', run t as = some t' → Action.schedule ⟨1, 10, .propose, 1⟩ ∉ as → ¬ Holds t' ⟨1, 10, .propose, 1⟩) ∧
    run newTimeoutTicker [.schedule ⟨1, 0, .propose, 1⟩, .tick, .fire, .schedule ⟨1, 0, .prevoteWait, 1⟩, .tick,
        .fire, .deliver 1, .deliver 0] =
      some ⟨[], some ⟨1, 0, .prevoteWait, 1⟩, false, [], [⟨1, 0, .prevoteWait, 1⟩, ⟨1, 0, .propose, 1⟩]⟩ ∧
    (∃ t, run newTimeoutTicker [.schedule ⟨1, 0, .propose, 1⟩, .tick, .schedule ⟨1, 0, .newRound, 2⟩, .tick] =
        some t ∧
      ∀ as t', run t as = some t' → Action.schedule ⟨1, 0, .propose, 1⟩ ∉ as → ¬ Holds t' ⟨1, 0, .propose, 1⟩) := by
  refine ⟨⟨_, run_schedule _ _, fun as t' h has => Run.not_holds h has (by decide)⟩, rfl,
    ⟨_, rfl, fun as t' h has => Run.not_holds h has (by decide)⟩⟩

end RpcNetwork.Tbft
