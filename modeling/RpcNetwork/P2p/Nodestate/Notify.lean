import Mathlib
import RpcNetwork.P2p.Nodestate.Bookkeeping

/-!
# What the state subscribers are told

Every change of a node's state that `SetState` makes is reported to each
subscriber whose mask meets the changed flags, as the old and new state under
the mask.  The reports wait in the worklist until their callback is called.
Here the notices a subscriber has received are compared with the changes the
ghost `history` recorded.
-/

namespace RpcNetwork.P2p.Nodestate

open FlagSet

/-! ### Chains of changes -/

section chain

variable {α : Type*}

/-- `pairs` is a chain of changes from `a` to `b`: the first pair starts at
`a`, each next one where the one before ended, and the last ends at `b`. -/
def ChangeChain : α → List (α × α) → α → Prop
  | a, [], b => a = b
  | a, p :: ps, b => p.1 = a ∧ ChangeChain p.2 ps b

@[simp] theorem changeChain_nil {a b : α} : ChangeChain a [] b ↔ a = b := Iff.rfl

@[simp] theorem changeChain_cons {a b : α} {p : α × α} {ps : List (α × α)} :
    ChangeChain a (p :: ps) b ↔ p.1 = a ∧ ChangeChain p.2 ps b := Iff.rfl

instance ChangeChain.decidable [DecidableEq α] :
    (a : α) → (ps : List (α × α)) → (b : α) → Decidable (ChangeChain a ps b)
  | a, [], b => inferInstanceAs (Decidable (a = b))
  | a, p :: ps, b =>
    have := ChangeChain.decidable p.2 ps b
    inferInstanceAs (Decidable (p.1 = a ∧ ChangeChain p.2 ps b))

/-- A chain to `b` goes on with a change from `b`. -/
theorem ChangeChain.append_single {a b : α} {ps : List (α × α)} (h : ChangeChain a ps b) (c : α) :
    ChangeChain a (ps ++ [(b, c)]) c := by
  induction ps generalizing a with
  | nil =>
    rw [changeChain_nil] at h
    subst h
    simp
  | cons p ps ih => exact ⟨h.1, ih h.2⟩

/-- Seen through `f`, a chain is still a chain once the changes `f` does not see
are dropped. -/
theorem ChangeChain.filterMap {β : Type*} [DecidableEq β] (f : α → β) {a b : α}
    {ps : List (α × α)} (h : ChangeChain a ps b) :
    ChangeChain (f a)
      (ps.filterMap fun p => if f p.1 ≠ f p.2 then some (f p.1, f p.2) else none) (f b) := by
  induction ps generalizing a with
  | nil =>
    rw [changeChain_nil] at h
    simp [h]
  | cons p ps ih =>
    obtain ⟨hp, hps⟩ := h
    subst hp
    by_cases hf : f p.1 = f p.2
    · -- an unseen change: the chain goes on from the same image
      rw [List.filterMap_cons, if_neg (not_not.mpr hf), hf]
      exact ih hps
    · rw [List.filterMap_cons, if_pos hf]
      exact ⟨rfl, ih hps⟩

end chain

/-! ### Notices -/

variable {NodeId V : Type}

/-- The notices of the callbacks still waiting in the worklist, in order. -/
def pending : List (Item NodeId V) → List (Notice NodeId)
  | [] => []
  | .invoke (some e) _ :: work => e :: pending work
  | _ :: work => pending work

@[simp] theorem pending_append (w w' : List (Item NodeId V)) :
    pending (w ++ w') = pending w ++ pending w' := by
  induction w with
  | nil => rfl
  | cons item w ih =>
    cases item with
    | call c => exact ih
    | invoke e cb =>
      cases e with
      | none => exact ih
      | some e => exact congrArg (e :: ·) ih

/-- Calls carry no notice. -/
@[simp] theorem pending_map_call (cs : List (Call NodeId V)) : pending (cs.map .call) = [] := by
  induction cs with
  | nil => rfl
  | cons c cs ih => exact ih

@[simp] theorem pending_call_cons (c : Call NodeId V) (w : List (Item NodeId V)) :
    pending (.call c :: w) = pending w := rfl

theorem pending_invoke_cons (e : Option (Notice NodeId)) (cb : Machine NodeId V → List (Call NodeId V))
    (w : List (Item NodeId V)) : pending (.invoke e cb :: w) = e.toList ++ pending w := by
  cases e <;> rfl

@[simp] theorem pending_fieldInvocations (subs : Subscriptions NodeId V) (n : NodeId) (field : ℕ)
    (state : BitMask) (oldValue value : Option V) :
    pending (fieldInvocations subs n field state oldValue value) = [] := by
  unfold fieldInvocations
  induction subs.fieldSubs field with
  | nil => rfl
  | cons cb cbs ih => exact ih

@[simp] theorem pending_discardInvocations (subs : Subscriptions NodeId V) (n : NodeId)
    (fields : ℕ → Option V) : pending (discardInvocations subs n fields) = [] := by
  unfold discardInvocations
  induction List.range subs.numFields with
  | nil => rfl
  | cons i is ih =>
    rw [List.flatMap_cons, pending_append, ih, List.append_nil]
    cases fields i with
    | none => rfl
    | some v =>
      induction subs.fieldSubs i with
      | nil => rfl
      | cons cb cbs ih' => exact ih'

@[simp] theorem pending_invoke_some_cons (e : Notice NodeId)
    (cb : Machine NodeId V → List (Call NodeId V)) (w : List (Item NodeId V)) :
    pending (.invoke (some e) cb :: w) = e :: pending w := rfl

/-- The notices of the callbacks queued for the elements that pass a test. -/
theorem pending_filter_map_invoke {β : Type*} (l : List β) (P : β → Bool) (g : β → Notice NodeId)
    (cb : β → Machine NodeId V → List (Call NodeId V)) :
    pending ((l.filter P).map fun p => Item.invoke (some (g p)) (cb p)) =
      l.flatMap fun p => if P p then [g p] else [] := by
  induction l with
  | nil => rfl
  | cons p l ih => by_cases h : P p <;> simp [h, ih]

/-! ### Callbacks that call no `SetState` -/

/-- A call to `SetState`. -/
def Call.isSetState : Call NodeId V → Bool
  | .setState .. => true
  | _ => false

/-- An item that is a call to `SetState`. -/
def Item.isSetState : Item NodeId V → Bool
  | .call c => c.isSetState
  | .invoke .. => false

/-- No callback, of a state or of a field subscriber, calls `SetState`. -/
def NonReentrant (subs : Subscriptions NodeId V) : Prop :=
  (∀ sub ∈ subs.stateSubs, ∀ m n old new, ∀ call ∈ sub.callback m n old new,
    call.isSetState = false) ∧
  ∀ field, ∀ cb ∈ subs.fieldSubs field, ∀ m n state old new, ∀ call ∈ cb m n state old new,
    call.isSetState = false

/-- The worklist when no callback calls `SetState`: a `SetState` call only on
its own, and every waiting callback one that calls no `SetState`. -/
structure Quiet (c : Config NodeId V) : Prop where
  alone : ∀ item ∈ c.work, item.isSetState = true → c.work = [item]
  callbacks : ∀ e cb, Item.invoke e cb ∈ c.work → ∀ m, ∀ call ∈ cb m, call.isSetState = false

/-- An item that is a callback of a subscriber that calls no `SetState`. -/
def QuietItem (item : Item NodeId V) : Prop :=
  item.isSetState = false ∧ ∀ e cb, item = .invoke e cb → ∀ m, ∀ call ∈ cb m, call.isSetState = false

theorem changeInvocations_quiet {subs : Subscriptions NodeId V} (hnr : NonReentrant subs) (n : NodeId) (ch : Change V) :
    ∀ item ∈ changeInvocations subs n ch, QuietItem item := by
  intro item hitem
  unfold changeInvocations stateInvocations discardInvocations at hitem
  rcases List.mem_append.mp hitem with hitem | hitem
  · -- a state subscriber's callback
    obtain ⟨p, hp, rfl⟩ := List.mem_map.mp hitem
    refine ⟨rfl, fun e cb he m call hcall => ?_⟩
    cases he
    exact hnr.1 p.1 (List.fst_mem_of_mem_zipIdx (List.mem_filter.mp hp).1) m n _ _ call hcall
  · -- a field subscriber's callback for a discarded field
    split_ifs at hitem
    · obtain ⟨i, -, hi⟩ := List.mem_flatMap.mp hitem
      split at hi
      · obtain ⟨cb, hcb, rfl⟩ := List.mem_map.mp hi
        refine ⟨rfl, fun e cb' he m call hcall => ?_⟩
        cases he
        exact hnr.2 i cb hcb m n 0 _ none call hcall
      · cases hi
    · cases hitem

theorem fieldInvocations_quiet {subs : Subscriptions NodeId V} (hnr : NonReentrant subs) (n : NodeId) (field : ℕ) (state : BitMask)
    (oldValue value : Option V) :
    ∀ item ∈ fieldInvocations subs n field state oldValue value, QuietItem item := by
  intro item hitem
  obtain ⟨cb, hcb, rfl⟩ := List.mem_map.mp hitem
  refine ⟨rfl, fun e cb' he m call hcall => ?_⟩
  cases he
  exact hnr.2 field cb hcb m n state oldValue value call hcall

/-- A worklist of quiet items in front of the rest of a quiet worklist whose
head is not a `SetState` call. -/
theorem Quiet.prepend {c : Config NodeId V} (hq : Quiet c) {item : Item NodeId V} {rest : List (Item NodeId V)}
    (hw : c.work = item :: rest) (hitem : item.isSetState = false) {added : List (Item NodeId V)}
    (hadded : ∀ a ∈ added, QuietItem a) {c'' : Config NodeId V} (hw' : c''.work = added ++ rest) :
    Quiet c'' where
  alone a ha hset := by
    rw [hw'] at ha
    rcases List.mem_append.mp ha with ha | ha
    · rw [(hadded a ha).1] at hset
      cases hset
    · -- a `SetState` call in the rest would be alone in the worklist
      have hone := hq.alone a (by rw [hw]; exact List.mem_cons_of_mem _ ha) hset
      rw [hw] at hone
      cases hone
      rw [hitem] at hset
      cases hset
  callbacks e cb he := by
    rw [hw'] at he
    rcases List.mem_append.mp he with he | he
    · exact (hadded _ he).2 e cb rfl
    · exact hq.callbacks e cb (by rw [hw]; exact List.mem_cons_of_mem _ he)

variable [DecidableEq NodeId]

/-- The pairs subscriber `i` has been told about node `n`, in order. -/
def received (log : List (Notice NodeId)) (i : ℕ) (n : NodeId) : List (BitMask × BitMask) :=
  log.filterMap fun e => if e.sub = i ∧ e.node = n then some (e.oldState, e.newState) else none

/-- The changes of node `n`, in the order they were made. -/
def changesOf (history : List (NodeId × BitMask × BitMask)) (n : NodeId) : List (BitMask × BitMask) :=
  history.filterMap fun h => if h.1 = n then some h.2 else none

/-- What a subscriber with `mask` is to be told about node `n`: each change
that touches the mask, under the mask. -/
def observed (history : List (NodeId × BitMask × BitMask)) (mask : BitMask) (n : NodeId) :
    List (BitMask × BitMask) :=
  (changesOf history n).filterMap fun p =>
    if (p.1 ^^^ p.2) &&& mask ≠ 0 then some (p.1 &&& mask, p.2 &&& mask) else none

@[simp] theorem received_append (l l' : List (Notice NodeId)) (i : ℕ) (n : NodeId) :
    received (l ++ l') i n = received l i n ++ received l' i n := by
  simp [received]

theorem changesOf_append (h h' : List (NodeId × BitMask × BitMask)) (n : NodeId) :
    changesOf (h ++ h') n = changesOf h n ++ changesOf h' n := by
  simp [changesOf]

theorem observed_append (h h' : List (NodeId × BitMask × BitMask)) (mask : BitMask) (n : NodeId) :
    observed (h ++ h') mask n = observed h mask n ++ observed h' mask n := by
  simp only [observed, changesOf_append, List.filterMap_append]

/-- A subscriber hears nothing from notices meant for others. -/
theorem received_eq_nil {l : List (Notice NodeId)} {i : ℕ} (h : ∀ e ∈ l, e.sub ≠ i) (n : NodeId) :
    received l i n = [] := by
  rw [received, List.filterMap_eq_nil_iff]
  intro e he
  rw [if_neg (fun hc => h e he hc.1)]

/-- Of notices queued element by element along an indexed list, subscriber `i`
hears only those of the element at index `i`. -/
theorem received_flatMap_zipIdx {α : Type*} (L : List α) (G : α → ℕ → List (Notice NodeId))
    (hG : ∀ a j, ∀ e ∈ G a j, e.sub = j) (k i : ℕ) (n : NodeId) :
    received ((L.zipIdx k).flatMap fun p => G p.1 p.2) i n =
      if k ≤ i then ((L[i - k]?).map fun a => received (G a i) i n).getD [] else [] := by
  induction L generalizing k with
  | nil => simp [received]
  | cons a L ih =>
    rw [List.zipIdx_cons, List.flatMap_cons, received_append, ih (k + 1)]
    by_cases hki : k = i
    · -- the head is the element at index `i`; the rest start after it
      subst hki
      simp
    · have hnil : received (G a k) i n = [] :=
        received_eq_nil (fun e he hsub => hki ((hG a k e he).symm.trans hsub)) n
      rw [hnil, List.nil_append]
      by_cases hle : k ≤ i
      · rw [if_pos (by omega), if_pos hle, show i - k = i - (k + 1) + 1 by omega,
          List.getElem?_cons_succ]
      · rw [if_neg (by omega), if_neg hle]

/-- After a change, each subscriber is to be told of it once, under its mask. -/
theorem received_pending_changeInvocations (subs : Subscriptions NodeId V) (n n' : NodeId)
    (ch : Change V) {i : ℕ} {sub : StateSub NodeId V} (hsub : subs.stateSubs[i]? = some sub) :
    received (pending (changeInvocations subs n ch)) i n' =
      observed [(n, ch.oldState, ch.newState)] sub.mask n' := by
  unfold changeInvocations stateInvocations
  have hdiscard : pending (if ch.newState = 0 then discardInvocations subs n ch.fields else []) = [] := by
    split_ifs
    · exact pending_discardInvocations subs n ch.fields
    · rfl
  rw [pending_append, hdiscard, List.append_nil, pending_filter_map_invoke,
    received_flatMap_zipIdx subs.stateSubs (fun a j =>
      if decide ((ch.oldState ^^^ ch.newState) &&& a.mask ≠ 0) = true then
        [⟨j, n, ch.oldState &&& a.mask, ch.newState &&& a.mask⟩] else []) ?_ 0 i n',
    if_pos (Nat.zero_le i), Nat.sub_zero, hsub]
  · by_cases hmeet : (ch.oldState ^^^ ch.newState) &&& sub.mask = 0 <;>
      by_cases hn : n = n' <;> simp [received, observed, changesOf, hmeet, hn]
  · intro a j e he
    split_ifs at he
    · rw [List.mem_singleton.mp he]
    · cases he

/-! ### One step of the worklist -/

theorem setStateLocked_some {m : Machine NodeId V} {n : NodeId} {set reset : BitMask} {timeout : ℕ}
    {ch : Change V} (h : (setStateLocked m n set reset timeout).2 = some ch) :
    ch.oldState = m.getState n ∧ ch.newState = (m.getState n &&& ~~~reset) ||| set := by
  have hsnd := setStateLocked_snd m n set reset timeout
  rw [h, Option.map_some] at hsnd
  -- the branch without a change contradicts `h`
  split_ifs at hsnd
  exact Prod.mk.inj (Option.some.inj hsnd)

theorem setStateLocked_none {m : Machine NodeId V} {n : NodeId} {set reset : BitMask}
    {timeout : ℕ} (h : (setStateLocked m n set reset timeout).2 = none) :
    (m.getState n &&& ~~~reset) ||| set = m.getState n := by
  have hsnd := setStateLocked_snd m n set reset timeout
  rw [h, Option.map_none] at hsnd
  split_ifs at hsnd with hsame
  exact hsame

theorem changesOf_single (n n' : NodeId) (old new : BitMask) :
    changesOf [(n, old, new)] n' = if n = n' then [(old, new)] else [] := by
  by_cases hn : n = n' <;> simp [changesOf, hn]

section step

variable [DecidableEq V] {subs : Subscriptions NodeId V} {c c' : Config NodeId V}

/-- What one step does: the call or callback at the head of the worklist is
done and the rest waits; only `SetState` records a change and queues notices,
and only a callback adds to the log. -/
theorem Config.step_cases (h : c.step subs = some c') :
    (∃ n set reset timeout rest, c.work = .call (.setState n set reset timeout) :: rest ∧
      c'.machine = (setStateLocked c.machine n set reset timeout).1 ∧ c'.log = c.log ∧
      (((setStateLocked c.machine n set reset timeout).2 = none ∧ c'.work = rest ∧
          c'.history = c.history) ∨
        ∃ ch, (setStateLocked c.machine n set reset timeout).2 = some ch ∧
          c'.work = changeInvocations subs n ch ++ rest ∧
          c'.history = c.history ++ [(n, ch.oldState, ch.newState)])) ∨
    (∃ c₀ rest, c.work = .call c₀ :: rest ∧ c₀.isSetState = false ∧
      (c'.work = rest ∨ ∃ n field state oldValue value,
        c'.work = fieldInvocations subs n field state oldValue value ++ rest) ∧
      c'.log = c.log ∧ c'.history = c.history ∧ ∀ n, c'.machine.getState n = c.machine.getState n) ∨
    (∃ e cb rest, c.work = .invoke e cb :: rest ∧ c'.machine = c.machine ∧
      c'.log = c.log ++ e.toList ∧ c'.history = c.history ∧
      c'.work = (cb c.machine).map .call ++ rest) := by
  unfold Config.step at h
  split at h
  · cases h
  · rename_i n set reset timeout rest hw
    dsimp only at h
    split at h
    · cases h
      exact .inl ⟨n, set, reset, timeout, rest, hw, rfl, rfl, .inl ⟨‹_›, rfl, rfl⟩⟩
    · cases h
      exact .inl ⟨n, set, reset, timeout, rest, hw, rfl, rfl, .inr ⟨_, ‹_›, rfl, rfl⟩⟩
  · rename_i n field value rest hw
    split at h
    · cases h
      exact .inr (.inl ⟨_, rest, hw, rfl, .inr ⟨_, _, _, _, _, rfl⟩, rfl, rfl,
        getState_setFieldLocked ‹_›⟩)
    · cases h
      exact .inr (.inl ⟨_, rest, hw, rfl, .inl rfl, rfl, rfl, getState_setFieldLocked ‹_›⟩)
    · cases h
      exact .inr (.inl ⟨_, rest, hw, rfl, .inl rfl, rfl, rfl, fun _ => rfl⟩)
  · rename_i n mask timeout rest hw
    cases h
    exact .inr (.inl ⟨_, rest, hw, rfl, .inl rfl, rfl, rfl, Machine.getState_addTimeout _ _ _⟩)
  · rename_i e cb rest hw
    cases h
    exact .inr (.inr ⟨e, cb, rest, hw, rfl, rfl, rfl, rfl⟩)

/-- Apart from a `SetState` that changed the state, a step moves a notice
from the worklist to the log or leaves both alone, and records no change. -/
theorem Config.step_told (h : c.step subs = some c') :
    (c'.log ++ pending c'.work = c.log ++ pending c.work ∧ c'.history = c.history) ∨
    ∃ n set reset timeout rest ch, c.work = .call (.setState n set reset timeout) :: rest ∧
      c'.log ++ pending c'.work = c.log ++ (pending (changeInvocations subs n ch) ++ pending rest) ∧
      c'.history = c.history ++ [(n, ch.oldState, ch.newState)] := by
  rcases Config.step_cases h with
    ⟨n, set, reset, timeout, rest, hw, -, hlog, ⟨-, hwork, hhist⟩ | ⟨ch, -, hwork, hhist⟩⟩ |
    ⟨c₀, rest, hw, -, hwork, hlog, hhist, -⟩ | ⟨e, cb, rest, hw, -, hlog, hhist, hwork⟩
  · exact .inl ⟨by rw [hlog, hwork, hw, pending_call_cons], hhist⟩
  · exact .inr ⟨n, set, reset, timeout, rest, ch, hw, by rw [hlog, hwork, pending_append], hhist⟩
  · refine .inl ⟨?_, hhist⟩
    rcases hwork with hwork | ⟨n, field, state, oldValue, value, hwork⟩ <;>
      simp [hlog, hwork, hw]
  · refine .inl ⟨?_, hhist⟩
    rw [hlog, hwork, hw, pending_append, pending_map_call, pending_invoke_cons, List.nil_append,
      List.append_assoc]

end step

/-! ### Every change is told, once -/

section told

variable [DecidableEq V] {subs : Subscriptions NodeId V} {c c' : Config NodeId V}

/-- Each subscriber has been told, or is waiting to be told, every change that
concerns it, once: its received and pending notices are a permutation of the
changes under its mask. -/
def TellsAll (subs : Subscriptions NodeId V) (c : Config NodeId V) : Prop :=
  ∀ i sub, subs.stateSubs[i]? = some sub → ∀ n,
    (received (c.log ++ pending c.work) i n).Perm (observed c.history sub.mask n)

theorem TellsAll.step (ht : TellsAll subs c) (h : c.step subs = some c') : TellsAll subs c' := by
  intro i sub hsub n
  rcases Config.step_told h with ⟨htold, hhist⟩ | ⟨n₀, set, reset, timeout, rest, ch, hw, htold, hhist⟩
  · rw [htold, hhist]
    exact ht i sub hsub n
  · -- the change's notices are queued in front of those already waiting
    have hc := ht i sub hsub n
    rw [hw, pending_call_cons, received_append] at hc
    rw [htold, hhist, received_append, received_append,
      received_pending_changeInvocations subs n₀ n ch hsub, observed_append]
    refine (List.perm_append_comm.append_left _).trans ?_
    rw [← List.append_assoc]
    exact hc.append_right _

/-- The changes of every node chain from no flag to its current state. -/
def HistoryChain (c : Config NodeId V) : Prop :=
  ∀ n, ChangeChain 0 (changesOf c.history n) (c.machine.getState n)

theorem HistoryChain.step (hc : HistoryChain c) (h : c.step subs = some c') : HistoryChain c' := by
  intro n'
  rcases Config.step_cases h with
    ⟨n, set, reset, timeout, rest, -, hm, -, ⟨hnone, -, hhist⟩ | ⟨ch, hch, -, hhist⟩⟩ |
    ⟨-, -, -, -, -, -, hhist, hstate⟩ | ⟨-, -, -, -, hm, -, hhist, -⟩
  · rw [hhist, hm, getState_setStateLocked]
    split_ifs with hn
    · rw [hn, setStateLocked_none hnone]
      exact hc n
    · exact hc n'
  · -- the change starts from the state the chain ends at
    obtain ⟨hold, hnew⟩ := setStateLocked_some hch
    rw [hhist, hm, getState_setStateLocked, changesOf_append, changesOf_single]
    by_cases hn : n = n'
    · subst hn
      rw [if_pos rfl, if_pos rfl, ← hnew, hold]
      exact (hc n).append_single _
    · rw [if_neg hn, if_neg (Ne.symm hn), List.append_nil]
      exact hc n'
  · rw [hhist, hstate]
    exact hc n'
  · rw [hhist, hm]
    exact hc n'

theorem Reachable.tellsAll (h : Reachable subs c) : TellsAll subs c ∧ HistoryChain c := by
  induction h with
  | init =>
    refine ⟨fun i sub _ n => ?_, fun n => ?_⟩
    · simp [received, pending, observed, changesOf]
    · simp [changesOf, Machine.getState_eq, Machine.empty]
  | step _ hs ih => exact ⟨ih.1.step hs, ih.2.step hs⟩
  | event _ hw _ ih =>
    refine ⟨fun i sub hsub n => ?_, ih.2⟩
    have hc := ih.1 i sub hsub n
    rw [hw] at hc
    exact hc

/-- At rest, every subscriber has been told every change of every node that
concerns it, once each, in some order. -/
theorem Reachable.told_perm (h : Reachable subs c) (hidle : c.work = []) {i : ℕ}
    {sub : StateSub NodeId V} (hsub : subs.stateSubs[i]? = some sub) (n : NodeId) :
    (received c.log i n).Perm (observed c.history sub.mask n) := by
  have hc := h.tellsAll.1 i sub hsub n
  rw [hidle] at hc
  simpa [pending] using hc

end told

/-! ### Without reentrant `SetState`, in order -/

section quiet

variable [DecidableEq V] {subs : Subscriptions NodeId V} {c c' : Config NodeId V}

theorem Quiet.step (hnr : NonReentrant subs) (hq : Quiet c) (h : c.step subs = some c') :
    Quiet c' := by
  rcases Config.step_cases h with
    ⟨n, set, reset, timeout, rest, hw, -, -, ⟨-, hwork, -⟩ | ⟨ch, -, hwork, -⟩⟩ |
    ⟨c₀, rest, hw, hc₀, hwork, -, -, -⟩ | ⟨e, cb, rest, hw, -, -, -, hwork⟩
  · -- the `SetState` was alone, so nothing is left
    have hone := hq.alone _ (by rw [hw]; exact List.mem_cons_self) rfl
    rw [hw] at hone
    cases hone
    refine ⟨fun item hitem => ?_, fun e cb he => ?_⟩
    · rw [hwork] at hitem
      cases hitem
    · rw [hwork] at he
      cases he
  · have hone := hq.alone _ (by rw [hw]; exact List.mem_cons_self) rfl
    rw [hw] at hone
    cases hone
    refine ⟨fun item hitem hset => ?_, fun e cb he => ?_⟩
    · rw [hwork, List.append_nil] at hitem
      rw [(changeInvocations_quiet hnr n ch item hitem).1] at hset
      cases hset
    · rw [hwork, List.append_nil] at he
      exact (changeInvocations_quiet hnr n ch _ he).2 e cb rfl
  · rcases hwork with hwork | ⟨n, field, state, oldValue, value, hwork⟩
    · exact hq.prepend hw hc₀ (List.forall_mem_nil _) (by rw [hwork, List.nil_append])
    · exact hq.prepend hw hc₀ (fieldInvocations_quiet hnr n field state oldValue value) hwork
  · -- the callback's calls go first, and none of them is a `SetState`
    have hcalls := hq.callbacks e cb (by rw [hw]; exact List.mem_cons_self) c.machine
    refine hq.prepend hw rfl (fun a ha => ?_) hwork
    obtain ⟨call, hcall, rfl⟩ := List.mem_map.mp ha
    exact ⟨hcalls call hcall, fun e cb he => by cases he⟩

/-- Every subscriber has been told, or is waiting to be told, the changes that
concern it, in the order they were made. -/
def TellsInOrder (subs : Subscriptions NodeId V) (c : Config NodeId V) : Prop :=
  ∀ i sub, subs.stateSubs[i]? = some sub → ∀ n,
    received (c.log ++ pending c.work) i n = observed c.history sub.mask n

theorem TellsInOrder.step (hq : Quiet c) (ht : TellsInOrder subs c) (h : c.step subs = some c') :
    TellsInOrder subs c' := by
  intro i sub hsub n
  rcases Config.step_told h with ⟨htold, hhist⟩ | ⟨n₀, set, reset, timeout, rest, ch, hw, htold, hhist⟩
  · rw [htold, hhist]
    exact ht i sub hsub n
  · -- the `SetState` was alone: no notice waits behind the new ones
    have hone := hq.alone _ (by rw [hw]; exact List.mem_cons_self) rfl
    rw [hw] at hone
    cases hone
    have hc := ht i sub hsub n
    rw [hw, pending_call_cons] at hc
    rw [htold, hhist, pending, List.append_nil, received_append,
      received_pending_changeInvocations subs n₀ n ch hsub, observed_append, ← hc]
    simp [pending]

theorem Reachable.tellsInOrder (hnr : NonReentrant subs) (h : Reachable subs c) :
    Quiet c ∧ TellsInOrder subs c := by
  induction h with
  | init =>
    refine ⟨⟨fun _ h => (by cases h), fun _ _ h => (by cases h)⟩, fun i sub _ n => ?_⟩
    simp [received, pending, observed, changesOf]
  | step _ hs ih => exact ⟨ih.1.step hnr hs, ih.2.step ih.1 hs⟩
  | @event c e call _ hw _ ih =>
    refine ⟨⟨fun item hitem _ => by rw [List.mem_singleton.mp hitem], fun e cb he => by
      simp at he⟩, fun i sub hsub n => ?_⟩
    have hc := ih.2 i sub hsub n
    rw [hw] at hc
    exact hc

/-- When no callback calls `SetState`, every subscriber is told at rest the
changes that concern it, in order: a chain from no flag to the node's current
state under its mask. -/
theorem Reachable.changeChain (hnr : NonReentrant subs) (h : Reachable subs c)
    (hidle : c.work = []) {i : ℕ} {sub : StateSub NodeId V} (hsub : subs.stateSubs[i]? = some sub)
    (n : NodeId) :
    received c.log i n = observed c.history sub.mask n ∧
      ChangeChain 0 (received c.log i n) (c.machine.getState n &&& sub.mask) := by
  have heq := (h.tellsInOrder hnr).2 i sub hsub n
  rw [hidle, pending, List.append_nil] at heq
  refine ⟨heq, ?_⟩
  have hchain := (h.tellsAll.2 n).filterMap (· &&& sub.mask)
  rw [UInt64.zero_and] at hchain
  rw [heq, observed]
  -- a change concerns the subscriber exactly when it changes the masked state
  convert hchain using 2
  simp only [ne_eq, xor_and_eq_zero_iff]

end quiet

/-! ### A reentrant callback -/

/-- Two subscribers: the first watches flag 0 and, told that it is set, sets
flag 1 of the same node; the second watches both flags and calls nothing. -/
def reentrantSubs : Subscriptions ℕ Unit where
  stateSubs :=
    [⟨1, fun _ n _ new => if new = 1 then [.setState n 2 0 0] else []⟩, ⟨3, fun _ _ _ _ => []⟩]
  fieldSubs _ := []
  fieldType _ _ := true
  numFields := 0

/-- `SetState(n, flag 0)` on an empty machine: the second subscriber hears of
the nested change to both flags before the change to flag 0 that caused it, so
what it is told is no chain and does not end at the node's state. -/
theorem reentrant_out_of_order :
    ∃ c, Reachable reentrantSubs c ∧ c.work = [] ∧
      received c.log 1 0 = [(1, 3), (0, 1)] ∧ c.machine.getState 0 = 3 ∧
      ¬ ChangeChain 0 (received c.log 1 0) (c.machine.getState 0 &&& 3) :=
  ⟨_, (Reachable.init.event (e := .call (.setState 0 1 0 0)) rfl rfl).steps (k := 5) rfl, rfl,
    by decide, by decide, by decide⟩

/-! ### The node state machine -/

section summary

variable [DecidableEq V]

/-- The bookkeeping and notices of `NodeStateMachine` over every run: (a) a
node is kept exactly while it has a flag, its timeouts hold disjoint nonempty
sets of its flags, and `SetState` without timeout clears the flags it touches
from them; (b) a fired timer resets exactly the flags it still holds; (c) at
rest every subscriber was told each change under its mask once, and in order
when no callback calls `SetState`. -/
theorem nodestate_bookkeeping :
    (∀ (subs : Subscriptions NodeId V) c, Reachable subs c →
      Inv c.machine ∧ ∀ n, ((c.machine.nodes n).isSome ↔ c.machine.getState n ≠ 0)) ∧
    (∀ m : Machine NodeId V, Inv m → ∀ n set reset (node' : NodeInfo V),
      (setStateLocked m n set reset 0).1.nodes n = some node' → ∀ τ ∈ node'.timeouts, ∀ t,
      (setStateLocked m n set reset 0).1.timers τ = some t →
        Disjoint (flags t.mask) (flags (set ||| reset))) ∧
    (∀ m : Machine NodeId V, Inv m → ∀ τ t, m.timers τ = some t →
      (t.mask = 0 ∨ ∃ node, m.nodes t.node = some node ∧ τ ∈ node.timeouts ∧
        flags t.mask ⊆ flags node.state) ∧
      ∀ n', (setStateLocked m t.node 0 t.mask 0).1.getState n' =
        if n' = t.node then m.getState n' &&& ~~~t.mask else m.getState n') ∧
    (∀ (subs : Subscriptions NodeId V) c, Reachable subs c → c.work = [] →
      ∀ i sub, subs.stateSubs[i]? = some sub → ∀ n,
        (received c.log i n).Perm (observed c.history sub.mask n)) ∧
    (∀ subs : Subscriptions NodeId V, NonReentrant subs → ∀ c, Reachable subs c → c.work = [] →
      ∀ i sub, subs.stateSubs[i]? = some sub → ∀ n,
        received c.log i n = observed c.history sub.mask n ∧
        ChangeChain 0 (received c.log i n) (c.machine.getState n &&& sub.mask)) := by
  refine ⟨fun subs c h => ⟨h.inv, h.inv.isSome_iff⟩, ?_, ?_, ?_, ?_⟩
  · intro m hm n set reset node' h τ hτ t ht
    exact setStateLocked_clears hm n set reset h hτ ht
  · intro m hm τ t ht
    exact fire_resets hm ht
  · intro subs c h hidle i sub hsub n
    exact h.told_perm hidle hsub n
  · intro subs hnr c h hidle i sub hsub n
    exact h.changeChain hnr hidle hsub n

end summary

end RpcNetwork.P2p.Nodestate
