import RpcNetwork.Tbft.State.ConsensusState

/-!
# Committee-switch validation (`state.go`, `types/health.go`)

`validateBlock` asks `switchVerify` whether a block's `SwitchInfos()` is
acceptable.  A list of more than two entries is a member list, accepted when
every entry is a member or a back member.  A list of one or two entries is a switch: its last
entry, flagged `StateRemovedFlag`, names the validator to remove, and a first
entry flagged `StateAppendFlag` names the one to add.  The health manager accepts it
when it is its own running switch, or the removed validator has been silent
for `HealthOut` ticks and the added one is free.

## Design notes

Go's `nil` pointers are `Option`s; a field read through a nil pointer is the
panic `nilDeref`.  `EqualCommitteeMemberArray` tells nil from empty, so `Infos` is
an `Option` of a list.  `Work` is a map: `getHealth`
scans it in one fixed order, as one run of Go's randomised iteration does.  The
package variable `EnableHealthMgr` is a field of `HealthMgr`; `OnStart` clears
it.  `VerifySwitch`'s errors are named by the check that fails; their formatted
texts are left out.
-/

namespace RpcNetwork.Tbft

open RpcNetwork.Tbft.Types

/-- `StateUsedFlag`. -/
def stateUsedFlag : UInt32 := 0xa1
/-- `StateSwitchingFlag`. -/
def stateSwitchingFlag : UInt32 := 0xa2
/-- `StateRemovedFlag`. -/
def stateRemovedFlag : UInt32 := 0xa3
/-- `StateAppendFlag`. -/
def stateAppendFlag : UInt32 := 0xa4

/-- `HealthOut`, the ticks after which a silent validator may be removed. -/
def healthOut : Int32 := 1800

/-- `core/types.CommitteeMember`. -/
structure CommitteeMember where
  coinbase : HexBytes
  committeeBase : HexBytes
  publickey : HexBytes
  flag : UInt32
  mType : UInt32
  deriving DecidableEq, Repr

/-- The comparison of `Compared`: type, coinbase, committee base and public
key. -/
def CommitteeMember.sameAs (c d : CommitteeMember) : Bool :=
  c.mType == d.mType && c.coinbase == d.coinbase && c.committeeBase == d.committeeBase &&
    c.publickey == d.publickey

/-- `(*CommitteeMember).Compared`: a nil receiver or argument panics. -/
def CommitteeMember.compared : Option CommitteeMember → Option CommitteeMember → Except String Bool
  | some c, some d => pure (c.sameAs d)
  | _, _ => throw nilDeref

/-- `Health`: a validator's peer id, silence counter, switch state and keys. -/
structure Health where
  id : String
  tick : Int32
  state : UInt32
  address : HexBytes
  pubKey : HexBytes
  deriving DecidableEq, Repr

/-- `(*Health).Equal`: both nil, or the same id and public key. -/
def Health.equal : Option Health → Option Health → Bool
  | none, none => true
  | some h, some o => h.id == o.id && h.pubKey == o.pubKey
  | _, _ => false

/-- `SwitchValidator`, the fields its comparisons read. -/
structure SwitchValidator where
  remove : Option Health
  add : Option Health
  infos : Option (List (Option CommitteeMember))
  id : UInt64
  deriving DecidableEq, Repr

/-- Whether `v` is `Compared` to some entry of `b`, scanning in order. -/
def comparedAny (v : Option CommitteeMember) : List (Option CommitteeMember) → Except String Bool
  | [] => pure false
  | vm :: b => do
    if ← CommitteeMember.compared v vm then pure true else comparedAny v b

/-- The loop of `EqualCommitteeMemberArray` over `a`: `false` at the first entry
with no match. -/
def comparedAll (b : List (Option CommitteeMember)) : List (Option CommitteeMember) → Except String Bool
  | [] => pure true
  | v :: a => do
    if ← comparedAny v b then comparedAll b a else pure false

/-- `EqualCommitteeMemberArray(a, b)`: every entry of `a` is in `b`. -/
def equalCommitteeMemberArray : Option (List (Option CommitteeMember)) →
    Option (List (Option CommitteeMember)) → Except String Bool
  | none, none => pure true
  | some a, some b => comparedAll b a
  | _, _ => pure false

namespace SwitchValidator

/-- `(*SwitchValidator).Equal`: the id, both healths, then the infos. -/
def equal : Option SwitchValidator → Option SwitchValidator → Except String Bool
  | none, none => pure true
  | some s, some o =>
    if s.id == o.id && Health.equal s.remove o.remove && Health.equal s.add o.add then
      equalCommitteeMemberArray s.infos o.infos
    else pure false
  | _, _ => pure false

/-- `(*SwitchValidator).EqualWithoutID`. -/
def equalWithoutID : Option SwitchValidator → Option SwitchValidator → Except String Bool
  | none, none => pure true
  | some s, some o =>
    if Health.equal s.remove o.remove && Health.equal s.add o.add then
      equalCommitteeMemberArray s.infos o.infos
    else pure false
  | _, _ => pure false

/-- `(*SwitchValidator).EqualWithRemove`. -/
def equalWithRemove : Option SwitchValidator → Option SwitchValidator → Bool
  | none, none => true
  | some s, some o => Health.equal s.remove o.remove
  | _, _ => false

end SwitchValidator

/-- The errors of `VerifySwitch`, by the check that fails. -/
inductive SwitchError where
  /-- `healthMgr not enable`. -/
  | notEnabled
  /-- `not found the remove:...`. -/
  | removeNotFound
  /-- `Wrong state:...`. -/
  | wrongState
  deriving DecidableEq, Repr

/-- `HealthMgr`: the working committee, the back and seed validators, the
switches it is running, and the package switch `EnableHealthMgr`. -/
structure HealthMgr where
  work : List Health
  back : List Health
  seed : List Health
  curSwitch : List SwitchValidator
  enableHealthMgr : Bool

namespace HealthMgr

/-- `GetHealth(address)`: the first health with that address in the working
committee, then the back validators, then the seeds. -/
def getHealth (h : HealthMgr) (address : HexBytes) : Option Health :=
  (h.work.find? (·.address == address)).orElse fun _ =>
    (h.back.find? (·.address == address)).orElse fun _ => h.seed.find? (·.address == address)

/-- `getCurSV()`: the switch at the head of `curSwitch`. -/
def getCurSV (h : HealthMgr) : Option SwitchValidator := h.curSwitch.head?

/-- `OnStart()`: the health goroutine is not started, and `EnableHealthMgr` is
cleared. -/
def onStart (h : HealthMgr) : HealthMgr := { h with enableHealthMgr := false }

end HealthMgr

/-- `verifySwitchEnter(remove, add)`: the removed validator is in use or
switching and has been silent for `HealthOut` ticks, and the added one, if
any, is neither removed nor in use. -/
def verifySwitchEnter (remove add : Option Health) : Except SwitchError Unit :=
  match remove with
  | none => .error .removeNotFound
  | some r =>
    let rRes := stateUsedFlag ≤ r.state && r.state ≤ stateSwitchingFlag && healthOut ≤ r.tick
    let aRes := match add with
      | some a => a.state != stateRemovedFlag && a.state != stateUsedFlag
      | none => true
    if rRes && aRes then .ok () else .error .wrongState

/-- `VerifySwitch(sv)`: the switch the manager runs itself is accepted as it
is; any other goes through `verifySwitchEnter`.  The comparison may panic. -/
def HealthMgr.verifySwitch (h : HealthMgr) (sv : SwitchValidator) :
    Except String (Except SwitchError Unit) :=
  if !h.enableHealthMgr then pure (.error .notEnabled)
  else match h.getCurSV with
    | some sv0 => do
      if ← SwitchValidator.equal (some sv0) (some sv) then pure (.ok ())
      else pure (verifySwitchEnter sv.remove sv.add)
    | none => pure (verifySwitchEnter sv.remove sv.add)

/-- The committee `switchVerify` reads: its members and back members. -/
structure Committee where
  members : List CommitteeMember
  backMembers : List CommitteeMember

/-- Whether an entry's `CommitteeBase` is that of a member or back member; a nil
entry panics once there is a member to compare with. -/
def memberOf (mem : List CommitteeMember) : Option CommitteeMember → Except String Bool
  | some v => pure (mem.any (·.committeeBase == v.committeeBase))
  | none => if mem.isEmpty then pure false else throw nilDeref

/-- The loop of the long-list branch: `false` at the first entry that is not a
member. -/
def allMembers (mem : List CommitteeMember) : List (Option CommitteeMember) → Except String Bool
  | [] => pure true
  | v :: sw => do
    if ← memberOf mem v then allMembers mem sw else pure false

/-- The health `switchVerify` looks up for an entry with the given flag, nil
when the entry is flagged otherwise. -/
def healthFlagged (hm : HealthMgr) (flag : UInt32) (c : CommitteeMember) : Option Health :=
  if c.flag = flag then hm.getHealth c.committeeBase else none

/-- `switchVerify(block)`, on the block's `SwitchInfos()`. -/
def switchVerify (cm : Committee) (hm : HealthMgr) (sw : Option (List (Option CommitteeMember))) :
    Except String Bool :=
  match sw with
  | none => pure false
  | some l =>
    if 2 < l.length then allMembers (cm.members ++ cm.backMembers) l
    else if 0 < l.length then do
      -- one entry is the removal; of two, the first may be an addition
      let aEnter : Option CommitteeMember := if l.length = 2 then l.head?.join else none
      let rEnter : Option CommitteeMember := if l.length = 1 then l.head?.join else l.getLast?.join
      let add := aEnter.bind (healthFlagged hm stateAppendFlag)
      let rEnter ← match rEnter with
        | some r => pure r
        | none => throw nilDeref
      match healthFlagged hm stateRemovedFlag rEnter with
      | none => pure false
      | some remove =>
        let res ← hm.verifySwitch ⟨some remove, add, some l, 0⟩
        pure res.isOk
    else pure false

/-- The health `switchVerify` looks up for the addition of a switch: the first
of two entries, when it is flagged `StateAppendFlag`. -/
def switchAdd (hm : HealthMgr) (cs : List CommitteeMember) : Option Health :=
  if cs.length = 2 then cs.head?.bind (healthFlagged hm stateAppendFlag) else none

/-- The switch verdict `validateBlock` passes to `ValidateBlock`: that of
`switchVerify`, overridden to `true` for an empty list. -/
def validateBlockSwitch (cm : Committee) (hm : HealthMgr) (sw : Option (List (Option CommitteeMember))) :
    Except String Bool := do
  let res ← switchVerify cm hm sw
  pure (if (sw.getD []).length = 0 then true else res)

/-! ## Lists without nil entries -/

section NilFree

theorem comparedAny_map_some (c : CommitteeMember) (ds : List CommitteeMember) :
    comparedAny (some c) (ds.map some) = .ok (ds.any c.sameAs) := by
  induction ds with
  | nil => rfl
  | cons d ds ih =>
    show (if c.sameAs d then pure true else comparedAny (some c) (ds.map some)) = _
    rw [List.any_cons]
    cases c.sameAs d with
    | true => rfl
    | false => exact ih

theorem comparedAll_map_some (ds cs : List CommitteeMember) :
    comparedAll (ds.map some) (cs.map some) = .ok (cs.all fun c => ds.any c.sameAs) := by
  induction cs with
  | nil => rfl
  | cons c cs ih =>
    rw [List.map_cons, comparedAll, comparedAny_map_some, Except.ok_bind, List.all_cons]
    cases ds.any c.sameAs with
    | true => exact ih
    | false => rfl

theorem allMembers_map_some (mem cs : List CommitteeMember) :
    allMembers mem (cs.map some) = .ok (cs.all fun c => mem.any (·.committeeBase == c.committeeBase)) := by
  induction cs with
  | nil => rfl
  | cons c cs ih =>
    rw [List.map_cons, allMembers, memberOf, pure_bind, List.all_cons]
    cases mem.any (·.committeeBase == c.committeeBase) with
    | true => exact ih
    | false => rfl

end NilFree

/-! ## The verdict -/

/-- The switches a health manager runs carry no nil entries. -/
def HealthMgr.WellFormed (h : HealthMgr) : Prop :=
  ∀ sv ∈ h.curSwitch, sv.infos = none ∨ ∃ ds : List CommitteeMember, sv.infos = some (ds.map some)

/-- `sv0` is, as `Equal` compares, the switch `switchVerify` builds with the
removal `remove`, the addition `add` and the entries `cs`. -/
def RunsSwitch (sv0 : SwitchValidator) (remove : Health) (add : Option Health)
    (cs : List CommitteeMember) : Prop :=
  sv0.id = 0 ∧ Health.equal sv0.remove (some remove) = true ∧ Health.equal sv0.add add = true ∧
    ∃ ds : List CommitteeMember, sv0.infos = some (ds.map some) ∧ ∀ d ∈ ds, ∃ c ∈ cs, d.sameAs c = true

/-- What `switchVerify` accepts of a list without nil entries: more than two
entries, all (back) members; or one or two, the last a known removal, with the
manager enabled and running this switch or finding both sides ready. -/
def SwitchAccepted (cm : Committee) (hm : HealthMgr) (cs : List CommitteeMember) : Prop :=
  (2 < cs.length ∧ ∀ c ∈ cs, ∃ m ∈ cm.members ++ cm.backMembers, m.committeeBase = c.committeeBase) ∨
  ((cs.length = 1 ∨ cs.length = 2) ∧ ∃ r remove, cs.getLast? = some r ∧
    healthFlagged hm stateRemovedFlag r = some remove ∧ hm.enableHealthMgr = true ∧
    ((∃ sv0, hm.getCurSV = some sv0 ∧ RunsSwitch sv0 remove (switchAdd hm cs) cs) ∨
      verifySwitchEnter (some remove) (switchAdd hm cs) = .ok ()))

theorem isOk_iff {r : Except SwitchError Unit} : r.isOk = true ↔ r = .ok () := by
  cases r with
  | error e => exact ⟨(fun h => nomatch h), fun h => nomatch h⟩
  | ok u => exact ⟨fun _ => rfl, fun _ => rfl⟩

/-- `Equal` between a running switch and the proposed one does not panic, and
says `RunsSwitch`. -/
theorem equal_proposed {sv0 : SwitchValidator} (hsv0 : sv0.infos = none ∨ ∃ ds : List CommitteeMember, sv0.infos = some (ds.map some))
    (remove : Health) (add : Option Health) (cs : List CommitteeMember) :
    ∃ b, SwitchValidator.equal (some sv0) (some ⟨some remove, add, some (cs.map some), 0⟩) = .ok b ∧
      (b = true ↔ RunsSwitch sv0 remove add cs) := by
  unfold SwitchValidator.equal
  dsimp only
  by_cases hhead : (sv0.id == 0 && Health.equal sv0.remove (some remove) && Health.equal sv0.add add) = true
  · rw [if_pos hhead]
    simp only [Bool.and_eq_true, beq_iff_eq] at hhead
    obtain ⟨⟨hid, hrem⟩, hadd⟩ := hhead
    rcases hsv0 with hnone | ⟨ds, hds⟩
    · -- a running switch without infos is never equal to a proposed one
      rw [hnone]
      refine ⟨false, rfl, ⟨(fun h => nomatch h), ?_⟩⟩
      rintro ⟨-, -, -, ds, hds, -⟩
      rw [hnone] at hds
      exact nomatch hds
    · rw [hds, equalCommitteeMemberArray, comparedAll_map_some]
      refine ⟨_, rfl, ?_⟩
      simp only [List.all_eq_true, List.any_eq_true]
      constructor
      · intro hall
        exact ⟨hid, hrem, hadd, ds, hds, hall⟩
      · rintro ⟨-, -, -, ds', hds', hall⟩
        rw [hds, Option.some.injEq] at hds'
        rw [List.map_injective_iff.mpr (Option.some_injective _) hds']
        exact hall
  · rw [if_neg hhead]
    refine ⟨false, rfl, ⟨(fun h => nomatch h), ?_⟩⟩
    rintro ⟨hid, hrem, hadd, -⟩
    have hhead' : (sv0.id == 0 && Health.equal sv0.remove (some remove) && Health.equal sv0.add add) = true := by
      simp only [Bool.and_eq_true, beq_iff_eq]
      exact ⟨⟨hid, hrem⟩, hadd⟩
    exact absurd hhead' hhead

/-- `VerifySwitch` of a proposed switch does not panic, and accepts it exactly
when the manager is enabled and runs this switch or finds its validators in the
right states. -/
theorem verifySwitch_proposed {hm : HealthMgr} (hwf : hm.WellFormed) (remove : Health)
    (add : Option Health) (cs : List CommitteeMember) :
    ∃ r, hm.verifySwitch ⟨some remove, add, some (cs.map some), 0⟩ = .ok r ∧
      (r.isOk = true ↔ hm.enableHealthMgr = true ∧
        ((∃ sv0, hm.getCurSV = some sv0 ∧ RunsSwitch sv0 remove add cs) ∨
          verifySwitchEnter (some remove) add = .ok ())) := by
  unfold HealthMgr.verifySwitch
  cases hen : hm.enableHealthMgr with
  | false => exact ⟨_, rfl, ⟨(fun h => nomatch h), fun h => nomatch h.1⟩⟩
  | true =>
    simp only [Bool.not_true, Bool.false_eq_true, ↓reduceIte, true_and]
    cases hcur : hm.getCurSV with
    | none =>
      refine ⟨_, rfl, isOk_iff.trans ⟨Or.inr, ?_⟩⟩
      rintro (⟨sv0, hsv0, -⟩ | h)
      exacts [(nomatch hsv0), h]
    | some sv0 =>
      obtain ⟨b, hb, hiff⟩ := equal_proposed (hwf sv0 (List.mem_of_head? hcur)) remove add cs
      dsimp only
      rw [hb, Except.ok_bind]
      cases b with
      | true => exact ⟨_, rfl, ⟨fun _ => Or.inl ⟨sv0, rfl, hiff.mp rfl⟩, fun _ => rfl⟩⟩
      | false =>
        refine ⟨_, rfl, isOk_iff.trans ⟨Or.inr, ?_⟩⟩
        rintro (⟨sv0', hsv0', hruns⟩ | h)
        · rw [Option.some.injEq] at hsv0'
          subst hsv0'
          exact nomatch hiff.mpr hruns
        · exact h

/-- A switch of one or two entries without nil entries: the removal is the last
entry, looked up when flagged, and `VerifySwitch` decides. -/
theorem switchVerify_short (cm : Committee) (hm : HealthMgr) {cs : List CommitteeMember}
    (hlen : cs.length = 1 ∨ cs.length = 2) :
    switchVerify cm hm (some (cs.map some)) =
      match cs.getLast?.bind (healthFlagged hm stateRemovedFlag) with
      | none => pure false
      | some remove =>
        hm.verifySwitch ⟨some remove, switchAdd hm cs, some (cs.map some), 0⟩ >>= fun res => pure res.isOk := by
  obtain ⟨r, rfl⟩ | ⟨a, r, rfl⟩ : (∃ r, cs = [r]) ∨ ∃ a r, cs = [a, r] := by
    match cs, hlen with
    | [r], _ => exact Or.inl ⟨r, rfl⟩
    | [a, r], _ => exact Or.inr ⟨a, r, rfl⟩
  all_goals
    unfold switchVerify
    cases hx : healthFlagged hm stateRemovedFlag r <;> simp [hx, switchAdd]

/-- **`switchVerify` on a list without nil entries** does not panic, and its
verdict is `SwitchAccepted`: a long list is checked for membership only, at any
height, and a short one is left to the health manager. -/
theorem switchVerify_eq {hm : HealthMgr} (hwf : hm.WellFormed) (cm : Committee) (cs : List CommitteeMember) :
    ∃ b, switchVerify cm hm (some (cs.map some)) = .ok b ∧ (b = true ↔ SwitchAccepted cm hm cs) := by
  by_cases hlong : 2 < cs.length
  · -- the member list
    have hlen : 2 < (cs.map some).length := by rw [List.length_map]; exact hlong
    refine ⟨_, by rw [switchVerify, if_pos hlen, allMembers_map_some], ?_⟩
    simp only [List.all_eq_true, List.any_eq_true, beq_iff_eq, SwitchAccepted]
    constructor
    · exact fun h => Or.inl ⟨hlong, h⟩
    · rintro (⟨-, h⟩ | ⟨hshort, -⟩)
      · exact h
      · omega
  by_cases hpos : 0 < cs.length
  · -- a switch of one or two entries
    have hshort : cs.length = 1 ∨ cs.length = 2 := by omega
    rw [switchVerify_short cm hm hshort]
    cases hr : cs.getLast?.bind (healthFlagged hm stateRemovedFlag) with
    | none =>
      refine ⟨false, rfl, ⟨(fun h => nomatch h), ?_⟩⟩
      rintro (⟨hlong', -⟩ | ⟨-, r, remove, hlast, hremove, -⟩)
      · exact absurd hlong' hlong
      · rw [hlast, Option.bind_some, hremove] at hr
        exact nomatch hr
    | some remove =>
      obtain ⟨r, hlast, hremove⟩ := Option.bind_eq_some_iff.mp hr
      obtain ⟨res, hres, hiff⟩ := verifySwitch_proposed hwf remove (switchAdd hm cs) cs
      refine ⟨res.isOk, by dsimp only; rw [hres, Except.ok_bind]; rfl, hiff.trans ⟨?_, ?_⟩⟩
      · exact fun h => Or.inr ⟨hshort, r, remove, hlast, hremove, h⟩
      · rintro (⟨hlong', -⟩ | ⟨-, r', remove', hlast', hremove', h⟩)
        · exact absurd hlong' hlong
        · rw [hlast, Option.some.injEq] at hlast'
          subst hlast'
          rw [hremove, Option.some.injEq] at hremove'
          subst hremove'
          exact h
  · -- the empty list
    have hnil : cs = [] := List.eq_nil_of_length_eq_zero (by omega)
    subst hnil
    refine ⟨false, rfl, ⟨(fun h => nomatch h), ?_⟩⟩
    rintro (⟨h, -⟩ | ⟨h, -⟩) <;> simp at h

/-- After `OnStart` the health manager is disabled, and no switch of one or two
entries is accepted. -/
theorem switchVerify_onStart {hm : HealthMgr} (hwf : hm.WellFormed) (cm : Committee)
    {cs : List CommitteeMember} (hshort : cs.length ≤ 2) :
    switchVerify cm hm.onStart (some (cs.map some)) = .ok false := by
  obtain ⟨b, hb, hiff⟩ := switchVerify_eq (show hm.onStart.WellFormed from hwf) cm cs
  rw [hb]
  cases b with
  | false => rfl
  | true =>
    rcases hiff.mp rfl with ⟨hlong, -⟩ | ⟨-, -, -, -, -, hen, -⟩
    · omega
    · exact nomatch hen

/-- A nil entry that the long-list loop reaches panics, once the committee has a
member to compare it with. -/
theorem allMembers_nil_panics {mem : List CommitteeMember} (hmem : mem ≠ []) (cs : List CommitteeMember)
    (hcs : ∀ c ∈ cs, ∃ m ∈ mem, m.committeeBase = c.committeeBase) (rest : List (Option CommitteeMember)) :
    allMembers mem (cs.map some ++ none :: rest) = .error nilDeref := by
  induction cs with
  | nil =>
    rw [List.map_nil, List.nil_append, allMembers, memberOf, if_neg (by simpa using hmem)]
    rfl
  | cons c cs ih =>
    have hc : mem.any (·.committeeBase == c.committeeBase) = true := by
      obtain ⟨m, hm, heq⟩ := hcs c List.mem_cons_self
      exact List.any_eq_true.mpr ⟨m, hm, beq_iff_eq.mpr heq⟩
    rw [List.map_cons, List.cons_append, allMembers, memberOf, pure_bind, hc, if_pos rfl]
    exact ih fun c' hc' => hcs c' (List.mem_cons_of_mem c hc')

/-- A switch whose last entry is nil panics on its flag. -/
theorem switchVerify_nil_last (cm : Committee) (hm : HealthMgr) {l : List (Option CommitteeMember)}
    (hlen : l.length = 1 ∨ l.length = 2) (hlast : l.getLast? = some none) :
    switchVerify cm hm (some l) = .error nilDeref := by
  obtain ⟨rfl⟩ | ⟨a, rfl⟩ : l = [none] ∨ ∃ a, l = [a, none] := by
    match l, hlen, hlast with
    | [none], _, _ => exact Or.inl rfl
    | [a, none], _, _ => exact Or.inr ⟨a, rfl⟩
    | [some _], _, h => simp at h
    | [_, some _], _, h => simp at h
    | [], h, _ => simp at h
    | _ :: _ :: _ :: _, h, _ => simp at h
  all_goals rfl

end RpcNetwork.Tbft
