import Mathlib
import RpcNetwork.Lib.FlagSet

/-!
# The node state machine

`p2p/nodestate` keeps per node up to 64 flags, timeouts that reset flags, and
fields.  `SetState` changes the flags under the lock, then calls the
subscribers whose mask meets the change; callbacks run without the lock and may
call `SetState`, `SetField` and `AddTimeout` themselves.

The model runs one thread over a worklist of calls and callbacks: a call is
made under the lock in one step, and the callbacks it triggers go to the
front, in subscription order.  Timers fire when the worklist is empty.

## Design notes

`bitMask` is the `uint64` of the source; reasoning about it goes through
`FlagSet.flags`.  Timers are numbered in the order `addTimeout` creates them,
and `timers` holds each one's `nodeStateTimeout`, which the timer's callback and
the node's `timeouts` share: `removeTimeouts` lowers its mask in place, and a
firing timer reads the mask as it is then.  A timer stopped too late may still
fire: `fire` is open to every timer created, a stopped one with mask zero.

`removeTimeouts` moves the last timeout into the dropped one's place; the model
keeps the order, which nothing reads.  A callback is the list of calls it makes, chosen from the machine as it is when
the callback is called.  A timeout's duration is read only for whether it is
zero.  The enode record, the database, `stopped`, the offline callbacks and the
descriptors are read by no function modelled here.
-/

namespace RpcNetwork.P2p.Nodestate

open FlagSet

/-- `bitMask`: a set of flags, bit `i` for flag `i`. -/
abbrev BitMask := UInt64

/-- `nodeStateTimeout`: the flags its timer resets, on the node it belongs to. -/
structure Timeout (NodeId : Type) where
  node : NodeId
  mask : BitMask
  deriving DecidableEq

/-- `nodeInfo`: the state, the timers of its timeouts, and the fields. -/
structure NodeInfo (V : Type) where
  state : BitMask
  timeouts : List ℕ
  fields : ℕ → Option V

/-- `newNode`: no flag, no timeout, no field. -/
def newNode {V : Type} : NodeInfo V := ⟨0, [], fun _ => none⟩

/-- The part of `NodeStateMachine` that calls change: `nodes`, and the
timeouts that the timers created so far share with them. -/
structure Machine (NodeId V : Type) where
  nodes : NodeId → Option (NodeInfo V)
  timers : ℕ → Option (Timeout NodeId)
  nextTimer : ℕ

/-- A call a callback, or the user of the machine, makes. -/
inductive Call (NodeId V : Type) where
  | setState (n : NodeId) (set reset : BitMask) (timeout : ℕ)
  | setField (n : NodeId) (field : ℕ) (value : Option V)
  | addTimeout (n : NodeId) (mask : BitMask) (timeout : ℕ)

/-- A state subscription: its mask, and its `StateCallback` by the calls it
makes, given the machine, the node and the old and new state under the mask. -/
structure StateSub (NodeId V : Type) where
  mask : BitMask
  callback : Machine NodeId V → NodeId → BitMask → BitMask → List (Call NodeId V)

/-- A `FieldCallback` by the calls it makes, given the machine, the node, its
state and the old and new value. -/
def FieldCallback (NodeId V : Type) :=
  Machine NodeId V → NodeId → BitMask → Option V → Option V → List (Call NodeId V)

/-- The subscriptions and the fields, fixed before `Start`. -/
structure Subscriptions (NodeId V : Type) where
  stateSubs : List (StateSub NodeId V)
  fieldSubs : ℕ → List (FieldCallback NodeId V)
  /-- `reflect.TypeOf(value) == f.ftype` -/
  fieldType : ℕ → V → Bool
  /-- `len(ns.fields)` -/
  numFields : ℕ

variable {NodeId V : Type} [DecidableEq NodeId] [DecidableEq V]

namespace Machine

/-- No node and no timer. -/
def empty : Machine NodeId V := ⟨fun _ => none, fun _ => none, 0⟩

/-- `GetState`: the flags of a node, none for a node that is not there. -/
def getState (m : Machine NodeId V) (n : NodeId) : BitMask :=
  match m.nodes n with
  | some node => node.state
  | none => 0

end Machine

/-! ### The calls under the lock -/

/-- `removeTimeouts`: every timeout of the list loses the flags of `mask`; one
left with none is dropped and its timer stopped. -/
def removeTimeouts (mask : BitMask) :
    (ℕ → Option (Timeout NodeId)) → List ℕ → (ℕ → Option (Timeout NodeId)) × List ℕ
  | timers, [] => (timers, [])
  | timers, τ :: rest =>
    match timers τ with
    | none =>
      let r := removeTimeouts mask timers rest
      (r.1, τ :: r.2)
    | some t =>
      let hit := t.mask &&& mask
      if hit = 0 then
        let r := removeTimeouts mask timers rest
        (r.1, τ :: r.2)
      else
        let t := { t with mask := t.mask - hit }
        let r := removeTimeouts mask (Function.update timers τ (some t)) rest
        if t.mask ≠ 0 then (r.1, τ :: r.2) else r

namespace Machine

/-- `addTimeout`: a new timer for the flags of `mask` the node has, which
leave the node's older timeouts. -/
def addTimeout (m : Machine NodeId V) (n : NodeId) (mask : BitMask) : Machine NodeId V :=
  match m.nodes n with
  | none => m
  | some node =>
    let mask := mask &&& node.state
    if mask = 0 then m
    else
      let r := removeTimeouts mask m.timers node.timeouts
      { nodes := Function.update m.nodes n (some { node with timeouts := r.2 ++ [m.nextTimer] })
        timers := Function.update r.1 m.nextTimer (some ⟨n, mask⟩)
        nextTimer := m.nextTimer + 1 }

end Machine

/-- What `SetState` hands to the callbacks: the old and the new state, and the
node's fields. -/
structure Change (V : Type) where
  oldState : BitMask
  newState : BitMask
  fields : ℕ → Option V

/-- `SetState` under the lock, from the node's record on: the new state, the
timeouts of the set and reset flags removed, a new timeout, and the node
discarded if no flag is left.  It returns the change, if the state changed. -/
def updateState (m : Machine NodeId V) (n : NodeId) (node : NodeInfo V) (set reset : BitMask)
    (timeout : ℕ) : Machine NodeId V × Option (Change V) :=
  let oldState := node.state
  let newState := (node.state &&& ~~~reset) ||| set
  let r := removeTimeouts (set ||| reset) m.timers node.timeouts
  let node := { node with state := newState, timeouts := r.2 }
  let m := { m with nodes := Function.update m.nodes n (some node), timers := r.1 }
  let m := if timeout ≠ 0 ∧ newState ≠ 0 then m.addTimeout n set else m
  if newState = oldState then (m, none)
  else if newState = 0 then
    ({ m with nodes := Function.update m.nodes n none }, some ⟨oldState, newState, node.fields⟩)
  else (m, some ⟨oldState, newState, node.fields⟩)

/-- `SetState` under the lock: a node that is not there is created, unless
nothing is set. -/
def setStateLocked (m : Machine NodeId V) (n : NodeId) (set reset : BitMask) (timeout : ℕ) :
    Machine NodeId V × Option (Change V) :=
  match m.nodes n with
  | none => if set = 0 then (m, none) else updateState m n newNode set reset timeout
  | some node => updateState m n node set reset timeout

/-- `SetField` under the lock: it returns the node's state and the old value,
if the value changed. -/
def setFieldLocked (subs : Subscriptions NodeId V) (m : Machine NodeId V) (n : NodeId)
    (field : ℕ) (value : Option V) : Except String (Machine NodeId V × Option (BitMask × Option V)) :=
  match m.nodes n with
  | none => .ok (m, none)
  | some node =>
    if value.any (fun v => !subs.fieldType field v) then .error "invalid field type"
    else
      let oldValue := node.fields field
      if value = oldValue then .ok (m, none)
      else
        let node := { node with fields := Function.update node.fields field value }
        .ok ({ m with nodes := Function.update m.nodes n (some node) }, some (node.state, oldValue))

/-! ### Callbacks and the worklist -/

/-- A state subscriber's call: the subscriber's index, the node, and the old and
new state under its mask. -/
structure Notice (NodeId : Type) where
  sub : ℕ
  node : NodeId
  oldState : BitMask
  newState : BitMask
  deriving DecidableEq

/-- What is left to do: a call, or a callback, with the notice it stands for. -/
inductive Item (NodeId V : Type) where
  | call (c : Call NodeId V)
  | invoke (notice : Option (Notice NodeId)) (callback : Machine NodeId V → List (Call NodeId V))

/-- The state subscribers `SetState` calls after a change: those whose mask
meets the changed flags, in subscription order. -/
def stateInvocations (subs : Subscriptions NodeId V) (n : NodeId) (ch : Change V) :
    List (Item NodeId V) :=
  let changed := ch.oldState ^^^ ch.newState
  (subs.stateSubs.zipIdx.filter fun p => changed &&& p.1.mask ≠ 0).map fun p =>
    .invoke (some ⟨p.2, n, ch.oldState &&& p.1.mask, ch.newState &&& p.1.mask⟩)
      fun m => p.1.callback m n (ch.oldState &&& p.1.mask) (ch.newState &&& p.1.mask)

/-- The field subscribers of a discarded node: each field that holds a value
is reported as set to none. -/
def discardInvocations (subs : Subscriptions NodeId V) (n : NodeId) (fields : ℕ → Option V) :
    List (Item NodeId V) :=
  (List.range subs.numFields).flatMap fun i =>
    match fields i with
    | some v => (subs.fieldSubs i).map fun cb => .invoke none fun m => cb m n 0 (some v) none
    | none => []

/-- Every callback `SetState` calls after a change. -/
def changeInvocations (subs : Subscriptions NodeId V) (n : NodeId) (ch : Change V) :
    List (Item NodeId V) :=
  stateInvocations subs n ch ++ if ch.newState = 0 then discardInvocations subs n ch.fields else []

/-- The field subscribers `SetField` calls after a change. -/
def fieldInvocations (subs : Subscriptions NodeId V) (n : NodeId) (field : ℕ) (state : BitMask)
    (oldValue value : Option V) : List (Item NodeId V) :=
  (subs.fieldSubs field).map fun cb => .invoke none fun m => cb m n state oldValue value

/-- The machine, the worklist, the notices state subscribers have received,
and, as a ghost, every change of a node's state in the order it was made. -/
structure Config (NodeId V : Type) where
  machine : Machine NodeId V
  work : List (Item NodeId V)
  log : List (Notice NodeId)
  history : List (NodeId × BitMask × BitMask)

namespace Config

/-- One step: the first item of the worklist is done.  A call is made under
the lock and the callbacks it triggers go first; a callback's calls go first. -/
def step (subs : Subscriptions NodeId V) (c : Config NodeId V) : Option (Config NodeId V) :=
  match c.work with
  | [] => none
  | .call (.setState n set reset timeout) :: rest =>
    let r := setStateLocked c.machine n set reset timeout
    match r.2 with
    | none => some { c with machine := r.1, work := rest }
    | some ch =>
      some { c with
        machine := r.1
        work := changeInvocations subs n ch ++ rest
        history := c.history ++ [(n, ch.oldState, ch.newState)] }
  | .call (.setField n field value) :: rest =>
    match setFieldLocked subs c.machine n field value with
    | .ok (m, some (state, oldValue)) =>
      some { c with machine := m, work := fieldInvocations subs n field state oldValue value ++ rest }
    | .ok (m, none) => some { c with machine := m, work := rest }
    | .error _ => some { c with work := rest }
  | .call (.addTimeout n mask _) :: rest =>
    some { c with machine := c.machine.addTimeout n mask, work := rest }
  | .invoke notice callback :: rest =>
    some { c with work := (callback c.machine).map .call ++ rest, log := c.log ++ notice.toList }

/-- `k` steps, none if the worklist runs out first. -/
def steps (subs : Subscriptions NodeId V) : ℕ → Config NodeId V → Option (Config NodeId V)
  | 0, c => some c
  | k + 1, c => (c.step subs).bind (steps subs k)

end Config

/-- What starts when nothing is left to do: a call from outside, or a timer
firing as `SetState(n, Flags{}, t.mask, 0)` with the mask it has then. -/
inductive Event (NodeId V : Type) where
  | call (c : Call NodeId V)
  | fire (timer : ℕ)

/-- The call an event makes; a timer that was never created does not fire. -/
def Event.toCall (m : Machine NodeId V) : Event NodeId V → Option (Call NodeId V)
  | .call c => some c
  | .fire τ => (m.timers τ).map fun t => .setState t.node 0 t.mask 0

/-- The configurations a run reaches from the empty machine. -/
inductive Reachable (subs : Subscriptions NodeId V) : Config NodeId V → Prop where
  | init : Reachable subs ⟨.empty, [], [], []⟩
  | step {c c' : Config NodeId V} : Reachable subs c → c.step subs = some c' → Reachable subs c'
  | event {c : Config NodeId V} {e : Event NodeId V} {call : Call NodeId V} :
      Reachable subs c → c.work = [] → e.toCall c.machine = some call →
      Reachable subs { c with work := [.call call] }

end RpcNetwork.P2p.Nodestate
