import Mathlib

/-!
# The LES client pool (`les/clientpool.go`)

A light server admits clients up to `connLimit` and `capLimit`, keeping them
in `connectedMap` and the priority queue `connectedQueue`, with the running
totals `connectedCap` and `priorityConnected`.  What does not fit pops
clients from the queue.

## Design notes

A client is its `enode.ID`; `connectedMap` maps it to its capacity and
priority flag.  Balances, price factors and priorities are not modelled: what
the pool decides from them is an argument.  The queue's order is
`MultiPop`'s; `Op.reprioritize` may permute it between calls.

`prque.LazyQueue` is not among the sources: `MultiPop` pops in priority order,
handing each item to the callback until it answers `false`; `Remove` of a
popped item does nothing, `Push` appends, and `Update` keeps the order.

Capacities and both totals are `uint64` and wrap as Go's do.  `connLimit` is a
Go `int`, an integer here.
-/

namespace RpcNetwork.Les

/-- What the capacity accounting reads of a connected `clientInfo`. -/
structure Client where
  capacity : UInt64
  priority : Bool
  deriving DecidableEq, Repr

/-- `clientPool`, with the fields its accounting reads and writes. -/
structure ClientPool (ID : Type) where
  closed : Bool
  connectedMap : AList fun _ : ID => Client
  connectedQueue : List ID
  connLimit : ℤ
  capLimit : UInt64
  connectedCap : UInt64
  priorityConnected : UInt64
  freeClientCap : UInt64

/-- `newClientPool(db, freeClientCap, clock, removePeer)`: both limits start at
Go's zero value. -/
def newClientPool {ID : Type} (freeClientCap : UInt64) : ClientPool ID :=
  ⟨false, ∅, [], 0, 0, 0, 0, freeClientCap⟩

/-- The errors of `setCapacity`: `client %064x is not connected` and
`errNoPriority`. -/
inductive CapacityError where
  | notConnected
  | noPriority
  deriving DecidableEq, Repr

namespace ClientPool

variable {ID : Type} [DecidableEq ID]

/-- `LazyQueue.MultiPop(callback)`: pop items in order, handing each to the
callback with the state and the queue left, until the callback answers
`false` or the queue is empty.  Returns the queue left and the state. -/
def multiPop {σ : Type} (callback : σ → ID → List ID → σ × Bool) :
    List ID → σ → List ID × σ
  | [], s => ([], s)
  | c :: queue, s =>
      let (s, more) := callback s c queue
      if more then multiPop callback queue s else (queue, s)

/-- The capacity of a client, read through its `clientInfo`. -/
def capacityOf (f : ClientPool ID) (id : ID) : UInt64 :=
  ((f.connectedMap.lookup id).map Client.capacity).getD 0

/-- `stop()`. -/
def stop (f : ClientPool ID) : ClientPool ID :=
  { f with closed := true }

/-- `dropClient(e, now, kick)`: remove a connected client and take its capacity
out of the totals. -/
def dropClient (f : ClientPool ID) (id : ID) : ClientPool ID :=
  match f.connectedMap.lookup id with
  | none => f
  | some e =>
      { f with
        connectedQueue := f.connectedQueue.erase id
        connectedMap := f.connectedMap.erase id
        connectedCap := f.connectedCap - e.capacity
        priorityConnected := if e.priority then f.priorityConnected - e.capacity
          else f.priorityConnected }

/-- `for _, c := range kickList { f.dropClient(c, now, true) }`. -/
def dropClients (f : ClientPool ID) (kickList : List ID) : ClientPool ID :=
  kickList.foldl dropClient f

/-- The registration of an admitted client: into the map, onto the queue, and
into the totals. -/
def register (f : ClientPool ID) (id : ID) (e : Client) : ClientPool ID :=
  { f with
    connectedMap := f.connectedMap.insert id e
    connectedQueue := f.connectedQueue ++ [id]
    connectedCap := f.connectedCap + e.capacity
    priorityConnected := if e.priority then f.priorityConnected + e.capacity
      else f.priorityConnected }

/-- The `MultiPop` of `connect`: pop clients until the newcomer fits, keeping
them in `kickList` and counting down `newCapacity` and `newCount`. -/
def popForConnect (f : ClientPool ID) (newCapacity : UInt64) (newCount : ℤ) :
    List ID × List ID × UInt64 × ℤ :=
  let (queue, kickList, newCapacity, newCount) :=
    multiPop (fun (st : List ID × UInt64 × ℤ) c _ =>
        let st := (st.1 ++ [c], st.2.1 - f.capacityOf c, st.2.2 - 1)
        (st, st.2.1 > f.capLimit || st.2.2 > f.connLimit))
      f.connectedQueue ([], newCapacity, newCount)
  (queue, kickList, newCapacity, newCount)

/-- `connect(peer, capacity)` for a client with positive balance `posBalance`.
`worseThanKicked` is the test `estimatedPriority(now + connectedBias) -
kickPriority > 0` against the last client popped. -/
def connect (f : ClientPool ID) (id : ID) (posBalance capacity : UInt64)
    (worseThanKicked : Bool) : Bool × ClientPool ID :=
  if f.closed then (false, f)
  else if id ∈ f.connectedMap then (false, f)
  else
    let priority := posBalance != 0
    -- a free client gets the free capacity, and so does a priority client asking for none
    let capacity := if !priority || capacity == 0 then f.freeClientCap else capacity
    let newCapacity := f.connectedCap + capacity
    let newCount : ℤ := f.connectedQueue.length + 1
    if newCapacity > f.capLimit || newCount > f.connLimit then
      let (queue, kickList, newCapacity, newCount) := f.popForConnect newCapacity newCount
      if newCapacity > f.capLimit || newCount > f.connLimit || worseThanKicked then
        -- rejected: the popped clients go back
        (false, { f with connectedQueue := queue ++ kickList })
      else
        (true, ({ f with connectedQueue := queue }.dropClients kickList).register id ⟨capacity, priority⟩)
    else (true, f.register id ⟨capacity, priority⟩)

/-- `disconnect(p)`. -/
def disconnect (f : ClientPool ID) (id : ID) : ClientPool ID :=
  if f.closed then f
  else if id ∈ f.connectedMap then f.dropClient id
  else f

/-- `balanceExhausted(id)`: a priority client whose balance ran out loses its
priority and falls back to the free capacity. -/
def balanceExhausted (f : ClientPool ID) (id : ID) : ClientPool ID :=
  match f.connectedMap.lookup id with
  | none => f
  | some c =>
      if !c.priority then f
      else
        let f := { f with priorityConnected := f.priorityConnected - c.capacity }
        if c.capacity ≠ f.freeClientCap then
          { f with
            connectedCap := f.connectedCap + (f.freeClientCap - c.capacity)
            connectedMap := f.connectedMap.insert id ⟨f.freeClientCap, false⟩ }
        else { f with connectedMap := f.connectedMap.insert id { c with priority := false } }

/-- `setLimits(totalConn, totalCap)`: set both limits, and kick clients in
queue order until the rest fit. -/
def setLimits (f : ClientPool ID) (totalConn : ℤ) (totalCap : UInt64) : ClientPool ID :=
  let f := { f with connLimit := totalConn, capLimit := totalCap }
  if f.connectedCap > f.capLimit || (f.connectedQueue.length : ℤ) > f.connLimit then
    let (queue, f) := multiPop (fun f c queue =>
        let f := { f with connectedQueue := queue }.dropClient c
        (f, f.connectedCap > f.capLimit || (f.connectedQueue.length : ℤ) > f.connLimit))
      f.connectedQueue f
    { f with connectedQueue := queue }
  else f

/-- The `MultiPop` of `setCapacity`: pop clients, taking each one's capacity
out of `connectedCap`, until the total fits or the client itself is popped. -/
def popForCapacity (f : ClientPool ID) (id : ID) : List ID × List ID × UInt64 × Bool :=
  let (queue, kickList, connectedCap, kick) :=
    multiPop (fun (st : List ID × UInt64 × Bool) client _ =>
        let kickList := st.1 ++ [client]
        let connectedCap := st.2.1 - f.capacityOf client
        let kick := st.2.2 && client != id
        ((kickList, connectedCap, kick), kick && connectedCap > f.capLimit))
      f.connectedQueue ([], f.connectedCap, true)
  (queue, kickList, connectedCap, kick)

/-- `setCapacity(c, capacity)` for the connected client `id`. -/
def setCapacity (f : ClientPool ID) (id : ID) (capacity : UInt64) :
    Option CapacityError × ClientPool ID :=
  match f.connectedMap.lookup id with
  | none => (some .notConnected, f)
  | some c =>
      if c.capacity = capacity then (none, f)
      else if !c.priority then (some .noPriority, f)
      else
        let oldCapacity := c.capacity
        let f := { f with
          connectedMap := f.connectedMap.insert id { c with capacity }
          connectedCap := f.connectedCap + (capacity - oldCapacity) }
        if f.connectedCap > f.capLimit then
          let (queue, kickList, connectedCap, kick) := f.popForCapacity id
          if kick then
            let f := { f with connectedQueue := queue, connectedCap }.dropClients kickList
            (none, { f with priorityConnected := f.priorityConnected + (capacity - oldCapacity) })
          else
            -- the client itself was popped: restore its capacity and push the popped back
            let f := { f with
              connectedMap := f.connectedMap.insert id { c with capacity := oldCapacity }
              connectedQueue := queue
              connectedCap }
            (some .noPriority, kickList.foldl (fun f c =>
              { f with
                connectedCap := f.connectedCap + f.capacityOf c
                connectedQueue := f.connectedQueue ++ [c] }) f)
        else (none, { f with priorityConnected := f.priorityConnected + (capacity - oldCapacity) })

/-- The calls a server makes on its pool, and the change of priorities over
time. -/
inductive Op (ID : Type) where
  | connect (id : ID) (posBalance capacity : UInt64) (worseThanKicked : Bool)
  | disconnect (id : ID)
  | setCapacity (id : ID) (capacity : UInt64)
  | balanceExhausted (id : ID)
  | setLimits (totalConn : ℤ) (totalCap : UInt64)
  | reprioritize (order : List ID)
  | stop

/-- The effect of one call on the pool. -/
def apply (f : ClientPool ID) : Op ID → ClientPool ID
  | .connect id posBalance capacity worseThanKicked =>
      (f.connect id posBalance capacity worseThanKicked).2
  | .disconnect id => f.disconnect id
  | .setCapacity id capacity => (f.setCapacity id capacity).2
  | .balanceExhausted id => f.balanceExhausted id
  | .setLimits totalConn totalCap => f.setLimits totalConn totalCap
  | .reprioritize order =>
      if order.isPerm f.connectedQueue then { f with connectedQueue := order } else f
  | .stop => f.stop

/-- A run of calls. -/
def run (f : ClientPool ID) (ops : List (Op ID)) : ClientPool ID :=
  ops.foldl apply f

end ClientPool

end RpcNetwork.Les
