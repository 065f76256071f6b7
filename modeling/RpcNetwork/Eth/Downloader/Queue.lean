import Mathlib
import RpcNetwork.Lib.ExceptRun
import RpcNetwork.Lib.Prque

/-!
# The block download queue

A model of the body and receipt half of `eth/downloader/queue.go` and of the
`resultStore` of `resultstore.go` behind it.  Headers wait in a kind's task
queue, are reserved for a peer as a `fetchRequest`, and come back as a
delivery whose data is written into the `fetchResult` the result store keeps
at the header's slot; `Results` hands out the completed front of the store.

## Design notes

A Go panic is `Except.error`; a Go `error` result is part of the value.  The
fetch results are values kept in `items`: where the source mutates a result
through the pointer `GetDeliverySlot` returned, the model writes it back at
its slot.  The peers' `lacking` sets belong to the peer connections:
reservations take the peer as an argument and deliveries return the hashes
they mark.  The header skeleton (`ReserveHeaders`, `DeliverHeaders`), the
metrics and logs, and the block size estimate behind the throttle threshold are
left out: `Results` takes the threshold it sets.
-/

namespace RpcNetwork.Eth.Downloader

/-- The fields of `types.Header` the queue reads; `hash` is `Hash()`. -/
structure Header where
  number : ℕ
  hash : ℕ
  parentHash : ℕ
  txHash : ℕ
  uncleHash : ℕ
  receiptHash : ℕ
  deriving DecidableEq, Repr

/-- `types.EmptyRootHash`. -/
def emptyRootHash : ℕ := 0x56e81f171bcc55a6ff8345e692c0f86e5b48e01b996cadc001622fb5e363b421

/-- `types.EmptyUncleHash`. -/
def emptyUncleHash : ℕ := 0x1dcc4de8dec75d7aab85b567b6ccd41ad312451b948a7413f0a142fd40d49347

/-- `Header.EmptyBody`. -/
def Header.emptyBody (h : Header) : Bool :=
  h.txHash == emptyRootHash && h.uncleHash == emptyUncleHash

/-- `Header.EmptyReceipts`. -/
def Header.emptyReceipts (h : Header) : Bool :=
  h.receiptHash == emptyRootHash

/-- `SyncMode`. -/
inductive SyncMode where
  | fullSync
  | fastSync
  | lightSync
  deriving DecidableEq, Repr

/-- How a call ends abnormally. -/
inductive Panic where
  /-- a nil pointer dereference -/
  | nilDereference
  /-- an index out of range -/
  | indexOutOfRange
  deriving DecidableEq, Repr

/-- The errors the queue's methods return. -/
inductive QueueError where
  /-- `errNoFetchesPending`. -/
  | noFetchesPending
  /-- `errStaleDelivery`. -/
  | staleDelivery
  /-- `errInvalidBody`. -/
  | invalidBody
  /-- `errInvalidReceipt`. -/
  | invalidReceipt
  /-- `%w: index allocation went beyond available resultStore space`, wrapping
  `errInvalidChain`. -/
  | invalidChain (index : ℤ) (headerNumber resultOffset length : ℕ)
  /-- `partial failure: %v`. -/
  | partialFailure (failure : QueueError)
  /-- `%w: %v` of a failure and `errStaleDelivery`. -/
  | stale (failure : QueueError)
  deriving DecidableEq, Repr

/-- `errors.Is(err, errInvalidChain)`: only `%w` wraps. -/
def QueueError.isInvalidChain : QueueError → Bool
  | .invalidChain .. => true
  | .stale failure => failure.isInvalidChain
  | _ => false

/-- Go's `xs[i]`. -/
def index {α : Type} (xs : List α) (i : ℕ) : Except Panic α :=
  match xs[i]? with
  | some x => pure x
  | none => throw .indexOutOfRange

/-! ### Fetch results -/

/-- `bodyType`. -/
def bodyType : ℕ := 0

/-- `receiptType`. -/
def receiptType : ℕ := 1

/-- `fetchResult`: the parts still outstanding as the bits of `pending`, and the
data delivered so far. -/
structure FetchResult where
  pending : ℕ
  header : Header
  uncles : List Header
  transactions : List ℕ
  receipts : List ℕ
  deriving DecidableEq, Repr

/-- `newFetchResult`. -/
def newFetchResult (header : Header) (fastSync : Bool) : FetchResult where
  pending := (if !header.emptyBody then 1 <<< bodyType else 0) |||
    (if fastSync && !header.emptyReceipts then 1 <<< receiptType else 0)
  header := header
  uncles := []
  transactions := []
  receipts := []

/-- `SetBodyDone`. -/
def FetchResult.setBodyDone (f : FetchResult) : FetchResult :=
  if f.pending &&& (1 <<< bodyType) ≠ 0 then { f with pending := f.pending - 1 } else f

/-- `SetReceiptsDone`. -/
def FetchResult.setReceiptsDone (f : FetchResult) : FetchResult :=
  if f.pending &&& (1 <<< receiptType) ≠ 0 then { f with pending := f.pending - 2 } else f

/-- `AllDone`. -/
def FetchResult.allDone (f : FetchResult) : Bool :=
  f.pending == 0

/-- `Done(kind)`. -/
def FetchResult.done (f : FetchResult) (kind : ℕ) : Bool :=
  f.pending &&& (1 <<< kind) == 0

/-! ### The result store -/

/-- `resultStore`: `items[i]` is the result of block `resultOffset + i`. -/
structure ResultStore where
  items : List (Option FetchResult)
  resultOffset : ℕ
  indexIncomplete : ℕ
  throttleThreshold : ℕ
  deriving DecidableEq, Repr

/-- `newResultStore`. -/
def newResultStore (size : ℕ) : ResultStore :=
  ⟨List.replicate size none, 0, 0, size⟩

namespace ResultStore

/-- `SetThrottleThreshold`, with the threshold it returns. -/
def setThrottleThreshold (r : ResultStore) (threshold : ℕ) : ℕ × ResultStore :=
  let threshold := if threshold ≥ r.items.length then r.items.length else threshold
  (threshold, { r with throttleThreshold := threshold })

/-- What `getFetchResult` returns. -/
structure FetchSlot where
  item : Option FetchResult
  index : ℤ
  stale : Bool
  throttle : Bool
  err : Option QueueError

/-- `getFetchResult`. -/
def getFetchResult (r : ResultStore) (headerNumber : ℕ) : FetchSlot :=
  let index : ℤ := headerNumber - r.resultOffset
  let throttle := decide (index ≥ r.throttleThreshold)
  let stale := decide (index < 0)
  if index ≥ r.items.length then
    ⟨none, index, stale, throttle, some (.invalidChain index headerNumber r.resultOffset r.items.length)⟩
  else if stale then ⟨none, index, stale, throttle, none⟩
  else ⟨r.items[index.toNat]?.join, index, stale, throttle, none⟩

/-- `AddFetch`: `(stale, throttled, item, err)`, a new result stored in an
empty slot. -/
def addFetch (r : ResultStore) (header : Header) (fastSync : Bool) :
    (Bool × Bool × Option FetchResult × Option QueueError) × ResultStore :=
  let s := r.getFetchResult header.number
  if s.err.isSome || s.stale || s.throttle then ((s.stale, s.throttle, s.item, s.err), r)
  else
    match s.item with
    | some item => ((s.stale, s.throttle, some item, s.err), r)
    | none =>
      let item := newFetchResult header fastSync
      ((s.stale, s.throttle, some item, s.err), { r with items := r.items.set s.index.toNat (some item) })

/-- `GetDeliverySlot`: `(item, stale, err)`. -/
def getDeliverySlot (r : ResultStore) (headerNumber : ℕ) :
    Option FetchResult × Bool × Option QueueError :=
  let s := r.getFetchResult headerNumber
  (s.item, s.stale, s.err)

/-- Write back the result of block `headerNumber`, as a mutation through the
pointer `GetDeliverySlot` returned does. -/
def store (r : ResultStore) (headerNumber : ℕ) (item : FetchResult) : ResultStore :=
  { r with items := r.items.set (headerNumber - r.resultOffset) (some item) }

/-- `HasCompletedItems`. -/
def hasCompletedItems (r : ResultStore) : Bool :=
  match r.items with
  | some item :: _ => item.allDone
  | _ => false

/-- The loop of `countCompleted`: how many results at the front are complete. -/
def countFrom : List (Option FetchResult) → ℕ
  | some result :: rest => if result.allDone then countFrom rest + 1 else 0
  | _ => 0

/-- `countCompleted`, from the cached `indexIncomplete` on. -/
def countCompleted (r : ResultStore) : ℕ × ResultStore :=
  let index := r.indexIncomplete + countFrom (r.items.drop r.indexIncomplete)
  (index, { r with indexIncomplete := index })

/-- `GetCompleted(limit)`. -/
def getCompleted (r : ResultStore) (limit : ℕ) : List (Option FetchResult) × ResultStore :=
  let (completed, r) := r.countCompleted
  let limit := if limit > completed then completed else limit
  let results := r.items.take limit
  (results, { r with
    items := r.items.drop limit ++ List.replicate limit none
    resultOffset := r.resultOffset + limit
    indexIncomplete := r.indexIncomplete - limit })

/-- `Prepare(offset)`. -/
def prepare (r : ResultStore) (offset : ℕ) : ResultStore :=
  if r.resultOffset < offset then { r with resultOffset := offset } else r

end ResultStore

/-! ### The trackers of one kind -/

/-- `fetchRequest` for bodies or receipts: the peer's id, the headers in request
order and when the request was made. -/
structure FetchRequest where
  peer : String
  headers : List Header
  time : ℕ
  deriving DecidableEq, Repr

/-- A `peerConnection` as a reservation reads it: its id and its `lacking` set. -/
structure PeerConnection where
  id : String
  lacking : List ℕ

/-- `peerConnection.Lacks`. -/
def PeerConnection.lacks (p : PeerConnection) (hash : ℕ) : Bool :=
  p.lacking.contains hash

/-- One kind's trackers: `blockTaskPool`, `blockTaskQueue` and `blockPendPool`, or
the `receipt` ones. -/
structure Tasks where
  taskPool : AList fun _ : ℕ => Header
  taskQueue : List (Header × ℤ)
  pendPool : AList fun _ : String => FetchRequest
  deriving DecidableEq

/-- The trackers before anything is scheduled. -/
def Tasks.empty : Tasks := ⟨∅, [], ∅⟩

/-- `taskQueue.Push(header, -int64(header.Number.Uint64()))` for each header in turn. -/
def pushHeaders (taskQueue : List (Header × ℤ)) (headers : List Header) : List (Header × ℤ) :=
  Prque.pushAll taskQueue headers fun h => -(h.number : ℤ)

/-- One header of `Schedule` for one kind: stored and queued unless its hash is
already scheduled. -/
def Tasks.schedule (t : Tasks) (header : Header) : Tasks :=
  if header.hash ∈ t.taskPool then t
  else
    { t with
      taskPool := t.taskPool.insert header.hash header
      taskQueue := Prque.push t.taskQueue header (-(header.number : ℤ)) }

/-- What the loop of `reserveHeaders` carries. -/
structure Reservation where
  taskPool : AList fun _ : ℕ => Header
  taskQueue : List (Header × ℤ)
  resultCache : ResultStore
  send : List Header
  skip : List Header
  progress : Bool
  throttled : Bool

/-- The loop of `reserveHeaders`.  Every round that goes on pops an entry, so a
`fuel` of the queue's length runs it to its end. -/
def reserveLoop (p : PeerConnection) (count : ℕ) (kind : ℕ) (fastSync : Bool) :
    ℕ → Reservation → Reservation
  | 0, s => s
  | fuel + 1, s =>
    match Prque.peek s.taskQueue with
    | none => s
    | some (header, _) =>
      if s.send.length < count then
        let ((stale, throttle, item, err), resultCache) := s.resultCache.addFetch header fastSync
        -- already delivered upstream: dropped for good
        if stale then
          reserveLoop p count kind fastSync fuel
            { s with
              taskQueue := Prque.popItem s.taskQueue
              progress := true
              taskPool := s.taskPool.erase header.hash
              resultCache := resultCache }
        else if throttle then { s with throttled := s.skip.length == 0, resultCache := resultCache }
        else if err.isSome then { s with resultCache := resultCache }
        else
          match item with
          -- past its early return `AddFetch` hands out a result (`addFetch_item`)
          | none => { s with resultCache := resultCache }
          | some item =>
            if item.done kind then
              reserveLoop p count kind fastSync fuel
                { s with
                  taskPool := s.taskPool.erase header.hash
                  taskQueue := Prque.popItem s.taskQueue
                  progress := true
                  resultCache := resultCache }
            else
              let s := { s with taskQueue := Prque.popItem s.taskQueue, resultCache := resultCache }
              if p.lacks header.hash then
                reserveLoop p count kind fastSync fuel { s with skip := s.skip ++ [header] }
              else
                reserveLoop p count kind fastSync fuel { s with send := s.send ++ [header] }
      else s

/-- `reserveHeaders`: the request made, `progress` and `throttle`. -/
def reserveHeaders (p : PeerConnection) (count : ℕ) (now : ℕ) (t : Tasks) (resultCache : ResultStore)
    (kind : ℕ) (fastSync : Bool) : (Option FetchRequest × Bool × Bool) × Tasks × ResultStore :=
  if t.taskQueue.isEmpty then ((none, false, true), t, resultCache)
  else if p.id ∈ t.pendPool then ((none, false, false), t, resultCache)
  else
    let s := reserveLoop p count kind fastSync t.taskQueue.length
      ⟨t.taskPool, t.taskQueue, resultCache, [], [], false, false⟩
    -- the skipped headers go back
    let t := { t with taskPool := s.taskPool, taskQueue := pushHeaders s.taskQueue s.skip }
    if s.send.isEmpty then ((none, s.progress, s.throttled), t, s.resultCache)
    else
      let request : FetchRequest := ⟨p.id, s.send, now⟩
      ((some request, s.progress, s.throttled), { t with pendPool := t.pendPool.insert p.id request },
        s.resultCache)

/-- `cancel`: the request's headers go back, and its peer's entry is deleted. -/
def cancel (request : FetchRequest) (t : Tasks) : Tasks :=
  { t with
    taskQueue := pushHeaders t.taskQueue request.headers
    pendPool := t.pendPool.erase request.peer }

/-- The part of `Revoke` for one kind. -/
def Tasks.revoke (t : Tasks) (peerID : String) : Tasks :=
  match t.pendPool.lookup peerID with
  | some request =>
    { t with
      taskQueue := pushHeaders t.taskQueue request.headers
      pendPool := t.pendPool.erase peerID }
  | none => t

/-- One round of `expire`'s loop, over a request `e` of the pending pool it
started from. -/
def expireStep (now timeout : ℕ) (acc : List (String × ℕ) × Tasks) (e : Σ _ : String, FetchRequest) :
    List (String × ℕ) × Tasks :=
  if now - e.2.time > timeout then
    (acc.1 ++ [(e.1, e.2.headers.length)],
      { acc.2 with
        taskQueue := pushHeaders acc.2.taskQueue e.2.headers
        pendPool := acc.2.pendPool.erase e.1 })
  else acc

/-- `expire`: each request older than `timeout` at `now` is returned to the
queue, and its peer reported with the number of headers it held. -/
def expire (now timeout : ℕ) (t : Tasks) : List (String × ℕ) × Tasks :=
  t.pendPool.entries.foldl (expireStep now timeout) ([], t)

/-- The first loop of `deliver`: how many results validate, and the failure
that stopped it. -/
def validatePrefix (validate : ℕ → Header → Except Panic (Option QueueError)) (results : ℕ) :
    ℕ → List Header → Except Panic (ℕ × Option QueueError)
  | i, [] => pure (i, none)
  | i, header :: headers =>
    if i ≥ results then pure (i, none)
    else do
      match ← validate i header with
      | some err => pure (i, some err)
      | none => validatePrefix validate results (i + 1) headers

/-- The second loop of `deliver`, over the validated headers: each is filled
into its result slot and deleted from the task pool. -/
def acceptLoop (reconstruct : ℕ → FetchResult → Except Panic FetchResult) :
    List Header → ℕ → Option QueueError → (AList fun _ : ℕ => Header) → ResultStore →
      Except Panic (ℕ × Option QueueError × (AList fun _ : ℕ => Header) × ResultStore)
  | [], accepted, failure, taskPool, resultCache => pure (accepted, failure, taskPool, resultCache)
  | header :: headers, accepted, failure, taskPool, resultCache => do
    let (failure, resultCache) ←
      match resultCache.getDeliverySlot header.number with
      | (res, _, none) =>
        match res with
        -- `reconstruct` writes through the pointer it is given
        | none => throw .nilDereference
        | some res => do
          let res ← reconstruct accepted res
          pure (failure, resultCache.store header.number res)
      | (_, _, some _) => pure (some .staleDelivery, resultCache)
    acceptLoop reconstruct headers (accepted + 1) failure (taskPool.erase header.hash) resultCache

/-- `deliver`: the number accepted and the error, the hashes marked as lacking
for the request's peer, and the trackers and store after. -/
def deliver (id : String) (t : Tasks) (resultCache : ResultStore) (results : ℕ)
    (validate : ℕ → Header → Except Panic (Option QueueError))
    (reconstruct : ℕ → FetchResult → Except Panic FetchResult) :
    Except Panic ((ℕ × Option QueueError) × List ℕ × Tasks × ResultStore) :=
  match t.pendPool.lookup id with
  | none => pure ((0, some .noFetchesPending), [], t, resultCache)
  | some request => do
    let t := { t with pendPool := t.pendPool.erase id }
    -- an empty delivery marks every header as missing at the peer
    let lacking := if results = 0 then request.headers.map (·.hash) else []
    let (i, failure) ← validatePrefix validate results 0 request.headers
    let (accepted, failure, taskPool, resultCache) ←
      acceptLoop reconstruct (request.headers.take i) 0 failure t.taskPool resultCache
    -- the failed and missing fetches go back
    let t := { t with taskPool, taskQueue := pushHeaders t.taskQueue (request.headers.drop accepted) }
    let err := match failure with
      | none => none
      | some failure =>
        if failure.isInvalidChain then some failure
        else if accepted > 0 then some (.partialFailure failure)
        else some (.stale failure)
    pure ((accepted, err), lacking, t, resultCache)

/-! ### The queue -/

/-- The two kinds of fetch behind a header. -/
inductive Kind where
  | body
  | receipt
  deriving DecidableEq, Repr

/-- The bit of a kind in `pending`: `bodyType` or `receiptType`. -/
def Kind.type : Kind → ℕ
  | .body => bodyType
  | .receipt => receiptType

/-- `queue`, without its header skeleton. -/
structure Queue where
  mode : SyncMode
  headerHead : ℕ
  blockTasks : Tasks
  receiptTasks : Tasks
  resultCache : ResultStore
  closed : Bool
  deriving DecidableEq

/-- `newQueue(blockCacheLimit)`, through `Reset`. -/
def newQueue (blockCacheLimit : ℕ) : Queue :=
  ⟨.fullSync, 0, .empty, .empty, newResultStore blockCacheLimit, false⟩

namespace Queue

/-- The trackers of a kind. -/
def tasks (q : Queue) : Kind → Tasks
  | .body => q.blockTasks
  | .receipt => q.receiptTasks

/-- Replace the trackers of a kind. -/
def setTasks (q : Queue) : Kind → Tasks → Queue
  | .body, t => { q with blockTasks := t }
  | .receipt, t => { q with receiptTasks := t }

/-- `Prepare(offset, mode)`. -/
def prepare (q : Queue) (offset : ℕ) (mode : SyncMode) : Queue :=
  { q with resultCache := q.resultCache.prepare offset, mode := mode }

/-- `Close`. -/
def close (q : Queue) : Queue :=
  { q with closed := true }

/-- The loop of `Schedule`: the headers inserted, up to the first that breaks
the numbering from `from'` or the link to `headerHead`. -/
def scheduleLoop : List Header → ℕ → Queue → List Header × Queue
  | [], _, q => ([], q)
  | header :: headers, from', q =>
    if header.number ≠ from' then ([], q)
    else if q.headerHead ≠ 0 ∧ q.headerHead ≠ header.parentHash then ([], q)
    else
      let q := { q with blockTasks := q.blockTasks.schedule header }
      let q := if q.mode = .fastSync ∧ !header.emptyReceipts then
          { q with receiptTasks := q.receiptTasks.schedule header }
        else q
      let (inserts, q) := scheduleLoop headers (from' + 1) { q with headerHead := header.hash }
      (header :: inserts, q)

/-- `Schedule(headers, from)`. -/
def schedule (q : Queue) (headers : List Header) (from' : ℕ) : List Header × Queue :=
  scheduleLoop headers from' q

/-- `reserveHeaders` on a kind's trackers. -/
def reserve (q : Queue) (kind : Kind) (p : PeerConnection) (count now : ℕ) :
    (Option FetchRequest × Bool × Bool) × Queue :=
  let (r, t, resultCache) :=
    reserveHeaders p count now (q.tasks kind) q.resultCache kind.type (q.mode == .fastSync)
  (r, { q.setTasks kind t with resultCache := resultCache })

/-- `ReserveBodies`. -/
def reserveBodies (q : Queue) (p : PeerConnection) (count now : ℕ) :
    (Option FetchRequest × Bool × Bool) × Queue :=
  q.reserve .body p count now

/-- `ReserveReceipts`. -/
def reserveReceipts (q : Queue) (p : PeerConnection) (count now : ℕ) :
    (Option FetchRequest × Bool × Bool) × Queue :=
  q.reserve .receipt p count now

/-- `cancel` on a kind's trackers. -/
def cancelKind (q : Queue) (kind : Kind) (request : FetchRequest) : Queue :=
  q.setTasks kind (cancel request (q.tasks kind))

/-- `CancelBodies`. -/
def cancelBodies (q : Queue) (request : FetchRequest) : Queue :=
  q.cancelKind .body request

/-- `CancelReceipts`. -/
def cancelReceipts (q : Queue) (request : FetchRequest) : Queue :=
  q.cancelKind .receipt request

/-- `Revoke(peerID)`. -/
def revoke (q : Queue) (peerID : String) : Queue :=
  { q with
    blockTasks := q.blockTasks.revoke peerID
    receiptTasks := q.receiptTasks.revoke peerID }

/-- `expire` on a kind's trackers. -/
def expireKind (q : Queue) (kind : Kind) (now timeout : ℕ) : List (String × ℕ) × Queue :=
  let (expiries, t) := expire now timeout (q.tasks kind)
  (expiries, q.setTasks kind t)

/-- `ExpireBodies`. -/
def expireBodies (q : Queue) (now timeout : ℕ) : List (String × ℕ) × Queue :=
  q.expireKind .body now timeout

/-- `ExpireReceipts`. -/
def expireReceipts (q : Queue) (now timeout : ℕ) : List (String × ℕ) × Queue :=
  q.expireKind .receipt now timeout

/-- The hashing `DeliverBodies` and `DeliverReceipts` validate with:
`types.DeriveSha` and `types.CalcUncleHash`. -/
structure Hashing where
  deriveSha : List ℕ → ℕ
  calcUncleHash : List Header → ℕ

/-- `deliver` on a kind's trackers. -/
def deliverKind (q : Queue) (kind : Kind) (id : String) (results : ℕ)
    (validate : ℕ → Header → Except Panic (Option QueueError))
    (reconstruct : ℕ → FetchResult → Except Panic FetchResult) :
    Except Panic ((ℕ × Option QueueError) × List ℕ × Queue) := do
  let (r, lacking, t, resultCache) ←
    deliver id (q.tasks kind) q.resultCache results validate reconstruct
  pure (r, lacking, { q.setTasks kind t with resultCache := resultCache })

/-- `DeliverBodies(id, txLists, uncleLists)`. -/
def deliverBodies (hashing : Hashing) (q : Queue) (id : String) (txLists : List (List ℕ))
    (uncleLists : List (List Header)) : Except Panic ((ℕ × Option QueueError) × List ℕ × Queue) :=
  q.deliverKind .body id txLists.length
    (fun i header => do
      if hashing.deriveSha (← index txLists i) ≠ header.txHash then return some .invalidBody
      if hashing.calcUncleHash (← index uncleLists i) ≠ header.uncleHash then return some .invalidBody
      return none)
    (fun i result => do
      let transactions ← index txLists i
      let uncles ← index uncleLists i
      return { result with transactions, uncles }.setBodyDone)

/-- `DeliverReceipts(id, receiptList)`. -/
def deliverReceipts (hashing : Hashing) (q : Queue) (id : String) (receiptList : List (List ℕ)) :
    Except Panic ((ℕ × Option QueueError) × List ℕ × Queue) :=
  q.deliverKind .receipt id receiptList.length
    (fun i header => do
      if hashing.deriveSha (← index receiptList i) ≠ header.receiptHash then
        return some .invalidReceipt
      return none)
    (fun i result => do
      let receipts ← index receiptList i
      return { result with receipts }.setReceiptsDone)

/-- `maxResultsProcess`. -/
def maxResultsProcess : ℕ := 2048

/-- `Results(block)` once it stops waiting, with the throttle threshold it
computes: nothing when there is nothing to hand out and it may not block,
else the completed front of the store. -/
def results (q : Queue) (block : Bool) (threshold : ℕ) : List (Option FetchResult) × Queue :=
  if !block && !q.resultCache.hasCompletedItems then ([], q)
  else
    let (results, resultCache) := q.resultCache.getCompleted maxResultsProcess
    let (_, resultCache) := resultCache.setThrottleThreshold threshold
    (results, { q with resultCache := resultCache })

/-- The calls a downloader makes of the queue, with their arguments. -/
inductive Call where
  | schedule (headers : List Header) (from' : ℕ)
  | reserve (kind : Kind) (p : PeerConnection) (count now : ℕ)
  | cancel (kind : Kind) (request : FetchRequest)
  | revoke (peerID : String)
  | expire (kind : Kind) (now timeout : ℕ)
  | deliverBodies (id : String) (txLists : List (List ℕ)) (uncleLists : List (List Header))
  | deliverReceipts (id : String) (receiptList : List (List ℕ))
  | results (block : Bool) (threshold : ℕ)

/-- The queue after a call, or the panic it ends in. -/
def apply (hashing : Hashing) (q : Queue) : Call → Except Panic Queue
  | .schedule headers from' => pure (q.schedule headers from').2
  | .reserve kind p count now => pure (q.reserve kind p count now).2
  | .cancel kind request => pure (q.cancelKind kind request)
  | .revoke peerID => pure (q.revoke peerID)
  | .expire kind now timeout => pure (q.expireKind kind now timeout).2
  | .deliverBodies id txLists uncleLists => do
    let (_, _, q) ← q.deliverBodies hashing id txLists uncleLists
    pure q
  | .deliverReceipts id receiptList => do
    let (_, _, q) ← q.deliverReceipts hashing id receiptList
    pure q
  | .results block threshold => pure (q.results block threshold).2

/-- The queue after a sequence of calls. -/
def run (hashing : Hashing) (q : Queue) (calls : List Call) : Except Panic Queue :=
  calls.foldlM (apply hashing) q

end Queue

end RpcNetwork.Eth.Downloader
