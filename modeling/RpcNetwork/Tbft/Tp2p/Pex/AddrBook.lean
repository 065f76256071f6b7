import Mathlib
import RpcNetwork.Lib.BigEndian

/-!
# The PEX address book

`consensus/tbft/tp2p/pex/addrbook.go` keeps the peer addresses a node has
heard of: a `knownAddress` per node ID in `addrLookup`, filed under its text
in one to four of 256 "new" buckets or, once a connection succeeded, in one of
64 "old" ones.  The bucket comes from a random key, network groups and
`doubleSha256`.

`AddAddress` files an address in a new bucket (a seen one with a falling
chance); a full new bucket first expires a bad entry, or else the oldest.  `MarkGood` promotes an address to its
old bucket; when that bucket has more than `oldBucketSize` entries, its oldest
entry is taken out and meant to go back to a new bucket.  `RemoveAddress` and
`MarkBad` take an address out of every bucket.

## Design notes

Go's `*knownAddress` pointers are shared between `addrLookup` and the buckets,
and the helpers change the objects through them (`addBucketRef`, `markGood`,
the `BucketType` of a promoted address).  The model keeps the objects in
`kas`, a heap indexed by pointer, with `next` the first free pointer; the maps
hold pointers.  A Go map is an `AList`, whose entry list is the order a `range`
loop visits.  Times are nanoseconds from 1970.  The draw of `RandInt31n` is an argument of
`addAddress`.  `PickAddress` and `GetSelection`,
which draw with floating point, and the file persistence are not modelled.
-/

namespace RpcNetwork.Tbft.Tp2p.Pex

open BigEndian

/-! ### Parameters (`params.go`) -/

/-- `oldBucketSize`, `oldBucketCount`, `newBucketSize`, `newBucketCount`. -/
def oldBucketSize : ℕ := 64
def oldBucketCount : ℕ := 64
def newBucketSize : ℕ := 64
def newBucketCount : ℕ := 256
/-- `oldBucketsPerGroup`, `newBucketsPerGroup`: the buckets one group spreads over. -/
def oldBucketsPerGroup : ℕ := 4
def newBucketsPerGroup : ℕ := 32
/-- `maxNewBucketsPerAddress`. -/
def maxNewBucketsPerAddress : ℕ := 4
/-- `numMissingDays`, `numRetries`, `maxFailures`, `minBadDays`. -/
def numMissingDays : ℤ := 7
def numRetries : Int32 := 3
def maxFailures : Int32 := 10
def minBadDays : ℤ := 7

/-- `time.Minute` and a day, in nanoseconds. -/
def minute : ℤ := 60 * 10 ^ 9
def day : ℤ := 24 * 60 * minute
/-- The zero `time.Time`, January 1 of year 1, in nanoseconds from 1970. -/
def zeroTime : ℤ := -62135596800 * 10 ^ 9

/-! ### Addresses -/

/-- `tp2p.NetAddress`: a node ID, the text of its IP (`IP.String()`) and a port. -/
structure NetAddress where
  id : String
  ip : String
  port : UInt16
  deriving DecidableEq, Repr

/-- `net.JoinHostPort`: an IPv6 host goes in brackets. -/
def joinHostPort (host port : String) : String :=
  if ':' ∈ host.toList then "[" ++ host ++ "]:" ++ port else host ++ ":" ++ port

/-- `NetAddress.DialString`. -/
def NetAddress.dialString (na : NetAddress) : String :=
  joinHostPort na.ip (toString na.port.toNat)

/-- `NetAddress.String`: `<ID>@<host>:<port>`, or the dial string alone for an
address without an ID. -/
def NetAddress.toString (na : NetAddress) : String :=
  if na.id = "" then na.dialString else na.id ++ "@" ++ na.dialString

/-- `BucketType`: `bucketTypeNew` and `bucketTypeOld`. -/
inductive BucketType where
  | new
  | old
  deriving DecidableEq, Repr

/-- `knownAddress`. -/
structure KnownAddress where
  addr : NetAddress
  src : NetAddress
  attempts : Int32
  lastAttempt : ℤ
  lastSuccess : ℤ
  bucketType : BucketType
  buckets : List ℕ

instance instInhabitedKnownAddress : Inhabited KnownAddress :=
  ⟨⟨⟨"", "", 0⟩, ⟨"", "", 0⟩, 0, zeroTime, zeroTime, .new, []⟩⟩

/-- `newKnownAddress`: new, in no bucket yet, last attempted now. -/
def newKnownAddress (addr src : NetAddress) (now : ℤ) : KnownAddress :=
  ⟨addr, src, 0, now, zeroTime, .new, []⟩

namespace KnownAddress

/-- `isOld`, `isNew`. -/
def isOld (ka : KnownAddress) : Bool := ka.bucketType == .old
def isNew (ka : KnownAddress) : Bool := ka.bucketType == .new

/-- `markAttempt`. -/
def markAttempt (ka : KnownAddress) (now : ℤ) : KnownAddress :=
  { ka with lastAttempt := now, attempts := ka.attempts + 1 }

/-- `markGood`. -/
def markGood (ka : KnownAddress) (now : ℤ) : KnownAddress :=
  { ka with lastAttempt := now, attempts := 0, lastSuccess := now }

/-- `addBucketRef`: `-1` if the bucket is listed already, else the number of
buckets after appending it. -/
def addBucketRef (ka : KnownAddress) (bucketIdx : ℕ) : ℤ × KnownAddress :=
  if bucketIdx ∈ ka.buckets then (-1, ka)
  else ((ka.buckets.length + 1 : ℕ), { ka with buckets := ka.buckets ++ [bucketIdx] })

/-- `removeBucketRef`: `-1` unless exactly one listed bucket is dropped, else
the number of buckets left. -/
def removeBucketRef (ka : KnownAddress) (bucketIdx : ℕ) : ℤ × KnownAddress :=
  let buckets := ka.buckets.filter (· != bucketIdx)
  if (buckets.length : ℤ) ≠ ka.buckets.length - 1 then (-1, ka)
  else (buckets.length, { ka with buckets := buckets })

/-- `isBad` at the time `now`. -/
def isBad (ka : KnownAddress) (now : ℤ) : Bool :=
  if ka.bucketType = .old then false
  -- attempted in the last minute
  else if now - minute < ka.lastAttempt then false
  -- too old
  else if ka.lastAttempt < now - numMissingDays * day then true
  -- never succeeded
  else if ka.lastSuccess = zeroTime ∧ numRetries ≤ ka.attempts then true
  -- has not succeeded in too long
  else if ka.lastSuccess < now - minBadDays * day ∧ maxFailures ≤ ka.attempts then true
  else false

end KnownAddress

/-! ### Placement -/

/-- What the placement reads that this model keeps abstract. -/
structure Env where
  /-- `a.key`: random hex, fixed when the book is made. -/
  key : String
  routabilityStrict : Bool
  /-- `doubleSha256`. -/
  doubleSha256 : List UInt8 → List UInt8
  /-- `a.groupKey`, of the IP's text. -/
  groupKey : String → String
  /-- `NetAddress.Routable`, of the IP's text. -/
  routable : String → Bool

/-- `calcNewBucket`: the group of the address and of its source pick one of
`newBucketsPerGroup` buckets for the source's group. -/
def calcNewBucket (env : Env) (addr src : NetAddress) : ℕ :=
  let data1 := env.key.toUTF8.toList ++ (env.groupKey addr.ip).toUTF8.toList ++
    (env.groupKey src.ip).toUTF8.toList
  let hash64 := uint64 (env.doubleSha256 data1) % newBucketsPerGroup.toUInt64
  let data2 := env.key.toUTF8.toList ++ (env.groupKey src.ip).toUTF8.toList ++ putUint64 hash64
  (uint64 (env.doubleSha256 data2)).toNat % newBucketCount

/-- `calcOldBucket`: the address picks one of `oldBucketsPerGroup` buckets for
its group. -/
def calcOldBucket (env : Env) (addr : NetAddress) : ℕ :=
  let data1 := env.key.toUTF8.toList ++ addr.toString.toUTF8.toList
  let hash64 := uint64 (env.doubleSha256 data1) % oldBucketsPerGroup.toUInt64
  let data2 := env.key.toUTF8.toList ++ (env.groupKey addr.ip).toUTF8.toList ++ putUint64 hash64
  (uint64 (env.doubleSha256 data2)).toNat % oldBucketCount

/-! ### The book -/

/-- A bucket: address text to the pointer of its `knownAddress`. -/
abbrev Bucket := AList fun _ : String => ℕ

/-- `addrBook`. -/
structure AddrBook where
  ourAddrs : List String
  privateIDs : List String
  /-- node ID to pointer -/
  addrLookup : AList fun _ : String => ℕ
  bucketsOld : ℕ → Bucket
  bucketsNew : ℕ → Bucket
  nOld : ℤ
  nNew : ℤ
  /-- the `knownAddress` objects, by pointer -/
  kas : ℕ → KnownAddress
  next : ℕ

/-- The panics the helpers can reach. -/
def nilDereference : String := "runtime error: invalid memory address or nil pointer dereference"
def int31nInvalid : String := "invalid argument to Int31n"

/-- The errors `AddAddress` returns. -/
inductive AddrBookError where
  | nilAddr (addr src : Option NetAddress)
  | nonRoutable (addr : NetAddress)
  | self (addr : NetAddress)
  | privateID (addr : NetAddress)
  | privateSrc (src : NetAddress)

/-- `%v` of a `*NetAddress`. -/
def showAddr : Option NetAddress → String
  | some na => na.toString
  | none => "<nil>"

/-- The `Error()` texts. -/
def AddrBookError.error : AddrBookError → String
  | .nilAddr addr src =>
    "Cannot add a nil address. Got (addr, src) = (" ++ showAddr addr ++ ", " ++ showAddr src ++ ")"
  | .nonRoutable addr => "Cannot add non-routable address " ++ addr.toString
  | .self addr => "Cannot add ourselves with address " ++ addr.toString
  | .privateID addr => "Cannot add private peer with address " ++ addr.toString
  | .privateSrc src => "Cannot add peer coming from private peer with address " ++ src.toString

namespace AddrBook

/-- `NewAddrBook` after `init`: empty maps and buckets. -/
def empty : AddrBook := ⟨[], [], ∅, fun _ => ∅, fun _ => ∅, 0, 0, fun _ => default, 0⟩

/-- `getBucket`. -/
def getBucket (book : AddrBook) : BucketType → ℕ → Bucket
  | .new, i => book.bucketsNew i
  | .old, i => book.bucketsOld i

/-- The book with a bucket written back. -/
def setBucket (book : AddrBook) : BucketType → ℕ → Bucket → AddrBook
  | .new, i, b => { book with bucketsNew := Function.update book.bucketsNew i b }
  | .old, i, b => { book with bucketsOld := Function.update book.bucketsOld i b }

/-- The book with the object at a pointer replaced. -/
def setKa (book : AddrBook) (p : ℕ) (ka : KnownAddress) : AddrBook :=
  { book with kas := Function.update book.kas p ka }

/-- One more or one fewer address of a kind. -/
def incCount (book : AddrBook) : BucketType → AddrBook
  | .new => { book with nNew := book.nNew + 1 }
  | .old => { book with nOld := book.nOld + 1 }
def decCount (book : AddrBook) : BucketType → AddrBook
  | .new => { book with nNew := book.nNew - 1 }
  | .old => { book with nOld := book.nOld - 1 }

/-- `size`. -/
def size (book : AddrBook) : ℤ := book.nNew + book.nOld

/-- `HasAddress`. -/
def hasAddress (book : AddrBook) (addr : NetAddress) : Bool := (book.addrLookup.lookup addr.id).isSome

/-! ### The helpers -/

/-- `removeFromBucket`: nothing if the object is of the other kind; else out
of the bucket, and out of the book when it was its last bucket. -/
def removeFromBucket (book : AddrBook) (p : ℕ) (bucketType : BucketType) (bucketIdx : ℕ) : AddrBook :=
  let ka := book.kas p
  if ka.bucketType ≠ bucketType then book
  else
    let book := book.setBucket bucketType bucketIdx ((book.getBucket bucketType bucketIdx).erase ka.addr.toString)
    let r := ka.removeBucketRef bucketIdx
    let book := book.setKa p r.2
    if r.1 = 0 then { book.decCount bucketType with addrLookup := book.addrLookup.erase ka.addr.id }
    else book

/-- `removeFromAllBuckets`: out of every bucket it lists, and out of the book. -/
def removeFromAllBuckets (book : AddrBook) (p : ℕ) : AddrBook :=
  let ka := book.kas p
  let book := ka.buckets.foldl (fun book bucketIdx =>
    book.setBucket ka.bucketType bucketIdx ((book.getBucket ka.bucketType bucketIdx).erase ka.addr.toString)) book
  let book := book.setKa p { ka with buckets := [] }
  { book.decCount ka.bucketType with addrLookup := book.addrLookup.erase ka.addr.id }

/-- One turn of the loop of `pickOldest`: the entry replaces the oldest so far
if its last attempt precedes that one's. -/
def oldestStep (kas : ℕ → KnownAddress) (oldest : Option ℕ) (e : Σ _ : String, ℕ) : Option ℕ :=
  match oldest with
  | none => some e.2
  | some o => if (kas e.2).lastAttempt < (kas o).lastAttempt then some e.2 else some o

/-- `pickOldest`: the first entry, in the bucket's order, whose last attempt no
other entry's precedes. -/
def pickOldest (book : AddrBook) (bucketType : BucketType) (bucketIdx : ℕ) : Option ℕ :=
  (book.getBucket bucketType bucketIdx).entries.foldl (oldestStep book.kas) none

/-- `expireNew`: drops the first bad entry of a new bucket, or else its oldest. -/
def expireNew (book : AddrBook) (bucketIdx : ℕ) (now : ℤ) : Except String AddrBook :=
  match (book.bucketsNew bucketIdx).entries.find? fun e => (book.kas e.2).isBad now with
  | some e => pure (book.removeFromBucket e.2 .new bucketIdx)
  | none =>
    match book.pickOldest .new bucketIdx with
    | some oldest => pure (book.removeFromBucket oldest .new bucketIdx)
    | none => throw nilDereference

/-- `addToNewBucket`: files a new address under its text, after making room in
a bucket with more than `newBucketSize` entries. -/
def addToNewBucket (book : AddrBook) (p bucketIdx : ℕ) (now : ℤ) : Except String AddrBook :=
  let ka := book.kas p
  -- sanity check
  if ka.isOld then pure book
  -- already exists?
  else if ka.addr.toString ∈ book.bucketsNew bucketIdx then pure book
  else do
    -- enforce max addresses
    let book ← if newBucketSize < (book.bucketsNew bucketIdx).entries.length then book.expireNew bucketIdx now
      else pure book
    let book := book.setBucket .new bucketIdx ((book.bucketsNew bucketIdx).insert ka.addr.toString p)
    let r := (book.kas p).addBucketRef bucketIdx
    let book := book.setKa p r.2
    let book := if r.1 = 1 then book.incCount .new else book
    pure { book with addrLookup := book.addrLookup.insert r.2.addr.id p }

/-- `addToOldBucket`: files an old address that is in no bucket, unless its
bucket has more than `oldBucketSize` entries; whether it is filed. -/
def addToOldBucket (book : AddrBook) (p bucketIdx : ℕ) : Bool × AddrBook :=
  let ka := book.kas p
  -- sanity checks
  if ka.isNew then (false, book)
  else if ka.buckets.length ≠ 0 then (false, book)
  -- already exists?
  else if ka.addr.toString ∈ book.bucketsOld bucketIdx then (true, book)
  -- enforce max addresses
  else if oldBucketSize < (book.bucketsOld bucketIdx).entries.length then (false, book)
  else
    let book := book.setBucket .old bucketIdx ((book.bucketsOld bucketIdx).insert ka.addr.toString p)
    let r := ka.addBucketRef bucketIdx
    let book := book.setKa p r.2
    let book := if r.1 = 1 then book.incCount .old else book
    (true, { book with addrLookup := book.addrLookup.insert r.2.addr.id p })

/-- `moveToOld`: promotes a new address to its old bucket; when that bucket has
no room, its oldest entry is taken out and handed to `addToNewBucket`, and the
address is filed again. -/
def moveToOld (env : Env) (book : AddrBook) (p : ℕ) (now : ℤ) : Except String AddrBook :=
  let ka := book.kas p
  if ka.isOld then pure book
  else if ka.buckets.length = 0 then pure book
  else
    let book := book.removeFromAllBuckets p
    let book := book.setKa p { book.kas p with bucketType := .old }
    let oldBucketIdx := calcOldBucket env (book.kas p).addr
    let added := book.addToOldBucket p oldBucketIdx
    if added.1 then pure added.2
    else
      -- no room: move the oldest to a new bucket
      let book := added.2
      match book.pickOldest .old oldBucketIdx with
      | none => throw nilDereference
      | some oldest => do
        let book := book.removeFromBucket oldest .old oldBucketIdx
        let newBucketIdx := calcNewBucket env (book.kas oldest).addr (book.kas oldest).src
        let book ← book.addToNewBucket oldest newBucketIdx now
        -- add our address to the old bucket again
        pure (book.addToOldBucket p oldBucketIdx).2

/-! ### The operations -/

/-- `addAddress`: the checks that return an error, then a new address in a new
bucket, or a known new address in one more, with probability `1 / (2 * n)`
when it is in `n`. -/
def addAddress (env : Env) (book : AddrBook) (addr src : Option NetAddress) (now : ℤ) (rnd : ℕ) :
    Except String (Option AddrBookError × AddrBook) :=
  match addr, src with
  | some addr, some src =>
    if env.routabilityStrict && !env.routable addr.ip then pure (some (.nonRoutable addr), book)
    else if addr.toString ∈ book.ourAddrs then pure (some (.self addr), book)
    else if addr.id ∈ book.privateIDs then pure (some (.privateID addr), book)
    else if src.id ∈ book.privateIDs then pure (some (.privateSrc src), book)
    else
      match book.addrLookup.lookup addr.id with
      | some p =>
        let ka := book.kas p
        -- already old and the same address
        if ka.isOld && ka.addr.toString == addr.toString then pure (none, book)
        -- already in max new buckets
        else if ka.buckets.length = maxNewBucketsPerAddress then pure (none, book)
        else
          let factor := 2 * ka.buckets.length
          if factor = 0 then throw int31nInvalid
          else if rnd % factor ≠ 0 then pure (none, book)
          else do
            let book ← book.addToNewBucket p (calcNewBucket env addr src) now
            pure (none, book)
      | none => do
        let p := book.next
        let book := { book.setKa p (newKnownAddress addr src now) with next := p + 1 }
        let book ← book.addToNewBucket p (calcNewBucket env addr src) now
        pure (none, book)
  | addr, src => pure (some (.nilAddr addr src), book)

/-- `RemoveAddress`, and `MarkBad`. -/
def removeAddress (book : AddrBook) (addr : NetAddress) : AddrBook :=
  match book.addrLookup.lookup addr.id with
  | none => book
  | some p => book.removeFromAllBuckets p

/-- `MarkGood`: marks the address good and promotes it if it is new. -/
def markGood (env : Env) (book : AddrBook) (addr : NetAddress) (now : ℤ) : Except String AddrBook :=
  match book.addrLookup.lookup addr.id with
  | none => pure book
  | some p =>
    let book := book.setKa p ((book.kas p).markGood now)
    if (book.kas p).isNew then book.moveToOld env p now else pure book

/-- `MarkAttempt`. -/
def markAttempt (book : AddrBook) (addr : NetAddress) (now : ℤ) : AddrBook :=
  match book.addrLookup.lookup addr.id with
  | none => book
  | some p => book.setKa p ((book.kas p).markAttempt now)

/-- The calls that change the book, each with the clock's reading and, for
`AddAddress`, the random draw. -/
inductive Op where
  | addOurAddress (addr : NetAddress)
  | addPrivateIDs (ids : List String)
  | addAddress (addr src : Option NetAddress) (now : ℤ) (rnd : ℕ)
  | removeAddress (addr : NetAddress)
  | markGood (addr : NetAddress) (now : ℤ)
  | markAttempt (addr : NetAddress) (now : ℤ)
  | markBad (addr : NetAddress)

/-- The book after a call. -/
def apply (env : Env) (book : AddrBook) : Op → Except String AddrBook
  | .addOurAddress addr => pure { book with ourAddrs := addr.toString :: book.ourAddrs }
  | .addPrivateIDs ids => pure { book with privateIDs := ids ++ book.privateIDs }
  | .addAddress addr src now rnd => (book.addAddress env addr src now rnd).map Prod.snd
  | .removeAddress addr => pure (book.removeAddress addr)
  | .markGood addr now => book.markGood env addr now
  | .markAttempt addr now => pure (book.markAttempt addr now)
  | .markBad addr => pure (book.removeAddress addr)

/-- The book after a run of calls, or the panic that stops it. -/
def run (env : Env) (book : AddrBook) (ops : List Op) : Except String AddrBook :=
  ops.foldlM (apply env) book

end AddrBook

end RpcNetwork.Tbft.Tp2p.Pex
