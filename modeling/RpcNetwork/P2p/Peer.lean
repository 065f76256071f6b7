import Mathlib

/-!
# Subprotocol multiplexing on a peer connection

How `p2p/peer.go` shares one connection among subprotocols.  `matchProtocols`
gives every matched name a block of codes after the base protocol's sixteen (a
newer version replaces an older one); `getProto` routes a code to its block,
and `protoRW` adds the offset on write and takes it off on read.

## Design notes

Only the fields these functions read are kept.  Go's `map[string]*protoRW` is an `AList`; `p.running` is ranged over in an
order the runtime picks, so `getProto` takes the entries as a list in any
order.  Codes and offsets are `ℕ`: their sums are assumed not to overflow.
`capsByNameAndVersion` is a total order, so the unstable `sort.Sort` gives the
list insertion sort gives; Go's byte order on strings is Lean's on code
points.  The channels of `protoRW` and the shutdown paths are not modelled.
-/

namespace RpcNetwork.P2p

/-- `baseProtocolLength`: the codes below it belong to the base protocol. -/
def baseProtocolLength : ℕ := 16

/-- `discMsg`. -/
def discMsg : ℕ := 0x01
/-- `pingMsg`. -/
def pingMsg : ℕ := 0x02

/-- `Cap`: a capability, a protocol name and version. -/
structure Cap where
  name : String
  version : ℕ
  deriving DecidableEq, Repr

/-- `Protocol`: the name, version and number of message codes of a subprotocol. -/
structure Protocol where
  name : String
  version : ℕ
  length : ℕ
  deriving DecidableEq, Repr

/-- `Protocol.cap`. -/
def Protocol.cap (p : Protocol) : Cap := ⟨p.name, p.version⟩

/-- `protoRW`: a running protocol and the offset of its block of codes. -/
structure ProtoRW where
  protocol : Protocol
  offset : ℕ
  deriving DecidableEq, Repr

/-- The protocols a peer runs, `map[string]*protoRW`. -/
abbrev ProtoMap := AList fun _ : String => ProtoRW

/-- `capsByNameAndVersion.Less`. -/
def capsLess (a b : Cap) : Bool :=
  decide (a.name < b.name) || (a.name == b.name && decide (a.version < b.version))

/-- `sort.Sort(capsByNameAndVersion(caps))`. -/
def sortCaps (caps : List Cap) : List Cap :=
  caps.insertionSort fun a b => capsLess b a = false

/-- The protocol of the inner loop: the first one with the cap's name and version. -/
def findProto (protocols : List Protocol) (cap : Cap) : Option Protocol :=
  protocols.find? fun proto => proto.name == cap.name && proto.version == cap.version

/-- `countMatchingProtocols`: the pairs of a cap and a protocol with its name and version. -/
def countMatchingProtocols (protocols : List Protocol) (caps : List Cap) : ℕ :=
  (caps.map fun cap =>
    (protocols.filter fun proto => proto.name == cap.name && proto.version == cap.version).length).sum

/-- One pass of the `outer` loop of `matchProtocols`, over the offset and the result. -/
def matchCap (protocols : List Protocol) (st : ℕ × ProtoMap) (cap : Cap) : ℕ × ProtoMap :=
  match findProto protocols cap with
  | none => st
  | some proto =>
    -- if an old protocol version matched, revert it
    let offset := match st.2.lookup cap.name with
      | some old => st.1 - old.protocol.length
      | none => st.1
    (offset + proto.length, st.2.insert cap.name ⟨proto, offset⟩)

/-- `matchProtocols`: the protocols both sides run, each with its block of codes. -/
def matchProtocols (protocols : List Protocol) (caps : List Cap) : ProtoMap :=
  ((sortCaps caps).foldl (matchCap protocols) (baseProtocolLength, ∅)).2

/-- `errInvalidMsgCode`. -/
def errInvalidMsgCode : ℕ := 0

/-- `peerError`: an error code and its message. -/
structure PeerError where
  code : ℕ
  message : String
  deriving DecidableEq, Repr

/-- `newPeerError(errInvalidMsgCode, ...)`: the description, then the details. -/
def newPeerError (code : ℕ) (details : String) : PeerError :=
  ⟨code, "invalid message code" ++ ": " ++ details⟩

/-- `Peer.getProto`: the first running protocol whose block holds the code. -/
def getProto (running : List ProtoRW) (code : ℕ) : Except PeerError ProtoRW :=
  match running.find? fun proto =>
      decide (proto.offset ≤ code ∧ code < proto.offset + proto.protocol.length) with
  | some proto => .ok proto
  | none => .error (newPeerError errInvalidMsgCode (toString code))

/-- What `Peer.handle` does with a message. -/
inductive Handled
  /-- `go SendItems(p.rw, pongMsg)`. -/
  | pong
  /-- The disconnect reason of the payload is returned. -/
  | disconnect
  /-- Other base protocol messages are discarded. -/
  | discard
  /-- `proto.in <- msg`. -/
  | deliver (proto : ProtoRW)
  /-- `fmt.Errorf("msg code out of range: %v", msg.Code)`. -/
  | error (text : String)
  deriving DecidableEq, Repr

/-- `Peer.handle`, on the code of the message. -/
def handle (running : List ProtoRW) (code : ℕ) : Handled :=
  if code = pingMsg then .pong
  else if code = discMsg then .disconnect
  else if code < baseProtocolLength then .discard
  else
    -- it's a subprotocol message
    match getProto running code with
    | .ok proto => .deliver proto
    | .error _ => .error ("msg code out of range: " ++ toString code)

/-- `protoRW.WriteMsg`: the code put on the wire. -/
def writeMsg (rw : ProtoRW) (code : ℕ) : Except PeerError ℕ :=
  if rw.protocol.length ≤ code then .error (newPeerError errInvalidMsgCode "not handled")
  else .ok (code + rw.offset)

/-- `protoRW.ReadMsg`: the code handed to the protocol. -/
def readMsg (rw : ProtoRW) (code : ℕ) : ℕ := code - rw.offset

/-! ### The pieces of `matchProtocols` -/

theorem findProto_spec {protocols : List Protocol} {cap : Cap} {proto : Protocol}
    (h : findProto protocols cap = some proto) : proto ∈ protocols ∧ proto.cap = cap := by
  have hp := List.find?_some h
  simp only [Bool.and_eq_true, beq_iff_eq] at hp
  exact ⟨List.mem_of_find?_eq_some h, by rw [Protocol.cap, hp.1, hp.2]⟩

theorem findProto_isSome_iff {protocols : List Protocol} {cap : Cap} :
    (findProto protocols cap).isSome ↔ ∃ proto ∈ protocols, proto.cap = cap := by
  rw [findProto, List.find?_isSome]
  simp only [Bool.and_eq_true, beq_iff_eq]
  constructor
  · rintro ⟨p, hp, hn, hv⟩
    exact ⟨p, hp, by rw [Protocol.cap, hn, hv]⟩
  · rintro ⟨p, hp, rfl⟩
    exact ⟨p, hp, rfl, rfl⟩

/-- `capsByNameAndVersion` is the lexicographic order on name and version. -/
theorem capsLess_eq_true_iff {a b : Cap} :
    capsLess a b = true ↔ toLex (a.name, a.version) < toLex (b.name, b.version) := by
  rw [Prod.Lex.toLex_lt_toLex]
  simp [capsLess]

/-- The order the sorted caps keep: name, then version. -/
theorem capsLess_eq_false_iff {a b : Cap} :
    capsLess b a = false ↔ toLex (a.name, a.version) ≤ toLex (b.name, b.version) := by
  rw [← not_lt, ← capsLess_eq_true_iff, Bool.not_eq_true]

theorem perm_sortCaps (caps : List Cap) : (sortCaps caps).Perm caps :=
  List.perm_insertionSort _ caps

theorem pairwise_sortCaps (caps : List Cap) :
    (sortCaps caps).Pairwise fun a b => toLex (a.name, a.version) ≤ toLex (b.name, b.version) := by
  have : Std.Total fun a b : Cap => capsLess b a = false :=
    ⟨fun a b => by simp only [capsLess_eq_false_iff]; exact le_total _ _⟩
  have : IsTrans Cap fun a b => capsLess b a = false :=
    ⟨fun a b c hab hbc => by simp only [capsLess_eq_false_iff] at *; exact hab.trans hbc⟩
  exact (List.pairwise_insertionSort _ caps).imp capsLess_eq_false_iff.mp

theorem matchCap_of_none {protocols : List Protocol} {cap : Cap}
    (h : findProto protocols cap = none) (st : ℕ × ProtoMap) : matchCap protocols st cap = st := by
  rw [matchCap, h]

/-- A matched cap takes the offset its name's old block started at, or the
current one. -/
theorem matchCap_of_some {protocols : List Protocol} {cap : Cap} {proto : Protocol}
    (h : findProto protocols cap = some proto) (st : ℕ × ProtoMap) :
    matchCap protocols st cap =
      let offset := ((st.2.lookup cap.name).map fun old => st.1 - old.protocol.length).getD st.1
      (offset + proto.length, st.2.insert cap.name ⟨proto, offset⟩) := by
  rw [matchCap, h]
  cases st.2.lookup cap.name <;> rfl

end RpcNetwork.P2p
