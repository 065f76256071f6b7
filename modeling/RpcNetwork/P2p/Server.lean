import Mathlib
import RpcNetwork.Lib.FinmapCount
import RpcNetwork.P2p.Dial
import RpcNetwork.P2p.Peer

/-!
# Peer admission in the server's run loop

The bookkeeping `Server.run` (`p2p/server.go`) keeps of its peers: the peer
map, the inbound count and the trusted set.  Each pass handles one event of
its `select`; a connection is admitted at the second checkpoint, after
`addPeerChecks` reruns the first one's checks.

## Design notes

A `*Peer` is shared by the peer map and its own `runPeer` goroutine, and
`addtrusted` writes its flags through the map, so peers live in a store indexed
by `PeerRef` and the map holds references, as the dial scheduler's tasks do.
`Peer.Inbound()` reads the flags of the peer's connection.  A peer reports on
`delpeer` once.  A connection at a checkpoint has any flags.
The `quit` and `peerOp` cases do not change the loop's state, and the calls to
the dial scheduler belong to its own model.
-/

namespace RpcNetwork.P2p

/-- `inboundConn`. -/
def inboundConn : ConnFlag := 4
/-- `trustedConn`. -/
def trustedConn : ConnFlag := 8

/-- `defaultDialRatio`. -/
def defaultDialRatio : ℤ := 3

/-- The `DiscReason`s of the admission checks. -/
inductive DiscReason where
  | uselessPeer
  | tooManyPeers
  | alreadyConnected
  | self
  deriving DecidableEq, Repr

/-- The fields of `Server` the loop reads. -/
structure ServerConfig (ID : Type) where
  maxPeers : ℤ
  dialRatio : ℤ
  noDial : Bool
  protocols : List Protocol
  /-- `srv.localnode.ID()`. -/
  self : ID

namespace ServerConfig

variable {ID : Type} (cfg : ServerConfig ID)

/-- `maxDialedConns`. -/
def maxDialedConns : ℤ :=
  if cfg.noDial || cfg.maxPeers == 0 then 0
  else
    let limit := if cfg.dialRatio = 0 then cfg.maxPeers.tdiv defaultDialRatio
      else cfg.maxPeers.tdiv cfg.dialRatio
    if limit = 0 then 1 else limit

/-- `maxInboundConns`. -/
def maxInboundConns : ℤ := cfg.maxPeers - cfg.maxDialedConns

end ServerConfig

/-- `conn.set(f, val)`. -/
def Conn.set {ID IP : Type} (c : Conn ID IP) (f : ConnFlag) (val : Bool) : Conn ID IP :=
  { c with flags := if val then c.flags ||| f else c.flags &&& ~~~f }

/-- `conn`: the connection, with the caps of its protocol handshake. -/
structure SrvConn (ID IP : Type) extends Conn ID IP where
  caps : List Cap

/-- A reference to a `Peer` in the peer store. -/
abbrev PeerRef := ℕ

section Checks

variable {ID IP : Type} [DecidableEq ID] (cfg : ServerConfig ID)

/-- `postHandshakeChecks`. -/
def postHandshakeChecks (peers : Finmap fun _ : ID => PeerRef) (inboundCount : ℤ)
    (c : SrvConn ID IP) : Option DiscReason :=
  if !c.is trustedConn && (peers.keys.card : ℤ) ≥ cfg.maxPeers then some .tooManyPeers
  else if !c.is trustedConn && c.is inboundConn && inboundCount ≥ cfg.maxInboundConns then
    some .tooManyPeers
  else if c.node.id ∈ peers then some .alreadyConnected
  else if c.node.id = cfg.self then some .self
  else none

/-- `addPeerChecks`: drop connections with no matching protocols, then repeat
the post-handshake checks against the current peer set. -/
def addPeerChecks (peers : Finmap fun _ : ID => PeerRef) (inboundCount : ℤ)
    (c : SrvConn ID IP) : Option DiscReason :=
  if !cfg.protocols.isEmpty && countMatchingProtocols cfg.protocols c.caps = 0 then
    some .uselessPeer
  else postHandshakeChecks cfg peers inboundCount c

end Checks

/-- An event of the `select` of `Server.run`. -/
inductive RunEvent (ID IP : Type) where
  /-- `n := <-srv.addtrusted`. -/
  | addtrusted (n : ID)
  /-- `n := <-srv.removetrusted`. -/
  | removetrusted (n : ID)
  /-- `c := <-srv.checkpointPostHandshake`. -/
  | checkpointPostHandshake (c : SrvConn ID IP)
  /-- `c := <-srv.checkpointAddPeer`. -/
  | checkpointAddPeer (c : SrvConn ID IP)
  /-- `pd := <-srv.delpeer`. -/
  | delpeer (p : PeerRef)

/-- The state `Server.run` keeps. -/
structure RunLoop (ID IP : Type) [DecidableEq ID] where
  /-- `peers`, by reference. -/
  peers : Finmap fun _ : ID => PeerRef
  inboundCount : ℤ
  /-- The IDs `trusted` maps to `true`. -/
  trusted : Finset ID
  /-- The connection `p.rw` of every peer made; `launchPeer` takes `nextPeer`. -/
  conns : PeerRef → SrvConn ID IP
  nextPeer : PeerRef
  /-- The peers whose `runPeer` has not yet sent on `delpeer`. -/
  running : List PeerRef

namespace RunLoop

variable {ID IP : Type} [DecidableEq ID] (cfg : ServerConfig ID)

/-- The start of `Server.run`: no peers, and the configured trusted nodes.  The
peer store holds placeholders until a peer is made. -/
def start (trustedNodes : List ID) : RunLoop ID IP :=
  ⟨∅, 0, trustedNodes.toFinset, fun _ => ⟨⟨⟨cfg.self, none, 0⟩, 0⟩, []⟩, 0, []⟩

/-- The number of peers `p` with `p.Inbound()`. -/
def inboundPeers (s : RunLoop ID IP) : ℕ :=
  FinmapCount.countBy (fun p => (s.conns p).is inboundConn) s.peers

/-- The verdict `checkpointPostHandshake` sends on `c.cont`: a trusted node's
connection is flagged trusted before the checks. -/
def postHandshakeVerdict (s : RunLoop ID IP) (c : SrvConn ID IP) : SrvConn ID IP × Option DiscReason :=
  let c := if c.node.id ∈ s.trusted then { c with flags := c.flags ||| trustedConn } else c
  (c, postHandshakeChecks cfg s.peers s.inboundCount c)

/-- `p.rw.set(trustedConn, val)` on the peer under `n`, if there is one. -/
def setTrusted (s : RunLoop ID IP) (n : ID) (val : Bool) : RunLoop ID IP :=
  match s.peers.lookup n with
  | some p =>
    let c := s.conns p
    { s with conns := Function.update s.conns p { c with toConn := c.toConn.set trustedConn val } }
  | none => s

/-- `launchPeer(c)` and `peers[c.node.ID()] = p`: the new peer's reference. -/
def launchPeer (s : RunLoop ID IP) (c : SrvConn ID IP) : RunLoop ID IP :=
  { s with
    peers := s.peers.insert c.node.id s.nextPeer
    conns := Function.update s.conns s.nextPeer c
    nextPeer := s.nextPeer + 1
    running := s.nextPeer :: s.running }

/-- One case of the `select` of `Server.run`. -/
def handle : RunEvent ID IP → RunLoop ID IP → RunLoop ID IP
  | .addtrusted n, s => ({ s with trusted := insert n s.trusted } : RunLoop ID IP).setTrusted n true
  | .removetrusted n, s => ({ s with trusted := s.trusted.erase n } : RunLoop ID IP).setTrusted n false
  | .checkpointPostHandshake _, s =>
    -- the checks' verdict goes back on `c.cont`; the loop's state stays
    s
  | .checkpointAddPeer c, s =>
    match addPeerChecks cfg s.peers s.inboundCount c with
    | some _ => s
    | none =>
      -- the handshakes are done and it passed all checks
      let s := s.launchPeer c
      if c.is inboundConn then { s with inboundCount := s.inboundCount + 1 } else s
  | .delpeer p, s =>
    let pd := s.conns p
    let s := { s with peers := s.peers.erase pd.node.id, running := s.running.erase p }
    if pd.is inboundConn then { s with inboundCount := s.inboundCount - 1 } else s

/-- When the `select` can take an event: a peer reports on `delpeer` once, after
it was launched. -/
def Enabled (s : RunLoop ID IP) : RunEvent ID IP → Prop
  | .delpeer p => p ∈ s.running
  | _ => True

/-- One pass of `Server.run`. -/
inductive Step : RunLoop ID IP → RunLoop ID IP → Prop
  | pass {s : RunLoop ID IP} (ev : RunEvent ID IP) (h : s.Enabled ev) : Step s (handle cfg ev s)

/-- The states `Server.run` reaches from its start. -/
inductive Reachable (trustedNodes : List ID) : RunLoop ID IP → Prop
  | start : Reachable trustedNodes (start cfg trustedNodes)
  | step {s s' : RunLoop ID IP} (hs : Reachable trustedNodes s) (h : Step cfg s s') :
      Reachable trustedNodes s'

end RunLoop

/-! ### The flags and the checks -/

/-- Setting or clearing the trusted flag leaves the inbound flag. -/
@[simp] theorem Conn.is_set_trustedConn_inbound {ID IP : Type} (c : Conn ID IP) (val : Bool) :
    (c.set trustedConn val).is inboundConn = c.is inboundConn := by
  have hor : (c.flags ||| trustedConn) &&& inboundConn = c.flags &&& inboundConn := by
    rw [← UInt32.toBitVec_inj, UInt32.toBitVec_and, UInt32.toBitVec_or, BitVec.and_or_distrib_right]
    have h84 : trustedConn.toBitVec &&& inboundConn.toBitVec = 0 := by decide
    rw [h84]
    simp
  have hand : c.flags &&& ~~~trustedConn &&& inboundConn = c.flags &&& inboundConn := by
    rw [UInt32.and_assoc, show ~~~trustedConn &&& inboundConn = inboundConn by decide]
  unfold Conn.set Conn.is
  cases val
  · simp only [Bool.false_eq_true, if_false, hand]
  · simp only [if_true, hor]

section Checks

variable {ID IP : Type} [DecidableEq ID] {cfg : ServerConfig ID}
  {peers : Finmap fun _ : ID => PeerRef} {inboundCount : ℤ} {c : SrvConn ID IP}

/-- What a connection that passes the checks satisfies: its node is not a peer
nor the local node, and unless it is trusted, there is room for it. -/
theorem addPeerChecks_eq_none (h : addPeerChecks cfg peers inboundCount c = none) :
    c.node.id ∉ peers ∧ c.node.id ≠ cfg.self ∧
      (c.is trustedConn = false → (peers.keys.card : ℤ) < cfg.maxPeers ∧
        (c.is inboundConn = true → inboundCount < cfg.maxInboundConns)) := by
  unfold addPeerChecks postHandshakeChecks at h
  split_ifs at h with h₁ h₂ h₃ h₄ h₅
  simp only [Bool.and_eq_true, Bool.not_eq_eq_eq_not, Bool.not_true, decide_eq_true_eq, not_and,
    not_le] at h₂ h₃
  exact ⟨h₄, h₅, fun ht => ⟨h₂ ht, fun hin => h₃ ⟨ht, hin⟩⟩⟩

end Checks

/-! ### The limits -/

namespace ServerConfig

variable {ID : Type} (cfg : ServerConfig ID)

theorem maxDialedConns_add_maxInboundConns :
    cfg.maxDialedConns + cfg.maxInboundConns = cfg.maxPeers := by
  unfold maxInboundConns
  omega

variable {cfg} (hmax : 0 ≤ cfg.maxPeers) (hratio : 0 ≤ cfg.dialRatio)
include hmax hratio

/-- The dial limit lies between `0` and `MaxPeers`, and is at least one while
dialing is on and peers are allowed. -/
theorem maxDialedConns_bounds :
    0 ≤ cfg.maxDialedConns ∧ cfg.maxDialedConns ≤ cfg.maxPeers ∧
      (cfg.noDial = false → 0 < cfg.maxPeers → 1 ≤ cfg.maxDialedConns) := by
  unfold maxDialedConns
  by_cases hoff : (cfg.noDial || cfg.maxPeers == 0) = true
  · rw [if_pos hoff]
    simp only [Bool.or_eq_true, beq_iff_eq] at hoff
    refine ⟨le_refl 0, hmax, fun hnd hpos => ?_⟩
    rcases hoff with h | h
    · rw [hnd] at h
      cases h
    · omega
  · rw [if_neg hoff]
    simp only [Bool.or_eq_true, beq_iff_eq, not_or] at hoff
    -- the ratio divides `MaxPeers` down, and a zero quotient is raised to one
    have hdiv : 0 ≤ (if cfg.dialRatio = 0 then cfg.maxPeers.tdiv defaultDialRatio
        else cfg.maxPeers.tdiv cfg.dialRatio) ∧
        (if cfg.dialRatio = 0 then cfg.maxPeers.tdiv defaultDialRatio
          else cfg.maxPeers.tdiv cfg.dialRatio) ≤ cfg.maxPeers := by
      split_ifs
      · exact ⟨Int.tdiv_nonneg hmax (by decide), Int.tdiv_le_self _ hmax⟩
      · exact ⟨Int.tdiv_nonneg hmax hratio, Int.tdiv_le_self _ hmax⟩
    dsimp only
    generalize (if cfg.dialRatio = 0 then cfg.maxPeers.tdiv defaultDialRatio
      else cfg.maxPeers.tdiv cfg.dialRatio) = limit at hdiv ⊢
    split_ifs with hzero
    · exact ⟨by decide, by omega, fun _ _ => le_refl 1⟩
    · exact ⟨hdiv.1, hdiv.2, fun _ _ => by omega⟩

end ServerConfig

/-! ### The loop's invariant -/

namespace RunLoop

variable {ID IP : Type} [DecidableEq ID] {cfg : ServerConfig ID} {s : RunLoop ID IP}

/-- The peer map holds exactly the running peers, each under its own ID, and
not the local node. -/
structure PeersInv (cfg : ServerConfig ID) (s : RunLoop ID IP) : Prop where
  lookup_iff : ∀ id p, s.peers.lookup id = some p ↔ p ∈ s.running ∧ (s.conns p).node.id = id
  nodup : s.running.Nodup
  lt_next : ∀ p ∈ s.running, p < s.nextPeer
  self_not_mem : cfg.self ∉ s.peers

/-- What every state `Server.run` reaches satisfies: the peer map's invariant,
and the counter counts the inbound peers. -/
structure RunInv (cfg : ServerConfig ID) (s : RunLoop ID IP) : Prop extends PeersInv cfg s where
  inboundCount_eq : s.inboundCount = s.inboundPeers

theorem runInv_start (trustedNodes : List ID) :
    RunInv cfg (start cfg trustedNodes : RunLoop ID IP) where
  lookup_iff := by simp [start]
  nodup := List.nodup_nil
  lt_next := by simp [start]
  self_not_mem := Finmap.notMem_empty
  inboundCount_eq := by simp [start, inboundPeers]

/-- The invariant reads the peer store only through the IDs and the inbound
flags of the connections. -/
theorem RunInv.of_conns {s' : RunLoop ID IP} (h : RunInv cfg s) (hpeers : s'.peers = s.peers)
    (hrunning : s'.running = s.running) (hnext : s'.nextPeer = s.nextPeer)
    (hcount : s'.inboundCount = s.inboundCount)
    (hid : ∀ p, (s'.conns p).node.id = (s.conns p).node.id)
    (hin : ∀ p, (s'.conns p).is inboundConn = (s.conns p).is inboundConn) : RunInv cfg s' where
  lookup_iff := by
    intro id p
    rw [hpeers, hrunning, hid]
    exact h.lookup_iff id p
  nodup := hrunning ▸ h.nodup
  lt_next := by
    rw [hrunning, hnext]
    exact h.lt_next
  self_not_mem := hpeers ▸ h.self_not_mem
  inboundCount_eq := by
    rw [hcount, h.inboundCount_eq]
    unfold inboundPeers
    rw [hpeers, FinmapCount.countBy_congr fun _ p _ => hin p]

/-- The invariant does not read the trusted set. -/
theorem RunInv.with_trusted (h : RunInv cfg s) (t : Finset ID) :
    RunInv cfg { s with trusted := t } :=
  ⟨⟨h.lookup_iff, h.nodup, h.lt_next, h.self_not_mem⟩, h.inboundCount_eq⟩

/-- The peer map's invariant does not read the counter. -/
theorem PeersInv.with_inboundCount (h : PeersInv cfg s) (n : ℤ) :
    PeersInv cfg { s with inboundCount := n } :=
  ⟨h.lookup_iff, h.nodup, h.lt_next, h.self_not_mem⟩

theorem RunInv.setTrusted (h : RunInv cfg s) (n : ID) (val : Bool) :
    RunInv cfg (s.setTrusted n val) := by
  unfold RunLoop.setTrusted
  split
  · next p _ =>
    refine h.of_conns rfl rfl rfl rfl (fun q => ?_) (fun q => ?_)
    · by_cases hq : q = p
      · subst hq
        simp [Conn.set]
      · simp [Function.update_of_ne hq]
    · by_cases hq : q = p
      · subst hq
        simp
      · simp [Function.update_of_ne hq]
  · exact h

/-! #### Admission -/

section Launch

variable {c : SrvConn ID IP} (h : PeersInv cfg s)
include h

/-- A launch writes the store at a fresh reference, past every running peer. -/
theorem PeersInv.conns_launchPeer {p : PeerRef} (hp : p ∈ s.running) :
    (s.launchPeer c).conns p = s.conns p :=
  Function.update_of_ne (ne_of_lt (h.lt_next p hp)) _ _

variable (hfresh : c.node.id ∉ s.peers)
include hfresh

/-- The new peer is the only one under its ID, and its reference is fresh. -/
theorem PeersInv.launchPeer (hself : c.node.id ≠ cfg.self) : PeersInv cfg (s.launchPeer c) where
  lookup_iff := by
    intro id p
    simp only [RunLoop.launchPeer, List.mem_cons]
    by_cases hid : id = c.node.id
    · -- under the new ID only the new peer
      subst hid
      rw [Finmap.lookup_insert]
      constructor
      · rintro ⟨⟩
        exact ⟨Or.inl rfl, by simp⟩
      · rintro ⟨rfl | hp, hpid⟩
        · rfl
        · rw [Function.update_of_ne (ne_of_lt (h.lt_next p hp))] at hpid
          exact absurd (Finmap.mem_of_lookup_eq_some ((h.lookup_iff _ p).mpr ⟨hp, hpid⟩)) hfresh
    · -- under another ID the peers found before
      rw [Finmap.lookup_insert_of_ne _ hid, h.lookup_iff]
      constructor
      · rintro ⟨hp, hpid⟩
        exact ⟨Or.inr hp, by rw [Function.update_of_ne (ne_of_lt (h.lt_next p hp))]; exact hpid⟩
      · rintro ⟨rfl | hp, hpid⟩
        · rw [Function.update_self] at hpid
          exact absurd hpid.symm hid
        · rw [Function.update_of_ne (ne_of_lt (h.lt_next p hp))] at hpid
          exact ⟨hp, hpid⟩
  nodup := List.nodup_cons.mpr ⟨fun hn => lt_irrefl _ (h.lt_next _ hn), h.nodup⟩
  lt_next := by
    intro p hp
    rcases List.mem_cons.mp hp with rfl | hp
    · exact Nat.lt_succ_self _
    · exact Nat.lt_succ_of_lt (h.lt_next p hp)
  self_not_mem := by
    simp only [RunLoop.launchPeer, Finmap.mem_insert, not_or]
    exact ⟨Ne.symm hself, h.self_not_mem⟩

/-- The inbound peers gain the new one if it is inbound. -/
theorem PeersInv.inboundPeers_launchPeer :
    (s.launchPeer c).inboundPeers = s.inboundPeers + if c.is inboundConn then 1 else 0 := by
  unfold inboundPeers
  simp only [RunLoop.launchPeer]
  rw [FinmapCount.countBy_insert_of_notMem _ hfresh, Function.update_self]
  congr 1
  -- the peers of the map are running, so their connections are where they were
  exact FinmapCount.countBy_congr fun _ p hp =>
    by rw [← h.conns_launchPeer ((h.lookup_iff _ p).mp hp).1]; rfl

end Launch

/-- **Admission** keeps the invariant. -/
theorem RunInv.launchPeer (h : RunInv cfg s) {c : SrvConn ID IP}
    (hchk : addPeerChecks cfg s.peers s.inboundCount c = none) :
    RunInv cfg (handle cfg (.checkpointAddPeer c) s) := by
  obtain ⟨hfresh, hself, -⟩ := addPeerChecks_eq_none hchk
  have hpeers := h.toPeersInv.launchPeer hfresh hself
  have hcount := h.toPeersInv.inboundPeers_launchPeer hfresh
  simp only [handle, hchk]
  split_ifs with hin
  · refine { toPeersInv := hpeers.with_inboundCount _, inboundCount_eq := ?_ }
    change s.inboundCount + 1 = ((s.launchPeer c).inboundPeers : ℤ)
    rw [hcount, if_pos hin, h.inboundCount_eq]
    omega
  · refine { toPeersInv := hpeers.with_inboundCount _, inboundCount_eq := ?_ }
    change s.inboundCount = ((s.launchPeer c).inboundPeers : ℤ)
    rw [hcount, if_neg hin, h.inboundCount_eq]
    rfl

/-! #### A peer's end -/

/-- The map loses exactly the peer that ended. -/
theorem PeersInv.delpeer (h : PeersInv cfg s) {p : PeerRef} (hp : p ∈ s.running) :
    PeersInv cfg
      { s with peers := s.peers.erase (s.conns p).node.id, running := s.running.erase p } where
  lookup_iff := by
    intro id q
    have hlookup : s.peers.lookup (s.conns p).node.id = some p := (h.lookup_iff _ p).mpr ⟨hp, rfl⟩
    dsimp only
    rw [h.nodup.mem_erase_iff]
    by_cases hid : id = (s.conns p).node.id
    · -- its ID is gone, and no other running peer had it
      subst hid
      rw [Finmap.lookup_erase]
      refine ⟨fun hnone => (Option.some_ne_none q hnone.symm).elim, fun ⟨⟨hqp, hq⟩, hqid⟩ => (hqp ?_).elim⟩
      exact Option.some.inj (((h.lookup_iff _ q).mpr ⟨hq, hqid⟩).symm.trans hlookup)
    · rw [Finmap.lookup_erase_ne hid, h.lookup_iff]
      constructor
      · rintro ⟨hq, hqid⟩
        refine ⟨⟨fun hqp => hid ?_, hq⟩, hqid⟩
        rw [← hqid, hqp]
      · rintro ⟨⟨-, hq⟩, hqid⟩
        exact ⟨hq, hqid⟩
  nodup := h.nodup.erase p
  lt_next := fun q hq => h.lt_next q (List.mem_of_mem_erase hq)
  self_not_mem := by
    simp only [Finmap.mem_erase, not_and]
    exact fun _ => h.self_not_mem

/-- **A peer's end** keeps the invariant. -/
theorem RunInv.delpeer (h : RunInv cfg s) {p : PeerRef} (hp : p ∈ s.running) :
    RunInv cfg (handle cfg (.delpeer p) s) := by
  have hpeers := h.toPeersInv.delpeer hp
  -- the counter loses the ended peer's inbound flag
  have hcount := FinmapCount.countBy_erase_of_lookup (p := fun q => (s.conns q).is inboundConn)
    ((h.lookup_iff _ p).mpr ⟨hp, rfl⟩)
  simp only [handle]
  split_ifs with hin
  · refine { toPeersInv := hpeers.with_inboundCount _, inboundCount_eq := ?_ }
    change s.inboundCount - 1 = (FinmapCount.countBy (fun q => (s.conns q).is inboundConn)
      (s.peers.erase (s.conns p).node.id) : ℤ)
    rw [h.inboundCount_eq, inboundPeers, ← hcount, if_pos hin]
    omega
  · refine { toPeersInv := hpeers.with_inboundCount _, inboundCount_eq := ?_ }
    change s.inboundCount = (FinmapCount.countBy (fun q => (s.conns q).is inboundConn)
      (s.peers.erase (s.conns p).node.id) : ℤ)
    rw [h.inboundCount_eq, inboundPeers, ← hcount, if_neg hin]
    rfl

/-! #### Runs -/

/-- **Step lemma**: every enabled event keeps the invariant. -/
theorem RunInv.handle (h : RunInv cfg s) {ev : RunEvent ID IP} (hen : s.Enabled ev) :
    RunInv cfg (handle cfg ev s) := by
  cases ev with
  | addtrusted n => exact (h.with_trusted _).setTrusted n true
  | removetrusted n => exact (h.with_trusted _).setTrusted n false
  | checkpointPostHandshake c => exact h
  | checkpointAddPeer c =>
    cases hchk : addPeerChecks cfg s.peers s.inboundCount c with
    | some r =>
      simp only [RunLoop.handle, hchk]
      exact h
    | none => exact h.launchPeer hchk
  | delpeer p => exact h.delpeer hen

/-- **Run lemma**: every state `Server.run` reaches satisfies the invariant. -/
theorem Reachable.runInv {trustedNodes : List ID} (hs : Reachable cfg trustedNodes s) :
    RunInv cfg s := by
  induction hs with
  | start => exact runInv_start trustedNodes
  | step _ hstep ih =>
    cases hstep with
    | pass ev hen => exact ih.handle hen

end RunLoop

end RpcNetwork.P2p
