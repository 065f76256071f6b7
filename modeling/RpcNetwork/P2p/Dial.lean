import Mathlib
import RpcNetwork.Lib.SwapPool

/-!
# The dial scheduler

A model of `dialScheduler` in `p2p/dial.go`: the bookkeeping its `loop`
goroutine keeps about dial tasks, connected peers and static nodes.  Each pass
of `loop` computes the free dial slots, starts static dials from the pool of
ready static tasks, and then handles one event of its `select`: a discovered
node, a finished task, an added or removed peer, an added or removed static
node, or the expiry of dial history.

## Design notes

A `*dialTask` is shared by `static`, `staticPool`, `dialing` and its own
goroutine, and `staticPoolIndex` is written through any of them, so tasks
live in a store indexed by `TaskRef` and every collection holds references.
Go maps are `Finmap`s, `len(m)` is the card of the keys.  A panic is an
`.error` carrying its message.  `rand.Intn(len)` is `draw k % len` for the
environment's `k`-th draw, which ranges over every index.  The dial history
is the list of its items; `heap.Pop` takes the item with the earliest expiry.
-/

namespace RpcNetwork.P2p

/-- `mclock.AbsTime`, in nanoseconds. -/
abbrev AbsTime := ℤ

/-- `time.Second`. -/
def second : AbsTime := 1000000000
/-- `inboundThrottleTime`. -/
def inboundThrottleTime : AbsTime := 30 * second
/-- `dialHistoryExpiration`. -/
def dialHistoryExpiration : AbsTime := inboundThrottleTime + 5 * second
/-- `defaultMaxPendingPeers`. -/
def defaultMaxPendingPeers : ℤ := 50

/-- `connFlag`, a set of bits. -/
abbrev ConnFlag := UInt32

/-- `dynDialedConn`. -/
def dynDialedConn : ConnFlag := 1
/-- `staticDialedConn`. -/
def staticDialedConn : ConnFlag := 2

/-- A node: its ID, its IP if it has one, and its TCP port. -/
structure Node (ID IP : Type) where
  id : ID
  ip : Option IP
  tcp : ℕ

/-- The connection of a peer: its node and its flags. -/
structure Conn (ID IP : Type) where
  node : Node ID IP
  flags : ConnFlag

/-- `c.is(f)`. -/
def Conn.is {ID IP : Type} (c : Conn ID IP) (f : ConnFlag) : Bool := c.flags &&& f != 0

/-- The fields of `dialTask` the scheduler reads. -/
structure DialTask (ID IP : Type) where
  staticPoolIndex : ℤ
  flags : ConnFlag
  dest : Node ID IP

/-- A reference to a dial task in the task store. -/
abbrev TaskRef := ℕ

/-- The fields of `dialConfig` the loop reads. -/
structure DialConfig (ID IP : Type) where
  self : ID
  maxDialPeers : ℤ
  maxActiveDials : ℤ
  /-- The IP whitelist, `Contains` of `netutil.Netlist`. -/
  netRestrict : Option (Option IP → Bool)

/-- `withDefaults`, on the fields modelled. -/
def DialConfig.withDefaults {ID IP : Type} (cfg : DialConfig ID IP) : DialConfig ID IP :=
  if cfg.maxActiveDials = 0 then { cfg with maxActiveDials := defaultMaxPendingPeers } else cfg

/-- `expHeap`: items and their expiry times. -/
abbrev ExpHeap (ID : Type) := List (ID × AbsTime)

namespace ExpHeap

variable {ID : Type} [DecidableEq ID]

/-- `add`. -/
def add (h : ExpHeap ID) (item : ID) (exp : AbsTime) : ExpHeap ID := h ++ [(item, exp)]

/-- `contains`. -/
def contains (h : ExpHeap ID) (item : ID) : Bool := h.any fun v => v.1 = item

/-- The item with the earliest expiry, the first of them on a tie. -/
def earliest : ExpHeap ID → Option (ID × AbsTime)
  | [] => none
  | v :: rest => some (rest.foldl (fun m x => if x.2 < m.2 then x else m) v)

/-- `heap.Pop`: the item with the earliest expiry, and the rest. -/
def pop (h : ExpHeap ID) : Option ((ID × AbsTime) × ExpHeap ID) :=
  (earliest h).map fun item => (item, h.erase item)

end ExpHeap

/-- `checkDial`'s errors. -/
inductive DialError where
  | self
  | noPort
  | alreadyDialing
  | alreadyConnected
  | notWhitelisted
  | recentlyDialed
  deriving DecidableEq, Repr

/-- The state `loop` owns. -/
structure DialScheduler (ID IP : Type) [DecidableEq ID] where
  dialing : Finmap fun _ : ID => TaskRef
  peers : Finmap fun _ : ID => ConnFlag
  dialPeers : ℤ
  static : Finmap fun _ : ID => TaskRef
  staticPool : List TaskRef
  history : ExpHeap ID
  /-- The dial tasks; `newDialTask` takes `nextTask`. -/
  tasks : TaskRef → DialTask ID IP
  nextTask : TaskRef
  /-- The tasks whose goroutine has not yet been received on `doneCh`. -/
  running : List TaskRef

namespace DialScheduler

variable {ID IP : Type} [DecidableEq ID]

/-- `newDialScheduler`: nothing dialed, no peers, no static nodes.  The task
store holds placeholders until a task is made. -/
def newDialScheduler (cfg : DialConfig ID IP) : DialScheduler ID IP :=
  ⟨∅, ∅, 0, ∅, [], [], fun _ => ⟨-1, 0, ⟨cfg.self, none, 0⟩⟩, 0, []⟩

/-- The `staticPoolIndex` of each task. -/
def index (s : DialScheduler ID IP) (t : TaskRef) : ℤ := (s.tasks t).staticPoolIndex

/-- `task.staticPoolIndex = i`. -/
def setIndex (s : DialScheduler ID IP) (t : TaskRef) (i : ℤ) : DialScheduler ID IP :=
  { s with tasks := Function.update s.tasks t { s.tasks t with staticPoolIndex := i } }

/-- The ID a task dials. -/
def taskId (s : DialScheduler ID IP) (t : TaskRef) : ID := (s.tasks t).dest.id

/-- `newDialTask`. -/
def newDialTask (s : DialScheduler ID IP) (dest : Node ID IP) (flags : ConnFlag) :
    DialScheduler ID IP × TaskRef :=
  ({ s with
      tasks := Function.update s.tasks s.nextTask ⟨-1, flags, dest⟩
      nextTask := s.nextTask + 1 }, s.nextTask)

variable (cfg : DialConfig ID IP)

/-- `freeDialSlots`. -/
def freeDialSlots (s : DialScheduler ID IP) : ℤ :=
  let slots := (cfg.maxDialPeers - s.dialPeers) * 2
  let slots := if slots > cfg.maxActiveDials then cfg.maxActiveDials else slots
  slots - s.dialing.keys.card

/-- `checkDial`: `none` for a node that may be dialed. -/
def checkDial (s : DialScheduler ID IP) (n : Node ID IP) : Option DialError :=
  if n.id = cfg.self then some .self
  else if n.ip.isSome ∧ n.tcp = 0 then some .noPort
  else if n.id ∈ s.dialing then some .alreadyDialing
  else if n.id ∈ s.peers then some .alreadyConnected
  else if (match cfg.netRestrict with
      | some contains => !contains n.ip
      | none => false) then some .notWhitelisted
  else if s.history.contains n.id then some .recentlyDialed
  else none

/-- `addToStaticPool`. -/
def addToStaticPool (s : DialScheduler ID IP) (task : TaskRef) :
    Except String (DialScheduler ID IP) :=
  if s.index task ≥ 0 then .error "attempt to add task to staticPool twice"
  else .ok (setIndex { s with staticPool := s.staticPool ++ [task] } task s.staticPool.length)

/-- `removeFromStaticPool`: the last task moves to `idx`. -/
def removeFromStaticPool (s : DialScheduler ID IP) (idx : ℤ) :
    Except String (DialScheduler ID IP) :=
  if h : 0 ≤ idx ∧ idx.toNat < s.staticPool.length then
    let task := s.staticPool.get ⟨idx.toNat, h.2⟩
    let last := s.staticPool.length - 1
    let moved := s.staticPool.get ⟨last, by omega⟩
    let s' := setIndex { s with staticPool := s.staticPool.set idx.toNat moved } moved idx
    .ok (setIndex { s' with staticPool := s'.staticPool.take last } task (-1))
  else .error "index out of range"

/-- `updateStaticPool`: a static task that is not in the pool goes back in if
it may be dialed. -/
def updateStaticPool (s : DialScheduler ID IP) (id : ID) :
    Except String (DialScheduler ID IP) :=
  match s.static.lookup id with
  | some task =>
    if s.index task < 0 ∧ checkDial cfg s (s.tasks task).dest = none then
      s.addToStaticPool task
    else .ok s
  | none => .ok s

/-- `startDial`: record the dial in the history and in `dialing`, and start
the task's goroutine. -/
def startDial (s : DialScheduler ID IP) (now : AbsTime) (task : TaskRef) :
    DialScheduler ID IP :=
  { s with history := s.history.add (s.taskId task) (now + dialHistoryExpiration),
           dialing := s.dialing.insert (s.taskId task) task,
           running := s.running ++ [task] }

/-- The loop of `startStaticDials`, for at most `fuel` more dials: the `k`-th
dial takes the task at `draw k % len(staticPool)`. -/
def startStaticDialsLoop (now : AbsTime) (draw : ℕ → ℕ) (n : ℤ) :
    ℕ → ℕ → DialScheduler ID IP → Except String (DialScheduler ID IP × ℕ)
  | 0, started, s => .ok (s, started)
  | fuel + 1, started, s =>
    if h : (started : ℤ) < n ∧ 0 < s.staticPool.length then
      let idx := draw started % s.staticPool.length
      let task := s.staticPool.get ⟨idx, Nat.mod_lt _ h.2⟩
      match (s.startDial now task).removeFromStaticPool idx with
      | .ok s => startStaticDialsLoop now draw n fuel (started + 1) s
      | .error e => .error e
    else .ok (s, started)

/-- `startStaticDials`: start up to `n` static dials; each one takes a task out
of the pool, so the pool's length bounds the passes. -/
def startStaticDials (s : DialScheduler ID IP) (now : AbsTime) (draw : ℕ → ℕ) (n : ℤ) :
    Except String (DialScheduler ID IP × ℕ) :=
  startStaticDialsLoop now draw n s.staticPool.length 0 s

/-- The loop of `expire`, for at most `fuel` more items: pop the earliest item
while it expired before `now`, and offer its node back to the pool. -/
def expireLoop (now : AbsTime) : ℕ → DialScheduler ID IP → Except String (DialScheduler ID IP)
  | 0, s => .ok s
  | fuel + 1, s =>
    match s.history.pop with
    | some (item, rest) =>
      if item.2 < now then
        match updateStaticPool cfg { s with history := rest } item.1 with
        | .ok s => expireLoop now fuel s
        | .error e => .error e
      else .ok s
    | none => .ok s

/-- `expireHistory`: each pass pops one item, so the history's length bounds
the passes. -/
def expireHistory (s : DialScheduler ID IP) (now : AbsTime) :
    Except String (DialScheduler ID IP) :=
  expireLoop cfg now s.history.length s

/-! ### What the helpers do -/

section Spec

variable {s s' : DialScheduler ID IP}

@[simp] theorem index_setIndex (t : TaskRef) (i : ℤ) :
    (s.setIndex t i).index = Function.update s.index t i := by
  funext u
  by_cases hu : u = t
  · subst hu
    simp [index, setIndex]
  · simp [index, setIndex, Function.update_of_ne hu]

@[simp] theorem taskId_setIndex (t : TaskRef) (i : ℤ) : (s.setIndex t i).taskId = s.taskId := by
  funext u
  by_cases hu : u = t
  · subst hu
    simp [taskId, setIndex]
  · simp [taskId, setIndex, Function.update_of_ne hu]

/-- `s'` differs from `s` at most in the pool and in the tasks' pool indices:
what the pool helpers may change. -/
structure PoolOnly (s s' : DialScheduler ID IP) : Prop where
  dialing : s'.dialing = s.dialing
  peers : s'.peers = s.peers
  dialPeers : s'.dialPeers = s.dialPeers
  static : s'.static = s.static
  history : s'.history = s.history
  running : s'.running = s.running
  nextTask : s'.nextTask = s.nextTask
  dest : ∀ t, (s'.tasks t).dest = (s.tasks t).dest

theorem PoolOnly.refl (s : DialScheduler ID IP) : PoolOnly s s :=
  ⟨rfl, rfl, rfl, rfl, rfl, rfl, rfl, fun _ => rfl⟩

theorem PoolOnly.trans {s₁ s₂ s₃ : DialScheduler ID IP} (h₁ : PoolOnly s₁ s₂)
    (h₂ : PoolOnly s₂ s₃) : PoolOnly s₁ s₃ :=
  ⟨h₂.dialing.trans h₁.dialing, h₂.peers.trans h₁.peers, h₂.dialPeers.trans h₁.dialPeers,
    h₂.static.trans h₁.static, h₂.history.trans h₁.history, h₂.running.trans h₁.running,
    h₂.nextTask.trans h₁.nextTask, fun t => (h₂.dest t).trans (h₁.dest t)⟩

@[simp] theorem index_withPool (pool : List TaskRef) :
    ({ s with staticPool := pool } : DialScheduler ID IP).index = s.index := rfl

theorem PoolOnly.withPool (s : DialScheduler ID IP) (pool : List TaskRef) :
    PoolOnly s { s with staticPool := pool } :=
  ⟨rfl, rfl, rfl, rfl, rfl, rfl, rfl, fun _ => rfl⟩

theorem PoolOnly.setIndex (s : DialScheduler ID IP) (t : TaskRef) (i : ℤ) :
    PoolOnly s (s.setIndex t i) := by
  refine ⟨rfl, rfl, rfl, rfl, rfl, rfl, rfl, fun u => ?_⟩
  by_cases hu : u = t
  · subst hu
    simp [DialScheduler.setIndex]
  · simp [DialScheduler.setIndex, Function.update_of_ne hu]

theorem PoolOnly.taskId (h : PoolOnly s s') : s'.taskId = s.taskId := by
  funext t
  simp only [DialScheduler.taskId, h.dest t]

theorem PoolOnly.checkDial (h : PoolOnly s s') : checkDial cfg s' = checkDial cfg s := by
  funext n
  simp only [DialScheduler.checkDial, h.dialing, h.peers, h.history]

/-- **`addToStaticPool`** appends a task that is not in the pool, and panics
on one that is. -/
theorem addToStaticPool_ok {task : TaskRef} (h : s.addToStaticPool task = .ok s') :
    s.index task < 0 ∧ PoolOnly s s' ∧ s'.staticPool = (SwapPool.push s.staticPool s.index task).1 ∧
      s'.index = (SwapPool.push s.staticPool s.index task).2 := by
  unfold addToStaticPool at h
  split_ifs at h with hidx
  cases h
  exact ⟨by omega, (PoolOnly.withPool _ _).trans (PoolOnly.setIndex _ _ _), rfl,
    by simp [SwapPool.push]⟩

theorem addToStaticPool_of_neg {task : TaskRef} (h : s.index task < 0) :
    ∃ s', s.addToStaticPool task = .ok s' := by
  unfold addToStaticPool
  rw [if_neg (by omega)]
  exact ⟨_, rfl⟩

/-- **`removeFromStaticPool`** swap-removes the task at a position inside the
pool, and panics on any other. -/
theorem removeFromStaticPool_ok {idx : ℤ} (h : s.removeFromStaticPool idx = .ok s') :
    ∃ hlt : idx.toNat < s.staticPool.length, 0 ≤ idx ∧ PoolOnly s s' ∧
      s'.staticPool = (SwapPool.swapRemove s.staticPool s.index idx.toNat hlt).1 ∧
      s'.index = (SwapPool.swapRemove s.staticPool s.index idx.toNat hlt).2 := by
  unfold removeFromStaticPool at h
  split at h
  · rename_i hin
    cases h
    refine ⟨hin.2, hin.1, ?_, by simp [SwapPool.swapRemove, setIndex], ?_⟩
    · -- two index writes, each after a change of the pool
      exact ((PoolOnly.withPool s _).trans (PoolOnly.setIndex _ _ _)).trans
        ((PoolOnly.withPool _ _).trans (PoolOnly.setIndex _ _ _))
    · simp [SwapPool.swapRemove, Int.toNat_of_nonneg hin.1]
  · cases h

theorem removeFromStaticPool_of_lt {idx : ℤ} (h₀ : 0 ≤ idx) (h : idx.toNat < s.staticPool.length) :
    ∃ s', s.removeFromStaticPool idx = .ok s' := by
  unfold removeFromStaticPool
  rw [dif_pos ⟨h₀, h⟩]
  exact ⟨_, rfl⟩

/-- `removeFromStaticPool` reads nothing of the static map. -/
theorem removeFromStaticPool_withStatic (m : Finmap fun _ : ID => TaskRef) (idx : ℤ) :
    ({ s with static := m } : DialScheduler ID IP).removeFromStaticPool idx =
      (s.removeFromStaticPool idx).map fun s => { s with static := m } := by
  by_cases h : 0 ≤ idx ∧ idx.toNat < s.staticPool.length
  · simp only [removeFromStaticPool, h]
    rfl
  · simp only [removeFromStaticPool, h, dif_neg, not_false_eq_true]
    rfl

/-- **`updateStaticPool`** leaves the state alone, or puts the node's static
task, out of the pool and dialable, back in. -/
theorem updateStaticPool_cases {id : ID} (h : updateStaticPool cfg s id = .ok s') :
    s' = s ∨ ∃ task, s.static.lookup id = some task ∧ s.index task < 0 ∧
      checkDial cfg s (s.tasks task).dest = none ∧ s.addToStaticPool task = .ok s' := by
  unfold updateStaticPool at h
  split at h
  · rename_i task htask
    split_ifs at h with hready
    · exact .inr ⟨task, htask, hready.1, hready.2, h⟩
    · exact .inl (Except.ok.inj h).symm
  · exact .inl (Except.ok.inj h).symm

/-- `updateStaticPool` never panics: it adds only a task out of the pool. -/
theorem updateStaticPool_ok (s : DialScheduler ID IP) (id : ID) :
    ∃ s', updateStaticPool cfg s id = .ok s' := by
  unfold updateStaticPool
  split
  · split_ifs with hready
    · exact addToStaticPool_of_neg hready.1
    · exact ⟨_, rfl⟩
  · exact ⟨_, rfl⟩

theorem updateStaticPool_poolOnly {id : ID} (h : updateStaticPool cfg s id = .ok s') :
    PoolOnly s s' := by
  rcases updateStaticPool_cases cfg h with rfl | ⟨_, -, -, -, hadd⟩
  · exact PoolOnly.refl _
  · exact (addToStaticPool_ok hadd).2.1

@[simp] theorem newDialTask_ref (dest : Node ID IP) (flags : ConnFlag) :
    (s.newDialTask dest flags).2 = s.nextTask := rfl

theorem taskId_newDialTask (dest : Node ID IP) (flags : ConnFlag) :
    (s.newDialTask dest flags).1.taskId = Function.update s.taskId s.nextTask dest.id := by
  funext t
  by_cases ht : t = s.nextTask
  · subst ht
    simp [newDialTask, taskId]
  · simp [newDialTask, taskId, Function.update_of_ne ht]

theorem index_newDialTask (dest : Node ID IP) (flags : ConnFlag) :
    (s.newDialTask dest flags).1.index = Function.update s.index s.nextTask (-1) := by
  funext t
  by_cases ht : t = s.nextTask
  · subst ht
    simp [newDialTask, index]
  · simp [newDialTask, index, Function.update_of_ne ht]

/-- A node that passes `checkDial` is not being dialed. -/
theorem notMem_dialing_of_checkDial {n : Node ID IP} (h : checkDial cfg s n = none) :
    n.id ∉ s.dialing := by
  unfold checkDial at h
  split_ifs at h with h₁ h₂ h₃
  exact h₃

@[simp] theorem startDial_staticPool (now : AbsTime) (task : TaskRef) :
    (s.startDial now task).staticPool = s.staticPool := rfl
@[simp] theorem startDial_index (now : AbsTime) (task : TaskRef) :
    (s.startDial now task).index = s.index := rfl
@[simp] theorem startDial_taskId (now : AbsTime) (task : TaskRef) :
    (s.startDial now task).taskId = s.taskId := rfl
@[simp] theorem startDial_tasks (now : AbsTime) (task : TaskRef) :
    (s.startDial now task).tasks = s.tasks := rfl
@[simp] theorem startDial_static (now : AbsTime) (task : TaskRef) :
    (s.startDial now task).static = s.static := rfl
@[simp] theorem startDial_peers (now : AbsTime) (task : TaskRef) :
    (s.startDial now task).peers = s.peers := rfl
@[simp] theorem startDial_dialPeers (now : AbsTime) (task : TaskRef) :
    (s.startDial now task).dialPeers = s.dialPeers := rfl
@[simp] theorem startDial_nextTask (now : AbsTime) (task : TaskRef) :
    (s.startDial now task).nextTask = s.nextTask := rfl
@[simp] theorem startDial_dialing (now : AbsTime) (task : TaskRef) :
    (s.startDial now task).dialing = s.dialing.insert (s.taskId task) task := rfl
@[simp] theorem startDial_running (now : AbsTime) (task : TaskRef) :
    (s.startDial now task).running = s.running ++ [task] := rfl
@[simp] theorem startDial_history (now : AbsTime) (task : TaskRef) :
    (s.startDial now task).history =
      s.history.add (s.taskId task) (now + dialHistoryExpiration) := rfl

end Spec

end DialScheduler

/-- The cases of `loop`'s `select`. -/
inductive Event (ID IP : Type) where
  /-- `node := <-nodesCh`: a node from discovery. -/
  | nodeIn (node : Node ID IP)
  /-- `task := <-d.doneCh`, with the destination its run left. -/
  | done (task : TaskRef) (dest : Node ID IP)
  /-- `c := <-d.addPeerCh`. -/
  | addPeer (c : Conn ID IP)
  /-- `c := <-d.remPeerCh`. -/
  | remPeer (c : Conn ID IP)
  /-- `node := <-d.addStaticCh`. -/
  | addStatic (node : Node ID IP)
  /-- `node := <-d.remStaticCh`. -/
  | remStatic (node : Node ID IP)
  /-- `<-historyExp`, with the clock's reading. -/
  | historyExp (now : AbsTime)

namespace DialScheduler

variable {ID IP : Type} [DecidableEq ID] (cfg : DialConfig ID IP)

/-- One case of `loop`'s `select`; `now` is the clock's reading. -/
def handle (now : AbsTime) : Event ID IP → DialScheduler ID IP →
    Except String (DialScheduler ID IP)
  | .nodeIn node, s =>
    match checkDial cfg s node with
    | some _ => .ok s
    | none =>
      let (s, task) := s.newDialTask node dynDialedConn
      .ok (s.startDial now task)
  | .done task dest, s =>
    -- the task's run may have resolved a new endpoint for its node
    let s := { s with tasks := Function.update s.tasks task { s.tasks task with dest },
                      running := s.running.erase task }
    let id := s.taskId task
    updateStaticPool cfg { s with dialing := s.dialing.erase id } id
  | .addPeer c, s =>
    let dialPeers := if c.is dynDialedConn || c.is staticDialedConn then s.dialPeers + 1
      else s.dialPeers
    let id := c.node.id
    let s := { s with dialPeers, peers := s.peers.insert id c.flags }
    -- the node is connected now, so its static task leaves the pool
    match s.static.lookup id with
    | some task => if s.index task ≥ 0 then s.removeFromStaticPool (s.index task) else .ok s
    | none => .ok s
  | .remPeer c, s =>
    let dialPeers := if c.is dynDialedConn || c.is staticDialedConn then s.dialPeers - 1
      else s.dialPeers
    updateStaticPool cfg { s with dialPeers, peers := s.peers.erase c.node.id } c.node.id
  | .addStatic node, s =>
    if node.id ∈ s.static then .ok s
    else
      let (s, task) := s.newDialTask node staticDialedConn
      let s := { s with static := s.static.insert node.id task }
      if checkDial cfg s node = none then s.addToStaticPool task else .ok s
  | .remStatic node, s =>
    match s.static.lookup node.id with
    | some task =>
      let s := { s with static := s.static.erase node.id }
      if s.index task ≥ 0 then s.removeFromStaticPool (s.index task) else .ok s
    | none => .ok s
  | .historyExp now, s => s.expireHistory cfg now

/-! ### What each event does -/

section HandleSpec

variable {cfg} {s s' : DialScheduler ID IP} {now : AbsTime}

theorem handle_nodeIn {node : Node ID IP} (h : handle cfg now (.nodeIn node) s = .ok s') :
    s' = s ∨ checkDial cfg s node = none ∧
      s' = (s.newDialTask node dynDialedConn).1.startDial now s.nextTask := by
  simp only [handle] at h
  split at h
  · exact .inl (Except.ok.inj h).symm
  · rename_i hcheck
    exact .inr ⟨hcheck, (Except.ok.inj h).symm⟩

theorem handle_addPeer {c : Conn ID IP} (h : handle cfg now (.addPeer c) s = .ok s') :
    s' = { s with dialPeers := if c.is dynDialedConn || c.is staticDialedConn then s.dialPeers + 1
                    else s.dialPeers,
                  peers := s.peers.insert c.node.id c.flags } ∨
      ∃ idx, ({ s with dialPeers := if c.is dynDialedConn || c.is staticDialedConn then s.dialPeers + 1
                         else s.dialPeers,
                       peers := s.peers.insert c.node.id c.flags } :
                DialScheduler ID IP).removeFromStaticPool idx = .ok s' := by
  simp only [handle] at h
  -- the counter's new value plays no part in the cases
  generalize (if (c.is dynDialedConn || c.is staticDialedConn) = true then s.dialPeers + 1
    else s.dialPeers) = d at h ⊢
  split at h
  · split_ifs at h
    · exact .inr ⟨_, h⟩
    · exact .inl (Except.ok.inj h).symm
  · exact .inl (Except.ok.inj h).symm

theorem handle_remPeer {c : Conn ID IP} (h : handle cfg now (.remPeer c) s = .ok s') :
    updateStaticPool cfg
      { s with dialPeers := if c.is dynDialedConn || c.is staticDialedConn then s.dialPeers - 1
                 else s.dialPeers,
               peers := s.peers.erase c.node.id } c.node.id = .ok s' := h

theorem handle_addStatic {node : Node ID IP} (h : handle cfg now (.addStatic node) s = .ok s') :
    node.id ∈ s.static ∧ s' = s ∨
      node.id ∉ s.static ∧
        (s' = { (s.newDialTask node staticDialedConn).1 with
                  static := s.static.insert node.id s.nextTask } ∨
          checkDial cfg s node = none ∧
            ({ (s.newDialTask node staticDialedConn).1 with
                static := s.static.insert node.id s.nextTask } : DialScheduler ID IP).addToStaticPool
              s.nextTask = .ok s') := by
  simp only [handle] at h
  split_ifs at h with hin hcheck
  · exact .inl ⟨hin, (Except.ok.inj h).symm⟩
  · -- `checkDial` reads neither the static map nor the task store
    exact .inr ⟨hin, .inr ⟨hcheck, h⟩⟩
  · exact .inr ⟨hin, .inl (Except.ok.inj h).symm⟩

theorem handle_remStatic {node : Node ID IP} (h : handle cfg now (.remStatic node) s = .ok s') :
    s.static.lookup node.id = none ∧ s' = s ∨
      ∃ task, s.static.lookup node.id = some task ∧
        (s.index task < 0 ∧ s' = { s with static := s.static.erase node.id } ∨
          ∃ s₂, s.removeFromStaticPool (s.index task) = .ok s₂ ∧
            s' = { s₂ with static := s.static.erase node.id }) := by
  simp only [handle] at h
  split at h
  · rename_i task htask
    refine .inr ⟨task, htask, ?_⟩
    split_ifs at h with hidx
    · -- the pool removal does not read the static map
      change ({ s with static := s.static.erase node.id } : DialScheduler ID IP).removeFromStaticPool
        (s.index task) = .ok s' at h
      rw [removeFromStaticPool_withStatic] at h
      cases hr : s.removeFromStaticPool (s.index task) with
      | error e =>
        rw [hr] at h
        cases h
      | ok s₂ =>
        rw [hr] at h
        exact .inr ⟨s₂, rfl, (Except.ok.inj h).symm⟩
    · exact .inl ⟨lt_of_not_ge hidx, (Except.ok.inj h).symm⟩
  · rename_i hnone
    exact .inl ⟨hnone, (Except.ok.inj h).symm⟩

end HandleSpec

/-- When the `select` can take an event, after the static dials of the pass
left `slots` free slots: discovered nodes are read only while slots are free,
and only a running task reports on `doneCh`, with its own node's ID. -/
def Enabled (s : DialScheduler ID IP) (slots : ℤ) : Event ID IP → Prop
  | .nodeIn _ => slots > 0
  | .done task dest => task ∈ s.running ∧ dest.id = s.taskId task
  | _ => True

/-- One pass of `loop`, with the clock's reading, the random draws, and the
event the `select` takes; `allowed` says which events the environment sends. -/
inductive Step (allowed : DialScheduler ID IP → Event ID IP → Prop) :
    DialScheduler ID IP → DialScheduler ID IP → Prop
  | pass {s s₁ s' : DialScheduler ID IP} {started : ℕ} (now : AbsTime) (draw : ℕ → ℕ)
      (ev : Event ID IP)
      (hstart : s.startStaticDials now draw (freeDialSlots cfg s) = .ok (s₁, started))
      (henabled : s₁.Enabled (freeDialSlots cfg s - started) ev) (hallowed : allowed s₁ ev)
      (hev : handle cfg now ev s₁ = .ok s') : Step allowed s s'

/-- The states `loop` reaches from `newDialScheduler`. -/
inductive Reachable (allowed : DialScheduler ID IP → Event ID IP → Prop) :
    DialScheduler ID IP → Prop
  | start : Reachable allowed (newDialScheduler cfg.withDefaults)
  | step {s s' : DialScheduler ID IP} (hs : Reachable allowed s) (h : Step cfg allowed s s') :
      Reachable allowed s'

end DialScheduler

end RpcNetwork.P2p
