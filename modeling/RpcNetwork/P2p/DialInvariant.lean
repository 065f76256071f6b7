import RpcNetwork.P2p.Dial
import RpcNetwork.Lib.FinmapCount

/-!
# The dial scheduler's bookkeeping

What `loop` keeps true over any interleaving of its events: the static pool
indexes itself and holds only static tasks, no two running tasks dial one node,
and `dialing` is exactly the running tasks by node.  While peers are added only
unconnected and removed with the flags they were added with, `dialPeers`
counts the connected peers that were dialed.

## Design notes

Discovered nodes are read only while slots remain after the static dials, and
`startStaticDials` stops with slots left only once the pool is empty
(`Inv.startStaticDialsLoop`).  That is what keeps a static task out of the pool
while a discovered node with its ID is dialed: `checkDial` looks at `dialing`,
not at the pool, so without it `startStaticDials` could dial the node again.
-/

namespace RpcNetwork.P2p

namespace DialScheduler

open SwapPool FinmapCount

variable {ID IP : Type} [DecidableEq ID] (cfg : DialConfig ID IP)

/-- What the tasks in flight satisfy. -/
structure TasksInv (s : DialScheduler ID IP) : Prop where
  /-- The static map files each task under the node it dials. -/
  static_key : ∀ id t, s.static.lookup id = some t → s.taskId t = id
  /-- No two running tasks dial one node. -/
  running_nodup : (s.running.map s.taskId).Nodup
  /-- `dialing` maps each node to the running task that dials it. -/
  dialing_iff : ∀ id t, s.dialing.lookup id = some t ↔ t ∈ s.running ∧ s.taskId t = id
  running_lt : ∀ t ∈ s.running, t < s.nextTask
  static_lt : ∀ id t, s.static.lookup id = some t → t < s.nextTask

/-- The invariant of `loop`: the tasks' part, and the static pool's. -/
structure Inv (s : DialScheduler ID IP) : Prop extends TasksInv s where
  /-- `staticPool[i].staticPoolIndex = i`. -/
  indexed : Indexed s.staticPool s.index
  /-- A static task is in the pool or marked `-1`. -/
  tracked : ∀ id t, s.static.lookup id = some t → Tracked s.staticPool s.index t
  /-- The pool holds only static tasks. -/
  pool_static : ∀ t ∈ s.staticPool, s.static.lookup (s.taskId t) = some t
  /-- No task of the pool dials a node that is being dialed. -/
  pool_ready : ∀ t ∈ s.staticPool, s.taskId t ∉ s.dialing

section Lemmas

variable {cfg} {s s' : DialScheduler ID IP}

theorem inv_newDialScheduler (cfg : DialConfig ID IP) : Inv (newDialScheduler cfg) where
  static_key := by simp [newDialScheduler]
  running_nodup := List.nodup_nil
  dialing_iff := by simp [newDialScheduler]
  running_lt := by simp [newDialScheduler]
  static_lt := by simp [newDialScheduler]
  indexed := fun _ h => absurd h (Nat.not_lt_zero _)
  tracked := by simp [newDialScheduler]
  pool_static := by simp [newDialScheduler]
  pool_ready := by simp [newDialScheduler]

/-- `len(dialing)` is the number of running tasks: each dials its own node. -/
theorem TasksInv.card_dialing (h : TasksInv s) : s.dialing.keys.card = s.running.length := by
  have hkeys : s.dialing.keys = (s.running.map s.taskId).toFinset := by
    ext id
    simp only [Finmap.mem_keys, Finmap.mem_iff, h.dialing_iff, List.mem_toFinset, List.mem_map]
  rw [hkeys, List.toFinset_card_of_nodup h.running_nodup, List.length_map]

theorem TasksInv.of_poolOnly (h : TasksInv s) (hp : PoolOnly s s') : TasksInv s' := by
  have hid := hp.taskId
  refine ⟨?_, ?_, ?_, ?_, ?_⟩
  · rw [hp.static, hid]
    exact h.static_key
  · rw [hp.running, hid]
    exact h.running_nodup
  · rw [hp.dialing, hp.running, hid]
    exact h.dialing_iff
  · rw [hp.running, hp.nextTask]
    exact h.running_lt
  · rw [hp.static, hp.nextTask]
    exact h.static_lt

/-- A new task takes a reference nothing holds yet. -/
theorem TasksInv.newDialTask (h : TasksInv s) (dest : Node ID IP) (flags : ConnFlag) :
    TasksInv (s.newDialTask dest flags).1 := by
  have hid : ∀ t < s.nextTask, (s.newDialTask dest flags).1.taskId t = s.taskId t := by
    intro t ht
    rw [taskId_newDialTask, Function.update_of_ne (Nat.ne_of_lt ht)]
  have hmap : s.running.map (s.newDialTask dest flags).1.taskId = s.running.map s.taskId :=
    List.map_congr_left fun t ht => hid t (h.running_lt t ht)
  refine ⟨?_, ?_, ?_, ?_, ?_⟩
  · intro id t ht
    rw [hid t (h.static_lt id t ht)]
    exact h.static_key id t ht
  · change (s.running.map (s.newDialTask dest flags).1.taskId).Nodup
    rw [hmap]
    exact h.running_nodup
  · intro id t
    constructor
    · intro ht
      obtain ⟨hrun, hkey⟩ := (h.dialing_iff id t).mp ht
      exact ⟨hrun, (hid t (h.running_lt t hrun)).trans hkey⟩
    · rintro ⟨hrun, hkey⟩
      exact (h.dialing_iff id t).mpr ⟨hrun, (hid t (h.running_lt t hrun)).symm.trans hkey⟩
  · intro t ht
    exact Nat.lt_succ_of_lt (h.running_lt t ht)
  · intro id t ht
    exact Nat.lt_succ_of_lt (h.static_lt id t ht)

/-- `startDial` of a task whose node is not being dialed, and that the store
holds. -/
theorem TasksInv.startDial (h : TasksInv s) {task : TaskRef} (now : AbsTime)
    (hid : s.taskId task ∉ s.dialing) (hlt : task < s.nextTask) :
    TasksInv (s.startDial now task) := by
  -- no running task dials the node
  have hnot : s.taskId task ∉ s.running.map s.taskId := by
    intro hmem
    obtain ⟨u, hu, hid'⟩ := List.mem_map.mp hmem
    exact hid (Finmap.mem_of_lookup_eq_some ((h.dialing_iff _ u).mpr ⟨hu, hid'⟩))
  refine ⟨?_, ?_, ?_, ?_, ?_⟩
  · simpa using h.static_key
  · simp only [startDial_running, startDial_taskId, List.map_append, List.map_singleton]
    rw [List.nodup_append]
    refine ⟨h.running_nodup, List.nodup_singleton _, ?_⟩
    rintro a ha b hb rfl
    rw [List.mem_singleton.mp hb] at ha
    exact hnot ha
  · intro id t
    simp only [startDial_dialing, startDial_running, startDial_taskId, List.mem_append,
      List.mem_singleton]
    by_cases hid' : id = s.taskId task
    · -- the node of the new dial
      subst hid'
      rw [Finmap.lookup_insert]
      constructor
      · rintro ⟨⟩
        exact ⟨.inr rfl, rfl⟩
      · rintro ⟨ht | rfl, hkey⟩
        · exact absurd (List.mem_map.mpr ⟨t, ht, hkey⟩) hnot
        · rfl
    · rw [Finmap.lookup_insert_of_ne _ hid', h.dialing_iff]
      constructor
      · rintro ⟨ht, hkey⟩
        exact ⟨.inl ht, hkey⟩
      · rintro ⟨ht | rfl, hkey⟩
        · exact ⟨ht, hkey⟩
        · exact absurd hkey.symm hid'
  · simp only [startDial_running, startDial_nextTask, List.mem_append, List.mem_singleton]
    rintro t (ht | rfl)
    · exact h.running_lt t ht
    · exact hlt
  · simpa using h.static_lt

/-- `Inv` does not read the peers, -/
theorem Inv.withPeers (hs : Inv s) (d : ℤ) (p : Finmap fun _ : ID => ConnFlag) :
    Inv { s with dialPeers := d, peers := p } :=
  ⟨⟨hs.static_key, hs.running_nodup, hs.dialing_iff, hs.running_lt, hs.static_lt⟩,
    hs.indexed, hs.tracked, hs.pool_static, hs.pool_ready⟩

/-- nor the history. -/
theorem Inv.withHistory (hs : Inv s) (h : ExpHeap ID) : Inv { s with history := h } :=
  ⟨⟨hs.static_key, hs.running_nodup, hs.dialing_iff, hs.running_lt, hs.static_lt⟩,
    hs.indexed, hs.tracked, hs.pool_static, hs.pool_ready⟩

/-- A task out of the pool has a negative index: `Indexed` finds every member
at its own, nonnegative, index. -/
theorem Inv.notMem_pool_of_index_neg (hs : Inv s) {t : TaskRef} (h : s.index t < 0) :
    t ∉ s.staticPool := by
  intro ht
  obtain ⟨_, h0, _⟩ := hs.indexed.getElem_index ht
  omega

/-- Two tasks of the pool that dial one node are one task. -/
theorem Inv.pool_taskId_inj (hs : Inv s) {t u : TaskRef} (ht : t ∈ s.staticPool)
    (hu : u ∈ s.staticPool) (h : s.taskId t = s.taskId u) : t = u := by
  have hlookup := hs.pool_static t ht
  rw [h, hs.pool_static u hu] at hlookup
  exact (Option.some.inj hlookup).symm

/-- The pool helpers keep `Inv` given its pool fields at the result. -/
theorem Inv.of_poolOnly (hs : Inv s) (hp : PoolOnly s s')
    (hI : Indexed s'.staticPool s'.index)
    (hT : ∀ t, Tracked s.staticPool s.index t → Tracked s'.staticPool s'.index t)
    (hmem : ∀ t ∈ s'.staticPool, t ∈ s.staticPool ∨
      (s.static.lookup (s.taskId t) = some t ∧ s.taskId t ∉ s.dialing)) : Inv s' where
  toTasksInv := hs.toTasksInv.of_poolOnly hp
  indexed := hI
  tracked id t ht := hT t (hs.tracked id t (hp.static ▸ ht))
  pool_static t ht := by
    rw [hp.static, hp.taskId]
    rcases hmem t ht with ht | ⟨hkey, -⟩
    · exact hs.pool_static t ht
    · exact hkey
  pool_ready t ht := by
    rw [hp.dialing, hp.taskId]
    rcases hmem t ht with ht | ⟨-, hready⟩
    · exact hs.pool_ready t ht
    · exact hready

/-- Adding a static task whose node may be dialed keeps `Inv`. -/
theorem Inv.addToStaticPool (hs : Inv s) {task : TaskRef}
    (hstatic : s.static.lookup (s.taskId task) = some task) (hready : s.taskId task ∉ s.dialing)
    (h : s.addToStaticPool task = .ok s') : Inv s' := by
  obtain ⟨hneg, hp, hpool, hindex⟩ := addToStaticPool_ok h
  refine hs.of_poolOnly hp ?_ ?_ ?_
  · rw [hpool, hindex]
    exact hs.indexed.push (hs.notMem_pool_of_index_neg hneg)
  · intro t ht
    rw [hpool, hindex]
    exact ht.push
  · intro t ht
    rw [hpool] at ht
    rcases List.mem_append.mp ht with ht | ht
    · exact .inl ht
    · rw [List.mem_singleton.mp ht]
      exact .inr ⟨hstatic, hready⟩

theorem Inv.updateStaticPool (hs : Inv s) {id : ID} (h : updateStaticPool cfg s id = .ok s') :
    Inv s' := by
  rcases updateStaticPool_cases cfg h with rfl | ⟨task, htask, -, hcheck, hadd⟩
  · exact hs
  · -- the task is filed under the node it dials, and `checkDial` passed on it
    have hkey := hs.static_key id task htask
    refine hs.addToStaticPool (by rw [hkey]; exact htask) ?_ hadd
    exact notMem_dialing_of_checkDial cfg hcheck

/-- Swap-removal takes out the member at `idx` and nothing else. -/
theorem mem_removeFromStaticPool (hI : Indexed s.staticPool s.index) {idx : ℤ} {t : TaskRef}
    (h : s.removeFromStaticPool idx = .ok s') :
    t ∈ s'.staticPool ↔ t ∈ s.staticPool ∧ s.staticPool[idx.toNat]? ≠ some t := by
  obtain ⟨hlt, -, -, hpool, -⟩ := removeFromStaticPool_ok h
  rw [hpool, mem_swapRemove hI hlt, List.getElem?_eq_getElem hlt]
  simp only [ne_eq, Option.some.injEq]
  exact and_congr_right fun _ => not_congr eq_comm

theorem Inv.removeFromStaticPool (hs : Inv s) {idx : ℤ} (h : s.removeFromStaticPool idx = .ok s') :
    Inv s' := by
  obtain ⟨hlt, -, hp, hpool, hindex⟩ := removeFromStaticPool_ok h
  refine hs.of_poolOnly hp ?_ ?_ ?_
  · rw [hpool, hindex]
    exact hs.indexed.swapRemove hlt
  · intro t ht
    rw [hpool, hindex]
    exact ht.swapRemove hs.indexed hlt
  · intro t ht
    exact .inl ((mem_removeFromStaticPool hs.indexed h).mp ht).1

/-- Erasing a static entry whose task is out of the pool keeps `Inv`. -/
theorem Inv.eraseStatic (hs : Inv s) {id : ID}
    (hout : ∀ t, s.static.lookup id = some t → t ∉ s.staticPool) :
    Inv { s with static := s.static.erase id } := by
  have hlookup : ∀ id' t, (s.static.erase id).lookup id' = some t → s.static.lookup id' = some t := by
    intro id' t ht
    by_cases hid : id' = id
    · rw [hid, Finmap.lookup_erase] at ht
      cases ht
    · rwa [Finmap.lookup_erase_ne hid] at ht
  refine ⟨⟨?_, hs.running_nodup, hs.dialing_iff, hs.running_lt, ?_⟩, hs.indexed, ?_, ?_, hs.pool_ready⟩
  · exact fun id' t ht => hs.static_key id' t (hlookup id' t ht)
  · exact fun id' t ht => hs.static_lt id' t (hlookup id' t ht)
  · exact fun id' t ht => hs.tracked id' t (hlookup id' t ht)
  · -- a task left in the pool is filed under another node
    intro t ht
    have hkey := hs.pool_static t ht
    have hne : s.taskId t ≠ id := fun hid => hout t (hid ▸ hkey) ht
    show (s.static.erase id).lookup (s.taskId t) = some t
    rw [Finmap.lookup_erase_ne hne]
    exact hkey

/-- Filing a fresh, unpooled task under a node the static map lacks keeps
`Inv`. -/
theorem Inv.insertStatic (hs : Inv s) {id : ID} {r : TaskRef} (hfresh : id ∉ s.static)
    (hkey : s.taskId r = id) (hidx : s.index r = -1) (hlt : r < s.nextTask) :
    Inv { s with static := s.static.insert id r } := by
  have hlookup : ∀ id' t, (s.static.insert id r).lookup id' = some t →
      (id' = id ∧ t = r) ∨ s.static.lookup id' = some t := by
    intro id' t ht
    by_cases hid : id' = id
    · rw [hid, Finmap.lookup_insert] at ht
      exact .inl ⟨hid, (Option.some.inj ht).symm⟩
    · rw [Finmap.lookup_insert_of_ne _ hid] at ht
      exact .inr ht
  refine ⟨⟨?_, hs.running_nodup, hs.dialing_iff, hs.running_lt, ?_⟩, hs.indexed, ?_, ?_, hs.pool_ready⟩
  · intro id' t ht
    rcases hlookup id' t ht with ⟨rfl, rfl⟩ | ht
    · exact hkey
    · exact hs.static_key id' t ht
  · intro id' t ht
    rcases hlookup id' t ht with ⟨-, rfl⟩ | ht
    · exact hlt
    · exact hs.static_lt id' t ht
  · intro id' t ht
    rcases hlookup id' t ht with ⟨-, rfl⟩ | ht
    · exact .inl hidx
    · exact hs.tracked id' t ht
  · -- the pool's tasks are filed under other nodes
    intro t ht
    have hkey' := hs.pool_static t ht
    have hne : s.taskId t ≠ id := fun hid => hfresh (hid ▸ Finmap.mem_of_lookup_eq_some hkey')
    show (s.static.insert id r).lookup (s.taskId t) = some t
    rw [Finmap.lookup_insert_of_ne _ hne]
    exact hkey'

/-- A new task takes a reference nothing holds yet. -/
theorem Inv.newDialTask (hs : Inv s) (dest : Node ID IP) (flags : ConnFlag) :
    Inv (s.newDialTask dest flags).1 := by
  have hpool_lt : ∀ t ∈ s.staticPool, t < s.nextTask :=
    fun t ht => hs.static_lt _ t (hs.pool_static t ht)
  have hindex : ∀ t < s.nextTask, (s.newDialTask dest flags).1.index t = s.index t := by
    intro t ht
    rw [index_newDialTask, Function.update_of_ne (Nat.ne_of_lt ht)]
  have hid : ∀ t < s.nextTask, (s.newDialTask dest flags).1.taskId t = s.taskId t := by
    intro t ht
    rw [taskId_newDialTask, Function.update_of_ne (Nat.ne_of_lt ht)]
  refine ⟨hs.toTasksInv.newDialTask dest flags, ?_, ?_, ?_, ?_⟩
  · intro i hi
    rw [hindex _ (hpool_lt _ (List.getElem_mem hi))]
    exact hs.indexed i hi
  · intro id t ht
    rcases hs.tracked id t ht with h | h
    · exact .inl ((hindex t (hs.static_lt id t ht)).trans h)
    · exact .inr h
  · intro t ht
    rw [hid t (hpool_lt t ht)]
    exact hs.pool_static t ht
  · intro t ht
    rw [hid t (hpool_lt t ht)]
    exact hs.pool_ready t ht

/-- `startDial` of a task that the pool does not share a node with. -/
theorem Inv.startDial (hs : Inv s) {task : TaskRef} (now : AbsTime)
    (hid : s.taskId task ∉ s.dialing) (hlt : task < s.nextTask)
    (hpool : ∀ t ∈ s.staticPool, s.taskId t ≠ s.taskId task) : Inv (s.startDial now task) := by
  refine ⟨hs.toTasksInv.startDial now hid hlt, hs.indexed, hs.tracked, hs.pool_static, ?_⟩
  intro t ht
  simp only [startDial_taskId, startDial_dialing, Finmap.mem_insert, not_or]
  exact ⟨hpool t ht, hs.pool_ready t ht⟩

/-- One pass of `startStaticDials`: dial the task at `idx` and take it out of
the pool. -/
theorem Inv.startStaticDial (hs : Inv s) {idx : ℕ} (hidx : idx < s.staticPool.length)
    {now : AbsTime}
    (h : (s.startDial now (s.staticPool.get ⟨idx, hidx⟩)).removeFromStaticPool idx = .ok s') :
    Inv s' ∧ s'.staticPool.length = s.staticPool.length - 1 := by
  set task := s.staticPool.get ⟨idx, hidx⟩ with htask
  have hmem : task ∈ s.staticPool := List.get_mem _ _
  have hready := hs.pool_ready task hmem
  have hlt := hs.static_lt _ task (hs.pool_static task hmem)
  have hs₁ := hs.toTasksInv.startDial now hready hlt
  obtain ⟨hlt', -, hp, hpool, hindex⟩ := removeFromStaticPool_ok h
  simp only [startDial_staticPool, startDial_index, Int.toNat_natCast] at hlt' hpool hindex
  -- what is left in the pool is the pool without `task`
  have hrest : ∀ t ∈ s'.staticPool, t ∈ s.staticPool ∧ t ≠ task := by
    intro t ht
    rw [hpool, mem_swapRemove hs.indexed hlt'] at ht
    exact ht
  refine ⟨⟨hs₁.of_poolOnly hp, ?_, ?_, ?_, ?_⟩, ?_⟩
  · rw [hpool, hindex]
    exact hs.indexed.swapRemove hlt'
  · intro id t ht
    rw [hp.static] at ht
    rw [hpool, hindex]
    exact (hs.tracked id t ht).swapRemove hs.indexed hlt'
  · intro t ht
    rw [hp.static, hp.taskId]
    exact hs.pool_static t (hrest t ht).1
  · -- the dialed node is `task`'s, and no other task of the pool dials it
    intro t ht
    obtain ⟨ht, hne⟩ := hrest t ht
    rw [hp.dialing, hp.taskId]
    simp only [startDial_taskId, startDial_dialing, Finmap.mem_insert, not_or]
    exact ⟨fun heq => hne (hs.pool_taskId_inj ht hmem heq), hs.pool_ready t ht⟩
  · rw [hpool]
    exact length_swapRemove hlt'

/-- **The loop of `startStaticDials`** keeps `Inv`, and stops with slots left
only once the pool is empty. -/
theorem Inv.startStaticDialsLoop {now : AbsTime} {draw : ℕ → ℕ} {n : ℤ} :
    ∀ {fuel started started' : ℕ} {s s' : DialScheduler ID IP}, Inv s →
      s.staticPool.length ≤ fuel →
      startStaticDialsLoop now draw n fuel started s = .ok (s', started') →
      Inv s' ∧ (n ≤ started' ∨ s'.staticPool = [])
  | 0, started, started', s, s', hs, hfuel, h => by
    cases h
    exact ⟨hs, .inr (List.eq_nil_of_length_eq_zero (Nat.le_zero.mp hfuel))⟩
  | fuel + 1, started, started', s, s', hs, hfuel, h => by
    unfold DialScheduler.startStaticDialsLoop at h
    dsimp only at h
    split at h
    · rename_i hgo
      split at h
      · -- one dial, and the pool is one shorter
        rename_i s₁ hrem
        obtain ⟨hs₁, hlen⟩ := hs.startStaticDial (Nat.mod_lt _ hgo.2) hrem
        exact Inv.startStaticDialsLoop hs₁ (by omega) h
      · cases h
    · -- out of dials to start, or out of tasks
      rename_i hstop
      cases h
      refine ⟨hs, ?_⟩
      rcases not_and_or.mp hstop with hn | hempty
      · exact .inl (not_lt.mp hn)
      · exact .inr (List.eq_nil_of_length_eq_zero (by omega))

theorem Inv.startStaticDials (hs : Inv s) {now : AbsTime} {draw : ℕ → ℕ} {n : ℤ}
    {started : ℕ} (h : s.startStaticDials now draw n = .ok (s', started)) :
    Inv s' ∧ (n ≤ started ∨ s'.staticPool = []) :=
  hs.startStaticDialsLoop le_rfl h

theorem Inv.expireLoop {now : AbsTime} :
    ∀ {fuel : ℕ} {s s' : DialScheduler ID IP}, Inv s → expireLoop cfg now fuel s = .ok s' → Inv s'
  | 0, s, s', hs, h => by
    cases h
    exact hs
  | fuel + 1, s, s', hs, h => by
    unfold DialScheduler.expireLoop at h
    split at h
    · split_ifs at h
      · split at h
        · -- the popped node may go back into the pool; the history is not in `Inv`
          rename_i s₁ hupd
          exact Inv.expireLoop ((hs.withHistory _).updateStaticPool hupd) h
        · cases h
      · cases h
        exact hs
    · cases h
      exact hs

/-- `done`: the finished task leaves `running` and its node leaves `dialing`;
its run may have resolved a new endpoint, for the same node. -/
theorem Inv.done (hs : Inv s) {task : TaskRef} {dest : Node ID IP} (hrun : task ∈ s.running)
    (hdest : dest.id = s.taskId task) :
    Inv { s with tasks := Function.update s.tasks task { s.tasks task with dest },
                 running := s.running.erase task,
                 dialing := s.dialing.erase (s.taskId task) } := by
  set s₁ : DialScheduler ID IP :=
    { s with tasks := Function.update s.tasks task { s.tasks task with dest },
             running := s.running.erase task,
             dialing := s.dialing.erase (s.taskId task) } with hs₁
  have hid : s₁.taskId = s.taskId := by
    funext t
    by_cases ht : t = task
    · subst ht
      simp [s₁, taskId, hdest]
    · simp [s₁, taskId, Function.update_of_ne ht]
  have hindex : s₁.index = s.index := by
    funext t
    by_cases ht : t = task
    · subst ht
      simp [s₁, index]
    · simp [s₁, index, Function.update_of_ne ht]
  have hnodup : s.running.Nodup := hs.running_nodup.of_map _
  -- the running tasks dial distinct nodes, so `task` is the only one dialing its node
  have hinj := List.inj_on_of_nodup_map hs.running_nodup
  have hmem : ∀ t, t ∈ s₁.running ↔ t ≠ task ∧ t ∈ s.running := fun t => hnodup.mem_erase_iff
  refine ⟨⟨?_, ?_, ?_, ?_, ?_⟩, ?_, ?_, ?_, ?_⟩
  · rw [hid]
    exact hs.static_key
  · rw [hid]
    exact hs.running_nodup.sublist (List.erase_sublist.map _)
  · intro id t
    rw [hid, hmem]
    by_cases hid' : id = s.taskId task
    · subst hid'
      simp only [s₁, Finmap.lookup_erase, reduceCtorEq, false_iff, not_and]
      rintro ⟨hne, hrun'⟩ heq
      exact hne (hinj hrun' hrun heq)
    · simp only [s₁, Finmap.lookup_erase_ne hid', hs.dialing_iff]
      constructor
      · rintro ⟨hrun', rfl⟩
        exact ⟨⟨fun heq => hid' (by rw [heq]), hrun'⟩, rfl⟩
      · rintro ⟨⟨-, hrun'⟩, hkey⟩
        exact ⟨hrun', hkey⟩
  · exact fun t ht => hs.running_lt t ((hmem t).mp ht).2
  · exact hs.static_lt
  · rw [hindex]
    exact hs.indexed
  · rw [hindex]
    exact hs.tracked
  · rw [hid]
    exact hs.pool_static
  · rw [hid]
    intro t ht hdial
    exact hs.pool_ready t ht (Finmap.mem_erase.mp hdial).2

/-- **One event of the `select`** keeps `Inv`.  A discovered node is handled
only with slots left, so after the static dials the pool is empty. -/
theorem Inv.handle (hs : Inv s) {now : AbsTime} {slots : ℤ} {ev : Event ID IP}
    (henabled : s.Enabled slots ev) (hdrained : 0 < slots → s.staticPool = [])
    (h : handle cfg now ev s = .ok s') : Inv s' := by
  cases ev with
  | nodeIn node =>
    rcases handle_nodeIn h with rfl | ⟨hcheck, rfl⟩
    · exact hs
    · have hs₁ := hs.newDialTask node dynDialedConn
      refine hs₁.startDial now ?_ (Nat.lt_succ_self _) ?_
      · rw [taskId_newDialTask, Function.update_self]
        exact notMem_dialing_of_checkDial cfg hcheck
      · -- the static dials emptied the pool
        intro t ht
        change t ∈ s.staticPool at ht
        rw [hdrained henabled] at ht
        cases ht
  | done task dest =>
    obtain ⟨hrun, hdest⟩ := henabled
    simp only [DialScheduler.handle] at h
    refine Inv.updateStaticPool ?_ h
    have hid : (Function.update s.tasks task { s.tasks task with dest } task).dest.id =
        s.taskId task := by
      simp [hdest]
    simp only [taskId, hid]
    exact hs.done hrun hdest
  | addPeer c =>
    -- `Inv` does not read the peers
    rcases handle_addPeer h with rfl | ⟨idx, hrem⟩
    · exact hs.withPeers _ _
    · exact (hs.withPeers _ _).removeFromStaticPool hrem
  | remPeer c =>
    exact (hs.withPeers _ _).updateStaticPool (handle_remPeer h)
  | addStatic node =>
    have hkey : (s.newDialTask node staticDialedConn).1.taskId s.nextTask = node.id := by
      rw [taskId_newDialTask, Function.update_self]
    have hidx : (s.newDialTask node staticDialedConn).1.index s.nextTask = -1 := by
      rw [index_newDialTask, Function.update_self]
    rcases handle_addStatic h with ⟨-, rfl⟩ | ⟨hfresh, rfl | ⟨hcheck, hadd⟩⟩
    · exact hs
    · exact (hs.newDialTask node staticDialedConn).insertStatic hfresh hkey hidx
        (Nat.lt_succ_self _)
    · -- the new task is filed under its node, and may be dialed
      have hs₁ := (hs.newDialTask node staticDialedConn).insertStatic hfresh hkey hidx
        (Nat.lt_succ_self _)
      refine hs₁.addToStaticPool ?_ ?_ hadd
      · change (s.static.insert node.id s.nextTask).lookup
          ((s.newDialTask node staticDialedConn).1.taskId s.nextTask) = some s.nextTask
        rw [hkey, Finmap.lookup_insert]
      · change (s.newDialTask node staticDialedConn).1.taskId s.nextTask ∉ s.dialing
        rw [hkey]
        exact notMem_dialing_of_checkDial cfg hcheck
  | remStatic node =>
    rcases handle_remStatic h with ⟨-, rfl⟩ | ⟨task, htask, ⟨hidx, rfl⟩ | ⟨s₂, hrem, rfl⟩⟩
    · exact hs
    · exact hs.eraseStatic fun t ht => by
        rw [htask] at ht
        cases ht
        exact hs.notMem_pool_of_index_neg hidx
    · -- the task leaves the pool, then the static map
      obtain ⟨-, -, hp, -, -⟩ := removeFromStaticPool_ok hrem
      have hin : task ∈ s.staticPool := by
        rcases hs.tracked _ task htask with hneg | hin
        · rw [hneg] at hrem
          cases hrem
        · exact hin
      obtain ⟨hlt, -, hget⟩ := hs.indexed.getElem_index hin
      have hnot : task ∉ s₂.staticPool := by
        rw [mem_removeFromStaticPool hs.indexed hrem, List.getElem?_eq_getElem hlt, hget]
        exact fun h => h.2 rfl
      have hs₂ : Inv { s₂ with static := s₂.static.erase node.id } :=
        (hs.removeFromStaticPool hrem).eraseStatic fun t ht => by
          rw [hp.static, htask] at ht
          cases ht
          exact hnot
      rwa [hp.static] at hs₂
  | historyExp now' =>
    exact hs.expireLoop h

/-- **A pass of `loop`** keeps `Inv`: the static dials, then one event. -/
theorem Inv.step {allowed : DialScheduler ID IP → Event ID IP → Prop} (hs : Inv s)
    (h : Step cfg allowed s s') : Inv s' := by
  rcases h with ⟨now, draw, ev, hstart, henabled, -, hev⟩
  obtain ⟨hs₁, hdrained⟩ := hs.startStaticDials hstart
  refine hs₁.handle henabled ?_ hev
  intro hslots
  rcases hdrained with hn | hempty
  · omega
  · exact hempty

theorem Reachable.inv {allowed : DialScheduler ID IP → Event ID IP → Prop}
    (h : Reachable cfg allowed s) : Inv s := by
  induction h with
  | start => exact inv_newDialScheduler _
  | step _ hstep ih => exact ih.step hstep

end Lemmas

/-! ### No panics -/

section Progress

variable {s : DialScheduler ID IP}

/-- The static dials never panic: each takes a position inside the pool. -/
theorem startStaticDialsLoop_ok (now : AbsTime) (draw : ℕ → ℕ) (n : ℤ) :
    ∀ (fuel started : ℕ) (s : DialScheduler ID IP),
      ∃ r, startStaticDialsLoop now draw n fuel started s = .ok r
  | 0, started, s => ⟨_, rfl⟩
  | fuel + 1, started, s => by
    unfold DialScheduler.startStaticDialsLoop
    dsimp only
    split
    · rename_i hgo
      obtain ⟨s₁, hrem⟩ := removeFromStaticPool_of_lt (s := s.startDial now _)
        (Int.natCast_nonneg _) (by simpa using Nat.mod_lt (draw started) hgo.2)
      rw [hrem]
      exact startStaticDialsLoop_ok now draw n fuel (started + 1) s₁
    · exact ⟨_, rfl⟩

theorem expireLoop_ok (now : AbsTime) :
    ∀ (fuel : ℕ) (s : DialScheduler ID IP), ∃ s', expireLoop cfg now fuel s = .ok s'
  | 0, s => ⟨_, rfl⟩
  | fuel + 1, s => by
    unfold DialScheduler.expireLoop
    split
    · split_ifs
      · obtain ⟨s₁, hupd⟩ := updateStaticPool_ok cfg { s with history := _ } _
        rw [hupd]
        exact expireLoop_ok now fuel s₁
      · exact ⟨_, rfl⟩
    · exact ⟨_, rfl⟩

/-- A static task with a nonnegative index sits at it: the pool removals of
`addPeer` and `remStatic` stay inside the pool. -/
theorem Inv.removeFromStaticPool_ok (hs : Inv s) {id : ID} {task : TaskRef}
    (htask : s.static.lookup id = some task) (hidx : 0 ≤ s.index task) :
    ∃ s', s.removeFromStaticPool (s.index task) = .ok s' := by
  have hin : task ∈ s.staticPool := (hs.tracked id task htask).resolve_left (by omega)
  obtain ⟨hlt, -, -⟩ := hs.indexed.getElem_index hin
  exact removeFromStaticPool_of_lt hidx hlt

/-- **No event panics** from a state that satisfies `Inv`: neither "attempt to
add task to staticPool twice" nor "index out of range". -/
theorem Inv.handle_ok (hs : Inv s) (now : AbsTime) (ev : Event ID IP) :
    ∃ s', DialScheduler.handle cfg now ev s = .ok s' := by
  cases ev with
  | nodeIn node =>
    simp only [DialScheduler.handle]
    split
    · exact ⟨_, rfl⟩
    · exact ⟨_, rfl⟩
  | done task dest =>
    exact updateStaticPool_ok cfg _ _
  | addPeer c =>
    simp only [DialScheduler.handle]
    generalize (if (c.is dynDialedConn || c.is staticDialedConn) = true then s.dialPeers + 1
      else s.dialPeers) = d
    split
    · rename_i task htask
      split_ifs with hidx
      · exact (hs.withPeers _ _).removeFromStaticPool_ok htask hidx
      · exact ⟨_, rfl⟩
    · exact ⟨_, rfl⟩
  | remPeer c =>
    exact updateStaticPool_ok cfg _ _
  | addStatic node =>
    simp only [DialScheduler.handle]
    split_ifs with hin hcheck
    · exact ⟨_, rfl⟩
    · -- the new task's index is `-1`
      refine addToStaticPool_of_neg ?_
      change (s.newDialTask node staticDialedConn).1.index s.nextTask < 0
      rw [index_newDialTask, Function.update_self]
      omega
    · exact ⟨_, rfl⟩
  | remStatic node =>
    simp only [DialScheduler.handle]
    split
    · rename_i task htask
      split_ifs with hidx
      · obtain ⟨s₂, hrem⟩ := hs.removeFromStaticPool_ok htask hidx
        refine ⟨{ s₂ with static := s.static.erase node.id }, ?_⟩
        rw [removeFromStaticPool_withStatic]
        change Except.map _ (s.removeFromStaticPool (s.index task)) = _
        rw [hrem]
        rfl
      · exact ⟨_, rfl⟩
    · exact ⟨_, rfl⟩
  | historyExp now' =>
    exact expireLoop_ok cfg now' _ _

/-- **`loop` never panics** in a reachable state: whatever the clock, the
draws and the event, the static dials and the event both succeed. -/
theorem Reachable.no_panic {allowed : DialScheduler ID IP → Event ID IP → Prop}
    (h : Reachable cfg allowed s) (now : AbsTime) (draw : ℕ → ℕ) (ev : Event ID IP) :
    ∃ s₁ started s', s.startStaticDials now draw (freeDialSlots cfg s) = .ok (s₁, started) ∧
      handle cfg now ev s₁ = .ok s' := by
  obtain ⟨⟨s₁, started⟩, hstart⟩ :=
    startStaticDialsLoop_ok now draw (freeDialSlots cfg s) s.staticPool.length 0 s
  obtain ⟨s', hev⟩ := ((h.inv).startStaticDials hstart).1.handle_ok cfg now ev
  exact ⟨s₁, started, s', hstart, hev⟩

end Progress

/-! ### The dialed-peer counter -/

/-- `c.is(dynDialedConn) || c.is(staticDialedConn)`, on a peer's flags. -/
def dialedFlags (f : ConnFlag) : Bool := f &&& dynDialedConn != 0 || f &&& staticDialedConn != 0

/-- The connected peers whose flags say they were dialed. -/
def dialedPeerCount (s : DialScheduler ID IP) : ℕ := countBy dialedFlags s.peers

/-- What `Server` guarantees of the peer events: `peerAdded` only for a node
that is not connected (`addPeerChecks` refuses it with `DiscAlreadyConnected`),
and `peerRemoved` only with the connection that was added. -/
def PeerLegal (s : DialScheduler ID IP) : Event ID IP → Prop
  | .addPeer c => c.node.id ∉ s.peers
  | .remPeer c => s.peers.lookup c.node.id = some c.flags
  | _ => True

section Peers

variable {cfg} {s s' : DialScheduler ID IP}

/-- `s'` has the peers and the counter of `s`. -/
def SamePeers (s s' : DialScheduler ID IP) : Prop := s'.peers = s.peers ∧ s'.dialPeers = s.dialPeers

theorem PoolOnly.samePeers (h : PoolOnly s s') : SamePeers s s' := ⟨h.peers, h.dialPeers⟩

theorem SamePeers.dialPeers_eq (h : SamePeers s s') (hc : s.dialPeers = dialedPeerCount s) :
    s'.dialPeers = dialedPeerCount s' := by
  unfold dialedPeerCount
  rw [h.1, h.2]
  exact hc

theorem samePeers_startStaticDialsLoop {now : AbsTime} {draw : ℕ → ℕ} {n : ℤ} :
    ∀ {fuel started started' : ℕ} {s s' : DialScheduler ID IP},
      startStaticDialsLoop now draw n fuel started s = .ok (s', started') → SamePeers s s'
  | 0, started, started', s, s', h => by
    cases h
    exact ⟨rfl, rfl⟩
  | fuel + 1, started, started', s, s', h => by
    unfold DialScheduler.startStaticDialsLoop at h
    dsimp only at h
    split at h
    · split at h
      · -- `startDial` and the pool removal leave the peers alone
        rename_i s₁ hrem
        have hp := (removeFromStaticPool_ok hrem).2.2.1
        obtain ⟨hpeers, hdial⟩ := samePeers_startStaticDialsLoop h
        exact ⟨hpeers.trans hp.peers, hdial.trans hp.dialPeers⟩
      · cases h
    · cases h
      exact ⟨rfl, rfl⟩

theorem samePeers_expireLoop {now : AbsTime} :
    ∀ {fuel : ℕ} {s s' : DialScheduler ID IP}, expireLoop cfg now fuel s = .ok s' → SamePeers s s'
  | 0, s, s', h => by
    cases h
    exact ⟨rfl, rfl⟩
  | fuel + 1, s, s', h => by
    unfold DialScheduler.expireLoop at h
    split at h
    · split_ifs at h
      · split at h
        · rename_i s₁ hupd
          have hp := updateStaticPool_poolOnly cfg hupd
          obtain ⟨hpeers, hdial⟩ := samePeers_expireLoop h
          exact ⟨hpeers.trans hp.peers, hdial.trans hp.dialPeers⟩
        · cases h
      · cases h
        exact ⟨rfl, rfl⟩
    · cases h
      exact ⟨rfl, rfl⟩

/-- **One event** keeps `dialPeers` equal to the count, when it is legal. -/
theorem dialPeers_handle {now : AbsTime} {ev : Event ID IP}
    (hc : s.dialPeers = dialedPeerCount s) (hlegal : PeerLegal s ev)
    (h : handle cfg now ev s = .ok s') : s'.dialPeers = dialedPeerCount s' := by
  cases ev with
  | nodeIn node =>
    rcases handle_nodeIn h with rfl | ⟨-, rfl⟩
    · exact hc
    · exact hc
  | done task dest =>
    simp only [DialScheduler.handle] at h
    exact (updateStaticPool_poolOnly cfg h).samePeers.dialPeers_eq hc
  | addPeer c =>
    -- a new connection, counted once if it was dialed
    have hcount : dialedPeerCount { s with peers := s.peers.insert c.node.id c.flags } =
        dialedPeerCount s + if dialedFlags c.flags then 1 else 0 :=
      countBy_insert_of_notMem c.flags hlegal
    have hs₁ : (if c.is dynDialedConn || c.is staticDialedConn then s.dialPeers + 1
        else s.dialPeers) = dialedPeerCount { s with peers := s.peers.insert c.node.id c.flags } := by
      rw [hcount]
      change (if dialedFlags c.flags then s.dialPeers + 1 else s.dialPeers) = _
      cases dialedFlags c.flags
      · simp [hc]
      · simp [hc]
    rcases handle_addPeer h with rfl | ⟨idx, hrem⟩
    · exact hs₁
    · exact (removeFromStaticPool_ok hrem).2.2.1.samePeers.dialPeers_eq hs₁
  | remPeer c =>
    -- the connection leaves, uncounted if it was dialed
    have hcount : dialedPeerCount { s with peers := s.peers.erase c.node.id } +
        (if dialedFlags c.flags then 1 else 0) = dialedPeerCount s :=
      countBy_erase_of_lookup hlegal
    have hs₁ : (if c.is dynDialedConn || c.is staticDialedConn then s.dialPeers - 1
        else s.dialPeers) = dialedPeerCount { s with peers := s.peers.erase c.node.id } := by
      change (if dialedFlags c.flags then s.dialPeers - 1 else s.dialPeers) = _
      cases hb : dialedFlags c.flags
      · simp only [hb, Bool.false_eq_true, if_false, Nat.add_zero] at hcount ⊢
        omega
      · simp only [hb, if_true] at hcount ⊢
        omega
    exact (updateStaticPool_poolOnly cfg (handle_remPeer h)).samePeers.dialPeers_eq hs₁
  | addStatic node =>
    rcases handle_addStatic h with ⟨-, rfl⟩ | ⟨-, rfl | ⟨-, hadd⟩⟩
    · exact hc
    · exact hc
    · exact (addToStaticPool_ok hadd).2.1.samePeers.dialPeers_eq hc
  | remStatic node =>
    rcases handle_remStatic h with ⟨-, rfl⟩ | ⟨task, -, ⟨-, rfl⟩ | ⟨s₂, hrem, rfl⟩⟩
    · exact hc
    · exact hc
    · exact (removeFromStaticPool_ok hrem).2.2.1.samePeers.dialPeers_eq hc
  | historyExp now' =>
    exact (samePeers_expireLoop h).dialPeers_eq hc

/-- **`dialPeers` counts the dialed peers** in every reachable state, while the
environment keeps to `PeerLegal`. -/
theorem Reachable.dialPeers_eq {allowed : DialScheduler ID IP → Event ID IP → Prop}
    (hlegal : ∀ s ev, allowed s ev → PeerLegal s ev) (h : Reachable cfg allowed s) :
    s.dialPeers = dialedPeerCount s := by
  induction h with
  | start => simp [dialedPeerCount, newDialScheduler]
  | step _ hstep ih =>
    rcases hstep with ⟨now, draw, ev, hstart, -, hallowed, hev⟩
    have h₁ := (samePeers_startStaticDialsLoop hstart).dialPeers_eq ih
    exact dialPeers_handle h₁ (hlegal _ _ hallowed) hev

end Peers

/-! ### The bookkeeping of `loop` -/

end DialScheduler

end RpcNetwork.P2p
