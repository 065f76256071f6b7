import Mathlib
import RpcNetwork.Les.ClientPool
import RpcNetwork.Lib.AListSum

/-!
# The capacity accounting of the client pool

`connectedCap` and `priorityConnected` are running totals that `clientPool`
keeps by hand.  This module states what they should be, the capacity of all
connected clients and of those with priority (in `uint64`, as Go adds), and
that the queue holds each connected client once.  Every call keeps that,
except the kicking branch of `setCapacity`: its `MultiPop` callback already
takes each kicked client's capacity out of `connectedCap`, and `dropClient`
takes it out again.
-/

namespace RpcNetwork.Les

variable {ID : Type}

/-- The capacity of the connected clients, summed in `uint64`. -/
def capacityTotal (m : AList fun _ : ID => Client) : UInt64 :=
  (m.entries.map fun e => e.2.capacity).sum

/-- The capacity of the connected clients with priority, summed in `uint64`. -/
def priorityTotal (m : AList fun _ : ID => Client) : UInt64 :=
  (m.entries.map fun e => if e.2.priority then e.2.capacity else 0).sum

section Totals

variable [DecidableEq ID]

/-- A client's term leaves the totals with it. -/
theorem capacityTotal_erase {m : AList fun _ : ID => Client} {id : ID} {c : Client}
    (h : m.lookup id = some c) : capacityTotal (m.erase id) = capacityTotal m - c.capacity := by
  rw [capacityTotal, capacityTotal, AList.sum_map_erase _ h]
  abel

theorem priorityTotal_erase {m : AList fun _ : ID => Client} {id : ID} {c : Client}
    (h : m.lookup id = some c) :
    priorityTotal (m.erase id) = priorityTotal m - if c.priority then c.capacity else 0 := by
  rw [priorityTotal, priorityTotal, AList.sum_map_erase _ h]
  abel

theorem capacityTotal_insert (m : AList fun _ : ID => Client) (id : ID) (c : Client) :
    capacityTotal (m.insert id c) = c.capacity + capacityTotal (m.erase id) :=
  AList.sum_map_insert _ m id c

theorem priorityTotal_insert (m : AList fun _ : ID => Client) (id : ID) (c : Client) :
    priorityTotal (m.insert id c) =
      (if c.priority then c.capacity else 0) + priorityTotal (m.erase id) :=
  AList.sum_map_insert _ m id c

theorem erase_of_lookup_eq_none {m : AList fun _ : ID => Client} {id : ID}
    (h : m.lookup id = none) : m.erase id = m := by
  apply AList.ext
  exact List.kerase_of_notMem_keys fun hk => AList.lookup_eq_none.mp h (AList.mem_keys.mpr hk)

/-- Replacing a client's entry moves the capacity total by the change of its
capacity. -/
theorem capacityTotal_insert_of_lookup {m : AList fun _ : ID => Client} {id : ID} {c : Client}
    (h : m.lookup id = some c) (e : Client) :
    capacityTotal (m.insert id e) = capacityTotal m + (e.capacity - c.capacity) := by
  rw [capacityTotal_insert, capacityTotal_erase h]
  abel

theorem priorityTotal_insert_of_lookup {m : AList fun _ : ID => Client} {id : ID} {c : Client}
    (h : m.lookup id = some c) (e : Client) :
    priorityTotal (m.insert id e) = priorityTotal m +
      ((if e.priority then e.capacity else 0) - if c.priority then c.capacity else 0) := by
  rw [priorityTotal_insert, priorityTotal_erase h]
  abel

/-- Replacing an entry keeps the keys, up to their order. -/
theorem keys_insert_perm {m : AList fun _ : ID => Client} {id : ID} (h : id ∈ m) (e : Client) :
    (m.insert id e).keys.Perm m.keys := by
  rw [AList.keys_insert]
  exact (List.perm_cons_erase (AList.mem_keys.mpr h)).symm

end Totals

namespace ClientPool

/-! ## The invariant -/

/-- The queue, followed by the clients popped and not yet dropped or pushed
back, holds each connected client once. -/
def Queued (f : ClientPool ID) (popped : List ID) : Prop :=
  (f.connectedQueue ++ popped).Perm f.connectedMap.keys

/-- **The accounting of the pool.**  The queue holds each connected client
once, and the two counters are the totals of their capacities. -/
structure Accounted (f : ClientPool ID) : Prop where
  /-- Each connected client is queued once. -/
  queued : f.Queued []
  /-- `connectedCap` is the capacity of the connected clients. -/
  connectedCap : f.connectedCap = capacityTotal f.connectedMap
  /-- `priorityConnected` is the capacity of those with priority. -/
  priorityConnected : f.priorityConnected = priorityTotal f.connectedMap

/-- How far `connectedCap` is from the capacity it counts. -/
def capDrift (f : ClientPool ID) : UInt64 :=
  f.connectedCap - capacityTotal f.connectedMap

/-- How far `priorityConnected` is from the capacity it counts. -/
def priorityDrift (f : ClientPool ID) : UInt64 :=
  f.priorityConnected - priorityTotal f.connectedMap

theorem Accounted.capDrift_eq {f : ClientPool ID} (hf : f.Accounted) : f.capDrift = 0 :=
  sub_eq_zero.mpr hf.connectedCap

theorem Accounted.priorityDrift_eq {f : ClientPool ID} (hf : f.Accounted) : f.priorityDrift = 0 :=
  sub_eq_zero.mpr hf.priorityConnected

theorem Accounted.of_drift {f : ClientPool ID} (hq : f.Queued []) (hcap : f.capDrift = 0)
    (hprio : f.priorityDrift = 0) : f.Accounted :=
  ⟨hq, sub_eq_zero.mp hcap, sub_eq_zero.mp hprio⟩

theorem Queued.nodup {f : ClientPool ID} {popped : List ID} (h : f.Queued popped) :
    (f.connectedQueue ++ popped).Nodup :=
  h.nodup_iff.mpr f.connectedMap.keys_nodup

theorem Queued.mem_keys {f : ClientPool ID} {popped : List ID} (h : f.Queued popped) {id : ID}
    (hid : id ∈ f.connectedQueue ++ popped) : id ∈ f.connectedMap :=
  AList.mem_keys.mpr (h.subset hid)

theorem accounted_newClientPool (freeClientCap : UInt64) :
    (newClientPool freeClientCap : ClientPool ID).Accounted where
  queued := List.Perm.refl _
  connectedCap := rfl
  priorityConnected := rfl

/-- **What each callback keeps, `MultiPop` keeps**, of the queue left and the
callback's state. -/
theorem multiPop_inv {σ : Type} {callback : σ → ID → List ID → σ × Bool}
    (I : List ID → σ → Prop) (step : ∀ c queue s, I (c :: queue) s → I queue (callback s c queue).1) :
    ∀ queue s, I queue s → I (multiPop callback queue s).1 (multiPop callback queue s).2
  | [], _, h => h
  | c :: queue, s, h => by
    have h' := step c queue s h
    rw [multiPop]
    rcases hcb : callback s c queue with ⟨s', more⟩
    rw [hcb] at h'
    cases more
    · exact h'
    · exact multiPop_inv I step queue s' h'

/-- `multiPop_inv`, for a result named by an equation. -/
theorem multiPop_inv_of_eq {σ : Type} {callback : σ → ID → List ID → σ × Bool}
    (I : List ID → σ → Prop) {queue : List ID} {s : σ} {r : List ID × σ}
    (hr : multiPop callback queue s = r)
    (step : ∀ c queue s, I (c :: queue) s → I queue (callback s c queue).1) (hs : I queue s) :
    I r.1 r.2 :=
  hr ▸ multiPop_inv I step queue s hs

/-! ## How a call moves the accounting -/

/-- **How a call moves the accounting**: the queue stays right, `priorityConnected`
keeps its drift, and `connectedCap` falls `kicked` further behind what it counts. -/
structure Moves (f : ClientPool ID) (kicked : UInt64) (f' : ClientPool ID) : Prop where
  queued : f'.Queued []
  capDrift : f'.capDrift = f.capDrift - kicked
  priorityDrift : f'.priorityDrift = f.priorityDrift

section Moves

variable {f : ClientPool ID}

theorem Moves.refl (hq : f.Queued []) : Moves f 0 f :=
  ⟨hq, (sub_zero _).symm, rfl⟩

theorem Moves.trans {g h : ClientPool ID} {a b : UInt64} (h₁ : Moves f a g) (h₂ : Moves g b h) :
    Moves f (a + b) h :=
  ⟨h₂.queued, by rw [h₂.capDrift, h₁.capDrift, sub_sub], h₂.priorityDrift.trans h₁.priorityDrift⟩

/-- Reordering the queue keeps it right. -/
theorem Queued.of_perm (hq : f.Queued []) {queue : List ID} (h : queue.Perm f.connectedQueue) :
    ({ f with connectedQueue := queue } : ClientPool ID).Queued [] := by
  have h' : (queue ++ []).Perm (f.connectedQueue ++ []) := by simpa using h
  exact h'.trans hq

/-- Raising `priorityConnected` raises its drift as much. -/
theorem priorityDrift_raise (δ : UInt64) :
    ({ f with priorityConnected := f.priorityConnected + δ } : ClientPool ID).priorityDrift =
      f.priorityDrift + δ := by
  show f.priorityConnected + δ - priorityTotal f.connectedMap = f.priorityDrift + δ
  rw [priorityDrift]
  abel

end Moves

/-! ## Dropping and registering clients -/

variable [DecidableEq ID]

section Drop

variable {f : ClientPool ID} {id : ID}

theorem dropClient_of_lookup {c : Client} (h : f.connectedMap.lookup id = some c) :
    f.dropClient id =
      { f with
        connectedQueue := f.connectedQueue.erase id
        connectedMap := f.connectedMap.erase id
        connectedCap := f.connectedCap - c.capacity
        priorityConnected := if c.priority then f.priorityConnected - c.capacity
          else f.priorityConnected } := by
  unfold dropClient
  rw [h]

theorem dropClient_of_lookup_eq_none (h : f.connectedMap.lookup id = none) : f.dropClient id = f := by
  unfold dropClient
  rw [h]

/-- `dropClient` takes the client out of the map. -/
@[simp] theorem connectedMap_dropClient : (f.dropClient id).connectedMap = f.connectedMap.erase id := by
  rcases h : f.connectedMap.lookup id with _ | c
  · rw [dropClient_of_lookup_eq_none h, erase_of_lookup_eq_none h]
  · rw [dropClient_of_lookup h]

/-- `dropClient` takes the client's capacity out of `connectedCap` and out of
what it counts alike. -/
@[simp] theorem capDrift_dropClient : (f.dropClient id).capDrift = f.capDrift := by
  rcases h : f.connectedMap.lookup id with _ | c
  · rw [dropClient_of_lookup_eq_none h]
  · rw [dropClient_of_lookup h]
    show f.connectedCap - c.capacity - capacityTotal (f.connectedMap.erase id) = f.capDrift
    rw [capacityTotal_erase h, capDrift]
    abel

@[simp] theorem priorityDrift_dropClient : (f.dropClient id).priorityDrift = f.priorityDrift := by
  rcases h : f.connectedMap.lookup id with _ | c
  · rw [dropClient_of_lookup_eq_none h]
  · rw [dropClient_of_lookup h]
    show (if c.priority then f.priorityConnected - c.capacity else f.priorityConnected) -
      priorityTotal (f.connectedMap.erase id) = f.priorityDrift
    rw [priorityTotal_erase h, priorityDrift]
    split_ifs <;> abel

/-- Dropping a client still queued keeps the queue right. -/
theorem Queued.dropClient_of_mem {popped : List ID} (hq : f.Queued popped)
    (hid : id ∈ f.connectedQueue) : (f.dropClient id).Queued popped := by
  obtain ⟨c, hc⟩ := Option.isSome_iff_exists.mp
    (AList.lookup_isSome.mpr (hq.mem_keys (List.mem_append_left _ hid)))
  rw [dropClient_of_lookup hc]
  have hnot : id ∉ popped := fun hp =>
    (List.nodup_append.mp hq.nodup).2.2 id hid id hp rfl
  show (f.connectedQueue.erase id ++ popped).Perm (f.connectedMap.erase id).keys
  rw [AList.keys_erase, ← List.erase_append_left popped hid]
  exact hq.erase id

/-- Dropping the first client popped keeps the queue right. -/
theorem Queued.dropClient_popped {popped : List ID} (hq : f.Queued (id :: popped)) :
    (f.dropClient id).Queued popped := by
  obtain ⟨c, hc⟩ := Option.isSome_iff_exists.mp
    (AList.lookup_isSome.mpr (hq.mem_keys (List.mem_append_right _ List.mem_cons_self)))
  rw [dropClient_of_lookup hc]
  have hnot : id ∉ f.connectedQueue := fun hid =>
    (List.nodup_append.mp hq.nodup).2.2 id hid id List.mem_cons_self rfl
  show (f.connectedQueue.erase id ++ popped).Perm (f.connectedMap.erase id).keys
  rw [AList.keys_erase, List.erase_of_not_mem hnot]
  have := hq.erase id
  rwa [List.erase_append_right _ hnot, List.erase_cons_head] at this

/-- Dropping the clients popped, in order, leaves the queue right. -/
theorem Queued.dropClients : ∀ {kickList : List ID} {f : ClientPool ID}, f.Queued kickList →
    (f.dropClients kickList).Queued []
  | [], _, hq => hq
  | k :: ks, f, hq => @Queued.dropClients ks (f.dropClient k) hq.dropClient_popped

@[simp] theorem capDrift_dropClients (kickList : List ID) :
    ∀ f : ClientPool ID, (f.dropClients kickList).capDrift = f.capDrift := by
  induction kickList with
  | nil => exact fun _ => rfl
  | cons k ks ih => exact fun f => (ih (f.dropClient k)).trans capDrift_dropClient

@[simp] theorem priorityDrift_dropClients (kickList : List ID) :
    ∀ f : ClientPool ID, (f.dropClients kickList).priorityDrift = f.priorityDrift := by
  induction kickList with
  | nil => exact fun _ => rfl
  | cons k ks ih => exact fun f => (ih (f.dropClient k)).trans priorityDrift_dropClient

/-- `dropClients` only takes clients out of the map. -/
theorem mem_of_mem_dropClients (kickList : List ID) :
    ∀ {f : ClientPool ID}, id ∈ (f.dropClients kickList).connectedMap → id ∈ f.connectedMap := by
  induction kickList with
  | nil => exact fun h => h
  | cons k ks ih =>
    intro f h
    have h' := ih h
    rw [connectedMap_dropClient, AList.mem_erase] at h'
    exact h'.2

end Drop

section Register

variable {f : ClientPool ID} {id : ID}

theorem capDrift_register (hid : id ∉ f.connectedMap) (e : Client) :
    (f.register id e).capDrift = f.capDrift := by
  show f.connectedCap + e.capacity - capacityTotal (f.connectedMap.insert id e) = f.capDrift
  rw [capacityTotal_insert, erase_of_lookup_eq_none (AList.lookup_eq_none.mpr hid), capDrift]
  abel

theorem priorityDrift_register (hid : id ∉ f.connectedMap) (e : Client) :
    (f.register id e).priorityDrift = f.priorityDrift := by
  show (if e.priority then f.priorityConnected + e.capacity else f.priorityConnected) -
    priorityTotal (f.connectedMap.insert id e) = f.priorityDrift
  rw [priorityTotal_insert, erase_of_lookup_eq_none (AList.lookup_eq_none.mpr hid), priorityDrift]
  split_ifs <;> abel

theorem Queued.register (hq : f.Queued []) (hid : id ∉ f.connectedMap) (e : Client) :
    (f.register id e).Queued [] := by
  have hq' : f.connectedQueue.Perm f.connectedMap.keys := by simpa [Queued] using hq
  show (f.connectedQueue ++ [id] ++ []).Perm (f.connectedMap.insert id e).keys
  rw [AList.keys_insert, List.erase_of_not_mem (fun h => hid (AList.mem_keys.mpr h)),
    List.append_nil]
  exact (List.perm_append_singleton id f.connectedQueue).trans (hq'.cons id)

theorem Accounted.register (hf : f.Accounted) (hid : id ∉ f.connectedMap) (e : Client) :
    (f.register id e).Accounted :=
  .of_drift (hf.queued.register hid e) (by rw [capDrift_register hid, hf.capDrift_eq])
    (by rw [priorityDrift_register hid, hf.priorityDrift_eq])

end Register

/-! ## What each call does to the accounting -/

section Calls

variable {f : ClientPool ID}

theorem moves_disconnect (hq : f.Queued []) (id : ID) : Moves f 0 (f.disconnect id) := by
  unfold disconnect
  split_ifs with hc hid
  · exact .refl hq
  · have hmem : id ∈ f.connectedQueue := by
      simpa using hq.symm.subset (AList.mem_keys.mpr hid)
    exact ⟨hq.dropClient_of_mem hmem, by rw [capDrift_dropClient, sub_zero],
      priorityDrift_dropClient⟩
  · exact .refl hq

theorem moves_balanceExhausted (hq : f.Queued []) (id : ID) :
    Moves f 0 (f.balanceExhausted id) := by
  unfold balanceExhausted
  rcases h : f.connectedMap.lookup id with _ | c
  · exact .refl hq
  have hmem : id ∈ f.connectedMap := AList.lookup_isSome.mp (by rw [h]; rfl)
  dsimp only
  by_cases hp : c.priority = true
  swap
  · rw [if_pos (by simpa using hp)]
    exact .refl hq
  rw [if_neg (by simp [hp])]
  split_ifs with hfree
  · -- the client falls back to the free capacity
    refine ⟨hq.trans (keys_insert_perm hmem _).symm, ?_, ?_⟩
    · show f.connectedCap + (f.freeClientCap - c.capacity) -
        capacityTotal (f.connectedMap.insert id ⟨f.freeClientCap, false⟩) = f.capDrift - 0
      rw [capacityTotal_insert_of_lookup h, capDrift]
      abel
    · show f.priorityConnected - c.capacity -
        priorityTotal (f.connectedMap.insert id ⟨f.freeClientCap, false⟩) = f.priorityDrift
      rw [priorityTotal_insert_of_lookup h, priorityDrift, hp]
      simp only [Bool.false_eq_true, if_false, if_true]
      abel
  · -- the client keeps its capacity and only loses its priority
    refine ⟨hq.trans (keys_insert_perm hmem _).symm, ?_, ?_⟩
    · show f.connectedCap - capacityTotal (f.connectedMap.insert id { c with priority := false }) =
        f.capDrift - 0
      rw [capacityTotal_insert_of_lookup h, capDrift]
      abel
    · show f.priorityConnected - c.capacity -
        priorityTotal (f.connectedMap.insert id { c with priority := false }) = f.priorityDrift
      rw [priorityTotal_insert_of_lookup h, priorityDrift, hp]
      simp only [Bool.false_eq_true, if_false, if_true]
      abel

theorem moves_setLimits (hq : f.Queued []) (totalConn : ℤ) (totalCap : UInt64) :
    Moves f 0 (f.setLimits totalConn totalCap) := by
  unfold setLimits
  dsimp only
  split_ifs
  · -- each pop drops one client; the invariant is the queue left against the map
    generalize hm : multiPop _ _ _ = m
    obtain ⟨hperm, hcap, hprio⟩ := multiPop_inv_of_eq (fun queue (g : ClientPool ID) =>
        queue.Perm g.connectedMap.keys ∧ g.capDrift = f.capDrift ∧
          g.priorityDrift = f.priorityDrift) hm
      (fun c queue g ⟨hg, hcap, hprio⟩ => by
        refine ⟨?_, capDrift_dropClient.trans hcap, priorityDrift_dropClient.trans hprio⟩
        have hg' := hg.erase c
        rw [List.erase_cons_head] at hg'
        show queue.Perm ({ g with connectedQueue := queue }.dropClient c).connectedMap.keys
        rw [connectedMap_dropClient, AList.keys_erase]
        exact hg')
      ⟨by simpa [Queued] using hq, rfl, rfl⟩
    exact ⟨by simpa [Queued] using hperm, by rw [sub_zero]; exact hcap, hprio⟩
  · exact ⟨hq, (sub_zero _).symm, rfl⟩

end Calls

/-! ## `connect` -/

/-- The clients `connect` pops are the head of the queue. -/
theorem popForConnect_append (f : ClientPool ID) (newCapacity : UInt64) (newCount : ℤ) :
    (f.popForConnect newCapacity newCount).2.1 ++ (f.popForConnect newCapacity newCount).1 =
      f.connectedQueue := by
  unfold popForConnect
  exact multiPop_inv (fun queue (st : List ID × UInt64 × ℤ) => st.1 ++ queue = f.connectedQueue)
    (fun c queue st h => by simpa using h) f.connectedQueue _ rfl

/-- **What `connect` can do**: refuse, refuse after pushing back what it
popped, register the client after kicking what it popped, or register it
straight away. -/
theorem connect_cases (f : ClientPool ID) (id : ID) (posBalance capacity : UInt64) (w : Bool) :
    (f.connect id posBalance capacity w).2 = f ∨
    (∃ a b, (f.connect id posBalance capacity w).2 =
      { f with connectedQueue := (f.popForConnect a b).1 ++ (f.popForConnect a b).2.1 }) ∨
    (id ∉ f.connectedMap ∧ ∃ a b e, (f.connect id posBalance capacity w).2 =
      ({ f with connectedQueue := (f.popForConnect a b).1 }.dropClients
        (f.popForConnect a b).2.1).register id e) ∨
    (id ∉ f.connectedMap ∧ ∃ e, (f.connect id posBalance capacity w).2 = f.register id e) := by
  unfold connect
  by_cases hc : f.closed = true
  · exact .inl (by rw [if_pos hc])
  by_cases hid : id ∈ f.connectedMap
  · exact .inl (by rw [if_neg hc, if_pos hid])
  rw [if_neg hc, if_neg hid]
  dsimp only
  generalize (if (!posBalance != 0 || capacity == 0) = true then f.freeClientCap else capacity) = cap
  split_ifs
  · exact .inr (.inl ⟨_, _, rfl⟩)
  · exact .inr (.inr (.inl ⟨hid, _, _, _, rfl⟩))
  · exact .inr (.inr (.inr ⟨hid, _, rfl⟩))

theorem moves_connect {f : ClientPool ID} (hq : f.Queued []) (id : ID) (posBalance capacity : UInt64)
    (w : Bool) : Moves f 0 (f.connect id posBalance capacity w).2 := by
  rcases connect_cases f id posBalance capacity w with
    h | ⟨a, b, h⟩ | ⟨hid, a, b, e, h⟩ | ⟨hid, e, h⟩ <;> rw [h]
  · exact .refl hq
  · -- refused: the popped clients are back in the queue
    have hperm : ((f.popForConnect a b).1 ++ (f.popForConnect a b).2.1).Perm f.connectedQueue :=
      List.perm_append_comm.trans (List.Perm.of_eq (popForConnect_append f a b))
    exact ⟨hq.of_perm hperm, (sub_zero _).symm, rfl⟩
  · -- accepted: the popped clients are kicked, then the newcomer registered
    have hpop : ({ f with connectedQueue := (f.popForConnect a b).1 } : ClientPool ID).Queued
        (f.popForConnect a b).2.1 := by
      have hq' : f.connectedQueue.Perm f.connectedMap.keys := by simpa [Queued] using hq
      exact List.perm_append_comm.trans ((popForConnect_append f a b).symm ▸ hq')
    have hid' : id ∉ ({ f with connectedQueue := (f.popForConnect a b).1 }.dropClients
        (f.popForConnect a b).2.1).connectedMap := fun hk => absurd (mem_of_mem_dropClients _ hk) hid
    refine ⟨hpop.dropClients.register hid' e, ?_, ?_⟩
    · rw [capDrift_register hid', capDrift_dropClients, sub_zero]
      rfl
    · rw [priorityDrift_register hid', priorityDrift_dropClients]
      rfl
  · exact ⟨hq.register hid e, by rw [capDrift_register hid, sub_zero], priorityDrift_register hid e⟩

/-! ## `setCapacity` -/

section SetCapacity

/-- The pool `setCapacity` works on once it has given the connected client
`id`, whose entry is `c`, the capacity `capacity`. -/
def withCapacity (f : ClientPool ID) (id : ID) (c : Client) (capacity : UInt64) : ClientPool ID :=
  { f with
    connectedMap := f.connectedMap.insert id { c with capacity }
    connectedCap := f.connectedCap + (capacity - c.capacity) }

/-- What `setCapacity id capacity` takes out of `connectedCap` a second time:
the capacity of the clients `MultiPop` popped, when it stopped before the
client itself; zero when the call kicks no one. -/
def kickedCapacity (f : ClientPool ID) (id : ID) (capacity : UInt64) : UInt64 :=
  match f.connectedMap.lookup id with
  | none => 0
  | some c =>
      let g := f.withCapacity id c capacity
      if c.capacity ≠ capacity ∧ c.priority ∧ g.connectedCap > g.capLimit ∧
          (g.popForCapacity id).2.2.2 then
        ((g.popForCapacity id).2.1.map g.capacityOf).sum
      else 0

/-- The clients `setCapacity` pops are the head of the queue. -/
theorem popForCapacity_append (f : ClientPool ID) (id : ID) :
    (f.popForCapacity id).2.1 ++ (f.popForCapacity id).1 = f.connectedQueue := by
  unfold popForCapacity
  exact multiPop_inv (fun queue (st : List ID × UInt64 × Bool) => st.1 ++ queue = f.connectedQueue)
    (fun c queue st h => by simpa using h) f.connectedQueue _ rfl

/-- `kick` stays set until the client itself is popped. -/
theorem popForCapacity_kick (f : ClientPool ID) (id : ID) :
    (f.popForCapacity id).2.2.2 = decide (id ∉ (f.popForCapacity id).2.1) := by
  unfold popForCapacity
  refine multiPop_inv (fun _ (st : List ID × UInt64 × Bool) => st.2.2 = decide (id ∉ st.1))
    (fun c queue st h => ?_) f.connectedQueue _ rfl
  dsimp only at h ⊢
  rw [h]
  by_cases hc : c = id
  · simp [hc]
  · simp [hc, Ne.symm hc]

/-- The callback has taken every popped client's capacity out of
`connectedCap`. -/
theorem popForCapacity_connectedCap (f : ClientPool ID) (id : ID) :
    (f.popForCapacity id).2.2.1 =
      f.connectedCap - ((f.popForCapacity id).2.1.map f.capacityOf).sum := by
  unfold popForCapacity
  refine multiPop_inv (fun _ (st : List ID × UInt64 × Bool) =>
      st.2.1 = f.connectedCap - (st.1.map f.capacityOf).sum)
    (fun c queue st h => ?_) f.connectedQueue _ (by simp)
  dsimp only at h ⊢
  rw [h, List.map_append, List.sum_append, sub_add_eq_sub_sub, List.map_singleton,
    List.sum_singleton]

/-- Pushing the popped clients back puts each one's capacity back into
`connectedCap` and each one at the end of the queue. -/
theorem foldl_pushBack (l : List ID) : ∀ H : ClientPool ID,
    l.foldl (fun f c => { f with
        connectedCap := f.connectedCap + f.capacityOf c
        connectedQueue := f.connectedQueue ++ [c] }) H =
      { H with
        connectedCap := H.connectedCap + (l.map H.capacityOf).sum
        connectedQueue := H.connectedQueue ++ l } := by
  induction l with
  | nil => intro H; simp
  | cons c l ih =>
    intro H
    rw [List.foldl_cons, ih]
    simp only [List.map_cons, List.sum_cons, List.append_assoc, List.singleton_append, add_assoc]
    -- pushing does not touch the map, so each capacity reads the same
    rfl

variable {f : ClientPool ID} {id : ID} {c : Client}

theorem Queued.withCapacity (hq : f.Queued []) (h : f.connectedMap.lookup id = some c)
    (capacity : UInt64) : (f.withCapacity id c capacity).Queued [] :=
  hq.trans (keys_insert_perm (AList.lookup_isSome.mp (by rw [h]; rfl)) _).symm

theorem capDrift_withCapacity (h : f.connectedMap.lookup id = some c) (capacity : UInt64) :
    (f.withCapacity id c capacity).capDrift = f.capDrift := by
  show f.connectedCap + (capacity - c.capacity) -
    capacityTotal (f.connectedMap.insert id { c with capacity }) = f.capDrift
  rw [capacityTotal_insert_of_lookup h, capDrift]
  abel

/-- The new capacity is in the priority total, not yet in `priorityConnected`. -/
theorem priorityDrift_withCapacity (h : f.connectedMap.lookup id = some c) (hp : c.priority = true)
    (capacity : UInt64) :
    (f.withCapacity id c capacity).priorityDrift + (capacity - c.capacity) = f.priorityDrift := by
  show f.priorityConnected - priorityTotal (f.connectedMap.insert id { c with capacity }) +
    (capacity - c.capacity) = f.priorityDrift
  rw [priorityTotal_insert_of_lookup h, priorityDrift]
  simp only [hp, if_true]
  abel

/-- **The kicking branch**: `dropClients` takes out of `connectedCap` again what
`MultiPop` already took out. -/
theorem moves_kick {g : ClientPool ID} (hq : g.Queued []) (id : ID) :
    Moves g ((g.popForCapacity id).2.1.map g.capacityOf).sum
      ({ g with
          connectedQueue := (g.popForCapacity id).1
          connectedCap := (g.popForCapacity id).2.2.1 }.dropClients (g.popForCapacity id).2.1) := by
  have hpop : ({ g with
      connectedQueue := (g.popForCapacity id).1
      connectedCap := (g.popForCapacity id).2.2.1 } : ClientPool ID).Queued
        (g.popForCapacity id).2.1 := by
    have hg : g.connectedQueue.Perm g.connectedMap.keys := by simpa [Queued] using hq
    exact List.perm_append_comm.trans ((popForCapacity_append g id).symm ▸ hg)
  refine ⟨hpop.dropClients, ?_, ?_⟩
  · rw [capDrift_dropClients]
    show (g.popForCapacity id).2.2.1 - capacityTotal g.connectedMap = g.capDrift - _
    rw [popForCapacity_connectedCap, capDrift]
    abel
  · rw [priorityDrift_dropClients]
    rfl

/-- **The branch where `MultiPop` popped the client itself**: with its old
capacity restored and the popped clients pushed back, both counters are where
they were. -/
theorem moves_rollback (hq : f.Queued []) (h : f.connectedMap.lookup id = some c)
    {capacity : UInt64} (hk : ((f.withCapacity id c capacity).popForCapacity id).2.2.2 = false) :
    let g := f.withCapacity id c capacity
    let r := g.popForCapacity id
    Moves f 0 (r.2.1.foldl (fun f c => { f with
        connectedCap := f.connectedCap + f.capacityOf c
        connectedQueue := f.connectedQueue ++ [c] })
      { g with
        connectedMap := g.connectedMap.insert id { c with capacity := c.capacity }
        connectedQueue := r.1
        connectedCap := r.2.2.1 }) := by
  intro g r
  rw [foldl_pushBack]
  set H : ClientPool ID := { g with
    connectedMap := g.connectedMap.insert id { c with capacity := c.capacity }
    connectedQueue := r.1
    connectedCap := r.2.2.1 } with hH
  have hmap : H.connectedMap = f.connectedMap.insert id c := AList.insert_insert _
  have hmem : id ∈ f.connectedMap := AList.lookup_isSome.mp (by rw [h]; rfl)
  have happ : r.2.1 ++ r.1 = f.connectedQueue := popForCapacity_append g id
  have hnodup : r.2.1.Nodup := by
    have hn := hq.nodup
    rw [List.append_nil, ← happ] at hn
    exact hn.of_append_left
  have hid : id ∈ r.2.1 := by
    have hkick := popForCapacity_kick g id
    rw [hk] at hkick
    simpa using hkick.symm
  -- the two counts differ only at the client: its new capacity against its old one
  have hoff : ∀ x ∈ r.2.1, x ≠ id → g.capacityOf x = H.capacityOf x := by
    intro x _ hx
    simp [capacityOf, hH, g, withCapacity, AList.lookup_insert_ne hx]
  have hat : g.capacityOf id - H.capacityOf id = capacity - c.capacity := by
    simp [capacityOf, hH, g, withCapacity]
  have hsum := List.sum_map_eq_add_sub hnodup hid hoff
  rw [hat] at hsum
  have hcap : r.2.2.1 = f.connectedCap + (capacity - c.capacity) - (r.2.1.map g.capacityOf).sum :=
    popForCapacity_connectedCap g id
  refine ⟨?_, ?_, ?_⟩
  · show (r.1 ++ r.2.1 ++ []).Perm H.connectedMap.keys
    have hf : f.connectedQueue.Perm f.connectedMap.keys := by simpa [Queued] using hq
    rw [hmap, List.append_nil]
    exact (List.perm_append_comm.trans (happ ▸ hf)).trans (keys_insert_perm hmem c).symm
  · show r.2.2.1 + (r.2.1.map H.capacityOf).sum - capacityTotal H.connectedMap = f.capDrift - 0
    rw [hmap, capacityTotal_insert_of_lookup h, hcap, hsum, capDrift]
    abel
  · show f.priorityConnected - priorityTotal H.connectedMap = f.priorityDrift
    rw [hmap, priorityTotal_insert_of_lookup h, priorityDrift, sub_self, add_zero]

/-- **What `setCapacity` does to the accounting**: it keeps it, but for the
kicking branch, where `connectedCap` falls behind by the capacity kicked. -/
theorem moves_setCapacity (hq : f.Queued []) (id : ID) (capacity : UInt64) :
    Moves f (f.kickedCapacity id capacity) (f.setCapacity id capacity).2 := by
  unfold setCapacity kickedCapacity
  rcases h : f.connectedMap.lookup id with _ | c
  · exact .refl hq
  dsimp only
  by_cases hne : c.capacity = capacity
  · rw [if_pos hne, if_neg fun hk => hk.1 hne]
    exact .refl hq
  by_cases hp : c.priority = true
  swap
  · rw [if_neg hne, if_pos (show (!c.priority) = true by simpa using hp),
      if_neg fun hk => hp hk.2.1]
    exact .refl hq
  rw [if_neg hne, if_neg (show ¬(!c.priority) = true by simp [hp])]
  split_ifs with hk hlim hkick hlim' hkick'
  · -- kicked: `connectedCap` falls behind by what was kicked
    have hm := moves_kick (hq.withCapacity h capacity) id
    refine ⟨hm.queued, hm.capDrift.trans (by rw [capDrift_withCapacity h]), ?_⟩
    exact (priorityDrift_raise _).trans ((congrArg (· + (capacity - c.capacity)) hm.priorityDrift).trans
      (priorityDrift_withCapacity h hp capacity))
  · exact absurd hk.2.2.2 hkick
  · exact absurd hk.2.2.1 hlim
  · exact absurd ⟨hne, hp, hlim', hkick'⟩ hk
  · exact moves_rollback hq h (Bool.eq_false_iff.mpr hkick')
  · -- the new capacity fits
    refine ⟨hq.withCapacity h capacity, (capDrift_withCapacity h capacity).trans (sub_zero _).symm, ?_⟩
    exact (priorityDrift_raise (f := f.withCapacity id c capacity) _).trans
      (priorityDrift_withCapacity h hp capacity)

end SetCapacity

/-! ## Runs -/

/-- What a call takes out of `connectedCap` a second time. -/
def Op.kickedCapacity (f : ClientPool ID) : Op ID → UInt64
  | .setCapacity id capacity => f.kickedCapacity id capacity
  | _ => 0

/-- What the calls of a run take out of `connectedCap` a second time, in all. -/
def kickedDuring (f : ClientPool ID) : List (Op ID) → UInt64
  | [] => 0
  | op :: ops => op.kickedCapacity f + (f.apply op).kickedDuring ops

section Runs

variable {f : ClientPool ID}

/-- The step lemma: one call, on a pool whose queue is right. -/
theorem moves_apply (hq : f.Queued []) : ∀ op : Op ID, Moves f (op.kickedCapacity f) (f.apply op)
  | .connect id posBalance capacity w => moves_connect hq id posBalance capacity w
  | .disconnect id => moves_disconnect hq id
  | .setCapacity id capacity => moves_setCapacity hq id capacity
  | .balanceExhausted id => moves_balanceExhausted hq id
  | .setLimits totalConn totalCap => moves_setLimits hq totalConn totalCap
  | .reprioritize order => by
    show Moves f 0 (if order.isPerm f.connectedQueue then _ else f)
    split_ifs with horder
    · exact ⟨hq.of_perm (List.isPerm_iff.mp horder), (sub_zero _).symm, rfl⟩
    · exact .refl hq
  | .stop => ⟨hq, (sub_zero _).symm, rfl⟩

/-- The run lemma: over any run, `connectedCap` falls behind by what the run's
`setCapacity` calls kicked, and nothing else moves. -/
theorem moves_run (ops : List (Op ID)) :
    ∀ {f : ClientPool ID}, f.Queued [] → Moves f (f.kickedDuring ops) (f.run ops) := by
  induction ops with
  | nil => exact fun hq => .refl hq
  | cons op ops ih => exact fun hq => (moves_apply hq op).trans (ih (moves_apply hq op).queued)

/-- After any call on an accounted pool, `connectedCap` is the capacity of the
connected clients less what the call kicked a second time. -/
theorem connectedCap_apply (hf : f.Accounted) (op : Op ID) :
    (f.apply op).connectedCap = capacityTotal (f.apply op).connectedMap - op.kickedCapacity f := by
  have hdrift := (moves_apply hf.queued op).capDrift
  rw [hf.capDrift_eq, zero_sub, capDrift, sub_eq_iff_eq_add] at hdrift
  rw [hdrift]
  abel

/-- **A run keeps the accounting exactly when what its `setCapacity` calls
kicked sums to zero.**  Every other call, and `setCapacity` when it kicks no
one, keeps both counters equal to the capacity they count and the queue
holding each connected client once. -/
theorem Accounted.run_iff (hf : f.Accounted) (ops : List (Op ID)) :
    (f.run ops).Accounted ↔ f.kickedDuring ops = 0 := by
  have hm := moves_run ops hf.queued
  constructor
  · intro hr
    have hdrift := hm.capDrift
    rw [hr.capDrift_eq, hf.capDrift_eq, zero_sub, zero_eq_neg] at hdrift
    exact hdrift
  · intro hk
    exact .of_drift hm.queued (by rw [hm.capDrift, hf.capDrift_eq, hk, sub_zero])
      (by rw [hm.priorityDrift, hf.priorityDrift_eq])

end Runs

/-- Two priority clients fill the pool; the first is raised past `capLimit`
and `MultiPop` pops the second, of capacity 10, before it. -/
def doubleKickRun : List (Op ℕ) :=
  [.setLimits 10 11, .connect 1 1 1 false, .connect 2 1 10 false, .reprioritize [2, 1],
    .setCapacity 1 2]

end ClientPool

end RpcNetwork.Les
