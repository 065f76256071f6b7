import Mathlib
import RpcNetwork.P2p.Enode.Node
import RpcNetwork.P2p.Netutil

/-!
# The discovery table

`p2p/discover/table.go` keeps nodes in buckets by log distance, at most
`bucketSize` entries and `maxReplacements` replacements each.  `tab.ips` and
each `b.ips` count addresses per `/24` subnet, and `addIP` refuses a node whose
subnet is full.

It changes under `addSeenNode`, `addVerifiedNode`, `delete` and `replace`.

## Design notes

A node is its ID and its address, `node.ID()` and `node.IP()`; its timestamps
and liveness count are read by no function here.  The buckets are a function of
the index; a write through `b` replaces the bucket at its index.  `replace` picks the replacement
at `tab.rand.Intn(len(b.replacements))`: the event carries a number whose
remainder by the length is that pick, so every pick is some event.  The
`nodeAddedHook`, the logging and the timers are not modelled.
-/

namespace RpcNetwork.P2p.Discover

open Enode Netutil

/-! ### The state -/

/-- `bucketSize`: the Kademlia bucket size. -/
def bucketSize : ℕ := 16
/-- `maxReplacements`: the size of a bucket's replacement list. -/
def maxReplacements : ℕ := 10
/-- `hashBits`. -/
def hashBits : ℕ := 32 * 8
/-- `nBuckets`: the buckets kept, for the upper fifteenth of distances. -/
def nBuckets : ℕ := hashBits / 15
/-- `bucketMinDistance`: the log distance of the closest bucket. -/
def bucketMinDistance : ℕ := hashBits - nBuckets
/-- `bucketIPLimit`, `bucketSubnet`: at most two addresses of one `/24` in a bucket. -/
def bucketIPLimit : ℕ := 2
def bucketSubnet : ℕ := 24
/-- `tableIPLimit`, `tableSubnet`: at most ten addresses of one `/24` in the table. -/
def tableIPLimit : ℕ := 10
def tableSubnet : ℕ := 24

/-- `node`, by its ID and its address. -/
structure Node where
  id : ID
  ip : List UInt8
  deriving DecidableEq

/-- `bucket`: its live entries, its replacements and their subnet counters. -/
structure Bucket where
  entries : List Node
  replacements : List Node
  ips : DistinctNetSet

/-- `Table`: the buckets and the table's subnet counters. -/
structure Table where
  /-- `tab.self().ID()`. -/
  self : ID
  buckets : Fin nBuckets → Bucket
  ips : DistinctNetSet
  /-- Whether `initDone` is closed. -/
  initDone : Bool

/-- `bucketAtDistance`: the index of the bucket of a log distance. -/
def bucketAtDistance (d : ℕ) : ℕ :=
  if d ≤ bucketMinDistance then 0 else d - bucketMinDistance - 1

theorem bucketAtDistance_lt {d : ℕ} (hd : d ≤ 256) : bucketAtDistance d < nBuckets := by
  unfold bucketAtDistance bucketMinDistance nBuckets hashBits
  split_ifs <;> omega

/-- `tab.bucket(id)`: the index of the bucket of an ID. -/
def bucket (self id : ID) : Fin nBuckets :=
  ⟨bucketAtDistance (logDist self id), bucketAtDistance_lt (logDist_le self id)⟩

namespace Table

/-- The table with the bucket at `bi` written back. -/
def setBucket (tab : Table) (bi : Fin nBuckets) (b : Bucket) : Table :=
  { tab with buckets := Function.update tab.buckets bi b }

/-- `newTable`: no nodes, and the counters of `tableSubnet` and `bucketSubnet`. -/
def empty (self : ID) : Table where
  self := self
  buckets := fun _ => ⟨[], [], ⟨bucketSubnet, bucketIPLimit, fun _ => 0⟩⟩
  ips := ⟨tableSubnet, tableIPLimit, fun _ => 0⟩
  initDone := false

/-! ### The helpers -/

/-- `addIP`: counts the address in the table and in the bucket, unless one of
their subnets is full. -/
def addIP (tab : Table) (bi : Fin nBuckets) (ip : List UInt8) : Bool × Table :=
  if ip.length = 0 then (false, tab)  -- nodes without IP cannot be added
  else if isLAN ip then (true, tab)
  else
    let added := tab.ips.add ip
    if !added.1 then (false, { tab with ips := added.2 })  -- IP exceeds table limit
    else
      let b := tab.buckets bi
      let bAdded := b.ips.add ip
      if !bAdded.1 then (false, { tab with ips := added.2.remove ip })  -- IP exceeds bucket limit
      else (true, { tab with ips := added.2 }.setBucket bi { b with ips := bAdded.2 })

/-- `removeIP`: takes the address off the table's and the bucket's counters. -/
def removeIP (tab : Table) (bi : Fin nBuckets) (ip : List UInt8) : Table :=
  if isLAN ip then tab
  else
    let b := tab.buckets bi
    { tab with ips := tab.ips.remove ip }.setBucket bi { b with ips := b.ips.remove ip }

end Table

/-- `contains`: whether a node of the list has the ID. -/
def contains (ns : List Node) (id : ID) : Bool := ns.any fun n => n.id == id

/-- `pushNode`: `n` goes to the front of the list, which keeps at most `max`
items; the last one falls off when there is no room. -/
def pushNode (list : List Node) (n : Node) (max : ℕ) : List Node × Option Node :=
  if list.length < max then (n :: list, none)
  else (n :: list.dropLast, list.getLast?)

/-- `deleteNode`: removes the first node with `n`'s ID. -/
def deleteNode (list : List Node) (n : Node) : List Node := list.eraseP fun e => e.id == n.id

namespace Table

/-- `addReplacement`: `n` goes to the front of the replacements, unless it is
there or its subnet is full; the replacement that falls off gives up its address. -/
def addReplacement (tab : Table) (bi : Fin nBuckets) (n : Node) : Table :=
  if (tab.buckets bi).replacements.any (fun e => e.id == n.id) then tab  -- already in list
  else
    let added := tab.addIP bi n.ip
    if !added.1 then added.2
    else
      let b := added.2.buckets bi
      let pushed := pushNode b.replacements n maxReplacements
      let tab := added.2.setBucket bi { b with replacements := pushed.1 }
      match pushed.2 with
      | some removed => tab.removeIP bi removed.ip
      | none => tab

/-- `deleteInBucket`: removes `n` from the entries and its address from the counters. -/
def deleteInBucket (tab : Table) (bi : Fin nBuckets) (n : Node) : Table :=
  let b := tab.buckets bi
  (tab.setBucket bi { b with entries := deleteNode b.entries n }).removeIP bi n.ip

/-- `replace`: if `last` is still the last entry, the replacement picked by
`k` takes its place; with no replacements `last` is deleted. -/
def replace (tab : Table) (bi : Fin nBuckets) (last : Node) (k : ℕ) : Option Node × Table :=
  let b := tab.buckets bi
  if b.entries.getLast?.map Node.id ≠ some last.id then (none, tab)  -- entry has moved
  else if h : b.replacements.length = 0 then (none, tab.deleteInBucket bi last)
  else
    let r := b.replacements.get ⟨k % b.replacements.length, Nat.mod_lt _ (Nat.pos_of_ne_zero h)⟩
    let b := { b with replacements := deleteNode b.replacements r,
                      entries := b.entries.set (b.entries.length - 1) r }
    (some r, (tab.setBucket bi b).removeIP bi last.ip)

/-- `bumpInBucket`: the entry with `n`'s ID moves to the front as `n`, its
address counted again if it changed and the subnet has room. -/
def bumpInBucket (tab : Table) (bi : Fin nBuckets) (n : Node) : Bool × Table :=
  let entries := (tab.buckets bi).entries
  let i := entries.findIdx fun e => e.id == n.id
  match entries[i]? with
  | none => (false, tab)
  | some e =>
    -- `copy(b.entries[1:], b.entries[:i])`, then `b.entries[0] = n`
    let moved (tab : Table) : Table :=
      tab.setBucket bi { tab.buckets bi with entries := n :: entries.eraseIdx i }
    if ipEqual n.ip e.ip then (true, moved tab)
    else
      -- endpoint has changed, ensure that the new IP fits into table limits
      let added := (tab.removeIP bi e.ip).addIP bi n.ip
      -- it doesn't, put the previous one back
      if !added.1 then (false, (added.2.addIP bi e.ip).2)
      else (true, moved added.2)

/-! ### The operations -/

/-- `addSeenNode`: a node heard of goes to the end of its bucket, or to the
replacements when the bucket is full. -/
def addSeenNode (tab : Table) (n : Node) : Table :=
  if n.id = tab.self then tab
  else
    let bi := bucket tab.self n.id
    let b := tab.buckets bi
    if contains b.entries n.id then tab  -- already in bucket, don't add
    else if bucketSize ≤ b.entries.length then tab.addReplacement bi n  -- bucket full
    else
      let added := tab.addIP bi n.ip
      if !added.1 then added.2  -- can't add: IP limit reached
      else
        let b := added.2.buckets bi
        added.2.setBucket bi
          { b with entries := b.entries ++ [n], replacements := deleteNode b.replacements n }

/-- `addVerifiedNode`: a node that answered goes to the front of its bucket,
or to the replacements when the bucket is full. -/
def addVerifiedNode (tab : Table) (n : Node) : Table :=
  if !tab.initDone then tab
  else if n.id = tab.self then tab
  else
    let bi := bucket tab.self n.id
    let bumped := tab.bumpInBucket bi n
    if bumped.1 then bumped.2  -- already in bucket, moved to front
    else if bucketSize ≤ (bumped.2.buckets bi).entries.length then bumped.2.addReplacement bi n
    else
      let added := bumped.2.addIP bi n.ip
      if !added.1 then added.2  -- can't add: IP limit reached
      else
        let b := added.2.buckets bi
        added.2.setBucket bi { b with entries := (pushNode b.entries n bucketSize).1,
                                      replacements := deleteNode b.replacements n }

/-- `delete`: removes a node from its bucket. -/
def delete (tab : Table) (n : Node) : Table := tab.deleteInBucket (bucket tab.self n.id) n

end Table

/-! ### Runs -/

/-- What happens to the table. -/
inductive Event where
  /-- `addSeenNode`, from a lookup or a seed. -/
  | addSeenNode (n : Node)
  /-- `addVerifiedNode`, from a node that answered. -/
  | addVerifiedNode (n : Node)
  /-- `delete`, from a lookup that gave up on a node. -/
  | delete (n : Node)
  /-- `replace(b, last)` from `doRevalidate`, with the pick of `tab.rand`. -/
  | replace (bi : Fin nBuckets) (last : Node) (k : ℕ)
  /-- `close(tab.initDone)`. -/
  | initDone

namespace Table

/-- The table after an event. -/
def handle (tab : Table) : Event → Table
  | .addSeenNode n => tab.addSeenNode n
  | .addVerifiedNode n => tab.addVerifiedNode n
  | .delete n => tab.delete n
  | .replace bi last k => (tab.replace bi last k).2
  | .initDone => { tab with initDone := true }

/-- The tables a run from an empty table reaches. -/
inductive Reachable (self : ID) : Table → Prop where
  | empty : Reachable self (empty self)
  | step {tab : Table} (e : Event) : Reachable self tab → Reachable self (tab.handle e)

end Table

/-! ### The counters -/

namespace Table

variable {tab tab' : Table} {bi j : Fin nBuckets} {b : Bucket} {ip : List UInt8}

@[simp] theorem setBucket_self : (tab.setBucket bi b).self = tab.self := rfl

@[simp] theorem setBucket_buckets_same : (tab.setBucket bi b).buckets bi = b := Function.update_self _ _ _

theorem setBucket_buckets_of_ne (h : j ≠ bi) : (tab.setBucket bi b).buckets j = tab.buckets j :=
  Function.update_of_ne h _ _

/-- The entries and the replacements of each bucket. -/
def nodes (tab : Table) (j : Fin nBuckets) : List Node × List Node :=
  ((tab.buckets j).entries, (tab.buckets j).replacements)

theorem nodes_setBucket : (tab.setBucket bi b).nodes = Function.update tab.nodes bi (b.entries, b.replacements) := by
  funext j
  by_cases hj : j = bi
  · subst hj
    simp [nodes]
  · simp [nodes, setBucket_buckets_of_ne hj, Function.update_of_ne hj]

/-- Writing the counters changes no node. -/
theorem nodes_setBucket_ips (s bs : DistinctNetSet) :
    ({ tab with ips := s }.setBucket bi { tab.buckets bi with ips := bs }).nodes = tab.nodes := by
  rw [nodes_setBucket]
  exact Function.update_eq_self bi tab.nodes

theorem addIP_self : (tab.addIP bi ip).2.self = tab.self := by
  dsimp only [addIP]
  split_ifs <;> rfl

theorem nodes_addIP : (tab.addIP bi ip).2.nodes = tab.nodes := by
  dsimp only [addIP]
  split_ifs
  · rfl
  · rfl
  · rfl
  · rfl
  · exact nodes_setBucket_ips _ _

theorem removeIP_self : (tab.removeIP bi ip).self = tab.self := by
  dsimp only [removeIP]
  split_ifs <;> rfl

theorem nodes_removeIP : (tab.removeIP bi ip).nodes = tab.nodes := by
  dsimp only [removeIP]
  split_ifs
  · rfl
  · exact nodes_setBucket_ips _ _

@[simp] theorem entries_addIP : ((tab.addIP bi ip).2.buckets j).entries = (tab.buckets j).entries :=
  congrArg Prod.fst (congrFun nodes_addIP j)

@[simp] theorem replacements_addIP :
    ((tab.addIP bi ip).2.buckets j).replacements = (tab.buckets j).replacements :=
  congrArg Prod.snd (congrFun nodes_addIP j)

@[simp] theorem replacements_removeIP :
    ((tab.removeIP bi ip).buckets j).replacements = (tab.buckets j).replacements :=
  congrArg Prod.snd (congrFun nodes_removeIP j)

/-- **A refused address leaves the table as it was**: a table limit refuses
before counting, and a bucket limit takes back the table's count. -/
theorem addIP_eq_false (h : (tab.addIP bi ip).1 = false) : (tab.addIP bi ip).2 = tab := by
  dsimp only [addIP] at h ⊢
  by_cases h0 : ip.length = 0
  · rw [if_pos h0]
  rw [if_neg h0] at h ⊢
  by_cases hlan : isLAN ip = true
  · rw [if_pos hlan] at h
    cases h
  rw [if_neg hlan] at h ⊢
  by_cases hadd : (tab.ips.add ip).1 = true
  · -- the table took it, so the bucket refused it and the table's count is taken back
    rw [if_neg (by simp [hadd])] at h ⊢
    by_cases hbadd : ((tab.buckets bi).ips.add ip).1 = true
    · rw [if_neg (by simp [hbadd])] at h
      cases h
    · rw [if_pos (by simpa using hbadd), DistinctNetSet.remove_add hadd]
  · rw [if_pos (by simpa using hadd), DistinctNetSet.add_eq_false (by simpa using hadd)]

/-- The counters of the table and of the bucket at `bi`, each at most the other table's. -/
def IpsLe (bi : Fin nBuckets) (tab tab' : Table) : Prop :=
  tab.ips.Le tab'.ips ∧ (tab.buckets bi).ips.Le (tab'.buckets bi).ips

theorem ipsLe_addIP : IpsLe bi tab (tab.addIP bi ip).2 := by
  by_cases h : (tab.addIP bi ip).1 = true
  · dsimp only [addIP] at h ⊢
    split_ifs at h ⊢ with h0 hlan hadd hbadd
    · exact ⟨DistinctNetSet.Le.refl _, DistinctNetSet.Le.refl _⟩
    · exact ⟨DistinctNetSet.le_add _ _, by rw [setBucket_buckets_same]; exact DistinctNetSet.le_add _ _⟩
  · rw [addIP_eq_false (by simpa using h)]
    exact ⟨DistinctNetSet.Le.refl _, DistinctNetSet.Le.refl _⟩

/-- **An address `addIP` refuses stays refused** under counters at least as high. -/
theorem addIP_eq_false_of_ipsLe (hle : IpsLe bi tab tab') (h : (tab.addIP bi ip).1 = false) :
    (tab'.addIP bi ip).1 = false := by
  dsimp only [addIP] at h ⊢
  by_cases h0 : ip.length = 0
  · rw [if_pos h0]
  rw [if_neg h0] at h ⊢
  by_cases hlan : isLAN ip = true
  · rw [if_pos hlan] at h
    cases h
  rw [if_neg hlan] at h ⊢
  by_cases hadd : (tab.ips.add ip).1 = true
  · -- the bucket's subnet is full, and no emptier in `tab'`
    rw [if_neg (by simp [hadd])] at h
    have hbadd : ((tab.buckets bi).ips.add ip).1 = false := by
      by_contra hb
      rw [if_neg (by simpa using hb)] at h
      cases h
    have hbadd' := DistinctNetSet.add_eq_false_of_le hle.2 hbadd
    split_ifs with h1 h2
    · rfl
    · rfl
    · simp [hbadd'] at h2
  · -- the table's subnet is full, and no emptier in `tab'`
    have hadd' := DistinctNetSet.add_eq_false_of_le hle.1 (by simpa using hadd)
    rw [if_pos (by simpa using hadd')]

end Table

/-! ### The lists -/

theorem deleteNode_sublist (list : List Node) (n : Node) : (deleteNode list n).Sublist list :=
  List.eraseP_sublist

/-- With no ID twice in the list, `deleteNode` leaves no node with `n`'s ID. -/
theorem id_not_mem_deleteNode {list : List Node} (hl : (list.map Node.id).Nodup) (n : Node) :
    n.id ∉ (deleteNode list n).map Node.id := by
  intro hmem
  obtain ⟨m, hm, hmn⟩ := List.mem_map.mp hmem
  have hm' : m ∈ list := (deleteNode_sublist list n).subset hm
  obtain ⟨x, l₁, l₂, -, hx, rfl, hdel⟩ := List.exists_of_eraseP hm' (p := fun e => e.id == n.id) (by simp [hmn])
  rw [deleteNode, hdel] at hm
  -- `x` has `n`'s ID, and so would `m`, which the erasure kept
  have hx : x.id = n.id := by simpa using hx
  rw [List.map_append, List.map_cons, List.nodup_append] at hl
  rcases List.mem_append.mp hm with hm | hm
  · exact hl.2.2 _ (List.mem_map_of_mem hm) _ (List.mem_cons_self ..) (hmn.trans hx.symm)
  · exact (List.nodup_cons.mp hl.2.1).1 (hx ▸ hmn ▸ List.mem_map_of_mem hm)

theorem pushNode_sublist (list : List Node) (n : Node) (max : ℕ) : (pushNode list n max).1.Sublist (n :: list) := by
  unfold pushNode
  split_ifs
  · exact List.Sublist.refl _
  · exact (List.dropLast_sublist list).cons_cons n

theorem pushNode_length_le {list : List Node} {max : ℕ} (hl : list.length ≤ max) (hmax : 0 < max) (n : Node) :
    (pushNode list n max).1.length ≤ max := by
  unfold pushNode
  split_ifs with h
  · simp only [List.length_cons]
    omega
  · simp only [List.length_cons, List.length_dropLast]
    omega

/-- A list perm of a sublist keeps no duplicate. -/
theorem nodup_of_subperm {α : Type} {l₁ l₂ : List α} (h : l₁.Subperm l₂) (hd : l₂.Nodup) : l₁.Nodup := by
  obtain ⟨l, hp, hs⟩ := h
  exact hp.nodup_iff.mp (hd.sublist hs)

/-! ### What every run keeps -/

/-- The IDs of the entries and the replacements of a bucket. -/
def ids (nodes : List Node × List Node) : List ID := (nodes.1 ++ nodes.2).map Node.id

/-- The invariant of the entries and replacements of the bucket at `bi` in the
table of `selfId`: within the sizes, no ID twice, and every ID one of this bucket
and not `selfId`'s. -/
structure BucketInv (selfId : ID) (bi : Fin nBuckets) (nodes : List Node × List Node) : Prop where
  entries_le : nodes.1.length ≤ bucketSize
  replacements_le : nodes.2.length ≤ maxReplacements
  nodup : (ids nodes).Nodup
  bucket_eq : ∀ id ∈ ids nodes, bucket selfId id = bi
  ne_self : ∀ id ∈ ids nodes, id ≠ selfId

/-- The invariant of the table: every bucket keeps its own. -/
def TableInv (tab : Table) : Prop := ∀ bi, BucketInv tab.self bi (tab.nodes bi)

namespace BucketInv

variable {selfId : ID} {bi : Fin nBuckets} {p p' : List Node × List Node}

/-- Nodes whose IDs are among the bucket's, within the sizes, keep the invariant. -/
theorem of_subperm (h : BucketInv selfId bi p) (hsub : (ids p').Subperm (ids p))
    (he : p'.1.length ≤ bucketSize) (hr : p'.2.length ≤ maxReplacements) : BucketInv selfId bi p' :=
  ⟨he, hr, nodup_of_subperm hsub h.nodup, fun id hid => h.bucket_eq id (hsub.subset hid),
    fun id hid => h.ne_self id (hsub.subset hid)⟩

/-- Nodes whose IDs are a new one of this bucket, not `selfId`'s, and some of
the bucket's without it, within the sizes, keep the invariant. -/
theorem of_subperm_cons (h : BucketInv selfId bi p) {id : ID} {L : List ID} (hL : L.Sublist (ids p))
    (hid : id ∉ L) (hbi : bucket selfId id = bi) (hself : id ≠ selfId) (hsub : (ids p').Subperm (id :: L))
    (he : p'.1.length ≤ bucketSize) (hr : p'.2.length ≤ maxReplacements) : BucketInv selfId bi p' := by
  refine ⟨he, hr, nodup_of_subperm hsub (List.nodup_cons.mpr ⟨hid, h.nodup.sublist hL⟩), ?_, ?_⟩
  · intro x hx
    rcases List.mem_cons.mp (hsub.subset hx) with rfl | hx
    · exact hbi
    · exact h.bucket_eq x (hL.subset hx)
  · intro x hx
    rcases List.mem_cons.mp (hsub.subset hx) with rfl | hx
    · exact hself
    · exact h.ne_self x (hL.subset hx)

end BucketInv

namespace TableInv

variable {tab tab' : Table} {bi : Fin nBuckets} {p : List Node × List Node}

theorem empty (self : ID) : TableInv (Table.empty self) := fun _ =>
  ⟨Nat.zero_le _, Nat.zero_le _, List.nodup_nil, (fun _ h => nomatch h), (fun _ h => nomatch h)⟩

theorem of_nodes (h : TableInv tab) (hself : tab'.self = tab.self) (hnodes : tab'.nodes = tab.nodes) :
    TableInv tab' := by
  intro j
  rw [hself, hnodes]
  exact h j

/-- A table whose bucket at `bi` changed to nodes that keep the invariant keeps it. -/
theorem update (h : TableInv tab) (hself : tab'.self = tab.self)
    (hnodes : tab'.nodes = Function.update tab.nodes bi p) (hp : BucketInv tab.self bi p) :
    TableInv tab' := by
  intro j
  rw [hself, hnodes]
  by_cases hj : j = bi
  · subst hj
    rw [Function.update_self]
    exact hp
  · rw [Function.update_of_ne hj]
    exact h j

theorem addIP (h : TableInv tab) (bi : Fin nBuckets) (ip : List UInt8) : TableInv (tab.addIP bi ip).2 :=
  h.of_nodes Table.addIP_self Table.nodes_addIP

theorem removeIP (h : TableInv tab) (bi : Fin nBuckets) (ip : List UInt8) : TableInv (tab.removeIP bi ip) :=
  h.of_nodes Table.removeIP_self Table.nodes_removeIP

theorem setBucket (h : TableInv tab) {b : Bucket} (hb : BucketInv tab.self bi (b.entries, b.replacements)) :
    TableInv (tab.setBucket bi b) :=
  h.update rfl Table.nodes_setBucket hb

end TableInv

theorem contains_eq_false_iff {ns : List Node} {id : ID} : contains ns id = false ↔ id ∉ ns.map Node.id := by
  simp [contains]

theorem mem_ids {nodes : List Node × List Node} {id : ID} :
    id ∈ ids nodes ↔ id ∈ nodes.1.map Node.id ∨ id ∈ nodes.2.map Node.id := by
  rw [ids, List.map_append, List.mem_append]

namespace BucketInv

variable {selfId : ID} {bi : Fin nBuckets} {E R : List Node} {n : Node}

/-- `n`, whose ID the bucket has not, pushed onto the replacements. -/
theorem push (h : BucketInv selfId bi (E, R)) (hbi : bucket selfId n.id = bi) (hself : n.id ≠ selfId)
    (hn : n.id ∉ ids (E, R)) : BucketInv selfId bi (E, (pushNode R n maxReplacements).1) := by
  have hsub : (ids (E, (pushNode R n maxReplacements).1)).Subperm (n.id :: ids (E, R)) :=
    ((((pushNode_sublist R n _).append_left E).map Node.id).subperm).trans
      (List.perm_middle.map Node.id).subperm
  exact h.of_subperm_cons (List.Sublist.refl _) hn hbi hself hsub h.entries_le
    (pushNode_length_le h.replacements_le (by decide) n)

/-- `n`, whose ID the entries have not, put among the entries as `E'`, and
dropped from the replacements. -/
theorem insert (h : BucketInv selfId bi (E, R)) (hbi : bucket selfId n.id = bi) (hself : n.id ≠ selfId)
    (hn : n.id ∉ E.map Node.id) {E' : List Node} (hE' : E'.Perm (n :: E)) (hlen : E'.length ≤ bucketSize) :
    BucketInv selfId bi (E', deleteNode R n) := by
  have hR : (R.map Node.id).Nodup := (List.nodup_append.mp (by simpa [ids] using h.nodup)).2.1
  have hL : (ids (E, deleteNode R n)).Sublist (ids (E, R)) := ((deleteNode_sublist R n).append_left E).map Node.id
  have hid : n.id ∉ ids (E, deleteNode R n) := by
    rw [mem_ids]
    exact fun h' => h'.elim hn (id_not_mem_deleteNode hR n)
  have hsub : (ids (E', deleteNode R n)).Subperm (n.id :: ids (E, deleteNode R n)) :=
    ((hE'.append_right _).map Node.id).subperm
  exact h.of_subperm_cons hL hid hbi hself hsub hlen
    ((deleteNode_sublist R n).length_le.trans h.replacements_le)

/-- The entry at `i` replaced by `n` of the same ID, moved to the front. -/
theorem bump (h : BucketInv selfId bi (E, R)) {i : ℕ} (hi : i < E.length) (hid : E[i].id = n.id) :
    BucketInv selfId bi (n :: E.eraseIdx i, R) := by
  have hperm : (ids (E, R)).Perm (n.id :: ids (E.eraseIdx i, R)) := by
    rw [← hid]
    exact (((List.getElem_cons_eraseIdx_perm hi).append_right R).map Node.id).symm
  have hL : (ids (E.eraseIdx i, R)).Sublist (ids (E, R)) := ((List.eraseIdx_sublist E i).append_right R).map Node.id
  have hnot : n.id ∉ ids (E.eraseIdx i, R) := (List.nodup_cons.mp (hperm.nodup_iff.mp h.nodup)).1
  have hmem : n.id ∈ ids (E, R) := hperm.symm.subset (List.mem_cons_self ..)
  refine h.of_subperm_cons hL hnot (h.bucket_eq _ hmem) (h.ne_self _ hmem) (List.Subperm.refl _) ?_
    h.replacements_le
  have hE : E.length ≤ bucketSize := h.entries_le
  simp only [List.length_cons, List.length_eraseIdx, if_pos hi]
  omega

/-- A replacement `r` in the place of the last entry, and dropped from the replacements. -/
theorem swapLast {init : List Node} {e r : Node} (h : BucketInv selfId bi (init ++ [e], R)) (hr : r ∈ R) :
    BucketInv selfId bi (init ++ [r], deleteNode R r) := by
  have hnd : ((init ++ [e]).map Node.id ++ R.map Node.id).Nodup := by
    rw [← List.map_append]
    exact h.nodup
  obtain ⟨-, hR, hdisj⟩ := List.nodup_append.mp hnd
  have hrid : r.id ∈ ids (init ++ [e], R) := by
    rw [mem_ids]
    exact Or.inr (List.mem_map_of_mem hr)
  have hL : (ids (init, deleteNode R r)).Sublist (ids (init ++ [e], R)) :=
    ((List.sublist_append_left init [e]).append (deleteNode_sublist R r)).map Node.id
  have hid : r.id ∉ ids (init, deleteNode R r) := by
    rw [mem_ids]
    rintro (hi | hd)
    · -- the entries and the replacements share no ID
      refine hdisj _ ?_ _ (List.mem_map_of_mem hr) rfl
      rw [List.map_append]
      exact List.mem_append_left _ hi
    · exact id_not_mem_deleteNode hR r hd
  have hsub : (ids (init ++ [r], deleteNode R r)).Subperm (r.id :: ids (init, deleteNode R r)) := by
    rw [ids, List.append_assoc, List.singleton_append]
    exact (List.perm_middle.map Node.id).subperm
  refine h.of_subperm_cons hL hid (h.bucket_eq _ hrid) (h.ne_self _ hrid) hsub ?_
    ((deleteNode_sublist R r).length_le.trans h.replacements_le)
  have he : (init ++ [e]).length ≤ bucketSize := h.entries_le
  simpa using he

end BucketInv

namespace Table

variable {tab : Table} {bi : Fin nBuckets} {n : Node}

/-- `addReplacement` of a node whose address `addIP` refuses changes nothing. -/
theorem addReplacement_of_addIP_false (h : (tab.addIP bi n.ip).1 = false) : tab.addReplacement bi n = tab := by
  dsimp only [addReplacement]
  split_ifs with hany hadd
  · rfl
  · exact addIP_eq_false h
  · simp [h] at hadd

/-- **A bump that fails changes no node**, and when the bucket has `n`'s ID the
failure was its new address's, which the table it leaves refuses too. -/
theorem bumpInBucket_eq_false (h : (tab.bumpInBucket bi n).1 = false) :
    (tab.bumpInBucket bi n).2.self = tab.self ∧ (tab.bumpInBucket bi n).2.nodes = tab.nodes ∧
      (contains (tab.buckets bi).entries n.id = true → ((tab.bumpInBucket bi n).2.addIP bi n.ip).1 = false) := by
  revert h
  dsimp only [bumpInBucket]
  split
  · -- no entry has `n`'s ID
    rename_i hnone
    intro _
    refine ⟨rfl, rfl, fun hc => absurd hnone ?_⟩
    rw [List.getElem?_eq_none_iff, not_le, List.findIdx_lt_length]
    simpa [contains] using hc
  · rename_i e he
    split_ifs with heq hadd
    · intro h
      cases h
    · -- the new address refused after the old one was taken off; the old one put back
      intro _
      have hadd : ((tab.removeIP bi e.ip).addIP bi n.ip).1 = false := by simpa using hadd
      have hback := addIP_eq_false hadd
      refine ⟨?_, ?_, fun _ => ?_⟩
      · rw [addIP_self, hback, removeIP_self]
      · rw [nodes_addIP, hback, nodes_removeIP]
      · have hle : IpsLe bi (tab.removeIP bi e.ip)
            (((tab.removeIP bi e.ip).addIP bi n.ip).2.addIP bi e.ip).2 := by
          rw [hback]
          exact ipsLe_addIP
        exact addIP_eq_false_of_ipsLe hle hadd
    · intro h
      cases h

/-- **A bump that succeeds moves `n` to the front** in the place of the entry
with its ID. -/
theorem bumpInBucket_eq_true (h : (tab.bumpInBucket bi n).1 = true) :
    ∃ i, ∃ hi : i < (tab.buckets bi).entries.length, (tab.buckets bi).entries[i].id = n.id ∧
      (tab.bumpInBucket bi n).2.self = tab.self ∧
      (tab.bumpInBucket bi n).2.nodes = Function.update tab.nodes bi
        (n :: (tab.buckets bi).entries.eraseIdx i, (tab.buckets bi).replacements) := by
  revert h
  dsimp only [bumpInBucket]
  split
  · intro h
    cases h
  · rename_i e he
    -- `e` is the entry `findIdx` found, which has `n`'s ID
    obtain ⟨hi, hei⟩ := List.getElem?_eq_some_iff.mp he
    have hid : e.id = n.id := by simpa [hei] using List.findIdx_getElem (w := hi)
    split_ifs with heq hadd
    · intro _
      exact ⟨_, hi, hei ▸ hid, rfl, nodes_setBucket⟩
    · intro h
      cases h
    · intro _
      refine ⟨_, hi, hei ▸ hid, ?_, ?_⟩
      · rw [setBucket_self, addIP_self, removeIP_self]
      · simp only [nodes_setBucket, nodes_addIP, nodes_removeIP, replacements_addIP, replacements_removeIP]

end Table

namespace TableInv

variable {tab : Table} {bi : Fin nBuckets} {n : Node}

theorem addReplacement (h : TableInv tab) (hbi : bucket tab.self n.id = bi) (hself : n.id ≠ tab.self)
    (hn : contains (tab.buckets bi).entries n.id = false) : TableInv (tab.addReplacement bi n) := by
  dsimp only [Table.addReplacement]
  split_ifs with hany hadd
  · exact h
  · exact h.addIP bi n.ip
  · have hids : n.id ∉ ids (tab.nodes bi) := by
      rw [mem_ids]
      rintro (hE | hR)
      · exact contains_eq_false_iff.mp hn hE
      · exact contains_eq_false_iff.mp (Bool.eq_false_iff.mpr hany) hR
    have hpush := (h bi).push hbi hself hids
    have h₂ : TableInv ((tab.addIP bi n.ip).2.setBucket bi { (tab.addIP bi n.ip).2.buckets bi with
        replacements := (pushNode ((tab.addIP bi n.ip).2.buckets bi).replacements n maxReplacements).1 }) := by
      refine (h.addIP bi n.ip).setBucket ?_
      simpa [Table.addIP_self] using hpush
    split
    · exact h₂.removeIP bi _
    · exact h₂

theorem deleteInBucket (h : TableInv tab) (bi : Fin nBuckets) (n : Node) : TableInv (tab.deleteInBucket bi n) := by
  refine (h.setBucket ?_).removeIP bi n.ip
  exact (h bi).of_subperm (((deleteNode_sublist _ n).append_right _).map Node.id).subperm
    ((deleteNode_sublist _ n).length_le.trans (h bi).entries_le) (h bi).replacements_le

end TableInv

namespace TableInv

variable {tab : Table} {n : Node}

theorem replace (h : TableInv tab) (bi : Fin nBuckets) (last : Node) (k : ℕ) :
    TableInv (tab.replace bi last k).2 := by
  dsimp only [Table.replace]
  split_ifs with hlast hzero
  · exact h
  · exact h.deleteInBucket bi last
  · -- the picked replacement takes the place of the last entry
    have hb : ∀ r ∈ (tab.buckets bi).replacements, BucketInv tab.self bi
        ((tab.buckets bi).entries.set ((tab.buckets bi).entries.length - 1) r,
          deleteNode (tab.buckets bi).replacements r) := by
      obtain ⟨e, he, -⟩ := Option.map_eq_some_iff.mp (not_not.mp hlast)
      obtain ⟨init, hinit⟩ := List.getLast?_eq_some_iff.mp he
      have hinv : BucketInv tab.self bi (init ++ [e], (tab.buckets bi).replacements) := by
        have := h bi
        rwa [Table.nodes, hinit] at this
      intro r hr
      rw [hinit, show (init ++ [e]).set ((init ++ [e]).length - 1) r = init ++ [r] by simp]
      exact hinv.swapLast hr
    exact (h.setBucket (hb _ (List.get_mem _ _))).removeIP bi last.ip

theorem bumpInBucket (h : TableInv tab) (bi : Fin nBuckets) (n : Node) : TableInv (tab.bumpInBucket bi n).2 := by
  by_cases hb : (tab.bumpInBucket bi n).1 = true
  · obtain ⟨i, hi, hid, hself, hnodes⟩ := Table.bumpInBucket_eq_true hb
    exact h.update hself hnodes ((h bi).bump hi hid)
  · obtain ⟨hself, hnodes, -⟩ := Table.bumpInBucket_eq_false (by simpa using hb)
    exact h.of_nodes hself hnodes

theorem addSeenNode (h : TableInv tab) (n : Node) : TableInv (tab.addSeenNode n) := by
  dsimp only [Table.addSeenNode]
  split_ifs with hself hcont hfull hadd
  · exact h
  · exact h
  · exact h.addReplacement rfl hself (Bool.eq_false_iff.mpr hcont)
  · exact h.addIP _ _
  · -- `n` goes to the end of the entries, and leaves the replacements
    refine (h.addIP _ n.ip).setBucket ?_
    simp only [Table.entries_addIP, Table.replacements_addIP, Table.addIP_self]
    have hlen : ((tab.buckets (bucket tab.self n.id)).entries ++ [n]).length ≤ bucketSize := by
      simp only [List.length_append, List.length_singleton]
      omega
    exact (h _).insert rfl hself (contains_eq_false_iff.mp (Bool.eq_false_iff.mpr hcont))
      (List.perm_append_singleton n _) hlen

theorem addVerifiedNode (h : TableInv tab) (n : Node) : TableInv (tab.addVerifiedNode n) := by
  dsimp only [Table.addVerifiedNode]
  split_ifs with hinit hself hbump hfull hadd
  · exact h
  · exact h
  · exact h.bumpInBucket _ n
  all_goals
    obtain ⟨hself', hnodes, hrefused⟩ := Table.bumpInBucket_eq_false (by simpa using hbump)
    have hE : ((tab.bumpInBucket (bucket tab.self n.id) n).2.buckets (bucket tab.self n.id)).entries =
        (tab.buckets (bucket tab.self n.id)).entries := congrArg Prod.fst (congrFun hnodes _)
    have hR : ((tab.bumpInBucket (bucket tab.self n.id) n).2.buckets (bucket tab.self n.id)).replacements =
        (tab.buckets (bucket tab.self n.id)).replacements := congrArg Prod.snd (congrFun hnodes _)
  · -- the bucket is full: `n` goes to the replacements, unless the failed bump
    -- kept its ID in the bucket, whose new address is then refused again
    by_cases hc : contains (tab.buckets (bucket tab.self n.id)).entries n.id = true
    · rw [Table.addReplacement_of_addIP_false (hrefused hc)]
      exact h.bumpInBucket _ n
    · refine (h.bumpInBucket _ n).addReplacement (by rw [hself']) (by rw [hself']; exact hself) ?_
      rw [hE]
      exact Bool.eq_false_iff.mpr hc
  · exact (h.bumpInBucket _ n).addIP _ _
  · -- there is room: `n` goes to the front of the entries, and leaves the replacements
    have hc : contains (tab.buckets (bucket tab.self n.id)).entries n.id = false := by
      refine Bool.eq_false_iff.mpr fun hc => ?_
      have := hrefused hc
      simp [this] at hadd
    refine ((h.bumpInBucket _ n).addIP _ n.ip).setBucket ?_
    simp only [Table.entries_addIP, Table.replacements_addIP, Table.addIP_self, hself', hE, hR]
    have hlt : (tab.buckets (bucket tab.self n.id)).entries.length < bucketSize := by
      rw [hE] at hfull
      omega
    rw [pushNode, if_pos hlt]
    exact (h _).insert rfl hself (contains_eq_false_iff.mp hc) (List.Perm.refl _)
      (by simp only [List.length_cons]; omega)

/-- **Step lemma**: every event keeps the invariant. -/
theorem handle (h : TableInv tab) (e : Event) : TableInv (tab.handle e) := by
  cases e with
  | addSeenNode n => exact h.addSeenNode n
  | addVerifiedNode n => exact h.addVerifiedNode n
  | delete n => exact h.deleteInBucket _ n
  | replace bi last k => exact h.replace bi last k
  | initDone => exact h

end TableInv

/-- **Run lemma**: every table a run reaches keeps the invariant. -/
theorem Table.Reachable.tableInv {self : ID} {tab : Table} (hr : tab.Reachable self) : TableInv tab := by
  induction hr with
  | empty => exact TableInv.empty self
  | step e _ ih => exact ih.handle e

theorem Table.Reachable.run {self : ID} {tab : Table} (hr : tab.Reachable self) :
    ∀ events : List Event, (events.foldl Table.handle tab).Reachable self := by
  intro events
  induction events generalizing tab with
  | nil => exact hr
  | cons e events ih => exact ih (hr.step e)

/-- All the nodes of the table, bucket by bucket. -/
def Table.allNodes (tab : Table) : List Node :=
  (List.finRange nBuckets).flatMap fun j => (tab.buckets j).entries ++ (tab.buckets j).replacements

/-- **No two nodes of the table share an ID**: no bucket has an ID twice, and
an ID's bucket is fixed by the ID. -/
theorem TableInv.nodup_ids {tab : Table} (h : TableInv tab) : (tab.allNodes.map Node.id).Nodup := by
  rw [Table.allNodes, List.map_flatMap, List.nodup_flatMap]
  refine ⟨fun j _ => (h j).nodup, (List.nodup_finRange nBuckets).pairwise_of_forall_ne ?_⟩
  intro j _ j' _ hne x hx hx'
  exact hne (((h j).bucket_eq x hx).symm.trans ((h j').bucket_eq x hx'))

/-! ### Deleting a node the table does not hold -/

theorem Table.setBucket_buckets_eq {tab : Table} (bi : Fin nBuckets) : tab.setBucket bi (tab.buckets bi) = tab := by
  rw [Table.setBucket, Function.update_eq_self]

/-- **`delete` of a node its bucket does not hold changes no node, and still
takes the node's address off the counters.** -/
theorem Table.delete_of_not_contains {tab : Table} {n : Node}
    (h : contains (tab.buckets (bucket tab.self n.id)).entries n.id = false) :
    tab.delete n = tab.removeIP (bucket tab.self n.id) n.ip := by
  have hdel : deleteNode (tab.buckets (bucket tab.self n.id)).entries n =
      (tab.buckets (bucket tab.self n.id)).entries := by
    refine List.eraseP_of_forall_not fun e he hid => contains_eq_false_iff.mp h ?_
    exact List.mem_map.mpr ⟨e, he, by simpa using hid⟩
  rw [Table.delete, Table.deleteInBucket, hdel, Table.setBucket_buckets_eq]

/-- The zero ID. -/
def zeroID : ID := Vector.replicate 32 0

/-- The ID `0x80, b, 0, …, 0`, at log distance 256 from the zero ID. -/
def farID (b : UInt8) : ID := ((Vector.replicate 32 0).setIfInBounds 0 0x80).setIfInBounds 1 b

/-- The bucket of the IDs at log distance 256. -/
def farBucket : Fin nBuckets := ⟨16, by decide⟩

/-- Two nodes of `1.2.3.0/24` seen, a third one of that subnet, which the table
never held, deleted, and a fourth one seen. -/
def deleteAbsentRun : List Event :=
  [.addSeenNode ⟨farID 1, [1, 2, 3, 1]⟩, .addSeenNode ⟨farID 2, [1, 2, 3, 2]⟩,
    .delete ⟨farID 3, [1, 2, 3, 3]⟩, .addSeenNode ⟨farID 4, [1, 2, 3, 4]⟩]

/-- The table of the zero ID after `deleteAbsentRun`. -/
def deleteAbsentTable : Table := deleteAbsentRun.foldl Table.handle (Table.empty zeroID)

set_option maxRecDepth 100000 in
/-- **Deleting a node the table does not hold breaks the subnet limits.**  It
lowers the count of `1.2.3.0/24` to one, so the bucket takes a third node of
that subnet, beyond `bucketIPLimit`, with both counters at two. -/
theorem delete_absent_breaks_ip_limit :
    deleteAbsentTable.Reachable zeroID ∧
      (deleteAbsentTable.buckets farBucket).entries.map Node.ip =
        [[1, 2, 3, 1], [1, 2, 3, 2], [1, 2, 3, 4]] ∧
      (deleteAbsentTable.buckets farBucket).entries.map (fun n => deleteAbsentTable.ips.key n.ip) =
        [[0x34, 1, 2, 3], [0x34, 1, 2, 3], [0x34, 1, 2, 3]] ∧
      bucketIPLimit < 3 ∧
      (deleteAbsentTable.buckets farBucket).ips.members [0x34, 1, 2, 3] = 2 ∧
      deleteAbsentTable.ips.members [0x34, 1, 2, 3] = 2 := by
  refine ⟨Table.Reachable.empty.run deleteAbsentRun, ?_, ?_, by decide, ?_, ?_⟩
  all_goals decide

end RpcNetwork.P2p.Discover
