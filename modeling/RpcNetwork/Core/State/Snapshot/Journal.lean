import RpcNetwork.Lib.Rlp
import RpcNetwork.Lib.GoMap

/-!
# The snapshot journal (`core/state/snapshot/journal.go`)

On shutdown the diff layers go, bottom first, into one journal: per layer its
root, the destructed accounts, the account blobs and each account's storage as
keys beside values (`diffLayer.Journal`).  `loadDiffLayer` reads them back and
stacks each layer with `newDiffLayer` until the stream ends.

RLP has no nil: nil is written as the empty string and read back as nil
(`nilIfEmpty`).  `newDiffLayer` panics on a nil account blob, so a journal with
an empty blob panics, as does a storage entry with fewer values than keys.

## Design notes

A Go map is an `AList`, whose entries list is the order `range` visits; the
theorems hold for every `AList`, so for every order.  Maps are compared by
their lookups.  The loader returns an `Except String` panic around an
`Except LoadError`, which names the value that failed to decode.  The disk
layer's entry, bloom filters and memory counts are not modelled.
-/

namespace RpcNetwork.Core.State

open Rlp

/-- `common.Hash`. -/
abbrev Hash := Vector UInt8 32

/-- A diff layer's contents: its root, the accounts it destructs, and the
account and storage data it writes.  A value is `none` for a nil slice. -/
structure DiffLayer where
  root : Hash
  destructSet : AList fun _ : Hash => Unit
  accountData : AList fun _ : Hash => Option (List UInt8)
  storageData : AList fun _ : Hash => AList fun _ : Hash => Option (List UInt8)

/-- A snapshot: the disk layer, or a diff layer over its parent. -/
inductive Snapshot where
  | disk (root : Hash)
  | diff (parent : Snapshot) (layer : DiffLayer)

/-- `Root()`. -/
def Snapshot.root : Snapshot → Hash
  | .disk root => root
  | .diff _ layer => layer.root

/-- `journalDestruct`. -/
structure JournalDestruct where
  hash : Hash

/-- `journalAccount`. -/
structure JournalAccount where
  hash : Hash
  blob : List UInt8

/-- `journalStorage`. -/
structure JournalStorage where
  hash : Hash
  keys : List Hash
  vals : List (List UInt8)

/-- The four values of one layer in the journal. -/
structure JournalEntry where
  root : Hash
  destructs : List JournalDestruct
  accounts : List JournalAccount
  storage : List JournalStorage

/-! ## Writing the journal -/

/-- A hash as RLP: its 32 bytes. -/
def hashItem (h : Hash) : Item := .bytes h.toList

/-- A `journalDestruct` as RLP: the list of its one field. -/
def JournalDestruct.toItem (e : JournalDestruct) : Item := .list [hashItem e.hash]

/-- A `journalAccount` as RLP. -/
def JournalAccount.toItem (e : JournalAccount) : Item := .list [hashItem e.hash, .bytes e.blob]

/-- A `journalStorage` as RLP. -/
def JournalStorage.toItem (e : JournalStorage) : Item :=
  .list [hashItem e.hash, .list (e.keys.map hashItem), .list (e.vals.map .bytes)]

/-- The destructs `diffLayer.Journal` collects from `destructSet`. -/
def DiffLayer.destructs (dl : DiffLayer) : List JournalDestruct :=
  dl.destructSet.entries.map fun e => ⟨e.1⟩

/-- The accounts `diffLayer.Journal` collects from `accountData`; a nil blob is
written as an empty one. -/
def DiffLayer.accounts (dl : DiffLayer) : List JournalAccount :=
  dl.accountData.entries.map fun e => ⟨e.1, e.2.getD []⟩

/-- The storage `diffLayer.Journal` collects from `storageData`: the keys and
the values of each account's slots, walked together. -/
def DiffLayer.storage (dl : DiffLayer) : List JournalStorage :=
  dl.storageData.entries.map fun e => ⟨e.1, e.2.entries.map (·.1), e.2.entries.map (·.2.getD [])⟩

/-- The values `diffLayer.Journal` writes of a layer. -/
def DiffLayer.entry (dl : DiffLayer) : JournalEntry := ⟨dl.root, dl.destructs, dl.accounts, dl.storage⟩

/-- The four `rlp.Encode` calls of one layer: the root and the three slices. -/
def JournalEntry.toBytes (e : JournalEntry) : List UInt8 :=
  encode (hashItem e.root) ++ encode (.list (e.destructs.map JournalDestruct.toItem)) ++
    encode (.list (e.accounts.map JournalAccount.toItem)) ++ encode (.list (e.storage.map JournalStorage.toItem))

/-- `diffLayer.Journal` once the parent is written. -/
def DiffLayer.journal (dl : DiffLayer) : List UInt8 := dl.entry.toBytes

/-! ## Reading it back -/

/-- A hash: a 32-byte array. -/
def decodeHash : Item → Except Error Hash := decodeVector 32

/-- `journalDestruct` from its list. -/
def JournalDestruct.decode : Item → Except Error JournalDestruct
  | .list [h] => do return ⟨← decodeHash h⟩
  | .list [] => .error .tooFewElements
  | .list _ => .error .tooManyElements
  | .bytes _ => .error .expectedList

/-- `journalAccount` from its list. -/
def JournalAccount.decode : Item → Except Error JournalAccount
  | .list [h, blob] => do return ⟨← decodeHash h, ← decodeBytes blob⟩
  | .list (_ :: _ :: _ :: _) => .error .tooManyElements
  | .list _ => .error .tooFewElements
  | .bytes _ => .error .expectedList

/-- `journalStorage` from its list. -/
def JournalStorage.decode : Item → Except Error JournalStorage
  | .list [h, keys, vals] => do return ⟨← decodeHash h, ← decodeSlice decodeHash keys, ← decodeSlice decodeBytes vals⟩
  | .list (_ :: _ :: _ :: _ :: _) => .error .tooManyElements
  | .list _ => .error .tooFewElements
  | .bytes _ => .error .expectedList

/-- The errors `loadDiffLayer` returns: which value failed to decode
(`load diff root: %v` and the like). -/
inductive LoadError where
  | root (err : Error)
  | destructs (err : Error)
  | accounts (err : Error)
  | storage (err : Error)
  deriving DecidableEq, Repr

/-- The four decodes of `loadDiffLayer`, and the stream after them. -/
def readEntry (r : List UInt8) : Except LoadError (JournalEntry × List UInt8) := do
  let (root, r) ← (decodeNext decodeHash r).mapError .root
  let (destructs, r) ← (decodeNext (decodeSlice JournalDestruct.decode) r).mapError .destructs
  let (accounts, r) ← (decodeNext (decodeSlice JournalAccount.decode) r).mapError .accounts
  let (storage, r) ← (decodeNext (decodeSlice JournalStorage.decode) r).mapError .storage
  pure (⟨root, destructs, accounts, storage⟩, r)

/-- "RLP loses nil-ness, but `[]byte{}` is not a valid item, so reinterpret
that": an empty slice is read as nil. -/
def nilIfEmpty (b : List UInt8) : Option (List UInt8) :=
  if 0 < b.length then some b else none

/-- The text of the panic on indexing `Vals` past its end. -/
def indexOutOfRange : String := "runtime error: index out of range [%d] with length %d"

/-- The text of `newDiffLayer`'s panic on a nil account. -/
def accountNil : String := "account %#x nil"

/-- `destructSet`, built from the destructs. -/
def destructSetOf (destructs : List JournalDestruct) : AList fun _ : Hash => Unit :=
  destructs.foldl (fun m e => m.insert e.hash ()) ∅

/-- `accountData`, built from the accounts. -/
def accountDataOf (accounts : List JournalAccount) : AList fun _ : Hash => Option (List UInt8) :=
  accounts.foldl (fun m e => m.insert e.hash (nilIfEmpty e.blob)) ∅

/-- One round of the slots loop: `slots[key] = entry.Vals[i]` for the `i`-th
key, which panics past the end of `Vals`. -/
def slotsStep (vals : List (List UInt8)) (slots : AList fun _ : Hash => Option (List UInt8)) :
    Hash × ℕ → Except String (AList fun _ : Hash => Option (List UInt8))
  | (key, i) => match vals[i]? with
    | some v => pure (slots.insert key (nilIfEmpty v))
    | none => throw indexOutOfRange

/-- One account's `slots`, from its keys and values. -/
def slotsOf (entry : JournalStorage) : Except String (AList fun _ : Hash => Option (List UInt8)) :=
  entry.keys.zipIdx.foldlM (slotsStep entry.vals) ∅

/-- `storageData`, built from the storage entries. -/
def storageDataOf (storage : List JournalStorage) :
    Except String (AList fun _ : Hash => AList fun _ : Hash => Option (List UInt8)) :=
  storage.foldlM (fun m e => do
    let slots ← slotsOf e
    pure (m.insert e.hash slots)) ∅

/-- `newDiffLayer(parent, root, destructs, accounts, storage)`, which panics on
a nil account blob. -/
def newDiffLayer (parent : Snapshot) (root : Hash) (destructs : AList fun _ : Hash => Unit)
    (accounts : AList fun _ : Hash => Option (List UInt8))
    (storage : AList fun _ : Hash => AList fun _ : Hash => Option (List UInt8)) : Except String Snapshot :=
  if accounts.entries.any (·.2.isNone) then throw accountNil
  else pure (.diff parent ⟨root, destructs, accounts, storage⟩)

/-- What one `loadDiffLayer` call reads takes at least one byte off the
stream. -/
theorem readEntry_rest_lt {r rest : List UInt8} {entry : JournalEntry} (h : readEntry r = .ok (entry, rest)) :
    rest.length < r.length := by
  rw [readEntry, Except.bind_eq_ok] at h
  obtain ⟨⟨root, r₁⟩, h₁, h⟩ := h
  dsimp only at h
  obtain ⟨⟨destructs, r₂⟩, h₂, h⟩ := Except.bind_eq_ok.mp h
  dsimp only at h
  obtain ⟨⟨accounts, r₃⟩, h₃, h⟩ := Except.bind_eq_ok.mp h
  dsimp only at h
  obtain ⟨⟨storage, r₄⟩, h₄, h⟩ := Except.bind_eq_ok.mp h
  dsimp only at h
  rw [Except.pure_eq_ok, Prod.mk.injEq] at h
  -- each of the four decodes takes bytes off the stream
  have l₁ := decodeNext_rest_lt (Except.mapError_eq_ok.mp h₁)
  have l₂ := decodeNext_rest_lt (Except.mapError_eq_ok.mp h₂)
  have l₃ := decodeNext_rest_lt (Except.mapError_eq_ok.mp h₃)
  have l₄ := decodeNext_rest_lt (Except.mapError_eq_ok.mp h₄)
  rw [← h.2]
  omega

set_option linter.unusedVariables false in
/-- `loadDiffLayer(parent, r)`: the layers left in the stream, stacked on
`parent`, until the stream ends where a root would start. -/
def loadDiffLayer (parent : Snapshot) (r : List UInt8) : Except String (Except LoadError Snapshot) :=
  match hentry : readEntry r with
  | .error (.root .eof) => pure (.ok parent)
  | .error e => pure (.error e)
  | .ok (entry, rest) => do
    let storageData ← storageDataOf entry.storage
    let dl ← newDiffLayer parent entry.root (destructSetOf entry.destructs) (accountDataOf entry.accounts)
      storageData
    loadDiffLayer dl rest
termination_by r.length
decreasing_by exact readEntry_rest_lt hentry

/-! ## A journal reads back -/

/-- A diff layer as the loader reads it back, maps compared by their lookups;
a nil storage value stands for an empty one. -/
structure Restored (dl dl' : DiffLayer) : Prop where
  root_eq : dl'.root = dl.root
  destructSet_lookup : ∀ h, dl'.destructSet.lookup h = dl.destructSet.lookup h
  accountData_lookup : ∀ h, dl'.accountData.lookup h = dl.accountData.lookup h
  storageData_lookup : ∀ h k, (dl'.storageData.lookup h).map (·.lookup k) =
    (dl.storageData.lookup h).map fun slots => (slots.lookup k).map fun v => nilIfEmpty (v.getD [])

/-- No account blob of the layer is nil or empty. -/
def DiffLayer.BlobsNonEmpty (dl : DiffLayer) : Prop :=
  ∀ h v, dl.accountData.lookup h = some v → ∃ b, v = some b ∧ b ≠ []

theorem decodeHash_hashItem (h : Hash) : decodeHash (hashItem h) = .ok h :=
  decodeVector_bytes 32 h

theorem JournalDestruct.decode_toItem (e : JournalDestruct) : JournalDestruct.decode e.toItem = .ok e := by
  rw [JournalDestruct.toItem, JournalDestruct.decode, decodeHash_hashItem]
  rfl

theorem JournalAccount.decode_toItem (e : JournalAccount) : JournalAccount.decode e.toItem = .ok e := by
  rw [JournalAccount.toItem, JournalAccount.decode, decodeHash_hashItem]
  rfl

theorem JournalStorage.decode_toItem (e : JournalStorage) : JournalStorage.decode e.toItem = .ok e := by
  rw [JournalStorage.toItem, JournalStorage.decode, decodeHash_hashItem, decodeSlice_map decodeHash_hashItem,
    decodeSlice_map (f := decodeBytes) (g := Item.bytes) fun _ => rfl]
  rfl

/-- **The loader's four decodes read back what the four encodes wrote.** -/
theorem readEntry_toBytes (e : JournalEntry) (rest : List UInt8) (hlen : e.toBytes.length < 2 ^ 64) :
    readEntry (e.toBytes ++ rest) = .ok (e, rest) := by
  simp only [JournalEntry.toBytes, List.length_append] at hlen
  simp only [JournalEntry.toBytes, List.append_assoc]
  rw [readEntry, decodeNext_encode (decodeHash_hashItem _) _ (by omega), Except.mapError, Except.ok_bind]
  dsimp only
  rw [decodeNext_encode (decodeSlice_map JournalDestruct.decode_toItem _) _ (by omega), Except.mapError,
    Except.ok_bind]
  dsimp only
  rw [decodeNext_encode (decodeSlice_map JournalAccount.decode_toItem _) _ (by omega), Except.mapError,
    Except.ok_bind]
  dsimp only
  rw [decodeNext_encode (decodeSlice_map JournalStorage.decode_toItem _) _ (by omega), Except.mapError,
    Except.ok_bind]
  rfl

theorem readEntry_journal (dl : DiffLayer) (rest : List UInt8) (hlen : dl.journal.length < 2 ^ 64) :
    readEntry (dl.journal ++ rest) = .ok (dl.entry, rest) :=
  readEntry_toBytes dl.entry rest hlen

/-! ### The maps rebuilt -/

/-- The slots the loader rebuilds from an account's journalled storage. -/
def restoredSlots (slots : AList fun _ : Hash => Option (List UInt8)) : AList fun _ : Hash => Option (List UInt8) :=
  slots.entries.foldl (fun m e => m.insert e.1 (nilIfEmpty (e.2.getD []))) ∅

theorem destructSetOf_destructs (dl : DiffLayer) (h : Hash) :
    (destructSetOf dl.destructs).lookup h = dl.destructSet.lookup h := by
  have hfold := GoMap.lookup_foldl_insert_entries (fun _ _ => ()) dl.destructSet h
  rw [destructSetOf, DiffLayer.destructs, List.foldl_map]
  refine hfold.trans ?_
  cases dl.destructSet.lookup h <;> rfl

theorem accountDataOf_accounts (dl : DiffLayer) (h : Hash) :
    (accountDataOf dl.accounts).lookup h = (dl.accountData.lookup h).map fun v => nilIfEmpty (v.getD []) := by
  rw [accountDataOf, DiffLayer.accounts, List.foldl_map]
  exact GoMap.lookup_foldl_insert_entries (fun _ v => nilIfEmpty (v.getD [])) dl.accountData h

/-- **The slots loop over aligned keys and values** assigns each key its value. -/
theorem foldlM_slotsStep : ∀ (l : List (Σ _ : Hash, Option (List UInt8))) (vals : List (List UInt8)) (n : ℕ)
    (acc : AList fun _ : Hash => Option (List UInt8)),
    (∀ i (hi : i < l.length), vals[n + i]? = some (l[i].2.getD [])) →
    ((l.map (·.1)).zipIdx n).foldlM (slotsStep vals) acc =
      .ok (l.foldl (fun m e => m.insert e.1 (nilIfEmpty (e.2.getD []))) acc)
  | [], _, _, _, _ => rfl
  | ⟨k, v⟩ :: l, vals, n, acc, hvals => by
    have hstep : slotsStep vals acc (k, n) = .ok (acc.insert k (nilIfEmpty (v.getD []))) := by
      have h0 := hvals 0 (Nat.succ_pos _)
      rw [slotsStep, Nat.add_zero] at *
      rw [h0]
      rfl
    rw [List.map_cons, List.zipIdx_cons, List.foldlM_cons, hstep, Except.ok_bind, List.foldl_cons]
    -- the rest of the keys meet the rest of the values one index on
    refine foldlM_slotsStep l vals (n + 1) _ fun i hi => ?_
    have hnext := hvals (i + 1) (by rw [List.length_cons]; omega)
    rw [show n + (i + 1) = n + 1 + i by omega] at hnext
    exact hnext

theorem slotsOf_storage (h : Hash) (slots : AList fun _ : Hash => Option (List UInt8)) :
    slotsOf ⟨h, slots.entries.map (·.1), slots.entries.map (·.2.getD [])⟩ = .ok (restoredSlots slots) :=
  foldlM_slotsStep slots.entries _ 0 ∅ fun i hi => by
    rw [Nat.zero_add, List.getElem?_map, List.getElem?_eq_getElem hi]
    rfl

theorem lookup_restoredSlots (slots : AList fun _ : Hash => Option (List UInt8)) (k : Hash) :
    (restoredSlots slots).lookup k = (slots.lookup k).map fun v => nilIfEmpty (v.getD []) :=
  GoMap.lookup_foldl_insert_entries (fun (_ : Hash) (v : Option (List UInt8)) => nilIfEmpty (v.getD [])) slots k

/-- **`storageData` is rebuilt** with each account's slots, empty values read
as nil. -/
theorem storageDataOf_storage (dl : DiffLayer) :
    ∃ sd, storageDataOf dl.storage = .ok sd ∧ ∀ h k, (sd.lookup h).map (·.lookup k) =
      (dl.storageData.lookup h).map fun slots => (slots.lookup k).map fun v => nilIfEmpty (v.getD []) := by
  refine ⟨dl.storageData.entries.foldl (fun m e => m.insert e.1 (restoredSlots e.2)) ∅, ?_, fun h k => ?_⟩
  · rw [storageDataOf, DiffLayer.storage, List.foldlM_map]
    refine Except.foldlM_eq_ok_foldl _ _ fun m e _ => ?_
    rw [slotsOf_storage, Except.ok_bind]
    rfl
  · rw [GoMap.lookup_foldl_insert_entries (fun _ slots => restoredSlots slots) dl.storageData h, Option.map_map]
    congr 1
    funext slots
    exact lookup_restoredSlots slots k

/-! ### A layer stacked -/

/-- `newDiffLayer` stacks a layer whose account blobs are all set. -/
theorem newDiffLayer_of_isSome (parent : Snapshot) (root : Hash) (destructs : AList fun _ : Hash => Unit)
    {accounts : AList fun _ : Hash => Option (List UInt8)}
    (storage : AList fun _ : Hash => AList fun _ : Hash => Option (List UInt8))
    (hsome : ∀ e ∈ accounts.entries, e.2.isSome) :
    newDiffLayer parent root destructs accounts storage = .ok (.diff parent ⟨root, destructs, accounts, storage⟩) := by
  have hnone : (accounts.entries.any (·.2.isNone)) = false := by
    rw [List.any_eq_false]
    intro e he
    rw [Option.isNone_iff_eq_none]
    exact Option.isSome_iff_ne_none.mp (hsome e he)
  rw [newDiffLayer, hnone]
  rfl

/-- `newDiffLayer` panics on a nil account blob. -/
theorem newDiffLayer_of_none (parent : Snapshot) (root : Hash) (destructs : AList fun _ : Hash => Unit)
    {accounts : AList fun _ : Hash => Option (List UInt8)}
    (storage : AList fun _ : Hash => AList fun _ : Hash => Option (List UInt8))
    {h : Hash} (hnil : accounts.lookup h = some none) :
    newDiffLayer parent root destructs accounts storage = .error accountNil := by
  have hany : (accounts.entries.any (·.2.isNone)) = true :=
    List.any_eq_true.mpr ⟨⟨h, none⟩, AList.mem_lookup_iff.mp hnil, rfl⟩
  rw [newDiffLayer, if_pos hany]
  rfl

/-- An empty stream is the end of the journal. -/
theorem loadDiffLayer_nil (parent : Snapshot) : loadDiffLayer parent [] = .ok (.ok parent) := by
  have hnil : readEntry [] = .error (.root .eof) := by
    rw [readEntry, decodeNext_nil]
    rfl
  rw [loadDiffLayer]
  split
  · rfl
  · rename_i e _ he
    rw [hnil, Except.error.injEq] at he
    exact absurd he.symm (by assumption)
  · rename_i he
    rw [hnil] at he
    exact nomatch he

/-- One round of `loadDiffLayer` on a layer that decodes. -/
theorem loadDiffLayer_of_readEntry {parent : Snapshot} {r rest : List UInt8} {entry : JournalEntry}
    (he : readEntry r = .ok (entry, rest)) :
    loadDiffLayer parent r = (do
      let storageData ← storageDataOf entry.storage
      let dl ← newDiffLayer parent entry.root (destructSetOf entry.destructs) (accountDataOf entry.accounts)
        storageData
      loadDiffLayer dl rest) := by
  rw [loadDiffLayer]
  split
  · rename_i he'
    rw [he] at he'
    exact nomatch he'
  · rename_i he'
    rw [he] at he'
    exact nomatch he'
  · rename_i entry' rest' he'
    rw [he, Except.ok.injEq, Prod.mk.injEq] at he'
    rw [he'.1, he'.2]

/-- The layer the loader stacks for a journalled layer. -/
def DiffLayer.restored (dl : DiffLayer) (sd : AList fun _ : Hash => AList fun _ : Hash => Option (List UInt8)) :
    DiffLayer :=
  ⟨dl.root, destructSetOf dl.destructs, accountDataOf dl.accounts, sd⟩

/-- A layer with no empty blob has no nil blob once read back. -/
theorem isSome_of_mem_accountDataOf {dl : DiffLayer} (hblobs : dl.BlobsNonEmpty)
    {e : Σ _ : Hash, Option (List UInt8)} (he : e ∈ (accountDataOf dl.accounts).entries) : e.2.isSome := by
  have hlookup : (accountDataOf dl.accounts).lookup e.1 = some e.2 := AList.mem_lookup_iff.mpr he
  rw [accountDataOf_accounts] at hlookup
  obtain ⟨v, hv, hnil⟩ := Option.map_eq_some_iff.mp hlookup
  obtain ⟨b, rfl, hb⟩ := hblobs e.1 v hv
  rw [← hnil, Option.getD_some, nilIfEmpty, if_pos (List.length_pos_of_ne_nil hb)]
  rfl

/-- A layer read back from its journal is `Restored`. -/
theorem restored_of_blobsNonEmpty {dl : DiffLayer} (hblobs : dl.BlobsNonEmpty)
    {sd : AList fun _ : Hash => AList fun _ : Hash => Option (List UInt8)}
    (hsd : ∀ h k, (sd.lookup h).map (·.lookup k) =
      (dl.storageData.lookup h).map fun slots => (slots.lookup k).map fun v => nilIfEmpty (v.getD [])) :
    Restored dl (dl.restored sd) where
  root_eq := rfl
  destructSet_lookup := destructSetOf_destructs dl
  accountData_lookup h := by
    show (accountDataOf dl.accounts).lookup h = _
    rw [accountDataOf_accounts]
    cases hv : dl.accountData.lookup h with
    | none => rfl
    | some v =>
      obtain ⟨b, rfl, hb⟩ := hblobs h v hv
      rw [Option.map_some, Option.getD_some, nilIfEmpty, if_pos (List.length_pos_of_ne_nil hb)]
  storageData_lookup := hsd

/-- **A journal reads back.**  `loadDiffLayer` over the journal of a stack of
layers, bottom first, stacks on `parent` layers with the same roots in the same
order and the same maps, an empty storage value read back as nil, provided no
account blob is empty and the journal fits a Go slice. -/
theorem loadDiffLayer_journal : ∀ (layers : List DiffLayer) (parent : Snapshot),
    (∀ dl ∈ layers, dl.BlobsNonEmpty) → (layers.flatMap DiffLayer.journal).length < 2 ^ 64 →
    ∃ layers', loadDiffLayer parent (layers.flatMap DiffLayer.journal) = .ok (.ok (layers'.foldl .diff parent)) ∧
      List.Forall₂ Restored layers layers'
  | [], parent, _, _ => ⟨[], by rw [List.flatMap_nil, loadDiffLayer_nil]; rfl, List.Forall₂.nil⟩
  | dl :: layers, parent, hblobs, hlen => by
    rw [List.flatMap_cons] at hlen ⊢
    rw [List.length_append] at hlen
    have hdl : dl.BlobsNonEmpty := hblobs dl List.mem_cons_self
    -- the layer's four values decode, its maps are rebuilt, and it is stacked
    obtain ⟨sd, hsd, hsdl⟩ := storageDataOf_storage dl
    have hnew : newDiffLayer parent dl.root (destructSetOf dl.destructs) (accountDataOf dl.accounts) sd =
        .ok (.diff parent (dl.restored sd)) :=
      newDiffLayer_of_isSome _ _ _ _ fun e he => isSome_of_mem_accountDataOf hdl he
    have hstep : loadDiffLayer parent (dl.journal ++ layers.flatMap DiffLayer.journal) =
        loadDiffLayer (.diff parent (dl.restored sd)) (layers.flatMap DiffLayer.journal) := by
      rw [loadDiffLayer_of_readEntry (readEntry_journal dl _ (by omega))]
      show (storageDataOf dl.storage >>= fun storageData => _) = _
      rw [hsd, Except.ok_bind]
      dsimp only [DiffLayer.entry]
      rw [hnew, Except.ok_bind]
    -- the layers above are read back over it
    obtain ⟨layers', hload, hall⟩ := loadDiffLayer_journal layers (.diff parent (dl.restored sd))
      (fun d hd => hblobs d (List.mem_cons_of_mem dl hd)) (by omega)
    exact ⟨dl.restored sd :: layers', by rw [hstep, hload]; rfl,
      List.Forall₂.cons (restored_of_blobsNonEmpty hdl hsdl) hall⟩

/-! ## Journals that panic -/

/-- A round of the slots loop panics only on indexing past `Vals`. -/
theorem slotsStep_error {vals : List (List UInt8)} {slots : AList fun _ : Hash => Option (List UInt8)}
    {x : Hash × ℕ} {msg : String} (h : slotsStep vals slots x = .error msg) : msg = indexOutOfRange := by
  obtain ⟨key, i⟩ := x
  rw [slotsStep] at h
  split at h
  · exact nomatch h
  · exact (Except.error.inj h).symm

/-- Rebuilding `storageData` panics only on indexing past `Vals`. -/
theorem storageDataOf_error {storage : List JournalStorage} {msg : String}
    (h : storageDataOf storage = .error msg) : msg = indexOutOfRange := by
  refine Except.foldlM_error_inv (P := fun msg => msg = indexOutOfRange) (fun m e msg hstep => ?_) storage ∅ msg h
  cases hs : slotsOf e with
  | error msg' =>
    rw [hs] at hstep
    cases hstep
    exact Except.foldlM_error_inv (P := fun msg => msg = indexOutOfRange) (fun _ _ _ => slotsStep_error) _ ∅ msg hs
  | ok slots =>
    rw [hs, Except.ok_bind] at hstep
    exact nomatch hstep

/-- **The slots loop runs off the end of `Vals`** when there are more keys than
values, from an index that still had a value. -/
theorem foldlM_slotsStep_short (vals : List (List UInt8)) :
    ∀ (keys : List Hash) (n : ℕ) (acc : AList fun _ : Hash => Option (List UInt8)),
      n ≤ vals.length → vals.length < n + keys.length →
      (keys.zipIdx n).foldlM (slotsStep vals) acc = .error indexOutOfRange
  | [], n, _, hn, hlt => absurd hlt (by rw [List.length_nil, Nat.add_zero]; exact Nat.not_lt.mpr hn)
  | key :: keys, n, acc, hn, hlt => by
    rw [List.zipIdx_cons, List.foldlM_cons]
    rcases Nat.lt_or_eq_of_le hn with hlt' | heq
    · -- `Vals[n]` exists, and the loop goes on
      have hstep : slotsStep vals acc (key, n) = .ok (acc.insert key (nilIfEmpty vals[n])) := by
        rw [slotsStep, List.getElem?_eq_getElem hlt']
        rfl
      rw [hstep, Except.ok_bind]
      exact foldlM_slotsStep_short vals keys (n + 1) _ hlt' (by rw [List.length_cons] at hlt; omega)
    · -- `Vals[n]` is one past the end
      have hstep : slotsStep vals acc (key, n) = .error indexOutOfRange := by
        rw [slotsStep, List.getElem?_eq_none (by omega)]
        rfl
      rw [hstep]
      rfl

/-- **A storage entry with fewer values than keys panics the loader**, after
its four values decoded. -/
theorem loadDiffLayer_short_vals_panics {r rest : List UInt8} {entry : JournalEntry} (parent : Snapshot)
    (he : readEntry r = .ok (entry, rest)) {e : JournalStorage} (hmem : e ∈ entry.storage)
    (hshort : e.vals.length < e.keys.length) : loadDiffLayer parent r = .error indexOutOfRange := by
  have hslots : slotsOf e = .error indexOutOfRange :=
    foldlM_slotsStep_short e.vals e.keys 0 ∅ (Nat.zero_le _) (by rw [Nat.zero_add]; exact hshort)
  -- the storage loop fails, since its round on `e` does, and every failure of it is this panic
  have hsd : ∃ msg, storageDataOf entry.storage = .error msg := by
    cases hs : storageDataOf entry.storage with
    | error msg => exact ⟨msg, rfl⟩
    | ok sd =>
      obtain ⟨m, m', hstep⟩ := Except.foldlM_ok_mem entry.storage ∅ sd hs e hmem
      obtain ⟨slots, hok, -⟩ := Except.bind_eq_ok.mp hstep
      rw [hslots] at hok
      exact nomatch hok
  obtain ⟨msg, hmsg⟩ := hsd
  rw [loadDiffLayer_of_readEntry he, hmsg, storageDataOf_error hmsg]
  rfl

/-- **A layer with an empty account blob journals to a stream that panics the
loader**: the empty blob is read back as nil, and `newDiffLayer` panics on it. -/
theorem loadDiffLayer_empty_blob_panics (parent : Snapshot) (dl : DiffLayer) (rest : List UInt8)
    (hlen : dl.journal.length < 2 ^ 64) {h : Hash} {v : Option (List UInt8)}
    (hv : dl.accountData.lookup h = some v) (hempty : v.getD [] = []) :
    loadDiffLayer parent (dl.journal ++ rest) = .error accountNil := by
  obtain ⟨sd, hsd, -⟩ := storageDataOf_storage dl
  have hnil : (accountDataOf dl.accounts).lookup h = some none := by
    rw [accountDataOf_accounts, hv, Option.map_some, hempty]
    rfl
  rw [loadDiffLayer_of_readEntry (readEntry_journal dl rest hlen)]
  show (storageDataOf dl.storage >>= _) = _
  rw [hsd, Except.ok_bind]
  dsimp only [DiffLayer.entry]
  rw [newDiffLayer_of_none _ _ _ _ hnil]
  rfl

/-- `newDiffLayer` panics only on a nil account. -/
theorem newDiffLayer_error {parent : Snapshot} {root : Hash} {destructs : AList fun _ : Hash => Unit}
    {accounts : AList fun _ : Hash => Option (List UInt8)}
    {storage : AList fun _ : Hash => AList fun _ : Hash => Option (List UInt8)} {msg : String}
    (h : newDiffLayer parent root destructs accounts storage = .error msg) : msg = accountNil := by
  rw [newDiffLayer] at h
  split at h
  · exact (Except.error.inj h).symm
  · exact nomatch h

/-- A journal whose next layer fails to decode ends the load without a panic. -/
theorem loadDiffLayer_of_readEntry_error (parent : Snapshot) {r : List UInt8} {e : LoadError}
    (he : readEntry r = .error e) : ∃ x, loadDiffLayer parent r = .ok x := by
  rw [loadDiffLayer]
  split
  · exact ⟨_, rfl⟩
  · exact ⟨_, rfl⟩
  · rename_i he'
    rw [he] at he'
    exact nomatch he'

/-- **The loader panics in two ways only**: on a nil account blob, and on a
storage entry with fewer values than keys.  Every other journal, however
corrupt, gives a snapshot or an error. -/
theorem loadDiffLayer_panic (parent : Snapshot) (r : List UInt8) {msg : String}
    (h : loadDiffLayer parent r = .error msg) : msg = accountNil ∨ msg = indexOutOfRange := by
  cases he : readEntry r with
  | error e =>
    obtain ⟨x, hx⟩ := loadDiffLayer_of_readEntry_error parent he
    rw [hx] at h
    exact nomatch h
  | ok p =>
    obtain ⟨entry, rest⟩ := p
    rw [loadDiffLayer_of_readEntry he] at h
    -- a panic of the storage loop, of `newDiffLayer`, or of a layer further on
    cases hsd : storageDataOf entry.storage with
    | error m =>
      rw [hsd] at h
      cases h
      exact Or.inr (storageDataOf_error hsd)
    | ok sd =>
      rw [hsd, Except.ok_bind] at h
      cases hnew : newDiffLayer parent entry.root (destructSetOf entry.destructs) (accountDataOf entry.accounts) sd with
      | error m =>
        rw [hnew] at h
        cases h
        exact Or.inl (newDiffLayer_error hnew)
      | ok dl =>
        rw [hnew, Except.ok_bind] at h
        exact loadDiffLayer_panic dl rest h
termination_by r.length
decreasing_by exact readEntry_rest_lt he

end RpcNetwork.Core.State
