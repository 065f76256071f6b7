import Mathlib
import RpcNetwork.Lib.BigEndian
import RpcNetwork.Lib.ByteFile

/-!
# Freezer tables

A model of `core/rawdb/freezer_table.go`: a table of blobs kept in numbered
data files, with an index file of six-byte entries `(filenum, offset)` that
point at the end of each blob.  Entry `0` carries the table's tail: the first
data file and the number of items deleted from the front (`itemOffset`).

## Design notes

The files are byte lists (`ByteFile`); a table's open `*os.File` handles are the
list `files` of their numbers, the head being the file `headId`.  A write lands
at the end of its file: every path that opens a file for writing leaves it
positioned there.  Offsets are converted the way the source converts them,
`int64` included.  Snappy is the `Snappy` argument; logging, metrics, `Sync`
and the size gauge are left out.
-/

namespace RpcNetwork.Core.Rawdb

/-- The errors of the table's methods. -/
inductive FreezerError where
  /-- `errClosed`. -/
  | closed
  /-- `errOutOfBounds`. -/
  | outOfBounds
  /-- `appending unexpected item: want %d, have %d`. -/
  | unexpectedItem (want item : UInt64)
  /-- `missing data file %d`. -/
  | missingDataFile (filenum : UInt32)
  /-- `io.EOF` from a short `ReadAt`. -/
  | eof
  /-- `os.ErrNotExist` from opening a missing file read-only. -/
  | notExist
  /-- `os.ErrInvalid`: a closed file, or a truncation to a negative size. -/
  | invalid
  /-- `snappy.ErrCorrupt`. -/
  | corrupt
  deriving DecidableEq, Repr

/-- `indexEntry`: the data file of a blob and the offset of its end. -/
structure IndexEntry where
  filenum : UInt32
  offset : UInt32
  deriving DecidableEq, Repr

/-- `indexEntrySize`. -/
def indexEntrySize : ℕ := 6

/-- `indexEntry.unmarshalBinary`. -/
def IndexEntry.unmarshalBinary (b : List UInt8) : IndexEntry :=
  ⟨(BigEndian.uint16 (b.take 2)).toUInt32, BigEndian.uint32 ((b.drop 2).take 4)⟩

/-- `indexEntry.marshallBinary`: the file number is stored as a `uint16`. -/
def IndexEntry.marshallBinary (i : IndexEntry) : List UInt8 :=
  BigEndian.putUint16 i.filenum.toUInt16 ++ BigEndian.putUint32 i.offset

@[simp] theorem IndexEntry.length_marshallBinary (e : IndexEntry) :
    e.marshallBinary.length = indexEntrySize := rfl

/-- An entry reads back with its file number cut to the 16 bits stored. -/
theorem IndexEntry.unmarshalBinary_marshallBinary (e : IndexEntry) :
    IndexEntry.unmarshalBinary e.marshallBinary = ⟨e.filenum.toUInt16.toUInt32, e.offset⟩ := by
  rw [unmarshalBinary, marshallBinary, List.take_left' (BigEndian.length_putUint16 _),
    List.drop_left' (BigEndian.length_putUint16 _),
    List.take_of_length_le (Nat.le_of_eq (BigEndian.length_putUint32 _)),
    BigEndian.uint16_putUint16, BigEndian.uint32_putUint32]

theorem IndexEntry.unmarshalBinary_marshallBinary_of_lt {e : IndexEntry}
    (h : e.filenum.toNat < 2 ^ 16) : IndexEntry.unmarshalBinary e.marshallBinary = e := by
  rw [unmarshalBinary_marshallBinary]
  congr 1
  apply UInt32.toNat_inj.mp
  rw [UInt16.toNat_toUInt32, UInt32.toNat_toUInt16, Nat.mod_eq_of_lt h]

/-- The calls to `github.com/golang/snappy`. -/
structure Snappy where
  encode : List UInt8 → List UInt8
  decode : List UInt8 → Option (List UInt8)

/-- The table's directory: its index file and its data files by number, `none`
where there is no such file. -/
structure Disk where
  index : List UInt8
  data : UInt32 → Option (List UInt8)

/-- `freezerTable`. -/
structure FreezerTable where
  items : UInt64
  noCompression : Bool
  maxFileSize : UInt32
  /-- the numbers of the data files open in `files` -/
  files : List UInt32
  headId : UInt32
  tailId : UInt32
  itemOffset : UInt32
  headBytes : UInt32
  disk : Disk
  /-- `index == nil || head == nil`, after `Close` -/
  closed : Bool

/-- Go's `int64(x)` for a `uint64`. -/
def int64 (x : UInt64) : ℤ := x.toInt64.toInt

/-- The three ways the table opens a data file. -/
inductive Opener where
  /-- `openFreezerFileForAppend`: create it if missing. -/
  | forAppend
  /-- `openFreezerFileForReadOnly`: fail if missing. -/
  | readOnly
  /-- `openFreezerFileTruncated`: create it, or empty it. -/
  | truncated
  deriving DecidableEq

/-- The file an opener leaves on disk, or `none` when the open fails. -/
def Opener.apply : Opener → Option (List UInt8) → Option (List UInt8)
  | .forAppend, f => some (f.getD [])
  | .readOnly, f => f
  | .truncated, _ => some []

namespace Disk

/-- The empty directory. -/
def empty : Disk := ⟨[], fun _ => none⟩

/-- Set the contents of data file `num`. -/
def setData (d : Disk) (num : UInt32) (f : List UInt8) : Disk :=
  { d with data := Function.update d.data num (some f) }

/-- The contents of data file `num`, empty if it is missing. -/
def file (d : Disk) (num : UInt32) : List UInt8 := (d.data num).getD []

@[simp] theorem data_setData_self (d : Disk) (num : UInt32) (f : List UInt8) :
    (d.setData num f).data num = some f := Function.update_self _ _ _

theorem data_setData_of_ne (d : Disk) {num n : UInt32} (f : List UInt8) (h : n ≠ num) :
    (d.setData num f).data n = d.data n := Function.update_of_ne h _ _

@[simp] theorem index_setData (d : Disk) (num : UInt32) (f : List UInt8) :
    (d.setData num f).index = d.index := rfl

theorem file_eq_of_data {d : Disk} {num : UInt32} {f : List UInt8} (h : d.data num = some f) :
    d.file num = f := by
  rw [file, h, Option.getD_some]

end Disk

namespace FreezerTable

/-- `openFile`: an open file is reused, otherwise the opener runs. -/
def openFile (t : FreezerTable) (num : UInt32) (opener : Opener) : Except FreezerError FreezerTable :=
  if num ∈ t.files then .ok t
  else
    match opener.apply (t.disk.data num) with
    | some f => .ok { t with files := num :: t.files, disk := t.disk.setData num f }
    | none => .error .notExist

/-- `releaseFile`. -/
def releaseFile (t : FreezerTable) (num : UInt32) : FreezerTable :=
  { t with files := t.files.erase num }

/-- `releaseFilesAfter`: close the open files above `num`, and delete them when
`remove` is set. -/
def releaseFilesAfter (t : FreezerTable) (num : UInt32) (remove : Bool) : FreezerTable :=
  { t with
    files := t.files.filter (· ≤ num)
    disk := if remove then
        { t.disk with data := fun f => if f ∈ t.files ∧ num < f then none else t.disk.data f }
      else t.disk }

/-- `preopen`: open the files from the tail to the head, the head for appending. -/
def preopen (t : FreezerTable) : Except FreezerError FreezerTable := do
  let t := t.releaseFilesAfter 0 false
  let t ← (List.range' t.tailId.toNat (t.headId.toNat - t.tailId.toNat)).foldlM
    (fun t i => t.openFile i.toUInt32 .readOnly) t
  t.openFile t.headId .forAppend

/-- The loop of `repair`: truncate the head file and the index until the last
entry points at the end of the head; each of the `fuel` rounds shortens the
index or ends the loop. -/
def repairLoop : ℕ → FreezerTable → List UInt8 → ℤ → IndexEntry → ℤ → ℤ →
    Except FreezerError (FreezerTable × ℤ × IndexEntry × ℤ)
  | 0, t, _, offsetsSize, lastIndex, _, contentSize => .ok (t, offsetsSize, lastIndex, contentSize)
  | fuel + 1, t, buffer, offsetsSize, lastIndex, contentExp, contentSize =>
    if contentExp = contentSize then .ok (t, offsetsSize, lastIndex, contentSize)
    else do
      -- truncate the head file to the last offset pointer
      let (t, contentSize) ← if contentExp < contentSize then
          match ByteFile.truncate (t.disk.file lastIndex.filenum) contentExp with
          | some head => pure ({ t with disk := t.disk.setData lastIndex.filenum head }, contentExp)
          | none => throw .invalid
        else pure (t, contentSize)
      -- truncate the index to point within the head file
      if contentSize < contentExp then
        match ByteFile.truncate t.disk.index (offsetsSize - indexEntrySize) with
        | none => throw .invalid
        | some index =>
          let t := { t with disk := { t.disk with index := index } }
          let offsetsSize := offsetsSize - indexEntrySize
          let buffer := ByteFile.readInto t.disk.index buffer (offsetsSize - indexEntrySize)
          let newLastIndex := IndexEntry.unmarshalBinary buffer
          -- we might have slipped back into an earlier head file
          let (t, contentSize) ← if newLastIndex.filenum ≠ lastIndex.filenum then do
              let t ← (t.releaseFile lastIndex.filenum).openFile newLastIndex.filenum .forAppend
              pure (t, ((t.disk.file newLastIndex.filenum).length : ℤ))
            else pure (t, contentSize)
          repairLoop fuel t buffer offsetsSize newLastIndex newLastIndex.offset.toNat contentSize
      else repairLoop fuel t buffer offsetsSize lastIndex contentExp contentSize

/-- `repair`: bring the index and the head file in line, and set the counters. -/
def repair (t : FreezerTable) : Except FreezerError FreezerTable := do
  let buffer := List.replicate indexEntrySize (0 : UInt8)
  let size := t.disk.index.length
  -- a new index starts with the zero entry
  let t := if size = 0 then { t with disk := { t.disk with index := t.disk.index ++ buffer } } else t
  -- the index is a whole number of entries; the truncation's error is dropped
  let t := if size % indexEntrySize ≠ 0 then
      { t with disk := { t.disk with
        index := (ByteFile.truncate t.disk.index (size - size % indexEntrySize)).getD t.disk.index } }
    else t
  let offsetsSize : ℤ := t.disk.index.length
  let buffer := ByteFile.readInto t.disk.index buffer 0
  let firstIndex := IndexEntry.unmarshalBinary buffer
  let t := { t with tailId := firstIndex.filenum, itemOffset := firstIndex.offset }
  let buffer := ByteFile.readInto t.disk.index buffer (offsetsSize - indexEntrySize)
  let lastIndex := IndexEntry.unmarshalBinary buffer
  let t ← t.openFile lastIndex.filenum .forAppend
  let contentSize : ℤ := (t.disk.file lastIndex.filenum).length
  let (t, offsetsSize, lastIndex, contentSize) ←
    repairLoop ((offsetsSize / indexEntrySize).toNat + 2) t buffer offsetsSize lastIndex
      lastIndex.offset.toNat contentSize
  let t := { t with
    items := t.itemOffset.toUInt64 + UInt64.ofInt (offsetsSize.tdiv indexEntrySize - 1)
    headBytes := UInt32.ofInt contentSize
    headId := lastIndex.filenum }
  t.preopen

/-- `Append`: write the next item, in a new data file when the head would pass
`maxFileSize` or its size would wrap. -/
def append (snappy : Snappy) (t : FreezerTable) (item : UInt64) (blob : List UInt8) :
    Except FreezerError FreezerTable := do
  if t.closed then throw .closed
  if t.items ≠ item then throw (.unexpectedItem t.items item)
  let blob := if t.noCompression then blob else snappy.encode blob
  let bLen : UInt32 := blob.length.toUInt32
  let t ← if t.headBytes + bLen < bLen ∨ t.headBytes + bLen > t.maxFileSize then do
      -- we need a new file, writing would overflow
      let nextID := t.headId + 1
      let t ← t.openFile nextID .truncated
      -- the old head is reopened read-only; that error is dropped
      let t := t.releaseFile t.headId
      let t := match t.openFile t.headId .readOnly with
        | .ok t' => t'
        | .error _ => t
      pure { t with headBytes := 0, headId := nextID }
    else pure t
  let newOffset := t.headBytes + bLen
  let idx : IndexEntry := ⟨t.headId, newOffset⟩
  pure { t with
    disk := { t.disk.setData t.headId (t.disk.file t.headId ++ blob) with
      index := t.disk.index ++ idx.marshallBinary }
    headBytes := newOffset
    items := t.items + 1 }

/-- `getBounds`: the start and end offset of item `item` (counted from the tail)
and its data file. -/
def getBounds (t : FreezerTable) (item : UInt64) : Except FreezerError (UInt32 × UInt32 × UInt32) :=
  match ByteFile.readAt t.disk.index (int64 ((item + 1) * indexEntrySize.toUInt64)) indexEntrySize with
  | none => .error .eof
  | some buf =>
    let endIdx := IndexEntry.unmarshalBinary buf
    if item ≠ 0 then
      match ByteFile.readAt t.disk.index (int64 (item * indexEntrySize.toUInt64)) indexEntrySize with
      | none => .error .eof
      | some buf =>
        let startIdx := IndexEntry.unmarshalBinary buf
        -- a blob that crosses into a new file lies whole in that file
        if startIdx.filenum ≠ endIdx.filenum then .ok (0, endIdx.offset, endIdx.filenum)
        else .ok (startIdx.offset, endIdx.offset, endIdx.filenum)
    else
      -- the first item starts at offset zero
      .ok (0, endIdx.offset, endIdx.filenum)

/-- `Retrieve`. -/
def retrieve (snappy : Snappy) (t : FreezerTable) (item : UInt64) : Except FreezerError (List UInt8) := do
  if t.closed then throw .closed
  if t.items ≤ item then throw .outOfBounds
  -- the item was not deleted from the tail either
  if t.itemOffset.toUInt64 > item then throw .outOfBounds
  let (startOffset, endOffset, filenum) ← t.getBounds (item - t.itemOffset.toUInt64)
  if filenum ∉ t.files then throw (.missingDataFile filenum)
  match ByteFile.readAt (t.disk.file filenum) startOffset.toNat (endOffset - startOffset).toNat with
  | none => throw .eof
  | some blob =>
    if t.noCompression then pure blob
    else match snappy.decode blob with
      | some b => pure b
      | none => throw .corrupt

/-- `truncate`: discard the items from `items` on. -/
def truncate (t : FreezerTable) (items : UInt64) : Except FreezerError FreezerTable := do
  let existing := t.items
  if existing ≤ items then return t
  -- `sizeNolock` reads the closed index
  if t.closed then throw .invalid
  let index ← match ByteFile.truncate t.disk.index
      ((items + 1).toInt64 * indexEntrySize.toInt64).toInt with
    | some index => pure index
    | none => throw .invalid
  let t := { t with disk := { t.disk with index := index } }
  let buffer ← match ByteFile.readAt t.disk.index (int64 (items * indexEntrySize.toUInt64))
      indexEntrySize with
    | some buffer => pure buffer
    | none => throw .eof
  let expected := IndexEntry.unmarshalBinary buffer
  -- we might need to truncate back to older files
  let t ← if expected.filenum ≠ t.headId then do
      let t ← (t.releaseFile expected.filenum).openFile expected.filenum .forAppend
      let t := t.releaseFilesAfter expected.filenum true
      pure { t with headId := expected.filenum }
    else pure t
  match ByteFile.truncate (t.disk.file t.headId) expected.offset.toNat with
  | some head => pure { t with disk := t.disk.setData t.headId head, items := items, headBytes := expected.offset }
  | none => throw .invalid

/-- `Close`: a second `Close` fails on the closed index. -/
def close (t : FreezerTable) : Except FreezerError FreezerTable :=
  if t.closed then .error .invalid else .ok { t with closed := true }

end FreezerTable

/-- `newCustomTable`: open the table over what is on disk and repair it. -/
def newCustomTable (disk : Disk) (maxFilesize : UInt32) (noCompression : Bool) :
    Except FreezerError FreezerTable :=
  FreezerTable.repair
    { items := 0, noCompression, maxFileSize := maxFilesize, files := [], headId := 0, tailId := 0,
      itemOffset := 0, headBytes := 0, disk, closed := false }

/-! ### Spec lemmas -/

/-- The bytes `Append` writes for `blob`. -/
def stored (snappy : Snappy) (noCompression : Bool) (blob : List UInt8) : List UInt8 :=
  if noCompression then blob else snappy.encode blob

namespace FreezerTable

variable {t : FreezerTable}

theorem openFile_of_mem {num : UInt32} (h : num ∈ t.files) (o : Opener) : t.openFile num o = .ok t := by
  rw [openFile, if_pos h]

theorem openFile_of_not_mem {num : UInt32} (h : num ∉ t.files) {o : Opener} {f : List UInt8}
    (hf : o.apply (t.disk.data num) = some f) :
    t.openFile num o = .ok { t with files := num :: t.files, disk := t.disk.setData num f } := by
  rw [openFile, if_neg h, hf]

/-- Opening a file that exists, with an opener that keeps it, adds it to the
open files and leaves the disk as it was. -/
theorem openFile_of_data {num : UInt32} {d : List UInt8} (hd : t.disk.data num = some d) {o : Opener}
    (ho : o.apply (some d) = some d) :
    ∃ F : List UInt32, (∀ g, g ∈ F ↔ g = num ∨ g ∈ t.files) ∧ t.openFile num o = .ok { t with files := F } := by
  by_cases hmem : num ∈ t.files
  · refine ⟨t.files, fun g => ⟨Or.inr, ?_⟩, by rw [openFile_of_mem hmem]⟩
    rintro (rfl | hg)
    exacts [hmem, hg]
  · refine ⟨num :: t.files, fun g => List.mem_cons, ?_⟩
    rw [openFile_of_not_mem hmem (by rw [hd]; exact ho)]
    have hsame : t.disk.setData num d = t.disk := by
      unfold Disk.setData
      rw [← hd, Function.update_eq_self]
    rw [hsame]

/-- `Append` when the blob fits in the head file. -/
theorem append_of_fits (snappy : Snappy) (blob : List UInt8) (hc : t.closed = false)
    (hfit : ¬ (t.headBytes + (stored snappy t.noCompression blob).length.toUInt32 <
        (stored snappy t.noCompression blob).length.toUInt32 ∨
      t.headBytes + (stored snappy t.noCompression blob).length.toUInt32 > t.maxFileSize)) :
    t.append snappy t.items blob = .ok { t with
      disk := { t.disk.setData t.headId (t.disk.file t.headId ++ stored snappy t.noCompression blob) with
        index := t.disk.index ++ (IndexEntry.mk t.headId
          (t.headBytes + (stored snappy t.noCompression blob).length.toUInt32)).marshallBinary }
      headBytes := t.headBytes + (stored snappy t.noCompression blob).length.toUInt32
      items := t.items + 1 } := by
  have hs : (if t.noCompression = true then blob else snappy.encode blob) =
      stored snappy t.noCompression blob := rfl
  unfold append
  simp only [hc, Bool.false_eq_true, ↓reduceIte, ne_eq, not_true_eq_false]
  rw [hs, if_neg hfit]
  simp only [bind, Except.bind, pure, Except.pure, hc]

/-- `Append` when the blob starts a new file: the next file is created empty,
and the old head stays open read-only. -/
theorem append_of_overflow (snappy : Snappy) (blob : List UInt8) (hc : t.closed = false)
    (hover : t.headBytes + (stored snappy t.noCompression blob).length.toUInt32 <
        (stored snappy t.noCompression blob).length.toUInt32 ∨
      t.headBytes + (stored snappy t.noCompression blob).length.toUInt32 > t.maxFileSize)
    (hnext : t.headId + 1 ∉ t.files) (hne : t.headId + 1 ≠ t.headId) {d : List UInt8}
    (hd : t.disk.data t.headId = some d) :
    ∃ F : List UInt32, (∀ f, f ∈ F ↔ f = t.headId + 1 ∨ f ∈ t.files.erase t.headId ∨ f = t.headId) ∧
      t.append snappy t.items blob = .ok { t with
        files := F
        disk := { t.disk.setData (t.headId + 1) (stored snappy t.noCompression blob) with
          index := t.disk.index ++ (IndexEntry.mk (t.headId + 1)
            (0 + (stored snappy t.noCompression blob).length.toUInt32)).marshallBinary }
        headId := t.headId + 1
        headBytes := 0 + (stored snappy t.noCompression blob).length.toUInt32
        items := t.items + 1 } := by
  have hopen := openFile_of_not_mem (t := t) (o := .truncated) hnext rfl
  set t₂ : FreezerTable :=
    { t with files := ((t.headId + 1) :: t.files).erase t.headId, disk := t.disk.setData (t.headId + 1) [] }
    with ht₂
  -- the old head, reopened read-only, keeps its contents
  have hdata : t₂.disk.data t.headId = some d := by
    rw [ht₂, Disk.data_setData_of_ne _ _ (Ne.symm hne), hd]
  obtain ⟨F, hF, hreopen⟩ := openFile_of_data hdata (o := .readOnly) rfl
  have herase : ((t.headId + 1) :: t.files).erase t.headId = (t.headId + 1) :: t.files.erase t.headId :=
    List.erase_cons_tail (by simp [hne])
  refine ⟨F, fun f => ?_, ?_⟩
  · rw [hF, ht₂]
    dsimp only
    rw [herase, List.mem_cons]
    constructor
    · rintro (rfl | rfl | h)
      exacts [Or.inr (Or.inr rfl), Or.inl rfl, Or.inr (Or.inl h)]
    · rintro (rfl | h | rfl)
      exacts [Or.inr (Or.inl rfl), Or.inr (Or.inr h), Or.inl rfl]
  have hs : (if t.noCompression = true then blob else snappy.encode blob) =
      stored snappy t.noCompression blob := rfl
  unfold append
  simp only [hc, Bool.false_eq_true, ↓reduceIte, ne_eq, not_true_eq_false]
  rw [hs, if_pos hover]
  simp only [bind, Except.bind, hopen, releaseFile, pure, Except.pure]
  rw [← ht₂, hreopen]
  simp only [ht₂, Disk.file, Disk.setData, Function.update_self, Option.getD_some, List.nil_append,
    Function.update_idem, hc]

/-- The files at or below the cut keep their contents. -/
theorem releaseFilesAfter_data_of_le {num g : UInt32} (h : g ≤ num) (remove : Bool) :
    (t.releaseFilesAfter num remove).disk.data g = t.disk.data g := by
  unfold releaseFilesAfter
  cases remove with
  | false => rfl
  | true => exact if_neg fun hg => absurd h (UInt32.not_le.mpr hg.2)

theorem mem_releaseFilesAfter {num g : UInt32} (remove : Bool) :
    g ∈ (t.releaseFilesAfter num remove).files ↔ g ∈ t.files ∧ g ≤ num := by
  simp [releaseFilesAfter]

/-- Opening a run of existing files read-only adds them to the open files. -/
theorem foldlM_openFile {l : List ℕ} (hex : ∀ i ∈ l, (t.disk.data i.toUInt32).isSome) :
    ∃ F : List UInt32, (∀ g, g ∈ F ↔ g ∈ t.files ∨ ∃ i ∈ l, i.toUInt32 = g) ∧
      l.foldlM (fun t i => t.openFile i.toUInt32 .readOnly) t = .ok { t with files := F } := by
  induction l generalizing t with
  | nil => exact ⟨t.files, by simp, rfl⟩
  | cons i l ih =>
    obtain ⟨d, hd⟩ := Option.isSome_iff_exists.mp (hex i List.mem_cons_self)
    obtain ⟨F₁, hF₁, hopen⟩ := openFile_of_data hd (o := .readOnly) rfl
    obtain ⟨F, hF, hfold⟩ := ih (t := { t with files := F₁ }) (fun j hj => hex j (List.mem_cons_of_mem _ hj))
    refine ⟨F, fun g => ?_, ?_⟩
    · rw [hF]
      dsimp only
      rw [hF₁]
      simp only [List.mem_cons, exists_eq_or_imp]
      constructor
      · rintro ((rfl | h) | h)
        exacts [Or.inr (Or.inl rfl), Or.inl h, Or.inr (Or.inr h)]
      · rintro (h | rfl | h)
        exacts [Or.inl (Or.inr h), Or.inl (Or.inl rfl), Or.inr h]
    · rw [List.foldlM_cons, hopen]
      exact hfold

theorem mem_range'_toUInt32 {a b g : UInt32} :
    (∃ i ∈ List.range' a.toNat (b.toNat - a.toNat), i.toUInt32 = g) ↔ a ≤ g ∧ g < b := by
  rw [UInt32.le_iff_toNat_le, UInt32.lt_iff_toNat_lt]
  constructor
  · rintro ⟨i, hi, rfl⟩
    rw [List.mem_range'_1] at hi
    have hb := b.toNat_lt
    rw [Nat.toUInt32_eq, UInt32.toNat_ofNat', Nat.mod_eq_of_lt (by omega)]
    omega
  · rintro ⟨hlo, hhi⟩
    exact ⟨g.toNat, List.mem_range'_1.mpr ⟨hlo, by omega⟩, by rw [Nat.toUInt32_eq, UInt32.ofNat_toNat]⟩

/-- `preopen` opens the files from the tail to the head, which exist. -/
theorem preopen_spec (hle : t.tailId ≤ t.headId)
    (hex : ∀ f, t.tailId ≤ f → f ≤ t.headId → (t.disk.data f).isSome) :
    ∃ F : List UInt32, (∀ g, g ∈ F ↔ (g ∈ t.files ∧ g ≤ 0) ∨ (t.tailId ≤ g ∧ g ≤ t.headId)) ∧
      t.preopen = .ok { t with files := F } := by
  obtain ⟨F₁, hF₁, hfold⟩ := foldlM_openFile (t := t.releaseFilesAfter 0 false)
    (l := List.range' (t.releaseFilesAfter 0 false).tailId.toNat
      ((t.releaseFilesAfter 0 false).headId.toNat - (t.releaseFilesAfter 0 false).tailId.toNat)) (fun i hi => by
      obtain ⟨hlo, hhi⟩ := mem_range'_toUInt32.mp ⟨i, hi, rfl⟩
      exact hex _ hlo (UInt32.le_of_lt hhi))
  obtain ⟨d, hd⟩ := Option.isSome_iff_exists.mp (hex t.headId hle (UInt32.le_refl _))
  obtain ⟨F, hF, hopen⟩ := openFile_of_data (t := { t.releaseFilesAfter 0 false with files := F₁ }) hd
    (o := .forAppend) rfl
  refine ⟨F, fun g => ?_, ?_⟩
  · rw [hF]
    dsimp only
    rw [hF₁, mem_releaseFilesAfter, mem_range'_toUInt32]
    constructor
    · rintro (rfl | h | ⟨hlo, hhi⟩)
      exacts [Or.inr ⟨hle, UInt32.le_refl _⟩, Or.inl h, Or.inr ⟨hlo, UInt32.le_of_lt hhi⟩]
    · rintro (h | ⟨hlo, hhi⟩)
      · exact Or.inr (Or.inl h)
      · rcases UInt32.lt_or_eq_of_le hhi with hlt | rfl
        exacts [Or.inr (Or.inr ⟨hlo, hlt⟩), Or.inl rfl]
  · unfold preopen
    simp only [bind, Except.bind]
    rw [hfold]
    exact hopen

/-- The repair loop stops at once when the head file has the size the last
entry expects. -/
theorem repairLoop_of_eq {fuel : ℕ} (hf : 0 < fuel) {buf : List UInt8} {offsetsSize : ℤ}
    {lastIndex : IndexEntry} {contentSize : ℤ} (h : (lastIndex.offset.toNat : ℤ) = contentSize) :
    repairLoop fuel t buf offsetsSize lastIndex lastIndex.offset.toNat contentSize =
      .ok (t, offsetsSize, lastIndex, contentSize) := by
  obtain ⟨fuel, rfl⟩ := Nat.exists_eq_add_of_lt hf
  rw [repairLoop, if_pos h]

/-- `repair` of a whole index whose last entry matches its head file: the head
is opened and the counters are read off the first and the last entry. -/
theorem repair_spec (hsize : t.disk.index.length ≠ 0) (hmod : t.disk.index.length % indexEntrySize = 0)
    {b₀ b₁ : List UInt8} (hfirst : ByteFile.readAt t.disk.index 0 indexEntrySize = some b₀)
    (hlast : ByteFile.readAt t.disk.index ((t.disk.index.length : ℤ) - indexEntrySize) indexEntrySize = some b₁)
    {d : List UInt8} (hd : t.disk.data (IndexEntry.unmarshalBinary b₁).filenum = some d)
    (hcontent : d.length = (IndexEntry.unmarshalBinary b₁).offset.toNat) :
    ∃ F : List UInt32, (∀ g, g ∈ F ↔ g = (IndexEntry.unmarshalBinary b₁).filenum ∨ g ∈ t.files) ∧
      t.repair = FreezerTable.preopen { t with
        files := F
        tailId := (IndexEntry.unmarshalBinary b₀).filenum
        itemOffset := (IndexEntry.unmarshalBinary b₀).offset
        items := (IndexEntry.unmarshalBinary b₀).offset.toUInt64 +
          UInt64.ofInt ((t.disk.index.length : ℤ).tdiv indexEntrySize - 1)
        headBytes := UInt32.ofInt d.length
        headId := (IndexEntry.unmarshalBinary b₁).filenum } := by
  have hlen₀ := ByteFile.length_of_readAt hfirst
  obtain ⟨F, hF, hopen⟩ := openFile_of_data (t := { t with
    tailId := (IndexEntry.unmarshalBinary b₀).filenum, itemOffset := (IndexEntry.unmarshalBinary b₀).offset })
    hd (o := .forAppend) rfl
  -- the reads whose errors `repair` drops are whole here
  have hread₀ : ByteFile.readInto t.disk.index (List.replicate indexEntrySize 0) 0 = b₀ :=
    ByteFile.readInto_of_readAt (by rw [List.length_replicate]; exact hfirst)
  have hread₁ : ByteFile.readInto t.disk.index b₀ ((t.disk.index.length : ℤ) - indexEntrySize) = b₁ :=
    ByteFile.readInto_of_readAt (by rw [hlen₀]; exact hlast)
  refine ⟨F, hF, ?_⟩
  unfold repair
  simp only [if_neg hsize, hmod, ne_eq, not_true_eq_false, ↓reduceIte]
  rw [hread₀, hread₁, hopen]
  simp only [bind, Except.bind]
  rw [Disk.file_eq_of_data hd, repairLoop_of_eq (by omega) (by rw [hcontent])]

/-- What `truncate` leaves when it cuts the table back to `n` items: the index
`index`, whose last entry `e` names the new head, and that head, which held `d`,
cut to `e.offset` bytes. -/
structure Truncated (t t' : FreezerTable) (n : UInt64) (index : List UInt8) (e : IndexEntry)
    (d : List UInt8) : Prop where
  items_eq : t'.items = n
  headId_eq : t'.headId = e.filenum
  headBytes_eq : t'.headBytes = e.offset
  index_eq : t'.disk.index = index
  head_data : t'.disk.data e.filenum = some (d.take e.offset.toNat)
  /-- the files below the new head keep their contents -/
  data_below : ∀ g, g < e.filenum → t'.disk.data g = t.disk.data g
  files_kept : ∀ g ∈ t.files, g ≤ e.filenum → g ∈ t'.files
  files_le : ∀ g ∈ t'.files, g ≤ e.filenum ∨ (g ∈ t.files ∧ e.filenum = t.headId)
  closed_eq : t'.closed = t.closed
  noCompression_eq : t'.noCompression = t.noCompression
  maxFileSize_eq : t'.maxFileSize = t.maxFileSize
  tailId_eq : t'.tailId = t.tailId
  itemOffset_eq : t'.itemOffset = t.itemOffset

/-- `truncate` to the table's size or beyond does nothing. -/
theorem truncate_of_items_le {n : UInt64} (h : t.items ≤ n) : t.truncate n = .ok t := by
  unfold truncate
  simp only [if_pos h]
  rfl

/-- `truncate` below the table's size, once the index is cut and its new last
entry read. -/
theorem truncate_spec {n : UInt64} (hn : ¬ t.items ≤ n) (hc : t.closed = false) {index : List UInt8}
    (hidx : ByteFile.truncate t.disk.index ((n + 1).toInt64 * indexEntrySize.toInt64).toInt = some index)
    {buf : List UInt8}
    (hbuf : ByteFile.readAt index (int64 (n * indexEntrySize.toUInt64)) indexEntrySize = some buf)
    {d : List UInt8} (hd : t.disk.data (IndexEntry.unmarshalBinary buf).filenum = some d)
    (hoff : (IndexEntry.unmarshalBinary buf).offset.toNat ≤ d.length) :
    ∃ t', t.truncate n = .ok t' ∧ Truncated t t' n index (IndexEntry.unmarshalBinary buf) d := by
  have hcut := ByteFile.truncate_of_le hoff
  unfold truncate
  simp only [if_neg hn, if_neg (show ¬ t.closed = true by rw [hc]; decide), hidx, bind, Except.bind, pure,
    Except.pure]
  rw [hbuf]
  dsimp only
  set e := IndexEntry.unmarshalBinary buf with he
  by_cases hh : e.filenum = t.headId
  · rw [if_neg (not_not.mpr hh)]
    have hfile : Disk.file { index := index, data := t.disk.data } t.headId = d :=
      Disk.file_eq_of_data (hh ▸ hd)
    rw [hfile, hcut]
    refine ⟨_, rfl, ?_⟩
    exact {
      items_eq := rfl
      headId_eq := hh.symm
      headBytes_eq := rfl
      index_eq := rfl
      head_data := by rw [hh]; exact Disk.data_setData_self _ _ _
      data_below := fun g hg => Disk.data_setData_of_ne _ _ (hh ▸ UInt32.ne_of_lt hg)
      files_kept := fun g hg _ => hg
      files_le := fun g hg => Or.inr ⟨hg, hh⟩
      closed_eq := rfl
      noCompression_eq := rfl
      maxFileSize_eq := rfl
      tailId_eq := rfl
      itemOffset_eq := rfl }
  · rw [if_pos hh]
    obtain ⟨F, hF, hopen⟩ := openFile_of_data (t := ({ t with disk := ⟨index, t.disk.data⟩ } : FreezerTable).releaseFile e.filenum)
      hd (o := .forAppend) rfl
    rw [hopen]
    dsimp only
    rw [Disk.file_eq_of_data (by rw [releaseFilesAfter_data_of_le (UInt32.le_refl _)]; exact hd), hcut]
    refine ⟨_, rfl, ?_⟩
    exact {
      items_eq := rfl
      headId_eq := rfl
      headBytes_eq := rfl
      index_eq := rfl
      head_data := Disk.data_setData_self _ _ _
      data_below := fun g hg => by
        rw [Disk.data_setData_of_ne _ _ (UInt32.ne_of_lt hg),
          releaseFilesAfter_data_of_le (UInt32.le_of_lt hg)]
        rfl
      files_kept := fun g hg hle => by
        refine (mem_releaseFilesAfter true).mpr ⟨(hF g).mpr ?_, hle⟩
        by_cases hgf : g = e.filenum
        · exact Or.inl hgf
        · exact Or.inr ((List.mem_erase_of_ne hgf).mpr hg)
      files_le := fun g hg => Or.inl ((mem_releaseFilesAfter true).mp hg).2
      closed_eq := rfl
      noCompression_eq := rfl
      maxFileSize_eq := rfl
      tailId_eq := rfl
      itemOffset_eq := rfl }

end FreezerTable

/-! ### `TestOffset` -/

/-- The disk `TestOffset` leaves after its crop: files `0` and `1` deleted, and
the index rewritten to the entry `(2, 4)` followed by those of items `4` and
`5`, twenty bytes each in file `2`. -/
def testOffsetDisk : Disk where
  index := (([⟨2, 4⟩, ⟨2, 20⟩, ⟨2, 40⟩] : List IndexEntry).map IndexEntry.marshallBinary).flatten
  data := fun n => if n = 2 then some (List.replicate 20 0xbb ++ List.replicate 20 0xaa) else none

-- `checkPresent(4)`: the reopened table appends item `6` and reads `4`, `5`, `6`.
example : (do
    let t ← newCustomTable testOffsetDisk 40 true
    let t ← t.append ⟨id, some⟩ 6 (List.replicate 20 0x99)
    let a ← t.retrieve ⟨id, some⟩ 4
    let b ← t.retrieve ⟨id, some⟩ 5
    let c ← t.retrieve ⟨id, some⟩ 6
    pure (a, b, c)) =
      .ok (List.replicate 20 0xbb, List.replicate 20 0xaa, List.replicate 20 0x99) := by
  decide

/-- On the tail-pruned table, `truncate 5` extends the index to six entries of
which the last is zero, makes file `0` the head and deletes file `2`: item `4`,
below the new size, is gone. -/
theorem testOffset_truncate_loses_items (snappy : Snappy) :
    (do
      let t ← newCustomTable testOffsetDisk 40 true
      let t ← t.truncate 5
      t.retrieve snappy 4) = .error (.missingDataFile 2) := by
  rfl

end RpcNetwork.Core.Rawdb
