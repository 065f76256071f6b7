import RpcNetwork.Core.Rawdb.FreezerTable
import RpcNetwork.Lib.ExceptRun

/-!
# Crash repair of a freezer table

`repair` runs each time a table is opened, over whatever a crash left on disk.
This module follows it on two kinds of crash state.  A head file longer than
its last index entry says (an append whose index write was lost) is cut back
to that entry in one round of the loop (`repairLoop_of_le`).  An index shorter
than one entry (the zero entry of a new table torn by the crash) is cut to
nothing; both reads of an entry then fail with their errors dropped, the zero
buffer is taken as the tail and the head, and the item count is computed from
an index of `0` entries, `0 + uint64(0/6 - 1)`, which wraps to `2^64 - 1`
(`repair_of_torn`).
-/

namespace RpcNetwork.Core.Rawdb

namespace FreezerTable

variable {t : FreezerTable}

/-- Opening a file for appending always succeeds; it changes the open files and
the data files, never the index. -/
theorem openFile_forAppend (num : UInt32) :
    ∃ F D, t.openFile num .forAppend = .ok { t with files := F, disk := D } ∧ D.index = t.disk.index := by
  by_cases hmem : num ∈ t.files
  · exact ⟨t.files, t.disk, openFile_of_mem hmem _, rfl⟩
  · exact ⟨_, _, openFile_of_not_mem hmem rfl, rfl⟩

/-- `preopen` of a table whose tail is its head opens only the head, which
always succeeds. -/
theorem preopen_of_tailId_eq (h : t.tailId = t.headId) :
    ∃ F D, t.preopen = .ok { t with files := F, disk := D } ∧ D.index = t.disk.index := by
  have hrange : List.range' (t.releaseFilesAfter 0 false).tailId.toNat
      ((t.releaseFilesAfter 0 false).headId.toNat - (t.releaseFilesAfter 0 false).tailId.toNat) = [] := by
    show List.range' t.tailId.toNat (t.headId.toNat - t.tailId.toNat) = []
    rw [h, Nat.sub_self, List.range'_zero]
  obtain ⟨F, D, hopen, hD⟩ := openFile_forAppend (t := t.releaseFilesAfter 0 false) t.headId
  refine ⟨F, D, ?_, hD⟩
  unfold preopen
  dsimp only
  rw [hrange, List.foldlM_nil, pure_bind]
  exact hopen

/-- **A dangling head is cut back** to the end of the last entry in one round,
and the loop stops: the state of a crash between writing a blob and its index
entry. -/
theorem repairLoop_of_lt {fuel : ℕ} (hf : 2 ≤ fuel) (buf : List UInt8) (offsetsSize : ℤ)
    {e : IndexEntry} {d : List UInt8} (hd : t.disk.data e.filenum = some d) (hlt : e.offset.toNat < d.length) :
    repairLoop fuel t buf offsetsSize e e.offset.toNat d.length =
      .ok ({ t with disk := t.disk.setData e.filenum (d.take e.offset.toNat) }, offsetsSize, e, e.offset.toNat) := by
  obtain ⟨fuel, rfl⟩ := Nat.exists_eq_add_of_le' hf
  rw [repairLoop, if_neg (by omega), if_pos (by omega), Disk.file_eq_of_data hd,
    ByteFile.truncate_of_le (Nat.le_of_lt hlt)]
  simp only [bind, Except.bind, pure, Except.pure]
  rw [if_neg (Int.lt_irrefl _)]
  exact repairLoop_of_eq (by omega) rfl

/-- The loop stops within one round whenever the head is at least as long as
the last entry says, and it changes only the head file. -/
theorem repairLoop_of_le {fuel : ℕ} (hf : 2 ≤ fuel) (buf : List UInt8) (offsetsSize : ℤ)
    {e : IndexEntry} (hle : e.offset.toNat ≤ (t.disk.file e.filenum).length) :
    ∃ D, repairLoop fuel t buf offsetsSize e e.offset.toNat (t.disk.file e.filenum).length =
      .ok ({ t with disk := D }, offsetsSize, e, e.offset.toNat) ∧ D.index = t.disk.index := by
  rcases Nat.lt_or_eq_of_le hle with hlt | heq
  · -- a longer head exists on disk, and is cut
    obtain ⟨d, hd⟩ : ∃ d, t.disk.data e.filenum = some d := by
      cases hdata : t.disk.data e.filenum with
      | none => rw [Disk.file, hdata, Option.getD_none, List.length_nil] at hlt; omega
      | some d => exact ⟨d, rfl⟩
    rw [Disk.file_eq_of_data hd] at hlt ⊢
    exact ⟨_, repairLoop_of_lt hf buf offsetsSize hd hlt, rfl⟩
  · refine ⟨t.disk, ?_, rfl⟩
    rw [repairLoop_of_eq (by omega) (by rw [heq]), ← heq]

/-- **`repair` of an index shorter than one entry**: the torn entry is cut away,
the zero buffer stands for the first and the last entry, and the item count of
an index of no entries wraps to `2^64 - 1`. -/
theorem repair_of_torn (h0 : t.disk.index.length ≠ 0) (h6 : t.disk.index.length < indexEntrySize) :
    ∃ t', t.repair = .ok t' ∧ t'.disk.index = [] ∧ t'.itemOffset = 0 ∧
      t'.items = 18446744073709551615 := by
  -- the torn entry is cut away, leaving an empty index
  have hmod : t.disk.index.length % indexEntrySize = t.disk.index.length := Nat.mod_eq_of_lt h6
  have hcut : (ByteFile.truncate t.disk.index
      ((t.disk.index.length : ℤ) - t.disk.index.length % (indexEntrySize : ℤ))).getD t.disk.index = [] := by
    have h6' : (t.disk.index.length : ℤ) < indexEntrySize := by exact_mod_cast h6
    rw [Int.emod_eq_of_lt (Int.natCast_nonneg _) h6', Int.sub_self]
    simp [ByteFile.truncate]
  -- both reads of an entry fail, so the zero buffer is the first and the last entry
  have hzero : IndexEntry.unmarshalBinary (List.replicate indexEntrySize 0) = ⟨0, 0⟩ := rfl
  unfold repair
  simp only [hmod, ne_eq, h0, not_false_eq_true, ↓reduceIte]
  rw [hcut]
  simp only [List.length_nil, ByteFile.readInto_nil, hzero]
  -- file `0` is the head, cut to the zero offset
  obtain ⟨F, D, hopen, hD⟩ := openFile_forAppend (t := { t with
    tailId := 0, itemOffset := 0, disk := { index := [], data := t.disk.data } }) 0
  rw [hopen, Except.ok_bind]
  have hfuel : 2 ≤ ((((0 : ℕ) : ℤ) / indexEntrySize).toNat + 2) := Nat.le_add_left _ _
  obtain ⟨D₁, hloop, hD₁⟩ := repairLoop_of_le (t := { t with
    tailId := 0, itemOffset := 0, files := F, disk := D }) hfuel (List.replicate indexEntrySize 0) ((0 : ℕ) : ℤ)
    (e := ⟨0, 0⟩) (Nat.zero_le _)
  rw [hloop, Except.ok_bind]
  -- the tail is the head, so `preopen` opens only file `0`
  obtain ⟨F', D', hpre, hD'⟩ := preopen_of_tailId_eq (t := { t with
    tailId := 0, itemOffset := 0, files := F, disk := D₁, headId := 0,
    headBytes := UInt32.ofInt (((0 : UInt32).toNat : ℕ) : ℤ),
    items := (0 : UInt32).toUInt64 + UInt64.ofInt ((((0 : ℕ) : ℤ)).tdiv indexEntrySize - 1) }) rfl
  refine ⟨_, hpre, ?_, rfl, ?_⟩
  · rw [hD', hD₁, hD]
  · -- `0 + uint64(0/6 - 1)`
    show (0 : UInt32).toUInt64 + UInt64.ofInt ((((0 : ℕ) : ℤ)).tdiv indexEntrySize - 1) = 18446744073709551615
    decide

end FreezerTable

/-- **Opening a table whose zero entry was torn** wraps its item count: the
index a crash leaves three bytes into the first write of a new table opens as
an empty index with `2^64 - 1` items. -/
theorem newCustomTable_torn_wraps :
    ∃ t, newCustomTable ⟨[0, 0, 0], fun _ => none⟩ 2000000000 true = .ok t ∧
      t.disk.index = [] ∧ t.itemOffset = 0 ∧ t.items = 18446744073709551615 :=
  FreezerTable.repair_of_torn (by decide) (by decide)

end RpcNetwork.Core.Rawdb
