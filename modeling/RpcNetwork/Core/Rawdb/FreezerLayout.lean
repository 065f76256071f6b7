import RpcNetwork.Core.Rawdb.FreezerTable

/-!
# The layout of a freezer table

What a freezer table's files hold, as an invariant `Layout t bs es`: the blobs
`bs` the table serves, in order from its tail, and the index entries `es` that
place them.  Entry `j` says in which data file blob `j` lies and where it ends;
it starts where blob `j - 1` ended when both lie in one file, and at zero
otherwise.

## Design notes

`truncate` needs `itemOffset = 0`: it places the new last entry at index slot
`n` without subtracting the deleted items, which is right only when there are
none (see `testOffset_truncate_loses_items`).  Reopening needs the same of an
empty table, whose only entry is then read as the head.
-/

namespace RpcNetwork.Core.Rawdb

open ByteFile

/-- Snappy decodes what it encoded. -/
def Snappy.Lawful (snappy : Snappy) : Prop := ∀ b, snappy.decode (snappy.encode b) = some b

/-- Where blob `j` starts: at the end of blob `j - 1` when both lie in one file,
and at zero otherwise. -/
def startOf (es : List IndexEntry) : ℕ → UInt32
  | 0 => 0
  | j + 1 =>
    match es[j]?, es[j + 1]? with
    | some e, some e' => if e.filenum = e'.filenum then e.offset else 0
    | _, _ => 0

/-- The head file and its size that the entries leave: the last blob's file and
end, or the tail file, empty. -/
def headOf (tailId : UInt32) (es : List IndexEntry) : UInt32 × UInt32 :=
  match es.getLast? with
  | some e => (e.filenum, e.offset)
  | none => (tailId, 0)

/-- The table serves the blobs `bs`, placed by the entries `es`. -/
structure Layout (t : FreezerTable) (bs : List (List UInt8)) (es : List IndexEntry) : Prop where
  not_closed : t.closed = false
  length_eq : es.length = bs.length
  items_eq : t.items.toNat = t.itemOffset.toNat + bs.length
  items_lt : t.items.toNat < 2 ^ 60
  /-- the index holds the tail entry and then one entry per blob -/
  index_eq : t.disk.index = ((⟨t.tailId, t.itemOffset⟩ :: es).map IndexEntry.marshallBinary).flatten
  head_eq : headOf t.tailId es = (t.headId, t.headBytes)
  head_file : ∃ d, t.disk.data t.headId = some d ∧ d.length = t.headBytes.toNat
  /-- every blob reads back from where its entry places it -/
  blob : ∀ j e b, es[j]? = some e → bs[j]? = some b → ∃ d, t.disk.data e.filenum = some d ∧
    readAt d (startOf es j).toNat b.length = some b ∧
    e.offset.toNat = (startOf es j).toNat + b.length
  sorted : (es.map IndexEntry.filenum).Pairwise (· ≤ ·)
  tail_le : ∀ e ∈ es, t.tailId ≤ e.filenum
  tail_le_head : t.tailId ≤ t.headId
  exists_file : ∀ f, t.tailId ≤ f → f ≤ t.headId → (t.disk.data f).isSome
  open_files : ∀ f, t.tailId ≤ f → f ≤ t.headId → f ∈ t.files
  files_le : ∀ f ∈ t.files, f ≤ t.headId
  /-- the file numbers still fit the index's 16 bits -/
  headId_lt : t.headId.toNat < 2 ^ 16

/-! ### Offsets and entries -/

theorem int64_of_lt (x : UInt64) (h : x.toNat < 2 ^ 63) : int64 x = x.toNat := by
  show x.toBitVec.toInt = _
  rw [BitVec.toInt_eq_toNat_of_lt (by rw [UInt64.toNat_toBitVec]; omega), UInt64.toNat_toBitVec]

/-- The byte offset of index entry `k`, for the item numbers a table reaches. -/
theorem int64_index {k : ℕ} (hk : k < 2 ^ 60) :
    int64 (k.toUInt64 * indexEntrySize.toUInt64) = ((indexEntrySize * k : ℕ) : ℤ) := by
  have hmul : (k.toUInt64 * indexEntrySize.toUInt64).toNat = indexEntrySize * k := by
    rw [UInt64.toNat_mul, Nat.toUInt64_eq, Nat.toUInt64_eq, UInt64.toNat_ofNat', UInt64.toNat_ofNat']
    simp only [indexEntrySize]
    omega
  rw [int64_of_lt _ (by rw [hmul]; simp only [indexEntrySize]; omega), hmul]

theorem toUInt64_add_one (k : ℕ) : k.toUInt64 + 1 = (k + 1).toUInt64 := by
  rw [Nat.toUInt64_eq, Nat.toUInt64_eq, UInt64.ofNat_add, UInt64.ofNat_one]

theorem int64_mul_index {n : UInt64} (hn : n.toNat < 2 ^ 60) :
    int64 (n * indexEntrySize.toUInt64) = ((indexEntrySize * n.toNat : ℕ) : ℤ) := by
  have h := int64_index hn
  rwa [Nat.toUInt64_eq, UInt64.ofNat_toNat] at h

/-- The index size `truncate` cuts to, for the item numbers a table reaches. -/
theorem index_size {n : UInt64} (hn : n.toNat + 1 < 2 ^ 60) :
    ((n + 1).toInt64 * indexEntrySize.toInt64).toInt = ((indexEntrySize * (n.toNat + 1) : ℕ) : ℤ) := by
  have hsucc : n + 1 = (n.toNat + 1).toUInt64 := by
    rw [← toUInt64_add_one, Nat.toUInt64_eq, UInt64.ofNat_toNat]
  rw [hsucc, show indexEntrySize.toInt64 = indexEntrySize.toUInt64.toInt64 from rfl, ← UInt64.toInt64_mul]
  exact int64_index hn

theorem headOf_append (tailId : UInt32) (es : List IndexEntry) (e : IndexEntry) :
    headOf tailId (es ++ [e]) = (e.filenum, e.offset) := by
  rw [headOf, List.getLast?_concat]

theorem length_marshallBinary_eq (es : List IndexEntry) :
    ∀ c ∈ es.map IndexEntry.marshallBinary, c.length = indexEntrySize := by
  intro c hc
  obtain ⟨e, -, rfl⟩ := List.mem_map.mp hc
  exact IndexEntry.length_marshallBinary e

variable {t : FreezerTable} {bs : List (List UInt8)} {es : List IndexEntry}

namespace Layout

variable (L : Layout t bs es)
include L

/-- Every blob lies in a file at or below the head. -/
theorem le_headId {e : IndexEntry} (he : e ∈ es) : e.filenum ≤ t.headId := by
  have hhead := L.head_eq
  have hsorted := L.sorted
  rcases List.eq_nil_or_concat es with rfl | ⟨init, last, rfl⟩
  · exact absurd he List.not_mem_nil
  · rw [List.concat_eq_append] at hhead hsorted he
    rw [headOf_append, Prod.mk.injEq] at hhead
    rw [← hhead.1]
    rw [List.map_append, List.pairwise_append] at hsorted
    rcases List.mem_append.mp he with hinit | hlast
    · exact hsorted.2.2 _ (List.mem_map_of_mem hinit) _ (List.mem_singleton_self _)
    · rw [List.mem_singleton.mp hlast]
      exact UInt32.le_refl _

theorem tailId_le_entry {e : IndexEntry} (he : e ∈ (⟨t.tailId, t.itemOffset⟩ :: es : List IndexEntry)) :
    t.tailId ≤ e.filenum := by
  rcases List.mem_cons.mp he with rfl | hes
  · exact UInt32.le_refl _
  · exact L.tail_le e hes

theorem entry_le_headId {e : IndexEntry} (he : e ∈ (⟨t.tailId, t.itemOffset⟩ :: es : List IndexEntry)) :
    e.filenum ≤ t.headId := by
  rcases List.mem_cons.mp he with rfl | hes
  · exact L.tail_le_head
  · exact L.le_headId hes

theorem filenum_lt {e : IndexEntry} (he : e ∈ (⟨t.tailId, t.itemOffset⟩ :: es : List IndexEntry)) :
    e.filenum.toNat < 2 ^ 16 := by
  have hle := L.entry_le_headId he
  rw [UInt32.le_iff_toNat_le] at hle
  exact Nat.lt_of_le_of_lt hle L.headId_lt

theorem mem_files {e : IndexEntry} (he : e ∈ es) : e.filenum ∈ t.files :=
  L.open_files _ (L.tail_le e he) (L.le_headId he)

/-- Index entry `k` reads back: the tail entry, then one per blob. -/
theorem readAt_index {k : ℕ} (hk : k < es.length + 1) :
    readAt t.disk.index ↑(indexEntrySize * k) indexEntrySize =
      some (⟨t.tailId, t.itemOffset⟩ :: es)[k].marshallBinary := by
  rw [L.index_eq, readAt_flatten (length_marshallBinary_eq _) (by simpa using hk), List.getElem_map]

theorem length_index : t.disk.index.length = indexEntrySize * (es.length + 1) := by
  rw [L.index_eq, ByteFile.length_flatten_of_const (length_marshallBinary_eq _), List.length_map,
    List.length_cons]

theorem unmarshalBinary_entry {k : ℕ} (hk : k < es.length + 1) :
    IndexEntry.unmarshalBinary (⟨t.tailId, t.itemOffset⟩ :: es)[k].marshallBinary =
      (⟨t.tailId, t.itemOffset⟩ :: es)[k] :=
  IndexEntry.unmarshalBinary_marshallBinary_of_lt (L.filenum_lt (List.getElem_mem _))

theorem length_lt {j : ℕ} (hj : j < es.length) : j + 1 < 2 ^ 60 := by
  have hitems := L.items_eq
  have hlt := L.items_lt
  have hlen := L.length_eq
  omega

/-- **`getBounds`** reads blob `j`'s start, end and file off the index. -/
theorem getBounds {j : ℕ} (hj : j < es.length) :
    t.getBounds j.toUInt64 = .ok (startOf es j, es[j].offset, es[j].filenum) := by
  have hj60 := L.length_lt hj
  unfold FreezerTable.getBounds
  rw [toUInt64_add_one, int64_index (by omega), L.readAt_index (by omega)]
  dsimp only
  rw [L.unmarshalBinary_entry (by omega), List.getElem_cons_succ]
  cases j with
  | zero => rfl
  | succ k =>
    have hne : (k + 1).toUInt64 ≠ 0 := by
      rw [Ne, Nat.toUInt64_eq, ← UInt64.toNat_inj, UInt64.toNat_ofNat', UInt64.toNat_zero]
      omega
    rw [if_pos hne, int64_index (by omega), L.readAt_index (by omega)]
    dsimp only
    rw [L.unmarshalBinary_entry (by omega), List.getElem_cons_succ, startOf,
      List.getElem?_eq_getElem (Nat.lt_of_succ_lt hj), List.getElem?_eq_getElem hj]
    dsimp only
    by_cases hf : es[k].filenum = es[k + 1].filenum
    · rw [if_neg (not_not.mpr hf), if_pos hf]
    · rw [if_pos hf, if_neg hf]

/-- **`Retrieve`** inside the table returns the blob appended there. -/
theorem retrieve_eq {snappy : Snappy} {vs : List (List UInt8)}
    (hbs : bs = vs.map (stored snappy t.noCompression)) (hs : snappy.Lawful) {i : UInt64}
    (hlo : t.itemOffset.toNat ≤ i.toNat) {v : List UInt8}
    (hv : vs[i.toNat - t.itemOffset.toNat]? = some v) :
    t.retrieve snappy i = .ok v := by
  set j := i.toNat - t.itemOffset.toNat with hj_def
  have hjv : j < vs.length := (List.getElem?_eq_some_iff.mp hv).1
  have hjb : j < bs.length := by rw [hbs, List.length_map]; exact hjv
  have hjes : j < es.length := by rw [L.length_eq]; exact hjb
  have hb : bs[j]? = some (stored snappy t.noCompression v) := by
    rw [hbs, List.getElem?_map, hv, Option.map_some]
  obtain ⟨d, hd, hread, hoff⟩ := L.blob j es[j] _ (List.getElem?_eq_getElem hjes) hb
  have hitems := L.items_eq
  have hsub : i - t.itemOffset.toUInt64 = j.toUInt64 := by
    apply UInt64.toNat_inj.mp
    rw [UInt64.toNat_sub_of_le _ _ (by rw [UInt64.le_iff_toNat_le, UInt32.toNat_toUInt64]; exact hlo),
      UInt32.toNat_toUInt64, Nat.toUInt64_eq, UInt64.toNat_ofNat']
    have := i.toNat_lt
    omega
  have hlen : (es[j].offset - startOf es j).toNat = (stored snappy t.noCompression v).length := by
    rw [UInt32.toNat_sub_of_le _ _ (by rw [UInt32.le_iff_toNat_le]; omega)]
    omega
  unfold FreezerTable.retrieve
  rw [L.not_closed, hsub, L.getBounds hjes]
  simp only [Bool.false_eq_true, ↓reduceIte, bind, Except.bind, pure, Except.pure]
  rw [if_neg (by rw [UInt64.le_iff_toNat_le]; omega),
    if_neg (by rw [gt_iff_lt, UInt64.lt_iff_toNat_lt, UInt32.toNat_toUInt64]; omega),
    if_neg (not_not.mpr (L.mem_files (List.getElem_mem hjes))), Disk.file_eq_of_data hd, hlen, hread]
  dsimp only
  unfold stored
  cases t.noCompression with
  | true => rfl
  | false => simp only [Bool.false_eq_true, ↓reduceIte, hs v]

/-- Outside the table, `Retrieve` is out of bounds. -/
theorem retrieve_out (snappy : Snappy) {i : UInt64}
    (h : i.toNat < t.itemOffset.toNat ∨ t.items.toNat ≤ i.toNat) :
    t.retrieve snappy i = .error .outOfBounds := by
  unfold FreezerTable.retrieve
  rw [L.not_closed]
  simp only [Bool.false_eq_true, ↓reduceIte, bind, Except.bind, pure, Except.pure]
  by_cases hhi : t.items ≤ i
  · rw [if_pos hhi]; rfl
  · rw [if_neg hhi, if_pos]
    · rfl
    · rw [UInt64.le_iff_toNat_le] at hhi
      rw [gt_iff_lt, UInt64.lt_iff_toNat_lt, UInt32.toNat_toUInt64]
      omega

end Layout

/-! ### Appending -/

/-- Where `Append` places a blob of `bLen` bytes: at the start of the next file
when the head's size would wrap or pass `maxFileSize`, else after the head's
bytes. -/
def FreezerTable.nextEntry (t : FreezerTable) (bLen : UInt32) : IndexEntry :=
  if t.headBytes + bLen < bLen ∨ t.headBytes + bLen > t.maxFileSize then ⟨t.headId + 1, bLen⟩
  else ⟨t.headId, t.headBytes + bLen⟩

theorem startOf_append_of_lt {es : List IndexEntry} (l : List IndexEntry) {j : ℕ} (hj : j < es.length) :
    startOf (es ++ l) j = startOf es j := by
  cases j with
  | zero => rfl
  | succ k =>
    simp only [startOf, List.getElem?_append_left (Nat.lt_of_succ_lt hj), List.getElem?_append_left hj]

/-- A blob appended after `es` starts where the last blob ends, if it lies in
the same file. -/
theorem startOf_length_append (es : List IndexEntry) (e : IndexEntry) :
    startOf (es ++ [e]) es.length =
      match es.getLast? with
      | some e' => if e'.filenum = e.filenum then e'.offset else 0
      | none => 0 := by
  rcases List.eq_nil_or_concat es with rfl | ⟨init, last, rfl⟩
  · rfl
  · rw [List.concat_eq_append, List.getLast?_concat, List.length_append, List.length_singleton, startOf,
      List.getElem?_append_left (by simp), List.getElem?_concat_length, List.getElem?_append_right (by simp)]
    simp

theorem entries_append (tailId itemOffset : UInt32) (es : List IndexEntry) (e : IndexEntry) :
    ((⟨tailId, itemOffset⟩ :: (es ++ [e])).map IndexEntry.marshallBinary).flatten =
      ((⟨tailId, itemOffset⟩ :: es).map IndexEntry.marshallBinary).flatten ++ e.marshallBinary := by
  rw [← List.cons_append, List.map_append, List.flatten_append, List.map_singleton, List.flatten_singleton]

theorem toNat_succ_of_lt {x : UInt32} (h : x.toNat + 1 < 2 ^ 32) : (x + 1).toNat = x.toNat + 1 := by
  rw [UInt32.toNat_add, UInt32.toNat_one, Nat.mod_eq_of_lt h]

namespace Layout

variable (L : Layout t bs es)
include L

/-- The next blob starts at `headBytes` in the head file, and at zero in any
other. -/
theorem startOf_next (e : IndexEntry) :
    startOf (es ++ [e]) es.length = if e.filenum = t.headId then t.headBytes else 0 := by
  have hhead := L.head_eq
  rw [startOf_length_append]
  unfold headOf at hhead
  cases hlast : es.getLast? with
  | none =>
    rw [hlast, Prod.mk.injEq] at hhead
    rw [← hhead.2]
    simp
  | some last =>
    rw [hlast, Prod.mk.injEq] at hhead
    dsimp only
    rw [hhead.1, hhead.2]
    by_cases h : e.filenum = t.headId
    · rw [if_pos h, if_pos h.symm]
    · rw [if_neg h, if_neg (Ne.symm h)]

/-- The old blobs still read back when no file at or below the head loses
bytes. -/
theorem blob_of_extend {data' : UInt32 → Option (List UInt8)}
    (hdata : ∀ f d, f ≤ t.headId → t.disk.data f = some d → ∃ extra, data' f = some (d ++ extra))
    (l : List IndexEntry) :
    ∀ j e b, es[j]? = some e → bs[j]? = some b → ∃ d, data' e.filenum = some d ∧
      readAt d (startOf (es ++ l) j).toNat b.length = some b ∧
      e.offset.toNat = (startOf (es ++ l) j).toNat + b.length := by
  intro j e b he hb
  obtain ⟨d, hd, hread, hoff⟩ := L.blob j e b he hb
  have hj : j < es.length := (List.getElem?_eq_some_iff.mp he).1
  obtain ⟨extra, hextra⟩ := hdata _ d (L.le_headId (List.mem_of_getElem? he)) hd
  refine ⟨d ++ extra, hextra, ?_, ?_⟩
  · rw [startOf_append_of_lt l hj, readAt_append_left (add_le_length_of_readAt hread), hread]
  · rw [startOf_append_of_lt l hj, hoff]

/-- `Layout` after an `Append` that starts a new file. -/
theorem append_overflow {b : List UInt8} (hlen : b.length < 2 ^ 32)
    (hroom : t.items.toNat + 1 < 2 ^ 60) (hfile : t.headId.toNat + 1 < 2 ^ 16) {F : List UInt32}
    (hF : ∀ f, f ∈ F ↔ f = t.headId + 1 ∨ f ∈ t.files.erase t.headId ∨ f = t.headId) :
    Layout { t with
        files := F
        disk := { t.disk.setData (t.headId + 1) b with
          index := t.disk.index ++ (IndexEntry.mk (t.headId + 1) (0 + b.length.toUInt32)).marshallBinary }
        headId := t.headId + 1
        headBytes := 0 + b.length.toUInt32
        items := t.items + 1 }
      (bs ++ [b]) (es ++ [⟨t.headId + 1, b.length.toUInt32⟩]) := by
  have hsucc : (t.headId + 1).toNat = t.headId.toNat + 1 := toNat_succ_of_lt (by omega)
  have hbLen : b.length.toUInt32.toNat = b.length := by
    rw [Nat.toUInt32_eq, UInt32.toNat_ofNat', Nat.mod_eq_of_lt hlen]
  have hne : t.headId + 1 ≠ t.headId := fun h => by
    have := congrArg UInt32.toNat h
    omega
  -- the files at or below the head keep their contents
  have hlow : ∀ f, f ≤ t.headId → (t.disk.setData (t.headId + 1) b).data f = t.disk.data f := by
    intro f hf
    apply Disk.data_setData_of_ne
    rintro rfl
    rw [UInt32.le_iff_toNat_le] at hf
    omega
  have hhl : ∀ e ∈ es, e.filenum ≤ t.headId := fun e he => L.le_headId he
  rw [UInt32.zero_add]
  constructor
  all_goals try dsimp only
  · exact L.not_closed
  · simp [L.length_eq]
  · rw [UInt64.toNat_add, UInt64.toNat_one, L.items_eq, List.length_append, List.length_singleton]
    have := L.items_eq
    omega
  · rw [UInt64.toNat_add, UInt64.toNat_one]
    omega
  · rw [L.index_eq, entries_append]
  · exact headOf_append _ _ _
  · exact ⟨b, Disk.data_setData_self _ _ _, hbLen.symm⟩
  · intro j e b' he hb'
    rcases Nat.lt_or_ge j es.length with hj | hj
    · rw [List.getElem?_append_left hj] at he
      rw [List.getElem?_append_left (L.length_eq ▸ hj)] at hb'
      exact L.blob_of_extend (fun f d hf hd => ⟨[], by rw [hlow f hf, hd, List.append_nil]⟩) _ j e b' he hb'
    · have hjeq : j = es.length := by
        have := (List.getElem?_eq_some_iff.mp he).1
        simp at this
        omega
      subst hjeq
      rw [List.getElem?_concat_length, Option.some_inj] at he
      rw [L.length_eq, List.getElem?_concat_length, Option.some_inj] at hb'
      subst he hb'
      refine ⟨b, Disk.data_setData_self _ _ _, ?_, ?_⟩
      · rw [L.startOf_next, if_neg hne, UInt32.toNat_zero, readAt_eq_some (by omega), List.drop_zero,
          List.take_length]
      · rw [L.startOf_next, if_neg hne, UInt32.toNat_zero, hbLen, Nat.zero_add]
  · rw [List.map_append, List.pairwise_append]
    refine ⟨L.sorted, List.pairwise_singleton _ _, ?_⟩
    intro x hx y hy
    rw [List.mem_singleton.mp hy]
    obtain ⟨e, he, rfl⟩ := List.mem_map.mp hx
    have := hhl e he
    dsimp only
    rw [UInt32.le_iff_toNat_le] at this ⊢
    omega
  · intro e he
    rcases List.mem_append.mp he with he | he
    · exact L.tail_le e he
    · rw [List.mem_singleton.mp he]
      have := L.tail_le_head
      dsimp only
      rw [UInt32.le_iff_toNat_le] at this ⊢
      omega
  · have := L.tail_le_head
    rw [UInt32.le_iff_toNat_le] at this ⊢
    omega
  · intro f hlo hhi
    by_cases hf : f = t.headId + 1
    · subst hf
      simp
    · have hle : f ≤ t.headId := by
        rw [UInt32.le_iff_toNat_le] at hhi ⊢
        have : f.toNat ≠ t.headId.toNat + 1 := fun h => hf (UInt32.toNat_inj.mp (by omega))
        omega
      rw [hlow f hle]
      exact L.exists_file f hlo hle
  · intro f hlo hhi
    rw [hF]
    by_cases hf : f = t.headId + 1
    · exact Or.inl hf
    · by_cases hh : f = t.headId
      · exact Or.inr (Or.inr hh)
      · have hle : f ≤ t.headId := by
          rw [UInt32.le_iff_toNat_le] at hhi ⊢
          have : f.toNat ≠ t.headId.toNat + 1 := fun h => hf (UInt32.toNat_inj.mp (by omega))
          omega
        exact Or.inr (Or.inl ((List.mem_erase_of_ne hh).mpr (L.open_files f hlo hle)))
  · intro f hf
    rw [hF] at hf
    rw [UInt32.le_iff_toNat_le, hsucc]
    rcases hf with rfl | hf | rfl
    · omega
    · have := L.files_le f (List.mem_of_mem_erase hf)
      rw [UInt32.le_iff_toNat_le] at this
      omega
    · omega
  · omega

/-- `Layout` after an `Append` into the head file. -/
theorem append_fits {b : List UInt8} (hlen : b.length < 2 ^ 32) (hroom : t.items.toNat + 1 < 2 ^ 60)
    (hfit : ¬ (t.headBytes + b.length.toUInt32 < b.length.toUInt32)) :
    Layout { t with
        disk := { t.disk.setData t.headId (t.disk.file t.headId ++ b) with
          index := t.disk.index ++ (IndexEntry.mk t.headId (t.headBytes + b.length.toUInt32)).marshallBinary }
        headBytes := t.headBytes + b.length.toUInt32
        items := t.items + 1 }
      (bs ++ [b]) (es ++ [⟨t.headId, t.headBytes + b.length.toUInt32⟩]) := by
  obtain ⟨d, hd, hdlen⟩ := L.head_file
  have hbLen : b.length.toUInt32.toNat = b.length := by
    rw [Nat.toUInt32_eq, UInt32.toNat_ofNat', Nat.mod_eq_of_lt hlen]
  -- the head's size does not wrap
  have hsum : (t.headBytes + b.length.toUInt32).toNat = t.headBytes.toNat + b.length := by
    have := t.headBytes.toNat_lt
    rw [UInt32.lt_iff_toNat_lt, UInt32.toNat_add] at hfit
    rw [UInt32.toNat_add]
    omega
  have hhl : ∀ e ∈ es, e.filenum ≤ t.headId := fun e he => L.le_headId he
  have hother : ∀ f, f ≠ t.headId →
      (t.disk.setData t.headId (t.disk.file t.headId ++ b)).data f = t.disk.data f :=
    fun f hf => Disk.data_setData_of_ne _ _ hf
  have hhead : (t.disk.setData t.headId (t.disk.file t.headId ++ b)).data t.headId = some (d ++ b) := by
    rw [Disk.data_setData_self, Disk.file_eq_of_data hd]
  constructor
  all_goals try dsimp only
  · exact L.not_closed
  · simp [L.length_eq]
  · rw [UInt64.toNat_add, UInt64.toNat_one, L.items_eq, List.length_append, List.length_singleton]
    have := L.items_eq
    omega
  · rw [UInt64.toNat_add, UInt64.toNat_one]
    omega
  · rw [L.index_eq, entries_append]
  · exact headOf_append _ _ _
  · exact ⟨d ++ b, hhead, by rw [List.length_append, hdlen, hsum]⟩
  · intro j e b' he hb'
    rcases Nat.lt_or_ge j es.length with hj | hj
    · rw [List.getElem?_append_left hj] at he
      rw [List.getElem?_append_left (L.length_eq ▸ hj)] at hb'
      refine L.blob_of_extend (fun f d' hf hd' => ?_) _ j e b' he hb'
      by_cases hfh : f = t.headId
      · subst hfh
        rw [hd] at hd'
        cases hd'
        exact ⟨b, hhead⟩
      · exact ⟨[], by rw [hother f hfh, hd', List.append_nil]⟩
    · have hjeq : j = es.length := by
        have := (List.getElem?_eq_some_iff.mp he).1
        simp at this
        omega
      subst hjeq
      rw [List.getElem?_concat_length, Option.some_inj] at he
      rw [L.length_eq, List.getElem?_concat_length, Option.some_inj] at hb'
      subst he hb'
      refine ⟨d ++ b, hhead, ?_, ?_⟩
      · rw [L.startOf_next, if_pos rfl, readAt_eq_some (by simp; omega), List.drop_left' hdlen,
          List.take_length]
      · rw [L.startOf_next, if_pos rfl, hsum]
  · rw [List.map_append, List.pairwise_append]
    refine ⟨L.sorted, List.pairwise_singleton _ _, ?_⟩
    intro x hx y hy
    rw [List.mem_singleton.mp hy]
    obtain ⟨e, he, rfl⟩ := List.mem_map.mp hx
    exact hhl e he
  · intro e he
    rcases List.mem_append.mp he with he | he
    · exact L.tail_le e he
    · rw [List.mem_singleton.mp he]
      exact L.tail_le_head
  · exact L.tail_le_head
  · intro f hlo hhi
    by_cases hfh : f = t.headId
    · subst hfh
      rw [hhead]
      rfl
    · rw [hother f hfh]
      exact L.exists_file f hlo hhi
  · exact L.open_files
  · exact L.files_le
  · exact L.headId_lt

/-- **`Append`** of the next item succeeds, keeps the layout with the blob
placed by `nextEntry`, and changes neither the settings nor the tail. -/
theorem append (snappy : Snappy) (blob : List UInt8) (hroom : t.items.toNat + 1 < 2 ^ 60)
    (hfile : t.headId.toNat + 1 < 2 ^ 16)
    (hlen : (stored snappy t.noCompression blob).length < 2 ^ 32) :
    ∃ t', t.append snappy t.items blob = .ok t' ∧
      Layout t' (bs ++ [stored snappy t.noCompression blob])
        (es ++ [t.nextEntry (stored snappy t.noCompression blob).length.toUInt32]) ∧
      t'.noCompression = t.noCompression ∧ t'.maxFileSize = t.maxFileSize ∧
      t'.tailId = t.tailId ∧ t'.itemOffset = t.itemOffset := by
  by_cases hover : t.headBytes + (stored snappy t.noCompression blob).length.toUInt32 <
        (stored snappy t.noCompression blob).length.toUInt32 ∨
      t.headBytes + (stored snappy t.noCompression blob).length.toUInt32 > t.maxFileSize
  · -- a new file: the next number is not open yet
    have hsucc : (t.headId + 1).toNat = t.headId.toNat + 1 := toNat_succ_of_lt (by omega)
    have hnext : t.headId + 1 ∉ t.files := fun h => by
      have := L.files_le _ h
      rw [UInt32.le_iff_toNat_le] at this
      omega
    have hne : t.headId + 1 ≠ t.headId := fun h => by
      have := congrArg UInt32.toNat h
      omega
    obtain ⟨d, hd, -⟩ := L.head_file
    obtain ⟨F, hF, happ⟩ := FreezerTable.append_of_overflow snappy blob L.not_closed hover hnext hne hd
    refine ⟨_, happ, ?_, rfl, rfl, rfl, rfl⟩
    rw [FreezerTable.nextEntry, if_pos hover]
    exact L.append_overflow hlen hroom hfile hF
  · refine ⟨_, FreezerTable.append_of_fits snappy blob L.not_closed hover, ?_, rfl, rfl, rfl, rfl⟩
    rw [FreezerTable.nextEntry, if_neg hover]
    exact L.append_fits hlen hroom (fun h => hover (Or.inl h))

end Layout

/-! ### Truncating -/

theorem startOf_succ_of_eq {es : List IndexEntry} {k : ℕ} (hk : k + 1 < es.length)
    (h : es[k].filenum = es[k + 1].filenum) : startOf es (k + 1) = es[k].offset := by
  rw [startOf, List.getElem?_eq_getElem (Nat.lt_of_succ_lt hk), List.getElem?_eq_getElem hk]
  exact if_pos h

theorem startOf_take (es : List IndexEntry) {n j : ℕ} (hj : j < n) : startOf (es.take n) j = startOf es j := by
  cases j with
  | zero => rfl
  | succ i => simp only [startOf, List.getElem?_take_of_lt hj, List.getElem?_take_of_lt (Nat.lt_of_succ_lt hj)]

theorem headOf_take (tailId : UInt32) (es : List IndexEntry) {k : ℕ} {e : IndexEntry}
    (he : (⟨tailId, 0⟩ :: es : List IndexEntry)[k]? = some e) :
    headOf tailId (es.take k) = (e.filenum, e.offset) := by
  cases k with
  | zero =>
    rw [List.getElem?_cons_zero, Option.some_inj] at he
    subst he
    rfl
  | succ j =>
    rw [List.getElem?_cons_succ] at he
    rw [headOf, List.getLast?_take, if_neg (Nat.succ_ne_zero j), Nat.add_sub_cancel, he, Option.some_or]

namespace Layout

variable (L : Layout t bs es)
include L

theorem filenum_mono {j k : ℕ} (hjk : j ≤ k) (hk : k < es.length) :
    es[j].filenum ≤ es[k].filenum := by
  rcases Nat.lt_or_eq_of_le hjk with hlt | rfl
  · have := List.pairwise_iff_getElem.mp L.sorted j k (by simp; omega) (by simpa using hk) hlt
    simpa using this
  · exact UInt32.le_refl _

/-- A blob that follows another in the same file ends after it. -/
theorem offset_le_succ {k : ℕ} (hk : k + 1 < es.length) (h : es[k].filenum = es[k + 1].filenum) :
    es[k].offset.toNat ≤ es[k + 1].offset.toNat := by
  have hb : k + 1 < bs.length := L.length_eq ▸ hk
  obtain ⟨d, -, -, hoff⟩ := L.blob (k + 1) _ _ (List.getElem?_eq_getElem hk) (List.getElem?_eq_getElem hb)
  rw [hoff, startOf_succ_of_eq hk h]
  exact Nat.le_add_right _ _

/-- Within one file the blobs' ends increase. -/
theorem offset_mono {j k : ℕ} (hjk : j ≤ k) (hk : k < es.length) (hf : es[j].filenum = es[k].filenum) :
    es[j].offset.toNat ≤ es[k].offset.toNat := by
  obtain ⟨m, rfl⟩ := Nat.exists_eq_add_of_le hjk
  induction m with
  | zero => exact Nat.le_refl _
  | succ m ih =>
    simp only [← Nat.add_assoc] at hk hf ⊢
    -- the blob before `k` lies between `j` and `k`, so in the same file
    have hmid : es[j + m].filenum = es[j + m + 1].filenum := by
      have h1 : es[j].filenum ≤ es[j + m].filenum := L.filenum_mono (Nat.le_add_right j m) (by omega)
      have h2 : es[j + m].filenum ≤ es[j + m + 1].filenum := L.filenum_mono (Nat.le_succ (j + m)) hk
      exact UInt32.le_antisymm h2 (by rw [← hf]; exact h1)
    exact Nat.le_trans (ih (Nat.le_add_right _ _) (by omega) (hf.trans hmid.symm)) (L.offset_le_succ hk hmid)

/-- The entry of the last kept blob ends within its file. -/
theorem offset_le_length {k : ℕ} {e : IndexEntry} (he : (⟨t.tailId, 0⟩ :: es : List IndexEntry)[k]? = some e)
    {d : List UInt8} (hd : t.disk.data e.filenum = some d) : e.offset.toNat ≤ d.length := by
  cases k with
  | zero =>
    rw [List.getElem?_cons_zero, Option.some_inj] at he
    subst he
    exact Nat.zero_le _
  | succ j =>
    rw [List.getElem?_cons_succ] at he
    have hj : j < bs.length := L.length_eq ▸ (List.getElem?_eq_some_iff.mp he).1
    obtain ⟨d', hd', hread, hoff'⟩ := L.blob j e bs[j] he (List.getElem?_eq_getElem hj)
    rw [hd, Option.some_inj] at hd'
    subst hd'
    have := add_le_length_of_readAt hread
    omega

/-- `Layout` after a `truncate` to the first `n` blobs, of a table whose tail
entry is `(tailId, 0)`. -/
theorem truncated (hoff : t.itemOffset = 0) {n : UInt64} (hk : n.toNat < es.length) {e : IndexEntry}
    (he : (⟨t.tailId, 0⟩ :: es : List IndexEntry)[n.toNat]? = some e) {t' : FreezerTable}
    {d : List UInt8} (hd : t.disk.data e.filenum = some d) (hoffd : e.offset.toNat ≤ d.length)
    (T : t.Truncated t' n (t.disk.index.take (indexEntrySize * (n.toNat + 1))) e d) :
    Layout t' (bs.take n.toNat) (es.take n.toNat) := by
  have he_mem : e ∈ (⟨t.tailId, t.itemOffset⟩ :: es : List IndexEntry) := by
    rw [hoff]
    exact List.mem_of_getElem? he
  have hle_head := L.entry_le_headId he_mem
  have htail := L.tailId_le_entry he_mem
  have hitems := L.items_eq
  have hlen := L.length_eq
  exact {
    not_closed := T.closed_eq.trans L.not_closed
    length_eq := by simp [hlen]
    items_eq := by
      rw [T.items_eq, T.itemOffset_eq, hoff, List.length_take]
      simp only [UInt32.toNat_zero]
      omega
    items_lt := by
      have := L.items_lt
      rw [T.items_eq]
      omega
    index_eq := by
      rw [T.index_eq, T.tailId_eq, T.itemOffset_eq, L.index_eq, take_mul_flatten (length_marshallBinary_eq _),
        ← List.map_take, List.take_succ_cons]
    head_eq := by rw [T.tailId_eq, T.headId_eq, T.headBytes_eq, headOf_take _ _ he]
    head_file := ⟨d.take e.offset.toNat, by rw [T.headId_eq]; exact T.head_data, by
      rw [List.length_take, T.headBytes_eq]
      omega⟩
    blob := by
      intro j e' b he' hb'
      have hj : j < n.toNat := by
        have := (List.getElem?_eq_some_iff.mp he').1
        simp at this
        omega
      rw [List.getElem?_take_of_lt hj] at he' hb'
      obtain ⟨d', hd', hread, hoff'⟩ := L.blob j e' b he' hb'
      rw [startOf_take _ hj]
      have hje : es[j] = e' := (List.getElem?_eq_some_iff.mp he').2
      -- the blob's file is at or below the new head, the file of blob `n - 1`
      obtain ⟨k, hk_def⟩ : ∃ k, n.toNat = k + 1 := ⟨n.toNat - 1, by omega⟩
      have hek : e = es[k] := by
        rw [hk_def, List.getElem?_cons_succ, List.getElem?_eq_getElem (by omega), Option.some_inj] at he
        exact he.symm
      have hjk : j ≤ k := by omega
      have hfle : e'.filenum ≤ e.filenum := by
        rw [← hje, hek]
        exact L.filenum_mono hjk (by omega)
      rcases UInt32.lt_or_eq_of_le hfle with hlt | heq
      · exact ⟨d', by rw [T.data_below _ hlt]; exact hd', hread, hoff'⟩
      · rw [heq, hd] at hd'
        cases hd'
        refine ⟨d.take e.offset.toNat, by rw [heq]; exact T.head_data, ?_, hoff'⟩
        have hmono : e'.offset.toNat ≤ e.offset.toNat := by
          rw [← hje, hek]
          exact L.offset_mono hjk (by omega) (by rw [hje, ← hek]; exact heq)
        rw [readAt_take (by omega), hread]
    sorted := by
      rw [List.map_take]
      exact L.sorted.take
    tail_le := fun e' he' => T.tailId_eq ▸ L.tail_le e' (List.mem_of_mem_take he')
    tail_le_head := by rw [T.tailId_eq, T.headId_eq]; exact htail
    exists_file := by
      intro f hlo hhi
      rw [T.tailId_eq] at hlo
      rw [T.headId_eq] at hhi
      rcases UInt32.lt_or_eq_of_le hhi with hlt | rfl
      · rw [T.data_below f hlt]
        exact L.exists_file f hlo (UInt32.le_trans hhi hle_head)
      · rw [T.head_data]
        rfl
    open_files := by
      intro f hlo hhi
      rw [T.tailId_eq] at hlo
      rw [T.headId_eq] at hhi
      exact T.files_kept f (L.open_files f hlo (UInt32.le_trans hhi hle_head)) hhi
    files_le := by
      intro f hf
      rw [T.headId_eq]
      rcases T.files_le f hf with h | ⟨hf', heq⟩
      · exact h
      · exact heq ▸ L.files_le f hf'
    headId_lt := by
      rw [T.headId_eq]
      rw [UInt32.le_iff_toNat_le] at hle_head
      have := L.headId_lt
      omega }

/-- **`truncate`** below the size of a table whose tail entry is `(tailId, 0)`
succeeds and keeps the layout of the first `n` blobs. -/
theorem truncate {n : UInt64} (hoff : t.itemOffset = 0) (hn : n < t.items) :
    ∃ t', t.truncate n = .ok t' ∧ Layout t' (bs.take n.toNat) (es.take n.toNat) ∧
      t'.noCompression = t.noCompression ∧ t'.maxFileSize = t.maxFileSize ∧
      t'.tailId = t.tailId ∧ t'.itemOffset = t.itemOffset := by
  have hitems := L.items_eq
  have hk : n.toNat < es.length := by
    rw [UInt64.lt_iff_toNat_lt] at hn
    rw [hoff, UInt32.toNat_zero] at hitems
    rw [L.length_eq]
    omega
  have hbound : n.toNat + 1 < 2 ^ 60 := L.length_lt hk
  obtain ⟨e, he⟩ : ∃ e, (⟨t.tailId, 0⟩ :: es : List IndexEntry)[n.toNat]? = some e :=
    ⟨_, List.getElem?_eq_getElem (by simp only [List.length_cons]; omega)⟩
  have hentry : (⟨t.tailId, t.itemOffset⟩ :: es : List IndexEntry)[n.toNat]? = some e := by
    rw [hoff]
    exact he
  have hmem := List.mem_of_getElem? hentry
  -- the index is cut after entry `n`, which then reads back
  have hsize := L.length_index
  have hidx : ByteFile.truncate t.disk.index ((n + 1).toInt64 * indexEntrySize.toInt64).toInt =
      some (t.disk.index.take (indexEntrySize * (n.toNat + 1))) := by
    rw [index_size hbound, ByteFile.truncate_of_le (by rw [hsize]; exact Nat.mul_le_mul_left _ (by omega))]
  have hbuf : readAt (t.disk.index.take (indexEntrySize * (n.toNat + 1))) (int64 (n * indexEntrySize.toUInt64))
      indexEntrySize = some e.marshallBinary := by
    rw [int64_mul_index (by omega), readAt_take (Nat.le_of_eq (Nat.mul_succ _ _).symm),
      L.readAt_index (by omega), (List.getElem?_eq_some_iff.mp hentry).2]
  have hunm : IndexEntry.unmarshalBinary e.marshallBinary = e :=
    IndexEntry.unmarshalBinary_marshallBinary_of_lt (L.filenum_lt hmem)
  obtain ⟨d, hd⟩ := Option.isSome_iff_exists.mp
    (L.exists_file e.filenum (L.tailId_le_entry hmem) (L.entry_le_headId hmem))
  have hoffd := L.offset_le_length he hd
  obtain ⟨t', htr, T⟩ := FreezerTable.truncate_spec (UInt64.not_le.mpr hn) L.not_closed hidx hbuf
    (by rw [hunm]; exact hd) (by rw [hunm]; exact hoffd)
  rw [hunm] at T
  exact ⟨t', htr, L.truncated hoff hk he hd hoffd T, T.noCompression_eq, T.maxFileSize_eq, T.tailId_eq,
    T.itemOffset_eq⟩

end Layout

/-! ### Opening and reopening -/

theorem ofInt_toNat_toUInt32 (x : UInt32) : UInt32.ofInt (x.toNat : ℤ) = x := by
  rw [UInt32.ofInt, Int.emod_eq_of_lt (Int.natCast_nonneg _) (by have := x.toNat_lt; omega), Int.toNat_natCast,
    UInt32.ofNat_toNat]

/-- The item count `repair` reads off an index of `k + 1` entries. -/
theorem toNat_items_of_size (itemOffset : UInt32) {k : ℕ} (hk : k < 2 ^ 60) :
    (itemOffset.toUInt64 + UInt64.ofInt (((indexEntrySize * (k + 1) : ℕ) : ℤ).tdiv indexEntrySize - 1)).toNat =
      itemOffset.toNat + k := by
  have hdiv : (((indexEntrySize * (k + 1) : ℕ) : ℤ).tdiv indexEntrySize - 1) = (k : ℤ) := by
    rw [Int.natCast_mul, Int.mul_tdiv_cancel_left _ (by simp [indexEntrySize])]
    omega
  have hoff := itemOffset.toNat_lt
  rw [hdiv, UInt64.toNat_add, UInt32.toNat_toUInt64, UInt64.ofInt, UInt64.toNat_ofNat',
    Int.emod_eq_of_lt (Int.natCast_nonneg _) (by omega), Int.toNat_natCast]
  omega

namespace Layout

variable (L : Layout t bs es)
include L

/-- The last index entry names the head, unless the table is empty with a pruned
tail. -/
theorem last_entry (hne : es ≠ [] ∨ t.itemOffset = 0) :
    (⟨t.tailId, t.itemOffset⟩ :: es : List IndexEntry)[es.length]? = some ⟨t.headId, t.headBytes⟩ := by
  have hhead := L.head_eq
  rcases List.eq_nil_or_concat es with rfl | ⟨init, last, rfl⟩
  · have hoff : t.itemOffset = 0 := hne.resolve_left (fun h => h rfl)
    rw [headOf, List.getLast?_nil, Prod.mk.injEq] at hhead
    rw [List.length_nil, List.getElem?_cons_zero, hoff, hhead.1, ← hhead.2]
  · rw [List.concat_eq_append, headOf_append, Prod.mk.injEq] at hhead
    rw [List.concat_eq_append, List.length_append, List.length_singleton, List.getElem?_cons_succ,
      List.getElem?_concat_length, ← hhead.1, ← hhead.2]

/-- `Layout` holds of any table with the same disk, counters and tail whose
open files are those from the tail to the head. -/
theorem of_eq {t' : FreezerTable} (hdisk : t'.disk = t.disk) (hclosed : t'.closed = false)
    (hitems : t'.items = t.items) (htail : t'.tailId = t.tailId) (hoff : t'.itemOffset = t.itemOffset)
    (hhead : t'.headId = t.headId) (hbytes : t'.headBytes = t.headBytes)
    (hopen : ∀ f, t.tailId ≤ f → f ≤ t.headId → f ∈ t'.files) (hle : ∀ f ∈ t'.files, f ≤ t.headId) :
    Layout t' bs es := by
  exact {
    not_closed := hclosed
    length_eq := L.length_eq
    items_eq := by rw [hitems, hoff]; exact L.items_eq
    items_lt := by rw [hitems]; exact L.items_lt
    index_eq := by rw [hdisk, htail, hoff]; exact L.index_eq
    head_eq := by rw [htail, hhead, hbytes]; exact L.head_eq
    head_file := by rw [hdisk, hhead, hbytes]; exact L.head_file
    blob := by rw [hdisk]; exact L.blob
    sorted := L.sorted
    tail_le := by rw [htail]; exact L.tail_le
    tail_le_head := by rw [htail, hhead]; exact L.tail_le_head
    exists_file := by rw [hdisk, htail, hhead]; exact L.exists_file
    open_files := by rw [htail, hhead]; exact hopen
    files_le := by rw [hhead]; exact hle
    headId_lt := by rw [hhead]; exact L.headId_lt }

/-- **Reopening** the table over its disk finds the same layout, unless the
table is empty with a pruned tail. -/
theorem reopen (hne : es ≠ [] ∨ t.itemOffset = 0) (m : UInt32) (nc : Bool) :
    ∃ t', newCustomTable t.disk m nc = .ok t' ∧ Layout t' bs es ∧ t'.noCompression = nc ∧
      t'.maxFileSize = m ∧ t'.tailId = t.tailId ∧ t'.itemOffset = t.itemOffset := by
  have hsize := L.length_index
  have hk60 : es.length < 2 ^ 60 := by
    have := L.items_eq
    have := L.items_lt
    have := L.length_eq
    omega
  -- the first entry is the tail, the last the head
  have hfirst : readAt t.disk.index 0 indexEntrySize =
      some (IndexEntry.marshallBinary ⟨t.tailId, t.itemOffset⟩) := by
    exact L.readAt_index (k := 0) (by omega)
  have hlast : readAt t.disk.index ((t.disk.index.length : ℤ) - indexEntrySize) indexEntrySize =
      some (IndexEntry.marshallBinary ⟨t.headId, t.headBytes⟩) := by
    have hoffset : (t.disk.index.length : ℤ) - indexEntrySize = ((indexEntrySize * es.length : ℕ) : ℤ) := by
      rw [hsize]
      simp only [indexEntrySize]
      omega
    rw [hoffset, L.readAt_index (by omega), (List.getElem?_eq_some_iff.mp (L.last_entry hne)).2]
  have hmem_head : (⟨t.headId, t.headBytes⟩ : IndexEntry) ∈ (⟨t.tailId, t.itemOffset⟩ :: es : List IndexEntry) :=
    List.mem_of_getElem? (L.last_entry hne)
  have hunm₀ := IndexEntry.unmarshalBinary_marshallBinary_of_lt (L.filenum_lt List.mem_cons_self)
  have hunm₁ := IndexEntry.unmarshalBinary_marshallBinary_of_lt (L.filenum_lt hmem_head)
  obtain ⟨d, hd, hdlen⟩ := L.head_file
  obtain ⟨F, hF, hrepair⟩ := FreezerTable.repair_spec
    (t := ⟨0, nc, m, [], 0, 0, 0, 0, t.disk, false⟩)
    (by rw [hsize]; simp [indexEntrySize]) (by rw [hsize]; exact Nat.mul_mod_right _ _) hfirst hlast
    (by rw [hunm₁]; exact hd) (by rw [hunm₁]; exact hdlen)
  rw [hunm₀, hunm₁] at hrepair
  rw [hunm₁] at hF
  dsimp only at hF hrepair
  obtain ⟨F', hF', hpre⟩ := FreezerTable.preopen_spec
    (t := ⟨t.itemOffset.toUInt64 + UInt64.ofInt ((t.disk.index.length : ℤ).tdiv indexEntrySize - 1), nc, m, F,
      t.headId, t.tailId, t.itemOffset, UInt32.ofInt d.length, t.disk, false⟩) L.tail_le_head L.exists_file
  refine ⟨_, hrepair.trans hpre, L.of_eq rfl rfl ?_ rfl rfl rfl ?_ ?_ ?_, rfl, rfl, rfl, rfl⟩
  · apply UInt64.toNat_inj.mp
    dsimp only
    rw [hsize, toNat_items_of_size _ hk60, L.items_eq, L.length_eq]
  · dsimp only
    rw [hdlen, ofInt_toNat_toUInt32]
  · intro f hlo hhi
    exact (hF' f).mpr (Or.inr ⟨hlo, hhi⟩)
  · intro f hf
    rcases (hF' f).mp hf with ⟨hf', -⟩ | ⟨-, hhi⟩
    · rcases (hF f).mp hf' with rfl | hnil
      · exact UInt32.le_refl _
      · exact absurd hnil List.not_mem_nil
    · exact hhi

end Layout

/-- **Opening** an empty directory writes the zero tail entry, creates file `0`
as the head and gives an empty table. -/
theorem layout_newCustomTable_empty (m : UInt32) (nc : Bool) :
    ∃ t, newCustomTable Disk.empty m nc = .ok t ∧ Layout t [] [] ∧ t.noCompression = nc ∧
      t.maxFileSize = m ∧ t.tailId = 0 ∧ t.itemOffset = 0 := by
  refine ⟨⟨0, nc, m, [0], 0, 0, 0, 0, ⟨List.replicate indexEntrySize 0, Function.update (fun _ => none) 0 (some [])⟩,
    false⟩, ?_, ?_, rfl, rfl, rfl, rfl⟩
  · -- the new index gets its zero entry; the rest runs on closed values
    unfold newCustomTable FreezerTable.repair
    simp only [Disk.empty, List.length_nil, ↓reduceIte, List.nil_append, Nat.zero_mod, ne_eq, not_true_eq_false]
    rfl
  have hzero : ∀ f : UInt32, 0 ≤ f → f ≤ 0 → f = 0 := fun f h₁ h₂ => UInt32.le_antisymm h₂ h₁
  exact {
    not_closed := rfl
    length_eq := rfl
    items_eq := rfl
    items_lt := by show (0 : UInt64).toNat < 2 ^ 60; decide
    index_eq := by show List.replicate indexEntrySize 0 = ([IndexEntry.mk 0 0].map IndexEntry.marshallBinary).flatten; decide
    head_eq := rfl
    head_file := ⟨[], rfl, rfl⟩
    blob := fun j e b he _ => absurd he (by simp)
    sorted := List.Pairwise.nil
    tail_le := fun e he => absurd he List.not_mem_nil
    tail_le_head := UInt32.le_refl _
    exists_file := fun f h₁ h₂ => by rw [hzero f h₁ h₂]; rfl
    open_files := fun f h₁ h₂ => by rw [hzero f h₁ h₂]; exact List.mem_singleton_self _
    files_le := fun f hf => by rw [List.mem_singleton.mp hf]; exact UInt32.le_refl _
    headId_lt := by show (0 : UInt32).toNat < 2 ^ 16; decide }

end RpcNetwork.Core.Rawdb
