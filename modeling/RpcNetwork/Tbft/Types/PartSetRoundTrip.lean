import RpcNetwork.Tbft.Types.PartSet
import RpcNetwork.Tbft.Types.VoteSetInvariant

/-!
# Splitting a block into parts and reassembling it

A proposer cuts a block with `NewPartSetFromData`; a receiver starts from the
header, adds parts in any order and repetition, and reads the block back once
complete.  This module proves that round trip, and where it is narrower.

## Design notes

An arrival order is any list of the proposer's parts, in any order and with
repeats.  Two of those parts with one index are the same part, so "a part comes
for the first time" and "its index is not filled yet" agree; the invariant
`Filling` tracks indices.

The reader is specified by the bytes it has still to deliver; the proof
follows the branches of `Read` by functional induction.
-/

namespace RpcNetwork.Tbft.Types

open Help

/-! ### The slices of the data -/

section Slices

variable {data : HexBytes} {partSize : ℕ}

/-- Part `i` is the `i`-th run of `partSize` bytes, shorter at the end. -/
theorem partBytes_eq (data : HexBytes) (partSize i : ℕ) :
    partBytes data partSize i = (data.drop (i * partSize)).take partSize := by
  rw [partBytes, List.drop_take, List.take_eq_take_iff, List.length_drop, Nat.succ_mul]
  omega

/-- The first `n` parts, joined, are the first `n * partSize` bytes. -/
theorem flatten_partBytes (data : HexBytes) (partSize n : ℕ) :
    ((List.range n).map (partBytes data partSize)).flatten = data.take (n * partSize) := by
  induction n with
  | zero => simp
  | succ n ih =>
    rw [List.range_succ, List.map_append, List.flatten_append, ih, Nat.succ_mul, List.take_add,
      List.map_singleton, List.flatten_singleton, partBytes_eq]

/-- The part count of `NewPartSetFromData` leaves no byte out. -/
theorem length_le_total_mul (hps : 0 < partSize) :
    data.length ≤ (data.length + partSize - 1) / partSize * partSize := by
  have h : data.length + partSize - 1 <
      (data.length + partSize - 1) / partSize * partSize + partSize :=
    Nat.lt_div_mul_add hps
  omega

/-- Nonempty data has at least one part. -/
theorem total_pos (hne : data ≠ []) (hps : 0 < partSize) :
    0 < (data.length + partSize - 1) / partSize := by
  have hlen : 0 < data.length := List.length_pos_iff.mpr hne
  exact Nat.div_pos (by omega) hps

end Slices

/-! ### The set a proposer builds -/

/-- The bytes of a list of parts, joined; a missing part adds none. -/
def joinedBytes (parts : List (Option Part)) : HexBytes :=
  (parts.map fun o => (o.map Part.bytes).getD []).flatten

@[simp] theorem joinedBytes_nil : joinedBytes [] = [] := rfl

@[simp] theorem joinedBytes_cons_some (part : Part) (parts : List (Option Part)) :
    joinedBytes (some part :: parts) = part.bytes ++ joinedBytes parts := rfl

namespace PartSet

/-- What `NewPartSetFromData rlp data partSize` returns: one part per slice of
the data, part `i` at index `i` holding the `i`-th slice, with a proof that
verifies against the set's hash. -/
structure FromData (rlp : RlpHasher) (data : HexBytes) (partSize : ℕ) (P : PartSet) : Prop where
  total : P.total = (data.length + partSize - 1) / partSize
  length : P.parts.length = P.total
  part : ∀ i < P.total, ∃ part, P.parts.getD i none = some part ∧ part.index = i ∧
    part.bytes = partBytes data partSize i ∧ part.proof.verify rlp P.hash (part.hash rlp) = none

end PartSet

/-- **The proposer's set.**  On nonempty data and a positive part size,
`NewPartSetFromData` returns a set, and it holds the slices of the data with
proofs that verify. -/
theorem newPartSetFromData_fromData (rlp : RlpHasher) {data : HexBytes} (hne : data ≠ [])
    {partSize : ℕ} (hps : 0 < partSize) :
    ∃ P, newPartSetFromData rlp data partSize = .ok P ∧ P.FromData rlp data partSize := by
  obtain ⟨total, htotal⟩ : ∃ total, total = (data.length + partSize - 1) / partSize := ⟨_, rfl⟩
  obtain ⟨items, hitems⟩ : ∃ items, items = (List.range total).map (partBytes data partSize) :=
    ⟨_, rfl⟩
  have hlen : items.length = total := by rw [hitems, List.length_map, List.length_range]
  have hne' : items ≠ [] := List.length_pos_iff.mp (by rw [hlen, htotal]; exact total_pos hne hps)
  obtain ⟨root, proofs, hsp, hplen, hproofs⟩ := simpleProofsFromByteSlices_spec rlp hne'
  refine ⟨⟨total, root, (items.zip proofs).mapIdx fun i bp => some ⟨i, bp.1, bp.2⟩,
      (List.range total).foldl (fun bA i => BitArray.setIndex bA i true)
        (BitArray.newBitArray total), total⟩, ?_, ⟨htotal, ?_, fun i hi => ?_⟩⟩
  · rw [newPartSetFromData, if_neg hps.ne']
    simp only [← htotal, ← hitems, hsp]
    rfl
  · simp [hlen, hplen]
  · have hi' : i < items.length := by rw [hlen]; exact hi
    obtain ⟨sp, hsp_i, -, -, -, -, hverify⟩ := hproofs i hi'
    have hzip : (items.zip proofs)[i]? = some (items[i], sp) :=
      List.getElem?_zip_eq_some.mpr ⟨List.getElem?_eq_getElem _, hsp_i⟩
    refine ⟨⟨i, items[i], sp⟩, ?_, rfl, by simp [hitems], hverify⟩
    simp [List.getD_eq_getElem?_getD, List.getElem?_mapIdx, hzip]

namespace PartSet.FromData

variable {rlp : RlpHasher} {data : HexBytes} {partSize : ℕ} {P : PartSet}

/-- One of `P`'s parts sits at its own index, below the total. -/
theorem mem (hP : P.FromData rlp data partSize) {part : Part} (hmem : some part ∈ P.parts) :
    part.index < P.total ∧ P.parts.getD part.index none = some part := by
  obtain ⟨i, hi, hget⟩ := List.getElem_of_mem hmem
  obtain ⟨part', hpart', hidx, -, -⟩ := hP.part i (by rw [← hP.length]; exact hi)
  have hsame : part' = part := by
    rw [List.getD_eq_getElem _ _ hi, hget] at hpart'
    exact (Option.some_injective _ hpart').symm
  subst hsame
  rw [hidx]
  exact ⟨by rw [← hP.length]; exact hi, by rw [List.getD_eq_getElem _ _ hi, hget]⟩

/-- Two of `P`'s parts with one index are the same part. -/
theorem eq_of_index_eq (hP : P.FromData rlp data partSize) {p q : Part} (hp : some p ∈ P.parts)
    (hq : some q ∈ P.parts) (h : p.index = q.index) : p = q := by
  have hget := (hP.mem hp).2
  rw [h, (hP.mem hq).2] at hget
  exact (Option.some_injective _ hget).symm

/-- `P`'s parts, joined, are the data. -/
theorem joinedBytes_eq (hP : P.FromData rlp data partSize) (hps : 0 < partSize) :
    joinedBytes P.parts = data := by
  have hmap : P.parts.map (fun o => (o.map Part.bytes).getD []) =
      (List.range P.total).map (partBytes data partSize) := by
    apply List.ext_getElem (by rw [List.length_map, List.length_map, List.length_range, hP.length])
    intro i h₁ h₂
    obtain ⟨part, hpart, -, hbytes, -⟩ := hP.part i (by simpa using h₂)
    rw [List.getD_eq_getElem _ _ (by simpa using h₁)] at hpart
    simp [hpart, hbytes]
  rw [joinedBytes, hmap, flatten_partBytes, hP.total,
    List.take_of_length_le (length_le_total_mul hps)]

end PartSet.FromData

/-! ### A receiver's set part way through -/

namespace PartSet

/-- A receiver's set after some of `P`'s parts arrived: it has `P`'s header, and
holds `P`'s parts at the indices in `S`, their bits set and counted, and
nothing else. -/
structure Filling (P Q : PartSet) (S : Finset ℕ) : Prop where
  total : Q.total = P.total
  hash : Q.hash = P.hash
  length : Q.parts.length = P.total
  parts : ∀ i, Q.parts.getD i none = if i ∈ S then P.parts.getD i none else none
  wellFormed : BitArray.WellFormed Q.partsBitArray
  size : BitArray.size Q.partsBitArray = P.total
  bits : ∀ i, BitArray.getIndex Q.partsBitArray i = decide (i ∈ S)
  count : Q.count = S.card
  lt_total : ∀ i ∈ S, i < P.total

/-- The set of `NewPartSetFromHeader(P.Header())` holds nothing yet. -/
theorem filling_newPartSetFromHeader (P : PartSet) :
    Filling P (newPartSetFromHeader P.header) ∅ where
  total := rfl
  hash := rfl
  length := List.length_replicate
  parts i := by simp [newPartSetFromHeader]
  wellFormed := BitArray.wellFormed_newBitArray _
  size := BitArray.size_newBitArray _
  bits i := by simp [newPartSetFromHeader]
  count := rfl
  lt_total i hi := absurd hi (Finset.notMem_empty i)

namespace Filling

variable {rlp : RlpHasher} {data : HexBytes} {partSize : ℕ} {P Q : PartSet} {S : Finset ℕ}
  {part : Part}

/-- A part whose index is filled is answered `(false, nil)` and changes nothing. -/
theorem addPart_of_mem (hP : P.FromData rlp data partSize) (hF : Filling P Q S)
    (hin : part.index ∈ S) : Q.addPart rlp part = ((false, none), Q) := by
  have hlt := hF.lt_total _ hin
  obtain ⟨p, hp, -⟩ := hP.part _ hlt
  refine addPart_of_filled (by rw [hF.total]; exact hlt) ?_
  rw [hF.parts, if_pos hin, hp]
  rfl

/-- One of `P`'s parts at an index not filled yet is added: stored, its bit set,
and counted. -/
theorem addPart_of_not_mem (hP : P.FromData rlp data partSize) (hF : Filling P Q S)
    (hmem : some part ∈ P.parts) (hnot : part.index ∉ S) :
    ∃ Q', Q.addPart rlp part = ((true, none), Q') ∧ Filling P Q' (insert part.index S) := by
  obtain ⟨hlt, hget⟩ := hP.mem hmem
  obtain ⟨p, hp, -, -, hverify⟩ := hP.part _ hlt
  obtain rfl : p = part := Option.some_injective _ (hp.symm.trans hget)
  have hempty : Q.parts.getD p.index none = none := by rw [hF.parts, if_neg hnot]
  have hlt' : p.index < Q.parts.length := by rw [hF.length]; exact hlt
  rw [← hF.hash] at hverify
  refine ⟨_, addPart_of_valid (by rw [hF.total]; exact hlt) hempty hverify, ?_⟩
  refine ⟨hF.total, hF.hash, by rw [List.length_set, hF.length], fun i => ?_,
    hF.wellFormed.setIndex _ _, by rw [BitArray.size_setIndex, hF.size], fun i => ?_,
    by rw [Finset.card_insert_of_notMem hnot, hF.count], ?_⟩
  · -- the slot of the new part, and every other slot as before
    rw [getD_set_none hlt']
    by_cases hi : i = p.index
    · subst hi
      rw [if_pos rfl, if_pos (Finset.mem_insert_self _ _), hget]
    · rw [if_neg hi, hF.parts]
      simp [hi]
  · rw [BitArray.getIndex_setIndex hF.wellFormed, hF.size, hF.bits]
    by_cases hi : i = p.index
    · simp [hi, hlt]
    · simp [hi]
  · intro i hi
    rcases Finset.mem_insert.mp hi with rfl | hi
    · exact hlt
    · exact hF.lt_total i hi

/-- **One `AddPart`.**  One of `P`'s parts is answered `(true, nil)` when its index
is not filled yet, and `(false, nil)` with no change when it is; either way
the set then holds its index. -/
theorem addPart (hP : P.FromData rlp data partSize) (hF : Filling P Q S)
    (hmem : some part ∈ P.parts) :
    (Q.addPart rlp part).1 = (decide (part.index ∉ S), none) ∧
      (part.index ∈ S → (Q.addPart rlp part).2 = Q) ∧
      Filling P (Q.addPart rlp part).2 (insert part.index S) := by
  by_cases hin : part.index ∈ S
  · rw [hF.addPart_of_mem hP hin, Finset.insert_eq_of_mem hin]
    exact ⟨by simp [hin], fun _ => rfl, hF⟩
  · obtain ⟨Q', hadd, hF'⟩ := hF.addPart_of_not_mem hP hmem hin
    rw [hadd]
    exact ⟨by simp [hin], fun h => absurd h hin, hF'⟩

/-- **A whole arrival order.**  After any list of `P`'s parts, the set holds
exactly the indices that came. -/
theorem addParts (hP : P.FromData rlp data partSize) (order : List Part)
    (horder : ∀ part ∈ order, some part ∈ P.parts) (hF : Filling P Q S) :
    Filling P (Q.addParts rlp order).2 (S ∪ order.toFinset.image Part.index) := by
  induction order generalizing Q S with
  | nil => simpa [PartSet.addParts] using hF
  | cons part order ih =>
    -- one step, then the rest of the order from the set it leaves
    have hstep := (hF.addPart hP (horder part List.mem_cons_self)).2.2
    have hrest := ih (fun p hp => horder p (List.mem_cons_of_mem _ hp)) hstep
    rw [List.toFinset_cons, Finset.image_insert, Finset.union_insert, ← Finset.insert_union]
    exact hrest

/-- Once every index has come, the set is complete and holds `P`'s parts. -/
theorem complete (hP : P.FromData rlp data partSize) (hF : Filling P Q S)
    (hall : ∀ i < P.total, i ∈ S) : Q.isComplete ∧ Q.parts = P.parts := by
  have hS : S = Finset.range P.total := by
    ext i
    rw [Finset.mem_range]
    exact ⟨hF.lt_total i, hall i⟩
  refine ⟨?_, List.ext_getElem (by rw [hF.length, hP.length]) fun i h₁ h₂ => ?_⟩
  · rw [isComplete, hF.count, hF.total, hS, Finset.card_range, beq_self_eq_true]
  · have hslot := hF.parts i
    rw [if_pos (hall i (by rw [← hP.length]; exact h₂)), List.getD_eq_getElem _ _ h₁,
      List.getD_eq_getElem _ _ h₂] at hslot
    exact hslot

end Filling

end PartSet

/-! ### Reading the set back -/

namespace PartSetReader

/-- The bytes a reader has still to deliver: the rest of its current part, then
every later part. -/
def unread (psr : PartSetReader) : HexBytes :=
  psr.reader.s.drop psr.reader.i ++ joinedBytes (psr.parts.drop (psr.i + 1))

/-- Every part after the current one is there, so `Read` moves on without a nil
dereference. -/
def Ready (psr : PartSetReader) : Prop :=
  ∀ j, psr.i < j → j < psr.parts.length → (psr.parts.getD j none).isSome

/-- Reading `n` bytes inside the current part leaves the rest of the stream. -/
theorem unread_advance (psr : PartSetReader) (n : ℕ) (hn : n ≤ psr.reader.len) :
    (⟨psr.i, psr.parts, ⟨psr.reader.s, psr.reader.i + n⟩⟩ : PartSetReader).unread =
      psr.unread.drop n := by
  have hlen : n ≤ (psr.reader.s.drop psr.reader.i).length := by
    rw [List.length_drop]
    exact hn
  rw [unread, unread, List.drop_append_of_le_length hlen, List.drop_drop, Nat.add_comm]

/-- At the end of its part, a reader's stream is that of the next part. -/
theorem unread_next (psr : PartSetReader) (h0 : psr.reader.len = 0)
    (hnext : psr.i + 1 < psr.parts.length) {part : Part}
    (hpart : psr.parts.getD (psr.i + 1) none = some part) :
    ({ psr with i := psr.i + 1, reader := newBytesReader part.bytes } : PartSetReader).unread =
      psr.unread := by
  have hrest : psr.reader.s.drop psr.reader.i = [] :=
    List.drop_eq_nil_of_le (by unfold BytesReader.len at h0; omega)
  rw [List.getD_eq_getElem _ _ hnext] at hpart
  rw [unread, unread, hrest, List.drop_eq_getElem_cons hnext, hpart]
  simp [newBytesReader]

/-- At the end of its last part, a reader has nothing left. -/
theorem unread_last (psr : PartSetReader) (h0 : psr.reader.len = 0)
    (hend : psr.parts.length ≤ psr.i + 1) : psr.unread = [] := by
  have hrest : psr.reader.s.drop psr.reader.i = [] :=
    List.drop_eq_nil_of_le (by unfold BytesReader.len at h0; omega)
  rw [unread, hrest, List.drop_eq_nil_of_le hend, joinedBytes_nil, List.append_nil]

/-- **One read.**  A read of `len > 0` bytes delivers the next `len` unread
bytes, or all of them and `io.EOF` when fewer are left.  The induction follows
the branches of `Read`: inside the part, across its end, and on to the next
part. -/
theorem read_spec (psr : PartSetReader) (len : ℕ) :
    psr.Ready → 0 < len → ∃ psr', psr.read len =
      .ok ((psr.unread.take len, if len ≤ psr.unread.length then none else some .eof), psr') ∧
      psr'.Ready ∧ psr'.unread = psr.unread.drop len := by
  fun_induction read psr len with
  | case1 psr len hle r =>
    -- the buffer fits in the current part
    intro hR hlen
    have hr : r = (((psr.reader.s.drop psr.reader.i).take len, none),
        ⟨psr.reader.s, psr.reader.i + len⟩) :=
      BytesReader.read_of_le (by omega) hle
    clear_value r
    subst hr
    have hfit : len ≤ (psr.reader.s.drop psr.reader.i).length := by
      rw [List.length_drop]
      exact hle
    refine ⟨⟨psr.i, psr.parts, ⟨psr.reader.s, psr.reader.i + len⟩⟩, ?_, hR,
      unread_advance psr len hle⟩
    rw [unread, List.take_append_of_le_length hfit,
      if_pos (le_trans hfit (by rw [List.length_append]; omega))]
    rfl
  | case2 psr len _ hpos r hsome =>
    -- the rest of a part is read without an error
    have hr : r = (((psr.reader.s.drop psr.reader.i).take psr.reader.len, none),
        ⟨psr.reader.s, psr.reader.i + psr.reader.len⟩) :=
      BytesReader.read_of_le hpos le_rfl
    rw [hr] at hsome
    exact absurd hsome (by simp)
  | case3 psr len hgt hpos r _ ih =>
    -- the rest of the part, then the rest of the buffer from the parts after it
    intro hR hlen
    have hrest : (psr.reader.s.drop psr.reader.i).length = psr.reader.len := List.length_drop
    have hr : r = ((psr.reader.s.drop psr.reader.i, none),
        ⟨psr.reader.s, psr.reader.i + psr.reader.len⟩) := by
      rw [show r = psr.reader.read psr.reader.len from rfl, BytesReader.read_of_le hpos le_rfl,
        List.take_of_length_le (le_of_eq hrest)]
    clear_value r
    subst hr
    obtain ⟨psr', hread, hR', hunread⟩ := ih hR (by omega)
    -- the parts after the current one
    obtain ⟨J, hJ⟩ : ∃ J, J = joinedBytes (psr.parts.drop (psr.i + 1)) := ⟨_, rfl⟩
    have hU : psr.unread = psr.reader.s.drop psr.reader.i ++ J := by rw [hJ]; rfl
    have hdrop : psr.unread.drop psr.reader.len = J := by rw [hU]; exact List.drop_left' hrest
    rw [unread_advance psr _ le_rfl, hdrop] at hread hunread
    have hshort : (psr.reader.s.drop psr.reader.i).length ≤ len := by omega
    refine ⟨psr', ?_, hR', ?_⟩
    · simp only [hread, bind, Except.bind, pure, Except.pure, hU, List.take_append,
        List.take_of_length_le hshort, hrest, List.length_append]
      by_cases hfit : len - psr.reader.len ≤ J.length
      · rw [if_pos hfit, if_pos (by omega)]
      · rw [if_neg hfit, if_neg (by omega)]
    · rw [hunread, ← hdrop, List.drop_drop, Nat.add_sub_cancel' (by omega)]
  | case4 psr len _ hzero hend =>
    -- the last part is exhausted
    intro hR hlen
    have hnil := unread_last psr (by omega) hend
    refine ⟨⟨psr.i + 1, psr.parts, psr.reader⟩, ?_, fun j hj hj' => ?_, ?_⟩
    · rw [hnil, List.take_nil, List.length_nil, if_neg (by omega)]
      rfl
    · exact absurd hj' (by simp only at hj ⊢; omega)
    · rw [hnil, List.drop_nil]
      exact unread_last _ (by simpa using hzero) (by simp only; omega)
  | case5 psr len _ _ hnext hnil =>
    intro hR _
    have hsome := hR (psr.i + 1) (Nat.lt_succ_self _) (by omega)
    rw [hnil] at hsome
    exact absurd hsome Bool.false_ne_true
  | case6 psr len _ hzero hnext part hpart ih =>
    -- move on to the next part and read from there
    intro hR hlen
    have hR₁ : Ready ⟨psr.i + 1, psr.parts, newBytesReader part.bytes⟩ :=
      fun j hj hj' => hR j (by simp only at hj; omega) hj'
    rw [← unread_next psr (by omega) (by omega) hpart]
    exact ih hR₁ hlen

/-- **Reads to the end.**  Reading with buffers of positive lengths delivers the
unread bytes in order, as many as the buffers hold, and stops at `io.EOF` once
they are all delivered. -/
theorem readToEOF_spec (lens : List ℕ) (hpos : ∀ len ∈ lens, 0 < len) (psr : PartSetReader)
    (hR : psr.Ready) :
    psr.readToEOF lens = .ok (psr.unread.take lens.sum, decide (psr.unread.length < lens.sum)) := by
  induction lens generalizing psr with
  | nil => rfl
  | cons len lens ih =>
    obtain ⟨psr', hread, hR', hunread⟩ := psr.read_spec len hR (hpos len List.mem_cons_self)
    have hrest := ih (fun l hl => hpos l (List.mem_cons_of_mem _ hl)) psr' hR'
    rw [hunread] at hrest
    rw [readToEOF, hread, List.sum_cons]
    by_cases hle : len ≤ psr.unread.length
    · -- the buffer is filled, and the next reads go on from there
      have hiff : (psr.unread.drop len).length < lens.sum ↔ psr.unread.length < len + lens.sum := by
        rw [List.length_drop]
        omega
      simp only [bind, Except.bind, if_pos hle, hrest, Option.isSome_none, Bool.false_eq_true,
        if_false, ← List.take_add, decide_eq_decide.mpr hiff]
      rfl
    · -- fewer bytes than the buffer: all of them, and `io.EOF`
      have hlt : psr.unread.length < len + lens.sum := by omega
      simp only [bind, Except.bind, if_neg hle, Option.isSome_some, if_true,
        List.take_of_length_le (Nat.le_of_not_ge hle), List.take_of_length_le hlt.le,
        decide_eq_true hlt]
      rfl

/-- **An empty buffer at a part boundary ends the stream.**  Reading exactly the
rest of the current part and then with an empty buffer stops at `io.EOF`
after that part, whatever the later parts hold. -/
theorem readToEOF_boundary_empty (psr : PartSetReader) (hpos : 0 < psr.reader.len) :
    psr.readToEOF [psr.reader.len, 0] = .ok (psr.reader.s.drop psr.reader.i, true) := by
  have hrest : (psr.reader.s.drop psr.reader.i).length = psr.reader.len := List.length_drop
  -- the first read empties the part
  have hfirst : psr.read psr.reader.len =
      .ok (((psr.reader.s.drop psr.reader.i, none)),
        ⟨psr.i, psr.parts, ⟨psr.reader.s, psr.reader.i + psr.reader.len⟩⟩) := by
    rw [read_of_le_len le_rfl, BytesReader.read_of_le hpos le_rfl,
      List.take_of_length_le (le_of_eq hrest)]
  have hempty : (⟨psr.reader.s, psr.reader.i + psr.reader.len⟩ : BytesReader).len = 0 := by
    simp only [BytesReader.len] at hpos ⊢
    omega
  -- the second read, with an empty buffer, answers `io.EOF`
  rw [readToEOF, hfirst]
  simp only [bind, Except.bind, Option.isSome_none, Bool.false_eq_true, if_false]
  rw [readToEOF, read_zero_of_len_eq_zero hempty]
  simp only [bind, Except.bind, Option.isSome_some, if_true, pure, Except.pure, List.append_nil]

end PartSetReader

/-- A reader on `P`'s parts starts on the first one, with the data unread. -/
theorem PartSet.FromData.reader {rlp : RlpHasher} {data : HexBytes} {partSize : ℕ} {P : PartSet}
    (hP : P.FromData rlp data partSize) (hne : data ≠ []) (hps : 0 < partSize) :
    ∃ psr, newPartSetReader P.parts = .ok psr ∧ psr.Ready ∧ psr.unread = data := by
  obtain ⟨part, hpart, -⟩ := hP.part 0 (by rw [hP.total]; exact total_pos hne hps)
  obtain ⟨rest, hparts⟩ : ∃ rest, P.parts = some part :: rest := by
    cases hcases : P.parts with
    | nil => rw [hcases] at hpart; cases hpart
    | cons o rest =>
      rw [hcases] at hpart
      exact ⟨rest, by rw [show o = some part from hpart]⟩
  refine ⟨⟨0, P.parts, newBytesReader part.bytes⟩, by rw [hparts]; rfl, fun j hj hj' => ?_, ?_⟩
  · obtain ⟨p, hp, -⟩ := hP.part j (by rw [← hP.length]; exact hj')
    rw [hp]
    rfl
  · show part.bytes.drop 0 ++ joinedBytes (P.parts.drop 1) = data
    rw [← hP.joinedBytes_eq hps, hparts, List.drop_zero, List.drop_one, List.tail_cons,
      joinedBytes_cons_some]

/-! ### The round trip -/

/-- **Splitting and reassembling a block.**  A receiver starting from the
header of `NewPartSetFromData`'s set takes its parts, in any order and with
repeats, each the first time; once all came it reads the data back with
buffers of any positive lengths.  A part out of range, or with a failing proof,
changes nothing: an error, or `(false, nil)` once its index is filled. -/
theorem partSet_round_trip (rlp : RlpHasher) {data : HexBytes} (hne : data ≠ [])
    {partSize : ℕ} (hps : 0 < partSize) :
    ∃ P, newPartSetFromData rlp data partSize = .ok P ∧
      (∀ order : List Part, (∀ part ∈ order, some part ∈ P.parts) →
        (∀ k (hk : k < order.length),
          let Q := ((newPartSetFromHeader P.header).addParts rlp (order.take k)).2
          (Q.addPart rlp order[k]).1 = (decide (order[k] ∉ order.take k), none) ∧
            (order[k] ∈ order.take k → (Q.addPart rlp order[k]).2 = Q)) ∧
        (∀ k ≤ order.length,
          let Q := ((newPartSetFromHeader P.header).addParts rlp (order.take k)).2
          Q.count = (order.take k).toFinset.card ∧
            ∀ i, BitArray.getIndex Q.partsBitArray i =
              decide (∃ part ∈ order.take k, part.index = i)) ∧
        ((∀ part, some part ∈ P.parts → part ∈ order) →
          let Q := ((newPartSetFromHeader P.header).addParts rlp order).2
          Q.isComplete ∧ ∃ psr, Q.getReader = .ok psr ∧
            ∀ lens : List ℕ, (∀ len ∈ lens, 0 < len) →
              psr.readToEOF lens = .ok (data.take lens.sum, decide (data.length < lens.sum)))) ∧
      ∀ (Q : PartSet) (part : Part),
        (Q.total ≤ part.index → Q.addPart rlp part = ((false, some .unexpectedIndex), Q)) ∧
        (part.index < Q.total → (part.proof.verify rlp Q.hash (part.hash rlp)).isSome →
          Q.addPart rlp part =
            ((false, if (Q.parts.getD part.index none).isSome then none else some .invalidProof), Q)) := by
  obtain ⟨P, hnew, hP⟩ := newPartSetFromData_fromData rlp hne hps
  refine ⟨P, hnew, fun order horder => ?_, fun Q part => ⟨PartSet.addPart_of_total_le, ?_⟩⟩
  · -- the receiver after the first `k` arrivals holds the indices that came
    have hafter : ∀ k, PartSet.Filling P
        ((newPartSetFromHeader P.header).addParts rlp (order.take k)).2
        ((order.take k).toFinset.image Part.index) := by
      intro k
      have hF := (PartSet.filling_newPartSetFromHeader P).addParts hP (order.take k)
        (fun p hp => horder p (List.mem_of_mem_take hp))
      rwa [Finset.empty_union] at hF
    -- among `P`'s parts, an index that came is a part that came
    have hinj : Set.InjOn Part.index {p | p ∈ order} := fun p hp q hq h =>
      hP.eq_of_index_eq (horder p hp) (horder q hq) h
    have hseen : ∀ k (hk : k < order.length),
        order[k].index ∈ (order.take k).toFinset.image Part.index ↔ order[k] ∈ order.take k := by
      intro k hk
      rw [Finset.mem_image]
      constructor
      · rintro ⟨p, hp, hidx⟩
        rw [List.mem_toFinset] at hp
        rwa [← hinj (List.mem_of_mem_take hp) (List.getElem_mem hk) hidx]
      · intro h
        exact ⟨order[k], List.mem_toFinset.mpr h, rfl⟩
    refine ⟨fun k hk => ?_, fun k _ => ?_, fun hall => ?_⟩
    · obtain ⟨hans, hsame, -⟩ := (hafter k).addPart hP (horder _ (List.getElem_mem hk))
      refine ⟨?_, fun h => hsame ((hseen k hk).mpr h)⟩
      rw [hans, decide_eq_decide.mpr (not_congr (hseen k hk))]
    · refine ⟨?_, fun i => ?_⟩
      · rw [(hafter k).count, Finset.card_image_of_injOn]
        intro p hp q hq h
        exact hinj (List.mem_of_mem_take (List.mem_toFinset.mp hp))
          (List.mem_of_mem_take (List.mem_toFinset.mp hq)) h
      · rw [(hafter k).bits]
        simp [Finset.mem_image]
    · -- every index has come: the set is complete and reads back the data
      have hF := hafter order.length
      rw [List.take_length] at hF
      have hevery : ∀ i < P.total, i ∈ order.toFinset.image Part.index := by
        intro i hi
        obtain ⟨p, hp, hidx, -⟩ := hP.part i hi
        have hi' : i < P.parts.length := by rw [hP.length]; exact hi
        rw [List.getD_eq_getElem _ _ hi'] at hp
        have hmem : some p ∈ P.parts := by
          rw [← hp]
          exact List.getElem_mem hi'
        exact Finset.mem_image.mpr ⟨p, List.mem_toFinset.mpr (hall p hmem), hidx⟩
      obtain ⟨hcomplete, hparts⟩ := hF.complete hP hevery
      obtain ⟨psr, hreader, hR, hunread⟩ := hP.reader hne hps
      refine ⟨hcomplete, psr, ?_, fun lens hlens => ?_⟩
      · rw [PartSet.getReader, hcomplete, Bool.not_true, if_neg Bool.false_ne_true, hparts,
          hreader]
      · rw [PartSetReader.readToEOF_spec lens hlens psr hR, hunread]
  · -- a refused part, filled index or not
    intro hlt hinvalid
    by_cases hfilled : (Q.parts.getD part.index none).isSome
    · rw [if_pos hfilled]
      exact PartSet.addPart_of_filled hlt hfilled
    · rw [if_neg hfilled]
      exact PartSet.addPart_of_invalid hlt (Option.not_isSome_iff_eq_none.mp hfilled) hinvalid

/-! ### Two bytes in parts of one byte -/

/-- A hasher for runs on concrete data: a byte string is its own hash, and a
pair of hashes hashes to their concatenation. -/
def concatHasher : RlpHasher :=
  ⟨id, (· ++ ·)⟩

theorem partSet_round_trip_two_bytes :
    ([1, 2] : HexBytes) ≠ [] ∧ 0 < 1 ∧
    ∃ P, newPartSetFromData concatHasher ([1, 2] : HexBytes) 1 = .ok P ∧
      (∀ order : List Part, (∀ part ∈ order, some part ∈ P.parts) →
        (∀ k (hk : k < order.length),
          let Q := ((newPartSetFromHeader P.header).addParts concatHasher (order.take k)).2
          (Q.addPart concatHasher order[k]).1 = (decide (order[k] ∉ order.take k), none) ∧
            (order[k] ∈ order.take k → (Q.addPart concatHasher order[k]).2 = Q)) ∧
        (∀ k ≤ order.length,
          let Q := ((newPartSetFromHeader P.header).addParts concatHasher (order.take k)).2
          Q.count = (order.take k).toFinset.card ∧
            ∀ i, BitArray.getIndex Q.partsBitArray i =
              decide (∃ part ∈ order.take k, part.index = i)) ∧
        ((∀ part, some part ∈ P.parts → part ∈ order) →
          let Q := ((newPartSetFromHeader P.header).addParts concatHasher order).2
          Q.isComplete ∧ ∃ psr, Q.getReader = .ok psr ∧
            ∀ lens : List ℕ, (∀ len ∈ lens, 0 < len) →
              psr.readToEOF lens = .ok (([1, 2] : HexBytes).take lens.sum,
                decide (([1, 2] : HexBytes).length < lens.sum)))) ∧
      ∀ (Q : PartSet) (part : Part),
        (Q.total ≤ part.index → Q.addPart concatHasher part = ((false, some .unexpectedIndex), Q)) ∧
        (part.index < Q.total →
          (part.proof.verify concatHasher Q.hash (part.hash concatHasher)).isSome →
          Q.addPart concatHasher part =
            ((false, if (Q.parts.getD part.index none).isSome then none else some .invalidProof), Q)) :=
  ⟨by decide, by decide, partSet_round_trip concatHasher (by decide) (by decide)⟩

/-- Two bytes in parts of one byte, both parts added.  A part at the filled
index 0 whose proof fails is answered `(false, nil)`, not with an error; and
reading with a buffer of one byte and then an empty one returns `io.EOF` after
the first byte, with the second part unread. -/
theorem partSet_forged_duplicate_and_empty_read :
    ∃ P Q psr, newPartSetFromData concatHasher [1, 2] 1 = .ok P ∧
      (newPartSetFromHeader P.header).addParts concatHasher P.parts.reduceOption =
        ([(true, none), (true, none)], Q) ∧ Q.isComplete ∧
      (let forged : Part := ⟨0, [1], ⟨2, 0, [1], [[3]]⟩⟩;
        (forged.proof.verify concatHasher Q.hash (forged.hash concatHasher)).isSome ∧
          Q.addPart concatHasher forged = ((false, none), Q)) ∧
      Q.getReader = .ok psr ∧ psr.readToEOF [1, 0] = .ok ([1], true) :=
  ⟨_, _, _, rfl, rfl, rfl, ⟨rfl, rfl⟩, rfl,
    PartSetReader.readToEOF_boundary_empty _ (by decide)⟩

end RpcNetwork.Tbft.Types
