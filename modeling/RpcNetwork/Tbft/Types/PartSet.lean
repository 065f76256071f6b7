import RpcNetwork.Tbft.Help.SimpleProof
import RpcNetwork.Tbft.Help.BitArray

/-!
# Part sets (`types/part_set.go`)

A block travels as a `PartSet`: parts of `partSize` bytes, each with a Merkle
proof against their root, which a receiver's set fills with `AddPart` and
reads back with `GetReader`.

## Design notes

`partSize` and the lengths are naturals: Go computes the part count and the
slice bounds in `int`, which agrees for every size below `2^63`.  A zero
`partSize` divides by zero, and an empty `data` has no parts, so the nil root of
its Merkle tree is dereferenced: both panic.

`PartSetReader.Read`'s call on `p[:readerLen]` always takes its first branch,
so the model does it in place; its other calls recurse on a shorter buffer or
a later part, the measure of `read`.
-/

namespace RpcNetwork.Tbft.Types

open Help

/-- `Part`, without its cached hash. -/
structure Part where
  index : ℕ
  bytes : HexBytes
  proof : SimpleProof
  deriving DecidableEq, Repr

/-- `Part.Hash()`: `RlpHash` of the part's bytes. -/
def Part.hash (rlp : RlpHasher) (part : Part) : HexBytes :=
  rlp.bytes part.bytes

/-- `PartSet`, without its mutex. -/
structure PartSet where
  total : ℕ
  hash : HexBytes
  parts : List (Option Part)
  partsBitArray : Option BitArray
  count : ℕ

/-- The bytes of part `i`: `data[i*partSize : MinInt(len(data), (i+1)*partSize)]`. -/
def partBytes (data : HexBytes) (partSize i : ℕ) : HexBytes :=
  (data.take (min data.length ((i + 1) * partSize))).drop (i * partSize)

/-- `NewPartSetFromData(data, partSize)`: the parts of `data`, each with its
proof, all present. -/
def newPartSetFromData (rlp : RlpHasher) (data : HexBytes) (partSize : ℕ) :
    Except String PartSet :=
  if partSize = 0 then throw "runtime error: integer divide by zero"
  else do
    let total := (data.length + partSize - 1) / partSize
    let partsBytes := (List.range total).map (partBytes data partSize)
    let (root, proofs) ← simpleProofsFromByteSlices rlp partsBytes
    pure
      { total
        hash := root
        parts := (partsBytes.zip proofs).mapIdx fun i bp => some ⟨i, bp.1, bp.2⟩
        partsBitArray := (List.range total).foldl (fun bA i => BitArray.setIndex bA i true)
          (BitArray.newBitArray total)
        count := total }

/-- `NewPartSetFromHeader(header)`: an empty set ready to be filled. -/
def newPartSetFromHeader (header : PartSetHeader) : PartSet where
  total := header.total
  hash := header.hash
  parts := List.replicate header.total none
  partsBitArray := BitArray.newBitArray header.total
  count := 0

namespace PartSet

/-- `Header()`. -/
def header (ps : PartSet) : PartSetHeader :=
  ⟨ps.total, ps.hash⟩

/-- `IsComplete()`. -/
def isComplete (ps : PartSet) : Bool :=
  ps.count == ps.total

/-- `Header()` on a possibly nil set: the zero header for nil. -/
def headerOf : Option PartSet → PartSetHeader
  | some ps => ps.header
  | none => default

/-- `HasHeader(header)` on a possibly nil set: false for nil. -/
def hasHeader : Option PartSet → PartSetHeader → Bool
  | some ps, header => ps.header == header
  | none, _ => false

end PartSet

/-- The errors of `AddPart`. -/
inductive PartSetError where
  /-- `error part set unexpected index` -/
  | unexpectedIndex
  /-- `error part set invalid proof` -/
  | invalidProof
  deriving DecidableEq, Repr

namespace PartSet

/-- `AddPart(part)`: whether the part was added, and the error. -/
def addPart (rlp : RlpHasher) (ps : PartSet) (part : Part) :
    (Bool × Option PartSetError) × PartSet :=
  if ps.total ≤ part.index then ((false, some .unexpectedIndex), ps)
  -- a part that is already there is not added again
  else if (ps.parts.getD part.index none).isSome then ((false, none), ps)
  else if (part.proof.verify rlp ps.hash (part.hash rlp)).isSome then
    ((false, some .invalidProof), ps)
  else
    ((true, none),
      { ps with
        parts := ps.parts.set part.index (some part)
        partsBitArray := BitArray.setIndex ps.partsBitArray part.index true
        count := ps.count + 1 })

/-! #### The four outcomes of `AddPart` -/

section addPart

variable {rlp : RlpHasher} {ps : PartSet} {part : Part}

/-- A part whose index is out of range is refused with `ErrPartSetUnexpectedIndex`. -/
theorem addPart_of_total_le (h : ps.total ≤ part.index) :
    ps.addPart rlp part = ((false, some .unexpectedIndex), ps) :=
  if_pos h

/-- A part at a filled index is answered `(false, nil)`, whatever its proof. -/
theorem addPart_of_filled (hlt : part.index < ps.total)
    (hfilled : (ps.parts.getD part.index none).isSome) :
    ps.addPart rlp part = ((false, none), ps) := by
  rw [addPart, if_neg (Nat.not_le.mpr hlt), if_pos hfilled]

/-- A part at an empty index whose proof fails is refused with
`ErrPartSetInvalidProof`. -/
theorem addPart_of_invalid (hlt : part.index < ps.total)
    (hempty : ps.parts.getD part.index none = none)
    (hinvalid : (part.proof.verify rlp ps.hash (part.hash rlp)).isSome) :
    ps.addPart rlp part = ((false, some .invalidProof), ps) := by
  rw [addPart, if_neg (Nat.not_le.mpr hlt), hempty, Option.isSome_none, if_neg Bool.false_ne_true,
    if_pos hinvalid]

/-- A part at an empty index whose proof verifies is stored, its bit set and the
count raised. -/
theorem addPart_of_valid (hlt : part.index < ps.total)
    (hempty : ps.parts.getD part.index none = none)
    (hvalid : part.proof.verify rlp ps.hash (part.hash rlp) = none) :
    ps.addPart rlp part =
      ((true, none),
        { ps with
          parts := ps.parts.set part.index (some part)
          partsBitArray := BitArray.setIndex ps.partsBitArray part.index true
          count := ps.count + 1 }) := by
  rw [addPart, if_neg (Nat.not_le.mpr hlt), hempty, Option.isSome_none, if_neg Bool.false_ne_true,
    hvalid, Option.isSome_none, if_neg Bool.false_ne_true]

/-- An `AddPart` that does not add its part leaves the set as it was. -/
theorem addPart_eq_of_not_added (h : (ps.addPart rlp part).1.1 = false) :
    (ps.addPart rlp part).2 = ps := by
  unfold addPart at h ⊢
  -- `split_ifs` discards the branch that adds, where `h` reads `true = false`
  split_ifs at h ⊢ <;> rfl

end addPart

/-- A caller adding the parts one after another, as they arrive: the answers of
`AddPart`, and the set after the last one. -/
def addParts (rlp : RlpHasher) (ps : PartSet) : List Part →
    List (Bool × Option PartSetError) × PartSet
  | [] => ([], ps)
  | part :: parts =>
      let step := ps.addPart rlp part
      let rest := step.2.addParts rlp parts
      (step.1 :: rest.1, rest.2)

end PartSet

/-! ### Reading a complete set -/

/-- `io.EOF`, the only error the part set reader returns. -/
inductive IoError where
  | eof
  deriving DecidableEq, Repr

/-- `bytes.Reader`: the bytes and the offset of the next one to read. -/
structure BytesReader where
  s : HexBytes
  i : ℕ
  deriving DecidableEq, Repr

/-- `bytes.NewReader(b)`. -/
def newBytesReader (b : HexBytes) : BytesReader :=
  ⟨b, 0⟩

namespace BytesReader

/-- `Len()`: the number of unread bytes. -/
def len (r : BytesReader) : ℕ :=
  r.s.length - r.i

/-- `Read(b)` into a buffer of `n` bytes: `io.EOF` when nothing is left, even
for an empty buffer, and otherwise the next bytes, as many as fit. -/
def read (r : BytesReader) (n : ℕ) : (HexBytes × Option IoError) × BytesReader :=
  if r.s.length ≤ r.i then (([], some .eof), r)
  else
    let out := (r.s.drop r.i).take n
    ((out, none), { r with i := r.i + out.length })

/-- Reading at most what is left, with something left: the next `n` bytes. -/
theorem read_of_le {r : BytesReader} {n : ℕ} (hpos : 0 < r.len) (hn : n ≤ r.len) :
    r.read n = (((r.s.drop r.i).take n, none), ⟨r.s, r.i + n⟩) := by
  have hlen : ((r.s.drop r.i).take n).length = n := by
    rw [List.length_take, List.length_drop]
    exact min_eq_left hn
  rw [read, if_neg (by unfold len at hpos; omega)]
  dsimp only
  rw [hlen]

/-- At the end of its bytes, a reader answers `io.EOF` to a read of any size. -/
theorem read_of_len_eq_zero {r : BytesReader} (h : r.len = 0) (n : ℕ) :
    r.read n = (([], some .eof), r) :=
  if_pos (by unfold len at h; omega)

end BytesReader

/-- `PartSetReader`: the index of the current part, the parts, and a reader on
the bytes of the current part. -/
structure PartSetReader where
  i : ℕ
  parts : List (Option Part)
  reader : BytesReader

/-- `NewPartSetReader(parts)`: start on the first part. -/
def newPartSetReader (parts : List (Option Part)) : Except String PartSetReader :=
  match parts with
  | [] => throw "runtime error: index out of range [0] with length 0"
  | none :: _ => throw "runtime error: invalid memory address or nil pointer dereference"
  | some part :: _ => pure ⟨0, parts, newBytesReader part.bytes⟩

/-- `GetReader()`: a reader on a complete set. -/
def PartSet.getReader (ps : PartSet) : Except String PartSetReader :=
  if !ps.isComplete then throw "Cannot GetReader() on incomplete PartSet"
  else newPartSetReader ps.parts

namespace PartSetReader

/-- `Read(p)` into a buffer of `len` bytes: the bytes read and the error. -/
def read (psr : PartSetReader) (len : ℕ) :
    Except String ((HexBytes × Option IoError) × PartSetReader) :=
  if len ≤ psr.reader.len then
    let r := psr.reader.read len
    pure (r.1, { psr with reader := r.2 })
  else if 0 < psr.reader.len then
    -- `psr.Read(p[:readerLen])`: the first branch, on the rest of the part
    let r := psr.reader.read psr.reader.len
    if r.1.2.isSome then pure (r.1, { psr with reader := r.2 })
    else do
      let rest ← read { psr with reader := r.2 } (len - psr.reader.len)
      pure ((r.1.1 ++ rest.1.1, rest.1.2), rest.2)
  else if psr.parts.length ≤ psr.i + 1 then
    pure (([], some .eof), { psr with i := psr.i + 1 })
  else
    match psr.parts.getD (psr.i + 1) none with
    | none => throw "runtime error: invalid memory address or nil pointer dereference"
    | some part => read { psr with i := psr.i + 1, reader := newBytesReader part.bytes } len
termination_by (psr.parts.length - psr.i, len)
decreasing_by
  · exact Prod.Lex.right _ (by omega)
  · exact Prod.Lex.left _ _ (by omega)

/-- A buffer that fits in the current part is read from it. -/
theorem read_of_le_len {psr : PartSetReader} {len : ℕ} (h : len ≤ psr.reader.len) :
    psr.read len = .ok ((psr.reader.read len).1, { psr with reader := (psr.reader.read len).2 }) := by
  rw [read, if_pos h]
  rfl

/-- **A zero-length read at the end of a part returns `io.EOF`.**  The empty
buffer fits in the exhausted part, and `bytes.Reader` answers `io.EOF` at its
end, so `Read` never moves on to the parts that follow. -/
theorem read_zero_of_len_eq_zero {psr : PartSetReader} (h : psr.reader.len = 0) :
    psr.read 0 = .ok (([], some .eof), psr) := by
  rw [read_of_le_len (Nat.le_of_eq h.symm), BytesReader.read_of_len_eq_zero h]

/-- A caller reading with buffers of the given lengths, one after another, until
a read returns an error: the bytes read, and whether the reads stopped at
`io.EOF`. -/
def readToEOF (psr : PartSetReader) : List ℕ → Except String (HexBytes × Bool)
  | [] => pure ([], false)
  | len :: lens => do
      let r ← psr.read len
      if r.1.2.isSome then pure (r.1.1, true)
      else
        let rest ← r.2.readToEOF lens
        pure (r.1.1 ++ rest.1, rest.2)

end PartSetReader

end RpcNetwork.Tbft.Types
