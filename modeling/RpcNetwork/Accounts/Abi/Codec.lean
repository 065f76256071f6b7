import RpcNetwork.Lib.BigEndian

/-!
# The contract ABI codec

A model of `accounts/abi`'s encoder (`Type.pack`, `Arguments.Pack`) and decoder
(`toGoType`, `forEachUnpack`, `forTupleUnpack`, `Arguments.UnpackValues`) over
the type grammar `NewType` builds.

## Design notes

Words are 32 bytes, big-endian, read with `BigEndian.setBytes`.  Go's numbers
of every width are `Value.num`, its byte strings of every kind `Value.bytes`,
and arrays and slices `Value.arr`: the type says which Go type the value has.
`typeCheck` is the shape check of a value against its type.  Slicing a Go byte
slice past its end panics; the one place the decoder can do so is the
`panic` error.  Tuple field names play no part here and are left out.
-/

namespace RpcNetwork.Accounts.Abi

/-- The ABI types `NewType` builds. -/
inductive AbiType where
  | int (size : ℕ)
  | uint (size : ℕ)
  | bool
  | string
  | bytes
  | fixedBytes (size : ℕ)
  | address
  | function
  /-- `T[]` -/
  | slice (elem : AbiType)
  /-- `T[k]` -/
  | array (elem : AbiType) (size : ℕ)
  | tuple (elems : List AbiType)
  deriving Repr

/-- The Go values packed and unpacked. -/
inductive Value where
  | num (z : ℤ)
  | bool (b : Bool)
  | bytes (b : List UInt8)
  | arr (vs : List Value)
  | tuple (vs : List Value)
  deriving Repr

/-- The errors of the codec. -/
inductive AbiError where
  /-- `abi: cannot use %v as type %v as argument` -/
  | typeErr
  /-- `argument count mismatch: got %d for %d` -/
  | argumentCount (got want : ℕ)
  /-- `abi: cannot marshal in to go type: length insufficient %d require %d` -/
  | lengthInsufficient
  /-- `abi: cannot marshal in to go slice: offset %v would go over slice boundary (len=%v)` -/
  | sliceBoundary
  /-- `abi offset larger than int64: %v` -/
  | offsetTooLarge
  /-- `abi: length larger than int64: %v` -/
  | lengthTooLarge
  /-- `abi: cannot marshal in to go array: offset %d would go over slice boundary (len=%d)` -/
  | arrayBoundary
  /-- `errBadBool` -/
  | badBool
  /-- `abi: got improperly encoded function type, got %v` -/
  | badFunction
  /-- the runtime panic of slicing past the end of a byte slice -/
  | panic
  deriving DecidableEq, Repr

/-! ### The head layout -/

mutual
/-- `isDynamicType`. -/
def isDynamicType : AbiType → Bool
  | .tuple elems => anyDynamic elems
  | .string | .bytes | .slice _ => true
  | .array elem _ => isDynamicType elem
  | _ => false

/-- Some tuple field is dynamic. -/
def anyDynamic : List AbiType → Bool
  | [] => false
  | t :: ts => isDynamicType t || anyDynamic ts
end

mutual
/-- `getTypeSize`: the bytes a type takes in the head.  A static array
multiplies its length by the size of its element only when that element is
itself an array; any other static element counts one word. -/
def getTypeSize : AbiType → ℕ
  | .array elem size =>
    if !isDynamicType elem then
      match elem with
      | .array _ _ => size * getTypeSize elem
      | _ => size * 32
    else 32
  | .tuple elems => if !anyDynamic elems then sumTypeSizes elems else 32
  | _ => 32

/-- The head sizes of tuple fields, added up. -/
def sumTypeSizes : List AbiType → ℕ
  | [] => 0
  | t :: ts => getTypeSize t + sumTypeSizes ts
end

/-- `Type.requiresLengthPrefix`. -/
def AbiType.requiresLengthPrefix : AbiType → Bool
  | .string | .bytes | .slice _ => true
  | _ => false

/-! ### Packing -/

/-- `math.U256Bytes`: the 256-bit two's complement word of `z`. -/
def u256Bytes (z : ℤ) : List UInt8 := BigEndian.putNat 32 (z % 2 ^ 256).toNat

/-- `packNum`. -/
def packNum (z : ℤ) : List UInt8 := u256Bytes z

/-- `common.RightPadBytes`. -/
def rightPadBytes (b : List UInt8) (l : ℕ) : List UInt8 :=
  if l ≤ b.length then b else b ++ List.replicate (l - b.length) 0

/-- `common.LeftPadBytes`. -/
def leftPadBytes (b : List UInt8) (l : ℕ) : List UInt8 :=
  if l ≤ b.length then b else List.replicate (l - b.length) 0 ++ b

/-- `packBytesSlice`: the length word, then the bytes padded to whole words. -/
def packBytesSlice (b : List UInt8) (l : ℕ) : List UInt8 :=
  packNum l ++ rightPadBytes b ((l + 31) / 32 * 32)

/-- `packElement`, for the elementary types. -/
def packElement : AbiType → Value → List UInt8
  | .int _, .num z | .uint _, .num z => packNum z
  | .string, .bytes b | .bytes, .bytes b => packBytesSlice b b.length
  | .address, .bytes b => leftPadBytes b 32
  | .bool, .bool b => packNum (if b then 1 else 0)
  | .fixedBytes _, .bytes b | .function, .bytes b => rightPadBytes b 32
  | _, _ => []

/-- The head and tail a tuple or an argument list lays out: a dynamic field
contributes the offset of its encoding, which goes to the tail, and a static
field its encoding, in place.  `offset` starts after the whole head. -/
def headsTails : ℕ → List (Bool × List UInt8) → List UInt8 × List UInt8
  | _, [] => ([], [])
  | offset, (dyn, val) :: rest =>
    if dyn then
      let (h, tl) := headsTails (offset + val.length) rest
      (packNum offset ++ h, val ++ tl)
    else
      let (h, tl) := headsTails offset rest
      (val ++ h, tl)

/-- The shape check `typeCheck` and `sliceTypeCheck` make. -/
def typeCheck : AbiType → Value → Bool
  | .int _, .num _ | .uint _, .num _ | .bool, .bool _ | .string, .bytes _ | .bytes, .bytes _
  | .address, .bytes _ | .function, .bytes _ => true
  | .fixedBytes size, .bytes b => b.length == size
  | .slice _, .arr _ => true
  | .array _ size, .arr vs => vs.length == size
  | .tuple elems, .tuple vs => elems.length == vs.length
  | _, _ => false

mutual
/-- `Type.pack`. -/
def pack : AbiType → Value → Except AbiError (List UInt8)
  | t@(.slice elem), v@(.arr vs) | t@(.array elem _), v@(.arr vs) =>
    if !typeCheck t v then .error .typeErr
    else do
      let vals ← vs.mapM (pack elem)
      let ret := if t.requiresLengthPrefix then packNum vs.length else []
      if isDynamicType elem then
        -- each element's offset counts from the first head word
        let (heads, tail) := headsTails (getTypeSize elem * vs.length) (vals.map ((true, ·)))
        pure (ret ++ heads ++ tail)
      else pure (ret ++ vals.flatten)
  | t@(.tuple elems), v@(.tuple vs) =>
    if !typeCheck t v then .error .typeErr
    else do
      let vals ← packFields elems vs
      let (heads, tail) := headsTails (sumTypeSizes elems) vals
      pure (heads ++ tail)
  | t, v => if !typeCheck t v then .error .typeErr else .ok (packElement t v)

/-- The tuple fields packed one by one, each with whether it is dynamic. -/
def packFields : List AbiType → List Value → Except AbiError (List (Bool × List UInt8))
  | t :: ts, v :: vs => do
    let val ← pack t v
    let rest ← packFields ts vs
    pure ((isDynamicType t, val) :: rest)
  | _, _ => pure []
end

/-- `Arguments.Pack`. -/
def Arguments.pack (args : List AbiType) (vs : List Value) : Except AbiError (List UInt8) :=
  if vs.length ≠ args.length then .error (.argumentCount vs.length args.length)
  else do
    let vals ← packFields args vs
    let (heads, tail) := headsTails (sumTypeSizes args) vals
    pure (heads ++ tail)

/-! ### Unpacking -/

/-- Go's `int64(binary.BigEndian.Uint64(b[len(b)-8:]))`. -/
def int64Word (word : List UInt8) : ℤ :=
  let raw := BigEndian.setBytes (word.drop 24)
  if raw < 2 ^ 63 then raw else (raw : ℤ) - 2 ^ 64

/-- Two's complement of a number of `bits` bits. -/
def signed (bits x : ℕ) : ℤ := if x < 2 ^ (bits - 1) then x else (x : ℤ) - 2 ^ bits

/-- `ReadInteger`: the native widths read their last bytes, the others the
whole word. -/
def readInteger (isSigned : Bool) (size : ℕ) (b : List UInt8) : ℤ :=
  if size = 8 ∨ size = 16 ∨ size = 32 ∨ size = 64 then
    let x := BigEndian.setBytes (b.drop (32 - size / 8))
    if isSigned then signed size x else x
  else
    let x := BigEndian.setBytes b
    if isSigned then signed 256 x else x

/-- `readBool`. -/
def readBool (word : List UInt8) : Except AbiError Bool :=
  if (word.take 31).any (· ≠ 0) then .error .badBool
  else match word.getD 31 0 with
    | 0 => .ok false
    | 1 => .ok true
    | _ => .error .badBool

/-- `readFunctionType`. -/
def readFunctionType (word : List UInt8) : Except AbiError (List UInt8) :=
  if BigEndian.setBytes ((word.drop 24).take 8) ≠ 0 then .error .badFunction else .ok (word.take 24)

/-- `lengthPrefixPointsTo`: where a length-prefixed value starts, and its length. -/
def lengthPrefixPointsTo (index : ℕ) (output : List UInt8) : Except AbiError (ℕ × ℕ) :=
  let offsetEnd := BigEndian.setBytes ((output.drop index).take 32) + 32
  if offsetEnd > output.length then .error .sliceBoundary
  else if offsetEnd ≥ 2 ^ 63 then .error .offsetTooLarge
  else
    let length := BigEndian.setBytes ((output.drop (offsetEnd - 32)).take 32)
    if offsetEnd + length ≥ 2 ^ 63 then .error .lengthTooLarge
    else if offsetEnd + length > output.length then .error .lengthInsufficient
    else .ok (offsetEnd, length)

/-- `tuplePointsTo`: where a dynamic tuple starts. -/
def tuplePointsTo (index : ℕ) (output : List UInt8) : Except AbiError ℕ :=
  let offset := BigEndian.setBytes ((output.drop index).take 32)
  if offset > output.length then .error .sliceBoundary
  else if offset ≥ 2 ^ 63 then .error .offsetTooLarge
  else .ok offset

/-- `forEachUnpack`: `size` elements of `elemSize` head bytes each from
`start`, each read by `decode` (the element's `toGoType`). -/
def forEachUnpack (elemSize : ℕ) (decode : ℕ → List UInt8 → Except AbiError Value)
    (output : List UInt8) (start size : ℕ) : Except AbiError Value :=
  if start + 32 * size > output.length then .error .arrayBoundary
  else do
    let vs ← (List.range size).mapM fun j => decode (start + j * elemSize) output
    pure (.arr vs)

/-- The head words a static array or tuple takes beyond its first, which the
loops of `forTupleUnpack` and `UnpackValues` skip. -/
def virtualArgs (t : AbiType) : ℕ :=
  match t with
  | .array _ _ | .tuple _ => if !isDynamicType t then getTypeSize t / 32 - 1 else 0
  | _ => 0

mutual
/-- `toGoType`: the value of type `t` whose head word is at `index`. -/
def toGoType (index : ℕ) : AbiType → List UInt8 → Except AbiError Value
  | t, output =>
    if index + 32 > output.length then .error .lengthInsufficient
    else do
      let (start, length) ← if t.requiresLengthPrefix then lengthPrefixPointsTo index output
        else pure (0, 0)
      let returnOutput := (output.drop index).take 32
      match t with
      | .tuple elems =>
        if anyDynamic elems then do
          let start ← tuplePointsTo index output
          let vs ← forTupleUnpack elems 0 0 (output.drop start)
          pure (.tuple vs)
        else do
          let vs ← forTupleUnpack elems 0 0 (output.drop index)
          pure (.tuple vs)
      | .slice elem =>
        forEachUnpack (getTypeSize elem) (fun i o => toGoType i elem o) (output.drop start) 0 length
      | .array elem size =>
        if isDynamicType elem then
          let offset := int64Word returnOutput
          -- `output[offset:]` panics past either end
          if offset < 0 ∨ offset > output.length then .error .panic
          else
            forEachUnpack (getTypeSize elem) (fun i o => toGoType i elem o)
              (output.drop offset.toNat) 0 size
        else
          forEachUnpack (getTypeSize elem) (fun i o => toGoType i elem o) (output.drop index) 0 size
      | .string | .bytes => pure (.bytes ((output.drop start).take length))
      | .int size => pure (.num (readInteger true size returnOutput))
      | .uint size => pure (.num (readInteger false size returnOutput))
      | .bool => do
        let b ← readBool returnOutput
        pure (.bool b)
      | .address => pure (.bytes (returnOutput.drop 12))
      | .fixedBytes size => pure (.bytes (returnOutput.take size))
      | .function => do
        let f ← readFunctionType returnOutput
        pure (.bytes f)

/-- The loop of `forTupleUnpack` (and of `UnpackValues`, which repeats it): field
`index` is read at head word `index + virtualArgs`, and a static array or tuple
moves the later fields by the extra words it takes. -/
def forTupleUnpack : List AbiType → ℕ → ℕ → List UInt8 → Except AbiError (List Value)
  | [], _, _, _ => pure []
  | t :: ts, index, extra, output => do
    let v ← toGoType ((index + extra) * 32) t output
    let vs ← forTupleUnpack ts (index + 1) (extra + virtualArgs t) output
    pure (v :: vs)
end

/-- `Arguments.UnpackValues`, for arguments that are all non-indexed. -/
def Arguments.unpackValues (args : List AbiType) (data : List UInt8) : Except AbiError (List Value) :=
  forTupleUnpack args 0 0 data

end RpcNetwork.Accounts.Abi
