import Mathlib
import RpcNetwork.Lib.BigEndian
import RpcNetwork.Lib.ExceptRun

/-!
# Recursive length prefix

RLP, the serialisation of nested byte strings: a string of one byte below
`0x80` is that byte, any other string or list is a header followed by its
payload.  A header is one byte when the payload is shorter than 56 bytes, and
otherwise one byte followed by the payload's size in big-endian form with no
leading zero.

`encode` is `rlp.Encode`; `readItem` reads one value as `rlp.Stream` does,
with its canonical-form checks.

## Design notes

The decoder recurses on a fuel argument, so that it computes; `decode` gives
it twice the input's length, more than any input needs.  A header holds at
most eight size bytes, hence the round trip's bound of `2^64` bytes.  The decoder checks each value whole before its caller interprets it, as
`rlp.Decode` does field by field: the two accept the same inputs, and where
both fail they may report different errors.
-/

namespace RpcNetwork.Rlp

open BigEndian

/-- A value: a byte string, or a list of values. -/
inductive Item where
  | bytes (b : List UInt8)
  | list (items : List Item)
  deriving Repr

/-- What the decoder reports. -/
inductive Error where
  /-- `io.EOF`: no value is left at the top level. -/
  | eof
  /-- `ErrValueTooLarge` and `ErrElemTooLarge`: a size past the end of the
  input or of the enclosing list. -/
  | valueTooLarge
  /-- `ErrCanonSize`: a size, or a one-byte string, not in its shortest form. -/
  | canonSize
  /-- `ErrExpectedString`: a list where a string was expected. -/
  | expectedString
  /-- `ErrExpectedList`: a string where a list was expected. -/
  | expectedList
  /-- A struct's list with fewer elements than the struct has fields. -/
  | tooFewElements
  /-- A struct's list with more elements than the struct has fields. -/
  | tooManyElements
  /-- A byte array read from a string of another length. -/
  | wrongLength
  deriving DecidableEq, Repr

/-! ## Encoding -/

/-- `intsize(i)`: the number of bytes of `i` in big-endian form. -/
def intsize (i : ℕ) : ℕ := Nat.log 256 i + 1

/-- `puthead`: the header of a payload of `size` bytes, with the tag of the short
form and that of the long form. -/
def puthead (smalltag largetag : UInt8) (size : ℕ) : List UInt8 :=
  if size < 56 then [smalltag + size.toUInt8]
  else (largetag + (intsize size).toUInt8) :: putNat (intsize size) size

mutual

/-- The encoding of a value: a byte below `0x80` alone, any other string or list
behind its header. -/
def encode : Item → List UInt8
  | .bytes b => match b with
    | [x] => if x < 0x80 then [x] else puthead 0x80 0xb7 1 ++ [x]
    | b => puthead 0x80 0xb7 b.length ++ b
  | .list items => puthead 0xc0 0xf7 (encodeList items).length ++ encodeList items

/-- The payload of a list: its elements' encodings one after the other. -/
def encodeList : List Item → List UInt8
  | [] => []
  | item :: items => encode item ++ encodeList items

end

/-! ## Decoding -/

/-- The kind of the next value. -/
inductive Kind where
  /-- A byte below `0x80`, which is its own encoding. -/
  | byte (b : UInt8)
  | string
  | list
  deriving DecidableEq, Repr

/-- `readUint(n)` for the size of a long header: `n` bytes, no leading zero,
and a size the short form could not hold. -/
def readSize (n : ℕ) (input : List UInt8) : Except Error (ℕ × List UInt8) :=
  if input.length < n then .error .valueTooLarge
  else if (input.take n).head? = some 0 then .error .canonSize
  else if setBytes (input.take n) < 56 then .error .canonSize
  else .ok (setBytes (input.take n), input.drop n)

/-- `readKind`: the kind of the next value, the size of its payload, and the
input after its header. -/
def readKind : List UInt8 → Except Error (Kind × ℕ × List UInt8)
  | [] => .error .eof
  | b :: rest =>
    if b < 0x80 then .ok (.byte b, 0, rest)
    else if b < 0xb8 then .ok (.string, (b - 0x80).toNat, rest)
    else if b < 0xc0 then (readSize (b - 0xb7).toNat rest).map fun (size, rest) => (.string, size, rest)
    else if b < 0xf8 then .ok (.list, (b - 0xc0).toNat, rest)
    else (readSize (b - 0xf7).toNat rest).map fun (size, rest) => (.list, size, rest)

/-- `Stream.Bytes` on a string's payload: one byte below `0x80` should have
been written alone. -/
def readString (payload : List UInt8) : Except Error Item :=
  match payload with
  | [x] => if x < 0x80 then .error .canonSize else .ok (.bytes [x])
  | _ => .ok (.bytes payload)

mutual

/-- The next value and the input after it. -/
def readItem : ℕ → List UInt8 → Except Error (Item × List UInt8)
  | fuel, input => do
    let (kind, size, rest) ← readKind input
    if rest.length < size then throw .valueTooLarge
    let item ← readPayload fuel kind (rest.take size)
    pure (item, rest.drop size)

/-- The value a header of the given kind starts, from its payload. -/
def readPayload : ℕ → Kind → List UInt8 → Except Error Item
  | _, .byte b, _ => pure (.bytes [b])
  | _, .string, payload => readString payload
  | 0, .list, _ => throw .valueTooLarge
  | fuel + 1, .list, payload => Item.list <$> readList fuel payload

/-- The elements of a list, read from its payload to its end. -/
def readList : ℕ → List UInt8 → Except Error (List Item)
  | _, [] => pure []
  | 0, _ :: _ => throw .valueTooLarge
  | fuel + 1, input@(_ :: _) => do
    let (item, rest) ← readItem fuel input
    let items ← readList fuel rest
    pure (item :: items)

end

/-- `Stream.Decode` of the next top-level value. -/
def decode (input : List UInt8) : Except Error (Item × List UInt8) :=
  readItem (2 * input.length) input

/-! ## Typed values -/

/-- A byte slice (`[]byte`). -/
def decodeBytes : Item → Except Error (List UInt8)
  | .bytes b => .ok b
  | .list _ => .error .expectedString

/-- A byte array of `n` bytes (`[n]byte`). -/
def decodeVector (n : ℕ) : Item → Except Error (Vector UInt8 n)
  | .bytes b => if h : b.length = n then .ok ⟨b.toArray, by rw [List.size_toArray, h]⟩ else .error .wrongLength
  | .list _ => .error .expectedString

/-- A slice, each element by `f`. -/
def decodeSlice {α : Type} (f : Item → Except Error α) : Item → Except Error (List α)
  | .bytes _ => .error .expectedList
  | .list items => items.mapM f

/-- `Stream.Decode` into a value of a type whose decoder is `f`. -/
def decodeNext {α : Type} (f : Item → Except Error α) (input : List UInt8) : Except Error (α × List UInt8) := do
  let (item, rest) ← decode input
  let a ← f item
  pure (a, rest)

/-! ## Reading consumes input -/

/-- `readUint` takes the size's bytes off the input. -/
theorem readSize_rest_le {n size : ℕ} {input rest : List UInt8} (h : readSize n input = .ok (size, rest)) :
    rest.length ≤ input.length := by
  unfold readSize at h
  split at h
  · exact nomatch h
  split at h
  · exact nomatch h
  split at h
  · exact nomatch h
  rw [Except.ok.injEq, Prod.mk.injEq] at h
  rw [← h.2, List.length_drop]
  exact Nat.sub_le _ _

/-- A header takes at least its first byte off the input. -/
theorem readKind_rest_lt {input rest : List UInt8} {kind : Kind} {size : ℕ}
    (h : readKind input = .ok (kind, size, rest)) : rest.length < input.length := by
  match input, h with
  | b :: tail, h =>
    rw [List.length_cons, Nat.lt_succ_iff]
    rw [readKind] at h
    -- the short forms leave the tail, the long ones the tail less the size's bytes
    split at h
    · rw [Except.ok.injEq] at h
      cases h
      exact le_rfl
    split at h
    · rw [Except.ok.injEq] at h
      cases h
      exact le_rfl
    split at h
    · obtain ⟨⟨size', rest'⟩, hs, he⟩ := Except.map_eq_ok.mp h
      cases he
      exact readSize_rest_le hs
    split at h
    · rw [Except.ok.injEq] at h
      cases h
      exact le_rfl
    · obtain ⟨⟨size', rest'⟩, hs, he⟩ := Except.map_eq_ok.mp h
      cases he
      exact readSize_rest_le hs

/-- **A value read takes at least one byte off the input**, which is what lets
a loop over a stream of values end. -/
theorem readItem_rest_lt {fuel : ℕ} {input rest : List UInt8} {item : Item}
    (h : readItem fuel input = .ok (item, rest)) : rest.length < input.length := by
  rw [readItem, Except.bind_eq_ok] at h
  obtain ⟨⟨kind, size, rest₀⟩, hkind, h⟩ := h
  dsimp only at h
  split at h
  · exact absurd h Except.throw_ne_ok
  · obtain ⟨payloadItem, -, he⟩ := Except.bind_eq_ok.mp h
    rw [Except.pure_eq_ok, Prod.mk.injEq] at he
    rw [← he.2, List.length_drop]
    exact lt_of_le_of_lt (Nat.sub_le _ _) (readKind_rest_lt hkind)

/-! ## Headers read back -/

/-- The leading byte of an `k + 1`-byte big-endian form. -/
theorem head?_putNat (k x : ℕ) : (putNat (k + 1) x).head? = some (x / 256 ^ k % 256).toUInt8 := by
  induction k generalizing x with
  | zero => rw [putNat, putNat, List.nil_append, Nat.pow_zero, Nat.div_one]; rfl
  | succ k ih =>
    rw [putNat, List.head?_append, ih, Option.some_or, Nat.div_div_eq_div_mul, ← Nat.pow_succ']

/-- A size below `2^64` takes at most eight bytes. -/
theorem intsize_le_eight {size : ℕ} (h : size < 2 ^ 64) : intsize size ≤ 8 := by
  unfold intsize
  rcases Nat.eq_zero_or_pos size with rfl | hpos
  · rw [Nat.log_zero_right]
    omega
  · have hlog : Nat.log 256 size < 8 :=
      Nat.log_lt_of_lt_pow (Nat.pos_iff_ne_zero.mp hpos) (lt_of_lt_of_eq h rfl)
    exact hlog

/-- A size is below `256` to the power of its byte count. -/
theorem lt_pow_intsize (size : ℕ) : size < 256 ^ intsize size :=
  Nat.lt_pow_succ_log_self (by decide : 1 < 256) size

/-- A byte whose value is a tag plus a number, with no wrap-around. -/
theorem toNat_add_toUInt8 {tag : UInt8} {n : ℕ} (h : tag.toNat + n < 256) :
    (tag + n.toUInt8).toNat = tag.toNat + n := by
  rw [UInt8.toNat_add, Nat.toUInt8_eq, UInt8.toNat_ofNat', show (2 : ℕ) ^ 8 = 256 from rfl]
  omega

/-- Taking the tag off a header byte leaves the number added to it. -/
theorem toNat_sub_tag {b tag : UInt8} {n : ℕ} (hb : b.toNat = tag.toNat + n) : (b - tag).toNat = n := by
  rw [UInt8.toNat_sub_of_le _ _ (UInt8.le_iff_toNat_le.mpr (by omega)), hb]
  omega

/-- The shortest big-endian form of a number that is not zero has no leading
zero: its leading byte is `size / 256 ^ log size`, between 1 and 255. -/
theorem head?_putNat_intsize {size : ℕ} (hpos : 0 < size) :
    (putNat (intsize size) size).head? ≠ some 0 := by
  rw [intsize, head?_putNat]
  intro h0
  have hlo : 1 ≤ size / 256 ^ Nat.log 256 size :=
    (Nat.one_le_div_iff (Nat.pow_pos (by decide))).mpr (Nat.pow_log_le_self 256 (by omega))
  have hhi : size / 256 ^ Nat.log 256 size < 256 := by
    rw [Nat.div_lt_iff_lt_mul (Nat.pow_pos (by decide)), Nat.mul_comm, ← Nat.pow_succ]
    exact lt_pow_intsize size
  have hbyte := congrArg UInt8.toNat (Option.some.inj h0)
  rw [Nat.toUInt8_eq, UInt8.toNat_ofNat', show (2 : ℕ) ^ 8 = 256 from rfl, Nat.mod_mod] at hbyte
  rw [Nat.mod_eq_of_lt hhi] at hbyte
  exact absurd hbyte (by rw [UInt8.toNat_zero]; omega)

/-- `readUint` reads back the size of a long header: its leading byte is not
zero and it is too large for the short form. -/
theorem readSize_putNat {size : ℕ} (h56 : 56 ≤ size) (rest : List UInt8) :
    readSize (intsize size) (putNat (intsize size) size ++ rest) = .ok (size, rest) := by
  have hlen := length_putNat (intsize size) size
  have hval : setBytes (putNat (intsize size) size) = size := by
    rw [setBytes_putNat, Nat.mod_eq_of_lt (lt_pow_intsize size)]
  have hhead := @head?_putNat_intsize size (by omega)
  rw [readSize, if_neg (by rw [List.length_append]; omega), List.take_left' hlen, if_neg hhead, hval,
    if_neg (by omega), List.drop_left' hlen]

/-- The header of a string reads back as a string of its size. -/
theorem readKind_puthead_string {size : ℕ} (h : size < 2 ^ 64) (rest : List UInt8) :
    readKind (puthead 0x80 0xb7 size ++ rest) = .ok (.string, size, rest) := by
  unfold puthead
  split
  · -- the short form: `0x80 + size`, below `0xb8`
    rename_i hs
    have hb : ((0x80 : UInt8) + size.toUInt8).toNat = (0x80 : UInt8).toNat + size :=
      toNat_add_toUInt8 (by rw [show (0x80 : UInt8).toNat = 128 from rfl]; omega)
    rw [List.singleton_append, readKind,
      if_neg (by simp only [UInt8.lt_iff_toNat_lt, hb, UInt8.toNat_ofNat]; omega),
      if_pos (by simp only [UInt8.lt_iff_toNat_lt, hb, UInt8.toNat_ofNat]; omega), toNat_sub_tag hb]
  · -- the long form: `0xb7` plus the size's byte count, then the size
    rename_i hs
    have hk : 1 ≤ intsize size ∧ intsize size ≤ 8 := ⟨Nat.succ_pos _, intsize_le_eight h⟩
    have hb : ((0xb7 : UInt8) + (intsize size).toUInt8).toNat = (0xb7 : UInt8).toNat + intsize size :=
      toNat_add_toUInt8 (by rw [show (0xb7 : UInt8).toNat = 183 from rfl]; omega)
    rw [List.cons_append, readKind,
      if_neg (by simp only [UInt8.lt_iff_toNat_lt, hb, UInt8.toNat_ofNat]; omega),
      if_neg (by simp only [UInt8.lt_iff_toNat_lt, hb, UInt8.toNat_ofNat]; omega),
      if_pos (by simp only [UInt8.lt_iff_toNat_lt, hb, UInt8.toNat_ofNat]; omega), toNat_sub_tag hb,
      readSize_putNat (by omega)]
    rfl

/-- The header of a list reads back as a list of its payload's size. -/
theorem readKind_puthead_list {size : ℕ} (h : size < 2 ^ 64) (rest : List UInt8) :
    readKind (puthead 0xc0 0xf7 size ++ rest) = .ok (.list, size, rest) := by
  unfold puthead
  split
  · -- the short form: `0xc0 + size`, below `0xf8`
    rename_i hs
    have hb : ((0xc0 : UInt8) + size.toUInt8).toNat = (0xc0 : UInt8).toNat + size :=
      toNat_add_toUInt8 (by rw [show (0xc0 : UInt8).toNat = 192 from rfl]; omega)
    rw [List.singleton_append, readKind,
      if_neg (by simp only [UInt8.lt_iff_toNat_lt, hb, UInt8.toNat_ofNat]; omega),
      if_neg (by simp only [UInt8.lt_iff_toNat_lt, hb, UInt8.toNat_ofNat]; omega),
      if_neg (by simp only [UInt8.lt_iff_toNat_lt, hb, UInt8.toNat_ofNat]; omega),
      if_pos (by simp only [UInt8.lt_iff_toNat_lt, hb, UInt8.toNat_ofNat]; omega), toNat_sub_tag hb]
  · -- the long form: `0xf7` plus the size's byte count, then the size
    rename_i hs
    have hk : 1 ≤ intsize size ∧ intsize size ≤ 8 := ⟨Nat.succ_pos _, intsize_le_eight h⟩
    have hb : ((0xf7 : UInt8) + (intsize size).toUInt8).toNat = (0xf7 : UInt8).toNat + intsize size :=
      toNat_add_toUInt8 (by rw [show (0xf7 : UInt8).toNat = 247 from rfl]; omega)
    rw [List.cons_append, readKind,
      if_neg (by simp only [UInt8.lt_iff_toNat_lt, hb, UInt8.toNat_ofNat]; omega),
      if_neg (by simp only [UInt8.lt_iff_toNat_lt, hb, UInt8.toNat_ofNat]; omega),
      if_neg (by simp only [UInt8.lt_iff_toNat_lt, hb, UInt8.toNat_ofNat]; omega),
      if_neg (by simp only [UInt8.lt_iff_toNat_lt, hb, UInt8.toNat_ofNat]; omega), toNat_sub_tag hb,
      readSize_putNat (by omega)]
    rfl

/-! ## Values read back -/

theorem readItem_of_readKind {fuel : ℕ} {input rest : List UInt8} {size : ℕ} {kind : Kind}
    (h : readKind input = .ok (kind, size, rest)) (hs : size ≤ rest.length) :
    readItem fuel input = (readPayload fuel kind (rest.take size)).map fun item => (item, rest.drop size) := by
  rw [readItem, h, Except.ok_bind]
  dsimp only
  rw [if_neg (Nat.not_lt.mpr hs)]
  cases readPayload fuel kind (rest.take size) <;> rfl

/-- A string of other than one byte is written behind a header. -/
theorem encode_bytes_of_ne {b : List UInt8} (hb : ∀ x, b ≠ [x]) :
    encode (.bytes b) = puthead 0x80 0xb7 b.length ++ b := by
  rw [encode]
  exact hb

/-- `Stream.Bytes` takes a string of other than one byte as it is. -/
theorem readString_of_ne {b : List UInt8} (hb : ∀ x, b ≠ [x]) : readString b = .ok (.bytes b) := by
  rw [readString]
  exact hb

/-- **A string reads back.** -/
theorem readItem_encode_bytes (fuel : ℕ) {b : List UInt8} (h : b.length < 2 ^ 64) (rest : List UInt8) :
    readItem fuel (encode (.bytes b) ++ rest) = .ok (.bytes b, rest) := by
  by_cases hb : ∃ x, b = [x]
  · obtain ⟨x, rfl⟩ := hb
    by_cases hx : x < 0x80
    · -- a byte below `0x80` is its own encoding
      have hkind : readKind (encode (.bytes [x]) ++ rest) = .ok (.byte x, 0, rest) := by
        rw [encode, if_pos hx, List.singleton_append, readKind, if_pos hx]
      rw [readItem_of_readKind hkind (Nat.zero_le _), readPayload]
      rfl
    · -- any other byte is a one-byte string, which `Stream.Bytes` accepts
      have hkind : readKind (encode (.bytes [x]) ++ rest) = .ok (.string, 1, x :: rest) := by
        rw [encode, if_neg hx, List.append_assoc, readKind_puthead_string (by decide)]
        rfl
      rw [readItem_of_readKind hkind (Nat.le_add_left _ _), readPayload, List.take_one, List.head?_cons,
        Option.toList_some, readString, if_neg hx]
      rfl
  · have hne : ∀ x, b ≠ [x] := fun x hx => hb ⟨x, hx⟩
    have hkind : readKind (encode (.bytes b) ++ rest) = .ok (.string, b.length, b ++ rest) := by
      rw [encode_bytes_of_ne hne, List.append_assoc, readKind_puthead_string h]
    have hlen : b.length ≤ (b ++ rest).length := by
      rw [List.length_append]
      exact Nat.le_add_right _ _
    rw [readItem_of_readKind hkind hlen, readPayload, List.take_left' rfl, readString_of_ne hne,
      List.drop_left' rfl]
    rfl

theorem length_puthead_pos (smalltag largetag : UInt8) (size : ℕ) : 0 < (puthead smalltag largetag size).length := by
  unfold puthead
  split <;> exact Nat.succ_pos _

/-- A string's encoding is at least as long as the string. -/
theorem length_le_encode_bytes (b : List UInt8) : b.length ≤ (encode (.bytes b)).length := by
  by_cases hb : ∃ x, b = [x]
  · obtain ⟨x, rfl⟩ := hb
    rw [encode]
    split
    · exact le_rfl
    · rw [List.length_append]
      exact Nat.le_add_left _ _
  · rw [encode_bytes_of_ne fun x hx => hb ⟨x, hx⟩, List.length_append]
    exact Nat.le_add_left _ _

/-- Every encoding holds at least one byte. -/
theorem encode_ne_nil (item : Item) : encode item ≠ [] := by
  cases item with
  | bytes b =>
    by_cases hb : ∃ x, b = [x]
    · obtain ⟨x, rfl⟩ := hb
      rw [encode]
      split
      · exact List.cons_ne_nil _ _
      · exact List.append_ne_nil_of_right_ne_nil _ (List.cons_ne_nil _ _)
    · rw [encode_bytes_of_ne fun x hx => hb ⟨x, hx⟩]
      exact List.append_ne_nil_of_left_ne_nil (List.ne_nil_of_length_pos (length_puthead_pos _ _ _)) _
  | list items =>
    rw [encode]
    exact List.append_ne_nil_of_left_ne_nil (List.ne_nil_of_length_pos (length_puthead_pos _ _ _)) _

mutual

/-- **A value reads back**, leaving what followed it, given the fuel `decode`
gives and an encoding whose sizes fit a header. -/
theorem readItem_encode : ∀ (item : Item) (fuel : ℕ) (rest : List UInt8),
    2 * (encode item).length ≤ fuel → (encode item).length < 2 ^ 64 →
    readItem fuel (encode item ++ rest) = .ok (item, rest)
  | .bytes b, fuel, rest, _, hlen =>
    readItem_encode_bytes fuel (lt_of_le_of_lt (length_le_encode_bytes b) hlen) rest
  | .list items, fuel, rest, hf, hlen => by
    have hpay : (encodeList items).length < (encode (.list items)).length := by
      rw [encode, List.length_append]
      have := length_puthead_pos 0xc0 0xf7 (encodeList items).length
      omega
    obtain ⟨fuel, rfl⟩ : ∃ f, fuel = f + 1 := ⟨fuel - 1, by omega⟩
    have hkind : readKind (encode (.list items) ++ rest) =
        .ok (.list, (encodeList items).length, encodeList items ++ rest) := by
      rw [encode, List.append_assoc, readKind_puthead_list (by omega)]
    have hfit : (encodeList items).length ≤ (encodeList items ++ rest).length := by
      rw [List.length_append]
      exact Nat.le_add_right _ _
    -- the payload is the elements' encodings, read by the list's loop
    rw [readItem_of_readKind hkind hfit, readPayload, List.take_left' rfl,
      readList_encodeList items fuel (by omega) (by omega), List.drop_left' rfl]
    rfl

/-- **A list's payload reads back** as its elements. -/
theorem readList_encodeList : ∀ (items : List Item) (fuel : ℕ),
    2 * (encodeList items).length + 1 ≤ fuel → (encodeList items).length < 2 ^ 64 →
    readList fuel (encodeList items) = .ok items
  | [], fuel, _, _ => by
    rw [encodeList, readList]
    rfl
  | item :: items, fuel, hf, hlen => by
    have hsplit : (encodeList (item :: items)).length = (encode item).length + (encodeList items).length := by
      rw [encodeList, List.length_append]
    have hpos : 0 < (encode item).length := List.length_pos_of_ne_nil (encode_ne_nil item)
    obtain ⟨fuel, rfl⟩ : ∃ f, fuel = f + 1 := ⟨fuel - 1, by omega⟩
    obtain ⟨x, xs, hx⟩ : ∃ x xs, encode item ++ encodeList items = x :: xs :=
      List.exists_cons_of_ne_nil (List.append_ne_nil_of_left_ne_nil (encode_ne_nil item) _)
    have hitem : readItem fuel (encode item ++ encodeList items) = .ok (item, encodeList items) :=
      readItem_encode item fuel _ (by omega) (by omega)
    have hitems : readList fuel (encodeList items) = .ok items :=
      readList_encodeList items fuel (by omega) (by omega)
    rw [encodeList, hx, readList, ← hx, hitem, Except.ok_bind]
    dsimp only
    rw [hitems]
    rfl

end

/-- A stream decode of an empty input is the end of the stream. -/
theorem decodeNext_nil {α : Type} (f : Item → Except Error α) : decodeNext f [] = .error .eof := by
  rw [decodeNext, decode, readItem, readKind]
  rfl

/-- A stream decode takes at least one byte off the input. -/
theorem decodeNext_rest_lt {α : Type} {f : Item → Except Error α} {input rest : List UInt8} {a : α}
    (h : decodeNext f input = .ok (a, rest)) : rest.length < input.length := by
  rw [decodeNext, Except.bind_eq_ok] at h
  obtain ⟨⟨item, rest₀⟩, hdec, h⟩ := h
  obtain ⟨a', -, he⟩ := Except.bind_eq_ok.mp h
  rw [Except.pure_eq_ok, Prod.mk.injEq] at he
  exact he.2 ▸ readItem_rest_lt hdec

/-- **The top-level decoder reads a value back.** -/
theorem decode_encode (item : Item) (rest : List UInt8) (hlen : (encode item).length < 2 ^ 64) :
    decode (encode item ++ rest) = .ok (item, rest) := by
  have hf : 2 * (encode item).length ≤ 2 * (encode item ++ rest).length := by
    rw [List.length_append]
    omega
  exact readItem_encode item _ rest hf hlen

/-- A typed value reads back from the stream when its decoder inverts the
item it was written as. -/
theorem decodeNext_encode {α : Type} {f : Item → Except Error α} {a : α} {item : Item}
    (hf : f item = .ok a) (rest : List UInt8) (hlen : (encode item).length < 2 ^ 64) :
    decodeNext f (encode item ++ rest) = .ok (a, rest) := by
  rw [decodeNext, decode_encode item rest hlen, Except.ok_bind]
  dsimp only
  rw [hf, Except.ok_bind]
  rfl

/-- A byte array reads back from its bytes. -/
theorem decodeVector_bytes (n : ℕ) (v : Vector UInt8 n) : decodeVector n (.bytes v.toList) = .ok v := by
  rw [decodeVector, dif_pos (by simp)]
  congr 1

/-- A slice reads back from the items its elements are written as. -/
theorem decodeSlice_map {α : Type} {f : Item → Except Error α} {g : α → Item} (hfg : ∀ a, f (g a) = .ok a) :
    ∀ xs : List α, decodeSlice f (.list (xs.map g)) = .ok xs
  | [] => rfl
  | x :: xs => by
    have hxs := decodeSlice_map hfg xs
    rw [decodeSlice] at hxs ⊢
    rw [List.map_cons, List.mapM_cons, hfg, Except.ok_bind, hxs, Except.ok_bind]
    rfl

end RpcNetwork.Rlp
