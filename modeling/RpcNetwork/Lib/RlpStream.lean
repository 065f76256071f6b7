import Mathlib
import RpcNetwork.Lib.Rlp

/-!
# Reading RLP values one at a time

`rlp.Stream` reads a value at a time.  `Kind` reads the next header and checks
that the value fits in what is left, of the input at the top level or of the
enclosing list inside one, where it reports `EOL` at the list's end.  The typed
reads then take the payload: `Raw` copies the value whole, its header rebuilt
from its size, without looking inside it; `Bytes` takes a string's payload and
refuses a one-byte string that should have been written alone; `uint` reads a
canonical unsigned integer.

Each read takes back exactly what the writer puts: a raw value, the encoding of
a string, the encoding of an integer.  The read-back lemmas say that it takes
it; the inversion lemmas that whatever it accepts is such an encoding followed
by the rest of the input.
-/

namespace RpcNetwork.Rlp

open BigEndian

/-- What a read of a stream reports. -/
inductive StreamError where
  /-- An error of reading a value. -/
  | rlp (e : Error)
  /-- `EOL`: the enclosing list has ended. -/
  | eol
  /-- `ErrCanonInt`: an integer with a leading zero byte, or the zero byte. -/
  | canonInt
  /-- `errUintOverflow`: an integer wider than its type. -/
  | uintOverflow
  /-- `ErrMoreThanOneValue`: input left after the value. -/
  | moreThanOneValue
  deriving DecidableEq, Repr

/-! ## Reading -/

/-- The header of a value of the given kind and payload size. -/
def header : Kind → ℕ → List UInt8
  | .byte b, _ => [b]
  | .string, size => puthead 0x80 0xb7 size
  | .list, size => puthead 0xc0 0xf7 size

/-- The kinds and sizes a header can give: a byte below `0x80`, with no payload,
or a string or list whose size fits in eight bytes. -/
def HeaderOk : Kind → ℕ → Prop
  | .byte b, size => b < 0x80 ∧ size = 0
  | .string, size => size < 2 ^ 64
  | .list, size => size < 2 ^ 64

/-- `Stream.Kind` at the top level of a stream limited to its input: the next
header, and `ErrValueTooLarge` for a payload past the input's end. -/
def topKind (input : List UInt8) : Except Error (Kind × ℕ × List UInt8) := do
  let (kind, size, rest) ← readKind input
  if rest.length < size then throw .valueTooLarge
  pure (kind, size, rest)

/-- `Stream.Kind` inside a list whose payload left is `payload`: `EOL` at its end,
and `ErrElemTooLarge` for a value that overflows it. -/
def listKind (payload : List UInt8) : Except StreamError (Kind × ℕ × List UInt8) :=
  match payload with
  | [] => throw .eol
  | payload => (topKind payload).mapError .rlp

/-- `Stream.Raw`, after `Kind`: a byte as it is, any other value with its header
written again from its size. -/
def raw : Kind × ℕ × List UInt8 → List UInt8 × List UInt8
  | (.byte b, _, rest) => ([b], rest)
  | (.string, size, rest) => (puthead 0x80 0xb7 size ++ rest.take size, rest.drop size)
  | (.list, size, rest) => (puthead 0xc0 0xf7 size ++ rest.take size, rest.drop size)

/-- `Stream.Raw` at the top level of a stream. -/
def topRaw (input : List UInt8) : Except Error (List UInt8 × List UInt8) :=
  (topKind input).map raw

/-- `Stream.Bytes`, after `Kind`. -/
def bytes : Kind × ℕ × List UInt8 → Except Error (List UInt8 × List UInt8)
  | (.byte b, _, rest) => .ok ([b], rest)
  | (.string, size, rest) =>
    match rest.take size with
    | [x] => if x < 0x80 then .error .canonSize else .ok ([x], rest.drop size)
    | b => .ok (b, rest.drop size)
  | (.list, _, _) => .error .expectedString

/-- `Stream.uint(maxbits)`, after `Kind`.  `readUint` reports a leading zero as
`ErrCanonSize`, which `uint` turns into `ErrCanonInt`. -/
def uint (maxbits : ℕ) : Kind × ℕ × List UInt8 → Except StreamError (ℕ × List UInt8)
  | (.byte b, _, rest) => if b = 0 then .error .canonInt else .ok (b.toNat, rest)
  | (.string, size, rest) =>
    if maxbits / 8 < size then .error .uintOverflow
    else if 2 ≤ size ∧ (rest.take size).head? = some 0 then .error .canonInt
    else if 0 < size ∧ setBytes (rest.take size) < 128 then .error (.rlp .canonSize)
    else .ok (setBytes (rest.take size), rest.drop size)
  | (.list, _, _) => .error (.rlp .expectedString)

/-- `Stream.Decode` of the next value of a list into an `rlp.RawValue`. -/
def listRaw (payload : List UInt8) : Except StreamError (List UInt8 × List UInt8) := do
  let k ← listKind payload
  pure (raw k)

/-- `Stream.Decode` of the next value of a list into a `[]byte` or a `string`. -/
def listBytes (payload : List UInt8) : Except StreamError (List UInt8 × List UInt8) := do
  let k ← listKind payload
  (bytes k).mapError .rlp

/-- `Stream.Decode` of the next value of a list into a `uint64`. -/
def listUint (payload : List UInt8) : Except StreamError (ℕ × List UInt8) := do
  let k ← listKind payload
  uint 64 k

/-- `rlp.DecodeBytes` into a value of a type whose decoder is `f`: one value,
and nothing after it. -/
def decodeBytesValue {α : Type} (f : Item → Except Error α) (b : List UInt8) :
    Except StreamError α := do
  let (a, rest) ← (decodeNext f b).mapError .rlp
  if rest = [] then pure a else throw .moreThanOneValue

/-! ## Writing -/

/-- The bytes of an unsigned integer as RLP writes it: none for zero, else its
big-endian form with no leading zero. -/
def uintBytes (i : ℕ) : List UInt8 := if i = 0 then [] else putNat (intsize i) i

/-- `writeUint64`: an integer is written as the string of its bytes. -/
def encodeUint (i : ℕ) : List UInt8 := encode (.bytes (uintBytes i))

/-- A list whose elements are given by their encodings, as RLP writes an
`[]interface{}` holding `RawValue`s. -/
def encodeRaws (elems : List (List UInt8)) : List UInt8 :=
  puthead 0xc0 0xf7 elems.flatten.length ++ elems.flatten

/-- A raw value as `Stream.Raw` returns it: a header in its shortest form, then a
payload of the size it gives, whatever the payload holds. -/
def IsRaw (v : List UInt8) : Prop :=
  ∃ kind payload, HeaderOk kind payload.length ∧ v = header kind payload.length ++ payload

/-! ## Headers -/

/-- A leading byte that is not zero gives a number as many bytes as it has. -/
theorem intsize_setBytes_cons {x : UInt8} (hx : x ≠ 0) (b : List UInt8) :
    intsize (setBytes (x :: b)) = (x :: b).length := by
  unfold intsize
  rw [Nat.log_eq_of_pow_le_of_lt_pow (pow_le_setBytes_cons hx b) (setBytes_lt (x :: b))]
  rfl

/-- What `readUint` reads of a long header's size: the size's bytes in their
shortest form, for a size the short form could not hold. -/
theorem readSize_eq_ok {n size : ℕ} {input rest : List UInt8}
    (h : readSize n input = .ok (size, rest)) :
    n = intsize size ∧ 56 ≤ size ∧ input = putNat (intsize size) size ++ rest := by
  unfold readSize at h
  split_ifs at h with hlen hzero hsmall
  obtain ⟨rfl, rfl⟩ := Prod.mk.inj (Except.ok.inj h)
  -- the size's bytes start with a byte that is not zero
  obtain ⟨x, b, hxb⟩ : ∃ x b, input.take n = x :: b :=
    List.exists_cons_of_ne_nil fun hnil => hsmall (by rw [hnil]; decide)
  have hx : x ≠ 0 := fun h0 => hzero (by rw [hxb, h0]; rfl)
  have hn : (input.take n).length = n := List.length_take_of_le (by omega)
  have hsize : intsize (setBytes (input.take n)) = n := by
    rw [hxb, intsize_setBytes_cons hx, ← hxb, hn]
  have hput := putNat_setBytes (input.take n)
  rw [hn] at hput
  refine ⟨hsize.symm, by omega, ?_⟩
  rw [hsize, hput, List.take_append_drop]

/-- A header byte is its tag plus what `readKind` takes off it. -/
theorem tag_add_toNat_sub (tag b : UInt8) : tag + (b - tag).toNat.toUInt8 = b := by
  rw [Nat.toUInt8_eq, UInt8.ofNat_toNat, add_sub_cancel]

/-- What `readKind` takes off a header byte at or above a tag, in numbers. -/
theorem toNat_sub_of_not_lt {lo b : UInt8} (hlo : ¬ b < lo) : (b - lo).toNat = b.toNat - lo.toNat := by
  rw [UInt8.not_lt] at hlo
  exact UInt8.toNat_sub_of_le _ _ hlo

/-- A long header of a size read by `readUint`, with the byte count in its tag. -/
theorem puthead_of_readSize {smalltag largetag b : UInt8} {size : ℕ} {tail rest : List UInt8}
    (h : readSize (b - largetag).toNat tail = .ok (size, rest)) :
    b :: tail = puthead smalltag largetag size ++ rest := by
  obtain ⟨hn, h56, htail⟩ := readSize_eq_ok h
  rw [htail, puthead, if_neg (by omega), List.cons_append, ← hn, tag_add_toNat_sub]

/-- A size read by `readUint` from at most eight bytes fits in a header. -/
theorem lt_of_readSize {n size : ℕ} {tail rest : List UInt8} (h : readSize n tail = .ok (size, rest))
    (hn : n < 9) : size < 2 ^ 64 := by
  obtain ⟨rfl, -, -⟩ := readSize_eq_ok h
  calc size < 256 ^ intsize size := lt_pow_intsize size
    _ ≤ 256 ^ 8 := Nat.pow_le_pow_right (by decide) (by omega)
    _ = 2 ^ 64 := by decide

/-- A short header of a size taken off its byte. -/
theorem puthead_of_lt {smalltag largetag b : UInt8}
    (hhi : (b - smalltag).toNat < 56) :
    [b] = puthead smalltag largetag (b - smalltag).toNat := by
  rw [puthead, if_pos hhi, tag_add_toNat_sub]

/-- **A header is read exactly when the input starts with it**, for the kinds and
sizes a header can give. -/
theorem readKind_eq_ok_iff {input rest : List UInt8} {kind : Kind} {size : ℕ} :
    readKind input = .ok (kind, size, rest) ↔ HeaderOk kind size ∧ input = header kind size ++ rest := by
  constructor
  · intro h
    match input, h with
    | b :: tail, h =>
      have hb := b.toNat_lt
      rw [readKind] at h
      split_ifs at h with h80 hb8 hc0 hf8
      · -- a byte below `0x80` is its own value
        cases h
        exact ⟨⟨h80, rfl⟩, rfl⟩
      · -- a short string header
        cases h
        have hlt : (b - 0x80).toNat < 56 := by
          rw [UInt8.lt_iff_toNat_lt, show (0xb8 : UInt8).toNat = 184 from rfl] at hb8
          rw [toNat_sub_of_not_lt h80, show (0x80 : UInt8).toNat = 128 from rfl]
          omega
        exact ⟨show (b - 0x80).toNat < 2 ^ 64 by omega, by rw [header, ← puthead_of_lt hlt]; rfl⟩
      · -- a long string header: the size's byte count, then the size
        obtain ⟨⟨size', rest'⟩, hs, he⟩ := Except.map_eq_ok.mp h
        cases he
        have hn : (b - 0xb7).toNat < 9 := by
          have hb7 : ¬ b < 0xb7 := fun h7 => hb8 (UInt8.lt_trans h7 (by decide))
          rw [UInt8.lt_iff_toNat_lt, show (0xc0 : UInt8).toNat = 192 from rfl] at hc0
          rw [toNat_sub_of_not_lt hb7, show (0xb7 : UInt8).toNat = 183 from rfl]
          omega
        exact ⟨lt_of_readSize hs hn, puthead_of_readSize hs⟩
      · -- a short list header
        cases h
        have hlt : (b - 0xc0).toNat < 56 := by
          rw [UInt8.lt_iff_toNat_lt, show (0xf8 : UInt8).toNat = 248 from rfl] at hf8
          rw [toNat_sub_of_not_lt hc0, show (0xc0 : UInt8).toNat = 192 from rfl]
          omega
        exact ⟨show (b - 0xc0).toNat < 2 ^ 64 by omega, by rw [header, ← puthead_of_lt hlt]; rfl⟩
      · -- a long list header
        obtain ⟨⟨size', rest'⟩, hs, he⟩ := Except.map_eq_ok.mp h
        cases he
        have hn : (b - 0xf7).toNat < 9 := by
          have hf7 : ¬ b < 0xf7 := fun h7 => hf8 (UInt8.lt_trans h7 (by decide))
          rw [toNat_sub_of_not_lt hf7, show (0xf7 : UInt8).toNat = 247 from rfl]
          omega
        exact ⟨lt_of_readSize hs hn, puthead_of_readSize hs⟩
  · rintro ⟨hok, rfl⟩
    cases kind with
    | byte b =>
      obtain ⟨hb, rfl⟩ := hok
      rw [header, List.singleton_append, readKind, if_pos hb]
    | string => exact readKind_puthead_string hok rest
    | list => exact readKind_puthead_list hok rest

theorem header_ne_nil (kind : Kind) (size : ℕ) : header kind size ≠ [] := by
  cases kind with
  | byte b => exact List.cons_ne_nil _ _
  | string => exact List.ne_nil_of_length_pos (length_puthead_pos _ _ _)
  | list => exact List.ne_nil_of_length_pos (length_puthead_pos _ _ _)

/-- `Kind` at the top level reads a header whose payload fits in the input. -/
theorem topKind_eq_ok_iff {input rest : List UInt8} {kind : Kind} {size : ℕ} :
    topKind input = .ok (kind, size, rest) ↔
      HeaderOk kind size ∧ input = header kind size ++ rest ∧ size ≤ rest.length := by
  constructor
  · intro h
    rw [topKind, Except.bind_eq_ok] at h
    obtain ⟨⟨kind', size', rest'⟩, hkind, h⟩ := h
    dsimp only at h
    split_ifs at h with hfit
    · exact absurd h Except.throw_ne_ok
    cases Except.ok.inj h
    exact ⟨(readKind_eq_ok_iff.mp hkind).1, (readKind_eq_ok_iff.mp hkind).2, Nat.not_lt.mp hfit⟩
  · rintro ⟨hok, rfl, hfit⟩
    rw [topKind, readKind_eq_ok_iff.mpr ⟨hok, rfl⟩, Except.ok_bind]
    dsimp only
    rw [if_neg (Nat.not_lt.mpr hfit)]
    rfl

/-- Inside a list that has not ended, `Kind` is the top-level one. -/
theorem listKind_of_ne_nil {payload : List UInt8} (h : payload ≠ []) :
    listKind payload = (topKind payload).mapError .rlp := by
  cases payload with
  | nil => exact absurd rfl h
  | cons _ _ => rfl

/-- At a list's end every read reports `EOL`. -/
theorem listKind_nil : listKind [] = .error .eol := rfl

/-- `Kind` inside a list reads a header whose payload fits in the list. -/
theorem listKind_eq_ok_iff {payload rest : List UInt8} {kind : Kind} {size : ℕ} :
    listKind payload = .ok (kind, size, rest) ↔
      HeaderOk kind size ∧ payload = header kind size ++ rest ∧ size ≤ rest.length := by
  by_cases hnil : payload = []
  · subst hnil
    refine iff_of_false (by rw [listKind_nil]; intro h; cases h) ?_
    rintro ⟨-, h, -⟩
    exact header_ne_nil kind size (List.append_eq_nil_iff.mp h.symm).1
  · rw [listKind_of_ne_nil hnil, Except.mapError_eq_ok, topKind_eq_ok_iff]

/-- `Raw` copies the header it read and the payload after it. -/
theorem raw_of_headerOk {kind : Kind} {size : ℕ} (rest : List UInt8) (hok : HeaderOk kind size) :
    raw (kind, size, rest) = (header kind size ++ rest.take size, rest.drop size) := by
  cases kind with
  | byte b =>
    obtain ⟨-, rfl⟩ := hok
    rfl
  | string => rfl
  | list => rfl

/-- Two headers in their shortest form that start the same input are the same. -/
theorem header_append_inj {k k' : Kind} {size size' : ℕ} {x y : List UInt8} (hok : HeaderOk k size)
    (hok' : HeaderOk k' size') (h : header k size ++ x = header k' size' ++ y) :
    k = k' ∧ size = size' ∧ x = y := by
  have h₁ : readKind (header k size ++ x) = .ok (k, size, x) := readKind_eq_ok_iff.mpr ⟨hok, rfl⟩
  rw [h, readKind_eq_ok_iff.mpr ⟨hok', rfl⟩] at h₁
  cases h₁
  exact ⟨rfl, rfl, rfl⟩

/-- **A raw value is read as itself**, and `Raw` reads nothing else. -/
theorem topRaw_eq_ok_iff {input v rest : List UInt8} :
    topRaw input = .ok (v, rest) ↔ IsRaw v ∧ input = v ++ rest := by
  constructor
  · intro h
    obtain ⟨⟨kind, size, rest'⟩, hkind, hraw⟩ := Except.map_eq_ok.mp h
    obtain ⟨hok, rfl, hfit⟩ := topKind_eq_ok_iff.mp hkind
    rw [raw_of_headerOk rest' hok] at hraw
    cases hraw
    refine ⟨⟨kind, rest'.take size, ?_, ?_⟩, ?_⟩
    · rwa [List.length_take_of_le hfit]
    · rw [List.length_take_of_le hfit]
    · rw [List.append_assoc, List.take_append_drop]
  · rintro ⟨⟨kind, p, hok, rfl⟩, rfl⟩
    have hkind : topKind ((header kind p.length ++ p) ++ rest) = .ok (kind, p.length, p ++ rest) :=
      topKind_eq_ok_iff.mpr ⟨hok, List.append_assoc _ _ _, by simp⟩
    rw [topRaw, hkind]
    show Except.ok (raw (kind, p.length, p ++ rest)) = _
    rw [raw_of_headerOk _ hok, List.take_left' rfl, List.drop_left' rfl]

/-- Inside a list, `Raw` is the top-level one until the list ends. -/
theorem listRaw_eq_ok_iff {payload v rest : List UInt8} :
    listRaw payload = .ok (v, rest) ↔ IsRaw v ∧ payload = v ++ rest := by
  rw [← topRaw_eq_ok_iff]
  by_cases hnil : payload = []
  · subst hnil
    exact iff_of_false (by rw [listRaw, listKind_nil]; intro h; cases h)
      (by rw [topRaw, topKind, readKind]; intro h; cases h)
  · rw [listRaw, listKind_of_ne_nil hnil, topRaw]
    cases topKind payload with
    | error e => exact iff_of_false (fun h => by cases h) (fun h => by cases h)
    | ok k =>
      show Except.ok (raw k) = _ ↔ Except.ok (raw k) = _
      simp only [Except.ok.injEq]

/-! ## Strings -/

theorem encode_bytes_single {x : UInt8} (hx : x < 0x80) : encode (.bytes [x]) = [x] := by
  rw [encode, if_pos hx]

/-- A string other than a byte below `0x80` is written behind its header; a byte
from `0x80` on is a one-byte string. -/
theorem encode_bytes_of_not_single {b : List UInt8} (hb : ¬ ∃ x, b = [x] ∧ x < 0x80) :
    encode (.bytes b) = puthead 0x80 0xb7 b.length ++ b := by
  by_cases hx : ∃ x, b = [x]
  · obtain ⟨x, rfl⟩ := hx
    rw [encode, if_neg fun h => hb ⟨x, rfl, h⟩]
    rfl
  · exact encode_bytes_of_ne fun x h => hx ⟨x, h⟩

/-- Every encoding whose size fits in a header is a raw value. -/
theorem isRaw_encode (item : Item) (hlen : (encode item).length < 2 ^ 64) : IsRaw (encode item) := by
  cases item with
  | bytes b =>
    by_cases hb : ∃ x, b = [x] ∧ x < 0x80
    · obtain ⟨x, rfl, hx⟩ := hb
      refine ⟨.byte x, [], ⟨hx, rfl⟩, ?_⟩
      rw [encode, if_pos hx]
      rfl
    · have hb' : b.length < 2 ^ 64 := lt_of_le_of_lt (length_le_encode_bytes b) hlen
      exact ⟨.string, b, hb', encode_bytes_of_not_single hb⟩
  | list items =>
    have hpay : (encodeList items).length < 2 ^ 64 := by
      rw [encode, List.length_append] at hlen
      omega
    exact ⟨.list, encodeList items, hpay, by rw [encode]; rfl⟩

/-- `Bytes` takes a string's payload when it is not a byte that should have been
written alone. -/
theorem bytes_string {b : List UInt8} (hb : ¬ ∃ x, b = [x] ∧ x < 0x80) (rest : List UInt8) :
    bytes (.string, b.length, b ++ rest) = .ok (b, rest) := by
  dsimp only [bytes]
  rw [List.take_left' rfl, List.drop_left' rfl]
  split
  · next _ x => exact if_neg fun h => hb ⟨x, rfl, h⟩
  · rfl

/-- **A string is read as itself**, and `Bytes` reads nothing else than a
string's encoding. -/
theorem listBytes_eq_ok_iff {payload b rest : List UInt8} :
    listBytes payload = .ok (b, rest) ↔ b.length < 2 ^ 64 ∧ payload = encode (.bytes b) ++ rest := by
  constructor
  · intro h
    rw [listBytes, Except.bind_eq_ok] at h
    obtain ⟨⟨kind, size, r⟩, hkind, h⟩ := h
    obtain ⟨hok, rfl, hfit⟩ := listKind_eq_ok_iff.mp hkind
    rw [Except.mapError_eq_ok] at h
    cases kind with
    | byte x =>
      obtain ⟨hx, rfl⟩ := hok
      cases Except.ok.inj h
      exact ⟨by simp, by rw [encode_bytes_single hx]; rfl⟩
    | string =>
      dsimp only [bytes] at h
      have htake : (r.take size).length = size := List.length_take_of_le hfit
      split at h
      · -- one byte from `0x80` on
        next x hx =>
        split_ifs at h with hlow
        cases Except.ok.inj h
        have h1 : size = 1 := by rw [← htake, hx]; rfl
        subst h1
        refine ⟨by simp, ?_⟩
        have hne : ¬ ∃ y, [x] = [y] ∧ y < 0x80 := by
          rintro ⟨y, hy, hy'⟩
          exact hlow (List.singleton_inj.mp hy ▸ hy')
        rw [encode_bytes_of_not_single hne, header, ← hx, List.length_take_of_le hfit,
          List.append_assoc, List.take_append_drop]
      · cases Except.ok.inj h
        have hne : ¬ ∃ x, r.take size = [x] ∧ x < 0x80 := by
          rintro ⟨x, hx, -⟩
          simp_all
        refine ⟨by rw [htake]; exact hok, ?_⟩
        rw [encode_bytes_of_not_single hne, htake, header, List.append_assoc, List.take_append_drop]
    | list => cases h
  · rintro ⟨hb, rfl⟩
    by_cases hs : ∃ x, b = [x] ∧ x < 0x80
    · obtain ⟨x, rfl, hx⟩ := hs
      have hkind : listKind (encode (.bytes [x]) ++ rest) = .ok (.byte x, 0, rest) := by
        rw [encode_bytes_single hx]
        exact listKind_eq_ok_iff.mpr ⟨⟨hx, rfl⟩, rfl, Nat.zero_le _⟩
      rw [listBytes, hkind, Except.ok_bind]
      rfl
    · have hkind : listKind (encode (.bytes b) ++ rest) = .ok (.string, b.length, b ++ rest) := by
        rw [encode_bytes_of_not_single hs]
        exact listKind_eq_ok_iff.mpr ⟨hb, List.append_assoc _ _ _, by simp⟩
      rw [listBytes, hkind, Except.ok_bind, bytes_string hs]
      rfl

/-! ## Integers -/

/-- The bytes of an integer with no leading zero are its RLP bytes. -/
theorem uintBytes_setBytes_cons {x : UInt8} (hx : x ≠ 0) (t : List UInt8) :
    uintBytes (setBytes (x :: t)) = x :: t := by
  have hpos : 0 < setBytes (x :: t) := lt_of_lt_of_le (Nat.pow_pos (by decide)) (pow_le_setBytes_cons hx t)
  rw [uintBytes, if_neg (Nat.pos_iff_ne_zero.mp hpos), intsize_setBytes_cons hx, putNat_setBytes]

/-- The RLP bytes of a positive integer start with a byte that is not zero, and
read back as the integer. -/
theorem uintBytes_of_pos {v : ℕ} (hv : 0 < v) :
    ∃ x t, uintBytes v = x :: t ∧ x ≠ 0 ∧ setBytes (x :: t) = v := by
  have hne : putNat (intsize v) v ≠ [] :=
    List.ne_nil_of_length_pos (by rw [length_putNat]; exact Nat.succ_pos _)
  obtain ⟨x, t, hxt⟩ := List.exists_cons_of_ne_nil hne
  have hx : x ≠ 0 := fun h0 => head?_putNat_intsize hv (by rw [hxt, h0]; rfl)
  refine ⟨x, t, by rw [uintBytes, if_neg (by omega), hxt], hx, ?_⟩
  rw [← hxt, setBytes_putNat, Nat.mod_eq_of_lt (lt_pow_intsize v)]

/-- `uint` reads a string of at most eight bytes with no leading zero, as long as
it is not a byte that should have been written alone. -/
theorem uint_string {t : List UInt8} (h8 : t.length ≤ 8)
    (hcanon : t = [] ∨ ∃ x t', t = x :: t' ∧ x ≠ 0 ∧ 128 ≤ setBytes t) (rest : List UInt8) :
    uint 64 (.string, t.length, t ++ rest) = .ok (setBytes t, rest) := by
  dsimp only [uint]
  rw [List.take_left' rfl, List.drop_left' rfl, if_neg (by omega)]
  rcases hcanon with rfl | ⟨x, t', rfl, hx, h128⟩
  · rfl
  · rw [if_neg fun ⟨_, h0⟩ => hx (Option.some.inj h0), if_neg fun ⟨_, hlow⟩ => by omega]

/-- **An integer is read as itself**, and `uint` reads nothing else than an
integer's encoding. -/
theorem listUint_eq_ok_iff {payload rest : List UInt8} {v : ℕ} :
    listUint payload = .ok (v, rest) ↔ v < 2 ^ 64 ∧ payload = encodeUint v ++ rest := by
  constructor
  · intro h
    rw [listUint, Except.bind_eq_ok] at h
    obtain ⟨⟨kind, size, r⟩, hkind, h⟩ := h
    obtain ⟨hok, rfl, hfit⟩ := listKind_eq_ok_iff.mp hkind
    cases kind with
    | byte x =>
      -- a byte from `1` to `0x7f`
      obtain ⟨hx, rfl⟩ := hok
      dsimp only [uint] at h
      split_ifs at h with h0
      cases Except.ok.inj h
      have hv : setBytes [x] = x.toNat := by rw [setBytes_cons, setBytes]; simp
      refine ⟨lt_trans x.toNat_lt (by decide), ?_⟩
      rw [encodeUint, ← hv, uintBytes_setBytes_cons h0, encode_bytes_single hx]
      rfl
    | string =>
      dsimp only [uint] at h
      split_ifs at h with h8 hzero hlow
      cases Except.ok.inj h
      have htake : (r.take size).length = size := List.length_take_of_le hfit
      -- the payload is the integer's bytes: none, or bytes with no leading zero
      have hbytes : uintBytes (setBytes (r.take size)) = r.take size := by
        cases hrt : r.take size with
        | nil => rfl
        | cons x t =>
          have hx : x ≠ 0 := by
            rintro rfl
            have hlen : (0 :: t).length = size := by rw [← hrt, htake]
            rcases Nat.lt_or_ge size 2 with h2 | h2
            · -- one zero byte, which should have been written alone
              have ht : t = [] := List.eq_nil_of_length_eq_zero (by simp at hlen; omega)
              subst ht
              exact hlow ⟨by simp at hlen; omega, by rw [hrt]; decide⟩
            · exact hzero ⟨h2, by rw [hrt]; rfl⟩
          exact uintBytes_setBytes_cons hx t
      have hsingle : ¬ ∃ x, r.take size = [x] ∧ x < 0x80 := by
        rintro ⟨x, hx, hx80⟩
        have h1 : size = 1 := by rw [← htake, hx]; rfl
        refine hlow ⟨by omega, ?_⟩
        rw [hx, setBytes_cons, setBytes, List.foldl_nil, List.length_nil, Nat.pow_zero, Nat.mul_one,
          Nat.add_zero]
        rw [UInt8.lt_iff_toNat_lt] at hx80
        exact hx80
      refine ⟨?_, ?_⟩
      · calc setBytes (r.take size) < 256 ^ (r.take size).length := setBytes_lt _
          _ ≤ 256 ^ 8 := Nat.pow_le_pow_right (by decide) (by omega)
          _ = 2 ^ 64 := by decide
      · rw [encodeUint, hbytes, encode_bytes_of_not_single hsingle, htake, header,
          List.append_assoc, List.take_append_drop]
    | list => cases h
  · rintro ⟨hv, rfl⟩
    rcases Nat.eq_zero_or_pos v with rfl | hpos
    · -- zero is the empty string
      have hkind : listKind (encodeUint 0 ++ rest) = .ok (.string, 0, rest) :=
        listKind_eq_ok_iff.mpr ⟨Nat.two_pow_pos 64, rfl, Nat.zero_le _⟩
      rw [listUint, hkind, Except.ok_bind]
      rfl
    obtain ⟨x, t, hxt, hx, hval⟩ := uintBytes_of_pos hpos
    have hlen : (x :: t).length ≤ 8 := by
      rw [← hxt, uintBytes, if_neg (by omega), length_putNat]
      exact intsize_le_eight hv
    by_cases hs : ∃ y, x :: t = [y] ∧ y < 0x80
    · -- below `0x80`: one byte, written alone
      obtain ⟨y, hy, hy80⟩ := hs
      obtain ⟨rfl, rfl⟩ := List.cons_eq_cons.mp hy
      have hkind : listKind (encodeUint v ++ rest) = .ok (.byte x, 0, rest) := by
        rw [encodeUint, hxt, encode_bytes_single hy80]
        exact listKind_eq_ok_iff.mpr ⟨⟨hy80, rfl⟩, rfl, Nat.zero_le _⟩
      rw [listUint, hkind, Except.ok_bind]
      dsimp only [uint]
      rw [if_neg hx, ← hval, setBytes_cons, setBytes]
      simp
    · have hkind : listKind (encodeUint v ++ rest) = .ok (.string, (x :: t).length, (x :: t) ++ rest) := by
        rw [encodeUint, hxt, encode_bytes_of_not_single hs]
        exact listKind_eq_ok_iff.mpr ⟨lt_of_le_of_lt hlen (by decide), List.append_assoc _ _ _, by simp⟩
      -- a byte of its own from `0x80` on, or two bytes and more
      have h128 : 128 ≤ setBytes (x :: t) := by
        rcases t with _ | ⟨z, t⟩
        · have hx80 : ¬ x < 0x80 := fun h => hs ⟨x, rfl, h⟩
          rw [UInt8.lt_iff_toNat_lt] at hx80
          rw [setBytes_cons, setBytes]
          simp only [List.foldl_nil, List.length_nil, Nat.pow_zero, Nat.mul_one, Nat.add_zero]
          exact Nat.le_of_not_lt hx80
        · exact le_trans (le_trans (by decide : 128 ≤ 256) (Nat.le_self_pow (by simp) _))
            (pow_le_setBytes_cons hx (z :: t))
      rw [listUint, hkind, Except.ok_bind, uint_string hlen (Or.inr ⟨x, t, rfl, hx, h128⟩), hval]

/-! ## Lists and whole values -/

/-- A list written from its elements' encodings starts with a list header. -/
theorem topKind_encodeRaws {elems : List (List UInt8)} (hlen : elems.flatten.length < 2 ^ 64)
    (rest : List UInt8) :
    topKind (encodeRaws elems ++ rest) = .ok (.list, elems.flatten.length, elems.flatten ++ rest) :=
  topKind_eq_ok_iff.mpr ⟨hlen, List.append_assoc _ _ _, by simp⟩

/-- `rlp.DecodeBytes` reads a value back from its encoding. -/
theorem decodeBytesValue_encode {α : Type} {f : Item → Except Error α} {a : α} {item : Item}
    (hf : f item = .ok a) (hlen : (encode item).length < 2 ^ 64) :
    decodeBytesValue f (encode item) = .ok a := by
  have hdec := decodeNext_encode hf [] hlen
  rw [List.append_nil] at hdec
  rw [decodeBytesValue, hdec]
  rfl

/-- An element of a list is written within it. -/
theorem length_le_encodeRaws {elems : List (List UInt8)} {x : List UInt8} (hx : x ∈ elems) :
    x.length ≤ (encodeRaws elems).length := by
  have := (List.sublist_flatten_of_mem hx).length_le
  rw [encodeRaws, List.length_append]
  omega

end RpcNetwork.Rlp
