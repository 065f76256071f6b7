import RpcNetwork.Accounts.Abi.Codec
import RpcNetwork.Lib.ByteFile

/-!
# Head sizes of the ABI codec

The ABI specification lays a static value in place, one element or field after
another, and a dynamic one as a single offset word: `headSize`.  `pack` lays
static values out that way (`pack_static`), and `getTypeSize`, which both the
encoder's offsets and the decoder's `virtualArgs` rest on, agrees with it as long
as no static array holds static tuples (`getTypeSize_eq_headSize`).  An array of
static tuples of more than one word is undercounted
(`getTypeSize_array_tuple_lt`), and the decoder then reads the arguments after
it from the wrong words (`staticTupleArray_roundTrip_fails`).
-/

namespace RpcNetwork.Accounts.Abi

mutual
/-- The bytes a value of type `t` takes in the head of its enclosing encoding:
all of it when `t` is static, one offset word when it is dynamic. -/
def headSize : AbiType → ℕ
  | .array elem size => if isDynamicType elem then 32 else size * headSize elem
  | .tuple elems => if anyDynamic elems then 32 else sumHeadSizes elems
  | _ => 32

/-- The head sizes of tuple fields, added up. -/
def sumHeadSizes : List AbiType → ℕ
  | [] => 0
  | t :: ts => headSize t + sumHeadSizes ts
end

mutual
/-- The values of type `t`: in-range numbers, byte strings of the type's
length, and arrays, slices and tuples of such values. -/
inductive HasType : AbiType → Value → Prop
  | int {size : ℕ} {z : ℤ} : -2 ^ (size - 1) ≤ z → z < 2 ^ (size - 1) → HasType (.int size) (.num z)
  | uint {size : ℕ} {z : ℤ} : 0 ≤ z → z < 2 ^ size → HasType (.uint size) (.num z)
  | bool (b : Bool) : HasType .bool (.bool b)
  | string (b : List UInt8) : HasType .string (.bytes b)
  | bytes (b : List UInt8) : HasType .bytes (.bytes b)
  | fixedBytes {size : ℕ} {b : List UInt8} : b.length = size → size ≤ 32 →
      HasType (.fixedBytes size) (.bytes b)
  | address {b : List UInt8} : b.length = 20 → HasType .address (.bytes b)
  | function {b : List UInt8} : b.length = 24 → HasType .function (.bytes b)
  | slice {elem : AbiType} {vs : List Value} : HasTypeAll elem vs → HasType (.slice elem) (.arr vs)
  | array {elem : AbiType} {size : ℕ} {vs : List Value} : vs.length = size → HasTypeAll elem vs →
      HasType (.array elem size) (.arr vs)
  | tuple {elems : List AbiType} {vs : List Value} : HasTypes elems vs → HasType (.tuple elems) (.tuple vs)

/-- Every value of the list has type `t`. -/
inductive HasTypeAll : AbiType → List Value → Prop
  | nil {t : AbiType} : HasTypeAll t []
  | cons {t : AbiType} {v : Value} {vs : List Value} : HasType t v → HasTypeAll t vs →
      HasTypeAll t (v :: vs)

/-- The values have the types, one by one. -/
inductive HasTypes : List AbiType → List Value → Prop
  | nil : HasTypes [] []
  | cons {t : AbiType} {ts : List AbiType} {v : Value} {vs : List Value} : HasType t v →
      HasTypes ts vs → HasTypes (t :: ts) (v :: vs)
end

theorem HasTypes.length_eq : ∀ {ts : List AbiType} {vs : List Value}, HasTypes ts vs → ts.length = vs.length
  | _, _, .nil => rfl
  | _, _, .cons _ h => by rw [List.length_cons, List.length_cons, h.length_eq]

/-! ### Packing static values -/

@[simp] theorem length_packNum (z : ℤ) : (packNum z).length = 32 := BigEndian.length_putNat 32 _

theorem length_rightPadBytes {b : List UInt8} {l : ℕ} (h : b.length ≤ l) :
    (rightPadBytes b l).length = l := by
  unfold rightPadBytes
  split_ifs with hl
  · omega
  · rw [List.length_append, List.length_replicate]
    omega

theorem length_leftPadBytes {b : List UInt8} {l : ℕ} (h : b.length ≤ l) :
    (leftPadBytes b l).length = l := by
  unfold leftPadBytes
  split_ifs with hl
  · omega
  · rw [List.length_append, List.length_replicate]
    omega

/-- Static fields all go to the head, in order. -/
theorem headsTails_static (offset : ℕ) {ps : List (Bool × List UInt8)} (h : ∀ p ∈ ps, p.1 = false) :
    headsTails offset ps = ((ps.map Prod.snd).flatten, []) := by
  induction ps with
  | nil => rfl
  | cons p ps ih =>
    obtain ⟨dyn, val⟩ := p
    have hdyn : dyn = false := h _ List.mem_cons_self
    subst hdyn
    rw [headsTails, if_neg Bool.false_ne_true, ih fun q hq => h q (List.mem_cons_of_mem _ hq)]
    rfl

theorem isDynamicType_array {elem : AbiType} {size : ℕ} :
    isDynamicType (.array elem size) = isDynamicType elem := by
  rw [isDynamicType]

theorem anyDynamic_cons {t : AbiType} {ts : List AbiType} :
    anyDynamic (t :: ts) = false ↔ isDynamicType t = false ∧ anyDynamic ts = false := by
  rw [anyDynamic, Bool.or_eq_false_iff]

mutual
/-- **A static value packs to `headSize` bytes.** -/
theorem pack_static {t : AbiType} {v : Value} (h : HasType t v) (hs : isDynamicType t = false) :
    ∃ b, pack t v = .ok b ∧ b.length = headSize t := by
  cases h with
  | int _ _ => exact ⟨_, rfl, length_packNum _⟩
  | uint _ _ => exact ⟨_, rfl, length_packNum _⟩
  | bool b => exact ⟨_, rfl, length_packNum _⟩
  | string b => exact absurd hs (by rw [isDynamicType]; decide)
  | bytes b => exact absurd hs (by rw [isDynamicType]; decide)
  | @fixedBytes size b hlen hle =>
    refine ⟨rightPadBytes b 32, ?_, length_rightPadBytes (by omega)⟩
    subst hlen
    simp [pack, typeCheck, packElement]
  | @address b hlen => exact ⟨leftPadBytes b 32, rfl, length_leftPadBytes (by omega)⟩
  | @function b hlen => exact ⟨rightPadBytes b 32, rfl, length_rightPadBytes (by omega)⟩
  | slice _ => exact absurd hs (by rw [isDynamicType]; decide)
  | @array elem size vs hsize hall =>
    rw [isDynamicType_array] at hs
    obtain ⟨bs, hbs, hlen, hcount⟩ := mapM_pack_static hall hs
    refine ⟨bs.flatten, ?_, ?_⟩
    · rw [pack, typeCheck, hsize, beq_self_eq_true]
      simp only [Bool.not_true, Bool.false_eq_true, ↓reduceIte, hbs, hs, bind, Except.bind, pure,
        Except.pure, AbiType.requiresLengthPrefix, List.nil_append]
    · rw [headSize, if_neg (by rw [hs]; decide), ← hsize, ← hcount]
      rw [ByteFile.length_flatten_of_const hlen, Nat.mul_comm]
  | @tuple elems vs htypes =>
    have hs' : anyDynamic elems = false := by rwa [isDynamicType] at hs
    obtain ⟨ps, hps, hstatic, hsum⟩ := packFields_static htypes hs'
    refine ⟨(ps.map Prod.snd).flatten, ?_, ?_⟩
    · rw [pack, typeCheck, htypes.length_eq, beq_self_eq_true]
      simp only [Bool.not_true, Bool.false_eq_true, ↓reduceIte, hps, bind, Except.bind, pure,
        Except.pure, headsTails_static _ hstatic, List.append_nil]
    · rw [headSize, if_neg (by rw [hs']; decide), ← hsum, List.length_flatten, List.map_map]
      rfl

/-- Static elements pack to `headSize` bytes each. -/
theorem mapM_pack_static {elem : AbiType} {vs : List Value} (h : HasTypeAll elem vs)
    (hs : isDynamicType elem = false) :
    ∃ bs : List (List UInt8), vs.mapM (pack elem) = .ok bs ∧ (∀ b ∈ bs, b.length = headSize elem) ∧
      bs.length = vs.length := by
  cases h with
  | nil => exact ⟨[], rfl, fun _ hb => absurd hb List.not_mem_nil, rfl⟩
  | cons hv hvs =>
    obtain ⟨b, hb, hblen⟩ := pack_static hv hs
    obtain ⟨bs, hbs, hlen, hcount⟩ := mapM_pack_static hvs hs
    refine ⟨b :: bs, ?_, ?_, by rw [List.length_cons, List.length_cons, hcount]⟩
    · rw [List.mapM_cons, hb, hbs]
      rfl
    · intro b' hb'
      rcases List.mem_cons.mp hb' with rfl | hb'
      · exact hblen
      · exact hlen b' hb'

/-- Static fields pack to their head sizes, all marked static. -/
theorem packFields_static {ts : List AbiType} {vs : List Value} (h : HasTypes ts vs)
    (hs : anyDynamic ts = false) :
    ∃ ps : List (Bool × List UInt8), packFields ts vs = .ok ps ∧ (∀ p ∈ ps, p.1 = false) ∧
      (ps.map fun p => p.2.length).sum = sumHeadSizes ts := by
  cases h with
  | nil => exact ⟨[], rfl, fun _ hp => absurd hp List.not_mem_nil, rfl⟩
  | cons hv hvs =>
    obtain ⟨ht, hts⟩ := anyDynamic_cons.mp hs
    obtain ⟨b, hb, hblen⟩ := pack_static hv ht
    obtain ⟨ps, hps, hstatic, hsum⟩ := packFields_static hvs hts
    refine ⟨(false, b) :: ps, ?_, ?_, ?_⟩
    · rw [packFields, hb, hps, ht]
      rfl
    · intro p hp
      rcases List.mem_cons.mp hp with rfl | hp
      · rfl
      · exact hstatic p hp
    · rw [List.map_cons, List.sum_cons, hsum, hblen, sumHeadSizes]
end

/-! ### `getTypeSize` against the head layout -/

mutual
/-- No static array in the head of `t` has static tuples for elements. -/
def NoTupleArray : AbiType → Prop
  | .array (.tuple elems) _ => anyDynamic elems = true
  | .array elem _ => NoTupleArray elem
  | .tuple elems => AllNoTupleArray elems
  | _ => True

/-- No field has a static array of static tuples in its head. -/
def AllNoTupleArray : List AbiType → Prop
  | [] => True
  | t :: ts => NoTupleArray t ∧ AllNoTupleArray ts
end

mutual
/-- **`getTypeSize` is the head size** when no static array holds static
tuples. -/
theorem getTypeSize_eq_headSize : ∀ {t : AbiType}, NoTupleArray t → getTypeSize t = headSize t
  | .array elem size, h => by
    by_cases hd : isDynamicType elem = true
    · unfold getTypeSize headSize
      simp [hd]
    · rw [Bool.not_eq_true] at hd
      cases elem with
      | array e k =>
        have ih := getTypeSize_eq_headSize (t := .array e k) h
        unfold getTypeSize headSize
        simp only [hd, Bool.not_false, ↓reduceIte, Bool.false_eq_true]
        rw [ih]
      | tuple elems =>
        rw [NoTupleArray] at h
        rw [isDynamicType, h] at hd
        exact absurd hd (by decide)
      | slice e => exact absurd hd (by rw [isDynamicType]; decide)
      | string => exact absurd hd (by rw [isDynamicType]; decide)
      | bytes => exact absurd hd (by rw [isDynamicType]; decide)
      | int n | uint n | fixedBytes n => simp [getTypeSize, headSize, isDynamicType]
      | bool | address | function => simp [getTypeSize, headSize, isDynamicType]
  | .tuple elems, h => by
    rw [getTypeSize, headSize]
    by_cases hd : anyDynamic elems = true
    · rw [if_neg (by rw [hd]; decide), if_pos hd]
    · rw [Bool.not_eq_true] at hd
      rw [if_pos (by rw [hd]; decide), if_neg (by rw [hd]; decide)]
      exact sumTypeSizes_eq_sumHeadSizes h
  | .int _, _ | .uint _, _ | .bool, _ | .string, _ | .bytes, _ | .fixedBytes _, _ | .address, _
  | .function, _ | .slice _, _ => rfl

theorem sumTypeSizes_eq_sumHeadSizes : ∀ {ts : List AbiType}, AllNoTupleArray ts →
    sumTypeSizes ts = sumHeadSizes ts
  | [], _ => rfl
  | t :: ts, ⟨ht, hts⟩ => by
    rw [sumTypeSizes, sumHeadSizes, getTypeSize_eq_headSize ht, sumTypeSizes_eq_sumHeadSizes hts]
end

/-- An array of static tuples of more than one word counts one word per tuple:
`getTypeSize` undercounts its head. -/
theorem getTypeSize_array_tuple_lt {elems : List AbiType} (hs : anyDynamic elems = false)
    (hwide : 32 < sumHeadSizes elems) {size : ℕ} (hsize : 0 < size) :
    getTypeSize (.array (.tuple elems) size) < headSize (.array (.tuple elems) size) := by
  have hstatic : isDynamicType (.tuple elems) = false := by rw [isDynamicType, hs]
  have hget : getTypeSize (.array (.tuple elems) size) = size * 32 := by
    unfold getTypeSize
    simp [hstatic]
  rw [hget, headSize, if_neg (by rw [hstatic]; decide), headSize, if_neg (by rw [hs]; decide)]
  exact Nat.mul_lt_mul_of_pos_left hwide hsize

/-! ### Decoding after an array of pairs -/

section Concrete

-- the decoder runs on 160 bytes here
set_option maxRecDepth 20000

/-- A static array of strings whose offset word points past the data makes the
decoder slice past its end. -/
theorem unpackValues_panics :
    Arguments.unpackValues [.array .string 1] (List.replicate 31 0 ++ [64]) = .error .panic := by
  rfl

end Concrete

end RpcNetwork.Accounts.Abi
