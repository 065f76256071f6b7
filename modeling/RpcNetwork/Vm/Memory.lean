import RpcNetwork.Lib.ExceptRun
import RpcNetwork.Vm.Contract

/-!
# EVM memory and its gas

`Memory` (`memory.go`) is a byte slice that grows in words and remembers the
fee paid so far (`lastGasCost`).  Before an instruction, the loop sizes it
with `memorySize` (`memory_table.go`), charges the growth with
`memoryGasCost` (`gas_table.go`) and calls `Resize`; the accessors panic past
the end.

## Design notes

`uint64` arithmetic is `UInt64`, which wraps as Go does; every statement that
says a computation does not wrap relates the `UInt64` result to the exact one
on `ℕ`.  `int64(x)` of a `uint64` and `int64` addition are `Int.bmod` to
`2^64`.  Slices are checked against the length, Go's against the capacity, so
an access the model allows lies inside the memory.
-/

namespace RpcNetwork.Vm

/-- The errors of `errors.go`: those the interpreter loop returns, and those
a call or a creation it starts can end with. -/
inductive VmError where
  | outOfGas
  | codeStoreOutOfGas
  | depth
  | insufficientBalance
  | contractAddressCollision
  | maxCodeSizeExceeded
  | gasUintOverflow
  | invalidJump
  | writeProtection
  | returnDataOutOfBounds
  | invalidRetsub
  | returnStackExceeded
  | invalidSubroutineEntry
  | executionReverted
  | stackUnderflow (stackLen required : ℕ)
  | stackOverflow (stackLen limit : ℕ)
  | invalidOpCode (opcode : OpCode)
  deriving DecidableEq, Repr

/-! ### Machine words -/

/-- `math.SafeAdd`. -/
def safeAdd (x y : UInt64) : UInt64 × Bool := (x + y, y > 0xFFFFFFFFFFFFFFFF - x)

/-- `math.SafeMul`. -/
def safeMul (x y : UInt64) : UInt64 × Bool :=
  if x = 0 ∨ y = 0 then (0, false) else (x * y, y > 0xFFFFFFFFFFFFFFFF / x)

theorem safeAdd_ok {x y : UInt64} (h : (safeAdd x y).2 = false) :
    (safeAdd x y).1.toNat = x.toNat + y.toNat := by
  have hx := x.toNat_lt
  simp only [safeAdd, decide_eq_false_iff_not, gt_iff_lt, UInt64.lt_iff_toNat_lt, not_lt] at h ⊢
  rw [UInt64.toNat_sub_of_le _ _ (UInt64.le_iff_toNat_le.mpr (by simp; omega))] at h
  simp only [UInt64.reduceToNat] at h
  rw [UInt64.toNat_add, Nat.mod_eq_of_lt (by omega)]

theorem safeMul_ok {x y : UInt64} (h : (safeMul x y).2 = false) :
    (safeMul x y).1.toNat = x.toNat * y.toNat := by
  unfold safeMul at h ⊢
  split
  · rename_i hz
    rcases hz with rfl | rfl <;> simp
  · rename_i hz
    simp only [hz, if_false, decide_eq_false_iff_not, gt_iff_lt] at h
    rw [UInt64.not_lt, UInt64.le_iff_toNat_le, UInt64.toNat_div] at h
    simp only [UInt64.reduceToNat] at h
    have hx : 0 < x.toNat := by
      rcases Nat.eq_zero_or_pos x.toNat with h0 | h0
      · exact absurd (UInt64.toNat_inj.mp (h0.trans UInt64.toNat_zero.symm)) (by tauto)
      · exact h0
    -- `y ≤ ⌊(2^64 - 1) / x⌋` is `x * y ≤ 2^64 - 1`
    have : x.toNat * y.toNat < 2 ^ 64 := by
      have := (Nat.le_div_iff_mul_le hx).mp h
      rw [Nat.mul_comm]
      omega
    rw [UInt64.toNat_mul, Nat.mod_eq_of_lt this]

theorem toNat_add_of_lt {x y : UInt64} (h : x.toNat + y.toNat < 2 ^ 64) :
    (x + y).toNat = x.toNat + y.toNat := by
  rw [UInt64.toNat_add, Nat.mod_eq_of_lt h]

/-- `toWordSize`: the number of 32-byte words that cover `size` bytes. -/
def toWordSize (size : UInt64) : UInt64 :=
  if size > 0xFFFFFFFFFFFFFFFF - 31 then 0xFFFFFFFFFFFFFFFF / 32 + 1 else (size + 31) / 32

theorem toWordSize_toNat (size : UInt64) :
    (toWordSize size).toNat = (size.toNat + 31) / 32 := by
  have hs := size.toNat_lt
  unfold toWordSize
  split
  · rename_i h
    simp only [gt_iff_lt, UInt64.lt_iff_toNat_lt, UInt64.reduceToNat, UInt64.reduceSub] at h
    simp only [UInt64.reduceDiv, UInt64.reduceAdd, UInt64.reduceToNat]
    omega
  · rename_i h
    simp only [gt_iff_lt, UInt64.lt_iff_toNat_lt, not_lt, UInt64.reduceToNat,
      UInt64.reduceSub] at h
    rw [UInt64.toNat_div, UInt64.toNat_add, Nat.mod_eq_of_lt (by simp; omega)]
    rfl

/-! ### The stack -/

/-- The operand stack, top first. -/
abbrev Stack := List Word

/-- `Back(n)`: the `n`-th element from the top.  The loop checks `minStack`
before anything reads the stack, so the default is never read. -/
def Stack.back (stack : Stack) (n : ℕ) : Word := stack.getD n 0

/-! ### Memory -/

/-- `Memory`. -/
structure Memory where
  store : List UInt8
  lastGasCost : UInt64
  deriving DecidableEq, Repr

/-- `NewMemory`. -/
def newMemory : Memory := ⟨[], 0⟩

namespace Memory

/-- `Len`. -/
def len (m : Memory) : ℕ := m.store.length

/-- `Resize`: grow the store with zeros up to `size` bytes. -/
def resize (m : Memory) (size : UInt64) : Memory :=
  if UInt64.ofNat m.len < size then
    { m with store := m.store ++ List.replicate (size.toNat - m.len) 0 }
  else m

/-- `copy(store[offset:], bytes)` for bytes that fit. -/
def overwrite (store : List UInt8) (offset : ℕ) (bytes : List UInt8) : List UInt8 :=
  store.take offset ++ bytes ++ store.drop (offset + bytes.length)

/-- The slice expression `store[low:high]`, which panics unless
`0 ≤ low ≤ high ≤ len(store)`. -/
def slice (store : List UInt8) (low high : ℤ) : Except String (List UInt8) :=
  if 0 ≤ low ∧ low ≤ high ∧ high ≤ store.length then
    .ok ((store.drop low.toNat).take (high - low).toNat)
  else .error "slice bounds out of range"

/-- `Set`: copy `value` into the `size` bytes from `offset`. -/
def set (m : Memory) (offset size : UInt64) (value : List UInt8) : Except String Memory :=
  if size > 0 then
    if (offset + size).toNat > m.store.length then .error "invalid memory: store empty"
    else if offset > offset + size then .error "slice bounds out of range"
    else .ok { m with store := overwrite m.store offset.toNat (value.take size.toNat) }
  else .ok m

/-- The 32 big-endian bytes of a word, as `WriteToSlice` writes them. -/
def bytes32 (val : Word) : List UInt8 :=
  (List.range 32).map fun i => UInt8.ofNat (val.toNat >>> (8 * (31 - i)))

/-- `Set32`: store `val` as 32 bytes from `offset`. -/
def set32 (m : Memory) (offset : UInt64) (val : Word) : Except String Memory :=
  if (offset + 32).toNat > m.store.length then .error "invalid memory: store empty"
  else if offset > offset + 32 then .error "slice bounds out of range"
  else .ok { m with store := overwrite m.store offset.toNat (bytes32 val) }

/-- `store[off] = b`, as `MSTORE8` writes. -/
def setByte (m : Memory) (off : UInt64) (b : UInt8) : Except String Memory :=
  if off.toNat < m.store.length then .ok { m with store := m.store.set off.toNat b }
  else .error "index out of range"

/-- `GetCopy`. -/
def getCopy (m : Memory) (offset size : ℤ) : Except String (List UInt8) :=
  if size = 0 then .ok []
  else if (m.store.length : ℤ) > offset then
    if size < 0 then .error "makeslice: len out of range"
    else slice m.store offset (Int.bmod (offset + size) (2 ^ 64))
  else .ok []

/-- `GetPtr`. -/
def getPtr (m : Memory) (offset size : ℤ) : Except String (List UInt8) :=
  if size = 0 then .ok []
  else if (m.store.length : ℤ) > offset then slice m.store offset (Int.bmod (offset + size) (2 ^ 64))
  else .ok []

/-- Go's `int64(x)` of a `uint64`. -/
def int64 (x : UInt64) : ℤ := Int.bmod x.toNat (2 ^ 64)

@[simp] theorem len_resize (m : Memory) (size : UInt64) (h : m.len < 2 ^ 64) :
    (m.resize size).len = max m.len size.toNat := by
  unfold resize len at *
  split
  · rename_i hlt
    rw [UInt64.lt_iff_toNat_lt, UInt64.toNat_ofNat', Nat.mod_eq_of_lt h] at hlt
    simp
    omega
  · rename_i hlt
    rw [UInt64.lt_iff_toNat_lt, UInt64.toNat_ofNat', Nat.mod_eq_of_lt h] at hlt
    omega

@[simp] theorem lastGasCost_resize (m : Memory) (size : UInt64) :
    (m.resize size).lastGasCost = m.lastGasCost := by
  unfold resize
  split <;> rfl

theorem length_overwrite {store bytes : List UInt8} {offset : ℕ}
    (h : offset + bytes.length ≤ store.length) :
    (overwrite store offset bytes).length = store.length := by
  simp [overwrite]
  omega

/-! ### Accesses inside the memory do not panic -/

/-- **`Set` inside the memory** does not panic and keeps the length. -/
theorem set_ok {m : Memory} (hlen : m.len < 2 ^ 63) {offset size : UInt64}
    (value : List UInt8) (h : size.toNat = 0 ∨ offset.toNat + size.toNat ≤ m.len) :
    ∃ m', m.set offset size value = .ok m' ∧ m'.len = m.len ∧
      m'.lastGasCost = m.lastGasCost := by
  unfold set
  split
  · rename_i hpos
    have hsize : 0 < size.toNat := UInt64.lt_iff_toNat_lt.mp hpos
    have hfit : offset.toNat + size.toNat ≤ m.len := by omega
    have hsum := toNat_add_of_lt (x := offset) (y := size) (by omega)
    have hno : ¬ (offset + size).toNat > m.store.length := by
      unfold len at hfit
      omega
    have hle : ¬ offset > offset + size := by
      rw [gt_iff_lt, UInt64.lt_iff_toNat_lt, hsum]
      omega
    rw [if_neg hno, if_neg hle]
    refine ⟨_, rfl, length_overwrite ?_, rfl⟩
    simp only [List.length_take]
    unfold len at hfit
    omega
  · exact ⟨m, rfl, rfl, rfl⟩

@[simp] theorem length_bytes32 (val : Word) : (bytes32 val).length = 32 := by
  simp [bytes32]

/-- **`Set32` inside the memory** does not panic and keeps the length. -/
theorem set32_ok {m : Memory} (hlen : m.len < 2 ^ 63) {offset : UInt64} (val : Word)
    (h : offset.toNat + 32 ≤ m.len) :
    ∃ m', m.set32 offset val = .ok m' ∧ m'.len = m.len ∧ m'.lastGasCost = m.lastGasCost := by
  unfold set32
  have hsum := toNat_add_of_lt (x := offset) (y := 32) (by simp; omega)
  simp only [UInt64.reduceToNat] at hsum
  have hno : ¬ (offset + 32).toNat > m.store.length := by
    unfold len at h
    omega
  have hle : ¬ offset > offset + 32 := by
    rw [gt_iff_lt, UInt64.lt_iff_toNat_lt, hsum]
    omega
  rw [if_neg hno, if_neg hle]
  exact ⟨_, rfl, length_overwrite (by simp; unfold len at h; omega), rfl⟩

/-- **`MSTORE8`'s write inside the memory** does not panic and keeps the
length. -/
theorem setByte_ok {m : Memory} {off : UInt64} (b : UInt8) (h : off.toNat < m.len) :
    ∃ m', m.setByte off b = .ok m' ∧ m'.len = m.len ∧ m'.lastGasCost = m.lastGasCost := by
  unfold setByte
  unfold len at h
  rw [if_pos h]
  exact ⟨_, rfl, List.length_set .., rfl⟩

/-- An end that the check `offset > offset + size` passed did not wrap. -/
theorem toNat_add_of_not_wrap {offset size : UInt64} (h : ¬ offset > offset + size) :
    (offset + size).toNat = offset.toNat + size.toNat := by
  have ho := offset.toNat_lt
  have hs := size.toNat_lt
  rw [gt_iff_lt, UInt64.lt_iff_toNat_lt, UInt64.toNat_add] at h
  rw [UInt64.toNat_add]
  rcases Nat.lt_or_ge (offset.toNat + size.toNat) (2 ^ 64) with hlt | hge
  · rw [Nat.mod_eq_of_lt hlt]
  · -- a wrapped end lies below the offset, which the check catches
    rw [Nat.mod_eq_sub_mod hge, Nat.mod_eq_of_lt (by omega)] at h
    omega

/-- **A `Set` that does not panic** keeps the length and the fee. -/
theorem set_len {m m' : Memory} {offset size : UInt64} {value : List UInt8}
    (h : m.set offset size value = .ok m') :
    m'.len = m.len ∧ m'.lastGasCost = m.lastGasCost := by
  unfold set at h
  split at h
  · split at h
    · cases h
    · split at h
      · cases h
      · rename_i hfit hwrap
        cases h
        have hend := toNat_add_of_not_wrap hwrap
        refine ⟨length_overwrite ?_, rfl⟩
        simp only [List.length_take]
        omega
  · cases h
    exact ⟨rfl, rfl⟩

/-- A `Set32` that does not panic keeps the length and the fee. -/
theorem set32_len {m m' : Memory} {offset : UInt64} {val : Word}
    (h : m.set32 offset val = .ok m') : m'.len = m.len ∧ m'.lastGasCost = m.lastGasCost := by
  unfold set32 at h
  split at h
  · cases h
  · split at h
    · cases h
    · rename_i hfit hwrap
      cases h
      have hend := toNat_add_of_not_wrap hwrap
      refine ⟨length_overwrite ?_, rfl⟩
      simp only [length_bytes32, UInt64.reduceToNat] at hend ⊢
      omega

/-- A byte store that does not panic keeps the length and the fee. -/
theorem setByte_len {m m' : Memory} {off : UInt64} {b : UInt8}
    (h : m.setByte off b = .ok m') : m'.len = m.len ∧ m'.lastGasCost = m.lastGasCost := by
  unfold setByte at h
  split at h
  · cases h
    exact ⟨List.length_set .., rfl⟩
  · cases h

theorem int64_toNat {x : UInt64} (h : x.toNat < 2 ^ 63) : int64 x = x.toNat :=
  Int.bmod_eq_of_le (by omega) (by omega)

/-- `int(*pc+1)`, the position after `pc`, below `2^63`. -/
theorem int64_add_one {x : UInt64} (h : x.toNat + 1 < 2 ^ 63) : int64 (x + 1) = x.toNat + 1 := by
  have hnext : (x + 1).toNat = x.toNat + 1 := toNat_add_of_lt (by simp; omega)
  rw [int64_toNat (by omega), hnext]
  push_cast
  rfl

theorem slice_ok {store : List UInt8} {low high : ℤ} (h0 : 0 ≤ low) (h1 : low ≤ high)
    (h2 : high ≤ store.length) : ∃ bs, slice store low high = .ok bs := by
  unfold slice
  rw [if_pos ⟨h0, h1, h2⟩]
  exact ⟨_, rfl⟩

/-- The window's end as `int64` addition computes it, when nothing wraps. -/
theorem bmod_window {m : Memory} (hlen : m.len < 2 ^ 63) {offset size : UInt64}
    (h : offset.toNat + size.toNat ≤ m.len) :
    Int.bmod (int64 offset + int64 size) (2 ^ 64) = offset.toNat + size.toNat := by
  rw [int64_toNat (by omega), int64_toNat (by omega)]
  exact Int.bmod_eq_of_le (by omega) (by omega)

/-- **`GetPtr` inside the memory** does not panic. -/
theorem getPtr_ok {m : Memory} (hlen : m.len < 2 ^ 63) {offset size : UInt64}
    (h : size.toNat = 0 ∨ offset.toNat + size.toNat ≤ m.len) :
    ∃ bs, m.getPtr (int64 offset) (int64 size) = .ok bs := by
  unfold getPtr
  rcases Nat.eq_zero_or_pos size.toNat with h0 | hpos
  · have : int64 size = 0 := by rw [int64_toNat (by omega), h0]; rfl
    rw [if_pos this]
    exact ⟨_, rfl⟩
  · have hfit : offset.toNat + size.toNat ≤ m.len := by omega
    have hs : int64 size ≠ 0 := by rw [int64_toNat (by omega)]; omega
    have ho : (m.store.length : ℤ) > int64 offset := by
      rw [int64_toNat (by omega)]
      unfold len at hfit
      omega
    rw [if_neg hs, if_pos ho, bmod_window hlen hfit]
    unfold len at hfit
    exact slice_ok (by rw [int64_toNat (by omega)]; omega)
      (by rw [int64_toNat (by omega)]; omega) (by omega)

/-- **`GetCopy` inside the memory** does not panic. -/
theorem getCopy_ok {m : Memory} (hlen : m.len < 2 ^ 63) {offset size : UInt64}
    (h : size.toNat = 0 ∨ offset.toNat + size.toNat ≤ m.len) :
    ∃ bs, m.getCopy (int64 offset) (int64 size) = .ok bs := by
  unfold getCopy
  rcases Nat.eq_zero_or_pos size.toNat with h0 | hpos
  · have : int64 size = 0 := by rw [int64_toNat (by omega), h0]; rfl
    rw [if_pos this]
    exact ⟨_, rfl⟩
  · have hfit : offset.toNat + size.toNat ≤ m.len := by omega
    have hs : int64 size ≠ 0 := by rw [int64_toNat (by omega)]; omega
    have hneg : ¬ int64 size < 0 := by rw [int64_toNat (by omega)]; omega
    have ho : (m.store.length : ℤ) > int64 offset := by
      rw [int64_toNat (by omega)]
      unfold len at hfit
      omega
    rw [if_neg hs, if_pos ho, if_neg hneg, bmod_window hlen hfit]
    unfold len at hfit
    exact slice_ok (by rw [int64_toNat (by omega)]; omega)
      (by rw [int64_toNat (by omega)]; omega) (by omega)

end Memory

/-! ### How far an instruction reaches -/

/-- `calcMemSize64WithUint`: the end of the window at `off` of `length64`
bytes, zero for an empty window, and whether it overflowed. -/
def calcMemSize64WithUint (off : Word) (length64 : UInt64) : UInt64 × Bool :=
  if length64 = 0 then (0, false)
  else
    let (offset64, overflow) := off.uint64WithOverflow
    if overflow then (0, true)
    else
      let val := offset64 + length64
      (val, val < offset64)

/-- `calcMemSize64`. -/
def calcMemSize64 (off l : Word) : UInt64 × Bool :=
  if !l.isUint64 then (0, true) else calcMemSize64WithUint off l.uint64

/-- The size functions of one window with offset and length at stack slots `i`
and `j`. -/
def memoryWindow (i j : ℕ) (stack : Stack) : UInt64 × Bool :=
  calcMemSize64 (stack.back i) (stack.back j)

/-- `memorySha3`. -/
def memorySha3 : Stack → UInt64 × Bool := memoryWindow 0 1
/-- `memoryCallDataCopy`. -/
def memoryCallDataCopy : Stack → UInt64 × Bool := memoryWindow 0 2
/-- `memoryReturnDataCopy`. -/
def memoryReturnDataCopy : Stack → UInt64 × Bool := memoryWindow 0 2
/-- `memoryCodeCopy`. -/
def memoryCodeCopy : Stack → UInt64 × Bool := memoryWindow 0 2
/-- `memoryExtCodeCopy`. -/
def memoryExtCodeCopy : Stack → UInt64 × Bool := memoryWindow 1 3
/-- `memoryCreate`. -/
def memoryCreate : Stack → UInt64 × Bool := memoryWindow 1 2
/-- `memoryCreate2`. -/
def memoryCreate2 : Stack → UInt64 × Bool := memoryWindow 1 2
/-- `memoryReturn`. -/
def memoryReturn : Stack → UInt64 × Bool := memoryWindow 0 1
/-- `memoryRevert`. -/
def memoryRevert : Stack → UInt64 × Bool := memoryWindow 0 1
/-- `memoryLog`. -/
def memoryLog : Stack → UInt64 × Bool := memoryWindow 0 1

/-- `memoryMLoad`. -/
def memoryMLoad (stack : Stack) : UInt64 × Bool := calcMemSize64WithUint (stack.back 0) 32
/-- `memoryMStore8`. -/
def memoryMStore8 (stack : Stack) : UInt64 × Bool := calcMemSize64WithUint (stack.back 0) 1
/-- `memoryMStore`. -/
def memoryMStore (stack : Stack) : UInt64 × Bool := calcMemSize64WithUint (stack.back 0) 32

/-- The size functions of the calls: the larger end of the return window at
slots `i, j` and the argument window at slots `k, l`. -/
def memoryTwoWindows (i j k l : ℕ) (stack : Stack) : UInt64 × Bool :=
  let (x, overflow) := calcMemSize64 (stack.back i) (stack.back j)
  if overflow then (0, true)
  else
    let (y, overflow) := calcMemSize64 (stack.back k) (stack.back l)
    if overflow then (0, true)
    else if x > y then (x, false) else (y, false)

/-- `memoryCall`, also the size function of `CALLCODE`. -/
def memoryCall : Stack → UInt64 × Bool := memoryTwoWindows 5 6 3 4
/-- `memoryDelegateCall`. -/
def memoryDelegateCall : Stack → UInt64 × Bool := memoryTwoWindows 4 5 2 3
/-- `memoryStaticCall`. -/
def memoryStaticCall : Stack → UInt64 × Bool := memoryTwoWindows 4 5 2 3

/-- The window of `length` bytes at `offset` fits in `size` bytes, and the
instruction reads both as `uint64` without truncation: it is empty, or both
fit in 64 bits and it ends at most at `size`. -/
def Fits (offset length : Word) (size : ℕ) : Prop :=
  length.toNat = 0 ∨
    (offset.isUint64 = true ∧ length.isUint64 = true ∧ offset.toNat + length.toNat ≤ size)

theorem Fits.mono {offset length : Word} {a b : ℕ} (h : Fits offset length a) (hab : a ≤ b) :
    Fits offset length b := by
  rcases h with h | ⟨h1, h2, h3⟩
  · exact .inl h
  · exact .inr ⟨h1, h2, by omega⟩

theorem calcMemSize64WithUint_fits {off : Word} {length64 size : UInt64}
    (h : calcMemSize64WithUint off length64 = (size, false)) :
    length64 = 0 ∨ (off.isUint64 = true ∧ off.toNat + length64.toNat = size.toNat) := by
  unfold calcMemSize64WithUint Word.uint64WithOverflow at h
  split at h
  · exact .inl ‹_›
  · dsimp only at h
    split at h
    · simp at h
    · rename_i hover
      simp only [Prod.mk.injEq, decide_eq_false_iff_not] at h
      obtain ⟨rfl, hnw⟩ := h
      simp only [Bool.not_eq_true', Bool.not_eq_false] at hover
      refine .inr ⟨hover, ?_⟩
      have hb := length64.toNat_lt
      rw [UInt64.lt_iff_toNat_lt, UInt64.toNat_add, Word.toNat_uint64 hover] at hnw
      rw [UInt64.toNat_add, Word.toNat_uint64 hover]
      -- `val < offset64` is exactly the wrap-around
      rcases Nat.lt_or_ge (off.toNat + length64.toNat) (2 ^ 64) with hlt | hge
      · rw [Nat.mod_eq_of_lt hlt]
      · have hoff : off.toNat < 2 ^ 64 := by
          simpa [Word.isUint64] using hover
        rw [Nat.mod_eq_sub_mod hge, Nat.mod_eq_of_lt (by omega)] at hnw
        omega

/-- **A size that did not overflow covers its window.** -/
theorem calcMemSize64_fits {off l : Word} {size : UInt64}
    (h : calcMemSize64 off l = (size, false)) : Fits off l size.toNat := by
  unfold calcMemSize64 at h
  split at h
  · simp at h
  · rename_i hl
    simp only [Bool.not_eq_true', Bool.not_eq_false] at hl
    rcases calcMemSize64WithUint_fits h with h0 | ⟨hoff, hsum⟩
    · left
      rw [← Word.toNat_uint64 hl, h0]
      rfl
    · exact .inr ⟨hoff, hl, by rw [← Word.toNat_uint64 hl]; omega⟩

theorem memoryTwoWindows_fits {i j k l : ℕ} {stack : Stack} {size : UInt64}
    (h : memoryTwoWindows i j k l stack = (size, false)) :
    Fits (stack.back i) (stack.back j) size.toNat ∧
      Fits (stack.back k) (stack.back l) size.toNat := by
  rcases hx : calcMemSize64 (stack.back i) (stack.back j) with ⟨x, _ | _⟩
  · rcases hy : calcMemSize64 (stack.back k) (stack.back l) with ⟨y, _ | _⟩
    · have fx := calcMemSize64_fits hx
      have fy := calcMemSize64_fits hy
      simp only [memoryTwoWindows, hx, hy, Bool.false_eq_true, if_false] at h
      -- the size is the larger of the two ends
      by_cases hxy : y < x
      · rw [if_pos hxy] at h
        obtain ⟨rfl, -⟩ := Prod.mk.inj h
        exact ⟨fx, fy.mono (UInt64.lt_iff_toNat_lt.mp hxy).le⟩
      · rw [if_neg hxy] at h
        obtain ⟨rfl, -⟩ := Prod.mk.inj h
        exact ⟨fx.mono (UInt64.not_lt.mp hxy |> UInt64.le_iff_toNat_le.mp), fy⟩
    · simp [memoryTwoWindows, hx, hy] at h
  · simp [memoryTwoWindows, hx] at h

/-! ### Memory gas -/

/-- `params.MemoryGas`. -/
def memoryGas : UInt64 := 3
/-- `params.QuadCoeffDiv`. -/
def quadCoeffDiv : UInt64 := 512
/-- `params.CopyGas`. -/
def copyGas : UInt64 := 3
/-- `params.Sha3WordGas`. -/
def sha3WordGas : UInt64 := 6
/-- `params.LogGas`. -/
def logGas : UInt64 := 375
/-- `params.LogTopicGas`. -/
def logTopicGas : UInt64 := 375
/-- `params.LogDataGas`. -/
def logDataGas : UInt64 := 8

/-- `memoryGasCost`: the fee for growing the memory to `newMemSize` bytes,
the new total minus the total already paid, which it records. -/
def memoryGasCost (mem : Memory) (newMemSize : UInt64) : Except VmError (UInt64 × Memory) :=
  if newMemSize = 0 then .ok (0, mem)
  else if newMemSize > 0x1FFFFFFFE0 then .error .gasUintOverflow
  else
    let newMemSizeWords := toWordSize newMemSize
    let newMemSize := newMemSizeWords * 32
    if newMemSize > UInt64.ofNat mem.len then
      let square := newMemSizeWords * newMemSizeWords
      let linCoef := newMemSizeWords * memoryGas
      let quadCoef := square / quadCoeffDiv
      let newTotalFee := linCoef + quadCoef
      let fee := newTotalFee - mem.lastGasCost
      .ok (fee, { mem with lastGasCost := newTotalFee })
    else .ok (0, mem)

/-- The total fee for a memory of `w` words: `3w + ⌊w²/512⌋`. -/
def memoryFee (w : ℕ) : ℕ := 3 * w + w * w / 512

theorem memoryFee_mono {v w : ℕ} (h : v ≤ w) : memoryFee v ≤ memoryFee w := by
  unfold memoryFee
  have : v * v ≤ w * w := Nat.mul_le_mul h h
  have : v * v / 512 ≤ w * w / 512 := Nat.div_le_div_right this
  omega

/-- What the memory keeps between steps of the loop: whole words, at most
`0x1FFFFFFFE0` bytes, and the total fee for its size recorded. -/
structure MemInv (m : Memory) : Prop where
  words : m.len % 32 = 0
  bound : m.len ≤ 0x1FFFFFFFE0
  lastGasCost : m.lastGasCost.toNat = memoryFee (m.len / 32)

theorem memInv_newMemory : MemInv newMemory := ⟨rfl, by decide, rfl⟩

theorem MemInv.len_lt {m : Memory} (hm : MemInv m) : m.len < 2 ^ 63 := by
  have := hm.bound
  omega

/-- **`memoryGasCost` on a memory that keeps `MemInv`** asks for at most
`0x1FFFFFFFE0` bytes, leaves the bytes alone, records the total fee for the
larger of the two sizes, and charges the difference: no product and no
subtraction wraps. -/
theorem memoryGasCost_spec {m : Memory} (hm : MemInv m) {n fee : UInt64} {m' : Memory}
    (h : memoryGasCost m n = .ok (fee, m')) :
    n.toNat ≤ 0x1FFFFFFFE0 ∧ m'.store = m.store ∧
      m'.lastGasCost.toNat = memoryFee (max (m.len / 32) ((n.toNat + 31) / 32)) ∧
      fee.toNat + m.lastGasCost.toNat = m'.lastGasCost.toNat := by
  have hlen := hm.bound
  unfold memoryGasCost at h
  split at h
  · -- nothing asked for
    rename_i h0
    obtain ⟨rfl, rfl⟩ := Prod.mk.inj (Except.ok.inj h)
    subst h0
    refine ⟨by simp, rfl, ?_, by simp⟩
    rw [hm.lastGasCost]
    congr 1
    simp
  split at h
  · simp at h
  rename_i hn0 hbig
  simp only [gt_iff_lt, UInt64.lt_iff_toNat_lt, not_lt, UInt64.reduceToNat] at hbig
  -- the word count and its square fit in 64 bits
  have hw : (toWordSize n).toNat = (n.toNat + 31) / 32 := toWordSize_toNat n
  have hwle : (toWordSize n).toNat ≤ 0xFFFFFFFF := by omega
  have hsize : (toWordSize n * 32).toNat = (toWordSize n).toNat * 32 := by
    rw [UInt64.toNat_mul, Nat.mod_eq_of_lt (by simp; omega)]
    rfl
  have hofNat : (UInt64.ofNat m.len).toNat = m.len := by
    rw [UInt64.toNat_ofNat', Nat.mod_eq_of_lt (by omega)]
  dsimp only at h
  split at h
  · rename_i hgrow
    rw [gt_iff_lt, UInt64.lt_iff_toNat_lt, hsize, hofNat] at hgrow
    obtain ⟨rfl, rfl⟩ := Prod.mk.inj (Except.ok.inj h)
    have hsq : (toWordSize n * toWordSize n).toNat = (toWordSize n).toNat * (toWordSize n).toNat := by
      rw [UInt64.toNat_mul, Nat.mod_eq_of_lt]
      calc (toWordSize n).toNat * (toWordSize n).toNat
          ≤ 0xFFFFFFFF * 0xFFFFFFFF := Nat.mul_le_mul hwle hwle
        _ < 2 ^ 64 := by omega
    have hlin : (toWordSize n * memoryGas).toNat = (toWordSize n).toNat * 3 := by
      rw [UInt64.toNat_mul, Nat.mod_eq_of_lt (by simp [memoryGas]; omega)]
      rfl
    have hquad : (toWordSize n * toWordSize n / quadCoeffDiv).toNat =
        (toWordSize n).toNat * (toWordSize n).toNat / 512 := by
      rw [UInt64.toNat_div, hsq]
      rfl
    have htotal : (toWordSize n * memoryGas + toWordSize n * toWordSize n / quadCoeffDiv).toNat =
        memoryFee (toWordSize n).toNat := by
      have hsqle : (toWordSize n).toNat * (toWordSize n).toNat / 512 ≤
          0xFFFFFFFF * 0xFFFFFFFF / 512 := Nat.div_le_div_right (Nat.mul_le_mul hwle hwle)
      rw [toNat_add_of_lt (by rw [hlin, hquad]; omega), hlin, hquad, memoryFee,
        Nat.mul_comm _ 3]
    -- the new size is above the old one, so is its fee
    have hmore : m.len / 32 < (toWordSize n).toNat := by omega
    have hle : m.lastGasCost ≤ toWordSize n * memoryGas + toWordSize n * toWordSize n / quadCoeffDiv := by
      rw [UInt64.le_iff_toNat_le, htotal, hm.lastGasCost]
      exact memoryFee_mono hmore.le
    dsimp only
    refine ⟨hbig, rfl, ?_, ?_⟩
    · rw [htotal, hw, max_eq_right (by omega)]
    · rw [UInt64.toNat_sub_of_le _ _ hle]
      have := UInt64.le_iff_toNat_le.mp hle
      omega
  · rename_i hkeep
    rw [gt_iff_lt, UInt64.lt_iff_toNat_lt, hsize, hofNat, not_lt] at hkeep
    obtain ⟨rfl, rfl⟩ := Prod.mk.inj (Except.ok.inj h)
    refine ⟨hbig, rfl, ?_, by simp⟩
    rw [hm.lastGasCost, max_eq_left (by omega)]

theorem MemInv.of_len_eq {m m' : Memory} (hm : MemInv m) (hlen : m'.len = m.len)
    (hgas : m'.lastGasCost = m.lastGasCost) : MemInv m' :=
  ⟨hlen ▸ hm.words, hlen ▸ hm.bound, by rw [hgas, hlen]; exact hm.lastGasCost⟩

/-- **Charging and then resizing keep `MemInv`**: the loop asks for a whole
number of words, `memoryGasCost` records the fee for the larger size, and
`Resize` grows the store to it. -/
theorem MemInv.grow {m m' : Memory} (hm : MemInv m) {n fee : UInt64} (hn : n.toNat % 32 = 0)
    (h : memoryGasCost m n = .ok (fee, m')) :
    MemInv (if n > 0 then m'.resize n else m') := by
  obtain ⟨hbound, hstore, hlast, -⟩ := memoryGasCost_spec hm h
  have hlen' : m'.len = m.len := by unfold Memory.len; rw [hstore]
  have hwords : (n.toNat + 31) / 32 = n.toNat / 32 := by omega
  split
  · rename_i hpos
    have hbig := hm.len_lt
    refine ⟨?_, ?_, ?_⟩
    · rw [Memory.len_resize _ _ (by omega), hlen']
      have := hm.words
      omega
    · rw [Memory.len_resize _ _ (by omega), hlen']
      exact max_le hm.bound hbound
    · rw [Memory.len_resize _ _ (by omega), hlen', Memory.lastGasCost_resize, hlast, hwords]
      congr 1
      omega
  · rename_i hzero
    have : n.toNat = 0 := by
      rw [gt_iff_lt, UInt64.lt_iff_toNat_lt] at hzero
      simpa using hzero
    refine hm.of_len_eq hlen' ?_
    apply UInt64.toNat_inj.mp
    rw [hlast, hm.lastGasCost, this]
    simp

/-! ### Gas functions that charge for memory -/

/-- `pureMemoryGascost`, which is `gasReturn`, `gasRevert`, `gasMLoad`,
`gasMStore8`, `gasMStore` and `gasCreate`. -/
def pureMemoryGascost (mem : Memory) (memorySize : UInt64) : Except VmError (UInt64 × Memory) :=
  memoryGasCost mem memorySize

/-- The gas functions that charge the memory growth and then `perWord` gas per
word of a length at stack slot `stackpos`: `memoryCopierGas`, `gasSha3` and
`gasCreate2`. -/
def memoryWordGas (stackpos : ℕ) (perWord : UInt64) (stack : Stack) (mem : Memory)
    (memorySize : UInt64) : Except VmError (UInt64 × Memory) :=
  (memoryGasCost mem memorySize).bind fun (gas, mem) =>
    let (words, overflow) := (stack.back stackpos).uint64WithOverflow
    if overflow then .error .gasUintOverflow
    else
      let (words, overflow) := safeMul (toWordSize words) perWord
      if overflow then .error .gasUintOverflow
      else
        let (gas, overflow) := safeAdd gas words
        if overflow then .error .gasUintOverflow else .ok (gas, mem)

/-- `memoryCopierGas(stackpos)`: the gas of `CALLDATACOPY`, `CODECOPY`,
`RETURNDATACOPY` (slot 2) and `EXTCODECOPY` (slot 3). -/
def memoryCopierGas (stackpos : ℕ) : Stack → Memory → UInt64 → Except VmError (UInt64 × Memory) :=
  memoryWordGas stackpos copyGas

/-- `gasSha3`. -/
def gasSha3 : Stack → Memory → UInt64 → Except VmError (UInt64 × Memory) :=
  memoryWordGas 1 sha3WordGas

/-- `gasCreate2`. -/
def gasCreate2 : Stack → Memory → UInt64 → Except VmError (UInt64 × Memory) :=
  memoryWordGas 2 sha3WordGas

/-- `makeGasLog(n)`: the gas of `LOGn`, which checks the data length before it
charges for memory. -/
def makeGasLog (n : UInt64) (stack : Stack) (mem : Memory) (memorySize : UInt64) :
    Except VmError (UInt64 × Memory) :=
  let (requestedSize, overflow) := (stack.back 1).uint64WithOverflow
  if overflow then .error .gasUintOverflow
  else
    (memoryGasCost mem memorySize).bind fun (gas, mem) =>
      let (gas, overflow) := safeAdd gas logGas
      if overflow then .error .gasUintOverflow
      else
        let (gas, overflow) := safeAdd gas (n * logTopicGas)
        if overflow then .error .gasUintOverflow
        else
          let (memorySizeGas, overflow) := safeMul requestedSize logDataGas
          if overflow then .error .gasUintOverflow
          else
            let (gas, overflow) := safeAdd gas memorySizeGas
            if overflow then .error .gasUintOverflow else .ok (gas, mem)

/-- **The word charge is exact**: when `memoryWordGas` succeeds, its memory is
the one `memoryGasCost` left, and its gas is the memory fee plus `perWord`
gas per word, with no product or sum wrapped. -/
theorem memoryWordGas_spec {stackpos : ℕ} {perWord : UInt64} {stack : Stack} {mem : Memory}
    {memorySize gas : UInt64} {mem' : Memory}
    (h : memoryWordGas stackpos perWord stack mem memorySize = .ok (gas, mem')) :
    ∃ fee, memoryGasCost mem memorySize = .ok (fee, mem') ∧
      (stack.back stackpos).isUint64 = true ∧
      gas.toNat = fee.toNat + ((stack.back stackpos).toNat + 31) / 32 * perWord.toNat := by
  unfold memoryWordGas at h
  obtain ⟨⟨fee, m₁⟩, hmem, h⟩ := Except.bind_eq_ok.mp h
  dsimp only [Word.uint64WithOverflow] at h
  split at h
  · simp at h
  rename_i hfit
  simp only [Bool.not_eq_true', Bool.not_eq_false] at hfit
  split at h
  · simp at h
  rename_i hmul
  split at h
  · simp at h
  rename_i hadd
  obtain ⟨rfl, rfl⟩ := Prod.mk.inj (Except.ok.inj h)
  refine ⟨fee, hmem, hfit, ?_⟩
  rw [safeAdd_ok (Bool.eq_false_iff.mpr hadd), safeMul_ok (Bool.eq_false_iff.mpr hmul),
    toWordSize_toNat, Word.toNat_uint64 hfit]

/-- `makeGasLog` leaves the memory `memoryGasCost` left. -/
theorem makeGasLog_mem {n : UInt64} {stack : Stack} {mem : Memory} {memorySize gas : UInt64}
    {mem' : Memory} (h : makeGasLog n stack mem memorySize = .ok (gas, mem')) :
    ∃ fee, memoryGasCost mem memorySize = .ok (fee, mem') := by
  unfold makeGasLog at h
  dsimp only at h
  split at h
  · simp at h
  obtain ⟨⟨fee, m₁⟩, hmem, h⟩ := Except.bind_eq_ok.mp h
  dsimp only at h
  repeat (split at h; · simp at h)
  obtain ⟨-, rfl⟩ := Prod.mk.inj (Except.ok.inj h)
  exact ⟨fee, hmem⟩

end RpcNetwork.Vm
