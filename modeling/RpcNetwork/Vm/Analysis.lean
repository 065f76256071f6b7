import RpcNetwork.Lib.ByteBitmap

/-!
# Jump destination analysis

`codeBitmap` (`analysis.go`) marks, one bit per code byte, the bytes that are
immediate data of a `PUSHn`; `Contract.isCode` reads that bitmap to decide
whether a jump target is an opcode.  The loop walks the code from `pc = 0`:
an opcode other than a push moves `pc` by one, a `PUSHn` marks the `n` bytes
after it (eight at a time with `set8` while at least eight remain, then one at
a time with `set`) and moves `pc` past them.

## Design notes

The bitmap is a byte list and its bit operations are those of
`ByteBitmap`.  The loop runs on `ℕ`: `pc` stays below `len(code) + 33`, so the
`uint64` of the source never wraps.  The bitmap is `len(code)/8 + 1 + 4` bytes
long, and every byte the loop writes is inside it (`bitmap_room`); reads past
the end, which the source would not survive, read as zero here and never
happen at a position inside the code.
-/

namespace RpcNetwork.Vm

/-- An opcode byte. -/
abbrev OpCode := UInt8

/-- `PUSH1`; `PUSHn` is `PUSH1 + n - 1`. -/
def PUSH1 : OpCode := 0x60
/-- `PUSH32`, the widest push. -/
def PUSH32 : OpCode := 0x7f

/-- `op >= PUSH1 && op <= PUSH32`. -/
def isPush (op : OpCode) : Bool := PUSH1 ≤ op && op ≤ PUSH32

/-- `bitvec`: a set bit marks a byte of push data. -/
abbrev Bitvec := List UInt8

namespace Bitvec

/-- `bitvec.set`: mark the byte at `pos` as data. -/
def set (bits : Bitvec) (pos : ℕ) : Bitvec := ByteBitmap.setBit bits pos

/-- `bitvec.set8`: mark the eight bytes from `pos` as data. -/
def set8 (bits : Bitvec) (pos : ℕ) : Bitvec := ByteBitmap.setRun8 bits pos

/-- `bitvec.codeSegment`: the byte at `pos` is not data. -/
def codeSegment (bits : Bitvec) (pos : ℕ) : Bool := !ByteBitmap.test bits pos

end Bitvec

/-- `for ; numbits >= 8; numbits -= 8 { bits.set8(pc); pc += 8 }`; returns
the bitmap, `pc` and `numbits`. -/
def set8Loop : Bitvec → ℕ → ℕ → Bitvec × ℕ × ℕ
  | bits, pc, numbits + 8 => set8Loop (bits.set8 pc) (pc + 8) numbits
  | bits, pc, numbits => (bits, pc, numbits)

/-- `for ; numbits > 0; numbits-- { bits.set(pc); pc++ }`; returns the bitmap
and `pc`. -/
def setLoop : Bitvec → ℕ → ℕ → Bitvec × ℕ
  | bits, pc, 0 => (bits, pc)
  | bits, pc, numbits + 1 => setLoop (bits.set pc) (pc + 1) numbits

/-- One iteration of the `for` loop of `codeBitmap`, at a `pc` inside the
code: the new bitmap and the new `pc`. -/
def codeBitmapStep (code : List UInt8) (bits : Bitvec) (pc : ℕ) (h : pc < code.length) :
    Bitvec × ℕ :=
  let op := code[pc]
  if isPush op then
    let numbits := (op - PUSH1 + 1).toNat
    let r := set8Loop bits (pc + 1) numbits
    setLoop r.1 r.2.1 r.2.2
  else
    (bits, pc + 1)

/-- The `for pc < len(code)` loop of `codeBitmap`, run for at most `fuel`
iterations. -/
def codeBitmapLoop (code : List UInt8) : ℕ → Bitvec → ℕ → Bitvec
  | 0, bits, _ => bits
  | fuel + 1, bits, pc =>
    if h : pc < code.length then
      let r := codeBitmapStep code bits pc h
      codeBitmapLoop code fuel r.1 r.2
    else bits

/-- `codeBitmap`: the bitmap starts as `len(code)/8 + 1 + 4` zero bytes, and
`len(code)` iterations are enough since each moves `pc` forward. -/
def codeBitmap (code : List UInt8) : Bitvec :=
  codeBitmapLoop code code.length (List.replicate (code.length / 8 + 1 + 4) 0) 0

/-! ### Sequential decoding -/

/-- The length of the instruction that starts with `op`: one byte, and the
`n` bytes of immediate data after a `PUSHn`. -/
def instrWidth (op : OpCode) : ℕ := if isPush op then (op - PUSH1).toNat + 2 else 1

/-- The positions sequential decoding reaches: `0`, and from every reached
position inside the code, the start of the next instruction. -/
inductive Reaches (code : List UInt8) : ℕ → Prop where
  | start : Reaches code 0
  | next {pc : ℕ} (h : Reaches code pc) (hlt : pc < code.length) :
      Reaches code (pc + instrWidth code[pc])

theorem instrWidth_pos (op : OpCode) : 0 < instrWidth op := by
  unfold instrWidth
  split <;> omega

theorem instrWidth_le (op : OpCode) : instrWidth op ≤ 33 := by
  unfold instrWidth isPush PUSH1 PUSH32
  split
  · rename_i h
    simp only [Bool.and_eq_true, decide_eq_true_eq] at h
    have : (op - 0x60).toNat = op.toNat - 0x60 := by
      rw [UInt8.toNat_sub_of_le _ _ h.1]; rfl
    have h2 : op.toNat ≤ 0x7f := UInt8.le_iff_toNat_le.mp h.2
    omega
  · omega

/-- The immediate count the loop uses, `op - PUSH1 + 1` in bytes. -/
theorem numbits_eq {op : OpCode} (h : isPush op = true) :
    (op - PUSH1 + 1).toNat + 1 = instrWidth op := by
  unfold instrWidth
  rw [if_pos h]
  unfold isPush PUSH1 PUSH32 at *
  simp only [Bool.and_eq_true, decide_eq_true_eq] at h
  have h1 : (op - 0x60).toNat = op.toNat - 0x60 := by
    rw [UInt8.toNat_sub_of_le _ _ h.1]; rfl
  have h2 : op.toNat ≤ 0x7f := UInt8.le_iff_toNat_le.mp h.2
  rw [UInt8.toNat_add, h1]
  simp only [UInt8.reduceToNat]
  omega

section Decoding

variable {code : List UInt8}

/-- A reached position strictly inside the instruction at a reached `c` is
impossible, given that the positions reached below `c` skip over their own
instructions. -/
theorem Reaches.not_inside {c : ℕ} (hlt : c < code.length)
    (hbelow : ∀ a (hlt : a < code.length), Reaches code a → a < c → a + instrWidth code[a] ≤ c) :
    ∀ {a}, Reaches code a → ¬ (c < a ∧ a < c + instrWidth code[c]) := by
  intro a ha
  induction ha with
  | start => omega
  | @next d hd hltd ih =>
    -- compare the instruction `d` that leads to `a` with `c`
    intro ⟨hca, hac⟩
    rcases Nat.lt_trichotomy d c with hdc | rfl | hcd
    · have := hbelow d hltd hd hdc
      omega
    · omega
    · have hw := instrWidth_pos code[d]
      exact ih ⟨hcd, by omega⟩

/-- **Decoding is deterministic**: between a reached position inside the code
and any later reached one lies the whole instruction starting at the first. -/
theorem Reaches.gap {a b : ℕ} (ha : Reaches code a) (hb : Reaches code b) (hab : a < b)
    (hlt : a < code.length) : a + instrWidth code[a] ≤ b := by
  induction hb generalizing a with
  | start => omega
  | @next c hc hltc ih =>
    rcases Nat.lt_trichotomy a c with hac | rfl | hca
    · have := ih ha hac hlt
      omega
    · omega
    · exact absurd ⟨hca, hab⟩
        (Reaches.not_inside hltc (fun a' hlt' ha' hac' => ih ha' hac' hlt') ha)

/-- One step of decoding, from the opcode as `code[pc]?` reads it. -/
theorem Reaches.next_of_some {pc : ℕ} {op : OpCode} (h : Reaches code pc)
    (hop : code[pc]? = some op) : Reaches code (pc + instrWidth op) := by
  obtain ⟨hlt, rfl⟩ := List.getElem?_eq_some_iff.mp hop
  exact h.next hlt

/-- Positions strictly inside an instruction are not reached. -/
theorem Reaches.not_of_inside {a q : ℕ} (ha : Reaches code a) (hlt : a < code.length)
    (haq : a < q) (hq : q < a + instrWidth code[a]) : ¬ Reaches code q := by
  intro hq'
  have := Reaches.gap ha hq' haq hlt
  omega

end Decoding

/-! ### The loop -/

section Loop

open ByteBitmap

/-- The marking loops leave the bitmap's length alone. -/
@[simp] theorem length_set8Loop (bits : Bitvec) (pc numbits : ℕ) :
    (set8Loop bits pc numbits).1.length = bits.length := by
  fun_induction set8Loop bits pc numbits <;> simp_all [Bitvec.set8]

@[simp] theorem length_setLoop (bits : Bitvec) (pc numbits : ℕ) :
    (setLoop bits pc numbits).1.length = bits.length := by
  fun_induction setLoop bits pc numbits <;> simp_all [Bitvec.set]

theorem set8Loop_pc (bits : Bitvec) (pc numbits : ℕ) :
    (set8Loop bits pc numbits).2 = (pc + 8 * (numbits / 8), numbits % 8) := by
  fun_induction set8Loop bits pc numbits with
  | case1 bits pc numbits ih =>
    rw [ih]
    congr 1 <;> omega
  | case2 bits pc numbits h =>
    have : numbits < 8 := by
      by_contra hge
      exact h (numbits - 8) (by omega)
    simp [Nat.div_eq_of_lt this, Nat.mod_eq_of_lt this]

theorem setLoop_pc (bits : Bitvec) (pc numbits : ℕ) :
    (setLoop bits pc numbits).2 = pc + numbits := by
  fun_induction setLoop bits pc numbits <;> simp_all; omega

/-- The `set8` loop marks `pc, …, pc + 8 * (numbits / 8) - 1`, given room for
its last byte. -/
theorem test_set8Loop {bits : Bitvec} {pc numbits : ℕ}
    (hroom : (pc + numbits) / 8 < bits.length) (q : ℕ) :
    test (set8Loop bits pc numbits).1 q =
      (test bits q || decide (pc ≤ q ∧ q < pc + 8 * (numbits / 8))) := by
  fun_induction set8Loop bits pc numbits generalizing q with
  | case1 bits pc numbits ih =>
    rw [ih (by simpa [Bitvec.set8] using (show (pc + 8 + numbits) / 8 < bits.length by omega)),
      Bitvec.set8, test_setRun8 (by omega)]
    rw [Bool.or_assoc, ← Bool.decide_or]
    congr 1
    simp only [decide_eq_decide]
    omega
  | case2 bits pc numbits h =>
    have : numbits < 8 := by
      by_contra hge
      exact h (numbits - 8) (by omega)
    simp [Nat.div_eq_of_lt this]

/-- The `set` loop marks `pc, …, pc + numbits - 1`, given room for its last
byte. -/
theorem test_setLoop {bits : Bitvec} {pc numbits : ℕ}
    (hroom : (pc + numbits) / 8 < bits.length) (q : ℕ) :
    test (setLoop bits pc numbits).1 q = (test bits q || decide (pc ≤ q ∧ q < pc + numbits)) := by
  fun_induction setLoop bits pc numbits generalizing q with
  | case1 bits pc => simp
  | case2 bits pc numbits ih =>
    rw [Nat.succ_eq_add_one] at hroom
    rw [ih (by simpa [Bitvec.set] using (show (pc + 1 + numbits) / 8 < bits.length by omega)),
      Bitvec.set, test_setBit (by omega)]
    rw [Bool.or_assoc, Bool.beq_eq_decide_eq, ← Bool.decide_or]
    congr 1
    simp only [decide_eq_decide]
    omega

/-- **One iteration** moves `pc` over the instruction at `pc` and marks the
bytes inside it after the first, given room up to that instruction's end. -/
theorem codeBitmapStep_spec {code : List UInt8} {bits : Bitvec} {pc : ℕ} (h : pc < code.length)
    (hroom : (pc + instrWidth code[pc]) / 8 < bits.length) :
    (codeBitmapStep code bits pc h).2 = pc + instrWidth code[pc] ∧
    (codeBitmapStep code bits pc h).1.length = bits.length ∧
    ∀ q, test (codeBitmapStep code bits pc h).1 q =
      (test bits q || decide (pc < q ∧ q < pc + instrWidth code[pc])) := by
  unfold codeBitmapStep
  dsimp only
  split
  · rename_i hpush
    have hn := numbits_eq hpush
    generalize (code[pc] - PUSH1 + 1).toNat = n at hn ⊢
    simp only [length_setLoop, length_set8Loop, set8Loop_pc, setLoop_pc, true_and]
    refine ⟨by omega, fun q => ?_⟩
    rw [test_setLoop (by rw [length_set8Loop]; omega), test_set8Loop (by omega), Bool.or_assoc,
      ← Bool.decide_or]
    congr 1
    simp only [decide_eq_decide]
    omega
  · rename_i hpush
    have hw : instrWidth code[pc] = 1 := by simp [instrWidth, hpush]
    refine ⟨by rw [hw], rfl, fun q => ?_⟩
    -- a one-byte instruction marks nothing
    have hq : ¬ (pc < q ∧ q < pc + instrWidth code[pc]) := by omega
    simp only [hq, decide_false, Bool.or_false]

/-- The bitmap has room for everything the loop writes while `pc` is inside
the code: `len(code)/8 + 1 + 4` bytes cover an immediate of up to 32 bytes
after the last opcode. -/
theorem bitmap_room {code : List UInt8} {pc : ℕ} (h : pc < code.length) :
    (pc + instrWidth code[pc]) / 8 < code.length / 8 + 1 + 4 := by
  have := instrWidth_le code[pc]
  omega

/-- What the loop keeps at each `pc` it reaches: `pc` is reached by decoding,
every byte of the code below `pc` is marked exactly when decoding does not
reach it, nothing at or above `pc` is marked, and the bitmap keeps its size. -/
structure BitmapInv (code : List UInt8) (bits : Bitvec) (pc : ℕ) : Prop where
  reaches : Reaches code pc
  below : ∀ q < pc, q < code.length → (test bits q = true ↔ ¬ Reaches code q)
  above : ∀ q, pc ≤ q → test bits q = false
  length : bits.length = code.length / 8 + 1 + 4

theorem bitmapInv_start (code : List UInt8) :
    BitmapInv code (List.replicate (code.length / 8 + 1 + 4) 0) 0 where
  reaches := .start
  below := fun _ h => absurd h (Nat.not_lt_zero _)
  above := fun _ _ => test_replicate_zero _ _
  length := List.length_replicate

/-- **Step lemma**: one iteration keeps the invariant. -/
theorem BitmapInv.step {code : List UInt8} {bits : Bitvec} {pc : ℕ}
    (hinv : BitmapInv code bits pc) (h : pc < code.length) :
    BitmapInv code (codeBitmapStep code bits pc h).1 (codeBitmapStep code bits pc h).2 := by
  obtain ⟨hpc, hlen, htest⟩ :=
    @codeBitmapStep_spec _ bits _ h (hinv.length ▸ bitmap_room h)
  rw [hpc]
  refine ⟨.next hinv.reaches h, fun q hq hqlen => ?_, fun q hq => ?_, hlen.trans hinv.length⟩
  · rw [htest]
    rcases Nat.lt_trichotomy q pc with hlt | rfl | hgt
    · simpa [show ¬ (pc < q) by omega] using hinv.below q hlt hqlen
    · simp [hinv.above q le_rfl, hinv.reaches]
    · -- strictly inside the instruction at `pc`: marked, and not reached
      simp only [hinv.above q hgt.le, Bool.false_or, decide_eq_true_eq]
      exact ⟨fun _ => Reaches.not_of_inside hinv.reaches h hgt hq, fun _ => ⟨hgt, hq⟩⟩
  · rw [htest, hinv.above q (by omega)]
    simp only [Bool.false_or, decide_eq_false_iff_not, not_and, not_lt]
    omega

/-- **Run lemma**: with fuel for the rest of the code, the loop ends with every
byte of the code marked exactly when decoding does not reach it. -/
theorem BitmapInv.loop {code : List UInt8} :
    ∀ (fuel : ℕ) {bits : Bitvec} {pc : ℕ}, BitmapInv code bits pc → code.length ≤ pc + fuel →
      ∀ q < code.length, (test (codeBitmapLoop code fuel bits pc) q = true ↔ ¬ Reaches code q)
  | 0, bits, pc, hinv, hfuel, q, hq => by
    simpa [codeBitmapLoop] using hinv.below q (by omega) hq
  | fuel + 1, bits, pc, hinv, hfuel, q, hq => by
    unfold codeBitmapLoop
    split
    · rename_i h
      have hpc := (@codeBitmapStep_spec _ bits _ h (hinv.length ▸ bitmap_room h)).1
      have hw := instrWidth_pos code[pc]
      exact BitmapInv.loop fuel (hinv.step h) (by omega) q hq
    · exact hinv.below q (by omega) hq

end Loop

/-- **The bitmap agrees with decoding**: inside the code, `codeSegment` of
`codeBitmap` holds exactly at the positions sequential decoding reaches. -/
theorem codeSegment_codeBitmap (code : List UInt8) {pos : ℕ} (h : pos < code.length) :
    (codeBitmap code).codeSegment pos = true ↔ Reaches code pos := by
  have := BitmapInv.loop code.length (bitmapInv_start code) (by omega) pos h
  unfold Bitvec.codeSegment codeBitmap
  rw [Bool.not_eq_true', ← Bool.not_eq_true, this, not_not]

end RpcNetwork.Vm
