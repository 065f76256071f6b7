import RpcNetwork.Vm.Analysis

/-!
# Jump destination analysis with Go's bounds checks

`codeBitmap` of `Vm.Analysis` writes with `List.modify`, which ignores an
index past the end.  The source indexes a Go slice, which panics there.
This module runs the same loop with each write checked, a write past the
slice stopping the run with `none`, and shows that the checked run never
stops: every byte `codeBitmap` writes lies inside its `len(code)/8 + 5`
bytes, and the checked run computes the same bitmap
(`codeBitmapChecked_eq`).  Together with `codeSegment_codeBitmap`, the
bitmap marks exactly the immediate bytes of the pushes that sequential
decoding reaches (`codeBitmap_exact`).
-/

namespace RpcNetwork.Vm

namespace Bitvec

/-- `(*bits)[i] |= m`: past the end of the slice, Go panics. -/
def orAt (bits : Bitvec) (i : ℕ) (m : UInt8) : Option Bitvec :=
  if i < bits.length then some (bits.modify i (· ||| m)) else none

/-- `bitvec.set`, with the bounds check of its write. -/
def setChecked (bits : Bitvec) (pos : ℕ) : Option Bitvec :=
  orAt bits (pos / 8) (0x80 >>> (pos % 8).toUInt8)

/-- `bitvec.set8`, with the bounds checks of its two writes. -/
def set8Checked (bits : Bitvec) (pos : ℕ) : Option Bitvec := do
  let bits ← orAt bits (pos / 8) (0xFF >>> (pos % 8).toUInt8)
  orAt bits (pos / 8 + 1) (~~~(0xFF >>> (pos % 8).toUInt8))

end Bitvec

/-- The `set8` loop of `codeBitmap`, its writes checked. -/
def set8LoopChecked : Bitvec → ℕ → ℕ → Option (Bitvec × ℕ × ℕ)
  | bits, pc, numbits + 8 => do
    let bits ← bits.set8Checked pc
    set8LoopChecked bits (pc + 8) numbits
  | bits, pc, numbits => some (bits, pc, numbits)

/-- The `set` loop of `codeBitmap`, its writes checked. -/
def setLoopChecked : Bitvec → ℕ → ℕ → Option (Bitvec × ℕ)
  | bits, pc, 0 => some (bits, pc)
  | bits, pc, numbits + 1 => do
    let bits ← bits.setChecked pc
    setLoopChecked bits (pc + 1) numbits

/-- One iteration of the loop of `codeBitmap`, its writes checked. -/
def codeBitmapStepChecked (code : List UInt8) (bits : Bitvec) (pc : ℕ) (h : pc < code.length) :
    Option (Bitvec × ℕ) :=
  let op := code[pc]
  if isPush op then do
    let numbits := (op - PUSH1 + 1).toNat
    let r ← set8LoopChecked bits (pc + 1) numbits
    setLoopChecked r.1 r.2.1 r.2.2
  else
    some (bits, pc + 1)

/-- The loop of `codeBitmap`, its writes checked, for at most `fuel`
iterations. -/
def codeBitmapLoopChecked (code : List UInt8) : ℕ → Bitvec → ℕ → Option Bitvec
  | 0, bits, _ => some bits
  | fuel + 1, bits, pc =>
    if h : pc < code.length then do
      let r ← codeBitmapStepChecked code bits pc h
      codeBitmapLoopChecked code fuel r.1 r.2
    else some bits

/-- `codeBitmap(code)`, with Go's bounds check on every write. -/
def codeBitmapChecked (code : List UInt8) : Option Bitvec :=
  codeBitmapLoopChecked code code.length (List.replicate (code.length / 8 + 1 + 4) 0) 0

/-! ### Every write is in bounds -/

section Checked

open ByteBitmap

namespace Bitvec

theorem orAt_of_lt {bits : Bitvec} {i : ℕ} (m : UInt8) (h : i < bits.length) :
    bits.orAt i m = some (bits.modify i (· ||| m)) :=
  if_pos h

theorem setChecked_of_lt {bits : Bitvec} {pos : ℕ} (h : pos / 8 < bits.length) :
    bits.setChecked pos = some (bits.set pos) :=
  orAt_of_lt _ h

theorem set8Checked_of_lt {bits : Bitvec} {pos : ℕ} (h : pos / 8 + 1 < bits.length) :
    bits.set8Checked pos = some (bits.set8 pos) := by
  rw [set8Checked, orAt_of_lt _ (by omega)]
  exact orAt_of_lt _ (by rw [List.length_modify]; exact h)

end Bitvec

/-- The checked `set8` loop stays in bounds when the bitmap has room up to
its last byte. -/
theorem set8LoopChecked_eq :
    ∀ {bits : Bitvec} {pc numbits : ℕ}, (pc + numbits) / 8 < bits.length →
      set8LoopChecked bits pc numbits = some (set8Loop bits pc numbits)
  -- fewer than eight bits left: the loop stops at once
  | _, _, 0, _ | _, _, 1, _ | _, _, 2, _ | _, _, 3, _ | _, _, 4, _ | _, _, 5, _ | _, _, 6, _
  | _, _, 7, _ => rfl
  | bits, pc, numbits + 8, hroom => by
    -- the first `set8` writes the bytes of `pc` and `pc + 8`
    have hlen : (bits.set8 pc).length = bits.length := length_setRun8 bits pc
    rw [set8LoopChecked, set8Loop, Bitvec.set8Checked_of_lt (by omega)]
    exact set8LoopChecked_eq (by rw [hlen]; omega)

/-- The checked `set` loop stays in bounds when the bitmap has room up to its
last byte. -/
theorem setLoopChecked_eq {bits : Bitvec} {pc numbits : ℕ}
    (hroom : (pc + numbits) / 8 < bits.length) :
    setLoopChecked bits pc numbits = some (setLoop bits pc numbits) := by
  fun_induction setLoop bits pc numbits with
  | case1 bits pc => rfl
  | case2 bits pc numbits ih =>
    have hset : bits.setChecked pc = some (bits.set pc) := Bitvec.setChecked_of_lt (by omega)
    have hlen : (bits.set pc).length = bits.length := length_setBit bits pc
    rw [setLoopChecked, hset]
    exact ih (by rw [hlen]; omega)

/-- One checked iteration stays in bounds when the bitmap has room up to the
end of the instruction at `pc`. -/
theorem codeBitmapStepChecked_eq {code : List UInt8} {bits : Bitvec} {pc : ℕ} (h : pc < code.length)
    (hroom : (pc + instrWidth code[pc]) / 8 < bits.length) :
    codeBitmapStepChecked code bits pc h = some (codeBitmapStep code bits pc h) := by
  unfold codeBitmapStepChecked codeBitmapStep
  dsimp only
  split
  · rename_i hpush
    have hn := numbits_eq hpush
    rw [set8LoopChecked_eq (by omega)]
    show setLoopChecked _ _ _ = _
    rw [set8Loop_pc]
    dsimp only
    exact setLoopChecked_eq (by rw [length_set8Loop]; omega)
  · rfl

theorem length_codeBitmapStep (code : List UInt8) (bits : Bitvec) (pc : ℕ) (h : pc < code.length) :
    (codeBitmapStep code bits pc h).1.length = bits.length := by
  unfold codeBitmapStep
  dsimp only
  split
  · rw [length_setLoop, length_set8Loop]
  · rfl

theorem length_codeBitmapLoop (code : List UInt8) :
    ∀ (fuel : ℕ) (bits : Bitvec) (pc : ℕ), (codeBitmapLoop code fuel bits pc).length = bits.length
  | 0, _, _ => rfl
  | fuel + 1, bits, pc => by
    unfold codeBitmapLoop
    split
    · rename_i h
      rw [length_codeBitmapLoop code fuel, length_codeBitmapStep]
    · rfl

/-- **The checked loop never writes past the bitmap**: with the bitmap's
length kept at `len(code)/8 + 5`, each iteration has room for what it
writes (`bitmap_room`). -/
theorem codeBitmapLoopChecked_eq {code : List UInt8} :
    ∀ (fuel : ℕ) (bits : Bitvec) (pc : ℕ), bits.length = code.length / 8 + 1 + 4 →
      codeBitmapLoopChecked code fuel bits pc = some (codeBitmapLoop code fuel bits pc)
  | 0, _, _, _ => rfl
  | fuel + 1, bits, pc, hlen => by
    unfold codeBitmapLoopChecked codeBitmapLoop
    split
    · rename_i h
      have hroom := hlen ▸ bitmap_room h
      rw [codeBitmapStepChecked_eq h hroom]
      exact codeBitmapLoopChecked_eq fuel _ _ ((length_codeBitmapStep code bits pc h).trans hlen)
    · rfl

theorem codeBitmapChecked_eq (code : List UInt8) : codeBitmapChecked code = some (codeBitmap code) :=
  codeBitmapLoopChecked_eq _ _ _ List.length_replicate

end Checked

/-! ### The immediates of the reached pushes -/

section Decoding

variable {code : List UInt8}

/-- **Every position of the code is reached, or lies inside the immediate of
a reached push.**  By induction on the position: the position after a
reached one is the next instruction or inside an immediate, and the position
after one inside an immediate is inside it or the next instruction. -/
theorem Reaches.or_inside :
    ∀ pos ≤ code.length, Reaches code pos ∨
      ∃ pc, ∃ h : pc < code.length, Reaches code pc ∧ pc < pos ∧ pos < pc + instrWidth code[pc]
  | 0, _ => .inl .start
  | pos + 1, hpos => by
    rcases Reaches.or_inside pos (by omega) with hpc | ⟨pc, hlt, hpc, hlo, hhi⟩
    · -- `pos` starts an instruction
      have hnext := hpc.next (by omega)
      by_cases hw : instrWidth code[pos] = 1
      · rw [hw] at hnext
        exact .inl hnext
      · have := instrWidth_pos code[pos]
        exact .inr ⟨pos, by omega, hpc, by omega, by omega⟩
    · -- `pos` lies inside the instruction at `pc`
      by_cases hend : pos + 1 = pc + instrWidth code[pc]
      · exact .inl (hend ▸ hpc.next hlt)
      · exact .inr ⟨pc, hlt, hpc, by omega, by omega⟩

/-- An instruction wider than one byte is a push, and its width is its
immediate and the opcode. -/
theorem isPush_of_one_lt_instrWidth {op : OpCode} (h : 1 < instrWidth op) :
    isPush op = true ∧ instrWidth op = (op - PUSH1).toNat + 2 := by
  unfold instrWidth at *
  split at h
  · rename_i hpush
    exact ⟨hpush, if_pos hpush⟩
  · omega

/-- A position of the code is not reached exactly when it lies in the
immediate of a reached `PUSHn`: one of the `n` bytes after it. -/
theorem not_reaches_iff {pos : ℕ} (hpos : pos < code.length) :
    ¬ Reaches code pos ↔ ∃ pc op, Reaches code pc ∧ code[pc]? = some op ∧ isPush op = true ∧
      pc < pos ∧ pos ≤ pc + ((op - PUSH1).toNat + 1) := by
  constructor
  · intro hnot
    rcases Reaches.or_inside pos hpos.le with hreach | ⟨pc, hlt, hpc, hlo, hhi⟩
    · exact absurd hreach hnot
    · have hwide : 1 < instrWidth code[pc] := by omega
      obtain ⟨hpush, hw⟩ := isPush_of_one_lt_instrWidth hwide
      exact ⟨pc, code[pc], hpc, List.getElem?_eq_getElem hlt, hpush, hlo, by omega⟩
  · rintro ⟨pc, op, hpc, hop, hpush, hlo, hhi⟩
    obtain ⟨hlt, rfl⟩ := List.getElem?_eq_some_iff.mp hop
    have hw : instrWidth code[pc] = (code[pc] - PUSH1).toNat + 2 := if_pos hpush
    exact Reaches.not_of_inside hpc hlt hlo (by omega)

end Decoding

/-- **`codeBitmap` is exact and stays in bounds**: run with Go's bounds
checks it never writes past its `len(code)/8 + 5` bytes, and at every
position of the code `codeSegment` is false exactly when the position is one
of the `n` immediate bytes of a `PUSHn` that sequential decoding from `0`
reaches. -/
theorem codeBitmap_exact (code : List UInt8) :
    codeBitmapChecked code = some (codeBitmap code) ∧
    (codeBitmap code).length = code.length / 8 + 1 + 4 ∧
    ∀ pos < code.length, ((codeBitmap code).codeSegment pos = false ↔
      ∃ pc op, Reaches code pc ∧ code[pc]? = some op ∧ isPush op = true ∧
        pc < pos ∧ pos ≤ pc + ((op - PUSH1).toNat + 1)) := by
  refine ⟨codeBitmapChecked_eq code, ?_, fun pos hpos => ?_⟩
  · rw [codeBitmap, length_codeBitmapLoop, List.length_replicate]
  · rw [← not_reaches_iff hpos, ← codeSegment_codeBitmap code hpos, Bool.not_eq_true]

end RpcNetwork.Vm
