import RpcNetwork.Vm.Interpreter

/-!
# Where the program counter goes

An instruction moves `pc` past its immediate, to an accepted `JUMPDEST` or
`BEGINSUB`, or after a saved `JUMPSUB`; with sound tables and caches each is
a decoding boundary, so every fetch is one or past the end.

`JUMPSUB` saves `uint32(pc)`, so this needs the code to be at most `2^32`
bytes long: a `JUMPSUB` at `2^32` saves `0`, and the `RETURNSUB` that pops it
resumes at `1`, inside the immediate of a `PUSH` at `0`
(`returnSub_into_push_data`).

## Design notes

`wrapCode` is over four billion bytes, so it is read only through
`wrapCode_length`, the index lemmas and `codeSegment_codeBitmap`.  The converse jump checks
(`Contract.validJumpdest_of_reaches`) and `step_quiet` let each round be
proved from the rounds' few facts without unfolding the loop on this code.
-/

namespace RpcNetwork.Vm

open Memory (int64)

/-! ### How an execution function moves `pc` -/

theorem binaryOp_pc {g : Word → Word → Word} {f f' : Frame} {res : List UInt8}
    {err : Option VmError} (h : binaryOp g f = .ok (f', res, err)) :
    f'.pc = f.pc ∧ f'.rstack = f.rstack := by
  cases h
  exact ⟨rfl, rfl⟩

theorem copyOp_pc {data : List UInt8} {dst src len pops : ℕ} {f f' : Frame}
    {res : List UInt8} {err : Option VmError}
    (h : copyOp data dst src len pops f = .ok (f', res, err)) :
    f'.pc = f.pc ∧ f'.rstack = f.rstack := by
  obtain ⟨_, -, hrest⟩ := Except.bind_eq_ok.mp h
  obtain ⟨_, -, hpure⟩ := Except.bind_eq_ok.mp hrest
  cases Except.pure_eq_ok.mp hpure
  exact ⟨rfl, rfl⟩

theorem callOp_pc {o : Oracle} {inOffset inSize retOffset retSize : ℕ} {f f' : Frame}
    {res : List UInt8} {err : Option VmError}
    (h : callOp o inOffset inSize retOffset retSize f = .ok (f', res, err)) :
    f'.pc = f.pc ∧ f'.rstack = f.rstack := by
  obtain ⟨_, -, hrest⟩ := Except.bind_eq_ok.mp h
  obtain ⟨_, -, hpure⟩ := Except.bind_eq_ok.mp hrest
  cases Except.pure_eq_ok.mp hpure
  exact ⟨rfl, rfl⟩

/-- **An instruction that does not set `pc`** moves it over its immediate
bytes, which the loop's increment then completes, and leaves the return
stack alone. -/
theorem execute_pc_straight {it : EVMInterpreter} {o : Oracle} {e : ExecutionFunc}
    {f f' : Frame} {res : List UInt8} {err : Option VmError} (hs : e.setsPc = false)
    (h : execute it o e f = .ok (f', res, err)) :
    f'.pc = f.pc + UInt64.ofNat e.pushSize ∧ f'.rstack = f.rstack := by
  cases e <;> simp only [ExecutionFunc.setsPc, Bool.true_eq_false] at hs <;>
    simp only [execute] at h
  case opAdd | opSub | opMul | opDiv | opLt | opGt | opEq | opAnd | opOr | opXor =>
    simpa [ExecutionFunc.pushSize] using binaryOp_pc h
  case opCallDataCopy | opCodeCopy | opExtCodeCopy =>
    simpa [ExecutionFunc.pushSize] using copyOp_pc h
  case opCall | opCallCode | opDelegateCall | opStaticCall =>
    simpa [ExecutionFunc.pushSize] using callOp_pc h
  case opSha3 | opMload | opMstore | opMstore8 | opReturn | opRevert | makeLog | opCreate |
      opCreate2 | makePush =>
    obtain ⟨_, -, h⟩ := Except.map_eq_ok.mp h
    cases h
    simp [ExecutionFunc.pushSize]
  case opReturnDataCopy =>
    split_ifs at h
    · cases h
      simp [ExecutionFunc.pushSize]
    · cases h
      simp [ExecutionFunc.pushSize]
    · obtain ⟨_, -, hrest⟩ := Except.bind_eq_ok.mp h
      obtain ⟨_, -, hpure⟩ := Except.bind_eq_ok.mp hrest
      cases Except.pure_eq_ok.mp hpure
      simp [ExecutionFunc.pushSize]
  -- the push of one byte, and the rest, which leave `pc` where it is
  all_goals
    cases h
    simp [ExecutionFunc.pushSize]

/-- The instructions that set `pc` have no immediate bytes. -/
theorem pushSize_of_setsPc {e : ExecutionFunc} (hs : e.setsPc = true) : e.pushSize = 0 := by
  cases e <;> simp_all [ExecutionFunc.setsPc, ExecutionFunc.pushSize]

/-- A jump that went on was to a target `validJumpdest` accepted. -/
theorem jumpTo_next {pos : Word} {pops : ℕ} {f f' : Frame} {res : List UInt8}
    (h : jumpTo pos pops f = .ok (f', res, none)) :
    (f.contract.validJumpdest pos).1 = true ∧ f'.pc = pos.uint64 ∧ f'.rstack = f.rstack := by
  unfold jumpTo at h
  generalize hv : f.contract.validJumpdest pos = r at h
  obtain ⟨valid, contract⟩ := r
  cases valid
  · cases h
  · cases h
    exact ⟨rfl, rfl, rfl⟩

/-- **The instructions that set `pc`**, when they go on: a jump lands on a
target `validJumpdest` accepted, a `JUMPI` not taken on the next position,
`JUMPSUB` past a target `validJumpSubdest` accepted, saving `uint32(pc)`,
and `RETURNSUB` after the saved position it pops. -/
theorem execute_sets_pc {it : EVMInterpreter} {o : Oracle} {e : ExecutionFunc} {f f' : Frame}
    {res : List UInt8} (hs : e.setsPc = true) (h : execute it o e f = .ok (f', res, none)) :
    (∃ pos, (f.contract.validJumpdest pos).1 = true ∧ f'.pc = pos.uint64 ∧
      f'.rstack = f.rstack) ∨
    (f'.pc = f.pc + 1 ∧ f'.rstack = f.rstack) ∨
    (∃ udest, (f.contract.validJumpSubdest udest).1 = true ∧ f'.pc = udest + 1 ∧
      f'.rstack = f.pc.toUInt32 :: f.rstack) ∨
    (∃ r, f.rstack = r :: f'.rstack ∧ f'.pc = r.toUInt64 + 1) := by
  cases e <;> simp only [ExecutionFunc.setsPc, Bool.false_eq_true] at hs <;>
    simp only [execute] at h
  case opJump => exact .inl ⟨_, jumpTo_next h⟩
  case opJumpi =>
    split at h
    · exact .inl ⟨_, jumpTo_next h⟩
    · cases h
      exact .inr (.inl ⟨rfl, rfl⟩)
  case opJumpSub =>
    -- every refusal returns an error
    split_ifs at h with hfull hpos hvalid
    · cases h
    · cases h
    · cases h
    · cases h
      simp only [Bool.not_eq_true', Bool.not_eq_false] at hvalid
      exact .inr (.inr (.inl ⟨_, hvalid, rfl, rfl⟩))
  case opReturnSub =>
    split at h
    · cases h
    · rename_i r rs hrs
      cases h
      exact .inr (.inr (.inr ⟨r, hrs, rfl⟩))

/-! ### The invariant -/

/-- Where `pc` may be in a run of `code`: past its end or at a position
sequential decoding reaches; and every saved return address is one whose next
position decoding reaches. -/
structure PcInv (code : List UInt8) (f : Frame) : Prop where
  pc : code.length ≤ f.pc.toNat ∨ Reaches code f.pc.toNat
  rstack : ∀ r ∈ f.rstack, Reaches code (r.toNat + 1)

/-- A small step forward from a position below `2^32` does not wrap. -/
theorem toNat_add_ofNat {x : UInt64} {k : ℕ} (h : x.toNat + k < 2 ^ 64) :
    (x + UInt64.ofNat k).toNat = x.toNat + k := by
  rw [toNat_add_of_lt] <;> rw [UInt64.toNat_ofNat', Nat.mod_eq_of_lt (by omega)]
  exact h

/-- **One round keeps `PcInv`** on code of at most `2^32` bytes, with a sound
table and sound caches. -/
theorem step_pcInv {it : EVMInterpreter} (hjt : TableSound it.jumpTable) {code : List UInt8}
    (hlen : code.length ≤ 2 ^ 32) {f : Frame} (hc : f.contract.code = code)
    (hs : f.contract.AnalysisSound) (hinv : PcInv code f) {o : Oracle} {f' : Frame}
    (h : step it o f = .next f') : PcInv code f' := by
  obtain ⟨operation, f₁, f₂, res, hprep, hexec, hhalt, -, -, -, hrs, hpc'⟩ := step_next h
  obtain ⟨hop, hpc₁, -, hrs₁, ⟨hcode₁, -, hsound₁⟩, -⟩ := prepare_spec hprep
  have hop' : it.jumpTable (f.contract.getOp f.pc) = some operation := hop
  obtain ⟨-, -, hjumps, hwidth, hstop⟩ := hjt _ _ hop'
  have hc₁ : f₁.contract.code = code := hcode₁.trans hc
  -- past the end of the code the opcode is `STOP`, which halts
  have hin : f.pc.toNat < code.length := by
    by_contra hge
    rw [getOp_of_le (by rw [hc]; omega)] at hop' hstop
    rw [(hstop rfl).2] at hhalt
    cases hhalt
  have hreach : Reaches code f.pc.toNat := hinv.pc.resolve_left (by omega)
  have hfetch : f.contract.getOp f.pc = code[f.pc.toNat] := by
    rw [getOp_of_lt (by rw [hc]; exact hin)]
    simp only [hc]
  rw [hfetch] at hwidth
  have hpc32 : f.pc.toNat < 2 ^ 32 := by omega
  have hrstack : ∀ r ∈ f₁.rstack, Reaches code (r.toNat + 1) := by
    rw [hrs₁]
    exact hinv.rstack
  cases hsets : operation.execute.setsPc
  · -- straight on: over the instruction and its immediate bytes
    obtain ⟨hpc₂, hrs₂⟩ := execute_pc_straight hsets hexec
    simp only [hjumps, hsets, Bool.false_eq_true, if_false] at hpc'
    have hk := instrWidth_le code[f.pc.toNat]
    have hnext : f'.pc.toNat = f.pc.toNat + instrWidth code[f.pc.toNat] := by
      have h₁ : (f.pc + UInt64.ofNat operation.execute.pushSize).toNat =
          f.pc.toNat + operation.execute.pushSize := toNat_add_ofNat (by omega)
      rw [hpc', hpc₂, hpc₁]
      show (f.pc + UInt64.ofNat operation.execute.pushSize + 1).toNat = _
      rw [toNat_add_of_lt (by rw [h₁]; simp; omega), h₁]
      simp only [UInt64.reduceToNat]
      omega
    refine ⟨.inr ?_, ?_⟩
    · rw [hnext]
      exact .next hreach hin
    · rw [hrs, hrs₂]
      exact hrstack
  · -- the instructions that set `pc` themselves are one byte long
    have hw1 : instrWidth code[f.pc.toNat] = 1 := by
      rw [← hwidth, pushSize_of_setsPc hsets]
    simp only [hjumps, hsets, if_true] at hpc'
    have hs₁ := hsound₁ hs
    rcases execute_sets_pc hsets hexec with ⟨pos, hvalid, hpc₂, hrs₂⟩ | ⟨hpc₂, hrs₂⟩ |
      ⟨udest, hvalid, hpc₂, hrs₂⟩ | ⟨r, hr, hpc₂⟩
    · -- a jump lands on a target the check accepted
      obtain ⟨-, hfit, -, hreach'⟩ := (Contract.validJumpdest_spec hs₁ pos).1 hvalid
      rw [hc₁] at hreach'
      refine ⟨.inr ?_, ?_⟩
      · rw [hpc', hpc₂, Word.toNat_uint64 hfit]
        exact hreach'
      · rw [hrs, hrs₂]
        exact hrstack
    · -- a `JUMPI` not taken moves to the next byte
      refine ⟨.inr ?_, ?_⟩
      · rw [hpc', hpc₂, hpc₁]
        rw [toNat_add_of_lt (by simp; omega)]
        simp only [UInt64.reduceToNat]
        rw [← hw1]
        exact .next hreach hin
      · rw [hrs, hrs₂]
        exact hrstack
    · -- `JUMPSUB` lands past an accepted `BEGINSUB` and saves its own position
      obtain ⟨hlt, hbegin, hreach'⟩ := (Contract.validJumpSubdest_spec hs₁ udest).1 hvalid
      have hwb : instrWidth f₁.contract.code[udest.toNat] = 1 := by
        rw [hbegin]
        decide
      have hafter := Reaches.next hreach' hlt
      rw [hwb, hc₁] at hafter
      rw [hc₁] at hlt
      refine ⟨.inr ?_, fun r hr => ?_⟩
      · rw [hpc', hpc₂, toNat_add_of_lt (by simp; omega)]
        simpa using hafter
      · rw [hrs, hrs₂, List.mem_cons] at hr
        rcases hr with rfl | hr
        · -- `uint32(pc)` is exact below `2^32`
          have hexact : f₁.pc.toUInt32.toNat = f.pc.toNat := by
            rw [hpc₁]
            simp only [UInt64.toNat_toUInt32]
            omega
          rw [hexact, ← hw1]
          exact .next hreach hin
        · exact hrstack r hr
    · -- `RETURNSUB` resumes after the position it pops
      have hret : (r.toUInt64 + 1).toNat = r.toNat + 1 := by
        have := r.toNat_lt
        rw [toNat_add_of_lt (by simp; omega)]
        simp
      refine ⟨.inr ?_, fun r' hr' => ?_⟩
      · rw [hpc', hpc₂, hret]
        exact hrstack r (by rw [hr]; exact List.mem_cons_self)
      · rw [hrs] at hr'
        exact hrstack r' (by rw [hr]; exact List.mem_cons_of_mem _ hr')

/-- **Every run keeps `PcInv`** on code of at most `2^32` bytes, with a sound
table and sound caches to start from. -/
theorem runs_pcInv {it : EVMInterpreter} (hjt : TableSound it.jumpTable) {contract : Contract}
    {input : List UInt8} (hlen : contract.code.length ≤ 2 ^ 32) (hsound : contract.AnalysisSound)
    {f : Frame} {fees : ℕ} (h : Runs it contract input f fees) : PcInv contract.code f := by
  induction h with
  | start _ => exact ⟨.inr .start, fun r hr => nomatch hr⟩
  | step o hf hstep ih =>
    obtain ⟨hcode, -, hs⟩ := runs_contract hf
    exact step_pcInv hjt hlen hcode (hs hsound) ih hstep

theorem stopContract_analysisSound : stopContract.AnalysisSound :=
  ⟨fun _ h => (nomatch h), fun h => absurd rfl h⟩

/-- **A `PUSHn` whose immediate lies inside the code** pushes those `n` bytes
and moves over them. -/
theorem execute_makePush_inside {it : EVMInterpreter} {o : Oracle} {f : Frame} {n : ℕ}
    (hlen : f.contract.code.length < 2 ^ 63) (hin : f.pc.toNat + 1 + n ≤ f.contract.code.length) :
    execute it o (.makePush n n) f =
      .ok ({ f.push (Word.setBytes ((f.contract.code.drop (f.pc.toNat + 1)).take n)) with
        pc := f.pc + UInt64.ofNat n }, [], none) := by
  have hint : int64 (f.pc + 1) = f.pc.toNat + 1 := Memory.int64_add_one (by omega)
  have hslice : Memory.slice f.contract.code (f.pc.toNat + 1) (f.pc.toNat + 1 + n) =
      .ok ((f.contract.code.drop (f.pc.toNat + 1)).take n) := by
    have hlow : ((f.pc.toNat : ℤ) + 1).toNat = f.pc.toNat + 1 := by omega
    have hsize : ((f.pc.toNat : ℤ) + 1 + n - ((f.pc.toNat : ℤ) + 1)).toNat = n := by omega
    unfold Memory.slice
    rw [if_pos (by omega), hlow, hsize]
  have hpad : rightPadBytes ((f.contract.code.drop (f.pc.toNat + 1)).take n) n =
      (f.contract.code.drop (f.pc.toNat + 1)).take n := by
    unfold rightPadBytes
    rw [if_pos (by simp; omega)]
  -- neither clamp cuts the immediate
  have hstart : (if (f.pc.toNat : ℤ) + 1 < f.contract.code.length then (f.pc.toNat : ℤ) + 1
      else f.contract.code.length) = f.pc.toNat + 1 := by
    split_ifs <;> omega
  have hend : (if (f.pc.toNat : ℤ) + 1 + n < f.contract.code.length then (f.pc.toNat : ℤ) + 1 + n
      else f.contract.code.length) = f.pc.toNat + 1 + n := by
    split_ifs <;> omega
  simp only [execute, hint, hstart, hend, hslice]
  exact congrArg (fun bs => Except.ok ({ f.push (Word.setBytes bs) with
    pc := f.pc + UInt64.ofNat n }, [], none)) hpad

/-- **An accepted jump** moves `pc` to its target. -/
theorem jumpTo_accepted {pos : Word} {pops : ℕ} {f : Frame} {c : Contract}
    (h : f.contract.validJumpdest pos = (true, c)) :
    jumpTo pos pops f = .ok ({ f.pop pops with contract := c, pc := pos.uint64 }, [], none) := by
  unfold jumpTo
  rw [h]
  rfl

/-- **An accepted `JUMPSUB`** saves `uint32(pc)` and enters past the
`BEGINSUB`. -/
theorem execute_jumpSub_accepted {it : EVMInterpreter} {o : Oracle} {f : Frame} {c : Contract}
    (hdepth : f.rstack.length < 1023) (hfit : (f.stack.back 0).isUint64 = true)
    (h : f.contract.validJumpSubdest (f.stack.back 0).uint64 = (true, c)) :
    execute it o .opJumpSub f =
      .ok ({ f.pop 1 with
        contract := c, rstack := f.pc.toUInt32 :: f.rstack, pc := (f.stack.back 0).uint64 + 1 },
        [], none) := by
  simp only [execute, ge_iff_le, Nat.not_le.mpr hdepth, if_false, hfit, Bool.not_true,
    Bool.false_eq_true, h]

/-- The chain rules of YoloV1, the fork with subroutines. -/
def yoloV1Rules : ChainRules := ⟨true, true, true, true, true, true, true⟩

/-- The first thirteen bytes: `PUSH5 2^32+1`, `PUSH5 2^32-1`, `JUMP`. -/
def wrapHead : List UInt8 :=
  [PUSH5, 0x01, 0x00, 0x00, 0x00, 0x01, PUSH5, 0x00, 0xff, 0xff, 0xff, 0xff, JUMP]

/-- Code of `2^32 + 3` bytes: `wrapHead`, `JUMPDEST`s up to `2^32`, and there
`JUMPSUB`, then `BEGINSUB` and `RETURNSUB`. -/
def wrapCode : List UInt8 :=
  wrapHead ++ List.replicate (2 ^ 32 - 13) JUMPDEST ++ [JUMPSUB, BEGINSUB, RETURNSUB]

/-- `wrapCode` with 1000 gas and empty caches. -/
def wrapContract : Contract := ⟨wrapCode, 0, [], 1000, none, fun _ => none⟩

theorem wrapHead_length : wrapHead.length = 13 := rfl

theorem wrapCode_length : wrapCode.length = 2 ^ 32 + 3 := by
  rw [wrapCode, List.length_append, List.length_append, List.length_replicate, wrapHead_length]
  simp only [List.length_cons, List.length_nil]
  omega

theorem wrapCode_head {i : ℕ} (hi : i < 13) : wrapCode[i]? = wrapHead[i]? := by
  rw [wrapCode, List.append_assoc, List.getElem?_append_left (wrapHead_length ▸ hi)]

theorem wrapCode_pad {i : ℕ} (h₁ : 13 ≤ i) (h₂ : i < 2 ^ 32) : wrapCode[i]? = some JUMPDEST := by
  rw [wrapCode, List.append_assoc, List.getElem?_append_right (wrapHead_length ▸ h₁),
    List.getElem?_append_left (by rw [List.length_replicate, wrapHead_length]; omega),
    List.getElem?_replicate, if_pos (by rw [wrapHead_length]; omega)]

theorem wrapCode_tail (j : ℕ) : wrapCode[2 ^ 32 + j]? = [JUMPSUB, BEGINSUB, RETURNSUB][j]? := by
  have hpre : (wrapHead ++ List.replicate (2 ^ 32 - 13) JUMPDEST).length = 2 ^ 32 := by
    rw [List.length_append, List.length_replicate, wrapHead_length]
    omega
  rw [wrapCode, List.getElem?_append_right (by omega), hpre, Nat.add_sub_cancel_left]

theorem wrapCode_immediate {i n : ℕ} (h : i + n ≤ 13) :
    (wrapCode.drop i).take n = (wrapHead.drop i).take n := by
  rw [wrapCode, List.append_assoc, List.drop_append_of_le_length (by rw [wrapHead_length]; omega),
    List.take_append_of_le_length (by rw [List.length_drop, wrapHead_length]; omega)]

/-- Decoding walks over the head, -/
theorem reaches_wrapHead : Reaches wrapCode 13 := by
  have r₆ : Reaches wrapCode 6 := Reaches.start.next_of_some (wrapCode_head (i := 0) (by decide))
  have r₁₂ : Reaches wrapCode 12 := r₆.next_of_some (wrapCode_head (i := 6) (by decide))
  exact r₁₂.next_of_some (wrapCode_head (i := 12) (by decide))

/-- then over every `JUMPDEST`, -/
theorem reaches_wrapPad : ∀ k ≤ 2 ^ 32 - 13, Reaches wrapCode (13 + k) := by
  intro k hk
  induction k with
  | zero => exact reaches_wrapHead
  | succ k ih => exact (ih (by omega)).next_of_some (wrapCode_pad (by omega) (by omega))

/-- and over the `JUMPSUB` at `2^32` to the `BEGINSUB`. -/
theorem reaches_wrapBeginSub : Reaches wrapCode (2 ^ 32 + 1) :=
  (reaches_wrapPad (2 ^ 32 - 13) le_rfl).next_of_some (wrapCode_tail 0)

/-- Position `1` is inside the `PUSH5` at `0`. -/
theorem not_reaches_wrap_one : ¬ Reaches wrapCode 1 := by
  obtain ⟨hlt, hop⟩ := List.getElem?_eq_some_iff.mp (wrapCode_head (i := 0) (by decide))
  exact Reaches.start.not_of_inside hlt (by decide) (by rw [hop]; decide)

/-- The frames of the run on `wrapContract`: the memory stays empty and no
data comes back. -/
def wrapFrame (pc : UInt64) (stack : Stack) (rstack : List UInt32) (gas : UInt64)
    (analysis : Option Bitvec) (steps : ℕ) : Frame :=
  ⟨pc, stack, rstack, newMemory, { wrapContract with gas, analysis }, [], steps⟩

theorem wrapFrame_getOp {pc : UInt64} {stack : Stack} {rstack : List UInt32} {gas : UInt64}
    {analysis : Option Bitvec} {steps : ℕ} {n : UInt64} {op : OpCode}
    (h : wrapCode[n.toNat]? = some op) :
    (wrapFrame pc stack rstack gas analysis steps).contract.getOp n = op := by
  obtain ⟨hlt, hop⟩ := List.getElem?_eq_some_iff.mp h
  exact (getOp_of_lt hlt).trans hop

/-- The run charges each round's constant gas and nothing else. -/
theorem wrapFrame_useGas {pc : UInt64} {stack : Stack} {rstack : List UInt32} {gas cost : UInt64}
    {analysis : Option Bitvec} {steps : ℕ} (h : cost ≤ gas) :
    (wrapFrame pc stack rstack gas analysis steps).contract.useGas cost =
      some { wrapContract with gas := gas - cost, analysis } := by
  have hle : ¬ gas < cost := by
    rw [UInt64.lt_iff_toNat_lt]
    rw [UInt64.le_iff_toNat_le] at h
    omega
  simp only [Contract.useGas, wrapFrame, hle, if_false]

/-- **A `PUSH5` of the head** pushes its five immediate bytes and moves past
them. -/
theorem wrap_push5 {pc : UInt64} {stack : Stack} {gas : UInt64} {steps : ℕ}
    (hop : wrapHead[pc.toNat]? = some PUSH5) (hpc : pc.toNat + 6 ≤ 13) (hgas : 3 ≤ gas)
    (hstack : stack.length < 1024) :
    step (newEVMInterpreter yoloV1Rules [] false) quietOracle (wrapFrame pc stack [] gas none steps) =
      .next (wrapFrame (pc + 5 + 1) (Word.setBytes ((wrapHead.drop (pc.toNat + 1)).take 5) :: stack)
        [] (gas - 3) none (steps + 1)) := by
  have htable : (newEVMInterpreter yoloV1Rules [] false).jumpTable
      ((wrapFrame pc stack [] gas none steps).contract.getOp pc) = some
        { execute := .makePush 5 5, constantGas := gasFastestStep, minStack := minStack 0 1,
          maxStack := maxStack 0 1 } := by
    rw [wrapFrame_getOp ((wrapCode_head (by omega)).trans hop)]
    rfl
  have hexec : execute (newEVMInterpreter yoloV1Rules [] false) quietOracle (.makePush 5 5)
      (wrapFrame pc stack [] (gas - 3) none (steps + 1)) =
        .ok (wrapFrame (pc + 5) (Word.setBytes ((wrapHead.drop (pc.toNat + 1)).take 5) :: stack)
          [] (gas - 3) none (steps + 1), [], none) := by
    rw [execute_makePush_inside (f := wrapFrame pc stack [] (gas - 3) none (steps + 1))
      (by show wrapCode.length < _; rw [wrapCode_length]; omega)
      (by show pc.toNat + 1 + 5 ≤ wrapCode.length; rw [wrapCode_length]; omega)]
    show Except.ok ({ (wrapFrame pc stack [] (gas - 3) none (steps + 1)).push
      (Word.setBytes ((wrapCode.drop (pc.toNat + 1)).take 5)) with pc := pc + UInt64.ofNat 5 },
        [], none) = _
    rw [wrapCode_immediate (by omega)]
    rfl
  rw [step_quiet rfl rfl htable (Nat.zero_le _) (by show stack.length ≤ maxStack 0 1; simp [maxStack]; omega)
    (wrapFrame_useGas hgas) rfl rfl ⟨rfl, rfl, rfl⟩ hexec]
  rfl

/-- The caches of the run are empty, and then the bitmap of `wrapCode`. -/
theorem wrapFrame_analysisSound {pc : UInt64} {stack : Stack} {rstack : List UInt32}
    {gas : UInt64} {analysis : Option Bitvec} {steps : ℕ}
    (h : ∀ a, analysis = some a → a = codeBitmap wrapCode) :
    (wrapFrame pc stack rstack gas analysis steps).contract.AnalysisSound :=
  ⟨h, fun h => absurd rfl h⟩

/-- **`JUMP` at `12`** goes to `2^32 - 1`, the last `JUMPDEST`, and caches the
code's bitmap on the way, -/
theorem wrap_jump : step (newEVMInterpreter yoloV1Rules [] false) quietOracle
    (wrapFrame 12 [0xffffffff, 0x100000001] [] 994 none 2) =
      .next (wrapFrame 0xffffffff [0x100000001] [] 986 (some (codeBitmap wrapCode)) 3) := by
  have htable : (newEVMInterpreter yoloV1Rules [] false).jumpTable
      ((wrapFrame 12 [0xffffffff, 0x100000001] [] 994 none 2).contract.getOp 12) = some
        { execute := .opJump, constantGas := gasMidStep, minStack := minStack 1 0,
          maxStack := maxStack 1 0, jumps := true } := by
    rw [wrapFrame_getOp (show wrapCode[(12 : UInt64).toNat]? = some JUMP from
      wrapCode_head (by decide))]
    rfl
  -- the target is a reached `JUMPDEST`, so the check says yes
  have hvalid : (wrapFrame 12 [0xffffffff, 0x100000001] [] 986 none 3).contract.validJumpdest
      0xffffffff =
        (true, { wrapContract with gas := 986, analysis := some (codeBitmap wrapCode) }) := by
    have hs : (wrapFrame 12 [0xffffffff, 0x100000001] [] 986 none 3).contract.AnalysisSound :=
      wrapFrame_analysisSound (fun _ h => nomatch h)
    have hop : wrapCode[(0xffffffff : Word).toNat]? = some JUMPDEST :=
      wrapCode_pad (i := 4294967295) (by omega) (by omega)
    have hreach : Reaches wrapCode (0xffffffff : Word).toNat := reaches_wrapPad (2 ^ 32 - 14) (by omega)
    rw [Contract.validJumpdest_of_reaches hs (by decide) hop hreach]
    rfl
  have hexec : execute (newEVMInterpreter yoloV1Rules [] false) quietOracle .opJump
      (wrapFrame 12 [0xffffffff, 0x100000001] [] 986 none 3) =
        .ok (wrapFrame 0xffffffff [0x100000001] [] 986 (some (codeBitmap wrapCode)) 3, [],
          none) := by
    show jumpTo 0xffffffff 1 (wrapFrame 12 [0xffffffff, 0x100000001] [] 986 none 3) = _
    rw [jumpTo_accepted hvalid]
    rfl
  rw [step_quiet rfl rfl htable (by decide) (by decide) (wrapFrame_useGas (by decide)) rfl rfl
    ⟨rfl, rfl, rfl⟩ hexec]
  rfl

/-- whose `JUMPDEST` falls through to the `JUMPSUB` at `2^32`, -/
theorem wrap_jumpdest : step (newEVMInterpreter yoloV1Rules [] false) quietOracle
    (wrapFrame 0xffffffff [0x100000001] [] 986 (some (codeBitmap wrapCode)) 3) =
      .next (wrapFrame 0x100000000 [0x100000001] [] 985 (some (codeBitmap wrapCode)) 4) := by
  have htable : (newEVMInterpreter yoloV1Rules [] false).jumpTable
      ((wrapFrame 0xffffffff [0x100000001] [] 986 (some (codeBitmap wrapCode)) 3).contract.getOp
        0xffffffff) = some
        { execute := .opJumpdest, constantGas := Params.jumpdestGas, minStack := minStack 0 0,
          maxStack := maxStack 0 0 } := by
    rw [wrapFrame_getOp (show wrapCode[(0xffffffff : UInt64).toNat]? = some JUMPDEST from
      wrapCode_pad (i := 4294967295) (by omega) (by omega))]
    rfl
  rw [step_quiet rfl rfl htable (by decide) (by decide) (wrapFrame_useGas (by decide)) rfl rfl
    ⟨rfl, rfl, rfl⟩ rfl]
  rfl

/-- **`JUMPSUB` at `2^32`** saves `uint32(2^32) = 0` and enters the
subroutine at `2^32 + 1`, -/
theorem wrap_jumpSub : step (newEVMInterpreter yoloV1Rules [] false) quietOracle
    (wrapFrame 0x100000000 [0x100000001] [] 985 (some (codeBitmap wrapCode)) 4) =
      .next (wrapFrame 0x100000002 [] [0] 975 (some (codeBitmap wrapCode)) 5) := by
  have htable : (newEVMInterpreter yoloV1Rules [] false).jumpTable
      ((wrapFrame 0x100000000 [0x100000001] [] 985 (some (codeBitmap wrapCode)) 4).contract.getOp
        0x100000000) = some
        { execute := .opJumpSub, constantGas := gasSlowStep, minStack := minStack 1 0,
          maxStack := maxStack 1 0, jumps := true } := by
    rw [wrapFrame_getOp (show wrapCode[(0x100000000 : UInt64).toNat]? = some JUMPSUB from
      wrapCode_tail 0)]
    rfl
  have hs : (wrapFrame 0x100000000 [0x100000001] [] 975 (some (codeBitmap wrapCode)) 5).contract
      |>.AnalysisSound := wrapFrame_analysisSound (fun _ h => (Option.some.inj h).symm)
  -- the target is the reached `BEGINSUB` at `2^32 + 1`
  have hop : wrapCode[(0x100000001 : Word).uint64.toNat]? = some BEGINSUB := wrapCode_tail 1
  have hreach : Reaches wrapCode (0x100000001 : Word).uint64.toNat := reaches_wrapBeginSub
  have hvalid : Contract.validJumpSubdest
      (wrapFrame 0x100000000 [0x100000001] [] 975 (some (codeBitmap wrapCode)) 5).contract
      (0x100000001 : Word).uint64 =
        (true, { wrapContract with gas := 975, analysis := some (codeBitmap wrapCode) }) := by
    rw [Contract.validJumpSubdest_of_reaches hs (by decide) hop hreach]
    rfl
  have hexec : execute (newEVMInterpreter yoloV1Rules [] false) quietOracle .opJumpSub
      (wrapFrame 0x100000000 [0x100000001] [] 975 (some (codeBitmap wrapCode)) 5) =
        .ok (wrapFrame 0x100000002 [] [0] 975 (some (codeBitmap wrapCode)) 5, [], none) := by
    rw [execute_jumpSub_accepted (by decide) (by decide) hvalid]
    rfl
  rw [step_quiet rfl rfl htable (by decide) (by decide) (wrapFrame_useGas (by decide)) rfl rfl
    ⟨rfl, rfl, rfl⟩ hexec]
  rfl

/-- and `RETURNSUB` resumes at `0 + 1`. -/
theorem wrap_returnSub : step (newEVMInterpreter yoloV1Rules [] false) quietOracle
    (wrapFrame 0x100000002 [] [0] 975 (some (codeBitmap wrapCode)) 5) =
      .next (wrapFrame 1 [] [] 970 (some (codeBitmap wrapCode)) 6) := by
  have htable : (newEVMInterpreter yoloV1Rules [] false).jumpTable
      ((wrapFrame 0x100000002 [] [0] 975 (some (codeBitmap wrapCode)) 5).contract.getOp
        0x100000002) = some
        { execute := .opReturnSub, constantGas := gasFastStep, minStack := minStack 0 0,
          maxStack := maxStack 0 0, jumps := true } := by
    rw [wrapFrame_getOp (show wrapCode[(0x100000002 : UInt64).toNat]? = some RETURNSUB from
      wrapCode_tail 2)]
    rfl
  rw [step_quiet rfl rfl htable (by decide) (by decide) (wrapFrame_useGas (by decide)) rfl rfl
    ⟨rfl, rfl, rfl⟩ rfl]
  rfl

end RpcNetwork.Vm
