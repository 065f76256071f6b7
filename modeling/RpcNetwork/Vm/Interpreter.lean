import RpcNetwork.Vm.JumpTable

/-!
# The interpreter loop

`EVMInterpreter.Run` (`interpreter.go`) fetches the opcode at `pc`, checks the
stack and write protection, charges constant and dynamic gas around sizing the
memory, grows it, and runs the execution function; then it stops or moves on.  `step` is one round of that loop, and `Runs` the frames a run reaches.

## Design notes

The execution functions of memory, control flow, `PUSH`, `DUP`, `SWAP`, the
call family and the plain arithmetic are modelled as the source has them.
The others read the chain state or compute what no claim reads; they leave
the stack the oracle gives, and `SHA3` pushes the oracle's hash.  A call or a
creation is the oracle's answer.  A Go panic is `.error` with the runtime's message.
-/

namespace RpcNetwork.Vm

open Memory (int64)

namespace Word

/-- `SetUint64`. -/
def ofUInt64 (x : UInt64) : Word := BitVec.ofNat 256 x.toNat

/-- `SetBytes`: the big-endian number the bytes spell, modulo `2^256`. -/
def setBytes (bs : List UInt8) : Word :=
  bs.foldl (fun acc b => (acc <<< 8) ||| BitVec.ofNat 256 b.toNat) 0

end Word

/-- `common.RightPadBytes`: pad with zeros up to `l` bytes. -/
def rightPadBytes (slice : List UInt8) (l : ℤ) : List UInt8 :=
  if l ≤ slice.length then slice else slice ++ List.replicate (l.toNat - slice.length) 0

/-- `getData`: `size` bytes of `data` from `start`, padded with zeros past
its end. -/
def getData (data : List UInt8) (start size : UInt64) : Except String (List UInt8) :=
  let length := UInt64.ofNat data.length
  let start := if start > length then length else start
  let stop := if start + size > length then length else start + size
  (Memory.slice data start.toNat stop.toNat).map (rightPadBytes · (int64 size))

/-- The state of one run of the loop: `pc`, `callCtx`, the interpreter's
return data and the step count. -/
structure Frame where
  pc : UInt64
  stack : Stack
  /-- The return stack of `JUMPSUB`, top first. -/
  rstack : List UInt32
  memory : Memory
  contract : Contract
  returnData : List UInt8
  steps : ℕ

namespace Frame

/-- `stack.pop()`, `n` times. -/
def pop (f : Frame) (n : ℕ) : Frame := { f with stack := f.stack.drop n }

/-- `stack.push(w)`. -/
def push (f : Frame) (w : Word) : Frame := { f with stack := w :: f.stack }

@[simp] theorem memory_pop (f : Frame) (n : ℕ) : (f.pop n).memory = f.memory := rfl
@[simp] theorem memory_push (f : Frame) (w : Word) : (f.push w).memory = f.memory := rfl
@[simp] theorem contract_pop (f : Frame) (n : ℕ) : (f.pop n).contract = f.contract := rfl
@[simp] theorem contract_push (f : Frame) (w : Word) : (f.push w).contract = f.contract := rfl
@[simp] theorem pc_pop (f : Frame) (n : ℕ) : (f.pop n).pc = f.pc := rfl
@[simp] theorem pc_push (f : Frame) (w : Word) : (f.push w).pc = f.pc := rfl
@[simp] theorem rstack_pop (f : Frame) (n : ℕ) : (f.pop n).rstack = f.rstack := rfl
@[simp] theorem rstack_push (f : Frame) (w : Word) : (f.push w).rstack = f.rstack := rfl

end Frame

/-- What the rest of the EVM decides during one step. -/
structure Oracle where
  /-- `evm.abort`, which the loop reads every thousand steps. -/
  abort : Bool
  /-- What the gas functions read of the chain state. -/
  gasEnv : GasEnv
  /-- The stack an instruction that reads the chain state leaves. -/
  stack : Stack
  /-- The hash `SHA3` pushes. -/
  hash : Word
  /-- The code of the account `EXTCODECOPY` names, a Go slice. -/
  extCode : List UInt8
  extCode_lt : extCode.length < 2 ^ 63
  /-- The output, the error and the returned gas of a call or a creation. -/
  ret : List UInt8
  err : Option VmError
  returnGas : UInt64
  /-- The address a creation made. -/
  addr : Word

/-- The parts of `EVMInterpreter` a run reads. -/
structure EVMInterpreter where
  jumpTable : JumpTable
  chainRules : ChainRules
  readOnly : Bool

/-- What an execution function returns, `(res, err)`, with the frame it
leaves; `.error` is a Go panic. -/
abbrev ExecResult := Except String (Frame × List UInt8 × Option VmError)

/-! ### Execution functions -/

/-- An instruction that pops two words and pushes `g x y` of the top `x` and
the next `y`. -/
def binaryOp (g : Word → Word → Word) (f : Frame) : ExecResult :=
  .ok ((f.pop 2).push (g (f.stack.back 0) (f.stack.back 1)), [], none)

/-- `CALLDATACOPY`, `CODECOPY` and `EXTCODECOPY`: copy `length` bytes of
`data` from the offset in slot `src` (the largest `uint64` if it does not fit)
to the memory offset in slot `dst`, popping `pops` words. -/
def copyOp (data : List UInt8) (dst src len pops : ℕ) (f : Frame) : ExecResult := do
  let (memOffset, dataOffset, length) := (f.stack.back dst, f.stack.back src, f.stack.back len)
  let (dataOffset64, overflow) := dataOffset.uint64WithOverflow
  let dataOffset64 := if overflow then 0xffffffffffffffff else dataOffset64
  let copy ← getData data dataOffset64 length.uint64
  let memory ← f.memory.set memOffset.uint64 length.uint64 copy
  pure ({ f.pop pops with memory }, [], none)

/-- `opCall` and its three relatives: read the arguments, push whether the
call succeeded, copy its output to the return window unless it failed other
than by reverting, and take back the gas it left. -/
def callOp (o : Oracle) (inOffset inSize retOffset retSize : ℕ) (f : Frame) : ExecResult := do
  let _ ← f.memory.getPtr (int64 (f.stack.back inOffset).uint64)
    (int64 (f.stack.back inSize).uint64)
  let memory ← (if o.err = none ∨ o.err = some .executionReverted then
      f.memory.set (f.stack.back retOffset).uint64 (f.stack.back retSize).uint64 o.ret
    else pure f.memory)
  pure ({ (f.pop (retSize + 1)).push (if o.err.isSome then 0 else 1) with
      memory, contract := { f.contract with gas := f.contract.gas + o.returnGas } },
    o.ret, none)

/-- A jump to `pos`, popping `pops` words: `ErrInvalidJump` unless
`validJumpdest` accepts it. -/
def jumpTo (pos : Word) (pops : ℕ) (f : Frame) : ExecResult :=
  let (valid, contract) := f.contract.validJumpdest pos
  if !valid then .ok ({ f.pop pops with contract }, [], some .invalidJump)
  else .ok ({ f.pop pops with contract, pc := pos.uint64 }, [], none)

/-- The execution functions. -/
def execute (it : EVMInterpreter) (o : Oracle) : ExecutionFunc → Frame → ExecResult
  | .opStop, f => .ok (f, [], none)
  | .opAdd, f => binaryOp (· + ·) f
  | .opSub, f => binaryOp (· - ·) f
  | .opMul, f => binaryOp (· * ·) f
  | .opDiv, f => binaryOp (· / ·) f
  | .opLt, f => binaryOp (fun x y => if x < y then 1 else 0) f
  | .opGt, f => binaryOp (fun x y => if x > y then 1 else 0) f
  | .opEq, f => binaryOp (fun x y => if x = y then 1 else 0) f
  | .opAnd, f => binaryOp (· &&& ·) f
  | .opOr, f => binaryOp (· ||| ·) f
  | .opXor, f => binaryOp (· ^^^ ·) f
  | .opIszero, f => .ok ((f.pop 1).push (if f.stack.back 0 = 0 then 1 else 0), [], none)
  | .opNot, f => .ok ((f.pop 1).push (~~~ f.stack.back 0), [], none)
  | .opSha3, f =>
    (f.memory.getPtr (int64 (f.stack.back 0).uint64) (int64 (f.stack.back 1).uint64)).map
      fun _ => ((f.pop 2).push o.hash, [], none)
  | .opCallDataSize, f =>
    .ok (f.push (Word.ofUInt64 (UInt64.ofNat f.contract.input.length)), [], none)
  | .opCallDataCopy, f => copyOp f.contract.input 0 1 2 3 f
  | .opReturnDataSize, f =>
    .ok (f.push (Word.ofUInt64 (UInt64.ofNat f.returnData.length)), [], none)
  | .opReturnDataCopy, f =>
    let (memOffset, dataOffset, length) := (f.stack.back 0, f.stack.back 1, f.stack.back 2)
    let (offset64, overflow) := dataOffset.uint64WithOverflow
    if overflow then .ok (f.pop 3, [], some .returnDataOutOfBounds) else
    let (end64, overflow) := (dataOffset + length).uint64WithOverflow
    if overflow || UInt64.ofNat f.returnData.length < end64 then
      .ok (f.pop 3, [], some .returnDataOutOfBounds)
    else do
      let data ← Memory.slice f.returnData offset64.toNat end64.toNat
      let memory ← f.memory.set memOffset.uint64 length.uint64 data
      pure ({ f.pop 3 with memory }, [], none)
  | .opCodeSize, f =>
    .ok (f.push (Word.ofUInt64 (UInt64.ofNat f.contract.code.length)), [], none)
  | .opCodeCopy, f => copyOp f.contract.code 0 1 2 3 f
  | .opExtCodeCopy, f => copyOp o.extCode 1 2 3 4 f
  | .opPop, f => .ok (f.pop 1, [], none)
  | .opMload, f =>
    (f.memory.getPtr (int64 (f.stack.back 0).uint64) 32).map
      fun bs => ((f.pop 1).push (Word.setBytes bs), [], none)
  | .opMstore, f =>
    (f.memory.set32 (f.stack.back 0).uint64 (f.stack.back 1)).map
      fun memory => ({ f.pop 2 with memory }, [], none)
  | .opMstore8, f =>
    (f.memory.setByte (f.stack.back 0).uint64 (f.stack.back 1).uint64.toUInt8).map
      fun memory => ({ f.pop 2 with memory }, [], none)
  | .opJump, f => jumpTo (f.stack.back 0) 1 f
  | .opJumpi, f =>
    if f.stack.back 1 ≠ 0 then jumpTo (f.stack.back 0) 2 f
    else .ok ({ f.pop 2 with pc := f.pc + 1 }, [], none)
  | .opJumpdest, f => .ok (f, [], none)
  | .opBeginSub, f => .ok (f, [], some .invalidSubroutineEntry)
  | .opJumpSub, f =>
    if f.rstack.length ≥ 1023 then .ok (f, [], some .returnStackExceeded) else
    let pos := f.stack.back 0
    if !pos.isUint64 then .ok (f.pop 1, [], some .invalidJump) else
    let (valid, contract) := f.contract.validJumpSubdest pos.uint64
    if !valid then .ok ({ f.pop 1 with contract }, [], some .invalidJump)
    else
      let f := { f.pop 1 with contract, rstack := f.pc.toUInt32 :: f.rstack }
      .ok ({ f with pc := pos.uint64 + 1 }, [], none)
  | .opReturnSub, f =>
    match f.rstack with
    | [] => .ok (f, [], some .invalidRetsub)
    | r :: rs => .ok ({ f with rstack := rs, pc := r.toUInt64 + 1 }, [], none)
  | .opPc, f => .ok (f.push (Word.ofUInt64 f.pc), [], none)
  | .opMsize, f => .ok (f.push (Word.ofUInt64 (UInt64.ofNat f.memory.len)), [], none)
  | .opGas, f => .ok (f.push (Word.ofUInt64 f.contract.gas), [], none)
  | .opPush1, f =>
    let pc := f.pc + 1
    let integer : Word :=
      if pc < UInt64.ofNat f.contract.code.length then
        BitVec.ofNat 256 (f.contract.code.getD pc.toNat 0).toNat
      else 0
    .ok ({ f.push integer with pc }, [], none)
  | .makePush size pushByteSize, f =>
    let codeLen : ℤ := f.contract.code.length
    let startMin := if int64 (f.pc + 1) < codeLen then int64 (f.pc + 1) else codeLen
    let endMin := if startMin + pushByteSize < codeLen then startMin + pushByteSize else codeLen
    (Memory.slice f.contract.code startMin endMin).map fun bs =>
      ({ f.push (Word.setBytes (rightPadBytes bs pushByteSize)) with
        pc := f.pc + UInt64.ofNat size }, [], none)
  | .makeDup size, f => .ok (f.push (f.stack.back (size - 1)), [], none)
  | .makeSwap size, f =>
    .ok ({ f with stack := (f.stack.set 0 (f.stack.back size)).set size (f.stack.back 0) },
      [], none)
  | .makeLog size, f =>
    (f.memory.getCopy (int64 (f.stack.back 0).uint64) (int64 (f.stack.back 1).uint64)).map
      fun _ => (f.pop (2 + size), [], none)
  | .opCreate, f =>
    (f.memory.getCopy (int64 (f.stack.back 1).uint64) (int64 (f.stack.back 2).uint64)).map
      fun _ =>
        let gas := f.contract.gas
        let gas := if it.chainRules.isEIP150 then gas - gas / 64 else gas
        let contract := (f.contract.useGas gas).getD f.contract
        let stackvalue : Word :=
          if it.chainRules.isHomestead ∧ o.err = some .codeStoreOutOfGas then 0
          else if o.err.isSome ∧ o.err ≠ some .codeStoreOutOfGas then 0
          else o.addr
        ({ (f.pop 3).push stackvalue with
            contract := { contract with gas := contract.gas + o.returnGas } },
          if o.err = some .executionReverted then o.ret else [], none)
  | .opCreate2, f =>
    (f.memory.getCopy (int64 (f.stack.back 1).uint64) (int64 (f.stack.back 2).uint64)).map
      fun _ =>
        let gas := f.contract.gas
        let contract := (f.contract.useGas (gas - gas / 64)).getD f.contract
        let stackvalue : Word := if o.err.isSome then 0 else o.addr
        ({ (f.pop 4).push stackvalue with
            contract := { contract with gas := contract.gas + o.returnGas } },
          if o.err = some .executionReverted then o.ret else [], none)
  | .opCall, f => callOp o 3 4 5 6 f
  | .opCallCode, f => callOp o 3 4 5 6 f
  | .opDelegateCall, f => callOp o 2 3 4 5 f
  | .opStaticCall, f => callOp o 2 3 4 5 f
  | .opReturn, f =>
    (f.memory.getPtr (int64 (f.stack.back 0).uint64) (int64 (f.stack.back 1).uint64)).map
      fun ret => (f.pop 2, ret, none)
  | .opRevert, f =>
    (f.memory.getPtr (int64 (f.stack.back 0).uint64) (int64 (f.stack.back 1).uint64)).map
      fun ret => (f.pop 2, ret, none)
  -- the instructions that read the chain state or compute what no claim reads
  | _, f => .ok ({ f with stack := o.stack }, [], none)

/-! ### One round of the loop -/

/-- The memory size `Run` grows the memory to: the operation's size function,
rounded up to words. -/
def memorySizeOf (operation : Operation) (stack : Stack) : Except VmError UInt64 :=
  match operation.memorySize with
  | none => .ok 0
  | some memorySize =>
    let (memSize, overflow) := memorySize.eval stack
    if overflow then .error .gasUintOverflow
    else
      let (memorySize, overflow) := safeMul (toWordSize memSize) 32
      if overflow then .error .gasUintOverflow else .ok memorySize

/-- The dynamic gas: the operation's gas function, charged to the contract. -/
def chargeDynamicGas (env : GasEnv) (operation : Operation) (stack : Stack) (mem : Memory)
    (memorySize : UInt64) (contract : Contract) : Except VmError (Memory × Contract) :=
  match operation.dynamicGas with
  | none => .ok (mem, contract)
  | some dynamicGas =>
    match dynamicGas.run env stack mem memorySize with
    | .error _ => .error .outOfGas
    | .ok (dynamicCost, mem) =>
      match contract.useGas dynamicCost with
      | none => .error .outOfGas
      | some contract => .ok (mem, contract)

/-- The round of `Run` before `execute`: the operation of the opcode at `pc`,
the stack checks, the write protection, the constant gas, the memory size,
the dynamic gas and the memory growth. -/
def prepare (it : EVMInterpreter) (env : GasEnv) (f : Frame) :
    Except VmError (Operation × Frame) :=
  let op := f.contract.getOp f.pc
  match it.jumpTable op with
  | none => .error (.invalidOpCode op)
  | some operation =>
    let sLen := f.stack.length
    if sLen < operation.minStack then .error (.stackUnderflow sLen operation.minStack)
    else if sLen > operation.maxStack then .error (.stackOverflow sLen operation.maxStack)
    else if it.readOnly && it.chainRules.isByzantium &&
        (operation.writes || (op == CALL && f.stack.back 2 != 0)) then .error .writeProtection
    else match f.contract.useGas operation.constantGas with
    | none => .error .outOfGas
    | some contract => do
      let memorySize ← memorySizeOf operation f.stack
      let (memory, contract) ←
        chargeDynamicGas env operation f.stack f.memory memorySize contract
      pure (operation,
        { f with memory := if memorySize > 0 then memory.resize memorySize else memory,
                 contract })

/-- Where a round ends. -/
inductive Outcome where
  | next (f : Frame)
  | halt (ret : List UInt8) (err : Option VmError)
  | panic (msg : String)

/-- The round of `Run` after `execute`: keep the return data, then stop on an
error, a revert or a halt, or move `pc` on unless the instruction jumps. -/
def finish (operation : Operation) (f : Frame) (res : List UInt8) (err : Option VmError) :
    Outcome :=
  let f := if operation.returns then { f with returnData := res } else f
  match err with
  | some err => .halt [] (some err)
  | none =>
    if operation.reverts then .halt res (some .executionReverted)
    else if operation.halts then .halt res none
    else if !operation.jumps then .next { f with pc := f.pc + 1 }
    else .next f

/-- One round of the loop of `Run`. -/
def step (it : EVMInterpreter) (o : Oracle) (f : Frame) : Outcome :=
  let steps := f.steps + 1
  if steps % 1000 = 0 ∧ o.abort = true then .halt [] none
  else match prepare it o.gasEnv { f with steps } with
  | .error err => .halt [] (some err)
  | .ok (operation, f) =>
    match execute it o operation.execute f with
    | .error msg => .panic msg
    | .ok (f, res, err) => finish operation f res err

/-- The interpreter `NewEVMInterpreter` builds for the chain rules and the
configuration's extra EIPs, running with `readOnly`. -/
def newEVMInterpreter (rules : ChainRules) (extraEips : List ℕ) (readOnly : Bool) :
    EVMInterpreter :=
  ⟨newInterpreterTable rules extraEips, rules, readOnly⟩

/-- The frame `Run` starts from, after `contract.Input = input`. -/
def initFrame (contract : Contract) (input : List UInt8) : Frame :=
  ⟨0, [], [], newMemory, { contract with input }, [], 0⟩

/-- The fee `memoryGasCost` returns in the round from `f`: a dynamic gas
function that charges for memory calls it once, on the frame's memory and the
round's memory size. -/
def memoryFeeCharged (it : EVMInterpreter) (f : Frame) : ℕ :=
  match it.jumpTable (f.contract.getOp f.pc) with
  | none => 0
  | some operation =>
    match operation.dynamicGas, memorySizeOf operation f.stack with
    | some dynamicGas, .ok memorySize =>
      if dynamicGas.chargesMemory then
        match memoryGasCost f.memory memorySize with
        | .ok (fee, _) => fee.toNat
        | .error _ => 0
      else 0
    | _, _ => 0

/-- The frames a run of `contract` on `input` reaches, each with the sum of
the memory fees charged on the way.  `Run` returns at once on empty code. -/
inductive Runs (it : EVMInterpreter) (contract : Contract) (input : List UInt8) :
    Frame → ℕ → Prop
  | start (h : contract.code ≠ []) : Runs it contract input (initFrame contract input) 0
  | step {f f' : Frame} {fees : ℕ} (o : Oracle) (hf : Runs it contract input f fees)
      (h : step it o f = .next f') : Runs it contract input f' (fees + memoryFeeCharged it f)

/-! ### What a round does, stage by stage -/

namespace Contract

/-- What a round may change of the contract: its gas and its caches, which
stay sound. -/
def Keeps (c c' : Contract) : Prop :=
  c'.code = c.code ∧ c'.input = c.input ∧ (c.AnalysisSound → c'.AnalysisSound)

theorem Keeps.refl (c : Contract) : c.Keeps c := ⟨rfl, rfl, id⟩

theorem Keeps.trans {c₁ c₂ c₃ : Contract} (h₁ : c₁.Keeps c₂) (h₂ : c₂.Keeps c₃) : c₁.Keeps c₃ :=
  ⟨h₂.1.trans h₁.1, h₂.2.1.trans h₁.2.1, h₂.2.2 ∘ h₁.2.2⟩

/-- Setting the gas keeps the rest. -/
theorem keeps_withGas (c : Contract) (gas : UInt64) : c.Keeps { c with gas } :=
  ⟨rfl, rfl, fun h => h⟩

theorem useGas_eq {c c' : Contract} {gas : UInt64} (h : c.useGas gas = some c') :
    c' = { c with gas := c'.gas } := by
  unfold useGas at h
  split at h
  · cases h
  · cases h
    rfl

theorem keeps_useGas {c c' : Contract} {gas : UInt64} (h : c.useGas gas = some c') :
    c.Keeps c' := by
  rw [useGas_eq h]
  exact keeps_withGas c _

theorem keeps_validJumpdest (c : Contract) (dest : Word) : c.Keeps (c.validJumpdest dest).2 :=
  ⟨(validJumpdest_sameCode c dest).1, (validJumpdest_sameCode c dest).2.2.1,
    fun hs => (validJumpdest_spec hs dest).2.1⟩

theorem keeps_validJumpSubdest (c : Contract) (udest : UInt64) :
    c.Keeps (c.validJumpSubdest udest).2 :=
  ⟨(validJumpSubdest_sameCode c udest).1, (validJumpSubdest_sameCode c udest).2.2.1,
    fun hs => (validJumpSubdest_spec hs udest).2.1⟩

end Contract

/-- **The memory size of a round** is a whole number of words, and covers the
end of the window the size function computed without overflow. -/
theorem memorySizeOf_spec {operation : Operation} {stack : Stack} {size : UInt64}
    (h : memorySizeOf operation stack = .ok size) :
    size.toNat % 32 = 0 ∧ (operation.memorySize = none → size = 0) ∧
      ∀ s, operation.memorySize = some s →
        ∃ memSize, s.eval stack = (memSize, false) ∧ memSize.toNat ≤ size.toNat := by
  unfold memorySizeOf at h
  split at h
  · rename_i hnone
    cases h
    refine ⟨rfl, fun _ => rfl, fun _ hs => ?_⟩
    rw [hnone] at hs
    cases hs
  · rename_i s hs
    rcases he : s.eval stack with ⟨memSize, _ | _⟩
    · rcases hm : safeMul (toWordSize memSize) 32 with ⟨words, _ | _⟩
      · simp only [he, hm, Bool.false_eq_true, if_false, Except.ok.injEq] at h
        subst h
        -- the product is exact, so it is the end rounded up to words
        have hexact := safeMul_ok (x := toWordSize memSize) (y := 32) (by rw [hm])
        rw [hm, toWordSize_toNat] at hexact
        simp only [UInt64.reduceToNat] at hexact
        refine ⟨by omega, (fun hnone => by rw [hs] at hnone; cases hnone), fun s' hs' => ?_⟩
        obtain rfl : s = s' := Option.some.inj (hs.symm.trans hs')
        exact ⟨memSize, he, by omega⟩
      · simp [he, hm] at h
    · simp [he] at h

theorem chargeDynamicGas_spec {env : GasEnv} {operation : Operation} {stack : Stack}
    {mem mem' : Memory} {size : UInt64} {contract contract' : Contract}
    (h : chargeDynamicGas env operation stack mem size contract = .ok (mem', contract')) :
    (∃ g cost, operation.dynamicGas = some g ∧ g.run env stack mem size = .ok (cost, mem') ∧
      contract.useGas cost = some contract') ∨
    (operation.dynamicGas = none ∧ mem' = mem ∧ contract' = contract) := by
  unfold chargeDynamicGas at h
  split at h
  · cases h
    exact .inr ⟨‹_›, rfl, rfl⟩
  · rename_i g hg
    split at h
    · cases h
    · rename_i cost mem₁ hrun
      split at h
      · cases h
      · rename_i c hc
        cases h
        exact .inl ⟨g, cost, hg, hrun, hc⟩

/-- **A round that reaches `execute`** ran the operation of the opcode at `pc`
on the same stacks and `pc`, charged the contract its gas, and grew the
memory the gas function left to the round's memory size. -/
theorem prepare_spec {it : EVMInterpreter} {env : GasEnv} {f f' : Frame} {operation : Operation}
    (h : prepare it env f = .ok (operation, f')) :
    it.jumpTable (f.contract.getOp f.pc) = some operation ∧
    f'.pc = f.pc ∧ f'.stack = f.stack ∧ f'.rstack = f.rstack ∧ f.contract.Keeps f'.contract ∧
    ∃ size mem c, memorySizeOf operation f.stack = .ok size ∧
      f.contract.useGas operation.constantGas = some c ∧
      chargeDynamicGas env operation f.stack f.memory size c = .ok (mem, f'.contract) ∧
      f'.memory = if size > 0 then mem.resize size else mem := by
  unfold prepare at h
  dsimp only at h
  split at h
  · cases h
  · rename_i o ho
    split_ifs at h
    split at h
    · cases h
    · rename_i c hc
      obtain ⟨size, hsize, hrest⟩ := Except.bind_eq_ok.mp h
      obtain ⟨⟨mem, c'⟩, hgas, hpure⟩ := Except.bind_eq_ok.mp hrest
      obtain ⟨rfl, rfl⟩ := Prod.mk.inj (Except.pure_eq_ok.mp hpure)
      have hkeep : f.contract.Keeps c' := by
        rcases chargeDynamicGas_spec hgas with ⟨_, _, _, _, hc'⟩ | ⟨_, _, rfl⟩
        · exact (Contract.keeps_useGas hc).trans (Contract.keeps_useGas hc')
        · exact Contract.keeps_useGas hc
      exact ⟨ho, rfl, rfl, rfl, hkeep, size, mem, c, hsize, hc, hgas, rfl⟩

/-- A round ends in a next frame only without an error, a revert or a halt;
that frame is the executed one with `pc` moved on unless the instruction
jumps. -/
theorem finish_next {operation : Operation} {f f' : Frame} {res : List UInt8}
    {err : Option VmError} (h : finish operation f res err = .next f') :
    err = none ∧ operation.halts = false ∧
    f'.memory = f.memory ∧ f'.contract = f.contract ∧ f'.stack = f.stack ∧
    f'.rstack = f.rstack ∧ f'.pc = if operation.jumps then f.pc else f.pc + 1 := by
  unfold finish at h
  rcases err with _ | err
  · dsimp only at h
    refine ⟨rfl, ?_⟩
    -- whether the return data was kept does not matter to the fields stated
    split_ifs at h <;> cases h <;> simp_all
  · cases h

theorem finish_ne_panic (operation : Operation) (f : Frame) (res : List UInt8)
    (err : Option VmError) (msg : String) : finish operation f res err ≠ .panic msg := by
  unfold finish
  rcases err with _ | err
  · dsimp only
    split_ifs <;> simp
  · simp

/-- **A round that goes on** prepared, executed without an error, and did
not halt. -/
theorem step_next {it : EVMInterpreter} {o : Oracle} {f f' : Frame}
    (h : step it o f = .next f') :
    ∃ operation f₁ f₂ res,
      prepare it o.gasEnv { f with steps := f.steps + 1 } = .ok (operation, f₁) ∧
      execute it o operation.execute f₁ = .ok (f₂, res, none) ∧ operation.halts = false ∧
      f'.memory = f₂.memory ∧ f'.contract = f₂.contract ∧ f'.stack = f₂.stack ∧
      f'.rstack = f₂.rstack ∧ f'.pc = if operation.jumps then f₂.pc else f₂.pc + 1 := by
  unfold step at h
  dsimp only at h
  split_ifs at h
  split at h
  · cases h
  · rename_i operation f₁ hprep
    split at h
    · cases h
    · rename_i f₂ res err hexec
      obtain ⟨rfl, hhalt, hrest⟩ := finish_next h
      exact ⟨operation, f₁, f₂, res, hprep, hexec, hhalt, hrest⟩

/-- **A round panics only in its execution function.** -/
theorem step_panic {it : EVMInterpreter} {o : Oracle} {f : Frame} {msg : String}
    (h : step it o f = .panic msg) :
    ∃ operation f₁, prepare it o.gasEnv { f with steps := f.steps + 1 } = .ok (operation, f₁) ∧
      execute it o operation.execute f₁ = .error msg := by
  unfold step at h
  dsimp only at h
  split_ifs at h
  split at h
  · cases h
  · rename_i operation f₁ hprep
    split at h
    · cases h
      exact ⟨operation, f₁, hprep, ‹_›⟩
    · exact absurd h (finish_ne_panic _ _ _ _ _)

/-- **A round that touches no memory** and has no dynamic gas goes on with
the frame its execution function returns on the charged contract, moved past
the instruction unless it jumps. -/
theorem step_quiet {it : EVMInterpreter} {o : Oracle} {f f' : Frame} {operation : Operation}
    {c : Contract} {res : List UInt8} (habort : o.abort = false) (hread : it.readOnly = false)
    (hop : it.jumpTable (f.contract.getOp f.pc) = some operation)
    (hmin : operation.minStack ≤ f.stack.length) (hmax : f.stack.length ≤ operation.maxStack)
    (hgas : f.contract.useGas operation.constantGas = some c)
    (hsize : operation.memorySize = none) (hdyn : operation.dynamicGas = none)
    (hflags : operation.reverts = false ∧ operation.halts = false ∧ operation.returns = false)
    (hexec : execute it o operation.execute { f with steps := f.steps + 1, contract := c } =
      .ok (f', res, none)) :
    step it o f = .next (if operation.jumps then f' else { f' with pc := f'.pc + 1 }) := by
  obtain ⟨hrev, hhalt, hret⟩ := hflags
  -- `prepare` leaves the memory alone: the memory size is zero
  have hprep : prepare it o.gasEnv { f with steps := f.steps + 1 } =
      .ok (operation, { f with steps := f.steps + 1, contract := c }) := by
    simp [prepare, hop, hread, hgas, memorySizeOf, hsize, chargeDynamicGas, hdyn,
      Nat.not_lt.mpr hmin, Nat.not_lt.mpr hmax]
  unfold step
  simp only [habort, Bool.false_eq_true, and_false, if_false, hprep, hexec]
  cases hj : operation.jumps <;> simp [finish, hrev, hhalt, hret, hj]

/-! ### What an execution function keeps -/

/-- What an execution function keeps of the frame: the memory's length and
recorded fee, and the contract's code, input and sound caches. -/
structure Frame.Keeps (f f' : Frame) : Prop where
  len : f'.memory.len = f.memory.len
  lastGasCost : f'.memory.lastGasCost = f.memory.lastGasCost
  contract : f.contract.Keeps f'.contract

namespace Frame.Keeps

variable {f f' : Frame}

theorem of_eq (hm : f'.memory = f.memory) (hc : f'.contract = f.contract) : f.Keeps f' :=
  ⟨by rw [hm], by rw [hm], by rw [hc]; exact Contract.Keeps.refl _⟩

/-- A frame whose memory went through a `Set` that did not panic. -/
theorem of_set {m : Memory} {offset size : UInt64} {value : List UInt8}
    (hset : f.memory.set offset size value = .ok m) (hm : f'.memory = m)
    (hc : f.contract.Keeps f'.contract) : f.Keeps f' :=
  ⟨by rw [hm]; exact (Memory.set_len hset).1, by rw [hm]; exact (Memory.set_len hset).2, hc⟩

end Frame.Keeps

theorem binaryOp_keeps {g : Word → Word → Word} {f f' : Frame} {res : List UInt8}
    {err : Option VmError} (h : binaryOp g f = .ok (f', res, err)) : f.Keeps f' := by
  cases h
  exact .of_eq rfl rfl

theorem copyOp_keeps {data : List UInt8} {dst src len pops : ℕ} {f f' : Frame}
    {res : List UInt8} {err : Option VmError} (h : copyOp data dst src len pops f = .ok (f', res, err)) :
    f.Keeps f' := by
  obtain ⟨_, -, hrest⟩ := Except.bind_eq_ok.mp h
  obtain ⟨m, hset, hpure⟩ := Except.bind_eq_ok.mp hrest
  cases Except.pure_eq_ok.mp hpure
  exact .of_set hset rfl (Contract.Keeps.refl _)

theorem callOp_keeps {o : Oracle} {inOffset inSize retOffset retSize : ℕ} {f f' : Frame}
    {res : List UInt8} {err : Option VmError}
    (h : callOp o inOffset inSize retOffset retSize f = .ok (f', res, err)) : f.Keeps f' := by
  obtain ⟨_, -, hrest⟩ := Except.bind_eq_ok.mp h
  obtain ⟨m, hmem, hpure⟩ := Except.bind_eq_ok.mp hrest
  cases Except.pure_eq_ok.mp hpure
  have hc := Contract.keeps_withGas f.contract (f.contract.gas + o.returnGas)
  -- the output is copied back only when the call did not fail otherwise
  split at hmem
  · exact .of_set hmem rfl hc
  · cases hmem
    exact ⟨rfl, rfl, hc⟩

theorem jumpTo_keeps {pos : Word} {pops : ℕ} {f f' : Frame} {res : List UInt8}
    {err : Option VmError} (h : jumpTo pos pops f = .ok (f', res, err)) : f.Keeps f' := by
  have hk := Contract.keeps_validJumpdest f.contract pos
  unfold jumpTo at h
  generalize f.contract.validJumpdest pos = r at h hk
  obtain ⟨valid, contract⟩ := r
  cases valid <;> cases h <;> exact ⟨rfl, rfl, hk⟩

/-- The contract a creation leaves: the gas it forwarded taken, the gas it
returned added. -/
theorem keeps_create (c : Contract) (gas returnGas : UInt64) :
    c.Keeps { (c.useGas gas).getD c with gas := ((c.useGas gas).getD c).gas + returnGas } := by
  refine Contract.Keeps.trans ?_ (Contract.keeps_withGas _ _)
  rcases hc : c.useGas gas with _ | c'
  · exact Contract.Keeps.refl c
  · exact Contract.keeps_useGas hc

/-- **An execution function that does not panic** keeps the memory's length
and fee, and the contract's code, input and sound caches. -/
theorem execute_keeps {it : EVMInterpreter} {o : Oracle} {e : ExecutionFunc} {f f' : Frame}
    {res : List UInt8} {err : Option VmError} (h : execute it o e f = .ok (f', res, err)) :
    f.Keeps f' := by
  cases e <;> simp only [execute] at h
  case opAdd | opSub | opMul | opDiv | opLt | opGt | opEq | opAnd | opOr | opXor =>
    exact binaryOp_keeps h
  case opCallDataCopy | opCodeCopy | opExtCodeCopy => exact copyOp_keeps h
  case opCall | opCallCode | opDelegateCall | opStaticCall => exact callOp_keeps h
  case opJump => exact jumpTo_keeps h
  case opJumpi =>
    split at h
    · exact jumpTo_keeps h
    · cases h
      exact .of_eq rfl rfl
  case opJumpSub =>
    have hk := Contract.keeps_validJumpSubdest f.contract (f.stack.back 0).uint64
    split_ifs at h
    · cases h
      exact .of_eq rfl rfl
    · cases h
      exact .of_eq rfl rfl
    -- a refused target and an accepted one both leave the caches `isCode` left
    · cases h
      exact ⟨rfl, rfl, hk⟩
    · cases h
      exact ⟨rfl, rfl, hk⟩
  case opReturnSub =>
    split at h <;> cases h <;> exact .of_eq rfl rfl
  case opSha3 | opMload | opReturn | opRevert | makePush | makeLog =>
    obtain ⟨_, -, h⟩ := Except.map_eq_ok.mp h
    cases h
    exact .of_eq rfl rfl
  case opCreate | opCreate2 =>
    obtain ⟨_, -, h⟩ := Except.map_eq_ok.mp h
    cases h
    exact ⟨rfl, rfl, keeps_create _ _ _⟩
  case opMstore =>
    obtain ⟨m, hset, h⟩ := Except.map_eq_ok.mp h
    cases h
    exact ⟨(Memory.set32_len hset).1, (Memory.set32_len hset).2, Contract.Keeps.refl _⟩
  case opMstore8 =>
    obtain ⟨m, hset, h⟩ := Except.map_eq_ok.mp h
    cases h
    exact ⟨(Memory.setByte_len hset).1, (Memory.setByte_len hset).2, Contract.Keeps.refl _⟩
  case opReturnDataCopy =>
    split_ifs at h
    · cases h
      exact .of_eq rfl rfl
    · cases h
      exact .of_eq rfl rfl
    · obtain ⟨_, -, hrest⟩ := Except.bind_eq_ok.mp h
      obtain ⟨m, hset, hpure⟩ := Except.bind_eq_ok.mp hrest
      cases Except.pure_eq_ok.mp hpure
      exact .of_set hset rfl (Contract.Keeps.refl _)
  -- the rest change at most the stack, `pc` and the return stack
  all_goals
    cases h
    exact .of_eq rfl rfl

/-- `GetOp` past the end of the code is `STOP`. -/
theorem getOp_of_le {c : Contract} {n : UInt64} (h : c.code.length ≤ n.toNat) :
    c.getOp n = STOP := by
  unfold Contract.getOp
  rw [dif_neg (by omega)]
  rfl

/-- `GetOp` inside the code is the byte there. -/
theorem getOp_of_lt {c : Contract} {n : UInt64} (h : n.toNat < c.code.length) :
    c.getOp n = c.code[n.toNat] := by
  unfold Contract.getOp
  rw [dif_pos h]

/-! ### What a run keeps -/

/-- A round that goes on keeps the contract's code, input and sound caches. -/
theorem step_keeps {it : EVMInterpreter} {o : Oracle} {f f' : Frame}
    (h : step it o f = .next f') : f.contract.Keeps f'.contract := by
  obtain ⟨operation, f₁, f₂, res, hprep, hexec, -, -, hc, -⟩ := step_next h
  rw [hc]
  exact (prepare_spec hprep).2.2.2.2.1.trans (execute_keeps hexec).contract

/-- **A run keeps the code and the input**, and the caches sound if they
were. -/
theorem runs_contract {it : EVMInterpreter} {contract : Contract} {input : List UInt8}
    {f : Frame} {fees : ℕ} (h : Runs it contract input f fees) :
    f.contract.code = contract.code ∧ f.contract.input = input ∧
      (contract.AnalysisSound → f.contract.AnalysisSound) := by
  induction h with
  | start _ => exact ⟨rfl, rfl, fun hs => hs⟩
  | step o _ hstep ih =>
    obtain ⟨hcode, hinput, hsound⟩ := ih
    obtain ⟨hcode', hinput', hsound'⟩ := step_keeps hstep
    exact ⟨hcode'.trans hcode, hinput'.trans hinput, hsound' ∘ hsound⟩

/-- A contract whose code is a single `STOP`. -/
def stopContract : Contract := ⟨[STOP], 0, [], 0, none, fun _ => none⟩

/-- An oracle with nothing to say: no abort, no gas beyond the tables', empty
answers. -/
def quietOracle : Oracle :=
  ⟨false, ⟨fun _ => .ok 0, .ok 0⟩, [], 0, [], by decide, [], none, 0, 0⟩

/-- The chain rules of Frontier. -/
def frontierRules : ChainRules := ⟨false, false, false, false, false, false, false⟩

end RpcNetwork.Vm
