import RpcNetwork.Vm.Memory

/-!
# The jump table

Each fork's `JumpTable` (`jump_table.go`) maps an opcode to its `operation`;
later forks change the previous one's entries, and `EnableEIP` (`eips.go`)
applies one of four activators.
`NewEVMInterpreter` picks the table of the chain rules and enables the extra
EIPs of the configuration.

## Design notes

Execution functions are named, not given meaning here: `Interpreter` says
what the loop does with each.  The gas functions that read the chain state
take that part from a `GasEnv`: the call family's charge on top of the memory
fee, and the whole charge of `gasExp…`, `gasSStore…` and `gasSelfdestruct`,
which do not touch memory.  `jt[op].field = v` on a missing entry is a nil
dereference in Go; `JumpTable.modify` leaves it missing, which only adds
tables to those the theorems cover.  A caller-supplied `Config.JumpTable` is not modelled, nor is
the skipping of the EIP after an invalid one in the loop of
`NewEVMInterpreter`: every list of EIPs is covered.
-/

namespace RpcNetwork.Vm

/-! ### Opcodes (`opcodes.go`) -/

def STOP : OpCode := 0x00
def ADD : OpCode := 0x01
def MUL : OpCode := 0x02
def SUB : OpCode := 0x03
def DIV : OpCode := 0x04
def SDIV : OpCode := 0x05
def MOD : OpCode := 0x06
def SMOD : OpCode := 0x07
def ADDMOD : OpCode := 0x08
def MULMOD : OpCode := 0x09
def EXP : OpCode := 0x0a
def SIGNEXTEND : OpCode := 0x0b
def LT : OpCode := 0x10
def GT : OpCode := 0x11
def SLT : OpCode := 0x12
def SGT : OpCode := 0x13
def EQ : OpCode := 0x14
def ISZERO : OpCode := 0x15
def AND : OpCode := 0x16
def OR : OpCode := 0x17
def XOR : OpCode := 0x18
def NOT : OpCode := 0x19
def BYTE : OpCode := 0x1a
def SHL : OpCode := 0x1b
def SHR : OpCode := 0x1c
def SAR : OpCode := 0x1d
def SHA3 : OpCode := 0x20
def ADDRESS : OpCode := 0x30
def BALANCE : OpCode := 0x31
def ORIGIN : OpCode := 0x32
def CALLER : OpCode := 0x33
def CALLVALUE : OpCode := 0x34
def CALLDATALOAD : OpCode := 0x35
def CALLDATASIZE : OpCode := 0x36
def CALLDATACOPY : OpCode := 0x37
def CODESIZE : OpCode := 0x38
def CODECOPY : OpCode := 0x39
def GASPRICE : OpCode := 0x3a
def EXTCODESIZE : OpCode := 0x3b
def EXTCODECOPY : OpCode := 0x3c
def RETURNDATASIZE : OpCode := 0x3d
def RETURNDATACOPY : OpCode := 0x3e
def EXTCODEHASH : OpCode := 0x3f
def BLOCKHASH : OpCode := 0x40
def COINBASE : OpCode := 0x41
def TIMESTAMP : OpCode := 0x42
def NUMBER : OpCode := 0x43
def DIFFICULTY : OpCode := 0x44
def GASLIMIT : OpCode := 0x45
def CHAINID : OpCode := 0x46
def SELFBALANCE : OpCode := 0x47
def POP : OpCode := 0x50
def MLOAD : OpCode := 0x51
def MSTORE : OpCode := 0x52
def MSTORE8 : OpCode := 0x53
def SLOAD : OpCode := 0x54
def SSTORE : OpCode := 0x55
def JUMP : OpCode := 0x56
def JUMPI : OpCode := 0x57
def PC : OpCode := 0x58
def MSIZE : OpCode := 0x59
def GAS : OpCode := 0x5a
def RETURNSUB : OpCode := 0x5d
def JUMPSUB : OpCode := 0x5e
def PUSH2 : OpCode := 0x61
def PUSH3 : OpCode := 0x62
def PUSH4 : OpCode := 0x63
def PUSH5 : OpCode := 0x64
def PUSH6 : OpCode := 0x65
def PUSH7 : OpCode := 0x66
def PUSH8 : OpCode := 0x67
def PUSH9 : OpCode := 0x68
def PUSH10 : OpCode := 0x69
def PUSH11 : OpCode := 0x6a
def PUSH12 : OpCode := 0x6b
def PUSH13 : OpCode := 0x6c
def PUSH14 : OpCode := 0x6d
def PUSH15 : OpCode := 0x6e
def PUSH16 : OpCode := 0x6f
def PUSH17 : OpCode := 0x70
def PUSH18 : OpCode := 0x71
def PUSH19 : OpCode := 0x72
def PUSH20 : OpCode := 0x73
def PUSH21 : OpCode := 0x74
def PUSH22 : OpCode := 0x75
def PUSH23 : OpCode := 0x76
def PUSH24 : OpCode := 0x77
def PUSH25 : OpCode := 0x78
def PUSH26 : OpCode := 0x79
def PUSH27 : OpCode := 0x7a
def PUSH28 : OpCode := 0x7b
def PUSH29 : OpCode := 0x7c
def PUSH30 : OpCode := 0x7d
def PUSH31 : OpCode := 0x7e
def DUP1 : OpCode := 0x80
def DUP2 : OpCode := 0x81
def DUP3 : OpCode := 0x82
def DUP4 : OpCode := 0x83
def DUP5 : OpCode := 0x84
def DUP6 : OpCode := 0x85
def DUP7 : OpCode := 0x86
def DUP8 : OpCode := 0x87
def DUP9 : OpCode := 0x88
def DUP10 : OpCode := 0x89
def DUP11 : OpCode := 0x8a
def DUP12 : OpCode := 0x8b
def DUP13 : OpCode := 0x8c
def DUP14 : OpCode := 0x8d
def DUP15 : OpCode := 0x8e
def DUP16 : OpCode := 0x8f
def SWAP1 : OpCode := 0x90
def SWAP2 : OpCode := 0x91
def SWAP3 : OpCode := 0x92
def SWAP4 : OpCode := 0x93
def SWAP5 : OpCode := 0x94
def SWAP6 : OpCode := 0x95
def SWAP7 : OpCode := 0x96
def SWAP8 : OpCode := 0x97
def SWAP9 : OpCode := 0x98
def SWAP10 : OpCode := 0x99
def SWAP11 : OpCode := 0x9a
def SWAP12 : OpCode := 0x9b
def SWAP13 : OpCode := 0x9c
def SWAP14 : OpCode := 0x9d
def SWAP15 : OpCode := 0x9e
def SWAP16 : OpCode := 0x9f
def LOG0 : OpCode := 0xa0
def LOG1 : OpCode := 0xa1
def LOG2 : OpCode := 0xa2
def LOG3 : OpCode := 0xa3
def LOG4 : OpCode := 0xa4
def CREATE : OpCode := 0xf0
def CALL : OpCode := 0xf1
def CALLCODE : OpCode := 0xf2
def RETURN : OpCode := 0xf3
def DELEGATECALL : OpCode := 0xf4
def CREATE2 : OpCode := 0xf5
def STATICCALL : OpCode := 0xfa
def REVERT : OpCode := 0xfd
def SELFDESTRUCT : OpCode := 0xff

/-! ### What a table names -/

/-- The execution functions (`instructions.go`, `eips.go`). -/
inductive ExecutionFunc where
  | opStop | opAdd | opMul | opSub | opDiv | opSdiv | opMod | opSmod | opAddmod | opMulmod
  | opExp | opSignExtend | opLt | opGt | opSlt | opSgt | opEq | opIszero | opAnd | opOr | opXor
  | opNot | opByte | opSHL | opSHR | opSAR | opSha3 | opAddress | opBalance | opOrigin
  | opCaller | opCallValue | opCallDataLoad | opCallDataSize | opCallDataCopy | opCodeSize
  | opCodeCopy | opGasprice | opExtCodeSize | opExtCodeCopy | opReturnDataSize
  | opReturnDataCopy | opExtCodeHash | opBlockhash | opCoinbase | opTimestamp | opNumber
  | opDifficulty | opGasLimit | opChainID | opSelfBalance | opPop | opMload | opMstore
  | opMstore8 | opSload | opSstore | opJump | opJumpi | opPc | opMsize | opGas | opJumpdest
  | opBeginSub | opReturnSub | opJumpSub | opPush1 | opCreate | opCall | opCallCode | opReturn
  | opDelegateCall | opCreate2 | opStaticCall | opRevert | opSuicide
  | makePush (size pushByteSize : ℕ)
  | makeDup (size : ℕ)
  | makeSwap (size : ℕ)
  | makeLog (size : ℕ)
  deriving DecidableEq, Repr

/-- The dynamic gas functions (`gas_table.go`, `eips.go`). -/
inductive GasFunc where
  | gasCallDataCopy | gasCodeCopy | gasExtCodeCopy | gasReturnDataCopy
  | gasMLoad | gasMStore | gasMStore8 | gasReturn | gasRevert | gasCreate
  | gasSha3 | gasCreate2 | makeGasLog (n : ℕ)
  | gasCall | gasCallCode | gasDelegateCall | gasStaticCall
  | gasExpFrontier | gasExpEIP158 | gasSStore | gasSStoreEIP2200 | gasSelfdestruct
  deriving DecidableEq, Repr

/-- The memory size functions (`memory_table.go`). -/
inductive MemorySizeFunc where
  | memorySha3 | memoryCallDataCopy | memoryReturnDataCopy | memoryCodeCopy
  | memoryExtCodeCopy | memoryMLoad | memoryMStore8 | memoryMStore | memoryCreate
  | memoryCreate2 | memoryCall | memoryDelegateCall | memoryStaticCall | memoryReturn
  | memoryRevert | memoryLog
  deriving DecidableEq, Repr

/-- The size functions of `Memory`. -/
def MemorySizeFunc.eval : MemorySizeFunc → Stack → UInt64 × Bool
  | .memorySha3 => RpcNetwork.Vm.memorySha3
  | .memoryCallDataCopy => RpcNetwork.Vm.memoryCallDataCopy
  | .memoryReturnDataCopy => RpcNetwork.Vm.memoryReturnDataCopy
  | .memoryCodeCopy => RpcNetwork.Vm.memoryCodeCopy
  | .memoryExtCodeCopy => RpcNetwork.Vm.memoryExtCodeCopy
  | .memoryMLoad => RpcNetwork.Vm.memoryMLoad
  | .memoryMStore8 => RpcNetwork.Vm.memoryMStore8
  | .memoryMStore => RpcNetwork.Vm.memoryMStore
  | .memoryCreate => RpcNetwork.Vm.memoryCreate
  | .memoryCreate2 => RpcNetwork.Vm.memoryCreate2
  | .memoryCall => RpcNetwork.Vm.memoryCall
  | .memoryDelegateCall => RpcNetwork.Vm.memoryDelegateCall
  | .memoryStaticCall => RpcNetwork.Vm.memoryStaticCall
  | .memoryReturn => RpcNetwork.Vm.memoryReturn
  | .memoryRevert => RpcNetwork.Vm.memoryRevert
  | .memoryLog => RpcNetwork.Vm.memoryLog

/-- The part of the gas functions that reads the chain state. -/
structure GasEnv where
  /-- The call family's charge on top of the memory fee: account creation and
  value transfer, and the gas `callGas` forwards. -/
  callCost : UInt64 → Except VmError UInt64
  /-- The whole charge of a gas function that reads only the state. -/
  stateCost : Except VmError UInt64

namespace GasFunc

/-- The gas functions that call `memoryGasCost`. -/
def chargesMemory : GasFunc → Bool
  | gasExpFrontier | gasExpEIP158 | gasSStore | gasSStoreEIP2200 | gasSelfdestruct => false
  | _ => true

/-- A gas function: the cost, and the memory with the fee it recorded. -/
def run (env : GasEnv) : GasFunc → Stack → Memory → UInt64 → Except VmError (UInt64 × Memory)
  | gasMLoad | gasMStore | gasMStore8 | gasReturn | gasRevert | gasCreate =>
    fun _ mem memorySize => pureMemoryGascost mem memorySize
  | gasCallDataCopy | gasCodeCopy | gasReturnDataCopy => memoryCopierGas 2
  | gasExtCodeCopy => memoryCopierGas 3
  | gasSha3 => RpcNetwork.Vm.gasSha3
  | gasCreate2 => RpcNetwork.Vm.gasCreate2
  | makeGasLog n => RpcNetwork.Vm.makeGasLog n.toUInt64
  | gasCall | gasCallCode | gasDelegateCall | gasStaticCall => fun _ mem memorySize =>
    (memoryGasCost mem memorySize).bind fun (gas, mem) => (env.callCost gas).map (·, mem)
  | gasExpFrontier | gasExpEIP158 | gasSStore | gasSStoreEIP2200 | gasSelfdestruct =>
    fun _ mem _ => env.stateCost.map (·, mem)

/-- **A gas function touches memory only through `memoryGasCost`**. -/
theorem run_mem {env : GasEnv} {g : GasFunc} {stack : Stack} {mem mem' : Memory}
    {memorySize cost : UInt64} (h : g.run env stack mem memorySize = .ok (cost, mem')) :
    (g.chargesMemory = true → ∃ fee, memoryGasCost mem memorySize = .ok (fee, mem')) ∧
    (g.chargesMemory = false → mem' = mem) := by
  cases g <;> simp only [chargesMemory, Bool.false_eq_true, Bool.true_eq_false, false_implies,
    true_implies, and_true, true_and] <;> unfold run at h
  case gasMLoad | gasMStore | gasMStore8 | gasReturn | gasRevert | gasCreate => exact ⟨cost, h⟩
  case gasCallDataCopy | gasCodeCopy | gasReturnDataCopy | gasExtCodeCopy | gasSha3 | gasCreate2 =>
    obtain ⟨fee, hmem, -⟩ := memoryWordGas_spec h
    exact ⟨fee, hmem⟩
  case makeGasLog n => exact makeGasLog_mem h
  case gasCall | gasCallCode | gasDelegateCall | gasStaticCall =>
    -- the state's part of the charge comes after the memory fee
    obtain ⟨⟨fee, m₁⟩, hmem, hrest⟩ := Except.bind_eq_ok.mp h
    obtain ⟨c, -, hc⟩ := Except.map_eq_ok.mp hrest
    obtain ⟨-, rfl⟩ := Prod.mk.inj hc
    exact ⟨fee, hmem⟩
  case gasExpFrontier | gasExpEIP158 | gasSStore | gasSStoreEIP2200 | gasSelfdestruct =>
    obtain ⟨c, -, hc⟩ := Except.map_eq_ok.mp h
    exact (Prod.mk.inj hc).2.symm

end GasFunc

/-! ### Tables -/

/-- `operation`; the fields Go leaves out of an entry are zero. -/
structure Operation where
  execute : ExecutionFunc
  constantGas : UInt64 := 0
  dynamicGas : Option GasFunc := none
  minStack : ℕ
  maxStack : ℕ
  memorySize : Option MemorySizeFunc := none
  halts : Bool := false
  jumps : Bool := false
  writes : Bool := false
  reverts : Bool := false
  returns : Bool := false
  deriving DecidableEq, Repr

/-- `minStack(pops, push)`. -/
def minStack (pops _push : ℕ) : ℕ := pops
/-- `maxStack(pop, push)`: `params.StackLimit + pop - push`. -/
def maxStack (pop push : ℕ) : ℕ := 1024 + pop - push
/-- `minDupStack(n)`. -/
def minDupStack (n : ℕ) : ℕ := minStack n (n + 1)
/-- `maxDupStack(n)`. -/
def maxDupStack (n : ℕ) : ℕ := maxStack n (n + 1)
/-- `minSwapStack(n)`. -/
def minSwapStack (n : ℕ) : ℕ := minStack n n
/-- `maxSwapStack(n)`. -/
def maxSwapStack (n : ℕ) : ℕ := maxStack n n

/-- `GasQuickStep`. -/
def gasQuickStep : UInt64 := 2
/-- `GasFastestStep`. -/
def gasFastestStep : UInt64 := 3
/-- `GasFastStep`. -/
def gasFastStep : UInt64 := 5
/-- `GasMidStep`. -/
def gasMidStep : UInt64 := 8
/-- `GasSlowStep`. -/
def gasSlowStep : UInt64 := 10
/-- `GasExtStep`. -/
def gasExtStep : UInt64 := 20

namespace Params

/-! The constant gas of `params` that the tables use. -/

def balanceGasFrontier : UInt64 := 20
def balanceGasEIP150 : UInt64 := 400
def balanceGasEIP1884 : UInt64 := 700
def callGasFrontier : UInt64 := 40
def callGasEIP150 : UInt64 := 700
def createGas : UInt64 := 32000
def create2Gas : UInt64 := 32000
def extcodeCopyBaseFrontier : UInt64 := 20
def extcodeCopyBaseEIP150 : UInt64 := 700
def extcodeSizeGasFrontier : UInt64 := 20
def extcodeSizeGasEIP150 : UInt64 := 700
def extcodeHashGasConstantinople : UInt64 := 400
def extcodeHashGasEIP1884 : UInt64 := 700
def jumpdestGas : UInt64 := 1
def sha3Gas : UInt64 := 30
def sloadGasFrontier : UInt64 := 50
def sloadGasEIP150 : UInt64 := 200
def sloadGasEIP1884 : UInt64 := 800
def sloadGasEIP2200 : UInt64 := 800

end Params

/-- `JumpTable`: the operation of each opcode, if any. -/
abbrev JumpTable := OpCode → Option Operation

namespace JumpTable

/-- A table written out as its entries. -/
def ofList (entries : List (OpCode × Operation)) : JumpTable := fun op => entries.lookup op

/-- `jt[op] = &operation{…}`. -/
def set (jt : JumpTable) (op : OpCode) (o : Operation) : JumpTable :=
  fun op' => if op' = op then some o else jt op'

/-- `jt[op].field = v`, as `f`. -/
def modify (jt : JumpTable) (op : OpCode) (f : Operation → Operation) : JumpTable :=
  fun op' => if op' = op then (jt op).map f else jt op'

@[simp] theorem set_apply (jt : JumpTable) (op op' : OpCode) (o : Operation) :
    jt.set op o op' = if op' = op then some o else jt op' := rfl

@[simp] theorem modify_apply (jt : JumpTable) (op op' : OpCode) (f : Operation → Operation) :
    jt.modify op f op' = if op' = op then (jt op).map f else jt op' := rfl

end JumpTable

/-- The entries of `newFrontierInstructionSet`. -/
def frontierEntries : List (OpCode × Operation) := [
  (STOP,
    { execute := .opStop, constantGas := 0, minStack := minStack 0 0, maxStack := maxStack 0 0,
      halts := true }),
  (ADD,
    { execute := .opAdd, constantGas := gasFastestStep, minStack := minStack 2 1,
      maxStack := maxStack 2 1 }),
  (MUL,
    { execute := .opMul, constantGas := gasFastStep, minStack := minStack 2 1,
      maxStack := maxStack 2 1 }),
  (SUB,
    { execute := .opSub, constantGas := gasFastestStep, minStack := minStack 2 1,
      maxStack := maxStack 2 1 }),
  (DIV,
    { execute := .opDiv, constantGas := gasFastStep, minStack := minStack 2 1,
      maxStack := maxStack 2 1 }),
  (SDIV,
    { execute := .opSdiv, constantGas := gasFastStep, minStack := minStack 2 1,
      maxStack := maxStack 2 1 }),
  (MOD,
    { execute := .opMod, constantGas := gasFastStep, minStack := minStack 2 1,
      maxStack := maxStack 2 1 }),
  (SMOD,
    { execute := .opSmod, constantGas := gasFastStep, minStack := minStack 2 1,
      maxStack := maxStack 2 1 }),
  (ADDMOD,
    { execute := .opAddmod, constantGas := gasMidStep, minStack := minStack 3 1,
      maxStack := maxStack 3 1 }),
  (MULMOD,
    { execute := .opMulmod, constantGas := gasMidStep, minStack := minStack 3 1,
      maxStack := maxStack 3 1 }),
  (EXP,
    { execute := .opExp, dynamicGas := some .gasExpFrontier, minStack := minStack 2 1,
      maxStack := maxStack 2 1 }),
  (SIGNEXTEND,
    { execute := .opSignExtend, constantGas := gasFastStep, minStack := minStack 2 1,
      maxStack := maxStack 2 1 }),
  (LT,
    { execute := .opLt, constantGas := gasFastestStep, minStack := minStack 2 1,
      maxStack := maxStack 2 1 }),
  (GT,
    { execute := .opGt, constantGas := gasFastestStep, minStack := minStack 2 1,
      maxStack := maxStack 2 1 }),
  (SLT,
    { execute := .opSlt, constantGas := gasFastestStep, minStack := minStack 2 1,
      maxStack := maxStack 2 1 }),
  (SGT,
    { execute := .opSgt, constantGas := gasFastestStep, minStack := minStack 2 1,
      maxStack := maxStack 2 1 }),
  (EQ,
    { execute := .opEq, constantGas := gasFastestStep, minStack := minStack 2 1,
      maxStack := maxStack 2 1 }),
  (ISZERO,
    { execute := .opIszero, constantGas := gasFastestStep, minStack := minStack 1 1,
      maxStack := maxStack 1 1 }),
  (AND,
    { execute := .opAnd, constantGas := gasFastestStep, minStack := minStack 2 1,
      maxStack := maxStack 2 1 }),
  (XOR,
    { execute := .opXor, constantGas := gasFastestStep, minStack := minStack 2 1,
      maxStack := maxStack 2 1 }),
  (OR,
    { execute := .opOr, constantGas := gasFastestStep, minStack := minStack 2 1,
      maxStack := maxStack 2 1 }),
  (NOT,
    { execute := .opNot, constantGas := gasFastestStep, minStack := minStack 1 1,
      maxStack := maxStack 1 1 }),
  (BYTE,
    { execute := .opByte, constantGas := gasFastestStep, minStack := minStack 2 1,
      maxStack := maxStack 2 1 }),
  (SHA3,
    { execute := .opSha3, constantGas := Params.sha3Gas, dynamicGas := some .gasSha3,
      minStack := minStack 2 1, maxStack := maxStack 2 1, memorySize := some .memorySha3 }),
  (ADDRESS,
    { execute := .opAddress, constantGas := gasQuickStep, minStack := minStack 0 1,
      maxStack := maxStack 0 1 }),
  (BALANCE,
    { execute := .opBalance, constantGas := Params.balanceGasFrontier, minStack := minStack 1 1,
      maxStack := maxStack 1 1 }),
  (ORIGIN,
    { execute := .opOrigin, constantGas := gasQuickStep, minStack := minStack 0 1,
      maxStack := maxStack 0 1 }),
  (CALLER,
    { execute := .opCaller, constantGas := gasQuickStep, minStack := minStack 0 1,
      maxStack := maxStack 0 1 }),
  (CALLVALUE,
    { execute := .opCallValue, constantGas := gasQuickStep, minStack := minStack 0 1,
      maxStack := maxStack 0 1 }),
  (CALLDATALOAD,
    { execute := .opCallDataLoad, constantGas := gasFastestStep, minStack := minStack 1 1,
      maxStack := maxStack 1 1 }),
  (CALLDATASIZE,
    { execute := .opCallDataSize, constantGas := gasQuickStep, minStack := minStack 0 1,
      maxStack := maxStack 0 1 }),
  (CALLDATACOPY,
    { execute := .opCallDataCopy, constantGas := gasFastestStep,
      dynamicGas := some .gasCallDataCopy, minStack := minStack 3 0, maxStack := maxStack 3 0,
      memorySize := some .memoryCallDataCopy }),
  (CODESIZE,
    { execute := .opCodeSize, constantGas := gasQuickStep, minStack := minStack 0 1,
      maxStack := maxStack 0 1 }),
  (CODECOPY,
    { execute := .opCodeCopy, constantGas := gasFastestStep, dynamicGas := some .gasCodeCopy,
      minStack := minStack 3 0, maxStack := maxStack 3 0, memorySize := some .memoryCodeCopy }),
  (GASPRICE,
    { execute := .opGasprice, constantGas := gasQuickStep, minStack := minStack 0 1,
      maxStack := maxStack 0 1 }),
  (EXTCODESIZE,
    { execute := .opExtCodeSize, constantGas := Params.extcodeSizeGasFrontier,
      minStack := minStack 1 1, maxStack := maxStack 1 1 }),
  (EXTCODECOPY,
    { execute := .opExtCodeCopy, constantGas := Params.extcodeCopyBaseFrontier,
      dynamicGas := some .gasExtCodeCopy, minStack := minStack 4 0, maxStack := maxStack 4 0,
      memorySize := some .memoryExtCodeCopy }),
  (BLOCKHASH,
    { execute := .opBlockhash, constantGas := gasExtStep, minStack := minStack 1 1,
      maxStack := maxStack 1 1 }),
  (COINBASE,
    { execute := .opCoinbase, constantGas := gasQuickStep, minStack := minStack 0 1,
      maxStack := maxStack 0 1 }),
  (TIMESTAMP,
    { execute := .opTimestamp, constantGas := gasQuickStep, minStack := minStack 0 1,
      maxStack := maxStack 0 1 }),
  (NUMBER,
    { execute := .opNumber, constantGas := gasQuickStep, minStack := minStack 0 1,
      maxStack := maxStack 0 1 }),
  (DIFFICULTY,
    { execute := .opDifficulty, constantGas := gasQuickStep, minStack := minStack 0 1,
      maxStack := maxStack 0 1 }),
  (GASLIMIT,
    { execute := .opGasLimit, constantGas := gasQuickStep, minStack := minStack 0 1,
      maxStack := maxStack 0 1 }),
  (POP,
    { execute := .opPop, constantGas := gasQuickStep, minStack := minStack 1 0,
      maxStack := maxStack 1 0 }),
  (MLOAD,
    { execute := .opMload, constantGas := gasFastestStep, dynamicGas := some .gasMLoad,
      minStack := minStack 1 1, maxStack := maxStack 1 1, memorySize := some .memoryMLoad }),
  (MSTORE,
    { execute := .opMstore, constantGas := gasFastestStep, dynamicGas := some .gasMStore,
      minStack := minStack 2 0, maxStack := maxStack 2 0, memorySize := some .memoryMStore }),
  (MSTORE8,
    { execute := .opMstore8, constantGas := gasFastestStep, dynamicGas := some .gasMStore8,
      minStack := minStack 2 0, maxStack := maxStack 2 0, memorySize := some .memoryMStore8 }),
  (SLOAD,
    { execute := .opSload, constantGas := Params.sloadGasFrontier, minStack := minStack 1 1,
      maxStack := maxStack 1 1 }),
  (SSTORE,
    { execute := .opSstore, dynamicGas := some .gasSStore, minStack := minStack 2 0,
      maxStack := maxStack 2 0, writes := true }),
  (JUMP,
    { execute := .opJump, constantGas := gasMidStep, minStack := minStack 1 0,
      maxStack := maxStack 1 0, jumps := true }),
  (JUMPI,
    { execute := .opJumpi, constantGas := gasSlowStep, minStack := minStack 2 0,
      maxStack := maxStack 2 0, jumps := true }),
  (PC,
    { execute := .opPc, constantGas := gasQuickStep, minStack := minStack 0 1,
      maxStack := maxStack 0 1 }),
  (MSIZE,
    { execute := .opMsize, constantGas := gasQuickStep, minStack := minStack 0 1,
      maxStack := maxStack 0 1 }),
  (GAS,
    { execute := .opGas, constantGas := gasQuickStep, minStack := minStack 0 1,
      maxStack := maxStack 0 1 }),
  (JUMPDEST,
    { execute := .opJumpdest, constantGas := Params.jumpdestGas, minStack := minStack 0 0,
      maxStack := maxStack 0 0 }),
  (PUSH1,
    { execute := .opPush1, constantGas := gasFastestStep, minStack := minStack 0 1,
      maxStack := maxStack 0 1 }),
  (PUSH2,
    { execute := .makePush 2 2, constantGas := gasFastestStep, minStack := minStack 0 1,
      maxStack := maxStack 0 1 }),
  (PUSH3,
    { execute := .makePush 3 3, constantGas := gasFastestStep, minStack := minStack 0 1,
      maxStack := maxStack 0 1 }),
  (PUSH4,
    { execute := .makePush 4 4, constantGas := gasFastestStep, minStack := minStack 0 1,
      maxStack := maxStack 0 1 }),
  (PUSH5,
    { execute := .makePush 5 5, constantGas := gasFastestStep, minStack := minStack 0 1,
      maxStack := maxStack 0 1 }),
  (PUSH6,
    { execute := .makePush 6 6, constantGas := gasFastestStep, minStack := minStack 0 1,
      maxStack := maxStack 0 1 }),
  (PUSH7,
    { execute := .makePush 7 7, constantGas := gasFastestStep, minStack := minStack 0 1,
      maxStack := maxStack 0 1 }),
  (PUSH8,
    { execute := .makePush 8 8, constantGas := gasFastestStep, minStack := minStack 0 1,
      maxStack := maxStack 0 1 }),
  (PUSH9,
    { execute := .makePush 9 9, constantGas := gasFastestStep, minStack := minStack 0 1,
      maxStack := maxStack 0 1 }),
  (PUSH10,
    { execute := .makePush 10 10, constantGas := gasFastestStep, minStack := minStack 0 1,
      maxStack := maxStack 0 1 }),
  (PUSH11,
    { execute := .makePush 11 11, constantGas := gasFastestStep, minStack := minStack 0 1,
      maxStack := maxStack 0 1 }),
  (PUSH12,
    { execute := .makePush 12 12, constantGas := gasFastestStep, minStack := minStack 0 1,
      maxStack := maxStack 0 1 }),
  (PUSH13,
    { execute := .makePush 13 13, constantGas := gasFastestStep, minStack := minStack 0 1,
      maxStack := maxStack 0 1 }),
  (PUSH14,
    { execute := .makePush 14 14, constantGas := gasFastestStep, minStack := minStack 0 1,
      maxStack := maxStack 0 1 }),
  (PUSH15,
    { execute := .makePush 15 15, constantGas := gasFastestStep, minStack := minStack 0 1,
      maxStack := maxStack 0 1 }),
  (PUSH16,
    { execute := .makePush 16 16, constantGas := gasFastestStep, minStack := minStack 0 1,
      maxStack := maxStack 0 1 }),
  (PUSH17,
    { execute := .makePush 17 17, constantGas := gasFastestStep, minStack := minStack 0 1,
      maxStack := maxStack 0 1 }),
  (PUSH18,
    { execute := .makePush 18 18, constantGas := gasFastestStep, minStack := minStack 0 1,
      maxStack := maxStack 0 1 }),
  (PUSH19,
    { execute := .makePush 19 19, constantGas := gasFastestStep, minStack := minStack 0 1,
      maxStack := maxStack 0 1 }),
  (PUSH20,
    { execute := .makePush 20 20, constantGas := gasFastestStep, minStack := minStack 0 1,
      maxStack := maxStack 0 1 }),
  (PUSH21,
    { execute := .makePush 21 21, constantGas := gasFastestStep, minStack := minStack 0 1,
      maxStack := maxStack 0 1 }),
  (PUSH22,
    { execute := .makePush 22 22, constantGas := gasFastestStep, minStack := minStack 0 1,
      maxStack := maxStack 0 1 }),
  (PUSH23,
    { execute := .makePush 23 23, constantGas := gasFastestStep, minStack := minStack 0 1,
      maxStack := maxStack 0 1 }),
  (PUSH24,
    { execute := .makePush 24 24, constantGas := gasFastestStep, minStack := minStack 0 1,
      maxStack := maxStack 0 1 }),
  (PUSH25,
    { execute := .makePush 25 25, constantGas := gasFastestStep, minStack := minStack 0 1,
      maxStack := maxStack 0 1 }),
  (PUSH26,
    { execute := .makePush 26 26, constantGas := gasFastestStep, minStack := minStack 0 1,
      maxStack := maxStack 0 1 }),
  (PUSH27,
    { execute := .makePush 27 27, constantGas := gasFastestStep, minStack := minStack 0 1,
      maxStack := maxStack 0 1 }),
  (PUSH28,
    { execute := .makePush 28 28, constantGas := gasFastestStep, minStack := minStack 0 1,
      maxStack := maxStack 0 1 }),
  (PUSH29,
    { execute := .makePush 29 29, constantGas := gasFastestStep, minStack := minStack 0 1,
      maxStack := maxStack 0 1 }),
  (PUSH30,
    { execute := .makePush 30 30, constantGas := gasFastestStep, minStack := minStack 0 1,
      maxStack := maxStack 0 1 }),
  (PUSH31,
    { execute := .makePush 31 31, constantGas := gasFastestStep, minStack := minStack 0 1,
      maxStack := maxStack 0 1 }),
  (PUSH32,
    { execute := .makePush 32 32, constantGas := gasFastestStep, minStack := minStack 0 1,
      maxStack := maxStack 0 1 }),
  (DUP1,
    { execute := .makeDup 1, constantGas := gasFastestStep, minStack := minDupStack 1,
      maxStack := maxDupStack 1 }),
  (DUP2,
    { execute := .makeDup 2, constantGas := gasFastestStep, minStack := minDupStack 2,
      maxStack := maxDupStack 2 }),
  (DUP3,
    { execute := .makeDup 3, constantGas := gasFastestStep, minStack := minDupStack 3,
      maxStack := maxDupStack 3 }),
  (DUP4,
    { execute := .makeDup 4, constantGas := gasFastestStep, minStack := minDupStack 4,
      maxStack := maxDupStack 4 }),
  (DUP5,
    { execute := .makeDup 5, constantGas := gasFastestStep, minStack := minDupStack 5,
      maxStack := maxDupStack 5 }),
  (DUP6,
    { execute := .makeDup 6, constantGas := gasFastestStep, minStack := minDupStack 6,
      maxStack := maxDupStack 6 }),
  (DUP7,
    { execute := .makeDup 7, constantGas := gasFastestStep, minStack := minDupStack 7,
      maxStack := maxDupStack 7 }),
  (DUP8,
    { execute := .makeDup 8, constantGas := gasFastestStep, minStack := minDupStack 8,
      maxStack := maxDupStack 8 }),
  (DUP9,
    { execute := .makeDup 9, constantGas := gasFastestStep, minStack := minDupStack 9,
      maxStack := maxDupStack 9 }),
  (DUP10,
    { execute := .makeDup 10, constantGas := gasFastestStep, minStack := minDupStack 10,
      maxStack := maxDupStack 10 }),
  (DUP11,
    { execute := .makeDup 11, constantGas := gasFastestStep, minStack := minDupStack 11,
      maxStack := maxDupStack 11 }),
  (DUP12,
    { execute := .makeDup 12, constantGas := gasFastestStep, minStack := minDupStack 12,
      maxStack := maxDupStack 12 }),
  (DUP13,
    { execute := .makeDup 13, constantGas := gasFastestStep, minStack := minDupStack 13,
      maxStack := maxDupStack 13 }),
  (DUP14,
    { execute := .makeDup 14, constantGas := gasFastestStep, minStack := minDupStack 14,
      maxStack := maxDupStack 14 }),
  (DUP15,
    { execute := .makeDup 15, constantGas := gasFastestStep, minStack := minDupStack 15,
      maxStack := maxDupStack 15 }),
  (DUP16,
    { execute := .makeDup 16, constantGas := gasFastestStep, minStack := minDupStack 16,
      maxStack := maxDupStack 16 }),
  (SWAP1,
    { execute := .makeSwap 1, constantGas := gasFastestStep, minStack := minSwapStack 2,
      maxStack := maxSwapStack 2 }),
  (SWAP2,
    { execute := .makeSwap 2, constantGas := gasFastestStep, minStack := minSwapStack 3,
      maxStack := maxSwapStack 3 }),
  (SWAP3,
    { execute := .makeSwap 3, constantGas := gasFastestStep, minStack := minSwapStack 4,
      maxStack := maxSwapStack 4 }),
  (SWAP4,
    { execute := .makeSwap 4, constantGas := gasFastestStep, minStack := minSwapStack 5,
      maxStack := maxSwapStack 5 }),
  (SWAP5,
    { execute := .makeSwap 5, constantGas := gasFastestStep, minStack := minSwapStack 6,
      maxStack := maxSwapStack 6 }),
  (SWAP6,
    { execute := .makeSwap 6, constantGas := gasFastestStep, minStack := minSwapStack 7,
      maxStack := maxSwapStack 7 }),
  (SWAP7,
    { execute := .makeSwap 7, constantGas := gasFastestStep, minStack := minSwapStack 8,
      maxStack := maxSwapStack 8 }),
  (SWAP8,
    { execute := .makeSwap 8, constantGas := gasFastestStep, minStack := minSwapStack 9,
      maxStack := maxSwapStack 9 }),
  (SWAP9,
    { execute := .makeSwap 9, constantGas := gasFastestStep, minStack := minSwapStack 10,
      maxStack := maxSwapStack 10 }),
  (SWAP10,
    { execute := .makeSwap 10, constantGas := gasFastestStep, minStack := minSwapStack 11,
      maxStack := maxSwapStack 11 }),
  (SWAP11,
    { execute := .makeSwap 11, constantGas := gasFastestStep, minStack := minSwapStack 12,
      maxStack := maxSwapStack 12 }),
  (SWAP12,
    { execute := .makeSwap 12, constantGas := gasFastestStep, minStack := minSwapStack 13,
      maxStack := maxSwapStack 13 }),
  (SWAP13,
    { execute := .makeSwap 13, constantGas := gasFastestStep, minStack := minSwapStack 14,
      maxStack := maxSwapStack 14 }),
  (SWAP14,
    { execute := .makeSwap 14, constantGas := gasFastestStep, minStack := minSwapStack 15,
      maxStack := maxSwapStack 15 }),
  (SWAP15,
    { execute := .makeSwap 15, constantGas := gasFastestStep, minStack := minSwapStack 16,
      maxStack := maxSwapStack 16 }),
  (SWAP16,
    { execute := .makeSwap 16, constantGas := gasFastestStep, minStack := minSwapStack 17,
      maxStack := maxSwapStack 17 }),
  (LOG0,
    { execute := .makeLog 0, dynamicGas := some (.makeGasLog 0), minStack := minStack 2 0,
      maxStack := maxStack 2 0, memorySize := some .memoryLog, writes := true }),
  (LOG1,
    { execute := .makeLog 1, dynamicGas := some (.makeGasLog 1), minStack := minStack 3 0,
      maxStack := maxStack 3 0, memorySize := some .memoryLog, writes := true }),
  (LOG2,
    { execute := .makeLog 2, dynamicGas := some (.makeGasLog 2), minStack := minStack 4 0,
      maxStack := maxStack 4 0, memorySize := some .memoryLog, writes := true }),
  (LOG3,
    { execute := .makeLog 3, dynamicGas := some (.makeGasLog 3), minStack := minStack 5 0,
      maxStack := maxStack 5 0, memorySize := some .memoryLog, writes := true }),
  (LOG4,
    { execute := .makeLog 4, dynamicGas := some (.makeGasLog 4), minStack := minStack 6 0,
      maxStack := maxStack 6 0, memorySize := some .memoryLog, writes := true }),
  (CREATE,
    { execute := .opCreate, constantGas := Params.createGas, dynamicGas := some .gasCreate,
      minStack := minStack 3 1, maxStack := maxStack 3 1, memorySize := some .memoryCreate,
      writes := true, returns := true }),
  (CALL,
    { execute := .opCall, constantGas := Params.callGasFrontier, dynamicGas := some .gasCall,
      minStack := minStack 7 1, maxStack := maxStack 7 1, memorySize := some .memoryCall,
      returns := true }),
  (CALLCODE,
    { execute := .opCallCode, constantGas := Params.callGasFrontier,
      dynamicGas := some .gasCallCode, minStack := minStack 7 1, maxStack := maxStack 7 1,
      memorySize := some .memoryCall, returns := true }),
  (RETURN,
    { execute := .opReturn, dynamicGas := some .gasReturn, minStack := minStack 2 0,
      maxStack := maxStack 2 0, memorySize := some .memoryReturn, halts := true }),
  (SELFDESTRUCT,
    { execute := .opSuicide, dynamicGas := some .gasSelfdestruct, minStack := minStack 1 0,
      maxStack := maxStack 1 0, halts := true, writes := true })]

/-- `newFrontierInstructionSet`. -/
def newFrontierInstructionSet : JumpTable := JumpTable.ofList frontierEntries

/-- `newHomesteadInstructionSet`. -/
def newHomesteadInstructionSet : JumpTable :=
  newFrontierInstructionSet.set DELEGATECALL
    { execute := .opDelegateCall, dynamicGas := some .gasDelegateCall,
      constantGas := Params.callGasFrontier, minStack := minStack 6 1, maxStack := maxStack 6 1,
      memorySize := some .memoryDelegateCall, returns := true }

/-- `newTangerineWhistleInstructionSet`. -/
def newTangerineWhistleInstructionSet : JumpTable :=
  newHomesteadInstructionSet
    |>.modify BALANCE (fun o => { o with constantGas := Params.balanceGasEIP150 })
    |>.modify EXTCODESIZE (fun o => { o with constantGas := Params.extcodeSizeGasEIP150 })
    |>.modify SLOAD (fun o => { o with constantGas := Params.sloadGasEIP150 })
    |>.modify EXTCODECOPY (fun o => { o with constantGas := Params.extcodeCopyBaseEIP150 })
    |>.modify CALL (fun o => { o with constantGas := Params.callGasEIP150 })
    |>.modify CALLCODE (fun o => { o with constantGas := Params.callGasEIP150 })
    |>.modify DELEGATECALL (fun o => { o with constantGas := Params.callGasEIP150 })

/-- `newSpuriousDragonInstructionSet`. -/
def newSpuriousDragonInstructionSet : JumpTable :=
  newTangerineWhistleInstructionSet.modify EXP (fun o => { o with dynamicGas := some .gasExpEIP158 })

/-- `newByzantiumInstructionSet`. -/
def newByzantiumInstructionSet : JumpTable :=
  newSpuriousDragonInstructionSet
    |>.set STATICCALL
      { execute := .opStaticCall, constantGas := Params.callGasEIP150,
        dynamicGas := some .gasStaticCall, minStack := minStack 6 1, maxStack := maxStack 6 1,
        memorySize := some .memoryStaticCall, returns := true }
    |>.set RETURNDATASIZE
      { execute := .opReturnDataSize, constantGas := gasQuickStep,
        minStack := minStack 0 1, maxStack := maxStack 0 1 }
    |>.set RETURNDATACOPY
      { execute := .opReturnDataCopy, constantGas := gasFastestStep,
        dynamicGas := some .gasReturnDataCopy, minStack := minStack 3 0, maxStack := maxStack 3 0,
        memorySize := some .memoryReturnDataCopy }
    |>.set REVERT
      { execute := .opRevert, dynamicGas := some .gasRevert, minStack := minStack 2 0,
        maxStack := maxStack 2 0, memorySize := some .memoryRevert, reverts := true,
        returns := true }

/-- `newConstantinopleInstructionSet`. -/
def newConstantinopleInstructionSet : JumpTable :=
  newByzantiumInstructionSet
    |>.set SHL
      { execute := .opSHL, constantGas := gasFastestStep, minStack := minStack 2 1,
        maxStack := maxStack 2 1 }
    |>.set SHR
      { execute := .opSHR, constantGas := gasFastestStep, minStack := minStack 2 1,
        maxStack := maxStack 2 1 }
    |>.set SAR
      { execute := .opSAR, constantGas := gasFastestStep, minStack := minStack 2 1,
        maxStack := maxStack 2 1 }
    |>.set EXTCODEHASH
      { execute := .opExtCodeHash, constantGas := Params.extcodeHashGasConstantinople,
        minStack := minStack 1 1, maxStack := maxStack 1 1 }
    |>.set CREATE2
      { execute := .opCreate2, constantGas := Params.create2Gas, dynamicGas := some .gasCreate2,
        minStack := minStack 4 1, maxStack := maxStack 4 1, memorySize := some .memoryCreate2,
        writes := true, returns := true }

/-- `enable1884`: reprices `SLOAD`, `BALANCE`, `EXTCODEHASH` and adds
`SELFBALANCE`. -/
def enable1884 (jt : JumpTable) : JumpTable :=
  jt
    |>.modify SLOAD (fun o => { o with constantGas := Params.sloadGasEIP1884 })
    |>.modify BALANCE (fun o => { o with constantGas := Params.balanceGasEIP1884 })
    |>.modify EXTCODEHASH (fun o => { o with constantGas := Params.extcodeHashGasEIP1884 })
    |>.set SELFBALANCE
      { execute := .opSelfBalance, constantGas := gasFastStep, minStack := minStack 0 1,
        maxStack := maxStack 0 1 }

/-- `enable1344`: adds `CHAINID`. -/
def enable1344 (jt : JumpTable) : JumpTable :=
  jt.set CHAINID
    { execute := .opChainID, constantGas := gasQuickStep, minStack := minStack 0 1,
      maxStack := maxStack 0 1 }

/-- `enable2200`: net-metered `SSTORE`. -/
def enable2200 (jt : JumpTable) : JumpTable :=
  jt
    |>.modify SLOAD (fun o => { o with constantGas := Params.sloadGasEIP2200 })
    |>.modify SSTORE (fun o => { o with dynamicGas := some .gasSStoreEIP2200 })

/-- `enable2315`: subroutines. -/
def enable2315 (jt : JumpTable) : JumpTable :=
  jt
    |>.set BEGINSUB
      { execute := .opBeginSub, constantGas := gasQuickStep, minStack := minStack 0 0,
        maxStack := maxStack 0 0 }
    |>.set JUMPSUB
      { execute := .opJumpSub, constantGas := gasSlowStep, minStack := minStack 1 0,
        maxStack := maxStack 1 0, jumps := true }
    |>.set RETURNSUB
      { execute := .opReturnSub, constantGas := gasFastStep, minStack := minStack 0 0,
        maxStack := maxStack 0 0, jumps := true }

/-- `newIstanbulInstructionSet`. -/
def newIstanbulInstructionSet : JumpTable :=
  enable2200 (enable1884 (enable1344 newConstantinopleInstructionSet))

/-- `newYoloV1InstructionSet`. -/
def newYoloV1InstructionSet : JumpTable := enable2315 newIstanbulInstructionSet

/-- `activators`. -/
def activators : ℕ → Option (JumpTable → JumpTable)
  | 2200 => some enable2200
  | 1884 => some enable1884
  | 1344 => some enable1344
  | 2315 => some enable2315
  | _ => none

/-- `EnableEIP`: `none` for an EIP without an activator. -/
def enableEIP (eipNum : ℕ) (jt : JumpTable) : Option JumpTable :=
  (activators eipNum).map (· jt)

/-- The chain rules `NewEVMInterpreter` reads. -/
structure ChainRules where
  isHomestead : Bool
  isEIP150 : Bool
  isEIP158 : Bool
  isByzantium : Bool
  isConstantinople : Bool
  isIstanbul : Bool
  isYoloV1 : Bool

/-- The table `NewEVMInterpreter` selects for the chain rules. -/
def defaultJumpTable (rules : ChainRules) : JumpTable :=
  if rules.isYoloV1 then newYoloV1InstructionSet
  else if rules.isIstanbul then newIstanbulInstructionSet
  else if rules.isConstantinople then newConstantinopleInstructionSet
  else if rules.isByzantium then newByzantiumInstructionSet
  else if rules.isEIP158 then newSpuriousDragonInstructionSet
  else if rules.isEIP150 then newTangerineWhistleInstructionSet
  else if rules.isHomestead then newHomesteadInstructionSet
  else newFrontierInstructionSet

/-- The table of `NewEVMInterpreter` without a table in its configuration: the
rules' table with each extra EIP that has an activator enabled in turn. -/
def newInterpreterTable (rules : ChainRules) (extraEips : List ℕ) : JumpTable :=
  extraEips.foldl (fun jt eip => (enableEIP eip jt).getD jt) (defaultJumpTable rules)

/-! ### Sound tables -/

namespace ExecutionFunc

/-- The size function of the memory an execution function reads or writes,
as the tables pair them. -/
def sizedBy : ExecutionFunc → Option MemorySizeFunc
  | opSha3 => some .memorySha3
  | opCallDataCopy => some .memoryCallDataCopy
  | opReturnDataCopy => some .memoryReturnDataCopy
  | opCodeCopy => some .memoryCodeCopy
  | opExtCodeCopy => some .memoryExtCodeCopy
  | opMload => some .memoryMLoad
  | opMstore => some .memoryMStore
  | opMstore8 => some .memoryMStore8
  | makeLog _ => some .memoryLog
  | opCreate => some .memoryCreate
  | opCreate2 => some .memoryCreate2
  | opCall | opCallCode => some .memoryCall
  | opDelegateCall => some .memoryDelegateCall
  | opStaticCall => some .memoryStaticCall
  | opReturn => some .memoryReturn
  | opRevert => some .memoryRevert
  | _ => none

/-- The execution functions that set `pc` themselves. -/
def setsPc : ExecutionFunc → Bool
  | opJump | opJumpi | opJumpSub | opReturnSub => true
  | _ => false

/-- How far a push moves `pc` before the loop's increment: over its immediate
bytes. -/
def pushSize : ExecutionFunc → ℕ
  | opPush1 => 1
  | makePush size _ => size
  | _ => 0

end ExecutionFunc

/-- What the interpreter needs of the entry at `op`: its size function sizes
its memory accesses and is charged for; exactly the entries setting `pc` are
marked `jumps`; it moves `pc` over its instruction; and `STOP` halts. -/
def EntrySound (op : OpCode) (o : Operation) : Prop :=
  o.memorySize = o.execute.sizedBy ∧
    (o.memorySize.isSome = true → o.dynamicGas.map GasFunc.chargesMemory = some true) ∧
    o.jumps = o.execute.setsPc ∧ o.execute.pushSize + 1 = instrWidth op ∧
    (op = STOP → o.execute = .opStop ∧ o.halts = true)

instance (op : OpCode) (o : Operation) : Decidable (EntrySound op o) :=
  inferInstanceAs (Decidable (_ ∧ _ ∧ _ ∧ _ ∧ _))

/-- Every entry of the table is sound. -/
def TableSound (jt : JumpTable) : Prop := ∀ op o, jt op = some o → EntrySound op o

/-- The entry at `op`, if any, touches no memory. -/
def QuietAt (jt : JumpTable) (op : OpCode) : Prop := ∀ o, jt op = some o → o.execute.sizedBy = none

theorem quietAt_of {jt : JumpTable} {op : OpCode}
    (h : (jt op).map (·.execute.sizedBy) = some none) : QuietAt jt op := by
  intro o ho
  rw [ho] at h
  exact Option.some.inj h

namespace TableSound

variable {jt : JumpTable} {op : OpCode}

theorem ofList {entries : List (OpCode × Operation)} (h : ∀ e ∈ entries, EntrySound e.1 e.2) :
    TableSound (JumpTable.ofList entries) := by
  induction entries with
  | nil => intro op o hop; cases hop
  | cons e rest ih =>
    obtain ⟨k, b⟩ := e
    intro op o hop
    unfold JumpTable.ofList List.lookup at hop
    split at hop
    · rename_i heq
      cases hop
      rw [beq_iff_eq.mp heq]
      exact h _ List.mem_cons_self
    · exact ih (fun e he => h e (List.mem_cons_of_mem _ he)) op o hop

theorem set (hjt : TableSound jt) {o : Operation} (ho : EntrySound op o) :
    TableSound (jt.set op o) := by
  intro op' o' h
  unfold JumpTable.set at h
  split at h
  · rename_i heq
    cases h
    exact heq ▸ ho
  · exact hjt op' o' h

theorem modify (hjt : TableSound jt) {f : Operation → Operation}
    (hf : ∀ o, jt op = some o → EntrySound op (f o)) : TableSound (jt.modify op f) := by
  intro op' o' h
  unfold JumpTable.modify at h
  split at h
  · rename_i heq
    subst heq
    obtain ⟨o, ho, rfl⟩ := Option.map_eq_some_iff.mp h
    exact hf o ho
  · exact hjt op' o' h

/-- Changing the constant gas keeps a sound table sound. -/
theorem modify_constantGas (hjt : TableSound jt) (c : UInt64) :
    TableSound (jt.modify op fun o => { o with constantGas := c }) :=
  hjt.modify fun o ho => hjt op o ho

/-- Changing the dynamic gas of an entry that touches no memory keeps a sound
table sound. -/
theorem modify_dynamicGas (hjt : TableSound jt) (hquiet : QuietAt jt op) (g : GasFunc) :
    TableSound (jt.modify op fun o => { o with dynamicGas := some g }) := by
  refine hjt.modify fun o ho => ?_
  obtain ⟨hsize, -, hjumps, hwidth, hstop⟩ := hjt op o ho
  refine ⟨hsize, fun hsome => ?_, hjumps, hwidth, hstop⟩
  simp [hsize, hquiet o ho] at hsome

end TableSound

set_option maxRecDepth 8000 in
/-- The frontier entries are sound, each checked. -/
theorem frontierEntries_sound : ∀ e ∈ frontierEntries, EntrySound e.1 e.2 := by
  decide

/-! ### Every table `NewEVMInterpreter` builds is sound -/

section Forks

variable {jt : JumpTable}

theorem homestead_sound : TableSound newHomesteadInstructionSet :=
  (TableSound.ofList frontierEntries_sound).set (by decide)

theorem tangerineWhistle_sound : TableSound newTangerineWhistleInstructionSet := by
  unfold newTangerineWhistleInstructionSet
  repeat apply TableSound.modify_constantGas
  exact homestead_sound

theorem spuriousDragon_sound : TableSound newSpuriousDragonInstructionSet :=
  tangerineWhistle_sound.modify_dynamicGas (quietAt_of (by decide)) _

theorem byzantium_sound : TableSound newByzantiumInstructionSet :=
  (((spuriousDragon_sound.set (by decide)).set (by decide)).set (by decide)).set (by decide)

theorem constantinople_sound : TableSound newConstantinopleInstructionSet :=
  ((((byzantium_sound.set (by decide)).set (by decide)).set (by decide)).set (by decide)).set
    (by decide)

theorem enable1884_sound (h : TableSound jt) : TableSound (enable1884 jt) :=
  (((h.modify_constantGas _).modify_constantGas _).modify_constantGas _).set (by decide)

theorem enable1344_sound (h : TableSound jt) : TableSound (enable1344 jt) :=
  h.set (by decide)

theorem enable2315_sound (h : TableSound jt) : TableSound (enable2315 jt) :=
  ((h.set (by decide)).set (by decide)).set (by decide)

theorem enable2200_sound (h : TableSound jt) (hq : QuietAt jt SSTORE) :
    TableSound (enable2200 jt) := by
  refine (h.modify_constantGas _).modify_dynamicGas (fun o ho => hq o ?_) _
  simpa [show SSTORE ≠ SLOAD by decide] using ho

/-- The activators leave the `SSTORE` entry's execution function alone. -/
theorem quietAt_sstore_enable {eip : ℕ} {f : JumpTable → JumpTable} (hf : activators eip = some f)
    (hq : QuietAt jt SSTORE) : QuietAt (f jt) SSTORE := by
  intro o ho
  unfold activators at hf
  split at hf <;> cases hf
  all_goals
    simp only [enable2200, enable1884, enable1344, enable2315, JumpTable.modify_apply,
      JumpTable.set_apply, show SSTORE ≠ SLOAD by decide, show SSTORE ≠ BALANCE by decide,
      show SSTORE ≠ EXTCODEHASH by decide, show SSTORE ≠ SELFBALANCE by decide,
      show SSTORE ≠ CHAINID by decide, show SSTORE ≠ BEGINSUB by decide,
      show SSTORE ≠ JUMPSUB by decide, show SSTORE ≠ RETURNSUB by decide, if_false,
      if_true] at ho
  · obtain ⟨o', ho', rfl⟩ := Option.map_eq_some_iff.mp ho
    exact hq o' ho'
  all_goals exact hq o ho

theorem activator_sound {eip : ℕ} {f : JumpTable → JumpTable} (hf : activators eip = some f)
    (h : TableSound jt) (hq : QuietAt jt SSTORE) : TableSound (f jt) := by
  unfold activators at hf
  split at hf <;> cases hf
  · exact enable2200_sound h hq
  · exact enable1884_sound h
  · exact enable1344_sound h
  · exact enable2315_sound h

theorem istanbul_sound : TableSound newIstanbulInstructionSet :=
  enable2200_sound (enable1884_sound (enable1344_sound constantinople_sound))
    (quietAt_of (by decide))

theorem yoloV1_sound : TableSound newYoloV1InstructionSet :=
  enable2315_sound istanbul_sound

theorem defaultJumpTable_sound (rules : ChainRules) :
    TableSound (defaultJumpTable rules) ∧ QuietAt (defaultJumpTable rules) SSTORE := by
  unfold defaultJumpTable
  -- one case per fork, each with the `SSTORE` entry computed
  split_ifs
  · exact ⟨yoloV1_sound, quietAt_of (by decide)⟩
  · exact ⟨istanbul_sound, quietAt_of (by decide)⟩
  · exact ⟨constantinople_sound, quietAt_of (by decide)⟩
  · exact ⟨byzantium_sound, quietAt_of (by decide)⟩
  · exact ⟨spuriousDragon_sound, quietAt_of (by decide)⟩
  · exact ⟨tangerineWhistle_sound, quietAt_of (by decide)⟩
  · exact ⟨homestead_sound, quietAt_of (by decide)⟩
  · exact ⟨TableSound.ofList frontierEntries_sound, quietAt_of (by decide)⟩

end Forks

/-- **Every table `NewEVMInterpreter` builds is sound**, whatever the chain
rules and whatever extra EIPs the configuration lists. -/
theorem newInterpreterTable_sound (rules : ChainRules) (extraEips : List ℕ) :
    TableSound (newInterpreterTable rules extraEips) := by
  unfold newInterpreterTable
  -- the fold enables one EIP at a time, and each keeps both facts
  suffices ∀ (eips : List ℕ) (jt : JumpTable), TableSound jt → QuietAt jt SSTORE →
      TableSound (eips.foldl (fun jt eip => (enableEIP eip jt).getD jt) jt) from
    this extraEips _ (defaultJumpTable_sound rules).1 (defaultJumpTable_sound rules).2
  intro eips
  induction eips with
  | nil => exact fun _ h _ => h
  | cons eip rest ih =>
    intro jt h hq
    simp only [List.foldl_cons, enableEIP]
    rcases hf : activators eip with _ | f
    · exact ih jt h hq
    · exact ih (f jt) (activator_sound hf h hq) (quietAt_sstore_enable hf hq)

/-- **In every table `NewEVMInterpreter` builds, an entry with a memory size
function has a dynamic gas function**, and that function charges for the
memory. -/
theorem memorySize_dynamicGas (rules : ChainRules) (extraEips : List ℕ) {op : OpCode}
    {o : Operation} (h : newInterpreterTable rules extraEips op = some o)
    (hsize : o.memorySize.isSome = true) : ∃ g, o.dynamicGas = some g ∧ g.chargesMemory = true := by
  have hcharges := (newInterpreterTable_sound rules extraEips op o h).2.1 hsize
  obtain ⟨g, hg, hc⟩ := Option.map_eq_some_iff.mp hcharges
  exact ⟨g, hg, hc⟩

end RpcNetwork.Vm
