import RpcNetwork.Vm.JumpTable
import RpcNetwork.Core.Asm.Iterator

/-!
# The EVM assembler (`core/asm/compiler.go`)

The assembler works in two passes: `Feed` counts the bytes each token will
become and records each label at that `pc`; `Compile` emits them line by line
(`JUMPDEST`, `PUSHn` and bytes, `PUSH4` address `JUMP`, or an opcode).

The two passes disagree on a jump with a number or a string operand.  `Feed`
counts their bytes; `Compile` emits a number with no `PUSH`, and a string
not at all (the hex conversion's type switch skips a Go `string`).  A label
after such a jump is then recorded past its `JUMPDEST`.

## Design notes

A Go `panic` is an `Except String` error; a syntax error that `Compile`
collects is a `CompileError`.  `Compile` returns hex; the model returns the
bytes that hex stands for.  Labels are a function with the map's default `0`
for a missing key.  `strings.ToUpper` maps each character by `Char.toUpper`,
which changes ASCII letters only.  `math.MustParseBig256` and `big.Int.Bytes` follow
`common/math` and `math/big`.
-/

namespace RpcNetwork.Core.Asm

/-! ### Tokens -/

/-- `tokenType`. -/
inductive TokenType where
  | eof
  | lineStart
  | lineEnd
  | invalidStatement
  | element
  | label
  | labelDef
  | number
  | stringValue
  deriving DecidableEq, Repr

/-- `tokenType.String`. -/
def TokenType.toString : TokenType → String
  | .eof => "EOF"
  | .invalidStatement => "invalid statement"
  | .element => "element"
  | .lineEnd => "end of line"
  | .lineStart => "new line"
  | .label => "label"
  | .labelDef => "label definition"
  | .number => "number"
  | .stringValue => "string"

/-- `token`. -/
structure Token where
  typ : TokenType
  lineno : ℕ
  text : String
  deriving DecidableEq, Repr

/-- The zero `token`, `Feed`'s first `prev`. -/
def Token.zero : Token := ⟨.eof, 0, ""⟩

/-! ### Numbers and names -/

/-- The value of the digit `c` in `base`, if it is one. -/
def digitValue (base : ℕ) (c : Char) : Option ℕ :=
  let v :=
    if '0' ≤ c ∧ c ≤ '9' then some (c.toNat - '0'.toNat)
    else if 'a' ≤ c ∧ c ≤ 'z' then some (c.toNat - 'a'.toNat + 10)
    else if 'A' ≤ c ∧ c ≤ 'Z' then some (c.toNat - 'A'.toNat + 10)
    else none
  v.filter (· < base)

/-- `new(big.Int).SetString(s, base)`, as the magnitude: an optional sign and
at least one digit. -/
def setString (s : List Char) (base : ℕ) : Option ℕ :=
  let digits := match s with
    | '+' :: rest => rest
    | '-' :: rest => rest
    | rest => rest
  if digits = [] then none
  else digits.foldlM (fun acc c => (digitValue base c).map (acc * base + ·)) 0

/-- `math.ParseBig256`: the empty string is zero; decimal, or hexadecimal after
`0x`; at most 256 bits. -/
def parseBig256 (s : String) : Option ℕ :=
  if s = "" then some 0
  else
    let v := match s.toList with
      | '0' :: 'x' :: rest => setString rest 16
      | '0' :: 'X' :: rest => setString rest 16
      | cs => setString cs 10
    v.filter (· < 2 ^ 256)

/-- `math.MustParseBig256`. -/
def mustParseBig256 (s : String) : Except String ℕ :=
  match parseBig256 s with
  | some v => .ok v
  | none => .error ("invalid 256 bit integer: " ++ s)

/-- `big.Int.Bytes`: big-endian, with no leading zero, and empty for zero. -/
def bigBytes (x : ℕ) : List UInt8 := loop x x []
where
  /-- One byte a round; `x` rounds are more than enough. -/
  loop : ℕ → ℕ → List UInt8 → List UInt8
    | 0, _, acc => acc
    | fuel + 1, x, acc => if x = 0 then acc else loop fuel (x / 256) (x.toUInt8 :: acc)

open RpcNetwork.Vm in
/-- `vm.stringToOp`. -/
def stringToOp : List (String × Vm.OpCode) := [
  ("STOP", STOP), ("ADD", ADD), ("MUL", MUL), ("SUB", SUB), ("DIV", DIV), ("SDIV", SDIV),
  ("MOD", MOD), ("SMOD", SMOD), ("EXP", EXP), ("NOT", NOT), ("LT", LT), ("GT", GT),
  ("SLT", SLT), ("SGT", SGT), ("EQ", EQ), ("ISZERO", ISZERO), ("SIGNEXTEND", SIGNEXTEND),
  ("AND", AND), ("OR", OR), ("XOR", XOR), ("BYTE", BYTE), ("SHL", SHL), ("SHR", SHR),
  ("SAR", SAR), ("ADDMOD", ADDMOD), ("MULMOD", MULMOD), ("SHA3", SHA3),
  ("ADDRESS", ADDRESS), ("BALANCE", BALANCE), ("ORIGIN", ORIGIN), ("CALLER", CALLER),
  ("CALLVALUE", CALLVALUE), ("CALLDATALOAD", CALLDATALOAD), ("CALLDATASIZE", CALLDATASIZE),
  ("CALLDATACOPY", CALLDATACOPY), ("CHAINID", CHAINID), ("DELEGATECALL", DELEGATECALL),
  ("STATICCALL", STATICCALL), ("CODESIZE", CODESIZE), ("CODECOPY", CODECOPY),
  ("GASPRICE", GASPRICE), ("EXTCODESIZE", EXTCODESIZE), ("EXTCODECOPY", EXTCODECOPY),
  ("RETURNDATASIZE", RETURNDATASIZE), ("RETURNDATACOPY", RETURNDATACOPY),
  ("EXTCODEHASH", EXTCODEHASH), ("BLOCKHASH", BLOCKHASH), ("COINBASE", COINBASE),
  ("TIMESTAMP", TIMESTAMP), ("NUMBER", NUMBER), ("DIFFICULTY", DIFFICULTY),
  ("GASLIMIT", GASLIMIT), ("SELFBALANCE", SELFBALANCE), ("POP", POP), ("MLOAD", MLOAD),
  ("MSTORE", MSTORE), ("MSTORE8", MSTORE8), ("SLOAD", SLOAD), ("SSTORE", SSTORE),
  ("JUMP", JUMP), ("JUMPI", JUMPI), ("PC", PC), ("MSIZE", MSIZE), ("GAS", GAS),
  ("JUMPDEST", JUMPDEST), ("BEGINSUB", BEGINSUB), ("RETURNSUB", RETURNSUB),
  ("JUMPSUB", JUMPSUB), ("PUSH1", PUSH1), ("PUSH2", PUSH2), ("PUSH3", PUSH3),
  ("PUSH4", PUSH4), ("PUSH5", PUSH5), ("PUSH6", PUSH6), ("PUSH7", PUSH7), ("PUSH8", PUSH8),
  ("PUSH9", PUSH9), ("PUSH10", PUSH10), ("PUSH11", PUSH11), ("PUSH12", PUSH12),
  ("PUSH13", PUSH13), ("PUSH14", PUSH14), ("PUSH15", PUSH15), ("PUSH16", PUSH16),
  ("PUSH17", PUSH17), ("PUSH18", PUSH18), ("PUSH19", PUSH19), ("PUSH20", PUSH20),
  ("PUSH21", PUSH21), ("PUSH22", PUSH22), ("PUSH23", PUSH23), ("PUSH24", PUSH24),
  ("PUSH25", PUSH25), ("PUSH26", PUSH26), ("PUSH27", PUSH27), ("PUSH28", PUSH28),
  ("PUSH29", PUSH29), ("PUSH30", PUSH30), ("PUSH31", PUSH31), ("PUSH32", PUSH32),
  ("DUP1", DUP1), ("DUP2", DUP2), ("DUP3", DUP3), ("DUP4", DUP4), ("DUP5", DUP5),
  ("DUP6", DUP6), ("DUP7", DUP7), ("DUP8", DUP8), ("DUP9", DUP9), ("DUP10", DUP10),
  ("DUP11", DUP11), ("DUP12", DUP12), ("DUP13", DUP13), ("DUP14", DUP14), ("DUP15", DUP15),
  ("DUP16", DUP16), ("SWAP1", SWAP1), ("SWAP2", SWAP2), ("SWAP3", SWAP3), ("SWAP4", SWAP4),
  ("SWAP5", SWAP5), ("SWAP6", SWAP6), ("SWAP7", SWAP7), ("SWAP8", SWAP8), ("SWAP9", SWAP9),
  ("SWAP10", SWAP10), ("SWAP11", SWAP11), ("SWAP12", SWAP12), ("SWAP13", SWAP13),
  ("SWAP14", SWAP14), ("SWAP15", SWAP15), ("SWAP16", SWAP16), ("LOG0", LOG0), ("LOG1", LOG1),
  ("LOG2", LOG2), ("LOG3", LOG3), ("LOG4", LOG4), ("CREATE", CREATE), ("CREATE2", CREATE2),
  ("CALL", CALL), ("RETURN", RETURN), ("CALLCODE", CALLCODE), ("REVERT", REVERT),
  ("SELFDESTRUCT", SELFDESTRUCT)]

/-- `vm.StringToOp`: a missing name reads as the map's zero, `STOP`. -/
def stringToOpCode (str : String) : Vm.OpCode := (stringToOp.lookup str).getD 0

/-- `strings.ToUpper`, character by character. -/
def toUpper (s : String) : String := String.ofList (s.toList.map Char.toUpper)

/-- `[]byte(s)`: the UTF-8 bytes of a string. -/
def stringBytes (s : String) : List UInt8 := s.toList.flatMap String.utf8EncodeChar

/-- `isPush`: the element `push`, in any case. -/
def isPushElement (op : String) : Bool := toUpper op == "PUSH"

/-- `isJump`: the elements `jump` and `jumpi`, in any case. -/
def isJump (op : String) : Bool := toUpper op == "JUMPI" || toUpper op == "JUMP"

/-- `toBinary`. -/
def toBinary (text : String) : Vm.OpCode := stringToOpCode (toUpper text)

/-- `text[lo:hi]` of a Go string, as its bytes; bounds out of range panic. -/
def sliceString (s : String) (lo hi : ℤ) : Except String (List UInt8) :=
  let b := stringBytes s
  if 0 ≤ lo ∧ lo ≤ hi ∧ hi ≤ b.length then .ok ((b.take hi.toNat).drop lo.toNat)
  else .error "runtime error: slice bounds out of range"

/-- A label's address as the four bytes `compileElement` pushes:
`big.NewInt(int64(pos)).Bytes()` padded on the left, where a longer slice makes
`make` panic. -/
def labelBytes (pos : ℤ) : Except String (List UInt8) :=
  let b := bigBytes pos.natAbs
  if b.length ≤ 4 then .ok (List.replicate (4 - b.length) 0 ++ b)
  else .error "runtime error: makeslice: len out of range"

/-- The bytes a number token becomes, `0` for zero. -/
def numberBytes (text : String) : Except String (List UInt8) := do
  let num := bigBytes (← mustParseBig256 text)
  pure (if num.length = 0 then [0] else num)

/-! ### The compiler -/

/-- What `pushBin` is handed: an opcode, a byte slice, or a Go `string`. -/
inductive BinItem where
  | op (o : Vm.OpCode)
  | bytes (b : List UInt8)
  | str (s : List UInt8)

/-- The bytes of an item in `Compile`'s hex: its type switch has no case for a
`string`. -/
def BinItem.emitted : BinItem → List UInt8
  | .op o => [o]
  | .bytes b => b
  | .str _ => []

/-- `compileError` and the size error of `compileElement`. -/
inductive CompileError where
  | compileErr (got want : String) (lineno : ℕ)
  | size (lineno : ℕ)
  deriving DecidableEq

/-- The errors' texts. -/
def CompileError.message : CompileError → String
  | .compileErr got want lineno =>
    toString lineno ++ " syntax error: unexpected " ++ got ++ ", expected " ++ want
  | .size lineno => toString lineno ++ " type error: unsupported string or number with size > 32"

/-- `Compiler`. -/
structure Compiler where
  tokens : List Token
  binary : List BinItem
  labels : String → ℤ
  pc : ℤ
  pos : ℕ

/-- `NewCompiler`. -/
def newCompiler : Compiler := ⟨[], [], fun _ => 0, 0, 0⟩

namespace Compiler

/-- One round of `Feed`'s loop: count the bytes `i` will become, record a
label definition, and keep the token. -/
def feedToken (c : Compiler) (prev i : Token) : Except String Compiler := do
  let c ← match i.typ with
    | .number => do
      let num ← numberBytes i.text
      pure { c with pc := c.pc + num.length }
    | .stringValue => pure { c with pc := c.pc + i.text.utf8ByteSize - 2 }
    | .element => pure { c with pc := c.pc + 1 }
    | .labelDef => pure { c with labels := Function.update c.labels i.text c.pc, pc := c.pc + 1 }
    | .label =>
      let c := { c with pc := c.pc + 4 }
      pure (if prev.typ = .element ∧ isJump prev.text = true then { c with pc := c.pc + 1 } else c)
    | _ => pure c
  pure { c with tokens := c.tokens ++ [i] }

/-- `Feed`, over the channel's tokens. -/
def feed (c : Compiler) (ch : List Token) : Except String Compiler :=
  Prod.fst <$> ch.foldlM (fun (c, prev) i => do pure (← c.feedToken prev i, i)) (c, Token.zero)

/-- `next`: the token at `pos`; past the end the index panics. -/
def next (c : Compiler) : Except String (Token × Compiler) :=
  match c.tokens[c.pos]? with
  | some t => .ok (t, { c with pos := c.pos + 1 })
  | none => .error "runtime error: index out of range"

/-- `pushBin`. -/
def pushBin (c : Compiler) (v : BinItem) : Compiler := { c with binary := c.binary ++ [v] }

/-- `compileNumber`. -/
def compileNumber (c : Compiler) (element : Token) : Except String (ℕ × Compiler) := do
  let num ← numberBytes element.text
  pure (num.length, c.pushBin (.bytes num))

/-- `compileLabel`. -/
def compileLabel (c : Compiler) : Compiler := c.pushBin (.op Vm.JUMPDEST)

/-- The operand of a jump, pushed right to left before the jump's opcode, or the
token that is not one. -/
def compileJumpOperand (c : Compiler) (rvalue : Token) : Except String (Option Compiler) :=
  match rvalue.typ with
  | .number => do
    -- the error of `compileNumber` is dropped
    let (_, c) ← c.compileNumber rvalue
    pure (some c)
  | .stringValue => do
    -- strings are quoted, remove them
    let s ← sliceString rvalue.text 1 (rvalue.text.utf8ByteSize - 2)
    pure (some (c.pushBin (.str s)))
  | .label => do
    let pos ← labelBytes (c.labels rvalue.text)
    pure (some ((c.pushBin (.op Vm.PUSH4)).pushBin (.bytes pos)))
  | .lineEnd => pure (some { c with pos := c.pos - 1 })
  | _ => pure none

/-- The value of `push`'s operand, or `none` for a token that is not one. -/
def pushValue (c : Compiler) (rvalue : Token) : Except String (Option (List UInt8)) :=
  match rvalue.typ with
  | .number => some <$> numberBytes rvalue.text
  | .stringValue => some <$> sliceString rvalue.text 1 (rvalue.text.utf8ByteSize - 1)
  | .label => some <$> labelBytes (c.labels rvalue.text)
  | _ => pure none

/-- `PUSHn` for `n` bytes: `vm.OpCode(int(vm.PUSH1) - 1 + n)`. -/
def pushOp (n : ℕ) : Vm.OpCode := (Vm.PUSH1.toNat - 1 + n).toUInt8

/-- `compileElement`. -/
def compileElement (c : Compiler) (element : Token) : Except String (Option CompileError × Compiler) := do
  if isJump element.text then
    let (rvalue, c) ← c.next
    match ← c.compileJumpOperand rvalue with
    | some c => pure (none, c.pushBin (.op (toBinary element.text)))
    | none => pure (some (.compileErr rvalue.text "number, string or label" rvalue.lineno), c)
  else if isPushElement element.text then
    let (rvalue, c) ← c.next
    match ← c.pushValue rvalue with
    | none => pure (some (.compileErr rvalue.text "number, string or label" rvalue.lineno), c)
    | some value =>
      if value.length > 32 then pure (some (.size rvalue.lineno), c)
      else pure (none, (c.pushBin (.op (pushOp value.length))).pushBin (.bytes value))
  else pure (none, c.pushBin (.op (toBinary element.text)))

/-- The end of `compileLine`: the line's end must come next. -/
def expectLineEnd (c : Compiler) : Except String (Option CompileError × Compiler) := do
  let (n, c) ← c.next
  if n.typ ≠ .lineEnd then
    return (some (.compileErr n.text TokenType.lineEnd.toString n.lineno), c)
  pure (none, c)

/-- `compileLine`. -/
def compileLine (c : Compiler) : Except String (Option CompileError × Compiler) := do
  let (n, c) ← c.next
  if n.typ ≠ .lineStart then
    return (some (.compileErr n.typ.toString TokenType.lineStart.toString n.lineno), c)
  let (lvalue, c) ← c.next
  match lvalue.typ with
  | .eof => pure (none, c)
  | .element => do
    let (err, c) ← c.compileElement lvalue
    if err.isSome then pure (err, c) else c.expectLineEnd
  | .labelDef => c.compileLabel.expectLineEnd
  | .lineEnd => pure (none, c)
  | _ => pure (some (.compileErr lvalue.text "label definition or element" lvalue.lineno), c)

/-- `Compile`'s loop, one line a round while tokens are left. -/
def compileLoop : ℕ → Compiler → List CompileError → Except String (Compiler × List CompileError)
  | 0, c, errs => .ok (c, errs)
  | fuel + 1, c, errs =>
    if c.pos < c.tokens.length then do
      let (err, c) ← c.compileLine
      compileLoop fuel c (errs ++ err.toList)
    else .ok (c, errs)

/-- The binary as the bytes of `Compile`'s hex. -/
def bin (c : Compiler) : List UInt8 := c.binary.flatMap BinItem.emitted

/-- `Compile`: the binary and the errors collected. -/
def compile (c : Compiler) : Except String (List UInt8 × List CompileError) := do
  let (c, errs) ← compileLoop c.tokens.length c []
  pure (c.bin, errs)

/-! ### `Compile`'s loop ends -/

@[simp] theorem pushBin_pos (c : Compiler) (v : BinItem) : (c.pushBin v).pos = c.pos := rfl

@[simp] theorem pushBin_tokens (c : Compiler) (v : BinItem) : (c.pushBin v).tokens = c.tokens := rfl

theorem next_spec {c c' : Compiler} {t : Token} (h : c.next = .ok (t, c')) :
    c'.pos = c.pos + 1 ∧ c'.tokens = c.tokens := by
  unfold next at h
  split at h
  · cases h
    exact ⟨rfl, rfl⟩
  · cases h

theorem compileJumpOperand_spec {c c' : Compiler} {rvalue : Token}
    (h : c.compileJumpOperand rvalue = .ok (some c')) :
    c.pos ≤ c'.pos + 1 ∧ c'.tokens = c.tokens := by
  unfold compileJumpOperand at h
  split at h
  · obtain ⟨⟨n, c₁⟩, h₁, h⟩ := Except.bind_eq_ok.mp h
    obtain ⟨num, -, h₁⟩ := Except.bind_eq_ok.mp h₁
    cases Except.pure_eq_ok.mp h₁
    cases Except.pure_eq_ok.mp h
    exact ⟨by simp, rfl⟩
  · obtain ⟨s, -, h⟩ := Except.bind_eq_ok.mp h
    cases Except.pure_eq_ok.mp h
    exact ⟨by simp, rfl⟩
  · obtain ⟨pos, -, h⟩ := Except.bind_eq_ok.mp h
    cases Except.pure_eq_ok.mp h
    exact ⟨by simp, rfl⟩
  · -- `c.pos--` puts the line's end back
    cases Except.pure_eq_ok.mp h
    exact ⟨by dsimp only; omega, rfl⟩
  · cases Except.pure_eq_ok.mp h

theorem compileElement_spec {c c' : Compiler} {element : Token} {err : Option CompileError}
    (h : c.compileElement element = .ok (err, c')) : c.pos ≤ c'.pos ∧ c'.tokens = c.tokens := by
  unfold compileElement at h
  split at h
  · obtain ⟨⟨rvalue, c₁⟩, h₁, h⟩ := Except.bind_eq_ok.mp h
    obtain ⟨hpos₁, htok₁⟩ := next_spec h₁
    obtain ⟨op, h₂, h⟩ := Except.bind_eq_ok.mp h
    cases op with
    | none =>
      cases Except.pure_eq_ok.mp h
      exact ⟨by omega, htok₁⟩
    | some c₂ =>
      obtain ⟨hpos₂, htok₂⟩ := compileJumpOperand_spec h₂
      cases Except.pure_eq_ok.mp h
      exact ⟨by simp only [pushBin_pos]; omega, by simp only [pushBin_tokens, htok₂, htok₁]⟩
  · split at h
    · obtain ⟨⟨rvalue, c₁⟩, h₁, h⟩ := Except.bind_eq_ok.mp h
      obtain ⟨hpos₁, htok₁⟩ := next_spec h₁
      obtain ⟨value, -, h⟩ := Except.bind_eq_ok.mp h
      cases value with
      | none =>
        cases Except.pure_eq_ok.mp h
        exact ⟨by omega, htok₁⟩
      | some value =>
        dsimp only at h
        split at h
        · cases Except.pure_eq_ok.mp h
          exact ⟨by omega, htok₁⟩
        · cases Except.pure_eq_ok.mp h
          exact ⟨by simp only [pushBin_pos]; omega, by simp only [pushBin_tokens, htok₁]⟩
    · cases Except.pure_eq_ok.mp h
      exact ⟨by simp, rfl⟩

theorem expectLineEnd_spec {c c' : Compiler} {err : Option CompileError}
    (h : c.expectLineEnd = .ok (err, c')) : c.pos < c'.pos ∧ c'.tokens = c.tokens := by
  unfold expectLineEnd at h
  obtain ⟨⟨n, c₁⟩, h₁, h⟩ := Except.bind_eq_ok.mp h
  obtain ⟨hpos₁, htok₁⟩ := next_spec h₁
  dsimp only at h
  split at h <;> cases Except.pure_eq_ok.mp h <;> exact ⟨by omega, htok₁⟩

/-- **Every line consumes a token**, and no line changes the tokens. -/
theorem compileLine_pos {c c' : Compiler} {err : Option CompileError}
    (h : c.compileLine = .ok (err, c')) : c.pos < c'.pos ∧ c'.tokens = c.tokens := by
  unfold compileLine at h
  obtain ⟨⟨n, c₁⟩, h₁, h⟩ := Except.bind_eq_ok.mp h
  obtain ⟨hpos₁, htok₁⟩ := next_spec h₁
  dsimp only at h
  split at h
  · cases Except.pure_eq_ok.mp h
    exact ⟨by omega, htok₁⟩
  obtain ⟨⟨lvalue, c₂⟩, h₂, h⟩ := Except.bind_eq_ok.mp h
  obtain ⟨hpos₂, htok₂⟩ := next_spec h₂
  dsimp only at h
  -- one case per kind of line value
  split at h
  · cases Except.pure_eq_ok.mp h
    exact ⟨by omega, by rw [htok₂, htok₁]⟩
  · obtain ⟨⟨err', c₃⟩, h₃, h⟩ := Except.bind_eq_ok.mp h
    obtain ⟨hpos₃, htok₃⟩ := compileElement_spec h₃
    dsimp only at h
    split at h
    · cases Except.pure_eq_ok.mp h
      exact ⟨by omega, by rw [htok₃, htok₂, htok₁]⟩
    · obtain ⟨hpos₄, htok₄⟩ := expectLineEnd_spec h
      exact ⟨by omega, by rw [htok₄, htok₃, htok₂, htok₁]⟩
  · obtain ⟨hpos₄, htok₄⟩ := expectLineEnd_spec h
    exact ⟨by simp only [compileLabel, pushBin_pos] at hpos₄; omega,
      by rw [htok₄, compileLabel, pushBin_tokens, htok₂, htok₁]⟩
  · cases Except.pure_eq_ok.mp h
    exact ⟨by omega, by rw [htok₂, htok₁]⟩
  · cases Except.pure_eq_ok.mp h
    exact ⟨by omega, by rw [htok₂, htok₁]⟩

/-- **`Compile`'s loop runs to the end of the tokens**: once the rounds cover
the tokens left, more rounds change nothing. -/
theorem compileLoop_fuel : ∀ (fuel k : ℕ) (c : Compiler) (errs : List CompileError),
    c.tokens.length ≤ c.pos + fuel → compileLoop (fuel + k) c errs = compileLoop fuel c errs
  | 0, k, c, errs, h => by
    cases k with
    | zero => rfl
    | succ k =>
      have hend : ¬ c.pos < c.tokens.length := by omega
      rw [Nat.zero_add, compileLoop.eq_2, if_neg hend]
      rfl
  | fuel + 1, k, c, errs, h => by
    rw [show fuel + 1 + k = fuel + k + 1 by omega, compileLoop, compileLoop]
    split
    · -- one line, then the loop on the same tokens from further on
      cases hline : c.compileLine with
      | error e => rfl
      | ok r =>
        obtain ⟨err, c'⟩ := r
        obtain ⟨hpos, htok⟩ := compileLine_pos hline
        exact compileLoop_fuel fuel k c' _ (by rw [htok]; omega)
    · rfl

end Compiler

/-! ### The two passes disagree on a jump's operand -/

/-- The lexer's tokens for the lines `jump "ab"`, `here:` and `jump @here`. -/
def stringJumpTokens : List Token :=
  [⟨.lineStart, 0, ""⟩, ⟨.element, 0, "jump"⟩, ⟨.stringValue, 0, "\"ab\""⟩, ⟨.lineEnd, 0, "\n"⟩,
    ⟨.lineStart, 1, ""⟩, ⟨.labelDef, 1, "here"⟩, ⟨.lineEnd, 1, "\n"⟩,
    ⟨.lineStart, 2, ""⟩, ⟨.element, 2, "jump"⟩, ⟨.label, 2, "here"⟩, ⟨.lineEnd, 2, "\n"⟩,
    ⟨.lineStart, 3, ""⟩, ⟨.eof, 3, ""⟩]

/-- The lexer's tokens for the line `jump 5`. -/
def numberJumpTokens : List Token :=
  [⟨.lineStart, 0, ""⟩, ⟨.element, 0, "jump"⟩, ⟨.number, 0, "5"⟩, ⟨.lineEnd, 0, "\n"⟩,
    ⟨.lineStart, 1, ""⟩, ⟨.eof, 1, ""⟩]

end RpcNetwork.Core.Asm
