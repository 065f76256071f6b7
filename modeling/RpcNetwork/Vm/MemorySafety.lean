import RpcNetwork.Vm.Interpreter

/-!
# Memory safety of the interpreter loop

`Run` sizes the memory an instruction will touch before it charges the gas,
grows the memory to that size rounded up to words, and only then calls the
execution function.  With a sound jump table the size function is the one
the execution function's accesses are sized by, so every access lies inside
the memory, and the memory's cached fee is always the fee of its size.

## Design notes

The bound on a Go slice's length, `2^63`, is what keeps `getData`'s end from
wrapping; the code, the input and the oracle's code carry it.
-/

namespace RpcNetwork.Vm

open Memory (int64)

/-- The windows the execution function will read or write lie within `n`
bytes: its size function did not overflow and ends at most at `n`. -/
def WindowsFit (e : ExecutionFunc) (stack : Stack) (n : ℕ) : Prop :=
  ∀ s, e.sizedBy = some s → ∃ memSize, s.eval stack = (memSize, false) ∧ memSize.toNat ≤ n

/-- The windows `(offset, size)` of the memory an execution function reads or
writes, as it reads them off the stack with `Uint64()`. -/
def accesses : ExecutionFunc → Stack → List (ℕ × ℕ)
  | .opSha3, s | .opReturn, s | .opRevert, s | .makeLog _, s =>
    [((s.back 0).uint64.toNat, (s.back 1).uint64.toNat)]
  | .opCallDataCopy, s | .opReturnDataCopy, s | .opCodeCopy, s =>
    [((s.back 0).uint64.toNat, (s.back 2).uint64.toNat)]
  | .opExtCodeCopy, s => [((s.back 1).uint64.toNat, (s.back 3).uint64.toNat)]
  | .opCreate, s | .opCreate2, s => [((s.back 1).uint64.toNat, (s.back 2).uint64.toNat)]
  | .opMload, s | .opMstore, s => [((s.back 0).uint64.toNat, 32)]
  | .opMstore8, s => [((s.back 0).uint64.toNat, 1)]
  | .opCall, s | .opCallCode, s =>
    [((s.back 3).uint64.toNat, (s.back 4).uint64.toNat),
      ((s.back 5).uint64.toNat, (s.back 6).uint64.toNat)]
  | .opDelegateCall, s | .opStaticCall, s =>
    [((s.back 2).uint64.toNat, (s.back 3).uint64.toNat),
      ((s.back 4).uint64.toNat, (s.back 5).uint64.toNat)]
  | _, _ => []

/-! ### The memory a round hands to `execute` -/

/-- The memory after `Resize` holds the round's memory size. -/
theorem le_len_grow {mem : Memory} (hlen : mem.len < 2 ^ 64) (size : UInt64) :
    size.toNat ≤ (if size > 0 then mem.resize size else mem).len := by
  split
  · rw [Memory.len_resize _ _ hlen]
    exact le_max_right _ _
  · rename_i hzero
    have : size.toNat = 0 := by
      simpa [gt_iff_lt, UInt64.lt_iff_toNat_lt] using hzero
    omega

section

variable {it : EVMInterpreter} {f : Frame} {operation : Operation}

/-- The fee `memoryFeeCharged` reads off a round whose gas function charges
for memory. -/
theorem memoryFeeCharged_of_charges (hop : it.jumpTable (f.contract.getOp f.pc) = some operation)
    {size : UInt64} (hsize : memorySizeOf operation f.stack = .ok size) {g : GasFunc}
    (hg : operation.dynamicGas = some g) (hc : g.chargesMemory = true) {fee : UInt64}
    {mem : Memory} (hfee : memoryGasCost f.memory size = .ok (fee, mem)) :
    memoryFeeCharged it f = fee.toNat := by
  unfold memoryFeeCharged
  simp only [hop, hg, hsize, hc, if_true, hfee]

/-- A round whose gas function does not charge for memory charges no fee. -/
theorem memoryFeeCharged_of_quiet (hop : it.jumpTable (f.contract.getOp f.pc) = some operation)
    (hq : ∀ g, operation.dynamicGas = some g → g.chargesMemory = false) :
    memoryFeeCharged it f = 0 := by
  unfold memoryFeeCharged
  rw [hop]
  dsimp only
  split
  · rename_i g _ hg _
    rw [if_neg (by simp [hq g hg])]
  · rfl

/-- **The memory a round hands to `execute`**: with a sound table, it keeps
`MemInv`, holds every window the execution function touches, and its fee is
the old one plus what `memoryGasCost` charged. -/
theorem prepare_memory (hjt : TableSound it.jumpTable) (hm : MemInv f.memory) {env : GasEnv}
    {f₁ : Frame} (h : prepare it env f = .ok (operation, f₁)) :
    MemInv f₁.memory ∧ WindowsFit operation.execute f₁.stack f₁.memory.len ∧
      f₁.memory.lastGasCost.toNat = f.memory.lastGasCost.toNat + memoryFeeCharged it f := by
  obtain ⟨hop, -, hstack, -, -, size, mem, c, hsize, -, hgas, hmem⟩ := prepare_spec h
  obtain ⟨hsized, hcharges, -⟩ := hjt _ _ hop
  obtain ⟨hword, hnone, hcover⟩ := memorySizeOf_spec hsize
  rw [hstack, hmem]
  -- the windows lie below the memory size, which the grown memory holds
  have hfit : mem.len < 2 ^ 64 → WindowsFit operation.execute f.stack
      (if size > 0 then mem.resize size else mem).len := by
    intro hlen s hs
    obtain ⟨memSize, heval, hle⟩ := hcover s (hsized.trans hs)
    exact ⟨memSize, heval, hle.trans (le_len_grow hlen size)⟩
  -- without a memory charge there is no size function, so nothing grows
  have quiet (hq : ∀ g, operation.dynamicGas = some g → g.chargesMemory = false)
      (hsame : mem = f.memory) :
      MemInv (if size > 0 then mem.resize size else mem) ∧
        WindowsFit operation.execute f.stack (if size > 0 then mem.resize size else mem).len ∧
        (if size > 0 then mem.resize size else mem).lastGasCost.toNat =
          f.memory.lastGasCost.toNat + memoryFeeCharged it f := by
    have hsize0 : operation.memorySize = none := by
      rcases hms : operation.memorySize with _ | s
      · rfl
      · obtain ⟨g, hg, hc⟩ := Option.map_eq_some_iff.mp (hcharges (by simp [hms]))
        simp [hq g hg] at hc
    rw [hnone hsize0, hsame, memoryFeeCharged_of_quiet hop hq]
    refine ⟨by simpa using hm, fun s hs => ?_, by simp⟩
    rw [← hsized, hsize0] at hs
    cases hs
  rcases chargeDynamicGas_spec hgas with ⟨g, cost, hg, hrun, -⟩ | ⟨hg, hsame, -⟩
  · obtain ⟨hcharge, hquiet⟩ := GasFunc.run_mem hrun
    cases hc : g.chargesMemory
    · exact quiet (fun g' hg' => by rw [hg] at hg'; cases hg'; exact hc) (hquiet hc)
    · obtain ⟨fee, hfee⟩ := hcharge hc
      obtain ⟨-, hstore, -, hsum⟩ := memoryGasCost_spec hm hfee
      have hlen : mem.len = f.memory.len := by unfold Memory.len; rw [hstore]
      refine ⟨MemInv.grow hm hword hfee, hfit (by have := hm.len_lt; omega), ?_⟩
      rw [memoryFeeCharged_of_charges hop hsize hg hc hfee]
      split
      · rw [Memory.lastGasCost_resize]
        omega
      · omega
  · exact quiet (fun g' hg' => by rw [hg] at hg'; cases hg') hsame

/-- **One round keeps `MemInv`**, and the memory's recorded fee grows by what
`memoryGasCost` charged. -/
theorem step_memory (hjt : TableSound it.jumpTable) (hm : MemInv f.memory) {o : Oracle}
    {f' : Frame} (h : step it o f = .next f') :
    MemInv f'.memory ∧
      f'.memory.lastGasCost.toNat = f.memory.lastGasCost.toNat + memoryFeeCharged it f := by
  obtain ⟨operation, f₁, f₂, res, hprep, hexec, -, hmem, -⟩ := step_next h
  obtain ⟨hinv, -, hfee⟩ := prepare_memory (f := { f with steps := f.steps + 1 }) hjt hm hprep
  have hkeep := execute_keeps hexec
  rw [hmem]
  exact ⟨hinv.of_len_eq hkeep.len hkeep.lastGasCost, by rw [hkeep.lastGasCost]; exact hfee⟩

/-- **Along a whole run** the memory keeps `MemInv`, and the fees charged add
up to the fee of its size. -/
theorem runs_memory (hjt : TableSound it.jumpTable) {contract : Contract} {input : List UInt8}
    {fees : ℕ} (h : Runs it contract input f fees) :
    MemInv f.memory ∧ fees = memoryFee (f.memory.len / 32) := by
  induction h with
  | start _ => exact ⟨memInv_newMemory, by simp [initFrame, newMemory, Memory.len, memoryFee]⟩
  | step o _ hstep ih =>
    obtain ⟨hm, hfees⟩ := ih
    obtain ⟨hm', hlast⟩ := step_memory hjt hm hstep
    refine ⟨hm', ?_⟩
    rw [← hm'.lastGasCost, hlast, hm.lastGasCost, hfees]

end

/-! ### Accesses inside their windows do not panic -/

namespace Fits

variable {offset length : Word} {n : ℕ} {m : Memory}

/-- A window that fits, read as the instruction reads it, with `Uint64()`. -/
theorem uint64 (h : Fits offset length n) :
    length.uint64.toNat = 0 ∨ offset.uint64.toNat + length.uint64.toNat ≤ n := by
  rcases h with h0 | ⟨ho, hl, hle⟩
  · left
    rw [Word.uint64, UInt64.toNat_ofNat', h0, Nat.zero_mod]
  · right
    rw [Word.toNat_uint64 ho, Word.toNat_uint64 hl]
    exact hle

theorem length_lt (h : Fits offset length n) (hn : n < 2 ^ 63) : length.uint64.toNat < 2 ^ 63 := by
  rcases h.uint64 with h0 | hle <;> omega

theorem getPtr_ok (hlen : m.len < 2 ^ 63) (h : Fits offset length m.len) :
    ∃ bs, m.getPtr (int64 offset.uint64) (int64 length.uint64) = .ok bs :=
  Memory.getPtr_ok hlen h.uint64

theorem getCopy_ok (hlen : m.len < 2 ^ 63) (h : Fits offset length m.len) :
    ∃ bs, m.getCopy (int64 offset.uint64) (int64 length.uint64) = .ok bs :=
  Memory.getCopy_ok hlen h.uint64

theorem set_ok (hlen : m.len < 2 ^ 63) (h : Fits offset length m.len) (value : List UInt8) :
    ∃ m', m.set offset.uint64 length.uint64 value = .ok m' := by
  obtain ⟨m', hm', -⟩ := Memory.set_ok hlen value h.uint64
  exact ⟨m', hm'⟩

end Fits

namespace WindowsFit

variable {e : ExecutionFunc} {stack : Stack} {n : ℕ} {s : MemorySizeFunc}

/-- The window of a size function that reads one window. -/
theorem window {i j : ℕ} (h : WindowsFit e stack n) (he : e.sizedBy = some s)
    (hs : s.eval = memoryWindow i j) : Fits (stack.back i) (stack.back j) n := by
  obtain ⟨memSize, heval, hle⟩ := h s he
  rw [hs] at heval
  exact (calcMemSize64_fits heval).mono hle

/-- The two windows of a size function of the call family. -/
theorem twoWindows {i j k l : ℕ} (h : WindowsFit e stack n) (he : e.sizedBy = some s)
    (hs : s.eval = memoryTwoWindows i j k l) :
    Fits (stack.back i) (stack.back j) n ∧ Fits (stack.back k) (stack.back l) n := by
  obtain ⟨memSize, heval, hle⟩ := h s he
  rw [hs] at heval
  obtain ⟨h₁, h₂⟩ := memoryTwoWindows_fits heval
  exact ⟨h₁.mono hle, h₂.mono hle⟩

/-- The `k` bytes a fixed-size access touches at the offset on top of the
stack. -/
theorem fixed {k : UInt64} (hk : k ≠ 0) (h : WindowsFit e stack n) (he : e.sizedBy = some s)
    (hs : s.eval = fun stack => calcMemSize64WithUint (stack.back 0) k) :
    (stack.back 0).uint64.toNat + k.toNat ≤ n := by
  obtain ⟨memSize, heval, hle⟩ := h s he
  rw [hs] at heval
  rcases calcMemSize64WithUint_fits heval with h0 | ⟨ho, hsum⟩
  · exact absurd h0 hk
  · rw [Word.toNat_uint64 ho]
    omega

end WindowsFit

/-- **`getData` of a Go slice does not panic** for a size below `2^63`: the
start is clamped to the slice, and the end does not wrap. -/
theorem getData_ok {data : List UInt8} (hdata : data.length < 2 ^ 63) (start : UInt64)
    {size : UInt64} (hsize : size.toNat < 2 ^ 63) : ∃ bs, getData data start size = .ok bs := by
  have hlen : (UInt64.ofNat data.length).toNat = data.length := by
    rw [UInt64.toNat_ofNat', Nat.mod_eq_of_lt (by omega)]
  unfold getData
  dsimp only
  generalize hs : (if start > UInt64.ofNat data.length then UInt64.ofNat data.length
    else start) = s
  have hsle : s.toNat ≤ data.length := by
    rw [← hs]
    split
    · rw [hlen]
    · rename_i h
      rw [gt_iff_lt, UInt64.lt_iff_toNat_lt, hlen] at h
      omega
  have hsum : (s + size).toNat = s.toNat + size.toNat := toNat_add_of_lt (by omega)
  generalize hst : (if s + size > UInt64.ofNat data.length then UInt64.ofNat data.length
    else s + size) = stop
  have hstop : s.toNat ≤ stop.toNat ∧ stop.toNat ≤ data.length := by
    rw [← hst]
    split
    · rename_i h
      rw [gt_iff_lt, UInt64.lt_iff_toNat_lt, hlen, hsum] at h
      rw [hlen]
      omega
    · rename_i h
      rw [gt_iff_lt, UInt64.lt_iff_toNat_lt, hlen, hsum] at h
      rw [hsum]
      omega
  exact Except.exists_map_eq_ok (Memory.slice_ok (by omega) (by omega) (by omega))

theorem copyOp_ok {data : List UInt8} (hdata : data.length < 2 ^ 63) {dst src len pops : ℕ}
    {f : Frame} (hlen : f.memory.len < 2 ^ 63)
    (hw : Fits (f.stack.back dst) (f.stack.back len) f.memory.len) :
    ∃ r, copyOp data dst src len pops f = .ok r := by
  unfold copyOp
  dsimp only [Word.uint64WithOverflow]
  refine Except.exists_bind_eq_ok (getData_ok hdata _ (hw.length_lt hlen)) fun copy _ => ?_
  exact Except.exists_bind_eq_ok (hw.set_ok hlen copy) fun _ _ => ⟨_, rfl⟩

theorem callOp_ok {o : Oracle} {inOffset inSize retOffset retSize : ℕ} {f : Frame}
    (hlen : f.memory.len < 2 ^ 63)
    (hin : Fits (f.stack.back inOffset) (f.stack.back inSize) f.memory.len)
    (hret : Fits (f.stack.back retOffset) (f.stack.back retSize) f.memory.len) :
    ∃ r, callOp o inOffset inSize retOffset retSize f = .ok r := by
  unfold callOp
  refine Except.exists_bind_eq_ok (hin.getPtr_ok hlen) fun _ _ => ?_
  refine Except.exists_bind_eq_ok ?_ fun _ _ => ⟨_, rfl⟩
  split
  · exact hret.set_ok hlen o.ret
  · exact ⟨_, rfl⟩

theorem jumpTo_ok (pos : Word) (pops : ℕ) (f : Frame) : ∃ r, jumpTo pos pops f = .ok r := by
  unfold jumpTo
  generalize f.contract.validJumpdest pos = r
  obtain ⟨valid, contract⟩ := r
  cases valid <;> exact ⟨_, rfl⟩

theorem int64_32 : int64 32 = 32 := by decide

/-- **An execution function given its windows does not panic**, on a memory
below `2^63` bytes, with the code and the input Go slices, and fetched inside
the code unless it is the `STOP` past its end. -/
theorem execute_ok {it : EVMInterpreter} {o : Oracle} {e : ExecutionFunc} {f : Frame}
    (hlen : f.memory.len < 2 ^ 63) (hw : WindowsFit e f.stack f.memory.len)
    (hcode : f.contract.code.length < 2 ^ 63) (hinput : f.contract.input.length < 2 ^ 63)
    (hfetch : f.pc.toNat < f.contract.code.length ∨ e = .opStop) :
    ∃ r, execute it o e f = .ok r := by
  cases e <;> simp only [execute]
  case opSha3 | opReturn | opRevert =>
    exact Except.exists_map_eq_ok ((hw.window rfl rfl).getPtr_ok hlen)
  case makeLog | opCreate | opCreate2 =>
    exact Except.exists_map_eq_ok ((hw.window rfl rfl).getCopy_ok hlen)
  case opCallDataCopy => exact copyOp_ok hinput hlen (hw.window rfl rfl)
  case opCodeCopy => exact copyOp_ok hcode hlen (hw.window rfl rfl)
  case opExtCodeCopy => exact copyOp_ok o.extCode_lt hlen (hw.window rfl rfl)
  case opCall | opCallCode =>
    obtain ⟨hret, hin⟩ := hw.twoWindows rfl rfl
    exact callOp_ok hlen hin hret
  case opDelegateCall | opStaticCall =>
    obtain ⟨hret, hin⟩ := hw.twoWindows rfl rfl
    exact callOp_ok hlen hin hret
  case opMload =>
    have hfit := hw.fixed (k := 32) (by decide) rfl rfl
    rw [← int64_32]
    exact Except.exists_map_eq_ok (Memory.getPtr_ok hlen (.inr hfit))
  case opMstore =>
    have hfit := hw.fixed (k := 32) (by decide) rfl rfl
    obtain ⟨m, hm, -⟩ := Memory.set32_ok hlen (f.stack.back 1) hfit
    exact Except.exists_map_eq_ok ⟨m, hm⟩
  case opMstore8 =>
    have hfit := hw.fixed (k := 1) (by decide) rfl rfl
    obtain ⟨m, hm, -⟩ := @Memory.setByte_ok f.memory (f.stack.back 0).uint64
      (f.stack.back 1).uint64.toUInt8 (by
      simp only [UInt64.reduceToNat] at hfit
      omega)
    exact Except.exists_map_eq_ok ⟨m, hm⟩
  case opReturnDataCopy =>
    have hw' := hw.window (i := 0) (j := 2) rfl rfl
    simp only [Word.uint64WithOverflow]
    -- the two checks that return `ErrReturnDataOutOfBounds`
    by_cases hover : (f.stack.back 1).isUint64 = true
    swap
    · simp only [hover, Bool.not_false, if_true]
      exact ⟨_, rfl⟩
    by_cases hend : (f.stack.back 1 + f.stack.back 2).isUint64 = true
    swap
    · simp only [hover, hend, Bool.not_true, Bool.not_false, Bool.true_or, if_true,
        Bool.false_eq_true, if_false]
      exact ⟨_, rfl⟩
    by_cases hle : UInt64.ofNat f.returnData.length < (f.stack.back 1 + f.stack.back 2).uint64
    · simp only [hover, hend, hle, Bool.not_true, Bool.false_or, decide_true, if_true,
        Bool.false_eq_true, if_false]
      exact ⟨_, rfl⟩
    simp only [hover, hend, hle, Bool.not_true, Bool.false_or, decide_false, if_false,
      Bool.false_eq_true]
    -- what passed the checks keeps the slice of the return data inside it
    have h1 : (f.stack.back 1).toNat < 2 ^ 64 := by simpa [Word.isUint64] using hover
    have h2 : (f.stack.back 2).toNat < 2 ^ 64 := by
      rcases hw' with h0 | ⟨-, h2, -⟩
      · omega
      · simpa [Word.isUint64] using h2
    have hsum : (f.stack.back 1 + f.stack.back 2).toNat =
        (f.stack.back 1).toNat + (f.stack.back 2).toNat := by
      rw [BitVec.toNat_add, Nat.mod_eq_of_lt (by omega)]
    have hhigh : (f.stack.back 1 + f.stack.back 2).uint64.toNat ≤ f.returnData.length := by
      rw [UInt64.not_lt, UInt64.le_iff_toNat_le, UInt64.toNat_ofNat'] at hle
      exact hle.trans (Nat.mod_le _ _)
    have hlow : (f.stack.back 1).uint64.toNat ≤ (f.stack.back 1 + f.stack.back 2).uint64.toNat := by
      rw [Word.toNat_uint64 hover, Word.toNat_uint64 hend, hsum]
      omega
    refine Except.exists_bind_eq_ok (Memory.slice_ok (by omega) (by omega) (by omega))
      fun data _ => ?_
    exact Except.exists_bind_eq_ok (hw'.set_ok hlen data) fun _ _ => ⟨_, rfl⟩
  case makePush size pushByteSize =>
    have hpc : f.pc.toNat < f.contract.code.length := hfetch.resolve_right (by simp)
    -- `int(*pc+1)` is the next position, inside the `int64` range
    rw [Memory.int64_add_one (by omega)]
    refine Except.exists_map_eq_ok (Memory.slice_ok ?_ ?_ ?_) <;> split_ifs <;> omega
  case opJump => exact jumpTo_ok _ _ _
  case opJumpi =>
    split
    · exact jumpTo_ok _ _ _
    · exact ⟨_, rfl⟩
  case opJumpSub =>
    split_ifs <;> exact ⟨_, rfl⟩
  case opReturnSub =>
    split <;> exact ⟨_, rfl⟩
  all_goals exact ⟨_, rfl⟩

/-- **The windows of a sized instruction are its accesses**: each access is
empty or ends inside the memory. -/
theorem WindowsFit.accesses_le {e : ExecutionFunc} {stack : Stack} {n : ℕ}
    (hw : WindowsFit e stack n) : ∀ w ∈ accesses e stack, w.2 = 0 ∨ w.1 + w.2 ≤ n := by
  cases e <;> simp only [accesses, List.mem_cons, List.not_mem_nil, or_false, forall_eq_or_imp,
    forall_eq, IsEmpty.forall_iff, implies_true]
  case opSha3 | opReturn | opRevert | makeLog | opCallDataCopy | opReturnDataCopy | opCodeCopy |
      opExtCodeCopy | opCreate | opCreate2 =>
    exact (hw.window rfl rfl).uint64
  case opMload | opMstore => exact .inr (hw.fixed (k := 32) (by decide) rfl rfl)
  case opMstore8 => exact .inr (hw.fixed (k := 1) (by decide) rfl rfl)
  case opCall | opCallCode | opDelegateCall | opStaticCall =>
    obtain ⟨hret, hin⟩ := hw.twoWindows rfl rfl
    exact ⟨hin.uint64, hret.uint64⟩

/-- An instruction is fetched inside the code, or is the `STOP` past its end. -/
theorem prepare_fetch {it : EVMInterpreter} (hjt : TableSound it.jumpTable) {env : GasEnv}
    {f f₁ : Frame} {operation : Operation} (h : prepare it env f = .ok (operation, f₁)) :
    f₁.pc.toNat < f₁.contract.code.length ∨ operation.execute = .opStop := by
  obtain ⟨hop, hpc, -, -, ⟨hcode, -⟩, -⟩ := prepare_spec h
  rw [hpc, hcode]
  rcases Nat.lt_or_ge f.pc.toNat f.contract.code.length with hlt | hge
  · exact .inl hlt
  · rw [getOp_of_le hge] at hop
    exact .inr ((hjt _ _ hop).2.2.2.2 rfl).1

/-- **A round from a frame whose memory keeps `MemInv` does not panic**, with
a sound table and the code and input Go slices. -/
theorem step_ne_panic {it : EVMInterpreter} (hjt : TableSound it.jumpTable) {f : Frame}
    (hm : MemInv f.memory) (hcode : f.contract.code.length < 2 ^ 63)
    (hinput : f.contract.input.length < 2 ^ 63) (o : Oracle) (msg : String) :
    step it o f ≠ .panic msg := by
  intro h
  obtain ⟨operation, f₁, hprep, hexec⟩ := step_panic h
  obtain ⟨hm₁, hw, -⟩ := prepare_memory (f := { f with steps := f.steps + 1 }) hjt hm hprep
  obtain ⟨-, -, -, -, ⟨hcode₁, hinput₁, -⟩, -⟩ := prepare_spec hprep
  obtain ⟨r, hr⟩ := @execute_ok it o _ _ hm₁.len_lt hw (hcode₁.symm ▸ hcode)
    (hinput₁.symm ▸ hinput) (prepare_fetch hjt hprep)
  rw [hr] at hexec
  cases hexec

end RpcNetwork.Vm
