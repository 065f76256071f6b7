import Mathlib

/-!
# Applying a message (`core/state_transition.go`, `core/gaspool.go`)

`TransitionDb` applies one message: it checks the nonce, buys `gas * gasPrice`
out of the sender's balance and `gas` out of the block's gas pool, charges the
intrinsic gas of the data, runs the call or the creation, refunds up to half
the used gas from the refund counter, returns what is left to the sender and
the pool, and pays the used gas to the coinbase.

## Design notes

The state is what `TransitionDb` reads and writes: balances (`big.Int`s, so
integers), nonces and the refund counter.  The EVM's `Call` and `Create` are
any functions of it, returning the output, the gas left, the error and the new
state.  `TransitionDb` writes through its pointers to the state and the gas
pool before it can fail, so the model returns both with the result, error or
not; a panic is the outer `Except String`.
-/

namespace RpcNetwork.Core

/-- The errors of `core/error.go` that `TransitionDb` returns. -/
inductive TxError where
  | nonceTooLow | nonceTooHigh | gasLimitReached | insufficientFundsForTransfer
  | insufficientFunds | gasUintOverflow | intrinsicGas
  deriving DecidableEq, Repr

/-- `math.MaxUint64`. -/
def maxUint64 : UInt64 := 0xffffffffffffffff

/-! ### Intrinsic gas -/

/-- `params.TxGas`, `TxGasContractCreation`, `TxDataZeroGas`,
`TxDataNonZeroGasFrontier` and `TxDataNonZeroGasEIP2028`. -/
def txGas : UInt64 := 21000
def txGasContractCreation : UInt64 := 53000
def txDataZeroGas : UInt64 := 4
def txDataNonZeroGasFrontier : UInt64 := 68
def txDataNonZeroGasEIP2028 : UInt64 := 16

/-- One round of the loop counting the nonzero bytes. -/
def countNonZero (nz : UInt64) (b : UInt8) : UInt64 := if b != 0 then nz + 1 else nz

/-- `IntrinsicGas(data, contractCreation, isHomestead, isEIP2028)`. -/
def intrinsicGas (data : List UInt8) (contractCreation isHomestead isEIP2028 : Bool) :
    Except TxError UInt64 :=
  let gas := if contractCreation && isHomestead then txGasContractCreation else txGas
  if data.length > 0 then
    let nz := data.foldl countNonZero 0
    let nonZeroGas := if isEIP2028 then txDataNonZeroGasEIP2028 else txDataNonZeroGasFrontier
    if (maxUint64 - gas) / nonZeroGas < nz then .error .gasUintOverflow
    else
      let gas := gas + nz * nonZeroGas
      let z := data.length.toUInt64 - nz
      if (maxUint64 - gas) / txDataZeroGas < z then .error .gasUintOverflow
      else .ok (gas + z * txDataZeroGas)
  else .ok gas

/-- The intrinsic gas as the protocol prices it, on unbounded numbers. -/
def intrinsicGasExact (data : List UInt8) (contractCreation isHomestead isEIP2028 : Bool) : ℕ :=
  (if contractCreation && isHomestead then 53000 else 21000) +
    data.countP (· != 0) * (if isEIP2028 then 16 else 68) + data.countP (· == 0) * 4

theorem foldl_countNonZero (data : List UInt8) (n : ℕ) :
    data.foldl countNonZero n.toUInt64 = (n + data.countP (· != 0)).toUInt64 := by
  induction data generalizing n with
  | nil => rfl
  | cons b data ih =>
    rw [List.foldl_cons, List.countP_cons]
    by_cases hb : b = 0
    · dsimp only [countNonZero] at ih ⊢
      simp only [hb, bne_self_eq_false, Bool.false_eq_true, if_false, Nat.add_zero] at ih ⊢
      exact ih n
    · have hstep : countNonZero n.toUInt64 b = (n + 1).toUInt64 := by
        dsimp only [countNonZero]
        simp [hb]
      rw [hstep, ih (n + 1)]
      simp [hb, Nat.add_assoc, Nat.add_comm 1]

/-- The check `(MaxUint64 - g) / d < n` fails exactly when `g + n * d` fits. -/
theorem checkedMulAdd_iff {g d n : UInt64} (hd : 0 < d.toNat) :
    (maxUint64 - g) / d < n ↔ 2 ^ 64 ≤ g.toNat + n.toNat * d.toNat := by
  have hg := g.toNat_lt
  have hmax : maxUint64.toNat = 2 ^ 64 - 1 := rfl
  rw [UInt64.lt_iff_toNat_lt, UInt64.toNat_div, UInt64.toNat_sub_of_le _ _ (UInt64.le_iff_toNat_le.mpr
    (by omega)), hmax, Nat.div_lt_iff_lt_mul hd]
  omega

theorem toNat_add_mul_of_lt {g d n : UInt64} (h : g.toNat + n.toNat * d.toNat < 2 ^ 64) :
    (g + n * d).toNat = g.toNat + n.toNat * d.toNat := by
  have hmul : n.toNat * d.toNat < 2 ^ 64 := by omega
  rw [UInt64.toNat_add, UInt64.toNat_mul, Nat.mod_eq_of_lt hmul, Nat.mod_eq_of_lt h]

/-- **`IntrinsicGas` charges the exact price or reports the overflow.**  For
data shorter than `2^64` bytes, the result is the price `intrinsicGasExact`
when it fits in a `uint64`, and `ErrGasUintOverflow` exactly when it does not:
the two division checks catch every overflow and nothing else. -/
theorem intrinsicGas_eq (data : List UInt8) (contractCreation isHomestead isEIP2028 : Bool)
    (hlen : data.length < 2 ^ 64) :
    intrinsicGas data contractCreation isHomestead isEIP2028 =
      if intrinsicGasExact data contractCreation isHomestead isEIP2028 < 2 ^ 64 then
        .ok (intrinsicGasExact data contractCreation isHomestead isEIP2028).toUInt64
      else .error .gasUintOverflow := by
  have hnz : data.foldl countNonZero 0 = (data.countP (· != 0)).toUInt64 := by
    simpa using foldl_countNonZero data 0
  -- the nonzero and the zero bytes make up the data
  have hsplit : data.countP (· != 0) + data.countP (· == 0) = data.length := by
    rw [List.length_eq_countP_add_countP (· != 0)]
    congr 1
    exact List.countP_congr fun b _ => by simp
  have hc : (data.countP (· != 0)).toUInt64.toNat = data.countP (· != 0) :=
    UInt64.toNat_ofNat_of_lt' (show _ < 2 ^ 64 by omega)
  have hl : data.length.toUInt64.toNat = data.length := UInt64.toNat_ofNat_of_lt' hlen
  -- the base and the price of a nonzero byte, read as numbers
  obtain ⟨G, hG, hGv⟩ : ∃ G : UInt64, (if contractCreation && isHomestead then txGasContractCreation
      else txGas) = G ∧ G.toNat = if contractCreation && isHomestead then 53000 else 21000 :=
    ⟨_, rfl, by split <;> rfl⟩
  obtain ⟨D, hD, hDv⟩ : ∃ D : UInt64, (if isEIP2028 then txDataNonZeroGasEIP2028
      else txDataNonZeroGasFrontier) = D ∧ D.toNat = if isEIP2028 then 16 else 68 :=
    ⟨_, rfl, by split <;> rfl⟩
  have hDpos : 0 < D.toNat := by rw [hDv]; split <;> omega
  have hZv : txDataZeroGas.toNat = 4 := rfl
  unfold intrinsicGas intrinsicGasExact
  simp only [hnz, hG, hD]
  rw [← hGv, ← hDv]
  by_cases hempty : data.length > 0
  · rw [if_pos hempty]
    by_cases h1 : (maxUint64 - G) / D < (data.countP (· != 0)).toUInt64
    · -- the nonzero bytes alone overflow
      rw [if_pos h1, if_neg]
      rw [checkedMulAdd_iff hDpos, hc] at h1
      omega
    · rw [if_neg h1]
      rw [checkedMulAdd_iff hDpos, hc] at h1
      have hgas := toNat_add_mul_of_lt (g := G) (d := D) (n := (data.countP (· != 0)).toUInt64)
        (by rw [hc]; omega)
      rw [hc] at hgas
      have hz : (data.length.toUInt64 - (data.countP (· != 0)).toUInt64).toNat =
          data.countP (· == 0) := by
        rw [UInt64.toNat_sub_of_le _ _ (UInt64.le_iff_toNat_le.mpr (by omega)), hl, hc]
        omega
      by_cases h2 : (maxUint64 - (G + (data.countP (· != 0)).toUInt64 * D)) / txDataZeroGas <
          data.length.toUInt64 - (data.countP (· != 0)).toUInt64
      · rw [if_pos h2, if_neg]
        rw [checkedMulAdd_iff (by rw [hZv]; omega), hgas, hz, hZv] at h2
        omega
      · rw [if_neg h2]
        rw [checkedMulAdd_iff (by rw [hZv]; omega), hgas, hz, hZv] at h2
        rw [if_pos (by omega)]
        congr 1
        apply UInt64.toNat_inj.mp
        rw [toNat_add_mul_of_lt (by rw [hgas, hz, hZv]; omega), hgas, hz, hZv, Nat.toUInt64_eq,
          UInt64.toNat_ofNat', Nat.mod_eq_of_lt (by omega)]
  · have h0 : data = [] := List.eq_nil_of_length_eq_zero (by omega)
    subst h0
    have hG64 := G.toNat_lt
    simp only [List.countP_nil, Nat.zero_mul, Nat.add_zero]
    rw [if_neg hempty, if_pos hG64]
    congr 1
    apply UInt64.toNat_inj.mp
    rw [Nat.toUInt64_eq, UInt64.toNat_ofNat', Nat.mod_eq_of_lt hG64]

/-! ### The gas pool -/

theorem intrinsicGas_eq_call : [0, 1].length < 2 ^ 64 ∧
    intrinsicGas [0, 1] false true true =
      if intrinsicGasExact [0, 1] false true true < 2 ^ 64 then
        .ok (intrinsicGasExact [0, 1] false true true).toUInt64
      else .error .gasUintOverflow :=
  ⟨by decide, intrinsicGas_eq [0, 1] false true true (by decide)⟩

namespace GasPool

/-- `GasPool.SubGas`. -/
def subGas (gp amount : UInt64) : Except TxError UInt64 :=
  if gp < amount then .error .gasLimitReached else .ok (gp - amount)

/-- `GasPool.AddGas`, which panics past `MaxUint64`. -/
def addGas (gp amount : UInt64) : Except String UInt64 :=
  if gp > maxUint64 - amount then .error "gas pool pushed above uint64" else .ok (gp + amount)

end GasPool

/-! ### The transition -/

variable {Addr VmErr : Type} [DecidableEq Addr]

/-- What `TransitionDb` reads and writes of the `StateDB`. -/
structure StateDB (Addr : Type) where
  balance : Addr → ℤ
  nonce : Addr → UInt64
  refund : UInt64

/-- `AddBalance(a, v)`; `SubBalance(a, v)` is `AddBalance(a, -v)`. -/
def StateDB.addBalance (s : StateDB Addr) (a : Addr) (v : ℤ) : StateDB Addr :=
  { s with balance := Function.update s.balance a (s.balance a + v) }

/-- `SetNonce(a, n)`. -/
def StateDB.setNonce (s : StateDB Addr) (a : Addr) (n : UInt64) : StateDB Addr :=
  { s with nonce := Function.update s.nonce a n }

/-- The fields of a `Message` that `TransitionDb` reads. -/
structure Message (Addr : Type) where
  «from» : Addr
  «to» : Option Addr
  gasPrice : ℤ
  gas : UInt64
  value : ℤ
  nonce : UInt64
  checkNonce : Bool
  data : List UInt8

/-- `ExecutionResult`. -/
structure ExecutionResult (VmErr : Type) where
  usedGas : UInt64
  err : Option VmErr
  returnData : List UInt8

/-- The EVM as `TransitionDb` uses it: the coinbase, the fork flags at the
block, and `Call` and `Create`, each answering the output, the gas left, the
error and the state. -/
structure Evm (Addr VmErr : Type) where
  coinbase : Addr
  isHomestead : Bool
  isIstanbul : Bool
  call : StateDB Addr → Addr → Addr → List UInt8 → UInt64 → ℤ →
    List UInt8 × UInt64 × Option VmErr × StateDB Addr
  create : StateDB Addr → Addr → List UInt8 → UInt64 → ℤ →
    List UInt8 × UInt64 × Option VmErr × StateDB Addr

/-- `st.buyGas()`. -/
def buyGas (msg : Message Addr) (gp : UInt64) (s : StateDB Addr) :
    Except TxError (UInt64 × StateDB Addr) :=
  if s.balance msg.from < msg.gas.toNat * msg.gasPrice then .error .insufficientFunds
  else (·, s.addBalance msg.from (-(msg.gas.toNat * msg.gasPrice))) <$> GasPool.subGas gp msg.gas

/-- `st.preCheck()`: the nonce, then `buyGas`. -/
def preCheck (msg : Message Addr) (gp : UInt64) (s : StateDB Addr) :
    Except TxError (UInt64 × StateDB Addr) :=
  if msg.checkNonce && s.nonce msg.from < msg.nonce then .error .nonceTooHigh
  else if msg.checkNonce && msg.nonce < s.nonce msg.from then .error .nonceTooLow
  else buyGas msg gp s

/-- The creation, or the call after the sender's nonce is bumped, with `gas`. -/
def execute (evm : Evm Addr VmErr) (msg : Message Addr) (gas : UInt64) (s : StateDB Addr) :
    List UInt8 × UInt64 × Option VmErr × StateDB Addr :=
  match msg.«to» with
  | none => evm.create s msg.from msg.data gas msg.value
  | some dest => evm.call (s.setNonce msg.from (s.nonce msg.from + 1)) msg.from dest msg.data gas msg.value

/-- `st.refundGas()` once the EVM left `gas`: the gas then left, the pool and
the state. -/
def refundGas (msg : Message Addr) (gas gp : UInt64) (s : StateDB Addr) :
    Except String (UInt64 × UInt64 × StateDB Addr) :=
  let gas := gas + min ((msg.gas - gas) / 2) s.refund
  (gas, ·, s.addBalance msg.from (gas.toNat * msg.gasPrice)) <$> GasPool.addGas gp gas

/-- `NewStateTransition(evm, msg, gp).TransitionDb()` on the state `s`: the
result or the consensus error, with the pool and the state after it. -/
def transitionDb (evm : Evm Addr VmErr) (msg : Message Addr) (gp : UInt64) (s : StateDB Addr) :
    Except String (Except TxError (ExecutionResult VmErr) × UInt64 × StateDB Addr) :=
  match preCheck msg gp s with
  | .error e => .ok (.error e, gp, s)
  | .ok (gp, s) =>
    match intrinsicGas msg.data msg.«to».isNone evm.isHomestead evm.isIstanbul with
    | .error e => .ok (.error e, gp, s)
    | .ok igas =>
      if msg.gas < igas then .ok (.error .intrinsicGas, gp, s)
      else if 0 < msg.value && s.balance msg.from < msg.value then
        .ok (.error .insufficientFundsForTransfer, gp, s)
      else
        let (ret, gas, vmerr, s) := execute evm msg (msg.gas - igas) s
        (fun (gas, gp, s) => (.ok ⟨msg.gas - gas, vmerr, ret⟩, gp,
            s.addBalance evm.coinbase ((msg.gas - gas).toNat * msg.gasPrice))) <$>
          refundGas msg gas gp s

/-! ### What a transition does with the gas -/

theorem subGas_eq_ok {gp amount gp' : UInt64} (h : GasPool.subGas gp amount = .ok gp') :
    amount ≤ gp ∧ gp' = gp - amount := by
  unfold GasPool.subGas at h
  split at h
  · cases h
  · cases h
    exact ⟨UInt64.not_lt.mp ‹_›, rfl⟩

/-- What `preCheck` can do: fail with one of its four errors, or buy the gas. -/
theorem preCheck_cases (msg : Message Addr) (gp : UInt64) (s : StateDB Addr) :
    (∃ e, preCheck msg gp s = .error e ∧
      (e = .nonceTooHigh ∨ e = .nonceTooLow ∨ e = .insufficientFunds ∨ e = .gasLimitReached)) ∨
    (msg.gas ≤ gp ∧ preCheck msg gp s =
      .ok (gp - msg.gas, s.addBalance msg.from (-(msg.gas.toNat * msg.gasPrice)))) := by
  unfold preCheck buyGas
  split
  · exact .inl ⟨_, rfl, by simp⟩
  split
  · exact .inl ⟨_, rfl, by simp⟩
  split
  · exact .inl ⟨_, rfl, by simp⟩
  cases hsub : GasPool.subGas gp msg.gas with
  | error e =>
    left
    refine ⟨e, rfl, ?_⟩
    unfold GasPool.subGas at hsub
    split at hsub <;> cases hsub
    simp
  | ok gp' =>
    obtain ⟨hle, rfl⟩ := subGas_eq_ok hsub
    exact .inr ⟨hle, rfl⟩

/-- The EVM never hands back more gas than it was given. -/
def Evm.Sound (evm : Evm Addr VmErr) : Prop :=
  (∀ s a b d g v, (evm.call s a b d g v).2.1 ≤ g) ∧ ∀ s a d g v, (evm.create s a d g v).2.1 ≤ g

theorem Evm.Sound.execute {evm : Evm Addr VmErr} (hevm : evm.Sound) (msg : Message Addr)
    (gas : UInt64) (s : StateDB Addr) : (execute evm msg gas s).2.1 ≤ gas := by
  unfold RpcNetwork.Core.execute
  cases msg.«to» with
  | none => exact hevm.2 _ _ _ _ _
  | some dest => exact hevm.1 _ _ _ _ _ _

/-- The refund keeps the gas left at most the message's gas and, from a pool
that `buyGas` took the message's gas out of, does not panic. -/
theorem refundGas_ok {msg : Message Addr} {gas : UInt64} (gp : UInt64) (s : StateDB Addr)
    (hgas : gas ≤ msg.gas) (hgp : gp.toNat + msg.gas.toNat < 2 ^ 64) :
    ∃ gas', gas ≤ gas' ∧ gas' ≤ msg.gas ∧
      refundGas msg gas gp s = .ok (gas', gp + gas', s.addBalance msg.from (gas'.toNat * msg.gasPrice)) := by
  have hle := UInt64.le_iff_toNat_le.mp hgas
  -- the refund is at most half the gas used
  have hrefund : (min ((msg.gas - gas) / 2) s.refund).toNat ≤ (msg.gas.toNat - gas.toNat) / 2 := by
    rw [UInt64.toNat_min, UInt64.toNat_div, UInt64.toNat_sub_of_le _ _ hgas]
    exact min_le_left _ _
  have hsum : (gas + min ((msg.gas - gas) / 2) s.refund).toNat =
      gas.toNat + (min ((msg.gas - gas) / 2) s.refund).toNat := by
    rw [UInt64.toNat_add, Nat.mod_eq_of_lt (by have := msg.gas.toNat_lt; omega)]
  refine ⟨gas + min ((msg.gas - gas) / 2) s.refund, UInt64.le_iff_toNat_le.mpr (by omega),
    UInt64.le_iff_toNat_le.mpr (by omega), ?_⟩
  have hno : ¬gp > maxUint64 - (gas + min ((msg.gas - gas) / 2) s.refund) := by
    rw [UInt64.not_lt, UInt64.le_iff_toNat_le, UInt64.toNat_sub_of_le _ _
      (UInt64.le_iff_toNat_le.mpr (by have := msg.gas.toNat_lt; change _ ≤ 2 ^ 64 - 1; omega))]
    change _ ≤ 2 ^ 64 - 1 - _
    omega
  dsimp only [refundGas, GasPool.addGas]
  rw [if_neg hno]
  rfl

/-- **The gas of a transition is accounted for.**  When the EVM never hands
back more gas than it was given, `TransitionDb` never panics; it never leaves
more gas in the block's pool than there was; and a message that goes through
used at most its gas, and took exactly the gas it used out of the pool. -/
theorem transitionDb_gas {evm : Evm Addr VmErr} (hevm : evm.Sound) (msg : Message Addr)
    (gp : UInt64) (s : StateDB Addr) :
    ∃ r gp' s', transitionDb evm msg gp s = .ok (r, gp', s') ∧ gp' ≤ gp ∧
      ∀ res, r = .ok res → res.usedGas ≤ msg.gas ∧ gp'.toNat + res.usedGas.toNat = gp.toNat := by
  rcases preCheck_cases msg gp s with ⟨e, he, -⟩ | ⟨hle, hpre⟩
  · exact ⟨.error e, gp, s, by dsimp only [transitionDb]; rw [he], UInt64.le_refl _,
      fun _ h => by cases h⟩
  have hle' := UInt64.le_iff_toNat_le.mp hle
  have hsub : (gp - msg.gas).toNat = gp.toNat - msg.gas.toNat := UInt64.toNat_sub_of_le _ _ hle
  -- the errors after `buyGas` keep the reduced pool
  have hkeep : gp - msg.gas ≤ gp := UInt64.le_iff_toNat_le.mpr (by omega)
  dsimp only [transitionDb]
  rw [hpre]
  dsimp only
  cases intrinsicGas msg.data msg.«to».isNone evm.isHomestead evm.isIstanbul with
  | error e => exact ⟨_, _, _, rfl, hkeep, fun _ h => by cases h⟩
  | ok igas =>
    dsimp only
    split
    · exact ⟨_, _, _, rfl, hkeep, fun _ h => by cases h⟩
    split
    · exact ⟨_, _, _, rfl, hkeep, fun _ h => by cases h⟩
    rename_i hig _
    have hleft := hevm.execute msg (msg.gas - igas)
      (s.addBalance msg.from (-(msg.gas.toNat * msg.gasPrice)))
    generalize execute evm msg (msg.gas - igas)
      (s.addBalance msg.from (-(msg.gas.toNat * msg.gasPrice))) = out at hleft ⊢
    obtain ⟨ret, left, vmerr, s₂⟩ := out
    dsimp only at hleft
    have hleft' : left ≤ msg.gas := UInt64.le_iff_toNat_le.mpr (by
      have h1 := UInt64.le_iff_toNat_le.mp hleft
      rw [UInt64.toNat_sub_of_le _ _ (UInt64.not_lt.mp hig)] at h1
      omega)
    obtain ⟨gas', hlo, hhi, href⟩ := refundGas_ok (gp - msg.gas) s₂ hleft'
      (by have := gp.toNat_lt; omega)
    have hhi' := UInt64.le_iff_toNat_le.mp hhi
    have hadd : (gp - msg.gas + gas').toNat = gp.toNat - msg.gas.toNat + gas'.toNat := by
      rw [UInt64.toNat_add, hsub, Nat.mod_eq_of_lt (by have := gp.toNat_lt; omega)]
    have hused := UInt64.toNat_sub_of_le _ _ hhi
    dsimp only
    rw [href]
    refine ⟨_, gp - msg.gas + gas', _, rfl, UInt64.le_iff_toNat_le.mpr (by omega), fun res h => ?_⟩
    cases h
    exact ⟨UInt64.le_iff_toNat_le.mpr (by dsimp only; omega), by dsimp only; omega⟩

theorem intrinsicGas_error {data : List UInt8} {contractCreation isHomestead isEIP2028 : Bool}
    {e : TxError} (h : intrinsicGas data contractCreation isHomestead isEIP2028 = .error e) :
    e = .gasUintOverflow := by
  dsimp only [intrinsicGas] at h
  split_ifs at h <;> cases h <;> rfl

/-- An EVM that runs no code and hands back all the gas it is given. -/
def idleEvm : Evm ℕ Unit where
  coinbase := 0
  isHomestead := true
  isIstanbul := true
  call s _ _ _ gas _ := ([], gas, none, s)
  create s _ _ gas _ := ([], gas, none, s)

theorem idleEvm_sound : idleEvm.Sound :=
  ⟨fun _ _ _ _ _ _ => UInt64.le_refl _, fun _ _ _ _ _ => UInt64.le_refl _⟩

/-- A value transfer of one unit with no data, sent at the sender's nonce. -/
def transferMsg : Message ℕ :=
  { «from» := 1, «to» := some 2, gasPrice := 1, gas := 21000, value := 1, nonce := 0,
    checkNonce := true, data := [] }

/-- Every account holds 100000 and is at nonce zero. -/
def fundedState : StateDB ℕ := ⟨fun _ => 100000, fun _ => 0, 0⟩

/-- What `ApplyTransaction` writes into a receipt: the status, the block's gas
used up to and including the transaction, and the transaction's. -/
structure Receipt where
  failed : Bool
  cumulativeGasUsed : UInt64
  gasUsed : UInt64

/-- `ApplyTransaction` for the message of a transaction: `ApplyMessage`, then
`*usedGas += result.UsedGas` and the receipt; with the block's gas used, the
pool and the state after it. -/
def applyTransaction (evm : Evm Addr VmErr) (gp : UInt64) (s : StateDB Addr) (usedGas : UInt64)
    (msg : Message Addr) : Except String (Except TxError Receipt × UInt64 × UInt64 × StateDB Addr) :=
  (fun (r, gp, s) => match r with
    | .error e => (.error e, usedGas, gp, s)
    | .ok res => (.ok ⟨res.err.isSome, usedGas + res.usedGas, res.usedGas⟩,
        usedGas + res.usedGas, gp, s)) <$> transitionDb evm msg gp s

/-- The loop of `Process` over the block's messages: the receipts, the gas
used and the state, or the first error, which rejects the block. -/
def processTxs (evm : Evm Addr VmErr) : List (Message Addr) → UInt64 → UInt64 → StateDB Addr →
    Except String (Except TxError (List Receipt × UInt64 × StateDB Addr))
  | [], _, usedGas, s => .ok (.ok ([], usedGas, s))
  | msg :: msgs, gp, usedGas, s => do
    let (r, usedGas, gp, s) ← applyTransaction evm gp s usedGas msg
    match r with
    | .error e => return .error e
    | .ok receipt =>
      return (fun (rs, u, s) => (receipt :: rs, u, s)) <$> (← processTxs evm msgs gp usedGas s)

/-- `Process(block, statedb, cfg)` with a pool of the block's gas limit; the
DAO fork and the engine's `Finalize` are left out. -/
def process (evm : Evm Addr VmErr) (gasLimit : UInt64) (msgs : List (Message Addr))
    (s : StateDB Addr) : Except String (Except TxError (List Receipt × UInt64 × StateDB Addr)) := do
  let gp ← GasPool.addGas 0 gasLimit
  processTxs evm msgs gp 0 s

theorem processTxs_cons_error {msg : Message Addr} {msgs : List (Message Addr)}
    {gp usedGas gp' : UInt64} {s s' : StateDB Addr} {e : TxError}
    (h : transitionDb evm msg gp s = .ok (.error e, gp', s')) :
    processTxs evm (msg :: msgs) gp usedGas s = .ok (.error e) := by
  show applyTransaction evm gp s usedGas msg >>= _ = _
  dsimp only [applyTransaction]
  rw [h]
  rfl

theorem processTxs_cons_ok {msg : Message Addr} {msgs : List (Message Addr)}
    {gp usedGas gp' : UInt64} {s s' : StateDB Addr} {res : ExecutionResult VmErr}
    (h : transitionDb evm msg gp s = .ok (.ok res, gp', s')) :
    processTxs evm (msg :: msgs) gp usedGas s =
      (fun r => (fun (rs, u, s) => (⟨res.err.isSome, usedGas + res.usedGas, res.usedGas⟩ :: rs, u, s)) <$>
        r) <$> processTxs evm msgs gp' (usedGas + res.usedGas) s' := by
  show applyTransaction evm gp s usedGas msg >>= _ = _
  dsimp only [applyTransaction]
  rw [h]
  rfl

/-- Each receipt's cumulative gas is the gas used before it plus its own. -/
def Receipt.Chained : ℕ → List Receipt → Prop
  | _, [] => True
  | u, r :: rs => r.cumulativeGasUsed.toNat = u + r.gasUsed.toNat ∧ Receipt.Chained (u + r.gasUsed.toNat) rs

/-- The loop keeps the pool and the gas used summing to the block's gas limit
`L`: each message that goes through moves its gas from the one to the other. -/
theorem processTxs_gas {evm : Evm Addr VmErr} (hevm : evm.Sound) (msgs : List (Message Addr)) :
    ∀ (gp usedGas : UInt64) (s : StateDB Addr) (L : ℕ), gp.toNat + usedGas.toNat = L → L < 2 ^ 64 →
      ∃ r, processTxs evm msgs gp usedGas s = .ok r ∧ ∀ rs u s', r = .ok (rs, u, s') →
        u.toNat ≤ L ∧ u.toNat = usedGas.toNat + (rs.map (·.gasUsed.toNat)).sum ∧
          Receipt.Chained usedGas.toNat rs := by
  induction msgs with
  | nil =>
    intro gp usedGas s L hL _
    exact ⟨_, rfl, fun rs u s' h => by cases h; exact ⟨by omega, by simp, trivial⟩⟩
  | cons msg msgs ih =>
    intro gp usedGas s L hL hL64
    obtain ⟨r, gp', s', hdb, -, hgas⟩ := transitionDb_gas hevm msg gp s
    cases r with
    | error e => exact ⟨.error e, processTxs_cons_error hdb, fun _ _ _ h => by cases h⟩
    | ok res =>
      obtain ⟨-, hpool⟩ := hgas res rfl
      -- the gas used stays below the limit, so adding it never wraps
      have hu : (usedGas + res.usedGas).toNat = usedGas.toNat + res.usedGas.toNat := by
        rw [UInt64.toNat_add, Nat.mod_eq_of_lt (by omega)]
      obtain ⟨r', hrest, hinv⟩ := ih gp' (usedGas + res.usedGas) s' L (by omega) hL64
      refine ⟨_, by rw [processTxs_cons_ok hdb, hrest]; rfl, fun rs u s'' h => ?_⟩
      cases r' with
      | error e => cases h
      | ok x =>
        obtain ⟨rs', u', s₃⟩ := x
        cases h
        obtain ⟨hle, hsum, hchain⟩ := hinv _ _ _ rfl
        refine ⟨hle, ?_, ⟨hu, ?_⟩⟩
        · simp only [List.map_cons, List.sum_cons]
          omega
        · rwa [← hu]

/-- **A processed block stays within its gas limit.**  When the EVM never
hands back more gas than it was given, `Process` never panics, and a block it
accepts used at most its gas limit; the gas used, added up in a `uint64`, is
exactly the sum of the receipts' gas, and each receipt's cumulative gas is the
sum up to and including it. -/
theorem process_gas {evm : Evm Addr VmErr} (hevm : evm.Sound) (gasLimit : UInt64)
    (msgs : List (Message Addr)) (s : StateDB Addr) :
    ∃ r, process evm gasLimit msgs s = .ok r ∧ ∀ rs u s', r = .ok (rs, u, s') →
      u ≤ gasLimit ∧ u.toNat = (rs.map (·.gasUsed.toNat)).sum ∧ Receipt.Chained 0 rs := by
  have hadd : GasPool.addGas 0 gasLimit = .ok gasLimit := by
    have hno : ¬(0 : UInt64) > maxUint64 - gasLimit := UInt64.not_lt.mpr UInt64.zero_le
    dsimp only [GasPool.addGas]
    rw [if_neg hno, UInt64.zero_add]
  obtain ⟨r, hr, hinv⟩ := processTxs_gas hevm msgs gasLimit 0 s gasLimit.toNat (by simp) gasLimit.toNat_lt
  refine ⟨r, by dsimp only [process]; rw [hadd]; exact hr, fun rs u s' h => ?_⟩
  obtain ⟨hle, hsum, hchain⟩ := hinv rs u s' h
  exact ⟨UInt64.le_iff_toNat_le.mpr hle, by simpa using hsum, hchain⟩

theorem process_gas_transfer : idleEvm.Sound ∧
    ∃ r, process idleEvm 30000 [transferMsg] fundedState = .ok r ∧ ∀ rs u s', r = .ok (rs, u, s') →
      u ≤ 30000 ∧ u.toNat = (rs.map (·.gasUsed.toNat)).sum ∧ Receipt.Chained 0 rs :=
  ⟨idleEvm_sound, process_gas idleEvm_sound 30000 [transferMsg] fundedState⟩

end RpcNetwork.Core
