import RpcNetwork.Vm.Analysis

/-!
# The disassembler's instruction iterator (`core/asm/asm.go`)

`instructionIterator.Next` moves past the previous instruction and its
argument and reads the next (a push cut off by the end is an error);
`Disassemble` loops `for it.Next()`.

The positions the iterator stops at are those of `codeBitmap`'s code bytes,
in increasing order, with one exception: a push cut off by the end of the
code is a code byte that the iterator reports through `Error()` and `PC()`,
not through a `true`.  Such a push can only be the last instruction.

## Design notes

`pc` is a `ℕ`: it stays below `len(code) + 33`, so the `uint64` of the source
never wraps.  A nil argument is `none`; `Next` sets a non-empty slice for
every push and nil otherwise.
-/

namespace RpcNetwork.Vm

/-! ### A push cut off by the end of the code -/

/-- A push at `pc` whose argument runs past the end of the code. -/
def Truncated (code : List UInt8) (pc : ℕ) : Prop :=
  ∃ op, code[pc]? = some op ∧ isPush op = true ∧ code.length < pc + instrWidth op

section Decoding

variable {code : List UInt8}

theorem truncated_iff {q : ℕ} {op : OpCode} (hop : code[q]? = some op) :
    Truncated code q ↔ isPush op = true ∧ code.length < q + instrWidth op := by
  constructor
  · rintro ⟨op', hop', hpush, hcut⟩
    rw [hop] at hop'
    cases hop'
    exact ⟨hpush, hcut⟩
  · exact fun h => ⟨op, hop, h⟩

theorem Truncated.lt {q : ℕ} (h : Truncated code q) : q < code.length := by
  obtain ⟨op, hop, -⟩ := h
  exact (List.getElem?_eq_some_iff.mp hop).1

/-- From a reached boundary `q`, the next reached position is `q` itself or
lies past the whole instruction at `q`. -/
theorem Reaches.eq_or_next_le {q p : ℕ} {op : OpCode} (hq : Reaches code q)
    (hop : code[q]? = some op) (hp : Reaches code p) (hqp : q ≤ p) :
    p = q ∨ q + instrWidth op ≤ p := by
  obtain ⟨hlt, rfl⟩ := List.getElem?_eq_some_iff.mp hop
  rcases Nat.eq_or_lt_of_le hqp with rfl | hlt'
  · exact .inl rfl
  · exact .inr (hq.gap hp hlt' hlt)

/-- A cut-off push is the last instruction. -/
theorem Reaches.le_of_truncated {a q : ℕ} (ha : Reaches code a) (hta : Truncated code a)
    (hq : Reaches code q) (hlt : q < code.length) : q ≤ a := by
  obtain ⟨op, hop, hcut⟩ := hta
  by_contra hgt
  rcases ha.eq_or_next_le hop hq (by omega) with rfl | hle
  · omega
  · omega

end Decoding

end RpcNetwork.Vm

namespace RpcNetwork.Core.Asm

open RpcNetwork.Vm

/-- `instructionIterator`. -/
structure InstructionIterator where
  code : List UInt8
  pc : ℕ
  arg : Option (List UInt8)
  op : OpCode
  error : Option String
  started : Bool

/-- `NewInstructionIterator`. -/
def newInstructionIterator (code : List UInt8) : InstructionIterator :=
  ⟨code, 0, none, 0, none, false⟩

namespace InstructionIterator

/-- The first half of `Next`: move past the current instruction and its
argument, or start at the first instruction. -/
def advance (it : InstructionIterator) : InstructionIterator :=
  if it.started then { it with pc := it.pc + (it.arg.map List.length).getD 0 + 1 }
  else { it with started := true }

/-- The second half of `Next`: stop at the end of the code, or read the opcode
at `pc` and, for a push, its argument. -/
def decode (it : InstructionIterator) : Bool × InstructionIterator :=
  if h : it.code.length ≤ it.pc then (false, it)
  else
    let it := { it with op := it.code[it.pc] }
    if isPush it.op then
      let a := it.op.toNat - PUSH1.toNat + 1
      let u := it.pc + 1 + a
      if it.code.length ≤ it.pc ∨ it.code.length < u then
        (false, { it with error := some ("incomplete push instruction at " ++ toString it.pc) })
      else (true, { it with arg := some (it.code.extract (it.pc + 1) u) })
    else (true, { it with arg := none })

/-- `Next`: nothing after an error or past the end. -/
def next (it : InstructionIterator) : Bool × InstructionIterator :=
  if it.error.isSome || decide (it.code.length ≤ it.pc) then (false, it)
  else it.advance.decode

/-- What the loop still has to walk: twice the bytes left, and one more before
the first `Next`. -/
def remaining (it : InstructionIterator) : ℕ :=
  2 * (it.code.length - it.pc) + if it.started then 0 else 1

@[simp] theorem advance_code (it : InstructionIterator) : it.advance.code = it.code := by
  unfold advance
  split <;> rfl

theorem advance_pc (it : InstructionIterator) :
    it.advance.pc = if it.started then it.pc + (it.arg.map List.length).getD 0 + 1 else it.pc := by
  unfold advance
  split <;> rfl

@[simp] theorem advance_error (it : InstructionIterator) : it.advance.error = it.error := by
  unfold advance
  split <;> rfl

@[simp] theorem advance_started (it : InstructionIterator) : it.advance.started = true := by
  unfold advance
  split <;> simp_all

/-- `decode` keeps the code, the position and whether the walk has started. -/
theorem decode_frame {it it' : InstructionIterator} {b : Bool} (h : it.decode = (b, it')) :
    it'.code = it.code ∧ it'.pc = it.pc ∧ it'.started = it.started := by
  unfold decode at h
  split at h
  · cases h; exact ⟨rfl, rfl, rfl⟩
  · dsimp only at h
    split at h
    · split at h <;> (cases h; exact ⟨rfl, rfl, rfl⟩)
    · cases h; exact ⟨rfl, rfl, rfl⟩

theorem decode_true_lt {it it' : InstructionIterator} (h : it.decode = (true, it')) :
    it.pc < it.code.length := by
  unfold decode at h
  split at h
  · cases h
  · omega

/-- Each `true` of `Next` leaves less to walk. -/
theorem remaining_next_lt {it it' : InstructionIterator} (h : it.next = (true, it')) :
    it'.remaining < it.remaining := by
  unfold next at h
  split at h
  · cases h
  rename_i hguard
  simp only [Bool.or_eq_true, decide_eq_true_eq, not_or] at hguard
  obtain ⟨hcode, hpc, hstarted⟩ := decode_frame h
  have hlt := decode_true_lt h
  unfold remaining
  rw [hcode, hpc, hstarted, advance_started, advance_code, advance_pc]
  rw [advance_code, advance_pc] at hlt
  cases hs : it.started
  · -- the first `Next` reads where the iterator stands
    simp only [hs, Bool.false_eq_true, if_false, if_true] at hlt ⊢
    omega
  · simp only [hs, if_true] at hlt ⊢
    omega

set_option linter.unusedVariables false in
/-- The loop `for it.Next() { … }`: the iterator after each `true`, and after
the `false` that ends the loop. -/
def drain (it : InstructionIterator) : List InstructionIterator × InstructionIterator :=
  match h : it.next with
  | (true, it') => ((it' :: it'.drain.1), it'.drain.2)
  | (false, it') => ([], it')
termination_by it.remaining
decreasing_by exact remaining_next_lt h

end InstructionIterator

/-- `Disassemble`, each instruction as its position, opcode and argument. -/
def disassemble (script : List UInt8) : Except String (List (ℕ × OpCode × Option (List UInt8))) :=
  let (steps, last) := (newInstructionIterator script).drain
  match last.error with
  | some err => .error err
  | none => .ok (steps.map fun it => (it.pc, it.op, it.arg))

/-! ### What one `Next` does at an instruction boundary -/

/-- `Next`'s end of a push's argument, `pc + 1 + (op - PUSH1 + 1)`, is the end
of the instruction. -/
theorem push_end {op : OpCode} (h : isPush op = true) :
    1 + (op.toNat - PUSH1.toNat + 1) = instrWidth op := by
  unfold instrWidth
  rw [if_pos h]
  unfold isPush PUSH1 PUSH32 at *
  simp only [Bool.and_eq_true, decide_eq_true_eq] at h
  rw [UInt8.toNat_sub_of_le _ _ h.1]
  omega

namespace InstructionIterator

/-- **`decode` inside the code**: a push cut off by the end of the code is an
error at `pc`; any other instruction is read with its argument. -/
theorem decode_of_some {it : InstructionIterator} {op : OpCode} (hop : it.code[it.pc]? = some op) :
    it.decode = if isPush op = true ∧ it.code.length < it.pc + instrWidth op then
      (false, { it with op, error := some ("incomplete push instruction at " ++ toString it.pc) })
    else (true, { it with op, arg := (if isPush op then
      some (it.code.extract (it.pc + 1) (it.pc + instrWidth op)) else none) }) := by
  obtain ⟨hlt, rfl⟩ := List.getElem?_eq_some_iff.mp hop
  unfold decode
  rw [dif_neg (by omega)]
  dsimp only
  by_cases hpush : isPush it.code[it.pc] = true
  · have hend := push_end hpush
    rw [if_pos hpush, if_pos hpush, show it.pc + 1 + (it.code[it.pc].toNat - PUSH1.toNat + 1) =
      it.pc + instrWidth it.code[it.pc] by omega]
    by_cases hcut : it.code.length < it.pc + instrWidth it.code[it.pc]
    · rw [if_pos (Or.inr hcut), if_pos ⟨hpush, hcut⟩]
    · rw [if_neg (by omega), if_neg (by tauto)]
  · rw [if_neg hpush, if_neg (by tauto), if_neg hpush]

end InstructionIterator

/-- The iterator after a `true` of `Next`: at a boundary decoding reaches, with
the opcode there, a complete instruction and its argument. -/
structure Stopped (code : List UInt8) (it : InstructionIterator) : Prop where
  code_eq : it.code = code
  error_eq : it.error = none
  started : it.started = true
  reaches : Reaches code it.pc
  op_eq : code[it.pc]? = some it.op
  complete : it.pc + instrWidth it.op ≤ code.length
  arg_eq : it.arg = if isPush it.op then some (code.extract (it.pc + 1) (it.pc + instrWidth it.op)) else none

/-- The next `Next` moves past the whole instruction. -/
theorem Stopped.advance_pc {code : List UInt8} {it : InstructionIterator} (hs : Stopped code it) :
    it.advance.pc = it.pc + instrWidth it.op := by
  rw [InstructionIterator.advance_pc, if_pos hs.started, hs.arg_eq]
  have hw := instrWidth_pos it.op
  by_cases hpush : isPush it.op = true
  · rw [if_pos hpush, Option.map_some, Option.getD_some, List.extract_eq_take_drop,
      List.length_take, List.length_drop]
    have := hs.complete
    omega
  · rw [if_neg hpush]
    unfold instrWidth
    rw [if_neg hpush]
    rfl

/-! ### The loop -/

namespace InstructionIterator

/-- The loop once `Next` has moved: `decode`, and after a `true` the loop
again. -/
def drainAt (it : InstructionIterator) : List InstructionIterator × InstructionIterator :=
  match it.decode with
  | (true, it') => (it' :: it'.drain.1, it'.drain.2)
  | (false, it') => ([], it')

/-- A `false` of `Next` ends the loop. -/
theorem drain_of_next_false {it it' : InstructionIterator} (h : it.next = (false, it')) :
    it.drain = ([], it') := by
  rw [drain]
  split
  · rename_i it'' h'
    rw [h] at h'
    cases h'
  · rename_i it'' h'
    rw [h] at h'
    cases h'
    rfl

/-- Inside the code and with no error, the loop is `advance` and then
`drainAt`. -/
theorem drain_eq_drainAt {it : InstructionIterator} (herr : it.error = none)
    (hlt : it.pc < it.code.length) : it.drain = it.advance.drainAt := by
  have hnext : it.next = it.advance.decode := by
    unfold next
    rw [if_neg (by simp [herr]; omega)]
  rw [drain, drainAt]
  split
  · rename_i it' h
    rw [hnext] at h
    rw [h]
  · rename_i it' h
    rw [hnext] at h
    rw [h]

end InstructionIterator

/-- What the loop makes of the code from the boundary `lo` on: its states stop
at reached boundaries, in increasing order, exactly at those from `lo` on
whose instruction is complete; it ends in an error exactly at a cut-off push,
and then `PC()` is that push. -/
structure Walks (code : List UInt8) (lo : ℕ) (r : List InstructionIterator × InstructionIterator) :
    Prop where
  stopped : ∀ it ∈ r.1, Stopped code it
  sorted : (r.1.map (·.pc)).Pairwise (· < ·)
  mem_iff : ∀ p, p ∈ r.1.map (·.pc) ↔ lo ≤ p ∧ p < code.length ∧ Reaches code p ∧ ¬ Truncated code p
  error_iff : r.2.error.isSome ↔ ∃ p, lo ≤ p ∧ Reaches code p ∧ Truncated code p
  error_pc : r.2.error.isSome → Reaches code r.2.pc ∧ Truncated code r.2.pc

namespace Walks

variable {code : List UInt8}

/-- Past the end of the code the loop stops without an error. -/
theorem of_end {lo : ℕ} {last : InstructionIterator} (hend : code.length ≤ lo)
    (herr : last.error = none) : Walks code lo ([], last) where
  stopped := by simp
  sorted := List.Pairwise.nil
  mem_iff p := by
    simp only [List.map_nil, List.not_mem_nil, false_iff]
    omega
  error_iff := by
    simp only [herr, Option.isSome_none, Bool.false_eq_true, false_iff, not_exists, not_and]
    intro p hp _ ht
    have := ht.lt
    omega
  error_pc := by simp [herr]

/-- At a cut-off push the loop stops with the error. -/
theorem of_truncated {q : ℕ} {last : InstructionIterator} (hq : Reaches code q)
    (ht : Truncated code q) (hpc : last.pc = q) (herr : last.error.isSome) :
    Walks code q ([], last) where
  stopped := by simp
  sorted := List.Pairwise.nil
  mem_iff p := by
    simp only [List.map_nil, List.not_mem_nil, false_iff, not_and, not_not]
    intro hqp hlt hp
    obtain ⟨op, hop, hpush, hcut⟩ := ht
    rcases hq.eq_or_next_le hop hp hqp with rfl | hle
    · exact ⟨op, hop, hpush, hcut⟩
    · omega
  error_iff := iff_of_true herr ⟨q, le_rfl, hq, ht⟩
  error_pc _ := hpc ▸ ⟨hq, ht⟩

/-- **Step lemma**: a complete instruction at `it.pc`, then the loop from the
next boundary. -/
theorem cons {it : InstructionIterator} {r : List InstructionIterator × InstructionIterator}
    (hs : Stopped code it) (hw : Walks code (it.pc + instrWidth it.op) r) :
    Walks code it.pc (it :: r.1, r.2) := by
  have hpos := instrWidth_pos it.op
  have hnt : ¬ Truncated code it.pc := by
    rw [truncated_iff hs.op_eq]
    have := hs.complete
    omega
  -- a reached position from `it.pc` on is `it.pc` or past its instruction
  have hsplit : ∀ p, it.pc ≤ p → Reaches code p → p = it.pc ∨ it.pc + instrWidth it.op ≤ p :=
    fun p hle hp => hs.reaches.eq_or_next_le hs.op_eq hp hle
  refine ⟨?_, ?_, ?_, ?_, hw.error_pc⟩
  · exact List.forall_mem_cons.mpr ⟨hs, hw.stopped⟩
  · rw [List.map_cons, List.pairwise_cons]
    refine ⟨fun p hp => ?_, hw.sorted⟩
    have := ((hw.mem_iff p).mp hp).1
    omega
  · intro p
    rw [List.map_cons, List.mem_cons, hw.mem_iff p]
    constructor
    · rintro (rfl | ⟨hle, hlt, hp, hnp⟩)
      · exact ⟨le_rfl, (List.getElem?_eq_some_iff.mp hs.op_eq).1, hs.reaches, hnt⟩
      · exact ⟨by omega, hlt, hp, hnp⟩
    · rintro ⟨hle, hlt, hp, hnp⟩
      rcases hsplit p hle hp with rfl | hnext
      · exact .inl rfl
      · exact .inr ⟨hnext, hlt, hp, hnp⟩
  · rw [hw.error_iff]
    constructor
    · rintro ⟨p, hle, hp, ht⟩
      exact ⟨p, by omega, hp, ht⟩
    · rintro ⟨p, hle, hp, ht⟩
      rcases hsplit p hle hp with rfl | hnext
      · exact absurd ht hnt
      · exact ⟨p, hnext, hp, ht⟩

end Walks

namespace InstructionIterator

/-- **Run lemma**: from a reached boundary, with no error so far, the loop
walks the code from that boundary on. -/
theorem drainAt_spec {code : List UInt8} {it : InstructionIterator} (hcode : it.code = code)
    (herr : it.error = none) (hstarted : it.started = true) (hq : Reaches code it.pc) :
    Walks code it.pc it.drainAt := by
  subst hcode
  by_cases hend : it.code.length ≤ it.pc
  · -- past the end: `decode` reports the end
    have hdec : it.decode = (false, it) := by
      unfold decode
      rw [dif_pos hend]
    rw [drainAt, hdec]
    exact Walks.of_end hend herr
  obtain ⟨op, hop⟩ : ∃ op, it.code[it.pc]? = some op := ⟨_, List.getElem?_eq_getElem (by omega)⟩
  have hdec := decode_of_some hop
  by_cases hcut : isPush op = true ∧ it.code.length < it.pc + instrWidth op
  · -- a cut-off push ends the loop with the error at `pc`
    rw [if_pos hcut] at hdec
    rw [drainAt, hdec]
    exact Walks.of_truncated hq ⟨op, hop, hcut⟩ rfl rfl
  -- a complete instruction: one state, then the loop from the next boundary
  rw [if_neg hcut] at hdec
  set it' : InstructionIterator := { it with op, arg := (if isPush op then
    some (it.code.extract (it.pc + 1) (it.pc + instrWidth op)) else none) } with hit'
  have hcomplete : it.pc + instrWidth op ≤ it.code.length := by
    by_cases hp : isPush op = true
    · have := (not_and.mp hcut) hp
      omega
    · have := instrWidth_pos op
      unfold instrWidth
      rw [if_neg hp]
      exact (List.getElem?_eq_some_iff.mp hop).1
  have hs : Stopped it.code it' := ⟨rfl, herr, hstarted, hq, hop, hcomplete, rfl⟩
  have hadv := hs.advance_pc
  have hnext : Reaches it.code it'.advance.pc := hadv ▸ hq.next_of_some hop
  have hw := drainAt_spec (advance_code it') (by rw [advance_error]; exact herr)
    (advance_started it') hnext
  rw [hadv] at hw
  rw [drainAt, hdec]
  dsimp only
  rw [drain_eq_drainAt hs.error_eq (List.getElem?_eq_some_iff.mp hop).1]
  exact Walks.cons hs hw
termination_by it.code.length - it.pc
decreasing_by
  have hpos := instrWidth_pos op
  rw [advance_code, hadv]
  simp only [hit']
  omega

/-- The loop from `NewInstructionIterator` walks the whole code. -/
theorem drain_newInstructionIterator (code : List UInt8) :
    Walks code 0 (newInstructionIterator code).drain := by
  rcases Nat.eq_zero_or_pos code.length with hnil | hpos
  · -- empty code: the first `Next` is already past the end
    have hnext : (newInstructionIterator code).next = (false, newInstructionIterator code) := by
      unfold next
      rw [if_pos (by simp [newInstructionIterator, hnil])]
    rw [drain_of_next_false hnext]
    exact Walks.of_end (by omega) rfl
  · rw [drain_eq_drainAt rfl hpos]
    have hstart : (newInstructionIterator code).advance.pc = 0 := rfl
    exact hstart ▸ drainAt_spec (advance_code _) (advance_error _) (advance_started _)
      (hstart ▸ Reaches.start)

end InstructionIterator

namespace Walks

variable {code : List UInt8} {lo : ℕ} {r : List InstructionIterator × InstructionIterator}

/-- A reached position is cut off exactly when the loop ends in an error there. -/
theorem truncated_iff_error (hw : Walks code lo r) {p : ℕ} (hp : Reaches code p) (hle : lo ≤ p) :
    Truncated code p ↔ r.2.error.isSome ∧ p = r.2.pc := by
  constructor
  · intro ht
    have herr := hw.error_iff.mpr ⟨p, hle, hp, ht⟩
    obtain ⟨hpc, htpc⟩ := hw.error_pc herr
    have h₁ := hpc.le_of_truncated htpc hp ht.lt
    have h₂ := hp.le_of_truncated ht hpc htpc.lt
    exact ⟨herr, by omega⟩
  · rintro ⟨herr, rfl⟩
    exact (hw.error_pc herr).2

end Walks

/-- **The disassembler's positions are the bitmap's code bytes.**  The
iterator stops, in order, at every code byte `codeBitmap` marks, with its
opcode and push argument, except a push cut off by the end: then it ends in an
error with `PC()` at that push. -/
theorem disassembly_boundaries (code : List UInt8) :
    ((newInstructionIterator code).drain.1.map (·.pc)).Pairwise (· < ·) ∧
    (∀ p, p ∈ (newInstructionIterator code).drain.1.map (·.pc) ↔
      p < code.length ∧ (codeBitmap code).codeSegment p = true ∧
        ¬ ((newInstructionIterator code).drain.2.error.isSome ∧
          p = (newInstructionIterator code).drain.2.pc)) ∧
    (∀ it ∈ (newInstructionIterator code).drain.1, code[it.pc]? = some it.op ∧
      it.arg = if isPush it.op then some (code.extract (it.pc + 1) (it.pc + instrWidth it.op)) else none) ∧
    ((newInstructionIterator code).drain.2.error.isSome ↔
      ∃ p < code.length, (codeBitmap code).codeSegment p = true ∧
      (∀ q < code.length, (codeBitmap code).codeSegment q = true → q ≤ p) ∧ Truncated code p) ∧
    ((newInstructionIterator code).drain.2.error.isSome →
      (newInstructionIterator code).drain.2.pc < code.length ∧
        (codeBitmap code).codeSegment (newInstructionIterator code).drain.2.pc = true ∧
        Truncated code (newInstructionIterator code).drain.2.pc) := by
  set r := (newInstructionIterator code).drain with hr
  have hw : Walks code 0 r := InstructionIterator.drain_newInstructionIterator code
  -- at an error, `PC()` is a reached cut-off push and the last instruction
  have hlast : r.2.error.isSome → r.2.pc < code.length ∧ Reaches code r.2.pc ∧
      Truncated code r.2.pc := fun herr =>
    ⟨(hw.error_pc herr).2.lt, hw.error_pc herr⟩
  refine ⟨hw.sorted, fun p => ?_, fun it hit => ?_, ⟨fun herr => ?_, ?_⟩, fun herr => ?_⟩
  · rw [hw.mem_iff p]
    constructor
    · rintro ⟨-, hlt, hp, hnt⟩
      exact ⟨hlt, (codeSegment_codeBitmap code hlt).mpr hp,
        fun h => hnt ((hw.truncated_iff_error hp (Nat.zero_le p)).mpr h)⟩
    · rintro ⟨hlt, hseg, hne⟩
      have hp := (codeSegment_codeBitmap code hlt).mp hseg
      exact ⟨Nat.zero_le p, hlt, hp, fun ht => hne ((hw.truncated_iff_error hp (Nat.zero_le p)).mp ht)⟩
  · exact ⟨(hw.stopped it hit).op_eq, (hw.stopped it hit).arg_eq⟩
  · obtain ⟨hlt, hpc, ht⟩ := hlast herr
    refine ⟨r.2.pc, hlt, (codeSegment_codeBitmap code hlt).mpr hpc, fun q hq hseg => ?_, ht⟩
    exact hpc.le_of_truncated ht ((codeSegment_codeBitmap code hq).mp hseg) hq
  · rintro ⟨p, hlt, hseg, -, ht⟩
    exact hw.error_iff.mpr ⟨p, Nat.zero_le p, (codeSegment_codeBitmap code hlt).mp hseg, ht⟩
  · obtain ⟨hlt, hpc, ht⟩ := hlast herr
    exact ⟨hlt, (codeSegment_codeBitmap code hlt).mpr hpc, ht⟩

/-- `PUSH2` followed by one byte: the bitmap marks position `0` as code, and
the iterator never stops there but ends with the error. -/
theorem cutoff_push_not_produced :
    let r := (newInstructionIterator [0x61, 0x01]).drain
    (codeBitmap [0x61, 0x01]).codeSegment 0 = true ∧ 0 ∉ r.1.map (·.pc) ∧ r.2.error.isSome := by
  intro r
  have hw : Walks [0x61, 0x01] 0 r := InstructionIterator.drain_newInstructionIterator _
  have ht : Truncated [0x61, 0x01] 0 := ⟨0x61, rfl, by decide, by decide⟩
  refine ⟨by decide, fun hmem => ((hw.mem_iff 0).mp hmem).2.2.2 ht, ?_⟩
  exact hw.error_iff.mpr ⟨0, le_rfl, Reaches.start, ht⟩

end RpcNetwork.Core.Asm
