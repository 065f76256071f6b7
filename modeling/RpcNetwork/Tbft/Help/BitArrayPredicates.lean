import RpcNetwork.Tbft.Help.BitArrayJson

/-!
# The predicates of bit arrays over every reachable array (`help/bit_array.go`)

`IsEmpty`, `IsFull` and `PickRandom` read whole words, while `GetIndex` reads
only the bits below `Size()`.  They agree exactly when the words they read
hold nothing past `Bits` that they do not mask.  This module says, for each
predicate, on which arrays that holds, and which operations build such
arrays.
-/

namespace RpcNetwork.Tbft.Help

namespace BitArray

/-! ### Whole-word tests -/

/-- The stored bit `64 * p + j` is bit `j` of word `p`. -/
theorem bit_mul_add (elems : List UInt64) (p : ℕ) {j : ℕ} (hj : j < 64) :
    bit elems (64 * p + j) = (elems.getD p 0).toBitVec.getLsbD j := by
  unfold bit
  rw [show (64 * p + j) / 64 = p by omega, show (64 * p + j) % 64 = j by omega]

/-- A statement about every bit of every word is one about every stored bit
below `64 * len(Elems)`. -/
theorem forall_mem_getLsbD_iff (l : List UInt64) (v : Bool) :
    (∀ e ∈ l, ∀ j < 64, e.toBitVec.getLsbD j = v) ↔ ∀ i < 64 * l.length, bit l i = v := by
  constructor
  · intro h i hi
    have hp : i / 64 < l.length := by omega
    unfold bit
    rw [List.getD_eq_getElem _ _ hp]
    exact h _ (List.getElem_mem hp) _ (Nat.mod_lt _ (by decide))
  · intro h e he j hj
    obtain ⟨p, hp, rfl⟩ := List.mem_iff_getElem.mp he
    have := h (64 * p + j) (by omega)
    rwa [bit_mul_add _ _ hj, List.getD_eq_getElem _ _ hp] at this

/-- **`IsEmpty`** tests every stored bit, stragglers included. -/
theorem isEmpty_some_iff (b : BitArray) : isEmpty (some b) = true ↔ ∀ i, bit b.elems i = false := by
  have hzero : (∀ e ∈ b.elems, e = 0) ↔ ∀ i < 64 * b.elems.length, bit b.elems i = false := by
    rw [← forall_mem_getLsbD_iff]
    exact forall₂_congr fun e _ => MachineWord.eq_zero_iff_getLsbD e
  have hany : isEmpty (some b) = true ↔ ∀ e ∈ b.elems, e = 0 := by
    simp only [isEmpty, Bool.not_eq_true', List.any_eq_false, decide_eq_true_eq, gt_iff_lt]
    exact forall₂_congr fun e _ => by rw [UInt64.lt_iff_toNat_lt, ← UInt64.toNat_inj]; simp
  rw [hany, hzero]
  constructor
  · intro h i
    by_cases hi : i < 64 * b.elems.length
    · exact h i hi
    · exact bit_of_length_le (by omega)
  · intro h i _
    exact h i

/-- **`IsEmpty` on an array without stragglers** holds exactly when no bit
below `Size()` is set. -/
theorem isEmpty_iff {b : Option BitArray} (h : Clean b) :
    isEmpty b = true ↔ ∀ i < size b, getIndex b i = false := by
  cases b with
  | none => simp [isEmpty, size]
  | some b =>
      rw [isEmpty_some_iff]
      constructor
      · intro hb i _
        rw [h.getIndex_eq, hb]
      · intro hb i
        by_cases hi : i < b.bits
        · rw [← h.getIndex_eq]
          exact hb i hi
        · exact h i (Nat.le_of_not_lt hi)

theorem bit_append_of_lt (l : List UInt64) (x : UInt64) {i : ℕ} (hi : i < 64 * l.length) :
    bit (l ++ [x]) i = bit l i := by
  unfold bit
  rw [List.getD_append _ _ _ _ (by omega)]

theorem bit_append_last (l : List UInt64) (x : UInt64) {j : ℕ} (hj : j < 64) :
    bit (l ++ [x]) (64 * l.length + j) = x.toBitVec.getLsbD j := by
  rw [bit_mul_add _ _ hj, List.getD_append_right _ _ _ _ (le_refl _)]
  simp

/-- **`IsFull`** on a well-formed array of at least one bit holds exactly when
every bit below `Size()` is set: its last word is tested below `Bits` only. -/
theorem isFull_some {b : BitArray} (hwf : WellFormed (some b)) (hpos : 0 < b.bits) :
    isFull (some b) = .ok (decide (∀ i < b.bits, getIndex (some b) i = true)) := by
  obtain ⟨bits, elems⟩ := b
  change 0 < bits at hpos
  simp only [WellFormed] at hwf
  -- the words before the last, and the last
  obtain ⟨l, x, rfl⟩ : ∃ l x, elems = l ++ [x] := by
    rcases List.eq_nil_or_concat' elems with h | h
    · simp only [h, List.length_nil] at hwf
      omega
    · exact h
  simp only [List.length_append, List.length_singleton] at hwf
  -- the last word holds the `k` bits from `64 * len(l)` up to `Bits`
  have hk : 64 * l.length + ((bits + 63) % 64 + 1) = bits := by omega
  have hwords : (l.any fun e => decide (~~~e ≠ 0)) = false ↔ ∀ i < 64 * l.length, bit l i = true := by
    rw [List.any_eq_false, ← forall_mem_getLsbD_iff]
    exact forall₂_congr fun e _ => by simp [MachineWord.not_eq_zero_iff_getLsbD]
  have hlast := MachineWord.succ_and_lowMask_eq_zero x (k := (bits + 63) % 64 + 1) (by omega) (by omega)
  have hsplit : (∀ i < bits, getIndex (some ⟨bits, l ++ [x]⟩) i = true) ↔
      (∀ i < 64 * l.length, bit l i = true) ∧ ∀ j < (bits + 63) % 64 + 1, x.toBitVec.getLsbD j = true := by
    simp only [getIndex_eq_bit]
    constructor
    · intro h
      refine ⟨fun i hi => ?_, fun j hj => ?_⟩
      · have := h i (by omega)
        simpa [show i < bits by omega, bit_append_of_lt _ _ hi] using this
      · have := h (64 * l.length + j) (by omega)
        simpa [show 64 * l.length + j < bits by omega, bit_append_last _ _ (show j < 64 by omega)] using this
    · rintro ⟨hl, hx⟩ i hi
      by_cases hil : i < 64 * l.length
      · simp [hi, bit_append_of_lt _ _ hil, hl i hil]
      · obtain ⟨j, rfl⟩ : ∃ j, i = 64 * l.length + j := ⟨i - 64 * l.length, by omega⟩
        simp [hi, bit_append_last _ _ (show j < 64 by omega), hx j (by omega)]
  simp only [isFull, List.append_ne_nil_of_right_ne_nil l (List.cons_ne_nil x []), dite_false,
    List.dropLast_concat, List.getLast_concat]
  by_cases hl : ∀ i < 64 * l.length, bit l i = true
  · rw [if_neg (by rw [Bool.not_eq_true]; exact hwords.mpr hl)]
    show Except.ok _ = Except.ok _
    congr 1
    exact decide_eq_decide.mpr (hlast.trans ⟨fun h => hsplit.mpr ⟨hl, h⟩, fun h => (hsplit.mp h).2⟩)
  · rw [if_pos (by rw [← Bool.not_eq_false]; exact fun h => hl (hwords.mp h))]
    show Except.ok _ = Except.ok _
    congr 1
    exact (decide_eq_false fun h => hl (hsplit.mp h).1).symm

/-- Counting `n` steps from any start round `n` visits every residue. -/
theorem mem_rotation {n s j : ℕ} (hj : j < n) : j ∈ (List.range n).map fun i => (i + s) % n := by
  have hn : 0 < n := by omega
  refine List.mem_map.mpr ⟨(j + (n - s % n)) % n, List.mem_range.mpr (Nat.mod_lt _ hn), ?_⟩
  have hs := Nat.mod_add_div s n
  have hr := Nat.mod_lt s hn
  rw [Nat.mod_add_mod, show j + (n - s % n) + s = j + n * (1 + s / n) by rw [Nat.mul_add]; omega,
    Nat.add_mul_mod_self_left, Nat.mod_eq_of_lt hj]

/-- **The bit scan** finds a set bit below `elemBits` if there is one, and
only a set bit. -/
theorem scanWord_spec (w : UInt64) {n : ℕ} (hn : n ≤ 64) (s : ℕ) :
    (∃ j, scanWord w n s = some j ∧ j < n ∧ w.toBitVec.getLsbD j = true) ∨
      (scanWord w n s = none ∧ ∀ j < n, w.toBitVec.getLsbD j = false) := by
  have hmask : ∀ j < n, (w &&& mask j > 0) = (w.toBitVec.getLsbD j = true) := fun j hj => by
    rw [mask, Nat.mod_eq_of_lt (by omega)]
    exact propext (MachineWord.and_mask_pos w j (by omega))
  cases h : scanWord w n s with
  | some j =>
      have hmem := List.mem_of_find?_eq_some h
      obtain ⟨i, hi, rfl⟩ := List.mem_map.mp hmem
      have hlt : (i + s) % n < n := Nat.mod_lt _ (by simp at hi; omega)
      refine .inl ⟨_, rfl, hlt, ?_⟩
      have := List.find?_some h
      rwa [decide_eq_true_iff, hmask _ hlt] at this
  | none =>
      refine .inr ⟨rfl, fun j hj => ?_⟩
      have := List.find?_eq_none.mp h j (mem_rotation hj)
      rw [decide_eq_true_iff, hmask _ hj] at this
      simpa using this

/-- **The element loop of `PickRandom`** on a well-formed array: it returns a
set bit below `Bits`, or `(0, false)` having seen that no word it visited has
one, and it never reaches `panic(0)`. -/
theorem pickLoop_spec {b : BitArray} (hwf : WellFormed (some b)) (r : ℕ → ℕ) (L : List ℕ)
    (hL : ∀ e ∈ L, e < b.elems.length) :
    (∃ i, pickLoop b r L = .ok (i, true) ∧ getIndex (some b) i = true) ∨
      (pickLoop b r L = .ok (0, false) ∧ ∀ i, i / 64 ∈ L → getIndex (some b) i = false) := by
  simp only [WellFormed] at hwf
  induction L with
  | nil => exact .inr ⟨rfl, fun i h => by cases h⟩
  | cons e L ih =>
      have he := hL e List.mem_cons_self
      have ih := ih fun e' h => hL e' (List.mem_cons_of_mem _ h)
      -- word `e` has no set bit below `Bits`: the loop goes on to the rest
      have hnext : (∀ i, i / 64 = e → getIndex (some b) i = false) →
          pickLoop b r (e :: L) = pickLoop b r L →
          (∃ i, pickLoop b r (e :: L) = .ok (i, true) ∧ getIndex (some b) i = true) ∨
            (pickLoop b r (e :: L) = .ok (0, false) ∧
              ∀ i, i / 64 ∈ e :: L → getIndex (some b) i = false) := by
        intro hword heq
        rw [heq]
        rcases ih with hsome | ⟨hnone, hall⟩
        · exact .inl hsome
        · refine .inr ⟨hnone, fun i hi => ?_⟩
          rcases List.mem_cons.mp hi with h | h
          · exact hword i h
          · exact hall i h
      by_cases hlast : e < b.elems.length - 1
      · by_cases hpos : b.elems.getD e 0 > 0
        · rcases scanWord_spec (b.elems.getD e 0) (le_refl 64) (r e) with ⟨j, hj, hj64, hbit⟩ | ⟨hj, hbits⟩
          · refine .inl ⟨64 * e + j, by simp only [pickLoop, if_pos hlast, if_pos hpos, hj]; rfl, ?_⟩
            rw [getIndex_eq_bit, bit_mul_add _ _ hj64, hbit]
            simp
            omega
          · -- a positive word has a set bit, so the scan cannot miss
            exfalso
            have : b.elems.getD e 0 = 0 := (MachineWord.eq_zero_iff_getLsbD _).mpr hbits
            rw [this] at hpos
            exact absurd hpos (by decide)
        · have hzero : b.elems.getD e 0 = 0 := by
            rw [gt_iff_lt, UInt64.lt_iff_toNat_lt, UInt64.toNat_zero, Nat.not_lt, Nat.le_zero] at hpos
            exact UInt64.toNat_inj.mp hpos
          refine hnext (fun i hi => ?_) (by simp only [pickLoop, if_pos hlast, if_neg hpos])
          have := bit_mul_add b.elems e (Nat.mod_lt i (show 0 < 64 by decide))
          rw [hzero, ← hi, Nat.div_add_mod] at this
          simp [getIndex_eq_bit, this]
      · -- the last word: only its bits below `Bits` are scanned
        have helem : 64 * e + (if b.bits % 64 = 0 then 64 else b.bits % 64) = b.bits := by
          split <;> omega
        have hn : (if b.bits % 64 = 0 then 64 else b.bits % 64) ≤ 64 := by
          split <;> omega
        rcases scanWord_spec (b.elems.getD e 0) hn (r e) with ⟨j, hj, hjn, hbit⟩ | ⟨hj, hbits⟩
        · refine .inl ⟨64 * e + j, by simp only [pickLoop, if_neg hlast, hj]; rfl, ?_⟩
          rw [getIndex_eq_bit, bit_mul_add _ _ (by omega), hbit]
          simp
          omega
        · refine hnext (fun i hi => ?_) (by simp only [pickLoop, if_neg hlast, hj])
          rw [getIndex_eq_bit]
          by_cases hib : i < b.bits
          · have := bit_mul_add b.elems e (Nat.mod_lt i (show 0 < 64 by decide))
            rw [hbits _ (by omega), ← hi, Nat.div_add_mod] at this
            simp [this]
          · simp [hib]

/-- **The spec of `PickRandom`**, for every outcome of its random draws: on a
well-formed array it returns `(i, true)` only for a set bit `i` below
`Size()`, and `ok = false` only when there is none. -/
theorem pickRandom_spec {b : Option BitArray} (hwf : WellFormed b) (s : ℕ) (r : ℕ → ℕ) :
    (∃ i, pickRandom b s r = .ok (i, true) ∧ i < size b ∧ getIndex b i = true) ∨
      (pickRandom b s r = .ok (0, false) ∧ ∀ i < size b, getIndex b i = false) := by
  cases b with
  | none => exact .inr ⟨rfl, fun i hi => by simp [size] at hi⟩
  | some b =>
      have hsize : ∀ i, getIndex (some b) i = true → i < size (some b) := fun i h => by
        rw [getIndex_eq_bit, Bool.and_eq_true, decide_eq_true_iff] at h
        exact h.1
      by_cases h0 : b.elems.length = 0
      · -- no word: no bit either
        have : b.bits = 0 := by simp only [WellFormed] at hwf; omega
        exact .inr ⟨by simp only [pickRandom, h0, if_true]; rfl, fun i hi => by simp [size, this] at hi⟩
      · have hL : ∀ e ∈ (List.range b.elems.length).map fun i => (i + s) % b.elems.length,
            e < b.elems.length := by
          intro e he
          obtain ⟨i, -, rfl⟩ := List.mem_map.mp he
          exact Nat.mod_lt _ (by omega)
        have hloop : pickRandom (some b) s r =
            pickLoop b r ((List.range b.elems.length).map fun i => (i + s) % b.elems.length) := by
          simp [pickRandom, h0]
        rw [hloop]
        rcases pickLoop_spec hwf r _ hL with ⟨i, hi, hget⟩ | ⟨hnone, hall⟩
        · exact .inl ⟨i, hi, hsize i hget, hget⟩
        · refine .inr ⟨hnone, fun i hi => hall i (mem_rotation ?_)⟩
          simp only [WellFormed] at hwf
          simp only [size] at hi
          omega

/-! ### Reachable arrays -/

/-- The arrays the package builds from `NewBitArray` and `UnmarshalJSON` by its
operations.  `Reachable false` leaves out `Not` and `Update`, the two that
write whole words without masking the last one. -/
inductive Reachable : Bool → Option BitArray → Prop
  | newBitArray (s : Bool) (n : ℕ) : Reachable s (BitArray.newBitArray n)
  | unmarshalJSON (s : Bool) {bz : List Char} {b : BitArray} :
      BitArray.unmarshalJSON bz = .ok (.ok b) → Reachable s (some b)
  | setIndex {s : Bool} {b : Option BitArray} (i : ℕ) (v : Bool) :
      Reachable s b → Reachable s (BitArray.setIndex b i v)
  | copy {s : Bool} {b : Option BitArray} : Reachable s b → Reachable s (BitArray.copy b)
  | or {s : Bool} {a o c : Option BitArray} :
      Reachable s a → Reachable s o → BitArray.or a o = .ok c → Reachable s c
  | and {s : Bool} {a o c : Option BitArray} :
      Reachable s a → Reachable s o → BitArray.and a o = .ok c → Reachable s c
  | sub {s : Bool} {a o c : Option BitArray} :
      Reachable s a → Reachable s o → BitArray.sub a o = .ok c → Reachable s c
  | not {b : Option BitArray} : Reachable true b → Reachable true (BitArray.not b)
  | update {a o : Option BitArray} :
      Reachable true a → Reachable true o → Reachable true (BitArray.update a o)

/-- What every reachable array keeps: one word per 64 bits, and no straggler
bit unless `Not` or `Update` may have run. -/
structure Inv (stragglers : Bool) (b : Option BitArray) : Prop where
  wellFormed : WellFormed b
  clean : stragglers = false → Clean b

section Inv

variable {s : Bool} {a o c : Option BitArray}

theorem inv_none : Inv s none := ⟨trivial, fun _ => trivial⟩

theorem inv_newBitArray (s : Bool) (n : ℕ) : Inv s (newBitArray n) :=
  ⟨wellFormed_newBitArray n, fun _ => clean_newBitArray n⟩

theorem inv_unmarshalJSON (s : Bool) {bz : List Char} {b : BitArray}
    (h : unmarshalJSON bz = .ok (.ok b)) : Inv s (some b) :=
  ⟨(wellFormed_of_unmarshalJSON h).1, fun _ => (wellFormed_of_unmarshalJSON h).2⟩

theorem Inv.setIndex (h : Inv s a) (i : ℕ) (v : Bool) : Inv s (BitArray.setIndex a i v) :=
  ⟨h.wellFormed.setIndex i v, fun hs => (h.clean hs).setIndex h.wellFormed i v⟩

theorem Inv.or (ha : Inv s a) (ho : Inv s o) (h : BitArray.or a o = .ok c) : Inv s c := by
  match a, o with
  | none, none => cases h; exact inv_none
  | none, some o => cases h; exact ho
  | some a, none => cases h; exact ha
  | some a, some o =>
      by_cases hlen : a.elems.length ≤ o.elems.length
      · obtain ⟨c', hor, hwf, hbits, hbit⟩ := or_some_of_le ha.wellFormed ho.wellFormed hlen
        rw [hor] at h
        cases h
        refine ⟨hwf, fun hs i hi => ?_⟩
        rw [hbit, ha.clean hs i (by omega), ho.clean hs i (by omega)]
        rfl
      · rw [or_some_of_lt ha.wellFormed (Nat.lt_of_not_le hlen)] at h
        cases h

theorem Inv.and (ha : Inv s a) (ho : Inv s o) (h : BitArray.and a o = .ok c) : Inv s c := by
  match a, o with
  | none, _ => cases h; exact inv_none
  | some a, none => cases h; exact inv_none
  | some a, some o =>
      obtain ⟨c', hand, hwf, -, hclean, -⟩ := getIndex_and a ho.wellFormed
      rw [hand] at h
      cases h
      exact ⟨hwf, fun hs => hclean (ha.clean hs) (ho.clean hs)⟩

theorem Inv.sub (ha : Inv s a) (ho : Inv s o) (h : BitArray.sub a o = .ok c) : Inv s c := by
  match a, o with
  | none, _ => cases h; exact inv_none
  | some a, none => cases h; exact inv_none
  | some a, some o =>
      obtain ⟨c', hsub, hwf, -⟩ := getIndex_sub ha.wellFormed ho.wellFormed
      rw [hsub] at h
      cases h
      refine ⟨hwf, fun hs => ?_⟩
      obtain ⟨c'', hsub', hclean⟩ := Clean.sub ha.wellFormed ho.wellFormed (ha.clean hs)
      rw [hsub] at hsub'
      cases hsub'
      exact hclean

theorem Inv.not (h : Inv true a) : Inv true (BitArray.not a) := by
  refine ⟨?_, fun hs => Bool.noConfusion hs⟩
  cases a with
  | none => trivial
  | some a => simpa [BitArray.not, WellFormed] using h.wellFormed

theorem Inv.update (ha : Inv true a) : Inv true (BitArray.update a o) := by
  refine ⟨?_, fun hs => Bool.noConfusion hs⟩
  match a, o with
  | none, _ => trivial
  | some a, none => exact ha.wellFormed
  | some a, some o =>
      simp only [BitArray.update, WellFormed, length_goCopy]
      exact ha.wellFormed

end Inv

/-- **Every reachable array is well formed**, and has no straggler bit if
neither `Not` nor `Update` built it. -/
theorem Reachable.inv {s : Bool} {b : Option BitArray} (h : Reachable s b) : Inv s b := by
  induction h with
  | newBitArray s n => exact inv_newBitArray s n
  | unmarshalJSON s hdec => exact inv_unmarshalJSON s hdec
  | setIndex i v _ ih => exact ih.setIndex i v
  | copy _ ih => exact ih
  | or _ _ hor iha iho => exact iha.or iho hor
  | and _ _ hand iha iho => exact iha.and iho hand
  | sub _ _ hsub iha iho => exact iha.sub iho hsub
  | not _ ih => exact ih.not
  | update _ _ iha _ => exact iha.update

/-- `IsEmpty` is right on every array built without `Not` and `Update`. -/
theorem Reachable.isEmpty_iff {b : Option BitArray} (h : Reachable false b) :
    isEmpty b = true ↔ ∀ i < size b, getIndex b i = false :=
  BitArray.isEmpty_iff (h.inv.clean rfl)

/-- `IsFull` is right on every reachable array with at least one bit, and on
the nil array. -/
theorem Reachable.isFull {s : Bool} {b : Option BitArray} (h : Reachable s b)
    (hb : b = none ∨ 0 < size b) :
    isFull b = .ok (decide (∀ i < size b, getIndex b i = true)) := by
  rcases hb with rfl | hpos
  · rfl
  · cases b with
    | none => simp [size] at hpos
    | some b => exact isFull_some h.inv.wellFormed hpos

/-- `PickRandom` is right on every reachable array, for every outcome of its
random draws. -/
theorem Reachable.pickRandom {s : Bool} {b : Option BitArray} (h : Reachable s b) (st : ℕ) (r : ℕ → ℕ) :
    (∃ i, BitArray.pickRandom b st r = .ok (i, true) ∧ i < size b ∧ getIndex b i = true) ∨
      (BitArray.pickRandom b st r = .ok (0, false) ∧ ∀ i < size b, getIndex b i = false) :=
  pickRandom_spec h.inv.wellFormed st r

/-- `Not()` of a 1-bit array sets the 63 straggler bits of its word; clearing
bit 0 leaves no bit set below `Size()`, yet `IsEmpty` is false.  And the
array `UnmarshalJSON("null")` builds has no word, so `IsFull` slices
`Elems[:-1]` and panics. -/
theorem isEmpty_readsStragglers :
    Reachable true (setIndex (not (newBitArray 1)) 0 false) ∧
      size (setIndex (not (newBitArray 1)) 0 false) = 1 ∧
      getIndex (setIndex (not (newBitArray 1)) 0 false) 0 = false ∧
      isEmpty (setIndex (not (newBitArray 1)) 0 false) = false ∧
      Reachable false (some ⟨0, []⟩) ∧ isFull (some ⟨0, []⟩) = .error .sliceOutOfRange :=
  ⟨.setIndex 0 false (.not (.newBitArray true 1)), by decide, by decide, by decide,
    @Reachable.unmarshalJSON false "null".toList _ (by decide), by decide⟩

end BitArray

end RpcNetwork.Tbft.Help
