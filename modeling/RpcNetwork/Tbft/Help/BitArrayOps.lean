import RpcNetwork.Tbft.Help.BitArray

/-!
# Word-wise operations on bit arrays (`help/bit_array.go`)

The methods of `help.BitArray` that work on whole words — `Or`, `And`, `Not`,
`Sub`, `Update`, the predicates `IsEmpty`, `IsFull` and `PickRandom`, and the
JSON codec — over the model of `RpcNetwork.Tbft.Help.BitArray`.

## Design notes

Each method returns the new value in place of Go's in-place mutation.  The
model computes with the stored words as Go does, straggler bits past `Bits`
included; `BitArrayPredicates` is about whether they stay clear.

`PickRandom` scans each word at most once, so its draws are a start word and
a function from word index to start bit.
-/

namespace RpcNetwork.Tbft.Help

namespace BitArray

/-- The run-time panics the package's methods can raise. -/
inductive Fault where
  /-- `o.Elems[i]` read past the end of `o.Elems`. -/
  | indexOutOfRange
  /-- `bA.Elems[:len(bA.Elems)-1]` on an array with no words. -/
  | sliceOutOfRange
  /-- a field read through the nil pointer `NewBitArray(0)` returns. -/
  | nilDereference
  /-- `PickRandom`'s `panic(0)`. -/
  | explicitPanic
  deriving DecidableEq, Repr

/-- Go's `copy(dst, src)`: the first `min(len(dst), len(src))` words of `dst`
are replaced by those of `src`. -/
def goCopy (dst src : List UInt64) : List UInt64 :=
  src.take dst.length ++ dst.drop src.length

/-- `bA.copyBits(bits)`: `(bits + 63) / 64` zero words with `bA`'s words copied in. -/
def copyBits (bA : BitArray) (bits : ℕ) : BitArray :=
  ⟨bits, goCopy (List.replicate ((bits + 63) / 64) 0) bA.elems⟩

/-- The loop `for i := 0; i < len(c.Elems); i++ { c.Elems[i] op= o.Elems[i] }`
of `Or` and `and`: it panics at the first `i` past the end of `o.Elems`. -/
def wordLoop (op : UInt64 → UInt64 → UInt64) : List UInt64 → List UInt64 → Except Fault (List UInt64)
  | [], _ => pure []
  | _ :: _, [] => throw .indexOutOfRange
  | c :: cs, o :: os => (op c o :: ·) <$> wordLoop op cs os

/-- `Or(o)`: sized by the larger operand, the other read word by word over the
result's length. -/
def or : Option BitArray → Option BitArray → Except Fault (Option BitArray)
  | none, none => pure none
  | none, some o => pure (copy (some o))
  | some bA, none => pure (copy (some bA))
  | some bA, some o => do
      let c := bA.copyBits (max bA.bits o.bits)
      let elems ← wordLoop (· ||| ·) c.elems o.elems
      pure (some { c with elems })

/-- `And(o)`, with the unexported `and` inlined: sized by the smaller operand. -/
def and : Option BitArray → Option BitArray → Except Fault (Option BitArray)
  | some bA, some o => do
      let c := bA.copyBits (min bA.bits o.bits)
      let elems ← wordLoop (· &&& ·) c.elems o.elems
      pure (some { c with elems })
  | _, _ => pure none

/-- `Not()`: every word flipped, the bits past `Bits` in the last word included. -/
def not : Option BitArray → Option BitArray
  | none => none
  | some bA => some { bA with elems := bA.elems.map (~~~·) }

/-- `Sub(o)`.  When `bA` is the longer, the words before `o`'s last are
and-ed with their own complement, and the bits of `o`'s last word are
cleared one by one where `o` has them; otherwise `bA.and(o.not())`. -/
def sub : Option BitArray → Option BitArray → Except Fault (Option BitArray)
  | some bA, some o =>
      if o.bits < bA.bits then
        let c : BitArray :=
          { bA with elems := bA.elems.mapIdx fun i w => if i + 1 < o.elems.length then w &&& ~~~w else w }
        -- `i := len(o.Elems) - 1; if i >= 0 { ... }`
        if o.elems.length = 0 then pure (some c)
        else
          let start := (o.elems.length - 1) * 64
          pure ((List.range' start (o.bits - start)).foldl
            (fun c idx => setIndex c idx (getIndex c idx && !getIndex (some o) idx)) (some c))
      else and (some bA) (not (some o))
  | _, _ => pure none

/-- `IsEmpty()`: no word is positive; true for the nil array. -/
def isEmpty : Option BitArray → Bool
  | none => true
  | some bA => !bA.elems.any (· > 0)

/-- `IsFull()`: every word but the last is all ones, and the last has its
`(Bits + 63) % 64 + 1` low bits set.  Slicing `Elems[:len(Elems)-1]` panics
when there is no word. -/
def isFull : Option BitArray → Except Fault Bool
  | none => pure true
  | some bA =>
      if h : bA.elems = [] then throw .sliceOutOfRange
      else if bA.elems.dropLast.any (fun elem => ~~~elem ≠ 0) then pure false
      else
        let lastElemBits := (bA.bits + 63) % 64 + 1
        pure (decide ((bA.elems.getLast h + 1) &&& (MachineWord.shl 1 lastElemBits - 1) = 0))

/-- The scan of `PickRandom` through the `elemBits` low bits of a word, from
`randBitStart` round: the first set bit it meets. -/
def scanWord (w : UInt64) (elemBits randBitStart : ℕ) : Option ℕ :=
  ((List.range elemBits).map fun j => (j + randBitStart) % elemBits).find? fun bitIdx => w &&& mask bitIdx > 0

/-- The element loop of `PickRandom` over the word indices still to visit.
A word before the last that is positive must yield a bit (else `panic(0)`);
the last word is scanned only below `Bits % 64`, so straggler bits are ignored. -/
def pickLoop (bA : BitArray) (randBitStart : ℕ → ℕ) : List ℕ → Except Fault (ℕ × Bool)
  | [] => pure (0, false)
  | elemIdx :: rest =>
      let w := bA.elems.getD elemIdx 0
      if elemIdx < bA.elems.length - 1 then
        if w > 0 then
          match scanWord w 64 (randBitStart elemIdx) with
          | some bitIdx => pure (64 * elemIdx + bitIdx, true)
          | none => throw .explicitPanic
        else pickLoop bA randBitStart rest
      else
        let elemBits := if bA.bits % 64 = 0 then 64 else bA.bits % 64
        match scanWord w elemBits (randBitStart elemIdx) with
        | some bitIdx => pure (64 * elemIdx + bitIdx, true)
        | none => pickLoop bA randBitStart rest

/-- `PickRandom()`, its random draws given: the first word visited is
`randElemStart % len(Elems)`, and the scan of word `e` starts at bit
`randBitStart e`.  Every draw `rand.Intn` can make is one of these. -/
def pickRandom (bA : Option BitArray) (randElemStart : ℕ) (randBitStart : ℕ → ℕ) :
    Except Fault (ℕ × Bool) :=
  match bA with
  | none => pure (0, false)
  | some bA =>
      let length := bA.elems.length
      if length = 0 then pure (0, false)
      else pickLoop bA randBitStart ((List.range length).map fun i => (i + randElemStart) % length)

/-- `Update(o)`: `o`'s words copied over the receiver's, its `Bits` kept. -/
def update : Option BitArray → Option BitArray → Option BitArray
  | some bA, some o => some { bA with elems := goCopy bA.elems o.elems }
  | bA, _ => bA

/-- `MarshalJSON()`: `null` for the nil array, else the bits as `x` and `_`
between double quotes. -/
def marshalJSON : Option BitArray → List Char
  | none => "null".toList
  | some bA =>
      '\x22' :: (List.range bA.bits).map (fun i => if getIndex (some bA) i then 'x' else '_') ++ ['\x22']

/-- The rest of a match of `bitArrayJSONRegexp`, `\A"([_x]*)"\z`, after the
opening quote: the group `[_x]*`, then the closing quote at the very end. -/
def matchBits : List Char → Option (List Char)
  | ['\x22'] => some []
  | '_' :: cs => ('_' :: ·) <$> matchBits cs
  | 'x' :: cs => ('x' :: ·) <$> matchBits cs
  | _ => none

/-- `bitArrayJSONRegexp.FindStringSubmatch(b)`: the captured group, if `b` matches. -/
def findBits : List Char → Option (List Char)
  | '\x22' :: rest => matchBits rest
  | _ => none

/-- The text of `UnmarshalJSON`'s error up to the rejected input, with
`%q` of the pattern filled in. -/
def formatError : List Char :=
  "BitArray in JSON should be a string of format \"\\\\A\\\"([_x]*)\\\"\\\\z\" but got ".toList

/-- `UnmarshalJSON(bz)`: the value written to the receiver, or the error
(the receiver then kept).  The bits go through `NewBitArray(numBits)`, whose
nil result for zero bits is then dereferenced. -/
def unmarshalJSON (bz : List Char) : Except Fault (Except (List Char) BitArray) :=
  if bz = "null".toList then pure (.ok ⟨0, []⟩)
  else
    match findBits bz with
    | none => pure (.error (formatError ++ bz))
    | some bits =>
        let bA2 := (List.range bits.length).foldl
          (fun bA2 i => if bits[i]? = some 'x' then setIndex bA2 i true else bA2)
          (newBitArray bits.length)
        match bA2 with
        | none => throw .nilDereference
        | some bA2 => pure (.ok ⟨bA2.bits, bA2.elems⟩)

/-! ### Stored bits of word lists -/

theorem bit_of_length_le {elems : List UInt64} {i : ℕ} (h : elems.length ≤ i / 64) :
    bit elems i = false := by
  unfold bit
  rw [List.getD_eq_default _ _ h]
  simp

theorem getD_goCopy (dst src : List UInt64) (k : ℕ) :
    (goCopy dst src).getD k 0 =
      if k < src.length ∧ k < dst.length then src.getD k 0 else dst.getD k 0 := by
  simp only [goCopy, List.getD_eq_getElem?_getD, List.getElem?_append, List.length_take,
    List.getElem?_take, List.getElem?_drop]
  by_cases hk : k < src.length ∧ k < dst.length
  · simp [hk]
  · rw [if_neg hk, if_neg (by omega)]
    by_cases hs : src.length ≤ dst.length
    · rw [show src.length + (k - min dst.length src.length) = k by omega]
    · rw [List.getElem?_eq_none (by omega), List.getElem?_eq_none (by omega)]

theorem getD_zipWith (f : UInt64 → UInt64 → UInt64) (l₁ l₂ : List UInt64) (k : ℕ) :
    (List.zipWith f l₁ l₂).getD k 0 =
      if k < l₁.length ∧ k < l₂.length then f (l₁.getD k 0) (l₂.getD k 0) else 0 := by
  simp only [List.getD_eq_getElem?_getD, List.getElem?_zipWith]
  by_cases hk : k < l₁.length ∧ k < l₂.length
  · simp [hk]
  · rw [if_neg hk]
    rcases Nat.lt_or_ge k l₁.length with h1 | h1
    · rw [List.getElem?_eq_none (show l₂.length ≤ k by omega)]
      cases l₁[k]? <;> rfl
    · rw [List.getElem?_eq_none h1]
      rfl

theorem bit_goCopy (dst src : List UInt64) (i : ℕ) :
    bit (goCopy dst src) i =
      if i / 64 < src.length ∧ i / 64 < dst.length then bit src i else bit dst i := by
  unfold bit
  rw [getD_goCopy]
  split <;> rfl

theorem bit_replicate_zero (n i : ℕ) : bit (List.replicate n 0) i = false := by
  simp [bit]

theorem bit_zipWith_or (l₁ l₂ : List UInt64) (i : ℕ) :
    bit (List.zipWith (· ||| ·) l₁ l₂) i =
      (decide (i / 64 < l₁.length ∧ i / 64 < l₂.length) && (bit l₁ i || bit l₂ i)) := by
  unfold bit
  rw [getD_zipWith]
  split <;> simp_all

theorem bit_zipWith_and (l₁ l₂ : List UInt64) (i : ℕ) :
    bit (List.zipWith (· &&& ·) l₁ l₂) i = (bit l₁ i && bit l₂ i) := by
  unfold bit
  rw [getD_zipWith]
  split
  · simp
  · rename_i h
    rcases not_and_or.mp h with h | h
    · rw [List.getD_eq_default l₁ 0 (Nat.le_of_not_lt h)]
      simp
    · rw [List.getD_eq_default l₂ 0 (Nat.le_of_not_lt h)]
      simp

theorem bit_map_not (l : List UInt64) (i : ℕ) :
    bit (l.map (~~~·)) i = (decide (i / 64 < l.length) && !bit l i) := by
  unfold bit
  by_cases h : i / 64 < l.length
  · simp [List.getD_eq_getElem?_getD, h, Nat.mod_lt]
  · simp [h]

theorem bit_mapIdx_clear (l : List UInt64) (m i : ℕ) :
    bit (l.mapIdx fun k w => if k + 1 < m then w &&& ~~~w else w) i =
      (decide ¬(i / 64 + 1 < m) && bit l i) := by
  unfold bit
  simp only [List.getD_eq_getElem?_getD, List.getElem?_mapIdx]
  cases l[i / 64]? with
  | none => simp
  | some w =>
      by_cases h : i / 64 + 1 < m
      · simp [h]
      · simp [h]

/-! ### The operations on stored bits -/

theorem length_goCopy (dst src : List UInt64) : (goCopy dst src).length = dst.length := by
  simp only [goCopy, List.length_append, List.length_take, List.length_drop]
  omega

/-- The word loop succeeds when `o` has a word for each word of `c`. -/
theorem wordLoop_of_le (op : UInt64 → UInt64 → UInt64) {cs os : List UInt64}
    (h : cs.length ≤ os.length) : wordLoop op cs os = .ok (List.zipWith op cs os) := by
  induction cs generalizing os with
  | nil => rfl
  | cons c cs ih =>
      cases os with
      | nil => simp at h
      | cons o os =>
          rw [wordLoop, ih (by simpa using h)]
          rfl

/-- The word loop panics when `o` runs out of words first. -/
theorem wordLoop_of_lt (op : UInt64 → UInt64 → UInt64) {cs os : List UInt64}
    (h : os.length < cs.length) : wordLoop op cs os = .error .indexOutOfRange := by
  induction cs generalizing os with
  | nil => simp at h
  | cons c cs ih =>
      cases os with
      | nil => rfl
      | cons o os =>
          rw [wordLoop, ih (by simpa using h)]
          rfl

theorem length_copyBits (bA : BitArray) (bits : ℕ) :
    (bA.copyBits bits).elems.length = (bits + 63) / 64 := by
  simp [copyBits, length_goCopy]

/-- `copyBits` keeps the stored bits of the words it has room for. -/
theorem bit_copyBits (bA : BitArray) (bits i : ℕ) :
    bit (bA.copyBits bits).elems i = (decide (i / 64 < (bits + 63) / 64) && bit bA.elems i) := by
  rw [copyBits, bit_goCopy, bit_replicate_zero, List.length_replicate]
  by_cases hi : i / 64 < (bits + 63) / 64
  · by_cases ha : i / 64 < bA.elems.length
    · simp [hi, ha]
    · simp [ha, bit_of_length_le (Nat.le_of_not_lt ha)]
  · simp [hi]

/-- **`Or` when `o` has as many words as the result.**  It succeeds with
`max` bits, each stored bit the or of the two operands'. -/
theorem or_some_of_le {a o : BitArray} (ha : WellFormed (some a)) (ho : WellFormed (some o))
    (hlen : a.elems.length ≤ o.elems.length) :
    ∃ c, or (some a) (some o) = .ok (some c) ∧ WellFormed (some c) ∧ c.bits = max a.bits o.bits ∧
      ∀ i, bit c.elems i = (bit a.elems i || bit o.elems i) := by
  simp only [WellFormed] at ha ho
  have hc : (a.copyBits (max a.bits o.bits)).elems.length = o.elems.length := by
    rw [length_copyBits, ho]
    omega
  refine ⟨⟨max a.bits o.bits, List.zipWith (· ||| ·) (a.copyBits (max a.bits o.bits)).elems o.elems⟩,
    ?_, ?_, rfl, fun i => ?_⟩
  · simp only [or, wordLoop_of_le _ hc.le]
    rfl
  · simp [WellFormed, hc, ho]
    omega
  · rw [bit_zipWith_or, bit_copyBits, hc]
    by_cases hi : i / 64 < o.elems.length
    · have : i / 64 < (max a.bits o.bits + 63) / 64 := by omega
      simp [hi, this]
    · have ha' : a.elems.length ≤ i / 64 := by omega
      simp [hi, bit_of_length_le ha', bit_of_length_le (Nat.le_of_not_lt hi)]

/-- **`Or` panics** when `a` has more words than `o`: the loop reads
`o.Elems[i]` up to the result's length. -/
theorem or_some_of_lt {a o : BitArray} (ha : WellFormed (some a)) (hlen : o.elems.length < a.elems.length) :
    or (some a) (some o) = .error .indexOutOfRange := by
  simp only [WellFormed] at ha
  have hc : o.elems.length < (a.copyBits (max a.bits o.bits)).elems.length := by
    rw [length_copyBits]
    omega
  simp only [or, wordLoop_of_lt _ hc]
  rfl

/-- Setting bit `k` below `Bits` of a well-formed array keeps its shape and
changes the stored bit `k` only. -/
theorem setIndex_some {c : BitArray} (hc : WellFormed (some c)) {k : ℕ} (hk : k < c.bits) (v : Bool) :
    ∃ c', setIndex (some c) k v = some c' ∧ c'.bits = c.bits ∧ WellFormed (some c') ∧
      ∀ j, bit c'.elems j = if j = k then v else bit c.elems j := by
  simp only [WellFormed] at hc
  have hlen : k / 64 < c.elems.length := by omega
  refine ⟨⟨c.bits, c.elems.set (k / 64) (if v then c.elems.getD (k / 64) 0 ||| mask k
    else c.elems.getD (k / 64) 0 &&& ~~~mask k)⟩, ?_, rfl, ?_, bit_set_word hlen v⟩
  · simp only [setIndex, Nat.not_le.mpr hk, if_false]
  · simp [WellFormed, hc]

/-- **A loop of single-bit updates.**  Each step rewrites the bit at its index
from that bit alone; over indices without repeats, each bit of `L` is
rewritten once from its value before the loop. -/
theorem foldl_bits {L : List ℕ} (hL : L.Nodup) (step : Option BitArray → ℕ → Option BitArray)
    (f : ℕ → Bool → Bool) (n : ℕ)
    (hstep : ∀ (c : BitArray) k, k ∈ L → WellFormed (some c) → c.bits = n →
      ∃ c', step (some c) k = some c' ∧ c'.bits = c.bits ∧ WellFormed (some c') ∧
        ∀ j, bit c'.elems j = if j = k then f k (bit c.elems k) else bit c.elems j)
    (c : BitArray) (hc : WellFormed (some c)) (hn : c.bits = n) :
    ∃ c', L.foldl step (some c) = some c' ∧ c'.bits = c.bits ∧ WellFormed (some c') ∧
      ∀ j, bit c'.elems j = if j ∈ L then f j (bit c.elems j) else bit c.elems j := by
  induction L generalizing c with
  | nil => exact ⟨c, rfl, rfl, hc, fun j => by simp⟩
  | cons k L ih =>
      obtain ⟨hkL, hL⟩ := List.nodup_cons.mp hL
      obtain ⟨c₁, h₁, hbits₁, hwf₁, hbit₁⟩ := hstep c k List.mem_cons_self hc hn
      obtain ⟨c', h', hbits', hwf', hbit'⟩ :=
        ih hL (fun c k hk => hstep c k (List.mem_cons_of_mem _ hk)) c₁ hwf₁ (hbits₁.trans hn)
      refine ⟨c', by rw [List.foldl_cons, h₁, h'], hbits'.trans hbits₁, hwf', fun j => ?_⟩
      -- the later steps never come back to `k`, so they see the bit the first step wrote
      rw [hbit', hbit₁]
      by_cases hj : j = k
      · subst hj
        simp [hkL]
      · simp [hj]

/-- **`And`** of two well-formed arrays succeeds, with `min` bits; a stored
bit of the result is set where both operands' are, within its words. -/
theorem and_some (a : BitArray) {o : BitArray} (ho : WellFormed (some o)) :
    ∃ c, and (some a) (some o) = .ok (some c) ∧ WellFormed (some c) ∧ c.bits = min a.bits o.bits ∧
      ∀ i, bit c.elems i =
        (decide (i / 64 < (min a.bits o.bits + 63) / 64) && bit a.elems i && bit o.elems i) := by
  simp only [WellFormed] at ho
  have hc : (a.copyBits (min a.bits o.bits)).elems.length ≤ o.elems.length := by
    rw [length_copyBits, ho]
    omega
  refine ⟨⟨min a.bits o.bits, List.zipWith (· &&& ·) (a.copyBits (min a.bits o.bits)).elems o.elems⟩,
    ?_, ?_, rfl, fun i => ?_⟩
  · simp only [and, wordLoop_of_le _ hc]
    rfl
  · simp only [WellFormed, List.length_zipWith, length_copyBits, ho]
    omega
  · rw [bit_zipWith_and, bit_copyBits]

/-- **`Not`** flips each bit below `Size()`. -/
theorem getIndex_not {a : Option BitArray} (h : WellFormed a) (i : ℕ) :
    getIndex (not a) i = (decide (i < size a) && !getIndex a i) := by
  cases a with
  | none => simp [not, size]
  | some a =>
      simp only [WellFormed] at h
      rw [not, getIndex_eq_bit, getIndex_eq_bit, bit_map_not]
      by_cases hi : i < a.bits
      · have : i / 64 < a.elems.length := by omega
        simp [hi, this, size]
      · simp [hi, size]

/-- `Sub` when `a` is the longer: the words before `o`'s last are cleared
whole, and the bits of `o`'s last word are cleared where `o` has them. -/
theorem sub_some_of_lt {a o : BitArray} (ha : WellFormed (some a)) (ho : WellFormed (some o))
    (hlt : o.bits < a.bits) :
    ∃ c, sub (some a) (some o) = .ok (some c) ∧ WellFormed (some c) ∧ c.bits = a.bits ∧
      ∀ i, bit c.elems i = if i / 64 + 1 < o.elems.length then false
        else if i < o.bits then bit a.elems i && !bit o.elems i else bit a.elems i := by
  simp only [WellFormed] at ha ho
  have hbit₀ := bit_mapIdx_clear a.elems o.elems.length
  simp only [sub, if_pos hlt]
  split
  · -- `o` has no word: it is the empty array, and nothing is cleared
    rename_i hm0
    have ho0 : o.bits = 0 := by omega
    refine ⟨_, rfl, by simpa [WellFormed] using ha, rfl, fun i => ?_⟩
    rw [hbit₀]
    simp [hm0, ho0]
  · rename_i hm0
    have hL : ∀ k ∈ List.range' ((o.elems.length - 1) * 64) (o.bits - (o.elems.length - 1) * 64),
        (o.elems.length - 1) * 64 ≤ k ∧ k < o.bits := by
      intro k hk
      obtain ⟨j, hj, rfl⟩ := List.mem_range'.mp hk
      omega
    obtain ⟨c, hfold, hbits, hwf, hbit⟩ :=
      foldl_bits List.nodup_range' (fun c idx => setIndex c idx (getIndex c idx && !getIndex (some o) idx))
        (fun k b => b && !bit o.elems k) a.bits
        (fun c k hk hc hcn => by
          have hko := (hL k hk).2
          obtain ⟨c', h', hbits', hwf', hbit'⟩ := setIndex_some hc (show k < c.bits by omega)
            (getIndex (some c) k && !getIndex (some o) k)
          refine ⟨c', h', hbits', hwf', fun j => ?_⟩
          rw [hbit', getIndex_eq_bit, getIndex_eq_bit]
          simp [show k < c.bits by omega, hko])
        { a with elems := a.elems.mapIdx fun i w => if i + 1 < o.elems.length then w &&& ~~~w else w }
        (by simpa [WellFormed] using ha) rfl
    refine ⟨c, by rw [hfold]; rfl, hwf, hbits, fun i => ?_⟩
    rw [hbit, hbit₀]
    have hmem : i ∈ List.range' ((o.elems.length - 1) * 64) (o.bits - (o.elems.length - 1) * 64) ↔
        (o.elems.length - 1) * 64 ≤ i ∧ i < o.bits := by
      rw [List.mem_range']
      constructor
      · rintro ⟨j, hj, rfl⟩
        omega
      · rintro ⟨h1, h2⟩
        exact ⟨i - (o.elems.length - 1) * 64, by omega, by omega⟩
    have hstart : (o.elems.length - 1) * 64 ≤ i ↔ ¬(i / 64 + 1 < o.elems.length) := by omega
    simp only [hmem, hstart]
    by_cases hw : i / 64 + 1 < o.elems.length <;> by_cases hio : i < o.bits <;> simp [hw, hio]

/-- `Sub` when `a` is not the longer: `a.and(o.not())`. -/
theorem sub_some_of_le {a o : BitArray} (ho : WellFormed (some o)) (hle : a.bits ≤ o.bits) :
    ∃ c, sub (some a) (some o) = .ok (some c) ∧ WellFormed (some c) ∧ c.bits = a.bits ∧
      ∀ i, bit c.elems i =
        (decide (i / 64 < (a.bits + 63) / 64) && bit a.elems i && (decide (i / 64 < o.elems.length) && !bit o.elems i)) := by
  have hno : WellFormed (not (some o)) := by simpa [not, WellFormed] using ho
  obtain ⟨c, hand, hwf, hbits, hbit⟩ := and_some a hno
  refine ⟨c, ?_, hwf, by rw [hbits, Nat.min_eq_left hle], fun i => ?_⟩
  · simp only [sub, if_neg (Nat.not_lt.mpr hle)]
    exact hand
  · rw [hbit, Nat.min_eq_left hle, bit_map_not]

/-- **The spec of `Sub`.**  On well-formed arrays, bit `i` of `a.Sub(o)` is
`a[i] && !o[i]`, except that when `a` is the longer every bit in a word
before `o`'s last word is clear: that branch and-s those words with their
own complement, not with `o`'s. -/
theorem getIndex_sub {a o : BitArray} (ha : WellFormed (some a)) (ho : WellFormed (some o)) :
    ∃ c, sub (some a) (some o) = .ok (some c) ∧ WellFormed (some c) ∧ c.bits = a.bits ∧
      ∀ i, getIndex (some c) i =
        if o.bits < a.bits ∧ i / 64 + 1 < o.elems.length then false
        else getIndex (some a) i && !getIndex (some o) i := by
  by_cases hlt : o.bits < a.bits
  · obtain ⟨c, hsub, hwf, hbits, hbit⟩ := sub_some_of_lt ha ho hlt
    refine ⟨c, hsub, hwf, hbits, fun i => ?_⟩
    rw [getIndex_eq_bit, getIndex_eq_bit, getIndex_eq_bit, hbit, hbits]
    by_cases hw : i / 64 + 1 < o.elems.length
    · simp [hlt, hw]
    · by_cases hio : i < o.bits
      · by_cases hia : i < a.bits <;> simp [hlt, hw, hio, hia]
      · simp [hlt, hw, hio]
  · have hle := Nat.le_of_not_lt hlt
    obtain ⟨c, hsub, hwf, hbits, hbit⟩ := sub_some_of_le ho hle
    refine ⟨c, hsub, hwf, hbits, fun i => ?_⟩
    simp only [WellFormed] at ho
    rw [getIndex_eq_bit, getIndex_eq_bit, getIndex_eq_bit, hbit, hbits]
    by_cases hia : i < a.bits
    · have h1 : i / 64 < (a.bits + 63) / 64 := by omega
      have h2 : i / 64 < o.elems.length := by omega
      simp [hlt, hia, h1, h2, show i < o.bits by omega]
    · simp [hlt, hia]

/-- At `a` of 66 bits with bit 0 set and an empty `o` of 65 bits, bit 0 of
`a.Sub(o)` is clear: word 0 comes before `o`'s last word. -/
theorem subLongerOperand_clearsBits :
    getIndex (setIndex (newBitArray 66) 0 true) 0 = true ∧ getIndex (newBitArray 65) 0 = false ∧
      (sub (setIndex (newBitArray 66) 0 true) (newBitArray 65)).map (fun c => (size c, getIndex c 0)) =
        .ok (66, false) := by
  decide

/-- **`Update`** copies `o`'s words over the receiver's and keeps its `Bits`:
below `Size()` a bit comes from `o`'s words where both arrays have that word. -/
theorem getIndex_update (a o : BitArray) (i : ℕ) :
    getIndex (update (some a) (some o)) i =
      (decide (i < a.bits) &&
        if i / 64 < o.elems.length ∧ i / 64 < a.elems.length then bit o.elems i else bit a.elems i) := by
  rw [update, getIndex_eq_bit, bit_goCopy]

/-! ### Straggler bits -/

/-- No straggler bit: every stored bit at or past `Bits` is clear. -/
def Clean : Option BitArray → Prop
  | none => True
  | some bA => ∀ i, bA.bits ≤ i → bit bA.elems i = false

/-- On an array without stragglers, `GetIndex` reads every stored bit. -/
theorem Clean.getIndex_eq {bA : BitArray} (h : Clean (some bA)) (i : ℕ) :
    getIndex (some bA) i = bit bA.elems i := by
  rw [getIndex_eq_bit]
  by_cases hi : i < bA.bits
  · simp [hi]
  · simp [hi, h i (Nat.le_of_not_lt hi)]

theorem clean_newBitArray (n : ℕ) : Clean (newBitArray n) := by
  unfold newBitArray
  split
  · trivial
  · intro i _
    exact bit_replicate_zero _ i

theorem Clean.setIndex {bA : Option BitArray} (hwf : WellFormed bA) (h : Clean bA) (i : ℕ) (v : Bool) :
    Clean (BitArray.setIndex bA i v) := by
  cases bA with
  | none => trivial
  | some b =>
      by_cases hi : i < b.bits
      · obtain ⟨c, hc, hbits, -, hbit⟩ := setIndex_some hwf hi v
        rw [hc]
        intro j hj
        rw [hbit, if_neg (by omega)]
        exact h j (hbits ▸ hj)
      · simpa [BitArray.setIndex, Nat.le_of_not_lt hi] using h

/-- **`Or` of two arrays without stragglers** is index-wise, when it does not
panic. -/
theorem getIndex_or {a o : BitArray} (ha : WellFormed (some a)) (ho : WellFormed (some o))
    (hca : Clean (some a)) (hco : Clean (some o)) (hlen : a.elems.length ≤ o.elems.length) :
    ∃ c, or (some a) (some o) = .ok (some c) ∧ WellFormed (some c) ∧ Clean (some c) ∧
      c.bits = max a.bits o.bits ∧ ∀ i, getIndex (some c) i = (getIndex (some a) i || getIndex (some o) i) := by
  obtain ⟨c, hor, hwf, hbits, hbit⟩ := or_some_of_le ha ho hlen
  have hclean : Clean (some c) := by
    intro i hi
    rw [hbit, hca i (by omega), hco i (by omega)]
    rfl
  refine ⟨c, hor, hwf, hclean, hbits, fun i => ?_⟩
  rw [hclean.getIndex_eq, hca.getIndex_eq, hco.getIndex_eq, hbit]

/-- `Or` panics on `a` of 65 bits (two words) and `o` of 1 bit (one word);
and on one word each, `Not()` of a 1-bit array or-ed with an empty 2-bit
array sets bit 1, which neither operand has: the straggler of the first
operand's word is read as a bit. -/
theorem orShorterOperand_panics :
    or (newBitArray 65) (newBitArray 1) = .error .indexOutOfRange ∧
      getIndex (not (newBitArray 1)) 1 = false ∧ getIndex (newBitArray 2) 1 = false ∧
      (or (not (newBitArray 1)) (newBitArray 2)).map (fun c => (size c, getIndex c 1)) = .ok (2, true) := by
  decide

/-- **`And`** is index-wise on every pair of well-formed arrays, and leaves no
straggler where neither operand has one. -/
theorem getIndex_and (a : BitArray) {o : BitArray} (ho : WellFormed (some o)) :
    ∃ c, and (some a) (some o) = .ok (some c) ∧ WellFormed (some c) ∧ c.bits = min a.bits o.bits ∧
      (Clean (some a) → Clean (some o) → Clean (some c)) ∧
      ∀ i, getIndex (some c) i = (getIndex (some a) i && getIndex (some o) i) := by
  obtain ⟨c, hand, hwf, hbits, hbit⟩ := and_some a ho
  refine ⟨c, hand, hwf, hbits, fun hca hco i hi => ?_, fun i => ?_⟩
  · rw [hbit]
    rcases Nat.le_total a.bits o.bits with hle | hle
    · simp [hca i (by omega)]
    · simp [hco i (by omega)]
  · rw [getIndex_eq_bit, getIndex_eq_bit, getIndex_eq_bit, hbit, hbits]
    by_cases hi : i < min a.bits o.bits
    · have : i / 64 < (min a.bits o.bits + 63) / 64 := by omega
      simp [hi, this, show i < a.bits by omega, show i < o.bits by omega]
    · rcases Nat.le_total a.bits o.bits with hle | hle
      · simp [hi, show ¬ i < a.bits by omega]
      · simp [hi, show ¬ i < o.bits by omega]

/-- `Sub` leaves no straggler where `a` has none. -/
theorem Clean.sub {a o : BitArray} (ha : WellFormed (some a)) (ho : WellFormed (some o))
    (hca : Clean (some a)) :
    ∃ c, BitArray.sub (some a) (some o) = .ok (some c) ∧ Clean (some c) := by
  by_cases hlt : o.bits < a.bits
  · obtain ⟨c, hsub, -, hbits, hbit⟩ := sub_some_of_lt ha ho hlt
    refine ⟨c, hsub, fun i hi => ?_⟩
    rw [hbit, if_neg (show ¬ i < o.bits by omega), hca i (by omega)]
    split <;> rfl
  · obtain ⟨c, hsub, -, hbits, hbit⟩ := sub_some_of_le ho (Nat.le_of_not_lt hlt)
    refine ⟨c, hsub, fun i hi => ?_⟩
    rw [hbit, hca i (by omega)]
    simp

end BitArray

end RpcNetwork.Tbft.Help
