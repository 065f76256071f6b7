import RpcNetwork.Tbft.Help.BitArrayOps

/-!
# The JSON codec of bit arrays (`help/bit_array.go`)

`MarshalJSON` writes a bit array as a JSON string of `x` (set) and `_`
(clear), or `null` for the nil array; `UnmarshalJSON` accepts `null` and any
text matching `\A"([_x]*)"\z`, and builds the array through
`NewBitArray(len(bits))`.

## Design notes

The JSON text is a list of characters, one per byte; every byte either codec
looks at is ASCII.  The regular expression is `findBits` and `matchBits`,
one character at a time, and `findBits_eq_some` says what it matches.
-/

namespace RpcNetwork.Tbft.Help

namespace BitArray

theorem matchBits_append {l : List Char} (hl : ∀ c ∈ l, c = '_' ∨ c = 'x') :
    matchBits (l ++ ['\x22']) = some l := by
  induction l with
  | nil => rfl
  | cons c l ih =>
      have ih := ih (fun c hc => hl c (List.mem_cons_of_mem _ hc))
      rcases hl c List.mem_cons_self with rfl | rfl
      · simp [matchBits, ih]
      · simp [matchBits, ih]

theorem matchBits_eq_some {cs l : List Char} (h : matchBits cs = some l) :
    cs = l ++ ['\x22'] ∧ ∀ c ∈ l, c = '_' ∨ c = 'x' := by
  fun_induction matchBits cs generalizing l with
  | case1 =>
      cases h
      simp
  | case2 cs ih =>
      obtain ⟨l', hl', rfl⟩ := Option.map_eq_some_iff.mp h
      obtain ⟨rfl, hall⟩ := ih hl'
      refine ⟨rfl, ?_⟩
      simpa using hall
  | case3 cs ih =>
      obtain ⟨l', hl', rfl⟩ := Option.map_eq_some_iff.mp h
      obtain ⟨rfl, hall⟩ := ih hl'
      refine ⟨rfl, ?_⟩
      simpa using hall
  | case4 => cases h

theorem findBits_eq_some {bz l : List Char} :
    findBits bz = some l ↔ bz = '\x22' :: (l ++ ['\x22']) ∧ ∀ c ∈ l, c = '_' ∨ c = 'x' := by
  constructor
  · intro h
    unfold findBits at h
    split at h
    · obtain ⟨rfl, hall⟩ := matchBits_eq_some h
      exact ⟨rfl, hall⟩
    · cases h
  · rintro ⟨rfl, hall⟩
    exact matchBits_append hall

/-- `null` is no quoted word. -/
theorem findBits_null : findBits "null".toList = none := by
  decide

/-- **Decoding a quoted word of `_` and `x`.**  A non-empty word decodes to a
well-formed array without stragglers, of its length, whose set bits are its
`x`s. -/
theorem unmarshalJSON_of_findBits {bz bits : List Char} (h : findBits bz = some bits) (hne : bits ≠ []) :
    ∃ b, unmarshalJSON bz = .ok (.ok b) ∧ WellFormed (some b) ∧ Clean (some b) ∧
      b.bits = bits.length ∧ ∀ i, getIndex (some b) i = decide (bits[i]? = some 'x') := by
  have hnull : bz ≠ "null".toList := by
    rintro rfl
    rw [findBits_null] at h
    cases h
  have hn : bits.length ≠ 0 := by simpa using hne
  -- the array `NewBitArray(numBits)` returns, before the loop
  have hnew : newBitArray bits.length = some ⟨bits.length, List.replicate ((bits.length + 63) / 64) 0⟩ := by
    simp [newBitArray, hn]
  obtain ⟨c, hfold, hbits, hwf, hbit⟩ :=
    foldl_bits List.nodup_range (fun bA2 i => if bits[i]? = some 'x' then setIndex bA2 i true else bA2)
      (fun k b => if bits[k]? = some 'x' then true else b) bits.length
      (fun c k hk hc hcn => by
        by_cases hx : bits[k]? = some 'x'
        · obtain ⟨c', h', hbits', hwf', hbit'⟩ :=
            setIndex_some hc (show k < c.bits by rw [hcn]; exact List.mem_range.mp hk) true
          refine ⟨c', by simp only [hx, if_true, h'], hbits', hwf', fun j => ?_⟩
          rw [hbit']
          simp [hx]
        · refine ⟨c, by simp only [hx, if_false], rfl, hc, fun j => ?_⟩
          by_cases hj : j = k
          · simp [hj, hx]
          · simp [hj])
      ⟨bits.length, List.replicate ((bits.length + 63) / 64) 0⟩ (by simp [WellFormed]) rfl
  refine ⟨c, ?_, hwf, fun i hi => ?_, hbits, fun i => ?_⟩
  · simp only [unmarshalJSON, if_neg hnull, h, hnew, hfold]
    rfl
  · rw [hbit, bit_replicate_zero, hbits] at *
    have : i ∉ List.range bits.length := by simpa using hi
    simp [this]
  · rw [getIndex_eq_bit, hbit, bit_replicate_zero, hbits]
    by_cases hi : i < bits.length
    · simp [hi]
    · simp [hi]

/-- **Encoding, then decoding** gives back the size and every bit, for the
nil array and for every array of at least one bit. -/
theorem unmarshalJSON_marshalJSON {b : Option BitArray} (hb : b = none ∨ 0 < size b) :
    ∃ b', unmarshalJSON (marshalJSON b) = .ok (.ok b') ∧ size (some b') = size b ∧
      ∀ i, getIndex (some b') i = getIndex b i := by
  rcases hb with rfl | hpos
  · exact ⟨⟨0, []⟩, by decide, rfl, fun i => by simp [getIndex]⟩
  · cases b with
    | none => simp [size] at hpos
    | some b =>
        -- the quoted word `MarshalJSON` writes
        obtain ⟨enc, henc⟩ : ∃ enc, enc = (List.range b.bits).map
            (fun i => if getIndex (some b) i then 'x' else '_') := ⟨_, rfl⟩
        have hall : ∀ c ∈ enc, c = '_' ∨ c = 'x' := by
          intro c hc
          obtain ⟨i, -, rfl⟩ := List.mem_map.mp (henc ▸ hc)
          split <;> simp
        have hfind : findBits (marshalJSON (some b)) = some enc :=
          findBits_eq_some.mpr ⟨by simp [marshalJSON, henc], hall⟩
        obtain ⟨b', hdec, -, -, hbits, hbit⟩ :=
          unmarshalJSON_of_findBits hfind (by simpa [henc, size] using hpos.ne')
        refine ⟨b', hdec, by simp [size, hbits, henc], fun i => ?_⟩
        rw [hbit, henc]
        by_cases hi : i < b.bits
        · by_cases hg : getIndex (some b) i <;> simp [hi, hg]
        · simp [hi, getIndex, Nat.le_of_not_lt hi]

/-- `null` decodes to an array of zero bits, which encodes to `""`; that text
matches the pattern with an empty group, and decoding it panics. -/
theorem unmarshalJSON_emptyWord_panics :
    unmarshalJSON "null".toList = .ok (.ok ⟨0, []⟩) ∧
      marshalJSON (some ⟨0, []⟩) = ['\x22', '\x22'] ∧ findBits ['\x22', '\x22'] = some [] ∧
      unmarshalJSON (marshalJSON (some ⟨0, []⟩)) = .error .nilDereference := by
  decide

/-- Text that is neither `null` nor a quoted word of `_` and `x` is rejected,
with an error that quotes it. -/
theorem unmarshalJSON_of_findBits_none {bz : List Char} (hnull : bz ≠ "null".toList)
    (h : findBits bz = none) : unmarshalJSON bz = .ok (.error (formatError ++ bz)) := by
  simp only [unmarshalJSON, if_neg hnull, h]
  rfl

/-- A decoded value other than `null`'s comes from a quoted non-empty word. -/
theorem findBits_of_unmarshalJSON {bz : List Char} {b : BitArray} (hnull : bz ≠ "null".toList)
    (h : unmarshalJSON bz = .ok (.ok b)) : ∃ bits, findBits bz = some bits ∧ bits ≠ [] := by
  cases hf : findBits bz with
  | none =>
      rw [unmarshalJSON_of_findBits_none hnull hf] at h
      cases h
  | some bits =>
      refine ⟨bits, rfl, ?_⟩
      rintro rfl
      -- `NewBitArray(0)` is nil, and the decoder panics
      simp only [unmarshalJSON, if_neg hnull, hf] at h
      cases h

/-- **Decoding, then encoding** gives back every accepted text but `null`. -/
theorem marshalJSON_unmarshalJSON {bz : List Char} {b : BitArray} (hnull : bz ≠ "null".toList)
    (h : unmarshalJSON bz = .ok (.ok b)) : marshalJSON (some b) = bz := by
  obtain ⟨bits, hf, hne⟩ := findBits_of_unmarshalJSON hnull h
  obtain ⟨b', hdec, -, -, hbits, hbit⟩ := unmarshalJSON_of_findBits hf hne
  obtain rfl : b' = b := by
    rw [hdec] at h
    cases h
    rfl
  obtain ⟨rfl, hall⟩ := findBits_eq_some.mp hf
  simp only [marshalJSON, List.cons_append, List.cons.injEq, true_and, List.append_cancel_right_eq]
  apply List.ext_getElem (by simp [hbits])
  intro i h₁ h₂
  rw [List.getElem_map, List.getElem_range, hbit, List.getElem?_eq_getElem h₂]
  rcases hall _ (List.getElem_mem h₂) with hc | hc <;> simp [hc]

/-- **What the decoder accepts**: `null`, and a non-empty word of `_` and `x`
between double quotes. -/
theorem unmarshalJSON_ok_iff (bz : List Char) :
    (∃ b, unmarshalJSON bz = .ok (.ok b)) ↔
      bz = "null".toList ∨
        ∃ bits, bits ≠ [] ∧ (∀ c ∈ bits, c = '_' ∨ c = 'x') ∧ bz = '\x22' :: (bits ++ ['\x22']) := by
  constructor
  · rintro ⟨b, h⟩
    by_cases hnull : bz = "null".toList
    · exact .inl hnull
    · obtain ⟨bits, hf, hne⟩ := findBits_of_unmarshalJSON hnull h
      obtain ⟨hbz, hall⟩ := findBits_eq_some.mp hf
      exact .inr ⟨bits, hne, hall, hbz⟩
  · rintro (rfl | ⟨bits, hne, hall, rfl⟩)
    · exact ⟨_, rfl⟩
    · obtain ⟨b, hdec, -⟩ := unmarshalJSON_of_findBits (findBits_eq_some.mpr ⟨rfl, hall⟩) hne
      exact ⟨b, hdec⟩

/-- Every decoded array is well formed and has no straggler bit. -/
theorem wellFormed_of_unmarshalJSON {bz : List Char} {b : BitArray}
    (h : unmarshalJSON bz = .ok (.ok b)) : WellFormed (some b) ∧ Clean (some b) := by
  by_cases hnull : bz = "null".toList
  · subst hnull
    cases h
    exact ⟨rfl, fun i _ => by simp [bit]⟩
  · obtain ⟨bits, hf, hne⟩ := findBits_of_unmarshalJSON hnull h
    obtain ⟨b', hdec, hwf, hclean, -⟩ := unmarshalJSON_of_findBits hf hne
    rw [hdec] at h
    cases h
    exact ⟨hwf, hclean⟩

end BitArray

end RpcNetwork.Tbft.Help
