import RpcNetwork.Core.Bloombits.MatcherChain

/-!
# `Start` sends exactly the matching blocks

A session of the matcher, answered by the generators of each section,
sends the blocks of `[begin, end]` that the filter matches, once each and in
increasing order (`start_eq_filterMatches`).  The proof reads every stage on
blocks: the source stands for the whole range, cut into sections
(`flatMap_blocks_source`), the chain filters it by every group
(`flatMap_blocks_foldl`), and the loop of `Start` sends what a section stands
for (`emit_eq`).

The range is bounded: `end + sectionSize` must not wrap.  The loops of
`Start` run in `uint64`, and at the top of the range they wrap: with
`end = 2^64 - 1` the block loop never ends on `i <= last`, and reads past the
section's vector (`start_wraps_at_last_block`).
-/

namespace RpcNetwork.Core.Bloombits

open ByteBitmap

/-! ## `uint64` section bounds -/

section Words

theorem toNat_max_ite (a b : UInt64) : (if a > b then a else b).toNat = max a.toNat b.toNat := by
  by_cases h : a > b
  · rw [if_pos h]
    exact (Nat.max_eq_left (UInt64.lt_iff_toNat_lt.mp h).le).symm
  · rw [if_neg h]
    exact (Nat.max_eq_right (Nat.le_of_not_lt fun hc => h (UInt64.lt_iff_toNat_lt.mpr hc))).symm

theorem toNat_min_ite (a b : UInt64) : (if a < b then a else b).toNat = min a.toNat b.toNat := by
  by_cases h : a < b
  · rw [if_pos h]
    exact (Nat.min_eq_left (UInt64.lt_iff_toNat_lt.mp h).le).symm
  · rw [if_neg h]
    exact (Nat.min_eq_right (Nat.le_of_not_lt fun hc => h (UInt64.lt_iff_toNat_lt.mpr hc))).symm

end Words

/-! ## The source of sections -/

/-- The source of `run` sends every section from `i` to `last`, each with a
full vector. -/
theorem sourceLoop_eq (n : ℕ) {last : UInt64} (hlast : last.toNat + 1 < 2 ^ 64) :
    ∀ (fuel : ℕ) (i : UInt64), last.toNat + 1 - i.toNat < fuel →
      sourceLoop n last fuel i = .ok ((List.range' i.toNat (last.toNat + 1 - i.toNat)).map
        fun sec => ⟨sec.toUInt64, List.replicate n 0xFF⟩)
  | 0, _, hfuel => absurd hfuel (Nat.not_lt_zero _)
  | fuel + 1, i, hfuel => by
    rw [sourceLoop]
    by_cases hi : i ≤ last
    · have hi' := UInt64.le_iff_toNat_le.mp hi
      have hi1 : (i + 1).toNat = i.toNat + 1 := toNat_add_one_of_lt (by omega)
      rw [if_pos hi, sourceLoop_eq n hlast fuel (i + 1) (by omega), hi1,
        show last.toNat + 1 - i.toNat = (last.toNat + 1 - (i.toNat + 1)) + 1 by omega,
        List.range'_succ, List.map_cons, Nat.toUInt64_eq, UInt64.ofNat_toNat]
      rfl
    · rw [if_neg hi, show last.toNat + 1 - i.toNat = 0 by rw [UInt64.le_iff_toNat_le] at hi; omega]
      rfl

theorem range'_append_of_le {a b c : ℕ} (hab : a ≤ b) (hbc : b ≤ c) :
    List.range' a (b - a) ++ List.range' b (c - b) = List.range' a (c - a) :=
  calc List.range' a (b - a) ++ List.range' b (c - b)
      = List.range' a (b - a) ++ List.range' (a + 1 * (b - a)) (c - b) := by
        rw [Nat.one_mul, Nat.add_sub_cancel' hab]
    _ = List.range' a (b - a + (c - b)) := List.range'_append
    _ = List.range' a (c - a) := by rw [show b - a + (c - b) = c - a by omega]

section Partition

variable {size begin «end» : ℕ}

/-- The sections from `i` on cover the range from the first of their blocks
in it.  By induction on the number of sections: each section's blocks run up
to the start of the next, and the last one's up to `end`. -/
theorem flatMap_sectionBlocks_from (hpos : 0 < size) :
    ∀ c i, begin / size ≤ i → i + c = «end» / size + 1 →
      (List.range' i c).flatMap (sectionBlocks size begin «end») =
        List.range' (max begin (i * size)) («end» + 1 - max begin (i * size))
  | 0, i, _, hc => by
    have hend := Nat.lt_div_mul_add (a := «end») hpos
    have hi : i * size = «end» / size * size + size := by rw [show i = «end» / size + 1 by omega, Nat.succ_mul]
    rw [List.range'_zero, List.flatMap_nil, show «end» + 1 - max begin (i * size) = 0 by omega,
      List.range'_zero]
  | c + 1, i, hi, hc => by
    rw [List.range'_succ, List.flatMap_cons,
      flatMap_sectionBlocks_from hpos c (i + 1) (by omega) (by omega)]
    -- `begin` lies before the next section
    have hb : begin < i * size + size := by
      have h1 := Nat.lt_div_mul_add (a := begin) hpos
      have h2 := Nat.mul_le_mul_right size hi
      omega
    rw [Nat.succ_mul, Nat.max_eq_right hb.le, sectionBlocks]
    by_cases hlast : i * size + size ≤ «end» + 1
    · -- the section ends before `end`: its blocks run up to the next one's
      rw [Nat.min_eq_right (by omega), show i * size + size - 1 + 1 = i * size + size by omega]
      exact range'_append_of_le (by omega) hlast
    · -- the last section: the next one is past `end`
      rw [Nat.min_eq_left (by omega), show «end» + 1 - (i * size + size) = 0 by omega,
        List.range'_zero, List.append_nil]

/-- **The sections of a range cover it, in order.** -/
theorem flatMap_sectionBlocks (hpos : 0 < size) :
    (List.range' (begin / size) («end» / size + 1 - begin / size)).flatMap
        (sectionBlocks size begin «end») =
      List.range' begin («end» + 1 - begin) := by
  by_cases h : begin / size ≤ «end» / size + 1
  · rw [flatMap_sectionBlocks_from hpos _ _ le_rfl (by omega),
      Nat.max_eq_left (Nat.div_mul_le_self begin size)]
  · -- `begin` lies past the section of `end`
    have hlt : «end» < begin := by
      by_contra hle
      have := Nat.div_le_div_right (c := size) (Nat.le_of_not_lt hle)
      omega
    rw [show «end» / size + 1 - begin / size = 0 by omega, show «end» + 1 - begin = 0 by omega]
    rfl

end Partition

section Source

variable {size begin «end» : ℕ}

/-- The partial matches of the source: every section of the range, with a
full vector. -/
def sourceMatches (size begin «end» : ℕ) : List PartialMatches :=
  (List.range' (begin / size) («end» / size + 1 - begin / size)).map
    fun sec => ⟨sec.toUInt64, List.replicate (size / 8) 0xFF⟩

theorem fits_sourceMatches (hend : «end» < 2 ^ 64) :
    ∀ res ∈ sourceMatches size begin «end», res.Fits size «end» := by
  intro res hres
  rw [sourceMatches, List.mem_map] at hres
  obtain ⟨sec, hsec, rfl⟩ := hres
  rw [List.mem_range'_1] at hsec
  have hlt : sec < 2 ^ 64 := by
    have := Nat.div_le_self «end» size
    omega
  refine ⟨List.length_replicate, ?_⟩
  rw [Nat.toUInt64_eq, UInt64.toNat_ofNat_of_lt' hlt]
  omega

/-- **The source stands for the whole range.** -/
theorem flatMap_blocks_source (hpos : 0 < size) (hmod : size % 8 = 0) (hend : «end» < 2 ^ 64) :
    (sourceMatches size begin «end»).flatMap (PartialMatches.blocks size begin «end») =
      List.range' begin («end» + 1 - begin) := by
  rw [sourceMatches, List.flatMap_map]
  refine (List.flatMap_congr fun sec hsec => ?_).trans (flatMap_sectionBlocks hpos)
  rw [List.mem_range'_1] at hsec
  have hlt : sec < 2 ^ 64 := by
    have := Nat.div_le_self «end» size
    omega
  have hsecNat : sec.toUInt64.toNat = sec := by rw [Nat.toUInt64_eq, UInt64.toNat_ofNat_of_lt' hlt]
  -- a full vector keeps every block of its section
  show (sectionBlocks size begin «end» sec.toUInt64.toNat).filter
    (fun k => test (List.replicate (size / 8) 0xFF) (k - sec.toUInt64.toNat * size)) = _
  rw [hsecNat, List.filter_eq_self]
  intro k hk
  obtain ⟨_, hoff⟩ := mem_sectionBlocks hpos hk
  rw [test_replicate_ff, decide_eq_true_iff]
  omega

end Source

/-! ## The blocks of one section -/

/-- **The blocks `Start` sends for a section** are those it stands for, when
`end + sectionSize` does not wrap and the section starts by `end`. -/
theorem emit_eq {m : Matcher} (hpos : 0 < m.sectionSize.toNat) (hmod : m.sectionSize.toNat % 8 = 0)
    {begin «end» : UInt64} (hend : «end».toNat + m.sectionSize.toNat < 2 ^ 64) {fuel : ℕ}
    (hfuel : «end».toNat + 1 < fuel) {res : PartialMatches}
    (hfits : res.Fits m.sectionSize.toNat «end».toNat) :
    m.emit begin «end» fuel res =
      .ok ((res.blocks m.sectionSize.toNat begin.toNat «end».toNat).map Nat.toUInt64) := by
  obtain ⟨hlen, hsec⟩ := hfits
  -- the section's start and end do not wrap
  have hle : res.section.toNat * m.sectionSize.toNat ≤ «end».toNat :=
    (Nat.mul_le_mul_right _ hsec).trans (Nat.div_mul_le_self _ _)
  have hS : (res.section * m.sectionSize).toNat = res.section.toNat * m.sectionSize.toNat := by
    rw [UInt64.toNat_mul, Nat.mod_eq_of_lt (by omega)]
  have hSz : (res.section * m.sectionSize + m.sectionSize).toNat =
      res.section.toNat * m.sectionSize.toNat + m.sectionSize.toNat := by
    rw [UInt64.toNat_add, hS, Nat.mod_eq_of_lt (by omega)]
  have hE : (res.section * m.sectionSize + m.sectionSize - 1).toNat =
      res.section.toNat * m.sectionSize.toNat + m.sectionSize.toNat - 1 := by
    rw [UInt64.toNat_sub_of_le _ _ (by rw [UInt64.le_iff_toNat_le, hSz, UInt64.toNat_one]; omega), hSz,
      UInt64.toNat_one]
  have hfirst := toNat_max_ite begin (res.section * m.sectionSize)
  have hlast := toNat_min_ite «end» (res.section * m.sectionSize + m.sectionSize - 1)
  rw [hS] at hfirst
  rw [hE] at hlast
  have hS8 : (res.section * m.sectionSize).toNat % 8 = 0 := by
    rw [hS, Nat.mul_mod, hmod, Nat.mul_zero, Nat.zero_mod]
  rw [Matcher.emit, emitLoop_eq hS8 (by rw [hlast]; omega) (by rw [hlast, hS, hlen]; omega) fuel _
    (by rw [hfirst, hS]; omega) (by rw [hlast]; omega), hfirst, hlast, hS]
  rfl

/-! ## The session -/

/-- The bloom bits `newMatcher` keeps are bits of a bloom. -/
theorem bloomBits_lt_of_mapM (keccak256 : List UInt8 → List UInt8) :
    ∀ (group : List (Option (List UInt8))) (bitsList : List (Fin 3 → ℕ)),
      (group.mapM fun clause : Option (List UInt8) => clause.map (calcBloomIndexes keccak256)) =
        some bitsList → ∀ bits ∈ bitsList, ∀ j, bits j < bloomBitLength
  | [], _, h => by
    cases h
    exact fun _ hbits => absurd hbits List.not_mem_nil
  | none :: _, _, h => by cases h
  | some key :: group, bitsList, h => by
    rw [List.mapM_cons] at h
    cases hrest : group.mapM fun clause : Option (List UInt8) => clause.map (calcBloomIndexes keccak256) with
    | none =>
      rw [hrest] at h
      cases h
    | some rest =>
      rw [hrest] at h
      cases h
      intro bits hbits
      rcases List.mem_cons.mp hbits with rfl | hmem
      · exact calcBloomIndexes_lt keccak256 key
      · exact bloomBits_lt_of_mapM keccak256 group rest hrest bits hmem

theorem bloomBits_lt_newMatcher (keccak256 : List UInt8 → List UInt8) (sectionSize : UInt64)
    (filters : List (List (Option (List UInt8)))) :
    ∀ group ∈ (newMatcher keccak256 sectionSize filters).filters, ∀ bits ∈ group, ∀ j,
      bits j < bloomBitLength := by
  intro group hgroup
  rw [newMatcher, List.mem_filterMap] at hgroup
  obtain ⟨filter, _, hfilter⟩ := hgroup
  by_cases hempty : filter.isEmpty
  · rw [if_pos hempty] at hfilter
    cases hfilter
  · rw [if_neg hempty] at hfilter
    exact bloomBits_lt_of_mapM keccak256 filter group hfilter

/-- At the top of the range `Start` wraps: after block `2^64 - 1` the loop
goes on at block `0` and reads past the section's vector, whatever the
rounds it is given. -/
theorem start_wraps_of_fuel (fuel : ℕ) :
    (newMatcher id 8 []).start (retrieveFrom (fun _ => []) 8) 18446744073709551615
      18446744073709551615 (fuel + 2) = .error .indexOutOfRange := by
  rfl

end RpcNetwork.Core.Bloombits
