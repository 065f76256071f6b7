import RpcNetwork.Core.Bloombits.MatcherEmit
import RpcNetwork.Lib.ExceptRun

/-!
# The chain of sub-matchers, read block by block

Each link of the chain ands a section's vector with the matches of one group,
and drops the sections left empty.  Read on blocks, a link is a filter: the
blocks a section stands for after the link are those it stood for before that
the group matches (`flatMap_blocks_subMatch`), and the whole chain filters by
every group at once (`flatMap_blocks_foldl`).  Underneath, the vectors the
retrievals answer are bitmaps of bloom bits (`represents_retrieveFrom`), so a
clause's vector is the bitmap of its three bits and a group's the bitmap of
its clauses (`represents_groupVector`).
-/

namespace RpcNetwork.Core.Bloombits

open ByteBitmap

/-! ## The filter on one block -/

/-- A group of clauses, as `newMatcher` keeps it, matches block `k` when one
clause has its three bits set in the block's bloom. -/
def groupMatch (blooms : ℕ → List UInt8) (group : List (Fin 3 → ℕ)) (k : ℕ) : Bool :=
  group.any fun bits => (List.finRange 3).all fun j => bloomBit (blooms k) (bits j)

/-- Every index `calcBloomIndexes` gives is a bit of a bloom: the high byte
keeps three bits, above the eight of the low byte. -/
theorem calcBloomIndexes_lt (keccak256 : List UInt8 → List UInt8) (b : List UInt8) (j : Fin 3) :
    calcBloomIndexes keccak256 b j < bloomBitLength := by
  have hlow := ((keccak256 b).getD (2 * j + 1) 0).toNat_lt
  dsimp only [calcBloomIndexes]
  rw [Nat.shiftLeft_eq, show (2047 : ℕ) = 2 ^ 11 - 1 from rfl, Nat.and_two_pow_sub_one_eq_mod]
  show _ < 8 * 256
  omega

section Groups

variable (keccak256 : List UInt8 → List UInt8) (blooms : ℕ → List UInt8) (k : ℕ)

/-- A group with a `nil` clause matches every block; any other matches as
the bloom bits of its keys do. -/
theorem groupMatch_mapM (clauseMatch : Option (List UInt8) → Bool) (hnone : clauseMatch none = false)
    (hsome : ∀ key, clauseMatch (some key) =
      (List.finRange 3).all fun j => bloomBit (blooms k) (calcBloomIndexes keccak256 key j)) :
    ∀ group : List (Option (List UInt8)),
      (group.any Option.isNone || group.any clauseMatch) =
        (group.mapM fun clause : Option (List UInt8) => clause.map (calcBloomIndexes keccak256)).elim
          true fun group => groupMatch blooms group k
  | [] => rfl
  | none :: _ => rfl
  | some key :: group => by
    have ih := groupMatch_mapM clauseMatch hnone hsome group
    rw [List.mapM_cons]
    cases hmap : group.mapM fun clause : Option (List UInt8) => clause.map (calcBloomIndexes keccak256) with
    | none =>
      -- a `nil` clause further on
      rw [hmap] at ih
      change _ = true
      rw [List.any_cons, List.any_cons, Option.isNone_some, Bool.false_or, Bool.or_left_comm]
      exact Bool.or_eq_true_iff.mpr (Or.inr ih)
    | some bits =>
      replace ih : (group.any Option.isNone || group.any clauseMatch) = groupMatch blooms bits k := by
        rw [ih, hmap]
        rfl
      change _ = (((List.finRange 3).all fun j => bloomBit (blooms k) (calcBloomIndexes keccak256 key j)) ||
        groupMatch blooms bits k)
      rw [← hsome, ← ih, List.any_cons, List.any_cons, Option.isNone_some, Bool.false_or,
        Bool.or_left_comm]

/-- **The filter on blocks is the conjunction of the matcher's groups**: the
empty groups and the groups with a `nil` clause that `newMatcher` leaves out
are those that match every block. -/
theorem filterMatches_eq_all (sectionSize : UInt64) (filters : List (List (Option (List UInt8)))) :
    filterMatches keccak256 filters blooms k =
      (newMatcher keccak256 sectionSize filters).filters.all fun group => groupMatch blooms group k := by
  rw [newMatcher, List.all_filterMap, filterMatches]
  refine congrArg (filters.all ·) (funext fun group => ?_)
  cases group with
  | nil => rfl
  | cons clause clauses =>
    rw [Bool.or_assoc, groupMatch_mapM keccak256 blooms k _ ?_ ?_]
    · cases (clause :: clauses).mapM fun clause : Option (List UInt8) =>
        clause.map (calcBloomIndexes keccak256) <;> rfl
    · rfl
    · exact fun _ => rfl

end Groups

/-! ## The vectors of a section -/

section Vectors

variable (blooms : ℕ → List UInt8) {size : ℕ} (sec : UInt64)

/-- A retrieval answers the bitmap of one bloom bit over the section's
blocks. -/
theorem represents_retrieveFrom (hmod : size % 8 = 0) {bit : ℕ} (hbit : bit < bloomBitLength) :
    Represents (size / 8) (fun s => bloomBit (blooms (sec.toNat * size + s)) bit)
      (retrieveFrom blooms size sec bit) := by
  obtain ⟨v, hv, hlen, htest⟩ := bitset_sectionGenerator blooms hmod sec.toNat hbit
  have hret : retrieveFrom blooms size sec bit = v := by
    rw [retrieveFrom, hv]
  rw [hret]
  exact ⟨hlen, fun s hs => htest s (by omega)⟩

theorem all_finRange_three (f : Fin 3 → Bool) : (List.finRange 3).all f = (f 0 && f 1 && f 2) := by
  simp [List.finRange_succ, Bool.and_assoc]

/-- A clause's vector is the bitmap of its three bits all set. -/
theorem represents_clauseVector (hmod : size % 8 = 0) {bits : Fin 3 → ℕ}
    (hbits : ∀ j, bits j < bloomBitLength) :
    Represents (size / 8)
      (fun s => (List.finRange 3).all fun j => bloomBit (blooms (sec.toNat * size + s)) (bits j))
      (clauseVector (retrieveFrom blooms size) (size / 8) sec bits) := by
  have hvec := (((represents_retrieveFrom blooms sec hmod (hbits 0)).copyBytes).andBytes
    (represents_retrieveFrom blooms sec hmod (hbits 1))).andBytes
      (represents_retrieveFrom blooms sec hmod (hbits 2))
  refine hvec.congr fun s _ => ?_
  rw [all_finRange_three]

theorem represents_foldl_orBytes (hmod : size % 8 = 0) (rest : List (Fin 3 → ℕ))
    (hrest : ∀ bits ∈ rest, ∀ j, bits j < bloomBitLength) {p : ℕ → Bool} {v : List UInt8}
    (hv : Represents (size / 8) p v) :
    Represents (size / 8) (fun s => p s || groupMatch blooms rest (sec.toNat * size + s))
      (rest.foldl (fun v bits => orBytes v (clauseVector (retrieveFrom blooms size) (size / 8) sec bits))
        v) := by
  induction rest generalizing p v with
  | nil => exact hv.congr fun s _ => (Bool.or_false _).symm
  | cons bits rest ih =>
    rw [List.foldl_cons]
    have hclause := represents_clauseVector blooms sec hmod (hrest bits List.mem_cons_self)
    refine (ih (fun b hb => hrest b (List.mem_cons_of_mem _ hb)) (hv.orBytes hclause)).congr
      fun s _ => ?_
    rw [Bool.or_assoc]
    rfl

/-- **A group's vector is the bitmap of the group**; a group with no clause
matches nothing, and the link ands with zeros. -/
theorem represents_groupVector (hmod : size % 8 = 0) (group : List (Fin 3 → ℕ))
    (hgroup : ∀ bits ∈ group, ∀ j, bits j < bloomBitLength) :
    Represents (size / 8) (fun s => groupMatch blooms group (sec.toNat * size + s))
      ((groupVector (retrieveFrom blooms size) (size / 8) sec group).getD
        (List.replicate (size / 8) 0)) := by
  cases group with
  | nil => exact represents_replicate_zero _
  | cons bits rest =>
    have hclause := represents_clauseVector blooms sec hmod (hgroup bits List.mem_cons_self)
    refine (represents_foldl_orBytes blooms sec hmod rest
      (fun b hb => hgroup b (List.mem_cons_of_mem _ hb)) hclause).congr fun _ _ => rfl

end Vectors

/-! ## The blocks a partial match stands for -/

/-- The blocks of section `sec` that lie in `[begin, end]`. -/
def sectionBlocks (size begin «end» sec : ℕ) : List ℕ :=
  List.range' (max begin (sec * size)) (min «end» (sec * size + size - 1) + 1 - max begin (sec * size))

theorem mem_sectionBlocks {size begin «end» sec k : ℕ} (hpos : 0 < size)
    (hk : k ∈ sectionBlocks size begin «end» sec) : sec * size ≤ k ∧ k - sec * size < size := by
  rw [sectionBlocks, List.mem_range'_1] at hk
  omega

/-- The blocks a partial match stands for: those of its section in
`[begin, end]` whose bit is set. -/
def PartialMatches.blocks (size begin «end» : ℕ) (res : PartialMatches) : List ℕ :=
  (sectionBlocks size begin «end» res.section.toNat).filter
    fun k => test res.bitset (k - res.section.toNat * size)

/-- What every partial match of the chain satisfies: a vector of the
section's bytes, for a section that starts by `end`. -/
structure PartialMatches.Fits (size «end» : ℕ) (res : PartialMatches) : Prop where
  length_eq : res.bitset.length = size / 8
  section_le : res.section.toNat ≤ «end» / size

/-! ## The links of the chain -/

/-- One section through a link: it passes on when its anded vector has a bit
left. -/
theorem subMatch_cons (retrieve : UInt64 → ℕ → List UInt8) (n : ℕ) (group : List (Fin 3 → ℕ))
    (res : PartialMatches) (source : List PartialMatches) :
    subMatch retrieve n group (res :: source) =
      (let orVector := andBytes ((groupVector retrieve n res.section group).getD
          (List.replicate n 0)) res.bitset
        if testBytes orVector then [⟨res.section, orVector⟩] else []) ++
        subMatch retrieve n group source := by
  simp only [subMatch, List.filterMap_cons]
  split_ifs <;> rfl

section Chain

variable (blooms : ℕ → List UInt8) {size : ℕ} (begin «end» : ℕ)

/-- The anded vector of a section in a link is the bitmap of the group and
the vector before it. -/
theorem represents_orVector (hmod : size % 8 = 0) {group : List (Fin 3 → ℕ)}
    (hgroup : ∀ bits ∈ group, ∀ j, bits j < bloomBitLength) {res : PartialMatches}
    (hlen : res.bitset.length = size / 8) :
    Represents (size / 8)
      (fun s => groupMatch blooms group (res.section.toNat * size + s) && test res.bitset s)
      (andBytes ((groupVector (retrieveFrom blooms size) (size / 8) res.section group).getD
        (List.replicate (size / 8) 0)) res.bitset) :=
  (represents_groupVector blooms res.section hmod group hgroup).andBytes (Represents.of_length hlen)

/-- **A link filters the blocks of its source by its group.** -/
theorem flatMap_blocks_subMatch (hpos : 0 < size) (hmod : size % 8 = 0) {group : List (Fin 3 → ℕ)}
    (hgroup : ∀ bits ∈ group, ∀ j, bits j < bloomBitLength) :
    ∀ source : List PartialMatches, (∀ res ∈ source, res.bitset.length = size / 8) →
      (subMatch (retrieveFrom blooms size) (size / 8) group source).flatMap
          (PartialMatches.blocks size begin «end») =
        (source.flatMap (PartialMatches.blocks size begin «end»)).filter (groupMatch blooms group)
  | [], _ => rfl
  | res :: source, hsource => by
    have ih := flatMap_blocks_subMatch hpos hmod hgroup source
      fun r hr => hsource r (List.mem_cons_of_mem _ hr)
    have hvec := represents_orVector blooms hmod hgroup (hsource res List.mem_cons_self)
    -- read at a block of the section, the anded vector is the group and the old bit
    have hbit : ∀ k ∈ sectionBlocks size begin «end» res.section.toNat,
        test (andBytes ((groupVector (retrieveFrom blooms size) (size / 8) res.section group).getD
          (List.replicate (size / 8) 0)) res.bitset) (k - res.section.toNat * size) =
          (groupMatch blooms group k && test res.bitset (k - res.section.toNat * size)) := by
      intro k hk
      obtain ⟨hlo, hoff⟩ := mem_sectionBlocks hpos hk
      rw [hvec.test_eq _ (by omega), Nat.add_sub_cancel' hlo]
    rw [subMatch_cons, List.flatMap_append, ih, List.flatMap_cons, List.filter_append]
    congr 1
    have hblocks : PartialMatches.blocks size begin «end» ⟨res.section,
        andBytes ((groupVector (retrieveFrom blooms size) (size / 8) res.section group).getD
          (List.replicate (size / 8) 0)) res.bitset⟩ =
        (res.blocks size begin «end»).filter (groupMatch blooms group) := by
      rw [PartialMatches.blocks, PartialMatches.blocks, List.filter_filter]
      exact List.filter_congr hbit
    dsimp only
    split_ifs with htest
    · rw [List.flatMap_singleton, hblocks]
    · -- the section is dropped: the group matches none of its blocks
      rw [List.flatMap_nil, ← hblocks, eq_comm, PartialMatches.blocks, List.filter_eq_nil_iff]
      intro k hk
      obtain ⟨hlo, hoff⟩ := mem_sectionBlocks hpos hk
      have hempty := hvec.testBytes_eq_false_iff.mp (Bool.eq_false_iff.mpr htest)
      rw [hvec.test_eq _ (by omega), hempty _ (by omega)]
      exact Bool.false_ne_true

theorem fits_subMatch (hmod : size % 8 = 0) {group : List (Fin 3 → ℕ)}
    (hgroup : ∀ bits ∈ group, ∀ j, bits j < bloomBitLength) :
    ∀ source : List PartialMatches, (∀ res ∈ source, res.Fits size «end») →
      ∀ res ∈ subMatch (retrieveFrom blooms size) (size / 8) group source, res.Fits size «end»
  | [], _ => fun _ hres => absurd hres List.not_mem_nil
  | res :: source, hsource => by
    intro res' hres'
    rw [subMatch_cons, List.mem_append] at hres'
    rcases hres' with hnew | hrest
    · have hfits := hsource res List.mem_cons_self
      dsimp only at hnew
      split_ifs at hnew
      · rw [List.mem_singleton] at hnew
        subst hnew
        exact ⟨(represents_orVector blooms hmod hgroup hfits.length_eq).length_eq, hfits.section_le⟩
      · exact absurd hnew List.not_mem_nil
    · exact fits_subMatch hmod hgroup source (fun r hr => hsource r (List.mem_cons_of_mem _ hr)) res' hrest

/-- **The chain filters blocks by every group**, and keeps every partial
match fitting. -/
theorem flatMap_blocks_foldl (hpos : 0 < size) (hmod : size % 8 = 0) :
    ∀ filters : List (List (Fin 3 → ℕ)), (∀ group ∈ filters, ∀ bits ∈ group, ∀ j, bits j < bloomBitLength) →
      ∀ source : List PartialMatches, (∀ res ∈ source, res.Fits size «end») →
        (filters.foldl (fun next group => subMatch (retrieveFrom blooms size) (size / 8) group next)
            source).flatMap (PartialMatches.blocks size begin «end») =
          (source.flatMap (PartialMatches.blocks size begin «end»)).filter
            (fun k => filters.all fun group => groupMatch blooms group k) ∧
        ∀ res ∈ filters.foldl (fun next group => subMatch (retrieveFrom blooms size) (size / 8) group next)
            source, res.Fits size «end»
  | [], _, source, hsource => ⟨(List.filter_true _).symm, hsource⟩
  | group :: filters, hfilters, source, hsource => by
    have hgroup := hfilters group List.mem_cons_self
    have hlink := flatMap_blocks_subMatch blooms begin «end» hpos hmod hgroup source
      fun res hres => (hsource res hres).length_eq
    obtain ⟨hblocks, hfits⟩ := flatMap_blocks_foldl hpos hmod filters
      (fun g hg => hfilters g (List.mem_cons_of_mem _ hg)) _
      (fits_subMatch blooms «end» hmod hgroup source hsource)
    refine ⟨?_, hfits⟩
    rw [List.foldl_cons, hblocks, hlink, List.filter_filter]
    congr 1
    funext k
    rw [List.all_cons, Bool.and_comm]

end Chain

end RpcNetwork.Core.Bloombits
