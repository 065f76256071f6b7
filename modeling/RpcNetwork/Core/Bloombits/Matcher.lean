import RpcNetwork.Core.Bloombits.Generator

/-!
# Matching blocks against log filters (`core/bloombits/matcher.go`)

A filter is a list of groups of clauses (addresses, then each topic
position); a block may hold a matching log when every group has a clause
whose three bloom bits are set in the block's bloom.  The matcher answers
that for whole sections at once: for each section in range it ands, group
by group, the rotated bit vectors of `Generator.bitset`, drops the sections
left empty, and walks the blocks of the rest.

## Design notes

The goroutines, channels and schedulers only move data in order, so a session
never closed or cancelled computes what the functions here compute, with
`retrieve section bit` the vector the distributor delivers.  Partial matches always
carry a vector, so the `subres.bitset != nil` test always passes.

`Keccak256` is a parameter: nothing here depends on which hash it is.
Block numbers and section indexes are `uint64`, with Go's wrap-around.  The two
loops over them take `fuel`; `Fault.outOfFuel` is the model's, the other
faults are the source's panics.
-/

namespace RpcNetwork.Core.Bloombits

open ByteBitmap

/-- `calcBloomIndexes(b)`: three bit indexes from the first six bytes of the
key's hash. -/
def calcBloomIndexes (keccak256 : List UInt8 → List UInt8) (b : List UInt8) : Fin 3 → ℕ :=
  let b := keccak256 b
  fun i => ((b.getD (2 * i) 0).toNat <<< 8 &&& 2047) + (b.getD (2 * i + 1) 0).toNat

/-- `Matcher`: the section size and, for each group that is not a wildcard,
the bloom bits of its clauses. -/
structure Matcher where
  sectionSize : UInt64
  filters : List (List (Fin 3 → ℕ))

/-- `NewMatcher(sectionSize, filters)`.  A clause is a key, or `nil`. -/
def newMatcher (keccak256 : List UInt8 → List UInt8) (sectionSize : UInt64)
    (filters : List (List (Option (List UInt8)))) : Matcher where
  sectionSize := sectionSize
  filters := filters.filterMap fun filter =>
    -- an empty group, or one with a `nil` clause, filters nothing
    if filter.isEmpty then none
    else filter.mapM fun clause => clause.map (calcBloomIndexes keccak256)

/-- `partialMatches`: a section and its vector of possible matches. -/
structure PartialMatches where
  «section» : UInt64
  bitset : List UInt8

/-- The ways a session fails: the source's panics, and running out of the
model's fuel. -/
inductive Fault where
  /-- `begin / m.sectionSize` with a zero section size. -/
  | divideByZero
  /-- `res.bitset[(i-sectionStart)/8]` past the end of the vector. -/
  | indexOutOfRange
  | outOfFuel
  deriving DecidableEq, Repr

/-- The source of `run`: `for i := begin / m.sectionSize; i <= end/m.sectionSize;
i++`, each section with a vector of `n` bytes `0xff`. -/
def sourceLoop (n : ℕ) (last : UInt64) : ℕ → UInt64 → Except Fault (List PartialMatches)
  | 0, _ => .error .outOfFuel
  | fuel + 1, i =>
    if i ≤ last then (⟨i, List.replicate n 0xFF⟩ :: ·) <$> sourceLoop n last fuel (i + 1)
    else .ok []

/-- The matches of one clause in a section: its three bit vectors anded, the
first copied into a fresh vector of `n` bytes. -/
def clauseVector (retrieve : UInt64 → ℕ → List UInt8) (n : ℕ) (sec : UInt64)
    (bits : Fin 3 → ℕ) : List UInt8 :=
  [bits 1, bits 2].foldl (fun v bit => andBytes v (retrieve sec bit))
    (copyBytes n (retrieve sec (bits 0)))

/-- The matches of a group in a section: its clauses' vectors ored, the first
taken as it is; no vector for an empty group. -/
def groupVector (retrieve : UInt64 → ℕ → List UInt8) (n : ℕ) (sec : UInt64) :
    List (Fin 3 → ℕ) → Option (List UInt8)
  | [] => none
  | bits :: rest =>
    some (rest.foldl (fun v bits => orBytes v (clauseVector retrieve n sec bits))
      (clauseVector retrieve n sec bits))

/-- `subMatch`: and each section's vector with the group's matches, and pass on
the sections where some bit is left. -/
def subMatch (retrieve : UInt64 → ℕ → List UInt8) (n : ℕ) (bloom : List (Fin 3 → ℕ))
    (source : List PartialMatches) : List PartialMatches :=
  source.filterMap fun subres =>
    let orVector := andBytes ((groupVector retrieve n subres.section bloom).getD
      (List.replicate n 0)) subres.bitset
    if testBytes orVector then some ⟨subres.section, orVector⟩ else none

namespace Matcher

/-- `run(begin, end, …)`: the sections of the range through the chain of
`subMatch` links, one per group. -/
def run (m : Matcher) (retrieve : UInt64 → ℕ → List UInt8) (begin «end» : UInt64) (fuel : ℕ) :
    Except Fault (List PartialMatches) :=
  if m.sectionSize = 0 then .error .divideByZero
  else do
    let n := (m.sectionSize / 8).toNat
    let source ← sourceLoop n («end» / m.sectionSize) fuel (begin / m.sectionSize)
    pure (m.filters.foldl (fun next bloom => subMatch retrieve n bloom next) source)

end Matcher

/-- The loop of `Start` over the blocks `i ≤ last` of one section: a byte of
the vector that is zero is skipped whole when `i` is at its start, and a set
bit sends `i`. -/
def emitLoop (bitset : List UInt8) (sectionStart last : UInt64) :
    ℕ → UInt64 → Except Fault (List UInt64)
  | 0, _ => .error .outOfFuel
  | fuel + 1, i =>
    if i ≤ last then
      match bitset[((i - sectionStart) / 8).toNat]? with
      | none => .error .indexOutOfRange
      | some next =>
        if next = 0 then
          emitLoop bitset sectionStart last fuel ((if i % 8 = 0 then i + 7 else i) + 1)
        else if next &&& 1 <<< (7 - i % 8).toUInt8 ≠ 0 then
          (i :: ·) <$> emitLoop bitset sectionStart last fuel (i + 1)
        else emitLoop bitset sectionStart last fuel (i + 1)
    else .ok []

namespace Matcher

/-- The blocks `Start` sends for one section that reached the sink: those of
`[begin, end]` in the section whose bit is set. -/
def emit (m : Matcher) (begin «end» : UInt64) (fuel : ℕ) (res : PartialMatches) :
    Except Fault (List UInt64) :=
  let sectionStart := res.section * m.sectionSize
  let first := if begin > sectionStart then begin else sectionStart
  let last := if «end» < sectionStart + m.sectionSize - 1 then «end»
    else sectionStart + m.sectionSize - 1
  emitLoop res.bitset sectionStart last fuel first

/-- `Start(ctx, begin, end, results)`: every block number the session sends
on `results`, in order, before the channel is closed. -/
def start (m : Matcher) (retrieve : UInt64 → ℕ → List UInt8) (begin «end» : UInt64) (fuel : ℕ) :
    Except Fault (List UInt64) := do
  let sink ← m.run retrieve begin «end» fuel
  List.flatten <$> sink.mapM (m.emit begin «end» fuel)

end Matcher

/-- Retrievals answered from the chain: bit `bit` of section `sec` is the
`Bitset(bit)` of the generator fed that section's blooms. -/
def retrieveFrom (blooms : ℕ → List UInt8) (sectionSize : ℕ) (sec : UInt64) (bit : ℕ) :
    List UInt8 :=
  match sectionGenerator blooms sectionSize sec.toNat >>= (·.bitset bit) with
  | .ok v => v
  | .error _ => []

/-- The filter as a predicate on block `n`: every group that is not empty and
has no `nil` clause has a key whose three bloom bits are set in the block's
bloom. -/
def filterMatches (keccak256 : List UInt8 → List UInt8) (filters : List (List (Option (List UInt8))))
    (blooms : ℕ → List UInt8) (n : ℕ) : Bool :=
  filters.all fun group =>
    group.isEmpty || group.any Option.isNone || group.any fun clause =>
      match clause with
      | some key => (List.finRange 3).all fun j => bloomBit (blooms n) (calcBloomIndexes keccak256 key j)
      | none => false

end RpcNetwork.Core.Bloombits
