import Mathlib
import RpcNetwork.Lib.Tiling
import RpcNetwork.P2p.Peer

/-!
# The code space of a connection is partitioned and agreed

`matchProtocols` is a loop over sorted caps with an offset it sometimes moves
back; what it computes is said here in closed form (`expectedEntry`): every name
both sides run gets the protocol of its highest shared version, in the block of
codes that follows the blocks of the names below it.  The loop is shown to
compute it (`lookup_matchProtocols`), and the claims about the connection are
read off the closed form.

## Design notes

The closed form reads only the set `sharedCaps`, so both peers of a
connection get the same layout.  Blocks are laid
out with `RpcNetwork.Tiling.offsetOf`.  The revert `offset -= old.Length` is
right because the sorted caps bring the versions of one name together, the
highest last: the name being matched is the greatest one seen so far, so its
block is the last one laid (`Tiling.offsetOf_insert_self`).
-/

namespace RpcNetwork.P2p

open Tiling

section Expected

variable (protocols : List Protocol)

/-- The caps both sides have: those of `caps` that some protocol has. -/
def sharedCaps (caps : List Cap) : Finset Cap :=
  (caps.filter fun c => (findProto protocols c).isSome).toFinset

/-- The names of a set of caps. -/
def namesOf (S : Finset Cap) : Finset String := S.image Cap.name

/-- The highest version of `name` in a set of caps. -/
def topVersion (S : Finset Cap) (name : String) : ℕ := (S.filter (·.name = name)).sup Cap.version

/-- The protocol `name` runs: the first with its highest shared version. -/
def runProto (S : Finset Cap) (name : String) : Option Protocol :=
  findProto protocols ⟨name, topVersion S name⟩

/-- The number of codes `name` takes. -/
def runLength (S : Finset Cap) (name : String) : ℕ :=
  ((runProto protocols S name).map Protocol.length).getD 0

/-- **What `matchProtocols` computes** for `name`: its protocol, in the block
after the blocks of the names below it. -/
def expectedEntry (S : Finset Cap) (name : String) : Option ProtoRW :=
  if name ∈ namesOf S then
    (runProto protocols S name).map fun proto =>
      ⟨proto, offsetOf (namesOf S) (runLength protocols S) baseProtocolLength name⟩
  else none

end Expected

/-! ### The shared caps, one more at a time -/

section Shared

variable {protocols : List Protocol} {S : Finset Cap} {c : Cap}

theorem sharedCaps_append_singleton (P : List Cap) (c : Cap) :
    sharedCaps protocols (P ++ [c]) =
      if (findProto protocols c).isSome then insert c (sharedCaps protocols P)
      else sharedCaps protocols P := by
  unfold sharedCaps
  rw [List.filter_append, List.toFinset_append]
  split_ifs with h
  · rw [List.filter_singleton, h, cond_true, List.toFinset_cons, List.toFinset_nil,
      Finset.union_insert, Finset.union_empty]
  · rw [List.filter_singleton, Bool.eq_false_iff.mpr h, cond_false, List.toFinset_nil,
      Finset.union_empty]

theorem sharedCaps_perm {caps caps' : List Cap} (h : caps.Perm caps') :
    sharedCaps protocols caps = sharedCaps protocols caps' :=
  List.toFinset_eq_of_perm _ _ (h.filter _)

theorem mem_sharedCaps {caps : List Cap} {c : Cap} :
    c ∈ sharedCaps protocols caps ↔ c ∈ caps ∧ ∃ proto ∈ protocols, proto.cap = c := by
  rw [sharedCaps, List.mem_toFinset, List.mem_filter, findProto_isSome_iff]

theorem mem_sharedCaps_isSome {caps : List Cap} (hc : c ∈ sharedCaps protocols caps) :
    (findProto protocols c).isSome :=
  findProto_isSome_iff.mpr (mem_sharedCaps.mp hc).2

/-- The highest version of a name of the set is one of its caps. -/
theorem top_mem {name : String} (hn : name ∈ namesOf S) :
    (⟨name, topVersion S name⟩ : Cap) ∈ S := by
  obtain ⟨a, ha, rfl⟩ := Finset.mem_image.mp hn
  obtain ⟨b, hb, hsup⟩ := Finset.exists_mem_eq_sup (S.filter (·.name = a.name))
    ⟨a, Finset.mem_filter.mpr ⟨ha, rfl⟩⟩ Cap.version
  obtain ⟨hbS, hbn⟩ := Finset.mem_filter.mp hb
  rw [topVersion, hsup, ← hbn]
  exact hbS

theorem le_topVersion {a : Cap} (ha : a ∈ S) : a.version ≤ topVersion S a.name :=
  Finset.le_sup (f := Cap.version) (Finset.mem_filter.mpr ⟨ha, rfl⟩)

/-- Every name of a set of shared caps runs a protocol. -/
theorem runProto_isSome (hS : ∀ a ∈ S, (findProto protocols a).isSome) {name : String}
    (hn : name ∈ namesOf S) : (runProto protocols S name).isSome :=
  hS _ (top_mem hn)

variable (hle : ∀ a ∈ S, toLex (a.name, a.version) ≤ toLex (c.name, c.version))
include hle

/-- The names seen before a cap of the sorted list are not above its name. -/
theorem name_le_of_mem_namesOf {name : String} (hn : name ∈ namesOf S) : name ≤ c.name := by
  obtain ⟨a, ha, rfl⟩ := Finset.mem_image.mp hn
  rcases Prod.Lex.toLex_le_toLex.mp (hle a ha) with h | ⟨h, -⟩
  · exact h.le
  · exact h.le

/-- The newest cap of a name carries its highest version. -/
theorem topVersion_insert_self : topVersion (insert c S) c.name = c.version := by
  rw [topVersion, Finset.filter_insert, if_pos rfl, Finset.sup_insert]
  refine sup_eq_left.mpr (Finset.sup_le fun a ha => ?_)
  obtain ⟨haS, han⟩ := Finset.mem_filter.mp ha
  rcases Prod.Lex.toLex_le_toLex.mp (hle a haS) with h | ⟨-, h⟩
  · exact absurd han (ne_of_lt h)
  · exact h

omit hle in
theorem topVersion_insert_of_ne {name : String} (hne : name ≠ c.name) :
    topVersion (insert c S) name = topVersion S name := by
  rw [topVersion, topVersion, Finset.filter_insert, if_neg (Ne.symm hne)]

end Shared

/-! ### The loop -/

/-- What the loop of `matchProtocols` keeps over the shared caps seen so far:
the offset past the last block, and every name's entry. -/
structure LoopInv (protocols : List Protocol) (S : Finset Cap) (st : ℕ × ProtoMap) : Prop where
  offset_eq : st.1 = baseProtocolLength + ∑ n ∈ namesOf S, runLength protocols S n
  lookup_eq : ∀ name, st.2.lookup name = expectedEntry protocols S name

section Loop

variable {protocols : List Protocol} {S : Finset Cap} {c : Cap} {proto : Protocol}

theorem runProto_insert_of_ne {name : String} (hne : name ≠ c.name) :
    runProto protocols (insert c S) name = runProto protocols S name := by
  rw [runProto, runProto, topVersion_insert_of_ne hne]

theorem runLength_insert_of_ne {name : String} (hne : name ≠ c.name) :
    runLength protocols (insert c S) name = runLength protocols S name := by
  rw [runLength, runLength, runProto_insert_of_ne hne]

variable (hS : ∀ a ∈ S, (findProto protocols a).isSome)
  (hle : ∀ a ∈ S, toLex (a.name, a.version) ≤ toLex (c.name, c.version))
  (hc : findProto protocols c = some proto)

include hle hc in
theorem runProto_insert_self : runProto protocols (insert c S) c.name = some proto := by
  rw [runProto, topVersion_insert_self hle]
  exact hc

include hle hc in
theorem runLength_insert_self : runLength protocols (insert c S) c.name = proto.length := by
  rw [runLength, runProto_insert_self hle hc]
  rfl

/-- The entry of a name seen so far holds its protocol's length. -/
theorem expectedEntry_length {name : String} {rw : ProtoRW}
    (h : expectedEntry protocols S name = some rw) : rw.protocol.length = runLength protocols S name := by
  unfold expectedEntry at h
  split_ifs at h
  obtain ⟨p, hp, rfl⟩ := Option.map_eq_some_iff.mp h
  rw [runLength, hp]
  rfl

include hS in
/-- The offset a matched cap starts at: after the blocks of the other names. -/
theorem LoopInv.offset_matchCap {st : ℕ × ProtoMap} (h : LoopInv protocols S st) :
    ((st.2.lookup c.name).map fun old => st.1 - old.protocol.length).getD st.1 =
      baseProtocolLength + ∑ n ∈ (namesOf S).erase c.name, runLength protocols S n := by
  rw [h.lookup_eq c.name, h.offset_eq]
  by_cases hn : c.name ∈ namesOf S
  · -- an older version of the name matched: its block, the last one, is reverted
    obtain ⟨rw, hrw⟩ := Option.isSome_iff_exists.mp (show (expectedEntry protocols S c.name).isSome by
      rw [expectedEntry, if_pos hn, Option.isSome_map]
      exact runProto_isSome hS hn)
    rw [hrw, Option.map_some, Option.getD_some, expectedEntry_length hrw,
      ← Finset.add_sum_erase _ _ hn]
    omega
  · rw [expectedEntry, if_neg hn, Option.map_none, Option.getD_none, Finset.erase_eq_of_notMem hn]

include hS hle hc in
/-- **Step lemma**: a matched cap keeps the loop's invariant over one more shared cap. -/
theorem LoopInv.matchCap_some {st : ℕ × ProtoMap} (h : LoopInv protocols S st) :
    LoopInv protocols (insert c S) (matchCap protocols st c) := by
  have hoff := h.offset_matchCap (c := c) hS
  have hnames : namesOf (insert c S) = insert c.name (namesOf S) := Finset.image_insert _ _ _
  have hmax : ∀ n ∈ namesOf S, n ≤ c.name := fun n hn => name_le_of_mem_namesOf hle hn
  have hlen : ∀ n ∈ namesOf S, n ≠ c.name →
      runLength protocols (insert c S) n = runLength protocols S n :=
    fun n _ hne => runLength_insert_of_ne hne
  have hsum : ∑ n ∈ (namesOf S).erase c.name, runLength protocols (insert c S) n =
      ∑ n ∈ (namesOf S).erase c.name, runLength protocols S n :=
    Finset.sum_congr rfl fun n hn => hlen n (Finset.mem_of_mem_erase hn) (Finset.ne_of_mem_erase hn)
  rw [matchCap_of_some hc]
  constructor
  · -- the new block ends where all the blocks end
    dsimp only
    rw [hoff, hnames, ← Finset.add_sum_erase _ _ (Finset.mem_insert_self _ _),
      Finset.erase_insert_eq_erase, runLength_insert_self hle hc, hsum]
    omega
  · intro name
    dsimp only
    by_cases hne : name = c.name
    · -- the matched name: its protocol, in the last block
      subst hne
      rw [AList.lookup_insert, expectedEntry, if_pos (by rw [hnames]; exact Finset.mem_insert_self _ _),
        runProto_insert_self hle hc, Option.map_some, hnames, offsetOf_insert_self hmax hlen, hoff]
    · -- another name keeps its entry: the new block lies above its block
      rw [AList.lookup_insert_ne hne, h.lookup_eq name]
      unfold expectedEntry
      rw [hnames, runProto_insert_of_ne hne]
      by_cases hn : name ∈ namesOf S
      · rw [if_pos hn, if_pos (Finset.mem_insert_of_mem hn),
          offsetOf_insert_of_not_lt (not_lt.mpr (hmax name hn)) fun n hn' hlt =>
            hlen n hn' (ne_of_lt (lt_of_lt_of_le hlt (hmax name hn)))]
      · rw [if_neg hn, if_neg (by simp [hn, hne])]

theorem loopInv_nil (protocols : List Protocol) :
    LoopInv protocols (sharedCaps protocols []) (baseProtocolLength, ∅) := by
  constructor <;> simp [sharedCaps, namesOf, expectedEntry]

/-- **Run lemma**: the loop over the rest of the sorted caps keeps the invariant
over the shared caps of all the caps seen. -/
theorem loopInv_foldl (protocols : List Protocol) : ∀ (L P : List Cap) (st : ℕ × ProtoMap),
    (P ++ L).Pairwise (fun a b => toLex (a.name, a.version) ≤ toLex (b.name, b.version)) →
    LoopInv protocols (sharedCaps protocols P) st →
    LoopInv protocols (sharedCaps protocols (P ++ L)) (L.foldl (matchCap protocols) st)
  | [], P, st, _, h => by simpa using h
  | c :: L, P, st, hsorted, h => by
    have hle : ∀ a ∈ sharedCaps protocols P,
        toLex (a.name, a.version) ≤ toLex (c.name, c.version) := fun a ha =>
      (List.pairwise_append.mp hsorted).2.2 a (mem_sharedCaps.mp ha).1 c List.mem_cons_self
    have hstep : LoopInv protocols (sharedCaps protocols (P ++ [c])) (matchCap protocols st c) := by
      rw [sharedCaps_append_singleton]
      cases hc : findProto protocols c with
      | none =>
        rw [if_neg (by simp), matchCap_of_none hc]
        exact h
      | some proto =>
        rw [if_pos (by simp)]
        exact h.matchCap_some (fun a ha => mem_sharedCaps_isSome ha) hle hc
    have hrun := loopInv_foldl protocols L (P ++ [c]) _ (by simpa using hsorted) hstep
    simpa using hrun

/-- **The loop computes the closed form.** -/
theorem lookup_matchProtocols (protocols : List Protocol) (caps : List Cap) (name : String) :
    (matchProtocols protocols caps).lookup name =
      expectedEntry protocols (sharedCaps protocols caps) name := by
  have h := loopInv_foldl protocols (sortCaps caps) [] _ (by simpa using pairwise_sortCaps caps)
    (loopInv_nil protocols)
  rw [List.nil_append, sharedCaps_perm (perm_sortCaps caps)] at h
  exact h.lookup_eq name

end Loop

/-! ### What the closed form gives -/

section Entries

variable {protocols : List Protocol} {S : Finset Cap} {name : String} {rw : ProtoRW}

theorem expectedEntry_isSome_iff (hS : ∀ a ∈ S, (findProto protocols a).isSome) :
    (expectedEntry protocols S name).isSome ↔ name ∈ namesOf S := by
  unfold expectedEntry
  split_ifs with hn
  · rw [Option.isSome_map]
    exact iff_of_true (runProto_isSome hS hn) hn
  · exact iff_of_false (by simp) hn

/-- A name's entry runs a protocol of the list with the name's highest version,
from the offset its block starts at. -/
theorem expectedEntry_eq_some (h : expectedEntry protocols S name = some rw) :
    name ∈ namesOf S ∧ rw.protocol ∈ protocols ∧
      rw.protocol.cap = ⟨name, topVersion S name⟩ ∧
      rw.offset = offsetOf (namesOf S) (runLength protocols S) baseProtocolLength name := by
  unfold expectedEntry at h
  split_ifs at h with hn
  obtain ⟨p, hp, rfl⟩ := Option.map_eq_some_iff.mp h
  exact ⟨hn, (findProto_spec hp).1, (findProto_spec hp).2, rfl⟩

theorem expectedEntry_name (h : expectedEntry protocols S name = some rw) :
    rw.protocol.name = name := by
  have := congrArg Cap.name (expectedEntry_eq_some h).2.2.1
  exact this

end Entries

/-! ### The blocks tile the code space -/

/-- The number of codes the protocol map gives `name`. -/
def codeLength (m : ProtoMap) (name : String) : ℕ :=
  ((m.lookup name).map fun rw => rw.protocol.length).getD 0

/-- The code blocks of a protocol map, taken in name order, tile
`[baseProtocolLength, baseProtocolLength + Σ Length)`: each starts after the
blocks of the names below it, no two overlap, each lies in the range, and every
code of the range lies in one. -/
structure Tiles (m : ProtoMap) : Prop where
  offset_eq : ∀ name rw, m.lookup name = some rw →
    rw.offset = baseProtocolLength + ∑ n ∈ m.keys.toFinset with n < name, codeLength m n
  disjoint : ∀ name name' rw rw', name ≠ name' → m.lookup name = some rw →
    m.lookup name' = some rw' →
    rw.offset + rw.protocol.length ≤ rw'.offset ∨ rw'.offset + rw'.protocol.length ≤ rw.offset
  within : ∀ name rw, m.lookup name = some rw → baseProtocolLength ≤ rw.offset ∧
    rw.offset + rw.protocol.length ≤ baseProtocolLength + ∑ n ∈ m.keys.toFinset, codeLength m n
  covers : ∀ code, baseProtocolLength ≤ code →
    code < baseProtocolLength + ∑ n ∈ m.keys.toFinset, codeLength m n →
    ∃ name rw, m.lookup name = some rw ∧ rw.offset ≤ code ∧ code < rw.offset + rw.protocol.length

section Tiles

variable {m : ProtoMap}

theorem mem_keys_toFinset_of_lookup {name : String} {rw : ProtoRW} (h : m.lookup name = some rw) :
    name ∈ m.keys.toFinset := by
  rw [List.mem_toFinset, ← AList.mem_keys, ← AList.lookup_isSome, h]
  rfl

theorem codeLength_of_lookup {name : String} {rw : ProtoRW} (h : m.lookup name = some rw) :
    codeLength m name = rw.protocol.length := by
  rw [codeLength, h]
  rfl

/-- Blocks placed after the blocks of the names below them tile the code space. -/
theorem Tiles.of_offsetOf (h : ∀ name rw, m.lookup name = some rw →
    rw.offset = offsetOf m.keys.toFinset (codeLength m) baseProtocolLength name) : Tiles m where
  offset_eq := h
  disjoint := by
    intro name name' rw rw' hne hrw hrw'
    have hd := @offsetOf_disjoint _ _ _ (codeLength m) baseProtocolLength _ _
      (mem_keys_toFinset_of_lookup hrw) (mem_keys_toFinset_of_lookup hrw') hne
    rwa [← h _ _ hrw, ← h _ _ hrw', codeLength_of_lookup hrw, codeLength_of_lookup hrw'] at hd
  within := by
    intro name rw hrw
    have ht := @offsetOf_add_le_total _ _ _ (codeLength m) baseProtocolLength _
      (mem_keys_toFinset_of_lookup hrw)
    rw [← h _ _ hrw, codeLength_of_lookup hrw] at ht
    refine ⟨?_, ht⟩
    rw [h _ _ hrw, offsetOf]
    exact Nat.le_add_right _ _
  covers := by
    intro code hlo hhi
    obtain ⟨k, hk, hkc⟩ := exists_offsetOf_le_lt m.keys.toFinset hlo hhi
    obtain ⟨rw, hrw⟩ := Option.isSome_iff_exists.mp
      (AList.lookup_isSome.mpr (AList.mem_keys.mpr (List.mem_toFinset.mp hk)))
    rw [← h _ _ hrw, codeLength_of_lookup hrw] at hkc
    exact ⟨k, rw, hrw, hkc⟩

end Tiles

/-- **The blocks of `matchProtocols` tile the code space.** -/
theorem tiles_matchProtocols (protocols : List Protocol) (caps : List Cap) :
    Tiles (matchProtocols protocols caps) := by
  set S := sharedCaps protocols caps
  have hS : ∀ a ∈ S, (findProto protocols a).isSome := fun a ha => mem_sharedCaps_isSome ha
  -- the map's names are the shared names, each with its protocol's length
  have hkeys : (matchProtocols protocols caps).keys.toFinset = namesOf S := by
    ext name
    rw [List.mem_toFinset, ← AList.mem_keys, ← AList.lookup_isSome, lookup_matchProtocols,
      expectedEntry_isSome_iff hS]
  have hlen : ∀ n ∈ namesOf S, codeLength (matchProtocols protocols caps) n = runLength protocols S n := by
    intro n hn
    obtain ⟨rw, hrw⟩ := Option.isSome_iff_exists.mp ((expectedEntry_isSome_iff hS).mpr hn)
    rw [codeLength, lookup_matchProtocols, hrw, Option.map_some, Option.getD_some,
      expectedEntry_length hrw]
  refine Tiles.of_offsetOf fun name rw hrw => ?_
  rw [lookup_matchProtocols] at hrw
  obtain ⟨hn, -, -, hoff⟩ := expectedEntry_eq_some hrw
  rw [hoff, hkeys, offsetOf, offsetOf]
  congr 1
  exact Finset.sum_congr rfl fun n hn' => (hlen n (Finset.mem_filter.mp hn').1).symm

/-! ### Dispatch of a code -/

section Dispatch

variable {m : ProtoMap} {running : List ProtoRW}

/-- The running protocols, in whatever order `range` visits them, are the
entries of the map. -/
theorem mem_running_iff (hrun : running.Perm (m.entries.map Sigma.snd)) {rw : ProtoRW} :
    rw ∈ running ↔ ∃ name, m.lookup name = some rw := by
  rw [hrun.mem_iff, List.mem_map]
  constructor
  · rintro ⟨⟨name, rw'⟩, he, rfl⟩
    exact ⟨name, AList.mem_lookup_iff.mpr he⟩
  · rintro ⟨name, h⟩
    exact ⟨⟨name, rw⟩, AList.mem_lookup_iff.mp h, rfl⟩

/-- **`getProto` finds the entry whose block holds the code**, whatever the order
the map is ranged over. -/
theorem getProto_eq_ok_iff (ht : Tiles m) (hrun : running.Perm (m.entries.map Sigma.snd))
    (code : ℕ) (rw : ProtoRW) :
    getProto running code = .ok rw ↔
      ∃ name, m.lookup name = some rw ∧ rw.offset ≤ code ∧ code < rw.offset + rw.protocol.length := by
  unfold getProto
  constructor
  · intro h
    split at h
    · next rw' hfind =>
      cases h
      obtain ⟨name, hname⟩ := (mem_running_iff hrun).mp (List.mem_of_find?_eq_some hfind)
      have hp := List.find?_some hfind
      simp only [decide_eq_true_eq] at hp
      exact ⟨name, hname, hp⟩
    · cases h
  · rintro ⟨name, hname, hlo, hhi⟩
    split
    · next rw' hfind =>
      -- the entry found holds the code too, so it is the same one
      obtain ⟨name', hname'⟩ := (mem_running_iff hrun).mp (List.mem_of_find?_eq_some hfind)
      have hp := List.find?_some hfind
      simp only [decide_eq_true_eq] at hp
      by_cases hne : name' = name
      · subst hne
        rw [hname] at hname'
        cases hname'
        rfl
      · have := ht.disjoint name' name rw' rw hne hname' hname
        omega
    · next hfind =>
      have := List.find?_eq_none.mp hfind rw ((mem_running_iff hrun).mpr ⟨name, hname⟩)
      simp only [decide_eq_true_eq] at this
      exact absurd ⟨hlo, hhi⟩ this

/-- `getProto` fails exactly on the codes no block holds. -/
theorem getProto_error_iff (hrun : running.Perm (m.entries.map Sigma.snd)) (code : ℕ) :
    (∃ e, getProto running code = .error e) ↔
      ¬ ∃ name rw, m.lookup name = some rw ∧ rw.offset ≤ code ∧
        code < rw.offset + rw.protocol.length := by
  unfold getProto
  split
  · next rw hfind =>
    have hp := List.find?_some hfind
    simp only [decide_eq_true_eq] at hp
    obtain ⟨name, hname⟩ := (mem_running_iff hrun).mp (List.mem_of_find?_eq_some hfind)
    refine iff_of_false ?_ (not_not.mpr ⟨name, rw, hname, hp⟩)
    rintro ⟨e, he⟩
    cases he
  · next hfind =>
    refine iff_of_true ⟨_, rfl⟩ ?_
    rintro ⟨name, rw, hname, hlo, hhi⟩
    have := List.find?_eq_none.mp hfind rw ((mem_running_iff hrun).mpr ⟨name, hname⟩)
    simp only [decide_eq_true_eq] at this
    exact this ⟨hlo, hhi⟩

/-- **A written code comes back to its writer**: `WriteMsg` adds the offset, the
code lands in the writer's block, and `ReadMsg` takes the offset off again. -/
theorem handle_writeMsg (ht : Tiles m) (hrun : running.Perm (m.entries.map Sigma.snd))
    {name : String} {rw : ProtoRW} (hrw : m.lookup name = some rw) {code : ℕ}
    (hcode : code < rw.protocol.length) :
    writeMsg rw code = .ok (code + rw.offset) ∧ handle running (code + rw.offset) = .deliver rw ∧
      readMsg rw (code + rw.offset) = code := by
  have hbase := (ht.within name rw hrw).1
  have hwire : baseProtocolLength ≤ code + rw.offset := le_add_left hbase
  refine ⟨if_neg (not_le.mpr hcode), ?_, Nat.add_sub_cancel code rw.offset⟩
  -- the code is past the base protocol's codes, in the writer's block
  have hget : getProto running (code + rw.offset) = .ok rw :=
    (getProto_eq_ok_iff ht hrun _ rw).mpr ⟨name, hrw, by omega, by omega⟩
  unfold handle
  rw [if_neg (by unfold pingMsg baseProtocolLength at *; omega),
    if_neg (by unfold discMsg baseProtocolLength at *; omega), if_neg (not_lt.mpr hwire), hget]

end Dispatch

/-! ### Both ends agree -/

/-- What the two ends of a connection must agree on for a name: the cap it
runs, its number of codes and its offset. -/
def ProtoRW.block (rw : ProtoRW) : Cap × ℕ × ℕ := (rw.protocol.cap, rw.protocol.length, rw.offset)

/-- Each end matches its protocols against the caps the other advertises: they
share the same caps. -/
theorem sharedCaps_comm (protocols remote : List Protocol) :
    sharedCaps protocols (remote.map Protocol.cap) =
      sharedCaps remote (protocols.map Protocol.cap) := by
  ext c
  simp only [mem_sharedCaps, List.mem_map]
  exact and_comm

section Agree

variable {protocols remote : List Protocol} {S : Finset Cap}
  (hlen : ∀ p ∈ protocols, ∀ q ∈ remote, p.cap = q.cap → p.length = q.length)
  (hl : ∀ a ∈ S, (findProto protocols a).isSome) (hr : ∀ a ∈ S, (findProto remote a).isSome)
include hlen hl hr

theorem runProto_agree {name : String} (hn : name ∈ namesOf S) :
    ∃ p q, runProto protocols S name = some p ∧ runProto remote S name = some q ∧
      p.cap = q.cap ∧ p.length = q.length := by
  obtain ⟨p, hp⟩ := Option.isSome_iff_exists.mp (runProto_isSome hl hn)
  obtain ⟨q, hq⟩ := Option.isSome_iff_exists.mp (runProto_isSome hr hn)
  have hpq : p.cap = q.cap := by rw [(findProto_spec hp).2, (findProto_spec hq).2]
  exact ⟨p, q, hp, hq, hpq, hlen p (findProto_spec hp).1 q (findProto_spec hq).1 hpq⟩

theorem runLength_agree {name : String} (hn : name ∈ namesOf S) :
    runLength protocols S name = runLength remote S name := by
  obtain ⟨p, q, hp, hq, -, hpq⟩ := runProto_agree hlen hl hr hn
  rw [runLength, runLength, hp, hq]
  exact hpq

/-- Over the same shared caps, protocols that agree on lengths give every name
the same block. -/
theorem expectedEntry_block_agree (name : String) :
    (expectedEntry protocols S name).map ProtoRW.block = (expectedEntry remote S name).map ProtoRW.block := by
  unfold expectedEntry
  by_cases hn : name ∈ namesOf S
  · obtain ⟨p, q, hp, hq, hcap, hpq⟩ := runProto_agree hlen hl hr hn
    have hoff : offsetOf (namesOf S) (runLength protocols S) baseProtocolLength name =
        offsetOf (namesOf S) (runLength remote S) baseProtocolLength name := by
      unfold offsetOf
      congr 1
      exact Finset.sum_congr rfl fun n hn' => runLength_agree hlen hl hr (Finset.mem_filter.mp hn').1
    rw [if_pos hn, if_pos hn, hp, hq]
    simp only [Option.map_some, ProtoRW.block, hcap, hpq, hoff]
  · rw [if_neg hn, if_neg hn]

end Agree

/-- **Subprotocol multiplexing is a correct, agreed partition of the code space.**
The matched map runs each shared name at its highest shared version; its blocks
tile the codes from `baseProtocolLength`; `getProto` finds a code's block in
any map order; a written code reads back unchanged; and two ends agreeing on
lengths lay out every name alike. -/
theorem matchProtocols_partition (protocols : List Protocol) (caps : List Cap) :
    (∀ name, ((matchProtocols protocols caps).lookup name).isSome ↔
      ∃ v, ⟨name, v⟩ ∈ caps ∧ ∃ proto ∈ protocols, proto.cap = ⟨name, v⟩) ∧
    (∀ name rw, (matchProtocols protocols caps).lookup name = some rw →
      rw.protocol ∈ protocols ∧ rw.protocol.name = name ∧ rw.protocol.cap ∈ caps ∧
      ∀ v, ⟨name, v⟩ ∈ caps → (∃ proto ∈ protocols, proto.cap = ⟨name, v⟩) →
        v ≤ rw.protocol.version) ∧
    Tiles (matchProtocols protocols caps) ∧
    (∀ running : List ProtoRW, running.Perm ((matchProtocols protocols caps).entries.map Sigma.snd) →
      (∀ code rw, getProto running code = .ok rw ↔
        ∃ name, (matchProtocols protocols caps).lookup name = some rw ∧ rw.offset ≤ code ∧
          code < rw.offset + rw.protocol.length) ∧
      (∀ code, (∃ e, getProto running code = .error e) ↔
        ¬ ∃ name rw, (matchProtocols protocols caps).lookup name = some rw ∧ rw.offset ≤ code ∧
          code < rw.offset + rw.protocol.length) ∧
      ∀ name rw code, (matchProtocols protocols caps).lookup name = some rw →
        code < rw.protocol.length →
        writeMsg rw code = .ok (code + rw.offset) ∧
          handle running (code + rw.offset) = .deliver rw ∧ readMsg rw (code + rw.offset) = code) ∧
    ∀ remote : List Protocol,
      (∀ p ∈ protocols, ∀ q ∈ remote, p.cap = q.cap → p.length = q.length) →
      ∀ name, ((matchProtocols protocols (remote.map Protocol.cap)).lookup name).map ProtoRW.block =
        ((matchProtocols remote (protocols.map Protocol.cap)).lookup name).map ProtoRW.block := by
  set S := sharedCaps protocols caps
  have hS : ∀ a ∈ S, (findProto protocols a).isSome := fun a ha => mem_sharedCaps_isSome ha
  have ht := tiles_matchProtocols protocols caps
  refine ⟨?present, ?entry, ht, ?dispatch, ?agree⟩
  case present =>
    -- a name is matched iff one of its caps is shared
    intro name
    rw [lookup_matchProtocols, expectedEntry_isSome_iff hS]
    constructor
    · intro hn
      obtain ⟨hc, hp⟩ := mem_sharedCaps.mp (top_mem hn)
      exact ⟨_, hc, hp⟩
    · rintro ⟨v, hc, hp⟩
      exact Finset.mem_image.mpr ⟨⟨name, v⟩, mem_sharedCaps.mpr ⟨hc, hp⟩, rfl⟩
  case entry =>
    -- the entry runs the highest shared version of its name
    intro name rw hrw
    rw [lookup_matchProtocols] at hrw
    obtain ⟨hn, hmem, hcap, -⟩ := expectedEntry_eq_some hrw
    have htop : (⟨name, topVersion S name⟩ : Cap) ∈ S := top_mem hn
    refine ⟨hmem, expectedEntry_name hrw, hcap ▸ (mem_sharedCaps.mp htop).1, fun v hv hp => ?_⟩
    have hver : rw.protocol.version = topVersion S name := congrArg Cap.version hcap
    rw [hver]
    exact le_topVersion (a := ⟨name, v⟩) (mem_sharedCaps.mpr ⟨hv, hp⟩)
  case dispatch =>
    intro running hrun
    exact ⟨getProto_eq_ok_iff ht hrun, getProto_error_iff hrun,
      fun _ _ _ hrw hcode => handle_writeMsg ht hrun hrw hcode⟩
  case agree =>
    -- both ends lay out the same shared caps with the same lengths
    intro remote hlen name
    rw [lookup_matchProtocols, lookup_matchProtocols, sharedCaps_comm]
    exact expectedEntry_block_agree hlen
      (fun a ha => by rw [← sharedCaps_comm] at ha; exact mem_sharedCaps_isSome ha)
      (fun a ha => mem_sharedCaps_isSome ha) name

end RpcNetwork.P2p
