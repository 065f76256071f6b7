import Mathlib
import RpcNetwork.Lib.ExceptRun
import RpcNetwork.Tbft.Tp2p.Pex.AddrBook

/-!
# A full old bucket loses an address

`moveToOld` promotes an address to its old bucket.  When that bucket already
has more than `oldBucketSize` entries, it takes the bucket's oldest entry out
and hands it to `addToNewBucket` to file it as new again.  But the entry keeps
its `BucketType` of old, and `addToNewBucket`'s sanity check turns an old
address away: the entry is out of every bucket and out of `addrLookup`, lost.

Addresses of one IP share their group, so `calcOldBucket` spreads them over at
most `oldBucketsPerGroup` buckets; among `4 * 65 + 1`, one bucket gets 66.
Added and marked good in turn, the first 65 fill it to `oldBucketSize + 1`
entries, and the 66th pushes the first out of the book.
-/

namespace RpcNetwork.Tbft.Tp2p.Pex

open BigEndian

namespace AddrBook

/-! ### `pickOldest` -/

section Oldest

variable {kas : ℕ → KnownAddress} {q : ℕ}

/-- Once the oldest so far is `q`, no later entry replaces it. -/
theorem foldl_oldestStep_some :
    ∀ {l : List (Σ _ : String, ℕ)}, (∀ e ∈ l, e.2 ≠ q → (kas q).lastAttempt < (kas e.2).lastAttempt) →
      l.foldl (oldestStep kas) (some q) = some q
  | [], _ => rfl
  | e :: l, hmin => by
    have hstep : oldestStep kas (some q) e = some q := by
      by_cases he : e.2 = q
      · simp [oldestStep, he]
      · have hlt := hmin e List.mem_cons_self he
        simp only [oldestStep, ite_eq_right_iff, Option.some.injEq]
        intro h
        exact absurd (lt_trans hlt h) (lt_irrefl _)
    rw [List.foldl_cons, hstep]
    exact foldl_oldestStep_some fun e' he' => hmin e' (List.mem_cons_of_mem e he')

/-- The loop of `pickOldest` finds the entry whose last attempt precedes every
other's. -/
theorem foldl_oldestStep_eq :
    ∀ {l : List (Σ _ : String, ℕ)} {init : Option ℕ}, (∃ s, (⟨s, q⟩ : Σ _ : String, ℕ) ∈ l) →
      (∀ e ∈ l, e.2 ≠ q → (kas q).lastAttempt < (kas e.2).lastAttempt) →
      (∀ x, init = some x → (kas q).lastAttempt < (kas x).lastAttempt) →
      l.foldl (oldestStep kas) init = some q
  | [], _, hq, _, _ => by simp at hq
  | e :: l, init, hq, hmin, hinit => by
    have hmin' : ∀ e' ∈ l, e'.2 ≠ q → (kas q).lastAttempt < (kas e'.2).lastAttempt :=
      fun e' he' => hmin e' (List.mem_cons_of_mem e he')
    rw [List.foldl_cons]
    by_cases he : e.2 = q
    · -- `q`'s own entry: it becomes the oldest so far
      have hstep : oldestStep kas init e = some q := by
        cases init with
        | none => simp [oldestStep, he]
        | some x => simp [oldestStep, he, hinit x rfl]
      rw [hstep]
      exact foldl_oldestStep_some hmin'
    · -- another entry: the oldest so far stays later than `q`
      have hq' : ∃ s, (⟨s, q⟩ : Σ _ : String, ℕ) ∈ l := by
        obtain ⟨s, hs⟩ := hq
        rcases List.mem_cons.mp hs with hs | hs
        · exact absurd (by rw [← hs]) he
        · exact ⟨s, hs⟩
      apply foldl_oldestStep_eq hq' hmin'
      intro y hy
      have he' := hmin e List.mem_cons_self he
      cases init with
      | none =>
        simp only [oldestStep, Option.some.injEq] at hy
        rw [← hy]
        exact he'
      | some x =>
        simp only [oldestStep] at hy
        split_ifs at hy
        · rw [← Option.some.inj hy]
          exact he'
        · rw [← Option.some.inj hy]
          exact hinit x rfl

end Oldest

/-- A map's length is the number of its keys. -/
theorem length_entries {β : String → Type} (s : AList β) : s.entries.length = s.keys.length :=
  (List.length_map _).symm

/-- A key taken out of a map shortens it by one. -/
theorem length_erase_of_mem {s : String} {m : Bucket} (h : s ∈ m) :
    (m.erase s).entries.length = m.entries.length - 1 := by
  rw [length_entries, AList.keys_erase, List.length_erase_of_mem h, ← length_entries]

/-! ### `AddAddress` and `MarkGood` -/

variable (env : Env)

/-- **`AddAddress` of an unknown address** files a new `knownAddress` at the
next pointer in its new bucket, when the checks pass and the bucket has room. -/
theorem addAddress_fresh {book : AddrBook} {addr src : NetAddress} {now : ℤ} {rnd : ℕ}
    (hroute : env.routabilityStrict = true → env.routable addr.ip = true)
    (hour : addr.toString ∉ book.ourAddrs) (hpriv : addr.id ∉ book.privateIDs)
    (hsrc : src.id ∉ book.privateIDs) (hlook : book.addrLookup.lookup addr.id = none)
    (hfree : addr.toString ∉ book.bucketsNew (calcNewBucket env addr src))
    (hroom : (book.bucketsNew (calcNewBucket env addr src)).entries.length ≤ newBucketSize) :
    book.addAddress env (some addr) (some src) now rnd = .ok (none,
      { book with
        kas := Function.update book.kas book.next
          ⟨addr, src, 0, now, zeroTime, .new, [calcNewBucket env addr src]⟩
        next := book.next + 1
        bucketsNew := Function.update book.bucketsNew (calcNewBucket env addr src)
          ((book.bucketsNew (calcNewBucket env addr src)).insert addr.toString book.next)
        nNew := book.nNew + 1
        addrLookup := book.addrLookup.insert addr.id book.next }) := by
  have hr : (env.routabilityStrict && !env.routable addr.ip) = false := by
    cases h : env.routabilityStrict <;> simp_all
  simp [addAddress, hr, hour, hpriv, hsrc, hlook, addToNewBucket, setKa, newKnownAddress,
    KnownAddress.isOld, hfree, Nat.not_lt.mpr hroom, setBucket, KnownAddress.addBucketRef, incCount]

/-- **`MarkGood` promotes.**  An address in one new bucket whose old bucket has
room leaves the new bucket for the old one. -/
theorem markGood_promote {book : AddrBook} {addr src : NetAddress} {p j : ℕ} {att : Int32} {la ls now : ℤ}
    (hlook : book.addrLookup.lookup addr.id = some p)
    (hka : book.kas p = ⟨addr, src, att, la, ls, .new, [j]⟩)
    (hfree : addr.toString ∉ book.bucketsOld (calcOldBucket env addr))
    (hroom : (book.bucketsOld (calcOldBucket env addr)).entries.length ≤ oldBucketSize) :
    book.markGood env addr now = .ok
      { book with
        kas := Function.update book.kas p ⟨addr, src, 0, now, now, .old, [calcOldBucket env addr]⟩
        bucketsNew := Function.update book.bucketsNew j ((book.bucketsNew j).erase addr.toString)
        bucketsOld := Function.update book.bucketsOld (calcOldBucket env addr)
          ((book.bucketsOld (calcOldBucket env addr)).insert addr.toString p)
        nNew := book.nNew - 1
        nOld := book.nOld + 1
        addrLookup := (book.addrLookup.erase addr.id).insert addr.id p } := by
  simp [markGood, hlook, setKa, hka, KnownAddress.markGood, KnownAddress.isNew, moveToOld, KnownAddress.isOld,
    removeFromAllBuckets, setBucket, getBucket, decCount, addToOldBucket, hfree, Nat.not_lt.mpr hroom,
    KnownAddress.addBucketRef, incCount]

/-- **`MarkGood` into a full old bucket.**  The bucket's oldest entry `q` is
taken out of the bucket and of `addrLookup`, `addToNewBucket` turns it away
as old, and the address takes its place. -/
theorem markGood_demote {book : AddrBook} {addr src qaddr qsrc : NetAddress} {p j q : ℕ}
    {att qatt : Int32} {la ls qla qls now : ℤ}
    (hlook : book.addrLookup.lookup addr.id = some p)
    (hka : book.kas p = ⟨addr, src, att, la, ls, .new, [j]⟩)
    (hfree : addr.toString ∉ book.bucketsOld (calcOldBucket env addr))
    (hfull : (book.bucketsOld (calcOldBucket env addr)).entries.length = oldBucketSize + 1)
    (hqka : book.kas q = ⟨qaddr, qsrc, qatt, qla, qls, .old, [calcOldBucket env addr]⟩)
    (hq : (⟨qaddr.toString, q⟩ : Σ _ : String, ℕ) ∈ (book.bucketsOld (calcOldBucket env addr)).entries)
    (hmin : ∀ e ∈ (book.bucketsOld (calcOldBucket env addr)).entries, e.2 ≠ q →
      qla < (book.kas e.2).lastAttempt)
    (hp : ∀ e ∈ (book.bucketsOld (calcOldBucket env addr)).entries, e.2 ≠ p) :
    book.markGood env addr now = .ok
      { book with
        kas := Function.update (Function.update book.kas q ⟨qaddr, qsrc, qatt, qla, qls, .old, []⟩) p
          ⟨addr, src, 0, now, now, .old, [calcOldBucket env addr]⟩
        bucketsNew := Function.update book.bucketsNew j ((book.bucketsNew j).erase addr.toString)
        bucketsOld := Function.update book.bucketsOld (calcOldBucket env addr)
          (((book.bucketsOld (calcOldBucket env addr)).erase qaddr.toString).insert addr.toString p)
        nNew := book.nNew - 1
        addrLookup := ((book.addrLookup.erase addr.id).erase qaddr.id).insert addr.id p } := by
  have hpq : q ≠ p := fun h => hp _ hq h
  have hlt : oldBucketSize < (book.bucketsOld (calcOldBucket env addr)).entries.length := by
    rw [hfull]
    omega
  -- taking `q` out makes room for the address
  have hroom : ((book.bucketsOld (calcOldBucket env addr)).erase qaddr.toString).entries.length =
      oldBucketSize := by
    rw [length_erase_of_mem (List.mem_map_of_mem (f := Sigma.fst) hq), hfull]
    rfl
  -- once the address is out of its new bucket and old, its old bucket's oldest entry is `q`
  have hpick : pickOldest { book with
      kas := Function.update book.kas p ⟨addr, src, 0, now, now, .old, []⟩
      bucketsNew := Function.update book.bucketsNew j ((book.bucketsNew j).erase addr.toString)
      nNew := book.nNew - 1
      addrLookup := book.addrLookup.erase addr.id } .old (calcOldBucket env addr) = some q := by
    apply foldl_oldestStep_eq ⟨_, hq⟩ _ (by simp)
    intro e he heq
    simpa [Function.update_of_ne hpq, Function.update_of_ne (hp e he), hqka] using hmin e he heq
  simp [markGood, hlook, setKa, hka, KnownAddress.markGood, KnownAddress.isNew, moveToOld, KnownAddress.isOld,
    removeFromAllBuckets, setBucket, getBucket, decCount, addToOldBucket, hfree, hlt,
    KnownAddress.addBucketRef, incCount, hpick, removeFromBucket, KnownAddress.removeBucketRef, addToNewBucket,
    hqka, hpq, Function.update_of_ne hpq.symm, hroom]
  rw [Function.update_comm (Ne.symm hpq), Function.update_idem]

/-! ### Maps that index a prefix of a sequence

The maps of the run hold the first `k` of a sequence of keys `f 0, f 1, …`,
each under its position: `p ∈ m.lookup s ↔ p < k ∧ f p = s`. -/

section Prefix

variable {f : ℕ → String} {k : ℕ} {m : AList fun _ : String => ℕ}

theorem lt_succ_and_iff {s : String} (hs : s ≠ f k) {p : ℕ} :
    p < k + 1 ∧ f p = s ↔ p < k ∧ f p = s := by
  constructor
  · rintro ⟨hp, hfp⟩
    refine ⟨lt_of_le_of_ne (Nat.lt_succ_iff.mp hp) ?_, hfp⟩
    rintro rfl
    exact hs hfp.symm
  · rintro ⟨hp, hfp⟩
    exact ⟨by omega, hfp⟩

variable (hne : ∀ i < k, f i ≠ f k) (hm : ∀ s p, p ∈ m.lookup s ↔ p < k ∧ f p = s)
include hne hm

/-- The next key is not in the map yet. -/
theorem lookup_next_eq_none : m.lookup (f k) = none := by
  rw [Option.eq_none_iff_forall_not_mem]
  intro p hp
  obtain ⟨hpk, hfp⟩ := (hm _ p).mp hp
  exact hne p hpk hfp

/-- Filing the next key under its position indexes one more. -/
theorem lookup_insert_next : ∀ s p, p ∈ (m.insert (f k) k).lookup s ↔ p < k + 1 ∧ f p = s := by
  intro s p
  by_cases hs : s = f k
  · subst hs
    rw [AList.lookup_insert, Option.mem_some_iff]
    constructor
    · rintro rfl
      exact ⟨Nat.lt_succ_self _, rfl⟩
    · rintro ⟨hp, hfp⟩
      by_contra hpk
      exact hne p (by omega) hfp
  · rw [AList.lookup_insert_ne hs, hm, lt_succ_and_iff hs]

end Prefix

/-- Taking the last key out indexes one fewer. -/
theorem lookup_erase_last {f : ℕ → String} {k : ℕ} {m : AList fun _ : String => ℕ}
    (hne : ∀ i < k, f i ≠ f k) (hm : ∀ s p, p ∈ m.lookup s ↔ p < k + 1 ∧ f p = s) :
    ∀ s p, p ∈ (m.erase (f k)).lookup s ↔ p < k ∧ f p = s := by
  intro s p
  by_cases hs : s = f k
  · subst hs
    rw [AList.lookup_erase]
    simp only [Option.mem_def, reduceCtorEq, false_iff, not_and]
    exact hne p
  · rw [AList.lookup_erase_ne hs, hm, lt_succ_and_iff hs]

theorem erase_insert_empty (s : String) (p : ℕ) : ((∅ : Bucket).insert s p).erase s = ∅ := by
  ext : 1
  simp [AList.erase, AList.singleton_entries, List.kerase_cons_eq, AList.empty_entries]

/-! ### A crowd of addresses for one old bucket -/

/-- Addresses `a 0, …, a 65` of one IP and port with distinct IDs that
`calcOldBucket` files in the old bucket `o`. -/
structure Crowd (a : ℕ → NetAddress) (o : ℕ) : Prop where
  id_ne : ∀ i < 66, (a i).id ≠ ""
  id_inj : ∀ i < 66, ∀ j < 66, (a i).id = (a j).id → i = j
  ip : ∀ i < 66, (a i).ip = (a 0).ip
  port : ∀ i < 66, (a i).port = (a 0).port
  routable : env.routabilityStrict = true → env.routable (a 0).ip = true
  old : ∀ i < 66, calcOldBucket env (a i) = o

/-- The calls of the run: each address added, then marked good. -/
def crowdOps (src : NetAddress) (a : ℕ → NetAddress) (k : ℕ) : List Op :=
  (List.range k).flatMap fun i =>
    [.addAddress (some (a i)) (some src) (2 * i) 0, .markGood (a i) (2 * i + 1)]

/-- The book after the first `k` addresses were added and marked good: each is
old in `o` and in `addrLookup`, and the new buckets are empty. -/
structure Promoted (src : NetAddress) (a : ℕ → NetAddress) (o k : ℕ) (book : AddrBook) : Prop where
  ourAddrs : book.ourAddrs = []
  privateIDs : book.privateIDs = []
  next : book.next = k
  kas : ∀ i < k, book.kas i = ⟨a i, src, 0, 2 * i + 1, 2 * i + 1, .old, [o]⟩
  lookup : ∀ id p, p ∈ book.addrLookup.lookup id ↔ p < k ∧ (a p).id = id
  bucketsNew : ∀ j, book.bucketsNew j = ∅
  bucket : ∀ s p, p ∈ (book.bucketsOld o).lookup s ↔ p < k ∧ (a p).toString = s
  length : (book.bucketsOld o).entries.length = k

/-- The book once the `k`-th address was added as well: it is new, under
pointer `k`, alone in its new bucket. -/
structure Filed (src : NetAddress) (a : ℕ → NetAddress) (o k : ℕ) (book : AddrBook) : Prop where
  ourAddrs : book.ourAddrs = []
  privateIDs : book.privateIDs = []
  next : book.next = k + 1
  kas : ∀ i < k, book.kas i = ⟨a i, src, 0, 2 * i + 1, 2 * i + 1, .old, [o]⟩
  kas_self : book.kas k = ⟨a k, src, 0, 2 * k, zeroTime, .new, [calcNewBucket env (a k) src]⟩
  lookup : ∀ id p, p ∈ book.addrLookup.lookup id ↔ p < k + 1 ∧ (a p).id = id
  bucketsNew : ∀ j, j ≠ calcNewBucket env (a k) src → book.bucketsNew j = ∅
  bucketNew : (book.bucketsNew (calcNewBucket env (a k) src)).erase (a k).toString = ∅
  bucket : ∀ s p, p ∈ (book.bucketsOld o).lookup s ↔ p < k ∧ (a p).toString = s
  length : (book.bucketsOld o).entries.length = k

variable {env} {a : ℕ → NetAddress} {o : ℕ}

namespace Crowd

variable (hc : Crowd env a o)
include hc

theorem toString_inj {i j : ℕ} (hi : i < 66) (hj : j < 66)
    (h : (a i).toString = (a j).toString) : i = j := by
  have hdial : (a i).dialString = (a j).dialString := by
    rw [NetAddress.dialString, NetAddress.dialString, hc.ip i hi, hc.ip j hj, hc.port i hi, hc.port j hj]
  rw [NetAddress.toString, NetAddress.toString, if_neg (hc.id_ne i hi), if_neg (hc.id_ne j hj), hdial,
    String.append_left_inj, String.append_left_inj] at h
  exact hc.id_inj i hi j hj h

theorem id_ne_of_lt {k : ℕ} (hk : k < 66) : ∀ i < k, (a i).id ≠ (a k).id := by
  intro i hi h
  have := hc.id_inj i (by omega) k hk h
  omega

theorem toString_ne_of_lt {k : ℕ} (hk : k < 66) : ∀ i < k, (a i).toString ≠ (a k).toString := by
  intro i hi h
  have := hc.toString_inj (by omega) hk h
  omega

/-- The IP of every address passes the routability check. -/
theorem routable_of_lt {k : ℕ} (hk : k < 66) : env.routabilityStrict = true → env.routable (a k).ip = true := by
  rw [hc.ip k hk]
  exact hc.routable

end Crowd

theorem promoted_empty (src : NetAddress) : Promoted src a o 0 empty := by
  refine ⟨rfl, rfl, rfl, fun i hi => absurd hi (Nat.not_lt_zero i), fun id p => ?_, fun j => rfl,
    fun s p => ?_, rfl⟩
  · simp [empty]
  · simp [empty]

variable {src : NetAddress} {k : ℕ} {book : AddrBook}

/-- **`AddAddress` of the next address** files it new, under the next pointer. -/
theorem Promoted.addAddress (hP : Promoted src a o k book) (hc : Crowd env a o) (hk : k < 66) :
    ∃ book', book.addAddress env (some (a k)) (some src) (2 * k) 0 = .ok (none, book') ∧
      Filed env src a o k book' := by
  refine ⟨_, addAddress_fresh env (hc.routable_of_lt hk) (by simp [hP.ourAddrs]) (by simp [hP.privateIDs])
    (show src.id ∉ book.privateIDs by simp [hP.privateIDs])
    (lookup_next_eq_none (f := fun i => (a i).id) (hc.id_ne_of_lt hk) hP.lookup)
    (by simp [hP.bucketsNew]) (by simp [hP.bucketsNew]), ?_⟩
  rw [hP.next]
  refine ⟨hP.ourAddrs, hP.privateIDs, rfl, ?kas, ?kas_self, ?lookup, ?bucketsNew, ?bucketNew, hP.bucket,
    hP.length⟩
  case kas =>
    intro i hi
    dsimp only
    rw [Function.update_of_ne (by omega), hP.kas i hi]
  case kas_self => exact Function.update_self _ _ _
  case lookup => exact lookup_insert_next (f := fun i => (a i).id) (hc.id_ne_of_lt hk) hP.lookup
  case bucketsNew =>
    intro j hj
    dsimp only
    rw [Function.update_of_ne hj, hP.bucketsNew]
  case bucketNew =>
    dsimp only
    rw [Function.update_self, hP.bucketsNew, erase_insert_empty]

namespace Filed

variable (hF : Filed env src a o k book)
include hF

theorem lookup_self : book.addrLookup.lookup (a k).id = some k :=
  (hF.lookup _ k).mpr ⟨Nat.lt_succ_self k, rfl⟩

variable (hc : Crowd env a o)
include hc

theorem not_mem_old (hk : k < 66) : (a k).toString ∉ book.bucketsOld o := by
  rw [← AList.lookup_eq_none]
  exact lookup_next_eq_none (f := fun i => (a i).toString) (hc.toString_ne_of_lt hk) hF.bucket

/-- **`MarkGood` of the address just added**, while its old bucket has room,
promotes it. -/
theorem markGood_lt (hk : k < 65) :
    ∃ book', book.markGood env (a k) (2 * k + 1) = .ok book' ∧ Promoted src a o (k + 1) book' := by
  have hk66 : k < 66 := by omega
  have hfree := hF.not_mem_old hc hk66
  refine ⟨_, markGood_promote env hF.lookup_self hF.kas_self (by rwa [hc.old k hk66])
    (by rw [hc.old k hk66, hF.length]; simp only [oldBucketSize]; omega), ?_⟩
  rw [hc.old k hk66]
  refine ⟨hF.ourAddrs, hF.privateIDs, hF.next, ?kas, ?lookup, ?bucketsNew, ?bucket, ?length⟩
  case kas =>
    intro i hi
    dsimp only
    rcases Nat.lt_succ_iff_lt_or_eq.mp hi with hi | rfl
    · rw [Function.update_of_ne (by omega), hF.kas i hi]
    · exact Function.update_self _ _ _
  case lookup =>
    exact lookup_insert_next (f := fun i => (a i).id) (hc.id_ne_of_lt hk66)
      (lookup_erase_last (f := fun i => (a i).id) (hc.id_ne_of_lt hk66) hF.lookup)
  case bucketsNew =>
    intro j
    dsimp only
    by_cases hj : j = calcNewBucket env (a k) src
    · subst hj
      rw [Function.update_self, hF.bucketNew]
    · rw [Function.update_of_ne hj, hF.bucketsNew j hj]
  case bucket =>
    dsimp only
    rw [Function.update_self]
    exact lookup_insert_next (f := fun i => (a i).toString) (hc.toString_ne_of_lt hk66) hF.bucket
  case length =>
    dsimp only
    rw [Function.update_self, AList.entries_insert_of_notMem hfree, List.length_cons, hF.length]

/-- **`MarkGood` of the 66th address** finds its old bucket over full: its
oldest entry, the first address, is pushed out of the book, and the bucket
keeps `oldBucketSize + 1` entries. -/
theorem markGood_full (hk : k = 65) :
    ∃ book', book.markGood env (a k) (2 * k + 1) = .ok book' ∧ book'.hasAddress (a 0) = false ∧
      (book'.bucketsOld o).entries.length = oldBucketSize + 1 := by
  subst hk
  have hold := hc.old 65 (by norm_num)
  have hfree := hF.not_mem_old hc (by norm_num)
  have hlook0 : 0 ∈ (book.bucketsOld o).lookup (a 0).toString := (hF.bucket _ 0).mpr ⟨by norm_num, rfl⟩
  have hmem0 : (a 0).toString ∈ book.bucketsOld o :=
    AList.lookup_isSome.mp (Option.isSome_iff_exists.mpr ⟨0, hlook0⟩)
  -- every entry of the bucket is one of the first 65 addresses, last attempted after the first
  have hlt : ∀ e ∈ (book.bucketsOld o).entries, e.2 < 65 := fun e he =>
    ((hF.bucket e.1 e.2).mp (AList.mem_lookup_iff.mpr he)).1
  have hmin : ∀ e ∈ (book.bucketsOld o).entries, e.2 ≠ 0 →
      2 * ((0 : ℕ) : ℤ) + 1 < (book.kas e.2).lastAttempt := by
    intro e he he0
    rw [hF.kas e.2 (hlt e he)]
    dsimp only
    omega
  refine ⟨_, markGood_demote env (q := 0) hF.lookup_self hF.kas_self (by rwa [hold])
    (by rw [hold, hF.length]; rfl) (by rw [hold]; exact hF.kas 0 (by norm_num))
    (by rw [hold]; exact AList.mem_lookup_iff.mp hlook0) (by rw [hold]; exact hmin)
    (by rw [hold]; exact fun e he => (hlt e he).ne), ?lost, ?full⟩
  case lost =>
    rw [hasAddress]
    dsimp only
    rw [AList.lookup_insert_ne (hc.id_ne_of_lt (by norm_num) 0 (by norm_num)), AList.lookup_erase]
    rfl
  case full =>
    dsimp only
    rw [hold, Function.update_self,
      AList.entries_insert_of_notMem fun h => hfree (AList.mem_erase.mp h).2, List.length_cons,
      length_erase_of_mem hmem0, hF.length]
    rfl

end Filed

/-! ### The run -/

theorem run_cons {book book' : AddrBook} {op : Op} {ops : List Op} (h : apply env book op = .ok book') :
    book.run env (op :: ops) = book'.run env ops := by
  rw [run, List.foldlM_cons, h, Except.ok_bind, run]

/-- A run is its calls one after the other. -/
theorem run_append {book book' : AddrBook} {ops ops' : List Op} (h : book.run env ops = .ok book') :
    book.run env (ops ++ ops') = book'.run env ops' := by
  rw [run, List.foldlM_append]
  rw [run] at h
  rw [h, Except.ok_bind, run]

theorem run_addAddress_markGood {book book₁ book₂ : AddrBook} {addr src : Option NetAddress}
    {addr' : NetAddress} {now now' : ℤ} {rnd : ℕ} {e : Option AddrBookError}
    (h₁ : book.addAddress env addr src now rnd = .ok (e, book₁)) (h₂ : book₁.markGood env addr' now' = .ok book₂) :
    book.run env [.addAddress addr src now rnd, .markGood addr' now'] = .ok book₂ := by
  rw [run_cons (by rw [apply, h₁]; rfl), run_cons (by rw [apply, h₂])]
  rfl

theorem crowdOps_succ (src : NetAddress) (a : ℕ → NetAddress) (k : ℕ) :
    crowdOps src a (k + 1) =
      crowdOps src a k ++ [.addAddress (some (a k)) (some src) (2 * k) 0, .markGood (a k) (2 * k + 1)] := by
  simp [crowdOps, List.range_succ]

/-- Adding the next address and marking it good promotes it. -/
theorem Promoted.step (hP : Promoted src a o k book) (hc : Crowd env a o) (hk : k < 65) :
    ∃ book', book.run env [.addAddress (some (a k)) (some src) (2 * k) 0, .markGood (a k) (2 * k + 1)] =
      .ok book' ∧ Promoted src a o (k + 1) book' := by
  obtain ⟨book₁, h₁, hF⟩ := hP.addAddress hc (by omega)
  obtain ⟨book₂, h₂, hP₂⟩ := hF.markGood_lt hc hk
  exact ⟨book₂, run_addAddress_markGood h₁ h₂, hP₂⟩

/-- **The run of the first `k ≤ 65` addresses** succeeds with each of them old
in `o`. -/
theorem run_crowdOps (hc : Crowd env a o) (src : NetAddress) :
    ∀ k ≤ 65, ∃ book, empty.run env (crowdOps src a k) = .ok book ∧ Promoted src a o k book := by
  intro k
  induction k with
  | zero => exact fun _ => ⟨empty, rfl, promoted_empty src⟩
  | succ k ih =>
    intro hk
    obtain ⟨book, hrun, hP⟩ := ih (by omega)
    obtain ⟨book', hstep, hP'⟩ := hP.step hc (by omega)
    exact ⟨book', by rw [crowdOps_succ, run_append hrun, hstep], hP'⟩

/-- **The 66th address pushes the first out.**  The run ends with the first
address, added and marked good, gone from the book, and its old bucket holding
`oldBucketSize + 1` entries. -/
theorem run_crowdOps_loses (hc : Crowd env a o) (src : NetAddress) :
    ∃ book, empty.run env (crowdOps src a 66) = .ok book ∧ book.hasAddress (a 0) = false ∧
      (book.bucketsOld o).entries.length = oldBucketSize + 1 := by
  obtain ⟨book, hrun, hP⟩ := run_crowdOps hc src 65 le_rfl
  obtain ⟨book₁, h₁, hF⟩ := hP.addAddress hc (by norm_num)
  obtain ⟨book₂, h₂, hlost, hfull⟩ := hF.markGood_full hc rfl
  exact ⟨book₂, by rw [crowdOps_succ, run_append hrun, run_addAddress_markGood h₁ h₂], hlost, hfull⟩

/-! ### A crowd for every key and hash -/

/-- The candidates of a crowd: IDs `n0, n1, …` at one IP and port. -/
def candidate (ip : String) (port : UInt16) (m : ℕ) : NetAddress := ⟨"n" ++ toString m, ip, port⟩

/-- The old bucket of an address is fixed by its group and by its first hash
reduced to one of `oldBucketsPerGroup` values. -/
theorem calcOldBucket_eq_of_hash {addr addr' : NetAddress} (hip : addr.ip = addr'.ip)
    (hh : uint64 (env.doubleSha256 (env.key.toUTF8.toList ++ addr.toString.toUTF8.toList)) %
        oldBucketsPerGroup.toUInt64 =
      uint64 (env.doubleSha256 (env.key.toUTF8.toList ++ addr'.toString.toUTF8.toList)) %
        oldBucketsPerGroup.toUInt64) :
    calcOldBucket env addr = calcOldBucket env addr' := by
  simp only [calcOldBucket]
  rw [hh, hip]

/-- **A crowd exists.**  Whatever the key and the hash, some 66 of the first
`4 * 65 + 1` candidates of one IP share their old bucket. -/
theorem exists_crowd (ip : String) (port : UInt16)
    (hroute : env.routabilityStrict = true → env.routable ip = true) :
    ∃ a o, Crowd env a o ∧ (a 0).ip = ip := by
  -- the reduced first hash of each candidate: the pigeonholes
  let h : ℕ → ℕ := fun m => (uint64 (env.doubleSha256 (env.key.toUTF8.toList ++
    (candidate ip port m).toString.toUTF8.toList)) % oldBucketsPerGroup.toUInt64).toNat
  obtain ⟨y, -, hy⟩ := Finset.exists_lt_card_fiber_of_mul_lt_card_of_maps_to (n := 65)
    (s := Finset.range (4 * 65 + 1)) (t := Finset.range oldBucketsPerGroup) (f := h)
    (fun m _ => Finset.mem_range.mpr (by simp only [h]; rw [UInt64.toNat_mod]; exact Nat.mod_lt _ (by decide)))
    (by simp [oldBucketsPerGroup])
  set F := (Finset.range (4 * 65 + 1)).filter fun m => h m = y
  set l := F.sort
  have hlen : 66 ≤ l.length := by
    rw [Finset.length_sort]
    omega
  have hmem : ∀ i < 66, l.getD i 0 ∈ F := fun i hi => by
    rw [List.getD_eq_getElem l 0 (by omega)]
    exact (Finset.mem_sort _).mp (List.getElem_mem _)
  have hhash : ∀ i < 66, h (l.getD i 0) = y := fun i hi => (Finset.mem_filter.mp (hmem i hi)).2
  refine ⟨fun i => candidate ip port (l.getD i 0), calcOldBucket env (candidate ip port (l.getD 0 0)),
    ⟨?id_ne, ?id_inj, fun _ _ => rfl, fun _ _ => rfl, hroute, ?old⟩, rfl⟩
  case id_ne =>
    intro i _ hid
    have := congrArg String.length hid
    simp [candidate] at this
  case id_inj =>
    intro i hi j hj hid
    have hij : l.getD i 0 = l.getD j 0 := Nat.repr_inj.mp ((String.append_right_inj _).mp hid)
    rw [List.getD_eq_getElem l 0 (by omega), List.getD_eq_getElem l 0 (by omega)] at hij
    have hnodup : l.Nodup := Finset.sort_nodup _ _
    exact hnodup.getElem_inj_iff.mp hij
  case old =>
    intro i hi
    refine calcOldBucket_eq_of_hash rfl ?_
    apply UInt64.toNat_inj.mp
    exact (hhash i hi).trans (hhash 0 (by norm_num)).symm

/-- **`MarkGood` loses an address.**  For every key, hash and group function and
a routable IP, 66 addresses of that IP, each added then marked good from an
empty book, leave the first out of the book and its old bucket overfull. -/
theorem markGood_loses_address (env : Env)
    (hroute : env.routabilityStrict = true → env.routable "1.2.3.4" = true) :
    ∃ a : ℕ → NetAddress, ∃ book, (∀ i < 66, (a i).ip = "1.2.3.4") ∧
      (∀ i < 66, ∀ j < 66, (a i).id = (a j).id → i = j) ∧
      empty.run env (crowdOps ⟨"src", "5.6.7.8", 26656⟩ a 66) = .ok book ∧
      book.hasAddress (a 0) = false ∧
      (book.bucketsOld (calcOldBucket env (a 0))).entries.length = oldBucketSize + 1 := by
  obtain ⟨a, o, hc, hip⟩ := exists_crowd "1.2.3.4" 26656 hroute
  obtain ⟨book, hrun, hlost, hfull⟩ := run_crowdOps_loses hc ⟨"src", "5.6.7.8", 26656⟩
  refine ⟨a, book, fun i hi => (hc.ip i hi).trans hip, hc.id_inj, hrun, hlost, ?_⟩
  rw [hc.old 0 (by norm_num)]
  exact hfull

/-- The loss under a strict routability check that passes every IP, with the
identity for the hash. -/
theorem markGood_loses_address_strict :
    ∃ a : ℕ → NetAddress, ∃ book, (∀ i < 66, (a i).ip = "1.2.3.4") ∧
      (∀ i < 66, ∀ j < 66, (a i).id = (a j).id → i = j) ∧
      empty.run ⟨"key", true, id, id, fun _ => true⟩ (crowdOps ⟨"src", "5.6.7.8", 26656⟩ a 66) = .ok book ∧
      book.hasAddress (a 0) = false ∧
      (book.bucketsOld (calcOldBucket ⟨"key", true, id, id, fun _ => true⟩ (a 0))).entries.length =
        oldBucketSize + 1 :=
  markGood_loses_address ⟨"key", true, id, id, fun _ => true⟩ fun _ => rfl

end AddrBook

end RpcNetwork.Tbft.Tp2p.Pex
