import Mathlib
import RpcNetwork.Eth.Downloader.Queue
import RpcNetwork.Lib.AListSum

/-!
# The download queue over live runs

What holds of the queue along the runs a downloader makes: every scheduled
header of a kind is queued once or held by one pending request, never both and
never twice, and no delivery panics.

## Design notes

`cancelAfterExpire_panics` shows what a cancel of an expired request does, so the
runs here cancel only the request still pending for its peer.  They also
schedule above the numbers still scheduled, as the downloader's `Schedule(chunk,
origin)` with a growing `origin` does, and hand `DeliverBodies` an uncle list for
each transaction list, as a bodies packet has.
-/

namespace RpcNetwork.Eth.Downloader

/-! ### The bits of a fetch result -/

namespace FetchResult

theorem and_body (n : ℕ) : n &&& 1 <<< bodyType = n % 2 :=
  Nat.and_one_is_mod n

theorem and_receipt (n : ℕ) : n &&& 1 <<< receiptType = n / 2 % 2 * 2 := by
  have h := Nat.and_two_pow n 1
  rw [Nat.testBit_eq_decide_div_mod_eq] at h
  rcases Nat.mod_two_eq_zero_or_one (n / 2) with h2 | h2 <;> simp_all [receiptType]

theorem done_body (f : FetchResult) : f.done bodyType = (f.pending % 2 == 0) := by
  rw [done, and_body]

theorem done_receipt (f : FetchResult) : f.done receiptType = (f.pending / 2 % 2 == 0) := by
  rw [done, and_receipt]
  cases h : f.pending / 2 % 2 == 0 <;> simp_all

theorem allDone_eq_false {f : FetchResult} {kind : ℕ} (h : f.done kind = false) : f.allDone = false := by
  simp only [done, allDone, beq_eq_false_iff_ne, ne_eq] at h ⊢
  intro h0
  rw [h0, Nat.zero_and] at h
  exact h rfl

theorem done_setBodyDone_receipt (f : FetchResult) :
    f.setBodyDone.done receiptType = f.done receiptType := by
  unfold setBodyDone
  split_ifs with h
  · rw [and_body] at h
    simp only [done_receipt]
    congr 1
    omega
  · rfl

theorem done_setReceiptsDone_body (f : FetchResult) :
    f.setReceiptsDone.done bodyType = f.done bodyType := by
  unfold setReceiptsDone
  split_ifs with h
  · rw [and_receipt] at h
    simp only [done_body]
    congr 1
    omega
  · rfl

end FetchResult

/-- The other kind of fetch behind a header. -/
def Kind.other : Kind → Kind
  | .body => .receipt
  | .receipt => .body

/-! ### The result store -/

namespace ResultStore

variable {r r' r'' : ResultStore} {n : ℕ}

/-- Every header of `hs` has its result in the store, with its `kind` part still
outstanding. -/
def Slotted (r : ResultStore) (kind : Kind) (hs : List Header) : Prop :=
  ∀ h ∈ hs, ∃ f, r.resultOffset ≤ h.number ∧ r.items[h.number - r.resultOffset]? = some (some f) ∧
    f.done kind.type = false

/-- The results below the cached `indexIncomplete` are complete. -/
def CacheValid (r : ResultStore) : Prop :=
  ∀ j < r.indexIncomplete, ∃ f, r.items[j]? = some (some f) ∧ f.allDone = true

/-- `r'` keeps every result of `r` where it was, with the same offset and count. -/
structure Extends (r r' : ResultStore) : Prop where
  resultOffset_eq : r'.resultOffset = r.resultOffset
  indexIncomplete_eq : r'.indexIncomplete = r.indexIncomplete
  items_some : ∀ (j : ℕ) (f : FetchResult), r.items[j]? = some (some f) → r'.items[j]? = some (some f)

theorem Extends.refl (r : ResultStore) : Extends r r :=
  ⟨rfl, rfl, fun _ _ h => h⟩

theorem Extends.trans (h₁ : Extends r r') (h₂ : Extends r' r'') : Extends r r'' :=
  ⟨h₂.resultOffset_eq.trans h₁.resultOffset_eq, h₂.indexIncomplete_eq.trans h₁.indexIncomplete_eq,
    fun j f h => h₂.items_some j f (h₁.items_some j f h)⟩

theorem Slotted.of_extends {kind : Kind} {hs : List Header} (hx : Extends r r') (h : r.Slotted kind hs) :
    r'.Slotted kind hs := by
  intro x hx'
  obtain ⟨f, ho, hf, hd⟩ := h x hx'
  exact ⟨f, hx.resultOffset_eq ▸ ho, by rw [hx.resultOffset_eq]; exact hx.items_some _ _ hf, hd⟩

theorem CacheValid.of_extends (hx : Extends r r') (h : r.CacheValid) : r'.CacheValid := by
  intro j hj
  obtain ⟨f, hf, hd⟩ := h j (hx.indexIncomplete_eq ▸ hj)
  exact ⟨f, hx.items_some j f hf, hd⟩

theorem Slotted.mono {kind : Kind} {hs hs' : List Header} (h : r.Slotted kind hs) (hsub : ∀ x ∈ hs', x ∈ hs) :
    r.Slotted kind hs' :=
  fun x hx => h x (hsub x hx)

theorem Slotted.append {kind : Kind} {hs hs' : List Header} (h : r.Slotted kind hs) (h' : r.Slotted kind hs') :
    r.Slotted kind (hs ++ hs') := by
  intro x hx
  rcases List.mem_append.mp hx with hx | hx
  · exact h x hx
  · exact h' x hx

/-- A header inside the store finds its slot. -/
theorem getFetchResult_of_lt (ho : r.resultOffset ≤ n) (hl : n - r.resultOffset < r.items.length) :
    r.getFetchResult n = ⟨r.items[n - r.resultOffset]?.join, ((n - r.resultOffset : ℕ) : ℤ), false,
      decide (((n - r.resultOffset : ℕ) : ℤ) ≥ r.throttleThreshold), none⟩ := by
  have hi : (n : ℤ) - r.resultOffset = ((n - r.resultOffset : ℕ) : ℤ) := by omega
  simp only [getFetchResult, hi]
  rw [if_neg (by omega), if_neg (by simp), Int.toNat_natCast]
  simp

theorem getDeliverySlot_of_slot {f : FetchResult} (ho : r.resultOffset ≤ n)
    (hf : r.items[n - r.resultOffset]? = some (some f)) : r.getDeliverySlot n = (some f, false, none) := by
  have hl : n - r.resultOffset < r.items.length := by
    by_contra hl
    rw [List.getElem?_eq_none (by omega)] at hf
    cases hf
  simp [getDeliverySlot, getFetchResult_of_lt ho hl, hf]

/-- A lookup that is neither stale nor an error lies inside the store. -/
theorem bounds_of_getFetchResult (he : (r.getFetchResult n).err = none)
    (hs : (r.getFetchResult n).stale = false) : r.resultOffset ≤ n ∧ n - r.resultOffset < r.items.length := by
  unfold getFetchResult at he hs
  dsimp only at he hs
  split_ifs at he hs with h1 h2
  · simp only [h2] at hs
    cases hs
  · simp only [decide_eq_true_eq] at h2
    omega

theorem addFetch_extends (header : Header) (fastSync : Bool) : Extends r (r.addFetch header fastSync).2 := by
  unfold addFetch
  dsimp only
  split
  · exact Extends.refl r
  · split
    · exact Extends.refl r
    · rename_i hflags _ hnone
      refine ⟨rfl, rfl, fun j f hf => ?_⟩
      simp only [Bool.or_eq_true, Option.isSome_iff_ne_none, not_or, ne_eq, not_not,
        Bool.not_eq_true] at hflags
      obtain ⟨ho, hl⟩ := bounds_of_getFetchResult hflags.1.1 hflags.1.2
      rw [getFetchResult_of_lt ho hl] at hnone
      rw [getFetchResult_of_lt ho hl, List.getElem?_set]
      dsimp only at hnone ⊢
      rw [Int.toNat_natCast]
      split_ifs with hj
      · -- the slot written was empty
        subst hj
        simp [hf] at hnone
      · exact hf

/-- Past its early return `AddFetch` hands out the result at the header's slot. -/
theorem addFetch_item {header : Header} {fastSync : Bool} {item : Option FetchResult}
    (h : r.addFetch header fastSync = ((false, false, item, none), r')) :
    ∃ f, item = some f ∧ r.resultOffset ≤ header.number ∧
      r'.items[header.number - r.resultOffset]? = some (some f) := by
  unfold addFetch at h
  dsimp only at h
  split at h
  · rename_i hflags
    simp only [Prod.mk.injEq] at h
    obtain ⟨⟨hs, ht, -, he⟩, -⟩ := h
    simp [hs, ht, he] at hflags
  · rename_i hflags
    simp only [Bool.or_eq_true, Option.isSome_iff_ne_none, not_or, ne_eq, not_not,
      Bool.not_eq_true] at hflags
    obtain ⟨ho, hl⟩ := bounds_of_getFetchResult hflags.1.1 hflags.1.2
    rw [getFetchResult_of_lt ho hl] at h
    dsimp only at h
    split at h
    · rename_i f hf
      simp only [Prod.mk.injEq] at h
      obtain ⟨⟨-, -, rfl, -⟩, rfl⟩ := h
      refine ⟨f, rfl, ho, ?_⟩
      rw [Option.join_eq_some_iff] at hf
      exact hf
    · simp only [Prod.mk.injEq] at h
      obtain ⟨⟨-, -, rfl, -⟩, rfl⟩ := h
      refine ⟨_, rfl, ho, ?_⟩
      rw [Int.toNat_natCast, List.getElem?_set_self hl]

/-! #### Deliveries -/

/-- `r'` is `r` with the results at the slots of `hs` advanced in their `kind`
part: the other kind's part, and every other slot, are as they were. -/
structure Fills (kind : Kind) (hs : List Header) (r r' : ResultStore) : Prop where
  resultOffset_eq : r'.resultOffset = r.resultOffset
  indexIncomplete_eq : r'.indexIncomplete = r.indexIncomplete
  items : ∀ j : ℕ, r'.items[j]? = r.items[j]? ∨ ∃ h ∈ hs, r.resultOffset ≤ h.number ∧
    j = h.number - r.resultOffset ∧
    ∃ f f', r.items[j]? = some (some f) ∧ r'.items[j]? = some (some f') ∧ f.done kind.type = false ∧
      f'.done kind.other.type = f.done kind.other.type

theorem Fills.refl (kind : Kind) (hs : List Header) (r : ResultStore) : Fills kind hs r r :=
  ⟨rfl, rfl, fun _ => .inl rfl⟩

theorem Fills.trans {kind : Kind} {hs₁ hs₂ : List Header} (h₁ : Fills kind hs₁ r r')
    (h₂ : Fills kind hs₂ r' r'') : Fills kind (hs₁ ++ hs₂) r r'' := by
  refine ⟨h₂.resultOffset_eq.trans h₁.resultOffset_eq, h₂.indexIncomplete_eq.trans h₁.indexIncomplete_eq,
    fun j => ?_⟩
  rcases h₂.items j with e₂ | ⟨h, hh, ho, hj, f', f'', h', h'', hd₂, hk₂⟩
  · rcases h₁.items j with e₁ | ⟨h, hh, ho, hj, f, f', hf, hf', hd, hk₁⟩
    · exact .inl (e₂.trans e₁)
    · exact .inr ⟨h, List.mem_append_left _ hh, ho, hj, f, f', hf, e₂.trans hf', hd, hk₁⟩
  · rw [h₁.resultOffset_eq] at hj ho
    rcases h₁.items j with e₁ | ⟨h₀, hh₀, ho₀, hj₀, f, f₁, hf, hf₁, hd, hk₁⟩
    · -- only the second step touched the slot
      rw [e₁] at h'
      exact .inr ⟨h, List.mem_append_right _ hh, ho, hj, f', f'', h', h'', hd₂, hk₂⟩
    · rw [hf₁] at h'
      cases h'
      exact .inr ⟨h₀, List.mem_append_left _ hh₀, ho₀, hj₀, f, f'', hf, h'', hd, hk₂.trans hk₁⟩

/-- Writing back a result whose `kind` part was outstanding, the other part kept. -/
theorem fills_store {kind : Kind} {h : Header} {f f' : FetchResult} (ho : r.resultOffset ≤ h.number)
    (hf : r.items[h.number - r.resultOffset]? = some (some f)) (hd : f.done kind.type = false)
    (hk : f'.done kind.other.type = f.done kind.other.type) : Fills kind [h] r (r.store h.number f') := by
  have hl : h.number - r.resultOffset < r.items.length := by
    by_contra hl
    rw [List.getElem?_eq_none (by omega)] at hf
    cases hf
  refine ⟨rfl, rfl, fun j => ?_⟩
  by_cases hj : j = h.number - r.resultOffset
  · subst hj
    refine .inr ⟨h, List.mem_singleton_self h, ho, rfl, f, f', hf, ?_, hd, hk⟩
    exact List.getElem?_set_self hl
  · left
    exact List.getElem?_set_ne (Ne.symm hj)

/-- Writing back one header's result leaves the slots of headers with other numbers. -/
theorem Slotted.store_ne {kind : Kind} {hs : List Header} {h : Header} (f' : FetchResult)
    (ho : r.resultOffset ≤ h.number) (hdist : ∀ x ∈ hs, x.number ≠ h.number) (hS : r.Slotted kind hs) :
    (r.store h.number f').Slotted kind hs := by
  intro x hx
  obtain ⟨f, hox, hf, hd⟩ := hS x hx
  refine ⟨f, hox, ?_, hd⟩
  have hne : h.number - r.resultOffset ≠ x.number - r.resultOffset := by
    have := hdist x hx
    omega
  exact (List.getElem?_set_ne hne).trans hf

/-- The pending headers of the kind delivered, at other slots, keep their results. -/
theorem Slotted.of_fills {kind : Kind} {hs others : List Header} (hF : Fills kind hs r r')
    (hdist : ∀ x ∈ others, ∀ h ∈ hs, x.number ≠ h.number) (hS : r.Slotted kind others) :
    r'.Slotted kind others := by
  intro x hx
  obtain ⟨f, ho, hf, hd⟩ := hS x hx
  refine ⟨f, hF.resultOffset_eq ▸ ho, ?_, hd⟩
  rw [hF.resultOffset_eq]
  rcases hF.items (x.number - r.resultOffset) with e | ⟨h, hh, hle, hj, -⟩
  · rw [e, hf]
  · -- two headers above the offset share a slot only with their number
    exact absurd (by omega) (hdist x hx h hh)

/-- The other kind's pending headers keep their results' outstanding parts. -/
theorem Slotted.of_fills_other {kind : Kind} {hs others : List Header} (hF : Fills kind hs r r')
    (hS : r.Slotted kind.other others) : r'.Slotted kind.other others := by
  intro x hx
  obtain ⟨f, ho, hf, hd⟩ := hS x hx
  rw [hF.resultOffset_eq]
  rcases hF.items (x.number - r.resultOffset) with e | ⟨h, -, -, -, f₀, f', h₀, h', -, hk⟩
  · exact ⟨f, ho, by rw [e, hf], hd⟩
  · rw [hf] at h₀
    cases h₀
    exact ⟨f', ho, h', hk.trans hd⟩

theorem CacheValid.of_fills {kind : Kind} {hs : List Header} (hF : Fills kind hs r r') (hC : r.CacheValid) :
    r'.CacheValid := by
  intro j hj
  obtain ⟨f, hf, hd⟩ := hC j (hF.indexIncomplete_eq ▸ hj)
  rcases hF.items j with e | ⟨-, -, -, -, f₀, -, h₀, -, hd₀, -⟩
  · exact ⟨f, by rw [e, hf], hd⟩
  · -- a result with a part outstanding is not complete
    rw [hf] at h₀
    cases h₀
    rw [FetchResult.allDone_eq_false hd₀] at hd
    cases hd

/-! #### Handing out completed results -/

theorem countFrom_allDone {items : List (Option FetchResult)} {j : ℕ} (hj : j < countFrom items) :
    ∃ f, items[j]? = some (some f) ∧ f.allDone = true := by
  induction items generalizing j with
  | nil => simp [countFrom] at hj
  | cons x items ih =>
    rcases x with _ | f
    · simp [countFrom] at hj
    · simp only [countFrom] at hj
      split_ifs at hj with hf
      · cases j with
        | zero => exact ⟨f, rfl, hf⟩
        | succ j => exact ih (by omega)
      · simp at hj

/-- Everything `countCompleted` counts is complete, when the cache is right. -/
theorem countCompleted_allDone (hC : r.CacheValid) {j : ℕ} (hj : j < r.countCompleted.1) :
    ∃ f, r.items[j]? = some (some f) ∧ f.allDone = true := by
  by_cases hi : j < r.indexIncomplete
  · exact hC j hi
  · have hj' : j - r.indexIncomplete < countFrom (r.items.drop r.indexIncomplete) := by
      simp only [countCompleted] at hj
      omega
    obtain ⟨f, hf, hd⟩ := countFrom_allDone hj'
    rw [List.getElem?_drop, Nat.add_sub_cancel' (by omega)] at hf
    exact ⟨f, hf, hd⟩

theorem getCompleted_snd (limit : ℕ) : (r.getCompleted limit).2 =
    let m := if limit > r.countCompleted.1 then r.countCompleted.1 else limit
    { items := r.items.drop m ++ List.replicate m none
      resultOffset := r.resultOffset + m
      indexIncomplete := r.countCompleted.1 - m
      throttleThreshold := r.throttleThreshold } := rfl

theorem Slotted.getCompleted {kind : Kind} {hs : List Header} (hC : r.CacheValid) (hS : r.Slotted kind hs)
    (limit : ℕ) : (r.getCompleted limit).2.Slotted kind hs := by
  rw [getCompleted_snd]
  intro x hx
  obtain ⟨f, ho, hf, hd⟩ := hS x hx
  -- the result is incomplete, so it lies at or past everything counted
  have hc : r.countCompleted.1 ≤ x.number - r.resultOffset := by
    by_contra hlt
    obtain ⟨f', hf', hd'⟩ := countCompleted_allDone hC (Nat.lt_of_not_le hlt)
    rw [hf] at hf'
    cases hf'
    rw [FetchResult.allDone_eq_false hd] at hd'
    cases hd'
  have hl : x.number - r.resultOffset < r.items.length := by
    by_contra hl
    rw [List.getElem?_eq_none (by omega)] at hf
    cases hf
  dsimp only
  split_ifs with hm
  · refine ⟨f, by omega, ?_, hd⟩
    rw [List.getElem?_append_left (by simp; omega), List.getElem?_drop]
    rw [show r.countCompleted.1 + (x.number - (r.resultOffset + r.countCompleted.1)) =
      x.number - r.resultOffset by omega]
    exact hf
  · refine ⟨f, by omega, ?_, hd⟩
    rw [List.getElem?_append_left (by simp; omega), List.getElem?_drop]
    rw [show limit + (x.number - (r.resultOffset + limit)) = x.number - r.resultOffset by omega]
    exact hf

theorem CacheValid.getCompleted (hC : r.CacheValid) (limit : ℕ) : (r.getCompleted limit).2.CacheValid := by
  rw [getCompleted_snd]
  intro j hj
  dsimp only at hj ⊢
  have hm : (if limit > r.countCompleted.1 then r.countCompleted.1 else limit) ≤ r.countCompleted.1 := by
    split_ifs <;> omega
  generalize (if limit > r.countCompleted.1 then r.countCompleted.1 else limit) = m at hj hm ⊢
  obtain ⟨f, hf, hd⟩ := countCompleted_allDone hC (show m + j < r.countCompleted.1 by omega)
  refine ⟨f, ?_, hd⟩
  have hl : m + j < r.items.length := by
    by_contra hl
    rw [List.getElem?_eq_none (by omega)] at hf
    cases hf
  rw [List.getElem?_append_left (by simp; omega), List.getElem?_drop]
  exact hf

theorem extends_setThrottleThreshold (threshold : ℕ) : Extends r (r.setThrottleThreshold threshold).2 :=
  ⟨rfl, rfl, fun _ _ h => h⟩

end ResultStore

/-! ### The accounting of one kind -/

/-- The headers a task pool holds. -/
def scheduledIn (pool : AList fun _ : ℕ => Header) : List Header :=
  pool.entries.map fun e => e.2

/-- Each header is filed under its own hash. -/
def Keyed (pool : AList fun _ : ℕ => Header) : Prop :=
  ∀ e ∈ pool.entries, e.2.hash = e.1

section Pool

variable {pool : AList fun _ : ℕ => Header} {h : Header}

theorem Keyed.lookup (hk : Keyed pool) (hm : h ∈ scheduledIn pool) : pool.lookup h.hash = some h := by
  obtain ⟨e, he, rfl⟩ := List.mem_map.mp hm
  rw [hk e he]
  exact List.mem_dlookup pool.nodupKeys he

theorem Keyed.perm_erase (hk : Keyed pool) (hm : h ∈ scheduledIn pool) :
    (scheduledIn pool).Perm (h :: scheduledIn (pool.erase h.hash)) :=
  (AList.entries_perm_erase (hk.lookup hm)).map _

theorem scheduledIn_erase_sublist (a : ℕ) : (scheduledIn (pool.erase a)).Sublist (scheduledIn pool) :=
  (List.kerase_sublist a pool.entries).map _

theorem Keyed.erase (hk : Keyed pool) (a : ℕ) : Keyed (pool.erase a) :=
  fun e he => hk e ((List.kerase_sublist a pool.entries).subset he)

theorem scheduledIn_insert (hn : h.hash ∉ pool) : scheduledIn (pool.insert h.hash h) = h :: scheduledIn pool := by
  rw [scheduledIn, AList.entries_insert_of_notMem hn, List.map_cons]
  rfl

theorem Keyed.insert (hk : Keyed pool) (hn : h.hash ∉ pool) : Keyed (pool.insert h.hash h) := by
  intro e he
  rw [AList.entries_insert_of_notMem hn] at he
  rcases List.mem_cons.mp he with rfl | he
  · rfl
  · exact hk e he

end Pool

namespace Tasks

variable {t : Tasks}

/-- The headers of the pending requests. -/
def pending (t : Tasks) : List Header :=
  t.pendPool.entries.flatMap fun e => e.2.headers

/-- The headers queued or pending. -/
def inFlight (t : Tasks) : List Header :=
  t.taskQueue.map Prod.fst ++ t.pending

/-- The scheduled headers, those of `taskPool`. -/
def scheduled (t : Tasks) : List Header :=
  scheduledIn t.taskPool

/-- Every scheduled header is queued once or held by one pending request, and
nothing else is; the pool files headers by hash, no two of them share a
number, and each request is filed under its peer. -/
structure Accounted (t : Tasks) : Prop where
  perm : t.inFlight.Perm t.scheduled
  keyed : Keyed t.taskPool
  numbers : t.scheduled.Pairwise fun h h' => h.number ≠ h'.number
  peers : ∀ e ∈ t.pendPool.entries, e.2.peer = e.1

theorem pending_perm_erase {id : String} {request : FetchRequest} (hl : t.pendPool.lookup id = some request) :
    t.pending.Perm (request.headers ++ (t.pendPool.erase id).entries.flatMap fun e => e.2.headers) :=
  (AList.entries_perm_erase hl).flatMap_right _

theorem Accounted.inFlight_numbers (hA : t.Accounted) : t.inFlight.Pairwise fun h h' => h.number ≠ h'.number :=
  (hA.perm.pairwise_iff Ne.symm).mpr hA.numbers

/-- `cancel` of the request still pending for its peer keeps the accounting. -/
theorem Accounted.cancel {request : FetchRequest} (hA : t.Accounted)
    (hl : t.pendPool.lookup request.peer = some request) : (cancel request t).Accounted := by
  refine ⟨?_, hA.keyed, hA.numbers, fun e he => hA.peers e ((List.kerase_sublist _ _).subset he)⟩
  refine List.Perm.trans ?_ hA.perm
  simp only [inFlight, pending, Downloader.cancel, pushHeaders, Prque.map_fst_pushAll, List.append_assoc]
  exact (List.Perm.append_left _ (pending_perm_erase hl)).symm

theorem pending_cancel {request : FetchRequest} (hl : t.pendPool.lookup request.peer = some request) :
    ∀ x ∈ (Downloader.cancel request t).pending, x ∈ t.pending := fun _ hx =>
  (pending_perm_erase hl).mem_iff.mpr (List.mem_append_right _ hx)

theorem Accounted.peer_of_lookup {id : String} {request : FetchRequest} (hA : t.Accounted)
    (hl : t.pendPool.lookup id = some request) : request.peer = id :=
  hA.peers ⟨id, request⟩ (List.of_mem_dlookup hl)

/-- `Revoke` is the `cancel` of the peer's pending request. -/
theorem Accounted.revoke_eq (hA : t.Accounted) (peerID : String) :
    t.revoke peerID = match t.pendPool.lookup peerID with
      | some request => Downloader.cancel request t
      | none => t := by
  unfold Tasks.revoke
  cases hl : t.pendPool.lookup peerID with
  | none => rfl
  | some request => simp only [Downloader.cancel, hA.peer_of_lookup hl]

theorem Accounted.revoke (hA : t.Accounted) (peerID : String) :
    (t.revoke peerID).Accounted ∧ ∀ x ∈ (t.revoke peerID).pending, x ∈ t.pending := by
  rw [hA.revoke_eq]
  split
  · rename_i request hl
    rw [← hA.peer_of_lookup hl] at hl
    exact ⟨hA.cancel hl, pending_cancel hl⟩
  · exact ⟨hA, fun _ hx => hx⟩

/-- `expire`'s loop, from any pool that still holds the requests it has left to
visit, only cancels pending requests. -/
theorem Accounted.foldl_expireStep (now timeout : ℕ) (es : List (Σ _ : String, FetchRequest))
    (hnd : es.NodupKeys) (acc : List (String × ℕ) × Tasks) (hA : acc.2.Accounted)
    (hes : ∀ e ∈ es, acc.2.pendPool.lookup e.1 = some e.2) :
    (es.foldl (expireStep now timeout) acc).2.Accounted ∧
      ∀ x ∈ (es.foldl (expireStep now timeout) acc).2.pending, x ∈ acc.2.pending := by
  induction es generalizing acc with
  | nil => exact ⟨hA, fun _ hx => hx⟩
  | cons e es ih =>
    rw [List.nodupKeys_cons] at hnd
    have hl := hes e List.mem_cons_self
    -- the requests left keep their entries: their peers differ from `e`'s
    have hrest : ∀ e' ∈ es, (expireStep now timeout acc e).2.pendPool.lookup e'.1 = some e'.2 := by
      intro e' he'
      have hne : e'.1 ≠ e.1 := fun h => hnd.1 (h ▸ List.mem_keys_of_mem he')
      unfold expireStep
      split_ifs
      · exact (AList.lookup_erase_ne hne).trans (hes e' (List.mem_cons_of_mem _ he'))
      · exact hes e' (List.mem_cons_of_mem _ he')
    -- one round cancels `e` or does nothing
    have hstep : (expireStep now timeout acc e).2.Accounted ∧
        ∀ x ∈ (expireStep now timeout acc e).2.pending, x ∈ acc.2.pending := by
      unfold expireStep
      split_ifs
      · have hpeer := hA.peer_of_lookup hl
        rw [← hpeer] at hl ⊢
        exact ⟨hA.cancel hl, pending_cancel hl⟩
      · exact ⟨hA, fun _ hx => hx⟩
    obtain ⟨hA', hsub⟩ := ih hnd.2 _ hstep.1 hrest
    rw [List.foldl_cons]
    exact ⟨hA', fun x hx => hstep.2 x (hsub x hx)⟩

theorem Accounted.expire (hA : t.Accounted) (now timeout : ℕ) :
    (Downloader.expire now timeout t).2.Accounted ∧
      ∀ x ∈ (Downloader.expire now timeout t).2.pending, x ∈ t.pending :=
  hA.foldl_expireStep now timeout _ t.pendPool.nodupKeys ([], t) (fun _ he => List.mem_dlookup t.pendPool.nodupKeys he)

theorem scheduled_schedule (header : Header) :
    ∀ x ∈ (t.schedule header).scheduled, x = header ∨ x ∈ t.scheduled := by
  unfold Tasks.schedule
  split_ifs with hm
  · exact fun x hx => .inr hx
  · intro x hx
    rw [scheduled, scheduledIn_insert hm] at hx
    exact List.mem_cons.mp hx

theorem pending_schedule (header : Header) : (t.schedule header).pending = t.pending := by
  unfold Tasks.schedule
  split_ifs <;> rfl

/-- Scheduling a header numbered above everything scheduled keeps the accounting. -/
theorem Accounted.schedule (hA : t.Accounted) {header : Header}
    (hn : ∀ x ∈ t.scheduled, x.number < header.number) : (t.schedule header).Accounted := by
  unfold Tasks.schedule
  split_ifs with hm
  · exact hA
  · refine ⟨?_, hA.keyed.insert hm, ?_, hA.peers⟩
    · simp only [inFlight, scheduled, scheduledIn_insert hm, Prque.push, List.map_append, List.map_cons,
        List.map_nil, List.append_assoc, List.singleton_append]
      exact List.perm_middle.trans (hA.perm.cons header)
    · rw [scheduled, scheduledIn_insert hm, List.pairwise_cons]
      exact ⟨fun x hx => Nat.ne_of_gt (hn x hx), hA.numbers⟩

end Tasks

/-! ### Reservations -/

/-- What the loop of `reserveHeaders` keeps, over the requests `pending` before
it: every header it popped is in `send` or `skip` or dropped from the pool, each
`send` header has its result in the store with its part outstanding, and the
store only grows. -/
structure ReserveInv (kind : Kind) (pending : List Header) (r₀ : ResultStore) (s : Reservation) : Prop where
  perm : (s.taskQueue.map Prod.fst ++ s.skip ++ s.send ++ pending).Perm (scheduledIn s.taskPool)
  keyed : Keyed s.taskPool
  numbers : (scheduledIn s.taskPool).Pairwise fun h h' => h.number ≠ h'.number
  slotted : s.resultCache.Slotted kind (s.send ++ pending)
  grows : r₀.Extends s.resultCache

section Reserve

variable {kind : Kind} {pending : List Header} {r₀ : ResultStore} {s : Reservation}

/-- The entry `peek` shows, taken out of the queue. -/
theorem perm_popItem_map {q : List (Header × ℤ)} {e : Header × ℤ} (hp : Prque.peek q = some e)
    (rest : List Header) : (q.map Prod.fst ++ rest).Perm (e.1 :: ((Prque.popItem q).map Prod.fst ++ rest)) :=
  ((Prque.perm_popItem hp).map Prod.fst).append_right rest

theorem ReserveInv.mem_of_peek (hI : ReserveInv kind pending r₀ s) {e : Header × ℤ}
    (hp : Prque.peek s.taskQueue = some e) : e.1 ∈ scheduledIn s.taskPool :=
  hI.perm.subset (List.mem_append_left _ (List.mem_append_left _ (List.mem_append_left _
    (List.mem_map_of_mem (Prque.mem_of_peek hp)))))

/-- Dropping the header `peek` shows from the queue and the pool. -/
theorem ReserveInv.drop (hI : ReserveInv kind pending r₀ s) {e : Header × ℤ}
    (hp : Prque.peek s.taskQueue = some e) {rc : ResultStore} (hrc : s.resultCache.Extends rc) (b : Bool) :
    ReserveInv kind pending r₀
      { s with
        taskQueue := Prque.popItem s.taskQueue
        progress := b
        taskPool := s.taskPool.erase e.1.hash
        resultCache := rc } := by
  have hm := hI.mem_of_peek hp
  refine ⟨?_, hI.keyed.erase _, hI.numbers.sublist (scheduledIn_erase_sublist _),
    hI.slotted.of_extends hrc, hI.grows.trans hrc⟩
  have h := (perm_popItem_map hp (s.skip ++ s.send ++ pending)).symm.trans
    (List.Perm.trans (by simp only [List.append_assoc]; rfl) (hI.perm.trans (hI.keyed.perm_erase hm)))
  simpa only [List.append_assoc] using h.cons_inv

/-- Moving the header `peek` shows from the queue to `skip` or to `send`. -/
theorem ReserveInv.perm_move (hI : ReserveInv kind pending r₀ s) {e : Header × ℤ}
    (hp : Prque.peek s.taskQueue = some e) :
    ((Prque.popItem s.taskQueue).map Prod.fst ++ (s.skip ++ [e.1]) ++ s.send ++ pending).Perm
        (scheduledIn s.taskPool) ∧
      ((Prque.popItem s.taskQueue).map Prod.fst ++ s.skip ++ (s.send ++ [e.1]) ++ pending).Perm
        (scheduledIn s.taskPool) := by
  have h := (perm_popItem_map hp (s.skip ++ s.send ++ pending)).symm.trans
    (List.Perm.trans (by simp only [List.append_assoc]; rfl) hI.perm)
  constructor
  · refine List.Perm.trans (List.perm_iff_count.mpr fun a => ?_) h
    simp only [List.count_append, List.count_cons, List.count_nil]
    omega
  · refine List.Perm.trans (List.perm_iff_count.mpr fun a => ?_) h
    simp only [List.count_append, List.count_cons, List.count_nil]
    omega

theorem ReserveInv.loop (p : PeerConnection) (count : ℕ) (fastSync : Bool) (fuel : ℕ)
    (hI : ReserveInv kind pending r₀ s) :
    ReserveInv kind pending r₀ (reserveLoop p count kind.type fastSync fuel s) := by
  induction fuel generalizing s with
  | zero => exact hI
  | succ fuel ih =>
    unfold reserveLoop
    cases hp : Prque.peek s.taskQueue with
    | none => exact hI
    | some e =>
      obtain ⟨header, prio⟩ := e
      dsimp only
      by_cases hc : s.send.length < count
      · rw [if_pos hc]
        rcases hA : s.resultCache.addFetch header fastSync with ⟨⟨stale, throttle, item, err⟩, rc⟩
        have hrc : s.resultCache.Extends rc := by
          have := ResultStore.addFetch_extends (r := s.resultCache) header fastSync
          rwa [hA] at this
        -- a round that stops leaves the queue as it was
        have hstop : ∀ b, ReserveInv kind pending r₀ { s with throttled := b, resultCache := rc } :=
          fun _ => ⟨hI.perm, hI.keyed, hI.numbers, hI.slotted.of_extends hrc, hI.grows.trans hrc⟩
        cases stale
        · cases throttle
          · cases err
            · obtain ⟨f, rfl, ho, hf⟩ := ResultStore.addFetch_item hA
              simp only [Bool.false_eq_true, ↓reduceIte, Option.isSome_none]
              by_cases hd : f.done kind.type = true
              · -- nothing left to fetch of this kind
                rw [if_pos hd]
                exact ih (hI.drop hp hrc true)
              · rw [if_neg hd]
                by_cases hl : p.lacks header.hash = true
                · rw [if_pos hl]
                  exact ih ⟨(hI.perm_move hp).1, hI.keyed, hI.numbers, hI.slotted.of_extends hrc,
                    hI.grows.trans hrc⟩
                · rw [if_neg hl]
                  refine ih ⟨(hI.perm_move hp).2, hI.keyed, hI.numbers, ?_, hI.grows.trans hrc⟩
                  -- the header joins `send` with its result at its slot
                  have hslot : rc.Slotted kind [header] := by
                    intro x hx
                    rw [List.mem_singleton.mp hx, hrc.resultOffset_eq]
                    exact ⟨f, ho, hf, by simpa using hd⟩
                  refine ((hI.slotted.of_extends hrc).append hslot).mono fun x hx => ?_
                  simp only [List.mem_append, List.mem_singleton] at hx ⊢
                  tauto
            · exact hstop s.throttled
          · exact hstop _
        · -- already delivered upstream
          exact ih (hI.drop hp hrc true)
      · rw [if_neg hc]
        exact hI

/-- `reserveHeaders` keeps the accounting, gives every header it hands out its
result in the store, and only grows the store. -/
theorem Tasks.Accounted.reserveHeaders {t : Tasks} {rc : ResultStore} (hA : t.Accounted)
    (hS : rc.Slotted kind t.pending) (p : PeerConnection) (count now : ℕ) (fastSync : Bool) :
    (Downloader.reserveHeaders p count now t rc kind.type fastSync).2.1.Accounted ∧
      (Downloader.reserveHeaders p count now t rc kind.type fastSync).2.2.Slotted kind
        (Downloader.reserveHeaders p count now t rc kind.type fastSync).2.1.pending ∧
      rc.Extends (Downloader.reserveHeaders p count now t rc kind.type fastSync).2.2 := by
  unfold Downloader.reserveHeaders
  by_cases he : t.taskQueue.isEmpty = true
  · rw [if_pos he]
    exact ⟨hA, hS, .refl rc⟩
  rw [if_neg he]
  by_cases hp : p.id ∈ t.pendPool
  · rw [if_pos hp]
    exact ⟨hA, hS, .refl rc⟩
  rw [if_neg hp]
  have h₀ : ReserveInv kind t.pending rc ⟨t.taskPool, t.taskQueue, rc, [], [], false, false⟩ :=
    ⟨by simpa only [List.append_nil, Tasks.inFlight, Tasks.scheduled] using hA.perm, hA.keyed, hA.numbers,
      by simpa using hS, .refl rc⟩
  have hI := h₀.loop p count fastSync t.taskQueue.length
  generalize reserveLoop p count kind.type fastSync t.taskQueue.length _ = s at hI
  dsimp only
  -- the skipped headers are queued again
  have hperm : ((pushHeaders s.taskQueue s.skip).map Prod.fst ++ (s.send ++ t.pending)).Perm
      (scheduledIn s.taskPool) := by
    rw [pushHeaders, Prque.map_fst_pushAll]
    simpa only [List.append_assoc] using hI.perm
  by_cases hs : s.send.isEmpty = true
  · rw [if_pos hs]
    rw [List.isEmpty_iff] at hs
    rw [hs, List.nil_append] at hperm
    refine ⟨⟨hperm, hI.keyed, hI.numbers, hA.peers⟩, ?_, hI.grows⟩
    have h := hI.slotted
    rw [hs, List.nil_append] at h
    exact h
  · rw [if_neg hs]
    -- the new request is the only one filed under its peer
    have hpend : (({ t with taskPool := s.taskPool, taskQueue := pushHeaders s.taskQueue s.skip } : Tasks).pendPool.insert
        p.id ⟨p.id, s.send, now⟩).entries = ⟨p.id, ⟨p.id, s.send, now⟩⟩ :: t.pendPool.entries :=
      AList.entries_insert_of_notMem hp
    refine ⟨⟨?_, hI.keyed, hI.numbers, ?_⟩, ?_, hI.grows⟩
    · simpa only [Tasks.inFlight, Tasks.pending, Tasks.scheduled, hpend, List.flatMap_cons] using hperm
    · intro e he
      simp only [hpend, List.mem_cons] at he
      rcases he with rfl | he
      · rfl
      · exact hA.peers e he
    · simpa only [Tasks.pending, hpend, List.flatMap_cons] using hI.slotted

end Reserve

/-! ### Deliveries -/

section Deliver

variable {kind : Kind}

theorem validatePrefix_bound {validate : ℕ → Header → Except Panic (Option QueueError)} {results : ℕ} :
    ∀ {i i' : ℕ} {hs : List Header} {failure : Option QueueError},
      validatePrefix validate results i hs = .ok (i', failure) → i' ≤ i + hs.length ∧ (i < i' → i' ≤ results)
  | i, i', [], failure, h => by
    simp only [validatePrefix, Except.pure_eq_ok, Prod.mk.injEq] at h
    omega
  | i, i', header :: hs, failure, h => by
    unfold validatePrefix at h
    split_ifs at h with hr
    · simp only [Except.pure_eq_ok, Prod.mk.injEq] at h
      omega
    · obtain ⟨v, -, hv⟩ := Except.bind_eq_ok.mp h
      split at hv
      · simp only [Except.pure_eq_ok, Prod.mk.injEq] at hv
        omega
      · have := validatePrefix_bound hv
        simp only [List.length_cons] at this ⊢
        omega

theorem validatePrefix_ok {validate : ℕ → Header → Except Panic (Option QueueError)} {results : ℕ}
    (hv : ∀ j header, j < results → ∃ v, validate j header = .ok v) :
    ∀ (i : ℕ) (hs : List Header), ∃ r, validatePrefix validate results i hs = .ok r
  | i, [] => ⟨_, rfl⟩
  | i, header :: hs => by
    unfold validatePrefix
    split_ifs with hr
    · exact ⟨_, rfl⟩
    · obtain ⟨v, hv'⟩ := hv i header (by omega)
      refine Except.exists_bind_eq_ok ⟨v, hv'⟩ fun v _ => ?_
      split
      · exact ⟨_, rfl⟩
      · exact validatePrefix_ok hv (i + 1) hs

/-- Erasing the delivered headers' hashes takes exactly them out of the pool. -/
theorem Keyed.perm_foldl_erase {pool : AList fun _ : ℕ => Header} (hk : Keyed pool) :
    ∀ {hs l : List Header}, (hs ++ l).Perm (scheduledIn pool) →
      l.Perm (scheduledIn (hs.foldl (fun p h => p.erase h.hash) pool)) ∧
        Keyed (hs.foldl (fun p h => p.erase h.hash) pool) ∧
        (scheduledIn (hs.foldl (fun p h => p.erase h.hash) pool)).Sublist (scheduledIn pool)
  | [], l, hp => ⟨hp, hk, .refl _⟩
  | h :: hs, l, hp => by
    have hm : h ∈ scheduledIn pool := hp.subset List.mem_cons_self
    have hp' : (hs ++ l).Perm (scheduledIn (pool.erase h.hash)) := (hp.trans (hk.perm_erase hm)).cons_inv
    obtain ⟨hl, hk', hsub⟩ := (hk.erase h.hash).perm_foldl_erase hp'
    exact ⟨hl, hk', hsub.trans (scheduledIn_erase_sublist _)⟩

/-- `deliver`'s second loop fills the results of the headers it is given, one
after the other, and deletes them from the pool. -/
theorem acceptLoop_fills {reconstruct : ℕ → FetchResult → Except Panic FetchResult}
    (hrec : ∀ i f f', reconstruct i f = .ok f' → f'.done kind.other.type = f.done kind.other.type) :
    ∀ {hs : List Header} {accepted : ℕ} {failure : Option QueueError} {pool : AList fun _ : ℕ => Header}
      {rc : ResultStore} {accepted' : ℕ} {failure' : Option QueueError}
      {pool' : AList fun _ : ℕ => Header} {rc' : ResultStore},
      rc.Slotted kind hs → hs.Pairwise (fun h h' => h.number ≠ h'.number) →
      acceptLoop reconstruct hs accepted failure pool rc = .ok (accepted', failure', pool', rc') →
      accepted' = accepted + hs.length ∧ pool' = hs.foldl (fun p h => p.erase h.hash) pool ∧
        ResultStore.Fills kind hs rc rc'
  | [], _, _, _, _, _, _, _, _, _, _, h => by
    simp only [acceptLoop, Except.pure_eq_ok, Prod.mk.injEq] at h
    obtain ⟨rfl, -, rfl, rfl⟩ := h
    exact ⟨rfl, rfl, .refl _ _ _⟩
  | header :: hs, accepted, failure, pool, rc, _, _, _, _, hS, hnum, h => by
    obtain ⟨f, ho, hf, hd⟩ := hS header List.mem_cons_self
    rw [acceptLoop, ResultStore.getDeliverySlot_of_slot ho hf] at h
    dsimp only at h
    obtain ⟨f', hf', hrest⟩ := Except.bind_eq_ok.mp h
    rw [pure_bind] at hrest
    rw [List.pairwise_cons] at hnum
    -- the header's slot is written, and the others' slots are not
    have hF := ResultStore.fills_store ho hf hd (hrec _ _ _ hf')
    have hS' := (hS.mono fun x hx => List.mem_cons_of_mem _ hx).store_ne f' ho
      (fun x hx => Ne.symm (hnum.1 x hx))
    obtain ⟨hacc, hpool, hF'⟩ := acceptLoop_fills hrec hS' hnum.2 hrest
    refine ⟨by rw [hacc, List.length_cons]; omega, hpool, ?_⟩
    simpa only [List.singleton_append] using hF.trans hF'

theorem acceptLoop_ok {reconstruct : ℕ → FetchResult → Except Panic FetchResult} :
    ∀ {hs : List Header} {accepted : ℕ} {failure : Option QueueError} {pool : AList fun _ : ℕ => Header}
      {rc : ResultStore}, rc.Slotted kind hs → hs.Pairwise (fun h h' => h.number ≠ h'.number) →
      (∀ j f, accepted ≤ j → j < accepted + hs.length → ∃ f', reconstruct j f = .ok f') →
      ∃ r, acceptLoop reconstruct hs accepted failure pool rc = .ok r
  | [], _, _, _, _, _, _, _ => ⟨_, rfl⟩
  | header :: hs, accepted, failure, pool, rc, hS, hnum, hrec => by
    obtain ⟨f, ho, hf, hd⟩ := hS header List.mem_cons_self
    obtain ⟨f', hf'⟩ := hrec accepted f le_rfl (by simp)
    rw [acceptLoop, ResultStore.getDeliverySlot_of_slot ho hf]
    dsimp only
    refine Except.exists_bind_eq_ok ⟨f', hf'⟩ fun f'' hf'' => ?_
    rw [hf', Except.ok.injEq] at hf''
    subst hf''
    rw [pure_bind]
    rw [List.pairwise_cons] at hnum
    have hS' := (hS.mono fun x hx => List.mem_cons_of_mem _ hx).store_ne f' ho
      (fun x hx => Ne.symm (hnum.1 x hx))
    exact acceptLoop_ok hS' hnum.2 fun j f hj hj' => hrec j f (by omega) (by simp; omega)

theorem Tasks.Accounted.request_numbers {t : Tasks} {id : String} {request : FetchRequest} (hA : t.Accounted)
    (hl : t.pendPool.lookup id = some request) :
    (request.headers ++ (t.pendPool.erase id).entries.flatMap fun e => e.2.headers).Pairwise
      fun h h' => h.number ≠ h'.number :=
  ((Tasks.pending_perm_erase hl).pairwise_iff Ne.symm).mp
    (hA.inFlight_numbers.sublist (List.sublist_append_right _ _))

/-- `deliver` keeps the accounting and the results of the headers still pending,
of either kind, and the cache of completed results. -/
theorem Tasks.Accounted.deliver {t t' : Tasks} {rc rc' : ResultStore} {other : List Header} {id : String}
    {results : ℕ} {validate : ℕ → Header → Except Panic (Option QueueError)}
    {reconstruct : ℕ → FetchResult → Except Panic FetchResult} {res : ℕ × Option QueueError}
    {lacking : List ℕ} (hA : t.Accounted) (hS : rc.Slotted kind t.pending)
    (hO : rc.Slotted kind.other other) (hC : rc.CacheValid)
    (hrec : ∀ i f f', reconstruct i f = .ok f' → f'.done kind.other.type = f.done kind.other.type)
    (h : Downloader.deliver id t rc results validate reconstruct = .ok (res, lacking, t', rc')) :
    t'.Accounted ∧ rc'.Slotted kind t'.pending ∧ rc'.Slotted kind.other other ∧ rc'.CacheValid ∧
      ∀ x ∈ t'.pending, x ∈ t.pending := by
  unfold Downloader.deliver at h
  cases hl : t.pendPool.lookup id with
  | none =>
    simp only [hl, Except.pure_eq_ok, Prod.mk.injEq] at h
    obtain ⟨-, -, rfl, rfl⟩ := h
    exact ⟨hA, hS, hO, hC, fun _ hx => hx⟩
  | some request =>
    simp only [hl] at h
    obtain ⟨⟨i, failure⟩, hv, h⟩ := Except.bind_eq_ok.mp h
    obtain ⟨⟨accepted, failure', pool', rc''⟩, ha, h⟩ := Except.bind_eq_ok.mp h
    simp only [Except.pure_eq_ok, Prod.mk.injEq] at h
    obtain ⟨-, -, rfl, rfl⟩ := h
    have hi : i ≤ request.headers.length := by
      have := (validatePrefix_bound hv).1
      omega
    have hnum := hA.request_numbers hl
    have hmem : ∀ x ∈ request.headers, x ∈ t.pending := fun x hx =>
      (Tasks.pending_perm_erase hl).mem_iff.mpr (List.mem_append_left _ hx)
    obtain ⟨hacc, rfl, hF⟩ := acceptLoop_fills hrec
      (hS.mono fun x hx => hmem x (List.mem_of_mem_take hx))
      ((List.pairwise_append.mp hnum).1.sublist (List.take_sublist _ _)) ha
    rw [List.length_take_of_le hi, Nat.zero_add] at hacc
    subst hacc
    -- the delivered headers leave the pool, the others go back to the queue
    have hperm : (request.headers.take accepted ++
        (t.taskQueue.map Prod.fst ++ (request.headers.drop accepted ++
          (t.pendPool.erase id).entries.flatMap fun e => e.2.headers))).Perm (scheduledIn t.taskPool) := by
      refine List.Perm.trans ?_ ((List.Perm.append_left _ (Tasks.pending_perm_erase hl).symm).trans hA.perm)
      conv_rhs => rw [← List.take_append_drop accepted request.headers]
      exact List.perm_iff_count.mpr fun a => by simp only [List.count_append]; omega
    obtain ⟨hp', hk', hsub⟩ := hA.keyed.perm_foldl_erase hperm
    refine ⟨⟨?_, hk', hA.numbers.sublist hsub, fun e he => hA.peers e ((List.kerase_sublist _ _).subset he)⟩,
      ?_, hO.of_fills_other hF, hC.of_fills hF, fun x hx => (Tasks.pending_perm_erase hl).mem_iff.mpr
        (List.mem_append_right _ hx)⟩
    · simpa only [Tasks.inFlight, Tasks.pending, Tasks.scheduled, pushHeaders, Prque.map_fst_pushAll,
        List.append_assoc] using hp'
    · -- the requests still pending hold other numbers than the delivered headers
      refine (hS.mono fun x hx => (Tasks.pending_perm_erase hl).mem_iff.mpr (List.mem_append_right _ hx)).of_fills hF
        fun x hx h' hh' => ?_
      exact Ne.symm ((List.pairwise_append.mp hnum).2.2 h' (List.mem_of_mem_take hh') x hx)

/-- `deliver` panics neither in its validation nor in filling results, when every
pending header has its result in the store. -/
theorem Tasks.Accounted.deliver_ok {t : Tasks} {rc : ResultStore} {id : String} {results : ℕ}
    {validate : ℕ → Header → Except Panic (Option QueueError)}
    {reconstruct : ℕ → FetchResult → Except Panic FetchResult} (hA : t.Accounted)
    (hS : rc.Slotted kind t.pending) (hv : ∀ j header, j < results → ∃ v, validate j header = .ok v)
    (hrec : ∀ j f, j < results → ∃ f', reconstruct j f = .ok f') :
    ∃ r, Downloader.deliver id t rc results validate reconstruct = .ok r := by
  unfold Downloader.deliver
  cases hl : t.pendPool.lookup id with
  | none => exact ⟨_, rfl⟩
  | some request =>
    dsimp only
    obtain ⟨⟨i, failure⟩, hi⟩ := validatePrefix_ok hv 0 request.headers
    refine Except.exists_bind_eq_ok ⟨_, hi⟩ fun ⟨i', failure'⟩ hi' => ?_
    rw [hi, Except.ok.injEq, Prod.mk.injEq] at hi'
    obtain ⟨rfl, rfl⟩ := hi'
    -- the headers filled are among those validated, below `results`
    have hir : i = 0 ∨ i ≤ results := by
      rcases Nat.eq_zero_or_pos i with h0 | hpos
      · exact .inl h0
      · exact .inr ((validatePrefix_bound hi).2 hpos)
    have hnum := hA.request_numbers hl
    obtain ⟨a, ha⟩ : ∃ a, acceptLoop reconstruct (request.headers.take i) 0 failure t.taskPool rc = .ok a :=
      acceptLoop_ok (hS.mono fun x hx => (Tasks.pending_perm_erase hl).mem_iff.mpr
        (List.mem_append_left _ (List.mem_of_mem_take hx)))
      ((List.pairwise_append.mp hnum).1.sublist (List.take_sublist _ _))
      fun j f _ hj => hrec j f (by rw [List.length_take] at hj; omega)
    exact Except.exists_bind_eq_ok ⟨a, ha⟩ fun _ _ => ⟨_, rfl⟩

end Deliver

/-! ### The queue -/

@[simp] theorem Kind.other_ne (k : Kind) : k.other ≠ k := by
  cases k <;> simp [Kind.other]

theorem Kind.eq_or_eq_other (k k' : Kind) : k' = k ∨ k' = k.other := by
  cases k <;> cases k' <;> simp [Kind.other]

namespace Queue

variable {q q' : Queue} {k : Kind} {t : Tasks} {rc : ResultStore}

@[simp] theorem tasks_setTasks (q : Queue) (k : Kind) (t : Tasks) : (q.setTasks k t).tasks k = t := by
  cases k <;> rfl

@[simp] theorem tasks_setTasks_other (q : Queue) (k : Kind) (t : Tasks) :
    (q.setTasks k t).tasks k.other = q.tasks k.other := by
  cases k <;> rfl

@[simp] theorem resultCache_setTasks (q : Queue) (k : Kind) (t : Tasks) :
    (q.setTasks k t).resultCache = q.resultCache := by
  cases k <;> rfl

@[simp] theorem tasks_with_resultCache (q : Queue) (rc : ResultStore) (k : Kind) :
    ({ q with resultCache := rc } : Queue).tasks k = q.tasks k := by
  cases k <;> rfl

/-- What holds of the queue along live runs: both kinds are accounted for, each
pending header has its result in the store with its part outstanding, and the
cached count of completed results is right. -/
structure Inv (q : Queue) : Prop where
  accounted : ∀ k, (q.tasks k).Accounted
  slotted : ∀ k, q.resultCache.Slotted k (q.tasks k).pending
  cacheValid : q.resultCache.CacheValid

/-- Replacing one kind's trackers and the store, the other kind's results kept. -/
theorem Inv.setTasks (hI : q.Inv) (hA : t.Accounted) (hS : rc.Slotted k t.pending)
    (hO : rc.Slotted k.other (q.tasks k.other).pending) (hC : rc.CacheValid) :
    Inv { q.setTasks k t with resultCache := rc } := by
  refine ⟨fun k' => ?_, fun k' => ?_, hC⟩ <;> rcases k.eq_or_eq_other k' with rfl | rfl <;>
    simp only [tasks_with_resultCache, tasks_setTasks, tasks_setTasks_other]
  · exact hA
  · exact hI.accounted k.other
  · exact hS
  · exact hO

/-- Replacing one kind's trackers over the same store. -/
theorem Inv.setTasks' (hI : q.Inv) (hA : t.Accounted) (hS : q.resultCache.Slotted k t.pending) :
    (q.setTasks k t).Inv := by
  refine ⟨fun k' => ?_, fun k' => ?_, ?_⟩ <;> try rcases k.eq_or_eq_other k' with rfl | rfl
  all_goals simp only [tasks_setTasks, tasks_setTasks_other, resultCache_setTasks]
  · exact hA
  · exact hI.accounted k.other
  · exact hS
  · exact hI.slotted k.other
  · exact hI.cacheValid

theorem Inv.headerHead (hI : q.Inv) (x : ℕ) : ({ q with headerHead := x } : Queue).Inv :=
  ⟨fun k => by cases k; exacts [hI.accounted .body, hI.accounted .receipt],
    fun k => by cases k; exacts [hI.slotted .body, hI.slotted .receipt], hI.cacheValid⟩

/-- `Schedule` of one header into one kind's trackers. -/
theorem Inv.scheduleKind (hI : q.Inv) (k : Kind) {header : Header}
    (hn : ∀ x ∈ (q.tasks k).scheduled, x.number < header.number) :
    (q.setTasks k ((q.tasks k).schedule header)).Inv :=
  hI.setTasks' ((hI.accounted k).schedule hn) (by rw [Tasks.pending_schedule]; exact hI.slotted k)

/-- Scheduling a header keeps everything scheduled below the next number. -/
theorem scheduled_scheduleKind_lt {from' : ℕ} {header : Header} (hh : header.number = from')
    (hn : ∀ k, ∀ x ∈ (q.tasks k).scheduled, x.number < from') (k k' : Kind) :
    ∀ x ∈ ((q.setTasks k ((q.tasks k).schedule header)).tasks k').scheduled, x.number < from' + 1 := by
  intro x hx
  rcases k.eq_or_eq_other k' with rfl | rfl
  · rw [tasks_setTasks] at hx
    rcases Tasks.scheduled_schedule header x hx with rfl | hx
    · omega
    · exact Nat.lt_succ_of_lt (hn _ x hx)
  · rw [tasks_setTasks_other] at hx
    exact Nat.lt_succ_of_lt (hn _ x hx)

/-- `Schedule` from a number above everything scheduled keeps the invariant. -/
theorem Inv.scheduleLoop :
    ∀ (headers : List Header) (from' : ℕ) {q : Queue}, q.Inv →
      (∀ k, ∀ x ∈ (q.tasks k).scheduled, x.number < from') → (Queue.scheduleLoop headers from' q).2.Inv
  | [], _, _, hI, _ => hI
  | header :: headers, from', q, hI, hn => by
    unfold Queue.scheduleLoop
    by_cases h1 : header.number ≠ from'
    · rw [if_pos h1]
      exact hI
    rw [if_neg h1]
    by_cases h2 : q.headerHead ≠ 0 ∧ q.headerHead ≠ header.parentHash
    · rw [if_pos h2]
      exact hI
    rw [if_neg h2]
    rw [ne_eq, not_not] at h1
    -- the block body is always scheduled
    have hI₁ := hI.scheduleKind .body fun x hx => by rw [h1]; exact hn .body x hx
    have hn₁ := scheduled_scheduleKind_lt h1 hn .body
    dsimp only
    split
    · -- and the receipts in fast sync, unless there are none
      have hI₂ := hI₁.scheduleKind .receipt fun x hx => by rw [h1]; exact hn .receipt x hx
      have hn₂ : ∀ k, ∀ x ∈ (((q.setTasks .body ((q.tasks .body).schedule header)).setTasks .receipt
          (((q.setTasks .body ((q.tasks .body).schedule header)).tasks .receipt).schedule header)).tasks k).scheduled,
          x.number < from' + 1 := by
        intro k x hx
        rcases Kind.eq_or_eq_other .receipt k with rfl | rfl
        · rw [tasks_setTasks] at hx
          rcases Tasks.scheduled_schedule header x hx with rfl | hx
          · omega
          · exact Nat.lt_succ_of_lt (hn .receipt x hx)
        · exact hn₁ .body x hx
      exact Inv.scheduleLoop headers (from' + 1) (hI₂.headerHead header.hash) hn₂
    · exact Inv.scheduleLoop headers (from' + 1) (hI₁.headerHead header.hash) hn₁

theorem Inv.reserve (hI : q.Inv) (k : Kind) (p : PeerConnection) (count now : ℕ) :
    (q.reserve k p count now).2.Inv := by
  obtain ⟨hA, hS, hx⟩ := (hI.accounted k).reserveHeaders (hI.slotted k) p count now (q.mode == .fastSync)
  exact hI.setTasks hA hS ((hI.slotted k.other).of_extends hx) (hI.cacheValid.of_extends hx)

theorem Inv.cancelKind (hI : q.Inv) {request : FetchRequest}
    (hl : (q.tasks k).pendPool.lookup request.peer = some request) : (q.cancelKind k request).Inv :=
  hI.setTasks' ((hI.accounted k).cancel hl) ((hI.slotted k).mono (Tasks.pending_cancel hl))

theorem Inv.revoke (hI : q.Inv) (peerID : String) : (q.revoke peerID).Inv := by
  have h₁ := (hI.accounted .body).revoke peerID
  have hI₁ := hI.setTasks' (k := .body) h₁.1 ((hI.slotted .body).mono h₁.2)
  have h₂ := (hI₁.accounted .receipt).revoke peerID
  exact hI₁.setTasks' (k := .receipt) h₂.1 ((hI₁.slotted .receipt).mono h₂.2)

theorem Inv.expireKind (hI : q.Inv) (k : Kind) (now timeout : ℕ) : (q.expireKind k now timeout).2.Inv := by
  have h := (hI.accounted k).expire now timeout
  exact hI.setTasks' h.1 ((hI.slotted k).mono h.2)

/-- A delivery whose `reconstruct` leaves the other kind's part alone keeps the
invariant. -/
theorem Inv.deliverKind (hI : q.Inv) {id : String} {results : ℕ}
    {validate : ℕ → Header → Except Panic (Option QueueError)}
    {reconstruct : ℕ → FetchResult → Except Panic FetchResult}
    (hrec : ∀ i f f', reconstruct i f = .ok f' → f'.done k.other.type = f.done k.other.type)
    {r : ℕ × Option QueueError} {lacking : List ℕ}
    (h : q.deliverKind k id results validate reconstruct = .ok (r, lacking, q')) : q'.Inv := by
  unfold Queue.deliverKind at h
  obtain ⟨⟨r₁, lacking₁, t, rc⟩, hd, h⟩ := Except.bind_eq_ok.mp h
  simp only [Except.pure_eq_ok, Prod.mk.injEq] at h
  obtain ⟨-, -, rfl⟩ := h
  obtain ⟨hA, hS, hO, hC, -⟩ := (hI.accounted k).deliver (hI.slotted k) (hI.slotted k.other) hI.cacheValid hrec hd
  exact hI.setTasks hA hS hO hC

theorem Inv.results (hI : q.Inv) (block : Bool) (threshold : ℕ) : (q.results block threshold).2.Inv := by
  unfold Queue.results
  split_ifs
  · exact hI
  · refine ⟨fun k => by cases k; exacts [hI.accounted .body, hI.accounted .receipt], fun k => ?_, ?_⟩
    · have hS := (hI.slotted k).getCompleted hI.cacheValid maxResultsProcess
      cases k
      · exact hS.of_extends (ResultStore.extends_setThrottleThreshold threshold)
      · exact hS.of_extends (ResultStore.extends_setThrottleThreshold threshold)
    · exact (hI.cacheValid.getCompleted maxResultsProcess).of_extends
        (ResultStore.extends_setThrottleThreshold threshold)

theorem index_of_lt {α : Type} {xs : List α} {i : ℕ} (h : i < xs.length) : index xs i = .ok xs[i] := by
  simp [index, List.getElem?_eq_getElem h, pure, Except.pure]

/-- `DeliverBodies` fills in only the body part of a result. -/
theorem Inv.deliverBodies (hI : q.Inv) {hashing : Hashing} {id : String} {txLists : List (List ℕ)}
    {uncleLists : List (List Header)} {r : ℕ × Option QueueError} {lacking : List ℕ}
    (h : q.deliverBodies hashing id txLists uncleLists = .ok (r, lacking, q')) : q'.Inv := by
  refine hI.deliverKind (fun i f f' hf => ?_) h
  obtain ⟨transactions, -, hf⟩ := Except.bind_eq_ok.mp hf
  obtain ⟨uncles, -, hf⟩ := Except.bind_eq_ok.mp hf
  rw [Except.pure_eq_ok] at hf
  subst hf
  exact FetchResult.done_setBodyDone_receipt _

/-- `DeliverReceipts` fills in only the receipt part of a result. -/
theorem Inv.deliverReceipts (hI : q.Inv) {hashing : Hashing} {id : String} {receiptList : List (List ℕ)}
    {r : ℕ × Option QueueError} {lacking : List ℕ}
    (h : q.deliverReceipts hashing id receiptList = .ok (r, lacking, q')) : q'.Inv := by
  refine hI.deliverKind (fun i f f' hf => ?_) h
  obtain ⟨receipts, -, hf⟩ := Except.bind_eq_ok.mp hf
  rw [Except.pure_eq_ok] at hf
  subst hf
  exact FetchResult.done_setReceiptsDone_body _

/-- The calls a downloader makes: a cancel of the request still pending for its
peer, a schedule above every number still scheduled, and body deliveries with an
uncle list for each transaction list. -/
def Call.Live (q : Queue) : Call → Prop
  | .schedule _ from' => ∀ k, ∀ x ∈ (q.tasks k).scheduled, x.number < from'
  | .cancel kind request => (q.tasks kind).pendPool.lookup request.peer = some request
  | .deliverBodies _ txLists uncleLists => txLists.length ≤ uncleLists.length
  | _ => True

/-- **Every live call keeps the invariant.** -/
theorem Inv.apply (hI : q.Inv) {hashing : Hashing} {c : Call} (hc : c.Live q)
    (h : q.apply hashing c = .ok q') : q'.Inv := by
  cases c with
  | schedule headers from' =>
    rw [Queue.apply, Except.pure_eq_ok] at h
    subst h
    exact hI.scheduleLoop headers from' hc
  | reserve k p count now =>
    rw [Queue.apply, Except.pure_eq_ok] at h
    subst h
    exact hI.reserve k p count now
  | cancel k request =>
    rw [Queue.apply, Except.pure_eq_ok] at h
    subst h
    exact hI.cancelKind hc
  | revoke peerID =>
    rw [Queue.apply, Except.pure_eq_ok] at h
    subst h
    exact hI.revoke peerID
  | expire k now timeout =>
    rw [Queue.apply, Except.pure_eq_ok] at h
    subst h
    exact hI.expireKind k now timeout
  | deliverBodies id txLists uncleLists =>
    rw [Queue.apply] at h
    obtain ⟨⟨r, lacking, q₁⟩, hd, h⟩ := Except.bind_eq_ok.mp h
    rw [Except.pure_eq_ok] at h
    subst h
    exact hI.deliverBodies hd
  | deliverReceipts id receiptList =>
    rw [Queue.apply] at h
    obtain ⟨⟨r, lacking, q₁⟩, hd, h⟩ := Except.bind_eq_ok.mp h
    rw [Except.pure_eq_ok] at h
    subst h
    exact hI.deliverReceipts hd
  | results block threshold =>
    rw [Queue.apply, Except.pure_eq_ok] at h
    subst h
    exact hI.results block threshold

/-- **No live call panics.** -/
theorem Inv.apply_ok (hI : q.Inv) (hashing : Hashing) {c : Call} (hc : c.Live q) :
    ∃ q', q.apply hashing c = .ok q' := by
  cases c with
  | deliverBodies id txLists uncleLists =>
    rw [Queue.apply]
    refine Except.exists_bind_eq_ok ?_ fun _ _ => ⟨_, rfl⟩
    unfold Queue.deliverBodies Queue.deliverKind
    refine Except.exists_bind_eq_ok ?_ fun _ _ => ⟨_, rfl⟩
    apply (hI.accounted .body).deliver_ok (hI.slotted .body)
    · -- each validated body has its transaction list and its uncle list
      intro j header hj
      refine Except.exists_bind_eq_ok ⟨_, index_of_lt hj⟩ fun _ _ => ?_
      split_ifs
      · exact ⟨_, rfl⟩
      · refine Except.exists_bind_eq_ok ⟨_, index_of_lt (Nat.lt_of_lt_of_le hj hc)⟩ fun _ _ => ?_
        split_ifs <;> exact ⟨_, rfl⟩
    · intro j f hj
      exact Except.exists_bind_eq_ok ⟨_, index_of_lt hj⟩ fun _ _ =>
        Except.exists_bind_eq_ok ⟨_, index_of_lt (Nat.lt_of_lt_of_le hj hc)⟩ fun _ _ => ⟨_, rfl⟩
  | deliverReceipts id receiptList =>
    rw [Queue.apply]
    refine Except.exists_bind_eq_ok ?_ fun _ _ => ⟨_, rfl⟩
    unfold Queue.deliverReceipts Queue.deliverKind
    refine Except.exists_bind_eq_ok ?_ fun _ _ => ⟨_, rfl⟩
    apply (hI.accounted .receipt).deliver_ok (hI.slotted .receipt)
    · intro j header hj
      refine Except.exists_bind_eq_ok ⟨_, index_of_lt hj⟩ fun _ _ => ?_
      split_ifs <;> exact ⟨_, rfl⟩
    · intro j f hj
      exact Except.exists_bind_eq_ok ⟨_, index_of_lt hj⟩ fun _ _ => ⟨_, rfl⟩
  | _ => exact ⟨_, rfl⟩

/-- A prepared queue holds nothing yet. -/
theorem inv_prepare (blockCacheLimit offset : ℕ) (mode : SyncMode) :
    ((newQueue blockCacheLimit).prepare offset mode).Inv := by
  have hA : Tasks.empty.Accounted := ⟨.nil, (fun _ h => by cases h), .nil, (fun _ h => by cases h)⟩
  refine ⟨fun k => by cases k <;> exact hA, (fun k x hx => by cases k <;> cases hx), ?_⟩
  intro j hj
  have h0 : ((newQueue blockCacheLimit).prepare offset mode).resultCache.indexIncomplete = 0 := by
    unfold Queue.prepare ResultStore.prepare
    split_ifs <;> rfl
  omega

end Queue

/-- The runs of a downloader: from a prepared queue, the live calls that return. -/
inductive Live (hashing : Queue.Hashing) : Queue → Prop
  | prepare (blockCacheLimit offset : ℕ) (mode : SyncMode) :
      Live hashing ((newQueue blockCacheLimit).prepare offset mode)
  | apply {q q' : Queue} {c : Queue.Call} :
      Live hashing q → c.Live q → q.apply hashing c = .ok q' → Live hashing q'

namespace Live

variable {hashing : Queue.Hashing} {q : Queue}

theorem inv (h : Live hashing q) : q.Inv := by
  induction h with
  | prepare blockCacheLimit offset mode => exact Queue.inv_prepare blockCacheLimit offset mode
  | apply _ hc happ ih => exact ih.apply hc happ

/-- **Task accounting.**  Along every live run, each scheduled header of a kind
is queued once or held by one pending request, never both and never twice. -/
theorem inFlight_perm (h : Live hashing q) (k : Kind) :
    (q.tasks k).inFlight.Perm (q.tasks k).scheduled ∧ (q.tasks k).inFlight.Nodup := by
  have hA := h.inv.accounted k
  refine ⟨hA.perm, hA.inFlight_numbers.imp fun hne heq => hne (congrArg Header.number heq)⟩

/-- **Delivery safety.**  No live call panics in a queue a live run reaches. -/
theorem apply_ok (h : Live hashing q) {c : Queue.Call} (hc : c.Live q) :
    ∃ q', q.apply hashing c = .ok q' :=
  h.inv.apply_ok hashing hc

end Live

end RpcNetwork.Eth.Downloader
