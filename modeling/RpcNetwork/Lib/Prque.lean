import Mathlib

/-!
# Priority queues as lists

`common/prque`'s queue as the list of its entries `(value, priority)` in push
order.  `push` appends; `peek` finds an entry of highest priority, the first
pushed among equals; `popItem` removes the entry `peek` finds.

What a caller can count on is the multiset of values the queue holds: which of
several entries of one priority a heap hands out first is not fixed, and
nothing proved with this module depends on it.
-/

namespace RpcNetwork.Prque

variable {α : Type*}

/-- `Push(data, priority)`. -/
def push (q : List (α × ℤ)) (a : α) (p : ℤ) : List (α × ℤ) :=
  q ++ [(a, p)]

/-- `Peek()`: an entry of highest priority, the earliest pushed among equals. -/
def peek : List (α × ℤ) → Option (α × ℤ)
  | [] => none
  | e :: q =>
    match peek q with
    | none => some e
    | some e' => if e.2 < e'.2 then some e' else some e

/-- `PopItem()`, its value dropped: the queue without the entry `peek` finds. -/
def popItem [DecidableEq α] (q : List (α × ℤ)) : List (α × ℤ) :=
  match peek q with
  | none => q
  | some e => q.erase e

/-- `Push` of each value of `as` in turn, its priority given by `prio`. -/
def pushAll (q : List (α × ℤ)) (as : List α) (prio : α → ℤ) : List (α × ℤ) :=
  as.foldl (fun q a => push q a (prio a)) q

theorem peek_eq_none {q : List (α × ℤ)} : peek q = none ↔ q = [] := by
  constructor
  · intro h
    cases q with
    | nil => rfl
    | cons e q =>
      simp only [peek] at h
      split at h
      · cases h
      · split at h <;> cases h
  · rintro rfl
    rfl

theorem mem_of_peek {q : List (α × ℤ)} {e : α × ℤ} (h : peek q = some e) : e ∈ q := by
  induction q with
  | nil => cases h
  | cons e₀ q ih =>
    simp only [peek] at h
    split at h
    · cases h
      exact List.mem_cons_self
    · rename_i e' he'
      split at h <;> cases h
      · exact List.mem_cons_of_mem _ (ih he')
      · exact List.mem_cons_self

theorem map_fst_pushAll (q : List (α × ℤ)) (as : List α) (prio : α → ℤ) :
    (pushAll q as prio).map Prod.fst = q.map Prod.fst ++ as := by
  induction as generalizing q with
  | nil => simp [pushAll]
  | cons a as ih =>
    rw [pushAll, List.foldl_cons, ← pushAll, ih, push, List.map_append]
    simp

variable [DecidableEq α]

/-- `PopItem` takes out exactly the entry `Peek` shows. -/
theorem perm_popItem {q : List (α × ℤ)} {e : α × ℤ} (h : peek q = some e) :
    q.Perm (e :: popItem q) := by
  rw [popItem, h]
  exact List.perm_cons_erase (mem_of_peek h)

end RpcNetwork.Prque
