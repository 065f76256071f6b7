import Mathlib

/-!
# Fallible state transformers

A handler that may panic is a function `σ → Except ε σ`.  Reasoning about one
starts from what its success says about each of its parts: the `ok` of a bind
is an `ok` of the first computation fed to the second, and an `if` succeeds
through the branch it takes.  A property that holds across every step of a
machine holds across every run of it.
-/

namespace Except

universe u v

variable {ε : Type u} {α β : Type v}

/-- A bind on a success runs the continuation on its value. -/
theorem ok_bind (a : α) (f : α → Except ε β) : (Except.ok a >>= f) = f a := rfl

/-- A bind succeeds exactly when both halves do. -/
@[simp] theorem bind_eq_ok {x : Except ε α} {f : α → Except ε β} {b : β} :
    x >>= f = .ok b ↔ ∃ a, x = .ok a ∧ f a = .ok b := by
  cases x with
  | error e => simp [bind, Except.bind]
  | ok a => simp [bind, Except.bind]

/-- A map succeeds exactly when its argument does. -/
@[simp] theorem map_eq_ok {x : Except ε α} {f : α → β} {b : β} :
    x.map f = .ok b ↔ ∃ a, x = .ok a ∧ f a = b := by
  cases x <;> simp [Except.map]

/-- An error mapped away succeeds exactly when the original does. -/
@[simp] theorem mapError_eq_ok {ε' : Type u} {x : Except ε α} {g : ε → ε'} {b : α} :
    x.mapError g = .ok b ↔ x = .ok b := by
  cases x <;> simp [Except.mapError]

@[simp] theorem pure_eq_ok {a b : α} : (pure a : Except ε α) = .ok b ↔ a = b := by
  simp [pure, Except.pure]

@[simp] theorem throw_ne_ok {e : ε} {b : α} : (throw e : Except ε α) ≠ .ok b := by
  simp [throw, throwThe, MonadExceptOf.throw]

/-- A bind succeeds when its argument does and the continuation does on it. -/
theorem exists_bind_eq_ok {x : Except ε α} {f : α → Except ε β} (hx : ∃ a, x = .ok a)
    (hf : ∀ a, x = .ok a → ∃ b, f a = .ok b) : ∃ b, x >>= f = .ok b := by
  obtain ⟨a, ha⟩ := hx
  obtain ⟨b, hb⟩ := hf a ha
  exact ⟨b, by rw [ha]; exact hb⟩

/-- A map succeeds when its argument does. -/
theorem exists_map_eq_ok {x : Except ε α} {f : α → β} (hx : ∃ a, x = .ok a) :
    ∃ b, x.map f = .ok b := by
  obtain ⟨a, ha⟩ := hx
  exact ⟨f a, by rw [ha]; rfl⟩

/-- A guard that throws lets through exactly what it does not stop. -/
theorem ite_throw_eq_ok {c : Prop} [Decidable c] {e : ε} {x : Except ε α} {b : α} :
    (if c then throw e else x) = .ok b ↔ ¬ c ∧ x = .ok b := by
  split <;> simp_all

/-- An `if` succeeds through the branch it takes. -/
theorem ite_eq_ok {c : Prop} [Decidable c] {x y : Except ε α} {b : α} :
    (if c then x else y) = .ok b ↔ (c ∧ x = .ok b) ∨ (¬ c ∧ y = .ok b) := by
  split <;> simp_all

/-- **A fallible loop keeps what each iteration keeps.** -/
theorem foldlM_inv {P : α → Prop} {f : α → β → Except ε α}
    (hf : ∀ s x s', P s → f s x = .ok s' → P s') :
    ∀ (l : List β) (s s' : α), P s → l.foldlM f s = .ok s' → P s'
  | [], s, s', hs, h => by
    rw [List.foldlM_nil, pure_eq_ok] at h
    exact h ▸ hs
  | x :: l, s, s', hs, h => by
    rw [List.foldlM_cons, bind_eq_ok] at h
    obtain ⟨t, ht, hrest⟩ := h
    exact foldlM_inv hf l t s' (hf s x t hs ht) hrest

/-- A fallible map over a list succeeds with the images when each call does. -/
theorem mapM_eq_ok_map {f : α → Except ε β} {g : α → β} :
    ∀ l : List α, (∀ a ∈ l, f a = .ok (g a)) → l.mapM f = .ok (l.map g)
  | [], _ => rfl
  | a :: l, h => by
    rw [List.mapM_cons, h a List.mem_cons_self,
      mapM_eq_ok_map l fun x hx => h x (List.mem_cons_of_mem a hx)]
    rfl

/-- **A fallible loop fails only as one of its iterations does.** -/
theorem foldlM_error_inv {P : ε → Prop} {f : α → β → Except ε α}
    (hf : ∀ s x e, f s x = .error e → P e) :
    ∀ (l : List β) (s : α) (e : ε), l.foldlM f s = .error e → P e
  | [], _, _, h => nomatch h
  | x :: l, s, e, h => by
    rw [List.foldlM_cons] at h
    cases hx : f s x with
    | error e' =>
      rw [hx] at h
      cases h
      exact hf s x e hx
    | ok t =>
      rw [hx, ok_bind] at h
      exact foldlM_error_inv hf l t e h

/-- A fallible loop that succeeds succeeded on each element it visited. -/
theorem foldlM_ok_mem {f : α → β → Except ε α} :
    ∀ (l : List β) (s t : α), l.foldlM f s = .ok t → ∀ x ∈ l, ∃ s' t', f s' x = .ok t'
  | [], _, _, _, x, hx => absurd hx List.not_mem_nil
  | y :: l, s, t, h, x, hx => by
    rw [List.foldlM_cons, bind_eq_ok] at h
    obtain ⟨s₁, hy, hrest⟩ := h
    rcases List.mem_cons.mp hx with rfl | hx
    · exact ⟨s, s₁, hy⟩
    · exact foldlM_ok_mem l s₁ t hrest x hx

/-- A fallible loop whose every iteration succeeds runs as the plain loop. -/
theorem foldlM_eq_ok_foldl {f : α → β → Except ε α} {g : α → β → α} :
    ∀ (l : List β) (s : α), (∀ s, ∀ x ∈ l, f s x = .ok (g s x)) → l.foldlM f s = .ok (l.foldl g s)
  | [], _, _ => rfl
  | x :: l, s, h => by
    rw [List.foldlM_cons, h s x List.mem_cons_self, ok_bind,
      foldlM_eq_ok_foldl l _ fun s' y hy => h s' y (List.mem_cons_of_mem x hy)]
    rfl

end Except

namespace Relation.ReflTransGen

variable {σ : Type*} {step R : σ → σ → Prop}

/-- **Runs keep what steps keep.**  A reflexive and transitive relation that
relates the ends of every step relates the ends of every run. -/
theorem of_preorder (hrefl : ∀ s, R s s) (htrans : ∀ s t u, R s t → R t u → R s u)
    (hstep : ∀ s t, step s t → R s t) {s t : σ} (hrun : ReflTransGen step s t) : R s t := by
  induction hrun with
  | refl => exact hrefl s
  | tail _ hlast ih => exact htrans _ _ _ ih (hstep _ _ hlast)

end Relation.ReflTransGen
