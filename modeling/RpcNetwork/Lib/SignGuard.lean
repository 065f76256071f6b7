import Mathlib

/-!
# Double-sign protection

A signer that must never sign two different messages at one point of a
protocol (a height, round and step, say) keeps the last point it signed at and
what it signed there.  It refuses a point below the last one, signs anew only
above it, and at the last point itself only repeats what it signed.  Its log of
signatures then holds at most one message per point.
-/

namespace SignGuard

variable {P M : Type*} [LinearOrder P]

/-- The log `log` of a signer whose last point is `last` and whose last message
is `lastMsg`: every entry is at or below `last`, the entries at `last` carry
`lastMsg`, and no two entries at one point differ. -/
structure Guarded (last : P) (lastMsg : Option M) (log : List (P × M)) : Prop where
  le_last : ∀ e ∈ log, e.1 ≤ last
  at_last : ∀ e ∈ log, e.1 = last → lastMsg = some e.2
  unique : ∀ e ∈ log, ∀ e' ∈ log, e.1 = e'.1 → e.2 = e'.2

/-- An empty log is guarded by anything. -/
theorem guarded_nil (last : P) (lastMsg : Option M) : Guarded last lastMsg [] :=
  ⟨by simp, by simp, by simp⟩

variable {last : P} {lastMsg : Option M} {log : List (P × M)}

/-- **Signing above the last point.**  The new entry is the only one at its
point, which becomes the last one. -/
theorem Guarded.sign_above (h : Guarded last lastMsg log) {p : P} (hp : last < p) (m : M) :
    Guarded p (some m) (log ++ [(p, m)]) := by
  -- every old entry is strictly below `p`
  have hbelow : ∀ e ∈ log, e.1 < p := fun e he => lt_of_le_of_lt (h.le_last e he) hp
  refine ⟨?_, ?_, ?_⟩
  · intro e he
    rcases List.mem_append.mp he with he | he
    · exact (hbelow e he).le
    · simp_all
  · intro e he hep
    rcases List.mem_append.mp he with he | he
    · exact absurd hep (hbelow e he).ne
    · simp_all
  · intro e he e' he' hee'
    rcases List.mem_append.mp he with he | he <;> rcases List.mem_append.mp he' with he' | he'
    · exact h.unique e he e' he' hee'
    · simp only [List.mem_singleton] at he'
      subst he'
      exact absurd hee' (hbelow e he).ne
    · simp only [List.mem_singleton] at he
      subst he
      exact absurd hee'.symm (hbelow e' he').ne
    · simp_all

/-- **Signing again at the last point**: repeating the last message. -/
theorem Guarded.sign_again (h : Guarded last lastMsg log) {m : M} (hm : lastMsg = some m) :
    Guarded last lastMsg (log ++ [(last, m)]) := by
  -- an old entry at `last` carries `m` already
  have hold : ∀ e ∈ log, e.1 = last → e.2 = m := fun e he hel =>
    Option.some.inj ((h.at_last e he hel).symm.trans hm)
  refine ⟨?_, ?_, ?_⟩
  · intro e he
    rcases List.mem_append.mp he with he | he
    · exact h.le_last e he
    · simp_all
  · intro e he hel
    rcases List.mem_append.mp he with he | he
    · exact h.at_last e he hel
    · simp_all
  · intro e he e' he' hee'
    rcases List.mem_append.mp he with he | he <;> rcases List.mem_append.mp he' with he' | he'
    · exact h.unique e he e' he' hee'
    · simp only [List.mem_singleton] at he'
      subst he'
      exact hold e he hee'
    · simp only [List.mem_singleton] at he
      subst he
      exact (hold e' he' hee'.symm).symm
    · simp_all

end SignGuard
