import Mathlib

/-!
# Files as byte lists

The three `*os.File` operations a table of fixed-size records makes, on a file
held as its `List UInt8`: `Truncate`, which also extends with zero bytes, and
`ReadAt`, once with its error checked and once with it dropped.  A write at the
end is `++`.
-/

namespace RpcNetwork.ByteFile

/-- `(*os.File).Truncate(size)`: cut the file to `size` bytes, or extend it with
zero bytes; a negative size fails. -/
def truncate (f : List UInt8) (size : ℤ) : Option (List UInt8) :=
  if size < 0 then none else some (f.take size.toNat ++ List.replicate (size.toNat - f.length) 0)

/-- `(*os.File).ReadAt(buf, off)` for `len(buf) = n`, its error checked: the `n`
bytes at `off`, or nothing when the offset is negative or the file ends first. -/
def readAt (f : List UInt8) (off : ℤ) (n : ℕ) : Option (List UInt8) :=
  if 0 ≤ off ∧ off.toNat + n ≤ f.length then some ((f.drop off.toNat).take n) else none

/-- `(*os.File).ReadAt(buf, off)` with its error dropped: what could be read
overwrites the front of `buf`. -/
def readInto (f buf : List UInt8) (off : ℤ) : List UInt8 :=
  if off < 0 then buf
  else
    let got := (f.drop off.toNat).take buf.length
    got ++ buf.drop got.length

variable {f g buf : List UInt8} {off : ℤ} {n : ℕ}

theorem truncate_of_le {size : ℕ} (h : size ≤ f.length) : truncate f size = some (f.take size) := by
  rw [truncate, if_neg (by omega), Int.toNat_natCast, Nat.sub_eq_zero_of_le h, List.replicate_zero,
    List.append_nil]

/-- Reading an empty file, its error dropped, leaves the buffer as it was. -/
theorem readInto_nil (buf : List UInt8) (off : ℤ) : readInto [] buf off = buf := by
  unfold readInto
  split
  · rfl
  · rw [List.drop_nil, List.take_nil]
    exact List.nil_append _

theorem readAt_eq_some {off n : ℕ} (h : off + n ≤ f.length) :
    readAt f off n = some ((f.drop off).take n) := by
  rw [readAt, if_pos ⟨Int.natCast_nonneg _, by simpa using h⟩, Int.toNat_natCast]

theorem length_of_readAt {b : List UInt8} (h : readAt f off n = some b) : b.length = n := by
  unfold readAt at h
  split_ifs at h with hr
  cases h
  rw [List.length_take, List.length_drop]
  omega

theorem add_le_length_of_readAt {off n : ℕ} {b : List UInt8} (h : readAt f off n = some b) :
    off + n ≤ f.length := by
  unfold readAt at h
  split_ifs at h with hr
  simpa using hr.2

/-- Appending to a file does not change a read that fits before its old end. -/
theorem readAt_append_left {off n : ℕ} (h : off + n ≤ f.length) (g : List UInt8) :
    readAt (f ++ g) off n = readAt f off n := by
  rw [readAt_eq_some (by simp; omega), readAt_eq_some h, List.drop_append_of_le_length (by omega),
    List.take_append_of_le_length (by simp; omega)]

/-- Cutting a file after a read leaves the read as it was. -/
theorem readAt_take {off n k : ℕ} (h : off + n ≤ k) : readAt (f.take k) off n = readAt f off n := by
  unfold readAt
  simp only [Int.toNat_natCast, Int.natCast_nonneg, true_and, List.length_take]
  by_cases hf : off + n ≤ f.length
  · rw [if_pos (by omega), if_pos hf, List.drop_take, List.take_take, Nat.min_eq_left (by omega)]
  · rw [if_neg (by omega), if_neg hf]

section Records

variable {cs : List (List UInt8)} (hlen : ∀ c ∈ cs, c.length = n)
include hlen

theorem length_flatten_of_const : cs.flatten.length = n * cs.length := by
  induction cs with
  | nil => rfl
  | cons c cs ih =>
    rw [List.flatten_cons, List.length_append, hlen c List.mem_cons_self,
      ih (fun c' h => hlen c' (List.mem_cons_of_mem _ h)), List.length_cons, Nat.mul_succ, Nat.add_comm]

/-- Dropping `k` records of `n` bytes drops the first `k` records. -/
theorem drop_mul_flatten (k : ℕ) : cs.flatten.drop (n * k) = (cs.drop k).flatten := by
  induction cs generalizing k with
  | nil => simp
  | cons c cs ih =>
    cases k with
    | zero => rfl
    | succ k =>
      rw [List.flatten_cons, Nat.mul_succ, Nat.add_comm, ← List.drop_drop,
        List.drop_left' (hlen c List.mem_cons_self), List.drop_succ_cons,
        ih (fun c' h => hlen c' (List.mem_cons_of_mem _ h))]

/-- Keeping `k` records of `n` bytes keeps the first `k` records. -/
theorem take_mul_flatten (k : ℕ) : cs.flatten.take (n * k) = (cs.take k).flatten := by
  induction cs generalizing k with
  | nil => simp
  | cons c cs ih =>
    cases k with
    | zero => simp
    | succ k =>
      rw [List.flatten_cons, Nat.mul_succ, Nat.add_comm, List.take_add, List.take_left' (hlen c List.mem_cons_self),
        List.drop_left' (hlen c List.mem_cons_self), List.take_succ_cons, List.flatten_cons,
        ih (fun c' h => hlen c' (List.mem_cons_of_mem _ h))]
/-- Reading record `k` of a file of `n`-byte records. -/
theorem readAt_flatten {k : ℕ} (hk : k < cs.length) :
    readAt cs.flatten ↑(n * k) n = some cs[k] := by
  have hdrop := drop_mul_flatten hlen k
  rw [List.drop_eq_getElem_cons hk, List.flatten_cons] at hdrop
  have hroom : n * k + n ≤ cs.flatten.length := by
    rw [length_flatten_of_const hlen, ← Nat.mul_succ]
    exact Nat.mul_le_mul_left n hk
  rw [readAt_eq_some hroom, hdrop, List.take_left' (hlen _ (List.getElem_mem hk))]

end Records

/-- A read whose error is dropped gives the bytes when the read is whole. -/
theorem readInto_of_readAt {b : List UInt8} (h : readAt f off buf.length = some b) :
    readInto f buf off = b := by
  unfold readAt at h
  split_ifs at h with hr
  cases h
  rw [readInto, if_neg (by omega)]
  dsimp only
  rw [List.length_take, List.length_drop, Nat.min_eq_left (by omega), List.drop_length, List.append_nil]

end RpcNetwork.ByteFile
