import Mathlib

/-!
# Addresses and per-subnet counters

`p2p/netutil` holds the address checks the discovery table makes before it
stores a node.  `IsLAN` says whether an address is a loopback or a private one.
`DistinctNetSet` counts the addresses of each subnet, keyed by the address's
family and its first `Subnet` bits, and its `Add` refuses one more address in a
subnet that already has `Limit`.

## Design notes

An address is its bytes, four for IPv4 and sixteen for IPv6, as `net.IP` holds
them.  `members` is `map[string]uint` read with Go's zero for a missing key, as
a function: `Remove` deletes a key whose count is one, which then reads as zero.
`lan4` and `lan6` are written as `net.ParseCIDR` returns them; `special4` and
`special6` are read by no function modelled here.
-/

namespace RpcNetwork.P2p.Netutil

/-! ### Addresses -/

/-- `v4InV6Prefix`: the twelve bytes before an IPv4 address written in sixteen. -/
def v4InV6Prefix : List UInt8 := [0, 0, 0, 0, 0, 0, 0, 0, 0, 0, 0xff, 0xff]

/-- `IP.To4`: the four bytes of an IPv4 address, in either of its forms. -/
def to4 (ip : List UInt8) : Option (List UInt8) :=
  if ip.length = 4 then some ip
  else if ip.length = 16 ∧ ip.take 12 = v4InV6Prefix then some (ip.drop 12)
  else none

/-- `IP.Equal`: an IPv4 address equals its sixteen-byte form. -/
def ipEqual (ip x : List UInt8) : Bool :=
  if ip.length = x.length then ip == x
  else if ip.length = 4 ∧ x.length = 16 then x.take 12 == v4InV6Prefix && ip == x.drop 12
  else if ip.length = 16 ∧ x.length = 4 then ip.take 12 == v4InV6Prefix && ip.drop 12 == x
  else false

/-- `IPv6loopback`, `::1`. -/
def ipv6Loopback : List UInt8 := List.replicate 15 0 ++ [1]

/-- `IP.IsLoopback`: `127.0.0.0/8`, or `::1`. -/
def isLoopback (ip : List UInt8) : Bool :=
  match to4 ip with
  | some ip4 => ip4.head? == some 127
  | none => ipEqual ip ipv6Loopback

/-- `net.IPNet`: a network address and its mask. -/
structure IPNet where
  ip : List UInt8
  mask : List UInt8
  deriving DecidableEq, Repr

/-- `IPNet.Contains`: the address, in its short form, has the network's length
and agrees with it under the mask. -/
def IPNet.contains (n : IPNet) (ip : List UInt8) : Bool :=
  let ip := (to4 ip).getD ip
  ip.length == n.ip.length && (List.zipWith3 (fun nn x m => nn &&& m == x &&& m) n.ip ip n.mask).all id

/-- `lan4`: `0.0.0.0/8`, `10.0.0.0/8`, `172.16.0.0/12`, `192.168.0.0/16`. -/
def lan4 : List IPNet :=
  [⟨[0, 0, 0, 0], [0xff, 0, 0, 0]⟩, ⟨[10, 0, 0, 0], [0xff, 0, 0, 0]⟩,
    ⟨[172, 16, 0, 0], [0xff, 0xf0, 0, 0]⟩, ⟨[192, 168, 0, 0], [0xff, 0xff, 0, 0]⟩]

/-- `lan6`: `fe80::/10` and `fc00::/7`. -/
def lan6 : List IPNet :=
  [⟨[0xfe, 0x80] ++ List.replicate 14 0, [0xff, 0xc0] ++ List.replicate 14 0⟩,
    ⟨[0xfc, 0] ++ List.replicate 14 0, [0xfe, 0] ++ List.replicate 14 0⟩]

/-- `IsLAN`: a loopback address, or one of a private network. -/
def isLAN (ip : List UInt8) : Bool :=
  if isLoopback ip then true
  else
    match to4 ip with
    | some v4 => lan4.any (·.contains v4)
    | none => lan6.any (·.contains ip)

/-! ### Counters per subnet -/

/-- `DistinctNetSet`: the number of tracked addresses of each subnet. -/
structure DistinctNetSet where
  /-- `Subnet`: the number of common prefix bits. -/
  subnet : ℕ
  /-- `Limit`: the most addresses of one subnet. -/
  limit : ℕ
  members : List UInt8 → ℕ

namespace DistinctNetSet

/-- `key`: the family, `'4'` or `'6'`, then the address cut to `Subnet` bits. -/
def key (s : DistinctNetSet) (ip : List UInt8) : List UInt8 :=
  -- canonicalize ip and bits
  let (typ, ip) : UInt8 × List UInt8 := match to4 ip with
    | some ip4 => (0x34, ip4)
    | none => (0x36, ip)
  let bits := min s.subnet (ip.length * 8)
  -- encode the prefix
  let nb := bits / 8
  let mask : UInt8 := ~~~((0xFF : UInt8) >>> (bits % 8).toUInt8)
  let tail := match ip[nb]? with
    | some b => if mask ≠ 0 then [b &&& mask] else []
    | none => []
  typ :: ip.take nb ++ tail

/-- `Add`: counts the address unless its subnet has reached the limit. -/
def add (s : DistinctNetSet) (ip : List UInt8) : Bool × DistinctNetSet :=
  let key := s.key ip
  let n := s.members key
  if n < s.limit then (true, { s with members := Function.update s.members key (n + 1) })
  else (false, s)

/-- `Remove`: one address fewer in the subnet, if it has any. -/
def remove (s : DistinctNetSet) (ip : List UInt8) : DistinctNetSet :=
  let key := s.key ip
  match s.members key with
  | 0 => s
  -- a count of one is deleted, which reads as zero
  | n + 1 => { s with members := Function.update s.members key n }

variable {s t : DistinctNetSet} {ip : List UInt8}

/-- The key reads only the subnet size. -/
@[simp] theorem key_with_members (s : DistinctNetSet) (members : List UInt8 → ℕ) (ip : List UInt8) :
    key { s with members := members } ip = s.key ip := rfl

theorem add_eq_true_iff : (s.add ip).1 = true ↔ s.members (s.key ip) < s.limit := by
  dsimp only [add]
  split_ifs with h <;> simp [h]

theorem add_of_lt (h : s.members (s.key ip) < s.limit) :
    s.add ip = (true, { s with
      members := Function.update s.members (s.key ip) (s.members (s.key ip) + 1) }) := if_pos h

theorem add_of_not_lt (h : ¬s.members (s.key ip) < s.limit) : s.add ip = (false, s) := if_neg h

/-- A refused address leaves the counters as they were. -/
theorem add_eq_false (h : (s.add ip).1 = false) : s.add ip = (false, s) := by
  have hlt : ¬s.members (s.key ip) < s.limit := by
    rw [← add_eq_true_iff, h]
    exact Bool.false_ne_true
  exact add_of_not_lt hlt

/-- `Remove` after an `Add` that took the address gives the counters back. -/
theorem remove_add (h : (s.add ip).1 = true) : (s.add ip).2.remove ip = s := by
  rw [add_of_lt (add_eq_true_iff.mp h)]
  simp only [remove, key_with_members, Function.update_self, Function.update_idem,
    Function.update_eq_self]

/-! ### Higher counters -/

/-- Counters of one subnet size and limit, each at most the other's. -/
def Le (s t : DistinctNetSet) : Prop :=
  s.subnet = t.subnet ∧ s.limit = t.limit ∧ ∀ k, s.members k ≤ t.members k

@[refl] theorem Le.refl (s : DistinctNetSet) : s.Le s := ⟨rfl, rfl, fun _ => le_rfl⟩

theorem Le.trans {u : DistinctNetSet} (hst : s.Le t) (htu : t.Le u) : s.Le u :=
  ⟨hst.1.trans htu.1, hst.2.1.trans htu.2.1, fun k => (hst.2.2 k).trans (htu.2.2 k)⟩

/-- Counters of one subnet size key an address alike. -/
theorem Le.key_eq (h : s.Le t) (ip : List UInt8) : s.key ip = t.key ip := by
  obtain ⟨subnet, limit, members⟩ := s
  obtain ⟨subnet', limit', members'⟩ := t
  obtain ⟨rfl, -, -⟩ := h
  rfl

theorem le_add (s : DistinctNetSet) (ip : List UInt8) : s.Le (s.add ip).2 := by
  by_cases h : s.members (s.key ip) < s.limit
  · rw [add_of_lt h]
    refine ⟨rfl, rfl, fun k => ?_⟩
    by_cases hk : k = s.key ip
    · subst hk
      simp
    · simp [Function.update_of_ne hk]
  · rw [add_of_not_lt h]

theorem remove_le (s : DistinctNetSet) (ip : List UInt8) : (s.remove ip).Le s := by
  dsimp only [remove]
  split
  · exact Le.refl s
  · rename_i n hn
    refine ⟨rfl, rfl, fun k => ?_⟩
    by_cases hk : k = s.key ip
    · subst hk
      simp [hn]
    · simp [Function.update_of_ne hk]

/-- **An address refused stays refused** under counters that are at least as high. -/
theorem add_eq_false_of_le (hst : s.Le t) (h : (s.add ip).1 = false) : (t.add ip).1 = false := by
  have hs : ¬s.members (s.key ip) < s.limit := by
    rw [← add_eq_true_iff, h]
    exact Bool.false_ne_true
  have ht : ¬t.members (t.key ip) < t.limit := by
    rw [← hst.key_eq, ← hst.2.1]
    exact fun hlt => hs (lt_of_le_of_lt (hst.2.2 _) hlt)
  rw [add_of_not_lt ht]

end DistinctNetSet

end RpcNetwork.P2p.Netutil
