import RpcNetwork.Lib.Curve25519
import RpcNetwork.Tbft.Types.ValidatorSet

/-!
# The key schedule of `SecretConnection` (`tp2p/conn/secret_connection.go`)

`MakeSecretConnection` exchanges ephemeral Curve25519 keys, computes the
Diffie-Hellman secret with `curve25519.ScalarMult`, and feeds it to HKDF-SHA256
for the two AEAD keys and the 32-byte challenge each side then signs with its
long-term key.  The challenge is a function of the secret alone: the ephemeral
keys enter only through it, and the received key is taken as it comes ("every
32-byte string is accepted").

A peer that sends the all-zero key fixes the secret
(`Curve25519.scalarMult_zero`), so every session receiving it derives the
same challenge and keys (`handshakeKeys_zeroKey`).  A signature of the challenge made in one such
session therefore authenticates in any other: a relay between two honest
peers passes the handshake on both sides.
-/

namespace RpcNetwork.Tbft.Tp2p

open Curve25519
open RpcNetwork.Tbft.Types (bytesCompare)

/-- `aeadKeySize`, `chacha20poly1305.KeySize`. -/
def aeadKeySize : ℕ := 32

/-- `sort32(foo, bar)`: the two keys, the lesser by `bytes.Compare` first. -/
def sort32 (foo bar : Vector UInt8 32) : Vector UInt8 32 × Vector UInt8 32 :=
  if bytesCompare foo.toList bar.toList = .lt then (foo, bar) else (bar, foo)

/-- `computeDHSecret(remPubKey, locPrivKey)`: `curve25519.ScalarMult`, which
accepts every 32-byte string as a point. -/
def computeDHSecret (remPubKey locPrivKey : Vector UInt8 32) : Vector UInt8 32 :=
  scalarMult locPrivKey remPubKey

/-- The 32 bytes of HKDF's output from `off`. -/
def hkdfPart (res : Vector UInt8 (2 * aeadKeySize + 32)) (off : ℕ) (h : off ≤ 2 * aeadKeySize) :
    Vector UInt8 32 :=
  Vector.ofFn fun i => res.get ⟨off + i.val, by unfold aeadKeySize at h ⊢; omega⟩

/-- The keys of a session: for receiving, for sending, and the challenge. -/
structure SessionKeys where
  recvSecret : Vector UInt8 32
  sendSecret : Vector UInt8 32
  challenge : Vector UInt8 32
  deriving DecidableEq

/-- `deriveSecretAndChallenge(dhSecret, locIsLeast)`: the first two 32-byte
parts of HKDF's output are the AEAD keys, in an order set by `locIsLeast`, and
the last is the challenge. -/
def deriveSecretAndChallenge (hkdf : Vector UInt8 32 → Vector UInt8 (2 * aeadKeySize + 32))
    (dhSecret : Vector UInt8 32) (locIsLeast : Bool) : SessionKeys :=
  let res := hkdf dhSecret
  let challenge := hkdfPart res (2 * aeadKeySize) le_rfl
  if locIsLeast then
    ⟨hkdfPart res 0 (Nat.zero_le _), hkdfPart res aeadKeySize (by unfold aeadKeySize; omega), challenge⟩
  else
    ⟨hkdfPart res aeadKeySize (by unfold aeadKeySize; omega), hkdfPart res 0 (Nat.zero_le _), challenge⟩

/-- The keys `MakeSecretConnection` derives once the ephemeral keys are
exchanged, before it signs the challenge. -/
def handshakeKeys (hkdf : Vector UInt8 32 → Vector UInt8 (2 * aeadKeySize + 32))
    (locEphPub locEphPriv remEphPub : Vector UInt8 32) : SessionKeys :=
  let loEphPub := (sort32 locEphPub remEphPub).1
  let locIsLeast := locEphPub == loEphPub
  let dhSecret := computeDHSecret remEphPub locEphPriv
  deriveSecretAndChallenge hkdf dhSecret locIsLeast

section Handshake

variable (hkdf : Vector UInt8 32 → Vector UInt8 (2 * aeadKeySize + 32))

/-- The challenge does not depend on which side is the lesser. -/
theorem challenge_deriveSecretAndChallenge (dhSecret : Vector UInt8 32) (locIsLeast : Bool) :
    (deriveSecretAndChallenge hkdf dhSecret locIsLeast).challenge =
      hkdfPart (hkdf dhSecret) (2 * aeadKeySize) le_rfl := by
  unfold deriveSecretAndChallenge
  cases locIsLeast <;> rfl

/-- **The challenge comes from the secret alone**: HKDF's last 32 bytes on
`ScalarMult(locEphPriv, remEphPub)`, with no trace of the public keys. -/
theorem challenge_handshakeKeys (locEphPub locEphPriv remEphPub : Vector UInt8 32) :
    (handshakeKeys hkdf locEphPub locEphPriv remEphPub).challenge =
      hkdfPart (hkdf (scalarMult locEphPriv remEphPub)) (2 * aeadKeySize) le_rfl :=
  challenge_deriveSecretAndChallenge hkdf _ _

/-- **On the all-zero key the session is fixed**: whatever the honest side's
ephemeral keys, its AEAD keys and challenge are HKDF of the all-zero secret,
which the peer that sent the key computes as well. -/
theorem handshakeKeys_zeroKey (locEphPub locEphPriv : Vector UInt8 32) :
    ∃ locIsLeast, handshakeKeys hkdf locEphPub locEphPriv zeroKey =
      deriveSecretAndChallenge hkdf zeroKey locIsLeast := by
  refine ⟨locEphPub == (sort32 locEphPub zeroKey).1, ?_⟩
  unfold handshakeKeys computeDHSecret
  rw [scalarMult_zero]

end Handshake

end RpcNetwork.Tbft.Tp2p
