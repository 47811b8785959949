import Macula.Lib.Bytes

/-!
# Identities

Ed25519 comes from `ed25519-dalek`, so it is a parameter: key derivation, signing and
verification, with the law that what a key signs verifies under its public half.
Signing is a function of seed and message, as it is in RFC 8032.

The public half of a key *is* the NodeId.
-/

namespace Macula

/-- A NodeId, which is an Ed25519 public key. -/
abbrev NodeId := ByteArr 32

/-- The operations of `ed25519-dalek` the crate uses. -/
structure Ed25519 where
  publicKey : (seed : ByteArr 32) → NodeId
  sign : (seed : ByteArr 32) → (msg : Bytes) → ByteArr 64
  /-- `identity::verify`: `false` also when the bytes are no point of the curve. -/
  verify : (msg : Bytes) → (sig : ByteArr 64) → (pubkey : NodeId) → Bool
  verify_sign : ∀ seed msg, verify msg (sign seed msg) (publicKey seed) = true

/-- An identity, given by its 32-byte seed. -/
structure KeyPair where
  seed : ByteArr 32
deriving DecidableEq

variable (E : Ed25519)

def KeyPair.nodeId (identity : KeyPair) : NodeId := E.publicKey identity.seed

def KeyPair.sign (identity : KeyPair) (msg : Bytes) : ByteArr 64 := E.sign identity.seed msg

theorem KeyPair.verify_sign (identity : KeyPair) (msg : Bytes) :
    E.verify msg (identity.sign E msg) (identity.nodeId E) = true :=
  E.verify_sign identity.seed msg

/-- A scheme to evaluate the model with.  The public key is the seed and a signature is the
seed and the last 32 bytes of the message; it has the law of a scheme and no security. -/
def Ed25519.standIn : Ed25519 where
  publicKey seed := seed
  sign seed msg := ⟨seed.1 ++ beBytes 32 (ofBe msg), by simp [seed.2]⟩
  verify msg sig pubkey := sig.1 == pubkey.1 ++ beBytes 32 (ofBe msg)
  verify_sign seed msg := by simp

end Macula
