import Mathlib.Tactic.Basic

/-!
# The CALL error taxonomy

Seventeen codes, their wire names, and whether a code permits a retry.
-/

namespace Macula.Bolt4

inductive Code where
  | ok
  | unknownNextPeer
  | temporaryRelayFailure
  | relayDisabled
  | nodeNotFoundAtTargetRelay
  | targetRealmRefused
  | loopDetected
  | expiryTooSoon
  | upstreamCongestion
  | invalidPathHeader
  | cryptoPuzzleInvalid
  | realmNotAuthoritativeHere
  | tombstoned
  | payloadTooLarge
  | signatureInvalid
  | unknownError
  /-- The caller lacked a valid UCAN capability for a gated procedure. -/
  | unauthorized
deriving DecidableEq, Repr

def Code.asU8 : Code → UInt8
  | .ok => 0x00
  | .unknownNextPeer => 0x01
  | .temporaryRelayFailure => 0x02
  | .relayDisabled => 0x03
  | .nodeNotFoundAtTargetRelay => 0x04
  | .targetRealmRefused => 0x05
  | .loopDetected => 0x06
  | .expiryTooSoon => 0x07
  | .upstreamCongestion => 0x08
  | .invalidPathHeader => 0x09
  | .cryptoPuzzleInvalid => 0x0A
  | .realmNotAuthoritativeHere => 0x0B
  | .tombstoned => 0x0C
  | .payloadTooLarge => 0x0D
  | .signatureInvalid => 0x0E
  | .unknownError => 0x0F
  | .unauthorized => 0x10

def Code.name : Code → String
  | .ok => "ok"
  | .unknownNextPeer => "unknown_next_peer"
  | .temporaryRelayFailure => "temporary_relay_failure"
  | .relayDisabled => "relay_disabled"
  | .nodeNotFoundAtTargetRelay => "node_not_found_at_target_relay"
  | .targetRealmRefused => "target_realm_refused"
  | .loopDetected => "loop_detected"
  | .expiryTooSoon => "expiry_too_soon"
  | .upstreamCongestion => "upstream_congestion"
  | .invalidPathHeader => "invalid_path_header"
  | .cryptoPuzzleInvalid => "crypto_puzzle_invalid"
  | .realmNotAuthoritativeHere => "realm_not_authoritative_here"
  | .tombstoned => "tombstoned"
  | .payloadTooLarge => "payload_too_large"
  | .signatureInvalid => "signature_invalid"
  | .unknownError => "unknown_error"
  | .unauthorized => "unauthorized"

/-- Success, handler-level remedies and security-critical codes are never retried. -/
def Code.isRetryable : Code → Bool
  | .ok | .targetRealmRefused | .tombstoned | .payloadTooLarge | .unauthorized
  | .cryptoPuzzleInvalid | .signatureInvalid => false
  | _ => true

/-- The codes in order of their numbers. -/
def Code.table : List Code :=
  [.ok, .unknownNextPeer, .temporaryRelayFailure, .relayDisabled, .nodeNotFoundAtTargetRelay,
   .targetRealmRefused, .loopDetected, .expiryTooSoon, .upstreamCongestion, .invalidPathHeader,
   .cryptoPuzzleInvalid, .realmNotAuthoritativeHere, .tombstoned, .payloadTooLarge,
   .signatureInvalid, .unknownError, .unauthorized]

def Code.fromU8 (code : UInt8) : Option Code := Code.table[code.toNat]?

theorem Code.asU8_table : ∀ i : Fin Code.table.length, (Code.table.get i).asU8.toNat = i := by
  decide

/-- A number stands for the code it is the number of, and for no other. -/
theorem Code.fromU8_eq_some {n : UInt8} {code : Code} :
    Code.fromU8 n = some code ↔ n = code.asU8 := by
  constructor
  · intro h
    obtain ⟨hlt, hget⟩ := List.getElem?_eq_some_iff.mp h
    rw [← hget]
    exact UInt8.toNat_inj.mp (Code.asU8_table ⟨n.toNat, hlt⟩).symm
  · rintro rfl
    cases code <;> rfl

end Macula.Bolt4
