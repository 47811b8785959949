import Macula.Cbor.Fields
import Macula.Identity

/-!
# The frame envelope

Every frame is one map.  `base` has the fields all of them carry, and a signature is one
more field, over the canonical bytes of the frame without it.

`frame_id` and `sent_at_ms` are fresh for each frame in the source; here the builders take
them as arguments.

Signing and verifying encode the frame they are given and `expect` that to succeed, so a
frame with an integer out of range makes them panic (`signableBytes_eq_ok`).
-/

namespace Macula.Frame

open Macula.Cbor (Value)

def SIG_DOMAIN : Bytes := Utf8.bytes "macula-v2-frame\x00"

def PROTOCOL_VERSION : Int := 2

/-- The common envelope every frame carries. -/
def base (frameType : String) (capabilities : UInt64) (frameId : ByteArr 16) (sentAtMs : UInt64) :
    List (Value × Value) :=
  [(.text "version", .int PROTOCOL_VERSION),
   (.text "frame_type", .text frameType),
   (.text "frame_id", .bytes frameId.1),
   (.text "sent_at_ms", .int sentAtMs.toNat),
   (.text "capabilities", .int capabilities.toNat),
   (.text "realm", .null),
   (.text "call_id", .null),
   (.text "source_route", .null)]

/-! ## Reading fields -/

/-- A fixed-length byte field.  `missing` and `wrong` are the error variants of the parser
that reads it. -/
def arrField {ε : Type} (missing wrong : String → ε) (n : Nat) (frame : Value) (field : String) :
    Outcome ε (ByteArr n) :=
  match frame.get field with
  | none => .err (missing field)
  | some (.bytes b) => .okOr (wrong field) (toArr n b)
  | some _ => .err (wrong field)

theorem arrField_eq_ok {ε : Type} {missing wrong : String → ε} {n : Nat} {frame : Value}
    {field : String} {a : ByteArr n} :
    arrField missing wrong n frame field = .ok a ↔ frame.get field = some (.bytes a.1) := by
  unfold arrField
  split <;> simp_all

theorem arrField_ne_panicked {ε : Type} {missing wrong : String → ε} {n : Nat} {frame : Value}
    {field : String} : arrField missing wrong n frame field ≠ .panicked := by
  unfold arrField
  split <;> simp

/-- A non-negative integer field, cut to 64 bits as `as u64` does. -/
def uintField {ε : Type} (missing wrong : String → ε) (frame : Value) (field : String) :
    Outcome ε UInt64 :=
  match frame.get field with
  | none => .err (missing field)
  | some (.int n) => if 0 ≤ n then .ok (.ofNat n.toNat) else .err (wrong field)
  | some _ => .err (wrong field)

theorem uintField_of_get {ε : Type} {missing wrong : String → ε} {frame : Value} {field : String}
    {n : UInt64} (h : frame.get field = some (.int n.toNat)) :
    uintField missing wrong frame field = .ok n := by
  rw [uintField, h]
  simp

theorem uintField_ne_panicked {ε : Type} {missing wrong : String → ε} {frame : Value}
    {field : String} : uintField missing wrong frame field ≠ .panicked := by
  unfold uintField
  split
  · nofun
  · split <;> nofun
  · nofun

theorem uintField_sorted {ε : Type} {missing wrong : String → ε} {frame : Value}
    (h : frame.DistinctKeys) (field : String) :
    uintField missing wrong frame.sorted field = uintField missing wrong frame field := by
  rw [uintField, uintField, Cbor.get_sorted_eq h]
  cases frame.get field with
  | none => rfl
  | some v => cases v <;> simp

theorem arrField_sorted {ε : Type} {missing wrong : String → ε} {n : Nat} {frame : Value}
    (h : frame.DistinctKeys) (field : String) :
    arrField missing wrong n frame.sorted field = arrField missing wrong n frame field := by
  rw [arrField, arrField, Cbor.get_sorted_eq h]
  cases frame.get field with
  | none => rfl
  | some v => cases v <;> simp

/-! ## Sign and verify -/

variable (E : Ed25519)

def signableBytes {ε : Type} (frame : Value) : Outcome ε Bytes := do
  let unsigned := frame.without ["signature", "publisher_sig"]
  let canonical ← .expectOk (Cbor.encode unsigned)
  return SIG_DOMAIN ++ canonical

/-- The frame with its `signature` field set. -/
def sign {ε : Type} (frame : Value) (identity : KeyPair) : Outcome ε Value := do
  let signable ← signableBytes frame
  return frame.withField "signature" (.bytes (identity.sign E signable).1)

inductive VerifyError where
  | missingSignature
  | badSignature
  | signatureInvalid
deriving DecidableEq

/-- The 64 bytes of a frame's `signature` field. -/
def signatureField (frame : Value) : Outcome VerifyError (ByteArr 64) :=
  match frame.get "signature" with
  | some (.bytes b) => .okOr .badSignature (toArr 64 b)
  | _ => .err .missingSignature

def verify (frame : Value) (pubkey : NodeId) : Outcome VerifyError Unit := do
  let sig ← signatureField frame
  let signable ← signableBytes frame
  if E.verify signable sig pubkey then return () else .err .signatureInvalid

theorem signableBytes_eq_ok {ε : Type} {frame : Value} {b : Bytes} :
    (signableBytes frame : Outcome ε Bytes) = .ok b ↔
      (frame.without ["signature", "publisher_sig"]).IntsInRange ∧
        b = SIG_DOMAIN ++ Cbor.canon (frame.without ["signature", "publisher_sig"]) := by
  simp only [signableBytes, Outcome.bind_eq_ok, Outcome.expectOk_eq_ok, Cbor.encode_eq_ok,
    Outcome.pure_eq, Outcome.ok.injEq]
  constructor
  · rintro ⟨c, ⟨hrange, rfl⟩, rfl⟩
    exact ⟨hrange, rfl⟩
  · rintro ⟨hrange, rfl⟩
    exact ⟨_, ⟨hrange, rfl⟩, rfl⟩

theorem signatureField_eq_ok {frame : Value} {sig : ByteArr 64} :
    signatureField frame = .ok sig ↔ frame.get "signature" = some (.bytes sig.1) := by
  unfold signatureField
  split <;> simp_all

/-- A frame passes exactly when its `signature` field is a signature over its other fields. -/
theorem verify_eq_ok {frame : Value} {pubkey : NodeId} :
    verify E frame pubkey = .ok () ↔
      ∃ (sig : ByteArr 64) (signable : Bytes), frame.get "signature" = some (.bytes sig.1) ∧
        (signableBytes frame : Outcome VerifyError Bytes) = .ok signable ∧
        E.verify signable sig pubkey = true := by
  constructor
  · intro h
    obtain ⟨sig, hsig, h⟩ := Outcome.bind_eq_ok.mp h
    obtain ⟨signable, hsignable, h⟩ := Outcome.bind_eq_ok.mp h
    refine ⟨sig, signable, signatureField_eq_ok.mp hsig, hsignable, ?_⟩
    by_contra hverify
    rw [if_neg hverify] at h
    cases h
  · rintro ⟨sig, signable, hget, hsignable, hverify⟩
    rw [verify, signatureField_eq_ok.mpr hget, Outcome.ok_bind, hsignable, Outcome.ok_bind,
      if_pos hverify]
    rfl

/-- What is signed are the fields other than the two signatures, so signing does not change
it. -/
theorem signableBytes_withField {ε : Type} (frame value : Value) :
    (signableBytes (frame.withField "signature" value) : Outcome ε Bytes) =
      signableBytes frame := by
  rw [signableBytes, signableBytes, Value.without_withField (by decide)]

/-- A signed frame verifies under the signer's NodeId. -/
theorem verify_sign {ε : Type} {pairs : List (Value × Value)} {identity : KeyPair}
    {signed : Value} (h : (sign E (.map pairs) identity : Outcome ε Value) = .ok signed) :
    verify E signed (identity.nodeId E) = .ok () := by
  obtain ⟨signable, hsignable, h⟩ := Outcome.bind_eq_ok.mp h
  obtain rfl := Outcome.ok.inj h
  refine (verify_eq_ok E).mpr ⟨identity.sign E signable, signable, ?_, ?_, ?_⟩
  · exact Value.get_withField_self _ _ _
  · rw [signableBytes_withField]
    exact signableBytes_eq_ok.mpr (signableBytes_eq_ok.mp hsignable)
  · exact identity.verify_sign E signable

/-! ## Frames that can be signed -/

theorem base_inRange (frameType : String) (capabilities : UInt64) (frameId : ByteArr 16)
    (sentAtMs : UInt64) :
    (Value.map (base frameType capabilities frameId sentAtMs)).IntsInRange := by
  have htime := Value.all_int.mp (Value.inRange_u64 sentAtMs)
  have hcapabilities := Value.all_int.mp (Value.inRange_u64 capabilities)
  simp only [Value.IntsInRange, base, Value.all_map, List.forall_mem_cons, Value.all_text,
    Value.all_int, Value.all_bytes, Value.all_null]
  exact ⟨trivial, ⟨trivial, by decide⟩, ⟨trivial, trivial⟩, ⟨trivial, trivial⟩, ⟨trivial, htime⟩,
    ⟨trivial, hcapabilities⟩, ⟨trivial, trivial⟩, ⟨trivial, trivial⟩, ⟨trivial, trivial⟩, by simp⟩

/-- The envelope is a map to put fields into. -/
theorem base_record (n : Nat) (frameType : String) (capabilities : UInt64) (frameId : ByteArr 16)
    (sentAtMs : UInt64) :
    (Value.map (base frameType capabilities frameId sentAtMs)).Record n := by
  refine ⟨_, rfl, ?_, ?_⟩
  · change (["version", "frame_type", "frame_id", "sent_at_ms", "capabilities", "realm", "call_id",
      "source_route"].map fun key => Cbor.canon (.text key)).Nodup
    decide +kernel
  · have hkey : ∀ key, (Utf8.bytes key).length < 2 ^ 64 → Cbor.TextKey (.text key) :=
      fun key h => ⟨key, rfl, h⟩
    simp only [base, List.forall_mem_cons]
    exact ⟨⟨hkey _ (by decide), Value.within_int n (by decide)⟩,
      ⟨hkey _ (by decide), Value.within_text n _⟩, ⟨hkey _ (by decide), Value.within_bytes n _⟩,
      ⟨hkey _ (by decide), Value.within_u64 n _⟩, ⟨hkey _ (by decide), Value.within_u64 n _⟩,
      ⟨hkey _ (by decide), Value.within_null n⟩, ⟨hkey _ (by decide), Value.within_null n⟩,
      ⟨hkey _ (by decide), Value.within_null n⟩, by simp⟩

/-- Signing a frame whose integers are in range adds the signature. -/
theorem sign_of_inRange {ε : Type} {frame : Value} (h : frame.IntsInRange) (identity : KeyPair) :
    ∃ sig : ByteArr 64,
      (sign E frame identity : Outcome ε Value) =
        .ok (frame.withField "signature" (.bytes sig.1)) := by
  have hsignable : (signableBytes frame : Outcome ε Bytes) = .ok _ :=
    signableBytes_eq_ok.mpr ⟨Value.inRange_without h, rfl⟩
  exact ⟨_, by rw [sign, hsignable]; rfl⟩

/-- Signing a frame with an integer out of range panics. -/
theorem sign_panicked {ε : Type} {frame : Value}
    (h : ¬ (frame.without ["signature", "publisher_sig"]).IntsInRange) (identity : KeyPair) :
    (sign E frame identity : Outcome ε Value) = .panicked := by
  rw [sign, signableBytes]
  cases hencode : Cbor.encode (frame.without ["signature", "publisher_sig"]) with
  | ok b => exact absurd (Cbor.encode_eq_ok.mp hencode).1 h
  | err e => rfl
  | panicked => rfl

theorem sign_eq_panicked {ε : Type} {frame : Value} {identity : KeyPair} :
    (sign E frame identity : Outcome ε Value) = .panicked ↔
      ¬ (frame.without ["signature", "publisher_sig"]).IntsInRange := by
  refine ⟨fun h hrange => ?_, fun h => sign_panicked E h identity⟩
  have hsignable : (signableBytes frame : Outcome ε Bytes) = .ok _ :=
    signableBytes_eq_ok.mpr ⟨hrange, rfl⟩
  rw [sign, hsignable] at h
  cases h

end Macula.Frame
