import Macula.Frame.Built
import Macula.Frame.Publish

/-!
# Which frames can be signed

`sign`, and `sign_publisher` before it, `expect` that what they sign can be encoded.  The
encoder refuses one thing only, an integer out of range.  A frame of this crate has such an
integer exactly when the value it embeds has one, or when its deadline is one.
-/

namespace Macula.Frame

open Macula.Cbor (Value)

/-! ## Frames of a call and of a stream -/

/-- The embedded value and the deadline are in range. -/
def Built.InRange (built : Built) : Prop :=
  (∀ v ∈ built.embedded, v.IntsInRange) ∧ built.DeadlineOk

theorem Built.inRange_iff {built : Built} {v : Value} (hv : built.embedded = some v)
    (hd : built.deadlineMs = none) : built.InRange ↔ v.IntsInRange := by
  simp [Built.InRange, Built.DeadlineOk, hv, hd]

theorem Built.inRange_iff_of_deadline {built : Built} {v : Value} {d : Int}
    (hv : built.embedded = some v) (hd : built.deadlineMs = some d) :
    built.InRange ↔ v.IntsInRange ∧ Cbor.IntOk (.int d) := by
  simp [Built.InRange, Built.DeadlineOk, hv, hd]

section

variable {built : Built} (frameId : ByteArr 16) (sentAtMs : UInt64)

/-- The embedded value is a field that is signed. -/
theorem Built.get_embedded {v : Value} (h : v ∈ built.embedded) :
    ∃ key, key ∉ ["signature", "publisher_sig"] ∧
      (built.frame frameId sentAtMs).get key = some v := by
  cases built with
  | call spec | result spec | streamReply spec =>
      obtain rfl := Option.some.inj h
      exact ⟨"payload", by decide, rfl⟩
  | streamOpen spec =>
      obtain rfl := Option.some.inj h
      exact ⟨"args", by decide, rfl⟩
  | streamData spec =>
      obtain rfl := Option.some.inj h
      exact ⟨"body", by decide, get_withOptionalSigner (by decide) ..⟩
  | callError spec | streamEnd spec | streamError spec => cases h

theorem withOptionalSigner_inRange {v : Value} (h : v.IntsInRange) (signer : Option NodeId) :
    (withOptionalSigner v signer).IntsInRange := by
  cases signer with
  | none => exact h
  | some pubKey => exact Value.inRange_withField h (Value.inRange_bytes _)

theorem call_inRange {spec : CallSpec} (hpayload : spec.payload.IntsInRange)
    (hdeadline : Cbor.IntOk (.int spec.deadlineMs)) :
    (call spec frameId sentAtMs).IntsInRange := by
  refine Value.inRange_withField ?_ (Value.inRange_bytes _)
  refine Value.inRange_withField ?_ (Value.inRange_u64 _)
  refine Value.inRange_withField ?_ (Value.inRange_bytes _)
  refine Value.inRange_withField ?_ (Value.inRange_bytes _)
  refine Value.inRange_withField ?_ (Value.all_int.mpr hdeadline)
  refine Value.inRange_withField ?_ hpayload
  refine Value.inRange_withField ?_ (Value.inRange_bytes _)
  refine Value.inRange_withField ?_ (Value.inRange_bytes _)
  exact Value.inRange_withField (base_inRange ..) (Value.inRange_bytes _)

theorem result_inRange {spec : ResultSpec} (hpayload : spec.payload.IntsInRange) :
    (result spec frameId sentAtMs).IntsInRange := by
  refine Value.inRange_withField ?_ (Value.inRange_bytes _)
  refine Value.inRange_withField ?_ (Value.inRange_bytes _)
  refine Value.inRange_withField ?_ hpayload
  exact Value.inRange_withField (base_inRange ..) (Value.inRange_bytes _)

theorem callError_inRange (spec : CallErrorSpec) :
    (callError spec frameId sentAtMs).IntsInRange := by
  have hcode : Cbor.IntOk (.int spec.code.asU8.toNat) := by
    cases spec.code <;> decide
  refine Value.inRange_withField ?_ (Value.inRange_bytes _)
  refine Value.inRange_withField ?_ (Value.inRange_optional (fun _ => Value.inRange_bytes _) _)
  refine Value.inRange_withField ?_ (Value.inRange_optional (fun _ => Value.inRange_bytes _) _)
  refine Value.inRange_withField ?_ (Value.inRange_bytes _)
  refine Value.inRange_withField ?_ (Value.inRange_text _)
  refine Value.inRange_withField ?_ (Value.all_int.mpr hcode)
  exact Value.inRange_withField (base_inRange ..) (Value.inRange_bytes _)

theorem streamOpen_inRange {spec : StreamOpenSpec} (hargs : spec.args.IntsInRange)
    (hdeadline : Cbor.IntOk (.int spec.deadlineMs)) :
    (streamOpen spec frameId sentAtMs).IntsInRange := by
  refine Value.inRange_withField ?_ (Value.inRange_u64 _)
  refine Value.inRange_withField ?_ (Value.inRange_bytes _)
  refine Value.inRange_withField ?_ (Value.inRange_bytes _)
  refine Value.inRange_withField ?_ (Value.all_int.mpr hdeadline)
  refine Value.inRange_withField ?_ hargs
  refine Value.inRange_withField ?_ (Value.inRange_text _)
  refine Value.inRange_withField ?_ (Value.inRange_bytes _)
  refine Value.inRange_withField ?_ (Value.inRange_bytes _)
  exact Value.inRange_withField (base_inRange ..) (Value.inRange_bytes _)

theorem streamData_inRange {spec : StreamDataSpec} (hbody : spec.body.IntsInRange) :
    (streamData spec frameId sentAtMs).IntsInRange := by
  refine withOptionalSigner_inRange ?_ spec.signer
  refine Value.inRange_withField ?_ hbody
  refine Value.inRange_withField ?_ (Value.inRange_text _)
  refine Value.inRange_withField ?_ (Value.inRange_u64 _)
  exact Value.inRange_withField (base_inRange ..) (Value.inRange_bytes _)

theorem streamEnd_inRange (spec : StreamEndSpec) :
    (streamEnd spec frameId sentAtMs).IntsInRange := by
  refine withOptionalSigner_inRange ?_ spec.signer
  refine Value.inRange_withField ?_ (Value.inRange_text _)
  exact Value.inRange_withField (base_inRange ..) (Value.inRange_bytes _)

theorem streamError_inRange (spec : StreamErrorSpec) :
    (streamError spec frameId sentAtMs).IntsInRange := by
  refine withOptionalSigner_inRange ?_ spec.signer
  refine Value.inRange_withField ?_ (Value.inRange_bytes _)
  refine Value.inRange_withField ?_ (Value.inRange_bytes _)
  exact Value.inRange_withField (base_inRange ..) (Value.inRange_bytes _)

theorem streamReply_inRange {spec : StreamReplySpec} (hpayload : spec.payload.IntsInRange) :
    (streamReply spec frameId sentAtMs).IntsInRange := by
  refine Value.inRange_withField ?_ (Value.inRange_bytes _)
  refine Value.inRange_withField ?_ hpayload
  exact Value.inRange_withField (base_inRange ..) (Value.inRange_bytes _)

theorem Built.frame_inRange (h : built.InRange) : (built.frame frameId sentAtMs).IntsInRange := by
  obtain ⟨hvalue, hdeadline⟩ := h
  cases built with
  | call spec => exact call_inRange _ _ (hvalue _ rfl) (hdeadline _ rfl)
  | result spec => exact result_inRange _ _ (hvalue _ rfl)
  | callError spec => exact callError_inRange _ _ spec
  | streamOpen spec => exact streamOpen_inRange _ _ (hvalue _ rfl) (hdeadline _ rfl)
  | streamData spec => exact streamData_inRange _ _ (hvalue _ rfl)
  | streamEnd spec => exact streamEnd_inRange _ _ spec
  | streamError spec => exact streamError_inRange _ _ spec
  | streamReply spec => exact streamReply_inRange _ _ (hvalue _ rfl)

/-- *A built frame can be signed exactly when what it embeds is in range.* -/
theorem Built.sign_eq_panicked {ε : Type} {E : Ed25519} {identity : KeyPair} :
    (sign E (built.frame frameId sentAtMs) identity : Outcome ε Value) = .panicked ↔
      ¬ built.InRange := by
  rw [Frame.sign_eq_panicked]
  refine not_congr ⟨fun h => ⟨fun v hv => ?_, fun d hd => ?_⟩, fun h => ?_⟩
  · obtain ⟨key, hkey, hget⟩ := built.get_embedded frameId sentAtMs hv
    exact Value.inRange_get h ((Value.get_without hkey _).trans hget)
  · have hkey : "deadline_ms" ∉ ["signature", "publisher_sig"] := by decide
    have hget := (Value.get_without hkey (built.frame frameId sentAtMs)).trans
      (built.get_deadline frameId sentAtMs hd)
    exact Value.all_int.mp (Value.inRange_get h hget)
  · exact Value.inRange_without (built.frame_inRange frameId sentAtMs h)

end

/-! ## PUBLISH -/

theorem signPublisher_eq_panicked {ε : Type} {E : Ed25519} {frame : Value} {identity : KeyPair} :
    (signPublisher E frame identity : Outcome ε Value) = .panicked ↔
      ¬ (publisherFields frame).IntsInRange := by
  constructor
  · intro h hrange
    rw [signPublisher, publisherSigningBytes, Cbor.encode_of_inRange hrange] at h
    cases h
  · intro h
    rw [signPublisher, publisherSigningBytes]
    cases hencode : Cbor.encode (publisherFields frame) with
    | ok b => exact absurd (Cbor.encode_eq_ok.mp hencode).1 h
    | err e => rfl
    | panicked => rfl

/-- The payload is one of the fields a publisher signs. -/
theorem publisherFields_payload {spec : PublishSpec} {frameId : ByteArr 16} {sentAtMs : UInt64}
    (h : (publisherFields (publish spec frameId sentAtMs)).IntsInRange) :
    spec.payload.IntsInRange := by
  have hget : (publisherFields (publish spec frameId sentAtMs)).get "payload" =
      some spec.payload := rfl
  exact Value.inRange_get h hget

end Macula.Frame
