import Macula.Frame.Envelope

/-!
# PUBLISH

A PUBLISH carries two signatures: `publisher_sig` over five of its fields, which an EVENT
derived from it keeps, and the frame's own.  Both encode what they sign and `expect` that to
succeed.
-/

namespace Macula.Frame

open Macula.Cbor (Value)

structure PublishSpec where
  topic : String
  realm : ByteArr 32
  publisher : NodeId
  seq : UInt64
  payload : Value
  publishedAtMs : UInt64
  ttlMs : Option UInt64 := none

def publish (spec : PublishSpec) (frameId : ByteArr 16) (sentAtMs : UInt64) : Value :=
  (Value.map (base "publish" 0 frameId sentAtMs))
    |>.withField "realm" (.bytes spec.realm.1)
    |>.withField "topic" (.bytes (Utf8.bytes spec.topic))
    |>.withField "publisher" (.bytes spec.publisher.1)
    |>.withField "seq" (.int spec.seq.toNat)
    |>.withField "payload" spec.payload
    |>.withField "published_at_ms" (.int spec.publishedAtMs.toNat)
    |>.withField "ttl_ms" ((spec.ttlMs.map fun t => .int t.toNat).getD .null)

def EVENT_PUBLISHER_DOMAIN : Bytes := Utf8.bytes "macula-v2-event-pub\x00"

/-- The five fields a publisher signs, with null for those that are missing. -/
def publisherFields (frame : Value) : Value :=
  .map (["topic", "realm", "publisher", "seq", "payload"].map fun f =>
    (.text f, (frame.get f).getD .null))

def publisherSigningBytes {ε : Type} (frame : Value) : Outcome ε Bytes := do
  let canonical ← .expectOk (Cbor.encode (publisherFields frame))
  return EVENT_PUBLISHER_DOMAIN ++ canonical

/-- The frame with its `publisher_sig` field set. -/
def signPublisher {ε : Type} (E : Ed25519) (frame : Value) (identity : KeyPair) :
    Outcome ε Value := do
  let signable ← publisherSigningBytes frame
  return frame.withField "publisher_sig" (.bytes (identity.sign E signable).1)

/-! ## A fact can always be signed -/

theorem publish_inRange {spec : PublishSpec} (h : spec.payload.IntsInRange)
    (frameId : ByteArr 16) (sentAtMs : UInt64) : (publish spec frameId sentAtMs).IntsInRange := by
  have httl : ((spec.ttlMs.map fun t => Value.int t.toNat).getD .null).IntsInRange :=
    Value.inRange_optional (fun t => Value.inRange_u64 t) spec.ttlMs
  refine Value.inRange_withField ?_ httl
  refine Value.inRange_withField ?_ (Value.inRange_u64 _)
  refine Value.inRange_withField ?_ h
  refine Value.inRange_withField ?_ (Value.inRange_u64 _)
  refine Value.inRange_withField ?_ (Value.inRange_bytes _)
  refine Value.inRange_withField ?_ (Value.inRange_bytes _)
  exact Value.inRange_withField (base_inRange ..) (Value.inRange_bytes _)

theorem publisherFields_inRange {frame : Value} (h : frame.IntsInRange) :
    (publisherFields frame).IntsInRange := by
  refine Value.inRange_map.mpr fun p hp => ?_
  obtain ⟨f, -, rfl⟩ := List.mem_map.mp hp
  refine ⟨Value.inRange_text f, ?_⟩
  cases hget : frame.get f with
  | none => exact Value.inRange_null
  | some v => exact Value.inRange_get h hget

theorem signPublisher_of_inRange {ε : Type} (E : Ed25519) {frame : Value}
    (h : frame.IntsInRange) (identity : KeyPair) :
    ∃ sig : ByteArr 64, (signPublisher E frame identity : Outcome ε Value) =
      .ok (frame.withField "publisher_sig" (.bytes sig.1)) := by
  have hencode := Cbor.encode_of_inRange (publisherFields_inRange h)
  refine ⟨identity.sign E (EVENT_PUBLISHER_DOMAIN ++ Cbor.canon (publisherFields frame)), ?_⟩
  rw [signPublisher, publisherSigningBytes, hencode]
  rfl

end Macula.Frame
