import Macula.Frame.Call
import Macula.Frame.Publish

/-!
# EVENT

What a subscriber receives.  The frame's own signature is its last hop's; `publisher_sig`
is checked against the `publisher` the frame names.
-/

namespace Macula.Frame

open Macula.Cbor (Value)

structure EventInfo where
  topic : String
  realm : ByteArr 32
  publisher : NodeId
  seq : UInt64
  payload : Value
  deliveredVia : String
deriving DecidableEq

inductive ParseEventError where
  | notAnEventFrame
  | missingField (name : String)
  | wrongFieldType (name : String)
deriving DecidableEq

/-- The `delivered_via` of an EVENT, which is text. -/
def deliveredViaField (frame : Value) : Outcome ParseEventError String :=
  match frame.get "delivered_via" with
  | some (.text t) => .ok t
  | some _ => .err (.wrongFieldType "delivered_via")
  | none => .err (.missingField "delivered_via")

def parseEvent (frame : Value) : Outcome ParseEventError EventInfo :=
  if frame.get "frame_type" = some (.text "event") then do
    let topic ← textField .missingField .wrongFieldType frame "topic"
    let realm ← arrField .missingField .wrongFieldType 32 frame "realm"
    let publisher ← arrField .missingField .wrongFieldType 32 frame "publisher"
    let seq ← uintField .missingField .wrongFieldType frame "seq"
    let payload ← .okOr (.missingField "payload") (frame.get "payload")
    let deliveredVia ← deliveredViaField frame
    return { topic, realm, publisher, seq, payload, deliveredVia }
  else .err .notAnEventFrame

inductive VerifyPublisherError where
  | missingPublisherSig
  | badPublisherSig
  | publisherSigInvalid
deriving DecidableEq

/-- The 64 bytes of a frame's `publisher_sig` field. -/
def publisherSigField (frame : Value) : Outcome VerifyPublisherError (ByteArr 64) :=
  match frame.get "publisher_sig" with
  | some (.bytes b) => .okOr .badPublisherSig (toArr 64 b)
  | _ => .err .missingPublisherSig

/-- The key a frame names as its publisher. -/
def publisherField (frame : Value) : Outcome VerifyPublisherError NodeId :=
  match frame.get "publisher" with
  | some (.bytes b) => .okOr .badPublisherSig (toArr 32 b)
  | _ => .err .badPublisherSig

def verifyPublisher (E : Ed25519) (frame : Value) : Outcome VerifyPublisherError Unit := do
  let sig ← publisherSigField frame
  let pubkey ← publisherField frame
  let signable ← publisherSigningBytes frame
  if E.verify signable sig pubkey then return () else .err .publisherSigInvalid

end Macula.Frame
