import Macula.Connection.Stream
import Macula.Frame.Signable
import Macula.Ucan

/-!
# The reply to one CALL

`build_call_reply` decides what a CALL is answered with: the policy of the procedure comes
first, then the lookup of its handler, then what the handler's task ends with.  Around the
handler it publishes two facts, which announce the call and its outcome.

A RESULT carries whatever value the handler returned.  `Answer.Sendable` says which
replies a provider can sign and send: a value with an integer out of range makes `sign`
panic, and one that is too long does not fit a frame.
-/

namespace Macula.Connection

open Macula.Cbor (Value canon)
open Macula.Bolt4 (Code)
open Macula.Frame (CallInfo PublishSpec MAX_FRAME_BYTES)

variable (E : Ed25519) (C : Ucan.TokenCodec)

/-- The policy and the handlers a provider serves with. -/
structure Service where
  policy : (realm : ByteArr 32) → (procedure : String) → Ucan.Policy
  /-- Whether the procedure has a handler. -/
  lookup : (realm : ByteArr 32) → (procedure : String) → Bool

/-- Whether a CALL reaches a handler; the error is the code it is refused with. -/
def Service.admit (service : Service) (now : Int) (call : CallInfo) : Outcome Code Unit := do
  ((service.policy call.realm call.procedure).check E C now call.ucanToken).mapErr
    fun _ => .unauthorized
  if service.lookup call.realm call.procedure then return () else .err .unknownNextPeer

/-- How the task that runs a handler ends. -/
inductive HandlerEnd where
  | ok (value : Value)
  | err (reason : String)
  | panicked

/-- What a CALL is answered with. -/
inductive Answer where
  | result (payload : Value)
  | error (code : Code) (detail : Option String)

def HandlerEnd.answer : HandlerEnd → Answer
  | .ok value => .result value
  | .err reason => .error .unknownError (some reason)
  | .panicked => .error .temporaryRelayFailure none

def Answer.frame (answer : Answer) (callId : ByteArr 16) (selfPub : NodeId)
    (frameId : ByteArr 16) (sentAtMs : UInt64) : Value :=
  match answer with
  | .result payload =>
      Frame.result { callId, payload, respondedBy := selfPub } frameId sentAtMs
  | .error code detail =>
      Frame.callError { callId, code, reportedBy := selfPub, detail } frameId sentAtMs

/-! ## Facts -/

/-- The fresh values of a fact. -/
structure Stamp where
  frameId : ByteArr 16
  sentAtMs : UInt64
  seq : UInt64
  publishedAtMs : UInt64
deriving DecidableEq

def RPC_RECEIVED_TOPIC : String := "rpc.received_v1"
def RPC_REPLIED_TOPIC : String := "rpc.replied_v1"

def requestIdPayload (requestId : ByteArr 16) : Value :=
  (Value.map []).withField "request_id" (.bytes requestId.1)

/-- The frame a fact is published with. -/
def announceFact (realm : ByteArr 32) (identity : KeyPair) (topic : String) (payload : Value)
    (stamp : Stamp) : Outcome SendFrameError Value := do
  let fact : PublishSpec :=
    { topic, realm, publisher := identity.nodeId E, seq := stamp.seq, payload,
      publishedAtMs := stamp.publishedAtMs }
  let withPublisherSig ←
    Frame.signPublisher E (Frame.publish fact stamp.frameId stamp.sentAtMs) identity
  Frame.sign E withPublisherSig identity

def announceRpcReceived (realm : ByteArr 32) (identity : KeyPair) (requestId : ByteArr 16) :
    Stamp → Outcome SendFrameError Value :=
  announceFact E realm identity RPC_RECEIVED_TOPIC (requestIdPayload requestId)

def announceRpcReplied (realm : ByteArr 32) (identity : KeyPair) (requestId : ByteArr 16)
    (handlerErr : Option String) : Stamp → Outcome SendFrameError Value :=
  announceFact E realm identity RPC_REPLIED_TOPIC <|
    match handlerErr with
    | some reason => requestIdPayload requestId
        |>.withField "outcome" (.text "failed")
        |>.withField "reason" (.text reason)
    | none => (requestIdPayload requestId).withField "outcome" (.text "replied")

theorem requestIdPayload_inRange (requestId : ByteArr 16) :
    (requestIdPayload requestId).IntsInRange :=
  Value.inRange_withField (Value.inRange_map.mpr nofun) (Value.inRange_bytes _)

/-- A frame that is a fact and can be encoded. -/
def IsFact (frame : Value) : Prop :=
  frame.IntsInRange ∧ frame.get "frame_type" = some (.text "publish")

/-- A fact is always built and signed. -/
theorem announceFact_ok {payload : Value} (h : payload.IntsInRange) (realm : ByteArr 32)
    (identity : KeyPair) (topic : String) (stamp : Stamp) :
    ∃ frame, announceFact E realm identity topic payload stamp = .ok frame ∧ IsFact frame := by
  let fact : PublishSpec := ⟨topic, realm, identity.nodeId E, stamp.seq, payload,
    stamp.publishedAtMs, none⟩
  have hpublish : (Frame.publish fact stamp.frameId stamp.sentAtMs).IntsInRange :=
    Frame.publish_inRange h _ _
  obtain ⟨psig, hpsig⟩ :=
    Frame.signPublisher_of_inRange (ε := SendFrameError) E hpublish identity
  have hsigned : ((Frame.publish fact stamp.frameId stamp.sentAtMs).withField "publisher_sig"
      (.bytes psig.1)).IntsInRange :=
    Value.inRange_withField hpublish (Value.inRange_bytes _)
  obtain ⟨sig, hsig⟩ := Frame.sign_of_inRange (ε := SendFrameError) E hsigned identity
  refine ⟨_, by rw [announceFact, hpsig, Outcome.ok_bind, hsig],
    Value.inRange_withField hsigned (Value.inRange_bytes _), ?_⟩
  rw [Value.get_withField_ne (by decide), Value.get_withField_ne (by decide)]
  rfl

theorem announceRpcReceived_ok (realm : ByteArr 32) (identity : KeyPair)
    (requestId : ByteArr 16) (stamp : Stamp) :
    ∃ frame, announceRpcReceived E realm identity requestId stamp = .ok frame ∧ IsFact frame :=
  announceFact_ok E (requestIdPayload_inRange requestId) realm identity _ stamp

theorem announceRpcReplied_ok (realm : ByteArr 32) (identity : KeyPair)
    (requestId : ByteArr 16) (handlerErr : Option String) (stamp : Stamp) :
    ∃ frame, announceRpcReplied E realm identity requestId handlerErr stamp = .ok frame ∧
      IsFact frame := by
  have hid := requestIdPayload_inRange requestId
  cases handlerErr with
  | none =>
      exact announceFact_ok E (Value.inRange_withField hid (Value.inRange_text "replied"))
        realm identity _ stamp
  | some reason =>
      refine announceFact_ok E (Value.inRange_withField ?_ (Value.inRange_text reason))
        realm identity _ stamp
      exact Value.inRange_withField hid (Value.inRange_text "failed")

/-! ## Replies that can be sent -/

/-- The bytes of a signed RESULT besides its time and its payload. -/
def RESULT_BYTES : Nat := 278

/-- The bytes of a signed ERROR besides its time, its code and its detail. -/
def ERROR_BYTES : Nat := 300

/-- The `detail` field of an ERROR. -/
def detailValue (detail : Option String) : Value :=
  (detail.map fun d => .bytes (Utf8.bytes d)).getD .null

/-- The length of the signed reply. -/
def Answer.length (answer : Answer) (sentAtMs : UInt64) : Nat :=
  match answer with
  | .result payload => RESULT_BYTES + (canon (.int sentAtMs.toNat)).length + (canon payload).length
  | .error code detail => ERROR_BYTES + (canon (.int sentAtMs.toNat)).length +
      ((canon (.int code.asU8.toNat)).length + (canon (.text code.name)).length) +
      (canon (detailValue detail)).length

def Answer.InRange : Answer → Prop
  | .result payload => payload.IntsInRange
  | .error .. => True

/-- The reply can be signed, and fits a frame. -/
def Answer.Sendable (answer : Answer) (sentAtMs : UInt64) : Prop :=
  answer.InRange ∧ answer.length sentAtMs ≤ MAX_FRAME_BYTES

section

variable (callId : ByteArr 16) (selfPub : NodeId) (frameId : ByteArr 16) (sentAtMs : UInt64)

theorem Answer.length_signed (answer : Answer) (sig : ByteArr 64) :
    (canon ((answer.frame callId selfPub frameId sentAtMs).withField "signature"
      (.bytes sig.1))).length = answer.length sentAtMs := by
  cases answer with
  | result payload =>
      change (canon (.map
        [(.text "version", .int Frame.PROTOCOL_VERSION), (.text "frame_type", .text "result"),
         (.text "frame_id", .bytes frameId.1), (.text "sent_at_ms", .int sentAtMs.toNat),
         (.text "capabilities", .int 0), (.text "realm", .null),
         (.text "call_id", .bytes callId.1), (.text "source_route", .null),
         (.text "payload", payload), (.text "responded_by", .bytes selfPub.1),
         (.text "source_route_reverse", .bytes []), (.text "signature", .bytes sig.1)])).length = _
      rw [Cbor.length_canon_map]
      simp only [List.map_cons, List.map_nil, List.sum_cons, List.sum_nil, Cbor.length_canon_arr,
        Answer.length, RESULT_BYTES]
      generalize (canon payload).length = a
      generalize (canon (.int sentAtMs.toNat)).length = b
      -- the head of the map, then key and value of each entry
      change 1 + (8 + 1 + (11 + 7 + (9 + (1 + 16) + (11 + b + (13 + 1 + (6 + 1 +
        (8 + (1 + 16) + (13 + 1 + (8 + a + (13 + (2 + 32) + (21 + 1 +
          (10 + (2 + 64) + 0)))))))))))) = 278 + b + a
      omega
  | error code detail =>
      change (canon (.map
        [(.text "version", .int Frame.PROTOCOL_VERSION), (.text "frame_type", .text "error"),
         (.text "frame_id", .bytes frameId.1), (.text "sent_at_ms", .int sentAtMs.toNat),
         (.text "capabilities", .int 0), (.text "realm", .null),
         (.text "call_id", .bytes callId.1), (.text "source_route", .null),
         (.text "code", .int code.asU8.toNat), (.text "name", .text code.name),
         (.text "reported_by", .bytes selfPub.1), (.text "detail", detailValue detail),
         (.text "offending_hop", .null), (.text "source_route_partial", .bytes []),
         (.text "signature", .bytes sig.1)])).length = _
      rw [Cbor.length_canon_map]
      simp only [List.map_cons, List.map_nil, List.sum_cons, List.sum_nil, Cbor.length_canon_arr,
        Answer.length, ERROR_BYTES]
      generalize (canon (detailValue detail)).length = d
      generalize (canon (.int code.asU8.toNat)).length = c
      generalize (canon (.text code.name)).length = n
      generalize (canon (.int sentAtMs.toNat)).length = b
      change 1 + (8 + 1 + (11 + 6 + (9 + (1 + 16) + (11 + b + (13 + 1 + (6 + 1 +
        (8 + (1 + 16) + (13 + 1 + (5 + c + (5 + n + (12 + (2 + 32) + (7 + d +
          (14 + 1 + (21 + 1 + (10 + (2 + 64) + 0))))))))))))))) = 300 + b + (c + n) + d
      omega

theorem Answer.frame_inRange_iff {answer : Answer} :
    (answer.frame callId selfPub frameId sentAtMs).IntsInRange ↔ answer.InRange := by
  constructor
  · intro h
    cases answer with
    | result payload =>
        have hget : ((Answer.result payload).frame callId selfPub frameId sentAtMs).get "payload" =
            some payload := rfl
        exact Value.inRange_get h hget
    | error code detail => trivial
  · intro h
    cases answer with
    | result payload =>
        show (Frame.result ⟨callId, payload, selfPub, []⟩ frameId sentAtMs).IntsInRange
        exact Frame.result_inRange frameId sentAtMs h
    | error code detail =>
        exact Frame.callError_inRange frameId sentAtMs ⟨callId, code, selfPub, detail, none, []⟩

/-- A reply in range is signed and keeps its type and its call. -/
theorem Answer.sign_ok {answer : Answer} (h : answer.InRange) (identity : KeyPair) :
    ∃ signed, (Frame.sign E (answer.frame callId selfPub frameId sentAtMs) identity :
        Outcome SendFrameError Value) = .ok signed ∧ signed.IntsInRange ∧
      (canon signed).length = answer.length sentAtMs ∧
      Frame.frameCallId signed = some callId ∧
      (signed.get "frame_type" = some (.text "result") ∨
        signed.get "frame_type" = some (.text "error")) := by
  have hrange := (Answer.frame_inRange_iff callId selfPub frameId sentAtMs).mpr h
  obtain ⟨sig, hsig⟩ := Frame.sign_of_inRange (ε := SendFrameError) E hrange identity
  refine ⟨_, hsig, Value.inRange_withField hrange (Value.inRange_bytes _),
    answer.length_signed callId selfPub frameId sentAtMs sig, ?_, ?_⟩
  · have hcallId : (answer.frame callId selfPub frameId sentAtMs).get "call_id" =
        some (.bytes callId.1) := by
      cases answer <;> rfl
    rw [Frame.frameCallId, Value.get_withField_ne (by decide), hcallId]
    exact toArr_val callId
  · rw [Value.get_withField_ne (by decide)]
    cases answer with
    | result payload => exact .inl rfl
    | error code detail => exact .inr rfl

/-- Signing a reply that is not in range panics. -/
theorem Answer.sign_panicked {answer : Answer} (h : ¬ answer.InRange) (identity : KeyPair) :
    (Frame.sign E (answer.frame callId selfPub frameId sentAtMs) identity :
      Outcome SendFrameError Value) = .panicked := by
  refine Frame.sign_panicked E (fun hrange => h ?_) identity
  have hunsigned : (answer.frame callId selfPub frameId sentAtMs).without
      ["signature", "publisher_sig"] = answer.frame callId selfPub frameId sentAtMs := by
    cases answer <;> rfl
  rw [hunsigned] at hrange
  exact (Answer.frame_inRange_iff callId selfPub frameId sentAtMs).mp hrange

end

/-- A refusal without a detail can always be sent. -/
theorem Answer.sendable_error (code : Code) (sentAtMs : UInt64) :
    (Answer.error code none).Sendable sentAtMs := by
  refine ⟨trivial, ?_⟩
  have htime := Cbor.length_canon_int_le sentAtMs.toNat
  have hcode : (canon (.int code.asU8.toNat)).length + (canon (.text code.name)).length ≤ 40 := by
    cases code <;> decide
  have hdetail : (canon (detailValue none)).length = 1 := rfl
  simp only [Answer.length, ERROR_BYTES, hdetail, MAX_FRAME_BYTES]
  omega

end Macula.Connection
