import Macula.Connection.Handshake
import Macula.Connection.Reply
import Macula.Frame.Advertise
import Macula.Frame.Signable
import Macula.Inbound

/-!
# What a session sends

Making a call, publishing and advertising on a handshaked session, as functions of what the
network does meanwhile: whether each write goes through, and what the reads return until the
timeout.  The fresh values of every frame are arguments.

A call announces itself with two facts, whose results nobody looks at; `Session.withFacts_eq`
says that they change nothing.  What is left are the places where a frame is signed, and a
call, a publish and an advertise panic there exactly when what they were given has an integer
out of range (`Session.call_eq_panicked`, `Session.publish_eq_panicked`).
-/

namespace Macula.Connection

open Macula.Cbor (Value)
open Macula.Frame (AdvertiseSpec Built CallResponse CallSpec PublishSpec frameCallId
  parseCallResponse)

/-! ## One frame -/

/-- What a `send_frame` whose future is not dropped returns. -/
def transmit (frame : Value) (takes : Bool) : Outcome SendFrameError Unit := do
  let _encoded ← (Frame.encode frame).mapErr .encode
  if takes then return () else .err .write

/-- The result of a `send_frame` depends on the stream only in whether it takes the bytes. -/
theorem sendFrame_eq_transmit {s : SendStream} {frame : Value} {ending : WriteEnd}
    {result : Outcome SendFrameError Unit} (h : (sendFrame s frame ending).2 = some result) :
    ∃ takes, result = transmit frame takes := by
  unfold sendFrame at h
  unfold transmit
  cases hencode : Frame.encode frame with
  | ok encoded =>
      simp only [hencode] at h
      cases ending with
      | done =>
          rw [SendStream.writeAll] at h
          split at h <;> cases h
          · exact ⟨false, rfl⟩
          · exact ⟨true, rfl⟩
      | dropped n =>
          rw [SendStream.writeAll] at h
          split at h <;> cases h
      | failed n =>
          rw [SendStream.writeAll] at h
          split at h <;> cases h <;> exact ⟨false, rfl⟩
  | err e =>
      rw [hencode] at h
      cases h
      exact ⟨true, rfl⟩
  | panicked =>
      rw [hencode] at h
      cases h
      exact ⟨true, rfl⟩

theorem transmit_ne_panicked {frame : Value} (h : frame.IntsInRange) (takes : Bool) :
    transmit frame takes ≠ .panicked := by
  refine Outcome.bind_ne_panicked ?_ fun encoded _ => ?_
  · rw [Ne, Outcome.mapErr_eq_panicked, Frame.encode_of_inRange h]
    split <;> nofun
  · split <;> nofun

/-- One frame off the stream, with the bytes and the reads that are left. -/
def recvFrame (buf : Bytes) (reads : List Read) :
    Outcome RecvFrameError (Value × Bytes × List Read) :=
  match Frame.decode buf with
  | .ok (.frame v consumed) => .ok (v, buf.drop consumed, reads)
  | .ok (.more _) =>
      match reads with
      | [] => .err .timeout
      | .data chunk :: reads => recvFrame (buf ++ chunk) reads
      | .closed :: _ => .err .streamClosed
      | .failed :: _ => .err .read
  | .err e => .err (.decode e)
  | .panicked => .panicked

theorem recvFrame_ne_panicked : ∀ {reads : List Read} {buf : Bytes},
    recvFrame buf reads ≠ .panicked
  | reads, buf => by
      rw [recvFrame.eq_def]
      split
      · nofun
      · split
        · nofun
        · exact recvFrame_ne_panicked
        · nofun
        · nofun
      · nofun
      · next hdecode => exact absurd hdecode (Frame.decode_ne_panicked buf)

theorem recvFrame_fits : ∀ {reads reads' : List Read} {buf buf' : Bytes} {v : Value},
    recvFrame buf reads = .ok (v, buf', reads') → Cbor.Fits 0 v
  | reads, reads', buf, buf', v, h => by
      rw [recvFrame.eq_def] at h
      split at h
      · next w consumed hdecode =>
          cases h
          exact Frame.decode_frame_fits hdecode
      · split at h
        · cases h
        · exact recvFrame_fits h
        · cases h
        · cases h
      · cases h
      · cases h

/-- A frame is taken out of the buffer, or out of the reads. -/
theorem recvFrame_lt : ∀ {reads reads' : List Read} {buf buf' : Bytes} {v : Value},
    recvFrame buf reads = .ok (v, buf', reads') →
      reads'.length < reads.length ∨ reads'.length = reads.length ∧ buf'.length < buf.length
  | reads, reads', buf, buf', v, h => by
      rw [recvFrame.eq_def] at h
      split at h
      · next w consumed hdecode =>
          cases h
          have hle := Frame.decode_frame_le hdecode
          rw [List.length_drop]
          omega
      · split at h
        · cases h
        · have hlt := recvFrame_lt h
          rw [List.length_cons]
          omega
        · cases h
        · cases h
      · cases h
      · cases h

/-! ## Waiting for an answer -/

/-- The first answer to `callId`; every other frame is dropped. -/
def awaitCallResponse (callId : ByteArr 16) (buf : Bytes) (reads : List Read) :
    Outcome CallError CallResponse :=
  match _ : recvFrame buf reads with
  | .ok (value, buf', reads') =>
      if frameCallId value ≠ some callId then awaitCallResponse callId buf' reads'
      else
        match parseCallResponse value with
        | .ok response => .ok response
        | .err _ => awaitCallResponse callId buf' reads'
        | .panicked => .panicked
  | .err e => .err (.recv e)
  | .panicked => .panicked
termination_by (reads.length, buf.length)
decreasing_by
  all_goals
    rcases recvFrame_lt ‹recvFrame buf reads = .ok _› with hlt | ⟨heq, hlt⟩
    · exact Prod.Lex.left _ _ hlt
    · rw [heq]
      exact Prod.Lex.right _ hlt

theorem awaitCallResponse_ne_panicked (callId : ByteArr 16) (buf : Bytes) (reads : List Read) :
    awaitCallResponse callId buf reads ≠ .panicked := by
  fun_induction awaitCallResponse callId buf reads with
  | case1 buf reads value buf' reads' hrecv hid ih => exact ih
  | case2 buf reads value buf' reads' hrecv hid response hparse => nofun
  | case3 buf reads value buf' reads' hrecv hid e hparse ih => exact ih
  | case4 buf reads value buf' reads' hrecv hid hparse =>
      exact absurd hparse (Frame.parseCallResponse_ne_panicked value)
  | case5 buf reads e hrecv => nofun
  | case6 buf reads hrecv => exact absurd hrecv recvFrame_ne_panicked

/-- The payload of an answer comes off the wire. -/
theorem awaitCallResponse_inRange {callId : ByteArr 16} {buf : Bytes} {reads : List Read}
    {payload : Value} {respondedBy : NodeId}
    (h : awaitCallResponse callId buf reads = .ok (.result payload respondedBy)) :
    payload.IntsInRange := by
  fun_induction awaitCallResponse callId buf reads with
  | case1 buf reads value buf' reads' hrecv hid ih => exact ih h
  | case2 buf reads value buf' reads' hrecv hid response hparse =>
      cases h
      have hrange := (recvFrame_fits hrecv).encodable.ints
      unfold parseCallResponse at hparse
      split at hparse
      · obtain ⟨w, hw, hparse⟩ := Outcome.bind_eq_ok.mp hparse
        obtain ⟨by_, -, hparse⟩ := Outcome.bind_eq_ok.mp hparse
        cases hparse
        exact Value.inRange_get hrange (Outcome.okOr_eq_ok.mp hw)
      · split at hparse
        · obtain ⟨code, -, hparse⟩ := Outcome.bind_eq_ok.mp hparse
          obtain ⟨name, -, hparse⟩ := Outcome.bind_eq_ok.mp hparse
          obtain ⟨by_, -, hparse⟩ := Outcome.bind_eq_ok.mp hparse
          obtain ⟨detail, -, hparse⟩ := Outcome.bind_eq_ok.mp hparse
          cases hparse
        · cases hparse
  | case3 buf reads value buf' reads' hrecv hid e hparse ih => exact ih h
  | case4 buf reads value buf' reads' hrecv hid hparse => cases h
  | case5 buf reads e hrecv => cases h
  | case6 buf reads hrecv => cases h

/-! ## Signing and sending -/

/-- The fresh values of a frame, and whether the stream takes it. -/
structure FrameWire where
  frameId : ByteArr 16
  sentAtMs : UInt64
  takes : Bool
deriving DecidableEq

section

variable (E : Ed25519) (identity : KeyPair)

/-- `let signed = frame::sign(frame, identity); stream.send_frame(signed)`. -/
def sendSigned (frame : Value) (takes : Bool) : Outcome SendFrameError Unit := do
  let signed ← Frame.sign E frame identity
  transmit signed takes

def Session.publish (spec : PublishSpec) (wire : FrameWire) : Outcome SendFrameError Unit := do
  let unsigned := Frame.publish spec wire.frameId wire.sentAtMs
  let withPublisherSig ← Frame.signPublisher E unsigned identity
  sendSigned E identity withPublisherSig wire.takes

def Session.advertise (spec : AdvertiseSpec) (wire : FrameWire) : Outcome SendFrameError Unit :=
  sendSigned E identity (Frame.advertise spec wire.frameId wire.sentAtMs) wire.takes

/-- The GOODBYE is signed; whether it can be encoded and written does not matter. -/
def Session.close {ε : Type} (reason : String) (detail : Option String) (frameId : ByteArr 16)
    (sentAtMs : UInt64) : Outcome ε Unit := do
  let _goodbye ← Frame.sign E (Frame.goodbye reason detail frameId sentAtMs) identity
  return ()

variable {E identity}

theorem sendSigned_ne_panicked {frame : Value} (h : frame.IntsInRange) (takes : Bool) :
    sendSigned E identity frame takes ≠ .panicked := by
  obtain ⟨sig, hsig⟩ := Frame.sign_of_inRange (ε := SendFrameError) E h identity
  rw [sendSigned, hsig, Outcome.ok_bind]
  exact transmit_ne_panicked (Value.inRange_withField h (Value.inRange_bytes _)) takes

/-- A frame of a call or a stream is sent, or refused, when what it embeds is in range. -/
theorem sendSigned_built_eq_panicked (built : Built) {frameId : ByteArr 16} {sentAtMs : UInt64}
    {takes : Bool} :
    sendSigned E identity (built.frame frameId sentAtMs) takes = .panicked ↔ ¬ built.InRange := by
  constructor
  · intro h hrange
    exact sendSigned_ne_panicked (built.frame_inRange frameId sentAtMs hrange) takes h
  · intro h
    rw [sendSigned, (Built.sign_eq_panicked frameId sentAtMs).mpr h]
    rfl

/-- *A publish panics exactly when its payload is out of range.* -/
theorem Session.publish_eq_panicked {spec : PublishSpec} {wire : FrameWire} :
    Session.publish E identity spec wire = .panicked ↔ ¬ spec.payload.IntsInRange := by
  constructor
  · intro h hrange
    have hpublish := Frame.publish_inRange hrange wire.frameId wire.sentAtMs
    obtain ⟨psig, hpsig⟩ :=
      Frame.signPublisher_of_inRange (ε := SendFrameError) E hpublish identity
    rw [Session.publish, hpsig, Outcome.ok_bind] at h
    refine sendSigned_ne_panicked ?_ wire.takes h
    exact Value.inRange_withField hpublish (Value.inRange_bytes _)
  · intro h
    rw [Session.publish, Frame.signPublisher_eq_panicked.mpr fun hfields =>
      h (Frame.publisherFields_payload hfields)]
    rfl

theorem Session.advertise_ne_panicked (spec : AdvertiseSpec) (wire : FrameWire) :
    Session.advertise E identity spec wire ≠ .panicked :=
  sendSigned_ne_panicked (Frame.advertise_inRange _ _ spec) wire.takes

theorem Session.close_eq_ok {ε : Type} (reason : String) (detail : Option String)
    (frameId : ByteArr 16) (sentAtMs : UInt64) :
    (Session.close E identity reason detail frameId sentAtMs : Outcome ε Unit) = .ok () := by
  obtain ⟨sig, hsig⟩ := Frame.sign_of_inRange (ε := ε) E
    (Frame.goodbye_inRange frameId sentAtMs reason detail) identity
  rw [Session.close, hsig]
  rfl

end

/-! ## Facts -/

def RPC_SENT_TOPIC : String := "rpc.sent_v1"
def RPC_COMPLETED_TOPIC : String := "rpc.completed_v1"

section

variable (E : Ed25519) (text : CallError → String) (identity : KeyPair)

def announceRpcSent (realm : ByteArr 32) (requestId : ByteArr 16) :
    Stamp → Outcome SendFrameError Value :=
  announceFact E realm identity RPC_SENT_TOPIC (requestIdPayload requestId)

/-- `text` is the message of an error. -/
def announceRpcCompleted (realm : ByteArr 32) (requestId : ByteArr 16)
    (result : Except CallError CallResponse) : Stamp → Outcome SendFrameError Value :=
  announceFact E realm identity RPC_COMPLETED_TOPIC <|
    match result with
    | .error e => requestIdPayload requestId
        |>.withField "outcome" (.text "failed")
        |>.withField "reason" (.text (text e))
    | .ok (.error _ name ..) => requestIdPayload requestId
        |>.withField "outcome" (.text "failed")
        |>.withField "reason" (.text name)
    | .ok (.result ..) => (requestIdPayload requestId).withField "outcome" (.text "completed")

/-- `let _ = session.publish(&fact, identity)`. -/
def publishFact {ε : Type} (fact : Outcome SendFrameError Value) (takes : Bool) :
    Outcome ε Unit :=
  Outcome.ignored do
    let frame ← fact
    transmit frame takes

/-- A fact is a PUBLISH of the session whose result nobody looks at. -/
theorem publishFact_announceFact {ε : Type} {realm : ByteArr 32} {topic : String}
    {payload : Value} {stamp : Stamp} {takes : Bool} :
    (publishFact (announceFact E realm identity topic payload stamp) takes : Outcome ε Unit) =
      (Session.publish E identity ⟨topic, realm, identity.nodeId E, stamp.seq, payload,
        stamp.publishedAtMs, none⟩ ⟨stamp.frameId, stamp.sentAtMs, takes⟩).ignored := by
  rw [publishFact, announceFact, Outcome.bind_assoc]
  rfl

variable {E text identity}

theorem publishFact_announceFact_eq_ok {ε : Type} {realm : ByteArr 32} {topic : String}
    {payload : Value} {stamp : Stamp} {takes : Bool} (h : payload.IntsInRange) :
    (publishFact (announceFact E realm identity topic payload stamp) takes : Outcome ε Unit) =
      .ok () := by
  rw [publishFact_announceFact]
  exact Outcome.ignored_eq_ok fun hpanic => Session.publish_eq_panicked.mp hpanic h

theorem announceRpcCompleted_payload {requestId : ByteArr 16} {outcome reason : String} :
    (((requestIdPayload requestId).withField "outcome" (.text outcome)).withField "reason"
      (.text reason)).IntsInRange := by
  have hid := requestIdPayload_inRange requestId
  exact Value.inRange_withField (Value.inRange_withField hid (Value.inRange_text _))
    (Value.inRange_text _)

end

/-! ## Calls -/

/-- What a session meets while it makes a call. -/
structure CallWire where
  requestId : ByteArr 16
  sent : Stamp
  takesSent : Bool
  callId : ByteArr 16
  call : FrameWire
  /-- What the reads return until the timeout. -/
  reads : List Read
  completed : Stamp
  takesCompleted : Bool
deriving DecidableEq

section

variable (E : Ed25519) (text : CallError → String) (identity : KeyPair)

/-- A CALL, and the wait for its answer. -/
def FrameStream.request (buf : Bytes) (spec : CallSpec) (wire : CallWire) :
    Outcome CallError CallResponse := do
  let frame := Frame.call spec wire.call.frameId wire.call.sentAtMs
  (sendSigned E identity frame wire.call.takes).mapErr .send
  awaitCallResponse spec.callId buf wire.reads

def FrameStream.call (buf : Bytes) (procedure : String) (realm : ByteArr 32) (payload : Value)
    (deadlineMs : Int) (wire : CallWire) : Outcome CallError CallResponse :=
  let caller := identity.nodeId E
  FrameStream.request E identity buf
    { callId := wire.callId, procedure, realm, payload, deadlineMs, caller } wire

def FrameStream.callWithUcan (buf : Bytes) (procedure : String) (realm : ByteArr 32)
    (payload : Value) (deadlineMs : Int) (ucanToken : Bytes) (wire : CallWire) :
    Outcome CallError CallResponse :=
  let caller := identity.nodeId E
  FrameStream.request E identity buf
    { callId := wire.callId, procedure, realm, payload, deadlineMs, caller, ucanToken } wire

/-- The two facts around a call. -/
def Session.withFacts (realm : ByteArr 32) (wire : CallWire)
    (result : Outcome CallError CallResponse) : Outcome CallError CallResponse := do
  publishFact (announceRpcSent E identity realm wire.requestId wire.sent) wire.takesSent
  result.after fun r =>
    publishFact (announceRpcCompleted E text identity realm wire.requestId r wire.completed)
      wire.takesCompleted

def Session.call (session : Session) (procedure : String) (realm : ByteArr 32) (payload : Value)
    (deadlineMs : Int) (wire : CallWire) : Outcome CallError CallResponse :=
  Session.withFacts E text identity realm wire
    (FrameStream.call E identity session.buf procedure realm payload deadlineMs wire)

def Session.callWithUcan (session : Session) (procedure : String) (realm : ByteArr 32)
    (payload : Value) (deadlineMs : Int) (ucanToken : Bytes) (wire : CallWire) :
    Outcome CallError CallResponse :=
  Session.withFacts E text identity realm wire
    (FrameStream.callWithUcan E identity session.buf procedure realm payload deadlineMs
      ucanToken wire)

variable {E text identity}

/-- The facts change nothing. -/
theorem Session.withFacts_eq {realm : ByteArr 32} {wire : CallWire}
    {result : Outcome CallError CallResponse} :
    Session.withFacts E text identity realm wire result = result := by
  rw [Session.withFacts, announceRpcSent,
    publishFact_announceFact_eq_ok (requestIdPayload_inRange wire.requestId), Outcome.ok_bind]
  refine Outcome.after_eq fun r => ?_
  cases r with
  | error e => exact publishFact_announceFact_eq_ok announceRpcCompleted_payload
  | ok response =>
      cases response with
      | result payload respondedBy =>
          exact publishFact_announceFact_eq_ok (Value.inRange_withField
            (requestIdPayload_inRange wire.requestId) (Value.inRange_text _))
      | error code name reportedBy detail =>
          exact publishFact_announceFact_eq_ok announceRpcCompleted_payload

theorem FrameStream.request_eq_panicked {buf : Bytes} {spec : CallSpec} {wire : CallWire} :
    FrameStream.request E identity buf spec wire = .panicked ↔
      ¬ (spec.payload.IntsInRange ∧ Cbor.IntOk (.int spec.deadlineMs)) := by
  have hrange : (Built.call spec).InRange ↔
      spec.payload.IntsInRange ∧ Cbor.IntOk (.int spec.deadlineMs) :=
    Built.inRange_iff_of_deadline rfl rfl
  have hsend : sendSigned E identity (Frame.call spec wire.call.frameId wire.call.sentAtMs)
      wire.call.takes = .panicked ↔ ¬ (Built.call spec).InRange :=
    sendSigned_built_eq_panicked (.call spec)
  rw [← hrange, ← hsend, FrameStream.request, Outcome.bind_eq_panicked,
    Outcome.mapErr_eq_panicked]
  constructor
  · rintro (h | ⟨⟨⟩, -, h⟩)
    · exact h
    · exact absurd h (awaitCallResponse_ne_panicked spec.callId buf wire.reads)
  · exact .inl

/-- *A call panics exactly when its payload or its deadline is out of range.* -/
theorem Session.call_eq_panicked {session : Session} {procedure : String} {realm : ByteArr 32}
    {payload : Value} {deadlineMs : Int} {wire : CallWire} :
    session.call E text identity procedure realm payload deadlineMs wire = .panicked ↔
      ¬ (payload.IntsInRange ∧ Cbor.IntOk (.int deadlineMs)) := by
  rw [Session.call, Session.withFacts_eq, FrameStream.call, FrameStream.request_eq_panicked]

theorem Session.callWithUcan_eq_panicked {session : Session} {procedure : String}
    {realm : ByteArr 32} {payload : Value} {deadlineMs : Int} {ucanToken : Bytes}
    {wire : CallWire} :
    session.callWithUcan E text identity procedure realm payload deadlineMs ucanToken wire =
      .panicked ↔ ¬ (payload.IntsInRange ∧ Cbor.IntOk (.int deadlineMs)) := by
  rw [Session.callWithUcan, Session.withFacts_eq, FrameStream.callWithUcan,
    FrameStream.request_eq_panicked]

/-- The payload that a call returns can be encoded again. -/
theorem Session.call_inRange {session : Session} {procedure : String} {realm : ByteArr 32}
    {payload : Value} {deadlineMs : Int} {wire : CallWire} {answer : Value}
    {respondedBy : NodeId}
    (h : session.call E text identity procedure realm payload deadlineMs wire =
      .ok (.result answer respondedBy)) : answer.IntsInRange := by
  rw [Session.call, Session.withFacts_eq] at h
  obtain ⟨⟨⟩, -, h⟩ := Outcome.bind_eq_ok.mp h
  exact awaitCallResponse_inRange h

end

end Macula.Connection
