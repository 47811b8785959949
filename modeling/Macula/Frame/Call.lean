import Macula.Bolt4
import Macula.Frame.Envelope

/-!
# CALL, RESULT and ERROR

Building and parsing the three frames of a call.  Text fields of the Erlang spec that are
`binary()` travel as byte strings, so `procedure` and `detail` are validated as UTF-8 when
they are read.

`frame_id` and `sent_at_ms` are arguments of the builders, as in `base`.
-/

namespace Macula.Frame

open Macula.Cbor (Value)
open Macula.Bolt4 (Code)

/-! ## Building -/

structure CallSpec where
  callId : ByteArr 16
  procedure : String
  realm : ByteArr 32
  payload : Value
  deadlineMs : Int
  caller : NodeId
  sourceRoute : Bytes := []
  retryBudget : UInt64 := 0
  ucanToken : Bytes := []

def call (spec : CallSpec) (frameId : ByteArr 16) (sentAtMs : UInt64) : Value :=
  (Value.map (base "call" 0 frameId sentAtMs))
    |>.withField "realm" (.bytes spec.realm.1)
    |>.withField "call_id" (.bytes spec.callId.1)
    |>.withField "procedure" (.bytes (Utf8.bytes spec.procedure))
    |>.withField "payload" spec.payload
    |>.withField "deadline_ms" (.int spec.deadlineMs)
    |>.withField "caller" (.bytes spec.caller.1)
    |>.withField "source_route" (.bytes spec.sourceRoute)
    |>.withField "retry_budget" (.int spec.retryBudget.toNat)
    |>.withField "ucan_token" (.bytes spec.ucanToken)

structure ResultSpec where
  callId : ByteArr 16
  payload : Value
  respondedBy : NodeId
  sourceRouteReverse : Bytes := []

def result (spec : ResultSpec) (frameId : ByteArr 16) (sentAtMs : UInt64) : Value :=
  (Value.map (base "result" 0 frameId sentAtMs))
    |>.withField "call_id" (.bytes spec.callId.1)
    |>.withField "payload" spec.payload
    |>.withField "responded_by" (.bytes spec.respondedBy.1)
    |>.withField "source_route_reverse" (.bytes spec.sourceRouteReverse)

structure CallErrorSpec where
  callId : ByteArr 16
  code : Code
  reportedBy : NodeId
  detail : Option String := none
  offendingHop : Option NodeId := none
  sourceRoutePartial : Bytes := []

def callError (spec : CallErrorSpec) (frameId : ByteArr 16) (sentAtMs : UInt64) : Value :=
  (Value.map (base "error" 0 frameId sentAtMs))
    |>.withField "call_id" (.bytes spec.callId.1)
    |>.withField "code" (.int spec.code.asU8.toNat)
    |>.withField "name" (.text spec.code.name)
    |>.withField "reported_by" (.bytes spec.reportedBy.1)
    |>.withField "detail" ((spec.detail.map fun d => .bytes (Utf8.bytes d)).getD .null)
    |>.withField "offending_hop" ((spec.offendingHop.map fun h => .bytes h.1).getD .null)
    |>.withField "source_route_partial" (.bytes spec.sourceRoutePartial)

/-! ## Parsing a CALL -/

/-- What a provider needs from an inbound CALL. -/
structure CallInfo where
  callId : ByteArr 16
  procedure : String
  realm : ByteArr 32
  payload : Value
  deadlineMs : Int
  caller : NodeId
  ucanToken : Bytes
deriving DecidableEq

/-- What is left of a CALL behind the check of its token. -/
def CallInfo.withoutToken (call : CallInfo) : CallInfo := { call with ucanToken := [] }

inductive ParseCallError where
  | notACallFrame
  | missingField (name : String)
  | wrongFieldType (name : String)
deriving DecidableEq

/-- A byte field holding UTF-8 text. -/
def textField {ε : Type} (missing wrong : String → ε) (frame : Value) (field : String) :
    Outcome ε String :=
  match frame.get field with
  | some (.bytes b) => .okOr (wrong field) (Utf8.decode b)
  | some _ => .err (wrong field)
  | none => .err (missing field)

/-- An integer field of any size. -/
def intField {ε : Type} (missing wrong : String → ε) (frame : Value) (field : String) :
    Outcome ε Int :=
  match frame.get field with
  | some (.int n) => .ok n
  | some _ => .err (wrong field)
  | none => .err (missing field)

/-- An optional byte field: anything but bytes reads as empty. -/
def bytesFieldOrEmpty (frame : Value) (field : String) : Bytes :=
  match frame.get field with
  | some (.bytes b) => b
  | _ => []

theorem textField_of_get {ε : Type} {missing wrong : String → ε} {frame : Value} {field t : String}
    (h : frame.get field = some (.bytes (Utf8.bytes t))) :
    textField missing wrong frame field = .ok t := by
  rw [textField, h]
  simp

theorem intField_eq_ok {ε : Type} {missing wrong : String → ε} {frame : Value} {field : String}
    {n : Int} : intField missing wrong frame field = .ok n ↔ frame.get field = some (.int n) := by
  unfold intField
  split <;> simp_all

theorem intField_of_get {ε : Type} {missing wrong : String → ε} {frame : Value} {field : String}
    {n : Int} (h : frame.get field = some (.int n)) :
    intField missing wrong frame field = .ok n :=
  intField_eq_ok.mpr h

def parseCall (frame : Value) : Outcome ParseCallError CallInfo :=
  if frame.get "frame_type" = some (.text "call") then do
    let callId ← arrField .missingField .wrongFieldType 16 frame "call_id"
    let procedure ← textField .missingField .wrongFieldType frame "procedure"
    let realm ← arrField .missingField .wrongFieldType 32 frame "realm"
    let payload ← .okOr (.missingField "payload") (frame.get "payload")
    let deadlineMs ← intField .missingField .wrongFieldType frame "deadline_ms"
    let caller ← arrField .missingField .wrongFieldType 32 frame "caller"
    let ucanToken := bytesFieldOrEmpty frame "ucan_token"
    return { callId, procedure, realm, payload, deadlineMs, caller, ucanToken }
  else .err .notACallFrame

theorem parseCall_ucanToken {frame : Value} {call : CallInfo} (h : parseCall frame = .ok call) :
    call.ucanToken = bytesFieldOrEmpty frame "ucan_token" := by
  simp only [parseCall] at h
  split at h
  next =>
    obtain ⟨callId, -, h⟩ := Outcome.bind_eq_ok.mp h
    obtain ⟨procedure, -, h⟩ := Outcome.bind_eq_ok.mp h
    obtain ⟨realm, -, h⟩ := Outcome.bind_eq_ok.mp h
    obtain ⟨payload, -, h⟩ := Outcome.bind_eq_ok.mp h
    obtain ⟨deadlineMs, -, h⟩ := Outcome.bind_eq_ok.mp h
    obtain ⟨caller, -, h⟩ := Outcome.bind_eq_ok.mp h
    cases h
    rfl
  next => cases h

/-! ## Parsing a response -/

inductive CallResponse where
  | result (payload : Value) (respondedBy : NodeId)
  | error (code : UInt8) (name : String) (reportedBy : NodeId) (detail : Option String)
deriving DecidableEq

inductive ParseCallResponseError where
  | notAResultOrError
  | missingField (name : String)
  | wrongFieldType (name : String)
deriving DecidableEq

/-- The `call_id` of a frame of any type. -/
def frameCallId (frame : Value) : Option (ByteArr 16) :=
  match frame.get "call_id" with
  | some (.bytes b) => toArr 16 b
  | _ => none

def getBytes32Generic (frame : Value) (field : String) : Outcome ParseCallResponseError NodeId :=
  arrField .missingField .wrongFieldType 32 frame field

/-- The `code` of an ERROR: an integer that is a `u8`. -/
def codeField (frame : Value) : Outcome ParseCallResponseError UInt8 :=
  match frame.get "code" with
  | some (.int n) => if 0 ≤ n ∧ n ≤ 255 then .ok (.ofNat n.toNat) else .err (.wrongFieldType "code")
  | some _ => .err (.wrongFieldType "code")
  | none => .err (.missingField "code")

/-- The `name` of an ERROR, which is text. -/
def nameField (frame : Value) : Outcome ParseCallResponseError String :=
  match frame.get "name" with
  | some (.text t) => .ok t
  | some _ => .err (.wrongFieldType "name")
  | none => .err (.missingField "name")

/-- The `detail` of an ERROR: absent, null, or UTF-8 bytes. -/
def detailField (frame : Value) : Outcome ParseCallResponseError (Option String) :=
  match frame.get "detail" with
  | none | some .null => .ok none
  | some (.bytes b) => do
      let text ← .okOr (.wrongFieldType "detail") (Utf8.decode b)
      return some text
  | some _ => .err (.wrongFieldType "detail")

def parseCallResponse (frame : Value) : Outcome ParseCallResponseError CallResponse :=
  if frame.get "frame_type" = some (.text "result") then do
    let payload ← .okOr (.missingField "payload") (frame.get "payload")
    let respondedBy ← getBytes32Generic frame "responded_by"
    return .result payload respondedBy
  else if frame.get "frame_type" = some (.text "error") then do
    let code ← codeField frame
    let name ← nameField frame
    let reportedBy ← getBytes32Generic frame "reported_by"
    let detail ← detailField frame
    return .error code name reportedBy detail
  else .err .notAResultOrError

end Macula.Frame
