import Macula.Frame.Call

/-!
# Streaming RPC

The frames of a dedicated stream: STREAM_OPEN starts the exchange, and STREAM_DATA,
STREAM_END, STREAM_ERROR and STREAM_REPLY are its events.

Which text travels as bytes and which as text follows the Erlang spec field by field: atoms
(`mode`, `encoding`, `role`) are text, binaries (`procedure`, `code`, `message`) are bytes.
-/

namespace Macula.Frame

open Macula.Cbor (Value)

/-! ## Names on the wire -/

/-- Who is expected to push data. -/
inductive StreamMode where
  | serverStream
  | clientStream
  | bidi
deriving DecidableEq

def StreamMode.name : StreamMode → String
  | .serverStream => "server_stream"
  | .clientStream => "client_stream"
  | .bidi => "bidi"

def StreamMode.fromName (name : String) : Option StreamMode :=
  if name = "server_stream" then some .serverStream
  else if name = "client_stream" then some .clientStream
  else if name = "bidi" then some .bidi
  else none

/-- How to interpret the body of a chunk. -/
inductive StreamEncoding where
  | raw
  | msgpack
deriving DecidableEq

def StreamEncoding.name : StreamEncoding → String
  | .raw => "raw"
  | .msgpack => "msgpack"

def StreamEncoding.fromName (name : String) : Option StreamEncoding :=
  if name = "raw" then some .raw
  else if name = "msgpack" then some .msgpack
  else none

/-- Which directions are closing. -/
inductive StreamRole where
  | send
  | both
deriving DecidableEq

def StreamRole.name : StreamRole → String
  | .send => "send"
  | .both => "both"

def StreamRole.fromName (name : String) : Option StreamRole :=
  if name = "send" then some .send
  else if name = "both" then some .both
  else none

@[simp] theorem StreamMode.fromName_name (mode : StreamMode) : fromName mode.name = some mode := by
  cases mode <;> rfl

@[simp] theorem StreamEncoding.fromName_name (encoding : StreamEncoding) :
    fromName encoding.name = some encoding := by
  cases encoding <;> rfl

@[simp] theorem StreamRole.fromName_name (role : StreamRole) : fromName role.name = some role := by
  cases role <;> rfl

/-! ## Building -/

structure StreamOpenSpec where
  streamId : ByteArr 16
  procedure : String
  realm : ByteArr 32
  mode : StreamMode
  args : Value
  deadlineMs : Int
  caller : NodeId
  sourceRoute : Bytes := []
  retryBudget : UInt64 := 0

def streamOpen (spec : StreamOpenSpec) (frameId : ByteArr 16) (sentAtMs : UInt64) : Value :=
  (Value.map (base "stream_open" 0 frameId sentAtMs))
    |>.withField "stream_id" (.bytes spec.streamId.1)
    |>.withField "procedure" (.bytes (Utf8.bytes spec.procedure))
    |>.withField "realm" (.bytes spec.realm.1)
    |>.withField "mode" (.text spec.mode.name)
    |>.withField "args" spec.args
    |>.withField "deadline_ms" (.int spec.deadlineMs)
    |>.withField "caller" (.bytes spec.caller.1)
    |>.withField "source_route" (.bytes spec.sourceRoute)
    |>.withField "retry_budget" (.int spec.retryBudget.toNat)

/-- The `signer` field is there only when there is a signer. -/
def withOptionalSigner (value : Value) : Option NodeId → Value
  | some pubKey => value.withField "signer" (.bytes pubKey.1)
  | none => value

structure StreamDataSpec where
  streamId : ByteArr 16
  seq : UInt64
  encoding : StreamEncoding
  body : Value
  signer : Option NodeId

def streamData (spec : StreamDataSpec) (frameId : ByteArr 16) (sentAtMs : UInt64) : Value :=
  let value := (Value.map (base "stream_data" 0 frameId sentAtMs))
    |>.withField "stream_id" (.bytes spec.streamId.1)
    |>.withField "seq" (.int spec.seq.toNat)
    |>.withField "encoding" (.text spec.encoding.name)
    |>.withField "body" spec.body
  withOptionalSigner value spec.signer

structure StreamEndSpec where
  streamId : ByteArr 16
  role : StreamRole
  signer : Option NodeId

def streamEnd (spec : StreamEndSpec) (frameId : ByteArr 16) (sentAtMs : UInt64) : Value :=
  let value := (Value.map (base "stream_end" 0 frameId sentAtMs))
    |>.withField "stream_id" (.bytes spec.streamId.1)
    |>.withField "role" (.text spec.role.name)
  withOptionalSigner value spec.signer

structure StreamErrorSpec where
  streamId : ByteArr 16
  code : String
  message : String
  signer : Option NodeId

def streamError (spec : StreamErrorSpec) (frameId : ByteArr 16) (sentAtMs : UInt64) : Value :=
  let value := (Value.map (base "stream_error" 0 frameId sentAtMs))
    |>.withField "stream_id" (.bytes spec.streamId.1)
    |>.withField "code" (.bytes (Utf8.bytes spec.code))
    |>.withField "message" (.bytes (Utf8.bytes spec.message))
  withOptionalSigner value spec.signer

structure StreamReplySpec where
  streamId : ByteArr 16
  payload : Value
  respondedBy : NodeId

def streamReply (spec : StreamReplySpec) (frameId : ByteArr 16) (sentAtMs : UInt64) : Value :=
  (Value.map (base "stream_reply" 0 frameId sentAtMs))
    |>.withField "stream_id" (.bytes spec.streamId.1)
    |>.withField "payload" spec.payload
    |>.withField "responded_by" (.bytes spec.respondedBy.1)

/-! ## Parsing -/

/-- A text field that names a value of an enumeration. -/
def enumField {ε α : Type} (missing wrong : String → ε) (fromName : String → Option α)
    (frame : Value) (field : String) : Outcome ε α :=
  match frame.get field with
  | some (.text t) => .okOr (wrong field) (fromName t)
  | some _ => .err (wrong field)
  | none => .err (missing field)

theorem enumField_of_get {ε α : Type} {missing wrong : String → ε}
    {fromName : String → Option α} {frame : Value} {field t : String} {a : α}
    (h : frame.get field = some (.text t)) (ha : fromName t = some a) :
    enumField missing wrong fromName frame field = .ok a := by
  rw [enumField, h]
  simpa using ha

theorem enumField_ne_panicked {ε α : Type} {missing wrong : String → ε}
    {fromName : String → Option α} {frame : Value} {field : String} :
    enumField missing wrong fromName frame field ≠ .panicked := by
  unfold enumField
  split <;> simp

structure StreamOpenInfo where
  streamId : ByteArr 16
  procedure : String
  realm : ByteArr 32
  mode : StreamMode
  args : Value
  deadlineMs : Int
  caller : NodeId
deriving DecidableEq

inductive ParseStreamOpenError where
  | notAStreamOpenFrame
  | missingField (name : String)
  | wrongFieldType (name : String)
deriving DecidableEq

def parseStreamOpen (frame : Value) : Outcome ParseStreamOpenError StreamOpenInfo :=
  if frame.get "frame_type" = some (.text "stream_open") then do
    let streamId ← arrField .missingField .wrongFieldType 16 frame "stream_id"
    let procedure ← textField .missingField .wrongFieldType frame "procedure"
    let realm ← arrField .missingField .wrongFieldType 32 frame "realm"
    let mode ← enumField .missingField .wrongFieldType StreamMode.fromName frame "mode"
    let args ← .okOr (.missingField "args") (frame.get "args")
    let deadlineMs ← intField .missingField .wrongFieldType frame "deadline_ms"
    let caller ← arrField .missingField .wrongFieldType 32 frame "caller"
    return { streamId, procedure, realm, mode, args, deadlineMs, caller }
  else .err .notAStreamOpenFrame

/-- The `stream_id` of a frame of any type. -/
def frameStreamId (frame : Value) : Option (ByteArr 16) :=
  match frame.get "stream_id" with
  | some (.bytes b) => toArr 16 b
  | _ => none

inductive StreamEvent where
  | data (streamId : ByteArr 16) (seq : UInt64) (encoding : StreamEncoding) (body : Value)
  | ended (streamId : ByteArr 16) (role : StreamRole)
  | error (streamId : ByteArr 16) (code : String) (message : String)
  | reply (streamId : ByteArr 16) (payload : Value) (respondedBy : NodeId)
deriving DecidableEq

inductive ParseStreamEventError where
  | notAStreamFrame
  | missingField (name : String)
  | wrongFieldType (name : String)
deriving DecidableEq

def parseStreamEvent (frame : Value) : Outcome ParseStreamEventError StreamEvent := do
  let streamId ← arrField .missingField .wrongFieldType 16 frame "stream_id"
  if frame.get "frame_type" = some (.text "stream_data") then do
    let seq ← uintField .missingField .wrongFieldType frame "seq"
    let encoding ←
      enumField .missingField .wrongFieldType StreamEncoding.fromName frame "encoding"
    let body ← .okOr (.missingField "body") (frame.get "body")
    return .data streamId seq encoding body
  else if frame.get "frame_type" = some (.text "stream_end") then do
    let role ← enumField .missingField .wrongFieldType StreamRole.fromName frame "role"
    return .ended streamId role
  else if frame.get "frame_type" = some (.text "stream_error") then do
    let code ← textField .missingField .wrongFieldType frame "code"
    let message ← textField .missingField .wrongFieldType frame "message"
    return .error streamId code message
  else if frame.get "frame_type" = some (.text "stream_reply") then do
    let payload ← .okOr (.missingField "payload") (frame.get "payload")
    let respondedBy ← arrField .missingField .wrongFieldType 32 frame "responded_by"
    return .reply streamId payload respondedBy
  else .err .notAStreamFrame

end Macula.Frame
