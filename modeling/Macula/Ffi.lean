import Macula.Connection.ServePanics
import Macula.DirectDial.Call
import Macula.StreamHandle

/-!
# The FFI crate

The wrappers through which Kotlin and Swift send.  A value that crosses the boundary has
64-bit integers only, so none is out of range when it reaches the core.  Times do not: `call`,
`call_with_ucan` and `stream_open` add the timeout to the clock in a `u64`, and an overflow of
that sum counts as a panic here, as it is one where overflows are checked.  Where they are not,
the deadline wraps around into the past.

Fixed-length byte strings arrive as byte strings of any length.  A session behind its mutex is
`none` once it is closed.  The `reason` of an error is the error whose message it is.
-/

namespace Macula.Ffi

open Macula.Cbor (Value)
open Macula.Connection (CallWire FrameWire HandlerEnd Server Service ServeEvent)
open Macula.Frame (CallInfo CallResponse StreamEncoding StreamMode)

/-! ## Values -/

inductive FfiValue where
  | null
  | int (n : Int64)
  | bytes (b : Bytes)
  | text (s : String)
  /-- A binary64 bit pattern. -/
  | float (bits : UInt64)
  | items (items : List FfiValue)
  | fields (entries : List (FfiValue × FfiValue))

/-- The messages of the errors that are passed on. -/
inductive Reason where
  | call (e : Connection.CallError)
  | callDirect (e : DirectDial.CallError)
  | resolve (e : DirectDial.ResolveError)
  | advertiseDirect (e : DirectDial.AdvertiseDirectError)
  | send (e : Connection.SendFrameError)
  | openStream (e : OpenError)
  /-- An integer is outside the `i64` range. -/
  | outside (n : Int)

inductive FfiError where
  | call (reason : Reason)
  | send (reason : Reason)
  | unrepresentableValue (reason : Reason)
  | wrongByteLength (expected actual : UInt32)
  | closed
  | resolve (reason : Reason)
  | directDialTrustViolation (resolved dialed : Bytes)

mutual

def FfiValue.toValue : FfiValue → Value
  | .null => .null
  | .int n => .int n.toInt
  | .bytes b => .bytes b
  | .text s => .text s
  | .float bits => .float bits
  | .items vs => .list (FfiValue.toItems vs)
  | .fields entries => .map (FfiValue.toPairs entries)

def FfiValue.toItems : List FfiValue → List Value
  | [] => []
  | v :: vs => v.toValue :: FfiValue.toItems vs

def FfiValue.toPairs : List (FfiValue × FfiValue) → List (Value × Value)
  | [] => []
  | (k, v) :: entries => (k.toValue, v.toValue) :: FfiValue.toPairs entries

end

mutual

def FfiValue.tryFrom : Value → Outcome FfiError FfiValue
  | .null => .ok .null
  | .int n =>
      if -2 ^ 63 ≤ n ∧ n < 2 ^ 63 then .ok (.int (.ofInt n))
      else .err (.unrepresentableValue (.outside n))
  | .bytes b => .ok (.bytes b)
  | .text s => .ok (.text s)
  | .float bits => .ok (.float bits)
  | .list vs => do
      let vs ← FfiValue.tryItems vs
      return .items vs
  | .map pairs => do
      let entries ← FfiValue.tryPairs pairs
      return .fields entries

def FfiValue.tryItems : List Value → Outcome FfiError (List FfiValue)
  | [] => .ok []
  | v :: vs => do
      let v ← FfiValue.tryFrom v
      let vs ← FfiValue.tryItems vs
      return v :: vs

def FfiValue.tryPairs : List (Value × Value) → Outcome FfiError (List (FfiValue × FfiValue))
  | [] => .ok []
  | (k, v) :: pairs => do
      let k ← FfiValue.tryFrom k
      let v ← FfiValue.tryFrom v
      let pairs ← FfiValue.tryPairs pairs
      return (k, v) :: pairs

end

mutual

/-- A value from outside can always be encoded. -/
theorem FfiValue.toValue_inRange : ∀ v : FfiValue, v.toValue.IntsInRange
  | .null => Value.inRange_null
  | .int n => by
      have hlt := n.toInt_lt
      have hle := n.le_toInt
      exact Value.all_int.mpr ⟨by omega, by omega⟩
  | .bytes _ => Value.inRange_bytes _
  | .text _ => Value.inRange_text _
  | .float _ => Value.all_float.mpr trivial
  | .items vs => Value.inRange_list.mpr (FfiValue.toItems_inRange vs)
  | .fields entries => Value.inRange_map.mpr (FfiValue.toPairs_inRange entries)

theorem FfiValue.toItems_inRange : ∀ vs : List FfiValue,
    ∀ v ∈ FfiValue.toItems vs, v.IntsInRange
  | [] => nofun
  | v :: vs =>
      List.forall_mem_cons.mpr ⟨v.toValue_inRange, FfiValue.toItems_inRange vs⟩

theorem FfiValue.toPairs_inRange : ∀ entries : List (FfiValue × FfiValue),
    ∀ p ∈ FfiValue.toPairs entries, p.1.IntsInRange ∧ p.2.IntsInRange
  | [] => nofun
  | (k, v) :: entries =>
      List.forall_mem_cons.mpr
        ⟨⟨k.toValue_inRange, v.toValue_inRange⟩, FfiValue.toPairs_inRange entries⟩

end

mutual

/-- A value from outside comes back as it was. -/
theorem FfiValue.tryFrom_toValue : ∀ v : FfiValue, FfiValue.tryFrom v.toValue = .ok v
  | .null => rfl
  | .bytes _ => rfl
  | .text _ => rfl
  | .float _ => rfl
  | .int n => by
      rw [FfiValue.toValue, FfiValue.tryFrom, if_pos ⟨n.le_toInt, n.toInt_lt⟩, Int64.ofInt_toInt]
  | .items vs => by
      rw [FfiValue.toValue, FfiValue.tryFrom, FfiValue.tryItems_toItems vs]
      rfl
  | .fields entries => by
      rw [FfiValue.toValue, FfiValue.tryFrom, FfiValue.tryPairs_toPairs entries]
      rfl

theorem FfiValue.tryItems_toItems : ∀ vs : List FfiValue,
    FfiValue.tryItems (FfiValue.toItems vs) = .ok vs
  | [] => rfl
  | v :: vs => by
      rw [FfiValue.toItems, FfiValue.tryItems, v.tryFrom_toValue, Outcome.ok_bind,
        FfiValue.tryItems_toItems vs]
      rfl

theorem FfiValue.tryPairs_toPairs : ∀ entries : List (FfiValue × FfiValue),
    FfiValue.tryPairs (FfiValue.toPairs entries) = .ok entries
  | [] => rfl
  | (k, v) :: entries => by
      rw [FfiValue.toPairs, FfiValue.tryPairs, k.tryFrom_toValue, Outcome.ok_bind,
        v.tryFrom_toValue, Outcome.ok_bind, FfiValue.tryPairs_toPairs entries]
      rfl

end

mutual

theorem FfiValue.tryFrom_ne_panicked : ∀ v : Value, FfiValue.tryFrom v ≠ .panicked
  | .null => nofun
  | .bytes _ => nofun
  | .text _ => nofun
  | .float _ => nofun
  | .int n => by
      rw [FfiValue.tryFrom]
      split <;> nofun
  | .list vs =>
      Outcome.bind_ne_panicked (FfiValue.tryItems_ne_panicked vs) fun _ _ => nofun
  | .map pairs =>
      Outcome.bind_ne_panicked (FfiValue.tryPairs_ne_panicked pairs) fun _ _ => nofun

theorem FfiValue.tryItems_ne_panicked : ∀ vs : List Value,
    FfiValue.tryItems vs ≠ .panicked
  | [] => nofun
  | v :: vs =>
      Outcome.bind_ne_panicked (FfiValue.tryFrom_ne_panicked v) fun _ _ =>
        Outcome.bind_ne_panicked (FfiValue.tryItems_ne_panicked vs) fun _ _ => nofun

theorem FfiValue.tryPairs_ne_panicked : ∀ pairs : List (Value × Value),
    FfiValue.tryPairs pairs ≠ .panicked
  | [] => nofun
  | (k, v) :: pairs =>
      Outcome.bind_ne_panicked (FfiValue.tryFrom_ne_panicked k) fun _ _ =>
        Outcome.bind_ne_panicked (FfiValue.tryFrom_ne_panicked v) fun _ _ =>
          Outcome.bind_ne_panicked (FfiValue.tryPairs_ne_panicked pairs) fun _ _ => nofun

end

/-! ## What the wrappers share -/

def to32 (bytes : Bytes) : Outcome FfiError (ByteArr 32) :=
  .okOr (.wrongByteLength 32 (.ofNat bytes.length)) (toArr 32 bytes)

/-- `(now_ms() + timeout_ms) as i128`. -/
def deadlineMs (now : UnixMillis) (timeoutMs : UInt64) : Outcome FfiError Int := do
  let sum ← .addU64 (.ofNat now.ms) timeoutMs
  return sum.toNat

inductive FfiCallResponse where
  | result (payload : FfiValue) (respondedBy : Bytes)
  | error (code : UInt8) (name : String) (reportedBy : Bytes) (detail : Option String)

def FfiCallResponse.tryFrom : CallResponse → Outcome FfiError FfiCallResponse
  | .result payload respondedBy => do
      let payload ← FfiValue.tryFrom payload
      return .result payload respondedBy.1
  | .error code name reportedBy detail => .ok (.error code name reportedBy.1 detail)

def FfiError.ofCallDirect : DirectDial.CallError → FfiError
  | .resolve e => .resolve (.resolve e)
  | .trustViolation resolved dialed => .directDialTrustViolation resolved.1 dialed.1
  | e => .call (.callDirect e)

inductive FfiStreamMode where
  | serverStream
  | clientStream
  | bidi
deriving DecidableEq

def FfiStreamMode.into : FfiStreamMode → StreamMode
  | .serverStream => .serverStream
  | .clientStream => .clientStream
  | .bidi => .bidi

inductive FfiStreamEncoding where
  | raw
  | msgpack
deriving DecidableEq

def FfiStreamEncoding.into : FfiStreamEncoding → StreamEncoding
  | .raw => .raw
  | .msgpack => .msgpack

theorem to32_eq_ok {bytes : Bytes} {a : ByteArr 32} : to32 bytes = .ok a ↔ bytes = a.1 := by
  rw [to32, Outcome.okOr_eq_ok, toArr_eq_some]

theorem to32_ok_iff {bytes : Bytes} : (∃ a, to32 bytes = .ok a) ↔ bytes.length = 32 := by
  constructor
  · rintro ⟨a, ha⟩
    rw [to32_eq_ok.mp ha, a.2]
  · intro h
    exact ⟨⟨bytes, h⟩, to32_eq_ok.mpr rfl⟩

theorem deadlineMs_eq_panicked {now : UnixMillis} {timeoutMs : UInt64} :
    deadlineMs now timeoutMs = .panicked ↔ ¬ now.ms + timeoutMs.toNat < 2 ^ 64 := by
  have hnow : (UInt64.ofNat now.ms).toNat = now.ms :=
    UInt64.toNat_ofNat_of_lt (now.lt.trans (by decide))
  rw [deadlineMs, Outcome.bind_eq_panicked, Outcome.addU64_eq_panicked, hnow]
  constructor
  · rintro (h | ⟨sum, -, h⟩)
    · exact h
    · cases h
  · exact .inl

theorem deadlineMs_intOk {now : UnixMillis} {timeoutMs : UInt64} {deadline : Int}
    (h : deadlineMs now timeoutMs = .ok deadline) : Cbor.IntOk (.int deadline) := by
  obtain ⟨sum, -, h⟩ := Outcome.bind_eq_ok.mp h
  cases h
  exact Value.all_int.mp (Value.inRange_u64 sum)

theorem FfiCallResponse.tryFrom_ne_panicked (response : CallResponse) :
    FfiCallResponse.tryFrom response ≠ .panicked := by
  cases response with
  | result payload respondedBy =>
      exact Outcome.bind_ne_panicked (FfiValue.tryFrom_ne_panicked payload) fun _ _ => nofun
  | error code name reportedBy detail => nofun

/-! ## The wrappers -/

section

variable (E : Ed25519) (sha256 : Bytes → ByteArr 32) (text : Connection.CallError → String)
variable (identity : KeyPair)

def FfiSession.call (guard : Option Connection.Session) (procedure : String) (realm : Bytes)
    (payload : FfiValue) (timeoutMs : UInt64) (now : UnixMillis) (wire : CallWire) :
    Outcome FfiError FfiCallResponse := do
  let realm ← to32 realm
  let deadline ← deadlineMs now timeoutMs
  let session ← .okOr .closed guard
  let response ← (session.call E text identity procedure realm payload.toValue deadline
    wire).mapErr fun e => .call (.call e)
  FfiCallResponse.tryFrom response

def FfiSession.callWithUcan (guard : Option Connection.Session) (procedure : String)
    (realm : Bytes) (payload : FfiValue) (timeoutMs : UInt64) (ucanToken : Bytes)
    (now : UnixMillis) (wire : CallWire) : Outcome FfiError FfiCallResponse := do
  let realm ← to32 realm
  let deadline ← deadlineMs now timeoutMs
  let session ← .okOr .closed guard
  let response ← (session.callWithUcan E text identity procedure realm payload.toValue deadline
    ucanToken wire).mapErr fun e => .call (.call e)
  FfiCallResponse.tryFrom response

def FfiSession.publish (guard : Option Connection.Session) (topic : String) (realm : Bytes)
    (seq : UInt64) (payload : FfiValue) (publishedAtMs : UInt64) (wire : FrameWire) :
    Outcome FfiError Unit := do
  let realm ← to32 realm
  let publisher := identity.nodeId E
  let spec : Frame.PublishSpec :=
    { topic, realm, publisher, seq, payload := payload.toValue, publishedAtMs }
  let _session ← .okOr .closed guard
  (Connection.Session.publish E identity spec wire).mapErr fun e => .send (.send e)

def FfiSession.streamOpen (guard : Option Connection.Session) (procedure : String)
    (realm : Bytes) (mode : FfiStreamMode) (args : FfiValue) (timeoutMs : UInt64)
    (now : UnixMillis) (opens : Bool) (streamId : ByteArr 16) (wire : FrameWire) :
    Outcome FfiError StreamHandle := do
  let realm ← to32 realm
  let deadline ← deadlineMs now timeoutMs
  let _session ← .okOr .closed guard
  (StreamHandle.open E identity procedure realm mode.into args.toValue deadline opens streamId
    wire).mapErr fun e => .send (.openStream e)

def FfiSession.callDirect (guard : Option Connection.Session) (procedure : String)
    (realm : Bytes) (payload : FfiValue) (timeoutMs : UInt64) (meets : DirectDial.CallMeets) :
    Outcome FfiError FfiCallResponse := do
  let realm ← to32 realm
  let session ← .okOr .closed guard
  let response ← (DirectDial.call E sha256 text session identity realm procedure
    payload.toValue (.ofMillis timeoutMs) meets).mapErr .ofCallDirect
  FfiCallResponse.tryFrom response

def FfiSession.advertiseDirect (guard : Option Connection.Session) (procedure : String)
    (realm : Bytes) (ttlMs : UInt64) (meets : DirectDial.AdvertiseMeets) :
    Outcome FfiError Unit := do
  let realm ← to32 realm
  let session ← .okOr .closed guard
  (DirectDial.advertiseDirect E text session identity realm procedure (.ofMillis ttlMs)
    meets).mapErr fun e => .send (.advertiseDirect e)

def FfiStream.sendData (guard : Option StreamHandle) (encoding : FfiStreamEncoding)
    (body : FfiValue) (wire : FrameWire) : Option StreamHandle × Outcome FfiError Unit :=
  match guard with
  | none => (none, .err .closed)
  | some handle =>
      let (handle, result) :=
        handle.sendData E identity encoding.into body.toValue wire
      (some handle, result.mapErr fun e => .send (.send e))

def FfiStream.sendReply (guard : Option StreamHandle) (payload : FfiValue) (wire : FrameWire) :
    Outcome FfiError Unit := do
  let handle ← .okOr .closed guard
  (handle.sendReply E identity payload.toValue wire).mapErr fun e => .send (.send e)

variable {E sha256 text identity} {guard : Option Connection.Session} {procedure : String}
variable {realm : Bytes} {payload : FfiValue} {timeoutMs : UInt64}

/-- A wrapper that computes a deadline and then returns panics on the deadline. -/
theorem deadline_eq_panicked {α : Type} {now : UnixMillis}
    {next : ByteArr 32 → Int → Outcome FfiError α}
    (hnext : ∀ realm deadline, Cbor.IntOk (.int deadline) → next realm deadline ≠ .panicked) :
    (do
      let realm ← to32 realm
      let deadline ← deadlineMs now timeoutMs
      next realm deadline) = .panicked ↔
      realm.length = 32 ∧ ¬ now.ms + timeoutMs.toNat < 2 ^ 64 := by
  rw [← to32_ok_iff, ← deadlineMs_eq_panicked]
  constructor
  · intro h
    rcases Outcome.bind_eq_panicked.mp h with h | ⟨r, hr, h⟩
    · exact absurd h Outcome.okOr_ne_panicked
    rcases Outcome.bind_eq_panicked.mp h with h | ⟨deadline, hdeadline, h⟩
    · exact ⟨⟨r, hr⟩, h⟩
    · exact absurd h (hnext r deadline (deadlineMs_intOk hdeadline))
  · rintro ⟨⟨r, hr⟩, h⟩
    rw [hr, Outcome.ok_bind, h]
    rfl

theorem FfiSession.call_eq_panicked {now : UnixMillis} {wire : CallWire} :
    FfiSession.call E text identity guard procedure realm payload timeoutMs now wire =
      .panicked ↔ realm.length = 32 ∧ ¬ now.ms + timeoutMs.toNat < 2 ^ 64 := by
  refine deadline_eq_panicked fun r deadline hdeadline => ?_
  refine Outcome.bind_ne_panicked Outcome.okOr_ne_panicked fun session _ => ?_
  refine Outcome.bind_ne_panicked ?_ fun response _ => FfiCallResponse.tryFrom_ne_panicked response
  rw [Ne, Outcome.mapErr_eq_panicked, Connection.Session.call_eq_panicked]
  exact not_not.mpr ⟨payload.toValue_inRange, hdeadline⟩

theorem FfiSession.callWithUcan_eq_panicked {ucanToken : Bytes} {now : UnixMillis}
    {wire : CallWire} :
    FfiSession.callWithUcan E text identity guard procedure realm payload timeoutMs ucanToken now
      wire = .panicked ↔ realm.length = 32 ∧ ¬ now.ms + timeoutMs.toNat < 2 ^ 64 := by
  refine deadline_eq_panicked fun r deadline hdeadline => ?_
  refine Outcome.bind_ne_panicked Outcome.okOr_ne_panicked fun session _ => ?_
  refine Outcome.bind_ne_panicked ?_ fun response _ => FfiCallResponse.tryFrom_ne_panicked response
  rw [Ne, Outcome.mapErr_eq_panicked, Connection.Session.callWithUcan_eq_panicked]
  exact not_not.mpr ⟨payload.toValue_inRange, hdeadline⟩

theorem FfiSession.streamOpen_eq_panicked {mode : FfiStreamMode} {now : UnixMillis}
    {opens : Bool} {streamId : ByteArr 16} {wire : FrameWire} :
    FfiSession.streamOpen E identity guard procedure realm mode payload timeoutMs now opens
      streamId wire = .panicked ↔ realm.length = 32 ∧ ¬ now.ms + timeoutMs.toNat < 2 ^ 64 := by
  refine deadline_eq_panicked fun r deadline hdeadline => ?_
  refine Outcome.bind_ne_panicked Outcome.okOr_ne_panicked fun session _ => ?_
  rw [Ne, Outcome.mapErr_eq_panicked, StreamHandle.open_eq_panicked]
  exact fun h => h.2 ⟨payload.toValue_inRange, hdeadline⟩

theorem FfiSession.publish_ne_panicked {topic : String} {seq publishedAtMs : UInt64}
    {wire : FrameWire} :
    FfiSession.publish E identity guard topic realm seq payload publishedAtMs wire ≠
      .panicked := by
  refine Outcome.bind_ne_panicked Outcome.okOr_ne_panicked fun r _ => ?_
  refine Outcome.bind_ne_panicked Outcome.okOr_ne_panicked fun session _ => ?_
  rw [Ne, Outcome.mapErr_eq_panicked, Connection.Session.publish_eq_panicked]
  exact not_not.mpr payload.toValue_inRange

theorem FfiSession.callDirect_eq_panicked {meets : DirectDial.CallMeets} :
    FfiSession.callDirect E sha256 text identity guard procedure realm payload timeoutMs meets =
      .panicked ↔
      (∃ r session, to32 realm = .ok r ∧ guard = some session ∧
        DirectDial.Reaches E sha256 text session identity r procedure meets) ∧
      ¬ meets.now.ms + timeoutMs.toNat < 2 ^ 64 := by
  constructor
  · intro h
    rcases Outcome.bind_eq_panicked.mp h with h | ⟨r, hr, h⟩
    · exact absurd h Outcome.okOr_ne_panicked
    rcases Outcome.bind_eq_panicked.mp h with h | ⟨session, hsession, h⟩
    · exact absurd h Outcome.okOr_ne_panicked
    rcases Outcome.bind_eq_panicked.mp h with h | ⟨response, -, h⟩
    · rw [Outcome.mapErr_eq_panicked, DirectDial.call_eq_panicked,
        Duration.asMillis_ofMillis] at h
      exact ⟨⟨r, session, hr, Outcome.okOr_eq_ok.mp hsession, h.1⟩,
        fun hlt => h.2 ⟨payload.toValue_inRange, hlt⟩⟩
    · exact absurd h (FfiCallResponse.tryFrom_ne_panicked response)
  · rintro ⟨⟨r, session, hr, rfl, hreaches⟩, hlt⟩
    have hcall : DirectDial.call E sha256 text session identity r procedure payload.toValue
        (.ofMillis timeoutMs) meets = .panicked := by
      rw [DirectDial.call_eq_panicked, Duration.asMillis_ofMillis]
      exact ⟨hreaches, fun h => hlt h.2⟩
    rw [FfiSession.callDirect, hr, Outcome.ok_bind, Outcome.okOr, Outcome.ok_bind, hcall]
    rfl

theorem FfiSession.advertiseDirect_eq_panicked {ttlMs : UInt64}
    {meets : DirectDial.AdvertiseMeets} :
    FfiSession.advertiseDirect E text identity guard procedure realm ttlMs meets = .panicked ↔
      (∃ r session, to32 realm = .ok r ∧ guard = some session ∧
        DirectDial.sendAdvertise E identity r procedure meets = .ok ()) ∧
      ¬ meets.now.ms + ttlMs.toNat < 2 ^ 64 := by
  constructor
  · intro h
    rcases Outcome.bind_eq_panicked.mp h with h | ⟨r, hr, h⟩
    · exact absurd h Outcome.okOr_ne_panicked
    rcases Outcome.bind_eq_panicked.mp h with h | ⟨session, hsession, h⟩
    · exact absurd h Outcome.okOr_ne_panicked
    rw [Outcome.mapErr_eq_panicked, DirectDial.advertiseDirect_eq_panicked,
      Duration.asMillis_ofMillis] at h
    exact ⟨⟨r, session, hr, Outcome.okOr_eq_ok.mp hsession, h.1⟩, h.2⟩
  · rintro ⟨⟨r, session, hr, rfl, hsent⟩, hlt⟩
    have hadvertise : DirectDial.advertiseDirect E text session identity r procedure
        (.ofMillis ttlMs) meets = .panicked := by
      rw [DirectDial.advertiseDirect_eq_panicked, Duration.asMillis_ofMillis]
      exact ⟨hsent, hlt⟩
    rw [FfiSession.advertiseDirect, hr, Outcome.ok_bind, Outcome.okOr, Outcome.ok_bind,
      hadvertise]
    rfl

theorem FfiStream.sendData_eq_panicked {handle : Option StreamHandle}
    {encoding : FfiStreamEncoding} {wire : FrameWire} :
    (FfiStream.sendData E identity handle encoding payload wire).2 = .panicked ↔
      ∃ h, handle = some h ∧ ¬ h.seqOut.toNat + 1 < 2 ^ 64 := by
  cases handle with
  | none => exact ⟨nofun, fun ⟨_, h, _⟩ => nomatch h⟩
  | some h =>
      change Outcome.mapErr _ (h.sendData E identity encoding.into payload.toValue wire).2 =
        .panicked ↔ _
      rw [Outcome.mapErr_eq_panicked, StreamHandle.sendData_eq_panicked]
      constructor
      · intro hbad
        exact ⟨h, rfl, fun hlt => hbad ⟨hlt, payload.toValue_inRange⟩⟩
      · rintro ⟨h', heq, hlt⟩
        cases heq
        exact fun hok => hlt hok.1

theorem FfiStream.sendReply_ne_panicked {handle : Option StreamHandle} {wire : FrameWire} :
    FfiStream.sendReply E identity handle payload wire ≠ .panicked := by
  refine Outcome.bind_ne_panicked Outcome.okOr_ne_panicked fun h _ => ?_
  rw [Ne, Outcome.mapErr_eq_panicked, StreamHandle.sendReply_eq_panicked]
  exact not_not.mpr payload.toValue_inRange

end

/-! ## Serving -/

inductive FfiPolicy where
  | open
  | required (issuer : Bytes)

def FfiPolicy.tryInto : FfiPolicy → Outcome FfiError Ucan.Policy
  | .open => .ok .open
  | .required issuer => do
      let issuer ← to32 issuer
      return .required issuer

/-- What `serve_one_call_gated` serves with.  Every procedure has the one handler. -/
def FfiSession.service (guard : Option Connection.Session) (policy : FfiPolicy) :
    Outcome FfiError Service := do
  let policy ← policy.tryInto
  let _session ← .okOr .closed guard
  return { policy := fun _ _ => policy, lookup := fun _ _ => true }

/-- How a handler from outside ends: with its procedure, the realm and the payload it returns a
value, or an error, or panics.  `message` is the text of an error. -/
def coreHandler (message : FfiError → String)
    (handle : String → Bytes → FfiValue → Outcome FfiError FfiValue) (call : CallInfo) :
    HandlerEnd :=
  match FfiValue.tryFrom call.payload with
  | .ok payload =>
      match handle call.procedure call.realm.1 payload with
      | .ok reply => .ok reply.toValue
      | .err e => .err (message e)
      | .panicked => .panicked
  | .err e => .err (message e)
  | .panicked => .panicked

/-- A handler from outside replies with a value in range. -/
theorem coreHandler_inRange {message : FfiError → String}
    {handle : String → Bytes → FfiValue → Outcome FfiError FfiValue} {call : CallInfo} :
    (coreHandler message handle call).answer.InRange := by
  unfold coreHandler
  split
  · split
    · next reply _ => exact reply.toValue_inRange
    · trivial
    · trivial
  · trivial
  · trivial

/-- Every handler that ends is one from outside. -/
def FromOutside (message : FfiError → String) (s : Server) (e : ServeEvent) : Prop :=
  ∀ ending, e = .handled ending → ∀ call requestId, s.pc = .handling call requestId →
    ∃ handle, ending = coreHandler message handle call

theorem FfiSession.service_ne_panicked (guard : Option Connection.Session) (policy : FfiPolicy) :
    FfiSession.service guard policy ≠ .panicked := by
  refine Outcome.bind_ne_panicked ?_ fun _ _ =>
    Outcome.bind_ne_panicked Outcome.okOr_ne_panicked fun _ _ => nofun
  cases policy with
  | «open» => nofun
  | required issuer => exact Outcome.bind_ne_panicked Outcome.okOr_ne_panicked fun _ _ => nofun

/-- *A provider behind the FFI stays up.* -/
theorem FfiSession.served (E : Ed25519) (C : Ucan.TokenCodec) (identity : KeyPair)
    (message : FfiError → String) {leftover : Bytes} {events : List ServeEvent} {s : Server}
    (houtside : Guarded (Connection.stepServe E C identity) (FromOutside message)
      (.start leftover) events)
    (hrun : run (Connection.stepServe E C identity) (.start leftover) events = some s) :
    s.pc ≠ .panicked := by
  have hsound : s.Sound := by
    refine run_invariant Server.Sound (fun s e s' hi hout hs => ?_)
      (Server.sound_start leftover) houtside hrun
    refine Connection.sound_step E C identity hi (fun ending he => ?_) hs
    subst he
    obtain ⟨call, requestId, hpc⟩ : ∃ call requestId, s.pc = .handling call requestId := by
      rw [Connection.stepServe] at hs
      split at hs
      · next call requestId hpc => exact ⟨call, requestId, hpc⟩
      · cases hs
    obtain ⟨handle, rfl⟩ := hout ending rfl call requestId hpc
    exact coreHandler_inRange
  exact hsound.up

end Macula.Ffi
