import Mathlib.Data.UInt
import Macula.Ffi

/-!
# Which sends are total

The public ways to send, with everything a caller can hand them: calls, publishes, streams,
direct dials, and the wrappers of the FFI crate.  Each of them returns `Ok` or `Err` unless a
frame or a record that it signs has an integer out of range; the encoder's own error for that,
`IntOutOfRange`, is never seen, because `sign`, `sign_publisher` and `dht::sign` encode first
and `expect` it to succeed.

The wrappers of the FFI crate cannot embed such an integer.  They panic on a deadline instead,
whose sum with the clock is a `u64`.
-/

namespace Macula

open Macula.Cbor (IntOk Value)
open Macula.Connection (CallWire FrameWire Server Session ServeEvent stepServe)
open Macula.Ffi
open Macula.Frame (PublishSpec StreamEncoding StreamMode)

/-- A way to send, with its arguments and with what it meets. -/
inductive SendPath where
  | call (session : Session) (procedure : String) (realm : ByteArr 32) (payload : Value)
      (deadlineMs : Int) (wire : CallWire)
  | callWithUcan (session : Session) (procedure : String) (realm : ByteArr 32) (payload : Value)
      (deadlineMs : Int) (ucanToken : Bytes) (wire : CallWire)
  | publish (spec : PublishSpec) (wire : FrameWire)
  | streamOpen (procedure : String) (realm : ByteArr 32) (mode : StreamMode) (args : Value)
      (deadlineMs : Int) (opens : Bool) (streamId : ByteArr 16) (wire : FrameWire)
  | sendData (handle : StreamHandle) (encoding : StreamEncoding) (body : Value)
      (wire : FrameWire)
  | sendReply (handle : StreamHandle) (payload : Value) (wire : FrameWire)
  | callDirect (resolveVia : Session) (realm : ByteArr 32) (procedure : String) (payload : Value)
      (timeout : Duration) (meets : DirectDial.CallMeets)
  | advertiseDirect (session : Session) (realm : ByteArr 32) (procedure : String)
      (ttl : Duration) (meets : DirectDial.AdvertiseMeets)
  | ffiCall (guard : Option Session) (procedure : String) (realm : Bytes) (payload : FfiValue)
      (timeoutMs : UInt64) (now : UnixMillis) (wire : CallWire)
  | ffiCallWithUcan (guard : Option Session) (procedure : String) (realm : Bytes)
      (payload : FfiValue) (timeoutMs : UInt64) (ucanToken : Bytes) (now : UnixMillis)
      (wire : CallWire)
  | ffiPublish (guard : Option Session) (topic : String) (realm : Bytes) (seq : UInt64)
      (payload : FfiValue) (publishedAtMs : UInt64) (wire : FrameWire)
  | ffiStreamOpen (guard : Option Session) (procedure : String) (realm : Bytes)
      (mode : FfiStreamMode) (args : FfiValue) (timeoutMs : UInt64) (now : UnixMillis)
      (opens : Bool) (streamId : ByteArr 16) (wire : FrameWire)
  | ffiSendData (guard : Option StreamHandle) (encoding : FfiStreamEncoding) (body : FfiValue)
      (wire : FrameWire)
  | ffiSendReply (guard : Option StreamHandle) (payload : FfiValue) (wire : FrameWire)
  | ffiCallDirect (guard : Option Session) (procedure : String) (realm : Bytes)
      (payload : FfiValue) (timeoutMs : UInt64) (meets : DirectDial.CallMeets)
  | ffiAdvertiseDirect (guard : Option Session) (procedure : String) (realm : Bytes)
      (ttlMs : UInt64) (meets : DirectDial.AdvertiseMeets)

section

variable (E : Ed25519) (sha256 : Bytes → ByteArr 32) (text : Connection.CallError → String)
variable (identity : KeyPair)

/-- The send panics. -/
def SendPath.Panics : SendPath → Prop
  | .call session procedure realm payload deadlineMs wire =>
      session.call E text identity procedure realm payload deadlineMs wire = .panicked
  | .callWithUcan session procedure realm payload deadlineMs ucanToken wire =>
      session.callWithUcan E text identity procedure realm payload deadlineMs ucanToken wire =
        .panicked
  | .publish spec wire => Session.publish E identity spec wire = .panicked
  | .streamOpen procedure realm mode args deadlineMs opens streamId wire =>
      StreamHandle.open E identity procedure realm mode args deadlineMs opens streamId wire =
        .panicked
  | .sendData handle encoding body wire =>
      (handle.sendData E identity encoding body wire).2 = .panicked
  | .sendReply handle payload wire => handle.sendReply E identity payload wire = .panicked
  | .callDirect resolveVia realm procedure payload timeout meets =>
      DirectDial.call E sha256 text resolveVia identity realm procedure payload timeout meets =
        .panicked
  | .advertiseDirect session realm procedure ttl meets =>
      DirectDial.advertiseDirect E text session identity realm procedure ttl meets = .panicked
  | .ffiCall guard procedure realm payload timeoutMs now wire =>
      FfiSession.call E text identity guard procedure realm payload timeoutMs now wire =
        .panicked
  | .ffiCallWithUcan guard procedure realm payload timeoutMs ucanToken now wire =>
      FfiSession.callWithUcan E text identity guard procedure realm payload timeoutMs ucanToken
        now wire = .panicked
  | .ffiPublish guard topic realm seq payload publishedAtMs wire =>
      FfiSession.publish E identity guard topic realm seq payload publishedAtMs wire = .panicked
  | .ffiStreamOpen guard procedure realm mode args timeoutMs now opens streamId wire =>
      FfiSession.streamOpen E identity guard procedure realm mode args timeoutMs now opens
        streamId wire = .panicked
  | .ffiSendData guard encoding body wire =>
      (FfiStream.sendData E identity guard encoding body wire).2 = .panicked
  | .ffiSendReply guard payload wire =>
      FfiStream.sendReply E identity guard payload wire = .panicked
  | .ffiCallDirect guard procedure realm payload timeoutMs meets =>
      FfiSession.callDirect E sha256 text identity guard procedure realm payload timeoutMs
        meets = .panicked
  | .ffiAdvertiseDirect guard procedure realm ttlMs meets =>
      FfiSession.advertiseDirect E text identity guard procedure realm ttlMs meets = .panicked

/-- What is sent fits the format: the integers of the value, the deadline, the expiry.  A direct
call has to fit only if it comes to its CALL, and a direct advertisement only if its ADVERTISE
is sent. -/
def SendPath.Fits : SendPath → Prop
  | .call _ _ _ payload deadlineMs _ | .callWithUcan _ _ _ payload deadlineMs _ _ =>
      payload.IntsInRange ∧ IntOk (.int deadlineMs)
  | .publish spec _ => spec.payload.IntsInRange
  | .streamOpen _ _ _ args deadlineMs opens _ _ =>
      opens = true → args.IntsInRange ∧ IntOk (.int deadlineMs)
  | .sendData handle _ body _ => handle.seqOut.toNat + 1 < 2 ^ 64 ∧ body.IntsInRange
  | .sendReply _ payload _ => payload.IntsInRange
  | .callDirect resolveVia realm procedure payload timeout meets =>
      DirectDial.Reaches E sha256 text resolveVia identity realm procedure meets →
        payload.IntsInRange ∧ meets.now.ms + timeout.asMillis < 2 ^ 64
  | .advertiseDirect _ realm procedure ttl meets =>
      DirectDial.sendAdvertise E identity realm procedure meets = .ok () →
        meets.now.ms + ttl.asMillis < 2 ^ 64
  | .ffiCall _ _ realm _ timeoutMs now _ | .ffiCallWithUcan _ _ realm _ timeoutMs _ now _
  | .ffiStreamOpen _ _ realm _ _ timeoutMs now _ _ _ =>
      realm.length = 32 → now.ms + timeoutMs.toNat < 2 ^ 64
  | .ffiPublish .. | .ffiSendReply .. => True
  | .ffiSendData guard _ _ _ => ∀ handle, guard = some handle → handle.seqOut.toNat + 1 < 2 ^ 64
  | .ffiCallDirect guard procedure realm _ timeoutMs meets =>
      ∀ r session, to32 realm = .ok r → guard = some session →
        DirectDial.Reaches E sha256 text session identity r procedure meets →
          meets.now.ms + timeoutMs.toNat < 2 ^ 64
  | .ffiAdvertiseDirect guard procedure realm ttlMs meets =>
      ∀ r session, to32 realm = .ok r → guard = some session →
        DirectDial.sendAdvertise E identity r procedure meets = .ok () →
          meets.now.ms + ttlMs.toNat < 2 ^ 64

variable {E sha256 text identity}

theorem SendPath.not_panics_iff (path : SendPath) :
    ¬ path.Panics E sha256 text identity ↔ path.Fits E sha256 text identity := by
  cases path with
  | call => exact (not_congr Connection.Session.call_eq_panicked).trans not_not
  | callWithUcan => exact (not_congr Connection.Session.callWithUcan_eq_panicked).trans not_not
  | publish => exact (not_congr Connection.Session.publish_eq_panicked).trans not_not
  | streamOpen => exact (not_congr StreamHandle.open_eq_panicked).trans not_and_not_right
  | sendData => exact (not_congr StreamHandle.sendData_eq_panicked).trans not_not
  | sendReply => exact (not_congr StreamHandle.sendReply_eq_panicked).trans not_not
  | callDirect => exact (not_congr DirectDial.call_eq_panicked).trans not_and_not_right
  | advertiseDirect =>
      exact (not_congr DirectDial.advertiseDirect_eq_panicked).trans not_and_not_right
  | ffiCall => exact (not_congr FfiSession.call_eq_panicked).trans not_and_not_right
  | ffiCallWithUcan =>
      exact (not_congr FfiSession.callWithUcan_eq_panicked).trans not_and_not_right
  | ffiPublish => exact iff_of_true FfiSession.publish_ne_panicked trivial
  | ffiStreamOpen => exact (not_congr FfiSession.streamOpen_eq_panicked).trans not_and_not_right
  | ffiSendData =>
      refine (not_congr FfiStream.sendData_eq_panicked).trans ?_
      simp only [SendPath.Fits, not_exists, not_and_not_right]
  | ffiSendReply => exact iff_of_true FfiStream.sendReply_ne_panicked trivial
  | ffiCallDirect =>
      refine ((not_congr FfiSession.callDirect_eq_panicked).trans not_and_not_right).trans ?_
      simp only [SendPath.Fits, forall_exists_index, and_imp]
  | ffiAdvertiseDirect =>
      refine ((not_congr FfiSession.advertiseDirect_eq_panicked).trans not_and_not_right).trans ?_
      simp only [SendPath.Fits, forall_exists_index, and_imp]

end

/-- **A send is total exactly when what it sends fits.**  No send panics if its value, its deadline
and its expiry are in range, and it panics if they are not.  A provider stays up exactly until
it comes to sign a reply with an integer out of range, which no handler behind the FFI gives
it.  No deadline that is computed in an `i128` overflows. -/
theorem send_paths_total_iff (E : Ed25519) (C : Ucan.TokenCodec) (sha256 : Bytes → ByteArr 32)
    (text : Connection.CallError → String) (message : FfiError → String) (identity : KeyPair) :
    (∀ path : SendPath,
      ¬ path.Panics E sha256 text identity ↔ path.Fits E sha256 text identity) ∧
    (∀ (leftover : Bytes) (events : List ServeEvent),
      (∀ pre s, pre <+: events → run (stepServe E C identity) (.start leftover) pre = some s →
        s.pc ≠ .panicked) ↔
      Guarded (stepServe E C identity) (fun s e => ¬ Connection.Unsignable s e)
        (.start leftover) events) ∧
    (∀ (guard : Option Session) (policy : FfiPolicy),
      FfiSession.service guard policy ≠ .panicked) ∧
    (∀ (leftover : Bytes) (events : List ServeEvent) (s : Server),
      Guarded (stepServe E C identity) (FromOutside message) (.start leftover) events →
      run (stepServe E C identity) (.start leftover) events = some s → s.pc ≠ .panicked) ∧
    ∀ (now : UnixMillis) (d : Duration), now.plus d < 2 ^ 127 :=
  ⟨SendPath.not_panics_iff, Connection.served_iff E C identity,
    FfiSession.service_ne_panicked,
    fun _ _ _ => FfiSession.served E C identity message, UnixMillis.plus_lt⟩

/-! ## Two sends -/

/-- What happens on the network does not matter before the CALL is signed. -/
def someWire : CallWire :=
  let id : ByteArr 16 := .fill 0
  let stamp : Connection.Stamp := ⟨id, 0, 0, 0⟩
  ⟨id, stamp, true, id, ⟨id, 0, true⟩, [], stamp, true⟩

def somebody : KeyPair := ⟨.fill 0⟩

def someSession : Session := ⟨Connection.stationInfo, []⟩

/-- A call whose payload is an integer of 65 bits. -/
def wideCall : SendPath :=
  .call someSession "p" (.fill 0) (.int (2 ^ 64)) 0 someWire

/-- A call through the FFI that is not to time out. -/
def patientCall : SendPath :=
  .ffiCall (some someSession) "p" (.replicate 32 0) .null (2 ^ 64 - 1) ⟨1, by decide⟩ someWire

theorem some_sends_panic :
    (wideCall.Panics .standIn Connection.someHash (fun _ => "") somebody ∧
      patientCall.Panics .standIn Connection.someHash (fun _ => "") somebody) ∧
    ¬ ∀ path : SendPath, ¬ path.Panics .standIn Connection.someHash (fun _ => "") somebody := by
  have hwide : wideCall.Panics .standIn Connection.someHash (fun _ => "") somebody := by
    refine Connection.Session.call_eq_panicked.mpr fun hfits => ?_
    have hint : IntOk (.int (2 ^ 64)) := Value.all_int.mp hfits.1
    revert hint
    decide
  have hpatient : patientCall.Panics .standIn Connection.someHash (fun _ => "") somebody :=
    FfiSession.call_eq_panicked.mpr ⟨List.length_replicate, by decide +kernel⟩
  exact ⟨⟨hwide, hpatient⟩, fun h => h wideCall hwide⟩

end Macula
