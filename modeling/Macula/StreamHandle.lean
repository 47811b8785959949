import Macula.Connection.Calls

/-!
# Sending on a stream

A `StreamHandle` opens a dedicated stream with a STREAM_OPEN and numbers the chunks it sends.
Its three ways to send embed a value each, and panic exactly when that value, or the deadline
of a STREAM_OPEN, has an integer out of range; or when the numbers run out.
-/

namespace Macula

open Macula.Cbor (Value)
open Macula.Connection (FrameWire SendFrameError sendSigned sendSigned_built_eq_panicked)
open Macula.Frame (Built StreamEncoding StreamMode)

structure StreamHandle where
  streamId : ByteArr 16
  mode : StreamMode
  seqOut : UInt64
deriving DecidableEq

inductive OpenError where
  | openStream
  | send (e : SendFrameError)
deriving DecidableEq

section

variable (E : Ed25519) (identity : KeyPair)

/-- `opens` says whether the connection gives a new stream. -/
def StreamHandle.open (procedure : String) (realm : ByteArr 32) (mode : StreamMode) (args : Value)
    (deadlineMs : Int) (opens : Bool) (streamId : ByteArr 16) (wire : FrameWire) :
    Outcome OpenError StreamHandle :=
  if !opens then .err .openStream
  else do
    let caller := identity.nodeId E
    let spec := { streamId, procedure, realm, mode, args, deadlineMs, caller }
    let frame := Frame.streamOpen spec wire.frameId wire.sentAtMs
    (sendSigned E identity frame wire.takes).mapErr .send
    return { streamId, mode, seqOut := 0 }

def StreamHandle.sendReply (handle : StreamHandle) (payload : Value) (wire : FrameWire) :
    Outcome SendFrameError Unit :=
  let spec := { streamId := handle.streamId, payload, respondedBy := identity.nodeId E }
  sendSigned E identity (Frame.streamReply spec wire.frameId wire.sentAtMs) wire.takes

/-- The chunk takes its number whether it is sent or not. -/
def StreamHandle.sendData (handle : StreamHandle) (encoding : StreamEncoding) (body : Value)
    (wire : FrameWire) : StreamHandle × Outcome SendFrameError Unit :=
  let spec := { streamId := handle.streamId, seq := handle.seqOut, encoding, body,
                signer := some (identity.nodeId E) }
  match (.addU64 handle.seqOut 1 : Outcome SendFrameError UInt64) with
  | .ok seqOut => ({ handle with seqOut },
      sendSigned E identity (Frame.streamData spec wire.frameId wire.sentAtMs) wire.takes)
  | .err e => (handle, .err e)
  | .panicked => (handle, .panicked)

end

section

variable {E : Ed25519} {identity : KeyPair} {handle : StreamHandle} {wire : FrameWire}

theorem StreamHandle.open_eq_panicked {procedure : String} {realm : ByteArr 32} {mode : StreamMode}
    {args : Value} {deadlineMs : Int} {opens : Bool} {streamId : ByteArr 16} :
    StreamHandle.open E identity procedure realm mode args deadlineMs opens streamId wire =
      .panicked ↔
      opens = true ∧ ¬ (args.IntsInRange ∧ Cbor.IntOk (.int deadlineMs)) := by
  let spec : Frame.StreamOpenSpec :=
    { streamId, procedure, realm, mode, args, deadlineMs, caller := identity.nodeId E }
  have hrange : (Built.streamOpen spec).InRange ↔
      args.IntsInRange ∧ Cbor.IntOk (.int deadlineMs) := Built.inRange_iff_of_deadline rfl rfl
  have hsend : sendSigned E identity (Frame.streamOpen spec wire.frameId wire.sentAtMs)
      wire.takes = .panicked ↔ ¬ (Built.streamOpen spec).InRange :=
    sendSigned_built_eq_panicked (.streamOpen spec)
  rw [StreamHandle.open]
  cases opens with
  | false => exact ⟨nofun, fun h => nomatch h.1⟩
  | true =>
      rw [← hrange, ← hsend]
      simp [Outcome.bind_eq_panicked, spec]

theorem StreamHandle.sendReply_eq_panicked {payload : Value} :
    handle.sendReply E identity payload wire = .panicked ↔ ¬ payload.IntsInRange := by
  let spec : Frame.StreamReplySpec :=
    { streamId := handle.streamId, payload, respondedBy := identity.nodeId E }
  have hrange : (Built.streamReply spec).InRange ↔ payload.IntsInRange :=
    Built.inRange_iff rfl rfl
  rw [← hrange]
  exact sendSigned_built_eq_panicked (.streamReply spec)

theorem StreamHandle.sendData_eq_panicked {encoding : StreamEncoding} {body : Value} :
    (handle.sendData E identity encoding body wire).2 = .panicked ↔
      ¬ (handle.seqOut.toNat + 1 < 2 ^ 64 ∧ body.IntsInRange) := by
  let spec : Frame.StreamDataSpec :=
    { streamId := handle.streamId, seq := handle.seqOut, encoding, body,
      signer := some (identity.nodeId E) }
  have hrange : (Built.streamData spec).InRange ↔ body.IntsInRange :=
    Built.inRange_iff rfl rfl
  have hsend : sendSigned E identity (Frame.streamData spec wire.frameId wire.sentAtMs)
      wire.takes = .panicked ↔ ¬ (Built.streamData spec).InRange :=
    sendSigned_built_eq_panicked (.streamData spec)
  rw [StreamHandle.sendData]
  by_cases hseq : handle.seqOut.toNat + 1 < 2 ^ 64
  · have hadd : (.addU64 handle.seqOut 1 : Outcome SendFrameError UInt64) =
        .ok (handle.seqOut + 1) := Outcome.addU64_eq_ok.mpr ⟨hseq, rfl⟩
    rw [hadd, ← hrange]
    exact hsend.trans (not_congr ⟨fun h => ⟨hseq, h⟩, fun h => h.2⟩)
  · have hadd : (.addU64 handle.seqOut 1 : Outcome SendFrameError UInt64) = .panicked :=
      Outcome.addU64_eq_panicked.mpr hseq
    rw [hadd]
    exact ⟨fun _ h => hseq h.1, fun _ => rfl⟩

end

end Macula
