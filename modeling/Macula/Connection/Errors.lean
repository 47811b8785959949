import Macula.Frame.Codec

/-!
# Errors of a frame stream

What sending a frame, receiving one and making a call can fail with.  The errors that
`quinn` reports are opaque to the crate, which only passes them on, so each is one
constructor without a payload.
-/

namespace Macula.Connection

inductive SendFrameError where
  | encode (e : Frame.EncodeFrameError)
  /-- The stream failed under `write_all`. -/
  | write
deriving DecidableEq

inductive RecvFrameError where
  | decode (e : Frame.DecodeFrameError)
  /-- The stream failed under `read`. -/
  | read
  | streamClosed
  | timeout
deriving DecidableEq

inductive CallError where
  | send (e : SendFrameError)
  | recv (e : RecvFrameError)
deriving DecidableEq

end Macula.Connection
