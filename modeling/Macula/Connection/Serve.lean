import Macula.Connection.Reply

/-!
# Serving CALLs

`serve_one_call_gated` reads the control stream until a frame is a CALL, removes it from the
receive buffer, answers it and returns, all within one timeout.  `step` is one such call after
another on one stream: an event for each place where the function awaits something, and for
each of these the expiry of the timeout there.  A handler is its end, which may come at any
time.

The `log` is a record for the statements: the CALLs removed from the buffer and the frames
written behind them.

`answered_iff` is exact.  What breaks "every CALL that is consumed is answered" is the timeout
that covers the handler and the writes as well as the wait for a CALL, and a value that a
handler returns but a RESULT cannot carry.
-/

namespace Macula.Connection

open Macula.Cbor (Value)
open Macula.Frame (CallInfo)

inductive ServeCallError where
  | recv (e : RecvFrameError)
  | send (e : SendFrameError)
  /-- No inbound CALL arrived within the requested timeout. -/
  | timeout
deriving DecidableEq

/-- What follows the writing of a frame. -/
inductive Next where
  | handle (call : CallInfo) (requestId : ByteArr 16)
  | reply (call : CallInfo) (answer : Answer)
  | finish

/-- Where `serve_one_call_gated` is. -/
inductive ServePc where
  /-- No call of it is running. -/
  | idle
  /-- At the head of `recv_frame`'s loop. -/
  | receiving (service : Service)
  | reading (service : Service)
  | announcing (call : CallInfo) (requestId : ByteArr 16)
  | handling (call : CallInfo) (requestId : ByteArr 16)
  | announcingReply (call : CallInfo) (requestId : ByteArr 16) (handlerErr : Option String)
      (answer : Answer)
  | replying (call : CallInfo) (answer : Answer)
  /-- In `write_all`. -/
  | writing (frame : Value) (encoded : Bytes) (next : Next)
  | panicked

inductive Entry where
  /-- A CALL is removed from the receive buffer. -/
  | consumed (call : CallInfo)
  /-- A frame is written whole. -/
  | sent (frame : Value)

structure Server where
  buf : Bytes
  out : SendStream
  pc : ServePc
  log : List Entry
  /-- The running call, or the last one, has consumed a CALL. -/
  taken : Bool
  /-- What the last call returned. -/
  returned : Option (Outcome ServeCallError Unit)

/-- A session whose handshake left `leftover` in the buffer. -/
def Server.start (leftover : Bytes) : Server := ⟨leftover, .open, .idle, [], false, none⟩

inductive ReadEnd where
  | chunk (b : Bytes)
  | closed
  | failed

inductive ServeEvent where
  | serve (service : Service)
  /-- `frame::decode` on the buffer, at a time and with a fresh request id. -/
  | decode (now : Int) (requestId : ByteArr 16)
  | read (ending : ReadEnd)
  /-- The next frame is built, signed and encoded. -/
  | build (stamp : Stamp)
  | written (ending : WriteEnd)
  | handled (ending : HandlerEnd)
  /-- The timeout expires, in a write after `n` bytes. -/
  | expire (n : Nat)

variable (E : Ed25519) (C : Ucan.TokenCodec) (identity : KeyPair)

def Server.ret (s : Server) (result : Outcome ServeCallError Unit) : Server :=
  { s with pc := .idle, returned := some result }

@[simp] theorem Server.ret_pc (s : Server) (result : Outcome ServeCallError Unit) :
    (s.ret result).pc = .idle := rfl

def Server.consume (s : Server) (call : CallInfo) : Server :=
  { s with log := s.log ++ [.consumed call], taken := true }

/-- `frame` is on the stream, whole. -/
def Server.put (s : Server) (out : SendStream) (frame : Value) : Server :=
  { s with out, log := s.log ++ [.sent frame] }

/-- `send_frame` has returned.  Only the reply's result is looked at. -/
def Server.sent (s : Server) (result : Outcome SendFrameError Unit) : Next → Server
  | .handle call requestId => { s with pc := .handling call requestId }
  | .reply call answer => { s with pc := .replying call answer }
  | .finish => s.ret (result.mapErr .send)

/-- Sign and encode a frame; `write_all` comes next. -/
def Server.send (s : Server) (signed : Outcome SendFrameError Value) (next : Next) : Server :=
  match signed with
  | .ok frame =>
      match Frame.encode frame with
      | .ok encoded => { s with pc := .writing frame encoded next }
      | .err e => s.sent (.err (.encode e)) next
      | .panicked => { s with pc := .panicked }
  | .err e => s.sent (.err e) next
  | .panicked => { s with pc := .panicked }

/-- `build_call_reply` up to its first fact. -/
def Server.dispatch (s : Server) (service : Service) (now : Int) (requestId : ByteArr 16)
    (call : CallInfo) : Server :=
  match service.admit E C now call with
  | .ok () => { s with pc := .announcing call requestId }
  | .err code => { s with pc := .replying call (.error code none) }
  | .panicked => { s with pc := .panicked }

/-- A frame has been taken from the buffer; one that is no CALL is dropped. -/
def Server.received (s : Server) (service : Service) (now : Int) (requestId : ByteArr 16)
    (frame : Value) : Server :=
  match Frame.parseCall frame with
  | .ok call => (s.consume call).dispatch E C service now requestId call
  | .err _ => s
  | .panicked => { s with pc := .panicked }

def stepServe (s : Server) : ServeEvent → Option Server
  | .serve service =>
      match s.pc with
      | .idle => some { s with pc := .receiving service, taken := false, returned := none }
      | _ => none
  | .decode now requestId =>
      match s.pc with
      | .receiving service =>
          match Frame.decode s.buf with
          | .ok (.frame value consumed) =>
              some ({ s with buf := s.buf.drop consumed }.received E C service now requestId value)
          | .ok (.more _) => some { s with pc := .reading service }
          | .err e => some (s.ret (.err (.recv (.decode e))))
          | .panicked => some { s with pc := .panicked }
      | _ => none
  | .read ending =>
      match s.pc with
      | .reading service =>
          match ending with
          | .chunk b => some { s with buf := s.buf ++ b, pc := .receiving service }
          | .closed => some (s.ret (.err (.recv .streamClosed)))
          | .failed => some (s.ret (.err (.recv .read)))
      | _ => none
  | .build stamp =>
      match s.pc with
      | .announcing call requestId =>
          some (s.send (announceRpcReceived E call.realm identity requestId stamp)
            (.handle call requestId))
      | .announcingReply call requestId handlerErr answer =>
          some (s.send (announceRpcReplied E call.realm identity requestId handlerErr stamp)
            (.reply call answer))
      | .replying call answer =>
          some (s.send (Frame.sign E (answer.frame call.callId (identity.nodeId E) stamp.frameId
            stamp.sentAtMs) identity) .finish)
      | _ => none
  | .handled ending =>
      match s.pc with
      | .handling call requestId =>
          match ending with
          | .ok _ => some { s with pc := .announcingReply call requestId none ending.answer }
          | .err reason =>
              some { s with pc := .announcingReply call requestId (some reason) ending.answer }
          | .panicked => some { s with pc := .replying call ending.answer }
      | _ => none
  | .written ending =>
      match s.pc with
      | .writing frame encoded next =>
          match s.out.writeAll encoded ending with
          | (out, some (.ok ())) => some ((s.put out frame).sent (.ok ()) next)
          | (out, some result) => some ({ s with out }.sent result next)
          | (_, none) => none
      | _ => none
  | .expire n =>
      match s.pc with
      | .reading _ | .handling _ _ => some (s.ret (.err .timeout))
      | .writing _ encoded _ =>
          some ({ s with out := (s.out.writeAll encoded (.dropped n)).1 }.ret (.err .timeout))
      | _ => none

end Macula.Connection
