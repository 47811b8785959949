import Macula.Connection.Errors
import Macula.Frame.Frames
import Macula.Lib.Runs

/-!
# The receiving half of a frame stream

`read_one_frame` reads the HELLO of a handshake into a buffer of its own and hands what is left
to `FrameStream::with_buf`; `recv_frame` reads every later frame into the buffer of the stream.
Both decode before they read, and await nothing but the read.  A future that is dropped there
has read nothing, and the buffer stays with the stream.

Whatever the reads return and wherever a future is dropped, the frames that have been returned
and the frames of the bytes still to come are the frames of the whole stream
(`Receiver.Inv`).
-/

namespace Macula.Connection

open Macula.Cbor (Value)

/-- A single read asks for at most this many bytes. -/
def READ_CHUNK : Nat := 64 * 1024

inductive ReadPc where
  /-- No future is alive. -/
  | idle
  /-- At the head of the loop. -/
  | decoding
  /-- In quinn's `read`. -/
  | reading
  /-- The handshake has failed, and the stream with it. -/
  | closed
deriving DecidableEq

structure Receiver where
  /-- What the peer sends and nobody has read yet. -/
  unread : Bytes
  buf : Bytes
  pc : ReadPc
  /-- In `read_one_frame`, not in `recv_frame`. -/
  greeting : Bool
  returned : List Value
deriving DecidableEq

/-- The control stream of a connection, which starts with the handshake. -/
def Receiver.dialing (s : Bytes) : Receiver := ⟨s, [], .decoding, true, []⟩

/-- A dedicated stream. -/
def Receiver.new (s : Bytes) : Receiver := ⟨s, [], .idle, false, []⟩

inductive ReadEvent where
  /-- `recv_frame`, with or without a timeout. -/
  | recv
  /-- `frame::decode` on the buffer. -/
  | decode
  /-- The read returns `n` bytes. -/
  | read (n : Nat)
  /-- The stream is closed or fails under the read. -/
  | fail
  /-- The future is dropped, by its caller or by a timeout. -/
  | drop
deriving DecidableEq

/-- Where an error leaves the stream. -/
def Receiver.afterError (r : Receiver) : ReadPc := if r.greeting then .closed else .idle

theorem Receiver.afterError_ne_reading (r : Receiver) : r.afterError ≠ .reading := by
  unfold Receiver.afterError
  split <;> nofun

/-- A frame is returned.  The first one of a handshake has to pass as its HELLO. -/
def Receiver.deliver (hello : Value → Bool) (r : Receiver) (v : Value) (consumed : Nat) :
    Receiver :=
  { r with
    buf := r.buf.drop consumed
    pc := if r.greeting && !hello v then .closed else .idle
    greeting := false
    returned := r.returned ++ [v] }

/-- `hello` says whether a handshake goes on with a frame. -/
def stepReceive (hello : Value → Bool) (r : Receiver) : ReadEvent → Option Receiver
  | .recv => if r.pc = .idle then some { r with pc := .decoding } else none
  | .decode =>
      if r.pc = .decoding then
        match Frame.decode r.buf with
        | .ok (.frame v consumed) => some (r.deliver hello v consumed)
        | .ok (.more _) => some { r with pc := .reading }
        | .err _ => some { r with pc := r.afterError }
        | .panicked => some { r with pc := .closed }
      else none
  | .read n =>
      if r.pc = .reading ∧ 0 < n ∧ n ≤ READ_CHUNK ∧ n ≤ r.unread.length then
        some { r with buf := r.buf ++ r.unread.take n, unread := r.unread.drop n, pc := .decoding }
      else none
  | .fail => if r.pc = .reading then some { r with pc := r.afterError } else none
  | .drop => if r.pc = .reading then some { r with pc := r.afterError } else none

/-! ## What is received -/

/-- The frames returned and the frames still to come are those of the whole stream, and a read
is awaited only when the buffer holds no whole frame. -/
structure Receiver.Inv (s : Bytes) (r : Receiver) : Prop where
  frames : r.returned ++ Frame.frames (r.buf ++ r.unread) = Frame.frames s
  reading : r.pc = .reading → ∃ k, Frame.decode r.buf = .ok (.more k)

theorem Receiver.Inv.step {hello : Value → Bool} {s : Bytes} {r r' : Receiver} {e : ReadEvent}
    (hi : r.Inv s) (h : stepReceive hello r e = some r') : r'.Inv s := by
  revert h
  fun_cases stepReceive hello r e
  all_goals intro h; cases h
  case case1 hpc => exact ⟨hi.frames, nofun⟩
  case case3 hpc v consumed hdecode =>
    obtain ⟨-, hle⟩ := Frame.decode_frame_le hdecode
    have hframes := Frame.frames_of_frame (Frame.decode_append_frame hdecode r.unread)
    rw [List.drop_append_of_le_length hle] at hframes
    refine ⟨?_, fun hpc' => ?_⟩
    · rw [Receiver.deliver, List.append_assoc, List.singleton_append, ← hframes]
      exact hi.frames
    · rw [Receiver.deliver] at hpc'
      dsimp only at hpc'
      split at hpc' <;> cases hpc'
  case case4 hpc k hdecode => exact ⟨hi.frames, fun _ => ⟨k, hdecode⟩⟩
  case case5 hpc error hdecode =>
    exact ⟨hi.frames, fun hpc' => absurd hpc' r.afterError_ne_reading⟩
  case case6 hpc hdecode => exact ⟨hi.frames, nofun⟩
  case case8 n hread =>
    refine ⟨?_, nofun⟩
    rw [List.append_assoc, List.take_append_drop]
    exact hi.frames
  case case10 hpc =>
    exact ⟨hi.frames, fun hpc' => absurd hpc' r.afterError_ne_reading⟩
  case case12 hpc =>
    exact ⟨hi.frames, fun hpc' => absurd hpc' r.afterError_ne_reading⟩

/-- Nothing can be received any more: the buffer has a fault, or everything is read and a read
is awaited. -/
def Receiver.Drained (r : Receiver) : Prop :=
  (∃ e, Frame.decode r.buf = .err e) ∨ r.pc = .reading ∧ r.unread = []

theorem Receiver.Inv.of_drained {s : Bytes} {r : Receiver} (hi : r.Inv s) (hr : r.Drained) :
    r.returned = Frame.frames s := by
  have hrest : Frame.frames (r.buf ++ r.unread) = [] := by
    rcases hr with ⟨e, he⟩ | ⟨hpc, hunread⟩
    · exact Frame.frames_of_not_frame (by rw [Frame.decode_append_err he]; nofun)
    · obtain ⟨k, hk⟩ := hi.reading hpc
      rw [hunread, List.append_nil]
      exact Frame.frames_of_not_frame (by rw [hk]; nofun)
  rw [← hi.frames, hrest, List.append_nil]

/-- *Chunking and cancellation do not change what is received.*  In every run over a stream the
frames returned so far, followed by those of the bytes still to come, are the frames of the
whole stream, and all of them are returned once nothing can be received any more.  What a
buffer decodes to is settled by its own bytes. -/
theorem received_frames {hello : Value → Bool} {s : Bytes} {r₀ r : Receiver}
    {events : List ReadEvent} (hstart : r₀ = .dialing s ∨ r₀ = .new s)
    (hrun : run (stepReceive hello) r₀ events = some r) :
    (r.returned ++ Frame.frames (r.buf ++ r.unread) = Frame.frames s ∧
      (r.Drained → r.returned = Frame.frames s)) ∧
    (∀ b x v n, Frame.decode b = .ok (.frame v n) → Frame.decode (b ++ x) = .ok (.frame v n)) ∧
    (∀ b x e, Frame.decode b = .err e → Frame.decode (b ++ x) = .err e) ∧
    ∀ b x k, Frame.decode b = .ok (.more k) → x.length < k →
      Frame.decode (b ++ x) = .ok (.more (k - x.length)) := by
  have h₀ : r₀.Inv s := by
    rcases hstart with rfl | rfl
    · exact ⟨rfl, nofun⟩
    · exact ⟨rfl, nofun⟩
  have hi : r.Inv s := run_invariant_of_step (Receiver.Inv s) (fun _ _ _ hi h => hi.step h) h₀ hrun
  refine ⟨⟨hi.frames, hi.of_drained⟩, ?_, ?_, ?_⟩
  · intro b x v n h
    exact Frame.decode_append_frame h x
  · intro b x e h
    exact Frame.decode_append_err h x
  · intro b x k h hx
    exact Frame.decode_append_more h hx

/-- Two frames, read in pieces, with a future dropped inside the second. -/
theorem received_in_pieces :
    let s : Bytes := [0, 0, 0, 1, 0xF6, 0, 0, 0, 1, 0xF6]
    ∃ r, run (stepReceive fun _ => true) (.dialing s)
        [.decode, .read 3, .decode, .read 5, .decode, .recv, .decode, .drop, .recv, .decode,
          .read 2, .decode, .recv, .decode] = some r ∧
      r.returned = Frame.frames s ∧ r.returned = [.null, .null] := by
  intro s
  let r : Receiver := ⟨[], [], .reading, false, [.null, .null]⟩
  have hrun : run (stepReceive fun _ => true) (.dialing s)
      [.decode, .read 3, .decode, .read 5, .decode, .recv, .decode, .drop, .recv, .decode,
        .read 2, .decode, .recv, .decode] = some r := by
    decide
  exact ⟨r, hrun, (received_frames (.inl rfl) hrun).1.2 (.inr ⟨rfl, rfl⟩), rfl⟩

end Macula.Connection
