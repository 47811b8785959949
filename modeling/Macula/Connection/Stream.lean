import Macula.Connection.Errors
import Macula.Frame.Publish
import Macula.Lib.Runs

/-!
# The sending half of a frame stream

Every operation on a `FrameStream` that sends (a publish, a subscribe, a call, a reply, a
chunk of a stream) does so by `send_frame`, once or several times.  `send_frame` has one
place where it awaits, quinn's `write_all`, and may have written any prefix of the frame
when its future is dropped there, by a timeout or by a caller.  Nothing marks the stream as
broken then, so the next operation writes its frame behind the prefix.

`sent_iff_untorn` is exact: the bytes on the stream consist of whole frames before every
operation if and only if no future is dropped *inside* a frame.
-/

namespace Macula.Connection

open Macula.Cbor (Value)

/-- How a `write_all` ends. -/
inductive WriteEnd where
  | done
  /-- The future is dropped when `n` bytes are written. -/
  | dropped (n : Nat)
  /-- The stream fails when `n` bytes are written. -/
  | failed (n : Nat)
deriving DecidableEq

/-- quinn's `SendStream`: what is written, and whether it has failed. -/
structure SendStream where
  written : Bytes
  failed : Bool
deriving DecidableEq

def SendStream.open : SendStream := ⟨[], false⟩

/-- `write_all`.  The result is `none` when the future is dropped. -/
def SendStream.writeAll (s : SendStream) (buf : Bytes) :
    WriteEnd → SendStream × Option (Outcome SendFrameError Unit)
  | .done => if s.failed then (s, some (.err .write))
      else ({ s with written := s.written ++ buf }, some (.ok ()))
  | .dropped n => if s.failed then (s, none)
      else ({ s with written := s.written ++ buf.take n }, none)
  | .failed n => if s.failed then (s, some (.err .write))
      else (⟨s.written ++ buf.take n, true⟩, some (.err .write))

theorem SendStream.writeAll_ok {s out : SendStream} {buf : Bytes} {ending : WriteEnd}
    (h : s.writeAll buf ending = (out, some (.ok ()))) :
    s.failed = false ∧ out = { s with written := s.written ++ buf } := by
  cases hfailed : s.failed <;> cases ending <;> simp_all [writeAll]

/-- A write that returns an error leaves a failed stream. -/
theorem SendStream.writeAll_err {s out : SendStream} {buf : Bytes} {ending : WriteEnd}
    {result : Outcome SendFrameError Unit} (h : s.writeAll buf ending = (out, some result))
    (hresult : result ≠ .ok ()) : out.failed = true := by
  cases ending with
  | done =>
      rw [writeAll] at h
      split at h <;> cases h
      · assumption
      · exact absurd rfl hresult
  | dropped n =>
      rw [writeAll] at h
      split at h <;> cases h
  | failed n =>
      rw [writeAll] at h
      split at h <;> cases h
      · assumption
      · rfl

/-- A failed stream stays failed. -/
theorem SendStream.failed_of_writeAll {s : SendStream} {buf : Bytes} {ending : WriteEnd}
    (h : (s.writeAll buf ending).1.failed = false) : s.failed = false := by
  cases hfailed : s.failed with
  | false => rfl
  | true => cases ending <;> simp_all [writeAll]

/-- `FrameStream::send_frame`. -/
def sendFrame (s : SendStream) (frame : Value) (ending : WriteEnd) :
    SendStream × Option (Outcome SendFrameError Unit) :=
  match Frame.encode frame with
  | .ok encoded => s.writeAll encoded ending
  | .err e => (s, some (.err (.encode e)))
  | .panicked => (s, some .panicked)

/-- A `send_frame` of some operation on the stream, and how its write ends. -/
structure Send where
  frame : Value
  ending : WriteEnd
deriving DecidableEq

def stepSend (s : SendStream) (op : Send) : Option SendStream :=
  some (sendFrame s op.frame op.ending).1

/-- The future of `op` is dropped inside its frame. -/
def Torn (s : SendStream) (op : Send) : Prop :=
  s.failed = false ∧ ∃ encoded n, Frame.encode op.frame = .ok encoded ∧
    op.ending = .dropped n ∧ 0 < n ∧ n < encoded.length

/-! ## Whole frames -/

/-- `b` is a concatenation of complete length-prefixed frames. -/
def Framed (b : Bytes) : Prop :=
  ∃ payloads : List Bytes, (∀ p ∈ payloads, p.length ≤ Frame.MAX_FRAME_BYTES) ∧
    b = payloads.flatMap Frame.wire

theorem framed_nil : Framed [] := ⟨[], by simp, rfl⟩

theorem framed_encode {frame : Value} {b : Bytes} (h : Frame.encode frame = .ok b) :
    Framed b := by
  obtain ⟨-, hlen, rfl⟩ := Frame.encode_eq_ok.mp h
  exact ⟨[Cbor.canon frame], by simpa using hlen, by simp⟩

theorem Framed.append {a b : Bytes} (ha : Framed a) (hb : Framed b) : Framed (a ++ b) := by
  obtain ⟨ps, hps, rfl⟩ := ha
  obtain ⟨qs, hqs, rfl⟩ := hb
  refine ⟨ps ++ qs, fun p hp => ?_, List.flatMap_append.symm⟩
  exact (List.mem_append.mp hp).elim (hps p) (hqs p)

/-- A frame says where it ends, so two frames at the head of the same bytes are one. -/
theorem wire_append_inj {p q r r' : Bytes} (hp : p.length ≤ Frame.MAX_FRAME_BYTES)
    (hq : q.length ≤ Frame.MAX_FRAME_BYTES)
    (h : Frame.wire p ++ r = Frame.wire q ++ r') : p = q ∧ r = r' := by
  have hmax : Frame.MAX_FRAME_BYTES < 256 ^ 4 := by decide
  rw [Frame.wire, Frame.wire, List.append_assoc, List.append_assoc] at h
  obtain ⟨hlen, hrest⟩ := List.append_inj h (by simp)
  have hlength : p.length = q.length :=
    beBytes_inj (hp.trans_lt hmax) (hq.trans_lt hmax) hlen
  exact List.append_inj hrest hlength

/-- Whole frames in front of whole frames can be taken away. -/
theorem Framed.of_append {a b : Bytes} (ha : Framed a) (hab : Framed (a ++ b)) : Framed b := by
  obtain ⟨ps, hps, rfl⟩ := ha
  induction ps with
  | nil => exact hab
  | cons p ps ih =>
      obtain ⟨qs, hqs, heq⟩ := hab
      refine ih (fun q hq => hps q (List.mem_cons_of_mem _ hq)) ?_
      have hp := hps p (List.mem_cons_self ..)
      cases qs with
      | nil =>
          have := congrArg List.length heq
          simp at this
      | cons q qs =>
          rw [List.flatMap_cons, List.flatMap_cons, List.append_assoc] at heq
          obtain ⟨-, hrest⟩ := wire_append_inj hp (hqs q (List.mem_cons_self ..)) heq
          exact ⟨qs, fun r hr => hqs r (List.mem_cons_of_mem _ hr), hrest⟩

/-- The beginning of a frame is not made of whole frames. -/
theorem not_framed_take {frame : Value} {b : Bytes} (h : Frame.encode frame = .ok b) {n : Nat}
    (h₀ : 0 < n) (hn : n < b.length) : ¬ Framed (b.take n) := by
  obtain ⟨-, hlen, rfl⟩ := Frame.encode_eq_ok.mp h
  rintro ⟨qs, hqs, heq⟩
  cases qs with
  | nil =>
      have := congrArg List.length heq
      simp only [List.length_take, List.flatMap_nil, List.length_nil] at this
      omega
  | cons q qs =>
      rw [List.flatMap_cons] at heq
      -- the rest of the frame completes it, so its first frame is the whole of it
      have hwhole : Frame.wire (Cbor.canon frame) ++ [] =
          Frame.wire q ++ (qs.flatMap Frame.wire ++ (Frame.wire (Cbor.canon frame)).drop n) := by
        rw [← List.append_assoc, ← heq, List.take_append_drop, List.append_nil]
      obtain ⟨-, hrest⟩ := wire_append_inj hlen (hqs q (List.mem_cons_self ..)) hwhole
      have := congrArg List.length hrest
      simp only [List.length_append, List.length_drop, List.length_nil] at this
      omega

/-! ## One operation -/

/-- An operation adds whole frames, unless it is torn or the stream fails. -/
theorem framed_step {s s' : SendStream} {op : Send} (hs : Framed s.written)
    (htorn : ¬ Torn s op) (h : stepSend s op = some s') (hok : s'.failed = false) :
    Framed s'.written := by
  obtain rfl := Option.some.inj h
  unfold sendFrame at hok ⊢
  cases hencode : Frame.encode op.frame with
  | ok encoded =>
      simp only [hencode] at hok ⊢
      have hframed := framed_encode hencode
      cases hending : op.ending with
      | done =>
          simp only [hending, SendStream.writeAll] at hok ⊢
          split
          · exact hs
          · exact hs.append hframed
      | dropped n =>
          simp only [hending, SendStream.writeAll] at hok ⊢
          split
          · exact hs
          · next hopen =>
              rcases Nat.eq_zero_or_pos n with rfl | hpos
              · simpa using hs
              · have hle : encoded.length ≤ n := by
                  by_contra hlt
                  exact htorn ⟨Bool.eq_false_iff.mpr hopen, encoded, n, hencode, hending, hpos,
                    Nat.lt_of_not_le hlt⟩
                rw [List.take_of_length_le hle]
                exact hs.append hframed
      | failed n =>
          simp only [hending, SendStream.writeAll] at hok ⊢
          split at hok
          · next hfailed => exact absurd (hfailed.symm.trans hok) nofun
          · cases hok
  | err e => exact hs
  | panicked => exact hs

/-- A stream that has not failed had not failed before. -/
theorem failed_step {s s' : SendStream} {op : Send} (h : stepSend s op = some s')
    (hok : s'.failed = false) : s.failed = false := by
  obtain rfl := Option.some.inj h
  unfold sendFrame at hok
  split at hok
  · exact SendStream.failed_of_writeAll hok
  · exact hok
  · exact hok

/-- A torn operation leaves the beginning of a frame behind. -/
theorem not_framed_of_torn {s s' : SendStream} {op : Send} (hs : Framed s.written)
    (htorn : Torn s op) (h : stepSend s op = some s') :
    s'.failed = false ∧ ¬ Framed s'.written := by
  obtain ⟨hopen, encoded, n, hencode, hending, hpos, hn⟩ := htorn
  obtain rfl := Option.some.inj h
  simp only [sendFrame, hencode, hending, SendStream.writeAll, hopen]
  exact ⟨rfl, fun hframed => not_framed_take hencode hpos hn (hs.of_append hframed)⟩

/-! ## Sequences of operations -/

/-- *Framing survives exactly the cancellations that do not strike inside a frame.*  On a
stream that has not failed, the bytes before every operation, and after the last one, form
whole frames if and only if no operation is torn. -/
theorem sent_iff_untorn (sends : List Send) :
    (∀ pre s, pre <+: sends → run stepSend .open pre = some s → s.failed = false →
      Framed s.written) ↔
    Guarded stepSend (fun s op => ¬ Torn s op) .open sends := by
  let framed : SendStream → Prop := fun s => s.failed = false → Framed s.written
  refine good_iff_guarded framed framed ?_ (fun s hi => hi) ?_ (fun _ => framed_nil)
  · intro s op s' hi htorn hs hok
    exact framed_step (hi (failed_step hs hok)) htorn hs hok
  · intro s op hi htorn
    rw [not_not] at htorn
    obtain ⟨s', hs'⟩ : ∃ s', stepSend s op = some s' := ⟨_, rfl⟩
    obtain ⟨hok, hnot⟩ := not_framed_of_torn (hi htorn.1) htorn hs'
    exact ⟨s', hs', fun hframed => hnot (hframed hok)⟩

/-- A PUBLISH without a payload. -/
def somePublish : Value :=
  Frame.publish ⟨"t", .fill 1, .fill 2, 0, .null, 0, none⟩
    (.fill 3) 0

/-- A publisher's future is dropped when one byte is written; then somebody sends a frame. -/
def abandoned : List Send := [⟨somePublish, .dropped 1⟩, ⟨somePublish, .done⟩]

theorem abandoned_run :
    run stepSend .open [⟨somePublish, .dropped 1⟩] = some ⟨[0], false⟩ := by
  decide +kernel

theorem torn_frame_stays :
    ¬ ∀ (sends : List Send) (pre : List Send) (s : SendStream), pre <+: sends →
      run stepSend .open pre = some s → s.failed = false → Framed s.written := by
  intro h
  obtain ⟨ps, -, heq⟩ := h abandoned [⟨somePublish, .dropped 1⟩] ⟨[0], false⟩ ⟨_, rfl⟩
    abandoned_run rfl
  have hlen := congrArg List.length heq
  cases ps with
  | nil => cases hlen
  | cons p ps =>
      rw [List.flatMap_cons, List.length_append, Frame.length_wire, List.length_singleton] at hlen
      omega

end Macula.Connection
