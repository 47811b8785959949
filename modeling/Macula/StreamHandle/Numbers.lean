import Macula.StreamHandle
import Mathlib.Data.List.ReduceOption

/-!
# The numbers of the chunks

A handle numbers the chunks it sends from `0`, and a `send_data` takes its number before the
frame is signed, encoded and written.  A call that fails has therefore used its number up: the
frame of call `i` carries `i`, whatever became of the calls before it
(`StreamHandle.sends_seq`), and the numbers on the wire have a gap wherever a call that failed
comes before one that did not.

The numbers of the handle run out at `2 ^ 64 - 1`, where every call panics; so the statements
hold of lists of calls of any length.
-/

namespace Macula

open Macula.Cbor (Value)
open Macula.Connection (FrameWire SendFrameError sendSigned transmit)
open Macula.Frame (Built StreamEncoding StreamMode)

/-- What a `send_data` is called with, and what becomes of its write. -/
structure Chunk where
  encoding : StreamEncoding
  body : Value
  wire : FrameWire
deriving DecidableEq

section

variable (E : Ed25519) (identity : KeyPair)

/-- The frame of a chunk, before it is signed. -/
def StreamHandle.dataFrame (handle : StreamHandle) (chunk : Chunk) : Value :=
  Frame.streamData { streamId := handle.streamId, seq := handle.seqOut, encoding := chunk.encoding,
                     body := chunk.body, signer := some (identity.nodeId E) }
    chunk.wire.frameId chunk.wire.sentAtMs

/-- The signed frame, when it is written. -/
def StreamHandle.sent (handle : StreamHandle) (chunk : Chunk) : Option Value :=
  match (handle.sendData E identity chunk.encoding chunk.body chunk.wire).2 with
  | .ok () => (Frame.sign E (handle.dataFrame E identity chunk) identity :
      Outcome SendFrameError Value).toOption
  | _ => none

/-- The handle after a `send_data`. -/
def StreamHandle.next (handle : StreamHandle) (chunk : Chunk) : StreamHandle :=
  (handle.sendData E identity chunk.encoding chunk.body chunk.wire).1

/-- The handle after one `send_data` for each of the chunks. -/
def StreamHandle.after (handle : StreamHandle) : List Chunk → StreamHandle
  | [] => handle
  | chunk :: chunks => (handle.next E identity chunk).after chunks

/-- What each of the calls writes. -/
def StreamHandle.sends (handle : StreamHandle) : List Chunk → List (Option Value)
  | [] => []
  | chunk :: chunks =>
      handle.sent E identity chunk :: (handle.next E identity chunk).sends chunks

/-- The STREAM_DATA frames that reach the wire, in order. -/
def StreamHandle.onWire (handle : StreamHandle) (chunks : List Chunk) : List Value :=
  (handle.sends E identity chunks).reduceOption

end

/-- The frames carry `n`, `n + 1`, `n + 2`, … -/
def NumberedFrom (n : Nat) (frames : List Value) : Prop :=
  frames.map (·.get "seq") = (List.range' n frames.length).map fun i => some (.int i)

/-! ## One call -/

section

variable {E : Ed25519} {identity : KeyPair} {handle : StreamHandle} {chunk : Chunk}

/-- A call changes the counter and nothing else of the handle. -/
theorem StreamHandle.next_eq : handle.next E identity chunk =
    { handle with seqOut :=
        if handle.seqOut.toNat + 1 < 2 ^ 64 then handle.seqOut + 1 else handle.seqOut } := by
  rw [next, sendData]
  by_cases hseq : handle.seqOut.toNat + 1 < 2 ^ 64
  · have hadd : (.addU64 handle.seqOut 1 : Outcome SendFrameError UInt64) =
        .ok (handle.seqOut + 1) := Outcome.addU64_eq_ok.mpr ⟨hseq, rfl⟩
    rw [hadd, if_pos hseq]
  · have hadd : (.addU64 handle.seqOut 1 : Outcome SendFrameError UInt64) = .panicked :=
      Outcome.addU64_eq_panicked.mpr hseq
    rw [hadd, if_neg hseq]

theorem StreamHandle.seqOut_next : (handle.next E identity chunk).seqOut.toNat =
    min (handle.seqOut.toNat + 1) (2 ^ 64 - 1) := by
  have hlt := handle.seqOut.toNat_lt
  rw [next_eq]
  dsimp only
  split
  · next hseq =>
      rw [UInt64.toNat_add]
      simp only [UInt64.toNat_one]
      omega
  · omega

/-- What a call writes is its frame, signed, and the call had a number left. -/
theorem StreamHandle.sent_eq_some {frame : Value}
    (h : handle.sent E identity chunk = some frame) :
    handle.seqOut.toNat + 1 < 2 ^ 64 ∧
      (Frame.sign E (handle.dataFrame E identity chunk) identity :
        Outcome SendFrameError Value) = .ok frame := by
  rw [sent] at h
  split at h
  · next hok =>
      refine ⟨Classical.byContradiction fun hseq => ?_, Outcome.toOption_eq_some.mp h⟩
      rw [sendData_eq_panicked.mpr fun hboth => hseq hboth.1] at hok
      cases hok
  · cases h

/-- The frame on the wire carries the counter of the handle. -/
theorem StreamHandle.sent_seq {frame : Value} (h : handle.sent E identity chunk = some frame) :
    frame.get "seq" = some (.int handle.seqOut.toNat) := by
  obtain ⟨-, hsign⟩ := sent_eq_some h
  obtain ⟨signable, -, hframe⟩ := Outcome.bind_eq_ok.mp hsign
  rw [← Outcome.ok.inj hframe, Value.get_withField_ne (by decide), dataFrame, Frame.streamData,
    Frame.get_withOptionalSigner (by decide)]
  rfl

/-- A call that cannot encode its frame writes nothing, and has taken its number. -/
theorem StreamHandle.next_of_encode {e : Frame.EncodeFrameError}
    (h : (handle.sendData E identity chunk.encoding chunk.body chunk.wire).2 =
      .err (.encode e)) :
    handle.sent E identity chunk = none ∧
      handle.next E identity chunk = { handle with seqOut := handle.seqOut + 1 } ∧
      (handle.next E identity chunk).seqOut.toNat = handle.seqOut.toNat + 1 := by
  have hseq : handle.seqOut.toNat + 1 < 2 ^ 64 := by
    refine Classical.byContradiction fun hseq => ?_
    rw [sendData_eq_panicked.mpr fun hboth => hseq hboth.1] at h
    cases h
  refine ⟨by rw [sent, h], by rw [next_eq, if_pos hseq], ?_⟩
  rw [seqOut_next]
  omega

end

/-! ## Every list of calls -/

section

variable (E : Ed25519) (identity : KeyPair)

theorem StreamHandle.seqOut_after (chunks : List Chunk) : ∀ handle : StreamHandle,
    (handle.after E identity chunks).seqOut.toNat =
      min (handle.seqOut.toNat + chunks.length) (2 ^ 64 - 1) := by
  induction chunks with
  | nil =>
      intro handle
      have hlt := handle.seqOut.toNat_lt
      simp only [after, List.length_nil]
      omega
  | cons chunk chunks ih =>
      intro handle
      rw [after, ih, seqOut_next, List.length_cons]
      omega

/-- *The frame of call `i` carries the number of calls before it*, those that failed included. -/
theorem StreamHandle.sends_seq (chunks : List Chunk) : ∀ (handle : StreamHandle) {i : Nat}
    {frame : Value}, (handle.sends E identity chunks)[i]? = some (some frame) →
      handle.seqOut.toNat + i + 1 < 2 ^ 64 ∧
        frame.get "seq" = some (.int (handle.seqOut.toNat + i : Nat)) := by
  induction chunks with
  | nil => intro handle i frame h; cases h
  | cons chunk chunks ih =>
      intro handle i frame h
      cases i with
      | zero =>
          simp only [sends, List.getElem?_cons_zero, Option.some.injEq] at h
          exact ⟨(sent_eq_some h).1, sent_seq h⟩
      | succ i =>
          rw [sends, List.getElem?_cons_succ] at h
          obtain ⟨hlt, hseq⟩ := ih _ h
          -- a call was possible after this one, so this one had a number
          have hnext : (handle.next E identity chunk).seqOut.toNat = handle.seqOut.toNat + 1 := by
            rw [seqOut_next] at hlt ⊢
            omega
          rw [hnext] at hlt hseq
          rw [show handle.seqOut.toNat + (i + 1) = handle.seqOut.toNat + 1 + i by omega]
          exact ⟨hlt, hseq⟩

end

/-! ## Where the gaps are -/

/-- Entries that carry their own positions are numbered without a gap exactly when the missing
ones all come last. -/
theorem numberedFrom_iff : ∀ {sends : List (Option Value)} {n : Nat},
    (∀ {i : Nat} {frame : Value}, sends[i]? = some (some frame) →
      frame.get "seq" = some (.int (n + i : Nat))) →
    (NumberedFrom n sends.reduceOption ↔
      sends.Pairwise fun earlier later => later.isSome = true → earlier.isSome = true) := by
  intro sends
  induction sends with
  | nil => intro n _; simp [NumberedFrom, List.reduceOption_nil]
  | cons send sends ih =>
      intro n hseq
      have hrest : ∀ {i : Nat} {frame : Value}, sends[i]? = some (some frame) →
          frame.get "seq" = some (.int (n + 1 + i : Nat)) := by
        intro i frame hframe
        have := @hseq (i + 1) frame hframe
        rwa [show n + (i + 1) = n + 1 + i by omega] at this
      cases send with
      | some frame =>
          have hframe : frame.get "seq" = some (.int n) := @hseq 0 frame rfl
          rw [List.pairwise_cons, ← ih hrest]
          simp [NumberedFrom, List.reduceOption_cons_of_some, List.range'_succ, hframe]
      | none =>
          rw [List.reduceOption_cons_of_none]
          cases hsends : sends.reduceOption with
          | nil =>
              obtain ⟨k, rfl⟩ := (List.reduceOption_eq_nil_iff sends).mp hsends
              simp [NumberedFrom, List.pairwise_cons, List.pairwise_replicate]
          | cons frame frames =>
              have hmem : some frame ∈ sends := by
                simp [← List.reduceOption_mem_iff, hsends]
              constructor
              · -- the first frame on the wire is numbered later than `n`
                intro hnumbered
                obtain ⟨i, hi⟩ := List.getElem?_of_mem hmem
                have hlate := hrest hi
                have hfirst : frame.get "seq" = some (.int n) := (List.cons.inj hnumbered).1
                rw [hfirst, Option.some.injEq, Value.int.injEq] at hlate
                omega
              · intro hlast
                cases (List.pairwise_cons.mp hlast).1 _ hmem rfl

section

variable (E : Ed25519) (identity : KeyPair)

theorem StreamHandle.open_seqOut {handle : StreamHandle} {procedure : String} {realm : ByteArr 32}
    {mode : StreamMode} {args : Value} {deadlineMs : Int} {opens : Bool} {streamId : ByteArr 16}
    {wire : FrameWire}
    (h : StreamHandle.open E identity procedure realm mode args deadlineMs opens streamId wire =
      .ok handle) : handle = { streamId, mode, seqOut := 0 } := by
  rw [StreamHandle.open] at h
  split at h
  · cases h
  · obtain ⟨_, -, hhandle⟩ := Outcome.bind_eq_ok.mp h
    exact (Outcome.ok.inj hhandle).symm

/-- *The numbers on the wire.*  On a new handle the frame of call `i` carries `i`, so the numbers
have no gap exactly when every call that writes nothing comes after all that do.  A call that
fails in encoding has changed nothing but the counter, by one. -/
theorem StreamHandle.onWire_numbers (streamId : ByteArr 16) (mode : StreamMode)
    (chunks : List Chunk) :
    let handle : StreamHandle := { streamId, mode, seqOut := 0 }
    let before := handle.after E identity chunks
    (∀ (i : Nat) (frame : Value), (handle.sends E identity chunks)[i]? = some (some frame) →
      frame.get "seq" = some (.int i)) ∧
    (NumberedFrom 0 (handle.onWire E identity chunks) ↔
      (handle.sends E identity chunks).Pairwise fun earlier later =>
        later.isSome = true → earlier.isSome = true) ∧
    before.seqOut.toNat = min chunks.length (2 ^ 64 - 1) ∧
    ∀ chunk e, (before.sendData E identity chunk.encoding chunk.body chunk.wire).2 =
        .err (.encode e) →
      before.sent E identity chunk = none ∧
        before.next E identity chunk = { before with seqOut := before.seqOut + 1 } ∧
        (before.next E identity chunk).seqOut.toNat = before.seqOut.toNat + 1 := by
  intro handle before
  have hseq : ∀ {i : Nat} {frame : Value},
      (handle.sends E identity chunks)[i]? = some (some frame) →
        frame.get "seq" = some (.int (0 + i : Nat)) :=
    fun hsent => (sends_seq E identity chunks handle hsent).2
  refine ⟨fun i frame hsent => ?_, numberedFrom_iff hseq, ?_, fun chunk e => next_of_encode⟩
  · rw [hseq hsent, Nat.zero_add]
  · have hafter := seqOut_after E identity chunks handle
    rwa [show handle.seqOut.toNat = 0 from rfl, Nat.zero_add] at hafter

end

/-- A frame is too long when a field of it is. -/
theorem StreamHandle.sendData_tooLarge {E : Ed25519} {identity : KeyPair} {handle : StreamHandle}
    {chunk : Chunk} (hseq : handle.seqOut.toNat + 1 < 2 ^ 64) (hints : chunk.body.IntsInRange)
    (hlen : Frame.MAX_FRAME_BYTES < (Cbor.canon chunk.body).length) :
    ∃ n, (handle.sendData E identity chunk.encoding chunk.body chunk.wire).2 =
      .err (.encode (.tooLarge n)) := by
  have hadd : (.addU64 handle.seqOut 1 : Outcome SendFrameError UInt64) =
      .ok (handle.seqOut + 1) := Outcome.addU64_eq_ok.mpr ⟨hseq, rfl⟩
  have hrange : (handle.dataFrame E identity chunk).IntsInRange :=
    Frame.streamData_inRange _ _ hints
  obtain ⟨sig, hsign⟩ := Frame.sign_of_inRange (ε := SendFrameError) E hrange identity
  have hbody : ((handle.dataFrame E identity chunk).withField "signature" (.bytes sig.1)).get
      "body" = some chunk.body := by
    rw [Value.get_withField_ne (by decide), dataFrame, Frame.streamData,
      Frame.get_withOptionalSigner (by decide)]
    rfl
  have hlong := hlen.trans_le (Cbor.length_canon_get_le hbody)
  refine ⟨(Cbor.canon ((handle.dataFrame E identity chunk).withField "signature"
    (.bytes sig.1))).length, ?_⟩
  rw [sendData, hadd]
  show sendSigned E identity (handle.dataFrame E identity chunk) chunk.wire.takes = _
  rw [sendSigned, hsign, Outcome.ok_bind, transmit,
    Frame.encode_of_inRange (Cbor.Value.inRange_withField hrange (Cbor.Value.inRange_bytes _)),
    if_pos hlong]
  rfl

/-- A chunk over the limit, and a small one after it. -/
theorem StreamHandle.not_numberedFrom_tooLong :
    let identity : KeyPair := ⟨⟨.replicate 32 7, rfl⟩⟩
    let wire : FrameWire := ⟨⟨.replicate 16 1, rfl⟩, 0, true⟩
    let handle : StreamHandle := ⟨⟨.replicate 16 2, rfl⟩, .clientStream, 0⟩
    let tooLong : Chunk := ⟨.raw, .bytes (.replicate 16777216 0), wire⟩
    let small : Chunk := ⟨.raw, .null, wire⟩
    (∃ n, (handle.sendData .standIn identity tooLong.encoding tooLong.body tooLong.wire).2 =
      .err (.encode (.tooLarge n))) ∧
    handle.next .standIn identity tooLong ≠ handle ∧
    ¬ NumberedFrom 0 (handle.onWire .standIn identity [tooLong, small]) := by
  intro identity wire handle tooLong small
  have hseq : handle.seqOut.toNat + 1 < 2 ^ 64 := by decide
  have hlen : Frame.MAX_FRAME_BYTES < (Cbor.canon tooLong.body).length := by
    show _ < (Cbor.canon (.bytes (List.replicate 16777216 0))).length
    rw [Cbor.canon, List.length_append, List.length_replicate, Frame.MAX_FRAME_BYTES]
    omega
  obtain ⟨n, htooLarge⟩ := @sendData_tooLarge .standIn identity handle tooLong hseq
    (Value.inRange_bytes _) hlen
  obtain ⟨hnone, hnext, -⟩ := next_of_encode htooLarge
  refine ⟨⟨n, htooLarge⟩, ?_, ?_⟩
  · rw [hnext]
    decide
  · have hsmall : ((handle.next .standIn identity tooLong).sent .standIn identity small).isSome =
        true := by
      rw [hnext]
      decide +kernel
    intro hnumbered
    have hlast := (onWire_numbers .standIn identity _ _ [tooLong, small]).2.1.mp hnumbered
    simp only [sends] at hlast
    have hfirst := (List.pairwise_cons.mp hlast).1 _ (List.mem_cons_self ..) hsmall
    rw [hnone] at hfirst
    cases hfirst

end Macula
