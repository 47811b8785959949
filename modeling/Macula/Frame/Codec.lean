import Macula.Cbor.Fields
import Macula.Frame.Envelope

/-!
# The frame codec

A frame on the wire is a four-byte big-endian length and the frame's canonical bytes, at
most `MAX_FRAME_BYTES` of them.

`encode` accepts more than `decode` gives back: it checks neither nesting nor repeated
keys.  On a value that has neither fault a frame arrives as the same frame, sorted, and its
signature still verifies; on every other value the bytes are refused or read as another
frame (`encode_decode`).
-/

namespace Macula.Frame

open Macula.Cbor (Value MAX_NESTING_DEPTH)

/-- 16 MiB minus one byte. -/
def MAX_FRAME_BYTES : Nat := 0x00FFFFFF

inductive EncodeFrameError where
  | tooLarge (n : Nat)
  | cbor (e : Cbor.IntOutOfRange)
deriving DecidableEq

/-- Encode `frame` as its length and its canonical bytes. -/
def encode (frame : Value) : Outcome EncodeFrameError Bytes := do
  let payload ← (Cbor.encode frame).mapErr .cbor
  if payload.length > MAX_FRAME_BYTES then .err (.tooLarge payload.length)
  else return beBytes 4 payload.length ++ payload

inductive Decoded where
  /-- A complete frame, and how many bytes of the buffer it takes. -/
  | frame (value : Value) (consumed : Nat)
  /-- At least this many more bytes are needed. -/
  | more (n : Nat)
deriving DecidableEq

inductive DecodeFrameError where
  | tooLarge (n : Nat)
  | cbor (e : Cbor.DecodeError)
deriving DecidableEq

/-- Decode one length-prefixed frame from the head of `buf`. -/
def decode (buf : Bytes) : Outcome DecodeFrameError Decoded :=
  if buf.length < 4 then .ok (.more (4 - buf.length))
  else do
    let b₀ ← index buf 0
    let b₁ ← index buf 1
    let b₂ ← index buf 2
    let b₃ ← index buf 3
    let len := ofBe [b₀, b₁, b₂, b₃]
    if len > MAX_FRAME_BYTES then .err (.tooLarge len)
    else if buf.length < 4 + len then return .more (4 + len - buf.length)
    else
      let payload ← slice buf 4 (4 + len)
      let value ← (Cbor.decode 64 payload).mapErr .cbor
      return .frame value (4 + len)

/-! ## One frame at the head of a buffer -/

/-- The bytes of a frame with payload `payload`. -/
def wire (payload : Bytes) : Bytes := beBytes 4 payload.length ++ payload

@[simp] theorem length_wire (payload : Bytes) : (wire payload).length = 4 + payload.length := by
  rw [wire, List.length_append, length_beBytes]

theorem encode_eq_ok {frame : Value} {b : Bytes} :
    encode frame = .ok b ↔ frame.IntsInRange ∧ (Cbor.canon frame).length ≤ MAX_FRAME_BYTES ∧
      b = wire (Cbor.canon frame) := by
  simp only [encode, Outcome.bind_eq_ok, Outcome.mapErr_eq_ok, Cbor.encode_eq_ok]
  constructor
  · rintro ⟨payload, ⟨hrange, rfl⟩, h⟩
    split at h
    · cases h
    · rename_i hlen
      exact ⟨hrange, Nat.le_of_not_lt hlen, (Outcome.ok.inj h).symm⟩
  · rintro ⟨hrange, hlen, rfl⟩
    refine ⟨_, ⟨hrange, rfl⟩, ?_⟩
    rw [if_neg (Nat.not_lt.mpr hlen)]
    rfl

/-- A frame whose integers are in range can only be too long. -/
theorem encode_of_inRange {frame : Value} (h : frame.IntsInRange) :
    encode frame = if (Cbor.canon frame).length > MAX_FRAME_BYTES
      then .err (.tooLarge (Cbor.canon frame).length) else .ok (wire (Cbor.canon frame)) := by
  rw [encode, Cbor.encode_of_inRange h]
  rfl

/-- The four length bytes at the head of a buffer. -/
theorem decode_of_length {buf : Bytes} {n : Nat} (hn : n ≤ MAX_FRAME_BYTES) {rest : Bytes}
    (hbuf : buf = beBytes 4 n ++ rest) :
    decode buf =
      if rest.length < n then .ok (.more (n - rest.length))
      else (Cbor.decode 64 (rest.take n)).mapErr .cbor >>= fun value =>
        .ok (.frame value (4 + n)) := by
  have hlen : buf.length = 4 + rest.length := by
    rw [hbuf, List.length_append, length_beBytes]
  have hmax : n < 256 ^ 4 := hn.trans_lt (by decide)
  have hhead : ∃ b₀ b₁ b₂ b₃, beBytes 4 n = [b₀, b₁, b₂, b₃] := ⟨_, _, _, _, rfl⟩
  obtain ⟨b₀, b₁, b₂, b₃, hb⟩ := hhead
  have hval : ofBe [b₀, b₁, b₂, b₃] = n := by
    rw [← hb, ofBe_beBytes hmax]
  have hslice : 4 + n ≤ buf.length → (slice buf 4 (4 + n) : Outcome DecodeFrameError Bytes) =
      .ok (rest.take n) := by
    intro hle
    rw [slice_of_le (Nat.le_add_right 4 n) hle, seg, Nat.add_sub_cancel_left, hbuf, hb]
    rfl
  have hindex : ∀ i, i < 4 → (index buf i : Outcome DecodeFrameError UInt8) =
      index [b₀, b₁, b₂, b₃] i := by
    intro i hi
    rw [index, index, hbuf, hb, List.getElem?_append_left hi]
  rw [decode, if_neg (by omega), hindex 0 (by decide), hindex 1 (by decide),
    hindex 2 (by decide), hindex 3 (by decide)]
  simp only [index, Outcome.expectSome, Outcome.ok_bind, List.getElem?_cons_zero,
    List.getElem?_cons_succ, hval, if_neg (Nat.not_lt.mpr hn), hlen, Outcome.pure_eq]
  split
  · rename_i h
    rw [if_pos (by omega)]
    congr 2
    omega
  · rename_i h
    rw [if_neg (by omega), hslice (by omega), Outcome.ok_bind]

theorem decode_wire_append {payload : Bytes} (hlen : payload.length ≤ MAX_FRAME_BYTES)
    (rest : Bytes) :
    decode (wire payload ++ rest) = (Cbor.decode 64 payload).mapErr .cbor >>= fun value =>
      .ok (.frame value (wire payload).length) := by
  rw [wire, List.append_assoc, decode_of_length hlen rfl, if_neg (by simp), List.take_left,
    List.length_append, length_beBytes]

theorem decode_wire {payload : Bytes} (hlen : payload.length ≤ MAX_FRAME_BYTES) :
    decode (wire payload) = (Cbor.decode 64 payload).mapErr .cbor >>= fun value =>
      .ok (.frame value (wire payload).length) := by
  have h := decode_wire_append hlen []
  rwa [List.append_nil] at h

/-! ## What arrives -/

variable (E : Ed25519)

/-- A frame without repeated keys verifies sorted when it verifies at all. -/
theorem verify_sorted {frame : Value} {pubkey : NodeId} (hdistinct : frame.DistinctKeys)
    (hrange : frame.IntsInRange) (h : verify E frame pubkey = .ok ()) :
    verify E frame.sorted pubkey = .ok () := by
  obtain ⟨sig, signable, hget, hsignable, hverify⟩ := (verify_eq_ok E).mp h
  obtain ⟨-, rfl⟩ := signableBytes_eq_ok.mp hsignable
  refine (verify_eq_ok E).mpr ⟨sig, _, ?_, signableBytes_eq_ok.mpr ⟨?_, rfl⟩, ?_⟩
  · exact Cbor.get_sorted hdistinct hget
  · exact Value.inRange_without (Value.inRange_sorted.mpr hrange)
  · rwa [Cbor.canon_without_sorted hdistinct]

/-- A frame that repeats no key and is not too deep arrives sorted. -/
theorem decode_encode {v : Value} {b : Bytes} (hdistinct : v.DistinctKeys)
    (hdepth : v.depth ≤ MAX_NESTING_DEPTH) (h : encode v = .ok b) :
    decode b = .ok (.frame v.sorted b.length) := by
  obtain ⟨hrange, hlen, rfl⟩ := encode_eq_ok.mp h
  have hsized : v.Sized := Value.sized_of_length_canon (hlen.trans_lt (by decide))
  have hfits : Cbor.Fits 0 v := ⟨⟨hrange, hsized⟩, hdistinct, by rwa [Nat.zero_add]⟩
  rw [decode_wire hlen, hfits.decode_canon]
  rfl

/-- The fields of a frame that its signature covers, in key order. -/
def signedContents (frame : Value) : Value :=
  (frame.without ["signature", "publisher_sig"]).sorted

section

variable {ε : Type} {v w : Value} {msg : Bytes}

/-- **The signed bytes of a frame determine its fields**, up to the order of map entries. -/
theorem signedContents_congr (hv : (signableBytes v : Outcome ε Bytes) = .ok msg)
    (hw : (signableBytes w : Outcome ε Bytes) = .ok msg) (hvsized : v.Sized) (hwsized : w.Sized) :
    signedContents v = signedContents w := by
  obtain ⟨hvrange, rfl⟩ := signableBytes_eq_ok.mp hv
  obtain ⟨hwrange, heq⟩ := signableBytes_eq_ok.mp hw
  exact (Cbor.canon_eq_canon_iff ⟨hvrange, Value.sized_without hvsized⟩
    ⟨hwrange, Value.sized_without hwsized⟩).mp (List.append_cancel_left heq)

/-- What is read from the fields other than the signatures, and does not depend on the order of
entries, is the same in two frames with the same signed bytes. -/
theorem read_of_signableBytes {α : Type} {read : Value → α}
    (hwithout : ∀ v, read (v.without ["signature", "publisher_sig"]) = read v)
    (hsorted : ∀ {v : Value}, v.DistinctKeys → read v.sorted = read v)
    (hv : (signableBytes v : Outcome ε Bytes) = .ok msg)
    (hw : (signableBytes w : Outcome ε Bytes) = .ok msg) (hvsized : v.Sized) (hwsized : w.Sized)
    (hdistinct : v.DistinctKeys) : read v = read w := by
  have hsame := signedContents_congr hv hw hvsized hwsized
  have hvkeys : (v.without ["signature", "publisher_sig"]).DistinctKeys :=
    Value.distinctKeys_without hdistinct
  have hwkeys : (w.without ["signature", "publisher_sig"]).DistinctKeys := by
    rw [← Value.distinctKeys_sorted, ← signedContents, ← hsame]
    exact Value.distinctKeys_sorted.mpr hvkeys
  calc read v = read (signedContents v) := by rw [signedContents, hsorted hvkeys, hwithout]
    _ = read (signedContents w) := by rw [hsame]
    _ = read w := by rw [signedContents, hsorted hwkeys, hwithout]

end

/-- **What the encoder writes, the decoder gives back**, exactly when no map repeats a key and
nothing is nested too deep.  Then a signed frame arrives as one whose signature verifies. -/
theorem encode_decode {v : Value} {b : Bytes} (h : encode v = .ok b) :
    ((∃ w, decode b = .ok (.frame w b.length) ∧ encode w = .ok b) ↔
      v.DistinctKeys ∧ v.depth ≤ MAX_NESTING_DEPTH) ∧
    (v.DistinctKeys → v.depth ≤ MAX_NESTING_DEPTH → ∀ pairs identity,
      (sign E (.map pairs) identity : Outcome EncodeFrameError Value) = .ok v →
        ∃ w, decode b = .ok (.frame w b.length) ∧ verify E w (identity.nodeId E) = .ok ()) := by
  obtain ⟨hrange, hlen, rfl⟩ := encode_eq_ok.mp h
  have hsized : v.Sized := Value.sized_of_length_canon (hlen.trans_lt (by decide))
  have hdecode : ∀ {w : Value}, decode (wire (Cbor.canon v)) =
      .ok (.frame w (wire (Cbor.canon v)).length) ↔ Cbor.decode 64 (Cbor.canon v) = .ok w := by
    intro w
    rw [decode_wire hlen]
    constructor
    · intro hw
      obtain ⟨value, hvalue, hw⟩ := Outcome.bind_eq_ok.mp hw
      simp only [Outcome.ok.injEq, Decoded.frame.injEq, and_true] at hw
      rw [← hw]
      exact Outcome.mapErr_eq_ok.mp hvalue
    · intro hw
      rw [hw]
      rfl
  have hencode : ∀ {w : Value}, encode w = .ok (wire (Cbor.canon v)) ↔
      Cbor.encode w = .ok (Cbor.canon v) := by
    intro w
    rw [encode_eq_ok, Cbor.encode_eq_ok]
    constructor
    · rintro ⟨hw, hwlen, heq⟩
      refine ⟨hw, (List.append_inj heq ?_).2⟩
      rw [length_beBytes, length_beBytes]
    · rintro ⟨hw, heq⟩
      rw [← heq]
      exact ⟨hw, hlen, rfl⟩
  simp only [hdecode, hencode]
  refine ⟨Cbor.reread_canon_iff ⟨hrange, hsized⟩, fun hdistinct hdepth pairs identity hsign => ?_⟩
  have hfits : Cbor.Fits 0 v := ⟨⟨hrange, hsized⟩, hdistinct, by rwa [Nat.zero_add]⟩
  exact ⟨v.sorted, hfits.decode_canon, verify_sorted E hdistinct hrange (verify_sign E hsign)⟩

/-- A signed frame out of order, with the stand-in scheme. -/
theorem encode_decode_signed :
    ∃ v b, (sign .standIn (.map [(.text "b", .null), (.text "a", .int 1)])
        ⟨⟨.replicate 32 7, rfl⟩⟩ : Outcome EncodeFrameError Value) = .ok v ∧
      encode v = .ok b ∧
      (∃ w, decode b = .ok (.frame w b.length) ∧ encode w = .ok b) ∧
      ∃ w, decode b = .ok (.frame w b.length) ∧
        verify .standIn w ⟨.replicate 32 7, rfl⟩ = .ok () := by
  obtain ⟨v, hv⟩ : ∃ v : Value, v = .map [(.text "b", .null), (.text "a", .int 1),
      (.text "signature", .bytes (.replicate 32 7 ++ beBytes 32 (ofBe
        (SIG_DOMAIN ++ [0xA2, 0x61, 0x61, 0x01, 0x61, 0x62, 0xF6]))))] := ⟨_, rfl⟩
  have hsign : (sign .standIn (.map [(.text "b", .null), (.text "a", .int 1)])
      ⟨⟨.replicate 32 7, rfl⟩⟩ : Outcome EncodeFrameError Value) = .ok v := by
    rw [hv]
    rfl
  have hrange : v.IntsInRange := by simp [hv, Value.IntsInRange, Cbor.IntOk]
  have hdistinct : v.DistinctKeys := by
    simp only [hv, Value.DistinctKeys, Value.all_map, Cbor.KeysOk]
    exact ⟨by decide, by simp [Cbor.KeysOk]⟩
  have hdepth : v.depth ≤ MAX_NESTING_DEPTH := by
    rw [hv]
    decide
  have hencode := encode_eq_ok.mpr ⟨hrange, by rw [hv]; decide, rfl⟩
  obtain ⟨hiff, hsigned⟩ := encode_decode .standIn hencode
  exact ⟨v, _, hsign, hencode, hiff.mpr ⟨hdistinct, hdepth⟩, hsigned hdistinct hdepth _ _ hsign⟩

/-- A frame that repeats a key arrives as another frame. -/
theorem encode_decode_repeated_key :
    ¬ ∀ v b, encode v = .ok b →
      ∃ w, decode b = .ok (.frame w b.length) ∧ encode w = .ok b := by
  intro h
  obtain ⟨w, hw, hencode⟩ := h (.map [(.int 1, .null), (.int 1, .null)])
    [0, 0, 0, 5, 0xA2, 0x01, 0xF6, 0x01, 0xF6] (by decide)
  have hdecode : decode [0, 0, 0, 5, 0xA2, 0x01, 0xF6, 0x01, 0xF6] =
      .ok (.frame (.map [(.int 1, .null)]) 9) := by decide
  rw [hdecode] at hw
  simp only [Outcome.ok.injEq, Decoded.frame.injEq] at hw
  rw [← hw.1] at hencode
  exact absurd hencode (by decide)

end Macula.Frame
