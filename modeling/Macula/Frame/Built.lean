import Macula.Frame.Codec
import Macula.Frame.Event
import Macula.Frame.Hello
import Macula.Frame.Stream

/-!
# The frames this crate builds

One type for the eight frames of a call and of a stream, with the value each embeds and what
its parser must return for it.

A built frame is a map with distinct text keys (`Built.record`), because every builder
overrides the sentinels of `base` in place.  So it arrives sorted and loses nothing: its
signature verifies, its own parser returns the fields of the spec, and every other parser
refuses it by its `frame_type`.  Two frames never leave: signing panics on a deadline that is no
integer of the format, and a frame that is too long is not encoded
(`built_frame_survives_iff`).
-/

namespace Macula.Frame

open Macula.Cbor (Value MAX_NESTING_DEPTH)

/-- The spec of a frame. -/
inductive Built where
  | call (spec : CallSpec)
  | result (spec : ResultSpec)
  | callError (spec : CallErrorSpec)
  | streamOpen (spec : StreamOpenSpec)
  | streamData (spec : StreamDataSpec)
  | streamEnd (spec : StreamEndSpec)
  | streamError (spec : StreamErrorSpec)
  | streamReply (spec : StreamReplySpec)

def Built.frame (built : Built) (frameId : ByteArr 16) (sentAtMs : UInt64) : Value :=
  match built with
  | .call spec => Frame.call spec frameId sentAtMs
  | .result spec => Frame.result spec frameId sentAtMs
  | .callError spec => Frame.callError spec frameId sentAtMs
  | .streamOpen spec => Frame.streamOpen spec frameId sentAtMs
  | .streamData spec => Frame.streamData spec frameId sentAtMs
  | .streamEnd spec => Frame.streamEnd spec frameId sentAtMs
  | .streamError spec => Frame.streamError spec frameId sentAtMs
  | .streamReply spec => Frame.streamReply spec frameId sentAtMs

def Built.frameType : Built → String
  | .call _ => "call"
  | .result _ => "result"
  | .callError _ => "error"
  | .streamOpen _ => "stream_open"
  | .streamData _ => "stream_data"
  | .streamEnd _ => "stream_end"
  | .streamError _ => "stream_error"
  | .streamReply _ => "stream_reply"

/-- The value of the caller that the frame embeds. -/
def Built.embedded : Built → Option Value
  | .call spec => some spec.payload
  | .result spec => some spec.payload
  | .streamOpen spec => some spec.args
  | .streamData spec => some spec.body
  | .streamReply spec => some spec.payload
  | .callError _ | .streamEnd _ | .streamError _ => none

/-- The deadline of the two frames that have one. -/
def Built.deadlineMs : Built → Option Int
  | .call spec => some spec.deadlineMs
  | .streamOpen spec => some spec.deadlineMs
  | _ => none

/-- The embedded value can sit one level inside a frame. -/
def Built.Embeds (built : Built) : Prop :=
  ∀ v ∈ built.embedded, v.Within (MAX_NESTING_DEPTH - 1)

/-- The deadline is an integer of the format. -/
def Built.DeadlineOk (built : Built) : Prop := ∀ n ∈ built.deadlineMs, Cbor.IntOk (.int n)

/-! ## The parsers -/

inductive FrameParser where
  | call
  | callResponse
  | streamOpen
  | streamEvent
  | hello
  | event
deriving DecidableEq

/-- The frame types a parser reads. -/
def FrameParser.frameTypes : FrameParser → List String
  | .call => ["call"]
  | .callResponse => ["result", "error"]
  | .streamOpen => ["stream_open"]
  | .streamEvent => ["stream_data", "stream_end", "stream_error", "stream_reply"]
  | .hello => ["hello"]
  | .event => ["event"]

/-- The parser returns an error. -/
def FrameParser.Rejects (w : Value) : FrameParser → Prop
  | .call => ∃ e, parseCall w = .err e
  | .callResponse => ∃ e, parseCallResponse w = .err e
  | .streamOpen => ∃ e, parseStreamOpen w = .err e
  | .streamEvent => ∃ e, parseStreamEvent w = .err e
  | .hello => ∃ e, parseHello w = .err e
  | .event => ∃ e, parseEvent w = .err e

/-- A parser refuses a frame of another type. -/
theorem FrameParser.rejects {parser : FrameParser} {w : Value} {t : String}
    (hget : w.get "frame_type" = some (.text t)) (ht : t ∉ parser.frameTypes) :
    parser.Rejects w := by
  have hne : ∀ u, u ∈ parser.frameTypes → ¬ w.get "frame_type" = some (.text u) := by
    intro u hu heq
    rw [hget] at heq
    cases heq
    exact ht hu
  cases parser with
  | call => exact ⟨_, by rw [parseCall, if_neg (hne "call" (by decide))]⟩
  | callResponse =>
      exact ⟨_, by rw [parseCallResponse, if_neg (hne "result" (by decide)),
        if_neg (hne "error" (by decide))]⟩
  | streamOpen => exact ⟨_, by rw [parseStreamOpen, if_neg (hne "stream_open" (by decide))]⟩
  | streamEvent =>
      -- the stream id is read before the type
      cases hid : (arrField .missingField .wrongFieldType 16 w "stream_id" :
          Outcome ParseStreamEventError (ByteArr 16)) with
      | ok streamId =>
          exact ⟨_, by rw [parseStreamEvent, hid, Outcome.ok_bind,
            if_neg (hne "stream_data" (by decide)), if_neg (hne "stream_end" (by decide)),
            if_neg (hne "stream_error" (by decide)), if_neg (hne "stream_reply" (by decide))]⟩
      | err e => exact ⟨e, by rw [parseStreamEvent, hid, Outcome.err_bind]⟩
      | panicked => exact absurd hid arrField_ne_panicked
  | hello => exact ⟨_, by rw [parseHello, if_neg (hne "hello" (by decide))]⟩
  | event => exact ⟨_, by rw [parseEvent, if_neg (hne "event" (by decide))]⟩

/-- The parser for a built frame. -/
def Built.parser : Built → FrameParser
  | .call _ => .call
  | .result _ | .callError _ => .callResponse
  | .streamOpen _ => .streamOpen
  | .streamData _ | .streamEnd _ | .streamError _ | .streamReply _ => .streamEvent

/-- Its parser returns the fields of the spec, the embedded value sorted. -/
def Built.Parsed (built : Built) (w : Value) : Prop :=
  match built with
  | .call spec => parseCall w = .ok
      { callId := spec.callId, procedure := spec.procedure, realm := spec.realm,
        payload := spec.payload.sorted, deadlineMs := spec.deadlineMs, caller := spec.caller,
        ucanToken := spec.ucanToken }
  | .result spec => parseCallResponse w = .ok (.result spec.payload.sorted spec.respondedBy)
  | .callError spec => parseCallResponse w =
      .ok (.error spec.code.asU8 spec.code.name spec.reportedBy spec.detail)
  | .streamOpen spec => parseStreamOpen w = .ok
      { streamId := spec.streamId, procedure := spec.procedure, realm := spec.realm,
        mode := spec.mode, args := spec.args.sorted, deadlineMs := spec.deadlineMs,
        caller := spec.caller }
  | .streamData spec => parseStreamEvent w =
      .ok (.data spec.streamId spec.seq spec.encoding spec.body.sorted)
  | .streamEnd spec => parseStreamEvent w = .ok (.ended spec.streamId spec.role)
  | .streamError spec => parseStreamEvent w = .ok (.error spec.streamId spec.code spec.message)
  | .streamReply spec => parseStreamEvent w =
      .ok (.reply spec.streamId spec.payload.sorted spec.respondedBy)

theorem Built.notMem_frameTypes {built : Built} {parser : FrameParser}
    (h : parser ≠ built.parser) : built.frameType ∉ parser.frameTypes := by
  revert h
  cases built <;> cases parser <;> simp [Built.parser, Built.frameType, FrameParser.frameTypes]

/-! ## A built frame is a record -/

section

variable {n : Nat} (frameId : ByteArr 16) (sentAtMs : UInt64)

theorem withOptionalSigner_record {v : Value} (h : v.Record n) (signer : Option NodeId) :
    (withOptionalSigner v signer).Record n := by
  cases signer with
  | none => exact h
  | some pubKey => exact h.withField (by decide) (Value.within_bytes n _)

theorem optional_within {α : Type} {f : α → Value} (h : ∀ a, (f a).Within n) (a : Option α) :
    ((a.map f).getD .null).Within n := by
  cases a with
  | none => exact Value.within_null n
  | some a => exact h a

theorem call_record {spec : CallSpec} (hpayload : spec.payload.Within n)
    (hdeadline : Cbor.IntOk (.int spec.deadlineMs)) : (call spec frameId sentAtMs).Record n := by
  have hbytes := Value.within_bytes n
  refine Value.Record.withField ?_ (by decide) (hbytes _)
  refine Value.Record.withField ?_ (by decide) (Value.within_u64 n _)
  refine Value.Record.withField ?_ (by decide) (hbytes _)
  refine Value.Record.withField ?_ (by decide) (hbytes _)
  refine Value.Record.withField ?_ (by decide) (Value.within_int n hdeadline)
  refine Value.Record.withField ?_ (by decide) hpayload
  refine Value.Record.withField ?_ (by decide) (hbytes _)
  refine Value.Record.withField ?_ (by decide) (hbytes _)
  exact (base_record n ..).withField (by decide) (hbytes _)

theorem result_record {spec : ResultSpec} (hpayload : spec.payload.Within n) :
    (result spec frameId sentAtMs).Record n := by
  have hbytes := Value.within_bytes n
  refine Value.Record.withField ?_ (by decide) (hbytes _)
  refine Value.Record.withField ?_ (by decide) (hbytes _)
  refine Value.Record.withField ?_ (by decide) hpayload
  exact (base_record n ..).withField (by decide) (hbytes _)

theorem callError_record (spec : CallErrorSpec) : (callError spec frameId sentAtMs).Record n := by
  have hbytes := Value.within_bytes n
  have hcode : Cbor.IntOk (.int spec.code.asU8.toNat) := by
    cases spec.code <;> decide
  refine Value.Record.withField ?_ (by decide) (hbytes _)
  refine Value.Record.withField ?_ (by decide) (optional_within (fun _ => hbytes _) _)
  refine Value.Record.withField ?_ (by decide) (optional_within (fun _ => hbytes _) _)
  refine Value.Record.withField ?_ (by decide) (hbytes _)
  refine Value.Record.withField ?_ (by decide) (Value.within_text n _)
  refine Value.Record.withField ?_ (by decide) (Value.within_int n hcode)
  exact (base_record n ..).withField (by decide) (hbytes _)

theorem streamOpen_record {spec : StreamOpenSpec} (hargs : spec.args.Within n)
    (hdeadline : Cbor.IntOk (.int spec.deadlineMs)) :
    (streamOpen spec frameId sentAtMs).Record n := by
  have hbytes := Value.within_bytes n
  refine Value.Record.withField ?_ (by decide) (Value.within_u64 n _)
  refine Value.Record.withField ?_ (by decide) (hbytes _)
  refine Value.Record.withField ?_ (by decide) (hbytes _)
  refine Value.Record.withField ?_ (by decide) (Value.within_int n hdeadline)
  refine Value.Record.withField ?_ (by decide) hargs
  refine Value.Record.withField ?_ (by decide) (Value.within_text n _)
  refine Value.Record.withField ?_ (by decide) (hbytes _)
  refine Value.Record.withField ?_ (by decide) (hbytes _)
  exact (base_record n ..).withField (by decide) (hbytes _)

theorem streamData_record {spec : StreamDataSpec} (hbody : spec.body.Within n) :
    (streamData spec frameId sentAtMs).Record n := by
  refine withOptionalSigner_record ?_ spec.signer
  refine Value.Record.withField ?_ (by decide) hbody
  refine Value.Record.withField ?_ (by decide) (Value.within_text n _)
  refine Value.Record.withField ?_ (by decide) (Value.within_u64 n _)
  exact (base_record n ..).withField (by decide) (Value.within_bytes n _)

theorem streamEnd_record (spec : StreamEndSpec) : (streamEnd spec frameId sentAtMs).Record n := by
  refine withOptionalSigner_record ?_ spec.signer
  refine Value.Record.withField ?_ (by decide) (Value.within_text n _)
  exact (base_record n ..).withField (by decide) (Value.within_bytes n _)

theorem streamError_record (spec : StreamErrorSpec) :
    (streamError spec frameId sentAtMs).Record n := by
  refine withOptionalSigner_record ?_ spec.signer
  refine Value.Record.withField ?_ (by decide) (Value.within_bytes n _)
  refine Value.Record.withField ?_ (by decide) (Value.within_bytes n _)
  exact (base_record n ..).withField (by decide) (Value.within_bytes n _)

theorem streamReply_record {spec : StreamReplySpec} (hpayload : spec.payload.Within n) :
    (streamReply spec frameId sentAtMs).Record n := by
  refine Value.Record.withField ?_ (by decide) (Value.within_bytes n _)
  refine Value.Record.withField ?_ (by decide) hpayload
  exact (base_record n ..).withField (by decide) (Value.within_bytes n _)

variable {built : Built}

theorem Built.record (hembeds : built.Embeds) (hdeadline : built.DeadlineOk) :
    (built.frame frameId sentAtMs).Record (MAX_NESTING_DEPTH - 1) := by
  cases built with
  | call spec => exact call_record _ _ (hembeds _ rfl) (hdeadline _ rfl)
  | result spec => exact result_record _ _ (hembeds _ rfl)
  | callError spec => exact callError_record _ _ spec
  | streamOpen spec => exact streamOpen_record _ _ (hembeds _ rfl) (hdeadline _ rfl)
  | streamData spec => exact streamData_record _ _ (hembeds _ rfl)
  | streamEnd spec => exact streamEnd_record _ _ spec
  | streamError spec => exact streamError_record _ _ spec
  | streamReply spec => exact streamReply_record _ _ (hembeds _ rfl)

/-- Fields other than the optional signer. -/
theorem get_withOptionalSigner {key : String} (h : key ≠ "signer") (v : Value)
    (signer : Option NodeId) : (withOptionalSigner v signer).get key = v.get key := by
  cases signer with
  | none => rfl
  | some pubKey => exact Value.get_withField_ne h v _

theorem Built.get_deadline {d : Int} (h : d ∈ built.deadlineMs) :
    (built.frame frameId sentAtMs).get "deadline_ms" = some (.int d) := by
  cases built with
  | call spec | streamOpen spec =>
      obtain rfl := Option.some.inj h
      rfl
  | _ => cases h

theorem Built.get_frameType :
    (built.frame frameId sentAtMs).get "frame_type" = some (.text built.frameType) := by
  cases built with
  | streamData spec | streamEnd spec | streamError spec =>
      exact get_withOptionalSigner (by decide) ..
  | _ => rfl

end

/-! ## The round trip -/

/-- The arrived frame has the fields of the built one, sorted. -/
def Reads (frame w : Value) : Prop :=
  ∀ key v, key ≠ "signature" → frame.get key = some v → w.get key = some v.sorted

section

variable {frame w : Value} (h : Reads frame w)

include h

theorem Reads.bytes {key : String} {b : Bytes} (hkey : key ≠ "signature")
    (hget : frame.get key = some (.bytes b)) : w.get key = some (.bytes b) := by
  rw [h key _ hkey hget, Value.sorted_bytes]

theorem Reads.text {key t : String} (hkey : key ≠ "signature")
    (hget : frame.get key = some (.text t)) : w.get key = some (.text t) := by
  rw [h key _ hkey hget, Value.sorted_text]

theorem Reads.int {key : String} {n : Int} (hkey : key ≠ "signature")
    (hget : frame.get key = some (.int n)) : w.get key = some (.int n) := by
  rw [h key _ hkey hget, Value.sorted_int]

end

section

variable {frameId : ByteArr 16} {sentAtMs : UInt64} {w : Value}

theorem parseCall_built {spec : CallSpec} (h : Reads (call spec frameId sentAtMs) w) :
    (Built.call spec).Parsed w := by
  have hpayload := h "payload" _ (by decide) rfl
  have htoken : bytesFieldOrEmpty w "ucan_token" = spec.ucanToken := by
    rw [bytesFieldOrEmpty, h.bytes (by decide) rfl]
  rw [Built.Parsed, parseCall, if_pos (h.text (by decide) rfl),
    arrField_eq_ok.mpr (h.bytes (by decide) rfl), Outcome.ok_bind,
    textField_of_get (h.bytes (by decide) rfl), Outcome.ok_bind,
    arrField_eq_ok.mpr (h.bytes (by decide) rfl), Outcome.ok_bind,
    Outcome.okOr_eq_ok.mpr hpayload, Outcome.ok_bind,
    intField_of_get (h.int (by decide) rfl), Outcome.ok_bind,
    arrField_eq_ok.mpr (h.bytes (by decide) rfl), Outcome.ok_bind, htoken]
  rfl

theorem parseCallResponse_result {spec : ResultSpec}
    (h : Reads (result spec frameId sentAtMs) w) : (Built.result spec).Parsed w := by
  have hpayload := h "payload" _ (by decide) rfl
  rw [Built.Parsed, parseCallResponse, if_pos (h.text (by decide) rfl),
    Outcome.okOr_eq_ok.mpr hpayload, Outcome.ok_bind, getBytes32Generic,
    arrField_eq_ok.mpr (h.bytes (by decide) rfl), Outcome.ok_bind]
  rfl

theorem codeField_built {spec : CallErrorSpec}
    (h : Reads (callError spec frameId sentAtMs) w) : codeField w = .ok spec.code.asU8 := by
  rw [codeField, h.int (by decide) rfl]
  cases spec.code <;> rfl

theorem detailField_built {spec : CallErrorSpec}
    (h : Reads (callError spec frameId sentAtMs) w) : detailField w = .ok spec.detail := by
  have hget : (callError spec frameId sentAtMs).get "detail" =
      some ((spec.detail.map fun d => Value.bytes (Utf8.bytes d)).getD .null) := rfl
  cases hdetail : spec.detail with
  | none =>
      rw [hdetail] at hget
      have hw : w.get "detail" = some .null := by
        rw [h _ _ (by decide) hget, Option.map_none, Option.getD_none, Value.sorted_null]
      rw [detailField, hw]
  | some d =>
      rw [hdetail] at hget
      rw [detailField, h.bytes (by decide) hget]
      simp only [Utf8.decode_bytes]
      rfl

theorem parseCallResponse_error {spec : CallErrorSpec}
    (h : Reads (callError spec frameId sentAtMs) w) : (Built.callError spec).Parsed w := by
  have htype : w.get "frame_type" = some (.text "error") := h.text (by decide) rfl
  have hname : nameField w = .ok spec.code.name := by
    rw [nameField, h.text (by decide) rfl]
  have hnot : ¬ w.get "frame_type" = some (.text "result") := by
    rw [htype]
    decide
  rw [Built.Parsed, parseCallResponse, if_neg hnot, if_pos htype, codeField_built h,
    Outcome.ok_bind, hname, Outcome.ok_bind, getBytes32Generic,
    arrField_eq_ok.mpr (h.bytes (by decide) rfl), Outcome.ok_bind, detailField_built h,
    Outcome.ok_bind]
  rfl

theorem parseStreamOpen_built {spec : StreamOpenSpec}
    (h : Reads (streamOpen spec frameId sentAtMs) w) : (Built.streamOpen spec).Parsed w := by
  have hargs := h "args" _ (by decide) rfl
  rw [Built.Parsed, parseStreamOpen, if_pos (h.text (by decide) rfl),
    arrField_eq_ok.mpr (h.bytes (by decide) rfl), Outcome.ok_bind,
    textField_of_get (h.bytes (by decide) rfl), Outcome.ok_bind,
    arrField_eq_ok.mpr (h.bytes (by decide) rfl), Outcome.ok_bind,
    enumField_of_get (h.text (by decide) rfl) (StreamMode.fromName_name _), Outcome.ok_bind,
    Outcome.okOr_eq_ok.mpr hargs, Outcome.ok_bind,
    intField_of_get (h.int (by decide) rfl), Outcome.ok_bind,
    arrField_eq_ok.mpr (h.bytes (by decide) rfl), Outcome.ok_bind]
  rfl

/-- The optional signer is no field of the builder. -/
theorem Reads.of_signer {v : Value} {signer : Option NodeId} (hnone : v.get "signer" = none)
    (h : Reads (withOptionalSigner v signer) w) : Reads v w := by
  intro key value hkey hget
  refine h key value hkey ?_
  rw [get_withOptionalSigner ?_ v signer]
  · exact hget
  · rintro rfl
    rw [hnone] at hget
    cases hget

theorem parseStreamEvent_data {spec : StreamDataSpec}
    (h : Reads (streamData spec frameId sentAtMs) w) : (Built.streamData spec).Parsed w := by
  replace h := h.of_signer rfl
  have hbody := h "body" _ (by decide) rfl
  rw [Built.Parsed, parseStreamEvent, arrField_eq_ok.mpr (h.bytes (by decide) rfl),
    Outcome.ok_bind, if_pos (h.text (by decide) rfl),
    uintField_of_get (h.int (by decide) rfl), Outcome.ok_bind,
    enumField_of_get (h.text (by decide) rfl) (StreamEncoding.fromName_name _), Outcome.ok_bind,
    Outcome.okOr_eq_ok.mpr hbody, Outcome.ok_bind]
  rfl

theorem parseStreamEvent_end {spec : StreamEndSpec}
    (h : Reads (streamEnd spec frameId sentAtMs) w) : (Built.streamEnd spec).Parsed w := by
  replace h := h.of_signer rfl
  have htype : w.get "frame_type" = some (.text "stream_end") := h.text (by decide) rfl
  rw [Built.Parsed, parseStreamEvent, arrField_eq_ok.mpr (h.bytes (by decide) rfl),
    Outcome.ok_bind, if_neg (by rw [htype]; decide), if_pos htype,
    enumField_of_get (h.text (by decide) rfl) (StreamRole.fromName_name _), Outcome.ok_bind]
  rfl

theorem parseStreamEvent_error {spec : StreamErrorSpec}
    (h : Reads (streamError spec frameId sentAtMs) w) : (Built.streamError spec).Parsed w := by
  replace h := h.of_signer rfl
  have htype : w.get "frame_type" = some (.text "stream_error") := h.text (by decide) rfl
  rw [Built.Parsed, parseStreamEvent, arrField_eq_ok.mpr (h.bytes (by decide) rfl),
    Outcome.ok_bind, if_neg (by rw [htype]; decide), if_neg (by rw [htype]; decide), if_pos htype,
    textField_of_get (h.bytes (by decide) rfl), Outcome.ok_bind,
    textField_of_get (h.bytes (by decide) rfl), Outcome.ok_bind]
  rfl

theorem parseStreamEvent_reply {spec : StreamReplySpec}
    (h : Reads (streamReply spec frameId sentAtMs) w) : (Built.streamReply spec).Parsed w := by
  have htype : w.get "frame_type" = some (.text "stream_reply") := h.text (by decide) rfl
  have hpayload := h "payload" _ (by decide) rfl
  rw [Built.Parsed, parseStreamEvent, arrField_eq_ok.mpr (h.bytes (by decide) rfl),
    Outcome.ok_bind, if_neg (by rw [htype]; decide), if_neg (by rw [htype]; decide),
    if_neg (by rw [htype]; decide), if_pos htype, Outcome.okOr_eq_ok.mpr hpayload,
    Outcome.ok_bind, arrField_eq_ok.mpr (h.bytes (by decide) rfl), Outcome.ok_bind]
  rfl

theorem Built.parsed {built : Built} (h : Reads (built.frame frameId sentAtMs) w) :
    built.Parsed w := by
  cases built with
  | call spec => exact parseCall_built h
  | result spec => exact parseCallResponse_result h
  | callError spec => exact parseCallResponse_error h
  | streamOpen spec => exact parseStreamOpen_built h
  | streamData spec => exact parseStreamEvent_data h
  | streamEnd spec => exact parseStreamEvent_end h
  | streamError spec => exact parseStreamEvent_error h
  | streamReply spec => exact parseStreamEvent_reply h

end

/-- The frame as its signer sends it. -/
def Built.signed (E : Ed25519) (identity : KeyPair) (frameId : ByteArr 16) (sentAtMs : UInt64)
    (built : Built) : Outcome EncodeFrameError Value :=
  sign E (built.frame frameId sentAtMs) identity

section

variable (E : Ed25519) (identity : KeyPair) (frameId : ByteArr 16) (sentAtMs : UInt64)
variable {built : Built}

/-- A frame is signed when its deadline fits the format. -/
theorem Built.signed_iff (hembeds : built.Embeds) :
    (∃ signed, built.signed E identity frameId sentAtMs = .ok signed) ↔ built.DeadlineOk := by
  constructor
  · rintro ⟨signed, hsign⟩ d hd
    obtain ⟨signable, hsignable, -⟩ := Outcome.bind_eq_ok.mp hsign
    obtain ⟨hrange, -⟩ := signableBytes_eq_ok.mp hsignable
    have hkey : "deadline_ms" ∉ ["signature", "publisher_sig"] := by decide
    have hget := (Value.get_without hkey (built.frame frameId sentAtMs)).trans
      (built.get_deadline frameId sentAtMs hd)
    exact Value.all_int.mp (Value.inRange_get hrange hget)
  · intro hdeadline
    have hrecord := built.record frameId sentAtMs hembeds hdeadline
    obtain ⟨sig, hsig⟩ := sign_of_inRange (ε := EncodeFrameError) E hrecord.within.ints identity
    exact ⟨_, hsig⟩

/-- A signed frame is the frame under its fields' conditions, with a signature. -/
theorem Built.signed_eq_ok (hembeds : built.Embeds) {signed : Value}
    (hsign : built.signed E identity frameId sentAtMs = .ok signed) :
    signed.Within MAX_NESTING_DEPTH ∧ verify E signed (identity.nodeId E) = .ok () ∧
      ∃ sig : ByteArr 64, signed =
        (built.frame frameId sentAtMs).withField "signature" (.bytes sig.1) := by
  have hdeadline := (built.signed_iff E identity frameId sentAtMs hembeds).mp ⟨signed, hsign⟩
  have hrecord := built.record frameId sentAtMs hembeds hdeadline
  obtain ⟨pairs, hpairs, -⟩ := hrecord.isMap
  have hverify : verify E signed (identity.nodeId E) = .ok () := by
    rw [Built.signed, hpairs] at hsign
    exact verify_sign E hsign
  obtain ⟨signable, -, hsigned⟩ := Outcome.bind_eq_ok.mp hsign
  obtain rfl := Outcome.ok.inj hsigned
  have hkey : (Utf8.bytes "signature").length < 2 ^ 64 := by decide
  exact ⟨(hrecord.withField hkey (Value.within_bytes _ _)).within, hverify, _, rfl⟩

/-- What is encoded of a signed frame decodes to one that verifies, that its parser reads as the
spec, and that every other parser refuses. -/
theorem Built.decode_signed (hembeds : built.Embeds) {signed : Value} {b : Bytes}
    (hsign : built.signed E identity frameId sentAtMs = .ok signed) (hb : encode signed = .ok b) :
    ∃ w, decode b = .ok (.frame w b.length) ∧ verify E w (identity.nodeId E) = .ok () ∧
      built.Parsed w ∧ ∀ parser, parser ≠ built.parser → parser.Rejects w := by
  obtain ⟨hwithin, hverify, sig, rfl⟩ :=
    built.signed_eq_ok E identity frameId sentAtMs hembeds hsign
  have hreads : Reads (built.frame frameId sentAtMs)
      ((built.frame frameId sentAtMs).withField "signature" (.bytes sig.1)).sorted := by
    intro key v hkey hget
    refine Cbor.get_sorted hwithin.distinct ?_
    rwa [Value.get_withField_ne hkey]
  have htype := hreads.text (by decide) (built.get_frameType frameId sentAtMs)
  exact ⟨_, decode_encode hwithin.distinct hwithin.depth hb,
    verify_sorted E hwithin.distinct hwithin.ints hverify, built.parsed hreads,
    fun parser hparser => FrameParser.rejects htype (Built.notMem_frameTypes hparser)⟩

/-- The frame is short enough, with room for its signature. -/
def Built.SizeOk (built : Built) : Prop :=
  (Cbor.canon ((built.frame frameId sentAtMs).withField "signature"
    (.bytes (.replicate 64 0)))).length ≤ MAX_FRAME_BYTES

/-- The frame is signed and encoded, and what is decoded of that verifies under the signer's key,
is read by its parser as the spec and refused by every other parser. -/
def Built.Survives (built : Built) : Prop :=
  ∃ signed b w, built.signed E identity frameId sentAtMs = .ok signed ∧ encode signed = .ok b ∧
    decode b = .ok (.frame w b.length) ∧ verify E w (identity.nodeId E) = .ok () ∧
    built.Parsed w ∧ ∀ parser, parser ≠ built.parser → parser.Rejects w

/-- Every signature takes the same room. -/
theorem Built.sizeOk_iff (sig : ByteArr 64) : built.SizeOk frameId sentAtMs ↔
    (Cbor.canon ((built.frame frameId sentAtMs).withField "signature" (.bytes sig.1))).length ≤
      MAX_FRAME_BYTES := by
  have hsig : (Cbor.canon (.bytes (.replicate 64 0))).length =
      (Cbor.canon (.bytes sig.1)).length := by
    rw [Cbor.length_canon_arr sig, Cbor.length_canon_arr (.fill 0 : ByteArr 64)]
  rw [Built.SizeOk, Cbor.length_canon_withField hsig]

/-- **A built frame survives the wire** exactly when its deadline is in range and it is short
enough, if its embedded value is in range, repeats no key and leaves room for its nesting. -/
theorem built_frame_survives_iff (hembeds : built.Embeds) :
    built.Survives E identity frameId sentAtMs ↔
      built.DeadlineOk ∧ built.SizeOk frameId sentAtMs := by
  constructor
  · rintro ⟨signed, b, w, hsign, hb, -⟩
    refine ⟨(built.signed_iff E identity frameId sentAtMs hembeds).mp ⟨signed, hsign⟩, ?_⟩
    obtain ⟨-, -, sig, rfl⟩ := built.signed_eq_ok E identity frameId sentAtMs hembeds hsign
    exact (built.sizeOk_iff frameId sentAtMs sig).mpr (encode_eq_ok.mp hb).2.1
  · rintro ⟨hdeadline, hsize⟩
    obtain ⟨signed, hsign⟩ := (built.signed_iff E identity frameId sentAtMs hembeds).mpr hdeadline
    obtain ⟨hwithin, -, sig, heq⟩ := built.signed_eq_ok E identity frameId sentAtMs hembeds hsign
    have hlen : (Cbor.canon signed).length ≤ MAX_FRAME_BYTES := by
      rw [heq]
      exact (built.sizeOk_iff frameId sentAtMs sig).mp hsize
    have hb := encode_eq_ok.mpr ⟨hwithin.ints, hlen, rfl⟩
    obtain ⟨w, hsurvives⟩ := built.decode_signed E identity frameId sentAtMs hembeds hsign hb
    exact ⟨signed, _, w, hsign, hb, hsurvives⟩

end

/-- A CALL with a small map as its payload. -/
def someCall : CallSpec where
  callId := .fill 1
  procedure := "p"
  realm := .fill 2
  payload := .map [(.text "b", .int 1), (.text "a", .null)]
  deadlineMs := 5
  caller := .fill 3

def someCaller : KeyPair := ⟨.fill 4⟩

theorem someCall_embeds : (Built.call someCall).Embeds := by
  intro v hv
  obtain rfl := Option.some.inj hv
  have hpayload : (Value.map [(.text "b", .int 1), (.text "a", .null)]).Record 0 :=
    Value.Record.of_fields ["b", "a"] [("b", .int 1), ("a", .null)] rfl (by decide) (by decide) (by
      simp only [List.map, List.forall_mem_cons]
      exact ⟨Value.within_int 0 (by decide), Value.within_null 0, by simp⟩)
  exact ⟨hpayload.within.ints, hpayload.within.distinct, hpayload.within.depth.trans (by decide)⟩

theorem some_call_survives :
    (Built.call someCall).Survives .standIn someCaller ⟨.replicate 16 5, rfl⟩ 6 := by
  have hdeadline : (Built.call someCall).DeadlineOk := by
    intro n hn
    obtain rfl := Option.some.inj hn
    decide
  have hsize : (Built.call someCall).SizeOk ⟨.replicate 16 5, rfl⟩ 6 := by
    show _ ≤ MAX_FRAME_BYTES
    decide +kernel
  exact (built_frame_survives_iff .standIn someCaller ⟨.replicate 16 5, rfl⟩ 6
    someCall_embeds).mpr ⟨hdeadline, hsize⟩

/-- A deadline that is no integer of the format. -/
def lateCall : CallSpec := { someCall with deadlineMs := 2 ^ 64 }

theorem late_call_panics : (Built.call lateCall).Embeds ∧
    (Built.call lateCall).signed .standIn someCaller ⟨.replicate 16 5, rfl⟩ 6 = .panicked ∧
    ¬ (Built.call lateCall).Survives .standIn someCaller ⟨.replicate 16 5, rfl⟩ 6 := by
  have hpanics : (Built.call lateCall).signed .standIn someCaller ⟨.replicate 16 5, rfl⟩ 6 =
      .panicked := by decide +kernel
  refine ⟨someCall_embeds, hpanics, ?_⟩
  rintro ⟨signed, b, w, hsign, -⟩
  rw [hpanics] at hsign
  cases hsign

end Macula.Frame
