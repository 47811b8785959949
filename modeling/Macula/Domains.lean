import Macula.Dht
import Macula.Frame.Codec
import Macula.Frame.Event
import Macula.Frame.Publish
import Macula.Ucan

/-!
# Signing domains

One key signs four kinds of message: frames, the five publisher fields of a fact, DHT records
and tokens.  Three of them are a domain text followed by the canonical bytes of a map; a
token is signed as it stands.

The domain texts differ, and no token is one of the other three: it would have to go on, after
the domain text, with the head of a map, which is no first byte of a character.  Within one
kind the message determines what was signed, up to the order of map entries.
-/

namespace Macula

open Macula.Cbor (Value)
open Macula.Frame (publisherFields signableBytes publisherSigningBytes signedContents)

/-- What a key signs. -/
inductive Signed where
  | frame (pairs : List (Value × Value))
  /-- A PUBLISH or an EVENT. -/
  | publisher (event : Value)
  | record (r : Dht.Record)
  | token (ucan : Bytes)

/-- The bytes that are signed and verified. -/
def Signed.message : Signed → Outcome Ucan.UcanError Bytes
  | .frame pairs => signableBytes (.map pairs)
  | .publisher event => publisherSigningBytes event
  | .record r => do
      let canonical ← Dht.canonicalUnsigned r
      return Dht.SIG_DOMAIN ++ canonical
  | .token ucan => do
      let (headerB64, payloadB64, _) ← Ucan.splitToken ucan
      return Utf8.bytes (headerB64 ++ "." ++ payloadB64)

/-- The value of a publisher field, null when it is missing. -/
def publisherValue (frame : Value) (field : String) : Value := (frame.get field).getD .null

/-- The fields that a publisher signs. -/
def PUBLISHER_FIELDS : List String := ["topic", "realm", "publisher", "seq", "payload"]

/-- The same contents in the same domain, up to the order of map entries. -/
def Signed.SameContents : Signed → Signed → Prop
  | .frame pairs, .frame pairs' => signedContents (.map pairs) = signedContents (.map pairs')
  | .publisher event, .publisher event' =>
      ∀ f ∈ PUBLISHER_FIELDS, (publisherValue event f).sorted = (publisherValue event' f).sorted
  | .record r, .record r' =>
      r.recordType = r'.recordType ∧ r.key = r'.key ∧ r.version = r'.version ∧
        r.createdAt = r'.createdAt ∧ r.expiresAt = r'.expiresAt ∧
        r.payload.sorted = r'.payload.sorted
  | .token ucan, .token ucan' =>
      ∃ h p s s', Ucan.splitToken ucan = .ok (h, p, s) ∧ Ucan.splitToken ucan' = .ok (h, p, s')
  | _, _ => False

/-! ## What is verified -/

section

variable {E : Ed25519} {pubkey : NodeId}

/-- The signature `sig` passes for `s` under `pubkey`. -/
def Signed.Passes (E : Ed25519) (s : Signed) (sig : ByteArr 64) (pubkey : NodeId) : Prop :=
  ∃ m, s.message = .ok m ∧ E.verify m sig pubkey = true

theorem passes_frame {pairs : List (Value × Value)}
    (h : Frame.verify E (.map pairs) pubkey = .ok ()) :
    ∃ sig, (Signed.frame pairs).Passes E sig pubkey := by
  obtain ⟨sig, m, -, hm, hverify⟩ := (Frame.verify_eq_ok E).mp h
  exact ⟨sig, m, Frame.signableBytes_eq_ok.mpr (Frame.signableBytes_eq_ok.mp hm), hverify⟩

theorem publisherSigningBytes_eq_ok {ε : Type} {frame : Value} {m : Bytes} :
    (publisherSigningBytes frame : Outcome ε Bytes) = .ok m ↔
      (publisherFields frame).IntsInRange ∧
        m = Frame.EVENT_PUBLISHER_DOMAIN ++ Cbor.canon (publisherFields frame) := by
  simp only [publisherSigningBytes, Outcome.bind_eq_ok, Outcome.expectOk_eq_ok,
    Cbor.encode_eq_ok, Outcome.pure_eq, Outcome.ok.injEq]
  constructor
  · rintro ⟨c, ⟨hrange, rfl⟩, rfl⟩
    exact ⟨hrange, rfl⟩
  · rintro ⟨hrange, rfl⟩
    exact ⟨_, ⟨hrange, rfl⟩, rfl⟩

theorem passes_publisher {frame : Value} (h : Frame.verifyPublisher E frame = .ok ()) :
    ∃ sig key, (Signed.publisher frame).Passes E sig key := by
  obtain ⟨sig, -, h⟩ := Outcome.bind_eq_ok.mp h
  obtain ⟨key, -, h⟩ := Outcome.bind_eq_ok.mp h
  obtain ⟨m, hm, h⟩ := Outcome.bind_eq_ok.mp h
  refine ⟨sig, key, m, publisherSigningBytes_eq_ok.mpr (publisherSigningBytes_eq_ok.mp hm), ?_⟩
  by_contra hverify
  rw [if_neg hverify] at h
  cases h

theorem passes_record {now : Int} {r : Dht.Record} (h : Dht.verify E now r = .ok ()) :
    ∃ sig, (Signed.record r).Passes E sig r.key := by
  obtain ⟨sig, -, h⟩ := Outcome.bind_eq_ok.mp h
  obtain ⟨c, hc, h⟩ := Outcome.bind_eq_ok.mp h
  have hc' := (Dht.canonicalUnsigned_eq_ok (ε := Ucan.UcanError)).mpr
    (Dht.canonicalUnsigned_eq_ok.mp hc)
  refine ⟨sig, _, Outcome.bind_eq_ok.mpr ⟨c, hc', rfl⟩, ?_⟩
  by_contra hverify
  rw [Bool.not_eq_true] at hverify
  rw [hverify] at h
  cases h

theorem passes_token {C : Ucan.TokenCodec} {now : Int} {token : Bytes}
    {payload : Ucan.Payload C.Facts}
    (h : Ucan.verify E C now token pubkey = .ok payload) :
    ∃ sig, (Signed.token token).Passes E sig pubkey := by
  obtain ⟨parts, hparts, h⟩ := Outcome.bind_eq_ok.mp h
  obtain ⟨payload', -, h⟩ := Outcome.bind_eq_ok.mp h
  dsimp only at h
  split at h
  · cases h
  · split at h
    · cases h
    · obtain ⟨sigBytes, -, h⟩ := Outcome.bind_eq_ok.mp h
      obtain ⟨sig, -, h⟩ := Outcome.bind_eq_ok.mp h
      refine ⟨sig, _, Outcome.bind_eq_ok.mpr ⟨parts, hparts, rfl⟩, ?_⟩
      by_contra hverify
      rw [if_neg hverify] at h
      cases h

end

/-! ## The shape of a message -/

/-- The domain text of a message, none for a token. -/
def Signed.domain : Signed → Option String
  | .frame _ => some "macula-v2-frame\x00"
  | .publisher _ => some "macula-v2-event-pub\x00"
  | .record _ => some "macula-v2-record\x00"
  | .token _ => none

/-- The value that is signed after the domain text. -/
def Signed.body : Signed → Value
  | .frame pairs => (Value.map pairs).without ["signature", "publisher_sig"]
  | .publisher event => publisherFields event
  | .record r => Dht.envelope r
  | .token _ => .null

theorem Signed.body_map {s : Signed} {d : String} (hd : s.domain = some d) :
    ∃ pairs, s.body = .map pairs := by
  cases s with
  | token => cases hd
  | _ => exact ⟨_, rfl⟩

theorem Signed.message_tagged {s : Signed} {d : String} {m : Bytes} (hd : s.domain = some d)
    (h : s.message = .ok m) : s.body.IntsInRange ∧ m = Utf8.bytes d ++ Cbor.canon s.body := by
  cases s with
  | frame pairs =>
    cases hd
    exact Frame.signableBytes_eq_ok.mp h
  | publisher event =>
    cases hd
    exact publisherSigningBytes_eq_ok.mp h
  | record r =>
    cases hd
    obtain ⟨c, hc, h⟩ := Outcome.bind_eq_ok.mp h
    obtain ⟨hrange, rfl⟩ := Dht.canonicalUnsigned_eq_ok.mp hc
    exact ⟨hrange, (Outcome.ok.inj h).symm⟩
  | token => cases hd

theorem Signed.message_token {ucan m : Bytes} (h : (Signed.token ucan).message = .ok m) :
    ∃ hd p s, Ucan.splitToken ucan = .ok (hd, p, s) ∧ m = Utf8.bytes (hd ++ "." ++ p) := by
  obtain ⟨⟨hd, p, s⟩, hparts, h⟩ := Outcome.bind_eq_ok.mp h
  exact ⟨hd, p, s, hparts, (Outcome.ok.inj h).symm⟩

/-! ## The domains are disjoint -/

theorem encodeHead_cons (major : UInt8) (n : Nat) :
    ∃ ai tail, ai < 32 ∧ Cbor.encodeHead major n = Cbor.headByte major ai :: tail := by
  unfold Cbor.encodeHead
  split
  · rename_i hn
    refine ⟨.ofNat n, [], ?_, rfl⟩
    change (UInt8.ofNat n).toNat < 32
    rw [UInt8.toNat_ofNat']
    omega
  · repeat' split
    all_goals exact ⟨_, _, by decide, rfl⟩

/-- The head of a map is the inner byte of a character. -/
theorem mapHead_not_first {ai : UInt8} (h : ai < 32) :
    ¬ (Cbor.headByte 5 ai).IsUTF8FirstByte := by
  have hall : ∀ i : Fin 32, ¬ (Cbor.headByte 5 (.ofNat i)).IsUTF8FirstByte := by decide
  have hai := hall ⟨ai.toNat, h⟩
  rwa [UInt8.ofNat_toNat] at hai

/-- No text is a domain text followed by a map. -/
theorem text_ne_tagged (text d : String) (pairs : List (Value × Value)) :
    Utf8.bytes text ≠ Utf8.bytes d ++ Cbor.canon (.map pairs) := by
  intro h
  obtain ⟨ai, tail, hai, hhead⟩ := encodeHead_cons 5 pairs.length
  rw [Cbor.canon_map, hhead, List.cons_append] at h
  exact mapHead_not_first hai (Utf8.isUTF8FirstByte_of_bytes_eq h)

/-- Two different domain texts differ within their first eleven bytes. -/
theorem Signed.domain_unique {s t : Signed} {d d' : String} {a b : Bytes}
    (hs : s.domain = some d) (ht : t.domain = some d')
    (h : Utf8.bytes d ++ a = Utf8.bytes d' ++ b) : d = d' := by
  have htake := congrArg (List.take 11) h
  cases s <;> cases t <;> cases hs <;> cases ht <;>
    rw [List.take_append_of_le_length (by decide), List.take_append_of_le_length (by decide)]
      at htake <;>
    first | rfl | exact absurd htake (by decide)

/-! ## The messages are binding -/

section

variable {s t : Signed} {m : Bytes}

theorem Signed.body_sorted {d : String} (hs : s.domain = some d) (ht : t.domain = some d)
    (hms : s.message = .ok m) (hmt : t.message = .ok m) (hlen : m.length < 2 ^ 64) :
    s.body.sorted = t.body.sorted := by
  obtain ⟨hsrange, rfl⟩ := Signed.message_tagged hs hms
  obtain ⟨htrange, heq⟩ := Signed.message_tagged ht hmt
  have hcanon := List.append_cancel_left heq
  rw [List.length_append] at hlen
  have hssized : s.body.Sized := Value.sized_of_length_canon (by omega)
  have htsized : t.body.Sized := Value.sized_of_length_canon (by rw [← hcanon]; omega)
  exact (Cbor.canon_eq_canon_iff ⟨hsrange, hssized⟩ ⟨htrange, htsized⟩).mp hcanon

/-- The publisher fields in the order of their encoded keys. -/
theorem sorted_publisherFields (event : Value) :
    (publisherFields event).sorted = .map
      [(.text "seq", (publisherValue event "seq").sorted),
       (.text "realm", (publisherValue event "realm").sorted),
       (.text "topic", (publisherValue event "topic").sorted),
       (.text "payload", (publisherValue event "payload").sorted),
       (.text "publisher", (publisherValue event "publisher").sorted)] :=
  rfl

/-- The envelope of a record in the order of its encoded keys. -/
theorem sorted_envelope (r : Dht.Record) :
    (Dht.envelope r).sorted = .map
      [(.text "c", .int r.createdAt),
       (.text "k", .bytes r.key.1),
       (.text "p", r.payload.sorted),
       (.text "t", .int r.recordType.toNat),
       (.text "v", .bytes r.version.1),
       (.text "x", .int r.expiresAt)] :=
  rfl

theorem sameContents_of_body {d : String} (hs : s.domain = some d) (ht : t.domain = some d)
    (hbody : s.body.sorted = t.body.sorted) : s.SameContents t := by
  cases s with
  | frame pairs =>
    cases hs
    cases t with
    | frame pairs' => exact hbody
    | _ => simp [Signed.domain] at ht
  | publisher event =>
    cases hs
    cases t with
    | publisher event' =>
      change (publisherFields event).sorted = (publisherFields event').sorted at hbody
      rw [sorted_publisherFields, sorted_publisherFields] at hbody
      simpa [Signed.SameContents, PUBLISHER_FIELDS, and_comm, and_assoc, and_left_comm] using hbody
    | _ => simp [Signed.domain] at ht
  | record r =>
    cases hs
    cases t with
    | record r' =>
      change (Dht.envelope r).sorted = (Dht.envelope r').sorted at hbody
      rw [sorted_envelope, sorted_envelope] at hbody
      simp only [Value.map.injEq, List.cons.injEq, Prod.mk.injEq, Value.int.injEq, true_and,
        Value.bytes.injEq, and_true] at hbody
      obtain ⟨hcreated, hkey, hpayload, htype, hversion, hexpires⟩ := hbody
      refine ⟨?_, Subtype.ext hkey, Subtype.ext hversion, hcreated, hexpires, hpayload⟩
      exact UInt8.toNat_inj.mp (Int.ofNat.inj htype)
    | _ => simp [Signed.domain] at ht
  | token => cases hs

theorem token_ne_tagged {ucan : Bytes} {d : String} (hd : t.domain = some d)
    (hms : (Signed.token ucan).message = .ok m) (hmt : t.message = .ok m) : False := by
  obtain ⟨h, p, -, -, rfl⟩ := Signed.message_token hms
  obtain ⟨-, heq⟩ := Signed.message_tagged hd hmt
  obtain ⟨pairs, hpairs⟩ := Signed.body_map hd
  rw [hpairs] at heq
  exact text_ne_tagged _ _ _ heq

theorem sameContents_token {ucan ucan' : Bytes} (hms : (Signed.token ucan).message = .ok m)
    (hmt : (Signed.token ucan').message = .ok m) :
    (Signed.token ucan).SameContents (.token ucan') := by
  obtain ⟨h, p, sig, hsplit, rfl⟩ := Signed.message_token hms
  obtain ⟨h', p', sig', hsplit', heq⟩ := Signed.message_token hmt
  obtain ⟨hh, hp⟩ := Ucan.splitToken_no_dot hsplit
  obtain ⟨hh', hp'⟩ := Ucan.splitToken_no_dot hsplit'
  obtain ⟨rfl, rfl⟩ := Ucan.signed_parts_inj hh hp hh' hp' heq
  exact ⟨h, p, sig, sig', hsplit, hsplit'⟩

end

/-- A fact whose payload is the map `payload`. -/
def mapFact (payload : List (Value × Value)) : Value :=
  Frame.publish
    { topic := "t", realm := .fill 0, publisher := .fill 7,
      seq := 1, payload := .map payload, publishedAtMs := 1 } (.fill 0) 1

def twoEntries : List (Value × Value) := [(.text "a", .int 1), (.text "b", .int 2)]

/-- Two facts whose payloads differ in the order of entries have the same signed bytes. -/
theorem message_reversed : ∃ m, m.length < 2 ^ 64 ∧
    (Signed.publisher (mapFact twoEntries)).message = .ok m ∧
    (Signed.publisher (mapFact twoEntries.reverse)).message = .ok m :=
  ⟨Frame.EVENT_PUBLISHER_DOMAIN ++ Cbor.canon (publisherFields (mapFact twoEntries)),
    by decide +kernel, by decide +kernel, by decide +kernel⟩

/-- **What is signed determines what it says**: equal messages are of one kind, and agree on
everything signed, up to the order of map entries.  A byte string in memory is shorter
than `2 ^ 64`. -/
theorem message_binding {s t : Signed} {m : Bytes} (hs : s.message = .ok m) (ht : t.message = .ok m)
    (hlen : m.length < 2 ^ 64) : s.SameContents t := by
  cases hds : s.domain with
  | none =>
    cases s with
    | token ucan =>
      cases hdt : t.domain with
      | none =>
        cases t with
        | token ucan' => exact sameContents_token hs ht
        | _ => cases hdt
      | some d' => exact (token_ne_tagged hdt hs ht).elim
    | _ => cases hds
  | some d =>
    cases hdt : t.domain with
    | none =>
      cases t with
      | token ucan' => exact (token_ne_tagged hds ht hs).elim
      | _ => cases hdt
    | some d' =>
      obtain ⟨-, hm⟩ := Signed.message_tagged hds hs
      obtain ⟨-, hm'⟩ := Signed.message_tagged hdt ht
      obtain rfl := Signed.domain_unique hds hdt (hm.symm.trans hm')
      exact sameContents_of_body hds hdt (Signed.body_sorted hds hdt hs ht hlen)

/-- The contents of two facts that differ in the order of entries. -/
theorem reversed_sameContents :
    (Signed.publisher (mapFact twoEntries)).SameContents
      (.publisher (mapFact twoEntries.reverse)) := by
  obtain ⟨m, hlen, hs, ht⟩ := message_reversed
  exact message_binding hs ht hlen

/-- The signed bytes of a fact do not determine the order of the entries of its payload. -/
theorem payload_order_unsigned :
    ¬ ∀ (event event' : Value) (m : Bytes), (Signed.publisher event).message = .ok m →
      (Signed.publisher event').message = .ok m →
      ∀ f ∈ PUBLISHER_FIELDS, publisherValue event f = publisherValue event' f := by
  intro h
  obtain ⟨m, -, hs, ht⟩ := message_reversed
  have hpayload := h _ _ m hs ht "payload" (by decide)
  exact absurd hpayload (by decide +kernel)

end Macula
