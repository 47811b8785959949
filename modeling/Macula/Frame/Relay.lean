import Macula.Cbor.Aligned
import Macula.Frame.Built
import Macula.Frame.Event
import Macula.Frame.Frames

/-!
# Facts that are relayed

A publisher signs five fields of a PUBLISH, and every station on the way decodes the frame,
builds another one with the same fact and encodes that.  A hop is known by what it keeps: the
five fields and the `publisher_sig`.  Everything else about the frame it builds is its own.

`relayed_get` is the invariant, by induction on the hops: each of these fields is the one the
publisher had, its maps in key order.  The bytes signed do not depend on that order
(`publisherSigningBytes_congr`) and on nothing but the five fields up to that order
(`publisherSigningBytes_inj`).  So no other fact has the signature of this one; but a hop can
write a key of a map twice, and the next decoder keeps only the last value
(`relayed_repeated_key`).
-/

namespace Macula.Frame

open Macula.Cbor (Value)

/-- The fields a publisher signs. -/
def FACT_FIELDS : List String := ["topic", "realm", "publisher", "seq", "payload"]

/-- The value under a field, null when it is missing. -/
def factField (frame : Value) (field : String) : Value := (frame.get field).getD .null

theorem publisherFields_eq (frame : Value) :
    publisherFields frame = .map (FACT_FIELDS.map fun f => (.text f, factField frame f)) := rfl

/-! ## The signed bytes -/

/-- The order of the entries inside the five fields does not matter. -/
theorem publisherSigningBytes_congr {ε : Type} {v w : Value}
    (h : ∀ f ∈ FACT_FIELDS, (factField v f).sorted = (factField w f).sorted) :
    (publisherSigningBytes v : Outcome ε Bytes) = publisherSigningBytes w := by
  have hsame : ∀ {α : Type} (g : Value → α), (∀ v : Value, g v.sorted = g v) →
      ∀ f ∈ FACT_FIELDS, g (factField v f) = g (factField w f) := by
    intro α g hg f hf
    rw [← hg, h f hf, hg]
  have hcanon : Cbor.canon (publisherFields v) = Cbor.canon (publisherFields w) := by
    rw [publisherFields_eq, publisherFields_eq, Cbor.canon_map, Cbor.canon_map]
    simp only [List.length_map, List.map_map]
    congr 2
    refine List.map_congr_left fun f hf => ?_
    simp only [Function.comp, Cbor.canonEntry, hsame Cbor.canon Cbor.canon_sorted f hf]
  have hrange : (publisherFields v).IntsInRange ↔ (publisherFields w).IntsInRange := by
    rw [publisherFields_eq, publisherFields_eq, Value.inRange_map, Value.inRange_map,
      List.forall_mem_map, List.forall_mem_map]
    refine forall₂_congr fun f hf => and_congr_right fun _ => ?_
    exact iff_of_eq (hsame Value.IntsInRange (fun _ => propext Value.inRange_sorted) f hf)
  by_cases hv : (publisherFields v).IntsInRange
  · simp only [publisherSigningBytes, Cbor.encode_of_inRange hv,
      Cbor.encode_of_inRange (hrange.mp hv), hcanon]
  · have hpanics : ∀ {u : Value}, ¬ (publisherFields u).IntsInRange →
        (publisherSigningBytes u : Outcome ε Bytes) = .panicked := by
      intro u hu
      cases hencode : Cbor.encode (publisherFields u) with
      | ok b => exact absurd (Cbor.encode_eq_ok.mp hencode).1 hu
      | err e | panicked => simp [publisherSigningBytes, hencode, Outcome.expectOk]
    rw [hpanics hv, hpanics fun hw => hv (hrange.mpr hw)]

theorem sorted_publisherFields (frame : Value) : (publisherFields frame).sorted =
    .map [(.text "seq", (factField frame "seq").sorted),
      (.text "realm", (factField frame "realm").sorted),
      (.text "topic", (factField frame "topic").sorted),
      (.text "payload", (factField frame "payload").sorted),
      (.text "publisher", (factField frame "publisher").sorted)] := by
  simp only [publisherFields_eq, FACT_FIELDS, List.map, Value.sorted_map, Cbor.sortedEntry,
    Value.sorted_text]
  rfl

theorem publisherFields_sized {frame : Value} (h : frame.Sized) :
    (publisherFields frame).Sized := by
  rw [publisherFields_eq]
  refine Value.all_map.mpr ⟨(by decide : 5 < 2 ^ 64), ?_⟩
  have hkeys : ∀ f ∈ FACT_FIELDS, (Utf8.bytes f).length < 2 ^ 64 := by decide
  rw [List.forall_mem_map]
  intro f hf
  refine ⟨Value.all_text.mpr (hkeys f hf), ?_⟩
  cases hget : frame.get f with
  | none =>
      rw [factField, hget]
      exact Value.all_null.mpr trivial
  | some v =>
      rw [factField, hget]
      exact Value.sized_get h hget

/-- **The signed bytes determine the five fields**, up to the order of map entries. -/
theorem publisherSigningBytes_inj {ε : Type} {v w : Value} {m : Bytes} (hv : v.Sized)
    (hw : w.Sized) (hm : (publisherSigningBytes v : Outcome ε Bytes) = .ok m)
    (hm' : (publisherSigningBytes w : Outcome ε Bytes) = .ok m) :
    ∀ f ∈ FACT_FIELDS, (factField v f).sorted = (factField w f).sorted := by
  obtain ⟨b, hb, hmsg⟩ := Outcome.bind_eq_ok.mp hm
  obtain ⟨b', hb', hmsg'⟩ := Outcome.bind_eq_ok.mp hm'
  obtain rfl : b = b' :=
    List.append_cancel_left ((Outcome.ok.inj hmsg).trans (Outcome.ok.inj hmsg').symm)
  obtain ⟨hrange, rfl⟩ := Cbor.encode_eq_ok.mp (Outcome.expectOk_eq_ok.mp hb)
  obtain ⟨hrange', heq⟩ := Cbor.encode_eq_ok.mp (Outcome.expectOk_eq_ok.mp hb')
  have hsorted := (Cbor.canon_eq_canon_iff ⟨hrange, publisherFields_sized hv⟩
    ⟨hrange', publisherFields_sized hw⟩).mp heq
  rw [sorted_publisherFields, sorted_publisherFields] at hsorted
  simp only [Value.map.injEq, List.cons.injEq, Prod.mk.injEq, true_and, and_true] at hsorted
  simp only [FACT_FIELDS, List.forall_mem_cons]
  obtain ⟨hseq, hrealm, htopic, hpayload, hpublisher⟩ := hsorted
  exact ⟨htopic, hrealm, hpublisher, hseq, hpayload, by simp⟩

/-- A frame in which one field of the fact differs is signed over other bytes. -/
theorem publisherSigningBytes_ne {ε : Type} {v w : Value} {m : Bytes} {f : String}
    (hv : v.Sized) (hw : w.Sized) (hm : (publisherSigningBytes w : Outcome ε Bytes) = .ok m)
    (hf : f ∈ FACT_FIELDS) (hne : (factField v f).sorted ≠ (factField w f).sorted) :
    (publisherSigningBytes v : Outcome ε Bytes) ≠ .ok m := by
  intro hmv
  exact hne (publisherSigningBytes_inj hv hw hmv hm f hf)

/-! ## Hops -/

/-- `v` is a frame that keeps the fact of `w` and its `publisher_sig`. -/
structure Forwards (w v : Value) : Prop where
  isFrame : v.IsFrame
  fact : ∀ f ∈ FACT_FIELDS, v.get f = w.get f
  publisherSig : v.get "publisher_sig" = w.get "publisher_sig"

/-- The bytes on the wire after `hops` stations, each of which forwards what it decoded. -/
inductive Relayed (sent : Value) : (hops : Nat) → (b : Bytes) → Prop where
  | sent {b : Bytes} : encode sent = .ok b → Relayed sent 0 b
  | hop {hops consumed : Nat} {b b' : Bytes} {w v : Value} : Relayed sent hops b →
      decode b = .ok (.frame w consumed) → Forwards w v → encode v = .ok b' →
      Relayed sent (hops + 1) b'

/-- A publisher's own signature on the frame keeps the fact. -/
theorem forwards_sign {ε : Type} {E : Ed25519} {v signed : Value} {identity : KeyPair}
    (hsign : (sign E v identity : Outcome ε Value) = .ok signed) (hframe : signed.IsFrame) :
    Forwards v signed := by
  obtain ⟨signable, -, hsigned⟩ := Outcome.bind_eq_ok.mp hsign
  obtain rfl := Outcome.ok.inj hsigned
  have hne : ∀ f ∈ FACT_FIELDS, f ≠ "signature" := by decide
  have hsig : "publisher_sig" ≠ "signature" := by decide
  exact ⟨hframe, fun f hf => Value.get_withField_ne (hne f hf) _ _,
    Value.get_withField_ne hsig _ _⟩

/-- One hop on the wire: a field comes out with its maps in key order, repeated keys merged. -/
theorem decode_encode_get {v w : Value} {b : Bytes} {consumed : Nat} (hframe : v.IsFrame)
    (hencode : encode v = .ok b) (hdecode : decode b = .ok (.frame w consumed)) (key : String) :
    w.get key = (v.get key).map fun x => x.sorted.merged := by
  obtain ⟨hrange, hlen, rfl⟩ := encode_eq_ok.mp hencode
  have hsized : v.Sized := Value.sized_of_length_canon (hlen.trans_lt (by decide))
  rw [decode_wire hlen] at hdecode
  obtain ⟨value, hvalue, hdecode⟩ := Outcome.bind_eq_ok.mp hdecode
  simp only [Outcome.ok.injEq, Decoded.frame.injEq] at hdecode
  rw [← hdecode.1]
  exact Cbor.decode_canon_get hframe ⟨hrange, hsized⟩ (Outcome.mapErr_eq_ok.mp hvalue)

theorem decode_encode_factField {v w : Value} {b : Bytes} {consumed : Nat} (hframe : v.IsFrame)
    (hencode : encode v = .ok b) (hdecode : decode b = .ok (.frame w consumed)) (f : String) :
    factField w f = (factField v f).sorted.merged := by
  rw [factField, factField, decode_encode_get hframe hencode hdecode]
  cases v.get f with
  | none =>
      show Value.null = Value.null.sorted.merged
      rw [Value.sorted_null, Value.merged_of_distinctKeys (Value.all_null.mpr trivial)]
  | some x => rfl

/-- **What every hop reads** under a field that is forwarded. -/
theorem relayed_get {v₀ sent w x : Value} {hops consumed : Nat} {b : Bytes} {key : String}
    (hkey : ∀ {w v : Value}, Forwards w v → v.get key = w.get key) (hsent : Forwards v₀ sent)
    (hrelayed : Relayed sent hops b) (hget : v₀.get key = some x) (hx : x.DistinctKeys)
    (hdecode : decode b = .ok (.frame w consumed)) : w.get key = some x.sorted := by
  have hmerged : x.sorted.merged = x.sorted :=
    Value.merged_of_distinctKeys (Value.distinctKeys_sorted.mpr hx)
  induction hrelayed generalizing w consumed with
  | sent hencode =>
      rw [decode_encode_get hsent.isFrame hencode hdecode, hkey hsent, hget, Option.map_some,
        hmerged]
  | hop _ hdecode' hforwards hencode ih =>
      have hprev := ih hdecode'
      rw [decode_encode_get hforwards.isFrame hencode hdecode, hkey hforwards, hprev,
        Option.map_some, Value.sorted_sorted, hmerged]

/-! ## A signed PUBLISH -/

theorem publish_record {spec : PublishSpec} {n : Nat} (hpayload : spec.payload.Within n)
    (frameId : ByteArr 16) (sentAtMs : UInt64) : (publish spec frameId sentAtMs).Record n := by
  have hbytes := Value.within_bytes n
  refine Value.Record.withField ?_ (by decide)
    (optional_within (fun t => Value.within_u64 n t) spec.ttlMs)
  refine Value.Record.withField ?_ (by decide) (Value.within_u64 n _)
  refine Value.Record.withField ?_ (by decide) hpayload
  refine Value.Record.withField ?_ (by decide) (Value.within_u64 n _)
  refine Value.Record.withField ?_ (by decide) (hbytes _)
  refine Value.Record.withField ?_ (by decide) (hbytes _)
  exact (base_record n ..).withField (by decide) (hbytes _)

/-- What a publisher's frame has under the five fields. -/
theorem publish_get (spec : PublishSpec) (frameId : ByteArr 16) (sentAtMs : UInt64) :
    (publish spec frameId sentAtMs).get "topic" = some (.bytes (Utf8.bytes spec.topic)) ∧
    (publish spec frameId sentAtMs).get "realm" = some (.bytes spec.realm.1) ∧
    (publish spec frameId sentAtMs).get "publisher" = some (.bytes spec.publisher.1) ∧
    (publish spec frameId sentAtMs).get "seq" = some (.int spec.seq.toNat) ∧
    (publish spec frameId sentAtMs).get "payload" = some spec.payload :=
  ⟨rfl, rfl, rfl, rfl, rfl⟩

theorem publish_fact {spec : PublishSpec} (hdistinct : spec.payload.DistinctKeys)
    (frameId : ByteArr 16) (sentAtMs : UInt64) : ∀ f ∈ FACT_FIELDS,
      ∃ x, (publish spec frameId sentAtMs).get f = some x ∧ x.DistinctKeys := by
  obtain ⟨htopic, hrealm, hpublisher, hseq, hpayload⟩ := publish_get spec frameId sentAtMs
  have hbytes : ∀ b : Bytes, (Value.bytes b).DistinctKeys := fun b => Value.all_bytes.mpr trivial
  simp only [FACT_FIELDS, List.forall_mem_cons]
  exact ⟨⟨_, htopic, hbytes _⟩, ⟨_, hrealm, hbytes _⟩, ⟨_, hpublisher, hbytes _⟩,
    ⟨_, hseq, Value.all_int.mpr trivial⟩, ⟨_, hpayload, hdistinct⟩, by simp⟩

/-- Signing adds a field outside the fact. -/
theorem signed_get {v : Value} {sig : Value} : ∀ f ∈ FACT_FIELDS,
    (v.withField "publisher_sig" sig).get f = v.get f := by
  have hne : ∀ f ∈ FACT_FIELDS, f ≠ "publisher_sig" := by decide
  exact fun f hf => Value.get_withField_ne (hne f hf) _ _

theorem verifyPublisher_of_get {E : Ed25519} {w : Value} {sig : ByteArr 64} {pubkey : NodeId}
    {m : Bytes} (hsig : w.get "publisher_sig" = some (.bytes sig.1))
    (hpubkey : w.get "publisher" = some (.bytes pubkey.1))
    (hm : (publisherSigningBytes w : Outcome VerifyPublisherError Bytes) = .ok m)
    (hverify : E.verify m sig pubkey = true) : verifyPublisher E w = .ok () := by
  have hsigField : publisherSigField w = .ok sig := by
    rw [publisherSigField, hsig]
    exact Outcome.okOr_eq_ok.mpr (toArr_val sig)
  have hpubkeyField : publisherField w = .ok pubkey := by
    rw [publisherField, hpubkey]
    exact Outcome.okOr_eq_ok.mpr (toArr_val pubkey)
  rw [verifyPublisher, hsigField, Outcome.ok_bind, hpubkeyField, Outcome.ok_bind, hm,
    Outcome.ok_bind, if_pos hverify]
  rfl

/-- **A fact keeps its publisher's signature, and no other fact has it.**  At every hop the
decoded frame verifies.  A frame with another value under one of the five fields gives another
message than the one that was signed, and so does what the next hop decodes from it, unless the
value is the same again when its repeated keys are merged. -/
theorem relayed_verifies (E : Ed25519) {spec : PublishSpec} {identity : KeyPair}
    (frameId : ByteArr 16) (sentAtMs : UInt64) (hpublisher : identity.nodeId E = spec.publisher)
    (hrange : spec.payload.IntsInRange) (hdistinct : spec.payload.DistinctKeys) :
    ∃ v₀ m₀, (publisherSigningBytes (publish spec frameId sentAtMs) :
        Outcome VerifyPublisherError Bytes) = .ok m₀ ∧
      (signPublisher E (publish spec frameId sentAtMs) identity :
        Outcome VerifyPublisherError Value) = .ok v₀ ∧
      ∀ sent hops b w consumed, Forwards v₀ sent → Relayed sent hops b →
        decode b = .ok (.frame w consumed) →
        verifyPublisher E w = .ok () ∧
        ∀ v b' f, encode v = .ok b' → f ∈ FACT_FIELDS →
          ((factField v f).sorted ≠ (factField w f).sorted →
            publisherSigningBytes v ≠ (.ok m₀ : Outcome VerifyPublisherError Bytes)) ∧
          (v.IsFrame → (factField v f).sorted.merged.sorted ≠ (factField w f).sorted →
            ∀ w' consumed', decode b' = .ok (.frame w' consumed') →
              publisherSigningBytes w' ≠ (.ok m₀ : Outcome VerifyPublisherError Bytes)) := by
  have hfields := publisherFields_inRange (publish_inRange hrange frameId sentAtMs)
  obtain ⟨m₀, hm₀⟩ : ∃ m₀, (publisherSigningBytes (publish spec frameId sentAtMs) :
      Outcome VerifyPublisherError Bytes) = .ok m₀ := by
    simp only [publisherSigningBytes, Cbor.encode_of_inRange hfields]
    exact ⟨_, rfl⟩
  refine ⟨(publish spec frameId sentAtMs).withField "publisher_sig"
    (.bytes (identity.sign E m₀).1), m₀, hm₀, by rw [signPublisher, hm₀]; rfl, ?_⟩
  intro sent hops b w consumed hsent hrelayed hdecode
  -- every field of the fact reaches this hop in key order
  have hfact : ∀ f ∈ FACT_FIELDS, ∃ x, (publish spec frameId sentAtMs).get f = some x ∧
      w.get f = some x.sorted := by
    intro f hf
    obtain ⟨x, hx, hxkeys⟩ := publish_fact hdistinct frameId sentAtMs f hf
    exact ⟨x, hx, relayed_get (fun h => h.fact f hf) hsent hrelayed
      ((signed_get f hf).trans hx) hxkeys hdecode⟩
  have hsigned : w.get "publisher_sig" = some (.bytes (identity.sign E m₀).1) := by
    have h := relayed_get (fun h => h.publisherSig) hsent hrelayed (Value.get_withField_self _ _ _)
      (Value.all_bytes.mpr trivial) hdecode
    rwa [Value.sorted_bytes] at h
  have hsorted : ∀ f ∈ FACT_FIELDS, (factField w f).sorted =
      (factField (publish spec frameId sentAtMs) f).sorted := by
    intro f hf
    obtain ⟨x, hx, hw⟩ := hfact f hf
    simp [factField, hx, hw]
  have hm : (publisherSigningBytes w : Outcome VerifyPublisherError Bytes) = .ok m₀ :=
    (publisherSigningBytes_congr hsorted).trans hm₀
  refine ⟨?_, ?_⟩
  · obtain ⟨x, hx, hw⟩ := hfact "publisher" (by decide)
    obtain rfl : x = .bytes spec.publisher.1 :=
      Option.some.inj (hx.symm.trans (publish_get spec frameId sentAtMs).2.2.1)
    have hverify := identity.verify_sign E m₀
    rw [hpublisher] at hverify
    exact verifyPublisher_of_get hsigned hw hm hverify
  · intro v b' f hencode hf
    have hsized := (decode_frame_fits hdecode).encodable.sized
    obtain ⟨-, hlen, -⟩ := encode_eq_ok.mp hencode
    constructor
    · have hvsized := Value.sized_of_length_canon (hlen.trans_lt (by decide))
      exact publisherSigningBytes_ne hvsized hsized hm hf
    · intro hframe hne w' consumed' hdecode'
      have hsized' := (decode_frame_fits hdecode').encodable.sized
      rw [← decode_encode_factField hframe hencode hdecode'] at hne
      exact publisherSigningBytes_ne hsized' hsized hm hf hne

/-- A publisher and its fact, a map out of order. -/
def somePublisher : KeyPair := ⟨.fill 3⟩

def someFact : PublishSpec where
  topic := "t"
  realm := .fill 1
  publisher := somePublisher.nodeId .standIn
  seq := 1
  payload := .map [(.text "b", .null), (.text "a", .int 1)]
  publishedAtMs := 5

/-- The fact arrives over a frame that was encoded once. -/
theorem relayed_verifies_some : ∃ v₀ b w, (signPublisher .standIn
      (publish someFact ⟨.replicate 16 2, rfl⟩ 6) somePublisher :
        Outcome VerifyPublisherError Value) = .ok v₀ ∧
    decode b = .ok (.frame w b.length) ∧ verifyPublisher .standIn w = .ok () := by
  have hpayload : someFact.payload.Record 0 := Value.Record.of_fields ["b", "a"]
    [("b", .null), ("a", .int 1)] rfl (by decide) (by decide) (by
      simp only [List.map, List.forall_mem_cons]
      exact ⟨Value.within_null 0, Value.within_int 0 (by decide), by simp⟩)
  obtain ⟨v₀, m₀, -, hsign, hrelayed⟩ := @relayed_verifies .standIn someFact somePublisher
    ⟨.replicate 16 2, rfl⟩ 6 rfl hpayload.within.ints hpayload.within.distinct
  obtain ⟨signable, -, hv₀⟩ := Outcome.bind_eq_ok.mp hsign
  have hrecord : v₀.Record 1 := by
    rw [← Outcome.ok.inj hv₀]
    exact (publish_record hpayload.within _ _).withField (by decide) (Value.within_bytes 1 _)
  have hsent : Forwards v₀ v₀ := ⟨hrecord.isFrame, fun _ _ => rfl, rfl⟩
  have hlen : (Cbor.canon v₀).length ≤ MAX_FRAME_BYTES := by
    have hv : (signPublisher .standIn (publish someFact ⟨.replicate 16 2, rfl⟩ 6) somePublisher :
        Outcome VerifyPublisherError Value).toOption.getD .null = v₀ := by
      rw [hsign]
      rfl
    rw [← hv]
    decide +kernel
  have hencode := encode_eq_ok.mpr ⟨hrecord.within.ints, hlen, rfl⟩
  have hdecode := decode_encode hrecord.within.distinct (hrecord.within.depth.trans (by decide))
    hencode
  exact ⟨v₀, _, _, hsign, hdecode, (hrelayed _ _ _ _ _ hsent (.sent hencode) hdecode).1⟩

/-! ## A key written twice -/

def plainFact : PublishSpec := { someFact with payload := .map [(.text "a", .int 1)] }

/-- The frame of its publisher. -/
def plainSigned : Value :=
  (signPublisher .standIn (publish plainFact ⟨.replicate 16 2, rfl⟩ 6) somePublisher :
    Outcome VerifyPublisherError Value).toOption.getD .null

/-- What a hop makes of it: the key is there twice, first with another value. -/
def repeatingFrame : Value :=
  plainSigned.withField "payload" (.map [(.text "a", .int 0), (.text "a", .int 1)])

def wireOf (v : Value) : Bytes := (encode v).toOption.getD []

/-- The payload is no reordering of the one that was signed, but the next hop decodes the frame
that was signed and verifies it. -/
theorem relayed_repeated_key :
    (signPublisher .standIn (publish plainFact ⟨.replicate 16 2, rfl⟩ 6) somePublisher :
      Outcome VerifyPublisherError Value) = .ok plainSigned ∧
    ∃ b w b', encode plainSigned = .ok b ∧ decode b = .ok (.frame w b.length) ∧
      encode repeatingFrame = .ok b' ∧ decode b' = .ok (.frame w b'.length) ∧
      (factField repeatingFrame "payload").sorted ≠ (factField w "payload").sorted ∧
      verifyPublisher .standIn w = .ok () := by
  refine ⟨by decide +kernel, wireOf plainSigned, plainSigned.sorted, wireOf repeatingFrame, ?_⟩
  refine ⟨by decide +kernel, by decide +kernel, by decide +kernel, by decide +kernel, ?_⟩
  exact ⟨by decide +kernel, by decide +kernel⟩

end Macula.Frame
