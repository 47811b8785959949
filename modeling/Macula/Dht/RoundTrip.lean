import Macula.Dht
import Macula.Manifest.Create

/-!
# Records over an RPC

A record is signed as a map under one-letter keys and sent as a map under full names.  The codec
sorts the second one, payload and all, and the receiver checks the signature by building the
first one anew from what it reads.  The two agree because an encoding does not depend on the order
of a map's entries.

`travels_eq_ok` is this trip for every record whose payload fits, and `canonicalUnsigned_eq_iff`
says what the signed bytes determine.  The rest is about the three constructors.
-/

namespace Macula.Dht

open Macula.Cbor (Value)
open Macula.Frame (arrField_eq_ok intField_eq_ok)

/-! ## The trip -/

/-- A record is sent and read back. -/
def travels (r : Record) : Outcome Unit Record := do
  let bytes ← (Cbor.encode (toRpcValue r)).mapErr fun _ => ()
  let value ← (Cbor.decode 64 bytes).mapErr fun _ => ()
  (recordFromRpcValue value).mapErr fun _ => ()

/-- The record with the maps of its payload in key order. -/
def Record.sorted (r : Record) : Record := { r with payload := r.payload.sorted }

/-- What a record that can be sent is made of. -/
structure Record.Sendable (r : Record) : Prop where
  created : Cbor.IntOk (.int r.createdAt)
  expires : Cbor.IntOk (.int r.expiresAt)
  payload : r.payload.Within (Cbor.MAX_NESTING_DEPTH - 1)
  sized : r.payload.Sized
  signature : r.signature.length = 64

/-- The keys of a sent record. -/
def RPC_KEYS : List String :=
  ["type", "key", "version", "created_at", "expires_at", "payload", "signature"]

section

variable {r : Record}

theorem intOk_recordType (t : UInt8) : Cbor.IntOk (.int t.toNat) := by
  have h := t.toNat_lt
  exact ⟨by omega, by omega⟩

theorem Record.Sendable.rpcRecord (h : r.Sendable) :
    (toRpcValue r).Record (Cbor.MAX_NESTING_DEPTH - 1) := by
  have hrecord := Value.Record.of_fields RPC_KEYS
    [("type", .int r.recordType.toNat), ("key", .bytes r.key.1), ("version", .bytes r.version.1),
     ("created_at", .int r.createdAt), ("expires_at", .int r.expiresAt), ("payload", r.payload),
     ("signature", .bytes r.signature)] rfl (by decide) (by decide) (by
      simp only [List.map_cons, List.map_nil, List.forall_mem_cons]
      exact ⟨Value.within_int _ (intOk_recordType _), Value.within_bytes _ _,
        Value.within_bytes _ _, Value.within_int _ h.created, Value.within_int _ h.expires,
        h.payload, Value.within_bytes _ _, by simp⟩)
  rw [toRpcValue, if_pos h.signature]
  exact hrecord

theorem Record.Sendable.rpcSized (h : r.Sendable) : (toRpcValue r).Sized := by
  have hkeys : ∀ key ∈ RPC_KEYS, (Utf8.bytes key).length < 2 ^ 64 := by decide
  simp only [RPC_KEYS, List.forall_mem_cons] at hkeys
  have hpayload : r.payload.All Cbor.LenOk := h.sized
  simp only [toRpcValue, h.signature, if_true, Value.Sized, Value.all_map, Value.all_text,
    Value.all_int, Value.all_bytes, Cbor.LenOk, List.forall_mem_append, List.forall_mem_cons,
    List.length_append, List.length_cons, List.length_nil, hkeys, hpayload, r.key.2, r.version.2]
  simp

/-- *A record that can be sent arrives*, with the maps of its payload in key order. -/
theorem travels_eq_ok (h : r.Sendable) : travels r = .ok r.sorted := by
  have hwithin := h.rpcRecord.within
  have hfits : Cbor.Fits 0 (toRpcValue r) :=
    ⟨⟨hwithin.ints, h.rpcSized⟩, hwithin.distinct, by
      have := hwithin.depth
      rw [Cbor.MAX_NESTING_DEPTH] at this ⊢
      omega⟩
  have hget : ∀ (key : String) {v : Value}, (toRpcValue r).get key = some v →
      (toRpcValue r).sorted.get key = some v.sorted := fun _ => Cbor.get_sorted hwithin.distinct
  have hvalue : toRpcValue r = .map
      ([(Value.text "type", .int r.recordType.toNat), (.text "key", .bytes r.key.1),
        (.text "version", .bytes r.version.1), (.text "created_at", .int r.createdAt),
        (.text "expires_at", .int r.expiresAt), (.text "payload", r.payload)] ++
        [(.text "signature", .bytes r.signature)]) := by rw [toRpcValue, if_pos h.signature]
  have htype : typeField (toRpcValue r).sorted = .ok r.recordType := by
    have hlt := r.recordType.toNat_lt
    have hsorted := hget "type" (by rw [hvalue]; rfl)
    rw [Value.sorted_int] at hsorted
    rw [typeField, hsorted]
    dsimp only
    rw [if_pos ⟨by omega, by omega⟩]
    simp
  have hkey := hget "key" (by rw [hvalue]; rfl)
  have hversion := hget "version" (by rw [hvalue]; rfl)
  have hcreated := hget "created_at" (by rw [hvalue]; rfl)
  have hexpires := hget "expires_at" (by rw [hvalue]; rfl)
  have hpayload := hget "payload" (by rw [hvalue]; rfl)
  have hsignature := hget "signature" (by rw [hvalue]; rfl)
  rw [Value.sorted_bytes] at hkey hversion hsignature
  rw [Value.sorted_int] at hcreated hexpires
  have hread : recordFromRpcValue (toRpcValue r).sorted = .ok r.sorted := by
    rw [recordFromRpcValue, htype, Outcome.ok_bind, arrField_eq_ok.mpr hkey, Outcome.ok_bind,
      arrField_eq_ok.mpr hversion, Outcome.ok_bind, intField_eq_ok.mpr hcreated, Outcome.ok_bind,
      intField_eq_ok.mpr hexpires, Outcome.ok_bind, Outcome.okOr_eq_ok.mpr hpayload,
      Outcome.ok_bind, Frame.bytesFieldOrEmpty, hsignature]
    rfl
  rw [travels, Cbor.encode_of_inRange hwithin.ints]
  show (Outcome.mapErr _ (Cbor.decode 64 (Cbor.canon (toRpcValue r))) >>= _) = _
  rw [hfits.decode_canon]
  show (recordFromRpcValue (toRpcValue r).sorted).mapErr _ = _
  rw [hread]
  rfl

/-! ## The signed bytes -/

/-- The map that is signed is the same in key order. -/
theorem canon_envelope_sorted (r : Record) :
    Cbor.canon (envelope r.sorted) = Cbor.canon (envelope r) := by
  simp [envelope, Record.sorted, Cbor.canonEntry, Cbor.canon_sorted]

theorem sorted_envelope (r : Record) : (envelope r).sorted =
    .map [(.text "c", .int r.createdAt), (.text "k", .bytes r.key.1), (.text "p", r.payload.sorted),
      (.text "t", .int r.recordType.toNat), (.text "v", .bytes r.version.1),
      (.text "x", .int r.expiresAt)] := by
  simp only [envelope, Value.sorted_map, List.map, Cbor.sortedEntry, Value.sorted_text,
    Value.sorted_int, Value.sorted_bytes]
  rfl

theorem sized_envelope {r : Record} (h : r.payload.Sized) : (envelope r).Sized := by
  have hkeys : ∀ key ∈ ["t", "k", "v", "c", "x", "p"], (Utf8.bytes key).length < 2 ^ 64 := by
    decide
  simp only [List.forall_mem_cons] at hkeys
  have hpayload : r.payload.All Cbor.LenOk := h
  simp only [envelope, Value.Sized, Value.all_map, Value.all_text, Value.all_int, Value.all_bytes,
    Cbor.LenOk, List.forall_mem_cons, List.length_cons, List.length_nil, hkeys, hpayload, r.key.2,
    r.version.2]
  simp

/-- The two records agree on the type, the key, the version and the times, and on the payload up
to the order of map entries. -/
structure SameEnvelope (r r' : Record) : Prop where
  recordType : r.recordType = r'.recordType
  key : r.key = r'.key
  version : r.version = r'.version
  createdAt : r.createdAt = r'.createdAt
  expiresAt : r.expiresAt = r'.expiresAt
  payload : r.payload.sorted = r'.payload.sorted

theorem sorted_envelope_eq_iff {r r' : Record} :
    (envelope r).sorted = (envelope r').sorted ↔ SameEnvelope r r' := by
  rw [sorted_envelope, sorted_envelope]
  simp only [Value.map.injEq, List.cons.injEq, Prod.mk.injEq, Value.int.injEq, Value.bytes.injEq,
    true_and, and_true]
  constructor
  · rintro ⟨hcreated, hkey, hpayload, htype, hversion, hexpires⟩
    exact ⟨UInt8.toNat_inj.mp (Int.natCast_inj.mp htype), Subtype.ext hkey, Subtype.ext hversion,
      hcreated, hexpires, hpayload⟩
  · rintro ⟨htype, hkey, hversion, hcreated, hexpires, hpayload⟩
    exact ⟨hcreated, by rw [hkey], hpayload, by rw [htype], by rw [hversion], hexpires⟩

/-- *The signed bytes determine every field of the envelope*, the payload up to the order of its
map entries. -/
theorem canonicalUnsigned_eq_iff {ε : Type} {r r' : Record} (hrange : (envelope r).IntsInRange)
    (hsized : r.payload.Sized) (hsized' : r'.payload.Sized) :
    (canonicalUnsigned r' : Outcome ε Bytes) = canonicalUnsigned r ↔ SameEnvelope r' r := by
  have hr : (canonicalUnsigned r : Outcome ε Bytes) = .ok _ :=
    canonicalUnsigned_eq_ok.mpr ⟨hrange, rfl⟩
  rw [hr, canonicalUnsigned_eq_ok]
  constructor
  · rintro ⟨hrange', hbytes⟩
    exact sorted_envelope_eq_iff.mp ((Cbor.canon_eq_canon_iff ⟨hrange', sized_envelope hsized'⟩
      ⟨hrange, sized_envelope hsized⟩).mp hbytes.symm)
  · intro h
    have hsorted := sorted_envelope_eq_iff.mpr h
    refine ⟨Value.inRange_sorted.mp (hsorted ▸ Value.inRange_sorted.mpr hrange), ?_⟩
    rw [← Cbor.canon_sorted, ← hsorted, Cbor.canon_sorted]

end

/-! ## What the constructors build -/

/-- A `Vec<u8>`, which holds at most `isize::MAX` bytes. -/
abbrev AllocBytes := { b : Bytes // b.length < 2 ^ 63 }

/-- A call of a constructor, without the time to live. -/
inductive Constructed where
  | procedureAdvertisement (advertiserNode : NodeId) (procedureUri : AllocString)
      (servingStation : NodeId)
  | procedureAdvertisementWithCertChain (advertiserNode : NodeId) (procedureUri : AllocString)
      (servingStation : NodeId) (certChainPem : AllocBytes)
  | contentAnnouncement (announcerNode : NodeId) (mcid : Mcid) (endpoint : AllocString)

namespace Constructed

/-- The record that is built. -/
def record (ttl : Duration) (fresh : Fresh) : Constructed → Record
  | procedureAdvertisement node uri station =>
      newProcedureAdvertisement node uri.1 station ttl fresh
  | procedureAdvertisementWithCertChain node uri station pem =>
      newProcedureAdvertisementWithCertChain node uri.1 station ttl pem.1 fresh
  | contentAnnouncement node mcid endpoint => newContentAnnouncement node mcid endpoint.1 ttl fresh

/-- The node the record is about, which signs it. -/
def node : Constructed → NodeId
  | procedureAdvertisement node .. | procedureAdvertisementWithCertChain node ..
  | contentAnnouncement node .. => node

/-- Its reader returns the arguments of the constructor, with a chain when one was given. -/
def ReadsAs (r : Record) : Constructed → Prop
  | procedureAdvertisement node uri station => readProcedureAdvertisement r =
      .ok { procedureUri := uri.1, advertiserNode := node, servingStation := station,
            certChain := none }
  | procedureAdvertisementWithCertChain node uri station pem => readProcedureAdvertisement r =
      .ok { procedureUri := uri.1, advertiserNode := node, servingStation := station,
            certChain := some pem.1 }
  | contentAnnouncement node mcid endpoint => readContentAnnouncement r =
      .ok { announcerNode := node, mcid, endpoint := endpoint.1 }

/-- The fields of the payload. -/
def fields : Constructed → List (String × Value)
  | procedureAdvertisement node uri station =>
      [("procedure_uri", .text uri.1), ("advertiser_node", .bytes node.1),
       ("serving_station", .bytes station.1)]
  | procedureAdvertisementWithCertChain node uri station pem =>
      [("procedure_uri", .text uri.1), ("advertiser_node", .bytes node.1),
       ("serving_station", .bytes station.1), ("cert_chain", .bytes pem.1)]
  | contentAnnouncement node mcid endpoint =>
      [("announcer_node", .bytes node.1), ("mcid", .bytes mcid.1), ("endpoint", .text endpoint.1)]

variable (c : Constructed) (ttl : Duration) (fresh : Fresh)

theorem record_key : (c.record ttl fresh).key = c.node := by
  cases c <;> rfl

theorem record_createdAt : (c.record ttl fresh).createdAt = fresh.now := by
  cases c <;> rfl

theorem record_payload : (c.record ttl fresh).payload =
    .map (c.fields.map fun f => (.text f.1, f.2)) := by
  cases c <;> rfl

/-- A record expires after it was made, unless it is an announcement that lives for less than a
millisecond. -/
theorem le_record_expiresAt : fresh.now + ttl.asMillis ≤ (c.record ttl fresh).expiresAt := by
  have hdefault : ∀ ttl : Duration,
      (ttl.asMillis : Int) ≤ (if ttl.isZero then DEFAULT_TTL else ttl : Duration).asMillis := by
    intro ttl
    split
    · next hzero =>
        rw [Duration.asMillis_of_isZero hzero]
        exact Int.natCast_nonneg _
    · exact Int.le_refl _
  cases c with
  | procedureAdvertisement => exact Int.add_le_add_left (hdefault ttl) fresh.now
  | procedureAdvertisementWithCertChain => exact Int.add_le_add_left (hdefault ttl) fresh.now
  | contentAnnouncement => exact Int.le_refl _

theorem payload_within (n : Nat) : (c.record ttl fresh).payload.Within (n + 1) := by
  rw [record_payload]
  refine (Value.Record.of_fields (n := n) (c.fields.map Prod.fst) c.fields rfl ?_ ?_ ?_).within
  · cases c <;> simp [fields]
  · cases c <;> simp [fields] <;> decide
  · cases c <;> simp [fields, Value.within_text, Value.within_bytes]

theorem payload_sized : (c.record ttl fresh).payload.Sized := by
  have hkeys : ∀ key ∈ ["procedure_uri", "advertiser_node", "serving_station", "cert_chain",
      "announcer_node", "mcid", "endpoint"], (Utf8.bytes key).length < 2 ^ 64 := by decide
  simp only [List.forall_mem_cons] at hkeys
  have htext : ∀ t : AllocString, (Utf8.bytes t.1).length < 2 ^ 64 :=
    fun t => t.2.trans (by decide)
  have hbytes : ∀ b : AllocBytes, b.1.length < 2 ^ 64 := fun b => b.2.trans (by decide)
  have harr : ∀ {n : Nat} (a : ByteArr n), a.1.length = n := fun a => a.2
  rw [record_payload]
  cases c <;>
    simp only [fields, List.map_cons, List.map_nil, Value.Sized, Value.all_map, Value.all_text,
      Value.all_bytes, Cbor.LenOk, List.forall_mem_cons, List.length_cons, List.length_nil, hkeys,
      htext, hbytes, harr] <;>
    simp

/-- A record signed by its node can be sent. -/
theorem sendable {E : Ed25519} {id : KeyPair} {signed : Record}
    (hnow : 0 ≤ fresh.now) (hexpires : Cbor.IntOk (.int (c.record ttl fresh).expiresAt))
    (hsign : (sign E (c.record ttl fresh) id : Outcome Unit Record) = .ok signed) :
    signed.Sendable := by
  obtain ⟨canonical, -, hsigned⟩ := Outcome.bind_eq_ok.mp hsign
  obtain rfl := Outcome.ok.inj hsigned
  have hle := c.le_record_expiresAt ttl fresh
  refine ⟨?_, hexpires, c.payload_within ttl fresh _, c.payload_sized ttl fresh,
    (id.sign E _).2⟩
  show Cbor.IntOk (.int (c.record ttl fresh).createdAt)
  rw [record_createdAt]
  obtain ⟨-, hlt⟩ := hexpires
  exact ⟨by omega, by omega⟩

theorem readProcedureAdvertisement_of_get {r : Record} {uri : String} {node station : NodeId}
    (htype : r.recordType = TYPE_PROCEDURE_ADVERTISEMENT)
    (huri : r.payload.get "procedure_uri" = some (.text uri))
    (hnode : r.payload.get "advertiser_node" = some (.bytes node.1))
    (hstation : r.payload.get "serving_station" = some (.bytes station.1)) :
    readProcedureAdvertisement r =
      .ok { procedureUri := uri, advertiserNode := node, servingStation := station,
            certChain := certChainField r.payload } := by
  rw [readProcedureAdvertisement, if_neg (not_not.mpr htype), plainTextField, huri,
    Outcome.ok_bind, bytes32Field, arrField_eq_ok.mpr hnode, Outcome.ok_bind, bytes32Field,
    arrField_eq_ok.mpr hstation, Outcome.ok_bind]
  rfl

/-- What is read does not depend on the order of the entries. -/
theorem readsAs_sorted {r : Record} (htype : r.recordType = (c.record ttl fresh).recordType)
    (hpayload : r.payload = (c.record ttl fresh).payload.sorted) : c.ReadsAs r := by
  have hdistinct := (c.payload_within ttl fresh 0).distinct
  have hget : ∀ {key : String} {v : Value}, (c.record ttl fresh).payload.get key = some v →
      r.payload.get key = some v.sorted := fun h => hpayload ▸ Cbor.get_sorted hdistinct h
  have hnone : ∀ {key : String}, (c.record ttl fresh).payload.get key = none →
      r.payload.get key = none := by
    intro key h
    rw [hpayload, Cbor.get_sorted_eq hdistinct, h]
    rfl
  cases c with
  | procedureAdvertisement node uri station =>
      have huri := @hget "procedure_uri" _ rfl
      have hnode := @hget "advertiser_node" _ rfl
      have hstation := @hget "serving_station" _ rfl
      rw [Value.sorted_text] at huri
      rw [Value.sorted_bytes] at hnode hstation
      rw [ReadsAs, readProcedureAdvertisement_of_get htype huri hnode hstation, certChainField,
        @hnone "cert_chain" rfl]
  | procedureAdvertisementWithCertChain node uri station pem =>
      have huri := @hget "procedure_uri" _ rfl
      have hnode := @hget "advertiser_node" _ rfl
      have hstation := @hget "serving_station" _ rfl
      have hchain := @hget "cert_chain" _ rfl
      rw [Value.sorted_text] at huri
      rw [Value.sorted_bytes] at hnode hstation hchain
      rw [ReadsAs, readProcedureAdvertisement_of_get htype huri hnode hstation, certChainField,
        hchain]
  | contentAnnouncement node mcid endpoint =>
      have hnode := @hget "announcer_node" _ rfl
      have hmcid := @hget "mcid" _ rfl
      have hendpoint := @hget "endpoint" _ rfl
      rw [Value.sorted_text] at hendpoint
      rw [Value.sorted_bytes] at hnode hmcid
      replace htype : r.recordType = TYPE_CONTENT_ANNOUNCEMENT := htype
      rw [ReadsAs, readContentAnnouncement, if_neg (not_not.mpr htype), bytes32Field,
        arrField_eq_ok.mpr hnode, Outcome.ok_bind, arrField_eq_ok.mpr hmcid, Outcome.ok_bind,
        plainTextField, hendpoint]
      rfl

end Constructed

/-! ## The trip of what is built -/

/-- A record that its key signed is expired or verifies, also after the trip. -/
theorem verify_sorted_of_sign {E : Ed25519} {id : KeyPair} {r signed : Record}
    (hkey : r.key = id.nodeId E) (hsign : (sign E r id : Outcome Unit Record) = .ok signed)
    (now : Int) : verify E now signed.sorted =
      if 0 < r.expiresAt ∧ r.expiresAt ≤ now then .err .expired else .ok () := by
  obtain ⟨canonical, hcanonical, hsigned⟩ := Outcome.bind_eq_ok.mp hsign
  obtain ⟨hrange, rfl⟩ := canonicalUnsigned_eq_ok.mp hcanonical
  obtain rfl := Outcome.ok.inj hsigned
  obtain ⟨hcreated, hexpires, hpayload⟩ := envelope_inRange_iff.mp hrange
  have hrange' : (envelope r.sorted).IntsInRange :=
    envelope_inRange_iff.mpr ⟨hcreated, hexpires, Value.inRange_sorted.mpr hpayload⟩
  have hverify : E.verify (SIG_DOMAIN ++ Cbor.canon (envelope r.sorted))
      (id.sign E (SIG_DOMAIN ++ Cbor.canon (envelope r))) r.key = true := by
    rw [canon_envelope_sorted, hkey]
    exact id.verify_sign E _
  exact @verify_of_signed E
    (Record.sorted { r with signature := (id.sign E (SIG_DOMAIN ++ Cbor.canon (envelope r))).1 })
    _ hrange' (toArr_val _) hverify now

/-- *A record that is built and signed survives the trip, with its exact lifetime.*  An expiry of
zero means none; a record has it only when the clock reads the first millisecond of 1970. -/
theorem constructed_travels {E : Ed25519} {id : KeyPair} (c : Constructed) (ttl : Duration)
    (now : UnixMillis) (version : ByteArr 16) (hkey : c.node = id.nodeId E)
    (hexpires : Cbor.IntOk (.int (c.record ttl ⟨now.ms, version⟩).expiresAt)) :
    ∃ signed arrived,
      (sign E (c.record ttl ⟨now.ms, version⟩) id : Outcome Unit Record) = .ok signed ∧
      travels signed = .ok arrived ∧ arrived = signed.sorted ∧
      (0 < signed.expiresAt → ∀ t : Int,
        (verify E t arrived = .ok () ↔ t < signed.expiresAt) ∧
        (verify E t arrived = .err .expired ↔ signed.expiresAt ≤ t)) ∧
      (signed.expiresAt ≤ 0 →
        (now.ms = 0 ∧ ttl.asMillis = 0) ∧ ∀ t : Int, verify E t arrived = .ok ()) ∧
      c.ReadsAs arrived ∧
      ∀ r' : Record, r'.payload.Sized →
        ((canonicalUnsigned r' : Outcome Unit Bytes) = canonicalUnsigned signed ↔
          SameEnvelope r' signed) := by
  have hle := c.le_record_expiresAt ttl ⟨now.ms, version⟩
  have hrange : (envelope (c.record ttl ⟨now.ms, version⟩)).IntsInRange := by
    refine envelope_inRange_iff.mpr ⟨?_, hexpires, (c.payload_within ttl _ 0).ints⟩
    rw [c.record_createdAt]
    obtain ⟨-, hlt⟩ := hexpires
    exact ⟨by dsimp only at hle ⊢; omega, by dsimp only at hle ⊢; omega⟩
  have hcanonical : (canonicalUnsigned (c.record ttl ⟨now.ms, version⟩) : Outcome Unit Bytes) =
      .ok _ := canonicalUnsigned_eq_ok.mpr ⟨hrange, rfl⟩
  obtain ⟨signed, hsign⟩ : ∃ signed,
      (sign E (c.record ttl ⟨now.ms, version⟩) id : Outcome Unit Record) = .ok signed :=
    ⟨_, by rw [sign, hcanonical]; rfl⟩
  have hsendable := c.sendable ttl ⟨now.ms, version⟩ (Int.natCast_nonneg _) hexpires hsign
  have hverify := verify_sorted_of_sign ((c.record_key ttl _).trans hkey) hsign
  obtain ⟨canonical, -, hsigned⟩ := Outcome.bind_eq_ok.mp hsign
  obtain rfl := Outcome.ok.inj hsigned
  refine ⟨_, _, hsign, travels_eq_ok hsendable, rfl, fun hpos t => ?_, fun hzero => ?_,
    c.readsAs_sorted ttl _ rfl rfl, fun r' hsized => ?_⟩
  · rw [hverify]
    replace hpos : 0 < (c.record ttl ⟨now.ms, version⟩).expiresAt := hpos
    split
    · next hpast =>
        exact ⟨⟨nofun, fun h => absurd hpast.2 (Int.not_le.mpr h)⟩,
          ⟨fun _ => hpast.2, fun _ => rfl⟩⟩
    · next hfuture =>
        rw [not_and] at hfuture
        have hlt := Int.not_le.mp (hfuture hpos)
        exact ⟨⟨fun _ => hlt, fun _ => rfl⟩, ⟨nofun, fun h => absurd h (hfuture hpos)⟩⟩
  · replace hzero : (c.record ttl ⟨now.ms, version⟩).expiresAt ≤ 0 := hzero
    refine ⟨?_, fun t => ?_⟩
    · dsimp only at hle
      omega
    · rw [hverify, if_neg]
      omega
  · exact canonicalUnsigned_eq_iff hrange (c.payload_sized ttl _) hsized

/-- The advertisement of a provider with its certificate, made in 2026. -/
theorem constructed_travels_chained :
    let id : KeyPair := ⟨⟨.replicate 32 7, rfl⟩⟩
    let c : Constructed := .procedureAdvertisementWithCertChain (id.nodeId .standIn)
      ⟨"procedure", by decide⟩ ⟨.replicate 32 9, rfl⟩ ⟨[1, 2, 3], by decide⟩
    ∃ arrived, c.ReadsAs arrived ∧ arrived.expiresAt = 1770172800000 ∧
      verify .standIn 1770172799999 arrived = .ok () ∧
      verify .standIn 1770172800000 arrived = .err .expired := by
  intro id c
  obtain ⟨signed, arrived, hsign, -, rfl, hverify, -, hreads, -⟩ := @constructed_travels .standIn id
    c (.ofSecs 0) ⟨1770000000000, by decide⟩ ⟨.replicate 16 0, rfl⟩ rfl
    ⟨by decide +kernel, by decide +kernel⟩
  have hexpires : signed.expiresAt = 1770172800000 := by
    obtain ⟨_, -, hsigned⟩ := Outcome.bind_eq_ok.mp hsign
    rw [← Outcome.ok.inj hsigned]
    rfl
  have hpos : 0 < signed.expiresAt := by omega
  exact ⟨_, hreads, hexpires, ((hverify hpos _).1).mpr (by omega),
    ((hverify hpos _).2).mpr (by omega)⟩

/-- An announcement that should live for no time, made at the first millisecond of 1970, arrives
and verifies at any later time. -/
theorem not_expired_first_millisecond :
    let r := newContentAnnouncement ⟨.replicate 32 7, rfl⟩ ⟨.replicate 34 1, rfl⟩ "host"
      (.ofSecs 0) ⟨0, ⟨.replicate 16 0, rfl⟩⟩
    let arrived := ((sign .standIn r ⟨⟨.replicate 32 7, rfl⟩⟩ : Outcome Unit Record) >>=
      travels).toOption
    arrived.map (verify .standIn 1) = some (.ok ()) ∧ arrived.map (·.expiresAt) = some 0 ∧
      ¬ (arrived.map (verify .standIn 1) = some (.err .expired) ↔ r.expiresAt ≤ 1) := by
  decide +kernel

end Macula.Dht
