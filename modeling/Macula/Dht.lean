import Macula.Connection.Errors
import Macula.Frame.Call
import Macula.Frame.Stream
import Macula.Lib.Duration
import Macula.Manifest

/-!
# Signed DHT records

The records that direct dialing reads and publishes: how they are built, signed, checked and
read, and the values they travel as.  A record has two forms.  Signed is the map of its six
envelope fields under one-letter keys; sent is the map under full names, with the signature.

The clock and the record's `version` are arguments, SHA-256 is a parameter.
-/

namespace Macula.Dht

open Macula.Cbor (Value)
open Macula.Connection (CallError)
open Macula.Frame (CallResponse arrField intField textField)

def TYPE_PROCEDURE_ADVERTISEMENT : UInt8 := 0x06
def TYPE_STATION_ENDPOINT : UInt8 := 0x12
def TYPE_CONTENT_ANNOUNCEMENT : UInt8 := 0x11

/-- 48 hours. -/
def DEFAULT_TTL : Duration := .ofSecs (48 * 60 * 60)

def SIG_DOMAIN : Bytes := Utf8.bytes "macula-v2-record\x00"

structure Record where
  recordType : UInt8
  /-- The key of its signer. -/
  key : NodeId
  version : ByteArr 16
  createdAt : Int
  expiresAt : Int
  payload : Value
  /-- Empty until it is signed. -/
  signature : Bytes
deriving DecidableEq

/-! ## Building -/

/-- The fresh values of a record. -/
structure Fresh where
  now : Int
  version : ByteArr 16

def newEnvelope (recordType : UInt8) (key : NodeId) (payload : Value) (ttl : Duration)
    (fresh : Fresh) : Record where
  recordType
  key
  version := fresh.version
  createdAt := fresh.now
  expiresAt := fresh.now + ttl.asMillis
  payload
  signature := []

def newProcedureAdvertisement (advertiserNode : NodeId) (procedureUri : String)
    (servingStation : NodeId) (ttl : Duration) (fresh : Fresh) : Record :=
  let ttl := if ttl.isZero then DEFAULT_TTL else ttl
  let payload := Value.map
    [(.text "procedure_uri", .text procedureUri),
     (.text "advertiser_node", .bytes advertiserNode.1),
     (.text "serving_station", .bytes servingStation.1)]
  newEnvelope TYPE_PROCEDURE_ADVERTISEMENT advertiserNode payload ttl fresh

def newProcedureAdvertisementWithCertChain (advertiserNode : NodeId) (procedureUri : String)
    (servingStation : NodeId) (ttl : Duration) (certChainPem : Bytes) (fresh : Fresh) : Record :=
  let rec_ := newProcedureAdvertisement advertiserNode procedureUri servingStation ttl fresh
  match rec_.payload with
  | .map entries =>
      { rec_ with payload := .map (entries ++ [(.text "cert_chain", .bytes certChainPem)]) }
  | _ => rec_

def newContentAnnouncement (announcerNode : NodeId) (mcid : Mcid) (endpoint : String)
    (ttl : Duration) (fresh : Fresh) : Record :=
  let payload := Value.map
    [(.text "announcer_node", .bytes announcerNode.1),
     (.text "mcid", .bytes mcid.1),
     (.text "endpoint", .text endpoint)]
  newEnvelope TYPE_CONTENT_ANNOUNCEMENT announcerNode payload ttl fresh

/-! ## Sign and verify -/

/-- The map a record is signed as. -/
def envelope (r : Record) : Value :=
  .map [(.text "t", .int r.recordType.toNat),
        (.text "k", .bytes r.key.1),
        (.text "v", .bytes r.version.1),
        (.text "c", .int r.createdAt),
        (.text "x", .int r.expiresAt),
        (.text "p", r.payload)]

def canonicalUnsigned {ε : Type} (r : Record) : Outcome ε Bytes :=
  .expectOk (Cbor.encode (envelope r))

/-- The record with its signature. -/
def sign {ε : Type} (E : Ed25519) (r : Record) (id : KeyPair) : Outcome ε Record := do
  let canonical ← canonicalUnsigned r
  return { r with signature := (id.sign E (SIG_DOMAIN ++ canonical)).1 }

inductive VerifyError where
  | invalidSignature
  | expired
deriving DecidableEq

/-- The signature under the record's own key first, then the expiry. -/
def verify (E : Ed25519) (now : Int) (r : Record) : Outcome VerifyError Unit := do
  let sig ← .okOr .invalidSignature (toArr 64 r.signature)
  let canonical ← canonicalUnsigned r
  if !E.verify (SIG_DOMAIN ++ canonical) sig r.key then .err .invalidSignature
  else if 0 < r.expiresAt ∧ r.expiresAt ≤ now then .err .expired
  else return ()

/-- A record can be signed and checked when its two times and its payload are in range. -/
theorem envelope_inRange_iff {r : Record} : (envelope r).IntsInRange ↔
    Cbor.IntOk (.int r.createdAt) ∧ Cbor.IntOk (.int r.expiresAt) ∧ r.payload.IntsInRange := by
  have htype : Cbor.IntOk (.int r.recordType.toNat) := by
    have h := r.recordType.toNat_lt
    exact ⟨by omega, by omega⟩
  simp only [envelope, Value.IntsInRange, Value.all_map, List.forall_mem_cons, Value.all_text,
    Value.all_int, Value.all_bytes]
  constructor
  · rintro ⟨-, -, -, -, ⟨-, hcreated⟩, ⟨-, hexpires⟩, ⟨-, hpayload⟩, -⟩
    exact ⟨hcreated, hexpires, hpayload⟩
  · rintro ⟨hcreated, hexpires, hpayload⟩
    exact ⟨trivial, ⟨trivial, htype⟩, ⟨trivial, trivial⟩, ⟨trivial, trivial⟩,
      ⟨trivial, hcreated⟩, ⟨trivial, hexpires⟩, ⟨trivial, hpayload⟩, by simp⟩

theorem canonicalUnsigned_eq_ok {ε : Type} {r : Record} {b : Bytes} :
    (canonicalUnsigned r : Outcome ε Bytes) = .ok b ↔
      (envelope r).IntsInRange ∧ b = Cbor.canon (envelope r) := by
  rw [canonicalUnsigned, Outcome.expectOk_eq_ok, Cbor.encode_eq_ok]

/-- There are bytes to sign, or the function panics. -/
theorem canonicalUnsigned_cases {ε : Type} (r : Record) :
    ((envelope r).IntsInRange ∧
      (canonicalUnsigned r : Outcome ε Bytes) = .ok (Cbor.canon (envelope r))) ∨
    ¬ (envelope r).IntsInRange ∧ (canonicalUnsigned r : Outcome ε Bytes) = .panicked := by
  by_cases hrange : (envelope r).IntsInRange
  · exact .inl ⟨hrange, canonicalUnsigned_eq_ok.mpr ⟨hrange, rfl⟩⟩
  · refine .inr ⟨hrange, ?_⟩
    rw [canonicalUnsigned]
    cases hencode : Cbor.encode (envelope r) with
    | ok b => exact absurd (Cbor.encode_eq_ok.mp hencode).1 hrange
    | err e => rfl
    | panicked => rfl

theorem verify_ne_panicked (E : Ed25519) (now : Int) {r : Record}
    (h : (envelope r).IntsInRange) : verify E now r ≠ .panicked := by
  have hcanonical : (canonicalUnsigned r : Outcome VerifyError Bytes) = .ok _ :=
    canonicalUnsigned_eq_ok.mpr ⟨h, rfl⟩
  refine Outcome.bind_ne_panicked Outcome.okOr_ne_panicked fun sig _ => ?_
  rw [hcanonical, Outcome.ok_bind]
  split
  · nofun
  · split <;> nofun

/-- The record is signed by `k`, and not expired at `now`. -/
structure Attested (E : Ed25519) (now : Int) (k : NodeId) (r : Record) : Prop where
  key : r.key = k
  signed : ∃ sig, toArr 64 r.signature = some sig ∧
    E.verify (SIG_DOMAIN ++ Cbor.canon (envelope r)) sig k = true
  unexpired : 0 < r.expiresAt → now < r.expiresAt

/-- A record that verifies is attested by its key. -/
theorem attested_of_verify {E : Ed25519} {now : Int} {r : Record}
    (h : verify E now r = .ok ()) : Attested E now r.key r := by
  obtain ⟨sig, hsig, h⟩ := Outcome.bind_eq_ok.mp h
  obtain ⟨canonical, hcanonical, h⟩ := Outcome.bind_eq_ok.mp h
  obtain rfl := (canonicalUnsigned_eq_ok.mp hcanonical).2
  split at h
  · cases h
  · next hverify =>
      split at h
      · cases h
      · next hexpired =>
          refine ⟨rfl, ⟨sig, Outcome.okOr_eq_ok.mp hsig, ?_⟩, ?_⟩
          · simpa using hverify
          · intro hpos
            exact Int.not_le.mp fun hle => hexpired ⟨hpos, hle⟩

/-- A record with a signature of its key is expired or verifies. -/
theorem verify_of_signed {E : Ed25519} {r : Record} {sig : ByteArr 64}
    (hrange : (envelope r).IntsInRange) (hsig : toArr 64 r.signature = some sig)
    (hsigned : E.verify (SIG_DOMAIN ++ Cbor.canon (envelope r)) sig r.key = true) (now : Int) :
    verify E now r =
      if 0 < r.expiresAt ∧ r.expiresAt ≤ now then .err .expired else .ok () := by
  have hcanonical : (canonicalUnsigned r : Outcome VerifyError Bytes) = .ok _ :=
    canonicalUnsigned_eq_ok.mpr ⟨hrange, rfl⟩
  rw [verify, Outcome.okOr_eq_ok.mpr hsig, Outcome.ok_bind, hcanonical, Outcome.ok_bind, hsigned]
  rfl

theorem verify_eq_ok_iff {E : Ed25519} {now : Int} {r : Record}
    (hrange : (envelope r).IntsInRange) : verify E now r = .ok () ↔ Attested E now r.key r := by
  constructor
  · exact attested_of_verify
  · rintro ⟨-, ⟨sig, hsig, hsigned⟩, hunexpired⟩
    rw [verify_of_signed hrange hsig hsigned, if_neg]
    rintro ⟨hpos, hle⟩
    exact Int.not_lt.mpr hle (hunexpired hpos)

/-- A record is signed by `k`, but expired at `now`. -/
structure Expired (E : Ed25519) (now : Int) (k : NodeId) (r : Record) : Prop where
  inRange : (envelope r).IntsInRange
  key : r.key = k
  signed : ∃ sig, toArr 64 r.signature = some sig ∧
    E.verify (SIG_DOMAIN ++ Cbor.canon (envelope r)) sig k = true
  expired : 0 < r.expiresAt ∧ r.expiresAt ≤ now

theorem verify_eq_ok {E : Ed25519} {now : Int} {r : Record} :
    verify E now r = .ok () ↔ (envelope r).IntsInRange ∧ Attested E now r.key r := by
  constructor
  · intro h
    obtain ⟨sig, -, hrest⟩ := Outcome.bind_eq_ok.mp h
    obtain ⟨canonical, hcanonical, -⟩ := Outcome.bind_eq_ok.mp hrest
    exact ⟨(canonicalUnsigned_eq_ok.mp hcanonical).1, attested_of_verify h⟩
  · rintro ⟨hrange, hattested⟩
    exact (verify_eq_ok_iff hrange).mpr hattested

theorem verify_eq_expired {E : Ed25519} {now : Int} {r : Record} :
    verify E now r = .err .expired ↔ Expired E now r.key r := by
  constructor
  · intro h
    rw [verify] at h
    cases hsig : toArr 64 r.signature with
    | none =>
        rw [hsig] at h
        cases h
    | some sig =>
        rw [Outcome.okOr_eq_ok.mpr hsig, Outcome.ok_bind] at h
        rcases canonicalUnsigned_cases r with ⟨hrange, hcanonical⟩ | ⟨-, hcanonical⟩
        · rw [hcanonical, Outcome.ok_bind] at h
          split at h
          · cases h
          · next hverify =>
              split at h
              · next hexpired =>
                  exact ⟨hrange, rfl, ⟨sig, hsig, by simpa using hverify⟩, hexpired⟩
              · cases h
        · rw [hcanonical] at h
          cases h
  · rintro ⟨hrange, -, ⟨sig, hsig, hsigned⟩, hexpired⟩
    rw [verify_of_signed hrange hsig hsigned, if_pos hexpired]

/-- The check panics on a signature of the right length over what has no bytes. -/
theorem verify_eq_panicked {E : Ed25519} {now : Int} {r : Record} :
    verify E now r = .panicked ↔ r.signature.length = 64 ∧ ¬ (envelope r).IntsInRange := by
  constructor
  · intro h
    refine ⟨?_, fun hrange => verify_ne_panicked E now hrange h⟩
    rcases Outcome.bind_eq_panicked.mp h with hsig | ⟨sig, hsig, -⟩
    · exact absurd hsig Outcome.okOr_ne_panicked
    · rw [toArr_eq_some.mp (Outcome.okOr_eq_ok.mp hsig)]
      exact sig.2
  · rintro ⟨hlen, hrange⟩
    have hsig : toArr 64 r.signature = some ⟨r.signature, hlen⟩ := toArr_eq_some.mpr rfl
    rcases canonicalUnsigned_cases r with ⟨hin, -⟩ | ⟨-, hcanonical⟩
    · exact absurd hin hrange
    · rw [verify, Outcome.okOr_eq_ok.mpr hsig, Outcome.ok_bind, hcanonical]
      rfl

/-! ## Storage keys -/

section

variable (sha256 : Bytes → ByteArr 32)

def STORAGE_DOMAIN_STATION_ENDPOINT : Bytes := Utf8.bytes "station_endpoint"

def procedureKey (procedureUri : String) : ByteArr 32 := sha256 (Utf8.bytes procedureUri)

def stationEndpointKey (stationPubkey : NodeId) : ByteArr 32 :=
  sha256 (STORAGE_DOMAIN_STATION_ENDPOINT ++ stationPubkey.1)

def contentKey (mcid : Mcid) : ByteArr 32 := sha256 mcid.1

end

/-- A digit of `{:X}`. -/
def hexDigit (n : Nat) : Char := "0123456789ABCDEF".toList.getD n '0'

/-- `{b:02X}`. -/
def hexByte (b : UInt8) : List Char := [hexDigit (b.toNat / 16), hexDigit (b.toNat % 16)]

/-- The realm in hexadecimal, a slash, and the procedure. -/
def discoveryUri (realm : ByteArr 32) (procedure : String) : String :=
  .ofList (realm.1.flatMap hexByte ++ '/' :: procedure.toList)

/-! ## Reading -/

structure ProcedureAdvertisement where
  procedureUri : String
  advertiserNode : NodeId
  servingStation : NodeId
  certChain : Option Bytes
deriving DecidableEq

structure StationEndpoint where
  quicPort : UInt16
  hostAdvertised : List String
deriving DecidableEq

structure ContentAnnouncement where
  announcerNode : NodeId
  mcid : Mcid
  endpoint : String
deriving DecidableEq

inductive ReadRecordError where
  | wrongRecordType
  | missingField (name : String)
  | wrongFieldType (name : String)
deriving DecidableEq

def bytes32Field (v : Value) (name : String) : Outcome ReadRecordError NodeId :=
  arrField .missingField .wrongFieldType 32 v name

/-- A field that is text. -/
def plainTextField (v : Value) (name : String) : Outcome ReadRecordError String :=
  match v.get name with
  | some (.text t) => .ok t
  | some _ => .err (.wrongFieldType name)
  | none => .err (.missingField name)

/-- Absent, or anything but bytes, is no chain. -/
def certChainField (v : Value) : Option Bytes :=
  match v.get "cert_chain" with
  | some (.bytes b) => some b
  | _ => none

def readProcedureAdvertisement (r : Record) : Outcome ReadRecordError ProcedureAdvertisement :=
  if r.recordType ≠ TYPE_PROCEDURE_ADVERTISEMENT then .err .wrongRecordType
  else do
    let procedureUri ← plainTextField r.payload "procedure_uri"
    let advertiserNode ← bytes32Field r.payload "advertiser_node"
    let servingStation ← bytes32Field r.payload "serving_station"
    let certChain := certChainField r.payload
    return { procedureUri, advertiserNode, servingStation, certChain }

def quicPortField (v : Value) : Outcome ReadRecordError UInt16 :=
  match v.get "quic_port" with
  | some (.int n) =>
      if 1 ≤ n ∧ n ≤ 65535 then .ok (.ofNat n.toNat) else .err (.wrongFieldType "quic_port")
  | some _ => .err (.wrongFieldType "quic_port")
  | none => .err (.missingField "quic_port")

/-- A host as bytes or as text. -/
def hostItem : Value → Option String
  | .bytes b => Utf8.decode b
  | .text t => some t
  | _ => none

def hostList (v : Value) : List String :=
  match v.get "host_advertised" with
  | some (.list items) => items.filterMap hostItem
  | _ => []

def readStationEndpoint (r : Record) : Outcome ReadRecordError StationEndpoint :=
  if r.recordType ≠ TYPE_STATION_ENDPOINT then .err .wrongRecordType
  else do
    let quicPort ← quicPortField r.payload
    return { quicPort, hostAdvertised := hostList r.payload }

def readContentAnnouncement (r : Record) : Outcome ReadRecordError ContentAnnouncement :=
  if r.recordType ≠ TYPE_CONTENT_ANNOUNCEMENT then .err .wrongRecordType
  else do
    let announcerNode ← bytes32Field r.payload "announcer_node"
    let mcid ← arrField .missingField .wrongFieldType 34 r.payload "mcid"
    let endpoint ← plainTextField r.payload "endpoint"
    return { announcerNode, mcid, endpoint }

/-! ## On the wire -/

/-- The map a record travels as. -/
def toRpcValue (r : Record) : Value :=
  let entries :=
    [(Value.text "type", .int r.recordType.toNat), (.text "key", .bytes r.key.1),
     (.text "version", .bytes r.version.1), (.text "created_at", .int r.createdAt),
     (.text "expires_at", .int r.expiresAt), (.text "payload", r.payload)]
  if r.signature.length = 64 then .map (entries ++ [(.text "signature", .bytes r.signature)])
  else .map entries

inductive RecordFromRpcError where
  | missingField (name : String)
  | wrongFieldType (name : String)
deriving DecidableEq

def typeField (v : Value) : Outcome RecordFromRpcError UInt8 :=
  match v.get "type" with
  | some (.int n) => if 0 ≤ n ∧ n ≤ 255 then .ok (.ofNat n.toNat) else .err (.wrongFieldType "type")
  | some _ => .err (.wrongFieldType "type")
  | none => .err (.missingField "type")

def recordFromRpcValue (v : Value) : Outcome RecordFromRpcError Record := do
  let recordType ← typeField v
  let key ← arrField .missingField .wrongFieldType 32 v "key"
  let version ← arrField .missingField .wrongFieldType 16 v "version"
  let createdAt ← intField .missingField .wrongFieldType v "created_at"
  let expiresAt ← intField .missingField .wrongFieldType v "expires_at"
  let payload ← .okOr (.missingField "payload") (v.get "payload")
  let signature := Frame.bytesFieldOrEmpty v "signature"
  return { recordType, key, version, createdAt, expiresAt, payload, signature }

/-- The records of a RESULT's list, without the items that are none. -/
def recordsFromList (items : List Value) : List Record :=
  items.filterMap fun item => (recordFromRpcValue item).toOption

/-! ## Asking a station -/

def PUT_RECORD_PROC : String := "_dht.put_record"
def FIND_RECORD_PROC : String := "_dht.find_record"
def FIND_RECORDS_PROC : String := "_dht.find_records"
def FIND_RECORDS_BY_TYPE_PROC : String := "_dht.find_records_by_type"

inductive DhtError where
  | call (e : CallError)
  | remote (name : String)
  | notFound
  | malformed (e : RecordFromRpcError)
  | expectedList
deriving DecidableEq

/-- What calling a procedure with its payload returns, on the session that is asked. -/
abbrev Session := String → Value → Outcome CallError CallResponse

variable (session : Session)

def putRecord (r : Record) : Outcome DhtError Unit := do
  let resp ← (session PUT_RECORD_PROC (toRpcValue r)).mapErr .call
  match resp with
  | .result .. => return ()
  | .error _ name .. => .err (.remote name)

def findRecord (key : ByteArr 32) : Outcome DhtError Record := do
  let args := Value.map [(.text "key", .bytes key.1)]
  let resp ← (session FIND_RECORD_PROC args).mapErr .call
  match resp with
  | .result payload _ =>
      if payload = .text "not_found" then .err .notFound
      else (recordFromRpcValue payload).mapErr .malformed
  | .error _ name .. => .err (.remote name)

def recordsListFromResponse : CallResponse → Outcome DhtError (List Record)
  | .result (.list items) _ => .ok (recordsFromList items)
  | .result .. => .err .expectedList
  | .error _ name .. => .err (.remote name)

def findRecords (key : ByteArr 32) : Outcome DhtError (List Record) := do
  let args := Value.map [(.text "key", .bytes key.1)]
  let resp ← (session FIND_RECORDS_PROC args).mapErr .call
  recordsListFromResponse resp

def findRecordsByType (typ : UInt8) : Outcome DhtError (List Record) := do
  let args := Value.map [(.text "type", .int typ.toNat)]
  let resp ← (session FIND_RECORDS_BY_TYPE_PROC args).mapErr .call
  recordsListFromResponse resp

/-! ## Records off the wire -/

/-- The record of a received value can be encoded again. -/
theorem recordFromRpcValue_inRange {v : Value} {r : Record} (hv : v.IntsInRange)
    (h : recordFromRpcValue v = .ok r) : (envelope r).IntsInRange := by
  obtain ⟨recordType, -, h⟩ := Outcome.bind_eq_ok.mp h
  obtain ⟨key, -, h⟩ := Outcome.bind_eq_ok.mp h
  obtain ⟨version, -, h⟩ := Outcome.bind_eq_ok.mp h
  obtain ⟨createdAt, hcreated, h⟩ := Outcome.bind_eq_ok.mp h
  obtain ⟨expiresAt, hexpires, h⟩ := Outcome.bind_eq_ok.mp h
  obtain ⟨payload, hpayload, h⟩ := Outcome.bind_eq_ok.mp h
  cases h
  refine envelope_inRange_iff.mpr ⟨?_, ?_, ?_⟩
  · exact Value.all_int.mp (Value.inRange_get hv (Frame.intField_eq_ok.mp hcreated))
  · exact Value.all_int.mp (Value.inRange_get hv (Frame.intField_eq_ok.mp hexpires))
  · exact Value.inRange_get hv (Outcome.okOr_eq_ok.mp hpayload)

/-- The records of a response whose payload is in range can be checked. -/
theorem recordsListFromResponse_inRange {payload : Value} {respondedBy : NodeId}
    {records : List Record} (hpayload : payload.IntsInRange)
    (h : recordsListFromResponse (.result payload respondedBy) = .ok records) :
    ∀ r ∈ records, (envelope r).IntsInRange := by
  intro r hr
  cases payload with
  | list items =>
    cases h
    obtain ⟨item, hitem, hread⟩ := List.mem_filterMap.mp hr
    have hrange := (Value.all_list.mp hpayload).2 item hitem
    exact recordFromRpcValue_inRange hrange (Outcome.toOption_eq_some.mp hread)
  | _ => cases h

theorem readProcedureAdvertisement_ne_panicked (r : Record) :
    readProcedureAdvertisement r ≠ .panicked := by
  unfold readProcedureAdvertisement
  split
  · nofun
  · refine Outcome.bind_ne_panicked ?_ fun _ _ => ?_
    · unfold plainTextField
      split <;> nofun
    · refine Outcome.bind_ne_panicked Frame.arrField_ne_panicked fun _ _ => ?_
      exact Outcome.bind_ne_panicked Frame.arrField_ne_panicked fun _ _ => nofun

end Macula.Dht
