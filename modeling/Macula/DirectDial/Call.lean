import Macula.Connection.Calls
import Macula.DirectDial

/-!
# Calling and advertising by direct dial

A direct call resolves the procedure over one session, dials the station it finds and calls it
there.  A direct advertisement is an ADVERTISE, and a signed record put into the DHT.  Both
query the DHT by calls of a session, with a deadline five seconds ahead.

No query panics, and neither do the checks of what a query returns, which came off the wire.
What can panic is the CALL itself, when its payload or its deadline is out of range, and the
signature of the record, when its expiry is (`call_eq_panicked`, `advertiseDirect_eq_panicked`).
-/

namespace Macula

open Macula.Cbor (Value)
open Macula.Connection (CallWire FrameWire HandshakeError Peer Read)
open Macula.Frame (CallResponse)

/-! ## Queries of a session -/

namespace Dht

def DHT_REALM : ByteArr 32 := .fill 0

def DHT_TIMEOUT : Duration := .ofSecs 5

def deadlineMs (now : UnixMillis) (timeout : Duration) : Int := now.plus timeout

/-- What a session meets while it makes a query. -/
structure Query where
  /-- What earlier calls have left in its buffer. -/
  buf : Bytes
  now : UnixMillis
  wire : CallWire

/-- The queries of a session. -/
def querying (E : Ed25519) (text : Connection.CallError → String) (id : KeyPair)
    (session : Connection.Session) (query : String → Query) : Session := fun procedure args =>
  let meets := query procedure
  { session with buf := meets.buf }.call E text id procedure DHT_REALM args
    (deadlineMs meets.now DHT_TIMEOUT) meets.wire

/-- Every query returns, and what it returns came off the wire. -/
structure Session.Sound (session : Session) : Prop where
  returns : ∀ procedure args, args.IntsInRange → session procedure args ≠ .panicked
  inRange : ∀ procedure args payload respondedBy,
    session procedure args = .ok (.result payload respondedBy) → payload.IntsInRange

theorem intOk_plus {now : UnixMillis} {d : Duration} :
    Cbor.IntOk (.int (now.plus d)) ↔ now.ms + d.asMillis < 2 ^ 64 := by
  have hplus : now.plus d = ((now.ms + d.asMillis : Nat) : Int) := rfl
  rw [Cbor.IntOk, hplus]
  omega

theorem querying_sound {E : Ed25519} {text : Connection.CallError → String} {id : KeyPair}
    {session : Connection.Session} {query : String → Query} :
    (querying E text id session query).Sound where
  returns procedure args hargs h := by
    have hnow := (query procedure).now.lt
    have htimeout : DHT_TIMEOUT.asMillis = 5000 := by decide
    have hdeadline : (query procedure).now.ms + DHT_TIMEOUT.asMillis < 2 ^ 64 := by omega
    exact Connection.Session.call_eq_panicked.mp h ⟨hargs, intOk_plus.mpr hdeadline⟩
  inRange procedure args payload respondedBy h := Connection.Session.call_inRange h

theorem sign_eq_panicked {ε : Type} {E : Ed25519} {r : Record} {id : KeyPair} :
    (sign E r id : Outcome ε Record) = .panicked ↔ ¬ (envelope r).IntsInRange := by
  constructor
  · intro h hrange
    have hcanonical : (canonicalUnsigned r : Outcome ε Bytes) = .ok _ :=
      canonicalUnsigned_eq_ok.mpr ⟨hrange, rfl⟩
    rw [sign, hcanonical] at h
    cases h
  · intro h
    cases hcanonical : (canonicalUnsigned r : Outcome ε Bytes) with
    | ok b => exact absurd (canonicalUnsigned_eq_ok.mp hcanonical).1 h
    | err e =>
        rw [canonicalUnsigned] at hcanonical
        revert hcanonical
        cases Cbor.encode (envelope r) <;> simp [Outcome.expectOk]
    | panicked => rw [sign, hcanonical, Outcome.panicked_bind]

/-- A signed record can be encoded. -/
theorem sign_inRange {ε : Type} {E : Ed25519} {r signed : Record} {id : KeyPair}
    (h : (sign E r id : Outcome ε Record) = .ok signed) : (envelope signed).IntsInRange := by
  obtain ⟨canonical, hcanonical, h⟩ := Outcome.bind_eq_ok.mp h
  cases h
  exact (canonicalUnsigned_eq_ok.mp hcanonical).1

theorem toRpcValue_inRange {r : Record} (h : (envelope r).IntsInRange) :
    (toRpcValue r).IntsInRange := by
  obtain ⟨hcreated, hexpires, hpayload⟩ := envelope_inRange_iff.mp h
  have htype : (Value.int r.recordType.toNat).IntsInRange := by
    have htype := r.recordType.toNat_lt
    exact Value.all_int.mpr ⟨by omega, by omega⟩
  have hentries : ∀ p ∈ [(Value.text "type", Value.int r.recordType.toNat),
      (.text "key", .bytes r.key.1), (.text "version", .bytes r.version.1),
      (.text "created_at", .int r.createdAt), (.text "expires_at", .int r.expiresAt),
      (.text "payload", r.payload)], p.1.IntsInRange ∧ p.2.IntsInRange := by
    simp only [List.forall_mem_cons, Value.inRange_text, Value.inRange_bytes, true_and]
    exact ⟨htype, Value.all_int.mpr hcreated, Value.all_int.mpr hexpires, hpayload, by simp⟩
  unfold toRpcValue
  dsimp only
  split
  · refine Value.inRange_map.mpr (List.forall_mem_append.mpr ⟨hentries, ?_⟩)
    exact List.forall_mem_cons.mpr ⟨⟨Value.inRange_text _, Value.inRange_bytes _⟩, by simp⟩
  · exact Value.inRange_map.mpr hentries

section

variable {session : Session} (hsession : session.Sound)

include hsession

theorem putRecord_ne_panicked {r : Record} (h : (envelope r).IntsInRange) :
    putRecord session r ≠ .panicked := by
  refine Outcome.bind_ne_panicked ?_ fun resp _ => ?_
  · rw [Ne, Outcome.mapErr_eq_panicked]
    exact hsession.returns _ _ (toRpcValue_inRange h)
  · cases resp <;> nofun

theorem query_ne_panicked (procedure : String) (key : ByteArr 32) :
    session procedure (.map [(.text "key", .bytes key.1)]) ≠ .panicked := by
  refine hsession.returns procedure _ (Value.inRange_map.mpr ?_)
  exact List.forall_mem_cons.mpr ⟨⟨Value.inRange_text _, Value.inRange_bytes _⟩, nofun⟩

theorem findRecords_ne_panicked (key : ByteArr 32) : findRecords session key ≠ .panicked := by
  refine Outcome.bind_ne_panicked ?_ fun resp _ => ?_
  · rw [Ne, Outcome.mapErr_eq_panicked]
    exact query_ne_panicked hsession _ key
  · unfold recordsListFromResponse
    split <;> nofun

theorem findRecords_inRange {key : ByteArr 32} {recs : List Record}
    (h : findRecords session key = .ok recs) : ∀ r ∈ recs, (envelope r).IntsInRange := by
  obtain ⟨resp, hresp, h⟩ := Outcome.bind_eq_ok.mp h
  rw [Outcome.mapErr_eq_ok] at hresp
  cases resp with
  | result payload respondedBy =>
      exact recordsListFromResponse_inRange (hsession.inRange _ _ _ _ hresp) h
  | error code name reportedBy detail => cases h

theorem findRecord_ne_panicked (key : ByteArr 32) : findRecord session key ≠ .panicked := by
  refine Outcome.bind_ne_panicked ?_ fun resp _ => ?_
  · rw [Ne, Outcome.mapErr_eq_panicked]
    exact query_ne_panicked hsession _ key
  · cases resp with
    | result payload respondedBy =>
        dsimp only
        split
        · nofun
        · rw [Ne, Outcome.mapErr_eq_panicked]
          exact recordFromRpcValue_ne_panicked payload
    | error code name reportedBy detail => nofun

theorem findRecord_inRange {key : ByteArr 32} {r : Record}
    (h : findRecord session key = .ok r) : (envelope r).IntsInRange := by
  obtain ⟨resp, hresp, h⟩ := Outcome.bind_eq_ok.mp h
  rw [Outcome.mapErr_eq_ok] at hresp
  cases resp with
  | result payload respondedBy =>
      dsimp only at h
      split at h
      · cases h
      · rw [Outcome.mapErr_eq_ok] at h
        exact recordFromRpcValue_inRange (hsession.inRange _ _ _ _ hresp) h
  | error code name reportedBy detail => cases h

end

theorem readStationEndpoint_ne_panicked (r : Record) : readStationEndpoint r ≠ .panicked := by
  unfold readStationEndpoint
  split
  · nofun
  · refine Outcome.bind_ne_panicked ?_ fun _ _ => nofun
    unfold quicPortField
    repeat' split
    all_goals nofun

end Dht

/-! ## Resolving -/

namespace DirectDial

section

variable {E : Ed25519} {sha256 : Bytes → ByteArr 32} {around : Surroundings}
variable (hsession : ∀ n, (around.session n).Sound)

include hsession

theorem advertised_ne_panicked (key : ByteArr 32) : ∀ retries n : Nat,
    advertised around key retries n ≠ .panicked := by
  intro retries
  induction retries with
  | zero =>
      intro _
      simp [advertised]
  | succ retries ih =>
      intro n
      rw [advertised]
      split
      · exact ih (n + 1)
      · simp
      · simp
      · next h => exact absurd h (Dht.findRecords_ne_panicked (hsession n) key)

theorem advertised_inRange {key : ByteArr 32} {retries n : Nat} {recs : List Dht.Record}
    (h : advertised around key retries n = .ok recs) :
    ∀ r ∈ recs, (Dht.envelope r).IntsInRange := by
  obtain ⟨-, m, -, hfound, -⟩ := advertised_eq_ok.mp h
  exact Dht.findRecords_inRange (hsession (n + m)) hfound

theorem stationEndpoint_ne_panicked (station : NodeId) : ∀ retries n : Nat,
    stationEndpoint E sha256 around station retries n ≠ .panicked := by
  intro retries
  induction retries with
  | zero =>
      intro _
      nofun
  | succ retries ih =>
      intro n
      rw [stationEndpoint]
      split
      · exact ih (n + 1)
      · simp
      · next h => exact absurd h (Dht.findRecord_ne_panicked (hsession n) _)
      · next r h =>
          have hrange := Dht.findRecord_inRange (hsession n) h
          split
          · simp
          · split
            · exact ih (n + 1)
            · simp
            · next hverify => exact absurd hverify (Dht.verify_ne_panicked E _ hrange)
            · refine Outcome.bind_ne_panicked ?_ fun ep _ => ?_
              · rw [Ne, Outcome.mapErr_eq_panicked]
                exact Dht.readStationEndpoint_ne_panicked r
              · exact Outcome.bind_ne_panicked Outcome.okOr_ne_panicked fun _ _ => by simp

/-- A resolution returns when its queries do. -/
theorem resolve_ne_panicked (realm : ByteArr 32) (procedure : String) :
    resolve E sha256 around realm procedure ≠ .panicked := by
  refine Outcome.bind_ne_panicked (advertised_ne_panicked hsession _ _ _) fun recs hrecs => ?_
  have hrange := advertised_inRange hsession hrecs
  refine Outcome.bind_ne_panicked (fun h => ?_) fun found _ => ?_
  · obtain ⟨k, r, hcomes, hpanic⟩ := Outcome.findFirst_eq_panicked.mp h
    exact trusted_ne_panicked (hrange r (List.mem_of_getElem? hcomes.get)) hpanic
  · refine Outcome.bind_ne_panicked Outcome.okOr_ne_panicked fun adv _ => ?_
    exact stationEndpoint_ne_panicked hsession adv.servingStation _ _

end

end DirectDial

/-! ## Dialing -/

namespace Connection

theorem readOneFrame_ne_panicked : ∀ {reads : List Read} {buf : Bytes},
    readOneFrame buf reads ≠ .panicked
  | reads, buf => by
      rw [readOneFrame.eq_def]
      split
      · simp
      · split
        · simp
        · exact readOneFrame_ne_panicked
        · simp
        · simp
      · simp
      · next hdecode => exact absurd hdecode (Frame.decode_ne_panicked buf)

/-- A dial returns. -/
theorem connect_ne_panicked {E : Ed25519} {sha256 : Bytes → ByteArr 32} {trust : Trust}
    {identity : KeyPair} {frameId : ByteArr 16} {sentAtMs : UInt64} {peer : Peer} :
    connect E sha256 trust identity frameId sentAtMs peer ≠ .panicked := by
  obtain ⟨signed, encoded, hsign, hencode⟩ :=
    connectFrame_sent E sha256 identity frameId sentAtMs
  have hencode' : (Frame.encode signed).mapErr HandshakeError.encode = .ok encoded :=
    Outcome.mapErr_eq_ok.mpr hencode
  rw [connect, connectInner, hsign, Outcome.ok_bind, hencode', Outcome.ok_bind]
  repeat' split
  · simp
  · simp
  · simp
  · simp
  · refine Outcome.bind_ne_panicked readOneFrame_ne_panicked fun first hfirst => ?_
    obtain ⟨hello, buf⟩ := first
    have hrange := (readOneFrame_fits hfirst).encodable.ints
    refine Outcome.bind_ne_panicked ?_ fun _ _ => by simp
    refine Outcome.bind_ne_panicked ?_ fun station _ => ?_
    · rw [Ne, Outcome.mapErr_eq_panicked]
      exact Frame.parseHello_ne_panicked hello
    · refine Outcome.bind_ne_panicked ?_ fun _ _ => by split <;> simp
      rw [Ne, Outcome.mapErr_eq_panicked]
      exact Frame.verify_ne_panicked E hrange station.nodeId

end Connection

/-! ## A direct call -/

namespace DirectDial

inductive CallError where
  | resolve (e : ResolveError)
  | dial (e : HandshakeError)
  | trustViolation (resolved dialed : NodeId)
  | call (e : Connection.CallError)
deriving DecidableEq

/-- What a direct call meets. -/
structure CallMeets where
  /-- The `n`-th query of each kind. -/
  query : Nat → String → Dht.Query
  checkedAt : Nat → Int × Int
  endpointAt : Nat → Int
  /-- Who answers at a host and a port. -/
  peer : String → UInt16 → Peer
  connectId : ByteArr 16
  connectSentAtMs : UInt64
  /-- Whether `timeout` passes before the dial returns. -/
  expires : Bool
  now : UnixMillis
  wire : CallWire
  goodbyeId : ByteArr 16
  goodbyeSentAtMs : UInt64

section

variable (E : Ed25519) (sha256 : Bytes → ByteArr 32) (text : Connection.CallError → String)
variable (resolveVia : Connection.Session) (id : KeyPair) (realm : ByteArr 32)
variable (procedure : String) (payload : Value) (timeout : Duration) (meets : CallMeets)

def CallMeets.around : Surroundings where
  session n := Dht.querying E text id resolveVia (meets.query n)
  checkedAt := meets.checkedAt
  endpointAt := meets.endpointAt

/-- `tokio::time::timeout(timeout, connection::connect(..))`. -/
def CallMeets.dial (resolved : Resolved) : Outcome HandshakeError Connection.Session :=
  if meets.expires then .err .timeout
  else Connection.connect E sha256 .insecure id meets.connectId meets.connectSentAtMs
    (meets.peer resolved.host resolved.port)

def call : Outcome CallError CallResponse := do
  let around := meets.around E text resolveVia id
  let resolved ← (resolve E sha256 around realm procedure).mapErr .resolve
  let target ← (meets.dial E sha256 id resolved).mapErr .dial
  let dialed := target.station.nodeId
  if dialed ≠ resolved.station then do
    Connection.Session.close E id "trust_violation" none meets.goodbyeId meets.goodbyeSentAtMs
    .err (.trustViolation resolved.station dialed)
  else
    let deadlineMs := meets.now.plus timeout
    let result := target.call E text id procedure realm payload deadlineMs meets.wire
    (result.mapErr .call).after fun _ =>
      Connection.Session.close E id "normal" none meets.goodbyeId meets.goodbyeSentAtMs

/-- The call gets as far as its CALL. -/
def Reaches : Prop :=
  ∃ resolved target, resolve E sha256 (meets.around E text resolveVia id) realm procedure =
      .ok resolved ∧
    meets.dial E sha256 id resolved = .ok target ∧ target.station.nodeId = resolved.station

variable {E sha256 text resolveVia id realm procedure payload timeout meets}

theorem CallMeets.dial_ne_panicked (resolved : Resolved) :
    meets.dial E sha256 id resolved ≠ .panicked := by
  unfold CallMeets.dial
  split
  · nofun
  · exact Connection.connect_ne_panicked

/-- *A direct call panics exactly when it gets as far as its CALL, and the payload or the deadline
of that CALL is out of range.* -/
theorem call_eq_panicked :
    call E sha256 text resolveVia id realm procedure payload timeout meets = .panicked ↔
      Reaches E sha256 text resolveVia id realm procedure meets ∧
        ¬ (payload.IntsInRange ∧ meets.now.ms + timeout.asMillis < 2 ^ 64) := by
  have hqueries : ∀ n, ((meets.around E text resolveVia id).session n).Sound :=
    fun n => Dht.querying_sound
  have hresolve : resolve E sha256 (meets.around E text resolveVia id) realm procedure ≠
      .panicked := resolve_ne_panicked hqueries realm procedure
  rw [← Dht.intOk_plus]
  constructor
  · intro h
    rcases Outcome.bind_eq_panicked.mp h with h | ⟨resolved, hresolved, h⟩
    · exact absurd (Outcome.mapErr_eq_panicked.mp h) hresolve
    rcases Outcome.bind_eq_panicked.mp h with h | ⟨target, htarget, h⟩
    · exact absurd (Outcome.mapErr_eq_panicked.mp h) (CallMeets.dial_ne_panicked resolved)
    rw [Outcome.mapErr_eq_ok] at hresolved htarget
    dsimp only at h
    split at h
    · rw [Connection.Session.close_eq_ok, Outcome.ok_bind] at h
      cases h
    · next hsame =>
        rw [Outcome.after_eq fun _ => Connection.Session.close_eq_ok ..,
          Outcome.mapErr_eq_panicked] at h
        exact ⟨⟨resolved, target, hresolved, htarget, not_not.mp hsame⟩,
          Connection.Session.call_eq_panicked.mp h⟩
  · rintro ⟨⟨resolved, target, hresolved, htarget, hsame⟩, hbad⟩
    refine Outcome.bind_eq_panicked.mpr (.inr ⟨resolved, Outcome.mapErr_eq_ok.mpr hresolved, ?_⟩)
    refine Outcome.bind_eq_panicked.mpr (.inr ⟨target, Outcome.mapErr_eq_ok.mpr htarget, ?_⟩)
    dsimp only
    rw [if_neg (not_not.mpr hsame), Outcome.after_eq fun _ => Connection.Session.close_eq_ok ..,
      Outcome.mapErr_eq_panicked]
    exact Connection.Session.call_eq_panicked.mpr hbad

end

/-! ## A direct advertisement -/

inductive AdvertiseDirectError where
  | advertise (e : Connection.SendFrameError)
  | dht (e : Dht.DhtError)
deriving DecidableEq

/-- What a direct advertisement meets. -/
structure AdvertiseMeets where
  advertise : FrameWire
  now : UnixMillis
  version : ByteArr 16
  putAt : UnixMillis
  put : CallWire

section

variable (E : Ed25519) (text : Connection.CallError → String) (session : Connection.Session)
variable (id : KeyPair) (realm : ByteArr 32) (procedure : String) (ttl : Duration)
variable (meets : AdvertiseMeets)

/-- The ADVERTISE that comes first. -/
def sendAdvertise : Outcome Connection.SendFrameError Unit :=
  Connection.Session.advertise E id { realm, procedure, advertiser := id.nodeId E }
    meets.advertise

def advertiseDirect : Outcome AdvertiseDirectError Unit := do
  (sendAdvertise E id realm procedure meets).mapErr .advertise
  let uri := Dht.discoveryUri realm procedure
  let fresh : Dht.Fresh := { now := meets.now.ms, version := meets.version }
  let unsigned :=
    Dht.newProcedureAdvertisement (id.nodeId E) uri session.station.nodeId ttl fresh
  let signed ← Dht.sign E unsigned id
  let query : Dht.Query := { buf := session.buf, now := meets.putAt, wire := meets.put }
  (Dht.putRecord (Dht.querying E text id session fun _ => query) signed).mapErr .dht

variable {E text session id realm procedure ttl meets}

/-- An advertisement can be signed exactly when its expiry is in range. -/
theorem newProcedureAdvertisement_inRange {uri : String} {now : UnixMillis}
    {version : ByteArr 16} {advertiser station : NodeId} :
    (Dht.envelope (Dht.newProcedureAdvertisement advertiser uri station ttl
      { now := now.ms, version })).IntsInRange ↔ now.ms + ttl.asMillis < 2 ^ 64 := by
  have hnow := now.lt
  have hcreated : Cbor.IntOk (.int now.ms) := ⟨by omega, by omega⟩
  have hpayload : (Value.map
      [(.text "procedure_uri", .text uri), (.text "advertiser_node", .bytes advertiser.1),
        (.text "serving_station", .bytes station.1)]).IntsInRange := by
    simp [Value.inRange_map]
  rw [Dht.envelope_inRange_iff]
  change Cbor.IntOk (.int now.ms) ∧
    Cbor.IntOk (.int (now.plus (if ttl.isZero then Dht.DEFAULT_TTL else ttl))) ∧ _ ↔ _
  rw [Dht.intOk_plus]
  split
  · next hzero =>
      -- the default is a matter of days
      have hdefault : Dht.DEFAULT_TTL.asMillis = 172800000 := by decide
      rw [hdefault, Duration.asMillis_of_isZero hzero]
      exact ⟨fun _ => by omega, fun _ => ⟨hcreated, by omega, hpayload⟩⟩
  · exact ⟨fun h => h.2.1, fun h => ⟨hcreated, h, hpayload⟩⟩

/-- *A direct advertisement panics exactly when its ADVERTISE is sent and the expiry of its
record is out of range.* -/
theorem advertiseDirect_eq_panicked :
    advertiseDirect E text session id realm procedure ttl meets = .panicked ↔
      sendAdvertise E id realm procedure meets = .ok () ∧
        ¬ meets.now.ms + ttl.asMillis < 2 ^ 64 := by
  have hadvertise : sendAdvertise E id realm procedure meets ≠ .panicked :=
    Connection.Session.advertise_ne_panicked _ _
  constructor
  · intro h
    rcases Outcome.bind_eq_panicked.mp h with h | ⟨⟨⟩, hsent, h⟩
    · exact absurd (Outcome.mapErr_eq_panicked.mp h) hadvertise
    refine ⟨Outcome.mapErr_eq_ok.mp hsent, fun hrange => ?_⟩
    rcases Outcome.bind_eq_panicked.mp h with h | ⟨signed, hsigned, h⟩
    · exact Dht.sign_eq_panicked.mp h (newProcedureAdvertisement_inRange.mpr hrange)
    · exact Dht.putRecord_ne_panicked Dht.querying_sound (Dht.sign_inRange hsigned)
        (Outcome.mapErr_eq_panicked.mp h)
  · rintro ⟨hsent, hrange⟩
    refine Outcome.bind_eq_panicked.mpr (.inr ⟨(), Outcome.mapErr_eq_ok.mpr hsent, ?_⟩)
    refine Outcome.bind_eq_panicked.mpr (.inl (Dht.sign_eq_panicked.mpr fun h => hrange ?_))
    exact newProcedureAdvertisement_inRange.mp h

end

end DirectDial

end Macula
