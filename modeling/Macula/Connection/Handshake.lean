import Macula.Frame.Frames
import Macula.Frame.Hello

/-!
# The handshake

A client dials, sends a signed CONNECT and waits for one frame, the HELLO.  The peer and the
network are a `Peer`: how the TLS handshake ends, and every byte the client reads, in the
pieces it reads them.

A HELLO is checked against itself: it must be signed by the identity it names.  Nothing in it
refers to the CONNECT it answers and nothing compares it with the trust the TLS handshake was
given.  So an accepted HELLO was signed by the station it names at some time
(`hello_was_signed`), and the station need be neither this run's peer nor the pinned one
(`pinned_iff`).

The errors of the transport are opaque to the crate, so each is one constructor.
-/

namespace Macula.Connection

open Macula.Cbor (Value)
open Macula.Frame (HelloInfo)

/-- How a station's certificate is checked. -/
inductive Trust where
  /-- The certificate has to hold this key. -/
  | pinned (pubkey : NodeId)
  | webPki
  | insecure
deriving DecidableEq

inductive HandshakeError where
  | transport
  | openStream
  | write
  | read
  | streamClosed
  | timeout
  | encode (e : Frame.EncodeFrameError)
  | decode (e : Frame.DecodeFrameError)
  | unexpectedFrameType (e : Frame.ParseHelloError)
  | signatureInvalid (e : Frame.VerifyError)
  | refused (refusalCode : Option Int)
deriving DecidableEq

/-- How one `read` of the stream returns. -/
inductive Read where
  | data (chunk : Bytes)
  | closed
  | failed
deriving DecidableEq

/-- The far end of one dial, and the network on the way. -/
structure Peer where
  /-- The Ed25519 key of the certificate whose private key signs the TLS handshake, if the
  certificate has one. -/
  tlsKey : Option NodeId
  /-- Whether the certificate passes for the host under the CA bundle. -/
  caTrusted : Bool
  /-- Whether the QUIC handshake goes through, apart from the certificate. -/
  reachable : Bool
  opensStream : Bool
  takesConnect : Bool
  /-- What the reads return.  After the last one nothing arrives any more. -/
  reads : List Read
  /-- Whether `HANDSHAKE_TIMEOUT` passes first. -/
  expires : Bool

/-- `PubkeyPinVerifier::verify_server_cert`, on the key of the presented certificate. -/
def verifyServerCert (pinned : NodeId) (presented : Option NodeId) : Bool := presented = some pinned

/-- Whether the certificate check of `client_config` passes. -/
def Peer.passes (peer : Peer) : Trust → Bool
  | .pinned pubkey => verifyServerCert pubkey peer.tlsKey
  | .webPki => peer.caTrusted
  | .insecure => true

/-- Read until one frame is decoded, and return it with the bytes that follow it. -/
def readOneFrame (buf : Bytes) (reads : List Read) : Outcome HandshakeError (Value × Bytes) :=
  match Frame.decode buf with
  | .ok (.frame v consumed) => .ok (v, buf.drop consumed)
  | .ok (.more _) =>
      match reads with
      | [] => .err .timeout
      | .data chunk :: reads => readOneFrame (buf ++ chunk) reads
      | .closed :: _ => .err .streamClosed
      | .failed :: _ => .err .read
  | .err e => .err (.decode e)
  | .panicked => .panicked

/-- A handshaked connection: the station of the HELLO, and the bytes read beyond it. -/
structure Session where
  station : HelloInfo
  buf : Bytes
deriving DecidableEq

/-- What comes of the first frame. -/
def checkHello (E : Ed25519) (hello : Value) : Outcome HandshakeError HelloInfo := do
  let station ← (Frame.parseHello hello).mapErr .unexpectedFrameType
  (Frame.verify E hello station.nodeId).mapErr .signatureInvalid
  if station.accepted then return station else .err (.refused station.refusalCode)

section

variable (E : Ed25519) (sha256 : Bytes → ByteArr 32) (trust : Trust) (identity : KeyPair)
variable (frameId : ByteArr 16) (sentAtMs : UInt64) (peer : Peer)

/-- The CONNECT of a dial, before it is signed. -/
def connectFrame : Value :=
  let nodeId := identity.nodeId E
  Frame.connect (.new nodeId (sha256 nodeId.1)) frameId sentAtMs

def connectInner : Outcome HandshakeError Session :=
  if !(peer.reachable && peer.passes trust) then .err .transport
  else if !peer.opensStream then .err .openStream
  else do
    let connect ← Frame.sign E (connectFrame E sha256 identity frameId sentAtMs) identity
    let _encoded ← (Frame.encode connect).mapErr .encode
    if !peer.takesConnect then .err .write
    else
      let (hello, buf) ← readOneFrame [] peer.reads
      let station ← checkHello E hello
      return { station, buf }

def connect : Outcome HandshakeError Session :=
  if peer.expires then .err .timeout
  else connectInner E sha256 trust identity frameId sentAtMs peer

end

/-! ## The first frame -/

theorem readOneFrame_fits : ∀ {reads : List Read} {buf rest : Bytes} {v : Value},
    readOneFrame buf reads = .ok (v, rest) → Cbor.Fits 0 v
  | reads, buf, rest, v, h => by
      rw [readOneFrame.eq_def] at h
      split at h
      · next w consumed hdecode =>
          cases h
          exact Frame.decode_frame_fits hdecode
      · split at h
        · cases h
        · exact readOneFrame_fits h
        · cases h
        · cases h
      · cases h
      · cases h

theorem checkHello_eq_ok {E : Ed25519} {hello : Value} {station : HelloInfo} :
    checkHello E hello = .ok station ↔ Frame.parseHello hello = .ok station ∧
      Frame.verify E hello station.nodeId = .ok () ∧ station.accepted = true := by
  constructor
  · intro h
    obtain ⟨info, hparse, h⟩ := Outcome.bind_eq_ok.mp h
    obtain ⟨⟨⟩, hverify, h⟩ := Outcome.bind_eq_ok.mp h
    split at h
    · next haccepted =>
        obtain rfl := Outcome.ok.inj h
        exact ⟨Outcome.mapErr_eq_ok.mp hparse, Outcome.mapErr_eq_ok.mp hverify, haccepted⟩
    · cases h
  · rintro ⟨hparse, hverify, haccepted⟩
    have hparse' : (Frame.parseHello hello).mapErr HandshakeError.unexpectedFrameType =
        .ok station := Outcome.mapErr_eq_ok.mpr hparse
    have hverify' : (Frame.verify E hello station.nodeId).mapErr HandshakeError.signatureInvalid =
        .ok () := Outcome.mapErr_eq_ok.mpr hverify
    rw [checkHello, hparse', Outcome.ok_bind, hverify', Outcome.ok_bind, if_pos haccepted]
    rfl

/-! ## The CONNECT -/

section

variable (E : Ed25519) (sha256 : Bytes → ByteArr 32) (identity : KeyPair)
variable (frameId : ByteArr 16) (sentAtMs : UInt64)

theorem connectFrame_inRange :
    (connectFrame E sha256 identity frameId sentAtMs).IntsInRange := by
  have hbase := Value.inRange_map.mp (Frame.base_inRange "connect" 0 frameId sentAtMs)
  refine Value.inRange_map.mpr (List.forall_mem_append.mpr ⟨hbase, ?_⟩)
  simp [Frame.ConnectSpec.new, Frame.bytes32List, Value.inRange_list]

theorem length_signed_connectFrame (sig : ByteArr 64) :
    (Cbor.canon ((connectFrame E sha256 identity frameId sentAtMs).withField "signature"
      (.bytes sig.1))).length ≤ Frame.MAX_FRAME_BYTES := by
  change (Cbor.canon (.map
    [(.text "version", .int Frame.PROTOCOL_VERSION), (.text "frame_type", .text "connect"),
     (.text "frame_id", .bytes frameId.1), (.text "sent_at_ms", .int sentAtMs.toNat),
     (.text "capabilities", .int 0), (.text "realm", .null), (.text "call_id", .null),
     (.text "source_route", .null), (.text "node_id", .bytes (identity.nodeId E).1),
     (.text "station_id", .bytes (identity.nodeId E).1), (.text "realms", .list []),
     (.text "addresses", .list []), (.text "site", .null),
     (.text "puzzle_evidence", .bytes (sha256 (identity.nodeId E).1).1),
     (.text "endorsements", .list []), (.text "signature", .bytes sig.1)])).length ≤ _
  have htime := Cbor.length_canon_int_le sentAtMs.toNat
  rw [Cbor.length_canon_map]
  simp only [List.map_cons, List.map_nil, List.sum_cons, List.sum_nil, Cbor.length_canon_arr]
  generalize (Cbor.canon (.int sentAtMs.toNat)).length = t at htime ⊢
  change 1 + (8 + 1 + (11 + 8 + (9 + (1 + 16) + (11 + t + (13 + 1 + (6 + 1 + (8 + 1 + (13 + 1 +
    (8 + (2 + 32) + (11 + (2 + 32) + (7 + 1 + (10 + 1 + (5 + 1 + (16 + (2 + 32) + (13 + 1 +
      (10 + (2 + 64) + 0)))))))))))))))) ≤ 16777215
  omega

/-- The CONNECT of a dial can always be signed and encoded. -/
theorem connectFrame_sent : ∃ signed encoded,
    (Frame.sign E (connectFrame E sha256 identity frameId sentAtMs) identity :
      Outcome HandshakeError Value) = .ok signed ∧ Frame.encode signed = .ok encoded := by
  have hrange := connectFrame_inRange E sha256 identity frameId sentAtMs
  obtain ⟨sig, hsig⟩ := Frame.sign_of_inRange (ε := HandshakeError) E hrange identity
  refine ⟨_, _, hsig, Frame.encode_eq_ok.mpr ⟨?_, ?_, rfl⟩⟩
  · exact Value.inRange_withField hrange (Value.inRange_bytes _)
  · exact length_signed_connectFrame E sha256 identity frameId sentAtMs sig

/-- A dial goes through exactly when the peer lets it and its first frame passes. -/
theorem connectInner_eq_ok {trust : Trust} {peer : Peer} {session : Session} :
    connectInner E sha256 trust identity frameId sentAtMs peer = .ok session ↔
      (peer.reachable = true ∧ peer.passes trust = true ∧ peer.opensStream = true ∧
        peer.takesConnect = true) ∧
      ∃ hello, readOneFrame [] peer.reads = .ok (hello, session.buf) ∧
        checkHello E hello = .ok session.station := by
  obtain ⟨signed, encoded, hsign, hencode⟩ := connectFrame_sent E sha256 identity frameId sentAtMs
  have hencode' : (Frame.encode signed).mapErr HandshakeError.encode = .ok encoded :=
    Outcome.mapErr_eq_ok.mpr hencode
  rw [connectInner, hsign, Outcome.ok_bind, hencode', Outcome.ok_bind]
  constructor
  · intro h
    split at h
    · cases h
    · next hreach =>
        split at h
        · cases h
        · next hopens =>
            split at h
            · cases h
            · next htakes =>
                obtain ⟨⟨hello, buf⟩, hread, h⟩ := Outcome.bind_eq_ok.mp h
                obtain ⟨station, hcheck, h⟩ := Outcome.bind_eq_ok.mp h
                obtain rfl := Outcome.ok.inj h
                simp only [Bool.not_eq_true, Bool.not_eq_false', Bool.and_eq_true]
                  at hreach hopens htakes
                exact ⟨⟨hreach.1, hreach.2, hopens, htakes⟩, hello, hread, hcheck⟩
  · rintro ⟨⟨hreach, hpasses, hopens, htakes⟩, hello, hread, hcheck⟩
    simp only [hreach, hpasses, hopens, htakes, Bool.and_self, Bool.not_true, Bool.false_eq_true,
      if_false, hread, hcheck, Outcome.ok_bind, Outcome.pure_eq]

end

/-! ## Who signed the HELLO -/

/-- A handshake that the station has answered. -/
structure Exchange where
  connect : Value
  hello : Value
  encoded : Bytes
  sent : Frame.encode hello = .ok encoded

/-- Nobody signs without the key: when the first frame of the peer verifies under the station,
the station has signed the same bytes in one of its handshakes. -/
def Unforged (E : Ed25519) (station : NodeId) (history : List Exchange) (peer : Peer) : Prop :=
  ∀ hello rest msg, readOneFrame [] peer.reads = .ok (hello, rest) →
    Frame.verify E hello station = .ok () →
    (Frame.signableBytes hello : Outcome HandshakeError Bytes) = .ok msg →
    ∃ exchange ∈ history,
      (Frame.signableBytes exchange.hello : Outcome HandshakeError Bytes) = .ok msg

section

variable {E : Ed25519} {sha256 : Bytes → ByteArr 32} {trust : Trust} {identity : KeyPair}
variable {frameId : ByteArr 16} {sentAtMs : UInt64} {peer : Peer} {session : Session}

/-- **An accepted HELLO was signed by the station it names**, with everything the session takes
from it, in this handshake or in an earlier one. -/
theorem hello_was_signed {station : NodeId} {history : List Exchange}
    (hunforged : Unforged E station history peer)
    (h : connectInner E sha256 trust identity frameId sentAtMs peer = .ok session)
    (hstation : session.station.nodeId = station) :
    ∃ hello, readOneFrame [] peer.reads = .ok (hello, session.buf) ∧
      ∃ exchange ∈ history, Frame.signedContents exchange.hello = Frame.signedContents hello ∧
        Frame.parseHello exchange.hello = .ok session.station ∧
        session.station.accepted = true := by
  obtain ⟨-, hello, hread, hcheck⟩ := (connectInner_eq_ok ..).mp h
  obtain ⟨hparse, hverify, haccepted⟩ := checkHello_eq_ok.mp hcheck
  rw [hstation] at hverify
  obtain ⟨sig, msg, -, hmsg, -⟩ := (Frame.verify_eq_ok E).mp hverify
  have hmsg' : (Frame.signableBytes hello : Outcome HandshakeError Bytes) = .ok msg :=
    Frame.signableBytes_eq_ok.mpr (Frame.signableBytes_eq_ok.mp hmsg)
  obtain ⟨exchange, hexchange, hsigned⟩ := hunforged hello session.buf msg hread hverify hmsg'
  have hfits := readOneFrame_fits hread
  obtain ⟨-, hlen, -⟩ := Frame.encode_eq_ok.mp exchange.sent
  have hsized : exchange.hello.Sized :=
    Value.sized_of_length_canon (hlen.trans_lt (by decide))
  refine ⟨hello, hread, exchange, hexchange, ?_, ?_, haccepted⟩
  · exact (Frame.signedContents_congr hmsg' hsigned hfits.encodable.sized hsized).symm
  · rw [← Frame.parseHello_congr hmsg' hsigned hfits.encodable.sized hsized hfits.distinct]
    exact hparse

/-- The first frame is a HELLO that passes, in the name of another node than `pubkey`. -/
def Peer.NamesAnother (E : Ed25519) (peer : Peer) (pubkey : NodeId) : Prop :=
  ∃ hello rest info, readOneFrame [] peer.reads = .ok (hello, rest) ∧
    Frame.parseHello hello = .ok info ∧ Frame.verify E hello info.nodeId = .ok () ∧
    info.accepted = true ∧ info.nodeId ≠ pubkey

/-- *The pinned key and the proven identity agree only if the peer chooses so.*  Every session
of a dial that pins `pubkey` names `pubkey` if and only if the dial does not get as far as a
passing HELLO in the name of another node. -/
theorem pinned_iff {pubkey : NodeId} :
    (∀ session, connect E sha256 (.pinned pubkey) identity frameId sentAtMs peer = .ok session →
      session.station.nodeId = pubkey) ↔
    ¬ ((peer.expires = false ∧ peer.reachable = true ∧ peer.tlsKey = some pubkey ∧
        peer.opensStream = true ∧ peer.takesConnect = true) ∧ peer.NamesAnother E pubkey) := by
  have hpasses : peer.passes (.pinned pubkey) = true ↔ peer.tlsKey = some pubkey :=
    decide_eq_true_iff
  constructor
  · rintro h ⟨⟨hexpires, hreach, hkey, hopens, htakes⟩, hello, rest, info, hread, hparse, hverify,
      haccepted, hne⟩
    have hinner : connectInner E sha256 (.pinned pubkey) identity frameId sentAtMs peer =
        .ok ⟨info, rest⟩ :=
      (connectInner_eq_ok ..).mpr ⟨⟨hreach, hpasses.mpr hkey, hopens, htakes⟩, hello, hread,
        checkHello_eq_ok.mpr ⟨hparse, hverify, haccepted⟩⟩
    refine hne (h ⟨info, rest⟩ ?_)
    rw [connect, hexpires]
    exact hinner
  · intro h session hsession
    rw [connect] at hsession
    split at hsession
    · cases hsession
    · next hexpires =>
        obtain ⟨⟨hreach, hpass, hopens, htakes⟩, hello, hread, hcheck⟩ :=
          (connectInner_eq_ok ..).mp hsession
        obtain ⟨hparse, hverify, haccepted⟩ := checkHello_eq_ok.mp hcheck
        by_contra hne
        exact h ⟨⟨Bool.eq_false_iff.mpr hexpires, hreach, hpasses.mp hpass, hopens, htakes⟩,
          hello, session.buf, session.station, hread, hparse, hverify, haccepted, hne⟩

end

/-! ## Two dials -/

def dialer : KeyPair := ⟨.fill 1⟩
def station : KeyPair := ⟨.fill 2⟩

/-- The HELLO with which a station accepts. -/
def acceptingHello : Value :=
  let nodeId := (station.nodeId .standIn).1
  .map (Frame.base "hello" 0 (.fill 3) 0 ++
    [(.text "node_id", .bytes nodeId), (.text "station_id", .bytes nodeId),
     (.text "realms", .list []), (.text "accepted", .text "true"),
     (.text "negotiated_capabilities", .int 0), (.text "refusal_code", .null)])

def signedHello : Value :=
  (Frame.sign .standIn acceptingHello station : Outcome HandshakeError Value).toOption.getD .null

def helloBytes : Bytes := (Frame.encode signedHello).toOption.getD []

/-- Some hash. -/
def someHash (_ : Bytes) : ByteArr 32 := .fill 0

/-- The CONNECT of the dialer with one frame id, signed. -/
def dialerConnect (frameId : ByteArr 16) : Value :=
  (Frame.sign .standIn (connectFrame .standIn someHash dialer frameId 0) dialer :
    Outcome HandshakeError Value).toOption.getD .null

/-- The station's answer to the first CONNECT of the dialer. -/
def answered : Exchange :=
  ⟨dialerConnect (.fill 0), signedHello, helloBytes, by decide +kernel⟩

/-- A peer that holds the key `tlsKey` and sends the station's HELLO. -/
def replayer (tlsKey : Option NodeId) : Peer :=
  ⟨tlsKey, false, true, true, true, [.data helloBytes], false⟩

/-- What a session takes from the station's HELLO. -/
def stationInfo : HelloInfo :=
  let nodeId := station.nodeId .standIn
  ⟨nodeId, nodeId, [], 0, true, 0, none⟩

theorem readOneFrame_replayer (tlsKey : Option NodeId) :
    readOneFrame [] (replayer tlsKey).reads = .ok (signedHello.sorted, []) := by
  change readOneFrame [] [.data helloBytes] = _
  decide +kernel

theorem checkHello_signedHello :
    checkHello .standIn signedHello.sorted = .ok stationInfo := by
  decide +kernel

/-- The station's HELLO is accepted on every dial that gets as far. -/
theorem connectInner_replayer {trust : Trust} {tlsKey : Option NodeId}
    (h : (replayer tlsKey).passes trust = true) (frameId : ByteArr 16) :
    connectInner .standIn someHash trust dialer frameId 0 (replayer tlsKey) =
      .ok ⟨stationInfo, []⟩ :=
  (connectInner_eq_ok ..).mpr
    ⟨⟨rfl, h, rfl, rfl⟩, _, readOneFrame_replayer tlsKey, checkHello_signedHello⟩

theorem unforged_replayer (tlsKey : Option NodeId) :
    Unforged .standIn (station.nodeId .standIn) [answered] (replayer tlsKey) := by
  intro hello rest msg hread _ hmsg
  rw [readOneFrame_replayer] at hread
  cases hread
  refine ⟨answered, List.mem_singleton.mpr rfl, ?_⟩
  rw [← hmsg]
  change (Frame.signableBytes signedHello : Outcome HandshakeError Bytes) =
    Frame.signableBytes signedHello.sorted
  decide +kernel

/-- The HELLO that answered one CONNECT passes as the answer to the next. -/
theorem replayed_hello_passes :
    Unforged .standIn (station.nodeId .standIn) [answered] (replayer none) ∧
    connectInner .standIn someHash .insecure dialer ⟨.replicate 16 1, rfl⟩ 0 (replayer none) =
      .ok ⟨stationInfo, []⟩ ∧
    stationInfo.nodeId = station.nodeId .standIn ∧
    ¬ ∃ exchange ∈ [answered], exchange.connect = dialerConnect ⟨.replicate 16 1, rfl⟩ := by
  refine ⟨unforged_replayer none, connectInner_replayer rfl _, rfl, ?_⟩
  rintro ⟨exchange, hexchange, hconnect⟩
  rw [List.mem_singleton.mp hexchange] at hconnect
  revert hconnect
  decide +kernel

theorem replayed_hello_was_signed :
    ∃ hello, readOneFrame [] (replayer none).reads = .ok (hello, []) ∧
      ∃ exchange ∈ [answered], Frame.signedContents exchange.hello = Frame.signedContents hello ∧
        Frame.parseHello exchange.hello = .ok stationInfo ∧ stationInfo.accepted = true := by
  have hpasses : (replayer none).passes .insecure = true := rfl
  exact hello_was_signed (unforged_replayer none)
    (connectInner_replayer hpasses ⟨.replicate 16 1, rfl⟩) rfl

/-- The holder of the pinned key passes for the station whose HELLO it has. -/
theorem pinned_peer_names_another :
    ∃ (pubkey : NodeId) (peer : Peer) (session : Session),
      connect .standIn someHash (.pinned pubkey) dialer ⟨.replicate 16 1, rfl⟩ 0 peer =
        .ok session ∧ session.station.nodeId ≠ pubkey := by
  let pubkey : NodeId := ⟨.replicate 32 5, rfl⟩
  have hpasses : (replayer (some pubkey)).passes (.pinned pubkey) = true := by decide
  exact ⟨pubkey, replayer (some pubkey), ⟨stationInfo, []⟩,
    connectInner_replayer hpasses _, by decide⟩

end Macula.Connection
