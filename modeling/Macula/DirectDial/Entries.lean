import Macula.Content.Put
import Macula.DirectDial.Call
import Macula.DirectDial.SeedUrl
import Macula.Lib.Logged
import Macula.StreamHandle

/-!
# The entry points of direct dialing

Seven functions resolve a station and go to it in one hop: three that call a procedure, two
that open a stream, one that stores content and one that fetches it.  Each of them dials
without a check of the certificate, and compares the identity that the HELLO proves with the
key of the station that was resolved.  The calls make the comparison themselves, the others
leave it to `dialAndVerify`.

An entry point leaves a log of the dials it makes and of what it does with the sessions it
gets.  `wellDirected` is about every log: a host and port are dialed that a verified record of
the resolved station names, and a request goes only to a session of such a dial whose HELLO
verified under the key of that station.
-/

namespace Macula.DirectDial.Entries

open Macula.Cbor (Value)
open Macula.Connection (CallWire FrameWire HandshakeError)
open Macula.Frame (CallResponse StreamMode)

/-! ## What is logged -/

inductive Request where
  | call
  | streamOpen
  /-- The `_content` calls of one transfer. -/
  | content
deriving DecidableEq

inductive Act where
  /-- `connection::connect(host, port, ..)`, for the sake of `station`. -/
  | dial (station : NodeId) (host : String) (port : UInt16)
  /-- A request on a session, whether or not it gets as far as the wire. -/
  | request (target : Connection.Session) (r : Request)
  | goodbye (target : Connection.Session) (reason : String)
deriving DecidableEq

/-- What an entry point meets. -/
structure Meets (σ : Type) extends CallMeets where
  /-- Whether the connection gives a new stream. -/
  opens : Bool
  streamId : ByteArr 16
  streamOpen : FrameWire
  /-- The peer of a session as a store of content. -/
  station : Connection.Session → Content.Station σ
  store : σ
  putAt : UInt64

/-! ## Errors -/

inductive DialAndVerifyError where
  | dial (e : HandshakeError)
  | trustViolation (resolved dialed : NodeId)
deriving DecidableEq

inductive OpenStreamDirectError where
  | resolve (e : ResolveError)
  | dial (e : DialAndVerifyError)
  | open (e : OpenError)
deriving DecidableEq

/-- `openStream` is the error of `content::put` when the connection gives no stream. -/
inductive PutDirectError where
  | resolve (e : ResolveError)
  | dial (e : DialAndVerifyError)
  | openStream
  | put (e : Content.PutError)
deriving DecidableEq

/-- `openStream` is the error of `content::get` when the connection gives no stream. -/
inductive GetDirectError where
  | dht (e : Dht.DhtError)
  | notAnnounced
  | endpointParse (endpoint : String)
  | dial (e : DialAndVerifyError)
  | openStream
  | get (e : Content.GetError)
deriving DecidableEq

/-! ## The entry points -/

section

variable (E : Ed25519) (X : CertChain.X509) (sha256 : Bytes → ByteArr 32) (H : Hashes)
variable (text : Connection.CallError → String) (resolveVia : Connection.Session) (id : KeyPair)
variable (timeout : Duration) {σ : Type} (meets : Meets σ)

def Meets.around : Surroundings := meets.toCallMeets.around E text resolveVia id

def dial (resolved : Resolved) : Logged Act HandshakeError Connection.Session :=
  .noted (.dial resolved.station resolved.host resolved.port)
    (meets.toCallMeets.dial E sha256 id resolved)

def close {ε : Type} (target : Connection.Session) (reason : String) : Logged Act ε Unit :=
  .noted (.goodbye target reason)
    (Connection.Session.close E id reason none meets.goodbyeId meets.goodbyeSentAtMs)

/-- The body of the three calls: `resolution` is how they resolve, `send` the CALL they send. -/
def callVia (resolution : Outcome ResolveError Resolved)
    (send : Connection.Session → Int → Outcome Connection.CallError CallResponse) :
    Logged Act CallError CallResponse := do
  let resolved ← .quiet (resolution.mapErr .resolve)
  let target ← (dial E sha256 id meets resolved).mapErr .dial
  let dialed := target.station.nodeId
  if dialed ≠ resolved.station then do
    close E id meets target "trust_violation"
    .quiet (.err (.trustViolation resolved.station dialed))
  else
    let deadlineMs := meets.now.plus timeout
    let result : Logged Act CallError CallResponse :=
      .noted (.request target .call) ((send target deadlineMs).mapErr .call)
    result.after (close E id meets target "normal")

def call (realm : ByteArr 32) (procedure : String) (payload : Value) :
    Logged Act CallError CallResponse :=
  callVia E sha256 id timeout meets
    (resolve E sha256 (meets.around E text resolveVia id) realm procedure)
    fun target deadlineMs =>
      target.call E text id procedure realm payload deadlineMs meets.wire

def callWithUcan (realm : ByteArr 32) (procedure : String) (payload : Value) (ucanToken : Bytes) :
    Logged Act CallError CallResponse :=
  callVia E sha256 id timeout meets
    (resolve E sha256 (meets.around E text resolveVia id) realm procedure)
    fun target deadlineMs =>
      target.callWithUcan E text id procedure realm payload deadlineMs ucanToken meets.wire

def callWithCertChain (realm : ByteArr 32) (procedure : String) (realmCaPem : Bytes)
    (expectedOrg : String) (payload : Value) : Logged Act CallError CallResponse :=
  callVia E sha256 id timeout meets
    (resolveWithCertChain E X sha256 (meets.around E text resolveVia id) realm procedure
      realmCaPem expectedOrg)
    fun target deadlineMs =>
      target.call E text id procedure realm payload deadlineMs meets.wire

def dialAndVerify (resolved : Resolved) : Logged Act DialAndVerifyError Connection.Session := do
  let target ← (dial E sha256 id meets resolved).mapErr .dial
  if target.station.nodeId ≠ resolved.station then do
    let dialed := target.station.nodeId
    close E id meets target "trust_violation"
    .quiet (.err (.trustViolation resolved.station dialed))
  else return target

/-- The body of the two that open a stream. -/
def openStreamVia (resolution : Outcome ResolveError Resolved) (realm : ByteArr 32)
    (procedure : String) (mode : StreamMode) (args : Value) (deadlineMs : Int) :
    Logged Act OpenStreamDirectError (Connection.Session × StreamHandle) := do
  let resolved ← .quiet (resolution.mapErr .resolve)
  let target ← (dialAndVerify E sha256 id meets resolved).mapErr .dial
  let opened : Logged Act OpenStreamDirectError StreamHandle :=
    .noted (.request target .streamOpen)
      ((StreamHandle.open E id procedure realm mode args deadlineMs meets.opens meets.streamId
        meets.streamOpen).mapErr .open)
  let handle ← opened.onErr (close E id meets target "normal")
  return (target, handle)

def openStreamDirect (realm : ByteArr 32) (procedure : String) (mode : StreamMode) (args : Value)
    (deadlineMs : Int) : Logged Act OpenStreamDirectError (Connection.Session × StreamHandle) :=
  openStreamVia E sha256 id meets
    (resolve E sha256 (meets.around E text resolveVia id) realm procedure)
    realm procedure mode args deadlineMs

def openStreamDirectWithCertChain (realm : ByteArr 32) (procedure : String) (realmCaPem : Bytes)
    (expectedOrg : String) (mode : StreamMode) (args : Value) (deadlineMs : Int) :
    Logged Act OpenStreamDirectError (Connection.Session × StreamHandle) :=
  openStreamVia E sha256 id meets
    (resolveWithCertChain E X sha256 (meets.around E text resolveVia id) realm procedure
      realmCaPem expectedOrg)
    realm procedure mode args deadlineMs

/-- `content::put`, on a stream of `target`. -/
def contentPut (target : Connection.Session) (data : Bytes) (name : AllocString) :
    Outcome PutDirectError Mcid :=
  if !meets.opens then .err .openStream
  else do
    let (mcid, _) ← (Content.put H (meets.station target) meets.store data name
      meets.putAt).mapErr .put
    return mcid

def putDirect (station : NodeId) (data : Bytes) (name : AllocString) :
    Logged Act PutDirectError Mcid := do
  let resolved ← .quiet ((resolveStationEndpoint E sha256 (meets.around E text resolveVia id)
    station).mapErr .resolve)
  let target ← (dialAndVerify E sha256 id meets resolved).mapErr .dial
  let result : Logged Act PutDirectError Mcid :=
    .noted (.request target .content) (contentPut H meets target data name)
  result.after (close E id meets target "normal")

/-- `content::get`, on a stream of `target`. -/
def contentGet (target : Connection.Session) (mcid : Mcid) : Outcome GetDirectError Bytes :=
  if !meets.opens then .err .openStream
  else do
    let (data, _) ← (Content.get H (meets.station target) meets.store mcid).mapErr .get
    return data

/-- The station that an announcement of the content names. -/
def resolveContent (mcid : Mcid) : Outcome GetDirectError Resolved := do
  let recs ← (Dht.findRecords ((meets.around E text resolveVia id).session 0)
    (Dht.contentKey sha256 mcid)).mapErr .dht
  let found ← firstTrustedContentProvider E (fun i => (meets.checkedAt i).1) recs
  let adv ← .okOr .notAnnounced found
  let (host, port) ← .okOr (.endpointParse adv.endpoint) (parseSeedUrl adv.endpoint)
  return { station := adv.announcerNode, host, port }

def getDirect (mcid : Mcid) : Logged Act GetDirectError Bytes := do
  let resolved ← .quiet (resolveContent E sha256 text resolveVia id meets mcid)
  let target ← (dialAndVerify E sha256 id meets resolved).mapErr .dial
  let result : Logged Act GetDirectError Bytes :=
    .noted (.request target .content) (contentGet H meets target mcid)
  result.after (close E id meets target "normal")

/-- One of the entry points, with its arguments. -/
inductive Entry where
  | call (realm : ByteArr 32) (procedure : String) (payload : Value)
  | callWithUcan (realm : ByteArr 32) (procedure : String) (payload : Value) (ucanToken : Bytes)
  | callWithCertChain (realm : ByteArr 32) (procedure : String) (realmCaPem : Bytes)
      (expectedOrg : String) (payload : Value)
  | openStreamDirect (realm : ByteArr 32) (procedure : String) (mode : StreamMode) (args : Value)
      (deadlineMs : Int)
  | openStreamDirectWithCertChain (realm : ByteArr 32) (procedure : String) (realmCaPem : Bytes)
      (expectedOrg : String) (mode : StreamMode) (args : Value) (deadlineMs : Int)
  | putDirect (station : NodeId) (data : Bytes) (name : AllocString)
  | getDirect (mcid : Mcid)

def Entry.log : Entry → List Act
  | .call realm procedure payload =>
    (Entries.call E sha256 text resolveVia id timeout meets realm procedure payload).log
  | .callWithUcan realm procedure payload ucanToken =>
    (Entries.callWithUcan E sha256 text resolveVia id timeout meets realm procedure payload
      ucanToken).log
  | .callWithCertChain realm procedure realmCaPem expectedOrg payload =>
    (Entries.callWithCertChain E X sha256 text resolveVia id timeout meets realm procedure
      realmCaPem expectedOrg payload).log
  | .openStreamDirect realm procedure mode args deadlineMs =>
    (Entries.openStreamDirect E sha256 text resolveVia id meets realm procedure mode args
      deadlineMs).log
  | .openStreamDirectWithCertChain realm procedure realmCaPem expectedOrg mode args deadlineMs =>
    (Entries.openStreamDirectWithCertChain E X sha256 text resolveVia id meets realm procedure
      realmCaPem expectedOrg mode args deadlineMs).log
  | .putDirect station data name =>
    (Entries.putDirect E sha256 H text resolveVia id meets station data name).log
  | .getDirect mcid => (Entries.getDirect E sha256 H text resolveVia id meets mcid).log

/-! ## Where an entry point may go -/

/-- The station that the entry point resolves. -/
def Entry.resolved : Entry → Option Resolved
  | .call realm procedure _ | .callWithUcan realm procedure _ _
  | .openStreamDirect realm procedure _ _ _ =>
    (resolve E sha256 (meets.around E text resolveVia id) realm procedure).toOption
  | .callWithCertChain realm procedure realmCaPem expectedOrg _
  | .openStreamDirectWithCertChain realm procedure realmCaPem expectedOrg _ _ _ =>
    (resolveWithCertChain E X sha256 (meets.around E text resolveVia id) realm procedure
      realmCaPem expectedOrg).toOption
  | .putDirect station _ _ =>
    (resolveStationEndpoint E sha256 (meets.around E text resolveVia id) station).toOption
  | .getDirect mcid => (resolveContent E sha256 text resolveVia id meets mcid).toOption

/-- The DHT answers with a record of its endpoint that the station has signed, and that is not
expired when it is checked. -/
def HasEndpoint (resolved : Resolved) : Prop :=
  ∃ n r ep, Dht.findRecord ((meets.around E text resolveVia id).session n)
      (Dht.stationEndpointKey sha256 resolved.station) = .ok r ∧
    Dht.Attested E (meets.endpointAt n) resolved.station r ∧ Dht.readStationEndpoint r = .ok ep ∧
    ep.hostAdvertised.head? = some resolved.host ∧ ep.quicPort = resolved.port

/-- The DHT answers with an announcement that the station has signed in its own name, and that
is not expired when it is checked. -/
def HasAnnounced (mcid : Mcid) (resolved : Resolved) : Prop :=
  ∃ recs i r adv, Dht.findRecords ((meets.around E text resolveVia id).session 0)
      (Dht.contentKey sha256 mcid) = .ok recs ∧ recs[i]? = some r ∧
    Dht.Attested E (meets.checkedAt i).1 resolved.station r ∧
    Dht.readContentAnnouncement r = .ok adv ∧ adv.announcerNode = resolved.station ∧
    parseSeedUrl adv.endpoint = some (resolved.host, resolved.port)

/-- A record of the station itself names the host and the port. -/
def Entry.Named : Entry → Resolved → Prop
  | .getDirect mcid => HasAnnounced E sha256 text resolveVia id meets mcid
  | _ => HasEndpoint E sha256 text resolveVia id meets

/-- The first frame of the peer is the HELLO of the session, and verifies under `station`. -/
def HelloProves (peer : Connection.Peer) (target : Connection.Session) (station : NodeId) : Prop :=
  ∃ hello, Connection.readOneFrame [] peer.reads = .ok (hello, target.buf) ∧
    Frame.parseHello hello = .ok target.station ∧ Frame.verify E hello station = .ok () ∧
    target.station.nodeId = station

/-- What an entry point may do after the acts `before`. -/
def Entry.MayDo (entry : Entry) (before : List Act) : Act → Prop
  | .dial station host port =>
    entry.resolved E X sha256 text resolveVia id meets = some ⟨station, host, port⟩ ∧
      entry.Named E sha256 text resolveVia id meets ⟨station, host, port⟩
  | .request target _ => ∃ station host port, .dial station host port ∈ before ∧
      HelloProves E (meets.peer host port) target station
  | .goodbye _ _ => True

end

section

variable {E : Ed25519} {X : CertChain.X509} {sha256 : Bytes → ByteArr 32} {H : Hashes}
variable {text : Connection.CallError → String} {resolveVia : Connection.Session} {id : KeyPair}
variable {timeout : Duration} {σ : Type} {meets : Meets σ}

/-! ### The records -/

theorem resolveStationEndpoint_named {station : NodeId} {resolved : Resolved}
    (h : resolveStationEndpoint E sha256 (meets.around E text resolveVia id) station =
      .ok resolved) : HasEndpoint E sha256 text resolveVia id meets resolved := by
  obtain ⟨n, -, ⟨r, ep, host, hfind, -, hattested, hread, hhost, rfl⟩, -⟩ :=
    stationEndpoint_eq_ok.mp h
  exact ⟨0 + n, r, ep, hfind, hattested, hread, hhost, rfl⟩

theorem resolve_named {realm : ByteArr 32} {procedure : String} {resolved : Resolved}
    (h : resolve E sha256 (meets.around E text resolveVia id) realm procedure = .ok resolved) :
    HasEndpoint E sha256 text resolveVia id meets resolved := by
  obtain ⟨recs, chosen, -, -, hendpoint⟩ := resolve_eq_ok.mp h
  exact resolveStationEndpoint_named hendpoint

theorem resolveWithCertChain_named {realm : ByteArr 32} {procedure : String} {realmCaPem : Bytes}
    {expectedOrg : String} {resolved : Resolved}
    (h : resolveWithCertChain E X sha256 (meets.around E text resolveVia id) realm procedure
      realmCaPem expectedOrg = .ok resolved) :
    HasEndpoint E sha256 text resolveVia id meets resolved := by
  obtain ⟨recs, chosen, -, -, hendpoint⟩ := resolveWithCertChain_eq_ok.mp h
  exact resolveStationEndpoint_named hendpoint

theorem resolveContent_named {mcid : Mcid} {resolved : Resolved}
    (h : resolveContent E sha256 text resolveVia id meets mcid = .ok resolved) :
    HasAnnounced E sha256 text resolveVia id meets mcid resolved := by
  obtain ⟨recs, hrecs, h⟩ := Outcome.bind_eq_ok.mp h
  obtain ⟨found, hfound, h⟩ := Outcome.bind_eq_ok.mp h
  obtain ⟨adv, hadv, h⟩ := Outcome.bind_eq_ok.mp h
  obtain ⟨⟨host, port⟩, hparse, h⟩ := Outcome.bind_eq_ok.mp h
  obtain rfl := Outcome.ok.inj h
  obtain rfl := Outcome.okOr_eq_ok.mp hadv
  obtain ⟨i, r, hget, hcheck⟩ := (Outcome.findFirst_eq_some.mp hfound).exists_mem
  rw [Nat.zero_add] at hcheck
  obtain ⟨⟨⟩, hverify, hcheck⟩ := Outcome.bind_eq_ok.mp hcheck
  obtain ⟨adv', hread, hcheck⟩ := Outcome.bind_eq_ok.mp hcheck
  split at hcheck
  · next hkey =>
      obtain rfl := Outcome.ok.inj hcheck
      refine ⟨recs, i, r, adv', Outcome.mapErr_eq_ok.mp hrecs, hget, ?_,
        Outcome.mapErr_eq_ok.mp hread, rfl, Outcome.okOr_eq_ok.mp hparse⟩
      show Dht.Attested E (meets.checkedAt i).1 adv'.announcerNode r
      rw [hkey]
      exact Dht.attested_of_verify (Outcome.mapErr_eq_ok.mp hverify)
  · cases hcheck

/-! ### The dial -/

/-- A session proves the identity that it shows. -/
theorem helloProves_of_dial {resolved : Resolved} {target : Connection.Session}
    (h : (dial E sha256 id meets resolved).result = .ok target) :
    HelloProves E (meets.peer resolved.host resolved.port) target target.station.nodeId := by
  have hdial : meets.toCallMeets.dial E sha256 id resolved = .ok target := h
  unfold CallMeets.dial at hdial
  split at hdial
  · cases hdial
  · unfold Connection.connect at hdial
    split at hdial
    · cases hdial
    · obtain ⟨-, hello, hread, hcheck⟩ := (Connection.connectInner_eq_ok ..).mp hdial
      obtain ⟨hparse, hverify, -⟩ := Connection.checkHello_eq_ok.mp hcheck
      exact ⟨hello, hread, hparse, hverify, rfl⟩

variable {entry : Entry} {before : List Act}

theorem close_allowed {ε : Type} {target : Connection.Session} {reason : String} :
    Logged.Allowed (entry.MayDo E X sha256 text resolveVia id meets) before
      (close E id meets target reason : Logged Act ε Unit) :=
  .noted trivial _

theorem dial_allowed {resolved : Resolved}
    (hresolved : entry.resolved E X sha256 text resolveVia id meets = some resolved)
    (hnamed : entry.Named E sha256 text resolveVia id meets resolved) :
    Logged.Allowed (entry.MayDo E X sha256 text resolveVia id meets) before
      (dial E sha256 id meets resolved) :=
  .noted ⟨hresolved, hnamed⟩ _

/-- A request to the station that was dialed is allowed. -/
theorem request_allowed {resolved : Resolved} {target : Connection.Session} {r : Request}
    (hdialed : .dial resolved.station resolved.host resolved.port ∈ before)
    (htarget : (dial E sha256 id meets resolved).result = .ok target)
    (hstation : target.station.nodeId = resolved.station) :
    entry.MayDo E X sha256 text resolveVia id meets before (.request target r) := by
  refine ⟨resolved.station, resolved.host, resolved.port, hdialed, ?_⟩
  rw [← hstation]
  exact helloProves_of_dial htarget

theorem dialAndVerify_allowed {resolved : Resolved}
    (hresolved : entry.resolved E X sha256 text resolveVia id meets = some resolved)
    (hnamed : entry.Named E sha256 text resolveVia id meets resolved) :
    Logged.Allowed (entry.MayDo E X sha256 text resolveVia id meets) before
      (dialAndVerify E sha256 id meets resolved) := by
  refine (dial_allowed hresolved hnamed).mapErr.bind ?_
  intro target _
  split
  · exact close_allowed.bind fun _ _ => .quiet _
  · exact .quiet _

/-- What `dialAndVerify` returns is a session with the station that was asked for. -/
theorem dialAndVerify_eq_ok {resolved : Resolved} {target : Connection.Session}
    (h : (dialAndVerify E sha256 id meets resolved).result = .ok target) :
    (dial E sha256 id meets resolved).result = .ok target ∧
      target.station.nodeId = resolved.station ∧
      (dialAndVerify E sha256 id meets resolved).log =
        [.dial resolved.station resolved.host resolved.port] := by
  have hresult := h
  rw [dialAndVerify, Logged.result_bind] at hresult
  obtain ⟨target', hmap, h'⟩ := Outcome.bind_eq_ok.mp hresult
  have hdial : (dial E sha256 id meets resolved).result = .ok target' :=
    Outcome.mapErr_eq_ok.mp hmap
  split at h'
  · rw [Logged.result_bind] at h'
    obtain ⟨⟨⟩, -, h'⟩ := Outcome.bind_eq_ok.mp h'
    cases h'
  · next hsame =>
      obtain rfl := Outcome.ok.inj h'
      refine ⟨hdial, not_not.mp hsame, ?_⟩
      rw [dialAndVerify, Logged.log_bind hmap, if_neg hsame]
      rfl

/-- What goes on with a verified session, and only sends requests to it, is allowed. -/
theorem verified_allowed {ε α : Type} {resolved : Resolved} {f : DialAndVerifyError → ε}
    {k : Connection.Session → Logged Act ε α}
    (hresolved : entry.resolved E X sha256 text resolveVia id meets = some resolved)
    (hnamed : entry.Named E sha256 text resolveVia id meets resolved)
    (hk : ∀ target before,
      (∀ r, entry.MayDo E X sha256 text resolveVia id meets before (.request target r)) →
        Logged.Allowed (entry.MayDo E X sha256 text resolveVia id meets) before (k target)) :
    Logged.Allowed (entry.MayDo E X sha256 text resolveVia id meets) before
      ((dialAndVerify E sha256 id meets resolved).mapErr f >>= k) := by
  refine (dialAndVerify_allowed hresolved hnamed).mapErr.bind ?_
  intro target htarget
  rw [Logged.result_mapErr, Outcome.mapErr_eq_ok] at htarget
  obtain ⟨hdial, hstation, hlog⟩ := dialAndVerify_eq_ok htarget
  refine hk target _ ?_
  intro r
  refine request_allowed ?_ hdial hstation
  show _ ∈ before ++ (dialAndVerify E sha256 id meets resolved).log
  simp [hlog]

/-! ### The entry points -/

theorem callVia_allowed {resolution : Outcome ResolveError Resolved}
    {send : Connection.Session → Int → Outcome Connection.CallError CallResponse}
    (hresolved : ∀ resolved, resolution = .ok resolved →
      entry.resolved E X sha256 text resolveVia id meets = some resolved ∧
        entry.Named E sha256 text resolveVia id meets resolved) :
    Logged.AllowedFrom (entry.MayDo E X sha256 text resolveVia id meets) []
      (callVia E sha256 id timeout meets resolution send).log := by
  show Logged.Allowed _ [] (callVia E sha256 id timeout meets resolution send)
  refine (Logged.Allowed.quiet _).bind ?_
  intro resolved hres
  rw [Logged.result_quiet, Outcome.mapErr_eq_ok] at hres
  obtain ⟨hentry, hnamed⟩ := hresolved resolved hres
  refine (dial_allowed hentry hnamed).mapErr.bind ?_
  intro target htarget
  dsimp only
  split
  · exact close_allowed.bind fun _ _ => .quiet _
  · next hsame =>
      have hdial := Outcome.mapErr_eq_ok.mp htarget
      refine Logged.Allowed.after (.noted ?_ _) close_allowed
      refine request_allowed ?_ hdial (not_not.mp hsame)
      simp [Logged.mapErr, Logged.quiet, dial, Logged.noted]

theorem openStreamVia_allowed {resolution : Outcome ResolveError Resolved} {realm : ByteArr 32}
    {procedure : String} {mode : StreamMode} {args : Value} {deadlineMs : Int}
    (hresolved : ∀ resolved, resolution = .ok resolved →
      entry.resolved E X sha256 text resolveVia id meets = some resolved ∧
        entry.Named E sha256 text resolveVia id meets resolved) :
    Logged.AllowedFrom (entry.MayDo E X sha256 text resolveVia id meets) []
      (openStreamVia E sha256 id meets resolution realm procedure mode args deadlineMs).log := by
  show Logged.Allowed _ [] (openStreamVia E sha256 id meets resolution realm procedure mode args
    deadlineMs)
  refine (Logged.Allowed.quiet _).bind ?_
  intro resolved hres
  rw [Logged.result_quiet, Outcome.mapErr_eq_ok] at hres
  obtain ⟨hentry, hnamed⟩ := hresolved resolved hres
  refine verified_allowed hentry hnamed ?_
  intro target before hrequest
  refine Logged.Allowed.bind ?_ fun _ _ => .quiet _
  exact Logged.Allowed.onErr (.noted (hrequest _) _) close_allowed

theorem putDirect_allowed {station : NodeId} {data : Bytes} {name : AllocString}
    (hresolved : ∀ resolved,
      resolveStationEndpoint E sha256 (meets.around E text resolveVia id) station = .ok resolved →
      entry.resolved E X sha256 text resolveVia id meets = some resolved ∧
        entry.Named E sha256 text resolveVia id meets resolved) :
    Logged.AllowedFrom (entry.MayDo E X sha256 text resolveVia id meets) []
      (Entries.putDirect E sha256 H text resolveVia id meets station data name).log := by
  show Logged.Allowed _ [] (Entries.putDirect E sha256 H text resolveVia id meets station data name)
  refine (Logged.Allowed.quiet _).bind ?_
  intro resolved hres
  rw [Logged.result_quiet, Outcome.mapErr_eq_ok] at hres
  obtain ⟨hentry, hnamed⟩ := hresolved resolved hres
  refine verified_allowed hentry hnamed ?_
  intro target before hrequest
  exact Logged.Allowed.after (.noted (hrequest _) _) close_allowed

theorem getDirect_allowed {mcid : Mcid}
    (hresolved : ∀ resolved,
      resolveContent E sha256 text resolveVia id meets mcid = .ok resolved →
      entry.resolved E X sha256 text resolveVia id meets = some resolved ∧
        entry.Named E sha256 text resolveVia id meets resolved) :
    Logged.AllowedFrom (entry.MayDo E X sha256 text resolveVia id meets) []
      (Entries.getDirect E sha256 H text resolveVia id meets mcid).log := by
  show Logged.Allowed _ [] (Entries.getDirect E sha256 H text resolveVia id meets mcid)
  refine (Logged.Allowed.quiet _).bind ?_
  intro resolved hres
  obtain ⟨hentry, hnamed⟩ := hresolved resolved hres
  refine verified_allowed hentry hnamed ?_
  intro target before hrequest
  exact Logged.Allowed.after (.noted (hrequest _) _) close_allowed

/-- *A direct dial never talks to the wrong station.*  Whatever the DHT answers and whoever is
dialed, the acts of an entry point are ones that it may do. -/
theorem wellDirected (E : Ed25519) (X : CertChain.X509) (sha256 : Bytes → ByteArr 32) (H : Hashes)
    (text : Connection.CallError → String) (resolveVia : Connection.Session) (id : KeyPair)
    (timeout : Duration) {σ : Type} (meets : Meets σ) (entry : Entry) :
    Logged.AllowedFrom (entry.MayDo E X sha256 text resolveVia id meets) []
      (entry.log E X sha256 H text resolveVia id timeout meets) := by
  cases entry with
  | call realm procedure payload =>
      rw [Entry.log, Entries.call]
      apply callVia_allowed
      intro resolved hres
      rw [Entry.resolved, Outcome.toOption_eq_some]
      exact ⟨hres, resolve_named hres⟩
  | callWithUcan realm procedure payload ucanToken =>
      rw [Entry.log, Entries.callWithUcan]
      apply callVia_allowed
      intro resolved hres
      rw [Entry.resolved, Outcome.toOption_eq_some]
      exact ⟨hres, resolve_named hres⟩
  | callWithCertChain realm procedure realmCaPem expectedOrg payload =>
      rw [Entry.log, Entries.callWithCertChain]
      apply callVia_allowed
      intro resolved hres
      rw [Entry.resolved, Outcome.toOption_eq_some]
      exact ⟨hres, resolveWithCertChain_named hres⟩
  | openStreamDirect realm procedure mode args deadlineMs =>
      rw [Entry.log, Entries.openStreamDirect]
      apply openStreamVia_allowed
      intro resolved hres
      rw [Entry.resolved, Outcome.toOption_eq_some]
      exact ⟨hres, resolve_named hres⟩
  | openStreamDirectWithCertChain realm procedure realmCaPem expectedOrg mode args deadlineMs =>
      rw [Entry.log, Entries.openStreamDirectWithCertChain]
      apply openStreamVia_allowed
      intro resolved hres
      rw [Entry.resolved, Outcome.toOption_eq_some]
      exact ⟨hres, resolveWithCertChain_named hres⟩
  | putDirect station data name =>
      rw [Entry.log]
      apply putDirect_allowed
      intro resolved hres
      rw [Entry.resolved, Outcome.toOption_eq_some]
      exact ⟨hres, resolveStationEndpoint_named hres⟩
  | getDirect mcid =>
      rw [Entry.log]
      apply getDirect_allowed
      intro resolved hres
      rw [Entry.resolved, Outcome.toOption_eq_some]
      exact ⟨hres, resolveContent_named hres⟩

/-! ### The call without its log -/

theorem call_result {realm : ByteArr 32} {procedure : String} {payload : Value} :
    (Entries.call E sha256 text resolveVia id timeout meets realm procedure payload).result =
      DirectDial.call E sha256 text resolveVia id realm procedure payload timeout
        meets.toCallMeets := by
  simp only [Entries.call, callVia, DirectDial.call, Logged.result_bind, Logged.result_quiet]
  refine congrArg _ (funext fun resolved => congrArg _ (funext fun target => ?_))
  split
  · simp only [Logged.result_bind, Logged.result_quiet]
    rfl
  · rw [Logged.result_after, Logged.result_noted]
    rfl

end

end Macula.DirectDial.Entries
