import Macula.CertChain
import Macula.Lib.First

/-!
# Resolving a procedure for direct dialing

A caller asks a station for the advertisements of a procedure, takes the first one that passes,
and asks for the endpoint of the station it names.  It then dials that station.

The station that is asked is not trusted: it can return any record that anyone ever signed.
The selection compares neither the procedure of a record nor its advertiser with the request
and the signer, as the selection of a content provider does (`content_provider_bound`).

Both queries are made again while they find nothing; `advertised_eq_ok` and
`stationEndpoint_eq_ok` say what they end with in terms of the answers alone.
-/

namespace Macula.DirectDial

open Macula.CertChain (CertChainError X509)
open Macula.Dht (DhtError ProcedureAdvertisement Record)

/-- How often a query is made before the answer counts as final. -/
def RESOLVE_RETRIES : Nat := 50

inductive ResolveError where
  | procedureNotAdvertised
  | noTrustedAdvertisement
  | stationEndpointNotFound
  | stationEndpointSignerMismatch
  | dht (e : DhtError)
  | noAuthorizedAdvertisement (e : CertChainError)
deriving DecidableEq

structure Resolved where
  station : NodeId
  host : String
  port : UInt16
deriving DecidableEq

/-- What one resolution sees: the session and the clock. -/
structure Surroundings where
  /-- The session at the `n`-th attempt of a query. -/
  session : Nat → Dht.Session
  /-- The two times at which the record at position `i` of an answer is checked. -/
  checkedAt : Nat → Int × Int
  /-- The time at which the endpoint of the `n`-th attempt is checked. -/
  endpointAt : Nat → Int

section

variable (E : Ed25519) (X : X509) (sha256 : Bytes → ByteArr 32) (around : Surroundings)

/-! ## The advertisements of a procedure -/

/-- The first answer with records in it, of the `retries` attempts from the `n`-th on. -/
def advertised (key : ByteArr 32) : (retries n : Nat) → Outcome ResolveError (List Record)
  | 0, _ => .err .procedureNotAdvertised
  | retries + 1, n =>
      match Dht.findRecords (around.session n) key with
      | .ok [] => advertised key retries (n + 1)
      | .ok (r :: recs) => .ok (r :: recs)
      | .err e => .err (.dht e)
      | .panicked => .panicked

/-- The check of one record. -/
def trusted (i : Nat) (r : Record) : Outcome Unit ProcedureAdvertisement := do
  (Dht.verify E (around.checkedAt i).1 r).mapErr fun _ => ()
  (Dht.readProcedureAdvertisement r).mapErr fun _ => ()

def firstTrustedAdvertisement {ε : Type} (recs : List Record) :
    Outcome ε (Option ProcedureAdvertisement) :=
  Outcome.findFirst (trusted E around) 0 recs

/-- The check of one record in a managed realm, with the fault of its certificate chain. -/
def authorized (realmCaPem : Bytes) (expectedOrg : String) (i : Nat) (r : Record) :
    Outcome (Option CertChainError) ProcedureAdvertisement := do
  (Dht.verify E (around.checkedAt i).1 r).mapErr fun _ => none
  (CertChain.verifyAdvertisementCertChain X E (around.checkedAt i).2 realmCaPem r
    expectedOrg).mapErr some
  (Dht.readProcedureAdvertisement r).mapErr fun _ => none

/-- The search from position `i` on, with the last fault of a chain seen before. -/
def firstAuthorizedFrom (realmCaPem : Bytes) (expectedOrg : String) :
    (i : Nat) → List Record → (lastCertErr : Option CertChainError) →
      Outcome ResolveError ProcedureAdvertisement
  | _, [], some e => .err (.noAuthorizedAdvertisement e)
  | _, [], none => .err .noTrustedAdvertisement
  | i, r :: recs, lastCertErr =>
      match authorized E X around realmCaPem expectedOrg i r with
      | .ok adv => .ok adv
      | .err fault =>
          firstAuthorizedFrom realmCaPem expectedOrg (i + 1) recs (fault.or lastCertErr)
      | .panicked => .panicked

def firstAuthorizedAdvertisement (recs : List Record) (realmCaPem : Bytes) (expectedOrg : String) :
    Outcome ResolveError ProcedureAdvertisement :=
  firstAuthorizedFrom E X around realmCaPem expectedOrg 0 recs none

/-! ## The endpoint of a station -/

/-- The `retries` attempts from the `n`-th on.  An absent and an expired record are asked for
again, every other fault is final. -/
def stationEndpoint (station : NodeId) : (retries n : Nat) → Outcome ResolveError Resolved
  | 0, _ => .err .stationEndpointNotFound
  | retries + 1, n =>
      match Dht.findRecord (around.session n) (Dht.stationEndpointKey sha256 station) with
      | .err .notFound => stationEndpoint station retries (n + 1)
      | .err e => .err (.dht e)
      | .panicked => .panicked
      | .ok r =>
          if r.key ≠ station then .err .stationEndpointSignerMismatch
          else
            match Dht.verify E (around.endpointAt n) r with
            | .err .expired => stationEndpoint station retries (n + 1)
            | .err _ => .err .noTrustedAdvertisement
            | .panicked => .panicked
            | .ok () => do
                let ep ← (Dht.readStationEndpoint r).mapErr fun _ => .stationEndpointNotFound
                let host ← .okOr .stationEndpointNotFound ep.hostAdvertised.head?
                return { station, host, port := ep.quicPort }

def resolveStationEndpoint (station : NodeId) : Outcome ResolveError Resolved :=
  stationEndpoint E sha256 around station RESOLVE_RETRIES 0

/-! ## Resolving -/

def resolve (realm : ByteArr 32) (procedure : String) : Outcome ResolveError Resolved := do
  let uri := Dht.discoveryUri realm procedure
  let key := Dht.procedureKey sha256 uri
  let recs ← advertised around key RESOLVE_RETRIES 0
  let found ← firstTrustedAdvertisement E around recs
  let adv ← .okOr .noTrustedAdvertisement found
  resolveStationEndpoint E sha256 around adv.servingStation

def resolveWithCertChain (realm : ByteArr 32) (procedure : String) (realmCaPem : Bytes)
    (expectedOrg : String) : Outcome ResolveError Resolved := do
  let uri := Dht.discoveryUri realm procedure
  let key := Dht.procedureKey sha256 uri
  let recs ← advertised around key RESOLVE_RETRIES 0
  let adv ← firstAuthorizedAdvertisement E X around recs realmCaPem expectedOrg
  resolveStationEndpoint E sha256 around adv.servingStation

/-- The sibling for content: the announcer has to be the signer. -/
def trustedProvider (now : Nat → Int) (i : Nat) (r : Record) :
    Outcome Unit Dht.ContentAnnouncement := do
  (Dht.verify E (now i) r).mapErr fun _ => ()
  let adv ← (Dht.readContentAnnouncement r).mapErr fun _ => ()
  if adv.announcerNode = r.key then return adv else .err ()

def firstTrustedContentProvider {ε : Type} (now : Nat → Int) (recs : List Record) :
    Outcome ε (Option Dht.ContentAnnouncement) :=
  Outcome.findFirst (trustedProvider E now) 0 recs

end

/-! ## What a resolution goes by -/

section

variable {E : Ed25519} {X : X509} {sha256 : Bytes → ByteArr 32} {around : Surroundings}
variable {realm : ByteArr 32} {procedure : String} {realmCaPem : Bytes} {expectedOrg : String}

theorem firstAuthorizedFrom_eq_ok {adv : ProcedureAdvertisement} :
    ∀ {i : Nat} {recs : List Record} {lastCertErr : Option CertChainError},
      firstAuthorizedFrom E X around realmCaPem expectedOrg i recs lastCertErr = .ok adv ↔
        Outcome.First (authorized E X around realmCaPem expectedOrg) i recs adv := by
  intro i recs
  induction recs generalizing i with
  | nil =>
      intro lastCertErr
      constructor
      · intro h
        cases lastCertErr <;> cases h
      · intro h
        cases h
  | cons r recs ih =>
      intro lastCertErr
      rw [firstAuthorizedFrom]
      constructor
      · intro h
        split at h
        · rename_i hcheck
          cases h
          exact .here hcheck
        · rename_i hcheck
          exact .there hcheck (ih.mp h)
        · cases h
      · intro h
        cases h with
        | here hcheck => rw [hcheck]
        | there hcheck hrest =>
          rw [hcheck]
          exact ih.mpr hrest

theorem trusted_ne_panicked {i : Nat} {r : Record} (h : (Dht.envelope r).IntsInRange) :
    trusted E around i r ≠ .panicked := by
  refine Outcome.bind_ne_panicked ?_ fun _ _ => ?_
  · rw [Ne, Outcome.mapErr_eq_panicked]
    exact Dht.verify_ne_panicked E _ h
  · rw [Ne, Outcome.mapErr_eq_panicked]
    exact Dht.readProcedureAdvertisement_ne_panicked r

variable (E X sha256 around realm procedure realmCaPem expectedOrg)

/-- The station answers with `recs` when it is asked for the procedure: this is its first answer
with a record in it. -/
def Answers (recs : List Record) : Prop :=
  let key := Dht.procedureKey sha256 (Dht.discoveryUri realm procedure)
  recs ≠ [] ∧ Outcome.FirstAttempt (fun n => Dht.findRecords (around.session n) key = .ok recs)
    (fun n => Dht.findRecords (around.session n) key = .ok []) RESOLVE_RETRIES 0

/-- The `n`-th answer about `station` is an endpoint that it signed itself. -/
def Published (station : NodeId) (n : Nat) (resolved : Resolved) : Prop :=
  ∃ r ep host, Dht.findRecord (around.session n) (Dht.stationEndpointKey sha256 station) = .ok r ∧
    (Dht.envelope r).IntsInRange ∧ Dht.Attested E (around.endpointAt n) station r ∧
    Dht.readStationEndpoint r = .ok ep ∧ ep.hostAdvertised.head? = some host ∧
    resolved = ⟨station, host, ep.quicPort⟩

/-- The `n`-th answer about `station` is that there is no record, or one that is expired. -/
def Unpublished (station : NodeId) (n : Nat) : Prop :=
  Dht.findRecord (around.session n) (Dht.stationEndpointKey sha256 station) = .err .notFound ∨
    ∃ r, Dht.findRecord (around.session n) (Dht.stationEndpointKey sha256 station) = .ok r ∧
      Dht.Expired E (around.endpointAt n) station r

variable {E X sha256 around realm procedure realmCaPem expectedOrg}

/-- The query for advertisements ends with the first answer that has records in it. -/
theorem advertised_eq_ok {key : ByteArr 32} {recs : List Record} : ∀ {retries n : Nat},
    advertised around key retries n = .ok recs ↔ recs ≠ [] ∧
      Outcome.FirstAttempt (fun n => Dht.findRecords (around.session n) key = .ok recs)
        (fun n => Dht.findRecords (around.session n) key = .ok []) retries n := by
  intro retries
  induction retries with
  | zero => simp [advertised, Outcome.not_firstAttempt_zero]
  | succ retries ih =>
      intro n
      rw [advertised, Outcome.firstAttempt_succ]
      cases Dht.findRecords (around.session n) key with
      | ok found =>
          cases found with
          | nil =>
              simp only [ih, Outcome.ok.injEq, true_and]
              constructor
              · rintro ⟨hne, hrest⟩
                exact ⟨hne, .inr hrest⟩
              · rintro ⟨hne, heq | hrest⟩
                · exact absurd heq.symm hne
                · exact ⟨hne, hrest⟩
          | cons r found =>
              simp only [Outcome.ok.injEq, reduceCtorEq, false_and, or_false]
              constructor
              · rintro rfl
                exact ⟨List.cons_ne_nil r found, rfl⟩
              · exact And.right
      | err e => simp
      | panicked => simp

theorem published_iff {station : NodeId} {n : Nat} {resolved : Resolved} {r : Record}
    (hfind : Dht.findRecord (around.session n) (Dht.stationEndpointKey sha256 station) = .ok r) :
    Published E sha256 around station n resolved ↔
      r.key = station ∧ Dht.verify E (around.endpointAt n) r = .ok () ∧
      ∃ ep host, Dht.readStationEndpoint r = .ok ep ∧ ep.hostAdvertised.head? = some host ∧
        resolved = ⟨station, host, ep.quicPort⟩ := by
  constructor
  · rintro ⟨r', ep, host, hfind', hrange, hattested, hrest⟩
    obtain rfl := Outcome.ok.inj (hfind'.symm.trans hfind)
    obtain rfl := hattested.key
    exact ⟨rfl, Dht.verify_eq_ok.mpr ⟨hrange, hattested⟩, ep, host, hrest⟩
  · rintro ⟨rfl, hverify, ep, host, hrest⟩
    obtain ⟨hrange, hattested⟩ := Dht.verify_eq_ok.mp hverify
    exact ⟨r, ep, host, hfind, hrange, hattested, hrest⟩

theorem unpublished_iff {station : NodeId} {n : Nat} {r : Record}
    (hfind : Dht.findRecord (around.session n) (Dht.stationEndpointKey sha256 station) = .ok r) :
    Unpublished E sha256 around station n ↔
      r.key = station ∧ Dht.verify E (around.endpointAt n) r = .err .expired := by
  constructor
  · rintro (hnone | ⟨r', hfind', hexpired⟩)
    · cases hfind.symm.trans hnone
    · obtain rfl := Outcome.ok.inj (hfind'.symm.trans hfind)
      obtain rfl := hexpired.key
      exact ⟨rfl, Dht.verify_eq_expired.mpr hexpired⟩
  · rintro ⟨rfl, hverify⟩
    exact .inr ⟨r, hfind, Dht.verify_eq_expired.mp hverify⟩

/-- The query for an endpoint ends with the first one that the station signed, when before it
there was none yet. -/
theorem stationEndpoint_eq_ok {station : NodeId} {resolved : Resolved} : ∀ {retries n : Nat},
    stationEndpoint E sha256 around station retries n = .ok resolved ↔
      Outcome.FirstAttempt (fun n => Published E sha256 around station n resolved)
        (Unpublished E sha256 around station) retries n := by
  intro retries
  induction retries with
  | zero => simp [stationEndpoint, Outcome.not_firstAttempt_zero]
  | succ retries ih =>
      intro n
      rw [stationEndpoint, Outcome.firstAttempt_succ]
      cases hfind : Dht.findRecord (around.session n) (Dht.stationEndpointKey sha256 station) with
      | ok r =>
          rw [published_iff hfind, unpublished_iff hfind]
          dsimp only
          by_cases hkey : r.key = station
          · rw [if_neg (not_not.mpr hkey)]
            cases Dht.verify E (around.endpointAt n) r with
            | ok _ =>
                simp only [Outcome.bind_eq_ok, Outcome.mapErr_eq_ok, Outcome.okOr_eq_ok,
                  Outcome.pure_eq, Outcome.ok.injEq, reduceCtorEq, hkey, true_and, false_and,
                  or_false]
                simp only [eq_comm, exists_and_left]
            | err e =>
                cases e with
                | expired => simp [hkey, ih]
                | invalidSignature => simp
            | panicked => simp
          · simp [hkey]
      | err e =>
          cases e with
          | notFound => simp [Published, Unpublished, hfind, ih]
          | _ => simp [Published, Unpublished, hfind]
      | panicked => simp [Published, Unpublished, hfind]

theorem resolve_eq_ok {resolved : Resolved} :
    resolve E sha256 around realm procedure = .ok resolved ↔
      ∃ recs chosen, Answers sha256 around realm procedure recs ∧
        Outcome.First (trusted E around) 0 recs chosen ∧
        resolveStationEndpoint E sha256 around chosen.servingStation = .ok resolved := by
  simp only [resolve, firstTrustedAdvertisement, Outcome.bind_eq_ok, Outcome.okOr_eq_ok,
    advertised_eq_ok, Answers]
  constructor
  · rintro ⟨recs, hrecs, found, hfound, chosen, rfl, hendpoint⟩
    exact ⟨recs, chosen, hrecs, Outcome.findFirst_eq_some.mp hfound, hendpoint⟩
  · rintro ⟨recs, chosen, hrecs, hfirst, hendpoint⟩
    exact ⟨recs, hrecs, some chosen, Outcome.findFirst_eq_some.mpr hfirst, chosen, rfl, hendpoint⟩

theorem resolveWithCertChain_eq_ok {resolved : Resolved} :
    resolveWithCertChain E X sha256 around realm procedure realmCaPem expectedOrg = .ok resolved ↔
      ∃ recs chosen, Answers sha256 around realm procedure recs ∧
        Outcome.First (authorized E X around realmCaPem expectedOrg) 0 recs chosen ∧
        resolveStationEndpoint E sha256 around chosen.servingStation = .ok resolved := by
  simp only [resolveWithCertChain, firstAuthorizedAdvertisement, Outcome.bind_eq_ok,
    firstAuthorizedFrom_eq_ok, advertised_eq_ok, Answers]
  constructor
  · rintro ⟨recs, hrecs, chosen, hfirst, hendpoint⟩
    exact ⟨recs, chosen, hrecs, hfirst, hendpoint⟩
  · rintro ⟨recs, chosen, hrecs, hfirst, hendpoint⟩
    exact ⟨recs, hrecs, chosen, hfirst, hendpoint⟩

/-- A content provider that is found announced itself. -/
theorem content_provider_bound {now : Nat → Int} {recs : List Record}
    {adv : Dht.ContentAnnouncement}
    (h : (firstTrustedContentProvider E now recs : Outcome ResolveError _) = .ok (some adv)) :
    ∃ i r, recs[i]? = some r ∧ Dht.verify E (now i) r = .ok () ∧ adv.announcerNode = r.key := by
  obtain ⟨i, r, hget, hcheck⟩ := (Outcome.findFirst_eq_some.mp h).exists_mem
  rw [Nat.zero_add] at hcheck
  simp only [trustedProvider, Outcome.bind_eq_ok, Outcome.mapErr_eq_ok] at hcheck
  obtain ⟨⟨⟩, hverify, adv', -, hcheck⟩ := hcheck
  split at hcheck
  · rename_i hkey
    cases hcheck
    exact ⟨i, r, hget, hverify, hkey⟩
  · cases hcheck

end

/-! ## A station that answers -/

def squatter : KeyPair := ⟨.fill 1⟩
def servingStation : KeyPair := ⟨.fill 2⟩
def someRealm : ByteArr 32 := .fill 0
def someDigest (_ : Bytes) : ByteArr 32 := .fill 0

def signedBy (id : KeyPair) (r : Record) : Record :=
  (Dht.sign .standIn { r with key := id.nodeId .standIn } id :
    Outcome DhtError Record).toOption.getD r

/-- An advertisement that the squatter signs, about any procedure and in the name of any
advertiser. -/
def squatterRecord (procedureUri : String) (advertiser : NodeId) : Record :=
  signedBy squatter (Dht.newProcedureAdvertisement advertiser procedureUri
    (servingStation.nodeId .standIn) Dht.DEFAULT_TTL ⟨0, .fill 0⟩)

def endpointRecord : Record :=
  signedBy servingStation (Dht.newEnvelope Dht.TYPE_STATION_ENDPOINT
    (servingStation.nodeId .standIn)
    (.map [(.text "quic_port", .int 4433), (.text "host_advertised", .list [.text "host"])])
    Dht.DEFAULT_TTL ⟨0, .fill 0⟩)

/-- A station that answers with `r`, and with the endpoint of the serving station. -/
def answering (r : Record) : Surroundings where
  session _ procedure _ :=
    if procedure = Dht.FIND_RECORDS_PROC then
      .ok (.result (.list [Dht.toRpcValue r]) (servingStation.nodeId .standIn))
    else .ok (.result (Dht.toRpcValue endpointRecord) (servingStation.nodeId .standIn))
  checkedAt _ := (0, 0)
  endpointAt _ := 0

end Macula.DirectDial
