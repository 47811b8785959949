import Macula.DirectDial.Selection

/-!
# What a resolution is bound to

A resolution goes by the first record of the answer that passes its checks.  The checks are about
the signature, the expiry and the chain; none compares the procedure of the record with the one
that was asked for, or its advertiser with its signer.  So the caller ends up where an advertiser
of the procedure sends it only when the answer happens to be such (`resolve_bound_iff`): the first
record that passes is bound itself, or another one is that names the same station, or there is no
endpoint to go to.
-/

namespace Macula.DirectDial

open Macula.CertChain (X509)
open Macula.Dht (Attested ProcedureAdvertisement Record)
open Outcome (First FirstAttempt)

/-- The check of the record returns. -/
def Checkable (r : Record) : Prop :=
  r.signature.length = 64 → (Dht.envelope r).IntsInRange

/-- `r`, at position `i`, is the first record that is taken, and those before it are no obstacle. -/
structure Leads (takes : Nat → Record → ProcedureAdvertisement → Prop) (recs : List Record)
    (i : Nat) (r : Record) (adv : ProcedureAdvertisement) : Prop where
  get : recs[i]? = some r
  taken : takes i r adv
  before : ∀ j r', j < i → recs[j]? = some r' → Checkable r' ∧ ∀ adv', ¬ takes j r' adv'

/-- The record is about the procedure and comes from its advertiser. -/
structure Bound (realm : ByteArr 32) (procedure : String) (r : Record)
    (adv : ProcedureAdvertisement) : Prop where
  uri : adv.procedureUri = Dht.discoveryUri realm procedure
  signer : adv.advertiserNode = r.key

section

variable (E : Ed25519) (X : X509) (sha256 : Bytes → ByteArr 32) (around : Surroundings)
variable (realm : ByteArr 32) (procedure : String) (realmCaPem : Bytes) (expectedOrg : String)

/-- A record of `recs` verifies, is about the procedure, comes from its advertiser and names
`station`. -/
def Vouched (recs : List Record) (station : NodeId) : Prop :=
  ∃ i r adv, recs[i]? = some r ∧ Dht.verify E (around.checkedAt i).1 r = .ok () ∧
    Dht.readProcedureAdvertisement r = .ok adv ∧
    adv.procedureUri = Dht.discoveryUri realm procedure ∧ adv.advertiserNode = r.key ∧
    adv.servingStation = station

/-- At position `i`, `r` is signed by its key and not expired, and it is an advertisement that
says `adv`. -/
structure Advertises (i : Nat) (r : Record) (adv : ProcedureAdvertisement) : Prop where
  inRange : (Dht.envelope r).IntsInRange
  attested : Attested E (around.checkedAt i).1 r.key r
  reads : Dht.readProcedureAdvertisement r = .ok adv

/-- In a managed realm its chain is in order too. -/
structure AdvertisesManaged (i : Nat) (r : Record) (adv : ProcedureAdvertisement) : Prop where
  inRange : (Dht.envelope r).IntsInRange
  attested : Attested E (around.checkedAt i).1 r.key r
  authorized : Authorized E X (around.checkedAt i).2 realmCaPem expectedOrg r adv

/-- There is an endpoint of the station to go to. -/
def Reachable (station : NodeId) : Prop :=
  FirstAttempt (fun n => ∃ resolved, Published E sha256 around station n resolved)
    (Unpublished E sha256 around station) RESOLVE_RETRIES 0

/-- The record that a resolution goes by is bound, or it names a station that another bound
record names too, or one that cannot be reached. -/
def WellLed (takes : Nat → Record → ProcedureAdvertisement → Prop) : Prop :=
  ∀ recs i r adv, Answers sha256 around realm procedure recs → Leads takes recs i r adv →
    Reachable E sha256 around adv.servingStation →
    Bound realm procedure r adv ∨ ∃ j r' adv', j ≠ i ∧ recs[j]? = some r' ∧
      Advertises E around j r' adv' ∧ Bound realm procedure r' adv' ∧
      adv'.servingStation = adv.servingStation

variable {E X sha256 around realm procedure realmCaPem expectedOrg}

/-! ## The checks -/

theorem AdvertisesManaged.advertises {i : Nat} {r : Record} {adv : ProcedureAdvertisement}
    (h : AdvertisesManaged E X around realmCaPem expectedOrg i r adv) :
    Advertises E around i r adv :=
  ⟨h.inRange, h.attested, h.authorized.reads⟩

theorem trusted_eq_ok {i : Nat} {r : Record} {adv : ProcedureAdvertisement} :
    trusted E around i r = .ok adv ↔ Advertises E around i r adv := by
  simp only [trusted, Outcome.check_bind_eq_ok, Outcome.mapErr_eq_ok, Dht.verify_eq_ok]
  constructor
  · rintro ⟨⟨hrange, hattested⟩, hread⟩
    exact ⟨hrange, hattested, hread⟩
  · rintro ⟨hrange, hattested, hread⟩
    exact ⟨⟨hrange, hattested⟩, hread⟩

theorem authorized_eq_ok_iff_advertises {i : Nat} {r : Record} {adv : ProcedureAdvertisement} :
    authorized E X around realmCaPem expectedOrg i r = .ok adv ↔
      AdvertisesManaged E X around realmCaPem expectedOrg i r adv := by
  rw [authorized_eq_ok_iff]
  constructor
  · rintro ⟨hrange, hattested, hauthorized⟩
    exact ⟨hrange, hattested, hauthorized⟩
  · rintro ⟨hrange, hattested, hauthorized⟩
    exact ⟨hrange, hattested, hauthorized⟩

/-- A check that starts with the signature, and panics nowhere else. -/
theorem eq_panicked_iff {ε α : Type} {now : Int} {r : Record} {f : Dht.VerifyError → ε}
    {rest : Unit → Outcome ε α}
    (hrest : (Dht.envelope r).IntsInRange →
      ((Dht.verify E now r).mapErr f >>= rest) ≠ .panicked) :
    ((Dht.verify E now r).mapErr f >>= rest) = .panicked ↔ ¬ Checkable r := by
  rw [Checkable, Classical.not_imp]
  constructor
  · intro hpanic
    have hrange : ¬ (Dht.envelope r).IntsInRange := fun hrange => hrest hrange hpanic
    rcases Outcome.bind_eq_panicked.mp hpanic with hverify | ⟨⟨⟩, hverify, -⟩
    · exact Dht.verify_eq_panicked.mp (Outcome.mapErr_eq_panicked.mp hverify)
    · exact absurd (Dht.verify_eq_ok.mp (Outcome.mapErr_eq_ok.mp hverify)).1 hrange
  · intro h
    rw [Dht.verify_eq_panicked.mpr h]
    rfl

theorem trusted_eq_panicked {i : Nat} {r : Record} :
    trusted E around i r = .panicked ↔ ¬ Checkable r :=
  eq_panicked_iff trusted_ne_panicked

theorem authorized_eq_panicked {i : Nat} {r : Record} :
    authorized E X around realmCaPem expectedOrg i r = .panicked ↔ ¬ Checkable r :=
  eq_panicked_iff authorized_ne_panicked

/-- A search ends with the record that leads. -/
theorem first_iff_leads {ε : Type} {check : Nat → Record → Outcome ε ProcedureAdvertisement}
    {takes : Nat → Record → ProcedureAdvertisement → Prop}
    (hok : ∀ {i r adv}, check i r = .ok adv ↔ takes i r adv)
    (hpanicked : ∀ {i r}, check i r = .panicked ↔ ¬ Checkable r) {recs : List Record}
    {adv : ProcedureAdvertisement} :
    First check 0 recs adv ↔ ∃ i r, Leads takes recs i r adv := by
  have herr : ∀ j r, (∃ e, check j r = .err e) ↔ Checkable r ∧ ∀ adv, ¬ takes j r adv := by
    intro j r
    rw [Outcome.exists_eq_err, Ne, hpanicked, not_not]
    simp only [Ne, hok]
  simp only [Outcome.first_iff, Nat.zero_add, hok]
  constructor
  · rintro ⟨i, r, hcomes, htakes⟩
    refine ⟨i, r, hcomes.get, htakes, fun j r' hj hget => ?_⟩
    have h := hcomes.before j r' hj hget
    rwa [Nat.zero_add, herr] at h
  · rintro ⟨i, r, hget, htakes, hbefore⟩
    refine ⟨i, r, ⟨hget, fun j r' hj hget' => ?_⟩, htakes⟩
    rw [Nat.zero_add, herr]
    exact hbefore j r' hj hget'

/-! ## Where a caller ends up -/

theorem Answers.unique {recs recs' : List Record} (h : Answers sha256 around realm procedure recs)
    (h' : Answers sha256 around realm procedure recs') : recs = recs' :=
  Outcome.ok.inj ((advertised_eq_ok.mpr h).symm.trans (advertised_eq_ok.mpr h'))

theorem reachable_iff {station : NodeId} : Reachable E sha256 around station ↔
    ∃ resolved, resolveStationEndpoint E sha256 around station = .ok resolved := by
  simp only [resolveStationEndpoint, stationEndpoint_eq_ok, Reachable, FirstAttempt]
  constructor
  · rintro ⟨m, hm, ⟨resolved, hpublished⟩, hbefore⟩
    exact ⟨resolved, m, hm, hpublished, hbefore⟩
  · rintro ⟨resolved, m, hm, hpublished, hbefore⟩
    exact ⟨m, hm, ⟨resolved, hpublished⟩, hbefore⟩

/-- An endpoint is one of the station that was asked for. -/
theorem resolveStationEndpoint_station {station : NodeId} {resolved : Resolved}
    (h : resolveStationEndpoint E sha256 around station = .ok resolved) :
    resolved.station = station := by
  obtain ⟨m, -, ⟨r, ep, host, -, -, -, -, -, rfl⟩, -⟩ := stationEndpoint_eq_ok.mp h
  rfl

/-- A resolution that goes by the first record that is taken is bound to what was asked for
exactly when it is well led. -/
theorem vouched_iff {takes : Nat → Record → ProcedureAdvertisement → Prop}
    {result : Outcome ResolveError Resolved}
    (htakes : ∀ {i r adv}, takes i r adv → Advertises E around i r adv)
    (hresult : ∀ {resolved}, result = .ok resolved ↔
      ∃ recs adv, Answers sha256 around realm procedure recs ∧ (∃ i r, Leads takes recs i r adv) ∧
        resolveStationEndpoint E sha256 around adv.servingStation = .ok resolved) :
    (∀ resolved, result = .ok resolved → ∃ recs, Answers sha256 around realm procedure recs ∧
      Vouched E around realm procedure recs resolved.station) ↔
    WellLed E sha256 around realm procedure takes := by
  constructor
  · intro h recs i r adv hrecs hleads hreachable
    obtain ⟨resolved, hendpoint⟩ := reachable_iff.mp hreachable
    obtain ⟨recs', hrecs', j, r', adv', hget, hverify, hread, huri, hsigner, hstation⟩ :=
      h resolved (hresult.mpr ⟨recs, adv, hrecs, ⟨i, r, hleads⟩, hendpoint⟩)
    obtain rfl := hrecs.unique hrecs'
    rw [resolveStationEndpoint_station hendpoint] at hstation
    by_cases hsame : j = i
    · subst hsame
      obtain rfl := Option.some.inj (hget.symm.trans hleads.get)
      obtain rfl := Outcome.ok.inj (hread.symm.trans (htakes hleads.taken).reads)
      exact .inl ⟨huri, hsigner⟩
    · obtain ⟨hrange, hattested⟩ := Dht.verify_eq_ok.mp hverify
      exact .inr ⟨j, r', adv', hsame, hget, ⟨hrange, hattested, hread⟩, ⟨huri, hsigner⟩, hstation⟩
  · intro h resolved hresolved
    obtain ⟨recs, adv, hrecs, ⟨i, r, hleads⟩, hendpoint⟩ := hresult.mp hresolved
    have hstation := resolveStationEndpoint_station hendpoint
    refine ⟨recs, hrecs, ?_⟩
    rcases h recs i r adv hrecs hleads (reachable_iff.mpr ⟨resolved, hendpoint⟩) with
      hbound | ⟨j, r', adv', -, hget, hadvertises, hbound, hsame⟩
    · obtain ⟨hrange, hattested, hread⟩ := htakes hleads.taken
      exact ⟨i, r, adv, hleads.get, Dht.verify_eq_ok.mpr ⟨hrange, hattested⟩, hread, hbound.uri,
        hbound.signer, hstation.symm⟩
    · obtain ⟨hrange, hattested, hread⟩ := hadvertises
      exact ⟨j, r', adv', hget, Dht.verify_eq_ok.mpr ⟨hrange, hattested⟩, hread, hbound.uri,
        hbound.signer, hsame.trans hstation.symm⟩

/-- An answer of one record vouches for nothing when the record is not bound. -/
theorem not_vouched_singleton {r : Record} {adv : ProcedureAdvertisement} {station : NodeId}
    (hread : Dht.readProcedureAdvertisement r = .ok adv)
    (hne : adv.procedureUri ≠ Dht.discoveryUri realm procedure ∨ adv.advertiserNode ≠ r.key) :
    ¬ Vouched E around realm procedure [r] station := by
  rintro ⟨i, r', adv', hget, -, hread', huri, hkey, -⟩
  obtain rfl : r' = r := List.mem_singleton.mp (List.mem_of_getElem? hget)
  obtain rfl : adv = adv' := Outcome.ok.inj (hread.symm.trans hread')
  rcases hne with hne | hne
  · exact hne huri
  · exact hne hkey

variable (E X sha256 around realm procedure realmCaPem expectedOrg)

/-- **A caller ends up where an advertiser of the procedure sends it** exactly when the record
that it goes by leads there. -/
theorem resolve_bound_iff :
    ((∀ resolved, resolve E sha256 around realm procedure = .ok resolved →
      ∃ recs, Answers sha256 around realm procedure recs ∧
        Vouched E around realm procedure recs resolved.station) ↔
    WellLed E sha256 around realm procedure (Advertises E around)) ∧
    ((∀ resolved,
      resolveWithCertChain E X sha256 around realm procedure realmCaPem expectedOrg =
        .ok resolved →
      ∃ recs, Answers sha256 around realm procedure recs ∧
        Vouched E around realm procedure recs resolved.station) ↔
    WellLed E sha256 around realm procedure
      (AdvertisesManaged E X around realmCaPem expectedOrg)) := by
  constructor
  · apply vouched_iff id
    intro resolved
    simp only [resolve_eq_ok, first_iff_leads trusted_eq_ok trusted_eq_panicked]
  · apply vouched_iff AdvertisesManaged.advertises
    intro resolved
    simp only [resolveWithCertChain_eq_ok,
      first_iff_leads authorized_eq_ok_iff_advertises authorized_eq_panicked]

end

/-! ## Two records that redirect -/

/-- One about another procedure, and one in the name of another node. -/
def unboundRecords : List Record :=
  [squatterRecord "other" (squatter.nodeId .standIn),
   squatterRecord (Dht.discoveryUri someRealm "procedure") (servingStation.nodeId .standIn)]

/-- When the station answers with `r`, `resolve` gives a station nothing in the answer vouches
for. -/
def Redirected (r : Record) : Prop :=
  ∃ resolved, resolve .standIn someDigest (answering r) someRealm "procedure" = .ok resolved ∧
    ∀ recs, Answers someDigest (answering r) someRealm "procedure" recs →
      ¬ Vouched .standIn (answering r) someRealm "procedure" recs resolved.station

theorem unboundRecords_redirect : ∀ r ∈ unboundRecords, Redirected r := by
  have hresolve : ∀ r ∈ unboundRecords,
      resolve .standIn someDigest (answering r) someRealm "procedure" =
        .ok ⟨servingStation.nodeId .standIn, "host", 4433⟩ := by decide +kernel
  have hanswers : ∀ r ∈ unboundRecords, advertised (answering r)
      (Dht.procedureKey someDigest (Dht.discoveryUri someRealm "procedure")) RESOLVE_RETRIES 0 =
        .ok [r] := by decide +kernel
  have hunbound : ∀ r ∈ unboundRecords, ∃ adv, Dht.readProcedureAdvertisement r = .ok adv ∧
      (adv.procedureUri ≠ Dht.discoveryUri someRealm "procedure" ∨ adv.advertiserNode ≠ r.key) := by
    intro r hr
    simp only [unboundRecords, List.mem_cons, List.not_mem_nil, or_false] at hr
    rcases hr with rfl | rfl
    · exact ⟨_, rfl, .inl (by decide +kernel)⟩
    · exact ⟨_, rfl, .inr (by decide +kernel)⟩
  intro r hr
  refine ⟨_, hresolve r hr, fun recs hrecs => ?_⟩
  obtain rfl : [r] = recs :=
    Outcome.ok.inj ((hanswers r hr).symm.trans (advertised_eq_ok.mpr hrecs))
  obtain ⟨adv, hread, hne⟩ := hunbound r hr
  exact not_vouched_singleton hread hne

/-- Both are gone by: the one about another procedure, and the one in another's name. -/
theorem resolve_redirected :
    Redirected (squatterRecord "other" (squatter.nodeId .standIn)) ∧
      Redirected (squatterRecord (Dht.discoveryUri someRealm "procedure")
        (servingStation.nodeId .standIn)) :=
  ⟨unboundRecords_redirect _ (.head _), unboundRecords_redirect _ (.tail _ (.head _))⟩

end Macula.DirectDial
