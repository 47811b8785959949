import Macula.DirectDial

/-!
# Which advertisement is selected

A station can put any records into its answer, so the selection in a managed realm has to find
an authorized advertisement among whatever else is there.  `Authorized` lists the checks a record
has to pass, `authorized_eq_ok` says that the code makes these and no others, and the rest follows
from what a search for the first element that passes does.

The clock is fixed: a record that passes its first check passes it again inside the check of its
chain.  This is where an authorized chain always gives an advertisement, and an error of a chain
always means a record that verified.
-/

namespace Macula.CertChain

open Macula.Dht (ProcedureAdvertisement Record)

variable {X : X509} {E : Ed25519} {now : Int} {realmCaPem : Bytes} {r : Record}
  {expectedOrg : String}

/-- A chain that decodes has a leaf. -/
theorem decodeCertChain_ne_nil {pem : Bytes} {chain : List Bytes}
    (h : decodeCertChain X pem = .ok chain) : chain ≠ [] := by
  rw [decodeCertChain] at h
  split at h
  · cases h
  · next hne => exact Outcome.ok.inj h ▸ hne

theorem validateCertPath_ne_panicked {chain : List Bytes} (hne : chain ≠ []) :
    validateCertPath X realmCaPem chain ≠ .panicked := by
  have hleaf : (Outcome.expectSome chain.head? : Outcome CertChainError Bytes) ≠ .panicked := by
    rw [List.head?_eq_some_head hne]
    nofun
  rw [validateCertPath]
  refine Outcome.bind_ne_panicked ?_ fun anchors hanchors => ?_
  · rw [Ne, Outcome.mapErr_eq_panicked, decodeCertChain]
    split <;> nofun
  · have hne' := decodeCertChain_ne_nil (Outcome.mapErr_eq_ok.mp hanchors)
    rw [List.head?_eq_some_head hne']
    refine Outcome.bind_ne_panicked nofun fun anchor _ => ?_
    split
    · nofun
    · refine Outcome.bind_ne_panicked hleaf fun leaf _ => ?_
      split
      · nofun
      · split <;> nofun

/-- The chain in an advertisement leads to the CA, and its leaf holds the key and is of the
organization. -/
def Chained (X : X509) (realmCaPem : Bytes) (expectedOrg : String) (key : NodeId)
    (adv : ProcedureAdvertisement) : Prop :=
  ∃ chainPem leaf rest, adv.certChain = some chainPem ∧
    decodeCertChain X chainPem = .ok (leaf :: rest) ∧
    ed25519PubkeyFromCert X leaf = some key ∧
    validateCertPath X realmCaPem (leaf :: rest) = .ok () ∧
    leafOrganization X leaf = some expectedOrg

theorem verifyAdvertisementCertChain_eq_ok :
    verifyAdvertisementCertChain X E now realmCaPem r expectedOrg = .ok () ↔
      Dht.verify E now r = .ok () ∧ ∃ adv, Dht.readProcedureAdvertisement r = .ok adv ∧
        Chained X realmCaPem expectedOrg r.key adv := by
  simp only [verifyAdvertisementCertChain, Outcome.bind_eq_ok, Outcome.mapErr_eq_ok,
    Outcome.okOr_eq_ok, Outcome.expectSome_eq_ok]
  constructor
  · rintro ⟨⟨⟩, hverify, adv, hread, chainPem, hpem, chain, hchain, leaf, hleaf, leafKey, hkey, h⟩
    split at h
    · cases h
    · next hsame =>
        obtain ⟨⟨⟩, hpath, leafOrg, horg, h⟩ := by simpa only [Outcome.bind_eq_ok,
          Outcome.okOr_eq_ok] using h
        split at h
        · cases h
        · next horg' =>
            obtain ⟨tail, rfl⟩ := List.head?_eq_some_iff.mp hleaf
            rw [not_not.mp hsame] at hkey
            rw [not_not.mp horg'] at horg
            exact ⟨hverify, adv, hread, chainPem, leaf, tail, hpem, hchain, hkey, hpath, horg⟩
  · rintro ⟨hverify, adv, hread, chainPem, leaf, rest, hpem, hchain, hkey, hpath, horg⟩
    refine ⟨(), hverify, adv, hread, chainPem, hpem, leaf :: rest, hchain, leaf, rfl, r.key, hkey,
      ?_⟩
    rw [if_neg (not_not.mpr rfl), hpath, Outcome.ok_bind, horg]
    exact if_neg (not_not.mpr rfl)

theorem verifyAdvertisementCertChain_ne_panicked (hrange : (Dht.envelope r).IntsInRange) :
    verifyAdvertisementCertChain X E now realmCaPem r expectedOrg ≠ .panicked := by
  rw [verifyAdvertisementCertChain]
  refine Outcome.bind_ne_panicked ?_ fun _ _ => ?_
  · rw [Ne, Outcome.mapErr_eq_panicked]
    exact Dht.verify_ne_panicked E now hrange
  refine Outcome.bind_ne_panicked ?_ fun adv _ => ?_
  · rw [Ne, Outcome.mapErr_eq_panicked]
    exact Dht.readProcedureAdvertisement_ne_panicked r
  refine Outcome.bind_ne_panicked Outcome.okOr_ne_panicked fun chainPem _ => ?_
  refine Outcome.bind_ne_panicked ?_ fun chain hchain => ?_
  · rw [decodeCertChain]
    split <;> nofun
  have hne := decodeCertChain_ne_nil hchain
  rw [List.head?_eq_some_head hne]
  refine Outcome.bind_ne_panicked nofun fun leaf _ => ?_
  refine Outcome.bind_ne_panicked Outcome.okOr_ne_panicked fun leafKey _ => ?_
  split
  · nofun
  · refine Outcome.bind_ne_panicked (validateCertPath_ne_panicked hne) fun _ _ => ?_
    refine Outcome.bind_ne_panicked Outcome.okOr_ne_panicked fun leafOrg _ => ?_
    split <;> nofun

end Macula.CertChain

namespace Macula.DirectDial

open Macula.CertChain (CertChainError X509 Chained)
open Macula.Dht (Attested ProcedureAdvertisement Record)
open Outcome (First Inserted)

/-- All records are checked at one time. -/
def Surroundings.fixedAt (around : Surroundings) (now : Int) : Surroundings :=
  { around with checkedAt := fun _ => (now, now) }

section

variable (E : Ed25519) (X : X509) (now : Int) (realmCaPem : Bytes) (expectedOrg : String)

/-- The record passes every check of a managed realm, and `adv` is what it says. -/
structure Authorized (r : Record) (adv : ProcedureAdvertisement) : Prop where
  attested : Attested E now r.key r
  reads : Dht.readProcedureAdvertisement r = .ok adv
  chained : Chained X realmCaPem expectedOrg r.key adv

/-- A record off the wire that fails one of the checks. -/
structure Unauthorized (r : Record) : Prop where
  inRange : (Dht.envelope r).IntsInRange
  fails : ∀ adv, ¬ Authorized E X now realmCaPem expectedOrg r adv

/-- A record off the wire that does not verify, or that is no advertisement. -/
structure Untrusted (r : Record) : Prop where
  inRange : (Dht.envelope r).IntsInRange
  fails : ∀ adv, Attested E now r.key r → Dht.readProcedureAdvertisement r ≠ .ok adv

end

section

variable {E : Ed25519} {X : X509} {around : Surroundings} {now : Int} {realmCaPem : Bytes}
  {expectedOrg : String} {r : Record}

/-! ## One record -/

/-- The signature is checked twice, and the clock is read each time. -/
theorem authorized_eq_ok_iff {i : Nat} {adv : ProcedureAdvertisement} :
    authorized E X around realmCaPem expectedOrg i r = .ok adv ↔
      (Dht.envelope r).IntsInRange ∧ Attested E (around.checkedAt i).1 r.key r ∧
        Authorized E X (around.checkedAt i).2 realmCaPem expectedOrg r adv := by
  simp only [authorized, Outcome.check_bind_eq_ok, Outcome.mapErr_eq_ok,
    CertChain.verifyAdvertisementCertChain_eq_ok, Dht.verify_eq_ok]
  constructor
  · rintro ⟨⟨hrange, hfirst⟩, ⟨⟨-, hsecond⟩, adv', hread', hchained⟩, hread⟩
    obtain rfl := Outcome.ok.inj (hread'.symm.trans hread)
    exact ⟨hrange, hfirst, hsecond, hread, hchained⟩
  · rintro ⟨hrange, hfirst, hsecond, hread, hchained⟩
    exact ⟨⟨hrange, hfirst⟩, ⟨⟨hrange, hsecond⟩, adv, hread, hchained⟩, hread⟩

theorem authorized_eq_ok {i : Nat} {adv : ProcedureAdvertisement}
    (hrange : (Dht.envelope r).IntsInRange) :
    authorized E X (around.fixedAt now) realmCaPem expectedOrg i r = .ok adv ↔
      Authorized E X now realmCaPem expectedOrg r adv := by
  rw [authorized_eq_ok_iff]
  constructor
  · rintro ⟨-, -, hauthorized⟩
    exact hauthorized
  · intro hauthorized
    exact ⟨hrange, hauthorized.attested, hauthorized⟩

theorem authorized_ne_panicked {i : Nat} (hrange : (Dht.envelope r).IntsInRange) :
    authorized E X around realmCaPem expectedOrg i r ≠ .panicked := by
  rw [authorized]
  refine Outcome.bind_ne_panicked ?_ fun _ _ => Outcome.bind_ne_panicked ?_ fun _ _ => ?_
  · rw [Ne, Outcome.mapErr_eq_panicked]
    exact Dht.verify_ne_panicked E _ hrange
  · rw [Ne, Outcome.mapErr_eq_panicked]
    exact CertChain.verifyAdvertisementCertChain_ne_panicked hrange
  · rw [Ne, Outcome.mapErr_eq_panicked]
    exact Dht.readProcedureAdvertisement_ne_panicked r

/-- A record is turned down without a fault of its chain exactly when it does not verify: a chain
that is in order comes with an advertisement. -/
theorem authorized_eq_err_none {i : Nat} (hrange : (Dht.envelope r).IntsInRange) :
    authorized E X (around.fixedAt now) realmCaPem expectedOrg i r = .err none ↔
      ¬ Attested E now r.key r := by
  rw [← Dht.verify_eq_ok_iff hrange]
  constructor
  · -- behind a record that verifies only the chain has a fault
    intro h hverify
    cases hchain : CertChain.verifyAdvertisementCertChain X E now realmCaPem r expectedOrg with
    | ok _ =>
        obtain ⟨-, adv, hread, -⟩ := CertChain.verifyAdvertisementCertChain_eq_ok.mp hchain
        simp only [authorized, Surroundings.fixedAt, hverify, hchain, hread] at h
        cases h
    | err e =>
        simp only [authorized, Surroundings.fixedAt, hverify, hchain] at h
        cases h
    | panicked => exact CertChain.verifyAdvertisementCertChain_ne_panicked hrange hchain
  · intro hverify
    cases h : Dht.verify E now r with
    | ok _ => exact absurd h hverify
    | err e =>
        simp only [authorized, Surroundings.fixedAt, h]
        rfl
    | panicked => exact absurd h (Dht.verify_ne_panicked E now hrange)

/-! ## The search -/

/-- The faults of the chains are what tells the two errors of a search apart. -/
theorem firstAuthorizedFrom_eq_err_noTrusted {recs : List Record} : ∀ {i : Nat}
    {lastCertErr : Option CertChainError},
    firstAuthorizedFrom E X (around.fixedAt now) realmCaPem expectedOrg i recs lastCertErr =
        .err .noTrustedAdvertisement ↔
      lastCertErr = none ∧
        ∀ r ∈ recs, authorized E X (around.fixedAt now) realmCaPem expectedOrg 0 r = .err none := by
  induction recs with
  | nil =>
      intro i lastCertErr
      cases lastCertErr <;> simp [firstAuthorizedFrom]
  | cons r recs ih =>
      intro i lastCertErr
      have hsame : authorized E X (around.fixedAt now) realmCaPem expectedOrg i r =
        authorized E X (around.fixedAt now) realmCaPem expectedOrg 0 r := rfl
      rw [firstAuthorizedFrom, List.forall_mem_cons, hsame]
      cases authorized E X (around.fixedAt now) realmCaPem expectedOrg 0 r with
      | ok adv => simp
      | err fault =>
          cases fault with
          | none => simp [ih]
          | some e => simp [ih]
      | panicked => simp

/-- A search fails with one of its two errors. -/
theorem firstAuthorizedFrom_eq_err {recs : List Record}
    (hrecs : ∀ r ∈ recs, Unauthorized E X now realmCaPem expectedOrg r) : ∀ {i : Nat}
    {lastCertErr : Option CertChainError}, ∃ error,
    firstAuthorizedFrom E X (around.fixedAt now) realmCaPem expectedOrg i recs lastCertErr =
        .err error ∧
      (error = .noTrustedAdvertisement ∨ ∃ e, error = .noAuthorizedAdvertisement e) := by
  induction recs with
  | nil =>
      intro i lastCertErr
      cases lastCertErr with
      | none => exact ⟨_, rfl, .inl rfl⟩
      | some e => exact ⟨_, rfl, .inr ⟨e, rfl⟩⟩
  | cons r recs ih =>
      intro i lastCertErr
      obtain ⟨hr, hrecs⟩ := List.forall_mem_cons.mp hrecs
      rw [firstAuthorizedFrom]
      cases h : authorized E X (around.fixedAt now) realmCaPem expectedOrg i r with
      | ok adv => exact absurd ((authorized_eq_ok hr.inRange).mp h) (hr.fails adv)
      | err fault => exact ih hrecs
      | panicked => exact absurd h (authorized_ne_panicked hr.inRange)

theorem Unauthorized.err (h : Unauthorized E X now realmCaPem expectedOrg r) :
    ∃ fault, authorized E X (around.fixedAt now) realmCaPem expectedOrg 0 r = .err fault := by
  cases hcheck : authorized E X (around.fixedAt now) realmCaPem expectedOrg 0 r with
  | ok adv => exact absurd ((authorized_eq_ok h.inRange).mp hcheck) (h.fails adv)
  | err fault => exact ⟨fault, rfl⟩
  | panicked => exact absurd hcheck (authorized_ne_panicked h.inRange)

theorem Untrusted.err (h : Untrusted E now r) :
    ∃ e, trusted E (around.fixedAt now) 0 r = .err e := by
  rw [trusted]
  show ∃ e, ((Dht.verify E now r).mapErr _ >>= _) = _
  cases hverify : Dht.verify E now r with
  | ok _ =>
      cases hread : Dht.readProcedureAdvertisement r with
      | ok adv => exact absurd hread (h.fails adv (Dht.attested_of_verify hverify))
      | err e => exact ⟨(), rfl⟩
      | panicked => exact absurd hread (Dht.readProcedureAdvertisement_ne_panicked r)
  | err e => exact ⟨(), rfl⟩
  | panicked => exact absurd hverify (Dht.verify_ne_panicked E now h.inRange)

/-! ## What the selection returns -/

/-- *The selection in a managed realm is exact*, and no other record disturbs it.  It reads the
first record that passes every check, and finds one when there is one; records that fail a check
change nothing about that, wherever they are inserted.  Without an authorized record it says
whether any record verified.  The plain selection is as undisturbed by untrusted records. -/
theorem selection_exact {recs : List Record} (hrecs : ∀ r ∈ recs, (Dht.envelope r).IntsInRange) :
    let find := fun recs =>
      firstAuthorizedAdvertisement E X (around.fixedAt now) recs realmCaPem expectedOrg
    (∀ adv, find recs = .ok adv ↔ ∃ before r after, recs = before ++ r :: after ∧
      Authorized E X now realmCaPem expectedOrg r adv ∧
      ∀ r' ∈ before, ∀ adv', ¬ Authorized E X now realmCaPem expectedOrg r' adv') ∧
    ((∃ adv, find recs = .ok adv) ↔
      ∃ r ∈ recs, ∃ adv, Authorized E X now realmCaPem expectedOrg r adv) ∧
    (∀ recs', Inserted (Unauthorized E X now realmCaPem expectedOrg) recs recs' →
      ∀ adv, find recs = .ok adv ↔ find recs' = .ok adv) ∧
    ((∀ r ∈ recs, ∀ adv, ¬ Authorized E X now realmCaPem expectedOrg r adv) →
      (find recs = .err .noTrustedAdvertisement ↔ ∀ r ∈ recs, ¬ Attested E now r.key r) ∧
      (find recs ≠ .err .noTrustedAdvertisement →
        ∃ e, find recs = .err (.noAuthorizedAdvertisement e))) ∧
    ∀ recs', Inserted (Untrusted E now) recs recs' →
      (firstTrustedAdvertisement E (around.fixedAt now) recs : Outcome ResolveError _) =
        firstTrustedAdvertisement E (around.fixedAt now) recs' := by
  intro find
  have hfind : ∀ {recs adv}, find recs = .ok adv ↔
      First (fun _ => authorized E X (around.fixedAt now) realmCaPem expectedOrg 0) 0 recs adv :=
    firstAuthorizedFrom_eq_ok
  have hpasses : ∀ r ∈ recs, ∀ adv,
      authorized E X (around.fixedAt now) realmCaPem expectedOrg 0 r = .ok adv ↔
        Authorized E X now realmCaPem expectedOrg r adv :=
    fun r hr adv => authorized_eq_ok (hrecs r hr)
  have hreturns : ∀ r ∈ recs,
      authorized E X (around.fixedAt now) realmCaPem expectedOrg 0 r ≠ .panicked :=
    fun r hr => authorized_ne_panicked (hrecs r hr)
  refine ⟨fun adv => ?_, ?_, fun recs' hinserted adv => ?_, fun hnone => ?_, ?_⟩
  · rw [hfind]
    exact Outcome.first_iff_of_passes hpasses hreturns
  · simp only [hfind]
    exact Outcome.exists_first_iff_of_passes hpasses hreturns
  · rw [hfind, hfind]
    exact Outcome.first_inserted (fun r => Unauthorized.err) hinserted
  · constructor
    · show firstAuthorizedFrom E X (around.fixedAt now) realmCaPem expectedOrg 0 recs none =
        .err .noTrustedAdvertisement ↔ _
      rw [firstAuthorizedFrom_eq_err_noTrusted]
      constructor
      · rintro ⟨-, h⟩ r hr
        exact (authorized_eq_err_none (hrecs r hr)).mp (h r hr)
      · intro h
        exact ⟨rfl, fun r hr => (authorized_eq_err_none (hrecs r hr)).mpr (h r hr)⟩
    · intro hne
      have hfails : ∀ r ∈ recs, Unauthorized E X now realmCaPem expectedOrg r :=
        fun r hr => ⟨hrecs r hr, hnone r hr⟩
      obtain ⟨error, herror, rfl | ⟨e, rfl⟩⟩ := firstAuthorizedFrom_eq_err hfails
      · exact absurd herror hne
      · exact ⟨e, herror⟩
  · intro recs' hinserted
    have herr : ∀ r, Untrusted E now r → ∃ e, trusted E (around.fixedAt now) 0 r = .err e :=
      fun r => Untrusted.err
    exact Outcome.findFirst_inserted herr hinserted

end

/-! ## A forged record in front of an authorized one -/

/-- A stand-in for certificates: a bundle is one certificate, and a certificate is its key. -/
def keyCertificates : X509 where
  pemBlocks pem := [some ⟨"CERTIFICATE", pem⟩]
  parseCertificate der := some ⟨"1.3.101.112", der, [some "org"]⟩
  isTrustAnchor _ := true
  isEndEntity _ := true
  verifyForUsage _ _ _ := true

/-- An advertisement with the certificate of its signer. -/
def chainedRecord : Record :=
  signedBy squatter (Dht.newProcedureAdvertisementWithCertChain (squatter.nodeId .standIn)
    "procedure" (servingStation.nodeId .standIn) Dht.DEFAULT_TTL (squatter.nodeId .standIn).1
    ⟨0, .fill 0⟩)

/-- The same without a signature. -/
def forgedRecord : Record := { chainedRecord with signature := [] }

theorem selection_exact_forged :
    firstAuthorizedAdvertisement .standIn keyCertificates ((answering forgedRecord).fixedAt 7)
        [forgedRecord, chainedRecord] (Utf8.bytes "ca") "org" =
      .ok ⟨"procedure", squatter.nodeId .standIn, servingStation.nodeId .standIn,
        some (squatter.nodeId .standIn).1⟩ := by
  have hencode : ∀ r ∈ [forgedRecord, chainedRecord],
      (Cbor.encode (Dht.envelope r)).toOption.isSome = true := by decide +kernel
  have hrecs : ∀ r ∈ [forgedRecord, chainedRecord], (Dht.envelope r).IntsInRange := by
    intro r hr
    obtain ⟨b, hb⟩ := Option.isSome_iff_exists.mp (hencode r hr)
    exact (Cbor.encode_eq_ok.mp (Outcome.toOption_eq_some.mp hb)).1
  refine ((selection_exact hrecs).1 _).mpr ⟨[forgedRecord], chainedRecord, [], rfl, ?_, ?_⟩
  · have hpasses : authorized .standIn keyCertificates ((answering forgedRecord).fixedAt 7)
        (Utf8.bytes "ca") "org" 0 chainedRecord = .ok ⟨"procedure", squatter.nodeId .standIn,
          servingStation.nodeId .standIn, some (squatter.nodeId .standIn).1⟩ := by decide +kernel
    exact (authorized_eq_ok (hrecs _ (by simp))).mp hpasses
  · intro r hr adv hauthorized
    obtain rfl := List.mem_singleton.mp hr
    obtain ⟨sig, hsig, -⟩ := hauthorized.attested.signed
    cases hsig

end Macula.DirectDial
