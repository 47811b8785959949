import Macula.Dht

/-!
# The certificate chain of an advertisement

In a managed realm a provider embeds its certificate chain, leaf first, in its advertisement.
The chain has to lead to the realm's CA, the leaf has to hold the key that signed the record,
and its organization has to be the expected one.

PEM, X.509 and path validation come from third-party crates and are the parameter `X509`.
-/

namespace Macula.CertChain

open Macula.Dht (Record)

inductive CertChainError where
  | badSignature
  | absent
  | undecodable
  | keyMismatch
  | untrusted
  | orgMismatch
deriving DecidableEq

/-- A block of a PEM bundle. -/
structure Pem where
  label : String
  contents : Bytes
deriving DecidableEq

/-- What is read of a parsed certificate. -/
structure Certificate where
  /-- The algorithm of its public key, as a dotted identifier. -/
  algorithm : String
  publicKey : Bytes
  /-- The organizations of its subject; `none` where one is no string. -/
  organizations : List (Option String)
deriving DecidableEq

/-- What the crate uses of `x509-parser` and `webpki`. -/
structure X509 where
  /-- `Pem::iter_from_buffer`, with `none` for a block that is damaged. -/
  pemBlocks : Bytes → List (Option Pem)
  parseCertificate : Bytes → Option Certificate
  isTrustAnchor : Bytes → Bool
  isEndEntity : Bytes → Bool
  /-- Whether a leaf leads to the anchor over the certificates between them. -/
  verifyForUsage : Bytes → Bytes → List Bytes → Bool

variable (X : X509)

/-- The key of an Ed25519 certificate. -/
def ed25519PubkeyFromCert (der : Bytes) : Option NodeId := do
  let cert ← X.parseCertificate der
  if cert.algorithm ≠ "1.3.101.112" then none else toArr 32 cert.publicKey

def decodeCertChain (certChainPem : Bytes) : Outcome CertChainError (List Bytes) :=
  let ders := ((X.pemBlocks certChainPem).filterMap id |>.filter (·.label = "CERTIFICATE")).map
    Pem.contents
  if ders = [] then .err .undecodable else .ok ders

/-- The first organization, when it is a string. -/
def leafOrganization (der : Bytes) : Option String := do
  let cert ← X.parseCertificate der
  let org ← cert.organizations.head?
  org

/-- The leaf leads to the first certificate of `realmCaPem`. -/
def validateCertPath (realmCaPem : Bytes) (chain : List Bytes) : Outcome CertChainError Unit := do
  let anchors ← (decodeCertChain X realmCaPem).mapErr fun _ => .untrusted
  let anchor ← .expectSome anchors.head?
  if !X.isTrustAnchor anchor then .err .untrusted
  else
    let leaf ← .expectSome chain.head?
    if !X.isEndEntity leaf then .err .untrusted
    else if X.verifyForUsage anchor leaf chain.tail then return ()
    else .err .untrusted

def verifyAdvertisementCertChain (E : Ed25519) (now : Int) (realmCaPem : Bytes) (r : Record)
    (expectedOrg : String) : Outcome CertChainError Unit := do
  (Dht.verify E now r).mapErr fun _ => .badSignature
  let adv ← (Dht.readProcedureAdvertisement r).mapErr fun _ => .badSignature
  let chainPem ← .okOr .absent adv.certChain
  let chain ← decodeCertChain X chainPem
  let leaf ← .expectSome chain.head?
  let leafKey ← .okOr .keyMismatch (ed25519PubkeyFromCert X leaf)
  if leafKey ≠ r.key then .err .keyMismatch
  else
    validateCertPath X realmCaPem chain
    let leafOrg ← .okOr .orgMismatch (leafOrganization X leaf)
    if leafOrg ≠ expectedOrg then .err .orgMismatch else return ()

end Macula.CertChain
