import Macula.Lib.Base64
import Macula.Ucan

/-!
# Minting a token

`create` writes the claims as JSON, signs header and payload, and joins the three parts with
dots.  What it uses of `base64` and `serde_json` for that is the parameter `TokenWriter`.

base64url has no dot in its alphabet, so the three parts come apart again whatever text is in
the claims.  The token then reads as the claims it was minted with, and the key that signed it
accepts it from `nbf` to `exp`, both included (`create_verify_window`).  A reader checks `exp`
before `nbf` and both before the signature, and `is_expired` and `verify` make the same
comparison.
-/

namespace Macula.Ucan

def ALG : String := "EdDSA"
def TYP : String := "JWT"
def UCV : String := "0.10.0"

structure Header where
  alg : String
  typ : String
  ucv : String

/-- What the crate uses of `base64` and `serde_json` to write a token. -/
structure TokenWriter (C : TokenCodec) where
  /-- `URL_SAFE_NO_PAD.encode`. -/
  encodeBase64 : Bytes → String
  /-- `serde_json::to_vec` at the header's type. -/
  encodeHeader : Header → Option Bytes
  /-- `serde_json::to_vec` at the payload's type. -/
  encodeWire : WirePayload C.Facts → Option Bytes

/-- Optional claims for `create`. -/
structure CreateOpts (Facts : Type) where
  expiresAt : Option Int
  notBefore : Option Int
  nonce : Option String
  facts : Option Facts
  proofs : Option (List String)

section Definitions

variable (E : Ed25519) {C : TokenCodec} (W : TokenWriter C)

/-- The payload that `create` writes. -/
def CreateOpts.wirePayload {Facts : Type} (opts : CreateOpts Facts) (issuer audience : String)
    (capabilities : List Capability) : WirePayload Facts where
  iss := issuer
  aud := audience
  exp := opts.expiresAt
  nbf := opts.notBefore
  nnc := opts.nonce
  cap := capabilities
  fct := opts.facts
  prf := opts.proofs.getD []

/-- Mint a token, signed by `identity`. -/
def create (issuer audience : String) (capabilities : List Capability) (identity : KeyPair)
    (opts : CreateOpts C.Facts) : Outcome UcanError Bytes := do
  let payload := opts.wirePayload issuer audience capabilities
  let headerJson ← .okOr .invalidToken (W.encodeHeader ⟨ALG, TYP, UCV⟩)
  let payloadJson ← .okOr .invalidToken (W.encodeWire payload)
  let headerB64 := W.encodeBase64 headerJson
  let payloadB64 := W.encodeBase64 payloadJson
  let signingInput := headerB64 ++ "." ++ payloadB64
  let sig := identity.sign E (Utf8.bytes signingInput)
  let sigB64 := W.encodeBase64 sig.1
  return Utf8.bytes (signingInput ++ "." ++ sigB64)

variable (C)

/-- The claims of a token, its signature and its times not checked. -/
def decode (token : Bytes) : Outcome UcanError (Payload C.Facts) := do
  let (_, payloadB64, _) ← splitToken token
  decodePayload C payloadB64

/-- `decode(token).map(claim)`. -/
def getClaim {α : Type} (claim : Payload C.Facts → α) (token : Bytes) : Outcome UcanError α := do
  let p ← decode C token
  return claim p

def getIssuer : Bytes → Outcome UcanError String := getClaim C Payload.issuer

def getAudience : Bytes → Outcome UcanError String := getClaim C Payload.audience

def getCapabilities : Bytes → Outcome UcanError (List Capability) :=
  getClaim C Payload.capabilities

def getExpiration : Bytes → Outcome UcanError (Option Int) := getClaim C Payload.expiresAt

def getProofs : Bytes → Outcome UcanError (List String) := getClaim C Payload.proofs

/-- A token with no `exp` claim is never expired. -/
def isExpired (now : Int) (token : Bytes) : Outcome UcanError Bool := do
  let payload ← decode C token
  return match payload.expiresAt with
    | some exp => now > exp
    | none => false

end Definitions

/-! ## Reading a token in three parts -/

section Parts

variable {E : Ed25519} {C : TokenCodec} {token : Bytes} {h p s : String}
  {claims : Payload C.Facts} {sig : ByteArr 64} {now : Int} {publicKey : NodeId}

theorem decode_of_parts (hsplit : splitToken token = .ok (h, p, s))
    (hpayload : decodePayload C p = .ok claims) : decode C token = .ok claims := by
  rw [decode, hsplit]
  exact hpayload

theorem getClaim_of_decode {α : Type} (hdecode : decode C token = .ok claims)
    (claim : Payload C.Facts → α) : getClaim C claim token = .ok (claim claims) := by
  rw [getClaim, hdecode]
  rfl

theorem isExpired_of_decode (hdecode : decode C token = .ok claims) :
    isExpired C now token = .ok (claims.expiresAt.any (now > ·)) := by
  rw [isExpired, hdecode, Outcome.ok_bind]
  cases claims.expiresAt with
  | none => rfl
  | some exp => rfl

variable (hsplit : splitToken token = .ok (h, p, s)) (hpayload : decodePayload C p = .ok claims)
  (hsig : C.decodeBase64 s = some sig.1)

include hsplit hpayload hsig

/-- What `verify` makes of a token whose payload and signature read: the times decide before
the signature does, and the end before the start. -/
theorem verify_of_parts : verify E C now token publicKey =
    if claims.expiresAt.any (now > ·) then .err .expired
    else if claims.notBefore.any (now < ·) then .err .notYetValid
    else if E.verify (Utf8.bytes (h ++ "." ++ p)) sig publicKey then .ok claims
    else .err .invalidSignature := by
  have htoArr : toArr 64 sig.1 = some sig := toArr_val sig
  rw [verify, hsplit, Outcome.ok_bind]
  show (decodePayload C p >>= _) = _
  rw [hpayload, Outcome.ok_bind, hsig, Outcome.okOr, Outcome.ok_bind, htoArr]
  rfl

theorem verify_of_current (hcurrent : claims.Current now)
    (hvalid : E.verify (Utf8.bytes (h ++ "." ++ p)) sig publicKey = true) :
    verify E C now token publicKey = .ok claims := by
  obtain ⟨hexp, hnbf⟩ := Payload.current_iff.mp hcurrent
  rw [verify_of_parts hsplit hpayload hsig, if_neg hexp, if_neg hnbf, if_pos hvalid]

theorem verify_eq_expired : verify E C now token publicKey = .err .expired ↔
    claims.expiresAt.any (now > ·) = true := by
  rw [verify_of_parts hsplit hpayload hsig]
  constructor
  · intro herr
    split at herr
    next hexp => exact hexp
    next =>
      split at herr
      next => cases herr
      next => split at herr <;> cases herr
  · intro hexp
    rw [if_pos hexp]

theorem verify_of_early (hexp : ∀ exp ∈ claims.expiresAt, now ≤ exp)
    (hnbf : ∃ nbf ∈ claims.notBefore, now < nbf) :
    verify E C now token publicKey = .err .notYetValid := by
  have hnot : ¬ claims.expiresAt.any (now > ·) = true := by
    simpa [Option.any_eq_true] using hexp
  have hearly : claims.notBefore.any (now < ·) = true := by
    simpa [Option.any_eq_true] using hnbf
  rw [verify_of_parts hsplit hpayload hsig, if_neg hnot, if_pos hearly]

/-- Whatever the key, an accepted token has the one payload and a signature under that key. -/
theorem signed_of_verify {claims' : Payload C.Facts}
    (hok : verify E C now token publicKey = .ok claims') :
    claims' = claims ∧ E.verify (Utf8.bytes (h ++ "." ++ p)) sig publicKey = true := by
  rw [verify_of_parts hsplit hpayload hsig] at hok
  split at hok
  next => cases hok
  next =>
    split at hok
    next => cases hok
    next =>
      split at hok
      next hvalid =>
        cases hok
        exact ⟨rfl, hvalid⟩
      next => cases hok

end Parts

/-! ## What was minted -/

/-- The claims of `create`'s arguments: no nonce is an empty one, and no proofs are none. -/
def CreateOpts.claims {Facts : Type} (opts : CreateOpts Facts) (issuer audience : String)
    (capabilities : List Capability) : Payload Facts where
  issuer := issuer
  audience := audience
  capabilities := capabilities
  expiresAt := opts.expiresAt
  notBefore := opts.notBefore
  nonce := opts.nonce.getD ""
  facts := opts.facts
  proofs := opts.proofs.getD []

section Minted

variable (E : Ed25519) {C : TokenCodec} (W : TokenWriter C) (issuer audience : String)
  (capabilities : List Capability) (identity : KeyPair) (opts : CreateOpts C.Facts)
  (hbase64 : ∀ b, C.decodeBase64 (W.encodeBase64 b) = some b)
  (halphabet : ∀ b, '.' ∉ (W.encodeBase64 b).toList)
  (hheader : ∃ raw, W.encodeHeader ⟨ALG, TYP, UCV⟩ = some raw)
  (hjson : ∃ raw, W.encodeWire (opts.wirePayload issuer audience capabilities) = some raw ∧
    C.parseWire raw = some (opts.wirePayload issuer audience capabilities))

include hbase64 halphabet hheader hjson

/-- The parts of a minted token. -/
theorem create_parts : ∃ h p : String,
    create E W issuer audience capabilities identity opts = .ok (Utf8.bytes (h ++ "." ++ p ++ "." ++
      W.encodeBase64 (identity.sign E (Utf8.bytes (h ++ "." ++ p))).1)) ∧
    '.' ∉ h.toList ∧ '.' ∉ p.toList ∧
    decodePayload C p = .ok (opts.claims issuer audience capabilities) := by
  obtain ⟨headerJson, hheaderJson⟩ := hheader
  obtain ⟨payloadJson, hpayloadJson, hparse⟩ := hjson
  refine ⟨W.encodeBase64 headerJson, W.encodeBase64 payloadJson, ?_, halphabet _, halphabet _, ?_⟩
  · simp [create, hheaderJson, hpayloadJson, Outcome.okOr]
  · simp [decodePayload, hbase64, hparse, Outcome.okOr, CreateOpts.claims, CreateOpts.wirePayload,
      WirePayload.payload]

/-- **Round trip and window.**  A minted token verifies under the key that signed it with exactly
the claims it was given, from `nbf` to `exp`; after `exp` it is expired, and before `nbf` it is
not yet valid.  Everything that reads the token without its key agrees, and another key accepts
it only where the signature verifies under that key too. -/
theorem create_verify_window : ∃ (signingInput : String) (token : Bytes),
    create E W issuer audience capabilities identity opts = .ok token ∧
    token = Utf8.bytes (signingInput ++ "." ++
      W.encodeBase64 (identity.sign E (Utf8.bytes signingInput)).1) ∧
    (∀ now, (∀ exp ∈ opts.expiresAt, now ≤ exp) → (∀ nbf ∈ opts.notBefore, nbf ≤ now) →
      verify E C now token (identity.nodeId E) =
        .ok (opts.claims issuer audience capabilities)) ∧
    (∀ now, (∃ exp ∈ opts.expiresAt, exp < now) →
      verify E C now token (identity.nodeId E) = .err .expired) ∧
    (∀ now, (∀ exp ∈ opts.expiresAt, now ≤ exp) → (∃ nbf ∈ opts.notBefore, now < nbf) →
      verify E C now token (identity.nodeId E) = .err .notYetValid) ∧
    decode C token = .ok (opts.claims issuer audience capabilities) ∧
    getIssuer C token = .ok issuer ∧
    getAudience C token = .ok audience ∧
    getCapabilities C token = .ok capabilities ∧
    getExpiration C token = .ok opts.expiresAt ∧
    getProofs C token = .ok (opts.proofs.getD []) ∧
    (∀ now key, ∃ expired, isExpired C now token = .ok expired ∧
      (expired = true ↔ verify E C now token key = .err .expired)) ∧
    ∀ now key claims, verify E C now token key = .ok claims →
      claims = opts.claims issuer audience capabilities ∧
        E.verify (Utf8.bytes signingInput) (identity.sign E (Utf8.bytes signingInput)) key =
          true := by
  obtain ⟨h, p, hcreate, hh, hp, hpayload⟩ := create_parts E W issuer audience capabilities identity
    opts hbase64 halphabet hheader hjson
  generalize hsig : identity.sign E (Utf8.bytes (h ++ "." ++ p)) = sig at hcreate
  have hsplit := splitToken_eq_ok_iff.mpr ⟨rfl, hh, hp, halphabet sig.1⟩
  have hdecode := decode_of_parts hsplit hpayload
  have hsigned : E.verify (Utf8.bytes (h ++ "." ++ p)) sig (identity.nodeId E) = true :=
    hsig ▸ identity.verify_sign E _
  refine ⟨h ++ "." ++ p, _, hcreate, by rw [hsig], ?_, ?_, ?_, hdecode,
    getClaim_of_decode hdecode _, getClaim_of_decode hdecode _, getClaim_of_decode hdecode _,
    getClaim_of_decode hdecode _, getClaim_of_decode hdecode _, ?_, ?_⟩
  · intro now hexp hnbf
    exact verify_of_current hsplit hpayload (hbase64 sig.1) ⟨hexp, hnbf⟩ hsigned
  · rintro now ⟨exp, hexp, hlt⟩
    apply (verify_eq_expired hsplit hpayload (hbase64 sig.1)).mpr
    exact (Option.any_eq_true _ _).mpr ⟨exp, hexp, decide_eq_true hlt⟩
  · intro now hexp hnbf
    exact verify_of_early hsplit hpayload (hbase64 sig.1) hexp hnbf
  · intro now key
    exact ⟨_, isExpired_of_decode hdecode, (verify_eq_expired hsplit hpayload (hbase64 sig.1)).symm⟩
  · intro now key claims hok
    rw [hsig]
    exact signed_of_verify hsplit hpayload (hbase64 sig.1) hok

end Minted

/-! A token with quotes and dots in its claims, and facts whose values are texts. -/

def acme : KeyPair := ⟨.fill 7⟩

def acmeCapability : Capability := ⟨"mri:io.macula.\"acme\"", "call/*"⟩

def acmeOpts : CreateOpts (List (String × String)) where
  expiresAt := some 200
  notBefore := some 100
  nonce := none
  facts := some [("org.name", "a.\"c\".me")]
  proofs := none

def acmePayload : WirePayload (List (String × String)) :=
  acmeOpts.wirePayload "did:macula:io.macula.acme" "did:macula:\"bob\"" [acmeCapability]

/-- `serde_json::to_vec` of `acmePayload`. -/
def acmeJson : Bytes := Utf8.bytes <|
  "\x7b\"iss\":\"did:macula:io.macula.acme\",\"aud\":\"did:macula:\\\"bob\\\"\"," ++
  "\"exp\":200,\"nbf\":100," ++
  "\"cap\":[\x7b\"with\":\"mri:io.macula.\\\"acme\\\"\",\"can\":\"call/*\"\x7d]," ++
  "\"fct\":\x7b\"org.name\":\"a.\\\"c\\\".me\"\x7d,\"prf\":[]\x7d"

def acmeCodec : TokenCodec where
  Facts := List (String × String)
  decodeBase64 := Base64.decode
  parseWire raw := if raw = acmeJson then some acmePayload else none

def acmeWriter : TokenWriter acmeCodec where
  encodeBase64 := Base64.encode
  encodeHeader header := some <| Utf8.bytes <|
    "\x7b\"alg\":\"" ++ header.alg ++ "\",\"typ\":\"" ++ header.typ ++ "\",\"ucv\":\"" ++
      header.ucv ++ "\"\x7d"
  encodeWire (payload : WirePayload (List (String × String))) :=
    if payload = acmePayload then some acmeJson else none

/-- That token at the two ends of its window and one second outside them. -/
theorem create_verify_window_acme : ∃ token,
    create .standIn acmeWriter "did:macula:io.macula.acme" "did:macula:\"bob\"" [acmeCapability]
      acme acmeOpts = .ok token ∧
    verify .standIn acmeCodec 99 token (acme.nodeId .standIn) = .err .notYetValid ∧
    verify .standIn acmeCodec 100 token (acme.nodeId .standIn) = .ok acmePayload.payload ∧
    verify .standIn acmeCodec 200 token (acme.nodeId .standIn) = .ok acmePayload.payload ∧
    verify .standIn acmeCodec 201 token (acme.nodeId .standIn) = .err .expired ∧
    getAudience acmeCodec token = .ok "did:macula:\"bob\"" := by
  have halphabet : ∀ b, '.' ∉ (acmeWriter.encodeBase64 b).toList := by
    intro b hdot
    exact Base64.value_ne_none_of_mem_encode hdot rfl
  have hjson : ∃ raw, acmeWriter.encodeWire acmePayload = some raw ∧
      acmeCodec.parseWire raw = some acmePayload := by
    simp [acmeWriter, acmeCodec]
  obtain ⟨_, token, hcreate, -, hok, hexpired, hearly, -, -, haudience, -⟩ :=
    create_verify_window .standIn acmeWriter "did:macula:io.macula.acme" "did:macula:\"bob\""
      [acmeCapability] acme acmeOpts Base64.decode_encode halphabet ⟨_, rfl⟩ hjson
  have hstart : ∀ exp ∈ acmeOpts.expiresAt, (99 : Int) ≤ exp := by simp [acmeOpts]
  refine ⟨token, hcreate, hearly 99 hstart ⟨100, rfl, by decide⟩, ?_, ?_,
    hexpired 201 ⟨200, rfl, by decide⟩, haudience⟩
  · exact hok 100 (by simp [acmeOpts]) (by simp [acmeOpts])
  · exact hok 200 (by simp [acmeOpts]) (by simp [acmeOpts])

end Macula.Ucan
