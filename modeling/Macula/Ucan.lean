import Macula.Identity
import Macula.Lib.Outcome

/-!
# UCAN tokens and the policy of a procedure

A token is `header.payload.signature`, each part base64url without padding, and is signed
over its first two parts.  base64 and JSON come from third-party crates and are the
parameter `TokenCodec`; the time of the check is an argument.

`verify` checks the claims before the signature, as the source does on purpose.
-/

namespace Macula.Ucan

inductive UcanError where
  | invalidToken
  | invalidSignature
  | expired
  | notYetValid
  | noToken
deriving DecidableEq

structure Capability where
  «with» : String
  can : String
deriving DecidableEq

/-- The JSON shape of a payload.  `Facts` is `HashMap<String, serde_json::Value>`. -/
structure WirePayload (Facts : Type) where
  iss : String
  aud : String
  exp : Option Int
  nbf : Option Int
  nnc : Option String
  cap : List Capability
  fct : Option Facts
  prf : List String
deriving DecidableEq

/-- The decoded claims of a token. -/
structure Payload (Facts : Type) where
  issuer : String
  audience : String
  capabilities : List Capability
  expiresAt : Option Int
  notBefore : Option Int
  nonce : String
  facts : Option Facts
  proofs : List String
deriving DecidableEq

/-- The claims of a payload; an absent nonce is read as an empty one. -/
def WirePayload.payload {Facts : Type} (wp : WirePayload Facts) : Payload Facts where
  issuer := wp.iss
  audience := wp.aud
  capabilities := wp.cap
  expiresAt := wp.exp
  notBefore := wp.nbf
  nonce := wp.nnc.getD ""
  facts := wp.fct
  proofs := wp.prf

/-- What the crate uses of `base64` and `serde_json` to read a token. -/
structure TokenCodec where
  /-- `HashMap<String, serde_json::Value>`. -/
  Facts : Type
  /-- `URL_SAFE_NO_PAD.decode`. -/
  decodeBase64 : String → Option Bytes
  /-- `serde_json::from_slice` at the payload's type. -/
  parseWire : Bytes → Option (WirePayload Facts)

/-- The claims in the JSON of a payload. -/
def TokenCodec.parsePayload (C : TokenCodec) (raw : Bytes) : Option (Payload C.Facts) :=
  (C.parseWire raw).map WirePayload.payload

variable (E : Ed25519) (C : TokenCodec)

/-- The three parts of a token. -/
def splitToken (token : Bytes) : Outcome UcanError (String × String × String) := do
  let text ← .okOr .invalidToken (Utf8.decode token)
  match text.toList.splitOn '.' with
  | [h, p, s] => return (.ofList h, .ofList p, .ofList s)
  | _ => .err .invalidToken

def decodePayload (payloadB64 : String) : Outcome UcanError (Payload C.Facts) := do
  let raw ← .okOr .invalidToken (C.decodeBase64 payloadB64)
  let wp ← .okOr .invalidToken (C.parseWire raw)
  return wp.payload

def verify (now : Int) (token : Bytes) (publicKey : NodeId) :
    Outcome UcanError (Payload C.Facts) := do
  let (headerB64, payloadB64, sigB64) ← splitToken token
  let payload ← decodePayload C payloadB64
  if payload.expiresAt.any (now > ·) then .err .expired
  else if payload.notBefore.any (now < ·) then .err .notYetValid
  else
    let sigBytes ← .okOr .invalidToken (C.decodeBase64 sigB64)
    let sig ← .okOr .invalidToken (toArr 64 sigBytes)
    let signingInput := Utf8.bytes (headerB64 ++ "." ++ payloadB64)
    if E.verify signingInput sig publicKey then return payload else .err .invalidSignature

/-- What a provider requires to answer one procedure. -/
structure Policy where
  gated : Bool
  requiredIssuer : NodeId
deriving DecidableEq

/-- Any identified caller may invoke the procedure. -/
def Policy.open : Policy := ⟨false, .fill 0⟩

def Policy.required (issuer : NodeId) : Policy := ⟨true, issuer⟩

def Policy.check (policy : Policy) (now : Int) (ucanToken : Bytes) : Outcome UcanError Unit :=
  if ¬ policy.gated then .ok ()
  else if ucanToken = [] then .err .noToken
  else do
    let _ ← verify E C now ucanToken policy.requiredIssuer
    return ()

/-! ## The parts of a token -/

theorem not_mem_of_mem_splitOn {α : Type} [DecidableEq α] {a : α} :
    ∀ {xs l : List α}, l ∈ xs.splitOn a → a ∉ l := by
  intro xs
  induction xs with
  | nil =>
      intro l h
      simp_all
  | cons x xs ih =>
      intro l h
      rw [List.splitOn_cons_eq_if_modifyHead] at h
      split at h
      · rcases List.mem_cons.mp h with rfl | h
        · exact List.not_mem_nil
        · exact ih h
      · rename_i hx
        obtain ⟨y, ys, hsplit⟩ := List.exists_cons_of_ne_nil (List.splitOn_ne_nil a xs)
        rw [hsplit, List.modifyHead_cons] at h
        rcases List.mem_cons.mp h with rfl | h
        · rw [List.mem_cons, not_or]
          exact ⟨fun hax => hx (by simp [hax]),
            ih (hsplit ▸ List.mem_cons_self)⟩
        · exact ih (hsplit ▸ List.mem_cons_of_mem y h)

/-- What is signed determines the two parts. -/
theorem signed_parts_inj {h p h' p' : String} (hh : '.' ∉ h.toList) (hp : '.' ∉ p.toList)
    (hh' : '.' ∉ h'.toList) (hp' : '.' ∉ p'.toList)
    (heq : Utf8.bytes (h ++ "." ++ p) = Utf8.bytes (h' ++ "." ++ p')) : h = h' ∧ p = p' := by
  have hsplit : ∀ {h p : String}, '.' ∉ h.toList → '.' ∉ p.toList →
      (h ++ "." ++ p).toList.splitOn '.' = [h.toList, p.toList] := by
    intro h p hh hp
    have hlist : (h ++ "." ++ p).toList = h.toList ++ '.' :: p.toList := by simp
    rw [hlist, List.splitOn_append_cons_self_of_not_mem hh, List.splitOn_eq_singleton hp]
  have hparts := congrArg (fun s : String => s.toList.splitOn '.') (Utf8.bytes_inj heq)
  simp only [hsplit hh hp, hsplit hh' hp', List.cons.injEq, and_true, String.toList_inj] at hparts
  exact hparts

/-- The three parts are what stands between the dots. -/
theorem splitToken_eq_ok_iff {token : Bytes} {h p s : String} :
    splitToken token = .ok (h, p, s) ↔
      token = Utf8.bytes (h ++ "." ++ p ++ "." ++ s) ∧
        '.' ∉ h.toList ∧ '.' ∉ p.toList ∧ '.' ∉ s.toList := by
  constructor
  · intro hsplit
    obtain ⟨text, htext, hparts⟩ := Outcome.bind_eq_ok.mp hsplit
    have hbytes : token = Utf8.bytes text := by
      rw [Outcome.okOr_eq_ok] at htext
      exact Utf8.decode_eq_some.mp htext
    split at hparts
    next h' p' s' heq =>
      obtain ⟨rfl, rfl, rfl⟩ :
          String.ofList h' = h ∧ String.ofList p' = p ∧ String.ofList s' = s := by
        simpa using hparts
      have hjoin : text.toList = h' ++ '.' :: (p' ++ '.' :: s') := by
        have hsplit : ['.'].intercalate (text.toList.splitOn '.') = text.toList :=
          List.intercalate_splitOn '.'
        rw [heq] at hsplit
        simpa [List.intercalate] using hsplit.symm
      have htext' : text = String.ofList h' ++ "." ++ String.ofList p' ++ "." ++
          String.ofList s' := by
        apply String.toList_inj.mp
        simp [hjoin]
      simp only [String.toList_ofList]
      refine ⟨htext' ▸ hbytes, ?_, ?_, ?_⟩
      all_goals exact not_mem_of_mem_splitOn (by rw [heq]; simp)
    next => cases hparts
  · rintro ⟨rfl, hh, hp, hs⟩
    have hlist : (h ++ "." ++ p ++ "." ++ s).toList =
        h.toList ++ '.' :: (p.toList ++ '.' :: s.toList) := by
      simp
    have hsplit : (h ++ "." ++ p ++ "." ++ s).toList.splitOn '.' =
        [h.toList, p.toList, s.toList] := by
      rw [hlist, List.splitOn_append_cons_self_of_not_mem hh,
        List.splitOn_append_cons_self_of_not_mem hp, List.splitOn_eq_singleton hs]
    rw [splitToken, Utf8.decode_bytes]
    show (match (h ++ "." ++ p ++ "." ++ s).toList.splitOn '.' with
      | [h, p, s] => _
      | _ => _) = _
    rw [hsplit]
    simp

/-- No part of a token has a dot. -/
theorem splitToken_no_dot {token : Bytes} {h p s : String}
    (hsplit : splitToken token = .ok (h, p, s)) : '.' ∉ h.toList ∧ '.' ∉ p.toList := by
  obtain ⟨-, hh, hp, -⟩ := splitToken_eq_ok_iff.mp hsplit
  exact ⟨hh, hp⟩

/-! ## What a token has to be -/

/-- The claims hold at `now`. -/
def Payload.Current {Facts : Type} (claims : Payload Facts) (now : Int) : Prop :=
  (∀ expiry ∈ claims.expiresAt, now ≤ expiry) ∧ ∀ start ∈ claims.notBefore, start ≤ now

/-- Text of three parts between dots, whose third is a signature of `issuer` over the first
two, and whose claims hold at `now`. -/
def Authorized (issuer : NodeId) (now : Int) (token : Bytes) : Prop :=
  ∃ header payload signature : String,
    token = Utf8.bytes (header ++ "." ++ payload ++ "." ++ signature) ∧
      '.' ∉ header.toList ∧ '.' ∉ payload.toList ∧ '.' ∉ signature.toList ∧
      (∃ sig : ByteArr 64, C.decodeBase64 signature = some sig.1 ∧
        E.verify (Utf8.bytes (header ++ "." ++ payload)) sig issuer = true) ∧
      ∃ raw claims, C.decodeBase64 payload = some raw ∧ C.parsePayload raw = some claims ∧
        claims.Current now

theorem decodePayload_eq_ok {payloadB64 : String} {claims : Payload C.Facts} :
    decodePayload C payloadB64 = .ok claims ↔
      ∃ raw, C.decodeBase64 payloadB64 = some raw ∧ C.parsePayload raw = some claims := by
  simp [decodePayload, TokenCodec.parsePayload, Outcome.bind_eq_ok]

theorem Payload.current_iff {Facts : Type} {claims : Payload Facts} {now : Int} :
    claims.Current now ↔
      ¬ claims.expiresAt.any (now > ·) = true ∧ ¬ claims.notBefore.any (now < ·) = true := by
  simp [Payload.Current, Option.any_eq_true]

theorem verify_eq_ok {now : Int} {token : Bytes} {publicKey : NodeId}
    {claims : Payload C.Facts} :
    verify E C now token publicKey = .ok claims ↔
      ∃ h p s, splitToken token = .ok (h, p, s) ∧ decodePayload C p = .ok claims ∧
        claims.Current now ∧ ∃ sig : ByteArr 64, C.decodeBase64 s = some sig.1 ∧
          E.verify (Utf8.bytes (h ++ "." ++ p)) sig publicKey = true := by
  constructor
  · intro hverify
    obtain ⟨⟨h, p, s⟩, hsplit, hverify⟩ := Outcome.bind_eq_ok.mp hverify
    obtain ⟨payload, hpayload, hverify⟩ := Outcome.bind_eq_ok.mp hverify
    -- the claims come before the signature
    dsimp only at hverify
    split at hverify
    next => cases hverify
    next hexpiry =>
      split at hverify
      next => cases hverify
      next hstart =>
        obtain ⟨raw, hraw, hsigned⟩ := Outcome.bind_eq_ok.mp hverify
        obtain ⟨sig, hsig, hchecked⟩ := Outcome.bind_eq_ok.mp hsigned
        rw [Outcome.okOr_eq_ok] at hraw hsig
        rw [toArr_eq_some.mp hsig] at hraw
        split at hchecked
        next hvalid =>
          cases hchecked
          exact ⟨h, p, s, hsplit, hpayload, Payload.current_iff.mpr ⟨hexpiry, hstart⟩, sig, hraw,
            hvalid⟩
        next => cases hchecked
  · rintro ⟨h, p, s, hsplit, hpayload, hcurrent, sig, hraw, hvalid⟩
    obtain ⟨hexpiry, hstart⟩ := Payload.current_iff.mp hcurrent
    rw [verify, hsplit, Outcome.ok_bind]
    show (decodePayload C p >>= _) = _
    rw [hpayload, Outcome.ok_bind, if_neg hexpiry, if_neg hstart, hraw]
    simp [Outcome.okOr, hvalid]

theorem authorized_iff_verify {issuer : NodeId} {now : Int} {token : Bytes} :
    Authorized E C issuer now token ↔ ∃ claims, verify E C now token issuer = .ok claims := by
  constructor
  · rintro ⟨h, p, s, htoken, hh, hp, hs, hsig, raw, claims, hraw, hclaims, hcurrent⟩
    have hsplit := splitToken_eq_ok_iff.mpr ⟨htoken, hh, hp, hs⟩
    have hpayload := (decodePayload_eq_ok C).mpr ⟨raw, hraw, hclaims⟩
    exact ⟨claims, (verify_eq_ok E C).mpr ⟨h, p, s, hsplit, hpayload, hcurrent, hsig⟩⟩
  · rintro ⟨claims, hverify⟩
    obtain ⟨h, p, s, hsplit, hpayload, hcurrent, hsig⟩ := (verify_eq_ok E C).mp hverify
    obtain ⟨htoken, hh, hp, hs⟩ := splitToken_eq_ok_iff.mp hsplit
    obtain ⟨raw, hraw, hclaims⟩ := (decodePayload_eq_ok C).mp hpayload
    exact ⟨h, p, s, htoken, hh, hp, hs, hsig, raw, claims, hraw, hclaims, hcurrent⟩

theorem not_authorized_nil {issuer : NodeId} {now : Int} : ¬ Authorized E C issuer now [] := by
  intro hauthorized
  obtain ⟨claims, hverify⟩ := (authorized_iff_verify E C).mp hauthorized
  obtain ⟨h, p, s, hsplit, -⟩ := (verify_eq_ok E C).mp hverify
  have hnone : splitToken [] = .err .invalidToken := by decide
  rw [hnone] at hsplit
  cases hsplit

/-- A gated procedure lets exactly the authorised tokens pass. -/
theorem Policy.check_required_iff {issuer : NodeId} {now : Int} {token : Bytes} :
    (Policy.required issuer).check E C now token = .ok () ↔ Authorized E C issuer now token := by
  by_cases hempty : token = []
  · subst hempty
    constructor
    · intro hcheck
      cases hcheck
    · intro hauthorized
      exact absurd hauthorized (not_authorized_nil E C)
  · have hcheck : (Policy.required issuer).check E C now token =
        verify E C now token issuer >>= fun _ => .ok () := by
      simp [Policy.check, Policy.required, hempty]
    rw [hcheck, authorized_iff_verify, Outcome.bind_eq_ok]
    simp

/-! ## A check says yes or no -/

theorem splitToken_ne_panicked (token : Bytes) : splitToken token ≠ .panicked := by
  refine Outcome.bind_ne_panicked Outcome.okOr_ne_panicked (fun text _ => ?_)
  split <;> nofun

theorem decodePayload_ne_panicked (payloadB64 : String) :
    decodePayload C payloadB64 ≠ .panicked := by
  apply Outcome.bind_ne_panicked Outcome.okOr_ne_panicked
  intro raw _
  apply Outcome.bind_ne_panicked Outcome.okOr_ne_panicked
  nofun

theorem verify_ne_panicked (now : Int) (token : Bytes) (publicKey : NodeId) :
    verify E C now token publicKey ≠ .panicked := by
  refine Outcome.bind_ne_panicked (splitToken_ne_panicked token) (fun parts _ => ?_)
  refine Outcome.bind_ne_panicked (decodePayload_ne_panicked C _) (fun payload _ => ?_)
  dsimp only
  split
  · nofun
  · split
    · nofun
    · refine Outcome.bind_ne_panicked Outcome.okOr_ne_panicked (fun sigBytes _ => ?_)
      refine Outcome.bind_ne_panicked Outcome.okOr_ne_panicked (fun sig _ => ?_)
      split <;> nofun

/-- Checking a token always says yes or no. -/
theorem Policy.check_ne_panicked (policy : Policy) (now : Int) (ucanToken : Bytes) :
    policy.check E C now ucanToken ≠ .panicked := by
  unfold Policy.check
  split
  · nofun
  · split
    · nofun
    · exact Outcome.bind_ne_panicked (verify_ne_panicked E C now _ _) fun _ _ => nofun

end Macula.Ucan
