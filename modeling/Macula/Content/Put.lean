import Macula.Content
import Macula.Manifest.Wire

/-!
# Storing content

`put` stores data with one station, by calls on a stream of its own.  Data that fits one
block is one `_content.put_block` under its BLAKE3 hash; longer data is cut into chunks, each
put as a block, and then described by a manifest.
-/

namespace Macula.Content

open Macula.Cbor (Value)
open Macula.Connection (CallError)

def PUT_BLOCK_PROC : String := "_content.put_block"
def PUT_MANIFEST_PROC : String := "_content.put_manifest"

inductive PutError where
  | call (e : CallError)
  | remote (code : UInt8) (name : String) (detail : Option String)
  | unexpectedReply (v : Value)
  | hashMismatch
deriving DecidableEq

variable (H : Hashes) {σ : Type} (station : Station σ)

/-- The payload of a RESULT, after the retries. -/
def putForResult (s : σ) (procedure : String) (payload : Value) : Outcome PutError (Value × σ) :=
  match callWithRetry station s procedure payload with
  | (.response (.result payload _), s) => .ok (payload, s)
  | (.response (.error code name _ detail), _) => .err (.remote code name detail)
  | (.failed e, _) => .err (.call e)

def blockPayload (mcid : Mcid) (bytes : Bytes) : Value :=
  .map [(.text "mcid", .bytes mcid.1), (.text "payload", .bytes bytes)]

/-- What a RESULT of `_content.put_block` says. -/
def blockStored : Value → Outcome PutError Unit
  | .text t =>
      if t = "ok" then .ok ()
      else if t = "hash_mismatch" then .err .hashMismatch
      else .err (.unexpectedReply (.text t))
  | other => .err (.unexpectedReply other)

def putBlock (s : σ) (mcid : Mcid) (bytes : Bytes) : Outcome PutError σ := do
  let (payload, s) ← putForResult station s PUT_BLOCK_PROC (blockPayload mcid bytes)
  blockStored payload
  return s

def manifestPayload (manifest : Manifest) : Value :=
  .map [(.text "manifest", manifest.toWire)]

/-- What a RESULT of `_content.put_manifest` says. -/
def manifestStored : Value → Outcome PutError Unit
  | .text t => if t = "ok" then .ok () else .err (.unexpectedReply (.text t))
  | other => .err (.unexpectedReply other)

def putManifest (s : σ) (manifest : Manifest) : Outcome PutError σ := do
  let (payload, s) ← putForResult station s PUT_MANIFEST_PROC (manifestPayload manifest)
  manifestStored payload
  return s

/-- `for (index, chunk) in chunks.iter().enumerate()`, from `index`. -/
def putChunks (manifest : Manifest) : (index : Nat) → List Bytes → σ → Outcome PutError σ
  | _, [], s => .ok s
  | index, chunk :: chunks, s => do
      let chunkMcid ← .expectSome (manifest.chunkMcid index)
      let s ← putBlock station s chunkMcid chunk
      putChunks manifest (index + 1) chunks s

/-- Store `data`, at the time `now`, and return its address.  The name is unused for a single
block. -/
def put (s : σ) (data : Bytes) (name : AllocString) (now : UInt64) : Outcome PutError (Mcid × σ) :=
  if data.length ≤ DEFAULT_CHUNK_SIZE then do
    let mcid := Manifest.blockMcid H data
    let s ← putBlock station s mcid data
    return (mcid, s)
  else do
    let opts := { CreateOptions.default with name }
    let (manifest, chunks) ← Manifest.create H data opts now
    let s ← putChunks station manifest 0 chunks s
    let s ← putManifest station s manifest
    return (manifest.mcid, s)

/-! ## Retries -/

/-- A RESULT whose payload is the text `ok`. -/
def Reply.Accepts (reply : Reply) : Prop :=
  ∃ respondedBy, reply = .response (.result (.text "ok") respondedBy)

variable {station}

/-- The last attempt is a call like the others, made in a state that the failed ones left. -/
theorem callAttempts_last {P : σ → Prop} {procedure : String} {payload : Value}
    (hstep : ∀ s, P s → P (station s procedure payload).2) : ∀ {retries : Nat} {s : σ}, P s →
      ∃ s', P s' ∧
        callAttempts station procedure payload retries s = station s' procedure payload := by
  intro retries
  induction retries with
  | zero =>
      intro s hs
      exact ⟨s, hs, rfl⟩
  | succ retries ih =>
      intro s hs
      simp only [callAttempts]
      split
      · exact ih (hstep s hs)
      · exact ⟨s, hs, rfl⟩

theorem callWithRetry_last {P : σ → Prop} {procedure : String} {payload : Value} {s : σ}
    (hstep : ∀ s, P s → P (station s procedure payload).2) (hs : P s) :
    ∃ s', P s' ∧ callWithRetry station s procedure payload = station s' procedure payload :=
  callAttempts_last hstep hs

/-- A response that is no ERROR ends the retries. -/
theorem callWithRetry_result {s s' : σ} {procedure : String} {payload v : Value}
    {respondedBy : NodeId}
    (h : station s procedure payload = (.response (.result v respondedBy), s')) :
    callWithRetry station s procedure payload = (.response (.result v respondedBy), s') := by
  simp [callWithRetry, MAX_ATTEMPTS, callAttempts, h, Reply.isRetryable]

theorem blockStored_eq_ok {payload : Value} :
    blockStored payload = .ok () ↔ payload = .text "ok" := by
  cases payload with
  | text t =>
      simp only [blockStored, Value.text.injEq]
      split
      · simp [*]
      · split <;> simp [*]
  | _ => simp [blockStored]

theorem manifestStored_eq_ok {payload : Value} :
    manifestStored payload = .ok () ↔ payload = .text "ok" := by
  cases payload with
  | text t =>
      simp only [manifestStored, Value.text.injEq]
      split <;> simp [*]
  | _ => simp [manifestStored]

theorem putForResult_eq_ok {s s' : σ} {procedure : String} {payload v : Value} :
    putForResult station s procedure payload = .ok (v, s') ↔
      ∃ respondedBy, callWithRetry station s procedure payload =
        (.response (.result v respondedBy), s') := by
  unfold putForResult
  split <;> simp_all

/-- A put whose answers are read by `stored` succeeds when some attempt was answered `ok`. -/
theorem putForResult_stored_eq_ok {stored : Value → Outcome PutError Unit}
    (hstored : ∀ {v}, stored v = .ok () ↔ v = .text "ok") {s s' : σ} {procedure : String}
    {payload : Value} :
    (putForResult station s procedure payload >>= fun p => stored p.1 >>= fun _ => pure p.2) =
        .ok s' ↔
      ∃ reply, reply.Accepts ∧ callWithRetry station s procedure payload = (reply, s') := by
  simp only [Outcome.bind_eq_ok]
  constructor
  · rintro ⟨⟨v, s₁⟩, hcall, ⟨⟩, hv, h⟩
    obtain ⟨respondedBy, hcall⟩ := putForResult_eq_ok.mp hcall
    obtain rfl := Outcome.ok.inj h
    obtain rfl := hstored.mp hv
    exact ⟨_, ⟨respondedBy, rfl⟩, hcall⟩
  · rintro ⟨_, ⟨respondedBy, rfl⟩, hcall⟩
    exact ⟨_, putForResult_eq_ok.mpr ⟨_, hcall⟩, (), hstored.mpr rfl, rfl⟩

theorem putBlock_eq_ok {s s' : σ} {mcid : Mcid} {bytes : Bytes} :
    putBlock station s mcid bytes = .ok s' ↔
      ∃ reply, reply.Accepts ∧
        callWithRetry station s PUT_BLOCK_PROC (blockPayload mcid bytes) = (reply, s') :=
  putForResult_stored_eq_ok blockStored_eq_ok

theorem putManifest_eq_ok {s s' : σ} {manifest : Manifest} :
    putManifest station s manifest = .ok s' ↔
      ∃ reply, reply.Accepts ∧
        callWithRetry station s PUT_MANIFEST_PROC (manifestPayload manifest) = (reply, s') :=
  putForResult_stored_eq_ok manifestStored_eq_ok

end Macula.Content
