import Macula.Connection.Errors
import Macula.Frame.Call
import Macula.Manifest

/-!
# Fetching content

`get` fetches the content an MCID addresses from one station, by calls on a stream of its
own.  The station is whatever answers: a state and a function from it and a request to a
reply, which may be any response and any failure of the call.

A single block is hashed and compared with the MCID it was asked for.  A manifest is not:
its own address field is never recomputed and never compared with the request.  What the
manifest path establishes is that the data agrees with the manifest that was served.

So for the MCID of a manifest the station decides what `get` returns.  It can serve any byte
string (`get_serving`), and `get` is right exactly for the other MCIDs (`get_addresses_iff`).
-/

namespace Macula.Content

open Macula.Cbor (Value)
open Macula.Frame (CallResponse)
open Macula.Connection (CallError)

def GET_BLOCK_PROC : String := "_content.get_block"
def GET_MANIFEST_PROC : String := "_content.get_manifest"

def MAX_ATTEMPTS : Nat := 3

/-- How one `FrameStream::call` ends. -/
inductive Reply where
  | response (r : CallResponse)
  | failed (e : CallError)

/-- A peer that answers calls, with a state of its own. -/
abbrev Station (σ : Type) := (s : σ) → (procedure : String) → (payload : Value) → Reply × σ

inductive GetError where
  | call (e : CallError)
  | remote (code : UInt8) (name : String) (detail : Option String)
  | unexpectedReply (v : Value)
  | notFound
  | manifestDecode (e : Manifest.FromWireError)
  | hashMismatch
  | verify (e : Manifest.VerifyError)
deriving DecidableEq

variable (H : Hashes) {σ : Type} (station : Station σ)

/-! ## Calls -/

/-- An ERROR with a code that permits a retry. -/
def Reply.isRetryable : Reply → Bool
  | .response (.error code _ _ _) => (Bolt4.Code.fromU8 code).any Bolt4.Code.isRetryable
  | _ => false

/-- The loop of `call_with_retry`, with `retries` attempts left after this one. -/
def callAttempts (procedure : String) (payload : Value) : (retries : Nat) → σ → Reply × σ
  | 0, s => station s procedure payload
  | retries + 1, s =>
      let (outcome, s) := station s procedure payload
      if outcome.isRetryable then callAttempts procedure payload retries s else (outcome, s)

def callWithRetry (s : σ) (procedure : String) (payload : Value) : Reply × σ :=
  callAttempts station procedure payload (MAX_ATTEMPTS - 1) s

/-- The payload of a RESULT, after the retries. -/
def callForResult (s : σ) (procedure : String) (payload : Value) : Outcome GetError (Value × σ) :=
  match callWithRetry station s procedure payload with
  | (.response (.result payload _), s) => .ok (payload, s)
  | (.response (.error code name _ detail), _) => .err (.remote code name detail)
  | (.failed e, _) => .err (.call e)

/-! ## Get -/

/-- The payload of both requests: the address asked for. -/
def mcidPayload (mcid : Mcid) : Value := .map [(.text "mcid", .bytes mcid.1)]

/-- What a RESULT of `_content.get_block` carries. -/
def blockOfPayload : Value → Outcome GetError Bytes
  | .bytes b => .ok b
  | .text t => if t = "not_found" then .err .notFound else .err (.unexpectedReply (.text t))
  | other => .err (.unexpectedReply other)

def getBlock (s : σ) (mcid : Mcid) : Outcome GetError (Bytes × σ) := do
  let (payload, s) ← callForResult station s GET_BLOCK_PROC (mcidPayload mcid)
  let data ← blockOfPayload payload
  return (data, s)

/-- What a RESULT of `_content.get_manifest` carries. -/
def manifestOfPayload : Value → Outcome GetError Manifest
  | .map pairs => (Manifest.fromWire 64 (.map pairs)).mapErr .manifestDecode
  | .text t => if t = "not_found" then .err .notFound else .err (.unexpectedReply (.text t))
  | other => .err (.unexpectedReply other)

def getManifest (s : σ) (mcid : Mcid) : Outcome GetError (Manifest × σ) := do
  let (payload, s) ← callForResult station s GET_MANIFEST_PROC (mcidPayload mcid)
  let manifest ← manifestOfPayload payload
  return (manifest, s)

/-- The chunk at `index`, checked against its hash in the manifest. -/
def getChunk (manifest : Manifest) (index : Nat) (s : σ) : Outcome GetError (Bytes × σ) := do
  let chunkMcid ← .expectSome (manifest.chunkMcid index)
  let (chunk, s) ← getBlock station s chunkMcid
  if Manifest.blockMcid H chunk ≠ chunkMcid then .err .hashMismatch else return (chunk, s)

/-- `for index in 0..chunk_count`, from `index` and with `count` chunks to go. -/
def getChunks (manifest : Manifest) : (count index : Nat) → (data : Bytes) → σ →
    Outcome GetError (Bytes × σ)
  | 0, _, data, s => .ok (data, s)
  | count + 1, index, data, s => do
      let (chunk, s) ← getChunk H station manifest index s
      getChunks manifest count (index + 1) (data ++ chunk) s

/-- Fetch and verify the content addressed by `mcid`. -/
def get (s : σ) (mcid : Mcid) : Outcome GetError (Bytes × σ) :=
  if !Manifest.mcidIsChunked mcid then do
    let (data, s) ← getBlock station s mcid
    if Manifest.blockMcid H data ≠ mcid then .err .hashMismatch else return (data, s)
  else do
    let (manifest, s) ← getManifest station s mcid
    let (data, s) ← getChunks H station manifest manifest.chunkCount 0 [] s
    (manifest.verify H data).mapErr .verify
    return (data, s)

/-! ## What an address promises -/

/-- `data` is the content `mcid` addresses: its block hash, or the hash of manifest fields
that give its size and the Merkle root of its chunks. -/
def Addresses (mcid : Mcid) (data : Bytes) : Prop :=
  if Manifest.mcidIsChunked mcid then
    ∃ (name : String) (chunkSize chunkCount : Nat) (algorithm : Algorithm) (root : ByteArr 32),
      (Manifest.computeMcid H name data.length chunkSize chunkCount algorithm root :
        Outcome GetError Mcid) = .ok mcid ∧
      (Manifest.rechunkedRoot H data chunkSize algorithm : Outcome GetError (ByteArr 32)) = .ok root
  else mcid = Manifest.blockMcid H data

theorem addresses_of_not_chunked {mcid : Mcid} {data : Bytes}
    (h : Manifest.mcidIsChunked mcid = false) :
    Addresses H mcid data ↔ mcid = Manifest.blockMcid H data := by
  rw [Addresses, h]
  simp

theorem addresses_of_chunked {mcid : Mcid} {data : Bytes}
    (h : Manifest.mcidIsChunked mcid = true) :
    Addresses H mcid data ↔
      ∃ (name : String) (chunkSize chunkCount : Nat) (algorithm : Algorithm) (root : ByteArr 32),
        (Manifest.computeMcid H name data.length chunkSize chunkCount algorithm root :
          Outcome GetError Mcid) = .ok mcid ∧
        (Manifest.rechunkedRoot H data chunkSize algorithm : Outcome GetError (ByteArr 32)) =
          .ok root := by
  rw [Addresses, if_pos h]

/-! ## Single blocks -/

/-- The block path compares the hash with the address. -/
theorem get_block_addresses {s s' : σ} {mcid : Mcid} {data : Bytes}
    (hchunked : Manifest.mcidIsChunked mcid = false)
    (h : get H station s mcid = .ok (data, s')) : Addresses H mcid data := by
  rw [get, hchunked, Bool.not_false, if_pos rfl] at h
  obtain ⟨⟨block, s₁⟩, -, h⟩ := Outcome.bind_eq_ok.mp h
  replace h : (if Manifest.blockMcid H block ≠ mcid then .err .hashMismatch else .ok (block, s₁)) =
      (.ok (data, s') : Outcome GetError (Bytes × σ)) := h
  split at h
  · cases h
  · rename_i hblock
    obtain ⟨rfl, -⟩ := Prod.mk.inj (Outcome.ok.inj h)
    exact (addresses_of_not_chunked H hchunked).mpr (not_not.mp hblock).symm

/-! ## Manifests -/

/-- What the manifest path establishes: the data has the size and the root of the manifest
that was served. -/
theorem get_manifest_verified {s s' : σ} {mcid : Mcid} {data : Bytes}
    (hchunked : Manifest.mcidIsChunked mcid = true)
    (h : get H station s mcid = .ok (data, s')) :
    ∃ manifest s₁, getManifest station s mcid = .ok (manifest, s₁) ∧
      manifest.verify H data = .ok () := by
  rw [get, hchunked, Bool.not_true, if_neg (by decide)] at h
  obtain ⟨⟨manifest, s₁⟩, hmanifest, h⟩ := Outcome.bind_eq_ok.mp h
  obtain ⟨⟨data', s₂⟩, -, h⟩ := Outcome.bind_eq_ok.mp h
  obtain ⟨⟨⟩, hverify, h⟩ := Outcome.bind_eq_ok.mp h
  obtain ⟨rfl, -⟩ := Prod.mk.inj (Outcome.ok.inj h)
  exact ⟨manifest, s₁, hmanifest, Outcome.mapErr_eq_ok.mp hverify⟩

/-- A manifest is of the address `mcid` when its own fields hash to it. -/
def IsManifestOf (mcid : Mcid) (manifest : Manifest) : Prop :=
  (Manifest.computeMcid H manifest.name manifest.size manifest.chunkSize manifest.chunkCount
    manifest.hashAlgorithm manifest.rootHash : Outcome GetError Mcid) = .ok mcid

/-- The root computation has no error of its own. -/
theorem rechunkedRoot_eq_ok {ε ε' : Type} {data : Bytes} {chunkSize : Nat} {algorithm : Algorithm}
    {root : ByteArr 32}
    (h : (Manifest.rechunkedRoot H data chunkSize algorithm : Outcome ε (ByteArr 32)) = .ok root) :
    (Manifest.rechunkedRoot H data chunkSize algorithm : Outcome ε' (ByteArr 32)) = .ok root := by
  rw [Manifest.rechunkedRoot, Manifest.doChunk] at h ⊢
  split at h
  · cases h
  · rename_i hsize
    rw [if_neg hsize, Outcome.ok_bind]
    rw [Outcome.ok_bind, Manifest.rootHashFor] at h
    rw [Manifest.rootHashFor]
    split at h
    · rename_i hempty
      rw [if_pos hempty]
      exact congrArg _ (Outcome.ok.inj h)
    · rename_i hempty
      rw [if_neg hempty]
      exact Outcome.expectSome_eq_ok.mpr (Outcome.expectSome_eq_ok.mp h)

/-- A served manifest that is of the requested address makes the answer right. -/
theorem get_of_isManifestOf {s s₁ s' : σ} {mcid : Mcid} {data : Bytes} {manifest : Manifest}
    (hchunked : Manifest.mcidIsChunked mcid = true)
    (hmanifest : getManifest station s mcid = .ok (manifest, s₁))
    (hbound : IsManifestOf H mcid manifest)
    (h : get H station s mcid = .ok (data, s')) : Addresses H mcid data := by
  obtain ⟨manifest', s₂, hmanifest', hverify⟩ := get_manifest_verified H station hchunked h
  obtain ⟨rfl, -⟩ := Prod.mk.inj (Outcome.ok.inj (hmanifest.symm.trans hmanifest'))
  obtain ⟨hsize, hroot⟩ := (Manifest.verify_eq_ok H).mp hverify
  refine (addresses_of_chunked H hchunked).mpr
    ⟨manifest.name, manifest.chunkSize, manifest.chunkCount, manifest.hashAlgorithm,
      manifest.rootHash, ?_, rechunkedRoot_eq_ok H hroot⟩
  rw [hsize]
  exact hbound

/-! ## A station that serves other content -/

/-- A manifest that describes `data` as one chunk, or as none when it is empty. -/
def oneChunkManifest (data : Bytes) : Manifest where
  mcid := makeMcid CODEC_MANIFEST (H.blake3 data)
  version := 1
  name := ""
  size := data.length
  created := 0
  chunkSize := max 1 data.length
  chunkCount := (chunksOf (max 1 data.length) data).length
  hashAlgorithm := .blake3
  rootHash := H.blake3 data
  chunks := Manifest.chunkInfos H (chunksOf (max 1 data.length) data) .blake3

/-- A station that serves `data` and its manifest, whatever address it is asked for. -/
def serving (data : Bytes) : Station Unit := fun _ procedure _ =>
  let payload : Value :=
    if procedure = GET_MANIFEST_PROC then (oneChunkManifest H data).toWire else .bytes data
  (.response (.result payload (.fill 0)), ())

/-- The pieces of `data` in a manifest of one chunk. -/
theorem chunksOf_max (data : Bytes) :
    chunksOf (max 1 data.length) data = if data = [] then [] else [data] := by
  split
  · rename_i h
    rw [h, chunksOf_nil]
  · rename_i h
    exact chunksOf_length_le h (Nat.le_max_right _ _)

theorem wellFormed_oneChunkManifest {data : Bytes} (h : data.length < 2 ^ 64) :
    (oneChunkManifest H data).WellFormed where
  version := (by decide : 1 < 2 ^ 32)
  size := h
  created := (by decide : 0 < 2 ^ 64)
  chunkSize_pos := by
    change max 1 data.length ≠ 0
    omega
  chunkSize := max_lt (by decide) h
  chunkCount := by
    simp only [oneChunkManifest, chunksOf_max]
    split <;> simp
  chunks_length := by
    simp only [oneChunkManifest, chunksOf_max]
    split <;> rfl
  chunks := by
    simp only [oneChunkManifest, chunksOf_max]
    split
    · simp [Manifest.chunkInfos, Manifest.chunkInfosFrom]
    · simpa [Manifest.chunkInfos, Manifest.chunkInfosFrom] using h

theorem callForResult_serving (data : Bytes) (procedure : String) (payload : Value) :
    callForResult (serving H data) () procedure payload =
      .ok (if procedure = GET_MANIFEST_PROC then (oneChunkManifest H data).toWire
        else .bytes data, ()) := rfl

theorem getManifest_serving {data : Bytes} (h : data.length < 2 ^ 64) (mcid : Mcid) :
    getManifest (serving H data) () mcid = .ok (oneChunkManifest H data, ()) := by
  have hwire := Manifest.fromWire_toWire (wellFormed_oneChunkManifest H h)
  have hmanifest : manifestOfPayload (oneChunkManifest H data).toWire =
      .ok (oneChunkManifest H data) := by
    change (Manifest.fromWire 64 (oneChunkManifest H data).toWire).mapErr
      GetError.manifestDecode = _
    rw [hwire]
    rfl
  rw [getManifest, callForResult_serving, if_pos rfl]
  simp only [Outcome.ok_bind, hmanifest, Outcome.pure_eq]

theorem getBlock_serving (data : Bytes) (mcid : Mcid) :
    getBlock (serving H data) () mcid = .ok (data, ()) := rfl

theorem getChunks_serving (data : Bytes) :
    getChunks H (serving H data) (oneChunkManifest H data) (oneChunkManifest H data).chunkCount 0
      [] () = .ok (data, ()) := by
  by_cases hdata : data = []
  · subst hdata
    rfl
  · have hcount : (oneChunkManifest H data).chunkCount = 1 := by
      simp only [oneChunkManifest, chunksOf_max, if_neg hdata, List.length_singleton]
    have hmcid : (oneChunkManifest H data).chunkMcid 0 = some (Manifest.blockMcid H data) := by
      simp only [Manifest.chunkMcid, oneChunkManifest, chunksOf_max, if_neg hdata]
      rfl
    rw [hcount, getChunks, getChunk, hmcid]
    simp only [Outcome.expectSome, Outcome.ok_bind, getBlock_serving, ne_eq, not_true_eq_false,
      if_false, Outcome.pure_eq, getChunks, List.nil_append]

theorem verify_oneChunkManifest (data : Bytes) :
    (oneChunkManifest H data).verify H data = .ok () := by
  refine (Manifest.verify_eq_ok H).mpr ⟨rfl, ?_⟩
  have hsize : max 1 data.length ≠ 0 := by omega
  change Manifest.rechunkedRoot H data (max 1 data.length) .blake3 = .ok (H.blake3 data)
  rw [Manifest.rechunkedRoot, Manifest.doChunk, if_neg hsize, Outcome.ok_bind, chunksOf_max]
  split
  · rename_i h
    rw [h]
    rfl
  · rfl

/-- **Any byte string can be served for the address of a manifest.** -/
theorem get_serving {mcid : Mcid} (hchunked : Manifest.mcidIsChunked mcid = true) {data : Bytes}
    (h : data.length < 2 ^ 64) : get H (serving H data) () mcid = .ok (data, ()) := by
  rw [get, hchunked, Bool.not_true, if_neg (by decide), getManifest_serving H h, Outcome.ok_bind]
  simp only [getChunks_serving, Outcome.ok_bind, verify_oneChunkManifest]
  rfl

/-- **When `get` returns the content it was asked for.**  For an address `mcid`, whatever the
station replies, exactly when `mcid` is not the address of a manifest, or is one of every byte
string there is.  And on one run, when the served manifest is of the address. -/
theorem get_addresses_iff (mcid : Mcid) :
    ((∀ (σ : Type) (station : Station σ) (s s' : σ) (data : Bytes), data.length < 2 ^ 64 →
        get H station s mcid = .ok (data, s') → Addresses H mcid data) ↔
      (Manifest.mcidIsChunked mcid = true →
        ∀ data : Bytes, data.length < 2 ^ 64 → Addresses H mcid data)) ∧
    ∀ (σ : Type) (station : Station σ) (s s₁ s' : σ) (manifest : Manifest) (data : Bytes),
      getManifest station s mcid = .ok (manifest, s₁) → IsManifestOf H mcid manifest →
        get H station s mcid = .ok (data, s') → Addresses H mcid data := by
  constructor
  · constructor
    · intro h hchunked data hlen
      exact h Unit (serving H data) () () data hlen (get_serving H hchunked hlen)
    · intro h σ station s s' data hlen hget
      cases hchunked : Manifest.mcidIsChunked mcid with
      | true => exact h hchunked data hlen
      | false => exact get_block_addresses H station hchunked hget
  · intro σ station s s₁ s' manifest data hmanifest hbound hget
    cases hchunked : Manifest.mcidIsChunked mcid with
    | true => exact get_of_isManifestOf H station hchunked hmanifest hbound hget
    | false => exact get_block_addresses H station hchunked hget

/-- Hashes that tell one block from everything else. -/
def blockHashes : Hashes where
  blake3 b := if b = [1, 2, 3] then .fill 1 else .fill 0
  sha256 _ := .fill 0

/-- The block path: of all byte strings, the one the address is of. -/
theorem get_addresses_block :
    ∀ data, Addresses blockHashes (makeMcid CODEC_RAW ⟨.replicate 32 1, rfl⟩) data ↔
      data = [1, 2, 3] := by
  have hchunked : Manifest.mcidIsChunked (makeMcid CODEC_RAW ⟨.replicate 32 1, rfl⟩) = false :=
    rfl
  have hget : get blockHashes (serving blockHashes [1, 2, 3]) ()
      (makeMcid CODEC_RAW ⟨.replicate 32 1, rfl⟩) = .ok ([1, 2, 3], ()) := rfl
  intro data
  constructor
  · intro h
    by_contra hdata
    have hmcid := (addresses_of_not_chunked _ hchunked).mp h
    simp only [Manifest.blockMcid, blockHashes, if_neg hdata] at hmcid
    exact absurd hmcid (by decide)
  · rintro rfl
    exact (get_addresses_iff blockHashes (makeMcid CODEC_RAW ⟨.replicate 32 1, rfl⟩)).1.mpr
      (fun h => absurd (h.symm.trans hchunked) (by decide)) Unit
      (serving blockHashes [1, 2, 3]) () () [1, 2, 3] (by decide) hget

/-- The manifest fields of a one-byte content, with the hashes below. -/
def oneByteFields : Value := Manifest.mcidFields "" 1 1 1 .blake3 (.fill 0)

/-- Hashes that tell those fields from everything else. -/
def oneByteHashes : Hashes where
  blake3 b :=
    if b = Cbor.canon oneByteFields then .fill 1 else .fill 0
  sha256 _ := .fill 0

/-- Only those fields hash to ones. -/
theorem oneByteHashes_eq_ones {algorithm : Algorithm} {b : Bytes}
    (h : algorithm.hash oneByteHashes b = ⟨.replicate 32 1, rfl⟩) :
    algorithm = .blake3 ∧ b = Cbor.canon oneByteFields := by
  cases algorithm with
  | blake3 =>
      refine ⟨rfl, ?_⟩
      by_contra hb
      simp only [Algorithm.hash, oneByteHashes, if_neg hb] at h
      exact absurd h (by decide)
  | sha256 =>
      simp only [Algorithm.hash, oneByteHashes] at h
      exact absurd h (by decide)

/-- Asked for the address of a one-byte content, the client accepts the empty one. -/
theorem get_empty_for_one_byte :
    Addresses oneByteHashes (makeMcid CODEC_MANIFEST ⟨.replicate 32 1, rfl⟩) [7] ∧
      get oneByteHashes (serving oneByteHashes []) ()
        (makeMcid CODEC_MANIFEST ⟨.replicate 32 1, rfl⟩) = .ok ([], ()) ∧
      ¬ Addresses oneByteHashes (makeMcid CODEC_MANIFEST ⟨.replicate 32 1, rfl⟩) [] := by
  have hchunked : Manifest.mcidIsChunked (makeMcid CODEC_MANIFEST ⟨.replicate 32 1, rfl⟩) = true :=
    rfl
  refine ⟨?_, get_serving oneByteHashes hchunked (by decide), ?_⟩
  · exact (addresses_of_chunked _ hchunked).mpr
      ⟨"", 1, 1, .blake3, ⟨.replicate 32 0, rfl⟩, by decide, by decide⟩
  · intro h
    obtain ⟨name, chunkSize, chunkCount, algorithm, root, hmcid, -⟩ :=
      (addresses_of_chunked _ hchunked).mp h
    obtain ⟨b, hb, hmake⟩ := Outcome.bind_eq_ok.mp hmcid
    have hhash : algorithm.hash oneByteHashes b = ⟨.replicate 32 1, rfl⟩ := by
      have hval := congrArg Subtype.val (Outcome.ok.inj hmake)
      exact Subtype.ext (List.cons.inj (List.cons.inj hval).2).2
    obtain ⟨-, rfl⟩ := oneByteHashes_eq_ones hhash
    have hone : Cbor.encode oneByteFields = .ok (Cbor.canon oneByteFields) := by decide
    obtain ⟨-, hsize, -⟩ := Manifest.mcidFields_inj (by decide)
      (Outcome.expectOk_eq_ok.mp hb) hone
    exact absurd hsize (by decide)

end Macula.Content
