import Macula.Cbor.Canonical
import Macula.Cbor.Decode
import Macula.Lib.Chunks

/-!
# Manifests

Content larger than one block is cut into chunks and described by a manifest: the hash of
every chunk, a Merkle root over them, and an address, the MCID, that is the hash of the
manifest's own fields.  A block's address is the hash of the block.

The two hash functions are a parameter with no assumption on them.

`hash_algorithm` falls back to BLAKE3 when its name is unknown, and a Merkle level of odd
length pairs its last hash with itself.  Both are the reference's rules.
-/

namespace Macula

open Macula.Cbor (Value asUsize)

/-- The hash functions of `blake3` and `sha2`. -/
structure Hashes where
  blake3 : Bytes → ByteArr 32
  sha256 : Bytes → ByteArr 32

def DEFAULT_CHUNK_SIZE : Nat := 262144

def VERSION : UInt8 := 1
def CODEC_RAW : UInt8 := 0x55
def CODEC_MANIFEST : UInt8 := 0x56

/-- A content address: version, codec and hash. -/
abbrev Mcid := ByteArr 34

def makeMcid (codec : UInt8) (hash : ByteArr 32) : Mcid :=
  ⟨VERSION :: codec :: hash.1, by simp [hash.2]⟩

inductive Algorithm where
  | blake3
  | sha256
deriving DecidableEq

variable (H : Hashes)

def Algorithm.hash : Algorithm → Bytes → ByteArr 32
  | .blake3 => H.blake3
  | .sha256 => H.sha256

def Algorithm.name : Algorithm → String
  | .blake3 => "blake3"
  | .sha256 => "sha256"

/-- Anything unrecognised is BLAKE3. -/
def Algorithm.fromName (name : String) : Algorithm :=
  if name = "sha256" then .sha256 else .blake3

structure ChunkInfo where
  index : Nat
  offset : Nat
  size : Nat
  hash : ByteArr 32
deriving DecidableEq

structure Manifest where
  mcid : Mcid
  version : Nat
  name : String
  size : Nat
  created : Nat
  chunkSize : Nat
  chunkCount : Nat
  hashAlgorithm : Algorithm
  rootHash : ByteArr 32
  chunks : List ChunkInfo
deriving DecidableEq

namespace Manifest

/-! ## Chunks and root -/

/-- `data.chunks(chunk_size)`, which panics on a chunk size of zero. -/
def doChunk {ε : Type} (data : Bytes) (chunkSize : Nat) : Outcome ε (List Bytes) :=
  if chunkSize = 0 then .panicked else .ok (chunksOf chunkSize data)

/-- The chunks numbered from `index`, at offsets from `offset`. -/
def chunkInfosFrom (algorithm : Algorithm) : (index offset : Nat) → List Bytes → List ChunkInfo
  | _, _, [] => []
  | index, offset, chunk :: chunks =>
      { index, offset, size := chunk.length, hash := algorithm.hash H chunk } ::
        chunkInfosFrom algorithm (index + 1) (offset + chunk.length) chunks

def chunkInfos (chunks : List Bytes) (algorithm : Algorithm) : List ChunkInfo :=
  chunkInfosFrom H algorithm 0 0 chunks

/-- One level of the Merkle fold.  An odd last hash is paired with itself.  No piece of
`chunks` is empty, so `pair[0]` is always there. -/
def combine (hashes : List (ByteArr 32)) (algorithm : Algorithm) : List (ByteArr 32) :=
  (chunksOf 2 hashes).filterMap fun pair => pair.head?.map fun left =>
    algorithm.hash H (left.1 ++ ((pair[1]?).getD left).1)

/-- `while hashes.len() > 1`, with at most `fuel` rounds. -/
def foldHashes (algorithm : Algorithm) : (fuel : Nat) → List (ByteArr 32) → List (ByteArr 32)
  | 0, hashes => hashes
  | fuel + 1, hashes =>
      if hashes.length > 1 then foldHashes algorithm fuel (combine H hashes algorithm) else hashes

def rootHashFor {ε : Type} (infos : List ChunkInfo) (algorithm : Algorithm) :
    Outcome ε (ByteArr 32) :=
  if infos.isEmpty then .ok (algorithm.hash H [])
  else
    let hashes := infos.map (·.hash)
    .expectSome (foldHashes H algorithm hashes.length hashes)[0]?

/-- The Merkle root of `data` cut into chunks of `chunk_size`. -/
def rechunkedRoot {ε : Type} (data : Bytes) (chunkSize : Nat) (algorithm : Algorithm) :
    Outcome ε (ByteArr 32) := do
  let chunks ← doChunk data chunkSize
  rootHashFor H (chunkInfos H chunks algorithm) algorithm

/-! ## Addresses -/

def chunkMcid (manifest : Manifest) (index : Nat) : Option Mcid :=
  manifest.chunks[index]?.map fun c => makeMcid CODEC_RAW c.hash

/-- The address of a single block, always BLAKE3. -/
def blockMcid (data : Bytes) : Mcid := makeMcid CODEC_RAW (H.blake3 data)

def mcidIsChunked (mcid : Mcid) : Bool := mcid.1[1]? == some CODEC_MANIFEST

/-- The fields of a manifest that its address covers. -/
def mcidFields (name : String) (size chunkSize chunkCount : Nat) (algorithm : Algorithm)
    (rootHash : ByteArr 32) : Value :=
  .map [(.text "name", .text name),
    (.text "size", .int size),
    (.text "chunk_size", .int chunkSize),
    (.text "chunk_count", .int chunkCount),
    (.text "hash_algorithm", .text algorithm.name),
    (.text "root_hash", .bytes rootHash.1)]

def computeMcid {ε : Type} (name : String) (size chunkSize chunkCount : Nat)
    (algorithm : Algorithm) (rootHash : ByteArr 32) : Outcome ε Mcid := do
  let bytes ← .expectOk
    (Cbor.encode (mcidFields name size chunkSize chunkCount algorithm rootHash))
  return makeMcid CODEC_MANIFEST (algorithm.hash H bytes)

/-! ## Verification -/

inductive VerifyError where
  | sizeMismatch
  | rootHashMismatch
deriving DecidableEq

/-- Size first, then a fresh root over `data` cut the same way. -/
def verify (manifest : Manifest) (data : Bytes) : Outcome VerifyError Unit :=
  if data.length ≠ manifest.size then .err .sizeMismatch
  else do
    let actualRoot ← rechunkedRoot H data manifest.chunkSize manifest.hashAlgorithm
    if actualRoot = manifest.rootHash then return () else .err .rootHashMismatch

theorem verify_eq_ok {manifest : Manifest} {data : Bytes} :
    manifest.verify H data = .ok () ↔ data.length = manifest.size ∧
      (rechunkedRoot H data manifest.chunkSize manifest.hashAlgorithm :
        Outcome VerifyError (ByteArr 32)) = .ok manifest.rootHash := by
  rw [verify]
  split
  · rename_i hsize
    simp [hsize]
  · rename_i hsize
    rw [Outcome.bind_eq_ok]
    constructor
    · rintro ⟨root, hroot, h⟩
      split at h
      · rename_i heq
        exact ⟨not_not.mp hsize, heq ▸ hroot⟩
      · cases h
    · rintro ⟨-, hroot⟩
      exact ⟨_, hroot, if_pos rfl⟩

/-! ## The wire form -/

def chunkInfoToWire (info : ChunkInfo) : Value :=
  .map [(.text "index", .int info.index),
    (.text "offset", .int info.offset),
    (.text "size", .int info.size),
    (.text "hash", .bytes info.hash.1)]

/-- `name` travels as bytes here and as text in `mcidFields`. -/
def toWire (manifest : Manifest) : Value :=
  .map [(.text "mcid", .bytes manifest.mcid.1),
    (.text "version", .int manifest.version),
    (.text "name", .bytes (Utf8.bytes manifest.name)),
    (.text "size", .int manifest.size),
    (.text "created", .int manifest.created),
    (.text "chunk_size", .int manifest.chunkSize),
    (.text "chunk_count", .int manifest.chunkCount),
    (.text "hash_algorithm", .text manifest.hashAlgorithm.name),
    (.text "root_hash", .bytes manifest.rootHash.1),
    (.text "chunks", .list (manifest.chunks.map chunkInfoToWire))]

inductive FromWireError where
  | missingField (name : String)
  | wrongFieldType (name : String)
  | zeroChunkSize
  | inconsistentChunkCount
deriving DecidableEq

/-- A non-negative integer, `as u64`. -/
def getUint (value : Value) (field : String) : Outcome FromWireError Nat :=
  match value.get field with
  | some (.int n) => if 0 ≤ n then .ok (n.toNat % 2 ^ 64) else .err (.wrongFieldType field)
  | some _ => .err (.wrongFieldType field)
  | none => .err (.missingField field)

def getText (value : Value) (field : String) : Outcome FromWireError String :=
  match value.get field with
  | some (.text t) => .ok t
  | some _ => .err (.wrongFieldType field)
  | none => .err (.missingField field)

def getStringBytes (value : Value) (field : String) : Outcome FromWireError String :=
  match value.get field with
  | some (.bytes b) => .okOr (.wrongFieldType field) (Utf8.decode b)
  | some _ => .err (.wrongFieldType field)
  | none => .err (.missingField field)

def getBytesExact (n : Nat) (value : Value) (field : String) : Outcome FromWireError (ByteArr n) :=
  match value.get field with
  | some (.bytes b) => .okOr (.wrongFieldType field) (toArr n b)
  | some _ => .err (.wrongFieldType field)
  | none => .err (.missingField field)

/-- `usize` is `bits` wide. -/
def chunkInfoFromWire (bits : Nat) (value : Value) : Outcome FromWireError ChunkInfo := do
  let index ← getUint value "index"
  let offset ← getUint value "offset"
  let size ← getUint value "size"
  let hash ← getBytesExact 32 value "hash"
  return { index := asUsize bits index, offset := asUsize bits offset,
           size := asUsize bits size, hash }

/-- `items.iter().map(chunk_info_from_wire).collect()`: the first error wins. -/
def chunkInfosFromWire (bits : Nat) : List Value → Outcome FromWireError (List ChunkInfo)
  | [] => .ok []
  | item :: items => do
      let info ← chunkInfoFromWire bits item
      let infos ← chunkInfosFromWire bits items
      return info :: infos

/-- The `chunks` field. -/
def getChunks (bits : Nat) (value : Value) : Outcome FromWireError (List ChunkInfo) :=
  match value.get "chunks" with
  | some (.list items) => chunkInfosFromWire bits items
  | some _ => .err (.wrongFieldType "chunks")
  | none => .err (.missingField "chunks")

/-- Parse a manifest as received.  Its address field is read and compared with nothing. -/
def fromWire (bits : Nat) (value : Value) : Outcome FromWireError Manifest := do
  let mcid ← getBytesExact 34 value "mcid"
  let version ← getUint value "version"
  let name ← getStringBytes value "name"
  let size ← getUint value "size"
  let created ← getUint value "created"
  let chunkSize ← getUint value "chunk_size"
  let chunkCount ← getUint value "chunk_count"
  let hashAlgorithm ← getText value "hash_algorithm"
  let rootHash ← getBytesExact 32 value "root_hash"
  let chunks ← getChunks bits value
  if asUsize bits chunkSize = 0 then .err .zeroChunkSize
  else if chunks.length ≠ asUsize bits chunkCount then .err .inconsistentChunkCount
  else return { mcid, version := version % 2 ^ 32, name, size, created,
                chunkSize := asUsize bits chunkSize, chunkCount := asUsize bits chunkCount,
                hashAlgorithm := .fromName hashAlgorithm, rootHash, chunks }

/-! ## A manifest and its wire form -/

/-- What the fields of a manifest satisfy when it was built or parsed by this module. -/
structure WellFormed (manifest : Manifest) : Prop where
  version : manifest.version < 2 ^ 32
  size : manifest.size < 2 ^ 64
  created : manifest.created < 2 ^ 64
  chunkSize_pos : manifest.chunkSize ≠ 0
  chunkSize : manifest.chunkSize < 2 ^ 64
  chunkCount : manifest.chunkCount < 2 ^ 64
  chunks_length : manifest.chunks.length = manifest.chunkCount
  chunks : ∀ c ∈ manifest.chunks, c.index < 2 ^ 64 ∧ c.offset < 2 ^ 64 ∧ c.size < 2 ^ 64

theorem getUint_of_get {value : Value} {field : String} {n : Nat}
    (h : value.get field = some (.int n)) (hn : n < 2 ^ 64) : getUint value field = .ok n := by
  rw [getUint, h]
  simp only [Int.natCast_nonneg, if_true, Int.toNat_natCast, Nat.mod_eq_of_lt hn]

theorem getBytesExact_of_get {n : Nat} {value : Value} {field : String} {a : ByteArr n}
    (h : value.get field = some (.bytes a.1)) : getBytesExact n value field = .ok a := by
  rw [getBytesExact, h]
  exact Outcome.okOr_eq_ok.mpr (toArr_val a)

theorem chunkInfosFromWire_toWire : ∀ {infos : List ChunkInfo},
    (∀ c ∈ infos, c.index < 2 ^ 64 ∧ c.offset < 2 ^ 64 ∧ c.size < 2 ^ 64) →
      chunkInfosFromWire 64 (infos.map chunkInfoToWire) = .ok infos := by
  intro infos
  induction infos with
  | nil =>
      intro _
      rfl
  | cons c infos ih =>
      intro h
      obtain ⟨⟨hindex, hoffset, hsize⟩, hinfos⟩ := List.forall_mem_cons.mp h
      have hc : chunkInfoFromWire 64 (chunkInfoToWire c) = .ok c := by
        rw [chunkInfoFromWire, getUint_of_get rfl hindex, Outcome.ok_bind,
          getUint_of_get rfl hoffset, Outcome.ok_bind, getUint_of_get rfl hsize, Outcome.ok_bind,
          @getBytesExact_of_get 32 (chunkInfoToWire c) "hash" c.hash rfl, Outcome.ok_bind,
          asUsize, asUsize, asUsize, Nat.mod_eq_of_lt hindex, Nat.mod_eq_of_lt hoffset,
          Nat.mod_eq_of_lt hsize]
        rfl
      rw [List.map_cons, chunkInfosFromWire, hc, Outcome.ok_bind, ih hinfos]
      rfl

/-- A manifest survives the trip over the wire. -/
theorem fromWire_toWire {manifest : Manifest} (h : manifest.WellFormed) :
    fromWire 64 manifest.toWire = .ok manifest := by
  have hname : getStringBytes manifest.toWire "name" = .ok manifest.name := by
    have hget : manifest.toWire.get "name" = some (.bytes (Utf8.bytes manifest.name)) := rfl
    rw [getStringBytes, hget]
    exact Outcome.okOr_eq_ok.mpr (Utf8.decode_bytes _)
  have halgorithm : getText manifest.toWire "hash_algorithm" = .ok manifest.hashAlgorithm.name :=
    rfl
  have hchunks : getChunks 64 manifest.toWire = .ok manifest.chunks :=
    chunkInfosFromWire_toWire h.chunks
  have hfromName : Algorithm.fromName manifest.hashAlgorithm.name = manifest.hashAlgorithm := by
    cases manifest.hashAlgorithm <;> rfl
  rw [fromWire, @getBytesExact_of_get 34 manifest.toWire "mcid" manifest.mcid rfl, Outcome.ok_bind,
    getUint_of_get rfl (h.version.trans (by decide)), Outcome.ok_bind, hname, Outcome.ok_bind,
    getUint_of_get rfl h.size, Outcome.ok_bind, getUint_of_get rfl h.created, Outcome.ok_bind,
    getUint_of_get rfl h.chunkSize, Outcome.ok_bind, getUint_of_get rfl h.chunkCount,
    Outcome.ok_bind, halgorithm, Outcome.ok_bind,
    @getBytesExact_of_get 32 manifest.toWire "root_hash" manifest.rootHash rfl, Outcome.ok_bind,
    hchunks, Outcome.ok_bind, asUsize, asUsize, Nat.mod_eq_of_lt h.chunkSize,
    Nat.mod_eq_of_lt h.chunkCount, Nat.mod_eq_of_lt h.version, if_neg h.chunkSize_pos,
    if_neg (not_not.mpr h.chunks_length), hfromName]
  rfl

/-! ## What an address covers -/

theorem sorted_mcidFields (name : String) (size chunkSize chunkCount : Nat)
    (algorithm : Algorithm) (rootHash : ByteArr 32) :
    (mcidFields name size chunkSize chunkCount algorithm rootHash).sorted =
      .map [(.text "name", .text name),
        (.text "size", .int size),
        (.text "root_hash", .bytes rootHash.1),
        (.text "chunk_size", .int chunkSize),
        (.text "chunk_count", .int chunkCount),
        (.text "hash_algorithm", .text algorithm.name)] := by
  simp only [mcidFields, Value.sorted_map, List.map, Cbor.sortedEntry, Value.sorted_text,
    Value.sorted_int, Value.sorted_bytes]
  rfl

/-- Two addresses that hash the same bytes cover the same fields. -/
theorem mcidFields_eq {name name' : String} {size size' chunkSize chunkSize' chunkCount
    chunkCount' : Nat} {algorithm algorithm' : Algorithm} {rootHash rootHash' : ByteArr 32}
    (hv : (mcidFields name size chunkSize chunkCount algorithm rootHash).Encodable)
    (hv' : (mcidFields name' size' chunkSize' chunkCount' algorithm' rootHash').Encodable)
    (h : Cbor.canon (mcidFields name size chunkSize chunkCount algorithm rootHash) =
      Cbor.canon (mcidFields name' size' chunkSize' chunkCount' algorithm' rootHash')) :
    name = name' ∧ size = size' ∧ chunkSize = chunkSize' ∧ chunkCount = chunkCount' ∧
      algorithm = algorithm' ∧ rootHash = rootHash' := by
  have hsorted := (Cbor.canon_eq_canon_iff hv hv').mp h
  rw [sorted_mcidFields, sorted_mcidFields] at hsorted
  simp only [Value.map.injEq, List.cons.injEq, Prod.mk.injEq, Value.text.injEq, Value.int.injEq,
    Value.bytes.injEq, Int.natCast_inj, true_and, and_true] at hsorted
  obtain ⟨rfl, rfl, hroot, rfl, rfl, hname⟩ := hsorted
  have halgorithm : algorithm = algorithm' := by
    cases algorithm <;> cases algorithm' <;> first | rfl | exact absurd hname (by decide)
  exact ⟨rfl, rfl, rfl, rfl, halgorithm, Subtype.ext hroot⟩

/-- The bytes an address hashes determine every field it covers. -/
theorem mcidFields_inj {name name' : String} {size size' chunkSize chunkSize' chunkCount
    chunkCount' : Nat} {algorithm algorithm' : Algorithm} {rootHash rootHash' : ByteArr 32}
    {b : Bytes} (hlen : b.length < 2 ^ 64)
    (h : Cbor.encode (mcidFields name size chunkSize chunkCount algorithm rootHash) = .ok b)
    (h' : Cbor.encode (mcidFields name' size' chunkSize' chunkCount' algorithm' rootHash') = .ok b) :
    name = name' ∧ size = size' ∧ chunkSize = chunkSize' ∧ chunkCount = chunkCount' ∧
      algorithm = algorithm' ∧ rootHash = rootHash' := by
  obtain ⟨hrange, rfl⟩ := Cbor.encode_eq_ok.mp h
  obtain ⟨hrange', heq⟩ := Cbor.encode_eq_ok.mp h'
  exact mcidFields_eq ⟨hrange, Value.sized_of_length_canon hlen⟩
    ⟨hrange', Value.sized_of_length_canon (heq ▸ hlen)⟩ heq

/-- Every field but the name has a bounded length. -/
theorem sized_mcidFields {name : String} (h : (Utf8.bytes name).length < 2 ^ 64)
    (size chunkSize chunkCount : Nat) (algorithm : Algorithm) (rootHash : ByteArr 32) :
    (mcidFields name size chunkSize chunkCount algorithm rootHash).Sized := by
  have halgorithm : (Utf8.bytes algorithm.name).length < 2 ^ 64 := by cases algorithm <;> decide
  have hkeys : ∀ key ∈ ["name", "size", "chunk_size", "chunk_count", "hash_algorithm",
      "root_hash"], (Utf8.bytes key).length < 2 ^ 64 := by decide
  simp only [List.forall_mem_cons] at hkeys
  simp only [mcidFields, Value.Sized, Value.all_map, Value.all_text, Value.all_int,
    Value.all_bytes, Cbor.LenOk, List.forall_mem_cons, List.length_cons, List.length_nil,
    rootHash.2, hkeys, halgorithm, h]
  simp

end Manifest

end Macula
