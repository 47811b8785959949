import Macula.Lib.Merkle
import Macula.Manifest

/-!
# Creating manifests

`create` cuts data into chunks and builds the manifest that describes them.  The address of
the manifest covers its name, the size, the chunk size, the number of chunks, the algorithm
and the Merkle root, so two manifests of one address agree on all of these.  The number of
chunks is what makes the root determine the chunks: a fold alone does not tell a last hash
from the same hash twice.

Nothing is assumed of the hash functions.  `hashInputs` lists what a call to `create` hashes,
and `create_inj` finds a collision there whenever one address stands for two contents.
-/

namespace Macula

open Macula.Cbor (Value)

/-- A `String`, which holds at most `isize::MAX` bytes. -/
abbrev AllocString := { s : String // (Utf8.bytes s).length < 2 ^ 63 }

structure CreateOptions where
  name : AllocString
  chunkSize : Nat
  hashAlgorithm : Algorithm
  /-- A chunk size is a `usize`. -/
  chunkSize_lt : chunkSize < 2 ^ 64

def CreateOptions.default : CreateOptions where
  name := ⟨"unnamed", by decide⟩
  chunkSize := DEFAULT_CHUNK_SIZE
  hashAlgorithm := .blake3
  chunkSize_lt := by decide

namespace Manifest

variable (H : Hashes)

def createWithCreated {ε : Type} (data : Bytes) (opts : CreateOptions) (created : UInt64) :
    Outcome ε (Manifest × List Bytes) := do
  let chunks ← doChunk data opts.chunkSize
  let infos := chunkInfos H chunks opts.hashAlgorithm
  let rootHash ← rootHashFor H infos opts.hashAlgorithm
  let chunkCount := infos.length
  let mcid ← computeMcid H opts.name.1 data.length opts.chunkSize chunkCount opts.hashAlgorithm
    rootHash
  return ({ mcid, version := 1, name := opts.name.1, size := data.length,
            created := created.toNat, chunkSize := opts.chunkSize, chunkCount,
            hashAlgorithm := opts.hashAlgorithm, rootHash, chunks := infos }, chunks)

/-- Build the manifest of `data`, at the time `currentUnixSecs`. -/
def create {ε : Type} (data : Bytes) (opts : CreateOptions) (currentUnixSecs : UInt64) :
    Outcome ε (Manifest × List Bytes) :=
  createWithCreated H data opts currentUnixSecs

/-! ## Chunks and their hashes -/

variable {H}

@[simp] theorem length_chunkInfosFrom (algorithm : Algorithm) : ∀ (chunks : List Bytes)
    (index offset : Nat),
      (chunkInfosFrom H algorithm index offset chunks).length = chunks.length := by
  intro chunks
  induction chunks with
  | nil =>
      intro _ _
      rfl
  | cons chunk chunks ih =>
      intro index offset
      simp [chunkInfosFrom, ih]

@[simp] theorem length_chunkInfos (chunks : List Bytes) (algorithm : Algorithm) :
    (chunkInfos H chunks algorithm).length = chunks.length :=
  length_chunkInfosFrom algorithm chunks 0 0

theorem map_hash_chunkInfosFrom (algorithm : Algorithm) : ∀ (chunks : List Bytes)
    (index offset : Nat), (chunkInfosFrom H algorithm index offset chunks).map (·.hash) =
      chunks.map (algorithm.hash H) := by
  intro chunks
  induction chunks with
  | nil =>
      intro _ _
      rfl
  | cons chunk chunks ih =>
      intro index offset
      simp [chunkInfosFrom, ih]

@[simp] theorem map_hash_chunkInfos (chunks : List Bytes) (algorithm : Algorithm) :
    (chunkInfos H chunks algorithm).map (·.hash) = chunks.map (algorithm.hash H) :=
  map_hash_chunkInfosFrom algorithm chunks 0 0

/-! ## The fold -/

/-- The bytes hashed for a pair. -/
def pairBytes (pair : ByteArr 32 × ByteArr 32) : Bytes := pair.1.1 ++ pair.2.1

theorem pairBytes_injective : Function.Injective pairBytes := by
  rintro ⟨l, r⟩ ⟨l', r'⟩ h
  have hlen : l.1.length = l'.1.length := by rw [l.2, l'.2]
  obtain ⟨hl, hr⟩ := List.append_inj h hlen
  rw [Prod.mk.injEq]
  exact ⟨Subtype.ext hl, Subtype.ext hr⟩

/-- One pass is one level of a Merkle fold. -/
theorem combine_eq (algorithm : Algorithm) : ∀ hashes : List (ByteArr 32),
    combine H hashes algorithm =
      (Merkle.pairs hashes).map fun pair => algorithm.hash H (pairBytes pair)
  | [] => rfl
  | [a] => rfl
  | a :: b :: hashes => by
      have hchunks : chunksOf 2 (a :: b :: hashes) = [a, b] :: chunksOf 2 hashes :=
        chunksOf_ne_nil (by decide) (List.cons_ne_nil _ _)
      have hrec := combine_eq algorithm hashes
      simp only [combine] at hrec
      simp [combine, hchunks, hrec, pairBytes]

theorem foldHashes_eq (algorithm : Algorithm) (fuel : Nat) (hashes : List (ByteArr 32)) :
    foldHashes H algorithm fuel hashes =
      Merkle.rounds (fun pair => algorithm.hash H (pairBytes pair)) fuel hashes := by
  induction fuel generalizing hashes with
  | zero => rfl
  | succ fuel ih => simp only [foldHashes, Merkle.rounds, combine_eq, ih]

variable (H)

/-- The root of some chunks: the hash that the fold ends with, and the hash of nothing when
there are none. -/
def root (algorithm : Algorithm) (chunks : List Bytes) : ByteArr 32 :=
  (Merkle.rounds (fun pair => algorithm.hash H (pairBytes pair)) chunks.length
    (chunks.map (algorithm.hash H))).head?.getD (algorithm.hash H [])

variable {H}

/-- With chunks, the root is all that the fold leaves. -/
theorem rounds_eq_root {algorithm : Algorithm} {chunks : List Bytes} (hne : chunks ≠ []) :
    Merkle.rounds (fun pair => algorithm.hash H (pairBytes pair)) chunks.length
      (chunks.map (algorithm.hash H)) = [root H algorithm chunks] := by
  have hlen : (Merkle.rounds (fun pair => algorithm.hash H (pairBytes pair)) chunks.length
      (chunks.map (algorithm.hash H))).length = 1 :=
    Merkle.length_rounds _ (by simpa using hne) (by simp)
  obtain ⟨hash, hhash⟩ := List.length_eq_one_iff.mp hlen
  simp [root, hhash]

theorem rootHashFor_eq {ε : Type} (chunks : List Bytes) (algorithm : Algorithm) :
    (rootHashFor H (chunkInfos H chunks algorithm) algorithm : Outcome ε (ByteArr 32)) =
      .ok (root H algorithm chunks) := by
  cases chunks with
  | nil => rfl
  | cons chunk chunks =>
      have hfold := @rounds_eq_root H algorithm _ (List.cons_ne_nil chunk chunks)
      have hinfos : (chunkInfos H (chunk :: chunks) algorithm).isEmpty = false := rfl
      simp only [rootHashFor, hinfos, map_hash_chunkInfos, List.length_map, foldHashes_eq, hfold]
      rfl

/-! ## What `create` returns -/

variable (H)

/-- The manifest of `data`. -/
def manifestOf (data : Bytes) (opts : CreateOptions) (created : UInt64) : Manifest :=
  let chunks := chunksOf opts.chunkSize data
  let rootHash := root H opts.hashAlgorithm chunks
  { mcid := makeMcid CODEC_MANIFEST (opts.hashAlgorithm.hash H (Cbor.canon
      (mcidFields opts.name.1 data.length opts.chunkSize chunks.length opts.hashAlgorithm rootHash)))
    version := 1
    name := opts.name.1
    size := data.length
    created := created.toNat
    chunkSize := opts.chunkSize
    chunkCount := chunks.length
    hashAlgorithm := opts.hashAlgorithm
    rootHash
    chunks := chunkInfos H chunks opts.hashAlgorithm }

variable {H}

theorem inRange_mcidFields {name : String} {size chunkSize chunkCount : Nat}
    {algorithm : Algorithm} {rootHash : ByteArr 32} :
    (mcidFields name size chunkSize chunkCount algorithm rootHash).IntsInRange ↔
      size < 2 ^ 64 ∧ chunkSize < 2 ^ 64 ∧ chunkCount < 2 ^ 64 := by
  simp [mcidFields, Cbor.Value.IntsInRange, Value.all_map, Cbor.IntOk]
  omega

theorem computeMcid_eq_ok {ε : Type} {name : String} {size chunkSize chunkCount : Nat}
    {algorithm : Algorithm} {rootHash : ByteArr 32} {mcid : Mcid} :
    (computeMcid H name size chunkSize chunkCount algorithm rootHash : Outcome ε Mcid) =
        .ok mcid ↔
      (mcidFields name size chunkSize chunkCount algorithm rootHash).IntsInRange ∧
      mcid = makeMcid CODEC_MANIFEST (algorithm.hash H (Cbor.canon
        (mcidFields name size chunkSize chunkCount algorithm rootHash))) := by
  simp only [computeMcid, Outcome.bind_eq_ok, Outcome.expectOk_eq_ok, Cbor.encode_eq_ok]
  constructor
  · rintro ⟨b, ⟨hrange, rfl⟩, h⟩
    exact ⟨hrange, (Outcome.ok.inj h).symm⟩
  · rintro ⟨hrange, rfl⟩
    exact ⟨_, ⟨hrange, rfl⟩, rfl⟩

/-- **`create` returns the manifest and the chunks of its data**, and fails only on a chunk
size of zero and on data that no `usize` measures. -/
theorem create_eq_ok {ε : Type} {data : Bytes} {opts : CreateOptions} {now : UInt64}
    {manifest : Manifest} {chunks : List Bytes} :
    (create H data opts now : Outcome ε (Manifest × List Bytes)) = .ok (manifest, chunks) ↔
      (opts.chunkSize ≠ 0 ∧ data.length < 2 ^ 64) ∧
        manifest = manifestOf H data opts now ∧ chunks = chunksOf opts.chunkSize data := by
  have hcount := length_chunksOf_le opts.chunkSize data
  have hsize := opts.chunkSize_lt
  by_cases hzero : opts.chunkSize = 0
  · simp [create, createWithCreated, doChunk, hzero]
  · simp only [create, createWithCreated, doChunk, hzero, if_false, Outcome.ok_bind,
      rootHashFor_eq, length_chunkInfos, Outcome.bind_eq_ok, computeMcid_eq_ok,
      inRange_mcidFields]
    constructor
    · rintro ⟨mcid, ⟨⟨hlen, -, -⟩, rfl⟩, h⟩
      obtain ⟨rfl, rfl⟩ := Prod.mk.inj (Outcome.ok.inj h)
      exact ⟨⟨hzero, hlen⟩, rfl, rfl⟩
    · rintro ⟨⟨-, hlen⟩, rfl, rfl⟩
      exact ⟨_, ⟨⟨hlen, hsize, by omega⟩, rfl⟩, rfl⟩

/-! ## What a created manifest says -/

theorem rechunkedRoot_eq {ε : Type} {chunkSize : Nat} (hpos : chunkSize ≠ 0) (data : Bytes)
    (algorithm : Algorithm) :
    (rechunkedRoot H data chunkSize algorithm : Outcome ε (ByteArr 32)) =
      .ok (root H algorithm (chunksOf chunkSize data)) := by
  simp only [rechunkedRoot, doChunk, hpos, if_false, Outcome.ok_bind, rootHashFor_eq]

/-- The data verifies against its own manifest. -/
theorem verify_manifestOf {data : Bytes} {opts : CreateOptions} {now : UInt64}
    (hpos : opts.chunkSize ≠ 0) : (manifestOf H data opts now).verify H data = .ok () := by
  have hsize : (manifestOf H data opts now).size = data.length := rfl
  simp only [verify, hsize, ne_eq, not_true_eq_false, if_false]
  have hroot := @rechunkedRoot_eq H VerifyError _ hpos data opts.hashAlgorithm
  simp only [manifestOf, hroot, Outcome.ok_bind, if_true]
  rfl

/-- A chunk's address is the hash of that chunk under the manifest's algorithm. -/
theorem chunkMcid_manifestOf (data : Bytes) (opts : CreateOptions) (now : UInt64) (index : Nat) :
    (manifestOf H data opts now).chunkMcid index = (chunksOf opts.chunkSize data)[index]?.map
      fun chunk => makeMcid CODEC_RAW (opts.hashAlgorithm.hash H chunk) := by
  have hhashes := congrArg (·[index]?)
    (@map_hash_chunkInfos H (chunksOf opts.chunkSize data) opts.hashAlgorithm)
  simp only [List.getElem?_map] at hhashes
  have hmcid := congrArg (Option.map (makeMcid CODEC_RAW)) hhashes
  simp only [Option.map_map, Function.comp_def] at hmcid
  exact hmcid

/-- The chunks are numbered from the first, and lie one after the other. -/
theorem chunkInfosFrom_bounds (algorithm : Algorithm) {chunks : List Bytes} {index offset : Nat} :
    ∀ c ∈ chunkInfosFrom H algorithm index offset chunks,
      c.index < index + chunks.length ∧ c.offset + c.size ≤ offset + chunks.flatten.length := by
  induction chunks generalizing index offset with
  | nil => intro c hc; simp [chunkInfosFrom] at hc
  | cons chunk chunks ih =>
      intro c hc
      simp only [List.length_cons, List.flatten_cons, List.length_append]
      rcases List.mem_cons.mp hc with rfl | hc
      · simp only
        omega
      · have := ih c hc
        omega

theorem wellFormed_manifestOf {data : Bytes} {opts : CreateOptions} {now : UInt64}
    (hpos : opts.chunkSize ≠ 0) (hlen : data.length < 2 ^ 64) :
    (manifestOf H data opts now).WellFormed where
  version := (by decide : 1 < 2 ^ 32)
  size := hlen
  created := now.toNat_lt
  chunkSize_pos := hpos
  chunkSize := opts.chunkSize_lt
  chunkCount := (length_chunksOf_le opts.chunkSize data).trans_lt hlen
  chunks_length := length_chunkInfos _ _
  chunks := by
    intro c hc
    have hbounds := chunkInfosFrom_bounds opts.hashAlgorithm c hc
    rw [flatten_chunksOf (Nat.pos_of_ne_zero hpos)] at hbounds
    have hcount := length_chunksOf_le opts.chunkSize data
    omega

/-! ## What an address determines -/

variable (H)

/-- What `create` hashes: the chunks (or nothing, for the root of none), the pairs of the
fold, and the fields that the address covers. -/
def hashInputs (data : Bytes) (opts : CreateOptions) : List (Algorithm × Bytes) :=
  let algorithm := opts.hashAlgorithm
  let chunks := chunksOf opts.chunkSize data
  let pairs := Merkle.hashed (fun pair => algorithm.hash H (pairBytes pair)) chunks.length
    (chunks.map (algorithm.hash H))
  let fields := mcidFields opts.name.1 data.length opts.chunkSize chunks.length algorithm
    (root H algorithm chunks)
  ((if chunks = [] then [[]] else chunks) ++ pairs.map pairBytes ++ [Cbor.canon fields]).map
    (algorithm, ·)

/-- The hash of an input under its algorithm. -/
def hashOf (input : Algorithm × Bytes) : ByteArr 32 := input.1.hash H input.2

variable {H}

/-- Inputs of one algorithm collide as they are. -/
theorem collide_hashOf {algorithm : Algorithm} {as bs : List Bytes}
    (h : Collide (algorithm.hash H) as bs) :
    Collide (hashOf H) (as.map (algorithm, ·)) (bs.map (algorithm, ·)) :=
  h.map (Prod.mk_right_injective algorithm) fun _ => rfl

theorem chunks_subset_hashInputs {data : Bytes} {opts : CreateOptions} :
    (chunksOf opts.chunkSize data).map (opts.hashAlgorithm, ·) ⊆ hashInputs H data opts := by
  refine List.map_subset _ (List.Subset.trans ?_ (List.subset_append_left _ _))
  refine List.Subset.trans ?_ (List.subset_append_left _ _)
  split
  · rename_i hnil
    simp [hnil]
  · exact List.Subset.refl _

theorem pairs_subset_hashInputs {data : Bytes} {opts : CreateOptions} :
    ((Merkle.hashed (fun pair => opts.hashAlgorithm.hash H (pairBytes pair))
      (chunksOf opts.chunkSize data).length
      ((chunksOf opts.chunkSize data).map (opts.hashAlgorithm.hash H))).map pairBytes).map
        (opts.hashAlgorithm, ·) ⊆ hashInputs H data opts :=
  List.map_subset _
    (List.Subset.trans (List.subset_append_right _ _) (List.subset_append_left _ _))

theorem fields_mem_hashInputs {data : Bytes} {opts : CreateOptions} :
    (opts.hashAlgorithm, Cbor.canon (mcidFields opts.name.1 data.length opts.chunkSize
      (chunksOf opts.chunkSize data).length opts.hashAlgorithm
      (root H opts.hashAlgorithm (chunksOf opts.chunkSize data)))) ∈ hashInputs H data opts :=
  List.mem_map_of_mem (List.mem_append_right _ (List.mem_singleton_self _))

/-- The root of as many chunks, under one algorithm, determines the chunks up to a collision
among the pairs of the fold or among the chunks. -/
theorem root_inj {algorithm : Algorithm} {chunks chunks' : List Bytes}
    (hlen : chunks.length = chunks'.length)
    (h : root H algorithm chunks = root H algorithm chunks') :
    chunks = chunks' ∨
      Collide (fun pair => algorithm.hash H (pairBytes pair))
        (Merkle.hashed (fun pair => algorithm.hash H (pairBytes pair)) chunks.length
          (chunks.map (algorithm.hash H)))
        (Merkle.hashed (fun pair => algorithm.hash H (pairBytes pair)) chunks'.length
          (chunks'.map (algorithm.hash H))) ∨
      Collide (algorithm.hash H) chunks chunks' := by
  by_cases hnil : chunks = []
  · subst hnil
    exact .inl (List.eq_nil_of_length_eq_zero hlen.symm).symm
  · have hnil' : chunks' ≠ [] :=
      List.ne_nil_of_length_pos (hlen ▸ List.length_pos_of_ne_nil hnil)
    have hrounds := (@rounds_eq_root H algorithm _ hnil).trans
      ((congrArg ([·]) h).trans (rounds_eq_root hnil').symm)
    rw [← hlen] at hrounds ⊢
    rcases Merkle.rounds_inj (by simpa using hlen) hrounds with hhashes | hc
    · rcases eq_or_collide_of_map_eq hhashes with heq | hc
      · exact .inl heq
      · exact .inr (.inr hc)
    · exact .inr (.inl hc)

/-- **Equal addresses mean equal content**, or two different inputs with one hash are among
those that the two calls hashed. -/
theorem create_mcid_inj {ε : Type} {d₁ d₂ : Bytes} {o₁ o₂ : CreateOptions} {t₁ t₂ : UInt64}
    {m₁ m₂ : Manifest} {cs₁ cs₂ : List Bytes}
    (h₁ : (create H d₁ o₁ t₁ : Outcome ε (Manifest × List Bytes)) = .ok (m₁, cs₁))
    (h₂ : (create H d₂ o₂ t₂ : Outcome ε (Manifest × List Bytes)) = .ok (m₂, cs₂))
    (hmcid : m₁.mcid = m₂.mcid) :
    (m₁.name = m₂.name ∧ m₁.size = m₂.size ∧ m₁.chunkSize = m₂.chunkSize ∧
      m₁.chunkCount = m₂.chunkCount ∧ m₁.hashAlgorithm = m₂.hashAlgorithm ∧
      m₁.rootHash = m₂.rootHash ∧ d₁ = d₂) ∨
    Collide (hashOf H) (hashInputs H d₁ o₁) (hashInputs H d₂ o₂) := by
  obtain ⟨⟨hpos, hlen₁⟩, rfl, rfl⟩ := create_eq_ok.mp h₁
  obtain ⟨⟨-, hlen₂⟩, rfl, rfl⟩ := create_eq_ok.mp h₂
  have hcount₁ := length_chunksOf_le o₁.chunkSize d₁
  have hcount₂ := length_chunksOf_le o₂.chunkSize d₂
  have hname₁ := o₁.name.2
  have hname₂ := o₂.name.2
  have hfields : hashOf H (o₁.hashAlgorithm, _) = hashOf H (o₂.hashAlgorithm, _) :=
    Subtype.ext (List.cons.inj (List.cons.inj (congrArg Subtype.val hmcid)).2).2
  rcases eq_or_collide fields_mem_hashInputs fields_mem_hashInputs hfields with heq | hc
  · obtain ⟨hname, hsize, hchunkSize, hcount, halgorithm, hroot⟩ := mcidFields_eq
      ⟨inRange_mcidFields.mpr ⟨hlen₁, o₁.chunkSize_lt, by omega⟩,
        sized_mcidFields (by omega) _ _ _ _ _⟩
      ⟨inRange_mcidFields.mpr ⟨hlen₂, o₂.chunkSize_lt, by omega⟩,
        sized_mcidFields (by omega) _ _ _ _ _⟩ (Prod.mk.inj heq).2
    have hroot' : root H o₁.hashAlgorithm (chunksOf o₁.chunkSize d₁) =
        root H o₁.hashAlgorithm (chunksOf o₂.chunkSize d₂) := by rw [hroot, halgorithm]
    rcases root_inj hcount hroot' with hchunks | hc | hc
    · refine .inl ⟨hname, hsize, hchunkSize, hcount, halgorithm, hroot, ?_⟩
      calc d₁ = (chunksOf o₁.chunkSize d₁).flatten :=
            (flatten_chunksOf (Nat.pos_of_ne_zero hpos) d₁).symm
        _ = (chunksOf o₂.chunkSize d₂).flatten := by rw [hchunks]
        _ = d₂ := flatten_chunksOf (Nat.pos_of_ne_zero (hchunkSize ▸ hpos)) d₂
    · refine .inr ((collide_hashOf (hc.map pairBytes_injective fun _ => rfl)).mono
        pairs_subset_hashInputs ?_)
      rw [halgorithm]
      exact pairs_subset_hashInputs
    · refine .inr ((collide_hashOf hc).mono chunks_subset_hashInputs ?_)
      rw [halgorithm]
      exact chunks_subset_hashInputs
  · exact .inr hc

/-- A stand-in for the hash functions: the first bytes of the input and the algorithm. -/
def standIn : Hashes where
  blake3 b := ⟨(b ++ .replicate 31 0).take 31 ++ [0], by simp⟩
  sha256 b := ⟨(b ++ .replicate 31 0).take 31 ++ [1], by simp⟩

def pairOptions : CreateOptions := ⟨⟨"five", by decide⟩, 2, .sha256, by decide⟩

/-- Five bytes in chunks of two, described at two times. -/
theorem create_mcid_inj_five :
    (manifestOf standIn [1, 2, 3, 4, 5] pairOptions 6).rootHash =
        (manifestOf standIn [1, 2, 3, 4, 5] pairOptions 7).rootHash ∨
      Collide (hashOf standIn) (hashInputs standIn [1, 2, 3, 4, 5] pairOptions)
        (hashInputs standIn [1, 2, 3, 4, 5] pairOptions) :=
  have h (t : UInt64) : (create standIn [1, 2, 3, 4, 5] pairOptions t :
      Outcome Unit (Manifest × List Bytes)) =
        .ok (manifestOf standIn [1, 2, 3, 4, 5] pairOptions t, [[1, 2], [3, 4], [5]]) :=
    create_eq_ok.mpr ⟨⟨by decide, by decide⟩, rfl, rfl⟩
  (create_mcid_inj (h 6) (h 7) rfl).imp_left fun h => h.2.2.2.2.2.1

end Manifest

end Macula
