import Macula.Manifest.Create

/-!
# What verification is worth

`create` and `verify` cut data the same way and fold the hashes of the chunks the same way, so a
manifest verifies the data it was created from.  The other direction is about every other
data: `verify` compares the length first, so the two folds start from equally many hashes, and
one root for both then means equal chunks (`root_inj`), or two different inputs with one hash
among those that the two calls of `root_hash_for` hash.
-/

namespace Macula.Manifest

/-- `chunks` are `data` in order, in pieces of `chunkSize` bytes, the last one of at least one
byte. -/
structure Cut (chunkSize : Nat) (data : Bytes) (chunks : List Bytes) : Prop where
  flatten : chunks.flatten = data
  full : ∀ chunk ∈ chunks.dropLast, chunk.length = chunkSize
  last : ∀ chunk ∈ chunks.getLast?, chunk ≠ []
  count : chunks.length = (data.length + chunkSize - 1) / chunkSize

theorem cut_chunksOf {chunkSize : Nat} (hpos : chunkSize ≠ 0) (data : Bytes) :
    Cut chunkSize data (chunksOf chunkSize data) where
  flatten := flatten_chunksOf (Nat.pos_of_ne_zero hpos) data
  full := length_of_mem_dropLast_chunksOf (Nat.pos_of_ne_zero hpos) data
  last _ h := ne_nil_of_mem_chunksOf (Nat.pos_of_ne_zero hpos) (List.mem_of_getLast? h)
  count := length_chunksOf (Nat.pos_of_ne_zero hpos) data

variable (H : Hashes)

/-- The manifest lists the chunks by their numbers, each where the ones before it end. -/
structure Lists (manifest : Manifest) (chunks : List Bytes) : Prop where
  count : manifest.chunkCount = chunks.length
  length : manifest.chunks.length = chunks.length
  info : ∀ index chunk, chunks[index]? = some chunk → manifest.chunks[index]? =
    some ({ index, offset := ((manifest.chunks.take index).map (·.size)).sum, size := chunk.length,
            hash := manifest.hashAlgorithm.hash H chunk } : ChunkInfo)

/-- What the root of some data is made from: its chunks, and the pairs of every level. -/
def rootInputs (manifest : Manifest) (data : Bytes) : List Bytes :=
  let node := fun pair => manifest.hashAlgorithm.hash H (pairBytes pair)
  let chunks := chunksOf manifest.chunkSize data
  chunks ++ (Merkle.hashed node chunks.length
    (chunks.map (manifest.hashAlgorithm.hash H))).map pairBytes

variable {H}

theorem map_size_chunkInfosFrom (algorithm : Algorithm) (chunks : List Bytes) :
    ∀ index offset : Nat, (chunkInfosFrom H algorithm index offset chunks).map (·.size) =
      chunks.map List.length := by
  induction chunks with
  | nil => intro index offset; rfl
  | cons chunk chunks ih =>
      intro index offset
      simp [chunkInfosFrom, ih]

theorem getElem?_chunkInfosFrom (algorithm : Algorithm) (chunks : List Bytes) :
    ∀ index offset i : Nat, (chunkInfosFrom H algorithm index offset chunks)[i]? =
      chunks[i]?.map fun chunk =>
        { index := index + i, offset := offset + ((chunks.take i).map List.length).sum,
          size := chunk.length, hash := algorithm.hash H chunk } := by
  induction chunks with
  | nil => intro index offset i; rfl
  | cons chunk chunks ih =>
      intro index offset i
      cases i with
      | zero => simp [chunkInfosFrom]
      | succ i =>
          rw [chunkInfosFrom, List.getElem?_cons_succ, ih, List.getElem?_cons_succ]
          simp [Nat.add_assoc, Nat.add_comm 1]

theorem lists_manifestOf (data : Bytes) (opts : CreateOptions) (now : UInt64) :
    Lists H (manifestOf H data opts now) (chunksOf opts.chunkSize data) where
  count := rfl
  length := length_chunkInfos _ _
  info index chunk h := by
    have hsizes := @map_size_chunkInfosFrom H opts.hashAlgorithm (chunksOf opts.chunkSize data) 0 0
    have hinfo := @getElem?_chunkInfosFrom H opts.hashAlgorithm (chunksOf opts.chunkSize data) 0 0
      index
    rw [h, Option.map_some, List.map_take, ← hsizes, ← List.map_take] at hinfo
    simp only [Nat.zero_add] at hinfo
    exact hinfo

/-! ## The folding loop -/

/-- *The folding loop ends.*  It leaves one hash, and as many rounds as there are hashes are
enough, whatever their number. -/
theorem foldHashes_ends (algorithm : Algorithm) {hashes : List (ByteArr 32)} (hne : hashes ≠ []) :
    ∃ root, ∀ fuel, hashes.length ≤ fuel → foldHashes H algorithm fuel hashes = [root] := by
  simp only [foldHashes_eq]
  obtain ⟨root, hroot⟩ := List.length_eq_one_iff.mp (Merkle.length_rounds
    (fun pair => algorithm.hash H (pairBytes pair)) hne (Nat.le_refl hashes.length))
  refine ⟨root, fun fuel hfuel => ?_⟩
  rw [Merkle.rounds_of_le _ hfuel (Nat.le_refl _), hroot]

/-! ## Soundness -/

/-- Data that verifies is as long as the manifest says and has its root. -/
theorem verify_eq_ok_iff {manifest : Manifest} (hpos : manifest.chunkSize ≠ 0) {data : Bytes} :
    manifest.verify H data = .ok () ↔ data.length = manifest.size ∧
      root H manifest.hashAlgorithm (chunksOf manifest.chunkSize data) = manifest.rootHash := by
  rw [verify_eq_ok, rechunkedRoot_eq hpos, Outcome.ok.injEq]

/-- *Two data that one manifest verifies are equal*, or two different inputs with one hash are
among those that the two roots are made from. -/
theorem verify_inj {manifest : Manifest} (hpos : manifest.chunkSize ≠ 0) {data data' : Bytes}
    (h : manifest.verify H data = .ok ()) (h' : manifest.verify H data' = .ok ()) :
    data' = data ∨ Collide (manifest.hashAlgorithm.hash H) (rootInputs H manifest data')
      (rootInputs H manifest data) := by
  obtain ⟨hlen, hroot⟩ := (verify_eq_ok_iff hpos).mp h
  obtain ⟨hlen', hroot'⟩ := (verify_eq_ok_iff hpos).mp h'
  have hpos' := Nat.pos_of_ne_zero hpos
  have hcount : (chunksOf manifest.chunkSize data').length =
      (chunksOf manifest.chunkSize data).length := by
    rw [length_chunksOf hpos', length_chunksOf hpos', hlen, hlen']
  rcases root_inj hcount (hroot'.trans hroot.symm) with hchunks | hc | hc
  · left
    calc data' = (chunksOf manifest.chunkSize data').flatten := (flatten_chunksOf hpos' data').symm
      _ = (chunksOf manifest.chunkSize data).flatten := by rw [hchunks]
      _ = data := flatten_chunksOf hpos' data
  · exact .inr ((hc.map pairBytes_injective fun _ => rfl).mono
      (List.subset_append_right _ _) (List.subset_append_right _ _))
  · exact .inr (hc.mono (List.subset_append_left _ _) (List.subset_append_left _ _))

/-- *Verification is complete and sound.*  Data is cut and described as it should be, verifies
against its manifest, and no other data does unless two different inputs have one hash. -/
theorem create_verify {ε : Type} {data : Bytes} {opts : CreateOptions} {now : UInt64}
    (hpos : opts.chunkSize ≠ 0) (hlen : data.length < 2 ^ 64) :
    (∃ manifest chunks,
      (create H data opts now : Outcome ε (Manifest × List Bytes)) = .ok (manifest, chunks) ∧
      Cut opts.chunkSize data chunks ∧ Lists H manifest chunks ∧
      manifest.hashAlgorithm = opts.hashAlgorithm ∧
      manifest.verify H data = .ok () ∧
      ∀ data', manifest.verify H data' = .ok () → data' = data ∨
        Collide (opts.hashAlgorithm.hash H) (rootInputs H manifest data')
          (rootInputs H manifest data)) ∧
    ∀ hashes : List (ByteArr 32), hashes ≠ [] → ∃ root, ∀ fuel, hashes.length ≤ fuel →
      foldHashes H opts.hashAlgorithm fuel hashes = [root] := by
  refine ⟨⟨manifestOf H data opts now, chunksOf opts.chunkSize data,
    create_eq_ok.mpr ⟨⟨hpos, hlen⟩, rfl, rfl⟩, cut_chunksOf hpos data, lists_manifestOf ..,
    rfl, verify_manifestOf hpos, ?_⟩, fun hashes => foldHashes_ends opts.hashAlgorithm⟩
  intro data' h'
  exact verify_inj hpos (verify_manifestOf hpos) h'

/-- Five bytes in chunks of two: three chunks, and two levels above their hashes. -/
theorem create_verify_five :
    (∃ manifest chunks,
      (create standIn [1, 2, 3, 4, 5] pairOptions 6 : Outcome Unit (Manifest × List Bytes)) =
        .ok (manifest, chunks) ∧
      Cut 2 [1, 2, 3, 4, 5] chunks ∧ Lists standIn manifest chunks ∧
      manifest.hashAlgorithm = .sha256 ∧
      manifest.verify standIn [1, 2, 3, 4, 5] = .ok () ∧
      ∀ data', manifest.verify standIn data' = .ok () → data' = [1, 2, 3, 4, 5] ∨
        Collide (Algorithm.sha256.hash standIn) (rootInputs standIn manifest data')
          (rootInputs standIn manifest [1, 2, 3, 4, 5])) ∧
    ∀ hashes : List (ByteArr 32), hashes ≠ [] → ∃ root, ∀ fuel, hashes.length ≤ fuel →
      foldHashes standIn .sha256 fuel hashes = [root] :=
  @create_verify standIn Unit [1, 2, 3, 4, 5] pairOptions 6 (by decide) (by decide)

end Macula.Manifest
