import Macula.Content.Stations

/-!
# Fetching what a station keeps

`Serves` says that a manifest and its chunks are kept where `get` looks for them.  From such
a station `get` reads the chunks back one by one, and fails on the first whose address is not
its BLAKE3 hash (`getChunks_serves`): the loop checks every chunk with `block_mcid`, whatever
algorithm the manifest names.
-/

namespace Macula.Content

open Macula.Cbor (Value)

variable {H : Hashes} {σ : Type} {station : Station σ} {view : View σ}

/-! ## What is fetched -/

/-- A block that is kept is fetched. -/
theorem Returns.getBlock (h : Returns Faithful station view) {s : σ} {mcid : Mcid} {data : Bytes}
    (hb : view.block s mcid = some data) :
    ∃ s', getBlock station s mcid = .ok (data, s') ∧ view.Extends s s' := by
  obtain ⟨reply, s', hcall, hreply, hext⟩ := h.block hb
  obtain ⟨v, respondedBy, rfl, hv⟩ := hreply (Value.within_bytes _ data)
  obtain rfl : v = .bytes data := Value.sorted_eq_bytes.mp (hv.trans (Value.sorted_bytes data))
  refine ⟨s', ?_, hext⟩
  simp [Content.getBlock, callForResult, callWithRetry_result hcall, blockOfPayload]

/-- A manifest that is kept is fetched and parsed. -/
theorem Returns.getManifest (h : Returns Faithful station view) {s : σ} {mcid : Mcid} {w : Value}
    {manifest : Manifest} (hwell : manifest.WellFormed) (hm : view.manifest s mcid = some w)
    (hw : w.sorted = manifest.toWire.sorted) :
    ∃ s', getManifest station s mcid = .ok (manifest, s') ∧ view.Extends s s' := by
  have hwire : manifest.toWire.Within 3 := (Manifest.record_toWire hwell).within
  obtain ⟨reply, s', hcall, hreply, hext⟩ := h.manifest hm
  obtain ⟨v, respondedBy, rfl, hv⟩ := hreply ((hwire.of_sorted_eq hw).mono (by decide))
  have hsorted := hv.trans hw
  have hparse : Manifest.fromWire 64 v = .ok manifest := by
    rw [← Manifest.fromWire_sorted (hwire.of_sorted_eq hsorted).distinct, hsorted,
      Manifest.fromWire_sorted hwire.distinct, Manifest.fromWire_toWire hwell]
  obtain ⟨pairs, rfl⟩ : ∃ pairs, v = .map pairs := by
    cases v with
    | map pairs => exact ⟨pairs, rfl⟩
    | _ => simp [Manifest.toWire] at hsorted
  refine ⟨s', ?_, hext⟩
  simp [Content.getManifest, callForResult, callWithRetry_result hcall, manifestOfPayload, hparse,
    Outcome.mapErr]

/-! ## A manifest and its chunks -/

/-- The manifest is kept under its address, and each chunk under the address the manifest
gives it. -/
structure Serves (view : View σ) (s : σ) (manifest : Manifest) (chunks : List Bytes) : Prop where
  described : ∃ w, w.sorted = manifest.toWire.sorted ∧
    view.manifest s manifest.mcid = some w
  chunk : ∀ {index mcid}, manifest.chunkMcid index = some mcid →
    ∃ chunk, chunks[index]? = some chunk ∧ view.block s mcid = some chunk

theorem Serves.extends {s s' : σ} {manifest : Manifest} {chunks : List Bytes}
    (h : Serves view s manifest chunks) (hext : view.Extends s s') :
    Serves view s' manifest chunks where
  described := by
    obtain ⟨w, hw, hm⟩ := h.described
    exact ⟨w, hw, hext.manifest hm⟩
  chunk hmcid := by
    obtain ⟨chunk, hchunk, hb⟩ := h.chunk hmcid
    exact ⟨chunk, hchunk, hext.block hb⟩

theorem makeMcid_inj {codec : UInt8} {hash hash' : ByteArr 32} :
    makeMcid codec hash = makeMcid codec hash' ↔ hash = hash' := by
  simp [makeMcid, Subtype.ext_iff]

/-- The chunks from `index` on are read back, or the loop stops at one whose hash under the
manifest's algorithm is not its BLAKE3 hash. -/
theorem getChunks_serves (h : Returns Faithful station view) {d : Bytes} {opts : CreateOptions}
    {now : UInt64} {rest : List Bytes} : ∀ {index : Nat} {data : Bytes} {s : σ},
      (chunksOf opts.chunkSize d).drop index = rest →
      Serves view s (Manifest.manifestOf H d opts now) (chunksOf opts.chunkSize d) →
      ((∀ c ∈ rest, H.blake3 c = opts.hashAlgorithm.hash H c) ∧
        ∃ s', getChunks H station (Manifest.manifestOf H d opts now) rest.length index data s =
          .ok (data ++ rest.flatten, s')) ∨
      ((∃ c ∈ rest, H.blake3 c ≠ opts.hashAlgorithm.hash H c) ∧
        getChunks H station (Manifest.manifestOf H d opts now) rest.length index data s =
          .err .hashMismatch) := by
  induction rest with
  | nil => exact fun _ _ => .inl ⟨nofun, _, by simp [getChunks]; rfl⟩
  | cons c rest ih =>
      intro index data s hdrop hserves
      have hc : (chunksOf opts.chunkSize d)[index]? = some c := by
        rw [← List.head?_drop, hdrop, List.head?_cons]
      have hrest : (chunksOf opts.chunkSize d).drop (index + 1) = rest := by
        rw [← List.tail_drop, hdrop, List.tail_cons]
      have hmcid : (Manifest.manifestOf H d opts now).chunkMcid index =
          some (makeMcid CODEC_RAW (opts.hashAlgorithm.hash H c)) := by
        rw [Manifest.chunkMcid_manifestOf, hc, Option.map_some]
      obtain ⟨c', hc', hb⟩ := hserves.chunk hmcid
      obtain rfl : c = c' := Option.some.inj (hc.symm.trans hc')
      obtain ⟨s', hget, hext⟩ := h.getBlock hb
      simp only [List.length_cons, getChunks, getChunk, hmcid, hget, Outcome.expectSome,
        Outcome.ok_bind, Manifest.blockMcid, ne_eq, makeMcid_inj, List.forall_mem_cons,
        List.exists_mem_cons_iff, List.flatten_cons, ← List.append_assoc]
      by_cases hhash : H.blake3 c = opts.hashAlgorithm.hash H c
      · simp only [hhash, not_true_eq_false, if_false, Outcome.pure_eq, Outcome.ok_bind,
          true_and, false_or]
        exact ih hrest (hserves.extends hext)
      · exact .inr ⟨.inl hhash, by simp [hhash]⟩

/-- From a station that keeps a created manifest and its chunks, `get` returns the data, or it
stops at a chunk whose hash under the manifest's algorithm is not its BLAKE3 hash. -/
theorem get_serves (h : Returns Faithful station view) {d : Bytes} {opts : CreateOptions}
    {now : UInt64} {s : σ} (hpos : opts.chunkSize ≠ 0) (hlen : d.length < 2 ^ 64)
    (hserves : Serves view s (Manifest.manifestOf H d opts now) (chunksOf opts.chunkSize d)) :
    ((∀ c ∈ chunksOf opts.chunkSize d, H.blake3 c = opts.hashAlgorithm.hash H c) ∧
      ∃ s', get H station s (Manifest.manifestOf H d opts now).mcid = .ok (d, s')) ∨
    ((∃ c ∈ chunksOf opts.chunkSize d, H.blake3 c ≠ opts.hashAlgorithm.hash H c) ∧
      get H station s (Manifest.manifestOf H d opts now).mcid = .err .hashMismatch) := by
  obtain ⟨w, hw, hm⟩ := hserves.described
  obtain ⟨s₁, hmanifest, hext⟩ := h.getManifest (Manifest.wellFormed_manifestOf hpos hlen) hm hw
  have hchunked : Manifest.mcidIsChunked (Manifest.manifestOf H d opts now).mcid = true := rfl
  have hcount : (Manifest.manifestOf H d opts now).chunkCount =
      (chunksOf opts.chunkSize d).length := rfl
  simp only [get, hchunked, Bool.not_true, Bool.false_eq_true, if_false, hmanifest,
    Outcome.ok_bind, hcount]
  rcases @getChunks_serves H _ _ _ h _ _ _ _ _ [] _ List.drop_zero (hserves.extends hext) with
    ⟨hall, s₂, hget⟩ | ⟨hne, hget⟩
  · rw [List.nil_append, flatten_chunksOf (Nat.pos_of_ne_zero hpos)] at hget
    simp only [hget, Outcome.ok_bind, Manifest.verify_manifestOf hpos]
    exact .inl ⟨hall, s₂, rfl⟩
  · rw [hget]
    exact .inr ⟨hne, rfl⟩

/-- **When content is retrievable.**  A created manifest whose chunks a station keeps is
fetched, and its content with it, exactly when the algorithm of the manifest gives every
chunk its BLAKE3 hash. -/
theorem get_create_iff {ε : Type} (h : Returns Faithful station view) {d : Bytes}
    {opts : CreateOptions} {now : UInt64} {manifest : Manifest} {chunks : List Bytes} {s : σ}
    (hcreate : (Manifest.create H d opts now : Outcome ε (Manifest × List Bytes)) =
      .ok (manifest, chunks))
    (hserves : Serves view s manifest chunks) :
    (∃ s', get H station s manifest.mcid = .ok (d, s')) ↔
      ∀ c ∈ chunksOf opts.chunkSize d, H.blake3 c = opts.hashAlgorithm.hash H c := by
  obtain ⟨⟨hpos, hlen⟩, rfl, rfl⟩ := Manifest.create_eq_ok.mp hcreate
  rcases get_serves h hpos hlen hserves with ⟨hall, hget⟩ | ⟨⟨c, hc, hne⟩, hget⟩
  · exact ⟨fun _ => hall, fun _ => hget⟩
  · constructor
    · rintro ⟨s', hok⟩
      rw [hget] at hok
      cases hok
    · intro hall
      exact absurd (hall c hc) hne

/-- A reply with the payload as it is. -/
def plainly (w : Value) : Option Reply :=
  some (.response (.result w (.fill 0)))

theorem plainly_faithful {w : Value} {reply : Reply} (h : plainly w = some reply) :
    Faithful w reply := by
  obtain rfl := Option.some.inj h
  exact fun _ => ⟨w, _, rfl, rfl⟩

/-- One byte, described under either algorithm. -/
def sevenOptions (algorithm : Algorithm) : CreateOptions :=
  ⟨⟨"seven", by decide⟩, 3, algorithm, by decide⟩

def sevenManifest (algorithm : Algorithm) : Manifest :=
  Manifest.manifestOf Manifest.standIn [7] (sevenOptions algorithm) 0

/-- What a station keeps that serves it. -/
def sevenStore (algorithm : Algorithm) : Store where
  blocks := [(makeMcid CODEC_RAW (algorithm.hash Manifest.standIn [7]), [7])]
  manifests := [((sevenManifest algorithm).mcid, (sevenManifest algorithm).toWire)]

theorem create_seven (algorithm : Algorithm) :
    (Manifest.create Manifest.standIn [7] (sevenOptions algorithm) 0 :
      Outcome GetError (Manifest × List Bytes)) = .ok (sevenManifest algorithm, [[7]]) :=
  Manifest.create_eq_ok.mpr ⟨⟨Nat.succ_ne_zero 2, by decide⟩, rfl, rfl⟩

theorem serves_seven (algorithm : Algorithm) :
    Serves (storeView plainly) (sevenStore algorithm) (sevenManifest algorithm) [[7]] where
  described := ⟨_, rfl, by simp [storeView, sevenStore, plainly]⟩
  chunk := by
    intro index mcid h
    have hchunks : chunksOf (sevenOptions algorithm).chunkSize ([7] : Bytes) = [[7]] := rfl
    rw [sevenManifest, Manifest.chunkMcid_manifestOf, hchunks] at h
    cases index with
    | zero =>
        obtain rfl := Option.some.inj h
        exact ⟨[7], rfl, by simp [storeView, sevenStore, plainly, sevenOptions]⟩
    | succ index => simp at h

/-- Under BLAKE3 it is retrieved. -/
theorem get_seven_blake3 :
    ∃ st, get Manifest.standIn (storing Manifest.standIn plainly) (sevenStore .blake3)
      (sevenManifest .blake3).mcid = .ok ([7], st) :=
  (get_create_iff (storing_returns plainly_faithful) (create_seven .blake3)
    (serves_seven .blake3)).mpr fun _ _ => rfl

/-- Under SHA-256 it is not, although the station serves it. -/
theorem get_seven_sha256 :
    Returns Faithful (storing Manifest.standIn plainly) (storeView plainly) ∧
      (Manifest.create Manifest.standIn [7] (sevenOptions .sha256) 0 :
        Outcome GetError (Manifest × List Bytes)) = .ok (sevenManifest .sha256, [[7]]) ∧
      Serves (storeView plainly) (sevenStore .sha256) (sevenManifest .sha256) [[7]] ∧
      get Manifest.standIn (storing Manifest.standIn plainly) (sevenStore .sha256)
        (sevenManifest .sha256).mcid = .err .hashMismatch := by
  refine ⟨storing_returns plainly_faithful, create_seven .sha256, serves_seven .sha256, ?_⟩
  rcases get_serves (storing_returns plainly_faithful) (Nat.succ_ne_zero 2) (by decide)
    (serves_seven .sha256) with ⟨hall, -⟩ | ⟨-, hget⟩
  · exact absurd (hall [7] (.head _)) (by decide)
  · exact hget

end Macula.Content
