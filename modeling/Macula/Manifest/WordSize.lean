import Macula.Cbor.WordSize
import Macula.Manifest.Wire

/-!
# Manifests and the word size

`from_wire` casts `chunk_size`, `chunk_count` and the numbers of every chunk with `as usize`
and then makes its two checks on the results.  `written` reads the same fields and leaves the
integers as they are on the wire; `fromWire_eq` says that `from_wire` is a cast and the two
checks after it.
-/

namespace Macula.Manifest

open Macula.Cbor (Value asUsize)

/-! ## The integers on the wire -/

/-- The fields of a manifest, with the integers the wire has. -/
def written (value : Value) : Outcome FromWireError Manifest := do
  let mcid ← getBytesExact 34 value "mcid"
  let version ← getUint value "version"
  let name ← getStringBytes value "name"
  let size ← getUint value "size"
  let created ← getUint value "created"
  let chunkSize ← getUint value "chunk_size"
  let chunkCount ← getUint value "chunk_count"
  let hashAlgorithm ← getText value "hash_algorithm"
  let rootHash ← getBytesExact 32 value "root_hash"
  let chunks ← getChunks 64 value
  return { mcid, version := version % 2 ^ 32, name, size, created, chunkSize, chunkCount,
           hashAlgorithm := .fromName hashAlgorithm, rootHash, chunks }

def castChunk (bits : Nat) (info : ChunkInfo) : ChunkInfo :=
  { info with index := asUsize bits info.index, offset := asUsize bits info.offset,
              size := asUsize bits info.size }

/-- Every number that becomes a `usize`, cast to one. -/
def cast (bits : Nat) (manifest : Manifest) : Manifest :=
  { manifest with chunkSize := asUsize bits manifest.chunkSize,
                  chunkCount := asUsize bits manifest.chunkCount,
                  chunks := manifest.chunks.map (castChunk bits) }

/-- The two checks at the end of `from_wire`. -/
def checked (manifest : Manifest) : Outcome FromWireError Manifest :=
  if manifest.chunkSize = 0 then .err .zeroChunkSize
  else if manifest.chunks.length ≠ manifest.chunkCount then .err .inconsistentChunkCount
  else .ok manifest

theorem getUint_lt {value : Value} {field : String} {n : Nat} (h : getUint value field = .ok n) :
    n < 2 ^ 64 := by
  rw [getUint] at h
  split at h
  · split at h
    · obtain rfl := Outcome.ok.inj h
      exact Nat.mod_lt _ (by decide)
    · cases h
  · cases h
  · cases h

theorem asUsize_asUsize {bits n : Nat} (hbits : bits ≤ 64) :
    asUsize bits (asUsize 64 n) = asUsize bits n :=
  Nat.mod_mod_of_dvd n (Nat.pow_dvd_pow 2 hbits)

theorem asUsize_eq_self {bits n : Nat} : asUsize bits n = n ↔ n < 2 ^ bits :=
  Nat.mod_eq_iff_lt (by positivity)

theorem chunkInfoFromWire_cast {bits : Nat} (hbits : bits ≤ 64) (value : Value) :
    chunkInfoFromWire bits value =
      chunkInfoFromWire 64 value >>= fun info => .ok (castChunk bits info) := by
  simp only [chunkInfoFromWire, Outcome.bind_assoc, Outcome.pure_eq, Outcome.ok_bind, castChunk,
    asUsize_asUsize hbits]

theorem chunkInfosFromWire_cast {bits : Nat} (hbits : bits ≤ 64) (items : List Value) :
    chunkInfosFromWire bits items =
      chunkInfosFromWire 64 items >>= fun infos => .ok (infos.map (castChunk bits)) := by
  induction items with
  | nil => rfl
  | cons item items ih =>
      simp only [chunkInfosFromWire, chunkInfoFromWire_cast hbits item, ih, Outcome.bind_assoc,
        Outcome.pure_eq, Outcome.ok_bind, List.map_cons]

theorem getChunks_cast {bits : Nat} (hbits : bits ≤ 64) (value : Value) :
    getChunks bits value =
      getChunks 64 value >>= fun infos => .ok (infos.map (castChunk bits)) := by
  rw [getChunks, getChunks]
  split
  · exact chunkInfosFromWire_cast hbits _
  · rfl
  · rfl

/-- **`from_wire` is a cast and two checks.** -/
theorem fromWire_eq {bits : Nat} (hbits : bits ≤ 64) (value : Value) :
    fromWire bits value = written value >>= fun manifest => checked (manifest.cast bits) := by
  simp only [fromWire, written, Outcome.bind_assoc, getChunks_cast hbits, Outcome.pure_eq,
    Outcome.ok_bind, checked, cast]
  rfl

/-! ## The cast -/

/-- Every number that becomes a `usize` fits in one. -/
structure Fits (bits : Nat) (manifest : Manifest) : Prop where
  chunkSize : manifest.chunkSize < 2 ^ bits
  chunkCount : manifest.chunkCount < 2 ^ bits
  chunks : ∀ c ∈ manifest.chunks, c.index < 2 ^ bits ∧ c.offset < 2 ^ bits ∧ c.size < 2 ^ bits

theorem castChunk_eq_self {bits : Nat} {c : ChunkInfo} :
    castChunk bits c = c ↔ c.index < 2 ^ bits ∧ c.offset < 2 ^ bits ∧ c.size < 2 ^ bits := by
  cases c
  simp [castChunk, asUsize_eq_self]

theorem cast_eq_self {bits : Nat} {manifest : Manifest} :
    manifest.cast bits = manifest ↔ manifest.Fits bits := by
  have hmap : manifest.chunks.map (castChunk bits) = manifest.chunks ↔
      ∀ c ∈ manifest.chunks, castChunk bits c = c := by
    have h := @List.map_inj_left _ _ manifest.chunks (castChunk bits) id
    rwa [List.map_id] at h
  simp only [castChunk_eq_self] at hmap
  constructor
  · intro h
    have hsize := congrArg chunkSize h
    have hcount := congrArg chunkCount h
    have hchunks := congrArg chunks h
    exact ⟨asUsize_eq_self.mp hsize, asUsize_eq_self.mp hcount, hmap.mp hchunks⟩
  · intro h
    simp only [cast, asUsize_eq_self.mpr h.chunkSize, asUsize_eq_self.mpr h.chunkCount,
      hmap.mpr h.chunks]

/-- The two checks end alike before the cast and after it. -/
def CastHarmless (bits : Nat) (manifest : Manifest) : Prop :=
  manifest.chunkSize = 0 ∨
    asUsize bits manifest.chunkSize ≠ 0 ∧
      (manifest.chunks.length = manifest.chunkCount ∨
        manifest.chunks.length = asUsize bits manifest.chunkCount → manifest.Fits bits)

theorem checked_cast {bits : Nat} {manifest : Manifest} :
    checked (manifest.cast bits) = checked manifest ↔ manifest.CastHarmless bits := by
  have hlength : (manifest.cast bits).chunks.length = manifest.chunks.length := List.length_map _
  by_cases hzero : manifest.chunkSize = 0
  · have hcast : (manifest.cast bits).chunkSize = 0 := by simp [cast, hzero, asUsize]
    rw [checked, checked, if_pos hzero, if_pos hcast]
    exact ⟨fun _ => .inl hzero, fun _ => rfl⟩
  · rw [checked, checked, if_neg hzero, hlength, CastHarmless, or_iff_right hzero]
    change (if asUsize bits manifest.chunkSize = 0 then _ else
      if manifest.chunks.length ≠ asUsize bits manifest.chunkCount then _ else _) = _ ↔ _
    constructor
    · intro h
      split at h
      · split at h <;> cases h
      · next hcast =>
          refine ⟨hcast, fun hcount => ?_⟩
          split at h
          · next hnarrow =>
              split at h
              · next hwide => exact (hcount.elim hwide hnarrow).elim
              · cases h
          · split at h
            · cases h
            · exact cast_eq_self.mp (Outcome.ok.inj h)
    · rintro ⟨hcast, hfits⟩
      rw [if_neg hcast]
      split
      · next hnarrow =>
          rw [if_pos]
          intro hwide
          have hcount := asUsize_eq_self.mpr (hfits (.inl hwide)).chunkCount
          exact hnarrow (hwide.trans hcount.symm)
      · next hnarrow =>
          have hself := hfits (.inr (not_not.mp hnarrow))
          have hcount := asUsize_eq_self.mpr hself.chunkCount
          rw [hcount] at hnarrow
          rw [if_neg hnarrow, cast_eq_self.mpr hself]

/-- Where the numbers of a manifest come from. -/
theorem written_numbers {value : Value} {manifest : Manifest} (h : written value = .ok manifest) :
    getUint value "chunk_size" = .ok manifest.chunkSize ∧
      getUint value "chunk_count" = .ok manifest.chunkCount ∧
      getChunks 64 value = .ok manifest.chunks := by
  obtain ⟨_, -, h⟩ := Outcome.bind_eq_ok.mp h
  obtain ⟨_, -, h⟩ := Outcome.bind_eq_ok.mp h
  obtain ⟨_, -, h⟩ := Outcome.bind_eq_ok.mp h
  obtain ⟨_, -, h⟩ := Outcome.bind_eq_ok.mp h
  obtain ⟨_, -, h⟩ := Outcome.bind_eq_ok.mp h
  obtain ⟨_, hsize, h⟩ := Outcome.bind_eq_ok.mp h
  obtain ⟨_, hcount, h⟩ := Outcome.bind_eq_ok.mp h
  obtain ⟨_, -, h⟩ := Outcome.bind_eq_ok.mp h
  obtain ⟨_, -, h⟩ := Outcome.bind_eq_ok.mp h
  obtain ⟨_, hchunks, h⟩ := Outcome.bind_eq_ok.mp h
  obtain rfl := Outcome.ok.inj h
  exact ⟨hsize, hcount, hchunks⟩

/-- Where the numbers of a chunk come from. -/
theorem chunkInfo_numbers {item : Value} {info : ChunkInfo}
    (h : chunkInfoFromWire 64 item = .ok info) :
    getUint item "index" = .ok info.index ∧ getUint item "offset" = .ok info.offset ∧
      getUint item "size" = .ok info.size := by
  obtain ⟨index, hindex, h⟩ := Outcome.bind_eq_ok.mp h
  obtain ⟨offset, hoffset, h⟩ := Outcome.bind_eq_ok.mp h
  obtain ⟨size, hsize, h⟩ := Outcome.bind_eq_ok.mp h
  obtain ⟨_, -, h⟩ := Outcome.bind_eq_ok.mp h
  obtain rfl := Outcome.ok.inj h
  simp only [asUsize_eq_self.mpr (getUint_lt hindex), asUsize_eq_self.mpr (getUint_lt hoffset),
    asUsize_eq_self.mpr (getUint_lt hsize)]
  exact ⟨hindex, hoffset, hsize⟩

theorem chunkInfos_numbers : ∀ {items : List Value} {infos : List ChunkInfo},
    chunkInfosFromWire 64 items = .ok infos → List.Forall₂ (fun item info =>
      getUint item "index" = .ok info.index ∧ getUint item "offset" = .ok info.offset ∧
        getUint item "size" = .ok info.size) items infos := by
  intro items
  induction items with
  | nil =>
      intro infos h
      obtain rfl := Outcome.ok.inj h
      exact .nil
  | cons item items ih =>
      intro infos h
      obtain ⟨info, hinfo, h⟩ := Outcome.bind_eq_ok.mp h
      obtain ⟨infos, hinfos, h⟩ := Outcome.bind_eq_ok.mp h
      obtain rfl := Outcome.ok.inj h
      exact .cons (chunkInfo_numbers hinfo) (ih hinfos)

theorem getChunks_eq_ok {bits : Nat} {value : Value} {infos : List ChunkInfo}
    (h : getChunks bits value = .ok infos) :
    ∃ items, value.get "chunks" = some (.list items) ∧
      chunkInfosFromWire bits items = .ok infos := by
  rw [getChunks] at h
  split at h
  · next items hget => exact ⟨items, hget, h⟩
  · cases h
  · cases h

theorem fits_of_written {value : Value} {manifest : Manifest}
    (h : written value = .ok manifest) : manifest.Fits 64 := by
  obtain ⟨hsize, hcount, hchunks⟩ := written_numbers h
  obtain ⟨items, -, hinfos⟩ := getChunks_eq_ok hchunks
  refine ⟨getUint_lt hsize, getUint_lt hcount, ?_⟩
  have hnumbers := chunkInfos_numbers hinfos
  generalize manifest.chunks = infos at hnumbers
  clear hinfos hchunks
  induction hnumbers with
  | nil => simp
  | cons hitem _ ih =>
      obtain ⟨hindex, hoffset, hsize⟩ := hitem
      exact List.forall_mem_cons.mpr ⟨⟨getUint_lt hindex, getUint_lt hoffset, getUint_lt hsize⟩, ih⟩

/-- **The word size matters** to a manifest exactly when the cast makes a difference to the
checks or to a number that passes them. -/
theorem fromWire_narrow_eq_iff {bits : Nat} (hbits : bits ≤ 64) (value : Value) :
    fromWire bits value = fromWire 64 value ↔
      ∀ manifest, written value = .ok manifest → manifest.CastHarmless bits := by
  rw [fromWire_eq hbits, fromWire_eq le_rfl]
  cases h : written value with
  | ok manifest =>
      simp only [Outcome.ok_bind, cast_eq_self.mpr (fits_of_written h), checked_cast,
        Outcome.ok.injEq, forall_eq']
  | err e => simp
  | panicked => simp

/-! ## What a manifest says -/

/-- The numbers of a parsed manifest are the integers on the wire. -/
structure AsWritten (value : Value) (manifest : Manifest) : Prop where
  chunkSize : value.get "chunk_size" = some (.int manifest.chunkSize)
  chunkCount : value.get "chunk_count" = some (.int manifest.chunkCount)
  chunks : ∃ items, value.get "chunks" = some (.list items) ∧
    List.Forall₂ (fun item info => item.get "index" = some (.int info.index) ∧
      item.get "offset" = some (.int info.offset) ∧ item.get "size" = some (.int info.size))
      items manifest.chunks

theorem get_of_getUint {value : Value} {field : String} {n : Nat} (hv : value.IntsInRange)
    (h : getUint value field = .ok n) : value.get field = some (.int n) := by
  rw [getUint] at h
  split at h
  · next i hget =>
      split at h
      · next hle =>
          have hrange := Value.all_int.mp (Value.inRange_get hv hget)
          have hlt : i.toNat < 2 ^ 64 := by
            have := hrange.2
            omega
          obtain rfl := Outcome.ok.inj h
          rw [hget, Nat.mod_eq_of_lt hlt, Int.toNat_of_nonneg hle]
      · cases h
  · cases h
  · cases h

theorem asWritten_of_written {value : Value} {manifest : Manifest} (hv : value.IntsInRange)
    (h : written value = .ok manifest) : AsWritten value manifest := by
  obtain ⟨hsize, hcount, hchunks⟩ := written_numbers h
  obtain ⟨items, hget, hinfos⟩ := getChunks_eq_ok hchunks
  refine ⟨get_of_getUint hv hsize, get_of_getUint hv hcount, items, hget, ?_⟩
  have hitems := Value.inRange_list.mp (Value.inRange_get hv hget)
  have hnumbers := chunkInfos_numbers hinfos
  generalize manifest.chunks = infos at hnumbers
  clear hget hinfos hchunks
  induction hnumbers with
  | nil => exact .nil
  | cons hitem _ ih =>
      obtain ⟨hv, hitems⟩ := List.forall_mem_cons.mp hitems
      obtain ⟨hindex, hoffset, hsize⟩ := hitem
      exact .cons ⟨get_of_getUint hv hindex, get_of_getUint hv hoffset, get_of_getUint hv hsize⟩
        (ih hitems)

/-- A parsed manifest is the one that was written, where `usize` has 64 bits. -/
theorem asWritten_of_fromWire {value : Value} {manifest : Manifest} (hv : value.IntsInRange)
    (h : fromWire 64 value = .ok manifest) : AsWritten value manifest := by
  rw [fromWire_eq le_rfl] at h
  obtain ⟨w, hw, h⟩ := Outcome.bind_eq_ok.mp h
  rw [cast_eq_self.mpr (fits_of_written hw), checked] at h
  split at h
  · cases h
  · split at h
    · cases h
    · obtain rfl := Outcome.ok.inj h
      exact asWritten_of_written hv hw

/-! ## Decoding and parsing -/

/-- A platform with a narrow `usize` decodes `b`, and parses a manifest from it, as one with 64
bits does: strings have the length their heads claim, and manifests the numbers on the wire. -/
structure PlatformFree (bits : Nat) (b : Bytes) : Prop where
  decode : Cbor.decode bits b = Cbor.decode 64 b
  strings : ∀ v, Cbor.decode bits b = .ok v → Cbor.Item 0 b v
  parse : ∀ v, Cbor.decode bits b = .ok v → fromWire bits v = fromWire 64 v
  numbers : ∀ v manifest, Cbor.decode bits b = .ok v → fromWire bits v = .ok manifest →
    AsWritten v manifest

/-- **Where the word size does not matter.**  A string whose length wraps is met only where the
bytes run out further on anyway, and a manifest has no number for the cast to change, or fails
its checks with the cast as without it. -/
theorem platformFree_iff {b : Bytes} (hb : b.length < 2 ^ 32) :
    PlatformFree 32 b ↔ (Cbor.MeetsWrap 32 0 b → Cbor.Stops 32 0 b .truncated) ∧
      ∀ v manifest, Cbor.Item 0 b v → written v = .ok manifest → manifest.CastHarmless 32 := by
  constructor
  · intro h
    refine ⟨(Cbor.decode_narrow_eq_iff hb).mp h.decode, fun v manifest hitem => ?_⟩
    have hv : Cbor.decode 32 b = .ok v := h.decode.trans (Cbor.decode_eq_ok.mpr hitem)
    exact (fromWire_narrow_eq_iff (by decide) v).mp (h.parse v hv) manifest
  · rintro ⟨hwrap, hcast⟩
    have hdecode := (Cbor.decode_narrow_eq_iff hb).mpr hwrap
    have hstrings : ∀ v, Cbor.decode 32 b = .ok v → Cbor.Item 0 b v := by
      intro v hv
      exact Cbor.decode_eq_ok.mp (hdecode.symm.trans hv)
    have hparse : ∀ v, Cbor.decode 32 b = .ok v → fromWire 32 v = fromWire 64 v := by
      intro v hv
      exact (fromWire_narrow_eq_iff (by decide) v).mpr
        fun manifest => hcast v manifest (hstrings v hv)
    refine ⟨hdecode, hstrings, hparse, fun v manifest hv hmanifest => ?_⟩
    have hints := (hstrings v hv).fits.encodable.ints
    exact asWritten_of_fromWire hints ((hparse v hv).symm.trans hmanifest)

/-- The head of a byte string of `2 ^ 32` bytes and nothing after it is an empty one to a
`usize` of 32 bits. -/
theorem not_platformFree_wrapped :
    ¬ PlatformFree 32 [0x5B, 0x00, 0x00, 0x00, 0x01, 0x00, 0x00, 0x00, 0x00] := by
  intro h
  exact absurd h.decode (by decide)

/-- The same head as the first of two items, with no second one: both platforms run out. -/
theorem platformFree_cutShort :
    PlatformFree 32 [0x82, 0x5B, 0x00, 0x00, 0x00, 0x01, 0x00, 0x00, 0x00, 0x00] := by
  apply (platformFree_iff (by decide)).mpr
  constructor
  · intro _
    have herr : Cbor.decode 32 [0x82, 0x5B, 0x00, 0x00, 0x00, 0x01, 0x00, 0x00, 0x00, 0x00] =
        .err .truncated := by decide
    rcases Cbor.decode_eq_err.mp herr with hstops | ⟨he, -⟩
    · exact hstops
    · cases he
  · intro v manifest hitem
    have hv := Cbor.decode_eq_ok.mpr hitem
    have herr : Cbor.decode 64 [0x82, 0x5B, 0x00, 0x00, 0x00, 0x01, 0x00, 0x00, 0x00, 0x00] =
        .err .truncated := by decide
    rw [herr] at hv
    cases hv

end Macula.Manifest
