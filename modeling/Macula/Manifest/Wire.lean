import Macula.Cbor.Fields
import Macula.Manifest.Create
import Mathlib.Algebra.Group.Nat.Defs
import Mathlib.Algebra.Order.BigOperators.Group.List

/-!
# Manifests on the wire

The wire form of a manifest is a record three maps deep, and `from_wire` reads it whatever
the order of its entries.  So a manifest that travels in a frame, which sorts every map, is
parsed as the one that was sent.
-/

namespace Macula.Manifest

open Macula.Cbor (Value)

/-! ## The order of entries -/

section

variable {value : Value} (h : value.DistinctKeys)

include h

theorem getUint_sorted (field : String) : getUint value.sorted field = getUint value field := by
  rw [getUint, getUint, Cbor.get_sorted_eq h]
  cases value.get field with
  | none => rfl
  | some v => cases v <;> simp

theorem getText_sorted (field : String) : getText value.sorted field = getText value field := by
  rw [getText, getText, Cbor.get_sorted_eq h]
  cases value.get field with
  | none => rfl
  | some v => cases v <;> simp

theorem getStringBytes_sorted (field : String) :
    getStringBytes value.sorted field = getStringBytes value field := by
  rw [getStringBytes, getStringBytes, Cbor.get_sorted_eq h]
  cases value.get field with
  | none => rfl
  | some v => cases v <;> simp

theorem getBytesExact_sorted (n : Nat) (field : String) :
    getBytesExact n value.sorted field = getBytesExact n value field := by
  rw [getBytesExact, getBytesExact, Cbor.get_sorted_eq h]
  cases value.get field with
  | none => rfl
  | some v => cases v <;> simp

theorem chunkInfoFromWire_sorted (bits : Nat) :
    chunkInfoFromWire bits value.sorted = chunkInfoFromWire bits value := by
  simp only [chunkInfoFromWire, getUint_sorted h, getBytesExact_sorted h]

end

theorem chunkInfosFromWire_sorted (bits : Nat) : ∀ {items : List Value},
    (∀ v ∈ items, v.DistinctKeys) →
      chunkInfosFromWire bits (items.map Value.sorted) = chunkInfosFromWire bits items := by
  intro items
  induction items with
  | nil =>
      intro _
      rfl
  | cons v items ih =>
      intro h
      obtain ⟨hv, hitems⟩ := List.forall_mem_cons.mp h
      simp only [List.map_cons, chunkInfosFromWire, chunkInfoFromWire_sorted hv,
        ih hitems]

theorem getChunks_sorted {value : Value} (h : value.DistinctKeys) (bits : Nat) :
    getChunks bits value.sorted = getChunks bits value := by
  rw [getChunks, getChunks, Cbor.get_sorted_eq h]
  cases hget : value.get "chunks" with
  | none => rfl
  | some v =>
      cases v with
      | list items =>
          have hitems : ∀ v ∈ items, v.DistinctKeys :=
            (Value.all_list.mp (Value.distinctKeys_get h hget)).2
          simpa using chunkInfosFromWire_sorted bits hitems
      | _ => simp

/-- **A manifest is parsed the same, whatever the order of its entries.** -/
theorem fromWire_sorted {value : Value} (h : value.DistinctKeys) (bits : Nat) :
    fromWire bits value.sorted = fromWire bits value := by
  simp only [fromWire, getUint_sorted h, getText_sorted h, getStringBytes_sorted h,
    getBytesExact_sorted h, getChunks_sorted h]

/-! ## The wire form -/

theorem within_nat {n d : Nat} (h : n < 2 ^ 64) : (Value.int n).Within d :=
  Value.within_int d ⟨by omega, by omega⟩

theorem record_chunkInfoToWire {info : ChunkInfo}
    (h : info.index < 2 ^ 64 ∧ info.offset < 2 ^ 64 ∧ info.size < 2 ^ 64) :
    (chunkInfoToWire info).Record 0 := by
  obtain ⟨hindex, hoffset, hsize⟩ := h
  have hrecord := Value.Record.of_fields (n := 0) ["index", "offset", "size", "hash"]
    [("index", .int info.index), ("offset", .int info.offset), ("size", .int info.size),
      ("hash", .bytes info.hash.1)]
    rfl (by decide) (by decide) (by
      simp only [List.map, List.forall_mem_cons]
      exact ⟨within_nat hindex, within_nat hoffset, within_nat hsize,
        Value.within_bytes 0 _, by simp⟩)
  exact hrecord

theorem within_chunks {manifest : Manifest} (h : manifest.WellFormed) :
    (Value.list (manifest.chunks.map chunkInfoToWire)).Within 2 := by
  have hchunk : ∀ v ∈ manifest.chunks.map chunkInfoToWire, v.Within 1 := by
    rw [List.forall_mem_map]
    exact fun c hc => (record_chunkInfoToWire (h.chunks c hc)).within
  exact ⟨Value.inRange_list.mpr fun v hv => (hchunk v hv).ints,
    Value.all_list.mpr ⟨trivial, fun v hv => (hchunk v hv).distinct⟩,
    Value.depth_list_le.mpr fun v hv => Nat.succ_le_succ (hchunk v hv).depth⟩

/-- The wire form of a manifest is one map of known fields. -/
theorem record_toWire {manifest : Manifest} (h : manifest.WellFormed) :
    manifest.toWire.Record 2 := by
  have hversion : manifest.version < 2 ^ 64 := h.version.trans (by decide)
  have hrecord := Value.Record.of_fields (n := 2) ["mcid", "version", "name", "size", "created",
      "chunk_size", "chunk_count", "hash_algorithm", "root_hash", "chunks"]
    [("mcid", .bytes manifest.mcid.1), ("version", .int manifest.version),
      ("name", .bytes (Utf8.bytes manifest.name)), ("size", .int manifest.size),
      ("created", .int manifest.created), ("chunk_size", .int manifest.chunkSize),
      ("chunk_count", .int manifest.chunkCount),
      ("hash_algorithm", .text manifest.hashAlgorithm.name),
      ("root_hash", .bytes manifest.rootHash.1),
      ("chunks", .list (manifest.chunks.map chunkInfoToWire))]
    rfl (by decide) (by decide) (by
      simp only [List.map_cons, List.map_nil, List.forall_mem_cons]
      exact ⟨Value.within_bytes 2 _, within_nat hversion, Value.within_bytes 2 _,
        within_nat h.size, within_nat h.created, within_nat h.chunkSize, within_nat h.chunkCount,
        Value.within_text 2 _, Value.within_bytes 2 _, within_chunks h, by simp⟩)
  exact hrecord

/-! ## Its length -/

theorem length_canon_chunkInfoToWire_le (info : ChunkInfo) :
    (Cbor.canon (chunkInfoToWire info)).length ≤ 120 := by
  have hindex := Cbor.length_canon_int_le info.index
  have hoffset := Cbor.length_canon_int_le info.offset
  have hsize := Cbor.length_canon_int_le info.size
  have hhash := Cbor.length_canon_bytes_le info.hash.1
  rw [info.hash.2] at hhash
  refine Cbor.length_canon_map_le (k := 30) (v := 81) ?_ ?_ |>.trans (by decide)
  · simp only [List.map_cons, List.map_nil, List.sum_cons, List.sum_nil]
    decide
  · simp only [List.map_cons, List.map_nil, List.sum_cons, List.sum_nil]
    omega

/-- The wire form of a manifest grows with its name and with its chunks. -/
theorem length_canon_toWire_le (manifest : Manifest) : (Cbor.canon manifest.toWire).length ≤
    400 + (Utf8.bytes manifest.name).length + 120 * manifest.chunks.length := by
  have hmcid := Cbor.length_canon_bytes_le manifest.mcid.1
  have hversion := Cbor.length_canon_int_le manifest.version
  have hname := Cbor.length_canon_bytes_le (Utf8.bytes manifest.name)
  have hsize := Cbor.length_canon_int_le manifest.size
  have hcreated := Cbor.length_canon_int_le manifest.created
  have hchunkSize := Cbor.length_canon_int_le manifest.chunkSize
  have hchunkCount := Cbor.length_canon_int_le manifest.chunkCount
  have halgorithm : (Cbor.canon (.text manifest.hashAlgorithm.name)).length ≤ 7 := by
    cases manifest.hashAlgorithm <;> decide
  have hroot := Cbor.length_canon_bytes_le manifest.rootHash.1
  have hchunks := Cbor.length_canon_list_le (manifest.chunks.map chunkInfoToWire)
  have hsum := List.sum_le_card_nsmul (manifest.chunks.map fun c =>
    (Cbor.canon (chunkInfoToWire c)).length) 120 (by
      rw [List.forall_mem_map]
      exact fun c _ => length_canon_chunkInfoToWire_le c)
  rw [List.length_map, Nat.nsmul_eq_mul, Nat.mul_comm] at hsum
  rw [List.map_map, Function.comp_def] at hchunks
  rw [manifest.mcid.2] at hmcid
  rw [manifest.rootHash.2] at hroot
  refine Cbor.length_canon_map_le (k := 100)
    (v := 200 + (Utf8.bytes manifest.name).length + 120 * manifest.chunks.length) ?_ ?_ |>.trans
      (by omega)
  · simp only [List.map_cons, List.map_nil, List.sum_cons, List.sum_nil]
    decide
  · simp only [List.map_cons, List.map_nil, List.sum_cons, List.sum_nil]
    omega

end Macula.Manifest
