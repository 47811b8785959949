import Macula.Cbor.Accept
import Macula.Cbor.Canonical

/-!
# Round trips

The encoder takes any value and the decoder does not return any value: it rejects deep
nesting and merges repeated keys.  `Fits d v` is what a value has to satisfy to come back
from depth `d`.  It is exactly the values the decoder returns (`Item.fits`), and on those
writing and reading invert each other (`Fits.item_plain`).

The encoder sorts map entries, so a value comes back sorted, and a value that was read
encodes to the same bytes however often it is read again.
-/

namespace Macula.Cbor

/-! ## Distinct keys and depth -/

/-- No key twice, by its encoding. -/
def KeysOk : Value → Prop
  | .map pairs => (entryKeys pairs).Nodup
  | _ => True

instance (v : Value) : Decidable (KeysOk v) :=
  match v with
  | .map pairs => inferInstanceAs (Decidable (entryKeys pairs).Nodup)
  | .int _ | .bytes _ | .text _ | .list _ | .null | .float _ => inferInstanceAs (Decidable True)

/-- No map in `v`, at any level and inside keys too, holds two keys with equal encodings. -/
def Value.DistinctKeys (v : Value) : Prop := v.All KeysOk

mutual

/-- How far below `v` its deepest sub-value sits. -/
def Value.depth : Value → Nat
  | .list items => depthItems items
  | .map pairs => depthPairs pairs
  | _ => 0

def depthItems : List Value → Nat
  | [] => 0
  | v :: items => max (v.depth + 1) (depthItems items)

def depthPairs : List (Value × Value) → Nat
  | [] => 0
  | (k, v) :: pairs => max (max (k.depth + 1) (v.depth + 1)) (depthPairs pairs)

end

theorem depthItems_le {n : Nat} : ∀ {items : List Value},
    depthItems items ≤ n ↔ ∀ v ∈ items, v.depth + 1 ≤ n
  | [] => by simp [depthItems]
  | v :: items => by
      rw [depthItems, max_le_iff, depthItems_le, List.forall_mem_cons]

theorem depthPairs_le {n : Nat} : ∀ {pairs : List (Value × Value)},
    depthPairs pairs ≤ n ↔ ∀ p ∈ pairs, p.1.depth + 1 ≤ n ∧ p.2.depth + 1 ≤ n
  | [] => by simp [depthPairs]
  | (k, v) :: pairs => by
      rw [depthPairs, max_le_iff, max_le_iff, depthPairs_le, List.forall_mem_cons]

theorem Value.depth_list_le {n : Nat} {items : List Value} :
    (Value.list items).depth ≤ n ↔ ∀ v ∈ items, v.depth + 1 ≤ n := by
  rw [Value.depth, depthItems_le]

theorem Value.depth_map_le {n : Nat} {pairs : List (Value × Value)} :
    (Value.map pairs).depth ≤ n ↔ ∀ p ∈ pairs, p.1.depth + 1 ≤ n ∧ p.2.depth + 1 ≤ n := by
  rw [Value.depth, depthPairs_le]

theorem entryKeys_sorted (pairs : List (Value × Value)) :
    (entryKeys (keySort entryKey (pairs.map sortedEntry))).Perm (entryKeys pairs) := by
  have hkeys : (pairs.map sortedEntry).map entryKey = entryKeys pairs := by
    rw [List.map_map]
    exact List.map_congr_left fun p _ => entryKey_sortedEntry p
  rw [← hkeys]
  exact (keySort_perm entryKey _).map entryKey

theorem Value.distinctKeys_sorted {v : Value} : v.sorted.DistinctKeys ↔ v.DistinctKeys :=
  Value.all_sorted (fun _ => Iff.rfl) (fun pairs => (entryKeys_sorted pairs).nodup_iff) v

theorem Value.depth_sorted (v : Value) : v.sorted.depth = v.depth := by
  induction v using Value.induct with
  | list items ih =>
      refine eq_of_forall_ge_iff fun n => ?_
      rw [Value.sorted_list, Value.depth_list_le, Value.depth_list_le, List.forall_mem_map]
      exact forall₂_congr fun v hv => by rw [ih v hv]
  | map pairs ih =>
      refine eq_of_forall_ge_iff fun n => ?_
      rw [Value.sorted_map, Value.depth_map_le, Value.depth_map_le]
      simp only [mem_keySort, List.forall_mem_map, sortedEntry]
      exact forall₂_congr fun p hp => by rw [(ih p hp).1, (ih p hp).2]
  | _ => simp

/-! ## The values that come back -/

/-- `v` can sit at depth `d` of a decoded value. -/
structure Fits (d : Nat) (v : Value) : Prop where
  encodable : v.Encodable
  distinct : v.DistinctKeys
  depth : d + v.depth ≤ MAX_NESTING_DEPTH

theorem Fits.depth_le {d : Nat} {v : Value} (h : Fits d v) : d ≤ MAX_NESTING_DEPTH :=
  (Nat.le_add_right d _).trans h.depth

theorem fits_list {d : Nat} {items : List Value} :
    Fits d (.list items) ↔
      d ≤ MAX_NESTING_DEPTH ∧ items.length < 2 ^ 64 ∧ ∀ v ∈ items, Fits (d + 1) v := by
  have hdepth := @Value.depth_list_le (MAX_NESTING_DEPTH - d) items
  constructor
  · intro h
    obtain ⟨hlen, -⟩ := Value.all_list.mp h.encodable.sized
    obtain ⟨-, hdistinct⟩ := Value.all_list.mp h.distinct
    have hle := h.depth_le
    have hsum := h.depth
    refine ⟨hle, hlen, fun v hv => ⟨h.encodable.item hv, hdistinct v hv, ?_⟩⟩
    have := hdepth.mp (by omega) v hv
    omega
  · rintro ⟨hle, hlen, hitems⟩
    refine ⟨⟨Value.all_list.mpr ⟨trivial, fun v hv => (hitems v hv).encodable.ints⟩,
      Value.all_list.mpr ⟨hlen, fun v hv => (hitems v hv).encodable.sized⟩⟩,
      Value.all_list.mpr ⟨trivial, fun v hv => (hitems v hv).distinct⟩, ?_⟩
    have hsum : (Value.list items).depth ≤ MAX_NESTING_DEPTH - d := by
      refine hdepth.mpr fun v hv => ?_
      have := (hitems v hv).depth
      omega
    omega

theorem fits_map {d : Nat} {pairs : List (Value × Value)} :
    Fits d (.map pairs) ↔
      d ≤ MAX_NESTING_DEPTH ∧ pairs.length < 2 ^ 64 ∧ (entryKeys pairs).Nodup ∧
        ∀ p ∈ pairs, Fits (d + 1) p.1 ∧ Fits (d + 1) p.2 := by
  have hdepth := @Value.depth_map_le (MAX_NESTING_DEPTH - d) pairs
  constructor
  · intro h
    obtain ⟨hlen, -⟩ := Value.all_map.mp h.encodable.sized
    obtain ⟨hkeys, hdistinct⟩ := Value.all_map.mp h.distinct
    have hle := h.depth_le
    have hsum := h.depth
    refine ⟨hle, hlen, hkeys, fun p hp => ?_⟩
    have := hdepth.mp (by omega) p hp
    exact ⟨⟨h.encodable.key hp, (hdistinct p hp).1, by omega⟩,
      ⟨h.encodable.value hp, (hdistinct p hp).2, by omega⟩⟩
  · rintro ⟨hle, hlen, hkeys, hpairs⟩
    refine ⟨⟨Value.all_map.mpr ⟨trivial, fun p hp =>
        ⟨(hpairs p hp).1.encodable.ints, (hpairs p hp).2.encodable.ints⟩⟩,
      Value.all_map.mpr ⟨hlen, fun p hp =>
        ⟨(hpairs p hp).1.encodable.sized, (hpairs p hp).2.encodable.sized⟩⟩⟩,
      Value.all_map.mpr ⟨hkeys, fun p hp =>
        ⟨(hpairs p hp).1.distinct, (hpairs p hp).2.distinct⟩⟩, ?_⟩
    have hsum : (Value.map pairs).depth ≤ MAX_NESTING_DEPTH - d := by
      refine hdepth.mpr fun p hp => ?_
      have hk := (hpairs p hp).1.depth
      have hv := (hpairs p hp).2.depth
      omega
    omega

theorem fits_sorted {d : Nat} {v : Value} : Fits d v.sorted ↔ Fits d v := by
  constructor
  · rintro ⟨henc, hdistinct, hdepth⟩
    rw [Value.depth_sorted] at hdepth
    exact ⟨Value.encodable_sorted.mp henc, Value.distinctKeys_sorted.mp hdistinct, hdepth⟩
  · rintro ⟨henc, hdistinct, hdepth⟩
    refine ⟨Value.encodable_sorted.mpr henc, Value.distinctKeys_sorted.mpr hdistinct, ?_⟩
    rw [Value.depth_sorted]
    exact hdepth

/-! ## What is read fits -/

theorem Simple.fits {d : Nat} {s : Bytes} {v : Value} (hd : d ≤ MAX_NESTING_DEPTH)
    (h : Simple s v) : Fits d v := by
  refine ⟨⟨h.inRange, ?_⟩, ?_, ?_⟩
  · cases h <;> simp [Value.Sized, LenOk]
  · cases h <;> simp [Value.DistinctKeys, KeysOk]
  · cases h <;> simpa [Value.depth] using hd

theorem Scalar.fits {d : Nat} {s : Bytes} {v : Value} (hd : d ≤ MAX_NESTING_DEPTH)
    (h : Scalar s v) : Fits d v := by
  refine ⟨⟨h.inRange, ?_⟩, ?_, ?_⟩
  · cases h with
    | uint | nint => simp [Value.Sized, LenOk]
    | bytes h | text h =>
        simpa only [Value.Sized, Value.all_bytes, Value.all_text, LenOk] using h.lt
  · cases h <;> simp [Value.DistinctKeys, KeysOk]
  · cases h <;> simpa [Value.depth] using hd

mutual

/-- Every value the decoder returns fits. -/
theorem Item.fits : ∀ {d : Nat} {s : Bytes} {v : Value}, Item d s v → Fits d v
  | _, _, _, .simple hd h => h.fits hd
  | _, _, _, .scalar hd h => h.fits hd
  | _, _, _, .list hd hhead hitems => fits_list.mpr ⟨hd, hhead.lt, hitems.fits⟩
  | _, _, _, .map hd hhead hentries =>
      fits_map.mpr ⟨hd, (length_dedup_le _).trans_lt hhead.lt, nodup_dedup _,
        forall_dedup hentries.fits⟩

theorem Items.fits : ∀ {d : Nat} {s : Bytes} {items : List Value}, Items d s items →
    ∀ v ∈ items, Fits d v
  | _, _, _, .nil => by simp
  | _, _, _, .cons hitem hitems => List.forall_mem_cons.mpr ⟨hitem.fits, hitems.fits⟩

theorem Entries.fits : ∀ {d : Nat} {s : Bytes} {entries : List (Value × Value)},
    Entries d s entries → ∀ p ∈ entries, Fits d p.1 ∧ Fits d p.2
  | _, _, _, .nil => by simp
  | _, _, _, .cons hkey hvalue hentries =>
      List.forall_mem_cons.mpr ⟨⟨hkey.fits, hvalue.fits⟩, hentries.fits⟩

end

/-! ## What fits is read back -/

theorem items_plain {d : Nat} : ∀ {items : List Value}, (∀ v ∈ items, Item d (plain v) v) →
    Items d (plainItems items) items
  | [], _ => .nil
  | _ :: _, h => by
      obtain ⟨hv, hitems⟩ := List.forall_mem_cons.mp h
      exact .cons hv (items_plain hitems)

theorem entries_plain {d : Nat} : ∀ {entries : List (Value × Value)},
    (∀ p ∈ entries, Item d (plain p.1) p.1 ∧ Item d (plain p.2) p.2) →
      Entries d (plainPairs entries) entries
  | [], _ => .nil
  | (_, _) :: _, h => by
      obtain ⟨hp, hentries⟩ := List.forall_mem_cons.mp h
      exact .cons hp.1 hp.2 (entries_plain hentries)

/-- A value that fits is read back from its bytes, its map entries in the order written. -/
theorem Fits.item_plain : ∀ {v : Value} {d : Nat}, Fits d v → Item d (plain v) v := by
  intro v
  induction v using Value.induct with
  | int n =>
      intro d h
      have hhead := Value.head h.encodable
      rw [plain_eq_head_body]
      refine .scalar h.depth_le ?_
      rcases lt_or_ge n 0 with hneg | hpos
      · have hn : n = -1 - ((-1 - n).toNat : Int) := by omega
        simp only [Value.major, Value.arg, if_neg hneg.not_ge] at hhead
        have hscalar := Scalar.nint hhead
        rw [← hn] at hscalar
        simpa [Value.body] using hscalar
      · have hn : n = (n.toNat : Int) := by omega
        simp only [Value.major, Value.arg, if_pos hpos] at hhead
        have hscalar := Scalar.uint hhead
        rw [← hn] at hscalar
        simpa [Value.body] using hscalar
  | bytes b =>
      intro d h
      have hhead := Value.head h.encodable
      rw [plain_eq_head_body]
      exact .scalar h.depth_le (.bytes hhead)
  | text s =>
      intro d h
      have hhead := Value.head h.encodable
      rw [plain_eq_head_body]
      exact .scalar h.depth_le (.text hhead)
  | null =>
      intro d h
      exact .simple h.depth_le .null
  | float bits =>
      intro d h
      have hval : UInt64.ofNat (ofBe (beBytes 8 bits.toNat)) = bits := by
        rw [ofBe_beBytes bits.toNat_lt, UInt64.ofNat_toNat]
      have hdouble := @Simple.double (beBytes 8 bits.toNat) (length_beBytes _ _)
      rw [hval] at hdouble
      exact .simple h.depth_le hdouble
  | list items ih =>
      intro d h
      have hhead := Value.head h.encodable
      obtain ⟨hd, -, hitems⟩ := fits_list.mp h
      rw [plain_eq_head_body]
      exact .list hd hhead (items_plain fun v hv => ih v hv (hitems v hv))
  | map pairs ih =>
      intro d h
      have hhead := Value.head h.encodable
      obtain ⟨hd, -, hkeys, hpairs⟩ := fits_map.mp h
      rw [plain_eq_head_body]
      have hitem := Item.map hd hhead (entries_plain fun p hp =>
        ⟨(ih p hp).1 (hpairs p hp).1, (ih p hp).2 (hpairs p hp).2⟩)
      rwa [dedup_of_nodup hkeys] at hitem

/-- A value that fits decodes from its canonical bytes, sorted. -/
theorem Fits.decode_canon {v : Value} (h : Fits 0 v) : decode 64 (canon v) = .ok v.sorted := by
  rw [canon_eq_plain_sorted, decode_eq_ok]
  exact (fits_sorted.mpr h).item_plain

/-- Re-encoding what was read gives bytes that read and encode to themselves. -/
theorem Fits.encode_sorted {v : Value} (h : Fits 0 v) : encode v.sorted = .ok (canon v) := by
  rw [← canon_sorted v]
  exact encode_of_inRange (Value.inRange_sorted.mpr h.encodable.ints)

/-- **Round trip over the whole format.**  A value in range, without repeated keys and not
nested too deep comes back from its encoding with its map entries sorted.  And encoding
after decoding is an idempotent normaliser of every accepted byte string. -/
theorem round_trip :
    (∀ v : Value, v.Sized → v.IntsInRange → v.DistinctKeys → v.depth ≤ MAX_NESTING_DEPTH →
      ∃ b, encode v = .ok b ∧ decode 64 b = .ok v.sorted) ∧
    (∀ (b : Bytes) (w : Value), decode 64 b = .ok w →
      ∃ c w', encode w = .ok c ∧ decode 64 c = .ok w' ∧ encode w' = .ok c) := by
  constructor
  · intro v hsized hints hdistinct hdepth
    have hfits : Fits 0 v := ⟨⟨hints, hsized⟩, hdistinct, by rwa [Nat.zero_add]⟩
    exact ⟨canon v, encode_of_inRange hints, hfits.decode_canon⟩
  · intro b w hw
    have hfits : Fits 0 w := (decode_eq_ok.mp hw).fits
    exact ⟨canon w, w.sorted, encode_of_inRange hfits.encodable.ints, hfits.decode_canon,
      hfits.encode_sorted⟩

/-- The two halves on a map out of order and on an integer in a wider form. -/
theorem round_trip_unsorted_and_wide :
    (∃ b, encode (.map [(.int 1, .null), (.int 0, .null)]) = .ok b ∧
      decode 64 b = .ok (.map [(.int 0, .null), (.int 1, .null)])) ∧
    (∃ c w', encode (.list [.int 5]) = .ok c ∧ decode 64 c = .ok w' ∧ encode w' = .ok c) := by
  constructor
  · have h := round_trip.1 (.map [(.int 1, .null), (.int 0, .null)])
      (by simp [Value.Sized, LenOk]) (by simp [Value.IntsInRange, IntOk])
      (by simp [Value.DistinctKeys, KeysOk]; decide) (by decide)
    have hsorted : (Value.map [(.int 1, .null), (.int 0, .null)]).sorted =
        .map [(.int 0, .null), (.int 1, .null)] := by decide
    rwa [hsorted] at h
  · exact round_trip.2 [0x81, 0x18, 0x05] (.list [.int 5]) (by decide)

/-- **What is read back unchanged.**  The bytes of an encodable value read as a value with
the same encoding exactly when no map repeats a key and nothing is nested too deep. -/
theorem reread_canon_iff {v : Value} (hv : v.Encodable) :
    (∃ w, decode 64 (canon v) = .ok w ∧ encode w = .ok (canon v)) ↔
      v.DistinctKeys ∧ v.depth ≤ MAX_NESTING_DEPTH := by
  constructor
  · rintro ⟨w, hw, hencode⟩
    have hfits : Fits 0 w := (decode_eq_ok.mp hw).fits
    have hsorted : v.sorted = w.sorted :=
      (canon_eq_canon_iff hv hfits.encodable).mp (encode_eq_ok.mp hencode).2
    have hfits' : Fits 0 v := fits_sorted.mp (hsorted ▸ fits_sorted.mpr hfits)
    exact ⟨hfits'.distinct, by simpa using hfits'.depth⟩
  · rintro ⟨hdistinct, hdepth⟩
    have hfits : Fits 0 v := ⟨hv, hdistinct, by rwa [Nat.zero_add]⟩
    exact ⟨v.sorted, hfits.decode_canon, hfits.encode_sorted⟩

/-- **The accepted language.**  The decoder accepts exactly the items at depth zero.  The maps of
a decoded value repeat no key, and no accepted byte string starts another one. -/
theorem decode_language (b : Bytes) :
    (∀ v, decode 64 b = .ok v ↔ Item 0 b v) ∧
    (∀ v, decode 64 b = .ok v → v.DistinctKeys) ∧
    ∀ v t, decode 64 b = .ok v → t ≠ [] → ∀ w, decode 64 (b ++ t) ≠ .ok w := by
  refine ⟨fun v => decode_eq_ok, fun v h => (decode_eq_ok.mp h).fits.distinct, ?_⟩
  intro v t h ht w hw
  obtain ⟨-, -, hrest⟩ := (decode_eq_ok.mp h).unique (decode_eq_ok.mp hw)
    (List.append_nil (b ++ t)).symm
  exact ht hrest

/-- A list around an integer in a wider form, and the same with a byte to spare. -/
theorem decode_language_wide : Item 0 [0x81, 0x18, 0x05] (.list [.int 5]) ∧
    decode 64 ([0x81, 0x18, 0x05] ++ [0]) ≠ .ok (.list [.int 5]) := by
  obtain ⟨hitem, -, hextended⟩ := decode_language [0x81, 0x18, 0x05]
  have h : decode 64 [0x81, 0x18, 0x05] = .ok (.list [.int 5]) := by decide
  exact ⟨(hitem _).mp h, hextended _ [0] h (by decide) _⟩

end Macula.Cbor
