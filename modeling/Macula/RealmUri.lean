import Macula.Discovery

/-!
# Discovery URIs and the realm in them

`discovery_uri` writes a realm in 64 hexadecimal digits before the name of the procedure, and
`try_match_list_stations_realm` reads it back.  The reader takes two bytes at a time and hands
them to `u8::from_str_radix`, which takes a plus sign before the digits of a number: a pair may
be a plus sign and one digit.
-/

namespace Macula.Discovery

open Macula.Dht (discoveryUri hexByte hexDigit)

/-! ## Digits -/

/-- A hexadecimal digit, in either case. -/
def IsHexDigit (c : Char) : Prop := ∃ v < 16, c.toUpper = hexDigit v

/-- The byte of an ASCII character. -/
def code (c : Char) : UInt8 := .ofNat c.toNat

theorem hexDigitValue_ascii : ∀ n < 128, ∀ v < 16,
    (Char.ofNat n).toUpper = hexDigit v ↔ hexDigitValue (.ofNat n) = some v := by
  decide +kernel

theorem hexDigit_ascii :
    ∀ v < 16, (hexDigit v).toNat < 128 ∧ (hexDigit v).toUpper = hexDigit v := by
  decide

theorem hexDigitValue_lt {x : UInt8} {v : Nat} (h : hexDigitValue x = some v) :
    x.toNat < 128 ∧ v < 16 := by
  rw [hexDigitValue] at h
  simp only [UInt8.le_iff_toNat_le] at h
  split at h
  · next hx =>
      obtain rfl := Option.some.inj h
      simp at hx
      omega
  · split at h
    · next hx =>
        obtain rfl := Option.some.inj h
        simp at hx
        omega
    · split at h
      · next hx =>
          obtain rfl := Option.some.inj h
          simp at hx
          omega
      · cases h

/-- A character whose upper case is a digit is an ASCII one. -/
theorem toNat_lt_of_toUpper {c : Char} {v : Nat} (hv : v < 16) (h : c.toUpper = hexDigit v) :
    c.toNat < 128 := by
  delta Char.toUpper at h
  split at h
  · next hc =>
      have hle : c.toNat ≤ 122 := UInt32.le_iff_toNat_le.mp hc.2
      omega
  · rw [h]
    exact (hexDigit_ascii v hv).1

/-- The digit of a character and that of its byte. -/
theorem toUpper_eq_hexDigit {c : Char} {v : Nat} :
    (v < 16 ∧ c.toUpper = hexDigit v) ↔ c.toNat < 128 ∧ hexDigitValue (code c) = some v := by
  constructor
  · rintro ⟨hv, h⟩
    have hc := toNat_lt_of_toUpper hv h
    have hvalue := (hexDigitValue_ascii c.toNat hc v hv).mp (by rwa [Char.ofNat_toNat])
    exact ⟨hc, hvalue⟩
  · rintro ⟨hc, h⟩
    obtain ⟨-, hv⟩ := hexDigitValue_lt h
    have hupper := (hexDigitValue_ascii c.toNat hc v hv).mpr h
    rw [Char.ofNat_toNat] at hupper
    exact ⟨hv, hupper⟩

/-- A plus sign is no digit. -/
theorem not_isHexDigit_plus : ¬ IsHexDigit '+' := by
  rintro ⟨v, hv, h⟩
  have hplus : ∀ v < 16, Char.toUpper '+' ≠ hexDigit v := by decide
  exact hplus v hv h

/-! ## Pairs -/

/-- What `u8::from_str_radix` takes for a pair: two digits, or a plus sign and a digit. -/
theorem fromStrRadix16_pair {x y n : UInt8} : fromStrRadix16 [x, y] = some n ↔
    ∃ v, hexDigitValue y = some v ∧ ((x = 0x2B ∧ n = .ofNat v) ∨
      ∃ u, hexDigitValue x = some u ∧ n = .ofNat (16 * u + v)) := by
  have hplus : hexDigitValue 0x2B = none := by decide
  by_cases hx : x = 0x2B
  · subst hx
    have hdigit : fromStrRadix16 [0x2B, y] = (hexDigitValue y).map UInt8.ofNat := by
      cases hy : hexDigitValue y with
      | none => simp [fromStrRadix16, hy]
      | some v =>
          obtain ⟨-, hv⟩ := hexDigitValue_lt hy
          have hlt : v < 256 := by omega
          simp [fromStrRadix16, hy, hlt]
    rw [hdigit, hplus]
    simp [eq_comm]
  · have hfold : fromStrRadix16 [x, y] = ([x, y].foldlM (fun n d => do
        let v ← hexDigitValue d
        if 16 * n + v < 256 then some (16 * n + v) else none) 0).map UInt8.ofNat := by
      dsimp only [fromStrRadix16]
      split
      · next heq =>
          cases heq
          exact absurd rfl hx
      · rw [if_neg (List.cons_ne_nil _ _)]
    have hdigits : fromStrRadix16 [x, y] = (do
        let u ← hexDigitValue x
        let v ← hexDigitValue y
        return .ofNat (16 * u + v)) := by
      rw [hfold]
      cases hu : hexDigitValue x with
      | none => simp [hu]
      | some u =>
          obtain ⟨-, hu'⟩ := hexDigitValue_lt hu
          have hlt : u < 256 := by omega
          cases hv : hexDigitValue y with
          | none => simp [hu, hv, hlt]
          | some v =>
              obtain ⟨-, hv'⟩ := hexDigitValue_lt hv
              have hlt' : 16 * u + v < 256 := by omega
              simp [hu, hv, hlt, hlt']
    rw [hdigits]
    simp only [hx, false_and, false_or]
    cases hexDigitValue x <;> cases hexDigitValue y <;> simp [eq_comm]

/-- The text of the 32 pairs, byte by byte. -/
def flat (pairs : List (UInt8 × UInt8)) : Bytes := pairs.flatMap fun p => [p.1, p.2]

@[simp] theorem flat_cons (p : UInt8 × UInt8) (pairs : List (UInt8 × UInt8)) :
    flat (p :: pairs) = p.1 :: p.2 :: flat pairs := rfl

@[simp] theorem length_flat (pairs : List (UInt8 × UInt8)) :
    (flat pairs).length = 2 * pairs.length := by
  induction pairs with
  | nil => rfl
  | cons p pairs ih => simp [ih, Nat.mul_add]

/-- A pair and the number it is read as. -/
def IsNumber (p : UInt8 × UInt8) (n : UInt8) : Prop := fromStrRadix16 [p.1, p.2] = some n

theorem IsNumber.ascii {p : UInt8 × UInt8} {n : UInt8} (h : IsNumber p n) :
    p.1.toNat < 128 ∧ p.2.toNat < 128 := by
  obtain ⟨v, hv, ⟨hplus, -⟩ | ⟨u, hu, -⟩⟩ := fromStrRadix16_pair.mp h
  · rw [hplus]
    exact ⟨by decide, (hexDigitValue_lt hv).1⟩
  · exact ⟨(hexDigitValue_lt hu).1, (hexDigitValue_lt hv).1⟩

theorem ascii_of_isNumber {pairs : List (UInt8 × UInt8)} {ns : Bytes}
    (h : List.Forall₂ IsNumber pairs ns) : ∀ x ∈ flat pairs, x.toNat < 128 := by
  induction h with
  | nil => simp [flat]
  | cons hp _ ih =>
      obtain ⟨hfst, hsnd⟩ := hp.ascii
      simpa using ⟨hfst, hsnd, ih⟩

/-- What `hex_decode` reads is made of pairs that are numbers. -/
theorem pairs_of_hexPairs {ε : Type} {b : Bytes} : ∀ {n i : Nat} {ns : Bytes},
    i + 2 * n ≤ b.length → (hexPairs b n i : Outcome ε (Option Bytes)) = .ok (some ns) →
      ∃ pairs, seg b i (i + 2 * n) = flat pairs ∧ pairs.length = n ∧
        List.Forall₂ IsNumber pairs ns := by
  intro n
  induction n with
  | zero =>
      intro i ns _ h
      obtain rfl := Option.some.inj (Outcome.ok.inj h)
      exact ⟨[], by simp [flat], rfl, .nil⟩
  | succ n ih =>
      intro i ns hlen h
      rw [hexPairs] at h
      obtain ⟨pair, hpair, h⟩ := Outcome.bind_eq_ok.mp h
      have hseg : pair = [b[i], b[i + 1]] := by
        rcases strSlice_pair (ε := ε) (b := b) (i := i) (by omega) with ⟨-, hslice⟩ | ⟨-, hslice⟩
        · rw [hslice] at hpair
          cases hpair
        · rw [hslice] at hpair
          rw [← Outcome.ok.inj hpair]
          exact Cbor.seg_two (by omega)
      subst hseg
      cases hx : fromStrRadix16 [b[i], b[i + 1]] with
      | none =>
          rw [hx] at h
          cases h
      | some x =>
          rw [hx] at h
          obtain ⟨rest, hrest, h⟩ := Outcome.bind_eq_ok.mp h
          obtain ⟨ms, rfl, rfl⟩ := Option.map_eq_some_iff.mp (Outcome.ok.inj h)
          obtain ⟨pairs, hpairs, hlength, hnumbers⟩ := ih (by omega) hrest
          refine ⟨(b[i], b[i + 1]) :: pairs, ?_, by rw [List.length_cons, hlength],
            .cons hx hnumbers⟩
          have hend : i + 2 * (n + 1) = i + 2 + 2 * n := by omega
          rw [flat_cons, ← hpairs, hend, seg_cons (by omega) (by omega),
            seg_cons (by omega) (by omega)]

/-- And pairs that are numbers are read. -/
theorem hexPairs_of_pairs {ε : Type} {b : Bytes} (hascii : ∀ x ∈ b, x.toNat < 128) :
    ∀ {pairs : List (UInt8 × UInt8)} {ns : Bytes} {i : Nat}, i + 2 * pairs.length ≤ b.length →
      seg b i (i + 2 * pairs.length) = flat pairs → List.Forall₂ IsNumber pairs ns →
        (hexPairs b pairs.length i : Outcome ε (Option Bytes)) = .ok (some ns) := by
  intro pairs
  induction pairs with
  | nil =>
      intro _ i _ _ h
      cases h
      rfl
  | cons p pairs ih =>
      intro ns i hlen hseg h
      cases h with
      | cons hp hnumbers =>
        rename_i n ns
        rw [List.length_cons] at hlen hseg
        have hend : i + 2 * (pairs.length + 1) = i + 2 + 2 * pairs.length := by omega
        rw [flat_cons, hend, seg_cons (by omega) (by omega), seg_cons (by omega) (by omega)] at hseg
        obtain ⟨hfst, hrest⟩ := List.cons.inj hseg
        obtain ⟨hsnd, hrest⟩ := List.cons.inj hrest
        have hboundary : ∀ j, j ≤ b.length → Utf8.isCharBoundary b j = true := by
          intro j hj
          rcases hj.lt_or_eq with hlt | rfl
          · have hx := hascii b[j] (List.getElem_mem hlt)
            have hsmall : b[j] < 0x80 := UInt8.lt_iff_toNat_lt.mpr hx
            simp [Utf8.isCharBoundary, hlt, hsmall]
          · simp [Utf8.isCharBoundary]
        have hslice : (Utf8.strSlice b i (i + 2) : Outcome ε Bytes) = .ok [p.1, p.2] := by
          rw [Utf8.strSlice, if_pos ⟨by omega, by omega, hboundary _ (by omega),
            hboundary _ (by omega)⟩, Cbor.seg_two (by omega), hfst, hsnd]
        rw [List.length_cons, hexPairs, hslice, Outcome.ok_bind, hp,
          ih (by omega) hrest hnumbers]
        rfl

/-! ## The text of a URI -/

/-- The characters of pairs, one after the other. -/
def chars (pairs : List (Char × Char)) : List Char := pairs.flatMap fun p => [p.1, p.2]

@[simp] theorem chars_cons (p : Char × Char) (pairs : List (Char × Char)) :
    chars (p :: pairs) = p.1 :: p.2 :: chars pairs := rfl

@[simp] theorem length_chars (pairs : List (Char × Char)) :
    (chars pairs).length = 2 * pairs.length := by
  induction pairs with
  | nil => rfl
  | cons p pairs ih => simp [ih, Nat.mul_add]

/-- A pair of characters and the byte it is read as. -/
def ReadsAs (p : Char × Char) (b : UInt8) : Prop :=
  (p.1.toNat < 128 ∧ p.2.toNat < 128) ∧ IsNumber (code p.1, code p.2) b

/-- The bytes of two characters. -/
def codes (p : Char × Char) : UInt8 × UInt8 := (code p.1, code p.2)

/-- The characters of two bytes. -/
def fromCodes (p : UInt8 × UInt8) : Char × Char := (.ofNat p.1.toNat, .ofNat p.2.toNat)

theorem flat_codes (pairs : List (Char × Char)) :
    (chars pairs).map code = flat (pairs.map codes) := by
  induction pairs with
  | nil => rfl
  | cons p pairs ih => simp [codes, ih]

theorem chars_fromCodes (pairs : List (UInt8 × UInt8)) :
    (flat pairs).map (fun x => Char.ofNat x.toNat) = chars (pairs.map fromCodes) := by
  induction pairs with
  | nil => rfl
  | cons p pairs ih => simp [fromCodes, ih]

theorem code_ofNat {x : UInt8} (h : x.toNat < 128) : code (Char.ofNat x.toNat) = x := by
  rw [code, Utf8.toNat_ofNat_of_ascii h, UInt8.ofNat_toNat]

theorem IsNumber.readsAs {p : UInt8 × UInt8} {b : UInt8} (h : IsNumber p b) :
    ReadsAs (fromCodes p) b := by
  obtain ⟨hfst, hsnd⟩ := h.ascii
  refine ⟨⟨?_, ?_⟩, ?_⟩
  · rwa [fromCodes, Utf8.toNat_ofNat_of_ascii hfst]
  · rwa [fromCodes, Utf8.toNat_ofNat_of_ascii hsnd]
  · rw [fromCodes, code_ofNat hfst, code_ofNat hsnd]
    exact h

theorem ascii_of_readsAs {pairs : List (Char × Char)} {bs : Bytes}
    (h : List.Forall₂ ReadsAs pairs bs) : ∀ c ∈ chars pairs, c.toNat < 128 := by
  induction h with
  | nil => simp [chars]
  | cons hp _ ih => simpa using ⟨hp.1.1, hp.1.2, ih⟩

theorem code_eq_plus {c : Char} (hc : c.toNat < 128) : code c = 0x2B ↔ c = '+' := by
  constructor
  · intro h
    have hnat := congrArg UInt8.toNat h
    have hlt : c.toNat < 256 := by omega
    rw [code, UInt8.toNat_ofNat_of_lt' hlt] at hnat
    rw [← Char.ofNat_toNat c, hnat]
    rfl
  · rintro rfl
    rfl

/-- **A pair** is two digits or a plus sign and a digit. -/
theorem readsAs_iff {p : Char × Char} {b : UInt8} : ReadsAs p b ↔
    ∃ v < 16, p.2.toUpper = hexDigit v ∧ ((p.1 = '+' ∧ b = .ofNat v) ∨
      ∃ u < 16, p.1.toUpper = hexDigit u ∧ b = .ofNat (16 * u + v)) := by
  constructor
  · rintro ⟨⟨hfst, hsnd⟩, hnumber⟩
    obtain ⟨v, hv, hcases⟩ := fromStrRadix16_pair.mp hnumber
    obtain ⟨hv', hupper⟩ := toUpper_eq_hexDigit.mpr ⟨hsnd, hv⟩
    refine ⟨v, hv', hupper, ?_⟩
    rcases hcases with ⟨hplus, hb⟩ | ⟨u, hu, hb⟩
    · exact .inl ⟨(code_eq_plus hfst).mp hplus, hb⟩
    · obtain ⟨hu', hupper⟩ := toUpper_eq_hexDigit.mpr ⟨hfst, hu⟩
      exact .inr ⟨u, hu', hupper, hb⟩
  · rintro ⟨v, hv, hupper, hcases⟩
    obtain ⟨hsnd, hvalue⟩ := toUpper_eq_hexDigit.mp ⟨hv, hupper⟩
    rcases hcases with ⟨hplus, hb⟩ | ⟨u, hu, hupper, hb⟩
    · refine ⟨⟨by rw [hplus]; decide, hsnd⟩, fromStrRadix16_pair.mpr ⟨v, hvalue, .inl ⟨?_, hb⟩⟩⟩
      rw [hplus]
      rfl
    · obtain ⟨hfst, hvalue'⟩ := toUpper_eq_hexDigit.mp ⟨hu, hupper⟩
      exact ⟨⟨hfst, hsnd⟩, fromStrRadix16_pair.mpr ⟨v, hvalue, .inr ⟨u, hvalue', hb⟩⟩⟩

theorem stripSuffix_eq_some {s suffix t : String} :
    stripSuffix s suffix = some t ↔ s.toList = t.toList ++ suffix.toList := by
  rw [stripSuffix]
  constructor
  · intro h
    split at h
    · next hsuffix =>
        obtain ⟨l, hl⟩ := hsuffix
        obtain rfl := Option.some.inj h
        rw [← hl, String.toList_ofList, List.length_append, Nat.add_sub_cancel, List.take_left]
    · cases h
  · intro h
    rw [if_pos ⟨t.toList, h.symm⟩, h, List.length_append, Nat.add_sub_cancel, List.take_left,
      String.ofList_toList]

/-- **What is matched.**  The realm is read from 32 pairs before the name of the procedure. -/
theorem tryMatchListStationsRealm_eq_some {ε : Type} {uri : String} {realm : ByteArr 32} :
    (tryMatchListStationsRealm uri : Outcome ε (Option (ByteArr 32))) = .ok (some realm) ↔
      ∃ pairs, uri.toList = chars pairs ++ '/' :: LIST_STATIONS_PROCEDURE.toList ∧
        List.Forall₂ ReadsAs pairs realm.1 := by
  have hsuffix : ("/" ++ LIST_STATIONS_PROCEDURE).toList =
      '/' :: LIST_STATIONS_PROCEDURE.toList := by
    rw [String.toList_append]
    rfl
  rw [← hsuffix, tryMatchListStationsRealm]
  constructor
  · intro h
    split at h
    · cases h
    · next hexRealm hstrip =>
        split at h
        · cases h
        · next hlen =>
            rw [not_not] at hlen
            obtain ⟨found, hfound, h⟩ := Outcome.bind_eq_ok.mp h
            obtain ⟨ns, rfl, harr⟩ := Option.bind_eq_some_iff.mp (Outcome.ok.inj h)
            obtain rfl := toArr_eq_some.mp harr
            have hpairs : (hexPairs (Utf8.bytes hexRealm) 32 0 : Outcome ε (Option Bytes)) =
                .ok (some realm.1) := by
              simpa [hexDecode, hlen] using hfound
            obtain ⟨pairs, hseg, hlength, hnumbers⟩ := pairs_of_hexPairs (by omega) hpairs
            have hbytes : Utf8.bytes hexRealm = flat pairs :=
              calc Utf8.bytes hexRealm
                  = seg (Utf8.bytes hexRealm) 0 (Utf8.bytes hexRealm).length := (seg_all _).symm
                _ = seg (Utf8.bytes hexRealm) 0 64 := by rw [hlen]
                _ = flat pairs := hseg
            have htext := Utf8.toList_of_ascii (hbytes ▸ ascii_of_isNumber hnumbers)
            refine ⟨pairs.map fromCodes, ?_, ?_⟩
            · rw [stripSuffix_eq_some.mp hstrip, htext, hbytes, chars_fromCodes]
            · rw [List.forall₂_map_left_iff]
              exact hnumbers.imp fun _ _ => IsNumber.readsAs
  · rintro ⟨pairs, huri, hreads⟩
    have hascii : ∀ c ∈ chars pairs, c.toNat < 128 := ascii_of_readsAs hreads
    have hstrip : stripSuffix uri ("/" ++ LIST_STATIONS_PROCEDURE) = some (.ofList (chars pairs)) :=
      stripSuffix_eq_some.mpr (by rw [huri, hsuffix, String.toList_ofList])
    have hbytes : Utf8.bytes (.ofList (chars pairs)) = flat (pairs.map codes) :=
      (Utf8.bytes_ofList_of_ascii hascii).trans (flat_codes pairs)
    have hlength : pairs.length = 32 := hreads.length_eq.trans realm.2
    have hnumbers : List.Forall₂ IsNumber (pairs.map codes) realm.1 :=
      List.forall₂_map_left_iff.mpr (hreads.imp fun _ _ h => h.2)
    have hpairs := @hexPairs_of_pairs ε (flat (pairs.map codes)) (ascii_of_isNumber hnumbers) _ _ 0
      (by simp) (by rw [← length_flat, Nat.zero_add, seg_all]) hnumbers
    rw [List.length_map, hlength] at hpairs
    simp [hstrip, hexDecode, hbytes, hlength, hpairs]

/-! ## Written and read -/

/-- The pair of digits of a byte. -/
def digits (b : UInt8) : Char × Char := (hexDigit (b.toNat / 16), hexDigit (b.toNat % 16))

theorem toList_discoveryUri (realm : ByteArr 32) (procedure : String) :
    (discoveryUri realm procedure).toList =
      chars (realm.1.map digits) ++ '/' :: procedure.toList := by
  have hchars : realm.1.flatMap hexByte = chars (realm.1.map digits) := by
    rw [chars, List.flatMap_map]
    rfl
  rw [discoveryUri, String.toList_ofList, hchars]

theorem readsAs_digits (b : UInt8) : ReadsAs (digits b) b := by
  have hb := b.toNat_lt
  have hhigh : b.toNat / 16 < 16 := by omega
  have hlow : b.toNat % 16 < 16 := by omega
  refine readsAs_iff.mpr ⟨_, hlow, (hexDigit_ascii _ hlow).2, .inr ⟨_, hhigh, ?_, ?_⟩⟩
  · exact (hexDigit_ascii _ hhigh).2
  · rw [Nat.div_add_mod, UInt8.ofNat_toNat]

/-- The realm is read back. -/
theorem tryMatch_discoveryUri {ε : Type} (realm : ByteArr 32) :
    (tryMatchListStationsRealm (discoveryUri realm LIST_STATIONS_PROCEDURE) :
      Outcome ε (Option (ByteArr 32))) = .ok (some realm) := by
  refine tryMatchListStationsRealm_eq_some.mpr ⟨_, toList_discoveryUri realm _, ?_⟩
  rw [List.forall₂_map_left_iff]
  exact List.forall₂_same.mpr fun b _ => readsAs_digits b

theorem discoveryUri_inj {realm realm' : ByteArr 32} {procedure procedure' : String}
    (h : discoveryUri realm procedure = discoveryUri realm' procedure') :
    realm = realm' ∧ procedure = procedure' := by
  have hlist := congrArg String.toList h
  rw [toList_discoveryUri, toList_discoveryUri] at hlist
  have hlen : (chars (realm.1.map digits)).length = (chars (realm'.1.map digits)).length := by
    simp [realm.2, realm'.2]
  obtain ⟨hrealm, hprocedure⟩ := List.append_inj hlist hlen
  constructor
  · have huri : discoveryUri realm LIST_STATIONS_PROCEDURE =
        discoveryUri realm' LIST_STATIONS_PROCEDURE := by
      apply String.toList_inj.mp
      rw [toList_discoveryUri, toList_discoveryUri, hrealm]
    have hread := @tryMatch_discoveryUri Empty realm
    rw [huri, tryMatch_discoveryUri] at hread
    exact (Option.some.inj (Outcome.ok.inj hread)).symm
  · exact String.toList_inj.mp (List.cons.inj hprocedure).2

/-! ## Up to letter case -/

/-- The same text but for the case of the letters among the first 64 characters. -/
def SameButCase (s t : String) : Prop :=
  (s.toList.take 64).map Char.toUpper = (t.toList.take 64).map Char.toUpper ∧
    s.toList.drop 64 = t.toList.drop 64

/-- The realm of the URI is written in 32 pairs, of two digits or of a plus sign and a digit,
and there is a plus sign among them. -/
def HasPlus (uri : String) : Prop :=
  ∃ pairs : List (Char × Char), pairs.length = 32 ∧
    uri.toList = chars pairs ++ '/' :: LIST_STATIONS_PROCEDURE.toList ∧
    (∀ p ∈ pairs, (p.1 = '+' ∨ IsHexDigit p.1) ∧ IsHexDigit p.2) ∧ ∃ p ∈ pairs, p.1 = '+'

theorem ReadsAs.isHexDigit {p : Char × Char} {b : UInt8} (h : ReadsAs p b) :
    (p.1 = '+' ∨ IsHexDigit p.1) ∧ IsHexDigit p.2 := by
  obtain ⟨v, hv, hsnd, ⟨hplus, -⟩ | ⟨u, hu, hfst, -⟩⟩ := readsAs_iff.mp h
  · exact ⟨.inl hplus, v, hv, hsnd⟩
  · exact ⟨.inr ⟨u, hu, hfst⟩, v, hv, hsnd⟩

theorem isHexDigit_of_readsAs {pairs : List (Char × Char)} {bs : Bytes}
    (h : List.Forall₂ ReadsAs pairs bs) :
    ∀ p ∈ pairs, (p.1 = '+' ∨ IsHexDigit p.1) ∧ IsHexDigit p.2 := by
  induction h with
  | nil => simp
  | cons hp _ ih => exact List.forall_mem_cons.mpr ⟨hp.isHexDigit, ih⟩

theorem exists_readsAs {p : Char × Char} (h : (p.1 = '+' ∨ IsHexDigit p.1) ∧ IsHexDigit p.2) :
    ∃ b, ReadsAs p b := by
  obtain ⟨hfst, v, hv, hsnd⟩ := h
  rcases hfst with hplus | ⟨u, hu, hfst⟩
  · exact ⟨_, readsAs_iff.mpr ⟨v, hv, hsnd, .inl ⟨hplus, rfl⟩⟩⟩
  · exact ⟨_, readsAs_iff.mpr ⟨v, hv, hsnd, .inr ⟨u, hu, hfst, rfl⟩⟩⟩

theorem exists_forall₂_readsAs {pairs : List (Char × Char)}
    (h : ∀ p ∈ pairs, (p.1 = '+' ∨ IsHexDigit p.1) ∧ IsHexDigit p.2) :
    ∃ bs, List.Forall₂ ReadsAs pairs bs := by
  induction pairs with
  | nil => exact ⟨[], .nil⟩
  | cons p pairs ih =>
      obtain ⟨hp, hpairs⟩ := List.forall_mem_cons.mp h
      obtain ⟨b, hb⟩ := exists_readsAs hp
      obtain ⟨bs, hbs⟩ := ih hpairs
      exact ⟨b :: bs, .cons hb hbs⟩

/-- Two digits are those of the byte they are read as, in upper case. -/
theorem ReadsAs.toUpper {p : Char × Char} {b : UInt8} (h : ReadsAs p b) (hp : p.1 ≠ '+') :
    p.1.toUpper = (digits b).1 ∧ p.2.toUpper = (digits b).2 := by
  obtain ⟨v, hv, hsnd, ⟨hplus, -⟩ | ⟨u, hu, hfst, rfl⟩⟩ := readsAs_iff.mp h
  · exact absurd hplus hp
  · have hlt : 16 * u + v < 256 := by omega
    have hhigh : (16 * u + v) / 16 = u := by omega
    have hlow : (16 * u + v) % 16 = v := by omega
    rw [digits, UInt8.toNat_ofNat_of_lt' hlt, hhigh, hlow]
    exact ⟨hfst, hsnd⟩

theorem map_toUpper_of_readsAs {pairs : List (Char × Char)} {bs : Bytes}
    (h : List.Forall₂ ReadsAs pairs bs) (hplus : ∀ p ∈ pairs, p.1 ≠ '+') :
    (chars pairs).map Char.toUpper = chars (bs.map digits) := by
  induction h with
  | nil => rfl
  | cons hp _ ih =>
      obtain ⟨hfst, hpairs⟩ := List.forall_mem_cons.mp hplus
      obtain ⟨hupper, hupper'⟩ := hp.toUpper hfst
      simp [hupper, hupper', ih hpairs]

theorem digits_ne_plus (b : UInt8) : (digits b).1 ≠ '+' := by
  have hplus : ∀ v < 16, hexDigit v ≠ '+' := by decide
  have hb := b.toNat_lt
  exact hplus _ (by omega)

theorem map_toUpper_digits (bs : Bytes) :
    (chars (bs.map digits)).map Char.toUpper = chars (bs.map digits) := by
  apply map_toUpper_of_readsAs
  · rw [List.forall₂_map_left_iff]
    exact List.forall₂_same.mpr fun b _ => readsAs_digits b
  · intro p hp
    obtain ⟨b, -, rfl⟩ := List.mem_map.mp hp
    exact digits_ne_plus b

/-- What it is for a text to have the digits of a realm, up to case. -/
theorem sameButCase_iff {uri : String} {pairs : List (Char × Char)} {realm : ByteArr 32}
    (huri : uri.toList = chars pairs ++ '/' :: LIST_STATIONS_PROCEDURE.toList)
    (hlength : pairs.length = 32) :
    SameButCase uri (discoveryUri realm LIST_STATIONS_PROCEDURE) ↔
      (chars pairs).map Char.toUpper = chars (realm.1.map digits) := by
  have hchars : (chars pairs).length = 64 := by rw [length_chars, hlength]
  have hdigits : (chars (realm.1.map digits)).length = 64 := by
    rw [length_chars, List.length_map, realm.2]
  rw [SameButCase, huri, toList_discoveryUri, List.take_left' hchars, List.take_left' hdigits,
    List.drop_left' hchars, List.drop_left' hdigits, map_toUpper_digits]
  exact and_iff_left rfl

/-- A plus sign is taken for the first digit of a pair. -/
theorem not_sameButCase_of_hasPlus {ε : Type} {uri : String} (h : HasPlus uri) :
    ¬ ∀ realm, (tryMatchListStationsRealm uri : Outcome ε (Option (ByteArr 32))) =
      .ok (some realm) → SameButCase uri (discoveryUri realm LIST_STATIONS_PROCEDURE) := by
  intro hall
  obtain ⟨pairs, hlength, huri, hdigits, p, hp, hplus⟩ := h
  obtain ⟨bs, hreads⟩ := exists_forall₂_readsAs hdigits
  have hbs : bs.length = 32 := hreads.length_eq.symm.trans hlength
  have hmatch := (@tryMatchListStationsRealm_eq_some ε uri ⟨bs, hbs⟩).mpr ⟨pairs, huri, hreads⟩
  have hupper := (sameButCase_iff huri hlength).mp (hall _ hmatch)
  have hmem : '+' ∈ chars (bs.map digits) := by
    rw [← hupper]
    refine List.mem_map.mpr ⟨'+', ?_, rfl⟩
    exact List.mem_flatMap.mpr ⟨p, hp, by simp [hplus]⟩
  obtain ⟨q, hq, hmem⟩ := List.mem_flatMap.mp hmem
  obtain ⟨b, -, rfl⟩ := List.mem_map.mp hq
  obtain ⟨hhex, hhex'⟩ := (readsAs_digits b).isHexDigit
  rw [or_iff_right (digits_ne_plus b)] at hhex
  simp only [List.mem_cons, List.not_mem_nil, or_false] at hmem
  rcases hmem with heq | heq
  · rw [← heq] at hhex
    exact not_isHexDigit_plus hhex
  · rw [← heq] at hhex'
    exact not_isHexDigit_plus hhex'

/-- **Discovery URIs** determine the realm and the procedure; the realm is read back from the
URI of `list_stations`; and what is read is written so, up to letter case, but for a plus sign in
the place of a digit. -/
theorem discoveryUri_exact {ε : Type} :
    (∀ realm procedure realm' procedure',
      discoveryUri realm procedure = discoveryUri realm' procedure' →
        realm = realm' ∧ procedure = procedure') ∧
    (∀ realm, (tryMatchListStationsRealm (discoveryUri realm LIST_STATIONS_PROCEDURE) :
      Outcome ε (Option (ByteArr 32))) = .ok (some realm)) ∧
    ∀ uri, (∀ realm, (tryMatchListStationsRealm uri : Outcome ε (Option (ByteArr 32))) =
      .ok (some realm) → SameButCase uri (discoveryUri realm LIST_STATIONS_PROCEDURE)) ↔
        ¬ HasPlus uri := by
  refine ⟨fun _ _ _ _ => discoveryUri_inj, tryMatch_discoveryUri, fun uri => ?_⟩
  constructor
  · intro hall hplus
    exact not_sameButCase_of_hasPlus hplus hall
  · intro hnot realm hmatch
    obtain ⟨pairs, huri, hreads⟩ := tryMatchListStationsRealm_eq_some.mp hmatch
    have hlength : pairs.length = 32 := hreads.length_eq.trans realm.2
    refine (sameButCase_iff huri hlength).mpr (map_toUpper_of_readsAs hreads ?_)
    intro p hp hplus
    exact hnot ⟨pairs, hlength, huri, isHexDigit_of_readsAs hreads, p, hp, hplus⟩

/-- The text of a URI whose first pair is a plus sign and a digit. -/
def signedUri : String :=
  .ofList (chars (('+', '5') :: List.replicate 31 ('0', '0')) ++
    '/' :: LIST_STATIONS_PROCEDURE.toList)

/-- It is read as a realm whose URI it is not. -/
theorem not_sameButCase_signedUri :
    ¬ ∀ realm, (tryMatchListStationsRealm signedUri : Outcome Empty (Option (ByteArr 32))) =
      .ok (some realm) → SameButCase signedUri (discoveryUri realm LIST_STATIONS_PROCEDURE) := by
  apply not_sameButCase_of_hasPlus
  refine ⟨('+', '5') :: List.replicate 31 ('0', '0'), rfl, String.toList_ofList, ?_, _,
    List.mem_cons_self, rfl⟩
  rw [List.forall_mem_cons]
  refine ⟨⟨.inl rfl, 5, by decide, by decide⟩, ?_⟩
  intro p hp
  obtain rfl := List.eq_of_mem_replicate hp
  exact ⟨.inr ⟨0, by decide, by decide⟩, 0, by decide, by decide⟩

end Macula.Discovery
