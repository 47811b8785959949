import Mathlib.Data.List.Basic
import Mathlib.Tactic.Ring
import Macula.Lib.Outcome

/-!
# Byte strings

A byte string (`Vec<u8>`, `&[u8]`) is a list of bytes.  This module has the three
things the modelled code does with one: big-endian integers of a fixed width
(`to_be_bytes`, `from_be_bytes`), bounds-checked indexing and slicing, which panic
outside the string, and conversion to and from text.

*Integers.*  `beBytes k n` is the `k`-byte big-endian form of `n`, truncated as an
`as` cast truncates, and `ofBe` reads one back.  They invert each other on numbers
below `256 ^ k` and on strings of length `k`.

*Segments.*  `seg buf a b` is the part of `buf` between two positions.  Two adjacent
segments join to one (`seg_append_seg`), which is the law a proof about a decoder
over positions uses at every step.

*Text.*  `Utf8.bytes` and `Utf8.decode` are Lean's own encoder and validating decoder,
moved to lists; `Utf8.decode_eq_some` says that they invert each other.
-/

/-- A byte string. -/
abbrev Bytes := List UInt8

/-- A byte string of a fixed length, `[u8; n]`. -/
abbrev ByteArr (n : Nat) := { b : Bytes // b.length = n }

/-- `slice.try_into()` into an array of length `n`. -/
def toArr (n : Nat) (b : Bytes) : Option (ByteArr n) :=
  if h : b.length = n then some ⟨b, h⟩ else none

@[simp] theorem toArr_eq_some {n : Nat} {b : Bytes} {a : ByteArr n} :
    toArr n b = some a ↔ b = a.1 := by
  obtain ⟨a, ha⟩ := a
  unfold toArr
  split
  · simp [Subtype.ext_iff]
  · rename_i h
    simp only [reduceCtorEq, false_iff]
    rintro rfl
    exact h ha

@[simp] theorem toArr_val {n : Nat} (a : ByteArr n) : toArr n a.1 = some a :=
  toArr_eq_some.mpr rfl

/-- `[x; n]`. -/
abbrev ByteArr.fill {n : Nat} (x : UInt8) : ByteArr n := ⟨.replicate n x, List.length_replicate⟩

/-! ## Big-endian integers -/

/-- The `k`-byte big-endian form of `n`. -/
def beBytes : Nat → Nat → Bytes
  | 0, _ => []
  | k + 1, n => UInt8.ofNat (n / 256 ^ k) :: beBytes k n

/-- The number a big-endian byte string denotes. -/
def ofBe (b : Bytes) : Nat := b.foldl (fun n x => n * 256 + x.toNat) 0

@[simp] theorem length_beBytes : ∀ (k n : Nat), (beBytes k n).length = k := by
  intro k n
  induction k with
  | zero => rfl
  | succ k ih => simp [beBytes, ih]

theorem foldl_be (b : Bytes) (n : Nat) :
    b.foldl (fun n x => n * 256 + x.toNat) n = n * 256 ^ b.length + ofBe b := by
  induction b generalizing n with
  | nil => simp [ofBe]
  | cons x b ih =>
      have h1 := ih (n * 256 + x.toNat)
      have h2 := ih (0 * 256 + x.toNat)
      simp only [List.foldl_cons, List.length_cons, ofBe, pow_succ] at h1 h2 ⊢
      rw [h1, h2]
      ring

@[simp] theorem ofBe_nil : ofBe [] = 0 := rfl

theorem ofBe_cons (x : UInt8) (b : Bytes) : ofBe (x :: b) = x.toNat * 256 ^ b.length + ofBe b := by
  have h := foldl_be b (0 * 256 + x.toNat)
  simpa [ofBe] using h

theorem ofBe_lt (b : Bytes) : ofBe b < 256 ^ b.length := by
  induction b with
  | nil => simp
  | cons x b ih =>
      have hx : x.toNat < 256 := x.toNat_lt
      have hp : 0 < 256 ^ b.length := Nat.pow_pos (by omega)
      have hm : (x.toNat + 1) * 256 ^ b.length ≤ 256 * 256 ^ b.length :=
        Nat.mul_le_mul_right _ hx
      rw [ofBe_cons, List.length_cons, pow_succ, Nat.mul_comm _ 256]
      rw [Nat.add_mul, Nat.one_mul] at hm
      omega

/-- Reading back a truncated integer gives its low bytes. -/
theorem ofBe_beBytes_mod : ∀ (k n : Nat), ofBe (beBytes k n) = n % 256 ^ k := by
  intro k n
  induction k with
  | zero => simp [beBytes, Nat.mod_one]
  | succ k ih =>
      have hx : (UInt8.ofNat (n / 256 ^ k)).toNat = n / 256 ^ k % 256 := by simp
      rw [beBytes, ofBe_cons, length_beBytes, ih, hx, pow_succ, Nat.mod_mul,
        Nat.mul_comm (256 ^ k), Nat.add_comm]

theorem ofBe_beBytes {k n : Nat} (h : n < 256 ^ k) : ofBe (beBytes k n) = n := by
  rw [ofBe_beBytes_mod, Nat.mod_eq_of_lt h]

/-- Only the low `k` bytes of a number show in its `k`-byte form. -/
theorem beBytes_mod : ∀ (k n : Nat), beBytes k (n % 256 ^ k) = beBytes k n := by
  intro k
  induction k with
  | zero => exact fun _ => rfl
  | succ k ih =>
      intro n
      have hd : 256 ^ k ∣ 256 ^ (k + 1) := ⟨256, pow_succ 256 k⟩
      have hhead : n % 256 ^ (k + 1) / 256 ^ k = n / 256 ^ k % 256 := by
        rw [pow_succ, Nat.mod_mul_right_div_self]
      have htail : beBytes k (n % 256 ^ (k + 1)) = beBytes k n := by
        rw [← ih (n % 256 ^ (k + 1)), Nat.mod_mod_of_dvd _ hd, ih n]
      rw [beBytes, beBytes, hhead, htail]
      congr 1
      apply UInt8.toNat_inj.mp
      simp

theorem beBytes_ofBe : ∀ (b : Bytes), beBytes b.length (ofBe b) = b := by
  intro b
  induction b with
  | nil => rfl
  | cons x b ih =>
      have hp : 0 < 256 ^ b.length := Nat.pow_pos (by omega)
      have hhead : ofBe (x :: b) / 256 ^ b.length = x.toNat := by
        rw [ofBe_cons, Nat.mul_comm, Nat.mul_add_div hp, Nat.div_eq_of_lt (ofBe_lt b),
          Nat.add_zero]
      have htail : ofBe (x :: b) % 256 ^ b.length = ofBe b := by
        rw [ofBe_cons, Nat.mul_comm, Nat.mul_add_mod, Nat.mod_eq_of_lt (ofBe_lt b)]
      rw [List.length_cons, beBytes, hhead, UInt8.ofNat_toNat, ← beBytes_mod, htail, ih]

theorem beBytes_ofBe_eq {k : Nat} {b : Bytes} (h : b.length = k) : beBytes k (ofBe b) = b := by
  rw [← h, beBytes_ofBe]

/-- Below the bound, equal big-endian forms come from equal numbers. -/
theorem beBytes_inj {k m n : Nat} (hm : m < 256 ^ k) (hn : n < 256 ^ k)
    (h : beBytes k m = beBytes k n) : m = n := by
  rw [← ofBe_beBytes hm, ← ofBe_beBytes hn, h]

/-! ## Segments -/

/-- The bytes of `buf` from position `a` up to position `b`. -/
def seg (buf : Bytes) (a b : Nat) : Bytes := (buf.drop a).take (b - a)

theorem length_seg {buf : Bytes} {a b : Nat} (h : b ≤ buf.length) :
    (seg buf a b).length = b - a := by
  simp only [seg, List.length_take, List.length_drop]
  omega

@[simp] theorem seg_self (buf : Bytes) (a : Nat) : seg buf a a = [] := by simp [seg]

@[simp] theorem seg_all (buf : Bytes) : seg buf 0 buf.length = buf := by simp [seg]

/-- Adjacent segments join. -/
theorem seg_append_seg {buf : Bytes} {a b c : Nat} (hab : a ≤ b) (hbc : b ≤ c) :
    seg buf a b ++ seg buf b c = seg buf a c := by
  have hb : buf.drop b = (buf.drop a).drop (b - a) := by
    rw [List.drop_drop, Nat.add_sub_cancel' hab]
  have hc : c - a = (b - a) + (c - b) := by omega
  rw [seg, seg, seg, hb, hc, List.take_add]

/-- A segment that is a concatenation splits at the position between the two parts. -/
theorem seg_split {buf s t : Bytes} {a b : Nat} (hab : a ≤ b) (hb : b ≤ buf.length)
    (h : seg buf a b = s ++ t) :
    a + s.length ≤ b ∧ seg buf a (a + s.length) = s ∧ seg buf (a + s.length) b = t := by
  have hlen := congrArg List.length h
  rw [length_seg hb, List.length_append] at hlen
  have hmid : a + s.length ≤ b := by omega
  rw [← seg_append_seg (Nat.le_add_right a s.length) hmid] at h
  have hs : (seg buf a (a + s.length)).length = s.length := by
    rw [length_seg (hmid.trans hb)]
    omega
  exact ⟨hmid, List.append_inj h hs⟩

/-! ## Indexing and slicing -/

/-- `buf[i]`: panics out of bounds. -/
def index {ε : Type} (buf : Bytes) (i : Nat) : Outcome ε UInt8 := .expectSome buf[i]?

/-- `buf[a..b]`: panics unless `a ≤ b ≤ buf.len()`. -/
def slice {ε : Type} (buf : Bytes) (a b : Nat) : Outcome ε Bytes :=
  if a ≤ b ∧ b ≤ buf.length then .ok (seg buf a b) else .panicked

theorem slice_eq_ok {ε : Type} {buf s : Bytes} {a b : Nat} :
    (slice buf a b : Outcome ε Bytes) = .ok s ↔ a ≤ b ∧ b ≤ buf.length ∧ s = seg buf a b := by
  unfold slice
  split <;> grind

theorem slice_of_le {ε : Type} {buf : Bytes} {a b : Nat} (hab : a ≤ b) (hb : b ≤ buf.length) :
    (slice buf a b : Outcome ε Bytes) = .ok (seg buf a b) := by
  simp [slice, hab, hb]

/-- The last bytes of a string. -/
theorem slice_append {ε : Type} (a b : Bytes) {i j : Nat} (hi : a.length = i)
    (hj : (a ++ b).length = j) : (slice (a ++ b) i j : Outcome ε Bytes) = .ok b := by
  subst hi hj
  have hle : a.length ≤ (a ++ b).length := by simp
  rw [slice_of_le hle le_rfl]
  simp [seg]

theorem index_of_lt {ε : Type} {buf : Bytes} {i : Nat} (h : i < buf.length) :
    (index buf i : Outcome ε UInt8) = .ok buf[i] := by
  simp [index, List.getElem?_eq_getElem h, Outcome.expectSome]

theorem seg_succ {buf : Bytes} {i : Nat} (h : i < buf.length) : seg buf i (i + 1) = [buf[i]] := by
  rw [seg, List.drop_eq_getElem_cons h, Nat.add_sub_cancel_left, List.take_succ_cons,
    List.take_zero]

theorem seg_cons {buf : Bytes} {i j : Nat} (h : i < buf.length) (hij : i < j) :
    seg buf i j = buf[i] :: seg buf (i + 1) j := by
  rw [← seg_append_seg (Nat.le_succ i) hij, seg_succ h]
  rfl

/-! ## Text -/

namespace Utf8

/-- `text.as_bytes()`. -/
def bytes (s : String) : Bytes := s.toByteArray.data.toList

/-- `String::from_utf8(bytes)`: `none` unless the bytes are valid UTF-8. -/
def decode (b : Bytes) : Option String := String.fromUTF8? ⟨b.toArray⟩

theorem decode_eq_some {b : Bytes} {s : String} : decode b = some s ↔ b = bytes s := by
  unfold decode bytes String.fromUTF8?
  split
  · rename_i h
    constructor
    · intro hs
      obtain rfl := Option.some.inj hs
      simp [String.fromUTF8]
    · rintro rfl
      simp [String.fromUTF8]
  · rename_i h
    simp only [reduceCtorEq, false_iff]
    rintro rfl
    apply h
    simpa using s.isValidUTF8

@[simp] theorem decode_bytes (s : String) : decode (bytes s) = some s := decode_eq_some.mpr rfl

theorem bytes_inj {s t : String} (h : bytes s = bytes t) : s = t := by
  have hs := decode_bytes s
  rw [h, decode_bytes] at hs
  exact (Option.some.inj hs).symm

theorem isValidUTF8_of_append (l : List Char) {b : ByteArray}
    (h : (l.utf8Encode ++ b).IsValidUTF8) : b.IsValidUTF8 := by
  induction l with
  | nil => simpa using h
  | cons c l ih =>
    rw [← List.singleton_append, List.utf8Encode_append, ByteArray.append_assoc] at h
    exact ih (ByteArray.isValidUTF8_utf8Encode_singleton_append_iff.mp h)

/-- Where a text continues another one, it continues with the first byte of a character. -/
theorem isUTF8FirstByte_of_bytes_eq {s t : String} {b : UInt8} {rest : Bytes}
    (h : bytes s = bytes t ++ b :: rest) : b.IsUTF8FirstByte := by
  have hbytes : s.toByteArray = t.toList.utf8Encode ++ ⟨(b :: rest).toArray⟩ := by
    apply ByteArray.ext
    apply Array.toList_inj.mp
    rw [← String.toByteArray_ofList, String.ofList_toList, ByteArray.data_append,
      Array.toList_append]
    exact h
  have hvalid := s.isValidUTF8
  rw [hbytes] at hvalid
  exact (isValidUTF8_of_append _ hvalid).isUTF8FirstByte_getElem_zero (Nat.succ_pos _)

/-! ### ASCII -/

theorem bytes_ofList_cons (c : Char) (l : List Char) :
    bytes (.ofList (c :: l)) = String.utf8EncodeChar c ++ bytes (.ofList l) := by
  rw [bytes, bytes, String.toByteArray_ofList, String.toByteArray_ofList, List.utf8Encode_cons,
    ByteArray.data_append, Array.toList_append, List.utf8Encode_singleton]
  simp

theorem utf8EncodeChar_of_ascii {c : Char} (h : c.toNat < 0x80) :
    String.utf8EncodeChar c = [.ofNat c.toNat] := by
  have hle : c.val ≤ 127 := UInt32.le_iff_toNat_le.mpr (Nat.le_of_lt_succ h)
  rw [String.utf8EncodeChar_eq_singleton (Char.utf8Size_eq_one_iff.mpr hle)]
  rfl

/-- The bytes of an ASCII text are its characters. -/
theorem bytes_ofList_of_ascii {l : List Char} (h : ∀ c ∈ l, c.toNat < 0x80) :
    bytes (.ofList l) = l.map fun c => .ofNat c.toNat := by
  induction l with
  | nil => rfl
  | cons c l ih =>
      obtain ⟨hc, hl⟩ := List.forall_mem_cons.mp h
      rw [bytes_ofList_cons, utf8EncodeChar_of_ascii hc, ih hl]
      rfl

theorem toNat_ofNat_of_ascii {n : Nat} (h : n < 0x80) : (Char.ofNat n).toNat = n := by
  have hvalid : n.isValidChar := .inl (by omega)
  rw [Char.ofNat, dif_pos hvalid]
  rfl

/-- ASCII bytes are the text of their characters. -/
theorem toList_of_ascii {s : String} (h : ∀ x ∈ bytes s, x.toNat < 0x80) :
    s.toList = (bytes s).map fun x => Char.ofNat x.toNat := by
  have hascii : ∀ c ∈ (bytes s).map fun x => Char.ofNat x.toNat, c.toNat < 0x80 := by
    intro c hc
    obtain ⟨x, hx, rfl⟩ := List.mem_map.mp hc
    rw [toNat_ofNat_of_ascii (h x hx)]
    exact h x hx
  have hround : ∀ x ∈ bytes s, UInt8.ofNat (Char.ofNat x.toNat).toNat = x := by
    intro x hx
    rw [toNat_ofNat_of_ascii (h x hx), UInt8.ofNat_toNat]
  have hbytes : bytes (.ofList ((bytes s).map fun x => Char.ofNat x.toNat)) = bytes s := by
    rw [bytes_ofList_of_ascii hascii, List.map_map]
    exact (List.map_congr_left hround).trans (List.map_id _)
  exact (congrArg String.toList (bytes_inj hbytes)).symm.trans String.toList_ofList
/-! ### Slices of a text -/

/-- `s.is_char_boundary(i)`, on the bytes of `s`. -/
def isCharBoundary (b : Bytes) (i : Nat) : Bool :=
  i = 0 || i = b.length || (b[i]?).any fun x => x < 0x80 || 0xC0 ≤ x

/-- `&s[i..j]`, on the bytes of `s`: panics where it would cut a character. -/
def strSlice {ε : Type u} (b : Bytes) (i j : Nat) : Outcome ε Bytes :=
  if i ≤ j ∧ j ≤ b.length ∧ isCharBoundary b i ∧ isCharBoundary b j then .ok (seg b i j)
  else .panicked

end Utf8
