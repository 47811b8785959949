import Macula.Lib.Bytes

/-!
# base64url without padding

Three bytes are four digits of six bits.  One or two bytes at the end are two or three digits,
the last one filled up with zero bits, and nothing is padded.

`encode` goes through the numbers of the digits (`sextets`), and `decode` back through them.
The decoder is strict: no padding, no foreign character, no single digit left over, and no bit
set among those that fill the last digit up.
-/

namespace Base64

/-! ## Digits -/

/-- `A`–`Z`, `a`–`z`, `0`–`9`, `-` and `_`. -/
def digit (n : Nat) : Char :=
  if n < 26 then .ofNat (n + 65)
  else if n < 52 then .ofNat (n - 26 + 97)
  else if n < 62 then .ofNat (n - 52 + 48)
  else if n = 62 then '-'
  else '_'

/-- The number of a digit. -/
def value (c : Char) : Option Nat :=
  if 'A' ≤ c ∧ c ≤ 'Z' then some (c.toNat - 65)
  else if 'a' ≤ c ∧ c ≤ 'z' then some (c.toNat - 97 + 26)
  else if '0' ≤ c ∧ c ≤ '9' then some (c.toNat - 48 + 52)
  else if c = '-' then some 62
  else if c = '_' then some 63
  else none

theorem value_digit : ∀ n < 64, value (digit n) = some n := by decide

/-! ## Groups of six bits -/

def sextets : Bytes → List Nat
  | [] => []
  | [a] => [a.toNat / 4, a.toNat % 4 * 16]
  | [a, b] => [a.toNat / 4, a.toNat % 4 * 16 + b.toNat / 16, b.toNat % 16 * 4]
  | a :: b :: c :: rest =>
      a.toNat / 4 :: (a.toNat % 4 * 16 + b.toNat / 16) :: (b.toNat % 16 * 4 + c.toNat / 64) ::
        c.toNat % 64 :: sextets rest

def ofSextets : List Nat → Option Bytes
  | [] => some []
  | [_] => none
  | [w, x] => if x % 16 = 0 then some [.ofNat (w * 4 + x / 16)] else none
  | [w, x, y] =>
      if y % 4 = 0 then some [.ofNat (w * 4 + x / 16), .ofNat (x % 16 * 16 + y / 4)] else none
  | w :: x :: y :: z :: rest => do
      let tail ← ofSextets rest
      return .ofNat (w * 4 + x / 16) :: .ofNat (x % 16 * 16 + y / 4) :: .ofNat (y % 4 * 64 + z) ::
        tail

theorem sextets_lt (b : Bytes) : ∀ n ∈ sextets b, n < 64 := by
  induction b using sextets.induct with
  | case1 => simp [sextets]
  | case2 a =>
      have ha := a.toNat_lt
      simp only [sextets, List.forall_mem_cons, List.not_mem_nil, false_imp_iff, implies_true,
        and_true]
      omega
  | case3 a b =>
      have ha := a.toNat_lt
      have hb := b.toNat_lt
      simp only [sextets, List.forall_mem_cons, List.not_mem_nil, false_imp_iff, implies_true,
        and_true]
      omega
  | case4 a b c rest ih =>
      have ha := a.toNat_lt
      have hb := b.toNat_lt
      have hc := c.toNat_lt
      simp only [sextets, List.forall_mem_cons]
      exact ⟨by omega, by omega, by omega, by omega, ih⟩

/-- A byte that a decoder puts together again. -/
theorem ofNat_eq {n : Nat} {a : UInt8} (h : n = a.toNat) : UInt8.ofNat n = a := by
  rw [h, UInt8.ofNat_toNat]

theorem ofSextets_sextets (b : Bytes) : ofSextets (sextets b) = some b := by
  induction b using sextets.induct with
  | case1 => rfl
  | case2 a =>
      have ha := a.toNat_lt
      have hfirst : UInt8.ofNat (a.toNat / 4 * 4 + a.toNat % 4 * 16 / 16) = a :=
        ofNat_eq (by omega)
      rw [sextets, ofSextets, if_pos (by omega), hfirst]
  | case3 a b =>
      have ha := a.toNat_lt
      have hb := b.toNat_lt
      have hfirst : UInt8.ofNat (a.toNat / 4 * 4 + (a.toNat % 4 * 16 + b.toNat / 16) / 16) = a :=
        ofNat_eq (by omega)
      have hsecond : UInt8.ofNat ((a.toNat % 4 * 16 + b.toNat / 16) % 16 * 16 +
          b.toNat % 16 * 4 / 4) = b :=
        ofNat_eq (by omega)
      rw [sextets, ofSextets, if_pos (by omega), hfirst, hsecond]
  | case4 a b c rest ih =>
      have ha := a.toNat_lt
      have hb := b.toNat_lt
      have hc := c.toNat_lt
      have hfirst : UInt8.ofNat (a.toNat / 4 * 4 + (a.toNat % 4 * 16 + b.toNat / 16) / 16) = a :=
        ofNat_eq (by omega)
      have hsecond : UInt8.ofNat ((a.toNat % 4 * 16 + b.toNat / 16) % 16 * 16 +
          (b.toNat % 16 * 4 + c.toNat / 64) / 4) = b :=
        ofNat_eq (by omega)
      have hthird : UInt8.ofNat ((b.toNat % 16 * 4 + c.toNat / 64) % 4 * 64 + c.toNat % 64) = c :=
        ofNat_eq (by omega)
      rw [sextets, ofSextets, ih]
      simp only [Option.bind_eq_bind, Option.bind_some, hfirst, hsecond, hthird, Option.pure_def]

/-! ## Text -/

def encode (b : Bytes) : String := .ofList ((sextets b).map digit)

def decode (s : String) : Option Bytes := do
  let values ← s.toList.mapM value
  ofSextets values

theorem mapM_value_digit (l : List Nat) (h : ∀ n ∈ l, n < 64) :
    (l.map digit).mapM value = some l := by
  induction l with
  | nil => rfl
  | cons n l ih =>
      rw [List.forall_mem_cons] at h
      simp [value_digit n h.1, ih h.2]

/-- What is encoded is read back. -/
theorem decode_encode (b : Bytes) : decode (encode b) = some b := by
  rw [decode, encode, String.toList_ofList, mapM_value_digit _ (sextets_lt b)]
  exact ofSextets_sextets b

/-- An encoding has digits only. -/
theorem value_ne_none_of_mem_encode {b : Bytes} {c : Char} (h : c ∈ (encode b).toList) :
    value c ≠ none := by
  rw [encode, String.toList_ofList, List.mem_map] at h
  obtain ⟨n, hn, rfl⟩ := h
  rw [value_digit n (sextets_lt b n hn)]
  nofun

example : encode (Utf8.bytes "any carnal pleas?") = "YW55IGNhcm5hbCBwbGVhcz8" := by decide

end Base64
