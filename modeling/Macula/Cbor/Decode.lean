import Macula.Cbor.Float
import Macula.Cbor.Head

/-!
# The decoder

A recursive descent over positions in one buffer.  `decodeOne` returns a value, the
position after it and, when asked to, the value's canonical bytes, which the caller
needs only for a map key: they are the identity under which a map deduplicates.

Three points where the shape of the source is not Lean's.

*Depth.*  `decode_one` counts its depth up and stops past `MAX_NESTING_DEPTH`.
`decodeLevels` counts the levels left down, so that it is structurally recursive;
`decodeOne` is the source's function and `decodeOne_eq` its body.

*Word size.*  A length on the wire is a `u64` and is cast with `as usize` before it is
checked.  `bits` is the width of `usize`.

*Positions.*  A position never passes the length of the buffer by more than one head,
so no addition of positions overflows, and `checked_add` in `need` fails only past the
length of every buffer.
-/

namespace Macula.Cbor

inductive DecodeError where
  /-- The buffer ended before a complete value could be read. -/
  | truncated
  | unsupportedMajorType (major : UInt8)
  | unsupportedAdditionalInfo (ai : UInt8)
  | unsupportedAdditionalInfoEncoding (ai : UInt8)
  /-- A single top-level value did not consume the whole buffer. -/
  | trailingBytes
  | invalidUtf8
  | unrepresentableFloat
  | nestingTooDeep
deriving DecidableEq

def MAX_NESTING_DEPTH : Nat := 128

/-- What `decode_one` returns: a value, its canonical bytes, and the next position. -/
abbrev Decoded := Outcome DecodeError (Value × Bytes × Nat)

/-- `n as usize`. -/
def asUsize (bits n : Nat) : Nat := n % 2 ^ bits

def need (buf : Bytes) (pos n : Nat) : Outcome DecodeError Unit :=
  if pos + n ≤ buf.length then .ok () else .err .truncated

/-- `u16::from_be_bytes([buf[pos], buf[pos + 1]])`. -/
def readU16 (buf : Bytes) (pos : Nat) : Outcome DecodeError Nat := do
  let b₀ ← index buf pos
  let b₁ ← index buf (pos + 1)
  return ofBe [b₀, b₁]

/-- `buf[pos..pos + k]`, converted to an array and read big-endian. -/
def readBe (buf : Bytes) (pos k : Nat) : Outcome DecodeError Nat := do
  let b ← slice buf pos (pos + k)
  let arr ← .expectSome (toArr k b)
  return ofBe arr.1

def decodeCount (buf : Bytes) (pos : Nat) (ai : UInt8) : Outcome DecodeError (Nat × Nat) :=
  if ai ≤ 23 then .ok (ai.toNat, pos)
  else if ai = 24 then do
    need buf pos 1
    let b ← index buf pos
    return (b.toNat, pos + 1)
  else if ai = 25 then do
    need buf pos 2
    return (← readU16 buf pos, pos + 2)
  else if ai = 26 then do
    need buf pos 4
    return (← readBe buf pos 4, pos + 4)
  else if ai = 27 then do
    need buf pos 8
    return (← readBe buf pos 8, pos + 8)
  else if ai ≤ 31 then .err (.unsupportedAdditionalInfoEncoding ai)
  else .panicked

/-- `pos` is the position of the head byte here. -/
def decodeMajor7 (buf : Bytes) (pos : Nat) (ai : UInt8) : Outcome DecodeError (Value × Nat) :=
  if ai = 22 then .ok (.null, pos + 1)
  else if ai = 25 then do
    need buf (pos + 1) 2
    let half ← readU16 buf (pos + 1)
    let bits ← .okOr .unrepresentableFloat (halfToF64 half)
    return (.float bits, pos + 3)
  else if ai = 26 then do
    need buf (pos + 1) 4
    return (.float (f32ToF64 (← readBe buf (pos + 1) 4)), pos + 5)
  else if ai = 27 then do
    need buf (pos + 1) 8
    return (.float (.ofNat (← readBe buf (pos + 1) 8)), pos + 9)
  else .err (.unsupportedAdditionalInfo ai)

def withCanonicalBytes (value : Value) (next : Nat) : Decoded := do
  let canon ← .expectOk (encodeValue value)
  return (value, canon, next)

def scalarCanonicalBytes (value : Value) (next : Nat) (needCanon : Bool) : Decoded :=
  if needCanon then withCanonicalBytes value next else .ok (value, [], next)

/-! ## Lists -/

/-- `decode_one` on the same buffer, one level down. -/
abbrev ItemDecoder := Nat → Bool → Decoded

/-- The loop of `decode_list`, after which `items` and `canon` are complete. -/
def decodeListLoop (one : ItemDecoder) (needCanon : Bool) :
    (count pos : Nat) → (items : List Value) → (canon : Bytes) →
      Outcome DecodeError (List Value × Bytes × Nat)
  | 0, pos, items, canon => .ok (items, canon, pos)
  | count + 1, pos, items, canon => do
      let (item, itemCanon, next) ← one pos needCanon
      decodeListLoop one needCanon count next (items ++ [item])
        (if needCanon then canon ++ itemCanon else canon)

def decodeList (one : ItemDecoder) (pos count : Nat) (needCanon : Bool) : Decoded := do
  let canon := if needCanon then encodeHead 4 count else []
  let (items, canon, pos) ← decodeListLoop one needCanon count pos [] canon
  return (.list items, canon, pos)

/-! ## Maps -/

/-- The three locals of `decode_map`: the entries so far, the slot of every key under its
canonical bytes, and the canonical bytes of the values by slot. -/
structure MapState where
  pairs : List (Value × Value)
  /-- The `HashMap`, in order of insertion; only lookups and a sorted copy are taken of it. -/
  indexOfKey : List (Bytes × Nat)
  valsCanon : List Bytes

/-- `xs[i] = x`: panics out of bounds. -/
def setAt {ε α : Type} (xs : List α) (i : Nat) (x : α) : Outcome ε (List α) :=
  if i < xs.length then .ok (xs.set i x) else .panicked

/-- One entry goes in: the last value wins, in the slot of the first key. -/
def MapState.insert (s : MapState) (k v : Value) (keyCanon valCanon : Bytes) (needCanon : Bool) :
    Outcome DecodeError MapState :=
  match s.indexOfKey.lookup keyCanon with
  | some i => do
      let slot ← .expectSome s.pairs[i]?
      let pairs ← setAt s.pairs i (slot.1, v)
      let valsCanon ← if needCanon then setAt s.valsCanon i valCanon else .ok s.valsCanon
      return { s with pairs, valsCanon }
  | none =>
      .ok { pairs := s.pairs ++ [(k, v)]
            indexOfKey := s.indexOfKey ++ [(keyCanon, s.pairs.length)]
            valsCanon := if needCanon then s.valsCanon ++ [valCanon] else s.valsCanon }

/-- The loop of `decode_map`.  A key is always decoded with its canonical bytes. -/
def decodeMapLoop (one : ItemDecoder) (needCanon : Bool) :
    (count pos : Nat) → MapState → Outcome DecodeError (MapState × Nat)
  | 0, pos, s => .ok (s, pos)
  | count + 1, pos, s => do
      let (k, keyCanon, next₁) ← one pos true
      let (v, valCanon, next₂) ← one next₁ needCanon
      let s ← s.insert k v keyCanon valCanon needCanon
      decodeMapLoop one needCanon count next₂ s

/-- The canonical bytes of a map's entries, in the given order of keys. -/
def entriesCanon (valsCanon : List Bytes) : List (Bytes × Nat) → Outcome DecodeError Bytes
  | [] => .ok []
  | (k, i) :: order => do
      let valCanon ← .expectSome valsCanon[i]?
      let rest ← entriesCanon valsCanon order
      return k ++ valCanon ++ rest

def decodeMap (one : ItemDecoder) (pos count : Nat) (needCanon : Bool) : Decoded := do
  let (s, pos) ← decodeMapLoop one needCanon count pos ⟨[], [], []⟩
  if !needCanon then return (.map s.pairs, [], pos)
  let order := keySort Prod.fst s.indexOfKey
  let entries ← entriesCanon s.valsCanon order
  return (.map s.pairs, encodeHead 5 order.length ++ entries, pos)

/-! ## One item -/

/-- The `match major` of `decode_one`, past the count `n`. -/
def decodeCounted (bits : Nat) (buf : Bytes) (one : ItemDecoder) (major : UInt8) (n next : Nat)
    (needCanon : Bool) : Decoded :=
  if major = 0 then scalarCanonicalBytes (.int n) next needCanon
  else if major = 1 then scalarCanonicalBytes (.int (-1 - n)) next needCanon
  else if major = 2 then do
    let len := asUsize bits n
    need buf next len
    let b ← slice buf next (next + len)
    scalarCanonicalBytes (.bytes b) (next + len) needCanon
  else if major = 3 then do
    let len := asUsize bits n
    need buf next len
    let b ← slice buf next (next + len)
    let text ← .okOr .invalidUtf8 (Utf8.decode b)
    scalarCanonicalBytes (.text text) (next + len) needCanon
  else if major = 4 then decodeList one next n needCanon
  else if major = 5 then decodeMap one next n needCanon
  else .err (.unsupportedMajorType major)

/-- The body of `decode_one` past its depth check; `one` decodes the sub-items. -/
def decodeItem (bits : Nat) (buf : Bytes) (one : ItemDecoder) (pos : Nat) (needCanon : Bool) :
    Decoded := do
  need buf pos 1
  let byte₀ ← index buf pos
  let major := byte₀ >>> 5
  let ai := byte₀ &&& 0x1F
  if major = 7 then
    let (value, next) ← decodeMajor7 buf pos ai
    scalarCanonicalBytes value next needCanon
  else
    let (n, next) ← decodeCount buf (pos + 1) ai
    decodeCounted bits buf one major n next needCanon

/-- Decode one item with `levels` levels of nesting left, its own included. -/
def decodeLevels (bits : Nat) (buf : Bytes) : (levels : Nat) → ItemDecoder
  | 0 => fun _ _ => .err .nestingTooDeep
  | levels + 1 => decodeItem bits buf (decodeLevels bits buf levels)

def decodeOne (bits : Nat) (buf : Bytes) (pos depth : Nat) (needCanon : Bool) : Decoded :=
  decodeLevels bits buf (MAX_NESTING_DEPTH + 1 - depth) pos needCanon

/-- The body of `decode_one`, with the depth counted up. -/
theorem decodeOne_eq (bits : Nat) (buf : Bytes) (pos depth : Nat) (needCanon : Bool) :
    decodeOne bits buf pos depth needCanon =
      if depth > MAX_NESTING_DEPTH then .err .nestingTooDeep
      else decodeItem bits buf (fun pos => decodeOne bits buf pos (depth + 1)) pos needCanon := by
  split
  · rename_i h
    have hlevels : MAX_NESTING_DEPTH + 1 - depth = 0 := by omega
    rw [decodeOne, hlevels, decodeLevels]
  · rename_i h
    have hlevels : MAX_NESTING_DEPTH + 1 - depth = (MAX_NESTING_DEPTH + 1 - (depth + 1)) + 1 := by
      omega
    rw [decodeOne, hlevels, decodeLevels]
    rfl

/-- Decode a single value; the whole buffer must be consumed. -/
def decode (bits : Nat) (buf : Bytes) : Outcome DecodeError Value := do
  let (value, _, pos) ← decodeOne bits buf 0 0 false
  if pos ≠ buf.length then .err .trailingBytes else return value

-- A list of one integer in a wider form than the encoder's.
example : decode 64 [0x81, 0x18, 0x05] = .ok (.list [.int 5]) := by decide

-- A repeated key overwrites the value in its first slot.
example : decode 64 [0xA2, 0x01, 0x02, 0x01, 0xF6] = .ok (.map [(.int 1, .null)]) := by decide

end Macula.Cbor
