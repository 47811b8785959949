import Macula.Lib.Bytes

/-!
# CBOR values

The value type of the deterministic codec and its three field operations.  A map is
the list of its entries in the order they were added, as the source's
`Vec<(Value, Value)>` is: nothing keeps its keys distinct and nothing sorts them.  A
float is its binary64 bit pattern, since the codec moves the pattern and never
computes with the number.

`Value.All P` says that `P` holds of a value and of everything inside it, keys
included.  The conditions the codec's theorems need are such predicates, one for each
way a value can fall outside the format.
-/

namespace Macula.Cbor

/-- A deterministic-CBOR value. -/
inductive Value where
  | int (n : Int)
  | bytes (b : Bytes)
  | text (s : String)
  | list (items : List Value)
  | map (pairs : List (Value × Value))
  | null
  /-- A binary64 bit pattern. -/
  | float (bits : UInt64)

/-! ## Induction and equality -/

/-- Induction over a value, with a hypothesis for every item and every entry. -/
theorem Value.induct {P : Value → Prop} (int : ∀ n, P (.int n)) (bytes : ∀ b, P (.bytes b))
    (text : ∀ s, P (.text s)) (list : ∀ items, (∀ v ∈ items, P v) → P (.list items))
    (map : ∀ pairs, (∀ p ∈ pairs, P p.1 ∧ P p.2) → P (.map pairs)) (null : P .null)
    (float : ∀ bits, P (.float bits)) (v : Value) : P v :=
  @Value.rec P (fun items => ∀ v ∈ items, P v) (fun pairs => ∀ p ∈ pairs, P p.1 ∧ P p.2)
    (fun p => P p.1 ∧ P p.2)
    int bytes text list map null float
    (by simp) (fun _ _ hv hvs => by simpa using ⟨hv, hvs⟩)
    (by simp) (fun _ _ hp hps => List.forall_mem_cons.mpr ⟨hp, hps⟩)
    (fun _ _ hk hv => ⟨hk, hv⟩) v

mutual

/-- Equality of values is decidable. -/
def Value.decEq : (v w : Value) → Decidable (v = w)
  | .int m, .int n => decidable_of_iff (m = n) (by simp)
  | .bytes a, .bytes b => decidable_of_iff (a = b) (by simp)
  | .text s, .text t => decidable_of_iff (s = t) (by simp)
  | .list xs, .list ys => @decidable_of_iff _ (xs = ys) (by simp) (Value.decEqItems xs ys)
  | .map ps, .map qs => @decidable_of_iff _ (ps = qs) (by simp) (Value.decEqPairs ps qs)
  | .null, .null => isTrue rfl
  | .float a, .float b => decidable_of_iff (a = b) (by simp)
  | .int _, .bytes _ | .int _, .text _ | .int _, .list _ | .int _, .map _ | .int _, .null
  | .int _, .float _ => isFalse nofun
  | .bytes _, .int _ | .bytes _, .text _ | .bytes _, .list _ | .bytes _, .map _
  | .bytes _, .null | .bytes _, .float _ => isFalse nofun
  | .text _, .int _ | .text _, .bytes _ | .text _, .list _ | .text _, .map _
  | .text _, .null | .text _, .float _ => isFalse nofun
  | .list _, .int _ | .list _, .bytes _ | .list _, .text _ | .list _, .map _
  | .list _, .null | .list _, .float _ => isFalse nofun
  | .map _, .int _ | .map _, .bytes _ | .map _, .text _ | .map _, .list _ | .map _, .null
  | .map _, .float _ => isFalse nofun
  | .null, .int _ | .null, .bytes _ | .null, .text _ | .null, .list _ | .null, .map _
  | .null, .float _ => isFalse nofun
  | .float _, .int _ | .float _, .bytes _ | .float _, .text _ | .float _, .list _
  | .float _, .map _ | .float _, .null => isFalse nofun

def Value.decEqItems : (xs ys : List Value) → Decidable (xs = ys)
  | [], [] => isTrue rfl
  | [], _ :: _ | _ :: _, [] => isFalse nofun
  | x :: xs, y :: ys =>
      match Value.decEq x y, Value.decEqItems xs ys with
      | isTrue h, isTrue hs => isTrue (by rw [h, hs])
      | isFalse h, _ => isFalse (by simp [h])
      | _, isFalse hs => isFalse (by simp [hs])

def Value.decEqPairs : (ps qs : List (Value × Value)) → Decidable (ps = qs)
  | [], [] => isTrue rfl
  | [], _ :: _ | _ :: _, [] => isFalse nofun
  | (k, v) :: ps, (l, w) :: qs =>
      match Value.decEq k l, Value.decEq v w, Value.decEqPairs ps qs with
      | isTrue hk, isTrue hv, isTrue hs => isTrue (by rw [hk, hv, hs])
      | isFalse hk, _, _ => isFalse (by simp [hk])
      | _, isFalse hv, _ => isFalse (by simp [hv])
      | _, _, isFalse hs => isFalse (by simp [hs])

end

instance : DecidableEq Value := Value.decEq

/-! ## Fields -/

/-- Whether a map key is the text `name`: `matches!(k, Value::Text(t) if t == name)`. -/
def Value.isText (name : String) : Value → Bool
  | .text t => t == name
  | _ => false

@[simp] theorem Value.isText_iff {name : String} {k : Value} :
    k.isText name = true ↔ k = .text name := by
  cases k <;> simp [Value.isText]

/-- Look up a field by text key: the first entry under that key. -/
def Value.get (v : Value) (key : String) : Option Value :=
  match v with
  | .map pairs => (pairs.find? fun p => p.1.isText key).map Prod.snd
  | _ => none

/-- A new map with the given text keys removed. -/
def Value.without (v : Value) (keys : List String) : Value :=
  match v with
  | .map pairs => .map (pairs.filter fun p => !keys.any fun key => p.1.isText key)
  | other => other

/-- The entries of `with_field`: the first entry under `key` gets the new value, else
a new entry goes last. -/
def setField (key : String) (value : Value) : List (Value × Value) → List (Value × Value)
  | [] => [(.text key, value)]
  | (k, v) :: rest => if k.isText key then (k, value) :: rest else (k, v) :: setField key value rest

/-- Insert or replace a field in a map by text key; a no-op on a non-map value. -/
def Value.withField (v : Value) (key : String) (value : Value) : Value :=
  match v with
  | .map pairs => .map (setField key value pairs)
  | other => other

@[simp] theorem Value.get_map (pairs : List (Value × Value)) (key : String) :
    (Value.map pairs).get key = (pairs.find? fun p => p.1.isText key).map Prod.snd := rfl

theorem find?_setField_self (key : String) (value : Value) (pairs : List (Value × Value)) :
    ((setField key value pairs).find? fun p => p.1.isText key).map Prod.snd = some value := by
  induction pairs with
  | nil => simp [setField]
  | cons p rest ih =>
      obtain ⟨k, v⟩ := p
      by_cases hk : k.isText key = true
      · simp [setField, hk]
      · simpa [setField, hk] using ih

theorem find?_setField_ne {key other : String} (h : other ≠ key) (value : Value)
    (pairs : List (Value × Value)) :
    ((setField key value pairs).find? fun p => p.1.isText other).map Prod.snd =
      (pairs.find? fun p => p.1.isText other).map Prod.snd := by
  induction pairs with
  | nil => simp [setField, Ne.symm h]
  | cons p rest ih =>
      obtain ⟨k, v⟩ := p
      by_cases hk : k.isText key = true
      · have hk' : k = .text key := by simpa using hk
        simp [setField, hk', Ne.symm h]
      · by_cases ho : k.isText other = true
        · simp [setField, hk, ho]
        · simpa [setField, hk, ho] using ih

/-- A field reads back as it was set. -/
@[simp] theorem Value.get_withField_self (pairs : List (Value × Value)) (key : String)
    (value : Value) : ((Value.map pairs).withField key value).get key = some value :=
  find?_setField_self key value pairs

/-- Setting one field leaves the others alone. -/
theorem Value.get_withField_ne {key other : String} (h : other ≠ key) (v value : Value) :
    (v.withField key value).get other = v.get other := by
  cases v with
  | map pairs => exact find?_setField_ne h value pairs
  | _ => rfl

/-- Setting a field that is removed afterwards changes nothing. -/
theorem Value.without_withField {key : String} {keys : List String} (h : key ∈ keys)
    (v value : Value) : (v.withField key value).without keys = v.without keys := by
  have hdrop : ∀ w : Value, w.isText key = true → (keys.any fun key => w.isText key) = true := by
    intro w hw
    exact List.any_eq_true.mpr ⟨key, h, hw⟩
  cases v with
  | map pairs =>
      simp only [Value.withField, Value.without, Value.map.injEq]
      induction pairs with
      | nil => simpa [setField] using hdrop (.text key) (by simp)
      | cons p rest ih =>
          obtain ⟨k, w⟩ := p
          by_cases hk : k.isText key = true
          · simp [setField, hk, hdrop k hk]
          · simp only [setField, hk, Bool.false_eq_true, if_false, List.filter_cons, ih]
  | _ => rfl

/-! ## Predicates over everything inside a value -/

mutual

/-- `P` holds of `v` and of every value inside it, map keys included. -/
def Value.All (P : Value → Prop) : Value → Prop
  | .list items => P (.list items) ∧ Value.AllItems P items
  | .map pairs => P (.map pairs) ∧ Value.AllPairs P pairs
  | v => P v

def Value.AllItems (P : Value → Prop) : List Value → Prop
  | [] => True
  | v :: items => v.All P ∧ Value.AllItems P items

def Value.AllPairs (P : Value → Prop) : List (Value × Value) → Prop
  | [] => True
  | (k, v) :: pairs => (k.All P ∧ v.All P) ∧ Value.AllPairs P pairs

end

theorem Value.allItems_iff {P : Value → Prop} :
    ∀ {items : List Value}, Value.AllItems P items ↔ ∀ v ∈ items, v.All P
  | [] => by simp [Value.AllItems]
  | _ :: _ => by simp [Value.AllItems, Value.allItems_iff]

theorem Value.allPairs_iff {P : Value → Prop} :
    ∀ {pairs : List (Value × Value)},
      Value.AllPairs P pairs ↔ ∀ p ∈ pairs, p.1.All P ∧ p.2.All P
  | [] => by simp [Value.AllPairs]
  | (_, _) :: _ => by simp [Value.AllPairs, Value.allPairs_iff]

@[simp] theorem Value.all_list {P : Value → Prop} {items : List Value} :
    (Value.list items).All P ↔ P (.list items) ∧ ∀ v ∈ items, v.All P := by
  rw [Value.All, Value.allItems_iff]

@[simp] theorem Value.all_map {P : Value → Prop} {pairs : List (Value × Value)} :
    (Value.map pairs).All P ↔ P (.map pairs) ∧ ∀ p ∈ pairs, p.1.All P ∧ p.2.All P := by
  rw [Value.All, Value.allPairs_iff]

@[simp] theorem Value.all_int {P : Value → Prop} {n : Int} : (Value.int n).All P ↔ P (.int n) :=
  Iff.rfl

@[simp] theorem Value.all_bytes {P : Value → Prop} {b : Bytes} :
    (Value.bytes b).All P ↔ P (.bytes b) :=
  Iff.rfl

@[simp] theorem Value.all_text {P : Value → Prop} {s : String} :
    (Value.text s).All P ↔ P (.text s) :=
  Iff.rfl

@[simp] theorem Value.all_null {P : Value → Prop} : Value.null.All P ↔ P .null :=
  Iff.rfl

@[simp] theorem Value.all_float {P : Value → Prop} {bits : UInt64} :
    (Value.float bits).All P ↔ P (.float bits) :=
  Iff.rfl

/-- `P` holds of the value itself. -/
theorem Value.All.self {P : Value → Prop} {v : Value} (h : v.All P) : P v := by
  cases v <;> simp_all

end Macula.Cbor
