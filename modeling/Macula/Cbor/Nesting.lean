import Macula.Cbor.RoundTrip
import Macula.Cbor.Stops

/-!
# The nesting limit

`NestingTooDeep` is for lists and maps nested more than `MAX_NESTING_DEPTH` levels deep, and
`Value.nest` counts those levels.  The decoder counts something else: its check stands at the
head of every item, so what is limited is how many lists and maps an item stands in.  The two
counts agree as long as the innermost list or map holds an item.  An empty one may stand in
`MAX_NESTING_DEPTH` others, and is then one level more than the limit.
-/

namespace Macula.Cbor

/-! ## Levels -/

mutual

/-- How many levels of lists and maps a value has, keys included. -/
def Value.nest : Value → Nat
  | .list items => nestItems items + 1
  | .map pairs => nestPairs pairs + 1
  | _ => 0

def nestItems : List Value → Nat
  | [] => 0
  | v :: items => max v.nest (nestItems items)

def nestPairs : List (Value × Value) → Nat
  | [] => 0
  | (k, v) :: pairs => max (max k.nest v.nest) (nestPairs pairs)

end

/-- An empty list or map stands in `v`, inside `n` lists and maps. -/
inductive HoldsEmpty : (n : Nat) → (v : Value) → Prop where
  | list : HoldsEmpty 0 (.list [])
  | map : HoldsEmpty 0 (.map [])
  | item {n : Nat} {v : Value} {items : List Value} : v ∈ items → HoldsEmpty n v →
      HoldsEmpty (n + 1) (.list items)
  | key {n : Nat} {p : Value × Value} {pairs : List (Value × Value)} : p ∈ pairs →
      HoldsEmpty n p.1 → HoldsEmpty (n + 1) (.map pairs)
  | value {n : Nat} {p : Value × Value} {pairs : List (Value × Value)} : p ∈ pairs →
      HoldsEmpty n p.2 → HoldsEmpty (n + 1) (.map pairs)

theorem lt_nestItems {n : Nat} {items : List Value} :
    n < nestItems items ↔ ∃ v ∈ items, n < v.nest := by
  induction items with
  | nil => simp [nestItems]
  | cons v items ih => simp [nestItems, ih]

theorem lt_nestPairs {n : Nat} {pairs : List (Value × Value)} :
    n < nestPairs pairs ↔ ∃ p ∈ pairs, n < p.1.nest ∨ n < p.2.nest := by
  induction pairs with
  | nil => simp [nestPairs]
  | cons p pairs ih => simp [nestPairs, ih, or_assoc]

/-- A value whose items stand in at most `n` lists and maps has more levels only through an
empty one inside `n`. -/
theorem lt_nest_iff {v : Value} : ∀ {n : Nat}, v.depth ≤ n → (n < v.nest ↔ HoldsEmpty n v) := by
  induction v using Value.induct with
  | int | bytes | text | null | float =>
      intro n _
      simp only [Value.nest, Nat.not_lt_zero, false_iff]
      intro h
      cases h
  | list items ih =>
      intro n h
      have hitems := Value.depth_list_le.mp h
      rw [Value.nest]
      cases n with
      | zero =>
          cases items with
          | nil => simpa [nestItems] using HoldsEmpty.list
          | cons v items =>
              have := hitems v List.mem_cons_self
              omega
      | succ n =>
          rw [Nat.add_lt_add_iff_right, lt_nestItems]
          constructor
          · rintro ⟨v, hv, hlt⟩
            have := hitems v hv
            exact .item hv ((ih v hv (by omega)).mp hlt)
          · intro hempty
            cases hempty with
            | item hv hempty =>
                have := hitems _ hv
                exact ⟨_, hv, (ih _ hv (by omega)).mpr hempty⟩
  | map pairs ih =>
      intro n h
      have hpairs := Value.depth_map_le.mp h
      rw [Value.nest]
      cases n with
      | zero =>
          cases pairs with
          | nil => simpa [nestPairs] using HoldsEmpty.map
          | cons p pairs =>
              have := hpairs p List.mem_cons_self
              omega
      | succ n =>
          rw [Nat.add_lt_add_iff_right, lt_nestPairs]
          constructor
          · rintro ⟨p, hp, hlt⟩
            have := hpairs p hp
            rcases hlt with hlt | hlt
            · exact .key hp (((ih p hp).1 (by omega)).mp hlt)
            · exact .value hp (((ih p hp).2 (by omega)).mp hlt)
          · intro hempty
            cases hempty with
            | key hp hempty =>
                have := hpairs _ hp
                exact ⟨_, hp, .inl (((ih _ hp).1 (by omega)).mpr hempty)⟩
            | value hp hempty =>
                have := hpairs _ hp
                exact ⟨_, hp, .inr (((ih _ hp).2 (by omega)).mpr hempty)⟩

/-- An item stands in no more lists and maps than there are levels. -/
theorem Value.depth_le_nest (v : Value) : v.depth ≤ v.nest := by
  induction v using Value.induct with
  | int | bytes | text | null | float => simp [Value.depth]
  | list items ih =>
      apply Value.depth_list_le.mpr
      intro v hv
      rw [Value.nest]
      have hlt : ¬ nestItems items < v.nest := by
        intro hlt
        obtain hn := lt_nestItems.mpr ⟨v, hv, hlt⟩
        omega
      have := ih v hv
      omega
  | map pairs ih =>
      apply Value.depth_map_le.mpr
      intro p hp
      rw [Value.nest]
      have hlt : ¬ (nestPairs pairs < p.1.nest ∨ nestPairs pairs < p.2.nest) := by
        intro hlt
        have hn := lt_nestPairs.mpr ⟨p, hp, hlt⟩
        omega
      have := ih p hp
      omega

/-! ## What an encoding reads as -/

theorem Item.leaf_of_scalar {d : Nat} {s : Bytes} {v : Value} (h : Item d s v)
    (hlist : ∀ items, v ≠ .list items) (hmap : ∀ pairs, v ≠ .map pairs) : Leaf 64 s := by
  cases h with
  | simple _ h => exact .simple h
  | scalar _ h =>
      cases h with
      | uint hh => exact .uint hh
      | nint hh => exact .nint hh
      | bytes hh => exact .bytes hh (asUsize_of_lt hh.lt).symm
      | text hh => exact .text hh (asUsize_of_lt hh.lt).symm
  | list => exact absurd rfl (hlist _)
  | map => exact absurd rfl (hmap _)

theorem readsMany_plainItems {d : Nat} {t : Bytes} {items : List Value}
    (h : ∀ v ∈ items, ∀ t, Reads 64 d (plain v ++ t) t) :
    ReadsMany 64 d items.length (plainItems items ++ t) t := by
  induction items with
  | nil => exact .nil
  | cons v items ih =>
      obtain ⟨hv, hitems⟩ := List.forall_mem_cons.mp h
      rw [plainItems, List.append_assoc]
      exact .cons (hv _) (ih hitems)

theorem readsMany_plainPairs {d : Nat} {t : Bytes} {pairs : List (Value × Value)}
    (h : ∀ p ∈ pairs, ∀ t, Reads 64 d (plain p.1 ++ t) t ∧ Reads 64 d (plain p.2 ++ t) t) :
    ReadsMany 64 d (2 * pairs.length) (plainPairs pairs ++ t) t := by
  induction pairs with
  | nil => exact .nil
  | cons p pairs ih =>
      obtain ⟨hp, hpairs⟩ := List.forall_mem_cons.mp h
      rw [plainPairs, List.append_assoc, List.append_assoc]
      exact .cons (hp _).1 (.cons (hp _).2 (ih hpairs))

/-- An encoding is read to its end, with or without repeated keys. -/
theorem reads_plain : ∀ {v : Value} {d : Nat}, v.Encodable → d + v.depth ≤ MAX_NESTING_DEPTH →
    ∀ t, Reads 64 d (plain v ++ t) t := by
  intro v
  induction v using Value.induct with
  | int | bytes | text | null | float =>
      intro d hv hd t
      have hfits : Fits d _ := ⟨hv, by simp [Value.DistinctKeys, KeysOk], hd⟩
      exact .leaf hfits.depth_le (hfits.item_plain.leaf_of_scalar (by simp) (by simp))
  | list items ih =>
      intro d hv hd t
      have hhead := Value.head hv
      have hitems := (@Value.depth_list_le (MAX_NESTING_DEPTH - d) items).mp (by omega)
      rw [plain_eq_head_body, List.append_assoc]
      refine .container (by omega) (.list hhead) (readsMany_plainItems fun v hmem t => ?_)
      have := hitems v hmem
      exact ih v hmem (hv.item hmem) (by omega) t
  | map pairs ih =>
      intro d hv hd t
      have hhead := Value.head hv
      have hpairs := (@Value.depth_map_le (MAX_NESTING_DEPTH - d) pairs).mp (by omega)
      rw [plain_eq_head_body, List.append_assoc]
      refine .container (by omega) (.map hhead) (readsMany_plainPairs fun p hmem t => ?_)
      have := hpairs p hmem
      exact ⟨(ih p hmem).1 (hv.key hmem) (by omega) t, (ih p hmem).2 (hv.value hmem) (by omega) t⟩

/-- The encoding of a value that is not nested too deep decodes. -/
theorem decode_canon_of_depth {v : Value} (hv : v.Encodable) (hd : v.depth ≤ MAX_NESTING_DEPTH) :
    ∃ w, decode 64 (canon v) = .ok w := by
  have hreads := reads_plain (Value.encodable_sorted.mpr hv)
    (by rw [Value.depth_sorted, Nat.zero_add]; exact hd) []
  rw [← canon_eq_plain_sorted, List.append_nil] at hreads
  exact exists_decode_eq_ok.mpr hreads

/-! ## The limit -/

/-- Of the inputs, the decoder takes for too deep those with too many levels. -/
structure LimitExact (b : Bytes) : Prop where
  accepted : ∀ v, decode 64 b = .ok v → v.nest ≤ MAX_NESTING_DEPTH
  encoded : ∀ v, v.nest ≤ MAX_NESTING_DEPTH → encode v = .ok b →
    decode 64 b ≠ .err .nestingTooDeep

/-- **The limit is exact** but for empty lists and maps, which may stand one level past it. -/
theorem limitExact_iff {b : Bytes} (hb : b.length < 2 ^ 64) :
    LimitExact b ↔ ∀ v, Item 0 b v → ¬ HoldsEmpty MAX_NESTING_DEPTH v := by
  constructor
  · intro h v hitem hempty
    have hdepth : v.depth ≤ MAX_NESTING_DEPTH := by
      have := hitem.fits.depth
      omega
    have hnest := h.accepted v (decode_eq_ok.mpr hitem)
    have := (lt_nest_iff hdepth).mpr hempty
    omega
  · intro h
    constructor
    · intro v hv
      have hitem := decode_eq_ok.mp hv
      have hdepth : v.depth ≤ MAX_NESTING_DEPTH := by
        have := hitem.fits.depth
        omega
      by_contra hnest
      exact h v hitem ((lt_nest_iff hdepth).mp (not_le.mp hnest))
    · intro v hnest hencode herr
      obtain ⟨hints, rfl⟩ := encode_eq_ok.mp hencode
      obtain ⟨w, hw⟩ := decode_canon_of_depth ⟨hints, Value.sized_of_length_canon hb⟩
        ((Value.depth_le_nest v).trans hnest)
      rw [hw] at herr
      cases herr

/-- An empty list on its own is one level. -/
theorem limitExact_emptyList : LimitExact [0x80] := by
  apply (limitExact_iff (by decide)).mpr
  intro v hitem hempty
  have hv : decode 64 [0x80] = .ok (.list []) := by decide
  have heq := (decode_eq_ok.mpr hitem).symm.trans hv
  rw [Outcome.ok.inj heq] at hempty
  cases hempty with
  | item hmem => cases hmem

/-- An empty list inside `n` lists of one item. -/
def emptyInside : Nat → Value
  | 0 => .list []
  | n + 1 => .list [emptyInside n]

theorem nest_emptyInside (n : Nat) : (emptyInside n).nest = n + 1 := by
  induction n with
  | zero => rfl
  | succ n ih => simp [emptyInside, Value.nest, nestItems, ih]

theorem item_emptyInside : ∀ {n d : Nat}, d + n ≤ MAX_NESTING_DEPTH →
    Item d (List.replicate n 0x81 ++ [0x80]) (emptyInside n) := by
  intro n
  induction n with
  | zero =>
      intro d h
      have hhead : Head 4 0 [0x80] := @Head.mk 4 0 [] rfl
      exact .list (h := [0x80]) (by omega) hhead .nil
  | succ n ih =>
      intro d h
      have hhead : Head 4 1 [0x81] := @Head.mk 4 1 [] rfl
      have hitem := @ih (d + 1) (by omega)
      have hitems := Items.cons hitem .nil
      rw [List.append_nil] at hitems
      exact .list (h := [0x81]) (by omega) hhead hitems

/-- An empty list inside as many lists as the limit has levels is accepted. -/
theorem not_limitExact_emptyInside :
    ¬ LimitExact (List.replicate MAX_NESTING_DEPTH 0x81 ++ [0x80]) := by
  intro h
  have hitem := @item_emptyInside MAX_NESTING_DEPTH 0 (by omega)
  have hnest := h.accepted _ (decode_eq_ok.mpr hitem)
  rw [nest_emptyInside] at hnest
  omega

end Macula.Cbor
