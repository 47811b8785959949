import Macula.Cbor.Fields

/-!
# Items that start like an encoding

An item that starts a byte string which an encoding also starts is that encoding
(`Item.of_plain`).  Nothing is asked of the value that was encoded but that it can be: it may
repeat keys and nest as deep as it likes.  The item's value is the value with its repeated keys
merged, and that is the value itself when it repeats none.

So what a frame's other fields hold does not matter for one field of it: `decode_canon_get`
finds the field, in the order the encoder gives it and merged, whatever the others decode to.
-/

namespace Macula.Cbor

/-! ## Merging -/

mutual

/-- The value as it is decoded: of the entries of a map under one key, the last value stays. -/
def Value.merged : Value → Value
  | .list items => .list (mergedItems items)
  | .map pairs => .map (dedup (mergedPairs pairs))
  | v => v

def mergedItems : List Value → List Value
  | [] => []
  | v :: items => v.merged :: mergedItems items

def mergedPairs : List (Value × Value) → List (Value × Value)
  | [] => []
  | (k, v) :: pairs => (k.merged, v.merged) :: mergedPairs pairs

end

theorem mergedItems_eq (items : List Value) : mergedItems items = items.map Value.merged := by
  induction items with
  | nil => rfl
  | cons v items ih => rw [mergedItems, ih, List.map_cons]

/-- An entry with key and value merged. -/
def mergedEntry (p : Value × Value) : Value × Value := (p.1.merged, p.2.merged)

theorem mergedPairs_eq (pairs : List (Value × Value)) :
    mergedPairs pairs = pairs.map mergedEntry := by
  induction pairs with
  | nil => rfl
  | cons p pairs ih => rw [mergedPairs, ih, List.map_cons, mergedEntry]

theorem Value.merged_list (items : List Value) :
    (Value.list items).merged = .list (items.map Value.merged) := by
  rw [Value.merged, mergedItems_eq]

theorem Value.merged_map (pairs : List (Value × Value)) :
    (Value.map pairs).merged = .map (dedup (pairs.map mergedEntry)) := by
  rw [Value.merged, mergedPairs_eq]

theorem Value.merged_text (t : String) : (Value.text t).merged = .text t :=
  rfl

theorem Value.merged_eq_text {k : Value} {t : String} : k.merged = .text t ↔ k = .text t := by
  cases k <;> simp [Value.merged]

/-- Without repeated keys there is nothing to merge. -/
theorem Value.merged_of_distinctKeys {v : Value} (h : v.DistinctKeys) : v.merged = v := by
  induction v using Value.induct with
  | list items ih =>
      rw [Value.merged_list, List.map_congr_left fun v hv => ih v hv ((Value.all_list.mp h).2 v hv),
        List.map_id']
  | map pairs ih =>
      obtain ⟨hkeys, hpairs⟩ := Value.all_map.mp h
      have hsame : ∀ p ∈ pairs, mergedEntry p = p := by
        intro p hp
        rw [mergedEntry, (ih p hp).1 (hpairs p hp).1, (ih p hp).2 (hpairs p hp).2]
      rw [Value.merged_map, List.map_congr_left hsame, List.map_id', dedup_of_nodup hkeys]
  | _ => rfl

/-! ## Heads -/

theorem Value.headBytes_of_major {v : Value} (h : v.major ≠ 7) :
    v.headBytes = encodeHead v.major v.arg := by
  cases v with
  | float bits => exact absurd rfl h
  | _ => rfl

/-- A head with the major type and the argument of `u`, at the start of an encoding. -/
theorem sameHead_of_head {u v : Value} {h r r' : Bytes} (hv : v.Encodable) (hu : u.major ≠ 7)
    (hh : Head u.major u.arg h) (heq : h ++ r = plain v ++ r') :
    SameHead u v ∧ h = v.headBytes ∧ r = v.body ++ r' := by
  rw [plain_eq_head_body, List.append_assoc] at heq
  obtain ⟨hmajor, harg, hhead, hr⟩ := Head.unique u.major_lt v.major_lt hh (Value.head hv) heq
  refine ⟨sameHead_of_eq hmajor harg ?_, hhead, hr⟩
  rw [Value.headBytes_of_major hu, Value.headBytes_of_major (hmajor ▸ hu), hmajor, harg]

/-- A null or a float is all head. -/
theorem Simple.isHead {s : Bytes} {w : Value} (h : Simple s w) : ∃ n, Head 7 n s := by
  cases h with
  | null => exact ⟨_, .mk rfl⟩
  | half hlen | single hlen | double hlen => exact ⟨_, .mk (by rw [hlen]; rfl)⟩

theorem Simple.of_plain {v w : Value} {s r r' : Bytes} (hv : v.Encodable) (h : Simple s w)
    (heq : s ++ r = plain v ++ r') : (s = plain v ∧ r = r') ∧ w = v := by
  obtain ⟨n, hh⟩ := h.isHead
  rw [plain_eq_head_body, List.append_assoc] at heq
  obtain ⟨hmajor, -, hhead, hr⟩ := Head.unique (by decide) v.major_lt hh (Value.head hv) heq
  cases v with
  | null =>
      refine ⟨⟨hhead, hr⟩, ?_⟩
      cases h with
      | null => rfl
      | half hlen | single hlen | double hlen =>
          exact absurd (congrArg List.length hhead)
            (by simp [hlen, Value.headBytes, encodeHead, Value.arg])
  | float bits =>
      refine ⟨⟨by simp [hhead, plain_eq_head_body, Value.body], hr⟩, ?_⟩
      cases h with
      | null => exact absurd (congrArg List.length hhead) (by simp [Value.headBytes])
      | half hlen | single hlen =>
          exact absurd (congrArg List.length hhead) (by simp [hlen, Value.headBytes])
      | double hlen =>
          have htail := (List.cons.inj hhead).2
          rw [htail, ofBe_beBytes bits.toNat_lt, UInt64.ofNat_toNat]
  | int n =>
      simp only [Value.major] at hmajor
      split at hmajor <;> exact absurd hmajor (by decide)
  | bytes _ | text _ | list _ | map _ =>
      simp only [Value.major] at hmajor
      exact absurd hmajor (by decide)

theorem Scalar.of_plain {v w : Value} {s r r' : Bytes} (hv : v.Encodable) (h : Scalar s w)
    (heq : s ++ r = plain v ++ r') : (s = plain v ∧ r = r') ∧ w = v := by
  cases h with
  | @uint n h hh =>
      have hu : (Value.int n).major = 0 := by simp [Value.major]
      have harg : (Value.int n).arg = n := by simp [Value.arg]
      obtain ⟨hsame, hhead, hr⟩ := sameHead_of_head hv (by rw [hu]; decide)
        (by rw [hu, harg]; exact hh) heq
      cases hsame
      exact ⟨⟨by simp [hhead, plain_eq_head_body, Value.body], hr⟩, rfl⟩
  | @nint n h hh =>
      have hu : (Value.int (-1 - n)).major = 1 := by
        rw [Value.major, if_neg (by omega)]
      have harg : (Value.int (-1 - n)).arg = n := by
        rw [Value.arg, if_neg (by omega)]
        omega
      obtain ⟨hsame, hhead, hr⟩ := sameHead_of_head hv (by rw [hu]; decide)
        (by rw [hu, harg]; exact hh) heq
      cases hsame
      exact ⟨⟨by simp [hhead, plain_eq_head_body, Value.body], hr⟩, rfl⟩
  | @bytes b h hh =>
      rw [List.append_assoc] at heq
      obtain ⟨hsame, hhead, hr⟩ := @sameHead_of_head (.bytes b) _ _ _ _ hv
        (show (2 : UInt8) ≠ 7 by decide) hh heq
      cases hsame with
      | bytes hlen =>
          obtain ⟨rfl, rfl⟩ := List.append_inj hr hlen
          exact ⟨⟨by rw [hhead, plain_eq_head_body, Value.body], rfl⟩, rfl⟩
  | @text t h hh =>
      rw [List.append_assoc] at heq
      obtain ⟨hsame, hhead, hr⟩ := @sameHead_of_head (.text t) _ _ _ _ hv
        (show (3 : UInt8) ≠ 7 by decide) hh heq
      cases hsame with
      | text hlen =>
          obtain ⟨ht, rfl⟩ := List.append_inj hr hlen
          obtain rfl := Utf8.bytes_inj ht
          exact ⟨⟨by rw [hhead, plain_eq_head_body, Value.body], rfl⟩, rfl⟩

/-! ## Items -/

theorem Simple.merged {s : Bytes} {w : Value} (h : Simple s w) : w.merged = w := by
  cases h <;> rfl

theorem Scalar.merged {s : Bytes} {w : Value} (h : Scalar s w) : w.merged = w := by
  cases h <;> rfl

mutual

/-- **An item at the start of an encoding is that encoding.** -/
theorem Item.of_plain : ∀ {v w : Value} {d : Nat} {s r r' : Bytes}, v.Encodable → Item d s w →
    s ++ r = plain v ++ r' → (s = plain v ∧ r = r') ∧ w = v.merged
  | _, _, _, _, _, _, hv, .simple _ h, heq => by
      obtain ⟨hbytes, rfl⟩ := h.of_plain hv heq
      exact ⟨hbytes, h.merged.symm⟩
  | _, _, _, _, _, _, hv, .scalar _ h, heq => by
      obtain ⟨hbytes, rfl⟩ := h.of_plain hv heq
      exact ⟨hbytes, h.merged.symm⟩
  | _, _, _, _, _, _, hv, @Item.list _ _ _ items _ hh hitems, heq => by
      rw [List.append_assoc] at heq
      obtain ⟨hsame, hhead, hr⟩ := @sameHead_of_head (.list items) _ _ _ _ hv
        (show (4 : UInt8) ≠ 7 by decide) hh heq
      cases hsame with
      | list hlen =>
          obtain ⟨⟨rfl, rfl⟩, hsame⟩ := Items.of_plain (fun _ hw => hv.item hw) hitems hlen hr
          refine ⟨⟨by rw [hhead, plain_eq_head_body, Value.body], rfl⟩, ?_⟩
          rw [hsame, Value.merged_list]
  | _, _, _, _, _, _, hv, @Item.map _ _ _ entries _ hh hentries, heq => by
      rw [List.append_assoc] at heq
      obtain ⟨hsame, hhead, hr⟩ := @sameHead_of_head (.map entries) _ _ _ _ hv
        (show (5 : UInt8) ≠ 7 by decide) hh heq
      cases hsame with
      | map hlen =>
          obtain ⟨⟨rfl, rfl⟩, hsame⟩ :=
            Entries.of_plain (fun _ hp => ⟨hv.key hp, hv.value hp⟩) hentries hlen hr
          refine ⟨⟨by rw [hhead, plain_eq_head_body, Value.body], rfl⟩, ?_⟩
          rw [hsame, Value.merged_map]

theorem Items.of_plain : ∀ {items items' : List Value} {d : Nat} {s r r' : Bytes},
    (∀ v ∈ items', v.Encodable) → Items d s items → items.length = items'.length →
      s ++ r = plainItems items' ++ r' →
        (s = plainItems items' ∧ r = r') ∧ items = items'.map Value.merged
  | _, [], _, _, _, _, _, .nil, _, heq => ⟨⟨rfl, heq⟩, rfl⟩
  | _, v :: items', _, _, _, _, h, .cons hitem hitems, hlen, heq => by
      obtain ⟨hv, hitems'⟩ := List.forall_mem_cons.mp h
      rw [plainItems, List.append_assoc, List.append_assoc] at heq
      obtain ⟨⟨rfl, hrest⟩, hw⟩ := hitem.of_plain hv heq
      obtain ⟨⟨rfl, rfl⟩, htail⟩ := hitems.of_plain hitems' (by simpa using hlen) hrest
      refine ⟨⟨by rw [plainItems], rfl⟩, ?_⟩
      rw [hw, htail, List.map_cons]

theorem Entries.of_plain : ∀ {entries pairs : List (Value × Value)} {d : Nat} {s r r' : Bytes},
    (∀ p ∈ pairs, p.1.Encodable ∧ p.2.Encodable) → Entries d s entries →
      entries.length = pairs.length → s ++ r = plainPairs pairs ++ r' →
        (s = plainPairs pairs ∧ r = r') ∧ entries = pairs.map mergedEntry
  | _, [], _, _, _, _, _, .nil, _, heq => ⟨⟨rfl, heq⟩, rfl⟩
  | _, p :: pairs, _, _, _, _, h, .cons hkey hvalue hentries, hlen, heq => by
      obtain ⟨⟨hk, hv⟩, hpairs⟩ := List.forall_mem_cons.mp h
      simp only [plainPairs, List.append_assoc] at heq
      obtain ⟨⟨rfl, hafterKey⟩, hkey'⟩ := hkey.of_plain hk heq
      obtain ⟨⟨rfl, hrest⟩, hvalue'⟩ := hvalue.of_plain hv hafterKey
      obtain ⟨⟨rfl, rfl⟩, htail⟩ := hentries.of_plain hpairs (by simpa using hlen) hrest
      refine ⟨⟨by rw [plainPairs], rfl⟩, ?_⟩
      rw [hkey', hvalue', htail, List.map_cons, mergedEntry]

end

/-- A value that was encoded is decoded in key order and merged. -/
theorem decode_canon_eq {v w : Value} (hv : v.Encodable) (h : decode 64 (canon v) = .ok w) :
    w = v.sorted.merged := by
  have hitem := decode_eq_ok.mp h
  rw [canon_eq_plain_sorted] at hitem
  exact (@Item.of_plain _ _ _ _ [] [] (Value.encodable_sorted.mpr hv) hitem rfl).2

/-! ## Fields of a map that was encoded -/

/-- A map under distinct text keys, as every frame is. -/
structure Value.IsFrame (v : Value) : Prop where
  isMap : ∃ pairs, v = .map pairs ∧ (entryKeys pairs).Nodup ∧ ∀ p ∈ pairs, ∃ t, p.1 = .text t

theorem Value.Record.isFrame {n : Nat} {v : Value} (h : v.Record n) : v.IsFrame := by
  obtain ⟨pairs, rfl, hkeys, hpairs⟩ := h.isMap
  exact ⟨pairs, rfl, hkeys, fun p hp => (hpairs p hp).1.imp fun _ ht => ht.1⟩

/-- **A field is decoded as it was encoded**, its maps in key order and merged, whatever else the
map holds. -/
theorem decode_canon_get {v w : Value} {key : String} (hframe : v.IsFrame) (hv : v.Encodable)
    (hdecode : decode 64 (canon v) = .ok w) :
    w.get key = (v.get key).map fun x => x.sorted.merged := by
  obtain ⟨pairs, rfl, hkeys, htext⟩ := hframe.isMap
  obtain rfl := decode_canon_eq hv hdecode
  rw [Value.sorted_map, Value.merged_map]
  have hsame : ∀ p ∈ keySort entryKey (pairs.map sortedEntry),
      entryKey (mergedEntry p) = entryKey p := by
    intro p hp
    obtain ⟨q, hq, rfl⟩ := List.mem_map.mp ((mem_keySort entryKey).mp hp)
    obtain ⟨t, ht⟩ := htext q hq
    simp only [entryKey, mergedEntry, sortedEntry, ht, Value.sorted_text, Value.merged_text]
  have hnodup : (entryKeys ((keySort entryKey (pairs.map sortedEntry)).map mergedEntry)).Nodup := by
    have hkeysSame : entryKeys ((keySort entryKey (pairs.map sortedEntry)).map mergedEntry) =
        entryKeys (keySort entryKey (pairs.map sortedEntry)) := by
      rw [entryKeys, List.map_map]
      exact List.map_congr_left hsame
    rw [hkeysSame]
    exact (entryKeys_sorted pairs).nodup_iff.mpr hkeys
  rw [dedup_of_nodup hnodup]
  have hmem : ∀ p, p ∈ (keySort entryKey (pairs.map sortedEntry)).map mergedEntry ↔
      ∃ q ∈ pairs, mergedEntry (sortedEntry q) = p := by
    intro p
    simp only [List.mem_map, mem_keySort, exists_exists_and_eq_and]
  cases hget : (Value.map pairs).get key with
  | some x =>
      refine get_of_mem hnodup ((hmem _).mpr ⟨_, mem_of_get hget, ?_⟩)
      rw [sortedEntry, mergedEntry, Value.sorted_text, Value.merged_text]
  | none =>
      rw [Option.map_none, Option.eq_none_iff_forall_ne_some]
      intro y hy
      obtain ⟨q, hq, heq⟩ := (hmem _).mp (mem_of_get hy)
      have hkey : q.1 = .text key := by
        have h : q.1.sorted.merged = .text key := congrArg Prod.fst heq
        rwa [Value.merged_eq_text, Value.sorted_eq_text] at h
      have hfound := get_of_mem hkeys (hkey ▸ hq : (.text key, q.2) ∈ pairs)
      rw [hget] at hfound
      cases hfound

end Macula.Cbor
