import Macula.Cbor.RoundTrip

/-!
# Fields of a value that was read back

A frame is a map, and a peer reads it with its entries sorted.  Reading a field finds the
same one (`get_sorted`) and removing fields leaves a value with the same encoding
(`canon_without_sorted`), both because no key occurs twice.  So a signature over the rest
of a frame is one over the rest of the sorted frame.
-/

namespace Macula.Cbor

theorem Value.sorted_eq_text {k : Value} {t : String} : k.sorted = .text t ↔ k = .text t := by
  cases k <;> simp

theorem Value.sorted_eq_bytes {k : Value} {b : Bytes} : k.sorted = .bytes b ↔ k = .bytes b := by
  cases k <;> simp

theorem Value.isText_sorted (k : Value) (t : String) : k.sorted.isText t = k.isText t := by
  rw [Bool.eq_iff_iff, Value.isText_iff, Value.isText_iff, Value.sorted_eq_text]

/-- An entry under a key that occurs once is the one a lookup finds. -/
theorem get_of_mem {key : String} {v : Value} : ∀ {pairs : List (Value × Value)},
    (entryKeys pairs).Nodup → (.text key, v) ∈ pairs → (Value.map pairs).get key = some v
  | (k, w) :: pairs, hkeys, hmem => by
      rw [entryKeys_cons, List.nodup_cons] at hkeys
      rw [Value.get_map, List.find?_cons]
      rcases List.mem_cons.mp hmem with heq | htail
      · obtain ⟨rfl, rfl⟩ := Prod.mk.inj heq
        have hself : (Value.text key).isText key = true := Value.isText_iff.mpr rfl
        rw [hself]
        rfl
      · have hk : k.isText key = false := by
          rw [Bool.eq_false_iff]
          intro hk
          rw [Value.isText_iff] at hk
          subst hk
          exact hkeys.1 (List.mem_map.mpr ⟨(.text key, v), htail, rfl⟩)
        rw [hk]
        exact get_of_mem hkeys.2 htail

theorem mem_of_get {key : String} {v : Value} {pairs : List (Value × Value)}
    (h : (Value.map pairs).get key = some v) : (.text key, v) ∈ pairs := by
  rw [Value.get_map, Option.map_eq_some_iff] at h
  obtain ⟨p, hfind, rfl⟩ := h
  have hp : p.1.isText key = true := @List.find?_some _ _ p pairs hfind
  rw [← Value.isText_iff.mp hp]
  exact List.mem_of_find?_eq_some hfind

/-- A field is found again in the sorted value. -/
theorem get_sorted {v w : Value} {key : String} (hv : v.DistinctKeys) (h : v.get key = some w) :
    v.sorted.get key = some w.sorted := by
  cases v with
  | map pairs =>
      have hkeys : (entryKeys pairs).Nodup := (Value.all_map.mp hv).1
      rw [Value.sorted_map]
      refine get_of_mem ((entryKeys_sorted pairs).nodup_iff.mpr hkeys) ?_
      rw [mem_keySort]
      exact List.mem_map.mpr ⟨_, mem_of_get h, by rw [sortedEntry, Value.sorted_text]⟩
  | _ => cases h

/-- A value and its sorted form have the same fields. -/
theorem get_sorted_eq {v : Value} (hv : v.DistinctKeys) (key : String) :
    v.sorted.get key = (v.get key).map Value.sorted := by
  cases hget : v.get key with
  | some w => exact get_sorted hv hget
  | none =>
      rw [Option.map_none, Option.eq_none_iff_forall_ne_some]
      intro w hw
      cases v with
      | map pairs =>
          rw [Value.sorted_map] at hw
          obtain ⟨p, hp, heq⟩ := List.mem_map.mp ((mem_keySort entryKey).mp (mem_of_get hw))
          have hkey : p.1 = .text key := Value.sorted_eq_text.mp (congrArg Prod.fst heq)
          have hentry : (.text key, p.2) ∈ pairs := by
            rw [← hkey]
            exact hp
          have hfind := get_of_mem (Value.all_map.mp hv).1 hentry
          rw [hget] at hfind
          cases hfind
      | _ => simp [Value.get] at hw

theorem get_sorted_eq_text {v : Value} (hv : v.DistinctKeys) {key t : String} :
    v.sorted.get key = some (.text t) ↔ v.get key = some (.text t) := by
  rw [get_sorted_eq hv, Option.map_eq_some_iff]
  constructor
  · rintro ⟨w, hw, hsorted⟩
    rw [hw, Value.sorted_eq_text.mp hsorted]
  · intro h
    exact ⟨_, h, Value.sorted_text t⟩

/-- Removing fields leaves the others alone. -/
theorem Value.get_without {key : String} {keys : List String} (h : key ∉ keys) (v : Value) :
    (v.without keys).get key = v.get key := by
  cases v with
  | map pairs =>
      rw [Value.without, Value.get_map, Value.get_map, List.find?_filter]
      congr 2
      funext p
      cases hp : p.1.isText key with
      | false => simp
      | true =>
          have hkeep : (keys.any fun k => p.1.isText k) = false := by
            rw [List.any_eq_false]
            intro k hk hpk
            rw [Value.isText_iff] at hp hpk
            rw [hp] at hpk
            cases hpk
            exact h hk
          rw [hkeep]
          rfl
  | _ => rfl

/-- Removing fields keeps what holds inside a value, if it also holds of fewer entries. -/
theorem Value.all_without {P : Value → Prop} {v : Value} {keys : List String}
    (hsub : ∀ {pairs pairs' : List (Value × Value)}, pairs'.Sublist pairs → P (.map pairs) →
      P (.map pairs')) (h : v.All P) : (v.without keys).All P := by
  cases v with
  | map pairs =>
      obtain ⟨hself, hpairs⟩ := Value.all_map.mp h
      exact Value.all_map.mpr
        ⟨hsub List.filter_sublist hself, fun p hp => hpairs p (List.mem_of_mem_filter hp)⟩
  | _ => exact h

theorem Value.inRange_without {v : Value} {keys : List String} (h : v.IntsInRange) :
    (v.without keys).IntsInRange :=
  Value.all_without (fun _ _ => trivial) h

theorem Value.sized_without {v : Value} {keys : List String} (h : v.Sized) :
    (v.without keys).Sized :=
  Value.all_without (fun hsub hlen => hsub.length_le.trans_lt hlen) h

theorem Value.distinctKeys_without {v : Value} {keys : List String} (h : v.DistinctKeys) :
    (v.without keys).DistinctKeys :=
  Value.all_without (fun hsub hkeys => hkeys.sublist (hsub.map _)) h

/-- Removing fields before or after sorting gives the same bytes. -/
theorem canon_without_sorted {v : Value} {keys : List String} (hv : v.DistinctKeys) :
    canon (v.sorted.without keys) = canon (v.without keys) := by
  cases v with
  | map pairs =>
      have hkeys : (entryKeys pairs).Nodup := (Value.all_map.mp hv).1
      let keep : Value × Value → Bool := fun p => !keys.any fun key => p.1.isText key
      have hkeep : ∀ p, keep (sortedEntry p) = keep p := by
        intro p
        simp only [keep, sortedEntry, Value.isText_sorted]
      have hfilter : (pairs.map sortedEntry).filter keep = (pairs.filter keep).map sortedEntry := by
        rw [List.filter_map]
        congr 1
        exact List.filter_congr fun p _ => hkeep p
      have hentry : ∀ l : List (Value × Value), (l.map sortedEntry).map canonEntry =
          l.map canonEntry := by
        intro l
        rw [List.map_map]
        refine List.map_congr_left fun p _ => ?_
        simp only [Function.comp, canonEntry, sortedEntry, canon_sorted]
      have hperm : (((keySort entryKey (pairs.map sortedEntry)).filter keep).map canonEntry).Perm
          ((pairs.filter keep).map canonEntry) := by
        refine ((((keySort_perm entryKey _).filter keep)).map canonEntry).trans ?_
        rw [hfilter, hentry]
      have hnodup : (((pairs.filter keep).map canonEntry).map Prod.fst).Nodup := by
        rw [List.map_map]
        exact hkeys.sublist (List.filter_sublist.map _)
      have hnodup' := (hperm.map Prod.fst).nodup_iff.mpr hnodup
      have hsorted := keySort_eq_of_perm Prod.fst hperm hnodup'
      have hlen := hperm.length_eq
      rw [List.length_map, List.length_map] at hlen
      rw [Value.sorted_map]
      change canon (.map ((keySort entryKey (pairs.map sortedEntry)).filter keep)) =
        canon (.map (pairs.filter keep))
      rw [canon_map, canon_map, sortedEntries, sortedEntries, hsorted, hlen]
  | list items =>
      rw [Value.sorted_list]
      change canon (.list (items.map Value.sorted)) = canon (.list items)
      rw [← Value.sorted_list, canon_sorted]
  | _ => simp [Value.without]

/-! ## Maps built field by field -/

/-- A text that fits the format is the only value with its encoding among texts. -/
theorem canon_text_inj {s t : String} (hs : (Utf8.bytes s).length < 2 ^ 64)
    (ht : (Utf8.bytes t).length < 2 ^ 64) (h : canon (.text s) = canon (.text t)) : s = t := by
  have henc : ∀ {u : String}, (Utf8.bytes u).length < 2 ^ 64 → (Value.text u).Encodable :=
    fun hu => ⟨Value.inRange_text _, Value.all_text.mpr hu⟩
  have heq := (canon_eq_canon_iff (henc hs) (henc ht)).mp h
  simpa using heq

/-- A value to put under a field: in range, repeating no key, at most `n` deep. -/
structure Value.Within (n : Nat) (v : Value) : Prop where
  ints : v.IntsInRange
  distinct : v.DistinctKeys
  depth : v.depth ≤ n

theorem Value.within_int {i : Int} (n : Nat) (h : IntOk (.int i)) : (Value.int i).Within n :=
  ⟨Value.all_int.mpr h, Value.all_int.mpr trivial, Nat.zero_le n⟩

theorem Value.within_bytes (n : Nat) (b : Bytes) : (Value.bytes b).Within n :=
  ⟨Value.inRange_bytes b, Value.all_bytes.mpr trivial, Nat.zero_le n⟩

theorem Value.within_text (n : Nat) (t : String) : (Value.text t).Within n :=
  ⟨Value.inRange_text t, Value.all_text.mpr trivial, Nat.zero_le n⟩

theorem Value.within_null (n : Nat) : Value.null.Within n :=
  ⟨Value.inRange_null, Value.all_null.mpr trivial, Nat.zero_le n⟩

theorem Value.Within.mono {m n : Nat} {v : Value} (h : v.Within m) (hmn : m ≤ n) : v.Within n :=
  ⟨h.ints, h.distinct, h.depth.trans hmn⟩

/-- The order of entries does not matter for what can be put under a field. -/
theorem Value.Within.of_sorted_eq {n : Nat} {v w : Value} (h : v.Within n)
    (heq : w.sorted = v.sorted) : w.Within n where
  ints := Value.inRange_sorted.mp (heq ▸ Value.inRange_sorted.mpr h.ints)
  distinct := Value.distinctKeys_sorted.mp (heq ▸ Value.distinctKeys_sorted.mpr h.distinct)
  depth := by
    rw [← Value.depth_sorted, heq, Value.depth_sorted]
    exact h.depth

/-- A key that is a text of the format. -/
def TextKey (k : Value) : Prop := ∃ t, k = .text t ∧ (Utf8.bytes t).length < 2 ^ 64

/-- A map under distinct text keys, with values at most `n` deep. -/
structure Value.Record (n : Nat) (v : Value) : Prop where
  isMap : ∃ pairs, v = .map pairs ∧ (entryKeys pairs).Nodup ∧
    ∀ p ∈ pairs, TextKey p.1 ∧ p.2.Within n

theorem Value.Record.within {n : Nat} {v : Value} (h : v.Record n) : v.Within (n + 1) := by
  obtain ⟨pairs, rfl, hkeys, hpairs⟩ := h.isMap
  have hkey : ∀ p ∈ pairs, p.1.Within n := by
    intro p hp
    obtain ⟨t, ht, -⟩ := (hpairs p hp).1
    rw [ht]
    exact Value.within_text n t
  refine ⟨Value.inRange_map.mpr fun p hp => ⟨(hkey p hp).ints, (hpairs p hp).2.ints⟩,
    Value.all_map.mpr ⟨hkeys, fun p hp => ⟨(hkey p hp).distinct, (hpairs p hp).2.distinct⟩⟩,
    Value.depth_map_le.mpr fun p hp => ?_⟩
  exact ⟨Nat.succ_le_succ (hkey p hp).depth, Nat.succ_le_succ (hpairs p hp).2.depth⟩

/-- A map written out under different field names. -/
theorem Value.Record.of_fields {n : Nat} (keys : List String) (fields : List (String × Value))
    (hkeys : fields.map Prod.fst = keys) (hnodup : keys.Nodup)
    (hlen : ∀ key ∈ keys, (Utf8.bytes key).length < 2 ^ 64)
    (hvalues : ∀ v ∈ fields.map Prod.snd, v.Within n) :
    (Value.map (fields.map fun f => (.text f.1, f.2))).Record n := by
  subst hkeys
  simp only [List.forall_mem_map] at hlen hvalues
  refine ⟨⟨_, rfl, ?_, ?_⟩⟩
  · rw [entryKeys, List.map_map]
    refine (List.pairwise_map.mp hnodup).imp_of_mem ?_ |> List.pairwise_map.mpr
    intro f f' hf hf' hne heq
    exact hne (canon_text_inj (hlen f hf) (hlen f' hf') heq)
  · rw [List.forall_mem_map]
    intro f hf
    exact ⟨⟨f.1, rfl, hlen f hf⟩, hvalues f hf⟩

theorem setField_record {n : Nat} {key : String} {value : Value}
    (hkey : (Utf8.bytes key).length < 2 ^ 64) (hvalue : value.Within n) :
    ∀ {pairs : List (Value × Value)}, (entryKeys pairs).Nodup →
      (∀ p ∈ pairs, TextKey p.1 ∧ p.2.Within n) →
      (entryKeys (setField key value pairs)).Nodup ∧
        (∀ p ∈ setField key value pairs, TextKey p.1 ∧ p.2.Within n) ∧
        ∀ k ∈ entryKeys (setField key value pairs),
          k ∈ entryKeys pairs ∨ k = canon (.text key) := by
  intro rest
  induction rest with
  | nil =>
      intro _ _
      refine ⟨List.nodup_singleton _, ?_, fun k hk => .inr (List.mem_singleton.mp hk)⟩
      exact List.forall_mem_cons.mpr ⟨⟨⟨key, rfl, hkey⟩, hvalue⟩, nofun⟩
  | cons p rest ih =>
      obtain ⟨k, v⟩ := p
      intro hnodup hpairs
      rw [entryKeys_cons, List.nodup_cons] at hnodup
      obtain ⟨⟨⟨t, ht, hlen⟩, hv⟩, hrest⟩ := List.forall_mem_cons.mp hpairs
      rw [setField]
      split
      · refine ⟨?_, List.forall_mem_cons.mpr ⟨⟨⟨t, ht, hlen⟩, hvalue⟩, hrest⟩,
          fun k' hk' => .inl hk'⟩
        rw [entryKeys_cons, List.nodup_cons]
        exact hnodup
      · next hne =>
          obtain ⟨hnodup', hpairs', hkeys'⟩ := ih hnodup.2 hrest
          refine ⟨?_, List.forall_mem_cons.mpr ⟨⟨⟨t, ht, hlen⟩, hv⟩, hpairs'⟩, ?_⟩
          · rw [entryKeys_cons, List.nodup_cons]
            refine ⟨fun hmem => ?_, hnodup'⟩
            rcases hkeys' _ hmem with hold | hnew
            · exact hnodup.1 hold
            · have hcanon : canon (.text t) = canon (.text key) := ht ▸ hnew
              refine hne (Value.isText_iff.mpr ?_)
              rw [← canon_text_inj hlen hkey hcanon]
              exact ht
          · intro k' hk'
            rw [entryKeys_cons] at hk' ⊢
            rcases List.mem_cons.mp hk' with rfl | hk'
            · exact .inl List.mem_cons_self
            · exact (hkeys' k' hk').imp_left (List.mem_cons_of_mem _)

/-- Setting a field keeps a map a record. -/
theorem Value.Record.withField {n : Nat} {v value : Value} {key : String} (h : v.Record n)
    (hkey : (Utf8.bytes key).length < 2 ^ 64) (hvalue : value.Within n) :
    (v.withField key value).Record n := by
  obtain ⟨pairs, rfl, hkeys, hpairs⟩ := h.isMap
  obtain ⟨hkeys', hpairs', -⟩ := setField_record hkey hvalue hkeys hpairs
  exact ⟨_, rfl, hkeys', hpairs'⟩

/-! ## Ranges and lengths -/

/-- What holds inside a value holds inside each of its fields. -/
theorem Value.all_get {P : Value → Prop} {v w : Value} {key : String} (hv : v.All P)
    (h : v.get key = some w) : w.All P := by
  cases v with
  | map pairs => exact ((Value.all_map.mp hv).2 _ (mem_of_get h)).2
  | _ => cases h

theorem Value.inRange_get {v w : Value} {key : String} (hv : v.IntsInRange)
    (h : v.get key = some w) : w.IntsInRange :=
  Value.all_get hv h

theorem Value.sized_get {v w : Value} {key : String} (hv : v.Sized) (h : v.get key = some w) :
    w.Sized :=
  Value.all_get hv h

theorem Value.distinctKeys_get {v w : Value} {key : String} (hv : v.DistinctKeys)
    (h : v.get key = some w) : w.DistinctKeys :=
  Value.all_get hv h

theorem Value.inRange_withField {v value : Value} {key : String} (hv : v.IntsInRange)
    (hvalue : value.IntsInRange) : (v.withField key value).IntsInRange := by
  cases v with
  | map pairs =>
      have hpairs := Value.inRange_map.mp hv
      refine Value.inRange_map.mpr ?_
      clear hv
      induction pairs with
      | nil => exact List.forall_mem_cons.mpr ⟨⟨Value.inRange_text key, hvalue⟩, nofun⟩
      | cons p rest ih =>
          obtain ⟨hp, hrest⟩ := List.forall_mem_cons.mp hpairs
          rw [setField]
          split
          · exact List.forall_mem_cons.mpr ⟨⟨hp.1, hvalue⟩, hrest⟩
          · exact List.forall_mem_cons.mpr ⟨hp, ih hrest⟩
  | _ => exact hv

/-- A 64-bit count is an integer CBOR has room for. -/
theorem Value.inRange_u64 (n : UInt64) : (Value.int n.toNat).IntsInRange := by
  have hn := n.toNat_lt
  exact Value.all_int.mpr ⟨by omega, by omega⟩

theorem Value.within_u64 (d : Nat) (n : UInt64) : (Value.int n.toNat).Within d :=
  Value.within_int d (Value.all_int.mp (Value.inRange_u64 n))

/-- The order of the entries does not change how long a map is. -/
theorem length_canon_map (pairs : List (Value × Value)) : (canon (.map pairs)).length =
    (encodeHead 5 pairs.length).length +
      (pairs.map fun p => (canon p.1).length + (canon p.2).length).sum := by
  rw [canon_map, List.length_append, sortedEntries, List.length_flatMap]
  have hperm := (keySort_perm Prod.fst (pairs.map canonEntry)).map fun p => (p.1 ++ p.2).length
  rw [hperm.sum_nat, List.map_map]
  simp only [Function.comp_def, canonEntry, List.length_append]

/-- How long a map is depends on how long a field's value is, and on nothing else about it. -/
theorem length_canon_withField {v x y : Value} (h : (canon x).length = (canon y).length)
    (key : String) :
    (canon (v.withField key x)).length = (canon (v.withField key y)).length := by
  have hfields : ∀ pairs : List (Value × Value),
      (setField key x pairs).length = (setField key y pairs).length ∧
        ((setField key x pairs).map fun p => (canon p.1).length + (canon p.2).length) =
          (setField key y pairs).map fun p => (canon p.1).length + (canon p.2).length := by
    intro pairs
    induction pairs with
    | nil => simp [setField, h]
    | cons p pairs ih =>
        rw [setField, setField]
        split
        · simp [h]
        · simp [ih.1, ih.2]
  cases v with
  | map pairs =>
      rw [Value.withField, Value.withField, length_canon_map, length_canon_map,
        (hfields pairs).1, (hfields pairs).2]
  | _ => rfl

/-- A field is no longer than the map it is in. -/
theorem length_canon_get_le {v w : Value} {key : String} (h : v.get key = some w) :
    (canon w).length ≤ (canon v).length := by
  cases v with
  | map pairs =>
      obtain ⟨before, after, rfl⟩ := List.append_of_mem (mem_of_get h)
      rw [length_canon_map]
      simp only [List.map_append, List.map_cons, List.sum_append, List.sum_cons]
      omega
  | _ => cases h

theorem length_encodeHead_le (major : UInt8) (n : Nat) : (encodeHead major n).length ≤ 9 := by
  unfold encodeHead
  repeat' split
  all_goals simp

theorem length_canon_int_le (n : Int) : (canon (.int n)).length ≤ 9 := by
  rw [canon, canonInt]
  split <;> exact length_encodeHead_le _ _

theorem length_canon_bytes_le (b : Bytes) : (canon (.bytes b)).length ≤ 9 + b.length := by
  rw [canon, List.length_append]
  exact Nat.add_le_add_right (length_encodeHead_le _ _) _

theorem length_canon_list_le (items : List Value) :
    (canon (.list items)).length ≤ 9 + (items.map fun v => (canon v).length).sum := by
  rw [canon_list, List.length_append, List.length_flatMap]
  exact Nat.add_le_add_right (length_encodeHead_le _ _) _

/-- A map is as long as its keys and its values, and a head. -/
theorem length_canon_map_le {pairs : List (Value × Value)} {k v : Nat}
    (hkeys : (pairs.map fun p => (canon p.1).length).sum ≤ k)
    (hvalues : (pairs.map fun p => (canon p.2).length).sum ≤ v) :
    (canon (.map pairs)).length ≤ 9 + k + v := by
  have hsum : (pairs.map fun p => (canon p.1).length + (canon p.2).length).sum =
      (pairs.map fun p => (canon p.1).length).sum +
        (pairs.map fun p => (canon p.2).length).sum := by
    clear hkeys hvalues
    induction pairs with
    | nil => rfl
    | cons p pairs ih =>
        simp only [List.map_cons, List.sum_cons, ih]
        omega
  have hhead := length_encodeHead_le 5 pairs.length
  rw [length_canon_map, hsum]
  omega

theorem length_canon_arr {n : Nat} (a : ByteArr n) :
    (canon (.bytes a.1)).length = (encodeHead 2 n).length + n := by
  rw [canon, List.length_append, a.2]

end Macula.Cbor
