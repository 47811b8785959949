import Macula.Dht
import Macula.Frame.Event
import Macula.Frame.Frames
import Macula.Frame.Hello
import Macula.Manifest.Create

/-!
# What a peer sends

Everything a peer sends is decoded before it is looked at.  Decoding returns, and every value
it returns has its integers in range (`Received.ints`), which is all that the `expect`s
behind it need: a signature is checked over bytes that are encoded again, and so is a record.
The parsers only read fields.

A manifest is trusted for two numbers.  `from_wire` has compared its `chunk_count` with the
chunks it lists and refused a `chunk_size` of zero.
-/

namespace Macula

open Macula.Cbor (Value)

/-- A value a peer can hand over: a frame, a field of one, or an item of a list in one. -/
inductive Received : Value → Prop where
  | frame {buf : Bytes} {v : Value} {n : Nat} (h : Frame.decode buf = .ok (.frame v n)) :
      Received v
  | field {v w : Value} {key : String} (hv : Received v) (h : v.get key = some w) : Received w
  | item {items : List Value} {w : Value} (hv : Received (.list items)) (h : w ∈ items) :
      Received w

theorem Received.ints {v : Value} (h : Received v) : v.IntsInRange := by
  induction h with
  | frame h => exact (Frame.decode_frame_fits h).encodable.ints
  | field hv h ih => exact Value.inRange_get ih h
  | item hv h ih => exact (Value.all_list.mp ih).2 _ h

/-! ## Signatures -/

namespace Frame

variable (E : Ed25519)

theorem signableBytes_ne_panicked {ε : Type} {v : Value} (h : v.IntsInRange) :
    (signableBytes v : Outcome ε Bytes) ≠ .panicked := by
  have hsignable : (signableBytes v : Outcome ε Bytes) = .ok _ :=
    signableBytes_eq_ok.mpr ⟨Value.inRange_without h, rfl⟩
  rw [hsignable]
  nofun

theorem verify_ne_panicked {v : Value} (h : v.IntsInRange) (pubkey : NodeId) :
    verify E v pubkey ≠ .panicked := by
  have hsig : signatureField v ≠ .panicked := by
    unfold signatureField
    split <;> simp
  refine Outcome.bind_ne_panicked hsig fun sig _ => ?_
  refine Outcome.bind_ne_panicked (signableBytes_ne_panicked h) fun signable _ => ?_
  split <;> nofun

theorem publisherSigningBytes_ne_panicked {ε : Type} {v : Value} (h : v.IntsInRange) :
    (publisherSigningBytes v : Outcome ε Bytes) ≠ .panicked := by
  rw [publisherSigningBytes, Cbor.encode_of_inRange (publisherFields_inRange h)]
  simp [Outcome.expectOk]

theorem verifyPublisher_ne_panicked {v : Value} (h : v.IntsInRange) :
    verifyPublisher E v ≠ .panicked := by
  have hsig : publisherSigField v ≠ .panicked := by
    unfold publisherSigField
    split <;> simp
  have hkey : publisherField v ≠ .panicked := by
    unfold publisherField
    split <;> simp
  refine Outcome.bind_ne_panicked hsig fun sig _ => ?_
  refine Outcome.bind_ne_panicked hkey fun pubkey _ => ?_
  refine Outcome.bind_ne_panicked (publisherSigningBytes_ne_panicked h) fun signable _ => ?_
  split <;> nofun

/-! ## Parsers -/

theorem textField_ne_panicked {ε : Type} {missing wrong : String → ε} {v : Value}
    {field : String} : textField missing wrong v field ≠ .panicked := by
  unfold textField
  split <;> simp

theorem intField_ne_panicked {ε : Type} {missing wrong : String → ε} {v : Value}
    {field : String} : intField missing wrong v field ≠ .panicked := by
  unfold intField
  split <;> nofun

theorem bytes32Items_ne_panicked (field : String) : ∀ items : List Value,
    bytes32Items field items ≠ .panicked := by
  intro items
  induction items with
  | nil => nofun
  | cons v items ih =>
      have hitem : bytes32Item field v ≠ .panicked := by
        unfold bytes32Item
        split <;> simp
      refine Outcome.bind_ne_panicked hitem fun b _ => ?_
      exact Outcome.bind_ne_panicked ih fun _ _ => nofun

theorem parseHello_ne_panicked (v : Value) : parseHello v ≠ .panicked := by
  have hrefusal : refusalCodeField v ≠ .panicked := by
    unfold refusalCodeField
    split <;> nofun
  have hrealms : getBytes32List v "realms" ≠ .panicked := by
    unfold getBytes32List
    split
    · nofun
    · exact bytes32Items_ne_panicked _ _
    · nofun
  have haccepted : getBool v "accepted" ≠ .panicked := by
    unfold getBool
    repeat' split
    all_goals nofun
  unfold parseHello
  split
  · refine Outcome.bind_ne_panicked hrefusal fun _ _ => ?_
    refine Outcome.bind_ne_panicked arrField_ne_panicked fun _ _ => ?_
    refine Outcome.bind_ne_panicked arrField_ne_panicked fun _ _ => ?_
    refine Outcome.bind_ne_panicked hrealms fun _ _ => ?_
    refine Outcome.bind_ne_panicked uintField_ne_panicked fun _ _ => ?_
    refine Outcome.bind_ne_panicked haccepted fun _ _ => ?_
    exact Outcome.bind_ne_panicked uintField_ne_panicked fun _ _ => nofun
  · nofun

theorem parseCall_ne_panicked (v : Value) : parseCall v ≠ .panicked := by
  unfold parseCall
  split
  · refine Outcome.bind_ne_panicked arrField_ne_panicked fun _ _ => ?_
    refine Outcome.bind_ne_panicked textField_ne_panicked fun _ _ => ?_
    refine Outcome.bind_ne_panicked arrField_ne_panicked fun _ _ => ?_
    refine Outcome.bind_ne_panicked Outcome.okOr_ne_panicked fun _ _ => ?_
    refine Outcome.bind_ne_panicked intField_ne_panicked fun _ _ => ?_
    exact Outcome.bind_ne_panicked arrField_ne_panicked fun _ _ => nofun
  · nofun

theorem parseCallResponse_ne_panicked (v : Value) : parseCallResponse v ≠ .panicked := by
  have hcode : codeField v ≠ .panicked := by
    unfold codeField
    repeat' split
    all_goals nofun
  have hname : nameField v ≠ .panicked := by
    unfold nameField
    split <;> nofun
  have hdetail : detailField v ≠ .panicked := by
    unfold detailField
    split
    · nofun
    · nofun
    · exact Outcome.bind_ne_panicked Outcome.okOr_ne_panicked fun _ _ => nofun
    · nofun
  unfold parseCallResponse
  split
  · refine Outcome.bind_ne_panicked Outcome.okOr_ne_panicked fun _ _ => ?_
    exact Outcome.bind_ne_panicked arrField_ne_panicked fun _ _ => nofun
  · split
    · refine Outcome.bind_ne_panicked hcode fun _ _ => ?_
      refine Outcome.bind_ne_panicked hname fun _ _ => ?_
      refine Outcome.bind_ne_panicked arrField_ne_panicked fun _ _ => ?_
      exact Outcome.bind_ne_panicked hdetail fun _ _ => nofun
    · nofun

theorem parseEvent_ne_panicked (v : Value) : parseEvent v ≠ .panicked := by
  have hvia : deliveredViaField v ≠ .panicked := by
    unfold deliveredViaField
    split <;> nofun
  unfold parseEvent
  split
  · refine Outcome.bind_ne_panicked textField_ne_panicked fun _ _ => ?_
    refine Outcome.bind_ne_panicked arrField_ne_panicked fun _ _ => ?_
    refine Outcome.bind_ne_panicked arrField_ne_panicked fun _ _ => ?_
    refine Outcome.bind_ne_panicked uintField_ne_panicked fun _ _ => ?_
    refine Outcome.bind_ne_panicked Outcome.okOr_ne_panicked fun _ _ => ?_
    exact Outcome.bind_ne_panicked hvia fun _ _ => nofun
  · nofun

theorem parseStreamOpen_ne_panicked (v : Value) : parseStreamOpen v ≠ .panicked := by
  unfold parseStreamOpen
  split
  · refine Outcome.bind_ne_panicked arrField_ne_panicked fun _ _ => ?_
    refine Outcome.bind_ne_panicked textField_ne_panicked fun _ _ => ?_
    refine Outcome.bind_ne_panicked arrField_ne_panicked fun _ _ => ?_
    refine Outcome.bind_ne_panicked enumField_ne_panicked fun _ _ => ?_
    refine Outcome.bind_ne_panicked Outcome.okOr_ne_panicked fun _ _ => ?_
    refine Outcome.bind_ne_panicked intField_ne_panicked fun _ _ => ?_
    exact Outcome.bind_ne_panicked arrField_ne_panicked fun _ _ => nofun
  · nofun

theorem parseStreamEvent_ne_panicked (v : Value) : parseStreamEvent v ≠ .panicked := by
  refine Outcome.bind_ne_panicked arrField_ne_panicked fun _ _ => ?_
  split
  · refine Outcome.bind_ne_panicked uintField_ne_panicked fun _ _ => ?_
    refine Outcome.bind_ne_panicked enumField_ne_panicked fun _ _ => ?_
    exact Outcome.bind_ne_panicked Outcome.okOr_ne_panicked fun _ _ => nofun
  · split
    · exact Outcome.bind_ne_panicked enumField_ne_panicked fun _ _ => nofun
    · split
      · refine Outcome.bind_ne_panicked textField_ne_panicked fun _ _ => ?_
        exact Outcome.bind_ne_panicked textField_ne_panicked fun _ _ => nofun
      · split
        · refine Outcome.bind_ne_panicked Outcome.okOr_ne_panicked fun _ _ => ?_
          exact Outcome.bind_ne_panicked arrField_ne_panicked fun _ _ => nofun
        · nofun

end Frame

/-! ## Records -/

namespace Dht

theorem recordFromRpcValue_ne_panicked (v : Value) : recordFromRpcValue v ≠ .panicked := by
  have htype : typeField v ≠ .panicked := by
    unfold typeField
    repeat' split
    all_goals nofun
  refine Outcome.bind_ne_panicked htype fun _ _ => ?_
  refine Outcome.bind_ne_panicked Frame.arrField_ne_panicked fun _ _ => ?_
  refine Outcome.bind_ne_panicked Frame.arrField_ne_panicked fun _ _ => ?_
  refine Outcome.bind_ne_panicked Frame.intField_ne_panicked fun _ _ => ?_
  refine Outcome.bind_ne_panicked Frame.intField_ne_panicked fun _ _ => ?_
  exact Outcome.bind_ne_panicked Outcome.okOr_ne_panicked fun _ _ => nofun

end Dht

/-! ## Manifests -/

namespace Manifest

variable (H : Hashes)

theorem getUint_ne_panicked (v : Value) (field : String) : getUint v field ≠ .panicked := by
  unfold getUint
  repeat' split
  all_goals nofun

theorem getBytesExact_ne_panicked (n : Nat) (v : Value) (field : String) :
    getBytesExact n v field ≠ .panicked := by
  unfold getBytesExact
  split <;> simp

theorem chunkInfosFromWire_ne_panicked : ∀ items : List Value,
    chunkInfosFromWire 64 items ≠ .panicked := by
  intro items
  induction items with
  | nil => nofun
  | cons v items ih =>
      have hinfo : chunkInfoFromWire 64 v ≠ .panicked := by
        refine Outcome.bind_ne_panicked (getUint_ne_panicked _ _) fun _ _ => ?_
        refine Outcome.bind_ne_panicked (getUint_ne_panicked _ _) fun _ _ => ?_
        refine Outcome.bind_ne_panicked (getUint_ne_panicked _ _) fun _ _ => ?_
        exact Outcome.bind_ne_panicked (getBytesExact_ne_panicked _ _ _) fun _ _ => nofun
      refine Outcome.bind_ne_panicked hinfo fun _ _ => ?_
      exact Outcome.bind_ne_panicked ih fun _ _ => nofun

theorem fromWire_ne_panicked (v : Value) : fromWire 64 v ≠ .panicked := by
  have hname : getStringBytes v "name" ≠ .panicked := by
    unfold getStringBytes
    split <;> simp
  have halgorithm : getText v "hash_algorithm" ≠ .panicked := by
    unfold getText
    split <;> nofun
  have hchunks : getChunks 64 v ≠ .panicked := by
    unfold getChunks
    split
    · exact chunkInfosFromWire_ne_panicked _
    · nofun
    · nofun
  refine Outcome.bind_ne_panicked (getBytesExact_ne_panicked _ _ _) fun _ _ => ?_
  refine Outcome.bind_ne_panicked (getUint_ne_panicked _ _) fun _ _ => ?_
  refine Outcome.bind_ne_panicked hname fun _ _ => ?_
  refine Outcome.bind_ne_panicked (getUint_ne_panicked _ _) fun _ _ => ?_
  refine Outcome.bind_ne_panicked (getUint_ne_panicked _ _) fun _ _ => ?_
  refine Outcome.bind_ne_panicked (getUint_ne_panicked _ _) fun _ _ => ?_
  refine Outcome.bind_ne_panicked (getUint_ne_panicked _ _) fun _ _ => ?_
  refine Outcome.bind_ne_panicked halgorithm fun _ _ => ?_
  refine Outcome.bind_ne_panicked (getBytesExact_ne_panicked _ _ _) fun _ _ => ?_
  refine Outcome.bind_ne_panicked hchunks fun _ _ => ?_
  split
  · nofun
  · split <;> nofun

/-- What `from_wire` has checked. -/
theorem fromWire_checked {v : Value} {manifest : Manifest} (h : fromWire 64 v = .ok manifest) :
    manifest.chunkSize ≠ 0 ∧ manifest.chunks.length = manifest.chunkCount := by
  obtain ⟨_, -, h⟩ := Outcome.bind_eq_ok.mp h
  obtain ⟨_, -, h⟩ := Outcome.bind_eq_ok.mp h
  obtain ⟨_, -, h⟩ := Outcome.bind_eq_ok.mp h
  obtain ⟨_, -, h⟩ := Outcome.bind_eq_ok.mp h
  obtain ⟨_, -, h⟩ := Outcome.bind_eq_ok.mp h
  obtain ⟨_, -, h⟩ := Outcome.bind_eq_ok.mp h
  obtain ⟨_, -, h⟩ := Outcome.bind_eq_ok.mp h
  obtain ⟨_, -, h⟩ := Outcome.bind_eq_ok.mp h
  obtain ⟨_, -, h⟩ := Outcome.bind_eq_ok.mp h
  obtain ⟨_, -, h⟩ := Outcome.bind_eq_ok.mp h
  split at h
  · cases h
  · next hsize =>
      split at h
      · cases h
      · next hcount =>
          obtain rfl := Outcome.ok.inj h
          exact ⟨hsize, not_not.mp hcount⟩

theorem chunkMcid_isSome {manifest : Manifest} {index : Nat}
    (hlen : manifest.chunks.length = manifest.chunkCount) (h : index < manifest.chunkCount) :
    (chunkMcid manifest index).isSome = true := by
  rw [chunkMcid, List.getElem?_eq_getElem (hlen ▸ h)]
  rfl

/-- The fold ends with one hash. -/
theorem length_foldHashes (algorithm : Algorithm) {fuel : Nat} {hashes : List (ByteArr 32)}
    (hne : hashes ≠ []) (hfuel : hashes.length ≤ fuel) :
    (foldHashes H algorithm fuel hashes).length = 1 := by
  rw [foldHashes_eq]
  exact Merkle.length_rounds _ hne hfuel

theorem rootHashFor_ne_panicked {ε : Type} (infos : List ChunkInfo) (algorithm : Algorithm) :
    (rootHashFor H infos algorithm : Outcome ε (ByteArr 32)) ≠ .panicked := by
  unfold rootHashFor
  split
  · nofun
  · next hne =>
      have hhashes : infos.map (·.hash) ≠ [] := by
        rw [Ne, List.map_eq_nil_iff]
        exact fun h => hne (List.isEmpty_iff.mpr h)
      have hlen := length_foldHashes H algorithm hhashes (Nat.le_refl _)
      dsimp only
      rw [List.getElem?_eq_getElem (hlen ▸ Nat.one_pos)]
      nofun

/-- A manifest with chunks of some size verifies any data, or refuses it. -/
theorem verify_ne_panicked {manifest : Manifest} (h : manifest.chunkSize ≠ 0) (data : Bytes) :
    verify H manifest data ≠ .panicked := by
  unfold verify
  split
  · nofun
  · refine Outcome.bind_ne_panicked ?_ fun root _ => by split <;> nofun
    rw [rechunkedRoot, doChunk, if_neg h]
    exact rootHashFor_ne_panicked H _ _

/-- The offsets of the chunks stay within the data. -/
theorem chunkInfosFrom_le (algorithm : Algorithm) : ∀ {chunks : List Bytes} {index offset : Nat}
    {c : ChunkInfo}, c ∈ chunkInfosFrom H algorithm index offset chunks →
      c.offset + c.size ≤ offset + chunks.flatten.length
  | chunk :: chunks, index, offset, c, h => by
      rw [List.flatten_cons, List.length_append]
      rcases List.mem_cons.mp h with rfl | h
      · dsimp only
        omega
      · have hle := chunkInfosFrom_le algorithm h
        omega

theorem chunkInfos_le {chunkSize : Nat} (h : chunkSize ≠ 0) (data : Bytes)
    {algorithm : Algorithm} {c : ChunkInfo}
    (hc : c ∈ chunkInfos H (chunksOf chunkSize data) algorithm) :
    c.offset + c.size ≤ data.length := by
  have hle := chunkInfosFrom_le H algorithm hc
  rwa [flatten_chunksOf (Nat.pos_of_ne_zero h), Nat.zero_add] at hle

end Manifest

/-! ## All of it -/

/-- **Inbound processing never panics.**  Every buffer is decoded to a frame, to a wish for more
or to an error, without a position leaving `usize`.  On every frame that is decoded the
signature checks and the parsers return; on every value in one, reading a record and checking
it does, and so does reading a manifest, addressing each of its chunks and checking any data
against it. -/
theorem inbound_returns (E : Ed25519) (H : Hashes) :
    (∀ buf : Bytes, Frame.decode buf ≠ .panicked) ∧
    (∀ payload : Bytes, payload.length ≤ Frame.MAX_FRAME_BYTES → ∀ needCanon,
      Cbor.decodeBounded 64 payload (Cbor.MAX_NESTING_DEPTH + 1) 0 needCanon =
        Cbor.decodeOne 64 payload 0 0 needCanon) ∧
    (∀ buf v n, Frame.decode buf = .ok (.frame v n) →
      (∀ pubkey, Frame.verify E v pubkey ≠ .panicked) ∧ Frame.verifyPublisher E v ≠ .panicked ∧
      Frame.parseHello v ≠ .panicked ∧ Frame.parseCall v ≠ .panicked ∧
      Frame.parseCallResponse v ≠ .panicked ∧ Frame.parseEvent v ≠ .panicked ∧
      Frame.parseStreamOpen v ≠ .panicked ∧ Frame.parseStreamEvent v ≠ .panicked) ∧
    ∀ p, Received p →
      (Dht.recordFromRpcValue p ≠ .panicked ∧
        ∀ r, Dht.recordFromRpcValue p = .ok r → ∀ now, Dht.verify E now r ≠ .panicked) ∧
      Manifest.fromWire 64 p ≠ .panicked ∧
      ∀ manifest, Manifest.fromWire 64 p = .ok manifest →
        (∀ index, index < manifest.chunkCount →
          (Manifest.chunkMcid manifest index).isSome = true) ∧
        ∀ data, Manifest.verify H manifest data ≠ .panicked ∧
          ∀ c ∈ Manifest.chunkInfos H (chunksOf manifest.chunkSize data) manifest.hashAlgorithm,
            c.offset + c.size ≤ data.length := by
  refine ⟨Frame.decode_ne_panicked, fun payload hlen needCanon => ?_, fun buf v n h => ?_,
    fun p hp => ⟨⟨Dht.recordFromRpcValue_ne_panicked p, fun r hr now => ?_⟩,
      Manifest.fromWire_ne_panicked p, fun manifest hmanifest => ?_⟩⟩
  · have hroom : payload.length + 9 < 2 ^ 64 := by
      have hmax : Frame.MAX_FRAME_BYTES = 16777215 := rfl
      omega
    exact Cbor.decodeBounded_eq hroom (d := 0) rfl 0 needCanon (Nat.zero_le _)
  · have hrange := (Frame.decode_frame_fits h).encodable.ints
    exact ⟨Frame.verify_ne_panicked E hrange, Frame.verifyPublisher_ne_panicked E hrange,
      Frame.parseHello_ne_panicked v, Frame.parseCall_ne_panicked v,
      Frame.parseCallResponse_ne_panicked v, Frame.parseEvent_ne_panicked v,
      Frame.parseStreamOpen_ne_panicked v, Frame.parseStreamEvent_ne_panicked v⟩
  · exact Dht.verify_ne_panicked E now (Dht.recordFromRpcValue_inRange hp.ints hr)
  · obtain ⟨hsize, hcount⟩ := Manifest.fromWire_checked hmanifest
    exact ⟨fun index h => Manifest.chunkMcid_isSome hcount h, fun data =>
      ⟨Manifest.verify_ne_panicked H hsize data, fun c hc =>
        Manifest.chunkInfos_le H hsize data hc⟩⟩

end Macula
