import Macula.Content.Retrieve
import Macula.Frame.Built

/-!
# Put, then get

`carry` is the way of a payload through the frame codec: it is put into a RESULT, signed,
encoded, decoded and parsed.  A reply that is `Carried` is faithful (`carried_faithful`), so
what a station keeps comes back as it was put, maps in another order.

`put_get` follows one content through both calls.  The block path and the manifest path are
told apart by the length on the way in and by the codec byte of the address on the way out.
`putChunks_kept` is the loop: no later chunk takes the place of an earlier one, because
chunks with one hash are equal.  `put_storing` is the other side: what a station with a memory
accepts.
-/

namespace Macula.Content

open Macula.Cbor (Value)
open Macula.Frame (Built)

/-! ## Replies through the codec -/

section

variable (E : Ed25519) (identity : KeyPair) (callId frameId : ByteArr 16) (sentAtMs : UInt64)

/-- What the caller gets when a station puts `w` into a RESULT. -/
def carry (w : Value) : Option Reply :=
  match (Built.result { callId, payload := w, respondedBy := identity.nodeId E }).signed E identity
      frameId sentAtMs with
  | .ok signed =>
      match Frame.encode signed with
      | .ok b =>
          match Frame.decode b with
          | .ok (.frame v _) => (Frame.parseCallResponse v).toOption.map .response
          | _ => none
      | _ => none
  | _ => none

/-- The reply is `w` as it comes through the codec, whoever sends it and when. -/
def Carried (w : Value) (reply : Reply) : Prop :=
  ∃ identity callId frameId sentAtMs, carry E identity callId frameId sentAtMs w = some reply

theorem carry_faithful {w : Value} {reply : Reply}
    (h : carry E identity callId frameId sentAtMs w = some reply) : Faithful w reply := by
  intro hwithin
  have hembeds : (Built.result { callId, payload := w, respondedBy := identity.nodeId E }).Embeds :=
    fun v hv => Option.some.inj hv ▸ hwithin
  simp only [carry] at h
  split at h
  · rename_i signed hsign
    split at h
    · rename_i b hb
      obtain ⟨v, hdecode, -, hparsed, -⟩ :=
        Built.decode_signed E identity frameId sentAtMs hembeds hsign hb
      have hparse : Frame.parseCallResponse v = .ok (.result w.sorted (identity.nodeId E)) :=
        hparsed
      simp only [hdecode, hparse] at h
      exact ⟨w.sorted, _, (Option.some.inj h).symm, Value.sorted_sorted w⟩
    · cases h
  · cases h

theorem carried_faithful {w : Value} {reply : Reply} (h : Carried E w reply) :
    Faithful w reply := by
  obtain ⟨identity, callId, frameId, sentAtMs, h⟩ := h
  exact carry_faithful E identity callId frameId sentAtMs h

/-- A RESULT is a few hundred bytes longer than its payload. -/
theorem sizeOk_result {w : Value} (hlen : (Cbor.canon w).length ≤ 2 ^ 20) :
    (Built.result { callId, payload := w, respondedBy := identity.nodeId E }).SizeOk frameId
      sentAtMs := by
  have hframe : ((Built.result { callId, payload := w, respondedBy := identity.nodeId E }).frame
      frameId sentAtMs).withField "signature" (.bytes (.replicate 64 0)) =
        .map [(.text "version", .int Frame.PROTOCOL_VERSION), (.text "frame_type", .text "result"),
          (.text "frame_id", .bytes frameId.1), (.text "sent_at_ms", .int sentAtMs.toNat),
          (.text "capabilities", .int 0), (.text "realm", .null),
          (.text "call_id", .bytes callId.1), (.text "source_route", .null), (.text "payload", w),
          (.text "responded_by", .bytes (identity.nodeId E).1),
          (.text "source_route_reverse", .bytes []),
          (.text "signature", .bytes (.replicate 64 0))] := rfl
  have hframeId := Cbor.length_canon_bytes_le frameId.1
  have hsentAt := Cbor.length_canon_int_le sentAtMs.toNat
  have hcallId := Cbor.length_canon_bytes_le callId.1
  have hrespondedBy := Cbor.length_canon_bytes_le (identity.nodeId E).1
  rw [frameId.2] at hframeId
  rw [callId.2] at hcallId
  rw [(identity.nodeId E).2] at hrespondedBy
  have hfixed : (Cbor.canon (.int Frame.PROTOCOL_VERSION)).length = 1 ∧
      (Cbor.canon (.text "result")).length = 7 ∧ (Cbor.canon (.int 0)).length = 1 ∧
      (Cbor.canon .null).length = 1 ∧ (Cbor.canon (.bytes [])).length = 1 ∧
      (Cbor.canon (.bytes (.replicate 64 0))).length = 66 := by decide
  rw [Built.SizeOk, hframe]
  refine Cbor.length_canon_map_le (k := 150) (v := 2 ^ 20 + 300) ?_ ?_ |>.trans (by decide)
  · simp only [List.map_cons, List.map_nil, List.sum_cons, List.sum_nil]
    decide
  · simp only [List.map_cons, List.map_nil, List.sum_cons, List.sum_nil, hfixed]
    omega

/-- What fits a frame goes through the codec. -/
theorem carry_eq_some {w : Value} (hwithin : w.Within (Cbor.MAX_NESTING_DEPTH - 1))
    (hlen : (Cbor.canon w).length ≤ 2 ^ 20) :
    carry E identity callId frameId sentAtMs w =
      some (.response (.result w.sorted (identity.nodeId E))) := by
  have hembeds : (Built.result { callId, payload := w, respondedBy := identity.nodeId E }).Embeds :=
    fun v hv => Option.some.inj hv ▸ hwithin
  have hdeadline :
      (Built.result { callId, payload := w, respondedBy := identity.nodeId E }).DeadlineOk := by
    intro d hd
    cases hd
  obtain ⟨signed, b, v, hsign, hb, hdecode, -, hparsed, -⟩ :=
    (Frame.built_frame_survives_iff E identity frameId sentAtMs hembeds).mpr
      ⟨hdeadline, sizeOk_result E identity callId frameId sentAtMs hlen⟩
  have hparse : Frame.parseCallResponse v = .ok (.result w.sorted (identity.nodeId E)) := hparsed
  simp only [carry, hsign, hb, hdecode, hparse]
  rfl

end

variable {H : Hashes} {σ : Type} {station : Station σ} {view : View σ}
  {R : Value → Reply → Prop}

/-! ## What is put -/

/-- A block that was put is kept, and so is every other block, except under its address. -/
theorem Stores.putBlock (h : Stores H R station view) {s s' : σ} {data : Bytes}
    (hput : putBlock station s (Manifest.blockMcid H data) data = .ok s') :
    view.block s' (Manifest.blockMcid H data) = some data ∧
      ∀ data', (H.blake3 data' = H.blake3 data → data' = data) →
        view.block s (Manifest.blockMcid H data') = some data' →
          view.block s' (Manifest.blockMcid H data') = some data' := by
  obtain ⟨reply, haccepts, hcall⟩ := putBlock_eq_ok.mp hput
  constructor
  · obtain ⟨s₁, -, hlast⟩ := callWithRetry_last (P := fun _ => True) (fun _ _ => trivial) trivial
    exact h.block_stored (hlast.symm.trans hcall) haccepts
  · intro data' hsame hb
    have hkept : ∀ {s₁ s₂ reply}, station s₁ PUT_BLOCK_PROC
        (blockPayload (Manifest.blockMcid H data) data) = (reply, s₂) →
        view.block s₁ (Manifest.blockMcid H data') = some data' →
        view.block s₂ (Manifest.blockMcid H data') = some data' := by
      intro s₁ s₂ reply hcall hb
      rcases h.block_kept hcall hb with hold | ⟨hmcid, hnew⟩
      · exact hold
      · rw [hnew, hsame (makeMcid_inj.mp hmcid)]
    obtain ⟨s₁, hs₁, hlast⟩ := callWithRetry_last
      (P := fun s => view.block s (Manifest.blockMcid H data') = some data')
      (fun s₁ hs₁ => hkept (Prod.eta _).symm hs₁) hb
    exact hkept (hlast.symm.trans hcall) hs₁

/-- A manifest that was put is kept, and so is every block. -/
theorem Stores.putManifest (h : Stores H R station view) {s s' : σ} {manifest : Manifest}
    (hput : putManifest station s manifest = .ok s') :
    (∃ w, w.sorted = manifest.toWire.sorted ∧ view.manifest s' manifest.mcid = some w) ∧
      ∀ {mcid data}, view.block s mcid = some data → view.block s' mcid = some data := by
  obtain ⟨reply, haccepts, hcall⟩ := putManifest_eq_ok.mp hput
  constructor
  · obtain ⟨s₁, -, hlast⟩ := callWithRetry_last (P := fun _ => True) (fun _ _ => trivial) trivial
    exact h.manifest_stored (hlast.symm.trans hcall) haccepts
  · intro mcid data hb
    obtain ⟨s₁, hs₁, hlast⟩ := callWithRetry_last
      (P := fun s => view.block s mcid = some data)
      (fun s₁ hs₁ => h.manifest_kept (Prod.eta _).symm hs₁) hb
    exact h.manifest_kept (hlast.symm.trans hcall) hs₁

/-- The loop over the chunks: those already put and those still to come are kept at its end. -/
theorem Stores.putChunks (h : Stores H R station view) {manifest : Manifest}
    {chunks : List Bytes} (hmcid : ∀ index, manifest.chunkMcid index =
      chunks[index]?.map (Manifest.blockMcid H))
    (hsame : ∀ c ∈ chunks, ∀ c' ∈ chunks, H.blake3 c = H.blake3 c' → c = c') :
    ∀ {rest done : List Bytes} {s s' : σ}, done ++ rest = chunks →
      (∀ c ∈ done, view.block s (Manifest.blockMcid H c) = some c) →
      putChunks station manifest done.length rest s = .ok s' →
      ∀ c ∈ chunks, view.block s' (Manifest.blockMcid H c) = some c := by
  intro rest
  induction rest with
  | nil =>
      intro done s s' hchunks hdone hput
      obtain rfl := Outcome.ok.inj hput
      rw [List.append_nil] at hchunks
      exact hchunks ▸ hdone
  | cons chunk rest ih =>
      intro done s s' hchunks hdone hput
      have hchunk : chunks[done.length]? = some chunk := by simp [← hchunks]
      have hmem : chunk ∈ chunks := List.mem_of_getElem? hchunk
      simp only [Content.putChunks, hmcid, hchunk, Option.map_some, Outcome.expectSome,
        Outcome.ok_bind, Outcome.bind_eq_ok] at hput
      obtain ⟨s₁, hblock, hput⟩ := hput
      obtain ⟨hnew, hold⟩ := h.putBlock hblock
      have hdone' : ∀ c ∈ done ++ [chunk], view.block s₁ (Manifest.blockMcid H c) = some c := by
        intro c hc
        rcases List.mem_append.mp hc with hc | hc
        · have hcmem : c ∈ chunks := hchunks ▸ List.mem_append_left _ hc
          exact hold c (hsame c hcmem chunk hmem) (hdone c hc)
        · obtain rfl := List.mem_singleton.mp hc
          exact hnew
      have hlen : (done ++ [chunk]).length = done.length + 1 := by simp
      exact ih (by simpa using hchunks) hdone' (hlen ▸ hput)

/-! ## Put, then get -/

/-- **What was put is what `get` returns.**  The station is any that keeps what it accepts and
answers through the frame codec, and `get` may be called in any later state in which it still
keeps what it kept. -/
theorem put_get (E : Ed25519) (h : Stores H (Carried E) station view) {d : Bytes}
    {name : AllocString} {now : UInt64} {s s₁ s₂ : σ} {mcid : Mcid}
    (hsame : ∀ c ∈ chunksOf DEFAULT_CHUNK_SIZE d, ∀ c' ∈ chunksOf DEFAULT_CHUNK_SIZE d,
      H.blake3 c = H.blake3 c' → c = c')
    (hput : put H station s d name now = .ok (mcid, s₁)) (hlater : view.Extends s₁ s₂) :
    ∃ s₃, get H station s₂ mcid = .ok (d, s₃) := by
  have hreturns : Returns Faithful station view := h.toReturns.mono (carried_faithful E)
  simp only [put] at hput
  split at hput
  · obtain ⟨s', hblock, hput⟩ := Outcome.bind_eq_ok.mp hput
    obtain ⟨rfl, rfl⟩ := Prod.mk.inj (Outcome.ok.inj hput)
    obtain ⟨s₃, hget, -⟩ := hreturns.getBlock (hlater.block (h.putBlock hblock).1)
    have hchunked : Manifest.mcidIsChunked (Manifest.blockMcid H d) = false := rfl
    refine ⟨s₃, ?_⟩
    simp [get, hchunked, hget]
  · obtain ⟨⟨manifest, chunks⟩, hcreate, hput⟩ := Outcome.bind_eq_ok.mp hput
    obtain ⟨⟨hpos, hlen⟩, rfl, rfl⟩ := Manifest.create_eq_ok.mp hcreate
    obtain ⟨s', hchunks, hput⟩ := Outcome.bind_eq_ok.mp hput
    obtain ⟨s'', hmanifest, hput⟩ := Outcome.bind_eq_ok.mp hput
    obtain ⟨rfl, rfl⟩ := Prod.mk.inj (Outcome.ok.inj hput)
    have hmcid := Manifest.chunkMcid_manifestOf (H := H) d { CreateOptions.default with name } now
    obtain ⟨hdescribed, hblocks⟩ := h.putManifest hmanifest
    have hkept := h.putChunks hmcid hsame (List.nil_append _) (by simp) hchunks
    have hserves : Serves view s'' (Manifest.manifestOf H d { CreateOptions.default with name } now)
        (chunksOf DEFAULT_CHUNK_SIZE d) := by
      refine ⟨hdescribed, ?_⟩
      intro index mcid hindex
      obtain ⟨chunk, hchunk, rfl⟩ := Option.map_eq_some_iff.mp ((hmcid index).symm.trans hindex)
      exact ⟨chunk, hchunk, hblocks (hkept chunk (List.mem_of_getElem? hchunk))⟩
    rcases get_serves hreturns hpos hlen (hserves.extends hlater) with ⟨-, hget⟩ | ⟨⟨c, -, hne⟩, -⟩
    · exact hget
    · exact absurd rfl hne

/-! ## What the station with a memory accepts -/

section

variable {E : Ed25519} {identity : KeyPair} {callId frameId : ByteArr 16} {sentAtMs : UInt64}

theorem sent_ok : sent (carry E identity callId frameId sentAtMs) (.text "ok") =
    .response (.result (.text "ok") (identity.nodeId E)) := by
  rw [sent, carry_eq_some E identity callId frameId sentAtMs (Value.within_text _ _) (by decide)]
  simp

/-- A block is accepted. -/
theorem putBlock_storing (st : Store) {data : Bytes} (hlen : data.length ≤ DEFAULT_CHUNK_SIZE) :
    ∃ st', putBlock (storing H (carry E identity callId frameId sentAtMs)) st
      (Manifest.blockMcid H data) data = .ok st' := by
  have hcanon : (Cbor.canon (.bytes data)).length ≤ 2 ^ 20 := by
    have := Cbor.length_canon_bytes_le data
    rw [DEFAULT_CHUNK_SIZE] at hlen
    omega
  have hcarry := carry_eq_some E identity callId frameId sentAtMs (Value.within_bytes _ data) hcanon
  have hcall := @storing_putBlock H (carry E identity callId frameId sentAtMs) st
    (Manifest.blockMcid H data) data
  rw [if_pos ⟨rfl, by rw [hcarry]; rfl⟩, sent_ok] at hcall
  exact ⟨_, putBlock_eq_ok.mpr ⟨_, ⟨_, rfl⟩, callWithRetry_result hcall⟩⟩

/-- So are all chunks, one after the other. -/
theorem putChunks_storing {manifest : Manifest} {chunks : List Bytes}
    (hmcid : ∀ index, manifest.chunkMcid index = chunks[index]?.map (Manifest.blockMcid H))
    (hlen : ∀ c ∈ chunks, c.length ≤ DEFAULT_CHUNK_SIZE) :
    ∀ {rest done : List Bytes} {st : Store}, done ++ rest = chunks →
      ∃ st', putChunks (storing H (carry E identity callId frameId sentAtMs)) manifest done.length
        rest st = .ok st' := by
  intro rest
  induction rest with
  | nil =>
      intro done st _
      exact ⟨st, rfl⟩
  | cons chunk rest ih =>
      intro done st hchunks
      have hchunk : chunks[done.length]? = some chunk := by simp [← hchunks]
      obtain ⟨st₁, hput⟩ := @putBlock_storing H E identity callId frameId sentAtMs st chunk
        (hlen chunk (List.mem_of_getElem? hchunk))
      obtain ⟨st', hrest⟩ := @ih (done ++ [chunk]) st₁ (by simpa using hchunks)
      have hlast : (done ++ [chunk]).length = done.length + 1 := by simp
      rw [hlast] at hrest
      refine ⟨st', ?_⟩
      simp only [putChunks, hmcid, hchunk, Option.map_some, Outcome.expectSome, Outcome.ok_bind,
        hput, hrest]

/-- A manifest is accepted. -/
theorem putManifest_storing (st : Store) {manifest : Manifest} (hwell : manifest.WellFormed)
    (hlen : (Cbor.canon manifest.toWire).length ≤ 2 ^ 20) :
    ∃ st', putManifest (storing H (carry E identity callId frameId sentAtMs)) st manifest =
      .ok st' := by
  have hwithin := (Manifest.record_toWire hwell).within.mono
    (by decide : 3 ≤ Cbor.MAX_NESTING_DEPTH - 1)
  have hcarry := carry_eq_some E identity callId frameId sentAtMs hwithin hlen
  have hcall := @storing_putManifest H (carry E identity callId frameId sentAtMs) st manifest
  rw [if_pos (by rw [hcarry]; rfl), sent_ok] at hcall
  exact ⟨_, putManifest_eq_ok.mpr ⟨_, ⟨_, rfl⟩, callWithRetry_result hcall⟩⟩

/-- What is described by a manifest of blocks is accepted with the manifest. -/
theorem putContent_storing (st : Store) {d : Bytes} {opts : CreateOptions} (now : UInt64)
    (hsize : opts.chunkSize = DEFAULT_CHUNK_SIZE) (halgorithm : opts.hashAlgorithm = .blake3)
    (hlen : d.length ≤ 2 ^ 30) (hname : (Utf8.bytes opts.name.1).length ≤ 2 ^ 16) :
    ∃ st₁ st₂, putChunks (storing H (carry E identity callId frameId sentAtMs))
        (Manifest.manifestOf H d opts now) 0 (chunksOf opts.chunkSize d) st = .ok st₁ ∧
      putManifest (storing H (carry E identity callId frameId sentAtMs)) st₁
        (Manifest.manifestOf H d opts now) = .ok st₂ := by
  have hpos : opts.chunkSize ≠ 0 := by
    rw [hsize]
    decide
  have hmcid : ∀ index, (Manifest.manifestOf H d opts now).chunkMcid index =
      (chunksOf opts.chunkSize d)[index]?.map (Manifest.blockMcid H) := by
    intro index
    rw [Manifest.chunkMcid_manifestOf, halgorithm]
    rfl
  have hpieces : ∀ c ∈ chunksOf opts.chunkSize d, c.length ≤ DEFAULT_CHUNK_SIZE :=
    hsize ▸ length_le_of_mem_chunksOf (Nat.pos_of_ne_zero hpos) d
  have hwire : (Cbor.canon (Manifest.manifestOf H d opts now).toWire).length ≤ 2 ^ 20 := by
    have hcount : (Manifest.manifestOf H d opts now).chunks.length =
        (d.length + DEFAULT_CHUNK_SIZE - 1) / DEFAULT_CHUNK_SIZE :=
      (Manifest.length_chunkInfos _ _).trans (hsize ▸ length_chunksOf (Nat.pos_of_ne_zero hpos) d)
    have hname' : (Utf8.bytes (Manifest.manifestOf H d opts now).name).length ≤ 2 ^ 16 := hname
    have hgrows := Manifest.length_canon_toWire_le (Manifest.manifestOf H d opts now)
    rw [hcount, DEFAULT_CHUNK_SIZE] at hgrows
    omega
  obtain ⟨st₁, hchunks⟩ := @putChunks_storing H E identity callId frameId sentAtMs _ _ hmcid hpieces
    _ [] st rfl
  obtain ⟨st₂, hmanifest⟩ := @putManifest_storing H E identity callId frameId sentAtMs st₁ _
    (Manifest.wellFormed_manifestOf hpos (hlen.trans_lt (by decide))) hwire
  exact ⟨st₁, st₂, hchunks, hmanifest⟩

/-- Data longer than a block, up to a gigabyte, is accepted under the address of its manifest. -/
theorem put_storing (st : Store) {d : Bytes} {name : AllocString} (now : UInt64)
    (hlong : DEFAULT_CHUNK_SIZE < d.length) (hlen : d.length ≤ 2 ^ 30)
    (hname : (Utf8.bytes name.1).length ≤ 2 ^ 16) :
    ∃ st', put H (storing H (carry E identity callId frameId sentAtMs)) st d name now =
      .ok ((Manifest.manifestOf H d { CreateOptions.default with name } now).mcid, st') := by
  obtain ⟨st₁, st₂, hchunks, hmanifest⟩ := @putContent_storing H E identity callId frameId sentAtMs
    st d { CreateOptions.default with name } now rfl rfl hlen hname
  have hpos : CreateOptions.default.chunkSize ≠ 0 := by decide
  have hcreate : (Manifest.create H d { CreateOptions.default with name } now :
      Outcome PutError (Manifest × List Bytes)) = .ok (_, _) :=
    Manifest.create_eq_ok.mpr ⟨⟨hpos, hlen.trans_lt (by decide)⟩, rfl, rfl⟩
  refine ⟨st₂, ?_⟩
  simp only [put, Nat.not_le.mpr hlong, if_false, hcreate, Outcome.ok_bind, hchunks, hmanifest,
    Outcome.pure_eq]

end

/-- A station whose replies go through the codec under the stand-in scheme. -/
def carrying : Station Store :=
  storing Manifest.standIn (carry .standIn ⟨.fill 4⟩ (.fill 1)
    (.fill 2) 3)

theorem carrying_stores : Stores Manifest.standIn (Carried .standIn) carrying (storeView
    (carry .standIn ⟨⟨.replicate 32 4, rfl⟩⟩ ⟨.replicate 16 1, rfl⟩ ⟨.replicate 16 2, rfl⟩ 3)) :=
  storing_stores (fun h => ⟨_, _, _, _, h⟩) (fun h => carry_faithful .standIn _ _ _ _ h)

/-- Content of two chunks. -/
def twoChunks : Bytes := .replicate DEFAULT_CHUNK_SIZE 1 ++ [2]

theorem chunksOf_twoChunks :
    chunksOf DEFAULT_CHUNK_SIZE twoChunks = [.replicate DEFAULT_CHUNK_SIZE 1, [2]] := by
  have hpos : 0 < DEFAULT_CHUNK_SIZE := by decide
  have hlen : (List.replicate DEFAULT_CHUNK_SIZE (1 : UInt8)).length = DEFAULT_CHUNK_SIZE :=
    List.length_replicate
  rw [twoChunks, chunksOf_ne_nil hpos (by simp), List.take_left' hlen, List.drop_left' hlen,
    chunksOf_length_le (by simp) hpos]

/-- The first byte tells the hashes of the two apart. -/
theorem standIn_twoChunks :
    Manifest.standIn.blake3 (.replicate DEFAULT_CHUNK_SIZE 1) ≠ Manifest.standIn.blake3 [2] := by
  intro h
  have hrep : List.replicate DEFAULT_CHUNK_SIZE (1 : UInt8) =
      1 :: List.replicate (DEFAULT_CHUNK_SIZE - 1) 1 := List.replicate_succ
  rw [hrep] at h
  have hfirst := congrArg (fun hash => hash.1.head?) h
  exact absurd hfirst (by simp [Manifest.standIn])

/-- Three bytes as one block, and two chunks with their manifest. -/
theorem put_get_block_and_chunks :
    (∃ mcid st st', Manifest.mcidIsChunked mcid = false ∧
      put Manifest.standIn carrying ⟨[], []⟩ [1, 2, 3] ⟨"three", by decide⟩ 5 = .ok (mcid, st) ∧
        get Manifest.standIn carrying st mcid = .ok ([1, 2, 3], st')) ∧
    ∃ mcid st st', Manifest.mcidIsChunked mcid = true ∧
      put Manifest.standIn carrying ⟨[], []⟩ twoChunks ⟨"two", by decide⟩ 5 = .ok (mcid, st) ∧
        get Manifest.standIn carrying st mcid = .ok (twoChunks, st') := by
  constructor
  · have hput : put Manifest.standIn carrying ⟨[], []⟩ [1, 2, 3] ⟨"three", by decide⟩ 5 =
        .ok (Manifest.blockMcid Manifest.standIn [1, 2, 3],
          ⟨[(Manifest.blockMcid Manifest.standIn [1, 2, 3], [1, 2, 3])], []⟩) := by decide +kernel
    have hsame : ∀ c ∈ chunksOf DEFAULT_CHUNK_SIZE ([1, 2, 3] : Bytes),
        ∀ c' ∈ chunksOf DEFAULT_CHUNK_SIZE ([1, 2, 3] : Bytes),
          Manifest.standIn.blake3 c = Manifest.standIn.blake3 c' → c = c' := by
      have hone : chunksOf DEFAULT_CHUNK_SIZE ([1, 2, 3] : Bytes) = [[1, 2, 3]] :=
        chunksOf_length_le (by decide) (by decide)
      rw [hone]
      decide
    obtain ⟨st', hget⟩ := put_get .standIn carrying_stores hsame hput (View.Extends.refl _)
    exact ⟨_, _, st', rfl, hput, hget⟩
  · have hlen : twoChunks.length = DEFAULT_CHUNK_SIZE + 1 := by simp [twoChunks]
    have hsame : ∀ c ∈ chunksOf DEFAULT_CHUNK_SIZE twoChunks,
        ∀ c' ∈ chunksOf DEFAULT_CHUNK_SIZE twoChunks,
          Manifest.standIn.blake3 c = Manifest.standIn.blake3 c' → c = c' := by
      rw [chunksOf_twoChunks]
      simp [standIn_twoChunks, standIn_twoChunks.symm]
    obtain ⟨st, hput⟩ := @put_storing Manifest.standIn .standIn ⟨.fill 4⟩ (.fill 1) (.fill 2) 3
      ⟨[], []⟩ twoChunks ⟨"two", by decide⟩ 5 (by omega) (hlen ▸ by decide) (by decide)
    obtain ⟨st', hget⟩ := put_get .standIn carrying_stores hsame hput (View.Extends.refl _)
    exact ⟨_, st, st', rfl, hput, hget⟩

end Macula.Content
