import Macula.Content.Put

/-!
# Stations that keep content

What a station stores is seen through a `View`: the block and the manifest kept under each
address in a state.  A station `Returns` what it keeps when it answers every request for it
with a faithful reply and goes on keeping it.  It `Stores` what is put when, besides, an
accepted block with the right hash is kept under its address and an accepted manifest under
its `mcid` field.

`storing` is such a station: it keeps two lists, and accepts what it can send in a reply.
-/

namespace Macula.Content

open Macula.Cbor (Value)

/-- What a station keeps. -/
structure View (σ : Type) where
  block : σ → Mcid → Option Bytes
  manifest : σ → Mcid → Option Value

/-- The station keeps everything it kept. -/
structure View.Extends {σ : Type} (view : View σ) (s s' : σ) : Prop where
  block : ∀ {mcid data}, view.block s mcid = some data → view.block s' mcid = some data
  manifest : ∀ {mcid w}, view.manifest s mcid = some w → view.manifest s' mcid = some w

/-- A RESULT with the payload `w`, whatever the order of map entries, when `w` is a value that a
frame has room for. -/
def Faithful (w : Value) (reply : Reply) : Prop :=
  w.Within (Cbor.MAX_NESTING_DEPTH - 1) →
    ∃ v respondedBy, reply = .response (.result v respondedBy) ∧ v.sorted = w.sorted

/-- The station answers a request for what it keeps with a reply in `R`, and keeps it. -/
structure Returns {σ : Type} (R : Value → Reply → Prop) (station : Station σ) (view : View σ) :
    Prop where
  block : ∀ {s mcid data}, view.block s mcid = some data →
    ∃ reply s', station s GET_BLOCK_PROC (mcidPayload mcid) = (reply, s') ∧
      R (.bytes data) reply ∧ view.Extends s s'
  manifest : ∀ {s mcid w}, view.manifest s mcid = some w →
    ∃ reply s', station s GET_MANIFEST_PROC (mcidPayload mcid) = (reply, s') ∧
      R w reply ∧ view.Extends s s'

/-- The station keeps what it accepts: a block under its BLAKE3 address, and a manifest, up to
the order of its entries, under its `mcid`.  A block that is put may replace the one kept
under the same address and changes nothing else. -/
structure Stores (H : Hashes) {σ : Type} (R : Value → Reply → Prop) (station : Station σ)
    (view : View σ) : Prop extends Returns R station view where
  block_stored : ∀ {s s' data reply},
    station s PUT_BLOCK_PROC (blockPayload (Manifest.blockMcid H data) data) = (reply, s') →
      reply.Accepts → view.block s' (Manifest.blockMcid H data) = some data
  block_kept : ∀ {s s' mcid mcid' data data' reply},
    station s PUT_BLOCK_PROC (blockPayload mcid data) = (reply, s') →
      view.block s mcid' = some data' →
        view.block s' mcid' = some data' ∨ mcid' = mcid ∧ view.block s' mcid' = some data
  manifest_stored : ∀ {s s' manifest reply},
    station s PUT_MANIFEST_PROC (manifestPayload manifest) = (reply, s') → reply.Accepts →
      ∃ w, w.sorted = manifest.toWire.sorted ∧ view.manifest s' manifest.mcid = some w
  manifest_kept : ∀ {s s' manifest mcid data reply},
    station s PUT_MANIFEST_PROC (manifestPayload manifest) = (reply, s') →
      view.block s mcid = some data → view.block s' mcid = some data

variable {H : Hashes} {σ : Type} {station : Station σ} {view : View σ}

theorem View.Extends.refl (s : σ) : view.Extends s s := ⟨id, id⟩

theorem View.Extends.trans {s₁ s₂ s₃ : σ} (h : view.Extends s₁ s₂) (h' : view.Extends s₂ s₃) :
    view.Extends s₁ s₃ :=
  ⟨fun hb => h'.block (h.block hb), fun hm => h'.manifest (h.manifest hm)⟩

theorem Returns.mono {R R' : Value → Reply → Prop} (hR : ∀ {w reply}, R w reply → R' w reply)
    (h : Returns R station view) : Returns R' station view where
  block hb := by
    obtain ⟨reply, s', hcall, hreply, hext⟩ := h.block hb
    exact ⟨reply, s', hcall, hR hreply, hext⟩
  manifest hm := by
    obtain ⟨reply, s', hcall, hreply, hext⟩ := h.manifest hm
    exact ⟨reply, s', hcall, hR hreply, hext⟩

/-! ## A station with a memory -/

/-- What the station below has been given, the last first. -/
structure Store where
  blocks : List (Mcid × Bytes)
  manifests : List (Mcid × Value)
deriving DecidableEq

section

variable (H) (carry : Value → Option Reply)

/-- The reply that a payload is sent in, or silence. -/
def sent (w : Value) : Reply := (carry w).getD (.failed (.recv .timeout))

/-- Keep a block with the right hash that a reply can carry. -/
def Store.putBlock (st : Store) (payload : Value) : Value × Store :=
  match payload.get "mcid", payload.get "payload" with
  | some (.bytes mcid), some (.bytes data) =>
      if mcid = (Manifest.blockMcid H data).1 ∧ (carry (.bytes data)).isSome then
        (.text "ok", { st with blocks := (Manifest.blockMcid H data, data) :: st.blocks })
      else (.text "hash_mismatch", st)
  | _, _ => (.null, st)

/-- The address in a value's `mcid` field. -/
def mcidField (v : Value) : Option Mcid :=
  match v.get "mcid" with
  | some (.bytes b) => toArr 34 b
  | _ => none

/-- Keep a manifest with an address that a reply can carry. -/
def Store.putManifest (st : Store) (payload : Value) : Value × Store :=
  match payload.get "manifest" with
  | some w =>
      match mcidField w with
      | some mcid =>
          if (carry w).isSome then
            (.text "ok", { st with manifests := (mcid, w) :: st.manifests })
          else (.text "too_large", st)
      | none => (.null, st)
  | none => (.null, st)

/-- A station that keeps what it is given.  Its replies go out by `carry`. -/
def storing : Station Store := fun st procedure payload =>
  if procedure = PUT_BLOCK_PROC then
    let (answer, st) := st.putBlock H carry payload
    (sent carry answer, st)
  else if procedure = PUT_MANIFEST_PROC then
    let (answer, st) := st.putManifest carry payload
    (sent carry answer, st)
  else if procedure = GET_BLOCK_PROC then
    let found := (mcidField payload).bind fun mcid => st.blocks.lookup mcid
    (sent carry (found.elim (.text "not_found") .bytes), st)
  else if procedure = GET_MANIFEST_PROC then
    let found := (mcidField payload).bind fun mcid => st.manifests.lookup mcid
    (sent carry (found.getD (.text "not_found")), st)
  else (sent carry .null, st)

/-- What it keeps and can send. -/
def storeView : View Store where
  block st mcid := (st.blocks.lookup mcid).filter fun b => (carry (.bytes b)).isSome
  manifest st mcid := (st.manifests.lookup mcid).filter fun w => (carry w).isSome

end

variable {carry : Value → Option Reply}

theorem mcidField_mcidPayload (mcid : Mcid) : mcidField (mcidPayload mcid) = some mcid :=
  toArr_val mcid

/-- What the station can send goes out as `carry` says. -/
theorem storing_returns {R : Value → Reply → Prop}
    (hR : ∀ {w reply}, carry w = some reply → R w reply) :
    Returns R (storing H carry) (storeView carry) where
  block := by
    intro st mcid data hb
    obtain ⟨hlookup, hsome⟩ := Option.filter_eq_some_iff.mp hb
    obtain ⟨reply, hreply⟩ := Option.isSome_iff_exists.mp hsome
    refine ⟨reply, st, ?_, hR hreply, View.Extends.refl st⟩
    simp [storing, GET_BLOCK_PROC, PUT_BLOCK_PROC, PUT_MANIFEST_PROC, mcidField_mcidPayload,
      hlookup, sent, hreply]
  manifest := by
    intro st mcid w hm
    obtain ⟨hlookup, hsome⟩ := Option.filter_eq_some_iff.mp hm
    obtain ⟨reply, hreply⟩ := Option.isSome_iff_exists.mp hsome
    refine ⟨reply, st, ?_, hR hreply, View.Extends.refl st⟩
    simp [storing, GET_BLOCK_PROC, GET_MANIFEST_PROC, PUT_BLOCK_PROC, PUT_MANIFEST_PROC,
      mcidField_mcidPayload, hlookup, sent, hreply]

/-- Only an `ok` is sent as one. -/
theorem sent_accepts {t : String} (hfaithful : ∀ {w reply}, carry w = some reply → Faithful w reply)
    (h : (sent carry (.text t)).Accepts) : t = "ok" := by
  obtain ⟨respondedBy, h⟩ := h
  cases hreply : carry (.text t) with
  | none => simp [sent, hreply] at h
  | some reply =>
      obtain ⟨v, respondedBy', rfl, hv⟩ := hfaithful hreply (Value.within_text _ t)
      simp only [sent, hreply, Option.getD_some, Reply.response.injEq,
        Frame.CallResponse.result.injEq] at h
      simpa [h.1] using hv.symm

theorem storing_putBlock (st : Store) (mcid : Mcid) (data : Bytes) :
    storing H carry st PUT_BLOCK_PROC (blockPayload mcid data) =
      if mcid = Manifest.blockMcid H data ∧ (carry (.bytes data)).isSome then
        (sent carry (.text "ok"), { st with blocks := (mcid, data) :: st.blocks })
      else (sent carry (.text "hash_mismatch"), st) := by
  have hput : st.putBlock H carry (blockPayload mcid data) =
      if mcid.1 = (Manifest.blockMcid H data).1 ∧ (carry (.bytes data)).isSome then
        (.text "ok", { st with blocks := (Manifest.blockMcid H data, data) :: st.blocks })
      else (.text "hash_mismatch", st) := rfl
  simp only [storing, if_true, hput, ← Subtype.ext_iff]
  split
  · rename_i h
    rw [h.1]
  · rfl

theorem storing_putManifest (st : Store) (manifest : Manifest) :
    storing H carry st PUT_MANIFEST_PROC (manifestPayload manifest) =
      if (carry manifest.toWire).isSome then
        (sent carry (.text "ok"),
          { st with manifests := (manifest.mcid, manifest.toWire) :: st.manifests })
      else (sent carry (.text "too_large"), st) := by
  have hmcid : mcidField manifest.toWire = some manifest.mcid := toArr_val manifest.mcid
  have hput : st.putManifest carry (manifestPayload manifest) =
      match mcidField manifest.toWire with
      | some mcid =>
          if (carry manifest.toWire).isSome then
            (.text "ok", { st with manifests := (mcid, manifest.toWire) :: st.manifests })
          else (.text "too_large", st)
      | none => (.null, st) := rfl
  have hne : PUT_MANIFEST_PROC ≠ PUT_BLOCK_PROC := by decide
  simp only [storing, hne, if_false, if_true, hput, hmcid]
  split <;> rfl

/-- **The station keeps what it accepts.** -/
theorem storing_stores {R : Value → Reply → Prop}
    (hR : ∀ {w reply}, carry w = some reply → R w reply)
    (hfaithful : ∀ {w reply}, carry w = some reply → Faithful w reply) :
    Stores H R (storing H carry) (storeView carry) where
  toReturns := storing_returns hR
  block_stored := by
    intro st st' data reply hcall haccepts
    rw [storing_putBlock] at hcall
    split at hcall
    · rename_i h
      obtain ⟨rfl, rfl⟩ := Prod.mk.inj hcall
      simp [storeView, h.2]
    · obtain ⟨rfl, rfl⟩ := Prod.mk.inj hcall
      exact absurd (sent_accepts hfaithful haccepts) (by decide)
  block_kept := by
    intro st st' mcid mcid' data data' reply hcall hb
    rw [storing_putBlock] at hcall
    split at hcall
    · rename_i h
      obtain ⟨-, rfl⟩ := Prod.mk.inj hcall
      by_cases hmcid : mcid' = mcid
      · subst hmcid
        exact .inr ⟨rfl, by simp [storeView, h.2]⟩
      · have hbeq : (mcid' == mcid) = false := beq_eq_false_iff_ne.mpr hmcid
        left
        simp only [storeView, List.lookup_cons, hbeq] at hb ⊢
        exact hb
    · obtain ⟨-, rfl⟩ := Prod.mk.inj hcall
      exact .inl hb
  manifest_stored := by
    intro st st' manifest reply hcall haccepts
    rw [storing_putManifest] at hcall
    split at hcall
    · rename_i h
      obtain ⟨rfl, rfl⟩ := Prod.mk.inj hcall
      exact ⟨_, rfl, by simp [storeView, h]⟩
    · obtain ⟨rfl, rfl⟩ := Prod.mk.inj hcall
      exact absurd (sent_accepts hfaithful haccepts) (by decide)
  manifest_kept := by
    intro st st' manifest mcid data reply hcall hb
    rw [storing_putManifest] at hcall
    split at hcall <;>
      · obtain ⟨-, rfl⟩ := Prod.mk.inj hcall
        exact hb

end Macula.Content
