import Macula.Ffi
import Macula.Frame.Event

/-!
# What crosses the FFI boundary

A value from the wire crosses with every integer at 64 bits, or not at all: `converts` is the
induction over the value, its keys included, and `FfiValue.tryFrom_toValue` is the way back.

The records around a value cross field by field, and `recover` reads the fields back.  Those of a
response and of an event have their own widths on the other side, but the deadline of a
STREAM_OPEN is an `i128` that becomes an `i64` by `as`, without the check that a value gets.  So
the deadline is the place, and the only one, where an integer silently becomes another one
(`conversions_lossless_iff`).
-/

namespace Macula.Ffi

open Macula.Cbor (Value)
open Macula.Frame (CallResponse EventInfo StreamMode StreamOpenInfo)

/-! ## Values -/

/-- An integer of 64 bits. -/
def FitsI64 : Value → Prop
  | .int n => -2 ^ 63 ≤ n ∧ n < 2 ^ 63
  | _ => True

/-- How a conversion of `v` ends: with the same value, or with an integer in `v` that is too
large. -/
inductive Converts (v : Value) : Outcome FfiError FfiValue → Prop where
  | same (f : FfiValue) (htoValue : f.toValue = v) (hfits : v.All FitsI64) : Converts v (.ok f)
  | outside (n : Int) (hn : ¬ FitsI64 (.int n)) (hfits : ¬ v.All FitsI64) :
      Converts v (.err (.unrepresentableValue (.outside n)))

/-- The items of a list convert one after the other, up to the first that does not. -/
theorem converts_items {items : List Value} (h : ∀ v ∈ items, Converts v (FfiValue.tryFrom v)) :
    (∃ fs, FfiValue.tryItems items = .ok fs ∧ FfiValue.toItems fs = items ∧
      ∀ v ∈ items, v.All FitsI64) ∨
    ∃ n, FfiValue.tryItems items = .err (.unrepresentableValue (.outside n)) ∧
      ¬ FitsI64 (.int n) ∧ ¬ ∀ v ∈ items, v.All FitsI64 := by
  induction items with
  | nil => exact .inl ⟨[], rfl, rfl, nofun⟩
  | cons v items ih =>
      obtain ⟨hv, hitems⟩ := List.forall_mem_cons.mp h
      simp only [FfiValue.tryItems, List.forall_mem_cons]
      generalize FfiValue.tryFrom v = result at hv
      cases hv with
      | outside n hn hfits => exact .inr ⟨n, rfl, hn, fun hall => hfits hall.1⟩
      | same f hf hfits =>
          rcases ih hitems with ⟨fs, hfs, hsame, hall⟩ | ⟨n, herr, hn, hall⟩
          · exact .inl ⟨f :: fs, by simp [hfs], by rw [FfiValue.toItems, hf, hsame], hfits, hall⟩
          · exact .inr ⟨n, by simp [herr], hn, fun h => hall h.2⟩

/-- The same for the entries of a map, the key of each before its value. -/
theorem converts_pairs {pairs : List (Value × Value)}
    (h : ∀ p ∈ pairs, Converts p.1 (FfiValue.tryFrom p.1) ∧ Converts p.2 (FfiValue.tryFrom p.2)) :
    (∃ fs, FfiValue.tryPairs pairs = .ok fs ∧ FfiValue.toPairs fs = pairs ∧
      ∀ p ∈ pairs, p.1.All FitsI64 ∧ p.2.All FitsI64) ∨
    ∃ n, FfiValue.tryPairs pairs = .err (.unrepresentableValue (.outside n)) ∧
      ¬ FitsI64 (.int n) ∧ ¬ ∀ p ∈ pairs, p.1.All FitsI64 ∧ p.2.All FitsI64 := by
  induction pairs with
  | nil => exact .inl ⟨[], rfl, rfl, nofun⟩
  | cons p pairs ih =>
      obtain ⟨k, v⟩ := p
      obtain ⟨⟨hk, hv⟩, hpairs⟩ := List.forall_mem_cons.mp h
      simp only [FfiValue.tryPairs, List.forall_mem_cons] at hk hv ⊢
      generalize FfiValue.tryFrom k = result at hk
      generalize FfiValue.tryFrom v = result' at hv
      cases hk with
      | outside n hn hfits => exact .inr ⟨n, rfl, hn, fun hall => hfits hall.1.1⟩
      | same fk hfk hkfits =>
          cases hv with
          | outside n hn hfits => exact .inr ⟨n, rfl, hn, fun hall => hfits hall.1.2⟩
          | same fv hfv hvfits =>
              rcases ih hpairs with ⟨fs, hfs, hsame, hall⟩ | ⟨n, herr, hn, hall⟩
              · exact .inl ⟨(fk, fv) :: fs, by simp [hfs],
                  by rw [FfiValue.toPairs, hfk, hfv, hsame], ⟨hkfits, hvfits⟩, hall⟩
              · exact .inr ⟨n, by simp [herr], hn, fun h => hall h.2⟩

/-- *A value crosses as it is or not at all.* -/
theorem converts (v : Value) : Converts v (FfiValue.tryFrom v) := by
  induction v using Value.induct with
  | int n =>
      rw [FfiValue.tryFrom]
      split
      · next hn =>
          have hsame : (Int64.ofInt n).toInt = n := Int64.toInt_ofInt_of_le hn.1 hn.2
          exact .same _ (by rw [FfiValue.toValue, hsame]) (Value.all_int.mpr hn)
      · next hn => exact .outside n hn fun hall => hn (Value.all_int.mp hall)
  | bytes b => exact .same (.bytes b) rfl (Value.all_bytes.mpr trivial)
  | text s => exact .same (.text s) rfl (Value.all_text.mpr trivial)
  | null => exact .same .null rfl (Value.all_null.mpr trivial)
  | float bits => exact .same (.float bits) rfl (Value.all_float.mpr trivial)
  | list items ih =>
      rw [FfiValue.tryFrom]
      rcases converts_items ih with ⟨fs, hfs, hsame, hall⟩ | ⟨n, herr, hn, hall⟩
      · rw [hfs]
        exact .same (.items fs) (by rw [FfiValue.toValue, hsame])
          (Value.all_list.mpr ⟨trivial, hall⟩)
      · rw [herr]
        exact .outside n hn fun h => hall (Value.all_list.mp h).2
  | map pairs ih =>
      rw [FfiValue.tryFrom]
      rcases converts_pairs ih with ⟨fs, hfs, hsame, hall⟩ | ⟨n, herr, hn, hall⟩
      · rw [hfs]
        exact .same (.fields fs) (by rw [FfiValue.toValue, hsame])
          (Value.all_map.mpr ⟨trivial, hall⟩)
      · rw [herr]
        exact .outside n hn fun h => hall (Value.all_map.mp h).2

theorem tryFrom_eq_ok {v : Value} {f : FfiValue} : FfiValue.tryFrom v = .ok f ↔ f.toValue = v := by
  constructor
  · intro h
    have hv := converts v
    rw [h] at hv
    cases hv with
    | same _ hsame _ => exact hsame
  · rintro rfl
    exact f.tryFrom_toValue

/-- A value fails to cross exactly when some integer in it needs more than 64 bits. -/
theorem tryFrom_fails_iff {v : Value} :
    (∃ reason, FfiValue.tryFrom v = .err (.unrepresentableValue reason)) ↔ ¬ v.All FitsI64 := by
  have hv := converts v
  generalize FfiValue.tryFrom v = result at hv
  cases hv with
  | same f _ hfits => exact ⟨nofun, fun h => absurd hfits h⟩
  | outside n _ hfits => exact ⟨fun _ => hfits, fun _ => ⟨.outside n, rfl⟩⟩

/-! ## Records -/

/-- What a subscriber receives. -/
structure FfiEvent where
  topic : String
  realm : Bytes
  publisher : Bytes
  seq : UInt64
  payload : FfiValue
  deliveredVia : String

def FfiEvent.tryFrom (e : EventInfo) : Outcome FfiError FfiEvent := do
  let payload ← FfiValue.tryFrom e.payload
  return { topic := e.topic, realm := e.realm.1, publisher := e.publisher.1, seq := e.seq, payload,
           deliveredVia := e.deliveredVia }

def FfiStreamMode.ofCore : StreamMode → FfiStreamMode
  | .serverStream => .serverStream
  | .clientStream => .clientStream
  | .bidi => .bidi

@[simp] theorem FfiStreamMode.into_ofCore (mode : StreamMode) : (ofCore mode).into = mode := by
  cases mode <;> rfl

/-- What a provider is told about an inbound STREAM_OPEN. -/
structure FfiStreamOpenInfo where
  streamId : Bytes
  procedure : String
  realm : Bytes
  mode : FfiStreamMode
  args : FfiValue
  deadlineMs : Int64
  caller : Bytes

/-- The deadline is cut to 64 bits, as `as i64` does. -/
def FfiStreamOpenInfo.tryFrom (o : StreamOpenInfo) : Outcome FfiError FfiStreamOpenInfo := do
  let args ← FfiValue.tryFrom o.args
  return { streamId := o.streamId.1, procedure := o.procedure, realm := o.realm.1,
           mode := .ofCore o.mode, args, deadlineMs := .ofInt o.deadlineMs, caller := o.caller.1 }

/-! ## What can be recovered -/

def FfiCallResponse.recover : FfiCallResponse → Option CallResponse
  | .result payload respondedBy => do
      let respondedBy ← toArr 32 respondedBy
      return .result payload.toValue respondedBy
  | .error code name reportedBy detail => do
      let reportedBy ← toArr 32 reportedBy
      return .error code name reportedBy detail

def FfiEvent.recover (f : FfiEvent) : Option EventInfo := do
  let realm ← toArr 32 f.realm
  let publisher ← toArr 32 f.publisher
  return { topic := f.topic, realm, publisher, seq := f.seq, payload := f.payload.toValue,
           deliveredVia := f.deliveredVia }

def FfiStreamOpenInfo.recover (f : FfiStreamOpenInfo) : Option StreamOpenInfo := do
  let streamId ← toArr 16 f.streamId
  let realm ← toArr 32 f.realm
  let caller ← toArr 32 f.caller
  return { streamId, procedure := f.procedure, realm, mode := f.mode.into, args := f.args.toValue,
           deadlineMs := f.deadlineMs.toInt, caller }

/-- A conversion of `a` says that it cannot be represented, or ends with a record that `a` can be
recovered from. -/
def Lossless {α β : Type} (recover : β → Option α) (a : α) (result : Outcome FfiError β) : Prop :=
  (∃ reason, result = .err (.unrepresentableValue reason)) ∨
    ∃ f, result = .ok f ∧ recover f = some a

theorem FfiValue.tryFrom_lossless (v : Value) :
    Lossless (fun f => some (FfiValue.toValue f)) v (FfiValue.tryFrom v) := by
  have hv := converts v
  generalize FfiValue.tryFrom v = result at hv
  cases hv with
  | same f hsame _ => exact .inr ⟨f, rfl, congrArg some hsame⟩
  | outside n _ _ => exact .inl ⟨.outside n, rfl⟩

/-- A record that carries a value crosses as the value does, if its other fields do. -/
theorem lossless_bind {α β : Type} {recover : β → Option α} {a : α} {v : Value}
    {wrap : FfiValue → β} (h : ∀ f, f.toValue = v → recover (wrap f) = some a) :
    Lossless recover a (FfiValue.tryFrom v >>= fun f => .ok (wrap f)) := by
  rcases FfiValue.tryFrom_lossless v with ⟨reason, herr⟩ | ⟨f, hf, hsame⟩
  · exact .inl ⟨reason, by rw [herr]; rfl⟩
  · exact .inr ⟨wrap f, by rw [hf]; rfl, h f (Option.some.inj hsame)⟩

theorem FfiCallResponse.tryFrom_lossless (r : CallResponse) :
    Lossless FfiCallResponse.recover r (FfiCallResponse.tryFrom r) := by
  cases r with
  | result payload respondedBy =>
      apply lossless_bind
      intro f hsame
      simp [FfiCallResponse.recover, hsame]
  | error code name reportedBy detail =>
      exact .inr ⟨_, rfl, by simp [FfiCallResponse.recover]⟩

theorem FfiEvent.tryFrom_lossless (e : EventInfo) :
    Lossless FfiEvent.recover e (FfiEvent.tryFrom e) := by
  apply lossless_bind
  intro f hsame
  simp [FfiEvent.recover, hsame]

/-- An integer keeps its value at 64 bits exactly when it fits. -/
theorem toInt_ofInt_iff {n : Int} : (Int64.ofInt n).toInt = n ↔ FitsI64 (.int n) := by
  constructor
  · intro h
    have hlt := (Int64.ofInt n).toInt_lt
    have hle := (Int64.ofInt n).le_toInt
    rw [h] at hlt hle
    exact ⟨hle, hlt⟩
  · exact fun h => Int64.toInt_ofInt_of_le h.1 h.2

/-- The deadline decides, when the arguments cross. -/
theorem FfiStreamOpenInfo.tryFrom_lossless_iff (o : StreamOpenInfo) :
    Lossless FfiStreamOpenInfo.recover o (FfiStreamOpenInfo.tryFrom o) ↔
      FitsI64 (.int o.deadlineMs) ∨ ¬ o.args.All FitsI64 := by
  rw [← toInt_ofInt_iff]
  constructor
  · rintro (⟨reason, herr⟩ | ⟨f, hf, hrecover⟩)
    · right
      rw [← tryFrom_fails_iff]
      cases hargs : FfiValue.tryFrom o.args with
      | ok args =>
          rw [FfiStreamOpenInfo.tryFrom, hargs] at herr
          cases herr
      | err e =>
          rw [FfiStreamOpenInfo.tryFrom, hargs] at herr
          exact ⟨reason, congrArg _ (Outcome.err.inj herr)⟩
      | panicked => exact absurd hargs (FfiValue.tryFrom_ne_panicked _)
    · left
      obtain ⟨args, -, hf⟩ := Outcome.bind_eq_ok.mp hf
      obtain rfl := Outcome.ok.inj hf
      simp only [FfiStreamOpenInfo.recover, toArr_val, Option.bind_eq_bind, Option.bind_some,
        Option.pure_def, Option.some.injEq] at hrecover
      exact congrArg StreamOpenInfo.deadlineMs hrecover
  · rintro (hdeadline | hargs)
    · apply lossless_bind
      intro f hsame
      simp [FfiStreamOpenInfo.recover, hsame, hdeadline]
    · obtain ⟨reason, herr⟩ := tryFrom_fails_iff.mpr hargs
      exact .inl ⟨reason, by rw [FfiStreamOpenInfo.tryFrom, herr]; rfl⟩

/-- **Nothing is lost at the boundary but in a deadline.**  Values, responses and events cross
with everything in them or not at all, and a value from outside comes back as it was.  A
STREAM_OPEN does so exactly when its deadline has 64 bits, or its arguments do not cross. -/
theorem conversions_lossless_iff (v : Value) (f : FfiValue) (r : CallResponse) (e : EventInfo)
    (o : StreamOpenInfo) :
    Lossless (fun f => some (FfiValue.toValue f)) v (FfiValue.tryFrom v) ∧
    ((∃ reason, FfiValue.tryFrom v = .err (.unrepresentableValue reason)) ↔ ¬ v.All FitsI64) ∧
    FfiValue.tryFrom f.toValue = .ok f ∧
    Lossless FfiCallResponse.recover r (FfiCallResponse.tryFrom r) ∧
    Lossless FfiEvent.recover e (FfiEvent.tryFrom e) ∧
    (Lossless FfiStreamOpenInfo.recover o (FfiStreamOpenInfo.tryFrom o) ↔
      FitsI64 (.int o.deadlineMs) ∨ ¬ o.args.All FitsI64) :=
  ⟨FfiValue.tryFrom_lossless v, tryFrom_fails_iff, FfiValue.tryFrom_toValue f,
    FfiCallResponse.tryFrom_lossless r, FfiEvent.tryFrom_lossless e,
    FfiStreamOpenInfo.tryFrom_lossless_iff o⟩

/-- A STREAM_OPEN with deadline `n`. -/
def openBy (n : Int) : StreamOpenInfo where
  streamId := .fill 1
  procedure := "procedure"
  realm := .fill 2
  mode := .bidi
  args := .null
  deadlineMs := n
  caller := .fill 3

/-- The deadline `2 ^ 63` becomes `-2 ^ 63`, and nothing tells the two apart any more. -/
theorem not_lossless_deadline :
    Cbor.IntOk (.int (2 ^ 63)) ∧
    ¬ Lossless FfiStreamOpenInfo.recover (openBy (2 ^ 63))
      (FfiStreamOpenInfo.tryFrom (openBy (2 ^ 63))) ∧
    (∃ f, FfiStreamOpenInfo.tryFrom (openBy (2 ^ 63)) = .ok f ∧ f.deadlineMs.toInt = -2 ^ 63) ∧
    FfiStreamOpenInfo.tryFrom (openBy (2 ^ 63)) = FfiStreamOpenInfo.tryFrom (openBy (-2 ^ 63)) := by
  refine ⟨by decide, fun h => ?_, ⟨_, rfl, by decide⟩, rfl⟩
  rcases (FfiStreamOpenInfo.tryFrom_lossless_iff _).mp h with hfits | hargs
  · exact absurd hfits.2 (by decide)
  · exact hargs (Value.all_null.mpr trivial)

end Macula.Ffi
