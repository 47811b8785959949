import Macula.Connection.Handshake
import Macula.Dht
import Macula.Frame.Codec
import Macula.Lib.First
import Macula.Lib.Runs

/-!
# Station discovery

The discovery loop of a pool asks a station for the procedure advertisements it knows, finds
the realm of `hecate_stations.list_stations` among them, calls that procedure and adds a link
for each station in the answer.

The realm is written in hexadecimal in the URI of an advertisement, and decoding it slices the
text every two bytes.  The text comes from whoever signed the record, and a slice that cuts a
character panics.  A panic ends the task (`loop_survives_iff`); nothing else that a peer sends
does.
-/

namespace Macula.Discovery

open Macula.Cbor (Value)
open Macula.Connection (CallError Trust)
open Macula.Dht (Record)
open Macula.Frame (CallResponse parseCallResponse)

def LIST_STATIONS_PROCEDURE : String := "hecate_stations.list_stations"

/-! ## The realm in a procedure URI -/

/-- The value of a hexadecimal digit. -/
def hexDigitValue (b : UInt8) : Option Nat :=
  if 0x30 ≤ b ∧ b ≤ 0x39 then some (b.toNat - 0x30)
  else if 0x41 ≤ b ∧ b ≤ 0x46 then some (b.toNat - 0x37)
  else if 0x61 ≤ b ∧ b ≤ 0x66 then some (b.toNat - 0x57)
  else none

/-- `u8::from_str_radix(src, 16).ok()`. -/
def fromStrRadix16 (src : Bytes) : Option UInt8 :=
  -- a plus sign may come before the digits
  let digits := match src with
    | 0x2B :: d :: ds => d :: ds
    | ds => ds
  if digits = [] then none
  else (digits.foldlM (fun n d => do
    let v ← hexDigitValue d
    if 16 * n + v < 256 then some (16 * n + v) else none) 0).map UInt8.ofNat

/-- The bytes of `n` pairs of digits, from position `i` on.  The first pair that is no number
ends the scan. -/
def hexPairs {ε : Type} (b : Bytes) : (n i : Nat) → Outcome ε (Option Bytes)
  | 0, _ => .ok (some [])
  | n + 1, i => do
      let pair ← Utf8.strSlice b i (i + 2)
      match fromStrRadix16 pair with
      | none => return none
      | some x => do
          let rest ← hexPairs b n (i + 2)
          return rest.map (x :: ·)

def hexDecode {ε : Type} (s : String) : Outcome ε (Option Bytes) :=
  let b := Utf8.bytes s
  if b.length % 2 ≠ 0 then .ok none else hexPairs b (b.length / 2) 0

/-- `s.strip_suffix(suffix)`. -/
def stripSuffix (s suffix : String) : Option String :=
  if suffix.toList <:+ s.toList then
    some (.ofList (s.toList.take (s.toList.length - suffix.toList.length)))
  else none

def tryMatchListStationsRealm {ε : Type} (procedureUri : String) :
    Outcome ε (Option (ByteArr 32)) :=
  match stripSuffix procedureUri ("/" ++ LIST_STATIONS_PROCEDURE) with
  | none => .ok none
  | some hexRealm =>
      if (Utf8.bytes hexRealm).length ≠ 64 then .ok none
      else do
        let bytes ← hexDecode hexRealm
        return bytes.bind (toArr 32)

/-! ## One refresh -/

structure Seed where
  host : String
  port : UInt16
deriving DecidableEq

/-- A response as it comes off the wire, parsed from a frame that the decoder gave. -/
structure Received where
  frame : Value
  fits : Cbor.Fits 0 frame
  response : CallResponse
  parsed : parseCallResponse frame = .ok response

/-- What calling a procedure with its payload returns. -/
abbrev WireSession := String → Value → Except CallError Received

/-- The session as the DHT queries see it. -/
def WireSession.toSession (session : WireSession) : Dht.Session := fun procedure payload =>
  match session procedure payload with
  | .ok received => .ok received.response
  | .error e => .err e

/-- What the links of the pool say when a row is looked at. -/
structure Links where
  occupiedDiscoverySlots : Nat
  /-- The nodes at the far ends of the connected links. -/
  linkedNodes : List NodeId

/-- What one refresh sees. -/
structure Round where
  /-- The session of the first connected link, if it still has one. -/
  session : Option WireSession
  /-- The time at which the record at position `i` of the answer is checked. -/
  checkedAt : Nat → Int
  /-- How the pool's call of `list_stations` in a realm ends; `none` when it fails. -/
  listStations : ByteArr 32 → Option CallResponse
  /-- The links when the row at position `i` is looked at. -/
  links : Nat → Links

/-- The options of the pool that a refresh depends on. -/
structure Options where
  trust : Trust
  maxLinks : Nat
  /-- Whether a host parses as an `IpAddr`. -/
  isIpAddr : String → Bool

section

variable (E : Ed25519) (o : Options)

/-- The check of one record. -/
def realmOf (checkedAt : Nat → Int) (i : Nat) (r : Record) : Outcome Unit (ByteArr 32) := do
  (Dht.verify E (checkedAt i) r).mapErr fun _ => ()
  let advertisement ← (Dht.readProcedureAdvertisement r).mapErr fun _ => ()
  let realm ← tryMatchListStationsRealm advertisement.procedureUri
  .okOr () realm

def resolveListStationsRealm {ε : Type} (round : Round) : Outcome ε (Option (ByteArr 32)) :=
  match round.session with
  | none => .ok none
  | some session =>
      match Dht.findRecordsByType session.toSession Dht.TYPE_PROCEDURE_ADVERTISEMENT with
      | .ok records => Outcome.findFirst (realmOf E round.checkedAt) 0 records
      | .err _ => .ok none
      | .panicked => .panicked

def portField (row : Value) : Option UInt16 :=
  match row.get "quic_port" with
  | some (.int n) => if 1 ≤ n ∧ n ≤ 65535 then some (.ofNat n.toNat) else none
  | _ => none

def hostnameField (row : Value) : Option String :=
  match row.get "hostname" with
  | some (.text t) => if t = "" then none else some t
  | some (.bytes b) => if b = [] then none else Utf8.decode b
  | _ => none

def hostAdvertisedField (row : Value) : Option String :=
  match row.get "host_advertised" with
  | some (.list items) => items.findSome? Dht.hostItem
  | _ => none

def nodeIdField (row : Value) : Option NodeId :=
  match row.get "node_id" with
  | some (.bytes b) => toArr 32 b
  | _ => none

/-- The host, the port and the node of a row; a hostname comes before an advertised host. -/
def dialTargetFromStationRow (row : Value) : Option (String × UInt16 × Option NodeId) := do
  let port ← portField row
  let host ← (hostnameField row).or (hostAdvertisedField row)
  return (host, port, nodeIdField row)

/-- A station with a bare address cannot pass under WebPKI and is pinned instead. -/
def linkTrust (host : String) (nodeId : Option NodeId) : Option Trust :=
  if o.isIpAddr host ∧ o.trust = .webPki then nodeId.map .pinned else some o.trust

/-- The links that the rows from position `i` on ask for. -/
def addDiscoveredLinks (links : Nat → Links) : (i : Nat) → List Value → List (Seed × Trust)
  | _, [] => []
  | i, station :: stations =>
      if (links i).occupiedDiscoverySlots ≥ o.maxLinks then []
      else
        let rest := addDiscoveredLinks links (i + 1) stations
        match dialTargetFromStationRow station with
        | none => rest
        | some (host, port, nodeId) =>
            match linkTrust o host nodeId with
            | none => rest
            | some trust =>
                if nodeId.any ((links i).linkedNodes.contains ·) then rest
                else (⟨host, port⟩, trust) :: rest

/-- One refresh, with the links it asks for. -/
def discoverOnce {ε : Type} (round : Round) : Outcome ε (List (Seed × Trust)) := do
  let realm ← resolveListStationsRealm E round
  match realm with
  | none => return []
  | some realm =>
      match round.listStations realm with
      | some (.result payload _) =>
          match payload.get "stations" with
          | some (.list stations) => return addDiscoveredLinks o round.links 0 stations
          | _ => return []
      | _ => return []

end

/-! ## The loop -/

/-- Where the task of `discover_stations_loop` is. -/
inductive Task where
  /-- In `wait_for_any_healthy_link`. -/
  | waiting
  /-- At the top of the loop. -/
  | refreshing
  | returned
  /-- A panic has ended the task. -/
  | died
deriving DecidableEq

/-- What the task sees when it is woken. -/
structure Tick where
  stopped : Bool
  healthyLinks : Nat
  round : Round

/-- The discovery of a pool that pins one station has nothing to do. -/
def Task.start : Trust → Task
  | .pinned _ => .returned
  | _ => .waiting

/-- The task after a refresh. -/
def refresh (E : Ed25519) (o : Options) (round : Round) : Task :=
  match (discoverOnce E o round : Outcome Empty (List (Seed × Trust))) with
  | .panicked => .died
  | _ => .refreshing

def loopStep (E : Ed25519) (o : Options) : Task → Tick → Option Task
  | .waiting, tick =>
      some (if tick.stopped then .returned else if tick.healthyLinks > 0 then .refreshing
        else .waiting)
  | .refreshing, tick => some (if tick.stopped then .returned else refresh E o tick.round)
  | .returned, _ | .died, _ => none

/-! ## Texts that cut a character -/

/-- The pair of bytes at `i` does not begin and end between characters. -/
def CutsAt (b : Bytes) (i : Nat) : Prop :=
  ¬ (Utf8.isCharBoundary b i = true ∧ Utf8.isCharBoundary b (i + 2) = true)

/-- One of the `n` pairs from position `i` on cuts a character, and those before it are
numbers. -/
def CutsFrom (b : Bytes) (n i : Nat) : Prop :=
  ∃ k < n, CutsAt b (i + 2 * k) ∧
    ∀ j < k, (fromStrRadix16 (seg b (i + 2 * j) (i + 2 * j + 2))).isSome = true

/-- The 64 bytes that stand for a realm in the URI cut a character. -/
def CutsCharacter (procedureUri : String) : Prop :=
  ∃ hexRealm, stripSuffix procedureUri ("/" ++ LIST_STATIONS_PROCEDURE) = some hexRealm ∧
    (Utf8.bytes hexRealm).length = 64 ∧ CutsFrom (Utf8.bytes hexRealm) 32 0

theorem strSlice_pair {ε : Type} {b : Bytes} {i : Nat} (h : i + 2 ≤ b.length) :
    (CutsAt b i ∧ (Utf8.strSlice b i (i + 2) : Outcome ε Bytes) = .panicked) ∨
      (¬ CutsAt b i ∧ (Utf8.strSlice b i (i + 2) : Outcome ε Bytes) = .ok (seg b i (i + 2))) := by
  by_cases hcut : CutsAt b i
  · refine .inl ⟨hcut, if_neg ?_⟩
    rintro ⟨-, -, hbegin, hend⟩
    exact hcut ⟨hbegin, hend⟩
  · refine .inr ⟨hcut, if_pos ?_⟩
    rw [CutsAt, not_not] at hcut
    exact ⟨by omega, h, hcut.1, hcut.2⟩

theorem cutsFrom_succ {b : Bytes} {n i : Nat} :
    CutsFrom b (n + 1) i ↔ CutsAt b i ∨
      (fromStrRadix16 (seg b i (i + 2))).isSome = true ∧ CutsFrom b n (i + 2) := by
  have hstep : ∀ k, i + 2 * (k + 1) = i + 2 + 2 * k := fun k => by omega
  constructor
  · rintro ⟨k, hk, hcut, hbefore⟩
    cases k with
    | zero => exact .inl hcut
    | succ k =>
      refine .inr ⟨hbefore 0 (Nat.succ_pos k), k, Nat.lt_of_succ_lt_succ hk, ?_, fun j hj => ?_⟩
      · rwa [← hstep]
      · rw [← hstep]
        exact hbefore (j + 1) (Nat.succ_lt_succ hj)
  · rintro (hcut | ⟨hhex, k, hk, hcut, hbefore⟩)
    · exact ⟨0, Nat.succ_pos n, hcut, fun j hj => absurd hj (Nat.not_lt_zero j)⟩
    · refine ⟨k + 1, Nat.succ_lt_succ hk, by rwa [hstep], fun j hj => ?_⟩
      cases j with
      | zero => exact hhex
      | succ j =>
        rw [hstep]
        exact hbefore j (Nat.lt_of_succ_lt_succ hj)

theorem hexPairs_eq_panicked {ε : Type} {b : Bytes} : ∀ {n i : Nat}, i + 2 * n ≤ b.length →
    ((hexPairs b n i : Outcome ε (Option Bytes)) = .panicked ↔ CutsFrom b n i) := by
  intro n
  induction n with
  | zero =>
      intro i _
      constructor
      · intro h
        cases h
      · rintro ⟨k, hk, -⟩
        exact absurd hk (Nat.not_lt_zero k)
  | succ n ih =>
      intro i hlen
      have hrest := @ih (i + 2) (by omega)
      rw [cutsFrom_succ, hexPairs]
      rcases strSlice_pair (ε := ε) (b := b) (i := i) (by omega) with
        ⟨hcut, hslice⟩ | ⟨hcut, hslice⟩
      · rw [hslice]
        exact iff_of_true rfl (.inl hcut)
      · rw [hslice, Outcome.ok_bind]
        cases hhex : fromStrRadix16 (seg b i (i + 2)) with
        | none => simp [hcut]
        | some x => simp [hcut, Outcome.bind_eq_panicked, hrest]

theorem tryMatchListStationsRealm_eq_panicked {ε : Type} {procedureUri : String} :
    (tryMatchListStationsRealm procedureUri : Outcome ε (Option (ByteArr 32))) = .panicked ↔
      CutsCharacter procedureUri := by
  unfold tryMatchListStationsRealm CutsCharacter
  cases hstrip : stripSuffix procedureUri ("/" ++ LIST_STATIONS_PROCEDURE) with
  | none => simp
  | some hexRealm =>
    by_cases hlen : (Utf8.bytes hexRealm).length = 64
    · have hpairs := hexPairs_eq_panicked (ε := ε) (b := Utf8.bytes hexRealm) (n := 32) (i := 0)
        (by omega)
      simp [hlen, hexDecode, Outcome.bind_eq_panicked, hpairs]
    · simp [hlen]

/-! ## A refresh that panics -/

section

variable (E : Ed25519)

/-- A record of `records` verifies and has a procedure URI that cuts a character, and those
before it are turned down. -/
def Poisons (checkedAt : Nat → Int) (records : List Record) : Prop :=
  ∃ k r adv, records[k]? = some r ∧ Dht.verify E (checkedAt k) r = .ok () ∧
    Dht.readProcedureAdvertisement r = .ok adv ∧ CutsCharacter adv.procedureUri ∧
    ∀ j r', j < k → records[j]? = some r' → realmOf E checkedAt j r' = .err ()

/-- The refresh gets records that poison it. -/
def Round.Poisoned (round : Round) : Prop :=
  ∃ session records, round.session = some session ∧
    Dht.findRecordsByType session.toSession Dht.TYPE_PROCEDURE_ADVERTISEMENT = .ok records ∧
    Poisons E round.checkedAt records

variable {E}

theorem realmOf_eq_panicked {checkedAt : Nat → Int} {i : Nat} {r : Record}
    (hrange : (Dht.envelope r).IntsInRange) :
    realmOf E checkedAt i r = .panicked ↔ Dht.verify E (checkedAt i) r = .ok () ∧
      ∃ adv, Dht.readProcedureAdvertisement r = .ok adv ∧ CutsCharacter adv.procedureUri := by
  have hverify := Dht.verify_ne_panicked E (checkedAt i) hrange
  have hread := Dht.readProcedureAdvertisement_ne_panicked r
  simp only [realmOf, Outcome.bind_eq_panicked, Outcome.mapErr_eq_panicked, Outcome.mapErr_eq_ok,
    hverify, hread, false_or, tryMatchListStationsRealm_eq_panicked, Outcome.okOr_ne_panicked,
    and_false, exists_const, or_false]
  constructor
  · rintro ⟨⟨⟩, hok, adv, hadv, hcut⟩
    exact ⟨hok, adv, hadv, hcut⟩
  · rintro ⟨hok, adv, hadv, hcut⟩
    exact ⟨(), hok, adv, hadv, hcut⟩

/-- The payload of a response off the wire is in range. -/
theorem Received.payload_inRange (received : Received) {payload : Value} {respondedBy : NodeId}
    (h : received.response = .result payload respondedBy) : payload.IntsInRange := by
  have hparsed := received.parsed
  rw [h, parseCallResponse] at hparsed
  split at hparsed
  · obtain ⟨payload', hpayload, hparsed⟩ := Outcome.bind_eq_ok.mp hparsed
    obtain ⟨respondedBy', -, hparsed⟩ := Outcome.bind_eq_ok.mp hparsed
    cases hparsed
    exact Value.inRange_get received.fits.encodable.ints (Outcome.okOr_eq_ok.mp hpayload)
  · split at hparsed
    · obtain ⟨code, -, hparsed⟩ := Outcome.bind_eq_ok.mp hparsed
      obtain ⟨name, -, hparsed⟩ := Outcome.bind_eq_ok.mp hparsed
      obtain ⟨reportedBy, -, hparsed⟩ := Outcome.bind_eq_ok.mp hparsed
      obtain ⟨detail, -, hparsed⟩ := Outcome.bind_eq_ok.mp hparsed
      cases hparsed
    · cases hparsed

theorem toSession_eq_ok {session : WireSession} {procedure : String} {payload : Value}
    {response : CallResponse} (h : session.toSession procedure payload = .ok response) :
    ∃ received : Received, received.response = response := by
  unfold WireSession.toSession at h
  split at h
  · exact ⟨_, Outcome.ok.inj h⟩
  · cases h

/-- The records that a refresh gets can be checked. -/
theorem findRecordsByType_inRange {session : WireSession} {typ : UInt8} {records : List Record}
    (h : Dht.findRecordsByType session.toSession typ = .ok records) :
    ∀ r ∈ records, (Dht.envelope r).IntsInRange := by
  obtain ⟨response, hresponse, h⟩ := Outcome.bind_eq_ok.mp h
  obtain ⟨received, hreceived⟩ := toSession_eq_ok (Outcome.mapErr_eq_ok.mp hresponse)
  cases response with
  | result payload respondedBy =>
    exact Dht.recordsListFromResponse_inRange (received.payload_inRange hreceived) h
  | error => cases h

theorem findRecordsByType_ne_panicked (session : WireSession) (typ : UInt8) :
    Dht.findRecordsByType session.toSession typ ≠ .panicked := by
  refine Outcome.bind_ne_panicked ?_ fun response _ => ?_
  · rw [Ne, Outcome.mapErr_eq_panicked]
    unfold WireSession.toSession
    split <;> nofun
  · unfold Dht.recordsListFromResponse
    split <;> nofun

theorem findFirst_eq_panicked_iff {ε : Type} {checkedAt : Nat → Int} {records : List Record}
    (hrange : ∀ r ∈ records, (Dht.envelope r).IntsInRange) :
    (Outcome.findFirst (realmOf E checkedAt) 0 records : Outcome ε _) = .panicked ↔
      Poisons E checkedAt records := by
  rw [Outcome.findFirst_eq_panicked]
  constructor
  · rintro ⟨k, r, ⟨hget, hbefore⟩, hpanic⟩
    rw [Nat.zero_add, realmOf_eq_panicked (hrange r (List.mem_of_getElem? hget))] at hpanic
    obtain ⟨hverify, adv, hread, hcut⟩ := hpanic
    refine ⟨k, r, adv, hget, hverify, hread, hcut, fun j r' hj hr' => ?_⟩
    obtain ⟨⟨⟩, herr⟩ := hbefore j r' hj hr'
    rwa [Nat.zero_add] at herr
  · rintro ⟨k, r, adv, hget, hverify, hread, hcut, hbefore⟩
    refine ⟨k, r, ⟨hget, fun j r' hj hr' => ⟨(), ?_⟩⟩, ?_⟩
    · rw [Nat.zero_add]
      exact hbefore j r' hj hr'
    · rw [Nat.zero_add, realmOf_eq_panicked (hrange r (List.mem_of_getElem? hget))]
      exact ⟨hverify, adv, hread, hcut⟩

theorem resolveListStationsRealm_eq_panicked {ε : Type} {round : Round} :
    (resolveListStationsRealm E round : Outcome ε (Option (ByteArr 32))) = .panicked ↔
      round.Poisoned E := by
  unfold resolveListStationsRealm Round.Poisoned
  cases round.session with
  | none => simp
  | some session =>
    cases hrecords : Dht.findRecordsByType session.toSession Dht.TYPE_PROCEDURE_ADVERTISEMENT with
    | ok records =>
      simp [hrecords, findFirst_eq_panicked_iff (findRecordsByType_inRange hrecords)]
    | err e => simp [hrecords]
    | panicked => exact absurd hrecords (findRecordsByType_ne_panicked session _)

/-- A refresh panics exactly when it is poisoned. -/
theorem discoverOnce_eq_panicked {ε : Type} {o : Options} {round : Round} :
    (discoverOnce E o round : Outcome ε (List (Seed × Trust))) = .panicked ↔
      round.Poisoned E := by
  rw [discoverOnce, Outcome.bind_eq_panicked, resolveListStationsRealm_eq_panicked]
  refine or_iff_left ?_
  rintro ⟨realm, -, h⟩
  cases realm with
  | none => cases h
  | some realm =>
    dsimp only at h
    split at h
    · split at h <;> cases h
    · cases h

/-! ## Runs of the loop -/

variable {o : Options}

theorem refresh_of_poisoned {round : Round} (h : round.Poisoned E) : refresh E o round = .died := by
  rw [refresh, discoverOnce_eq_panicked.mpr h]

theorem refresh_of_sound {round : Round} (h : ¬ round.Poisoned E) :
    refresh E o round = .refreshing := by
  unfold refresh
  split
  · next hpanic => exact absurd (discoverOnce_eq_panicked.mp hpanic) h
  · rfl

/-- Where the task is after it was woken. -/
theorem loopStep_cases {task task' : Task} {tick : Tick}
    (h : loopStep E o task tick = some task') :
    (tick.stopped = true ∧ task' = .returned) ∨
      (tick.stopped = false ∧ (task' = .waiting ∨ task' = .refreshing)) ∨
      (tick.stopped = false ∧ task = .refreshing ∧ tick.round.Poisoned E ∧ task' = .died) := by
  cases hstopped : tick.stopped with
  | true =>
    refine .inl ⟨rfl, ?_⟩
    cases task <;> simp_all [loopStep]
  | false =>
    refine .inr ?_
    cases task with
    | waiting =>
      simp only [loopStep, hstopped, Bool.false_eq_true, if_false, Option.some.injEq] at h
      refine .inl ⟨rfl, ?_⟩
      split at h
      · exact .inr h.symm
      · exact .inl h.symm
    | refreshing =>
      simp only [loopStep, hstopped, Bool.false_eq_true, if_false, Option.some.injEq] at h
      by_cases hpoisoned : tick.round.Poisoned E
      · exact .inr ⟨rfl, rfl, hpoisoned, by rw [← h, refresh_of_poisoned hpoisoned]⟩
      · exact .inl ⟨rfl, .inr (by rw [← h, refresh_of_sound hpoisoned])⟩
    | returned => cases h
    | died => cases h

/-- No refresh is made with records that poison it. -/
def Unpoisoned (E : Ed25519) (task : Task) (tick : Tick) : Prop :=
  ¬ (task = .refreshing ∧ tick.stopped = false ∧ tick.round.Poisoned E)

/-- **Discovery goes on until the pool is stopped** exactly in the runs in which no refresh is
poisoned.  A refresh returns exactly when it is not poisoned, and only a stop makes the loop
return. -/
theorem loop_survives_iff (E : Ed25519) (o : Options) (ticks : List Tick) :
    ((∀ pre task, pre <+: ticks → run (loopStep E o) (.start o.trust) pre = some task →
        task ≠ .died) ↔
      Guarded (loopStep E o) (Unpoisoned E) (.start o.trust) ticks) ∧
    (∀ task tick task', loopStep E o task tick = some task' →
      (task' = .returned ↔ tick.stopped = true)) ∧
    ∀ round : Round,
      ((resolveListStationsRealm E round : Outcome Empty _) ≠ .panicked ↔ ¬ round.Poisoned E) ∧
      ((discoverOnce E o round : Outcome Empty _) ≠ .panicked ↔ ¬ round.Poisoned E) := by
  refine ⟨?_, ?_, fun round => ?_⟩
  · refine good_iff_guarded (fun task => task ≠ Task.died) (fun task => task ≠ Task.died) ?_
      (fun _ h => h) ?_ ?_
    · intro task tick task' halive hsound hstep
      rcases loopStep_cases hstep with ⟨-, rfl⟩ | ⟨-, rfl | rfl⟩ | ⟨hstopped, htask, hpoisoned, -⟩
      · nofun
      · nofun
      · nofun
      · exact absurd ⟨htask, hstopped, hpoisoned⟩ hsound
    · intro task tick halive hpoisoned
      rw [Unpoisoned, not_not] at hpoisoned
      obtain ⟨rfl, hstopped, hpoisoned⟩ := hpoisoned
      refine ⟨.died, ?_, fun h => h rfl⟩
      rw [loopStep, hstopped, if_neg Bool.false_ne_true, refresh_of_poisoned hpoisoned]
    · unfold Task.start
      split <;> nofun
  · intro task tick task' hstep
    rcases loopStep_cases hstep with ⟨hstopped, rfl⟩ | ⟨hstopped, rfl | rfl⟩ | ⟨hstopped, -, -, rfl⟩
    · exact iff_of_true rfl hstopped
    all_goals simp [hstopped]
  · exact ⟨not_congr resolveListStationsRealm_eq_panicked, not_congr discoverOnce_eq_panicked⟩

end

/-! ## A record that ends discovery -/

def signer : KeyPair := ⟨.fill 1⟩

/-- 64 bytes with an `a` first and a character of two bytes after it. -/
def cuttingUri : String :=
  .ofList ('a' :: 'é' :: List.replicate 61 'a') ++ "/" ++ LIST_STATIONS_PROCEDURE

def cuttingRecord : Record :=
  let r := Dht.newProcedureAdvertisement (signer.nodeId .standIn) cuttingUri
    (signer.nodeId .standIn) Dht.DEFAULT_TTL ⟨0, .fill 0⟩
  (Dht.sign .standIn r signer : Outcome Dht.DhtError Record).toOption.getD r

/-- The RESULT that carries the record. -/
def cuttingResult : Value :=
  Frame.result
    { callId := .fill 0, payload := .list [Dht.toRpcValue cuttingRecord],
      respondedBy := signer.nodeId .standIn } (.fill 0) 0

theorem decode_cuttingResult :
    Frame.decode (Frame.wire (Cbor.canon cuttingResult)) =
      .ok (.frame cuttingResult.sorted (Frame.wire (Cbor.canon cuttingResult)).length) := by
  decide +kernel

def cuttingReceived : Received where
  frame := cuttingResult.sorted
  fits := Frame.decode_frame_fits decode_cuttingResult
  response := .result (.list [(Dht.toRpcValue cuttingRecord).sorted]) (signer.nodeId .standIn)
  parsed := by decide +kernel

def cuttingTick : Tick where
  stopped := false
  healthyLinks := 1
  round :=
    { session := some fun _ _ => .ok cuttingReceived, checkedAt := fun _ => 0,
      listStations := fun _ => none, links := fun _ => ⟨0, []⟩ }

/-- The record verifies, and the first refresh that gets it ends the task. -/
theorem cutting_record_ends_discovery :
    Dht.verify .standIn 0 cuttingRecord = .ok () ∧
    cuttingTick.stopped = false ∧
    run (loopStep .standIn ⟨.webPki, 5, fun _ => false⟩) (.start .webPki)
      [cuttingTick, cuttingTick] = some .died := by
  refine ⟨?_, rfl, ?_⟩
  · decide +kernel
  · decide +kernel

end Macula.Discovery
