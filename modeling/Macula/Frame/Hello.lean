import Macula.Frame.Codec

/-!
# CONNECT and HELLO

The two frames of the handshake.  A client builds a CONNECT and parses a HELLO, so there is
no builder for a HELLO here.

A parser reads a frame through its fields only.  Two frames with the same signed bytes are
one map up to the order of their entries, so they parse to the same information
(`parseHello_congr`).
-/

namespace Macula.Frame

open Macula.Cbor (Value)

/-! ## CONNECT -/

structure ConnectSpec where
  nodeId : NodeId
  stationId : NodeId
  realms : List (ByteArr 32) := []
  capabilities : UInt64 := 0
  puzzleEvidence : ByteArr 32
  addresses : List Value := []
  site : Option Value := none
  endorsements : List Value := []

/-- A plain dial: `station_id` is the `node_id`, and no realm or address is claimed. -/
def ConnectSpec.new (nodeId : NodeId) (puzzleEvidence : ByteArr 32) : ConnectSpec :=
  { nodeId, stationId := nodeId, puzzleEvidence }

def bytes32List (items : List (ByteArr 32)) : Value := .list (items.map fun b => .bytes b.1)

def connect (spec : ConnectSpec) (frameId : ByteArr 16) (sentAtMs : UInt64) : Value :=
  .map (base "connect" spec.capabilities frameId sentAtMs ++
    [(.text "node_id", .bytes spec.nodeId.1),
     (.text "station_id", .bytes spec.stationId.1),
     (.text "realms", bytes32List spec.realms),
     (.text "addresses", .list spec.addresses),
     (.text "site", spec.site.getD .null),
     (.text "puzzle_evidence", .bytes spec.puzzleEvidence.1),
     (.text "endorsements", .list spec.endorsements)])

/-! ## HELLO -/

structure HelloInfo where
  nodeId : NodeId
  stationId : NodeId
  realms : List (ByteArr 32)
  capabilities : UInt64
  accepted : Bool
  negotiatedCapabilities : UInt64
  refusalCode : Option Int
deriving DecidableEq

inductive ParseHelloError where
  | notAHelloFrame
  | missingField (name : String)
  | wrongFieldType (name : String)
deriving DecidableEq

def getBytes32 (frame : Value) (field : String) : Outcome ParseHelloError (ByteArr 32) :=
  arrField .missingField .wrongFieldType 32 frame field

/-- One item of a list of 32-byte strings. -/
def bytes32Item (field : String) : Value → Outcome ParseHelloError (ByteArr 32)
  | .bytes b => .okOr (.wrongFieldType field) (toArr 32 b)
  | _ => .err (.wrongFieldType field)

/-- The items up to the first that is not one. -/
def bytes32Items (field : String) : List Value → Outcome ParseHelloError (List (ByteArr 32))
  | [] => .ok []
  | v :: items => do
      let b ← bytes32Item field v
      let bs ← bytes32Items field items
      return b :: bs

def getBytes32List (frame : Value) (field : String) :
    Outcome ParseHelloError (List (ByteArr 32)) :=
  match frame.get field with
  | none => .err (.missingField field)
  | some (.list items) => bytes32Items field items
  | some _ => .err (.wrongFieldType field)

def getUint (frame : Value) (field : String) : Outcome ParseHelloError UInt64 :=
  uintField .missingField .wrongFieldType frame field

/-- An Erlang boolean, which is the text of its atom. -/
def getBool (frame : Value) (field : String) : Outcome ParseHelloError Bool :=
  match frame.get field with
  | none => .err (.missingField field)
  | some v =>
      if v = .text "true" then .ok true
      else if v = .text "false" then .ok false
      else .err (.wrongFieldType field)

/-- An absent or null code is no code. -/
def refusalCodeField (frame : Value) : Outcome ParseHelloError (Option Int) :=
  match frame.get "refusal_code" with
  | none | some .null => .ok none
  | some (.int n) => .ok (some n)
  | some _ => .err (.wrongFieldType "refusal_code")

def parseHello (frame : Value) : Outcome ParseHelloError HelloInfo :=
  if frame.get "frame_type" = some (.text "hello") then do
    let refusalCode ← refusalCodeField frame
    let nodeId ← getBytes32 frame "node_id"
    let stationId ← getBytes32 frame "station_id"
    let realms ← getBytes32List frame "realms"
    let capabilities ← getUint frame "capabilities"
    let accepted ← getBool frame "accepted"
    let negotiatedCapabilities ← getUint frame "negotiated_capabilities"
    return { nodeId, stationId, realms, capabilities, accepted, negotiatedCapabilities,
             refusalCode }
  else .err .notAHelloFrame

theorem bytes32Items_sorted (field : String) : ∀ items : List Value,
    bytes32Items field (items.map Value.sorted) = bytes32Items field items := by
  intro items
  induction items with
  | nil => rfl
  | cons v items ih =>
      have hitem : bytes32Item field v.sorted = bytes32Item field v := by
        cases v <;> simp [bytes32Item]
      rw [List.map_cons, bytes32Items, bytes32Items, hitem, ih]

/-! ## What a HELLO says -/

theorem parseHello_without (frame : Value) :
    parseHello (frame.without ["signature", "publisher_sig"]) = parseHello frame := by
  have hget : ∀ field, field ∉ ["signature", "publisher_sig"] →
      (frame.without ["signature", "publisher_sig"]).get field = frame.get field :=
    fun field h => Value.get_without h frame
  simp only [parseHello, refusalCodeField, getBytes32, arrField, getBytes32List, getUint,
    uintField, getBool]
  rw [hget "frame_type" (by decide), hget "refusal_code" (by decide), hget "node_id" (by decide),
    hget "station_id" (by decide), hget "realms" (by decide), hget "capabilities" (by decide),
    hget "accepted" (by decide), hget "negotiated_capabilities" (by decide)]

section

variable {frame : Value} (h : frame.DistinctKeys)

include h

theorem refusalCodeField_sorted : refusalCodeField frame.sorted = refusalCodeField frame := by
  rw [refusalCodeField, refusalCodeField, Cbor.get_sorted_eq h]
  cases frame.get "refusal_code" with
  | none => rfl
  | some v => cases v <;> simp

theorem getBytes32List_sorted (field : String) :
    getBytes32List frame.sorted field = getBytes32List frame field := by
  rw [getBytes32List, getBytes32List, Cbor.get_sorted_eq h]
  cases frame.get field with
  | none => rfl
  | some v =>
      cases v with
      | list items =>
          rw [Option.map_some, Value.sorted_list]
          exact bytes32Items_sorted field items
      | _ => simp

theorem getBool_sorted (field : String) : getBool frame.sorted field = getBool frame field := by
  rw [getBool, getBool, Cbor.get_sorted_eq h]
  cases frame.get field with
  | none => rfl
  | some v => simp only [Option.map_some, Value.sorted_eq_text]

theorem parseHello_sorted : parseHello frame.sorted = parseHello frame := by
  simp only [parseHello, getBytes32, getUint, Cbor.get_sorted_eq_text h, refusalCodeField_sorted h,
    arrField_sorted h, getBytes32List_sorted h, uintField_sorted h, getBool_sorted h]

end

/-- Two frames with the same signed bytes are the same HELLO, or neither is one. -/
theorem parseHello_congr {ε : Type} {v w : Value} {msg : Bytes}
    (hv : (signableBytes v : Outcome ε Bytes) = .ok msg)
    (hw : (signableBytes w : Outcome ε Bytes) = .ok msg) (hvsized : v.Sized) (hwsized : w.Sized)
    (hdistinct : v.DistinctKeys) : parseHello v = parseHello w :=
  read_of_signableBytes parseHello_without parseHello_sorted hv hw hvsized hwsized hdistinct

end Macula.Frame
