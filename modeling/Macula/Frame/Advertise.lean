import Macula.Frame.Envelope

/-!
# ADVERTISE and GOODBYE

The two frames of a session that embed no value of a caller: what they carry are keys, texts
and byte strings.
-/

namespace Macula.Frame

open Macula.Cbor (Value)

structure AdvertiseSpec where
  realm : ByteArr 32
  procedure : String
  advertiser : NodeId

def advertise (spec : AdvertiseSpec) (frameId : ByteArr 16) (sentAtMs : UInt64) : Value :=
  (Value.map (base "advertise" 0 frameId sentAtMs))
    |>.withField "realm" (.bytes spec.realm.1)
    |>.withField "procedure" (.bytes (Utf8.bytes spec.procedure))
    |>.withField "advertiser" (.bytes spec.advertiser.1)
    |>.withField "options" (.map [])

def goodbye (reason : String) (detail : Option String) (frameId : ByteArr 16)
    (sentAtMs : UInt64) : Value :=
  .map (base "goodbye" 0 frameId sentAtMs ++
    [(.text "reason", .text reason),
     (.text "detail", (detail.map fun d => .bytes (Utf8.bytes d)).getD .null)])

section

variable (frameId : ByteArr 16) (sentAtMs : UInt64)

theorem advertise_inRange (spec : AdvertiseSpec) :
    (advertise spec frameId sentAtMs).IntsInRange := by
  refine Value.inRange_withField ?_ (Value.inRange_map.mpr nofun)
  refine Value.inRange_withField ?_ (Value.inRange_bytes _)
  refine Value.inRange_withField ?_ (Value.inRange_bytes _)
  exact Value.inRange_withField (base_inRange ..) (Value.inRange_bytes _)

theorem goodbye_inRange (reason : String) (detail : Option String) :
    (goodbye reason detail frameId sentAtMs).IntsInRange := by
  have hbase := Value.inRange_map.mp (base_inRange "goodbye" 0 frameId sentAtMs)
  have hdetail : ((detail.map fun d => Value.bytes (Utf8.bytes d)).getD .null).IntsInRange := by
    exact Value.inRange_optional (fun _ => Value.inRange_bytes _) detail
  refine Value.inRange_map.mpr (List.forall_mem_append.mpr ⟨hbase, ?_⟩)
  exact List.forall_mem_cons.mpr ⟨⟨Value.inRange_text _, Value.inRange_text _⟩,
    List.forall_mem_cons.mpr ⟨⟨Value.inRange_text _, hdetail⟩, nofun⟩⟩

end

end Macula.Frame
