import Mathlib.Data.List.Basic

/-!
# Where a seed URL points to
-/

namespace Macula.DirectDial

/-- `s.strip_prefix(head)` -/
def stripPrefix (s head : String) : Option String :=
  if head.toList <+: s.toList then some (.ofList (s.toList.drop head.toList.length)) else none

/-- `s.rsplit_once(c)` -/
def rsplitOnce (s : String) (c : Char) : Option (String × String) :=
  if c ∈ s.toList then
    let after := (s.toList.reverse.takeWhile (· ≠ c)).reverse
    some (.ofList (s.toList.take (s.toList.length - (after.length + 1))), .ofList after)
  else none

/-- `s.parse::<u16>().ok()` -/
def parseU16 (s : String) : Option UInt16 :=
  -- a plus sign may come before the digits
  let digits := match s.toList with
    | '+' :: ds => ds
    | ds => ds
  if digits = [] then none
  else (digits.foldlM (fun n d =>
    if '0' ≤ d ∧ d ≤ '9' ∧ 10 * n + (d.toNat - 0x30) < 65536 then some (10 * n + (d.toNat - 0x30))
    else none) 0).map UInt16.ofNat

/-- The host and port of a URL, or of a plain `host:port`. -/
def parseSeedUrl (seed : String) : Option (String × UInt16) :=
  match (stripPrefix seed "https://").or (stripPrefix seed "http://") with
  | some rest => do
      -- `split('/').next()`
      let hostport := String.ofList (rest.toList.takeWhile (· ≠ '/'))
      let (host, portStr) ← rsplitOnce hostport ':'
      let port ← parseU16 portStr
      return (host, port)
  | none => do
      let (host, portStr) ← rsplitOnce seed ':'
      let port ← parseU16 portStr
      return (host, port)

example : parseSeedUrl "https://station:4433/path" = some ("station", 4433) := by decide

end Macula.DirectDial
