import SharedClipboard.Device
import SharedClipboard.Json.Printer
import SharedClipboard.Json.Reader
import SharedClipboard.Net.AddressReader

/-!
# Devices as JSON

A device as an object with its four fields, of which only the fingerprint may be missing, or as
the list of all four. A device is written as an object with all fields.
-/

namespace SharedClipboard.Device

open Json Reader Net

/-- The fields that were read so far. The fingerprint may be there and be nothing. -/
structure Draft where
  address : Option IpAddress := none
  port : Option Nat := none
  name : Option String := none
  fingerprint : Option (Option String) := none

def readAddress : Reader IpAddress := do
  match IpAddress.ofText? (← string) with
  | some a => return a
  | none => fail .wrongShape

def readField (d : Draft) (key : String) : Reader Draft :=
  match key with
  | "address" => do return { d with address := ← once d.address readAddress }
  | "port" => do return { d with port := ← once d.port (natural UInt16.size) }
  | "display_name" => do return { d with name := ← once d.name string }
  | "fingerprint" => do return { d with fingerprint := ← once d.fingerprint (orNull string) }
  | _ => do
    skipValue
    return d

/-- The device of a draft in which nothing but the fingerprint is missing. -/
def Draft.complete (d : Draft) : Reader Device :=
  match d.address, d.port, d.name with
  | some address, some port, some name =>
    return { address, port := UInt16.ofNat port, name,
             fingerprint := d.fingerprint.join.map Fingerprint.mk }
  | _, _, _ => fail .wrongShape

/-- The next element of a list, which must be there. -/
def required {α : Type} (first : Bool) (r : Reader α) : Reader α := do
  match ← element? first r with
  | some a => return a
  | none => fail .wrongShape

def readElements : Reader Device := do
  let address ← required true readAddress
  let port ← required false (natural UInt16.size)
  let name ← required false string
  let fingerprint ← required false (orNull string)
  return { address, port := UInt16.ofNat port, name, fingerprint := fingerprint.map Fingerprint.mk }

/-- The device that a text spells. -/
def ofJson? (b : Bytes) : Except FormatFault Device :=
  (record {} readField Draft.complete readElements).run b

def toJson (d : Device) : String :=
  Json.object
    [("address", quote d.address.text), ("port", toString d.port.toNat),
      ("display_name", quote d.name),
      ("fingerprint", (d.fingerprint.map fun f => quote f.text).getD "null")]

end SharedClipboard.Device
