import SharedClipboard.Device

/-!
# Services announced by multicast

What the daemon reports about a service, and the device that announces it. A service bears the name
of its device followed by the service type; the fingerprint of the device stands among the
properties of the service.
-/

namespace SharedClipboard.Discovery

/-- A service whose addresses are known. -/
structure Service where
  fullname : String
  addresses : List Net.IpAddress
  port : UInt16
  /-- The properties, in the order in which they are announced. -/
  properties : List (String × String) := []
  deriving DecidableEq, Repr, Inhabited

/-- The text in front of an ending, if the text has this ending. -/
def beforeEnding? (s ending : List Char) : Option (List Char) :=
  if s.drop (s.length - ending.length) = ending then some (s.take (s.length - ending.length))
  else none

/-- The name of the device that announces a service: what stands in front of the service type, or
else the first label. -/
def instanceName (fullname serviceType : String) : String :=
  let s := fullname.toList
  let inFront := do
    let rest ← beforeEnding? s serviceType.toList
    beforeEnding? rest ['.']
  String.ofList (inFront.getD (s.takeWhile (· != '.')))

/-- The address under which a device is dialed. Both ends prefer addresses of the first kind, so
that they agree on the address that they see; among those of one kind the smallest is taken. -/
def preferredAddress : List Net.IpAddress → Option Net.IpAddress
  | [] => none
  | a :: rest => some (rest.foldl (fun best x => if x.before best then x else best) a)

namespace Service

/-- The value of a property; upper and lower case of its name are the same. -/
def property? (s : Service) (key : String) : Option String :=
  (s.properties.find? fun p => p.1.map Char.toLower = key).map (·.2)

def fingerprintKey : String := "fp"

/-- The property that holds the version of the wire format. -/
def versionKey : String := "v"

def version : String := "1"

/-- The device that announces a service, unless it has no address. -/
def device? (s : Service) (serviceType : String) : Option Device :=
  (preferredAddress s.addresses).map fun address =>
    { address, port := s.port, name := instanceName s.fullname serviceType
      fingerprint := ((s.property? fingerprintKey).filter (· ≠ "")).map Fingerprint.mk }

/-- The name under which a device announces itself. -/
def fullnameOf (name serviceType : String) : String := s!"{name}.{serviceType}"

/-- The properties of the service as which a device announces itself. -/
def propertiesOf (f : Option Fingerprint) : List (String × String) :=
  (f.toList.map fun f => (fingerprintKey, f.text)) ++ [(versionKey, version)]

end Service

end SharedClipboard.Discovery
