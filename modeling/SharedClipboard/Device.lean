import SharedClipboard.Bytes
import SharedClipboard.Digest.Sha256
import SharedClipboard.Net.Address
import SharedClipboard.Text.Base64
import SharedClipboard.Text.Utf8

/-!
# Devices

A device is a node as the others see it: where it listens, what it is called, and the fingerprint
of the certificate that it presents, if it presents one. Two records are of the same device when
address, port and name agree; the fingerprint may change without making it another device.
-/

namespace SharedClipboard

open Net

/-- The fingerprint of a certificate. -/
structure Fingerprint where
  text : String
  deriving DecidableEq, Repr, Inhabited

namespace Fingerprint

/-- The fingerprint of a certificate in its binary form: the digest, as text. -/
def ofCertificate (der : Bytes) : Fingerprint := ⟨Text.Base64.encode (Sha256.digest der)⟩

def bytes (f : Fingerprint) : Bytes := Text.utf8 f.text

end Fingerprint

/-- What makes a device the device it is. -/
structure Device.Identity where
  address : IpAddress
  port : UInt16
  name : String
  deriving DecidableEq, Repr, Inhabited

/-- A node as the others see it. -/
structure Device where
  address : IpAddress
  port : UInt16
  name : String
  fingerprint : Option Fingerprint := none
  deriving DecidableEq, Repr, Inhabited

namespace Device

def identity (d : Device) : Identity := ⟨d.address, d.port, d.name⟩

/-- Whether two records are of the same device. -/
def same (d e : Device) : Bool := d.identity == e.identity

@[simp] theorem same_iff {d e : Device} : d.same e ↔ d.identity = e.identity := beq_iff_eq

/-- The device of a connection about whose sender nothing else is known. -/
def anonymous (a : SocketAddress) : Device :=
  { address := a.ip, port := a.port, name := a.text }

def socketAddress (d : Device) : SocketAddress := { ip := d.address, port := d.port }

/-- How a device is shown to the user. -/
def text (d : Device) : String := s!"{d.name} ({d.address.text}:{d.port.toNat})"

/-- The order in which devices are listed: by name, then port, then the text of the address. -/
def listedBefore (d e : Device) : Bool :=
  d.name < e.name || (d.name == e.name && (d.port < e.port ||
    (d.port == e.port && d.address.text ≤ e.address.text)))

/-- Devices in the order in which they are listed. -/
def listed (ds : List Device) : List Device := ds.mergeSort listedBefore

end Device

/-- How a node presents itself to the group. -/
structure LocalIdentity where
  name : String
  fingerprint : Option Fingerprint := none
  deriving DecidableEq, Repr, Inhabited

namespace LocalIdentity

/-- Whether a device found by discovery is this node's own announcement: it has the node's name
and port, at an address of this machine. -/
def isSelf (me : LocalIdentity) (port : UInt16) (machine : List IpAddress) (d : Device) : Bool :=
  d.name == me.name && d.port == port && (d.address.isLoopback || machine.contains d.address)

/-- Of two nodes that discover each other, the one whose name and port come first dials. -/
def dialsFirst (me : LocalIdentity) (port : UInt16) (d : Device) : Bool :=
  me.name < d.name || (me.name == d.name && port < d.port)

end LocalIdentity

end SharedClipboard
