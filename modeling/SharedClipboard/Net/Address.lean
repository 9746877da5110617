/-!
# Network addresses

Internet addresses of both kinds and socket addresses, with their text. An address of the second
kind is written as eight groups with the longest run of zero groups cut out, one that embeds an
address of the first kind with the embedded address spelled out.
-/

namespace SharedClipboard.Net

/-- An internet address. -/
inductive IpAddress where
  | v4 (bits : BitVec 32)
  | v6 (bits : BitVec 128)
  deriving DecidableEq, Inhabited, Repr

namespace IpAddress

/-- The address of eight groups. -/
def ofGroups (gs : List Nat) : IpAddress :=
  .v6 (BitVec.ofNat 128 (gs.foldl (fun n g => n * 65536 + g) 0))

/-- Whether the address names the machine itself. -/
def isLoopback : IpAddress → Bool
  | v4 bits => bits.toNat / 0x1000000 == 127
  | v6 bits => bits == 1

def isV6 : IpAddress → Bool
  | v4 _ => false
  | v6 _ => true

/-- The number that orders addresses of one kind. -/
def value : IpAddress → Nat
  | v4 bits => bits.toNat
  | v6 bits => bits.toNat

/-- Addresses of the first kind come first; within a kind the smaller number does. -/
def before (x y : IpAddress) : Bool :=
  match x.isV6, y.isV6 with
  | false, true => true
  | true, false => false
  | _, _ => x.value < y.value

/-- The four octets of a 32-bit number. -/
def octets (n : Nat) : List Nat :=
  [n / 0x1000000 % 256, n / 0x10000 % 256, n / 0x100 % 256, n % 256]

/-- The eight groups of a 128-bit number. -/
def groups (n : Nat) : List Nat := (List.range 8).map fun i => n >>> (16 * (7 - i)) % 65536

/-- Whether an address of the second kind embeds one of the first. -/
def embedsV4 (n : Nat) : Bool := n >>> 32 == 0xFFFF

def dotted (n : Nat) : String := ".".intercalate ((octets n).map toString)

/-- A group: lower-case hexadecimal digits without leading zeros. -/
def groupText (g : Nat) : String := String.ofList (Nat.toDigits 16 g)

/-- Number of zero groups at the front. -/
def zeroRun (gs : List Nat) : Nat := (gs.takeWhile (· == 0)).length

/-- The first place at which the longest run of zero groups starts, and its length. -/
def longestZeroRun : Nat → List Nat → Nat × Nat
  | _, [] => (0, 0)
  | i, g :: gs =>
    let here := zeroRun (g :: gs)
    let later := longestZeroRun (i + 1) gs
    if here ≥ later.2 then (i, here) else later

def colons (gs : List Nat) : String := ":".intercalate (gs.map groupText)

/-- The text of a 128-bit address. -/
def groupsText (n : Nat) : String :=
  let gs := groups n
  if embedsV4 n then "::ffff:" ++ dotted n
  else
    let (start, len) := longestZeroRun 0 gs
    if len < 2 then colons gs
    else colons (gs.take start) ++ "::" ++ colons (gs.drop (start + len))

def text : IpAddress → String
  | v4 bits => dotted bits.toNat
  | v6 bits => groupsText bits.toNat

end IpAddress

/-- An address and a port. An address of the second kind may carry a scope, which is 0 otherwise. -/
structure SocketAddress where
  ip : IpAddress
  port : UInt16
  scope : UInt32 := 0
  deriving DecidableEq, Inhabited, Repr

/-- The text of a socket address: brackets set off an address that has colons of its own. -/
def SocketAddress.text (a : SocketAddress) : String :=
  match a.ip with
  | .v4 _ => s!"{a.ip.text}:{a.port.toNat}"
  | .v6 _ =>
    if a.scope = 0 then s!"[{a.ip.text}]:{a.port.toNat}"
    else s!"[{a.ip.text}%{a.scope.toNat}]:{a.port.toNat}"

end SharedClipboard.Net
