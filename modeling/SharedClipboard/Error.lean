import SharedClipboard.IoError

/-!
# Errors

One type per place where something can go wrong, a constructor per cause, and one function per
type that words it.
-/

namespace SharedClipboard

/-- The upper-case hexadecimal text of a byte, two digits. -/
def hexByte (b : UInt8) : String :=
  let digit (n : Nat) : Char := if n < 10 then Char.ofNat (48 + n) else Char.ofNat (55 + n)
  String.ofList [digit (b.toNat / 16), digit (b.toNat % 16)]

/-- Why bytes are not a packet. -/
inductive DecodeError where
  /-- The input ends before `needed` bytes; only `available` are left. -/
  | truncated (needed available : Nat)
  /-- No packet starts with this tag. -/
  | unknownType (tag : UInt8)
  /-- A field claims to be longer than allowed. -/
  | lengthOverflow (declared max : Nat)
  /-- Bytes are left over after the packet. -/
  | trailingBytes (count : Nat)
  /-- The content type is no text. -/
  | invalidMimeType
  deriving DecidableEq, Repr, Inhabited

def DecodeError.message : DecodeError → String
  | .truncated needed available =>
    s!"truncated packet: need {needed} bytes, {available} available"
  | .unknownType tag => s!"unknown packet type: 0x{hexByte tag}"
  | .lengthOverflow declared max => s!"declared length {declared} exceeds maximum {max}"
  | .trailingBytes count => s!"{count} trailing bytes after packet"
  | .invalidMimeType => "mime type is not valid UTF-8"

/-- Why a handshake did not make its session a member. -/
inductive AuthError where
  | timeout
  | mismatch
  | malformed
  | rejected
  deriving DecidableEq, Repr, Inhabited

def AuthError.message : AuthError → String
  | .timeout => "handshake timed out"
  | .mismatch => "challenge response does not match"
  | .malformed => "malformed handshake message"
  | .rejected => "join request rejected"

/-- Why a connection could not be opened. -/
inductive ConnectError where
  | unreachable (text : String)
  | tlsFailure (text : String)
  | refused
  deriving DecidableEq, Repr, Inhabited

def ConnectError.message : ConnectError → String
  | .unreachable text => s!"peer unreachable: {text}"
  | .tlsFailure text => s!"TLS negotiation failed: {text}"
  | .refused => "connection refused"

/-- Why an open connection cannot be used any more. -/
inductive TransportError where
  | closed
  | ioFailure (text : String)
  deriving DecidableEq, Repr, Inhabited

def TransportError.message : TransportError → String
  | .closed => "connection closed"
  | .ioFailure text => s!"I/O failure: {text}"

/-- A connection that the other side ended, in whatever way, is closed; any other failure keeps
its text. -/
def TransportError.ofIo (e : IoError) : TransportError :=
  match e.kind with
  | .unexpectedEnd | .connectionReset | .connectionAborted | .brokenPipe => .closed
  | _ => .ioFailure e.text

/-- Why a connection attempt over TCP failed. -/
def ConnectError.ofIo (e : IoError) : ConnectError :=
  match e.kind with
  | .connectionRefused => .refused
  | _ => .unreachable e.text

/-- Why service discovery does not work. -/
inductive DiscoveryError where
  | unavailable (text : String)
  | advertise (text : String)
  | browse (text : String)
  deriving DecidableEq, Repr, Inhabited

def DiscoveryError.message : DiscoveryError → String
  | .unavailable text => s!"discovery service unavailable: {text}"
  | .advertise text => s!"failed to advertise service: {text}"
  | .browse text => s!"failed to browse for services: {text}"

/-- Why a text is not the expected value: it is not JSON, it is JSON of another shape, or it ends
too soon. -/
inductive FormatFault where
  | notJson
  | wrongShape
  | endsEarly
  deriving DecidableEq, Repr, Inhabited

def FormatFault.message : FormatFault → String
  | .notJson => "not JSON"
  | .wrongShape => "unexpected value"
  | .endsEarly => "unexpected end"

/-- Everything that can be reported to whoever runs a node. -/
inductive Error where
  | bind (port : UInt16) (source : TransportError)
  | discovery (cause : DiscoveryError)
  | connect (cause : ConnectError)
  | transport (cause : TransportError)
  | clipboard (text : String)
  | trust (text : String)
  | payloadTooLarge (field : String) (size max : Nat)
  | config (text : String)
  | serialization (fault : FormatFault)
  | io (cause : IoError)
  | stopped
  deriving DecidableEq, Repr, Inhabited

def Error.message : Error → String
  | .bind port source => s!"failed to bind port {port.toNat}: {source.message}"
  | .discovery cause => s!"Discovery error: {cause.message}"
  | .connect cause => s!"Connect error: {cause.message}"
  | .transport cause => s!"Transport error: {cause.message}"
  | .clipboard text => s!"Clipboard error: {text}"
  | .trust text => s!"Trust store error: {text}"
  | .payloadTooLarge field size max => s!"{field} is {size} bytes, the limit is {max}"
  | .config text => s!"Invalid configuration: {text}"
  | .serialization fault => s!"Failed to serialize/deserialize: {fault.message}"
  | .io cause => s!"IO error: {cause.text}"
  | .stopped => "coordinator has stopped"

end SharedClipboard
