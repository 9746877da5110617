import SharedClipboard.Error

/-!
# Why a session ends
-/

namespace SharedClipboard

/-- Why a session ended. -/
inductive CloseReason where
  | auth (cause : AuthError)
  | decode (cause : DecodeError)
  | transport (cause : TransportError)
  /-- The peer was silent for too long. -/
  | idle
  /-- The group has no use for the session any more. -/
  | kicked
  /-- The peer could not decode what it was sent. -/
  | peerReportedInvalid
  | protocolViolation (what : String)
  deriving DecidableEq, Repr, Inhabited

namespace CloseReason

def message : CloseReason → String
  | auth cause => s!"authentication failed: {cause.message}"
  | decode cause => s!"undecodable packet: {cause.message}"
  | transport cause => cause.message
  | idle => "idle timeout"
  | kicked => "closed by coordinator"
  | peerReportedInvalid => "peer reported an invalid packet"
  | protocolViolation what => s!"protocol violation: {what}"

/-- A member has no business with the handshake any more. -/
def lateHandshake : CloseReason := protocolViolation "handshake packet after authentication"

/-- The frames for the peer pile up. -/
def notDraining : CloseReason := transport (.ioFailure "peer is not draining its queue")

end CloseReason

end SharedClipboard
